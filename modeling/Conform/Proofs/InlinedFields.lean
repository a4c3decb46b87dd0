import Conform.Proofs.Flattening
import Conform.Proofs.InliningGuard
import Mathlib

/-!
# Conform.Proofs.InlinedFields

A document has the same fields before and after its references are replaced, except that what a
constraint holds of schemas is replaced in it as well (`Field.InlinesTo`). The two follow references
each in its own way:

```
replacing     refuses a reference met again on its branch
the fields    are not continued below a reference met again on the branch
```

Where replacing gives a schema, nothing on any branch was met again. So the fields stop nowhere, and
each step of the one is a step of the other, behind the same references (`settle_of_descend`).

A constraint alone can get lost, which is null afterwards. For a document that is nothing but
properties its field is lost with it: the field at the empty place, which stands for the constraints
that no other field can carry.
-/

namespace Conform

/-! ## Constraints and fields, before and after -/

/-- The value of a keyword with references replaced in the schemas that it holds. -/
def Inline.replaceAt (root : Json) (name : String) (j : Json) : Except Fault Json :=
  match positions.lookup name with
  | some shape => shape.replace (fun s => inlined s root) j
  | none => .ok j

/-- Constraints before and after references into a document are replaced in the schemas that they
hold. -/
def Constraints.InlinesTo (root : Json) (c c' : Constraints) : Prop :=
  ∀ slot ∈ Constraints.slots, Inline.replaceAt root slot.name (slot.get c) = .ok (slot.get c')

/-- A field before and after references are replaced in its constraints. -/
structure Field.InlinesTo (root : Json) (f f' : Field) : Prop where
  path : f'.path = f.path
  typing : f'.typing = f.typing
  constraints : f.constraints.InlinesTo root f'.constraints

/-- Computations that are alike and that only a fault of some kind stops. -/
structure AlikeUpTo {α β : Type} (kind : Fault → Prop) (R : α → β → Prop) (r : Except Fault α)
    (r' : Except Fault β) : Prop where
  alike : Alike R r r'
  kind_of_error : ∀ f, r = .error f → kind f

namespace AlikeUpTo

variable {α β γ δ : Type} {kind : Fault → Prop} {R : α → β → Prop} {S : γ → δ → Prop}
  {r : Except Fault α} {r' : Except Fault β}

theorem ok {x : α} {y : β} (h : R x y) : AlikeUpTo kind R (.ok x) (.ok y) := ⟨.ok h, nofun⟩

theorem error {f : Fault} (h : kind f) :
    AlikeUpTo kind R (.error f : Except Fault α) (.error f : Except Fault β) := by
  refine ⟨.error f, fun g hg => ?_⟩
  cases hg
  exact h

theorem bind {k : α → Except Fault γ} {k' : β → Except Fault δ} (h : AlikeUpTo kind R r r')
    (hk : ∀ x y, r = .ok x → r' = .ok y → R x y → AlikeUpTo kind S (k x) (k' y)) :
    AlikeUpTo kind S (r >>= k) (r' >>= k') := by
  obtain ⟨halike, hkind⟩ := h
  cases halike with
  | ok h => exact hk _ _ rfl rfl h
  | error f => exact error (hkind f rfl)

theorem imp {kind' : Fault → Prop} (h : AlikeUpTo kind R r r') (hkind : ∀ f, kind f → kind' f) :
    AlikeUpTo kind' R r r' := ⟨h.alike, fun f hf => hkind f (h.kind_of_error f hf)⟩

end AlikeUpTo

namespace Inline

variable {f : Json → Except Fault Json}

theorem items_of_forall₂ {xs ys : List Json} (h : List.Forall₂ (fun x y => f x = .ok y) xs ys) :
    items f xs = .ok ys := by
  induction h with
  | nil => rfl
  | cons h _ ih =>
    rw [items, h, ih]
    rfl

theorem members_of_related {ms ms' : Members}
    (h : Table.Related (fun x y => f x = .ok y) ms ms') : members f ms = .ok ms' := by
  induction h with
  | nil => rfl
  | @cons e e' ms ms' he _ ih =>
    obtain ⟨k, x⟩ := e
    obtain ⟨k', y⟩ := e'
    obtain ⟨rfl, hxy⟩ : k = k' ∧ f x = .ok y := he
    rw [members, hxy, ih]
    rfl

/-! The constraint of a keyword, by the way in which it holds schemas. -/

theorem replaceAt_of_shape {root : Json} {name : String} {shape : Shape} {j j' : Json}
    (hname : positions.lookup name = some shape)
    (h : shape.replace (fun s => inlined s root) j = .ok j') :
    replaceAt root name j = .ok j' := by
  simp only [replaceAt, hname, h]

theorem replaceAt_of_kept {root : Json} {name : String} {j j' : Json}
    (hname : positions.lookup name = none) (h : j' = j) : replaceAt root name j = .ok j' := by
  simp only [replaceAt, hname, h]

theorem replace_orNull (hnull : f .null = .ok .null) {o o' : Option Json}
    (h : Optional (fun x y => f x = .ok y) o o') :
    Shape.one.replace f (Constraints.orNull o) = .ok (Constraints.orNull o') := by
  cases h with
  | none => exact hnull
  | some h => exact h
  | dropped h => exact h

theorem replace_items (hnull : f .null = .ok .null) {o o' : Option Json}
    (h : ItemsRelated (fun x y => f x = .ok y) o o') :
    Shape.listOrOne.replace f (Constraints.orNull o) = .ok (Constraints.orNull o') := by
  cases h with
  | list h =>
    have hitems := items_of_forall₂ h
    simp only [Constraints.orNull, Option.getD_some, Shape.replace, hitems]
    rfl
  | alone ho h =>
    have hone := replace_orNull hnull h
    cases o with
    | none => exact hone
    | some s =>
      cases s with
      | arr xs => exact absurd rfl (ho xs)
      | _ => exact hone

theorem replace_listOrNull {o o' : Option (List Json)}
    (h : Option.Rel (List.Forall₂ fun x y => f x = .ok y) o o') :
    Shape.list.replace f (Constraints.listOrNull o) = .ok (Constraints.listOrNull o') := by
  cases h with
  | none => rfl
  | some h =>
    have hitems := items_of_forall₂ h
    simp only [Constraints.listOrNull, Constraints.orNull, Option.map_some, Option.getD_some,
      Shape.replace, hitems]
    rfl

theorem replace_membersOrNull {ms ms' : Members}
    (h : Table.Related (fun x y => f x = .ok y) ms ms') :
    Shape.table.replace f (Constraints.membersOrNull ms) =
      .ok (Constraints.membersOrNull ms') := by
  have hmembers := members_of_related h
  cases h with
  | nil => rfl
  | cons he h =>
    simp only [Constraints.membersOrNull, List.isEmpty_cons, Bool.false_eq_true, if_false,
      Shape.replace, hmembers]
    rfl

theorem replaceAt_null (root : Json) (name : String) : replaceAt root name .null = .ok .null := by
  unfold replaceAt
  split
  · next shape _ => cases shape <;> rfl
  · rfl

end Inline

theorem inlined_null (root : Json) : inlined .null root = .ok .null := rfl

namespace Constraints

variable {root : Json} {D : Json → Json → Prop} {n n' : Node}

/-- The constraints that a schema sets. -/
theorem inlinesTo_ofNode (h : Node.Related (fun s s' => inlined s root = .ok s') D n n')
    (required : Bool) : (ofNode n required).InlinesTo root (ofNode n' required) := by
  have hone {o o' : Option Json} (h : Optional (fun s s' => inlined s root = .ok s') o o') :=
    Inline.replace_orNull (f := fun s => inlined s root) (inlined_null root) h
  have hitems := Inline.replace_items (f := fun s => inlined s root) (inlined_null root) h.items
  obtain ⟨types, const, enum, string, number, minItems, maxItems, uniqueItems, -, -, contains,
    minProperties, maxProperties, -, -, patternProperties, additionalProperties, propertyNames, -,
    -, allOf, anyOf, oneOf, not, test, accepted, rejected⟩ := h
  intro slot hslot
  fin_cases hslot
  all_goals first
    | refine Inline.replaceAt_of_kept (by rfl) ?_
      simp only [ofNode, Node.declares, types, const, enum, string, number, minItems, maxItems,
        uniqueItems, minProperties, maxProperties]
    -- by the way in which the keyword holds schemas
    | exact Inline.replaceAt_of_shape (by rfl) (hone ‹_›)
    | exact Inline.replaceAt_of_shape (by rfl) (Inline.replace_listOrNull ‹_›)
    | exact Inline.replaceAt_of_shape (by rfl) hitems
    | exact Inline.replaceAt_of_shape (by rfl) (Inline.replace_membersOrNull patternProperties)

/-- The constraints of a document that none of its fields can carry. -/
theorem inlinesTo_ofRoot (h : Node.Related (fun s s' => inlined s root = .ok s') D n n') :
    (ofRoot n).InlinesTo root (ofRoot n') := by
  have hone {o o' : Option Json} (h : Optional (fun s s' => inlined s root = .ok s') o o') :=
    Inline.replace_orNull (f := fun s => inlined s root) (inlined_null root) h
  intro slot hslot
  fin_cases hslot
  all_goals first
    | exact Inline.replaceAt_null root _
    | refine Inline.replaceAt_of_kept (by rfl) ?_
      simp only [ofRoot, h.minProperties, h.maxProperties, h.dependentRequired]
    | exact Inline.replaceAt_of_shape (by rfl) (hone h.additionalProperties)
    | exact Inline.replaceAt_of_shape (by rfl) (hone h.propertyNames)
    | exact Inline.replaceAt_of_shape (by rfl) (Inline.replace_membersOrNull h.patternProperties)

/-- Constraints of which none is set stay so. -/
theorem inlinesTo_default (root : Json) : InlinesTo root {} {} := by
  intro slot hslot
  fin_cases hslot
  all_goals first
    | exact Inline.replaceAt_null root _
    | exact Inline.replaceAt_of_kept (by rfl) rfl

theorem isEmpty_iff {c : Constraints} :
    c.isEmpty = true ↔ ∀ slot ∈ slots, slot.get c = slot.get {} := by
  simp [isEmpty, toMembers]

theorem InlinesTo.isEmpty {c c' : Constraints} (h : c.InlinesTo root c') (hc : c.isEmpty = true) :
    c'.isEmpty = true := by
  rw [isEmpty_iff] at hc ⊢
  intro slot hslot
  have hslot' := h slot hslot
  rw [hc slot hslot, inlinesTo_default root slot hslot] at hslot'
  exact (Except.ok.inj hslot').symm

/-- Constraints of which none is set afterwards. -/
theorem InlinesTo.blank {c c' : Constraints} (h : c.InlinesTo root c') (hc : c'.isEmpty = true) :
    c.InlinesTo root {} := by
  rw [isEmpty_iff] at hc
  intro slot hslot
  rw [← hc slot hslot]
  exact h slot hslot

end Constraints

/-! ## Following references -/

namespace Json

/-- Every reference that can be met is a text. -/
def TextReferences (document : Option Json) (schema : Json) : Prop :=
  ∀ ms ref, Reaches document schema (.obj ms) → ms.lookup "$ref" = some ref → ∃ r, ref = .str r

theorem TextReferences.of_reaches {document : Option Json} {schema s : Json}
    (h : TextReferences document schema) (hs : Reaches document schema s) :
    TextReferences document s := fun ms ref hms => h ms ref (hs.trans hms)

/-- Schemas that lead only to each other show what can be met. -/
theorem TextReferences.of_closed {document : Option Json} {schema : Json} (l : List Json)
    (hschema : schema ∈ l) (hmeets : ∀ s ∈ l, ∀ t, Meets document s t → t ∈ l)
    (htext : ∀ s ∈ l, ∀ ref, s.get? "$ref" = some ref → ∃ r, ref = .str r) :
    TextReferences document schema := by
  intro ms ref hreaches href
  have hmem : ∀ {s}, Reaches document schema s → s ∈ l := fun hs => by
    induction hs with
    | refl => exact hschema
    | tail _ h ih => exact hmeets _ ih _ h
  exact htext _ (hmem hreaches) ref href

/-- A fault for which an object that can be met has no field: a keyword is of the wrong kind. -/
def Unreadable (document : Option Json) (schema : Json) (f : Fault) : Prop :=
  ∃ ms, Reaches document schema (.obj ms) ∧ (Node.ofMembers ms >>= Typing.ofNode) = .error f

end Json

namespace Field

/-- Where references end that lead from a schema, if replacing gives something for it: at a schema
that is no reference, of which replacing gives the same behind these references. None of them had
been followed before. -/
structure EndsAt (root s s' : Json) (n : Nat) (followed : List String) (leaf : Json)
    (chain : List String) : Prop where
  leads : Json.LeadsTo (some root) s leaf
  settled : leaf.get? "$ref" = none
  fresh : ∀ r ∈ chain, r ∉ followed
  gives : ∃ k ≤ n, Inline.descend true root k leaf (chain ++ followed) = .ok s'

variable {root s s' : Json} {refs : List String} {height n fuel : Nat}
  {chain followed : List String}

/-- Where references end, there is what is no object and stays, or an object that is replaced
keyword by keyword and has no reference before and after. -/
theorem EndsAt.cases {leaf : Json} (h : EndsAt root s s' n followed leaf chain) :
    (leaf.isObject = false ∧ s' = leaf) ∨
    ∃ ms ms' k, leaf = .obj ms ∧ s' = .obj ms' ∧ k < n ∧ Table.keyword ms "$ref" = none ∧
      (Json.obj ms').get? "$ref" = none ∧
      Inline.keywords (fun c => Inline.descend true root k c (chain ++ followed))
        Inline.positions ms = .ok ms' := by
  obtain ⟨-, hsettled, -, k, hk, hgives⟩ := h
  cases k with
  | zero => cases hgives
  | succ k =>
    cases leaf with
    | obj ms =>
      have hlookup : ms.lookup "$ref" = none := hsettled
      have hkeyword : Table.keyword ms "$ref" = none := by rw [Table.keyword, hlookup]
      rw [Inline.descend_object hkeyword] at hgives
      cases hms : Inline.keywords (fun c => Inline.descend true root k c (chain ++ followed))
          Inline.positions ms with
      | error f =>
        rw [hms] at hgives
        cases hgives
      | ok ms' =>
        rw [hms] at hgives
        cases hgives
        have hlookup' := (Inline.lookup_keywords_of_not_mem hms (by decide)).trans hlookup
        exact .inr ⟨ms, ms', k, rfl, rfl, by omega, hkeyword, hlookup', hms⟩
    | _ =>
      cases hgives
      exact .inl ⟨rfl, rfl⟩

/-- Where replacing gives a schema behind references, following references comes to an end. -/
theorem chase_of_descend
    (hscope : Evaluation.Call.Bounds refs height (Inline.scopeOf root))
    (hs : (Inline.call s chain).Bounded refs height) (htext : s.TextReferences (some root))
    (hfuel : refs.eraseDups.length < chain.length + fuel)
    (hfresh : ∀ r ∈ chain, r ∉ followed)
    (h : Inline.descend true root n s (chain ++ followed) = .ok s') :
    ∃ leaf chain', chase (some root) fuel s chain = .ok (leaf, chain') ∧
      EndsAt root s s' n followed leaf chain' := by
  induction n generalizing s chain fuel with
  | zero => cases h
  | succ n ih =>
    have hlen := hs.length_chain_le
    obtain ⟨fuel, rfl⟩ : ∃ k, fuel = k + 1 := ⟨fuel - 1, by dsimp [Inline.call] at hlen; omega⟩
    cases href : s.get? "$ref" with
    | none =>
      refine ⟨s, chain, ?_, .refl, href, hfresh, n + 1, Nat.le_refl _, h⟩
      rw [chase, href]
    | some ref =>
      obtain ⟨ms, rfl, hlookup⟩ : ∃ ms, s = .obj ms ∧ ms.lookup "$ref" = some ref := by
        cases s with
        | obj ms => exact ⟨ms, rfl, href⟩
        | _ => cases href
      obtain ⟨r, rfl⟩ := htext ms ref .refl hlookup
      have hkeyword : Table.keyword ms "$ref" = some (.str r) := by
        rw [Table.keyword, hlookup]
      rw [Inline.descend_reference hkeyword] at h
      obtain ⟨_, hpermit, h⟩ := bind_eq_ok h
      obtain ⟨target, htarget, h⟩ := bind_eq_ok h
      have hnew : r ∉ chain ∧ r ∉ followed := by
        have hnew := Pointer.permit_eq_ok_iff.mp hpermit rfl
        rw [List.mem_append, not_or] at hnew
        exact hnew
      have hpermit' : Pointer.permit true (.str r) chain = .ok () :=
        Pointer.permit_eq_ok_iff.mpr fun _ => hnew.1
      have hstep : chase (some root) (fuel + 1) (.obj ms) chain =
          chase (some root) fuel target (r :: chain) := by
        have htarget' : Pointer.target (.obj ms) (some root) = .ok target := by
          rw [Pointer.target, href]
          exact htarget
        rw [chase, href]
        dsimp only
        rw [hpermit', htarget']
        rfl
      have hleads : Json.RefersTo (some root) (.obj ms) target := .reference hkeyword rfl htarget
      have hopens : Evaluation.Call.Opens (Inline.scopeOf root) (Inline.call (.obj ms) chain)
          (Inline.call target (r :: chain)) := .follow hkeyword hpermit' htarget
      have hfuel' : refs.eraseDups.length < (r :: chain).length + fuel := by
        rw [List.length_cons]
        omega
      obtain ⟨leaf, chain', hchase, hends⟩ := ih (hs.of_opens hscope hopens)
        (htext.of_reaches (.single (.follow hleads))) hfuel'
        (List.forall_mem_cons.mpr ⟨hnew.2, hfresh⟩) h
      obtain ⟨k, hk, hgives⟩ := hends.gives
      exact ⟨leaf, chain', hstep.trans hchase, .head hleads hends.leads, hends.settled, hends.fresh,
        k, Nat.le_succ_of_le hk, hgives⟩

/-- Following references in as many steps as there can be. -/
theorem settle_of_descend (htext : s.TextReferences (some root))
    (h : Inline.descend true root n s followed = .ok s') :
    ∃ leaf chain, settle (some root) s = .ok (leaf, chain) ∧
      EndsAt root s s' n followed leaf chain := by
  have hcount : (Evaluation.knownReferences s (some root)).eraseDups.length =
      Pointer.referenceCount s (some root) := rfl
  have hfuel : (Evaluation.knownReferences s (some root)).eraseDups.length <
      ([] : List String).length + (Pointer.referenceCount s (some root) + 1) := by
    rw [hcount, List.length_nil]
    omega
  exact chase_of_descend (Inline.bounds_scopeOf s root)
    (Evaluation.bounded_start .null s "" (some root)) htext hfuel nofun h

/-! ## Fields below a schema -/

/-- What replacing makes of a schema inside another, behind references. What is no object stays,
also where no steps are left. -/
def Gives (root : Json) (n : Nat) (followed : List String) (s s' : Json) : Prop :=
  Inline.descend true root n s followed = .ok s' ∨ (∀ ms, s ≠ .obj ms) ∧ s' = s

theorem Gives.inlined (h : Gives root n followed s s') : inlined s root = .ok s' := by
  obtain h | ⟨hs, rfl⟩ := h
  · exact inlined_of_descend h
  · cases s' with
    | obj ms => exact absurd rfl (hs ms)
    | _ => rfl

/-- What is no object stays. -/
theorem Gives.eq_of_atom (h : Gives root n followed s s') (hs : s.isObject = false) : s' = s := by
  have hatom : ∀ ms, s ≠ .obj ms := by
    rintro ms rfl
    cases hs
  obtain h | ⟨-, rfl⟩ := h
  · exact (Json.InlinesTo.of_descend h).eq_of_ne_object hatom
  · rfl

/-- The node of an object, before and after. -/
theorem alike_ofMembers {ms ms' : Members}
    (h : Inline.keywords (fun s => Inline.descend true root n s followed) Inline.positions ms =
      .ok ms') :
    Alike (Node.Related (Gives root n followed) fun _ _ => True) (Node.ofMembers ms)
      (Node.ofMembers ms') := by
  have hrewritten : Inline.Rewritten (Gives root n followed) ms ms' :=
    Inline.rewritten_of_keywords (fun _ _ => .inl) h
  have halike := hrewritten.alike_ofMembers (fun _ hs => hs.eq_of_atom rfl) fun t =>
    .inr ⟨nofun, rfl⟩
  exact halike.imp_of_eq_ok fun _ _ _ hrelated =>
    hrelated.imp_of_mem (fun _ _ _ => id) fun _ _ _ _ => trivial

/-- The field of a schema, before and after. -/
theorem alike_ofNode {D : Json → Json → Prop} {n n' : Node}
    (h : Node.Related (fun s s' => Conform.inlined s root = .ok s') D n n') (path : String)
    (required : Bool) :
    AlikeUpTo (fun f => Typing.ofNode n = .error f) (Field.InlinesTo root)
      (ofNode n path required) (ofNode n' path required) := by
  have htyping : Typing.ofNode n' = Typing.ofNode n := by
    simp only [Typing.ofNode, Typing.inferred, Node.allowsNull, Node.declares, Node.hasConst,
      h.types, h.enum, h.const]
    rfl
  rw [ofNode, ofNode, htyping]
  cases Typing.ofNode n with
  | error f => exact .error rfl
  | ok typing => exact .ok ⟨rfl, rfl, Constraints.inlinesTo_ofNode h required⟩

/-- Fields before and after, or one fault of some kind in place of both. -/
abbrev ListsAlike (kind : Fault → Prop) (root : Json) :
    Except Fault (List Field) → Except Fault (List Field) → Prop :=
  AlikeUpTo kind (List.Forall₂ (Field.InlinesTo root))

section

variable {kind : Fault → Prop} {R D : Json → Json → Prop} {self self' : Descend} {n n' : Node}
  {followed' : List String} {ms' : Members}

/-- Readings of a schema inside each of two nodes that give fields before and after. -/
def Mirrors (kind : Fault → Prop) (root : Json) (self self' : Descend) (n n' : Node)
    (followed followed' : List String) (s s' : Json) : Prop :=
  ∀ name path, ListsAlike kind root (ofOne self name s path n followed)
    (ofOne self' name s' path n' followed')

theorem alike_append {f g f' g' : Except Fault (List Field)} (h : ListsAlike kind root f f')
    (h' : ListsAlike kind root g g') :
    ListsAlike kind root (f >>= fun xs => g >>= fun ys => .ok (xs ++ ys))
      (f' >>= fun xs => g' >>= fun ys => .ok (xs ++ ys)) :=
  h.bind fun _ _ _ _ hxs => h'.bind fun _ _ _ _ hys => .ok (List.rel_append hxs hys)

theorem alike_ofTable {t t' : Members} (place : String → String)
    (h : Table.Related (Mirrors kind root self self' n n' followed followed') t t') :
    ListsAlike kind root (ofTable self place n followed t)
      (ofTable self' place n' followed' t') := by
  induction h with
  | nil => exact .ok .nil
  | @cons e e' t t' he _ ih =>
    obtain ⟨name, s⟩ := e
    obtain ⟨name', s'⟩ := e'
    obtain ⟨rfl, hs⟩ :
        name = name' ∧ Mirrors kind root self self' n n' followed followed' s s' := he
    rw [ofTable_cons, ofTable_cons]
    exact alike_append (hs name (place name)) ih

/-- The entries of a table of schemas inside two nodes. -/
theorem mirrors_of_related {t t' : Members} (h : Table.Related R t t')
    (ht : ∀ e ∈ t, e.2 ∈ n.into) (ht' : ∀ e ∈ t', Within ms' e.2)
    (hself : ∀ s ∈ n.into, ∀ s', Within ms' s' → R s s' →
      Mirrors kind root self self' n n' followed followed' s s') :
    Table.Related (Mirrors kind root self self' n n' followed followed') t t' :=
  (forall₂_and_mem h).imp fun e e' he =>
    ⟨he.1.1, hself e.2 (ht e he.2.1) e'.2 (ht' e' he.2.2) he.1.2⟩

theorem alike_ofObject (h : Node.Related R D n n') (hn' : Node.ofMembers ms' = .ok n')
    (hself : ∀ s ∈ n.into, ∀ s', Within ms' s' → R s s' →
      Mirrors kind root self self' n n' followed followed' s s') (path : String) :
    ListsAlike kind root (ofObject self n path followed) (ofObject self' n' path followed') := by
  refine alike_append
    (alike_ofTable _ (mirrors_of_related h.properties (fun _ => Node.mem_into_of_named) ?_ hself))
    (alike_ofTable _
      (mirrors_of_related h.patternProperties (fun _ => Node.mem_into_of_pattern) ?_ hself))
  · exact fun e he => Node.within_of_mem_into hn' (Node.mem_into_of_named he)
  · exact fun e he => Node.within_of_mem_into hn' (Node.mem_into_of_pattern he)

theorem alike_ofItems (h : Node.Related R D n n') (hn' : Node.ofMembers ms' = .ok n')
    (hself : ∀ s ∈ n.into, ∀ s', Within ms' s' → R s s' →
      Mirrors kind root self self' n n' followed followed' s s') (name path : String) :
    ListsAlike kind root (ofItems self n name path followed)
      (ofItems self' n' name path followed') := by
  have hitems := h.items
  have hinto : ∀ s, n.array.items = some s → (∀ xs, s ≠ .arr xs) → s ∈ n.into :=
    fun _ => Node.mem_into_of_items
  have hwithin : ∀ s', n'.array.items = some s' → Within ms' s' := by
    rw [(Node.readFrom_of_ofMembers hn').array]
    exact fun s' hs' => .of_keyword hs'
  rw [ofItems_eq, ofItems_eq]
  generalize n.array.items = o at hitems hinto ⊢
  generalize n'.array.items = o' at hitems hwithin ⊢
  cases hitems with
  | list _ => exact .ok .nil
  | alone ho hone =>
    cases hone with
    | none => exact .ok .nil
    | @some s s' hs =>
      have hlist : ∀ xs, s ≠ .arr xs := fun xs hxs => ho xs (congrArg some hxs)
      exact hself s (hinto s rfl hlist) s' (hwithin s' rfl) hs _ _
    | @dropped s hs =>
      have hlist : ∀ xs, s ≠ .arr xs := fun xs hxs => ho xs (congrArg some hxs)
      have hnull : Within ms' .null := ⟨Nat.zero_le _, List.nil_subset _⟩
      exact hself s (hinto s rfl hlist) .null hnull hs _ _

theorem alike_ofChildren (h : Node.Related R D n n') (hn' : Node.ofMembers ms' = .ok n')
    (hself : ∀ s ∈ n.into, ∀ s', Within ms' s' → R s s' →
      Mirrors kind root self self' n n' followed followed' s s') (name path : String) :
    ListsAlike kind root (ofChildren self n name path followed)
      (ofChildren self' n' name path followed') := by
  have hdeclares : n'.declares = n.declares := by
    funext type
    rw [Node.declares, Node.declares, h.types]
  rw [ofChildren_eq, ofChildren_eq, hdeclares]
  refine alike_append ?_ ?_
  · split
    · exact alike_ofObject h hn' hself path
    · exact .ok .nil
  · split
    · exact alike_ofItems h hn' hself name path
    · exact .ok .nil

end

/-- A schema inside another before and after, if their fields are. -/
theorem mirrors_of_gives {kind : Fault → Prop} {self : Descend} {document : Option Json} {m : Nat}
    {nd nd' : Node} (h : Gives root n followed s s') (hm : 0 < m)
    (hdescend : Inline.descend true root n s followed = .ok s' → ∀ name path,
      ListsAlike kind root (self name s path nd followed)
        (descend document m name s' path nd' [])) :
    Mirrors kind root self (descend document m) nd nd' followed [] s s' := by
  intro name path
  cases hs : s.isObject with
  | false =>
    rw [h.eq_of_atom hs, ofOne, ofOne, hs]
    exact .ok .nil
  | true =>
    have hgives : Inline.descend true root n s followed = .ok s' := by
      refine h.resolve_right fun hatom => ?_
      cases s with
      | obj ms => exact hatom.1 ms rfl
      | _ => cases hs
    have hbelow := hdescend hgives name path
    rw [ofOne, ofOne, hs]
    cases hs' : s'.isObject with
    | true => exact hbelow
    | false =>
      obtain ⟨m, rfl⟩ : ∃ j, m = j + 1 := ⟨m - 1, by omega⟩
      have hnone : s'.get? "$ref" = none := by
        cases s' with
        | obj ms => cases hs'
        | _ => rfl
      rw [descend_atom (settle_of_get?_eq_none hnone) hs'] at hbelow
      exact hbelow

/-- What is made of the node of an object, before and after, if it is alike for nodes whose schemas
replacing has been through. -/
theorem alike_of_object {schema : Json} {ms ms' : Members} {α : Type} {R : α → α → Prop}
    {k k' : Node → Except Fault α} (hreaches : Json.Reaches (some root) schema (.obj ms))
    (hms : Inline.keywords (fun c => Inline.descend true root n c followed) Inline.positions ms =
      .ok ms')
    (hk : ∀ nd nd', Node.ofMembers ms = .ok nd → Node.ofMembers ms' = .ok nd' →
      (∀ f, Typing.ofNode nd = .error f → Json.Unreadable (some root) schema f) →
      Node.Related (Gives root n followed) (fun _ _ => True) nd nd' →
      AlikeUpTo (Json.Unreadable (some root) schema) R (k nd) (k' nd')) :
    AlikeUpTo (Json.Unreadable (some root) schema) R (Node.ofMembers ms >>= k)
      (Node.ofMembers ms' >>= k') := by
  have hnode : AlikeUpTo (Json.Unreadable (some root) schema)
      (Node.Related (Gives root n followed) fun _ _ => True) (Node.ofMembers ms)
      (Node.ofMembers ms') := by
    refine ⟨alike_ofMembers hms, fun f hf => ⟨ms, hreaches, ?_⟩⟩
    rw [hf]
    rfl
  refine hnode.bind fun nd nd' hn hn' hrelated => hk nd nd' hn hn' (fun f hf => ?_) hrelated
  refine ⟨ms, hreaches, ?_⟩
  rw [hn]
  exact hf

/-- The field of a schema and the fields below it, before and after references are replaced. Where
references end the two are in step: there is no reference on either side, and each goes on to the
same places. -/
theorem alike_descend {schema : Json} {document : Option Json} {m m' : Nat}
    (htext : schema.TextReferences (some root)) (hreaches : Json.Reaches (some root) schema s)
    (h : Inline.descend true root n s followed = .ok s') (hm : n ≤ m) (hm' : s'.height < m')
    (name path : String) {parent parent' : Node}
    (hparent : parent'.object.required = parent.object.required) :
    ListsAlike (Json.Unreadable (some root) schema) root
      (descend (some root) m name s path parent followed)
      (descend document m' name s' path parent' []) := by
  induction n using Nat.strongRecOn generalizing s s' followed m m' name path parent parent' with
  | ind n ih =>
    obtain ⟨leaf, chain, hsettle, hends⟩ := settle_of_descend (htext.of_reaches hreaches) h
    have hleaf := hreaches.trans (Json.reaches_of_leadsTo hends.leads)
    obtain ⟨m', rfl⟩ : ∃ j, m' = j + 1 := ⟨m' - 1, by omega⟩
    obtain ⟨hatom, rfl⟩ | ⟨ms, ms', k, rfl, rfl, hk, hkeyword, hnone, hms⟩ := hends.cases
    · obtain ⟨m, rfl⟩ : ∃ j, m = j + 1 := by
        cases n with
        | zero => cases h
        | succ n => exact ⟨m - 1, by omega⟩
      have hnone : s'.get? "$ref" = none := hends.settled
      rw [descend_atom hsettle hatom, descend_atom (settle_of_get?_eq_none hnone) hatom]
      exact .ok .nil
    · obtain ⟨m, rfl⟩ : ∃ j, m = j + 1 := ⟨m - 1, by omega⟩
      rw [descend_object hsettle hends.fresh, descend_object (settle_of_get?_eq_none hnone) nofun,
        hparent]
      refine alike_of_object hleaf hms fun nd nd' hn hn' htyping hrelated => ?_
      have hinlined := hrelated.imp_of_mem (fun _ _ _ hcc' => hcc'.inlined) fun _ _ _ => id
      have hfield := alike_ofNode hinlined path (parent.object.required.contains (.str name))
      refine (hfield.imp htyping).bind fun f f' _ _ hf => ?_
      refine (alike_ofChildren hrelated hn' ?_ name path).bind fun below below' _ _ hbelow =>
        .ok (.cons hf hbelow)
      intro c hc c' hc' hcc'
      have hheight : c'.height < m' := by
        have hle := hc'.height_le
        rw [Json.height] at hm'
        omega
      refine mirrors_of_gives hcc' (Nat.zero_lt_of_lt hheight) fun hgives name path => ?_
      exact ih k hk (hleaf.tail (.into (.keywords hkeyword hn) hc)) hgives (by omega) hheight
        name path hrelated.required

/-! ## Documents -/

/-- The fields of a document before and after. Afterwards the one at the empty place is missing if
none of its constraints is left. -/
def ListInlinesTo (root : Json) (fields fields' : List Field) : Prop :=
  List.Forall₂ (Field.InlinesTo root) fields fields' ∨
  ∃ own rest, fields = ⟨"", { type := .object }, own⟩ :: rest ∧ own.InlinesTo root {} ∧
    List.Forall₂ (Field.InlinesTo root) rest fields'

/-- Constraints of a document in front of its other fields, before and after. -/
theorem listInlinesTo_own {own own' : Constraints} {fields fields' : List Field}
    (hown : own.InlinesTo root own')
    (hfields : List.Forall₂ (Field.InlinesTo root) fields fields') :
    ListInlinesTo root
      (if own.isEmpty then fields else ⟨"", { type := .object }, own⟩ :: fields)
      (if own'.isEmpty then fields' else ⟨"", { type := .object }, own'⟩ :: fields') := by
  cases hempty : own.isEmpty with
  | true =>
    rw [hown.isEmpty hempty]
    exact .inl hfields
  | false =>
    cases hempty' : own'.isEmpty with
    | true => exact .inr ⟨own, fields, rfl, hown.blank hempty', hfields⟩
    | false => exact .inl (.cons ⟨rfl, rfl, hown⟩ hfields)

theorem alike_ofDocument {kind : Fault → Prop} {document document' : Option Json} {m m' : Nat}
    {D : Json → Json → Prop} {nd nd' : Node}
    (h : Node.Related (fun s s' => inlined s root = .ok s') D nd nd')
    (htyping : ∀ f, Typing.ofNode nd = .error f → kind f)
    (hobject : ListsAlike kind root (ofObject (descend document m) nd "" chain)
      (ofObject (descend document' m') nd' "" [])) :
    AlikeUpTo kind (ListInlinesTo root) (ofDocument document m nd chain)
      (ofDocument document' m' nd' []) := by
  have hpresent : nd'.composition.present = nd.composition.present := by
    have hisSome {o o' : Option (List Json)}
        (h : Option.Rel (List.Forall₂ fun s s' => inlined s root = .ok s') o o') :
        o'.isSome = o.isSome := by
      cases h <;> rfl
    simp only [CompositionKeywords.present, hisSome h.allOf, hisSome h.anyOf, hisSome h.oneOf]
  rw [ofDocument, ofDocument, hpresent]
  cases nd.composition.present with
  | true =>
    refine ((alike_ofNode h "" false).imp htyping).bind fun f f' _ _ hf => ?_
    exact .ok (.inl (.cons hf .nil))
  | false =>
    refine hobject.bind fun fields fields' _ _ hfields => .ok ?_
    exact listInlinesTo_own (Constraints.inlinesTo_ofRoot h) hfields

theorem alike_ofSchema {R : Json} (htext : root.TextReferences (some root))
    (h : inlined root root = .ok R) :
    AlikeUpTo (Json.Unreadable (some root) root) (ListInlinesTo root)
      (ofSchema root "" none) (ofSchema R "" none) := by
  cases hobject : root.isObject with
  | false =>
    have hatom : Pointer.document root none = none ∧ root.get? "$ref" = none := by
      cases root with
      | obj ms => cases hobject
      | _ => exact ⟨rfl, rfl⟩
    have hsame : R = root := (Json.InlinesTo.of_inlined h).eq_of_ne_object fun ms hms => by
      rw [hms] at hobject
      cases hobject
    rw [hsame, ofSchema_atom hatom.1 (settle_of_get?_eq_none hatom.2) hobject]
    exact .ok (.inl .nil)
  | true =>
    have hdocument : Pointer.document root none = some root := by
      cases root with
      | obj ms => rfl
      | _ => cases hobject
    obtain ⟨leaf, chain, hsettle, hends⟩ := settle_of_descend htext h
    have hleaf := Json.reaches_of_leadsTo hends.leads
    obtain ⟨hatom, rfl⟩ | ⟨ms, ms', k, rfl, rfl, hk, hkeyword, hnone, hms⟩ := hends.cases
    · have hsettled : settle (Pointer.document R none) R = .ok (R, []) :=
        settle_of_get?_eq_none hends.settled
      rw [ofSchema_atom hdocument hsettle hatom, ofSchema_atom rfl hsettled hatom]
      exact .ok (.inl .nil)
    · rw [ofSchema_object hdocument hsettle, ofSchema_object rfl (settle_of_get?_eq_none hnone)]
      refine alike_of_object hleaf hms fun nd nd' hn hn' htyping hrelated => ?_
      have hinlined := hrelated.imp_of_mem (fun _ _ _ hcc' => hcc'.inlined) fun _ _ _ => id
      refine alike_ofDocument hinlined htyping (alike_ofObject hrelated hn' ?_ "")
      intro c hc c' hc' hcc'
      rw [List.append_nil] at hcc'
      refine mirrors_of_gives hcc' (Nat.zero_lt_succ _) fun hgives name path => ?_
      have hheight : c'.height < Pointer.reach (.obj ms') (some (.obj ms')) + 1 := by
        have hle := hc'.height_le
        have hreach := Pointer.height_lt_reach (.obj ms') (some (.obj ms'))
        rw [Json.height] at hreach
        omega
      exact alike_descend htext (hleaf.tail (.into (.keywords hkeyword hn) hc)) hgives (by omega)
        hheight name path hrelated.required

/-- A document has the same fields before and after its references are replaced, one by one and with
references replaced in their constraints. Afterwards the field at the empty place may be missing,
which then carried nothing but constraints that are null in the end. Fields are refused only for an
object that can be met and has a keyword of the wrong kind, and before and after with the same
fault. -/
theorem fields_inlined {R : Json} (htext : root.TextReferences (some root))
    (h : inlined root root = .ok R) :
    (∃ fields fields', ofSchema root "" none = .ok fields ∧ ofSchema R "" none = .ok fields' ∧
      ListInlinesTo root fields fields') ∨
    ∃ f, ofSchema root "" none = .error f ∧ ofSchema R "" none = .error f ∧
      Json.Unreadable (some root) root f := by
  obtain ⟨halike, hkind⟩ := alike_ofSchema htext h
  generalize hfields : ofSchema root "" none = fields at halike hkind
  generalize hfields' : ofSchema R "" none = fields' at halike
  cases halike with
  | ok hlist => exact .inl ⟨_, _, rfl, rfl, hlist⟩
  | error f => exact .inr ⟨f, rfl, rfl, hkind f rfl⟩

/-- A document with words in a list. -/
def tagged : Json :=
  .obj [("properties", .obj [("tags", .obj [("$ref", .str "#/$defs/list")])]),
    ("$defs", .obj [
      ("list", .obj [("type", .str "array"), ("items", .obj [("$ref", .str "#/$defs/word")])]),
      ("word", .obj [("minLength", .num (.int 1))])])]

theorem textReferences_tagged : tagged.TextReferences (some tagged) := by
  have hlist : Pointer.resolve (.str "#/$defs/list") tagged =
      .ok (.obj [("type", .str "array"), ("items", .obj [("$ref", .str "#/$defs/word")])]) := by cbv
  have hword : Pointer.resolve (.str "#/$defs/word") tagged =
      .ok (.obj [("minLength", .num (.int 1))]) := by cbv
  refine .of_closed [tagged, .obj [("$ref", .str "#/$defs/list")],
    .obj [("type", .str "array"), ("items", .obj [("$ref", .str "#/$defs/word")])],
    .obj [("$ref", .str "#/$defs/word")], .obj [("minLength", .num (.int 1))]]
    List.mem_cons_self (fun s hs t hmeets => ?_) fun s hs ref href => ?_
  · simp only [List.mem_cons, List.not_mem_nil, or_false] at hs ⊢
    cases hmeets with
    | again h hagain =>
      obtain ⟨hnone, hn⟩ := h
      obtain hs | hs | hs | hs | hs := hs <;> cases hs <;> cases hnone <;> cases hn <;> cases hagain
    | into h hinto =>
      obtain ⟨hnone, hn⟩ := h
      obtain hs | hs | hs | hs | hs := hs <;> cases hs <;> cases hnone <;> cases hn
      all_goals first
        | cases hinto with
          | head => simp
          | tail _ hinto => cases hinto
        | cases hinto
    | follow h =>
      obtain ⟨href, hroot, htarget⟩ := h
      obtain hs | hs | hs | hs | hs := hs <;> cases hs <;> cases href <;> cases hroot
      · cases hlist.symm.trans htarget
        simp
      · cases hword.symm.trans htarget
        simp
  · simp only [List.mem_cons, List.not_mem_nil, or_false] at hs
    obtain rfl | rfl | rfl | rfl | rfl := hs <;> cases href <;> exact ⟨_, rfl⟩

/-- What is asked of the words is the same without the definitions. -/
theorem tagged_fields :
    tagged.TextReferences (some tagged) ∧
    ∃ R fields fields', inlined tagged tagged = .ok R ∧ ofSchema tagged "" none = .ok fields ∧
      ofSchema R "" none = .ok fields' ∧ fields.map path = ["tags", "tags[*]"] ∧
      ListInlinesTo tagged fields fields' := by
  have hinlined : inlined tagged tagged =
      .ok (.obj [("properties", .obj [("tags", .obj [("type", .str "array"),
          ("items", .obj [("minLength", .num (.int 1))])])]),
        ("$defs", .obj [
          ("list", .obj [("type", .str "array"), ("items", .obj [("$ref", .str "#/$defs/word")])]),
          ("word", .obj [("minLength", .num (.int 1))])])]) := by cbv
  have hpaths : (ofSchema tagged "" none).map (List.map path) = .ok ["tags", "tags[*]"] := by cbv
  refine ⟨textReferences_tagged, ?_⟩
  obtain ⟨fields, fields', hfields, hfields', hlist⟩ | ⟨f, hf, -⟩ :=
    fields_inlined textReferences_tagged hinlined
  · rw [hfields] at hpaths
    exact ⟨_, fields, fields', hinlined, hfields, hfields', Except.ok.inj hpaths, hlist⟩
  · rw [hf] at hpaths
    cases hpaths

/-- A document whose additional members have to be as a null says. -/
def unasking : Json :=
  .obj [("additionalProperties", .obj [("$ref", .str "#/default")]), ("default", .null)]

theorem textReferences_unasking : unasking.TextReferences (some unasking) := by
  have hdefault : Pointer.resolve (.str "#/default") unasking = .ok .null := by cbv
  refine .of_closed [unasking, .obj [("$ref", .str "#/default")], .null]
    List.mem_cons_self (fun s hs t hmeets => ?_) fun s hs ref href => ?_
  · simp only [List.mem_cons, List.not_mem_nil, or_false] at hs ⊢
    cases hmeets with
    | again h hagain =>
      obtain ⟨hnone, hn⟩ := h
      obtain hs | hs | hs := hs <;> cases hs <;> cases hnone
      cases hn
      cases hagain
    | into h hinto =>
      obtain ⟨hnone, hn⟩ := h
      obtain hs | hs | hs := hs <;> cases hs <;> cases hnone
      cases hn
      cases hinto with
      | head => simp
      | tail _ hinto => cases hinto
    | follow h =>
      obtain ⟨href, hroot, htarget⟩ := h
      obtain hs | hs | hs := hs <;> cases hs <;> cases href
      cases hroot
      cases hdefault.symm.trans htarget
      simp
  · simp only [List.mem_cons, List.not_mem_nil, or_false] at hs
    obtain rfl | rfl | rfl := hs <;> cases href
    exact ⟨_, rfl⟩

/-- A document with a member that has to be of a type that is none. -/
def untyped : Json :=
  .obj [("properties", .obj [("x", .obj [("$ref", .str "#/default")])]),
    ("default", .obj [("type", .num (.int 5))])]

/-- Null is no longer a constraint, and the only field is lost with it. What is of a type that is
none has no field before and after. -/
theorem fields_lost :
    unasking.TextReferences (some unasking) ∧
    inlined unasking unasking = .ok (.obj [("additionalProperties", .null), ("default", .null)]) ∧
    (ofSchema unasking "" none).map (List.map path) = .ok [""] ∧
    ofSchema (.obj [("additionalProperties", .null), ("default", .null)]) "" none = .ok [] ∧
    inlined untyped untyped =
      .ok (.obj [("properties", .obj [("x", .obj [("type", .num (.int 5))])]),
        ("default", .obj [("type", .num (.int 5))])]) ∧
    ofSchema untyped "" none = .error .wrongKind :=
  ⟨textReferences_unasking, by cbv, by cbv, by cbv, by cbv, by cbv⟩

end Field

end Conform
