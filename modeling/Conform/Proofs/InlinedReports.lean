import Conform.Proofs.CycleGuard
import Conform.Proofs.Inlining
import Conform.Proofs.Restatement
import Mathlib

/-!
# Conform.Proofs.InlinedReports

Whether a schema means the same when its references are replaced. It is evaluated against one
document before and after. The main statement is that evaluation after gives the reports of
evaluation before, wherever that gives any, and accepts what it accepts; but a reference in the
place of `false` or of null counts for something else there than what it leads to:

```
"additionalProperties": a reference to false    another code afterwards
"additionalItems": a reference to false         another code afterwards
"contains": a reference to null                 no such keyword afterwards
```

Before, a reference is followed in an evaluation of its own, behind a longer chain and with fewer
steps left (`Evaluation.descend_of_leadsTo`). Behind it the two evaluations look at the same node,
but for schemas inside that were replaced, and there the rules decide (`Evaluation.Mirrors`). A
schema that was not replaced is its own counterpart, for what replacing leaves alone still leads
into the document.
-/

namespace Conform

/-- From a schema, evaluation can come to a keyword for additional items or members that forbids
them by a reference. -/
def Json.ForbidsByReference (document : Option Json) (schema : Json) : Prop :=
  ∃ s n c, Reaches document schema s ∧ s.ReadsAs n ∧
    (n.array.additionalItems = some c ∨ n.object.additionalProperties = some c) ∧
    c ≠ .bool false ∧ LeadsTo document c (.bool false)

/-- From a schema, evaluation can come to a keyword that wants an item to match what a reference
finds to be null. -/
def Json.WantsNull (document : Option Json) (schema : Json) : Prop :=
  ∃ s n c, Reaches document schema s ∧ s.ReadsAs n ∧ n.array.contains = some c ∧
    LeadsTo document c .null

/-- A schema that can be met before references are replaced, and what stands in its place
afterwards: what it becomes, or itself where it is not replaced. -/
def Json.Counterpart (root schema s s' : Json) : Prop :=
  Reaches (some root) schema s ∧ (s' = s ∨ InlinesTo root s s')

namespace Json.Counterpart

variable {root schema s s' : Json}

theorem exists_leaf (h : Counterpart root schema s s') :
    ∃ leaf, LeadsTo (some root) s leaf ∧ (s' = leaf ∨ RewritesTo root leaf s') := by
  obtain ⟨-, rfl | ⟨leaf, hleads, hleaf⟩⟩ := h
  · exact ⟨s', .refl, .inl rfl⟩
  · exact ⟨leaf, hleads, .inr hleaf⟩

theorem leadsTo_of_ne_object (h : Counterpart root schema s s') (hs' : ∀ ms, s' ≠ .obj ms) :
    LeadsTo (some root) s s' := by
  obtain ⟨-, rfl | h⟩ := h
  · exact .refl
  · exact h.leadsTo_of_ne_object hs'

theorem eq_of_ne_object (h : Counterpart root schema s s') (hs : ∀ ms, s ≠ .obj ms) : s' = s :=
  h.2.elim id fun h => h.eq_of_ne_object hs

/-- The schemas inside a node that is met, beside themselves. -/
theorem related_refl (hs : Reaches (some root) schema s) {n : Node} (hn : s.ReadsAs n) :
    Node.Related (Counterpart root schema) (Counterpart root schema) n n :=
  (Node.Related.refl (R := Eq) (fun _ => rfl) n).imp_of_mem
    (fun _ ht _ heq => ⟨hs.tail (ht.elim (.again hn) (.into hn)), .inl heq.symm⟩)
    (fun _ ht _ heq => ⟨hs.tail (.again hn ht), .inl heq.symm⟩)

/-- The node of an object that is met, before and after its references are replaced. -/
theorem alike_ofMembers {ms ms' : Members} (hs : Reaches (some root) schema (.obj ms))
    (h : RewritesTo root (.obj ms) (.obj ms')) :
    Alike (Node.Related (Counterpart root schema) (Counterpart root schema)) (Node.ofMembers ms)
      (Node.ofMembers ms') := by
  cases h with
  | value h => exact absurd rfl (h _)
  | object href h =>
    refine (alike_ofMembers_of_inlined h).imp_of_eq_ok fun n n' hr hrelated => ?_
    have hn : (Json.obj ms).ReadsAs n := .keywords href hr
    refine hrelated.imp_of_mem (fun t ht t' hinlines => ?_) fun t ht t' hinlines => ?_
    · exact ⟨hs.tail (ht.elim (.again hn) (.into hn)), .inr hinlines⟩
    · exact ⟨hs.tail (.again hn ht), hinlines.symm.imp_left And.left⟩

end Json.Counterpart

namespace Evaluation

variable {scope : Scope} {root schema : Json}

variable [Host] in
/-- References are followed one by one, until one stops evaluation or the schema is reached that
they lead to. -/
theorem descend_of_leadsTo (hroot : scope.root = some root) {s leaf : Json}
    (h : Json.LeadsTo (some root) s leaf) (n : Nat) (value : Json) (path : String)
    (chain : List String) :
    (∃ f, descend scope n value s path chain = .stop f) ∨
      ∃ k ≤ n, ∃ c, chain ⊆ c ∧
        descend scope n value s path chain = descend scope k value leaf path c := by
  induction h using Relation.ReflTransGen.head_induction_on generalizing n chain with
  | refl => exact .inr ⟨n, Nat.le_refl n, chain, List.Subset.refl _, rfl⟩
  | head hrefers _ ih =>
    cases n with
    | zero => exact .inl ⟨.exhausted, rfl⟩
    | succ n =>
      obtain ⟨href, hroot', htarget⟩ := hrefers
      cases hroot'
      simp only [descend, step, href, followRule, referred, hroot, htarget]
      cases Pointer.permit scope.guarded _ chain with
      | error f => exact .inl ⟨f, rfl⟩
      | ok u =>
        obtain hstop | ⟨k, hk, c, hc, heq⟩ := ih n (Pointer.lengthen chain _)
        · exact .inl hstop
        · exact .inr ⟨k, Nat.le_succ_of_le hk, c,
            List.Subset.trans (Pointer.subset_lengthen chain _) hc, heq⟩

variable [Host] in
/-- A schema that becomes something else than an object is a boolean or none at all. -/
theorem leaf_of_counterpart (hroot : scope.root = some root) {s s' : Json}
    (h : Json.Counterpart root schema s s') (hs' : ∀ ms, s' ≠ .obj ms) (n : Nat) (value : Json)
    (path : String) (chain : List String) :
    (∃ f, descend scope n value s path chain = .stop f) ∨
      ∃ b, s' = .bool b ∧ descend scope n value s path chain = booleanRule b value path := by
  obtain hstop | ⟨k, -, c, -, heq⟩ :=
    descend_of_leadsTo hroot (h.leadsTo_of_ne_object hs') n value path chain
  · exact .inl hstop
  · rw [heq]
    cases k with
    | zero => exact .inl ⟨.exhausted, rfl⟩
    | succ k =>
      cases s' with
      | obj ms => exact absurd rfl (hs' ms)
      | bool b => cases b <;> exact .inr ⟨_, rfl, rfl⟩
      | _ => exact .inl ⟨_, rfl⟩

/-- What is read by how it is written makes a difference in two places only. -/
theorem faithful_of_reaches (hwants : ¬ schema.WantsNull (some root)) {s : Json} {n : Node}
    (hs : Json.Reaches (some root) schema s) (hn : s.ReadsAs n) :
    Faithful (schema.ForbidsByReference (some root)) (Json.Counterpart root schema) n where
  items c hc hne h :=
    ⟨s, n, c, hs, hn, .inl hc, hne, h.leadsTo_of_ne_object nofun⟩
  members c hc hne h :=
    ⟨s, n, c, hs, hn, .inr hc, hne, h.leadsTo_of_ne_object nofun⟩
  contains c hc h := hwants ⟨s, n, c, hs, hn, hc, h.leadsTo_of_ne_object nofun⟩

section Step

variable {self self' : Evaluate} {chain chain' : List String}
  (hmirrors : Mirrors (schema.ForbidsByReference (some root)) (Json.Counterpart root schema) self
    self' chain chain')

include hmirrors

variable [Host] in
/-- Two objects that are no references, with related nodes. -/
theorem restates_step_of_alike (hwants : ¬ schema.WantsNull (some root)) {ms ms' : Members}
    (hreached : Json.Reaches (some root) schema (.obj ms)) (href : Table.keyword ms "$ref" = none)
    (href' : Table.keyword ms' "$ref" = none)
    (halike : Alike (Node.Related (Json.Counterpart root schema) (Json.Counterpart root schema))
      (Node.ofMembers ms) (Node.ofMembers ms')) (value : Json) (path : String) :
    Trace.Restates (schema.ForbidsByReference (some root))
      (step scope self value (.obj ms) path chain)
      (step scope self' value (.obj ms') path chain') := by
  simp only [step, href, href']
  cases hr : Node.ofMembers ms with
  | error f => exact .stop f _
  | ok n =>
    rw [hr] at halike
    generalize Node.ofMembers ms' = r' at halike
    cases halike with
    | ok hrelated =>
      exact hmirrors.nodeRules hrelated (faithful_of_reaches hwants hreached (.keywords href hr))
        value path

variable [Host] in
/-- One schema, for which the second evaluation follows every reference that the first one does. -/
theorem restates_step_self (hroot : scope.root = some root)
    (hwants : ¬ schema.WantsNull (some root)) (hchain : chain' ⊆ chain) {s : Json}
    (hreached : Json.Reaches (some root) schema s) (value : Json) (path : String)
    (hfollow : ∀ target, Json.RefersTo (some root) s target → ∀ ref,
      Trace.Restates (schema.ForbidsByReference (some root))
        (self value target path (Pointer.lengthen chain ref))
        (self' value target path (Pointer.lengthen chain' ref))) :
    Trace.Restates (schema.ForbidsByReference (some root)) (step scope self value s path chain)
      (step scope self' value s path chain') := by
  cases s with
  | bool b => cases b <;> exact .refl _
  | obj ms =>
    cases href : Table.keyword ms "$ref" with
    | none =>
      refine restates_step_of_alike hmirrors hwants hreached href href ?_ value path
      cases hr : Node.ofMembers ms with
      | error f => exact .error f
      | ok n => exact .ok (Json.Counterpart.related_refl hreached (.keywords href hr))
    | some ref =>
      simp only [step, href, followRule]
      have hlaxer : Laxer scope scope chain chain' := fun hguard => ⟨hguard, hchain⟩
      obtain ⟨r, -, hrefused⟩ | hpermit := hlaxer.permit ref
      · rw [hrefused]
        exact .stop _ _
      · rw [← hpermit]
        refine .after fun _ => ?_
        cases htarget : referred scope ref with
        | error f => exact .stop f _
        | ok target =>
          exact hfollow target (hroot ▸ refersTo_of_referred href htarget) ref
  | _ => exact .stop _ _

end Step

variable [Host] in
/-- Evaluation restates its reports for the counterpart of a schema, with any more steps and behind
a shorter chain. -/
theorem restates_descend (hroot : scope.root = some root) (hwants : ¬ schema.WantsNull (some root))
    {n m : Nat} (hle : n ≤ m) {s s' : Json} (h : Json.Counterpart root schema s s') (value : Json)
    (path : String) {chain chain' : List String} (hchain : chain' ⊆ chain) :
    Trace.Restates (schema.ForbidsByReference (some root)) (descend scope n value s path chain)
      (descend scope m value s' path chain') := by
  -- references that are gone afterwards take steps before: behind them any smaller number is left
  induction n using Nat.strongRecOn generalizing m s s' value path chain chain' with
  | ind n ih =>
    obtain ⟨leaf, hleads, hleaf⟩ := h.exists_leaf
    have hreached : Json.Reaches (some root) schema leaf :=
      h.1.trans (Json.reaches_of_leadsTo hleads)
    obtain ⟨f, hf⟩ | ⟨k, hk, c, hc, heq⟩ := descend_of_leadsTo hroot hleads n value path chain
    · rw [hf]
      exact .stop f _
    · rw [heq]
      cases k with
      | zero => exact .stop _ _
      | succ k =>
        obtain ⟨m, rfl⟩ : ∃ j, m = j + 1 := ⟨m - 1, by omega⟩
        have hlt : k < n := hk
        have hle' : k ≤ m := by omega
        have hchain' : chain' ⊆ c := List.Subset.trans hchain hc
        have hmirrors : Mirrors (schema.ForbidsByReference (some root))
            (Json.Counterpart root schema) (descend scope k) (descend scope m) c chain' := {
          again := fun h value path => ih k hlt hle' h value path hchain'
          into := fun h value path => ih k hlt hle' h value path (List.Subset.refl _)
          leaf := fun h hs' value path c => leaf_of_counterpart hroot h hs' k value path c
          value := fun h hs => h.eq_of_ne_object hs }
        have hself := restates_step_self hmirrors hroot hwants hchain' hreached value path
          fun target ht ref => ih k hlt hle' ⟨hreached.tail (.follow ht), .inl rfl⟩ value path
            (Pointer.lengthen_subset hchain' ref)
        obtain rfl | hleaf := hleaf
        · exact hself
        · cases hleaf with
          | value hvalue => exact hself
          | @object ms ms' _ _ href h' =>
            have hrewrites : Json.RewritesTo root (.obj ms) (.obj ms') := .object href h'
            have hinlines : Json.InlinesTo root (.obj ms) (.obj ms') := ⟨_, .refl, hrewrites⟩
            exact restates_step_of_alike hmirrors hwants hreached href hinlines.ref_eq_none
              (Json.Counterpart.alike_ofMembers hreached hrewrites) value path

variable [Host] in
/-- Replacing references keeps the meaning of a schema, evaluated for one document before and after.
Unless a keyword `contains` that can be met is a reference to null, the schema afterwards accepts
what it accepted and refuses what it refused, and where there are reports of a value, there are the
same reports afterwards: each has the same place, code, message and value. Only where a keyword that
can be met forbids additional members or items by a reference to `false`, a false schema may be
reported as an additional member or item, at the same place and with the same value. -/
theorem inlined_restates {schema root result : Json} (h : inlined schema root = .ok result)
    (hwants : ¬ schema.WantsNull (some root)) (value : Json) (path : String) (formats : Formats) :
    (∀ b, Conform.accepts value schema (some root) formats = .ok b →
      Conform.accepts value result (some root) formats = .ok b) ∧
    ∀ L, Report.all value schema (some root) path formats = .ok L →
      ∃ L', Report.all value result (some root) path formats = .ok L' ∧
        List.Forall₂ (Violation.Restated (schema.ForbidsByReference (some root))) L L' := by
  have hrun : ∀ path, Trace.Restates (schema.ForbidsByReference (some root))
      (run value schema (some root) path formats) (run value result (some root) path formats) := by
    intro path
    have hscope : ∀ s, scopeFor s (some root) formats = ⟨some root, formats, true⟩ := by
      intro s
      cases s <;> rfl
    have hroot : (⟨some root, formats, true⟩ : Scope).root = some root := rfl
    have hdescend := restates_descend hroot hwants
      (Nat.le_max_left (budget value schema (some root)) (budget value result (some root)))
      (⟨.refl, .inr (.of_inlined h)⟩ : Json.Counterpart root schema schema result) value path
      (List.Subset.refl [])
    have hresult := descend_eq_run value result (some root) path formats
      (n := max (budget value schema (some root)) (budget value result (some root)))
    rw [hscope] at hresult
    rw [hresult (Nat.le_max_right _ _)] at hdescend
    rw [run, hscope]
    exact hdescend
  refine ⟨fun b hb => (hrun "").verdict_eq hb, fun L hL => ?_⟩
  rw [Report.all_eq_toExcept] at hL
  obtain ⟨L', hL', hrestated⟩ := (hrun path).toExcept_eq hL
  exact ⟨L', by rw [Report.all_eq_toExcept, hL'], hrestated⟩

/-- A document with two definitions that are no objects. -/
def atoms : Json := .obj [("definitions", .obj [("never", .bool false), ("nothing", .null)])]

/-- A reference to `false`. -/
def never : Json := .obj [("$ref", .str "#/definitions/never")]

/-- A schema that forbids all members by a reference. -/
def forbidding : Json := .obj [("additionalProperties", never)]

/-- A schema that wants an item to match nothing. -/
def wanting : Json := .obj [("contains", .obj [("$ref", .str "#/definitions/nothing")])]

open Sample in
/-- An additional member is reported by another code when the reference is replaced, and an empty
array is accepted. -/
theorem atoms_inlined :
    inlined forbidding atoms = .ok (.obj [("additionalProperties", .bool false)]) ∧
    Report.all (.obj [("a", .num (.int 1))]) forbidding (some atoms) "" [] =
      .ok [⟨.str "a", .falseSchema, "Schema is false - value is always invalid", .num (.int 1),
        .bool false⟩] ∧
    Report.all (.obj [("a", .num (.int 1))]) (.obj [("additionalProperties", .bool false)])
        (some atoms) "" [] =
      .ok [⟨.str "a", .additionalProperties, "Additional property 'a' is not allowed",
        .num (.int 1), .bool false⟩] ∧
    inlined wanting atoms = .ok (.obj [("contains", .null)]) ∧
    Conform.accepts (.arr []) wanting (some atoms) [] = .ok false ∧
    Conform.accepts (.arr []) (.obj [("contains", .null)]) (some atoms) [] = .ok true :=
  ⟨by cbv, by cbv, by cbv, by cbv, by cbv, by cbv⟩

theorem eq_of_reaches_forbidding {s : Json} (hs : Json.Reaches (some atoms) forbidding s) :
    s = forbidding ∨ s = never ∨ s = .bool false := by
  have hresolve : Pointer.resolve (.str "#/definitions/never") atoms = .ok (.bool false) := by cbv
  induction hs with
  | refl => exact .inl rfl
  | tail _ hmeets ih =>
    obtain rfl | rfl | rfl := ih <;>
      obtain ⟨⟨href, hn⟩, hs⟩ | ⟨⟨href, hn⟩, hs⟩ | ⟨⟨href, hroot, ht⟩⟩ := hmeets
    · cases hn
      cases hs
    · cases hn
      exact .inr (.inl (List.mem_singleton.mp hs))
    · cases href
    · cases href
    · cases href
    · cases href
      cases hroot
      exact .inr (.inr (Except.ok.inj (ht.symm.trans hresolve)))

open Sample in
/-- The report of an additional member is restated. -/
theorem forbidding_restated :
    inlined forbidding atoms = .ok (.obj [("additionalProperties", .bool false)]) ∧
    ¬ forbidding.WantsNull (some atoms) ∧
    ∃ L', Report.all (.obj [("a", .num (.int 1))]) (.obj [("additionalProperties", .bool false)])
        (some atoms) "" [] = .ok L' ∧
      List.Forall₂ (Violation.Restated (forbidding.ForbidsByReference (some atoms)))
        [⟨.str "a", .falseSchema, "Schema is false - value is always invalid", .num (.int 1),
          .bool false⟩] L' := by
  have hresult : inlined forbidding atoms = .ok (.obj [("additionalProperties", .bool false)]) := by
    cbv
  have hwants : ¬ forbidding.WantsNull (some atoms) := by
    rintro ⟨s, n, c, hs, ⟨href, hn⟩, hc, -⟩
    obtain h | h | h := eq_of_reaches_forbidding hs <;> cases h
    · cases hn
      cases hc
    · cases href
  exact ⟨hresult, hwants, (inlined_restates hresult hwants (.obj [("a", .num (.int 1))]) "" []).2 _
    (by cbv)⟩

end Evaluation

end Conform
