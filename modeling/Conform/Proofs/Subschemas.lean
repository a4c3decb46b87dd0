import Conform.Evaluation
import Mathlib.Logic.Relation
import Mathlib.Tactic.Tauto

/-!
# Conform.Proofs.Subschemas

Which schemas evaluation meets from one schema, and which values it meets them with:

```
Node.again    schemas for the same value
Node.into     schemas for the items, members and names of the value: Json.parts
```

Of some of them all reports are passed on (`Node.reported`, `Node.partReported`), and of the others
only the verdict is asked for (`Node.checked`, `Node.partChecked`).

A schema that is met in either way lies inside the one it is met from (`Within`), so it nests
less deep and holds no reference of its own. What a reference leads to lies inside the document
(`Pointer.inDocument_resolve`). Whatever can be met from a schema, step by step, is what it reaches
(`Json.Reaches`).
-/

namespace Conform

/-! ## Parts of values -/

namespace Json

/-- The values that a value is made of: items, members and, as strings, names. -/
def parts : Json → List Json
  | .arr xs => xs
  | .obj ms => ms.map Prod.snd ++ ms.map fun m => .str m.1
  | _ => []

@[simp] theorem height_str (s : String) : (Json.str s).height = 0 := by
  simp [height]

@[simp] theorem references_str (s : String) : (Json.str s).references = [] := by
  simp [references]

/-- A part nests less deep than the whole. -/
theorem height_lt_of_mem_parts {v w : Json} (h : w ∈ v.parts) : w.height < v.height := by
  cases v with
  | arr xs =>
    have hw : w.height ≤ itemsHeight xs := height_le_itemsHeight h
    rw [height]
    omega
  | obj ms =>
    rw [height]
    rcases List.mem_append.mp h with h | h
    · obtain ⟨⟨k, x⟩, hm, rfl⟩ := List.mem_map.mp h
      have hx : x.height ≤ membersHeight ms := height_le_membersHeight hm
      exact Nat.lt_succ_of_le hx
    · obtain ⟨m, -, rfl⟩ := List.mem_map.mp h
      rw [height_str]
      exact Nat.succ_pos _
  | _ => cases h

end Json

/-! ## Schemas of a node -/

/-- The schemas for items by position, or the one for all items. -/
def ArrayKeywords.itemSchemas (k : ArrayKeywords) : List Json :=
  match k.items with
  | none => []
  | some (.arr schemas) => schemas
  | some schema => [schema]

namespace Node

/-- The schemas of a node that look at the same value again. -/
def again (n : Node) : List Json :=
  n.object.dependentSchemas.map Prod.snd ++ n.composition.allOf.getD []
    ++ n.composition.anyOf.getD [] ++ n.composition.oneOf.getD [] ++ n.composition.not.toList
    ++ n.conditional.test.toList ++ n.conditional.accepted.toList
    ++ n.conditional.rejected.toList

/-- The schemas of a node that look into the value. -/
def into (n : Node) : List Json :=
  n.array.itemSchemas ++ n.array.additionalItems.toList ++ n.array.contains.toList
    ++ n.object.properties.map Prod.snd ++ n.object.patternProperties.map Prod.snd
    ++ n.object.additionalProperties.toList ++ n.object.propertyNames.toList

/-- The schemas for the same value that report what they find. -/
def reported (n : Node) : List Json :=
  n.object.dependentSchemas.map Prod.snd ++ n.composition.allOf.getD []
    ++ n.conditional.accepted.toList ++ n.conditional.rejected.toList

/-- The schemas for the same value that are asked for a verdict only. -/
def checked (n : Node) : List Json :=
  n.composition.anyOf.getD [] ++ n.composition.oneOf.getD [] ++ n.composition.not.toList
    ++ n.conditional.test.toList

/-- The schemas for items and members, which report what they find. -/
def partReported (n : Node) : List Json :=
  n.array.itemSchemas ++ n.array.additionalItems.toList ++ n.object.properties.map Prod.snd
    ++ n.object.patternProperties.map Prod.snd ++ n.object.additionalProperties.toList

/-- The schemas for items and names that are asked for a verdict only. -/
def partChecked (n : Node) : List Json :=
  n.array.contains.toList ++ n.object.propertyNames.toList

/-- The names that a node demands of an object. -/
def demanded (n : Node) : List Json :=
  n.object.required ++ n.object.dependentRequired.flatMap Prod.snd

theorem mem_again_iff {n : Node} {s : Json} : s ∈ n.again ↔ s ∈ n.reported ∨ s ∈ n.checked := by
  simp only [again, reported, checked, List.mem_append]
  tauto

theorem mem_into_iff {n : Node} {s : Json} :
    s ∈ n.into ↔ s ∈ n.partReported ∨ s ∈ n.partChecked := by
  simp only [into, partReported, partChecked, List.mem_append]
  tauto

theorem reported_subset (n : Node) : n.reported ⊆ n.again := fun _ hs => mem_again_iff.mpr (.inl hs)

theorem checked_subset (n : Node) : n.checked ⊆ n.again := fun _ hs => mem_again_iff.mpr (.inr hs)

theorem partReported_subset (n : Node) : n.partReported ⊆ n.into :=
  fun _ hs => mem_into_iff.mpr (.inl hs)

theorem partChecked_subset (n : Node) : n.partChecked ⊆ n.into :=
  fun _ hs => mem_into_iff.mpr (.inr hs)

section

variable {n : Node} {e : String × Json} {s : Json}

theorem mem_again_of_dependent (he : e ∈ n.object.dependentSchemas) : e.2 ∈ n.again := by
  have hmem := List.mem_map_of_mem (f := Prod.snd) he
  simp only [again, List.mem_append]
  tauto

theorem mem_into_of_named (he : e ∈ n.object.properties) : e.2 ∈ n.into := by
  have hmem := List.mem_map_of_mem (f := Prod.snd) he
  simp only [into, List.mem_append]
  tauto

theorem mem_into_of_pattern (he : e ∈ n.object.patternProperties) : e.2 ∈ n.into := by
  have hmem := List.mem_map_of_mem (f := Prod.snd) he
  simp only [into, List.mem_append]
  tauto

theorem mem_into_of_additional (hs : n.object.additionalProperties = some s) : s ∈ n.into := by
  have hmem : s ∈ n.object.additionalProperties.toList := Option.mem_toList.mpr hs
  simp only [into, List.mem_append]
  tauto

theorem mem_into_of_names (hs : n.object.propertyNames = some s) : s ∈ n.into := by
  have hmem : s ∈ n.object.propertyNames.toList := Option.mem_toList.mpr hs
  simp only [into, List.mem_append]
  tauto

theorem mem_into_of_items (hs : n.array.items = some s) (hlist : ∀ xs, s ≠ .arr xs) :
    s ∈ n.into := by
  have hmem : s ∈ n.array.itemSchemas := by
    rw [ArrayKeywords.itemSchemas, hs]
    cases s with
    | arr xs => exact absurd rfl (hlist xs)
    | _ => exact List.mem_cons_self
  simp only [into, List.mem_append]
  tauto

end

end Node

/-! ## What a schema leads to -/

/-- A schema that is no reference, with its keywords read. -/
inductive Json.ReadsAs : Json → Node → Prop where
  | keywords {ms : Members} {n : Node} (href : Table.keyword ms "$ref" = none)
      (hn : Node.ofMembers ms = .ok n) : ReadsAs (.obj ms) n

variable [Host] in
/-- Such a schema is evaluated by the rules of its node. -/
theorem Evaluation.descend_of_readsAs {schema : Json} {n : Node} (h : schema.ReadsAs n)
    (scope : Scope) (fuel : Nat) (value : Json) (path : String) (chain : List String) :
    descend scope (fuel + 1) value schema path chain =
      nodeRules scope (descend scope fuel) n value path chain := by
  cases h with
  | keywords href hn =>
    rw [descend, step, href]
    dsimp only
    rw [hn, Trace.after]

/-- A reference, and what it addresses in a document. -/
inductive Json.RefersTo (document : Option Json) : Json → Json → Prop where
  | reference {ms : Members} {ref root target : Json}
      (href : Table.keyword ms "$ref" = some ref) (hroot : document = some root)
      (htarget : Pointer.resolve ref root = .ok target) : RefersTo document (.obj ms) target

theorem Json.RefersTo.unique {document : Option Json} {s t u : Json} (h : RefersTo document s t)
    (h' : RefersTo document s u) : t = u := by
  cases h with
  | reference href hroot htarget =>
    cases h' with
    | reference href' hroot' htarget' =>
      cases hroot.symm.trans hroot'
      cases href.symm.trans href'
      exact Except.ok.inj (htarget.symm.trans htarget')

/-- One step to a schema that is met for the same value. -/
inductive Json.Rechecks (document : Option Json) : Json → Json → Prop where
  | again {schema s : Json} {n : Node} (h : schema.ReadsAs n) (hs : s ∈ n.again) :
      Rechecks document schema s
  | follow {schema target : Json} (h : RefersTo document schema target) :
      Rechecks document schema target

/-- One step to a schema that is met for the same value or a part of it. -/
inductive Json.Meets (document : Option Json) : Json → Json → Prop where
  | again {schema s : Json} {n : Node} (h : schema.ReadsAs n) (hs : s ∈ n.again) :
      Meets document schema s
  | into {schema s : Json} {n : Node} (h : schema.ReadsAs n) (hs : s ∈ n.into) :
      Meets document schema s
  | follow {schema target : Json} (h : RefersTo document schema target) :
      Meets document schema target

/-- The schemas that evaluation can meet from a schema. -/
abbrev Json.Reaches (document : Option Json) : Json → Json → Prop :=
  Relation.ReflTransGen (Meets document)

/-- What references, one after the other, lead from a schema to. -/
abbrev Json.LeadsTo (document : Option Json) : Json → Json → Prop :=
  Relation.ReflTransGen (RefersTo document)

theorem Json.reaches_of_leadsTo {document : Option Json} {s t : Json} (h : LeadsTo document s t) :
    Reaches document s t := by
  induction h with
  | refl => exact .refl
  | tail _ h ih => exact ih.tail (.follow h)

/-- For one value, evaluation can come from a schema to a reference. -/
def Json.ComesTo (document : Option Json) (schema : Json) (ref : String) : Prop :=
  ∃ ms, Relation.ReflTransGen (Rechecks document) schema (.obj ms) ∧
    Table.keyword ms "$ref" = some (.str ref)

theorem Json.ComesTo.here {document : Option Json} {ms : Members} {ref : String}
    (href : Table.keyword ms "$ref" = some (.str ref)) : ComesTo document (.obj ms) ref :=
  ⟨ms, .refl, href⟩

theorem Json.ComesTo.head {document : Option Json} {schema s : Json} {ref : String}
    (hs : ComesTo document s ref) (h : Rechecks document schema s) :
    ComesTo document schema ref := by
  obtain ⟨ms, hms, href⟩ := hs
  exact ⟨ms, .head h hms, href⟩

/-! ## Lying inside -/

/-- A value that nests no deeper than the members of an object and holds no reference that
they do not hold. -/
structure Within (ms : Members) (j : Json) : Prop where
  height_le : j.height ≤ Json.membersHeight ms
  references_subset : j.references ⊆ Json.membersReferences ms

theorem Json.references_subset_items {x : Json} {xs : List Json} (h : x ∈ xs) :
    x.references ⊆ itemsReferences xs := by
  induction xs with
  | nil => cases h
  | cons y ys ih =>
    rw [itemsReferences]
    cases h with
    | head => exact List.subset_append_left _ _
    | tail _ h => exact List.Subset.trans (ih h) (List.subset_append_right _ _)

theorem Json.membersReferences_cons (k : String) (x : Json) (ms : Members) :
    membersReferences ((k, x) :: ms) =
      (match x with
        | .str s => if k = "$ref" then [s] else []
        | _ => []) ++ x.references ++ membersReferences ms := by
  cases x <;> simp [membersReferences]

theorem Json.references_subset_members {k : String} {x : Json} {ms : Members}
    (h : (k, x) ∈ ms) : x.references ⊆ membersReferences ms := by
  induction ms with
  | nil => cases h
  | cons m ms ih =>
    obtain ⟨l, y⟩ := m
    rw [membersReferences_cons]
    cases h with
    | head => exact fun r hr => List.mem_append_left _ (List.mem_append_right _ hr)
    | tail _ h => exact List.Subset.trans (ih h) (List.subset_append_right _ _)

/-- The text of a reference is among the references of the object that holds it. -/
theorem Json.mem_membersReferences {s : String} {ms : Members} (h : ("$ref", .str s) ∈ ms) :
    s ∈ membersReferences ms := by
  induction ms with
  | nil => cases h
  | cons m ms ih =>
    obtain ⟨l, y⟩ := m
    rw [membersReferences_cons]
    cases h with
    | head => simp
    | tail _ h => exact List.mem_append_right _ (ih h)

namespace Within

variable {ms : Members}

theorem member {k : String} {j : Json} (h : (k, j) ∈ ms) : Within ms j :=
  ⟨Json.height_le_membersHeight h, Json.references_subset_members h⟩

theorem text (s : String) : Within ms (.str s) :=
  ⟨by simp, by simp⟩

theorem of_item {xs : List Json} {x : Json} (h : Within ms (.arr xs)) (hx : x ∈ xs) :
    Within ms x := by
  have hle := h.height_le
  have hx' := Json.height_le_itemsHeight hx
  rw [Json.height] at hle
  refine ⟨by omega, ?_⟩
  have := h.references_subset
  rw [Json.references] at this
  exact List.Subset.trans (Json.references_subset_items hx) this

theorem of_member {es : Members} {k : String} {x : Json} (h : Within ms (.obj es))
    (hx : (k, x) ∈ es) : Within ms x := by
  have hle := h.height_le
  have hx' := Json.height_le_membersHeight hx
  rw [Json.height] at hle
  refine ⟨by omega, ?_⟩
  have := h.references_subset
  rw [Json.references] at this
  exact List.Subset.trans (Json.references_subset_members hx) this

end Within

/-! ## Nodes read from members -/

/-- An entry of a table after a put is the one that was put or was there before. -/
theorem Table.mem_put {α : Type} {t : Table α} {k : String} {v : α} {e : String × α}
    (h : e ∈ t.put k v) : e = (k, v) ∨ e ∈ t := by
  induction t with
  | nil => exact .inl (List.mem_singleton.mp h)
  | cons m t ih =>
    obtain ⟨l, w⟩ := m
    rw [put] at h
    split at h
    · rcases List.mem_cons.mp h with h | h
      · exact .inl h
      · exact .inr (List.mem_cons_of_mem _ h)
    · rcases List.mem_cons.mp h with h | h
      · exact .inr (h ▸ List.mem_cons_self)
      · exact (ih h).imp_right (List.mem_cons_of_mem _)

theorem mem_of_lookup {α : Type} {t : Table α} {k : String} {v : α} (h : t.lookup k = some v) :
    (k, v) ∈ t := by
  obtain ⟨before, after, rfl, -⟩ := List.lookup_eq_some_iff.mp h
  exact List.mem_append_right _ List.mem_cons_self

/-- A keyword that is declared is a member. -/
theorem mem_of_keyword {ms : Members} {name : String} {j : Json}
    (h : Table.keyword ms name = some j) : (name, j) ∈ ms := by
  unfold Table.keyword at h
  split at h
  · cases h
  · next found =>
    cases h
    exact mem_of_lookup found
  · cases h

namespace Node

/-- What a node that was read from members holds of them. -/
structure ReadFrom (ms : Members) (n : Node) : Prop where
  ref : n.ref = Table.keyword ms "$ref"
  types : typesOf ms = .ok n.types
  const : n.const = (ms.lookup "const").getD .absent
  enum : listKeyword ms "enum" = .ok n.enum
  string : n.string = stringOf ms
  number : n.number = numberOf ms
  array : n.array = arrayOf ms
  minProperties : n.object.minProperties = Table.keyword ms "minProperties"
  maxProperties : n.object.maxProperties = Table.keyword ms "maxProperties"
  required : requiredOf ms = .ok n.object.required
  properties : n.object.properties = schemasOf ms "properties"
  patternProperties : n.object.patternProperties = schemasOf ms "patternProperties"
  additionalProperties :
    n.object.additionalProperties = Table.keyword ms "additionalProperties"
  propertyNames : n.object.propertyNames = Table.keyword ms "propertyNames"
  dependencies :
    dependenciesOf ms = .ok (n.object.dependentRequired, n.object.dependentSchemas)
  allOf : listKeyword ms "allOf" = .ok n.composition.allOf
  anyOf : listKeyword ms "anyOf" = .ok n.composition.anyOf
  oneOf : listKeyword ms "oneOf" = .ok n.composition.oneOf
  not : n.composition.not = Table.keyword ms "not"
  conditional : n.conditional = conditionalOf ms

end Node

/-- A computation in two steps that gives something gave something in the first. -/
theorem bind_eq_ok {α β : Type} {r : Except Fault α} {k : α → Except Fault β} {y : β}
    (h : r >>= k = .ok y) : ∃ x, r = .ok x ∧ k x = .ok y := by
  cases r with
  | error f => cases h
  | ok x => exact ⟨x, rfl, h⟩

theorem Node.readFrom_of_ofMembers {ms : Members} {n : Node} (h : ofMembers ms = .ok n) :
    ReadFrom ms n := by
  unfold ofMembers at h
  obtain ⟨⟨demands, schemas⟩, hdeps, h⟩ := bind_eq_ok h
  obtain ⟨types, htypes, h⟩ := bind_eq_ok h
  obtain ⟨enum, henum, h⟩ := bind_eq_ok h
  obtain ⟨required, hrequired, h⟩ := bind_eq_ok h
  obtain ⟨allOf, hall, h⟩ := bind_eq_ok h
  obtain ⟨anyOf, hany, h⟩ := bind_eq_ok h
  obtain ⟨oneOf, hone, h⟩ := bind_eq_ok h
  cases h
  exact ⟨rfl, htypes, rfl, henum, rfl, rfl, rfl, rfl, rfl, hrequired, rfl, rfl, rfl, rfl, hdeps,
    hall, hany, hone, rfl, rfl⟩

/-- The entries of a keyword that holds any are the members of its value. -/
theorem Json.lookup_of_optionalMembers {ms es : Members} {name : String} {e : String × Json}
    (h : ((ms.lookup name).getD .null).optionalMembers = .ok es) (he : e ∈ es) :
    ms.lookup name = some (.obj es) := by
  unfold optionalMembers at h
  split at h
  · cases h
    cases he
  · split at h
    · next entries found =>
      cases h
      cases hl : ms.lookup name with
      | none =>
        rw [hl] at found
        cases found
      | some j =>
        rw [hl] at found
        exact congrArg some found
    · cases h

/-- The schemas that splitting dependencies gives are entries that are no lists, or were there
before. -/
theorem Node.mem_splitDependencies {mixed schemas : Members} {demands : Table (List Json)}
    {e : String × Json} (he : e ∈ (splitDependencies mixed demands schemas).2) :
    (e ∈ mixed ∧ ∀ xs, e.2 ≠ .arr xs) ∨ e ∈ schemas := by
  induction mixed generalizing demands schemas with
  | nil => exact .inr he
  | cons m rest ih =>
    obtain ⟨trigger, j⟩ := m
    have hput : (∀ xs, j ≠ .arr xs) → e ∈ (splitDependencies rest demands
        (Table.put schemas trigger j)).2 →
        (e ∈ (trigger, j) :: rest ∧ ∀ xs, e.2 ≠ .arr xs) ∨ e ∈ schemas := by
      intro hj he
      obtain ⟨he, hlist⟩ | he := ih he
      · exact .inl ⟨List.mem_cons_of_mem _ he, hlist⟩
      · obtain rfl | he := Table.mem_put he
        · exact .inl ⟨List.mem_cons_self, hj⟩
        · exact .inr he
    cases j with
    | arr names => exact (ih he).imp_left fun h => ⟨List.mem_cons_of_mem _ h.1, h.2⟩
    | _ => exact hput nofun he

/-- An entry that is left of tables put one on the other comes from one of them. -/
theorem Table.mem_foldl_put {α : Type} {more t : Table α} {e : String × α}
    (he : e ∈ more.foldl (fun t m => t.put m.1 m.2) t) : e ∈ more ∨ e ∈ t := by
  induction more generalizing t with
  | nil => exact .inr he
  | cons m rest ih =>
    obtain hrest | hput := ih he
    · exact .inl (List.mem_cons_of_mem _ hrest)
    · obtain rfl | he := Table.mem_put hput
      · exact .inl List.mem_cons_self
      · exact .inr he

/-- The three keywords for dependencies, in the order in which they are taken in. -/
theorem Node.exists_of_dependenciesOf {ms schemas : Members} {demands : Table (List Json)}
    (h : dependenciesOf ms = .ok (demands, schemas)) :
    ∃ mixed required more,
      ((ms.lookup "dependencies").getD .null).optionalMembers = .ok mixed ∧
      ((ms.lookup "dependentRequired").getD .null).optionalMembers = .ok required ∧
      ((ms.lookup "dependentSchemas").getD .null).optionalMembers = .ok more ∧
      addDemands required (splitDependencies mixed [] []).1 = .ok demands ∧
      more.foldl (fun t m => Table.put t m.1 m.2) (splitDependencies mixed [] []).2 = schemas := by
  unfold dependenciesOf at h
  obtain ⟨mixed, hmixed, h⟩ := bind_eq_ok h
  obtain ⟨required, hrequired, h⟩ := bind_eq_ok h
  obtain ⟨found, hfound, h⟩ := bind_eq_ok h
  obtain ⟨more, hmore, h⟩ := bind_eq_ok h
  cases h
  exact ⟨mixed, required, more, hmixed, hrequired, hmore, hfound, rfl⟩

/-- The schemas that members depend on are entries of `dependentSchemas`, or entries of
`dependencies` that are no lists. -/
theorem Node.mem_of_dependenciesOf {ms schemas : Members} {demands : Table (List Json)}
    {e : String × Json} (h : dependenciesOf ms = .ok (demands, schemas)) (he : e ∈ schemas) :
    (∃ es, ms.lookup "dependentSchemas" = some (.obj es) ∧ e ∈ es) ∨
      ∃ es, ms.lookup "dependencies" = some (.obj es) ∧ e ∈ es ∧ ∀ xs, e.2 ≠ .arr xs := by
  obtain ⟨mixed, -, more, hmixed, -, hmore, -, rfl⟩ := exists_of_dependenciesOf h
  cases Table.mem_foldl_put he with
  | inl he => exact .inl ⟨more, Json.lookup_of_optionalMembers hmore he, he⟩
  | inr he =>
    obtain ⟨he, hlist⟩ | he := mem_splitDependencies he
    · exact .inr ⟨mixed, Json.lookup_of_optionalMembers hmixed he, he, hlist⟩
    · cases he

/-! ## Schemas of a node lie inside it -/

namespace Within

variable {ms : Members}

theorem of_keyword {name : String} {j : Json} (h : Table.keyword ms name = some j) :
    Within ms j := member (mem_of_keyword h)

/-- A declared schema alone. -/
theorem of_mem_keyword {name : String} {j : Json}
    (h : j ∈ (Table.keyword ms name).toList) : Within ms j :=
  of_keyword (Option.mem_toList.mp h)

theorem of_elements {j x : Json} {xs : List Json} (h : Within ms j) (hxs : j.elements = .ok xs)
    (hx : x ∈ xs) : Within ms x := by
  cases j with
  | arr ys =>
    cases hxs
    exact h.of_item hx
  | str s =>
    cases hxs
    obtain ⟨c, -, rfl⟩ := List.mem_map.mp hx
    exact text _
  | obj es =>
    cases hxs
    obtain ⟨m, -, rfl⟩ := List.mem_map.mp hx
    exact text _
  | _ => cases hxs

/-- The schemas of a list keyword. -/
theorem of_listKeyword {name : String} {list : Option (List Json)} {x : Json}
    (h : Node.listKeyword ms name = .ok list) (hx : x ∈ list.getD []) : Within ms x := by
  unfold Node.listKeyword at h
  split at h
  · cases h
    cases hx
  · next j hj =>
    cases hxs : j.elements with
    | error f =>
      rw [hxs] at h
      cases h
    | ok xs =>
      rw [hxs] at h
      cases h
      exact (of_keyword hj).of_elements hxs hx

/-- The schemas of a keyword that holds them by name. -/
theorem of_schemasOf {name : String} {x : Json}
    (h : x ∈ (Node.schemasOf ms name).map Prod.snd) : Within ms x := by
  obtain ⟨⟨k, y⟩, hy, rfl⟩ := List.mem_map.mp h
  unfold Node.schemasOf at hy
  split at hy
  · next entries found => exact (member (mem_of_lookup found)).of_member hy
  · cases hy

theorem of_dependenciesOf {demands : Table (List Json)} {schemas : Members}
    (h : Node.dependenciesOf ms = .ok (demands, schemas)) : ∀ e ∈ schemas, Within ms e.2 := by
  intro e he
  obtain ⟨es, hes, he⟩ | ⟨es, hes, he, -⟩ := Node.mem_of_dependenciesOf h he
  · exact (member (mem_of_lookup hes)).of_member he
  · exact (member (mem_of_lookup hes)).of_member he

end Within

namespace Node

variable {ms : Members} {n : Node}

/-- A schema for the same value lies inside the one it is met from. -/
theorem within_of_mem_again (h : ofMembers ms = .ok n) {s : Json} (hs : s ∈ n.again) :
    Within ms s := by
  have hread := readFrom_of_ofMembers h
  simp only [again, List.mem_append] at hs
  rcases hs with ((((((hs | hs) | hs) | hs) | hs) | hs) | hs) | hs
  · obtain ⟨e, he, rfl⟩ := List.mem_map.mp hs
    exact Within.of_dependenciesOf hread.dependencies e he
  · exact .of_listKeyword hread.allOf hs
  · exact .of_listKeyword hread.anyOf hs
  · exact .of_listKeyword hread.oneOf hs
  · exact .of_mem_keyword (hread.not ▸ hs)
  all_goals
    rw [hread.conditional] at hs
    exact .of_mem_keyword hs

/-- A schema for the parts of a value lies inside the one it is met from. -/
theorem within_of_mem_into (h : ofMembers ms = .ok n) {s : Json} (hs : s ∈ n.into) :
    Within ms s := by
  have hread := readFrom_of_ofMembers h
  simp only [into, List.mem_append] at hs
  rcases hs with (((((hs | hs) | hs) | hs) | hs) | hs) | hs
  · rw [hread.array] at hs
    unfold ArrayKeywords.itemSchemas at hs
    split at hs
    · cases hs
    · next schemas hitems => exact (Within.of_keyword hitems).of_item hs
    · next schema hitems =>
      rw [List.mem_singleton.mp hs]
      exact .of_keyword hitems
  · rw [hread.array] at hs
    exact .of_mem_keyword hs
  · rw [hread.array] at hs
    exact .of_mem_keyword hs
  · exact .of_schemasOf (hread.properties ▸ hs)
  · exact .of_schemasOf (hread.patternProperties ▸ hs)
  · exact .of_mem_keyword (hread.additionalProperties ▸ hs)
  · exact .of_mem_keyword (hread.propertyNames ▸ hs)

end Node

/-! ## Targets of references lie inside the document -/

/-- A value that nests no deeper than a document and holds no reference that it does not
hold. -/
structure InDocument (root j : Json) : Prop where
  height_le : j.height ≤ root.height
  references_subset : j.references ⊆ root.references

namespace InDocument

variable {root : Json}

theorem refl (root : Json) : InDocument root root := ⟨Nat.le_refl _, List.Subset.refl _⟩

theorem of_within {ms : Members} {j : Json} (h : InDocument root (.obj ms)) (hj : Within ms j) :
    InDocument root j := by
  have hle := h.height_le
  have hle' := hj.height_le
  have hsub := h.references_subset
  rw [Json.height] at hle
  rw [Json.references] at hsub
  exact ⟨by omega, List.Subset.trans hj.references_subset hsub⟩

theorem of_item {xs : List Json} {x : Json} (h : InDocument root (.arr xs)) (hx : x ∈ xs) :
    InDocument root x := by
  have hle := h.height_le
  have hle' := Json.height_le_itemsHeight hx
  have hsub := h.references_subset
  rw [Json.height] at hle
  rw [Json.references] at hsub
  exact ⟨by omega, List.Subset.trans (Json.references_subset_items hx) hsub⟩

end InDocument

namespace Pointer

/-- The table of definitions, found or empty, lies inside the document. -/
theorem inDocument_definitions {root table : Json} {name other : String}
    (h : definitions root name other = .ok table) : InDocument root table := by
  have hfound : ∀ {ms : Members} {k : String}, InDocument (.obj ms) ((ms.lookup k).getD .null) := by
    intro ms k
    cases hk : ms.lookup k with
    | none => exact ⟨by simp [Json.height], by simp [Json.references]⟩
    | some j => exact (InDocument.refl _).of_within (.member (mem_of_lookup hk))
  unfold definitions at h
  cases root with
  | obj ms =>
    simp only at h
    split at h
    · split at h
      · cases h
        exact ⟨by simp [Json.height, Json.membersHeight],
          by simp [Json.references, Json.membersReferences]⟩
      · cases h
        exact hfound
    · cases h
      exact hfound
  | _ => cases h

theorem inDocument_step {ref : String} {root current next : Json} {segment : List Char}
    (hc : InDocument root current) (h : step ref current segment = .ok next) :
    InDocument root next := by
  unfold step at h
  cases current with
  | obj ms =>
    simp only at h
    split at h
    · next j found =>
      cases h
      exact hc.of_within (.member (mem_of_lookup found))
    · cases h
  | arr xs =>
    simp only at h
    split at h
    · cases h
    · cases h
    · split at h
      · next j found =>
        cases h
        exact hc.of_item (List.mem_of_getElem? found)
      · cases h
  | _ => cases h

theorem inDocument_follow {ref : String} {root current target : Json}
    {segments : List (List Char)} (hc : InDocument root current)
    (h : follow ref root current segments = .ok target) : InDocument root target := by
  induction segments generalizing current with
  | nil =>
    cases h
    exact hc
  | cons raw rest ih =>
    rw [follow] at h
    split at h
    · exact ih hc h
    · split at h
      · split at h
        · next table hdefs => exact ih (inDocument_definitions hdefs) h
        · cases h
      · split at h
        · next next hstep => exact ih (inDocument_step hc hstep) h
        · cases h

/-- What a reference leads to lies inside the document. -/
theorem inDocument_resolve {ref root target : Json} (h : resolve ref root = .ok target) :
    InDocument root target := by
  unfold resolve at h
  cases ref with
  | str s =>
    simp only at h
    split at h
    · exact inDocument_follow (InDocument.refl root) h
    · cases h
  | _ => cases h

end Pointer

end Conform
