import Conform.Proofs.Subschemas
import Mathlib.Data.List.Forall2

/-!
# Conform.Proofs.Counterparts

Two nodes that differ in the schemas inside them only. Each schema inside has a counterpart, which
stands in the same place of the other node and is related to it (`Node.Related`). A schema alone may
also have lost its place, having become null (`Optional.dropped`): a keyword that is null is not
declared.

The relation between schemas is left open here. Tables and lists of schemas are related entry by
entry, and computations by what they give (`Alike`).
-/

namespace Conform

/-! ## Related computations and tables -/

/-- Two computations that one fault stops, or that give what is related. -/
inductive Alike {α β : Type} (R : α → β → Prop) : Except Fault α → Except Fault β → Prop where
  | ok {x : α} {y : β} (h : R x y) : Alike R (.ok x) (.ok y)
  | error (f : Fault) : Alike R (.error f) (.error f)

namespace Alike

variable {α β γ δ : Type} {R : α → β → Prop} {S : γ → δ → Prop} {r : Except Fault α}
  {r' : Except Fault β}

theorem bind {k : α → Except Fault γ} {k' : β → Except Fault δ} (h : Alike R r r')
    (hk : ∀ x y, R x y → Alike S (k x) (k' y)) : Alike S (r >>= k) (r' >>= k') := by
  cases h with
  | ok h => exact hk _ _ h
  | error f => exact .error f

/-- What relates the things that are given can be exchanged. -/
theorem imp_of_eq_ok {R' : α → β → Prop} (h : Alike R r r')
    (hR : ∀ x y, r = .ok x → R x y → R' x y) : Alike R' r r' := by
  cases h with
  | ok h => exact .ok (hR _ _ rfl h)
  | error f => exact .error f

/-- What follows one computation, made in both. -/
theorem bind_same {k : α → Except Fault γ} {k' : α → Except Fault δ} (r : Except Fault α)
    (hk : ∀ x, Alike S (k x) (k' x)) : Alike S (r >>= k) (r >>= k') := by
  cases r with
  | ok x => exact hk x
  | error f => exact .error f

end Alike

namespace Table

variable {α β : Type} {R : α → β → Prop} {t : Table α} {t' : Table β}

/-- Two tables with the same names in the same order, and entries that are related. -/
def Related (R : α → β → Prop) (t : Table α) (t' : Table β) : Prop :=
  List.Forall₂ (fun e e' => e.1 = e'.1 ∧ R e.2 e'.2) t t'

theorem Related.refl {R : α → α → Prop} (hR : ∀ x, R x x) (t : Table α) : Related R t t :=
  List.forall₂_same.mpr fun e _ => ⟨rfl, hR e.2⟩

theorem Related.lookup (h : Related R t t') (k : String) :
    Option.Rel R (t.lookup k) (t'.lookup k) := by
  induction h with
  | nil => exact .none
  | @cons e e' t t' h _ ih =>
    obtain ⟨l, v⟩ := e
    obtain ⟨l', v'⟩ := e'
    obtain ⟨rfl, hv⟩ : l = l' ∧ R v v' := h
    rw [List.lookup_cons, List.lookup_cons]
    split
    · exact .some hv
    · exact ih

theorem Related.has_eq (h : Related R t t') (k : String) : Table.has t k = Table.has t' k := by
  have hk := h.lookup k
  rw [Table.has, Table.has]
  generalize t.lookup k = o at hk ⊢
  generalize t'.lookup k = o' at hk ⊢
  cases hk <;> rfl

theorem Related.map_snd (h : Related R t t') :
    List.Forall₂ R (t.map Prod.snd) (t'.map Prod.snd) := by
  rw [List.forall₂_map_left_iff, List.forall₂_map_right_iff]
  exact h.imp fun _ _ he => he.2

theorem Related.put (h : Related R t t') {k : String} {v : α} {v' : β} (hv : R v v') :
    Related R (t.put k v) (t'.put k v') := by
  induction h with
  | nil => exact .cons ⟨rfl, hv⟩ .nil
  | @cons e e' t t' h ht ih =>
    obtain ⟨l, w⟩ := e
    obtain ⟨l', w'⟩ := e'
    obtain ⟨rfl, hw⟩ : l = l' ∧ R w w' := h
    rw [Table.put, Table.put]
    split
    · exact .cons ⟨rfl, hv⟩ ht
    · exact .cons ⟨rfl, hw⟩ ih

/-- Putting an entry leaves all other names alone. -/
theorem lookup_put_of_ne {α : Type} {k l : String} (h : l ≠ k) (t : Table α) (v : α) :
    (put t k v).lookup l = t.lookup l := by
  have hne : (l == k) = false := beq_false_of_ne h
  induction t with
  | nil => rw [put, List.lookup_cons, hne]
  | cons e t ih =>
    obtain ⟨m, w⟩ := e
    rw [put]
    split
    · next hm => rw [List.lookup_cons, List.lookup_cons, hm, hne]
    · rw [List.lookup_cons, List.lookup_cons, ih]

end Table

/-- Elements that are related are so in what they are known to be elements of. -/
theorem forall₂_imp_of_mem {α β : Type} {R S : α → β → Prop} {xs : List α} {ys : List β}
    (h : List.Forall₂ R xs ys) (hRS : ∀ x ∈ xs, ∀ y, R x y → S x y) : List.Forall₂ S xs ys :=
  (((List.forall₂_and_left xs ys).mpr ⟨fun _ hx => hx, h⟩).imp fun x y h => hRS x h.1 y h.2 :)

/-- Elements that are related are so as elements of their lists. -/
theorem forall₂_and_mem {α β : Type} {R : α → β → Prop} {xs : List α} {ys : List β}
    (h : List.Forall₂ R xs ys) : List.Forall₂ (fun x y => R x y ∧ x ∈ xs ∧ y ∈ ys) xs ys := by
  induction h with
  | nil => exact .nil
  | cons h _ ih =>
    refine .cons ⟨h, List.mem_cons_self, List.mem_cons_self⟩ (ih.imp fun x y hxy => ?_)
    exact ⟨hxy.1, List.mem_cons_of_mem _ hxy.2.1, List.mem_cons_of_mem _ hxy.2.2⟩

/-- The counterpart of an element of the second list. -/
theorem exists_of_forall₂ {α β : Type} {R : α → β → Prop} {xs : List α} {ys : List β}
    (h : List.Forall₂ R xs ys) {y : β} (hy : y ∈ ys) : ∃ x ∈ xs, R x y := by
  induction h with
  | nil => cases hy
  | cons h _ ih =>
    obtain rfl | hy := List.mem_cons.mp hy
    · exact ⟨_, List.mem_cons_self, h⟩
    · obtain ⟨x, hx, hxy⟩ := ih hy
      exact ⟨x, List.mem_cons_of_mem _ hx, hxy⟩

/-! ## Schemas inside a node, before and after -/

/-- A keyword that holds one schema. It is not declared afterwards if the schema became null. -/
inductive Optional (R : Json → Json → Prop) : Option Json → Option Json → Prop where
  | none : Optional R none none
  | some {s s' : Json} (h : R s s') : Optional R (some s) (some s')
  | dropped {s : Json} (h : R s .null) : Optional R (some s) none

/-- The keyword for items, which holds a list or one schema. -/
inductive ItemsRelated (R : Json → Json → Prop) : Option Json → Option Json → Prop where
  | list {xs xs' : List Json} (h : List.Forall₂ R xs xs') :
      ItemsRelated R (some (.arr xs)) (some (.arr xs'))
  | alone {o o' : Option Json} (ho : ∀ xs, o ≠ some (.arr xs)) (h : Optional R o o') :
      ItemsRelated R o o'

/-- Two nodes that differ in the schemas inside only. Schemas inside are related, and those of
dependencies in a way of their own. -/
structure Node.Related (R D : Json → Json → Prop) (n n' : Node) : Prop where
  types : n'.types = n.types
  const : n'.const = n.const
  enum : n'.enum = n.enum
  string : n'.string = n.string
  number : n'.number = n.number
  minItems : n'.array.minItems = n.array.minItems
  maxItems : n'.array.maxItems = n.array.maxItems
  uniqueItems : n'.array.uniqueItems = n.array.uniqueItems
  items : ItemsRelated R n.array.items n'.array.items
  additionalItems : Optional R n.array.additionalItems n'.array.additionalItems
  contains : Optional R n.array.contains n'.array.contains
  minProperties : n'.object.minProperties = n.object.minProperties
  maxProperties : n'.object.maxProperties = n.object.maxProperties
  required : n'.object.required = n.object.required
  properties : Table.Related R n.object.properties n'.object.properties
  patternProperties : Table.Related R n.object.patternProperties n'.object.patternProperties
  additionalProperties : Optional R n.object.additionalProperties n'.object.additionalProperties
  propertyNames : Optional R n.object.propertyNames n'.object.propertyNames
  dependentRequired : n'.object.dependentRequired = n.object.dependentRequired
  dependentSchemas : Table.Related D n.object.dependentSchemas n'.object.dependentSchemas
  allOf : Option.Rel (List.Forall₂ R) n.composition.allOf n'.composition.allOf
  anyOf : Option.Rel (List.Forall₂ R) n.composition.anyOf n'.composition.anyOf
  oneOf : Option.Rel (List.Forall₂ R) n.composition.oneOf n'.composition.oneOf
  not : Optional R n.composition.not n'.composition.not
  test : Optional R n.conditional.test n'.conditional.test
  accepted : Optional R n.conditional.accepted n'.conditional.accepted
  rejected : Optional R n.conditional.rejected n'.conditional.rejected

namespace Optional

variable {R S : Json → Json → Prop} {o o' : Option Json}

theorem refl (hR : ∀ s, R s s) (o : Option Json) : Optional R o o := by
  cases o with
  | none => exact .none
  | some s => exact .some (hR s)

theorem imp_of_mem (h : Optional R o o') (hRS : ∀ s ∈ o.toList, ∀ s', R s s' → S s s') :
    Optional S o o' := by
  cases h with
  | none => exact .none
  | some h => exact .some (hRS _ List.mem_cons_self _ h)
  | dropped h => exact .dropped (hRS _ List.mem_cons_self _ h)

theorem exists_of_mem (h : Optional R o o') {s' : Json} (hs' : s' ∈ o'.toList) :
    ∃ s ∈ o.toList, R s s' := by
  cases h with
  | none => cases hs'
  | some h =>
    obtain rfl := List.mem_singleton.mp hs'
    exact ⟨_, List.mem_cons_self, h⟩
  | dropped h => cases hs'

end Optional

namespace ItemsRelated

variable {R S : Json → Json → Prop} {k k' : ArrayKeywords}

theorem refl (hR : ∀ s, R s s) (o : Option Json) : ItemsRelated R o o := by
  by_cases h : ∃ xs, o = some (.arr xs)
  · obtain ⟨xs, rfl⟩ := h
    exact .list (List.forall₂_same.mpr fun x _ => hR x)
  · exact .alone (not_exists.mp h) (.refl hR o)

theorem imp_of_mem (h : ItemsRelated R k.items k'.items)
    (hRS : ∀ s ∈ k.itemSchemas, ∀ s', R s s' → S s s') : ItemsRelated S k.items k'.items := by
  unfold ArrayKeywords.itemSchemas at hRS
  generalize k.items = o at h hRS ⊢
  generalize k'.items = o' at h ⊢
  cases h with
  | list h => exact .list (forall₂_imp_of_mem h hRS)
  | alone ho h =>
    refine .alone ho (h.imp_of_mem fun s hs => ?_)
    obtain rfl := Option.mem_toList.mp hs
    cases s with
    | arr xs => exact absurd rfl (ho xs)
    | _ => exact hRS _ List.mem_cons_self

/-- The counterpart of a schema for items, unless it is one of a list that the keyword became. -/
theorem exists_of_mem (h : ItemsRelated R k.items k'.items) {s' : Json}
    (hs' : s' ∈ k'.itemSchemas) :
    (∃ s ∈ k.itemSchemas, R s s') ∨
      ∃ s xs, k.items = some s ∧ (∀ ys, s ≠ .arr ys) ∧ R s (.arr xs) := by
  unfold ArrayKeywords.itemSchemas at hs' ⊢
  generalize k.items = o at h ⊢
  generalize k'.items = o' at h hs'
  cases h with
  | list h => exact .inl (exists_of_forall₂ h hs')
  | alone ho h =>
    cases h with
    | none => cases hs'
    | dropped h => cases hs'
    | @some s s'' h =>
      cases s with
      | arr xs => exact absurd rfl (ho xs)
      | _ =>
        cases s'' with
        | arr xs => exact .inr ⟨_, xs, rfl, nofun, h⟩
        | _ =>
          obtain rfl := List.mem_singleton.mp hs'
          exact .inl ⟨_, List.mem_cons_self, h⟩

end ItemsRelated

/-- The schemas of a list keyword. -/
theorem listsRelated_refl {R : Json → Json → Prop} (hR : ∀ s, R s s) (o : Option (List Json)) :
    Option.Rel (List.Forall₂ R) o o := by
  cases o with
  | none => exact .none
  | some xs => exact .some (List.forall₂_same.mpr fun x _ => hR x)

theorem listsRelated_imp_of_mem {R S : Json → Json → Prop} {o o' : Option (List Json)}
    (h : Option.Rel (List.Forall₂ R) o o') (hRS : ∀ s ∈ o.getD [], ∀ s', R s s' → S s s') :
    Option.Rel (List.Forall₂ S) o o' := by
  cases h with
  | none => exact .none
  | some h => exact .some (forall₂_imp_of_mem h hRS)

theorem exists_of_listsRelated {R : Json → Json → Prop} {o o' : Option (List Json)}
    (h : Option.Rel (List.Forall₂ R) o o') {s' : Json} (hs' : s' ∈ o'.getD []) :
    ∃ s ∈ o.getD [], R s s' := by
  cases h with
  | none => cases hs'
  | some h => exact exists_of_forall₂ h hs'

/-- The schemas of a table of schemas. -/
theorem Table.Related.imp_of_mem {R S : Json → Json → Prop} {t t' : Members}
    (h : Table.Related R t t') (hRS : ∀ s ∈ t.map Prod.snd, ∀ s', R s s' → S s s') :
    Table.Related S t t' :=
  forall₂_imp_of_mem h fun e he _ hee' =>
    ⟨hee'.1, hRS e.2 (List.mem_map.mpr ⟨e, he, rfl⟩) _ hee'.2⟩

namespace Node.Related

variable {R R' D D' : Json → Json → Prop} {n n' : Node}

theorem refl (hR : ∀ s, R s s) (n : Node) : Related R R n n where
  types := rfl
  const := rfl
  enum := rfl
  string := rfl
  number := rfl
  minItems := rfl
  maxItems := rfl
  uniqueItems := rfl
  items := .refl hR _
  additionalItems := .refl hR _
  contains := .refl hR _
  minProperties := rfl
  maxProperties := rfl
  required := rfl
  properties := .refl hR _
  patternProperties := .refl hR _
  additionalProperties := .refl hR _
  propertyNames := .refl hR _
  dependentRequired := rfl
  dependentSchemas := .refl hR _
  allOf := listsRelated_refl hR _
  anyOf := listsRelated_refl hR _
  oneOf := listsRelated_refl hR _
  not := .refl hR _
  test := .refl hR _
  accepted := .refl hR _
  rejected := .refl hR _

/-- What relates the schemas inside can be exchanged. -/
theorem imp_of_mem (h : Related R D n n')
    (hR : ∀ s, s ∈ n.again ∨ s ∈ n.into → ∀ s', R s s' → R' s s')
    (hD : ∀ s ∈ n.again, ∀ s', D s s' → D' s s') : Related R' D' n n' := by
  refine { h with
    items := h.items.imp_of_mem fun s hs => hR s ?_
    additionalItems := h.additionalItems.imp_of_mem fun s hs => hR s ?_
    contains := h.contains.imp_of_mem fun s hs => hR s ?_
    properties := h.properties.imp_of_mem fun s hs => hR s ?_
    patternProperties := h.patternProperties.imp_of_mem fun s hs => hR s ?_
    additionalProperties := h.additionalProperties.imp_of_mem fun s hs => hR s ?_
    propertyNames := h.propertyNames.imp_of_mem fun s hs => hR s ?_
    dependentSchemas := h.dependentSchemas.imp_of_mem fun s hs => hD s ?_
    allOf := listsRelated_imp_of_mem h.allOf fun s hs => hR s ?_
    anyOf := listsRelated_imp_of_mem h.anyOf fun s hs => hR s ?_
    oneOf := listsRelated_imp_of_mem h.oneOf fun s hs => hR s ?_
    not := h.not.imp_of_mem fun s hs => hR s ?_
    test := h.test.imp_of_mem fun s hs => hR s ?_
    accepted := h.accepted.imp_of_mem fun s hs => hR s ?_
    rejected := h.rejected.imp_of_mem fun s hs => hR s ?_ }
  all_goals
    simp only [Node.again, Node.into, List.mem_append]
    tauto

/-- The counterpart of a schema for the same value. -/
theorem exists_of_mem_again (h : Related R D n n') {s' : Json} (hs' : s' ∈ n'.again) :
    ∃ s ∈ n.again, R s s' ∨ D s s' := by
  simp only [Node.again, List.mem_append] at hs' ⊢
  obtain ((((((hs' | hs') | hs') | hs') | hs') | hs') | hs') | hs' := hs'
  · obtain ⟨s, hs, hss'⟩ := exists_of_forall₂ h.dependentSchemas.map_snd hs'
    exact ⟨s, by tauto, .inr hss'⟩
  · obtain ⟨s, hs, hss'⟩ := exists_of_listsRelated h.allOf hs'
    exact ⟨s, by tauto, .inl hss'⟩
  · obtain ⟨s, hs, hss'⟩ := exists_of_listsRelated h.anyOf hs'
    exact ⟨s, by tauto, .inl hss'⟩
  · obtain ⟨s, hs, hss'⟩ := exists_of_listsRelated h.oneOf hs'
    exact ⟨s, by tauto, .inl hss'⟩
  · obtain ⟨s, hs, hss'⟩ := h.not.exists_of_mem hs'
    exact ⟨s, by tauto, .inl hss'⟩
  · obtain ⟨s, hs, hss'⟩ := h.test.exists_of_mem hs'
    exact ⟨s, by tauto, .inl hss'⟩
  · obtain ⟨s, hs, hss'⟩ := h.accepted.exists_of_mem hs'
    exact ⟨s, by tauto, .inl hss'⟩
  · obtain ⟨s, hs, hss'⟩ := h.rejected.exists_of_mem hs'
    exact ⟨s, by tauto, .inl hss'⟩

/-- The counterpart of a schema for parts of the value, unless it is one of a list for items that
stands where there was no list. -/
theorem exists_of_mem_into (h : Related R D n n') {s' : Json} (hs' : s' ∈ n'.into) :
    (∃ s ∈ n.into, R s s') ∨
      ∃ s xs, n.array.items = some s ∧ (∀ ys, s ≠ .arr ys) ∧ R s (.arr xs) := by
  simp only [Node.into, List.mem_append] at hs' ⊢
  obtain (((((hs' | hs') | hs') | hs') | hs') | hs') | hs' := hs'
  · refine (h.items.exists_of_mem hs').imp_left fun hex => ?_
    obtain ⟨s, hs, hss'⟩ := hex
    exact ⟨s, by tauto, hss'⟩
  · obtain ⟨s, hs, hss'⟩ := h.additionalItems.exists_of_mem hs'
    exact .inl ⟨s, by tauto, hss'⟩
  · obtain ⟨s, hs, hss'⟩ := h.contains.exists_of_mem hs'
    exact .inl ⟨s, by tauto, hss'⟩
  · obtain ⟨s, hs, hss'⟩ := exists_of_forall₂ h.properties.map_snd hs'
    exact .inl ⟨s, by tauto, hss'⟩
  · obtain ⟨s, hs, hss'⟩ := exists_of_forall₂ h.patternProperties.map_snd hs'
    exact .inl ⟨s, by tauto, hss'⟩
  · obtain ⟨s, hs, hss'⟩ := h.additionalProperties.exists_of_mem hs'
    exact .inl ⟨s, by tauto, hss'⟩
  · obtain ⟨s, hs, hss'⟩ := h.propertyNames.exists_of_mem hs'
    exact .inl ⟨s, by tauto, hss'⟩

end Node.Related

end Conform
