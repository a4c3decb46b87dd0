import Conform.Proofs.Clauses
import Conform.Proofs.Dependencies

/-!
# Conform.Proofs.Declarations

Reading a schema keeps what it declares. For each way in which a keyword is read there is a lemma
that tells what is read by what is declared:

```
a value             "pattern", "minimum", "not"     as it is
a list              "enum", "required", "allOf"     its elements
schemas by name     "properties"                    its entries
a constant, types, a mark
what triggers ask   the entries of three keywords, merged
```

Only the last of them loses anything. An entry of `dependencies` is read just when the newer
spelling for its kind has none for the same trigger.
-/

namespace Conform

variable {ms : Members} {keyword : String}

theorem Declares.unique {j j' : Json} (h : Declares ms keyword j) (h' : Declares ms keyword j') :
    j = j' :=
  Option.some.inj (h.1.symm.trans h'.1)

/-! ## Values -/

/-- What is read of a keyword is what is declared. -/
theorem keyword_eq_some_iff (j : Json) :
    Table.keyword ms keyword = some j ↔ Declares ms keyword j := by
  unfold Table.keyword Declares
  cases ms.lookup keyword with
  | none => simp
  | some j' =>
    cases j' with
    | null =>
      simp only [Option.some.injEq, reduceCtorEq, false_iff, not_and, not_not]
      exact Eq.symm
    | _ =>
      simp only [Option.some.injEq]
      exact ⟨fun h => ⟨h, by simp [← h]⟩, And.left⟩

theorem keyword_eq_none_iff :
    Table.keyword ms keyword = none ↔ ∀ j, ¬ Declares ms keyword j := by
  simp only [← keyword_eq_some_iff, ← Option.eq_none_iff_forall_ne_some]

namespace Node

/-- A mark is set where what is declared counts as true. -/
theorem uniqueItems_arrayOf_iff :
    (arrayOf ms).uniqueItems = true ↔
      ∃ mark, Declares ms "uniqueItems" mark ∧ mark.isTruthy = true := by
  unfold arrayOf Declares
  cases ms.lookup "uniqueItems" with
  | none => simp [Json.isTruthy, Json.isFalsy]
  | some j => cases j <;> simp [Json.isTruthy, Json.isFalsy]

/-! ## Lists -/

/-- Elements that are read are those of the value. -/
theorem exists_of_map_elements {j : Json} {found : Option (List Json)}
    (h : j.elements.map some = .ok found) : ∃ xs, j.elements = .ok xs ∧ found = some xs := by
  cases hxs : j.elements with
  | error f =>
    rw [hxs] at h
    cases h
  | ok xs =>
    rw [hxs] at h
    exact ⟨xs, rfl, (Except.ok.inj h).symm⟩

theorem listKeyword_eq_some_iff {found : Option (List Json)}
    (h : listKeyword ms keyword = .ok found) (xs : List Json) :
    found = some xs ↔ DeclaresList ms keyword xs := by
  unfold listKeyword at h
  unfold DeclaresList
  simp only [← keyword_eq_some_iff]
  split at h
  · next hnone =>
    cases h
    simp [hnone]
  · next j hj =>
    obtain ⟨ys, hys, rfl⟩ := exists_of_map_elements h
    simp [hj, hys]

theorem listKeyword_eq_none_iff {found : Option (List Json)}
    (h : listKeyword ms keyword = .ok found) : found = none ↔ ∀ j, ¬ Declares ms keyword j := by
  rw [← keyword_eq_none_iff]
  unfold listKeyword at h
  split at h
  · next hnone =>
    cases h
    simp [hnone]
  · next j hj =>
    obtain ⟨ys, -, rfl⟩ := exists_of_map_elements h
    simp [hj]

/-- What counts as no list of names demands none, as the list of nothing does. -/
theorem mem_requiredOf_iff {names : List Json} (h : requiredOf ms = .ok names) (name : Json) :
    name ∈ names ↔ ∃ xs, DeclaresList ms "required" xs ∧ name ∈ xs := by
  unfold requiredOf at h
  unfold DeclaresList Declares
  cases hj : ms.lookup "required" with
  | none =>
    rw [hj] at h
    cases h
    simp
  | some j =>
    rw [hj] at h
    dsimp only at h
    split at h
    · next hempty =>
      cases h
      have hnone : ∀ xs, j.elements = .ok xs → xs = [] := by
        intro xs hxs
        cases j with
        | str s => simp_all [Json.elements, Json.isFalsy]
        | arr ys => simp_all [Json.elements, Json.isFalsy]
        | obj es => simp_all [Json.elements, Json.isFalsy]
        | _ => cases hxs
      constructor
      · simp
      · rintro ⟨xs, ⟨j', ⟨hj', -⟩, hxs⟩, hname⟩
        obtain rfl := Option.some.inj hj'
        rw [hnone xs hxs] at hname
        exact hname
    · have hnull : j ≠ .null := by
        rintro rfl
        cases h
      simp [hnull, h]

/-! ## Schemas by name -/

theorem mem_schemasOf_iff (e : String × Json) :
    e ∈ schemasOf ms keyword ↔ ∃ es, Declares ms keyword (.obj es) ∧ e ∈ es := by
  unfold schemasOf Declares
  split
  · next es hes => simp [hes]
  · next hnone =>
    constructor
    · nofun
    · rintro ⟨es, ⟨hes, -⟩, -⟩
      exact absurd hes (hnone es)

theorem lookup_schemasOf_eq_some_iff (name : String) (schema : Json) :
    (schemasOf ms keyword).lookup name = some schema ↔
      ∃ es, Declares ms keyword (.obj es) ∧ es.lookup name = some schema := by
  unfold schemasOf Declares
  split
  · next es hes => simp [hes]
  · next hnone =>
    constructor
    · nofun
    · rintro ⟨es, ⟨hes, -⟩, -⟩
      exact absurd hes (hnone es)

theorem has_schemasOf_eq_false_iff (name : String) :
    Table.has (schemasOf ms keyword) name = false ↔
      ∀ es, Declares ms keyword (.obj es) → Table.has es name = false := by
  unfold schemasOf Declares
  split
  · next es hes => simp [hes]
  · next hnone => exact iff_of_true rfl fun es hes => absurd hes.1 (hnone es)

/-! ## Constants and types -/

theorem hasConst_eq_false_iff {n : Node} (h : n.const = (ms.lookup "const").getD .absent) :
    n.hasConst = false ↔ ∀ c, ¬ DeclaresConst ms c := by
  unfold hasConst DeclaresConst
  rw [h]
  cases ms.lookup "const" <;> simp

theorem hasConst_and_iff {n : Node} (h : n.const = (ms.lookup "const").getD .absent)
    (P : Json → Prop) :
    n.hasConst = true ∧ P n.const ↔ ∃ c, DeclaresConst ms c ∧ P c := by
  unfold hasConst DeclaresConst
  rw [h]
  cases ms.lookup "const" <;> simp

theorem typesOf_eq_none_iff {types : Option (List Json)} (h : typesOf ms = .ok types) :
    types = none ↔ ∀ j, ¬ Declares ms "type" j := by
  rw [← keyword_eq_none_iff]
  unfold typesOf at h
  split at h
  · next hnone =>
    cases h
    simp [hnone]
  · next name hname =>
    cases h
    simp [hname]
  · next j _ hj =>
    obtain ⟨ts, -, rfl⟩ := exists_of_map_elements h
    simp [hj]

theorem mem_typesOf_iff {types : Option (List Json)} (h : typesOf ms = .ok types) (t : Json) :
    (∃ ts, types = some ts ∧ t ∈ ts) ↔ DeclaresType ms t := by
  unfold DeclaresType
  simp only [← keyword_eq_some_iff]
  unfold typesOf at h
  split at h
  · next hnone =>
    cases h
    simp [hnone]
  · next name hname =>
    cases h
    simp [hname]
  · next j hword hj =>
    obtain ⟨ts, hts, rfl⟩ := exists_of_map_elements h
    have hword' : ∀ name, j ≠ .str name := fun name => hword name
    simp [hj, hts, hword']

/-! ## Dependencies -/

section

variable {es : Members}

/-- The entries of an optional keyword are those of the object that it declares. -/
theorem mem_optionalMembers_iff
    (h : ((ms.lookup keyword).getD .null).optionalMembers = .ok es) (e : String × Json) :
    e ∈ es ↔ ∃ entries, Declares ms keyword (.obj entries) ∧ e ∈ entries := by
  constructor
  · intro he
    exact ⟨es, ⟨Json.lookup_of_optionalMembers h he, nofun⟩, he⟩
  · rintro ⟨entries, ⟨hentries, -⟩, he⟩
    rw [hentries, Option.getD_some, Json.optionalMembers_obj] at h
    obtain rfl := Except.ok.inj h
    exact he

theorem has_optionalMembers_iff
    (h : ((ms.lookup keyword).getD .null).optionalMembers = .ok es) (trigger : String) :
    Table.has es trigger = true ↔ HasEntry ms keyword trigger := by
  unfold HasEntry
  simp only [Table.has_iff, List.mem_map, mem_optionalMembers_iff h]
  constructor
  · rintro ⟨e, ⟨entries, hentries, he⟩, htrigger⟩
    exact ⟨entries, hentries, e, he, htrigger⟩
  · rintro ⟨entries, hentries, e, he, htrigger⟩
    exact ⟨e, ⟨entries, hentries, he⟩, htrigger⟩

/-- They have different names, if the names of each object of the schema differ. -/
theorem nodup_optionalMembers (hdistinct : (Json.obj ms).Distinct)
    (h : ((ms.lookup keyword).getD .null).optionalMembers = .ok es) :
    (es.map Prod.fst).Nodup := by
  cases es with
  | nil => exact .nil
  | cons e es =>
    rw [Json.Distinct] at hdistinct
    have hentries := Json.lookup_of_optionalMembers h List.mem_cons_self
    have hobject := hdistinct.2.of_mem (mem_of_lookup hentries)
    rw [Json.Distinct] at hobject
    exact hobject.1

end

theorem items?_eq_some_iff (j : Json) (names : List Json) :
    j.items? = some names ↔ j = .arr names := by
  cases j <;> simp [Json.items?]

theorem asSchema?_eq_some_iff (j schema : Json) :
    asSchema? j = some schema ↔ j = schema ∧ ∀ names, schema ≠ .arr names := by
  unfold asSchema?
  cases hitems : j.items? with
  | some names =>
    have hj := (items?_eq_some_iff j names).mp hitems
    constructor
    · nofun
    · rintro ⟨rfl, hlist⟩
      exact absurd hj (hlist names)
  | none =>
    have hlist : ∀ names, j ≠ .arr names := by
      rintro names rfl
      cases hitems
    constructor
    · intro h
      obtain rfl := Option.some.inj h
      exact ⟨rfl, hlist⟩
    · rintro ⟨rfl, -⟩
      rfl

variable {demands : Table (List Json)} {schemas : Members}

/-- The demands that are read are those of `dependentRequired`, and those of `dependencies` whose
trigger has none there. -/
theorem mem_demands_iff (hdistinct : (Json.obj ms).Distinct)
    (h : dependenciesOf ms = .ok (demands, schemas)) (trigger : String) (names : List Json) :
    (trigger, names) ∈ demands ↔
      (∃ entries j, Declares ms "dependentRequired" (.obj entries) ∧ (trigger, j) ∈ entries ∧
        j.elements = .ok names) ∨
      (¬ HasEntry ms "dependentRequired" trigger ∧
        ∃ entries, Declares ms "dependencies" (.obj entries) ∧
          (trigger, .arr names) ∈ entries) := by
  obtain ⟨mixed, required, more, hmixed, hrequired, -, hdemands, -⟩ := exists_of_dependenciesOf h
  rw [mem_addDemands_iff (nodup_optionalMembers hdistinct hmixed)
    (nodup_optionalMembers hdistinct hrequired) hdemands, ← Bool.not_eq_true,
    has_optionalMembers_iff hrequired]
  simp only [mem_optionalMembers_iff hrequired, mem_optionalMembers_iff hmixed,
    items?_eq_some_iff, exists_eq_right]
  apply or_congr_left
  constructor
  · rintro ⟨j, ⟨entries, hentries, hj⟩, hnames⟩
    exact ⟨entries, j, hentries, hj, hnames⟩
  · rintro ⟨entries, j, hentries, hj, hnames⟩
    exact ⟨j, ⟨entries, hentries, hj⟩, hnames⟩

/-- The schemas that are read are those of `dependentSchemas`, and those of `dependencies` whose
trigger has none there. -/
theorem mem_dependentSchemas_iff (hdistinct : (Json.obj ms).Distinct)
    (h : dependenciesOf ms = .ok (demands, schemas)) (trigger : String) (schema : Json) :
    (trigger, schema) ∈ schemas ↔
      (∃ entries, Declares ms "dependentSchemas" (.obj entries) ∧ (trigger, schema) ∈ entries) ∨
      (¬ HasEntry ms "dependentSchemas" trigger ∧
        ∃ entries, Declares ms "dependencies" (.obj entries) ∧ (trigger, schema) ∈ entries ∧
          ∀ names, schema ≠ .arr names) := by
  obtain ⟨mixed, required, more, hmixed, -, hmore, -, rfl⟩ := exists_of_dependenciesOf h
  rw [mem_schemas_iff (nodup_optionalMembers hdistinct hmixed)
    (nodup_optionalMembers hdistinct hmore), ← Bool.not_eq_true, has_optionalMembers_iff hmore]
  simp only [mem_optionalMembers_iff hmore, mem_optionalMembers_iff hmixed,
    asSchema?_eq_some_iff]
  apply or_congr_right
  apply and_congr_right
  intro _
  constructor
  · rintro ⟨j, ⟨entries, hentries, hj⟩, rfl, hlist⟩
    exact ⟨entries, hentries, hj, hlist⟩
  · rintro ⟨entries, hentries, hj, hlist⟩
    exact ⟨schema, ⟨entries, hentries, hj⟩, rfl, hlist⟩

end Node

end Conform
