import Conform.Proofs.Flattening

/-!
# Conform.Proofs.FieldPlaces

At which places the fields of a schema lie. Steps into a value lead along in its schema, through the
named schemas where objects are declared and the schema of items where arrays are (`Json.Governs`).
The place of a field is these steps in writing, `[*]` standing for every item:

```
steps     tags, 2, id        in a value     tags[2].id        of a field     tags[*].id
```

A schema that says with named schemas and items alone how a value is built (`Json.Fielded`) has a
field for whatever such steps lead to.
-/

namespace Conform

/-! ## Places of fields -/

namespace Path

/-- The place of a field one step further. -/
def extendField (path : String) : Step → String
  | .name member => name path member
  | .index _ => path ++ "[*]"

/-- The place of the field for what steps lead to. -/
def renderField (path : String) (steps : List Step) : String := steps.foldl extendField path

@[simp] theorem renderField_nil (path : String) : renderField path [] = path := rfl

@[simp] theorem renderField_cons (path : String) (s : Step) (steps : List Step) :
    renderField path (s :: steps) = renderField (extendField path s) steps := rfl

end Path

/-! ## Schemas that are built of named schemas and items -/

/-- The schema for the part that one step leads to: for a member the one under its name, where
objects are declared, and for an item the one of all items, where arrays are. -/
inductive Json.GovernsPart : Json → Path.Step → Json → Prop where
  | name {s t : Json} {n : Node} {m : String} (hs : s.ReadsAs n)
      (hobject : n.declares "object" = true) (hm : n.object.properties.lookup m = some t) :
      GovernsPart s (.name m) t
  | index {s t : Json} {n : Node} {i : Nat} (hs : s.ReadsAs n)
      (harray : n.declares "array" = true) (hitems : n.array.items = some t) :
      GovernsPart s (.index i) t

/-- The schema for what steps lead to. -/
inductive Json.Governs : Json → List Path.Step → Json → Prop where
  | here (s : Json) : Governs s [] s
  | step {s t u : Json} {step : Path.Step} {steps : List Path.Step} (hpart : s.GovernsPart step t)
      (h : Governs t steps u) : Governs s (step :: steps) u

/-- Types are declared, and no schema is there for a value or a part of it but the named ones and
the one of items. Schemas that are only asked whether they accept are no matter. -/
structure Node.Fielded (n : Node) : Prop where
  types : ∃ names : List String, n.types = some (names.map .str)
  patternProperties : n.object.patternProperties = []
  additionalProperties : n.object.additionalProperties = none
  propertyNames : n.object.propertyNames = none
  dependentRequired : n.object.dependentRequired = []
  dependentSchemas : n.object.dependentSchemas = []
  allOf : n.composition.allOf = none
  test : n.conditional.test = none

/-- A schema without a reference, built of named schemas and items. -/
inductive Json.Fielded : Json → Prop where
  | keywords {ms : Members} {n : Node} (href : ms.lookup "$ref" = none)
      (hn : Node.ofMembers ms = .ok n) (hfielded : n.Fielded)
      (hnamed : ∀ e ∈ n.object.properties, Fielded e.2)
      (hitems : ∀ s, n.array.items = some s → Fielded s) : Fielded (.obj ms)

namespace Json

variable {ms : Members} {n n' : Node}

theorem ReadsAs.unique (h : ReadsAs (.obj ms) n') (hn : Node.ofMembers ms = .ok n) : n' = n := by
  cases h with
  | keywords _ hn' => exact Except.ok.inj (hn'.symm.trans hn)

theorem Fielded.isObject {s : Json} (h : s.Fielded) : s.isObject = true := by
  cases h with
  | keywords _ _ _ _ _ => rfl

theorem Fielded.ne_arr {s : Json} (h : s.Fielded) (xs : List Json) : s ≠ .arr xs := by
  rintro rfl
  cases h

end Json

/-! ## Fields -/

namespace Typing

theorem exists_different (names : List String) (before : List BaseType) :
    ∃ types, different (names.map .str) before = .ok types := by
  induction names generalizing before with
  | nil => exact ⟨before, rfl⟩
  | cons name names ih =>
    rw [List.map_cons]
    unfold different
    split
    · exact ⟨_, rfl⟩
    · next types _ hlist =>
      cases hlist
      exact ih _
    · next hlist =>
      cases hlist
      exact ih _

/-- Declared types that are names tell the type of a field. -/
theorem exists_ofNode {n : Node} (h : n.Fielded) : ∃ typing, ofNode n = .ok typing := by
  obtain ⟨names, hnames⟩ := h.types
  obtain ⟨types, htypes⟩ := exists_different names []
  refine ⟨ofBaseTypes n.allowsNull types, ?_⟩
  rw [ofNode, hnames]
  dsimp only
  rw [htypes]
  rfl

end Typing

namespace Field

/-- Fields among which there is one for whatever steps lead to below a schema at a place. -/
def Covers (s : Json) (path : String) (fields : List Field) : Prop :=
  ∀ steps u, s.Governs steps u → ∃ f ∈ fields, f.path = Path.renderField path steps

/-- A reading that gives such fields. -/
def Shows (s : Json) (path : String) (r : Except Fault (List Field)) : Prop :=
  ∃ fields, r = .ok fields ∧ Covers s path fields

variable {n : Node}

theorem Covers.mono {s : Json} {path : String} {fields fields' : List Field}
    (h : Covers s path fields) (hsub : fields ⊆ fields') : Covers s path fields' := by
  intro steps u hu
  obtain ⟨f, hf, hpath⟩ := h steps u hu
  exact ⟨f, hsub hf, hpath⟩

section

variable (self : Descend) (followed : List String)

theorem exists_ofTable {place : String → String} {t : Members}
    (h : ∀ e ∈ t, Shows e.2 (place e.1) (ofOne self e.1 e.2 (place e.1) n followed)) :
    ∃ fields, ofTable self place n followed t = .ok fields ∧
      ∀ e ∈ t, Covers e.2 (place e.1) fields := by
  induction t with
  | nil => exact ⟨[], rfl, nofun⟩
  | cons e t ih =>
    obtain ⟨here, hhere, hcovers⟩ := h e List.mem_cons_self
    obtain ⟨rest, hrest, hothers⟩ := ih fun e' he' => h e' (List.mem_cons_of_mem _ he')
    refine ⟨here ++ rest, ?_, List.forall_mem_cons.mpr ⟨?_, fun e' he' => ?_⟩⟩
    · rw [ofTable_cons, hhere, hrest]
      rfl
    · exact hcovers.mono (List.subset_append_left _ _)
    · exact (hothers e' he').mono (List.subset_append_right _ _)

theorem exists_ofObject (hn : n.Fielded) {path : String}
    (h : ∀ e ∈ n.object.properties,
      Shows e.2 (Path.name path e.1) (ofOne self e.1 e.2 (Path.name path e.1) n followed)) :
    ∃ fields, ofObject self n path followed = .ok fields ∧
      ∀ e ∈ n.object.properties, Covers e.2 (Path.name path e.1) fields := by
  obtain ⟨fields, hfields, hcovers⟩ := exists_ofTable self followed h
  refine ⟨fields ++ [], ?_, ?_⟩
  · rw [ofObject, hfields, hn.patternProperties]
    rfl
  · rw [List.append_nil]
    exact hcovers

theorem exists_ofItems {name path : String}
    (h : ∀ s, n.array.items = some s →
      Shows s (path ++ "[*]") (ofOne self (name ++ "[*]") s (path ++ "[*]") n followed)) :
    ∃ fields, ofItems self n name path followed = .ok fields ∧
      ∀ s, n.array.items = some s → Covers s (path ++ "[*]") fields := by
  rw [ofItems_eq]
  cases hitems : n.array.items with
  | none => exact ⟨[], rfl, nofun⟩
  | some s =>
    obtain ⟨fields, hfields, hcovers⟩ := h s hitems
    exact ⟨fields, hfields, fun _ hs => by cases hs; exact hcovers⟩

/-- A reading that is made under a condition only. -/
theorem exists_ite {b : Bool} {r : Except Fault (List Field)} {P : List Field → Prop}
    (h : ∃ fields, r = .ok fields ∧ P fields) :
    ∃ fields, (if b then r else .ok []) = .ok fields ∧ (b = true → P fields) := by
  obtain ⟨fields, hfields, hP⟩ := h
  cases b with
  | false => exact ⟨[], rfl, nofun⟩
  | true => exact ⟨fields, hfields, fun _ => hP⟩

/-- The fields below a field are those of the members and the items that can be there. -/
theorem exists_ofChildren (hn : n.Fielded) {name path : String}
    (hnamed : ∀ e ∈ n.object.properties,
      Shows e.2 (Path.name path e.1) (ofOne self e.1 e.2 (Path.name path e.1) n followed))
    (hitems : ∀ s, n.array.items = some s →
      Shows s (path ++ "[*]") (ofOne self (name ++ "[*]") s (path ++ "[*]") n followed)) :
    ∃ fields, ofChildren self n name path followed = .ok fields ∧
      (n.declares "object" = true →
        ∀ e ∈ n.object.properties, Covers e.2 (Path.name path e.1) fields) ∧
      (n.declares "array" = true →
        ∀ s, n.array.items = some s → Covers s (path ++ "[*]") fields) := by
  obtain ⟨members, hmembers, hnamed⟩ :=
    exists_ite (b := n.declares "object") (exists_ofObject self followed hn hnamed)
  obtain ⟨items, hitems, hall⟩ :=
    exists_ite (b := n.declares "array") (exists_ofItems self followed hitems)
  refine ⟨members ++ items, ?_, fun hobject e he => ?_, fun harray s hs => ?_⟩
  · rw [ofChildren_eq, hmembers, hitems]
    rfl
  · exact (hnamed hobject e he).mono (List.subset_append_left _ _)
  · exact (hall harray s hs).mono (List.subset_append_right _ _)

end

/-- A schema inside another one lies deeper. -/
theorem height_lt_of_mem_into {ms : Members} {s : Json} (hn : Node.ofMembers ms = .ok n)
    (hs : s ∈ n.into) : s.height < (Json.obj ms).height := by
  rw [Json.height]
  exact Nat.lt_succ_of_le (Node.within_of_mem_into hn hs).height_le

/-- A schema that is an object has the fields that its reading gives. -/
theorem Shows.ofOne {self : Descend} {followed : List String} {s : Json} {name path : String}
    (hs : s.isObject = true) (h : Shows s path (self name s path n followed)) :
    Shows s path (Field.ofOne self name s path n followed) := by
  rw [Field.ofOne, if_pos hs]
  exact h

/-- A field and those below it are there for whatever steps lead to. -/
theorem covers_cons {ms : Members} {path : String} {field : Field} {below : List Field}
    (hn : Node.ofMembers ms = .ok n) (hfield : field.path = path)
    (hnamed : n.declares "object" = true →
      ∀ e ∈ n.object.properties, Covers e.2 (Path.name path e.1) below)
    (hitems : n.declares "array" = true →
      ∀ s, n.array.items = some s → Covers s (path ++ "[*]") below) :
    Covers (.obj ms) path (field :: below) := by
  intro steps u hu
  cases hu with
  | here => exact ⟨field, List.mem_cons_self, hfield⟩
  | step hpart h =>
    cases hpart with
    | name hs hobject hm =>
      rw [hs.unique hn] at hobject hm
      obtain ⟨f, hf, hpath⟩ := hnamed hobject _ (mem_of_lookup hm) _ u h
      exact ⟨f, List.mem_cons_of_mem _ hf, hpath⟩
    | index hs harray hitem =>
      rw [hs.unique hn] at harray hitem
      obtain ⟨f, hf, hpath⟩ := hitems harray _ hitem _ u h
      exact ⟨f, List.mem_cons_of_mem _ hf, hpath⟩

/-- A schema built of named schemas and items has a field for whatever steps lead to. -/
theorem shows_descend {s : Json} (h : s.Fielded) {document : Option Json} {m : Nat}
    (hm : s.height < m) (name path : String) (parent : Node) (followed : List String) :
    Shows s path (descend document m name s path parent followed) := by
  induction h generalizing m name path parent followed with
  | @keywords ms n href hn hfielded hnamed hitems ihnamed ihitems =>
    obtain ⟨m, rfl⟩ : ∃ j, m = j + 1 := ⟨m - 1, by omega⟩
    have hbelow : ∀ t ∈ n.into, t.height < m := fun t ht => by
      have hlt := height_lt_of_mem_into hn ht
      omega
    obtain ⟨typing, htyping⟩ := Typing.exists_ofNode hfielded
    obtain ⟨below, hchildren, hmembers, hall⟩ :=
      exists_ofChildren (descend document m) ([] ++ followed) hfielded
        (fun e he => .ofOne (hnamed e he).isObject
          (ihnamed e he (hbelow _ (Node.mem_into_of_named he)) _ _ _ _))
        (fun t ht => .ofOne (hitems t ht).isObject
          (ihitems t ht (hbelow _ (Node.mem_into_of_items ht (hitems t ht).ne_arr)) _ _ _ _))
    refine ⟨⟨path, typing, .ofNode n (parent.object.required.contains (.str name))⟩ :: below, ?_,
      covers_cons hn rfl hmembers hall⟩
    have hfield : ∀ required, ofNode n path required = .ok ⟨path, typing, .ofNode n required⟩ := by
      intro required
      rw [ofNode, htyping]
      rfl
    rw [descend_object (settle_of_get?_eq_none href) nofun, hn]
    change (ofNode n path _ >>= fun field => ofChildren _ n name path _ >>= fun below =>
      .ok (field :: below)) = _
    rw [hfield, hchildren]
    rfl

/-- A document that combines no schemas has the fields of an object. -/
theorem exists_ofDocument {document : Option Json} {m : Nat} {followed : List String}
    {fields : List Field} (hcombined : n.composition.present = false)
    (h : ofObject (descend document m) n "" followed = .ok fields) :
    ∃ all, ofDocument document m n followed = .ok all ∧ fields ⊆ all := by
  rw [ofDocument, hcombined, h]
  refine ⟨_, rfl, ?_⟩
  cases (Constraints.ofRoot n).isEmpty with
  | true => exact List.Subset.refl _
  | false => exact List.subset_cons_self _ _

/-- A document built of named schemas and items, and itself not of items, has a field for whatever
steps lead to inside it. -/
theorem exists_ofSchema {schema : Json} (h : schema.Fielded) (hn : schema.ReadsAs n)
    (hcombined : n.composition.present = false) (harray : n.declares "array" = false)
    (given : Option Json) :
    ∃ fields, ofSchema schema "" given = .ok fields ∧
      ∀ steps u, schema.Governs steps u → steps ≠ [] →
        ∃ f ∈ fields, f.path = Path.renderField "" steps := by
  cases h with
  | @keywords ms n' href hn' hfielded hnamed hitems =>
    cases hn.unique hn'
    let document := Pointer.document (.obj ms) given
    have hheight : ∀ e ∈ n.object.properties,
        e.2.height < Pointer.reach (.obj ms) document + 1 := by
      intro e he
      have hlt := height_lt_of_mem_into hn' (Node.mem_into_of_named he)
      have hreach := Pointer.height_lt_reach (.obj ms) document
      omega
    obtain ⟨fields, hfields, hcovers⟩ := exists_ofObject
      (descend document (Pointer.reach (.obj ms) document + 1)) [] hfielded fun e he =>
        .ofOne (hnamed e he).isObject (shows_descend (hnamed e he) (hheight e he) _ _ _ _)
    obtain ⟨all, hall, hsub⟩ := exists_ofDocument hcombined hfields
    refine ⟨all, ?_, fun steps u hu hsteps => ?_⟩
    · rw [ofSchema_object rfl (settle_of_get?_eq_none href), hn']
      exact hall
    · cases hu with
      | here => exact absurd rfl hsteps
      | step hpart h =>
        cases hpart with
        | name hs _ hm =>
          rw [hs.unique hn'] at hm
          obtain ⟨f, hf, hpath⟩ := hcovers _ (mem_of_lookup hm) _ u h
          exact ⟨f, hsub hf, hpath⟩
        | index hs hdeclares _ =>
          rw [hs.unique hn', harray] at hdeclares
          cases hdeclares

end Field

end Conform
