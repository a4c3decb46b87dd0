import Conform.Proofs.Multiples
import Conform.Proofs.Subschemas

/-!
# Conform.Proofs.WellFormed

Documents whose schemas are written as they should be. Every schema that evaluation can meet is a
boolean, or a reference that leads somewhere, or an object in which each declared keyword has the
shape that is documented for it (`Table.Shaped`):

```
type                                  a name, or names
enum  allOf  anyOf  oneOf             a list
required                              names
dependencies                          names or a schema for each member
dependentRequired                     names for each member
properties  dependentSchemas          a schema for each name
patternProperties                     a schema for each pattern
minimum  minLength  …                 a number
exclusiveMinimum  exclusiveMaximum    a number or a boolean
multipleOf                            a number above zero
pattern                               a pattern
format  content…                      a text
```

Where one schema is wanted the shape is that of a schema, and needs no line: it is met as well.

The keywords of such an object can be read, and what is read is fit for the rules (`Node.Sound`).
-/

namespace Conform

/-! ## Shapes -/

namespace Json

/-- A text. -/
def IsText (j : Json) : Prop := ∃ s, j = .str s

/-- A number. -/
def IsNumber (j : Json) : Prop := ∃ n, j = .num n

/-- A list. -/
def IsList (j : Json) : Prop := ∃ xs, j = .arr xs

/-- A list of texts. -/
def IsTexts (j : Json) : Prop := ∃ xs, j = .arr xs ∧ ∀ x ∈ xs, x.IsText

/-- Values by name, each with its name of a certain kind. -/
def IsTable (P : String → Json → Prop) (j : Json) : Prop :=
  ∃ es, j = .obj es ∧ ∀ e ∈ es, P e.1 e.2

end Json

variable [Host] in
/-- A text that can be read as a pattern. -/
def Pattern.Compiles (text : String) : Prop := isPattern text = .ok true

namespace Table

/-- A keyword is of a certain kind where it is declared. -/
def Holds (ms : Members) (name : String) (P : Json → Prop) : Prop :=
  ∀ j, keyword ms name = some j → P j

/-- The keywords that hold a bound. -/
def boundKeywords : List String :=
  ["minLength", "maxLength", "minItems", "maxItems", "minProperties", "maxProperties",
    "minimum", "maximum"]

/-- The keywords that hold a list of schemas or of values. -/
def listKeywords : List String := ["enum", "allOf", "anyOf", "oneOf"]

/-- The keywords that hold a text of any kind. -/
def textKeywords : List String := ["format", "contentEncoding", "contentMediaType"]

variable [Host] in
/-- An object in which every declared keyword has its shape. -/
structure Shaped (ms : Members) : Prop where
  type : Holds ms "type" fun j =>
    j.IsText ∨ ∃ xs, j = .arr xs ∧ xs ≠ [] ∧ ∀ x ∈ xs, x.IsText
  lists : ∀ name ∈ listKeywords, Holds ms name Json.IsList
  required : Holds ms "required" Json.IsTexts
  dependencies : Holds ms "dependencies" (Json.IsTable fun _ j => j.IsList → j.IsTexts)
  dependentRequired : Holds ms "dependentRequired" (Json.IsTable fun _ j => j.IsTexts)
  dependentSchemas : Holds ms "dependentSchemas" (Json.IsTable fun _ _ => True)
  properties : Holds ms "properties" (Json.IsTable fun _ _ => True)
  patternProperties : Holds ms "patternProperties" (Json.IsTable fun k _ => Pattern.Compiles k)
  bounds : ∀ name ∈ boundKeywords, Holds ms name Json.IsNumber
  exclusiveMinimum : Holds ms "exclusiveMinimum" fun j => j.IsNumber ∨ ∃ b, j = .bool b
  exclusiveMaximum : Holds ms "exclusiveMaximum" fun j => j.IsNumber ∨ ∃ b, j = .bool b
  multipleOf : Holds ms "multipleOf" fun j => ∃ n, j = .num n ∧ n.Positive
  pattern : Holds ms "pattern" fun j => ∃ text, j = .str text ∧ Pattern.Compiles text
  texts : ∀ name ∈ textKeywords, Holds ms name Json.IsText

end Table

variable [Host] in
/-- One schema is written as it should be. What is declared beside a reference does not count. -/
inductive Json.Shaped (document : Option Json) : Json → Prop where
  | boolean (b : Bool) : Shaped document (.bool b)
  | reference {ms : Members} {ref : String} {root target : Json}
      (href : Table.keyword ms "$ref" = some (.str ref)) (hroot : document = some root)
      (htarget : Pointer.resolve (.str ref) root = .ok target) : Shaped document (.obj ms)
  | keywords {ms : Members} (href : Table.keyword ms "$ref" = none) (h : Table.Shaped ms) :
      Shaped document (.obj ms)

variable [Host] in
/-- Every schema that evaluation can meet is written as it should be. -/
def Json.WellFormed (document : Option Json) (schema : Json) : Prop :=
  ∀ s, Json.Reaches document schema s → s.Shaped document

/-! ## Keywords that are read -/

/-- What a keyword holds is a number if it is declared. -/
def IsBound (limit : Option Json) : Prop := ∀ j, limit = some j → ∃ m, j = .num m

variable [Host] in
/-- Keywords for strings that are fit for the rules. -/
structure StringKeywords.Sound (k : StringKeywords) : Prop where
  minLength : IsBound k.minLength
  maxLength : IsBound k.maxLength
  pattern (p : Json) (h : k.pattern = some p) : ∃ text, p = .str text ∧ Pattern.Compiles text
  format (name : Json) (h : k.format = some name) : name.IsText

/-- Keywords for numbers that are fit for the rules. -/
structure NumberKeywords.Sound (k : NumberKeywords) : Prop where
  minimum : IsBound k.minimum
  maximum : IsBound k.maximum
  multipleOf (d : Json) (h : k.multipleOf = some d) : ∃ n, d = .num n ∧ n.Positive

variable [Host] in
/-- Keywords that are fit for the rules. -/
structure Node.Sound (n : Node) : Prop where
  types (types : List Json) (h : n.types = some types) :
    types ≠ [] ∧ ∀ t ∈ types, t.IsText
  string : n.string.Sound
  number : n.number.Sound
  minItems : IsBound n.array.minItems
  maxItems : IsBound n.array.maxItems
  minProperties : IsBound n.object.minProperties
  maxProperties : IsBound n.object.maxProperties
  demanded : ∀ name ∈ n.demanded, name.IsText
  patterns : ∀ e ∈ n.object.patternProperties, Pattern.Compiles e.1

namespace Node

variable {ms : Members}

theorem exists_listKeyword {name : String} (h : Table.Holds ms name Json.IsList) :
    ∃ list, listKeyword ms name = .ok list := by
  unfold listKeyword
  cases hj : Table.keyword ms name with
  | none => exact ⟨none, rfl⟩
  | some j =>
    obtain ⟨xs, rfl⟩ := h j hj
    exact ⟨some xs, rfl⟩

variable [Host] in
theorem exists_typesOf (h : Table.Shaped ms) :
    ∃ types, typesOf ms = .ok types ∧
      ∀ ts, types = some ts → ts ≠ [] ∧ ∀ t ∈ ts, t.IsText := by
  unfold typesOf
  cases hj : Table.keyword ms "type" with
  | none => exact ⟨none, rfl, nofun⟩
  | some j =>
    obtain ⟨name, rfl⟩ | ⟨xs, rfl, hne, hxs⟩ := h.type j hj
    · refine ⟨some [.str name], rfl, ?_⟩
      rintro ts ⟨⟩
      exact ⟨nofun, by simp [Json.IsText]⟩
    · refine ⟨some xs, rfl, ?_⟩
      rintro ts ⟨⟩
      exact ⟨hne, hxs⟩

theorem lookup_of_keyword_eq_none {name : String} (h : Table.keyword ms name = none) :
    (ms.lookup name).getD .null = .null := by
  unfold Table.keyword at h
  split at h
  · next hnull => rw [hnull, Option.getD_some]
  · cases h
  · next hnone => rw [hnone, Option.getD_none]

theorem lookup_of_keyword {name : String} {j : Json} (h : Table.keyword ms name = some j) :
    ms.lookup name = some j := by
  unfold Table.keyword at h
  split at h
  · cases h
  · next hj =>
    cases h
    exact hj
  · cases h

variable [Host] in
theorem exists_requiredOf (h : Table.Shaped ms) :
    ∃ names, requiredOf ms = .ok names ∧ ∀ name ∈ names, name.IsText := by
  unfold requiredOf
  cases hj : Table.keyword ms "required" with
  | none =>
    refine ⟨[], ?_, nofun⟩
    have hnull := lookup_of_keyword_eq_none hj
    cases hlookup : ms.lookup "required" with
    | none => rfl
    | some j =>
      rw [hlookup, Option.getD_some] at hnull
      rw [hnull]
      rfl
  | some j =>
    rw [lookup_of_keyword hj]
    obtain ⟨xs, rfl, hxs⟩ := h.required j hj
    dsimp only
    split
    · exact ⟨[], rfl, nofun⟩
    · exact ⟨xs, rfl, hxs⟩

/-- The entries of a keyword that holds values by name. -/
theorem exists_optionalMembers {name : String} {P : String → Json → Prop}
    (h : Table.Holds ms name (Json.IsTable P)) :
    ∃ es, ((ms.lookup name).getD .null).optionalMembers = .ok es ∧ ∀ e ∈ es, P e.1 e.2 := by
  cases hj : Table.keyword ms name with
  | none =>
    rw [lookup_of_keyword_eq_none hj]
    exact ⟨[], rfl, nofun⟩
  | some j =>
    rw [lookup_of_keyword hj, Option.getD_some]
    obtain ⟨es, rfl, hes⟩ := h j hj
    unfold Json.optionalMembers
    split
    · exact ⟨[], rfl, nofun⟩
    · exact ⟨es, rfl, hes⟩

/-- Every demand of a table is for names. -/
def Demanding (demands : Table (List Json)) : Prop :=
  ∀ e ∈ demands, ∀ name ∈ e.2, name.IsText

theorem Demanding.put {demands : Table (List Json)} (h : Demanding demands) {trigger : String}
    {names : List Json} (hnames : ∀ name ∈ names, name.IsText) :
    Demanding (demands.put trigger names) := by
  intro e he
  obtain rfl | he := Table.mem_put he
  · exact hnames
  · exact h e he

theorem demanding_splitDependencies {entries : Members}
    (h : ∀ e ∈ entries, Json.IsList e.2 → Json.IsTexts e.2) {demands : Table (List Json)}
    (hdemands : Demanding demands) (schemas : Members) :
    Demanding (splitDependencies entries demands schemas).1 := by
  induction entries generalizing demands schemas with
  | nil => exact hdemands
  | cons e entries ih =>
    obtain ⟨trigger, j⟩ := e
    have hrest : ∀ e ∈ entries, e.2.IsList → e.2.IsTexts :=
      fun e he => h e (List.mem_cons_of_mem _ he)
    cases j with
    | arr names =>
      obtain ⟨xs, heq, hxs⟩ := h _ List.mem_cons_self ⟨names, rfl⟩
      obtain rfl := Json.arr.inj heq
      exact ih hrest (hdemands.put hxs) schemas
    | _ => exact ih hrest hdemands _

theorem exists_addDemands {entries : Members} (h : ∀ e ∈ entries, e.2.IsTexts)
    {demands : Table (List Json)} (hdemands : Demanding demands) :
    ∃ found, addDemands entries demands = .ok found ∧ Demanding found := by
  induction entries generalizing demands with
  | nil => exact ⟨demands, rfl, hdemands⟩
  | cons e entries ih =>
    obtain ⟨trigger, j⟩ := e
    obtain ⟨names, heq, hnames⟩ := h _ List.mem_cons_self
    obtain rfl : j = .arr names := heq
    exact ih (fun e he => h e (List.mem_cons_of_mem _ he)) (hdemands.put hnames)

/-- The keywords are read one by one. All others than these can always be read. -/
theorem exists_ofMembers_of_parts (hdependencies : ∃ read, dependenciesOf ms = .ok read)
    (htypes : ∃ types, typesOf ms = .ok types) (hrequired : ∃ names, requiredOf ms = .ok names)
    (hlists : ∀ name ∈ Table.listKeywords, Table.Holds ms name Json.IsList) :
    ∃ n, ofMembers ms = .ok n := by
  obtain ⟨read, hread⟩ := hdependencies
  obtain ⟨types, htypes⟩ := htypes
  obtain ⟨required, hrequired⟩ := hrequired
  obtain ⟨enum, henum⟩ := exists_listKeyword (hlists "enum" (by decide))
  obtain ⟨allOf, hall⟩ := exists_listKeyword (hlists "allOf" (by decide))
  obtain ⟨anyOf, hany⟩ := exists_listKeyword (hlists "anyOf" (by decide))
  obtain ⟨oneOf, hone⟩ := exists_listKeyword (hlists "oneOf" (by decide))
  unfold ofMembers
  simp only [hread, htypes, henum, hrequired, hall, hany, hone, bind, Except.bind, pure,
    Except.pure]
  exact ⟨_, rfl⟩

section

variable [Host]

theorem exists_dependenciesOf (h : Table.Shaped ms) :
    ∃ demands schemas, dependenciesOf ms = .ok (demands, schemas) ∧ Demanding demands := by
  obtain ⟨mixed, hmixed, htexts⟩ := exists_optionalMembers h.dependencies
  obtain ⟨entries, hentries, hnames⟩ := exists_optionalMembers h.dependentRequired
  obtain ⟨more, hmore, -⟩ := exists_optionalMembers h.dependentSchemas
  have hnone : Demanding [] := nofun
  have hsplit := demanding_splitDependencies htexts hnone []
  obtain ⟨found, hfound, hdemanding⟩ := exists_addDemands hnames hsplit
  have hread : dependenciesOf ms = .ok (found,
      more.foldl (fun t m => Table.put t m.1 m.2) (splitDependencies mixed [] []).2) := by
    simp only [dependenciesOf, hmixed, hentries, hmore, hfound, bind, Except.bind, pure,
      Except.pure]
  exact ⟨found, _, hread, hdemanding⟩

/-- Keywords of the right shapes can be read. -/
theorem exists_ofMembers (h : Table.Shaped ms) : ∃ n, ofMembers ms = .ok n := by
  obtain ⟨demands, schemas, hfound, -⟩ := exists_dependenciesOf h
  obtain ⟨types, htypes, -⟩ := exists_typesOf h
  obtain ⟨names, hnames, -⟩ := exists_requiredOf h
  exact exists_ofMembers_of_parts ⟨_, hfound⟩ ⟨types, htypes⟩ ⟨names, hnames⟩ h.lists

/-- What is read of keywords of the right shapes is fit for the rules. -/
theorem sound_of_ofMembers (h : Table.Shaped ms) {n : Node} (hn : ofMembers ms = .ok n) :
    n.Sound := by
  have hread := readFrom_of_ofMembers hn
  have hbound : ∀ name ∈ Table.boundKeywords, IsBound (Table.keyword ms name) := h.bounds
  exact {
    types := by
      obtain ⟨types, htypes, hshape⟩ := exists_typesOf h
      obtain rfl : types = n.types := Except.ok.inj (htypes.symm.trans hread.types)
      exact hshape
    string := by
      rw [hread.string]
      exact ⟨hbound "minLength" (by decide), hbound "maxLength" (by decide), h.pattern,
        h.texts "format" (by decide)⟩
    number := by
      rw [hread.number]
      exact ⟨hbound "minimum" (by decide), hbound "maximum" (by decide), h.multipleOf⟩
    minItems := by
      rw [hread.array]
      exact hbound "minItems" (by decide)
    maxItems := by
      rw [hread.array]
      exact hbound "maxItems" (by decide)
    minProperties := by
      rw [hread.minProperties]
      exact hbound "minProperties" (by decide)
    maxProperties := by
      rw [hread.maxProperties]
      exact hbound "maxProperties" (by decide)
    demanded := by
      obtain ⟨required, hrequired, hnames⟩ := exists_requiredOf h
      obtain rfl : required = n.object.required :=
        Except.ok.inj (hrequired.symm.trans hread.required)
      obtain ⟨demands, schemas, hfound, hdemanding⟩ := exists_dependenciesOf h
      have hpair := Except.ok.inj (hfound.symm.trans hread.dependencies)
      obtain ⟨rfl, rfl⟩ := Prod.mk.inj hpair
      intro name hname
      obtain hname | hname := List.mem_append.mp hname
      · exact hnames name hname
      · obtain ⟨e, he, hname⟩ := List.mem_flatMap.mp hname
        exact hdemanding e he name hname
    patterns := by
      rw [hread.patternProperties]
      unfold schemasOf
      split
      · next entries hentries =>
        have hkeyword : Table.keyword ms "patternProperties" = some (.obj entries) := by
          rw [Table.keyword, hentries]
        obtain ⟨es, heq, hes⟩ := h.patternProperties _ hkeyword
        obtain rfl := Json.obj.inj heq
        exact hes
      · exact nofun }

end

end Node

end Conform
