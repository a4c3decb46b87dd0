import Conform.Proofs.Dependencies
import Conform.Proofs.WellFormed
import Conform.Validator

/-!
# Conform.Proofs.CheckedSchemas

Documents that the schema of schemas admits, and whether their keywords can be read. The schema of
schemas is the host's; what counts of it are the kinds that draft 7 gives to keywords (`Draft7`).
Two grammars meet here, for draft 7 knows nothing of the last two keywords:

```
type, enum, required, allOf, anyOf, oneOf, dependencies    of a kind that can be read
dependentRequired, dependentSchemas                        of any kind
```

A schema inside an admitted schema is admitted too, unless it is an entry of `dependentSchemas`. So
on all schemas that evaluation comes to without a reference and without such entries, reading can
fail only for the two keywords that nobody checked (`reading_of_checked`).
-/

namespace Conform

/-! ## The schema of schemas -/

/-- A list of values that have something in common. -/
def Json.IsListOf (P : Json → Prop) (j : Json) : Prop := ∃ xs, j = .arr xs ∧ ∀ x ∈ xs, P x

/-- The keywords that hold one schema. -/
def Table.schemaKeywords : List String :=
  ["additionalItems", "contains", "additionalProperties", "propertyNames", "not", "if", "then",
    "else"]

/-- The keywords that hold a list of schemas. -/
def Table.schemaListKeywords : List String := ["allOf", "anyOf", "oneOf"]

/-- The keywords that hold schemas by name. -/
def Table.schemaTableKeywords : List String := ["properties", "patternProperties"]

/-- An entry of the keyword for schemas that nobody checks. -/
def IsUnchecked (ms : Members) (s : Json) : Prop :=
  ∃ es k, ms.lookup "dependentSchemas" = some (.obj es) ∧ (k, s) ∈ es

section

variable [Host]

/-- The schema of schemas admits a document. -/
def Admitted (j : Json) : Prop := Host.checkSchema j = .ok ()

/-- The kinds that the schema of schemas of draft 7 gives to a schema and to its keywords. -/
structure Draft7 : Prop where
  schema {j : Json} : Admitted j → (∃ b, j = .bool b) ∨ ∃ ms, j = .obj ms
  schemas {ms : Members} {j : Json} : Admitted (.obj ms) →
    ∀ name ∈ Table.schemaKeywords, ms.lookup name = some j → Admitted j
  schemaLists {ms : Members} {j : Json} : Admitted (.obj ms) →
    ∀ name ∈ Table.schemaListKeywords, ms.lookup name = some j → j.IsListOf Admitted
  schemaTables {ms : Members} {j : Json} : Admitted (.obj ms) →
    ∀ name ∈ Table.schemaTableKeywords, ms.lookup name = some j → j.IsTable fun _ s => Admitted s
  items {ms : Members} {j : Json} : Admitted (.obj ms) →
    ms.lookup "items" = some j → Admitted j ∨ j.IsListOf Admitted
  dependencies {ms : Members} {j : Json} : Admitted (.obj ms) →
    ms.lookup "dependencies" = some j → j.IsTable fun _ s => Admitted s ∨ s.IsTexts
  type {ms : Members} {j : Json} : Admitted (.obj ms) →
    ms.lookup "type" = some j → j.IsText ∨ j.IsTexts
  enum {ms : Members} {j : Json} : Admitted (.obj ms) → ms.lookup "enum" = some j → j.IsList
  required {ms : Members} {j : Json} : Admitted (.obj ms) →
    ms.lookup "required" = some j → j.IsTexts

namespace Draft7

variable {ms : Members} {s : Json}

/-! ## Schemas inside an admitted schema -/

/-- The schema of a keyword that holds one. -/
theorem admitted_of_keyword (gate : Draft7) (h : Admitted (.obj ms)) {name : String}
    (hname : name ∈ Table.schemaKeywords) (hs : s ∈ (Table.keyword ms name).toList) :
    Admitted s :=
  gate.schemas h name hname (Node.lookup_of_keyword (Option.mem_toList.mp hs))

/-- The schemas of a keyword that holds a list of them. -/
theorem admitted_of_listKeyword (gate : Draft7) (h : Admitted (.obj ms)) {name : String}
    (hname : name ∈ Table.schemaListKeywords) {list : Option (List Json)}
    (hlist : Node.listKeyword ms name = .ok list) (hs : s ∈ list.getD []) : Admitted s := by
  unfold Node.listKeyword at hlist
  split at hlist
  · cases hlist
    cases hs
  · next j hj =>
    obtain ⟨xs, rfl, hxs⟩ := gate.schemaLists h name hname (Node.lookup_of_keyword hj)
    cases hlist
    exact hxs s hs

/-- The schemas of a keyword that holds them by name. -/
theorem admitted_of_schemasOf (gate : Draft7) (h : Admitted (.obj ms)) {name : String}
    (hname : name ∈ Table.schemaTableKeywords)
    (hs : s ∈ (Node.schemasOf ms name).map Prod.snd) : Admitted s := by
  obtain ⟨e, he, rfl⟩ := List.mem_map.mp hs
  unfold Node.schemasOf at he
  split at he
  · next entries found =>
    obtain ⟨es, heq, hes⟩ := gate.schemaTables h name hname found
    cases heq
    exact hes e he
  · cases he

/-- The schemas that members depend on. -/
theorem admitted_of_dependenciesOf (gate : Draft7) (h : Admitted (.obj ms))
    {demands : Table (List Json)} {schemas : Members}
    (hread : Node.dependenciesOf ms = .ok (demands, schemas)) {e : String × Json}
    (he : e ∈ schemas) (hs : ¬ IsUnchecked ms e.2) : Admitted e.2 := by
  obtain ⟨es, hes, he⟩ | ⟨es, hes, he, hlist⟩ := Node.mem_of_dependenciesOf hread he
  · exact absurd ⟨es, e.1, hes, he⟩ hs
  · obtain ⟨es', heq, hentries⟩ := gate.dependencies h hes
    cases heq
    cases hentries e he with
    | inl hschema => exact hschema
    | inr htexts =>
      obtain ⟨xs, hxs, -⟩ := htexts
      exact absurd hxs (hlist xs)

/-- The schemas of items, one for all or one for each. -/
theorem admitted_of_itemSchemas (gate : Draft7) (h : Admitted (.obj ms))
    (hs : s ∈ (Node.arrayOf ms).itemSchemas) : Admitted s := by
  unfold ArrayKeywords.itemSchemas at hs
  split at hs
  · cases hs
  · next schemas hitems =>
    obtain hone | ⟨xs, heq, hxs⟩ := gate.items h (Node.lookup_of_keyword hitems)
    · obtain ⟨b, hb⟩ | ⟨es, hes⟩ := gate.schema hone
      · cases hb
      · cases hes
    · cases heq
      exact hxs s hs
  · next schema hone hitems =>
    rw [List.mem_singleton.mp hs]
    obtain hschema | ⟨xs, heq, -⟩ := gate.items h (Node.lookup_of_keyword hitems)
    · exact hschema
    · exact absurd heq (hone xs)

/-- What evaluation meets from an admitted schema is admitted, but for entries of the keyword that
nobody checks. -/
theorem admitted_of_mem (gate : Draft7) {n : Node} (h : Admitted (.obj ms))
    (hn : Node.ofMembers ms = .ok n) (hs : s ∈ n.again ∨ s ∈ n.into)
    (hchecked : ¬ IsUnchecked ms s) : Admitted s := by
  have hread := Node.readFrom_of_ofMembers hn
  cases hs with
  | inl hs =>
    simp only [Node.again, List.mem_append] at hs
    rcases hs with ((((((hs | hs) | hs) | hs) | hs) | hs) | hs) | hs
    · obtain ⟨e, he, rfl⟩ := List.mem_map.mp hs
      exact gate.admitted_of_dependenciesOf h hread.dependencies he hchecked
    · exact gate.admitted_of_listKeyword h (by decide) hread.allOf hs
    · exact gate.admitted_of_listKeyword h (by decide) hread.anyOf hs
    · exact gate.admitted_of_listKeyword h (by decide) hread.oneOf hs
    · exact gate.admitted_of_keyword h (by decide) (hread.not ▸ hs)
    · rw [hread.conditional] at hs
      exact gate.admitted_of_keyword h (by decide) hs
    · rw [hread.conditional] at hs
      exact gate.admitted_of_keyword h (by decide) hs
    · rw [hread.conditional] at hs
      exact gate.admitted_of_keyword h (by decide) hs
  | inr hs =>
    simp only [Node.into, List.mem_append] at hs
    rw [hread.array, hread.properties, hread.patternProperties, hread.additionalProperties,
      hread.propertyNames] at hs
    rcases hs with (((((hs | hs) | hs) | hs) | hs) | hs) | hs
    · exact gate.admitted_of_itemSchemas h hs
    · exact gate.admitted_of_keyword h (by decide) hs
    · exact gate.admitted_of_keyword h (by decide) hs
    · exact gate.admitted_of_schemasOf h (by decide) hs
    · exact gate.admitted_of_schemasOf h (by decide) hs
    · exact gate.admitted_of_keyword h (by decide) hs
    · exact gate.admitted_of_keyword h (by decide) hs

end Draft7

/-! ## Keywords that can be read -/

/-- The keywords that nobody checks can be read: demands of names by member, and schemas by
member. -/
structure UncheckedReadable (ms : Members) : Prop where
  dependentRequired : ∃ es, ((ms.lookup "dependentRequired").getD .null).optionalMembers = .ok es ∧
    ∀ e ∈ es, ∃ names, e.2.elements = .ok names
  dependentSchemas : ∃ es, ((ms.lookup "dependentSchemas").getD .null).optionalMembers = .ok es

namespace Draft7

variable {ms : Members}

theorem exists_dependenciesOf_iff (gate : Draft7) (h : Admitted (.obj ms)) :
    (∃ read, Node.dependenciesOf ms = .ok read) ↔ UncheckedReadable ms := by
  constructor
  · rintro ⟨⟨demands, schemas⟩, hread⟩
    obtain ⟨mixed, entries, more, -, hentries, hmore, hdemands, -⟩ :=
      Node.exists_of_dependenciesOf hread
    exact ⟨⟨entries, hentries, (Node.exists_addDemands_iff _).mp ⟨demands, hdemands⟩⟩, more, hmore⟩
  · rintro ⟨⟨entries, hentries, hnames⟩, more, hmore⟩
    obtain ⟨mixed, hmixed⟩ :
        ∃ es, ((ms.lookup "dependencies").getD .null).optionalMembers = .ok es := by
      cases hj : ms.lookup "dependencies" with
      | none => exact ⟨[], rfl⟩
      | some j =>
        obtain ⟨es, rfl, -⟩ := gate.dependencies h hj
        exact ⟨es, Json.optionalMembers_obj es⟩
    obtain ⟨demands, hdemands⟩ :=
      (Node.exists_addDemands_iff (Node.splitDependencies mixed [] []).1).mpr hnames
    simp only [Node.dependenciesOf, hmixed, hentries, hdemands, hmore, bind, Except.bind, pure,
      Except.pure]
    exact ⟨_, rfl⟩

theorem exists_typesOf (gate : Draft7) (h : Admitted (.obj ms)) :
    ∃ types, Node.typesOf ms = .ok types := by
  unfold Node.typesOf
  cases hj : Table.keyword ms "type" with
  | none => exact ⟨none, rfl⟩
  | some j =>
    obtain ⟨name, rfl⟩ | ⟨xs, rfl, -⟩ := gate.type h (Node.lookup_of_keyword hj)
    · exact ⟨some [.str name], rfl⟩
    · exact ⟨some xs, rfl⟩

theorem exists_requiredOf (gate : Draft7) (h : Admitted (.obj ms)) :
    ∃ names, Node.requiredOf ms = .ok names := by
  unfold Node.requiredOf
  cases hj : ms.lookup "required" with
  | none => exact ⟨[], rfl⟩
  | some j =>
    obtain ⟨xs, rfl, -⟩ := gate.required h hj
    dsimp only
    split
    · exact ⟨[], rfl⟩
    · exact ⟨xs, rfl⟩

theorem holds_list (gate : Draft7) (h : Admitted (.obj ms)) {name : String}
    (hname : name ∈ Table.listKeywords) : Table.Holds ms name Json.IsList := by
  intro j hj
  have hlookup := Node.lookup_of_keyword hj
  cases hname with
  | head => exact gate.enum h hlookup
  | tail _ hname =>
    obtain ⟨xs, rfl, -⟩ := gate.schemaLists h name hname hlookup
    exact ⟨xs, rfl⟩

/-- Whether the keywords of an admitted schema can be read is up to the keywords that nobody
checks. -/
theorem exists_ofMembers_iff (gate : Draft7) (h : Admitted (.obj ms)) :
    (∃ n, Node.ofMembers ms = .ok n) ↔ UncheckedReadable ms := by
  rw [← gate.exists_dependenciesOf_iff h]
  constructor
  · rintro ⟨n, hn⟩
    exact ⟨_, (Node.readFrom_of_ofMembers hn).dependencies⟩
  · intro hread
    exact Node.exists_ofMembers_of_parts hread (gate.exists_typesOf h) (gate.exists_requiredOf h)
      fun _ hname => gate.holds_list h hname

end Draft7

/-! ## Documents -/

/-- The schemas that evaluation can come to from a document without following a reference. An entry
of the keyword that nobody checks counts if it could stand alone. -/
inductive Visited (document : Json) : Json → Prop where
  | start : Visited document document
  | inside {ms : Members} {n : Node} {s : Json} (h : Visited document (.obj ms))
      (hread : (Json.obj ms).ReadsAs n) (hs : s ∈ n.again ∨ s ∈ n.into)
      (hchecked : IsUnchecked ms s → Admitted s) : Visited document s

/-- All of them are admitted if the document is. -/
theorem Visited.admitted (gate : Draft7) {document s : Json} (hs : Visited document s)
    (h : Admitted document) : Admitted s := by
  induction hs with
  | start => exact h
  | @inside ms n s _ hread hmem hchecked ih =>
    by_cases hunchecked : IsUnchecked ms s
    · exact hchecked hunchecked
    · cases hread with
      | keywords _ hn => exact gate.admitted_of_mem ih hn hmem hunchecked

namespace Validator

/-- A validator that is held to the schema of schemas exists where that admits the document. -/
theorem create_eq_ok_iff {document : Json} {formats : Formats} :
    create document formats true = .ok ⟨document, formats⟩ ↔ Admitted document := by
  rw [create, if_pos rfl, Admitted]
  cases Host.checkSchema document with
  | error f => simp [bind, Except.bind]
  | ok u => simp [bind, Except.bind, pure, Except.pure]

/-- Take a document that is held against the schema of schemas and accepted, and a schema that
evaluation can come to without following a reference, and without an entry of `dependentSchemas`
that would be refused by itself. This schema would be accepted too. It is a boolean or an object,
and the keywords of the object can be read exactly if those that draft 7 does not know can be:
`dependentRequired` holds lists of names by member, if anything, and `dependentSchemas` holds
something by member. -/
theorem reading_of_checked (gate : Draft7) {document s : Json} {formats : Formats} {v : Validator}
    (h : create document formats true = .ok v) (hs : Visited document s) :
    Admitted s ∧
      ((∃ b, s = .bool b) ∨
        ∃ ms, s = .obj ms ∧ ((∃ n, Node.ofMembers ms = .ok n) ↔ UncheckedReadable ms)) := by
  have hdocument : Admitted document := by
    obtain ⟨_, hadmitted, -⟩ := bind_eq_ok h
    exact hadmitted
  have hadmitted := hs.admitted gate hdocument
  refine ⟨hadmitted, ?_⟩
  obtain ⟨b, rfl⟩ | ⟨ms, rfl⟩ := gate.schema hadmitted
  · exact .inl ⟨b, rfl⟩
  · exact .inr ⟨ms, rfl, gate.exists_ofMembers_iff hadmitted⟩

end Validator

end

/-! ## Examples -/

namespace Payments

/-- A schema of texts. -/
def texts : Members := [("type", .str "string")]

/-- A schema that asks for two members. -/
def twoAsked : Members := [("minProperties", .num (.int 2))]

/-- Payments: a card asks for a billing address, and by a schema for two members. -/
def payments : Members :=
  [("type", .str "object"), ("properties", .obj [("card", .obj texts)]),
    ("dependentRequired", .obj [("card", .arr [.str "billing"])]),
    ("dependentSchemas", .obj [("card", .obj twoAsked)])]

/-- A text, with names where demands by member are wanted. -/
def looseDemands : Members :=
  [("type", .str "string"), ("dependentRequired", .arr [.str "card"])]

/-- A schema that is asked for beside a card, with a type that is none. -/
def looseEntry : Members :=
  [("dependentSchemas", .obj [("card", .obj [("type", .num (.int 5))])])]

/-- The documents that the host of the examples admits. -/
def admitted : List Members := [texts, twoAsked, payments, looseDemands, looseEntry]

/-- A host that knows them by heart. -/
scoped instance host : Host := .listed 900 [] [] (admitted.map .obj)

variable {ms : Members} {j : Json}

theorem admitted_iff : Admitted j ↔ ∃ ms ∈ admitted, j = .obj ms := by
  have hmem : Admitted j ↔ j ∈ admitted.map Json.obj := by
    simp only [Admitted, Host.checkSchema]
    split <;> simp_all
  rw [hmem, List.mem_map]
  simp only [eq_comm]

theorem mem_of_admitted (h : Admitted (.obj ms)) : ms ∈ admitted := by
  obtain ⟨ms', hms', heq⟩ := admitted_iff.mp h
  exact Json.obj.inj heq ▸ hms'

/-- The keywords of draft 7 that none of the documents declares. -/
def undeclared : List String :=
  Table.schemaKeywords ++ Table.schemaListKeywords ++
    ["patternProperties", "items", "dependencies", "enum", "required"]

theorem not_mem_undeclared (h : Admitted (.obj ms)) {name : String}
    (hj : ms.lookup name = some j) : name ∉ undeclared := by
  have hnone : ∀ ms ∈ admitted, ∀ name ∈ undeclared, ms.lookup name = none := by decide
  intro hname
  rw [hnone ms (mem_of_admitted h) name hname] at hj
  cases hj

theorem isText_of_type (h : Admitted (.obj ms)) (hj : ms.lookup "type" = some j) : j.IsText := by
  have htypes : ∀ ms ∈ admitted, ∀ j ∈ ms.lookup "type", j = .str "string" ∨ j = .str "object" := by
    decide
  obtain rfl | rfl := htypes ms (mem_of_admitted h) j hj
  · exact ⟨"string", rfl⟩
  · exact ⟨"object", rfl⟩

theorem isTable_of_properties (h : Admitted (.obj ms)) (hj : ms.lookup "properties" = some j) :
    j.IsTable fun _ s => Admitted s := by
  have hproperties : ∀ ms ∈ admitted, ∀ j ∈ ms.lookup "properties",
      j = .obj [("card", .obj texts)] := by
    decide
  obtain rfl := hproperties ms (mem_of_admitted h) j hj
  refine ⟨_, rfl, fun e he => ?_⟩
  rw [List.mem_singleton.mp he]
  exact admitted_iff.mpr ⟨texts, by decide, rfl⟩

/-- What the host admits is of the kinds of draft 7. -/
theorem draft7 : Draft7 where
  schema h := by
    obtain ⟨ms, -, rfl⟩ := admitted_iff.mp h
    exact .inr ⟨ms, rfl⟩
  schemas h name hname hj := absurd (by simp [undeclared, hname]) (not_mem_undeclared h hj)
  schemaLists h name hname hj := absurd (by simp [undeclared, hname]) (not_mem_undeclared h hj)
  schemaTables h name hname hj := by
    simp only [Table.schemaTableKeywords, List.mem_cons, List.not_mem_nil, or_false] at hname
    obtain rfl | rfl := hname
    · exact isTable_of_properties h hj
    · exact absurd (by simp [undeclared]) (not_mem_undeclared h hj)
  items h hj := absurd (by simp [undeclared]) (not_mem_undeclared h hj)
  dependencies h hj := absurd (by simp [undeclared]) (not_mem_undeclared h hj)
  type h hj := .inl (isText_of_type h hj)
  enum h hj := absurd (by simp [undeclared]) (not_mem_undeclared h hj)
  required h hj := absurd (by simp [undeclared]) (not_mem_undeclared h hj)

end Payments

namespace Validator

open Payments

/-- Payments are accepted, and what a card asks for by a schema can be read. -/
theorem payments_readable :
    Draft7 ∧ create (.obj payments) [] true = .ok ⟨.obj payments, []⟩ ∧
    Visited (.obj payments) (.obj twoAsked) ∧ ∃ n, Node.ofMembers twoAsked = .ok n := by
  have hcreated : create (.obj payments) [] true = .ok ⟨.obj payments, []⟩ :=
    create_eq_ok_iff.mpr (admitted_iff.mpr ⟨payments, by decide, rfl⟩)
  obtain ⟨n, hn⟩ : ∃ n, Node.ofMembers payments = .ok n := ⟨_, by rfl⟩
  have hmem : .obj twoAsked ∈ n.again := by
    cases hn
    decide
  have hentry : Admitted (.obj twoAsked) := admitted_iff.mpr ⟨twoAsked, by decide, rfl⟩
  have hvisited : Visited (.obj payments) (.obj twoAsked) :=
    .inside .start (.keywords rfl hn) (.inl hmem) fun _ => hentry
  obtain ⟨-, ⟨b, hb⟩ | ⟨ms, hms, hread⟩⟩ := reading_of_checked draft7 hcreated hvisited
  · cases hb
  · cases hms
    have hunchecked : UncheckedReadable twoAsked :=
      ⟨⟨[], by rfl, List.forall_mem_nil _⟩, [], by rfl⟩
    exact ⟨draft7, hcreated, hvisited, hread.mpr hunchecked⟩

/-- Either document is accepted. The keywords of the first cannot be read, and of the second not
those of a schema that evaluation comes to. -/
theorem unchecked_unreadable :
    Draft7 ∧ create (.obj looseDemands) [] true = .ok ⟨.obj looseDemands, []⟩ ∧
    Node.ofMembers looseDemands = .error .noMembers ∧
    create (.obj looseEntry) [] true = .ok ⟨.obj looseEntry, []⟩ ∧
    (∃ n, (Json.obj looseEntry).ReadsAs n ∧ .obj [("type", .num (.int 5))] ∈ n.again) ∧
    Node.ofMembers [("type", .num (.int 5))] = .error .wrongKind := by
  have hdemands : Admitted (.obj looseDemands) := admitted_iff.mpr ⟨_, by decide, rfl⟩
  have hentry : Admitted (.obj looseEntry) := admitted_iff.mpr ⟨_, by decide, rfl⟩
  exact ⟨draft7, create_eq_ok_iff.mpr hdemands, by rfl, create_eq_ok_iff.mpr hentry,
    ⟨_, .keywords rfl (by rfl), by decide⟩, by rfl⟩

end Validator

end Conform
