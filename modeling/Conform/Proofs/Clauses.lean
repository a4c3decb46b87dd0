import Conform.Evaluation

/-!
# Conform.Proofs.Clauses

What a schema means, apart from how it is read and evaluated: which values it admits, clause by
clause, given which values the schemas inside it admit. The clauses speak of what the schema
declares, each keyword and each spelling by itself. Nothing here has an order, a place or a chain
of references, and nothing can be stopped. `Conform.Proofs.Meaning` shows that evaluation decides
these clauses.

```
true          every value
a reference   what its target admits
keywords      null      by a declared type, or where none is declared by its value
              others    of a declared type, and by their value or by every clause
by value      what equals the constant, or without one what is among the list
```

One clause is open. What the entries of `dependencies` ask for may be asked for by all of them, or
by those only that stand beside the two newer spellings of the keyword (`Counting`).
-/

namespace Conform

/-! ## What a schema declares -/

/-- A schema declares a value of a keyword. A null declares nothing. -/
def Declares (ms : Members) (keyword : String) (j : Json) : Prop :=
  ms.lookup keyword = some j ∧ j ≠ .null

/-- A schema declares a list by a keyword, or what is read as one. -/
def DeclaresList (ms : Members) (keyword : String) (xs : List Json) : Prop :=
  ∃ j, Declares ms keyword j ∧ j.elements = .ok xs

/-- A schema declares a constant, which may be null. -/
def DeclaresConst (ms : Members) (c : Json) : Prop := ms.lookup "const" = some c ∧ c ≠ .absent

/-- A schema declares a type, by itself or among others. -/
def DeclaresType (ms : Members) (t : Json) : Prop :=
  ∃ j, Declares ms "type" j ∧
    ((∃ name, j = .str name ∧ t = .str name) ∨
      ((∀ name, j ≠ .str name) ∧ ∃ types, j.elements = .ok types ∧ t ∈ types))

/-- A declared limit is not broken. -/
def KeepsLimit (ms : Members) (keyword : String) (breaks : Number → Bool) : Prop :=
  ∀ j m, Declares ms keyword j → j.numeric? = some m → breaks m = false

/-! ## Clauses of one kind of value -/

/-- What the keywords for strings ask of a string. Content is looked at where its encoding is
kept. -/
structure StringClauses [Host] (ms : Members) (formats : Formats) (s : String) : Prop where
  minLength : KeepsLimit ms "minLength" fun m => (Number.int s.length).lt m
  maxLength : KeepsLimit ms "maxLength" fun m => m.lt (.int s.length)
  pattern (p : Json) (h : Declares ms "pattern" p) (nonempty : p.isFalsy = false) :
    ∃ text, p = .str text ∧ Pattern.occursIn text s = .ok true
  format (name : Json) (h : Declares ms "format" name) (nonempty : name.isFalsy = false) :
    Format.check formats (.str s) name = .ok true
  encoding (h : Declares ms "contentEncoding" (.str "base64")) : Base64.isEncoded s.toList = true
  plainContent (h : Declares ms "contentMediaType" (.str "application/json"))
    (plain : ¬ Declares ms "contentEncoding" (.str "base64")) : ∃ j, Json.ofText? s = some j
  encodedContent (h : Declares ms "contentMediaType" (.str "application/json"))
    (encoded : Declares ms "contentEncoding" (.str "base64"))
    (kept : Base64.isEncoded s.toList = true) :
    ∃ cs j, Utf8.decode? (Base64.decode s.toList) = some cs ∧ Json.ofChars? cs = some j

/-- What the keywords for numbers ask of a number. An exclusive bound is a number of its own, or
the mark that the plain bound is one. -/
structure NumberClauses (ms : Members) (n : Number) : Prop where
  minimum : KeepsLimit ms "minimum" fun m => n.lt m
  maximum : KeepsLimit ms "maximum" fun m => m.lt n
  exclusiveMinimum (m : Number) (h : Declares ms "exclusiveMinimum" (.num m)) : n.le m = false
  exclusiveMaximum (m : Number) (h : Declares ms "exclusiveMaximum" (.num m)) : m.le n = false
  markedMinimum (h : Declares ms "exclusiveMinimum" (.bool true)) :
    KeepsLimit ms "minimum" fun m => n.le m
  markedMaximum (h : Declares ms "exclusiveMaximum" (.bool true)) :
    KeepsLimit ms "maximum" fun m => m.le n
  multipleOf (d : Json) (h : Declares ms "multipleOf" d) :
    ∃ m, d.numeric? = some m ∧ n.isMultiple m = .ok true

section

variable (ms : Members) (acc : Json → Json → Prop)

/-- What an additional item has to be: `false` admits none, and what is no object all. -/
def AdditionalItem (x : Json) : Prop :=
  ¬ Declares ms "additionalItems" (.bool false) ∧
    ∀ es, Declares ms "additionalItems" (.obj es) → acc x (.obj es)

/-- What the keywords for arrays ask of an array. An item of a position with a schema of its own is
no additional item. -/
structure ArrayClauses (xs : List Json) : Prop where
  minItems : KeepsLimit ms "minItems" fun m => (Number.int xs.length).lt m
  maxItems : KeepsLimit ms "maxItems" fun m => m.lt (.int xs.length)
  uniqueItems (mark : Json) (h : Declares ms "uniqueItems" mark) (marked : mark.isTruthy = true) :
    xs.Pairwise fun x y => x.equals y = false
  uniform (schema : Json) (h : Declares ms "items" schema) (single : ∀ ss, schema ≠ .arr ss) :
    ∀ x ∈ xs, acc x schema
  positional (schemas : List Json) (h : Declares ms "items" (.arr schemas)) :
    ∀ (i : Nat) (x schema : Json), xs[i]? = some x → schemas[i]? = some schema → acc x schema
  additional (schemas : List Json) (h : Declares ms "items" (.arr schemas)) :
    ∀ (i : Nat) (x : Json), xs[i]? = some x → schemas.length ≤ i → AdditionalItem ms acc x
  contains (wanted : Json) (h : Declares ms "contains" wanted) : ∃ x ∈ xs, acc x wanted

end

/-- An object has a member of a name. -/
def HasName (members : Members) (name : Json) : Prop :=
  ∃ s, name = .str s ∧ Table.has members s = true

/-- A name that no schema by name or by pattern is meant for. -/
structure IsAdditional [Host] (ms : Members) (name : String) : Prop where
  unnamed (schemas : Members) (h : Declares ms "properties" (.obj schemas)) :
    Table.has schemas name = false
  unmatched (schemas : Members) (h : Declares ms "patternProperties" (.obj schemas)) :
    ∀ pattern schema, (pattern, schema) ∈ schemas → Pattern.occursIn pattern name ≠ .ok true

/-- What an entry of `dependencies` asks of an object that has its trigger: names, or to be
admitted by a schema. -/
def AsksFor (acc : Json → Json → Prop) (members : Members) : Json → Prop
  | .arr names => ∀ name ∈ names, HasName members name
  | schema => acc (.obj members) schema

/-- Which entries of `dependencies`, a trigger and what it asks for, count in a schema. -/
abbrev Counting := Members → String → Json → Prop

/-- All entries count. -/
def Counting.all : Counting := fun _ _ _ => True

/-- A keyword that holds an object has an entry for a trigger. -/
def HasEntry (ms : Members) (keyword trigger : String) : Prop :=
  ∃ entries, Declares ms keyword (.obj entries) ∧ Table.has entries trigger = true

/-- The newer spelling for the kind of an entry of `dependencies` has an entry for its trigger
too. -/
def NamedAgain (ms : Members) (trigger : String) : Json → Prop
  | .arr _ => HasEntry ms "dependentRequired" trigger
  | _ => HasEntry ms "dependentSchemas" trigger

/-- The entries count whose trigger is not named again. -/
def Counting.standing : Counting := fun ms trigger j => ¬ NamedAgain ms trigger j

/-- The newer spellings name no trigger of `dependencies` again. -/
def NamesNoneAgain (schema : Json) : Prop :=
  ∀ ms entries, schema = .obj ms → Declares ms "dependencies" (.obj entries) →
    ∀ trigger j, (trigger, j) ∈ entries → ¬ NamedAgain ms trigger j

/-- One way of counting leaves nothing of a schema out that another one takes in. -/
def Counting.Covers (counts counts' : Counting) (schema : Json) : Prop :=
  ∀ ms entries, schema = .obj ms → Declares ms "dependencies" (.obj entries) →
    ∀ trigger j, (trigger, j) ∈ entries → counts' ms trigger j → counts ms trigger j

/-- What the keywords for objects ask of an object. One member may be meant by a schema of its name
and by several patterns, and is an additional one if by none. -/
structure ObjectClauses [Host] (counts : Counting) (ms : Members) (acc : Json → Json → Prop)
    (members : Members) : Prop where
  minProperties : KeepsLimit ms "minProperties" fun m => (Number.int members.length).lt m
  maxProperties : KeepsLimit ms "maxProperties" fun m => m.lt (.int members.length)
  required (names : List Json) (h : DeclaresList ms "required" names) :
    ∀ name ∈ names, HasName members name
  properties (schemas : Members) (h : Declares ms "properties" (.obj schemas)) :
    ∀ name child, (name, child) ∈ members →
      ∀ schema, schemas.lookup name = some schema → acc child schema
  patternProperties (schemas : Members) (h : Declares ms "patternProperties" (.obj schemas)) :
    ∀ name child, (name, child) ∈ members →
      ∀ pattern schema, (pattern, schema) ∈ schemas →
        Pattern.occursIn pattern name = .ok true → acc child schema
  additionalProperties (schema : Json) (h : Declares ms "additionalProperties" schema) :
    ∀ name child, (name, child) ∈ members → IsAdditional ms name →
      schema = .bool true ∨ (schema ≠ .bool false ∧ acc child schema)
  propertyNames (schema : Json) (h : Declares ms "propertyNames" schema) :
    ∀ name child, (name, child) ∈ members → acc (.str name) schema
  dependencies (entries : Members) (h : Declares ms "dependencies" (.obj entries)) :
    ∀ trigger j, (trigger, j) ∈ entries → counts ms trigger j →
      Table.has members trigger = true → AsksFor acc members j
  dependentRequired (entries : Members) (h : Declares ms "dependentRequired" (.obj entries)) :
    ∀ trigger j names, (trigger, j) ∈ entries → j.elements = .ok names →
      Table.has members trigger = true → ∀ name ∈ names, HasName members name
  dependentSchemas (entries : Members) (h : Declares ms "dependentSchemas" (.obj entries)) :
    ∀ trigger schema, (trigger, schema) ∈ entries →
      Table.has members trigger = true → acc (.obj members) schema

/-! ## Combinations -/

/-- A property of exactly one position of a list. -/
def ExactlyOne {α : Type} (P : α → Prop) (xs : List α) : Prop :=
  ∃ before x behind, xs = before ++ x :: behind ∧ P x ∧
    (∀ y ∈ before, ¬ P y) ∧ ∀ y ∈ behind, ¬ P y

namespace ExactlyOne

variable {α : Type} {P : α → Prop} {x : α} {xs : List α}

theorem not_nil : ¬ ExactlyOne P [] := by
  intro h
  obtain ⟨before, x, behind, heq, -⟩ := h
  simp at heq

/-- Behind the one position there is no other. -/
theorem cons_iff (hx : P x) : ExactlyOne P (x :: xs) ↔ ∀ y ∈ xs, ¬ P y := by
  constructor
  · intro h
    obtain ⟨before, y, behind, heq, -, hbefore, hbehind⟩ := h
    cases before with
    | nil =>
      obtain ⟨-, rfl⟩ := List.cons.inj heq
      exact hbehind
    | cons z before =>
      obtain ⟨rfl, -⟩ := List.cons.inj heq
      exact absurd hx (hbefore _ List.mem_cons_self)
  · intro h
    exact ⟨[], x, xs, rfl, hx, nofun, h⟩

/-- A position that is not the one may be left out. -/
theorem cons_iff_of_not (hx : ¬ P x) : ExactlyOne P (x :: xs) ↔ ExactlyOne P xs := by
  constructor
  · intro h
    obtain ⟨before, y, behind, heq, hy, hbefore, hbehind⟩ := h
    cases before with
    | nil =>
      obtain ⟨rfl, -⟩ := List.cons.inj heq
      exact absurd hy hx
    | cons z before =>
      obtain ⟨-, rfl⟩ := List.cons.inj heq
      exact ⟨before, y, behind, rfl, hy, fun w hw => hbefore w (List.mem_cons_of_mem _ hw), hbehind⟩
  · intro h
    obtain ⟨before, y, behind, rfl, hy, hbefore, hbehind⟩ := h
    exact ⟨x :: before, y, behind, rfl, hy, List.forall_mem_cons.mpr ⟨hx, hbefore⟩, hbehind⟩

end ExactlyOne

/-- What combinations of schemas ask of a value. -/
structure CompositionClauses (ms : Members) (acc : Json → Json → Prop) (value : Json) : Prop where
  allOf (schemas : List Json) (h : DeclaresList ms "allOf" schemas) : ∀ s ∈ schemas, acc value s
  anyOf (schemas : List Json) (h : DeclaresList ms "anyOf" schemas) : ∃ s ∈ schemas, acc value s
  oneOf (schemas : List Json) (h : DeclaresList ms "oneOf" schemas) :
    ExactlyOne (acc value) schemas
  not (schema : Json) (h : Declares ms "not" schema) : ¬ acc value schema

/-- What a choice between schemas asks of a value. -/
structure ConditionalClauses (ms : Members) (acc : Json → Json → Prop) (value : Json) : Prop where
  accepted (test schema : Json) (h : Declares ms "if" test) (chosen : Declares ms "then" schema) :
    acc value test → acc value schema
  rejected (test schema : Json) (h : Declares ms "if" test) (chosen : Declares ms "else" schema) :
    ¬ acc value test → acc value schema

/-! ## One schema -/

section

variable [Host] (counts : Counting) (formats : Formats) (acc : Json → Json → Prop)

/-- All clauses for the kind of a value, and all combinations. -/
structure KeywordClauses (ms : Members) (value : Json) : Prop where
  string (s : String) (h : value = .str s) : StringClauses ms formats s
  number (n : Number) (h : value = .num n) : NumberClauses ms n
  array (xs : List Json) (h : value = .arr xs) : ArrayClauses ms acc xs
  object (members : Members) (h : value = .obj members) : ObjectClauses counts ms acc members
  composition : CompositionClauses ms acc value
  conditional : ConditionalClauses ms acc value

/-- The values that a constant, or without one a list of allowed values, admits. -/
def AdmitsByValue (ms : Members) (value : Json) : Prop :=
  (∃ c, DeclaresConst ms c ∧ value.equals c = true) ∨
    ((∀ c, ¬ DeclaresConst ms c) ∧
      ∃ allowed, DeclaresList ms "enum" allowed ∧ ∃ x ∈ allowed, value.equals x = true)

/-- The values of a declared type. Without declared types every value is. -/
def AdmitsByType (ms : Members) (value : Json) : Prop :=
  ∀ j, Declares ms "type" j → ∃ t, DeclaresType ms t ∧ value.hasType t = true

/-- The values that the keywords of a schema admit. For a null no keyword but the types, a constant
and a list of allowed values counts; for any other value those two count instead of the clauses,
if they are declared. -/
def AdmitsByKeywords (ms : Members) (value : Json) : Prop :=
  (value = .null ∧
      (DeclaresType ms (.str "null") ∨
        ((∀ j, ¬ Declares ms "type" j) ∧ AdmitsByValue ms value))) ∨
    (value ≠ .null ∧ AdmitsByType ms value ∧
      (AdmitsByValue ms value ∨
        ((∀ c, ¬ DeclaresConst ms c) ∧ (∀ j, ¬ Declares ms "enum" j) ∧
          KeywordClauses counts formats acc ms value)))

/-- The values that a schema admits, given which values the schemas inside it admit. References
address a document. -/
inductive Admits (document : Option Json) (value : Json) : (schema : Json) → Prop where
  | all : Admits document value (.bool true)
  | reference {ms : Members} {ref root target : Json} (href : Declares ms "$ref" ref)
      (hroot : document = some root) (htarget : Pointer.resolve ref root = .ok target)
      (h : acc value target) : Admits document value (.obj ms)
  | keywords {ms : Members} (href : ∀ ref, ¬ Declares ms "$ref" ref)
      (h : AdmitsByKeywords counts formats acc ms value) : Admits document value (.obj ms)

end

/-! ## Counting less -/

section

variable [Host] {counts counts' : Counting} {ms : Members} {formats : Formats}
  {acc : Json → Json → Prop} {value : Json}

theorem ObjectClauses.of_covers (hcovers : counts.Covers counts' (.obj ms)) {members : Members}
    (h : ObjectClauses counts ms acc members) : ObjectClauses counts' ms acc members where
  minProperties := h.minProperties
  maxProperties := h.maxProperties
  required := h.required
  properties := h.properties
  patternProperties := h.patternProperties
  additionalProperties := h.additionalProperties
  propertyNames := h.propertyNames
  dependencies entries hentries trigger j hj hcounts :=
    h.dependencies entries hentries trigger j hj
      (hcovers ms entries rfl hentries trigger j hj hcounts)
  dependentRequired := h.dependentRequired
  dependentSchemas := h.dependentSchemas

/-- Where fewer entries count, no fewer values are admitted. -/
theorem Admits.of_covers {document : Option Json} {schema : Json}
    (hcovers : counts.Covers counts' schema) (h : Admits counts formats acc document value schema) :
    Admits counts' formats acc document value schema := by
  cases h with
  | all => exact .all
  | reference href hroot htarget h => exact .reference href hroot htarget h
  | keywords href h =>
    refine .keywords href (h.imp_right fun ⟨hnull, htype, h⟩ => ⟨hnull, htype, ?_⟩)
    refine h.imp_right fun ⟨hconst, henum, h⟩ => ⟨hconst, henum, ?_⟩
    exact ⟨h.string, h.number, h.array, fun members hmembers =>
      (h.object members hmembers).of_covers hcovers, h.composition, h.conditional⟩

end

end Conform
