import Conform.Json.Kind
import Conform.Proofs.FieldPlaces

/-!
# Conform.Proofs.FlattenedTypes

Declared types twice: as evaluation asks a value for them, any one being enough, and as a field
keeps them, as base types beside a mark for null and one for integers.

```
declared           evaluation                 field
string, null       a string or null           a string, nullable
integer            a number without a part    a number, integer
integer, string    such a number or a string  a number or a string, integer
integer, number    a number                   a number, integer
```

The mark for integers is set where `integer` is one of the types, so in the last line the field asks
of all numbers what evaluation asks of none. The main statement says that this is the whole
difference: the field admits what evaluation does, if its mark is not minded where `number` is
declared too.
-/

namespace Conform

/-- The names of types. -/
def Json.typeNames : List String :=
  ["null", "boolean", "string", "number", "integer", "array", "object"]

/-! ## What a field admits -/

namespace Typing

/-- Whether a value is null, for a field that may be, or of a base type of the field. -/
def Admits (t : Typing) (v : Json) : Prop :=
  (v = .null ∧ t.nullable = true) ∨
    (v ≠ .null ∧ (ofValue v = t.type ∨ ofValue v ∈ t.alternatives.getD []))

end Typing

/-- Whether a value is no number with a fractional part, where the mark for integers is set. -/
def Constraints.KeepsInteger (c : Constraints) (v : Json) : Prop :=
  c.integer = .bool true → ∀ m, v = .num m → m.isIntegral = true

/-! ## Declared types -/

namespace Node

/-- A type that is one name, or the items of a list of names, is declared. -/
theorem types_of_ofMembers {ms : Members} {n : Node} (hn : ofMembers ms = .ok n)
    {names : List String}
    (htype : Table.keyword ms "type" = some (.arr (names.map .str)) ∨
      ∃ name, names = [name] ∧ Table.keyword ms "type" = some (.str name)) :
    n.types = some (names.map .str) := by
  have htypes : typesOf ms = .ok n.types := (readFrom_of_ofMembers hn).types
  unfold typesOf at htypes
  obtain hlist | ⟨name, rfl, hname⟩ := htype
  · rw [hlist] at htypes
    exact (Except.ok.inj htypes).symm
  · rw [hname] at htypes
    exact (Except.ok.inj htypes).symm

theorem declares_iff {n : Node} {names : List String} (h : n.types = some (names.map .str))
    (name : String) : n.declares name = true ↔ name ∈ names := by
  simp [declares, h]

end Node

namespace Typing

/-- The base types of declared types are those that their names stand for, null aside. -/
theorem mem_different {names : List String} {before types : List BaseType}
    (h : different (names.map .str) before = .ok types) (t : BaseType) :
    t ∈ types ↔ t ∈ before ∨ ∃ name ∈ names, name ≠ "null" ∧ baseType name = t := by
  induction names generalizing before with
  | nil =>
    cases h
    simp
  | cons name names ih =>
    by_cases hnull : name = "null"
    · subst hnull
      rw [List.map_cons, different] at h
      rw [ih h]
      simp
    · rw [List.map_cons, different] at h
      · have hadd : ∀ found : List BaseType,
            t ∈ (if found.contains (baseType name) then found else found ++ [baseType name]) ↔
              t ∈ found ∨ baseType name = t := by
          intro found
          split
          · next hfound =>
            rw [List.contains_iff_mem] at hfound
            exact ⟨.inl, fun ht => ht.elim id fun heq => heq ▸ hfound⟩
          · rw [List.mem_append, List.mem_singleton, eq_comm (a := t)]
        rw [ih h, hadd]
        simp [hnull, or_assoc]
      · exact fun heq => hnull (Json.str.inj heq)

/-- Of given base types a field has one as its type or among the alternatives. -/
theorem mem_ofBaseTypes {types : List BaseType} (hne : types ≠ []) (nullable : Bool)
    (t : BaseType) :
    (t = (ofBaseTypes nullable types).type ∨
      t ∈ (ofBaseTypes nullable types).alternatives.getD []) ↔ t ∈ types := by
  match types, hne with
  | [u], _ => simp [ofBaseTypes]
  | u :: w :: types, _ => simp [ofBaseTypes]

theorem ofBaseTypes_nullable (nullable : Bool) (types : List BaseType) :
    (ofBaseTypes nullable types).nullable = nullable := by
  match types with
  | [] => rfl
  | [_] => rfl
  | _ :: _ :: _ => rfl

theorem ofValue_ne_null {v : Json} (h : v ≠ .null) : ofValue v ≠ .null := by
  cases v <;> first | exact absurd rfl h | exact nofun

/-- Only numbers are of a base type that two names stand for. -/
theorem hasTypeName_iff {v : Json} (hnull : v ≠ .null) (habsent : v ≠ .absent)
    (hnan : v ≠ .num (.real .nan)) {name : String} (hname : name ∈ Json.typeNames) :
    v.hasTypeName name = true ↔ (name ≠ "null" ∧ baseType name = ofValue v) ∧
      (name = "integer" → ∀ m, v = .num m → m.isIntegral = true) := by
  simp only [Json.typeNames, List.mem_cons, List.not_mem_nil, or_false] at hname
  cases v with
  | null => exact absurd rfl hnull
  | absent => exact absurd rfl habsent
  | num m =>
    have hm : m.isNan = false := by
      unfold Number.isNan
      split
      · exact absurd rfl hnan
      · rfl
    rcases hname with rfl | rfl | rfl | rfl | rfl | rfl | rfl <;>
      simp [Json.hasTypeName, baseType, ofValue, hm]
  | _ =>
    rcases hname with rfl | rfl | rfl | rfl | rfl | rfl | rfl <;>
      simp [Json.hasTypeName, baseType, ofValue]

end Typing

namespace Evaluation

/-- Any of the names admits a value exactly if one of them stands for its base type and, of a
number, unless `number` is among them, it is none with a fractional part. -/
theorem hasSomeType_iff {v : Json} (hnull : v ≠ .null) (habsent : v ≠ .absent)
    (hnan : v ≠ .num (.real .nan)) {names : List String}
    (hnames : ∀ name ∈ names, name ∈ Json.typeNames) :
    v.hasSomeType (names.map .str) = true ↔
      (∃ name ∈ names, name ≠ "null" ∧ Typing.baseType name = Typing.ofValue v) ∧
        ("number" ∉ names → "integer" ∈ names → ∀ m, v = .num m → m.isIntegral = true) := by
  have hsome : v.hasSomeType (names.map .str) = true ↔
      ∃ name ∈ names, v.hasTypeName name = true := by
    simp [Json.hasSomeType, Json.hasType]
  have hone := fun name hname => Typing.hasTypeName_iff hnull habsent hnan (hnames name hname)
  rw [hsome]
  constructor
  · rintro ⟨name, hname, hadmits⟩
    obtain ⟨hbase, hinteger⟩ := (hone name hname).mp hadmits
    refine ⟨⟨name, hname, hbase⟩, fun hnumber _ m hm => hinteger ?_ m hm⟩
    -- of the two names for numbers it is the other one
    have hall := hnames name hname
    simp only [Json.typeNames, List.mem_cons, List.not_mem_nil, or_false] at hall
    subst hm
    rcases hall with rfl | rfl | rfl | rfl | rfl | rfl | rfl
    case inr.inr.inr.inl => exact absurd hname hnumber
    case inr.inr.inr.inr.inl => rfl
    all_goals exact absurd hbase.2 (by simp [Typing.baseType, Typing.ofValue])
  · rintro ⟨⟨name, hname, hbase⟩, hinteger⟩
    by_cases hcut : name = "integer"
    · subst hcut
      by_cases hnumber : "number" ∈ names
      · refine ⟨"number", hnumber, (hone _ hnumber).mpr ⟨⟨by decide, ?_⟩, nofun⟩⟩
        rw [← hbase.2]
        rfl
      · exact ⟨_, hname, (hone _ hname).mpr ⟨hbase, fun _ => hinteger hnumber hname⟩⟩
    · exact ⟨name, hname, (hone _ hname).mpr ⟨hbase, fun heq => absurd heq hcut⟩⟩

/-- The type information of a field and the declared types of its schema. For every value but a NaN
one of the types admits the value exactly where the field does, a null by being nullable and any
other value by its base type, and where besides a number keeps to the mark for integers, unless
`number` is declared beside `integer`. -/
theorem types_flattened {ms : Members} {n : Node} (hn : Node.ofMembers ms = .ok n)
    {names : List String} (hnames : ∀ name ∈ names, name ∈ Json.typeNames)
    (htype : Table.keyword ms "type" = some (.arr (names.map .str)) ∨
      ∃ name, names = [name] ∧ Table.keyword ms "type" = some (.str name)) (required : Bool) :
    n.types = some (names.map .str) ∧
      ∃ typing, Typing.ofNode n = .ok typing ∧
        ∀ v, v ≠ .absent → v ≠ .num (.real .nan) →
          (v.hasSomeType (names.map .str) = true ↔
            typing.Admits v ∧
              ("number" ∉ names → (Constraints.ofNode n required).KeepsInteger v)) := by
  have htypes := Node.types_of_ofMembers hn htype
  obtain ⟨types, hdifferent⟩ := Typing.exists_different names []
  have hmem := Typing.mem_different hdifferent
  refine ⟨htypes, Typing.ofBaseTypes n.allowsNull types, ?_, fun v habsent hnan => ?_⟩
  · rw [Typing.ofNode, htypes]
    dsimp only
    rw [hdifferent]
    rfl
  have hdeclares := Node.declares_iff htypes
  have hmark : (Constraints.ofNode n required).KeepsInteger v ↔
      ("integer" ∈ names → ∀ m, v = .num m → m.isIntegral = true) := by
    simp [Constraints.KeepsInteger, Constraints.ofNode, hdeclares]
  by_cases hnull : v = .null
  · subst hnull
    have hnullable : (Typing.ofBaseTypes n.allowsNull types).nullable = true ↔ "null" ∈ names := by
      rw [Typing.ofBaseTypes_nullable, Node.allowsNull, hdeclares]
    have hnothing : Json.null.hasSomeType (names.map .str) = true ↔ "null" ∈ names := by
      simp [Json.hasSomeType, Json.hasType, Json.hasTypeName]
    rw [hnothing, hmark]
    simp [Typing.Admits, hnullable]
  · have hbase : (∃ name ∈ names, name ≠ "null" ∧ Typing.baseType name = Typing.ofValue v) ↔
        Typing.ofValue v ∈ types := by
      rw [hmem]
      simp
    have hadmits : (Typing.ofBaseTypes n.allowsNull types).Admits v ↔ Typing.ofValue v ∈ types := by
      by_cases hne : types = []
      · subst hne
        have hother : Typing.ofValue v ≠ .null := Typing.ofValue_ne_null hnull
        simp [Typing.Admits, Typing.ofBaseTypes, hnull, hother]
      · rw [← Typing.mem_ofBaseTypes hne n.allowsNull]
        simp [Typing.Admits, hnull]
    rw [hasSomeType_iff hnull habsent hnan hnames, hbase, hadmits, hmark]

/-- The number one and a half. -/
def oneAndHalf : Json := .num (.real (.finite false 6755399441055744 (-52)))

/-- A field for integers or texts refuses one and a half, as evaluation does. -/
theorem integer_or_string_refuses :
    ∃ n typing, Node.ofMembers [("type", .arr [.str "integer", .str "string"])] = .ok n ∧
      Typing.ofNode n = .ok typing ∧ typing.alternatives = some [.number, .string] ∧
      ¬ (typing.Admits oneAndHalf ∧ (Constraints.ofNode n false).KeepsInteger oneAndHalf) := by
  obtain ⟨n, hn⟩ :
      ∃ n, Node.ofMembers [("type", .arr [.str "integer", .str "string"])] = .ok n := ⟨_, rfl⟩
  obtain ⟨htypes, typing, htyping, hexact⟩ :=
    @types_flattened _ n hn ["integer", "string"] (by decide) (.inl rfl) false
  have hrefused : oneAndHalf.hasSomeType [.str "integer", .str "string"] = false := by
    decide +kernel
  refine ⟨n, typing, hn, htyping, ?_, ?_⟩
  · rw [Typing.ofNode, htypes] at htyping
    cases htyping
    rfl
  · rintro ⟨hadmits, hkeeps⟩
    have hadmitted := (hexact oneAndHalf (by decide) (by decide)).mpr ⟨hadmits, fun _ => hkeeps⟩
    rw [List.map_cons, List.map_singleton, hrefused] at hadmitted
    cases hadmitted

/-- A field for integers or other numbers refuses one and a half, which evaluation takes. -/
theorem integer_or_number_refuses :
    ∃ n typing, Node.ofMembers [("type", .arr [.str "integer", .str "number"])] = .ok n ∧
      Typing.ofNode n = .ok typing ∧
      oneAndHalf.hasSomeType [.str "integer", .str "number"] = true ∧
      ¬ (typing.Admits oneAndHalf ∧ (Constraints.ofNode n false).KeepsInteger oneAndHalf) := by
  refine ⟨_, _, rfl, rfl, by decide +kernel, fun ⟨_, hkeeps⟩ => ?_⟩
  have hintegral := hkeeps rfl _ rfl
  exact absurd hintegral (by decide +kernel)

end Evaluation

end Conform
