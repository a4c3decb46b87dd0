import Conform.Fault

/-!
# Conform.Schema.Node

One schema with its keywords read and sorted into families. Two families have more than one
spelling, and reading settles them once:

* an exclusive bound is a number of its own or a boolean that makes the plain bound exclusive;
* `dependencies` holds demands and schemas together; each kind is merged with
  `dependentRequired` and `dependentSchemas`, which come later and win.

The schemas inside a schema are left unread, for they are read where a value meets them. So
are the values of most keywords: a bound that is no bound does no harm until a value is
compared with it. A keyword whose value is null is not declared.
-/

namespace Conform

/-- Keywords for strings. -/
structure StringKeywords where
  minLength : Option Json := none
  maxLength : Option Json := none
  pattern : Option Json := none
  format : Option Json := none
  contentEncoding : Option Json := none
  contentMediaType : Option Json := none
deriving DecidableEq, Repr

/-- Keywords for numbers. -/
structure NumberKeywords where
  minimum : Option Json := none
  maximum : Option Json := none
  exclusiveMinimum : Option Json := none
  exclusiveMaximum : Option Json := none
  multipleOf : Option Json := none
deriving DecidableEq, Repr

/-- Keywords for arrays. The schemas of items are one schema for all or, as an array, one for
each position. -/
structure ArrayKeywords where
  minItems : Option Json := none
  maxItems : Option Json := none
  uniqueItems : Bool := false
  items : Option Json := none
  additionalItems : Option Json := none
  contains : Option Json := none
deriving DecidableEq, Repr

/-- Keywords for objects. -/
structure ObjectKeywords where
  minProperties : Option Json := none
  maxProperties : Option Json := none
  required : List Json := []
  properties : Members := []
  patternProperties : Members := []
  additionalProperties : Option Json := none
  propertyNames : Option Json := none
  dependentRequired : Table (List Json) := []
  dependentSchemas : Members := []
deriving DecidableEq, Repr

/-- Keywords that combine schemas. -/
structure CompositionKeywords where
  allOf : Option (List Json) := none
  anyOf : Option (List Json) := none
  oneOf : Option (List Json) := none
  not : Option Json := none
deriving DecidableEq, Repr

/-- Keywords that choose between schemas. -/
structure ConditionalKeywords where
  test : Option Json := none
  accepted : Option Json := none
  rejected : Option Json := none
deriving DecidableEq, Repr

/-- One schema with its keywords read. A constant that is not declared is `Json.absent`. -/
structure Node where
  ref : Option Json := none
  types : Option (List Json) := none
  const : Json := .absent
  enum : Option (List Json) := none
  string : StringKeywords := {}
  number : NumberKeywords := {}
  array : ArrayKeywords := {}
  object : ObjectKeywords := {}
  composition : CompositionKeywords := {}
  conditional : ConditionalKeywords := {}
deriving DecidableEq, Repr

namespace NumberKeywords

/-- A bound from its plain and its exclusive keyword: the limit, and whether it is exclusive
if any exclusive form was declared. -/
def bound (plain exclusive : Option Json) : Option Json × Option Bool :=
  match exclusive with
  | some (.num n) => (some (.num n), some true)
  | some (.bool b) => (plain, some b)
  | _ => (plain, none)

/-- The lower bound. -/
def lower (k : NumberKeywords) : Option Json × Option Bool :=
  bound k.minimum k.exclusiveMinimum

/-- The upper bound. -/
def upper (k : NumberKeywords) : Option Json × Option Bool :=
  bound k.maximum k.exclusiveMaximum

/-- The limit of a bound that is exclusive. -/
def exclusiveLimit : Option Json × Option Bool → Option Json
  | (limit, some true) => limit
  | _ => none

/-- The lower limit that numbers have to exceed. -/
def exclusiveLower (k : NumberKeywords) : Option Json := exclusiveLimit k.lower

/-- The upper limit that numbers have to stay below. -/
def exclusiveUpper (k : NumberKeywords) : Option Json := exclusiveLimit k.upper

end NumberKeywords

namespace ArrayKeywords

/-- Whether each position has a schema of its own. -/
def isTuple (k : ArrayKeywords) : Bool :=
  match k.items with
  | some (.arr _) => true
  | _ => false

end ArrayKeywords

namespace CompositionKeywords

/-- Whether one of the three list keywords is declared. -/
def present (k : CompositionKeywords) : Bool :=
  k.allOf.isSome || k.anyOf.isSome || k.oneOf.isSome

end CompositionKeywords

namespace Json

/-- The elements of a value where a list is wanted: items, characters or names. -/
def elements : Json → Except Fault (List Json)
  | .arr xs => .ok xs
  | .str s => .ok (s.toList.map fun c => .str c.toString)
  | .obj ms => .ok (ms.map fun m => .str m.1)
  | _ => .error .wrongKind

/-- The members of a value where an object is wanted or nothing. -/
def optionalMembers (j : Json) : Except Fault Members :=
  if j.isFalsy then .ok []
  else
    match j with
    | .obj ms => .ok ms
    | _ => .error .noMembers

end Json

/-- The value of a keyword, null being no declaration. -/
def Table.keyword (ms : Members) (name : String) : Option Json :=
  match ms.lookup name with
  | some .null => none
  | some j => some j
  | none => none

namespace Node

/-! ## Questions about a node -/

/-- Whether a constant is declared. -/
def hasConst (n : Node) : Bool := n.const != .absent

/-- Whether a type name is among the declared types. -/
def declares (n : Node) (name : String) : Bool :=
  match n.types with
  | some types => types.contains (.str name)
  | none => false

/-- Whether null is among the declared types. -/
def allowsNull (n : Node) : Bool := n.declares "null"

/-! ## Reading -/

/-- A list keyword, if it is declared. -/
def listKeyword (ms : Members) (name : String) : Except Fault (Option (List Json)) :=
  match Table.keyword ms name with
  | none => .ok none
  | some j => j.elements.map some

/-- The declared types: one name or a list. -/
def typesOf (ms : Members) : Except Fault (Option (List Json)) :=
  match Table.keyword ms "type" with
  | none => .ok none
  | some (.str name) => .ok (some [.str name])
  | some j => j.elements.map some

/-- The members of a keyword that holds schemas by name; any other value holds none. -/
def schemasOf (ms : Members) (name : String) : Members :=
  match ms.lookup name with
  | some (.obj entries) => entries
  | _ => []

/-- The demanded names. -/
def requiredOf (ms : Members) : Except Fault (List Json) :=
  match ms.lookup "required" with
  | none => .ok []
  | some j => if j.isFalsy then .ok [] else j.elements

/-- Take in the entries of `dependencies`: lists demand members, anything else is a schema. -/
def splitDependencies :
    Members → Table (List Json) → Members → Table (List Json) × Members
  | [], demands, schemas => (demands, schemas)
  | (trigger, .arr names) :: rest, demands, schemas =>
    splitDependencies rest (Table.put demands trigger names) schemas
  | (trigger, schema) :: rest, demands, schemas =>
    splitDependencies rest demands (Table.put schemas trigger schema)

/-- Take in the entries of `dependentRequired`. -/
def addDemands : Members → Table (List Json) → Except Fault (Table (List Json))
  | [], demands => .ok demands
  | (trigger, names) :: rest, demands => do
    addDemands rest (Table.put demands trigger (← names.elements))

/-- The dependencies of either spelling, as demands and schemas. -/
def dependenciesOf (ms : Members) : Except Fault (Table (List Json) × Members) := do
  let mixed ← ((ms.lookup "dependencies").getD .null).optionalMembers
  let (demands, schemas) := splitDependencies mixed [] []
  let demands ← addDemands
    (← ((ms.lookup "dependentRequired").getD .null).optionalMembers) demands
  let more ← ((ms.lookup "dependentSchemas").getD .null).optionalMembers
  return (demands, more.foldl (fun t m => Table.put t m.1 m.2) schemas)

/-- The keywords for strings. -/
def stringOf (ms : Members) : StringKeywords where
  minLength := Table.keyword ms "minLength"
  maxLength := Table.keyword ms "maxLength"
  pattern := Table.keyword ms "pattern"
  format := Table.keyword ms "format"
  contentEncoding := Table.keyword ms "contentEncoding"
  contentMediaType := Table.keyword ms "contentMediaType"

/-- The keywords for numbers. -/
def numberOf (ms : Members) : NumberKeywords where
  minimum := Table.keyword ms "minimum"
  maximum := Table.keyword ms "maximum"
  exclusiveMinimum := Table.keyword ms "exclusiveMinimum"
  exclusiveMaximum := Table.keyword ms "exclusiveMaximum"
  multipleOf := Table.keyword ms "multipleOf"

/-- The keywords for arrays. -/
def arrayOf (ms : Members) : ArrayKeywords where
  minItems := Table.keyword ms "minItems"
  maxItems := Table.keyword ms "maxItems"
  uniqueItems := ((ms.lookup "uniqueItems").getD .null).isTruthy
  items := Table.keyword ms "items"
  additionalItems := Table.keyword ms "additionalItems"
  contains := Table.keyword ms "contains"

/-- The schemas that choose between schemas. -/
def conditionalOf (ms : Members) : ConditionalKeywords where
  test := Table.keyword ms "if"
  accepted := Table.keyword ms "then"
  rejected := Table.keyword ms "else"

/-- Read the keywords of a schema. -/
def ofMembers (ms : Members) : Except Fault Node := do
  let (demands, schemas) ← dependenciesOf ms
  let types ← typesOf ms
  let enum ← listKeyword ms "enum"
  let required ← requiredOf ms
  let allOf ← listKeyword ms "allOf"
  let anyOf ← listKeyword ms "anyOf"
  let oneOf ← listKeyword ms "oneOf"
  return {
    ref := Table.keyword ms "$ref"
    types := types
    const := (ms.lookup "const").getD .absent
    enum := enum
    string := stringOf ms
    number := numberOf ms
    array := arrayOf ms
    object := {
      minProperties := Table.keyword ms "minProperties"
      maxProperties := Table.keyword ms "maxProperties"
      required := required
      properties := schemasOf ms "properties"
      patternProperties := schemasOf ms "patternProperties"
      additionalProperties := Table.keyword ms "additionalProperties"
      propertyNames := Table.keyword ms "propertyNames"
      dependentRequired := demands
      dependentSchemas := schemas }
    composition := {
      allOf := allOf, anyOf := anyOf, oneOf := oneOf, not := Table.keyword ms "not" }
    conditional := conditionalOf ms }

/-- Read the keywords of a value, which has to have members. -/
def ofJson (j : Json) : Except Fault Node :=
  match j with
  | .obj ms => ofMembers ms
  | _ => .error .noMembers

end Node

end Conform
