import Conform.Json.Basic
import Conform.Fault

/-!
# Conform.Field.Constraints

What is asked of one field of a form. A field is of a base type, and its constraints are the
keywords of its schema in a flat form:

* a bound is a limit, `min` or `max`, beside a mark whether it is exclusive;
* `required` comes from the schema around the field;
* `integer` is a mark, because integers have no base type of their own.

Constraints are kept as they were written. A constraint that is not set has its default, and
`Constraints.slots` says once for all of them what each is called and where it is kept.
-/

namespace Conform

/-! ## Base types -/

/-- The base type of a field. -/
inductive BaseType where
  | string
  | number
  | boolean
  | date
  | array
  | object
  | null
  | tuple
deriving DecidableEq, Repr

namespace BaseType

/-- The name of a base type. -/
def text : BaseType → String
  | .string => "string"
  | .number => "number"
  | .boolean => "boolean"
  | .date => "date"
  | .array => "array"
  | .object => "object"
  | .null => "null"
  | .tuple => "tuple"

/-- All base types. -/
def all : List BaseType :=
  [.string, .number, .boolean, .date, .array, .object, .null, .tuple]

/-- The base type of a name. -/
def ofText? (name : String) : Option BaseType := all.find? fun t => t.text == name

theorem ofText?_text (t : BaseType) : ofText? t.text = some t := by
  cases t <;> decide

end BaseType

/-! ## Constraints -/

/-- The constraints of a field. -/
structure Constraints where
  required : Json := .bool false
  minLength : Json := .null
  maxLength : Json := .null
  pattern : Json := .null
  format : Json := .null
  contentEncoding : Json := .null
  contentMediaType : Json := .null
  min : Json := .null
  max : Json := .null
  exclusiveMin : Json := .null
  exclusiveMax : Json := .null
  multipleOf : Json := .null
  integer : Json := .bool false
  items : Json := .null
  contains : Json := .null
  minItems : Json := .null
  maxItems : Json := .null
  uniqueItems : Json := .bool false
  minProperties : Json := .null
  maxProperties : Json := .null
  additionalProperties : Json := .null
  propertyNames : Json := .null
  patternProperties : Json := .null
  dependentRequired : Json := .null
  enum : Json := .null
  const : Json := .absent
  allOf : Json := .null
  anyOf : Json := .null
  oneOf : Json := .null
  not : Json := .null
  test : Json := .null
  accepted : Json := .null
  rejected : Json := .null
deriving DecidableEq, Repr

namespace Constraints

/-- Where a constraint of a name is kept. -/
structure Slot where
  name : String
  get : Constraints → Json
  set : Constraints → Json → Constraints

/-- The constraints by name. -/
def slots : List Slot := [
  ⟨"required", required, fun c j => { c with required := j }⟩,
  ⟨"minLength", minLength, fun c j => { c with minLength := j }⟩,
  ⟨"maxLength", maxLength, fun c j => { c with maxLength := j }⟩,
  ⟨"pattern", pattern, fun c j => { c with pattern := j }⟩,
  ⟨"format", format, fun c j => { c with format := j }⟩,
  ⟨"contentEncoding", contentEncoding, fun c j => { c with contentEncoding := j }⟩,
  ⟨"contentMediaType", contentMediaType, fun c j => { c with contentMediaType := j }⟩,
  ⟨"min", min, fun c j => { c with min := j }⟩,
  ⟨"max", max, fun c j => { c with max := j }⟩,
  ⟨"exclusiveMin", exclusiveMin, fun c j => { c with exclusiveMin := j }⟩,
  ⟨"exclusiveMax", exclusiveMax, fun c j => { c with exclusiveMax := j }⟩,
  ⟨"multipleOf", multipleOf, fun c j => { c with multipleOf := j }⟩,
  ⟨"integer", integer, fun c j => { c with integer := j }⟩,
  ⟨"items", items, fun c j => { c with items := j }⟩,
  ⟨"contains", contains, fun c j => { c with contains := j }⟩,
  ⟨"minItems", minItems, fun c j => { c with minItems := j }⟩,
  ⟨"maxItems", maxItems, fun c j => { c with maxItems := j }⟩,
  ⟨"uniqueItems", uniqueItems, fun c j => { c with uniqueItems := j }⟩,
  ⟨"minProperties", minProperties, fun c j => { c with minProperties := j }⟩,
  ⟨"maxProperties", maxProperties, fun c j => { c with maxProperties := j }⟩,
  ⟨"additionalProperties", additionalProperties,
    fun c j => { c with additionalProperties := j }⟩,
  ⟨"propertyNames", propertyNames, fun c j => { c with propertyNames := j }⟩,
  ⟨"patternProperties", patternProperties, fun c j => { c with patternProperties := j }⟩,
  ⟨"dependentRequired", dependentRequired, fun c j => { c with dependentRequired := j }⟩,
  ⟨"enum", enum, fun c j => { c with enum := j }⟩,
  ⟨"const", const, fun c j => { c with const := j }⟩,
  ⟨"allOf", allOf, fun c j => { c with allOf := j }⟩,
  ⟨"anyOf", anyOf, fun c j => { c with anyOf := j }⟩,
  ⟨"oneOf", oneOf, fun c j => { c with oneOf := j }⟩,
  ⟨"not", not, fun c j => { c with not := j }⟩,
  ⟨"if", test, fun c j => { c with test := j }⟩,
  ⟨"then", accepted, fun c j => { c with accepted := j }⟩,
  ⟨"else", rejected, fun c j => { c with rejected := j }⟩]

/-- The slot of a name. -/
def slot? (name : String) : Option Slot := slots.find? fun s => s.name == name

/-- The constraints that are set, by name. -/
def toMembers (c : Constraints) : Members :=
  (slots.filter fun s => s.get c != s.get {}).map fun s => (s.name, s.get c)

/-- The constraints that are set, in writing. -/
def toJson (c : Constraints) : Json := .obj c.toMembers

/-- Whether no constraint is set. -/
def isEmpty (c : Constraints) : Bool := c.toMembers.isEmpty

/-- Constraints with given values by name. What is no constraint is refused. -/
def ofMembers : Members → Except Fault Constraints
  | [] => .ok {}
  | (name, j) :: ms =>
    match slot? name with
    | none => .error .wrongKind
    | some s => (ofMembers ms).map fun c => s.set c j

/-! ## One branch of several -/

/-- The constraints that every branch keeps. -/
def sharedNames : List String := ["enum", "const", "required"]

/-- The constraints that a branch of a base type keeps besides. -/
def ownNames : BaseType → List String
  | .string => ["minLength", "maxLength", "pattern", "format"]
  | .number => ["min", "max", "exclusiveMin", "exclusiveMax", "multipleOf", "integer"]
  | .array => ["minItems", "maxItems", "uniqueItems", "items"]
  | _ => []

/-- Whether the branch of a base type keeps a constraint. -/
def isKept (t : BaseType) (name : String) : Bool :=
  sharedNames.contains name || (ownNames t).contains name

/-- The constraints that mean something for one branch of a field of several types. -/
def keptFor (t : BaseType) (c : Constraints) : Constraints :=
  (slots.filter fun s => isKept t s.name).foldl (fun kept s => s.set kept (s.get c)) {}

end Constraints

end Conform
