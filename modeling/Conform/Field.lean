import Conform.Field.Constraints
import Conform.Schema.Node

/-!
# Conform.Field

A field of a form: the place of a value in a document, of what type it is and what is asked
of it. Places are as in reports, but `[*]` stands for every item of an array and `*` for every
member that a pattern names. The empty place is the document.

The type of a field comes from the declared types of its schema: `null` makes it nullable, and
all others become base types, the first of them being the type. Without declared types the
first allowed value or the constant tells.
-/

namespace Conform

/-- Of what type a field is. -/
structure Typing where
  type : BaseType
  nullable : Bool := false
  alternatives : Option (List BaseType) := none
deriving DecidableEq, Repr

namespace Typing

/-- The base type that a type name stands for. A name that is none stands for a string. -/
def baseType : String → BaseType
  | "number" => .number
  | "integer" => .number
  | "boolean" => .boolean
  | "array" => .array
  | "object" => .object
  | "null" => .null
  | _ => .string

/-- The base type that a declared type stands for. -/
def declared : Json → Except Fault BaseType
  | .str name => .ok (baseType name)
  | j => if j.isKey then .ok .string else .error .wrongKind

/-- The different base types of declared types, null aside, in order. -/
def different : List Json → List BaseType → Except Fault (List BaseType)
  | [], found => .ok found
  | .str "null" :: types, found => different types found
  | j :: types, found => do
    let t ← declared j
    different types (if found.contains t then found else found ++ [t])

/-- The base type of a value. -/
def ofValue : Json → BaseType
  | .bool _ => .boolean
  | .num _ => .number
  | .arr _ => .array
  | .obj _ => .object
  | .null => .null
  | .str _ => .string
  | .absent => .string

/-- The base type of the first allowed value. A null there says nothing of the other values. -/
def ofFirst : Json → BaseType
  | .null => .string
  | j => ofValue j

/-- The typing with given base types, the first being the type. -/
def ofBaseTypes (nullable : Bool) : List BaseType → Typing
  | [] => ⟨.null, nullable, none⟩
  | [t] => ⟨t, nullable, none⟩
  | t :: ts => ⟨t, nullable, some (t :: ts)⟩

/-- The typing of a schema without declared types. -/
def inferred (n : Node) : Typing :=
  match n.enum with
  | some (j :: _) => ⟨ofFirst j, false, none⟩
  | _ => if n.hasConst then ⟨ofValue n.const, false, none⟩ else ⟨.string, false, none⟩

/-- The typing of a schema. -/
def ofNode (n : Node) : Except Fault Typing :=
  match n.types with
  | some types => (different types []).map (ofBaseTypes n.allowsNull)
  | none => .ok (inferred n)

end Typing

namespace Constraints

/-- The value of a keyword, null if it is not declared. -/
def orNull (j : Option Json) : Json := j.getD .null

/-- A list keyword as a value. -/
def listOrNull (xs : Option (List Json)) : Json := orNull (xs.map .arr)

/-- Members as a value, null if there are none. -/
def membersOrNull (ms : Members) : Json := if ms.isEmpty then .null else .obj ms

/-- Whether a bound is exclusive, null if no exclusive form was declared. -/
def markOrNull (mark : Option Bool) : Json := orNull (mark.map .bool)

/-- The constraints that a schema sets. Whether a field is required is no matter of its own
schema. -/
def ofNode (n : Node) (required : Bool) : Constraints where
  required := .bool required
  minLength := orNull n.string.minLength
  maxLength := orNull n.string.maxLength
  pattern := orNull n.string.pattern
  format := orNull n.string.format
  contentEncoding := orNull n.string.contentEncoding
  contentMediaType := orNull n.string.contentMediaType
  min := orNull n.number.lower.1
  max := orNull n.number.upper.1
  exclusiveMin := markOrNull n.number.lower.2
  exclusiveMax := markOrNull n.number.upper.2
  multipleOf := orNull n.number.multipleOf
  integer := .bool (n.declares "integer")
  items := orNull n.array.items
  contains := orNull n.array.contains
  minItems := orNull n.array.minItems
  maxItems := orNull n.array.maxItems
  uniqueItems := .bool n.array.uniqueItems
  minProperties := orNull n.object.minProperties
  maxProperties := orNull n.object.maxProperties
  additionalProperties := orNull n.object.additionalProperties
  propertyNames := orNull n.object.propertyNames
  patternProperties := membersOrNull n.object.patternProperties
  enum := listOrNull n.enum
  const := n.const
  allOf := listOrNull n.composition.allOf
  anyOf := listOrNull n.composition.anyOf
  oneOf := listOrNull n.composition.oneOf
  not := orNull n.composition.not
  test := orNull n.conditional.test
  accepted := orNull n.conditional.accepted
  rejected := orNull n.conditional.rejected

/-- The constraints of a document that none of its fields can carry. -/
def ofRoot (n : Node) : Constraints where
  minProperties := orNull n.object.minProperties
  maxProperties := orNull n.object.maxProperties
  additionalProperties := orNull n.object.additionalProperties
  propertyNames := orNull n.object.propertyNames
  patternProperties := membersOrNull n.object.patternProperties
  dependentRequired :=
    membersOrNull (n.object.dependentRequired.map fun (trigger, names) => (trigger, .arr names))

end Constraints

/-- A field of a form. -/
structure Field where
  path : String
  typing : Typing
  constraints : Constraints := {}
deriving DecidableEq, Repr

namespace Field

/-- The field of a schema at a place. -/
def ofNode (n : Node) (path : String) (required : Bool) : Except Fault Field :=
  (Typing.ofNode n).map fun typing => ⟨path, typing, .ofNode n required⟩

/-- A field in writing. -/
def toJson (f : Field) : Json :=
  .obj ([("path", .str f.path), ("type", .str f.typing.type.text),
      ("nullable", .bool f.typing.nullable)]
    ++ (match f.typing.alternatives with
      | some ts => [("multipleTypes", .arr (ts.map fun t => .str t.text))]
      | none => [])
    ++ [("constraints", f.constraints.toJson)])

end Field

end Conform
