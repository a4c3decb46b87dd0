import Conform.Json.Basic

/-!
# Conform.Json.Kind

The seven type names of a schema and what they admit. Every value is of exactly one kind, and
`integer` is the one name that cuts a kind in two: a number is an integer when it has no
fractional part, however it was written. A NaN is no number, and no other name admits
anything.
-/

namespace Conform

namespace Json

/-- The name of a value's kind, for reports. -/
def kindName : Json → String
  | .absent => "_Undefined"
  | .null => "null"
  | .bool _ => "boolean"
  | .num _ => "number"
  | .str _ => "string"
  | .arr _ => "array"
  | .obj _ => "object"

/-- Whether a type name admits a value. -/
def hasTypeName (v : Json) (name : String) : Bool :=
  match v with
  | .absent => false
  | .null => name == "null"
  | .bool _ => name == "boolean"
  | .str _ => name == "string"
  | .arr _ => name == "array"
  | .obj _ => name == "object"
  | .num n => (name == "number" && !n.isNan) || (name == "integer" && n.isIntegral)

/-- Whether a declared type admits a value; what is not a name admits nothing. -/
def hasType (v : Json) : Json → Bool
  | .str name => v.hasTypeName name
  | _ => false

/-- Whether one of the declared types admits a value. -/
def hasSomeType (v : Json) (types : List Json) : Bool := types.any v.hasType

end Json

end Conform
