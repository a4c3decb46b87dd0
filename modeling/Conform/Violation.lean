import Conform.Fault
import Conform.Path

/-!
# Conform.Violation

A report that data breaks a schema: where, by which rule and in which words, with the value
found and the constraint it breaks where they help.
-/

namespace Conform

/-- The rule that data breaks. -/
inductive Code where
  | falseSchema
  | required
  | typeMismatch
  | const
  | enum
  | minLength
  | maxLength
  | pattern
  | format
  | contentEncoding
  | contentMediaType
  | minimum
  | maximum
  | exclusiveMinimum
  | exclusiveMaximum
  | multipleOf
  | minItems
  | maxItems
  | uniqueItems
  | additionalItems
  | contains
  | minProperties
  | maxProperties
  | additionalProperties
  | propertyNames
  | dependentRequired
  | allOf
  | anyOf
  | oneOf
  | not
deriving DecidableEq, Repr

namespace Code

/-- The codes by name. -/
def names : Table Code := [
  ("FALSE_SCHEMA", .falseSchema), ("REQUIRED", .required), ("TYPE_MISMATCH", .typeMismatch),
  ("CONST", .const), ("ENUM", .enum), ("MIN_LENGTH", .minLength), ("MAX_LENGTH", .maxLength),
  ("PATTERN", .pattern), ("FORMAT", .format), ("CONTENT_ENCODING", .contentEncoding),
  ("CONTENT_MEDIA_TYPE", .contentMediaType), ("MINIMUM", .minimum), ("MAXIMUM", .maximum),
  ("EXCLUSIVE_MINIMUM", .exclusiveMinimum), ("EXCLUSIVE_MAXIMUM", .exclusiveMaximum),
  ("MULTIPLE_OF", .multipleOf), ("MIN_ITEMS", .minItems), ("MAX_ITEMS", .maxItems),
  ("UNIQUE_ITEMS", .uniqueItems), ("ADDITIONAL_ITEMS", .additionalItems),
  ("CONTAINS", .contains), ("MIN_PROPERTIES", .minProperties),
  ("MAX_PROPERTIES", .maxProperties), ("ADDITIONAL_PROPERTIES", .additionalProperties),
  ("PROPERTY_NAMES", .propertyNames), ("DEPENDENT_REQUIRED", .dependentRequired),
  ("ALL_OF", .allOf), ("ANY_OF", .anyOf), ("ONE_OF", .oneOf), ("NOT", .not)]

/-- The name of a code. -/
def text : Code → String
  | .falseSchema => "FALSE_SCHEMA"
  | .required => "REQUIRED"
  | .typeMismatch => "TYPE_MISMATCH"
  | .const => "CONST"
  | .enum => "ENUM"
  | .minLength => "MIN_LENGTH"
  | .maxLength => "MAX_LENGTH"
  | .pattern => "PATTERN"
  | .format => "FORMAT"
  | .contentEncoding => "CONTENT_ENCODING"
  | .contentMediaType => "CONTENT_MEDIA_TYPE"
  | .minimum => "MINIMUM"
  | .maximum => "MAXIMUM"
  | .exclusiveMinimum => "EXCLUSIVE_MINIMUM"
  | .exclusiveMaximum => "EXCLUSIVE_MAXIMUM"
  | .multipleOf => "MULTIPLE_OF"
  | .minItems => "MIN_ITEMS"
  | .maxItems => "MAX_ITEMS"
  | .uniqueItems => "UNIQUE_ITEMS"
  | .additionalItems => "ADDITIONAL_ITEMS"
  | .contains => "CONTAINS"
  | .minProperties => "MIN_PROPERTIES"
  | .maxProperties => "MAX_PROPERTIES"
  | .additionalProperties => "ADDITIONAL_PROPERTIES"
  | .propertyNames => "PROPERTY_NAMES"
  | .dependentRequired => "DEPENDENT_REQUIRED"
  | .allOf => "ALL_OF"
  | .anyOf => "ANY_OF"
  | .oneOf => "ONE_OF"
  | .not => "NOT"

/-- The code of a name. -/
def ofText? (name : String) : Option Code := names.lookup name

theorem ofText?_text (c : Code) : ofText? c.text = some c := by
  cases c <;> decide

end Code

/-- A report that data breaks a schema. -/
structure Violation where
  path : Json
  code : Code
  message : String
  value : Json := .null
  constraint : Json := .null
deriving DecidableEq, Repr

namespace Violation

/-- The members of a written report, without a value or a constraint that is null. -/
def toMembers (v : Violation) : Members :=
  [("path", v.path), ("code", .str v.code.text), ("message", .str v.message)]
    ++ (if v.value = .null then [] else [("value", v.value)])
    ++ (if v.constraint = .null then [] else [("constraint", v.constraint)])

/-- A report in writing. -/
def toJson (v : Violation) : Json := .obj v.toMembers

end Violation

/-! ## Reports read back -/

/-- A report as it was written down, its parts unread but for the code. -/
structure Record where
  path : Json
  code : Json
  message : Json
  value : Json
  constraint : Json
deriving DecidableEq, Repr

namespace Record

/-- The member of a name, which has to be there. -/
def need (ms : Members) (name : String) : Except Fault Json :=
  match ms.lookup name with
  | some j => .ok j
  | none => .error .missingMember

/-- Read a report. A code in words has to be one of the codes; any other is kept. -/
def ofJson (j : Json) : Except Fault Record :=
  match j with
  | .obj ms => do
    let code ← need ms "code"
    match code with
    | .str name => if (Code.ofText? name).isNone then throw .notAllowed
    | _ => pure ()
    let path ← need ms "path"
    let message ← need ms "message"
    return ⟨path, code, message, (ms.lookup "value").getD .null,
      (ms.lookup "constraint").getD .null⟩
  | _ => .error .wrongKind

/-- A report in writing, without a value or a constraint that is null. -/
def toJson (r : Record) : Json :=
  .obj ([("path", r.path), ("code", r.code), ("message", r.message)]
    ++ (if r.value = .null then [] else [("value", r.value)])
    ++ (if r.constraint = .null then [] else [("constraint", r.constraint)]))

end Record

end Conform
