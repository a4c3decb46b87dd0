import Conform.Field.Flatten
import Conform.Report
import Conform.Schema.Inline

/-!
# Conform.Validator

One schema with the formats of its caller, and all that can be asked of it. The schema is the
document that its references address. It may be held against the schema of schemas first, which
the host does; all later questions take it as it is.
-/

namespace Conform

variable [Host]

/-- A schema with the formats of its caller. -/
structure Validator where
  schema : Json
  formats : Formats := []

namespace Validator

/-- A validator for a schema, held against the schema of schemas if that is wanted. -/
def create (schema : Json) (formats : Formats) (checked : Bool) : Except Fault Validator := do
  if checked then Host.checkSchema schema
  return ⟨schema, formats⟩

/-- Whether the schema accepts a value. -/
def isValid (v : Validator) (value : Json) : Except Fault Bool :=
  accepts value v.schema (some v.schema) v.formats

/-- The outcome of a validation. -/
def validate (v : Validator) (value : Json) : Except Fault Outcome :=
  (Report.all value v.schema (some v.schema) "" v.formats).map (Outcome.ofReports value)

/-- What is to be reported of a value at or below a place. -/
def errorsFor (v : Validator) (value : Json) (place : String) : Except Fault (List Violation) :=
  Report.below value v.schema place (some v.schema) v.formats

/-- The schema with its references replaced. -/
def resolved (v : Validator) : Except Fault Json := inlined v.schema v.schema

/-- The fields of the schema. -/
def fields (v : Validator) : Except Fault (List Field) := Field.ofSchema v.schema "" none

end Validator

end Conform
