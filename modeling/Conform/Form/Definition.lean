import Conform.Form.Basic

/-!
# Conform.Form.Definition

How the constraints of a field are put to a form. They become requests in a fixed order, first
those for strings, numbers, arrays and objects, then compositions, and last `required`. A
constant makes the field a literal, and then only `required` is asked for besides.

A field of several types is one request with a branch for each type, if the form can combine
branches. A form that cannot gets the first type and all constraints.
-/

namespace Conform

namespace Form

variable [Host]

/-! ## Requests of constraints -/

/-- A request that carries a value, if the value is set. -/
def setting (capability : String) (j : Json) : List Request :=
  if j = .null then [] else [⟨capability, [.value j], none⟩]

/-- A request that carries nothing, if a mark is set. -/
def marking (capability : String) (mark : Json) : List Request :=
  if mark.isTruthy then [⟨capability, [], none⟩] else []

/-- The request of a bound, with its mark if there is one. -/
def bounding (capability : String) (limit mark : Json) : List Request :=
  if limit = .null then []
  else [⟨capability, [.value limit], if mark = .null then none else some mark⟩]

/-- The request of a pattern. It has to be one, whether or not the form takes patterns. -/
def patternRequests (pattern : Json) : Except Fault (List Request) :=
  if pattern.isFalsy then .ok []
  else
    match pattern with
    | .str text => (Pattern.ofChars text.toList).map fun _ => [⟨"pattern", [.pattern text], none⟩]
    | _ => .error .wrongKind

/-- The capability for a built-in format. -/
def formatCapability? : String → Option String
  | "email" => some "email"
  | "uri" => some "url"
  | "url" => some "url"
  | "uuid" => some "uuid"
  | "date-time" => some "datetime"
  | "datetime" => some "datetime"
  | _ => none

/-- What a format of the caller is carried as. -/
def ofCheck : FormatCheck → Argument
  | .test accepts => .predicate (.format accepts)
  | .inert text => .value (.str text)

/-- The request of a format. A format of the caller is asked for as a refinement. -/
def formatRequests (formats : Formats) (format : Json) : Except Fault (List Request) :=
  if format.isFalsy then .ok []
  else
    match format with
    | .str name =>
      match formats.lookup name with
      | some check => .ok [⟨"refine", [ofCheck check], none⟩]
      | none => .ok ((formatCapability? name).toList.map fun c => ⟨c, [], none⟩)
    | j => if j.isKey then .ok [] else .error .wrongKind

/-- The request of a composition, if there is one. -/
def composing (rule : Composition) (schemas : Json) : List Request :=
  if schemas = .null then []
  else [⟨"custom", [.predicate (.composition rule schemas)], none⟩]

/-- The requests of constraints without a constant. -/
def ofKeywords (formats : Formats) (c : Constraints) : Except Fault (List Request) := do
  let pattern ← patternRequests c.pattern
  let format ← formatRequests formats c.format
  return setting "min" c.minLength ++ setting "max" c.maxLength
    ++ pattern ++ format
    ++ bounding "min" c.min c.exclusiveMin ++ bounding "max" c.max c.exclusiveMax
    ++ setting "multipleOf" c.multipleOf ++ marking "integer" c.integer
    ++ setting "minItems" c.minItems ++ setting "maxItems" c.maxItems
    ++ marking "unique" c.uniqueItems
    ++ setting "minProperties" c.minProperties ++ setting "maxProperties" c.maxProperties
    ++ setting "additionalProperties" c.additionalProperties
    ++ setting "propertyNames" c.propertyNames
    ++ composing .allOf c.allOf ++ composing .anyOf c.anyOf ++ composing .oneOf c.oneOf
    ++ marking "required" c.required

/-- The requests of constraints. -/
def ofConstraints (formats : Formats) (c : Constraints) : Except Fault (List Request) :=
  if c.const = .absent then ofKeywords formats c
  else .ok (⟨"literal", [.value c.const], none⟩ :: marking "required" c.required)

/-! ## Definitions of fields -/

/-- Put constraints to a form. -/
def constrain (f : Form) (formats : Formats) (c : Constraints) : Except Fault Form :=
  (ofConstraints formats c).map f.requestAll

/-- Build one branch of a field of several types. -/
def branchOf (f : Form) (formats : Formats) (t : BaseType) (c : Constraints) :
    Except Fault Form :=
  (f.choose t).constrain formats c

/-- The request of a mark that null is accepted. -/
def nullableRequests (nullable : Bool) : List Request :=
  if nullable then [⟨"nullable", [], none⟩] else []

/-- Build a field of one type. -/
def single (f : Form) (formats : Formats) (field : Field) : Except Fault Form :=
  ((f.choose field.typing.type).requestAll (nullableRequests field.typing.nullable)).constrain
    formats field.constraints

/-- Build a field of several types. -/
def combined (f : Form) (field : Field) (types : List BaseType) : Form :=
  (f.request ⟨"oneOf", [.branches (types.map fun t => (t, field.constraints.keptFor t))],
    none⟩).requestAll (nullableRequests field.typing.nullable)

/-- Build a field. -/
def define (f : Form) (formats : Formats) (field : Field) : Except Fault Form :=
  match field.typing.alternatives with
  | some (t :: u :: ts) =>
    if f.offers "oneOf" then .ok (f.combined field (t :: u :: ts)) else f.single formats field
  | _ => f.single formats field

end Form

end Conform
