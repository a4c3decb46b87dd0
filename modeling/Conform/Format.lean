import Conform.Format.Address
import Conform.Format.Calendar
import Conform.Format.Resource
import Conform.Format.Uuid
import Conform.Pattern

/-!
# Conform.Format

The formats that a schema can ask of a string, by name. A caller may bring formats of their
own, which are asked first and so can stand in for the ones here. A name that nobody knows
asks for nothing.
-/

namespace Conform

/-- A format of a caller. -/
inductive FormatCheck where
  /-- A test of a value of any kind. It may break off for a reason of its own. -/
  | test (accepts : Json → Except String Bool)
  /-- Something that is no test, known by its text only. -/
  | inert (text : String)

/-- Formats of a caller, by name. -/
abbrev Formats := Table FormatCheck

namespace Format

variable [Host]

/-- A test that never fails, as a check. -/
def plain (accepts : List Char → Bool) (s : String) : Except Fault Bool :=
  .ok (accepts s.toList)

/-- The formats by name. -/
def builtIn : Table (String → Except Fault Bool) := [
  ("email", plain isEmail), ("url", plain isUrl), ("uri", plain isUri),
  ("uri-reference", plain isUriReference), ("uuid", plain isUuid), ("date", isDate),
  ("date-time", isDateTime), ("datetime", isDateTime), ("time", plain isTime),
  ("duration", plain isDuration), ("ipv4", plain isIpv4), ("ipv6", plain isIpv6),
  ("hostname", plain isHostname), ("json-pointer", plain isJsonPointer),
  ("relative-json-pointer", plain isRelativeJsonPointer), ("iri", plain isIri),
  ("iri-reference", plain isIriReference), ("uri-template", plain isUriTemplate),
  ("regex", Pattern.isPattern)]

/-- The names of the formats. -/
def names : List String := builtIn.map Prod.fst

/-- Whether a value names a format. -/
def isKnown (name : Json) : Except Fault Bool :=
  match name with
  | .str s => .ok (Table.has builtIn s)
  | j => if j.isKey then .ok false else .error .wrongKind

/-- What a test of the caller answers. A reason to break off is a fault. -/
def ask (accepts : Json → Except String Bool) (value : Json) : Except Fault Bool :=
  match accepts value with
  | .ok b => .ok b
  | .error reason => .error (.checkFailed reason)

/-- Check a value against a built-in format. Only strings have formats. -/
def checkBuiltIn (value name : Json) : Except Fault Bool :=
  match name with
  | .str n =>
    match builtIn.lookup n with
    | none => .ok true
    | some check =>
      match value with
      | .str s => check s
      | _ => .ok false
  | j => if j.isKey then .ok true else .error .wrongKind

/-- The format of a caller that a value names. -/
def custom? (formats : Formats) (name : Json) : Option FormatCheck :=
  match name with
  | .str n => formats.lookup n
  | _ => none

/-- Check a value against a format. -/
def check (formats : Formats) (value name : Json) : Except Fault Bool :=
  match custom? formats name with
  | some (.test accepts) => ask accepts value
  | _ => checkBuiltIn value name

end Format

end Conform
