import Conform.Json.Text

/-!
# Conform.Fault

What stops a reading of a schema. Data that breaks a schema is reported and never a fault; a
fault means that the schema itself cannot be read: a reference leads nowhere, a keyword has a
value of the wrong kind, a pattern is none. Each constructor is a cause. The causes that a
caller is told about in words have their wording in `Fault.message?`.
-/

namespace Conform

/-- The cause that stopped a reading. -/
inductive Fault where
  /-- A reference does not address the document at hand. -/
  | externalReference (ref : Json)
  /-- A segment of a reference does not exist. -/
  | danglingReference (ref segment : String)
  /-- A reference is met again before it has led anywhere. -/
  | circularReference (ref : String)
  /-- There is no document for a reference to address. -/
  | noDocument (ref : Json)
  /-- What stands in the place of a schema is none. -/
  | notASchema (sort : String)
  /-- A form has no way to register a field. -/
  | noRegistration
  /-- A pattern breaks the grammar of patterns. -/
  | patternSyntax
  /-- A document is refused by the schema of schemas. -/
  | schemaRefused
  /-- A value is of a kind that the operation is not for. -/
  | wrongKind
  /-- Members are wanted of a value that has none. -/
  | noMembers
  /-- The first of no declared types is wanted. -/
  | noTypes
  /-- A text or name is not one of those allowed. -/
  | notAllowed
  /-- A member that has to be there is not. -/
  | missingMember
  /-- A number is divided by zero. -/
  | divisionByZero
  /-- A number is too large for the operation. -/
  | tooLarge
  /-- A text nests deeper than the host can read. -/
  | tooDeep
  /-- A format of the caller breaks off. -/
  | checkFailed (reason : String)
  /-- The budget of steps is used up. -/
  | exhausted
deriving DecidableEq, Repr

namespace Fault

/-- The wording of the causes that are told in words. -/
def message? : Fault → Option String
  | .externalReference ref => ref.shown?.map fun words => "External $ref not supported: " ++ words
  | .danglingReference ref segment =>
    some ("Cannot resolve $ref: " ++ ref ++ " (missing segment '" ++ segment ++ "')")
  | .circularReference ref => some ("Circular reference detected: " ++ ref)
  | .noDocument _ => some "Root schema required for $ref resolution"
  | .notASchema sort => some ("Schema must be a mapping or a boolean, got " ++ sort)
  | .noRegistration =>
    some "Builder does not expose a v(path, definition) registration method"
  | _ => none

/-- What has to be written. A value that cannot be is a fault. -/
def written {α : Type} (text : Option α) : Except Fault α :=
  match text with
  | some words => .ok words
  | none => .error .notAllowed

/-- The cause where a reference does not address the document at hand. It is told in words, and
a reference that cannot be written is a fault of its own. -/
def external (ref : Json) : Fault :=
  match ref.shown? with
  | some _ => .externalReference ref
  | none => .notAllowed

/-- Whether the cause lies in following a reference. -/
def isReference : Fault → Bool
  | .externalReference _ => true
  | .danglingReference _ _ => true
  | .circularReference _ => true
  | .noDocument _ => true
  | _ => false

end Fault

namespace Json

/-- The word for a value's sort where a schema was wanted. -/
def sortWord : Json → String
  | .absent => "_Undefined"
  | .null => "NoneType"
  | .bool _ => "bool"
  | .num (.int _) => "int"
  | .num (.real _) => "float"
  | .str _ => "str"
  | .arr _ => "list"
  | .obj _ => "dict"

end Json

end Conform
