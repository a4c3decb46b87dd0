import Conform.Evaluation.Arrays
import Conform.Evaluation.Combination
import Conform.Evaluation.Numbers
import Conform.Evaluation.Objects
import Conform.Json.Kind
import Conform.Pointer

/-!
# Conform.Evaluation

Reading a value against a schema. One node is read in this order:

1. A boolean schema decides alone, and a reference is followed. A reference met again on its
   own chain, before the value has changed, would be followed for ever and is refused.
2. A value that was not supplied fails. A null passes where `null` is a declared type, and
   fails where nothing but a type could decide it.
3. A value of none of the declared types is reported once, and nothing else of it is looked at.
4. A constant decides the node, and without one a list of allowed values does: what matches
   is accepted outright, and what does not is reported.
5. The rules for the kind of the value follow, and then those that combine schemas.

Evaluation is given a number of steps, one for each schema it enters. `Evaluation.budget` is
enough of them: within one value every chain follows each reference once at most, between two
references it only goes down in a schema, and values go down themselves.
-/

namespace Conform

variable [Host]

namespace Evaluation

/-! ## Types and values -/

/-- The declared types in words. They have to be names. -/
def typeWords : List Json → Except Fault String
  | [] => .ok ""
  | [.str t] => .ok t
  | .str t :: ts => (typeWords ts).map fun rest => t ++ " or " ++ rest
  | _ => .error .wrongKind

/-- Declared types as a constraint, null if there are none. -/
def typesConstraint (types : Option (List Json)) : Json :=
  match types with
  | some ts => .arr ts
  | none => .null

/-- The report that a null is of no declared type. -/
def nullMismatch (n : Node) (path : String) : Trace Violation :=
  let expected :=
    match n.types with
    | some (t :: ts) => typeWords (t :: ts)
    | _ => .ok "a non-null value"
  .after expected fun words =>
    violation path .typeMismatch ("Expected " ++ words ++ ", got null") .null
      (typesConstraint n.types)

/-- The report that a value is of none of the declared types. A single type is the constraint
by itself. -/
def typeMismatch (types : List Json) (value : Json) (path : String) : Trace Violation :=
  .after (typeWords types) fun words =>
    match types with
    | [] => .stop .noTypes
    | [t] => violation path .typeMismatch ("Expected " ++ words ++ ", got " ++ value.kindName)
      value t
    | ts => violation path .typeMismatch ("Expected " ++ words ++ ", got " ++ value.kindName)
      value (.arr ts)

/-- The report that a value is none of those allowed. -/
def enumMismatch (allowed : List Json) (value : Json) (path : String) : Trace Violation :=
  .after (Fault.written (allowed.mapM Json.document?)) fun choices =>
    violation path .enum ("Must be one of: " ++ String.intercalate ", " choices) value
      (.arr allowed)

/-- The report that a value is not the constant. -/
def constMismatch (const value : Json) (path : String) : Trace Violation :=
  .after (Fault.written const.document?) fun words =>
    violation path .const ("Must be equal to " ++ words) value const

/-- Whether a constant or a list of allowed values accepts the value outright. -/
def isSettled (n : Node) (value : Json) : Bool :=
  if n.hasConst then value.equals n.const
  else
    match n.enum with
    | some allowed => value.isAmong allowed
    | none => false

/-- The reports of a constant and a list of allowed values that a value does not match. -/
def unsettledRule (n : Node) (value : Json) (path : String) : Trace Violation :=
  (if n.hasConst then constMismatch n.const value path else .done).andThen fun _ =>
    match n.enum with
    | some allowed => reportUnless (value.isAmong allowed) (enumMismatch allowed value path)
    | none => .done

/-! ## One node -/

/-- The rules for the kind of a value. -/
def kindRules (scope : Scope) (self : Evaluate) (n : Node) (value : Json) (path : String)
    (chain : List String) : Trace Violation :=
  match value with
  | .str s => stringRules scope.formats n.string s path
  | .num m => numberRules n.number m path
  | .arr xs => arrayRules self n.array xs path
  | .obj ms => objectRules self n.object ms path chain
  | _ => .done

/-- The rules behind the check of types. -/
def settledRules (scope : Scope) (self : Evaluate) (n : Node) (value : Json) (path : String)
    (chain : List String) : Trace Violation :=
  if isSettled n value then .done
  else .inTurn [
    fun _ => unsettledRule n value path,
    fun _ => kindRules scope self n value path chain,
    fun _ => combinationRules self n value path chain]

/-- The check of types and what comes behind it. -/
def typedRules (scope : Scope) (self : Evaluate) (n : Node) (value : Json) (path : String)
    (chain : List String) : Trace Violation :=
  match n.types with
  | some types =>
    if value.hasSomeType types then settledRules scope self n value path chain
    else typeMismatch types value path
  | none => settledRules scope self n value path chain

/-- A value against the keywords of a schema. -/
def nodeRules (scope : Scope) (self : Evaluate) (n : Node) (value : Json) (path : String)
    (chain : List String) : Trace Violation :=
  match value with
  | .absent =>
    violation path .required "Value is required" .null (typesConstraint n.types)
  | .null =>
    if n.allowsNull then .done
    else if n.enum.isNone && !n.hasConst then nullMismatch n path
    else typedRules scope self n .null path chain
  | value => typedRules scope self n value path chain

/-! ## References -/

/-- The schema that a reference addresses. -/
def referred (scope : Scope) (ref : Json) : Except Fault Json :=
  match scope.root with
  | none => .error (.noDocument ref)
  | some root => Pointer.resolve ref root

/-- A value against what a reference addresses. -/
def followRule (scope : Scope) (self : Evaluate) (ref value : Json) (path : String)
    (chain : List String) : Trace Violation :=
  .after (Pointer.permit scope.guarded ref chain) fun _ =>
    .after (referred scope ref) fun target =>
      self value target path (Pointer.lengthen chain ref)

/-! ## Evaluation -/

/-- One step of evaluation, given the reading to use for further schemas. -/
def step (scope : Scope) (self : Evaluate) : Evaluate := fun value schema path chain =>
  match schema with
  | .bool true => .done
  | .bool false => violation path .falseSchema "Schema is false - value is always invalid" value
    (.bool false)
  | .obj ms =>
    match Table.keyword ms "$ref" with
    | some ref => followRule scope self ref value path chain
    | none => .after (Node.ofMembers ms) fun n => nodeRules scope self n value path chain
  | j => .stop (.notASchema j.sortWord)

/-- Evaluation in a number of steps. -/
def descend (scope : Scope) : Nat → Evaluate
  | 0 => fun _ _ _ _ => .stop .exhausted
  | fuel + 1 => step scope (descend scope fuel)

/-- Enough steps: the reach of references for each level of the value. -/
def budget (value schema : Json) (root : Option Json) : Nat :=
  (value.height + 1) * Pointer.reach schema root + 1

/-- The context of a call. -/
def scopeFor (schema : Json) (root : Option Json) (formats : Formats) : Scope where
  root := Pointer.document schema root
  formats := formats

/-- Everything that is to be reported of a value against a schema. -/
def run (value schema : Json) (root : Option Json) (path : String) (formats : Formats) :
    Trace Violation :=
  let scope := scopeFor schema root formats
  descend scope (budget value schema scope.root) value schema path []

end Evaluation

/-- Whether a schema accepts a value. -/
def accepts (value schema : Json) (root : Option Json) (formats : Formats) :
    Except Fault Bool :=
  (Evaluation.run value schema root "" formats).verdict

end Conform
