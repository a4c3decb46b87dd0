import Conform.Format
import Conform.Schema.Node
import Conform.Trace
import Conform.Violation

/-!
# Conform.Evaluation.Basic

What the rules of evaluation share: the context of a call, the shape of a reading of one value
against one schema, and the finds that rules report.

A rule that looks at a value through a further schema is handed the reading to use for it, and
so knows nothing of how deep evaluation goes. The chain of references followed so far for the
value at hand goes along with it: rules that look at the same value again hand it on, and
rules that look into the value begin a new one.
-/

namespace Conform

/-- The context of an evaluation: the document that references address, the formats of the
caller, and whether references met twice on one chain are refused. -/
structure Scope where
  root : Option Json := none
  formats : Formats := []
  guarded : Bool := true

/-- A reading of a value against a schema, at a place and behind a chain of references. -/
abbrev Evaluate := (value schema : Json) → (path : String) → (chain : List String) →
  Trace Violation

namespace Evaluation

/-! ## Finds -/

/-- One find about a value. -/
def violation (path : String) (code : Code) (message : String) (value constraint : Json) :
    Trace Violation :=
  .find ⟨.str path, code, message, value, constraint⟩

/-- A find if a test fails. -/
def reportUnless (ok : Bool) (find : Trace Violation) : Trace Violation :=
  if ok then .done else find

/-- The limit that a number breaks. A limit that cannot be compared with numbers is a fault. -/
def broken (limit : Option Json) (breaks : Number → Bool) : Except Fault (Option Json) :=
  match limit with
  | none => .ok none
  | some j =>
    match j.numeric? with
    | some n => .ok (if breaks n then some j else none)
    | none => .error .wrongKind

/-- A find about the limit that a number breaks, in words around the limit. -/
def limitRule (limit : Option Json) (breaks : Number → Bool) (code : Code)
    (before behind : String) (value : Json) (path : String) : Trace Violation :=
  .after (broken limit breaks) fun
    | some j => .after (Fault.written j.shown?) fun words =>
      violation path code (before ++ words ++ behind) value j
    | none => .done

/-- A size has to reach a limit. -/
def sizeAtLeast (size : Nat) (limit : Number) : Bool := (Number.int size).lt limit

/-- A size must not pass a limit. -/
def sizeAtMost (size : Nat) (limit : Number) : Bool := limit.lt (.int size)

/-! ## Demands on several schemas -/

/-- Whether a test holds of some element, asking no further than the first one. -/
def someHolds {α : Type} (test : α → Except Fault Bool) : List α → Except Fault Bool
  | [] => .ok false
  | x :: xs =>
    match test x with
    | .ok true => .ok true
    | .ok false => someHolds test xs
    | .error f => .error f

/-- Whether a test holds of every element, asking no further than the first failure. -/
def allHold {α : Type} (test : α → Except Fault Bool) : List α → Except Fault Bool
  | [] => .ok true
  | x :: xs =>
    match test x with
    | .ok true => allHold test xs
    | .ok false => .ok false
    | .error f => .error f

/-- Of how many elements a test holds. -/
def countHolding {α : Type} (test : α → Except Fault Bool) : List α → Except Fault Nat
  | [] => .ok 0
  | x :: xs =>
    match test x with
    | .ok b => (countHolding test xs).map fun n => if b then n + 1 else n
    | .error f => .error f

/-- Whether a value is accepted by a schema, asking for one find only. Where the find lies does
not matter, so the place is the front. -/
def accepts (self : Evaluate) (value schema : Json) (chain : List String) :
    Except Fault Bool :=
  (self value schema "" chain).verdict

end Evaluation

end Conform
