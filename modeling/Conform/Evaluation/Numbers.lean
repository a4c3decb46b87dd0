import Conform.Evaluation.Basic

/-!
# Conform.Evaluation.Numbers

The rules for numbers: the plain bounds, the exclusive bounds in either form, and multiples.
A bound that a boolean makes exclusive is checked as a plain bound too, so a number on it is
reported once and a number beyond it twice.
-/

namespace Conform

namespace Evaluation

/-- At least the lower bound. -/
def minimumRule (k : NumberKeywords) (n : Number) (path : String) : Trace Violation :=
  limitRule k.minimum n.lt .minimum "Number must be at least " "" (.num n) path

/-- At most the upper bound. -/
def maximumRule (k : NumberKeywords) (n : Number) (path : String) : Trace Violation :=
  limitRule k.maximum (fun limit => limit.lt n) .maximum "Number must be at most " "" (.num n)
    path

/-- More than the exclusive lower bound. -/
def exclusiveMinimumRule (k : NumberKeywords) (n : Number) (path : String) :
    Trace Violation :=
  limitRule k.exclusiveLower n.le .exclusiveMinimum "Number must be greater than " "" (.num n)
    path

/-- Less than the exclusive upper bound. -/
def exclusiveMaximumRule (k : NumberKeywords) (n : Number) (path : String) :
    Trace Violation :=
  limitRule k.exclusiveUpper (fun limit => limit.le n) .exclusiveMaximum
    "Number must be less than " "" (.num n) path

/-- The fault of a number that cannot be tested for being a multiple. -/
def divisionFault : Number.DivisionFault → Fault
  | .byZero => .divisionByZero
  | .tooLarge => .tooLarge
  | .notANumber => .notAllowed

/-- Whether a number is a multiple of a value, which has to be a number itself. -/
def isMultiple (n : Number) (divisor : Json) : Except Fault Bool :=
  match divisor.numeric? with
  | none => .error .wrongKind
  | some d =>
    match n.isMultiple d with
    | .ok b => .ok b
    | .error f => .error (divisionFault f)

/-- A multiple of the divisor. -/
def multipleOfRule (k : NumberKeywords) (n : Number) (path : String) : Trace Violation :=
  match k.multipleOf with
  | none => .done
  | some d => .after (isMultiple n d) fun ok =>
    reportUnless ok (.after (Fault.written d.shown?) fun words =>
      violation path .multipleOf ("Number must be a multiple of " ++ words) (.num n) d)

/-- All rules for a number. -/
def numberRules (k : NumberKeywords) (n : Number) (path : String) : Trace Violation :=
  .inTurn [
    fun _ => minimumRule k n path,
    fun _ => maximumRule k n path,
    fun _ => exclusiveMinimumRule k n path,
    fun _ => exclusiveMaximumRule k n path,
    fun _ => multipleOfRule k n path]

end Evaluation

end Conform
