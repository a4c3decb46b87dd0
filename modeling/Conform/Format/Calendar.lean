import Conform.Host
import Conform.Number.Basic
import Conform.Text.Digit
import Conform.Text.Split

/-!
# Conform.Format.Calendar

Dates, times and durations.

* A date has four, two and two digits. A date with a time has a `T` and a time behind it, and may
  say how far the clock is from universal time. Whether a text of this form is a moment is for the
  host to say, and what it cannot read or finds too large is none.
* A time alone is before 24:00:00.
* A duration is a row of numbers with their units, in order, the smaller units behind a `T`.

In all of them the digits may be of any script, and a line break may close the text.
-/

namespace Conform

namespace Format

/-! ## Digits -/

/-- A row of so many characters and what stands behind it. -/
def splitAfter (count : Nat) (cs : List Char) : List Char × List Char :=
  (cs.take count, cs.drop count)

/-- What stands behind a character in front. -/
def behind (c : Char) : List Char → Option (List Char)
  | d :: cs => if d = c then some cs else none
  | [] => none

/-- The value of a row of so many digits of any script, all there is. -/
def anyNumber? (count : Nat) (cs : List Char) : Option Nat :=
  if cs.length = count && cs.all isDecimalDigit then some (decimalValue cs) else none

/-- What stands behind so many digits of any script in front. -/
def afterDigits (count : Nat) (cs : List Char) : Option (List Char) :=
  let (row, rest) := splitAfter count cs
  (anyNumber? count row).map fun _ => rest

/-! ## Moments -/

/-- What stands behind the digits of a day. -/
def afterDay (cs : List Char) : Option (List Char) := do
  let r ← behind '-' (← afterDigits 4 cs)
  let r ← behind '-' (← afterDigits 2 r)
  afterDigits 2 r

/-- What stands behind the digits of hours, minutes and seconds. -/
def afterClock (cs : List Char) : Option (List Char) := do
  let r ← behind ':' (← afterDigits 2 cs)
  let r ← behind ':' (← afterDigits 2 r)
  afterDigits 2 r

/-- What stands behind a fraction, or the text itself if there is none in front. -/
def passFraction (cs : List Char) : List Char :=
  match cs with
  | '.' :: r =>
    if (r.takeWhile isDecimalDigit).isEmpty then cs else r.dropWhile isDecimalDigit
  | _ => cs

/-- A distance from universal time: a `Z`, nothing at all, or hours and minutes with a sign. -/
def isOffsetForm (cs : List Char) : Bool :=
  match cs with
  | [] => true
  | ['Z'] => true
  | sign :: r =>
    (sign == '+' || sign == '-') &&
      ((afterDigits 2 r).bind (behind ':') |>.bind (afterDigits 2)) == some []

/-- The form of a date. -/
def isDateForm (cs : List Char) : Bool := afterDay cs == some []

/-- The form of a date with a time. -/
def isDateTimeForm (cs : List Char) : Bool :=
  match (afterDay cs).bind (behind 'T') |>.bind afterClock with
  | some r => isOffsetForm (passFraction r)
  | none => false

variable [Host]

/-- Whether the host reads a text as a moment. -/
def readsMoment (s : String) : Except Fault Bool :=
  match Host.readMoment s with
  | .ok () => .ok true
  | .error .notAllowed => .ok false
  | .error .tooLarge => .ok false
  | .error f => .error f

/-- The host reads a text, or tells in one of two ways that it is none. -/
theorem exists_readsMoment (s : String) : ∃ b, readsMoment s = .ok b := by
  unfold readsMoment
  cases hread : Host.readMoment s with
  | ok => exact ⟨true, rfl⟩
  | error f =>
    obtain rfl | rfl := Host.moment_raises s f hread
    · exact ⟨false, rfl⟩
    · exact ⟨false, rfl⟩

/-- A date. -/
def isDate (s : String) : Except Fault Bool :=
  if Text.closingBreak isDateForm s.toList then readsMoment s else .ok false

/-- A date with a time. -/
def isDateTime (s : String) : Except Fault Bool :=
  if Text.closingBreak isDateTimeForm s.toList then readsMoment s else .ok false

/-! ## Times -/

/-- Seconds below a full minute once they are rounded to the binary format: two digits, and a
fraction of any length. -/
def isSeconds (cs : List Char) : Bool :=
  let (whole, rest) := splitAfter 2 cs
  match anyNumber? 2 whole with
  | none => false
  | some n =>
    match rest with
    | [] => n < 60
    | '.' :: fraction =>
      !fraction.isEmpty && fraction.all isDecimalDigit
        && (Number.real (.ofDecimal false (decimalValue (whole ++ fraction))
          (-fraction.length))).lt (.int 60)
    | _ => false

/-- Hours and minutes, and what stands behind them. -/
def readMinutes (cs : List Char) : Option (Nat × Nat × List Char) := do
  let (h, r) := splitAfter 2 cs
  let hour ← anyNumber? 2 h
  let r ← behind ':' r
  let (m, r) := splitAfter 2 r
  let minute ← anyNumber? 2 m
  let r ← behind ':' r
  return (hour, minute, r)

/-- A time without the line break behind it. -/
def isTimeBody (cs : List Char) : Bool :=
  match readMinutes cs with
  | some (hour, minute, r) => hour ≤ 23 && minute ≤ 59 && isSeconds r
  | none => false

/-- A time. -/
def isTime (cs : List Char) : Bool := Text.closingBreak isTimeBody cs

/-! ## Durations -/

/-- What stands behind a number and its unit, if they are in front. -/
def afterUnit (unit : Char) (cs : List Char) : Option (List Char) :=
  if (cs.takeWhile isDecimalDigit).isEmpty then none
  else behind unit (cs.dropWhile isDecimalDigit)

/-- Pass over a number and its unit, if they are in front. -/
def passUnit (unit : Char) (cs : List Char) : List Char := (afterUnit unit cs).getD cs

/-- What stands behind seconds, if they are in front. They may have a fraction. -/
def afterSeconds (cs : List Char) : Option (List Char) :=
  if (cs.takeWhile isDecimalDigit).isEmpty then none
  else
    match cs.dropWhile isDecimalDigit with
    | '.' :: r =>
      if (r.takeWhile isDecimalDigit).isEmpty then none
      else behind 'S' (r.dropWhile isDecimalDigit)
    | r => behind 'S' r

/-- Pass over seconds, if they are in front. -/
def passSeconds (cs : List Char) : List Char := (afterSeconds cs).getD cs

/-- The units of a day, behind the `T`; the first character has to be a digit. -/
def isTimeOfDuration (cs : List Char) : Bool :=
  match cs with
  | [] => false
  | c :: _ => isDecimalDigit c && (passSeconds (passUnit 'M' (passUnit 'H' cs))).isEmpty

/-- A duration without the line break behind it. -/
def isDurationBody (cs : List Char) : Bool :=
  match cs with
  | 'P' :: [] => false
  | 'P' :: r =>
    match passUnit 'D' (passUnit 'W' (passUnit 'M' (passUnit 'Y' r))) with
    | [] => true
    | 'T' :: r => isTimeOfDuration r
    | _ => false
  | _ => false

/-- A duration. -/
def isDuration (cs : List Char) : Bool := Text.closingBreak isDurationBody cs

end Format

end Conform
