import Conform.Format
import Conform.Proofs.Grammars
import Conform.Proofs.Multiples

/-!
# Conform.Proofs.ClockWords

The grammars of times and durations, over a kind of digits:

```
time         hour : minute : seconds             two digits each, up to 23, 59 and 59
seconds      digit digit                         or
             digit digit . digit+
duration     P amount(Y) amount(M) amount(W) amount(D) (T amount(H) amount(M) seconds(S))
amount(u)    digit+ u                            or nothing
```

A duration has something behind its `P`, and behind its `T` if it has one. The test of durations
goes from unit to unit and passes over those that are there; that it finds a word's amounts rests on
every amount ending in a unit of its own (`Leads`). The test of times rounds seconds with a fraction
before it compares them. Rounding keeps what is not below sixty there (`le_ofDecimal`), so that no
more is accepted than the grammar knows.
-/

namespace Conform

/-! ## Rounding -/

namespace Binary64

theorem floorLog2_le {num den k : Nat} (h : num < 2 ^ k * den) : floorLog2 num den ≤ k := by
  have hden : den < 2 ^ (Nat.log2 den + 1) := Nat.lt_log2_self
  have hnum : num < 2 ^ (Nat.log2 den + k + 1) := by
    calc num < 2 ^ k * den := h
      _ ≤ 2 ^ k * 2 ^ (Nat.log2 den + 1) := Nat.mul_le_mul_left _ (Nat.le_of_lt hden)
      _ = 2 ^ (Nat.log2 den + k + 1) := by rw [← Nat.pow_add]; congr 1; omega
  have hlog : Nat.log2 num < Nat.log2 den + k + 1 := by
    by_cases hzero : num = 0
    · rw [hzero, Nat.log2_zero]
      omega
    · exact (Nat.log2_lt hzero).mpr hnum
  dsimp only [floorLog2]
  split <;> omega

theorem scaled_of_neg (num den : Nat) {shift : Int} (h : shift < 0) :
    scaled num den shift = (num * 2 ^ (-shift).toNat, den) := by
  rw [scaled, if_neg (by omega)]
  rfl

/-- A mantissa of so many units of a negative exponent is worth at least so much. -/
theorem le_magnitude {n m s : Nat} (h : n * 2 ^ s ≤ m) {e : Int} (he : e < 0)
    (hs : (-e).toNat = s) : (n : Rat) ≤ magnitude m e := by
  have hpos : (0 : Rat) < 2 ^ s := by positivity
  have hle : (n : Rat) * 2 ^ s ≤ m := by exact_mod_cast h
  rw [magnitude, if_neg (by omega), hs, Rat.mkRat_eq_div]
  simpa [le_div_iff₀ hpos] using hle

/-- A mantissa with a negative exponent keeps its value when it is carried. -/
theorem le_assemble {n m s : Nat} (h : n * 2 ^ s ≤ m) {e : Int} (he : e + 1 < 0)
    (hs : (-e).toNat = s) :
    ∃ q, (Number.real (assemble false m e)).extent = .point q ∧ (n : Rat) ≤ q := by
  unfold assemble
  by_cases hcarry : m = mantissaBound
  · have hhalf : n * 2 ^ (s - 1) ≤ m / 2 := by
      rw [Nat.le_div_iff_mul_le (by omega), Nat.mul_assoc, ← Nat.pow_succ,
        Nat.succ_eq_add_one, Nat.sub_add_cancel (by omega)]
      exact h
    rw [if_pos hcarry]
    dsimp only
    rw [if_neg (by unfold maxExponent; omega)]
    exact ⟨_, rfl, le_magnitude hhalf he (by omega)⟩
  · rw [if_neg hcarry]
    dsimp only
    rw [if_neg (by unfold maxExponent; omega)]
    exact ⟨_, rfl, le_magnitude h (by omega) hs⟩

/-- Rounding a fraction below 128 does not pass an integer. -/
theorem le_roundRatio {n num den : Nat} (hpos : 0 < num) (hle : n * den ≤ num)
    (hsmall : num < 2 ^ 7 * den) :
    ∃ q, (Number.real (roundRatio false num den)).extent = .point q ∧ (n : Rat) ≤ q := by
  have hlog : floorLog2 num den ≤ 7 := floorLog2_le hsmall
  have hden : 0 < den := by omega
  have hneg : max (floorLog2 num den - 52) minExponent + 1 < 0 := by
    unfold minExponent
    omega
  rw [roundRatio, if_neg (by omega)]
  dsimp only
  rw [scaled_of_neg num den (by omega)]
  refine le_assemble (Nat.le_trans ?_ (le_divideToEven _ den)) hneg rfl
  rw [Nat.le_div_iff_mul_le hden, Nat.mul_right_comm]
  exact Nat.mul_le_mul_right _ hle

/-- A number of decimal digits that is an integer or more, and less than a hundred, is that integer
or more when it is rounded. -/
theorem le_ofDecimal {n digits places : Nat} (hn : 0 < n) (hplaces : 0 < places)
    (hle : n * 10 ^ places ≤ digits) (hsmall : digits < 100 * 10 ^ places) :
    ∃ q, (Number.real (ofDecimal false digits (-places))).extent = .point q ∧ (n : Rat) ≤ q := by
  have hten : 0 < 10 ^ places := Nat.pow_pos (by omega)
  have hdigits : 10 ^ places ≤ digits := Nat.le_trans (Nat.le_mul_of_pos_left _ hn) hle
  have hlong : ¬ decimalLength digits ≤ places := fun h =>
    absurd ((Nat.length_toDigits_le_iff (by omega) hplaces).mp h) (by omega)
  have hshort : decimalLength digits ≤ places + 2 :=
    (Nat.length_toDigits_le_iff (by omega) (by omega)).mpr (by rw [Nat.pow_add]; omega)
  rw [ofDecimal, if_neg (by omega)]
  dsimp only
  rw [if_neg (by omega), if_neg (by omega), if_neg (by omega), Int.neg_neg, Int.toNat_natCast]
  exact le_roundRatio (by omega) hle (Nat.lt_of_lt_of_le hsmall (Nat.mul_le_mul_right _ (by omega)))

end Binary64

/-! ## The value of a row of digits -/

theorem digitValue_lt (c : Char) : (digitValue? c).getD 0 < 10 := by
  unfold digitValue?
  split_ifs with hbasic hdigit
  · have hlast : c.toNat ≤ 57 := by
      simp only [Char.isDigit, Bool.and_eq_true, decide_eq_true_eq] at hdigit
      exact UInt32.le_iff_toNat_le.mp hdigit.2
    rw [Option.getD_some]
    omega
  · rw [Option.getD_none]
    omega
  · cases hzero : digitZeros.find? fun z => z ≤ c.toNat && c.toNat < z + 10 with
    | none => simp
    | some z =>
      have hz := List.find?_some hzero
      simp only [Bool.and_eq_true, decide_eq_true_eq] at hz
      rw [Option.map_some, Option.getD_some]
      omega

theorem foldl_decimal (n : Nat) (cs : List Char) :
    cs.foldl (fun n c => 10 * n + (digitValue? c).getD 0) n =
      n * 10 ^ cs.length + decimalValue cs := by
  induction cs generalizing n with
  | nil => simp [decimalValue]
  | cons c cs ih =>
    rw [decimalValue, List.foldl_cons, List.foldl_cons, ih, ih, List.length_cons, Nat.pow_succ]
    ring

theorem decimalValue_append (whole fraction : List Char) :
    decimalValue (whole ++ fraction) =
      decimalValue whole * 10 ^ fraction.length + decimalValue fraction := by
  rw [decimalValue, List.foldl_append, foldl_decimal, ← decimalValue]

theorem decimalValue_lt (cs : List Char) : decimalValue cs < 10 ^ cs.length := by
  induction cs with
  | nil => simp [decimalValue]
  | cons c cs ih =>
    have hfirst := digitValue_lt c
    have hsplit := decimalValue_append [c] cs
    rw [List.singleton_append] at hsplit
    rw [hsplit, List.length_cons, Nat.pow_succ]
    have hone : decimalValue [c] = (digitValue? c).getD 0 := by simp [decimalValue]
    rw [hone]
    nlinarith [Nat.mul_le_mul_right (10 ^ cs.length) (Nat.le_of_lt_succ hfirst)]

namespace Format

open Grammar

variable {cs : List Char}

/-! ## Times -/

/-- Two digits whose value keeps a bound. -/
def pair (digit : Char → Bool) (most : Nat) : Language Char :=
  row digit 2 ⊓ {cs | decimalValue cs ≤ most}

/-- A period and the digits of a fraction. -/
def fraction (digit : Char → Bool) : Language Char := sign '.' * rows digit 1

/-- Seconds below sixty, with or without a fraction. -/
def seconds (digit : Char → Bool) : Language Char := pair digit 59 * (1 + fraction digit)

/-- An hour, a minute, and seconds of a given form. -/
def clock (digit : Char → Bool) (S : Language Char) : Language Char :=
  pair digit 23 * (sign ':' * (pair digit 59 * (sign ':' * S)))

/-- The words of times. -/
def time (digit : Char → Bool) : Language Char := clock digit (seconds digit)

/-- Seconds and the digits of their fraction are rounded to less than sixty. -/
def RoundsBelow (whole digits : List Char) : Prop :=
  (Number.real (.ofDecimal false (decimalValue (whole ++ digits)) (-digits.length))).lt
    (.int 60) = true

/-- Seconds that stay below sixty when they are rounded to the binary format. -/
def roundedBelow : Language Char :=
  {cs | ∀ whole digits, whole.length = 2 → cs = whole ++ '.' :: digits → RoundsBelow whole digits}

theorem mem_pair {digit : Char → Bool} {most : Nat} :
    cs ∈ pair digit most ↔ cs ∈ row digit 2 ∧ decimalValue cs ≤ most := Iff.rfl

theorem mem_fraction {digit : Char → Bool} :
    cs ∈ fraction digit ↔ ∃ digits ∈ rows digit 1, cs = '.' :: digits := by
  rw [fraction, mem_sign_mul]

theorem behind_eq_some {c : Char} {r : List Char} : behind c cs = some r ↔ cs = c :: r := by
  cases cs with
  | nil => simp [behind]
  | cons d cs => simp [behind]

theorem anyNumber?_eq_some {count n : Nat} :
    anyNumber? count cs = some n ↔ cs ∈ row isDecimalDigit count ∧ decimalValue cs = n := by
  simp [anyNumber?, mem_row]

/-- Two digits and what stands behind them. -/
theorem splitAfter_append {n : Nat} {a b : List Char} (h : a.length = n) :
    splitAfter n (a ++ b) = (a, b) := by
  rw [splitAfter, List.take_left' h, List.drop_left' h]

theorem readMinutes_eq_some {hour minute : Nat} {r : List Char} :
    readMinutes cs = some (hour, minute, r) ↔
      ∃ a ∈ row isDecimalDigit 2, ∃ b ∈ row isDecimalDigit 2, decimalValue a = hour ∧
        decimalValue b = minute ∧ cs = a ++ ':' :: (b ++ ':' :: r) := by
  constructor
  · intro h
    simp only [readMinutes, splitAfter, Option.bind_eq_bind, Option.bind_eq_some_iff,
      anyNumber?_eq_some, behind_eq_some, Option.pure_def, Option.some.injEq, Prod.mk.injEq] at h
    obtain ⟨_, ⟨ha, rfl⟩, r₁, hr₁, _, ⟨hb, rfl⟩, r₂, hr₂, rfl, rfl, rfl⟩ := h
    refine ⟨_, ha, _, hb, rfl, rfl, ?_⟩
    rw [← hr₂, List.take_append_drop, ← hr₁, List.take_append_drop]
  · rintro ⟨a, ha, b, hb, rfl, rfl, rfl⟩
    simp only [readMinutes, splitAfter_append ha.1, splitAfter_append hb.1,
      anyNumber?_eq_some.mpr ⟨ha, rfl⟩, anyNumber?_eq_some.mpr ⟨hb, rfl⟩, behind_eq_some.mpr rfl,
      Option.bind_eq_bind, Option.bind_some, Option.pure_def]

/-- Sixty seconds and more are not rounded below sixty. -/
theorem le_of_rounded {whole digits : List Char} (hwhole : whole.length = 2)
    (hdigits : 0 < digits.length) (h : RoundsBelow whole digits) : decimalValue whole ≤ 59 := by
  by_contra hlarge
  have hten : 0 < 10 ^ digits.length := Nat.pow_pos (by omega)
  have hwhole' := decimalValue_lt whole
  have hlow : 60 * 10 ^ digits.length ≤ decimalValue (whole ++ digits) := by
    rw [decimalValue_append]
    exact Nat.le_add_right_of_le (Nat.mul_le_mul_right _ (by omega))
  have hhigh : decimalValue (whole ++ digits) < 100 * 10 ^ digits.length := by
    have hall := decimalValue_lt (whole ++ digits)
    rw [List.length_append, hwhole, Nat.pow_add] at hall
    exact hall
  obtain ⟨q, hq, hle⟩ := Binary64.le_ofDecimal (by omega) hdigits hlow hhigh
  rw [RoundsBelow, Number.lt, hq] at h
  simp only [Number.extent, Extent.lt, decide_eq_true_eq] at h
  exact absurd h (not_lt.mpr (by exact_mod_cast hle))

/-- Seconds without a fraction. -/
theorem isSeconds_of_whole (h : cs ∈ row isDecimalDigit 2) :
    isSeconds cs = decide (decimalValue cs < 60) := by
  have hall := splitAfter_append (b := []) h.1
  rw [List.append_nil] at hall
  rw [isSeconds, hall]
  dsimp only
  rw [anyNumber?_eq_some.mpr ⟨h, rfl⟩]

/-- Seconds with a fraction. -/
theorem isSeconds_of_fraction {whole digits : List Char} (hwhole : whole ∈ row isDecimalDigit 2)
    (hdigits : digits ∈ rows isDecimalDigit 1) : isSeconds (whole ++ '.' :: digits) =
      (Number.real (.ofDecimal false (decimalValue (whole ++ digits)) (-digits.length))).lt
        (.int 60) := by
  have hsome : digits.isEmpty = false :=
    List.isEmpty_eq_false_iff.mpr (List.length_pos_iff.mp hdigits.1)
  rw [isSeconds, splitAfter_append hwhole.1]
  dsimp only
  rw [anyNumber?_eq_some.mpr ⟨hwhole, rfl⟩]
  simp only [hsome, List.all_eq_true.mpr hdigits.2, Bool.not_false, Bool.true_and]

theorem isSeconds_cases : isSeconds cs = true ↔
    cs ∈ pair isDecimalDigit 59 ∨ ∃ whole ∈ row isDecimalDigit 2,
      ∃ digits ∈ rows isDecimalDigit 1, RoundsBelow whole digits ∧ cs = whole ++ '.' :: digits := by
  constructor
  · intro h
    rw [isSeconds] at h
    dsimp only [splitAfter] at h
    split at h
    · cases h
    · next n hread =>
      obtain ⟨hwhole, rfl⟩ := anyNumber?_eq_some.mp hread
      have hcs := List.take_append_drop 2 cs
      split at h
      · next hrest =>
        rw [hrest, List.append_nil] at hcs
        rw [hcs] at h hwhole
        exact .inl ⟨hwhole, Nat.le_of_lt_succ (by simpa using h)⟩
      · next digits hrest =>
        rw [hrest] at hcs
        simp only [Bool.and_eq_true, Bool.not_eq_true', List.isEmpty_eq_false_iff,
          List.all_eq_true] at h
        obtain ⟨⟨hsome, hdigits⟩, hrounded⟩ := h
        exact .inr ⟨cs.take 2, hwhole, digits, ⟨List.length_pos_iff.mpr hsome, hdigits⟩, hrounded,
          hcs.symm⟩
      · cases h
  · rintro (⟨hwhole, hmost⟩ | ⟨whole, hwhole, digits, hdigits, hrounded, rfl⟩)
    · rw [isSeconds_of_whole hwhole, decide_eq_true_eq]
      exact Nat.lt_succ_of_le hmost
    · rw [isSeconds_of_fraction hwhole hdigits]
      exact hrounded

theorem isSeconds_iff : isSeconds cs = true ↔ cs ∈ seconds isDecimalDigit ⊓ roundedBelow := by
  rw [isSeconds_cases, mem_inf, seconds, Language.mem_mul]
  constructor
  · rintro (⟨hwhole, hmost⟩ | ⟨whole, hwhole, digits, hdigits, hrounded, rfl⟩)
    · refine ⟨⟨cs, ⟨hwhole, hmost⟩, [], .inl rfl, List.append_nil cs⟩, ?_⟩
      rintro whole digits htwo rfl
      have hlength := hwhole.1
      rw [List.length_append, List.length_cons, htwo] at hlength
      omega
    · refine ⟨⟨whole, ⟨hwhole, le_of_rounded hwhole.1 hdigits.1 hrounded⟩, '.' :: digits,
        .inr (mem_fraction.mpr ⟨digits, hdigits, rfl⟩), rfl⟩, ?_⟩
      intro whole' digits' htwo heq
      obtain ⟨rfl, htail⟩ := List.append_inj heq (hwhole.1.trans htwo.symm)
      rwa [← (List.cons.inj htail).2]
  · rintro ⟨⟨whole, hwhole, rest, hrest | hrest, rfl⟩, hrounded⟩
    · obtain rfl := (Language.mem_one rest).mp hrest
      exact .inl (by rwa [List.append_nil])
    · obtain ⟨digits, hdigits, rfl⟩ := mem_fraction.mp hrest
      exact .inr ⟨whole, hwhole.1, digits, hdigits, hrounded whole digits hwhole.1.1 rfl, rfl⟩

theorem isTimeBody_iff :
    isTimeBody cs = true ↔ cs ∈ clock isDecimalDigit (seconds isDecimalDigit ⊓ roundedBelow) := by
  simp only [clock, mem_mul_sign_mul, mem_pair]
  constructor
  · intro h
    unfold isTimeBody at h
    split at h
    · next hour minute r hread =>
      obtain ⟨a, ha, b, hb, rfl, rfl, rfl⟩ := readMinutes_eq_some.mp hread
      simp only [Bool.and_eq_true, decide_eq_true_eq] at h
      obtain ⟨⟨hhour, hminute⟩, hseconds⟩ := h
      exact ⟨a, ⟨ha, hhour⟩, _, ⟨b, ⟨hb, hminute⟩, r, isSeconds_iff.mp hseconds, rfl⟩, rfl⟩
    · cases h
  · rintro ⟨a, ⟨ha, hhour⟩, _, ⟨b, ⟨hb, hminute⟩, r, hseconds, rfl⟩, rfl⟩
    rw [isTimeBody, readMinutes_eq_some.mpr ⟨a, ha, b, hb, rfl, rfl, rfl⟩]
    simp only [hhour, hminute, isSeconds_iff.mpr hseconds, decide_true, Bool.and_self]

/-! ## Durations -/

/-- A number and its unit, or nothing. -/
def amount (digit : Char → Bool) (unit : Char) : Language Char :=
  1 + rows digit 1 * sign unit

/-- A number of seconds, with or without a fraction, and its unit, or nothing. -/
def amountOfSeconds (digit : Char → Bool) : Language Char :=
  1 + rows digit 1 * ((1 + fraction digit) * sign 'S')

/-- Texts that are not empty. -/
def something : Language Char := {cs | cs ≠ []}

/-- Hours, minutes and seconds, each of which may be left out. -/
def amountsOfTime (digit : Char → Bool) : Language Char :=
  amount digit 'H' * (amount digit 'M' * amountOfSeconds digit)

/-- Years, months, weeks and days, each of which may be left out, and units of a day behind a `T`,
if there are some. -/
def amounts (digit : Char → Bool) : Language Char :=
  amount digit 'Y' * (amount digit 'M' * (amount digit 'W' * (amount digit 'D' *
    (1 + sign 'T' * (amountsOfTime digit ⊓ something)))))

/-- The words of durations. -/
def duration (digit : Char → Bool) : Language Char := sign 'P' * (amounts digit ⊓ something)

/-- The first character behind the digits in front of a word is one of a few. -/
def Leads (units : List Char) (L : Language Char) : Prop :=
  ∀ cs ∈ L, ∀ c r, cs.dropWhile isDecimalDigit = c :: r → c ∈ units

/-- Words begin with a digit. -/
def Numeric (L : Language Char) : Prop := ∀ cs ∈ L, ∀ c r, cs = c :: r → isDecimalDigit c = true

section

variable {L M : Language Char} {unit : Char} {units : List Char}

/-- Digits end where another character stands. -/
theorem digits_append {digits r : List Char} {c : Char} (h : ∀ d ∈ digits, isDecimalDigit d = true)
    (hc : isDecimalDigit c = false) :
    (digits ++ c :: r).takeWhile isDecimalDigit = digits ∧
      (digits ++ c :: r).dropWhile isDecimalDigit = c :: r := by
  rw [List.takeWhile_append_of_pos h, List.dropWhile_append_of_pos h]
  simp [hc]

/-- What stands in front of another character is a row of digits. -/
theorem rows_append_dropWhile (h : (cs.takeWhile isDecimalDigit).isEmpty = false) :
    ∃ digits ∈ rows isDecimalDigit 1, cs = digits ++ cs.dropWhile isDecimalDigit := by
  refine ⟨cs.takeWhile isDecimalDigit, ⟨?_, fun c hc => List.mem_takeWhile_imp hc⟩, ?_⟩
  · exact List.length_pos_iff.mpr (List.isEmpty_eq_false_iff.mp h)
  · rw [List.takeWhile_append_dropWhile]

theorem isEmpty_of_mem_rows {digits : List Char} (h : digits ∈ rows isDecimalDigit 1) :
    digits.isEmpty = false :=
  List.isEmpty_eq_false_iff.mpr (List.length_pos_iff.mp h.1)

theorem afterUnit_eq_some {r : List Char} (hunit : isDecimalDigit unit = false) :
    afterUnit unit cs = some r ↔ ∃ digits ∈ rows isDecimalDigit 1, cs = digits ++ unit :: r := by
  constructor
  · intro h
    unfold afterUnit at h
    split_ifs at h with hnone
    obtain ⟨digits, hdigits, hcs⟩ := rows_append_dropWhile (Bool.eq_false_of_not_eq_true hnone)
    rw [behind_eq_some.mp h] at hcs
    exact ⟨digits, hdigits, hcs⟩
  · rintro ⟨digits, hdigits, rfl⟩
    obtain ⟨htake, hdrop⟩ := digits_append (r := r) hdigits.2 hunit
    rw [afterUnit, htake, hdrop, isEmpty_of_mem_rows hdigits, if_neg Bool.false_ne_true]
    exact behind_eq_some.mpr rfl

theorem mem_amount_mul : cs ∈ amount isDecimalDigit unit * L ↔
    cs ∈ L ∨ ∃ digits ∈ rows isDecimalDigit 1, ∃ r ∈ L, cs = digits ++ unit :: r := by
  rw [amount, add_mul, one_mul, mul_assoc, Language.mem_add, mem_mul_sign_mul]

theorem Leads.one : Leads units 1 := by
  rintro _ rfl c r hc
  cases hc

theorem Leads.sign_mul (hunit : isDecimalDigit unit = false) (h : unit ∈ units) :
    Leads units (sign unit * L) := by
  rintro cs hcs c r hdrop
  obtain ⟨rest, -, rfl⟩ := mem_sign_mul.mp hcs
  rw [List.dropWhile_cons_of_neg (by simp [hunit])] at hdrop
  rwa [← (List.cons.inj hdrop).1]

theorem Leads.add (hL : Leads units L) (hM : Leads units M) : Leads units (L + M) := by
  rintro cs (hcs | hcs)
  · exact hL cs hcs
  · exact hM cs hcs

theorem Leads.rows_mul (h : Leads units L) : Leads units (rows isDecimalDigit 1 * L) := by
  rintro cs hcs c r hdrop
  obtain ⟨digits, hdigits, rest, hrest, rfl⟩ := Language.mem_mul.mp hcs
  rw [List.dropWhile_append_of_pos hdigits.2] at hdrop
  exact h rest hrest c r hdrop

theorem Leads.amount_mul (h : Leads units L) (hunit : isDecimalDigit unit = false) :
    Leads (unit :: units) (amount isDecimalDigit unit * L) := by
  rw [amount, add_mul, one_mul, mul_assoc]
  refine .add (fun cs hcs c r hdrop => ?_) (.rows_mul (.sign_mul hunit List.mem_cons_self))
  exact List.mem_cons_of_mem unit (h cs hcs c r hdrop)

theorem Numeric.amount_mul (h : Numeric L) : Numeric (amount isDecimalDigit unit * L) := by
  rintro cs hcs c r rfl
  obtain hcs | ⟨digits, ⟨hone, hdigits⟩, rest, -, heq⟩ := mem_amount_mul.mp hcs
  · exact h _ hcs c r rfl
  · cases digits with
    | nil => cases hone
    | cons d digits =>
      rw [(List.cons.inj heq).1]
      exact hdigits d List.mem_cons_self

/-- Passing over a unit takes an amount away where there is one, and nothing where a later unit
leads. -/
theorem passUnit_mem_iff (hL : Leads units L) (hunit : isDecimalDigit unit = false)
    (hfresh : unit ∉ units) :
    passUnit unit cs ∈ L ↔ cs ∈ amount isDecimalDigit unit * L := by
  rw [passUnit, mem_amount_mul]
  cases hafter : afterUnit unit cs with
  | none =>
    refine ⟨.inl, ?_⟩
    rintro (hcs | ⟨digits, hdigits, r, -, hcs⟩)
    · exact hcs
    · rw [(afterUnit_eq_some hunit).mpr ⟨digits, hdigits, hcs⟩] at hafter
      cases hafter
  | some r =>
    obtain ⟨digits, hdigits, hcs⟩ := (afterUnit_eq_some hunit).mp hafter
    refine ⟨fun hr => .inr ⟨digits, hdigits, r, hr, hcs⟩, ?_⟩
    rintro (hmem | ⟨digits', hdigits', r', hr', hcs'⟩)
    · have hdrop : cs.dropWhile isDecimalDigit = unit :: r := by
        rw [hcs, (digits_append hdigits.2 hunit).2]
      exact absurd (hL cs hmem unit r hdrop) hfresh
    · rw [(afterUnit_eq_some hunit).mpr ⟨digits', hdigits', hcs'⟩] at hafter
      rwa [← Option.some.inj hafter]

end

theorem afterSeconds_eq_some {r : List Char} : afterSeconds cs = some r ↔
    ∃ digits ∈ rows isDecimalDigit 1, ∃ f ∈ 1 + fraction isDecimalDigit,
      cs = digits ++ (f ++ 'S' :: r) := by
  constructor
  · intro h
    unfold afterSeconds at h
    split_ifs at h with hnone
    obtain ⟨digits, hdigits, hcs⟩ := rows_append_dropWhile (Bool.eq_false_of_not_eq_true hnone)
    split at h
    · next rest hrest =>
      split_ifs at h with hnone'
      obtain ⟨digits', hdigits', hcs'⟩ :=
        rows_append_dropWhile (Bool.eq_false_of_not_eq_true hnone')
      rw [behind_eq_some.mp h] at hcs'
      rw [hrest, hcs'] at hcs
      exact ⟨digits, hdigits, '.' :: digits', .inr (mem_fraction.mpr ⟨digits', hdigits', rfl⟩), hcs⟩
    · rw [behind_eq_some.mp h] at hcs
      exact ⟨digits, hdigits, [], .inl rfl, hcs⟩
  · rintro ⟨digits, hdigits, f, hf, rfl⟩
    obtain hf | hf := hf
    · obtain rfl := (Language.mem_one f).mp hf
      obtain ⟨htake, hdrop⟩ := digits_append (r := r) hdigits.2
        (by decide : isDecimalDigit 'S' = false)
      rw [List.nil_append, afterSeconds, htake, hdrop, isEmpty_of_mem_rows hdigits,
        if_neg Bool.false_ne_true]
      exact behind_eq_some.mpr rfl
    · obtain ⟨digits', hdigits', rfl⟩ := mem_fraction.mp hf
      obtain ⟨htake, hdrop⟩ := digits_append (r := digits' ++ 'S' :: r) hdigits.2
        (by decide : isDecimalDigit '.' = false)
      obtain ⟨htake', hdrop'⟩ := digits_append (r := r) hdigits'.2
        (by decide : isDecimalDigit 'S' = false)
      rw [List.cons_append, afterSeconds, htake, hdrop, isEmpty_of_mem_rows hdigits,
        if_neg Bool.false_ne_true]
      simp only [htake', hdrop', isEmpty_of_mem_rows hdigits', Bool.false_eq_true, if_false]
      exact behind_eq_some.mpr rfl

theorem mem_amountOfSeconds : cs ∈ amountOfSeconds isDecimalDigit ↔
    cs = [] ∨ ∃ digits ∈ rows isDecimalDigit 1, ∃ f ∈ 1 + fraction isDecimalDigit,
      cs = digits ++ (f ++ ['S']) := by
  rw [amountOfSeconds, Language.mem_add, Language.mem_one, Language.mem_mul]
  refine or_congr_right ⟨?_, ?_⟩
  · rintro ⟨digits, hdigits, _, hrest, rfl⟩
    obtain ⟨f, hf, _, rfl, rfl⟩ := Language.mem_mul.mp hrest
    exact ⟨digits, hdigits, f, hf, rfl⟩
  · rintro ⟨digits, hdigits, f, hf, rfl⟩
    exact ⟨digits, hdigits, _, Language.mem_mul.mpr ⟨f, hf, ['S'], rfl, rfl⟩, rfl⟩

theorem isEmpty_passSeconds :
    (passSeconds cs).isEmpty = true ↔ cs ∈ amountOfSeconds isDecimalDigit := by
  rw [List.isEmpty_iff, mem_amountOfSeconds, passSeconds]
  cases hafter : afterSeconds cs with
  | none =>
    refine ⟨.inl, ?_⟩
    rintro (hcs | hcs)
    · exact hcs
    · rw [afterSeconds_eq_some.mpr hcs] at hafter
      cases hafter
  | some r =>
    constructor
    · rintro rfl
      exact .inr (afterSeconds_eq_some.mp hafter)
    · rintro (rfl | hcs)
      · cases hafter
      · rw [afterSeconds_eq_some.mpr hcs] at hafter
        exact (Option.some.inj hafter).symm

theorem leads_amountOfSeconds : Leads ['.', 'S'] (amountOfSeconds isDecimalDigit) := by
  have hpoint : Leads ['.', 'S'] (fraction isDecimalDigit * sign 'S') := by
    rw [fraction, mul_assoc]
    exact .sign_mul (by decide) (by simp)
  have hunit : Leads ['.', 'S'] (sign 'S') := by
    rw [← mul_one (sign 'S')]
    exact .sign_mul (by decide) (by simp)
  refine .add .one (.rows_mul ?_)
  rw [add_mul, one_mul]
  exact .add hunit hpoint

theorem numeric_amountsOfTime : Numeric (amountsOfTime isDecimalDigit) := by
  have hseconds : Numeric (amountOfSeconds isDecimalDigit) := by
    rintro cs hcs c r rfl
    obtain hcs | ⟨digits, ⟨hone, hdigits⟩, f, -, heq⟩ := mem_amountOfSeconds.mp hcs
    · cases hcs
    · cases digits with
      | nil => cases hone
      | cons d digits =>
        rw [(List.cons.inj heq).1]
        exact hdigits d List.mem_cons_self
  exact .amount_mul (.amount_mul hseconds)

theorem isTimeOfDuration_iff :
    isTimeOfDuration cs = true ↔ cs ∈ amountsOfTime isDecimalDigit ⊓ something := by
  have hminutes : Leads ['M', '.', 'S'] (amount isDecimalDigit 'M' *
      amountOfSeconds isDecimalDigit) := leads_amountOfSeconds.amount_mul (by decide)
  have hpasses : (passSeconds (passUnit 'M' (passUnit 'H' cs))).isEmpty = true ↔
      cs ∈ amountsOfTime isDecimalDigit := by
    rw [isEmpty_passSeconds, passUnit_mem_iff leads_amountOfSeconds (by decide) (by decide),
      passUnit_mem_iff hminutes (by decide) (by decide), amountsOfTime]
  rw [mem_inf, ← hpasses]
  cases cs with
  | nil => exact ⟨fun h => absurd h Bool.false_ne_true, fun h => absurd rfl h.2⟩
  | cons c r =>
    rw [isTimeOfDuration, Bool.and_eq_true]
    exact ⟨fun h => ⟨h.2, List.cons_ne_nil c r⟩,
      fun h => ⟨numeric_amountsOfTime _ (hpasses.mp h.1) c r rfl, h.1⟩⟩

/-- What may stand behind the units of days. -/
theorem leads_timeOfDuration :
    Leads ['T'] (1 + sign 'T' * (amountsOfTime isDecimalDigit ⊓ something)) :=
  .add .one (.sign_mul (by decide) (by simp))

theorem passUnits_mem_iff :
    passUnit 'D' (passUnit 'W' (passUnit 'M' (passUnit 'Y' cs))) ∈
        1 + sign 'T' * (amountsOfTime isDecimalDigit ⊓ something) ↔
      cs ∈ amounts isDecimalDigit := by
  have hdays := leads_timeOfDuration.amount_mul (by decide : isDecimalDigit 'D' = false)
  have hweeks := hdays.amount_mul (by decide : isDecimalDigit 'W' = false)
  have hmonths := hweeks.amount_mul (by decide : isDecimalDigit 'M' = false)
  rw [passUnit_mem_iff leads_timeOfDuration (by decide) (by decide),
    passUnit_mem_iff hdays (by decide) (by decide),
    passUnit_mem_iff hweeks (by decide) (by decide),
    passUnit_mem_iff hmonths (by decide) (by decide), amounts]

theorem isDurationBody_iff : isDurationBody cs = true ↔ cs ∈ duration isDecimalDigit := by
  rw [duration, mem_sign_mul]
  constructor
  · intro h
    unfold isDurationBody at h
    split at h
    · cases h
    · next r hsome =>
      refine ⟨r, ⟨passUnits_mem_iff.mp ?_, hsome⟩, rfl⟩
      split at h
      · next hend =>
        rw [hend]
        exact .inl rfl
      · next rest hrest =>
        rw [hrest]
        exact .inr (mem_sign_mul.mpr ⟨rest, isTimeOfDuration_iff.mp h, rfl⟩)
      · cases h
    · cases h
  · rintro ⟨r, ⟨hamounts, hsome⟩, rfl⟩
    rw [isDurationBody.eq_def]
    split
    · next heq => exact absurd (List.cons.inj heq).2 hsome
    · next r' _ heq =>
      obtain rfl := (List.cons.inj heq).2
      obtain hend | hrest := passUnits_mem_iff.mpr hamounts
      · rw [(Language.mem_one _).mp hend]
      · obtain ⟨rest, htime, hrest⟩ := mem_sign_mul.mp hrest
        rw [hrest]
        exact isTimeOfDuration_iff.mpr htime
    · next _ hother => exact absurd rfl (hother r)

end Format

end Conform
