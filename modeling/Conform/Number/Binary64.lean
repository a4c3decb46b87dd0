/-!
# Conform.Number.Binary64

The 64-bit binary numbers of a decoded document, as exact data:

```
finite s m e  =  (-1)^s * m * 2^e      m < 2^53,  -1074 ≤ e ≤ 971
```

A nonzero finite number is written with the largest mantissa that fits, so that two numbers
with one value have one form. Both zeros are kept apart by their sign. Nothing here rests on
machine arithmetic: a value is a rational, and the two operations that have to round
(reading a decimal and dividing) go through `roundRatio`, round-to-nearest with ties to even.
-/

namespace Conform

/-- A number of the 64-bit binary format. -/
inductive Binary64 where
  | nan
  | infinite (negative : Bool)
  | finite (negative : Bool) (mantissa : Nat) (exponent : Int)
deriving DecidableEq, Repr

namespace Binary64

/-! ## The format -/

/-- Mantissas of the format stay below this bound. -/
def mantissaBound : Nat := Nat.pow 2 53

/-- The exponent of the smallest positive number. -/
def minExponent : Int := -1074

/-- The exponent of the largest finite number. -/
def maxExponent : Int := 971

/-- The zero of a sign. -/
def zero (negative : Bool) : Binary64 := .finite negative 0 minExponent

/-- The exact value of a mantissa and an exponent. -/
def magnitude (mantissa : Nat) (exponent : Int) : Rat :=
  if 0 ≤ exponent then ((mantissa * Nat.pow 2 exponent.toNat : Nat) : Rat)
  else mkRat mantissa (Nat.pow 2 (-exponent).toNat)

/-- The exact value of a finite number, and nothing for the other two kinds. -/
def value? : Binary64 → Option Rat
  | .finite negative m e => some (if negative then -magnitude m e else magnitude m e)
  | _ => none

/-- Whether the number is a zero of either sign. -/
def isZero : Binary64 → Bool
  | .finite _ m _ => m == 0
  | _ => false

/-! ## Rounding -/

/-- The quotient of two naturals to the nearest natural, a half going to the even neighbour. -/
def divideToEven (num den : Nat) : Nat :=
  let q := num / den
  let r := num % den
  if 2 * r < den then q
  else if den < 2 * r then q + 1
  else if q % 2 = 0 then q else q + 1

/-- `num / den` scaled by `2 ^ (-shift)`, as a fraction of naturals. -/
def scaled (num den : Nat) (shift : Int) : Nat × Nat :=
  if 0 ≤ shift then (num, den * Nat.pow 2 shift.toNat)
  else (num * Nat.pow 2 (-shift).toNat, den)

/-- The integer part of the binary logarithm of `num / den`. -/
def floorLog2 (num den : Nat) : Int :=
  let guess : Int := (Nat.log2 num : Int) - (Nat.log2 den : Int)
  let (n, d) := scaled num den guess
  if n < d then guess - 1 else guess

/-- A mantissa below the bound, or the bound itself after a carry, as a number. -/
def assemble (negative : Bool) (mantissa : Nat) (exponent : Int) : Binary64 :=
  let (m, e) := if mantissa = mantissaBound then (mantissa / 2, exponent + 1)
    else (mantissa, exponent)
  if maxExponent < e then .infinite negative else .finite negative m e

/-- The number nearest to `num / den`, ties to the even mantissa. Numbers too large for the
format round to the infinity of their sign. -/
def roundRatio (negative : Bool) (num den : Nat) : Binary64 :=
  if num = 0 then zero negative
  else
    let exponent := max (floorLog2 num den - 52) minExponent
    let (n, d) := scaled num den exponent
    assemble negative (divideToEven n d) exponent

/-- The number nearest to an integer. -/
def ofInt (i : Int) : Binary64 := roundRatio (decide (i < 0)) i.natAbs 1

/-- How many decimal digits a natural has. -/
def decimalLength (n : Nat) : Nat := (Nat.toDigits 10 n).length

/-- The number nearest to `digits * 10 ^ exponent`. Exponents whose outcome is settled by the
number of digits alone are settled so, and no power is formed for them. -/
def ofDecimal (negative : Bool) (digits : Nat) (exponent : Int) : Binary64 :=
  if digits = 0 then zero negative
  else
    let order : Int := (decimalLength digits : Int) + exponent
    if 400 < order then .infinite negative
    else if order < -400 then zero negative
    else if 0 ≤ exponent then roundRatio negative (digits * Nat.pow 10 exponent.toNat) 1
    else roundRatio negative digits (Nat.pow 10 (-exponent).toNat)

/-! ## Division -/

/-- The quotient of two finite numbers as a fraction of naturals, signs aside. -/
def ratio (m₁ : Nat) (e₁ : Int) (m₂ : Nat) (e₂ : Int) : Nat × Nat :=
  if e₂ ≤ e₁ then (m₁ * Nat.pow 2 (e₁ - e₂).toNat, m₂)
  else (m₁, m₂ * Nat.pow 2 (e₂ - e₁).toNat)

/-- The rounded quotient, for a divisor that is not zero. -/
def divide : Binary64 → Binary64 → Binary64
  | .nan, _ => .nan
  | _, .nan => .nan
  | .infinite _, .infinite _ => .nan
  | .infinite s, .finite t _ _ => .infinite (s != t)
  | .finite s _ _, .infinite t => zero (s != t)
  | .finite s m₁ e₁, .finite t m₂ e₂ =>
    let (n, d) := ratio m₁ e₁ m₂ e₂
    roundRatio (s != t) n d

/-- Whether the number is finite and has no fractional part. -/
def isIntegral (x : Binary64) : Bool :=
  match x.value? with
  | some q => q.den == 1
  | none => false

end Binary64

end Conform
