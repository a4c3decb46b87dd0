import Conform.Number.Binary64

/-!
# Conform.Number.Shortest

The shortest decimal that reads back as a given binary number. A decimal reads back when it
lies in the interval of reals that round to the number; the ends belong to the interval
exactly when the mantissa is even. For one digit, two digits and so on, the two neighbours of
the number on the grid of that many digits are tried, and the first grid with a hit wins. Of
two hits on one grid the nearer is taken, and of two equally near ones the even.
-/

namespace Conform

namespace Binary64

/-- A decimal `0.d₁d₂… * 10 ^ point`, its digits as one natural. -/
structure Decimal where
  digits : Nat
  point : Int
deriving DecidableEq, Repr

/-- The least `k` with `num / den < 10 ^ k`. -/
def decimalOrder (num den : Nat) : Int :=
  let guess : Int := (decimalLength num : Int) - (decimalLength den : Int)
  let reached := if 0 ≤ guess then den * Nat.pow 10 guess.toNat ≤ num
    else den ≤ num * Nat.pow 10 (-guess).toNat
  if reached then guess + 1 else guess

/-- The reals that round to a number: four times the lower end, the number and the upper end,
in units of `2 ^ (exponent - 2)`. Below a power of two the neighbours are twice as dense. -/
structure Interval where
  lower : Nat
  center : Nat
  upper : Nat
  closed : Bool

/-- The interval of the reals that round to a positive number. -/
def interval (mantissa : Nat) (exponent : Int) : Interval where
  lower := if mantissa = mantissaBound / 2 ∧ minExponent < exponent then 4 * mantissa - 1
    else 4 * mantissa - 2
  center := 4 * mantissa
  upper := 4 * mantissa + 2
  closed := mantissa % 2 = 0

/-- Whether a point lies in the interval, both over one denominator. -/
def Interval.contains (i : Interval) (unit : Nat) (point : Nat) : Bool :=
  if i.closed then i.lower * unit ≤ point && point ≤ i.upper * unit
  else i.lower * unit < point && point < i.upper * unit

/-- The better of the two neighbours of a number on the grid of steps `step`, the number and
its interval being in units of `unit`. -/
def nearestOnGrid (i : Interval) (unit step : Nat) : Option Nat :=
  let low := i.center * unit / step
  let high := low + 1
  let below := i.center * unit - low * step
  let above := high * step - i.center * unit
  match i.contains unit (low * step), i.contains unit (high * step) with
  | true, true =>
    if below < above then some low
    else if above < below then some high
    else if low % 2 = 0 then some low else some high
  | true, false => some low
  | false, true => some high
  | false, false => none

/-- Try the grids from `tried` digits on, `fuel` of them. -/
def searchGrids (i : Interval) (exponent : Int) (order : Int) : Nat → Nat → Decimal
  | 0, tried => ⟨i.center, order + tried⟩
  | fuel + 1, tried =>
    let grid : Int := order - tried
    let shift : Int := exponent - 2
    let unit := (if 0 ≤ shift then Nat.pow 2 shift.toNat else 1)
      * (if 0 ≤ grid then 1 else Nat.pow 10 (-grid).toNat)
    let step := (if 0 ≤ shift then 1 else Nat.pow 2 (-shift).toNat)
      * (if 0 ≤ grid then Nat.pow 10 grid.toNat else 1)
    match nearestOnGrid i unit step with
    | some digits => ⟨digits, order - tried + decimalLength digits⟩
    | none => searchGrids i exponent order fuel (tried + 1)

/-- Drop the zeros at the end of a digit string. -/
def dropZeros : Nat → Nat → Nat
  | 0, digits => digits
  | fuel + 1, digits => if digits % 10 = 0 then dropZeros fuel (digits / 10) else digits

/-- The shortest decimal that reads back as a positive number. Seventeen digits always
suffice. -/
def shortest (mantissa : Nat) (exponent : Int) : Decimal :=
  let (num, den) := scaled mantissa 1 (-exponent)
  let found := searchGrids (interval mantissa exponent) exponent (decimalOrder num den) 17 1
  { found with digits := dropZeros 20 found.digits }

/-! ## Writing -/

/-- The spellings that one kind of output gives to binary numbers: positional notation for
numbers whose decimal point falls after `positionalFrom` and up to `positionalTo` digits, a
fraction part always, and an exponent of at least two digits with its sign otherwise. -/
structure Spelling where
  positionalFrom : Int
  positionalTo : Int
  nan : String
  infinity : String

/-- The exponent of scientific notation. -/
def exponentText (e : Int) : String :=
  let digits := toString e.natAbs
  (if e < 0 then "e-" else "e+") ++ (if digits.length < 2 then "0" ++ digits else digits)

/-- A positive decimal so spelled. -/
def Decimal.text (n : Spelling) (d : Decimal) : String :=
  let digits := toString d.digits
  let count : Int := digits.length
  if n.positionalFrom < d.point ∧ d.point ≤ n.positionalTo then
    if d.point ≤ 0 then "0." ++ String.ofList (List.replicate (-d.point).toNat '0') ++ digits
    else if count ≤ d.point then
      digits ++ String.ofList (List.replicate (d.point - count).toNat '0') ++ ".0"
    else
      let cs := digits.toList
      String.ofList (cs.take d.point.toNat) ++ "." ++ String.ofList (cs.drop d.point.toNat)
  else
    let cs := digits.toList
    let fraction := cs.drop 1
    String.ofList (cs.take 1)
      ++ (if fraction.isEmpty then "" else "." ++ String.ofList fraction)
      ++ exponentText (d.point - 1)

/-- A number so spelled. -/
def text (n : Spelling) : Binary64 → String
  | .nan => n.nan
  | .infinite negative => (if negative then "-" else "") ++ n.infinity
  | .finite negative m e =>
    (if negative then "-" else "") ++ (if m = 0 then "0.0" else (shortest m e).text n)

end Binary64

end Conform
