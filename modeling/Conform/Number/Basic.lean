import Conform.Number.Binary64

/-!
# Conform.Number.Basic

The numbers of a document: integers without bound, and binary numbers. They compare by exact
value, so that `2 ^ 53 + 1` and the binary number nearest to it differ. Every comparison is
read off one view, `Number.extent`, which sends a number to its place on the real line with
an end added on either side; a NaN has no place and every comparison with it fails.
-/

namespace Conform

/-- A place on the line of rationals with both ends added, or none. -/
inductive Extent where
  | nowhere
  | below
  | point (q : Rat)
  | above
deriving DecidableEq

namespace Extent

/-- Strict order of places. -/
def lt : Extent → Extent → Bool
  | .below, .point _ => true
  | .below, .above => true
  | .point _, .above => true
  | .point p, .point q => decide (p < q)
  | _, _ => false

/-- Two places are one place; what is nowhere is not even where it is itself. -/
def same : Extent → Extent → Bool
  | .below, .below => true
  | .above, .above => true
  | .point p, .point q => decide (p = q)
  | _, _ => false

/-- Order of places. -/
def le (a b : Extent) : Bool := a.lt b || a.same b

end Extent

/-- A number of a document. -/
inductive Number where
  | int (i : Int)
  | real (x : Binary64)
deriving DecidableEq, Repr

namespace Number

/-- Where a number lies. -/
def extent : Number → Extent
  | .int i => .point i
  | .real .nan => .nowhere
  | .real (.infinite true) => .below
  | .real (.infinite false) => .above
  | .real (.finite negative m e) =>
    .point (if negative then -Binary64.magnitude m e else Binary64.magnitude m e)

/-- `a < b` by exact value. -/
def lt (a b : Number) : Bool := a.extent.lt b.extent

/-- `a ≤ b` by exact value. -/
def le (a b : Number) : Bool := a.extent.le b.extent

/-- `a = b` by exact value. -/
def same (a b : Number) : Bool := a.extent.same b.extent

/-- Whether the number is the NaN of the binary format. -/
def isNan : Number → Bool
  | .real .nan => true
  | _ => false

/-- Whether the number has no fractional part. -/
def isIntegral : Number → Bool
  | .int _ => true
  | .real x => x.isIntegral

/-- Whether the number is a zero. -/
def isZero : Number → Bool
  | .int i => i == 0
  | .real x => x.isZero

/-! ## Multiples -/

/-- Why a number cannot be tested for being a multiple. -/
inductive DivisionFault where
  | byZero
  | tooLarge
  | notANumber
deriving DecidableEq, Repr

/-- A number in the binary format, or nothing for an integer beyond its range. -/
def toBinary64? : Number → Option Binary64
  | .real x => some x
  | .int i =>
    match Binary64.ofInt i with
    | .infinite _ => none
    | x => some x

/-- The exact value of a number, for a test that cannot round. -/
def exact : Number → Except DivisionFault Rat
  | .int i => .ok i
  | .real (.finite negative m e) =>
    .ok (if negative then -Binary64.magnitude m e else Binary64.magnitude m e)
  | .real .nan => .error .notANumber
  | .real (.infinite _) => .error .tooLarge

/-- Whether `a / d` is integral as an exact quotient. -/
def isExactMultiple (a d : Number) : Except DivisionFault Bool := do
  let p ← a.exact
  let q ← d.exact
  if q = 0 then .error .byZero else return (p / q).den == 1

/-- Whether `a` is a multiple of `d`. Two integers are tested by remainder. As soon as one is
binary the rounded quotient has to be finite and integral; only where an integer is beyond
the binary format is the quotient formed exactly. -/
def isMultiple (a d : Number) : Except DivisionFault Bool :=
  match a, d with
  | .int i, .int k => if k = 0 then .error .byZero else .ok (i % k == 0)
  | _, _ =>
    match a.toBinary64?, d.toBinary64? with
    | some x, some y =>
      if y.isZero then .error .byZero else .ok (Binary64.divide x y).isIntegral
    | _, _ => a.isExactMultiple d

end Number

end Conform
