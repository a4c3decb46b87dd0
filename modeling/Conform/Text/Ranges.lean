/-!
# Conform.Text.Ranges

Sets of characters given by a table of ranges: the code points `lo₀, hi₀, lo₁, hi₁, …` in
rising order, both ends of a range belonging to it. Membership is decided by halving the
table.
-/

namespace Conform

/-- A table of ranges of code points, as the two ends of each range in turn. -/
abbrev Ranges := Array Nat

namespace Ranges

/-- Look for a code point among the ranges from number `lo` to number `hi - 1`. -/
def search (table : Ranges) (c : Nat) : Nat → Nat → Nat → Bool
  | 0, _, _ => false
  | fuel + 1, lo, hi =>
    if hi ≤ lo then false
    else
      let mid := (lo + hi) / 2
      if c < table.getD (2 * mid) 0 then search table c fuel lo mid
      else if table.getD (2 * mid + 1) 0 < c then search table c fuel (mid + 1) hi
      else true

/-- Whether a code point lies in one of the ranges. -/
def has (table : Ranges) (c : Nat) : Bool :=
  search table c (table.size + 1) 0 (table.size / 2)

end Ranges

end Conform
