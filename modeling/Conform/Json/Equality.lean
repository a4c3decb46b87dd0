import Conform.Json.Basic

/-!
# Conform.Json.Equality

Equality of decoded values. Numbers are equal when their exact values are, however they were
written; a boolean equals no number; the members of an object may come in any order. A NaN
equals nothing, so a value that holds one does not equal itself.

`sameKey` is the coarser relation under which names of a table fall together: there a boolean
counts as the number it stands for, and a NaN, though it equals nothing, is one name.
-/

namespace Conform

namespace Json

mutual

/-- Whether two values are equal as data. -/
def equals : Json → Json → Bool
  | .absent, .absent => true
  | .null, .null => true
  | .bool a, .bool b => a == b
  | .num a, .num b => a.same b
  | .str a, .str b => a == b
  | .arr xs, .arr ys => equalItems xs ys
  | .obj ms, .obj ns => ms.length == ns.length && includedIn ms ns
  | _, _ => false

/-- Whether two lists of values are equal position by position. -/
def equalItems : List Json → List Json → Bool
  | [], [] => true
  | x :: xs, y :: ys => x.equals y && equalItems xs ys
  | _, _ => false

/-- Whether every member has an equal one of its name among the others. -/
def includedIn : List (String × Json) → Members → Bool
  | [], _ => true
  | (k, x) :: ms, ns =>
    (match ns.lookup k with
      | some y => x.equals y
      | none => false) && includedIn ms ns

end

/-- Whether a list of values holds one equal to a given value. -/
def isAmong (v : Json) (allowed : List Json) : Bool := allowed.any v.equals

/-- Whether two positions of a list hold equal values. -/
def hasDuplicates : List Json → Bool
  | [] => false
  | x :: xs => xs.any x.equals || hasDuplicates xs

theorem hasDuplicates_eq_false_iff (xs : List Json) :
    hasDuplicates xs = false ↔ xs.Pairwise fun x y => x.equals y = false := by
  induction xs with
  | nil => simp [hasDuplicates]
  | cons x xs ih => simp [hasDuplicates, List.pairwise_cons, ih]

/-- Whether two values fall together as names of a table. -/
def sameKey (a b : Json) : Bool :=
  match a.numeric?, b.numeric? with
  | some m, some n => m.same n || m.isNan && n.isNan
  | none, none => a.equals b
  | _, _ => false

end Json

end Conform
