/-!
# Conform.Text.Split

Cutting a text at a character, and the line break that may close a text.
-/

namespace Conform

namespace Text

/-- The pieces of a text between the places where a character stands. There is one piece more
than there are such places. -/
def split (sep : Char) : List Char → List (List Char)
  | [] => [[]]
  | c :: cs =>
    if c = sep then [] :: split sep cs
    else
      match split sep cs with
      | [] => [[c]]
      | s :: ss => (c :: s) :: ss

/-- What stands before the first place of a character, and what stands behind it. -/
def cut (sep : Char) (cs : List Char) : List Char × List Char :=
  (cs.takeWhile (· != sep), (cs.dropWhile (· != sep)).drop 1)

/-- A text that a test accepts, or one with a line break behind it. -/
def closingBreak (accepts : List Char → Bool) (cs : List Char) : Bool :=
  accepts cs || (cs.getLast? == some '\n' && accepts cs.dropLast)

theorem split_ne_nil (sep : Char) (cs : List Char) : split sep cs ≠ [] := by
  cases cs with
  | nil => simp [split]
  | cons c cs =>
    rw [split]
    split
    · simp
    · split <;> simp

end Text

end Conform
