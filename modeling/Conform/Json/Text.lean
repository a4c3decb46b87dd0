import Conform.Json.Basic
import Conform.Number.Shortest
import Conform.Text.Quoted

/-!
# Conform.Json.Text

The two texts of a value. `Json.document?` is an interchange document in the basic character
set, members in order, a space after each comma and colon. `Json.shown?` is how a value stands
in a message: a string as it is, and everything else in the literal form `Json.literal`, in
which the words for the constants are capitalised and strings inside a container are quoted.

Both write an integer in full and a binary number with the fewest digits that read back,
positional from `0.0001` up to sixteen digits. An integer of more than `maxIntegerDigits` digits is
not written, and a value that holds one has neither text.
-/

namespace Conform

namespace Json

/-- The name of the value that was not supplied. -/
def absentName : String := "UNDEFINED"

/-! ## Documents -/

/-- How documents spell binary numbers. -/
def documentNumbers : Binary64.Spelling := ⟨-4, 16, "NaN", "Infinity"⟩

/-- What stands between the parts of a document. -/
structure Layout where
  comma : String
  colon : String

/-- A space after each comma and colon. -/
def Layout.spaced : Layout := ⟨", ", ": "⟩

/-- No space at all. -/
def Layout.compact : Layout := ⟨",", ":"⟩

mutual

/-- A value as a document. -/
def write (l : Layout) : Json → String
  | .absent => escapedText absentName
  | .null => "null"
  | .bool b => if b then "true" else "false"
  | .num (.int i) => toString i
  | .num (.real x) => x.text documentNumbers
  | .str s => escapedText s
  | .arr xs => "[" ++ writeItems l xs ++ "]"
  | .obj ms => "\x7b" ++ writeMembers l ms ++ "\x7d"

/-- Items with commas between them. -/
def writeItems (l : Layout) : List Json → String
  | [] => ""
  | x :: xs => x.write l ++ (if xs.isEmpty then "" else l.comma ++ writeItems l xs)

/-- Members with commas between them. -/
def writeMembers (l : Layout) : List (String × Json) → String
  | [] => ""
  | (k, x) :: ms => escapedText k ++ l.colon ++ x.write l
    ++ (if ms.isEmpty then "" else l.comma ++ writeMembers l ms)

end

/-- A value as a document with spaces, if it can be written. -/
def document? (j : Json) : Option String :=
  if j.numeralsFit then some (j.write .spaced) else none

/-! ## Messages -/

/-- How messages spell binary numbers. -/
def messageNumbers : Binary64.Spelling := ⟨-4, 16, "nan", "inf"⟩

mutual

/-- A value as a literal. -/
def literal : Json → String
  | .absent => absentName
  | .null => "None"
  | .bool b => if b then "True" else "False"
  | .num (.int i) => toString i
  | .num (.real x) => x.text messageNumbers
  | .str s => quotedText s
  | .arr xs => "[" ++ literalItems xs ++ "]"
  | .obj ms => "\x7b" ++ literalMembers ms ++ "\x7d"

/-- Literals with commas between them. -/
def literalItems : List Json → String
  | [] => ""
  | x :: xs => x.literal ++ (if xs.isEmpty then "" else ", " ++ literalItems xs)

/-- Members as literals with commas between them. -/
def literalMembers : List (String × Json) → String
  | [] => ""
  | (k, x) :: ms => quotedText k ++ ": " ++ x.literal
    ++ (if ms.isEmpty then "" else ", " ++ literalMembers ms)

end

/-- A value in the words of a message. -/
def words : Json → String
  | .str s => s
  | j => j.literal

/-- A value as it stands in a message, if it can be written. -/
def shown? (j : Json) : Option String :=
  if j.numeralsFit then some j.words else none

@[simp] theorem shown?_str (s : String) : (Json.str s).shown? = some s := rfl

end Json

end Conform
