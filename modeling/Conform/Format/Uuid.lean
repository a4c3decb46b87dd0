import Conform.Format.Address

/-!
# Conform.Format.Uuid

Universally unique identifiers: 32 digits in base sixteen, in groups of 8, 4, 4, 4 and 12 with
hyphens between them. The third group begins with the version, 1 to 5, and the fourth with the
variant, 8 to B. A line break may close the text.
-/

namespace Conform

namespace Format

/-- A row of so many digits in base sixteen. -/
def isHexRow (count : Nat) (cs : List Char) : Bool :=
  cs.length == count && cs.all isHexDigit

/-- A digit that names a version. -/
def isVersion (c : Char) : Bool := '1' ≤ c && c ≤ '5'

/-- A digit that names a variant. -/
def isVariant (c : Char) : Bool :=
  c == '8' || c == '9' || c == 'a' || c == 'b' || c == 'A' || c == 'B'

/-- An identifier without the line break behind it. -/
def isUuidBody (cs : List Char) : Bool :=
  match Text.split '-' cs with
  | [a, b, c, d, e] =>
    isHexRow 8 a && isHexRow 4 b && isHexRow 4 c && isHexRow 4 d && isHexRow 12 e
      && (c.head?.map isVersion).getD false && (d.head?.map isVariant).getD false
  | _ => false

/-- A universally unique identifier. -/
def isUuid (cs : List Char) : Bool := Text.closingBreak isUuidBody cs

end Format

end Conform
