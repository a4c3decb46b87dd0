import Conform.Text.Ranges

/-!
# Conform.Text.Blank

Blank characters: those that separate words in any script, line and field separators
included. Neither an address nor an identifier of a resource may hold one.
-/

namespace Conform

/-- The code points of blank characters. -/
def blankRanges : Ranges := #[
  0x9, 0xd, 0x1c, 0x20, 0x85, 0x85, 0xa0, 0xa0, 0x1680, 0x1680, 0x2000, 0x200a, 0x2028, 0x2029,
  0x202f, 0x202f, 0x205f, 0x205f, 0x3000, 0x3000]

/-- Whether a character is blank. -/
def isBlank (c : Char) : Bool := blankRanges.has c.toNat

end Conform
