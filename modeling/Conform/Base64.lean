/-!
# Conform.Base64

Text that carries bytes, three bytes in four characters of an alphabet of sixty-four. The last
group may carry fewer bytes and is filled up with one or two `=`. `isEncoded` decides the
grammar by counting the filling at the end and the characters in all; `decode` reads the bytes
back, dropping the bits that do not fill a byte.
-/

namespace Conform

namespace Base64

/-- The value of a character of the alphabet. -/
def sextet? (c : Char) : Option Nat :=
  if 'A' ≤ c ∧ c ≤ 'Z' then some (c.toNat - 65)
  else if 'a' ≤ c ∧ c ≤ 'z' then some (c.toNat - 71)
  else if '0' ≤ c ∧ c ≤ '9' then some (c.toNat + 4)
  else if c = '+' then some 62
  else if c = '/' then some 63
  else none

/-- Whether a character belongs to the alphabet. -/
def isLetter (c : Char) : Bool := (sextet? c).isSome

/-- A text without the filling at its end. -/
def body (cs : List Char) : List Char := (cs.reverse.dropWhile (· == '=')).reverse

/-- Whether a text is an encoding: whole groups of four, at most two characters of filling at
the end, and letters before it. -/
def isEncoded (cs : List Char) : Bool :=
  cs.length - (body cs).length ≤ 2 && cs.length % 4 == 0 && (body cs).all isLetter

/-- The bytes of a row of sextets. -/
def bytesOf : List Nat → List Nat
  | a :: b :: c :: d :: rest =>
    (a * 4 + b / 16) :: (b % 16 * 16 + c / 4) :: (c % 4 * 64 + d) :: bytesOf rest
  | [a, b, c] => [a * 4 + b / 16, b % 16 * 16 + c / 4]
  | [a, b] => [a * 4 + b / 16]
  | _ => []

/-- The bytes that an encoding carries. -/
def decode (cs : List Char) : List Nat := bytesOf ((body cs).filterMap sextet?)

end Base64

end Conform
