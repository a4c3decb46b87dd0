import Conform.Text.Utf8

/-!
# Conform.Text.Percent

Percent escapes in a text: `%` and two digits in base sixteen stand for a byte, and a row of
bytes for the characters they encode. A row ends where a character outside the basic set
stands. A percent sign without two such digits stands for itself.
-/

namespace Conform

namespace Percent

/-- The value of a digit in base sixteen. -/
def nibble? (c : Char) : Option Nat :=
  if '0' ≤ c ∧ c ≤ '9' then some (c.toNat - 48)
  else if 'a' ≤ c ∧ c ≤ 'f' then some (c.toNat - 87)
  else if 'A' ≤ c ∧ c ≤ 'F' then some (c.toNat - 55)
  else none

/-- The byte that two digits give. -/
def byte? (a b : Char) : Option Nat := do
  let a ← nibble? a
  let b ← nibble? b
  some (a * 16 + b)

/-- Decode a text behind a row of bytes, the last of them first. -/
def decodeFrom (row : List Nat) (cs : List Char) : List Char :=
  match cs with
  | [] => Utf8.decodeLossy row.reverse
  | '%' :: a :: b :: r =>
    match byte? a b with
    | some n => decodeFrom (n :: row) r
    | none => decodeFrom ('%'.toNat :: row) (a :: b :: r)
  | c :: r =>
    if c.toNat < 128 then decodeFrom (c.toNat :: row) r
    else Utf8.decodeLossy row.reverse ++ c :: decodeFrom [] r
termination_by cs.length

/-- A text with its percent escapes resolved. -/
def decode (cs : List Char) : List Char :=
  if cs.contains '%' then decodeFrom [] cs else cs

end Percent

end Conform
