/-!
# Conform.Text.Utf8

Decoding bytes, given as naturals below 256, as UTF-8. Where the bytes go wrong, the longest
beginning of a well-formed sequence found there is dropped as a whole and marked by `none`; a
byte that begins no sequence is dropped alone. Overlong forms, halves of surrogate pairs and
code points past the last one are never well formed.
-/

namespace Conform

namespace Utf8

/-- An open sequence: how many bytes it still wants, the bits it has so far, and the range of
the byte that comes next. -/
structure Pending where
  following : Nat
  bits : Nat
  low : Nat
  high : Nat

/-- The sequence that a byte outside the basic set opens. -/
def open? (b : Nat) : Option Pending :=
  if 0xc2 ≤ b ∧ b ≤ 0xdf then some ⟨1, b - 0xc0, 0x80, 0xbf⟩
  else if b = 0xe0 then some ⟨2, 0, 0xa0, 0xbf⟩
  else if b = 0xed then some ⟨2, 0xd, 0x80, 0x9f⟩
  else if 0xe1 ≤ b ∧ b ≤ 0xef then some ⟨2, b - 0xe0, 0x80, 0xbf⟩
  else if b = 0xf0 then some ⟨3, 0, 0x90, 0xbf⟩
  else if b = 0xf4 then some ⟨3, 4, 0x80, 0x8f⟩
  else if 0xf1 ≤ b ∧ b ≤ 0xf3 then some ⟨3, b - 0xf0, 0x80, 0xbf⟩
  else none

/-- Decode bytes, a sequence being open or not. -/
def decodeFrom : Option Pending → List Nat → List (Option Char)
  | none, [] => []
  | some _, [] => [none]
  | some p, b :: bs =>
    if p.low ≤ b ∧ b ≤ p.high then
      let bits := p.bits * 64 + (b - 0x80)
      if p.following = 1 then some (Char.ofNat bits) :: decodeFrom none bs
      else decodeFrom (some ⟨p.following - 1, bits, 0x80, 0xbf⟩) bs
    else if b < 0x80 then none :: some (Char.ofNat b) :: decodeFrom none bs
    else
      match open? b with
      | some p => none :: decodeFrom (some p) bs
      | none => none :: none :: decodeFrom none bs
  | none, b :: bs =>
    if b < 0x80 then some (Char.ofNat b) :: decodeFrom none bs
    else
      match open? b with
      | some p => decodeFrom (some p) bs
      | none => none :: decodeFrom none bs

/-- The characters of a row of bytes, `none` standing for what is no character. -/
def decode (bytes : List Nat) : List (Option Char) := decodeFrom none bytes

/-- The text of bytes that are well formed throughout. -/
def decode? (bytes : List Nat) : Option (List Char) := (decode bytes).mapM id

/-- The text of bytes, the replacement character standing for what is no character. -/
def decodeLossy (bytes : List Nat) : List Char :=
  (decode bytes).map fun c => c.getD (Char.ofNat 0xfffd)

end Utf8

end Conform
