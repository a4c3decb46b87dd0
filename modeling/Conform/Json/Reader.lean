import Conform.Json.Basic

/-!
# Conform.Json.Reader

Reading a document. Beside the standard grammar the three words `NaN`, `Infinity` and
`-Infinity` are numbers. A number with a fraction or an exponent is binary, any other one an
integer, of at most `maxIntegerDigits` digits. Of two members with one name the later value
stands at the earlier place. An escape that gives half of a surrogate pair stands for the
replacement character. A document is one value with blanks around it, and nothing else.
-/

namespace Conform

namespace Json

/-- The blanks of the grammar. -/
def isSpacing (c : Char) : Bool := c == ' ' || c == '\t' || c == '\n' || c == '\r'

/-- Drop the blanks in front. -/
def skipSpacing (cs : List Char) : List Char := cs.dropWhile isSpacing

/-! ## Numbers -/

/-- The value of a row of basic digits. -/
def digitsValue (cs : List Char) : Nat := cs.foldl (fun n c => 10 * n + (c.toNat - 48)) 0

/-- A fraction part: a point and at least one digit. -/
def readFraction : List Char → Option (List Char × List Char)
  | '.' :: cs =>
    let digits := cs.takeWhile Char.isDigit
    if digits.isEmpty then none else some (digits, cs.dropWhile Char.isDigit)
  | _ => none

/-- The digits of an exponent after its sign. -/
def readExponentDigits (negative : Bool) (cs : List Char) : Option (Int × List Char) :=
  let digits := cs.takeWhile Char.isDigit
  if digits.isEmpty then none
  else
    let value : Int := digitsValue digits
    some (if negative then -value else value, cs.dropWhile Char.isDigit)

/-- An exponent: its letter, a sign or none, and at least one digit. -/
def readExponent : List Char → Option (Int × List Char)
  | c :: cs =>
    if c == 'e' || c == 'E' then
      match cs with
      | '+' :: r => readExponentDigits false r
      | '-' :: r => readExponentDigits true r
      | r => readExponentDigits false r
    else none
  | [] => none

/-- The integer part of a number: a zero alone, or digits that do not begin with one. -/
def readInteger : List Char → Option (List Char × List Char)
  | [] => none
  | c :: cs =>
    if c == '0' then some (['0'], cs)
    else if c.isDigit then some (c :: cs.takeWhile Char.isDigit, cs.dropWhile Char.isDigit)
    else none

/-- A number after its sign. -/
def readUnsigned (negative : Bool) (cs : List Char) : Option (Number × List Char) := do
  let (whole, rest) ← readInteger cs
  let (fraction, rest) := (readFraction rest).getD ([], rest)
  match readExponent rest with
  | some (e, rest) =>
    some (.real (.ofDecimal negative (digitsValue (whole ++ fraction)) (e - fraction.length)),
      rest)
  | none =>
    if fraction.isEmpty then
      if maxIntegerDigits < whole.length then none
      else
        let value : Int := digitsValue whole
        some (.int (if negative then -value else value), rest)
    else
      some (.real (.ofDecimal negative (digitsValue (whole ++ fraction)) (-fraction.length)),
        rest)

/-- Drop a word in front. -/
def dropWord : List Char → List Char → Option (List Char)
  | [], cs => some cs
  | w :: ws, c :: cs => if w = c then dropWord ws cs else none
  | _ :: _, [] => none

/-- A number with its sign, the words for infinity and NaN among them. -/
def readNumber : List Char → Option (Number × List Char)
  | '-' :: cs =>
    match dropWord "Infinity".toList cs with
    | some r => some (.real (.infinite true), r)
    | none => readUnsigned true cs
  | cs =>
    match dropWord "Infinity".toList cs with
    | some r => some (.real (.infinite false), r)
    | none =>
      match dropWord "NaN".toList cs with
      | some r => some (.real .nan, r)
      | none => readUnsigned false cs

/-! ## Strings -/

/-- The value of a digit in base sixteen. -/
def hexValue? (c : Char) : Option Nat :=
  if '0' ≤ c ∧ c ≤ '9' then some (c.toNat - 48)
  else if 'a' ≤ c ∧ c ≤ 'f' then some (c.toNat - 87)
  else if 'A' ≤ c ∧ c ≤ 'F' then some (c.toNat - 55)
  else none

/-- The code unit of four digits in base sixteen. -/
def readUnit : List Char → Option (Nat × List Char)
  | a :: b :: c :: d :: r => do
    let a ← hexValue? a
    let b ← hexValue? b
    let c ← hexValue? c
    let d ← hexValue? d
    some (((a * 16 + b) * 16 + c) * 16 + d, r)
  | _ => none

/-- Whether a code unit is the first half of a pair. -/
def isLeading (u : Nat) : Bool := 0xd800 ≤ u && u < 0xdc00

/-- Whether a code unit is the second half of a pair. -/
def isTrailing (u : Nat) : Bool := 0xdc00 ≤ u && u < 0xe000

/-- The character of a code unit, the half of a pair standing for the replacement character. -/
def unitChar (u : Nat) : Char :=
  if isLeading u || isTrailing u then Char.ofNat 0xfffd else Char.ofNat u

/-- The character of an escape by code unit, with the second half of a pair if there is one. -/
def readUnitEscape (cs : List Char) : Option (Char × List Char) := do
  let (u, rest) ← readUnit cs
  if isLeading u then
    match rest with
    | '\\' :: 'u' :: more =>
      match readUnit more with
      | some (v, r) =>
        if isTrailing v then
          some (Char.ofNat (0x10000 + (u - 0xd800) * 0x400 + (v - 0xdc00)), r)
        else some (unitChar u, rest)
      | none => some (unitChar u, rest)
    | _ => some (unitChar u, rest)
  else some (unitChar u, rest)

/-- The character of a short escape. -/
def shortEscape? (c : Char) : Option Char :=
  if c = '"' ∨ c = '\\' ∨ c = '/' then some c
  else if c = 'n' then some '\n'
  else if c = 'r' then some '\r'
  else if c = 't' then some '\t'
  else if c = 'b' then some (Char.ofNat 8)
  else if c = 'f' then some (Char.ofNat 12)
  else none

/-- The rest of a string after its opening quote. Control characters have to be escaped. -/
def readString : Nat → List Char → List Char → Option (String × List Char)
  | 0, _, _ => none
  | fuel + 1, done, cs =>
    match cs with
    | [] => none
    | c :: r =>
      if c = '"' then some (String.ofList done.reverse, r)
      else if c = '\\' then
        match r with
        | [] => none
        | e :: r' =>
          if e = 'u' then
            match readUnitEscape r' with
            | some (d, r'') => readString fuel (d :: done) r''
            | none => none
          else
            match shortEscape? e with
            | some d => readString fuel (d :: done) r'
            | none => none
      else if c.toNat < 32 then none
      else readString fuel (c :: done) r

/-! ## Values -/

/-- The constants that are words. -/
def readWord (cs : List Char) : Option (Json × List Char) :=
  match dropWord "null".toList cs with
  | some r => some (.null, r)
  | none =>
    match dropWord "true".toList cs with
    | some r => some (.bool true, r)
    | none => (dropWord "false".toList cs).map fun r => (.bool false, r)

mutual

/-- A value at the front. Each call uses one unit of fuel, and reads at least one character
before it calls on. -/
def readValue : Nat → List Char → Option (Json × List Char)
  | 0, _ => none
  | fuel + 1, cs =>
    match cs with
    | [] => none
    | c :: r =>
      if c = '"' then (readString (r.length + 1) [] r).map fun (s, r) => (.str s, r)
      else if c = '[' then
        match skipSpacing r with
        | ']' :: r => some (.arr [], r)
        | r => readItems fuel [] r
      else if c = '\x7b' then
        match skipSpacing r with
        | '\x7d' :: r => some (.obj [], r)
        | r => readMembers fuel [] r
      else
        match readWord cs with
        | some w => some w
        | none => (readNumber cs).map fun (n, r) => (.num n, r)

/-- The items of an array from the next one on. -/
def readItems : Nat → List Json → List Char → Option (Json × List Char)
  | 0, _, _ => none
  | fuel + 1, done, cs =>
    match readValue fuel cs with
    | none => none
    | some (x, r) =>
      match skipSpacing r with
      | ',' :: r => readItems fuel (x :: done) (skipSpacing r)
      | ']' :: r => some (.arr (x :: done).reverse, r)
      | _ => none

/-- The members of an object from the next one on. -/
def readMembers : Nat → Members → List Char → Option (Json × List Char)
  | 0, _, _ => none
  | fuel + 1, done, cs =>
    match cs with
    | '"' :: r =>
      match readString (r.length + 1) [] r with
      | none => none
      | some (k, r) =>
        match skipSpacing r with
        | ':' :: r =>
          match readValue fuel (skipSpacing r) with
          | none => none
          | some (x, r) =>
            match skipSpacing r with
            | ',' :: r => readMembers fuel (Table.put done k x) (skipSpacing r)
            | '\x7d' :: r => some (.obj (Table.put done k x), r)
            | _ => none
        | _ => none
    | _ => none

end

/-- The value of a whole document. -/
def ofChars? (cs : List Char) : Option Json :=
  match readValue (cs.length + 1) (skipSpacing cs) with
  | some (j, r) => if (skipSpacing r).isEmpty then some j else none
  | none => none

/-- The value that a text gives as a document. -/
def ofText? (s : String) : Option Json := ofChars? s.toList

end Json

end Conform
