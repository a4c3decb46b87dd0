import Conform.Text.Case
import Conform.Text.Word
import Conform.Text.Digit
import Conform.Text.Blank

/-!
# Conform.Pattern.Regex

Patterns as trees. A leaf tests one character or one position, and carries the options that
were in force where it was written: letters alike in case or not, the basic character set or
all scripts, and whether a dot covers a line break. So a tree means the same wherever it
stands.
-/

namespace Conform

namespace Pattern

/-! ## Characters -/

/-- The three classes of characters that have an escape of their own. -/
inductive CharClass where
  | digit
  | blank
  | word
deriving DecidableEq, Repr

/-- What a set of characters is made of. Code points need not be characters. -/
inductive SetItem where
  | one (c : Nat)
  | range (lo hi : Nat)
  | cls (k : CharClass) (negated : Bool)
deriving DecidableEq, Repr

/-- The options that a leaf carries. -/
structure Options where
  ignoreCase : Bool := false
  basic : Bool := false
deriving DecidableEq, Repr

/-- Whether a class holds a code point, in the basic character set or in all scripts. -/
def CharClass.has (k : CharClass) (basic : Bool) (c : Nat) : Bool :=
  match k with
  | .digit => if basic then 48 ≤ c && c ≤ 57 else isDecimalDigit (Char.ofNat c)
  | .blank =>
    if basic then c == 32 || (9 ≤ c && c ≤ 13) else isBlank (Char.ofNat c)
  | .word => if basic then isAsciiWord c else isWord c

/-- The small letter of a code point under the options. -/
def Options.small (o : Options) (c : Nat) : Nat :=
  if o.basic then if 65 ≤ c && c ≤ 90 then c + 32 else c else toSmall c

/-- The code points that count as a given one under the options. -/
def Options.variants (o : Options) (c : Nat) : List Nat :=
  if !o.ignoreCase then [c]
  else if o.basic then
    if 65 ≤ c && c ≤ 90 then [c, c + 32]
    else if 97 ≤ c && c ≤ 122 then [c, c - 32]
    else [c]
  else caseVariants c

/-- Whether an item holds one of the variants of a code point. -/
def SetItem.has (o : Options) (variants : List Nat) (c : Nat) : SetItem → Bool
  | .one d => variants.contains d
  | .range lo hi => variants.any fun v => lo ≤ v && v ≤ hi
  | .cls k negated => k.has o.basic c != negated

/-! ## Trees -/

/-- Tests of a position. -/
inductive Anchor where
  /-- The beginning of the text. -/
  | textStart
  /-- The beginning of a line. -/
  | lineStart
  /-- The end of the text, or before a line break that ends it. -/
  | textEnd
  /-- The end of a line. -/
  | lineEnd
  /-- The very end of the text. -/
  | veryEnd
  /-- Between a word character and another one. -/
  | boundary (basic : Bool)
  /-- Where there is no boundary. -/
  | noBoundary (basic : Bool)
deriving DecidableEq, Repr

/-- How a repetition chooses its count. -/
inductive Manner where
  /-- As many as possible, giving back when what follows fails. -/
  | greedy
  /-- As few as possible, taking more when what follows fails. -/
  | lazy
  /-- As many as possible, giving nothing back. -/
  | possessive
deriving DecidableEq, Repr

/-- The lengths that a pattern can match; no upper bound where there is none. -/
structure Width where
  least : Nat
  most : Option Nat
deriving DecidableEq, Repr

/-- A pattern. -/
inductive Regex where
  | empty
  | any (lineBreaks : Bool)
  | set (negated : Bool) (items : List SetItem) (options : Options)
  | anchor (a : Anchor)
  | seq (a b : Regex)
  | alt (a b : Regex)
  | group (index : Nat) (body : Regex)
  | repetition (manner : Manner) (least : Nat) (most : Option Nat) (body : Regex)
  | atomic (body : Regex)
  | look (behind negated : Bool) (body : Regex)
  | backref (index : Nat) (options : Options) (width : Width)
  | choice (index : Nat) (yes no : Regex)
deriving Repr

namespace Regex

/-! ## Width -/

/-- Lengths of one pattern after another. -/
def joinWidths (a b : Width) : Width where
  least := a.least + b.least
  most := do some ((← a.most) + (← b.most))

/-- Lengths of either of two patterns. -/
def eitherWidth (a b : Width) : Width where
  least := min a.least b.least
  most := do some (max (← a.most) (← b.most))

/-- Lengths of a repeated pattern. -/
def repeatedWidth (w : Width) (least : Nat) (most : Option Nat) : Width where
  least := w.least * least
  most :=
    match w.most, most with
    | some 0, _ => some 0
    | _, some 0 => some 0
    | some n, some k => some (n * k)
    | _, _ => none

/-- The lengths that a pattern can match. -/
def width : Regex → Width
  | .empty => ⟨0, some 0⟩
  | .any _ => ⟨1, some 1⟩
  | .set _ _ _ => ⟨1, some 1⟩
  | .anchor _ => ⟨0, some 0⟩
  | .seq a b => joinWidths a.width b.width
  | .alt a b => eitherWidth a.width b.width
  | .group _ body => body.width
  | .repetition _ least most body => repeatedWidth body.width least most
  | .atomic body => body.width
  | .look _ _ _ => ⟨0, some 0⟩
  | .backref _ _ w => w
  | .choice _ yes no => eitherWidth yes.width no.width

/-- A look behind goes back at most so far. -/
def maxLookBehind : Nat := Nat.pow 2 32 - 1

/-- Whether every look behind has one length and not too large a one. -/
def looksBehindFixed : Regex → Bool
  | .seq a b => a.looksBehindFixed && b.looksBehindFixed
  | .alt a b => a.looksBehindFixed && b.looksBehindFixed
  | .group _ body => body.looksBehindFixed
  | .repetition _ _ _ body => body.looksBehindFixed
  | .atomic body => body.looksBehindFixed
  | .look behind _ body =>
    (!behind || (body.width.most == some body.width.least
      && body.width.least ≤ maxLookBehind)) && body.looksBehindFixed
  | .choice _ yes no => yes.looksBehindFixed && no.looksBehindFixed
  | _ => true

/-- Whether a pattern repeats anything. -/
def repeats : Regex → Bool
  | .seq a b => a.repeats || b.repeats
  | .alt a b => a.repeats || b.repeats
  | .group _ body => body.repeats
  | .repetition _ _ _ _ => true
  | .atomic body => body.repeats
  | .look _ _ body => body.repeats
  | .choice _ yes no => yes.repeats || no.repeats
  | _ => false

/-- Patterns one after the other. -/
def ofList : List Regex → Regex
  | [] => .empty
  | [r] => r
  | r :: rs => .seq r (ofList rs)

end Regex

end Pattern

end Conform
