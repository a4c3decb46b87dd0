import Conform.Pattern.Regex

/-!
# Conform.Pattern.Matching

Matching by trying alternatives in order. A tree is read as a function from what is still to
be matched behind it to a match of both: `Regex.run` is handed the rest as a continuation and
tries one way after the other until the rest succeeds. Groups remember their last match, and
what was remembered on a way that failed is forgotten with it.

A repetition goes on only where its last round has moved on, so every loop ends: the least
number of rounds, then at most one for each character that is left, then one more.
-/

namespace Conform

namespace Pattern

/-- A place in the text with the ranges that groups have matched, the last ones first. -/
structure Spot where
  pos : Nat
  groups : List (Nat × Nat × Nat) := []
deriving Repr

/-- What is still to be matched. -/
abbrev Rest := Spot → Option Spot

/-- The range that a group has matched last. -/
def Spot.range? (s : Spot) (index : Nat) : Option (Nat × Nat) := s.groups.lookup index

/-! ## Positions -/

/-- Whether a word character stands at a position. -/
def wordAt (text : Array Char) (basic : Bool) (pos : Nat) : Bool :=
  match text[pos]? with
  | some c => CharClass.word.has basic c.toNat
  | none => false

/-- Whether a line break stands at a position. -/
def breakAt (text : Array Char) (pos : Nat) : Bool := text[pos]? == some '\n'

/-- Whether a word begins or ends at a position. -/
def isBoundary (text : Array Char) (basic : Bool) (pos : Nat) : Bool :=
  (0 < pos && wordAt text basic (pos - 1)) != wordAt text basic pos

/-- Whether an anchor holds at a position. An empty text has neither boundaries nor places
without one. -/
def Anchor.holds (text : Array Char) (pos : Nat) : Anchor → Bool
  | .textStart => pos == 0
  | .lineStart => pos == 0 || breakAt text (pos - 1)
  | .textEnd => pos == text.size || (pos + 1 == text.size && breakAt text pos)
  | .lineEnd => pos == text.size || breakAt text pos
  | .veryEnd => pos == text.size
  | .boundary basic => text.size != 0 && isBoundary text basic pos
  | .noBoundary basic => text.size != 0 && !isBoundary text basic pos

/-! ## Characters -/

/-- Whether a set holds a character under its options. -/
def setHas (negated : Bool) (items : List SetItem) (o : Options) (c : Char) : Bool :=
  let small := if o.ignoreCase then o.small c.toNat else c.toNat
  (items.any (SetItem.has o (o.variants c.toNat) small)) != negated

/-- Match one character by a test. -/
def one (text : Array Char) (test : Char → Bool) (k : Rest) : Rest := fun s =>
  match text[s.pos]? with
  | some c => if test c then k { s with pos := s.pos + 1 } else none
  | none => none

/-- Whether two characters are alike under the options of a reference. -/
def alike (o : Options) (a b : Char) : Bool :=
  if o.ignoreCase then o.small a.toNat == o.small b.toNat else a == b

/-- Whether the text from `pos` on repeats the `count` characters from `start` on. -/
def repeatsRange (text : Array Char) (o : Options) (start pos : Nat) : Nat → Bool
  | 0 => true
  | count + 1 =>
    (match text[start]?, text[pos]? with
      | some a, some b => alike o a b
      | _, _ => false) && repeatsRange text o (start + 1) (pos + 1) count

/-! ## Repetitions -/

/-- Whether another round is allowed. -/
def belowMost (count : Nat) (most : Option Nat) : Bool :=
  match most with
  | some n => count < n
  | none => true

/-- As many rounds as possible before the rest. -/
def greedy (body : Rest → Rest) (least : Nat) (most : Option Nat) (k : Rest) :
    Nat → Nat → Option Nat → Rest
  | 0, _, _ => k
  | fuel + 1, count, last => fun s =>
    if count < least then body (greedy body least most k fuel (count + 1) last) s
    else if belowMost count most && last != some s.pos then
      match body (greedy body least most k fuel (count + 1) (some s.pos)) s with
      | some r => some r
      | none => k s
    else k s

/-- As few rounds as possible before the rest. -/
def lazy (body : Rest → Rest) (least : Nat) (most : Option Nat) (k : Rest) :
    Nat → Nat → Option Nat → Rest
  | 0, _, _ => k
  | fuel + 1, count, last => fun s =>
    if count < least then body (lazy body least most k fuel (count + 1) last) s
    else
      match k s with
      | some r => some r
      | none =>
        if belowMost count most && last != some s.pos then
          body (lazy body least most k fuel (count + 1) (some s.pos)) s
        else none

/-- As many rounds as possible, each settled by its first match. -/
def settled (round : Rest) (least : Nat) (most : Option Nat) :
    Nat → Nat → Option Nat → Rest
  | 0, _, _ => some
  | fuel + 1, count, last => fun s =>
    if count < least then
      match round s with
      | some r => settled round least most fuel (count + 1) last r
      | none => none
    else if belowMost count most && last != some s.pos then
      match round s with
      | some r => settled round least most fuel (count + 1) (some s.pos) r
      | none => some s
    else some s

/-! ## Trees -/

/-- Match a tree and then the rest. -/
def Regex.run (text : Array Char) : Regex → Rest → Rest
  | .empty, k => k
  | .any lineBreaks, k => one text (fun c => lineBreaks || c != '\n') k
  | .set negated items o, k => one text (setHas negated items o) k
  | .anchor a, k => fun s => if a.holds text s.pos then k s else none
  | .seq a b, k => a.run text (b.run text k)
  | .alt a b, k => fun s =>
    match a.run text k s with
    | some r => some r
    | none => b.run text k s
  | .group index body, k => fun s =>
    body.run text (fun t => k { t with groups := (index, s.pos, t.pos) :: t.groups }) s
  | .repetition manner least most body, k =>
    let fuel := least + text.size + 2
    match manner with
    | .greedy => greedy (body.run text) least most k fuel 0 none
    | .lazy => lazy (body.run text) least most k fuel 0 none
    | .possessive => fun s =>
      match settled (body.run text some) least most fuel 0 none s with
      | some r => k r
      | none => none
  | .atomic body, k => fun s =>
    match body.run text some s with
    | some r => k r
    | none => none
  | .look behind negated body, k => fun s =>
    let back := if behind then body.width.least else 0
    let found := if s.pos < back then none
      else body.run text some { s with pos := s.pos - back }
    match negated, found with
    | false, some r => k { r with pos := s.pos }
    | false, none => none
    | true, some _ => none
    | true, none => k s
  | .backref index o _, k => fun s =>
    match s.range? index with
    | some (start, stop) =>
      if repeatsRange text o start s.pos (stop - start) then
        k { s with pos := s.pos + (stop - start) }
      else none
    | none => none
  | .choice index yes no, k => fun s =>
    if (s.range? index).isSome then yes.run text k s else no.run text k s

/-- Whether a tree matches from a position on. -/
def Regex.matchesAt (r : Regex) (text : Array Char) (pos : Nat) : Bool :=
  (r.run text some ⟨pos, []⟩).isSome

/-- Whether a tree matches somewhere in a text. -/
def Regex.occursIn (r : Regex) (text : List Char) : Bool :=
  (List.range (text.length + 1)).any (r.matchesAt text.toArray)

end Pattern

end Conform
