import Conform.Host
import Conform.Pattern.Regex
import Conform.Text.Percent

/-!
# Conform.Pattern.Grammar

Reading a pattern. The text is first cut into tokens, a backslash and the character behind it
being one; then the tree is read from left to right. Options hold from where they are set to
the end of their group, and options for the whole pattern may only come first of all.

A text that is no pattern makes a `Slip`. Two slips are told apart from a break of the grammar:
a repetition count of `maxRepeat` or more, and options that ask for the basic character set and
for all scripts at once. Beside these only the stack of the host can give out, on a text whose
groups nest.
-/

namespace Conform

namespace Pattern

variable [Host]

/-! ## Tokens -/

/-- A piece of a pattern: a character, a character behind a backslash, or a backslash at the
end with nothing behind it. -/
inductive Token where
  | plain (c : Char)
  | escaped (c : Char)
  | dangling
deriving DecidableEq, Repr

/-- Cut a text into tokens. -/
def tokens : List Char → List Token
  | [] => []
  | '\\' :: [] => [.dangling]
  | '\\' :: c :: cs => .escaped c :: tokens cs
  | c :: cs => .plain c :: tokens cs

/-- The characters of a token. -/
def Token.chars : Token → List Char
  | .plain c => [c]
  | .escaped c => ['\\', c]
  | .dangling => ['\\']

/-! ## State of reading -/

/-- The options in force at a place. -/
structure Modes where
  ignoreCase : Bool := false
  multiline : Bool := false
  dotAll : Bool := false
  verbose : Bool := false
  basic : Bool := false
deriving DecidableEq, Repr

/-- The options that leaves carry. -/
def Modes.options (m : Modes) : Options := ⟨m.ignoreCase, m.basic⟩

/-- How far reading has come: what is left, the options for the whole pattern, and what is
known of the groups. A group that is still open has no width. -/
structure Reading where
  rest : List Token
  modes : Modes := {}
  sawBasic : Bool := false
  sawUnicode : Bool := false
  sawTemplate : Bool := false
  widths : List (Option Width) := []
  names : Table Nat := []
  behindFrom : Option Nat := none
  asked : List Nat := []

/-- Why a text cannot be read as a pattern. -/
inductive Slip where
  /-- It breaks the grammar. -/
  | grammar
  /-- A numeral is too long, or two options exclude each other. -/
  | notAllowed
  /-- A count is too large. -/
  | tooLarge
deriving DecidableEq, Repr

/-- The cause that a slip is to a reading of a schema. -/
def Slip.fault : Slip → Fault
  | .grammar => .patternSyntax
  | .notAllowed => .notAllowed
  | .tooLarge => .tooLarge

/-- A step of reading. -/
abbrev Read (α : Type) := StateT Reading (Except Slip) α

/-- The text is no pattern. -/
def refuse {α : Type} : Read α := throw .grammar

/-- What stands next. -/
def peek : Read (Option Token) := return (← get).rest.head?

/-- Leave the next token behind. A backslash with nothing behind it is refused as soon as it
comes next. -/
def skip : Read Unit := do
  let s ← get
  let rest := s.rest.drop 1
  if rest.head? = some .dangling then refuse
  set { s with rest := rest }

/-- Take the next token. -/
def take : Read (Option Token) := do
  let t ← peek
  skip
  return t

/-- Take the next token if it is a given character. -/
def accept (c : Char) : Read Bool := do
  if (← peek) = some (.plain c) then
    skip
    return true
  else
    return false

/-- A given character has to come next. -/
def expect (c : Char) : Read Unit := do
  if !(← accept c) then refuse

/-- Take up to so many characters of a kind. -/
def takeWhile (p : Char → Bool) : Nat → Read (List Char)
  | 0 => return []
  | n + 1 => do
    match ← peek with
    | some (.plain c) =>
      if p c then
        skip
        return c :: (← takeWhile p n)
      else
        return []
    | _ => return []

/-- Take everything up to a character, which is left behind; at least one token has to come
before it. -/
def takeUntil (stop : Char) : Nat → List Char → Read (List Char)
  | 0, _ => refuse
  | fuel + 1, done => do
    match ← take with
    | none => refuse
    | some t =>
      if t = .plain stop then
        if done.isEmpty then refuse else return done
      else
        takeUntil stop fuel (done ++ t.chars)

/-- Take a name up to a character. -/
def takeName (stop : Char) : Read (List Char) := do
  takeUntil stop ((← get).rest.length + 1) []

/-! ## Groups -/

/-- How many groups there are, the whole pattern counting as one. -/
def Reading.groups (s : Reading) : Nat := s.widths.length + 1

/-- The width of a group that is closed. -/
def Reading.closed? (s : Reading) (index : Nat) : Option Width :=
  if index = 0 then none else (s.widths.getD (index - 1) none)

/-- A look behind may only refer to a group that was closed before it. -/
def checkBehind (index : Nat) : Read Unit := do
  let s ← get
  match s.behindFrom with
  | none => return ()
  | some limit => if (s.closed? index).isNone || limit ≤ index then refuse

/-- Open a group. -/
def openGroup (name : Option (List Char)) : Read Nat := do
  let s ← get
  let index := s.groups
  match name with
  | none => set { s with widths := s.widths ++ [none] }
  | some cs =>
    let key := String.ofList cs
    if Table.has s.names key then refuse
    set { s with widths := s.widths ++ [none], names := s.names ++ [(key, index)] }
  return index

/-- Close a group. -/
def closeGroup (index : Nat) (width : Width) : Read Unit :=
  modify fun s => { s with widths := s.widths.set (index - 1) (some width) }

/-- A reference to a group that has to be closed. -/
def groupReference (m : Modes) (index : Nat) : Read Regex := do
  match (← get).closed? index with
  | none => refuse
  | some width =>
    checkBehind index
    return .backref index m.options width

/-! ## Escapes -/

/-- Whether a character is a digit in base eight. -/
def isOctal (c : Char) : Bool := '0' ≤ c && c ≤ '7'

/-- The value of digits in a base up to sixteen. -/
def valueIn (base : Nat) (cs : List Char) : Nat :=
  cs.foldl (fun n c => n * base + (Percent.nibble? c).getD 0) 0

/-- The code point of so many digits in base sixteen. -/
def hexEscape (count : Nat) : Read Nat := do
  let cs ← takeWhile (fun c => (Percent.nibble? c).isSome) count
  if cs.length = count then return valueIn 16 cs else refuse

/-- Escapes that stand for one control character. -/
def controlEscape? (c : Char) : Option Nat :=
  match c with
  | 'a' => some 7
  | 'b' => some 8
  | 'f' => some 12
  | 'n' => some 10
  | 'r' => some 13
  | 't' => some 9
  | 'v' => some 11
  | '\\' => some 92
  | _ => none

/-- Escapes that stand for a class. -/
def classEscape? (c : Char) : Option (CharClass × Bool) :=
  match c with
  | 'd' => some (.digit, false)
  | 'D' => some (.digit, true)
  | 's' => some (.blank, false)
  | 'S' => some (.blank, true)
  | 'w' => some (.word, false)
  | 'W' => some (.word, true)
  | _ => none

/-- Escapes that stand for a position. -/
def anchorEscape? (m : Modes) (c : Char) : Option Anchor :=
  match c with
  | 'A' => some .textStart
  | 'Z' => some .veryEnd
  | 'b' => some (.boundary m.basic)
  | 'B' => some (.noBoundary m.basic)
  | _ => none

/-- Whether a character is a letter of the basic set. -/
def isBasicLetter (c : Char) : Bool := ('a' ≤ c && c ≤ 'z') || ('A' ≤ c && c ≤ 'Z')

/-- The code point of a character that is given by its name in braces. -/
def namedEscape : Read Nat := do
  expect '\x7b'
  match Host.character? (String.ofList (← takeName '\x7d')) with
  | some c => return c.toNat
  | none => refuse

/-- The code point of an escape by number or by name, common to sets and the rest. A letter
that no escape uses is refused, and any other character stands for itself. -/
def codeEscape (c : Char) : Read Nat := do
  if c = 'x' then hexEscape 2
  else if c = 'N' then namedEscape
  else if c = 'u' then hexEscape 4
  else if c = 'U' then
    let n ← hexEscape 8
    if n < 0x110000 then return n else refuse
  else if isBasicLetter c || c.isDigit then refuse
  else return c.toNat

/-- An escape inside a set. -/
def setEscape (c : Char) : Read SetItem := do
  match controlEscape? c with
  | some n => return .one n
  | none =>
    match classEscape? c with
    | some (k, negated) => return .cls k negated
    | none =>
      if isOctal c then
        let n := valueIn 8 (c :: (← takeWhile isOctal 2))
        if n ≤ 0o377 then return .one n else refuse
      else
        return .one (← codeEscape c)

/-- A leaf for one code point. -/
def literal (m : Modes) (c : Nat) : Regex := .set false [.one c] m.options

/-- An escape that begins with a digit other than zero: a code point of three digits in base
eight, or else a reference to a group. -/
def numberEscape (m : Modes) (c : Char) : Read Regex := do
  match ← peek with
  | some (.plain d) =>
    if d.isDigit then
      skip
      match ← peek with
      | some (.plain e) =>
        if isOctal c && isOctal d && isOctal e then
          skip
          let n := valueIn 8 [c, d, e]
          if n ≤ 0o377 then return literal m n else refuse
        else
          groupReference m (valueIn 10 [c, d])
      | _ => groupReference m (valueIn 10 [c, d])
    else
      groupReference m (valueIn 10 [c])
  | _ => groupReference m (valueIn 10 [c])

/-- An escape outside sets. -/
def escape (m : Modes) (c : Char) : Read Regex := do
  match anchorEscape? m c with
  | some a => return .anchor a
  | none =>
    match classEscape? c with
    | some (k, negated) => return .set false [.cls k negated] m.options
    | none =>
      match controlEscape? c with
      | some n => return literal m n
      | none =>
        if c = '0' then return literal m (valueIn 8 (← takeWhile isOctal 2))
        else if c.isDigit then numberEscape m c
        else return literal m (← codeEscape c)

/-! ## Sets -/

/-- One end of a range, or an item that stands alone. -/
def setEnd (t : Token) : Read SetItem :=
  match t with
  | .plain c => return .one c.toNat
  | .escaped c => setEscape c
  | .dangling => refuse

/-- The items of a set up to its closing bracket, which stands for itself in the first place. -/
def setItems : Nat → List SetItem → Read (List SetItem)
  | 0, _ => refuse
  | fuel + 1, done => do
    match ← take with
    | none => refuse
    | some t =>
      if t = .plain ']' && !done.isEmpty then return done.reverse
      let low ← setEnd t
      if ← accept '-' then
        match ← take with
        | none => refuse
        | some u =>
          if u = .plain ']' then return (.one '-'.toNat :: low :: done).reverse
          match low, ← setEnd u with
          | .one lo, .one hi =>
            if hi < lo then refuse else setItems fuel (.range lo hi :: done)
          | _, _ => refuse
      else
        setItems fuel (low :: done)

/-- A set after its opening bracket. -/
def set_ (m : Modes) : Read Regex := do
  let negated ← accept '^'
  let items ← setItems ((← get).rest.length + 1) []
  return .set negated items m.options

/-! ## Options -/

/-- The letters of options. -/
inductive Letter where
  | ignoreCase
  | locale
  | multiline
  | dotAll
  | verbose
  | basic
  | template
  | unicode
deriving DecidableEq, Repr

/-- The option of a letter. -/
def letter? (c : Char) : Option Letter :=
  match c with
  | 'i' => some .ignoreCase
  | 'L' => some .locale
  | 'm' => some .multiline
  | 's' => some .dotAll
  | 'x' => some .verbose
  | 'a' => some .basic
  | 't' => some .template
  | 'u' => some .unicode
  | _ => none

/-- Whether an option chooses the character set. -/
def Letter.choosesSet : Letter → Bool
  | .locale => true
  | .basic => true
  | .unicode => true
  | _ => false

/-- The option of a token that has to be one. -/
def letterOf (t : Option Token) : Read Letter :=
  match t with
  | some (.plain c) =>
    match letter? c with
    | some l => return l
    | none => refuse
  | _ => refuse

/-- Options to turn on, from the first letter to the character behind the last. Only one
character set can be chosen, and none that hangs on the machine. -/
def optionsOn : Nat → List Letter → Letter → Read (List Letter × Char)
  | 0, _, _ => refuse
  | fuel + 1, done, l => do
    if l = .locale then refuse
    if l.choosesSet && done.any fun k => k.choosesSet && k != l then refuse
    let done := l :: done
    match ← take with
    | some (.plain c) =>
      if c = ')' || c = '-' || c = ':' then return (done, c)
      optionsOn fuel done (← letterOf (some (.plain c)))
    | _ => refuse

/-- Options to turn off, from the first letter to the colon. A character set cannot be turned
off. -/
def optionsOff : Nat → List Letter → Letter → Read (List Letter)
  | 0, _, _ => refuse
  | fuel + 1, done, l => do
    if l.choosesSet then refuse
    let done := l :: done
    match ← take with
    | some (.plain c) =>
      if c = ':' then return done
      optionsOff fuel done (← letterOf (some (.plain c)))
    | _ => refuse

/-- Turn an option on. -/
def Modes.on (m : Modes) : Letter → Modes
  | .ignoreCase => { m with ignoreCase := true }
  | .multiline => { m with multiline := true }
  | .dotAll => { m with dotAll := true }
  | .verbose => { m with verbose := true }
  | .basic => { m with basic := true }
  | .unicode => { m with basic := false }
  | _ => m

/-- Turn an option off. -/
def Modes.off (m : Modes) : Letter → Modes
  | .ignoreCase => { m with ignoreCase := false }
  | .multiline => { m with multiline := false }
  | .dotAll => { m with dotAll := false }
  | .verbose => { m with verbose := false }
  | _ => m

/-- Take in options for the whole pattern. -/
def Reading.turnOn (s : Reading) (ls : List Letter) : Reading :=
  { s with
    modes := ls.foldl Modes.on s.modes
    sawBasic := s.sawBasic || ls.contains .basic
    sawUnicode := s.sawUnicode || ls.contains .unicode
    sawTemplate := s.sawTemplate || ls.contains .template }

/-- Read options after the question mark. For the whole pattern they are taken in and nothing
is given back; for a group the options inside it are. -/
def options (m : Modes) (first : Char) : Read (Option Modes) := do
  let fuel := (← get).rest.length + 1
  let (ons, stop) ← if first = '-' then pure ([], '-')
    else do optionsOn fuel [] (← letterOf (some (.plain first)))
  if stop = ')' then
    modify fun s => s.turnOn ons
    return none
  if ons.contains .template then refuse
  let offs ← if stop = '-' then do optionsOff fuel [] (← letterOf (← take)) else pure []
  if offs.contains .template || offs.any ons.contains then refuse
  return some (offs.foldl Modes.off (ons.foldl Modes.on m))

/-! ## Repetitions -/

/-- Counts from here on are too large. -/
def maxRepeat : Nat := Nat.pow 2 32 - 1

/-- Longer numerals are not read. -/
def maxCountDigits : Nat := 4300

/-- A count that has to be small enough. -/
def count (cs : List Char) : Read Nat := do
  if maxCountDigits < cs.length then throw .notAllowed
  let n := valueIn 10 cs
  if maxRepeat ≤ n then throw .tooLarge
  return n

/-- The bounds of a repetition in braces, after the opening one; nothing if the braces are no
repetition, and then nothing is taken. -/
def braces : Read (Option (Nat × Option Nat)) := do
  let saved := (← get).rest
  let fuel := saved.length
  if (← peek) = some (.plain '\x7d') then return none
  let lo ← takeWhile Char.isDigit fuel
  let hi ← if ← accept ',' then takeWhile Char.isDigit fuel else pure lo
  if !(← accept '\x7d') then
    modify fun s => { s with rest := saved }
    return none
  let least ← if lo.isEmpty then pure 0 else count lo
  if hi.isEmpty then return some (least, none)
  let most ← count hi
  if most < least then refuse
  return some (least, some most)

/-- What an item of a sequence is to a repetition behind it. -/
inductive Shape where
  | position
  | repeated
  | other
deriving DecidableEq, Repr

/-- An item of a sequence. -/
structure Item where
  tree : Regex
  shape : Shape := .other

/-- The manner of a repetition, by the sign behind it. -/
def mannerBehind : Read Manner := do
  if ← accept '?' then return .lazy
  if ← accept '+' then return .possessive
  return .greedy

/-- Repeat the last item. There has to be one, neither a position nor repeated already. -/
def repeatLast (least : Nat) (most : Option Nat) (done : List Item) : Read (List Item) := do
  match done with
  | [] => refuse
  | last :: before =>
    if last.shape != .other then refuse
    return ⟨.repetition (← mannerBehind) least most last.tree, .repeated⟩ :: before

/-! ## Sequences and alternatives -/

/-- A number of a group in a condition: blanks around it, a sign, and digits of any script
with single underscores between them. -/
def groupNumber? (cs : List Char) : Option Nat :=
  let trimmed := ((cs.dropWhile isBlank).reverse.dropWhile isBlank).reverse
  let digits := match trimmed with
    | '+' :: r => r
    | r => r
  let rec scan : List Char → Option (List Char)
    | [] => some []
    | c :: '_' :: d :: r =>
      if isDecimalDigit c then (scan (d :: r)).map (c :: ·) else none
    | c :: r => if isDecimalDigit c then (scan r).map (c :: ·) else none
  match scan digits with
  | some (d :: ds) => some (decimalValue (d :: ds))
  | _ => none

/-- The group that a condition asks for. -/
def askedGroup : Read Nat := do
  let name ← takeName ')'
  let index ←
    if isName name then
      match (← get).names.lookup (String.ofList name) with
      | some index => pure index
      | none => refuse
    else
      match groupNumber? name with
      | some 0 => refuse
      | some index =>
        modify fun s => { s with asked := index :: s.asked }
        pure index
      | none => refuse
  checkBehind index
  return index

/-- Whether a character between items is passed over where layout is free. -/
def isLayout (c : Char) : Bool := c == ' ' || ('\t' ≤ c && c ≤ '\r')

/-- Leave a remark behind, up to the end of its line. -/
def skipRemark : Nat → Read Unit
  | 0 => return ()
  | fuel + 1 => do
    match ← take with
    | none => return ()
    | some t => if t = .plain '\n' then return () else skipRemark fuel

/-- Leave a comment behind, up to its closing parenthesis. -/
def skipComment : Nat → Read Unit
  | 0 => refuse
  | fuel + 1 => do
    match ← take with
    | none => refuse
    | some t => if t = .plain ')' then return () else skipComment fuel

/-- What a group turned out to be. -/
inductive Opened where
  /-- An item of the sequence. -/
  | item (i : Item)
  /-- A comment. -/
  | nothing
  /-- Options for the whole pattern. -/
  | options

mutual

/-- Alternatives up to a closing parenthesis or the end. At the outermost level options for
the whole pattern hold for every alternative. -/
def alternatives : Nat → Modes → Bool → Read Regex
  | 0, _, _ => refuse
  | fuel + 1, m, outermost => do
    let first ← sequence fuel m outermost outermost []
    if ← accept '|' then
      let m ← if outermost then do pure (← get).modes else pure m
      return .alt first (← moreAlternatives fuel m outermost)
    else
      return first

/-- Alternatives behind the first bar. -/
def moreAlternatives : Nat → Modes → Bool → Read Regex
  | 0, _, _ => refuse
  | fuel + 1, m, outermost => do
    let next ← sequence fuel m outermost false []
    if ← accept '|' then return .alt next (← moreAlternatives fuel m outermost)
    else return next

/-- Items up to a bar, a closing parenthesis or the end, the last one first. -/
def sequence : Nat → Modes → Bool → Bool → List Item → Read Regex
  | 0, _, _, _, _ => refuse
  | fuel + 1, m, outermost, first, done => do
    match ← peek with
    | none => return .ofList (done.reverse.map Item.tree)
    | some (.plain '|') => return .ofList (done.reverse.map Item.tree)
    | some (.plain ')') => return .ofList (done.reverse.map Item.tree)
    | some t =>
      skip
      match t with
      | .dangling => refuse
      | .escaped c =>
        let r ← escape m c
        let shape := match r with
          | .anchor _ => Shape.position
          | _ => .other
        sequence fuel m outermost first (⟨r, shape⟩ :: done)
      | .plain c =>
        if m.verbose && isLayout c then sequence fuel m outermost first done
        else if m.verbose && c = '#' then
          skipRemark ((← get).rest.length + 1)
          sequence fuel m outermost first done
        else if c = '[' then
          let r ← set_ m
          sequence fuel m outermost first (⟨r, .other⟩ :: done)
        else if c = '.' then
          sequence fuel m outermost first (⟨.any m.dotAll, .other⟩ :: done)
        else if c = '^' then
          let a := if m.multiline then Anchor.lineStart else .textStart
          sequence fuel m outermost first (⟨.anchor a, .position⟩ :: done)
        else if c = '$' then
          let a := if m.multiline then Anchor.lineEnd else .textEnd
          sequence fuel m outermost first (⟨.anchor a, .position⟩ :: done)
        else if c = '?' then
          sequence fuel m outermost first (← repeatLast 0 (some 1) done)
        else if c = '*' then
          sequence fuel m outermost first (← repeatLast 0 none done)
        else if c = '+' then
          sequence fuel m outermost first (← repeatLast 1 none done)
        else if c = '\x7b' then
          match ← braces with
          | none => sequence fuel m outermost first (⟨literal m c.toNat, .other⟩ :: done)
          | some (least, most) =>
            sequence fuel m outermost first (← repeatLast least most done)
        else if c = '(' then
          match ← parenthesis fuel m with
          | .item i => sequence fuel m outermost first (i :: done)
          | .nothing => sequence fuel m outermost first done
          | .options =>
            if !first || !done.isEmpty then refuse
            sequence fuel (← get).modes outermost first done
        else
          sequence fuel m outermost first (⟨literal m c.toNat, .other⟩ :: done)

/-- What stands behind an opening parenthesis. -/
def parenthesis : Nat → Modes → Read Opened
  | 0, _ => refuse
  | fuel + 1, m => do
    if !(← accept '?') then
      return .item ⟨← capturing fuel m none, .other⟩
    match ← take with
    | some (.plain 'P') =>
      if ← accept '<' then
        let name ← takeName '>'
        if !isName name then refuse
        return .item ⟨← capturing fuel m (some name), .other⟩
      expect '='
      let name ← takeName ')'
      if !isName name then refuse
      match (← get).names.lookup (String.ofList name) with
      | some index => return .item ⟨← groupReference m index, .other⟩
      | none => refuse
    | some (.plain ':') =>
      let body ← alternatives fuel m false
      expect ')'
      return .item ⟨body, .other⟩
    | some (.plain '#') =>
      skipComment ((← get).rest.length + 1)
      return .nothing
    | some (.plain '=') => return .item ⟨← looking fuel m false false, .other⟩
    | some (.plain '!') => return .item ⟨← looking fuel m false true, .other⟩
    | some (.plain '<') =>
      if ← accept '=' then return .item ⟨← looking fuel m true false, .other⟩
      expect '!'
      return .item ⟨← looking fuel m true true, .other⟩
    | some (.plain '(') => return .item ⟨← condition fuel m, .other⟩
    | some (.plain '>') =>
      let body ← alternatives fuel m false
      expect ')'
      return .item ⟨.atomic body, .other⟩
    | some (.plain c) =>
      match ← options m c with
      | none => return .options
      | some inner =>
        let body ← alternatives fuel inner false
        expect ')'
        return .item ⟨body, .other⟩
    | _ => refuse

/-- A group that is remembered. -/
def capturing : Nat → Modes → Option (List Char) → Read Regex
  | 0, _, _ => refuse
  | fuel + 1, m, name => do
    let index ← openGroup name
    let body ← alternatives fuel m false
    expect ')'
    closeGroup index body.width
    return .group index body

/-- A look ahead or behind. -/
def looking : Nat → Modes → Bool → Bool → Read Regex
  | 0, _, _, _ => refuse
  | fuel + 1, m, behind, negated => do
    let before := (← get).behindFrom
    if behind && before.isNone then
      modify fun s => { s with behindFrom := some s.groups }
    let body ← alternatives fuel m false
    if behind then modify fun s => { s with behindFrom := before }
    expect ')'
    return .look behind negated body

/-- A choice by whether a group has matched. -/
def condition : Nat → Modes → Read Regex
  | 0, _ => refuse
  | fuel + 1, m => do
    let index ← askedGroup
    let yes ← sequence fuel m false false []
    let no ← if ← accept '|' then sequence fuel m false false [] else pure .empty
    expect ')'
    return .choice index yes no

end

/-! ## Whole patterns -/

/-- Read a whole pattern. Each level of nesting and each item takes a step or two, so four
steps a token are enough. -/
def wholePattern : Read Regex := do
  if (← get).rest.head? = some .dangling then refuse
  let tree ← alternatives (4 * (← get).rest.length + 8) {} true
  let s ← get
  if s.sawBasic && s.sawUnicode then throw .notAllowed
  if !s.rest.isEmpty then refuse
  if s.asked.any fun index => s.groups ≤ index then refuse
  if !tree.looksBehindFixed || (s.sawTemplate && tree.repeats) then refuse
  return tree

/-- The tree of a pattern, if the stack of the host is deep enough for it. -/
def ofChars (cs : List Char) : Except Fault Regex :=
  if Host.exhaustsPattern cs then .error .tooDeep
  else
    match wholePattern.run { rest := tokens cs } with
    | .ok (tree, _) => .ok tree
    | .error slip => .error slip.fault

end Pattern

end Conform
