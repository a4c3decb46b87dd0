import Conform.Format.Address
import Conform.Text.Blank

/-!
# Conform.Format.Resource

Identifiers of resources, the templates they are made from, and pointers into documents.

* A locator has a scheme and, behind two slashes, a host.
* An identifier is a locator, or a scheme with anything behind it; a text without a colon is
  one relative to another.
* The international forms ask for a scheme and no blank behind it.
* A template puts expressions between braces, not nested and not empty.
* A pointer is a row of segments with a slash before each; a relative one begins with the
  number of levels to go up.
-/

namespace Conform

namespace Format

/-! ## Locators -/

/-- A character of a scheme behind the first. -/
def isSchemeChar (c : Char) : Bool := c.isAlphanum || c == '+' || c == '.' || c == '-'

/-- The scheme in front of the first colon. -/
def scheme? (cs : List Char) : Option (List Char × List Char) :=
  let (scheme, rest) := Text.cut ':' cs
  match scheme with
  | [] => none
  | c :: _ =>
    if cs.contains ':' && c.isAlpha && scheme.all isSchemeChar then some (scheme, rest)
    else none

/-- Characters that stand for one with a part in the syntax of locators once a host name is
brought into its plain form. -/
def disguised : List Nat := [
  0x2047, 0x2048, 0x2049, 0x2100, 0x2101, 0x2105, 0x2106, 0x2a74, 0xfe13, 0xfe16, 0xfe55,
  0xfe56, 0xfe5f, 0xfe6b, 0xff03, 0xff0f, 0xff1a, 0xff1f, 0xff20]

/-- An address of a later version, after its opening letter: a version in base sixteen, a
period, and something else. -/
def isFutureAddress (cs : List Char) : Bool :=
  let version := cs.takeWhile isHexDigit
  !version.isEmpty &&
  match cs.dropWhile isHexDigit with
  | '.' :: rest => !rest.isEmpty && !rest.contains '\n'
  | _ => false

/-- What stands between brackets in a host has to be an address. -/
def isBracketedHost (cs : List Char) : Bool :=
  match cs with
  | 'v' :: rest => isFutureAddress rest
  | _ => !isIpv4 cs && isIpv6 cs

/-- A host with what belongs to it: brackets in pairs around an address, and no disguised
character. -/
def isAuthority (cs : List Char) : Bool :=
  (if cs.contains '[' && cs.contains ']' then
    isBracketedHost (Text.cut ']' (Text.cut '[' cs).2).1
  else !cs.contains '[' && !cs.contains ']')
    && cs.all fun c => !disguised.contains c.toNat

/-- The end of a host. -/
def endsAuthority (c : Char) : Bool := c == '/' || c == '?' || c == '#'

/-- A locator: no blanks, a scheme and a host. Control characters in front are passed over. -/
def isUrl (cs : List Char) : Bool :=
  !cs.any isBlank &&
  match scheme? (cs.dropWhile fun c => c.toNat ≤ 32) with
  | some (_, '/' :: '/' :: rest) =>
    let host := rest.takeWhile fun c => !endsAuthority c
    !host.isEmpty && isAuthority host
  | _ => false

/-! ## Identifiers -/

/-- A scheme and something behind it, more than two slashes if it begins with two. -/
def isOpaqueUri (cs : List Char) : Bool :=
  match scheme? cs with
  | some (_, '/' :: '/' :: rest) => !rest.isEmpty
  | some (_, rest) => !rest.isEmpty
  | none => false

/-- An identifier. -/
def isUri (cs : List Char) : Bool := isUrl cs || (!cs.any isBlank && isOpaqueUri cs)

/-- An identifier that may be relative. -/
def isUriReference (cs : List Char) : Bool := isUri cs || !cs.contains ':'

/-- A scheme and no blank behind it. -/
def isIriBody (cs : List Char) : Bool :=
  match scheme? cs with
  | some (_, rest) => !rest.any isBlank
  | none => false

/-- An international identifier. -/
def isIri (cs : List Char) : Bool := Text.closingBreak isIriBody cs

/-- An international identifier, a path, or one segment. -/
def isIriReferenceBody (cs : List Char) : Bool :=
  isIriBody cs ||
  match cs with
  | [] => false
  | '/' :: rest => !rest.any isBlank
  | _ => cs.all fun c => !isBlank c && c != ':' && c != '/'

/-- An international identifier that may be relative. -/
def isIriReference (cs : List Char) : Bool := Text.closingBreak isIriReferenceBody cs

/-! ## Templates -/

/-- Go through a template, inside an expression or not; an expression just begun is empty. -/
inductive TemplateState where
  | outside
  | begun
  | inside

/-- Whether expressions are closed, not empty and not nested. -/
def isTemplateFrom : TemplateState → List Char → Bool
  | .outside, [] => true
  | _, [] => false
  | .outside, c :: cs =>
    if c = '\x7b' then isTemplateFrom .begun cs
    else if c = '\x7d' then false
    else isTemplateFrom .outside cs
  | .begun, c :: cs =>
    if c = '\x7b' || c = '\x7d' then false else isTemplateFrom .inside cs
  | .inside, c :: cs =>
    if c = '\x7b' then false
    else if c = '\x7d' then isTemplateFrom .outside cs
    else isTemplateFrom .inside cs

/-- A template of identifiers. -/
def isUriTemplate (cs : List Char) : Bool := isTemplateFrom .outside cs

/-! ## Pointers -/

/-- Whether every tilde is followed by a zero or a one. -/
def tildesEscape : List Char → Bool
  | '~' :: '0' :: cs => tildesEscape cs
  | '~' :: '1' :: cs => tildesEscape cs
  | '~' :: _ => false
  | _ :: cs => tildesEscape cs
  | [] => true

/-- Segments with a slash before each. -/
def isSegments (cs : List Char) : Bool :=
  (cs.isEmpty || cs.head? == some '/') && tildesEscape cs

/-- A pointer into a document. -/
def isJsonPointer (cs : List Char) : Bool := Text.closingBreak isSegments cs

/-- A number of levels without leading zeros, and segments or a number sign behind it. -/
def isRelativeBody (cs : List Char) : Bool :=
  let levels := cs.takeWhile Char.isDigit
  let rest := cs.dropWhile Char.isDigit
  !levels.isEmpty && (levels == ['0'] || levels.head? != some '0')
    && (rest == ['#'] || isSegments rest)

/-- A pointer relative to a place. -/
def isRelativeJsonPointer (cs : List Char) : Bool := Text.closingBreak isRelativeBody cs

end Format

end Conform
