import Conform.Text.Split

/-!
# Conform.Format.Address

Names and numbers of machines: host names, internet addresses of both versions, and mail
addresses.

* An address of version 4 is four numbers up to 255, without leading zeros.
* An address of version 6 is eight groups of up to four digits in base sixteen. One run of
  empty groups may be left out, and the last two groups may be written as an address of
  version 4. A zone may follow behind a percent sign.
* A host name is a row of labels of up to 63 letters, digits and inner hyphens, 253 characters
  in all.
* A mail address has a local part, and a domain whose last label is made of two letters or
  more.

Letters and digits are those of the basic set. Host names and mail addresses may close with a
line break.
-/

namespace Conform

namespace Format

/-! ## Version 4 -/

/-- A number up to 255 without leading zeros. -/
def isOctet (cs : List Char) : Bool :=
  !cs.isEmpty && cs.all Char.isDigit && cs.length ≤ 3
    && (cs == ['0'] || cs.head? != some '0')
    && cs.foldl (fun n c => 10 * n + (c.toNat - 48)) 0 ≤ 255

/-- An address of version 4. -/
def isIpv4 (cs : List Char) : Bool :=
  let octets := Text.split '.' cs
  octets.length == 4 && octets.all isOctet

/-! ## Version 6 -/

/-- A digit in base sixteen. -/
def isHexDigit (c : Char) : Bool :=
  c.isDigit || ('a' ≤ c && c ≤ 'f') || ('A' ≤ c && c ≤ 'F')

/-- A group of an address. -/
def isGroup (cs : List Char) : Bool :=
  !cs.isEmpty && cs.length ≤ 4 && cs.all isHexDigit

/-- Two groups in place of an address of version 4 at the end. -/
def expandTail (parts : List (List Char)) : Option (List (List Char)) :=
  match parts.getLast? with
  | none => some parts
  | some last =>
    if last.contains '.' then
      if isIpv4 last then some (parts.dropLast ++ [['0'], ['0']]) else none
    else some parts

/-- The positions of empty parts between the first and the last. -/
def innerGaps (parts : List (List Char)) : List Nat :=
  (List.range parts.length).filter fun i =>
    0 < i && i + 1 < parts.length && (parts.getD i []).isEmpty

/-- Groups on one side of the run that is left out. An empty part at the far end belongs to
the run only if there is nothing else on that side. -/
def isSide (groups : List (List Char)) (farEmpty : Bool) : Option Nat :=
  if farEmpty then if groups.length = 1 then some 0 else none
  else if groups.all isGroup then some groups.length else none

/-- The parts between the colons of an address. -/
def isGroups (parts : List (List Char)) : Bool :=
  parts.length ≤ 9 &&
  match innerGaps parts with
  | [] => parts.length == 8 && parts.all isGroup
  | [gap] =>
    let before := parts.take gap
    let behind := parts.drop (gap + 1)
    let farBefore := (before.head?.getD []).isEmpty
    let farBehind := (behind.getLast?.getD []).isEmpty
    (match isSide before farBefore, isSide behind farBehind with
      | some m, some n => m + n < 8
      | _, _ => false)
  | _ => false

/-- An address of version 6 without a zone. -/
def isIpv6Groups (cs : List Char) : Bool :=
  let parts := Text.split ':' cs
  3 ≤ parts.length &&
  match expandTail parts with
  | some parts => isGroups parts
  | none => false

/-- An address of version 6. -/
def isIpv6 (cs : List Char) : Bool :=
  if cs.contains '/' then false
  else
    match Text.split '%' cs with
    | [groups] => isIpv6Groups groups
    | [groups, zone] => !zone.isEmpty && isIpv6Groups groups
    | _ => false

/-! ## Host names -/

/-- A label of a host name. -/
def isLabel (cs : List Char) : Bool :=
  !cs.isEmpty && cs.length ≤ 63
    && cs.all (fun c => c.isAlphanum || c == '-')
    && cs.head? != some '-' && cs.getLast? != some '-'

/-- Labels with periods between them. -/
def isLabels (cs : List Char) : Bool := (Text.split '.' cs).all isLabel

/-- A host name. -/
def isHostname (cs : List Char) : Bool := cs.length ≤ 253 && Text.closingBreak isLabels cs

/-! ## Mail -/

/-- A character of the local part of a mail address. -/
def isLocalChar (c : Char) : Bool :=
  c.isAlphanum || c == '.' || c == '_' || c == '%' || c == '+' || c == '-'

/-- A character of the domain of a mail address. -/
def isDomainChar (c : Char) : Bool := c.isAlphanum || c == '.' || c == '-'

/-- A domain whose last label is made of two letters or more. -/
def isMailDomain (cs : List Char) : Bool :=
  let labels := Text.split '.' cs
  let last := labels.getLast?.getD []
  cs.all isDomainChar && 2 ≤ last.length && last.all Char.isAlpha
    && last.length + 1 < cs.length

/-- A local part and a domain. -/
def isMailbox (cs : List Char) : Bool :=
  let (mailbox, domain) := Text.cut '@' cs
  !mailbox.isEmpty && mailbox.all isLocalChar && isMailDomain domain

/-- Whether two periods stand side by side. -/
def hasDoublePeriod : List Char → Bool
  | '.' :: '.' :: _ => true
  | _ :: cs => hasDoublePeriod cs
  | [] => false

/-- A mail address. -/
def isEmail (cs : List Char) : Bool := !hasDoublePeriod cs && Text.closingBreak isMailbox cs

end Format

end Conform
