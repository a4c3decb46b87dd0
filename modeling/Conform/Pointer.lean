import Conform.Fault
import Conform.Text.Percent
import Conform.Text.Digit
import Conform.Text.Split

/-!
# Conform.Pointer

References into a document:

```
#/definitions/User/properties/name
```

After the `#` a reference names one segment after another, each a member of the value reached
so far or a position of it. The segments `definitions` and `$defs` are different: they lead to
the table of definitions of the whole document wherever they stand, and each name does for the
other. A segment may hold percent escapes, and after those `~1` stands for a slash and `~0`
for a tilde. Empty segments are passed over.
-/

namespace Conform

namespace Pointer

/-! ## Segments -/

/-- Put a character for a tilde followed by another. -/
def replaceTilde (mark stand : Char) : List Char → List Char
  | '~' :: c :: cs =>
    if c = mark then stand :: replaceTilde mark stand cs
    else '~' :: replaceTilde mark stand (c :: cs)
  | c :: cs => c :: replaceTilde mark stand cs
  | [] => []
termination_by cs => cs.length

/-- The name that a segment stands for. -/
def unescape (segment : List Char) : List Char :=
  replaceTilde '0' '~' (replaceTilde '1' '/' (Percent.decode segment))

/-! ## Steps -/

/-- The names of the table of definitions, each with the other one. -/
def otherTable? (segment : String) : Option String :=
  if segment = "definitions" then some "$defs"
  else if segment = "$defs" then some "definitions"
  else none

/-- The table of definitions of a document under either name, and an empty one without. -/
def definitions (root : Json) (name other : String) : Except Fault Json :=
  match root with
  | .obj ms =>
    match (ms.lookup name).getD .null with
    | .null =>
      match (ms.lookup other).getD .null with
      | .null => .ok (.obj [])
      | table => .ok table
    | table => .ok table
  | _ => .error .noMembers

/-- Longer numerals are not read. -/
def maxNumeral : Nat := 4300

/-- The position that a segment names, if it is made of digits. Digits outside positional
systems name none and are refused. -/
def position? (segment : List Char) : Except Fault (Option Nat) :=
  if segment.isEmpty || !segment.all isAnyDigit then .ok none
  else if segment.all isDecimalDigit && segment.length ≤ maxNumeral then
    .ok (some (decimalValue segment))
  else .error .notAllowed

/-- One step from the value reached so far. -/
def step (ref : String) (current : Json) (segment : List Char) : Except Fault Json :=
  let name := String.ofList segment
  match current with
  | .obj ms =>
    match ms.lookup name with
    | some j => .ok j
    | none => .error (.danglingReference ref name)
  | .arr xs =>
    match position? segment with
    | .error f => .error f
    | .ok none => .error (.danglingReference ref name)
    | .ok (some i) =>
      match xs[i]? with
      | some j => .ok j
      | none => .error (.danglingReference ref name)
  | _ => .error (.danglingReference ref name)

/-- Follow raw segments from a value. -/
def follow (ref : String) (root current : Json) : List (List Char) → Except Fault Json
  | [] => .ok current
  | raw :: rest =>
    if raw.isEmpty then follow ref root current rest
    else
      match otherTable? (String.ofList raw) with
      | some other =>
        match definitions root (String.ofList raw) other with
        | .ok table => follow ref root table rest
        | .error f => .error f
      | none =>
        match step ref current (unescape raw) with
        | .ok next => follow ref root next rest
        | .error f => .error f

/-! ## References -/

/-- The value that a reference addresses in a document. -/
def resolve (ref : Json) (root : Json) : Except Fault Json :=
  match ref with
  | .str s =>
    match s.toList with
    | '#' :: cs => follow s root root (Text.split '/' cs)
    | _ => .error (.external ref)
  | _ => .error (.external ref)

theorem resolve_whole (root : Json) : resolve (.str "#") root = .ok root := by
  simp [resolve, Text.split, follow]

/-- What a value refers to: the target of its reference, or itself if it has none. -/
def target (j : Json) (root : Option Json) : Except Fault Json :=
  match j.get? "$ref" with
  | none => .ok j
  | some ref =>
    match root with
    | none => .error (.noDocument ref)
    | some root => resolve ref root

/-- The document that references address: a schema that is an object is its own document unless
another one is given. -/
def document (schema : Json) (root : Option Json) : Option Json :=
  match root, schema with
  | none, .obj ms => some (.obj ms)
  | root, _ => root

/-! ## Chains -/

/-- A reference met again on a chain is refused, if the chain is guarded at all. What cannot
be a name cannot be looked for on a chain. -/
def permit (guarded : Bool) (ref : Json) (chain : List String) : Except Fault Unit :=
  match ref with
  | .str s => if guarded && chain.contains s then .error (.circularReference s) else .ok ()
  | j => if j.isKey then .ok () else .error .wrongKind

/-- A chain with one more reference. -/
def lengthen (chain : List String) (ref : Json) : List String :=
  match ref with
  | .str s => s :: chain
  | _ => chain

end Pointer

namespace Json

mutual

/-- The references that occur anywhere in a value. -/
def references : Json → List String
  | .arr xs => itemsReferences xs
  | .obj ms => membersReferences ms
  | _ => []

/-- The references that occur in items. -/
def itemsReferences : List Json → List String
  | [] => []
  | x :: xs => x.references ++ itemsReferences xs

/-- The references that occur in members, their own among them. -/
def membersReferences : List (String × Json) → List String
  | [] => []
  | (k, x) :: ms =>
    (match x with
      | .str s => if k = "$ref" then [s] else []
      | _ => []) ++ x.references ++ membersReferences ms

end

end Json

namespace Pointer

/-- How many different references a chain can hold. -/
def referenceCount (schema : Json) (root : Option Json) : Nat :=
  (schema.references ++ ((root.map Json.references).getD [])).eraseDups.length

/-- How deep schemas nest. -/
def schemaHeight (schema : Json) (root : Option Json) : Nat :=
  max schema.height ((root.map Json.height).getD 0)

/-- How many schemas can be met one inside the other while no chain repeats a reference: one
for each level of a schema, before the first reference and behind each. -/
def reach (schema : Json) (root : Option Json) : Nat :=
  (referenceCount schema root + 1) * (schemaHeight schema root + 1)

end Pointer

end Conform
