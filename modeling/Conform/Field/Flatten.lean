import Conform.Field
import Conform.Path
import Conform.Pointer

/-!
# Conform.Field.Flatten

The fields of a document, parents before children:

```
user              an object
user.tags         an array
user.tags[*]      its items, where one schema is for all of them
user.x.*          the members that a pattern names
```

References are followed on the way. Below a field whose reference was followed before on the
same branch nothing is added, so a schema that refers to itself has finitely many fields.

A document that combines schemas is one field at the empty place, and nothing else of it is
looked at. Of any other document that field carries what none of the others can.
-/

namespace Conform

namespace Field

/-! ## References -/

/-- Follow references until a schema has none, and tell which were followed. One that is met
again on the way is refused. -/
def chase (root : Option Json) : Nat → Json → List String →
    Except Fault (Json × List String)
  | 0, _, _ => .error .exhausted
  | fuel + 1, schema, chain =>
    match schema.get? "$ref" with
    | none => .ok (schema, chain)
    | some ref => do
      Pointer.permit true ref chain
      chase root fuel (← Pointer.target schema root) (Pointer.lengthen chain ref)

/-- Follow references in as many steps as there can be. -/
def settle (root : Option Json) (schema : Json) : Except Fault (Json × List String) :=
  chase root (Pointer.referenceCount schema root + 1) schema []

/-! ## Fields -/

/-- The reading of a schema at a name, a place and under a parent, behind the references of
its branch. -/
abbrev Descend := (name : String) → (schema : Json) → (path : String) → (parent : Node) →
  (followed : List String) → Except Fault (List Field)

/-- The fields of named schemas, each at its place. What is no object is passed over. -/
def ofTable (self : Descend) (place : String → String) (parent : Node)
    (followed : List String) : Members → Except Fault (List Field)
  | [] => .ok []
  | (name, schema) :: ms => do
    let here ← if schema.isObject then self name schema (place name) parent followed else .ok []
    return here ++ (← ofTable self place parent followed ms)

/-- The fields below an object. -/
def ofObject (self : Descend) (n : Node) (path : String) (followed : List String) :
    Except Fault (List Field) := do
  let named ← ofTable self (Path.name path) n followed n.object.properties
  return named ++
    (← ofTable self (fun _ => Path.name path "*") n followed n.object.patternProperties)

/-- The fields for the items of an array. -/
def ofItems (self : Descend) (n : Node) (name path : String) (followed : List String) :
    Except Fault (List Field) :=
  match n.array.items with
  | some (.obj ms) => self (name ++ "[*]") (.obj ms) (path ++ "[*]") n followed
  | _ => .ok []

/-- The fields below a field. -/
def ofChildren (self : Descend) (n : Node) (name path : String) (followed : List String) :
    Except Fault (List Field) := do
  let members ← if n.declares "object" then ofObject self n path followed else .ok []
  let items ← if n.declares "array" then ofItems self n name path followed else .ok []
  return members ++ items

/-- A field and the fields below it, in a number of steps. -/
def descend (root : Option Json) : Nat → Descend
  | 0 => fun _ _ _ _ _ => .error .exhausted
  | fuel + 1 => fun name schema path parent followed => do
    let (settled, chain) ← settle root schema
    match settled with
    | .obj ms =>
      let n ← Node.ofMembers ms
      let field ← ofNode n path (parent.object.required.contains (.str name))
      if chain.any followed.contains then return [field]
      return field :: (← ofChildren (descend root fuel) n name path (chain ++ followed))
    | _ => return []

/-- The fields of a document. -/
def ofDocument (root : Option Json) (fuel : Nat) (n : Node) (followed : List String) :
    Except Fault (List Field) := do
  if n.composition.present then return [← ofNode n "" false]
  let own := Constraints.ofRoot n
  let fields ← ofObject (descend root fuel) n "" followed
  return if own.isEmpty then fields else ⟨"", { type := .object }, own⟩ :: fields

/-- The fields of a schema below a place; the empty place makes it a document. -/
def ofSchema (schema : Json) (path : String) (root : Option Json) :
    Except Fault (List Field) := do
  let root := Pointer.document schema root
  let (settled, chain) ← settle root schema
  let fuel := Pointer.reach schema root + 1
  match settled with
  | .obj ms =>
    let n ← Node.ofMembers ms
    if path.isEmpty then ofDocument root fuel n chain
    else ofObject (descend root fuel) n path chain
  | _ => return []

end Field

end Conform
