import Conform.Pointer
import Conform.Schema.Node

/-!
# Conform.Schema.Inline

A schema with every reference replaced by what it addresses, as far as schemas reach through
the keywords of `Inline.positions`. References elsewhere stay: in the tables of definitions,
and where a keyword holds data.

A reference met again below what it led to would be replaced for ever and is refused. What has
been followed counts for one branch only, so two branches may lead to one definition.
-/

namespace Conform

namespace Inline

/-- How a keyword holds schemas. -/
inductive Shape where
  /-- By name, in an object. -/
  | table
  /-- In an array. -/
  | list
  /-- In an array, or one alone. -/
  | listOrOne
  /-- One alone. -/
  | one
deriving DecidableEq, Repr

/-- The keywords that hold schemas, in the order in which they are replaced. -/
def positions : Table Shape := [
  ("properties", .table), ("patternProperties", .table), ("dependentSchemas", .table),
  ("items", .listOrOne),
  ("allOf", .list), ("anyOf", .list), ("oneOf", .list),
  ("additionalItems", .one), ("additionalProperties", .one), ("contains", .one),
  ("propertyNames", .one), ("not", .one), ("if", .one), ("then", .one), ("else", .one)]

/-- Replace each item. -/
def items (f : Json → Except Fault Json) : List Json → Except Fault (List Json)
  | [] => .ok []
  | x :: xs => do return (← f x) :: (← items f xs)

/-- Replace the value of each member. -/
def members (f : Json → Except Fault Json) : Members → Except Fault Members
  | [] => .ok []
  | (k, x) :: ms => do return (k, ← f x) :: (← members f ms)

/-- Replace the schemas that a keyword holds. A value of another shape holds none. -/
def Shape.replace (f : Json → Except Fault Json) (shape : Shape) (j : Json) :
    Except Fault Json :=
  match shape, j with
  | .table, .obj ms => (members f ms).map .obj
  | .list, .arr xs => (items f xs).map .arr
  | .listOrOne, .arr xs => (items f xs).map .arr
  | .listOrOne, j => f j
  | .one, j => f j
  | _, j => .ok j

/-- Replace the schemas of keywords one after the other. -/
def keywords (f : Json → Except Fault Json) : Table Shape → Members → Except Fault Members
  | [], ms => .ok ms
  | (k, shape) :: rest, ms =>
    match ms.lookup k with
    | none => keywords f rest ms
    | some j => do keywords f rest (Table.put ms k (← shape.replace f j))

/-- Replace references, in a number of steps. -/
def descend (guarded : Bool) (root : Json) : Nat → Json → List String → Except Fault Json
  | 0, _, _ => .error .exhausted
  | fuel + 1, schema, chain =>
    match schema with
    | .obj ms =>
      match Table.keyword ms "$ref" with
      | some ref => do
        Pointer.permit guarded ref chain
        descend guarded root fuel (← Pointer.resolve ref root) (Pointer.lengthen chain ref)
      | none =>
        (keywords (fun j => descend guarded root fuel j chain) positions ms).map .obj
    | j => .ok j

/-- A schema with its references replaced, behind references that were followed before. -/
def run (schema root : Json) (followed : List String) : Except Fault Json :=
  descend true root (Pointer.reach schema (some root) + 1) schema followed

end Inline

/-- A schema with its references into a document replaced. -/
def inlined (schema root : Json) : Except Fault Json := Inline.run schema root []

end Conform
