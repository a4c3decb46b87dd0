import Conform.Evaluation.Basic
import Conform.Json.Equality

/-!
# Conform.Evaluation.Arrays

The rules for arrays: bounds on the number of items, items that differ, the schemas of items
by position or for all, and an item that has to match. Items are new values, so each begins a
chain of its own.
-/

namespace Conform

namespace Evaluation

/-- At least so many items. -/
def minItemsRule (k : ArrayKeywords) (xs : List Json) (path : String) : Trace Violation :=
  limitRule k.minItems (sizeAtLeast xs.length) .minItems "Array must have at least " " items"
    (.arr xs) path

/-- At most so many items. -/
def maxItemsRule (k : ArrayKeywords) (xs : List Json) (path : String) : Trace Violation :=
  limitRule k.maxItems (sizeAtMost xs.length) .maxItems "Array must have at most " " items"
    (.arr xs) path

/-- No two equal items. -/
def uniqueItemsRule (k : ArrayKeywords) (xs : List Json) (path : String) : Trace Violation :=
  reportUnless (!k.uniqueItems || !Json.hasDuplicates xs)
    (violation path .uniqueItems "Array must contain unique items" (.arr xs) (.bool true))

/-- An item behind the schemas by position. -/
def additionalItem (self : Evaluate) (additional : Option Json) (item : Json)
    (path : String) : Trace Violation :=
  match additional with
  | some (.bool false) =>
    violation path .additionalItems "Additional items are not allowed" item (.bool false)
  | some (.obj ms) => self item (.obj ms) path []
  | _ => .done

/-- Items from a position on against the schemas of their positions. -/
def positionalItems (self : Evaluate) (additional : Option Json) (path : String) :
    Nat → List Json → List Json → Trace Violation
  | _, [], _ => .done
  | i, x :: xs, schemas =>
    (match schemas with
      | [] => additionalItem self additional x (Path.index path i)
      | s :: _ => self x s (Path.index path i) []).andThen fun _ =>
    positionalItems self additional path (i + 1) xs (schemas.drop 1)

/-- Items from a position on against one schema. -/
def uniformItems (self : Evaluate) (schema : Json) (path : String) :
    Nat → List Json → Trace Violation
  | _, [] => .done
  | i, x :: xs => (self x schema (Path.index path i) []).andThen fun _ =>
    uniformItems self schema path (i + 1) xs

/-- Every item against its schema. -/
def itemsRule (self : Evaluate) (k : ArrayKeywords) (xs : List Json) (path : String) :
    Trace Violation :=
  match k.items with
  | none => .done
  | some (.arr schemas) => positionalItems self k.additionalItems path 0 xs schemas
  | some schema => uniformItems self schema path 0 xs

/-- Some item has to match. -/
def containsRule (self : Evaluate) (k : ArrayKeywords) (xs : List Json) (path : String) :
    Trace Violation :=
  match k.contains with
  | none => .done
  | some wanted => .after (someHolds (fun x => accepts self x wanted []) xs) fun ok =>
    reportUnless ok (violation path .contains
      "Array must contain at least one item matching the schema" (.arr xs) wanted)

/-- All rules for an array. -/
def arrayRules (self : Evaluate) (k : ArrayKeywords) (xs : List Json) (path : String) :
    Trace Violation :=
  .inTurn [
    fun _ => minItemsRule k xs path,
    fun _ => maxItemsRule k xs path,
    fun _ => uniqueItemsRule k xs path,
    fun _ => itemsRule self k xs path,
    fun _ => containsRule self k xs path]

end Evaluation

end Conform
