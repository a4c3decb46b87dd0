import Conform.Evaluation.Basic

/-!
# Conform.Evaluation.Combination

The rules that combine schemas for one value. `allOf` passes on what its schemas report and
adds a summary; the others report only that summary, and ask each schema for one find. The
value is the same throughout, so the chain of references goes on.
-/

namespace Conform

namespace Evaluation

/-- Every schema has to accept. -/
def allOfRule (self : Evaluate) (schemas : Option (List Json)) (value : Json) (path : String)
    (chain : List String) : Trace Violation :=
  match schemas with
  | none => .done
  | some schemas =>
    let reports := Trace.each (fun s => self value s path chain) schemas
    reports.andThen fun _ => reportUnless reports.found.isEmpty
      (violation path .allOf "Value does not satisfy all schemas" value (.arr schemas))

/-- Some schema has to accept. -/
def anyOfRule (self : Evaluate) (schemas : Option (List Json)) (value : Json) (path : String)
    (chain : List String) : Trace Violation :=
  match schemas with
  | none => .done
  | some schemas => .after (someHolds (fun s => accepts self value s chain) schemas) fun ok =>
    reportUnless ok (violation path .anyOf "Value does not match any of the expected schemas" value
      (.arr schemas))

/-- Exactly one schema has to accept. -/
def oneOfRule (self : Evaluate) (schemas : Option (List Json)) (value : Json) (path : String)
    (chain : List String) : Trace Violation :=
  match schemas with
  | none => .done
  | some schemas =>
    .after (countHolding (fun s => accepts self value s chain) schemas) fun
      | 0 => violation path .oneOf "Value does not match any of the expected schemas" value
        (.arr schemas)
      | 1 => .done
      | _ => violation path .oneOf "Value matches more than one schema" value (.arr schemas)

/-- The schema must not accept. -/
def notRule (self : Evaluate) (schema : Option Json) (value : Json) (path : String)
    (chain : List String) : Trace Violation :=
  match schema with
  | none => .done
  | some schema => .after (accepts self value schema chain) fun ok =>
    reportUnless (!ok) (violation path .not "Value must not match the schema" value schema)

/-- One schema decides which of two others counts. -/
def conditionalRule (self : Evaluate) (k : ConditionalKeywords) (value : Json)
    (path : String) (chain : List String) : Trace Violation :=
  match k.test with
  | none => .done
  | some test => .after (accepts self value test chain) fun ok =>
    match if ok then k.accepted else k.rejected with
    | some schema => self value schema path chain
    | none => .done

/-- All rules that combine schemas. -/
def combinationRules (self : Evaluate) (n : Node) (value : Json) (path : String)
    (chain : List String) : Trace Violation :=
  .inTurn [
    fun _ => allOfRule self n.composition.allOf value path chain,
    fun _ => anyOfRule self n.composition.anyOf value path chain,
    fun _ => oneOfRule self n.composition.oneOf value path chain,
    fun _ => notRule self n.composition.not value path chain,
    fun _ => conditionalRule self n.conditional value path chain]

end Evaluation

end Conform
