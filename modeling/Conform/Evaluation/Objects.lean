import Conform.Evaluation.Strings

/-!
# Conform.Evaluation.Objects

The rules for objects: bounds on the number of members, members that have to be there, the
schemas of members by name, by pattern and for the rest, a schema for the names themselves, and
what the presence of one member asks for. Reports follow the order of the members, except that
demanded names come in the order of the schema.

Members and names are new values and begin chains of their own. A schema that the presence of
a member asks for is a schema for the same object, and goes on with the chain.
-/

namespace Conform

namespace Evaluation

variable [Host]

/-- At least so many members. -/
def minPropertiesRule (k : ObjectKeywords) (ms : Members) (path : String) :
    Trace Violation :=
  limitRule k.minProperties (sizeAtLeast ms.length) .minProperties
    "Object must have at least " " properties" (.obj ms) path

/-- At most so many members. -/
def maxPropertiesRule (k : ObjectKeywords) (ms : Members) (path : String) :
    Trace Violation :=
  limitRule k.maxProperties (sizeAtMost ms.length) .maxProperties
    "Object must have at most " " properties" (.obj ms) path

/-- Whether an object has a member of a demanded name. What cannot be a name is a fault. -/
def hasMember (ms : Members) (name : Json) : Except Fault Bool :=
  match name with
  | .str s => .ok (Table.has ms s)
  | j => if j.isKey then .ok false else .error .wrongKind

/-- A demanded member that is missing, in words around its name. -/
def demand (ms : Members) (path : String) (code : Code) (before behind : String) (name : Json)
    (constraint : Json) : Trace Violation :=
  .after (hasMember ms name) fun there =>
    reportUnless there (.after (Fault.written name.shown?) fun words =>
      .find ⟨Path.demanded path name, code, before ++ words ++ behind, .null, constraint⟩)

/-- Every required member has to be there. -/
def requiredRule (k : ObjectKeywords) (ms : Members) (path : String) : Trace Violation :=
  .each (fun name => demand ms path .required "Missing required property: " "" name name)
    k.required

/-- Every member with a schema of its name against that schema. -/
def propertiesRule (self : Evaluate) (k : ObjectKeywords) (ms : Members) (path : String) :
    Trace Violation :=
  .each (fun (name, child) =>
    match k.properties.lookup name with
    | some schema => self child schema (Path.name path name) []
    | none => .done) ms

/-- Every member against the schemas of the patterns that occur in its name. -/
def patternPropertiesRule (self : Evaluate) (k : ObjectKeywords) (ms : Members)
    (path : String) : Trace Violation :=
  .each (fun (name, child) =>
    .each (fun (pattern, schema) =>
      .after (Pattern.occursIn pattern name) fun occurs =>
        if occurs then self child schema (Path.name path name) [] else .done)
      k.patternProperties) ms

/-- Whether no schema by name or by pattern is meant for a name. -/
def isAdditional (k : ObjectKeywords) (name : String) : Except Fault Bool :=
  if Table.has k.properties name then .ok false
  else (someHolds (fun p : String × Json => Pattern.occursIn p.1 name)
    k.patternProperties).map not

/-- The members that no other schema is meant for. -/
def additionalPropertiesRule (self : Evaluate) (k : ObjectKeywords) (ms : Members)
    (path : String) : Trace Violation :=
  match k.additionalProperties with
  | none => .done
  | some (.bool true) => .done
  | some schema =>
    .each (fun (name, child) =>
      .after (isAdditional k name) fun additional =>
        if !additional then .done
        else if schema = .bool false then
          violation (Path.name path name) .additionalProperties
            ("Additional property '" ++ name ++ "' is not allowed") child (.bool false)
        else self child schema (Path.name path name) []) ms

/-- Every name against the schema for names. -/
def propertyNamesRule (self : Evaluate) (k : ObjectKeywords) (ms : Members)
    (path : String) : Trace Violation :=
  match k.propertyNames with
  | none => .done
  | some schema =>
    .each (fun (name, _) =>
      .after (accepts self (.str name) schema []) fun ok =>
        reportUnless ok (violation (Path.name path name) .propertyNames
          ("Property name '" ++ name ++ "' does not match schema") (.str name) schema)) ms

/-- The members that the presence of others asks for. -/
def dependentRequiredRule (k : ObjectKeywords) (ms : Members) (path : String) :
    Trace Violation :=
  .each (fun (trigger, names) =>
    if Table.has ms trigger then
      .each (fun name => demand ms path .dependentRequired
        "Property '" ("' is required when '" ++ trigger ++ "' is present")
        name (.str trigger)) names
    else .done) k.dependentRequired

/-- The schemas that the presence of members asks for. -/
def dependentSchemasRule (self : Evaluate) (k : ObjectKeywords) (ms : Members)
    (path : String) (chain : List String) : Trace Violation :=
  .each (fun (trigger, schema) =>
    if Table.has ms trigger then self (.obj ms) schema path chain else .done)
    k.dependentSchemas

/-- All rules for an object. -/
def objectRules (self : Evaluate) (k : ObjectKeywords) (ms : Members) (path : String)
    (chain : List String) : Trace Violation :=
  .inTurn [
    fun _ => minPropertiesRule k ms path,
    fun _ => maxPropertiesRule k ms path,
    fun _ => requiredRule k ms path,
    fun _ => propertiesRule self k ms path,
    fun _ => patternPropertiesRule self k ms path,
    fun _ => additionalPropertiesRule self k ms path,
    fun _ => propertyNamesRule self k ms path,
    fun _ => dependentRequiredRule k ms path,
    fun _ => dependentSchemasRule self k ms path chain]

end Evaluation

end Conform
