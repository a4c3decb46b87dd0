import Conform.Evaluation
import Conform.Json.Equality

/-!
# Conform.Report

What a caller is told about a value: everything there is to report, the part of it below one
target, and the same sorted by place. A value is first asked for one find only; all finds are
collected only where there is one.
-/

namespace Conform

variable [Host]

namespace Report

/-- Everything to report of a value against a schema. -/
def all (value schema : Json) (root : Option Json) (path : String) (formats : Formats) :
    Except Fault (List Violation) :=
  match accepts value schema root formats with
  | .error f => .error f
  | .ok true => .ok []
  | .ok false => (Evaluation.run value schema root path formats).toExcept

/-- Whether a report lies at or below a target. The place has to be a text. -/
def isBelow (target : String) (v : Violation) : Except Fault Bool :=
  match v.path with
  | .str p => .ok (Path.isUnder p target)
  | _ => .error .noMembers

/-- Keep what a test accepts. -/
def keep (test : Violation → Except Fault Bool) :
    List Violation → Except Fault (List Violation)
  | [] => .ok []
  | v :: vs => do
    let kept ← test v
    let rest ← keep test vs
    return if kept then v :: rest else rest

/-- What is to be reported at or below a target. -/
def below (value schema : Json) (target : String) (root : Option Json) (formats : Formats) :
    Except Fault (List Violation) := do
  keep (isBelow (Path.normalize target)) (← all value schema root "" formats)

/-! ## By place -/

/-- Reports sorted by place. -/
abbrev Groups := List (Json × List Violation)

/-- Add a report to the group of its place, or begin one. -/
def addTo (v : Violation) : Groups → Groups
  | [] => [(v.path, [v])]
  | (p, vs) :: gs => if p.sameKey v.path then (p, vs ++ [v]) :: gs else (p, vs) :: addTo v gs

/-- Reports sorted by place, places in the order of their first report. -/
def byPlace (vs : List Violation) : Groups := vs.foldl (fun gs v => addTo v gs) []

end Report

/-! ## Results -/

/-- The outcome of a validation: the reports, the places where something is missing, and the
places where something else is wrong. -/
structure Outcome where
  valid : Bool
  errors : List Violation
  data : Json
  missing : List Json
  invalid : List Json
deriving Repr

namespace Outcome

/-- Add a place that is not there yet. -/
def addPlace (places : List Json) (p : Json) : List Json :=
  if places.any (Json.sameKey p) then places else places ++ [p]

/-- The places of reports that something is missing, in order. -/
def missingPlaces (vs : List Violation) : List Json :=
  (vs.filter fun v => v.code == .required).map Violation.path

/-- The places of all other reports, each once, in order. -/
def invalidPlaces (vs : List Violation) : List Json :=
  ((vs.filter fun v => v.code != .required).map Violation.path).foldl addPlace []

/-- The outcome with given reports. -/
def ofReports (data : Json) (vs : List Violation) : Outcome where
  valid := vs.isEmpty
  errors := vs
  data := data
  missing := missingPlaces vs
  invalid := invalidPlaces vs

/-- The reports sorted by place. -/
def byPlace (o : Outcome) : Report.Groups := Report.byPlace o.errors

/-- An outcome in writing, without data that is null. -/
def toJson (o : Outcome) : Json :=
  .obj ([("isValid", .bool o.valid), ("errors", .arr (o.errors.map Violation.toJson))]
    ++ (if o.data = .null then [] else [("data", o.data)])
    ++ [("missingFields", .arr o.missing), ("invalidFields", .arr o.invalid)])

end Outcome

end Conform
