import Conform.Field.Flatten
import Conform.Form.Definition

/-!
# Conform.Form.Registration

A whole document put to a register of forms. What the register is handed are definitions, each
for a place: those of the fields, in their order, and after them what belongs to no field, namely
that unknown members are refused, and for each pair of a demand that a member depends on, a
definition that requires it if the other one is present. The register builds each definition on a
form of its own.
-/

namespace Conform

namespace Form

variable [Host]

/-- What a register is handed. -/
inductive Note where
  /-- A definition for a place. The place of a demanded member is whatever was demanded. -/
  | definition (method : String) (path : Json) (build : Form → Except Fault Form)
  /-- That unknown members are refused. -/
  | strict (method : String)

/-- What a register has noted. -/
inductive Entry where
  /-- A form at a place. -/
  | form (method : String) (path : Json) (form : Form)
  /-- That unknown members are refused. -/
  | strict (method : String)

/-! ## What is handed over -/

/-- A definition for a place, if the register takes definitions. -/
def register (registry : Interface) (path : Json) (build : Form → Except Fault Form) :
    Except Fault Note :=
  match registry.method? "v" with
  | some method => .ok (.definition method path build)
  | none => .error .noRegistration

/-- The definitions of fields; the field at the empty place is left out. -/
def fieldNotes (registry : Interface) (formats : Formats) :
    List Field → Except Fault (List Note)
  | [] => .ok []
  | field :: fields => do
    if field.path.isEmpty then fieldNotes registry formats fields
    else
      let note ← register registry (.str field.path) fun f => f.define formats field
      return note :: (← fieldNotes registry formats fields)

/-- The note that unknown members are refused, if they are and the register takes it. -/
def strictNotes (registry : Interface) (c : Constraints) : List Note :=
  if c.additionalProperties = .bool false then
    (registry.method? "strict").toList.map .strict
  else []

/-- A form that requires a field if the document has a member. -/
def requireIf (f : Form) (trigger : String) : Form :=
  f.request ⟨"requiredIf", [.predicate (.hasMember trigger)], none⟩

/-- The pairs of a member and what is demanded beside it. -/
def demandPairs (c : Constraints) : List (String × Json) :=
  match c.dependentRequired with
  | .obj ms => ms.flatMap fun (trigger, names) =>
    (names.items?.getD []).map fun name => (trigger, name)
  | _ => []

/-- The definitions of demands. -/
def demandNotes (registry : Interface) : List (String × Json) → Except Fault (List Note)
  | [] => .ok []
  | (trigger, name) :: pairs => do
    let note ← register registry name fun f => .ok (f.requireIf trigger)
    return note :: (← demandNotes registry pairs)

/-- What is handed over for the field at the empty place. -/
def rootNotes (registry : Interface) (c : Constraints) : Except Fault (List Note) := do
  let demands ← demandNotes registry (demandPairs c)
  return strictNotes registry c ++ demands

/-- What is handed over for a document. -/
def notes (registry : Interface) (schema : Json) (formats : Formats) :
    Except Fault (List Note) := do
  let fields ← Field.ofSchema schema "" none
  let notes ← fieldNotes registry formats fields
  match fields.find? fun field => field.path.isEmpty with
  | some field => return notes ++ (← rootNotes registry field.constraints)
  | none => return notes

/-! ## What is noted -/

/-- The entry of a note, with a form that begins as a given one. -/
def Note.enter (f : Form) : Note → Except Fault Entry
  | .definition method path build => (build f).map (.form method path)
  | .strict method => .ok (.strict method)

/-- Register a document with forms that begin as a given one. -/
def registerAll (registry : Interface) (f : Form) (schema : Json) (formats : Formats) :
    Except Fault (List Entry) := do
  (← notes registry schema formats).mapM (Note.enter f)

end Form

end Conform
