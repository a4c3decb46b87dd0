import Conform.Evaluation
import Conform.Field

/-!
# Conform.Form.Basic

Forms. A form is built by calls, one for each thing that is asked of a field, and what a form
lets itself be called with is its interface: methods, and branches to go on from. A capability
goes by its own name, by the same name in lower case with underscores, and some by one more
name. What a form has no capability for is left out and does no harm.

A call may carry more than values: a pattern, a test of values, or the definitions of several
branches of which one has to hold. They are kept as what they are made from, and
`Predicate.holds` says what a test answers.
-/

namespace Conform

namespace Form

/-! ## Capabilities -/

/-- What a form can be asked for: methods to call, and branches to go on from. -/
structure Interface where
  methods : List String
  branches : List String := []
deriving DecidableEq, Repr

/-- Lower case letters with an underscore before each capital but the first letter. -/
def underscored : List Char → List Char
  | [] => []
  | c :: cs => c.toLower :: cs.flatMap fun d => if d.isUpper then ['_', d.toLower] else [d]

/-- Further names of a capability. -/
def furtherNames : String → List String
  | "datetime" => ["date_time"]
  | "unique" => ["unique_items"]
  | "v" => ["field"]
  | _ => []

/-- The names of a capability, in the order in which they are tried. -/
def spellings (capability : String) : List String :=
  [capability, String.ofList (underscored capability.toList)] ++ furtherNames capability

/-- The method for a capability. -/
def Interface.method? (i : Interface) (capability : String) : Option String :=
  (spellings capability).find? i.methods.contains

/-! ## Arguments -/

/-- How the schemas of a composition count. -/
inductive Composition where
  | allOf
  | anyOf
  | oneOf
deriving DecidableEq, Repr

/-- A test of values. -/
inductive Predicate where
  /-- The test of a format. -/
  | format (accepts : Json → Except String Bool)
  /-- A number of schemas has to accept the value. -/
  | composition (rule : Composition) (schemas : Json)
  /-- The value is an object with a member of a name. -/
  | hasMember (name : String)

variable [Host] in
/-- Whether a value passes a test, with the document that references address and the formats of
the caller. -/
def Predicate.holds (root : Option Json) (formats : Formats) (p : Predicate) (value : Json) :
    Except Fault Bool :=
  match p with
  | .format accepts => Format.ask accepts value
  | .hasMember name => .ok (value.get? name).isSome
  | .composition rule schemas => do
    let schemas ← schemas.elements
    let test := fun schema => Conform.accepts value schema root formats
    match rule with
    | .allOf => Evaluation.allHold test schemas
    | .anyOf => Evaluation.someHolds test schemas
    | .oneOf => return (← Evaluation.countHolding test schemas) == 1

/-- What a call carries. -/
inductive Argument where
  | value (j : Json)
  | pattern (text : String)
  | predicate (p : Predicate)
  | branches (members : List (BaseType × Constraints))

/-- Something that is asked of a form. -/
structure Request where
  capability : String
  args : List Argument := []
  exclusive : Option Json := none

/-! ## Forms -/

/-- A call that a form was built by: the name it was called by, what it carried, and the branch
it was made on. -/
structure Call where
  name : String
  args : List Argument := []
  exclusive : Option Json := none
  branch : String := ""

end Form

/-- A form under construction. -/
structure Form where
  interface : Form.Interface
  branch : String := ""
  calls : List Form.Call := []

namespace Form

/-- Whether a form has a capability. -/
def offers (f : Form) (capability : String) : Bool := (f.interface.method? capability).isSome

/-- Call a method. -/
def call (f : Form) (method : String) (args : List Argument) (exclusive : Option Json) :
    Form :=
  { f with calls := f.calls ++ [⟨method, args, exclusive, f.branch⟩] }

/-- Ask for something. -/
def request (f : Form) (r : Request) : Form :=
  match f.interface.method? r.capability with
  | some method => f.call method r.args r.exclusive
  | none => f

/-- Ask for one thing after the other. -/
def requestAll (f : Form) (rs : List Request) : Form := rs.foldl request f

@[simp] theorem request_interface (f : Form) (r : Request) :
    (f.request r).interface = f.interface := by
  unfold request
  split <;> rfl

@[simp] theorem request_branch (f : Form) (r : Request) :
    (f.request r).branch = f.branch := by
  unfold request
  split <;> rfl

@[simp] theorem requestAll_nil (f : Form) : f.requestAll [] = f := rfl

theorem requestAll_cons (f : Form) (r : Request) (rs : List Request) :
    f.requestAll (r :: rs) = (f.request r).requestAll rs := rfl

@[simp] theorem requestAll_interface (f : Form) (rs : List Request) :
    (f.requestAll rs).interface = f.interface := by
  induction rs generalizing f with
  | nil => rfl
  | cons r rs ih => rw [requestAll_cons, ih, request_interface]

@[simp] theorem requestAll_branch (f : Form) (rs : List Request) :
    (f.requestAll rs).branch = f.branch := by
  induction rs generalizing f with
  | nil => rfl
  | cons r rs ih => rw [requestAll_cons, ih, request_branch]

/-- Choose a base type. Null is a literal; every other base type is a method of its name or a
branch to go on from. -/
def choose (f : Form) (t : BaseType) : Form :=
  if t = .null then f.request ⟨"literal", [.value .null], none⟩
  else if f.interface.methods.contains t.text then f.call t.text [] none
  else if f.interface.branches.contains t.text then
    { f with branch := f.branch ++ "/" ++ t.text }
  else f

end Form

end Conform
