import Conform.Json.Text

/-!
# Conform.Path

Where a value lies in a document, as text: a period goes before the name of a member except at
the front, and an index stands in brackets.

```
address.city    tags[2]    items[0].sku    (empty: the document itself)
```

A target may also be written with slashes; `normalize` gives it the form above.
-/

namespace Conform

namespace Path

/-- The place of a member. -/
def name (path member : String) : String :=
  if path.isEmpty then member else path ++ "." ++ member

/-- The place of an item. -/
def index (path : String) (i : Nat) : String := path ++ "[" ++ toString i ++ "]"

/-- The place of a member that a schema demands. A schema may demand what is no text; at the
front it then stands for itself. -/
def demanded (path : String) (member : Json) : Json :=
  if path.isEmpty then member else .str (path ++ "." ++ member.words)

/-! ## Targets -/

/-- A target in the form of a place: after a slash in front, slashes stand for periods. -/
def normalize (target : String) : String :=
  match target.toList with
  | '/' :: cs => String.ofList (cs.map fun c => if c = '/' then '.' else c)
  | _ => target

/-- Whether a text begins with another. -/
def startsWith (text start : String) : Bool := start.toList.isPrefixOf text.toList

/-- Whether a place is a target or lies below it. -/
def isUnder (path target : String) : Bool :=
  path == target || startsWith path (target ++ ".") || startsWith path (target ++ "[")

/-! ## Steps -/

/-- One step into a value. -/
inductive Step where
  | name (member : String)
  | index (i : Nat)
deriving DecidableEq, Repr

/-- The place one step further. -/
def extend (path : String) : Step → String
  | .name member => name path member
  | .index i => index path i

/-- The place that steps lead to. -/
def render (path : String) (steps : List Step) : String := steps.foldl extend path

@[simp] theorem render_nil (path : String) : render path [] = path := rfl

theorem render_append (path : String) (s t : List Step) :
    render path (s ++ t) = render (render path s) t := by
  simp [render]

theorem demanded_str (path member : String) :
    demanded path (.str member) = .str (name path member) := by
  unfold demanded name
  split <;> simp [Json.words]

end Path

end Conform
