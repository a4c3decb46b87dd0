import Conform.Pattern.Grammar
import Conform.Pattern.Matching

/-!
# Conform.Pattern

Patterns as schemas use them: a text is read as a pattern, and a value matches if the pattern
occurs anywhere in it.
-/

namespace Conform

namespace Pattern

variable [Host]

/-- Whether a text is a pattern. A slip that is no mere break of the grammar is a fault. -/
def isPattern (text : String) : Except Fault Bool :=
  match ofChars text.toList with
  | .ok _ => .ok true
  | .error .patternSyntax => .ok false
  | .error f => .error f

/-- Whether a pattern occurs in a text. -/
def occursIn (pattern text : String) : Except Fault Bool := do
  let tree ← ofChars pattern.toList
  return tree.occursIn text.toList

end Pattern

end Conform
