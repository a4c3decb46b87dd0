import Conform.Fault

/-!
# Conform.Host

What a reading takes from outside and does not define itself:

* the texts on which its stack gives out, where a pattern or a document is read;
* the character that a name stands for, in a pattern;
* the texts that are moments, for the formats of dates;
* the documents that the schema of schemas admits, for validators that are held to it.

Everything that is proved holds for every host. Of the stack it is known only that a text has
to nest for it to give out: up to `Host.depth` opening brackets are always read. Of the reading
of moments it is known only that a text that is none, or one beyond the calendar, is told as such.
-/

namespace Conform

/-- The brackets that open a further level of a document. -/
def isDocumentBracket (c : Char) : Bool := c == '[' || c == '\x7b'

/-- The bracket that opens a further level of a pattern. -/
def isPatternBracket (c : Char) : Bool := c == '('

/-- What a reading takes from outside. -/
class Host where
  /-- How many levels can always be read. -/
  depth : Nat
  /-- Whether the stack gives out on a document. -/
  exhaustsDocument : List Char → Bool
  /-- Whether the stack gives out on a pattern. -/
  exhaustsPattern : List Char → Bool
  /-- The character of a name. -/
  character? : String → Option Char
  /-- Read a text as a moment: a date, or a date with a time. -/
  readMoment : String → Except Fault Unit
  /-- Hold a document against the schema of schemas. -/
  checkSchema : Json → Except Fault Unit
  deep_document : ∀ cs, exhaustsDocument cs = true → depth < cs.countP isDocumentBracket
  deep_pattern : ∀ cs, exhaustsPattern cs = true → depth < cs.countP isPatternBracket
  moment_raises : ∀ s f, readMoment s = .error f → f = .notAllowed ∨ f = .tooLarge

namespace Host

/-- A host that gives out as soon as it may, and knows some characters, moments and documents
by heart. -/
@[reducible]
def listed (depth : Nat) (characters : Table Char) (moments : List String)
    (documents : List Json) : Host where
  depth := depth
  exhaustsDocument cs := depth < cs.countP isDocumentBracket
  exhaustsPattern cs := depth < cs.countP isPatternBracket
  character? name := characters.lookup name
  readMoment s := if moments.contains s then .ok () else .error .notAllowed
  checkSchema j := if documents.contains j then .ok () else .error .schemaRefused
  deep_document _ h := of_decide_eq_true h
  deep_pattern _ h := of_decide_eq_true h
  moment_raises s f h := by
    split at h
    · cases h
    · exact .inl (Except.error.inj h).symm

end Host

namespace Sample

/-- The host of the examples. -/
scoped instance host : Host := .listed 900 [("EM DASH", '—')] ["9999-12-31"] []

end Sample

end Conform
