import Conform.Evaluation.Basic
import Conform.Base64
import Conform.Json.Reader
import Conform.Text.Utf8

/-!
# Conform.Evaluation.Strings

The rules for strings: bounds on the number of characters, a pattern that has to occur, a
format, and content. Content is checked where it is encoded in base 64 and where it is a
document; of an encoding that is broken only the encoding is reported.
-/

namespace Conform

namespace Evaluation

variable [Host]

/-- At least so many characters. -/
def minLengthRule (k : StringKeywords) (s : String) (path : String) : Trace Violation :=
  limitRule k.minLength (sizeAtLeast s.length) .minLength "String length must be at least " ""
    (.str s) path

/-- At most so many characters. -/
def maxLengthRule (k : StringKeywords) (s : String) (path : String) : Trace Violation :=
  limitRule k.maxLength (sizeAtMost s.length) .maxLength "String length must be at most " ""
    (.str s) path

/-- Whether a pattern occurs in a text. What is no text is no pattern. -/
def patternOccurs (pattern : Json) (s : String) : Except Fault Bool :=
  match pattern with
  | .str p => Pattern.occursIn p s
  | _ => .error .wrongKind

/-- A pattern has to occur, unless it is empty. -/
def patternRule (k : StringKeywords) (s : String) (path : String) : Trace Violation :=
  match k.pattern with
  | none => .done
  | some p =>
    if p.isFalsy then .done
    else .after (patternOccurs p s) fun ok =>
      reportUnless ok (.after (Fault.written p.shown?) fun words =>
        violation path .pattern ("String must match pattern: " ++ words) (.str s) p)

/-- A format has to be kept, unless its name is empty. -/
def formatRule (formats : Formats) (k : StringKeywords) (s : String) (path : String) :
    Trace Violation :=
  match k.format with
  | none => .done
  | some name =>
    if name.isFalsy then .done
    else .after (Format.check formats (.str s) name) fun ok =>
      reportUnless ok (.after (Fault.written name.shown?) fun words =>
        violation path .format ("String must be valid " ++ words) (.str s) name)

/-- The name of the one encoding that is checked. -/
def base64Name : String := "base64"

/-- The name of the one kind of content that is checked. -/
def documentName : String := "application/json"

/-- Whether base 64 is declared. -/
def declaresBase64 (k : StringKeywords) : Bool :=
  k.contentEncoding == some (.str base64Name)

/-- A declared encoding has to be kept. -/
def contentEncodingRule (k : StringKeywords) (s : String) (path : String) :
    Trace Violation :=
  if declaresBase64 k then
    reportUnless (Base64.isEncoded s.toList)
      (violation path .contentEncoding ("String must be valid " ++ base64Name ++ " encoding")
        (.str s) (.str base64Name))
  else .done

/-- Whether a text is a document, if the stack of the host is deep enough to tell. -/
def readsDocument (cs : List Char) : Except Fault Bool :=
  if Host.exhaustsDocument cs then .error .tooDeep else .ok (Json.ofChars? cs).isSome

/-- Whether a text, or the bytes it encodes, are a document. -/
def isDocument (encoded : Bool) (s : String) : Except Fault Bool :=
  if encoded then
    match Utf8.decode? (Base64.decode s.toList) with
    | some cs => readsDocument cs
    | none => .ok false
  else readsDocument s.toList

/-- Content declared to be a document has to be one. -/
def contentMediaTypeRule (k : StringKeywords) (s : String) (path : String) :
    Trace Violation :=
  if k.contentMediaType == some (.str documentName) then
    if declaresBase64 k && !Base64.isEncoded s.toList then .done
    else .after (isDocument (declaresBase64 k) s) fun ok =>
      reportUnless ok
        (violation path .contentMediaType ("String must be valid " ++ documentName ++ " content")
          (.str s) (.str documentName))
  else .done

/-- All rules for a string. -/
def stringRules (formats : Formats) (k : StringKeywords) (s : String) (path : String) :
    Trace Violation :=
  .inTurn [
    fun _ => minLengthRule k s path,
    fun _ => maxLengthRule k s path,
    fun _ => patternRule k s path,
    fun _ => formatRule formats k s path,
    fun _ => contentEncodingRule k s path,
    fun _ => contentMediaTypeRule k s path]

end Evaluation

end Conform
