import Conform.Form.Definition
import Conform.Proofs.Subschemas

/-!
# Conform.Proofs.KeywordRequests

The requests of constraints, keyword by keyword. A keyword is for values of one base type or for all
values:

```
string   minLength, maxLength, pattern, format
number   min, max, multipleOf, integer
array    minItems, maxItems, uniqueItems
object   minProperties, maxProperties, additionalProperties, propertyNames
all      const, required, allOf, anyOf, oneOf
```

Constraints become the requests of one keyword after the other (`ofConstraints_eq`), and a form is
called for each request that it has a capability for (`calls_requestAll`). With each request and
each call goes the keyword that it is made for, so that calls can be told apart that look the same:
`min` is asked for by `minLength` and by `min`.
-/

namespace Conform

namespace Form

/-! ## Keywords -/

/-- A keyword that is put to a form. A bound is one keyword with its mark. -/
inductive Keyword where
  | const
  | minLength
  | maxLength
  | pattern
  | format
  | min
  | max
  | multipleOf
  | integer
  | minItems
  | maxItems
  | uniqueItems
  | minProperties
  | maxProperties
  | additionalProperties
  | propertyNames
  | allOf
  | anyOf
  | oneOf
  | required
deriving DecidableEq, Repr

namespace Keyword

/-- The keywords but for the constant, in the order in which they are put to a form. -/
def inOrder : List Keyword :=
  [.minLength, .maxLength, .pattern, .format, .min, .max, .multipleOf, .integer, .minItems,
    .maxItems, .uniqueItems, .minProperties, .maxProperties, .additionalProperties,
    .propertyNames, .allOf, .anyOf, .oneOf, .required]

/-- The base type of the values that a keyword is for, if it is not for all. -/
def kind? : Keyword → Option BaseType
  | minLength | maxLength | pattern | format => some .string
  | min | max | multipleOf | integer => some .number
  | minItems | maxItems | uniqueItems => some .array
  | minProperties | maxProperties | additionalProperties | propertyNames => some .object
  | const | allOf | anyOf | oneOf | required => none

/-- Whether a keyword is for values of a base type. -/
def appliesTo (k : Keyword) (t : BaseType) : Bool := k.kind?.all (· == t)

/-- Whether a keyword combines schemas. -/
def isComposition : Keyword → Bool
  | allOf | anyOf | oneOf => true
  | _ => false

/-- The constraints that a keyword is read from. -/
def values (c : Constraints) : Keyword → List Json
  | const => [c.const]
  | minLength => [c.minLength]
  | maxLength => [c.maxLength]
  | pattern => [c.pattern]
  | format => [c.format]
  | min => [c.min, c.exclusiveMin]
  | max => [c.max, c.exclusiveMax]
  | multipleOf => [c.multipleOf]
  | integer => [c.integer]
  | minItems => [c.minItems]
  | maxItems => [c.maxItems]
  | uniqueItems => [c.uniqueItems]
  | minProperties => [c.minProperties]
  | maxProperties => [c.maxProperties]
  | additionalProperties => [c.additionalProperties]
  | propertyNames => [c.propertyNames]
  | allOf => [c.allOf]
  | anyOf => [c.anyOf]
  | oneOf => [c.oneOf]
  | required => [c.required]

variable [Host] in
/-- The requests of a keyword. -/
def requests (formats : Formats) (c : Constraints) : Keyword → Except Fault (List Request)
  | const => .ok [⟨"literal", [.value c.const], none⟩]
  | minLength => .ok (setting "min" c.minLength)
  | maxLength => .ok (setting "max" c.maxLength)
  | pattern => patternRequests c.pattern
  | format => formatRequests formats c.format
  | min => .ok (bounding "min" c.min c.exclusiveMin)
  | max => .ok (bounding "max" c.max c.exclusiveMax)
  | multipleOf => .ok (setting "multipleOf" c.multipleOf)
  | integer => .ok (marking "integer" c.integer)
  | minItems => .ok (setting "minItems" c.minItems)
  | maxItems => .ok (setting "maxItems" c.maxItems)
  | uniqueItems => .ok (marking "unique" c.uniqueItems)
  | minProperties => .ok (setting "minProperties" c.minProperties)
  | maxProperties => .ok (setting "maxProperties" c.maxProperties)
  | additionalProperties => .ok (setting "additionalProperties" c.additionalProperties)
  | propertyNames => .ok (setting "propertyNames" c.propertyNames)
  | allOf => .ok (composing .allOf c.allOf)
  | anyOf => .ok (composing .anyOf c.anyOf)
  | oneOf => .ok (composing .oneOf c.oneOf)
  | required => .ok (marking "required" c.required)

variable [Host] in
/-- What a keyword asks for depends on its own constraints only. -/
theorem requests_congr {k : Keyword} {c d : Constraints} (h : k.values c = k.values d)
    (formats : Formats) : k.requests formats c = k.requests formats d := by
  cases k <;> simp_all [values, requests]

end Keyword

/-! ## Requests -/

/-- What is made for a keyword, with the keyword. -/
def Keyword.tag {α : Type} (k : Keyword) (xs : List α) : List (Keyword × α) := xs.map (k, ·)

theorem Keyword.map_snd_tag {α : Type} (k : Keyword) (xs : List α) :
    (k.tag xs).map Prod.snd = xs := by
  simp [tag, Function.comp_def]

theorem Keyword.filter_tag {α : Type} (p : Keyword → Bool) (k : Keyword) (xs : List α) :
    (k.tag xs).filter (fun x => p x.1) = if p k then k.tag xs else [] := by
  split
  · next hk => exact List.filter_eq_self.mpr (by simp [tag, hk])
  · next hk => exact List.filter_eq_nil_iff.mpr (by simp [tag, hk])

variable {formats : Formats} {c d : Constraints}

/-- The keywords that are put to a form: a constant leaves none but `required` beside it. -/
def considered (c : Constraints) : List Keyword :=
  if c.const = .absent then Keyword.inOrder else [.const, .required]

section

variable [Host]

/-- The requests of keywords, each with its keyword. -/
def asked (formats : Formats) (c : Constraints) :
    List Keyword → Except Fault (List (Keyword × Request))
  | [] => .ok []
  | k :: ks =>
    k.requests formats c >>= fun rs =>
      asked formats c ks >>= fun more => .ok (k.tag rs ++ more)

/-- Constraints ask for what their keywords ask for, one after the other. -/
theorem ofConstraints_eq (formats : Formats) (c : Constraints) :
    ofConstraints formats c =
      (asked formats c (considered c)).map fun as => as.map Prod.snd := by
  unfold ofConstraints considered
  split
  · simp only [ofKeywords, Keyword.inOrder, asked, Keyword.requests]
    cases patternRequests c.pattern with
    | error f => rfl
    | ok pattern =>
      cases formatRequests formats c.format with
      | error f => rfl
      | ok format =>
        simp [Keyword.map_snd_tag, bind, Except.bind, pure, Except.pure, Except.map]
  · simp [asked, Keyword.requests, Keyword.map_snd_tag, bind, Except.bind, Except.map]

theorem asked_congr {ks : List Keyword} (h : ∀ k ∈ ks, k.values c = k.values d) :
    asked formats c ks = asked formats d ks := by
  induction ks with
  | nil => rfl
  | cons k ks ih =>
    obtain ⟨hk, hks⟩ := List.forall_mem_cons.mp h
    rw [asked, asked, Keyword.requests_congr hk, ih hks]

/-- Of what keywords ask for, some of them ask for their part. -/
theorem asked_filter {ks : List Keyword} {as : List (Keyword × Request)} (p : Keyword → Bool)
    (h : asked formats c ks = .ok as) :
    asked formats c (ks.filter p) = .ok (as.filter fun a => p a.1) := by
  induction ks generalizing as with
  | nil =>
    cases h
    rfl
  | cons k ks ih =>
    obtain ⟨rs, hrs, h⟩ := bind_eq_ok h
    obtain ⟨more, hmore, h⟩ := bind_eq_ok h
    cases h
    rw [List.filter_append, Keyword.filter_tag]
    cases hk : p k with
    | true =>
      rw [List.filter_cons_of_pos hk, asked, hrs, ih hmore]
      rfl
    | false =>
      rw [List.filter_cons_of_neg (Bool.not_eq_true _ ▸ hk), ih hmore]
      rfl

end

/-! ## Calls -/

/-- The call that a form answers a request with, if it has the capability. -/
def callsFor (f : Form) (r : Request) : List Call :=
  (f.interface.method? r.capability).toList.map fun m => ⟨m, r.args, r.exclusive, f.branch⟩

theorem calls_request (f : Form) (r : Request) : (f.request r).calls = f.calls ++ f.callsFor r := by
  unfold request callsFor
  cases f.interface.method? r.capability <;> simp [call]

theorem calls_requestAll (f : Form) (rs : List Request) :
    (f.requestAll rs).calls = f.calls ++ rs.flatMap f.callsFor := by
  induction rs generalizing f with
  | nil => simp
  | cons r rs ih =>
    have hcalls : (f.request r).callsFor = f.callsFor := by
      funext r'
      simp [callsFor]
    rw [requestAll_cons, ih, calls_request, hcalls, List.append_assoc, List.flatMap_cons]

/-- The calls of requests, each with its keyword. -/
def made (f : Form) (as : List (Keyword × Request)) : List (Keyword × Call) :=
  as.flatMap fun a => a.1.tag (f.callsFor a.2)

theorem map_snd_made (f : Form) (as : List (Keyword × Request)) :
    (f.made as).map Prod.snd = (as.map Prod.snd).flatMap f.callsFor := by
  rw [made, List.map_flatMap, List.flatMap_map]
  simp only [Keyword.map_snd_tag]

theorem calls_requestAll_asked (f : Form) (as : List (Keyword × Request)) :
    (f.requestAll (as.map Prod.snd)).calls = f.calls ++ (f.made as).map Prod.snd := by
  rw [calls_requestAll, map_snd_made]

/-- Of the calls those for some keywords are the calls of their requests. -/
theorem made_filter (f : Form) (p : Keyword → Bool) (as : List (Keyword × Request)) :
    (f.made as).filter (fun m => p m.1) = f.made (as.filter fun a => p a.1) := by
  induction as with
  | nil => rfl
  | cons a as ih =>
    have hcons : ∀ as, f.made (a :: as) = a.1.tag (f.callsFor a.2) ++ f.made as := fun _ => rfl
    rw [hcons, List.filter_append, Keyword.filter_tag, ih, List.filter_cons]
    split
    · rw [hcons]
    · rfl

/-! ## Forms -/

variable [Host] in
/-- A form with constraints put to it. -/
theorem constrain_eq (f : Form) (formats : Formats) (c : Constraints) :
    f.constrain formats c =
      (asked formats c (considered c)).map fun as => f.requestAll (as.map Prod.snd) := by
  rw [constrain, ofConstraints_eq]
  cases asked formats c (considered c) <;> rfl

end Form

end Conform
