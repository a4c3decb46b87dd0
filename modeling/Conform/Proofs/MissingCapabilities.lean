import Conform.Proofs.ApplicableKeywords

/-!
# Conform.Proofs.MissingCapabilities

Forms that lack capabilities. What a form does not take is left out, and nothing else changes: the
calls that a field makes are those it makes on a form that takes everything, without the calls that
the form does not take.

```
takes everything              string()  nullable()  min(2)  max(9)  required()
takes string, max, required   string()                      max(9)  required()
```

Each capability is asked for by its own name first. Some have further spellings, and what makes the
calls independent of each other is that no spelling of a capability is the name of another one
(`eq_of_mem_spellings`).
-/

namespace Conform

namespace Form

/-! ## What keywords ask for -/

/-- The capabilities that a keyword may ask for. -/
def Keyword.capabilities : Keyword → List String
  | const => ["literal"]
  | minLength | min => ["min"]
  | maxLength | max => ["max"]
  | pattern => ["pattern"]
  | format => ["refine", "email", "url", "uuid", "datetime"]
  | multipleOf => ["multipleOf"]
  | integer => ["integer"]
  | minItems => ["minItems"]
  | maxItems => ["maxItems"]
  | uniqueItems => ["unique"]
  | minProperties => ["minProperties"]
  | maxProperties => ["maxProperties"]
  | additionalProperties => ["additionalProperties"]
  | propertyNames => ["propertyNames"]
  | allOf | anyOf | oneOf => ["custom"]
  | required => ["required"]

variable {capability : String} {j mark : Json} {r : Request} {rs : List Request}
  {formats : Formats} {c : Constraints}

theorem capability_setting (h : r ∈ setting capability j) : r.capability = capability := by
  unfold setting at h
  split at h <;> simp_all

theorem capability_marking (h : r ∈ marking capability j) : r.capability = capability := by
  unfold marking at h
  split at h <;> simp_all

theorem capability_bounding (h : r ∈ bounding capability j mark) : r.capability = capability := by
  unfold bounding at h
  split at h <;> simp_all

theorem capability_composing {rule : Composition} (h : r ∈ composing rule j) :
    r.capability = "custom" := by
  unfold composing at h
  split at h <;> simp_all

variable [Host] in
theorem capability_patternRequests (h : patternRequests j = .ok rs) (hr : r ∈ rs) :
    r.capability = "pattern" := by
  unfold patternRequests at h
  split at h
  · cases h
    cases hr
  · split at h
    · next text _ =>
      cases hread : Pattern.ofChars text.toList with
      | error f =>
        rw [hread] at h
        cases h
      | ok tree =>
        rw [hread] at h
        cases h
        rw [List.mem_singleton.mp hr]
    · cases h

theorem formatCapability?_mem {name : String} (h : formatCapability? name = some capability) :
    capability ∈ Keyword.format.capabilities := by
  unfold formatCapability? at h
  split at h <;> cases h <;> decide

theorem capability_formatRequests (h : formatRequests formats j = .ok rs) (hr : r ∈ rs) :
    r.capability ∈ Keyword.format.capabilities := by
  unfold formatRequests at h
  split at h
  · cases h
    cases hr
  · split at h
    · split at h
      · cases h
        rw [List.mem_singleton.mp hr]
        exact List.mem_cons_self
      · next name _ =>
        cases h
        obtain ⟨capability, hcapability, rfl⟩ := List.mem_map.mp hr
        exact formatCapability?_mem (Option.mem_toList.mp hcapability)
    · split at h
      · cases h
        cases hr
      · cases h

variable [Host] in
/-- A keyword asks for its capabilities only. -/
theorem Keyword.capability_mem {k : Keyword} (h : k.requests formats c = .ok rs) (hr : r ∈ rs) :
    r.capability ∈ k.capabilities := by
  cases k
  case pattern =>
    rw [capability_patternRequests h hr]
    decide
  case format => exact capability_formatRequests h hr
  case const =>
    cases h
    rw [List.mem_singleton.mp hr]
    exact List.mem_cons_self
  case allOf | anyOf | oneOf =>
    cases h
    rw [capability_composing hr]
    decide
  case min | max =>
    cases h
    rw [capability_bounding hr]
    decide
  case integer | uniqueItems | required =>
    cases h
    rw [capability_marking hr]
    decide
  all_goals
    cases h
    rw [capability_setting hr]
    decide

variable [Host] in
theorem asked_mem {ks : List Keyword} {as : List (Keyword × Request)}
    (h : asked formats c ks = .ok as) {a : Keyword × Request} (ha : a ∈ as) :
    a.1 ∈ ks ∧ a.2.capability ∈ a.1.capabilities := by
  induction ks generalizing as with
  | nil =>
    cases h
    cases ha
  | cons k ks ih =>
    obtain ⟨rs, hrs, h⟩ := bind_eq_ok h
    obtain ⟨more, hmore, h⟩ := bind_eq_ok h
    cases h
    cases List.mem_append.mp ha with
    | inl ha =>
      obtain ⟨r, hr, rfl⟩ := List.mem_map.mp ha
      exact ⟨List.mem_cons_self, Keyword.capability_mem hrs hr⟩
    | inr ha =>
      obtain ⟨hk, hcapability⟩ := ih hmore ha
      exact ⟨List.mem_cons_of_mem k hk, hcapability⟩

/-! ## Names of capabilities -/

/-- The names that capabilities go by: base types, keywords, and what fields and documents are asked
for besides. -/
def canonical : List String :=
  ["string", "number", "boolean", "date", "array", "object", "tuple", "literal", "nullable",
    "required", "min", "max", "pattern", "refine", "email", "url", "uuid", "datetime",
    "multipleOf", "integer", "minItems", "maxItems", "unique", "minProperties", "maxProperties",
    "additionalProperties", "propertyNames", "custom", "oneOf", "requiredIf", "v", "strict"]

theorem Keyword.capabilities_subset (k : Keyword) : k.capabilities ⊆ canonical := by
  cases k <;> decide

theorem text_mem_canonical {t : BaseType} (ht : t ≠ .null) : t.text ∈ canonical := by
  cases t with
  | null => exact absurd rfl ht
  | _ => decide

/-- No spelling of a capability is the name of another one. -/
theorem eq_of_mem_spellings :
    ∀ name ∈ canonical, ∀ s ∈ spellings name, s ∈ canonical → s = name := by
  decide +kernel

/-- A form that takes some of the capabilities takes each by its own name. -/
theorem method?_of_subset {methods : List String} (hmethods : methods ⊆ canonical)
    (hcapability : capability ∈ canonical) :
    (⟨methods, []⟩ : Interface).method? capability =
      if methods.contains capability then some capability else none := by
  unfold Interface.method?
  split
  · next h => exact List.find?_cons_of_pos h
  · next h =>
    rw [List.find?_eq_none]
    intro s hs hcontains
    have hname : s = capability :=
      eq_of_mem_spellings capability hcapability s hs
        (hmethods (List.contains_iff_mem.mp hcontains))
    rw [hname] at hcontains
    exact h hcontains

/-! ## Calls that are left out -/

/-- A form that takes some capabilities and has not been called. -/
def exposing (methods : List String) : Form := { interface := ⟨methods, []⟩ }

/-- A form that takes some capabilities, called as another one was but for what it does not take. -/
def keeping (methods : List String) (f : Form) : Form :=
  { exposing methods with calls := f.calls.filter fun call => methods.contains call.name }

/-- A form that takes every capability, whatever it was called. -/
structure TakesAll (f : Form) : Prop where
  interface : f.interface = ⟨canonical, []⟩
  branch : f.branch = ""

variable {f : Form} {methods : List String}

theorem takesAll_exposing : (exposing canonical).TakesAll := ⟨rfl, rfl⟩

theorem TakesAll.request (hf : f.TakesAll) (r : Request) : (f.request r).TakesAll where
  interface := (request_interface f r).trans hf.interface
  branch := (request_branch f r).trans hf.branch

theorem TakesAll.requestAll (hf : f.TakesAll) (rs : List Request) : (f.requestAll rs).TakesAll where
  interface := (requestAll_interface f rs).trans hf.interface
  branch := (requestAll_branch f rs).trans hf.branch

theorem TakesAll.contains_text (hf : f.TakesAll) {t : BaseType} (ht : t ≠ .null) :
    f.interface.methods.contains t.text = true := by
  rw [hf.interface]
  exact List.contains_iff_mem.mpr (text_mem_canonical ht)

theorem TakesAll.choose_eq (hf : f.TakesAll) {t : BaseType} (ht : t ≠ .null) :
    f.choose t = f.call t.text [] none := by
  rw [choose, if_neg ht, if_pos (hf.contains_text ht)]

theorem TakesAll.choose (hf : f.TakesAll) (t : BaseType) : (f.choose t).TakesAll := by
  by_cases ht : t = .null
  · rw [Form.choose, if_pos ht]
    exact hf.request _
  · rw [hf.choose_eq ht]
    exact ⟨hf.interface, hf.branch⟩

/-- A call is left out if its name is none of those that are taken. -/
theorem keeping_call (hf : f.TakesAll) (name : String) (args : List Argument)
    (exclusive : Option Json) :
    (f.call name args exclusive).keeping methods =
      if methods.contains name then (f.keeping methods).call name args exclusive
      else f.keeping methods := by
  have hcalls : (f.call name args exclusive).calls = f.calls ++ [⟨name, args, exclusive, ""⟩] := by
    rw [call, hf.branch]
  rw [keeping, hcalls, List.filter_append, List.filter_cons]
  split
  · rfl
  · rw [List.filter_nil, List.append_nil]
    rfl

/-- A request that is made of a form for which calls are left out. -/
theorem keeping_request (hf : f.TakesAll) (hmethods : methods ⊆ canonical) {r : Request}
    (hr : r.capability ∈ canonical) :
    (f.request r).keeping methods = (f.keeping methods).request r := by
  have hall : f.interface.method? r.capability = some r.capability := by
    rw [hf.interface, method?_of_subset (List.Subset.refl _) hr,
      if_pos (List.contains_iff_mem.mpr hr)]
  have hsome : (f.keeping methods).interface.method? r.capability =
      if methods.contains r.capability then some r.capability else none :=
    method?_of_subset hmethods hr
  unfold request
  rw [hall, hsome]
  dsimp only
  rw [keeping_call hf]
  split <;> rfl

theorem keeping_requestAll (hf : f.TakesAll) (hmethods : methods ⊆ canonical) {rs : List Request}
    (hrs : ∀ r ∈ rs, r.capability ∈ canonical) :
    (f.requestAll rs).keeping methods = (f.keeping methods).requestAll rs := by
  induction rs generalizing f with
  | nil => rfl
  | cons r rs ih =>
    obtain ⟨hr, hrs⟩ := List.forall_mem_cons.mp hrs
    rw [requestAll_cons, requestAll_cons, ih (hf.request r) hrs, keeping_request hf hmethods hr]

/-- A base type is asked for by its name alone. -/
theorem keeping_choose (hf : f.TakesAll) (hmethods : methods ⊆ canonical) (t : BaseType) :
    (f.choose t).keeping methods = (f.keeping methods).choose t := by
  by_cases ht : t = .null
  · rw [choose, choose, if_pos ht, if_pos ht]
    exact keeping_request hf hmethods (by decide)
  · rw [hf.choose_eq ht, keeping_call hf, choose, if_neg ht]
    rfl

theorem keeping_begun (hf : f.TakesAll) (hmethods : methods ⊆ canonical) (typing : Typing) :
    (f.begun typing).keeping methods = (f.keeping methods).begun typing := by
  have hnullable : ∀ r ∈ nullableRequests typing.nullable, r.capability ∈ canonical := by
    cases typing.nullable <;> decide
  rw [begun, keeping_requestAll (hf.choose _) hmethods hnullable, keeping_choose hf hmethods]
  rfl

/-! ## Fields -/

section

variable [Host]

/-- Constraints that can be put to a form: unless there is a constant, the pattern compiles if there
is one, and the format can be a name. -/
def Askable (c : Constraints) : Prop :=
  c.const = .absent →
    (c.pattern.isFalsy = true ∨
      ∃ text tree, c.pattern = .str text ∧ Pattern.ofChars text.toList = .ok tree) ∧
    (c.format.isFalsy = true ∨ c.format.isKey = true)

theorem exists_asked_iff {ks : List Keyword} :
    (∃ as, asked formats c ks = .ok as) ↔ ∀ k ∈ ks, ∃ rs, k.requests formats c = .ok rs := by
  induction ks with
  | nil => simp [asked]
  | cons k ks ih =>
    rw [List.forall_mem_cons, ← ih, asked]
    cases k.requests formats c with
    | error f => simp [bind, Except.bind]
    | ok rs =>
      cases asked formats c ks with
      | error f => simp [bind, Except.bind]
      | ok more => simp [bind, Except.bind]

theorem exists_patternRequests_iff :
    (∃ rs, patternRequests j = .ok rs) ↔ j.isFalsy = true ∨
      ∃ text tree, j = .str text ∧ Pattern.ofChars text.toList = .ok tree := by
  unfold patternRequests
  split
  · next h => simp [h]
  · next h =>
    simp only [h, Bool.false_eq_true, false_or]
    cases j with
    | str text => cases hread : Pattern.ofChars text.toList <;> simp [Except.map, hread]
    | _ => simp

end

theorem exists_formatRequests_iff (formats : Formats) :
    (∃ rs, formatRequests formats j = .ok rs) ↔ j.isFalsy = true ∨ j.isKey = true := by
  unfold formatRequests
  split
  · next h => simp [h]
  · next h =>
    simp only [h, Bool.false_eq_true, false_or]
    cases j with
    | str name => cases hcheck : formats.lookup name <;> simp [hcheck, Json.isKey]
    | _ => simp [Json.isKey]

variable [Host] in
/-- Nothing but a pattern and a format can keep constraints from being put to a form. -/
theorem exists_asked_considered_iff (formats : Formats) :
    (∃ as, asked formats c (considered c) = .ok as) ↔ Askable c := by
  rw [exists_asked_iff, considered, Askable, ← exists_patternRequests_iff,
    ← exists_formatRequests_iff formats]
  split
  · next h => simp [h, Keyword.inOrder, Keyword.requests]
  · next h => simp [h, Keyword.requests]

variable [Host] in
/-- A field of one type that is defined on a form with some capabilities makes the calls that it
makes on a form with all of them, without those that the form does not take: in the same order, and
each with what it carries. The form is the one that was given but for its calls. And it can be
defined, or not, whatever is taken: just when its constraints can be put to a form at all. -/
theorem define_exposing (hmethods : methods ⊆ canonical) (formats : Formats) (field : Field)
    (hsingle : (field.typing.alternatives.getD []).length ≤ 1) :
    (exposing methods).define formats field =
      ((exposing canonical).define formats field).map (keeping methods) ∧
    ((∃ built, (exposing canonical).define formats field = .ok built) ↔
      Askable field.constraints) := by
  rw [define_eq _ _ _ hsingle, define_eq _ _ _ hsingle,
    ← exists_asked_considered_iff formats]
  cases has : asked formats field.constraints (considered field.constraints) with
  | error e => simp [Except.map]
  | ok as =>
    have hcanonical : ∀ r ∈ as.map Prod.snd, r.capability ∈ canonical := by
      intro r hr
      obtain ⟨a, ha, rfl⟩ := List.mem_map.mp hr
      exact Keyword.capabilities_subset a.1 (asked_mem has ha).2
    have hbegun : ((exposing canonical).begun field.typing).TakesAll :=
      (takesAll_exposing.choose _).requestAll _
    refine ⟨?_, by simp [Except.map]⟩
    simp only [Except.map, Except.ok.injEq]
    rw [keeping_requestAll hbegun hmethods hcanonical, keeping_begun takesAll_exposing hmethods]
    rfl

/-- A name of two to nine letters that may be missing. -/
def shortName : Field :=
  ⟨"name", { type := .string, nullable := true },
    { minLength := .num (.int 2), maxLength := .num (.int 9), pattern := .str "a",
      required := .bool true }⟩

open Sample in
/-- Of six calls a form that takes three of them is left with these. -/
theorem shortName_kept :
    ["required", "max", "string"] ⊆ canonical ∧
    (shortName.typing.alternatives.getD []).length ≤ 1 ∧
    Askable shortName.constraints ∧
    ((exposing canonical).define [] shortName).map (fun f => f.calls.map Call.name) =
      .ok ["string", "nullable", "min", "max", "pattern", "required"] ∧
    (exposing ["required", "max", "string"]).define [] shortName =
      .ok ⟨⟨["required", "max", "string"], []⟩, "",
        [⟨"string", [], none, ""⟩, ⟨"max", [.value (.num (.int 9))], none, ""⟩,
          ⟨"required", [], none, ""⟩]⟩ := by
  have hmethods : ["required", "max", "string"] ⊆ canonical := by decide
  have hsingle : (shortName.typing.alternatives.getD []).length ≤ 1 := by decide
  obtain ⟨hkept, hdefined⟩ := define_exposing hmethods [] shortName hsingle
  refine ⟨hmethods, hsingle, hdefined.mp ⟨_, by rfl⟩, by rfl, hkept.trans (by rfl)⟩

end Form

end Conform
