import Conform.Field.Flatten
import Conform.Proofs.KeywordRequests

/-!
# Conform.Proofs.ApplicableKeywords

Which calls a field of a base type makes for keywords that are for values of this type, and which
for others. There are two ways to a base type, and they keep different keywords:

```
                      one branch of several types    a field of one type
for its values        kept, unless for objects       kept
for other values      left out                       kept
const, required       kept                           kept
allOf, anyOf, oneOf   left out                       kept
```

So a branch makes the calls that a field of its type would make for its own keywords, but for those
of objects and of compositions (`branches_exactly`); and a field of one type makes calls for
keywords that say nothing of its values, by which two fields with the same keywords for these values
can differ (`agreeing_exactly`).
-/

namespace Conform

namespace Form

/-- Whether a keyword is on the list of what branches keep. None for objects is, and none that
combines schemas. -/
def Keyword.isListed (k : Keyword) : Bool := k.kind? != some .object && !k.isComposition

/-- The calls for some of the keywords. -/
def madeFor (f : Form) (as : List (Keyword × Request)) (p : Keyword → Bool) : List Call :=
  ((f.made as).filter fun m => p m.1).map Prod.snd

variable {formats : Formats} {c d : Constraints} {t : BaseType}

theorem madeFor_eq (f : Form) (as : List (Keyword × Request)) (p : Keyword → Bool) :
    f.madeFor as p = (f.made (as.filter fun a => p a.1)).map Prod.snd := by
  rw [madeFor, made_filter]

/-- The calls for some keywords are all calls if no other keyword makes one. -/
theorem madeFor_eq_map_iff {f : Form} {as : List (Keyword × Request)} (p : Keyword → Bool) :
    f.madeFor as p = (f.made as).map Prod.snd ↔ ∀ m ∈ f.made as, p m.1 = true := by
  rw [madeFor]
  constructor
  · intro h
    have hlength := congrArg List.length h
    rw [List.length_map, List.length_map] at hlength
    exact List.length_filter_eq_length_iff.mp hlength
  · intro h
    rw [List.filter_eq_self.mpr h]

/-! ## Fields of one type -/

/-- A form with the base type of a field chosen, and that it may be null. -/
def begun (g : Form) (typing : Typing) : Form :=
  (g.choose typing.type).requestAll (nullableRequests typing.nullable)

section

variable [Host]

/-- A field of one type is built by what its keywords ask for. -/
theorem define_eq (g : Form) (formats : Formats) (field : Field)
    (hsingle : (field.typing.alternatives.getD []).length ≤ 1) :
    g.define formats field =
      (asked formats field.constraints (considered field.constraints)).map
        fun as => (g.begun field.typing).requestAll (as.map Prod.snd) := by
  unfold define
  split
  · next hmany =>
    rw [hmany] at hsingle
    simp at hsingle
  · rw [single, constrain_eq]
    rfl

theorem define_of_asked {g : Form} {path : String} {typing : Typing}
    {as : List (Keyword × Request)} (hsingle : (typing.alternatives.getD []).length ≤ 1)
    (has : asked formats c (considered c) = .ok as) :
    g.define formats ⟨path, typing, c⟩ = .ok ((g.begun typing).requestAll (as.map Prod.snd)) := by
  rw [define_eq g formats _ hsingle, has]
  rfl

theorem define_ok {g : Form} {field : Field} {built : Form}
    (hsingle : (field.typing.alternatives.getD []).length ≤ 1)
    (h : g.define formats field = .ok built) :
    ∃ as, asked formats field.constraints (considered field.constraints) = .ok as ∧
      built = (g.begun field.typing).requestAll (as.map Prod.snd) := by
  rw [define_eq g formats field hsingle] at h
  cases has : asked formats field.constraints (considered field.constraints) with
  | error e =>
    simp only [has] at h
    cases h
  | ok as =>
    simp only [has] at h
    cases h
    exact ⟨as, rfl, rfl⟩

/-! ## Branches of several types -/

/-- What is kept for a base type asks for what it asked for, and what is not asks for nothing. -/
theorem requests_keptFor (formats : Formats) (c : Constraints) (t : BaseType) (k : Keyword) :
    k.requests formats (c.keptFor t) =
      if k.appliesTo t && k.isListed then k.requests formats c else .ok [] := by
  cases t <;> cases k <;> rfl

end

theorem considered_keptFor (c : Constraints) (t : BaseType) :
    considered (c.keptFor t) = considered c := by
  cases t <;> rfl

section

variable [Host]

theorem asked_keptFor (ks : List Keyword) :
    asked formats (c.keptFor t) ks =
      asked formats c (ks.filter fun k => k.appliesTo t && k.isListed) := by
  induction ks with
  | nil => rfl
  | cons k ks ih =>
    rw [asked, requests_keptFor, ih, List.filter_cons]
    split
    · rfl
    · cases asked formats c (ks.filter fun k => k.appliesTo t && k.isListed) <;> rfl

/-- A branch asks for what the keywords ask for that it keeps. -/
theorem branchOf_eq (g : Form) (formats : Formats) (t : BaseType) (c : Constraints) :
    g.branchOf formats t (c.keptFor t) =
      (asked formats c ((considered c).filter fun k => k.appliesTo t && k.isListed)).map
        fun as => (g.choose t).requestAll (as.map Prod.snd) := by
  rw [branchOf, constrain_eq, considered_keptFor, asked_keptFor]

/-- A form that can combine branches is asked for one branch for each type. A branch is built by the
keywords that are listed and for its values or for all, and where a field of its type alone can be
built, it makes the calls that this field makes for them, in the same order. So it makes all calls
that are made for its values or for all exactly if none of them is made for a keyword that is not
listed: one for objects or one that combines schemas. -/
theorem branches_exactly {f : Form} {field : Field} {types : List BaseType}
    (htypes : field.typing.alternatives = some types) (hmany : 2 ≤ types.length)
    (honeOf : f.offers "oneOf" = true) (formats : Formats) :
    f.define formats field =
      .ok ((f.request ⟨"oneOf",
        [.branches (types.map fun t => (t, field.constraints.keptFor t))], none⟩).requestAll
          (nullableRequests field.typing.nullable)) ∧
    ∀ t ∈ types, ∀ g : Form,
      g.branchOf formats t (field.constraints.keptFor t) =
        (asked formats field.constraints
          ((considered field.constraints).filter fun k => k.appliesTo t && k.isListed)).map
            (fun as => (g.choose t).requestAll (as.map Prod.snd)) ∧
      ∀ built, g.define formats { field with typing := { type := t } } = .ok built →
        ∃ as branch,
          asked formats field.constraints (considered field.constraints) = .ok as ∧
          g.branchOf formats t (field.constraints.keptFor t) = .ok branch ∧
          built.calls = (g.choose t).calls ++ ((g.choose t).made as).map Prod.snd ∧
          branch.calls = (g.choose t).calls ++
            (g.choose t).madeFor as (fun k => k.appliesTo t && k.isListed) ∧
          (List.Sublist ((g.choose t).madeFor as fun k => k.appliesTo t)
              ((g.choose t).madeFor as fun k => k.appliesTo t && k.isListed) ↔
            ∀ m ∈ (g.choose t).made as, m.1.appliesTo t = true → m.1.isListed = true) := by
  refine ⟨?request, fun t _ g => ⟨branchOf_eq g formats t _, fun built hbuilt => ?calls⟩⟩
  case request =>
    obtain ⟨a, b, rest, rfl⟩ : ∃ a b rest, types = a :: b :: rest := by
      match types, hmany with
      | a :: b :: rest, _ => exact ⟨a, b, rest, rfl⟩
    simp only [define, htypes, honeOf, if_true]
    rfl
  case calls =>
    obtain ⟨as, has, rfl⟩ := define_ok (by exact Nat.zero_le 1) hbuilt
    have hkept := asked_filter (fun k => k.appliesTo t && k.isListed) has
    refine ⟨as, _, has, by rw [branchOf_eq, hkept]; rfl, calls_requestAll_asked _ _, ?_, ?_⟩
    · rw [calls_requestAll_asked, madeFor_eq]
    · -- what is listed is a part of what applies, and as long only if it is all of it
      have hsplit : (g.choose t).madeFor as (fun k => k.appliesTo t && k.isListed) =
          (((g.choose t).made as).filter (fun m => m.1.appliesTo t) |>.filter
            fun m => m.1.isListed).map Prod.snd := by
        rw [madeFor, List.filter_filter]
        simp only [Bool.and_comm]
      rw [hsplit, madeFor]
      constructor
      · intro hsub m hm happlies
        have hlength := hsub.length_le
        rw [List.length_map, List.length_map] at hlength
        have hall := List.length_filter_eq_length_iff.mp
          (Nat.le_antisymm (List.length_filter_le _ _) hlength)
        exact hall m (List.mem_filter.mpr ⟨hm, happlies⟩)
      · intro hall
        have hsame := List.filter_eq_self.mpr fun m hm =>
          hall m (List.mem_filter.mp hm).1 (List.mem_filter.mp hm).2
        exact (congrArg _ (congrArg _ hsame)).mpr (List.Sublist.refl _)

end

/-- A form with every capability. -/
def capable : Form :=
  { interface := ⟨["string", "number", "boolean", "array", "object", "date", "literal", "nullable",
      "required", "min", "max", "pattern", "email", "url", "uuid", "datetime", "multipleOf",
      "integer", "minItems", "maxItems", "unique", "minProperties", "maxProperties",
      "additionalProperties", "propertyNames", "custom", "refine", "oneOf", "requiredIf"], []⟩ }

/-- A name of two letters, or a number from one on. -/
def nameOrNumber : Field :=
  ⟨"v", { type := .string, alternatives := some [.string, .number] },
    { required := .bool true, minLength := .num (.int 2), min := .num (.int 1) }⟩

open Sample in
/-- The branch for names asks for the length, and loses nothing that is for names. -/
theorem nameOrNumber_branches :
    2 ≤ [BaseType.string, .number].length ∧ capable.offers "oneOf" = true ∧
    ∃ as branch,
      asked [] nameOrNumber.constraints (considered nameOrNumber.constraints) = .ok as ∧
      capable.branchOf [] .string (nameOrNumber.constraints.keptFor .string) = .ok branch ∧
      branch.calls = [⟨"string", [], none, ""⟩, ⟨"min", [.value (.num (.int 2))], none, ""⟩,
        ⟨"required", [], none, ""⟩] ∧
      List.Sublist ((capable.choose .string).madeFor as fun k => k.appliesTo .string)
        ((capable.choose .string).madeFor as fun k => k.appliesTo .string && k.isListed) := by
  have hmany : 2 ≤ [BaseType.string, .number].length := by decide
  have honeOf : capable.offers "oneOf" = true := by rfl
  obtain ⟨-, hbranches⟩ := @branches_exactly _ capable nameOrNumber _ rfl hmany honeOf []
  obtain ⟨-, hbuilt⟩ := hbranches .string (List.mem_cons_self ..) capable
  obtain ⟨as, branch, has, hbranch, -, hcalls, hall⟩ := hbuilt _ rfl
  cases has
  exact ⟨hmany, honeOf, _, branch, rfl, hbranch, hcalls, hall.mpr (by decide)⟩

/-- A document with a member that is an object which is not empty, or a text, and one of two
alternatives besides. -/
def bagOrText : Json :=
  .obj [("properties", .obj [("v", .obj [("type", .arr [.str "object", .str "string"]),
    ("minProperties", .num (.int 1)), ("anyOf", .arr [.obj [], .bool false])])])]

open Sample in
/-- The branch for objects makes neither the call for the number of members nor the one for the
alternatives, which an object field with the same constraints makes. -/
theorem bagOrText_loses :
    ∃ field branch built, Field.ofSchema bagOrText "" none = .ok [field] ∧
      field.typing.alternatives = some [.object, .string] ∧
      capable.branchOf [] .object (field.constraints.keptFor .object) = .ok branch ∧
      branch.calls.map Call.name = ["object"] ∧
      capable.define [] { field with typing := { type := .object } } = .ok built ∧
      built.calls.map Call.name = ["object", "minProperties", "custom"] :=
  ⟨_, _, _, by rfl, by rfl, by rfl, by rfl, by rfl, by rfl⟩

/-! ## Keywords for other values -/

/-- Constraints that agree on what applies to a base type agree on the constant, so the same
keywords are put to a form. -/
theorem considered_congr (h : ∀ k : Keyword, k.appliesTo t = true → k.values c = k.values d) :
    considered c = considered d := by
  have hconst : [c.const] = [d.const] := h .const rfl
  rw [considered, considered, List.singleton_inj.mp hconst]

variable [Host] in
/-- They ask for the same by the keywords that apply. -/
theorem asked_applying (formats : Formats)
    (h : ∀ k : Keyword, k.appliesTo t = true → k.values c = k.values d) :
    asked formats c ((considered c).filter fun k => k.appliesTo t) =
      asked formats d ((considered d).filter fun k => k.appliesTo t) := by
  rw [considered_congr h]
  exact asked_congr fun k hk => h k (List.mem_filter.mp hk).2

variable [Host] in
/-- And make the same calls for them. -/
theorem madeFor_applying (f : Form)
    (h : ∀ k : Keyword, k.appliesTo t = true → k.values c = k.values d)
    {as bs : List (Keyword × Request)} (has : asked formats c (considered c) = .ok as)
    (hbs : asked formats d (considered d) = .ok bs) :
    f.madeFor as (fun k => k.appliesTo t) = f.madeFor bs fun k => k.appliesTo t := by
  have hsame := asked_applying formats h
  rw [asked_filter (fun k => k.appliesTo t) has, asked_filter (fun k => k.appliesTo t) hbs] at hsame
  rw [madeFor_eq, madeFor_eq, Except.ok.inj hsame]

/-- What is asked of a form changes its calls only. -/
theorem requestAll_congr {f : Form} {rs ss : List Request}
    (h : (f.requestAll rs).calls = (f.requestAll ss).calls) :
    f.requestAll rs = f.requestAll ss := by
  calc f.requestAll rs = ⟨f.interface, f.branch, (f.requestAll rs).calls⟩ := by
        rw [← requestAll_interface f rs, ← requestAll_branch f rs]
    _ = f.requestAll ss := by rw [h, ← requestAll_interface f ss, ← requestAll_branch f ss]

variable [Host] in
/-- Take two fields of one type whose constraints agree on the keywords for values of this type and
for all. By these they ask for the same, and where both are built, the calls for these are the same
in the same order. What the other keywords make a call for is called too: beside a field that makes
calls only for keywords that apply, the other is built alike exactly if it can be built and makes no
other calls either. -/
theorem agreeing_exactly (g : Form) (formats : Formats) (path : String) {typing : Typing}
    (hsingle : (typing.alternatives.getD []).length ≤ 1) {c d : Constraints}
    (h : ∀ k : Keyword, k.appliesTo typing.type = true → k.values c = k.values d) :
    asked formats c ((considered c).filter fun k => k.appliesTo typing.type) =
      asked formats d ((considered d).filter fun k => k.appliesTo typing.type) ∧
    (∀ built other, g.define formats ⟨path, typing, c⟩ = .ok built →
      g.define formats ⟨path, typing, d⟩ = .ok other →
      ∃ as bs,
        asked formats c (considered c) = .ok as ∧ asked formats d (considered d) = .ok bs ∧
        built.calls = (g.begun typing).calls ++ ((g.begun typing).made as).map Prod.snd ∧
        other.calls = (g.begun typing).calls ++ ((g.begun typing).made bs).map Prod.snd ∧
        (g.begun typing).madeFor as (fun k => k.appliesTo typing.type) =
          (g.begun typing).madeFor bs fun k => k.appliesTo typing.type) ∧
    ∀ bs, asked formats d (considered d) = .ok bs →
      (∀ m ∈ (g.begun typing).made bs, m.1.appliesTo typing.type = true) →
      (g.define formats ⟨path, typing, c⟩ = g.define formats ⟨path, typing, d⟩ ↔
        ∃ as, asked formats c (considered c) = .ok as ∧
          ∀ m ∈ (g.begun typing).made as, m.1.appliesTo typing.type = true) := by
  refine ⟨asked_applying formats h, ?calls, ?alike⟩
  case calls =>
    intro built other hbuilt hother
    obtain ⟨as, has, rfl⟩ := define_ok hsingle hbuilt
    obtain ⟨bs, hbs, rfl⟩ := define_ok hsingle hother
    exact ⟨as, bs, has, hbs, calls_requestAll_asked _ _, calls_requestAll_asked _ _,
      madeFor_applying _ h has hbs⟩
  case alike =>
    intro bs hbs hbsApply
    have hall (xs) := @madeFor_eq_map_iff (g.begun typing) xs fun k => k.appliesTo typing.type
    rw [define_of_asked hsingle hbs]
    constructor
    case mp =>
      intro hbuilt
      obtain ⟨as, has, hsame⟩ := define_ok hsingle hbuilt
      have hcalls := congrArg Form.calls hsame
      rw [calls_requestAll_asked, calls_requestAll_asked] at hcalls
      refine ⟨as, has, (hall as).mp ?_⟩
      calc (g.begun typing).madeFor as (fun k => k.appliesTo typing.type)
          = (g.begun typing).madeFor bs (fun k => k.appliesTo typing.type) :=
            madeFor_applying _ h has hbs
        _ = ((g.begun typing).made bs).map Prod.snd := (hall bs).mpr hbsApply
        _ = ((g.begun typing).made as).map Prod.snd := List.append_cancel_left hcalls
    case mpr =>
      rintro ⟨as, has, hasApply⟩
      rw [define_of_asked hsingle has]
      refine congrArg Except.ok (requestAll_congr ?_)
      rw [calls_requestAll_asked, calls_requestAll_asked, ← (hall as).mpr hasApply,
        ← (hall bs).mpr hbsApply, madeFor_applying _ h has hbs]

/-- A form that takes texts and a least value. -/
def terse : Form := { interface := ⟨["string", "min"], []⟩ }

open Sample in
/-- Two texts are built alike on it of which one says too how many elements an array has. -/
theorem elements_ignored :
    (∀ k : Keyword, k.appliesTo .string = true →
      k.values { minLength := .num (.int 2), minItems := .num (.int 1) } =
        k.values { minLength := .num (.int 2) }) ∧
    terse.define []
        ⟨"s", { type := .string }, { minLength := .num (.int 2), minItems := .num (.int 1) }⟩ =
      terse.define [] ⟨"s", { type := .string }, { minLength := .num (.int 2) }⟩ := by
  have hagree : ∀ k : Keyword, k.appliesTo .string = true →
      k.values { minLength := .num (.int 2), minItems := .num (.int 1) } =
        k.values { minLength := .num (.int 2) } := by
    intro k
    cases k <;> decide
  obtain ⟨-, -, halike⟩ :=
    @agreeing_exactly _ terse [] "s" { type := .string } (Nat.zero_le 1) _ _ hagree
  exact ⟨hagree, (halike _ rfl (by decide)).mpr ⟨_, rfl, by decide⟩⟩

open Sample in
/-- A text with a least number is called for a least value, as for a least length, and without it
is not. -/
theorem minimum_heard :
    (∀ k : Keyword, k.appliesTo .string = true →
      k.values { min := .num (.int 5) } = k.values {}) ∧
    ∃ built other,
      terse.define [] ⟨"s", { type := .string }, { min := .num (.int 5) }⟩ = .ok built ∧
      terse.define [] ⟨"s", { type := .string }, {}⟩ = .ok other ∧
      built.calls = [⟨"string", [], none, ""⟩, ⟨"min", [.value (.num (.int 5))], none, ""⟩] ∧
      other.calls = [⟨"string", [], none, ""⟩] := by
  refine ⟨fun k => ?_, _, _, rfl, rfl, rfl, rfl⟩
  cases k <;> decide

end Form

end Conform
