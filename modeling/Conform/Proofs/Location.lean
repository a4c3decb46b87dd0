import Conform.Proofs.Congruence

/-!
# Conform.Proofs.Location

The place of a report and the value in it are handed through evaluation side by side. That they
belong together is the main statement here. Steps lead from the whole value to what a report is
about (`Json.at?`), and its place is those steps written behind the place of the whole:

```
required, dependentRequired    tags[2].id    an object at tags[2] that has no member id
propertyNames                  tags[2].id    an object at tags[2] that has one; the value is "id"
any other code                 tags[2].id    the value at tags[2].id
```

A report about a part of a value, one step down, is a report about the value
(`Violation.Located.of_step`). So the rules keep these reports, and evaluation has no others. What
the argument asks of being at the right place is `Placing`, and it goes through for whatever else
has that.
-/

namespace Conform

/-! ## Steps into a value -/

namespace Json

/-- What steps lead to in a value, if they lead to anything. -/
def at? : Json → List Path.Step → Option Json
  | v, [] => some v
  | .obj ms, .name m :: steps => (ms.lookup m).bind fun child => child.at? steps
  | .arr xs, .index i :: steps => xs[i]?.bind fun x => x.at? steps
  | _, _ :: _ => none

@[simp] theorem at?_nil (v : Json) : v.at? [] = some v := by
  rw [at?]

/-- No part of the value is one that was not supplied. -/
def Supplied (v : Json) : Prop := ∀ steps, v.at? steps ≠ some .absent

theorem supplied_obj {ms : Members} (h : ∀ e ∈ ms, e.2.Supplied) : (obj ms).Supplied := by
  rintro (_ | ⟨_ | _, steps⟩)
  · simp
  · next m =>
    rw [at?]
    cases hm : ms.lookup m with
    | none => nofun
    | some child => exact h _ (mem_of_lookup hm) steps
  · simp [at?]

theorem supplied_arr {xs : List Json} (h : ∀ x ∈ xs, x.Supplied) : (arr xs).Supplied := by
  rintro (_ | ⟨_ | _, steps⟩)
  · simp
  · simp [at?]
  · next i =>
    rw [at?]
    cases hi : xs[i]? with
    | none => nofun
    | some x => exact h x (List.mem_of_getElem? hi) steps

/-- One step leads to a part of a value. -/
inductive StepsTo : Json → Path.Step → Json → Prop where
  | name {ms : Members} {m : String} {child : Json} (h : ms.lookup m = some child) :
      StepsTo (.obj ms) (.name m) child
  | index {xs : List Json} {i : Nat} {x : Json} (h : xs[i]? = some x) :
      StepsTo (.arr xs) (.index i) x

namespace StepsTo

variable {v w : Json} {s : Path.Step}

/-- Further steps lead to the same from the part as from the whole behind the first one. -/
theorem at?_cons (h : StepsTo v s w) (steps : List Path.Step) :
    v.at? (s :: steps) = w.at? steps := by
  cases h with
  | name h => rw [at?, h, Option.bind_some]
  | index h => rw [at?, h, Option.bind_some]

theorem supplied (h : StepsTo v s w) (hv : v.Supplied) : w.Supplied := by
  intro steps hsteps
  rw [← h.at?_cons] at hsteps
  exact hv _ hsteps

end StepsTo

theorem DistinctItems.of_mem {xs : List Json} (h : DistinctItems xs) {x : Json} (hx : x ∈ xs) :
    x.Distinct := by
  induction xs with
  | nil => cases hx
  | cons y ys ih =>
    rw [DistinctItems] at h
    obtain rfl | hx := List.mem_cons.mp hx
    · exact h.1
    · exact ih h.2 hx

theorem DistinctMembers.of_mem {ms : Members} (h : DistinctMembers ms) {m : String} {child : Json}
    (hm : (m, child) ∈ ms) : child.Distinct := by
  induction ms with
  | nil => cases hm
  | cons e ms ih =>
    obtain ⟨l, y⟩ := e
    rw [DistinctMembers] at h
    obtain hm | hm := List.mem_cons.mp hm
    · cases hm
      exact h.1
    · exact ih h.2 hm

theorem StepsTo.distinct {v w : Json} {s : Path.Step} (h : StepsTo v s w) (hv : v.Distinct) :
    w.Distinct := by
  cases h with
  | name h =>
    rw [Distinct] at hv
    exact hv.2.of_mem (mem_of_lookup h)
  | index h =>
    rw [Distinct] at hv
    exact hv.of_mem (List.mem_of_getElem? h)

end Json

/-- Where names differ, looking one up finds its entry. -/
theorem lookup_of_mem {α : Type} {t : Table α} {k : String} {v : α} (ht : (t.map Prod.fst).Nodup)
    (h : (k, v) ∈ t) : t.lookup k = some v := by
  induction t with
  | nil => cases h
  | cons e t ih =>
    obtain ⟨l, w⟩ := e
    rw [List.map_cons, List.nodup_cons] at ht
    obtain h | h := List.mem_cons.mp h
    · cases h
      exact List.lookup_cons_self
    · have hne : k ≠ l := by
        intro heq
        exact ht.1 (List.mem_map.mpr ⟨_, h, heq⟩)
      rw [List.lookup_cons, beq_false_of_ne hne]
      exact ih ht.2 h

/-! ## Reports about what steps lead to -/

namespace Violation

/-- What a report says of its value is so at the end of steps into a value: a member is missing
there, or a name stands there, or that value does. -/
inductive PointsAt (v : Json) : List Path.Step → Violation → Prop where
  | value {steps : List Path.Step} {e : Violation} (hcode : e.code.isOfValue = true)
      (h : v.at? steps = some e.value) : PointsAt v steps e
  | missing {before : List Path.Step} {ms : Members} {m : String} {e : Violation}
      (hcode : e.code = .required ∨ e.code = .dependentRequired)
      (h : v.at? before = some (.obj ms)) (hm : Table.has ms m = false) :
      PointsAt v (before ++ [.name m]) e
  | name {before : List Path.Step} {ms : Members} {m : String} {e : Violation}
      (hcode : e.code = .propertyNames) (h : v.at? before = some (.obj ms))
      (hm : Table.has ms m = true) (hvalue : e.value = .str m) : PointsAt v (before ++ [.name m]) e

/-- A report, from an evaluation of a value at a place, whose own place is that of what it is
about. -/
def Located (v : Json) (p : String) (e : Violation) : Prop :=
  ∃ steps, e.path = .str (Path.render p steps) ∧ e.PointsAt v steps

variable {v w : Json} {e : Violation} {s : Path.Step} {p : String}

/-- A member that the value itself lacks. -/
theorem PointsAt.missing_here {ms : Members} {m : String}
    (hcode : e.code = .required ∨ e.code = .dependentRequired) (hm : Table.has ms m = false) :
    e.PointsAt (.obj ms) [.name m] :=
  (PointsAt.missing hcode (Json.at?_nil _) hm :)

/-- A name that the value itself has. -/
theorem PointsAt.name_here {ms : Members} {m : String} (hcode : e.code = .propertyNames)
    (hm : Table.has ms m = true) (hvalue : e.value = .str m) : e.PointsAt (.obj ms) [.name m] :=
  (PointsAt.name hcode (Json.at?_nil _) hm hvalue :)

theorem PointsAt.of_step (h : v.StepsTo s w) {steps : List Path.Step} (he : e.PointsAt w steps) :
    e.PointsAt v (s :: steps) := by
  cases he with
  | value hcode hvalue => exact .value hcode ((h.at?_cons _).trans hvalue)
  | missing hcode hobj hm => exact (PointsAt.missing hcode ((h.at?_cons _).trans hobj) hm :)
  | name hcode hobj hm hvalue => exact (PointsAt.name hcode ((h.at?_cons _).trans hobj) hm hvalue :)

/-- A report about a part of a value is one about the value. -/
theorem Located.of_step (h : v.StepsTo s w) (he : Located w (Path.extend p s) e) :
    Located v p e := by
  obtain ⟨steps, hpath, hpoints⟩ := he
  exact ⟨s :: steps, hpath, hpoints.of_step h⟩

end Violation

/-! ## Evaluation -/

namespace Evaluation

/-- Everything that was found of a value at a place lies where it says. -/
def Locates (v : Json) (p : String) (t : Trace Violation) : Prop :=
  v.Distinct → v.Supplied → ∀ e ∈ t.found, Violation.Located v p e

/-- What a relation between values, places and reports has to say for everything that is found to be
in it. A value is fit for it where names differ, and then its parts are; it goes on from a part to
the value; and it holds of what a rule reports itself. -/
structure Placing (Name Fit : Json → Prop) (At : Json → String → Violation → Prop) : Prop where
  distinct {v : Json} (hv : Fit v) : v.Distinct
  part {v w : Json} {s : Path.Step} (h : v.StepsTo s w) (hv : Fit v) : Fit w
  of_step {v w : Json} {s : Path.Step} {p : String} {e : Violation} (h : v.StepsTo s w)
    (hv : Fit v) (he : At w (Path.extend p s) e) : At v p e
  value {v : Json} {p : String} {e : Violation} (hv : Fit v) (hcode : e.code.isOfValue = true)
    (hpath : e.path = .str p) (hvalue : e.value = v) : At v p e
  absent {p : String} {e : Violation} (hv : Fit .absent) (hcode : e.code = .required)
    (hpath : e.path = .str p) : At .absent p e
  missing {ms : Members} {p : String} {name : Json} {e : Violation} (hv : Fit (.obj ms))
    (hname : Name name) (hcode : e.code = .required ∨ e.code = .dependentRequired)
    (hmissing : hasMember ms name = .ok false) (hpath : e.path = Path.demanded p name) :
    At (.obj ms) p e
  name {ms : Members} {p m : String} {e : Violation} (hv : Fit (.obj ms))
    (hcode : e.code = .propertyNames) (hm : Table.has ms m = true)
    (hpath : e.path = .str (Path.name p m)) (hvalue : e.value = .str m) : At (.obj ms) p e

namespace Placing

variable {Name Fit : Json → Prop} {At : Json → String → Violation → Prop} {v w : Json}
  {p : String} {t t' : Trace Violation}

theorem of_found_nil (h : t.found = []) : Fit v → ∀ e ∈ t.found, At v p e := by
  intro _ e he
  rw [h] at he
  cases he

theorem of_find {e : Violation} (h : Fit v → At v p e) :
    Fit v → ∀ e' ∈ (Trace.find e).found, At v p e' :=
  fun hv => Trace.Only.find (h hv)

theorem andThen (h : Fit v → ∀ e ∈ t.found, At v p e) (h' : Fit v → ∀ e ∈ t'.found, At v p e) :
    Fit v → ∀ e ∈ (t.andThen fun _ => t').found, At v p e :=
  fun hv => Trace.Only.andThen (h hv) (h' hv)

theorem of_part (hAt : Placing Name Fit At) {s : Path.Step} (hstep : v.Distinct → v.StepsTo s w)
    (h : Fit w → ∀ e ∈ t.found, At w (Path.extend p s) e) : Fit v → ∀ e ∈ t.found, At v p e := by
  intro hv e he
  have hs := hstep (hAt.distinct hv)
  exact hAt.of_step hs hv (h (hAt.part hs hv) e he)

/-- Everything that rules find is in the relation. -/
theorem compatible (hAt : Placing Name Fit At) :
    Compatible Name (fun _ _ => True) fun v p _ t _ => Fit v → ∀ e ∈ t.found, At v p e where
  done := of_found_nil rfl
  stop _ := of_found_nil rfl
  violation hcode _ _ := of_find fun hv => hAt.value hv hcode rfl rfl
  absent _ _ := of_find fun hv => hAt.absent hv rfl rfl
  missing hname hcode hmissing _ _ := of_find fun hv => hAt.missing hv hname hcode hmissing rfl
  refusedName {ms p q m child} h _ _ := by
    refine of_find fun hv => ?_
    have hdistinct := hAt.distinct hv
    rw [Json.Distinct] at hdistinct
    have hm : Table.has ms m = true := by rw [Table.has, lookup_of_mem hdistinct.1 h]; rfl
    exact hAt.name hv rfl hm rfl rfl
  andThen h h' := andThen h h'
  summary {v p q t u t' u'} h h' := by
    refine andThen h ?_
    cases t.found.isEmpty
    · exact h'
    · exact of_found_nil rfl
  name {ms p q t u m child} hm h := by
    -- names differ, so the member that a rule goes through is the one that steps lead to
    have hstep : (Json.obj ms).Distinct → (Json.obj ms).StepsTo (.name m) child := by
      intro hdistinct
      rw [Json.Distinct] at hdistinct
      exact .name (lookup_of_mem hdistinct.1 hm)
    exact hAt.of_part hstep h
  index {xs p q t u i x} hi h := by
    have hstep : (Json.arr xs).Distinct → (Json.arr xs).StepsTo (.index i) x := fun _ => .index hi
    exact hAt.of_part hstep h
  ask {v p q t u k k'} _ h' := by
    cases t.verdict with
    | error f => exact of_found_nil rfl
    | ok b => exact h' b

end Placing

variable [Host] in
/-- Everything that evaluation finds is in the relation, as far as all names that the schemas it can
meet demand are of the kind that the relation minds. -/
theorem Placing.descend {Name Fit : Json → Prop} {At : Json → String → Violation → Prop}
    (hAt : Placing Name Fit At) {scope : Scope} (fuel : Nat) {schema : Json}
    (hnames : ∀ s n, Json.Reaches scope.root schema s → s.ReadsAs n →
      ∀ name ∈ n.demanded, Name name)
    (value : Json) (p : String) (chain : List String) (hvalue : Fit value) :
    ∀ e ∈ (Evaluation.descend scope fuel value schema p chain).found, At value p e := by
  induction fuel generalizing schema value p chain with
  | zero => exact of_found_nil rfl hvalue
  | succ fuel ih =>
    have hmeets : ∀ s, Json.Meets scope.root schema s → ∀ v p chain, Fit v →
        ∀ e ∈ (Evaluation.descend scope fuel v s p chain).found, At v p e := fun s hs =>
      ih fun s' n hreach => hnames s' n (.head hs hreach)
    refine hAt.compatible.step_self (fun n hn => ?_) (fun ms ref hschema href => ?_) hvalue
    · exact {
        demanded := hnames schema n .refl hn
        reported := fun s hs p _ =>
          hmeets s (.again hn (n.reported_subset hs)) value p chain
        checked := fun _ _ => trivial
        partReported := fun v _ s hs p _ =>
          hmeets s (.into hn (n.partReported_subset hs)) v p []
        partChecked := fun _ _ _ _ => trivial }
    · subst hschema
      rw [followRule]
      cases Pointer.permit scope.guarded ref chain with
      | error f => exact of_found_nil rfl
      | ok u =>
        cases htarget : referred scope ref with
        | error f => exact of_found_nil rfl
        | ok target =>
          exact hmeets target (.follow (refersTo_of_referred href htarget)) value p _

/-- Reports lie where they say, for values that were supplied, if all names that schemas demand are
texts. -/
theorem placing_located :
    Placing (fun name => ∃ m, name = .str m) (fun v => v.Distinct ∧ v.Supplied)
      Violation.Located where
  distinct hv := hv.1
  part h hv := ⟨h.distinct hv.1, h.supplied hv.2⟩
  of_step h _ he := he.of_step h
  value _ hcode hpath hvalue := by
    subst hvalue
    exact ⟨[], hpath, .value hcode (Json.at?_nil _)⟩
  absent hv _ _ := absurd (Json.at?_nil _) (hv.2 [])
  missing {ms p name e} _ hname hcode hmissing hpath := by
    obtain ⟨m, rfl⟩ := hname
    rw [Path.demanded_str] at hpath
    exact ⟨[.name m], hpath, .missing_here hcode (Except.ok.inj hmissing)⟩
  name {ms p m e} _ hcode hm hpath hvalue := ⟨[.name m], hpath, .name_here hcode hm hvalue⟩

variable [Host] in
/-- Evaluation reports what lies where it says, as far as the schemas that it can meet demand
texts only. -/
theorem locates_descend {scope : Scope} (fuel : Nat) {schema : Json}
    (hnames : ∀ s n, Json.Reaches scope.root schema s → s.ReadsAs n →
      ∀ name ∈ n.demanded, ∃ m, name = .str m)
    (value : Json) (p : String) (chain : List String) :
    Locates value p (descend scope fuel value schema p chain) :=
  fun hdistinct hsupplied =>
    placing_located.descend fuel hnames value p chain ⟨hdistinct, hsupplied⟩

variable [Host] in
/-- Every report lies where it says. Its place is that of steps into the value, written behind the
place of the whole: steps to a member that an object of the value lacks, if the report is that it is
missing; to a name of such an object, which is the value reported, if it is about the name; and to
the value reported otherwise. -/
theorem located_of_mem_found (value schema : Json) (root : Option Json) (path : String)
    (formats : Formats) (hdistinct : value.Distinct) (hsupplied : value.Supplied)
    (hnames : ∀ s n, Json.Reaches (Pointer.document schema root) schema s → s.ReadsAs n →
      ∀ name ∈ n.demanded, ∃ m, name = .str m) :
    ∀ e ∈ (run value schema root path formats).found, Violation.Located value path e :=
  locates_descend _ hnames value path [] hdistinct hsupplied

/-- A schema for objects that are identified. -/
def identified : Json := .obj [("required", .arr [.str "id"])]

theorem eq_of_reaches_identified {document : Option Json} {s : Json}
    (hs : Json.Reaches document (.obj [("items", identified)]) s) :
    s = .obj [("items", identified)] ∨ s = identified := by
  induction hs with
  | refl => exact .inl rfl
  | tail _ hmeets ih =>
    obtain rfl | rfl := ih <;> obtain ⟨⟨_, hn⟩, hs⟩ | ⟨⟨_, hn⟩, hs⟩ | ⟨⟨href, _, _⟩⟩ := hmeets
    all_goals first | cases href | cases hn
    · cases hs
    · exact .inr (List.mem_singleton.mp hs)
    · cases hs
    · cases hs

open Sample in
/-- An item that is not identified lies where its report says. -/
theorem unidentified_located :
    (run (.arr [.obj []]) (.obj [("items", identified)]) none "tags" []).found.map
        Violation.path = [.str "tags[0].id"] ∧
    ∀ e ∈ (run (.arr [.obj []]) (.obj [("items", identified)]) none "tags" []).found,
      Violation.Located (.arr [.obj []]) "tags" e := by
  refine ⟨by rfl, located_of_mem_found _ _ _ _ _ ?distinct ?supplied ?names⟩
  case distinct => simp [Json.Distinct, Json.DistinctItems, Json.DistinctMembers]
  case supplied =>
    rintro (_ | ⟨_ | ⟨_ | _⟩, _ | ⟨_ | _, _⟩⟩) <;> simp [Json.at?]
  case names =>
    intro s n hs hn name hname
    obtain ⟨_, hn⟩ := hn
    obtain h | h := eq_of_reaches_identified hs <;> cases h <;> cases hn
    · cases hname
    · exact ⟨"id", List.mem_singleton.mp hname⟩

end Evaluation

end Conform
