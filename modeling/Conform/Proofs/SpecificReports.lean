import Conform.Proofs.Agreement
import Conform.Proofs.Location
import Conform.Proofs.RenderedSteps

/-!
# Conform.Proofs.SpecificReports

The reports below a target are picked by their places, which are texts. Here a report lies where
steps lead: its place is those steps in writing, and what it says of its value is so at their end
(`Violation.LiesAt`).

```
target          picks the report at    and not the one at
address         address.id             addressBook.id
/tags, tags     tags[2].id             id
```

With plain names in the value and in the demands of the schema every report lies at one location and
at no other, and the main statement is that picking by text keeps the reports at or below the
location of the target, in their order, however the target is written.
-/

namespace Conform

/-! ## Plain values -/

namespace Json

/-- All names in the value are plain. -/
def PlainNames (v : Json) : Prop :=
  ∀ steps ms, v.at? steps = some (.obj ms) → ∀ e ∈ ms, Path.PlainName e.1

variable {v w : Json} {s : Path.Step}

theorem PlainNames.of_mem {ms : Members} (h : (obj ms).PlainNames) {e : String × Json}
    (he : e ∈ ms) : Path.PlainName e.1 :=
  h [] ms (at?_nil _) e he

theorem plainNames_obj {ms : Members} (h : ∀ e ∈ ms, Path.PlainName e.1 ∧ e.2.PlainNames) :
    (obj ms).PlainNames := by
  rintro (_ | ⟨_ | _, steps⟩) ms' hsteps
  · obtain rfl : ms = ms' := by simpa using hsteps
    exact fun e he => (h e he).1
  · next m =>
    rw [at?] at hsteps
    cases hm : ms.lookup m with
    | none =>
      rw [hm] at hsteps
      cases hsteps
    | some child =>
      rw [hm, Option.bind_some] at hsteps
      exact (h _ (mem_of_lookup hm)).2 steps ms' hsteps
  · simp [at?] at hsteps

theorem StepsTo.plainNames (h : v.StepsTo s w) (hv : v.PlainNames) : w.PlainNames := by
  intro steps ms hsteps
  rw [← h.at?_cons] at hsteps
  exact hv _ ms hsteps

/-- A step into such a value is plain. -/
theorem StepsTo.plain (h : v.StepsTo s w) (hv : v.PlainNames) : s.Plain := by
  cases h with
  | name h => exact hv.of_mem (mem_of_lookup h)
  | index h => trivial

end Json

/-! ## Locations of reports -/

namespace Violation

/-- What a report says of its value is so at the end of steps into a value, or the report is that
nothing was supplied there. -/
inductive Concerns (v : Json) (steps : List Path.Step) (e : Violation) : Prop where
  | part (h : e.PointsAt v steps)
  | unsupplied (hcode : e.code = .required) (h : v.at? steps = some .absent)

/-- A report, from the evaluation of a value at the front, lies where plain steps lead. -/
structure LiesAt (v : Json) (steps : List Path.Step) (e : Violation) : Prop where
  plain : Path.Plain steps
  path : e.path = .str (Path.render "" steps)
  concerns : e.Concerns v steps

/-- A report lies where given steps lead, or further inside. -/
def LiesBelow (v : Json) (target : List Path.Step) (e : Violation) : Prop :=
  ∃ steps, e.LiesAt v steps ∧ target <+: steps

variable {v w : Json} {e : Violation} {s : Path.Step} {steps : List Path.Step}

theorem Concerns.of_step (h : v.StepsTo s w) (he : e.Concerns w steps) :
    e.Concerns v (s :: steps) := by
  cases he with
  | part hpoints => exact .part (hpoints.of_step h)
  | unsupplied hcode habsent => exact .unsupplied hcode ((h.at?_cons _).trans habsent)

/-- A report lies at no other location, since it has only one place. -/
theorem LiesAt.unique {steps' : List Path.Step} (h : e.LiesAt v steps) (h' : e.LiesAt v steps') :
    steps' = steps := by
  refine Path.render_injective h.plain h'.plain (Json.str.inj ?_)
  rw [← h.path, ← h'.path]

/-- The text of its place tells whether a report lies at a target or below it. -/
theorem LiesAt.isBelow_iff {target : List Path.Step} (h : e.LiesAt v steps)
    (htarget : Path.Plain target) (hne : target ≠ []) :
    Report.isBelow (Path.render "" target) e = .ok true ↔ e.LiesBelow v target := by
  rw [Report.isBelow, h.path]
  simp only [Except.ok.injEq]
  rw [Path.isUnder_render_iff htarget h.plain hne]
  constructor
  · intro hbegins
    exact ⟨steps, h, hbegins⟩
  · rintro ⟨steps', h', hbegins⟩
    rwa [h.unique h'] at hbegins

end Violation

/-- A report, from the evaluation of a value at a place, lies plain steps behind that place. -/
def Violation.LiesBehind (v : Json) (p : String) (e : Violation) : Prop :=
  ∃ steps, Path.Plain steps ∧ e.path = .str (Path.render p steps) ∧ e.Concerns v steps

namespace Evaluation

/-- Reports of values with plain names lie plain steps away if all names that schemas demand are
plain. -/
theorem placing_liesBehind :
    Placing (fun name => ∃ m, name = .str m ∧ Path.PlainName m)
      (fun v => v.Distinct ∧ v.PlainNames) Violation.LiesBehind where
  distinct hv := hv.1
  part h hv := ⟨h.distinct hv.1, h.plainNames hv.2⟩
  of_step {v w s p e} h hv he := by
    obtain ⟨steps, hsteps, hpath, hconcerns⟩ := he
    exact ⟨s :: steps, Path.plain_cons.mpr ⟨h.plain hv.2, hsteps⟩, hpath, hconcerns.of_step h⟩
  value _ hcode hpath hvalue := by
    subst hvalue
    exact ⟨[], .nil, hpath, .part (.value hcode (Json.at?_nil _))⟩
  absent _ hcode hpath := ⟨[], .nil, hpath, .unsupplied hcode (Json.at?_nil _)⟩
  missing {ms p name e} _ hname hcode hmissing hpath := by
    obtain ⟨m, rfl, hplain⟩ := hname
    rw [Path.demanded_str] at hpath
    exact ⟨[.name m], Path.plain_cons.mpr ⟨hplain, .nil⟩, hpath,
      .part (.missing_here hcode (Except.ok.inj hmissing))⟩
  name {ms p m e} hv hcode hm hpath hvalue := by
    obtain ⟨child, hchild⟩ := Option.isSome_iff_exists.mp hm
    exact ⟨[.name m], Path.plain_cons.mpr ⟨hv.2.of_mem (mem_of_lookup hchild), .nil⟩, hpath,
      .part (.name_here hcode hm hvalue)⟩

end Evaluation

/-! ## Targets -/

namespace Report

open Classical in
/-- Reports that each lie at some location are picked by the text of their places as they are by
their locations. -/
theorem keep_isBelow {value : Json} {target : List Path.Step} (htarget : Path.Plain target)
    (hne : target ≠ []) {es : List Violation} (h : ∀ e ∈ es, ∃ steps, e.LiesAt value steps) :
    keep (isBelow (Path.render "" target)) es =
      .ok (es.filter fun e => e.LiesBelow value target) := by
  induction es with
  | nil => rfl
  | cons e es ih =>
    obtain ⟨⟨steps, hlies⟩, hes⟩ := List.forall_mem_cons.mp h
    obtain ⟨kept, hkept⟩ : ∃ kept, isBelow (Path.render "" target) e = .ok kept := by
      rw [isBelow, hlies.path]
      exact ⟨_, rfl⟩
    have hbelow := hlies.isBelow_iff htarget hne
    rw [hkept] at hbelow
    rw [keep, hkept, ih hes]
    cases kept with
    | true =>
      have hin : e.LiesBelow value target := hbelow.mp rfl
      rw [List.filter_cons_of_pos (by simpa using hin)]
      rfl
    | false =>
      have hout : ¬ e.LiesBelow value target := by
        intro hin
        cases hbelow.mpr hin
      rw [List.filter_cons_of_neg (by simpa using hout)]
      rfl

variable [Host] in
/-- Every report of a value with plain names lies at some location, as far as schemas demand plain
names. -/
theorem exists_liesAt {value schema : Json} {root : Option Json} {formats : Formats}
    (hdistinct : value.Distinct) (hplain : value.PlainNames)
    (hnames : ∀ s n, Json.Reaches (Pointer.document schema root) schema s → s.ReadsAs n →
      ∀ name ∈ n.demanded, ∃ m, name = .str m ∧ Path.PlainName m)
    {es : List Violation} (hes : all value schema root "" formats = .ok es) :
    ∀ e ∈ es, ∃ steps, e.LiesAt value steps := by
  rw [all_eq_toExcept, Trace.toExcept_eq_ok_iff] at hes
  have hfound : ∀ e ∈ (Evaluation.run value schema root "" formats).found,
      e.LiesBehind value "" :=
    Evaluation.placing_liesBehind.descend _ hnames value "" [] ⟨hdistinct, hplain⟩
  rw [hes] at hfound
  intro e he
  obtain ⟨steps, hsteps, hpath, hconcerns⟩ := hfound e he
  exact ⟨steps, hsteps, hpath, hconcerns⟩

variable [Host] in
open Classical in
/-- Picking reports by the text of a place is picking them by location. A place lies at another or
below it exactly if its steps begin with those of the other; different steps are at different
places; and names between slashes stand for the place of these names. So where the names in a value
and those that schemas demand of it are plain, each report lies at exactly one location, and what is
reported below a target, as a place or between slashes, are the reports at its location or further
inside, in order. -/
theorem below_picks_by_location :
    (∀ t s, Path.Plain t → Path.Plain s → t ≠ [] →
      (Path.isUnder (Path.render "" s) (Path.render "" t) = true ↔ t <+: s)) ∧
    (∀ t s, Path.Plain t → Path.Plain s → t ≠ s → Path.render "" t ≠ Path.render "" s) ∧
    (∀ names, (∀ m ∈ names, Path.PlainName m) →
      Path.normalize (Path.slashed names) = Path.render "" (names.map .name)) ∧
    ∀ value schema root formats, value.Distinct → value.PlainNames →
      (∀ s n, Json.Reaches (Pointer.document schema root) schema s → s.ReadsAs n →
        ∀ name ∈ n.demanded, ∃ m, name = .str m ∧ Path.PlainName m) →
      (∀ es, all value schema root "" formats = .ok es →
        ∀ e ∈ es, ∃! steps, e.LiesAt value steps) ∧
      ∀ target, Path.Plain target → target ≠ [] →
        ∀ text, text = Path.render "" target ∨
            (∃ names, target = names.map .name ∧ text = Path.slashed names) →
          below value schema text root formats =
            (all value schema root "" formats).map
              (List.filter fun e => e.LiesBelow value target) := by
  refine ⟨fun t s ht hs hne => Path.isUnder_render_iff ht hs hne,
    fun t s ht hs hne heq => hne (Path.render_injective hs ht heq),
    fun names hnames => Path.normalize_slashed hnames, ?_⟩
  intro value schema root formats hdistinct hplain hnames
  have hlies : ∀ es, all value schema root "" formats = .ok es →
      ∀ e ∈ es, ∃ steps, e.LiesAt value steps := fun es hes =>
    exists_liesAt hdistinct hplain hnames hes
  refine ⟨fun es hes e he => ?_, fun target htarget hne text htext => ?_⟩
  · obtain ⟨steps, hsteps⟩ := hlies es hes e he
    exact ⟨steps, hsteps, fun steps' h' => hsteps.unique h'⟩
  · have hnormal : Path.normalize text = Path.render "" target := by
      obtain rfl | ⟨names, rfl, rfl⟩ := htext
      · exact Path.normalize_render htarget
      · exact Path.normalize_slashed fun m hm =>
          htarget (.name m) (List.mem_map.mpr ⟨m, hm, rfl⟩)
    rw [below, hnormal]
    cases hes : all value schema root "" formats with
    | error f => rfl
    | ok es => exact keep_isBelow htarget hne (hlies es hes)

/-- Members of an object that all have to be identified. -/
def entries : Json := .obj [("additionalProperties", Evaluation.identified)]

/-- An address and an address book, neither of them identified. -/
def unidentified : Json := .obj [("address", .obj []), ("addressBook", .obj [])]

theorem eq_of_reaches_entries {document : Option Json} {s : Json}
    (hs : Json.Reaches document entries s) : s = entries ∨ s = Evaluation.identified := by
  induction hs with
  | refl => exact .inl rfl
  | tail _ hmeets ih =>
    obtain rfl | rfl := ih <;> obtain ⟨⟨_, hn⟩, hs⟩ | ⟨⟨_, hn⟩, hs⟩ | ⟨⟨href, _, _⟩⟩ := hmeets
    all_goals first | cases href | cases hn
    · cases hs
    · exact .inr (List.mem_singleton.mp hs)
    · cases hs
    · cases hs

open Sample in
open Classical in
/-- What is missing of the address is reported below `/address`, and what is missing of the address
book is not. -/
theorem address_picked :
    (all unidentified entries none "" []).map (List.map Violation.path) =
        .ok [.str "address.id", .str "addressBook.id"] ∧
      (below unidentified entries "/address" none []).map (List.map Violation.path) =
        .ok [.str "address.id"] ∧
      below unidentified entries "/address" none [] =
        (all unidentified entries none "" []).map
          (List.filter fun e => e.LiesBelow unidentified [.name "address"]) := by
  have haddress : Path.PlainName "address" := by decide
  refine ⟨by rfl, by rfl, ?_⟩
  refine (below_picks_by_location.2.2.2 unidentified entries none [] ?distinct ?plain ?names).2
    [.name "address"] (Path.plain_cons.mpr ⟨haddress, .nil⟩) (by decide) "/address"
    (.inr ⟨["address"], rfl, by decide⟩)
  case distinct => simp [unidentified, Json.Distinct, Json.DistinctMembers]
  case plain =>
    have hempty : (Json.obj []).PlainNames := Json.plainNames_obj (List.forall_mem_nil _)
    refine Json.plainNames_obj (List.forall_mem_cons.mpr ⟨⟨haddress, hempty⟩, ?_⟩)
    exact List.forall_mem_singleton.mpr ⟨by decide, hempty⟩
  case names =>
    intro s n hs hn name hname
    obtain ⟨_, hn⟩ := hn
    obtain h | h := eq_of_reaches_entries hs <;> cases h <;> cases hn
    · cases hname
    · exact ⟨"id", List.mem_singleton.mp hname, by decide⟩

end Report

end Conform
