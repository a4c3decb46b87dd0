import Conform.Proofs.Agreement
import Conform.Proofs.Equality
import Conform.Validator

/-!
# Conform.Proofs.Outcomes

The views of an outcome. A validation gives its reports, in order, and reads three summaries off
them. Of a purchase that is too small and has no card it gives:

```
reports     card: required   total: minimum   card: dependentRequired   card: required   : allOf
by place    card (3)   total (1)   the whole (1)
missing     card   card
invalid     total   card   the whole
```

The main statement is that the views always tell of the same reports. The groups have the places of
the reports, in the order in which they are first seen, and split the reports among them; the places
where something is missing and those where something else is wrong are the same places again, and a
place can be among both.

A place is nearly always a text. A schema may demand what is no text, and at the front that is then
the place itself, so places fall together as names of a table do: the number one is one name however
it is written, as a boolean too, and a NaN is one name although it equals nothing. `Json.knownBy` is
what a name is known by, and makes one relation of that. What cannot be a name is never a place
(`Evaluation.keyed_descend`).
-/

namespace Conform

/-- A statement about lists that holds of a list as soon as it holds of what is kept of the rest
after the first element. -/
theorem induction_filter {α : Type} (keep : α → α → Bool) {P : List α → Prop} (nil : P [])
    (cons : ∀ x xs, P (xs.filter (keep x)) → P (x :: xs)) (xs : List α) : P xs := by
  induction hn : xs.length using Nat.strongRecOn generalizing xs with
  | ind n ih =>
    subst hn
    cases xs with
    | nil => exact nil
    | cons x xs =>
      have hlen : (xs.filter (keep x)).length ≤ xs.length := List.length_filter_le _ _
      exact cons x xs (ih _ (by rw [List.length_cons]; omega) _ rfl)

namespace Json

variable {p q r : Json} {ps : List Json}

/-! ## Names of a table -/

/-- What a name of a table is known by: a number by where it lies, and all else by itself. -/
def knownBy (p : Json) : Extent ⊕ Json :=
  match p.numeric? with
  | some n => .inl n.extent
  | none => .inr p

/-- Numbers fall together where they lie at one place or at none. -/
theorem same_or_isNan_iff (m n : Number) :
    (m.same n || m.isNan && n.isNan) = true ↔ m.extent = n.extent := by
  rw [Bool.or_eq_true, Bool.and_eq_true, Number.same_iff, Number.isNan_iff, Number.isNan_iff]
  constructor
  · rintro (⟨heq, -⟩ | ⟨hm, hn⟩)
    · exact heq
    · rw [hm, hn]
  · intro heq
    by_cases hm : m.extent = .nowhere
    · exact .inr ⟨hm, heq ▸ hm⟩
    · exact .inl ⟨heq, hm⟩

/-- Names fall together where they are known by the same. -/
theorem sameKey_iff (hq : q.isKey = true) : p.sameKey q = true ↔ p.knownBy = q.knownBy := by
  have hatom : p.numeric? = none → q.numeric? = none → (p.equals q = true ↔ p = q) := by
    intro hp' hq'
    cases q <;> cases p <;> simp_all [isKey, numeric?, equals]
  unfold sameKey knownBy
  cases hp' : p.numeric? with
  | some m => cases hq' : q.numeric? with
    | some n => simp [← same_or_isNan_iff]
    | none => simp
  | none => cases hq' : q.numeric? with
    | some n => simp
    | none => simp [hatom hp' hq']

example : (bool true).sameKey (.num (.real (.finite false 4503599627370496 (-52)))) = true := by
  decide +kernel

theorem sameKey_self (hp : p.isKey = true) : p.sameKey p = true :=
  (sameKey_iff hp).mpr rfl

theorem sameKey_comm (hp : p.isKey = true) (hq : q.isKey = true) : p.sameKey q = q.sameKey p := by
  rw [Bool.eq_iff_iff, sameKey_iff hq, sameKey_iff hp, eq_comm]

/-- Names that fall together fall together with the same names. -/
theorem sameKey_congr (hq : q.isKey = true) (hr : r.isKey = true) (h : q.sameKey r = true)
    (p : Json) : p.sameKey q = p.sameKey r := by
  have hknown : q.knownBy = r.knownBy := (sameKey_iff hr).mp h
  rw [Bool.eq_iff_iff, sameKey_iff hq, sameKey_iff hr, hknown]

/-- Whether a table of these names has an entry of a name. -/
def NamedIn (p : Json) (ps : List Json) : Prop := ∃ q ∈ ps, p.sameKey q = true

/-- A text falls together with itself only. -/
theorem namedIn_str_iff {s : String} : (str s).NamedIn ps ↔ .str s ∈ ps := by
  have hsame : ∀ q : Json, (str s).sameKey q = true ↔ .str s = q := by
    intro q
    cases q <;> simp [sameKey, numeric?, equals]
  simp [NamedIn, hsame]

/-- With each name once, a table has the same names. -/
theorem namedIn_eraseDupsBy (hps : ∀ q ∈ ps, q.isKey = true) :
    p.NamedIn (ps.eraseDupsBy sameKey) ↔ p.NamedIn ps := by
  induction ps using induction_filter (fun a q : Json => decide (q.sameKey a = false)) with
  | nil => simp
  | cons a ps ih =>
    have ha : a.isKey = true := hps a List.mem_cons_self
    have htail := ih fun q hq => hps q (List.mem_cons_of_mem _ (List.mem_of_mem_filter hq))
    simp only [NamedIn, List.eraseDupsBy_cons, List.exists_mem_cons_iff] at htail ⊢
    rw [htail]
    constructor
    · rintro (h | ⟨q, hq, h⟩)
      · exact .inl h
      · exact .inr ⟨q, List.mem_of_mem_filter hq, h⟩
    · rintro (h | ⟨q, hq, h⟩)
      · exact .inl h
      · -- what fell together with a name that was left out falls together with the first one
        have hqkey : q.isKey = true := hps q (List.mem_cons_of_mem _ hq)
        by_cases hqa : q.sameKey a = true
        · rw [sameKey_congr hqkey ha hqa p] at h
          exact .inl h
        · exact .inr ⟨q, List.mem_filter.mpr ⟨hq, by simpa using hqa⟩, h⟩

end Json

/-! ## Reports by place -/

/-- A report whose place can be the name of an entry. -/
def Violation.Keyed (e : Violation) : Prop := e.path.isKey = true

namespace Report

variable {vs : List Violation} {p : Json} {es : List Violation}

/-- The first group takes the reports of its place, and leaves the others to the rest. -/
theorem foldl_addTo_cons (p : Json) (es : List Violation) (gs : Groups) (vs : List Violation) :
    vs.foldl (fun gs v => addTo v gs) ((p, es) :: gs) =
      (p, es ++ vs.filter fun v => p.sameKey v.path) ::
        (vs.filter fun v => !p.sameKey v.path).foldl (fun gs v => addTo v gs) gs := by
  induction vs generalizing es gs with
  | nil => simp
  | cons v vs ih =>
    rw [List.foldl_cons, addTo]
    by_cases h : p.sameKey v.path = true
    · rw [if_pos h, ih]
      simp [h]
    · rw [if_neg h, ih]
      simp [h]

/-- The first report begins a group, and what does not belong to it is sorted by itself. -/
theorem byPlace_cons (v : Violation) (vs : List Violation) :
    byPlace (v :: vs) =
      (v.path, v :: vs.filter fun w => v.path.sameKey w.path) ::
        byPlace (vs.filter fun w => !v.path.sameKey w.path) := by
  have hfirst := foldl_addTo_cons v.path [v] [] vs
  simpa [byPlace, addTo] using hfirst

/-- A list of reports is built as it is sorted: the first one, before what does not belong to its
group. -/
theorem induction_byPlace {P : List Violation → Prop} (nil : P [])
    (cons : ∀ v vs, P (vs.filter fun w => !v.path.sameKey w.path) → P (v :: vs))
    (vs : List Violation) : P vs :=
  induction_filter (fun v w => !v.path.sameKey w.path) nil cons vs

/-- The groups have the places of the reports, each once, in the order in which they are first
seen. -/
theorem map_fst_byPlace (hvs : ∀ v ∈ vs, v.Keyed) :
    (byPlace vs).map Prod.fst = (vs.map Violation.path).eraseDupsBy Json.sameKey := by
  induction vs using induction_byPlace with
  | nil => rfl
  | cons v vs ih =>
    have hv : v.Keyed := hvs v List.mem_cons_self
    have hrest : ∀ w ∈ vs, w.Keyed := fun w hw => hvs w (List.mem_cons_of_mem _ hw)
    have htail := ih fun w hw => hrest w (List.mem_of_mem_filter hw)
    have hothers : (vs.filter fun w => !v.path.sameKey w.path) =
        vs.filter fun w => decide (w.path.sameKey v.path = false) := by
      refine List.filter_congr fun w hw => ?_
      rw [Json.sameKey_comm hv (hrest w hw)]
      cases w.path.sameKey v.path <;> rfl
    rw [byPlace_cons, List.map_cons, htail, List.map_cons, List.eraseDupsBy_cons, List.filter_map,
      hothers]
    rfl

/-- The groups together are all reports. -/
theorem flatMap_byPlace_perm (vs : List Violation) : ((byPlace vs).flatMap Prod.snd).Perm vs := by
  induction vs using induction_byPlace with
  | nil => exact .refl []
  | cons v vs ih =>
    rw [byPlace_cons, List.flatMap_cons, List.cons_append]
    refine .cons v ((ih.append_left _).trans ?_)
    exact List.filter_append_perm (fun w => v.path.sameKey w.path) vs

/-- A group has the place of a report. -/
theorem exists_of_mem_byPlace (h : (p, es) ∈ byPlace vs) : ∃ v ∈ vs, v.path = p := by
  induction vs using induction_byPlace with
  | nil => cases h
  | cons v vs ih =>
    rw [byPlace_cons, List.mem_cons] at h
    obtain h | h := h
    · cases h
      exact ⟨v, List.mem_cons_self, rfl⟩
    · obtain ⟨w, hw, hpath⟩ := ih h
      exact ⟨w, List.mem_cons_of_mem _ (List.mem_of_mem_filter hw), hpath⟩

/-- A group holds all reports of its place, in order. -/
theorem eq_filter_of_mem_byPlace (hvs : ∀ v ∈ vs, v.Keyed) (h : (p, es) ∈ byPlace vs) :
    es = vs.filter fun v => p.sameKey v.path := by
  induction vs using induction_byPlace with
  | nil => cases h
  | cons v vs ih =>
    have hv : v.Keyed := hvs v List.mem_cons_self
    have hrest : ∀ w ∈ vs, w.Keyed := fun w hw => hvs w (List.mem_cons_of_mem _ hw)
    rw [byPlace_cons, List.mem_cons] at h
    obtain h | h := h
    · cases h
      have hself : v.path.sameKey v.path = true := Json.sameKey_self hv
      simp [hself]
    · -- the place is not that of the first report, so no report of it was left to the first group
      have htail := ih (fun w hw => hrest w (List.mem_of_mem_filter hw)) h
      obtain ⟨w, hw, rfl⟩ := exists_of_mem_byPlace h
      obtain ⟨hw, hdiffers⟩ := List.mem_filter.mp hw
      rw [Bool.not_eq_true'] at hdiffers
      have hfirst : w.path.sameKey v.path = false := by
        rw [Json.sameKey_comm (hrest w hw) hv, hdiffers]
      have hother : ∀ x ∈ vs, w.path.sameKey x.path = true → v.path.sameKey x.path = false := by
        intro x hx hwx
        rw [← Json.sameKey_congr (hrest w hw) (hrest x hx) hwx, hdiffers]
      rw [htail, List.filter_filter, List.filter_cons_of_neg (by simp [hfirst])]
      refine List.filter_congr fun x hx => ?_
      cases hwx : w.path.sameKey x.path with
      | false => rfl
      | true => simp [hother x hx hwx]

end Report

/-! ## What is reported lies at a name -/

namespace Evaluation

/-- What an object was asked for can be a name. -/
theorem isKey_of_hasMember {ms : Members} {name : Json} {there : Bool}
    (h : hasMember ms name = .ok there) : name.isKey = true := by
  cases name with
  | arr xs => simp [hasMember, Json.isKey] at h
  | obj ms => simp [hasMember, Json.isKey] at h
  | _ => rfl

/-- Rules report at names only: an object is asked for a member before it is found missing. -/
theorem compatible_keyed :
    Compatible (fun _ => True) (fun _ _ => True) fun _ _ _ t _ => t.Only Violation.Keyed where
  done := .done
  stop _ := .stop _
  violation _ _ _ := .find rfl
  absent _ _ := .find rfl
  missing {ms p q name code} _ _ hmissing _ _ := by
    refine .find ?_
    rw [Violation.Keyed, Path.demanded]
    split
    · exact isKey_of_hasMember hmissing
    · rfl
  refusedName _ _ _ := .find rfl
  andThen h h' := h.andThen h'
  summary {v p q t u t' u'} h h' := by
    refine h.andThen ?_
    cases t.found.isEmpty
    · exact h'
    · exact .done
  name _ h := h
  index _ h := h
  ask {v p q t u k k'} _ h' := .after fun b _ => h' b

variable [Host] in
/-- Every report lies at what can be a name. -/
theorem keyed_descend (scope : Scope) (fuel : Nat) (value schema : Json) (p : String)
    (chain : List String) : (descend scope fuel value schema p chain).Only Violation.Keyed := by
  induction fuel generalizing value schema p chain with
  | zero => exact .stop _
  | succ fuel ih =>
    refine compatible_keyed.step_self (fun n hn => ?_) fun ms ref hms href => ?_
    · exact {
        demanded := fun _ _ => trivial
        reported := fun s _ p _ => ih value s p chain
        checked := fun _ _ => trivial
        partReported := fun v _ s _ p _ => ih v s p []
        partChecked := fun _ _ _ _ => trivial }
    · exact .after fun _ _ => .after fun target _ => ih value target p _

end Evaluation

/-! ## Outcomes -/

namespace Outcome

variable {vs : List Violation} {data : Json}

/-- Adding place by place leaves out what was seen before. -/
theorem foldl_addPlace (ps seen : List Json) :
    ps.foldl addPlace seen.reverse = List.eraseDupsBy.loop Json.sameKey ps seen := by
  induction ps generalizing seen with
  | nil => rfl
  | cons p ps ih =>
    rw [List.foldl_cons, addPlace, List.any_reverse, List.eraseDupsBy.loop]
    cases seen.any p.sameKey with
    | true => exact ih seen
    | false =>
      rw [← ih (p :: seen), List.reverse_cons]
      rfl

theorem invalidPlaces_eq (vs : List Violation) :
    invalidPlaces vs =
      ((vs.filter fun e => e.code != .required).map Violation.path).eraseDupsBy Json.sameKey :=
  foldl_addPlace _ []

/-- The views of an outcome tell of the same reports.

* It is valid just if all of them are empty.
* The groups have the places of the reports, each once, in the order in which they are first seen; a
  group holds the reports of its place, in order, and the groups together hold each report once.
* Something is missing where a report says so, report by report, and something else is wrong at the
  places of all other reports, each once, in the order in which they are first seen.
* So the places of the groups are those where something is missing and those where something else is
  wrong: the same texts, and the same names of a table if there are others among them. -/
structure Consistent (o : Outcome) : Prop where
  valid_iff : o.valid = true ↔ o.errors = [] ∧ o.missing = [] ∧ o.invalid = [] ∧ o.byPlace = []
  places_eq : o.byPlace.map Prod.fst = (o.errors.map Violation.path).eraseDupsBy Json.sameKey
  group_eq : ∀ p es, (p, es) ∈ o.byPlace → es = o.errors.filter fun e => p.sameKey e.path
  groups_perm : (o.byPlace.flatMap Prod.snd).Perm o.errors
  missing_eq : o.missing = (o.errors.filter fun e => e.code == .required).map Violation.path
  invalid_eq : o.invalid =
    ((o.errors.filter fun e => e.code != .required).map Violation.path).eraseDupsBy Json.sameKey
  namedIn_iff : ∀ p : Json,
    p.NamedIn (o.byPlace.map Prod.fst) ↔ p.NamedIn o.missing ∨ p.NamedIn o.invalid
  text_mem_iff : ∀ s : String,
    .str s ∈ o.byPlace.map Prod.fst ↔ .str s ∈ o.missing ∨ .str s ∈ o.invalid

/-- A place of a report is one where something is missing or one where something else is wrong. -/
theorem namedIn_map_path (p : Json) (vs : List Violation) :
    p.NamedIn (vs.map Violation.path) ↔
      p.NamedIn ((vs.filter fun e => e.code == .required).map Violation.path) ∨
        p.NamedIn ((vs.filter fun e => e.code != .required).map Violation.path) := by
  have hmap : ∀ us : List Violation,
      p.NamedIn (us.map Violation.path) ↔ ∃ e ∈ us, p.sameKey e.path = true := by
    simp [Json.NamedIn]
  rw [hmap, hmap, hmap]
  constructor
  · rintro ⟨e, he, hp⟩
    by_cases hcode : e.code = .required
    · exact .inl ⟨e, List.mem_filter.mpr ⟨he, by simp [hcode]⟩, hp⟩
    · exact .inr ⟨e, List.mem_filter.mpr ⟨he, by simp [hcode]⟩, hp⟩
  · rintro (⟨e, he, hp⟩ | ⟨e, he, hp⟩)
    · exact ⟨e, List.mem_of_mem_filter he, hp⟩
    · exact ⟨e, List.mem_of_mem_filter he, hp⟩

/-- The groups have the places of both lists, as names of a table. -/
theorem namedIn_byPlace_iff (hvs : ∀ v ∈ vs, v.Keyed) (p : Json) :
    p.NamedIn ((Report.byPlace vs).map Prod.fst) ↔
      p.NamedIn (missingPlaces vs) ∨ p.NamedIn (invalidPlaces vs) := by
  have hkeys : ∀ us : List Violation, us ⊆ vs → ∀ q ∈ us.map Violation.path, q.isKey = true := by
    intro us hus q hq
    obtain ⟨e, he, rfl⟩ := List.mem_map.mp hq
    exact hvs e (hus he)
  rw [Report.map_fst_byPlace hvs, Json.namedIn_eraseDupsBy (hkeys vs (List.Subset.refl vs)),
    invalidPlaces_eq, Json.namedIn_eraseDupsBy (hkeys _ (List.filter_subset_self vs)),
    namedIn_map_path, missingPlaces]

theorem consistent_ofReports (hvs : ∀ v ∈ vs, v.Keyed) : (ofReports data vs).Consistent where
  valid_iff := by
    constructor
    · intro h
      obtain rfl : vs = [] := List.isEmpty_iff.mp h
      exact ⟨rfl, rfl, rfl, rfl⟩
    · rintro ⟨herrors, -⟩
      exact List.isEmpty_iff.mpr herrors
  places_eq := Report.map_fst_byPlace hvs
  group_eq _ _ h := Report.eq_filter_of_mem_byPlace hvs h
  groups_perm := Report.flatMap_byPlace_perm vs
  missing_eq := rfl
  invalid_eq := invalidPlaces_eq vs
  namedIn_iff p := namedIn_byPlace_iff hvs p
  text_mem_iff s := by
    have hnamed := namedIn_byPlace_iff hvs (.str s)
    rw [Json.namedIn_str_iff, Json.namedIn_str_iff, Json.namedIn_str_iff] at hnamed
    exact hnamed

end Outcome

variable [Host] in
/-- Whenever a validation has an outcome, the outcome is valid just if the schema accepts the value,
and its views tell of the same reports. -/
theorem Validator.validate_consistent {v : Validator} {data : Json} {o : Outcome}
    (h : v.validate data = .ok o) : v.isValid data = .ok o.valid ∧ o.Consistent := by
  rw [Validator.validate, Report.all_eq_toExcept] at h
  rw [Validator.isValid, Report.accepts_eq_verdict data v.schema (some v.schema) "" v.formats]
  have hkeyed : (Evaluation.run data v.schema (some v.schema) "" v.formats).Only Violation.Keyed :=
    Evaluation.keyed_descend _ _ _ _ _ _
  generalize Evaluation.run data v.schema (some v.schema) "" v.formats = t at h hkeyed ⊢
  obtain ⟨found, fault⟩ := t
  cases fault with
  | some f => cases h
  | none =>
    cases h
    refine ⟨?_, Outcome.consistent_ofReports hkeyed⟩
    cases found <;> rfl

/-- A purchase has a total of at least ten and is paid by card, which is demanded three times. -/
def Validator.purchase : Validator where
  schema := .obj [
    ("required", .arr [.str "card"]),
    ("properties", .obj [("total", .obj [("minimum", .num (.int 10))])]),
    ("dependentRequired", .obj [("total", .arr [.str "card"])]),
    ("allOf", .arr [.obj [("required", .arr [.str "card"])]])]

open Sample in
/-- A small purchase without a card: the card is missing and wrong, and so the whole is wrong. -/
theorem Validator.purchase_consistent :
    ∃ o, purchase.validate (.obj [("total", .num (.int 5))]) = .ok o ∧
      o.errors.map Violation.code = [.required, .minimum, .dependentRequired, .required, .allOf] ∧
      o.byPlace.map (fun g => (g.1, g.2.length)) =
        [(.str "card", 3), (.str "total", 1), (.str "", 1)] ∧
      o.missing = [.str "card", .str "card"] ∧
      o.invalid = [.str "total", .str "card", .str ""] ∧
      purchase.isValid (.obj [("total", .num (.int 5))]) = .ok o.valid ∧ o.Consistent := by
  obtain ⟨o, ho⟩ : ∃ o, purchase.validate (.obj [("total", .num (.int 5))]) = .ok o := ⟨_, rfl⟩
  have hviews := Validator.validate_consistent ho
  cases ho
  exact ⟨_, rfl, by rfl, by rfl, by rfl, by rfl, hviews⟩

end Conform
