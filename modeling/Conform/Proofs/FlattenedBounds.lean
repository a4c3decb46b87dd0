import Conform.Evaluation.Numbers
import Conform.Field

/-!
# Conform.Proofs.FlattenedBounds

The bounds of a number twice: as evaluation checks them, by a rule for the plain bound and one for
the exclusive bound, and as a field keeps them, as one limit beside a mark.

```
declared                     evaluation          field
minimum 5                    5 ≤ v               5 ≤ v
minimum 5, exclusive         5 ≤ v and 5 < v     5 < v
exclusive 3                  3 < v               3 < v
minimum 5, exclusive 3       5 ≤ v and 3 < v     3 < v
```

In the last line the field has no place for the plain bound, and admits the numbers between the
two limits, which evaluation reports. The main statement says that this is the whole difference,
but for a limit that is a NaN: evaluation never finds it broken, and no number keeps it.

Lower and upper bounds are one argument, about a number that reaches limits and passes them
(`Side`).
-/

namespace Conform

/-! ## Comparisons -/

namespace Extent

theorem lt_eq_not_le {a b : Extent} (ha : a ≠ .nowhere) (hb : b ≠ .nowhere) :
    a.lt b = !b.le a := by
  have hpoint : ∀ p q : Rat, decide (p < q) = !(decide (q < p) || decide (q = p)) := by
    intro p q
    grind
  cases a <;> cases b
  all_goals first | exact absurd rfl ha | exact absurd rfl hb | rfl | exact hpoint _ _

theorem lt_nowhere (a : Extent) : a.lt .nowhere = false := by
  cases a <;> rfl

theorem le_nowhere (a : Extent) : a.le .nowhere = false := by
  cases a <;> rfl

theorem nowhere_lt (a : Extent) : Extent.nowhere.lt a = false := rfl

theorem nowhere_le (a : Extent) : Extent.nowhere.le a = false := rfl

end Extent

namespace Number

/-- A NaN is the one number that lies nowhere. -/
theorem extent_ne_nowhere {n : Number} (h : n ≠ .real .nan) : n.extent ≠ .nowhere := by
  cases n with
  | int i => exact nofun
  | real x =>
    cases x with
    | nan => exact absurd rfl h
    | infinite negative => cases negative <;> exact nofun
    | finite negative m e => exact nofun

theorem lt_eq_not_le {a b : Number} (ha : a ≠ .real .nan) (hb : b ≠ .real .nan) :
    a.lt b = !b.le a :=
  Extent.lt_eq_not_le (extent_ne_nowhere ha) (extent_ne_nowhere hb)

theorem le_eq_not_lt {a b : Number} (ha : a ≠ .real .nan) (hb : b ≠ .real .nan) :
    a.le b = !b.lt a := by
  rw [lt_eq_not_le hb ha, Bool.not_not]

theorem le_of_lt {a b : Number} (h : a.lt b = true) : a.le b = true := by
  change a.extent.lt b.extent = true at h
  simp [le, Extent.le, h]

end Number

/-! ## One side of a bound -/

/-- What a number that reaches some limits and passes some of them means for two rules: each
finds exactly those limits broken that are not kept, but never a NaN, which is not kept either. -/
structure Side (reaches passes : Number → Bool) (breaks breaksExclusive : Number → Bool) :
    Prop where
  reaches_of_passes : ∀ m, passes m = true → reaches m = true
  breaks_eq : ∀ m, m ≠ .real .nan → breaks m = !reaches m
  breaksExclusive_eq : ∀ m, m ≠ .real .nan → breaksExclusive m = !passes m
  breaks_nan : breaks (.real .nan) = false
  breaksExclusive_nan : breaksExclusive (.real .nan) = false

namespace Side

variable {reaches passes breaks breaksExclusive : Number → Bool}

theorem breaks_eq_false_iff (h : Side reaches passes breaks breaksExclusive) (m : Number) :
    breaks m = false ↔ reaches m = true ∨ m = .real .nan := by
  by_cases hm : m = .real .nan
  · simp [hm, h.breaks_nan]
  · simp [hm, h.breaks_eq m hm]

theorem breaksExclusive_eq_false_iff (h : Side reaches passes breaks breaksExclusive)
    (m : Number) : breaksExclusive m = false ↔ passes m = true ∨ m = .real .nan := by
  by_cases hm : m = .real .nan
  · simp [hm, h.breaksExclusive_nan]
  · simp [hm, h.breaksExclusive_eq m hm]

/-- A limit that is not broken as an exclusive one is not broken as a plain one. -/
theorem unbroken_of_exclusive (h : Side reaches passes breaks breaksExclusive) {m : Number}
    (hm : breaksExclusive m = false) : breaks m = false := by
  obtain hpasses | hnan := (h.breaksExclusive_eq_false_iff m).mp hm
  · exact (h.breaks_eq_false_iff m).mpr (.inl (h.reaches_of_passes m hpasses))
  · exact (h.breaks_eq_false_iff m).mpr (.inr hnan)

end Side

/-- A number at or above limits. -/
theorem Side.lower {n : Number} (hn : n ≠ .real .nan) :
    Side (fun m => m.le n) (fun m => m.lt n) n.lt n.le where
  reaches_of_passes _ := Number.le_of_lt
  breaks_eq _ hm := Number.lt_eq_not_le hn hm
  breaksExclusive_eq _ hm := Number.le_eq_not_lt hn hm
  breaks_nan := Extent.lt_nowhere n.extent
  breaksExclusive_nan := Extent.le_nowhere n.extent

/-- A number at or below limits. -/
theorem Side.upper {n : Number} (hn : n ≠ .real .nan) :
    Side (fun m => n.le m) (fun m => n.lt m) (fun m => m.lt n) (fun m => m.le n) where
  reaches_of_passes _ := Number.le_of_lt
  breaks_eq _ hm := Number.lt_eq_not_le hm hn
  breaksExclusive_eq _ hm := Number.le_eq_not_lt hm hn
  breaks_nan := Extent.nowhere_lt n.extent
  breaksExclusive_nan := Extent.nowhere_le n.extent

/-! ## Bounds of a field -/

namespace Constraints

/-- Whether a limit beside its mark admits a number: an exclusive limit has to be passed, any
other to be reached, and what is not set admits all. -/
def admits (limit mark : Json) (reaches passes : Number → Bool) : Bool :=
  match limit with
  | .null => true
  | .num m => if mark = .bool true then passes m else reaches m
  | _ => false

/-- Whether the lower bound of a field admits a number. -/
def admitsFrom (c : Constraints) (n : Number) : Bool :=
  admits c.min c.exclusiveMin (fun m => m.le n) (fun m => m.lt n)

/-- Whether the upper bound of a field admits a number. -/
def admitsTo (c : Constraints) (n : Number) : Bool :=
  admits c.max c.exclusiveMax (fun m => n.le m) (fun m => n.lt m)

theorem markOrNull_eq_true_iff (mark : Option Bool) :
    markOrNull mark = .bool true ↔ mark = some true := by
  cases mark <;> simp [markOrNull, orNull]

end Constraints

/-- The plain bounds are numbers where they are declared. The exclusive ones may be anything:
what is neither a number nor a boolean is passed over. -/
structure NumberKeywords.Numeric (k : NumberKeywords) : Prop where
  minimum : ∀ j, k.minimum = some j → ∃ m, j = .num m
  maximum : ∀ j, k.maximum = some j → ∃ m, j = .num m

namespace Evaluation

open NumberKeywords (bound exclusiveLimit)

/-- A rule about a limit finds nothing exactly where the limit is not broken. -/
theorem limitRule_eq_done_iff {limit : Option Json}
    (hlimit : ∀ j, limit = some j → ∃ m, j = .num m) (breaks : Number → Bool) (code : Code)
    (before behind : String) (value : Json) (path : String) :
    limitRule limit breaks code before behind value path = .done ↔
      ∀ m, limit = some (.num m) → breaks m = false := by
  cases limit with
  | none => simp [limitRule, broken, Trace.after]
  | some j =>
    obtain ⟨m, rfl⟩ := hlimit j rfl
    cases hm : breaks m with
    | false => simp [limitRule, broken, Json.numeric?, Trace.after, hm]
    | true =>
      -- A limit that is broken stops the rule if it cannot be written.
      cases hwords : Fault.written (Json.num m).shown? <;>
        simp [limitRule, broken, Json.numeric?, Trace.after, hm, hwords, violation, Trace.find,
          Trace.stop, Trace.done]

theorem exclusiveLimit_mk (limit : Option Json) (mark : Option Bool) :
    exclusiveLimit (limit, mark) = if mark = some true then limit else none := by
  obtain _ | _ | _ := mark <;> rfl

/-- The limit of an exclusive bound is a number where the plain one is. -/
theorem exclusiveLimit_numeric {plain exclusive : Option Json}
    (hplain : ∀ j, plain = some j → ∃ m, j = .num m) :
    ∀ j, exclusiveLimit (bound plain exclusive) = some j → ∃ m, j = .num m := by
  intro j hj
  unfold bound at hj
  split at hj
  case h_1 n => exact ⟨n, (Option.some.inj hj).symm⟩
  case h_2 b =>
    cases b with
    | true => exact hplain j hj
    | false => exact absurd hj nofun
  case h_3 => exact absurd hj nofun

/-- Without an exclusive number the limit is the plain one. -/
theorem bound_of_not_number (plain : Option Json) {exclusive : Option Json}
    (h : ¬ ∃ e, exclusive = some (.num e)) : ∃ mark, bound plain exclusive = (plain, mark) := by
  unfold bound
  split
  case h_1 n => exact absurd ⟨n, rfl⟩ h
  case h_2 b => exact ⟨some b, rfl⟩
  case h_3 => exact ⟨none, rfl⟩

/-- One side of a bound, its plain keyword being a number or not declared: nothing is broken
exactly where the limit of the field admits the number or is a NaN, and the plain limit, if an
exclusive number has taken its place, is not broken. -/
theorem unbroken_iff_admits {reaches passes breaks breaksExclusive : Number → Bool}
    (hside : Side reaches passes breaks breaksExclusive) {plain exclusive : Option Json}
    (hplain : ∀ j, plain = some j → ∃ m, j = .num m) :
    ((∀ m, plain = some (.num m) → breaks m = false) ∧
      ∀ m, exclusiveLimit (bound plain exclusive) = some (.num m) → breaksExclusive m = false) ↔
    (Constraints.admits (Constraints.orNull (bound plain exclusive).1)
        (Constraints.markOrNull (bound plain exclusive).2) reaches passes = true ∨
      (bound plain exclusive).1 = some (.num (.real .nan))) ∧
    ∀ m e, plain = some (.num m) → exclusive = some (.num e) → breaks m = false := by
  by_cases hnumber : ∃ e, exclusive = some (.num e)
  · obtain ⟨e, rfl⟩ := hnumber
    have hkept := hside.breaksExclusive_eq_false_iff e
    simp [bound, exclusiveLimit_mk, Constraints.admits, Constraints.orNull,
      Constraints.markOrNull_eq_true_iff, ← hkept, and_comm]
  · have hdisplaced : ∀ m e, plain = some (.num m) → exclusive = some (.num e) →
        breaks m = false := fun _ e _ he => absurd ⟨e, he⟩ hnumber
    obtain ⟨mark, hbound⟩ := bound_of_not_number plain hnumber
    rw [hbound, and_iff_left hdisplaced]
    cases plain with
    | none => simp [exclusiveLimit_mk, Constraints.admits, Constraints.orNull]
    | some j =>
      obtain ⟨m, rfl⟩ := hplain j rfl
      have hreached := hside.breaks_eq_false_iff m
      have hpassed := hside.breaksExclusive_eq_false_iff m
      have hweaker : breaksExclusive m = false → breaks m = false := hside.unbroken_of_exclusive
      by_cases hmark : mark = some true
      · simpa [exclusiveLimit_mk, Constraints.admits, Constraints.orNull,
          Constraints.markOrNull_eq_true_iff, hmark, ← hpassed] using hweaker
      · simp [exclusiveLimit_mk, Constraints.admits, Constraints.orNull,
          Constraints.markOrNull_eq_true_iff, hmark, ← hreached]

/-- The bounds of a field and the rules of evaluation. For a number that is no NaN the two rules
for lower bounds find nothing exactly where the lower bound of the field admits the number (or its
limit is a NaN, which is never found broken), and where besides the number reaches a `minimum`
that a number as `exclusiveMinimum` has displaced from the field. Upper bounds likewise. -/
theorem bounds_flattened {n : Node} (hnumeric : n.number.Numeric) (required : Bool) {v : Number}
    (hv : v ≠ .real .nan) (path : String) :
    let c := Constraints.ofNode n required
    ((minimumRule n.number v path = .done ∧ exclusiveMinimumRule n.number v path = .done) ↔
      (c.admitsFrom v = true ∨ c.min = .num (.real .nan)) ∧
        ∀ m e, n.number.minimum = some (.num m) → n.number.exclusiveMinimum = some (.num e) →
          v.lt m = false) ∧
    ((maximumRule n.number v path = .done ∧ exclusiveMaximumRule n.number v path = .done) ↔
      (c.admitsTo v = true ∨ c.max = .num (.real .nan)) ∧
        ∀ m e, n.number.maximum = some (.num m) → n.number.exclusiveMaximum = some (.num e) →
          m.lt v = false) := by
  intro c
  have hlimit : ∀ limit : Option Json, Constraints.orNull limit = .num (.real .nan) ↔
      limit = some (.num (.real .nan)) := by
    intro limit
    cases limit <;> simp [Constraints.orNull]
  constructor
  · have hexclusive : ∀ j, n.number.exclusiveLower = some j → ∃ m, j = .num m :=
      exclusiveLimit_numeric hnumeric.minimum
    rw [minimumRule, exclusiveMinimumRule, limitRule_eq_done_iff hnumeric.minimum,
      limitRule_eq_done_iff hexclusive,
      show c.min = Constraints.orNull n.number.lower.1 from rfl, hlimit]
    exact unbroken_iff_admits (Side.lower hv) hnumeric.minimum
  · have hexclusive : ∀ j, n.number.exclusiveUpper = some j → ∃ m, j = .num m :=
      exclusiveLimit_numeric hnumeric.maximum
    rw [maximumRule, exclusiveMaximumRule, limitRule_eq_done_iff hnumeric.maximum,
      limitRule_eq_done_iff hexclusive,
      show c.max = Constraints.orNull n.number.upper.1 from rfl, hlimit]
    exact unbroken_iff_admits (Side.upper hv) hnumeric.maximum

/-- A plain bound above an exclusive one. -/
def steps : Node where
  types := some [.str "number"]
  number := { minimum := some (.num (.int 5)), exclusiveMinimum := some (.num (.int 3)) }

/-- The field admits a number that lies between the two limits, although it is found to break the
plain one. -/
theorem steps_flattened :
    Node.ofMembers [("type", .str "number"), ("minimum", .num (.int 5)),
        ("exclusiveMinimum", .num (.int 3))] = .ok steps ∧
      (Constraints.ofNode steps false).admitsFrom (.int 4) = true ∧
      ((minimumRule steps.number (.int 4) "" = .done ∧
          exclusiveMinimumRule steps.number (.int 4) "" = .done) ↔
        (Constraints.ofNode steps false).admitsFrom (.int 4) = true ∧
          (Number.int 4).lt (.int 5) = false) := by
  have hnumeric : steps.number.Numeric := by
    constructor
    · intro j hj
      cases hj
      exact ⟨_, rfl⟩
    · exact nofun
  have hv : Number.int 4 ≠ .real .nan := nofun
  have hlower := (bounds_flattened hnumeric false hv "").1
  refine ⟨by rfl, by decide, hlower.trans ?_⟩
  simp [steps, Constraints.ofNode, Constraints.orNull, NumberKeywords.lower, NumberKeywords.bound]

/-- A field can admit a number that evaluation refuses. -/
theorem steps_admit_refused :
    ¬ ((minimumRule steps.number (.int 4) "" = .done ∧
        exclusiveMinimumRule steps.number (.int 4) "" = .done) ↔
      (Constraints.ofNode steps false).admitsFrom (.int 4) = true) := by
  have hbroken : minimumRule steps.number (.int 4) "" ≠ .done := by
    decide
  have hadmitted : (Constraints.ofNode steps false).admitsFrom (.int 4) = true := by
    decide
  intro h
  exact hbroken (h.mpr hadmitted).1

end Evaluation

end Conform
