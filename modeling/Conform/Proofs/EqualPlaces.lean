import Conform.Proofs.Addresses
import Conform.Proofs.Shuffling

/-!
# Conform.Proofs.EqualPlaces

Equality of values, read place by place. Before its parts are looked at, a value resembles another
one (`Json.Resembles`) if they are of one kind and, where they have no parts, the same:

```
null, absent    always
boolean         the same boolean
number          one place on the line, however it is written
string          the same text
array, object   always
```

The main statement is that two values equal each other just if whatever steps lead to in the one
resembles what they lead to in the other. All that is asked of an equality follows: it is symmetric
and transitive, it does not see the order of members, no boolean stands against a number at any
place, and a value fails to equal itself only where it holds a NaN.
-/

namespace Conform

namespace Json

variable {v w : Json}

/-! ## Values before their parts are looked at -/

/-- Two values of one kind that are the same as far as they have no parts. -/
inductive Resembles : Json → Json → Prop where
  | absent : Resembles .absent .absent
  | null : Resembles .null .null
  | bool (b : Bool) : Resembles (.bool b) (.bool b)
  | num {m n : Number} (heq : m.extent = n.extent) (hplace : m.extent ≠ .nowhere) :
      Resembles (.num m) (.num n)
  | str (s : String) : Resembles (.str s) (.str s)
  | arr (xs ys : List Json) : Resembles (.arr xs) (.arr ys)
  | obj (ms ns : Members) : Resembles (.obj ms) (.obj ns)

theorem Resembles.of_equals (h : v.equals w = true) : v.Resembles w := by
  cases v <;> cases w <;> simp only [equals, Bool.false_eq_true, beq_iff_eq] at h
  case num.num =>
    obtain ⟨heq, hplace⟩ := Number.same_iff.mp h
    exact .num heq hplace
  all_goals
    subst_vars
    constructor

/-- What has parts resembles itself, and so does all else but a NaN. -/
theorem resembles_self_iff : v.Resembles v ↔ v ≠ .num (.real .nan) := by
  constructor
  · rintro h rfl
    cases h with
    | num _ hplace => exact hplace rfl
  · intro hne
    cases v with
    | num n =>
      refine .num rfl fun hnowhere => hne ?_
      have hnan : n.isNan = true := Number.isNan_iff.mpr hnowhere
      unfold Number.isNan at hnan
      split at hnan
      · rfl
      · cases hnan
    | _ => constructor

/-! ## Parts of equal values -/

/-- Steps lead to parts that equal each other in values that do, or nowhere in both. -/
theorem Same.rel_at? (h : Same v w) (steps : List Path.Step) :
    Option.Rel Same (v.at? steps) (w.at? steps) := by
  induction steps generalizing v w with
  | nil =>
    rw [at?_nil, at?_nil]
    exact .some h
  | cons s steps ih =>
    have hequals := h.equals
    cases v <;> cases w <;> simp only [Json.equals, Bool.false_eq_true] at hequals
    case arr.arr xs ys =>
      cases s with
      | name m =>
        simp only [at?]
        exact .none
      | index i =>
        have hitem := rel_getElem? h.items i
        rw [at?, at?]
        generalize xs[i]? = o at hitem ⊢
        generalize ys[i]? = o' at hitem ⊢
        cases hitem with
        | none => exact .none
        | some hxy => exact ih hxy
    case obj.obj ms ns =>
      cases s with
      | index i =>
        simp only [at?]
        exact .none
      | name m =>
        obtain ⟨ms', hrelated, hperm⟩ := h.members
        have hnames := h.right
        rw [Distinct] at hnames
        have hmember := hrelated.lookup m
        rw [Table.lookup_eq_of_perm ((hperm.map Prod.fst).nodup_iff.mpr hnames.1) hperm] at hmember
        rw [at?, at?]
        generalize ms.lookup m = o at hmember ⊢
        generalize ns.lookup m = o' at hmember ⊢
        cases hmember with
        | none => exact .none
        | some hxy => exact ih hxy
    all_goals
      simp only [at?]
      exact .none

/-! ## Resemblance at every place -/

/-- What steps lead to in one value resembles what they lead to in the other, whatever the steps
are, and where they lead nowhere in one they lead nowhere in the other. -/
def ResemblesThroughout (v w : Json) : Prop :=
  ∀ steps, Option.Rel Resembles (v.at? steps) (w.at? steps)

theorem Same.resemblesThroughout (h : Same v w) : v.ResemblesThroughout w := by
  intro steps
  have hparts := h.rel_at? steps
  generalize v.at? steps = o at hparts ⊢
  generalize w.at? steps = o' at hparts ⊢
  cases hparts with
  | none => exact .none
  | some hxy => exact .some (.of_equals hxy.equals)

theorem ResemblesThroughout.whole (h : v.ResemblesThroughout w) : v.Resembles w := by
  have hwhole := h []
  rw [at?_nil, at?_nil] at hwhole
  cases hwhole with
  | some hwhole => exact hwhole

/-- Parts that resemble each other wherever further steps lead. -/
theorem rel_of_rel_bind {o o' : Option Json}
    (h : ∀ steps, Option.Rel Resembles (o.bind fun x => x.at? steps)
      (o'.bind fun y => y.at? steps)) : Option.Rel ResemblesThroughout o o' := by
  cases o with
  | none => cases o' with
    | none => exact .none
    | some y =>
      have hpart := h []
      rw [Option.bind_none, Option.bind_some, at?_nil] at hpart
      cases hpart
  | some x => cases o' with
    | none =>
      have hpart := h []
      rw [Option.bind_none, Option.bind_some, at?_nil] at hpart
      cases hpart
    | some y => exact .some fun steps => h steps

/-- Two lists that have related elements at each position, or neither has any, are related. -/
theorem forall₂_of_rel_getElem? {R : Json → Json → Prop} {xs ys : List Json}
    (h : ∀ i : Nat, Option.Rel R xs[i]? ys[i]?) : List.Forall₂ R xs ys := by
  induction xs generalizing ys with
  | nil =>
    cases ys with
    | nil => exact .nil
    | cons y ys => cases h 0
  | cons x xs ih =>
    cases ys with
    | nil => cases h 0
    | cons y ys =>
      cases h 0 with
      | some hxy => exact .cons hxy (ih fun i => h (i + 1))

theorem ResemblesThroughout.items {xs ys : List Json}
    (h : (arr xs).ResemblesThroughout (.arr ys)) : List.Forall₂ ResemblesThroughout xs ys := by
  refine forall₂_of_rel_getElem? fun i => rel_of_rel_bind fun steps => ?_
  simpa only [at?] using h (.index i :: steps)

theorem ResemblesThroughout.lookup {ms ns : Members}
    (h : (obj ms).ResemblesThroughout (.obj ns)) (m : String) :
    Option.Rel ResemblesThroughout (ms.lookup m) (ns.lookup m) := by
  refine rel_of_rel_bind fun steps => ?_
  simpa only [at?] using h (.name m :: steps)

/-- Two tables that have entries of the same names are equally long. -/
theorem length_eq_of_rel_lookup {R : Json → Json → Prop} {ms ns : Members}
    (hms : (ms.map Prod.fst).Nodup) (hns : (ns.map Prod.fst).Nodup)
    (h : ∀ m, Option.Rel R (ms.lookup m) (ns.lookup m)) : ms.length = ns.length := by
  have hnames : ∀ m, m ∈ ms.map Prod.fst ↔ m ∈ ns.map Prod.fst := by
    intro m
    have hm := h m
    rw [← Table.has_iff, ← Table.has_iff, Table.has, Table.has]
    generalize ms.lookup m = o at hm ⊢
    generalize ns.lookup m = o' at hm ⊢
    cases hm <;> rfl
  simpa using ((List.perm_ext_iff_of_nodup hms hns).mpr hnames).length_eq

/-- Values equal each other just if they resemble each other at every place. -/
theorem equals_iff_resemblesThroughout (hv : v.Distinct) (hw : w.Distinct) :
    v.equals w = true ↔ v.ResemblesThroughout w := by
  refine ⟨fun h => (same_of_equals hv hw h).resemblesThroughout, fun h => ?_⟩
  induction v using Json.induction generalizing w with
  | arr xs ih =>
    cases h.whole with
    | arr _ ys =>
      rw [Distinct] at hv hw
      rw [equals, equalItems_iff]
      refine (forall₂_and_mem h.items).imp fun x y hxy => ?_
      exact ih x hxy.2.1 (hv.of_mem hxy.2.1) (hw.of_mem hxy.2.2) hxy.1
  | obj ms ih =>
    cases h.whole with
    | obj _ ns =>
      rw [Distinct] at hv hw
      rw [equals, Bool.and_eq_true, beq_iff_eq, includedIn_iff]
      refine ⟨length_eq_of_rel_lookup hv.1 hw.1 h.lookup, fun e he => ?_⟩
      have hmember := h.lookup e.1
      rw [lookup_of_mem hv.1 he] at hmember
      cases hy : ns.lookup e.1 with
      | none =>
        rw [hy] at hmember
        cases hmember
      | some y =>
        rw [hy] at hmember
        cases hmember with
        | some hey => exact ⟨y, rfl, ih e he (hv.2.of_mem he) (hw.2.of_mem (mem_of_lookup hy)) hey⟩
  | num n =>
    cases h.whole with
    | num heq hplace => exact Number.same_iff.mpr ⟨heq, hplace⟩
  | _ =>
    cases h.whole
    simp [equals]

/-! ## Laws of equality -/

/-- A value equals itself unless it holds a NaN. -/
theorem equals_self_iff (hv : v.Distinct) :
    v.equals v = true ↔ ∀ steps, v.at? steps ≠ some (.num (.real .nan)) := by
  rw [equals_iff_resemblesThroughout hv hv]
  refine forall_congr' fun steps => ?_
  cases v.at? steps with
  | none => simp
  | some x => simp [resembles_self_iff]

theorem equals_comm (hv : v.Distinct) (hw : w.Distinct) : v.equals w = w.equals v :=
  Bool.eq_iff_iff.mpr ⟨equals_symm hv hw, equals_symm hw hv⟩

theorem distinctItems_iff {xs : List Json} : DistinctItems xs ↔ ∀ x ∈ xs, x.Distinct := by
  induction xs with
  | nil => simp [DistinctItems]
  | cons x xs ih => rw [DistinctItems, List.forall_mem_cons, ih]

theorem distinctMembers_iff {ms : Members} :
    DistinctMembers ms ↔ ∀ x ∈ ms.map Prod.snd, x.Distinct := by
  induction ms with
  | nil => simp [DistinctMembers]
  | cons e ms ih => rw [DistinctMembers, List.map_cons, List.forall_mem_cons, ih]

/-- No object of a shuffled value gives a name twice. -/
theorem Shuffled.distinct (h : v.Shuffled w) : v.Distinct ∧ w.Distinct := by
  induction v using Json.induction generalizing w with
  | arr xs ih =>
    cases h with
    | atom h => cases h
    | array h =>
      rw [Distinct, Distinct, distinctItems_iff, distinctItems_iff]
      refine ⟨fun x hx => ?_, fun y hy => ?_⟩
      · obtain ⟨y, -, hxy⟩ := exists_of_forall₂ h.flip hx
        exact (ih x hx hxy).1
      · obtain ⟨x, hx, hxy⟩ := exists_of_forall₂ h hy
        exact (ih x hx hxy).2
  | obj ms ih =>
    cases h with
    | atom h => cases h
    | @object _ ms' ns hdistinct hnames h hperm =>
      have hpart : ∀ x ∈ ms.map Prod.snd, ∀ y, x.Shuffled y → x.Distinct ∧ y.Distinct := by
        intro x hx y hxy
        obtain ⟨e, he, rfl⟩ := List.mem_map.mp hx
        exact ih e he hxy
      rw [Distinct, Distinct, distinctMembers_iff, distinctMembers_iff]
      refine ⟨⟨hdistinct, fun x hx => ?_⟩, (hperm.map Prod.fst).nodup_iff.mp (hnames ▸ hdistinct),
        fun y hy => ?_⟩
      · obtain ⟨y, -, hxy⟩ := exists_of_forall₂ h.flip hx
        exact (hpart x hx y hxy).1
      · obtain ⟨x, hx, hxy⟩ := exists_of_forall₂ h ((hperm.map Prod.snd).mem_iff.mpr hy)
        exact (hpart x hx y hxy).2
  | _ =>
    cases h
    simp [Distinct]

/-- The order of members, at any depth, does not show in what equals what. -/
theorem Shuffled.equals_congr {v' w' : Json} (hv : v.Shuffled v') (hw : w.Shuffled w') :
    v'.equals w' = v.equals w := by
  calc v'.equals w' = v'.equals w := (hw.equals_eq v').symm
    _ = w.equals v' := equals_comm hv.distinct.2 hw.distinct.1
    _ = w.equals v := (hv.equals_eq w).symm
    _ = v.equals w := equals_comm hw.distinct.1 hv.distinct.1

/-- Where one of two values has a boolean the other one has it too, and so no number. -/
theorem ResemblesThroughout.bool_iff (h : v.ResemblesThroughout w) (steps : List Path.Step)
    (b : Bool) : v.at? steps = some (.bool b) ↔ w.at? steps = some (.bool b) := by
  have hplace := h steps
  generalize v.at? steps = o at hplace ⊢
  generalize w.at? steps = o' at hplace ⊢
  cases hplace with
  | none => rfl
  | some hxy => cases hxy <;> simp

/-- Values equal each other just if they resemble each other at every place, numbers by their exact
values. That is symmetric and transitive, holds of a value and itself unless there is a NaN in it,
does not depend on the order of members at any depth, and tells booleans from numbers at any
depth. -/
theorem equals_laws {u : Json} (hu : u.Distinct) (hv : v.Distinct) (hw : w.Distinct) :
    (v.equals w = true ↔ v.ResemblesThroughout w) ∧
      v.equals w = w.equals v ∧
      (u.equals v = true → v.equals w = true → u.equals w = true) ∧
      (u.equals u = true ↔ ∀ steps, u.at? steps ≠ some (.num (.real .nan))) ∧
      (∀ v' w', v.Shuffled v' → w.Shuffled w' → v'.equals w' = v.equals w) ∧
      (v.equals w = true → ∀ steps b,
        v.at? steps = some (.bool b) ↔ w.at? steps = some (.bool b)) := by
  have hplaces := equals_iff_resemblesThroughout hv hw
  refine ⟨hplaces, equals_comm hv hw, equals_trans, equals_self_iff hu, ?reordered, ?booleans⟩
  case reordered => exact fun v' w' hvv' hww' => hvv'.equals_congr hww'
  case booleans => exact fun h => (hplaces.mp h).bool_iff

/-- A record of a level and a switch. -/
def switchedOn : Json := .obj [("level", .num (.int 1)), ("on", .bool true)]

/-- The level one, as a binary number. -/
def level : Json := .num (.real (.finite false 4503599627370496 (-52)))

/-- In either order of its members the other record equals the first one, in both directions, and
through it the first one equals itself. That has no NaN, and a boolean where the other has one. -/
theorem switchedOn_equals :
    let other : Json := .obj [("on", .bool true), ("level", level)]
    let reordered : Json := .obj [("level", level), ("on", .bool true)]
    switchedOn.equals other = true ∧ other.equals switchedOn = true ∧
      reordered.equals switchedOn = true ∧ switchedOn.equals switchedOn = true ∧
      other.at? [.name "on"] = some (.bool true) ∧
      ∀ steps, switchedOn.at? steps ≠ some (.num (.real .nan)) := by
  intro other reordered
  have hon : switchedOn.Distinct := by
    simp [switchedOn, Distinct, DistinctMembers]
  have hother : other.Distinct := by
    simp [other, level, Distinct, DistinctMembers]
  have hreordered : other.Shuffled reordered := by
    refine .object (by decide) rfl (List.forall₂_same.mpr fun x hx => ?_) (.swap _ _ [])
    exact .refl ((distinctMembers_iff.mp (by simp [level, Distinct, DistinctMembers])) x hx)
  have hequals : switchedOn.equals other = true := by
    decide +kernel
  obtain ⟨-, hcomm, htrans, hself, hshuffled, hbool⟩ := equals_laws hon hother hon
  have hback : other.equals switchedOn = true := hcomm.trans hequals
  have hitself := htrans hequals hback
  exact ⟨hequals, hback, (hshuffled _ _ hreordered (.refl hon)).trans hback, hitself,
    (hbool hback _ _).mpr rfl, hself.mp hitself⟩

end Json

end Conform
