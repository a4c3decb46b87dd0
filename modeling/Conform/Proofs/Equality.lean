import Conform.Json.Equality
import Conform.Json.Kind
import Conform.Proofs.Counterparts
import Conform.Proofs.Location
import Mathlib.Data.List.Nodup
import Mathlib.Data.List.Perm.Subperm

/-!
# Conform.Proofs.Equality

Equality of values as data. It is transitive, and symmetric where no object gives a name twice. Two
values that equal each other (`Json.Same`) equal the same values, have the same types and compare
alike with every number:

```
number    lies at the same place on the line
array     the same values, position by position
object    the same values by name, in any order
```
-/

namespace Conform

/-! ## Numbers -/

namespace Number

variable {a b : Number}

/-- Numbers are the same where they lie at one place, wherever that is on the line. -/
theorem same_iff : a.same b = true ↔ a.extent = b.extent ∧ a.extent ≠ .nowhere := by
  unfold same
  generalize a.extent = x
  generalize b.extent = y
  cases x <;> cases y <;> simp [Extent.same]

theorem same_comm (h : a.same b = true) : b.same a = true := by
  obtain ⟨heq, hplace⟩ := same_iff.mp h
  exact same_iff.mpr ⟨heq.symm, heq ▸ hplace⟩

theorem same_trans {c : Number} (h : a.same b = true) (h' : b.same c = true) :
    a.same c = true := by
  obtain ⟨heq, hplace⟩ := same_iff.mp h
  exact same_iff.mpr ⟨heq.trans (same_iff.mp h').1, hplace⟩

theorem isNan_iff : a.isNan = true ↔ a.extent = .nowhere := by
  cases a with
  | int i => simp [isNan, extent]
  | real x =>
    cases x with
    | infinite negative => cases negative <;> simp [isNan, extent]
    | _ => simp [isNan, extent]

/-- Whether a number is integral shows at its place. -/
theorem isIntegral_iff : a.isIntegral = true ↔ ∃ q : Rat, a.extent = .point q ∧ q.den = 1 := by
  cases a with
  | int i => simp [isIntegral, extent]
  | real x =>
    cases x with
    | infinite negative =>
      cases negative <;> simp [isIntegral, extent, Binary64.isIntegral, Binary64.value?]
    | _ => simp [isIntegral, extent, Binary64.isIntegral, Binary64.value?]

end Number

/-! ## Lists and tables -/

/-- Relations that follow one from two others, element by element. -/
theorem forall₂_trans_of_mem {α β γ : Type} {R : α → β → Prop} {S : β → γ → Prop}
    {T : α → γ → Prop} {xs : List α} {ys : List β} {zs : List γ} (h : List.Forall₂ R xs ys)
    (h' : List.Forall₂ S ys zs) (hT : ∀ x ∈ xs, ∀ y z, R x y → S y z → T x z) :
    List.Forall₂ T xs zs := by
  induction h generalizing zs with
  | nil =>
    cases h'
    exact .nil
  | cons h _ ih =>
    cases h' with
    | cons h' ht =>
      refine .cons (hT _ List.mem_cons_self _ _ h h') (ih ht fun x hx => ?_)
      exact hT x (List.mem_cons_of_mem _ hx)

theorem any_eq_of_forall₂ {α β : Type} {R : α → β → Prop} {f : α → Bool} {g : β → Bool}
    {xs : List α} {ys : List β} (h : List.Forall₂ R xs ys) (hR : ∀ x y, R x y → f x = g y) :
    xs.any f = ys.any g := by
  induction h with
  | nil => rfl
  | cons h _ ih => rw [List.any_cons, List.any_cons, hR _ _ h, ih]

/-- A table has an entry of each of its names and of no other. -/
theorem Table.has_iff {α : Type} {t : Table α} {k : String} :
    Table.has t k = true ↔ k ∈ t.map Prod.fst := by
  induction t with
  | nil => simp [Table.has]
  | cons e t ih =>
    obtain ⟨l, v⟩ := e
    rw [Table.has] at ih ⊢
    rw [List.lookup_cons, List.map_cons, List.mem_cons]
    by_cases hkl : k = l
    · simp [hkl]
    · have hne : (k == l) = false := beq_false_of_ne hkl
      rw [hne, ih, or_iff_right hkl]

/-- Different names that are all among as many others are those others. -/
theorem Table.perm_names {α β : Type} {t : Table α} {u : Table β} (ht : (t.map Prod.fst).Nodup)
    (hlen : t.length = u.length) (h : ∀ e ∈ t, ∃ y, u.lookup e.1 = some y) :
    (t.map Prod.fst).Perm (u.map Prod.fst) := by
  have hsub : t.map Prod.fst ⊆ u.map Prod.fst := by
    intro k hk
    obtain ⟨e, he, rfl⟩ := List.mem_map.mp hk
    obtain ⟨y, hy⟩ := h e he
    exact List.mem_map.mpr ⟨_, mem_of_lookup hy, rfl⟩
  refine (List.subperm_of_subset ht hsub).perm_of_length_le ?_
  rw [List.length_map, List.length_map]
  exact Nat.le_of_eq hlen.symm

/-! ## Values -/

namespace Json

/-- Every value is built of values for which a statement is known. -/
theorem induction {P : Json → Prop} (absent : P .absent) (null : P .null) (bool : ∀ b, P (.bool b))
    (num : ∀ n, P (.num n)) (str : ∀ s, P (.str s)) (arr : ∀ xs, (∀ x ∈ xs, P x) → P (.arr xs))
    (obj : ∀ ms, (∀ e ∈ ms, P e.2) → P (.obj ms)) (j : Json) : P j := by
  induction hn : j.height using Nat.strongRecOn generalizing j with
  | ind n ih =>
    subst hn
    cases j with
    | arr xs =>
      refine arr xs fun x hx => ih _ ?_ x rfl
      have hle := height_le_itemsHeight hx
      rw [height]
      omega
    | obj ms =>
      refine obj ms fun e he => ih _ ?_ e.2 rfl
      have hle := height_le_membersHeight he
      rw [height]
      omega
    | absent => exact absent
    | null => exact null
    | bool b => exact bool b
    | num n => exact num n
    | str s => exact str s

theorem equalItems_iff {xs ys : List Json} :
    equalItems xs ys = true ↔ List.Forall₂ (fun x y => x.equals y = true) xs ys := by
  induction xs generalizing ys with
  | nil => cases ys <;> simp [equalItems]
  | cons x xs ih => cases ys <;> simp [equalItems, ih]

theorem includedIn_iff {ms ns : Members} :
    includedIn ms ns = true ↔
      ∀ e ∈ ms, ∃ y, ns.lookup e.1 = some y ∧ e.2.equals y = true := by
  induction ms with
  | nil => simp [includedIn]
  | cons e ms ih =>
    obtain ⟨k, x⟩ := e
    rw [includedIn, Bool.and_eq_true, ih, List.forall_mem_cons]
    refine and_congr_left fun _ => ?_
    cases ns.lookup k <;> simp

theorem equals_trans {a b c : Json} (h : a.equals b = true) (h' : b.equals c = true) :
    a.equals c = true := by
  induction a using Json.induction generalizing b c with
  | arr xs ih =>
    cases b <;> cases c <;> simp only [equals, Bool.false_eq_true] at h h' ⊢
    rw [equalItems_iff] at h h' ⊢
    exact forall₂_trans_of_mem h h' fun x hx _ _ => ih x hx
  | obj ms ih =>
    cases b <;> cases c <;>
      simp only [equals, Bool.false_eq_true, Bool.and_eq_true, beq_iff_eq, includedIn_iff] at h h' ⊢
    refine ⟨h.1.trans h'.1, fun e he => ?_⟩
    obtain ⟨y, hy, hxy⟩ := h.2 e he
    obtain ⟨z, hz, hyz⟩ := h'.2 _ (mem_of_lookup hy)
    exact ⟨z, hz, ih e he hxy hyz⟩
  | num n =>
    cases b <;> cases c <;> simp only [equals, Bool.false_eq_true] at h h' ⊢
    exact Number.same_trans h h'
  | _ => cases b <;> cases c <;> simp_all [equals]

/-- Where no object gives a name twice, values are equal both ways. -/
theorem equals_symm {a b : Json} (ha : a.Distinct) (hb : b.Distinct) (h : a.equals b = true) :
    b.equals a = true := by
  induction a using Json.induction generalizing b with
  | arr xs ih =>
    cases b <;> simp only [equals, Bool.false_eq_true] at h ⊢
    rw [equalItems_iff] at h ⊢
    rw [Distinct] at ha hb
    refine (forall₂_and_mem h).flip.imp fun y x hxy => ?_
    exact ih x hxy.2.1 (ha.of_mem hxy.2.1) (hb.of_mem hxy.2.2) hxy.1
  | obj ms ih =>
    cases b <;>
      simp only [equals, Bool.false_eq_true, Bool.and_eq_true, beq_iff_eq, includedIn_iff] at h ⊢
    rw [Distinct] at ha hb
    obtain ⟨hlen, hincluded⟩ := h
    have hnames := Table.perm_names ha.1 hlen fun e he => (hincluded e he).imp fun _ h => h.1
    refine ⟨hlen.symm, fun e he => ?_⟩
    -- the name of the member is one of the names here, and leads back to the member
    obtain ⟨e', he', hname⟩ :=
      List.mem_map.mp (hnames.mem_iff.mpr (List.mem_map_of_mem (f := Prod.fst) he))
    obtain ⟨y, hy, hequals⟩ := hincluded e' he'
    rw [hname, lookup_of_mem hb.1 he] at hy
    cases hy
    refine ⟨e'.2, ?_, ih e' he' (ha.2.of_mem he') (hb.2.of_mem he) hequals⟩
    rw [← hname]
    exact lookup_of_mem ha.1 he'
  | num n =>
    cases b <;> simp only [equals, Bool.false_eq_true] at h ⊢
    exact Number.same_comm h
  | _ => cases b <;> simp_all [equals]

/-! ## Values that equal each other -/

/-- Two values that equal each other, in which no object gives a name twice. -/
structure Same (v w : Json) : Prop where
  equals : v.equals w = true
  symm : w.equals v = true
  left : v.Distinct
  right : w.Distinct

theorem same_of_equals {v w : Json} (hv : v.Distinct) (hw : w.Distinct) (h : v.equals w = true) :
    Same v w := ⟨h, equals_symm hv hw h, hv, hw⟩

/-- How two values look that equal each other. -/
inductive Matches : Json → Json → Prop where
  | refl (v : Json) : Matches v v
  | number {n m : Number} (h : n.same m = true) : Matches (.num n) (.num m)
  | array {xs ys : List Json} (h : List.Forall₂ Same xs ys) : Matches (.arr xs) (.arr ys)
  | object {ms ms' ns : Members} (h : Table.Related Same ms ms') (hperm : ms'.Perm ns) :
      Matches (.obj ms) (.obj ns)

namespace Same

variable {v w : Json}

theorem items {xs ys : List Json} (h : Same (.arr xs) (.arr ys)) : List.Forall₂ Same xs ys := by
  obtain ⟨hequals, -, hxs, hys⟩ := h
  rw [Json.equals, equalItems_iff] at hequals
  rw [Distinct] at hxs hys
  refine (forall₂_and_mem hequals).imp fun x y hxy => ?_
  exact same_of_equals (hxs.of_mem hxy.2.1) (hys.of_mem hxy.2.2) hxy.1

/-- Members that equal each other are the same but for their order. -/
theorem members {ms ns : Members} (h : Same (.obj ms) (.obj ns)) :
    ∃ ms', Table.Related Same ms ms' ∧ ms'.Perm ns := by
  obtain ⟨hequals, hsymm, hms, hns⟩ := h
  rw [Json.equals, Bool.and_eq_true, includedIn_iff] at hequals hsymm
  rw [Distinct] at hms hns
  -- for each member, in this order, the one of its name in the other
  refine ⟨ms.map fun e => (e.1, (ns.lookup e.1).getD .null), ?related, ?perm⟩
  case related =>
    refine List.forall₂_map_right_iff.mpr (List.forall₂_same.mpr fun e he => ⟨rfl, ?_⟩)
    obtain ⟨y, hy, hxy⟩ := hequals.2 e he
    rw [hy, Option.getD_some]
    exact same_of_equals (hms.2.of_mem he) (hns.2.of_mem (mem_of_lookup hy)) hxy
  case perm =>
    refine (List.perm_ext_iff_of_nodup (List.Nodup.of_map Prod.fst ?_)
      (List.Nodup.of_map Prod.fst hns.1)).mpr fun e => ⟨fun he => ?_, fun he => ?_⟩
    · rw [List.map_map]
      exact hms.1
    · obtain ⟨e, hmem, rfl⟩ := List.mem_map.mp he
      obtain ⟨y, hy, -⟩ := hequals.2 e hmem
      rw [hy]
      exact mem_of_lookup hy
    · obtain ⟨x, hx, -⟩ := hsymm.2 e he
      refine List.mem_map.mpr ⟨(e.1, x), mem_of_lookup hx, ?_⟩
      rw [lookup_of_mem hns.1 he, Option.getD_some]

theorem form (h : Same v w) : Matches v w := by
  have hequals := h.equals
  cases v <;> cases w <;> simp only [Json.equals, Bool.false_eq_true, beq_iff_eq] at hequals
  case num.num => exact .number hequals
  case arr.arr => exact .array h.items
  case obj.obj =>
    obtain ⟨ms', hrelated, hperm⟩ := h.members
    exact .object hrelated hperm
  all_goals
    subst_vars
    exact .refl _

/-- They equal the same values. -/
theorem equals_eq (h : Same v w) (c : Json) : v.equals c = w.equals c :=
  Bool.eq_iff_iff.mpr ⟨equals_trans h.symm, equals_trans h.equals⟩

/-- The same values equal them. -/
theorem equals_eq' (h : Same v w) (c : Json) : c.equals v = c.equals w :=
  Bool.eq_iff_iff.mpr ⟨fun hc => equals_trans hc h.equals, fun hc => equals_trans hc h.symm⟩

theorem isAmong_eq (h : Same v w) (allowed : List Json) :
    v.isAmong allowed = w.isAmong allowed := by
  rw [isAmong, isAmong, funext h.equals_eq]

theorem hasType_eq (h : Same v w) (t : Json) : v.hasType t = w.hasType t := by
  cases t with
  | str name =>
    cases h.form with
    | refl => rfl
    | array _ => rfl
    | object _ _ => rfl
    | @number n m hsame =>
      have hextent := (Number.same_iff.mp hsame).1
      have hnan : n.isNan = m.isNan := by
        rw [Bool.eq_iff_iff, Number.isNan_iff, Number.isNan_iff, hextent]
      have hintegral : n.isIntegral = m.isIntegral := by
        rw [Bool.eq_iff_iff, Number.isIntegral_iff, Number.isIntegral_iff, hextent]
      rw [hasType, hasType, hasTypeName, hasTypeName, hnan, hintegral]
  | _ => rfl

theorem hasSomeType_eq (h : Same v w) (types : List Json) :
    v.hasSomeType types = w.hasSomeType types := by
  rw [hasSomeType, hasSomeType, funext h.hasType_eq]

end Same

/-- Values that no equality tells apart may stand for each other where duplicates are looked for. -/
theorem hasDuplicates_congr {xs ys : List Json}
    (h : List.Forall₂ (fun x y => ∀ c : Json, x.equals c = y.equals c ∧ c.equals x = c.equals y)
      xs ys) : hasDuplicates xs = hasDuplicates ys := by
  induction h with
  | nil => rfl
  | @cons x y xs ys hxy h ih =>
    have hany : xs.any x.equals = ys.any y.equals :=
      any_eq_of_forall₂ h fun x' y' h' => (hxy x').1.trans (h' y).2
    rw [hasDuplicates, hasDuplicates, hany, ih]

theorem hasDuplicates_eq {xs ys : List Json} (h : List.Forall₂ Same xs ys) :
    hasDuplicates xs = hasDuplicates ys :=
  hasDuplicates_congr (h.imp fun _ _ hxy c => ⟨hxy.equals_eq c, hxy.equals_eq' c⟩)

end Json

end Conform
