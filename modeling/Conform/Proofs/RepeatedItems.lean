import Conform.Proofs.EqualPlaces

/-!
# Conform.Proofs.RepeatedItems

Items that repeat. Looking for duplicates compares each item with those behind it, in that order
and in no other:

```
[a, b, c]    a with b    a with c    b with c
```

The main statement is that nothing shows of this. A list has duplicates just if two of its positions
hold equal values, and that does not change where its items are put in another order, or where
values are put in the place of values that they equal. It comes down to two facts about equality:
it is symmetric, so a pair may be compared from either side, and values that equal each other equal
the same values. A value that holds a NaN equals nothing and repeats nothing.
-/

namespace Conform

namespace Json

variable {xs ys : List Json} {i j : Nat}

/-! ## Positions -/

/-- The value at one position of a list equals the value at another. -/
def EqualAt (xs : List Json) (i j : Nat) : Prop :=
  ∃ x y, xs[i]? = some x ∧ xs[j]? = some y ∧ x.equals y = true

theorem EqualAt.symm (hxs : ∀ x ∈ xs, x.Distinct) (h : EqualAt xs i j) : EqualAt xs j i := by
  obtain ⟨x, y, hx, hy, hequals⟩ := h
  have hxd : x.Distinct := hxs x (List.mem_of_getElem? hx)
  have hyd : y.Distinct := hxs y (List.mem_of_getElem? hy)
  exact ⟨y, x, hy, hx, equals_symm hxd hyd hequals⟩

/-- What the search finds, whatever the values are: equal values at a position and behind it. -/
theorem hasDuplicates_iff_lt : hasDuplicates xs = true ↔ ∃ i j, i < j ∧ EqualAt xs i j := by
  rw [← Bool.not_eq_false, hasDuplicates_eq_false_iff, List.pairwise_iff_getElem]
  constructor
  · intro h
    simp only [not_forall, Bool.not_eq_false] at h
    obtain ⟨i, j, hi, hj, hij, hequals⟩ := h
    exact ⟨i, j, hij, _, _, List.getElem?_eq_getElem hi, List.getElem?_eq_getElem hj, hequals⟩
  · rintro ⟨i, j, hij, x, y, hx, hy, hequals⟩ h
    obtain ⟨hi, rfl⟩ := List.getElem?_eq_some_iff.mp hx
    obtain ⟨hj, rfl⟩ := List.getElem?_eq_some_iff.mp hy
    have hdiffer := h i j hi hj hij
    rw [hequals] at hdiffer
    cases hdiffer

/-- Two positions are enough, in either order. -/
theorem hasDuplicates_iff (hxs : ∀ x ∈ xs, x.Distinct) :
    hasDuplicates xs = true ↔ ∃ i j, i ≠ j ∧ EqualAt xs i j := by
  rw [hasDuplicates_iff_lt]
  constructor
  · rintro ⟨i, j, hij, h⟩
    exact ⟨i, j, by omega, h⟩
  · rintro ⟨i, j, hij, h⟩
    have horder : i < j ∨ j < i := by omega
    obtain hij | hji := horder
    · exact ⟨i, j, hij, h⟩
    · exact ⟨j, i, hji, h.symm hxs⟩

/-! ## Order -/

/-- Neither of two values equals the other. -/
def Apart (v w : Json) : Prop := v.equals w = false ∧ w.equals v = false

/-- Pairs come in the order of the list. It takes a relation that looks both ways to forget it. -/
theorem hasDuplicates_eq_false_iff_apart (hxs : ∀ x ∈ xs, x.Distinct) :
    hasDuplicates xs = false ↔ xs.Pairwise Apart := by
  rw [hasDuplicates_eq_false_iff]
  refine List.Pairwise.iff_of_mem fun {x y} hx hy => ?_
  have hcomm : y.equals x = x.equals y := equals_comm (hxs y hy) (hxs x hx)
  simp [Apart, hcomm]

/-- No order of the items makes two of them differ that are equal in another. -/
theorem hasDuplicates_perm (hxs : ∀ x ∈ xs, x.Distinct) (h : xs.Perm ys) :
    hasDuplicates xs = hasDuplicates ys := by
  have hys : ∀ y ∈ ys, y.Distinct := fun y hy => hxs y (h.mem_iff.mpr hy)
  have hpairs : xs.Pairwise Apart ↔ ys.Pairwise Apart := h.pairwise_iff And.symm
  have hfalse : hasDuplicates xs = false ↔ hasDuplicates ys = false := by
    rw [hasDuplicates_eq_false_iff_apart hxs, hasDuplicates_eq_false_iff_apart hys, hpairs]
  rw [Bool.eq_iff_iff, ← not_iff_not]
  simpa using hfalse

/-! ## Equal values -/

/-- Values in the place of values that they equal. -/
theorem hasDuplicates_replaced (hxs : ∀ x ∈ xs, x.Distinct) (hys : ∀ y ∈ ys, y.Distinct)
    (h : List.Forall₂ (fun x y => x = y ∨ x.equals y = true) xs ys) :
    hasDuplicates xs = hasDuplicates ys := by
  refine hasDuplicates_congr ((forall₂_and_mem h).imp fun x y hxy c => ?_)
  obtain ⟨rfl | hequals, hx, hy⟩ := hxy
  · exact ⟨rfl, rfl⟩
  · have hsame : Same x y := same_of_equals (hxs x hx) (hys y hy) hequals
    exact ⟨hsame.equals_eq c, hsame.equals_eq' c⟩

/-! ## The rule -/

/-- The rule for unique items asks nothing of the items but whether there are duplicates. -/
theorem verdict_uniqueItemsRule (k : ArrayKeywords) (xs : List Json) (path : String) :
    (Evaluation.uniqueItemsRule k xs path).verdict =
      .ok (!(k.uniqueItems && hasDuplicates xs)) := by
  unfold Evaluation.uniqueItemsRule
  cases k.uniqueItems <;> cases hasDuplicates xs <;> rfl

/-- A list has duplicates just if two different positions hold equal values, and of these each
equals the other. Putting the items in another order changes nothing, and neither does putting equal
values in the place of some. So the answer of the rule for unique items, which depends on nothing
else, does not depend on the order of the items. -/
theorem hasDuplicates_laws (hxs : ∀ x ∈ xs, x.Distinct) :
    (hasDuplicates xs = true ↔ ∃ i j, i ≠ j ∧ EqualAt xs i j) ∧
      (∀ i j, EqualAt xs i j ↔ EqualAt xs j i) ∧
      (∀ ys, xs.Perm ys → hasDuplicates ys = hasDuplicates xs) ∧
      (∀ ys, (∀ y ∈ ys, y.Distinct) →
        List.Forall₂ (fun x y => x = y ∨ x.equals y = true) xs ys →
        hasDuplicates ys = hasDuplicates xs) ∧
      ∀ k path, (Evaluation.uniqueItemsRule k xs path).verdict =
        .ok (!(k.uniqueItems && hasDuplicates xs)) := by
  refine ⟨hasDuplicates_iff hxs, fun i j => ?_, fun ys hperm => ?_, fun ys hys hreplaced => ?_,
    fun k path => verdict_uniqueItemsRule k xs path⟩
  · exact ⟨EqualAt.symm hxs, EqualAt.symm hxs⟩
  · exact (hasDuplicates_perm hxs hperm).symm
  · exact (hasDuplicates_replaced hxs hys hreplaced).symm

/-- Two levels that could not be read, a switch, and one record that is written in two ways: in
another order, and with its level once as an integer and once in the binary format. -/
def readings : List Json := [
  .num (.real .nan),
  .obj [("level", .num (.int 1)), ("on", .bool true)],
  .num (.real .nan),
  .bool true,
  .obj [("on", .bool true), ("level", .num (.real (.finite false 4503599627370496 (-52))))]]

/-- The record repeats: it stands at the second position and at the last, each of the two equals the
other, and a rule for unique items refuses the readings. There are duplicates as well with the last
reading first, and with the record written in one way at both positions. -/
theorem readings_repeat :
    let rewritten := readings.set 4 (.obj [("level", .num (.int 1)), ("on", .bool true)])
    (∀ x ∈ readings, x.Distinct) ∧ EqualAt readings 1 4 ∧ EqualAt readings 4 1 ∧
      hasDuplicates readings = true ∧ hasDuplicates readings.reverse = true ∧
      (∀ y ∈ rewritten, y.Distinct) ∧ hasDuplicates rewritten = true ∧
      (Evaluation.uniqueItemsRule { uniqueItems := true } readings "").verdict = .ok false := by
  intro rewritten
  have hdistinct : ∀ x ∈ readings, x.Distinct := by
    simp [readings, Distinct, DistinctMembers]
  have hrewritten : ∀ y ∈ rewritten, y.Distinct := by
    simp [rewritten, readings, Distinct, DistinctMembers]
  have hequal : EqualAt readings 1 4 := ⟨_, _, rfl, rfl, by decide +kernel⟩
  have hreplaced : List.Forall₂ (fun x y => x = y ∨ x.equals y = true) readings rewritten := by
    refine .cons (.inl rfl) (.cons (.inl rfl) (.cons (.inl rfl) (.cons (.inl rfl) (.cons ?_ .nil))))
    exact .inr (by decide +kernel)
  obtain ⟨hpositions, hcomm, hperm, hreplace, hrule⟩ := hasDuplicates_laws hdistinct
  have hrepeats : hasDuplicates readings = true := hpositions.mpr ⟨1, 4, by decide, hequal⟩
  refine ⟨hdistinct, hequal, (hcomm 1 4).mp hequal, hrepeats, ?_, hrewritten, ?_, ?_⟩
  · rw [hperm _ readings.reverse_perm.symm, hrepeats]
  · rw [hreplace rewritten hrewritten hreplaced, hrepeats]
  · rw [hrule, hrepeats]
    rfl

end Json

end Conform
