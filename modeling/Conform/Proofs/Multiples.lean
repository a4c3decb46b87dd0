import Conform.Number.Basic

/-!
# Conform.Proofs.Multiples

Which numbers can be tested for being multiples: every finite number, of every positive one. Two
integers are divided as integers. Otherwise both are rounded to the binary format, and the divisor
must not become zero there, which no positive number does: an integer keeps a mantissa of at least
one (`Binary64.isZero_ofInt`), and a binary number is its own rounding. Where an integer is too
large for the format the quotient is formed exactly, and both numbers have an exact value.
-/

namespace Conform

namespace Binary64

theorem le_divideToEven (n d : Nat) : n / d ≤ divideToEven n d := by
  unfold divideToEven
  dsimp only
  split
  · exact Nat.le_refl _
  · split
    · omega
    · split <;> omega

theorem floorLog2_one {num : Nat} (h : 0 < num) : floorLog2 num 1 = Nat.log2 num := by
  have hpow : 2 ^ Nat.log2 num ≤ num := Nat.log2_self_le (by omega)
  have hlog : Nat.log2 1 = 0 := by decide
  simp only [floorLog2, scaled, hlog]
  simp
  omega

/-- A fraction scaled for its mantissa does not fall below one. -/
theorem one_le_scaled {num : Nat} (h : 0 < num) :
    let (n, d) := scaled num 1 (Nat.log2 num - 52)
    1 ≤ n / d := by
  have hpow : 2 ^ Nat.log2 num ≤ num := Nat.log2_self_le (by omega)
  unfold scaled
  by_cases hshift : (0 : Int) ≤ Nat.log2 num - 52
  · rw [if_pos hshift]
    have hle : 2 ^ ((Nat.log2 num : Int) - 52).toNat ≤ 2 ^ Nat.log2 num :=
      Nat.pow_le_pow_right (by omega) (by omega)
    have hpos : 0 < 2 ^ ((Nat.log2 num : Int) - 52).toNat := Nat.pow_pos (by omega)
    dsimp only
    rw [Nat.one_mul]
    exact (Nat.le_div_iff_mul_le hpos).mpr (by rw [Nat.one_mul]; exact Nat.le_trans hle hpow)
  · rw [if_neg hshift]
    dsimp only
    rw [Nat.div_one]
    exact Nat.mul_pos h (Nat.pow_pos (by omega))

theorem isZero_assemble (negative : Bool) {mantissa : Nat} (h : 1 ≤ mantissa) (exponent : Int) :
    (assemble negative mantissa exponent).isZero = false := by
  have hhalf : mantissaBound / 2 ≠ 0 := by decide
  unfold assemble
  by_cases hbound : mantissa = mantissaBound
  · rw [if_pos hbound, hbound]
    dsimp only
    split
    · rfl
    · simpa [isZero] using hhalf
  · rw [if_neg hbound]
    dsimp only
    split
    · rfl
    · simp [isZero]
      omega

/-- A positive integer rounds to no zero. -/
theorem isZero_ofInt {k : Int} (h : 0 < k) : (ofInt k).isZero = false := by
  have hnat : 0 < k.natAbs := by omega
  have hexponent : max ((Nat.log2 k.natAbs : Int) - 52) minExponent = Nat.log2 k.natAbs - 52 := by
    unfold minExponent
    omega
  have hscaled := one_le_scaled hnat
  rw [ofInt, roundRatio, if_neg (by omega), floorLog2_one hnat, hexponent]
  dsimp only at hscaled ⊢
  exact isZero_assemble _ (Nat.le_trans hscaled (le_divideToEven _ _)) _

end Binary64

namespace Number

/-- A number on the line, neither a NaN nor infinite. -/
def Finite (n : Number) : Prop := ∃ q, n.extent = .point q

/-- A number on the line, and above zero. -/
def Positive (n : Number) : Prop := ∃ q, n.extent = .point q ∧ 0 < q

theorem exact_of_extent {n : Number} {q : Rat} (h : n.extent = .point q) : n.exact = .ok q := by
  cases n with
  | int i =>
    cases h
    rfl
  | real x =>
    cases x with
    | nan => cases h
    | infinite negative => cases negative <;> cases h
    | finite negative m e =>
      cases h
      rfl

/-- A positive number is no zero in the binary format. -/
theorem isZero_of_toBinary64? {d : Number} (h : d.Positive) {y : Binary64}
    (hy : d.toBinary64? = some y) : y.isZero = false := by
  obtain ⟨q, hq, hpos⟩ := h
  cases d with
  | int k =>
    have hk : 0 < k := by
      cases hq
      exact Rat.intCast_pos.mp hpos
    have hzero := Binary64.isZero_ofInt hk
    simp only [toBinary64?] at hy
    split at hy
    · cases hy
    · cases hy
      exact hzero
  | real x =>
    obtain rfl : x = y := Option.some.inj hy
    cases x with
    | nan => rfl
    | infinite negative => rfl
    | finite negative m e =>
      cases m with
      | succ m => rfl
      | zero =>
        have hmagnitude : Binary64.magnitude 0 e = 0 := by
          simp [Binary64.magnitude]
        have hzero : q = 0 := by
          simpa [extent, hmagnitude] using hq.symm
        rw [hzero] at hpos
        exact absurd hpos (by decide)

/-- A finite number can be tested for being a multiple of a positive one. -/
theorem exists_isMultiple {a d : Number} (ha : a.Finite) (hd : d.Positive) :
    ∃ b, a.isMultiple d = .ok b := by
  have hexact : ∃ b, a.isExactMultiple d = .ok b := by
    obtain ⟨p, hp⟩ := ha
    obtain ⟨q, hq, hpos⟩ := hd
    have hne : q ≠ 0 := by
      rintro rfl
      exact absurd hpos (by decide)
    simp [isExactMultiple, exact_of_extent hp, exact_of_extent hq, hne, bind, Except.bind, pure,
      Except.pure]
  unfold isMultiple
  split
  · next i k =>
    obtain ⟨q, hq, hpos⟩ := hd
    cases hq
    have hk : k ≠ 0 := by
      rintro rfl
      exact absurd hpos (by decide)
    rw [if_neg hk]
    exact ⟨_, rfl⟩
  · split
    · next x y hx hy =>
      have hzero := isZero_of_toBinary64? hd hy
      rw [hzero]
      exact ⟨_, rfl⟩
    · exact hexact

end Number

end Conform
