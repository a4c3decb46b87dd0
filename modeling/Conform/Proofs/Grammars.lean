import Conform.Proofs.Segments
import Mathlib

/-!
# Conform.Proofs.Grammars

Grammars as languages, to be set beside tests that go through a text from left to right:

```
row p n          n characters of a kind
rows p n         n of them or more
sign c           one given character
separated c L    words of L with c between them
L * M            a word of L and a word of M behind it
1 + L            a word of L, or nothing
```

A language says which texts are words and nothing of how they are found. What is proved here are
the laws of the cuts that tests make (`Text.split_append_cons`, `Text.cut_append_cons`), which
characters the words of a grammar are made of (`Within`), and that a grammar can be narrowed to
words over fewer characters part by part (`Narrows`).
-/

namespace Conform

/-! ## Cuts -/

namespace Text

theorem closingBreak_iff {accepts : List Char → Bool} {cs : List Char} :
    closingBreak accepts cs = true ↔ ∃ w, accepts w = true ∧ (cs = w ∨ cs = w ++ ['\n']) := by
  rw [closingBreak, Bool.or_eq_true, Bool.and_eq_true, beq_iff_eq, List.getLast?_eq_some_iff]
  constructor
  · rintro (hwhole | ⟨⟨w, rfl⟩, hbody⟩)
    · exact ⟨cs, hwhole, .inl rfl⟩
    · exact ⟨w, by simpa using hbody, .inr rfl⟩
  · rintro ⟨w, hw, rfl | rfl⟩
    · exact .inl hw
    · exact .inr ⟨⟨w, rfl⟩, by simpa using hw⟩

theorem cut_append_cons {sep : Char} {a : List Char} (h : sep ∉ a) (b : List Char) :
    cut sep (a ++ sep :: b) = (a, b) := by
  have hpass : ∀ c ∈ a, (c != sep) = true := fun c hc =>
    bne_iff_ne.mpr fun heq => h (heq ▸ hc)
  rw [cut, List.takeWhile_append_of_pos hpass, List.dropWhile_append_of_pos hpass]
  simp

theorem cut_of_not_mem {sep : Char} {cs : List Char} (h : sep ∉ cs) : cut sep cs = (cs, []) := by
  have hpass : ∀ c ∈ cs, (c != sep) = true := fun c hc =>
    bne_iff_ne.mpr fun heq => h (heq ▸ hc)
  rw [cut, List.takeWhile_eq_self_iff.mpr hpass, List.dropWhile_eq_nil_iff.mpr hpass]
  rfl

theorem split_append_cons (sep : Char) (a b : List Char) :
    split sep (a ++ sep :: b) = split sep a ++ split sep b := by
  simp only [Pointer.Text.split_eq_splitOn, List.splitOn_append_cons_self]

theorem split_of_not_mem {sep : Char} {cs : List Char} (h : sep ∉ cs) : split sep cs = [cs] := by
  rw [Pointer.Text.split_eq_splitOn, List.splitOn_eq_singleton h]

/-- Without the separator, or with a last place where it stands. -/
theorem not_mem_or_exists_last (sep : Char) (cs : List Char) :
    sep ∉ cs ∨ ∃ a b, cs = a ++ sep :: b ∧ sep ∉ b := by
  by_cases h : sep ∈ cs
  · obtain ⟨b, a, hcs, hb⟩ := List.eq_append_cons_of_mem (List.mem_reverse.mpr h)
    refine .inr ⟨a.reverse, b.reverse, ?_, by simpa using hb⟩
    rw [← List.reverse_reverse cs, hcs]
    simp
  · exact .inl h

theorem not_mem_of_mem_split {sep : Char} {cs piece : List Char} (h : piece ∈ split sep cs) :
    sep ∉ piece := by
  induction cs generalizing piece with
  | nil =>
    obtain rfl : piece = [] := by simpa [split] using h
    exact List.not_mem_nil
  | cons c cs ih =>
    rw [split] at h
    split_ifs at h with hc
    · obtain rfl | h := List.mem_cons.mp h
      · exact List.not_mem_nil
      · exact ih h
    · cases hpieces : split sep cs with
      | nil => exact absurd hpieces (split_ne_nil sep cs)
      | cons first others =>
        rw [hpieces] at h ih
        obtain rfl | h := List.mem_cons.mp h
        · simpa [Ne.symm hc] using ih List.mem_cons_self
        · exact ih (List.mem_cons_of_mem first h)

/-- The pieces are what stands between the separators, and no other list of texts is. -/
theorem split_eq_iff {sep : Char} {cs : List Char} {pieces : List (List Char)} :
    split sep cs = pieces ↔
      pieces ≠ [] ∧ (∀ piece ∈ pieces, sep ∉ piece) ∧ cs = List.intercalate [sep] pieces := by
  constructor
  · rintro rfl
    refine ⟨split_ne_nil sep cs, fun piece => not_mem_of_mem_split, ?_⟩
    rw [Pointer.Text.split_eq_splitOn, List.intercalate_splitOn]
  · rintro ⟨hne, hfree, rfl⟩
    rw [Pointer.Text.split_eq_splitOn, List.splitOn_intercalate sep hfree hne]

end Text

/-! ## Languages -/

namespace Grammar

/-- So many characters of a kind. -/
def row (p : Char → Bool) (n : Nat) : Language Char :=
  {cs | cs.length = n ∧ ∀ c ∈ cs, p c = true}

/-- So many characters of a kind or more. -/
def rows (p : Char → Bool) (least : Nat) : Language Char :=
  {cs | least ≤ cs.length ∧ ∀ c ∈ cs, p c = true}

/-- One given character. -/
def sign (c : Char) : Language Char := {[c]}

/-- Words with a character between each two of them. -/
def separated (sep : Char) (L : Language Char) : Language Char :=
  {cs | ∃ pieces : List (List Char), pieces ≠ [] ∧ (∀ piece ∈ pieces, piece ∈ L) ∧
    cs = List.intercalate [sep] pieces}

variable {p : Char → Bool} {n : Nat} {cs : List Char} {L M : Language Char}

theorem mem_row : cs ∈ row p n ↔ cs.length = n ∧ ∀ c ∈ cs, p c = true := Iff.rfl

theorem mem_rows : cs ∈ rows p n ↔ n ≤ cs.length ∧ ∀ c ∈ cs, p c = true := Iff.rfl

theorem mem_inf : cs ∈ L ⊓ M ↔ cs ∈ L ∧ cs ∈ M := Iff.rfl

theorem mem_sign_mul {c : Char} : cs ∈ sign c * L ↔ ∃ r ∈ L, cs = c :: r := by
  rw [Language.mem_mul]
  constructor
  · rintro ⟨_, rfl, r, hr, rfl⟩
    exact ⟨r, hr, rfl⟩
  · rintro ⟨r, hr, rfl⟩
    exact ⟨[c], rfl, r, hr, rfl⟩

theorem mem_mul_sign_mul {c : Char} :
    cs ∈ L * (sign c * M) ↔ ∃ a ∈ L, ∃ b ∈ M, cs = a ++ c :: b := by
  rw [Language.mem_mul]
  constructor
  · rintro ⟨a, ha, _, hrest, rfl⟩
    obtain ⟨b, hb, rfl⟩ := mem_sign_mul.mp hrest
    exact ⟨a, ha, b, hb, rfl⟩
  · rintro ⟨a, ha, b, hb, rfl⟩
    exact ⟨a, ha, c :: b, mem_sign_mul.mpr ⟨b, hb, rfl⟩, rfl⟩

theorem mem_row_one_mul : cs ∈ row p 1 * L ↔ ∃ c r, p c = true ∧ r ∈ L ∧ cs = c :: r := by
  rw [Language.mem_mul]
  constructor
  · rintro ⟨_, ⟨hlength, hp⟩, r, hr, rfl⟩
    obtain ⟨c, rfl⟩ := List.length_eq_one_iff.mp hlength
    exact ⟨c, r, hp c (by simp), hr, rfl⟩
  · rintro ⟨c, r, hc, hr, rfl⟩
    exact ⟨[c], ⟨rfl, by simpa using hc⟩, r, hr, rfl⟩

/-! ### The characters of words -/

/-- All words of a language are made of characters with a property. -/
def Within (P : Char → Prop) (L : Language Char) : Prop := ∀ cs ∈ L, ∀ c ∈ cs, P c

section Within

variable {P : Char → Prop}

theorem Within.one : Within P 1 := by
  rintro _ rfl c hc
  exact absurd hc List.not_mem_nil

theorem Within.sign {c : Char} (h : P c) : Within P (sign c) := by
  rintro _ rfl d hd
  rwa [List.mem_singleton.mp hd]

theorem Within.row (h : ∀ c, p c = true → P c) : Within P (row p n) :=
  fun _ hcs c hc => h c (hcs.2 c hc)

theorem Within.rows (h : ∀ c, p c = true → P c) : Within P (rows p n) :=
  fun _ hcs c hc => h c (hcs.2 c hc)

theorem Within.mul (hL : Within P L) (hM : Within P M) : Within P (L * M) := by
  intro cs hcs c hc
  obtain ⟨a, ha, b, hb, rfl⟩ := Language.mem_mul.mp hcs
  obtain hc | hc := List.mem_append.mp hc
  · exact hL a ha c hc
  · exact hM b hb c hc

theorem Within.add (hL : Within P L) (hM : Within P M) : Within P (L + M) := by
  rintro cs (hcs | hcs)
  · exact hL cs hcs
  · exact hM cs hcs

theorem Within.inf (hL : Within P L) : Within P (L ⊓ M) := fun cs hcs => hL cs hcs.1

theorem Within.separated {sep : Char} (hsep : P sep) (hL : Within P L) :
    Within P (separated sep L) := by
  rintro _ ⟨pieces, -, hpieces, rfl⟩
  induction pieces with
  | nil => simp
  | cons piece pieces ih =>
    have hpiece : ∀ c ∈ piece, P c := hL piece (hpieces piece (by simp))
    have hrest := ih fun q hq => hpieces q (by simp [hq])
    cases pieces with
    | nil => simpa using hpiece
    | cons q qs =>
      intro c hc
      rw [List.intercalate_cons_cons] at hc
      obtain hc | hc := List.mem_append.mp hc
      · obtain hc | hc := List.mem_append.mp hc
        · exact hpiece c hc
        · rwa [List.mem_singleton.mp hc]
      · exact hrest c hc

end Within

/-! ### Narrower grammars -/

/-- A word of the one language is a word of the other if all its characters have a property. -/
def Narrows (P : Char → Prop) (L M : Language Char) : Prop :=
  ∀ cs ∈ L, (∀ c ∈ cs, P c) → cs ∈ M

section Narrows

variable {P : Char → Prop} {q : Char → Bool} {L' M' : Language Char}

theorem Narrows.refl (L : Language Char) : Narrows P L L := fun _ hcs _ => hcs

theorem Narrows.row (h : ∀ c, P c → p c = true → q c = true) :
    Narrows P (row p n) (row q n) :=
  fun _ hcs hP => ⟨hcs.1, fun c hc => h c (hP c hc) (hcs.2 c hc)⟩

theorem Narrows.rows (h : ∀ c, P c → p c = true → q c = true) :
    Narrows P (rows p n) (rows q n) :=
  fun _ hcs hP => ⟨hcs.1, fun c hc => h c (hP c hc) (hcs.2 c hc)⟩

theorem Narrows.mul (hL : Narrows P L L') (hM : Narrows P M M') :
    Narrows P (L * M) (L' * M') := by
  intro cs hcs hP
  obtain ⟨a, ha, b, hb, rfl⟩ := Language.mem_mul.mp hcs
  refine Language.mem_mul.mpr ⟨a, hL a ha fun c hc => ?_, b, hM b hb fun c hc => ?_, rfl⟩
  · exact hP c (List.mem_append_left b hc)
  · exact hP c (List.mem_append_right a hc)

theorem Narrows.add (hL : Narrows P L L') (hM : Narrows P M M') :
    Narrows P (L + M) (L' + M') := by
  rintro cs (hcs | hcs) hP
  · exact .inl (hL cs hcs hP)
  · exact .inr (hM cs hcs hP)

theorem Narrows.inf (hL : Narrows P L L') (hM : Narrows P M M') :
    Narrows P (L ⊓ M) (L' ⊓ M') :=
  fun cs hcs hP => ⟨hL cs hcs.1 hP, hM cs hcs.2 hP⟩

end Narrows

end Grammar

end Conform
