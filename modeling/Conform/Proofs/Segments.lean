import Conform.Path
import Conform.Pointer
import Mathlib.Data.List.Basic

/-!
# Conform.Proofs.Segments

The segments of a reference, written and read. A step by name is written with three characters
marked, and a step by index in decimal:

```
a/b     a~1b       a slash would begin the next segment
a~b     a~0b       a tilde would begin a mark
a%b     a%25b      a percent sign would begin an escape
[12]    12
```

Reading resolves the percent escapes first, then `~1` and last `~0`, and each of these layers has
its lemma here. The main statements are that reading gives back what was written
(`unescape_segment`), and that the pieces between the slashes of a written reference are its
segments (`split_written`).
-/

namespace Conform

/-! ## Percent escapes -/

/-- Bytes of the basic set stand for characters one by one. -/
theorem Utf8.decodeLossy_basic {bytes : List Nat} (h : ∀ b ∈ bytes, b < 128) :
    decodeLossy bytes = bytes.map Char.ofNat := by
  rw [decodeLossy, decode]
  induction bytes with
  | nil => rfl
  | cons b bs ih =>
    have hb : b < 128 := h b List.mem_cons_self
    have hbs := ih fun c hc => h c (List.mem_cons_of_mem _ hc)
    simp [decodeFrom, hb, hbs]

namespace Percent

/-- A text with its percent signs escaped. -/
def encode (cs : List Char) : List Char :=
  cs.flatMap fun c => if c = '%' then ['%', '2', '5'] else [c]

theorem decodeFrom_cons_of_ne {c : Char} (h : c ≠ '%') (row : List Nat) (cs : List Char) :
    decodeFrom row (c :: cs) =
      if c.toNat < 128 then decodeFrom (c.toNat :: row) cs
      else Utf8.decodeLossy row.reverse ++ c :: decodeFrom [] cs := by
  rw [decodeFrom]
  exact fun a b r hc => absurd hc h

/-- Behind a row of bytes of the basic set, decoding what was encoded ends the row and goes on with
the text. -/
theorem decodeFrom_encode {row : List Nat} (hrow : ∀ b ∈ row, b < 128) (cs : List Char) :
    decodeFrom row (encode cs) = row.reverse.map Char.ofNat ++ cs := by
  have hdecode : ∀ {row : List Nat}, (∀ b ∈ row, b < 128) →
      Utf8.decodeLossy row.reverse = row.reverse.map Char.ofNat := fun h =>
    Utf8.decodeLossy_basic fun b hb => h b (List.mem_reverse.mp hb)
  induction cs generalizing row with
  | nil => simp [encode, decodeFrom, hdecode hrow]
  | cons c cs ih =>
    have hlonger : ∀ n < 128, ∀ b ∈ n :: row, b < 128 := fun n hn =>
      List.forall_mem_cons.mpr ⟨hn, hrow⟩
    by_cases hc : c = '%'
    · subst hc
      have hbyte : byte? '2' '5' = some 37 := by decide
      have htail := ih (hlonger 37 (by omega))
      simp only [encode, List.flatMap_cons, if_pos, List.cons_append, List.nil_append] at htail ⊢
      rw [decodeFrom, hbyte]
      simp [htail]
    · have hcons : encode (c :: cs) = c :: encode cs := by simp [encode, hc]
      rw [hcons, decodeFrom_cons_of_ne hc]
      split
      · next hsmall => simp [ih (hlonger _ hsmall)]
      · have hbegin : decodeFrom [] (encode cs) = cs := by simpa using @ih [] (by simp)
        rw [hdecode hrow, hbegin]

/-- Decoding gives back the text that was encoded. -/
theorem decode_encode (cs : List Char) : decode (encode cs) = cs := by
  unfold decode
  split
  · simpa using @decodeFrom_encode [] (by simp) cs
  · next hnone =>
    -- without a percent sign nothing was encoded
    have hmem : '%' ∉ encode cs := by simpa using hnone
    have hcs : ∀ c ∈ cs, (if c = '%' then ['%', '2', '5'] else [c]) = [c] := by
      intro c hc
      refine if_neg fun heq => hmem ?_
      exact List.mem_flatMap.mpr ⟨c, hc, by simp [heq]⟩
    rw [encode, List.flatMap_congr hcs]
    simp

end Percent

namespace Pointer

/-! ## Marks behind a tilde -/

theorem replaceTilde_mark (mark stand : Char) (cs : List Char) :
    replaceTilde mark stand ('~' :: mark :: cs) = stand :: replaceTilde mark stand cs := by
  rw [replaceTilde, if_pos rfl]

theorem replaceTilde_cons_of_ne {c : Char} (h : c ≠ '~') (mark stand : Char) (cs : List Char) :
    replaceTilde mark stand (c :: cs) = c :: replaceTilde mark stand cs := by
  rw [replaceTilde]
  exact fun d r hc => absurd hc h

/-- A tilde before another character than the mark stands for itself, and so does that character
unless it is a tilde. -/
theorem replaceTilde_other {mark c : Char} (hmark : c ≠ mark) (hc : c ≠ '~') (stand : Char)
    (cs : List Char) :
    replaceTilde mark stand ('~' :: c :: cs) = '~' :: c :: replaceTilde mark stand cs := by
  rw [replaceTilde, if_neg hmark, replaceTilde_cons_of_ne hc]

/-! ## Names -/

/-- How a character of a name is written. -/
def escapeChar (c : Char) : List Char :=
  if c = '~' then ['~', '0']
  else if c = '/' then ['~', '1']
  else if c = '%' then ['%', '2', '5']
  else [c]

/-- How a name is written in a reference. -/
def escape (name : List Char) : List Char := name.flatMap escapeChar

/-- A name with its tildes marked. -/
def tilded (name : List Char) : List Char :=
  name.flatMap fun c => if c = '~' then ['~', '0'] else [c]

/-- A name with its tildes and slashes marked. -/
def marked (name : List Char) : List Char :=
  name.flatMap fun c => if c = '~' then ['~', '0'] else if c = '/' then ['~', '1'] else [c]

/-- Of the three ways to write a character, escaping is the outermost. -/
theorem escape_eq_encode (name : List Char) : escape name = Percent.encode (marked name) := by
  rw [escape, Percent.encode, marked, List.flatMap_assoc]
  refine List.flatMap_congr fun c _ => ?_
  by_cases htilde : c = '~'
  · simp [escapeChar, htilde]
  · by_cases hslash : c = '/'
    · simp [escapeChar, hslash]
    · simp [escapeChar, htilde, hslash]

theorem replaceTilde_marked (name : List Char) :
    replaceTilde '1' '/' (marked name) = tilded name := by
  induction name with
  | nil => simp [marked, tilded, replaceTilde]
  | cons c cs ih =>
    simp only [marked, tilded, List.flatMap_cons] at ih ⊢
    by_cases htilde : c = '~'
    · simp [htilde, replaceTilde_other, ih]
    · by_cases hslash : c = '/'
      · simp [hslash, replaceTilde_mark, ih]
      · simp [htilde, hslash, replaceTilde_cons_of_ne, ih]

theorem replaceTilde_tilded (name : List Char) :
    replaceTilde '0' '~' (tilded name) = name := by
  induction name with
  | nil => simp [tilded, replaceTilde]
  | cons c cs ih =>
    simp only [tilded, List.flatMap_cons] at ih ⊢
    by_cases htilde : c = '~'
    · simp [htilde, replaceTilde_mark, ih]
    · simp [htilde, replaceTilde_cons_of_ne, ih]

/-- Reading a segment gives back the name that was written. -/
theorem unescape_escape (name : List Char) : unescape (escape name) = name := by
  rw [unescape, escape_eq_encode, Percent.decode_encode, replaceTilde_marked, replaceTilde_tilded]

theorem escape_injective : Function.Injective escape :=
  Function.LeftInverse.injective unescape_escape

theorem slash_not_mem_escape (name : List Char) : '/' ∉ escape name := by
  intro hmem
  obtain ⟨c, -, hc⟩ := List.mem_flatMap.mp hmem
  unfold escapeChar at hc
  split at hc
  · simp at hc
  · split at hc
    · simp at hc
    · split at hc
      · simp at hc
      · next hslash _ => exact hslash (List.mem_singleton.mp hc).symm

/-- What needs no mark is written as it is. -/
theorem escape_eq_self {name : List Char} (h : ∀ c ∈ name, c ≠ '~' ∧ c ≠ '/' ∧ c ≠ '%') :
    escape name = name := by
  have hplain : ∀ c ∈ name, escapeChar c = [c] := by
    intro c hc
    obtain ⟨htilde, hslash, hpercent⟩ := h c hc
    rw [escapeChar, if_neg htilde, if_neg hslash, if_neg hpercent]
  rw [escape, List.flatMap_congr hplain]
  simp

/-! ## Positions -/

theorem digitValue?_of_isDigit {c : Char} (h : c.isDigit) :
    digitValue? c = some (c.toNat - 48) := by
  have hlast : c.toNat ≤ 57 := by
    simp only [Char.isDigit, Bool.and_eq_true, decide_eq_true_eq] at h
    exact UInt32.le_iff_toNat_le.mp h.2
  rw [digitValue?, if_pos (by omega), if_pos h]

/-- A numeral of the basic digits has the value that it has everywhere. -/
theorem decimalValue_eq_ofDigitChars {cs : List Char} (h : ∀ c ∈ cs, c.isDigit) :
    decimalValue cs = Nat.ofDigitChars 10 cs 0 := by
  rw [decimalValue, Nat.ofDigitChars_eq_foldl]
  refine List.foldl_ext _ _ 0 fun n c hc => ?_
  rw [digitValue?_of_isDigit (h c hc)]
  rfl

/-- A position in decimal is read as that position, unless it is longer than numerals may be. -/
theorem position?_toDigits {i : Nat} (h : (Nat.toDigits 10 i).length ≤ maxNumeral) :
    position? (Nat.toDigits 10 i) = .ok (some i) := by
  have hdigits : ∀ c ∈ Nat.toDigits 10 i, c.isDigit := fun c hc =>
    Nat.isDigit_of_mem_toDigits (by omega) (by omega) hc
  have hdecimal : (Nat.toDigits 10 i).all isDecimalDigit = true :=
    List.all_eq_true.mpr fun c hc => isDecimalDigit_of_isDigit c (hdigits c hc)
  have hany : (Nat.toDigits 10 i).all isAnyDigit = true :=
    List.all_eq_true.mpr fun c hc => by
      rw [isAnyDigit, isDecimalDigit_of_isDigit c (hdigits c hc), Bool.true_or]
  simp [position?, hany, hdecimal, h, decimalValue_eq_ofDigitChars hdigits]

/-! ## Steps -/

/-- The text of a step, before anything is marked. -/
def text : Path.Step → List Char
  | .name m => m.toList
  | .index i => Nat.toDigits 10 i

/-- The segment for a step: the name with its marks, or the position in decimal. -/
def segment : Path.Step → List Char
  | .name m => escape m.toList
  | .index i => Nat.toDigits 10 i

/-- The reference for steps into a document. -/
def written (steps : List Path.Step) : String :=
  String.ofList ('#' :: '/' :: List.intercalate ['/'] (steps.map segment))

/-- Decimal digits need no marks. -/
theorem segment_eq_escape (s : Path.Step) : segment s = escape (text s) := by
  cases s with
  | name m => rfl
  | index i =>
    refine (escape_eq_self fun c hc => ?_).symm
    have hdigit : c.isDigit := Nat.isDigit_of_mem_toDigits (by omega) (by omega) hc
    refine ⟨?_, ?_, ?_⟩ <;> rintro rfl <;> exact absurd hdigit (by decide)

/-- Reading a segment gives back the text of the step. -/
theorem unescape_segment (s : Path.Step) : unescape (segment s) = text s := by
  rw [segment_eq_escape, unescape_escape]

/-- Only the empty name is written as an empty segment. -/
theorem isEmpty_segment {s : Path.Step} (h : s ≠ .name "") : (segment s).isEmpty = false := by
  refine List.isEmpty_eq_false_iff.mpr fun hnil => ?_
  have htext : text s = [] := by
    rw [← unescape_segment, hnil]
    exact unescape_escape []
  cases s with
  | name m => exact h (by rw [String.toList_eq_nil_iff.mp htext])
  | index i => exact Nat.toDigits_ne_nil htext

/-! ## References -/

theorem Text.split_eq_splitOn (sep : Char) (cs : List Char) :
    Text.split sep cs = cs.splitOn sep := by
  induction cs with
  | nil => rfl
  | cons c cs ih =>
    rw [Text.split, List.splitOn_cons_eq_if_modifyHead, ih]
    by_cases h : c = sep
    · simp [h]
    · rw [if_neg h, if_neg (by simpa using h)]
      cases hpieces : cs.splitOn sep with
      | nil => exact absurd hpieces (List.splitOn_ne_nil sep cs)
      | cons piece pieces => rfl

/-- Behind the first slash of a written reference, its segments stand between the slashes. -/
theorem split_written {steps : List Path.Step} (h : steps ≠ []) :
    ∃ cs, (written steps).toList = '#' :: cs ∧ Text.split '/' cs = [] :: steps.map segment := by
  refine ⟨'/' :: List.intercalate ['/'] (steps.map segment), by simp [written], ?_⟩
  rw [Text.split, if_pos rfl, Text.split_eq_splitOn, List.splitOn_intercalate]
  · intro piece hpiece
    obtain ⟨t, -, rfl⟩ := List.mem_map.mp hpiece
    rw [segment_eq_escape]
    exact slash_not_mem_escape _
  · simpa using h

end Pointer

end Conform
