import Conform.Proofs.ClockWords
import Conform.Proofs.NamedWords

/-!
# Conform.Proofs.WholeTexts

Which texts five of the formats accept, to their last character:

```
email        a word                and possibly a line break behind it
uuid         a word                and possibly a line break behind it
hostname     a word                and possibly a line break behind it, 253 characters in all
time         a word that rounds    and possibly a line break behind it, digits of any script
duration     a word                and possibly a line break behind it, digits of any script
```

The grammars are those of `NamedWords` and `ClockWords`. No word holds a line break, so that the one
behind a word is all that is accepted beyond words over digits of any script; and what is accepted
without a line break, all of its digits being basic, is a word over basic digits
(`accepted_word`).
-/

namespace Conform

namespace Format

open Grammar

/-- The formats that are given by a grammar of words. -/
inductive WordFormat where
  | email
  | uuid
  | hostname
  | time
  | duration
deriving DecidableEq, Repr

namespace WordFormat

/-- The name that a schema uses. -/
def name : WordFormat → String
  | .email => "email"
  | .uuid => "uuid"
  | .hostname => "hostname"
  | .time => "time"
  | .duration => "duration"

/-- The words of a format, over a kind of digits. -/
def words (digit : Char → Bool) : WordFormat → Language Char
  | .email => mail
  | .uuid => Format.uuid
  | .hostname => host
  | .time => Format.time digit
  | .duration => Format.duration digit

/-- The words over digits of any script that the test keeps; those of times have to round to less
than a full minute. -/
def kept : WordFormat → Language Char
  | .time => clock isDecimalDigit (seconds isDecimalDigit ⊓ roundedBelow)
  | f => f.words isDecimalDigit

/-- The longest text that is looked at. -/
def inLimit : WordFormat → Language Char
  | .hostname => {cs | cs.length ≤ 253}
  | _ => ⊤

/-- The texts that are accepted: a word, or a word and a line break. -/
def accepted (f : WordFormat) : Language Char := f.kept * (1 + sign '\n') ⊓ f.inLimit

end WordFormat

/-! ## The tests -/

theorem mem_mul_option {L : Language Char} {c : Char} {cs : List Char} :
    cs ∈ L * (1 + sign c) ↔ ∃ w ∈ L, cs = w ∨ cs = w ++ [c] := by
  rw [Language.mem_mul]
  constructor
  · rintro ⟨w, hw, b, rfl | rfl, rfl⟩
    · exact ⟨w, hw, .inl (List.append_nil w)⟩
    · exact ⟨w, hw, .inr rfl⟩
  · rintro ⟨w, hw, rfl | rfl⟩
    · exact ⟨cs, hw, [], .inl rfl, List.append_nil cs⟩
    · exact ⟨w, hw, [c], .inr rfl, rfl⟩

/-- A test of words with a line break allowed behind them. -/
theorem closingBreak_iff_mem {accepts : List Char → Bool} {L : Language Char}
    (h : ∀ cs, accepts cs = true ↔ cs ∈ L) {cs : List Char} :
    Text.closingBreak accepts cs = true ↔ cs ∈ L * (1 + sign '\n') := by
  simp only [Text.closingBreak_iff, mem_mul_option, h]

/-- A line break behind a text puts no two periods side by side. -/
theorem doublePeriod_append_break {w : List Char} :
    ['.', '.'] <:+: w ++ ['\n'] ↔ ['.', '.'] <:+: w := by
  rw [List.infix_concat_iff, or_iff_right]
  rintro ⟨before, h⟩
  have hlast := congrArg List.getLast? h
  simp at hlast

theorem isEmail_iff {cs : List Char} : isEmail cs = true ↔ cs ∈ mail * (1 + sign '\n') := by
  rw [isEmail, Bool.and_eq_true, Bool.not_eq_true', ← Bool.not_eq_true, hasDoublePeriod_iff,
    closingBreak_iff_mem fun _ => isMailbox_iff, mem_mul_option, mem_mul_option]
  constructor
  · rintro ⟨hperiods, w, hw, rfl | rfl⟩
    · exact ⟨cs, ⟨hw, hperiods⟩, .inl rfl⟩
    · exact ⟨w, ⟨hw, mt doublePeriod_append_break.mpr hperiods⟩, .inr rfl⟩
  · rintro ⟨w, ⟨hw, hperiods⟩, rfl | rfl⟩
    · exact ⟨hperiods, cs, hw, .inl rfl⟩
    · exact ⟨mt doublePeriod_append_break.mp hperiods, w, hw, .inr rfl⟩

variable [Host] in
/-- The test of a format accepts its texts. -/
theorem check_eq_true_iff (f : WordFormat) (s : String) :
    check [] (.str s) (.str f.name) = .ok true ↔ s.toList ∈ f.accepted := by
  have hplain {accepts : List Char → Bool} : plain accepts s = .ok true ↔
      accepts s.toList = true := by
    rw [plain, Except.ok.injEq]
  cases f with
  | email => exact hplain.trans (isEmail_iff.trans (and_iff_left trivial).symm)
  | uuid =>
    exact hplain.trans ((closingBreak_iff_mem fun _ => isUuidBody_iff).trans
      (and_iff_left trivial).symm)
  | hostname =>
    refine hplain.trans ?_
    rw [isHostname, Bool.and_eq_true, decide_eq_true_eq, and_comm,
      closingBreak_iff_mem fun _ => isLabels_iff]
    exact Iff.rfl
  | time =>
    exact hplain.trans ((closingBreak_iff_mem fun _ => isTimeBody_iff).trans
      (and_iff_left trivial).symm)
  | duration =>
    exact hplain.trans ((closingBreak_iff_mem fun _ => isDurationBody_iff).trans
      (and_iff_left trivial).symm)

/-! ## The words -/

section Within

variable {P : Char → Prop} {digit : Char → Bool}

theorem within_amount (hdigit : ∀ c, digit c = true → P c) {unit : Char} (hunit : P unit) :
    Within P (amount digit unit) :=
  .add .one (.mul (.rows hdigit) (.sign hunit))

theorem within_fraction (hdigit : ∀ c, digit c = true → P c) (hpoint : P '.') :
    Within P (fraction digit) :=
  .mul (.sign hpoint) (.rows hdigit)

theorem within_time (hdigit : ∀ c, digit c = true → P c) (hcolon : P ':') (hpoint : P '.') :
    Within P (time digit) :=
  have hpair : ∀ most, Within P (pair digit most) := fun _ => .inf (.row hdigit)
  .mul (hpair 23) (.mul (.sign hcolon) (.mul (hpair 59) (.mul (.sign hcolon)
    (.mul (hpair 59) (.add .one (within_fraction hdigit hpoint))))))

theorem within_duration (hdigit : ∀ c, digit c = true → P c)
    (hsigns : ∀ c ∈ ['P', 'Y', 'M', 'W', 'D', 'T', 'H', 'S', '.'], P c) :
    Within P (duration digit) := by
  have hamount : ∀ unit ∈ ['Y', 'M', 'W', 'D', 'H'], Within P (Format.amount digit unit) :=
    fun unit hunit => within_amount hdigit (hsigns unit (by simp at hunit ⊢; tauto))
  have hseconds : Within P (amountOfSeconds digit) :=
    .add .one (.mul (.rows hdigit) (.mul
      (.add .one (within_fraction hdigit (hsigns '.' (by simp)))) (.sign (hsigns 'S' (by simp)))))
  have htime : Within P (amountsOfTime digit) :=
    .mul (hamount 'H' (by simp)) (.mul (hamount 'M' (by simp)) hseconds)
  have hamounts : Within P (amounts digit) :=
    .mul (hamount 'Y' (by simp)) (.mul (hamount 'M' (by simp)) (.mul (hamount 'W' (by simp))
      (.mul (hamount 'D' (by simp)) (.add .one (.mul (.sign (hsigns 'T' (by simp))) htime.inf)))))
  exact .mul (.sign (hsigns 'P' (by simp))) hamounts.inf

end Within

/-- No word holds a line break. -/
theorem within_words (f : WordFormat) : Within (· ≠ '\n') (f.words isDecimalDigit) := by
  have hne {p : Char → Bool} (h : p '\n' = false) : ∀ c, p c = true → c ≠ '\n' := by
    rintro c hc rfl
    exact Bool.false_ne_true (h.symm.trans hc)
  have hsign (c : Char) (h : c ≠ '\n') : Within (· ≠ '\n') (sign c) := .sign h
  cases f with
  | email =>
    refine .inf (.mul (.rows (hne (by decide))) (.mul (hsign '@' (by decide)) ?_))
    exact .mul (.rows (hne (by decide))) (.mul (hsign '.' (by decide)) (.rows (hne (by decide))))
  | uuid =>
    have hhex (n : Nat) : Within (· ≠ '\n') (hex n) := .row (hne (by decide))
    have hhyphen := hsign '-' (by decide)
    exact .mul (hhex 8) (.mul hhyphen (.mul (hhex 4) (.mul hhyphen
      (.mul (.mul (.row (hne (by decide))) (hhex 3)) (.mul hhyphen
        (.mul (.mul (.row (hne (by decide))) (hhex 3)) (.mul hhyphen (hhex 12))))))))
  | hostname =>
    refine .separated (by decide) fun cs hcs c hc => ?_
    obtain halnum | rfl := hcs.2.2.1 c hc
    · exact hne (p := Char.isAlphanum) (by decide) c halnum
    · decide
  | time => exact within_time (hne (by decide)) (by decide) (by decide)
  | duration => exact within_duration (hne (by decide)) (by simp)

section Narrows

variable {P : Char → Prop} {digit digit' : Char → Bool}
  (h : ∀ c, P c → digit c = true → digit' c = true)

include h

theorem narrows_amount (unit : Char) : Narrows P (amount digit unit) (amount digit' unit) :=
  .add (.refl 1) (.mul (.rows h) (.refl (sign unit)))

theorem narrows_fraction : Narrows P (fraction digit) (fraction digit') :=
  .mul (.refl (sign '.')) (.rows h)

theorem narrows_time : Narrows P (time digit) (time digit') :=
  have hpair : ∀ most, Narrows P (pair digit most) (pair digit' most) := fun _ =>
    .inf (.row h) (.refl _)
  .mul (hpair 23) (.mul (.refl _) (.mul (hpair 59) (.mul (.refl _)
    (.mul (hpair 59) (.add (.refl 1) (narrows_fraction h))))))

theorem narrows_duration : Narrows P (duration digit) (duration digit') := by
  have hseconds : Narrows P (amountOfSeconds digit) (amountOfSeconds digit') :=
    .add (.refl 1) (.mul (.rows h) (.mul (.add (.refl 1) (narrows_fraction h)) (.refl _)))
  have htime : Narrows P (amountsOfTime digit) (amountsOfTime digit') :=
    .mul (narrows_amount h 'H') (.mul (narrows_amount h 'M') hseconds)
  have hamounts : Narrows P (amounts digit) (amounts digit') :=
    .mul (narrows_amount h 'Y') (.mul (narrows_amount h 'M') (.mul (narrows_amount h 'W')
      (.mul (narrows_amount h 'D') (.add (.refl 1) (.mul (.refl _) (.inf htime (.refl _)))))))
  exact .mul (.refl _) (.inf hamounts (.refl _))

theorem narrows_words (f : WordFormat) : Narrows P (f.words digit) (f.words digit') := by
  cases f with
  | email => exact .refl mail
  | uuid => exact .refl uuid
  | hostname => exact .refl host
  | time => exact narrows_time h
  | duration => exact narrows_duration h

end Narrows

theorem words_of_kept {f : WordFormat} {cs : List Char} (h : cs ∈ f.kept) :
    cs ∈ f.words isDecimalDigit := by
  cases f with
  | time =>
    simp only [WordFormat.kept, WordFormat.words, time, clock, mem_mul_sign_mul] at h ⊢
    obtain ⟨a, ha, _, ⟨b, hb, r, hr, rfl⟩, rfl⟩ := h
    exact ⟨a, ha, _, ⟨b, hb, r, hr.1, rfl⟩, rfl⟩
  | _ => exact h

/-! ## Accepted texts -/

/-- Among the basic characters, digits are basic digits. -/
theorem isDigit_of_isDecimalDigit {c : Char} (hbasic : c.toNat < 128)
    (h : isDecimalDigit c = true) : c.isDigit = true := by
  rw [isDecimalDigit, digitValue?, if_pos hbasic] at h
  by_contra hno
  rw [if_neg hno] at h
  cases h

variable [Host] in
/-- A format accepts its words, with a line break behind them or not, and nothing else. What is
accepted is a word of the format's grammar over basic digits as soon as it holds no line break and
its digits are basic. -/
theorem accepted_word (f : WordFormat) (s : String) :
    (check [] (.str s) (.str f.name) = .ok true ↔ s.toList ∈ f.accepted) ∧
    (check [] (.str s) (.str f.name) = .ok true →
      (∃ w ∈ f.words isDecimalDigit, '\n' ∉ w ∧ (s.toList = w ∨ s.toList = w ++ ['\n'])) ∧
      ('\n' ∉ s.toList → (∀ c ∈ s.toList, isDecimalDigit c = true → c.isDigit = true) →
        s.toList ∈ f.words Char.isDigit)) := by
  refine ⟨check_eq_true_iff f s, fun hcheck => ?_⟩
  obtain ⟨w, hkept, hs⟩ := mem_mul_option.mp ((check_eq_true_iff f s).mp hcheck).1
  have hw := words_of_kept hkept
  have hbreak : '\n' ∉ w := fun hmem => within_words f w hw '\n' hmem rfl
  refine ⟨⟨w, hw, hbreak, hs⟩, fun hnone hbasic => ?_⟩
  obtain hs | hs := hs
  · rw [hs] at hbasic ⊢
    exact narrows_words (fun c hc => hc) f w hw hbasic
  · exact absurd (by simp [hs]) hnone

open Sample in
/-- A clock with a fraction. -/
theorem clock_accepted :
    check [] (.str "12:30:59.5") (.str "time") = .ok true ∧
      "12:30:59.5".toList ∈ WordFormat.time.words Char.isDigit := by
  have hcheck : check [] (.str "12:30:59.5") (.str "time") = .ok true := by decide +kernel
  have hbasic : ∀ c ∈ "12:30:59.5".toList, c.toNat < 128 := by simp
  exact ⟨hcheck, ((accepted_word .time "12:30:59.5").2 hcheck).2 (by decide)
    fun c hc hdigit => isDigit_of_isDecimalDigit (hbasic c hc) hdigit⟩

open Sample in
/-- An address with a line break behind it and a clock with digits of another script are accepted,
and neither is a word. -/
theorem accepted_beyond_words :
    (check [] (.str "a@b.cc\n") (.str "email") = .ok true ∧
      "a@b.cc\n".toList ∉ WordFormat.email.words Char.isDigit) ∧
    (check [] (.str "12:30:٠١") (.str "time") = .ok true ∧
      "12:30:٠١".toList ∉ WordFormat.time.words Char.isDigit) := by
  have hbasic : ∀ c : Char, c.isDigit = true → c.toNat < 128 := fun c hc => by
    simp only [Char.isDigit, Bool.and_eq_true, decide_eq_true_eq] at hc
    exact Nat.lt_of_le_of_lt (UInt32.le_iff_toNat_le.mp hc.2) (by decide)
  have htime : Within (·.toNat < 128) (WordFormat.time.words Char.isDigit) :=
    within_time hbasic (by decide) (by decide)
  refine ⟨⟨by decide +kernel, fun h => ?_⟩, by decide +kernel, fun h => ?_⟩
  · exact within_words .email _ h '\n' (by decide) rfl
  · exact absurd (htime _ h '٠' (by decide)) (by decide)

end Format

end Conform
