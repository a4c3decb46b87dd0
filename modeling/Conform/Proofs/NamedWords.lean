import Conform.Format
import Conform.Proofs.Grammars

/-!
# Conform.Proofs.NamedWords

The grammars of mail addresses, host names and universally unique identifiers:

```
mail         local+ @ domain+ . letter letter+        no two periods side by side
host         label (. label)*                         1 to 63 characters a label
uuid         hex8 - hex4 - version hex3 - variant hex3 - hex12
```

Each test splits or cuts its text and looks at the pieces. That it accepts the words of the grammar
and nothing else is proved for each (`hasDoublePeriod_iff` and `isMailbox_iff`, `isLabels_iff`,
`isUuidBody_iff`). In a mail address the local part ends at the first sign for "at", the domain's
last label begins behind the last period.
-/

namespace Conform

namespace Format

open Grammar

variable {cs : List Char}

/-! ## Mail -/

/-- Texts in which no two periods stand side by side. -/
def singlePeriods : Language Char := {cs | ¬ ['.', '.'] <:+: cs}

/-- A domain whose last label is made of two letters or more. -/
def mailDomain : Language Char := rows isDomainChar 1 * (sign '.' * rows Char.isAlpha 2)

/-- A local part and a domain. -/
def mailbox : Language Char := rows isLocalChar 1 * (sign '@' * mailDomain)

/-- The words of mail addresses. -/
def mail : Language Char := mailbox ⊓ singlePeriods

theorem hasDoublePeriod_iff : hasDoublePeriod cs = true ↔ ['.', '.'] <:+: cs := by
  induction cs with
  | nil => simp [hasDoublePeriod]
  | cons c cs ih =>
    rw [List.infix_cons_iff, ← ih]
    by_cases h : ['.', '.'] <+: c :: cs
    · obtain ⟨rest, hrest⟩ := h
      obtain ⟨rfl, rfl⟩ := List.cons.inj hrest
      simp [hasDoublePeriod]
    · have hstep : hasDoublePeriod (c :: cs) = hasDoublePeriod cs := by
        rw [hasDoublePeriod]
        rintro rest rfl rfl
        exact h ⟨rest, rfl⟩
      rw [hstep, or_iff_right h]

/-- Letters are no periods. -/
theorem period_not_mem_of_isAlpha (h : ∀ c ∈ cs, c.isAlpha = true) : '.' ∉ cs :=
  fun hmem => absurd (h '.' hmem) (by decide)

/-- Behind the last period there are letters only, two at least; before it there is something. -/
theorem isMailDomain_append {a b : List Char} (hb : '.' ∉ b) :
    isMailDomain (a ++ '.' :: b) = true ↔ a ∈ rows isDomainChar 1 ∧ b ∈ rows Char.isAlpha 2 := by
  have hlast : (Text.split '.' (a ++ '.' :: b)).getLast?.getD [] = b := by
    rw [Text.split_append_cons, Text.split_of_not_mem hb]
    simp
  have halpha : ∀ c : Char, c.isAlpha = true → isDomainChar c = true := fun c hc => by
    simp [isDomainChar, Char.isAlphanum, hc]
  simp only [isMailDomain, hlast, Bool.and_eq_true, decide_eq_true_eq, List.all_eq_true,
    List.length_append, List.length_cons, List.mem_append, List.mem_cons, mem_rows]
  constructor
  · rintro ⟨⟨⟨hdomain, htwo⟩, hletters⟩, hlength⟩
    exact ⟨⟨by omega, fun c hc => hdomain c (.inl hc)⟩, htwo, hletters⟩
  · rintro ⟨⟨hone, hdomain⟩, htwo, hletters⟩
    refine ⟨⟨⟨?_, htwo⟩, hletters⟩, by omega⟩
    rintro c (hc | rfl | hc)
    · exact hdomain c hc
    · decide
    · exact halpha c (hletters c hc)

theorem isMailDomain_iff : isMailDomain cs = true ↔ cs ∈ mailDomain := by
  rw [mailDomain, mem_mul_sign_mul]
  obtain hnone | ⟨a, b, rfl, hb⟩ := Text.not_mem_or_exists_last '.' cs
  · have hlast : (Text.split '.' cs).getLast?.getD [] = cs := by
      rw [Text.split_of_not_mem hnone]
      rfl
    constructor
    · intro h
      simp only [isMailDomain, hlast, Bool.and_eq_true, decide_eq_true_eq] at h
      omega
    · rintro ⟨a, -, b, -, rfl⟩
      exact absurd (by simp) hnone
  · rw [isMailDomain_append hb]
    constructor
    · rintro ⟨ha, hletters⟩
      exact ⟨a, ha, b, hletters, rfl⟩
    · rintro ⟨a', ha', b', hb', heq⟩
      have hboth : isMailDomain (a' ++ '.' :: b') = true :=
        (isMailDomain_append (period_not_mem_of_isAlpha hb'.2)).mpr ⟨ha', hb'⟩
      rwa [← heq, isMailDomain_append hb] at hboth

theorem isMailbox_iff : isMailbox cs = true ↔ cs ∈ mailbox := by
  have hat : ∀ {a : List Char}, (∀ c ∈ a, isLocalChar c = true) → '@' ∉ a :=
    fun h hmem => absurd (h '@' hmem) (by decide)
  have htest : ∀ {a b : List Char}, '@' ∉ a → (isMailbox (a ++ '@' :: b) = true ↔
      a ∈ rows isLocalChar 1 ∧ b ∈ mailDomain) := fun {a b} ha => by
    simp only [isMailbox, Text.cut_append_cons ha, Bool.and_eq_true, List.all_eq_true,
      isMailDomain_iff, mem_rows, Bool.not_eq_true', List.isEmpty_eq_false_iff,
      Nat.one_le_iff_ne_zero, ne_eq, List.length_eq_zero_iff]
  rw [mailbox, mem_mul_sign_mul]
  by_cases h : '@' ∈ cs
  · obtain ⟨a, b, rfl, ha⟩ := List.eq_append_cons_of_mem h
    rw [htest ha]
    constructor
    · rintro ⟨hlocal, hdomain⟩
      exact ⟨a, hlocal, b, hdomain, rfl⟩
    · rintro ⟨a', ha', b', hb', heq⟩
      rw [← htest ha, heq]
      exact (htest (hat ha'.2)).mpr ⟨ha', hb'⟩
  · constructor
    · intro hbox
      rw [isMailbox, Text.cut_of_not_mem h] at hbox
      simp [isMailDomain] at hbox
    · rintro ⟨a, -, b, -, rfl⟩
      exact absurd (by simp) h

/-! ## Host names -/

/-- A label: 1 to 63 letters, digits and hyphens, with no hyphen at either end. -/
def label : Language Char :=
  {cs | 1 ≤ cs.length ∧ cs.length ≤ 63 ∧ (∀ c ∈ cs, c.isAlphanum = true ∨ c = '-') ∧
    cs.head? ≠ some '-' ∧ cs.getLast? ≠ some '-'}

/-- The words of host names. -/
def host : Language Char := separated '.' label

theorem isLabel_iff : isLabel cs = true ↔ cs ∈ label := by
  simp only [isLabel, Bool.and_eq_true, Bool.or_eq_true, Bool.not_eq_true',
    List.isEmpty_eq_false_iff, List.all_eq_true, decide_eq_true_eq, beq_iff_eq, bne_iff_ne]
  constructor
  · rintro ⟨⟨⟨⟨hne, hmost⟩, hall⟩, hhead⟩, hlast⟩
    exact ⟨List.length_pos_iff.mpr hne, hmost, hall, hhead, hlast⟩
  · rintro ⟨hleast, hmost, hall, hhead, hlast⟩
    exact ⟨⟨⟨⟨List.length_pos_iff.mp hleast, hmost⟩, hall⟩, hhead⟩, hlast⟩

theorem isLabels_iff : isLabels cs = true ↔ cs ∈ host := by
  have hfree : ∀ {piece : List Char}, piece ∈ label → '.' ∉ piece := by
    rintro piece ⟨-, -, hall, -⟩ hmem
    exact absurd (hall '.' hmem) (by decide)
  simp only [isLabels, List.all_eq_true, isLabel_iff]
  constructor
  · intro h
    obtain ⟨hne, -, hcs⟩ := Text.split_eq_iff.mp (rfl : Text.split '.' cs = _)
    exact ⟨Text.split '.' cs, hne, h, hcs⟩
  · rintro ⟨pieces, hne, hpieces, hcs⟩
    rwa [Text.split_eq_iff.mpr ⟨hne, fun piece hp => hfree (hpieces piece hp), hcs⟩]

/-! ## Universally unique identifiers -/

/-- So many digits in base sixteen. -/
def hex (n : Nat) : Language Char := row isHexDigit n

/-- The words of universally unique identifiers. -/
def uuid : Language Char :=
  hex 8 * (sign '-' * (hex 4 * (sign '-' * ((row isVersion 1 * hex 3) * (sign '-' *
    ((row isVariant 1 * hex 3) * (sign '-' * hex 12)))))))

theorem isHexRow_iff {n : Nat} : isHexRow n cs = true ↔ cs ∈ hex n := by
  simp only [isHexRow, Bool.and_eq_true, beq_iff_eq, List.all_eq_true]
  exact Iff.rfl

theorem hyphen_not_mem_hex {n : Nat} (h : cs ∈ hex n) : '-' ∉ cs :=
  fun hmem => absurd (h.2 '-' hmem) (by decide)

theorem isHexDigit_of_isVersion {c : Char} (h : isVersion c = true) : isHexDigit c = true := by
  simp only [isVersion, Bool.and_eq_true, decide_eq_true_eq] at h
  have hdigit : c.isDigit = true := by
    simp only [Char.isDigit, Bool.and_eq_true, decide_eq_true_eq]
    exact ⟨Nat.le_trans (by decide : '0'.val.toNat ≤ '1'.val.toNat) h.1,
      Nat.le_trans h.2 (by decide : '5'.val.toNat ≤ '9'.val.toNat)⟩
  rw [isHexDigit, hdigit]
  rfl

theorem isHexDigit_of_isVariant {c : Char} (h : isVariant c = true) : isHexDigit c = true := by
  simp only [isVariant, Bool.or_eq_true, beq_iff_eq] at h
  obtain ((((rfl | rfl) | rfl) | rfl) | rfl) | rfl := h <;> decide

/-- A group of four whose first digit is of a narrower kind. -/
theorem isHexRow_and_iff {p : Char → Bool} (hp : ∀ c, p c = true → isHexDigit c = true) :
    isHexRow 4 cs = true ∧ (cs.head?.map p).getD false = true ↔ cs ∈ row p 1 * hex 3 := by
  rw [isHexRow_iff, mem_row_one_mul]
  constructor
  · rintro ⟨⟨hlength, hhex⟩, hfirst⟩
    cases cs with
    | nil => exact absurd hlength (by simp)
    | cons c r =>
      refine ⟨c, r, by simpa using hfirst, ⟨by simpa using hlength, fun d hd => ?_⟩, rfl⟩
      exact hhex d (by simp [hd])
  · rintro ⟨c, r, hc, ⟨hlength, hhex⟩, rfl⟩
    refine ⟨⟨by simp [hlength], ?_⟩, by simpa using hc⟩
    rintro d (_ | ⟨_, hd⟩)
    · exact hp c hc
    · exact hhex d hd

theorem mem_uuid : cs ∈ uuid ↔ ∃ a ∈ hex 8, ∃ b ∈ hex 4, ∃ c ∈ row isVersion 1 * hex 3,
    ∃ d ∈ row isVariant 1 * hex 3, ∃ e ∈ hex 12,
    cs = List.intercalate ['-'] [a, b, c, d, e] := by
  simp only [uuid, mem_mul_sign_mul, List.intercalate_cons_cons, List.intercalate_singleton,
    List.append_assoc, List.singleton_append]
  constructor
  · rintro ⟨a, ha, _, ⟨b, hb, _, ⟨c, hc, _, ⟨d, hd, e, he, rfl⟩, rfl⟩, rfl⟩, rfl⟩
    exact ⟨a, ha, b, hb, c, hc, d, hd, e, he, rfl⟩
  · rintro ⟨a, ha, b, hb, c, hc, d, hd, e, he, rfl⟩
    exact ⟨a, ha, _, ⟨b, hb, _, ⟨c, hc, _, ⟨d, hd, e, he, rfl⟩, rfl⟩, rfl⟩, rfl⟩

theorem isUuidBody_iff : isUuidBody cs = true ↔ cs ∈ uuid := by
  rw [mem_uuid]
  constructor
  · intro h
    unfold isUuidBody at h
    split at h
    case h_1 a b c d e hpieces =>
      obtain ⟨-, -, hcs⟩ := Text.split_eq_iff.mp hpieces
      simp only [Bool.and_eq_true, isHexRow_iff] at h
      obtain ⟨⟨⟨⟨⟨⟨ha, hb⟩, hc⟩, hd⟩, he⟩, hc'⟩, hd'⟩ := h
      exact ⟨a, ha, b, hb,
        c, (isHexRow_and_iff @isHexDigit_of_isVersion).mp ⟨isHexRow_iff.mpr hc, hc'⟩,
        d, (isHexRow_and_iff @isHexDigit_of_isVariant).mp ⟨isHexRow_iff.mpr hd, hd'⟩, e, he, hcs⟩
    case h_2 => cases h
  · rintro ⟨a, ha, b, hb, c, hc, d, hd, e, he, hcs⟩
    obtain ⟨hc, hc'⟩ := (isHexRow_and_iff @isHexDigit_of_isVersion).mpr hc
    obtain ⟨hd, hd'⟩ := (isHexRow_and_iff @isHexDigit_of_isVariant).mpr hd
    have hpieces : Text.split '-' cs = [a, b, c, d, e] := by
      refine Text.split_eq_iff.mpr ⟨List.cons_ne_nil _ _, ?_, hcs⟩
      simp only [List.forall_mem_cons]
      exact ⟨hyphen_not_mem_hex ha, hyphen_not_mem_hex hb,
        hyphen_not_mem_hex (isHexRow_iff.mp hc), hyphen_not_mem_hex (isHexRow_iff.mp hd),
        hyphen_not_mem_hex he, by simp⟩
    rw [isUuidBody, hpieces]
    simp only [isHexRow_iff.mpr ha, isHexRow_iff.mpr hb, hc, hd, isHexRow_iff.mpr he, hc', hd',
      Bool.and_self]

end Format

end Conform
