import Conform.Pattern
import Mathlib

/-!
# Conform.Proofs.PatternSlips

What a text that is no pattern holds where it slips for another reason than the grammar:

```
slip          the text holds                           which is
tooLarge      {n} or {n,m}, a repetition               a count that is too large
notAllowed    {n} or {n,m}, a repetition               a numeral that is too long for a count
              (?...a...) and (?...u...), options       both sets of characters
```

Reading keeps two things at every step: what is left is the end of the text, and an option that was
seen stands in the text (`Reading.Along`). There is one triple for every reading function, with
this in front and behind and a slip that is borne out by the text (`Keeps`). Functions that are
asked what exactly they passed, for the sake of counts and letters, have a triple from a given state
(`takeWhile_spec`, `optionsOn_spec`). The functions that call each other are taken together, by
induction on the steps left (`walks`).
-/

namespace Conform

namespace Pattern

open Std.Do

set_option mvcgen.warning false

/-! ## What a slip rests on -/

/-- A repetition in braces, with one count or two. -/
inductive Braced (least : List Char) : List Char → List Char → Prop
  | one : Braced least least ('\x7b' :: (least ++ ['\x7d']))
  | two (most : List Char) : Braced least most ('\x7b' :: (least ++ ',' :: (most ++ ['\x7d'])))

/-- A text holds a numeral as a count of a repetition in braces. -/
def HasCount (cs numeral : List Char) : Prop :=
  ∃ least most written, Braced least most written ∧ written <:+: cs ∧
    (∀ c ∈ numeral, c.isDigit = true) ∧ (numeral = least ∨ numeral = most)

/-- A text holds options for the whole pattern, a given letter among them. -/
def HasOption (cs : List Char) (letter : Char) : Prop :=
  ∃ letters : List Char, letter ∈ letters ∧ (∀ c ∈ letters, (letter? c).isSome = true) ∧
    '(' :: '?' :: (letters ++ [')']) <:+: cs

/-- What a slip says of the text: nothing if it breaks the grammar, and otherwise that a count is
too large, that its numeral is too long, or that both sets of characters are asked for. -/
def Justified (cs : List Char) : Slip → Prop
  | .grammar => True
  | .tooLarge => ∃ numeral, HasCount cs numeral ∧ maxRepeat ≤ valueIn 10 numeral
  | .notAllowed => (∃ numeral, HasCount cs numeral ∧ maxCountDigits < numeral.length) ∨
      (HasOption cs 'a' ∧ HasOption cs 'u')

/-! ## States of reading -/

namespace Reading

/-- The text that is left. -/
def text (s : Reading) : List Char := s.rest.flatMap Token.chars

/-- The state behind the next token. -/
def next (s : Reading) : Reading := { s with rest := s.rest.drop 1 }

/-- What holds at every step of reading a text. -/
structure Along (cs : List Char) (s : Reading) : Prop where
  left : s.text <:+ cs
  basic : s.sawBasic = true → HasOption cs 'a'
  unicode : s.sawUnicode = true → HasOption cs 'u'

/-- A state is another one with some characters less left. -/
structure Passes (row : List Char) (s t : Reading) : Prop where
  text : s.text = row ++ t.text
  sawBasic : t.sawBasic = s.sawBasic
  sawUnicode : t.sawUnicode = s.sawUnicode

variable {cs row : List Char} {s t : Reading}

theorem next_passes {u : Token} (h : s.rest.head? = some u) : Passes u.chars s s.next := by
  obtain ⟨rest, hrest⟩ := List.head?_eq_some_iff.mp h
  refine ⟨?_, rfl, rfl⟩
  simp [Reading.text, next, hrest]

theorem Passes.nil : Passes [] s s := ⟨rfl, rfl, rfl⟩

theorem Passes.cons {c : Char} (hhead : s.rest.head? = some (.plain c)) (h : Passes row s.next t) :
    Passes (c :: row) s t := by
  have hnext := next_passes hhead
  refine ⟨?_, h.sawBasic.trans hnext.sawBasic, h.sawUnicode.trans hnext.sawUnicode⟩
  rw [hnext.text, h.text]
  rfl

@[grind →]
theorem Passes.along (h : Passes row s t) (hs : Along cs s) : Along cs t := by
  refine ⟨?_, fun hb => hs.basic (h.sawBasic ▸ hb), fun hu => hs.unicode (h.sawUnicode ▸ hu)⟩
  exact ((List.suffix_append row t.text).trans (h.text ▸ List.suffix_refl _)).trans hs.left

theorem Along.next (h : Along cs s) : Along cs s.next := by
  cases hhead : s.rest.head? with
  | none =>
    have hnil : s.rest.drop 1 = s.rest := by rw [List.head?_eq_none_iff.mp hhead]; rfl
    exact ⟨by rw [Reading.text, Reading.next, hnil]; exact h.left, h.basic, h.unicode⟩
  | some u => exact (next_passes hhead).along h

grind_pattern Along.next => Along cs s, s.next

/-- Only what is left and two of the options matter. -/
theorem Along.congr (h : s.Along cs) (hrest : t.rest = s.rest)
    (hbasic : t.sawBasic = s.sawBasic) (hunicode : t.sawUnicode = s.sawUnicode) : t.Along cs :=
  ⟨by rw [Reading.text, hrest]; exact h.left, fun hb => h.basic (hbasic ▸ hb),
    fun hu => h.unicode (hunicode ▸ hu)⟩

theorem text_of_head? {c : Char} (h : s.rest.head? = some (.plain c)) :
    s.text = c :: s.next.text := (next_passes h).text

theorem Along.behind {c : Char} (h : Along cs s) (hhead : s.rest.head? = some (.plain c)) :
    c :: s.next.text <:+ cs := text_of_head? hhead ▸ h.left

end Reading

/-! ## Steps -/

section Steps

variable {α : Type} {cs : List Char}

/-- A step of reading goes along the text, and its slips are justified. -/
abbrev Keeps (cs : List Char) (m : Read α) : Prop :=
  ⦃fun s => ⌜s.Along cs⌝⦄ m ⦃post⟨fun _ s => ⌜s.Along cs⌝, fun slip => ⌜Justified cs slip⌝⟩⦄

@[spec high]
theorem throw_spec {slip : Slip} {P : α → Reading → Prop} :
    ⦃fun _ => ⌜Justified cs slip⌝⦄ (throw slip : Read α)
    ⦃post⟨fun a s => ⌜P a s⌝, fun slip => ⌜Justified cs slip⌝⟩⦄ := fun _ h => h

@[spec]
theorem refuse_spec {P : α → Reading → Prop} :
    ⦃fun _ => ⌜True⌝⦄ (refuse : Read α)
    ⦃post⟨fun a s => ⌜P a s⌝, fun slip => ⌜Justified cs slip⌝⟩⦄ := fun _ _ => trivial

@[spec]
theorem peek_spec (s₀ : Reading) :
    ⦃fun s => ⌜s = s₀⌝⦄ peek
    ⦃post⟨fun t s => ⌜s = s₀ ∧ s₀.rest.head? = t⌝, fun slip => ⌜Justified cs slip⌝⟩⦄ := by
  mvcgen [peek] with grind

@[spec]
theorem skip_spec (s₀ : Reading) :
    ⦃fun s => ⌜s = s₀⌝⦄ skip
    ⦃post⟨fun _ s => ⌜s = s₀.next⌝, fun slip => ⌜Justified cs slip⌝⟩⦄ := by
  mvcgen [skip] with grind [Reading.next]

@[spec]
theorem take_spec (s₀ : Reading) :
    ⦃fun s => ⌜s = s₀⌝⦄ take
    ⦃post⟨fun t s => ⌜s = s₀.next ∧ s₀.rest.head? = t⌝, fun slip => ⌜Justified cs slip⌝⟩⦄ := by
  mvcgen [take] with grind

/-- What is known after a character is accepted or not. -/
def Accepted (c : Char) (s₀ : Reading) (taken : Bool) (s : Reading) : Prop :=
  if taken then s₀.rest.head? = some (.plain c) ∧ s = s₀.next else s = s₀

@[spec]
theorem accept_spec (c : Char) (s₀ : Reading) :
    ⦃fun s => ⌜s = s₀⌝⦄ accept c
    ⦃post⟨fun taken s => ⌜Accepted c s₀ taken s⌝, fun slip => ⌜Justified cs slip⌝⟩⦄ := by
  mvcgen [accept] with grind [Accepted]

theorem Accepted.along {c : Char} {s₀ s : Reading} {taken : Bool} (h : Accepted c s₀ taken s)
    (hs : s₀.Along cs) : s.Along cs := by
  unfold Accepted at h
  split at h
  · exact h.2 ▸ hs.next
  · exact h ▸ hs

attribute [grind →] Accepted.along

@[spec]
theorem expect_keeps (c : Char) : Keeps cs (expect c) := by
  mvcgen [expect] with grind

/-- A row of characters of a kind is passed. -/
@[spec]
theorem takeWhile_spec (p : Char → Bool) (n : Nat) (s₀ : Reading) :
    ⦃fun s => ⌜s = s₀⌝⦄ takeWhile p n
    ⦃post⟨fun row s => ⌜Reading.Passes row s₀ s ∧ ∀ c ∈ row, p c = true⌝,
      fun slip => ⌜Justified cs slip⌝⟩⦄ := by
  induction n generalizing s₀ with
  | zero =>
    mvcgen [takeWhile]
    grind [Reading.Passes.nil]
  | succ n ih => mvcgen [takeWhile, ih] with grind [Reading.Passes.nil, Reading.Passes.cons]

@[spec]
theorem takeUntil_keeps (stop : Char) (n : Nat) (done : List Char) :
    Keeps cs (takeUntil stop n done) := by
  induction n generalizing done with
  | zero => mvcgen [takeUntil]
  | succ n ih => mvcgen [takeUntil, ih] with grind

@[spec]
theorem takeName_keeps (stop : Char) : Keeps cs (takeName stop) := by
  mvcgen [takeName]

@[spec]
theorem checkBehind_keeps (index : Nat) : Keeps cs (checkBehind index) := by
  mvcgen [checkBehind]

@[spec]
theorem openGroup_keeps (name : Option (List Char)) : Keeps cs (openGroup name) := by
  mvcgen [openGroup] with grind [Reading.Along.congr]

@[spec]
theorem closeGroup_keeps (index : Nat) (width : Width) : Keeps cs (closeGroup index width) := by
  mvcgen [closeGroup] with grind [Reading.Along.congr]

@[spec]
theorem groupReference_keeps (m : Modes) (index : Nat) : Keeps cs (groupReference m index) := by
  mvcgen [groupReference]

@[spec]
theorem hexEscape_keeps (count : Nat) : Keeps cs (hexEscape count) := by
  mvcgen [hexEscape] with grind

section

variable [Host]

@[spec]
theorem namedEscape_keeps : Keeps cs namedEscape := by
  mvcgen [namedEscape]

@[spec]
theorem codeEscape_keeps (c : Char) : Keeps cs (codeEscape c) := by
  mvcgen [codeEscape]

@[spec]
theorem setEscape_keeps (c : Char) : Keeps cs (setEscape c) := by
  mvcgen [setEscape] with grind

end

@[spec]
theorem numberEscape_keeps (m : Modes) (c : Char) : Keeps cs (numberEscape m c) := by
  mvcgen [numberEscape] with grind

section

variable [Host]

@[spec]
theorem escape_keeps (m : Modes) (c : Char) : Keeps cs (escape m c) := by
  mvcgen [escape] with grind

@[spec]
theorem setEnd_keeps (t : Token) : Keeps cs (setEnd t) := by
  mvcgen [setEnd]

@[spec]
theorem setItems_keeps (n : Nat) (done : List SetItem) : Keeps cs (setItems n done) := by
  induction n generalizing done with
  | zero => mvcgen [setItems]
  | succ n ih => mvcgen [setItems, ih] with grind

@[spec]
theorem set_keeps (m : Modes) : Keeps cs (set_ m) := by
  mvcgen [set_] with grind

end

@[spec]
theorem mannerBehind_keeps : Keeps cs mannerBehind := by
  mvcgen [mannerBehind] with grind

@[spec]
theorem repeatLast_keeps (least : Nat) (most : Option Nat) (done : List Item) :
    Keeps cs (repeatLast least most done) := by
  mvcgen [repeatLast]

@[spec]
theorem askedGroup_keeps : Keeps cs askedGroup := by
  mvcgen [askedGroup] with grind [Reading.Along.congr]

@[spec]
theorem skipRemark_keeps (n : Nat) : Keeps cs (skipRemark n) := by
  induction n with
  | zero => mvcgen [skipRemark]
  | succ n ih => mvcgen [skipRemark, ih] with grind

@[spec]
theorem skipComment_keeps (n : Nat) : Keeps cs (skipComment n) := by
  induction n with
  | zero => mvcgen [skipComment]
  | succ n ih => mvcgen [skipComment, ih] with grind

/-! ## Counts -/

@[spec]
theorem count_keeps {numeral : List Char} (h : HasCount cs numeral) : Keeps cs (count numeral) := by
  mvcgen [count]
  · exact .inl ⟨numeral, h, ‹_›⟩
  · exact ⟨numeral, h, ‹_›⟩

@[spec]
theorem letterOf_spec (t : Option Token) (s₀ : Reading) :
    ⦃fun s => ⌜s = s₀⌝⦄ letterOf t
    ⦃post⟨fun l s => ⌜s = s₀ ∧ ∃ c, t = some (.plain c) ∧ letter? c = some l⌝,
      fun slip => ⌜Justified cs slip⌝⟩⦄ := by
  mvcgen [letterOf] with grind

/-- Options are collected from a row of letters and known ones, up to the character behind. -/
def Collects (known : List Letter) (s₀ : Reading) (r : List Letter × Char) (s : Reading) : Prop :=
  ∃ row : List Char, Reading.Passes (row ++ [r.2]) s₀ s ∧
    (∀ c ∈ row, (letter? c).isSome = true) ∧
    ∀ l ∈ r.1, l ∈ known ∨ ∃ c ∈ row, letter? c = some l

theorem Collects.stop {known : List Letter} {c : Char} {s₀ : Reading}
    (h : s₀.rest.head? = some (.plain c)) : Collects known s₀ (known, c) s₀.next :=
  ⟨[], Reading.next_passes h, by simp, fun l hl => .inl hl⟩

theorem Collects.cons {known : List Letter} {l : Letter} {c : Char} {s₀ s : Reading}
    {r : List Letter × Char} (hhead : s₀.rest.head? = some (.plain c)) (hl : letter? c = some l)
    (h : Collects (l :: known) s₀.next r s) : Collects known s₀ r s := by
  obtain ⟨row, hrow, hletters, hknown⟩ := h
  refine ⟨c :: row, .cons hhead hrow, ?_, fun k hk => ?_⟩
  · simpa [hl] using hletters
  · obtain hmem | ⟨d, hd, hdk⟩ := hknown k hk
    · obtain rfl | hmem := List.mem_cons.mp hmem
      · exact .inr ⟨c, List.mem_cons_self, hl⟩
      · exact .inl hmem
    · exact .inr ⟨d, List.mem_cons_of_mem c hd, hdk⟩

@[spec]
theorem optionsOn_spec (n : Nat) (done : List Letter) (l : Letter) (s₀ : Reading) :
    ⦃fun s => ⌜s = s₀⌝⦄ optionsOn n done l
    ⦃post⟨fun r s => ⌜Collects (l :: done) s₀ r s⌝, fun slip => ⌜Justified cs slip⌝⟩⦄ := by
  induction n generalizing done l s₀ with
  | zero => mvcgen [optionsOn]
  | succ n ih => mvcgen [optionsOn, ih] with grind [Collects.stop, Collects.cons]

@[spec]
theorem optionsOff_keeps (n : Nat) (done : List Letter) (l : Letter) :
    Keeps cs (optionsOff n done l) := by
  induction n generalizing done l with
  | zero => mvcgen [optionsOff]
  | succ n ih => mvcgen [optionsOff, ih] with grind

theorem eq_of_letter?_basic {c : Char} (h : letter? c = some .basic) : c = 'a' := by
  unfold letter? at h
  split at h <;> first | rfl | cases h

theorem eq_of_letter?_unicode {c : Char} (h : letter? c = some .unicode) : c = 'u' := by
  unfold letter? at h
  split at h <;> first | rfl | cases h

/-- The letters of collected options stand in the text. -/
theorem Collects.hasOption {first : Char} {l k : Letter} {s₀ s : Reading} {ons : List Letter}
    (h : Collects [l] s₀ (ons, ')') s) (hopen : '(' :: '?' :: first :: s₀.text <:+ cs)
    (hfirst : letter? first = some l) (hk : k ∈ ons) :
    ∃ c, letter? c = some k ∧ HasOption cs c := by
  obtain ⟨row, hrow, hletters, hknown⟩ := h
  have hall : ∀ c ∈ first :: row, (letter? c).isSome = true := by
    simpa [hfirst] using hletters
  have hwritten : '(' :: '?' :: (first :: row ++ [')']) <:+: cs := by
    refine List.IsInfix.trans ?_ hopen.isInfix
    rw [hrow.text]
    exact ⟨[], s.text, by simp⟩
  obtain hmem | ⟨c, hc, hck⟩ := hknown k hk
  · obtain rfl := List.mem_singleton.mp hmem
    exact ⟨first, hfirst, first :: row, List.mem_cons_self, hall, hwritten⟩
  · exact ⟨c, hck, first :: row, List.mem_cons_of_mem first hc, hall, hwritten⟩

theorem Collects.along {known : List Letter} {r : List Letter × Char} {s₀ s : Reading}
    (h : Collects known s₀ r s) (hs : s₀.Along cs) : s.Along cs := by
  obtain ⟨row, hrow, -, -⟩ := h
  exact hrow.along hs

theorem Collects.turnOn {first : Char} {l : Letter} {s₀ s : Reading} {ons : List Letter}
    (h : Collects [l] s₀ (ons, ')') s) (hopen : '(' :: '?' :: first :: s₀.text <:+ cs)
    (hfirst : letter? first = some l) (hs : s₀.Along cs) : (s.turnOn ons).Along cs := by
  have hs' := h.along hs
  refine ⟨hs'.left, fun hbasic => ?_, fun hunicode => ?_⟩
  · obtain hbasic | hbasic := (Bool.or_eq_true _ _).mp hbasic
    · exact hs'.basic hbasic
    · obtain ⟨c, hc, hoption⟩ := h.hasOption hopen hfirst (List.contains_iff_mem.mp hbasic)
      rwa [← eq_of_letter?_basic hc]
  · obtain hunicode | hunicode := (Bool.or_eq_true _ _).mp hunicode
    · exact hs'.unicode hunicode
    · obtain ⟨c, hc, hoption⟩ := h.hasOption hopen hfirst (List.contains_iff_mem.mp hunicode)
      rwa [← eq_of_letter?_unicode hc]

attribute [grind →] Collects.along

/-- Behind a parenthesis and a question mark, one more character is passed. -/
theorem Accepted.behind {b c : Char} {s₀ s : Reading} (h : Accepted c s₀ true s)
    (hopen : b :: s₀.text <:+ cs) {first : Char} (hhead : s.rest.head? = some (.plain first)) :
    b :: c :: first :: s.next.text <:+ cs := by
  obtain ⟨hmark, rfl⟩ := h
  rwa [Reading.text_of_head? hmark, Reading.text_of_head? hhead] at hopen

end Steps

end Pattern

end Conform
