import Conform.Proofs.Declarations

/-!
# Conform.Proofs.Decision

When an evaluation that may be stopped decides a property: whenever it has a verdict, the verdict
is whether the property holds (`Decides`). An evaluation may have its verdict before it has
asked everything, so a rule decides its clause although it does not always look at all of it; and
what is stopped decides everything.

The building blocks of rules are gone through first, each with the property that it decides, given
those of its parts. The rules that ask no further schema, those for strings and numbers, follow:
each by the keywords it is handed, and together by what a schema declares.
-/

namespace Conform

/-! ## Deciding -/

/-- A computation whose answer, if it gives one, is whether something holds. -/
def Decides (r : Except Fault Bool) (P : Prop) : Prop := ∀ b, r = .ok b → (b = true ↔ P)

namespace Decides

variable {α β : Type} {P Q : Prop}

theorem ok {b : Bool} (h : b = true ↔ P) : Decides (.ok b) P := by
  intro b' hb'
  cases hb'
  exact h

theorem error (f : Fault) (P : Prop) : Decides (.error f) P := nofun

/-- Every computation decides whether its answer is positive. -/
theorem self (r : Except Fault Bool) : Decides r (r = .ok true) := by
  intro b hb
  rw [hb]
  simp

theorem congr {r : Except Fault Bool} (h : Decides r P) (hiff : P ↔ Q) : Decides r Q :=
  fun b hb => (h b hb).trans hiff

theorem not {r : Except Fault Bool} (h : Decides r P) : Decides (r.map Bool.not) (¬ P) := by
  cases r with
  | error f => exact error f _
  | ok b =>
    have hb : b = true ↔ P := h b rfl
    rw [← hb]
    cases b
    · exact ok (by simp)
    · exact ok (by simp)

/-! ### Traces -/

theorem done : Decides (Trace.done : Trace α).verdict True := ok (by simp)

theorem find (x : α) : Decides (Trace.find x).verdict False := ok (by simp)

theorem stop (f : Fault) (P : Prop) : Decides (Trace.stop f : Trace α).verdict P := error f P

/-- The second reading is not asked where the first has a find. -/
theorem andThen {t u : Trace α} (ht : Decides t.verdict P) (hu : Decides u.verdict Q) :
    Decides (t.andThen fun _ => u).verdict (P ∧ Q) := by
  rw [Trace.verdict_andThen]
  cases hv : t.verdict with
  | error f => exact error f _
  | ok b =>
    have hb := ht b hv
    cases b
    · exact ok (by simp [← hb])
    · exact hu.congr (by simp [← hb])

theorem each {f : β → Trace α} {P : β → Prop} {xs : List β}
    (h : ∀ x ∈ xs, Decides (f x).verdict (P x)) :
    Decides (Trace.each f xs).verdict (∀ x ∈ xs, P x) := by
  induction xs with
  | nil => exact done.congr (by simp)
  | cons x xs ih =>
    have hx := h x List.mem_cons_self
    have hxs := ih fun y hy => h y (List.mem_cons_of_mem _ hy)
    exact (hx.andThen hxs).congr (by simp)

theorem nil : Decides (Trace.inTurn ([] : List (Unit → Trace α))).verdict True := done

theorem cons {t : Unit → Trace α} {ts : List (Unit → Trace α)} (ht : Decides (t ()).verdict P)
    (hts : Decides (Trace.inTurn ts).verdict Q) :
    Decides (Trace.inTurn (t :: ts)).verdict (P ∧ Q) :=
  ht.andThen hts

theorem after {r : Except Fault β} {k : β → Trace α}
    (h : ∀ x, r = .ok x → Decides (k x).verdict P) : Decides (Trace.after r k).verdict P := by
  cases r with
  | error f => exact stop f P
  | ok x => exact h x rfl

/-- A find behind what has to be written first. -/
theorem told {r : Except Fault β} (f : β → α) :
    Decides (Trace.after r fun words => Trace.find (f words)).verdict False :=
  after fun words _ => find (f words)

/-- A report where a test fails. -/
theorem reportUnless (ok : Bool) {t : Trace Violation} (ht : Decides t.verdict False) :
    Decides (Evaluation.reportUnless ok t).verdict (ok = true) := by
  cases ok
  · exact ht.congr (by simp)
  · exact done.congr (by simp)

/-- A report where what a computation answers is negative. -/
theorem report {r : Except Fault Bool} (h : Decides r P) {t : Trace Violation}
    (ht : Decides t.verdict False) :
    Decides (Trace.after r fun ok => Evaluation.reportUnless ok t).verdict P :=
  after fun b hb => (reportUnless b ht).congr (h b hb)

end Decides

namespace Evaluation

/-! ## Tests of several elements -/

variable {α : Type}

theorem decides_someHolds {test : α → Except Fault Bool} {P : α → Prop} {xs : List α}
    (h : ∀ x ∈ xs, Decides (test x) (P x)) : Decides (someHolds test xs) (∃ x ∈ xs, P x) := by
  induction xs with
  | nil => exact .ok (by simp)
  | cons x xs ih =>
    have hx := h x List.mem_cons_self
    have htail := ih fun y hy => h y (List.mem_cons_of_mem _ hy)
    rw [someHolds]
    cases hv : test x with
    | error f => exact .error f _
    | ok b =>
      have hb := hx b hv
      cases b
      · exact htail.congr (by simp [← hb])
      · exact .ok (by simp [← hb])

theorem countHolding_cons_eq_ok {test : α → Except Fault Bool} {x : α} {xs : List α} {n : Nat}
    (h : countHolding test (x :: xs) = .ok n) :
    ∃ b, test x = .ok b ∧ ∃ m, countHolding test xs = .ok m ∧ n = if b then m + 1 else m := by
  rw [countHolding] at h
  cases hv : test x with
  | error f =>
    rw [hv] at h
    cases h
  | ok b =>
    rw [hv] at h
    cases hm : countHolding test xs with
    | error f =>
      rw [hm] at h
      cases h
    | ok m =>
      rw [hm] at h
      cases h
      exact ⟨b, rfl, m, rfl, rfl⟩

/-- Counting tells whether there is no success, and whether there is exactly one. -/
theorem countHolding_spec {test : α → Except Fault Bool} {P : α → Prop} {xs : List α} {n : Nat}
    (h : ∀ x ∈ xs, Decides (test x) (P x)) (hn : countHolding test xs = .ok n) :
    (n = 0 ↔ ∀ x ∈ xs, ¬ P x) ∧ (n = 1 ↔ ExactlyOne P xs) := by
  induction xs generalizing n with
  | nil =>
    cases hn
    simp [ExactlyOne.not_nil]
  | cons x xs ih =>
    obtain ⟨b, hv, m, hm, rfl⟩ := countHolding_cons_eq_ok hn
    have hb := h x List.mem_cons_self b hv
    obtain ⟨hnone, hone⟩ := ih (fun y hy => h y (List.mem_cons_of_mem _ hy)) hm
    cases b
    · have hx : ¬ P x := by simp [← hb]
      exact ⟨by simp [hnone, hx], by simpa using hone.trans (ExactlyOne.cons_iff_of_not hx).symm⟩
    · have hx : P x := by simp [← hb]
      exact ⟨by simp [hx], by simpa using hnone.trans (ExactlyOne.cons_iff hx).symm⟩

/-! ## Limits -/

/-- A limit is not broken. Without a limit nothing is. -/
def Keeps (limit : Option Json) (breaks : Number → Bool) : Prop :=
  ∀ j m, limit = some j → j.numeric? = some m → breaks m = false

theorem keeps_some_iff {j : Json} {m : Number} (hm : j.numeric? = some m)
    (breaks : Number → Bool) : Keeps (some j) breaks ↔ breaks m = false := by
  constructor
  · intro h
    exact h j m rfl hm
  · intro h j' m' hj' hm'
    cases hj'
    rw [hm] at hm'
    cases hm'
    exact h

/-- No limit is found broken exactly where the limit is kept. -/
theorem keeps_iff_of_broken {limit : Option Json} {breaks : Number → Bool} {found : Option Json}
    (h : broken limit breaks = .ok found) : found = none ↔ Keeps limit breaks := by
  cases limit with
  | none =>
    cases h
    exact iff_of_true rfl nofun
  | some j =>
    rw [broken] at h
    cases hm : j.numeric? with
    | none =>
      rw [hm] at h
      cases h
    | some m =>
      rw [hm] at h
      cases h
      rw [keeps_some_iff hm]
      cases breaks m <;> simp

theorem decides_limitRule (limit : Option Json) (breaks : Number → Bool) (code : Code)
    (before behind : String) (value : Json) (path : String) :
    Decides (limitRule limit breaks code before behind value path).verdict
      (Keeps limit breaks) := by
  apply Decides.after
  intro found hfound
  have hkeeps := keeps_iff_of_broken hfound
  cases found with
  | none => exact Decides.done.congr (by simp [← hkeeps])
  | some j => exact (Decides.told _).congr (by simp [← hkeeps])

theorem keeps_keyword_iff (ms : Members) (keyword : String) (breaks : Number → Bool) :
    Keeps (Table.keyword ms keyword) breaks ↔ KeepsLimit ms keyword breaks := by
  simp only [Keeps, KeepsLimit, keyword_eq_some_iff]

/-! ## Strings -/

theorem declaresBase64_iff (k : StringKeywords) :
    declaresBase64 k = true ↔ k.contentEncoding = some (.str "base64") := by
  rw [declaresBase64, beq_iff_eq, base64Name]

theorem decides_contentEncodingRule (k : StringKeywords) (s path : String) :
    Decides (contentEncodingRule k s path).verdict
      (k.contentEncoding = some (.str "base64") → Base64.isEncoded s.toList = true) := by
  unfold contentEncodingRule
  rw [← declaresBase64_iff]
  cases declaresBase64 k
  · rw [if_neg Bool.false_ne_true]
    exact Decides.done.congr (by simp)
  · rw [if_pos rfl]
    exact (Decides.reportUnless _ (.find _)).congr (by simp)

section

variable [Host]

theorem decides_patternRule (k : StringKeywords) (s path : String) :
    Decides (patternRule k s path).verdict
      (∀ p, k.pattern = some p → p.isFalsy = false →
        ∃ text, p = .str text ∧ Pattern.occursIn text s = .ok true) := by
  unfold patternRule
  cases hp : k.pattern with
  | none => exact Decides.done.congr (by simp)
  | some p =>
    dsimp only
    split
    · next hempty => exact Decides.done.congr (by simp [hempty])
    · next hempty =>
      have hoccurs : patternOccurs p s = .ok true ↔
          ∃ text, p = .str text ∧ Pattern.occursIn text s = .ok true := by
        cases p with
        | str text => simp [patternOccurs]
        | _ => simp [patternOccurs]
      exact Decides.report (.congr (.self _) (by simp [hoccurs, hempty])) (.told _)

theorem decides_formatRule (formats : Formats) (k : StringKeywords) (s path : String) :
    Decides (formatRule formats k s path).verdict
      (∀ name, k.format = some name → name.isFalsy = false →
        Format.check formats (.str s) name = .ok true) := by
  unfold formatRule
  cases hname : k.format with
  | none => exact Decides.done.congr (by simp)
  | some name =>
    dsimp only
    split
    · next hempty => exact Decides.done.congr (by simp [hempty])
    · next hempty => exact Decides.report (.congr (.self _) (by simp [hempty])) (.told _)

theorem decides_readsDocument (cs : List Char) :
    Decides (readsDocument cs) (∃ j, Json.ofChars? cs = some j) := by
  unfold readsDocument
  split
  · exact .error _ _
  · exact .ok Option.isSome_iff_exists

theorem decides_isDocument_plain (s : String) :
    Decides (isDocument false s) (∃ j, Json.ofText? s = some j) :=
  decides_readsDocument s.toList

theorem decides_isDocument_encoded (s : String) :
    Decides (isDocument true s)
      (∃ cs j, Utf8.decode? (Base64.decode s.toList) = some cs ∧ Json.ofChars? cs = some j) := by
  rw [isDocument, if_pos rfl]
  cases Utf8.decode? (Base64.decode s.toList) with
  | none => exact .ok (by simp)
  | some cs => exact (decides_readsDocument cs).congr (by simp)

theorem decides_contentMediaTypeRule (k : StringKeywords) (s path : String) :
    Decides (contentMediaTypeRule k s path).verdict
      ((k.contentMediaType = some (.str "application/json") →
          k.contentEncoding ≠ some (.str "base64") → ∃ j, Json.ofText? s = some j) ∧
        (k.contentMediaType = some (.str "application/json") →
          k.contentEncoding = some (.str "base64") → Base64.isEncoded s.toList = true →
          ∃ cs j, Utf8.decode? (Base64.decode s.toList) = some cs ∧
            Json.ofChars? cs = some j)) := by
  have hjson : (k.contentMediaType == some (.str documentName)) = true ↔
      k.contentMediaType = some (.str "application/json") := by
    rw [beq_iff_eq, documentName]
  unfold contentMediaTypeRule
  rw [← hjson, Ne, ← declaresBase64_iff]
  cases k.contentMediaType == some (.str documentName)
  · rw [if_neg Bool.false_ne_true]
    exact Decides.done.congr (by simp)
  · rw [if_pos rfl]
    cases declaresBase64 k
    · rw [Bool.false_and, if_neg Bool.false_ne_true]
      exact (Decides.report (decides_isDocument_plain s) (.find _)).congr (by simp)
    · cases Base64.isEncoded s.toList
      · rw [Bool.not_false, Bool.and_true, if_pos rfl]
        exact Decides.done.congr (by simp)
      · rw [Bool.not_true, Bool.and_false, if_neg Bool.false_ne_true]
        exact (Decides.report (decides_isDocument_encoded s) (.find _)).congr (by simp)

/-- The rules for strings decide the clauses for strings of what they are read from. -/
theorem decides_stringRules (formats : Formats) (ms : Members) (s path : String) :
    Decides (stringRules formats (Node.stringOf ms) s path).verdict
      (StringClauses ms formats s) := by
  have h : Decides (stringRules formats (Node.stringOf ms) s path).verdict _ :=
    .cons (decides_limitRule _ _ _ _ _ _ _) (.cons (decides_limitRule _ _ _ _ _ _ _)
      (.cons (decides_patternRule _ s path) (.cons (decides_formatRule formats _ s path)
        (.cons (decides_contentEncodingRule _ s path)
          (.cons (decides_contentMediaTypeRule _ s path) .nil)))))
  simp only [Node.stringOf, keeps_keyword_iff, keyword_eq_some_iff, ne_eq] at h
  apply h.congr
  constructor
  · intro a
    obtain ⟨least, most, pattern, format, encoding, ⟨plain, encoded⟩, -⟩ := a
    exact ⟨least, most, pattern, format, encoding, plain, encoded⟩
  · intro a
    exact ⟨a.minLength, a.maxLength, a.pattern, a.format, a.encoding,
      ⟨a.plainContent, a.encodedContent⟩, trivial⟩

end

/-! ## Numbers -/

theorem decides_multipleOfRule (k : NumberKeywords) (n : Number) (path : String) :
    Decides (multipleOfRule k n path).verdict
      (∀ d, k.multipleOf = some d → ∃ m, d.numeric? = some m ∧ n.isMultiple m = .ok true) := by
  unfold multipleOfRule
  cases hd : k.multipleOf with
  | none => exact Decides.done.congr (by simp)
  | some d =>
    have hmultiple : isMultiple n d = .ok true ↔
        ∃ m, d.numeric? = some m ∧ n.isMultiple m = .ok true := by
      rw [isMultiple]
      cases d.numeric? with
      | none => simp
      | some m => cases hm : n.isMultiple m <;> simp [hm]
    exact Decides.report (.congr (.self _) (by simp [hmultiple])) (.told _)

/-- An exclusive limit is kept where either spelling of it is. -/
theorem keeps_exclusiveLimit_iff (plain exclusive : Option Json) (breaks : Number → Bool) :
    Keeps (NumberKeywords.exclusiveLimit (NumberKeywords.bound plain exclusive)) breaks ↔
      (∀ m, exclusive = some (.num m) → breaks m = false) ∧
        (exclusive = some (.bool true) → Keeps plain breaks) := by
  unfold NumberKeywords.bound
  split
  · next m =>
    have hkeeps : Keeps (some (.num m)) breaks ↔ breaks m = false := keeps_some_iff rfl breaks
    simp [NumberKeywords.exclusiveLimit, hkeeps]
  · next b =>
    cases b
    · simp [NumberKeywords.exclusiveLimit, Keeps]
    · simp [NumberKeywords.exclusiveLimit]
  · next hnum hbool =>
    have hnone : Keeps none breaks := nofun
    exact iff_of_true hnone ⟨fun m hm => (hnum m hm).elim, fun hmark => (hbool _ hmark).elim⟩

/-- The rules for numbers decide the clauses for numbers of what they are read from. -/
theorem decides_numberRules (ms : Members) (n : Number) (path : String) :
    Decides (numberRules (Node.numberOf ms) n path).verdict (NumberClauses ms n) := by
  have h : Decides (numberRules (Node.numberOf ms) n path).verdict _ :=
    .cons (decides_limitRule _ _ _ _ _ _ _) (.cons (decides_limitRule _ _ _ _ _ _ _)
      (.cons (decides_limitRule _ _ _ _ _ _ _) (.cons (decides_limitRule _ _ _ _ _ _ _)
        (.cons (decides_multipleOfRule _ n path) .nil))))
  simp only [NumberKeywords.exclusiveLower, NumberKeywords.lower, NumberKeywords.exclusiveUpper,
    NumberKeywords.upper, keeps_exclusiveLimit_iff, Node.numberOf, keeps_keyword_iff,
    keyword_eq_some_iff] at h
  apply h.congr
  constructor
  · intro a
    obtain ⟨least, most, ⟨above, aboveMarked⟩, ⟨below, belowMarked⟩, multiple, -⟩ := a
    exact ⟨least, most, above, below, aboveMarked, belowMarked, multiple⟩
  · intro a
    exact ⟨a.minimum, a.maximum, ⟨a.exclusiveMinimum, a.markedMinimum⟩,
      ⟨a.exclusiveMaximum, a.markedMaximum⟩, a.multipleOf, trivial⟩

end Evaluation

end Conform
