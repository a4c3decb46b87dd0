import Conform.Proofs.Location
import Conform.Proofs.Segments
import Mathlib

/-!
# Conform.Proofs.Addresses

References as addresses. Steps into a document are written as a reference, and resolving it leads
to the value at those steps:

```
[items, 1, a/b]          #/items/1/a~1b
[definitions, word]      #/definitions/word
[]                       #/
```

A segment `definitions` or `$defs` leads to the table of the document from wherever it stands. So
steps have an address of their own only if these names come first or not at all (`Addressable`).

The other main statement is about all references, whoever wrote them: what is found is a value of
the document, and what is not found is reported as a missing segment. Two kinds of reference stand
apart. A document without a table of definitions has an empty one for references that end there, and
an array cannot be asked for a position that is written in digits but is no numeral (`Unreadable`).
-/

namespace Conform

/-! ## Values of a document -/

namespace Json

theorem at?_append (v : Json) (steps more : List Path.Step) :
    v.at? (steps ++ more) = (v.at? steps).bind fun w => w.at? more := by
  induction steps generalizing v with
  | nil => simp
  | cons s steps ih =>
    cases v with
    | obj ms =>
      cases s with
      | name m => simp [at?, ih, Option.bind_assoc]
      | index i => simp [at?]
    | arr xs =>
      cases s with
      | name m => simp [at?]
      | index i => simp [at?, ih, Option.bind_assoc]
    | _ => simp [at?]

/-- Steps into a document lead to a value. Without steps that is the document itself. -/
def Holds (root j : Json) : Prop := ∃ steps, root.at? steps = some j

theorem Holds.self (root : Json) : root.Holds root := ⟨[], at?_nil root⟩

theorem Holds.of_stepsTo {root j k : Json} {s : Path.Step} (h : root.Holds j)
    (hs : j.StepsTo s k) : root.Holds k := by
  obtain ⟨steps, hsteps⟩ := h
  refine ⟨steps ++ [s], ?_⟩
  rw [at?_append, hsteps, Option.bind_some, hs.at?_cons, at?_nil]

/-- A step that leads somewhere, and the steps behind it. -/
theorem exists_of_at?_cons {v w : Json} {s : Path.Step} {steps : List Path.Step}
    (h : v.at? (s :: steps) = some w) : ∃ u, v.StepsTo s u ∧ u.at? steps = some w := by
  cases v with
  | obj ms =>
    cases s with
    | name m =>
      rw [at?, Option.bind_eq_some_iff] at h
      obtain ⟨u, hu, h⟩ := h
      exact ⟨u, .name hu, h⟩
    | index i => simp [at?] at h
  | arr xs =>
    cases s with
    | name m => simp [at?] at h
    | index i =>
      rw [at?, Option.bind_eq_some_iff] at h
      obtain ⟨u, hu, h⟩ := h
      exact ⟨u, .index hu, h⟩
  | _ => simp [at?] at h

end Json

namespace Pointer

/-! ## One segment after another -/

/-- The names of the table of definitions. -/
def tableNames : List String := ["definitions", "$defs"]

theorem otherTable?_eq_none_iff {name : String} : otherTable? name = none ↔ name ∉ tableNames := by
  by_cases h : name = "definitions"
  · simp [otherTable?, tableNames, h]
  · by_cases h' : name = "$defs"
    · simp [otherTable?, tableNames, h']
    · simp [otherTable?, tableNames, h, h']

/-- The two names are each other's. -/
theorem eq_or_eq_of_otherTable? {name other m : String} (h : otherTable? name = some other)
    (hm : m ∈ tableNames) : m = name ∨ m = other := by
  have hnames : m = "definitions" ∨ m = "$defs" := by simpa [tableNames] using hm
  unfold otherTable? at h
  split at h
  · next hname =>
    cases h
    exact hname ▸ hnames
  · split at h
    · next hname =>
      cases h
      exact hname ▸ hnames.symm
    · cases h

/-- What one segment leads to. -/
def advance (ref : String) (root current : Json) (raw : List Char) : Except Fault Json :=
  if raw.isEmpty then .ok current
  else
    match otherTable? (String.ofList raw) with
    | some other => definitions root (String.ofList raw) other
    | none => step ref current (unescape raw)

variable {ref : String} {root current : Json}

theorem follow_cons (raw : List Char) (rest : List (List Char)) :
    follow ref root current (raw :: rest) =
      advance ref root current raw >>= fun next => follow ref root next rest := by
  rw [follow, advance]
  split
  · rfl
  · split
    · split <;> simp_all [bind, Except.bind]
    · split <;> simp_all [bind, Except.bind]

theorem follow_append (segments rest : List (List Char)) :
    follow ref root current (segments ++ rest) =
      follow ref root current segments >>= fun next => follow ref root next rest := by
  induction segments generalizing current with
  | nil => rfl
  | cons raw segments ih =>
    rw [List.cons_append, follow_cons, follow_cons]
    cases advance ref root current raw with
    | error f => rfl
    | ok next => exact ih

/-! ## Written references -/

/-- A step that is written as a segment of no other meaning. -/
def Ordinary : Path.Step → Prop
  | .name m => m ≠ "" ∧ m ∉ tableNames
  | .index i => (Nat.toDigits 10 i).length ≤ maxNumeral

/-- Steps that can be written as a reference: no name on the way is empty, and a name of the table
of definitions comes first and is declared there. A position has no more digits than numerals may
have, which are thousands, and no array that a machine can hold has such positions. -/
structure Addressable (root : Json) (steps : List Path.Step) : Prop where
  named : .name "" ∉ steps
  inside : ∀ m ∈ tableNames, .name m ∉ steps.tail
  declared : ∀ m ∈ tableNames, steps.head? = some (.name m) → root.get? m ≠ some .null
  positioned : ∀ i, .index i ∈ steps → (Nat.toDigits 10 i).length ≤ maxNumeral

theorem Addressable.ordinary {steps : List Path.Step} (h : Addressable root steps)
    {s : Path.Step} (hs : s ∈ steps) (htable : ∀ m ∈ tableNames, s ≠ .name m) : Ordinary s := by
  cases s with
  | name m =>
    refine ⟨?_, fun hm => htable m hm rfl⟩
    rintro rfl
    exact h.named hs
  | index i => exact h.positioned i hs

/-- The names of the table of definitions need no marks. -/
theorem escape_tableName : ∀ name ∈ tableNames, escape name.toList = name.toList := by decide

/-- No other name is written like one of the table of definitions. -/
theorem ofList_escape_not_mem {name : String} (h : name ∉ tableNames) :
    String.ofList (escape name.toList) ∉ tableNames := by
  intro hmem
  have hescape : escape name.toList = escape (String.ofList (escape name.toList)).toList := by
    rw [escape_tableName _ hmem, String.toList_ofList]
  rw [← String.toList_injective (escape_injective hescape)] at hmem
  exact h hmem

theorem ofList_toDigits_not_mem (i : Nat) : String.ofList (Nat.toDigits 10 i) ∉ tableNames := by
  have hletter : ∀ table ∈ tableNames, table.toList.any (fun c => !c.isDigit) = true := by decide
  intro hmem
  obtain ⟨c, hc, hnot⟩ := List.any_eq_true.mp (hletter _ hmem)
  rw [String.toList_ofList] at hc
  have hdigit : c.isDigit := Nat.isDigit_of_mem_toDigits (by omega) (by omega) hc
  simp [hdigit] at hnot

/-- An ordinary segment leads where its step leads. -/
theorem advance_segment {s : Path.Step} {v w : Json} (hs : Ordinary s) (h : v.StepsTo s w) :
    advance ref root v (segment s) = .ok w := by
  have hempty : (segment s).isEmpty = false := by
    refine isEmpty_segment ?_
    rintro rfl
    exact hs.1 rfl
  have htable : otherTable? (String.ofList (segment s)) = none := by
    rw [otherTable?_eq_none_iff]
    cases s with
    | name m => exact ofList_escape_not_mem hs.2
    | index i => exact ofList_toDigits_not_mem i
  rw [advance, hempty, if_neg Bool.false_ne_true, htable, unescape_segment]
  cases h with
  | name hlookup => simp [step, text, hlookup]
  | index hitem =>
    have hposition := position?_toDigits hs
    simp [step, text, hposition, hitem]

/-- A name of the table of definitions leads to the table that the document declares under it. -/
theorem advance_table {ms : Members} {m : String} {table : Json} (hm : m ∈ tableNames)
    (htable : ms.lookup m = some table) (hnull : table ≠ .null) :
    advance ref (.obj ms) current (segment (.name m)) = .ok table := by
  have hempty : (segment (.name m)).isEmpty = false := by
    refine isEmpty_segment ?_
    rintro ⟨⟩
    exact absurd hm (by decide)
  have hname : String.ofList (segment (.name m)) = m := by
    rw [segment, escape_tableName m hm, String.ofList_toList]
  obtain ⟨other, hother⟩ : ∃ other, otherTable? m = some other :=
    Option.ne_none_iff_exists'.mp fun hnone => otherTable?_eq_none_iff.mp hnone hm
  rw [advance, hempty, if_neg Bool.false_ne_true, hname, hother]
  simp only [definitions, htable, Option.getD_some]

theorem follow_segments {steps : List Path.Step} {v w : Json} (hsteps : ∀ s ∈ steps, Ordinary s)
    (h : v.at? steps = some w) : follow ref root v (steps.map segment) = .ok w := by
  induction steps generalizing v with
  | nil =>
    rw [Json.at?_nil] at h
    cases h
    rfl
  | cons s steps ih =>
    rw [List.forall_mem_cons] at hsteps
    obtain ⟨u, hu, h⟩ := Json.exists_of_at?_cons h
    rw [List.map_cons, follow_cons, advance_segment hsteps.1 hu]
    exact ih hsteps.2 h

/-- Steps into a document are written as a reference that leads to the value at those steps, and to
no other: every name is read as it was, whatever marks, escapes or digits it is made of, and names
and positions are told apart by the value they are looked up in. -/
theorem resolve_written {ms : Members} {steps : List Path.Step} {v : Json}
    (hsteps : Addressable (.obj ms) steps) (hv : (Json.obj ms).at? steps = some v) :
    resolve (.str (written steps)) (.obj ms) = .ok v := by
  cases steps with
  | nil =>
    rw [Json.at?_nil] at hv
    cases hv
    rfl
  | cons s rest =>
    obtain ⟨cs, hcs, hsplit⟩ := split_written (List.cons_ne_nil s rest)
    -- the first slash stands behind an empty segment
    have hfollow : resolve (.str (written (s :: rest))) (.obj ms) =
        follow (written (s :: rest)) (.obj ms) (.obj ms) ((s :: rest).map segment) := by
      simp only [resolve, hcs, hsplit]
      rfl
    have hrest : ∀ t ∈ rest, Ordinary t := by
      intro t ht
      refine hsteps.ordinary (List.mem_cons_of_mem _ ht) fun m hm => ?_
      rintro rfl
      exact hsteps.inside m hm ht
    rw [hfollow]
    by_cases htable : ∃ m ∈ tableNames, s = .name m
    · obtain ⟨m, hm, rfl⟩ := htable
      obtain ⟨table, ⟨hlookup⟩, hrestv⟩ := Json.exists_of_at?_cons hv
      have hnull : table ≠ .null := by
        rintro rfl
        exact hsteps.declared m hm rfl hlookup
      rw [List.map_cons, follow_cons, advance_table hm hlookup hnull]
      exact follow_segments hrest hrestv
    · have hs : Ordinary s := hsteps.ordinary List.mem_cons_self fun m hm hsm =>
        htable ⟨m, hm, hsm⟩
      exact follow_segments (List.forall_mem_cons.mpr ⟨hs, hrest⟩) hv

/-- A name with all three marks in it, and a position behind it. -/
theorem marked_names_resolve :
    Addressable (.obj [("$defs", .obj [("a/~1%2F", .arr [.bool true, .bool false])])])
      [.name "$defs", .name "a/~1%2F", .index 1] ∧
    written [.name "$defs", .name "a/~1%2F", .index 1] = "#/$defs/a~1~01%252F/1" ∧
    resolve (.str (written [.name "$defs", .name "a/~1%2F", .index 1]))
      (.obj [("$defs", .obj [("a/~1%2F", .arr [.bool true, .bool false])])]) =
        .ok (.bool false) := by
  have hsteps : Addressable (.obj [("$defs", .obj [("a/~1%2F", .arr [.bool true, .bool false])])])
      [.name "$defs", .name "a/~1%2F", .index 1] := by
    refine ⟨by decide, by decide, fun m _ hm => ?_, fun i hi => ?_⟩
    · cases hm
      decide
    · obtain rfl : i = 1 := by simpa using hi
      decide
  exact ⟨hsteps, by decide, resolve_written hsteps (by decide)⟩

/-! ## All references -/

/-- Neither name of the table of definitions is declared in a document. -/
def Tableless (root : Json) : Prop := ∀ name ∈ tableNames, (root.get? name).getD .null = .null

/-- The last segment, not counting empty ones, is a name of the table of definitions. -/
def EndsAtTable (segments : List (List Char)) : Prop :=
  ∃ raw, (segments.filter fun raw => !raw.isEmpty).getLast? = some raw ∧
    String.ofList raw ∈ tableNames

/-- Digits that no position is read from: some of them belong to no positional system, or they are
more than numerals may have. -/
def Unreadable (digits : List Char) : Prop :=
  digits ≠ [] ∧ digits.all isAnyDigit = true ∧
    (digits.all isDecimalDigit = true → maxNumeral < digits.length)

theorem unreadable_of_position? {digits : List Char} {f : Fault} (h : position? digits = .error f) :
    Unreadable digits ∧ f = .notAllowed := by
  unfold position? at h
  split at h
  · cases h
  · next hdigits =>
    split at h
    · cases h
    · next hread =>
      cases h
      simp only [Bool.or_eq_true, Bool.not_eq_true', not_or, Bool.not_eq_false,
        List.isEmpty_iff] at hdigits
      simp only [Bool.and_eq_true, decide_eq_true_eq, not_and, Nat.not_le] at hread
      exact ⟨⟨hdigits.1, hdigits.2, hread⟩, rfl⟩

theorem position?_of_unreadable {digits : List Char} (h : Unreadable digits) :
    position? digits = .error .notAllowed := by
  obtain ⟨hne, hdigits, hread⟩ := h
  have hread' : (digits.all isDecimalDigit && decide (digits.length ≤ maxNumeral)) = false := by
    cases hdecimal : digits.all isDecimalDigit with
    | false => rfl
    | true => simpa using hread hdecimal
  rw [position?, if_neg (by simp [hne, hdigits]), if_neg (by simp [hread'])]

/-- What one ordinary step of following can come to. -/
theorem step_cases (ref : String) (current : Json) (segment : List Char) :
    (∃ s next, current.StepsTo s next ∧ step ref current segment = .ok next) ∨
      step ref current segment = .error (.danglingReference ref (String.ofList segment)) ∨
      ∃ xs, current = .arr xs ∧ Unreadable segment ∧
        step ref current segment = .error .notAllowed := by
  cases current with
  | obj ms =>
    cases hm : ms.lookup (String.ofList segment) with
    | none => exact .inr (.inl (by simp only [step, hm]))
    | some j => exact .inl ⟨_, j, .name hm, by simp only [step, hm]⟩
  | arr xs =>
    cases hposition : position? segment with
    | error f =>
      obtain ⟨hdigits, rfl⟩ := unreadable_of_position? hposition
      exact .inr (.inr ⟨xs, rfl, hdigits, by simp only [step, hposition]⟩)
    | ok found =>
      cases found with
      | none => exact .inr (.inl (by simp only [step, hposition]))
      | some i =>
        cases hi : xs[i]? with
        | none => exact .inr (.inl (by simp only [step, hposition, hi]))
        | some j => exact .inl ⟨_, j, .index hi, by simp only [step, hposition, hi]⟩
  | _ => exact .inr (.inl rfl)

/-- The table of definitions is a value of the document, or the empty one that stands for none. -/
theorem definitions_cases (ms : Members) {name other : String} (h : otherTable? name = some other) :
    ∃ table, definitions (.obj ms) name other = .ok table ∧
      ((Json.obj ms).Holds table ∨ Tableless (.obj ms) ∧ table = .obj []) := by
  have hfound : ∀ {k : String}, (ms.lookup k).getD .null ≠ .null →
      (Json.obj ms).Holds ((ms.lookup k).getD .null) := by
    intro k hk
    cases hlookup : ms.lookup k with
    | none => simp [hlookup] at hk
    | some j => exact (Json.Holds.self _).of_stepsTo (.name hlookup)
  by_cases hname : (ms.lookup name).getD .null = .null
  · by_cases hother : (ms.lookup other).getD .null = .null
    · refine ⟨.obj [], by simp only [definitions, hname, hother], .inr ⟨fun m hm => ?_, rfl⟩⟩
      obtain rfl | rfl := eq_or_eq_of_otherTable? h hm
      · exact hname
      · exact hother
    · refine ⟨_, ?_, .inl (hfound hother)⟩
      simp only [definitions, hname]
  · refine ⟨_, ?_, .inl (hfound hname)⟩
    simp only [definitions]

/-- How following segments from a document ends. -/
inductive Outcome (ref : String) (root : Json) (segments : List (List Char)) :
    Except Fault Json → Prop where
  | found {j : Json} (h : root.Holds j) : Outcome ref root segments (.ok j)
  | noTable (hroot : Tableless root) (hlast : EndsAtTable segments) :
      Outcome ref root segments (.ok (.obj []))
  | missing (segment : String) :
      Outcome ref root segments (.error (.danglingReference ref segment))
  | unreadable {before after : List (List Char)} {raw : List Char} {xs : List Json}
      (hsegments : segments = before ++ raw :: after)
      (hbefore : follow ref root root before = .ok (.arr xs)) (h : Unreadable (unescape raw)) :
      Outcome ref root segments (.error .notAllowed)

/-- One segment more. What stands in the place of a missing table has no values of its own. -/
theorem outcome_advance {ref : String} {ms : Members} {before : List (List Char)} {j : Json}
    (hbefore : follow ref (.obj ms) (.obj ms) before = .ok j)
    (hj : (Json.obj ms).Holds j ∨ Tableless (.obj ms) ∧ EndsAtTable before ∧ j = .obj [])
    (raw : List Char) :
    Outcome ref (.obj ms) (before ++ [raw]) (advance ref (.obj ms) j raw) := by
  unfold advance
  split
  · next hempty =>
    obtain hj | ⟨hroot, ⟨last, hlast, hname⟩, rfl⟩ := hj
    · exact .found hj
    · exact .noTable hroot ⟨last, by simpa [List.isEmpty_iff.mp hempty] using hlast, hname⟩
  · next hempty =>
    have hlast : ((before ++ [raw]).filter fun raw => !raw.isEmpty).getLast? = some raw := by
      simp [List.filter_append, hempty]
    split
    · next other hother =>
      obtain ⟨table, htable, hfound | ⟨hroot, rfl⟩⟩ := definitions_cases ms hother
      · rw [htable]
        exact .found hfound
      · rw [htable]
        refine .noTable hroot ⟨raw, hlast, ?_⟩
        by_contra hname
        rw [otherTable?_eq_none_iff.mpr hname] at hother
        cases hother
    · obtain ⟨s, next, hs, hstep⟩ | hstep | ⟨xs, rfl, hdigits, hstep⟩ :=
        step_cases ref j (unescape raw)
      · rw [hstep]
        obtain hj | ⟨-, -, rfl⟩ := hj
        · exact .found (hj.of_stepsTo hs)
        · cases hs with
          | name h => cases h
      · rw [hstep]
        exact .missing _
      · rw [hstep]
        exact .unreadable rfl hbefore hdigits

/-- An array that is asked for digits that no position is read from stops the following. -/
theorem advance_unreadable {raw : List Char} (h : Unreadable (unescape raw)) (xs : List Json) :
    advance ref root (.arr xs) raw = .error .notAllowed := by
  have hempty : raw.isEmpty = false := by
    rw [List.isEmpty_eq_false_iff]
    rintro rfl
    exact h.1 (by cbv)
  have htable : otherTable? (String.ofList raw) = none := by
    have hletters : ∀ name ∈ tableNames, name.toList.all isAnyDigit = false := by decide
    rw [otherTable?_eq_none_iff]
    intro hname
    have hescape : escape raw = raw := by simpa using escape_tableName _ hname
    have hletter := hletters _ hname
    have hdigit := h.2.1
    rw [← hescape, unescape_escape] at hdigit
    rw [String.toList_ofList, hdigit] at hletter
    cases hletter
  rw [advance, hempty, if_neg Bool.false_ne_true, htable]
  simp only [step, position?_of_unreadable h]

theorem outcome_follow (ref : String) (ms : Members) (segments : List (List Char)) :
    Outcome ref (.obj ms) segments (follow ref (.obj ms) (.obj ms) segments) := by
  induction segments using List.reverseRecOn with
  | nil => exact .found (.self _)
  | append_singleton before raw ih =>
    have hlonger : follow ref (.obj ms) (.obj ms) (before ++ [raw]) =
        follow ref (.obj ms) (.obj ms) before >>= fun j => advance ref (.obj ms) j raw := by
      rw [follow_append]
      congr
      funext j
      rw [follow_cons]
      cases advance ref (.obj ms) j raw <;> rfl
    rw [hlonger]
    generalize hbefore : follow ref (.obj ms) (.obj ms) before = r at ih
    cases ih with
    | found h => exact outcome_advance hbefore (.inl h) raw
    | noTable hroot hlast => exact outcome_advance hbefore (.inr ⟨hroot, hlast, rfl⟩) raw
    | missing segment => exact .missing segment
    | @unreadable front behind digits xs hsegments hfront h =>
      have hlater : before ++ [raw] = front ++ digits :: (behind ++ [raw]) := by simp [hsegments]
      exact .unreadable hlater hfront h

/-- A reference comes to an array with a segment of digits that no position is read from. -/
def MeetsUnreadable (ref : String) (root : Json) : Prop :=
  ∃ cs before raw after xs, ref.toList = '#' :: cs ∧ Text.split '/' cs = before ++ raw :: after ∧
    follow ref root root before = .ok (.arr xs) ∧ Unreadable (unescape raw)

theorem resolve_local {s : String} {cs : List Char} (hcs : s.toList = '#' :: cs) (root : Json) :
    resolve (.str s) root = follow s root root (Text.split '/' cs) := by
  simp only [resolve, hcs]

theorem resolve_external {s : String} (h : s.toList.head? ≠ some '#') (root : Json) :
    resolve (.str s) root = .error (.externalReference (.str s)) := by
  unfold resolve
  dsimp only
  split
  · next cs hcs => exact absurd (by rw [hcs, List.head?_cons]) h
  · rfl

theorem MeetsUnreadable.resolve_eq {s : String} {root : Json} (h : MeetsUnreadable s root) :
    resolve (.str s) root = .error .notAllowed := by
  obtain ⟨cs, before, raw, after, xs, hcs, hsplit, hbefore, hdigits⟩ := h
  rw [resolve_local hcs, hsplit, follow_append, hbefore]
  dsimp only [bind, Except.bind]
  rw [follow_cons, advance_unreadable hdigits]
  rfl

/-- How every text ends that is resolved as a reference. It is refused as one of another document
just where it does not begin with `#`. It is a fault of no reference just where it comes to an array
with digits that no position is read from. Elsewhere it leads to the document or to a value in it,
or a segment of it is reported as missing, or the document has no table of definitions and an
empty one is found by a reference that ends at this table. -/
theorem resolve_finds_or_fails (s : String) (ms : Members) :
    (resolve (.str s) (.obj ms) = .error (.externalReference (.str s)) ↔
      s.toList.head? ≠ some '#') ∧
    (resolve (.str s) (.obj ms) = .error .notAllowed ↔ MeetsUnreadable s (.obj ms)) ∧
    (s.toList.head? = some '#' → ¬ MeetsUnreadable s (.obj ms) →
      (∃ j, resolve (.str s) (.obj ms) = .ok j ∧ ∃ steps, (Json.obj ms).at? steps = some j) ∨
      (∃ segment, resolve (.str s) (.obj ms) = .error (.danglingReference s segment)) ∨
      resolve (.str s) (.obj ms) = .ok (.obj []) ∧ Tableless (.obj ms) ∧
        EndsAtTable (Text.split '/' s.toList.tail)) := by
  by_cases hhead : s.toList.head? = some '#'
  · obtain ⟨cs, hcs⟩ := List.head?_eq_some_iff.mp hhead
    have houtcome := outcome_follow s ms (Text.split '/' cs)
    have htail : s.toList.tail = cs := by rw [hcs, List.tail_cons]
    have hmeets : MeetsUnreadable s (.obj ms) → resolve (.str s) (.obj ms) = .error .notAllowed :=
      MeetsUnreadable.resolve_eq
    rw [← resolve_local hcs] at houtcome
    rw [hhead, htail]
    generalize resolve (.str s) (.obj ms) = r at houtcome hmeets ⊢
    have hno : r ≠ .error .notAllowed →
        (r = .error .notAllowed ↔ MeetsUnreadable s (.obj ms)) :=
      fun hr => iff_of_false hr fun h => hr (hmeets h)
    cases houtcome with
    | found h => exact ⟨by simp, hno (by simp), fun _ _ => .inl ⟨_, rfl, h⟩⟩
    | missing segment => exact ⟨by simp, hno (by simp), fun _ _ => .inr (.inl ⟨segment, rfl⟩)⟩
    | noTable hroot hlast =>
      exact ⟨by simp, hno (by simp), fun _ _ => .inr (.inr ⟨rfl, hroot, hlast⟩)⟩
    | unreadable hsegments hbefore h =>
      have hunreadable : MeetsUnreadable s (.obj ms) := ⟨cs, _, _, _, _, hcs, hsegments, hbefore, h⟩
      exact ⟨by simp, iff_of_true rfl hunreadable, fun _ hno => absurd hunreadable hno⟩
  · have hno : ¬ MeetsUnreadable s (.obj ms) := by
      rintro ⟨cs, -, -, -, -, hcs, -⟩
      exact hhead (by rw [hcs, List.head?_cons])
    rw [resolve_external hhead]
    exact ⟨iff_of_true rfl hhead, iff_of_false (by simp) hno, fun h => absurd h hhead⟩

/-- An array with an object in it that has a digit of no positional system for a name. -/
def numbered : Json := .obj [("items", .arr [.bool true, .obj [("²", .bool false)]])]

/-- Such a digit is a name like any other, as long as no array is asked for it. -/
theorem numbered_finds :
    ¬ MeetsUnreadable "#/items/1/²" numbered ∧
    ∃ j, resolve (.str "#/items/1/²") numbered = .ok j ∧ ∃ steps, numbered.at? steps = some j := by
  have hnot : ¬ MeetsUnreadable "#/items/1/²" numbered := by
    rintro ⟨cs, before, raw, after, xs, hcs, hsplit, hbefore, hdigits⟩
    have hpieces : Text.split '/' cs = [[], ['i', 't', 'e', 'm', 's'], ['1'], ['²']] := by
      obtain rfl : cs = ['/', 'i', 't', 'e', 'm', 's', '/', '1', '/', '²'] :=
        (List.cons.inj hcs).2.symm
      decide
    rw [hpieces] at hsplit
    -- the array is met with the segment 1 alone, which is a numeral
    obtain _ | ⟨_, _ | ⟨_, _ | ⟨_, _ | ⟨_, _ | ⟨_, before⟩⟩⟩⟩⟩ := before <;> simp at hsplit
    · cases hbefore
    · obtain ⟨rfl, -⟩ := hsplit
      cases hbefore
    · obtain ⟨-, -, rfl, -⟩ := hsplit
      have hone : unescape ['1'] = ['1'] := by cbv
      rw [hone] at hdigits
      exact absurd (hdigits.2.2 (by decide)) (by decide)
    · obtain ⟨rfl, rfl, rfl, -⟩ := hsplit
      have hobject : follow "#/items/1/²" numbered numbered [[], ['i', 't', 'e', 'm', 's'], ['1']] =
          .ok (.obj [("²", .bool false)]) := by cbv
      cases hobject.symm.trans hbefore
  have hresolve : resolve (.str "#/items/1/²") numbered = .ok (.bool false) := by cbv
  obtain hfound | ⟨segment, hmissing⟩ | ⟨hempty, -⟩ :=
    (resolve_finds_or_fails "#/items/1/²" _).2.2 (by decide) hnot
  · exact ⟨hnot, hfound⟩
  · cases hresolve.symm.trans hmissing
  · cases hresolve.symm.trans hempty

/-- A table of definitions is found where there is none, and an array that is asked for such a digit
is a fault of no reference. -/
theorem missing_found :
    resolve (.str "#/definitions") (.obj [("type", .str "object")]) = .ok (.obj []) ∧
    (∀ steps, (Json.obj [("type", .str "object")]).at? steps ≠ some (.obj [])) ∧
    resolve (.str "#/items/²") numbered = .error .notAllowed := by
  refine ⟨by cbv, ?_, by cbv⟩
  rintro (_ | ⟨m | i, steps⟩)
  · simp
  · by_cases hm : m = "type"
    · cases steps <;> simp [Json.at?, hm]
    · simp [Json.at?, List.lookup_cons, beq_false_of_ne hm]
  · simp [Json.at?]

end Pointer

end Conform
