import Conform.Proofs.Congruence
import Conform.Report

/-!
# Conform.Proofs.Relocation

The place at which a value is said to lie is handed through evaluation and decides nothing.
Evaluations of one value at two places end alike and report the same things, and a report of one
differs from that of the other only by the place in front:

```
at p:   p.name    p[2].id    p
at q:   q.name    q[2].id    q
```

At the front no period is written, so the two places have to be different from the front for
the places of reports to correspond; all else corresponds at the front too. What is reported of
a value at `p` therefore lies at `p` or below it, as `Path.isUnder` tells by the text.
-/

namespace Conform

/-- A text that leads on from a place: nothing, or a member or an item of it and what follows. -/
def Path.IsTail (tail : String) : Prop :=
  tail = "" ∨ ∃ rest, tail = "." ++ rest ∨ tail = "[" ++ rest

/-- Two reports of one thing, the first of a value at `p` and the second of the same value
at `q`. -/
structure Violation.Moved (p q : String) (v w : Violation) : Prop where
  code : v.code = w.code
  message : v.message = w.message
  value : v.value = w.value
  constraint : v.constraint = w.constraint
  path : p ≠ "" → q ≠ "" → ∃ tail, Path.IsTail tail ∧
    v.path = .str (p ++ tail) ∧ w.path = .str (q ++ tail)

/-- Two readings that report the same things of a value at `p` and at `q`, and end alike. -/
structure Trace.Moved (p q : String) (t u : Trace Violation) : Prop where
  found : List.Forall₂ (Violation.Moved p q) t.found u.found
  fault : t.fault = u.fault

namespace Path

theorem name_of_ne_front {path : String} (h : path ≠ "") (member : String) :
    name path member = path ++ ("." ++ member) := by
  rw [name, if_neg (by simpa using h), String.append_assoc]

theorem index_eq (path : String) (i : Nat) :
    index path i = path ++ ("[" ++ (toString i ++ "]")) := by
  rw [index, String.append_assoc, String.append_assoc]

theorem name_ne_front {path : String} (h : path ≠ "") (member : String) :
    name path member ≠ "" := by
  rw [name_of_ne_front h]
  simp [h]

theorem index_ne_front (path : String) (i : Nat) : index path i ≠ "" := by
  rw [index_eq]
  simp

theorem startsWith_append (start rest : String) : startsWith (start ++ rest) start = true := by
  simp [startsWith]

/-- What leads on from a place lies at it or below it. -/
theorem isUnder_append (path : String) {tail : String} (h : IsTail tail) :
    isUnder (path ++ tail) path = true := by
  obtain rfl | ⟨rest, rfl | rfl⟩ := h
  · simp [isUnder]
  · have hstarts : startsWith (path ++ ("." ++ rest)) (path ++ ".") = true := by
      rw [← String.append_assoc]
      exact startsWith_append (path ++ ".") rest
    simp [isUnder, hstarts]
  · have hstarts : startsWith (path ++ ("[" ++ rest)) (path ++ "[") = true := by
      rw [← String.append_assoc]
      exact startsWith_append (path ++ "[") rest
    simp [isUnder, hstarts]

end Path

namespace Violation.Moved

variable {p q : String} {v w : Violation}

/-- Reports of a part of the value are reports of the value. -/
theorem of_step {p' q' start : String} (hp : p ≠ "" → p' = p ++ start ∧ p' ≠ "")
    (hq : q ≠ "" → q' = q ++ start ∧ q' ≠ "")
    (hstart : ∃ rest, start = "." ++ rest ∨ start = "[" ++ rest)
    (h : Moved p' q' v w) : Moved p q v w where
  code := h.code
  message := h.message
  value := h.value
  constraint := h.constraint
  path := by
    intro hp' hq'
    obtain ⟨rfl, hp'⟩ := hp hp'
    obtain ⟨rfl, hq'⟩ := hq hq'
    obtain ⟨tail, -, hv, hw⟩ := h.path hp' hq'
    refine ⟨start ++ tail, .inr ?_, ?_, ?_⟩
    · obtain ⟨rest, rfl | rfl⟩ := hstart
      · exact ⟨rest ++ tail, .inl (String.append_assoc ..)⟩
      · exact ⟨rest ++ tail, .inr (String.append_assoc ..)⟩
    · rw [hv, String.append_assoc]
    · rw [hw, String.append_assoc]

theorem of_name {m : String} (h : Moved (Path.name p m) (Path.name q m) v w) : Moved p q v w :=
  h.of_step (fun hp => ⟨Path.name_of_ne_front hp m, Path.name_ne_front hp m⟩)
    (fun hq => ⟨Path.name_of_ne_front hq m, Path.name_ne_front hq m⟩) ⟨m, .inl rfl⟩

theorem of_index {i : Nat} (h : Moved (Path.index p i) (Path.index q i) v w) : Moved p q v w :=
  h.of_step (fun _ => ⟨Path.index_eq p i, Path.index_ne_front p i⟩)
    (fun _ => ⟨Path.index_eq q i, Path.index_ne_front q i⟩) ⟨_, .inr rfl⟩

end Violation.Moved

namespace Trace.Moved

variable {p q : String} {t u t' u' : Trace Violation}

theorem find {v w : Violation} (h : Violation.Moved p q v w) : Moved p q (find v) (find w) :=
  ⟨.cons h .nil, rfl⟩

theorem andThen (h : Moved p q t u) (h' : Moved p q t' u') :
    Moved p q (t.andThen fun _ => t') (u.andThen fun _ => u') := by
  obtain ⟨found, fault⟩ := t
  obtain ⟨found', fault'⟩ := u
  obtain rfl : fault = fault' := h.fault
  cases fault with
  | some f => exact h
  | none => exact ⟨List.rel_append h.found h'.found, h'.fault⟩

theorem isEmpty_found (h : Moved p q t u) : t.found.isEmpty = u.found.isEmpty := by
  rw [Bool.eq_iff_iff, List.isEmpty_iff_length_eq_zero, List.isEmpty_iff_length_eq_zero,
    h.found.length_eq]

theorem verdict_eq (h : Moved p q t u) : t.verdict = u.verdict := by
  obtain ⟨found, fault⟩ := t
  obtain ⟨found', fault'⟩ := u
  obtain rfl : fault = fault' := h.fault
  have hfound := h.found
  cases hfound with
  | nil => rfl
  | cons _ _ => rfl

end Trace.Moved

namespace Evaluation

/-- Rules report the same things of one value at two places. -/
theorem congruence_moved : Congruence Trace.Moved where
  done := ⟨.nil, rfl⟩
  stop _ := ⟨.nil, rfl⟩
  violation code message value constraint :=
    .find ⟨rfl, rfl, rfl, rfl, fun _ _ => ⟨"", .inl rfl, by simp, by simp⟩⟩
  demanded {p q} name code message constraint := by
    refine .find ⟨rfl, rfl, rfl, rfl, fun hp hq => ?_⟩
    refine ⟨"." ++ name.words, .inr ⟨_, .inl rfl⟩, ?_, ?_⟩
    · rw [Path.demanded, if_neg (by simpa using hp), String.append_assoc]
    · rw [Path.demanded, if_neg (by simpa using hq), String.append_assoc]
  andThen h h' := h.andThen h'
  summary {p q t u t' u'} h h' := by
    refine h.andThen ?_
    rw [h.isEmpty_found]
    cases u.found.isEmpty
    · exact h'
    · exact ⟨.nil, rfl⟩
  name m h := ⟨h.found.imp fun _ _ => .of_name, h.fault⟩
  index i h := ⟨h.found.imp fun _ _ => .of_index, h.fault⟩
  ask {p q t u k k'} h h' := by
    rw [h.verdict_eq]
    cases u.verdict with
    | ok b => exact h' b
    | error f => exact ⟨.nil, rfl⟩

section

variable [Host]

/-- Evaluation at one place goes as at any other. -/
theorem moved_descend (scope : Scope) (fuel : Nat) (value schema : Json) (p q : String)
    (chain : List String) :
    Trace.Moved p q (descend scope fuel value schema p chain)
      (descend scope fuel value schema q chain) := by
  induction fuel generalizing value schema p q chain with
  | zero => exact ⟨.nil, rfl⟩
  | succ fuel ih =>
    refine congruence_moved.step rfl (fun _ _ _ _ _ s _ p q => ih value s p q chain)
      (fun _ _ _ _ _ v _ s _ p q => ih v s p q []) fun _ ref _ _ => ?_
    exact congruence_moved.followRule rfl rfl (fun f _ => ⟨.nil, rfl⟩)
      fun _ target _ => ih value target p q _

/-- A whole evaluation at one place goes as at any other. -/
theorem moved_run (value schema : Json) (root : Option Json) (p q : String) (formats : Formats) :
    Trace.Moved p q (run value schema root p formats) (run value schema root q formats) :=
  moved_descend _ _ _ _ _ _ _

/-- What is reported of a value at a place lies at that place or below it. -/
theorem isBelow_of_mem_found {value schema : Json} {root : Option Json} {p : String}
    {formats : Formats} (hp : p ≠ "") :
    ∀ v ∈ (run value schema root p formats).found, Report.isBelow p v = .ok true := by
  intro v hv
  have hmoved := (moved_run value schema root p p formats).found
  have hself : Violation.Moved p p v v := List.forall₂_same.mp hmoved v hv
  obtain ⟨tail, htail, hpath, -⟩ := hself.path hp hp
  simp only [Report.isBelow, hpath]
  rw [Path.isUnder_append p htail]

/-- Evaluations of one value at two places end alike, with the same fault or none, and their
reports agree one by one in all but the place in front. So what is reported at a place lies at
it or below it. -/
theorem run_relocates (value schema : Json) (root : Option Json) (formats : Formats)
    (p q : String) :
    Trace.Moved p q (run value schema root p formats) (run value schema root q formats) ∧
      (p ≠ "" → ∀ v ∈ (run value schema root p formats).found,
        Report.isBelow p v = .ok true) :=
  ⟨moved_run value schema root p q formats, isBelow_of_mem_found⟩

end

open Sample in
/-- An item that is no text, in a member of what lies at two places. -/
theorem untyped_item_relocates :
    let value : Json := .obj [("tags", .arr [.num (.int 1)])]
    let schema : Json := .obj [("properties", .obj [("tags",
      .obj [("items", .obj [("type", .str "string")])])])]
    (run value schema none "old" []).found.map Violation.path = [.str "old.tags[0]"] ∧
      (run value schema none "new[3]" []).found.map Violation.path = [.str "new[3].tags[0]"] ∧
      Trace.Moved "old" "new[3]" (run value schema none "old" [])
        (run value schema none "new[3]" []) ∧
      ∀ v ∈ (run value schema none "old" []).found, Report.isBelow "old" v = .ok true := by
  intro value schema
  have hfront : "old" ≠ "" := by decide
  have hrelocates := run_relocates value schema none [] "old" "new[3]"
  exact ⟨by rfl, by rfl, hrelocates.1, hrelocates.2 hfront⟩

end Evaluation

end Conform
