import Conform.Proofs.Relocation
import Conform.Report

/-!
# Conform.Proofs.Agreement

Two questions are asked of one evaluation: whether there is anything to report, at the front and
only as far as a first find, and everything there is to report, at a place. `Report.all` asks the
first before the second. The main statement is that the answers agree: the first decides whether
the second is empty, a fault before the first find stops both in the same way, and a fault behind
it only the second.

The two evaluations run at different places, so they are compared through `Trace.Moved`; that a
first find is enough for the first question is `Trace.verdict`.
-/

namespace Conform

namespace Trace

variable {α : Type}

/-- All finds of a trace are given exactly where nothing stops it. -/
theorem toExcept_eq_ok_iff {t : Trace α} {found : List α} :
    t.toExcept = .ok found ↔ t = ⟨found, none⟩ := by
  obtain ⟨found', fault⟩ := t
  cases fault <;> simp [toExcept]

theorem pulls_done (n : Nat) : (done : Trace α).pulls (n + 1) = [.finish] := by
  simp [pulls, done, ending]

theorem pulls_stop (f : Fault) (n : Nat) : (stop f : Trace α).pulls (n + 1) = [.fault f] := by
  simp [pulls, stop, ending]

theorem pulls_one_of_found {t : Trace α} {x : α} {xs : List α} (h : t.found = x :: xs) :
    t.pulls 1 = [.find x] := by
  rw [pulls, h]
  rfl

end Trace

namespace Report

variable (value schema : Json) (root : Option Json) (path : String) (formats : Formats)

section

variable [Host]

/-- The first question has the same answer at every place. -/
theorem accepts_eq_verdict :
    accepts value schema root formats =
      (Evaluation.run value schema root path formats).verdict :=
  (Evaluation.moved_run value schema root "" path formats).verdict_eq

/-- Everything there is to report is what the evaluation at the place gives, asked for all of
it at once: the first question only saves the second where there is nothing. -/
theorem all_eq_toExcept :
    all value schema root path formats =
      (Evaluation.run value schema root path formats).toExcept := by
  unfold all
  rw [accepts_eq_verdict value schema root path formats]
  generalize Evaluation.run value schema root path formats = t
  cases hv : t.verdict with
  | error f =>
    rw [(Trace.verdict_eq_error_iff t f).mp hv]
    rfl
  | ok b =>
    cases b
    · rfl
    · rw [(Trace.verdict_eq_ok_true_iff t).mp hv]
      rfl

/-- The question whether a schema accepts a value and the reports at any place agree. An accepted
value has no reports and an evaluation without finds; of a refused one a first find is there to be
pulled, and reports come if no fault is behind it; a fault in place of the first answer is the
fault of both. Reports that do come are empty exactly for an accepted value, and are what pulling
gives one by one. -/
theorem accepts_agrees_with_all :
    (accepts value schema root formats = .ok true →
      (∀ n, (Evaluation.run value schema root path formats).pulls (n + 1) = [.finish]) ∧
        all value schema root path formats = .ok []) ∧
    (accepts value schema root formats = .ok false →
      (∃ v, (Evaluation.run value schema root path formats).pulls 1 = [.find v]) ∧
        ((∃ v vs, all value schema root path formats = .ok (v :: vs)) ∨
          ∃ f, all value schema root path formats = .error f)) ∧
    (∀ f, accepts value schema root formats = .error f →
      all value schema root path formats = .error f ∧
        ∀ n, (Evaluation.run value schema root path formats).pulls (n + 1) = [.fault f]) ∧
    (∀ vs, all value schema root path formats = .ok vs →
      accepts value schema root formats = .ok vs.isEmpty ∧
        ∀ n, (Evaluation.run value schema root path formats).pulls n =
          (vs.map Trace.Pull.find ++ [Trace.Pull.finish]).take n) := by
  rw [all_eq_toExcept, accepts_eq_verdict value schema root path formats]
  generalize Evaluation.run value schema root path formats = t
  refine ⟨fun h => ?accepted, fun h => ?refused, fun f h => ?stopped, fun vs h => ?reported⟩
  case accepted =>
    rw [(Trace.verdict_eq_ok_true_iff t).mp h]
    exact ⟨Trace.pulls_done, rfl⟩
  case refused =>
    obtain ⟨v, vs, hfound⟩ := List.exists_cons_of_ne_nil ((Trace.verdict_eq_ok_false_iff t).mp h)
    refine ⟨⟨v, Trace.pulls_one_of_found hfound⟩, ?_⟩
    cases hf : t.fault with
    | some f => exact .inr ⟨f, by rw [Trace.toExcept, hf]⟩
    | none => exact .inl ⟨v, vs, by rw [Trace.toExcept, hf, hfound]⟩
  case stopped =>
    rw [(Trace.verdict_eq_error_iff t f).mp h]
    exact ⟨rfl, Trace.pulls_stop f⟩
  case reported =>
    rw [Trace.toExcept_eq_ok_iff.mp h]
    refine ⟨?_, fun n => rfl⟩
    cases vs <;> rfl

end

end Report

end Conform
