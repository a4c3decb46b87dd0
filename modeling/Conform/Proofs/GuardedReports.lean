import Conform.Proofs.Agreement
import Conform.Proofs.CycleGuard
import Mathlib

/-!
# Conform.Proofs.GuardedReports

What the guard of references does to the reports of an evaluation, all of them being asked for. It
is exact for a first report (`Evaluation.settlesUnless_guarded`), but not for the ones behind it. A
schema that is only checked, in `not` say, is asked for a first report, and may be done before it
comes to a reference for the second time; the chain does not tell this from a circle:

```
"A": {"minLength": 3, "not": {"$ref": "#/definitions/A"}}
```

Of a short text, evaluation without the guard reports its length, and in the check ends with that
report. With the guard the reference in the check is refused behind the first report.

The main statement is that nothing else goes wrong. Where evaluation without the guard ends, the
guard leaves its reports alone, unless a reference is met again behind a check of what it leads to
(`Json.ChecksItself`); then it is refused behind a first part of the reports.
-/

namespace Conform

/-- From a schema, evaluation can come to a node that is met behind a reference, for one value, and
that checks a schema which leads to the reference again, for that value. -/
inductive Json.ChecksItself (document : Option Json) (schema : Json) (ref : String) : Prop where
  | intro {root target s checked : Json} {n : Node} (hroot : document = some root)
      (htarget : Pointer.resolve (.str ref) root = .ok target)
      (hs : Relation.ReflTransGen (Rechecks document) target s)
      (hreached : Reaches document schema s) (hn : s.ReadsAs n)
      (hchecked : checked ∈ n.checked) (hback : checked.ComesTo document ref)

/-- All of a reading that no fault stops is what another one gives, unless a bad fault stops that
one behind a first part. -/
def Trace.Drains {α : Type} (bad : Fault → Prop) (t u : Trace α) : Prop :=
  t.fault = none → u = t ∨ ∃ f, bad f ∧ u.fault = some f ∧ u.found <+: t.found

namespace Trace.Drains

variable {α : Type} {bad : Fault → Prop} {t u t' u' : Trace α}

theorem refl (t : Trace α) : Drains bad t t := fun _ => .inl rfl

theorem of_fault {f : Fault} (h : t.fault = some f) (u : Trace α) : Drains bad t u := by
  intro hnone
  rw [h] at hnone
  cases hnone

theorem andThen (h : Drains bad t u) (h' : Drains bad t' u') :
    Drains bad (t.andThen fun _ => t') (u.andThen fun _ => u') := by
  obtain ⟨found, fault⟩ := t
  cases fault with
  | some f => exact of_fault rfl _
  | none =>
    intro hnone
    obtain rfl | ⟨f, hbad, hfault, hfound⟩ := h rfl
    · obtain rfl | ⟨f, hbad, hfault, hfound⟩ := h' hnone
      · exact .inl rfl
      · exact .inr ⟨f, hbad, hfault, (List.prefix_append_right_inj _).mpr hfound⟩
    · obtain ⟨found', fault'⟩ := u
      obtain rfl : fault' = some f := hfault
      exact .inr ⟨f, hbad, rfl, hfound.trans (List.prefix_append _ _)⟩

end Trace.Drains

namespace Evaluation

/-- Rules give all their reports where what they ask for does. -/
theorem compatible_drains (bad : Fault → Prop) :
    Compatible (fun _ => True) (Trace.SettlesUnless bad) fun _ p q t u =>
      p = q → Trace.Drains bad t u where
  done _ := .refl _
  stop _ _ := .refl _
  violation _ message constraint hpq := hpq ▸ .refl _
  absent message constraint hpq := hpq ▸ .refl _
  missing _ _ _ message constraint hpq := hpq ▸ .refl _
  refusedName _ message constraint hpq := hpq ▸ .refl _
  andThen h h' hpq := (h hpq).andThen (h' hpq)
  summary {v p q t u t' u'} h h' hpq := by
    obtain ⟨found, fault⟩ := t
    cases fault with
    | some f => exact .of_fault rfl _
    | none =>
      obtain rfl | ⟨f, hbad, hfault, hfound⟩ := h hpq rfl
      · refine (Trace.Drains.refl _).andThen ?_
        cases found.isEmpty
        · exact h' hpq
        · exact .refl _
      · obtain ⟨found', fault'⟩ := u
        obtain rfl : fault' = some f := hfault
        exact fun _ => .inr ⟨f, hbad, rfl, hfound.trans (List.prefix_append _ _)⟩
  name _ h hpq := h (by rw [hpq])
  index _ h hpq := h (by rw [hpq])
  ask {v p q t u k k'} h h' hpq := by
    cases ht : t.verdict with
    | error f => exact .of_fault rfl _
    | ok b =>
      obtain (⟨f, -, hf⟩ | heq) | ⟨f, hbad, hf⟩ := h
      · cases ht.symm.trans hf
      · rw [← heq, ht]
        exact h' b hpq
      · rw [hf]
        exact fun _ => .inr ⟨f, hbad, rfl, List.nil_prefix⟩

variable {scope : Scope} {value schema : Json}

/-! ## Without the guard -/

/-- Following a reference without a fault permits it and finds its target. -/
theorem followRule_fault_eq_none {self : Evaluate} {ref : Json} {p : String} {chain : List String}
    (h : (followRule scope self ref value p chain).fault = none) :
    ∃ r target, ref = .str r ∧ referred scope ref = .ok target ∧
      followRule scope self ref value p chain = self value target p (r :: chain) := by
  cases hpermit : Pointer.permit scope.guarded ref chain with
  | error f => rw [followRule, hpermit] at h; cases h
  | ok u =>
    cases htarget : referred scope ref with
    | error f => rw [followRule, hpermit, htarget] at h; cases h
    | ok target =>
      obtain ⟨r, rfl⟩ := Call.exists_text_of_referred htarget
      exact ⟨r, target, rfl, rfl, by rw [followRule, hpermit, htarget]; rfl⟩

section

variable [Host]

/-- Without the guard more steps and another chain do not change an evaluation that ends. -/
theorem drains_unguarded (scope : Scope) {n m : Nat} (hle : n ≤ m) (value schema : Json)
    (p : String) (chain chain' : List String)
    (h : (descend scope.unguarded n value schema p chain).fault = none) :
    descend scope.unguarded m value schema p chain' =
      descend scope.unguarded n value schema p chain := by
  suffices hdrains : ∀ p q, p = q → Trace.Drains (fun _ => False)
      (descend scope.unguarded n value schema p chain)
      (descend scope.unguarded m value schema q chain') from
    (hdrains p p rfl h).resolve_right nofun
  clear h
  induction n generalizing m value schema chain chain' with
  | zero => exact fun _ _ _ => .of_fault rfl _
  | succ n ih =>
    obtain ⟨m, rfl⟩ : ∃ k, m = k + 1 := ⟨m - 1, by omega⟩
    have hle' : n ≤ m := by omega
    intro p q
    refine (compatible_drains _).step rfl (fun node _ => ?_) fun ms ref _ _ hpq => ?_
    · exact {
        demanded := fun _ _ => trivial
        reported := fun s _ => ih hle' value s chain chain'
        checked := fun s _ => .inl (settles_unguarded scope value s hle' "" "" chain chain')
        partReported := fun v _ s _ => ih hle' v s [] []
        partChecked := fun v _ s _ => .inl (settles_unguarded scope v s hle' "" "" [] []) }
    · subst hpq
      intro hnone
      obtain ⟨r, target, rfl, htarget, hfollow⟩ := followRule_fault_eq_none hnone
      have hfollow' :
          followRule scope.unguarded (descend scope.unguarded m) (.str r) value p chain' =
            descend scope.unguarded m value target p (r :: chain') := by
        rw [followRule, htarget]
        rfl
      rw [hfollow] at hnone ⊢
      rw [hfollow']
      exact ih hle' value target (r :: chain) (r :: chain') p p rfl hnone

/-- Evaluation without the guard, in a number of steps, has nothing more to report. -/
def EndsWithin (scope : Scope) (n : Nat) (value schema : Json) : Prop :=
  (descend scope.unguarded n value schema "" []).fault = none

instance (scope : Scope) (n : Nat) (value schema : Json) :
    Decidable (EndsWithin scope n value schema) :=
  inferInstanceAs (Decidable (_ = none))

/-- Neither the place nor the chain matters for that. -/
theorem endsWithin_iff {n : Nat} (p : String) (chain : List String) :
    EndsWithin scope n value schema ↔
      (descend scope.unguarded n value schema p chain).fault = none := by
  have hmoved := (moved_descend scope.unguarded n value schema "" p []).fault
  rw [EndsWithin, hmoved]
  constructor <;> intro h
  · rw [drains_unguarded scope (Nat.le_refl n) value schema p [] chain h]
    exact h
  · rw [drains_unguarded scope (Nat.le_refl n) value schema p chain [] h]
    exact h

/-! ## With the guard -/

/-- Whatever is on a chain leads to evaluations of the value that do not end in fewer steps, and
among them is the one of the schema at hand. -/
def Leading (scope : Scope) (n : Nat) (value schema : Json) (chain : List String) : Prop :=
  ∀ ref ∈ chain, ∃ target, referred scope (.str ref) = .ok target ∧
    (∀ k < n, ¬ EndsWithin scope k value target) ∧
    Relation.ReflTransGen (Json.Rechecks scope.root) target schema

end

namespace Leading

variable {n k : Nat} {s : Json} {chain : List String}

section

variable [Host]

theorem nil (scope : Scope) (n : Nat) (value schema : Json) : Leading scope n value schema [] :=
  nofun

theorem mono (h : Leading scope n value schema chain) (hle : k ≤ n) :
    Leading scope k value schema chain := by
  intro ref hmem
  obtain ⟨target, htarget, hopen, hleads⟩ := h ref hmem
  exact ⟨target, htarget, fun j hj => hopen j (Nat.lt_of_lt_of_le hj hle), hleads⟩

theorem tail (h : Leading scope n value schema chain) (hs : Json.Rechecks scope.root schema s) :
    Leading scope n value s chain := by
  intro ref hmem
  obtain ⟨target, htarget, hopen, hleads⟩ := h ref hmem
  exact ⟨target, htarget, hopen, hleads.tail hs⟩

theorem cons {ref : String} (htarget : referred scope (.str ref) = .ok schema)
    (hopen : ∀ k < n, ¬ EndsWithin scope k value schema) (h : Leading scope n value schema chain) :
    Leading scope n value schema (ref :: chain) := by
  intro r hmem
  obtain rfl | hmem := List.mem_cons.mp hmem
  · exact ⟨schema, htarget, hopen, .refl⟩
  · exact h r hmem

end

end Leading

/-- The faults that the guard can add behind a first report. -/
def SelfCheck (document : Option Json) (schema : Json) (f : Fault) : Prop :=
  ∃ ref, f = .circularReference ref ∧ schema.ChecksItself document ref

section

variable [Host]

/-- A schema that is checked behind a chain settles as without the guard, unless it comes to a
reference on the chain. -/
theorem settlesUnless_checked {start : Json} {n m : Nat} (hle : n ≤ m) {node : Node}
    (hreached : Json.Reaches scope.root start schema) (hn : schema.ReadsAs node) {s : Json}
    (hs : s ∈ node.checked) {chain' : List String} {k : Nat}
    (hleading : Leading scope k value schema chain') (chain : List String) :
    Trace.SettlesUnless (SelfCheck scope.root start)
      (descend scope.unguarded n value s "" chain) (descend scope m value s "" chain') := by
  refine settlesUnless_guarded scope hle value s "" "" chain [] chain' (.nil scope n value) ?_
  intro r hr hback
  obtain ⟨target, htarget, -, hleads⟩ := hleading r hr
  obtain ⟨root, hroot, hresolve⟩ := exists_root_of_referred htarget
  exact ⟨r, rfl, .intro hroot hresolve hleads hreached hn hs hback⟩

/-- Evaluation without the guard does not end in a reference on a leading chain. -/
theorem followRule_fault_ne_none {n : Nat} {r p : String} {chain chain' : List String}
    (hleading : Leading scope (n + 1) value schema chain') (hr : r ∈ chain') :
    (followRule scope.unguarded (descend scope.unguarded n) (.str r) value p chain).fault ≠
      none := by
  intro hnone
  obtain ⟨target, htarget, hopen, -⟩ := hleading r hr
  obtain ⟨_, target', heq, htarget', hfollow⟩ := followRule_fault_eq_none hnone
  cases heq
  obtain rfl := Except.ok.inj (htarget.symm.trans htarget')
  rw [hfollow] at hnone
  exact hopen n (Nat.lt_succ_self n) ((endsWithin_iff p (r :: chain)).mpr hnone)

/-- Following a reference with the guard, if it is followed at all, gives what following it without
the guard does. Behind it the chain leads on for the least number of steps in which the target
ends, and up to that number the claim is known. -/
theorem drains_guarded_target {bad : Fault → Prop} {n m : Nat} {r p : String} {target : Json}
    {chain chain' : List String} (htarget : referred scope (.str r) = .ok target)
    (hleading : Leading scope n value target chain')
    (ih : ∀ k ≤ n, ∀ chain', Leading scope k value target chain' →
      Trace.Drains bad (descend scope.unguarded k value target p (r :: chain))
        (descend scope m value target p chain')) :
    Trace.Drains bad (descend scope.unguarded n value target p (r :: chain))
      (descend scope m value target p (r :: chain')) := by
  intro hnone
  have hends : ∃ k, EndsWithin scope k value target := ⟨n, (endsWithin_iff p _).mpr hnone⟩
  have hk : Nat.find hends ≤ n := Nat.find_min' hends ((endsWithin_iff p _).mpr hnone)
  have hdone := (endsWithin_iff p (r :: chain)).mp (Nat.find_spec hends)
  rw [drains_unguarded scope hk value target p (r :: chain) (r :: chain) hdone]
  refine ih _ hk (r :: chain') (.cons htarget (fun j hj => Nat.find_min hends hj) ?_) hdone
  exact hleading.mono hk

/-- The guard leaves alone what evaluation without it gives where it ends, unless it refuses a
reference in a check. -/
theorem drains_guarded (start : Json) (scope : Scope) {n m : Nat} (hle : n ≤ m)
    (value schema : Json) (p : String) (chain chain' : List String)
    (hreached : Json.Reaches scope.root start schema)
    (hleading : Leading scope n value schema chain') :
    Trace.Drains (SelfCheck scope.root start) (descend scope.unguarded n value schema p chain)
      (descend scope m value schema p chain') := by
  induction n using Nat.strongRecOn generalizing m value schema p chain chain' with
  | ind n ih =>
    cases n with
    | zero => exact .of_fault rfl _
    | succ n =>
      obtain ⟨m, rfl⟩ : ∃ k, m = k + 1 := ⟨m - 1, by omega⟩
      have hle' : n ≤ m := by omega
      have hlt := Nat.lt_succ_self n
      have hleading' := hleading.mono (Nat.le_succ n)
      refine (compatible_drains _).step rfl (fun node hn => ?node)
        (fun ms ref hms href _ => ?follow) rfl
      case node =>
        exact {
          demanded := fun _ _ => trivial
          reported := fun s hs p q hpq => by
            have hagain : s ∈ node.again := node.reported_subset hs
            subst hpq
            exact ih n hlt hle' value s p chain chain' (hreached.tail (.again hn hagain))
              (hleading'.tail (.again hn hagain))
          -- a check may end where reading on would not: the chain says nothing about it
          checked := fun s hs =>
            settlesUnless_checked hle' hreached hn hs hleading' chain
          partReported := fun v _ s hs p q hpq => by
            have hinto : s ∈ node.into := node.partReported_subset hs
            subst hpq
            exact ih n hlt hle' v s p [] [] (hreached.tail (.into hn hinto)) (.nil scope n v s)
          partChecked := fun v _ s _ =>
            settlesUnless_guarded scope hle' v s "" "" [] [] [] (.nil scope n v) nofun }
      case follow =>
        subst hms
        intro hnone
        obtain ⟨r, target, rfl, htarget, hfollow⟩ := followRule_fault_eq_none hnone
        have hrefers : Json.RefersTo scope.root (.obj ms) target :=
          refersTo_of_referred href htarget
        -- evaluation of a reference on the chain would not end, and this one does
        have hfree : r ∉ chain' := fun hr => followRule_fault_ne_none hleading hr hnone
        have hpermit : Pointer.permit scope.guarded (.str r) chain' = .ok () :=
          Pointer.permit_eq_ok_iff.mpr fun _ => hfree
        have htarget' : referred scope (.str r) = .ok target := htarget
        have hfollow' : followRule scope (descend scope m) (.str r) value p chain' =
            descend scope m value target p (r :: chain') := by
          rw [followRule, hpermit, htarget']
          rfl
        rw [hfollow] at hnone ⊢
        rw [hfollow']
        refine drains_guarded_target htarget' (hleading'.tail (.follow hrefers)) ?_ hnone
        exact fun k hk c hc => ih k (Nat.lt_succ_of_le hk) (Nat.le_trans hk hle') value target p
          (r :: chain) c (hreached.tail (.follow hrefers)) hc

/-! ## Whole evaluations -/

/-- Everything that evaluation reports without the guard of references, in a number of steps. -/
def reportsWithin (n : Nat) (value schema : Json) (root : Option Json) (path : String)
    (formats : Formats) : Except Fault (List Violation) :=
  (descend (scopeFor schema root formats).unguarded n value schema path []).toExcept

end

variable (value schema : Json) (root : Option Json) (path : String) (formats : Formats)

variable [Host] in
/-- An evaluation that ends without the guard is not stopped in front of its first report. -/
theorem found_ne_nil_of_endsWithin {n : Nat} {ref : String}
    (hends : EndsWithin (scopeFor schema root formats) n value schema)
    (hfault : (run value schema root path formats).fault = some (.circularReference ref)) :
    (run value schema root path formats).found ≠ [] := by
  intro hfound
  have haccepts : Conform.accepts value schema root formats = .error (.circularReference ref) := by
    rw [Report.accepts_eq_verdict value schema root path formats, Trace.verdict, hfound, hfault]
  obtain ⟨_, rfl, hlost⟩ | heq := settles_accepts value schema root formats n
  · rw [EndsWithin, (Trace.verdict_eq_error_iff _ _).mp hlost] at hends
    cases hends
  · exact acceptsWithin_ne_circular value schema root formats n ref (heq.trans haccepts)

variable [Host] in
/-- The guard of references leaves all reports as they are. Where evaluation without it reports `L`
within some number of steps, evaluation reports `L`; unless a reference checks itself. Then the
reference may be refused as circular, behind a first part of `L` that is not empty. -/
theorem reports_guarded {n : Nat} {L : List Violation}
    (h : reportsWithin n value schema root path formats = .ok L) :
    ((run value schema root path formats) = ⟨L, none⟩ ∧
      Report.all value schema root path formats = .ok L) ∨
    ∃ ref found rest, L = found ++ rest ∧ found ≠ [] ∧
      run value schema root path formats = ⟨found, some (.circularReference ref)⟩ ∧
      Report.all value schema root path formats = .error (.circularReference ref) ∧
      schema.ChecksItself (Pointer.document schema root) ref := by
  have hunguarded := Trace.toExcept_eq_ok_iff.mp h
  have hends : EndsWithin (scopeFor schema root formats) n value schema :=
    (endsWithin_iff path []).mpr (by rw [hunguarded])
  have hdrains := drains_guarded schema (scopeFor schema root formats)
    (Nat.le_max_left n (budget value schema (scopeFor schema root formats).root)) value schema
    path [] [] .refl (.nil _ n value schema)
  rw [descend_eq_run value schema root path formats (Nat.le_max_right n _), hunguarded] at hdrains
  obtain heq | ⟨f, ⟨ref, rfl, hchecks⟩, hfault, rest, hrest⟩ := hdrains rfl
  · exact .inl ⟨heq, by rw [Report.all_eq_toExcept, heq]; rfl⟩
  · refine .inr ⟨ref, _, rest, hrest.symm, ?_, ?_, ?_, hchecks⟩
    · exact found_ne_nil_of_endsWithin value schema root path formats hends hfault
    · rw [← hfault]
    · rw [Report.all_eq_toExcept, Trace.toExcept, hfault]

/-- A schema that denies itself to what is long enough. -/
def selfDenying : Json :=
  .obj [("$ref", .str "#/definitions/A"),
    ("definitions", .obj [("A", .obj [("minLength", .num (.int 3)),
      ("not", .obj [("$ref", .str "#/definitions/A")])])])]

/-- The report of a text that is not long enough. -/
def tooShort : Violation :=
  ⟨.str "", .minLength, "String length must be at least 3", .str "a", .num (.int 3)⟩

open Sample in
/-- Without the guard a short text has one report, and the evaluation ends; the guard refuses the
reference in the check. -/
theorem selfDenying_stopped :
    reportsWithin 4 (.str "a") selfDenying none "" [] = .ok [tooShort] ∧
    run (.str "a") selfDenying none "" [] =
      ⟨[tooShort], some (.circularReference "#/definitions/A")⟩ ∧
    Report.all (.str "a") selfDenying none "" [] =
      .error (.circularReference "#/definitions/A") :=
  ⟨by cbv, by cbv, by cbv⟩

open Sample in
/-- That is so because the definition checks itself. -/
theorem selfDenying_checksItself :
    reportsWithin 4 (.str "a") selfDenying none "" [] = .ok [tooShort] ∧
    selfDenying.ChecksItself (some selfDenying) "#/definitions/A" := by
  have hends : reportsWithin 4 (.str "a") selfDenying none "" [] = .ok [tooShort] := by cbv
  have hstopped : run (.str "a") selfDenying none "" [] =
      ⟨[tooShort], some (.circularReference "#/definitions/A")⟩ := by cbv
  obtain ⟨hrun, -⟩ | ⟨ref, found, rest, -, -, hrun, -, hchecks⟩ :=
    reports_guarded (.str "a") selfDenying none "" [] hends
  · cases hstopped.symm.trans hrun
  · cases hstopped.symm.trans hrun
    exact ⟨hends, hchecks⟩

end Evaluation

end Conform
