import Conform.Proofs.Termination
import Mathlib.Data.Nat.Find

/-!
# Conform.Proofs.CycleGuard

The guard refuses a reference that is met again on its chain. Without it evaluation is the same
table of rules, which a budget of steps has to stop (`acceptsWithin`). The main statement is that
the guard is exact: where evaluation without it ends within some budget, the guard changes
nothing, and it refuses just what ends within no budget. So a definition that is reached twice
side by side, or again for a part of the value, is never refused.

Two evaluations are compared by `Trace.Settles`: the first has a fault of a given kind, or both
have one verdict. That fewer steps, or a longer chain, do not lead to another verdict is one
induction (`settles_descend`). The guard needs a second one. Whatever is on a chain leads to
evaluations that are not over yet (`Pending`), so a reference that is refused there is one that
evaluation without the guard is lost in.

A schema may also be checked behind a chain of which nothing is known. There a reference of the
chain may be refused for no reason, and this is all that can go wrong (`settlesUnless_guarded`).
-/

namespace Conform

/-! ## Verdicts -/

namespace Trace

variable {α : Type}

/-- A reading whose verdict is a fault of a given kind, or that of another reading. -/
def Settles (kind : Fault → Prop) (t u : Trace α) : Prop :=
  (∃ f, kind f ∧ t.verdict = .error f) ∨ t.verdict = u.verdict

theorem Settles.stop {kind : Fault → Prop} {f : Fault} (h : kind f) (u : Trace α) :
    Settles kind (stop f) u :=
  .inl ⟨f, h, rfl⟩

/-- With no fault of the kind the verdicts are one. -/
theorem Settles.eq_of_ne {f : Fault} {t u : Trace α} (h : Settles (· = f) t u)
    (ht : t.verdict ≠ .error f) : t.verdict = u.verdict := by
  obtain ⟨_, rfl, hf⟩ | heq := h
  · exact absurd hf ht
  · exact heq

/-- Readings that settle as far as the first one has a budget for it, unless a bad fault is the
verdict of the second. -/
def SettlesUnless (bad : Fault → Prop) (t u : Trace α) : Prop :=
  Settles (· = .exhausted) t u ∨ ∃ f, bad f ∧ u.verdict = .error f

end Trace

namespace Evaluation

/-- A relation between verdicts is kept by rules if verdicts that it relates differ by a fault only,
on either side, that stands for any verdict. -/
theorem congruence_verdict {R : Except Fault Bool → Except Fault Bool → Prop}
    (hrefl : ∀ r, R r r)
    (hgap : ∀ r s, R r s → r = s ∨ (∃ f, r = .error f ∧ ∀ s, R (.error f) s) ∨
      ∃ f, s = .error f ∧ ∀ r, R r (.error f)) :
    Congruence fun _ _ t u => R t.verdict u.verdict where
  done := hrefl _
  stop _ := hrefl _
  violation _ _ _ _ := hrefl _
  demanded _ _ _ _ := hrefl _
  andThen {p q t u t' u'} h h' := by
    rw [Trace.verdict_andThen, Trace.verdict_andThen]
    obtain heq | ⟨f, ht, hany⟩ | ⟨f, hu, hany⟩ := hgap _ _ h
    · rw [heq]
      cases u.verdict with
      | error f => exact hrefl _
      | ok b =>
        cases b
        · exact hrefl _
        · exact h'
    · rw [ht]
      exact hany _
    · rw [hu]
      exact hany _
  summary {p q t u t' u'} h _ := by
    rw [verdict_summary, verdict_summary]
    exact h
  name _ h := h
  index _ h := h
  ask {p q t u k k'} h h' := by
    rw [Trace.verdict_after, Trace.verdict_after]
    obtain heq | ⟨f, ht, hany⟩ | ⟨f, hu, hany⟩ := hgap _ _ h
    · rw [heq]
      cases u.verdict with
      | error f => exact hrefl _
      | ok b => exact h' b
    · rw [ht]
      exact hany _
    · rw [hu]
      exact hany _

/-- Rules keep their verdict where what they ask for does. -/
theorem congruence_settles (kind : Fault → Prop) :
    Congruence fun _ _ t u => Trace.Settles kind t u := by
  refine congruence_verdict (R := fun r s => (∃ f, kind f ∧ r = .error f) ∨ r = s)
    (fun r => .inr rfl) fun r s h => ?_
  obtain ⟨f, hf, hr⟩ | heq := h
  · exact .inr (.inl ⟨f, hr, fun _ => .inl ⟨f, hf, rfl⟩⟩)
  · exact .inl heq

theorem congruence_settlesUnless (bad : Fault → Prop) :
    Congruence fun _ _ t u => Trace.SettlesUnless bad t u := by
  refine congruence_verdict
    (R := fun r s => ((∃ f : Fault, f = .exhausted ∧ r = .error f) ∨ r = s) ∨
      ∃ f, bad f ∧ s = .error f) (fun r => .inl (.inr rfl)) fun r s h => ?_
  obtain (⟨f, hf, hr⟩ | heq) | ⟨f, hf, hs⟩ := h
  · exact .inr (.inl ⟨f, hr, fun _ => .inl (.inl ⟨f, hf, rfl⟩)⟩)
  · exact .inl heq
  · exact .inr (.inr ⟨f, hs, fun _ => .inr ⟨f, hf, rfl⟩⟩)

/-! ## Fewer steps and longer chains -/

/-- Faults of a kind are what fewer steps come to, and a longer chain where it is guarded. -/
structure CoversDepth (kind : Fault → Prop) (scope scope' : Scope) : Prop where
  root : scope.root = scope'.root
  formats : scope.formats = scope'.formats
  exhausted : kind .exhausted
  circular (h : scope.guarded = true) (ref : String) : kind (.circularReference ref)

/-- The chain of the second evaluation refuses nothing that the chain of the first does not. -/
def Laxer (scope scope' : Scope) (chain chain' : List String) : Prop :=
  scope'.guarded = true → scope.guarded = true ∧ chain' ⊆ chain

theorem Laxer.nil {scope scope' : Scope} {chain chain' : List String}
    (h : Laxer scope scope' chain chain') : Laxer scope scope' [] [] := fun hguard =>
  ⟨(h hguard).1, List.Subset.refl _⟩

theorem Laxer.lengthen {scope scope' : Scope} {chain chain' : List String}
    (h : Laxer scope scope' chain chain') (ref : Json) :
    Laxer scope scope' (Pointer.lengthen chain ref) (Pointer.lengthen chain' ref) := by
  intro hguard
  obtain ⟨hguard', hsub⟩ := h hguard
  exact ⟨hguard', Pointer.lengthen_subset hsub ref⟩

/-- What the first chain permits the second one does, and it refuses nothing but a text that
is on it. -/
theorem Laxer.permit {scope scope' : Scope} {chain chain' : List String}
    (h : Laxer scope scope' chain chain') (ref : Json) :
    (∃ s, scope.guarded = true ∧
        Pointer.permit scope.guarded ref chain = .error (.circularReference s)) ∨
      Pointer.permit scope.guarded ref chain = Pointer.permit scope'.guarded ref chain' := by
  cases ref with
  | str s =>
    cases hpermit : Pointer.permit scope.guarded (.str s) chain with
    | ok u =>
      have hfree := Pointer.permit_eq_ok_iff.mp hpermit
      have hfree' : scope'.guarded = true → s ∉ chain' := by
        intro hguard hmem
        exact hfree (h hguard).1 ((h hguard).2 hmem)
      exact .inr (Pointer.permit_eq_ok_iff.mpr hfree').symm
    | error f =>
      obtain ⟨r, -, -, hguard, rfl⟩ | ⟨htext, -⟩ := Pointer.permit_eq_error hpermit
      · exact .inl ⟨r, hguard, rfl⟩
      · exact absurd rfl (htext s)
  | _ => exact .inr rfl

variable [Host] in
/-- Fewer steps behind a longer chain lead to the same verdict, or to a fault of depth. -/
theorem settles_descend {kind : Fault → Prop} {scope scope' : Scope}
    (hcovers : CoversDepth kind scope scope') {n m : Nat} (hle : n ≤ m) (value schema : Json)
    (p q : String) {chain chain' : List String} (hchain : Laxer scope scope' chain chain') :
    Trace.Settles kind (descend scope n value schema p chain)
      (descend scope' m value schema q chain') := by
  induction n generalizing m value schema p q chain chain' with
  | zero => exact .stop hcovers.exhausted _
  | succ n ih =>
    obtain ⟨m, rfl⟩ : ∃ k, m = k + 1 := ⟨m - 1, by omega⟩
    have hle' : n ≤ m := by omega
    have hQ := congruence_settles kind
    refine hQ.step hcovers.formats ?again ?into ?follow
    case again => exact fun _ _ _ _ _ s _ p q => ih hle' value s p q hchain
    case into => exact fun _ _ _ _ _ v _ s _ p q => ih hle' v s p q hchain.nil
    case follow =>
      intro ms ref _ _
      obtain ⟨s, hguard, hrefused⟩ | hpermit := hchain.permit ref
      · rw [followRule, hrefused]
        exact .stop (hcovers.circular hguard s) _
      · refine hQ.followRule hcovers.root hpermit (fun f _ => .inr rfl) fun _ target _ => ?_
        exact ih hle' value target p q (hchain.lengthen ref)

/-! ## Evaluation without the guard -/

end Evaluation

/-- The same context without the guard of references. -/
def Scope.unguarded (scope : Scope) : Scope := { scope with guarded := false }

namespace Evaluation

variable [Host] in
/-- Whether a schema accepts a value, without the guard of references and in a number of steps. -/
def acceptsWithin (n : Nat) (value schema : Json) (root : Option Json) (formats : Formats) :
    Except Fault Bool :=
  (descend (scopeFor schema root formats).unguarded n value schema "" []).verdict

variable {scope : Scope} {value schema : Json}

theorem Laxer.unguarded (scope scope' : Scope) (chain chain' : List String) :
    Laxer scope scope'.unguarded chain chain' := nofun

theorem coversDepth_unguarded (scope : Scope) :
    CoversDepth (· = .exhausted) scope.unguarded scope.unguarded where
  root := rfl
  formats := rfl
  exhausted := rfl
  circular := nofun

section

variable [Host]

/-- Without the guard more steps, another place and another chain lead to the same verdict. -/
theorem settles_unguarded (scope : Scope) (value schema : Json) {n m : Nat} (hle : n ≤ m)
    (p q : String) (chain chain' : List String) :
    Trace.Settles (· = .exhausted) (descend scope.unguarded n value schema p chain)
      (descend scope.unguarded m value schema q chain') :=
  settles_descend (coversDepth_unguarded scope) hle value schema p q
    (Laxer.unguarded scope.unguarded scope chain chain')

/-- An evaluation without the guard that ends has the same verdict behind every chain, and with
any more steps. -/
theorem verdict_unguarded {n m : Nat} (hle : n ≤ m) {p q : String} {chain chain' : List String}
    (h : (descend scope.unguarded n value schema p chain).verdict ≠ .error .exhausted) :
    (descend scope.unguarded m value schema q chain').verdict =
      (descend scope.unguarded n value schema p chain).verdict :=
  ((settles_unguarded scope value schema hle p q chain chain').eq_of_ne h).symm

/-- An evaluation without the guard that does not end does so at no place and behind no chain. -/
theorem verdict_unguarded_exhausted {n : Nat} (p : String) (chain : List String)
    (h : (descend scope.unguarded n value schema "" []).verdict = .error .exhausted) :
    (descend scope.unguarded n value schema p chain).verdict = .error .exhausted := by
  obtain ⟨_, rfl, hf⟩ | heq :=
    settles_unguarded scope value schema (Nat.le_refl n) p "" chain []
  · exact hf
  · exact heq.trans h

/-- Without the guard no reference is refused as circular. -/
theorem fault_unguarded_ne_circular (scope : Scope) (value schema : Json) (n : Nat) (p : String)
    (chain : List String) :
    ∀ f, (descend scope.unguarded n value schema p chain).fault = some f →
      ¬ ∃ ref, f = .circularReference ref := by
  have hbad : ∀ f : Fault, (∃ ref, f = .circularReference ref) → f.isOfDepth = true := by
    intro f hf
    obtain ⟨ref, rfl⟩ := hf
    rfl
  have hQ := congruence_avoids hbad
  induction n generalizing value schema p chain with
  | zero =>
    intro f hf hcircular
    obtain ⟨_, rfl⟩ := hcircular
    cases hf
  | succ n ih =>
    -- compared with itself, evaluation is related to itself and so avoids these faults
    suffices h : p = p → descend scope.unguarded (n + 1) value schema p chain =
        descend scope.unguarded (n + 1) value schema p chain ∧
          ∀ f, (descend scope.unguarded (n + 1) value schema p chain).fault = some f →
            ¬ ∃ ref, f = .circularReference ref from (h rfl).2
    refine hQ.step rfl ?again ?into ?follow
    case again => exact fun _ _ _ _ _ s _ p q hpq => ⟨by rw [hpq], ih value s p chain⟩
    case into => exact fun _ _ _ _ _ v _ s _ p q hpq => ⟨by rw [hpq], ih v s p []⟩
    case follow =>
      intro ms ref _ _
      refine hQ.followRule rfl rfl (fun f hf _ => ⟨rfl, ?_⟩) fun _ target _ hpq => ?_
      · intro g hg hcircular
        obtain ⟨r, rfl⟩ := hcircular
        cases hg
        obtain ⟨_, -, -, hguard, -⟩ | ⟨-, hkind⟩ := Pointer.permit_eq_error hf
        · cases hguard
        · cases hkind
      · exact ⟨by rw [hpq], ih value target p _⟩

/-! ## The guard -/

/-- Whatever is on a chain leads to evaluations of the value that no budget below a number ends,
without the guard. -/
def Pending (scope : Scope) (n : Nat) (value : Json) (chain : List String) : Prop :=
  ∀ ref ∈ chain, ∃ target, referred scope (.str ref) = .ok target ∧
    ∀ k < n, (descend scope.unguarded k value target "" []).verdict = .error .exhausted

theorem Pending.nil (scope : Scope) (n : Nat) (value : Json) : Pending scope n value [] := nofun

theorem Pending.mono {n k : Nat} {chain : List String} (h : Pending scope n value chain)
    (hle : k ≤ n) : Pending scope k value chain := by
  intro ref hmem
  obtain ⟨target, htarget, hopen⟩ := h ref hmem
  exact ⟨target, htarget, fun j hj => hopen j (Nat.lt_of_lt_of_le hj hle)⟩

theorem Pending.cons {n : Nat} {ref : String} {target : Json} {chain : List String}
    (htarget : referred scope (.str ref) = .ok target)
    (hopen : ∀ k < n, (descend scope.unguarded k value target "" []).verdict = .error .exhausted)
    (h : Pending scope n value chain) : Pending scope n value (ref :: chain) := by
  intro r hmem
  obtain rfl | hmem := List.mem_cons.mp hmem
  · exact ⟨target, htarget, hopen⟩
  · exact h r hmem

/-- An evaluation that ends has a least budget to end in. -/
theorem exists_least_budget {n : Nat}
    (h : (descend scope.unguarded n value schema "" []).verdict ≠ .error .exhausted) :
    ∃ k ≤ n, (descend scope.unguarded k value schema "" []).verdict ≠ .error .exhausted ∧
      ∀ j < k, (descend scope.unguarded j value schema "" []).verdict = .error .exhausted := by
  have hex : ∃ k, (descend scope.unguarded k value schema "" []).verdict ≠ .error .exhausted :=
    ⟨n, h⟩
  exact ⟨Nat.find hex, Nat.find_min' hex h, Nat.find_spec hex,
    fun j hj => not_not.mp (Nat.find_min hex hj)⟩

/-- Following a reference with the guard, if it is followed at all, leads where following it
without the guard does. The chain behind the reference is pending for the least budget in which
its target is over, and below that budget the claim is known. -/
theorem settlesUnless_target {bad : Fault → Prop} {n m : Nat} {ref : String} {target : Json}
    {p q : String} {chain inner outer : List String}
    (htarget : referred scope (.str ref) = .ok target) (hpending : Pending scope n value inner)
    (ih : ∀ k ≤ n, ∀ inner, Pending scope k value inner →
      Trace.SettlesUnless bad (descend scope.unguarded k value target p chain)
        (descend scope m value target q (inner ++ outer))) :
    Trace.SettlesUnless bad (descend scope.unguarded n value target p chain)
      (descend scope m value target q (ref :: inner ++ outer)) := by
  by_cases hend : (descend scope.unguarded n value target "" []).verdict = .error .exhausted
  · exact .inl (.inl ⟨.exhausted, rfl, verdict_unguarded_exhausted p chain hend⟩)
  · obtain ⟨k, hk, hdone, hopen⟩ := exists_least_budget hend
    have hdone' : (descend scope.unguarded k value target p chain).verdict ≠ .error .exhausted := by
      rw [verdict_unguarded (Nat.le_refl k) hdone]
      exact hdone
    obtain hsettles | hbad := ih k hk _ (.cons htarget hopen (hpending.mono hk))
    · have hleast := hsettles.eq_of_ne hdone'
      exact .inl (.inr ((verdict_unguarded hk hdone').trans hleast))
    · exact .inr hbad

/-- Evaluation without the guard is lost in a reference that is on a pending chain. -/
theorem followRule_lost {n : Nat} {r : String} {chain chain' : List String} (p : String)
    (hpending : Pending scope (n + 1) value chain') (hmem : r ∈ chain') :
    (followRule scope.unguarded (descend scope.unguarded n) (.str r) value p chain).verdict =
      .error .exhausted := by
  obtain ⟨target, htarget, hopen⟩ := hpending r hmem
  have htarget' : referred scope.unguarded (.str r) = .ok target := htarget
  have hfollow : followRule scope.unguarded (descend scope.unguarded n) (.str r) value p chain =
      descend scope.unguarded n value target p (r :: chain) := by
    rw [followRule, htarget']
    rfl
  rw [hfollow]
  exact verdict_unguarded_exhausted p (r :: chain) (hopen n (Nat.lt_succ_self n))

/-- Evaluation does not differ by the guard, as far as it ends without, where the inner part of the
chain is pending. In the outer part there may be anything: what is refused because of it is a
reference that one comes to from the schema at hand, for the same value. -/
theorem settlesUnless_guarded (scope : Scope) {bad : Fault → Prop} {n m : Nat} (hle : n ≤ m)
    (value schema : Json) (p q : String) (chain inner outer : List String)
    (hinner : Pending scope n value inner)
    (houter : ∀ r ∈ outer, schema.ComesTo scope.root r → bad (.circularReference r)) :
    Trace.SettlesUnless bad (descend scope.unguarded n value schema p chain)
      (descend scope m value schema q (inner ++ outer)) := by
  induction n using Nat.strongRecOn generalizing m value schema p q chain inner outer with
  | ind n ih =>
    cases n with
    | zero => exact .inl (.inl ⟨_, rfl, rfl⟩)
    | succ n =>
      obtain ⟨m, rfl⟩ : ∃ k, m = k + 1 := ⟨m - 1, by omega⟩
      have hle' : n ≤ m := by omega
      have hlt := Nat.lt_succ_self n
      have hQ := congruence_settlesUnless bad
      refine hQ.step rfl ?again ?into ?follow
      case again =>
        intro ms node hms href hnode s hs p q
        subst hms
        exact ih n hlt hle' value s p q chain inner outer (hinner.mono (Nat.le_succ n))
          fun r hr hback => houter r hr (hback.head (.again (.keywords href hnode) hs))
      case into =>
        intro _ _ _ _ _ v _ s _ p q
        exact ih n hlt hle' v s p q [] [] [] (.nil scope n v) (List.forall_mem_nil _)
      case follow =>
        intro ms ref hms href
        subst hms
        cases ref with
        | str r =>
          by_cases hmem : r ∈ inner
          · exact .inl (.inl ⟨.exhausted, rfl, followRule_lost p hinner hmem⟩)
          · cases hpermit : Pointer.permit scope.guarded (.str r) (inner ++ outer) with
            | error f =>
              -- not on the inner part: so it is the outer part that the reference is refused for
              obtain ⟨_, hr, heq, -, rfl⟩ | ⟨htext, -⟩ := Pointer.permit_eq_error hpermit
              · cases heq
                have hr' := (List.mem_append.mp hr).resolve_left hmem
                refine .inr ⟨_, houter r hr' (.here href), ?_⟩
                rw [followRule, hpermit]
                rfl
              · exact absurd rfl (htext r)
            | ok u =>
              have hfree : Pointer.permit scope.unguarded.guarded (.str r) chain = .ok () :=
                Pointer.permit_eq_ok_iff.mpr fun hguard => absurd hguard Bool.false_ne_true
              refine hQ.followRule rfl (hfree.trans hpermit.symm) (fun f _ => .inl (.inr rfl))
                fun _ target htarget => ?_
              refine settlesUnless_target htarget (hinner.mono (Nat.le_succ n)) ?_
              -- the target is taken with the least budget it needs, not with the next smaller one
              intro k hk inner' hinner'
              exact ih k (Nat.lt_succ_of_le hk) (Nat.le_trans hk hle') value target p q (r :: chain)
                inner' outer hinner' fun r' hr' hback =>
                  houter r' hr' (hback.head (.follow (refersTo_of_referred href htarget)))
        | _ =>
          refine hQ.followRule rfl rfl (fun f _ => .inl (.inr rfl)) fun _ target htarget => ?_
          obtain ⟨_, h⟩ := Call.exists_text_of_referred htarget
          cases h

/-- Evaluation behind a pending chain does not differ by the guard, as far as it ends without. -/
theorem settles_guarded (scope : Scope) {n m : Nat} (hle : n ≤ m) (value schema : Json)
    (p q : String) (chain chain' : List String) (hpending : Pending scope n value chain') :
    Trace.Settles (· = .exhausted) (descend scope.unguarded n value schema p chain)
      (descend scope m value schema q chain') := by
  have h : Trace.SettlesUnless (fun _ => False) (descend scope.unguarded n value schema p chain)
      (descend scope m value schema q (chain' ++ [])) :=
    settlesUnless_guarded scope hle value schema p q chain chain' [] hpending nofun
  rw [List.append_nil] at h
  exact h.resolve_right nofun

end

/-! ## Whole evaluations -/

variable (value schema : Json) (root : Option Json) (formats : Formats)

section

variable [Host]

/-- Where evaluation without the guard ends, evaluation has its verdict. -/
theorem settles_accepts (n : Nat) :
    (∃ f, f = .exhausted ∧ acceptsWithin n value schema root formats = .error f) ∨
      acceptsWithin n value schema root formats = Conform.accepts value schema root formats := by
  have h := settles_guarded (scopeFor schema root formats)
    (Nat.le_max_left n (budget value schema (scopeFor schema root formats).root)) value schema
    "" "" [] [] (.nil _ n value)
  rw [descend_eq_run value schema root "" formats (Nat.le_max_right n _)] at h
  exact h

/-- Where evaluation ends, evaluation without the guard has its verdict. -/
theorem accepts_settles :
    (∃ f : Fault, f.isOfDepth = true ∧ Conform.accepts value schema root formats = .error f) ∨
      Conform.accepts value schema root formats =
        acceptsWithin (budget value schema (scopeFor schema root formats).root) value schema root
          formats := by
  have hcovers : CoversDepth (fun f => f.isOfDepth = true) (scopeFor schema root formats)
      (scopeFor schema root formats).unguarded :=
    ⟨rfl, rfl, rfl, fun _ _ => rfl⟩
  exact settles_descend hcovers (Nat.le_refl _) value schema "" ""
    (Laxer.unguarded _ (scopeFor schema root formats) [] [])

theorem accepts_ne_exhausted : Conform.accepts value schema root formats ≠ .error .exhausted := by
  intro h
  have hstop := (Trace.verdict_eq_error_iff _ _).mp h
  exact fault_run_ne_exhausted value schema root "" formats (by rw [hstop]; rfl)

theorem acceptsWithin_ne_circular (n : Nat) (ref : String) :
    acceptsWithin n value schema root formats ≠ .error (.circularReference ref) := by
  intro h
  have hstop := (Trace.verdict_eq_error_iff _ _).mp h
  exact fault_unguarded_ne_circular (scopeFor schema root formats) value schema n "" []
    (.circularReference ref) (by rw [hstop]; rfl) ⟨ref, rfl⟩

/-- The guard of references is exact. Where evaluation without it ends within some number of
steps, with a boolean or a fault, evaluation has the same outcome; and a reference is refused as
circular just where evaluation without the guard ends within no number of steps. -/
theorem guard_exact :
    (∀ n, acceptsWithin n value schema root formats ≠ .error .exhausted →
      Conform.accepts value schema root formats = acceptsWithin n value schema root formats) ∧
    ((∃ ref, Conform.accepts value schema root formats = .error (.circularReference ref)) ↔
      ∀ n, acceptsWithin n value schema root formats = .error .exhausted) := by
  have hends : ∀ n, acceptsWithin n value schema root formats ≠ .error .exhausted →
      Conform.accepts value schema root formats = acceptsWithin n value schema root formats := by
    intro n hn
    obtain ⟨_, rfl, h⟩ | h := settles_accepts value schema root formats n
    · exact absurd h hn
    · exact h.symm
  refine ⟨hends, ?refused, ?lost⟩
  case refused =>
    intro hrefused n
    obtain ⟨ref, href⟩ := hrefused
    by_contra hn
    rw [hends n hn] at href
    exact acceptsWithin_ne_circular value schema root formats n ref href
  case lost =>
    intro hlost
    have hdepth : ∃ f : Fault, f.isOfDepth = true ∧
        Conform.accepts value schema root formats = .error f := by
      obtain h | h := accepts_settles value schema root formats
      · exact h
      · exact ⟨.exhausted, rfl, h.trans (hlost _)⟩
    obtain ⟨f, hf, haccepts⟩ := hdepth
    cases f with
    | circularReference ref => exact ⟨ref, haccepts⟩
    | exhausted => exact absurd haccepts (accepts_ne_exhausted value schema root formats)
    | _ => cases hf

end

open Sample in
/-- A definition that is reached twice side by side is no circle. -/
example :
    Conform.accepts (.str "a")
      (.obj [("$defs", .obj [("word", .obj [("type", .str "string")])]),
        ("allOf", .arr [.obj [("$ref", .str "#/$defs/word")],
          .obj [("$ref", .str "#/$defs/word")]])])
      none [] = .ok true := by
  cbv

open Sample in
/-- A schema that refers to itself for the same value is one. -/
example :
    Conform.accepts (.str "a") (.obj [("$ref", .str "#")]) none [] =
      .error (.circularReference "#") := by
  rfl

end Evaluation

end Conform
