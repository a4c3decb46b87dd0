import Conform.Proofs.Inlining
import Conform.Proofs.Termination
import Mathlib.Data.Nat.Find

/-!
# Conform.Proofs.InliningGuard

Replacing references refuses a reference that is met again below what it led to. Without this guard
replacing is the same recursion, which a budget of steps has to stop (`inlinedWithin`). The main
statement is that the guard is exact: replacing always ends, it gives what replacing without the
guard gives within some budget, and it refuses a reference just where that ends within no budget.

What was followed counts for one branch only. So the schemas inside an object are replaced as if
each stood alone, and two of them may lead to one definition.

```
again     a schema inside the schema, behind the same references
follow    what a reference leads to, behind one more reference
```

Two runs are compared by relations that go through steps made one after the other (`Stepwise`), so
what one object does with the schemas inside it is looked at once (`Stepwise.keywords`).
-/

namespace Conform

/-! ## Two computations beside each other -/

/-- A relation between computations that goes through steps made one after the other. -/
structure Stepwise (Q : {α : Type} → (r s : Except Fault α) → Prop) : Prop where
  ok {α : Type} (x : α) : Q (.ok x) (.ok x)
  bind {α β : Type} {r s : Except Fault α} {k l : α → Except Fault β} (h : Q r s)
    (hk : ∀ x, r = .ok x → Q (k x) (l x)) : Q (r >>= k) (s >>= l)

/-- The first computation has a fault of a kind, or does what the second does. -/
def SameUnless (kind : Fault → Prop) {α : Type} (r s : Except Fault α) : Prop :=
  (∃ f, kind f ∧ r = .error f) ∨ r = s

/-- The two computations are one, and it has no fault of a kind. -/
def SameWithout (kind : Fault → Prop) {α : Type} (r s : Except Fault α) : Prop :=
  r = s ∧ ∀ f, r = .error f → ¬ kind f

theorem SameUnless.refl {α : Type} (kind : Fault → Prop) (r : Except Fault α) :
    SameUnless kind r r := .inr rfl

theorem SameUnless.error {α : Type} {kind : Fault → Prop} {f : Fault} (h : kind f)
    (s : Except Fault α) : SameUnless kind (.error f) s := .inl ⟨f, h, rfl⟩

/-- With no fault of the kind the two are one. -/
theorem SameUnless.eq_of_ne {α : Type} {f : Fault} {r s : Except Fault α}
    (h : SameUnless (· = f) r s) (hr : r ≠ .error f) : r = s := by
  obtain ⟨_, rfl, hf⟩ | heq := h
  · exact absurd hf hr
  · exact heq

theorem stepwise_sameUnless (kind : Fault → Prop) : Stepwise (SameUnless kind) where
  ok x := .refl kind _
  bind {α β r s k l} h hk := by
    obtain ⟨f, hf, rfl⟩ | rfl := h
    · exact .error hf _
    · cases r with
      | error f => exact .refl kind _
      | ok x => exact hk x rfl

theorem stepwise_sameWithout (kind : Fault → Prop) : Stepwise (SameWithout kind) where
  ok x := ⟨rfl, nofun⟩
  bind {α β r s k l} h hk := by
    obtain ⟨rfl, hr⟩ := h
    cases r with
    | error f => exact ⟨rfl, fun g hg => by cases hg; exact hr f rfl⟩
    | ok x => exact hk x rfl

/-! ## The schemas that an object holds -/

namespace Inline

/-- The schemas in the value of a keyword. -/
def Shape.held : Shape → Json → List Json
  | .table, .obj ms => ms.map Prod.snd
  | .list, .arr xs => xs
  | .listOrOne, .arr xs => xs
  | .listOrOne, j => [j]
  | .one, j => [j]
  | _, _ => []

theorem Shape.held_alone {j : Json} (h : ∀ xs, j ≠ .arr xs) : Shape.listOrOne.held j = [j] := by
  cases j with
  | arr xs => exact absurd rfl (h xs)
  | _ => rfl

/-- The schemas that the keywords of an object hold. -/
def held (shapes : Table Shape) (ms : Members) : List Json :=
  shapes.flatMap fun (k, shape) => ((ms.lookup k).map shape.held).getD []

theorem held_cons (k : String) (shape : Shape) (shapes : Table Shape) (ms : Members) :
    held ((k, shape) :: shapes) ms =
      ((ms.lookup k).map shape.held).getD [] ++ held shapes ms :=
  List.flatMap_cons

/-- A keyword holds nothing of what is put under another name. -/
theorem held_put {k : String} {shapes : Table Shape} (hk : k ∉ shapes.map Prod.fst) (ms : Members)
    (j : Json) : held shapes (Table.put ms k j) = held shapes ms := by
  induction shapes with
  | nil => rfl
  | cons e shapes ih =>
    obtain ⟨l, shape⟩ := e
    rw [List.map_cons, List.mem_cons, not_or] at hk
    rw [held_cons, held_cons, ih hk.2, Table.lookup_put_of_ne (Ne.symm hk.1)]

theorem Shape.within_of_mem_held {ms : Members} {shape : Shape} {j s : Json} (hj : Within ms j)
    (hs : s ∈ shape.held j) : Within ms s := by
  unfold Shape.held at hs
  split at hs
  · obtain ⟨⟨k, x⟩, hx, rfl⟩ := List.mem_map.mp hs
    exact hj.of_member hx
  · exact hj.of_item hs
  · exact hj.of_item hs
  · exact List.mem_singleton.mp hs ▸ hj
  · exact List.mem_singleton.mp hs ▸ hj
  · cases hs

theorem nodup_positions : (positions.map Prod.fst).Nodup := by decide

/-- A schema that an object holds lies inside it. -/
theorem within_of_mem_held {shapes : Table Shape} {ms : Members} {s : Json}
    (hs : s ∈ held shapes ms) : Within ms s := by
  obtain ⟨⟨k, shape⟩, -, hs⟩ := List.mem_flatMap.mp hs
  dsimp only at hs
  cases hk : ms.lookup k with
  | none =>
    rw [hk] at hs
    cases hs
  | some j =>
    rw [hk] at hs
    exact Shape.within_of_mem_held (.member (mem_of_lookup hk)) hs

end Inline

namespace Stepwise

variable {Q : {α : Type} → (r s : Except Fault α) → Prop} {f g : Json → Except Fault Json}

theorem map (hQ : Stepwise Q) {α β : Type} {r s : Except Fault α} (k : α → β) (h : Q r s) :
    Q (r.map k) (s.map k) := by
  have hmap : ∀ t : Except Fault α, t.map k = t >>= fun x => .ok (k x) := by
    intro t
    cases t <;> rfl
  rw [hmap, hmap]
  exact hQ.bind h fun x _ => hQ.ok (k x)

theorem items (hQ : Stepwise Q) {xs : List Json} (h : ∀ x ∈ xs, Q (f x) (g x)) :
    Q (Inline.items f xs) (Inline.items g xs) := by
  induction xs with
  | nil => exact hQ.ok _
  | cons x xs ih =>
    refine hQ.bind (h x List.mem_cons_self) fun y _ => ?_
    exact hQ.bind (ih fun y hy => h y (List.mem_cons_of_mem _ hy)) fun ys _ => hQ.ok _

theorem members (hQ : Stepwise Q) {ms : Members} (h : ∀ x ∈ ms.map Prod.snd, Q (f x) (g x)) :
    Q (Inline.members f ms) (Inline.members g ms) := by
  induction ms with
  | nil => exact hQ.ok _
  | cons m ms ih =>
    obtain ⟨k, x⟩ := m
    refine hQ.bind (h x List.mem_cons_self) fun y _ => ?_
    exact hQ.bind (ih fun y hy => h y (List.mem_cons_of_mem _ hy)) fun ys _ => hQ.ok _

theorem replace (hQ : Stepwise Q) (shape : Inline.Shape) {j : Json}
    (h : ∀ x ∈ shape.held j, Q (f x) (g x)) : Q (shape.replace f j) (shape.replace g j) := by
  unfold Inline.Shape.replace
  split
  · exact hQ.map _ (hQ.members h)
  · exact hQ.map _ (hQ.items h)
  · exact hQ.map _ (hQ.items h)
  · next hlist =>
    rw [Inline.Shape.held_alone hlist] at h
    exact h _ List.mem_cons_self
  · exact h _ List.mem_cons_self
  · exact hQ.ok _

/-- Replacing the schemas that an object holds keeps a relation that holds for each of them. -/
theorem keywords (hQ : Stepwise Q) {shapes : Table Inline.Shape}
    (hnodup : (shapes.map Prod.fst).Nodup) {ms : Members}
    (h : ∀ s ∈ Inline.held shapes ms, Q (f s) (g s)) :
    Q (Inline.keywords f shapes ms) (Inline.keywords g shapes ms) := by
  induction shapes generalizing ms with
  | nil => exact hQ.ok _
  | cons e shapes ih =>
    obtain ⟨k, shape⟩ := e
    rw [List.map_cons, List.nodup_cons] at hnodup
    rw [Inline.held_cons] at h
    rw [Inline.keywords, Inline.keywords]
    cases hk : ms.lookup k with
    | none => exact ih hnodup.2 fun s hs => h s (List.mem_append_right _ hs)
    | some j =>
      rw [hk] at h
      refine hQ.bind (hQ.replace shape fun s hs => h s (List.mem_append_left _ hs)) fun j' _ => ?_
      -- what was put does not count for the keywords that are left
      refine ih hnodup.2 fun s hs => ?_
      rw [Inline.held_put hnodup.1] at hs
      exact h s (List.mem_append_right _ hs)

end Stepwise

namespace Inline

variable {root : Json} {guarded guarded' : Bool} {n m : Nat} {chain chain' : List String}

/-! ## One step -/

theorem descend_reference {ms : Members} {ref : Json} (href : Table.keyword ms "$ref" = some ref) :
    descend guarded root (n + 1) (.obj ms) chain =
      (Pointer.permit guarded ref chain >>= fun _ => Pointer.resolve ref root >>= fun target =>
        descend guarded root n target (Pointer.lengthen chain ref)) := by
  simp only [descend, href]

theorem descend_object {ms : Members} (href : Table.keyword ms "$ref" = none) :
    descend guarded root (n + 1) (.obj ms) chain =
      (keywords (fun s => descend guarded root n s chain) positions ms).map .obj := by
  simp only [descend, href]

/-- One step keeps a relation that holds wherever the step goes: to the schemas that an object
holds, or to what a reference leads to. -/
theorem stepwise_descend {Q : {α : Type} → (r s : Except Fault α) → Prop} (hQ : Stepwise Q)
    {schema : Json}
    (hheld : ∀ ms, schema = .obj ms → ∀ s ∈ held positions ms,
      Q (descend guarded root n s chain) (descend guarded' root m s chain'))
    (hfollow : ∀ ms ref, schema = .obj ms → Table.keyword ms "$ref" = some ref →
      Q (descend guarded root (n + 1) (.obj ms) chain)
        (descend guarded' root (m + 1) (.obj ms) chain')) :
    Q (descend guarded root (n + 1) schema chain)
      (descend guarded' root (m + 1) schema chain') := by
  cases schema with
  | obj ms =>
    cases href : Table.keyword ms "$ref" with
    | some ref => exact hfollow ms ref rfl href
    | none =>
      rw [descend_object href, descend_object href]
      exact hQ.map _ (hQ.keywords nodup_positions (hheld ms rfl))
  | _ => exact hQ.ok _

/-- Only a text leads anywhere. -/
theorem exists_text_of_resolve {ref target : Json} (h : Pointer.resolve ref root = .ok target) :
    ∃ r, ref = .str r := by
  cases ref with
  | str r => exact ⟨r, rfl⟩
  | _ => cases h

/-! ## Without the guard -/

/-- Without the guard a chain permits what it permits with it, and no text is refused. -/
theorem permit_sameUnless (guarded : Bool) (ref : Json) (chain chain' : List String) :
    SameUnless (fun f => guarded = true ∧ ∃ r, f = .circularReference r)
      (Pointer.permit guarded ref chain) (Pointer.permit false ref chain') := by
  cases ref with
  | str r =>
    cases hpermit : Pointer.permit guarded (.str r) chain with
    | error f =>
      obtain ⟨s, -, -, hguard, rfl⟩ | ⟨htext, -⟩ := Pointer.permit_eq_error hpermit
      · exact .inl ⟨_, ⟨hguard, s, rfl⟩, rfl⟩
      · exact absurd rfl (htext r)
    | ok u => exact .refl _ _
  | _ => exact .refl _ _

/-- Fewer steps lead to what more steps lead to without the guard, but for faults of depth. -/
theorem sameUnless_descend {kind : Fault → Prop} (hexhausted : kind .exhausted)
    (hcircular : guarded = true → ∀ r, kind (.circularReference r)) (hle : n ≤ m) (schema : Json)
    (chain chain' : List String) :
    SameUnless kind (descend guarded root n schema chain) (descend false root m schema chain') := by
  induction n generalizing m schema chain chain' with
  | zero => exact .error hexhausted _
  | succ n ih =>
    obtain ⟨m, rfl⟩ : ∃ k, m = k + 1 := ⟨m - 1, by omega⟩
    have hle' : n ≤ m := by omega
    have hQ := stepwise_sameUnless kind
    refine stepwise_descend hQ (fun _ _ s _ => ih hle' s chain chain') fun ms ref _ href => ?_
    rw [descend_reference href, descend_reference href]
    refine hQ.bind ?_ fun _ _ => hQ.bind (.refl kind _) fun target _ => ih hle' target _ _
    obtain ⟨f, ⟨hguard, r, rfl⟩, hpermit⟩ | hpermit := permit_sameUnless guarded ref chain chain'
    · exact .inl ⟨_, hcircular hguard r, hpermit⟩
    · exact .inr hpermit

/-- Replacing without the guard that ends gives the same behind every chain, and with any more
steps. -/
theorem descend_unguarded {schema : Json} (hle : n ≤ m)
    (h : descend false root n schema chain ≠ .error .exhausted) :
    descend false root m schema chain' = descend false root n schema chain := by
  have hsame : SameUnless (· = .exhausted) (descend false root n schema chain)
      (descend false root m schema chain') :=
    sameUnless_descend (by rfl) (fun hguard => absurd hguard Bool.false_ne_true) hle schema chain
      chain'
  exact (hsame.eq_of_ne h).symm

/-- Replacing without the guard that does not end does so behind no chain. -/
theorem descend_unguarded_exhausted {schema : Json}
    (h : descend false root n schema [] = .error .exhausted) :
    descend false root n schema chain = .error .exhausted := by
  by_contra hne
  exact hne ((descend_unguarded (Nat.le_refl n) hne).symm.trans h)

/-- Without the guard no reference is refused as circular. -/
theorem descend_unguarded_ne_circular (schema : Json) (n : Nat) (chain : List String) (r : String) :
    descend false root n schema chain ≠ .error (.circularReference r) := by
  have hQ := stepwise_sameWithout fun f => ∃ r, f = .circularReference r
  -- compared with itself, replacing is what it is and so has no fault of the kind
  suffices h : SameWithout (fun f => ∃ r, f = .circularReference r)
      (descend false root n schema chain) (descend false root n schema chain) from
    fun hf => h.2 _ hf ⟨r, rfl⟩
  induction n generalizing schema chain with
  | zero =>
    refine ⟨rfl, fun f hf hcircular => ?_⟩
    obtain ⟨r, rfl⟩ := hcircular
    cases hf
  | succ n ih =>
    refine stepwise_descend hQ (fun _ _ s _ => ih s chain) fun ms ref _ href => ?_
    rw [descend_reference href]
    refine hQ.bind ⟨rfl, fun f hf hcircular => ?_⟩ fun _ _ =>
      hQ.bind ⟨rfl, fun f hf hcircular => ?_⟩ fun target _ => ih target _
    · obtain ⟨r, rfl⟩ := hcircular
      obtain ⟨_, -, -, hguard, -⟩ | ⟨-, hkind⟩ := Pointer.permit_eq_error hf
      · cases hguard
      · cases hkind
    · obtain ⟨r, rfl⟩ := hcircular
      cases Pointer.shallow_resolve ref root _ hf

/-! ## Termination -/

/-- Replacing in one schema behind a chain, as a call: of no value, at no place. -/
def call (schema : Json) (chain : List String) : Evaluation.Call := ⟨.null, schema, "", chain⟩

/-- The context of a document, with its guard. -/
def scopeOf (root : Json) : Scope where
  root := some root

theorem rank_lt_of_mem_held (refs : List String) (height : Nat) {ms : Members} {s : Json}
    (chain : List String) (hs : s ∈ held positions ms) :
    (call s chain).rank refs height < (call (.obj ms) chain).rank refs height :=
  Evaluation.Call.rank_lt_of_within (within_of_mem_held hs)

theorem bounded_of_mem_held {refs : List String} {height : Nat} {ms : Members} {s : Json}
    (h : (call (.obj ms) chain).Bounded refs height) (hs : s ∈ held positions ms) :
    (call s chain).Bounded refs height :=
  h.of_within (within_of_mem_held hs) _ h.chain_subset h.chain_nodup

/-- A budget above the rank of a schema is not used up, and any other such budget does as well. -/
theorem descend_eq_of_rank_lt {refs : List String} {height : Nat}
    (hscope : Evaluation.Call.Bounds refs height (scopeOf root)) {schema : Json}
    (hschema : (call schema chain).Bounded refs height)
    (hn : (call schema chain).rank refs height < n)
    (hm : (call schema chain).rank refs height < m) :
    SameWithout (· = .exhausted) (descend true root n schema chain)
      (descend true root m schema chain) := by
  induction n generalizing m schema chain with
  | zero => omega
  | succ n ih =>
    obtain ⟨m, rfl⟩ : ∃ k, m = k + 1 := ⟨m - 1, by omega⟩
    have hQ := stepwise_sameWithout (· = .exhausted)
    refine stepwise_descend hQ (fun ms hms s hs => ?held) fun ms ref hms href => ?follow
    case held =>
      subst hms
      have hlt := rank_lt_of_mem_held refs height chain hs
      exact ih (bounded_of_mem_held hschema hs) (by omega) (by omega)
    case follow =>
      subst hms
      rw [descend_reference href, descend_reference href]
      refine hQ.bind ⟨rfl, fun f hf hexhausted => ?_⟩ fun _ hpermit =>
        hQ.bind ⟨rfl, fun f hf hexhausted => ?_⟩ fun target htarget => ?_
      · obtain ⟨_, -, -, -, hcircular⟩ | ⟨-, hkind⟩ := Pointer.permit_eq_error hf
        · cases hexhausted.symm.trans hcircular
        · cases hexhausted.symm.trans hkind
      · subst hexhausted
        cases Pointer.shallow_resolve ref root _ hf
      · obtain ⟨r, rfl⟩ := exists_text_of_resolve htarget
        have hopens : Evaluation.Call.Opens (scopeOf root) (call (.obj ms) chain)
            (call target (r :: chain)) := .follow href hpermit htarget
        have hlt := Evaluation.Call.rank_lt_of_opens hscope hschema hopens
        have hbounded := hschema.of_opens hscope hopens
        exact ih hbounded (Nat.lt_of_lt_of_le hlt (Nat.le_of_lt_succ hn))
          (Nat.lt_of_lt_of_le hlt (Nat.le_of_lt_succ hm))

theorem bounds_scopeOf (schema root : Json) :
    Evaluation.Call.Bounds (Evaluation.knownReferences schema (some root))
      (Pointer.schemaHeight schema (some root)) (scopeOf root) where
  guarded := rfl
  root := by
    intro doc hdoc
    cases hdoc
    exact ⟨Nat.le_max_right _ _, List.subset_append_right _ _⟩

/-- The number of steps that are made is above the rank that replacing begins with. -/
theorem rank_call_lt (schema root : Json) :
    (call schema []).rank (Evaluation.knownReferences schema (some root))
      (Pointer.schemaHeight schema (some root)) < Pointer.reach schema (some root) + 1 := by
  have hlt := Evaluation.rank_lt_budget .null schema "" (some root)
  have hnull : Json.null.height = 0 := rfl
  rw [Evaluation.budget, hnull, Nat.zero_add, Nat.one_mul] at hlt
  exact hlt

/-- Replacing ends, and no larger number of steps changes what it gives. -/
theorem sameWithout_inlined (schema root : Json) (hn : Pointer.reach schema (some root) < n) :
    SameWithout (· = .exhausted) (inlined schema root) (descend true root n schema []) := by
  have hrank := rank_call_lt schema root
  exact descend_eq_of_rank_lt (bounds_scopeOf schema root)
    (Evaluation.bounded_start .null schema "" (some root)) hrank (Nat.lt_of_lt_of_le hrank hn)

/-- The steps for an object are enough for the schemas that it holds. -/
theorem sameWithout_held (root : Json) {ms : Members} {s : Json} (hs : s ∈ held positions ms) :
    SameWithout (· = .exhausted) (descend true root (Pointer.reach (.obj ms) (some root)) s [])
      (inlined s root) := by
  have hbounded := bounded_of_mem_held (Evaluation.bounded_start .null (.obj ms) "" (some root)) hs
  have hrank := rank_call_lt (.obj ms) root
  have hlt := rank_lt_of_mem_held (Evaluation.knownReferences (.obj ms) (some root))
    (Pointer.schemaHeight (.obj ms) (some root)) [] hs
  -- both agree with as many steps as the larger of the two budgets
  have hmost := Nat.le_max_left (Pointer.reach (.obj ms) (some root) + 1)
    (Pointer.reach s (some root) + 1)
  have hmost' := Nat.le_max_right (Pointer.reach (.obj ms) (some root) + 1)
    (Pointer.reach s (some root) + 1)
  have hsteps := descend_eq_of_rank_lt (bounds_scopeOf (.obj ms) root) hbounded
    (Nat.lt_of_lt_of_le hlt (Nat.le_of_lt_succ hrank))
    (Nat.lt_of_lt_of_le (Nat.lt_trans hlt hrank) hmost)
  exact ⟨hsteps.1.trans (sameWithout_inlined s root hmost').1.symm, hsteps.2⟩

theorem inlined_ne_exhausted (schema root : Json) : inlined schema root ≠ .error .exhausted :=
  fun h => (sameWithout_inlined schema root (Nat.lt_succ_self _)).2 _ h rfl

/-! ## The guard -/

/-- Whatever is on a chain leads to schemas in which no budget below a number replaces all
references, without the guard. -/
def Pending (root : Json) (n : Nat) (chain : List String) : Prop :=
  ∀ ref ∈ chain, ∃ target, Pointer.resolve (.str ref) root = .ok target ∧
    ∀ k < n, descend false root k target [] = .error .exhausted

theorem Pending.nil (root : Json) (n : Nat) : Pending root n [] := nofun

theorem Pending.mono {k : Nat} (h : Pending root n chain) (hle : k ≤ n) :
    Pending root k chain := by
  intro ref hmem
  obtain ⟨target, htarget, hopen⟩ := h ref hmem
  exact ⟨target, htarget, fun j hj => hopen j (Nat.lt_of_lt_of_le hj hle)⟩

theorem Pending.cons {ref : String} {target : Json}
    (htarget : Pointer.resolve (.str ref) root = .ok target)
    (hopen : ∀ k < n, descend false root k target [] = .error .exhausted)
    (h : Pending root n chain) : Pending root n (ref :: chain) := by
  intro r hmem
  obtain rfl | hmem := List.mem_cons.mp hmem
  · exact ⟨target, htarget, hopen⟩
  · exact h r hmem

/-- Replacing that ends has a least budget to end in. -/
theorem exists_least_budget {schema : Json}
    (h : descend false root n schema [] ≠ .error .exhausted) :
    ∃ k ≤ n, descend false root k schema [] ≠ .error .exhausted ∧
      ∀ j < k, descend false root j schema [] = .error .exhausted := by
  have hex : ∃ k, descend false root k schema [] ≠ .error .exhausted := ⟨n, h⟩
  exact ⟨Nat.find hex, Nat.find_min' hex h, Nat.find_spec hex,
    fun j hj => not_not.mp (Nat.find_min hex hj)⟩

/-- Following a reference with the guard leads where following it without the guard does. The
chain behind the reference is pending for the least budget in which its target is over, and up to
that budget the claim is known. -/
theorem sameUnless_target {ref : String} {target : Json}
    (htarget : Pointer.resolve (.str ref) root = .ok target) (hpending : Pending root n chain')
    (ih : ∀ k ≤ n, ∀ inner, Pending root k inner →
      SameUnless (· = .exhausted) (descend false root k target chain)
        (descend true root m target inner)) :
    SameUnless (· = .exhausted) (descend false root n target chain)
      (descend true root m target (ref :: chain')) := by
  by_cases hend : descend false root n target [] = .error .exhausted
  · exact .inl ⟨.exhausted, rfl, descend_unguarded_exhausted hend⟩
  · obtain ⟨k, hk, hdone, hopen⟩ := exists_least_budget hend
    have hdone' : descend false root k target chain ≠ .error .exhausted := by
      rw [descend_unguarded (Nat.le_refl k) hdone]
      exact hdone
    have hleast := (ih k hk _ (.cons htarget hopen (hpending.mono hk))).eq_of_ne hdone'
    exact .inr ((descend_unguarded hk hdone').trans hleast)

/-- Replacing without the guard is lost in a reference that is on a pending chain. -/
theorem descend_lost {ms : Members} {ref : String}
    (href : Table.keyword ms "$ref" = some (.str ref)) (hpending : Pending root (n + 1) chain')
    (hmem : ref ∈ chain') :
    descend false root (n + 1) (.obj ms) chain = .error .exhausted := by
  obtain ⟨target, htarget, hopen⟩ := hpending ref hmem
  have hpermit : Pointer.permit false (.str ref) chain = .ok () := rfl
  rw [descend_reference href, hpermit, htarget]
  exact descend_unguarded_exhausted (hopen n (Nat.lt_succ_self n))

/-- Replacing behind a pending chain does not differ by the guard, as far as it ends without. -/
theorem sameUnless_guarded (hle : n ≤ m) (schema : Json) (chain chain' : List String)
    (hpending : Pending root n chain') :
    SameUnless (· = .exhausted) (descend false root n schema chain)
      (descend true root m schema chain') := by
  induction n using Nat.strongRecOn generalizing m schema chain chain' with
  | ind n ih =>
    cases n with
    | zero => exact .error (by rfl) _
    | succ n =>
      obtain ⟨m, rfl⟩ : ∃ k, m = k + 1 := ⟨m - 1, by omega⟩
      have hle' : n ≤ m := by omega
      have hpending' := hpending.mono (Nat.le_succ n)
      have hQ := stepwise_sameUnless (· = .exhausted)
      refine stepwise_descend hQ ?held ?follow
      case held => exact fun _ _ s _ => ih n (Nat.lt_succ_self n) hle' s chain chain' hpending'
      case follow =>
        intro ms ref _ href
        by_cases htext : ∃ r, ref = .str r
        · obtain ⟨r, rfl⟩ := htext
          by_cases hmem : r ∈ chain'
          · exact .inl ⟨.exhausted, rfl, descend_lost href hpending hmem⟩
          · have hpermit : Pointer.permit true (.str r) chain' = .ok () :=
              Pointer.permit_eq_ok_iff.mpr fun _ => hmem
            rw [descend_reference href, descend_reference href, hpermit]
            refine hQ.bind (.refl _ _) fun _ _ => ?_
            cases htarget : Pointer.resolve (.str r) root with
            | error f => exact .refl _ _
            | ok target =>
              refine sameUnless_target htarget hpending' ?_
              -- the target is taken with the least budget it needs, not with the next smaller one
              intro k hk inner hinner
              exact ih k (Nat.lt_succ_of_le hk) (Nat.le_trans hk hle') target _ inner hinner
        · -- what is no text leads nowhere, with the guard and without
          rw [descend_reference href, descend_reference href]
          refine hQ.bind (.inr ?_) fun _ _ => hQ.bind (.refl _ _) fun target htarget => ?_
          · cases ref with
            | str r => exact absurd ⟨r, rfl⟩ htext
            | _ => rfl
          · exact absurd (exists_text_of_resolve htarget) htext

end Inline

/-! ## Whole schemas -/

/-- A schema with its references into a document replaced, without the guard and in a number of
steps. -/
def inlinedWithin (n : Nat) (schema root : Json) : Except Fault Json :=
  Inline.descend false root n schema []

variable (schema root : Json)

/-- Where replacing without the guard ends, replacing has its outcome. -/
theorem sameUnless_inlinedWithin (n : Nat) :
    SameUnless (· = .exhausted) (inlinedWithin n schema root) (inlined schema root) := by
  have hle := Nat.le_max_left n (Pointer.reach schema (some root) + 1)
  have hsame := Inline.sameUnless_guarded hle schema [] [] (Inline.Pending.nil root n)
  have hsteps := Inline.sameWithout_inlined schema root (Nat.le_max_right n _)
  rw [← hsteps.1] at hsame
  exact hsame

/-- What comes of replacing behind a chain comes of it behind none as well. -/
theorem inlined_of_descend {n : Nat} {schema root schema' : Json} {chain : List String}
    (h : Inline.descend true root n schema chain = .ok schema') :
    inlined schema root = .ok schema' := by
  have hdepth : SameUnless (fun f => f.isOfDepth = true)
      (Inline.descend true root n schema chain) (inlinedWithin n schema root) :=
    Inline.sameUnless_descend (by rfl) (fun _ _ => by rfl) (Nat.le_refl n) schema chain []
  rw [h] at hdepth
  obtain ⟨_, -, hf⟩ | heq := hdepth
  · cases hf
  · have hends : inlinedWithin n schema root ≠ .error .exhausted := by
      rw [← heq]
      nofun
    rw [← (sameUnless_inlinedWithin schema root n).eq_of_ne hends, ← heq]

/-- The schemas that an object holds are replaced as if each stood alone. -/
theorem inlined_object {ms : Members} (href : Table.keyword ms "$ref" = none) :
    inlined (.obj ms) root =
      (Inline.keywords (fun s => inlined s root) Inline.positions ms).map .obj := by
  have hQ := stepwise_sameWithout (· = .exhausted)
  rw [inlined, Inline.run, Inline.descend_object href]
  exact (hQ.map Json.obj (hQ.keywords Inline.nodup_positions fun s hs =>
    Inline.sameWithout_held root hs)).1

/-- The guard of references is exact for replacing them. Replacing ends, and no larger number of
steps changes its outcome. Where replacing without the guard ends within some number of steps, with
a schema or a fault, replacing has the same outcome; and a reference is refused as circular just
where replacing without the guard ends within no number of steps. So an object whose schemas lead to
one definition side by side is refused only because of one of them alone. -/
theorem inlined_guard_exact :
    (inlined schema root ≠ .error .exhausted ∧
      ∀ n, Pointer.reach schema (some root) < n →
        Inline.descend true root n schema [] = inlined schema root) ∧
    (∀ n, inlinedWithin n schema root ≠ .error .exhausted →
      inlined schema root = inlinedWithin n schema root) ∧
    ((∃ ref, inlined schema root = .error (.circularReference ref)) ↔
      ∀ n, inlinedWithin n schema root = .error .exhausted) ∧
    (∀ ms ref, schema = .obj ms → Table.keyword ms "$ref" = none →
      inlined schema root = .error (.circularReference ref) →
      ∃ s ∈ Inline.held Inline.positions ms, inlined s root = .error (.circularReference ref)) := by
  have hends : ∀ n, inlinedWithin n schema root ≠ .error .exhausted →
      inlined schema root = inlinedWithin n schema root :=
    fun n hn => ((sameUnless_inlinedWithin schema root n).eq_of_ne hn).symm
  refine ⟨⟨Inline.inlined_ne_exhausted schema root, fun n hn => ?steps⟩, hends, ⟨?refused, ?lost⟩,
    ?held⟩
  case steps => exact (Inline.sameWithout_inlined schema root hn).1.symm
  case refused =>
    intro hrefused n
    obtain ⟨ref, href⟩ := hrefused
    by_contra hn
    rw [hends n hn] at href
    exact Inline.descend_unguarded_ne_circular schema n [] ref href
  case lost =>
    intro hlost
    have hdepth : SameUnless (fun f => f.isOfDepth = true) (inlined schema root)
        (inlinedWithin (Pointer.reach schema (some root) + 1) schema root) :=
      Inline.sameUnless_descend (by rfl) (fun _ _ => by rfl) (Nat.le_refl _) schema [] []
    rw [hlost] at hdepth
    have hne := Inline.inlined_ne_exhausted schema root
    obtain ⟨f, hf, hinlined⟩ | hinlined := hdepth
    · cases f with
      | circularReference ref => exact ⟨ref, hinlined⟩
      | exhausted => exact absurd hinlined hne
      | _ => cases hf
    · exact absurd hinlined hne
  case held =>
    intro ms ref hms href hrefused
    subst hms
    by_contra hnone
    have hQ := stepwise_sameWithout (· = .circularReference ref)
    rw [inlined_object root href] at hrefused
    refine (hQ.map Json.obj
      (hQ.keywords Inline.nodup_positions fun s hs => ⟨rfl, ?_⟩)).2 _ hrefused rfl
    intro f hf hcircular
    exact hnone ⟨s, hs, hcircular ▸ hf⟩

/-- Two definitions that lead to a third are no circle. -/
example :
    inlined
      (.obj [("allOf", .arr [.obj [("$ref", .str "#/$defs/a")],
        .obj [("$ref", .str "#/$defs/b")]])])
      (.obj [("$defs", .obj [("a", .obj [("not", .obj [("$ref", .str "#/$defs/c")])]),
        ("b", .obj [("$ref", .str "#/$defs/c")]), ("c", .bool false)])]) =
      .ok (.obj [("allOf", .arr [.obj [("not", .bool false)], .bool false])]) := by
  cbv

end Conform
