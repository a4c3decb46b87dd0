import Conform.Proofs.Congruence
import Mathlib.Logic.Relation

/-!
# Conform.Proofs.Calls

The calls that an evaluation is made of, one nested in the other. A call hangs on another if one
step for it can turn out differently with what the other gives (`Call.HangsOn`); this says
nothing of how a step is written. What a step looks like then shows that a call hangs only on the
calls that it opens (`Call.Opens`), of which there are three sorts:

```
again     the same value, a schema inside the schema, the same chain
into      a part of the value, a schema inside the schema, an empty chain
follow    the same value, what a reference leads to, a chain with one more reference
```

A nesting of calls for one value follows each reference at most once, for the chain holds what
was followed and is guarded (`Call.Nesting.le_references`).
-/

namespace Conform

namespace Evaluation

/-- One call of an evaluation: a value against a schema, at a place and behind a chain. -/
structure Call where
  value : Json
  schema : Json
  path : String
  chain : List String
deriving DecidableEq, Repr

namespace Call

/-- What a reading gives for a call. -/
def answer (self : Evaluate) (c : Call) : Trace Violation := self c.value c.schema c.path c.chain

variable [Host] in
/-- One step for a call can turn out differently with what a reading gives for another call. -/
def HangsOn (scope : Scope) (a b : Call) : Prop :=
  ∃ self self' : Evaluate, (∀ c, c ≠ b → c.answer self = c.answer self') ∧
    a.answer (step scope self) ≠ a.answer (step scope self')

/-- Whether a call does nothing but follow a reference. -/
def isReference (c : Call) : Bool :=
  match c.schema with
  | .obj ms => (Table.keyword ms "$ref").isSome
  | _ => false

/-- The calls that one step for a call may ask for. Places do not matter for it. -/
inductive Opens (scope : Scope) : Call → Call → Prop where
  | again {value s : Json} {ms : Members} {n : Node} {p q : String} {chain : List String}
      (href : Table.keyword ms "$ref" = none) (hn : Node.ofMembers ms = .ok n)
      (hs : s ∈ n.again) : Opens scope ⟨value, .obj ms, p, chain⟩ ⟨value, s, q, chain⟩
  | into {value v s : Json} {ms : Members} {n : Node} {p q : String} {chain : List String}
      (href : Table.keyword ms "$ref" = none) (hn : Node.ofMembers ms = .ok n)
      (hv : v ∈ value.parts) (hs : s ∈ n.into) :
      Opens scope ⟨value, .obj ms, p, chain⟩ ⟨v, s, q, []⟩
  | follow {value target : Json} {ms : Members} {ref p q : String} {chain : List String}
      (href : Table.keyword ms "$ref" = some (.str ref))
      (hpermit : Pointer.permit scope.guarded (.str ref) chain = .ok ())
      (htarget : referred scope (.str ref) = .ok target) :
      Opens scope ⟨value, .obj ms, p, chain⟩ ⟨value, target, q, ref :: chain⟩

/-! ## What a step asks for -/

/-- Only a text leads anywhere. -/
theorem exists_text_of_referred {scope : Scope} {ref target : Json}
    (h : referred scope ref = .ok target) : ∃ s, ref = .str s := by
  unfold referred at h
  split at h
  · cases h
  · cases ref with
    | str s => exact ⟨s, rfl⟩
    | _ => cases h

/-- Rules are functions of what they ask for. -/
theorem congruence_eq : Congruence fun p q t u => p = q → t = u where
  done _ := rfl
  stop _ _ := rfl
  violation _ _ _ _ h := by rw [h]
  demanded _ _ _ _ h := by rw [h]
  andThen h h' hpq := by rw [h hpq, h' hpq]
  summary h h' hpq := by rw [h hpq, h' hpq]
  name m h hpq := h (by rw [hpq])
  index i h hpq := h (by rw [hpq])
  ask {p q t u k k'} h h' hpq := by
    rw [h rfl]
    cases u.verdict with
    | error f => rfl
    | ok b => exact h' b hpq

variable [Host] in
/-- Two readings that agree on all that a call opens make the same step for it. -/
theorem answer_step_congr {scope : Scope} {self self' : Evaluate} {a : Call}
    (h : ∀ b, Opens scope a b → b.answer self = b.answer self') :
    a.answer (step scope self) = a.answer (step scope self') := by
  obtain ⟨value, schema, path, chain⟩ := a
  refine congruence_eq.step rfl ?again ?into ?follow rfl
  case again =>
    intro ms n hms href hn s hs p q hpq
    subst hms hpq
    exact h ⟨value, s, p, chain⟩ (.again href hn hs)
  case into =>
    intro ms n hms href hn v hv s hs p q hpq
    subst hms hpq
    exact h ⟨v, s, p, []⟩ (.into href hn hv hs)
  case follow =>
    intro ms ref hms href
    subst hms
    refine congruence_eq.followRule rfl rfl (fun f _ _ => rfl) fun hpermit target htarget _ => ?_
    obtain ⟨s, rfl⟩ := exists_text_of_referred htarget
    exact h ⟨value, target, path, s :: chain⟩ (.follow href hpermit htarget)

variable [Host] in
/-- A call hangs on nothing but what it opens. -/
theorem opens_of_hangsOn {scope : Scope} {a b : Call} (h : a.HangsOn scope b) :
    Opens scope a b := by
  obtain ⟨self, self', hsame, hdiffer⟩ := h
  by_contra hopens
  have hne : ∀ c, Opens scope a c → c ≠ b := by
    intro c hc hcb
    exact hopens (hcb ▸ hc)
  exact hdiffer (answer_step_congr fun c hc => hsame c (hne c hc))

/-! ## What all calls of an evaluation keep -/

/-- A call whose schema nests no deeper than a height and holds only given references, behind a
chain of different ones of them. -/
structure Bounded (refs : List String) (height : Nat) (c : Call) : Prop where
  height_le : c.schema.height ≤ height
  references_subset : c.schema.references ⊆ refs
  chain_subset : c.chain ⊆ refs
  chain_nodup : c.chain.Nodup

/-- A scope whose references lead to schemas within the bounds. -/
structure Bounds (refs : List String) (height : Nat) (scope : Scope) : Prop where
  guarded : scope.guarded = true
  root : ∀ root, scope.root = some root → root.height ≤ height ∧ root.references ⊆ refs

variable {scope : Scope} {refs : List String} {height : Nat} {a b : Call}

/-- A chain of different references is no longer than there are references. -/
theorem Bounded.length_chain_le (h : a.Bounded refs height) :
    a.chain.length ≤ refs.eraseDups.length :=
  h.chain_nodup.length_le_of_subset fun _ hr => List.mem_eraseDups.mpr (h.chain_subset hr)

theorem Bounded.of_within {value s : Json} {ms : Members} {p q : String} {chain : List String}
    (h : Bounded refs height ⟨value, .obj ms, p, chain⟩) (hs : Within ms s) (v : Json)
    {c : List String} (hc : c ⊆ refs) (hnodup : c.Nodup) : Bounded refs height ⟨v, s, q, c⟩ := by
  have hle : (Json.obj ms).height ≤ height := h.height_le
  have hsub : (Json.obj ms).references ⊆ refs := h.references_subset
  rw [Json.height] at hle
  rw [Json.references] at hsub
  exact ⟨Nat.le_trans hs.height_le (Nat.le_of_succ_le hle),
    List.Subset.trans hs.references_subset hsub, hc, hnodup⟩

/-- Calls opened by a call within bounds are within them. -/
theorem Bounded.of_opens (hscope : Bounds refs height scope) (h : a.Bounded refs height)
    (hab : Opens scope a b) : b.Bounded refs height := by
  cases hab with
  | again href hn hs =>
    exact h.of_within (Node.within_of_mem_again hn hs) _ h.chain_subset h.chain_nodup
  | into href hn hv hs =>
    exact h.of_within (Node.within_of_mem_into hn hs) _ (List.nil_subset _) List.nodup_nil
  | @follow value target ms ref p q chain href hpermit htarget =>
    rw [hscope.guarded] at hpermit
    have hmem : ref ∈ refs := h.references_subset (by
      rw [Json.references]
      exact Json.mem_membersReferences (mem_of_keyword href))
    have hdoc : target.height ≤ height ∧ target.references ⊆ refs := by
      unfold referred at htarget
      split at htarget
      · cases htarget
      · next root hroot =>
        have hin := Pointer.inDocument_resolve htarget
        have hbound := hscope.root root hroot
        exact ⟨Nat.le_trans hin.height_le hbound.1,
          List.Subset.trans hin.references_subset hbound.2⟩
    exact ⟨hdoc.1, hdoc.2, List.cons_subset.mpr ⟨hmem, h.chain_subset⟩,
      List.nodup_cons.mpr ⟨Pointer.permit_eq_ok_iff.mp hpermit rfl, h.chain_nodup⟩⟩

/-! ## Nestings of calls for one value -/

variable [Host] in
/-- Calls for one value, each nested in the one before, with the number of those between the
first and the last that follow a reference. -/
inductive Nesting (scope : Scope) (a : Call) : Nat → Call → Prop where
  | here : Nesting scope a 0 a
  | check {k : Nat} {b c : Call} (h : Nesting scope a k b) (hangs : b.HangsOn scope c)
      (same : c.value = b.value) (plain : b.isReference = false) : Nesting scope a k c
  | follow {k : Nat} {b c : Call} (h : Nesting scope a k b) (hangs : b.HangsOn scope c)
      (same : c.value = b.value) (ref : b.isReference = true) : Nesting scope a (k + 1) c

/-- While the value stays the same, the chain grows by one for each reference that is followed. -/
theorem length_chain_of_opens (hab : Opens scope a b) (hsame : b.value = a.value) :
    b.chain.length = a.chain.length + if a.isReference then 1 else 0 := by
  cases hab with
  | again href hn hs => simp [isReference, href]
  | @into value v s ms n p q chain href hn hv hs =>
    have hlt := Json.height_lt_of_mem_parts hv
    obtain rfl : v = value := hsame
    exact absurd hlt (Nat.lt_irrefl _)
  | follow href hpermit htarget => simp [isReference, href]

variable [Host] in
theorem Nesting.bounded {k : Nat} (hscope : Bounds refs height scope) (ha : a.Bounded refs height)
    (h : Nesting scope a k b) : b.Bounded refs height ∧ b.chain.length = a.chain.length + k := by
  induction h with
  | here => exact ⟨ha, rfl⟩
  | check _ hangs same plain ih =>
    have hopens := opens_of_hangsOn hangs
    have hlen := length_chain_of_opens hopens same
    rw [plain, ih.2] at hlen
    exact ⟨ih.1.of_opens hscope hopens, hlen⟩
  | follow _ hangs same ref ih =>
    have hopens := opens_of_hangsOn hangs
    have hlen := length_chain_of_opens hopens same
    rw [ref, ih.2] at hlen
    exact ⟨ih.1.of_opens hscope hopens, hlen⟩

variable [Host] in
/-- A nesting follows no more references than there are. -/
theorem Nesting.le_references {k : Nat} (hscope : Bounds refs height scope)
    (ha : a.Bounded refs height) (h : Nesting scope a k b) : k ≤ refs.eraseDups.length := by
  obtain ⟨hb, hlen⟩ := h.bounded hscope ha
  have hle := hb.length_chain_le
  omega

end Call

end Evaluation

end Conform
