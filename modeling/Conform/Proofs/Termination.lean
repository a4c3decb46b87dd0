import Conform.Proofs.Calls

/-!
# Conform.Proofs.Termination

Evaluation ends for every value, schema and document, however references lead in circles. What
goes down from a call to the calls it opens is read off three quantities, the first one first:

```
into      the height of the value
follow    the references that are not on the chain yet
again     the height of the schema
```

`Call.rank` puts them into one number, and `Evaluation.budget` is above it. So the budget is
never used up, and a larger one changes nothing: what `run` gives is what evaluation without any
budget would give.
-/

namespace Conform

namespace Evaluation

namespace Call

/-! ## A measure of calls -/

/-- The height of the value, the references that are left and the height of the schema, as one
number. -/
def rank (refs : List String) (height : Nat) (c : Call) : Nat :=
  c.value.height * ((refs.eraseDups.length + 1) * (height + 1))
    + (refs.eraseDups.length - c.chain.length) * (height + 1) + c.schema.height

variable {scope : Scope} {refs : List String} {height : Nat} {a b : Call}

/-- For one value behind one chain, a schema inside the schema ranks lower. -/
theorem rank_lt_of_within {value s : Json} {ms : Members} {p q : String} {chain : List String}
    (hs : Within ms s) :
    rank refs height ⟨value, s, q, chain⟩ < rank refs height ⟨value, .obj ms, p, chain⟩ := by
  have hle := hs.height_le
  simp only [rank, Json.height]
  omega

/-- For a part of the value everything ranks lower. -/
theorem rank_lt_of_mem_parts {value v s schema : Json} {p q : String} {chain : List String}
    (hv : v ∈ value.parts) (hs : s.height ≤ height) :
    rank refs height ⟨v, s, q, []⟩ < rank refs height ⟨value, schema, p, chain⟩ := by
  have hlt : v.height + 1 ≤ value.height := Json.height_lt_of_mem_parts hv
  generalize hk : refs.eraseDups.length = k
  have hreach : k * (height + 1) + height + 1 = (k + 1) * (height + 1) := by
    rw [Nat.add_mul, Nat.one_mul, Nat.add_assoc]
  calc rank refs height ⟨v, s, q, []⟩
      = v.height * ((k + 1) * (height + 1)) + k * (height + 1) + s.height := by
        simp [rank, hk]
    _ < v.height * ((k + 1) * (height + 1)) + (k + 1) * (height + 1) := by omega
    _ = (v.height + 1) * ((k + 1) * (height + 1)) := (Nat.succ_mul _ _).symm
    _ ≤ value.height * ((k + 1) * (height + 1)) := Nat.mul_le_mul_right _ hlt
    _ ≤ rank refs height ⟨value, schema, p, chain⟩ := by
        simp only [rank, hk]
        omega

/-- Behind a chain with one more reference every schema ranks lower. -/
theorem rank_lt_of_lengthened {value target schema : Json} {ref p q : String}
    {chain : List String} (hlen : chain.length + 1 ≤ refs.eraseDups.length)
    (htarget : target.height ≤ height) :
    rank refs height ⟨value, target, q, ref :: chain⟩ <
      rank refs height ⟨value, schema, p, chain⟩ := by
  obtain ⟨left, hleft⟩ := Nat.exists_eq_add_of_le hlen
  have hbefore : refs.eraseDups.length - chain.length = left + 1 := by omega
  have hbehind : refs.eraseDups.length - (ref :: chain).length = left := by
    rw [List.length_cons]
    omega
  simp only [rank, hbefore, hbehind, Nat.succ_mul]
  omega

/-- A call that is opened ranks lower than the one it is opened by. -/
theorem rank_lt_of_opens (hscope : Bounds refs height scope) (ha : a.Bounded refs height)
    (hab : Opens scope a b) : b.rank refs height < a.rank refs height := by
  have hb := ha.of_opens hscope hab
  cases hab with
  | again href hn hs => exact rank_lt_of_within (Node.within_of_mem_again hn hs)
  | into href hn hv hs => exact rank_lt_of_mem_parts hv hb.height_le
  | follow href hpermit htarget => exact rank_lt_of_lengthened hb.length_chain_le hb.height_le

variable [Host] in
/-- Calls cannot be nested for ever. -/
theorem acc_hangsOn (hscope : Bounds refs height scope) (ha : a.Bounded refs height) :
    Acc (fun b a => HangsOn scope a b) a := by
  induction hr : a.rank refs height using Nat.strongRecOn generalizing a with
  | ind r ih =>
    refine ⟨a, fun b hab => ?_⟩
    have hopens := opens_of_hangsOn hab
    exact ih _ (hr ▸ rank_lt_of_opens hscope ha hopens) (ha.of_opens hscope hopens) rfl

end Call

/-! ## Budgets -/

/-- Rules find nothing but what they find and have no faults of a kind but those that they are
given, where faults of depth alone are of that kind. -/
theorem congruence_avoids {bad : Fault → Prop} (hbad : ∀ f, bad f → f.isOfDepth = true) :
    Congruence fun p q t u => p = q → t = u ∧ ∀ f, t.fault = some f → ¬ bad f where
  done _ := ⟨rfl, nofun⟩
  stop {p q f} h _ := by
    refine ⟨rfl, fun g hg hbadg => ?_⟩
    cases hg
    rw [hbad f hbadg] at h
    cases h
  violation _ _ _ _ h := ⟨by rw [h], nofun⟩
  demanded _ _ _ _ h := ⟨by rw [h], nofun⟩
  andThen {p q t u t' u'} h h' hpq := by
    obtain ⟨rfl, hf⟩ := h hpq
    obtain ⟨rfl, hf'⟩ := h' hpq
    refine ⟨rfl, ?_⟩
    obtain ⟨found, fault⟩ := t
    cases fault with
    | some f => exact hf
    | none => exact hf'
  summary {p q t u t' u'} h h' hpq := by
    obtain ⟨rfl, hf⟩ := h hpq
    obtain ⟨rfl, hf'⟩ := h' hpq
    refine ⟨rfl, ?_⟩
    obtain ⟨found, fault⟩ := t
    cases fault with
    | some f => exact hf
    | none => cases found with
      | nil => exact nofun
      | cons _ _ => exact hf'
  name m h hpq := h (by rw [hpq])
  index i h hpq := h (by rw [hpq])
  ask {p q t u k k'} h h' hpq := by
    obtain ⟨rfl, hf⟩ := h rfl
    cases hv : t.verdict with
    | ok b => exact h' b hpq
    | error f =>
      rw [(Trace.verdict_eq_error_iff t f).mp hv] at hf
      exact ⟨rfl, hf⟩

variable [Host] in
/-- A budget above the rank of a call is not used up, and any other such budget does as well. -/
theorem descend_eq_of_rank_lt {scope : Scope} {refs : List String} {height : Nat}
    (hscope : Call.Bounds refs height scope) {n m : Nat} {c : Call} (hc : c.Bounded refs height)
    (hn : c.rank refs height < n) (hm : c.rank refs height < m) :
    c.answer (descend scope n) = c.answer (descend scope m) ∧
      ∀ f, (c.answer (descend scope n)).fault = some f → ¬ f = .exhausted := by
  induction n generalizing m c with
  | zero => omega
  | succ n ih =>
    obtain ⟨m, rfl⟩ : ∃ k, m = k + 1 := ⟨m - 1, by omega⟩
    have hbad : ∀ f : Fault, f = .exhausted → f.isOfDepth = true := by
      intro f hf
      rw [hf]
      rfl
    have hQ := congruence_avoids hbad
    -- one step down the rank is lower than either budget without one step
    have hopen : ∀ b, Call.Opens scope c b →
        b.answer (descend scope n) = b.answer (descend scope m) ∧
          ∀ f, (b.answer (descend scope n)).fault = some f → ¬ f = .exhausted := by
      intro b hb
      have hlt := Call.rank_lt_of_opens hscope hc hb
      exact ih (hc.of_opens hscope hb) (by omega) (by omega)
    obtain ⟨value, schema, path, chain⟩ := c
    refine hQ.step rfl ?again ?into ?follow rfl
    case again =>
      intro ms node hms href hnode s hs p q hpq
      subst hms hpq
      exact hopen ⟨value, s, p, chain⟩ (.again href hnode hs)
    case into =>
      intro ms node hms href hnode v hv s hs p q hpq
      subst hms hpq
      exact hopen ⟨v, s, p, []⟩ (.into href hnode hv hs)
    case follow =>
      intro ms ref hms href
      subst hms
      refine hQ.followRule rfl rfl (fun f hf _ => ⟨rfl, ?_⟩) fun hpermit target htarget _ => ?_
      · intro g hg hexhausted
        cases hg
        obtain ⟨_, -, -, -, hcircular⟩ | ⟨-, hkind⟩ := Pointer.permit_eq_error hf
        · cases hexhausted.symm.trans hcircular
        · cases hexhausted.symm.trans hkind
      · obtain ⟨s, rfl⟩ := Call.exists_text_of_referred htarget
        exact hopen ⟨value, target, path, s :: chain⟩ (.follow href hpermit htarget)

/-! ## Whole evaluations -/

/-- The references of a schema and of the document. -/
abbrev knownReferences (schema : Json) (root : Option Json) : List String :=
  schema.references ++ (root.map Json.references).getD []

variable (value schema : Json) (root : Option Json) (path : String) (formats : Formats)

/-- References of an evaluation lead into its document. -/
theorem bounds_scopeFor :
    Call.Bounds (knownReferences schema (scopeFor schema root formats).root)
      (Pointer.schemaHeight schema (scopeFor schema root formats).root)
      (scopeFor schema root formats) where
  guarded := rfl
  root := by
    intro doc hdoc
    rw [knownReferences, Pointer.schemaHeight, hdoc]
    exact ⟨Nat.le_max_right _ _, List.subset_append_right _ _⟩

/-- An evaluation begins within these bounds. -/
theorem bounded_start (doc : Option Json) :
    Call.Bounded (knownReferences schema doc) (Pointer.schemaHeight schema doc)
      ⟨value, schema, path, []⟩ where
  height_le := Nat.le_max_left _ _
  references_subset := List.subset_append_left _ _
  chain_subset := List.nil_subset _
  chain_nodup := List.nodup_nil

/-- The budget is above the rank that an evaluation begins with. -/
theorem rank_lt_budget (doc : Option Json) :
    Call.rank (knownReferences schema doc) (Pointer.schemaHeight schema doc)
      ⟨value, schema, path, []⟩ < budget value schema doc := by
  have hle : schema.height ≤ Pointer.schemaHeight schema doc := Nat.le_max_left _ _
  have hcount : (knownReferences schema doc).eraseDups.length = Pointer.referenceCount schema doc :=
    rfl
  simp only [Call.rank, budget, Pointer.reach, hcount, List.length_nil, Nat.sub_zero, Nat.add_mul,
    Nat.one_mul]
  omega

section

variable [Host]

/-- No budget above that of an evaluation changes what it gives. -/
theorem descend_eq_run {n : Nat}
    (hn : budget value schema (scopeFor schema root formats).root ≤ n) :
    descend (scopeFor schema root formats) n value schema path [] =
      run value schema root path formats :=
  (descend_eq_of_rank_lt (bounds_scopeFor schema root formats)
    (bounded_start value schema path _)
    (Nat.lt_of_lt_of_le (rank_lt_budget value schema path _) hn)
    (rank_lt_budget value schema path _)).1

/-- The budget of an evaluation is never used up. -/
theorem fault_run_ne_exhausted :
    (run value schema root path formats).fault ≠ some .exhausted := fun h =>
  (descend_eq_of_rank_lt (bounds_scopeFor schema root formats)
    (bounded_start value schema path _) (rank_lt_budget value schema path _)
    (rank_lt_budget value schema path _)).2 _ h rfl

/-- What an evaluation reaches is within the bounds that it begins with. -/
theorem bounded_of_reached {a : Call}
    (h : Relation.ReflTransGen (Call.HangsOn (scopeFor schema root formats))
      ⟨value, schema, path, []⟩ a) :
    a.Bounded (knownReferences schema (scopeFor schema root formats).root)
      (Pointer.schemaHeight schema (scopeFor schema root formats).root) := by
  induction h with
  | refl => exact bounded_start value schema path _
  | tail _ hangs ih =>
    exact ih.of_opens (bounds_scopeFor schema root formats) (Call.opens_of_hangsOn hangs)

/-- Every evaluation ends. Calls cannot be nested in it for ever; all there is to report, or a
fault that is not the budget's, comes of it, and with any larger budget the same; and calls nested
in it for one value follow no more references than the schema and the document hold. -/
theorem run_terminates :
    Acc (fun b a => Call.HangsOn (scopeFor schema root formats) a b) ⟨value, schema, path, []⟩ ∧
    (∀ n, budget value schema (scopeFor schema root formats).root ≤ n →
      descend (scopeFor schema root formats) n value schema path [] =
        run value schema root path formats) ∧
    ((∃ vs, (run value schema root path formats).toExcept = .ok vs) ∨
      ∃ f, f ≠ .exhausted ∧ (run value schema root path formats).toExcept = .error f) ∧
    (∀ a b k, Relation.ReflTransGen (Call.HangsOn (scopeFor schema root formats))
        ⟨value, schema, path, []⟩ a →
      Call.Nesting (scopeFor schema root formats) a k b →
      k ≤ Pointer.referenceCount schema (scopeFor schema root formats).root) := by
  have hbounds := bounds_scopeFor schema root formats
  refine ⟨?ends, fun n => descend_eq_run value schema root path formats, ?outcome, ?nesting⟩
  case ends => exact Call.acc_hangsOn hbounds (bounded_start value schema path _)
  case outcome =>
    cases hf : (run value schema root path formats).fault with
    | none => exact .inl ⟨_, by rw [Trace.toExcept, hf]⟩
    | some f =>
      have hne : f ≠ .exhausted := by
        intro hexhausted
        rw [hexhausted] at hf
        exact fault_run_ne_exhausted value schema root path formats hf
      exact .inr ⟨f, hne, by rw [Trace.toExcept, hf]⟩
  case nesting =>
    intro a b k ha hnesting
    exact hnesting.le_references hbounds (bounded_of_reached value schema root path formats ha)

end

end Evaluation

end Conform
