import Conform.Proofs.Depth
import Mathlib.Data.List.Forall2

/-!
# Conform.Proofs.Congruence

One step of evaluation, taken with two readings for further schemas and at two places. A relation
between traces that the building blocks of rules keep (`Compatible`) holds between the two steps as
soon as it holds between what the step asks the readings for (`Compatible.step`). What is so of one
step by itself is the case that both readings are one (`Compatible.step_self`).

So what a rule may do is looked at once, here. Each theorem about whole evaluations names a
relation, shows that it is compatible with rules, and is an induction on the number of steps. Some
relations mind what a report says of the value, or tell a schema that reports from one that is only
asked for its verdict. Those that mind neither are a `Congruence`:

* that evaluations at two places give the same finds but for the place;
* that a budget which is large enough is never used up;
* that the guard of references changes no verdict of an evaluation that ends without it.
-/

namespace Conform

/-- Whether a report of this code is about a value that is there, and not about a missing member
or a name. -/
def Code.isOfValue : Code → Bool
  | .required => false
  | .dependentRequired => false
  | .propertyNames => false
  | _ => true

namespace Evaluation

/-- A report on top of what was found does not change the verdict. -/
theorem verdict_summary (t u : Trace Violation) :
    (t.andThen fun _ => reportUnless t.found.isEmpty u).verdict = t.verdict := by
  obtain ⟨found, fault⟩ := t
  cases fault <;> cases found <;> rfl

/-- A relation between a trace for a value at a place `p` and a trace for the same value at a place
`q` that is kept by all that rules do. A rule reports what it finds of the value, or of a name that
is there or missing; goes on from a trace for the same value or for a part of it; or goes on from
the verdicts of traces that stand in a relation of their own. Names may be asked to have a
property. -/
structure Compatible (Name : Json → Prop) (Ask : (t u : Trace Violation) → Prop)
    (Q : (value : Json) → (p q : String) → (t u : Trace Violation) → Prop) : Prop where
  done {v : Json} {p q : String} : Q v p q .done .done
  stop {v : Json} {p q : String} {f : Fault} (h : f.isPlain = true) : Q v p q (.stop f) (.stop f)
  violation {v : Json} {p q : String} {code : Code} (h : code.isOfValue = true) (message : String)
    (constraint : Json) :
    Q v p q (violation p code message v constraint) (violation q code message v constraint)
  absent {p q : String} (message : String) (constraint : Json) :
    Q .absent p q (Evaluation.violation p .required message .null constraint)
      (Evaluation.violation q .required message .null constraint)
  missing {ms : Members} {p q : String} {name : Json} {code : Code} (hname : Name name)
    (hcode : code = .required ∨ code = .dependentRequired)
    (hmissing : hasMember ms name = .ok false) (message : String) (constraint : Json) :
    Q (.obj ms) p q (.find ⟨Path.demanded p name, code, message, .null, constraint⟩)
      (.find ⟨Path.demanded q name, code, message, .null, constraint⟩)
  refusedName {ms : Members} {p q : String} {m : String} {child : Json} (h : (m, child) ∈ ms)
    (message : String) (constraint : Json) :
    Q (.obj ms) p q
      (Evaluation.violation (Path.name p m) .propertyNames message (.str m) constraint)
      (Evaluation.violation (Path.name q m) .propertyNames message (.str m) constraint)
  andThen {v : Json} {p q : String} {t u t' u' : Trace Violation} (h : Q v p q t u)
    (h' : Q v p q t' u') : Q v p q (t.andThen fun _ => t') (u.andThen fun _ => u')
  summary {v : Json} {p q : String} {t u t' u' : Trace Violation} (h : Q v p q t u)
    (h' : Q v p q t' u') :
    Q v p q (t.andThen fun _ => reportUnless t.found.isEmpty t')
      (u.andThen fun _ => reportUnless u.found.isEmpty u')
  name {ms : Members} {p q : String} {t u : Trace Violation} {m : String} {child : Json}
    (hm : (m, child) ∈ ms) (h : Q child (Path.name p m) (Path.name q m) t u) : Q (.obj ms) p q t u
  index {xs : List Json} {p q : String} {t u : Trace Violation} {i : Nat} {x : Json}
    (hi : xs[i]? = some x) (h : Q x (Path.index p i) (Path.index q i) t u) : Q (.arr xs) p q t u
  ask {v : Json} {p q : String} {t u : Trace Violation} {k k' : Bool → Trace Violation}
    (h : Ask t u) (h' : ∀ b, Q v p q (k b) (k' b)) :
    Q v p q (.after t.verdict k) (.after u.verdict k')

/-- What two readings have to give for all that one node asks of them. -/
structure Supplies (Name : Json → Prop) (Ask : (t u : Trace Violation) → Prop)
    (Q : (value : Json) → (p q : String) → (t u : Trace Violation) → Prop)
    (read read' : Evaluate) (value : Json) (chain chain' : List String) (n : Node) : Prop where
  demanded : ∀ name ∈ n.demanded, Name name
  reported : ∀ s ∈ n.reported, ∀ p q, Q value p q (read value s p chain) (read' value s q chain')
  checked : ∀ s ∈ n.checked, Ask (read value s "" chain) (read' value s "" chain')
  partReported : ∀ v ∈ value.parts, ∀ s ∈ n.partReported, ∀ p q,
    Q v p q (read v s p []) (read' v s q [])
  partChecked : ∀ v ∈ value.parts, ∀ s ∈ n.partChecked, Ask (read v s "" []) (read' v s "" [])

namespace Compatible

variable {Name : Json → Prop} {Ask : (t u : Trace Violation) → Prop}
  {Q : (value : Json) → (p q : String) → (t u : Trace Violation) → Prop}
  {v : Json} {p q : String}

/-! ## Building blocks -/

theorem reportUnless (hQ : Compatible Name Ask Q) (ok : Bool) {t u : Trace Violation}
    (h : Q v p q t u) : Q v p q (reportUnless ok t) (reportUnless ok u) := by
  cases ok
  · exact h
  · exact hQ.done

/-- Going on from a plain computation. -/
theorem after (hQ : Compatible Name Ask Q) {α : Type} {r : Except Fault α} (hr : Plain r)
    {k k' : α → Trace Violation} (h : ∀ x, r = .ok x → Q v p q (k x) (k' x)) :
    Q v p q (.after r k) (.after r k') := by
  cases r with
  | error f => exact hQ.stop (hr f rfl)
  | ok x => exact h x rfl

/-- Going on with what is written of a value. -/
theorem told (hQ : Compatible Name Ask Q) {α : Type} {text : Option α}
    {k k' : α → Trace Violation} (h : ∀ words, Q v p q (k words) (k' words)) :
    Q v p q (.after (Fault.written text) k) (.after (Fault.written text) k') :=
  hQ.after (plain_written text) fun words _ => h words

/-- Element by element, for two lists of one length. -/
theorem eachOfTwo (hQ : Compatible Name Ask Q) {α β : Type} {f : α → Trace Violation}
    {g : β → Trace Violation} {xs : List α} {ys : List β}
    (h : List.Forall₂ (fun x y => Q v p q (f x) (g y)) xs ys) :
    Q v p q (.each f xs) (.each g ys) := by
  induction h with
  | nil => exact hQ.done
  | cons h _ ih => exact hQ.andThen h ih

theorem each (hQ : Compatible Name Ask Q) {α : Type} {f g : α → Trace Violation} {xs : List α}
    (h : ∀ x ∈ xs, Q v p q (f x) (g x)) : Q v p q (.each f xs) (.each g xs) :=
  hQ.eachOfTwo (List.forall₂_same.mpr h)

theorem inTurn (hQ : Compatible Name Ask Q) {ts us : List (Unit → Trace Violation)}
    (h : List.Forall₂ (fun t u => Q v p q (t ()) (u ())) ts us) :
    Q v p q (.inTurn ts) (.inTurn us) := by
  induction h with
  | nil => exact hQ.done
  | cons h _ ih => exact hQ.andThen h ih

theorem limitRule (hQ : Compatible Name Ask Q) (limit : Option Json) (breaks : Number → Bool)
    {code : Code} (hcode : code.isOfValue = true) (before behind : String) :
    Q v p q (limitRule limit breaks code before behind v p)
      (limitRule limit breaks code before behind v q) := by
  refine hQ.after (plain_broken _ _) fun found _ => ?_
  cases found with
  | none => exact hQ.done
  | some j => exact hQ.told fun words => hQ.violation hcode _ _

theorem demand (hQ : Compatible Name Ask Q) (ms : Members) {code : Code}
    (hcode : code = .required ∨ code = .dependentRequired) (before behind : String) {name : Json}
    (hname : Name name) (constraint : Json) :
    Q (.obj ms) p q (demand ms p code before behind name constraint)
      (demand ms q code before behind name constraint) := by
  refine hQ.after (plain_hasMember _ _) fun there hthere => ?_
  cases there
  · exact hQ.told fun words => hQ.missing hname hcode hthere _ _
  · exact hQ.done

/-! ## Demands on several schemas -/

variable {α β : Type}

/-- Asking for the first success, test by test. -/
theorem after_someHolds (test : α → Except Fault Bool) (x : α) (xs : List α)
    (k : Bool → Trace Violation) :
    Trace.after (someHolds test (x :: xs)) k =
      .after (test x) fun b => if b then k true else .after (someHolds test xs) k := by
  rw [someHolds]
  cases test x with
  | error f => rfl
  | ok b => cases b <;> rfl

theorem someHolds (hQ : Compatible Name Ask Q) {f : α → Trace Violation} {g : β → Trace Violation}
    {xs : List α} {ys : List β} {k k' : Bool → Trace Violation}
    (h : List.Forall₂ (fun x y => Ask (f x) (g y)) xs ys) (hk : ∀ b, Q v p q (k b) (k' b)) :
    Q v p q (.after (someHolds (fun x => (f x).verdict) xs) k)
      (.after (Evaluation.someHolds (fun y => (g y).verdict) ys) k') := by
  induction h with
  | nil => exact hk false
  | cons h _ ih =>
    rw [after_someHolds, after_someHolds]
    refine hQ.ask h fun b => ?_
    cases b
    · exact ih
    · exact hk true

/-- Counting successes, test by test. -/
theorem after_countHolding (test : α → Except Fault Bool) (x : α) (xs : List α)
    (k : Nat → Trace Violation) :
    Trace.after (countHolding test (x :: xs)) k =
      .after (test x) fun b =>
        .after (countHolding test xs) fun n => k (if b then n + 1 else n) := by
  rw [countHolding]
  cases test x with
  | error f => rfl
  | ok b => cases countHolding test xs <;> rfl

theorem countHolding (hQ : Compatible Name Ask Q) {f : α → Trace Violation}
    {g : β → Trace Violation} {xs : List α} {ys : List β} {k k' : Nat → Trace Violation}
    (h : List.Forall₂ (fun x y => Ask (f x) (g y)) xs ys) (hk : ∀ n, Q v p q (k n) (k' n)) :
    Q v p q (.after (countHolding (fun x => (f x).verdict) xs) k)
      (.after (Evaluation.countHolding (fun y => (g y).verdict) ys) k') := by
  induction h generalizing k k' with
  | nil => exact hk 0
  | cons h _ ih =>
    rw [after_countHolding, after_countHolding]
    exact hQ.ask h fun b => ih fun n => hk _

/-! ## Strings and numbers -/

variable [Host] in
theorem stringRules (hQ : Compatible Name Ask Q) (formats : Formats) (k : StringKeywords)
    (s : String) : Q (.str s) p q (stringRules formats k s p) (stringRules formats k s q) := by
  refine hQ.inTurn (.cons (hQ.limitRule _ _ rfl _ _) (.cons (hQ.limitRule _ _ rfl _ _)
    (.cons ?pattern (.cons ?format (.cons ?encoding (.cons ?media .nil))))))
  case pattern =>
    dsimp only [patternRule]
    split
    · exact hQ.done
    · split
      · exact hQ.done
      · exact hQ.after (plain_patternOccurs _ _) fun ok _ =>
          hQ.reportUnless ok (hQ.told fun words => hQ.violation rfl _ _)
  case format =>
    dsimp only [formatRule]
    split
    · exact hQ.done
    · split
      · exact hQ.done
      · exact hQ.after (Format.plain_check _ _ _) fun ok _ =>
          hQ.reportUnless ok (hQ.told fun words => hQ.violation rfl _ _)
  case encoding =>
    dsimp only [contentEncodingRule]
    split
    · exact hQ.reportUnless _ (hQ.violation rfl _ _)
    · exact hQ.done
  case media =>
    dsimp only [contentMediaTypeRule]
    split
    · split
      · exact hQ.done
      · exact hQ.after (plain_isDocument _ _) fun ok _ =>
          hQ.reportUnless ok (hQ.violation rfl _ _)
    · exact hQ.done

theorem numberRules (hQ : Compatible Name Ask Q) (k : NumberKeywords) (n : Number) :
    Q (.num n) p q (numberRules k n p) (numberRules k n q) := by
  refine hQ.inTurn (.cons (hQ.limitRule _ _ rfl _ _) (.cons (hQ.limitRule _ _ rfl _ _)
    (.cons (hQ.limitRule _ _ rfl _ _) (.cons (hQ.limitRule _ _ rfl _ _) (.cons ?_ .nil)))))
  dsimp only [multipleOfRule]
  split
  · exact hQ.done
  · exact hQ.after (plain_isMultiple _ _) fun ok _ =>
      hQ.reportUnless ok (hQ.told fun words => hQ.violation rfl _ _)

/-! ## Arrays -/

variable {self self' : Evaluate} {chain chain' : List String}

/-- Items from a position on, which are the last ones of the whole array. -/
theorem positionalItems (hQ : Compatible Name Ask Q) {additional : Option Json}
    {whole xs schemas : List Json} {i : Nat} (hxs : whole.drop i = xs)
    (h : ∀ x ∈ xs, ∀ s ∈ schemas ++ additional.toList, ∀ p q,
      Q x p q (self x s p []) (self' x s q [])) :
    Q (.arr whole) p q (positionalItems self additional p i xs schemas)
      (positionalItems self' additional q i xs schemas) := by
  induction xs generalizing i schemas with
  | nil => exact hQ.done
  | cons x xs ih =>
    have hi : whole[i]? = some x := by rw [← List.head?_drop, hxs, List.head?_cons]
    have htail : whole.drop (i + 1) = xs := by rw [← List.tail_drop, hxs, List.tail_cons]
    refine hQ.andThen (hQ.index hi ?_)
      (ih htail fun y hy s hs => h y (List.mem_cons_of_mem _ hy) s ?_)
    · have hx := h x List.mem_cons_self
      cases schemas with
      | cons s _ => exact hx s List.mem_cons_self _ _
      | nil =>
        dsimp only [additionalItem]
        split
        · exact hQ.violation rfl _ _
        · exact hx _ (by simp) _ _
        · exact hQ.done
    · rcases List.mem_append.mp hs with hs | hs
      · exact List.mem_append_left _ (List.mem_of_mem_drop hs)
      · exact List.mem_append_right _ hs

theorem uniformItems (hQ : Compatible Name Ask Q) {schema : Json} {whole xs : List Json} {i : Nat}
    (hxs : whole.drop i = xs)
    (h : ∀ x ∈ xs, ∀ p q, Q x p q (self x schema p []) (self' x schema q [])) :
    Q (.arr whole) p q (uniformItems self schema p i xs) (uniformItems self' schema q i xs) := by
  induction xs generalizing i with
  | nil => exact hQ.done
  | cons x xs ih =>
    have hi : whole[i]? = some x := by rw [← List.head?_drop, hxs, List.head?_cons]
    have htail : whole.drop (i + 1) = xs := by rw [← List.tail_drop, hxs, List.tail_cons]
    exact hQ.andThen (hQ.index hi (h x List.mem_cons_self _ _))
      (ih htail fun y hy => h y (List.mem_cons_of_mem _ hy))

theorem itemsRule (hQ : Compatible Name Ask Q) {k : ArrayKeywords} {xs : List Json}
    (h : ∀ x ∈ xs, ∀ s ∈ k.itemSchemas ++ k.additionalItems.toList, ∀ p q,
      Q x p q (self x s p []) (self' x s q [])) :
    Q (.arr xs) p q (itemsRule self k xs p) (itemsRule self' k xs q) := by
  unfold ArrayKeywords.itemSchemas at h
  unfold Evaluation.itemsRule
  split
  · exact hQ.done
  · next hitems =>
    rw [hitems] at h
    exact hQ.positionalItems rfl h
  · next schema hone hitems =>
    rw [hitems] at h
    split at h
    · next he => cases he
    · next he =>
      cases he
      exact absurd rfl (hone _)
    · next he =>
      cases he
      exact hQ.uniformItems rfl fun x hx => h x hx schema List.mem_cons_self

theorem containsRule (hQ : Compatible Name Ask Q) {k : ArrayKeywords} {xs : List Json}
    (h : ∀ x ∈ xs, ∀ s ∈ k.contains.toList, Ask (self x s "" []) (self' x s "" [])) :
    Q (.arr xs) p q (containsRule self k xs p) (containsRule self' k xs q) := by
  unfold Evaluation.containsRule
  split
  · exact hQ.done
  · next wanted hwanted =>
    have hask : List.Forall₂ (fun x y => Ask (self x wanted "" []) (self' y wanted "" [])) xs xs :=
      List.forall₂_same.mpr fun x hx => h x hx wanted (by simp [hwanted])
    exact hQ.someHolds hask fun ok => hQ.reportUnless ok (hQ.violation rfl _ _)

theorem arrayRules (hQ : Compatible Name Ask Q) {n : Node} {xs : List Json}
    (h : Supplies Name Ask Q self self' (.arr xs) chain chain' n) :
    Q (.arr xs) p q (arrayRules self n.array xs p) (arrayRules self' n.array xs q) := by
  refine hQ.inTurn (.cons (hQ.limitRule _ _ rfl _ _) (.cons (hQ.limitRule _ _ rfl _ _)
    (.cons (hQ.reportUnless _ (hQ.violation rfl _ _)) (.cons ?items (.cons ?contains .nil)))))
  case items =>
    refine hQ.itemsRule fun x hx s hs => h.partReported x hx s ?_
    rw [List.mem_append] at hs
    simp only [Node.partReported, List.mem_append]
    tauto
  case contains =>
    exact hQ.containsRule fun x hx s hs => h.partChecked x hx s (List.mem_append_left _ hs)

/-! ## Objects -/

/-- A schema found under a name is one of the schemas by name. -/
theorem mem_map_snd_of_lookup {t : Members} {name : String} {schema : Json}
    (h : t.lookup name = some schema) : schema ∈ t.map Prod.snd :=
  List.mem_map.mpr ⟨_, mem_of_lookup h, rfl⟩

theorem propertiesRule (hQ : Compatible Name Ask Q) {k : ObjectKeywords} {ms : Members}
    (h : ∀ e ∈ ms, ∀ s ∈ k.properties.map Prod.snd, ∀ p q,
      Q e.2 p q (self e.2 s p []) (self' e.2 s q [])) :
    Q (.obj ms) p q (propertiesRule self k ms p) (propertiesRule self' k ms q) := by
  refine hQ.each fun e he => ?_
  obtain ⟨name, child⟩ := e
  dsimp only
  split
  · next schema found => exact hQ.name he (h _ he schema (mem_map_snd_of_lookup found) _ _)
  · exact hQ.done

variable [Host] in
theorem patternPropertiesRule (hQ : Compatible Name Ask Q) {k : ObjectKeywords} {ms : Members}
    (h : ∀ e ∈ ms, ∀ s ∈ k.patternProperties.map Prod.snd, ∀ p q,
      Q e.2 p q (self e.2 s p []) (self' e.2 s q [])) :
    Q (.obj ms) p q (patternPropertiesRule self k ms p) (patternPropertiesRule self' k ms q) := by
  refine hQ.each fun e he => hQ.each fun c hc => ?_
  obtain ⟨name, child⟩ := e
  obtain ⟨pattern, schema⟩ := c
  refine hQ.after (Pattern.plain_occursIn _ _) fun occurs _ => ?_
  cases occurs
  · exact hQ.done
  · exact hQ.name he (h _ he schema (List.mem_map.mpr ⟨_, hc, rfl⟩) _ _)

variable [Host] in
theorem additionalPropertiesRule (hQ : Compatible Name Ask Q) {k : ObjectKeywords} {ms : Members}
    (h : ∀ e ∈ ms, ∀ s ∈ k.additionalProperties.toList, ∀ p q,
      Q e.2 p q (self e.2 s p []) (self' e.2 s q [])) :
    Q (.obj ms) p q (additionalPropertiesRule self k ms p)
      (additionalPropertiesRule self' k ms q) := by
  unfold Evaluation.additionalPropertiesRule
  split
  · exact hQ.done
  · exact hQ.done
  · next schema _ hschema =>
    refine hQ.each fun e he => ?_
    obtain ⟨name, child⟩ := e
    refine hQ.after (plain_isAdditional _ _) fun additional _ => ?_
    cases additional
    · exact hQ.done
    · rw [Bool.not_true, if_neg Bool.false_ne_true, if_neg Bool.false_ne_true]
      split
      · exact hQ.name he (hQ.violation rfl _ _)
      · exact hQ.name he (h _ he schema (by simp [hschema]) _ _)

theorem propertyNamesRule (hQ : Compatible Name Ask Q) {k : ObjectKeywords} {ms : Members}
    (h : ∀ e ∈ ms, ∀ s ∈ k.propertyNames.toList,
      Ask (self (.str e.1) s "" []) (self' (.str e.1) s "" [])) :
    Q (.obj ms) p q (propertyNamesRule self k ms p) (propertyNamesRule self' k ms q) := by
  unfold Evaluation.propertyNamesRule
  split
  · exact hQ.done
  · next schema hschema =>
    refine hQ.each fun e he => ?_
    obtain ⟨name, child⟩ := e
    exact hQ.ask (h _ he schema (by simp [hschema])) fun ok =>
      hQ.reportUnless ok (hQ.refusedName he _ _)

theorem requiredRule (hQ : Compatible Name Ask Q) {k : ObjectKeywords}
    (h : ∀ name ∈ k.required, Name name) (ms : Members) :
    Q (.obj ms) p q (requiredRule k ms p) (requiredRule k ms q) :=
  hQ.each fun name hname => hQ.demand ms (.inl rfl) _ _ (h name hname) _

theorem dependentRequiredRule (hQ : Compatible Name Ask Q) {k : ObjectKeywords}
    (h : ∀ name ∈ k.dependentRequired.flatMap Prod.snd, Name name) (ms : Members) :
    Q (.obj ms) p q (dependentRequiredRule k ms p) (dependentRequiredRule k ms q) := by
  refine hQ.each fun e he => ?_
  obtain ⟨trigger, names⟩ := e
  dsimp only
  split
  · refine hQ.each fun name hname => hQ.demand ms (.inr rfl) _ _ (h name ?_) _
    exact List.mem_flatMap.mpr ⟨_, he, hname⟩
  · exact hQ.done

theorem dependentSchemasRule (hQ : Compatible Name Ask Q) {k : ObjectKeywords} {ms : Members}
    (h : ∀ s ∈ k.dependentSchemas.map Prod.snd, ∀ p q,
      Q (.obj ms) p q (self (.obj ms) s p chain) (self' (.obj ms) s q chain')) :
    Q (.obj ms) p q (dependentSchemasRule self k ms p chain)
      (dependentSchemasRule self' k ms q chain') := by
  refine hQ.each fun e he => ?_
  obtain ⟨trigger, schema⟩ := e
  dsimp only
  split
  · exact h schema (List.mem_map.mpr ⟨_, he, rfl⟩) _ _
  · exact hQ.done

variable [Host] in
theorem objectRules (hQ : Compatible Name Ask Q) {n : Node} {ms : Members}
    (h : Supplies Name Ask Q self self' (.obj ms) chain chain' n) :
    Q (.obj ms) p q (objectRules self n.object ms p chain)
      (objectRules self' n.object ms q chain') := by
  have hmember : ∀ e ∈ ms, e.2 ∈ (Json.obj ms).parts := fun e he =>
    List.mem_append_left _ (List.mem_map.mpr ⟨e, he, rfl⟩)
  have hname : ∀ e ∈ ms, Json.str e.1 ∈ (Json.obj ms).parts := fun e he =>
    List.mem_append_right _ (List.mem_map.mpr ⟨e, he, rfl⟩)
  refine hQ.inTurn (.cons (hQ.limitRule _ _ rfl _ _) (.cons (hQ.limitRule _ _ rfl _ _)
    (.cons (hQ.requiredRule ?required ms) (.cons (hQ.propertiesRule ?properties)
    (.cons (hQ.patternPropertiesRule ?patterns) (.cons (hQ.additionalPropertiesRule ?additional)
    (.cons (hQ.propertyNamesRule ?names) (.cons (hQ.dependentRequiredRule ?demands ms)
    (.cons (hQ.dependentSchemasRule ?schemas) .nil)))))))))
  case required => exact fun name hs => h.demanded name (List.mem_append_left _ hs)
  case demands => exact fun name hs => h.demanded name (List.mem_append_right _ hs)
  case names => exact fun e he s hs => h.partChecked _ (hname e he) s (List.mem_append_right _ hs)
  case schemas =>
    refine fun s hs => h.reported s ?_
    simp only [Node.reported, List.mem_append]
    tauto
  all_goals
    refine fun e he s hs => h.partReported _ (hmember e he) s ?_
    simp only [Node.partReported, List.mem_append]
    tauto

/-! ## Combinations -/

theorem allOfRule (hQ : Compatible Name Ask Q) {schemas : Option (List Json)}
    (h : ∀ s ∈ schemas.getD [], ∀ p q, Q v p q (self v s p chain) (self' v s q chain')) :
    Q v p q (allOfRule self schemas v p chain) (allOfRule self' schemas v q chain') := by
  cases schemas with
  | none => exact hQ.done
  | some schemas => exact hQ.summary (hQ.each fun s hs => h s hs p q) (hQ.violation rfl _ _)

theorem anyOfRule (hQ : Compatible Name Ask Q) {schemas : Option (List Json)}
    (h : ∀ s ∈ schemas.getD [], Ask (self v s "" chain) (self' v s "" chain')) :
    Q v p q (anyOfRule self schemas v p chain) (anyOfRule self' schemas v q chain') := by
  cases schemas with
  | none => exact hQ.done
  | some schemas =>
    exact hQ.someHolds (List.forall₂_same.mpr h) fun ok =>
      hQ.reportUnless ok (hQ.violation rfl _ _)

theorem oneOfRule (hQ : Compatible Name Ask Q) {schemas : Option (List Json)}
    (h : ∀ s ∈ schemas.getD [], Ask (self v s "" chain) (self' v s "" chain')) :
    Q v p q (oneOfRule self schemas v p chain) (oneOfRule self' schemas v q chain') := by
  cases schemas with
  | none => exact hQ.done
  | some schemas =>
    refine hQ.countHolding (List.forall₂_same.mpr h) fun n => ?_
    match n with
    | 0 => exact hQ.violation rfl _ _
    | 1 => exact hQ.done
    | n + 2 => exact hQ.violation rfl _ _

theorem notRule (hQ : Compatible Name Ask Q) {schema : Option Json}
    (h : ∀ s ∈ schema.toList, Ask (self v s "" chain) (self' v s "" chain')) :
    Q v p q (notRule self schema v p chain) (notRule self' schema v q chain') := by
  cases schema with
  | none => exact hQ.done
  | some schema =>
    exact hQ.ask (h schema List.mem_cons_self) fun ok => hQ.reportUnless _ (hQ.violation rfl _ _)

theorem conditionalRule (hQ : Compatible Name Ask Q) {k : ConditionalKeywords}
    (htest : ∀ s ∈ k.test.toList, Ask (self v s "" chain) (self' v s "" chain'))
    (hchosen : ∀ s ∈ k.accepted.toList ++ k.rejected.toList, ∀ p q,
      Q v p q (self v s p chain) (self' v s q chain')) :
    Q v p q (conditionalRule self k v p chain) (conditionalRule self' k v q chain') := by
  unfold Evaluation.conditionalRule
  split
  · exact hQ.done
  · next test hdeclared =>
    refine hQ.ask (htest test (by simp [hdeclared])) fun ok => ?_
    split
    · next schema hschema =>
      refine hchosen schema ?_ p q
      cases ok <;> simp_all
    · exact hQ.done

theorem combinationRules (hQ : Compatible Name Ask Q) {n : Node}
    (h : Supplies Name Ask Q self self' v chain chain' n) :
    Q v p q (combinationRules self n v p chain) (combinationRules self' n v q chain') := by
  refine hQ.inTurn (.cons (hQ.allOfRule fun s hs => h.reported s ?_)
    (.cons (hQ.anyOfRule fun s hs => h.checked s ?_)
    (.cons (hQ.oneOfRule fun s hs => h.checked s ?_)
    (.cons (hQ.notRule fun s hs => h.checked s ?_)
    (.cons (hQ.conditionalRule (fun s hs => h.checked s ?_) fun s hs => h.reported s ?_) .nil)))))
  all_goals
    simp only [Node.reported, Node.checked, List.mem_append] at hs ⊢
    tauto

/-! ## One node -/

theorem typeMismatch (hQ : Compatible Name Ask Q) (types : List Json) (v : Json) :
    Q v p q (typeMismatch types v p) (typeMismatch types v q) := by
  refine hQ.after (plain_typeWords _) fun words _ => ?_
  split
  · exact hQ.stop rfl
  · exact hQ.violation rfl _ _
  · exact hQ.violation rfl _ _

theorem nullMismatch (hQ : Compatible Name Ask Q) (n : Node) :
    Q .null p q (nullMismatch n p) (nullMismatch n q) := by
  refine hQ.after ?_ fun words _ => hQ.violation rfl _ _
  split
  · exact plain_typeWords _
  · exact .ok _

theorem unsettledRule (hQ : Compatible Name Ask Q) (n : Node) (v : Json) :
    Q v p q (unsettledRule n v p) (unsettledRule n v q) := by
  refine hQ.andThen ?_ ?_
  · split
    · exact hQ.told fun words => hQ.violation rfl _ _
    · exact hQ.done
  · split
    · exact hQ.reportUnless _ (hQ.told fun choices => hQ.violation rfl _ _)
    · exact hQ.done

variable {scope scope' : Scope} {n : Node}

section

variable [Host]

theorem kindRules (hQ : Compatible Name Ask Q) (hformats : scope.formats = scope'.formats)
    (h : Supplies Name Ask Q self self' v chain chain' n) :
    Q v p q (kindRules scope self n v p chain) (kindRules scope' self' n v q chain') := by
  cases v with
  | str s =>
    dsimp only [Evaluation.kindRules]
    rw [hformats]
    exact hQ.stringRules _ _ _
  | num m => exact hQ.numberRules _ _
  | arr xs => exact hQ.arrayRules h
  | obj ms => exact hQ.objectRules h
  | _ => exact hQ.done

theorem settledRules (hQ : Compatible Name Ask Q) (hformats : scope.formats = scope'.formats)
    (h : Supplies Name Ask Q self self' v chain chain' n) :
    Q v p q (settledRules scope self n v p chain) (settledRules scope' self' n v q chain') := by
  unfold Evaluation.settledRules
  split
  · exact hQ.done
  · exact hQ.inTurn (.cons (hQ.unsettledRule n v)
      (.cons (hQ.kindRules hformats h) (.cons (hQ.combinationRules h) .nil)))

theorem typedRules (hQ : Compatible Name Ask Q) (hformats : scope.formats = scope'.formats)
    (h : Supplies Name Ask Q self self' v chain chain' n) :
    Q v p q (typedRules scope self n v p chain) (typedRules scope' self' n v q chain') := by
  unfold Evaluation.typedRules
  split
  · split
    · exact hQ.settledRules hformats h
    · exact hQ.typeMismatch _ _
  · exact hQ.settledRules hformats h

/-- The rules of one node keep a relation that holds between all that the node asks for. -/
theorem nodeRules (hQ : Compatible Name Ask Q) (hformats : scope.formats = scope'.formats)
    (h : Supplies Name Ask Q self self' v chain chain' n) :
    Q v p q (nodeRules scope self n v p chain) (nodeRules scope' self' n v q chain') := by
  unfold Evaluation.nodeRules
  split
  · exact hQ.absent _ _
  · split
    · exact hQ.done
    · split
      · exact hQ.nullMismatch n
      · exact hQ.typedRules hformats h
  · exact hQ.typedRules hformats h

/-- One step keeps a relation that holds wherever the step goes: between all that a node asks for,
or between what comes of following a reference. -/
theorem step (hQ : Compatible Name Ask Q) {schema : Json}
    (hformats : scope.formats = scope'.formats)
    (hnode : ∀ n, schema.ReadsAs n → Supplies Name Ask Q self self' v chain chain' n)
    (hfollow : ∀ ms ref, schema = .obj ms → Table.keyword ms "$ref" = some ref →
      Q v p q (followRule scope self ref v p chain) (followRule scope' self' ref v q chain')) :
    Q v p q (step scope self v schema p chain) (step scope' self' v schema q chain') := by
  unfold Evaluation.step
  cases schema with
  | bool b =>
    cases b
    · exact hQ.violation rfl _ _
    · exact hQ.done
  | obj ms =>
    dsimp only
    split
    · next ref href => exact hfollow ms ref rfl href
    · next href =>
      exact hQ.after (Node.plain_ofMembers ms) fun n hn =>
        hQ.nodeRules hformats (hnode n (.keywords href hn))
  | _ => exact hQ.stop rfl

/-- One step compared with itself. Many relations only mind the first of two traces. -/
theorem step_self (hQ : Compatible Name Ask Q) {schema : Json}
    (hnode : ∀ n, schema.ReadsAs n → Supplies Name Ask Q self self v chain chain n)
    (hfollow : ∀ ms ref, schema = .obj ms → Table.keyword ms "$ref" = some ref →
      Q v p p (followRule scope self ref v p chain) (followRule scope self ref v p chain)) :
    Q v p p (Evaluation.step scope self v schema p chain)
      (Evaluation.step scope self v schema p chain) :=
  hQ.step rfl hnode hfollow

end

end Compatible

/-- A relation between a trace at a place `p` and a trace at a place `q` that is kept by all
that rules do, whatever the value is. A rule goes on from a trace of the same place or of a part of
it, or from the verdict of a trace at the front. -/
structure Congruence (Q : (p q : String) → (t u : Trace Violation) → Prop) : Prop where
  done {p q : String} : Q p q .done .done
  stop {p q : String} {f : Fault} (h : f.isOfDepth = false) : Q p q (.stop f) (.stop f)
  violation {p q : String} (code : Code) (message : String) (value constraint : Json) :
    Q p q (violation p code message value constraint) (violation q code message value constraint)
  demanded {p q : String} (name : Json) (code : Code) (message : String) (constraint : Json) :
    Q p q (.find ⟨Path.demanded p name, code, message, .null, constraint⟩)
      (.find ⟨Path.demanded q name, code, message, .null, constraint⟩)
  andThen {p q : String} {t u t' u' : Trace Violation} (h : Q p q t u) (h' : Q p q t' u') :
    Q p q (t.andThen fun _ => t') (u.andThen fun _ => u')
  summary {p q : String} {t u t' u' : Trace Violation} (h : Q p q t u) (h' : Q p q t' u') :
    Q p q (t.andThen fun _ => reportUnless t.found.isEmpty t')
      (u.andThen fun _ => reportUnless u.found.isEmpty u')
  name {p q : String} {t u : Trace Violation} (m : String)
    (h : Q (Path.name p m) (Path.name q m) t u) : Q p q t u
  index {p q : String} {t u : Trace Violation} (i : Nat)
    (h : Q (Path.index p i) (Path.index q i) t u) : Q p q t u
  ask {p q : String} {t u : Trace Violation} {k k' : Bool → Trace Violation} (h : Q "" "" t u)
    (h' : ∀ b, Q p q (k b) (k' b)) : Q p q (.after t.verdict k) (.after u.verdict k')

namespace Congruence

variable {Q : (p q : String) → (t u : Trace Violation) → Prop} {p q : String}
  {self self' : Evaluate} {value : Json} {chain chain' : List String} {scope scope' : Scope}

/-- A congruence is compatible with rules, asking through itself at the front. -/
theorem compatible (hQ : Congruence Q) :
    Compatible (fun _ => True) (Q "" "") fun _ p q t u => Q p q t u where
  done := hQ.done
  stop h := hQ.stop (Fault.isOfDepth_of_isPlain h)
  violation _ message constraint := hQ.violation _ message _ constraint
  absent message constraint := hQ.violation _ message _ constraint
  missing _ _ _ message constraint := hQ.demanded _ _ message constraint
  refusedName _ message constraint := hQ.name _ (hQ.violation _ message _ constraint)
  andThen h h' := hQ.andThen h h'
  summary h h' := hQ.summary h h'
  name _ h := hQ.name _ h
  index _ h := hQ.index _ h
  ask h h' := hQ.ask h h'

variable [Host] in
/-- One step keeps a congruence that holds wherever the step goes: to the schemas of a node for
the same value behind the same chain, to those for the parts of the value behind an empty chain,
or to what a reference leads to. -/
theorem step (hQ : Congruence Q) {schema : Json} (hformats : scope.formats = scope'.formats)
    (hagain : ∀ ms n, schema = .obj ms → Table.keyword ms "$ref" = none →
      Node.ofMembers ms = .ok n → ∀ s ∈ n.again, ∀ p q,
        Q p q (self value s p chain) (self' value s q chain'))
    (hinto : ∀ ms n, schema = .obj ms → Table.keyword ms "$ref" = none →
      Node.ofMembers ms = .ok n → ∀ v ∈ value.parts, ∀ s ∈ n.into, ∀ p q,
        Q p q (self v s p []) (self' v s q []))
    (hfollow : ∀ ms ref, schema = .obj ms → Table.keyword ms "$ref" = some ref →
      Q p q (followRule scope self ref value p chain)
        (followRule scope' self' ref value q chain')) :
    Q p q (step scope self value schema p chain) (step scope' self' value schema q chain') := by
  refine hQ.compatible.step hformats (fun n hn => ?_) hfollow
  obtain ⟨href, hn⟩ := hn
  have again := hagain _ n rfl href hn
  have into := hinto _ n rfl href hn
  exact {
    demanded := fun _ _ => trivial
    reported := fun s hs => again s (n.reported_subset hs)
    checked := fun s hs => again s (n.checked_subset hs) "" ""
    partReported := fun v hv s hs => into v hv s (n.partReported_subset hs)
    partChecked := fun v hv s hs => into v hv s (n.partChecked_subset hs) "" "" }

/-- Following a reference keeps a congruence, where both sides permit it or neither does. -/
theorem followRule (hQ : Congruence Q) {ref : Json} (hroot : scope.root = scope'.root)
    (hpermit : Pointer.permit scope.guarded ref chain = Pointer.permit scope'.guarded ref chain')
    (hstop : ∀ f, Pointer.permit scope.guarded ref chain = .error f → Q p q (.stop f) (.stop f))
    (h : Pointer.permit scope.guarded ref chain = .ok () →
      ∀ target, referred scope ref = .ok target →
      Q p q (self value target p (Pointer.lengthen chain ref))
        (self' value target q (Pointer.lengthen chain' ref))) :
    Q p q (followRule scope self ref value p chain)
      (followRule scope' self' ref value q chain') := by
  have hreferred : referred scope' ref = referred scope ref := by
    unfold referred
    rw [hroot]
  unfold Evaluation.followRule
  rw [← hpermit, hreferred]
  cases hp : Pointer.permit scope.guarded ref chain with
  | error f => exact hstop f hp
  | ok u =>
    cases hr : referred scope ref with
    | error f => exact hQ.stop (shallow_referred scope ref f hr)
    | ok target => exact h hp target hr

end Congruence

end Evaluation

end Conform
