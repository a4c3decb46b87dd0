import Conform.Proofs.Dependencies
import Conform.Proofs.MissingCapabilities

/-!
# Conform.Proofs.ComposedTests

Two ways to ask whether a value fits a combination of schemas. A form is given a test, which asks
for a verdict of each schema:

```
allOf   until one does not accept
anyOf   until one accepts
oneOf   of all of them, and counts
```

Evaluation reads a schema with this one keyword. Its rules report what they find, `allOf` all that
its schemas report and then a summary, and a verdict is given on the first report. The outcome is
the same (`Composition.holds_eq_accepts`): the same verdict, and where a schema cannot be read, the
same fault.
-/

namespace Conform

/-! ## Verdicts of rules -/

namespace Trace

/-- Readings in turn end without a find if each of them does, and are asked no further than the
first one that does not. -/
theorem verdict_each {α β : Type} (f : β → Trace α) (xs : List β) :
    (each f xs).verdict = Evaluation.allHold (fun x => (f x).verdict) xs := by
  induction xs with
  | nil => rfl
  | cons x xs ih =>
    rw [each, verdict_andThen, Evaluation.allHold, ih]
    cases (f x).verdict with
    | error f => rfl
    | ok b => cases b <;> rfl

end Trace

namespace Evaluation

section

variable {α : Type} {test test' : α → Except Fault Bool} {xs : List α}

theorem allHold_congr (h : ∀ x ∈ xs, test x = test' x) : allHold test xs = allHold test' xs := by
  induction xs with
  | nil => rfl
  | cons x xs ih =>
    obtain ⟨hx, hxs⟩ := List.forall_mem_cons.mp h
    rw [allHold, allHold, hx, ih hxs]

theorem someHolds_congr (h : ∀ x ∈ xs, test x = test' x) :
    someHolds test xs = someHolds test' xs := by
  induction xs with
  | nil => rfl
  | cons x xs ih =>
    obtain ⟨hx, hxs⟩ := List.forall_mem_cons.mp h
    rw [someHolds, someHolds, hx, ih hxs]

theorem countHolding_congr (h : ∀ x ∈ xs, test x = test' x) :
    countHolding test xs = countHolding test' xs := by
  induction xs with
  | nil => rfl
  | cons x xs ih =>
    obtain ⟨hx, hxs⟩ := List.forall_mem_cons.mp h
    rw [countHolding, countHolding, hx, ih hxs]

end

variable (scope : Scope) (self : Evaluate) (schemas : List Json) (value : Json) (path : String)
  (chain : List String)

/-- A report that is made on a verdict gives this verdict back. -/
theorem verdict_after_reportUnless (r : Except Fault Bool) (report : Violation) :
    (Trace.after r fun ok => reportUnless ok (.find report)).verdict = r := by
  cases r with
  | error f => rfl
  | ok b => cases b <;> rfl

theorem verdict_allOfRule :
    (allOfRule self (some schemas) value path chain).verdict =
      allHold (fun s => (self value s path chain).verdict) schemas := by
  rw [allOfRule, verdict_summary, Trace.verdict_each]

theorem verdict_anyOfRule :
    (anyOfRule self (some schemas) value path chain).verdict =
      someHolds (fun s => accepts self value s chain) schemas :=
  verdict_after_reportUnless _ _

theorem verdict_oneOfRule :
    (oneOfRule self (some schemas) value path chain).verdict =
      (countHolding (fun s => accepts self value s chain) schemas).map (· == 1) := by
  rw [oneOfRule, Trace.verdict_after]
  cases countHolding (fun s => accepts self value s chain) schemas with
  | error f => rfl
  | ok count =>
    rcases count with _ | _ | _
    · rfl
    · rfl
    · rfl

/-! ## Schemas that only combine schemas -/

variable [Host] in
/-- Where no keyword is declared for a kind of values, nothing is reported of them. -/
theorem kindRules_composition (k : CompositionKeywords) :
    kindRules scope self { composition := k } value path chain = .done := by
  cases value with
  | obj ms => exact objectRules_dependent self [] [] ms path chain
  | _ => rfl

variable [Host] in
/-- A value that is there and not null meets only the rules that combine schemas. -/
theorem nodeRules_composition (k : CompositionKeywords) (hnull : value ≠ .null)
    (habsent : value ≠ .absent) :
    nodeRules scope self { composition := k } value path chain =
      combinationRules self { composition := k } value path chain := by
  have hsettled : nodeRules scope self { composition := k } value path chain =
      settledRules scope self { composition := k } value path chain := by
    cases value with
    | null => exact absurd rfl hnull
    | absent => exact absurd rfl habsent
    | _ => rfl
  have hopen : isSettled { composition := k } value = false := rfl
  have hunsettled : unsettledRule { composition := k } value path = .done := rfl
  rw [hsettled, settledRules, hopen, if_neg Bool.false_ne_true]
  simp only [Trace.inTurn, hunsettled, kindRules_composition, Trace.done_andThen,
    Trace.andThen_done]

end Evaluation

namespace Form

namespace Composition

/-- The keyword of a composition. -/
def keyword : Composition → String
  | allOf => "allOf"
  | anyOf => "anyOf"
  | oneOf => "oneOf"

/-- What constraints hold for the keyword of a composition. -/
def constraint (c : Constraints) : Composition → Json
  | allOf => c.allOf
  | anyOf => c.anyOf
  | oneOf => c.oneOf

/-- The keywords of a schema that does no more than combine schemas. -/
def keywords (schemas : List Json) : Composition → CompositionKeywords
  | allOf => { allOf := some schemas }
  | anyOf => { anyOf := some schemas }
  | oneOf => { oneOf := some schemas }

/-- What verdicts on schemas come to. -/
def combine (rule : Composition) (test : Json → Except Fault Bool) (schemas : List Json) :
    Except Fault Bool :=
  match rule with
  | allOf => Evaluation.allHold test schemas
  | anyOf => Evaluation.someHolds test schemas
  | oneOf => (Evaluation.countHolding test schemas).map (· == 1)

variable (rule : Composition) (schemas : List Json)

theorem ofMembers_eq : Node.ofMembers [(rule.keyword, .arr schemas)] =
    .ok { composition := rule.keywords schemas } := by
  cases rule <;> rfl

theorem keyword_ne_ref : Table.keyword [(rule.keyword, .arr schemas)] "$ref" = none := by
  cases rule <;> rfl

theorem combine_congr {test test' : Json → Except Fault Bool} {schemas : List Json}
    (h : ∀ s ∈ schemas, test s = test' s) :
    rule.combine test schemas = rule.combine test' schemas := by
  cases rule with
  | allOf => exact Evaluation.allHold_congr h
  | anyOf => exact Evaluation.someHolds_congr h
  | oneOf => exact congrArg (Except.map _) (Evaluation.countHolding_congr h)

variable [Host] in
theorem holds_eq (root : Option Json) (formats : Formats) (value : Json) :
    (Predicate.composition rule (.arr schemas)).holds root formats value =
      rule.combine (fun s => Conform.accepts value s root formats) schemas := by
  cases rule with
  | allOf => rfl
  | anyOf => rfl
  | oneOf =>
    have hbind : (Predicate.composition oneOf (.arr schemas)).holds root formats value =
        Evaluation.countHolding (fun s => Conform.accepts value s root formats) schemas >>=
          fun count => .ok (count == 1) := rfl
    rw [hbind, combine]
    cases Evaluation.countHolding (fun s => Conform.accepts value s root formats) schemas <;> rfl

/-- The rules of a composition come to a verdict as its test does. -/
theorem verdict_combinationRules (self : Evaluate) (value : Json) (chain : List String) :
    (Evaluation.combinationRules self { composition := rule.keywords schemas } value ""
        chain).verdict =
      rule.combine (fun s => (self value s "" chain).verdict) schemas := by
  -- of the five rules one is left, with nothing before and behind it
  cases rule with
  | allOf =>
    have honly := Trace.andThen_done (Evaluation.allOfRule self (some schemas) value "" chain)
    exact (congrArg Trace.verdict honly).trans (Evaluation.verdict_allOfRule ..)
  | anyOf =>
    have honly := Trace.andThen_done (Evaluation.anyOfRule self (some schemas) value "" chain)
    exact (congrArg Trace.verdict honly).trans (Evaluation.verdict_anyOfRule ..)
  | oneOf =>
    have honly := Trace.andThen_done (Evaluation.oneOfRule self (some schemas) value "" chain)
    exact (congrArg Trace.verdict honly).trans (Evaluation.verdict_oneOfRule ..)

variable [Host] in
/-- The test of a composition answers what evaluation of the composition alone does. -/
theorem holds_eq_accepts (root : Json) (formats : Formats) {value : Json} (hnull : value ≠ .null)
    (habsent : value ≠ .absent) :
    (Predicate.composition rule (.arr schemas)).holds (some root) formats value =
      Conform.accepts value (.obj [(rule.keyword, .arr schemas)]) (some root) formats := by
  obtain ⟨self, hrun, hself⟩ := Evaluation.exists_run_eq_nodeRules (rule.keyword_ne_ref schemas)
    (rule.ofMembers_eq schemas) value root "" formats
  have hinside : ∀ s ∈ schemas, Within [(rule.keyword, .arr schemas)] s := fun s hs =>
    (Within.member List.mem_cons_self).of_item hs
  rw [holds_eq, Conform.accepts, hrun, Evaluation.nodeRules_composition _ _ _ _ _ _ hnull habsent,
    verdict_combinationRules]
  refine rule.combine_congr fun s hs => ?_
  rw [hself s (hinside s hs), Conform.accepts]

end Composition

/-! ## Tests that a form is given -/

/-- The compositions that are put to a form. Beside a constant there are none. -/
def declared (c : Constraints) : List Composition :=
  if c.const = .absent then
    [.allOf, .anyOf, .oneOf].filter fun rule => rule.constraint c != .null
  else []

variable {f : Form} {formats : Formats} {c : Constraints}

theorem method?_custom (hcustom : f.offers "custom" = true) :
    f.interface.method? "custom" = some "custom" := by
  obtain ⟨method, hmethod⟩ := Option.isSome_iff_exists.mp hcustom
  have hname : method ∈ ["custom", "custom"] := List.mem_of_find?_eq_some hmethod
  rw [hmethod]
  simpa using hname

/-- What keywords other than compositions ask for goes by other names. -/
theorem custom_notMem_spellings {k : Keyword} (hk : k.isComposition = false) {capability : String}
    (hcapability : capability ∈ k.capabilities) : "custom" ∉ spellings capability := by
  intro hspelling
  have hcanonical := k.capabilities_subset hcapability
  have hname : "custom" = capability :=
    eq_of_mem_spellings capability hcanonical "custom" hspelling (by decide)
  subst hname
  revert hcapability hk
  cases k <;> decide

variable [Host] in
/-- The calls of compositions are those by their name. -/
theorem name_eq_custom {ks : List Keyword} {as : List (Keyword × Request)}
    (hcustom : f.offers "custom" = true) (has : asked formats c ks = .ok as) :
    ∀ m ∈ f.made as, (m.2.name == "custom") = m.1.isComposition := by
  intro m hm
  obtain ⟨a, ha, hm⟩ := List.mem_flatMap.mp hm
  obtain ⟨call, hcall, rfl⟩ := List.mem_map.mp hm
  obtain ⟨method, hmethod, rfl⟩ := List.mem_map.mp hcall
  have hfound : f.interface.method? a.2.capability = some method := Option.mem_toList.mp hmethod
  have hcapability := (asked_mem has ha).2
  cases hk : a.1.isComposition with
  | true =>
    have hname : a.2.capability = "custom" := by
      revert hcapability hk
      cases a.1 <;> simp [Keyword.isComposition, Keyword.capabilities]
    rw [hname, method?_custom hcustom] at hfound
    cases hfound
    rfl
  | false =>
    have hspelling : method ∈ spellings a.2.capability := List.mem_of_find?_eq_some hfound
    refine beq_false_of_ne fun hname => ?_
    rw [show method = "custom" from hname] at hspelling
    exact custom_notMem_spellings hk hcapability hspelling

/-- The call that a form is given the test of a composition by. -/
def testing (f : Form) (c : Constraints) (rule : Composition) : Call :=
  ⟨"custom", [.predicate (.composition rule (rule.constraint c))], none, f.branch⟩

theorem callsFor_composing (hcustom : f.offers "custom" = true) (rule : Composition) :
    (composing rule (rule.constraint c)).flatMap f.callsFor =
      ([rule].filter fun rule => rule.constraint c != .null).map (f.testing c) := by
  by_cases hnull : rule.constraint c = .null
  · simp [composing, hnull]
  · simp [composing, hnull, callsFor, method?_custom hcustom, testing]

variable [Host] in
/-- What compositions ask for leads to a call for each that is declared. -/
theorem made_compositions {as : List (Keyword × Request)} (hcustom : f.offers "custom" = true)
    (has : asked formats c (considered c) = .ok as) :
    (f.made (as.filter fun a => a.1.isComposition)).map Prod.snd =
      (declared c).map (f.testing c) := by
  have hasked := asked_filter Keyword.isComposition has
  by_cases hconst : c.const = .absent
  · have hparts : asked formats c ((considered c).filter Keyword.isComposition) =
        .ok (Keyword.tag .allOf (composing .allOf c.allOf) ++
          (Keyword.tag .anyOf (composing .anyOf c.anyOf) ++
            (Keyword.tag .oneOf (composing .oneOf c.oneOf) ++ []))) := by
      rw [considered, if_pos hconst]
      rfl
    have hdeclared : declared c = [Composition.allOf].filter (·.constraint c != .null) ++
        ([Composition.anyOf].filter (·.constraint c != .null) ++
          [Composition.oneOf].filter (·.constraint c != .null)) := by
      rw [declared, if_pos hconst, ← List.filter_append, ← List.filter_append]
      rfl
    rw [← Except.ok.inj (hparts.symm.trans hasked), map_snd_made, hdeclared]
    simp only [List.map_append, Keyword.map_snd_tag, List.flatMap_append,
      List.append_nil]
    rw [← callsFor_composing hcustom, ← callsFor_composing hcustom, ← callsFor_composing hcustom]
    rfl
  · have hnone : asked formats c ((considered c).filter Keyword.isComposition) = .ok [] := by
      rw [considered, if_neg hconst]
      rfl
    rw [← Except.ok.inj (hnone.symm.trans hasked), declared, if_neg hconst]
    rfl

variable [Host] in
/-- The tests that a form is given for constraints are those of the compositions that are declared,
in order, each by a call of its own. Each test answers, for a value that is there and not null, what
evaluation of the same schemas under the keyword of the composition does: it accepts, or does not,
or fails with the same fault. -/
theorem constrain_tests {built : Form} (hcustom : f.offers "custom" = true)
    (h : f.constrain formats c = .ok built) :
    (built.calls.filter fun call => call.name == "custom") =
      (f.calls.filter fun call => call.name == "custom") ++ (declared c).map (f.testing c) ∧
    ∀ rule ∈ declared c, ∀ schemas, rule.constraint c = .arr schemas →
      ∀ root value, value ≠ .null → value ≠ .absent →
        (Predicate.composition rule (rule.constraint c)).holds (some root) formats value =
          Conform.accepts value (.obj [(rule.keyword, .arr schemas)]) (some root) formats := by
  rw [constrain_eq] at h
  cases has : asked formats c (considered c) with
  | error e =>
    rw [has] at h
    cases h
  | ok as =>
    rw [has] at h
    cases h
    have hnames : ((f.made as).map Prod.snd).filter (fun call => call.name == "custom") =
        (declared c).map (f.testing c) := by
      rw [List.filter_map, ← made_compositions hcustom has, ← made_filter]
      exact congrArg _ (List.filter_congr fun m hm => name_eq_custom hcustom has m hm)
    refine ⟨?_, fun rule _ schemas hschemas root value hnull habsent => ?_⟩
    · rw [calls_requestAll_asked, List.filter_append, hnames]
    · rw [hschemas]
      exact rule.holds_eq_accepts schemas root formats hnull habsent

/-- A form that takes tests and nothing else. -/
def testable : Form := { interface := ⟨["custom"], []⟩ }

/-- A text, or what a reference leads to. -/
def textOrReferred : List Json :=
  [.obj [("type", .str "string")], .obj [("$ref", .str "#/target")]]

open Sample in
/-- The test accepts a text without following the reference. For a number it has to follow it, and
fails where the document has no such member, as evaluation does. -/
theorem textOrReferred_tested :
    testable.offers "custom" = true ∧
    ∃ built, testable.constrain [] { anyOf := .arr textOrReferred } = .ok built ∧
      (built.calls.filter fun call => call.name == "custom") =
        [⟨"custom", [.predicate (.composition .anyOf (.arr textOrReferred))], none, ""⟩] ∧
      (Predicate.composition .anyOf (.arr textOrReferred)).holds (some (.obj [])) []
        (.str "a") = .ok true ∧
      (Predicate.composition .anyOf (.arr textOrReferred)).holds (some (.obj [])) []
        (.num (.int 5)) = .error (.danglingReference "#/target" "target") := by
  have hcustom : testable.offers "custom" = true := by rfl
  obtain ⟨built, hbuilt⟩ :
      ∃ built, testable.constrain [] { anyOf := .arr textOrReferred } = .ok built := ⟨_, by rfl⟩
  obtain ⟨hcalls, hholds⟩ := constrain_tests hcustom hbuilt
  have htests := hholds .anyOf (by decide) textOrReferred rfl (.obj [])
  refine ⟨hcustom, built, hbuilt, hcalls.trans (by rfl), ?text, ?number⟩
  case text => exact (htests (.str "a") (by decide) (by decide)).trans (by cbv)
  case number => exact (htests (.num (.int 5)) (by decide) (by decide)).trans (by cbv)

end Form

end Conform
