import Conform.Proofs.Location
import Conform.Proofs.Shuffling
import Conform.Proofs.Termination
import Mathlib

/-!
# Conform.Proofs.Dependencies

What the presence of a member asks for stands in three keywords:

```
"dependencies": {"a": ["b"], "c": schema}    demands and schemas, mixed
"dependentRequired": {"a": ["d"]}            demands alone
"dependentSchemas": {"c": schema}            schemas alone
```

A schema of these keywords accepts an object just when each keyword alone does. There is one
exception, as for `a` and `c` above: what `dependencies` asks for with a member is dropped when the
keyword for its kind names the member too. So the statement is about the entries of `dependencies`
that stand (`Node.standing`), and where no member is named twice these are all.
-/

namespace Conform

/-! ## Traces that end without a find -/

namespace Trace

variable {α β : Type}

theorem andThen_eq_done_iff (t : Trace α) (next : Unit → Trace α) :
    t.andThen next = done ↔ t = done ∧ next () = done := by
  obtain ⟨found, fault⟩ := t
  cases fault with
  | some f => simp [andThen, done]
  | none =>
    cases hnext : next () with
    | mk found' fault' => simp [andThen, done, hnext, and_assoc]

theorem each_eq_done_iff (f : β → Trace α) (xs : List β) :
    each f xs = done ↔ ∀ x ∈ xs, f x = done := by
  induction xs with
  | nil => simp [each]
  | cons x xs ih => simp [each, andThen_eq_done_iff, ih]

theorem after_eq_done_iff (r : Except Fault β) (next : β → Trace α) :
    after r next = done ↔ ∃ x, r = .ok x ∧ next x = done := by
  cases r with
  | error f => simp [after, stop, done]
  | ok x => simp [after]

theorem ite_eq_done_iff (c : Bool) (t : Trace α) :
    (if c then t else done) = done ↔ (c = true → t = done) := by
  cases c <;> simp

end Trace

theorem Table.mem_iff_lookup {α : Type} {t : Table α} (ht : (t.map Prod.fst).Nodup) {k : String}
    {v : α} : (k, v) ∈ t ↔ t.lookup k = some v :=
  ⟨lookup_of_mem ht, mem_of_lookup⟩

/-! ## Keywords that declare dependencies -/

theorem Json.optionalMembers_obj (ms : Members) : (Json.obj ms).optionalMembers = .ok ms := by
  cases ms <;> rfl

namespace Node

/-- The only keywords are those for dependencies, and hold these entries. One of them may be missing
where it has none. -/
structure Depends (ms mixed required schemas : Members) : Prop where
  only : ∀ k, k ∉ ["dependencies", "dependentRequired", "dependentSchemas"] → ms.lookup k = none
  dependencies : ((ms.lookup "dependencies").getD .null).optionalMembers = .ok mixed
  dependentRequired : ((ms.lookup "dependentRequired").getD .null).optionalMembers = .ok required
  dependentSchemas : ((ms.lookup "dependentSchemas").getD .null).optionalMembers = .ok schemas

/-- A schema that does no more than ask for dependencies. -/
def dependent (demands : Table (List Json)) (schemas : Members) : Node where
  object := { dependentRequired := demands, dependentSchemas := schemas }

theorem Depends.ofMembers_eq {ms mixed required schemas : Members}
    (h : Depends ms mixed required schemas) :
    ofMembers ms = (addDemands required (splitDependencies mixed [] []).1).map fun demands =>
      dependent demands
        (schemas.foldl (fun t m => Table.put t m.1 m.2) (splitDependencies mixed [] []).2) := by
  have hkeyword : ∀ k, k ∉ ["dependencies", "dependentRequired", "dependentSchemas"] →
      Table.keyword ms k = none := by
    intro k hk
    rw [Table.keyword, h.only k hk]
  have hdependencies : dependenciesOf ms =
      (addDemands required (splitDependencies mixed [] []).1).map fun demands => (demands,
        schemas.foldl (fun t m => Table.put t m.1 m.2) (splitDependencies mixed [] []).2) := by
    simp only [dependenciesOf, h.dependencies, h.dependentRequired, h.dependentSchemas, bind,
      Except.bind, pure, Except.pure]
    cases addDemands required (splitDependencies mixed [] []).1 <;> rfl
  rw [ofMembers, hdependencies]
  cases addDemands required (splitDependencies mixed [] []).1 with
  | error f => rfl
  | ok demands =>
    simp [typesOf, listKeyword, requiredOf, stringOf, numberOf, arrayOf, schemasOf, conditionalOf,
      hkeyword, h.only, bind, Except.bind, pure, Except.pure, Except.map, dependent]
    rfl

/-! ## The tables that are read -/

variable {mixed required schemas : Members}

/-- The demands can be read if each of them can. -/
theorem exists_addDemands_iff (demands : Table (List Json)) :
    (∃ found, addDemands required demands = .ok found) ↔
      ∀ e ∈ required, ∃ names, e.2.elements = .ok names := by
  induction required generalizing demands with
  | nil => simp [addDemands]
  | cons e required ih =>
    obtain ⟨trigger, j⟩ := e
    rw [List.forall_mem_cons, addDemands]
    cases hnames : j.elements with
    | error f => simp [bind, Except.bind]
    | ok names =>
      have hrest := ih (Table.put demands trigger names)
      simp [bind, Except.bind, hrest]

/-- A demand that is read is one of `dependentRequired`, or one of `dependencies` for a member that
is not named there. -/
theorem mem_addDemands_iff (hmixed : (mixed.map Prod.fst).Nodup)
    (hrequired : (required.map Prod.fst).Nodup) {found : Table (List Json)}
    (h : addDemands required (splitDependencies mixed [] []).1 = .ok found) (k : String)
    (names : List Json) :
    (k, names) ∈ found ↔ (∃ j, (k, j) ∈ required ∧ j.elements = .ok names) ∨
      Table.has required k = false ∧ ∃ j, (k, j) ∈ mixed ∧ j.items? = some names := by
  have hsplit := nodup_splitDependencies mixed [] [] .nil .nil
  obtain ⟨hsome, hnone⟩ := lookup_addDemands hrequired h k
  rw [Table.mem_iff_lookup (nodup_addDemands hsplit.1 h)]
  simp only [Table.mem_iff_lookup hrequired, Table.mem_iff_lookup hmixed, Table.has]
  cases hk : required.lookup k with
  | some j =>
    obtain ⟨names', hnames', hfound⟩ := hsome j hk
    simp [hfound, hnames']
  | none =>
    rw [hnone hk, (lookup_splitDependencies hmixed [] [] k).1]
    simp [Option.bind_eq_some_iff]

/-- A schema that is read is one of `dependentSchemas`, or one of `dependencies` for a member that
is not named there. -/
theorem mem_schemas_iff (hmixed : (mixed.map Prod.fst).Nodup)
    (hschemas : (schemas.map Prod.fst).Nodup) (k : String) (s : Json) :
    (k, s) ∈ schemas.foldl (fun t m => Table.put t m.1 m.2) (splitDependencies mixed [] []).2 ↔
      (k, s) ∈ schemas ∨
        Table.has schemas k = false ∧ ∃ j, (k, j) ∈ mixed ∧ asSchema? j = some s := by
  have hsplit := nodup_splitDependencies mixed [] [] .nil .nil
  rw [Table.mem_iff_lookup (nodup_foldl_put schemas hsplit.2), lookup_foldl_put hschemas]
  simp only [Table.mem_iff_lookup hschemas, Table.mem_iff_lookup hmixed, Table.has]
  cases hk : schemas.lookup k with
  | some j => simp
  | none =>
    rw [(lookup_splitDependencies hmixed [] [] k).2]
    simp [Option.bind_eq_some_iff]

end Node

/-! ## What an object has to meet -/

namespace Evaluation

theorem demand_eq_done_iff (ms : Members) (path : String) (code : Code) (before behind : String)
    (name constraint : Json) :
    demand ms path code before behind name constraint = .done ↔ hasMember ms name = .ok true := by
  rw [demand, Trace.after_eq_done_iff]
  constructor
  · rintro ⟨there, hthere, hdone⟩
    cases there with
    | true => exact hthere
    | false =>
      obtain ⟨words, -, hdone⟩ := (Trace.after_eq_done_iff _ _).mp hdone
      cases hdone
  · exact fun hthere => ⟨true, hthere, rfl⟩

theorem dependentRequiredRule_eq_done_iff (k : ObjectKeywords) (ms : Members) (path : String) :
    dependentRequiredRule k ms path = .done ↔ ∀ e ∈ k.dependentRequired,
      Table.has ms e.1 = true → ∀ name ∈ e.2, hasMember ms name = .ok true := by
  rw [dependentRequiredRule, Trace.each_eq_done_iff]
  refine forall₂_congr fun e _ => ?_
  rw [Trace.ite_eq_done_iff, Trace.each_eq_done_iff]
  simp only [demand_eq_done_iff]

theorem dependentSchemasRule_eq_done_iff (self : Evaluate) (k : ObjectKeywords) (ms : Members)
    (path : String) (chain : List String) :
    dependentSchemasRule self k ms path chain = .done ↔ ∀ e ∈ k.dependentSchemas,
      Table.has ms e.1 = true → self (.obj ms) e.2 path chain = .done := by
  rw [dependentSchemasRule, Trace.each_eq_done_iff]
  exact forall₂_congr fun e _ => Trace.ite_eq_done_iff _ _

section

variable [Host]

/-- Of the rules for objects those are left over that are for dependencies. -/
theorem objectRules_dependent (self : Evaluate) (demands : Table (List Json)) (schemas : Members)
    (ms : Members) (path : String) (chain : List String) :
    objectRules self (Node.dependent demands schemas).object ms path chain =
      (dependentRequiredRule (Node.dependent demands schemas).object ms path).andThen fun _ =>
        dependentSchemasRule self (Node.dependent demands schemas).object ms path chain := by
  have hproperties : propertiesRule self (Node.dependent demands schemas).object ms path = .done :=
    (Trace.each_eq_done_iff _ _).mpr fun _ _ => rfl
  have hpatterns : patternPropertiesRule self (Node.dependent demands schemas).object ms path =
      .done :=
    (Trace.each_eq_done_iff _ _).mpr fun _ _ => rfl
  simp only [objectRules, Trace.inTurn, hproperties, hpatterns, Trace.andThen_done]
  -- the rules that are left over are those of keywords that are not declared
  rfl

/-- A schema that does no more than ask for dependencies has two rules. -/
theorem nodeRules_dependent (scope : Scope) (self : Evaluate) (demands : Table (List Json))
    (schemas : Members) (ms : Members) (path : String) (chain : List String) :
    nodeRules scope self (Node.dependent demands schemas) (.obj ms) path chain =
      (dependentRequiredRule (Node.dependent demands schemas).object ms path).andThen fun _ =>
        dependentSchemasRule self (Node.dependent demands schemas).object ms path chain := by
  have hcombination : combinationRules self (Node.dependent demands schemas) (.obj ms) path chain =
      .done := rfl
  have hunsettled : unsettledRule (Node.dependent demands schemas) (.obj ms) path = .done := rfl
  have hsettled : isSettled (Node.dependent demands schemas) (.obj ms) = false := rfl
  have htyped : nodeRules scope self (Node.dependent demands schemas) (.obj ms) path chain =
      settledRules scope self (Node.dependent demands schemas) (.obj ms) path chain := rfl
  rw [htyped, settledRules, hsettled, if_neg Bool.false_ne_true]
  simp only [Trace.inTurn, hunsettled, hcombination, kindRules, objectRules_dependent,
    Trace.done_andThen, Trace.andThen_done]

/-- A schema inside another one counts as it does alone. -/
theorem descend_eq_run_of_within {ms : Members} {s : Json} (hs : Within ms s) (value root : Json)
    (path : String) (formats : Formats) {n : Nat}
    (hn : budget value (.obj ms) (some root) ≤ n + 1) :
    descend (scopeFor (.obj ms) (some root) formats) n value s path [] =
      run value s (some root) path formats := by
  have hinside := (bounded_start value (.obj ms) path (some root)).of_within (q := path) hs value
    (List.nil_subset _) List.nodup_nil
  have hrank : Call.rank (knownReferences (.obj ms) (some root))
      (Pointer.schemaHeight (.obj ms) (some root)) ⟨value, s, path, []⟩ < n :=
    Nat.lt_of_lt_of_le (Call.rank_lt_of_within hs)
      (Nat.le_of_lt_succ (Nat.lt_of_lt_of_le (rank_lt_budget value (.obj ms) path _) hn))
  have hsame := descend_eq_of_rank_lt (bounds_scopeFor (.obj ms) (some root) formats) hinside hrank
    (Nat.lt_of_lt_of_le hrank (Nat.le_max_left n (budget value s (some root))))
  exact hsame.1.trans (descend_eq_run value s (some root) path formats (Nat.le_max_right _ _))

/-- A schema that is no reference is read by its rules, with a reading of further schemas that is
evaluation for those inside it. -/
theorem exists_run_eq_nodeRules {ms : Members} {n : Node} (href : Table.keyword ms "$ref" = none)
    (hn : Node.ofMembers ms = .ok n) (value root : Json) (path : String) (formats : Formats) :
    ∃ self : Evaluate,
      run value (.obj ms) (some root) path formats =
        nodeRules (scopeFor (.obj ms) (some root) formats) self n value path [] ∧
      ∀ s, Within ms s → ∀ p, self value s p [] = run value s (some root) p formats := by
  obtain ⟨k, hk⟩ : ∃ k, budget value (.obj ms) (some root) = k + 1 := ⟨_, rfl⟩
  have hrun : run value (.obj ms) (some root) path formats =
      descend (scopeFor (.obj ms) (some root) formats) (budget value (.obj ms) (some root)) value
        (.obj ms) path [] := rfl
  refine ⟨descend (scopeFor (.obj ms) (some root) formats) k, ?_, fun s hs p => ?_⟩
  · rw [hrun, hk]
    exact descend_of_readsAs (.keywords href hn) _ k value path []
  · exact descend_eq_run_of_within hs value root p formats (Nat.le_of_eq hk)

end

/-- All that the presence of members asks for: the entries of `dependentRequired` and
`dependentSchemas`, and those of `dependencies` for members that the keyword of their kind does not
name. -/
structure Fulfils (accepted : Json → Prop) (ms mixed required schemas : Members) : Prop where
  readable : ∀ e ∈ required, ∃ names, e.2.elements = .ok names
  demanded : ∀ k j names, (k, j) ∈ required → j.elements = .ok names → Table.has ms k = true →
    ∀ name ∈ names, hasMember ms name = .ok true
  checked : ∀ k s, (k, s) ∈ schemas → Table.has ms k = true → accepted s
  demanded_mixed : ∀ k j names, (k, j) ∈ mixed → j.items? = some names →
    Table.has required k = false → Table.has ms k = true →
    ∀ name ∈ names, hasMember ms name = .ok true
  checked_mixed : ∀ k j s, (k, j) ∈ mixed → Node.asSchema? j = some s →
    Table.has schemas k = false → Table.has ms k = true → accepted s

variable [Host] in
/-- A schema of nothing but dependencies has nothing to report of an object just when its demands
can be read and are met, and each schema that is asked for accepts. -/
theorem run_eq_done_iff {es mixed required schemas : Members}
    (h : Node.Depends es mixed required schemas) (ms : Members) (root : Json) (formats : Formats) :
    run (.obj ms) (.obj es) (some root) "" formats = .done ↔
      ∃ found, Node.addDemands required (Node.splitDependencies mixed [] []).1 = .ok found ∧
        (∀ e ∈ found, Table.has ms e.1 = true → ∀ name ∈ e.2, hasMember ms name = .ok true) ∧
        ∀ e ∈ schemas.foldl (fun t m => Table.put t m.1 m.2) (Node.splitDependencies mixed [] []).2,
          Table.has ms e.1 = true →
            Conform.accepts (.obj ms) e.2 (some root) formats = .ok true := by
  have href : Table.keyword es "$ref" = none := by
    rw [Table.keyword, h.only "$ref" (by decide)]
  have hread := h.ofMembers_eq
  obtain ⟨n, hn⟩ : ∃ n, budget (.obj ms) (.obj es) (some root) = n + 1 := ⟨_, rfl⟩
  have hrun : run (.obj ms) (.obj es) (some root) "" formats =
      descend (scopeFor (.obj es) (some root) formats)
        (budget (.obj ms) (.obj es) (some root)) (.obj ms) (.obj es) "" [] := rfl
  rw [hrun, hn, descend, step, href]
  cases hfound : Node.addDemands required (Node.splitDependencies mixed [] []).1 with
  | error f =>
    rw [hfound] at hread
    rw [hread]
    simp [Except.map, Trace.after, Trace.stop, Trace.done]
  | ok found =>
    rw [hfound, Except.map] at hread
    simp only [Except.ok.injEq, exists_eq_left']
    rw [hread, Trace.after, nodeRules_dependent, Trace.andThen_eq_done_iff,
      dependentRequiredRule_eq_done_iff, dependentSchemasRule_eq_done_iff]
    refine and_congr_right fun _ => forall₂_congr fun e he => imp_congr_right fun _ => ?_
    -- a schema inside is read with one step less, and still as if it stood alone
    have hwithin : Within es e.2 := Node.within_of_mem_again hread (Node.mem_again_of_dependent he)
    rw [descend_eq_run_of_within hwithin _ _ _ _ (Nat.le_of_eq hn), Conform.accepts,
      Trace.verdict_eq_ok_true_iff]

variable [Host] in
/-- A schema of nothing but dependencies accepts the objects that fulfil them. -/
theorem accepts_iff_fulfils {es mixed required schemas : Members}
    (h : Node.Depends es mixed required schemas) (hmixed : (mixed.map Prod.fst).Nodup)
    (hrequired : (required.map Prod.fst).Nodup) (hschemas : (schemas.map Prod.fst).Nodup)
    (ms : Members) (root : Json) (formats : Formats) :
    Conform.accepts (.obj ms) (.obj es) (some root) formats = .ok true ↔
      Fulfils (fun s => Conform.accepts (.obj ms) s (some root) formats = .ok true) ms mixed
        required schemas := by
  rw [Conform.accepts, Trace.verdict_eq_ok_true_iff, run_eq_done_iff h]
  constructor
  · rintro ⟨found, hfound, hdemands, hchecks⟩
    have hmem := Node.mem_addDemands_iff hmixed hrequired hfound
    have hmem' := Node.mem_schemas_iff hmixed hschemas
    exact {
      readable := (Node.exists_addDemands_iff _).mp ⟨found, hfound⟩
      demanded k j names hj hnames :=
        hdemands (k, names) ((hmem k names).mpr (.inl ⟨j, hj, hnames⟩))
      checked k s hs := hchecks (k, s) ((hmem' k s).mpr (.inl hs))
      demanded_mixed k j names hj hnames hfree :=
        hdemands (k, names) ((hmem k names).mpr (.inr ⟨hfree, j, hj, hnames⟩))
      checked_mixed k j s hj hs hfree :=
        hchecks (k, s) ((hmem' k s).mpr (.inr ⟨hfree, j, hj, hs⟩)) }
  · intro hall
    obtain ⟨found, hfound⟩ := (Node.exists_addDemands_iff _).mpr hall.readable
    refine ⟨found, hfound, fun ⟨k, names⟩ he => ?demands, fun ⟨k, s⟩ he => ?schemas⟩
    case demands =>
      obtain ⟨j, hj, hnames⟩ | ⟨hfree, j, hj, hnames⟩ :=
        (Node.mem_addDemands_iff hmixed hrequired hfound k names).mp he
      · exact hall.demanded k j names hj hnames
      · exact hall.demanded_mixed k j names hj hnames hfree
    case schemas =>
      obtain hs | ⟨hfree, j, hj, hs⟩ := (Node.mem_schemas_iff hmixed hschemas k s).mp he
      · exact hall.checked k s hs
      · exact hall.checked_mixed k j s hj hs hfree

end Evaluation

/-! ## Three keywords and each of them alone -/

namespace Node

/-- Whether the keyword for the kind of an entry names its member too. -/
def isNamedAgain (required schemas : Members) (e : String × Json) : Bool :=
  Table.has (if e.2.items?.isSome then required else schemas) e.1

/-- The entries of `dependencies` that count beside the two other keywords. -/
def standing (mixed required schemas : Members) : Members :=
  mixed.filter fun e => !isNamedAgain required schemas e

variable {mixed required schemas : Members} {k : String} {j : Json}

theorem mem_standing_iff_of_items {names : List Json} (h : j.items? = some names) :
    (k, j) ∈ standing mixed required schemas ↔ (k, j) ∈ mixed ∧ Table.has required k = false := by
  simp [standing, isNamedAgain, h]

theorem mem_standing_iff_of_asSchema {s : Json} (h : asSchema? j = some s) :
    (k, j) ∈ standing mixed required schemas ↔ (k, j) ∈ mixed ∧ Table.has schemas k = false := by
  have hitems : j.items?.isSome = false := by
    cases hj : j.items? with
    | none => rfl
    | some xs => simp [asSchema?, hj] at h
  simp [standing, isNamedAgain, hitems]

/-- The three keywords in one schema. -/
def merged (mixed required schemas : Members) : Members :=
  [("dependencies", .obj mixed), ("dependentRequired", .obj required),
    ("dependentSchemas", .obj schemas)]

theorem depends_merged (mixed required schemas : Members) :
    Depends (merged mixed required schemas) mixed required schemas where
  only _ hk := Table.lookup_eq_none (by simpa [merged] using hk)
  dependencies := Json.optionalMembers_obj mixed
  dependentRequired := Json.optionalMembers_obj required
  dependentSchemas := Json.optionalMembers_obj schemas

theorem depends_dependencies (mixed : Members) :
    Depends [("dependencies", .obj mixed)] mixed [] [] where
  only _ hk := Table.lookup_eq_none (by simp_all)
  dependencies := Json.optionalMembers_obj mixed
  dependentRequired := rfl
  dependentSchemas := rfl

theorem depends_required (required : Members) :
    Depends [("dependentRequired", .obj required)] [] required [] where
  only _ hk := Table.lookup_eq_none (by simp_all)
  dependencies := rfl
  dependentRequired := Json.optionalMembers_obj required
  dependentSchemas := rfl

theorem depends_schemas (schemas : Members) :
    Depends [("dependentSchemas", .obj schemas)] [] [] schemas where
  only _ hk := Table.lookup_eq_none (by simp_all)
  dependencies := rfl
  dependentRequired := rfl
  dependentSchemas := Json.optionalMembers_obj schemas

end Node

namespace Evaluation

variable {mixed required schemas ms : Members} {accepted : Json → Prop}

/-- What three keywords ask for is what each of them asks for, as far as it stands. -/
theorem fulfils_iff_each :
    Fulfils accepted ms mixed required schemas ↔
      Fulfils accepted ms (Node.standing mixed required schemas) [] [] ∧
      Fulfils accepted ms [] required [] ∧ Fulfils accepted ms [] [] schemas := by
  constructor
  · intro h
    refine ⟨⟨nofun, nofun, nofun, fun k j names hj hnames _ => ?demands,
      fun k j s hj hs _ => ?checks⟩, ⟨h.readable, h.demanded, nofun, nofun, nofun⟩,
      ⟨nofun, nofun, h.checked, nofun, nofun⟩⟩
    case demands =>
      obtain ⟨hj, hfree⟩ := (Node.mem_standing_iff_of_items hnames).mp hj
      exact h.demanded_mixed k j names hj hnames hfree
    case checks =>
      obtain ⟨hj, hfree⟩ := (Node.mem_standing_iff_of_asSchema hs).mp hj
      exact h.checked_mixed k j s hj hs hfree
  · rintro ⟨hmixed, hrequired, hschemas⟩
    refine ⟨hrequired.readable, hrequired.demanded, hschemas.checked,
      fun k j names hj hnames hfree => ?demands, fun k j s hj hs hfree => ?checks⟩
    case demands =>
      have hstands : (k, j) ∈ Node.standing mixed required schemas :=
        (Node.mem_standing_iff_of_items hnames).mpr ⟨hj, hfree⟩
      exact hmixed.demanded_mixed k j names hstands hnames rfl
    case checks =>
      have hstands : (k, j) ∈ Node.standing mixed required schemas :=
        (Node.mem_standing_iff_of_asSchema hs).mpr ⟨hj, hfree⟩
      exact hmixed.checked_mixed k j s hstands hs rfl

/-- What is asked for by all entries of `dependencies` is asked for by those that stand. -/
theorem Fulfils.standing (h : Fulfils accepted ms mixed [] []) (required schemas : Members) :
    Fulfils accepted ms (Node.standing mixed required schemas) [] [] where
  readable := nofun
  demanded := nofun
  checked := nofun
  demanded_mixed k j names hj := h.demanded_mixed k j names (List.mem_filter.mp hj).1
  checked_mixed k j s hj := h.checked_mixed k j s (List.mem_filter.mp hj).1

variable [Host] in
/-- A schema of some keywords accepts an object, with references into a document. -/
def KeywordsAccept (root : Json) (formats : Formats) (ms keywords : Members) : Prop :=
  Conform.accepts (.obj ms) (.obj keywords) (some root) formats = .ok true

variable [Host] in
/-- The three keywords for dependencies accept an object together just when each of them does, where
`dependencies` counts without what another keyword names again. So together they accept what each of
them accepts as it is, and nothing else unless something is named again. -/
theorem dependencies_conjunctive (mixed required schemas ms : Members) (root : Json)
    (formats : Formats) (hmixed : (mixed.map Prod.fst).Nodup)
    (hrequired : (required.map Prod.fst).Nodup) (hschemas : (schemas.map Prod.fst).Nodup) :
    (KeywordsAccept root formats ms (Node.merged mixed required schemas) ↔
      KeywordsAccept root formats ms
        [("dependencies", .obj (Node.standing mixed required schemas))] ∧
      KeywordsAccept root formats ms [("dependentRequired", .obj required)] ∧
      KeywordsAccept root formats ms [("dependentSchemas", .obj schemas)]) ∧
    (KeywordsAccept root formats ms [("dependencies", .obj mixed)] →
      KeywordsAccept root formats ms [("dependentRequired", .obj required)] →
      KeywordsAccept root formats ms [("dependentSchemas", .obj schemas)] →
      KeywordsAccept root formats ms (Node.merged mixed required schemas)) ∧
    ((∀ e ∈ mixed, Node.isNamedAgain required schemas e = false) →
      (KeywordsAccept root formats ms (Node.merged mixed required schemas) ↔
        KeywordsAccept root formats ms [("dependencies", .obj mixed)] ∧
        KeywordsAccept root formats ms [("dependentRequired", .obj required)] ∧
        KeywordsAccept root formats ms [("dependentSchemas", .obj schemas)])) := by
  have hstanding : ((Node.standing mixed required schemas).map Prod.fst).Nodup :=
    hmixed.sublist (List.filter_sublist.map _)
  have hmerged := accepts_iff_fulfils (Node.depends_merged mixed required schemas) hmixed hrequired
    hschemas ms root formats
  have halone := accepts_iff_fulfils (Node.depends_dependencies mixed) hmixed .nil .nil ms root
    formats
  have hstands := accepts_iff_fulfils
    (Node.depends_dependencies (Node.standing mixed required schemas)) hstanding .nil .nil ms root
    formats
  have hlists := accepts_iff_fulfils (Node.depends_required required) .nil hrequired .nil ms root
    formats
  have htables := accepts_iff_fulfils (Node.depends_schemas schemas) .nil .nil hschemas ms root
    formats
  have heach := hmerged.trans
    (fulfils_iff_each.trans (and_congr hstands (and_congr hlists htables)).symm)
  refine ⟨heach, fun hall hlist htable => ?weaker, fun hnone => ?whole⟩
  case weaker =>
    have hstanding := hstands.mpr ((halone.mp hall).standing required schemas)
    exact heach.mpr ⟨hstanding, hlist, htable⟩
  case whole =>
    have hwhole : Node.standing mixed required schemas = mixed :=
      List.filter_eq_self.mpr fun e he => by rw [hnone e he]; rfl
    rwa [hwhole] at heach

/-- A payment by card. -/
def payment : Members := [("card", .num (.int 1)), ("billing", .num (.int 2)), ("owner", .null)]

/-- A card asks for a billing address. -/
def billed : Members := [("card", .arr [.str "billing"])]

/-- A coupon asks for a code. -/
def coded : Members := [("coupon", .arr [.str "code"])]

/-- A card asks for its owner, by a schema. -/
def owned : Members := [("card", .obj [("required", .arr [.str "owner"])])]

open Sample in
/-- A member may be named by demands and by schemas, and all that is asked for counts. -/
theorem payment_accepted :
    KeywordsAccept (.obj []) [] payment (Node.merged billed coded owned) := by
  have hnone : ∀ e ∈ billed, Node.isNamedAgain coded owned e = false := by decide
  have heach := (dependencies_conjunctive billed coded owned payment (.obj []) [] (by decide)
    (by decide) (by decide)).2.2 hnone
  refine heach.mpr ⟨?billing, ?code, ?owner⟩
  all_goals
    unfold KeywordsAccept
    cbv

open Sample in
/-- Of two demands for one member in two keywords the first is dropped: an object without `b` is
accepted. -/
theorem demand_dropped :
    Conform.accepts (.obj [("a", .null), ("c", .null)])
      (.obj (Node.merged [("a", .arr [.str "b"])] [("a", .arr [.str "c"])] []))
      (some (.obj [])) [] = .ok true ∧
    Conform.accepts (.obj [("a", .null), ("c", .null)])
      (.obj [("dependencies", .obj [("a", .arr [.str "b"])])]) (some (.obj [])) [] = .ok false ∧
    Conform.accepts (.obj [("a", .null), ("c", .null)])
      (.obj [("dependentRequired", .obj [("a", .arr [.str "c"])])]) (some (.obj [])) [] = .ok true ∧
    Conform.accepts (.obj [("a", .null), ("c", .null)]) (.obj [("dependentSchemas", .obj [])])
      (some (.obj [])) [] = .ok true :=
  ⟨by cbv, by cbv, by cbv, by cbv⟩

end Evaluation

end Conform
