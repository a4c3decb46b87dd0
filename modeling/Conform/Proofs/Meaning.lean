import Conform.Proofs.CycleGuard
import Conform.Proofs.Decision

/-!
# Conform.Proofs.Meaning

Evaluation decides the clauses of `Conform.Proofs.Clauses`: whenever it answers whether a schema
accepts a value, the answer is whether the schema admits it, where the schemas inside it count
with what evaluation answers for them.

Each rule decides its clause, under the assumption that the reading it is handed decides what the
schemas inside admit (`Reads`). An evaluation inside goes on behind a chain and with the steps that
are left, and still answers what a whole evaluation does: that is `settles_descend`.
-/

namespace Conform

namespace Evaluation

/-! ## Arrays -/

/-- A reading decides what the schemas inside a schema admit, at every place and behind every
chain. -/
def Reads (self : Evaluate) (acc : Json → Json → Prop) : Prop :=
  ∀ value schema path chain, Decides (self value schema path chain).verdict (acc value schema)

variable {self : Evaluate} {acc : Json → Json → Prop}

theorem decides_uniqueItemsRule (k : ArrayKeywords) (xs : List Json) (path : String) :
    Decides (uniqueItemsRule k xs path).verdict
      (k.uniqueItems = true → xs.Pairwise fun x y => x.equals y = false) := by
  have hunique : (!k.uniqueItems || !Json.hasDuplicates xs) = true ↔
      (k.uniqueItems = true → xs.Pairwise fun x y => x.equals y = false) := by
    rw [← Json.hasDuplicates_eq_false_iff]
    cases k.uniqueItems <;> simp
  exact (Decides.reportUnless _ (.find _)).congr hunique

theorem decides_uniformItems (hself : Reads self acc) (schema : Json) (path : String) (i : Nat)
    (xs : List Json) :
    Decides (uniformItems self schema path i xs).verdict (∀ x ∈ xs, acc x schema) := by
  induction xs generalizing i with
  | nil => exact Decides.done.congr (by simp)
  | cons x xs ih => exact ((hself _ _ _ _).andThen (ih (i + 1))).congr (by simp)

/-- What an item behind the schemas by position has to be. -/
def ItemBehind (acc : Json → Json → Prop) (additional : Option Json) (x : Json) : Prop :=
  additional ≠ some (.bool false) ∧ ∀ es, additional = some (.obj es) → acc x (.obj es)

theorem decides_additionalItem (hself : Reads self acc) (additional : Option Json) (x : Json)
    (path : String) :
    Decides (additionalItem self additional x path).verdict (ItemBehind acc additional x) := by
  unfold additionalItem ItemBehind
  split
  · exact (Decides.find _).congr (by simp)
  · exact (hself _ _ _ _).congr (by simp)
  · next hfalse hobj => exact Decides.done.congr (iff_of_true trivial
      ⟨hfalse, fun ms hms => absurd hms (hobj ms)⟩)

/-- What an item of a position has to be, given the schema of the position if there is one. -/
def ItemAt (acc : Json → Json → Prop) (additional : Option Json) (x : Json) : Option Json → Prop
  | some schema => acc x schema
  | none => ItemBehind acc additional x

theorem decides_positionalItems (hself : Reads self acc) (additional : Option Json)
    (path : String) (i : Nat) (xs schemas : List Json) :
    Decides (positionalItems self additional path i xs schemas).verdict
      (∀ (j : Nat) (x : Json), xs[j]? = some x → ItemAt acc additional x schemas[j]?) := by
  induction xs generalizing i schemas with
  | nil => exact Decides.done.congr (by simp)
  | cons x xs ih =>
    refine ((?head : Decides _ (ItemAt acc additional x schemas[0]?)).andThen
      (ih (i + 1) (schemas.drop 1))).congr ?all
    case head =>
      cases schemas with
      | nil => exact decides_additionalItem hself additional x _
      | cons s schemas => exact hself _ _ _ _
    case all =>
      -- the first position and those behind it are all positions
      refine Iff.trans ?_ Nat.and_forall_add_one
      simp

theorem itemAt_iff (acc : Json → Json → Prop) (additional : Option Json) (xs schemas : List Json) :
    (∀ (j : Nat) (x : Json), xs[j]? = some x → ItemAt acc additional x schemas[j]?) ↔
      (∀ (j : Nat) (x schema : Json), xs[j]? = some x → schemas[j]? = some schema → acc x schema) ∧
        ∀ (j : Nat) (x : Json), xs[j]? = some x → schemas.length ≤ j →
          ItemBehind acc additional x := by
  constructor
  · intro h
    constructor
    · intro j x schema hx hschema
      have hat := h j x hx
      rw [hschema] at hat
      exact hat
    · intro j x hx hj
      have hat := h j x hx
      rw [List.getElem?_eq_none hj] at hat
      exact hat
  · intro h j x hx
    cases hschema : schemas[j]? with
    | some schema => exact h.1 j x schema hx hschema
    | none =>
      have hj : schemas.length ≤ j := List.getElem?_eq_none_iff.mp hschema
      exact h.2 j x hx hj

theorem decides_itemsRule (hself : Reads self acc) (k : ArrayKeywords) (xs : List Json)
    (path : String) :
    Decides (itemsRule self k xs path).verdict
      ((∀ schema, k.items = some schema → (∀ ss, schema ≠ .arr ss) → ∀ x ∈ xs, acc x schema) ∧
        ∀ schemas, k.items = some (.arr schemas) →
          (∀ (j : Nat) (x schema : Json), xs[j]? = some x → schemas[j]? = some schema →
            acc x schema) ∧
          ∀ (j : Nat) (x : Json), xs[j]? = some x → schemas.length ≤ j →
            ItemBehind acc k.additionalItems x) := by
  unfold itemsRule
  split
  · next hitems => exact Decides.done.congr (by simp [hitems])
  · next schemas hitems =>
    have hpositions := decides_positionalItems hself k.additionalItems path 0 xs schemas
    rw [itemAt_iff] at hpositions
    exact hpositions.congr (by simp [hitems])
  · next schema hsingle hitems =>
    have huniform := decides_uniformItems hself schema path 0 xs
    cases schema with
    | arr schemas => exact absurd rfl (hsingle schemas)
    | _ => exact huniform.congr (by simp [hitems])

theorem decides_containsRule (hself : Reads self acc) (k : ArrayKeywords) (xs : List Json)
    (path : String) :
    Decides (containsRule self k xs path).verdict
      (∀ wanted, k.contains = some wanted → ∃ x ∈ xs, acc x wanted) := by
  unfold containsRule
  cases hwanted : k.contains with
  | none => exact Decides.done.congr (by simp)
  | some wanted =>
    have hsome := decides_someHolds fun x (_ : x ∈ xs) => hself x wanted "" []
    exact (Decides.report hsome (.find _)).congr (by simp)

/-- The rules for arrays decide the clauses for arrays of what they are read from. -/
theorem decides_arrayRules (hself : Reads self acc) (ms : Members) (xs : List Json)
    (path : String) :
    Decides (arrayRules self (Node.arrayOf ms) xs path).verdict (ArrayClauses ms acc xs) := by
  have h : Decides (arrayRules self (Node.arrayOf ms) xs path).verdict _ :=
    .cons (decides_limitRule _ _ _ _ _ _ _) (.cons (decides_limitRule _ _ _ _ _ _ _)
      (.cons (decides_uniqueItemsRule _ xs path) (.cons (decides_itemsRule hself _ xs path)
        (.cons (decides_containsRule hself _ xs path) .nil))))
  rw [Node.uniqueItems_arrayOf_iff] at h
  simp only [Node.arrayOf, ItemBehind, keeps_keyword_iff, keyword_eq_some_iff, ne_eq] at h
  apply h.congr
  constructor
  · intro a
    obtain ⟨least, most, unique, ⟨uniform, items⟩, contains, -⟩ := a
    exact ⟨least, most, fun mark h hmarked => unique ⟨mark, h, hmarked⟩, uniform,
      fun schemas h => (items schemas h).1, fun schemas h => (items schemas h).2, contains⟩
  · intro a
    exact ⟨a.minItems, a.maxItems, fun h => h.elim fun mark h => a.uniqueItems mark h.1 h.2,
      ⟨a.uniform, fun schemas h => ⟨a.positional schemas h, a.additional schemas h⟩⟩, a.contains,
      trivial⟩

/-! ## Objects -/

theorem decides_hasMember (ms : Members) (name : Json) :
    Decides (hasMember ms name) (HasName ms name) := by
  unfold hasMember HasName
  split
  · exact .ok (by simp)
  · next htext =>
    split
    · have hnone : ¬ ∃ s, name = .str s ∧ Table.has ms s = true := by
        intro h
        obtain ⟨s, hs, -⟩ := h
        exact htext s hs
      exact .ok (iff_of_false Bool.false_ne_true hnone)
    · exact .error _ _

theorem decides_demand (ms : Members) (path : String) (code : Code) (before behind : String)
    (name constraint : Json) :
    Decides (demand ms path code before behind name constraint).verdict (HasName ms name) :=
  .report (decides_hasMember ms name) (.told _)

theorem decides_propertiesRule (hself : Reads self acc) (k : ObjectKeywords) (ms : Members)
    (path : String) :
    Decides (propertiesRule self k ms path).verdict
      (∀ name child, (name, child) ∈ ms →
        ∀ schema, k.properties.lookup name = some schema → acc child schema) := by
  have heach : ∀ e ∈ ms, Decides (match k.properties.lookup e.1 with
      | some schema => self e.2 schema (Path.name path e.1) []
      | none => .done).verdict
        (∀ schema, k.properties.lookup e.1 = some schema → acc e.2 schema) := by
    intro e _
    cases hschema : k.properties.lookup e.1 with
    | none => exact Decides.done.congr (by simp)
    | some schema => exact (hself _ _ _ _).congr (by simp)
  exact (Decides.each heach).congr (by simp [Prod.forall])

theorem decides_propertyNamesRule (hself : Reads self acc) (k : ObjectKeywords) (ms : Members)
    (path : String) :
    Decides (propertyNamesRule self k ms path).verdict
      (∀ schema, k.propertyNames = some schema →
        ∀ name child, (name, child) ∈ ms → acc (.str name) schema) := by
  unfold propertyNamesRule
  cases hschema : k.propertyNames with
  | none => exact Decides.done.congr (by simp)
  | some schema =>
    exact (Decides.each fun e _ => Decides.report (hself (.str e.1) schema "" []) (.find _)).congr
      (by simp [Prod.forall])

theorem decides_dependentRequiredRule (k : ObjectKeywords) (ms : Members) (path : String) :
    Decides (dependentRequiredRule k ms path).verdict
      (∀ trigger names, (trigger, names) ∈ k.dependentRequired → Table.has ms trigger = true →
        ∀ name ∈ names, HasName ms name) := by
  have heach : ∀ e ∈ k.dependentRequired, Decides (if Table.has ms e.1 then
      Trace.each (fun name => demand ms path .dependentRequired
        "Property '" ("' is required when '" ++ e.1 ++ "' is present") name (.str e.1)) e.2
      else .done).verdict (Table.has ms e.1 = true → ∀ name ∈ e.2, HasName ms name) := by
    intro e _
    cases Table.has ms e.1
    · exact Decides.done.congr (by simp)
    · exact (Decides.each fun name _ => decides_demand ms path _ _ _ name _).congr (by simp)
  exact (Decides.each heach).congr (by simp [Prod.forall])

theorem decides_dependentSchemasRule (hself : Reads self acc) (k : ObjectKeywords) (ms : Members)
    (path : String) (chain : List String) :
    Decides (dependentSchemasRule self k ms path chain).verdict
      (∀ trigger schema, (trigger, schema) ∈ k.dependentSchemas → Table.has ms trigger = true →
        acc (.obj ms) schema) := by
  have heach : ∀ e ∈ k.dependentSchemas, Decides (if Table.has ms e.1 then
      self (.obj ms) e.2 path chain else .done).verdict
        (Table.has ms e.1 = true → acc (.obj ms) e.2) := by
    intro e _
    cases Table.has ms e.1
    · exact Decides.done.congr (by simp)
    · exact (hself _ _ _ _).congr (by simp)
  exact (Decides.each heach).congr (by simp [Prod.forall])

/-- The two tables of dependencies that are read ask for what the three keywords do, except for the
entries of `dependencies` whose trigger is named again. -/
theorem dependencies_iff (acc : Json → Json → Prop) {ms schemas : Members}
    {demands : Table (List Json)} (hdistinct : (Json.obj ms).Distinct)
    (h : Node.dependenciesOf ms = .ok (demands, schemas)) (members : Members) :
    ((∀ trigger names, (trigger, names) ∈ demands → Table.has members trigger = true →
          ∀ name ∈ names, HasName members name) ∧
        ∀ trigger schema, (trigger, schema) ∈ schemas → Table.has members trigger = true →
          acc (.obj members) schema) ↔
      (∀ entries, Declares ms "dependencies" (.obj entries) →
          ∀ trigger j, (trigger, j) ∈ entries → Counting.standing ms trigger j →
            Table.has members trigger = true → AsksFor acc members j) ∧
        (∀ entries, Declares ms "dependentRequired" (.obj entries) →
          ∀ trigger j names, (trigger, j) ∈ entries → j.elements = .ok names →
            Table.has members trigger = true → ∀ name ∈ names, HasName members name) ∧
        ∀ entries, Declares ms "dependentSchemas" (.obj entries) →
          ∀ trigger schema, (trigger, schema) ∈ entries →
            Table.has members trigger = true → acc (.obj members) schema := by
  have hmem := Node.mem_demands_iff hdistinct h
  have hmem' := Node.mem_dependentSchemas_iff hdistinct h
  constructor
  · rintro ⟨hdemands, hschemas⟩
    refine ⟨?mixed, ?required, ?schemas⟩
    case mixed =>
      intro entries hentries trigger j hj hstands
      cases j with
      | arr names =>
        exact hdemands trigger names ((hmem _ _).mpr (.inr ⟨hstands, entries, hentries, hj⟩))
      | _ =>
        exact hschemas trigger _ ((hmem' _ _).mpr (.inr ⟨hstands, entries, hentries, hj, nofun⟩))
    case required =>
      intro entries hentries trigger j names hj hnames
      exact hdemands trigger names ((hmem _ _).mpr (.inl ⟨entries, j, hentries, hj, hnames⟩))
    case schemas =>
      intro entries hentries trigger schema hschema
      exact hschemas trigger schema ((hmem' _ _).mpr (.inl ⟨entries, hentries, hschema⟩))
  · rintro ⟨hmixed, hrequired, hschemas⟩
    constructor
    · intro trigger names hnames
      obtain ⟨entries, j, hentries, hj, hnames⟩ | ⟨hstands, entries, hentries, hj⟩ :=
        (hmem trigger names).mp hnames
      · exact hrequired entries hentries trigger j names hj hnames
      · exact hmixed entries hentries trigger (.arr names) hj hstands
    · intro trigger schema hschema
      obtain ⟨entries, hentries, hschema⟩ | ⟨hstands, entries, hentries, hj, hlist⟩ :=
        (hmem' trigger schema).mp hschema
      · exact hschemas entries hentries trigger schema hschema
      · have hasks := hmixed entries hentries trigger schema hj
        cases schema with
        | arr names => exact absurd rfl (hlist names)
        | _ => exact hasks hstands

section

variable [Host]

theorem decides_patternPropertiesRule (hself : Reads self acc) (k : ObjectKeywords) (ms : Members)
    (path : String) :
    Decides (patternPropertiesRule self k ms path).verdict
      (∀ name child, (name, child) ∈ ms →
        ∀ pattern schema, (pattern, schema) ∈ k.patternProperties →
          Pattern.occursIn pattern name = .ok true → acc child schema) := by
  have heach : ∀ e ∈ ms, ∀ c ∈ k.patternProperties,
      Decides (Trace.after (Pattern.occursIn c.1 e.1) fun occurs =>
          if occurs then self e.2 c.2 (Path.name path e.1) [] else .done).verdict
        (Pattern.occursIn c.1 e.1 = .ok true → acc e.2 c.2) := by
    intro e _ c _
    apply Decides.after
    intro occurs hoccurs
    rw [hoccurs]
    cases occurs
    · exact Decides.done.congr (by simp)
    · exact (hself _ _ _ _).congr (by simp)
  exact (Decides.each fun e he => .each (heach e he)).congr (by simp [Prod.forall])

/-- A name that no schema by name or by pattern, as they are read, is meant for. -/
def IsLeftOver (k : ObjectKeywords) (name : String) : Prop :=
  Table.has k.properties name = false ∧
    ∀ pattern schema, (pattern, schema) ∈ k.patternProperties →
      Pattern.occursIn pattern name ≠ .ok true

theorem decides_isAdditional (k : ObjectKeywords) (name : String) :
    Decides (isAdditional k name) (IsLeftOver k name) := by
  unfold isAdditional IsLeftOver
  have hsome : Decides
      (someHolds (fun p : String × Json => Pattern.occursIn p.1 name) k.patternProperties)
      (∃ p ∈ k.patternProperties, Pattern.occursIn p.1 name = .ok true) :=
    decides_someHolds fun p _ => .self _
  cases Table.has k.properties name
  · rw [if_neg Bool.false_ne_true]
    exact hsome.not.congr (by simp)
  · exact .ok (by simp)

theorem decides_additionalPropertiesRule (hself : Reads self acc) (k : ObjectKeywords)
    (ms : Members) (path : String) :
    Decides (additionalPropertiesRule self k ms path).verdict
      (∀ schema, k.additionalProperties = some schema →
        ∀ name child, (name, child) ∈ ms → IsLeftOver k name →
          schema = .bool true ∨ (schema ≠ .bool false ∧ acc child schema)) := by
  unfold additionalPropertiesRule
  split
  · next hschema => exact Decides.done.congr (by simp [hschema])
  · next hschema => exact Decides.done.congr (by simp [hschema])
  · next schema htrue hschema =>
    have heach : ∀ e ∈ ms, Decides (Trace.after (isAdditional k e.1) fun additional =>
        if !additional then .done
        else if schema = .bool false then
          violation (Path.name path e.1) .additionalProperties
            ("Additional property '" ++ e.1 ++ "' is not allowed") e.2 (.bool false)
        else self e.2 schema (Path.name path e.1) []).verdict
          (IsLeftOver k e.1 → schema ≠ .bool false ∧ acc e.2 schema) := by
      intro e _
      apply Decides.after
      intro additional hadditional
      rw [← decides_isAdditional k e.1 additional hadditional]
      cases additional
      · exact Decides.done.congr (by simp)
      · by_cases hfalse : schema = .bool false
        · rw [Bool.not_true, if_neg Bool.false_ne_true, if_pos hfalse]
          exact (Decides.find _).congr (by simp [hfalse])
        · rw [Bool.not_true, if_neg Bool.false_ne_true, if_neg hfalse]
          exact (hself _ _ _ _).congr (by simp [hfalse])
    have htrue' : schema ≠ .bool true := htrue
    exact (Decides.each heach).congr (by simp [hschema, htrue', Prod.forall])

theorem isLeftOver_iff {n : Node} {ms : Members} (hread : Node.ReadFrom ms n) (name : String) :
    IsLeftOver n.object name ↔ IsAdditional ms name := by
  unfold IsLeftOver
  rw [hread.properties, hread.patternProperties, Node.has_schemasOf_eq_false_iff]
  simp only [Node.mem_schemasOf_iff]
  constructor
  · rintro ⟨hunnamed, hunmatched⟩
    exact ⟨hunnamed, fun es hes pattern schema hmem => hunmatched pattern schema ⟨es, hes, hmem⟩⟩
  · intro h
    refine ⟨h.unnamed, fun pattern schema hmem => ?_⟩
    obtain ⟨es, hes, hmem⟩ := hmem
    exact h.unmatched es hes pattern schema hmem

/-- The rules for objects decide the clauses for objects of what they are read from, as far as the
entries of `dependencies` stand. -/
theorem decides_objectRules (hself : Reads self acc) {n : Node} {ms : Members}
    (hdistinct : (Json.obj ms).Distinct) (hread : Node.ReadFrom ms n) (members : Members)
    (path : String) (chain : List String) :
    Decides (objectRules self n.object members path chain).verdict
      (ObjectClauses .standing ms acc members) := by
  have h : Decides (objectRules self n.object members path chain).verdict _ :=
    .cons (decides_limitRule _ _ _ _ _ _ _) (.cons (decides_limitRule _ _ _ _ _ _ _)
      (.cons (.each fun name _ => decides_demand members path _ _ _ name _)
        (.cons (decides_propertiesRule hself n.object members path)
          (.cons (decides_patternPropertiesRule hself n.object members path)
            (.cons (decides_additionalPropertiesRule hself n.object members path)
              (.cons (decides_propertyNamesRule hself n.object members path)
                (.cons (decides_dependentRequiredRule n.object members path)
                  (.cons (decides_dependentSchemasRule hself n.object members path chain)
                    .nil))))))))
  simp only [hread.minProperties, hread.maxProperties, keeps_keyword_iff,
    Node.mem_requiredOf_iff hread.required, hread.properties, Node.lookup_schemasOf_eq_some_iff,
    hread.patternProperties, Node.mem_schemasOf_iff, hread.additionalProperties,
    isLeftOver_iff hread, hread.propertyNames, keyword_eq_some_iff] at h
  have hdependencies := dependencies_iff acc hdistinct hread.dependencies members
  apply h.congr
  constructor
  · intro a
    obtain ⟨least, most, required, properties, patterns, additional, names, demands, schemas,
      -⟩ := a
    obtain ⟨mixed, demands, schemas⟩ := hdependencies.mp ⟨demands, schemas⟩
    exact ⟨least, most, fun xs hxs name hname => required name ⟨xs, hxs, hname⟩,
      fun es hes name child hchild schema hschema =>
        properties name child hchild schema ⟨es, hes, hschema⟩,
      fun es hes name child hchild pattern schema hschema =>
        patterns name child hchild pattern schema ⟨es, hes, hschema⟩,
      additional, names, mixed, demands, schemas⟩
  · intro a
    obtain ⟨demands, schemas⟩ :=
      hdependencies.mpr ⟨a.dependencies, a.dependentRequired, a.dependentSchemas⟩
    exact ⟨a.minProperties, a.maxProperties,
      fun name hname => hname.elim fun xs h => a.required xs h.1 name h.2,
      fun name child hchild schema hschema =>
        hschema.elim fun es h => a.properties es h.1 name child hchild schema h.2,
      fun name child hchild pattern schema hschema =>
        hschema.elim fun es h => a.patternProperties es h.1 name child hchild pattern schema h.2,
      a.additionalProperties, a.propertyNames, demands, schemas, trivial⟩

end

/-! ## Combinations -/

theorem decides_allOfRule (hself : Reads self acc) (schemas : Option (List Json)) (value : Json)
    (path : String) (chain : List String) :
    Decides (allOfRule self schemas value path chain).verdict
      (∀ ss, schemas = some ss → ∀ s ∈ ss, acc value s) := by
  unfold allOfRule
  cases schemas with
  | none => exact Decides.done.congr (by simp)
  | some ss =>
    dsimp only
    rw [verdict_summary]
    exact (Decides.each fun s _ => hself value s path chain).congr (by simp)

theorem decides_anyOfRule (hself : Reads self acc) (schemas : Option (List Json)) (value : Json)
    (path : String) (chain : List String) :
    Decides (anyOfRule self schemas value path chain).verdict
      (∀ ss, schemas = some ss → ∃ s ∈ ss, acc value s) := by
  unfold anyOfRule
  cases schemas with
  | none => exact Decides.done.congr (by simp)
  | some ss =>
    have hsome := decides_someHolds fun s (_ : s ∈ ss) => hself value s "" chain
    exact (Decides.report hsome (.find _)).congr (by simp)

theorem decides_oneOfRule (hself : Reads self acc) (schemas : Option (List Json)) (value : Json)
    (path : String) (chain : List String) :
    Decides (oneOfRule self schemas value path chain).verdict
      (∀ ss, schemas = some ss → ExactlyOne (acc value) ss) := by
  unfold oneOfRule
  cases schemas with
  | none => exact Decides.done.congr (by simp)
  | some ss =>
    apply Decides.after
    intro n hn
    have hone := (countHolding_spec (fun s _ => hself value s "" chain) hn).2
    match n with
    | 0 => exact (Decides.find _).congr (by simp [← hone])
    | 1 => exact Decides.done.congr (by simp [← hone])
    | n + 2 => exact (Decides.find _).congr (by simp [← hone])

theorem decides_notRule (hself : Reads self acc) (schema : Option Json) (value : Json)
    (path : String) (chain : List String) :
    Decides (notRule self schema value path chain).verdict
      (∀ s, schema = some s → ¬ acc value s) := by
  unfold notRule
  cases schema with
  | none => exact Decides.done.congr (by simp)
  | some s =>
    apply Decides.after
    intro ok hok
    have hacc := hself value s "" chain ok hok
    exact (Decides.reportUnless _ (.find _)).congr (by simp [← hacc])

theorem decides_conditionalRule (hself : Reads self acc) (ms : Members) (value : Json)
    (path : String) (chain : List String) :
    Decides (conditionalRule self (Node.conditionalOf ms) value path chain).verdict
      (ConditionalClauses ms acc value) := by
  unfold conditionalRule
  cases htest : (Node.conditionalOf ms).test with
  | none =>
    have hnone := keyword_eq_none_iff.mp htest
    have hany : ConditionalClauses ms acc value :=
      ⟨fun test _ h => absurd h (hnone test), fun test _ h => absurd h (hnone test)⟩
    exact Decides.done.congr (iff_of_true trivial hany)
  | some test =>
    have htest' : Declares ms "if" test := (keyword_eq_some_iff test).mp htest
    apply Decides.after
    intro ok hok
    have hacc := hself value test "" chain ok hok
    -- the schema that is not chosen asks for nothing
    have hchosen : Decides (match if ok then (Node.conditionalOf ms).accepted
          else (Node.conditionalOf ms).rejected with
        | some schema => self value schema path chain
        | none => .done).verdict
          (∀ schema, Declares ms (if ok then "then" else "else") schema → acc value schema) := by
      have hkeyword : (if ok then (Node.conditionalOf ms).accepted
          else (Node.conditionalOf ms).rejected) =
          Table.keyword ms (if ok then "then" else "else") := by
        cases ok <;> rfl
      rw [hkeyword]
      simp only [← keyword_eq_some_iff]
      cases Table.keyword ms (if ok then "then" else "else") with
      | none => exact Decides.done.congr (by simp)
      | some schema => exact (hself _ _ _ _).congr (by simp)
    apply hchosen.congr
    constructor
    · intro h
      constructor
      · intro t schema ht hschema haccepted
        obtain rfl := htest'.unique ht
        exact h schema (by rwa [if_pos (hacc.mpr haccepted)])
      · intro t schema ht hschema hrejected
        obtain rfl := htest'.unique ht
        exact h schema (by rwa [if_neg (mt hacc.mp hrejected)])
    · intro h schema hschema
      cases ok
      · exact h.rejected test schema htest' hschema (by simp [← hacc])
      · exact h.accepted test schema htest' hschema (by simp [← hacc])

/-- The rules that combine schemas decide the clauses of what they are read from. -/
theorem decides_combinationRules (hself : Reads self acc) {n : Node} {ms : Members}
    (hread : Node.ReadFrom ms n) (value : Json) (path : String) (chain : List String) :
    Decides (combinationRules self n value path chain).verdict
      (CompositionClauses ms acc value ∧ ConditionalClauses ms acc value) := by
  have hconditional := decides_conditionalRule hself ms value path chain
  rw [← hread.conditional] at hconditional
  have h : Decides (combinationRules self n value path chain).verdict _ :=
    .cons (decides_allOfRule hself _ value path chain)
      (.cons (decides_anyOfRule hself _ value path chain)
        (.cons (decides_oneOfRule hself _ value path chain)
          (.cons (decides_notRule hself _ value path chain) (.cons hconditional .nil))))
  simp only [Node.listKeyword_eq_some_iff hread.allOf, Node.listKeyword_eq_some_iff hread.anyOf,
    Node.listKeyword_eq_some_iff hread.oneOf, hread.not, keyword_eq_some_iff] at h
  apply h.congr
  constructor
  · intro a
    obtain ⟨all, any, one, not, conditional, -⟩ := a
    exact ⟨⟨all, any, one, not⟩, conditional⟩
  · intro a
    obtain ⟨a, conditional⟩ := a
    exact ⟨a.allOf, a.anyOf, a.oneOf, a.not, conditional, trivial⟩

/-! ## One schema -/

section

variable {n : Node} {ms : Members} {value : Json}

theorem isSettled_iff (hread : Node.ReadFrom ms n) (value : Json) :
    isSettled n value = true ↔ AdmitsByValue ms value := by
  unfold isSettled AdmitsByValue
  rw [← Node.hasConst_and_iff hread.const fun c => value.equals c = true,
    ← Node.hasConst_eq_false_iff hread.const]
  simp only [← Node.listKeyword_eq_some_iff hread.enum]
  cases n.hasConst
  · rw [if_neg Bool.false_ne_true]
    cases n.enum with
    | none => simp
    | some allowed => simp [Json.isAmong]
  · simp

/-- A value that no constant and no list of allowed values admits has a report, if either is
declared. -/
theorem decides_unsettledRule (hread : Node.ReadFrom ms n) (path : String)
    (h : isSettled n value = false) :
    Decides (unsettledRule n value path).verdict
      ((∀ c, ¬ DeclaresConst ms c) ∧ ∀ j, ¬ Declares ms "enum" j) := by
  rw [← Node.hasConst_eq_false_iff hread.const, ← Node.listKeyword_eq_none_iff hread.enum]
  unfold isSettled at h
  unfold unsettledRule
  cases hconst : n.hasConst
  · rw [hconst, if_neg Bool.false_ne_true] at h
    rw [if_neg Bool.false_ne_true, Trace.done_andThen]
    cases henum : n.enum with
    | none => exact Decides.done.congr (by simp)
    | some allowed =>
      rw [henum] at h
      exact (Decides.reportUnless _ (.told _)).congr (by simp [h])
  · exact ((Decides.told _).andThen (Decides.self _)).congr (by simp)

theorem decides_typeMismatch (types : List Json) (value : Json) (path : String) :
    Decides (typeMismatch types value path).verdict False := by
  apply Decides.after
  intro words _
  split
  · exact .stop _ _
  · exact .find _
  · exact .find _

theorem hasSomeType_iff_of_typesOf (hread : Node.ReadFrom ms n) {types : List Json}
    (htypes : n.types = some types) (value : Json) :
    value.hasSomeType types = true ↔ AdmitsByType ms value := by
  have hmem : ∀ t, t ∈ types ↔ DeclaresType ms t := by
    intro t
    rw [← Node.mem_typesOf_iff hread.types, htypes]
    simp
  rw [Json.hasSomeType, List.any_eq_true, AdmitsByType]
  simp only [hmem]
  constructor
  · exact fun h j _ => h
  · intro h
    have hdeclared : ¬ ∀ j, ¬ Declares ms "type" j := by
      rw [← Node.typesOf_eq_none_iff hread.types, htypes]
      simp
    obtain ⟨j, hj⟩ := not_forall_not.mp hdeclared
    exact h j hj

theorem allowsNull_iff (hread : Node.ReadFrom ms n) :
    n.allowsNull = true ↔ DeclaresType ms (.str "null") := by
  rw [← Node.mem_typesOf_iff hread.types]
  unfold Node.allowsNull Node.declares
  cases n.types with
  | none => simp
  | some types => simp

theorem hasType_null_iff (t : Json) : Json.null.hasType t = true ↔ t = .str "null" := by
  cases t with
  | str name => simp [Json.hasType, Json.hasTypeName]
  | _ => simp [Json.hasType]

theorem decides_nullMismatch (n : Node) (path : String) :
    Decides (nullMismatch n path).verdict False :=
  .told _

/-- Where null is not declared, it is of a declared type only if there are none. -/
theorem admitsByType_null_iff (h : ¬ DeclaresType ms (.str "null")) :
    AdmitsByType ms .null ↔ ∀ j, ¬ Declares ms "type" j := by
  constructor
  · intro htypes j hj
    obtain ⟨t, ht, hnull⟩ := htypes j hj
    rw [hasType_null_iff] at hnull
    exact h (hnull ▸ ht)
  · intro hnone j hj
    exact absurd hj (hnone j)

variable [Host]

theorem decides_kindRules (hself : Reads self acc) (scope : Scope)
    (hdistinct : (Json.obj ms).Distinct) (hread : Node.ReadFrom ms n) (value : Json)
    (path : String) (chain : List String) :
    Decides (kindRules scope self n value path chain).verdict
      ((∀ s, value = .str s → StringClauses ms scope.formats s) ∧
        (∀ m, value = .num m → NumberClauses ms m) ∧
        (∀ xs, value = .arr xs → ArrayClauses ms acc xs) ∧
        ∀ members, value = .obj members → ObjectClauses .standing ms acc members) := by
  unfold kindRules
  rw [hread.string, hread.number, hread.array]
  cases value with
  | str s => exact (decides_stringRules scope.formats ms s path).congr (by simp)
  | num m => exact (decides_numberRules ms m path).congr (by simp)
  | arr xs => exact (decides_arrayRules hself ms xs path).congr (by simp)
  | obj members =>
    exact (decides_objectRules hself hdistinct hread members path chain).congr (by simp)
  | _ => exact Decides.done.congr (by simp)

theorem decides_settledRules (hself : Reads self acc) (scope : Scope)
    (hdistinct : (Json.obj ms).Distinct) (hread : Node.ReadFrom ms n) (value : Json)
    (path : String) (chain : List String) :
    Decides (settledRules scope self n value path chain).verdict
      (AdmitsByValue ms value ∨
        ((∀ c, ¬ DeclaresConst ms c) ∧ (∀ j, ¬ Declares ms "enum" j) ∧
          KeywordClauses .standing scope.formats acc ms value)) := by
  unfold settledRules
  rw [← isSettled_iff hread]
  cases hsettled : isSettled n value
  · have h : Decides (Trace.inTurn [
        fun _ => unsettledRule n value path,
        fun _ => kindRules scope self n value path chain,
        fun _ => combinationRules self n value path chain]).verdict _ :=
      .cons (decides_unsettledRule hread path hsettled)
        (.cons (decides_kindRules hself scope hdistinct hread value path chain)
          (.cons (decides_combinationRules hself hread value path chain) .nil))
    apply h.congr
    constructor
    · intro a
      obtain ⟨⟨const, enum⟩, ⟨string, number, array, object⟩, ⟨composition, conditional⟩, -⟩ := a
      exact .inr ⟨const, enum, string, number, array, object, composition, conditional⟩
    · intro a
      obtain hfalse | ⟨const, enum, a⟩ := a
      · exact absurd hfalse Bool.false_ne_true
      · exact ⟨⟨const, enum⟩, ⟨a.string, a.number, a.array, a.object⟩,
          ⟨a.composition, a.conditional⟩, trivial⟩
  · exact Decides.done.congr (by simp)

theorem decides_typedRules (hself : Reads self acc) (scope : Scope)
    (hdistinct : (Json.obj ms).Distinct) (hread : Node.ReadFrom ms n) (value : Json)
    (path : String) (chain : List String) :
    Decides (typedRules scope self n value path chain).verdict
      (AdmitsByType ms value ∧ (AdmitsByValue ms value ∨
        ((∀ c, ¬ DeclaresConst ms c) ∧ (∀ j, ¬ Declares ms "enum" j) ∧
          KeywordClauses .standing scope.formats acc ms value))) := by
  have hsettled := decides_settledRules hself scope hdistinct hread value path chain
  unfold typedRules
  cases htypes : n.types with
  | none =>
    have hany : AdmitsByType ms value := fun j hj =>
      absurd hj ((Node.typesOf_eq_none_iff hread.types).mp htypes j)
    exact hsettled.congr (by simp [hany])
  | some types =>
    have hiff := hasSomeType_iff_of_typesOf hread htypes value
    dsimp only
    split
    · next hsome => exact hsettled.congr (by simp [hiff.mp hsome])
    · next hnone =>
      rw [hiff] at hnone
      exact (decides_typeMismatch types value path).congr (by simp [hnone])

theorem decides_nodeRules_null (hself : Reads self acc) (scope : Scope)
    (hdistinct : (Json.obj ms).Distinct) (hread : Node.ReadFrom ms n) (path : String)
    (chain : List String) :
    Decides (nodeRules scope self n .null path chain).verdict
      (AdmitsByKeywords .standing scope.formats acc ms .null) := by
  have hadmits : AdmitsByKeywords .standing scope.formats acc ms .null ↔
      DeclaresType ms (.str "null") ∨
        ((∀ j, ¬ Declares ms "type" j) ∧ AdmitsByValue ms .null) := by
    simp [AdmitsByKeywords]
  rw [hadmits, ← isSettled_iff hread, nodeRules]
  by_cases hnull : n.allowsNull = true
  · rw [if_pos hnull]
    exact Decides.done.congr (by simp [(allowsNull_iff hread).mp hnull])
  · rw [if_neg hnull]
    rw [allowsNull_iff hread] at hnull
    by_cases hbare : (n.enum.isNone && !n.hasConst) = true
    · -- neither a constant nor a list of allowed values is declared
      rw [if_pos hbare]
      simp only [Bool.and_eq_true, Option.isNone_iff_eq_none, Bool.not_eq_true'] at hbare
      exact (decides_nullMismatch n path).congr (by simp [hnull, isSettled, hbare.1, hbare.2])
    · rw [if_neg hbare]
      simp only [Bool.and_eq_true, Option.isNone_iff_eq_none, Bool.not_eq_true'] at hbare
      have hclauses : ¬ ((∀ c, ¬ DeclaresConst ms c) ∧ (∀ j, ¬ Declares ms "enum" j) ∧
          KeywordClauses .standing scope.formats acc ms .null) := by
        rintro ⟨hconst, henum, -⟩
        exact hbare ⟨(Node.listKeyword_eq_none_iff hread.enum).mpr henum,
          (Node.hasConst_eq_false_iff hread.const).mpr hconst⟩
      have htyped := decides_typedRules hself scope hdistinct hread .null path chain
      rw [admitsByType_null_iff hnull, ← isSettled_iff hread] at htyped
      exact htyped.congr (by simp [hnull, hclauses])

/-- The rules of a node decide what the keywords it is read from admit. -/
theorem decides_nodeRules (hself : Reads self acc) (scope : Scope)
    (hdistinct : (Json.obj ms).Distinct) (hread : Node.ReadFrom ms n) (hvalue : value ≠ .absent)
    (path : String) (chain : List String) :
    Decides (nodeRules scope self n value path chain).verdict
      (AdmitsByKeywords .standing scope.formats acc ms value) := by
  have htyped := decides_typedRules hself scope hdistinct hread value path chain
  cases value with
  | absent => exact absurd rfl hvalue
  | null => exact decides_nodeRules_null hself scope hdistinct hread path chain
  | _ => exact htyped.congr (by simp [AdmitsByKeywords])

end

/-! ## Evaluation -/

section

variable [Host] {value : Json}

theorem decides_followRule (hself : Reads self acc) (scope : Scope) {ms : Members} {ref : Json}
    (href : Declares ms "$ref" ref) (path : String) (chain : List String) :
    Decides (followRule scope self ref value path chain).verdict
      (Admits .standing scope.formats acc scope.root value (.obj ms)) := by
  apply Decides.after
  intro _ _
  apply Decides.after
  intro target htarget
  obtain ⟨root, hroot, hresolve⟩ := exists_root_of_referred htarget
  apply (hself _ _ _ _).congr
  constructor
  · exact .reference href hroot hresolve
  · intro h
    cases h with
    | reference href' hroot' hresolve' h =>
      obtain rfl := href.unique href'
      obtain rfl := Option.some.inj (hroot.symm.trans hroot')
      obtain rfl := Except.ok.inj (hresolve.symm.trans hresolve')
      exact h
    | keywords href' => exact absurd href (href' ref)

/-- One step decides what a schema admits, given what the schemas inside it admit. Only an object
has schemas inside. -/
theorem decides_step {schema : Json} (hself : ∀ ms, schema = .obj ms → Reads self acc)
    (hdistinct : schema.Distinct) (scope : Scope) (hvalue : value ≠ .absent) (path : String)
    (chain : List String) :
    Decides (step scope self value schema path chain).verdict
      (Admits .standing scope.formats acc scope.root value schema) := by
  cases schema with
  | bool b =>
    cases b
    · exact (Decides.find _).congr (iff_of_false not_false nofun)
    · exact Decides.done.congr (iff_of_true trivial .all)
  | obj ms =>
    dsimp only [step]
    cases href : Table.keyword ms "$ref" with
    | some ref =>
      exact decides_followRule (hself ms rfl) scope ((keyword_eq_some_iff ref).mp href) path chain
    | none =>
      rw [keyword_eq_none_iff] at href
      apply Decides.after
      intro n hn
      have hread := Node.readFrom_of_ofMembers hn
      apply (decides_nodeRules (hself ms rfl) scope hdistinct hread hvalue path chain).congr
      constructor
      · exact .keywords href
      · intro h
        cases h with
        | reference href' => exact absurd href' (href _)
        | keywords _ h => exact h
  | _ => exact .stop _ _

/-- An evaluation inside another one, behind its chain and in the steps that are left, answers
what a whole evaluation does. -/
theorem reads_descend (root : Json) (formats : Formats) (n : Nat) :
    Reads (descend ⟨some root, formats, true⟩ n)
      (fun x t => Conform.accepts x t (some root) formats = .ok true) := by
  intro value schema path chain b hb
  have hscope : scopeFor schema (some root) formats = ⟨some root, formats, true⟩ := by
    cases schema <;> rfl
  have hcovers : CoversDepth (fun f => f.isOfDepth = true) ⟨some root, formats, true⟩
      ⟨some root, formats, true⟩ :=
    ⟨rfl, rfl, rfl, fun _ _ => rfl⟩
  have hlaxer : Laxer ⟨some root, formats, true⟩ ⟨some root, formats, true⟩ chain [] :=
    fun _ => ⟨rfl, List.nil_subset _⟩
  have hsettles := settles_descend hcovers (Nat.le_max_left n (budget value schema (some root)))
    value schema path "" hlaxer
  have hrun := descend_eq_run value schema (some root) "" formats
    (n := max n (budget value schema (some root)))
  rw [hscope] at hrun
  rw [hrun (Nat.le_max_right _ _)] at hsettles
  have haccepts : Conform.accepts value schema (some root) formats = .ok b := by
    obtain ⟨f, -, hf⟩ | heq := hsettles
    · cases hb.symm.trans hf
    · exact heq.symm.trans hb
  show b = true ↔ Conform.accepts value schema (some root) formats = .ok true
  rw [haccepts]
  simp

/-- Evaluation accepts a value, references addressing a document. -/
def IsAccepted (document : Option Json) (formats : Formats) (value schema : Json) : Prop :=
  Conform.accepts value schema document formats = .ok true

theorem decides_accepts (value schema : Json) (root : Option Json) (formats : Formats)
    (hvalue : value ≠ .absent) (hdistinct : schema.Distinct) :
    Decides (Conform.accepts value schema root formats)
      (Admits .standing formats (IsAccepted (Pointer.document schema root) formats)
        (Pointer.document schema root) value schema) := by
  apply decides_step ?_ hdistinct (scopeFor schema root formats) hvalue "" []
  intro ms hms
  obtain ⟨doc, hdoc⟩ : ∃ doc, Pointer.document schema root = some doc := by
    subst hms
    cases root with
    | none => exact ⟨_, rfl⟩
    | some doc => exact ⟨_, rfl⟩
  have hscope : scopeFor schema root formats = ⟨some doc, formats, true⟩ := by
    rw [scopeFor, hdoc]
  rw [hscope, hdoc]
  exact reads_descend doc formats _

/-- What evaluation answers is what the schema means, but for entries of `dependencies` that are
named again. Whenever it answers at all whether a schema accepts a value, the value is accepted
exactly if the schema admits it by the entries that stand, the schemas inside it admitting what
evaluation accepts for the same document. Where all entries stand, that is what the schema admits.
A schema that is an object is its own document, if no other one is given. -/
theorem accepts_iff_admits (value schema : Json) (root : Option Json) (formats : Formats)
    (hvalue : value ≠ .absent) (hdistinct : schema.Distinct)
    (h : ∃ b, Conform.accepts value schema root formats = .ok b) :
    (Conform.accepts value schema root formats = .ok true ↔
      Admits .standing formats (IsAccepted (Pointer.document schema root) formats)
        (Pointer.document schema root) value schema) ∧
    (NamesNoneAgain schema →
      (Conform.accepts value schema root formats = .ok true ↔
        Admits .all formats (IsAccepted (Pointer.document schema root) formats)
          (Pointer.document schema root) value schema)) := by
  obtain ⟨b, hb⟩ := h
  have hstanding : Conform.accepts value schema root formats = .ok true ↔
      Admits .standing formats (IsAccepted (Pointer.document schema root) formats)
        (Pointer.document schema root) value schema := by
    rw [← decides_accepts value schema root formats hvalue hdistinct b hb, hb]
    simp
  refine ⟨hstanding, fun hnone => hstanding.trans ⟨.of_covers ?less, .of_covers ?more⟩⟩
  case less =>
    exact fun ms entries hms hentries trigger j hj _ =>
      hnone ms entries hms hentries trigger j hj
  case more => exact fun _ _ _ _ _ _ _ _ => trivial

end

/-- Keywords for strings, for numbers and for objects, with one trigger in each spelling. -/
def ticket : Json :=
  .obj [("minLength", .num (.int 2)), ("pattern", .str "^[a-z]+$"),
    ("minimum", .num (.int 4)), ("exclusiveMaximum", .num (.int 10)),
    ("multipleOf", .num (.int 2)),
    ("properties", .obj [("next", .obj [("$ref", .str "#")])]),
    ("dependencies", .obj [("seat", .arr [.str "row"]),
      ("row", .obj [("maxProperties", .num (.int 3))])]),
    ("dependentRequired", .obj [("row", .arr [.str "hall"])])]

/-- The newer spellings have one trigger, with a list, which `dependencies` gives a schema. -/
theorem namesNoneAgain_ticket : NamesNoneAgain ticket := by
  rintro ms entries hms ⟨hentries, -⟩ trigger j hj
  obtain rfl := Json.obj.inj hms
  simp only [List.lookup, String.reduceBEq, Option.some.injEq, Json.obj.injEq] at hentries
  subst hentries
  simp only [List.mem_cons, Prod.mk.injEq, List.not_mem_nil, or_false] at hj
  obtain ⟨rfl, rfl⟩ | ⟨rfl, rfl⟩ := hj
  · rintro ⟨es, ⟨hes, -⟩, htrigger⟩
    simp [List.lookup] at hes
    subst hes
    cases htrigger
  · rintro ⟨es, ⟨hes, -⟩, -⟩
    simp [List.lookup] at hes

open Sample in
/-- What the clauses of each kind admit is accepted, and what one of them does not is not. -/
theorem ticket_admits :
    ticket.Distinct ∧ NamesNoneAgain ticket ∧
    ∀ e ∈ [(Json.str "stalls", true), (.str "a", false), (.str "Stalls", false),
        (.num (.int 6), true), (.num (.int 2), false), (.num (.int 10), false),
        (.num (.int 7), false),
        (.obj [("seat", .null), ("row", .num (.int 8)), ("hall", .str "a")], true),
        (.obj [("next", .str "ab")], true), (.obj [("next", .str "a")], false),
        (.obj [("seat", .null)], false), (.obj [("seat", .null), ("row", .null)], false),
        (.obj [("row", .null), ("hall", .null), ("seat", .null), ("rank", .null)], false)],
      e.1 ≠ .absent ∧ Conform.accepts e.1 ticket none [] = .ok e.2 ∧
        (Admits .all [] (IsAccepted (some ticket) []) (some ticket) e.1 ticket ↔ e.2 = true) := by
  have hdistinct : ticket.Distinct := by
    simp [ticket, Json.Distinct, Json.DistinctItems, Json.DistinctMembers]
  refine ⟨hdistinct, namesNoneAgain_ticket, fun e he => ?_⟩
  have hverdict : e.1 ≠ .absent ∧ Conform.accepts e.1 ticket none [] = .ok e.2 := by
    revert e
    decide +kernel
  have hiff := (accepts_iff_admits e.1 ticket none [] hverdict.1 hdistinct ⟨e.2, hverdict.2⟩).2
    namesNoneAgain_ticket
  rw [hverdict.2, Except.ok.injEq] at hiff
  exact ⟨hverdict.1, hverdict.2, hiff.symm⟩

/-- One trigger with a list of names in either spelling. -/
def askedTwice : Json :=
  .obj [("dependencies", .obj [("a", .arr [.str "b"])]),
    ("dependentRequired", .obj [("a", .arr [.str "c"])])]

open Sample in
/-- Of an object with the trigger and one of the two names, `dependencies` asks for the other one.
The object is accepted without it. -/
theorem displaced_accepted :
    Conform.accepts (.obj [("a", .null), ("c", .null)]) askedTwice none [] = .ok true ∧
    ¬ Admits .all [] (IsAccepted (some askedTwice) []) (some askedTwice)
      (.obj [("a", .null), ("c", .null)]) askedTwice := by
  refine ⟨by decide +kernel, fun h => ?_⟩
  cases h with
  | reference href => cases href.1
  | keywords href h =>
    obtain ⟨hnull, -⟩ | ⟨-, -, h⟩ := h
    · cases hnull
    obtain h | ⟨-, -, h⟩ := h
    · obtain ⟨c, ⟨hc, -⟩, -⟩ | ⟨-, xs, ⟨j, ⟨hj, -⟩, -⟩, -⟩ := h
      · cases hc
      · cases hj
    · have hentries : Declares [("dependencies", .obj [("a", .arr [.str "b"])]),
          ("dependentRequired", .obj [("a", .arr [.str "c"])])] "dependencies"
          (.obj [("a", .arr [.str "b"])]) := ⟨rfl, nofun⟩
      have hasks := (h.object _ rfl).dependencies _ hentries "a" _ List.mem_cons_self trivial rfl
      obtain ⟨s, hs, hhas⟩ := hasks (.str "b") List.mem_cons_self
      obtain rfl := Json.str.inj hs
      cases hhas

end Evaluation

end Conform
