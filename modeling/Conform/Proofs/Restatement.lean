import Conform.Proofs.Agreement
import Conform.Proofs.Congruence
import Conform.Proofs.Counterparts

/-!
# Conform.Proofs.Restatement

What the rules of one node report, if the schemas inside it are exchanged for others that mean the
same. The reports stay the same but for their constraints, which show schemas. Two keywords are read
by how their schema is written, so that a schema which only stands for another one, as a reference
does, counts for something else than what it stands for:

```
additionalProperties    reports a false schema, unless it is written as false: then it reports an
                        additional member
additionalItems         the same with an item
contains                finds no match in an empty array, unless it is null: then it is not declared
```

Where the rules before are stopped, nothing is claimed about what the rules after give from there on
(`Trace.Restates`). So it does not matter what is made of a schema that stops every reading, unless
it is never read; `contains` is the one case of that.
-/

namespace Conform

/-! ## Reports and readings, before and after -/

/-- The same report after references are replaced. It may show another constraint; and what is
reported as a false schema may then be reported as an additional item or member, if there is a
keyword that forbids those by a reference. -/
inductive Violation.Restated (forbids : Prop) : Violation → Violation → Prop where
  | same {v w : Violation} (path : v.path = w.path) (code : v.code = w.code)
      (message : v.message = w.message) (value : v.value = w.value) : Restated forbids v w
  | item (h : forbids) (path : String) (value : Json) : Restated forbids
      ⟨.str path, .falseSchema, "Schema is false - value is always invalid", value, .bool false⟩
      ⟨.str path, .additionalItems, "Additional items are not allowed", value, .bool false⟩
  | member (h : forbids) (path name : String) (value : Json) : Restated forbids
      ⟨.str (Path.name path name), .falseSchema, "Schema is false - value is always invalid", value,
        .bool false⟩
      ⟨.str (Path.name path name), .additionalProperties,
        "Additional property '" ++ name ++ "' is not allowed", value, .bool false⟩

/-- The finds of a reading are the first ones of another, restated; and there are no others, nor a
fault, if the reading ends. -/
def Trace.Restates (forbids : Prop) (t u : Trace Violation) : Prop :=
  ∃ restated rest, u.found = restated ++ rest ∧
    List.Forall₂ (Violation.Restated forbids) t.found restated ∧
    (t.fault = none → rest = [] ∧ u.fault = none)

namespace Trace.Restates

variable {forbids : Prop} {t u t' u' : Trace Violation}

theorem refl (t : Trace Violation) : Restates forbids t t :=
  ⟨t.found, [], (List.append_nil _).symm, List.forall₂_same.mpr fun _ _ => .same rfl rfl rfl rfl,
    fun h => ⟨rfl, h⟩⟩

/-- Nothing is claimed behind a fault. -/
theorem stop (f : Fault) (u : Trace Violation) : Restates forbids (.stop f) u :=
  ⟨[], u.found, rfl, .nil, nofun⟩

theorem find {v w : Violation} (h : Violation.Restated forbids v w) :
    Restates forbids (.find v) (.find w) :=
  ⟨[w], [], rfl, .cons h .nil, fun _ => ⟨rfl, rfl⟩⟩

/-- A report that shows another constraint. -/
theorem violation (path : String) (code : Code) (message : String)
    (value constraint constraint' : Json) :
    Restates forbids (Evaluation.violation path code message value constraint)
      (Evaluation.violation path code message value constraint') :=
  find (.same rfl rfl rfl rfl)

theorem andThen (h : Restates forbids t u) (h' : Restates forbids t' u') :
    Restates forbids (t.andThen fun _ => t') (u.andThen fun _ => u') := by
  obtain ⟨found, fault⟩ := t
  obtain ⟨found', fault'⟩ := u
  obtain ⟨restated, rest, hfound, hrestated, hends⟩ := h
  obtain rfl : found' = restated ++ rest := hfound
  cases fault with
  | some f =>
    cases fault' with
    | some f' => exact ⟨restated, rest, rfl, hrestated, nofun⟩
    | none => exact ⟨restated, rest ++ u'.found, List.append_assoc _ _ _, hrestated, nofun⟩
  | none =>
    obtain ⟨rfl, hnone⟩ := hends rfl
    obtain rfl : fault' = none := hnone
    obtain ⟨restated', rest', hfound', hrestated', hends'⟩ := h'
    refine ⟨restated ++ restated', rest', ?_, List.rel_append hrestated hrestated', hends'⟩
    simp only [Trace.andThen, List.append_nil, hfound', List.append_assoc]

/-- A verdict is the same of the restatement. -/
theorem verdict_eq (h : Restates forbids t u) {b : Bool} (ht : t.verdict = .ok b) :
    u.verdict = .ok b := by
  obtain ⟨found, fault⟩ := t
  obtain ⟨found', fault'⟩ := u
  obtain ⟨restated, rest, hfound, hrestated, hends⟩ := h
  obtain rfl : found' = restated ++ rest := hfound
  cases hrestated with
  | cons _ _ => exact ht
  | nil =>
    cases fault with
    | some f => cases ht
    | none =>
      obtain ⟨rfl, hnone⟩ := hends rfl
      obtain rfl : fault' = none := hnone
      exact ht

theorem toExcept_eq (h : Restates forbids t u) {found : List Violation}
    (ht : t.toExcept = .ok found) :
    ∃ restated, u.toExcept = .ok restated ∧
      List.Forall₂ (Violation.Restated forbids) found restated := by
  obtain rfl := toExcept_eq_ok_iff.mp ht
  obtain ⟨restated, rest, hfound, hrestated, hends⟩ := h
  obtain ⟨rfl, hnone⟩ := hends rfl
  refine ⟨restated, ?_, hrestated⟩
  rw [Trace.toExcept, hnone, hfound, List.append_nil]

end Trace.Restates

namespace Evaluation

/-- Rules restate what they give where what they ask for is restated. -/
theorem compatible_restates (forbids : Prop) :
    Compatible (fun _ => True) (Trace.Restates forbids) fun _ p q t u =>
      p = q → Trace.Restates forbids t u where
  done _ := .refl _
  stop _ _ := .refl _
  violation _ _ _ hpq := hpq ▸ .refl _
  absent _ _ hpq := hpq ▸ .refl _
  missing _ _ _ _ _ hpq := hpq ▸ .refl _
  refusedName _ _ _ hpq := hpq ▸ .refl _
  andThen h h' hpq := (h hpq).andThen (h' hpq)
  summary {v p q t u t' u'} h h' hpq := by
    -- where the first reading is stopped, what would come behind it does not matter
    have hleft : (t.andThen fun _ => reportUnless t.found.isEmpty t') =
        t.andThen fun _ => reportUnless u.found.isEmpty t' := by
      obtain ⟨found, fault⟩ := t
      cases fault with
      | some f => rfl
      | none =>
        obtain ⟨restated, rest, hfound, hrestated, hends⟩ := h hpq
        obtain ⟨rfl, -⟩ := hends rfl
        rw [hfound, List.append_nil]
        cases hrestated <;> rfl
    rw [hleft]
    refine (h hpq).andThen ?_
    cases u.found.isEmpty
    · exact h' hpq
    · exact .refl _
  name _ h hpq := h (by rw [hpq])
  index _ h hpq := h (by rw [hpq])
  ask {v p q t u k k'} h h' hpq := by
    cases ht : t.verdict with
    | error f => exact .stop f _
    | ok b =>
      rw [h.verdict_eq ht]
      exact h' b hpq

end Evaluation

namespace Trace.Restates

open Evaluation

variable {forbids : Prop} {α β : Type}

/-- The closure of the rules, at one place. -/
theorem inTurn {ts us : List (Unit → Trace Violation)}
    (h : List.Forall₂ (fun t u => Restates forbids (t ()) (u ())) ts us) :
    Restates forbids (.inTurn ts) (.inTurn us) :=
  (compatible_restates forbids).inTurn (v := .null) (p := "") (q := "")
    (h.imp fun _ _ h _ => h) rfl

theorem eachOfTwo {f : α → Trace Violation} {g : β → Trace Violation} {xs : List α} {ys : List β}
    (h : List.Forall₂ (fun x y => Restates forbids (f x) (g y)) xs ys) :
    Restates forbids (.each f xs) (.each g ys) :=
  (compatible_restates forbids).eachOfTwo (v := .null) (p := "") (q := "")
    (h.imp fun _ _ h _ => h) rfl

theorem each {f g : α → Trace Violation} {xs : List α} (h : ∀ x, Restates forbids (f x) (g x)) :
    Restates forbids (.each f xs) (.each g xs) :=
  eachOfTwo (List.forall₂_same.mpr fun x _ => h x)

theorem after {r : Except Fault α} {k k' : α → Trace Violation}
    (h : ∀ x, Restates forbids (k x) (k' x)) : Restates forbids (.after r k) (.after r k') := by
  cases r with
  | error f => exact .refl _
  | ok x => exact h x

theorem ask {t u : Trace Violation} {k k' : Bool → Trace Violation} (h : Restates forbids t u)
    (hk : ∀ b, Restates forbids (k b) (k' b)) :
    Restates forbids (.after t.verdict k) (.after u.verdict k') :=
  (compatible_restates forbids).ask (v := .null) (p := "") (q := "") h (fun b _ => hk b) rfl

theorem someHolds {f : α → Trace Violation} {g : β → Trace Violation} {xs : List α} {ys : List β}
    {k k' : Bool → Trace Violation}
    (h : List.Forall₂ (fun x y => Restates forbids (f x) (g y)) xs ys)
    (hk : ∀ b, Restates forbids (k b) (k' b)) :
    Restates forbids (.after (Evaluation.someHolds (fun x => (f x).verdict) xs) k)
      (.after (Evaluation.someHolds (fun y => (g y).verdict) ys) k') :=
  (compatible_restates forbids).someHolds (v := .null) (p := "") (q := "") h (fun b _ => hk b) rfl

theorem countHolding {f : α → Trace Violation} {g : β → Trace Violation} {xs : List α}
    {ys : List β} {k k' : Nat → Trace Violation}
    (h : List.Forall₂ (fun x y => Restates forbids (f x) (g y)) xs ys)
    (hk : ∀ n, Restates forbids (k n) (k' n)) :
    Restates forbids (.after (Evaluation.countHolding (fun x => (f x).verdict) xs) k)
      (.after (Evaluation.countHolding (fun y => (g y).verdict) ys) k') :=
  (compatible_restates forbids).countHolding (v := .null) (p := "") (q := "") h
    (fun n _ => hk n) rfl

theorem summary {t u t' u' : Trace Violation} (h : Restates forbids t u)
    (h' : Restates forbids t' u') :
    Restates forbids (t.andThen fun _ => reportUnless t.found.isEmpty t')
      (u.andThen fun _ => reportUnless u.found.isEmpty u') :=
  (compatible_restates forbids).summary (v := .null) (p := "") (q := "") (fun _ => h)
    (fun _ => h') rfl

theorem reportUnless {t u : Trace Violation} (h : Restates forbids t u) (ok : Bool) :
    Restates forbids (reportUnless ok t) (Evaluation.reportUnless ok u) := by
  cases ok
  · exact h
  · exact .refl _

/-- Readings that find nothing restate as a reading that was not made. -/
theorem each_done {f : α → Trace Violation} {xs : List α}
    (h : ∀ x, Restates forbids (f x) .done) : Restates forbids (.each f xs) .done := by
  induction xs with
  | nil => exact .refl _
  | cons x xs ih =>
    have hdone := (h x).andThen ih
    rw [done_andThen] at hdone
    exact hdone

end Trace.Restates

namespace Evaluation

/-- A boolean schema, read by itself. -/
def booleanRule (b : Bool) (value : Json) (path : String) : Trace Violation :=
  reportUnless b (violation path .falseSchema "Schema is false - value is always invalid" value
    (.bool false))

/-- What two readings, for schemas before and after references are replaced, have to give: for any
value behind their chains, and for any behind empty ones. A schema that becomes something else than
an object is a boolean or none at all. -/
structure Mirrors (forbids : Prop) (R : Json → Json → Prop) (read read' : Evaluate)
    (chain chain' : List String) : Prop where
  again {s s' : Json} (h : R s s') (value : Json) (path : String) :
    Trace.Restates forbids (read value s path chain) (read' value s' path chain')
  into {s s' : Json} (h : R s s') (value : Json) (path : String) :
    Trace.Restates forbids (read value s path []) (read' value s' path [])
  leaf {s s' : Json} (h : R s s') (hs' : ∀ ms, s' ≠ .obj ms) (value : Json) (path : String)
    (c : List String) : (∃ f, read value s path c = .stop f) ∨
      ∃ b, s' = .bool b ∧ read value s path c = booleanRule b value path
  value {s s' : Json} (h : R s s') (hs : ∀ ms, s ≠ .obj ms) : s' = s

/-- The conditions on keywords that are read by how their schemas are written. -/
structure Faithful (forbids : Prop) (R : Json → Json → Prop) (n : Node) : Prop where
  items : ∀ s, n.array.additionalItems = some s → s ≠ .bool false → R s (.bool false) → forbids
  members : ∀ s, n.object.additionalProperties = some s → s ≠ .bool false → R s (.bool false) →
    forbids
  contains : ∀ s, n.array.contains = some s → ¬ R s .null

namespace Mirrors

variable {forbids : Prop} {R : Json → Json → Prop} {self self' : Evaluate}
  {chain chain' : List String}

/-- A schema that becomes neither an object nor a boolean stops every reading. -/
theorem stopped (h : Mirrors forbids R self self' chain chain') {s s' : Json} (hs : R s s')
    (hobj : ∀ ms, s' ≠ .obj ms) (hbool : ∀ b, s' ≠ .bool b) (value : Json) (path : String)
    (c : List String) : ∃ f, self value s path c = .stop f :=
  (h.leaf hs hobj value path c).resolve_right fun hb => hb.elim fun b hb => hbool b hb.1

/-- What hangs on a check of such a schema is stopped too. -/
theorem stopped_check (h : Mirrors forbids R self self' chain chain') {s s' : Json} (hs : R s s')
    (hobj : ∀ ms, s' ≠ .obj ms) (hbool : ∀ b, s' ≠ .bool b) (value : Json) (c : List String)
    (k : Bool → Trace Violation) (u : Trace Violation) :
    Trace.Restates forbids (.after (accepts self value s c) k) u := by
  obtain ⟨f, hf⟩ := h.stopped hs hobj hbool value "" c
  rw [accepts, hf]
  exact .stop f u

/-- A schema that becomes neither an object nor `false` has nothing to report, unless it stops the
reading. -/
theorem silent (h : Mirrors forbids R self self' chain chain') {s s' : Json} (hs : R s s')
    (hobj : ∀ ms, s' ≠ .obj ms) (hfalse : s' ≠ .bool false) (value : Json) (path : String)
    (c : List String) : Trace.Restates forbids (self value s path c) .done := by
  obtain ⟨f, hf⟩ | ⟨b, rfl, hb⟩ := h.leaf hs hobj value path c
  · rw [hf]
    exact .stop f _
  · rw [hb]
    cases b
    · exact absurd rfl hfalse
    · exact .refl _

/-- A schema that becomes `false` is reported as a false schema, unless it stops the reading. -/
theorem denied (h : Mirrors forbids R self self' chain chain') {s : Json} (hs : R s (.bool false))
    (value : Json) (path : String) (c : List String) {own : Violation}
    (hown : Violation.Restated forbids ⟨.str path, .falseSchema,
      "Schema is false - value is always invalid", value, .bool false⟩ own) :
    Trace.Restates forbids (self value s path c) (.find own) := by
  obtain ⟨f, hf⟩ | ⟨b, hb, hself⟩ := h.leaf hs nofun value path c
  · rw [hf]
    exact .stop f _
  · cases hb
    rw [hself]
    exact .find hown

/-! ## Arrays -/

theorem additionalItem (h : Mirrors forbids R self self' chain chain') {o o' : Option Json}
    (ho : Optional R o o')
    (hforbids : ∀ s, o = some s → s ≠ .bool false → R s (.bool false) → forbids)
    (x : Json) (path : String) :
    Trace.Restates forbids (additionalItem self o x path) (additionalItem self' o' x path) := by
  cases ho with
  | none => exact .refl _
  | @dropped s hs =>
    cases s with
    | obj ms => exact h.silent hs nofun nofun x path []
    | _ => cases h.value hs nofun <;> exact .refl _
  | @some s s' hs =>
    cases s with
    | obj ms =>
      match s' with
      | .obj ms' => exact h.into hs x path
      | .bool false => exact h.denied hs x path [] (.item (hforbids _ rfl nofun hs) path x)
      | .bool true | .null | .num _ | .str _ | .arr _ | .absent =>
        exact h.silent hs nofun nofun x path []
    | bool b => cases h.value hs nofun; cases b <;> exact .refl _
    | _ => cases h.value hs nofun; exact .refl _

theorem positionalItems (h : Mirrors forbids R self self' chain chain') {o o' : Option Json}
    (ho : Optional R o o')
    (hforbids : ∀ s, o = some s → s ≠ .bool false → R s (.bool false) → forbids)
    {schemas schemas' : List Json} (hschemas : List.Forall₂ R schemas schemas') (path : String)
    (i : Nat) (xs : List Json) :
    Trace.Restates forbids (positionalItems self o path i xs schemas)
      (positionalItems self' o' path i xs schemas') := by
  induction xs generalizing i schemas schemas' with
  | nil => exact .refl _
  | cons x xs ih =>
    refine .andThen ?_ (ih (List.forall₂_drop 1 hschemas) (i + 1))
    cases hschemas with
    | nil => exact h.additionalItem ho hforbids x _
    | cons hs _ => exact h.into hs x _

theorem uniformItems (h : Mirrors forbids R self self' chain chain') {s s' : Json} (hs : R s s')
    (path : String) (i : Nat) (xs : List Json) :
    Trace.Restates forbids (uniformItems self s path i xs) (uniformItems self' s' path i xs) := by
  induction xs generalizing i with
  | nil => exact .refl _
  | cons x xs ih => exact (h.into hs x _).andThen (ih (i + 1))

/-- Items are not looked at behind a schema that stops every reading. -/
theorem uniformItems_stopped {s : Json}
    (hs : ∀ value path, ∃ f, self value s path [] = .stop f) (path : String) (xs : List Json)
    {u : Trace Violation} (hu : xs = [] → u = .done) :
    Trace.Restates forbids (Evaluation.uniformItems self s path 0 xs) u := by
  cases xs with
  | nil =>
    rw [hu rfl]
    exact .refl _
  | cons x xs =>
    obtain ⟨f, hf⟩ := hs x (Path.index path 0)
    rw [Evaluation.uniformItems, hf, Trace.stop_andThen]
    exact .stop f _

theorem itemsRule (h : Mirrors forbids R self self' chain chain') {k k' : ArrayKeywords}
    (hitems : ItemsRelated R k.items k'.items)
    (hadditional : Optional R k.additionalItems k'.additionalItems)
    (hforbids : ∀ s, k.additionalItems = some s → s ≠ .bool false → R s (.bool false) → forbids)
    (xs : List Json) (path : String) :
    Trace.Restates forbids (itemsRule self k xs path) (itemsRule self' k' xs path) := by
  unfold Evaluation.itemsRule
  generalize k.items = o at hitems
  generalize k'.items = o' at hitems
  cases hitems with
  | list hlist => exact h.positionalItems hadditional hforbids hlist path 0 xs
  | alone ho halone =>
    cases halone with
    | none => exact .refl _
    | @dropped s hs =>
      have hstopped := fun value path => h.stopped hs nofun nofun value path []
      cases s with
      | arr ys => exact absurd rfl (ho ys)
      | _ => exact uniformItems_stopped hstopped path xs fun _ => rfl
    | @some s s' hs =>
      have huniform := h.uniformItems hs path 0 xs
      cases s with
      | arr ys => exact absurd rfl (ho ys)
      | _ =>
        cases s' with
        | arr ys =>
          have hstopped := fun value path => h.stopped hs nofun nofun value path []
          refine uniformItems_stopped hstopped path xs fun hxs => ?_
          subst hxs
          rfl
        | _ => exact huniform

theorem containsRule (h : Mirrors forbids R self self' chain chain') {k k' : ArrayKeywords}
    (hcontains : Optional R k.contains k'.contains) (hnull : ∀ s, k.contains = some s → ¬ R s .null)
    (xs : List Json) (path : String) :
    Trace.Restates forbids (containsRule self k xs path) (containsRule self' k' xs path) := by
  unfold Evaluation.containsRule
  generalize k.contains = o at hcontains hnull
  generalize k'.contains = o' at hcontains
  cases hcontains with
  | none => exact .refl _
  | dropped hs => exact absurd hs (hnull _ rfl)
  | some hs =>
    exact .someHolds (List.forall₂_same.mpr fun x _ => h.into hs x "") fun ok =>
      .reportUnless (.violation _ _ _ _ _ _) ok

theorem arrayRules (h : Mirrors forbids R self self' chain chain') {n n' : Node}
    (hn : Node.Related R R n n') (hfaithful : Faithful forbids R n) (xs : List Json)
    (path : String) :
    Trace.Restates forbids (arrayRules self n.array xs path)
      (arrayRules self' n'.array xs path) := by
  have hmin : minItemsRule n'.array xs path = minItemsRule n.array xs path := by
    rw [minItemsRule, minItemsRule, hn.minItems]
  have hmax : maxItemsRule n'.array xs path = maxItemsRule n.array xs path := by
    rw [maxItemsRule, maxItemsRule, hn.maxItems]
  have hunique : uniqueItemsRule n'.array xs path = uniqueItemsRule n.array xs path := by
    rw [uniqueItemsRule, uniqueItemsRule, hn.uniqueItems]
  unfold Evaluation.arrayRules
  rw [hmin, hmax, hunique]
  exact .inTurn (.cons (.refl _) (.cons (.refl _) (.cons (.refl _)
    (.cons (h.itemsRule hn.items hn.additionalItems hfaithful.items xs path)
    (.cons (h.containsRule hn.contains hfaithful.contains xs path) .nil)))))

/-! ## Objects -/

theorem propertiesRule (h : Mirrors forbids R self self' chain chain') {k k' : ObjectKeywords}
    (hk : Table.Related R k.properties k'.properties) (ms : Members) (path : String) :
    Trace.Restates forbids (propertiesRule self k ms path) (propertiesRule self' k' ms path) := by
  refine .each fun e => ?_
  obtain ⟨name, child⟩ := e
  have hlookup := hk.lookup name
  dsimp only
  generalize k.properties.lookup name = o at hlookup
  generalize k'.properties.lookup name = o' at hlookup
  cases hlookup with
  | none => exact .refl _
  | some hs => exact h.into hs child _

variable [Host] in
theorem patternPropertiesRule (h : Mirrors forbids R self self' chain chain')
    {k k' : ObjectKeywords} (hk : Table.Related R k.patternProperties k'.patternProperties)
    (ms : Members) (path : String) :
    Trace.Restates forbids (patternPropertiesRule self k ms path)
      (patternPropertiesRule self' k' ms path) := by
  refine .each fun e => .eachOfTwo (hk.imp fun c c' hc => ?_)
  obtain ⟨name, child⟩ := e
  obtain ⟨pattern, s⟩ := c
  obtain ⟨pattern', s'⟩ := c'
  obtain ⟨rfl, hs⟩ : pattern = pattern' ∧ R s s' := hc
  refine .after fun occurs => ?_
  cases occurs
  · exact .refl _
  · exact h.into hs child _

/-- What is asked of the names of a table does not depend on its entries. -/
theorem someHolds_names_eq {t t' : Members} (h : Table.Related R t t')
    (test : String → Except Fault Bool) :
    someHolds (fun e : String × Json => test e.1) t' = someHolds (fun e => test e.1) t := by
  induction h with
  | nil => rfl
  | cons he _ ih => rw [Evaluation.someHolds, Evaluation.someHolds, he.1, ih]

variable [Host] in
theorem isAdditional_eq {n n' : Node} (hn : Node.Related R R n n') (name : String) :
    isAdditional n'.object name = isAdditional n.object name := by
  rw [isAdditional, isAdditional, hn.properties.has_eq,
    someHolds_names_eq hn.patternProperties fun pattern => Pattern.occursIn pattern name]

/-- A member that no schema by name or by pattern is meant for. -/
def additionalMember (self : Evaluate) (schema : Json) (path : String) (member : String × Json) :
    Trace Violation :=
  if schema = .bool false then
    violation (Path.name path member.1) .additionalProperties
      ("Additional property '" ++ member.1 ++ "' is not allowed") member.2 (.bool false)
  else self member.2 schema (Path.name path member.1) []

variable [Host] in
/-- The members that no other schema is meant for, read by any rule. -/
def additionalMembers (k : ObjectKeywords) (rule : String × Json → Trace Violation) (ms : Members) :
    Trace Violation :=
  .each (fun m => .after (isAdditional k m.1) fun additional =>
    if additional then rule m else .done) ms

variable [Host] in
theorem additionalPropertiesRule_eq {k : ObjectKeywords} {s : Json}
    (hk : k.additionalProperties = some s) (hs : s ≠ .bool true) (ms : Members) (path : String) :
    additionalPropertiesRule self k ms path =
      additionalMembers k (additionalMember self s path) ms := by
  unfold additionalPropertiesRule
  split
  · next h => cases hk.symm.trans h
  · next h => exact absurd (Option.some.inj (hk.symm.trans h)) hs
  · next schema _ h =>
    obtain rfl := Option.some.inj (hk.symm.trans h)
    unfold additionalMembers additionalMember
    congr 1
    funext m
    obtain ⟨name, child⟩ := m
    dsimp only
    cases isAdditional k name with
    | error f => rfl
    | ok additional => cases additional <;> rfl

/-- Such a member, read by a schema that is exchanged. -/
theorem restates_additionalMember (h : Mirrors forbids R self self' chain chain') {s s' : Json}
    (hs : R s s') (hforbids : s ≠ .bool false → R s (.bool false) → forbids) (path : String)
    (m : String × Json) :
    Trace.Restates forbids (additionalMember self s path m)
      (additionalMember self' s' path m) := by
  unfold additionalMember
  by_cases hfalse : s = .bool false
  · obtain rfl := h.value hs (by rw [hfalse]; nofun)
    rw [if_pos hfalse, if_pos hfalse]
    exact .refl _
  · rw [if_neg hfalse]
    split
    · next hfalse' =>
      subst hfalse'
      exact h.denied hs m.2 _ [] (.member (hforbids hfalse hs) path m.1 m.2)
    · exact h.into hs m.2 _

section

variable [Host]

theorem restates_additionalMembers {n n' : Node} (hn : Node.Related R R n n')
    {rule rule' : String × Json → Trace Violation}
    (h : ∀ m, Trace.Restates forbids (rule m) (rule' m)) (ms : Members) :
    Trace.Restates forbids (additionalMembers n.object rule ms)
      (additionalMembers n'.object rule' ms) := by
  refine .each fun m => ?_
  rw [isAdditional_eq hn]
  refine .after fun additional => ?_
  cases additional
  · exact .refl _
  · exact h m

theorem additionalMembers_done {k : ObjectKeywords} {rule : String × Json → Trace Violation}
    (h : ∀ m, Trace.Restates forbids (rule m) .done) (ms : Members) :
    Trace.Restates forbids (additionalMembers k rule ms) .done := by
  refine .each_done fun m => ?_
  cases isAdditional k m.1 with
  | error f => exact .stop f _
  | ok additional =>
    cases additional
    · exact .refl _
    · exact h m

/-- Members are read to no effect by a schema that becomes neither an object nor `false`. -/
theorem additionalProperties_silent (h : Mirrors forbids R self self' chain chain')
    {k : ObjectKeywords} {s s' : Json} (hk : k.additionalProperties = some s) (hs : R s s')
    (hbool : ∀ b, s ≠ .bool b) (hobj : ∀ es, s' ≠ .obj es) (hfalse : s' ≠ .bool false)
    (ms : Members) (path : String) :
    Trace.Restates forbids (additionalPropertiesRule self k ms path) .done := by
  rw [additionalPropertiesRule_eq hk (hbool true)]
  refine additionalMembers_done (fun m => ?_) ms
  rw [additionalMember, if_neg (hbool false)]
  exact h.silent hs hobj hfalse m.2 _ []

theorem additionalPropertiesRule (h : Mirrors forbids R self self' chain chain') {n n' : Node}
    (hn : Node.Related R R n n') (hfaithful : Faithful forbids R n) (ms : Members) (path : String) :
    Trace.Restates forbids (additionalPropertiesRule self n.object ms path)
      (Evaluation.additionalPropertiesRule self' n'.object ms path) := by
  have hforbids := hfaithful.members
  have hadditional := hn.additionalProperties
  generalize ho : n.object.additionalProperties = o at hadditional hforbids
  generalize ho' : n'.object.additionalProperties = o' at hadditional
  cases hadditional with
  | none =>
    rw [Evaluation.additionalPropertiesRule, Evaluation.additionalPropertiesRule, ho, ho']
    exact .refl _
  | dropped hs =>
    rw [Evaluation.additionalPropertiesRule.eq_def self', ho']
    refine h.additionalProperties_silent ho hs ?_ nofun nofun ms path
    rintro b rfl
    cases h.value hs nofun
  | @some s s' hs =>
    by_cases hboth : s = .bool true ∧ s' = .bool true
    · obtain ⟨rfl, rfl⟩ := hboth
      rw [Evaluation.additionalPropertiesRule, Evaluation.additionalPropertiesRule, ho, ho']
      exact .refl _
    · have htrue : s ≠ .bool true := by
        rintro rfl
        exact hboth ⟨rfl, h.value hs nofun⟩
      by_cases htrue' : s' = .bool true
      · subst htrue'
        rw [Evaluation.additionalPropertiesRule.eq_def self', ho']
        refine h.additionalProperties_silent ho hs ?_ nofun nofun ms path
        rintro b rfl
        exact htrue (h.value hs nofun).symm
      · rw [additionalPropertiesRule_eq ho htrue, additionalPropertiesRule_eq ho' htrue']
        exact restates_additionalMembers hn
          (h.restates_additionalMember hs (hforbids _ rfl) path) ms

end

theorem propertyNamesRule (h : Mirrors forbids R self self' chain chain') {k k' : ObjectKeywords}
    (hk : Optional R k.propertyNames k'.propertyNames) (ms : Members) (path : String) :
    Trace.Restates forbids (propertyNamesRule self k ms path)
      (propertyNamesRule self' k' ms path) := by
  unfold Evaluation.propertyNamesRule
  generalize k.propertyNames = o at hk
  generalize k'.propertyNames = o' at hk
  cases hk with
  | none => exact .refl _
  | dropped hs =>
    refine .each_done fun e => ?_
    obtain ⟨name, child⟩ := e
    exact h.stopped_check hs nofun nofun (.str name) [] _ _
  | some hs =>
    refine .each fun e => ?_
    obtain ⟨name, child⟩ := e
    exact .ask (h.into hs (.str name) "") fun ok => .reportUnless (.violation _ _ _ _ _ _) ok

theorem dependentSchemasRule (h : Mirrors forbids R self self' chain chain')
    {k k' : ObjectKeywords} (hk : Table.Related R k.dependentSchemas k'.dependentSchemas)
    (ms : Members) (path : String) :
    Trace.Restates forbids (dependentSchemasRule self k ms path chain)
      (dependentSchemasRule self' k' ms path chain') := by
  refine .eachOfTwo (hk.imp fun e e' he => ?_)
  obtain ⟨trigger, s⟩ := e
  obtain ⟨trigger', s'⟩ := e'
  obtain ⟨rfl, hs⟩ : trigger = trigger' ∧ R s s' := he
  dsimp only
  split
  · exact h.again hs _ _
  · exact .refl _

variable [Host] in
theorem objectRules (h : Mirrors forbids R self self' chain chain') {n n' : Node}
    (hn : Node.Related R R n n') (hfaithful : Faithful forbids R n) (ms : Members) (path : String) :
    Trace.Restates forbids (objectRules self n.object ms path chain)
      (objectRules self' n'.object ms path chain') := by
  have hmin : minPropertiesRule n'.object ms path = minPropertiesRule n.object ms path := by
    rw [minPropertiesRule, minPropertiesRule, hn.minProperties]
  have hmax : maxPropertiesRule n'.object ms path = maxPropertiesRule n.object ms path := by
    rw [maxPropertiesRule, maxPropertiesRule, hn.maxProperties]
  have hrequired : requiredRule n'.object ms path = requiredRule n.object ms path := by
    rw [requiredRule, requiredRule, hn.required]
  have hdemands :
      dependentRequiredRule n'.object ms path = dependentRequiredRule n.object ms path := by
    rw [dependentRequiredRule, dependentRequiredRule, hn.dependentRequired]
  unfold Evaluation.objectRules
  rw [hmin, hmax, hrequired, hdemands]
  exact .inTurn (.cons (.refl _) (.cons (.refl _) (.cons (.refl _)
    (.cons (h.propertiesRule hn.properties ms path)
    (.cons (h.patternPropertiesRule hn.patternProperties ms path)
    (.cons (h.additionalPropertiesRule hn hfaithful ms path)
    (.cons (h.propertyNamesRule hn.propertyNames ms path) (.cons (.refl _)
    (.cons (h.dependentSchemasRule hn.dependentSchemas ms path) .nil)))))))))

/-! ## Combinations -/

theorem allOfRule (h : Mirrors forbids R self self' chain chain') {o o' : Option (List Json)}
    (ho : Option.Rel (List.Forall₂ R) o o') (value : Json) (path : String) :
    Trace.Restates forbids (allOfRule self o value path chain)
      (allOfRule self' o' value path chain') := by
  cases ho with
  | none => exact .refl _
  | some hs =>
    exact .summary (.eachOfTwo (hs.imp fun _ _ hs => h.again hs value path))
      (.violation _ _ _ _ _ _)

theorem anyOfRule (h : Mirrors forbids R self self' chain chain') {o o' : Option (List Json)}
    (ho : Option.Rel (List.Forall₂ R) o o') (value : Json) (path : String) :
    Trace.Restates forbids (anyOfRule self o value path chain)
      (anyOfRule self' o' value path chain') := by
  cases ho with
  | none => exact .refl _
  | some hs =>
    exact .someHolds (hs.imp fun _ _ hs => h.again hs value "") fun ok =>
      .reportUnless (.violation _ _ _ _ _ _) ok

theorem oneOfRule (h : Mirrors forbids R self self' chain chain') {o o' : Option (List Json)}
    (ho : Option.Rel (List.Forall₂ R) o o') (value : Json) (path : String) :
    Trace.Restates forbids (oneOfRule self o value path chain)
      (oneOfRule self' o' value path chain') := by
  cases ho with
  | none => exact .refl _
  | some hs =>
    refine .countHolding (hs.imp fun _ _ hs => h.again hs value "") fun n => ?_
    match n with
    | 0 => exact .violation _ _ _ _ _ _
    | 1 => exact .refl _
    | n + 2 => exact .violation _ _ _ _ _ _

theorem notRule (h : Mirrors forbids R self self' chain chain') {o o' : Option Json}
    (ho : Optional R o o') (value : Json) (path : String) :
    Trace.Restates forbids (notRule self o value path chain)
      (notRule self' o' value path chain') := by
  cases ho with
  | none => exact .refl _
  | dropped hs => exact h.stopped_check hs nofun nofun value chain _ _
  | some hs =>
    exact .ask (h.again hs value "") fun ok => .reportUnless (.violation _ _ _ _ _ _) _

theorem conditionalRule (h : Mirrors forbids R self self' chain chain')
    {k k' : ConditionalKeywords} (htest : Optional R k.test k'.test)
    (haccepted : Optional R k.accepted k'.accepted) (hrejected : Optional R k.rejected k'.rejected)
    (value : Json) (path : String) :
    Trace.Restates forbids (conditionalRule self k value path chain)
      (conditionalRule self' k' value path chain') := by
  unfold Evaluation.conditionalRule
  generalize k.test = o at htest
  generalize k'.test = o' at htest
  cases htest with
  | none => exact .refl _
  | dropped hs => exact h.stopped_check hs nofun nofun value chain _ _
  | some hs =>
    refine .ask (h.again hs value "") fun ok => ?_
    have hchosen : Optional R (if ok then k.accepted else k.rejected)
        (if ok then k'.accepted else k'.rejected) := by
      cases ok
      · exact hrejected
      · exact haccepted
    generalize (if ok then k.accepted else k.rejected) = o at hchosen
    generalize (if ok then k'.accepted else k'.rejected) = o' at hchosen
    cases hchosen with
    | none => exact .refl _
    | some hs => exact h.again hs value path
    | dropped hs => exact h.silent hs nofun nofun value path chain

theorem combinationRules (h : Mirrors forbids R self self' chain chain') {n n' : Node}
    (hn : Node.Related R R n n') (value : Json) (path : String) :
    Trace.Restates forbids (combinationRules self n value path chain)
      (combinationRules self' n' value path chain') :=
  .inTurn (.cons (h.allOfRule hn.allOf value path) (.cons (h.anyOfRule hn.anyOf value path)
    (.cons (h.oneOfRule hn.oneOf value path) (.cons (h.notRule hn.not value path)
    (.cons (h.conditionalRule hn.test hn.accepted hn.rejected value path) .nil)))))

/-! ## One node -/

variable {n n' : Node} {scope : Scope}

section

variable [Host]

theorem kindRules (h : Mirrors forbids R self self' chain chain') (hn : Node.Related R R n n')
    (hfaithful : Faithful forbids R n) (value : Json) (path : String) :
    Trace.Restates forbids (kindRules scope self n value path chain)
      (kindRules scope self' n' value path chain') := by
  cases value with
  | str s =>
    dsimp only [Evaluation.kindRules]
    rw [hn.string]
    exact .refl _
  | num m =>
    dsimp only [Evaluation.kindRules]
    rw [hn.number]
    exact .refl _
  | arr xs => exact h.arrayRules hn hfaithful xs path
  | obj ms => exact h.objectRules hn hfaithful ms path
  | _ => exact .refl _

theorem settledRules (h : Mirrors forbids R self self' chain chain') (hn : Node.Related R R n n')
    (hfaithful : Faithful forbids R n) (value : Json) (path : String) :
    Trace.Restates forbids (settledRules scope self n value path chain)
      (settledRules scope self' n' value path chain') := by
  have hsettled : isSettled n' value = isSettled n value := by
    rw [isSettled, isSettled, Node.hasConst, Node.hasConst, hn.const, hn.enum]
  have hunsettled : unsettledRule n' value path = unsettledRule n value path := by
    rw [unsettledRule, unsettledRule, Node.hasConst, Node.hasConst, hn.const, hn.enum]
  unfold Evaluation.settledRules
  rw [hsettled, hunsettled]
  split
  · exact .refl _
  · exact .inTurn (.cons (.refl _) (.cons (h.kindRules hn hfaithful value path)
      (.cons (h.combinationRules hn value path) .nil)))

theorem typedRules (h : Mirrors forbids R self self' chain chain') (hn : Node.Related R R n n')
    (hfaithful : Faithful forbids R n) (value : Json) (path : String) :
    Trace.Restates forbids (typedRules scope self n value path chain)
      (typedRules scope self' n' value path chain') := by
  unfold Evaluation.typedRules
  rw [hn.types]
  split
  · split
    · exact h.settledRules hn hfaithful value path
    · exact .refl _
  · exact h.settledRules hn hfaithful value path

theorem nodeRules (h : Mirrors forbids R self self' chain chain') (hn : Node.Related R R n n')
    (hfaithful : Faithful forbids R n) (value : Json) (path : String) :
    Trace.Restates forbids (nodeRules scope self n value path chain)
      (nodeRules scope self' n' value path chain') := by
  have hnull : n'.allowsNull = n.allowsNull := by
    rw [Node.allowsNull, Node.allowsNull, Node.declares, Node.declares, hn.types]
  have hmismatch : nullMismatch n' path = nullMismatch n path := by
    rw [nullMismatch, nullMismatch, hn.types]
  unfold Evaluation.nodeRules
  rw [hn.types, hnull, hmismatch, hn.enum, Node.hasConst, Node.hasConst, hn.const]
  split
  · exact .refl _
  · split
    · exact .refl _
    · split
      · exact .refl _
      · exact h.typedRules hn hfaithful .null path
  · exact h.typedRules hn hfaithful _ path

end

end Mirrors

end Evaluation

end Conform
