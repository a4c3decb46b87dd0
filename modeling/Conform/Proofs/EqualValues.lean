import Conform.Proofs.Agreement
import Conform.Proofs.Equality
import Conform.Proofs.Termination

/-!
# Conform.Proofs.EqualValues

Equal values are told apart by nothing but the order of their reports. For two of them one schema
gives one verdict, and reports at the same places by the same rules, as long as both evaluations end
without a fault. Multiples are left out, which are tested by the way a number is written.

A schema is indifferent to equal values (`Indifferent`) if it keeps this up wherever it is asked for
it, and rules are as far as the schemas are that they ask. What an object reports comes in the order
of its members, so a fault may stand before a report for the one value and behind it for the other.
So two readings are compared only where neither ends with a fault (`Trace.Agree`), and for the
verdict where neither begins with one.
-/

namespace Conform

/-! ## Readings of two values -/

/-- Two computations do not differ where both give something. -/
def Concur {α : Type} (r s : Except Fault α) : Prop := ∀ x y, r = .ok x → s = .ok y → x = y

theorem Concur.refl {α : Type} (r : Except Fault α) : Concur r r := by
  intro x y hx hy
  cases hx.symm.trans hy
  rfl

theorem Concur.bind {α β : Type} {r s : Except Fault α} {k l : α → Except Fault β}
    (h : Concur r s) (hk : ∀ x, Concur (k x) (l x)) : Concur (r >>= k) (s >>= l) := by
  cases r with
  | error f => exact nofun
  | ok x =>
    cases s with
    | error f => exact fun _ _ _ => nofun
    | ok y =>
      obtain rfl := h x y rfl rfl
      exact hk x

/-- Where a report lies, and by which rule. -/
def Violation.mark (e : Violation) : Json × Code := (e.path, e.code)

namespace Trace

/-- Two readings agree on the verdict, where both have one, and on places and rules but for their
order, where both end without a fault. -/
structure Agree (t u : Trace Violation) : Prop where
  verdict : Concur t.verdict u.verdict
  marks (ht : t.fault = none) (hu : u.fault = none) :
    (t.found.map Violation.mark).Perm (u.found.map Violation.mark)

theorem fault_andThen_eq_none_iff {α : Type} {t u : Trace α} :
    (t.andThen fun _ => u).fault = none ↔ t.fault = none ∧ u.fault = none := by
  obtain ⟨found, fault⟩ := t
  cases fault <;> simp [andThen]

theorem found_andThen {α : Type} {t : Trace α} (ht : t.fault = none) (u : Trace α) :
    (t.andThen fun _ => u).found = t.found ++ u.found := by
  rw [andThen, ht]

namespace Agree

variable {t u t' u' : Trace Violation}

theorem refl (t : Trace Violation) : Agree t t := ⟨.refl _, fun _ _ => .refl _⟩

theorem violation (p : String) (code : Code) (message message' : String)
    (value value' constraint constraint' : Json) :
    Agree (Evaluation.violation p code message value constraint)
      (Evaluation.violation p code message' value' constraint') :=
  ⟨.refl _, fun _ _ => .refl _⟩

theorem andThen (h : Agree t u) (h' : Agree t' u') :
    Agree (t.andThen fun _ => t') (u.andThen fun _ => u') where
  verdict := by
    have hbind : ∀ t u : Trace Violation, (t.andThen fun _ => u).verdict =
        t.verdict >>= fun b => if b then u.verdict else .ok false := by
      intro t u
      rw [verdict_andThen]
      cases t.verdict with
      | error f => rfl
      | ok b => cases b <;> rfl
    rw [hbind, hbind]
    refine h.verdict.bind fun b => ?_
    cases b
    · exact .refl _
    · exact h'.verdict
  marks ht hu := by
    rw [fault_andThen_eq_none_iff] at ht hu
    rw [found_andThen ht.1, found_andThen hu.1, List.map_append, List.map_append]
    exact (h.marks ht.1 hu.1).append (h'.marks ht.2 hu.2)

theorem reportUnless (ok : Bool) (h : Agree t u) :
    Agree (Evaluation.reportUnless ok t) (Evaluation.reportUnless ok u) := by
  cases ok
  · exact h
  · exact refl _

theorem summary (h : Agree t u) (h' : Agree t' u') :
    Agree (t.andThen fun _ => Evaluation.reportUnless t.found.isEmpty t')
      (u.andThen fun _ => Evaluation.reportUnless u.found.isEmpty u') where
  verdict := by
    rw [Evaluation.verdict_summary, Evaluation.verdict_summary]
    exact h.verdict
  marks ht hu := by
    have hmarks := h.marks (fault_andThen_eq_none_iff.mp ht).1 (fault_andThen_eq_none_iff.mp hu).1
    have hempty : t.found.isEmpty = u.found.isEmpty := by
      have hlength := hmarks.length_eq
      rw [List.length_map, List.length_map] at hlength
      rw [Bool.eq_iff_iff, List.isEmpty_iff_length_eq_zero, List.isEmpty_iff_length_eq_zero,
        hlength]
    rw [hempty] at ht ⊢
    exact (h.andThen (h'.reportUnless _)).marks ht hu

/-- Going on from computations that do not differ. -/
theorem after {α : Type} {r s : Except Fault α} {k l : α → Trace Violation} (h : Concur r s)
    (hk : ∀ x, Agree (k x) (l x)) : Agree (.after r k) (.after s l) := by
  cases r with
  | error f => exact ⟨nofun, nofun⟩
  | ok x =>
    cases s with
    | error f => exact ⟨fun _ _ _ => nofun, fun _ => nofun⟩
    | ok y =>
      obtain rfl := h x y rfl rfl
      exact hk x

theorem inTurn {ts us : List (Unit → Trace Violation)}
    (h : List.Forall₂ (fun t u => Agree (t ()) (u ())) ts us) :
    Agree (.inTurn ts) (.inTurn us) := by
  induction h with
  | nil => exact refl _
  | cons h _ ih => exact h.andThen ih

end Agree

/-! ## Element by element -/

section

variable {α β : Type} {f : α → Trace Violation}

theorem fault_each_eq_none_iff {xs : List α} :
    (each f xs).fault = none ↔ ∀ x ∈ xs, (f x).fault = none := by
  induction xs with
  | nil => simp [each, done]
  | cons x xs ih => rw [each, fault_andThen_eq_none_iff, ih, List.forall_mem_cons]

theorem found_each {xs : List α} (h : ∀ x ∈ xs, (f x).fault = none) :
    (each f xs).found = xs.flatMap fun x => (f x).found := by
  induction xs with
  | nil => rfl
  | cons x xs ih =>
    rw [List.forall_mem_cons] at h
    rw [each, found_andThen h.1, ih h.2, List.flatMap_cons]

/-- Readings one after the other accept where each of them does. -/
theorem verdict_of_each_true {xs : List α} (h : (each f xs).verdict = .ok true) :
    ∀ x ∈ xs, (f x).verdict = .ok true := by
  induction xs with
  | nil => exact nofun
  | cons x xs ih =>
    rw [each, verdict_andThen] at h
    split at h
    · next hx => exact List.forall_mem_cons.mpr ⟨hx, ih h⟩
    · next hne => exact absurd h hne

/-- Readings one after the other refuse because one of them does. -/
theorem verdict_of_each_false {xs : List α} (h : (each f xs).verdict = .ok false) :
    ∃ x ∈ xs, (f x).verdict = .ok false := by
  induction xs with
  | nil => cases h
  | cons x xs ih =>
    rw [each, verdict_andThen] at h
    split at h
    · obtain ⟨y, hy, hfalse⟩ := ih h
      exact ⟨y, List.mem_cons_of_mem _ hy, hfalse⟩
    · exact ⟨x, List.mem_cons_self, h⟩

/-- Element by element, in two orders. -/
theorem Agree.each_of_perm {f : α → Trace Violation} {g : β → Trace Violation} {xs : List α}
    {ys ys' : List β} (h : List.Forall₂ (fun x y => Agree (f x) (g y)) xs ys')
    (hperm : ys'.Perm ys) : Agree (.each f xs) (.each g ys) where
  verdict := by
    intro b b' hb hb'
    cases b <;> cases b'
    case false.false => rfl
    case true.true => rfl
    case false.true =>
      obtain ⟨x, hx, hfalse⟩ := verdict_of_each_false hb
      obtain ⟨y, hy, hxy⟩ := exists_of_forall₂ h.flip hx
      have htrue := verdict_of_each_true hb' y (hperm.mem_iff.mp hy)
      exact absurd (hxy.verdict _ _ hfalse htrue) Bool.false_ne_true
    case true.false =>
      obtain ⟨y, hy, hfalse⟩ := verdict_of_each_false hb'
      obtain ⟨x, hx, hxy⟩ := exists_of_forall₂ h (hperm.mem_iff.mpr hy)
      have htrue := verdict_of_each_true hb x hx
      exact absurd (hxy.verdict _ _ htrue hfalse).symm Bool.false_ne_true
  marks ht hu := by
    rw [fault_each_eq_none_iff] at ht hu
    rw [found_each ht, found_each hu]
    have hu' : ∀ y ∈ ys', (g y).fault = none := fun y hy => hu y (hperm.mem_iff.mp hy)
    have horder : (xs.flatMap fun x => (f x).found.map Violation.mark).Perm
        (ys'.flatMap fun y => (g y).found.map Violation.mark) := by
      clear hu hperm
      induction h with
      | nil => exact .refl _
      | cons h _ ih =>
        rw [List.forall_mem_cons] at ht hu'
        rw [List.flatMap_cons, List.flatMap_cons]
        exact (h.marks ht.1 hu'.1).append (ih ht.2 hu'.2)
    rw [List.map_flatMap, List.map_flatMap]
    exact horder.trans (hperm.flatMap_right _)

theorem Agree.each {f g : α → Trace Violation} {xs : List α} (h : ∀ x ∈ xs, Agree (f x) (g x)) :
    Agree (.each f xs) (.each g xs) :=
  each_of_perm (List.forall₂_same.mpr h) (.refl xs)

end

end Trace

/-! ## Rules -/

namespace Evaluation

open Json Trace

/-- A schema is indifferent to equal values, where a reading is asked for it. -/
def Indifferent (read : Evaluate) (schema : Json) : Prop :=
  ∀ v w, Same v w → ∀ path chain, Agree (read v schema path chain) (read w schema path chain)

/-- A node is indifferent to equal values if it asks for no multiples and its schemas are. -/
structure IndifferentNode (read : Evaluate) (n : Node) : Prop where
  multipleOf : n.number.multipleOf = none
  again : ∀ s ∈ n.again, Indifferent read s
  into : ∀ s ∈ n.into, Indifferent read s

/-! ### Demands on several schemas -/

section

variable {α β : Type} {f : α → Except Fault Bool} {g : β → Except Fault Bool} {xs : List α}
  {ys : List β}

theorem someHolds_cons (x : α) (xs : List α) :
    someHolds f (x :: xs) = f x >>= fun b => if b then .ok true else someHolds f xs := by
  rw [someHolds]
  cases f x with
  | error e => rfl
  | ok b => cases b <;> rfl

theorem countHolding_cons (x : α) (xs : List α) :
    countHolding f (x :: xs) =
      f x >>= fun b => countHolding f xs >>= fun n => .ok (if b then n + 1 else n) := by
  rw [countHolding]
  cases f x with
  | error e => rfl
  | ok b => cases countHolding f xs <;> rfl

theorem concur_someHolds (h : List.Forall₂ (fun x y => Concur (f x) (g y)) xs ys) :
    Concur (someHolds f xs) (someHolds g ys) := by
  induction h with
  | nil => exact .refl _
  | cons hxy _ ih =>
    rw [someHolds_cons, someHolds_cons]
    refine hxy.bind fun b => ?_
    cases b
    · exact ih
    · exact .refl _

theorem concur_countHolding (h : List.Forall₂ (fun x y => Concur (f x) (g y)) xs ys) :
    Concur (countHolding f xs) (countHolding g ys) := by
  induction h with
  | nil => exact .refl _
  | cons hxy _ ih =>
    rw [countHolding_cons, countHolding_cons]
    exact hxy.bind fun b => ih.bind fun n => .refl _

end

variable {self : Evaluate} {v w : Json} {schema : Json}

theorem Indifferent.accepts (h : Indifferent self schema) (hvw : Same v w) (chain : List String) :
    Concur (accepts self v schema chain) (accepts self w schema chain) :=
  (h v w hvw "" chain).verdict

/-! ### Leaves -/

theorem agree_limitRule {breaks breaks' : Number → Bool} (h : breaks = breaks')
    (limit : Option Json) (code : Code) (before behind : String) (v w : Json) (path : String) :
    Agree (limitRule limit breaks code before behind v path)
      (limitRule limit breaks' code before behind w path) := by
  subst h
  refine .after (.refl _) fun found => ?_
  cases found with
  | none => exact .refl _
  | some j => exact .after (.refl _) fun words => .violation ..

theorem agree_numberRules {k : NumberKeywords} (hmultiple : k.multipleOf = none) {n m : Number}
    (h : n.same m = true) (path : String) :
    Agree (numberRules k n path) (numberRules k m path) := by
  have hextent := (Number.same_iff.mp h).1
  refine .inTurn (.cons (agree_limitRule ?_ ..) (.cons (agree_limitRule ?_ ..)
    (.cons (agree_limitRule ?_ ..) (.cons (agree_limitRule ?_ ..) (.cons ?multiples .nil)))))
  case multiples =>
    rw [multipleOfRule, multipleOfRule, hmultiple]
    exact .refl _
  all_goals
    funext limit
    simp only [Number.lt, Number.le, hextent]

/-! ### Arrays -/

section

variable {xs ys : List Json}

theorem agree_additionalItem {additional : Option Json}
    (h : ∀ s ∈ additional.toList, Indifferent self s) (hvw : Same v w) (path : String) :
    Agree (additionalItem self additional v path) (additionalItem self additional w path) := by
  unfold additionalItem
  split
  · exact .violation ..
  · exact h _ List.mem_cons_self v w hvw _ _
  · exact .refl _

theorem agree_positionalItems {additional : Option Json} {schemas : List Json}
    (h : ∀ s ∈ schemas ++ additional.toList, Indifferent self s)
    (hxs : List.Forall₂ Same xs ys) (path : String) (i : Nat) :
    Agree (positionalItems self additional path i xs schemas)
      (positionalItems self additional path i ys schemas) := by
  induction hxs generalizing i schemas with
  | nil => exact .refl _
  | cons hxy _ ih =>
    have hrest : ∀ s ∈ schemas.drop 1 ++ additional.toList, Indifferent self s := by
      intro s hs
      refine h s (List.mem_append.mpr ?_)
      exact (List.mem_append.mp hs).imp_left List.mem_of_mem_drop
    refine .andThen ?_ (ih hrest (i + 1))
    cases schemas with
    | nil => exact agree_additionalItem h hxy _
    | cons s schemas => exact h s List.mem_cons_self _ _ hxy _ _

theorem agree_uniformItems (h : Indifferent self schema) (hxs : List.Forall₂ Same xs ys)
    (path : String) (i : Nat) :
    Agree (uniformItems self schema path i xs) (uniformItems self schema path i ys) := by
  induction hxs generalizing i with
  | nil => exact .refl _
  | cons hxy _ ih => exact .andThen (h _ _ hxy _ _) (ih (i + 1))

theorem agree_itemsRule {k : ArrayKeywords}
    (h : ∀ s ∈ k.itemSchemas ++ k.additionalItems.toList, Indifferent self s)
    (hxs : List.Forall₂ Same xs ys) (path : String) :
    Agree (itemsRule self k xs path) (itemsRule self k ys path) := by
  unfold ArrayKeywords.itemSchemas at h
  unfold itemsRule
  split
  · exact .refl _
  · next hitems =>
    rw [hitems] at h
    exact agree_positionalItems h hxs path 0
  · next schema hone hitems =>
    rw [hitems] at h
    split at h
    · next he => cases he
    · next he =>
      cases he
      exact absurd rfl (hone _)
    · next he =>
      cases he
      exact agree_uniformItems (h schema List.mem_cons_self) hxs path 0

theorem agree_containsRule {k : ArrayKeywords} (h : ∀ s ∈ k.contains.toList, Indifferent self s)
    (hxs : List.Forall₂ Same xs ys) (path : String) :
    Agree (containsRule self k xs path) (containsRule self k ys path) := by
  unfold containsRule
  split
  · exact .refl _
  · next wanted hwanted =>
    rw [hwanted] at h
    have hwanted := h wanted List.mem_cons_self
    refine .after (concur_someHolds (hxs.imp fun _ _ hxy => hwanted.accepts hxy [])) fun ok => ?_
    exact .reportUnless ok (.violation ..)

theorem agree_arrayRules {n : Node} (h : IndifferentNode self n)
    (hxs : List.Forall₂ Same xs ys) (path : String) :
    Agree (arrayRules self n.array xs path) (arrayRules self n.array ys path) := by
  have hlength := hxs.length_eq
  refine .inTurn (.cons (agree_limitRule ?_ ..) (.cons (agree_limitRule ?_ ..)
    (.cons ?unique (.cons (agree_itemsRule ?items hxs path)
    (.cons (agree_containsRule ?contains hxs path) .nil)))))
  · rw [hlength]
  · rw [hlength]
  case unique =>
    dsimp only [uniqueItemsRule]
    rw [hasDuplicates_eq hxs]
    exact .reportUnless _ (.violation ..)
  all_goals
    refine fun s hs => h.into s ?_
    simp only [Node.into, List.mem_append] at hs ⊢
    tauto

end

/-! ### Objects -/

section

variable {ms ns : Members}

/-- Two lists of members that are the same but for their order. -/
def Reordered (ms ns : Members) : Prop :=
  ∃ ms', Table.Related Same ms ms' ∧ ms'.Perm ns

theorem Reordered.length_eq (h : Reordered ms ns) : ms.length = ns.length := by
  obtain ⟨ms', hrelated, hperm⟩ := h
  rw [List.Forall₂.length_eq hrelated, hperm.length_eq]

theorem Reordered.has_eq (h : Reordered ms ns) (name : String) :
    Table.has ms name = Table.has ns name := by
  obtain ⟨ms', hrelated, hperm⟩ := h
  rw [hrelated.has_eq, Bool.eq_iff_iff, Table.has_iff, Table.has_iff]
  exact (hperm.map Prod.fst).mem_iff

/-- Member by member, whatever their order is. -/
theorem Reordered.agree_each (h : Reordered ms ns) {f : String × Json → Trace Violation}
    (hf : ∀ name x y, Same x y → Agree (f (name, x)) (f (name, y))) :
    Agree (.each f ms) (.each f ns) := by
  obtain ⟨ms', hrelated, hperm⟩ := h
  refine .each_of_perm (hrelated.imp fun e e' he => ?_) hperm
  obtain ⟨name, x⟩ := e
  obtain ⟨name', y⟩ := e'
  obtain ⟨rfl, hxy⟩ : name = name' ∧ Same x y := he
  exact hf name x y hxy

theorem Reordered.demand_eq (h : Reordered ms ns) : demand ms = demand ns := by
  have hname : hasMember ms = hasMember ns := by
    funext name
    cases name with
    | str s => rw [hasMember, hasMember, h.has_eq]
    | _ => rfl
  funext path code before behind name constraint
  rw [demand, demand, hname]

theorem agree_propertiesRule {k : ObjectKeywords}
    (h : ∀ s ∈ k.properties.map Prod.snd, Indifferent self s) (hms : Reordered ms ns)
    (path : String) : Agree (propertiesRule self k ms path) (propertiesRule self k ns path) := by
  refine hms.agree_each fun name x y hxy => ?_
  dsimp only
  split
  · next schema found => exact h schema (Compatible.mem_map_snd_of_lookup found) x y hxy _ _
  · exact .refl _

variable [Host] in
theorem agree_patternPropertiesRule {k : ObjectKeywords}
    (h : ∀ s ∈ k.patternProperties.map Prod.snd, Indifferent self s) (hms : Reordered ms ns)
    (path : String) :
    Agree (patternPropertiesRule self k ms path) (patternPropertiesRule self k ns path) := by
  refine hms.agree_each fun name x y hxy => .each fun c hc => .after (.refl _) fun occurs => ?_
  cases occurs
  · exact .refl _
  · exact h c.2 (List.mem_map.mpr ⟨_, hc, rfl⟩) x y hxy _ _

variable [Host] in
theorem agree_additionalPropertiesRule {k : ObjectKeywords}
    (h : ∀ s ∈ k.additionalProperties.toList, Indifferent self s) (hms : Reordered ms ns)
    (path : String) :
    Agree (additionalPropertiesRule self k ms path) (additionalPropertiesRule self k ns path) := by
  unfold additionalPropertiesRule
  split
  · exact .refl _
  · exact .refl _
  · next schema _ hschema =>
    rw [hschema] at h
    refine hms.agree_each fun name x y hxy => .after (.refl _) fun additional => ?_
    cases additional
    · exact .refl _
    · rw [Bool.not_true, if_neg Bool.false_ne_true, if_neg Bool.false_ne_true]
      split
      · exact .violation ..
      · exact h schema List.mem_cons_self x y hxy _ _

theorem agree_propertyNamesRule (self : Evaluate) (k : ObjectKeywords) (hms : Reordered ms ns)
    (path : String) :
    Agree (propertyNamesRule self k ms path) (propertyNamesRule self k ns path) := by
  unfold propertyNamesRule
  split
  · exact .refl _
  · exact hms.agree_each fun name x y _ => .refl _

theorem agree_dependentSchemasRule {k : ObjectKeywords}
    (h : ∀ s ∈ k.dependentSchemas.map Prod.snd, Indifferent self s)
    (hvw : Same (.obj ms) (.obj ns)) (hms : Reordered ms ns) (path : String) (chain : List String) :
    Agree (dependentSchemasRule self k ms path chain)
      (dependentSchemasRule self k ns path chain) := by
  refine .each fun e he => ?_
  dsimp only
  rw [hms.has_eq]
  split
  · exact h e.2 (List.mem_map.mpr ⟨_, he, rfl⟩) _ _ hvw _ _
  · exact .refl _

variable [Host] in
theorem agree_objectRules {n : Node} (h : IndifferentNode self n) (hvw : Same (.obj ms) (.obj ns))
    (path : String) (chain : List String) :
    Agree (objectRules self n.object ms path chain) (objectRules self n.object ns path chain) := by
  have hms : Reordered ms ns := hvw.members
  refine .inTurn (.cons (agree_limitRule ?_ ..) (.cons (agree_limitRule ?_ ..)
    (.cons ?required (.cons (agree_propertiesRule ?properties hms path)
    (.cons (agree_patternPropertiesRule ?patterns hms path)
    (.cons (agree_additionalPropertiesRule ?additional hms path)
    (.cons (agree_propertyNamesRule self _ hms path) (.cons ?demands
    (.cons (agree_dependentSchemasRule ?schemas hvw hms path chain) .nil)))))))))
  · rw [hms.length_eq]
  · rw [hms.length_eq]
  case required =>
    dsimp only [requiredRule]
    rw [hms.demand_eq]
    exact .refl _
  case demands =>
    dsimp only [dependentRequiredRule]
    rw [hms.demand_eq, funext hms.has_eq]
    exact .refl _
  case schemas =>
    refine fun s hs => h.again s ?_
    simp only [Node.again, List.mem_append]
    tauto
  all_goals
    refine fun s hs => h.into s ?_
    simp only [Node.into, List.mem_append]
    tauto

end

/-! ### Combinations -/

section

variable {schemas : Option (List Json)}

/-- Verdicts on two equal values by schemas that are indifferent to them. -/
theorem concur_accepts {schemas : List Json} (h : ∀ s ∈ schemas, Indifferent self s)
    (hvw : Same v w) (chain : List String) :
    List.Forall₂ (fun s s' => Concur (accepts self v s chain) (accepts self w s' chain))
      schemas schemas :=
  List.forall₂_same.mpr fun s hs => (h s hs).accepts hvw chain

theorem agree_allOfRule (h : ∀ s ∈ schemas.getD [], Indifferent self s) (hvw : Same v w)
    (path : String) (chain : List String) :
    Agree (allOfRule self schemas v path chain) (allOfRule self schemas w path chain) := by
  cases schemas with
  | none => exact .refl _
  | some schemas => exact .summary (.each fun s hs => h s hs v w hvw path chain) (.violation ..)

theorem agree_anyOfRule (h : ∀ s ∈ schemas.getD [], Indifferent self s) (hvw : Same v w)
    (path : String) (chain : List String) :
    Agree (anyOfRule self schemas v path chain) (anyOfRule self schemas w path chain) := by
  cases schemas with
  | none => exact .refl _
  | some schemas =>
    exact .after (concur_someHolds (concur_accepts h hvw chain)) fun ok =>
      .reportUnless ok (.violation ..)

theorem agree_oneOfRule (h : ∀ s ∈ schemas.getD [], Indifferent self s) (hvw : Same v w)
    (path : String) (chain : List String) :
    Agree (oneOfRule self schemas v path chain) (oneOfRule self schemas w path chain) := by
  cases schemas with
  | none => exact .refl _
  | some schemas =>
    refine .after (concur_countHolding (concur_accepts h hvw chain)) fun n => ?_
    match n with
    | 0 => exact .violation ..
    | 1 => exact .refl _
    | n + 2 => exact .violation ..

theorem agree_notRule {schema : Option Json} (h : ∀ s ∈ schema.toList, Indifferent self s)
    (hvw : Same v w) (path : String) (chain : List String) :
    Agree (notRule self schema v path chain) (notRule self schema w path chain) := by
  cases schema with
  | none => exact .refl _
  | some schema =>
    exact .after ((h schema List.mem_cons_self).accepts hvw chain) fun ok =>
      .reportUnless _ (.violation ..)

theorem agree_conditionalRule {k : ConditionalKeywords}
    (h : ∀ s ∈ k.test.toList ++ k.accepted.toList ++ k.rejected.toList, Indifferent self s)
    (hvw : Same v w) (path : String) (chain : List String) :
    Agree (conditionalRule self k v path chain) (conditionalRule self k w path chain) := by
  unfold conditionalRule
  split
  · exact .refl _
  · next test htest =>
    have hindifferent := h test (by simp [htest])
    refine .after (hindifferent.accepts hvw chain) fun ok => ?_
    split
    · next schema hschema =>
      refine h schema ?_ v w hvw path chain
      cases ok <;> simp_all
    · exact .refl _

theorem agree_combinationRules {n : Node} (h : IndifferentNode self n)
    (hvw : Same v w) (path : String) (chain : List String) :
    Agree (combinationRules self n v path chain) (combinationRules self n w path chain) := by
  refine .inTurn (.cons (agree_allOfRule ?_ hvw path chain)
    (.cons (agree_anyOfRule ?_ hvw path chain) (.cons (agree_oneOfRule ?_ hvw path chain)
    (.cons (agree_notRule ?_ hvw path chain)
    (.cons (agree_conditionalRule ?_ hvw path chain) .nil)))))
  all_goals
    refine fun s hs => h.again s ?_
    simp only [Node.again, List.mem_append] at hs ⊢
    tauto

end

/-! ### One node -/

theorem agree_typeMismatch (types : List Json) (v w : Json) (path : String) :
    Agree (typeMismatch types v path) (typeMismatch types w path) := by
  refine .after (.refl _) fun words => ?_
  split
  · exact .refl _
  · exact .violation ..
  · exact .violation ..

theorem agree_unsettledRule (n : Node) (hvw : Same v w) (path : String) :
    Agree (unsettledRule n v path) (unsettledRule n w path) := by
  refine .andThen ?_ ?_
  · split
    · exact .after (.refl _) fun words => .violation ..
    · exact .refl _
  · split
    · rw [hvw.isAmong_eq]
      exact .reportUnless _ (.after (.refl _) fun choices => .violation ..)
    · exact .refl _

variable (scope : Scope) {n : Node}

section

variable [Host]

theorem agree_kindRules (h : IndifferentNode self n) (hvw : Same v w) (path : String)
    (chain : List String) :
    Agree (kindRules scope self n v path chain) (kindRules scope self n w path chain) := by
  cases hvw.form with
  | refl => exact .refl _
  | number hsame => exact agree_numberRules h.multipleOf hsame path
  | array hitems => exact agree_arrayRules h hitems path
  | object _ _ => exact agree_objectRules h hvw path chain

theorem agree_settledRules (h : IndifferentNode self n) (hvw : Same v w) (path : String)
    (chain : List String) :
    Agree (settledRules scope self n v path chain) (settledRules scope self n w path chain) := by
  have hsettled : isSettled n v = isSettled n w := by
    unfold isSettled
    rw [hvw.equals_eq, funext hvw.isAmong_eq]
  unfold settledRules
  rw [hsettled]
  split
  · exact .refl _
  · exact .inTurn (.cons (agree_unsettledRule n hvw path)
      (.cons (agree_kindRules scope h hvw path chain)
      (.cons (agree_combinationRules h hvw path chain) .nil)))

theorem agree_typedRules (h : IndifferentNode self n) (hvw : Same v w) (path : String)
    (chain : List String) :
    Agree (typedRules scope self n v path chain) (typedRules scope self n w path chain) := by
  have hsettled := agree_settledRules scope h hvw path chain
  unfold typedRules
  split
  · rw [hvw.hasSomeType_eq]
    split
    · exact hsettled
    · exact agree_typeMismatch ..
  · exact hsettled

/-- The rules of one node agree on two equal values as far as its schemas are indifferent. -/
theorem agree_nodeRules (h : IndifferentNode self n) (hvw : Same v w) (path : String)
    (chain : List String) :
    Agree (nodeRules scope self n v path chain) (nodeRules scope self n w path chain) := by
  have htyped := agree_typedRules scope h hvw path chain
  cases hvw.form with
  | refl => exact .refl _
  | number _ => exact htyped
  | array _ => exact htyped
  | object _ _ => exact htyped

end

/-! ## Evaluation -/

/-- No schema that evaluation can reach asks for multiples. -/
def Multipleless (document : Option Json) (schema : Json) : Prop :=
  ∀ s n, Json.Reaches document schema s → s.ReadsAs n → n.number.multipleOf = none

theorem Multipleless.of_meets {document : Option Json} {s : Json}
    (h : Multipleless document schema) (hs : Json.Meets document schema s) :
    Multipleless document s := fun t n ht => h t n (.head hs ht)

variable [Host] in
/-- Evaluation is indifferent to equal values where no multiples are asked for. -/
theorem indifferent_descend (m : Nat) (h : Multipleless scope.root schema) :
    Indifferent (descend scope m) schema := by
  induction m generalizing schema with
  | zero => exact fun _ _ _ _ _ => .refl _
  | succ m ih =>
    intro v w hvw path chain
    rw [descend]
    unfold step
    cases schema with
    | bool b =>
      cases b
      · exact .violation ..
      · exact .refl _
    | obj ms =>
      dsimp only
      split
      · next ref href =>
        refine .after (.refl _) fun _ => ?_
        cases htarget : referred scope ref with
        | error f => exact .refl _
        | ok target =>
          exact ih (h.of_meets (.follow (refersTo_of_referred href htarget))) v w hvw _ _
      · next href =>
        cases hn : Node.ofMembers ms with
        | error f => exact .refl _
        | ok n =>
          have hreads : (Json.obj ms).ReadsAs n := .keywords href hn
          have hnode : IndifferentNode (descend scope m) n := {
            multipleOf := h _ n .refl hreads
            again := fun s hs => ih (h.of_meets (.again hreads hs))
            into := fun s hs => ih (h.of_meets (.into hreads hs)) }
          exact agree_nodeRules scope hnode hvw path chain
    | _ => exact .refl _

variable [Host] in
/-- Evaluations of two equal values agree. -/
theorem agree_run (hvw : Same v w) (root : Option Json) (path : String) (formats : Formats)
    (h : Multipleless (Pointer.document schema root) schema) :
    Agree (run v schema root path formats) (run w schema root path formats) := by
  have hv := Nat.le_max_left (budget v schema (scopeFor schema root formats).root)
    (budget w schema (scopeFor schema root formats).root)
  have hw := Nat.le_max_right (budget v schema (scopeFor schema root formats).root)
    (budget w schema (scopeFor schema root formats).root)
  rw [← descend_eq_run v schema root path formats hv,
    ← descend_eq_run w schema root path formats hw]
  exact indifferent_descend (scopeFor schema root formats) _ h v w hvw path []

end Evaluation

namespace Report

variable [Host] in
/-- Where all there is to report comes of two evaluations that agree, their verdicts are one and
their reports lie at the same places by the same rules. -/
theorem marks_of_agree {value value' schema schema' : Json} {root root' : Option Json}
    {path : String} {formats : Formats} {vs vs' : List Violation}
    (hagree : Trace.Agree (Evaluation.run value schema root path formats)
      (Evaluation.run value' schema' root' path formats))
    (hvs : all value schema root path formats = .ok vs)
    (hvs' : all value' schema' root' path formats = .ok vs') :
    accepts value schema root formats = accepts value' schema' root' formats ∧
      (vs.map Violation.mark).Perm (vs'.map Violation.mark) := by
  rw [all_eq_toExcept, Trace.toExcept_eq_ok_iff] at hvs hvs'
  rw [hvs, hvs'] at hagree
  refine ⟨?verdict, hagree.marks rfl rfl⟩
  case verdict =>
    have hends : ∀ us : List Violation, ∃ b, (⟨us, none⟩ : Trace Violation).verdict = .ok b := by
      intro us
      cases us <;> exact ⟨_, rfl⟩
    obtain ⟨b, hb⟩ := hends vs
    obtain ⟨b', hb'⟩ := hends vs'
    rw [accepts_eq_verdict value schema root path, accepts_eq_verdict value' schema' root' path,
      hvs, hvs', hb, hb', hagree.verdict b b' hb hb']

variable [Host] in
/-- What is found out about a value does not depend on how it is written: not on the order of the
members of its objects, nor on how its numbers are, if the schema asks for no multiples. Where all
there is to report comes of two equal values, either both are accepted or neither is, and as many
reports lie at each place by each rule. -/
theorem equal_values_agree {value value' schema : Json} {root : Option Json} {path : String}
    {formats : Formats} {vs vs' : List Violation} (hequals : value.equals value' = true)
    (hvalue : value.Distinct) (hvalue' : value'.Distinct)
    (hschema : Evaluation.Multipleless (Pointer.document schema root) schema)
    (hvs : all value schema root path formats = .ok vs)
    (hvs' : all value' schema root path formats = .ok vs') :
    accepts value schema root formats = accepts value' schema root formats ∧
      (vs.map Violation.mark).Perm (vs'.map Violation.mark) := by
  have hsame := Json.same_of_equals hvalue hvalue' hequals
  have hagree := Evaluation.agree_run hsame root path formats hschema
  exact marks_of_agree hagree hvs hvs'

/-- A schema for what is three. -/
def three : Json := .obj [("enum", .arr [.num (.int 3)])]

theorem eq_of_reaches_three {document : Option Json} {s : Json}
    (hs : Json.Reaches document (.obj [("additionalProperties", three)]) s) :
    s = .obj [("additionalProperties", three)] ∨ s = three := by
  induction hs with
  | refl => exact .inl rfl
  | tail _ hmeets ih =>
    obtain rfl | rfl := ih <;> obtain ⟨⟨_, hn⟩, hs⟩ | ⟨⟨_, hn⟩, hs⟩ | ⟨⟨href, _, _⟩⟩ := hmeets
    all_goals first | cases href | cases hn
    · cases hs
    · exact .inr (List.mem_singleton.mp hs)
    · cases hs
    · cases hs

open Sample in
/-- Two members in either order, one of them a large number that is written in two ways. -/
theorem equal_members_agree :
    let value : Json := .obj [("a", .num (.int 1)), ("b", .num (.int 9007199254740992))]
    let value' : Json :=
      .obj [("b", .num (.real (.finite false 4503599627370496 1))), ("a", .num (.int 1))]
    ∃ vs vs', value.equals value' = true ∧
      all value (.obj [("additionalProperties", three)]) none "" [] = .ok vs ∧
      all value' (.obj [("additionalProperties", three)]) none "" [] = .ok vs' ∧
      vs.map Violation.mark = [(.str "a", .enum), (.str "b", .enum)] ∧
      vs'.map Violation.mark = [(.str "b", .enum), (.str "a", .enum)] ∧
      (vs.map Violation.mark).Perm (vs'.map Violation.mark) := by
  intro value value'
  have hequals : value.equals value' = true := by
    rfl
  have hvs : ∃ vs, all value (.obj [("additionalProperties", three)]) none "" [] = .ok vs ∧
      vs.map Violation.mark = [(.str "a", .enum), (.str "b", .enum)] := ⟨_, by rfl, by rfl⟩
  have hvs' : ∃ vs', all value' (.obj [("additionalProperties", three)]) none "" [] = .ok vs' ∧
      vs'.map Violation.mark = [(.str "b", .enum), (.str "a", .enum)] := ⟨_, by rfl, by rfl⟩
  have hdistinct : value.Distinct ∧ value'.Distinct := by
    simp [value, value', Json.Distinct, Json.DistinctMembers]
  have hschema : Evaluation.Multipleless
      (Pointer.document (.obj [("additionalProperties", three)]) none)
      (.obj [("additionalProperties", three)]) := by
    intro s n hs hn
    obtain ⟨_, hn⟩ := hn
    obtain h | h := eq_of_reaches_three hs <;> cases h <;> cases hn <;> rfl
  obtain ⟨vs, hvs, hmarks⟩ := hvs
  obtain ⟨vs', hvs', hmarks'⟩ := hvs'
  exact ⟨vs, vs', hequals, hvs, hvs', hmarks, hmarks',
    (equal_values_agree hequals hdistinct.1 hdistinct.2 hschema hvs hvs').2⟩

end Report

end Conform
