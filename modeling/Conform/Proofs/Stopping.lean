import Conform.Proofs.FlattenedBounds
import Conform.Proofs.WellFormed

/-!
# Conform.Proofs.Stopping

What can stop the reading of one node. A reading stops for given reasons only
(`Trace.StopsOnly`) if the readings do that it is made of. Given are the readings of further
schemas (`SafeNode`); the keywords of the node are fit for the rules (`Node.Sound`), its formats
answer (`Answering`), and the numbers of the value are finite. Then two reasons are all that the
rules add (`OwnReasons`): a report has to write an integer that is too long, or content that has to
be a document nests too deep. Nothing is compared with what is no number, divided by zero, searched
for what is no pattern or looked up under what is no name.
-/

namespace Conform

/-! ## Reasons to stop -/

variable {α β : Type} {P : Fault → Prop}

/-- A computation fails for given reasons only. -/
def FailsOnly (P : Fault → Prop) (r : Except Fault α) : Prop := ∀ f, r = .error f → P f

theorem FailsOnly.of_ok {r : Except Fault α} (h : ∃ x, r = .ok x) : FailsOnly P r := by
  obtain ⟨x, rfl⟩ := h
  exact nofun

theorem FailsOnly.map {r : Except Fault α} (h : FailsOnly P r) (g : α → β) :
    FailsOnly P (r.map g) := by
  intro f hf
  cases r with
  | ok x => cases hf
  | error g =>
    cases hf
    exact h _ rfl

namespace Trace

/-- A reading stops for given reasons only. -/
structure StopsOnly (P : Fault → Prop) (t : Trace α) : Prop where
  fault : ∀ f, t.fault = some f → P f

namespace StopsOnly

variable {t : Trace α}

theorem done : (Trace.done : Trace α).StopsOnly P := ⟨nofun⟩

theorem find (x : α) : (Trace.find x).StopsOnly P := ⟨nofun⟩

theorem stop {f : Fault} (h : P f) : (Trace.stop f : Trace α).StopsOnly P := by
  constructor
  rintro g ⟨⟩
  exact h

theorem andThen {next : Unit → Trace α} (h : t.StopsOnly P) (h' : (next ()).StopsOnly P) :
    (t.andThen next).StopsOnly P := by
  obtain ⟨found, fault⟩ := t
  cases fault with
  | some f => exact h
  | none => exact ⟨h'.fault⟩

theorem each {f : β → Trace α} {xs : List β} (h : ∀ x ∈ xs, (f x).StopsOnly P) :
    (Trace.each f xs).StopsOnly P := by
  induction xs with
  | nil => exact done
  | cons x xs ih =>
    rw [List.forall_mem_cons] at h
    exact h.1.andThen (ih h.2)

theorem inTurn_nil : (Trace.inTurn ([] : List (Unit → Trace α))).StopsOnly P := done

theorem inTurn_cons {u : Unit → Trace α} {ts : List (Unit → Trace α)} (h : (u ()).StopsOnly P)
    (h' : (Trace.inTurn ts).StopsOnly P) : (Trace.inTurn (u :: ts)).StopsOnly P :=
  h.andThen h'

theorem after {r : Except Fault β} {k : β → Trace α} (hr : FailsOnly P r)
    (hk : ∀ x, r = .ok x → (k x).StopsOnly P) : (Trace.after r k).StopsOnly P := by
  cases r with
  | error f => exact stop (hr f rfl)
  | ok x => exact hk x rfl

theorem verdict (h : t.StopsOnly P) : FailsOnly P t.verdict := by
  intro f hf
  rw [verdict_eq_error_iff] at hf
  subst hf
  exact h.fault f rfl

theorem toExcept (h : t.StopsOnly P) : FailsOnly P t.toExcept := by
  intro f hf
  apply h.fault f
  unfold Trace.toExcept at hf
  split at hf
  · next g hg =>
    cases hf
    exact hg
  · cases hf

end StopsOnly

end Trace

/-! ## Reasons of a node's own -/

/-- The limits of a node, and its divisor. -/
def Node.limits (n : Node) : List (Option Json) :=
  [n.string.minLength, n.string.maxLength, n.number.minimum, n.number.maximum,
    n.number.exclusiveMinimum, n.number.exclusiveMaximum, n.number.multipleOf, n.array.minItems,
    n.array.maxItems, n.object.minProperties, n.object.maxProperties]

/-- What the reports of a node write. -/
inductive Node.Tells (n : Node) : Json → Prop where
  | limit {j : Json} (h : some j ∈ n.limits) : Tells n j
  | allowed {js : List Json} {j : Json} (h : n.enum = some js) (hj : j ∈ js) : Tells n j
  | const : Tells n n.const

/-- The reasons to stop that lie in a node and a value themselves. -/
structure Node.OwnReasons [Host] (P : Fault → Prop) (n : Node) (value : Json) : Prop where
  long : ∀ j, n.Tells j → j.numeralsFit = false → P .notAllowed
  deep (h : n.string.contentMediaType = some (.str "application/json")) (s : String)
    (hs : value = .str s) :
    Evaluation.isDocument (Evaluation.declaresBase64 n.string) s = .error .tooDeep → P .tooDeep

namespace Evaluation

open Trace

/-! ## Rules -/

theorem stopsOnly_violation (path : String) (code : Code) (message : String)
    (value constraint : Json) : (violation path code message value constraint).StopsOnly P :=
  .find _

theorem stopsOnly_reportUnless (ok : Bool) {t : Trace Violation} (h : t.StopsOnly P) :
    (reportUnless ok t).StopsOnly P := by
  cases ok with
  | true => exact .done
  | false => exact h

/-- A report where what a computation answers is negative. -/
theorem stopsOnly_report {r : Except Fault Bool} (hr : FailsOnly P r) {t : Trace Violation}
    (ht : t.StopsOnly P) (negate : Bool → Bool) :
    (Trace.after r fun ok => reportUnless (negate ok) t).StopsOnly P :=
  .after hr fun _ _ => stopsOnly_reportUnless _ ht

theorem failsOnly_someHolds {test : α → Except Fault Bool} {xs : List α}
    (h : ∀ x ∈ xs, FailsOnly P (test x)) : FailsOnly P (someHolds test xs) := by
  induction xs with
  | nil => exact nofun
  | cons x xs ih =>
    rw [List.forall_mem_cons] at h
    rw [someHolds]
    cases hx : test x with
    | error f =>
      rintro g ⟨⟩
      exact h.1 f hx
    | ok b =>
      cases b with
      | true => exact nofun
      | false => exact ih h.2

theorem failsOnly_countHolding {test : α → Except Fault Bool} {xs : List α}
    (h : ∀ x ∈ xs, FailsOnly P (test x)) : FailsOnly P (countHolding test xs) := by
  induction xs with
  | nil => exact nofun
  | cons x xs ih =>
    rw [List.forall_mem_cons] at h
    rw [countHolding]
    cases hx : test x with
    | error f =>
      rintro g ⟨⟩
      exact h.1 f hx
    | ok b => exact (ih h.2).map _

/-! ### What reports write -/

theorem failsOnly_written {text : Option α} (h : text = none → P .notAllowed) :
    FailsOnly P (Fault.written text) := by
  cases text with
  | some words => exact nofun
  | none =>
    rintro f ⟨⟩
    exact h rfl

/-- A value has no text only if it holds an integer that is too long. -/
theorem failsOnly_shown {j : Json} (h : j.numeralsFit = false → P .notAllowed) :
    FailsOnly P (Fault.written j.shown?) :=
  failsOnly_written fun hnone => h (by simpa [Json.shown?] using hnone)

theorem failsOnly_document {j : Json} (h : j.numeralsFit = false → P .notAllowed) :
    FailsOnly P (Fault.written j.document?) :=
  failsOnly_written fun hnone => h (by simpa [Json.document?] using hnone)

theorem failsOnly_documents {js : List Json}
    (h : ∀ j ∈ js, j.numeralsFit = false → P .notAllowed) :
    FailsOnly P (Fault.written (js.mapM Json.document?)) := by
  refine failsOnly_written fun hnone => ?_
  induction js with
  | nil => cases hnone
  | cons j js ih =>
    rw [List.forall_mem_cons] at h
    cases hfit : j.numeralsFit with
    | false => exact h.1 hfit
    | true =>
      refine ih h.2 ?_
      cases hrest : js.mapM Json.document? with
      | none => rfl
      | some texts => simp [List.mapM_cons, Json.document?, hfit, hrest] at hnone

/-- A find behind what has to be written first. -/
theorem stopsOnly_told {r : Except Fault α} (hr : FailsOnly P r) (f : α → Violation) :
    (Trace.after r fun words => Trace.find (f words)).StopsOnly P :=
  .after hr fun words _ => .find (f words)

theorem limit_of_broken {limit : Option Json} {breaks : Number → Bool} {j : Json}
    (h : broken limit breaks = .ok (some j)) : limit = some j := by
  unfold broken at h
  split at h
  · cases h
  · split at h
    · rw [Except.ok.injEq, Option.ite_none_right_eq_some] at h
      exact h.2
    · cases h

/-- The limit of an exclusive bound is what one of its keywords holds. -/
theorem exclusiveLimit_eq_some {plain exclusive : Option Json} {j : Json}
    (h : NumberKeywords.exclusiveLimit (NumberKeywords.bound plain exclusive) = some j) :
    plain = some j ∨ exclusive = some j := by
  unfold NumberKeywords.bound at h
  split at h
  · exact .inr h
  · next b =>
    cases b with
    | true => exact .inl h
    | false => cases h
  · cases h

theorem stopsOnly_limitRule {limit : Option Json} (h : IsBound limit)
    (hlong : ∀ j, limit = some j → j.numeralsFit = false → P .notAllowed)
    (breaks : Number → Bool) (code : Code) (before behind : String) (value : Json)
    (path : String) : (limitRule limit breaks code before behind value path).StopsOnly P := by
  have hbroken : ∃ found, broken limit breaks = .ok found := by
    cases limit with
    | none => exact ⟨none, rfl⟩
    | some j =>
      obtain ⟨m, rfl⟩ := h j rfl
      exact ⟨_, rfl⟩
  refine .after (.of_ok hbroken) fun found hfound => ?_
  cases found with
  | none => exact .done
  | some j => exact stopsOnly_told (failsOnly_shown (hlong j (limit_of_broken hfound))) _

/-! ### Strings and numbers -/

section

variable [Host]

theorem exists_occursIn {pattern : String} (h : Pattern.Compiles pattern) (text : String) :
    ∃ b, Pattern.occursIn pattern text = .ok b := by
  unfold Pattern.Compiles Pattern.isPattern at h
  unfold Pattern.occursIn
  cases htree : Pattern.ofChars pattern.toList with
  | ok tree => exact ⟨_, rfl⟩
  | error f =>
    rw [htree] at h
    cases f <;> cases h

/-- The formats that a node declares answer for every text. -/
def Answering (formats : Formats) (n : Node) : Prop :=
  ∀ name, n.string.format = some name → ∀ s, ∃ b, Format.check formats (.str s) name = .ok b

/-- Reading content fails only where it nests too deep. -/
theorem failsOnly_isDocument {encoded : Bool} {s : String}
    (h : isDocument encoded s = .error .tooDeep → P .tooDeep) :
    FailsOnly P (isDocument encoded s) := by
  have hread : ∀ cs, FailsOnly (· = .tooDeep) (readsDocument cs) := by
    intro cs
    unfold readsDocument
    split
    · rintro f ⟨⟩
      rfl
    · exact nofun
  have hdeep : FailsOnly (· = .tooDeep) (isDocument encoded s) := by
    unfold isDocument
    split
    · split
      · exact hread _
      · exact nofun
    · exact hread _
  intro f hf
  obtain rfl := hdeep f hf
  exact h hf

theorem stopsOnly_stringRules {formats : Formats} {n : Node} (h : n.Sound)
    (hformats : Answering formats n) {s : String} (hown : n.OwnReasons P (.str s))
    (path : String) : (stringRules formats n.string s path).StopsOnly P := by
  refine .inTurn_cons (stopsOnly_limitRule h.string.minLength ?least ..)
    (.inTurn_cons (stopsOnly_limitRule h.string.maxLength ?most ..)
    (.inTurn_cons ?pattern (.inTurn_cons ?format (.inTurn_cons ?encoding
    (.inTurn_cons ?media .inTurn_nil)))))
  case least => exact fun j hj => hown.long j (.limit (by simp [Node.limits, hj]))
  case most => exact fun j hj => hown.long j (.limit (by simp [Node.limits, hj]))
  case pattern =>
    dsimp only [patternRule]
    split
    · exact .done
    · next p hp =>
      obtain ⟨text, rfl, htext⟩ := h.string.pattern p hp
      split
      · exact .done
      · exact stopsOnly_report (.of_ok (exists_occursIn htext s))
          (stopsOnly_told (.of_ok ⟨text, rfl⟩) _) id
  case format =>
    dsimp only [formatRule]
    split
    · exact .done
    · next name hname =>
      split
      · exact .done
      · obtain ⟨text, rfl⟩ := h.string.format name hname
        exact stopsOnly_report (.of_ok (hformats _ hname s))
          (stopsOnly_told (.of_ok ⟨text, rfl⟩) _) id
  case encoding =>
    dsimp only [contentEncodingRule]
    split
    · exact stopsOnly_reportUnless _ (.find _)
    · exact .done
  case media =>
    dsimp only [contentMediaTypeRule]
    split
    · next hmedia =>
      split
      · exact .done
      · have hdeep := hown.deep (by simpa [documentName] using hmedia) s rfl
        exact stopsOnly_report (failsOnly_isDocument hdeep) (.find _) id
    · exact .done

theorem stopsOnly_numberRules {n : Node} (h : n.Sound) {m : Number} (hm : m.Finite)
    (hlong : ∀ j, n.Tells j → j.numeralsFit = false → P .notAllowed) (path : String) :
    (numberRules n.number m path).StopsOnly P := by
  refine .inTurn_cons (stopsOnly_limitRule h.number.minimum ?least ..)
    (.inTurn_cons (stopsOnly_limitRule h.number.maximum ?most ..)
    (.inTurn_cons (stopsOnly_limitRule (exclusiveLimit_numeric h.number.minimum) ?above ..)
    (.inTurn_cons (stopsOnly_limitRule (exclusiveLimit_numeric h.number.maximum) ?below ..)
    (.inTurn_cons ?multiples .inTurn_nil))))
  case least => exact fun j hj => hlong j (.limit (by simp [Node.limits, hj]))
  case most => exact fun j hj => hlong j (.limit (by simp [Node.limits, hj]))
  case above =>
    intro j hj
    obtain hj | hj := exclusiveLimit_eq_some hj
    · exact hlong j (.limit (by simp [Node.limits, hj]))
    · exact hlong j (.limit (by simp [Node.limits, hj]))
  case below =>
    intro j hj
    obtain hj | hj := exclusiveLimit_eq_some hj
    · exact hlong j (.limit (by simp [Node.limits, hj]))
    · exact hlong j (.limit (by simp [Node.limits, hj]))
  case multiples =>
    dsimp only [multipleOfRule]
    split
    · exact .done
    · next d hd =>
      have hwritten := failsOnly_shown (hlong d (.limit (by simp [Node.limits, hd])))
      obtain ⟨divisor, rfl, hpositive⟩ := h.number.multipleOf d hd
      obtain ⟨b, hb⟩ := Number.exists_isMultiple hm hpositive
      have hanswer : isMultiple m (.num divisor) = .ok b := by
        simp only [isMultiple, Json.numeric?, hb]
      exact stopsOnly_report (.of_ok ⟨b, hanswer⟩) (stopsOnly_told hwritten _) id

end

/-! ### Further schemas -/

/-- The readings of further schemas that a node asks for stop for given reasons only. -/
structure SafeNode (P : Fault → Prop) (read : Evaluate) (n : Node) (value : Json)
    (chain : List String) : Prop where
  again : ∀ s ∈ n.again, ∀ path, (read value s path chain).StopsOnly P
  into : ∀ w ∈ value.parts, ∀ s ∈ n.into, ∀ path, (read w s path []).StopsOnly P

variable {self : Evaluate}

theorem failsOnly_accepts {value schema : Json} {chain : List String}
    (h : ∀ path, (self value schema path chain).StopsOnly P) :
    FailsOnly P (accepts self value schema chain) := (h "").verdict

/-! ### Arrays -/

theorem stopsOnly_additionalItem {additional : Option Json} {x : Json}
    (h : ∀ s ∈ additional.toList, ∀ path, (self x s path []).StopsOnly P) (path : String) :
    (additionalItem self additional x path).StopsOnly P := by
  unfold additionalItem
  split
  · exact stopsOnly_violation ..
  · next ms => exact h (.obj ms) List.mem_cons_self path
  · exact .done

theorem stopsOnly_positionalItems {additional : Option Json} {xs schemas : List Json}
    (h : ∀ x ∈ xs, ∀ s ∈ schemas ++ additional.toList, ∀ path, (self x s path []).StopsOnly P)
    (path : String) (i : Nat) :
    (positionalItems self additional path i xs schemas).StopsOnly P := by
  induction xs generalizing i schemas with
  | nil => exact .done
  | cons x xs ih =>
    rw [List.forall_mem_cons] at h
    have hrest : ∀ y ∈ xs, ∀ s ∈ schemas.drop 1 ++ additional.toList, ∀ path,
        (self y s path []).StopsOnly P := by
      intro y hy s hs
      refine h.2 y hy s (List.mem_append.mpr ?_)
      exact (List.mem_append.mp hs).imp_left List.mem_of_mem_drop
    refine .andThen ?_ (ih hrest (i + 1))
    cases schemas with
    | nil => exact stopsOnly_additionalItem h.1 _
    | cons s schemas => exact h.1 s List.mem_cons_self _

theorem stopsOnly_uniformItems {schema : Json} {xs : List Json}
    (h : ∀ x ∈ xs, ∀ path, (self x schema path []).StopsOnly P) (path : String) (i : Nat) :
    (uniformItems self schema path i xs).StopsOnly P := by
  induction xs generalizing i with
  | nil => exact .done
  | cons x xs ih =>
    rw [List.forall_mem_cons] at h
    exact (h.1 _).andThen (ih h.2 (i + 1))

theorem stopsOnly_itemsRule {k : ArrayKeywords} {xs : List Json}
    (h : ∀ x ∈ xs, ∀ s ∈ k.itemSchemas ++ k.additionalItems.toList, ∀ path,
      (self x s path []).StopsOnly P) (path : String) : (itemsRule self k xs path).StopsOnly P := by
  unfold ArrayKeywords.itemSchemas at h
  unfold itemsRule
  cases hitems : k.items with
  | none => exact .done
  | some schema =>
    rw [hitems] at h
    cases schema with
    | arr schemas => exact stopsOnly_positionalItems h path 0
    | _ => exact stopsOnly_uniformItems (fun x hx => h x hx _ List.mem_cons_self) path 0

theorem stopsOnly_containsRule {k : ArrayKeywords} {xs : List Json}
    (h : ∀ x ∈ xs, ∀ s ∈ k.contains.toList, ∀ path, (self x s path []).StopsOnly P)
    (path : String) : (containsRule self k xs path).StopsOnly P := by
  unfold containsRule
  split
  · exact .done
  · next wanted hwanted =>
    rw [hwanted] at h
    have hsome := failsOnly_someHolds fun x hx =>
      failsOnly_accepts (h x hx wanted List.mem_cons_self)
    exact stopsOnly_report hsome (.find _) id

theorem stopsOnly_arrayRules [Host] {n : Node} (hn : n.Sound)
    (hlong : ∀ j, n.Tells j → j.numeralsFit = false → P .notAllowed) {xs : List Json}
    {chain : List String} (h : SafeNode P self n (.arr xs) chain) (path : String) :
    (arrayRules self n.array xs path).StopsOnly P := by
  refine .inTurn_cons (stopsOnly_limitRule hn.minItems ?least ..)
    (.inTurn_cons (stopsOnly_limitRule hn.maxItems ?most ..)
    (.inTurn_cons (stopsOnly_reportUnless _ (.find _))
    (.inTurn_cons (stopsOnly_itemsRule ?items path)
    (.inTurn_cons (stopsOnly_containsRule ?contains path) .inTurn_nil))))
  case least => exact fun j hj => hlong j (.limit (by simp [Node.limits, hj]))
  case most => exact fun j hj => hlong j (.limit (by simp [Node.limits, hj]))
  all_goals
    refine fun x hx s hs => h.into x hx s ?_
    simp only [Node.into, List.mem_append] at hs ⊢
    tauto

/-! ### Objects -/

theorem stopsOnly_demand {name : Json} (h : name.IsText) (ms : Members) (path : String)
    (code : Code) (before behind : String) (constraint : Json) :
    (demand ms path code before behind name constraint).StopsOnly P := by
  obtain ⟨text, rfl⟩ := h
  exact stopsOnly_report (.of_ok ⟨_, rfl⟩) (stopsOnly_told (.of_ok ⟨text, rfl⟩) _) id

section

variable {n : Node} {ms : Members} {chain : List String} (h : SafeNode P self n (.obj ms) chain)
include h

theorem stopsOnly_child {m : String × Json} (hm : m ∈ ms) {s : Json} (hs : s ∈ n.into)
    (path : String) : (self m.2 s path []).StopsOnly P :=
  h.into m.2 (List.mem_append_left _ (List.mem_map_of_mem hm)) s hs path

theorem stopsOnly_propertiesRule (path : String) :
    (propertiesRule self n.object ms path).StopsOnly P := by
  refine .each fun m hm => ?_
  dsimp only
  split
  · next schema found =>
    exact stopsOnly_child h hm (Node.mem_into_of_named (mem_of_lookup found)) _
  · exact .done

theorem stopsOnly_propertyNamesRule (path : String) :
    (propertyNamesRule self n.object ms path).StopsOnly P := by
  unfold propertyNamesRule
  split
  · exact .done
  · next schema hschema =>
    refine .each fun m hm => ?_
    have hname : Json.str m.1 ∈ (Json.obj ms).parts :=
      List.mem_append_right _ (List.mem_map.mpr ⟨m, hm, rfl⟩)
    have hread := h.into _ hname schema (Node.mem_into_of_names hschema)
    exact stopsOnly_report (failsOnly_accepts hread) (.find _) id

theorem stopsOnly_dependentSchemasRule (path : String) :
    (dependentSchemasRule self n.object ms path chain).StopsOnly P := by
  refine .each fun e he => ?_
  dsimp only
  split
  · exact h.again e.2 (Node.mem_again_of_dependent he) path
  · exact .done

end

section

variable [Host]

theorem stopsOnly_requiredRule {n : Node} (hn : n.Sound) (ms : Members) (path : String) :
    (requiredRule n.object ms path).StopsOnly P := by
  refine .each fun name hname => ?_
  have htext := hn.demanded name (List.mem_append_left _ hname)
  exact stopsOnly_demand htext ..

theorem stopsOnly_dependentRequiredRule {n : Node} (hn : n.Sound) (ms : Members)
    (path : String) : (dependentRequiredRule n.object ms path).StopsOnly P := by
  refine .each fun e he => ?_
  dsimp only
  split
  · refine .each fun name hname => ?_
    have hmem := List.mem_flatMap.mpr ⟨e, he, hname⟩
    exact stopsOnly_demand (hn.demanded name (List.mem_append_right _ hmem)) ..
  · exact .done

theorem failsOnly_isAdditional {k : ObjectKeywords}
    (h : ∀ e ∈ k.patternProperties, Pattern.Compiles e.1) (name : String) :
    FailsOnly P (isAdditional k name) := by
  have hsome : FailsOnly P (someHolds (fun p : String × Json => Pattern.occursIn p.1 name)
      k.patternProperties) :=
    failsOnly_someHolds fun e he => .of_ok (exists_occursIn (h e he) name)
  unfold isAdditional
  split
  · exact nofun
  · exact hsome.map _

variable {n : Node} (hn : n.Sound) {ms : Members} {chain : List String}
  (h : SafeNode P self n (.obj ms) chain)
include hn h

theorem stopsOnly_patternPropertiesRule (path : String) :
    (patternPropertiesRule self n.object ms path).StopsOnly P := by
  refine .each fun m hm => .each fun e he => ?_
  have hoccurs := exists_occursIn (hn.patterns e he) m.1
  refine .after (.of_ok hoccurs) fun occurs _ => ?_
  cases occurs with
  | false => exact .done
  | true => exact stopsOnly_child h hm (Node.mem_into_of_pattern he) _

theorem stopsOnly_additionalPropertiesRule (path : String) :
    (additionalPropertiesRule self n.object ms path).StopsOnly P := by
  unfold additionalPropertiesRule
  split
  · exact .done
  · exact .done
  · next schema _ hschema =>
    refine .each fun m hm => ?_
    refine .after (failsOnly_isAdditional hn.patterns m.1) fun additional _ => ?_
    split
    · exact .done
    · split
      · exact stopsOnly_violation ..
      · exact stopsOnly_child h hm (Node.mem_into_of_additional hschema) _

theorem stopsOnly_objectRules
    (hlong : ∀ j, n.Tells j → j.numeralsFit = false → P .notAllowed) (path : String) :
    (objectRules self n.object ms path chain).StopsOnly P := by
  refine .inTurn_cons (stopsOnly_limitRule hn.minProperties ?least ..)
    (.inTurn_cons (stopsOnly_limitRule hn.maxProperties ?most ..)
    (.inTurn_cons (stopsOnly_requiredRule hn ms path)
    (.inTurn_cons (stopsOnly_propertiesRule h path)
    (.inTurn_cons (stopsOnly_patternPropertiesRule hn h path)
    (.inTurn_cons (stopsOnly_additionalPropertiesRule hn h path)
    (.inTurn_cons (stopsOnly_propertyNamesRule h path)
    (.inTurn_cons (stopsOnly_dependentRequiredRule hn ms path)
    (.inTurn_cons (stopsOnly_dependentSchemasRule h path) .inTurn_nil))))))))
  case least => exact fun j hj => hlong j (.limit (by simp [Node.limits, hj]))
  case most => exact fun j hj => hlong j (.limit (by simp [Node.limits, hj]))

end

/-! ### Combinations -/

section

variable {value : Json} {chain : List String}

theorem stopsOnly_allOfRule {schemas : Option (List Json)}
    (h : ∀ s ∈ schemas.getD [], ∀ path, (self value s path chain).StopsOnly P) (path : String) :
    (allOfRule self schemas value path chain).StopsOnly P := by
  cases schemas with
  | none => exact .done
  | some schemas =>
    have heach : (Trace.each (fun s => self value s path chain) schemas).StopsOnly P :=
      .each fun s hs => h s hs path
    dsimp only [allOfRule]
    exact heach.andThen (stopsOnly_reportUnless _ (stopsOnly_violation ..))

theorem stopsOnly_anyOfRule {schemas : Option (List Json)}
    (h : ∀ s ∈ schemas.getD [], ∀ path, (self value s path chain).StopsOnly P) (path : String) :
    (anyOfRule self schemas value path chain).StopsOnly P := by
  cases schemas with
  | none => exact .done
  | some schemas =>
    have hsome := failsOnly_someHolds fun s hs => failsOnly_accepts (h s hs)
    exact stopsOnly_report hsome (.find _) id

theorem stopsOnly_oneOfRule {schemas : Option (List Json)}
    (h : ∀ s ∈ schemas.getD [], ∀ path, (self value s path chain).StopsOnly P) (path : String) :
    (oneOfRule self schemas value path chain).StopsOnly P := by
  cases schemas with
  | none => exact .done
  | some schemas =>
    have hcount := failsOnly_countHolding fun s hs => failsOnly_accepts (h s hs)
    refine .after hcount fun count _ => ?_
    split
    · exact stopsOnly_violation ..
    · exact .done
    · exact stopsOnly_violation ..

theorem stopsOnly_notRule {schema : Option Json}
    (h : ∀ s ∈ schema.toList, ∀ path, (self value s path chain).StopsOnly P) (path : String) :
    (notRule self schema value path chain).StopsOnly P := by
  cases schema with
  | none => exact .done
  | some schema =>
    exact stopsOnly_report (failsOnly_accepts (h schema List.mem_cons_self)) (.find _) Bool.not

theorem stopsOnly_conditionalRule {k : ConditionalKeywords}
    (h : ∀ s ∈ k.test.toList ++ k.accepted.toList ++ k.rejected.toList, ∀ path,
      (self value s path chain).StopsOnly P) (path : String) :
    (conditionalRule self k value path chain).StopsOnly P := by
  unfold conditionalRule
  split
  · exact .done
  · next test htest =>
    have haccepts := failsOnly_accepts (h test (by simp [htest]))
    refine .after haccepts fun ok _ => ?_
    split
    · next schema hschema =>
      refine h schema ?_ path
      cases ok <;> simp_all
    · exact .done

theorem stopsOnly_combinationRules {n : Node} (h : SafeNode P self n value chain)
    (path : String) : (combinationRules self n value path chain).StopsOnly P := by
  refine .inTurn_cons (stopsOnly_allOfRule ?_ path) (.inTurn_cons (stopsOnly_anyOfRule ?_ path)
    (.inTurn_cons (stopsOnly_oneOfRule ?_ path) (.inTurn_cons (stopsOnly_notRule ?_ path)
    (.inTurn_cons (stopsOnly_conditionalRule ?_ path) .inTurn_nil))))
  all_goals
    refine fun s hs => h.again s ?_
    simp only [Node.again, List.mem_append] at hs ⊢
    tauto

end

/-! ### One node -/

theorem exists_typeWords {types : List Json} (h : ∀ t ∈ types, t.IsText) :
    ∃ words, typeWords types = .ok words := by
  induction types with
  | nil => exact ⟨"", rfl⟩
  | cons t types ih =>
    rw [List.forall_mem_cons] at h
    obtain ⟨⟨text, rfl⟩, htypes⟩ := h
    obtain ⟨words, hwords⟩ := ih htypes
    cases types with
    | nil => exact ⟨text, rfl⟩
    | cons u types =>
      have hjoined : typeWords (.str text :: u :: types) = .ok (text ++ " or " ++ words) := by
        simp [typeWords, hwords, Except.map]
      exact ⟨_, hjoined⟩

theorem stopsOnly_unsettledRule {n : Node}
    (hlong : ∀ j, n.Tells j → j.numeralsFit = false → P .notAllowed) (value : Json)
    (path : String) : (unsettledRule n value path).StopsOnly P := by
  unfold unsettledRule
  refine .andThen ?const ?enum
  case const =>
    split
    · exact stopsOnly_told (failsOnly_document (hlong n.const .const)) _
    · exact .done
  case enum =>
    split
    · next allowed hallowed =>
      have hwritten : FailsOnly P (Fault.written (allowed.mapM Json.document?)) :=
        failsOnly_documents fun j hj => hlong j (.allowed hallowed hj)
      exact stopsOnly_reportUnless _ (stopsOnly_told hwritten _)
    · exact .done

section

variable [Host] {n : Node} (hn : n.Sound)
include hn

theorem stopsOnly_nullMismatch (path : String) : (nullMismatch n path).StopsOnly P := by
  refine .after (.of_ok ?_) fun words _ => stopsOnly_violation ..
  split
  · next t types htypes => exact exists_typeWords (hn.types _ htypes).2
  · exact ⟨_, rfl⟩

theorem stopsOnly_typeMismatch {types : List Json} (htypes : n.types = some types)
    (value : Json) (path : String) : (typeMismatch types value path).StopsOnly P := by
  obtain ⟨hne, htexts⟩ := hn.types types htypes
  refine .after (.of_ok (exists_typeWords htexts)) fun words _ => ?_
  split
  · exact absurd rfl hne
  · exact stopsOnly_violation ..
  · exact stopsOnly_violation ..

variable {scope : Scope} {value : Json} {chain : List String}
  (hformats : Answering scope.formats n) (hvalue : ∀ m, value = .num m → m.Finite)
  (hown : n.OwnReasons P value) (h : SafeNode P self n value chain)
include hformats hvalue hown h

theorem stopsOnly_kindRules (path : String) :
    (kindRules scope self n value path chain).StopsOnly P := by
  cases value with
  | str s => exact stopsOnly_stringRules hn hformats hown path
  | num m => exact stopsOnly_numberRules hn (hvalue m rfl) hown.long path
  | arr xs => exact stopsOnly_arrayRules hn hown.long h path
  | obj ms => exact stopsOnly_objectRules hn h hown.long path
  | _ => exact .done

theorem stopsOnly_settledRules (path : String) :
    (settledRules scope self n value path chain).StopsOnly P := by
  unfold settledRules
  split
  · exact .done
  · exact .inTurn_cons (stopsOnly_unsettledRule hown.long value path)
      (.inTurn_cons (stopsOnly_kindRules hn hformats hvalue hown h path)
      (.inTurn_cons (stopsOnly_combinationRules h path) .inTurn_nil))

theorem stopsOnly_typedRules (path : String) :
    (typedRules scope self n value path chain).StopsOnly P := by
  have hsettled := stopsOnly_settledRules hn hformats hvalue hown h path
  unfold typedRules
  split
  · next types htypes =>
    split
    · exact hsettled
    · exact stopsOnly_typeMismatch hn htypes value path
  · exact hsettled

/-- The reading of a node stops for no reasons but its own and those of the readings it asks
for. -/
theorem stopsOnly_nodeRules (path : String) :
    (nodeRules scope self n value path chain).StopsOnly P := by
  have htyped := stopsOnly_typedRules hn hformats hvalue hown h path
  cases value with
  | absent => exact stopsOnly_violation ..
  | null =>
    unfold nodeRules
    dsimp only
    split
    · exact .done
    · split
      · exact stopsOnly_nullMismatch hn path
      · exact htyped
  | _ => exact htyped

end

end Evaluation

end Conform
