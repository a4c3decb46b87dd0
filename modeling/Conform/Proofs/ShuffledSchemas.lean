import Conform.Proofs.EqualValues
import Conform.Proofs.Restatement
import Conform.Proofs.Shuffling
import Mathlib

/-!
# Conform.Proofs.ShuffledSchemas

The order of the members of a schema, and of the document that its references address, decides
the order of reports and nothing else. Two readings agree on shuffled schemas (`AgreeOnShuffled`)
if they give one verdict and the same places and codes wherever neither ends with a fault, and
rules agree as far as the readings do that they ask.

A fault may stand before a find in one order and behind it in the other, and then only one of the
two readings has an answer. So nothing is said of readings that are stopped.
-/

namespace Conform

namespace Trace.Agree

variable {α β : Type}

/-- Nothing is said of a reading that is stopped at once. -/
theorem stop_left (f : Fault) (u : Trace Violation) : Agree (.stop f) u := ⟨nofun, nofun⟩

/-- Going on from two computations, whatever they give. -/
theorem after_ok {r : Except Fault α} {s : Except Fault β} {k : α → Trace Violation}
    {l : β → Trace Violation} (h : ∀ x y, r = .ok x → s = .ok y → Agree (k x) (l y)) :
    Agree (.after r k) (.after s l) := by
  cases r with
  | error f => exact stop_left f _
  | ok x =>
    cases s with
    | error f => exact ⟨fun _ _ _ => nofun, fun _ => nofun⟩
    | ok y => exact h x y rfl rfl

/-- Two reports of one rule at one place, in whatever words, and about whatever constraint. -/
theorem told {text text' : Option α} {report report' : α → Trace Violation}
    (h : ∀ words words', Agree (report words) (report' words')) :
    Agree (.after (Fault.written text) report) (.after (Fault.written text') report') :=
  after_ok fun words words' _ _ => h words words'

theorem each_of_permuted {R : α → β → Prop} {xs : List α} {ys : List β} (h : Permuted R xs ys)
    {f : α → Trace Violation} {g : β → Trace Violation} (hR : ∀ x y, R x y → Agree (f x) (g y)) :
    Agree (.each f xs) (.each g ys) := by
  obtain ⟨zs, hzs, hperm⟩ := h
  exact each_of_perm (hzs.imp hR) hperm

end Trace.Agree

namespace Evaluation

open Json Trace

/-- Two readings agree on shuffled schemas. -/
def AgreeOnShuffled (read read' : Evaluate) : Prop :=
  ∀ (value schema schema' : Json) (path : String) (chain : List String),
    schema.Shuffled schema' → Agree (read value schema path chain) (read' value schema' path chain)

/-! ## Demands on several schemas -/

section

variable {α β : Type} {f : α → Except Fault Bool} {g : β → Except Fault Bool} {xs : List α}
  {ys : List β}

theorem exists_of_someHolds (h : someHolds f xs = .ok true) : ∃ x ∈ xs, f x = .ok true := by
  induction xs with
  | nil => cases h
  | cons x xs ih =>
    rw [someHolds_cons] at h
    obtain ⟨b, hb, h⟩ := bind_eq_ok h
    cases b with
    | true => exact ⟨x, List.mem_cons_self, hb⟩
    | false =>
      obtain ⟨y, hy, htrue⟩ := ih h
      exact ⟨y, List.mem_cons_of_mem _ hy, htrue⟩

theorem forall_of_not_someHolds (h : someHolds f xs = .ok false) : ∀ x ∈ xs, f x = .ok false := by
  induction xs with
  | nil => exact nofun
  | cons x xs ih =>
    rw [someHolds_cons] at h
    obtain ⟨b, hb, h⟩ := bind_eq_ok h
    cases b with
    | true => cases h
    | false => exact List.forall_mem_cons.mpr ⟨hb, ih h⟩

/-- Whether a test holds of some element, in two orders. -/
theorem concur_someHolds_of_permuted (h : Permuted (fun x y => Concur (f x) (g y)) xs ys) :
    Concur (someHolds f xs) (someHolds g ys) := by
  intro b b' hb hb'
  cases b <;> cases b'
  case false.false => rfl
  case true.true => rfl
  case false.true =>
    obtain ⟨y, hy, htrue⟩ := exists_of_someHolds hb'
    obtain ⟨x, hx, hxy⟩ := h.exists_left hy
    exact hxy _ _ (forall_of_not_someHolds hb x hx) htrue
  case true.false =>
    obtain ⟨x, hx, htrue⟩ := exists_of_someHolds hb
    obtain ⟨y, hy, hxy⟩ := h.exists_right hx
    exact hxy _ _ htrue (forall_of_not_someHolds hb' y hy)

theorem countHolding_of_perm {zs : List β} (hperm : ys.Perm zs) {n : Nat}
    (h : countHolding g ys = .ok n) : countHolding g zs = .ok n := by
  induction hperm generalizing n with
  | nil => exact h
  | cons y _ ih =>
    rw [countHolding_cons] at h ⊢
    obtain ⟨b, hb, h⟩ := bind_eq_ok h
    obtain ⟨m, hm, h⟩ := bind_eq_ok h
    rw [hb, ih hm]
    exact h
  | swap x y zs =>
    simp only [countHolding_cons] at h ⊢
    obtain ⟨b, hb, h⟩ := bind_eq_ok h
    obtain ⟨k, hk, h⟩ := bind_eq_ok h
    obtain ⟨c, hc, hk⟩ := bind_eq_ok hk
    obtain ⟨m, hm, hk⟩ := bind_eq_ok hk
    cases hk
    cases h
    rw [hb, hc, hm]
    cases b <;> cases c <;> rfl
  | trans _ _ ih ih' => exact ih' (ih h)

/-- Of how many elements a test holds, in two orders. -/
theorem concur_countHolding_of_permuted (h : Permuted (fun x y => Concur (f x) (g y)) xs ys) :
    Concur (countHolding f xs) (countHolding g ys) := by
  obtain ⟨zs, hzs, hperm⟩ := h
  intro n m hn hm
  exact concur_countHolding hzs n m hn (countHolding_of_perm hperm.symm hm)

end

variable {self self' : Evaluate}

theorem AgreeOnShuffled.accepts (hself : AgreeOnShuffled self self') {schema schema' : Json}
    (h : schema.Shuffled schema') (value : Json) (chain : List String) :
    Concur (accepts self value schema chain) (accepts self' value schema' chain) :=
  (hself value schema schema' "" chain h).verdict

theorem Permuted.accepts (hself : AgreeOnShuffled self self') {schemas schemas' : List Json}
    (h : Permuted Shuffled schemas schemas') (value : Json) (chain : List String) :
    Permuted (fun s s' => Concur (accepts self value s chain) (accepts self' value s' chain))
      schemas schemas' := by
  obtain ⟨zs, hzs, hperm⟩ := h
  exact ⟨zs, hzs.imp fun s s' hs => hself.accepts hs value chain, hperm⟩

/-! ## Leaves -/

theorem shuffled_limitRule {limit limit' : Option Json} (h : Option.Rel Shuffled limit limit')
    (breaks : Number → Bool) (code : Code) (before behind : String) (value : Json)
    (path : String) :
    Agree (limitRule limit breaks code before behind value path)
      (limitRule limit' breaks code before behind value path) := by
  cases h with
  | none => exact .refl _
  | some h =>
    cases h with
    | atom _ => exact .refl _
    | array _ => exact .stop_left _ _
    | object _ _ _ _ => exact .stop_left _ _

/-- Whether a keyword is declared with a text for its value. -/
theorem beq_str_eq {o o' : Option Json} (h : Option.Rel Shuffled o o') (s : String) :
    (o == some (.str s)) = (o' == some (.str s)) := by
  cases h with
  | none => rfl
  | some h =>
    rw [Bool.eq_iff_iff, beq_iff_eq, beq_iff_eq, Option.some_inj, Option.some_inj]
    exact h.eq_iff_of_isKey rfl

variable [Host] in
theorem concur_patternOccurs {p p' : Json} (h : p.Shuffled p') (s : String) :
    Concur (patternOccurs p s) (patternOccurs p' s) := by
  cases h with
  | atom _ => exact .refl _
  | array _ => exact nofun
  | object _ _ _ _ => exact nofun

variable [Host] in
theorem concur_check (formats : Formats) (value : Json) {name name' : Json}
    (h : name.Shuffled name') :
    Concur (Format.check formats value name) (Format.check formats value name') := by
  cases h with
  | atom _ => exact .refl _
  | array _ => exact nofun
  | object _ _ _ _ => exact nofun

theorem concur_isMultiple (n : Number) {d d' : Json} (h : d.Shuffled d') :
    Concur (isMultiple n d) (isMultiple n d') := by
  unfold isMultiple
  rw [h.numeric?_eq]
  exact .refl _

/-! ### Strings -/

section

variable {k k' : StringKeywords}

section

variable [Host]

theorem shuffled_patternRule (h : Option.Rel Shuffled k.pattern k'.pattern) (s path : String) :
    Agree (patternRule k s path) (patternRule k' s path) := by
  unfold patternRule
  generalize k.pattern = o at h ⊢
  generalize k'.pattern = o' at h ⊢
  cases h with
  | none => exact .refl _
  | some hp =>
    dsimp only
    rw [hp.isFalsy_eq]
    split
    · exact .refl _
    · exact .after (concur_patternOccurs hp s) fun ok =>
        .reportUnless ok (.told fun _ _ => .violation ..)

theorem shuffled_formatRule (formats : Formats) (h : Option.Rel Shuffled k.format k'.format)
    (s path : String) : Agree (formatRule formats k s path) (formatRule formats k' s path) := by
  unfold formatRule
  generalize k.format = o at h ⊢
  generalize k'.format = o' at h ⊢
  cases h with
  | none => exact .refl _
  | some hname =>
    dsimp only
    rw [hname.isFalsy_eq]
    split
    · exact .refl _
    · exact .after (concur_check formats _ hname) fun ok =>
        .reportUnless ok (.told fun _ _ => .violation ..)

theorem shuffled_stringRules (formats : Formats) (h : k.Shuffled k') (s path : String) :
    Agree (stringRules formats k s path) (stringRules formats k' s path) := by
  have hbase64 : declaresBase64 k = declaresBase64 k' := beq_str_eq h.contentEncoding _
  refine .inTurn (.cons (shuffled_limitRule h.minLength ..)
    (.cons (shuffled_limitRule h.maxLength ..) (.cons (shuffled_patternRule h.pattern s path)
    (.cons (shuffled_formatRule formats h.format s path) (.cons ?encoding (.cons ?type .nil))))))
  case encoding =>
    dsimp only [contentEncodingRule]
    rw [hbase64]
    exact .refl _
  case type =>
    dsimp only [contentMediaTypeRule]
    rw [hbase64, beq_str_eq h.contentMediaType]
    exact .refl _

end

end

/-! ### Numbers -/

theorem rel_exclusiveLimit {plain plain' exclusive exclusive' : Option Json}
    (h : Option.Rel Shuffled plain plain') (hexclusive : Option.Rel Shuffled exclusive exclusive') :
    Option.Rel Shuffled (NumberKeywords.exclusiveLimit (NumberKeywords.bound plain exclusive))
      (NumberKeywords.exclusiveLimit (NumberKeywords.bound plain' exclusive')) := by
  cases hexclusive with
  | none => exact .none
  | @some j j' hj =>
    cases hj with
    | atom hkey =>
      cases j with
      | num n => exact .some (.atom rfl)
      | bool b =>
        cases b with
        | true => exact h
        | false => exact .none
      | _ => exact .none
    | array _ => exact .none
    | object _ _ _ _ => exact .none

theorem shuffled_numberRules {k k' : NumberKeywords} (h : k.Shuffled k') (n : Number)
    (path : String) : Agree (numberRules k n path) (numberRules k' n path) := by
  have hlower := rel_exclusiveLimit h.minimum h.exclusiveMinimum
  have hupper := rel_exclusiveLimit h.maximum h.exclusiveMaximum
  refine .inTurn (.cons (shuffled_limitRule h.minimum ..) (.cons (shuffled_limitRule h.maximum ..)
    (.cons (shuffled_limitRule hlower ..) (.cons (shuffled_limitRule hupper ..)
    (.cons ?multiples .nil)))))
  case multiples =>
    have hmultiple := h.multipleOf
    dsimp only [multipleOfRule]
    generalize k.multipleOf = o at hmultiple ⊢
    generalize k'.multipleOf = o' at hmultiple ⊢
    cases hmultiple with
    | none => exact .refl _
    | some hd =>
      exact .after (concur_isMultiple n hd) fun ok =>
        .reportUnless ok (.told fun _ _ => .violation ..)

/-! ### Arrays -/

section

variable (hself : AgreeOnShuffled self self')
include hself

theorem shuffled_additionalItem {additional additional' : Option Json}
    (h : Option.Rel Shuffled additional additional') (item : Json) (path : String) :
    Agree (additionalItem self additional item path)
      (additionalItem self' additional' item path) := by
  cases h with
  | none => exact .refl _
  | @some j j' hj =>
    have hitem := hself item j j' path [] hj
    cases hj with
    | atom hkey =>
      cases j with
      | obj ms => cases hkey
      | bool b => cases b <;> exact .refl _
      | _ => exact .refl _
    | array _ => exact .refl _
    | object _ _ _ _ => exact hitem

theorem shuffled_positionalItems {additional additional' : Option Json}
    (hadditional : Option.Rel Shuffled additional additional') {schemas schemas' : List Json}
    (h : List.Forall₂ Shuffled schemas schemas') (path : String) (i : Nat) (items : List Json) :
    Agree (positionalItems self additional path i items schemas)
      (positionalItems self' additional' path i items schemas') := by
  induction items generalizing i schemas schemas' with
  | nil => exact .refl _
  | cons x items ih =>
    cases h with
    | nil => exact (shuffled_additionalItem hself hadditional x _).andThen (ih .nil (i + 1))
    | cons hs h => exact (hself x _ _ _ _ hs).andThen (ih h (i + 1))

theorem shuffled_uniformItems {schema schema' : Json} (h : schema.Shuffled schema')
    (path : String) (i : Nat) (items : List Json) :
    Agree (uniformItems self schema path i items) (uniformItems self' schema' path i items) := by
  induction items generalizing i with
  | nil => exact .refl _
  | cons x items ih => exact (hself x _ _ _ _ h).andThen (ih (i + 1))

theorem shuffled_itemsRule {k k' : ArrayKeywords} (h : k.Shuffled k') (items : List Json)
    (path : String) : Agree (itemsRule self k items path) (itemsRule self' k' items path) := by
  have hitems := h.items
  unfold itemsRule
  generalize k.items = o at hitems ⊢
  generalize k'.items = o' at hitems ⊢
  cases hitems with
  | none => exact .refl _
  | @some j j' hj =>
    have huniform := shuffled_uniformItems hself hj path 0 items
    cases hj with
    | atom hkey =>
      cases j with
      | arr schemas => cases hkey
      | _ => exact huniform
    | array hschemas =>
      exact shuffled_positionalItems hself h.additionalItems hschemas path 0 items
    | object _ _ _ _ => exact huniform

theorem shuffled_containsRule {k k' : ArrayKeywords} (h : k.Shuffled k') (items : List Json)
    (path : String) :
    Agree (containsRule self k items path) (containsRule self' k' items path) := by
  have hcontains := h.contains
  unfold containsRule
  generalize k.contains = o at hcontains ⊢
  generalize k'.contains = o' at hcontains ⊢
  cases hcontains with
  | none => exact .refl _
  | some hwanted =>
    have hsome := concur_someHolds (List.forall₂_same.mpr fun x (_ : x ∈ items) =>
      hself.accepts hwanted x [])
    exact .after hsome fun ok => .reportUnless ok (.violation ..)

theorem shuffled_arrayRules {k k' : ArrayKeywords} (h : k.Shuffled k') (items : List Json)
    (path : String) : Agree (arrayRules self k items path) (arrayRules self' k' items path) := by
  refine .inTurn (.cons (shuffled_limitRule h.minItems ..)
    (.cons (shuffled_limitRule h.maxItems ..) (.cons ?unique
    (.cons (shuffled_itemsRule hself h items path)
    (.cons (shuffled_containsRule hself h items path) .nil)))))
  case unique =>
    dsimp only [uniqueItemsRule]
    rw [h.uniqueItems]
    exact .refl _

end

/-! ### Objects -/

theorem shuffled_demand {name name' : Json} (h : name.Shuffled name') (ms : Members)
    (path : String) (code : Code) (before behind : String) (constraint constraint' : Json) :
    Agree (demand ms path code before behind name constraint)
      (demand ms path code before behind name' constraint') := by
  cases h with
  | atom hkey =>
    refine .after (.refl _) fun there => .reportUnless there (.told fun words words' => ?_)
    exact ⟨.refl _, fun _ _ => .refl _⟩
  | array _ => exact .stop_left _ _
  | object _ _ _ _ => exact .stop_left _ _

section

variable {k k' : ObjectKeywords}

theorem shuffled_requiredRule (h : k.Shuffled k') (ms : Members) (path : String) :
    Agree (requiredRule k ms path) (requiredRule k' ms path) :=
  .each_of_permuted h.required fun _ _ hname => shuffled_demand hname ..

theorem shuffled_dependentRequiredRule (h : k.Shuffled k') (ms : Members) (path : String) :
    Agree (dependentRequiredRule k ms path) (dependentRequiredRule k' ms path) := by
  refine .each_of_permuted h.dependentRequired.permuted fun e e' he => ?_
  obtain ⟨trigger, names⟩ := e
  obtain ⟨trigger', names'⟩ := e'
  obtain ⟨rfl, hnames⟩ : trigger = trigger' ∧ Permuted Shuffled names names' := he
  dsimp only
  split
  · exact .each_of_permuted hnames fun _ _ hname => shuffled_demand hname ..
  · exact .refl _

variable [Host] in
/-- Whether a name is an additional one, where that can be told. -/
theorem concur_isAdditional (h : k.Shuffled k') (name : String) :
    Concur (isAdditional k name) (isAdditional k' name) := by
  unfold isAdditional
  rw [h.properties.has_eq]
  split
  · exact .refl _
  · have hsome : Concur (someHolds (fun p : String × Json => Pattern.occursIn p.1 name)
        k.patternProperties) (someHolds (fun p : String × Json => Pattern.occursIn p.1 name)
        k'.patternProperties) := by
      obtain ⟨zs, hzs, hperm⟩ := h.patternProperties.permuted
      refine concur_someHolds_of_permuted ⟨zs, hzs.imp fun e e' he => ?_, hperm⟩
      rw [he.1]
      exact .refl _
    exact hsome.bind fun b => .refl _

variable (hself : AgreeOnShuffled self self')
include hself

theorem shuffled_propertiesRule (h : k.Shuffled k') (ms : Members) (path : String) :
    Agree (propertiesRule self k ms path) (propertiesRule self' k' ms path) := by
  refine .each fun e _ => ?_
  have hschema := h.properties.lookup e.1
  dsimp only
  generalize k.properties.lookup e.1 = o at hschema ⊢
  generalize k'.properties.lookup e.1 = o' at hschema ⊢
  cases hschema with
  | none => exact .refl _
  | some hschema => exact hself _ _ _ _ _ hschema

variable [Host] in
theorem shuffled_patternPropertiesRule (h : k.Shuffled k') (ms : Members) (path : String) :
    Agree (patternPropertiesRule self k ms path) (patternPropertiesRule self' k' ms path) := by
  refine .each fun m _ => .each_of_permuted h.patternProperties.permuted fun e e' he => ?_
  obtain ⟨pattern, schema⟩ := e
  obtain ⟨pattern', schema'⟩ := e'
  obtain ⟨rfl, hschema⟩ : pattern = pattern' ∧ schema.Shuffled schema' := he
  refine .after (.refl _) fun occurs => ?_
  cases occurs with
  | true => exact hself _ _ _ _ _ hschema
  | false => exact .refl _

theorem shuffled_additionalMember {schema schema' : Json} (h : schema.Shuffled schema')
    (path : String) (m : String × Json) :
    Agree (Mirrors.additionalMember self schema path m)
      (Mirrors.additionalMember self' schema' path m) := by
  unfold Mirrors.additionalMember
  have hfalse : schema = .bool false ↔ schema' = .bool false := h.eq_iff_of_isKey rfl
  simp only [hfalse]
  split
  · exact .violation ..
  · exact hself _ _ _ _ _ h

variable [Host] in
theorem shuffled_additionalPropertiesRule (h : k.Shuffled k') (ms : Members) (path : String) :
    Agree (additionalPropertiesRule self k ms path)
      (additionalPropertiesRule self' k' ms path) := by
  have hadditional := h.additionalProperties
  generalize ho : k.additionalProperties = o at hadditional
  generalize ho' : k'.additionalProperties = o' at hadditional
  cases hadditional with
  | none =>
    rw [additionalPropertiesRule, additionalPropertiesRule, ho, ho']
    exact .refl _
  | @some schema schema' hschema =>
    by_cases htrue : schema = .bool true
    · rw [additionalPropertiesRule, additionalPropertiesRule, ho, ho',
        (hschema.eq_iff_of_isKey rfl).mp htrue, htrue]
      exact .refl _
    · have htrue' : schema' ≠ .bool true := mt (hschema.eq_iff_of_isKey rfl).mpr htrue
      rw [Mirrors.additionalPropertiesRule_eq ho htrue,
        Mirrors.additionalPropertiesRule_eq ho' htrue']
      refine .each fun m _ => .after (concur_isAdditional h m.1) fun additional => ?_
      cases additional with
      | true => exact shuffled_additionalMember hself hschema path m
      | false => exact .refl _

theorem shuffled_propertyNamesRule (h : k.Shuffled k') (ms : Members) (path : String) :
    Agree (propertyNamesRule self k ms path) (propertyNamesRule self' k' ms path) := by
  have hnames := h.propertyNames
  unfold propertyNamesRule
  generalize k.propertyNames = o at hnames ⊢
  generalize k'.propertyNames = o' at hnames ⊢
  cases hnames with
  | none => exact .refl _
  | some hschema =>
    refine .each fun m _ => .after (hself.accepts hschema _ []) fun ok => ?_
    exact .reportUnless ok (.violation ..)

theorem shuffled_dependentSchemasRule (h : k.Shuffled k') (ms : Members) (path : String)
    (chain : List String) :
    Agree (dependentSchemasRule self k ms path chain)
      (dependentSchemasRule self' k' ms path chain) := by
  refine .each_of_permuted h.dependentSchemas.permuted fun e e' he => ?_
  obtain ⟨trigger, schema⟩ := e
  obtain ⟨trigger', schema'⟩ := e'
  obtain ⟨rfl, hschema⟩ : trigger = trigger' ∧ schema.Shuffled schema' := he
  dsimp only
  split
  · exact hself _ _ _ _ _ hschema
  · exact .refl _

variable [Host] in
theorem shuffled_objectRules (h : k.Shuffled k') (ms : Members) (path : String)
    (chain : List String) :
    Agree (objectRules self k ms path chain) (objectRules self' k' ms path chain) :=
  .inTurn (.cons (shuffled_limitRule h.minProperties ..)
    (.cons (shuffled_limitRule h.maxProperties ..) (.cons (shuffled_requiredRule h ms path)
    (.cons (shuffled_propertiesRule hself h ms path)
    (.cons (shuffled_patternPropertiesRule hself h ms path)
    (.cons (shuffled_additionalPropertiesRule hself h ms path)
    (.cons (shuffled_propertyNamesRule hself h ms path)
    (.cons (shuffled_dependentRequiredRule h ms path)
    (.cons (shuffled_dependentSchemasRule hself h ms path chain) .nil)))))))))

end

/-! ### Combinations -/

section

variable (hself : AgreeOnShuffled self self') {schemas schemas' : Option (List Json)}
include hself

theorem shuffled_allOfRule (h : Option.Rel (Permuted Shuffled) schemas schemas') (value : Json)
    (path : String) (chain : List String) :
    Agree (allOfRule self schemas value path chain)
      (allOfRule self' schemas' value path chain) := by
  cases h with
  | none => exact .refl _
  | some h =>
    have heach := Agree.each_of_permuted h fun s s' => hself value s s' path chain
    exact .summary heach (.violation ..)

theorem shuffled_anyOfRule (h : Option.Rel (Permuted Shuffled) schemas schemas') (value : Json)
    (path : String) (chain : List String) :
    Agree (anyOfRule self schemas value path chain)
      (anyOfRule self' schemas' value path chain) := by
  cases h with
  | none => exact .refl _
  | some h =>
    have hsome := concur_someHolds_of_permuted (Permuted.accepts hself h value chain)
    exact .after hsome fun ok => .reportUnless ok (.violation ..)

theorem shuffled_oneOfRule (h : Option.Rel (Permuted Shuffled) schemas schemas') (value : Json)
    (path : String) (chain : List String) :
    Agree (oneOfRule self schemas value path chain)
      (oneOfRule self' schemas' value path chain) := by
  cases h with
  | none => exact .refl _
  | some h =>
    have hcount := concur_countHolding_of_permuted (Permuted.accepts hself h value chain)
    refine .after hcount fun n => ?_
    match n with
    | 0 => exact .violation ..
    | 1 => exact .refl _
    | n + 2 => exact .violation ..

theorem shuffled_notRule {schema schema' : Option Json} (h : Option.Rel Shuffled schema schema')
    (value : Json) (path : String) (chain : List String) :
    Agree (notRule self schema value path chain) (notRule self' schema' value path chain) := by
  cases h with
  | none => exact .refl _
  | some h =>
    exact .after (hself.accepts h value chain) fun ok => .reportUnless _ (.violation ..)

theorem shuffled_conditionalRule {k k' : ConditionalKeywords} (h : k.Shuffled k') (value : Json)
    (path : String) (chain : List String) :
    Agree (conditionalRule self k value path chain)
      (conditionalRule self' k' value path chain) := by
  have htest := h.test
  unfold conditionalRule
  generalize k.test = o at htest ⊢
  generalize k'.test = o' at htest ⊢
  cases htest with
  | none => exact .refl _
  | some htest =>
    refine .after (hself.accepts htest value chain) fun ok => ?_
    have hbranch : Option.Rel Shuffled (if ok then k.accepted else k.rejected)
        (if ok then k'.accepted else k'.rejected) := by
      cases ok with
      | true => exact h.accepted
      | false => exact h.rejected
    generalize (if ok then k.accepted else k.rejected) = branch at hbranch ⊢
    generalize (if ok then k'.accepted else k'.rejected) = branch' at hbranch ⊢
    cases hbranch with
    | none => exact .refl _
    | some hbranch => exact hself _ _ _ _ _ hbranch

theorem shuffled_combinationRules {n n' : Node} (h : n.Shuffled n') (value : Json)
    (path : String) (chain : List String) :
    Agree (combinationRules self n value path chain)
      (combinationRules self' n' value path chain) :=
  .inTurn (.cons (shuffled_allOfRule hself h.composition.allOf value path chain)
    (.cons (shuffled_anyOfRule hself h.composition.anyOf value path chain)
    (.cons (shuffled_oneOfRule hself h.composition.oneOf value path chain)
    (.cons (shuffled_notRule hself h.composition.not value path chain)
    (.cons (shuffled_conditionalRule hself h.conditional value path chain) .nil)))))

end

/-! ## One node -/

theorem hasType_eq {t t' : Json} (h : t.Shuffled t') (value : Json) :
    value.hasType t = value.hasType t' := by
  cases h <;> rfl

theorem shuffled_typeMismatch {types types' : List Json} (h : Permuted Shuffled types types')
    (value : Json) (path : String) :
    Agree (typeMismatch types value path) (typeMismatch types' value path) := by
  have hlength := h.length_eq
  refine .after_ok fun words words' _ _ => ?_
  cases types with
  | nil =>
    cases types' with
    | nil => exact .refl _
    | cons t' ts' => simp at hlength
  | cons t ts =>
    cases types' with
    | nil => simp at hlength
    | cons t' ts' => cases ts <;> cases ts' <;> exact .violation ..

theorem agree_nullMismatch (n n' : Node) (path : String) :
    Agree (nullMismatch n path) (nullMismatch n' path) :=
  .after_ok fun _ _ _ _ => .violation ..

section

variable {n n' : Node} (h : n.Shuffled n')
include h

theorem hasConst_eq : n.hasConst = n'.hasConst := by
  have habsent : n.const = .absent ↔ n'.const = .absent := h.const.eq_iff_of_isKey rfl
  rw [Node.hasConst, Node.hasConst, Bool.eq_iff_iff, bne_iff_ne, bne_iff_ne, ne_eq, ne_eq,
    habsent]

theorem allowsNull_eq : n.allowsNull = n'.allowsNull := by
  have htypes := h.types
  unfold Node.allowsNull Node.declares
  generalize n.types = o at htypes ⊢
  generalize n'.types = o' at htypes ⊢
  cases htypes with
  | none => rfl
  | some htypes =>
    dsimp only
    rw [List.contains_eq_any_beq, List.contains_eq_any_beq]
    refine htypes.any_eq fun t t' ht => ?_
    rw [Bool.eq_iff_iff, beq_iff_eq, beq_iff_eq, eq_comm, ht.eq_iff_of_isKey rfl, eq_comm]

theorem enum_isNone_eq : n.enum.isNone = n'.enum.isNone := by
  have henum := h.enum
  generalize n.enum = o at henum ⊢
  generalize n'.enum = o' at henum ⊢
  cases henum <;> rfl

theorem isSettled_eq (value : Json) : isSettled n value = isSettled n' value := by
  have henum := h.enum
  unfold isSettled
  rw [hasConst_eq h, h.const.equals_eq]
  split
  · rfl
  · generalize n.enum = o at henum ⊢
    generalize n'.enum = o' at henum ⊢
    cases henum with
    | none => rfl
    | some henum => exact henum.any_eq fun c c' hc => hc.equals_eq value

theorem shuffled_unsettledRule (value : Json) (path : String) :
    Agree (unsettledRule n value path) (unsettledRule n' value path) := by
  have henum := h.enum
  unfold unsettledRule
  rw [hasConst_eq h]
  refine .andThen ?const ?enum
  case const =>
    split
    · exact .told fun _ _ => .violation ..
    · exact .refl _
  case enum =>
    generalize n.enum = o at henum ⊢
    generalize n'.enum = o' at henum ⊢
    cases henum with
    | none => exact .refl _
    | @some allowed allowed' henum =>
      have hamong : value.isAmong allowed = value.isAmong allowed' :=
        henum.any_eq fun c c' hc => hc.equals_eq value
      dsimp only
      rw [hamong]
      exact .reportUnless _ (.told fun _ _ => .violation ..)

variable {scope scope' : Scope} (hformats : scope.formats = scope'.formats)
  (hself : AgreeOnShuffled self self')
include hformats hself

section

variable [Host]

theorem shuffled_kindRules (value : Json) (path : String) (chain : List String) :
    Agree (kindRules scope self n value path chain)
      (kindRules scope' self' n' value path chain) := by
  cases value with
  | str s =>
    dsimp only [kindRules]
    rw [hformats]
    exact shuffled_stringRules scope'.formats h.string s path
  | num m => exact shuffled_numberRules h.number m path
  | arr xs => exact shuffled_arrayRules hself h.array xs path
  | obj ms => exact shuffled_objectRules hself h.object ms path chain
  | _ => exact .refl _

theorem shuffled_settledRules (value : Json) (path : String) (chain : List String) :
    Agree (settledRules scope self n value path chain)
      (settledRules scope' self' n' value path chain) := by
  unfold settledRules
  rw [isSettled_eq h]
  split
  · exact .refl _
  · exact .inTurn (.cons (shuffled_unsettledRule h value path)
      (.cons (shuffled_kindRules h hformats hself value path chain)
      (.cons (shuffled_combinationRules hself h value path chain) .nil)))

theorem shuffled_typedRules (value : Json) (path : String) (chain : List String) :
    Agree (typedRules scope self n value path chain)
      (typedRules scope' self' n' value path chain) := by
  have hsettled := shuffled_settledRules h hformats hself value path chain
  have htypes := h.types
  unfold typedRules
  generalize n.types = o at htypes ⊢
  generalize n'.types = o' at htypes ⊢
  cases htypes with
  | none => exact hsettled
  | @some types types' htypes =>
    have htyped : value.hasSomeType types = value.hasSomeType types' :=
      htypes.any_eq fun t t' ht => hasType_eq ht value
    dsimp only
    rw [htyped]
    split
    · exact hsettled
    · exact shuffled_typeMismatch htypes value path

/-- The rules of two shuffled nodes agree as far as the readings do. -/
theorem shuffled_nodeRules (value : Json) (path : String) (chain : List String) :
    Agree (nodeRules scope self n value path chain)
      (nodeRules scope' self' n' value path chain) := by
  have htyped := shuffled_typedRules h hformats hself value path chain
  cases value with
  | absent => exact .violation ..
  | null =>
    dsimp only [nodeRules]
    rw [allowsNull_eq h, enum_isNone_eq h, hasConst_eq h]
    split
    · exact .refl _
    · split
      · exact agree_nullMismatch n n' path
      · exact htyped
  | _ => exact htyped

end

end

/-! ## Evaluation -/

/-- Two contexts that differ in the order of the document. -/
structure ShuffledScope (scope scope' : Scope) : Prop where
  root : Option.Rel Shuffled scope.root scope'.root
  formats : scope.formats = scope'.formats
  guarded : scope.guarded = scope'.guarded

theorem shuffled_followRule {scope scope' : Scope} (hscope : ShuffledScope scope scope')
    (hself : AgreeOnShuffled self self') {ref ref' : Json} (h : ref.Shuffled ref') (value : Json)
    (path : String) (chain : List String) :
    Agree (followRule scope self ref value path chain)
      (followRule scope' self' ref' value path chain) := by
  cases h with
  | atom hkey =>
    have hreferred : ∀ target target', referred scope ref = .ok target →
        referred scope' ref = .ok target' → target.Shuffled target' := by
      intro target target' htarget htarget'
      have hroot := hscope.root
      unfold referred at htarget htarget'
      generalize scope.root = o at hroot htarget
      generalize scope'.root = o' at hroot htarget'
      cases hroot with
      | none => cases htarget
      | some hroot =>
        have halike := Pointer.alike_resolve hroot ref
        change Pointer.resolve ref _ = .ok target at htarget
        change Pointer.resolve ref _ = .ok target' at htarget'
        rw [htarget, htarget'] at halike
        exact halike.of_ok
    unfold followRule
    rw [hscope.guarded]
    refine .after (.refl _) fun _ => .after_ok fun target target' htarget htarget' => ?_
    exact hself _ _ _ _ _ (hreferred target target' htarget htarget')
  | array _ => exact .stop_left _ _
  | object _ _ _ _ => exact .stop_left _ _

variable [Host] in
/-- Evaluation in any number of steps agrees on shuffled schemas in shuffled documents. -/
theorem agreeOnShuffled_descend {scope scope' : Scope} (hscope : ShuffledScope scope scope')
    (fuel : Nat) : AgreeOnShuffled (descend scope fuel) (descend scope' fuel) := by
  induction fuel with
  | zero => exact fun _ _ _ _ _ _ => .refl _
  | succ fuel ih =>
    intro value schema schema' path chain h
    rw [descend, descend]
    unfold step
    cases h with
    | atom hkey =>
      cases schema with
      | obj ms => cases hkey
      | bool b => cases b <;> exact .refl _
      | _ => exact .refl _
    | array _ => exact .stop_left _ _
    | @object ms ms' ns hdistinct hnames h hperm =>
      have hmembers := (Shuffled.object hdistinct hnames h hperm).members
      have href := Node.rel_keyword hmembers "$ref"
      dsimp only
      generalize Table.keyword ms "$ref" = o at href ⊢
      generalize Table.keyword ns "$ref" = o' at href ⊢
      cases href with
      | some href => exact shuffled_followRule hscope ih href value path chain
      | none =>
        refine .after_ok fun n n' hn hn' => ?_
        have hnode := Node.shuffled_of_ofMembers hmembers hn hn'
        exact shuffled_nodeRules hnode hscope.formats ih value path chain

theorem rel_document {schema schema' : Json} {root root' : Option Json}
    (h : schema.Shuffled schema') (hroot : Option.Rel Shuffled root root') :
    Option.Rel Shuffled (Pointer.document schema root) (Pointer.document schema' root') := by
  cases hroot with
  | some hroot => exact .some hroot
  | none =>
    cases h with
    | atom hkey =>
      cases schema with
      | obj ms => cases hkey
      | _ => exact .none
    | array _ => exact .none
    | object hdistinct hnames h hperm => exact .some (.object hdistinct hnames h hperm)

variable [Host] in
/-- Evaluations of one value by shuffled schemas in shuffled documents agree. -/
theorem agree_run_of_shuffled (value : Json) {schema schema' : Json} {root root' : Option Json}
    (h : schema.Shuffled schema') (hroot : Option.Rel Shuffled root root') (path : String)
    (formats : Formats) :
    Agree (run value schema root path formats) (run value schema' root' path formats) := by
  have hscope : ShuffledScope (scopeFor schema root formats) (scopeFor schema' root' formats) :=
    ⟨rel_document h hroot, rfl, rfl⟩
  have hleft := Nat.le_max_left (budget value schema (scopeFor schema root formats).root)
    (budget value schema' (scopeFor schema' root' formats).root)
  have hright := Nat.le_max_right (budget value schema (scopeFor schema root formats).root)
    (budget value schema' (scopeFor schema' root' formats).root)
  rw [← descend_eq_run value schema root path formats hleft,
    ← descend_eq_run value schema' root' path formats hright]
  exact agreeOnShuffled_descend hscope _ value schema schema' path [] h

end Evaluation

namespace Report

variable [Host] in
/-- The order of the members of a schema, and of the document that its references address, does not
count. Where all there is to report comes for a schema and for a shuffled one, either both accept
the value or neither does, and as many reports lie at each place by each rule. -/
theorem shuffled_schemas_agree {value schema schema' : Json} {root root' : Option Json}
    {path : String} {formats : Formats} {vs vs' : List Violation}
    (hschema : schema.Shuffled schema') (hroot : Option.Rel Json.Shuffled root root')
    (hvs : all value schema root path formats = .ok vs)
    (hvs' : all value schema' root' path formats = .ok vs') :
    accepts value schema root formats = accepts value schema' root' formats ∧
      (vs.map Violation.mark).Perm (vs'.map Violation.mark) :=
  marks_of_agree (Evaluation.agree_run_of_shuffled value hschema hroot path formats) hvs hvs'

open Sample in
/-- Two dependencies in either order, behind a reference into a document that is shuffled too. -/
theorem shuffled_dependencies_agree :
    let value : Json := .obj [("a", .null), ("c", .null)]
    let schema : Json := .obj [("$ref", .str "#/$defs/pairs")]
    let pairs : Json := .obj [("dependentRequired",
      .obj [("a", .arr [.str "b"]), ("c", .arr [.str "d"])])]
    let pairs' : Json := .obj [("dependentRequired",
      .obj [("c", .arr [.str "d"]), ("a", .arr [.str "b"])])]
    let root : Json := .obj [("$defs", .obj [("pairs", pairs), ("none", .bool false)])]
    let root' : Json := .obj [("$defs", .obj [("none", .bool false), ("pairs", pairs')])]
    ∃ vs vs', root.Shuffled root' ∧
      all value schema (some root) "" [] = .ok vs ∧
      all value schema (some root') "" [] = .ok vs' ∧
      vs.map Violation.mark = [(.str "b", .dependentRequired), (.str "d", .dependentRequired)] ∧
      vs'.map Violation.mark = [(.str "d", .dependentRequired), (.str "b", .dependentRequired)] ∧
      accepts value schema (some root) [] = accepts value schema (some root') [] ∧
      (vs.map Violation.mark).Perm (vs'.map Violation.mark) := by
  intro value schema pairs pairs' root root'
  have hschema : schema.Shuffled schema := by
    apply Json.Shuffled.refl
    simp [schema, Json.Distinct, Json.DistinctMembers]
  have hdemand : ∀ name : String, (Json.arr [.str name]).Shuffled (.arr [.str name]) :=
    fun name => .array (.cons (.atom rfl) .nil)
  have hdemands : Json.Shuffled (.obj [("a", .arr [.str "b"]), ("c", .arr [.str "d"])])
      (.obj [("c", .arr [.str "d"]), ("a", .arr [.str "b"])]) := by
    refine .object (by decide) ?_ ?_ (.swap ..)
    · rfl
    · exact .cons (hdemand "b") (.cons (hdemand "d") .nil)
  have hpairs : pairs.Shuffled pairs' := by
    refine .object (by decide) ?_ ?_ (.refl _)
    · rfl
    · exact .cons hdemands .nil
  have hdefinitions : Json.Shuffled (.obj [("pairs", pairs), ("none", .bool false)])
      (.obj [("none", .bool false), ("pairs", pairs')]) := by
    refine .object (by decide) ?_ ?_ (.swap ..)
    · rfl
    · exact .cons hpairs (.cons (.atom rfl) .nil)
  have hroot : root.Shuffled root' := by
    refine .object (by decide) ?_ ?_ (.refl _)
    · rfl
    · exact .cons hdefinitions .nil
  have hgives : ∀ {r : Except Fault (List Violation)} {marks : List (Json × Code)},
      r.map (List.map Violation.mark) = .ok marks →
        ∃ vs, r = .ok vs ∧ vs.map Violation.mark = marks := by
    intro r marks h
    cases r with
    | error f => cases h
    | ok vs => exact ⟨vs, rfl, Except.ok.inj h⟩
  have hvs : (all value schema (some root) "" []).map (List.map Violation.mark) =
      .ok [(.str "b", .dependentRequired), (.str "d", .dependentRequired)] := by cbv
  have hvs' : (all value schema (some root') "" []).map (List.map Violation.mark) =
      .ok [(.str "d", .dependentRequired), (.str "b", .dependentRequired)] := by cbv
  obtain ⟨vs, hvs, hmarks⟩ := hgives hvs
  obtain ⟨vs', hvs', hmarks'⟩ := hgives hvs'
  have hagree := shuffled_schemas_agree hschema (.some hroot) hvs hvs'
  exact ⟨vs, vs', hroot, hvs, hvs', hmarks, hmarks', hagree⟩

end Report

end Conform
