import Conform.Proofs.Equality
import Conform.Proofs.Subschemas

/-!
# Conform.Proofs.Shuffling

Documents that are the same but for the order of the members of their objects (`Json.Shuffled`), at
any depth:

```
array     shuffled items, position by position
object    shuffled members by name, in any order
others    the same value
```

What is asked of a document hardly depends on that order. A member is looked up by its name, so
references lead to shuffled documents (`Pointer.alike_resolve`), and a value equals both of two
shuffled documents or neither (`Json.Shuffled.equals_eq`). Keywords that are read from shuffled
members are shuffled (`Node.shuffled_of_ofMembers`), where lists and tables that come from the
members of a keyword keep no order (`Permuted`, `Table.Shuffled`).
-/

namespace Conform

variable {α β : Type}

/-! ## Lists and tables in another order -/

/-- At one position two lists of related elements have related elements, or neither has any. -/
theorem rel_getElem? {R : α → β → Prop} {xs : List α} {ys : List β} (h : List.Forall₂ R xs ys)
    (i : Nat) : Option.Rel R xs[i]? ys[i]? := by
  induction h generalizing i with
  | nil => exact .none
  | cons hxy _ ih =>
    cases i with
    | zero => exact .some hxy
    | succ i => exact ih i

/-- Two lists of related elements, but for their order. -/
def Permuted (R : α → β → Prop) (xs : List α) (ys : List β) : Prop :=
  ∃ zs, List.Forall₂ R xs zs ∧ zs.Perm ys

namespace Permuted

variable {R : α → β → Prop} {xs : List α} {ys : List β}

theorem of_forall₂ (h : List.Forall₂ R xs ys) : Permuted R xs ys := ⟨ys, h, .refl ys⟩

theorem exists_right (h : Permuted R xs ys) {x : α} (hx : x ∈ xs) : ∃ y ∈ ys, R x y := by
  obtain ⟨zs, hzs, hperm⟩ := h
  obtain ⟨y, hy, hxy⟩ := exists_of_forall₂ hzs.flip hx
  exact ⟨y, hperm.mem_iff.mp hy, hxy⟩

theorem exists_left (h : Permuted R xs ys) {y : β} (hy : y ∈ ys) : ∃ x ∈ xs, R x y := by
  obtain ⟨zs, hzs, hperm⟩ := h
  exact exists_of_forall₂ hzs (hperm.mem_iff.mpr hy)

theorem length_eq (h : Permuted R xs ys) : xs.length = ys.length := by
  obtain ⟨zs, hzs, hperm⟩ := h
  rw [hzs.length_eq, hperm.length_eq]

theorem isEmpty_eq (h : Permuted R xs ys) : xs.isEmpty = ys.isEmpty := by
  rw [Bool.eq_iff_iff, List.isEmpty_iff_length_eq_zero, List.isEmpty_iff_length_eq_zero,
    h.length_eq]

theorem any_eq (h : Permuted R xs ys) {f : α → Bool} {g : β → Bool}
    (hR : ∀ x y, R x y → f x = g y) : xs.any f = ys.any g := by
  obtain ⟨zs, hzs, hperm⟩ := h
  rw [any_eq_of_forall₂ hzs hR, hperm.any_eq]

end Permuted

namespace Table

/-- Two tables without repeated names, with related entries under the same names. -/
structure Shuffled (R : α → β → Prop) (t : Table α) (u : Table β) : Prop where
  left : (t.map Prod.fst).Nodup
  right : (u.map Prod.fst).Nodup
  lookup (k : String) : Option.Rel R (t.lookup k) (u.lookup k)

theorem lookup_eq_none {t : Table α} {k : String} (h : k ∉ t.map Prod.fst) :
    t.lookup k = none := by
  have hhas : Table.has t k = false := by
    simpa using mt has_iff.mp h
  simpa [has] using hhas

theorem lookup_eq_of_perm {t u : Table α} (ht : (t.map Prod.fst).Nodup) (h : t.Perm u)
    (k : String) : t.lookup k = u.lookup k := by
  have hu : (u.map Prod.fst).Nodup := (h.map Prod.fst).nodup_iff.mp ht
  apply Option.ext
  intro v
  constructor
  · intro hv
    exact lookup_of_mem hu (h.mem_iff.mp (mem_of_lookup hv))
  · intro hv
    exact lookup_of_mem ht (h.mem_iff.mpr (mem_of_lookup hv))

theorem nodup_put {t : Table α} (h : (t.map Prod.fst).Nodup) (k : String) (v : α) :
    ((t.put k v).map Prod.fst).Nodup := by
  induction t with
  | nil => simp [put]
  | cons e t ih =>
    obtain ⟨l, w⟩ := e
    rw [List.map_cons, List.nodup_cons] at h
    rw [put]
    by_cases hl : l = k
    · rw [if_pos hl, List.map_cons, List.nodup_cons, ← hl]
      exact h
    · rw [if_neg hl, List.map_cons, List.nodup_cons]
      refine ⟨fun hmem => ?_, ih h.2⟩
      obtain ⟨e, he, hname⟩ := List.mem_map.mp hmem
      obtain rfl | he := mem_put he
      · exact hl hname.symm
      · exact h.1 (List.mem_map.mpr ⟨e, he, hname⟩)

namespace Shuffled

variable {R : α → β → Prop} {t : Table α} {u : Table β}

theorem nil : Shuffled R [] [] := ⟨.nil, .nil, fun _ => .none⟩

theorem of_related {t' : Table β} (hnames : (t.map Prod.fst).Nodup) (h : Related R t t')
    (hperm : t'.Perm u) : Shuffled R t u := by
  have hnames' : t.map Prod.fst = t'.map Prod.fst := by
    rw [← List.forall₂_eq_eq_eq, List.forall₂_map_left_iff, List.forall₂_map_right_iff]
    exact h.imp fun _ _ he => he.1
  have hright : (t'.map Prod.fst).Nodup := hnames' ▸ hnames
  refine ⟨hnames, (hperm.map Prod.fst).nodup_iff.mp hright, fun k => ?_⟩
  rw [← lookup_eq_of_perm hright hperm k]
  exact h.lookup k

theorem has_eq (h : Shuffled R t u) (k : String) : Table.has t k = Table.has u k := by
  have hk := h.lookup k
  rw [Table.has, Table.has]
  generalize t.lookup k = o at hk ⊢
  generalize u.lookup k = o' at hk ⊢
  cases hk <;> rfl

/-- Entry by entry, the tables are the same but for their order. -/
theorem permuted [Inhabited β] (h : Shuffled R t u) :
    Permuted (fun e e' => e.1 = e'.1 ∧ R e.2 e'.2) t u := by
  have hentry : ∀ e ∈ t, ∃ y, u.lookup e.1 = some y ∧ R e.2 y := by
    intro e he
    have hrel := h.lookup e.1
    rw [lookup_of_mem h.left he] at hrel
    generalize u.lookup e.1 = o at hrel ⊢
    cases hrel with
    | some hy => exact ⟨_, rfl, hy⟩
  -- for each entry of the first table, in its order, the one of its name in the second
  refine ⟨t.map fun e => (e.1, (u.lookup e.1).getD default), ?related, ?perm⟩
  case related =>
    refine List.forall₂_map_right_iff.mpr (List.forall₂_same.mpr fun e he => ⟨rfl, ?_⟩)
    obtain ⟨y, hy, hR⟩ := hentry e he
    rw [hy]
    exact hR
  case perm =>
    refine (List.perm_ext_iff_of_nodup (List.Nodup.of_map Prod.fst ?_)
      (List.Nodup.of_map Prod.fst h.right)).mpr fun e => ⟨fun he => ?_, fun he => ?_⟩
    · rw [List.map_map]
      exact h.left
    · obtain ⟨e, hmem, rfl⟩ := List.mem_map.mp he
      obtain ⟨y, hy, -⟩ := hentry e hmem
      rw [hy]
      exact mem_of_lookup hy
    · have hrel := h.lookup e.1
      rw [lookup_of_mem h.right he] at hrel
      obtain ⟨x, hx⟩ : ∃ x, t.lookup e.1 = some x := by
        generalize t.lookup e.1 = o at hrel
        cases hrel with
        | some _ => exact ⟨_, rfl⟩
      refine List.mem_map.mpr ⟨(e.1, x), mem_of_lookup hx, ?_⟩
      rw [lookup_of_mem h.right he, Option.getD_some]

end Shuffled

end Table

/-! ## Shuffled documents -/

/-- One document is the other with the members of objects, at any depth, in another order. No object
gives a name twice. -/
inductive Json.Shuffled : Json → Json → Prop where
  | atom {j : Json} (h : j.isKey = true) : Shuffled j j
  | array {xs ys : List Json} (h : List.Forall₂ Shuffled xs ys) : Shuffled (.arr xs) (.arr ys)
  | object {ms ms' ns : Members} (hdistinct : (ms.map Prod.fst).Nodup)
      (hnames : ms.map Prod.fst = ms'.map Prod.fst)
      (h : List.Forall₂ Shuffled (ms.map Prod.snd) (ms'.map Prod.snd)) (hperm : ms'.Perm ns) :
      Shuffled (.obj ms) (.obj ns)

/-- Tables with the same names, one after the other, and related entries. -/
theorem Table.related_of_map {R : α → β → Prop} {t : Table α} {u : Table β}
    (hnames : t.map Prod.fst = u.map Prod.fst)
    (h : List.Forall₂ R (t.map Prod.snd) (u.map Prod.snd)) : Related R t u := by
  rw [List.forall₂_map_left_iff, List.forall₂_map_right_iff] at h
  rw [← List.forall₂_eq_eq_eq, List.forall₂_map_left_iff, List.forall₂_map_right_iff] at hnames
  induction h with
  | nil => exact .nil
  | cons he _ ih =>
    cases hnames with
    | cons hname hnames => exact .cons ⟨hname, he⟩ (ih hnames)

namespace Json.Shuffled

variable {j j' : Json} {ms ns : Members}

theorem members (h : Shuffled (.obj ms) (.obj ns)) : Table.Shuffled Shuffled ms ns := by
  cases h with
  | atom h => cases h
  | object hdistinct hnames h hperm =>
    exact .of_related hdistinct (Table.related_of_map hnames h) hperm

/-- Every document in which no object gives a name twice is shuffled in no way. -/
theorem refl (h : j.Distinct) : Shuffled j j := by
  induction j using Json.induction with
  | arr xs ih =>
    rw [Distinct] at h
    exact .array (List.forall₂_same.mpr fun x hx => ih x hx (h.of_mem hx))
  | obj ms ih =>
    rw [Distinct] at h
    refine .object h.1 rfl (List.forall₂_same.mpr fun x hx => ?_) (.refl ms)
    obtain ⟨e, he, rfl⟩ := List.mem_map.mp hx
    exact ih e he (h.2.of_mem he)
  | _ => exact .atom rfl

/-- A value that may name an entry of a table is not shuffled. -/
theorem eq_of_isKey (h : Shuffled j j') (hkey : j.isKey = true) : j = j' := by
  cases h with
  | atom _ => rfl
  | array _ => cases hkey
  | object _ _ _ _ => cases hkey

theorem isKey_eq (h : Shuffled j j') : j.isKey = j'.isKey := by
  cases h <;> rfl

theorem numeric?_eq (h : Shuffled j j') : j.numeric? = j'.numeric? := by
  cases h <;> rfl

theorem isFalsy_eq (h : Shuffled j j') : j.isFalsy = j'.isFalsy := by
  cases h with
  | atom _ => rfl
  | array h => exact (Permuted.of_forall₂ h).isEmpty_eq
  | @object ms ms' ns _ hnames h hperm =>
    have hlength : ms.length = ms'.length := by
      simpa using congrArg List.length hnames
    rw [isFalsy, isFalsy, Bool.eq_iff_iff, List.isEmpty_iff_length_eq_zero,
      List.isEmpty_iff_length_eq_zero, hlength, hperm.length_eq]

theorem eq_iff_of_isKey (h : Shuffled j j') {a : Json} (ha : a.isKey = true) :
    j = a ↔ j' = a := by
  constructor
  · rintro rfl
    exact (h.eq_of_isKey ha).symm
  · rintro rfl
    exact h.eq_of_isKey (h.isKey_eq.trans ha)

/-- A value equals both of two shuffled documents or neither. -/
theorem equals_eq (h : Shuffled j j') (v : Json) : v.equals j = v.equals j' := by
  induction v using Json.induction generalizing j j' with
  | arr vs ih =>
    cases h with
    | atom _ => rfl
    | array h =>
      rw [equals, equals]
      induction h generalizing vs with
      | nil => rfl
      | cons hxy _ ihs =>
        cases vs with
        | nil => rfl
        | cons v vs =>
          rw [equalItems, equalItems, ih v List.mem_cons_self hxy,
            ihs vs fun w hw => ih w (List.mem_cons_of_mem _ hw)]
    | object _ _ _ _ => rfl
  | obj vs ih =>
    cases h with
    | atom _ => rfl
    | array _ => rfl
    | object hdistinct hnames h hperm =>
      have hmembers := (object hdistinct hnames h hperm).members
      rw [equals, equals, (hmembers.permuted).length_eq, Bool.eq_iff_iff, Bool.and_eq_true,
        Bool.and_eq_true, includedIn_iff, includedIn_iff]
      refine and_congr_right fun _ => forall₂_congr fun e he => ?_
      have hrel := hmembers.lookup e.1
      generalize List.lookup e.1 _ = o at hrel ⊢
      generalize List.lookup e.1 _ = o' at hrel ⊢
      cases hrel with
      | none => simp
      | some hxy => simp [ih e he hxy]
  | _ => cases h <;> rfl

end Json.Shuffled

/-! ## References -/

namespace Pointer

open Json (Shuffled)

theorem shuffled_getD_null {o o' : Option Json} (h : Option.Rel Shuffled o o') :
    (o.getD .null).Shuffled (o'.getD .null) := by
  cases h with
  | none => exact .atom rfl
  | some h => exact h

/-- What a document has for a table, or what stands in for null. -/
theorem alike_orElse {j j' : Json} {r r' : Except Fault Json} :
    j.Shuffled j' → Alike Shuffled r r' →
      Alike Shuffled (match j with | .null => r | table => .ok table)
        (match j' with | .null => r' | table => .ok table) := by
  intro h hr
  cases h with
  | atom hkey =>
    cases j with
    | null => exact hr
    | _ => exact .ok (.atom hkey)
  | array h => exact .ok (.array h)
  | object hdistinct hnames h hperm => exact .ok (.object hdistinct hnames h hperm)

theorem alike_definitions {root root' : Json} (h : root.Shuffled root') (name other : String) :
    Alike Shuffled (definitions root name other) (definitions root' name other) := by
  cases h with
  | atom hkey =>
    cases root with
    | obj ms => cases hkey
    | _ => exact .error _
  | array h => exact .error _
  | object hdistinct hnames h hperm =>
    have hmembers := (Shuffled.object hdistinct hnames h hperm).members
    have hempty : Shuffled (.obj []) (.obj []) := .object .nil rfl .nil (.refl _)
    exact alike_orElse (shuffled_getD_null (hmembers.lookup name))
      (alike_orElse (shuffled_getD_null (hmembers.lookup other)) (.ok hempty))

theorem alike_step {current current' : Json} (h : current.Shuffled current') (ref : String)
    (segment : List Char) :
    Alike Shuffled (step ref current segment) (step ref current' segment) := by
  cases h with
  | atom hkey =>
    cases current with
    | arr xs => cases hkey
    | obj ms => cases hkey
    | _ => exact .error _
  | @array xs ys h =>
    unfold step
    dsimp only
    cases position? segment with
    | error f => exact .error f
    | ok position =>
      cases position with
      | none => exact .error _
      | some i =>
        have hitem := rel_getElem? h i
        dsimp only
        generalize xs[i]? = o at hitem ⊢
        generalize ys[i]? = o' at hitem ⊢
        cases hitem with
        | none => exact .error _
        | some hitem => exact .ok hitem
  | object hdistinct hnames h hperm =>
    have hmembers := (Shuffled.object hdistinct hnames h hperm).members
    have hmember := hmembers.lookup (String.ofList segment)
    unfold step
    dsimp only
    generalize List.lookup (String.ofList segment) _ = o at hmember ⊢
    generalize List.lookup (String.ofList segment) _ = o' at hmember ⊢
    cases hmember with
    | none => exact .error _
    | some hmember => exact .ok hmember

theorem alike_follow {root root' current current' : Json} (hroot : root.Shuffled root')
    (h : current.Shuffled current') (ref : String) (segments : List (List Char)) :
    Alike Shuffled (follow ref root current segments) (follow ref root' current' segments) := by
  induction segments generalizing current current' with
  | nil => exact .ok h
  | cons raw rest ih =>
    rw [follow, follow]
    split
    · exact ih h
    · split
      · next other _ =>
        have htable := alike_definitions hroot (String.ofList raw) other
        generalize definitions root (String.ofList raw) other = r at htable ⊢
        generalize definitions root' (String.ofList raw) other = r' at htable ⊢
        cases htable with
        | ok htable => exact ih htable
        | error f => exact .error f
      · have hnext := alike_step h ref (unescape raw)
        generalize step ref current (unescape raw) = r at hnext ⊢
        generalize step ref current' (unescape raw) = r' at hnext ⊢
        cases hnext with
        | ok hnext => exact ih hnext
        | error f => exact .error f

/-- A reference leads to shuffled values in shuffled documents. -/
theorem alike_resolve {root root' : Json} (h : root.Shuffled root') (ref : Json) :
    Alike Shuffled (resolve ref root) (resolve ref root') := by
  unfold resolve
  split
  · split
    · exact alike_follow h h _ _
    · exact .error _
  · exact .error _

end Pointer

/-! ## Keywords -/

/-- Keywords for strings that are shuffled. -/
structure StringKeywords.Shuffled (k k' : StringKeywords) : Prop where
  minLength : Option.Rel Json.Shuffled k.minLength k'.minLength
  maxLength : Option.Rel Json.Shuffled k.maxLength k'.maxLength
  pattern : Option.Rel Json.Shuffled k.pattern k'.pattern
  format : Option.Rel Json.Shuffled k.format k'.format
  contentEncoding : Option.Rel Json.Shuffled k.contentEncoding k'.contentEncoding
  contentMediaType : Option.Rel Json.Shuffled k.contentMediaType k'.contentMediaType

/-- Keywords for numbers that are shuffled. -/
structure NumberKeywords.Shuffled (k k' : NumberKeywords) : Prop where
  minimum : Option.Rel Json.Shuffled k.minimum k'.minimum
  maximum : Option.Rel Json.Shuffled k.maximum k'.maximum
  exclusiveMinimum : Option.Rel Json.Shuffled k.exclusiveMinimum k'.exclusiveMinimum
  exclusiveMaximum : Option.Rel Json.Shuffled k.exclusiveMaximum k'.exclusiveMaximum
  multipleOf : Option.Rel Json.Shuffled k.multipleOf k'.multipleOf

/-- Keywords for arrays that are shuffled. -/
structure ArrayKeywords.Shuffled (k k' : ArrayKeywords) : Prop where
  minItems : Option.Rel Json.Shuffled k.minItems k'.minItems
  maxItems : Option.Rel Json.Shuffled k.maxItems k'.maxItems
  uniqueItems : k.uniqueItems = k'.uniqueItems
  items : Option.Rel Json.Shuffled k.items k'.items
  additionalItems : Option.Rel Json.Shuffled k.additionalItems k'.additionalItems
  contains : Option.Rel Json.Shuffled k.contains k'.contains

/-- Keywords for objects that are shuffled. -/
structure ObjectKeywords.Shuffled (k k' : ObjectKeywords) : Prop where
  minProperties : Option.Rel Json.Shuffled k.minProperties k'.minProperties
  maxProperties : Option.Rel Json.Shuffled k.maxProperties k'.maxProperties
  required : Permuted Json.Shuffled k.required k'.required
  properties : Table.Shuffled Json.Shuffled k.properties k'.properties
  patternProperties : Table.Shuffled Json.Shuffled k.patternProperties k'.patternProperties
  additionalProperties :
    Option.Rel Json.Shuffled k.additionalProperties k'.additionalProperties
  propertyNames : Option.Rel Json.Shuffled k.propertyNames k'.propertyNames
  dependentRequired :
    Table.Shuffled (Permuted Json.Shuffled) k.dependentRequired k'.dependentRequired
  dependentSchemas : Table.Shuffled Json.Shuffled k.dependentSchemas k'.dependentSchemas

/-- Keywords that combine schemas and are shuffled. -/
structure CompositionKeywords.Shuffled (k k' : CompositionKeywords) : Prop where
  allOf : Option.Rel (Permuted Json.Shuffled) k.allOf k'.allOf
  anyOf : Option.Rel (Permuted Json.Shuffled) k.anyOf k'.anyOf
  oneOf : Option.Rel (Permuted Json.Shuffled) k.oneOf k'.oneOf
  not : Option.Rel Json.Shuffled k.not k'.not

/-- Keywords that choose between schemas and are shuffled. -/
structure ConditionalKeywords.Shuffled (k k' : ConditionalKeywords) : Prop where
  test : Option.Rel Json.Shuffled k.test k'.test
  accepted : Option.Rel Json.Shuffled k.accepted k'.accepted
  rejected : Option.Rel Json.Shuffled k.rejected k'.rejected

/-- Two nodes with shuffled keywords. -/
structure Node.Shuffled (n n' : Node) : Prop where
  types : Option.Rel (Permuted Json.Shuffled) n.types n'.types
  const : n.const.Shuffled n'.const
  enum : Option.Rel (Permuted Json.Shuffled) n.enum n'.enum
  string : n.string.Shuffled n'.string
  number : n.number.Shuffled n'.number
  array : n.array.Shuffled n'.array
  object : n.object.Shuffled n'.object
  composition : n.composition.Shuffled n'.composition
  conditional : n.conditional.Shuffled n'.conditional

/-! ### Reading -/

theorem Alike.of_ok {R : α → β → Prop} {x : α} {y : β} (h : Alike R (.ok x) (.ok y)) : R x y := by
  cases h with
  | ok h => exact h

theorem Json.Shuffled.alike_elements {j j' : Json} (h : j.Shuffled j') :
    Alike (Permuted Json.Shuffled) j.elements j'.elements := by
  cases h with
  | atom hkey =>
    cases j with
    | str s =>
      refine .ok (.of_forall₂ (List.forall₂_same.mpr fun c hc => ?_))
      obtain ⟨c, -, rfl⟩ := List.mem_map.mp hc
      exact .atom rfl
    | arr xs => cases hkey
    | obj ms => cases hkey
    | _ => exact .error _
  | array h => exact .ok (.of_forall₂ h)
  | @object ms ms' ns hdistinct hnames h hperm =>
    have hwords : ms.map (fun m => Json.str m.1) = ms'.map fun m => Json.str m.1 := by
      simpa [Function.comp_def] using congrArg (List.map Json.str) hnames
    refine .ok ⟨_, List.forall₂_same.mpr fun c hc => ?_, hwords ▸ hperm.map _⟩
    obtain ⟨m, -, rfl⟩ := List.mem_map.mp hc
    exact .atom rfl

theorem Json.Shuffled.alike_optionalMembers {j j' : Json} (h : j.Shuffled j') :
    Alike (Table.Shuffled Json.Shuffled) j.optionalMembers j'.optionalMembers := by
  unfold optionalMembers
  rw [h.isFalsy_eq]
  split
  · exact .ok .nil
  · cases h with
    | atom hkey =>
      cases j with
      | obj ms => cases hkey
      | _ => exact .error _
    | array h => exact .error _
    | object hdistinct hnames h hperm =>
      exact .ok (Json.Shuffled.object hdistinct hnames h hperm).members

namespace Node

open Pointer (shuffled_getD_null)

variable {ms ns : Members}

theorem rel_keyword (h : Table.Shuffled Json.Shuffled ms ns) (name : String) :
    Option.Rel Json.Shuffled (Table.keyword ms name) (Table.keyword ns name) := by
  have hname := h.lookup name
  unfold Table.keyword
  generalize ms.lookup name = o at hname ⊢
  generalize ns.lookup name = o' at hname ⊢
  cases hname with
  | none => exact .none
  | @some j j' hj =>
    cases hj with
    | atom hkey =>
      cases j with
      | null => exact .none
      | _ => exact .some (.atom hkey)
    | array h => exact .some (.array h)
    | object hdistinct hnames h hperm => exact .some (.object hdistinct hnames h hperm)

theorem alike_listKeyword (h : Table.Shuffled Json.Shuffled ms ns) (name : String) :
    Alike (Option.Rel (Permuted Json.Shuffled)) (listKeyword ms name) (listKeyword ns name) := by
  have hname := rel_keyword h name
  unfold listKeyword
  generalize Table.keyword ms name = o at hname ⊢
  generalize Table.keyword ns name = o' at hname ⊢
  cases hname with
  | none => exact .ok .none
  | @some j j' hj =>
    have helements := hj.alike_elements
    dsimp only
    generalize j.elements = r at helements ⊢
    generalize j'.elements = r' at helements ⊢
    cases helements with
    | ok h => exact .ok (.some h)
    | error f => exact .error f

theorem alike_typesOf (h : Table.Shuffled Json.Shuffled ms ns) :
    Alike (Option.Rel (Permuted Json.Shuffled)) (typesOf ms) (typesOf ns) := by
  have hname := rel_keyword h "type"
  have hlist := alike_listKeyword h "type"
  unfold listKeyword at hlist
  unfold typesOf
  generalize Table.keyword ms "type" = o at hname hlist ⊢
  generalize Table.keyword ns "type" = o' at hname hlist ⊢
  cases hname with
  | none => exact .ok .none
  | @some j j' hj =>
    cases hj with
    | atom hkey =>
      cases j with
      | str name => exact .ok (.some (.of_forall₂ (.cons (.atom rfl) .nil)))
      | _ => exact hlist
    | array h => exact hlist
    | object hdistinct hnames h hperm => exact hlist

theorem alike_requiredOf (h : Table.Shuffled Json.Shuffled ms ns) :
    Alike (Permuted Json.Shuffled) (requiredOf ms) (requiredOf ns) := by
  have hname := h.lookup "required"
  unfold requiredOf
  generalize ms.lookup "required" = o at hname ⊢
  generalize ns.lookup "required" = o' at hname ⊢
  cases hname with
  | none => exact .ok (.of_forall₂ .nil)
  | some hj =>
    dsimp only
    rw [hj.isFalsy_eq]
    split
    · exact .ok (.of_forall₂ .nil)
    · exact hj.alike_elements

theorem shuffled_schemasOf (h : Table.Shuffled Json.Shuffled ms ns) (name : String) :
    Table.Shuffled Json.Shuffled (schemasOf ms name) (schemasOf ns name) := by
  have hname := h.lookup name
  unfold schemasOf
  generalize ms.lookup name = o at hname ⊢
  generalize ns.lookup name = o' at hname ⊢
  cases hname with
  | none => exact .nil
  | @some j j' hj =>
    cases hj with
    | atom hkey =>
      cases j with
      | obj ms => cases hkey
      | _ => exact .nil
    | array h => exact .nil
    | object hdistinct hnames h hperm =>
      exact (Json.Shuffled.object hdistinct hnames h hperm).members

/-! ### Dependencies -/

/-- An entry of `dependencies` that is a schema. -/
def asSchema? (j : Json) : Option Json := if j.items?.isSome then none else some j

theorem rel_items? {j j' : Json} (h : j.Shuffled j') :
    Option.Rel (Permuted Json.Shuffled) j.items? j'.items? := by
  cases h with
  | atom hkey =>
    cases j with
    | arr xs => cases hkey
    | _ => exact .none
  | array h => exact .some (.of_forall₂ h)
  | object hdistinct hnames h hperm => exact .none

theorem rel_asSchema? {j j' : Json} (h : j.Shuffled j') :
    Option.Rel Json.Shuffled (asSchema? j) (asSchema? j') := by
  cases h with
  | atom hkey =>
    cases j with
    | arr xs => cases hkey
    | _ => exact .some (.atom hkey)
  | array h => exact .none
  | object hdistinct hnames h hperm => exact .some (.object hdistinct hnames h hperm)

/-- What `dependencies` comes to, name by name, where it gives no name twice. -/
theorem lookup_splitDependencies {entries : Members} (hdistinct : (entries.map Prod.fst).Nodup)
    (demands : Table (List Json)) (schemas : Members) (k : String) :
    (splitDependencies entries demands schemas).1.lookup k =
        ((entries.lookup k).bind Json.items?).or (demands.lookup k) ∧
      (splitDependencies entries demands schemas).2.lookup k =
        ((entries.lookup k).bind asSchema?).or (schemas.lookup k) := by
  induction entries generalizing demands schemas with
  | nil => exact ⟨rfl, rfl⟩
  | cons e entries ih =>
    obtain ⟨l, j⟩ := e
    rw [List.map_cons, List.nodup_cons] at hdistinct
    have hnone : entries.lookup l = none := Table.lookup_eq_none hdistinct.1
    by_cases hk : k = l
    · subst hk
      cases j <;> simp [splitDependencies, ih hdistinct.2, hnone, Table.lookup_put_self,
        Json.items?, asSchema?]
    · have hne : (k == l) = false := beq_false_of_ne hk
      cases j <;> simp [splitDependencies, ih hdistinct.2, List.lookup_cons, hne,
        Table.lookup_put_of_ne hk]

theorem nodup_splitDependencies (entries : Members) (demands : Table (List Json))
    (schemas : Members) (hdemands : (demands.map Prod.fst).Nodup)
    (hschemas : (schemas.map Prod.fst).Nodup) :
    ((splitDependencies entries demands schemas).1.map Prod.fst).Nodup ∧
      ((splitDependencies entries demands schemas).2.map Prod.fst).Nodup := by
  induction entries generalizing demands schemas with
  | nil => exact ⟨hdemands, hschemas⟩
  | cons e entries ih =>
    obtain ⟨l, j⟩ := e
    cases j with
    | arr names => exact ih _ _ (Table.nodup_put hdemands l names) hschemas
    | _ => exact ih _ _ hdemands (Table.nodup_put hschemas l _)

theorem rel_or {R : α → β → Prop} {o p : Option α} {o' p' : Option β} (h : Option.Rel R o o')
    (h' : Option.Rel R p p') : Option.Rel R (o.or p) (o'.or p') := by
  cases h with
  | none => exact h'
  | some h => exact .some h

theorem rel_bind {γ δ : Type} {R : α → β → Prop} {S : γ → δ → Prop} {o : Option α}
    {o' : Option β} {f : α → Option γ} {f' : β → Option δ} (h : Option.Rel R o o')
    (hf : ∀ x y, R x y → Option.Rel S (f x) (f' y)) : Option.Rel S (o.bind f) (o'.bind f') := by
  cases h with
  | none => exact .none
  | some h => exact hf _ _ h

theorem shuffled_splitDependencies {entries entries' : Members}
    (h : Table.Shuffled Json.Shuffled entries entries') :
    Table.Shuffled (Permuted Json.Shuffled) (splitDependencies entries [] []).1
        (splitDependencies entries' [] []).1 ∧
      Table.Shuffled Json.Shuffled (splitDependencies entries [] []).2
        (splitDependencies entries' [] []).2 := by
  have hleft := nodup_splitDependencies entries [] [] .nil .nil
  have hright := nodup_splitDependencies entries' [] [] .nil .nil
  refine ⟨⟨hleft.1, hright.1, fun k => ?_⟩, ⟨hleft.2, hright.2, fun k => ?_⟩⟩
  · rw [(lookup_splitDependencies h.left [] [] k).1, (lookup_splitDependencies h.right [] [] k).1]
    exact rel_or (rel_bind (h.lookup k) fun _ _ => rel_items?) .none
  · rw [(lookup_splitDependencies h.left [] [] k).2, (lookup_splitDependencies h.right [] [] k).2]
    exact rel_or (rel_bind (h.lookup k) fun _ _ => rel_asSchema?) .none

/-- What `dependentRequired` adds, name by name. -/
theorem lookup_addDemands {entries : Members} (hdistinct : (entries.map Prod.fst).Nodup)
    {demands found : Table (List Json)} (h : addDemands entries demands = .ok found) (k : String) :
    (∀ j, entries.lookup k = some j → ∃ names, j.elements = .ok names ∧
        found.lookup k = some names) ∧
      (entries.lookup k = none → found.lookup k = demands.lookup k) := by
  induction entries generalizing demands with
  | nil =>
    cases h
    exact ⟨nofun, fun _ => rfl⟩
  | cons e entries ih =>
    obtain ⟨l, j⟩ := e
    rw [List.map_cons, List.nodup_cons] at hdistinct
    obtain ⟨names, hnames, h⟩ := bind_eq_ok h
    obtain ⟨hsome, hnone⟩ := ih hdistinct.2 h
    by_cases hk : k = l
    · subst hk
      have hfound : found.lookup k = some names := by
        rw [hnone (Table.lookup_eq_none hdistinct.1), Table.lookup_put_self]
      simp [hnames, hfound]
    · have hne : (k == l) = false := beq_false_of_ne hk
      rw [Table.lookup_put_of_ne hk] at hnone
      rw [List.lookup_cons, hne]
      exact ⟨hsome, hnone⟩

theorem nodup_addDemands {entries : Members} {demands found : Table (List Json)}
    (hdemands : (demands.map Prod.fst).Nodup) (h : addDemands entries demands = .ok found) :
    (found.map Prod.fst).Nodup := by
  induction entries generalizing demands with
  | nil =>
    cases h
    exact hdemands
  | cons e entries ih =>
    obtain ⟨names, -, h⟩ := bind_eq_ok h
    exact ih (Table.nodup_put hdemands _ _) h

theorem shuffled_addDemands {entries entries' : Members}
    {demands demands' found found' : Table (List Json)}
    (hentries : Table.Shuffled Json.Shuffled entries entries')
    (hdemands : Table.Shuffled (Permuted Json.Shuffled) demands demands')
    (h : addDemands entries demands = .ok found) (h' : addDemands entries' demands' = .ok found') :
    Table.Shuffled (Permuted Json.Shuffled) found found' := by
  refine ⟨nodup_addDemands hdemands.left h, nodup_addDemands hdemands.right h', fun k => ?_⟩
  obtain ⟨hsome, hnone⟩ := lookup_addDemands hentries.left h k
  obtain ⟨hsome', hnone'⟩ := lookup_addDemands hentries.right h' k
  have hk := hentries.lookup k
  generalize entries.lookup k = o at hk hsome hnone
  generalize entries'.lookup k = o' at hk hsome' hnone'
  cases hk with
  | none =>
    rw [hnone rfl, hnone' rfl]
    exact hdemands.lookup k
  | some hj =>
    obtain ⟨names, hnames, hfound⟩ := hsome _ rfl
    obtain ⟨names', hnames', hfound'⟩ := hsome' _ rfl
    have helements := hj.alike_elements
    rw [hnames, hnames'] at helements
    rw [hfound, hfound']
    exact .some helements.of_ok

theorem lookup_foldl_put {entries : Members} (hdistinct : (entries.map Prod.fst).Nodup)
    (t : Members) (k : String) :
    (entries.foldl (fun t m => Table.put t m.1 m.2) t).lookup k =
      (entries.lookup k).or (t.lookup k) := by
  induction entries generalizing t with
  | nil => rfl
  | cons e entries ih =>
    obtain ⟨l, j⟩ := e
    rw [List.map_cons, List.nodup_cons] at hdistinct
    rw [List.foldl_cons, ih hdistinct.2]
    by_cases hk : k = l
    · subst hk
      simp [Table.lookup_eq_none hdistinct.1, Table.lookup_put_self]
    · have hne : (k == l) = false := beq_false_of_ne hk
      rw [Table.lookup_put_of_ne hk, List.lookup_cons, hne]

theorem nodup_foldl_put (entries : Members) {t : Members} (h : (t.map Prod.fst).Nodup) :
    ((entries.foldl (fun t m => Table.put t m.1 m.2) t).map Prod.fst).Nodup := by
  induction entries generalizing t with
  | nil => exact h
  | cons e entries ih => exact ih (Table.nodup_put h _ _)

theorem shuffled_dependenciesOf (h : Table.Shuffled Json.Shuffled ms ns)
    {demands demands' : Table (List Json)} {schemas schemas' : Members}
    (hms : dependenciesOf ms = .ok (demands, schemas))
    (hns : dependenciesOf ns = .ok (demands', schemas')) :
    Table.Shuffled (Permuted Json.Shuffled) demands demands' ∧
      Table.Shuffled Json.Shuffled schemas schemas' := by
  obtain ⟨mixed, hmixed, hms⟩ := bind_eq_ok hms
  obtain ⟨entries, hentries, hms⟩ := bind_eq_ok hms
  obtain ⟨added, hadded, hms⟩ := bind_eq_ok hms
  obtain ⟨more, hmore, hms⟩ := bind_eq_ok hms
  obtain ⟨mixed', hmixed', hns⟩ := bind_eq_ok hns
  obtain ⟨entries', hentries', hns⟩ := bind_eq_ok hns
  obtain ⟨added', hadded', hns⟩ := bind_eq_ok hns
  obtain ⟨more', hmore', hns⟩ := bind_eq_ok hns
  cases hms
  cases hns
  have hoptional : ∀ name {es es' : Members},
      ((ms.lookup name).getD .null).optionalMembers = .ok es →
      ((ns.lookup name).getD .null).optionalMembers = .ok es' →
      Table.Shuffled Json.Shuffled es es' := by
    intro name es es' hes hes'
    have halike := (shuffled_getD_null (h.lookup name)).alike_optionalMembers
    rw [hes, hes'] at halike
    exact halike.of_ok
  have hsplit := shuffled_splitDependencies (hoptional _ hmixed hmixed')
  have hmore := hoptional _ hmore hmore'
  refine ⟨shuffled_addDemands (hoptional _ hentries hentries') hsplit.1 hadded hadded', ?_, ?_,
    fun k => ?_⟩
  · exact nodup_foldl_put more hsplit.2.left
  · exact nodup_foldl_put more' hsplit.2.right
  · rw [lookup_foldl_put hmore.left, lookup_foldl_put hmore.right]
    exact rel_or (hmore.lookup k) (hsplit.2.lookup k)

/-! ### Nodes -/

/-- Nodes that are read from shuffled members are shuffled. -/
theorem shuffled_of_ofMembers (h : Table.Shuffled Json.Shuffled ms ns) {n n' : Node}
    (hn : ofMembers ms = .ok n) (hn' : ofMembers ns = .ok n') : n.Shuffled n' := by
  have hread := readFrom_of_ofMembers hn
  have hread' := readFrom_of_ofMembers hn'
  have hkeyword := rel_keyword h
  have hlist : ∀ name {o o' : Option (List Json)}, listKeyword ms name = .ok o →
      listKeyword ns name = .ok o' → Option.Rel (Permuted Json.Shuffled) o o' := by
    intro name o o' ho ho'
    have halike := alike_listKeyword h name
    rw [ho, ho'] at halike
    exact halike.of_ok
  have hdependencies := shuffled_dependenciesOf h hread.dependencies hread'.dependencies
  have htypes := alike_typesOf h
  rw [hread.types, hread'.types] at htypes
  have hrequired := alike_requiredOf h
  rw [hread.required, hread'.required] at hrequired
  exact {
    types := htypes.of_ok
    const := by
      rw [hread.const, hread'.const]
      have hconst := h.lookup "const"
      generalize ms.lookup "const" = o at hconst ⊢
      generalize ns.lookup "const" = o' at hconst ⊢
      cases hconst with
      | none => exact .atom rfl
      | some hconst => exact hconst
    enum := hlist _ hread.enum hread'.enum
    string := by
      rw [hread.string, hread'.string]
      exact ⟨hkeyword _, hkeyword _, hkeyword _, hkeyword _, hkeyword _, hkeyword _⟩
    number := by
      rw [hread.number, hread'.number]
      exact ⟨hkeyword _, hkeyword _, hkeyword _, hkeyword _, hkeyword _⟩
    array := by
      rw [hread.array, hread'.array]
      refine ⟨hkeyword _, hkeyword _, ?_, hkeyword _, hkeyword _, hkeyword _⟩
      have hunique := (shuffled_getD_null (h.lookup "uniqueItems")).isFalsy_eq
      rw [arrayOf, arrayOf, Json.isTruthy, Json.isTruthy, hunique]
    object := {
      minProperties := by
        rw [hread.minProperties, hread'.minProperties]
        exact hkeyword _
      maxProperties := by
        rw [hread.maxProperties, hread'.maxProperties]
        exact hkeyword _
      required := hrequired.of_ok
      properties := by
        rw [hread.properties, hread'.properties]
        exact shuffled_schemasOf h _
      patternProperties := by
        rw [hread.patternProperties, hread'.patternProperties]
        exact shuffled_schemasOf h _
      additionalProperties := by
        rw [hread.additionalProperties, hread'.additionalProperties]
        exact hkeyword _
      propertyNames := by
        rw [hread.propertyNames, hread'.propertyNames]
        exact hkeyword _
      dependentRequired := hdependencies.1
      dependentSchemas := hdependencies.2 }
    composition := {
      allOf := hlist _ hread.allOf hread'.allOf
      anyOf := hlist _ hread.anyOf hread'.anyOf
      oneOf := hlist _ hread.oneOf hread'.oneOf
      not := by
        rw [hread.not, hread'.not]
        exact hkeyword _ }
    conditional := by
      rw [hread.conditional, hread'.conditional]
      exact ⟨hkeyword _, hkeyword _, hkeyword _⟩ }

end Node

end Conform
