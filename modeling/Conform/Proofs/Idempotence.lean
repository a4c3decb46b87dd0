import Conform.Proofs.Flattening
import Conform.Proofs.InliningGuard
import Mathlib

/-!
# Conform.Proofs.Idempotence

Replacing references a second time, into any other document. A schema comes back as it is, whatever
the document, just when it holds no reference where replacing comes to (`Json.HoldsReference`). What
replacing gives is such a schema, unless an array was borrowed:

```
"items": {"$ref": "#/pair"}      one schema, which leads to an array. An array is no schema, and
                                 what is in it is not replaced
"items": [{"$ref": "#/word"}]    what is left: a list of schemas, the first of them a reference
```

So the main statement is an equivalence: the result is final unless replacing comes to an object
with such an `items` (`Json.BorrowsItems`).
-/

namespace Conform

theorem Table.put_of_lookup {α : Type} {t : Table α} {k : String} {v : α}
    (h : t.lookup k = some v) : put t k v = t := by
  induction t with
  | nil => cases h
  | cons e t ih =>
    obtain ⟨l, w⟩ := e
    rw [put]
    by_cases hl : l = k
    · subst hl
      rw [List.lookup_cons_self, Option.some.injEq] at h
      rw [if_pos rfl, h]
    · rw [List.lookup_cons, beq_false_of_ne (Ne.symm hl)] at h
      rw [if_neg hl, ih h]

/-- A schema is a reference, or holds one where replacing comes to. -/
inductive Json.HoldsReference : Json → Prop where
  | here {ms : Members} {ref : Json} (href : Table.keyword ms "$ref" = some ref) :
      HoldsReference (.obj ms)
  | inside {ms : Members} {s : Json} (hs : s ∈ Inline.held Inline.positions ms)
      (h : HoldsReference s) : HoldsReference (.obj ms)

/-- One step of replacing: to what a reference leads to, or to a schema that an object holds. -/
inductive Json.Visits (root : Json) : Json → Json → Prop where
  | follow {s t : Json} (h : RefersTo (some root) s t) : Visits root s t
  | held {ms : Members} {s : Json} (href : Table.keyword ms "$ref" = none)
      (h : s ∈ Inline.held Inline.positions ms) : Visits root (.obj ms) s

/-- The `items` of an object is a reference to an array, and a schema there holds a reference. -/
def Json.BorrowsItems (root schema : Json) : Prop :=
  ∃ ms items xs x, schema = .obj ms ∧ Table.keyword ms "$ref" = none ∧
    ms.lookup "items" = some items ∧ (∀ ys, items ≠ .arr ys) ∧
    LeadsTo (some root) items (.arr xs) ∧ x ∈ xs ∧ HoldsReference x

/-! ## Schemas without references -/

theorem stepwise_eq : Stepwise fun {α} (r s : Except Fault α) => r = s where
  ok _ := rfl
  bind {α β r s k l} h hk := by
    subst h
    cases r with
    | error f => rfl
    | ok x => exact hk x rfl

namespace Inline

theorem items_ok (xs : List Json) : items .ok xs = .ok xs := by
  induction xs with
  | nil => rfl
  | cons x xs ih =>
    rw [items, ih]
    rfl

theorem members_ok (ms : Members) : members .ok ms = .ok ms := by
  induction ms with
  | nil => rfl
  | cons m ms ih =>
    obtain ⟨k, x⟩ := m
    rw [members, ih]
    rfl

theorem Shape.replace_ok (shape : Shape) (j : Json) : shape.replace .ok j = .ok j := by
  unfold Shape.replace
  split
  · rw [members_ok]
    rfl
  · rw [items_ok]
    rfl
  · rw [items_ok]
    rfl
  all_goals rfl

/-- Schemas that stay as they are leave the object as it is, the order of its members too. -/
theorem keywords_ok (shapes : Table Shape) (ms : Members) : keywords .ok shapes ms = .ok ms := by
  induction shapes with
  | nil => rfl
  | cons e shapes ih =>
    obtain ⟨k, shape⟩ := e
    rw [keywords]
    split
    · exact ih
    · next j hj =>
      rw [Shape.replace_ok]
      exact (congrArg (keywords .ok shapes) (Table.put_of_lookup hj)).trans ih

variable {root : Json}

/-- A budget above the height of a schema without references is not used up. -/
theorem descend_of_not_holdsReference {guarded : Bool} {n : Nat} {s : Json} {chain : List String}
    (hs : ¬ s.HoldsReference) (hn : s.height < n) : descend guarded root n s chain = .ok s := by
  induction n generalizing s with
  | zero => omega
  | succ n ih =>
    cases s with
    | obj ms =>
      cases href : Table.keyword ms "$ref" with
      | some ref => exact absurd (.here href) hs
      | none =>
        have hheld : ∀ s ∈ held positions ms,
            descend guarded root n s chain = (.ok s : Except Fault Json) := by
          intro s hmem
          have hle := (within_of_mem_held hmem).height_le
          rw [Json.height] at hn
          exact ih (fun h => hs (.inside hmem h)) (by omega)
        rw [descend_object href, stepwise_eq.keywords nodup_positions hheld, keywords_ok]
        rfl
    | _ => rfl

/-- A schema without references comes back as it is, whatever the document. -/
theorem run_of_not_holdsReference {s : Json} (hs : ¬ s.HoldsReference) (root : Json)
    (followed : List String) : run s root followed = .ok s := by
  have hreach := Pointer.height_lt_reach s (some root)
  exact descend_of_not_holdsReference hs (by omega)

end Inline

/-! ## What an object holds, before and after -/

namespace Inline

variable {R : Json → Json → Prop} {shape : Shape} {j j' t t' : Json}

/-- A value of another shape holds no schema. -/
theorem Shape.held_eq_nil (htable : shape = .table → ∀ es, j ≠ .obj es)
    (hlist : shape = .list → ∀ xs, j ≠ .arr xs) (hshape : shape = .table ∨ shape = .list) :
    shape.held j = [] := by
  obtain rfl | rfl := hshape
  · cases j with
    | obj es => exact absurd rfl (htable rfl es)
    | _ => rfl
  · cases j with
    | arr xs => exact absurd rfl (hlist rfl xs)
    | _ => rfl

/-- A schema that the value of a keyword holds becomes one that it holds afterwards, or an array in
the place of one schema. -/
theorem Shape.Becomes.exists_after (h : shape.Becomes R j j') (ht : t ∈ shape.held j) :
    ∃ t', R t t' ∧ (t' ∈ shape.held j' ∨ ∃ xs, t' = .arr xs) := by
  cases h with
  | table h =>
    obtain ⟨⟨k, x⟩, hx, rfl⟩ := List.mem_map.mp ht
    obtain ⟨⟨k', x'⟩, hx', -, hR⟩ := exists_of_forall₂ h.flip hx
    exact ⟨x', hR, .inl (List.mem_map_of_mem hx')⟩
  | list hshape h =>
    obtain rfl | rfl := hshape
    all_goals
      obtain ⟨x', hx', hR⟩ := exists_of_forall₂ h.flip ht
      exact ⟨x', hR, .inl hx'⟩
  | one hshape hlist h =>
    obtain rfl | rfl := hshape
    · obtain rfl := List.mem_singleton.mp ht
      exact ⟨_, h, .inl (List.mem_singleton_self _)⟩
    · rw [Shape.held_alone (hlist rfl)] at ht
      obtain rfl := List.mem_singleton.mp ht
      refine ⟨_, h, ?_⟩
      by_cases harray : ∃ xs, j' = .arr xs
      · exact .inr harray
      · rw [Shape.held_alone (not_exists.mp harray)]
        exact .inl (List.mem_singleton_self _)
  | other htable hlist hshape =>
    rw [Shape.held_eq_nil htable hlist hshape] at ht
    cases ht

/-- A schema that the value of a keyword holds afterwards comes from one that it held, or from an
array that a schema in the place of a list became. -/
theorem Shape.Becomes.exists_before (h : shape.Becomes R j j') (ht' : t' ∈ shape.held j') :
    (∃ t ∈ shape.held j, R t t') ∨
    shape = .listOrOne ∧ (∀ xs, j ≠ .arr xs) ∧ ∃ xs, R j (.arr xs) ∧ t' ∈ xs := by
  cases h with
  | table h =>
    obtain ⟨⟨k, x'⟩, hx', rfl⟩ := List.mem_map.mp ht'
    obtain ⟨⟨k', x⟩, hx, -, hR⟩ := exists_of_forall₂ h hx'
    exact .inl ⟨x, List.mem_map_of_mem hx, hR⟩
  | list hshape h =>
    obtain rfl | rfl := hshape
    all_goals exact .inl (exists_of_forall₂ h ht')
  | one hshape hlist h =>
    obtain rfl | rfl := hshape
    · obtain rfl := List.mem_singleton.mp ht'
      exact .inl ⟨_, List.mem_singleton_self _, h⟩
    · by_cases harray : ∃ xs, j' = .arr xs
      · obtain ⟨xs, rfl⟩ := harray
        exact .inr ⟨rfl, hlist rfl, xs, h, ht'⟩
      · rw [Shape.held_alone (not_exists.mp harray)] at ht'
        obtain rfl := List.mem_singleton.mp ht'
        rw [Shape.held_alone (hlist rfl)]
        exact .inl ⟨_, List.mem_singleton_self _, h⟩
  | other htable hlist hshape =>
    rw [Shape.held_eq_nil htable hlist hshape] at ht'
    cases ht'

/-- In a value that stays as it is, each schema does. -/
theorem Shape.Becomes.self_of_mem_held (h : shape.Becomes R j j) (ht : t ∈ shape.held j) :
    R t t := by
  cases h with
  | table h =>
    obtain ⟨e, he, rfl⟩ := List.mem_map.mp ht
    exact (List.forall₂_same.mp h e he).2
  | list hshape h =>
    obtain rfl | rfl := hshape
    all_goals exact List.forall₂_same.mp h t ht
  | one hshape hlist h =>
    obtain rfl | rfl := hshape
    · exact List.mem_singleton.mp ht ▸ h
    · rw [Shape.held_alone (hlist rfl)] at ht
      exact List.mem_singleton.mp ht ▸ h
  | other htable hlist hshape =>
    rw [Shape.held_eq_nil htable hlist hshape] at ht
    cases ht

theorem mem_held {ms : Members} {s : Json} :
    s ∈ held positions ms ↔
      ∃ k shape j, (k, shape) ∈ positions ∧ ms.lookup k = some j ∧ s ∈ Shape.held shape j := by
  constructor
  · intro hs
    obtain ⟨⟨k, shape⟩, hk, hs⟩ := List.mem_flatMap.mp hs
    cases hj : ms.lookup k with
    | none => simp [hj] at hs
    | some j => exact ⟨k, shape, j, hk, hj, by simpa [hj] using hs⟩
  · rintro ⟨k, shape, j, hk, hj, hs⟩
    exact List.mem_flatMap.mpr ⟨(k, shape), hk, by simpa [hj] using hs⟩

namespace Rewritten

variable {ms ms' : Members}

/-- A schema that an object holds becomes one that it holds afterwards, or an array. -/
theorem exists_after (h : Rewritten R ms ms') (ht : t ∈ held positions ms) :
    ∃ t', R t t' ∧ (t' ∈ held positions ms' ∨ ∃ xs, t' = .arr xs) := by
  obtain ⟨k, shape, j, hk, hj, ht⟩ := mem_held.mp ht
  have hbecomes := h.replaced k shape hk
  rw [hj] at hbecomes
  generalize hj' : ms'.lookup k = o at hbecomes
  cases hbecomes with
  | some hbecomes =>
    obtain ⟨t', hR, ht' | harray⟩ := hbecomes.exists_after ht
    · exact ⟨t', hR, .inl (mem_held.mpr ⟨k, shape, _, hk, hj', ht'⟩)⟩
    · exact ⟨t', hR, .inr harray⟩

/-- A schema that an object holds afterwards comes from one that it held, or from an array that its
`items` became. -/
theorem exists_before (h : Rewritten R ms ms') (ht' : t' ∈ held positions ms') :
    (∃ t ∈ held positions ms, R t t') ∨
    ∃ j xs, ms.lookup "items" = some j ∧ (∀ ys, j ≠ .arr ys) ∧ R j (.arr xs) ∧ t' ∈ xs := by
  obtain ⟨k, shape, j', hk, hj', ht'⟩ := mem_held.mp ht'
  have hbecomes := h.replaced k shape hk
  rw [hj'] at hbecomes
  generalize hj : ms.lookup k = o at hbecomes
  cases hbecomes with
  | @some j _ hbecomes =>
    obtain ⟨t, ht, hR⟩ | ⟨rfl, halone, xs, hR, hx⟩ := hbecomes.exists_before ht'
    · exact .inl ⟨t, mem_held.mpr ⟨k, shape, j, hk, hj, ht⟩, hR⟩
    · obtain rfl : k = "items" := by simpa [positions] using hk
      exact .inr ⟨j, xs, hj, halone, hR, hx⟩

/-- In an object that stays as it is, each schema does. -/
theorem self_of_mem_held (h : Rewritten R ms ms) (ht : t ∈ held positions ms) : R t t := by
  obtain ⟨k, shape, j, hk, hj, ht⟩ := mem_held.mp ht
  have hbecomes := h.replaced k shape hk
  rw [hj] at hbecomes
  cases hbecomes with
  | some hbecomes => exact hbecomes.self_of_mem_held ht

end Rewritten

end Inline

/-! ## References that are left -/

namespace Json

variable {root s s' t : Json}

/-- A reference becomes what its target becomes. -/
theorem InlinesTo.of_refersTo (h : InlinesTo root s s') (ht : RefersTo (some root) s t) :
    InlinesTo root t s' := by
  obtain ⟨leaf, hleads, hleaf⟩ := h
  obtain rfl | ⟨target, htarget, hrest⟩ := Relation.ReflTransGen.cases_head hleads
  · cases ht with
    | reference href _ _ =>
      cases hleaf with
      | value h => exact absurd rfl (h _)
      | object hnone _ => cases href.symm.trans hnone
  · obtain rfl := ht.unique htarget
    exact ⟨leaf, hrest, hleaf⟩

theorem InlinesTo.of_leadsTo (h : InlinesTo root s s') (ht : LeadsTo (some root) s t) :
    InlinesTo root t s' := by
  induction ht with
  | refl => exact h
  | tail _ hlast ih => exact ih.of_refersTo hlast

/-- What an object that is no reference becomes. -/
theorem InlinesTo.exists_rewritten {ms : Members} (h : InlinesTo root (.obj ms) s')
    (href : Table.keyword ms "$ref" = none) :
    ∃ ms', s' = .obj ms' ∧ Inline.Rewritten (InlinesTo root) ms ms' := by
  obtain ⟨leaf, hleads, hleaf⟩ := h
  obtain rfl | ⟨target, htarget, -⟩ := Relation.ReflTransGen.cases_head hleads
  · cases hleaf with
    | value h => exact absurd rfl (h _)
    | object _ h => exact ⟨_, rfl, Inline.rewritten_of_keywords (fun _ _ => .of_descend) h⟩
  · cases htarget with
    | reference hsome _ _ => cases hsome.symm.trans href

/-- What becomes an object leads to one that is no reference. -/
theorem InlinesTo.exists_object {ms' : Members} (h : InlinesTo root s (.obj ms')) :
    ∃ ms, LeadsTo (some root) s (.obj ms) ∧ Table.keyword ms "$ref" = none ∧
      Inline.Rewritten (InlinesTo root) ms ms' := by
  obtain ⟨leaf, hleads, hleaf⟩ := h
  cases hleaf with
  | value h => exact absurd rfl (h _)
  | object href h =>
    exact ⟨_, hleads, href, Inline.rewritten_of_keywords (fun _ _ => .of_descend) h⟩

/-- A schema that replacing leaves as it is holds no reference. -/
theorem InlinesTo.not_holdsReference (h : InlinesTo root s s) : ¬ s.HoldsReference := by
  intro hs
  induction hs with
  | here href => cases href.symm.trans h.ref_eq_none
  | inside hmem _ ih =>
    obtain ⟨ms', heq, hrewritten⟩ := h.exists_rewritten h.ref_eq_none
    cases heq
    exact ih (hrewritten.self_of_mem_held hmem)

theorem visits_of_leadsTo (h : LeadsTo (some root) s t) :
    Relation.ReflTransGen (Visits root) s t :=
  Relation.ReflTransGen.mono (fun _ _ => Visits.follow) s t h

/-- A reference that is left was borrowed. -/
theorem exists_borrowsItems (hs' : s'.HoldsReference) (h : InlinesTo root s s') :
    ∃ t, Relation.ReflTransGen (Visits root) s t ∧ BorrowsItems root t := by
  induction hs' generalizing s with
  | here href => cases href.symm.trans h.ref_eq_none
  | inside hmem hleft ih =>
    obtain ⟨ms, hleads, href, hrewritten⟩ := h.exists_object
    have hvisits := visits_of_leadsTo hleads
    obtain ⟨t, ht, hinlines⟩ | ⟨items, xs, hitems, halone, hinlines, hx⟩ :=
      hrewritten.exists_before hmem
    · obtain ⟨u, hu, hborrows⟩ := ih hinlines
      exact ⟨u, (hvisits.tail (.held href ht)).trans hu, hborrows⟩
    · have harray := hinlines.leadsTo_of_ne_object nofun
      exact ⟨.obj ms, hvisits, ms, items, xs, _, rfl, href, hitems, halone, harray, hx, hleft⟩

/-- A reference that is borrowed is left. -/
theorem holdsReference_of_borrowsItems (ht : BorrowsItems root t)
    (hvisits : Relation.ReflTransGen (Visits root) s t) (h : InlinesTo root s s') :
    s'.HoldsReference := by
  induction hvisits using Relation.ReflTransGen.head_induction_on generalizing s' with
  | refl =>
    obtain ⟨ms, items, xs, x, rfl, href, hitems, halone, hleads, hx, hleft⟩ := ht
    obtain ⟨ms', rfl, hrewritten⟩ := h.exists_rewritten href
    have hbecomes := hrewritten.replaced "items" .listOrOne (by decide)
    rw [hitems] at hbecomes
    generalize hitems' : ms'.lookup "items" = o at hbecomes
    cases hbecomes with
    | @some _ items' hbecomes =>
      cases hbecomes with
      | list _ _ => exact absurd rfl (halone _)
      | one _ _ hinlines =>
        obtain rfl := (hinlines.of_leadsTo hleads).eq_of_ne_object nofun
        have hmem : x ∈ Inline.held Inline.positions ms' :=
          Inline.mem_held.mpr ⟨"items", .listOrOne, .arr xs, by decide, hitems', hx⟩
        exact .inside hmem hleft
      | other _ _ hshape => exact absurd hshape (by decide)
  | head hfirst _ ih =>
    cases hfirst with
    | follow hrefers => exact ih (h.of_refersTo hrefers)
    | held href hmem =>
      obtain ⟨ms', rfl, hrewritten⟩ := h.exists_rewritten href
      obtain ⟨u, hinlines, hu | ⟨xs, rfl⟩⟩ := hrewritten.exists_after hmem
      · exact .inside hu (ih hinlines)
      -- an array holds no reference of its own
      · cases ih hinlines

end Json

/-! ## Replacing again -/

namespace Inline

/-- Replacing references in what replacing gave changes nothing, whatever the document and the
references followed before, just when replacing came to no object that borrows its `items`. In a
schema that holds no reference to begin with, nothing is replaced. -/
theorem run_again (schema root : Json) (followed : List String) :
    (∀ result, run schema root followed = .ok result →
      ((∀ root' followed', run result root' followed' = .ok result) ↔
        ∀ s, Relation.ReflTransGen (Json.Visits root) schema s → ¬ Json.BorrowsItems root s)) ∧
    (¬ schema.HoldsReference → run schema root followed = .ok schema) := by
  refine ⟨fun result hresult => ⟨fun hagain s hs hborrows => ?left, fun hnone => ?again⟩,
    fun hschema => run_of_not_holdsReference hschema root followed⟩
  case left =>
    have hleft := Json.holdsReference_of_borrowsItems hborrows hs (.of_descend hresult)
    exact Json.InlinesTo.not_holdsReference (.of_descend (hagain root [])) hleft
  case again =>
    have hclosed : ¬ result.HoldsReference := by
      intro hleft
      obtain ⟨s, hs, hborrows⟩ := Json.exists_borrowsItems hleft (.of_descend hresult)
      exact hnone s hs hborrows
    exact fun root' followed' => run_of_not_holdsReference hclosed root' followed'

/-- A definition of tags. -/
def tag : Json := .obj [("type", .str "string")]

/-- An array of some items, with a definition of tags. Its default looks like a reference. -/
def tagged (items : Json) : Json :=
  .obj [("items", items), ("default", .obj [("$ref", .str "#/nowhere")]),
    ("$defs", .obj [("tag", tag)])]

/-- A reference to the definition of tags. -/
def tagReference : Json := .obj [("$ref", .str "#/$defs/tag")]

theorem eq_of_visits_tagged {s : Json}
    (hs : Relation.ReflTransGen (Json.Visits (tagged tagReference)) (tagged tagReference) s) :
    s = tagged tagReference ∨ s = tagReference ∨ s = tag := by
  have hresolve : Pointer.resolve (.str "#/$defs/tag") (tagged tagReference) = .ok tag := by cbv
  induction hs with
  | refl => exact .inl rfl
  | tail _ hvisits ih =>
    obtain rfl | rfl | rfl := ih <;> obtain ⟨⟨href, hroot, ht⟩⟩ | ⟨href, hheld⟩ := hvisits
    · cases href
    · exact .inr (.inl (List.mem_singleton.mp hheld))
    · cases href
      cases hroot
      exact .inr (.inr (Except.ok.inj (ht.symm.trans hresolve)))
    · cases href
    · cases href
    · cases hheld

/-- Tags are replaced once and for all, and the default is left alone. -/
theorem tagged_again :
    run (tagged tagReference) (tagged tagReference) [] = .ok (tagged tag) ∧
    (∀ root' followed', run (tagged tag) root' followed' = .ok (tagged tag)) ∧
    ¬ tag.HoldsReference ∧ run tag (tagged tagReference) ["#/$defs/tag"] = .ok tag := by
  have hresult : run (tagged tagReference) (tagged tagReference) [] = .ok (tagged tag) := by cbv
  have hnone : ∀ s,
      Relation.ReflTransGen (Json.Visits (tagged tagReference)) (tagged tagReference) s →
        ¬ Json.BorrowsItems (tagged tagReference) s := by
    rintro s hs ⟨ms, items, xs, x, rfl, href, hitems, -, hleads, -⟩
    obtain h | h | h := eq_of_visits_tagged hs <;> cases h
    · cases hitems
      -- no array is among what is visited
      have hitems := hs.tail (.held href (List.mem_singleton_self _))
      obtain h | h | h := eq_of_visits_tagged (hitems.trans (Json.visits_of_leadsTo hleads)) <;>
        cases h
    · cases href
    · cases hitems
  have htag : ¬ tag.HoldsReference := by
    intro h
    cases h with
    | here href => cases href
    | inside hs _ => cases hs
  have hagain := (run_again (tagged tagReference) (tagged tagReference) []).1 _ hresult
  have halone := (run_again tag (tagged tagReference) ["#/$defs/tag"]).2 htag
  exact ⟨hresult, hagain.mpr hnone, htag, halone⟩

/-- A pair of words, and an array of some items. -/
def paired (items : Json) : Json :=
  .obj [("items", items), ("$defs", .obj [("pair", .arr [.obj [("$ref", .str "#/$defs/word")]]),
    ("word", .obj [("type", .str "string")])])]

/-- References in an array that was borrowed are replaced the second time. -/
theorem borrowed_replaced :
    run (paired (.obj [("$ref", .str "#/$defs/pair")])) (paired .null) [] =
      .ok (paired (.arr [.obj [("$ref", .str "#/$defs/word")]])) ∧
    run (paired (.arr [.obj [("$ref", .str "#/$defs/word")]])) (paired .null) [] =
      .ok (paired (.arr [.obj [("type", .str "string")]])) ∧
    paired (.arr [.obj [("type", .str "string")]]) ≠
      paired (.arr [.obj [("$ref", .str "#/$defs/word")]]) :=
  ⟨by cbv, by cbv, by decide⟩

end Inline

end Conform
