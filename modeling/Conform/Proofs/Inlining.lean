import Conform.Proofs.Counterparts
import Conform.Schema.Inline

/-!
# Conform.Proofs.Inlining

A schema before and after its references are replaced. What replacing does to one schema is the
relation `Json.InlinesTo`: a reference becomes what its target becomes, an object keeps its members
but for the keywords of `Inline.positions`, and any other value stays as it is.

Read as a node, the schema afterwards differs from the one before in the schemas inside it only, and
each of those is what replacing makes of its counterpart (`Json.alike_ofMembers_of_inlined`). There
are two exceptions, which matter to evaluation:

```
"dependencies": {"a": schema}    the schema stays as it is
"contains": a reference to null  the keyword is not declared afterwards, and so for each keyword
                                 that holds one schema
```
-/

namespace Conform

/-! ## Replacing references -/

/-- What a schema that is no reference becomes. -/
inductive Json.RewritesTo (root : Json) : Json → Json → Prop where
  | value {s : Json} (h : ∀ ms, s ≠ .obj ms) : RewritesTo root s s
  | object {ms ms' : Members} {fuel : Nat} {followed : List String}
      (href : Table.keyword ms "$ref" = none)
      (h : Inline.keywords (fun j => Inline.descend true root fuel j followed) Inline.positions ms =
        .ok ms') : RewritesTo root (.obj ms) (.obj ms')

/-- What a schema becomes when references into a document are replaced. -/
def Json.InlinesTo (root s s' : Json) : Prop :=
  ∃ leaf, LeadsTo (some root) s leaf ∧ RewritesTo root leaf s'

namespace Json.InlinesTo

variable {root s s' : Json}

theorem of_value (h : ∀ ms, s ≠ .obj ms) : InlinesTo root s s := ⟨s, .refl, .value h⟩

theorem of_descend {fuel : Nat} {followed : List String}
    (h : Inline.descend true root fuel s followed = .ok s') : InlinesTo root s s' := by
  induction fuel generalizing s followed with
  | zero => cases h
  | succ fuel ih =>
    cases s with
    | obj ms =>
      rw [Inline.descend] at h
      cases href : Table.keyword ms "$ref" with
      | none =>
        simp only [href] at h
        cases hms : Inline.keywords (fun j => Inline.descend true root fuel j followed)
            Inline.positions ms with
        | error f => rw [hms] at h; cases h
        | ok ms' =>
          rw [hms] at h
          cases h
          exact ⟨_, .refl, .object href hms⟩
      | some ref =>
        simp only [href] at h
        obtain ⟨_, -, h⟩ := bind_eq_ok h
        obtain ⟨target, htarget, h⟩ := bind_eq_ok h
        obtain ⟨leaf, hleads, hleaf⟩ := ih h
        exact ⟨leaf, .head (.reference href rfl htarget) hleads, hleaf⟩
    | _ =>
      cases h
      exact of_value nofun

theorem of_inlined (h : inlined s root = .ok s') : InlinesTo root s s' := of_descend h

/-- Only objects are replaced. -/
theorem eq_of_ne_object (h : InlinesTo root s s') (hs : ∀ ms, s ≠ .obj ms) : s' = s := by
  obtain ⟨leaf, hleads, hleaf⟩ := h
  obtain rfl | ⟨_, hrefers, -⟩ := Relation.ReflTransGen.cases_head hleads
  · cases hleaf with
    | value _ => rfl
    | object _ _ => exact absurd rfl (hs _)
  · cases hrefers
    exact absurd rfl (hs _)

/-- What a schema becomes, if that is no object, is what its references lead to. -/
theorem leadsTo_of_ne_object (h : InlinesTo root s s') (hs' : ∀ ms, s' ≠ .obj ms) :
    LeadsTo (some root) s s' := by
  obtain ⟨leaf, hleads, hleaf⟩ := h
  cases hleaf with
  | value _ => exact hleads
  | object _ _ => exact absurd rfl (hs' _)

end Json.InlinesTo

/-! ## The keywords of an object, before and after -/

namespace Inline

variable {R : Json → Json → Prop} {f : Json → Except Fault Json}

/-- What becomes of the value of a keyword whose schemas are replaced. -/
inductive Shape.Becomes (R : Json → Json → Prop) : Shape → Json → Json → Prop where
  | table {es es' : Members} (h : Table.Related R es es') : Becomes R .table (.obj es) (.obj es')
  | list {shape : Shape} {xs xs' : List Json} (hshape : shape = .list ∨ shape = .listOrOne)
      (h : List.Forall₂ R xs xs') : Becomes R shape (.arr xs) (.arr xs')
  | one {shape : Shape} {s s' : Json} (hshape : shape = .one ∨ shape = .listOrOne)
      (hlist : shape = .listOrOne → ∀ xs, s ≠ .arr xs) (h : R s s') : Becomes R shape s s'
  | other {shape : Shape} {j : Json} (htable : shape = .table → ∀ es, j ≠ .obj es)
      (hlist : shape = .list → ∀ xs, j ≠ .arr xs) (hshape : shape = .table ∨ shape = .list) :
      Becomes R shape j j

/-- The value of a keyword that holds one schema. -/
theorem Shape.Becomes.of_one {j j' : Json} (h : Becomes R .one j j') : R j j' := by
  cases h with
  | list hshape _ => exact absurd hshape (by decide)
  | one _ _ h => exact h
  | other _ _ hshape => exact absurd hshape (by decide)

/-- The value of a keyword that holds schemas by name. -/
theorem Shape.Becomes.of_table {j j' : Json} (h : Becomes R .table j j') :
    (∃ es es', j = .obj es ∧ j' = .obj es' ∧ Table.Related R es es') ∨
      j' = j ∧ ∀ es, j ≠ .obj es := by
  cases h with
  | table h => exact .inl ⟨_, _, rfl, rfl, h⟩
  | list hshape _ => exact absurd hshape (by decide)
  | one hshape _ _ => exact absurd hshape (by decide)
  | other htable _ _ => exact .inr ⟨rfl, htable rfl⟩

/-- The value of a keyword that holds a list of schemas. -/
theorem Shape.Becomes.of_list {j j' : Json} (h : Becomes R .list j j') :
    (∃ xs xs', j = .arr xs ∧ j' = .arr xs' ∧ List.Forall₂ R xs xs') ∨
      j' = j ∧ ∀ xs, j ≠ .arr xs := by
  cases h with
  | list _ h => exact .inl ⟨_, _, rfl, rfl, h⟩
  | one hshape _ _ => exact absurd hshape (by decide)
  | other _ hlist _ => exact .inr ⟨rfl, hlist rfl⟩

theorem forall₂_of_items {xs ys : List Json} (h : items f xs = .ok ys) :
    List.Forall₂ (fun x y => f x = .ok y) xs ys := by
  induction xs generalizing ys with
  | nil =>
    cases h
    exact .nil
  | cons x xs ih =>
    obtain ⟨y, hy, h⟩ := bind_eq_ok h
    obtain ⟨ys', hys, h⟩ := bind_eq_ok h
    cases h
    exact .cons hy (ih hys)

theorem related_of_members {ms ms' : Members} (h : members f ms = .ok ms') :
    Table.Related (fun x y => f x = .ok y) ms ms' := by
  induction ms generalizing ms' with
  | nil =>
    cases h
    exact .nil
  | cons m ms ih =>
    obtain ⟨k, x⟩ := m
    obtain ⟨y, hy, h⟩ := bind_eq_ok h
    obtain ⟨ys, hys, h⟩ := bind_eq_ok h
    cases h
    exact .cons ⟨rfl, hy⟩ (ih hys)

theorem Shape.becomes_of_replace (hf : ∀ s s', f s = .ok s' → R s s') {shape : Shape} {j j' : Json}
    (h : shape.replace f j = .ok j') : shape.Becomes R j j' := by
  have hitems : ∀ {xs : List Json}, (items f xs).map Json.arr = .ok j' →
      shape = .list ∨ shape = .listOrOne → shape.Becomes R (.arr xs) j' := by
    intro xs h hshape
    cases hxs : items f xs with
    | error e => rw [hxs] at h; cases h
    | ok ys =>
      rw [hxs] at h
      cases h
      exact .list hshape ((forall₂_of_items hxs).imp hf)
  unfold Shape.replace at h
  split at h
  · next es =>
    cases hes : members f es with
    | error e => rw [hes] at h; cases h
    | ok es' =>
      rw [hes] at h
      cases h
      exact .table ((related_of_members hes).imp fun _ _ he => ⟨he.1, hf _ _ he.2⟩)
  · exact hitems h (.inl rfl)
  · exact hitems h (.inr rfl)
  · next hlist => exact .one (.inr rfl) (fun _ xs hxs => hlist xs hxs) (hf _ _ h)
  · exact .one (.inl rfl) nofun (hf _ _ h)
  · next hboth hone htable hlist _ =>
    cases h
    refine .other (fun heq es hes => htable es heq hes) (fun heq xs hxs => hlist xs heq hxs) ?_
    cases shape with
    | table => exact .inl rfl
    | list => exact .inr rfl
    | listOrOne => exact absurd rfl hboth
    | one => exact absurd rfl hone

/-- The members of an object, before and after the schemas that its keywords hold are replaced. -/
structure Rewritten (R : Json → Json → Prop) (ms ms' : Members) : Prop where
  kept : ∀ k, k ∉ positions.map Prod.fst → ms'.lookup k = ms.lookup k
  replaced : ∀ k shape, (k, shape) ∈ positions →
    Option.Rel (shape.Becomes R) (ms.lookup k) (ms'.lookup k)

theorem lookup_keywords_of_not_mem {shapes : Table Shape} {ms ms' : Members}
    (h : keywords f shapes ms = .ok ms') {k : String} (hk : k ∉ shapes.map Prod.fst) :
    ms'.lookup k = ms.lookup k := by
  induction shapes generalizing ms with
  | nil =>
    cases h
    rfl
  | cons e shapes ih =>
    obtain ⟨l, shape⟩ := e
    rw [List.map_cons, List.mem_cons, not_or] at hk
    rw [keywords] at h
    split at h
    · exact ih h hk.2
    · obtain ⟨j', -, h⟩ := bind_eq_ok h
      rw [ih h hk.2, Table.lookup_put_of_ne hk.1]

theorem lookup_keywords (hf : ∀ s s', f s = .ok s' → R s s') {shapes : Table Shape}
    {ms ms' : Members} (h : keywords f shapes ms = .ok ms') (hnodup : (shapes.map Prod.fst).Nodup)
    {k : String} {shape : Shape} (hk : (k, shape) ∈ shapes) :
    Option.Rel (shape.Becomes R) (ms.lookup k) (ms'.lookup k) := by
  induction shapes generalizing ms with
  | nil => cases hk
  | cons e shapes ih =>
    obtain ⟨l, shape'⟩ := e
    rw [List.map_cons, List.nodup_cons] at hnodup
    rw [keywords] at h
    obtain hk | hk := List.mem_cons.mp hk
    · cases hk
      split at h
      · next hnone =>
        rw [lookup_keywords_of_not_mem h hnodup.1, hnone]
        exact .none
      · next j hsome =>
        obtain ⟨j', hj', h⟩ := bind_eq_ok h
        rw [lookup_keywords_of_not_mem h hnodup.1, hsome, Table.lookup_put_self]
        exact .some (Shape.becomes_of_replace hf hj')
    · have hne : k ≠ l := by
        intro heq
        exact hnodup.1 (List.mem_map.mpr ⟨_, hk, heq⟩)
      split at h
      · exact ih h hnodup.2 hk
      · obtain ⟨j', -, h⟩ := bind_eq_ok h
        have hput := ih h hnodup.2 hk
        rw [Table.lookup_put_of_ne hne] at hput
        exact hput

theorem rewritten_of_keywords (hf : ∀ s s', f s = .ok s' → R s s') {ms ms' : Members}
    (h : keywords f positions ms = .ok ms') : Rewritten R ms ms' where
  kept _ hk := lookup_keywords_of_not_mem h hk
  replaced _ _ hk := lookup_keywords hf h (by decide) hk

end Inline

theorem Table.keyword_congr {ms ms' : Members} {k : String} (h : ms'.lookup k = ms.lookup k) :
    Table.keyword ms' k = Table.keyword ms k := by
  rw [Table.keyword, Table.keyword, h]

/-- No reference is left in the place of a schema. -/
theorem Json.InlinesTo.ref_eq_none {root s : Json} {ms' : Members}
    (h : InlinesTo root s (.obj ms')) :
    Table.keyword ms' "$ref" = none := by
  obtain ⟨leaf, -, hleaf⟩ := h
  cases hleaf with
  | value h => exact absurd rfl (h _)
  | object href h =>
    rw [Table.keyword_congr (Inline.lookup_keywords_of_not_mem h (by decide)), href]

/-! ## The node, before and after -/

/-- A schema among the dependencies of an object, in the spelling that mixes them with demands. -/
def Node.HasDependency (ms : Members) (s : Json) : Prop :=
  ∃ es trigger, ms.lookup "dependencies" = some (.obj es) ∧ (trigger, s) ∈ es ∧
    ∀ xs, s ≠ .arr xs

namespace Inline.Rewritten

variable {R D : Json → Json → Prop} {ms ms' : Members} {k : String}

theorem keyword_eq (h : Rewritten R ms ms') (hk : k ∉ positions.map Prod.fst) :
    Table.keyword ms' k = Table.keyword ms k :=
  Table.keyword_congr (h.kept k hk)

/-- A keyword that holds one schema. -/
theorem optional_keyword (h : Rewritten R ms ms') (hnull : ∀ s, R .null s → s = .null)
    (hk : (k, .one) ∈ positions) : Optional R (Table.keyword ms k) (Table.keyword ms' k) := by
  have hlookup := h.replaced k .one hk
  unfold Table.keyword
  generalize ms.lookup k = o at hlookup ⊢
  generalize ms'.lookup k = o' at hlookup ⊢
  cases hlookup with
  | none => exact .none
  | @some j j' hbecomes =>
    have hj := hbecomes.of_one
    cases j with
    | null =>
      obtain rfl := hnull _ hj
      exact .none
    | _ =>
      cases j' with
      | null => exact .dropped hj
      | _ => exact .some hj

theorem itemsRelated (h : Rewritten R ms ms') (hnull : ∀ s, R .null s → s = .null) :
    ItemsRelated R (Table.keyword ms "items") (Table.keyword ms' "items") := by
  have hlookup := h.replaced "items" .listOrOne (by decide)
  unfold Table.keyword
  generalize ms.lookup "items" = o at hlookup ⊢
  generalize ms'.lookup "items" = o' at hlookup ⊢
  cases hlookup with
  | none => exact .alone nofun .none
  | @some j j' hbecomes =>
    cases hbecomes with
    | list _ h => exact .list h
    | other _ _ hshape => exact absurd hshape (by decide)
    | one _ hlist hj =>
      cases j with
      | null =>
        obtain rfl := hnull _ hj
        exact .alone nofun .none
      | arr xs => exact absurd rfl (hlist rfl xs)
      | _ =>
        cases j' with
        | null => exact .alone nofun (.dropped hj)
        | _ => exact .alone nofun (.some hj)

/-- A keyword that holds schemas by name. -/
theorem related_schemasOf (h : Rewritten R ms ms') (hk : (k, .table) ∈ positions) :
    Table.Related R (Node.schemasOf ms k) (Node.schemasOf ms' k) := by
  have hlookup := h.replaced k .table hk
  unfold Node.schemasOf
  generalize ms.lookup k = o at hlookup ⊢
  generalize ms'.lookup k = o' at hlookup ⊢
  cases hlookup with
  | none => exact .nil
  | @some j j' hbecomes =>
    obtain ⟨es, es', rfl, rfl, h⟩ | ⟨rfl, hother⟩ := hbecomes.of_table
    · exact h
    · cases j' with
      | obj es => exact absurd rfl (hother es)
      | _ => exact .nil

/-- A keyword that holds a list of schemas. What is no list in it is not replaced. -/
theorem alike_listKeyword (h : Rewritten R ms ms') (htext : ∀ t, R (.str t) (.str t))
    (hk : (k, .list) ∈ positions) :
    Alike (Option.Rel (List.Forall₂ R)) (Node.listKeyword ms k) (Node.listKeyword ms' k) := by
  have hlookup := h.replaced k .list hk
  unfold Node.listKeyword Table.keyword
  generalize ms.lookup k = o at hlookup ⊢
  generalize ms'.lookup k = o' at hlookup ⊢
  cases hlookup with
  | none => exact .ok .none
  | @some j j' hbecomes =>
    obtain ⟨xs, xs', rfl, rfl, h⟩ | ⟨rfl, hother⟩ := hbecomes.of_list
    · exact .ok (.some h)
    · cases j' with
      | arr xs => exact absurd rfl (hother xs)
      -- names and characters are read as schemas here, and stay what they are
      | obj es =>
        refine .ok (.some (List.forall₂_same.mpr fun x hx => ?_))
        obtain ⟨m, -, rfl⟩ := List.mem_map.mp hx
        exact htext _
      | str t =>
        refine .ok (.some (List.forall₂_same.mpr fun x hx => ?_))
        obtain ⟨c, -, rfl⟩ := List.mem_map.mp hx
        exact htext _
      | null => exact .ok .none
      | _ => exact .error _

/-- A keyword for dependencies that holds schemas only. -/
theorem alike_optionalMembers (h : Rewritten R ms ms') (hk : (k, .table) ∈ positions) :
    Alike (Table.Related R) ((ms.lookup k).getD .null).optionalMembers
      ((ms'.lookup k).getD .null).optionalMembers := by
  have hlookup := h.replaced k .table hk
  generalize ms.lookup k = o at hlookup ⊢
  generalize ms'.lookup k = o' at hlookup ⊢
  cases hlookup with
  | none => exact .ok .nil
  | @some j j' hbecomes =>
    rw [Option.getD_some, Option.getD_some]
    obtain ⟨es, es', rfl, rfl, h⟩ | ⟨rfl, hother⟩ := hbecomes.of_table
    · cases h with
      | nil => exact .ok .nil
      | cons he hes => exact .ok (.cons he hes)
    · cases j' with
      | obj es => exact absurd rfl (hother es)
      | _ =>
        unfold Json.optionalMembers
        split
        · exact .ok .nil
        · exact .error _

theorem related_foldl_put {schemas schemas' more more' : Members}
    (h : Table.Related D schemas schemas') (hmore : Table.Related D more more') :
    Table.Related D (more.foldl (fun t m => Table.put t m.1 m.2) schemas)
      (more'.foldl (fun t m => Table.put t m.1 m.2) schemas') := by
  induction hmore generalizing schemas schemas' with
  | nil => exact h
  | @cons e e' more more' he _ ih =>
    obtain ⟨k, s⟩ := e
    obtain ⟨k', s'⟩ := e'
    obtain ⟨rfl, hs⟩ : k = k' ∧ D s s' := he
    exact ih (h.put hs)

/-- Dependencies of either spelling. The schemas in `dependencies` are not replaced. -/
theorem alike_dependenciesOf (h : Rewritten R ms ms') (hRD : ∀ s s', R s s' → D s s')
    (hD : ∀ s, Node.HasDependency ms s → D s s) :
    Alike (fun x y => y.1 = x.1 ∧ Table.Related D x.2 y.2) (Node.dependenciesOf ms)
      (Node.dependenciesOf ms') := by
  unfold Node.dependenciesOf
  rw [h.kept "dependencies" (by decide), h.kept "dependentRequired" (by decide)]
  -- an entry is needed to tell that there is such a keyword: without one nothing is looked at
  have hmixed : Alike (fun x y => y = x ∧ ∀ e ∈ x, ms.lookup "dependencies" = some (.obj x))
      ((ms.lookup "dependencies").getD .null).optionalMembers
      ((ms.lookup "dependencies").getD .null).optionalMembers := by
    cases hr : ((ms.lookup "dependencies").getD .null).optionalMembers with
    | error f => exact .error f
    | ok es => exact .ok ⟨rfl, fun e he => Json.lookup_of_optionalMembers hr he⟩
  refine hmixed.bind ?_
  rintro _ mixed ⟨rfl, hmixed⟩
  have hleft : Table.Related D (Node.splitDependencies mixed [] []).2
      (Node.splitDependencies mixed [] []).2 := by
    refine List.forall₂_same.mpr fun e he => ⟨rfl, hD e.2 ?_⟩
    obtain ⟨he, hlist⟩ | he := Node.mem_splitDependencies he
    · exact ⟨mixed, e.1, hmixed e he, he, hlist⟩
    · cases he
  refine .bind_same _ fun entries => ?_
  refine .bind_same _ fun demands => ?_
  have hmore := h.alike_optionalMembers (k := "dependentSchemas") (by decide)
  refine hmore.bind fun more more' hmore => ?_
  exact .ok ⟨rfl, related_foldl_put hleft (hmore.imp fun _ _ he => ⟨he.1, hRD _ _ he.2⟩)⟩

/-- The node of an object, before and after. -/
theorem alike_ofMembers (h : Rewritten R ms ms') (hnull : ∀ s, R .null s → s = .null)
    (htext : ∀ t, R (.str t) (.str t)) :
    Alike (Node.Related R fun s s' => R s s' ∨ s' = s ∧ Node.HasDependency ms s)
      (Node.ofMembers ms) (Node.ofMembers ms') := by
  have htypes : Node.typesOf ms' = Node.typesOf ms := by
    rw [Node.typesOf, Node.typesOf, h.keyword_eq (by decide)]
  have henum : Node.listKeyword ms' "enum" = Node.listKeyword ms "enum" := by
    rw [Node.listKeyword, Node.listKeyword, h.keyword_eq (by decide)]
  have hrequired : Node.requiredOf ms' = Node.requiredOf ms := by
    rw [Node.requiredOf, Node.requiredOf, h.kept "required" (by decide)]
  unfold Node.ofMembers
  rw [htypes, henum, hrequired]
  have hdependencies := h.alike_dependenciesOf
    (D := fun s s' => R s s' ∨ s' = s ∧ Node.HasDependency ms s) (fun _ _ => .inl)
    fun s hs => .inr ⟨rfl, hs⟩
  refine hdependencies.bind ?_
  rintro ⟨demands, schemas⟩ ⟨_, schemas'⟩ ⟨rfl, hschemas⟩
  refine .bind_same _ fun types => ?_
  refine .bind_same _ fun enum => ?_
  refine .bind_same _ fun required => ?_
  refine (h.alike_listKeyword htext (k := "allOf") (by decide)).bind fun allOf allOf' hall => ?_
  refine (h.alike_listKeyword htext (k := "anyOf") (by decide)).bind fun anyOf anyOf' hany => ?_
  refine (h.alike_listKeyword htext (k := "oneOf") (by decide)).bind fun oneOf oneOf' hone => ?_
  exact .ok {
    types := rfl
    const := by dsimp only; rw [h.kept "const" (by decide)]
    enum := rfl
    string := by
      dsimp only [Node.stringOf]
      iterate 6 rw [h.keyword_eq (by decide)]
    number := by
      dsimp only [Node.numberOf]
      iterate 5 rw [h.keyword_eq (by decide)]
    minItems := h.keyword_eq (by decide)
    maxItems := h.keyword_eq (by decide)
    uniqueItems := by dsimp only [Node.arrayOf]; rw [h.kept "uniqueItems" (by decide)]
    items := h.itemsRelated hnull
    additionalItems := h.optional_keyword hnull (by decide)
    contains := h.optional_keyword hnull (by decide)
    minProperties := h.keyword_eq (by decide)
    maxProperties := h.keyword_eq (by decide)
    required := rfl
    properties := h.related_schemasOf (by decide)
    patternProperties := h.related_schemasOf (by decide)
    additionalProperties := h.optional_keyword hnull (by decide)
    propertyNames := h.optional_keyword hnull (by decide)
    dependentRequired := rfl
    dependentSchemas := hschemas
    allOf := hall
    anyOf := hany
    oneOf := hone
    not := h.optional_keyword hnull (by decide)
    test := h.optional_keyword hnull (by decide)
    accepted := h.optional_keyword hnull (by decide)
    rejected := h.optional_keyword hnull (by decide) }

end Inline.Rewritten

/-- The node of a schema that is replaced, before and after. -/
theorem Json.alike_ofMembers_of_inlined {root : Json} {ms ms' : Members} {fuel : Nat}
    {followed : List String}
    (h : Inline.keywords (fun j => Inline.descend true root fuel j followed) Inline.positions ms =
      .ok ms') :
    Alike (Node.Related (InlinesTo root) fun s s' =>
      InlinesTo root s s' ∨ s' = s ∧ Node.HasDependency ms s)
      (Node.ofMembers ms) (Node.ofMembers ms') :=
  (Inline.rewritten_of_keywords (fun _ _ => InlinesTo.of_descend) h).alike_ofMembers
    (fun _ hs => hs.eq_of_ne_object nofun) fun _ => .of_value nofun

end Conform
