import Conform.Proofs.FlattenedTypes
import Conform.Proofs.RequiredFields

/-!
# Conform.Proofs.FieldOrder

In what order fields stand. Flattening goes through the sites in depth, so a field is followed at
once by all that is made below it, in one block:

```
u             an object or an array
u.a           a property of it
u.*           the members that a pattern names
u[*]          its items, arrays themselves
u[*][*]       the items of these
w             no longer below u
```

A `Walk` lists the fields of sites in this order, each with the site it is made at. Read at one of
its fields (`Walk.split`), it says that the field heads a block, and that a field which is made at
none of the first sites stands in the block of an earlier one that it lies under (`Under`).
-/

namespace Conform

/-! ## Types of parents -/

namespace Typing

/-- A base type is that of a field or one of its alternatives. -/
def Allows (t : Typing) (b : BaseType) : Prop := b = t.type ∨ b ∈ t.alternatives.getD []

/-- Of declared types, whatever else is among them, each name stands for one of the base types. -/
theorem mem_of_different {types : List Json} {before found : List BaseType}
    (h : different types before = .ok found) :
    before ⊆ found ∧
      ∀ name, Json.str name ∈ types → name ≠ "null" → baseType name ∈ found := by
  induction types generalizing before with
  | nil =>
    cases h
    exact ⟨List.Subset.refl _, fun _ hname => absurd hname List.not_mem_nil⟩
  | cons j types ih =>
    by_cases hskip : j = .str "null"
    · subst hskip
      rw [different] at h
      obtain ⟨hbefore, hnames⟩ := ih h
      refine ⟨hbefore, fun name hname hnull => ?_⟩
      obtain heq | hname := List.mem_cons.mp hname
      · exact absurd (Json.str.inj heq) hnull
      · exact hnames name hname hnull
    · rw [different] at h
      · obtain ⟨t, ht, h⟩ := bind_eq_ok h
        obtain ⟨hbefore, hnames⟩ := ih h
        have hgrown : ∀ b, b ∈ before ∨ b = t → b ∈ found := by
          intro b hb
          refine hbefore ?_
          split
          · next hfound => exact hb.elim id fun heq => heq ▸ List.contains_iff_mem.mp hfound
          · exact List.mem_append.mpr (hb.imp id List.mem_singleton.mpr)
        refine ⟨fun b hb => hgrown b (.inl hb), fun name hname hnull => ?_⟩
        obtain rfl | hname := List.mem_cons.mp hname
        · cases ht
          exact hgrown _ (.inr rfl)
        · exact hnames name hname hnull
      · exact hskip

/-- A field is of each base type that a declared name stands for. -/
theorem allows_of_declares {n : Node} {typing : Typing} (h : ofNode n = .ok typing) {name : String}
    (hname : name ≠ "null") (hdeclares : n.declares name = true) :
    typing.Allows (baseType name) := by
  unfold Node.declares at hdeclares
  split at hdeclares
  · next types htypes =>
    rw [ofNode, htypes] at h
    cases hfound : different types [] with
    | error f =>
      simp only [hfound] at h
      cases h
    | ok found =>
      simp only [hfound] at h
      cases h
      have hmem := (mem_of_different hfound).2 name (List.contains_iff_mem.mp hdeclares) hname
      exact (mem_ofBaseTypes (List.ne_nil_of_mem hmem) _ _).mpr hmem
  · cases hdeclares

end Typing

namespace Field

/-! ## Places below a field -/

/-- A place among the members of an object: that of a property, or the one for all members that
patterns name. -/
inductive MemberAt (n : Node) (above : String) : String → Prop where
  | property {name : String} {schema : Json} (h : (name, schema) ∈ n.object.properties) :
      MemberAt n above (Path.name above name)
  | pattern {regex : String} {schema : Json} (h : (regex, schema) ∈ n.object.patternProperties) :
      MemberAt n above (Path.name above "*")

/-- A field lies under that of a node: as a member of an object or as the items of an array. -/
inductive Under (n : Node) (parent f : Field) : Prop where
  | member (hobject : parent.typing.Allows .object) (h : MemberAt n parent.path f.path)
  | item {schema : Json} (harray : parent.typing.Allows .array)
      (hitems : n.array.items = some schema) (h : f.path = parent.path ++ "[*]")

variable {document : Option Json} {s t : Site} {f g : Field}

theorem Site.Stands.memberAt (h : s.Stands) (hrole : s.role ≠ .item) :
    MemberAt s.parent s.above s.path := by
  obtain ⟨-, hin⟩ := h
  unfold Site.path
  cases hcase : s.role with
  | property =>
    rw [hcase] at hin
    exact .property hin
  | pattern =>
    rw [hcase] at hin
    exact .pattern hin
  | item => exact absurd hcase hrole

/-- The sites of members are properties and patterns. -/
theorem role_of_mem_memberSites {n : Node} {path : String} {followed : List String}
    (h : s ∈ memberSites n path followed) : s.role ≠ .item := by
  obtain h | h := List.mem_append.mp h
  all_goals
    obtain ⟨e, -, rfl⟩ := List.mem_map.mp h
    exact nofun

/-- A node has sites of members if it is declared an object, and one of items if it is declared an
array. -/
theorem declares_of_mem_childSites {n : Node} {name path : String} {followed : List String}
    (h : s ∈ childSites n name path followed) :
    s.role ≠ .item ∧ n.declares "object" = true ∨
      s.role = .item ∧ n.declares "array" = true := by
  obtain h | h := List.mem_append.mp h
  · cases hobject : n.declares "object" with
    | false => simp [hobject] at h
    | true =>
      rw [hobject] at h
      exact .inl ⟨role_of_mem_memberSites h, rfl⟩
  · cases harray : n.declares "array" with
    | false => simp [harray] at h
    | true =>
      rw [harray] at h
      obtain ⟨schema, -, rfl⟩ := List.mem_map.mp h
      exact .inr ⟨rfl, rfl⟩

/-- A field made at a site below that of another field lies under this one. -/
theorem under_of_mem_below (hs : s.Makes document g) (ht : t ∈ s.below document)
    (hf : t.Makes document f) :
    ∃ n chain, s.expansion document = some (n, chain) ∧ Under n g f := by
  unfold Site.below at ht
  cases hexpansion : s.expansion document with
  | none =>
    rw [hexpansion] at ht
    cases ht
  | some e =>
    obtain ⟨n, chain⟩ := e
    rw [hexpansion] at ht
    refine ⟨n, chain, rfl, ?_⟩
    obtain ⟨rfl, habove, -, hstands⟩ := below_of_mem_childSites ht
    have hplace : g.path = t.above := hs.path_eq.trans habove.symm
    -- the field and what is below it are made of one node
    obtain ⟨ms, chain', n', hsettle, hn', hfield⟩ := hs
    obtain ⟨ms', hsettle', hn, -⟩ := Site.expansion_eq_some hexpansion
    cases hsettle.symm.trans hsettle'
    cases hn'.symm.trans hn
    obtain ⟨typing, htyping, hg⟩ := ofNode_eq_ok hfield
    have htypes : g.typing = typing := by rw [hg]
    obtain ⟨hrole, hobject⟩ | ⟨hrole, harray⟩ := declares_of_mem_childSites ht
    · refine .member ?_ ?_
      · rw [htypes]
        exact Typing.allows_of_declares htyping (by decide) hobject
      · rw [hf.path_eq, hplace]
        exact hstands.memberAt hrole
    · obtain ⟨-, hin⟩ := hstands
      rw [hrole] at hin
      refine .item ?_ hin ?_
      · rw [htypes]
        exact Typing.allows_of_declares htyping (by decide) harray
      · rw [hf.path_eq, hplace, Site.path, hrole]

/-! ## Walks -/

/-- The fields of sites in depth, each with its site. What is read at a site is its field and then
what the walk lists below. -/
inductive Walk (document : Option Json) (read : Site → Except Fault (List Field)) :
    List Site → List (Site × Field) → Prop where
  | nil : Walk document read [] []
  | bare {s : Site} {ss : List Site} {made : List (Site × Field)} (hread : read s = .ok [])
      (hrest : Walk document read ss made) : Walk document read (s :: ss) made
  | field {s : Site} {f : Field} {ss : List Site} {below rest : List (Site × Field)}
      (hmakes : s.Makes document f) (hread : read s = .ok (f :: below.map Prod.snd))
      (hbelow : Walk document read (s.below document) below)
      (hrest : Walk document read ss rest) :
      Walk document read (s :: ss) ((s, f) :: (below ++ rest))

namespace Walk

variable {read : Site → Except Fault (List Field)} {first ss ts : List Site}
  {made made' before after : List (Site × Field)} {fields : List Field}

theorem append (h : Walk document read ss made) (h' : Walk document read ts made') :
    Walk document read (ss ++ ts) (made ++ made') := by
  induction h with
  | nil => exact h'
  | bare hread _ ih => exact .bare hread ih
  | field hmakes hread hbelow _ _ ih =>
    rw [List.cons_append, List.cons_append, List.append_assoc]
    exact .field hmakes hread hbelow ih

/-- Sites have a walk if each of them has one. -/
theorem ofSites (hread : ∀ s ∈ ss, ∀ here, read s = .ok here →
      ∃ made, Walk document read [s] made ∧ made.map Prod.snd = here)
    (h : ofSites read ss = .ok fields) :
    ∃ made, Walk document read ss made ∧ made.map Prod.snd = fields := by
  induction ss generalizing fields with
  | nil =>
    cases h
    exact ⟨[], .nil, rfl⟩
  | cons s ss ih =>
    obtain ⟨hs, hss⟩ := List.forall_mem_cons.mp hread
    obtain ⟨here, hhere, h⟩ := bind_eq_ok h
    obtain ⟨rest, hrest, h⟩ := bind_eq_ok h
    cases h
    obtain ⟨made, hwalk, rfl⟩ := hs here hhere
    obtain ⟨made', hwalk', rfl⟩ := ih hss hrest
    exact ⟨made ++ made', hwalk.append hwalk', List.map_append⟩

/-- In two lists one behind the other an element stands in the first or in the second. -/
theorem split_append {α : Type} {xs ys before after : List α} {x : α}
    (h : xs ++ ys = before ++ x :: after) :
    (∃ more, xs = before ++ x :: more ∧ after = more ++ ys) ∨
      ∃ more, before = xs ++ more ∧ ys = more ++ x :: after := by
  obtain ⟨more, hbefore, hys⟩ | ⟨more, hxs, hbehind⟩ := List.append_eq_append_iff.mp h
  · exact .inr ⟨more, hbefore, hys⟩
  · obtain ⟨rfl, hys⟩ | ⟨rest, rfl, hafter⟩ := List.cons_eq_append_iff.mp hbehind
    · exact .inr ⟨[], by simpa using hxs.symm, hys⟩
    · exact .inl ⟨rest, hxs, hafter⟩

/-- A field of a walk is made at its site and heads a block of its own; and the site is one of the
first, or the field stands in the block of an earlier one, at a site below this one's. -/
theorem split (h : Walk document read first made) (hmade : made = before ++ (s, f) :: after) :
    s.Makes document f ∧
      (∃ below rest, after = below ++ rest ∧ read s = .ok (f :: below.map Prod.snd)) ∧
      (s ∈ first ∨ ∃ earlier u g between below rest,
        before = earlier ++ (u, g) :: between ∧ after = below ++ rest ∧
        u.Makes document g ∧ s ∈ u.below document ∧
        read u = .ok (g :: (between ++ (s, f) :: below).map Prod.snd)) := by
  induction h generalizing before after with
  | nil => simp at hmade
  | bare _ _ ih =>
    obtain ⟨hmakes, hblock, hparent⟩ := ih hmade
    exact ⟨hmakes, hblock, hparent.imp (List.mem_cons_of_mem _) id⟩
  | @field t g ss below rest hmakes hread _ _ ihbelow ihrest =>
    obtain ⟨rfl, hhere⟩ | ⟨before, rfl, hbehind⟩ := List.cons_eq_append_iff.mp hmade
    · cases hhere
      exact ⟨hmakes, ⟨below, rest, rfl, hread⟩, .inl List.mem_cons_self⟩
    obtain ⟨more, rfl, rfl⟩ | ⟨before, rfl, rfl⟩ := split_append hbehind
    · obtain ⟨hmakes', ⟨below', rest', rfl, hread'⟩, hparent⟩ := ihbelow rfl
      refine ⟨hmakes', ⟨below', rest' ++ rest, List.append_assoc _ _ _, hread'⟩, .inr ?_⟩
      obtain hfirst | ⟨earlier, u, g', between, further, rest'', rfl, hafter, hu, hbelow,
        hread''⟩ := hparent
      · exact ⟨[], t, g, before, below' ++ rest', rest, rfl, rfl, hmakes, hfirst, hread⟩
      · exact ⟨(t, g) :: earlier, u, g', between, further, rest'' ++ rest, rfl,
          by rw [hafter, List.append_assoc], hu, hbelow, hread''⟩
    · obtain ⟨hmakes', hblock, hparent⟩ := ihrest rfl
      refine ⟨hmakes', hblock, ?_⟩
      obtain hfirst | ⟨earlier, u, g', between, further, rest', rfl, hafter, hu, hbelow, hread'⟩ :=
        hparent
      · exact .inl (List.mem_cons_of_mem _ hfirst)
      · exact .inr ⟨(t, g) :: (below ++ earlier), u, g', between, further, rest',
          by simp, hafter, hu, hbelow, hread'⟩

end Walk

/-! ## Documents -/

section

variable {schema : Json} {path : String} {given : Option Json} {up : List Site}
  {fields here : List Field}

/-- What flattening gives for a site on a branch is a walk. -/
theorem exists_walk (hs : Branches schema path given s up)
    (hhere : readSite schema given s = .ok here) :
    ∃ made, Walk (Pointer.document schema given) (readSite schema given) [s] made ∧
      made.map Prod.snd = here := by
  -- a branch is no longer than schemas can be met one inside the other
  obtain ⟨k, hk⟩ : ∃ k, Pointer.reach schema (Pointer.document schema given) ≤ up.length + k :=
    ⟨_, Nat.le_add_left _ _⟩
  induction k generalizing s up here with
  | zero =>
    have hle := hs.sound.2.1
    omega
  | succ k ih =>
    have hread := hhere
    rw [hs.readSite_eq] at hread
    obtain ⟨own, hown, hread⟩ := bind_eq_ok hread
    obtain ⟨rest, hrest, hread⟩ := bind_eq_ok hread
    cases hread
    obtain ⟨made, hwalk, rfl⟩ : ∃ made, Walk (Pointer.document schema given)
        (readSite schema given) (s.below _) made ∧ made.map Prod.snd = rest :=
      Walk.ofSites
        (fun t ht there hthere => ih (hs.down ht) hthere (by rw [List.length_cons]; omega)) hrest
    obtain ⟨f, rfl, hmakes⟩ | ⟨rfl, leaf, chain, hsettle, hleaf⟩ := Site.own_cases hown
    · refine ⟨(s, f) :: (made ++ []), .field hmakes hhere hwalk .nil, ?_⟩
      rw [List.append_nil]
      rfl
    · have hnothing : s.below (Pointer.document schema given) = [] := by
        rw [Site.below, Site.expansion, hsettle]
        cases leaf with
        | obj ms => cases hleaf
        | _ => rfl
      rw [hnothing] at hwalk
      cases hwalk
      exact ⟨[], .bare hhere .nil, rfl⟩

/-- How a field stands among those made at sites. All that is made below it follows at once. It is a
member of the document, or stands among what is made below an earlier field that it lies under. -/
structure Connected (schema : Json) (path : String) (given : Option Json)
    (before : List (Site × Field)) (s : Site) (f : Field) (after : List (Site × Field)) :
    Prop where
  block : ∃ below rest, after = below ++ rest ∧
    readSite schema given s = .ok (f :: below.map Prod.snd)
  parent : (∃ n chain, expansion schema path given = some (n, chain) ∧ MemberAt n path f.path) ∨
    ∃ earlier u g between below rest n chain,
      before = earlier ++ (u, g) :: between ∧ after = below ++ rest ∧
      readSite schema given u = .ok (g :: (between ++ (s, f) :: below).map Prod.snd) ∧
      u.expansion (Pointer.document schema given) = some (n, chain) ∧ Under n g f

/-- The fields of a document are connected. The document itself has one field at most, at the empty
place and in front. Each other field is made at a site, and all that flattening gives below it
follows at once. It is a member of the document, at the place of a property or at that of what
patterns name; or it stands in the block of an earlier field, as a member if one type of this field
is object, and as its items if one is array. -/
theorem fields_connected (h : ofSchema schema path given = .ok fields) :
    ∃ (own : List Field) (made : List (Site × Field)),
      fields = own ++ made.map Prod.snd ∧
      ownFields schema path given = .ok own ∧ own.length ≤ 1 ∧ (∀ f ∈ own, f.path = "") ∧
      ∀ before s f after, made = before ++ (s, f) :: after →
        Connected schema path given before s f after := by
  obtain ⟨own, rest, hown, hrest, rfl⟩ := exists_of_ofSchema h
  obtain ⟨hlength, hplaces⟩ := ownFields_not_required hown
  obtain ⟨made, hwalk, rfl⟩ : ∃ made, Walk (Pointer.document schema given)
      (readSite schema given) (firstSites schema path given) made ∧ made.map Prod.snd = rest :=
    Walk.ofSites (fun s hs here hhere => exists_walk (.start hs) hhere) hrest
  refine ⟨own, made, rfl, hown, hlength, fun f hf => (hplaces f hf).1, ?_⟩
  intro before s f after hmade
  obtain ⟨hmakes, hblock, hparent⟩ := hwalk.split hmade
  refine ⟨hblock, ?_⟩
  obtain hfirst | ⟨earlier, u, g, between, below, rest, rfl, rfl, hu, hbelow, hread⟩ := hparent
  · obtain ⟨n, chain, hexpansion, hrole, hsite⟩ :
        ∃ n chain, expansion schema path given = some (n, chain) ∧ s.role ≠ .item ∧
          s.Below n path chain := by
      unfold firstSites at hfirst
      cases hexpansion : expansion schema path given with
      | none =>
        rw [hexpansion] at hfirst
        cases hfirst
      | some e =>
        rw [hexpansion] at hfirst
        exact ⟨e.1, e.2, rfl, role_of_mem_memberSites hfirst, below_of_mem_memberSites hfirst⟩
    obtain ⟨rfl, rfl, -, hstands⟩ := hsite
    refine .inl ⟨s.parent, chain, hexpansion, ?_⟩
    rw [hmakes.path_eq]
    exact hstands.memberAt hrole
  · obtain ⟨n, chain, hexpansion, hunder⟩ := under_of_mem_below hu hbelow hmakes
    exact .inr ⟨earlier, u, g, between, below, rest, n, chain, rfl, rfl, hread, hexpansion,
      hunder⟩

end

/-- A document that asks for a member, with a property that is an object or an array of arrays. -/
def layered : Json :=
  .obj [("minProperties", .num (.int 1)), ("properties", .obj [
    ("u", .obj [("type", .arr [.str "object", .str "array"]),
      ("properties", .obj [("a", .obj [])]),
      ("items", .obj [("type", .str "array"), ("items", .obj [])])]),
    ("w", .obj [])])]

/-- The document comes first, then the property with all that is below it, then the next one. -/
theorem layered_connected :
    (ofSchema layered "" none).map (List.map Field.path) =
        .ok ["", "u", "u.a", "u[*]", "u[*][*]", "w"] ∧
      ∃ (own : List Field) (made : List (Site × Field)),
        ofSchema layered "" none = .ok (own ++ made.map Prod.snd) ∧
        ownFields layered "" none = .ok own ∧ own.length ≤ 1 ∧
        ∀ before s f after, made = before ++ (s, f) :: after →
          Connected layered "" none before s f after := by
  obtain ⟨fields, hfields⟩ : ∃ fields, ofSchema layered "" none = .ok fields := ⟨_, by rfl⟩
  obtain ⟨own, made, rfl, hown, hlength, -, hconnected⟩ := fields_connected hfields
  exact ⟨by rfl, own, made, hfields, hown, hlength, hconnected⟩

end Field

end Conform
