import Conform.Proofs.ExpandedBranches

/-!
# Conform.Proofs.RequiredFields

Which fields are required. Every field but that of the document itself is made at a site, and the
fields stand in the order of their sites; a field is required if the parent requires the name that
the site asks for:

```
site          place        required if the parent requires
property n    above.n      n
pattern e     above.*      e, as it is written
item          above[*]     name[*], for an array that was asked for as name
```

The first line is what is meant. In the other two a text is asked for that is no name of a member:
no member is called by it, but a schema may list it, and then the field is required.
-/

namespace Conform

namespace Field

variable {schema : Json} {path : String} {given document : Option Json} {first ss : List Site}
  {s : Site} {up : List Site} {f : Field} {fields : List Field}

/-! ## Sites of fields -/

/-- Fields are made at sites on branches, one at each, in order. -/
def MadeOnBranches (document : Option Json) (first : List Site) (fields : List Field) : Prop :=
  ∃ sites, (∀ t ∈ sites, ∃ up, Branch document first t up) ∧
    List.Forall₂ (Site.Makes document) sites fields

namespace MadeOnBranches

theorem nil : MadeOnBranches document first [] := ⟨[], List.forall_mem_nil _, .nil⟩

theorem append {more : List Field} (h : MadeOnBranches document first fields)
    (h' : MadeOnBranches document first more) : MadeOnBranches document first (fields ++ more) := by
  obtain ⟨sites, hsites, hmade⟩ := h
  obtain ⟨sites', hsites', hmade'⟩ := h'
  refine ⟨sites ++ sites', fun t ht => ?_, List.rel_append hmade hmade'⟩
  exact (List.mem_append.mp ht).elim (hsites t) (hsites' t)

/-- What sites give one after the other is made on branches if it is so for each. -/
theorem ofSites {read : Site → Except Fault (List Field)}
    (hread : ∀ s ∈ ss, ∀ here, read s = .ok here → MadeOnBranches document first here)
    (h : ofSites read ss = .ok fields) : MadeOnBranches document first fields := by
  induction ss generalizing fields with
  | nil =>
    cases h
    exact .nil
  | cons s ss ih =>
    obtain ⟨hs, hss⟩ := List.forall_mem_cons.mp hread
    obtain ⟨here, hhere, h⟩ := bind_eq_ok h
    obtain ⟨rest, hrest, h⟩ := bind_eq_ok h
    cases h
    exact (hs here hhere).append (ih hss hrest)

end MadeOnBranches

/-- What flattening gives for a site on a branch is made there and on the branches further down. -/
theorem madeOnBranches_answer {m : Nat} (hs : Branch document first s up)
    (h : s.answer (descend document m) = .ok fields) : MadeOnBranches document first fields := by
  induction m generalizing s up fields with
  | zero => cases h
  | succ m ih =>
    rw [Site.answer_descend] at h
    obtain ⟨own, hown, h⟩ := bind_eq_ok h
    obtain ⟨rest, hrest, h⟩ := bind_eq_ok h
    cases h
    have hbelow : MadeOnBranches document first rest :=
      .ofSites (fun t ht here hhere => ih (hs.down ht) hhere) hrest
    obtain ⟨f, rfl, hmakes⟩ | ⟨rfl, -⟩ := Site.own_cases hown
    · refine MadeOnBranches.append ⟨[s], ?_, .cons hmakes .nil⟩ hbelow
      exact List.forall_mem_singleton.mpr ⟨up, hs⟩
    · exact hbelow

/-! ## Required fields -/

/-- A field made at a site is required if the parent requires the name that the site asks for. -/
theorem Site.Makes.required_iff (h : s.Makes document f) :
    f.constraints.required = .bool true ↔ .str s.asked ∈ s.parent.object.required := by
  obtain ⟨ms, chain, n, -, -, hfield⟩ := h
  obtain ⟨typing, -, rfl⟩ := ofNode_eq_ok hfield
  simp [Constraints.ofNode]

/-- A site on a branch stands in the node of its parent. -/
theorem Branch.stands (h : Branches schema path given s up) : s.Stands := by
  cases h with
  | start h =>
    obtain ⟨n, chain, ms, -, -, -, hbelow⟩ := exists_of_mem_firstSites _ _ _ h
    exact hbelow.stands
  | down h ht =>
    obtain ⟨n, chain, -, hbelow⟩ := Site.exists_of_mem_below ht
    exact hbelow.stands

/-- The parent of a site on a branch is the document, or the node of the site that is above on the
branch, and the place above it is where that is. -/
theorem Branch.parent_cases (h : Branches schema path given s up) :
    (∃ chain, expansion schema path given = some (s.parent, chain) ∧ s.above = path) ∨
      ∃ t further chain, Branches schema path given t further ∧
        t.expansion (Pointer.document schema given) = some (s.parent, chain) ∧
        s.above = t.path := by
  cases h with
  | start h =>
    obtain ⟨n, chain, ms, hexpansion, -, -, hbelow⟩ := exists_of_mem_firstSites _ _ _ h
    exact .inl ⟨chain, by rw [hexpansion, hbelow.parent], hbelow.above⟩
  | @down t _ further h ht =>
    obtain ⟨n, chain, hexpansion, hbelow⟩ := Site.exists_of_mem_below ht
    exact .inr ⟨t, further, chain, h, by rw [hexpansion, hbelow.parent], hbelow.above⟩

/-- The document itself has one field at most, which is at the front and never required. -/
theorem ownFields_not_required (h : ownFields schema path given = .ok fields) :
    fields.length ≤ 1 ∧ ∀ f ∈ fields, f.path = "" ∧ f.constraints.required = .bool false := by
  obtain ⟨⟨leaf, chain⟩, -, h⟩ := bind_eq_ok h
  cases leaf with
  | obj ms =>
    obtain ⟨n, -, h⟩ := bind_eq_ok h
    split at h
    · unfold ofWhole at h
      split at h
      · cases hfield : ofNode n "" false with
        | error g =>
          rw [hfield] at h
          cases h
        | ok f =>
          rw [hfield] at h
          cases h
          obtain ⟨typing, -, rfl⟩ := ofNode_eq_ok hfield
          exact ⟨Nat.le_refl _, List.forall_mem_singleton.mpr ⟨rfl, rfl⟩⟩
      · split at h
        · cases h
          exact ⟨Nat.zero_le _, List.forall_mem_nil _⟩
        · cases h
          exact ⟨Nat.le_refl _, List.forall_mem_singleton.mpr ⟨rfl, rfl⟩⟩
    · cases h
      exact ⟨Nat.zero_le _, List.forall_mem_nil _⟩
  | _ =>
    cases h
    exact ⟨Nat.zero_le _, List.forall_mem_nil _⟩

/-- The fields that are required. A document has one field of its own at most, at the front, which
is not required. All others are made at sites on branches, one at each, in order and at the place of
the site, which stands in the node of the document or of the site above. The field of a property is
required exactly if the parent requires its name; the field of a pattern, if the parent requires the
text of the pattern; and that of an item, if it requires the name of the array with the mark for
items behind it. -/
theorem required_exactly (h : ofSchema schema path given = .ok fields) :
    ∃ (own : List Field) (sites : List Site) (rest : List Field),
      fields = own ++ rest ∧ own.length ≤ 1 ∧
      (∀ f ∈ own, f.path = "" ∧ f.constraints.required = .bool false) ∧
      (∀ t ∈ sites, t.Stands ∧
        ((∃ chain, expansion schema path given = some (t.parent, chain) ∧ t.above = path) ∨
          ∃ u up chain, Branches schema path given u up ∧
            u.expansion (Pointer.document schema given) = some (t.parent, chain) ∧
            t.above = u.path)) ∧
      List.Forall₂ (fun t f => t.Makes (Pointer.document schema given) f ∧ f.path = t.path ∧
        (f.constraints.required = .bool true ↔
          (t.role = .property ∧ .str t.name ∈ t.parent.object.required) ∨
          (t.role = .pattern ∧ .str t.name ∈ t.parent.object.required) ∨
          (t.role = .item ∧ .str (t.name ++ "[*]") ∈ t.parent.object.required)))
        sites rest := by
  rw [ofSchema_eq] at h
  obtain ⟨own, hown, h⟩ := bind_eq_ok h
  obtain ⟨rest, hrest, h⟩ := bind_eq_ok h
  cases h
  obtain ⟨hlength, hunrequired⟩ := ownFields_not_required hown
  have hmade : MadeOnBranches (Pointer.document schema given) (firstSites schema path given) rest :=
    .ofSites (fun s hs here hhere => madeOnBranches_answer (.start hs) hhere) hrest
  obtain ⟨sites, hbranches, hmakes⟩ := hmade
  refine ⟨own, sites, rest, rfl, hlength, hunrequired, fun t ht => ?_, ?_⟩
  · obtain ⟨up, hbranch⟩ := hbranches t ht
    exact ⟨Branch.stands hbranch, Branch.parent_cases hbranch⟩
  · refine hmakes.imp fun t f hmake => ⟨hmake, hmake.path_eq, hmake.required_iff.trans ?_⟩
    cases hrole : t.role <;> simp [Site.asked, hrole]

/-- An address with a city that has to be given and a street that need not. -/
def addressed : Json :=
  .obj [("properties", .obj [("city", .obj []), ("street", .obj [])]),
    ("required", .arr [.str "city"])]

/-- The city is required and the street is not. -/
theorem city_required :
    (ofSchema addressed "" none).map (List.map fun f => (f.path, f.constraints.required)) =
        .ok [("city", .bool true), ("street", .bool false)] ∧
      ∃ (own : List Field) (sites : List Site) (rest : List Field),
        ofSchema addressed "" none = .ok (own ++ rest) ∧
        List.Forall₂ (fun t f => f.path = t.path ∧
          (f.constraints.required = .bool true ↔
            (t.role = .property ∧ .str t.name ∈ t.parent.object.required) ∨
            (t.role = .pattern ∧ .str t.name ∈ t.parent.object.required) ∨
            (t.role = .item ∧ .str (t.name ++ "[*]") ∈ t.parent.object.required)))
          sites rest := by
  obtain ⟨fields, hfields⟩ : ∃ fields, ofSchema addressed "" none = .ok fields := ⟨_, by rfl⟩
  obtain ⟨own, sites, rest, rfl, -, -, -, hsites⟩ := required_exactly hfields
  exact ⟨by rfl, own, sites, rest, hfields, hsites.imp fun _ _ h => h.2⟩

/-- The text of a pattern among what is required, and no property. -/
def patterned : Json :=
  .obj [("patternProperties", .obj [("^a", .obj [])]), ("required", .arr [.str "^a"])]

/-- An array among what it requires itself, with the mark for items behind its name. -/
def itemRequiring : Json :=
  .obj [("properties", .obj [("tags", .obj [("type", .str "array"), ("items", .obj []),
    ("required", .arr [.str "tags[*]"])])])]

/-- The field of a pattern can be required, and so can that of an item. -/
theorem pattern_and_item_required :
    (∃ fields f, ofSchema patterned "" none = .ok fields ∧ f ∈ fields ∧ f.path = "*" ∧
      f.constraints.required = .bool true) ∧
    ∃ fields f, ofSchema itemRequiring "" none = .ok fields ∧ f ∈ fields ∧ f.path = "tags[*]" ∧
      f.constraints.required = .bool true := by
  refine ⟨⟨_, _, by rfl, List.mem_cons_of_mem _ List.mem_cons_self, by rfl, by rfl⟩,
    ⟨_, _, by rfl, List.mem_cons_of_mem _ List.mem_cons_self, by rfl, by rfl⟩⟩

end Field

end Conform
