import Conform.Proofs.Flattening

/-!
# Conform.Proofs.Expansion

Flattening as an expansion of sites. A site is a schema where a field may be made, with what is
handed on to it:

```
site          place        name asked for among those that the parent requires
property n    above.n      n
pattern e     above.*      e
item          above[*]     name[*], for an array that was asked for as name
```

A site has a field of its own (`Site.own`), and further sites below it if it is expanded
(`Site.below`). It is not expanded if its references meet one that was followed before on its
branch. What flattening gives for a site is its own field and then what it gives for the sites
below, one after the other (`Site.answer_descend`), and a document is such a list of sites behind
the field of its own (`ofSchema_eq`).
-/

namespace Conform

/-- A computation in two steps that stops is stopped by the first or by the second. -/
theorem bind_eq_error {α β : Type} {r : Except Fault α} {k : α → Except Fault β} {f : Fault}
    (h : r >>= k = .error f) : r = .error f ∨ ∃ x, r = .ok x ∧ k x = .error f := by
  cases r with
  | error g =>
    cases h
    exact .inl rfl
  | ok x => exact .inr ⟨x, rfl, h⟩

namespace Field

/-! ## Sites -/

/-- What a schema is to its parent. -/
inductive Role where
  | property
  | pattern
  | item
deriving DecidableEq, Repr

/-- A schema where a field may be made: what it is to its parent and under which name, the place and
the node of the parent, and the references followed on the way to it. -/
structure Site where
  role : Role
  name : String
  schema : Json
  above : String
  parent : Node
  followed : List String

namespace Site

/-- The place of a site. -/
def path (s : Site) : String :=
  match s.role with
  | .property => Path.name s.above s.name
  | .pattern => Path.name s.above "*"
  | .item => s.above ++ "[*]"

/-- The name that is looked for among those that the parent requires. -/
def asked (s : Site) : String :=
  match s.role with
  | .item => s.name ++ "[*]"
  | _ => s.name

/-- What a reading gives for a site. -/
def answer (self : Descend) (s : Site) : Except Fault (List Field) :=
  self s.asked s.schema s.path s.parent s.followed

end Site

/-- The sites of named schemas. What is no object has none. -/
def tableSites (role : Role) (n : Node) (path : String) (followed : List String) (ms : Members) :
    List Site :=
  (ms.filter fun e => e.2.isObject).map fun e => ⟨role, e.1, e.2, path, n, followed⟩

/-- The sites of the members of an object. -/
def memberSites (n : Node) (path : String) (followed : List String) : List Site :=
  tableSites .property n path followed n.object.properties ++
    tableSites .pattern n path followed n.object.patternProperties

/-- The site of the items of an array, if one schema is for all of them. -/
def itemSites (n : Node) (name path : String) (followed : List String) : List Site :=
  (n.array.items.toList.filter Json.isObject).map fun s => ⟨.item, name, s, path, n, followed⟩

/-- The sites below a field. -/
def childSites (n : Node) (name path : String) (followed : List String) : List Site :=
  (if n.declares "object" then memberSites n path followed else []) ++
    (if n.declares "array" then itemSites n name path followed else [])

/-! ## Site by site -/

/-- The fields of sites, one site after the other. -/
def ofSites (read : Site → Except Fault (List Field)) : List Site → Except Fault (List Field)
  | [] => .ok []
  | s :: ss => read s >>= fun here => ofSites read ss >>= fun rest => .ok (here ++ rest)

variable {read read' : Site → Except Fault (List Field)} {ss ts : List Site}

theorem ofSites_append :
    ofSites read (ss ++ ts) =
      ofSites read ss >>= fun here => ofSites read ts >>= fun rest => .ok (here ++ rest) := by
  induction ss with
  | nil =>
    rw [List.nil_append, ofSites]
    cases ofSites read ts <;> rfl
  | cons s ss ih =>
    rw [List.cons_append, ofSites, ofSites, ih]
    cases read s with
    | error f => rfl
    | ok here =>
      cases ofSites read ss with
      | error f => rfl
      | ok more =>
        cases ofSites read ts with
        | error f => rfl
        | ok rest => exact congrArg Except.ok (List.append_assoc here more rest).symm

theorem ofSites_congr (h : ∀ s ∈ ss, read s = read' s) : ofSites read ss = ofSites read' ss := by
  induction ss with
  | nil => rfl
  | cons s ss ih =>
    obtain ⟨hs, hss⟩ := List.forall_mem_cons.mp h
    rw [ofSites, ofSites, hs, ih hss]

/-- A fault of sites is the fault of one of them. -/
theorem exists_of_ofSites_error {f : Fault} (h : ofSites read ss = .error f) :
    ∃ s ∈ ss, read s = .error f := by
  induction ss with
  | nil => cases h
  | cons s ss ih =>
    obtain hs | ⟨here, -, h⟩ := bind_eq_error h
    · exact ⟨s, List.mem_cons_self, hs⟩
    · obtain hss | ⟨rest, -, h⟩ := bind_eq_error h
      · obtain ⟨t, ht, herror⟩ := ih hss
        exact ⟨t, List.mem_cons_of_mem s ht, herror⟩
      · cases h

/-- Of several sites the fields of each one stand together. -/
theorem exists_infix_of_ofSites {fields : List Field} (h : ofSites read ss = .ok fields) {s : Site}
    (hs : s ∈ ss) : ∃ here, read s = .ok here ∧ here <:+: fields := by
  induction ss generalizing fields with
  | nil => cases hs
  | cons t ss ih =>
    obtain ⟨here, hhere, h⟩ := bind_eq_ok h
    obtain ⟨rest, hrest, h⟩ := bind_eq_ok h
    cases h
    obtain rfl | hs := List.mem_cons.mp hs
    · exact ⟨here, hhere, (List.prefix_append here rest).isInfix⟩
    · obtain ⟨those, hthose, hinfix⟩ := ih hrest hs
      exact ⟨those, hthose, hinfix.trans (List.suffix_append here rest).isInfix⟩

/-- The field of a node that has a type. -/
theorem ofNode_eq_ok {n : Node} {path : String} {required : Bool} {f : Field}
    (h : ofNode n path required = .ok f) :
    ∃ typing, Typing.ofNode n = .ok typing ∧ f = ⟨path, typing, .ofNode n required⟩ := by
  unfold ofNode at h
  cases htyping : Typing.ofNode n with
  | error g =>
    rw [htyping] at h
    cases h
  | ok typing =>
    rw [htyping] at h
    exact ⟨typing, rfl, (Except.ok.inj h).symm⟩

/-! ## What flattening reads -/

variable {self : Descend} {n : Node} {name path : String} {followed : List String}

theorem ofTable_eq_ofSites {role : Role} {place : String → String} (hrole : role ≠ .item)
    (hplace : ∀ e : String × Json,
      place e.1 = (Site.mk role e.1 e.2 path n followed).path) (ms : Members) :
    ofTable self place n followed ms =
      ofSites (Site.answer self) (tableSites role n path followed ms) := by
  have hasked : ∀ e : String × Json, (Site.mk role e.1 e.2 path n followed).asked = e.1 := by
    intro e
    cases role with
    | item => exact absurd rfl hrole
    | _ => rfl
  induction ms with
  | nil => rfl
  | cons e ms ih =>
    rw [ofTable_cons, ih, hplace e, ofOne]
    cases hobject : e.2.isObject with
    | false =>
      have hsites : tableSites role n path followed (e :: ms) =
          tableSites role n path followed ms := by
        simp [tableSites, hobject]
      rw [hsites]
      cases ofSites (Site.answer self) (tableSites role n path followed ms) <;> rfl
    | true =>
      have hsites : tableSites role n path followed (e :: ms) =
          ⟨role, e.1, e.2, path, n, followed⟩ :: tableSites role n path followed ms := by
        simp [tableSites, hobject]
      rw [hsites, ofSites, Site.answer, hasked e]
      rfl

theorem ofObject_eq_ofSites :
    ofObject self n path followed = ofSites (Site.answer self) (memberSites n path followed) := by
  have hproperty : Role.property ≠ .item := nofun
  have hpattern : Role.pattern ≠ .item := nofun
  have hnamed : ofTable self (Path.name path) n followed n.object.properties =
      ofSites (Site.answer self) (tableSites .property n path followed n.object.properties) :=
    ofTable_eq_ofSites hproperty (fun _ => rfl) _
  have hpatterns :
      ofTable self (fun _ => Path.name path "*") n followed n.object.patternProperties =
        ofSites (Site.answer self)
          (tableSites .pattern n path followed n.object.patternProperties) :=
    ofTable_eq_ofSites hpattern (fun _ => rfl) _
  rw [memberSites, ofSites_append, ← hnamed, ← hpatterns, ofObject]
  rfl

theorem ofItems_eq_ofSites :
    ofItems self n name path followed =
      ofSites (Site.answer self) (itemSites n name path followed) := by
  rw [ofItems_eq]
  cases hitems : n.array.items with
  | none => simp [itemSites, hitems, ofSites]
  | some s =>
    rw [Option.elim_some, ofOne]
    cases hobject : s.isObject with
    | false => simp [itemSites, hitems, hobject, ofSites]
    | true =>
      have hsites : itemSites n name path followed = [⟨.item, name, s, path, n, followed⟩] := by
        simp [itemSites, hitems, hobject]
      rw [hsites, ofSites, ofSites, if_pos rfl, Site.answer]
      change _ = (self (name ++ "[*]") s (path ++ "[*]") n followed >>= fun here =>
        Except.ok (here ++ []))
      cases self (name ++ "[*]") s (path ++ "[*]") n followed with
      | error f => rfl
      | ok here => exact congrArg Except.ok (List.append_nil here).symm

theorem ofChildren_eq_ofSites :
    ofChildren self n name path followed =
      ofSites (Site.answer self) (childSites n name path followed) := by
  rw [ofChildren_eq, childSites, ofSites_append]
  cases n.declares "object" <;> cases n.declares "array" <;>
    simp only [if_true, if_false, Bool.false_eq_true, ofObject_eq_ofSites, ofItems_eq_ofSites,
      ofSites]

/-! ## What a site adds -/

namespace Site

variable (document : Option Json)

/-- The field of a site itself, which it has if its references end at an object. -/
def own (s : Site) : Except Fault (List Field) :=
  settle document s.schema >>= fun settled =>
    match settled.1 with
    | .obj ms =>
      Node.ofMembers ms >>= fun n =>
        (ofNode n s.path (s.parent.object.required.contains (.str s.asked))).map fun f => [f]
    | _ => .ok []

/-- The node that the references of a site end at, with these references, if the site is expanded:
if they end at an object, and none of them was followed before. -/
def expansion (s : Site) : Option (Node × List String) :=
  match settle document s.schema with
  | .ok (.obj ms, chain) =>
    if chain.any s.followed.contains then none
    else (Node.ofMembers ms).toOption.map fun n => (n, chain)
  | _ => none

/-- The sites below a site. -/
def below (s : Site) : List Site :=
  (s.expansion document).elim [] fun e => childSites e.1 s.asked s.path (e.2 ++ s.followed)

/-- The references that are expanded at a site. -/
def expanded (s : Site) : List String := (s.expansion document).elim [] Prod.snd

/-- What flattening gives for a site: its own field, and then what it gives for the sites below. -/
theorem answer_descend (m : Nat) (s : Site) :
    s.answer (descend document (m + 1)) =
      s.own document >>= fun own =>
        ofSites (answer (descend document m)) (s.below document) >>= fun rest =>
          .ok (own ++ rest) := by
  cases hsettle : settle document s.schema with
  | error f =>
    simp only [answer, descend, own, hsettle]
    rfl
  | ok settled =>
    obtain ⟨leaf, chain⟩ := settled
    cases hleaf : leaf.isObject with
    | false =>
      rw [answer, descend_atom hsettle hleaf, own, below, expansion, hsettle]
      cases leaf with
      | obj ms => cases hleaf
      | _ => rfl
    | true =>
      obtain ⟨ms, rfl⟩ : ∃ ms, leaf = .obj ms := by
        cases leaf with
        | obj ms => exact ⟨ms, rfl⟩
        | _ => cases hleaf
      have hown : s.own document =
          Node.ofMembers ms >>= fun n =>
            (ofNode n s.path (s.parent.object.required.contains (.str s.asked))).map
              fun f => [f] := by
        rw [own, hsettle]
        rfl
      have hexpansion : s.expansion document =
          if chain.any s.followed.contains then none
          else (Node.ofMembers ms).toOption.map fun n => (n, chain) := by
        rw [expansion, hsettle]
      rw [answer, descend_settled hsettle, hown, below, hexpansion]
      cases Node.ofMembers ms with
      | error f => rfl
      | ok n =>
        change (ofNode n s.path (s.parent.object.required.contains (.str s.asked)) >>= _) =
          ((ofNode n s.path (s.parent.object.required.contains (.str s.asked))).map _ >>= _)
        cases ofNode n s.path (s.parent.object.required.contains (.str s.asked)) with
        | error f => rfl
        | ok field =>
          cases chain.any s.followed.contains with
          | true => rfl
          | false =>
            change (ofChildren (descend document m) n s.asked s.path (chain ++ s.followed) >>=
              fun below => Except.ok (field :: below)) = _
            rw [ofChildren_eq_ofSites]
            rfl

/-- A field is made at a site: of the node that its references end at. -/
def Makes (s : Site) (f : Field) : Prop :=
  ∃ ms chain n, settle document s.schema = .ok (.obj ms, chain) ∧ Node.ofMembers ms = .ok n ∧
    ofNode n s.path (s.parent.object.required.contains (.str s.asked)) = .ok f

variable {document} {s : Site} {f : Field}

/-- A site has one field of its own, or none where its references end at no object. -/
theorem own_cases {fields : List Field} (h : s.own document = .ok fields) :
    (∃ f, fields = [f] ∧ s.Makes document f) ∨
      fields = [] ∧ ∃ leaf chain, settle document s.schema = .ok (leaf, chain) ∧
        leaf.isObject = false := by
  obtain ⟨⟨leaf, chain⟩, hsettle, h⟩ := bind_eq_ok h
  cases leaf with
  | obj ms =>
    obtain ⟨n, hn, h⟩ := bind_eq_ok h
    cases hfield : ofNode n s.path (s.parent.object.required.contains (.str s.asked)) with
    | error f =>
      rw [hfield] at h
      cases h
    | ok f =>
      rw [hfield] at h
      cases h
      exact .inl ⟨f, rfl, ms, chain, n, hsettle, hn, hfield⟩
  | _ =>
    cases h
    exact .inr ⟨rfl, _, chain, hsettle, rfl⟩

theorem Makes.path_eq (h : s.Makes document f) : f.path = s.path := by
  obtain ⟨ms, chain, n, -, -, hfield⟩ := h
  obtain ⟨typing, -, rfl⟩ := ofNode_eq_ok hfield
  rfl

/-- The references of an expanded site end at an object, and none of them was followed before. -/
theorem expansion_eq_some {n : Node} {chain : List String}
    (h : s.expansion document = some (n, chain)) :
    ∃ ms, settle document s.schema = .ok (.obj ms, chain) ∧ Node.ofMembers ms = .ok n ∧
      ∀ r ∈ chain, r ∉ s.followed := by
  unfold expansion at h
  split at h
  · next ms chain' hsettle =>
    split at h
    · cases h
    · next hany =>
      cases hn : Node.ofMembers ms with
      | error f =>
        rw [hn] at h
        cases h
      | ok n' =>
        rw [hn] at h
        cases h
        refine ⟨ms, hsettle, hn, fun r hr hfollowed => hany ?_⟩
        exact List.any_eq_true.mpr ⟨r, hr, List.contains_iff_mem.mpr hfollowed⟩
  · cases h

/-- How a site stands in the node of its parent. -/
def Stands (s : Site) : Prop :=
  s.schema.isObject = true ∧
    match s.role with
    | .property => (s.name, s.schema) ∈ s.parent.object.properties
    | .pattern => (s.name, s.schema) ∈ s.parent.object.patternProperties
    | .item => s.parent.array.items = some s.schema

/-- The schema of a site lies inside that of its parent. -/
theorem Stands.mem_into (h : s.Stands) : s.schema ∈ s.parent.into := by
  obtain ⟨hobject, hin⟩ := h
  have hlist : ∀ xs, s.schema ≠ .arr xs := by
    intro xs heq
    rw [heq] at hobject
    cases hobject
  cases hrole : s.role with
  | property =>
    rw [hrole] at hin
    exact Node.mem_into_of_named hin
  | pattern =>
    rw [hrole] at hin
    exact Node.mem_into_of_pattern hin
  | item =>
    rw [hrole] at hin
    exact Node.mem_into_of_items hin hlist

end Site

/-- A site among those of a node at a place. -/
structure Site.Below (n : Node) (path : String) (followed : List String) (s : Site) : Prop where
  parent : s.parent = n
  above : s.above = path
  followed : s.followed = followed
  stands : s.Stands

theorem below_of_mem_memberSites {s : Site} (h : s ∈ memberSites n path followed) :
    s.Below n path followed := by
  rw [memberSites, List.mem_append, tableSites, tableSites, List.mem_map, List.mem_map] at h
  obtain ⟨e, he, rfl⟩ | ⟨e, he, rfl⟩ := h
  · exact ⟨rfl, rfl, rfl, (List.mem_filter.mp he).2, (List.mem_filter.mp he).1⟩
  · exact ⟨rfl, rfl, rfl, (List.mem_filter.mp he).2, (List.mem_filter.mp he).1⟩

theorem below_of_mem_childSites {s : Site} (h : s ∈ childSites n name path followed) :
    s.Below n path followed := by
  obtain h | h := List.mem_append.mp h
  · cases hobject : n.declares "object" with
    | false => simp [hobject] at h
    | true =>
      rw [hobject] at h
      exact below_of_mem_memberSites h
  · cases harray : n.declares "array" with
    | false => simp [harray] at h
    | true =>
      rw [harray] at h
      obtain ⟨schema, hschema, rfl⟩ := List.mem_map.mp h
      obtain ⟨hitems, hobject⟩ := List.mem_filter.mp hschema
      exact ⟨rfl, rfl, rfl, hobject, Option.mem_toList.mp hitems⟩

/-- What is handed on to the sites below a site. -/
theorem Site.exists_of_mem_below {document : Option Json} {s t : Site}
    (h : t ∈ s.below document) :
    ∃ n chain, s.expansion document = some (n, chain) ∧
      t.Below n s.path (chain ++ s.followed) := by
  unfold below at h
  cases hexpansion : s.expansion document with
  | none =>
    rw [hexpansion] at h
    cases h
  | some e =>
    rw [hexpansion] at h
    exact ⟨e.1, e.2, rfl, below_of_mem_childSites h⟩

/-! ## What a document adds -/

/-- The field of a document itself: all of it where schemas are combined, and otherwise what no
other field can carry. -/
def ofWhole (n : Node) : Except Fault (List Field) :=
  if n.composition.present then (ofNode n "" false).map fun f => [f]
  else .ok (if (Constraints.ofRoot n).isEmpty then []
    else [⟨"", { type := .object }, Constraints.ofRoot n⟩])

theorem ofDocument_eq (document : Option Json) (m : Nat) (n : Node) (followed : List String) :
    ofDocument document m n followed =
      ofWhole n >>= fun own =>
        ofSites (Site.answer (descend document m))
          (if n.composition.present then [] else memberSites n "" followed) >>= fun rest =>
            .ok (own ++ rest) := by
  rw [ofDocument, ofWhole]
  cases n.composition.present with
  | true =>
    change (ofNode n "" false >>= _) = ((ofNode n "" false).map _ >>= _)
    cases ofNode n "" false <;> rfl
  | false =>
    change (ofObject (descend document m) n "" followed >>= _) = _
    rw [ofObject_eq_ofSites]
    cases (Constraints.ofRoot n).isEmpty <;> rfl

section

variable (schema : Json) (path : String) (given : Option Json)

/-- The field of a document itself, if there is one. -/
def ownFields : Except Fault (List Field) :=
  settle (Pointer.document schema given) schema >>= fun settled =>
    match settled.1 with
    | .obj ms => Node.ofMembers ms >>= fun n => if path.isEmpty then ofWhole n else .ok []
    | _ => .ok []

/-- The node of a document and the references that lead to it, if its members have sites. -/
def expansion : Option (Node × List String) :=
  match settle (Pointer.document schema given) schema with
  | .ok (.obj ms, chain) =>
    (Node.ofMembers ms).toOption.bind fun n =>
      if path.isEmpty && n.composition.present then none else some (n, chain)
  | _ => none

/-- The first sites of a document. -/
def firstSites : List Site :=
  (expansion schema path given).elim [] fun e => memberSites e.1 path e.2

/-- The references that are expanded at a document. -/
def expanded : List String := (expansion schema path given).elim [] Prod.snd

/-- What is handed on to the first sites of a document. -/
theorem exists_of_mem_firstSites {s : Site} (h : s ∈ firstSites schema path given) :
    ∃ n chain ms, expansion schema path given = some (n, chain) ∧
      settle (Pointer.document schema given) schema = .ok (.obj ms, chain) ∧
      Node.ofMembers ms = .ok n ∧ s.Below n path chain := by
  unfold firstSites at h
  cases hexpansion : expansion schema path given with
  | none =>
    rw [hexpansion] at h
    cases h
  | some e =>
    obtain ⟨n, chain⟩ := e
    rw [hexpansion] at h
    refine ⟨n, chain, ?_⟩
    unfold expansion at hexpansion
    split at hexpansion
    · next ms chain' hsettle =>
      obtain ⟨n', hn, hwhole⟩ := Option.bind_eq_some_iff.mp hexpansion
      split at hwhole
      · cases hwhole
      · cases hwhole
        refine ⟨ms, rfl, hsettle, ?_, below_of_mem_memberSites h⟩
        cases hread : Node.ofMembers ms with
        | error f =>
          rw [hread] at hn
          cases hn
        | ok n'' =>
          rw [hread] at hn
          cases hn
          rfl
    · cases hexpansion

/-- The fields of a document: its own, and then what flattening gives for the first sites. -/
theorem ofSchema_eq :
    ofSchema schema path given =
      ownFields schema path given >>= fun own =>
        ofSites (Site.answer (descend (Pointer.document schema given)
          (Pointer.reach schema (Pointer.document schema given) + 1)))
          (firstSites schema path given) >>= fun rest => .ok (own ++ rest) := by
  have hunfold : ofSchema schema path given =
      settle (Pointer.document schema given) schema >>= fun settled =>
        match settled.1 with
        | .obj ms =>
          Node.ofMembers ms >>= fun n =>
            if path.isEmpty then
              ofDocument (Pointer.document schema given)
                (Pointer.reach schema (Pointer.document schema given) + 1) n settled.2
            else
              ofObject (descend (Pointer.document schema given)
                (Pointer.reach schema (Pointer.document schema given) + 1)) n path settled.2
        | _ => .ok [] := rfl
  rw [hunfold, ownFields, firstSites, expansion]
  cases settle (Pointer.document schema given) schema with
  | error f => rfl
  | ok settled =>
    obtain ⟨leaf, chain⟩ := settled
    cases leaf with
    | obj ms =>
      change (Node.ofMembers ms >>= _) = ((Node.ofMembers ms >>= _) >>= fun own =>
        ofSites _ (((Node.ofMembers ms).toOption.bind _).elim _ _) >>= _)
      cases Node.ofMembers ms with
      | error f => rfl
      | ok n =>
        change ite _ _ _ = (ite _ _ _ >>= fun own =>
          ofSites _ (Option.elim (ite _ none (some (n, chain))) _ _) >>= _)
        by_cases hpath : path = ""
        · subst hpath
          have hempty : "".isEmpty = true := by decide
          rw [hempty]
          change ofDocument _ _ n chain = (ofWhole n >>= _)
          rw [ofDocument_eq]
          cases n.composition.present <;> rfl
        · have hempty : path.isEmpty = false := by simpa using hpath
          rw [hempty]
          change ofObject _ n path chain = (ofSites _ (memberSites n path chain) >>= _)
          rw [ofObject_eq_ofSites]
          cases ofSites _ (memberSites n path chain) <;> rfl
    | _ => rfl

end

end Field

end Conform
