import Conform.Form.Registration
import Conform.Proofs.Counterparts
import Conform.Proofs.RequiredFields

/-!
# Conform.Proofs.Registration

What a register is handed for a document:

```
each field at a place     its definition, in the order of the fields
the document itself       that unknown members are refused, if they are
each pair of a demand     a definition that requires the one if the other is present
```

The field of the document itself is known by its place, which is empty. A property whose name is
empty has that place too if it is a member of the document, or of another such property. It is no
longer handed over then, and where the document has no field of its own, it is taken for this one.
The main statement says that this is the whole difference.
-/

namespace Conform

/-! ## The document itself -/

namespace Node

/-- Whether unknown members are refused. -/
def isStrict (n : Node) : Bool := n.object.additionalProperties == some (.bool false)

/-- The pairs of a member and what is demanded beside it, where no schemas are combined. -/
def demands (n : Node) : List (String × Json) :=
  if n.composition.present then []
  else n.object.dependentRequired.flatMap fun e => e.2.map fun name => (e.1, name)

end Node

namespace Constraints

/-- Whether unknown members are refused. -/
def isStrict (c : Constraints) : Bool := c.additionalProperties == .bool false

@[simp] theorem isStrict_ofNode (n : Node) (required : Bool) :
    (ofNode n required).isStrict = n.isStrict := by
  unfold isStrict Node.isStrict ofNode orNull
  cases n.object.additionalProperties <;> rfl

@[simp] theorem isStrict_ofRoot (n : Node) : (ofRoot n).isStrict = n.isStrict := by
  unfold isStrict Node.isStrict ofRoot orNull
  cases n.object.additionalProperties <;> rfl

/-- Constraints of which none is set are the default ones. -/
theorem eq_default_of_isEmpty {c : Constraints} (h : c.isEmpty = true) : c = {} := by
  have hnone : (slots.filter fun s => s.get c != s.get {}) = [] := by
    simpa [isEmpty, toMembers] using h
  have hslots : ∀ s ∈ slots, s.get c = s.get {} := by
    simpa using List.filter_eq_nil_iff.mp hnone
  cases c
  simpa [slots] using hslots

end Constraints

namespace Form

@[simp] theorem demandPairs_ofNode (n : Node) (required : Bool) :
    demandPairs (.ofNode n required) = [] := rfl

theorem demandPairs_ofRoot {n : Node} (h : n.composition.present = false) :
    demandPairs (.ofRoot n) = n.demands := by
  rw [Node.demands, h]
  unfold demandPairs Constraints.ofRoot Constraints.membersOrNull
  cases n.object.dependentRequired with
  | nil => rfl
  | cons e es => simp [List.flatMap_map, Json.items?]

/-- What no field carries of a document is nothing, if it has no field of its own. -/
theorem of_isEmpty_ofRoot {n : Node} (h : (Constraints.ofRoot n).isEmpty = true) :
    n.isStrict = false ∧ n.object.dependentRequired = [] := by
  have hdefault := Constraints.eq_default_of_isEmpty h
  have hdependent : (Constraints.ofRoot n).dependentRequired = .null := by rw [hdefault]
  refine ⟨?_, ?_⟩
  · rw [← Constraints.isStrict_ofRoot, hdefault]
    rfl
  · simpa [Constraints.ofRoot, Constraints.membersOrNull] using hdependent

end Form

namespace Field

/-- The node that the references of a document end at. -/
def documentNode? (schema : Json) : Option Node :=
  match settle (Pointer.document schema none) schema with
  | .ok (.obj ms, _) => (Node.ofMembers ms).toOption
  | _ => none

variable {schema : Json} {own : List Field} {s : Site} {f : Field}

/-- The field of a document itself says whether unknown members are refused and what is demanded
beside members. Without such a field neither is said. -/
theorem ownFields_cases (h : ownFields schema "" none = .ok own) :
    (own = [] ∧ (documentNode? schema).any Node.isStrict = false ∧
      (documentNode? schema).elim [] Node.demands = []) ∨
    ∃ f, own = [f] ∧ f.path = "" ∧
      f.constraints.isStrict = (documentNode? schema).any Node.isStrict ∧
      Form.demandPairs f.constraints = (documentNode? schema).elim [] Node.demands := by
  obtain ⟨⟨leaf, chain⟩, hsettle, h⟩ := bind_eq_ok h
  rw [documentNode?, hsettle]
  cases leaf with
  | obj ms =>
    obtain ⟨n, hn, h⟩ := bind_eq_ok h
    have hnode : (Node.ofMembers ms).toOption = some n := by rw [hn]; rfl
    simp only [hnode, Option.any_some, Option.elim_some]
    change ofWhole n = .ok own at h
    unfold ofWhole at h
    cases hcombined : n.composition.present with
    | true =>
      rw [hcombined, if_pos rfl] at h
      cases hfield : ofNode n "" false with
      | error g =>
        rw [hfield] at h
        cases h
      | ok f =>
        rw [hfield] at h
        cases h
        obtain ⟨typing, -, rfl⟩ := ofNode_eq_ok hfield
        exact .inr ⟨_, rfl, rfl, by simp, by simp [Node.demands, hcombined]⟩
    | false =>
      rw [hcombined, if_neg Bool.false_ne_true] at h
      cases hempty : (Constraints.ofRoot n).isEmpty with
      | true =>
        rw [hempty] at h
        cases h
        obtain ⟨hstrict, hdependent⟩ := Form.of_isEmpty_ofRoot hempty
        exact .inl ⟨rfl, hstrict, by simp [Node.demands, hdependent]⟩
      | false =>
        rw [hempty] at h
        cases h
        exact .inr ⟨_, rfl, rfl, by simp, Form.demandPairs_ofRoot hcombined⟩
  | _ =>
    cases h
    exact .inl ⟨rfl, rfl, rfl⟩

/-- Of all places below a document only that of a property without a name can be empty. -/
theorem Site.path_eq_empty_iff :
    s.path = "" ↔ s.role = .property ∧ s.name = "" ∧ s.above = "" := by
  have hname : ∀ name, Path.name s.above name = "" ↔ name = "" ∧ s.above = "" := by
    intro name
    unfold Path.name
    by_cases habove : s.above = ""
    · simp [habove]
    · simp [habove, String.append_eq_empty_iff]
  unfold path
  cases hrole : s.role with
  | property => simp [hname]
  | pattern => simp [hname]
  | item => simp [String.append_eq_empty_iff]

/-- A field made at a site demands nothing. -/
theorem Site.Makes.demandPairs_eq {document : Option Json} (h : s.Makes document f) :
    Form.demandPairs f.constraints = [] := by
  obtain ⟨ms, chain, n, -, -, hfield⟩ := h
  obtain ⟨typing, -, rfl⟩ := ofNode_eq_ok hfield
  rfl

end Field

namespace Form

/-! ## What is handed over -/

namespace Note

variable [Host] in
/-- The definition of a field for its place. -/
def ofField (formats : Formats) (field : Field) : Note :=
  .definition "v" (.str field.path) fun f => f.define formats field

/-- The definition that requires what is demanded. -/
def ofDemand (demand : String × Json) : Note :=
  .definition "v" demand.2 fun f => .ok (f.requireIf demand.1)

/-- Whether a note is a definition. -/
def isDefinition : Note → Bool
  | .definition .. => true
  | .strict _ => false

variable [Host] in
/-- Notes of fields, that unknown members are refused, and of demands. -/
def inOrder (formats : Formats) (fields : List Field) (strict : Bool)
    (demands : List (String × Json)) : List Note :=
  fields.map (ofField formats) ++ (if strict then [.strict "strict"] else []) ++
    demands.map ofDemand

variable [Host] in
theorem countP_inOrder (formats : Formats) (fields : List Field) (strict : Bool)
    (demands : List (String × Json)) :
    (inOrder formats fields strict demands).countP isDefinition =
      fields.length + demands.length := by
  have hfields : (fields.map (ofField formats)).countP isDefinition = fields.length := by
    rw [List.countP_map, List.countP_eq_length]
    exact fun _ _ => rfl
  have hdemands : (demands.map ofDemand).countP isDefinition = demands.length := by
    rw [List.countP_map, List.countP_eq_length]
    exact fun _ _ => rfl
  rw [inOrder, List.countP_append, List.countP_append, hfields, hdemands]
  cases strict <;> rfl

end Note

section

variable {registry : Interface} {formats : Formats}

/-- A capability that is offered by its own name is called by it. -/
theorem method?_of_mem {capability : String} (h : capability ∈ registry.methods) :
    registry.method? capability = some capability := by
  simp [Interface.method?, spellings, h]

variable [Host] in
theorem fieldNotes_eq (hv : "v" ∈ registry.methods) (fields : List Field) :
    fieldNotes registry formats fields =
      .ok ((fields.filter fun f => !f.path.isEmpty).map (Note.ofField formats)) := by
  induction fields with
  | nil => rfl
  | cons field fields ih =>
    rw [fieldNotes]
    cases hplace : field.path.isEmpty with
    | true =>
      rw [if_pos rfl, ih]
      simp [hplace]
    | false =>
      rw [if_neg Bool.false_ne_true, register, method?_of_mem hv, ih]
      simp only [List.filter_cons, hplace]
      rfl

theorem demandNotes_eq (hv : "v" ∈ registry.methods) (pairs : List (String × Json)) :
    demandNotes registry pairs = .ok (pairs.map Note.ofDemand) := by
  induction pairs with
  | nil => rfl
  | cons pair pairs ih =>
    rw [demandNotes, register, method?_of_mem hv, ih]
    rfl

theorem rootNotes_eq (hv : "v" ∈ registry.methods) (hstrict : "strict" ∈ registry.methods)
    (c : Constraints) :
    rootNotes registry c =
      .ok ((if c.isStrict then [.strict "strict"] else []) ++
        (demandPairs c).map Note.ofDemand) := by
  have hmark : strictNotes registry c = if c.isStrict then [.strict "strict"] else [] := by
    simp [strictNotes, Constraints.isStrict, method?_of_mem hstrict]
  rw [rootNotes, demandNotes_eq hv, hmark]
  rfl

section

variable [Host]

/-- What is handed over for a document, step by step. -/
theorem notes_eq_bind (registry : Interface) (schema : Json) (formats : Formats) :
    notes registry schema formats =
      Field.ofSchema schema "" none >>= fun fields =>
        fieldNotes registry formats fields >>= fun notes =>
          (fields.find? fun field => field.path.isEmpty).elim (.ok notes) fun field =>
            rootNotes registry field.constraints >>= fun more => .ok (notes ++ more) := by
  unfold notes
  refine bind_congr fun fields => bind_congr fun notes => ?_
  cases fields.find? fun field => field.path.isEmpty <;> rfl

/-- What is handed over for fields of which the one of the document itself is the first, if there is
one, and demands nothing else. -/
theorem notes_eq (formats : Formats) (hv : "v" ∈ registry.methods)
    (hstrict : "strict" ∈ registry.methods) {schema : Json} {own rest : List Field}
    (hown : Field.ownFields schema "" none = .ok own)
    (hrest : ∀ f ∈ rest, demandPairs f.constraints = [])
    (h : Field.ofSchema schema "" none = .ok (own ++ rest)) :
    notes registry schema formats =
      .ok (Note.inOrder formats (rest.filter fun f => !f.path.isEmpty)
        ((Field.documentNode? schema).any Node.isStrict ||
          own.isEmpty && (rest.find? fun f => f.path.isEmpty).any fun f => f.constraints.isStrict)
        ((Field.documentNode? schema).elim [] Node.demands)) := by
  rw [notes_eq_bind, h]
  change (fieldNotes registry formats (own ++ rest) >>= _) = _
  rw [fieldNotes_eq hv]
  obtain ⟨rfl, hroot, hdemands⟩ | ⟨f, rfl, hplace, hroot, hdemands⟩ := Field.ownFields_cases hown
  · rw [List.nil_append, hroot, hdemands]
    cases hfind : rest.find? fun f => f.path.isEmpty with
    | none => simp [Note.inOrder, bind, Except.bind]
    | some f =>
      have hnothing := hrest f (List.mem_of_find?_eq_some hfind)
      simp [Note.inOrder, rootNotes_eq hv hstrict, hnothing, bind, Except.bind]
  · simp [Note.inOrder, rootNotes_eq hv hstrict, hplace, hroot, hdemands, bind, Except.bind]

/-- What a register is handed for a document. The fields are that of the document itself, which
comes first if there is one, and those made at sites. Handed over is the definition of each field
made at a site unless its place is empty, in their order; then once that unknown members are
refused, if the node of the document refuses them, or if the document has no field of its own and
the first field at the empty place refuses them; and then a definition for each pair that the node
of the document demands. So it is what it should be exactly if no field made at a site is at the
empty place, where only the field of a property without a name can be. -/
theorem handed_over_exactly (formats : Formats) (hv : "v" ∈ registry.methods)
    (hstrict : "strict" ∈ registry.methods) {schema : Json} {fields : List Field}
    (h : Field.ofSchema schema "" none = .ok fields) :
    ∃ (own : List Field) (sites : List Field.Site) (rest : List Field) (handed : List Note),
      fields = own ++ rest ∧ Field.ownFields schema "" none = .ok own ∧ own.length ≤ 1 ∧
      (∀ s ∈ sites, ∃ up, Field.Branches schema "" none s up) ∧
      List.Forall₂ (fun s f => s.Makes (Pointer.document schema none) f ∧
        (f.path = "" ↔ s.role = .property ∧ s.name = "" ∧ s.above = "")) sites rest ∧
      notes registry schema formats = .ok handed ∧
      (∀ f, registerAll registry f schema formats = handed.mapM (Note.enter f)) ∧
      handed = Note.inOrder formats (rest.filter fun f => !f.path.isEmpty)
        ((Field.documentNode? schema).any Node.isStrict ||
          own.isEmpty && (rest.find? fun f => f.path.isEmpty).any fun f => f.constraints.isStrict)
        ((Field.documentNode? schema).elim [] Node.demands) ∧
      (handed = Note.inOrder formats rest ((Field.documentNode? schema).any Node.isStrict)
          ((Field.documentNode? schema).elim [] Node.demands) ↔
        ∀ f ∈ rest, f.path ≠ "") := by
  obtain ⟨own, rest, hown, hrest, rfl⟩ := Field.exists_of_ofSchema h
  obtain ⟨sites, hbranches, hmakes⟩ : Field.MadeOnBranches (Pointer.document schema none)
      (Field.firstSites schema "" none) rest :=
    .ofSites (fun s hs here hhere => Field.madeOnBranches_answer (.start hs) hhere) hrest
  have hnothing : ∀ f ∈ rest, demandPairs f.constraints = [] := by
    intro f hf
    obtain ⟨s, -, hmake⟩ := exists_of_forall₂ hmakes hf
    exact hmake.demandPairs_eq
  have hplaces : List.Forall₂ (fun s f => s.Makes (Pointer.document schema none) f ∧
      (f.path = "" ↔ s.role = .property ∧ s.name = "" ∧ s.above = "")) sites rest :=
    hmakes.imp fun s f hmake => ⟨hmake, by rw [hmake.path_eq, Field.Site.path_eq_empty_iff]⟩
  have hnotes := notes_eq formats hv hstrict hown hnothing h
  refine ⟨own, sites, rest, _, rfl, hown, (Field.ownFields_not_required hown).1, hbranches,
    hplaces, hnotes, fun f => ?entered, rfl, ?asItShould⟩
  case entered =>
    rw [registerAll, hnotes]
    rfl
  case asItShould =>
    constructor
    · -- a definition is handed over for each field, if it is for as many
      intro heq
      have hcount := congrArg (List.countP Note.isDefinition) heq
      rw [Note.countP_inOrder, Note.countP_inOrder] at hcount
      have hall := List.length_filter_eq_length_iff.mp (Nat.add_right_cancel hcount)
      simpa using hall
    · intro hnamed
      have hall : (rest.filter fun f => !f.path.isEmpty) = rest := by simpa using hnamed
      have hnone : (rest.find? fun f => f.path.isEmpty) = none := by simpa using hnamed
      rw [hall, hnone]
      simp

end

end

/-- An order: nothing else may be given, and for a card there has to be an address. -/
def order : Json :=
  .obj [("properties", .obj [
      ("name", .obj [("type", .str "string")]),
      ("tags", .obj [("type", .str "array"), ("items", .obj [])])]),
    ("additionalProperties", .bool false),
    ("dependentRequired", .obj [("card", .arr [.str "billing"])])]

open Sample in
/-- Its fields are handed over, that nothing else is accepted, and the definition for the address;
no field of it is at the empty place but its own. -/
theorem order_handed_over :
    ∃ rest : List Field, rest.map Field.path = ["name", "tags", "tags[*]"] ∧
      (∀ f ∈ rest, f.path ≠ "") ∧
      notes ⟨["v", "strict"], []⟩ order [] =
        .ok (Note.inOrder [] rest true [("card", .str "billing")]) := by
  obtain ⟨fields, hfields⟩ : ∃ fields, Field.ofSchema order "" none = .ok fields := ⟨_, by rfl⟩
  have hpaths : fields.map Field.path = ["", "name", "tags", "tags[*]"] := by
    cases hfields
    rfl
  obtain ⟨own, sites, rest, handed, rfl, hown, -, -, -, hnotes, -, -, hexact⟩ :=
    @handed_over_exactly ⟨["v", "strict"], []⟩ _ [] (by decide) (by decide) order fields hfields
  obtain ⟨f, rfl⟩ : ∃ f, own = [f] := by
    cases hown
    exact ⟨_, rfl⟩
  have hrest : rest.map Field.path = ["name", "tags", "tags[*]"] := List.tail_eq_of_cons_eq hpaths
  have hnamed : ∀ f ∈ rest, f.path ≠ "" := by
    intro f hf
    have hmem : f.path ∈ rest.map Field.path := List.mem_map_of_mem hf
    rw [hrest] at hmem
    rintro heq
    rw [heq] at hmem
    exact absurd hmem (by decide)
  rw [hnotes, hexact.mpr hnamed]
  exact ⟨rest, hrest, hnamed, rfl⟩

/-- A document that accepts anything, with a property without a name that accepts no members. -/
def nameless : Json :=
  .obj [("properties", .obj [("", .obj [("type", .str "object"),
    ("additionalProperties", .bool false)])])]

open Sample in
/-- The property is not handed over, but that the document refuses unknown members, which it does
not. -/
theorem nameless_taken_for_document :
    ∃ f, Field.ofSchema nameless "" none = .ok [f] ∧ f.path = "" ∧ f.typing.type = .object ∧
      Field.ownFields nameless "" none = .ok [] ∧
      (Field.documentNode? nameless).any Node.isStrict = false ∧
      notes ⟨["v", "strict"], []⟩ nameless [] = .ok [.strict "strict"] :=
  ⟨_, by rfl, by rfl, by rfl, by rfl, by rfl, by rfl⟩

end Form

end Conform
