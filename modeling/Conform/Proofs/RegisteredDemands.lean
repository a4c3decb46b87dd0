import Conform.Proofs.Dependencies
import Conform.Proofs.MissingCapabilities
import Conform.Proofs.Registration

/-!
# Conform.Proofs.RegisteredDemands

What the presence of a member demands reaches a caller by two ways:

```
dependencies, dependentRequired ─┬─ a field of its own ── definitions that are registered
                                 └─ a rule of evaluation ── reports
```

A definition is registered for each demanded member, with a test that asks for the member it depends
on. A report is made of each demanded member that is missing although the member it depends on is
there. The two are compared pair by pair: what is reported of an object are the registered pairs
whose test it passes and whose member it lacks, in the order in which they were registered
(`demands_reported`).

Demands that cannot name a member are registered like others, but the rule fails at the first one
that it looks at.
-/

namespace Conform

/-! ## Readings for several lists -/

namespace Trace

variable {α β γ : Type}

theorem each_append (f : β → Trace α) (xs ys : List β) :
    each f (xs ++ ys) = (each f xs).andThen fun _ => each f ys := by
  induction xs with
  | nil => simp [each]
  | cons x xs ih => rw [List.cons_append, each, each, ih, andThen_assoc]

theorem each_map (f : β → Trace α) (g : γ → β) (xs : List γ) :
    each f (xs.map g) = each (fun x => f (g x)) xs := by
  induction xs with
  | nil => rfl
  | cons x xs ih => rw [List.map_cons, each, each, ih]

end Trace

namespace Form

/-! ## What is registered -/

/-- A form that takes requirements that depend on a member, and nothing else. -/
def asking : Form := exposing ["requiredIf"]

/-- The member that a call asks for by its test. -/
def Call.trigger? (call : Call) : Option String :=
  match call.args with
  | [.predicate (.hasMember trigger)] => some trigger
  | _ => none

/-- What a note demands: its place, with the members on which it depends that there has to be
something. They are found by building its definition. -/
def Note.demands : Note → List (Json × String)
  | .definition _ place build =>
    match build asking with
    | .ok f => (f.calls.filterMap Call.trigger?).map fun trigger => (place, trigger)
    | .error _ => []
  | .strict _ => []

variable [Host] in
/-- Whether a value passes a test, with the document that references address and the formats of
the caller. -/
def Predicate.isPassed (root : Option Json) (formats : Formats) (p : Predicate) (value : Json) :
    Bool :=
  match p.holds root formats value with
  | .ok b => b
  | .error _ => false

theorem requestAll_of_missing {f : Form} {rs : List Request}
    (h : ∀ r ∈ rs, f.interface.method? r.capability = none) : f.requestAll rs = f := by
  induction rs with
  | nil => rfl
  | cons r rs ih =>
    obtain ⟨hr, hrs⟩ := List.forall_mem_cons.mp h
    have hsame : f.request r = f := by rw [request, hr]
    rw [requestAll_cons, hsame, ih hrs]

theorem method?_asking {capability : String} (hcapability : capability ∈ canonical)
    (hne : capability ≠ "requiredIf") : asking.interface.method? capability = none := by
  have hmethod : asking.interface.method? capability =
      if ["requiredIf"].contains capability then some capability else none :=
    method?_of_subset (by decide) hcapability
  rw [hmethod, if_neg (by simpa using hne)]

theorem requiredIf_notMem_capabilities (k : Keyword) : "requiredIf" ∉ k.capabilities := by
  cases k <;> decide

variable [Host] in
/-- No field depends on a member: its definition leaves such a form as it is. -/
theorem define_asking {formats : Formats} {field : Field} {built : Form}
    (h : asking.define formats field = .ok built) : built = asking := by
  have hsingle : asking.define formats field = asking.single formats field := by
    unfold define
    split <;> rfl
  have hchosen : asking.choose field.typing.type = asking := by
    cases field.typing.type <;> rfl
  have hbegun : asking.requestAll (nullableRequests field.typing.nullable) = asking := by
    cases field.typing.nullable <;> rfl
  rw [hsingle, single, hchosen, hbegun, constrain_eq] at h
  cases has : asked formats field.constraints (considered field.constraints) with
  | error e =>
    rw [has] at h
    cases h
  | ok as =>
    rw [has] at h
    cases h
    refine requestAll_of_missing fun r hr => ?_
    obtain ⟨a, ha, rfl⟩ := List.mem_map.mp hr
    have hcapability := (asked_mem has ha).2
    refine method?_asking (a.1.capabilities_subset hcapability) fun hname => ?_
    rw [hname] at hcapability
    exact requiredIf_notMem_capabilities a.1 hcapability

section

variable {registry : Interface} {formats : Formats}

theorem register_eq_ok {place : Json} {build : Form → Except Fault Form} {note : Note}
    (h : register registry place build = .ok note) :
    ∃ method, note = .definition method place build := by
  unfold register at h
  split at h
  · next method _ =>
    cases h
    exact ⟨method, rfl⟩
  · cases h

variable [Host] in
theorem demands_fieldNotes {fields : List Field} {notes : List Note}
    (h : fieldNotes registry formats fields = .ok notes) : notes.flatMap Note.demands = [] := by
  induction fields generalizing notes with
  | nil =>
    cases h
    rfl
  | cons field fields ih =>
    rw [fieldNotes] at h
    split at h
    · exact ih h
    · obtain ⟨note, hnote, h⟩ := bind_eq_ok h
      obtain ⟨more, hmore, h⟩ := bind_eq_ok h
      cases h
      obtain ⟨method, rfl⟩ := register_eq_ok hnote
      rw [List.flatMap_cons, ih hmore, List.append_nil, Note.demands]
      split
      · next f hf =>
        rw [define_asking hf]
        rfl
      · rfl

theorem demands_demandNotes {pairs : List (String × Json)} {notes : List Note}
    (h : demandNotes registry pairs = .ok notes) :
    notes.flatMap Note.demands = pairs.map Prod.swap := by
  induction pairs generalizing notes with
  | nil =>
    cases h
    rfl
  | cons pair pairs ih =>
    obtain ⟨note, hnote, h⟩ := bind_eq_ok h
    obtain ⟨more, hmore, h⟩ := bind_eq_ok h
    cases h
    obtain ⟨method, rfl⟩ := register_eq_ok hnote
    rw [List.flatMap_cons, ih hmore]
    rfl

theorem demands_rootNotes {c : Constraints} {notes : List Note}
    (h : rootNotes registry c = .ok notes) :
    notes.flatMap Note.demands = (demandPairs c).map Prod.swap := by
  obtain ⟨demands, hdemands, h⟩ := bind_eq_ok h
  cases h
  have hstrict : (strictNotes registry c).flatMap Note.demands = [] := by
    unfold strictNotes
    split
    · cases registry.method? "strict" <;> rfl
    · rfl
  rw [List.flatMap_append, hstrict, List.nil_append, demands_demandNotes hdemands]

/-- Of all fields only that of the document itself demands anything. -/
theorem demandPairs_fields {schema : Json} {fields : List Field}
    (h : Field.ofSchema schema "" none = .ok fields) :
    ((fields.find? fun f => f.path.isEmpty).elim [] fun f => demandPairs f.constraints) =
      (Field.documentNode? schema).elim [] Node.demands := by
  obtain ⟨own, rest, hown, hrest, rfl⟩ := Field.exists_of_ofSchema h
  obtain ⟨sites, -, hmakes⟩ : Field.MadeOnBranches (Pointer.document schema none)
      (Field.firstSites schema "" none) rest :=
    .ofSites (fun s hs here hhere => Field.madeOnBranches_answer (.start hs) hhere) hrest
  obtain ⟨rfl, -, hdemands⟩ | ⟨f, rfl, hplace, -, hdemands⟩ := Field.ownFields_cases hown
  · rw [hdemands, List.nil_append]
    cases hfind : rest.find? fun f => f.path.isEmpty with
    | none => rfl
    | some f =>
      obtain ⟨s, -, hmake⟩ := exists_of_forall₂ hmakes (List.mem_of_find?_eq_some hfind)
      exact hmake.demandPairs_eq
  · have hempty : f.path.isEmpty = true := by
      rw [hplace]
      rfl
    rw [List.singleton_append, List.find?_cons_of_pos (p := fun f : Field => f.path.isEmpty) hempty]
    exact hdemands

variable [Host] in
/-- The definitions that are registered demand what the node of the document does. -/
theorem demands_notes {schema : Json} {handed : List Note}
    (h : notes registry schema formats = .ok handed) :
    handed.flatMap Note.demands =
      ((Field.documentNode? schema).elim [] Node.demands).map Prod.swap := by
  rw [notes_eq_bind] at h
  obtain ⟨fields, hfields, h⟩ := bind_eq_ok h
  obtain ⟨notes, hnotes, h⟩ := bind_eq_ok h
  have hpairs := demandPairs_fields hfields
  cases hfind : fields.find? fun f => f.path.isEmpty with
  | none =>
    rw [hfind] at h hpairs
    cases h
    rw [← hpairs, demands_fieldNotes hnotes]
    rfl
  | some f =>
    rw [hfind] at h hpairs
    obtain ⟨more, hmore, h⟩ := bind_eq_ok h
    cases h
    rw [← hpairs, List.flatMap_append, demands_fieldNotes hnotes, List.nil_append,
      demands_rootNotes hmore]
    rfl

end

end Form

/-! ## What is reported -/

namespace Evaluation

/-- Whether an object has no member of a name. What is no text names none. -/
def isMissing (ms : Members) : Json → Bool
  | .str name => !Table.has ms name
  | _ => true

/-- Whether what is demanded can be a name and, if it is missing, be written in a report. -/
def isDemandable (ms : Members) (name : Json) : Bool :=
  name.isKey && (!isMissing ms name || name.numeralsFit)

/-- What stops the rule at a demand that is not demandable. -/
def demandFault (name : Json) : Fault := if name.isKey then .notAllowed else .wrongKind

/-- The report of a member that is missing beside another one. -/
def missing (demand : Json × String) : Violation :=
  ⟨demand.1, .dependentRequired,
    "Property '" ++ demand.1.words ++ ("' is required when '" ++ demand.2 ++ "' is present"), .null,
    .str demand.2⟩

/-- The rule for one demand on a document. -/
def demandRule (ms : Members) (d : Json × String) : Trace Violation :=
  demand ms "" .dependentRequired "Property '" ("' is required when '" ++ d.2 ++ "' is present")
    d.1 (.str d.2)

theorem hasMember_eq (ms : Members) (name : Json) :
    hasMember ms name =
      if name.isKey then .ok (!isMissing ms name) else .error .wrongKind := by
  cases name with
  | str s => simp [hasMember, isMissing, Json.isKey]
  | _ => rfl

/-- The rule for one demand reports a member that is missing, or is stopped. -/
theorem demandRule_eq (ms : Members) (d : Json × String) :
    demandRule ms d =
      if isDemandable ms d.1 then if isMissing ms d.1 then .find (missing d) else .done
      else .stop (demandFault d.1) := by
  rw [demandRule, demand, hasMember_eq, isDemandable, demandFault, missing]
  cases hkey : d.1.isKey with
  | false => rfl
  | true =>
    cases hmissing : isMissing ms d.1 with
    | false => rfl
    | true =>
      cases hfit : d.1.numeralsFit with
      | false => simp [Trace.after, reportUnless, Json.shown?, hfit, Fault.written]
      | true => simp [Trace.after, reportUnless, Json.shown?, hfit, Fault.written, Path.demanded]

/-- Demands are looked at in turn, up to one that cannot be a name or be written. -/
theorem each_demandRule (ms : Members) (ds : List (Json × String)) :
    Trace.each (demandRule ms) ds =
      ⟨((ds.takeWhile fun d => isDemandable ms d.1).filter fun d => isMissing ms d.1).map missing,
        (ds.find? fun d => !isDemandable ms d.1).map fun d => demandFault d.1⟩ := by
  induction ds with
  | nil => rfl
  | cons d ds ih =>
    rw [Trace.each, demandRule_eq, ih, List.takeWhile_cons, List.find?_cons]
    cases hdemandable : isDemandable ms d.1 with
    | false => rfl
    | true =>
      rw [if_pos rfl, if_pos rfl, List.filter_cons]
      cases isMissing ms d.1 <;> rfl

/-- The rule looks at the demands of the members that are there. -/
theorem dependentRequiredRule_eq_each {n : Node} (hplain : n.composition.present = false)
    (ms : Members) :
    dependentRequiredRule n.object ms "" =
      Trace.each (demandRule ms)
        ((n.demands.map Prod.swap).filter fun d => Table.has ms d.2) := by
  rw [Node.demands, hplain, if_neg Bool.false_ne_true, dependentRequiredRule]
  induction n.object.dependentRequired with
  | nil => rfl
  | cons e es ih =>
    obtain ⟨trigger, names⟩ := e
    have hswap : (names.map fun name => (trigger, name)).map Prod.swap =
        names.map fun name => (name, trigger) := by
      rw [List.map_map]
      rfl
    have hhere : (if Table.has ms trigger then
        Trace.each (fun name => demandRule ms (name, trigger)) names else .done) =
        Trace.each (demandRule ms)
          ((names.map fun name => (name, trigger)).filter fun d => Table.has ms d.2) := by
      cases hthere : Table.has ms trigger with
      | true => rw [if_pos rfl, List.filter_eq_self.mpr (by simp [hthere]), Trace.each_map]
      | false =>
        rw [if_neg Bool.false_ne_true, List.filter_eq_nil_iff.mpr (by simp [hthere])]
        rfl
    rw [Trace.each, ih, List.flatMap_cons, List.map_append, List.filter_append, Trace.each_append,
      hswap, ← hhere]
    simp only [demandRule]

variable [Host] in
/-- A schema is read as what its references lead to, behind their chain. -/
theorem descend_chased {scope : Scope} {refs : List String} {height : Nat} {s leaf : Json}
    {chain longer : List String} (hscope : Call.Bounds refs height scope)
    (h : Field.Chased scope.root s chain leaf longer) (value : Json) (path : String) {n : Nat}
    (hs : Call.Bounded refs height ⟨value, s, path, chain⟩)
    (hn : Call.rank refs height ⟨value, s, path, chain⟩ < n) :
    ∃ k, descend scope n value s path chain = descend scope (k + 1) value leaf path longer := by
  induction h generalizing n with
  | here =>
    obtain ⟨k, rfl⟩ : ∃ k, n = k + 1 := ⟨n - 1, by omega⟩
    exact ⟨k, rfl⟩
  | @follow s t leaf ref chain longer hfollows hnew _ ih =>
    obtain ⟨k, rfl⟩ : ∃ k, n = k + 1 := ⟨n - 1, by omega⟩
    obtain ⟨ms, rfl, href⟩ := hfollows.exists_members
    obtain ⟨root, hroot, hresolve⟩ := hfollows.resolves
    have hpermit : Pointer.permit scope.guarded (.str ref) chain = .ok () :=
      Pointer.permit_eq_ok_iff.mpr fun _ => hnew
    have htarget : referred scope (.str ref) = .ok t := by rw [referred, hroot]; exact hresolve
    have hopens : Call.Opens scope ⟨value, .obj ms, path, chain⟩ ⟨value, t, path, ref :: chain⟩ :=
      .follow href hpermit htarget
    have hstep : descend scope (k + 1) value (.obj ms) path chain =
        descend scope k value t path (ref :: chain) := by
      simp only [descend, step, href, followRule, hpermit, htarget, Trace.after, Pointer.lengthen]
    rw [hstep]
    have hlt := Call.rank_lt_of_opens hscope hs hopens
    exact ih (hs.of_opens hscope hopens) (by omega)

variable [Host] in
/-- Evaluation against a document applies the rules of the node that its references end at. -/
theorem exists_run_eq_documentNode {schema : Json} {n : Node}
    (hn : Field.documentNode? schema = some n) (value : Json) (path : String) (formats : Formats) :
    ∃ (self : Evaluate) (chain : List String), run value schema none path formats =
      nodeRules (scopeFor schema none formats) self n value path chain := by
  unfold Field.documentNode? at hn
  split at hn
  · next ms chain hsettle =>
    have hchased := Field.chased_of_settle hsettle
    have hread : Node.ofMembers ms = .ok n := by
      cases hms : Node.ofMembers ms with
      | error f =>
        rw [hms] at hn
        cases hn
      | ok m =>
        rw [hms] at hn
        cases hn
        rfl
    have href : Table.keyword ms "$ref" = none := by
      have hnone : ms.lookup "$ref" = none := hchased.get?_eq_none
      rw [Table.keyword, hnone]
    obtain ⟨k, hk⟩ := descend_chased (bounds_scopeFor schema none formats) hchased value path
      (bounded_start value schema path _) (rank_lt_budget value schema path _)
    exact ⟨descend (scopeFor schema none formats) k, chain,
      hk.trans (descend_of_readsAs (.keywords href hread) _ k value path chain)⟩
  · cases hn

end Evaluation

namespace Form

variable [Host] in
/-- The pairs of what is demanded and the member it depends on that are registered for a document
and whose test a value passes. -/
def demanded (schema : Json) (formats : Formats) (handed : List Note) (value : Json) :
    List (Json × String) :=
  (handed.flatMap Note.demands).filter fun d =>
    (Predicate.hasMember d.2).isPassed (some schema) formats value

variable [Host] in
/-- What a register is handed demands what evaluation demands. Take a document that does not combine
schemas, and an object. Evaluation applies the rules of the node of the document, and what its rule
for demands reports are the pairs that are registered, each with its place and the member it depends
on as the constraint: in their order, those whose test the object passes and whose member it lacks.
If what is demanded beside a member that is there cannot be a name, or is missing and cannot be
written, the rule fails there, having reported what comes before. -/
theorem demands_reported {registry : Interface} {schema : Json} {formats : Formats}
    {handed : List Note} {n : Node} (h : notes registry schema formats = .ok handed)
    (hn : Field.documentNode? schema = some n) (hplain : n.composition.present = false)
    (ms : Members) :
    Evaluation.dependentRequiredRule n.object ms "" =
      ⟨(((demanded schema formats handed (.obj ms)).takeWhile fun d =>
          Evaluation.isDemandable ms d.1).filter fun d =>
            Evaluation.isMissing ms d.1).map Evaluation.missing,
        ((demanded schema formats handed (.obj ms)).find? fun d =>
          !Evaluation.isDemandable ms d.1).map fun d => Evaluation.demandFault d.1⟩ ∧
    ((∀ d ∈ demanded schema formats handed (.obj ms), Evaluation.isDemandable ms d.1 = true) →
      ((Evaluation.dependentRequiredRule n.object ms "").found.map fun v =>
          (v.path, v.constraint)) =
        ((demanded schema formats handed (.obj ms)).filter fun d =>
          Evaluation.isMissing ms d.1).map fun d => (d.1, .str d.2)) ∧
    ∃ (self : Evaluate) (chain : List String),
      Evaluation.run (.obj ms) schema none "" formats =
        Evaluation.nodeRules (Evaluation.scopeFor schema none formats) self n (.obj ms) ""
          chain := by
  have hpairs : handed.flatMap Note.demands = n.demands.map Prod.swap := by
    rw [demands_notes h, hn]
    rfl
  have hdemanded : demanded schema formats handed (.obj ms) =
      (n.demands.map Prod.swap).filter fun d => Table.has ms d.2 := by
    rw [demanded, hpairs]
    rfl
  have hrule := Evaluation.dependentRequiredRule_eq_each hplain ms
  rw [Evaluation.each_demandRule, ← hdemanded] at hrule
  refine ⟨hrule, fun hkeys => ?_, Evaluation.exists_run_eq_documentNode hn _ _ _⟩
  rw [hrule, List.takeWhile_eq_self_iff.mpr hkeys, List.map_map]
  rfl

/-- An order by reference: a card asks for an address, in either spelling, and a gift for both its
ends. -/
def giftOrder : Json :=
  .obj [("$ref", .str "#/definitions/order"),
    ("definitions", .obj [("order", .obj [
      ("dependencies", .obj [("card", .arr [.str "billing"]), ("gift", .arr [.str "card"])]),
      ("dependentRequired", .obj [("gift", .arr [.str "from", .str "to"])])])])]

/-- Its node. -/
def giftNode : Node where
  object := { dependentRequired :=
    [("card", [.str "billing"]), ("gift", [.str "from", .str "to"])] }

open Sample in
/-- Three pairs are registered for it. Of a gift by card to somebody, the address and the sender are
reported. -/
theorem giftOrder_reported :
    ∃ handed : List Note,
      notes ⟨["v", "strict"], []⟩ giftOrder [] = .ok handed ∧
      Field.documentNode? giftOrder = some giftNode ∧ giftNode.composition.present = false ∧
      handed.flatMap Note.demands =
        [(.str "billing", "card"), (.str "from", "gift"), (.str "to", "gift")] ∧
      ((Evaluation.dependentRequiredRule giftNode.object
          [("card", .num (.int 1)), ("gift", .null), ("to", .str "you")] "").found.map fun v =>
          (v.path, v.constraint)) =
        [(.str "billing", .str "card"), (.str "from", .str "gift")] := by
  have hn : Field.documentNode? giftOrder = some giftNode := by cbv
  have hplain : giftNode.composition.present = false := by decide
  have hpairs : (notes ⟨["v", "strict"], []⟩ giftOrder []).map (fun h => h.flatMap Note.demands) =
      .ok [(.str "billing", "card"), (.str "from", "gift"), (.str "to", "gift")] := by cbv
  cases hhanded : notes ⟨["v", "strict"], []⟩ giftOrder [] with
  | error f =>
    rw [hhanded] at hpairs
    cases hpairs
  | ok handed =>
    rw [hhanded] at hpairs
    have hdemands : handed.flatMap Note.demands =
        [(.str "billing", "card"), (.str "from", "gift"), (.str "to", "gift")] :=
      Except.ok.inj hpairs
    have hall : demanded giftOrder [] handed
        (.obj [("card", .num (.int 1)), ("gift", .null), ("to", .str "you")]) =
          [(.str "billing", "card"), (.str "from", "gift"), (.str "to", "gift")] := by
      rw [demanded, hdemands]
      rfl
    obtain ⟨-, hreported, -⟩ := demands_reported hhanded hn hplain
      [("card", .num (.int 1)), ("gift", .null), ("to", .str "you")]
    rw [hall] at hreported
    exact ⟨handed, rfl, hn, hplain, hdemands, (hreported (by decide)).trans (by rfl)⟩

end Form

end Conform
