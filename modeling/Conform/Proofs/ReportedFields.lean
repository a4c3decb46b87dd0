import Conform.Proofs.Agreement
import Conform.Proofs.FieldPlaces
import Conform.Proofs.Location
import Mathlib

/-!
# Conform.Proofs.ReportedFields

Whatever is reported of a document has a field to stand at. Evaluation goes down in the value and
takes at each step the schema of that kind of value; the fields go down in the schema and take at
each step all schemas that its declared types allow. They come to the same places, because a value
of none of the declared types is reported where it is and not looked into.

Two kinds of reports have no field below the document. A report of the whole lies at the empty
place, and a member may be demanded that has no schema.
-/

namespace Conform

namespace Evaluation

/-! ## Reports of a value itself -/

/-- A report of a value, from an evaluation of it at a place. -/
structure IsOf (v : Json) (p : String) (e : Violation) : Prop where
  path : e.path = .str p
  code : e.code.isOfValue = true
  value : e.value = v

section

variable {v : Json} {p : String} {self : Evaluate} {chain : List String}

theorem only_violation {code : Code} (hcode : code.isOfValue = true) (message : String)
    (constraint : Json) : (violation p code message v constraint).Only (IsOf v p) :=
  .find ⟨rfl, hcode, rfl⟩

theorem only_reportUnless {P : Violation → Prop} {t : Trace Violation} (ok : Bool) (h : t.Only P) :
    (reportUnless ok t).Only P := by
  cases ok with
  | true => exact .done
  | false => exact h

theorem only_limitRule (limit : Option Json) (breaks : Number → Bool) {code : Code}
    (hcode : code.isOfValue = true) (before behind : String) :
    (limitRule limit breaks code before behind v p).Only (IsOf v p) := by
  refine .after fun found _ => ?_
  cases found with
  | none => exact .done
  | some j => exact .after fun words _ => only_violation hcode _ _

variable [Host] in
theorem only_stringRules (formats : Formats) (k : StringKeywords) (s : String) :
    (stringRules formats k s p).Only (IsOf (.str s) p) := by
  refine .inTurn_cons (only_limitRule _ _ rfl _ _) (.inTurn_cons (only_limitRule _ _ rfl _ _)
    (.inTurn_cons ?pattern (.inTurn_cons ?format (.inTurn_cons ?encoding
    (.inTurn_cons ?media .inTurn_nil)))))
  case pattern =>
    unfold patternRule
    split
    · exact .done
    · split
      · exact .done
      · exact .after fun ok _ => only_reportUnless ok (.after fun words _ => only_violation rfl _ _)
  case format =>
    unfold formatRule
    split
    · exact .done
    · split
      · exact .done
      · exact .after fun ok _ => only_reportUnless ok (.after fun words _ => only_violation rfl _ _)
  case encoding =>
    unfold contentEncodingRule
    split
    · exact only_reportUnless _ (only_violation rfl _ _)
    · exact .done
  case media =>
    unfold contentMediaTypeRule
    split
    · split
      · exact .done
      · exact .after fun ok _ => only_reportUnless ok (only_violation rfl _ _)
    · exact .done

theorem only_numberRules (k : NumberKeywords) (m : Number) :
    (numberRules k m p).Only (IsOf (.num m) p) := by
  refine .inTurn_cons (only_limitRule _ _ rfl _ _) (.inTurn_cons (only_limitRule _ _ rfl _ _)
    (.inTurn_cons (only_limitRule _ _ rfl _ _) (.inTurn_cons (only_limitRule _ _ rfl _ _)
    (.inTurn_cons ?_ .inTurn_nil))))
  unfold multipleOfRule
  split
  · exact .done
  · exact .after fun ok _ => only_reportUnless ok (.after fun words _ => only_violation rfl _ _)

theorem only_containsRule (k : ArrayKeywords) (xs : List Json) :
    (containsRule self k xs p).Only (IsOf (.arr xs) p) := by
  unfold containsRule
  split
  · exact .done
  · exact .after fun ok _ => only_reportUnless ok (only_violation rfl _ _)

theorem only_typeMismatch (types : List Json) : (typeMismatch types v p).Only (IsOf v p) := by
  refine .after fun words _ => ?_
  split
  · exact .stop _
  · exact only_violation rfl _ _
  · exact only_violation rfl _ _

theorem only_nullMismatch (n : Node) : (nullMismatch n p).Only (IsOf .null p) :=
  .after fun _ _ => only_violation rfl _ _

theorem only_unsettledRule (n : Node) : (unsettledRule n v p).Only (IsOf v p) := by
  refine .andThen ?_ ?_
  · split
    · exact .after fun words _ => only_violation rfl _ _
    · exact .done
  · split
    · exact only_reportUnless _ (.after fun choices _ => only_violation rfl _ _)
    · exact .done

/-- Schemas that are combined are only asked whether they accept. -/
theorem only_combinationRules {n : Node} (hn : n.Fielded) :
    (combinationRules self n v p chain).Only (IsOf v p) := by
  refine .inTurn_cons ?all (.inTurn_cons ?any (.inTurn_cons ?one (.inTurn_cons ?not
    (.inTurn_cons ?conditional .inTurn_nil))))
  case all =>
    rw [hn.allOf]
    exact .done
  case any =>
    unfold anyOfRule
    split
    · exact .done
    · exact .after fun ok _ => only_reportUnless ok (only_violation rfl _ _)
  case one =>
    unfold oneOfRule
    split
    · exact .done
    · refine .after fun count _ => ?_
      split
      · exact only_violation rfl _ _
      · exact .done
      · exact only_violation rfl _ _
  case not =>
    unfold notRule
    split
    · exact .done
    · exact .after fun ok _ => only_reportUnless _ (only_violation rfl _ _)
  case conditional =>
    rw [conditionalRule, hn.test]
    exact .done

end

/-! ## Reports of a value and its parts -/

/-- Where a report lies, from an evaluation of a value against a schema at a place: at what steps
lead to that the schema has a schema for, or at a member that an object there is asked for without
a schema of its name. -/
inductive Placed (v s : Json) (p : String) (e : Violation) : Prop where
  | governed {u : Json} {steps : List Path.Step} (hs : s.Governs steps u)
      (hpath : e.path = .str (Path.render p steps)) (hpoints : e.PointsAt v steps) : Placed v s p e
  | undeclared {u name : Json} {n : Node} {ms : Members} {steps : List Path.Step}
      (hs : s.Governs steps u) (hn : u.ReadsAs n) (hv : v.at? steps = some (.obj ms))
      (hcode : e.code = .required) (hname : name ∈ n.object.required)
      (hmissing : hasMember ms name = .ok false)
      (hnone : ∀ m, name = .str m → Table.has n.object.properties m = false)
      (hpath : e.path = Path.demanded (Path.render p steps) name) : Placed v s p e

section

variable {v w s t : Json} {n : Node} {p : String} {e : Violation} {self : Evaluate}
  {chain : List String} {ms : Members} {xs : List Json}

theorem IsOf.placed (h : IsOf v p e) : Placed v s p e :=
  .governed (.here s) h.path (.value h.code (by rw [Json.at?_nil, h.value]))

/-- A report of a part of a value, against the schema for that part, is one of the value. -/
theorem Placed.of_step {step : Path.Step} (hpart : s.GovernsPart step t) (hw : v.StepsTo step w)
    (h : Placed w t (Path.extend p step) e) : Placed v s p e := by
  cases h with
  | governed ht hpath hpoints => exact .governed (.step hpart ht) hpath (hpoints.of_step hw)
  | undeclared ht hn hv hcode hname hmissing hnone hpath =>
    exact .undeclared (.step hpart ht) hn ((hw.at?_cons _).trans hv) hcode hname hmissing hnone
      hpath

/-- Everything that was found of a value at a place lies where it may. -/
def Places (v s : Json) (p : String) (t : Trace Violation) : Prop :=
  v.Distinct → v.Supplied → t.Only (Placed v s p)

theorem Places.of_only {t : Trace Violation} (h : t.Only (IsOf v p)) : Places v s p t :=
  fun _ _ => h.imp fun _ he => he.placed

theorem Places.andThen {t : Trace Violation} {next : Unit → Trace Violation} (h : Places v s p t)
    (h' : Places v s p (next ())) : Places v s p (t.andThen next) :=
  fun hdistinct hsupplied => (h hdistinct hsupplied).andThen (h' hdistinct hsupplied)

theorem Places.inTurn_nil : Places v s p (.inTurn []) := fun _ _ => .inTurn_nil

theorem Places.inTurn_cons {u : Unit → Trace Violation} {ts : List (Unit → Trace Violation)}
    (h : Places v s p (u ())) (h' : Places v s p (.inTurn ts)) : Places v s p (.inTurn (u :: ts)) :=
  h.andThen h'

/-- A demanded member that has a schema of its name has a place below the object. -/
theorem places_requiredRule (hs : s.ReadsAs n) (hobject : n.declares "object" = true) :
    Places (.obj ms) s p (requiredRule n.object ms p) := by
  refine fun _ _ => .each fun name hname => .after fun there hthere => ?_
  cases there with
  | true => exact .done
  | false =>
    refine .after fun words _ => .find ?_
    by_cases hdeclared : ∃ m, name = .str m ∧ Table.has n.object.properties m = true
    · obtain ⟨m, rfl, hm⟩ := hdeclared
      obtain ⟨t, ht⟩ := Option.isSome_iff_exists.mp hm
      have hmissing : Table.has ms m = false := Except.ok.inj hthere
      exact .governed (.step (.name hs hobject ht) (.here t)) (Path.demanded_str p m)
        (.missing_here (.inl rfl) hmissing)
    · refine .undeclared (.here s) hs (Json.at?_nil _) rfl hname hthere (fun m hm => ?_) rfl
      exact Bool.eq_false_iff.mpr fun hhas => hdeclared ⟨m, hm, hhas⟩

theorem places_propertiesRule (hs : s.ReadsAs n) (hobject : n.declares "object" = true)
    (hself : ∀ e ∈ n.object.properties, ∀ w q, Places w e.2 q (self w e.2 q [])) :
    Places (.obj ms) s p (propertiesRule self n.object ms p) := by
  refine fun hdistinct hsupplied => .each fun e he => ?_
  obtain ⟨m, child⟩ := e
  dsimp only
  split
  · next t ht =>
    have hw : (Json.obj ms).StepsTo (.name m) child := by
      rw [Json.Distinct] at hdistinct
      exact .name (lookup_of_mem hdistinct.1 he)
    exact (hself _ (mem_of_lookup ht) child (Path.name p m) (hw.distinct hdistinct)
      (hw.supplied hsupplied)).imp fun e he => he.of_step (.name hs hobject ht) hw
  · exact .done

theorem places_uniformItems (hs : s.ReadsAs n) (harray : n.declares "array" = true)
    (hitems : n.array.items = some t) (hself : ∀ w q, Places w t q (self w t q [])) {i : Nat}
    {rest : List Json} (hrest : xs.drop i = rest) :
    Places (.arr xs) s p (uniformItems self t p i rest) := by
  induction rest generalizing i with
  | nil => exact .inTurn_nil
  | cons x rest ih =>
    have hi : xs[i]? = some x := by rw [← List.head?_drop, hrest, List.head?_cons]
    have htail : xs.drop (i + 1) = rest := by rw [← List.tail_drop, hrest, List.tail_cons]
    refine .andThen (fun hdistinct hsupplied => ?_) (ih htail)
    have hw : (Json.arr xs).StepsTo (.index i) x := .index hi
    exact (hself x (Path.index p i) (hw.distinct hdistinct) (hw.supplied hsupplied)).imp
      fun e he => he.of_step (.index hs harray hitems) hw

variable [Host] in
/-- An object of a declared type is looked into through named schemas only. -/
theorem places_objectRules (hs : s.ReadsAs n) (hn : n.Fielded)
    (hobject : n.declares "object" = true)
    (hself : ∀ e ∈ n.object.properties, ∀ w q, Places w e.2 q (self w e.2 q [])) :
    Places (.obj ms) s p (objectRules self n.object ms p chain) := by
  refine .inTurn_cons (.of_only (only_limitRule _ _ rfl _ _))
    (.inTurn_cons (.of_only (only_limitRule _ _ rfl _ _))
    (.inTurn_cons (places_requiredRule hs hobject)
    (.inTurn_cons (places_propertiesRule hs hobject hself)
    (.inTurn_cons ?patterns (.inTurn_cons ?additional (.inTurn_cons ?names
    (.inTurn_cons ?demands (.inTurn_cons ?schemas .inTurn_nil))))))))
  case patterns =>
    rw [patternPropertiesRule, hn.patternProperties]
    exact .of_only (.each fun _ _ => .done)
  case additional =>
    rw [additionalPropertiesRule, hn.additionalProperties]
    exact .inTurn_nil
  case names =>
    rw [propertyNamesRule, hn.propertyNames]
    exact .inTurn_nil
  case demands =>
    rw [dependentRequiredRule, hn.dependentRequired]
    exact .inTurn_nil
  case schemas =>
    rw [dependentSchemasRule, hn.dependentSchemas]
    exact .inTurn_nil

/-- An array of a declared type is looked into through the schema of its items only. -/
theorem places_arrayRules (hs : s.ReadsAs n) (harray : n.declares "array" = true)
    (hlist : ∀ schemas, n.array.items ≠ some (.arr schemas))
    (hself : ∀ t, n.array.items = some t → ∀ w q, Places w t q (self w t q [])) :
    Places (.arr xs) s p (arrayRules self n.array xs p) := by
  refine .inTurn_cons (.of_only (only_limitRule _ _ rfl _ _))
    (.inTurn_cons (.of_only (only_limitRule _ _ rfl _ _))
    (.inTurn_cons (.of_only (only_reportUnless _ (only_violation rfl _ _)))
    (.inTurn_cons ?items (.inTurn_cons (.of_only (only_containsRule _ _)) .inTurn_nil))))
  unfold itemsRule
  split
  · exact .inTurn_nil
  · next hitems => exact absurd hitems (hlist _)
  · next hitems => exact places_uniformItems hs harray hitems (hself _ hitems) rfl

/-! ## Evaluation -/

/-- A value of a declared type is of a kind that is declared. -/
theorem declares_of_hasSomeType {types : List Json} (name : String) (htypes : n.types = some types)
    (h : v.hasSomeType types = true) (hname : ∀ m, v.hasTypeName m = true → m = name) :
    n.declares name = true := by
  obtain ⟨type, hmem, htype⟩ := List.any_eq_true.mp h
  cases type with
  | str m =>
    rw [hname m htype] at hmem
    rw [Node.declares, htypes]
    exact List.contains_iff_mem.mpr hmem
  | _ => cases htype

/-- What is asked of the readings for schemas of parts. -/
structure PlacesParts (read : Evaluate) (n : Node) : Prop where
  named : ∀ e ∈ n.object.properties, ∀ w q, Places w e.2 q (read w e.2 q [])
  items : ∀ t, n.array.items = some t → ∀ w q, Places w t q (read w t q [])
  alone : ∀ schemas, n.array.items ≠ some (.arr schemas)

variable {scope : Scope}

section

variable [Host]

theorem places_kindRules (hs : s.ReadsAs n) (hn : n.Fielded) (hself : PlacesParts self n)
    {types : List Json} (htypes : n.types = some types) (hv : v.hasSomeType types = true) :
    Places v s p (kindRules scope self n v p chain) := by
  cases v with
  | str text => exact .of_only (only_stringRules _ _ _)
  | num m => exact .of_only (only_numberRules _ _)
  | arr xs =>
    have harray := declares_of_hasSomeType "array" htypes hv fun m hm => beq_iff_eq.mp hm
    exact places_arrayRules hs harray hself.alone hself.items
  | obj ms =>
    have hobject := declares_of_hasSomeType "object" htypes hv fun m hm => beq_iff_eq.mp hm
    exact places_objectRules hs hn hobject hself.named
  | _ => exact .inTurn_nil

theorem places_typedRules (hs : s.ReadsAs n) (hn : n.Fielded) (hself : PlacesParts self n) :
    Places v s p (typedRules scope self n v p chain) := by
  obtain ⟨names, hnames⟩ := hn.types
  rw [typedRules, hnames]
  dsimp only
  split
  · next hv =>
    unfold settledRules
    split
    · exact .inTurn_nil
    · exact .inTurn_cons (.of_only (only_unsettledRule n))
        (.inTurn_cons (places_kindRules hs hn hself hnames hv)
        (.inTurn_cons (.of_only (only_combinationRules hn)) .inTurn_nil))
  · exact .of_only (only_typeMismatch _)

theorem places_nodeRules (hs : s.ReadsAs n) (hn : n.Fielded) (hself : PlacesParts self n) :
    Places v s p (nodeRules scope self n v p chain) := by
  unfold nodeRules
  split
  · exact fun _ hsupplied => absurd (Json.at?_nil _) (hsupplied [])
  · split
    · exact .inTurn_nil
    · split
      · exact .of_only (only_nullMismatch n)
      · exact places_typedRules hs hn hself
  · exact places_typedRules hs hn hself

/-- Evaluation reports what lies where the schemas of parts lead, and what they demand besides. -/
theorem places_descend (h : s.Fielded) (fuel : Nat) (v : Json) (p : String) (chain : List String) :
    Places v s p (descend scope fuel v s p chain) := by
  induction fuel generalizing s v p chain with
  | zero => exact .of_only (.stop _)
  | succ fuel ih =>
    cases h with
    | @keywords ms n href hn hfielded hnamed hitems =>
      have hkeyword : Table.keyword ms "$ref" = none := by rw [Table.keyword, href]
      have hself : PlacesParts (descend scope fuel) n := {
        named := fun e he w q => ih (hnamed e he) w q []
        items := fun t ht w q => ih (hitems t ht) w q []
        alone := fun schemas hschemas => (hitems _ hschemas).ne_arr schemas rfl }
      have hreads : (Json.obj ms).ReadsAs n := .keywords hkeyword hn
      rw [descend_of_readsAs hreads]
      exact places_nodeRules hreads hfielded hself

theorem places_run (h : s.Fielded) (v : Json) (root : Option Json) (p : String)
    (formats : Formats) : Places v s p (run v s root p formats) :=
  places_descend h _ v p []

end

end

end Evaluation

namespace Report

/-- Where a report of a document stands: at the place of the document, or at that of the field for
what steps lead to, or at a member that an object is asked for without a schema of its name. -/
inductive StandsOn (schema value : Json) (fields : List Field) (e : Violation) : Prop where
  | whole (hpath : e.path = .str "") : StandsOn schema value fields e
  | field {f : Field} {steps : List Path.Step} (hf : f ∈ fields)
      (hplace : f.path = Path.renderField "" steps) (hpath : e.path = .str (Path.render "" steps))
      (hpoints : e.PointsAt value steps) : StandsOn schema value fields e
  | undeclared {u name : Json} {n : Node} {ms : Members} {steps : List Path.Step}
      (hs : schema.Governs steps u) (hn : u.ReadsAs n) (hvalue : value.at? steps = some (.obj ms))
      (hcode : e.code = .required) (hname : name ∈ n.object.required)
      (hmissing : Evaluation.hasMember ms name = .ok false)
      (hnone : ∀ m, name = .str m → Table.has n.object.properties m = false)
      (hpath : e.path = Path.demanded (Path.render "" steps) name) : StandsOn schema value fields e

variable [Host] in
/-- Every report stands on a field. For a document built of named schemas and items, itself not of
items and without schemas that it combines, there are fields; and a report of a value lies at the
place of the document or of a field, as far as it is not about a member that is demanded without a
schema of its name. -/
theorem stands_on_field {schema : Json} {n : Node} (h : schema.Fielded) (hn : schema.ReadsAs n)
    (hcombined : n.composition.present = false) (harray : n.declares "array" = false)
    (value : Json) (hdistinct : value.Distinct) (hsupplied : value.Supplied)
    (document given : Option Json) (formats : Formats) :
    ∃ fields, Field.ofSchema schema "" given = .ok fields ∧
      ∀ vs, all value schema document "" formats = .ok vs →
        ∀ e ∈ vs, StandsOn schema value fields e := by
  obtain ⟨fields, hfields, hcovers⟩ := Field.exists_ofSchema h hn hcombined harray given
  refine ⟨fields, hfields, fun vs hvs e he => ?_⟩
  rw [all_eq_toExcept, Trace.toExcept_eq_ok_iff] at hvs
  have hplaced : Evaluation.Placed value schema "" e := by
    refine Evaluation.places_run h value document "" formats hdistinct hsupplied e ?_
    rw [hvs]
    exact he
  cases hplaced with
  | @governed u steps hs hpath hpoints =>
    cases steps with
    | nil => exact .whole hpath
    | cons step steps =>
      obtain ⟨f, hf, hplace⟩ := hcovers _ u hs (List.cons_ne_nil _ _)
      exact .field hf hplace hpath hpoints
  | undeclared hs hn hv hcode hname hmissing hnone hpath =>
    exact .undeclared hs hn hv hcode hname hmissing hnone hpath

/-- A schema for a stop, which may have been left without a name. -/
def stop : Json :=
  .obj [("type", .str "object"), ("required", .arr [.str "name"]),
    ("properties", .obj [("name", .obj [("type", .arr [.str "string", .str "null"]),
      ("minLength", .num (.int 1))])])]

/-- A schema for a tour: the stops of one day after those of another. -/
def tour : Json :=
  .obj [("type", .str "object"), ("required", .arr [.str "id"]),
    ("properties", .obj [("days", .obj [("type", .str "array"),
      ("items", .obj [("type", .str "array"), ("items", stop)])])])]

theorem fielded_stop : stop.Fielded := by
  refine .keywords rfl rfl ⟨⟨["object"], rfl⟩, rfl, rfl, rfl, rfl, rfl, rfl, rfl⟩ ?_ nofun
  refine List.forall_mem_cons.mpr ⟨?_, nofun⟩
  exact .keywords rfl rfl ⟨⟨["string", "null"], rfl⟩, rfl, rfl, rfl, rfl, rfl, rfl, rfl⟩ nofun nofun

theorem fielded_tour : tour.Fielded := by
  refine .keywords rfl rfl ⟨⟨["object"], rfl⟩, rfl, rfl, rfl, rfl, rfl, rfl, rfl⟩ ?_ nofun
  refine List.forall_mem_cons.mpr ⟨?_, nofun⟩
  refine .keywords rfl rfl ⟨⟨["array"], rfl⟩, rfl, rfl, rfl, rfl, rfl, rfl, rfl⟩ nofun ?_
  rintro _ ⟨⟩
  refine .keywords rfl rfl ⟨⟨["array"], rfl⟩, rfl, rfl, rfl, rfl, rfl, rfl, rfl⟩ nofun ?_
  rintro _ ⟨⟩
  exact fielded_stop

/-- A tour with one stop that has no name. -/
def unnamed : Json := .obj [("days", .arr [.arr [.obj []]])]

open Sample in
/-- What is missing of an unnamed stop stands on the field of names, and what is missing of its tour
has none. -/
theorem unnamed_standsOn :
    tour.Fielded ∧ unnamed.Distinct ∧ unnamed.Supplied ∧
    ∃ fields vs, Field.ofSchema tour "" none = .ok fields ∧ all unnamed tour none "" [] = .ok vs ∧
      fields.map Field.path = ["days", "days[*]", "days[*][*]", "days[*][*].name"] ∧
      vs.map Violation.path = [.str "id", .str "days[0][0].name"] ∧
      ∀ e ∈ vs, StandsOn tour unnamed fields e := by
  have hdistinct : unnamed.Distinct := by
    simp [unnamed, Json.Distinct, Json.DistinctItems, Json.DistinctMembers]
  have hsupplied : unnamed.Supplied :=
    Json.supplied_obj fun e he => by
      cases List.mem_singleton.mp he
      refine Json.supplied_arr fun x hx => ?_
      cases List.mem_singleton.mp hx
      refine Json.supplied_arr fun x hx => ?_
      cases List.mem_singleton.mp hx
      exact Json.supplied_obj (List.forall_mem_nil _)
  have hvs : all unnamed tour none "" [] = .ok [
      ⟨.str "id", .required, "Missing required property: id", .null, .str "id"⟩,
      ⟨.str "days[0][0].name", .required, "Missing required property: name", .null,
        .str "name"⟩] := by
    cbv
  have hpaths : (Field.ofSchema tour "" none).map (List.map Field.path) =
      .ok ["days", "days[*]", "days[*][*]", "days[*][*].name"] := by cbv
  obtain ⟨fields, hfields, hstands⟩ := stands_on_field fielded_tour (.keywords rfl rfl) rfl rfl
    unnamed hdistinct hsupplied none none []
  rw [hfields] at hpaths
  exact ⟨fielded_tour, hdistinct, hsupplied, fields, _, hfields, hvs, Except.ok.inj hpaths, rfl,
    hstands _ hvs⟩

end Report

end Conform
