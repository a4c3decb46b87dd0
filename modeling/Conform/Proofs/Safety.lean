import Conform.Proofs.Agreement
import Conform.Proofs.Declarations
import Conform.Proofs.Stopping
import Conform.Proofs.Termination
import Mathlib

/-!
# Conform.Proofs.Safety

What is left to break an evaluation where every schema that can be met is written as it should be,
the numbers of the value are finite and the declared formats answer (`Evaluation.Breaks`):

```
a reference that leads back to itself for the same value       by design
an integer of a schema that is too long to be written          in a report
a text of the value that nests too deep to be read             as a document
```

Nothing else can stop it. The last two lines are no more than that: schemas without long integers
and texts without deep brackets never break it.

The induction is on the budget. What it carries along for the chain is that a reference on it has
led to the schema at hand (`Json.Leads`), so that one that is met again has led to itself.
-/

namespace Conform

namespace Json

/-! ## Finite values -/

/-- Every number in a value is finite. -/
inductive Finite : Json → Prop where
  | absent : Finite .absent
  | null : Finite .null
  | bool (b : Bool) : Finite (.bool b)
  | num {n : Number} (h : n.Finite) : Finite (.num n)
  | str (s : String) : Finite (.str s)
  | arr {xs : List Json} (h : ∀ x ∈ xs, Finite x) : Finite (.arr xs)
  | obj {ms : Members} (h : ∀ m ∈ ms, Finite m.2) : Finite (.obj ms)

theorem Finite.of_mem_parts {v w : Json} (hv : v.Finite) (hw : w ∈ v.parts) : w.Finite := by
  cases hv with
  | arr h => exact h w hw
  | obj h =>
    obtain hw | hw := List.mem_append.mp hw
    · obtain ⟨m, hm, rfl⟩ := List.mem_map.mp hw
      exact h m hm
    · obtain ⟨m, -, rfl⟩ := List.mem_map.mp hw
      exact .str m.1
  | _ => cases hw

theorem Finite.of_num {v : Json} (hv : v.Finite) {n : Number} (h : v = .num n) : n.Finite := by
  subst h
  cases hv with
  | num hn => exact hn

/-- What a value is made of, at any depth. -/
abbrev HasPart : Json → Json → Prop := Relation.ReflTransGen fun v w => w ∈ v.parts

/-! ## Long integers -/

theorem itemsFit_iff {xs : List Json} : itemsFit xs = true ↔ ∀ x ∈ xs, x.numeralsFit = true := by
  induction xs with
  | nil => simp [itemsFit]
  | cons x xs ih => rw [itemsFit, Bool.and_eq_true, List.forall_mem_cons, ih]

theorem membersFit_iff {ms : Members} :
    membersFit ms = true ↔ ∀ e ∈ ms, e.2.numeralsFit = true := by
  induction ms with
  | nil => simp [membersFit]
  | cons e ms ih => rw [membersFit, Bool.and_eq_true, List.forall_mem_cons, ih]

theorem numeralsFit_of_keyword {ms : Members} (hms : (obj ms).numeralsFit = true) {name : String}
    {j : Json} (hj : Table.keyword ms name = some j) : j.numeralsFit = true := by
  rw [numeralsFit, membersFit_iff] at hms
  exact hms _ (mem_of_keyword hj)

theorem numeralsFit_of_elements {j : Json} (hj : j.numeralsFit = true) {xs : List Json}
    (hxs : j.elements = .ok xs) : ∀ x ∈ xs, x.numeralsFit = true := by
  cases j with
  | arr ys =>
    cases hxs
    rw [numeralsFit, itemsFit_iff] at hj
    exact hj
  | str s =>
    cases hxs
    exact List.forall_mem_map.mpr fun _ _ => rfl
  | obj ms =>
    cases hxs
    exact List.forall_mem_map.mpr fun _ _ => rfl
  | _ => cases hxs

/-- What reports write is no longer than what the schema holds. -/
theorem numeralsFit_of_tells {ms : Members} {n : Node} (hread : Node.ReadFrom ms n)
    (hms : (obj ms).numeralsFit = true) {j : Json} (hj : n.Tells j) : j.numeralsFit = true := by
  cases hj with
  | limit h =>
    have hlimits : n.limits = ["minLength", "maxLength", "minimum", "maximum", "exclusiveMinimum",
        "exclusiveMaximum", "multipleOf", "minItems", "maxItems", "minProperties",
        "maxProperties"].map (Table.keyword ms) := by
      rw [Node.limits, hread.string, hread.number, hread.array, hread.minProperties,
        hread.maxProperties]
      rfl
    rw [hlimits] at h
    obtain ⟨name, -, hname⟩ := List.mem_map.mp h
    exact numeralsFit_of_keyword hms hname
  | @allowed js j h hj =>
    obtain ⟨list, hlist, hjs⟩ := (Node.listKeyword_eq_some_iff hread.enum js).mp h
    have hfit := numeralsFit_of_keyword hms ((keyword_eq_some_iff list).mpr hlist)
    exact numeralsFit_of_elements hfit hjs j hj
  | const =>
    rw [hread.const]
    cases hconst : ms.lookup "const" with
    | none => rfl
    | some j =>
      rw [numeralsFit, membersFit_iff] at hms
      exact hms _ (mem_of_lookup hconst)

/-! ## Circles -/

variable {document : Option Json}

/-- A reference that evaluation can meet leads back to itself for one value. -/
def Circular (document : Option Json) (schema : Json) (ref : String) : Prop :=
  ∃ ms, Reaches document schema (.obj ms) ∧ Table.keyword ms "$ref" = some (.str ref) ∧
    Relation.TransGen (Rechecks document) (.obj ms) (.obj ms)

/-- Each reference on a chain leads to a schema, wherever it is declared. -/
def Leads (document : Option Json) (chain : List String) (schema : Json) : Prop :=
  ∀ ref ∈ chain, ∀ ms, Table.keyword ms "$ref" = some (.str ref) →
    Relation.TransGen (Rechecks document) (.obj ms) schema

theorem Leads.nil (schema : Json) : Leads document [] schema := nofun

theorem Leads.tail {chain : List String} {schema s : Json} (h : Leads document chain schema)
    (hs : Rechecks document schema s) : Leads document chain s :=
  fun ref hmem ms href => (h ref hmem ms href).tail hs

/-- Behind a reference the chain leads to what it addresses. -/
theorem Leads.cons {chain : List String} {ref : String} {ms : Members} {root target : Json}
    (h : Leads document chain (.obj ms)) (href : Table.keyword ms "$ref" = some (.str ref))
    (hroot : document = some root) (htarget : Pointer.resolve (.str ref) root = .ok target) :
    Leads document (ref :: chain) target := by
  intro r hmem ms' href'
  obtain rfl | hmem := List.mem_cons.mp hmem
  · exact .single (.follow (.reference href' hroot htarget))
  · exact (h r hmem ms' href').tail (.follow (.reference href hroot htarget))

variable [Host]

/-- Every format that evaluation can meet answers for every text. -/
def FormatsAnswer (document : Option Json) (schema : Json) (formats : Formats) : Prop :=
  ∀ s n, Reaches document schema s → s.ReadsAs n → Evaluation.Answering formats n

end Json

namespace Evaluation

/-! ## Evaluations -/

section

variable [Host]

/-- What can break the evaluation of a value where all schemas are written as they should be. -/
inductive Breaks (document : Option Json) (start whole : Json) : Fault → Prop where
  | circular {ref : String} (h : Json.Circular document start ref) :
      Breaks document start whole (.circularReference ref)
  | long {s : Json} (hs : Json.Reaches document start s) (h : s.numeralsFit = false) :
      Breaks document start whole .notAllowed
  | deep {ms : Members} {text : String}
      (hs : Json.Reaches document start (.obj ms))
      (hmedia : Table.keyword ms "contentMediaType" = some (.str "application/json"))
      (htext : whole.HasPart (.str text))
      (h : isDocument (declaresBase64 (Node.stringOf ms)) text = .error .tooDeep) :
      Breaks document start whole .tooDeep

/-- What may stop an evaluation in a number of steps. -/
def Allowed (document : Option Json) (start whole : Json) (f : Fault) : Prop :=
  f = .exhausted ∨ Breaks document start whole f

variable {scope : Scope} {start whole : Json}

/-- Following a reference that leads somewhere. -/
theorem stopsOnly_followRule {self : Evaluate} {ms : Members} {ref : String} {root target : Json}
    (href : Table.keyword ms "$ref" = some (.str ref)) (hroot : scope.root = some root)
    (htarget : Pointer.resolve (.str ref) root = .ok target)
    (hreaches : Json.Reaches scope.root start (.obj ms)) {chain : List String}
    (hchain : Json.Leads scope.root chain (.obj ms)) {value : Json} {path : String}
    (h : (self value target path (ref :: chain)).StopsOnly (Allowed scope.root start whole)) :
    (followRule scope self (.str ref) value path chain).StopsOnly
      (Allowed scope.root start whole) := by
  have hreferred : referred scope (.str ref) = .ok target := by
    rw [referred, hroot]
    exact htarget
  refine .after ?permit fun _ _ => .after (.of_ok ⟨target, hreferred⟩) fun found hfound => ?_
  case permit =>
    intro f hf
    obtain ⟨s, hmem, heq, -, rfl⟩ | ⟨htext, -⟩ := Pointer.permit_eq_error hf
    · obtain rfl := Json.str.inj heq
      exact .inr (.circular ⟨ms, hreaches, href, hchain ref hmem ms href⟩)
    · exact absurd rfl (htext ref)
  obtain rfl := Except.ok.inj (hreferred.symm.trans hfound)
  exact h

/-- The reasons of a node's own are among those that can break an evaluation. -/
theorem ownReasons_of_reaches {document : Option Json} {ms : Members} {n : Node}
    (hread : Node.ReadFrom ms n) (hreaches : Json.Reaches document start (.obj ms)) {value : Json}
    (hpart : whole.HasPart value) : n.OwnReasons (Allowed document start whole) value where
  long j hj hlong := by
    refine .inr (.long hreaches (Bool.eq_false_iff.mpr fun hfit => ?_))
    rw [Json.numeralsFit_of_tells hread hfit hj] at hlong
    cases hlong
  deep hmedia s hs hdeep := by
    subst hs
    rw [hread.string] at hmedia hdeep
    exact .inr (.deep hreaches hmedia hpart hdeep)

/-- In a number of steps, nothing else stops an evaluation but their end. -/
theorem stopsOnly_descend (scope : Scope) (hstart : start.WellFormed scope.root)
    (hformats : Json.FormatsAnswer scope.root start scope.formats) (fuel : Nat)
    {value schema : Json} (hvalue : value.Finite) (hpart : whole.HasPart value)
    (hreaches : Json.Reaches scope.root start schema) (path : String) {chain : List String}
    (hchain : Json.Leads scope.root chain schema) :
    (descend scope fuel value schema path chain).StopsOnly (Allowed scope.root start whole) := by
  induction fuel generalizing value schema path chain with
  | zero => exact .stop (.inl rfl)
  | succ fuel ih =>
    cases hstart schema hreaches with
    | boolean b =>
      cases b with
      | true => exact .done
      | false => exact stopsOnly_violation ..
    | @reference ms ref root target href hroot htarget =>
      have hfollow : Json.RefersTo scope.root (.obj ms) target := .reference href hroot htarget
      rw [descend, step, href]
      refine stopsOnly_followRule href hroot htarget hreaches hchain ?_
      exact ih hvalue hpart (hreaches.tail (.follow hfollow)) path (hchain.cons href hroot htarget)
    | @keywords ms href hshaped =>
      obtain ⟨n, hn⟩ := Node.exists_ofMembers hshaped
      have hreads : (Json.obj ms).ReadsAs n := .keywords href hn
      have hsub : SafeNode (Allowed scope.root start whole) (descend scope fuel) n value chain := {
        again := fun s hs p =>
          ih hvalue hpart (hreaches.tail (.again hreads hs)) p (hchain.tail (.again hreads hs))
        into := fun w hw s hs p =>
          ih (hvalue.of_mem_parts hw) (hpart.tail hw) (hreaches.tail (.into hreads hs)) p
            (.nil s) }
      have hown := ownReasons_of_reaches (Node.readFrom_of_ofMembers hn) hreaches hpart
      rw [descend_of_readsAs hreads]
      exact stopsOnly_nodeRules (Node.sound_of_ofMembers hshaped hn)
        (hformats _ n hreaches hreads) (fun m => hvalue.of_num) hown hsub path

/-- Nothing else stops an evaluation: there are steps enough. -/
theorem stopsOnly_run {value schema : Json} {root : Option Json} {formats : Formats}
    (hschema : schema.WellFormed (Pointer.document schema root)) (hvalue : value.Finite)
    (hformats : Json.FormatsAnswer (Pointer.document schema root) schema formats)
    (path : String) :
    (run value schema root path formats).StopsOnly
      (Breaks (Pointer.document schema root) schema value) := by
  have hdescend := stopsOnly_descend (scopeFor schema root formats) hschema hformats
    (budget value schema (Pointer.document schema root)) hvalue .refl .refl path (.nil schema)
  constructor
  intro f hf
  obtain rfl | h := hdescend.fault f hf
  · exact absurd hf (fault_run_ne_exhausted value schema root path formats)
  · exact h

end

end Evaluation

namespace Report

open Evaluation

section

variable [Host]

/-- A computation answers, or something breaks it that can. -/
def AnswersUnlessBroken {α : Type} (document : Option Json) (schema value : Json)
    (r : Except Fault α) : Prop :=
  (∃ x, r = .ok x) ∨ ∃ f, r = .error f ∧ Breaks document schema value f

theorem answersUnlessBroken_of_failsOnly {α : Type} {document : Option Json}
    {schema value : Json} {r : Except Fault α} (h : FailsOnly (Breaks document schema value) r) :
    AnswersUnlessBroken document schema value r := by
  cases hr : r with
  | ok x => exact .inl ⟨x, rfl⟩
  | error f => exact .inr ⟨f, rfl, h f hr⟩

/-- What can break the reading of well-formed schemas. If every schema that can be met is written
as it should be, the numbers of the value are finite and the formats that are declared answer, then
both the verdict and the list of everything there is to report are given, unless a reference leads
back to itself for one value, a schema holds an integer that is too long to be written, or a text
that has to be a document nests too deep to be read. -/
theorem wellFormed_answers {value schema : Json} {root : Option Json} {formats : Formats}
    (hschema : schema.WellFormed (Pointer.document schema root)) (hvalue : value.Finite)
    (hformats : Json.FormatsAnswer (Pointer.document schema root) schema formats)
    (path : String) :
    AnswersUnlessBroken (Pointer.document schema root) schema value
        (accepts value schema root formats) ∧
      AnswersUnlessBroken (Pointer.document schema root) schema value
        (all value schema root path formats) := by
  have hrun := stopsOnly_run hschema hvalue hformats
  constructor
  · exact answersUnlessBroken_of_failsOnly (hrun "").verdict
  · rw [all_eq_toExcept]
    exact answersUnlessBroken_of_failsOnly (hrun path).toExcept

end

open Sample in
/-- A reference that leads to itself for every value stops the evaluation. -/
example : accepts (.obj []) (.obj [("allOf", .arr [.obj [("$ref", .str "#")]])]) none [] =
    .error (.circularReference "#") := by cbv

/-- A schema for even numbers. -/
def even : Json := .obj [("type", .str "integer"), ("multipleOf", .num (.int 2))]

/-- A schema for days. -/
def day : Json := .obj [("format", .str "date")]

/-- A reference to the whole document. -/
def whole : Json := .obj [("$ref", .str "#")]

/-- A schema for rows: an even number, a day, and a rest that is a row again. -/
def row : Json := .obj [
  ("properties", .obj [("count", even), ("day", day), ("rest", whole)]),
  ("required", .arr [.str "count"])]

theorem eq_of_reaches_row {s : Json} (hs : Json.Reaches (some row) row s) :
    s = row ∨ s = even ∨ s = day ∨ s = whole := by
  induction hs with
  | refl => exact .inl rfl
  | @tail _ c _ hmeets ih =>
    obtain rfl | rfl | rfl | rfl := ih <;>
      obtain ⟨⟨href, hn⟩, hs⟩ | ⟨⟨href, hn⟩, hs⟩ | ⟨⟨href, hroot, ht⟩⟩ := hmeets
    · cases hn
      cases hs
    · cases hn
      have hmem : c ∈ [even, day, whole] := hs
      exact .inr (by simpa using hmem)
    · cases href
    · cases hn
      cases hs
    · cases hn
      cases hs
    · cases href
    · cases hn
      cases hs
    · cases hn
      cases hs
    · cases href
    · cases href
    · cases href
    · cases href
      cases hroot
      exact .inl (Except.ok.inj (ht.symm.trans (Pointer.resolve_whole row)))

variable [Host] in
theorem wellFormed_row : row.WellFormed (some row) := by
  intro s hs
  obtain rfl | rfl | rfl | rfl := eq_of_reaches_row hs
  · refine .keywords rfl ?_
    constructor <;> simp [Table.Holds, Table.keyword, Table.listKeywords, Table.boundKeywords,
      Table.textKeywords, List.lookup, Json.IsTable, Json.IsTexts, Json.IsText]
  · refine .keywords rfl ?_
    constructor
    case multipleOf =>
      rintro j ⟨⟩
      exact ⟨.int 2, rfl, 2, rfl, by decide⟩
    all_goals simp [Table.Holds, Table.keyword, Table.listKeywords, Table.boundKeywords,
      Table.textKeywords, List.lookup, Json.IsText]
  · refine .keywords rfl ?_
    constructor <;> simp [Table.Holds, Table.keyword, Table.listKeywords, Table.boundKeywords,
      Table.textKeywords, List.lookup, Json.IsText]
  · exact .reference rfl rfl (Pointer.resolve_whole row)

variable [Host] in
theorem formatsAnswer_row : row.FormatsAnswer (some row) [] := by
  rintro s n hs ⟨href, hn⟩ name hname text
  obtain h | h | h | h := eq_of_reaches_row hs <;> cases h
  · cases hn
    cases hname
  · cases hn
    cases hname
  · cases hn
    cases hname
    have hcheck : Format.check [] (.str text) (.str "date") = Format.isDate text := rfl
    rw [hcheck, Format.isDate]
    split
    · exact Format.exists_readsMoment text
    · exact ⟨false, rfl⟩
  · cases href

open Sample in
/-- A row with an odd number, no such day, and a rest without a number. The schema refers to
itself, and all three are reported. -/
theorem row_answers :
    let value : Json := .obj [("count", .num (.int 3)), ("day", .str "2023-02-29"),
      ("rest", .obj [])]
    row.WellFormed (some row) ∧ value.Finite ∧ row.FormatsAnswer (some row) [] ∧
      accepts value row none [] = .ok false ∧
      (∃ vs, all value row none "" [] = .ok vs ∧
        vs.map Violation.path = [.str "count", .str "day", .str "rest.count"]) ∧
      AnswersUnlessBroken (some row) row value (accepts value row none []) ∧
      AnswersUnlessBroken (some row) row value (all value row none "" []) := by
  intro value
  have hvalue : value.Finite := by
    refine .obj ?_
    simp only [List.forall_mem_cons]
    exact ⟨.num ⟨_, rfl⟩, .str _, .obj nofun, nofun⟩
  have hreports : ∃ vs, all value row none "" [] = .ok vs ∧
      vs.map Violation.path = [.str "count", .str "day", .str "rest.count"] :=
    ⟨_, by cbv, by cbv⟩
  obtain ⟨haccepts, hall⟩ :=
    @wellFormed_answers _ value row none [] wellFormed_row hvalue formatsAnswer_row ""
  exact ⟨wellFormed_row, hvalue, formatsAnswer_row, by cbv, hreports, haccepts, hall⟩

/-! ### Schemas without schemas inside -/

section

variable {document : Option Json} {ms : Members} {n : Node}
  (hreads : (Json.obj ms).ReadsAs n) (hagain : n.again = []) (hinto : n.into = [])
include hreads hagain hinto

/-- A schema without schemas inside leads to no other one. -/
theorem eq_of_reaches_leaf {s : Json} (hs : Json.Reaches document (.obj ms) s) : s = .obj ms := by
  have hsame : ∀ n', (Json.obj ms).ReadsAs n' → n' = n := by
    intro n' h
    cases hreads with
    | keywords _ hn =>
      cases h with
      | keywords _ hn' => exact Except.ok.inj (hn'.symm.trans hn)
  induction hs with
  | refl => rfl
  | tail _ hmeets ih =>
    subst ih
    cases hmeets with
    | again h hs =>
      rw [hsame _ h, hagain] at hs
      cases hs
    | into h hs =>
      rw [hsame _ h, hinto] at hs
      cases hs
    | follow h =>
      cases hreads with
      | keywords href =>
        cases h with
        | reference href' => cases href.symm.trans href'

variable [Host]

theorem wellFormed_leaf (h : Table.Shaped ms) : (Json.obj ms).WellFormed document := by
  intro s hs
  obtain rfl := eq_of_reaches_leaf hreads hagain hinto hs
  cases hreads with
  | keywords href => exact .keywords href h

theorem formatsAnswer_leaf (hformat : n.string.format = none) :
    (Json.obj ms).FormatsAnswer document [] := by
  rintro s n' hs h name hname
  obtain rfl := eq_of_reaches_leaf hreads hagain hinto hs
  cases hreads with
  | keywords _ hn =>
    cases h with
    | keywords _ hn' =>
      obtain rfl := Except.ok.inj (hn'.symm.trans hn)
      rw [hformat] at hname
      cases hname

end

/-- So many opening brackets. -/
def brackets (n : Nat) : String := String.ofList (List.replicate n '[')

/-- Content that has to be a document. -/
def enclosed : Json := .obj [("contentMediaType", .str "application/json")]

/-- A limit with one digit more than can be written. -/
def lofty : Json := .obj [("minimum", .num (.int (10 ^ Json.maxIntegerDigits)))]

open Sample in
theorem isDocument_brackets {n : Nat} (hn : 900 < n) :
    isDocument false (brackets n) = .error .tooDeep := by
  have hdeep : 900 < (List.replicate n '[').countP isDocumentBracket := by
    rw [List.countP_replicate, if_pos (by rfl)]
    exact hn
  have hexhausts : Host.exhaustsDocument (brackets n).toList = true := by
    rw [brackets, String.toList_ofList]
    exact decide_eq_true hdeep
  simp [isDocument, readsDocument, hexhausts]

theorem run_enclosed [Host] {s : String} (h : isDocument false s = .error .tooDeep)
    (path : String) : run (.str s) enclosed none path [] = .stop .tooDeep := by
  have hrun : run (.str s) enclosed none path [] =
      ((contentMediaTypeRule { contentMediaType := some (.str documentName) } s path).andThen
        fun _ => .done).andThen fun _ => .done := by rfl
  have hrule : contentMediaTypeRule { contentMediaType := some (.str documentName) } s path =
      .after (isDocument false s) fun ok => reportUnless ok
        (violation path .contentMediaType ("String must be valid " ++ documentName ++ " content")
          (.str s) (.str documentName)) := by rfl
  rw [hrun, hrule, h]
  rfl

theorem run_of_long [Host] {i : Int} (hi : Json.integerFits i = false)
    (hlt : (Number.int 0).lt (.int i) = true) (path : String) :
    run (.num (.int 0)) (.obj [("minimum", .num (.int i))]) none path [] = .stop .notAllowed := by
  have hshown : Json.shown? (.num (.int i)) = none := by simp [Json.shown?, Json.numeralsFit, hi]
  have hrule : limitRule (some (.num (.int i))) (Number.int 0).lt .minimum
      "Number must be at least " "" (.num (.int 0)) path = .stop .notAllowed := by
    simp [limitRule, broken, Json.numeric?, hlt, hshown, Fault.written, Trace.after]
  have hrun : run (.num (.int 0)) (.obj [("minimum", .num (.int i))]) none path [] =
      ((limitRule (some (.num (.int i))) (Number.int 0).lt .minimum "Number must be at least " ""
        (.num (.int 0)) path).andThen fun _ => .done).andThen fun _ => .done := by rfl
  rw [hrun, hrule]
  rfl

theorem not_integerFits_lofty : Json.integerFits (10 ^ Json.maxIntegerDigits) = false := by
  have hlong : ¬ (Nat.toDigits 10 (10 ^ Json.maxIntegerDigits)).length ≤
      Json.maxIntegerDigits := by
    rw [Nat.length_toDigits_le_iff (by decide) (by decide)]
    exact Nat.lt_irrefl _
  have hten : Int.natAbs 10 = 10 := rfl
  rw [Json.integerFits, Int.natAbs_pow, hten]
  exact decide_eq_false hlong

open Sample in
/-- A text of brackets breaks the evaluation of a well-formed schema, and a long limit does. -/
theorem deep_and_long_break :
    (enclosed.WellFormed (some enclosed) ∧ (Json.str (brackets 1000)).Finite ∧
      enclosed.FormatsAnswer (some enclosed) [] ∧
      accepts (.str (brackets 1000)) enclosed none [] = .error .tooDeep ∧
      all (.str (brackets 1000)) enclosed none "" [] = .error .tooDeep) ∧
    lofty.WellFormed (some lofty) ∧ (Json.num (.int 0)).Finite ∧
      lofty.FormatsAnswer (some lofty) [] ∧
      accepts (.num (.int 0)) lofty none [] = .error .notAllowed ∧
      all (.num (.int 0)) lofty none "" [] = .error .notAllowed := by
  have henclosed : enclosed.ReadsAs
      { string := { contentMediaType := some (.str "application/json") } } := .keywords rfl rfl
  have hlofty : lofty.ReadsAs
      { number := { minimum := some (.num (.int (10 ^ Json.maxIntegerDigits))) } } :=
    .keywords rfl rfl
  have hdeep := run_enclosed (isDocument_brackets (n := 1000) (by omega)) ""
  have hlong : run (.num (.int 0)) lofty none "" [] = .stop .notAllowed :=
    run_of_long not_integerFits_lofty (by decide +kernel) ""
  refine ⟨⟨wellFormed_leaf henclosed rfl rfl ?_, .str _, formatsAnswer_leaf henclosed rfl rfl rfl,
    ?_, ?_⟩, wellFormed_leaf hlofty rfl rfl ?_, .num ⟨_, rfl⟩,
    formatsAnswer_leaf hlofty rfl rfl rfl, ?_, ?_⟩
  · constructor <;> simp [Table.Holds, Table.keyword, Table.listKeywords, Table.boundKeywords,
      Table.textKeywords, List.lookup, Json.IsText]
  · rw [accepts, hdeep]
    rfl
  · rw [all_eq_toExcept, hdeep]
    rfl
  · constructor <;> simp [Table.Holds, Table.keyword, Table.listKeywords, Table.boundKeywords,
      Table.textKeywords, List.lookup, Json.IsNumber]
  · rw [accepts, hlong]
    rfl
  · rw [all_eq_toExcept, hlong]
    rfl

end Report

end Conform
