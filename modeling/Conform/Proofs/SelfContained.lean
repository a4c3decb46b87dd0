import Conform.Proofs.Agreement
import Conform.Proofs.Inlining
import Mathlib

/-!
# Conform.Proofs.SelfContained

Whether a schema whose references were replaced still needs a document. Evaluation follows no
reference in it, if none stands in the place of a schema, at any depth (`Json.Bare`). Replacing
leaves such references in two places only, and both are places that evaluation looks at:

```
"dependencies": {"a": {"$ref": "#/definitions/B"}}    no keyword of Inline.positions
"items": {"$ref": "#/definitions/list"}               an array is copied as it is
```

The main statement is that there is no other place. Where neither is met, the result is bare, and no
evaluation of it is stopped by a reference, whatever document there is.
-/

namespace Conform

/-- No reference stands in the place of a schema, in a schema or anywhere inside. Without a document
nothing is reached through references. -/
def Json.Bare (s : Json) : Prop :=
  ∀ ms, Reaches none s (.obj ms) → Table.keyword ms "$ref" = none

/-- The places that replacing leaves alone hold no references, in any schema that can be met. -/
structure Json.Inlinable (document : Option Json) (schema : Json) : Prop where
  dependencies {ms : Members} {n : Node} {s : Json} (hreached : Reaches document schema (.obj ms))
    (hn : (Json.obj ms).ReadsAs n) (hs : Node.HasDependency ms s) : s.Bare
  items {s c : Json} {n : Node} {xs : List Json} (hreached : Reaches document schema s)
    (hn : s.ReadsAs n) (hc : n.array.items = some c) (harray : LeadsTo document c (.arr xs)) :
    ∃ ys, c = .arr ys

theorem Json.Bare.of_meets {s t : Json} (h : s.Bare) (hst : Meets none s t) : t.Bare :=
  fun ms ht => h ms (.head hst ht)

namespace Json.Inlinable

variable {root schema : Json}

/-- What is met inside a schema that was replaced is a schema that was replaced, or bare. -/
theorem of_meets (hschema : Inlinable (some root) schema) {s t t' : Json}
    (hs : Reaches (some root) schema s) (hst : InlinesTo root s t) (ht : Meets none t t') :
    (∃ s', Reaches (some root) schema s' ∧ InlinesTo root s' t') ∨ t'.Bare := by
  obtain ⟨leaf, hleads, hleaf⟩ := hst
  have hreached : Reaches (some root) schema leaf := hs.trans (reaches_of_leadsTo hleads)
  have hnode : ∃ n', t.ReadsAs n' ∧ (t' ∈ n'.again ∨ t' ∈ n'.into) := by
    cases ht with
    | again h hs => exact ⟨_, h, .inl hs⟩
    | into h hs => exact ⟨_, h, .inr hs⟩
    | follow h => cases h with | reference _ hroot _ => cases hroot
  obtain ⟨n', ⟨href', hn'⟩, ht'⟩ := hnode
  cases hleaf with
  | value h => exact absurd rfl (h _)
  | @object ms ms' _ _ href h =>
    have halike := alike_ofMembers_of_inlined h
    rw [hn'] at halike
    generalize hr : Node.ofMembers ms = r at halike
    cases halike with
    | @ok n _ hrelated =>
      have hn : (Json.obj ms).ReadsAs n := .keywords href hr
      obtain ht' | ht' := ht'
      · obtain ⟨c, hc, hinlines | hinlines | ⟨rfl, hdependency⟩⟩ := hrelated.exists_of_mem_again ht'
        · exact .inl ⟨c, hreached.tail (.again hn hc), hinlines⟩
        · exact .inl ⟨c, hreached.tail (.again hn hc), hinlines⟩
        · exact .inr (hschema.dependencies hreached hn hdependency)
      · obtain ⟨c, hc, hinlines⟩ | ⟨c, xs, hitems, hlist, hinlines⟩ :=
          hrelated.exists_of_mem_into ht'
        · exact .inl ⟨c, hreached.tail (.into hn hc), hinlines⟩
        · -- a list for items that was none: only a reference can have led to it
          have harray := hinlines.leadsTo_of_ne_object nofun
          obtain ⟨ys, hys⟩ := hschema.items hreached hn hitems harray
          exact absurd hys (hlist ys)

/-- So is everything inside it. -/
theorem of_reaches (hschema : Inlinable (some root) schema) {result t : Json}
    (hresult : InlinesTo root schema result) (ht : Reaches none result t) :
    (∃ s, Reaches (some root) schema s ∧ InlinesTo root s t) ∨ t.Bare := by
  induction ht with
  | refl => exact .inl ⟨schema, .refl, hresult⟩
  | tail _ hmeets ih =>
    obtain ⟨s, hs, hst⟩ | hbare := ih
    · exact hschema.of_meets hs hst hmeets
    · exact .inr (hbare.of_meets hmeets)

theorem bare (hschema : Inlinable (some root) schema) {result : Json}
    (hresult : InlinesTo root schema result) : result.Bare := by
  intro ms hms
  obtain ⟨s, -, hs⟩ | hbare := hschema.of_reaches hresult hms
  · exact hs.ref_eq_none
  · exact hbare ms .refl

end Json.Inlinable

namespace Evaluation

/-- No fault of a reading lies in a reference. -/
def RefersNowhere (t : Trace Violation) : Prop := ∀ f, t.fault = some f → f.isReference = false

theorem RefersNowhere.andThen {t t' : Trace Violation} (h : RefersNowhere t)
    (h' : RefersNowhere t') : RefersNowhere (t.andThen fun _ => t') := by
  obtain ⟨found, fault⟩ := t
  cases fault with
  | some f => exact h
  | none => exact h'

/-- Rules have no faults that lie in references but those of what they ask for. -/
theorem compatible_refersNowhere :
    Compatible (fun _ => True) (fun t _ => RefersNowhere t) fun _ _ _ t _ => RefersNowhere t where
  done := nofun
  stop h f hf := by
    cases hf
    exact Fault.isReference_of_isPlain h
  violation _ _ _ := nofun
  absent _ _ := nofun
  missing _ _ _ _ _ := nofun
  refusedName _ _ _ := nofun
  andThen h h' := h.andThen h'
  summary {v p q t u t' u'} h h' := by
    refine h.andThen ?_
    cases t.found.isEmpty
    · exact h'
    · exact nofun
  name _ h := h
  index _ h := h
  ask {v p q t u k k'} h h' := by
    cases hv : t.verdict with
    | ok b => exact h' b
    | error f =>
      rw [(Trace.verdict_eq_error_iff t f).mp hv] at h
      exact h

variable [Host] in
/-- Evaluation of a bare schema is not stopped by a reference. -/
theorem refersNowhere_descend (scope : Scope) (fuel : Nat) {schema : Json} (h : schema.Bare)
    (value : Json) (p : String) (chain : List String) :
    RefersNowhere (descend scope fuel value schema p chain) := by
  induction fuel generalizing schema value p chain with
  | zero =>
    intro f hf
    cases hf
    rfl
  | succ fuel ih =>
    refine compatible_refersNowhere.step_self (fun n hn => ?_) fun ms ref hms href => ?_
    · have hagain : ∀ s ∈ n.again, s.Bare := fun s hs => h.of_meets (.again hn hs)
      have hinto : ∀ s ∈ n.into, s.Bare := fun s hs => h.of_meets (.into hn hs)
      exact {
        demanded := fun _ _ => trivial
        reported := fun s hs p _ => ih (hagain s (n.reported_subset hs)) value p chain
        checked := fun s hs => ih (hagain s (n.checked_subset hs)) value "" chain
        partReported := fun v _ s hs p _ => ih (hinto s (n.partReported_subset hs)) v p []
        partChecked := fun v _ s hs => ih (hinto s (n.partChecked_subset hs)) v "" [] }
    · subst hms
      cases href.symm.trans (h ms .refl)

variable [Host] in
/-- A schema whose references were replaced needs no document, if the places that replacing leaves
alone hold no references. No reference is left in it, and with any document or none, at any place,
no fault of a reference comes of it: not when it is asked whether it accepts a value, and not when
it is asked for all reports. -/
theorem inlined_selfContained {schema root result : Json} (h : inlined schema root = .ok result)
    (hschema : schema.Inlinable (some root)) :
    result.Bare ∧ ∀ (value : Json) (document : Option Json) (path : String) (formats : Formats),
      (∀ f, (run value result document path formats).fault = some f → f.isReference = false) ∧
      (∀ f, Conform.accepts value result document formats = .error f → f.isReference = false) ∧
      ∀ f, Report.all value result document path formats = .error f → f.isReference = false := by
  have hbare : result.Bare := hschema.bare (.of_inlined h)
  have hrun : ∀ value document path formats,
      RefersNowhere (run value result document path formats) := fun value document path formats =>
    refersNowhere_descend _ _ hbare value path []
  refine ⟨hbare, fun value document path formats => ⟨hrun _ _ _ _, fun f hf => ?_, fun f hf => ?_⟩⟩
  · have hstop := (Trace.verdict_eq_error_iff _ _).mp hf
    exact hrun value document "" formats f (by rw [hstop]; rfl)
  · rw [Report.all_eq_toExcept, Trace.toExcept] at hf
    cases hfault : (run value result document path formats).fault with
    | none => rw [hfault] at hf; cases hf
    | some g =>
      rw [hfault] at hf
      cases hf
      exact hrun value document path formats f hfault

/-- A schema for words. -/
def word : Json := .obj [("minLength", .num (.int 1))]

/-- A schema that names its definition. -/
def named : Json := .obj [("$ref", .str "#/$defs/word"), ("$defs", .obj [("word", word)])]

theorem eq_of_reaches_named {s : Json} (hs : Json.Reaches (some named) named s) :
    s = named ∨ s = word := by
  have hresolve : Pointer.resolve (.str "#/$defs/word") named = .ok word := by cbv
  induction hs with
  | refl => exact .inl rfl
  | tail _ hmeets ih =>
    obtain rfl | rfl := ih <;>
      obtain ⟨⟨href, hn⟩, hs⟩ | ⟨⟨href, hn⟩, hs⟩ | ⟨⟨href, hroot, ht⟩⟩ := hmeets
    · cases href
    · cases href
    · cases href
      cases hroot
      exact .inr (Except.ok.inj (ht.symm.trans hresolve))
    · cases hn
      cases hs
    · cases hn
      cases hs
    · cases href

open Sample in
/-- What the named definition leaves behind needs no document. -/
theorem named_selfContained :
    inlined named named = .ok word ∧ named.Inlinable (some named) ∧ word.Bare ∧
    ∀ f, Report.all (.str "") word none "" [] = .error f → f.isReference = false := by
  have hresult : inlined named named = .ok word := by cbv
  have hinlinable : named.Inlinable (some named) := by
    refine ⟨fun hreached hn hs => ?dependencies, fun hreached hn hc _ => ?items⟩
    case dependencies =>
      obtain ⟨_, _, hlookup, -⟩ := hs
      obtain h | h := eq_of_reaches_named hreached <;> cases h <;> cases hlookup
    case items =>
      obtain h | h := eq_of_reaches_named hreached <;> cases h <;> obtain ⟨href, hn⟩ := hn
      · cases href
      · cases hn
        cases hc
  obtain ⟨hbare, hfaults⟩ := inlined_selfContained hresult hinlinable
  exact ⟨hresult, hinlinable, hbare, (hfaults (.str "") none "" []).2.2⟩

/-- A definition with a dependency that is a reference. -/
def dependent : Json :=
  .obj [("$ref", .str "#/definitions/A"), ("definitions", .obj [
    ("A", .obj [("dependencies", .obj [("a", .obj [("$ref", .str "#/definitions/B")])])]),
    ("B", .obj [("required", .arr [.str "b"])])])]

open Sample in
/-- The reference of a dependency is left, and without the definitions it leads nowhere. -/
theorem dependent_leavesReference :
    inlined dependent dependent =
      .ok (.obj [("dependencies", .obj [("a", .obj [("$ref", .str "#/definitions/B")])])]) ∧
    Conform.accepts (.obj [("a", .num (.int 1))]) dependent none [] = .ok false ∧
    Conform.accepts (.obj [("a", .num (.int 1))])
        (.obj [("dependencies", .obj [("a", .obj [("$ref", .str "#/definitions/B")])])]) none [] =
      .error (.danglingReference "#/definitions/B" "B") :=
  ⟨by cbv, by cbv, by cbv⟩

end Evaluation

end Conform
