import Conform.Proofs.Expansion
import Conform.Proofs.Termination

/-!
# Conform.Proofs.ExpandedBranches

Flattening of a schema that refers to itself comes to an end, because along a branch no reference is
expanded twice:

```
child            $ref #    expanded
child.child      $ref #    a field, and nothing below it
```

From a site to one below it either the chain of references gets longer, which are no more than the
schema and the document hold, or the schema gets smaller. These are the quantities in which calls of
evaluation go down (`Evaluation.Call.rank`), for a site is measured as a call of no value. So the
steps that flattening makes are enough, and no larger number changes anything
(`Site.answer_eq_of_rank_lt`).

A site where a chain meets a reference followed before has a field all the same: the reference was
expanded, so following it ends at an object (`Ending`), and it ends at the same one again.
-/

namespace Conform

namespace Field

/-! ## Chains of references -/

/-- A schema that is a reference, and what it addresses. -/
structure Follows (document : Option Json) (s : Json) (ref : String) (t : Json) : Prop where
  reference : s.get? "$ref" = some (.str ref)
  resolves : ∃ root, document = some root ∧ Pointer.resolve (.str ref) root = .ok t

/-- References are followed from a schema behind a chain, none of them twice, up to a schema that is
no reference. -/
inductive Chased (document : Option Json) : Json → List String → Json → List String → Prop where
  | here {s : Json} {chain : List String} (h : s.get? "$ref" = none) :
      Chased document s chain s chain
  | follow {s t leaf : Json} {ref : String} {chain longer : List String}
      (hfollows : Follows document s ref t) (hnew : ref ∉ chain)
      (h : Chased document t (ref :: chain) leaf longer) : Chased document s chain leaf longer

/-- Following a reference ends at an object that is none. -/
def Ending (document : Option Json) (ref : String) : Prop :=
  ∃ root t ms, document = some root ∧ Pointer.resolve (.str ref) root = .ok t ∧
    Json.LeadsTo document t (.obj ms) ∧ ms.lookup "$ref" = none

section

variable {document : Option Json} {s t leaf : Json} {ref : String}
  {chain longer followed refs : List String} {height fuel : Nat}

/-- What following a reference asks for. -/
theorem exists_follows {j : Json} (href : s.get? "$ref" = some j)
    (htarget : Pointer.target s document = .ok t) : ∃ r, j = .str r ∧ Follows document s r t := by
  rw [Pointer.target, href] at htarget
  cases document with
  | none => cases htarget
  | some root =>
    cases j with
    | str r => exact ⟨r, rfl, href, root, rfl, htarget⟩
    | _ => cases htarget

theorem Follows.exists_members (h : Follows document s ref t) :
    ∃ ms, s = .obj ms ∧ Table.keyword ms "$ref" = some (.str ref) := by
  cases s with
  | obj ms =>
    have hlookup : ms.lookup "$ref" = some (.str ref) := h.reference
    exact ⟨ms, rfl, by rw [Table.keyword, hlookup]⟩
  | _ => cases h.reference

theorem Follows.refersTo (h : Follows document s ref t) : Json.RefersTo document s t := by
  obtain ⟨ms, rfl, href⟩ := h.exists_members
  obtain ⟨root, hroot, htarget⟩ := h.resolves
  exact .reference href hroot htarget

/-- Following a reference is a step of evaluation too. -/
theorem Follows.opens (h : Follows document s ref t) (hnew : ref ∉ chain) :
    Evaluation.Call.Opens { root := document } ⟨.null, s, "", chain⟩
      ⟨.null, t, "", ref :: chain⟩ := by
  obtain ⟨ms, rfl, href⟩ := h.exists_members
  obtain ⟨root, rfl, htarget⟩ := h.resolves
  exact .follow href (Pointer.permit_eq_ok_iff.mpr fun _ => hnew) htarget

theorem chase_follow {j : Json} (href : s.get? "$ref" = some j) :
    chase document (fuel + 1) s chain =
      Pointer.permit true j chain >>= fun _ =>
        Pointer.target s document >>= fun t =>
          chase document fuel t (Pointer.lengthen chain j) := by
  rw [chase, href]

theorem chased_of_chase (h : chase document fuel s chain = .ok (leaf, longer)) :
    Chased document s chain leaf longer := by
  induction fuel generalizing s chain with
  | zero => cases h
  | succ fuel ih =>
    cases href : s.get? "$ref" with
    | none =>
      rw [chase, href] at h
      cases h
      exact .here href
    | some j =>
      rw [chase_follow href] at h
      obtain ⟨_, hpermit, h⟩ := bind_eq_ok h
      obtain ⟨t, htarget, h⟩ := bind_eq_ok h
      obtain ⟨r, rfl, hfollows⟩ := exists_follows href htarget
      exact .follow hfollows (Pointer.permit_eq_ok_iff.mp hpermit rfl) (ih h)

theorem chased_of_settle (h : settle document s = .ok (leaf, chain)) :
    Chased document s [] leaf chain :=
  chased_of_chase h

namespace Chased

theorem get?_eq_none (h : Chased document s chain leaf longer) : leaf.get? "$ref" = none := by
  induction h with
  | here h => exact h
  | follow _ _ _ ih => exact ih

theorem subset (h : Chased document s chain leaf longer) : chain ⊆ longer := by
  induction h with
  | here => exact List.Subset.refl _
  | follow _ _ _ ih => exact List.Subset.trans (List.subset_cons_self _ _) ih

theorem leadsTo (h : Chased document s chain leaf longer) : Json.LeadsTo document s leaf := by
  induction h with
  | here => exact .refl
  | follow hfollows _ _ ih => exact .head hfollows.refersTo ih

/-- Each reference that was followed leads on to the end. -/
theorem leadsTo_of_mem (h : Chased document s chain leaf longer) {r : String} (hr : r ∈ longer)
    (hnew : r ∉ chain) :
    ∃ root t, document = some root ∧ Pointer.resolve (.str r) root = .ok t ∧
      Json.LeadsTo document t leaf := by
  induction h with
  | here => exact absurd hr hnew
  | @follow s t leaf ref chain longer hfollows _ hrest ih =>
    by_cases hhere : r = ref
    · obtain ⟨root, hroot, htarget⟩ := hfollows.resolves
      exact ⟨root, t, hroot, by rw [hhere, htarget], hrest.leadsTo⟩
    · exact ih hr fun hmem => (List.mem_cons.mp hmem).elim hhere hnew

/-- Behind what was followed before, and meeting none of it, references are followed within the
bounds of a document, and the measure does not grow. -/
theorem bounded (hscope : Evaluation.Call.Bounds refs height { root := document })
    (h : Chased document s chain leaf longer) (hfresh : ∀ r ∈ longer, r ∉ followed)
    (hs : Evaluation.Call.Bounded refs height ⟨.null, s, "", chain ++ followed⟩) :
    Evaluation.Call.Bounded refs height ⟨.null, leaf, "", longer ++ followed⟩ ∧
      Evaluation.Call.rank refs height ⟨.null, leaf, "", longer ++ followed⟩ ≤
        Evaluation.Call.rank refs height ⟨.null, s, "", chain ++ followed⟩ := by
  induction h with
  | here => exact ⟨hs, Nat.le_refl _⟩
  | @follow s t leaf ref chain longer hfollows hnew hrest ih =>
    have hmem : ref ∈ longer := hrest.subset List.mem_cons_self
    have hnew' : ref ∉ chain ++ followed := by
      rw [List.mem_append, not_or]
      exact ⟨hnew, hfresh ref hmem⟩
    have hopens := hfollows.opens hnew'
    obtain ⟨hbounded, hle⟩ := ih hfresh (hs.of_opens hscope hopens)
    exact ⟨hbounded,
      Nat.le_trans hle (Nat.le_of_lt (Evaluation.Call.rank_lt_of_opens hscope hs hopens))⟩

end Chased

/-- Following references ends in as many steps as there are references. -/
theorem chase_ne_exhausted (hscope : Evaluation.Call.Bounds refs height { root := document })
    (hs : Evaluation.Call.Bounded refs height ⟨.null, s, "", chain⟩)
    (hfuel : refs.eraseDups.length < chain.length + fuel) :
    chase document fuel s chain ≠ .error .exhausted := by
  induction fuel generalizing s chain with
  | zero =>
    have hlen := hs.length_chain_le
    dsimp only at hlen
    omega
  | succ fuel ih =>
    cases href : s.get? "$ref" with
    | none =>
      rw [chase, href]
      rintro ⟨⟩
    | some j =>
      rw [chase_follow href]
      cases hpermit : Pointer.permit true j chain with
      | error f =>
        obtain ⟨_, -, -, -, hf⟩ | ⟨-, hf⟩ := Pointer.permit_eq_error hpermit
        · subst hf
          rintro ⟨⟩
        · subst hf
          rintro ⟨⟩
      | ok _ =>
        cases htarget : Pointer.target s document with
        | error f =>
          have hreferred : Evaluation.referred { root := document } j = .error f := by
            rw [← htarget, Pointer.target, href]
            rfl
          rintro ⟨⟩
          cases Evaluation.shallow_referred _ _ _ hreferred
        | ok t =>
          obtain ⟨r, rfl, hfollows⟩ := exists_follows href htarget
          have hnew : r ∉ chain := Pointer.permit_eq_ok_iff.mp hpermit rfl
          have hlonger : refs.eraseDups.length < (r :: chain).length + fuel := by
            rw [List.length_cons]
            omega
          exact ih (hs.of_opens hscope (hfollows.opens hnew)) hlonger

/-- References end at one schema only. -/
theorem eq_of_leadsTo {a b : Json} (h : Json.LeadsTo document s a) (h' : Json.LeadsTo document s b)
    (ha : a.get? "$ref" = none) (hb : b.get? "$ref" = none) : a = b := by
  have hends : ∀ {u w : Json}, u.get? "$ref" = none → ¬ Json.RefersTo document u w := by
    intro u w hu hw
    cases hw with
    | @reference ms ref root target href _ _ =>
      have hlookup : ms.lookup "$ref" = none := hu
      rw [Table.keyword, hlookup] at href
      cases href
  induction h using Relation.ReflTransGen.head_induction_on with
  | refl =>
    obtain rfl | ⟨w, hw, -⟩ := Relation.ReflTransGen.cases_head h'
    · rfl
    · exact absurd hw (hends ha)
  | head hstep _ ih =>
    obtain rfl | ⟨w, hw, hrest⟩ := Relation.ReflTransGen.cases_head h'
    · exact absurd hstep (hends hb)
    · rw [← hstep.unique hw] at hrest
      exact ih hrest

/-! ## What flattening stops for -/

/-- References lead into the document. -/
theorem bounds_document (schema : Json) (document : Option Json) :
    Evaluation.Call.Bounds (Evaluation.knownReferences schema document)
      (Pointer.schemaHeight schema document) { root := document } where
  guarded := rfl
  root := by
    rintro doc rfl
    exact ⟨Nat.le_max_right _ _, List.subset_append_right _ _⟩

theorem settle_ne_exhausted (document : Option Json) (s : Json) :
    settle document s ≠ .error .exhausted := by
  have hcount : (Evaluation.knownReferences s document).eraseDups.length =
      Pointer.referenceCount s document := rfl
  refine chase_ne_exhausted (bounds_document s document)
    (Evaluation.bounded_start .null s "" document) ?_
  rw [hcount, List.length_nil]
  omega

theorem plain_different (types : List Json) (found : List BaseType) :
    Plain (Typing.different types found) := by
  induction types generalizing found with
  | nil => exact .ok _
  | cons j types ih =>
    unfold Typing.different
    split
    · exact .ok _
    · next hlist =>
      cases hlist
      exact ih _
    · next hlist =>
      cases hlist
      refine .bind ?_ fun t _ => ih _
      unfold Typing.declared
      split
      · exact .ok _
      · split
        · exact .ok _
        · exact .error rfl

theorem plain_ofNode (n : Node) (path : String) (required : Bool) :
    Plain (ofNode n path required) := by
  refine .map _ ?_
  unfold Typing.ofNode
  split
  · exact .map _ (plain_different _ _)
  · exact .ok _

end

/-! ## Sites -/

namespace Site

/-- A site is measured as a call of no value. -/
def call (s : Site) : Evaluation.Call := ⟨.null, s.schema, "", s.followed⟩

/-- A site within bounds, where all references followed before end at objects. -/
structure Sound (refs : List String) (height : Nat) (document : Option Json) (s : Site) :
    Prop where
  bounded : s.call.Bounded refs height
  ending : ∀ r ∈ s.followed, Ending document r

variable {document : Option Json} {refs : List String} {height : Nat} {s t : Site}

/-- The sites in the node that references end at are sound and measure less, if the schema is within
bounds and none of the references was followed before. -/
theorem Below.sound (hscope : Evaluation.Call.Bounds refs height { root := document })
    {schema : Json} {ms : Members} {n : Node} {path : String} {chain followed : List String}
    (hsettle : settle document schema = .ok (.obj ms, chain)) (hn : Node.ofMembers ms = .ok n)
    (hfresh : ∀ r ∈ chain, r ∉ followed)
    (hbounded : Evaluation.Call.Bounded refs height ⟨.null, schema, "", followed⟩)
    (hending : ∀ r ∈ followed, Ending document r) (ht : t.Below n path (chain ++ followed)) :
    t.Sound refs height document ∧
      t.call.rank refs height < Evaluation.Call.rank refs height ⟨.null, schema, "", followed⟩ := by
  have hchased := chased_of_settle hsettle
  obtain ⟨hleaf, hle⟩ := hchased.bounded hscope hfresh hbounded
  have hwithin : Within ms t.schema := by
    refine Node.within_of_mem_into hn ?_
    rw [← ht.parent]
    exact ht.stands.mem_into
  have hcall : t.call = ⟨.null, t.schema, "", chain ++ followed⟩ := by rw [call, ht.followed]
  refine ⟨⟨?bounded, fun r hr => ?ending⟩, ?less⟩
  case bounded =>
    rw [hcall]
    exact hleaf.of_within hwithin .null hleaf.chain_subset hleaf.chain_nodup
  case ending =>
    rw [ht.followed] at hr
    obtain hr | hr := List.mem_append.mp hr
    · obtain ⟨root, u, hroot, htarget, hleads⟩ := hchased.leadsTo_of_mem hr (List.not_mem_nil)
      exact ⟨root, u, ms, hroot, htarget, hleads, hchased.get?_eq_none⟩
    · exact hending r hr
  case less =>
    rw [hcall]
    exact Nat.lt_of_lt_of_le (Evaluation.Call.rank_lt_of_within hwithin) hle

theorem Sound.of_mem_below (hscope : Evaluation.Call.Bounds refs height { root := document })
    (hs : s.Sound refs height document) (ht : t ∈ s.below document) :
    t.Sound refs height document ∧ t.call.rank refs height < s.call.rank refs height := by
  obtain ⟨n, chain, hexpansion, hbelow⟩ := exists_of_mem_below ht
  obtain ⟨ms, hsettle, hn, hfresh⟩ := expansion_eq_some hexpansion
  exact hbelow.sound hscope hsettle hn hfresh hs.bounded hs.ending

theorem own_ne_exhausted (document : Option Json) (s : Site) :
    s.own document ≠ .error .exhausted := by
  intro h
  obtain hsettle | ⟨⟨leaf, chain⟩, -, h⟩ := bind_eq_error h
  · exact settle_ne_exhausted document s.schema hsettle
  · cases leaf with
    | obj ms =>
      have hplain : Plain (Node.ofMembers ms >>= fun n =>
          (ofNode n s.path (s.parent.object.required.contains (.str s.asked))).map fun f => [f]) :=
        (Node.plain_ofMembers ms).bind fun n _ => (plain_ofNode _ _ _).map _
      cases hplain _ h
    | _ => cases h

/-- Steps above the measure of a site are not used up, and any other such number does as well. -/
theorem answer_eq_of_rank_lt (hscope : Evaluation.Call.Bounds refs height { root := document })
    {n m : Nat} (hs : s.Sound refs height document) (hn : s.call.rank refs height < n)
    (hm : s.call.rank refs height < m) :
    s.answer (descend document n) = s.answer (descend document m) ∧
      s.answer (descend document n) ≠ .error .exhausted := by
  induction n generalizing m s with
  | zero => omega
  | succ n ih =>
    obtain ⟨m, rfl⟩ : ∃ k, m = k + 1 := ⟨m - 1, by omega⟩
    have hbelow : ∀ t ∈ s.below document,
        t.answer (descend document n) = t.answer (descend document m) ∧
          t.answer (descend document n) ≠ .error .exhausted := by
      intro t ht
      obtain ⟨hsound, hlt⟩ := hs.of_mem_below hscope ht
      exact ih hsound (by omega) (by omega)
    rw [answer_descend, answer_descend, ← ofSites_congr fun t ht => (hbelow t ht).1]
    refine ⟨rfl, fun h => ?_⟩
    obtain hown | ⟨own, -, h⟩ := bind_eq_error h
    · exact own_ne_exhausted document s hown
    · obtain hsites | ⟨rest, -, h⟩ := bind_eq_error h
      · obtain ⟨t, ht, herror⟩ := exists_of_ofSites_error hsites
        exact (hbelow t ht).2 herror
      · cases h

/-- What is expanded at a site was not followed before. -/
theorem Sound.nodup_expanded (hscope : Evaluation.Call.Bounds refs height { root := document })
    (hs : s.Sound refs height document) : (s.expanded document ++ s.followed).Nodup := by
  rw [expanded]
  cases hexpansion : s.expansion document with
  | none => exact hs.bounded.chain_nodup
  | some e =>
    obtain ⟨ms, hsettle, -, hfresh⟩ := expansion_eq_some hexpansion
    exact ((chased_of_settle hsettle).bounded hscope hfresh hs.bounded).1.chain_nodup

/-- The references of a site meet one that was followed before. -/
def ReEnters (document : Option Json) (s : Site) : Prop :=
  ∃ leaf chain r, settle document s.schema = .ok (leaf, chain) ∧ r ∈ chain ∧ r ∈ s.followed

/-- Such a site is not expanded. -/
theorem ReEnters.expansion_eq_none (h : s.ReEnters document) : s.expansion document = none := by
  obtain ⟨leaf, chain, r, hsettle, hr, hfollowed⟩ := h
  cases hexpansion : s.expansion document with
  | none => rfl
  | some e =>
    obtain ⟨ms, hsettle', -, hfresh⟩ := expansion_eq_some hexpansion
    cases hsettle.symm.trans hsettle'
    exact absurd hfollowed (hfresh r hr)

/-- Such a site has a field: a reference that was followed before ends at an object, and it ends
there again. -/
theorem ReEnters.exists_makes (h : s.ReEnters document) (hs : s.Sound refs height document)
    {fields : List Field} (hown : s.own document = .ok fields) :
    ∃ f, fields = [f] ∧ s.Makes document f := by
  obtain hmade | ⟨-, leaf, chain, hsettle, hleaf⟩ := own_cases hown
  · exact hmade
  · obtain ⟨leaf', chain', r, hsettle', hr, hfollowed⟩ := h
    cases hsettle.symm.trans hsettle'
    have hchased := chased_of_settle hsettle
    obtain ⟨root, t, ms, hroot, htarget, hleads, hend⟩ := hs.ending r hfollowed
    obtain ⟨root', t', hroot', htarget', hleads'⟩ := hchased.leadsTo_of_mem hr List.not_mem_nil
    cases hroot.symm.trans hroot'
    cases htarget.symm.trans htarget'
    have hobject : Json.obj ms = leaf := eq_of_leadsTo hleads hleads' hend hchased.get?_eq_none
    rw [← hobject] at hleaf
    cases hleaf

end Site

/-! ## Branches -/

/-- A site that is met from the first ones on the way through given sites, the last of them in
front. -/
inductive Branch (document : Option Json) (first : List Site) : Site → List Site → Prop where
  | start {s : Site} (h : s ∈ first) : Branch document first s []
  | down {s t : Site} {up : List Site} (h : Branch document first s up)
      (ht : t ∈ s.below document) : Branch document first t (s :: up)

section

variable (schema : Json) (path : String) (given : Option Json)

/-- The branches of a document. -/
abbrev Branches : Site → List Site → Prop :=
  Branch (Pointer.document schema given) (firstSites schema path given)

/-- What flattening of a document reads a site with. -/
def readSite : Site → Except Fault (List Field) :=
  Site.answer (descend (Pointer.document schema given)
    (Pointer.reach schema (Pointer.document schema given) + 1))

variable {schema path given} {s : Site} {up : List Site}

/-- The fields of a document that can be flattened are its own and those read at the first sites. -/
theorem exists_of_ofSchema {fields : List Field} (h : ofSchema schema path given = .ok fields) :
    ∃ own rest, ownFields schema path given = .ok own ∧
      ofSites (readSite schema given) (firstSites schema path given) = .ok rest ∧
      fields = own ++ rest := by
  rw [ofSchema_eq] at h
  obtain ⟨own, hown, h⟩ := bind_eq_ok h
  obtain ⟨rest, hrest, h⟩ := bind_eq_ok h
  cases h
  exact ⟨own, rest, hown, hrest, rfl⟩

/-- Along a branch sites are sound, the measure goes down by one at least from one site to the next,
and what is handed on is what was expanded. -/
theorem Branch.sound (h : Branches schema path given s up) :
    s.Sound (Evaluation.knownReferences schema (Pointer.document schema given))
        (Pointer.schemaHeight schema (Pointer.document schema given))
        (Pointer.document schema given) ∧
      s.call.rank (Evaluation.knownReferences schema (Pointer.document schema given))
          (Pointer.schemaHeight schema (Pointer.document schema given)) + up.length + 1 ≤
        Pointer.reach schema (Pointer.document schema given) ∧
      s.followed = up.flatMap (Site.expanded (Pointer.document schema given)) ++
        expanded schema path given := by
  have hscope := bounds_document schema (Pointer.document schema given)
  induction h with
  | @start s h =>
    obtain ⟨n, chain, ms, hexpansion, hsettle, hn, hbelow⟩ := exists_of_mem_firstSites _ _ _ h
    have hchain : s.Below n path (chain ++ []) := by rwa [List.append_nil]
    obtain ⟨hsound, hlt⟩ := hchain.sound hscope hsettle hn (fun _ _ => List.not_mem_nil)
      (Evaluation.bounded_start .null schema "" _) nofun
    refine ⟨hsound, ?_, ?_⟩
    · have hbudget := Evaluation.rank_lt_budget .null schema "" (Pointer.document schema given)
      have hnull : Json.null.height = 0 := rfl
      rw [Evaluation.budget, hnull, Nat.zero_add, Nat.one_mul] at hbudget
      rw [List.length_nil]
      omega
    · rw [hbelow.followed, expanded, hexpansion]
      rfl
  | @down s t up _ ht ih =>
    obtain ⟨hsound, hle, hfollowed⟩ := ih
    obtain ⟨hsound', hlt⟩ := hsound.of_mem_below hscope ht
    refine ⟨hsound', ?_, ?_⟩
    · rw [List.length_cons]
      omega
    · obtain ⟨n, chain, hexpansion, hbelow⟩ := Site.exists_of_mem_below ht
      rw [hbelow.followed, hfollowed, List.flatMap_cons, Site.expanded, hexpansion,
        List.append_assoc]
      rfl

/-- Flattening gives for a site on a branch its own field and what it gives for the sites below,
with as many steps as at the beginning. -/
theorem Branch.readSite_eq (h : Branches schema path given s up) :
    readSite schema given s =
      s.own (Pointer.document schema given) >>= fun own =>
        ofSites (readSite schema given) (s.below (Pointer.document schema given)) >>= fun rest =>
          .ok (own ++ rest) := by
  have hscope := bounds_document schema (Pointer.document schema given)
  obtain ⟨hsound, hle, -⟩ := h.sound
  rw [readSite, Site.answer_descend]
  rw [ofSites_congr fun t ht => ?_]
  obtain ⟨hsound', hlt⟩ := hsound.of_mem_below hscope ht
  exact (Site.answer_eq_of_rank_lt hscope hsound' (by omega) (by omega)).1

/-- No larger number of steps gives anything else. -/
theorem Branch.answer_eq (h : Branches schema path given s up) {m : Nat}
    (hm : Pointer.reach schema (Pointer.document schema given) < m) :
    s.answer (descend (Pointer.document schema given) m) = readSite schema given s ∧
      readSite schema given s ≠ .error .exhausted := by
  have hscope := bounds_document schema (Pointer.document schema given)
  obtain ⟨hsound, hle, -⟩ := h.sound
  have hless : s.call.rank (Evaluation.knownReferences schema (Pointer.document schema given))
      (Pointer.schemaHeight schema (Pointer.document schema given)) <
        Pointer.reach schema (Pointer.document schema given) := by omega
  obtain ⟨heq, hne⟩ := Site.answer_eq_of_rank_lt hscope hsound (Nat.lt_succ_of_lt hless)
    (Nat.lt_trans hless hm)
  exact ⟨heq.symm, hne⟩

/-- What flattening gives for a site on a branch stands together among the fields of the
document. -/
theorem Branch.exists_infix (h : Branches schema path given s up) {fields : List Field}
    (hfields : ofSchema schema path given = .ok fields) :
    ∃ here, readSite schema given s = .ok here ∧ here <:+: fields := by
  induction h with
  | start h =>
    obtain ⟨own, rest, -, hrest, rfl⟩ := exists_of_ofSchema hfields
    obtain ⟨here, hhere, hinfix⟩ := exists_infix_of_ofSites hrest h
    exact ⟨here, hhere, hinfix.trans (List.suffix_append own rest).isInfix⟩
  | down h ht ih =>
    obtain ⟨above, habove, hinfix⟩ := ih
    rw [h.readSite_eq] at habove
    obtain ⟨own, -, habove⟩ := bind_eq_ok habove
    obtain ⟨rest, hrest, habove⟩ := bind_eq_ok habove
    cases habove
    obtain ⟨here, hhere, hinfix'⟩ := exists_infix_of_ofSites hrest ht
    exact ⟨here, hhere, (hinfix'.trans (List.suffix_append own rest).isInfix).trans hinfix⟩

/-- A site where references meet one that was followed before has one field, and nothing is below
it. -/
theorem Branch.exists_of_reEnters (h : Branches schema path given s up)
    (hmeets : s.ReEnters (Pointer.document schema given)) {here : List Field}
    (hhere : readSite schema given s = .ok here) : ∃ f, here = [f] ∧ f.path = s.path := by
  rw [h.readSite_eq] at hhere
  obtain ⟨own, hown, hhere⟩ := bind_eq_ok hhere
  rw [Site.below, hmeets.expansion_eq_none] at hhere
  cases hhere
  obtain ⟨f, rfl, hmakes⟩ := hmeets.exists_makes h.sound.1 hown
  exact ⟨f, rfl, hmakes.path_eq⟩

theorem ownFields_ne_exhausted (schema : Json) (path : String) (given : Option Json) :
    ownFields schema path given ≠ .error .exhausted := by
  intro h
  obtain hsettle | ⟨⟨leaf, chain⟩, -, h⟩ := bind_eq_error h
  · exact settle_ne_exhausted (Pointer.document schema given) schema hsettle
  · cases leaf with
    | obj ms =>
      have hplain : Plain (Node.ofMembers ms >>= fun n =>
          if path.isEmpty then ofWhole n else .ok []) := by
        refine (Node.plain_ofMembers ms).bind fun n _ => ?_
        rw [ofWhole]
        split
        · split
          · exact (plain_ofNode _ _ _).map _
          · exact .ok _
        · exact .ok _
      cases hplain _ h
    | _ => cases h

theorem ofSchema_ne_exhausted (schema : Json) (path : String) (given : Option Json) :
    ofSchema schema path given ≠ .error .exhausted := by
  rw [ofSchema_eq]
  intro h
  obtain hown | ⟨own, -, h⟩ := bind_eq_error h
  · exact ownFields_ne_exhausted schema path given hown
  · obtain hsites | ⟨rest, -, h⟩ := bind_eq_error h
    · obtain ⟨s, hs, herror⟩ := exists_of_ofSites_error hsites
      exact ((Branch.start hs : Branches schema path given s []).answer_eq
        (Nat.lt_succ_self _)).2 herror
    · cases h

/-- Flattening ends, and expands each reference once at most along a branch. It gives fields, or
stops for a reason that is not its number of steps: the fields of the document itself, and then for
one site after the other the field of the site and what there is below. On no branch there are more
sites than schemas can be met one inside the other, and with more steps nothing changes. What is
handed on along a branch are the references expanded on it, no two of them the same; and where the
references of a site meet one of these there is one field, and nothing below it. -/
theorem flattening_ends (schema : Json) (path : String) (given : Option Json) :
    ((∃ fields, ofSchema schema path given = .ok fields) ∨
      ∃ f, f ≠ .exhausted ∧ ofSchema schema path given = .error f) ∧
    ofSchema schema path given =
      (ownFields schema path given >>= fun own =>
        ofSites (readSite schema given) (firstSites schema path given) >>= fun rest =>
          .ok (own ++ rest)) ∧
    ∀ s up, Branches schema path given s up →
      readSite schema given s =
        (s.own (Pointer.document schema given) >>= fun own =>
          ofSites (readSite schema given) (s.below (Pointer.document schema given)) >>= fun rest =>
            .ok (own ++ rest)) ∧
      (∀ m, Pointer.reach schema (Pointer.document schema given) < m →
        s.answer (descend (Pointer.document schema given) m) = readSite schema given s) ∧
      (s :: up).length ≤ Pointer.reach schema (Pointer.document schema given) ∧
      s.followed = up.flatMap (Site.expanded (Pointer.document schema given)) ++
        expanded schema path given ∧
      ((s :: up).flatMap (Site.expanded (Pointer.document schema given)) ++
        expanded schema path given).Nodup ∧
      (s.ReEnters (Pointer.document schema given) →
        s.below (Pointer.document schema given) = [] ∧
        ∀ fields, ofSchema schema path given = .ok fields →
          ∃ f, readSite schema given s = .ok [f] ∧ f.path = s.path ∧ [f] <:+: fields) := by
  refine ⟨?outcome, ofSchema_eq schema path given, fun s up h => ?branch⟩
  case outcome =>
    cases hfields : ofSchema schema path given with
    | ok fields => exact .inl ⟨fields, rfl⟩
    | error f =>
      refine .inr ⟨f, ?_, rfl⟩
      rintro rfl
      exact ofSchema_ne_exhausted schema path given hfields
  case branch =>
    obtain ⟨hsound, hle, hfollowed⟩ := h.sound
    refine ⟨h.readSite_eq, fun m hm => (h.answer_eq hm).1, ?_, hfollowed, ?_, fun hmeets => ?_⟩
    · rw [List.length_cons]
      omega
    · have hnodup := hsound.nodup_expanded (bounds_document schema (Pointer.document schema given))
      rwa [hfollowed, ← List.append_assoc, ← List.flatMap_cons] at hnodup
    · refine ⟨by rw [Site.below, hmeets.expansion_eq_none]; rfl, fun fields hfields => ?_⟩
      obtain ⟨here, hhere, hinfix⟩ := h.exists_infix hfields
      obtain ⟨f, rfl, hpath⟩ := h.exists_of_reEnters hmeets hhere
      exact ⟨f, hhere, hpath, hinfix⟩

end

/-- A reference to the document. -/
def whole : Json := .obj [("$ref", .str "#")]

/-- The members of a tree: an object with another tree as its child. -/
def treeMembers : Members :=
  [("type", .str "object"), ("properties", .obj [("child", whole)])]

/-- The child of a tree, before any reference was followed. -/
def childSite : Site where
  role := .property
  name := "child"
  schema := whole
  above := ""
  parent := { types := some [.str "object"], object := { properties := [("child", whole)] } }
  followed := []

/-- The child of the child, where the document is referred to again. -/
def grandchildSite : Site := { childSite with above := "child", followed := ["#"] }

/-- The child of a tree has a child, which is a field with nothing below it. -/
theorem tree_stops :
    (ofSchema (.obj treeMembers) "" none).map (List.map Field.path) =
        .ok ["child", "child.child"] ∧
      grandchildSite.ReEnters (some (.obj treeMembers)) ∧
      ∃ f, readSite (.obj treeMembers) none grandchildSite = .ok [f] ∧ f.path = "child.child" := by
  have hchild : Branches (.obj treeMembers) "" none childSite [] :=
    .start (by exact List.mem_singleton.mpr rfl)
  have hgrandchild : Branches (.obj treeMembers) "" none grandchildSite [childSite] :=
    .down hchild (by exact List.mem_singleton.mpr rfl)
  have hmeets : grandchildSite.ReEnters (some (.obj treeMembers)) :=
    ⟨.obj treeMembers, ["#"], "#", by rfl, List.mem_singleton.mpr rfl, List.mem_singleton.mpr rfl⟩
  obtain ⟨-, -, hbranches⟩ := flattening_ends (.obj treeMembers) "" none
  obtain ⟨-, -, -, -, -, honce⟩ := hbranches grandchildSite [childSite] hgrandchild
  obtain ⟨f, hread, hpath, -⟩ := (honce hmeets).2 _ (by rfl)
  exact ⟨by rfl, hmeets, f, hread, hpath⟩

end Field

end Conform
