import Conform.Field.Flatten
import Conform.Proofs.Subschemas

/-!
# Conform.Proofs.Flattening

How fields are made, in equations: what is said of named schemas, of items and of the fields below a
field is said of one schema at a time (`Field.ofOne`), and what is said of a schema is said of the
one that its references end at.
-/

namespace Conform

/-- Schemas can be met one inside the other as deep as a schema nests. -/
theorem Pointer.height_lt_reach (schema : Json) (document : Option Json) :
    schema.height < reach schema document := by
  have hheight : schema.height < schemaHeight schema document + 1 :=
    Nat.lt_succ_of_le (Nat.le_max_left _ _)
  exact Nat.lt_of_lt_of_le hheight (Nat.le_mul_of_pos_left _ (Nat.succ_pos _))

namespace Field

/-! ## Fields below a field -/

/-- The fields of one schema, if it is an object. -/
def ofOne (self : Descend) (name : String) (schema : Json) (path : String) (parent : Node)
    (followed : List String) : Except Fault (List Field) :=
  if schema.isObject then self name schema path parent followed else .ok []

theorem ofTable_cons (self : Descend) (place : String → String) (parent : Node)
    (followed : List String) (name : String) (schema : Json) (ms : Members) :
    ofTable self place parent followed ((name, schema) :: ms) =
      ofOne self name schema (place name) parent followed >>= fun here =>
        ofTable self place parent followed ms >>= fun rest => .ok (here ++ rest) := by
  rw [ofTable, ofOne]
  cases schema.isObject <;> rfl

theorem ofItems_eq (self : Descend) (n : Node) (name path : String) (followed : List String) :
    ofItems self n name path followed =
      n.array.items.elim (.ok []) fun s =>
        ofOne self (name ++ "[*]") s (path ++ "[*]") n followed := by
  unfold ofItems
  split
  · next ms hitems =>
    rw [hitems]
    rfl
  · next hobject =>
    cases hitems : n.array.items with
    | none => rfl
    | some s =>
      cases s with
      | obj ms => exact absurd hitems (hobject ms)
      | _ => rfl

theorem ofChildren_eq (self : Descend) (n : Node) (name path : String) (followed : List String) :
    ofChildren self n name path followed =
      (if n.declares "object" then ofObject self n path followed else .ok []) >>= fun members =>
        (if n.declares "array" then ofItems self n name path followed else .ok []) >>= fun items =>
          .ok (members ++ items) := by
  rw [ofChildren]
  cases n.declares "object" <;> cases n.declares "array" <;> rfl

/-! ## Fields of a schema -/

section

variable {document : Option Json} {s leaf : Json} {ms : Members} {chain followed : List String}
  {m : Nat}

/-- Nothing is followed from a schema that is no reference. -/
theorem settle_of_get?_eq_none (h : s.get? "$ref" = none) : settle document s = .ok (s, []) := by
  rw [settle, chase, h]

/-- The field of a schema whose references end at an object, and the fields below it unless one of
the references was followed before. -/
theorem descend_settled (hsettle : settle document s = .ok (.obj ms, chain)) (name path : String)
    (parent : Node) (followed : List String) :
    descend document (m + 1) name s path parent followed =
      Node.ofMembers ms >>= fun n =>
        ofNode n path (parent.object.required.contains (.str name)) >>= fun field =>
          if chain.any followed.contains then .ok [field]
          else
            ofChildren (descend document m) n name path (chain ++ followed) >>= fun below =>
              .ok (field :: below) := by
  simp only [descend, hsettle]
  rfl

/-- The field of a schema whose references were not followed before, and the fields below it. -/
theorem descend_object (hsettle : settle document s = .ok (.obj ms, chain))
    (hfresh : ∀ r ∈ chain, r ∉ followed) (name path : String) (parent : Node) :
    descend document (m + 1) name s path parent followed =
      Node.ofMembers ms >>= fun n =>
        ofNode n path (parent.object.required.contains (.str name)) >>= fun field =>
          ofChildren (descend document m) n name path (chain ++ followed) >>= fun below =>
            .ok (field :: below) := by
  have hany : chain.any followed.contains = false := by
    rw [List.any_eq_false]
    intro r hr hmem
    exact hfresh r hr (List.contains_iff_mem.mp hmem)
  rw [descend_settled hsettle, hany]
  rfl

/-- What is no object has no field. -/
theorem descend_atom (hsettle : settle document s = .ok (leaf, chain))
    (hleaf : leaf.isObject = false) (name path : String) (parent : Node)
    (followed : List String) : descend document (m + 1) name s path parent followed = .ok [] := by
  simp only [descend, hsettle]
  cases leaf with
  | obj ms => cases hleaf
  | _ => rfl

/-! The document that references address may be another one than the schema. -/

variable {given : Option Json}

theorem ofSchema_object (hdocument : Pointer.document s given = document)
    (hsettle : settle document s = .ok (.obj ms, chain)) :
    ofSchema s "" given =
      Node.ofMembers ms >>= fun n =>
        ofDocument document (Pointer.reach s document + 1) n chain := by
  simp only [ofSchema, hdocument, hsettle]
  rfl

theorem ofSchema_atom (hdocument : Pointer.document s given = document)
    (hsettle : settle document s = .ok (leaf, chain)) (hleaf : leaf.isObject = false) :
    ofSchema s "" given = .ok [] := by
  simp only [ofSchema, hdocument, hsettle]
  cases leaf with
  | obj ms => cases hleaf
  | _ => rfl

end

end Field

end Conform
