import Conform.Number.Basic

/-!
# Conform.Json.Basic

Decoded documents: what a schema is read from and what is checked against it. An object keeps
its members in the order they were written, and that order decides the order of every report.
Beside the values of the interchange format there is `absent`, the value that was not
supplied; it may also stand inside a document.

Members are plain lists of pairs. That the names of an object differ is the predicate
`Json.Distinct`, which reading a document establishes, and not part of the type.
-/

namespace Conform

/-- A decoded value. -/
inductive Json where
  | absent
  | null
  | bool (b : Bool)
  | num (n : Number)
  | str (s : String)
  | arr (items : List Json)
  | obj (members : List (String × Json))
deriving Repr, Inhabited

/-- A table of named entries, in order. -/
abbrev Table (α : Type) := List (String × α)

/-- The members of an object, in order. -/
abbrev Members := Table Json

namespace Json

/-! ## Equality of representations -/

mutual

/-- Whether two values are written alike. -/
def decEq : (a b : Json) → Decidable (a = b)
  | .absent, .absent => isTrue rfl
  | .null, .null => isTrue rfl
  | .bool a, .bool b =>
    if h : a = b then isTrue (h ▸ rfl) else isFalse fun e => h (Json.bool.inj e)
  | .num a, .num b =>
    if h : a = b then isTrue (h ▸ rfl) else isFalse fun e => h (Json.num.inj e)
  | .str a, .str b =>
    if h : a = b then isTrue (h ▸ rfl) else isFalse fun e => h (Json.str.inj e)
  | .arr a, .arr b =>
    match decEqItems a b with
    | isTrue h => isTrue (h ▸ rfl)
    | isFalse h => isFalse fun e => h (Json.arr.inj e)
  | .obj a, .obj b =>
    match decEqMembers a b with
    | isTrue h => isTrue (h ▸ rfl)
    | isFalse h => isFalse fun e => h (Json.obj.inj e)
  | .absent, .null | .absent, .bool _ | .absent, .num _ | .absent, .str _ | .absent, .arr _
  | .absent, .obj _ | .null, .absent | .null, .bool _ | .null, .num _ | .null, .str _
  | .null, .arr _ | .null, .obj _ | .bool _, .absent | .bool _, .null | .bool _, .num _
  | .bool _, .str _ | .bool _, .arr _ | .bool _, .obj _ | .num _, .absent | .num _, .null
  | .num _, .bool _ | .num _, .str _ | .num _, .arr _ | .num _, .obj _ | .str _, .absent
  | .str _, .null | .str _, .bool _ | .str _, .num _ | .str _, .arr _ | .str _, .obj _
  | .arr _, .absent | .arr _, .null | .arr _, .bool _ | .arr _, .num _ | .arr _, .str _
  | .arr _, .obj _ | .obj _, .absent | .obj _, .null | .obj _, .bool _ | .obj _, .num _
  | .obj _, .str _ | .obj _, .arr _ => isFalse nofun

/-- Whether two lists of values are written alike. -/
def decEqItems : (a b : List Json) → Decidable (a = b)
  | [], [] => isTrue rfl
  | [], _ :: _ => isFalse nofun
  | _ :: _, [] => isFalse nofun
  | x :: xs, y :: ys =>
    match decEq x y, decEqItems xs ys with
    | isTrue h, isTrue hs => isTrue (h ▸ hs ▸ rfl)
    | isFalse h, _ => isFalse fun e => h (List.cons.inj e).1
    | _, isFalse hs => isFalse fun e => hs (List.cons.inj e).2

/-- Whether two lists of members are written alike. -/
def decEqMembers : (a b : List (String × Json)) → Decidable (a = b)
  | [], [] => isTrue rfl
  | [], _ :: _ => isFalse nofun
  | _ :: _, [] => isFalse nofun
  | (k, x) :: xs, (l, y) :: ys =>
    if hk : k = l then
      match decEq x y, decEqMembers xs ys with
      | isTrue h, isTrue hs => isTrue (hk ▸ h ▸ hs ▸ rfl)
      | isFalse h, _ => isFalse fun e => h (Prod.mk.inj (List.cons.inj e).1).2
      | _, isFalse hs => isFalse fun e => hs (List.cons.inj e).2
    else isFalse fun e => hk (Prod.mk.inj (List.cons.inj e).1).1

end

instance : DecidableEq Json := decEq

/-! ## Looking into a value -/

/-- The members of an object, and nothing for any other value. -/
def members? : Json → Option Members
  | .obj ms => some ms
  | _ => none

/-- The items of an array, and nothing for any other value. -/
def items? : Json → Option (List Json)
  | .arr xs => some xs
  | _ => none

/-- The text of a string, and nothing for any other value. -/
def text? : Json → Option String
  | .str s => some s
  | _ => none

/-- Whether the value is an object. -/
def isObject (j : Json) : Bool := j.members?.isSome

/-- The member of a name, in an object that has one. -/
def get? (j : Json) (name : String) : Option Json :=
  j.members?.bind fun ms => ms.lookup name

/-- Whether a value counts as false where a yes or no is wanted: what is missing, zeros and
everything empty. -/
def isFalsy : Json → Bool
  | .absent => true
  | .null => true
  | .bool b => !b
  | .num n => n.isZero
  | .str s => s.isEmpty
  | .arr xs => xs.isEmpty
  | .obj ms => ms.isEmpty

/-- Whether a value counts as true where a yes or no is wanted. -/
def isTruthy (j : Json) : Bool := !j.isFalsy

/-- A boolean counts as one or zero where a number is wanted. -/
def numeric? : Json → Option Number
  | .num n => some n
  | .bool b => some (.int (if b then 1 else 0))
  | _ => none

/-- Arrays and objects cannot name an entry of a table. -/
def isKey : Json → Bool
  | .arr _ => false
  | .obj _ => false
  | _ => true

/-! ## Size -/

mutual

/-- How deep a value nests. -/
def height : Json → Nat
  | .arr xs => itemsHeight xs + 1
  | .obj ms => membersHeight ms + 1
  | _ => 0

/-- The depth of the deepest item. -/
def itemsHeight : List Json → Nat
  | [] => 0
  | x :: xs => max x.height (itemsHeight xs)

/-- The depth of the deepest member. -/
def membersHeight : List (String × Json) → Nat
  | [] => 0
  | (_, x) :: xs => max x.height (membersHeight xs)

end

theorem height_le_itemsHeight {x : Json} {xs : List Json} (h : x ∈ xs) :
    x.height ≤ itemsHeight xs := by
  induction xs with
  | nil => cases h
  | cons y ys ih =>
    rw [itemsHeight]
    cases h with
    | head => omega
    | tail _ h => have := ih h; omega

theorem height_le_membersHeight {k : String} {x : Json} {ms : Members} (h : (k, x) ∈ ms) :
    x.height ≤ membersHeight ms := by
  induction ms with
  | nil => cases h
  | cons m ms ih =>
    obtain ⟨l, y⟩ := m
    rw [membersHeight]
    cases h with
    | head => omega
    | tail _ h => have := ih h; omega

/-! ## Distinct names -/

mutual

/-- No object of the value gives one name twice. -/
def Distinct : Json → Prop
  | .arr xs => DistinctItems xs
  | .obj ms => (ms.map Prod.fst).Nodup ∧ DistinctMembers ms
  | _ => True

/-- Every item has distinct names. -/
def DistinctItems : List Json → Prop
  | [] => True
  | x :: xs => x.Distinct ∧ DistinctItems xs

/-- Every member has distinct names. -/
def DistinctMembers : List (String × Json) → Prop
  | [] => True
  | (_, x) :: xs => x.Distinct ∧ DistinctMembers xs

end

/-! ## Long integers -/

/-- Longer integers are neither read nor written. -/
def maxIntegerDigits : Nat := 4300

/-- Whether an integer is short enough to be written. -/
def integerFits (i : Int) : Bool := (Nat.toDigits 10 i.natAbs).length ≤ maxIntegerDigits

mutual

/-- Whether every integer in a value is short enough to be written. -/
def numeralsFit : Json → Bool
  | .num (.int i) => integerFits i
  | .arr xs => itemsFit xs
  | .obj ms => membersFit ms
  | _ => true

/-- Whether every integer in items is short enough. -/
def itemsFit : List Json → Bool
  | [] => true
  | x :: xs => x.numeralsFit && itemsFit xs

/-- Whether every integer in members is short enough. -/
def membersFit : List (String × Json) → Bool
  | [] => true
  | (_, x) :: ms => x.numeralsFit && membersFit ms

end

end Json

/-! ## Tables -/

namespace Table

/-- Put an entry: a name that is there keeps its place and takes the new entry, any other name
comes last. -/
def put {α : Type} : Table α → String → α → Table α
  | [], k, v => [(k, v)]
  | (l, w) :: t, k, v => if l = k then (k, v) :: t else (l, w) :: put t k v

/-- Whether a table has an entry of a name. -/
def has {α : Type} (t : Table α) (name : String) : Bool := (t.lookup name).isSome

theorem lookup_put_self {α : Type} (t : Table α) (k : String) (v : α) :
    (put t k v).lookup k = some v := by
  induction t with
  | nil => simp [put]
  | cons m t ih =>
    obtain ⟨l, w⟩ := m
    by_cases h : l = k
    · simp [put, h]
    · have hne : (k == l) = false := by simpa using fun e => h e.symm
      rw [put, if_neg h, List.lookup_cons, hne]
      exact ih

end Table

end Conform
