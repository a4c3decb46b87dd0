import Conform.Fault

/-!
# Conform.Trace

What a reading produces, one find after the other, and how it ends. A trace holds the finds in
order and the fault that stopped the reading after them, if one did. A reading that asks for a
few finds only never learns of a later fault, so every demand is a view of one trace:

* `Trace.verdict` asks for one find;
* `Trace.toExcept` asks for all of them;
* `Trace.pulls` asks for a number of them and shows where the trace ended.
-/

namespace Conform

/-- The finds of a reading and the fault it ended with, if any. -/
structure Trace (α : Type) where
  found : List α
  fault : Option Fault
deriving DecidableEq, Repr

namespace Trace

variable {α β : Type}

/-- A reading that ends without a find. -/
def done : Trace α := ⟨[], none⟩

/-- A reading with one find. -/
def find (x : α) : Trace α := ⟨[x], none⟩

/-- A reading that a fault stops at once. -/
def stop (f : Fault) : Trace α := ⟨[], some f⟩

/-- One reading and then another, which is not begun if the first is stopped. -/
def andThen (t : Trace α) (next : Unit → Trace α) : Trace α :=
  match t.fault with
  | some _ => t
  | none =>
    let u := next ()
    ⟨t.found ++ u.found, u.fault⟩

/-- A reading for each element of a list in turn. -/
def each (f : β → Trace α) : List β → Trace α
  | [] => done
  | x :: xs => (f x).andThen fun _ => each f xs

/-- Readings one after the other. -/
def inTurn : List (Unit → Trace α) → Trace α
  | [] => done
  | t :: ts => (t ()).andThen fun _ => inTurn ts

/-- Go on from what a computation gives, a fault of it stopping the reading. -/
def after (r : Except Fault β) (next : β → Trace α) : Trace α :=
  match r with
  | .ok x => next x
  | .error f => stop f

/-! ## Views -/

/-- Whether the reading ends without a find, asking for one find only. -/
def verdict (t : Trace α) : Except Fault Bool :=
  match t.found, t.fault with
  | _ :: _, _ => .ok false
  | [], some f => .error f
  | [], none => .ok true

/-- All finds, or the fault that stopped the reading. -/
def toExcept (t : Trace α) : Except Fault (List α) :=
  match t.fault with
  | some f => .error f
  | none => .ok t.found

/-- What one pull on a reading gives. -/
inductive Pull (α : Type) where
  | find (x : α)
  | fault (f : Fault)
  | finish
deriving DecidableEq, Repr

/-- How a trace ends after its finds. -/
def ending (t : Trace α) : Pull α :=
  match t.fault with
  | some f => .fault f
  | none => .finish

/-- The first `n` pulls; none is made after the one that shows the end. -/
def pulls (t : Trace α) (n : Nat) : List (Pull α) :=
  (t.found.map Pull.find ++ [t.ending]).take n

/-! ## Laws -/

@[simp] theorem done_andThen (next : Unit → Trace α) : done.andThen next = next () := by
  simp [andThen, done]

@[simp] theorem stop_andThen (f : Fault) (next : Unit → Trace α) :
    (stop f).andThen next = stop f := by
  simp [andThen, stop]

@[simp] theorem andThen_done (t : Trace α) : (t.andThen fun _ => done) = t := by
  obtain ⟨found, fault⟩ := t
  cases fault <;> simp [andThen, done]

theorem andThen_assoc (t u v : Trace α) :
    ((t.andThen fun _ => u).andThen fun _ => v) = t.andThen fun _ => u.andThen fun _ => v := by
  obtain ⟨found, fault⟩ := t
  obtain ⟨found', fault'⟩ := u
  cases fault <;> cases fault' <;> simp [andThen]

/-- A second reading counts for the verdict where the first finds nothing. -/
theorem verdict_andThen (t u : Trace α) :
    (t.andThen fun _ => u).verdict =
      match t.verdict with
      | .ok true => u.verdict
      | r => r := by
  obtain ⟨found, fault⟩ := t
  cases fault <;> cases found <;> rfl

theorem verdict_after (r : Except Fault β) (k : β → Trace α) :
    (after r k).verdict =
      match r with
      | .ok x => (k x).verdict
      | .error f => .error f := by
  cases r <;> rfl

/-- A verdict is negative exactly when something is found. -/
theorem verdict_eq_ok_false_iff (t : Trace α) : t.verdict = .ok false ↔ t.found ≠ [] := by
  obtain ⟨found, fault⟩ := t
  cases found <;> cases fault <;> simp [verdict]

/-- A verdict is positive exactly when the reading ends without a find. -/
theorem verdict_eq_ok_true_iff (t : Trace α) : t.verdict = .ok true ↔ t = done := by
  obtain ⟨found, fault⟩ := t
  cases found <;> cases fault <;> simp [verdict, done]

/-- A verdict fails exactly when the reading is stopped before its first find. -/
theorem verdict_eq_error_iff (t : Trace α) (f : Fault) :
    t.verdict = .error f ↔ t = stop f := by
  obtain ⟨found, fault⟩ := t
  cases found <;> cases fault <;> simp [verdict, stop]

/-! ## Finds of one kind -/

variable {P Q : α → Prop} {t : Trace α}

/-- Everything that is found has a property. -/
def Only (P : α → Prop) (t : Trace α) : Prop := ∀ x ∈ t.found, P x

namespace Only

theorem done : (Trace.done : Trace α).Only P := nofun

theorem stop (f : Fault) : (Trace.stop f : Trace α).Only P := nofun

theorem find {x : α} (h : P x) : (Trace.find x).Only P := by
  intro y hy
  rw [List.mem_singleton.mp hy]
  exact h

theorem imp (h : t.Only P) (hPQ : ∀ x, P x → Q x) : t.Only Q := fun x hx => hPQ x (h x hx)

theorem andThen {next : Unit → Trace α} (h : t.Only P) (h' : (next ()).Only P) :
    (t.andThen next).Only P := by
  intro x hx
  obtain ⟨found, fault⟩ := t
  cases fault with
  | some f => exact h x hx
  | none => exact (List.mem_append.mp hx).elim (h x) (h' x)

theorem each {f : β → Trace α} {xs : List β} (h : ∀ x ∈ xs, (f x).Only P) :
    (Trace.each f xs).Only P := by
  induction xs with
  | nil => exact done
  | cons x xs ih =>
    exact (h x List.mem_cons_self).andThen (ih fun y hy => h y (List.mem_cons_of_mem _ hy))

theorem inTurn_nil : (Trace.inTurn ([] : List (Unit → Trace α))).Only P := done

theorem inTurn_cons {u : Unit → Trace α} {ts : List (Unit → Trace α)} (h : (u ()).Only P)
    (h' : (Trace.inTurn ts).Only P) : (Trace.inTurn (u :: ts)).Only P :=
  h.andThen h'

theorem after {r : Except Fault β} {k : β → Trace α} (h : ∀ x, r = .ok x → (k x).Only P) :
    (Trace.after r k).Only P := by
  cases r with
  | error f => exact stop f
  | ok x => exact h x rfl

end Only

end Trace

end Conform
