import Mathlib.Logic.Basic
import Mathlib.Data.Option.Basic

/-!
# Heaps of blocks

A heap gives the value of every block that is allocated.  Allocation takes an
address that is free, and an access to a block that is not allocated, or
through NULL, does not return.
-/

/-- What is at the addresses of the blocks that are allocated. -/
def Heap (α : Type) := Nat → Option α

namespace Heap

variable {α : Type} {heap heap' : Heap α} {address other : Nat}
  {pointer : Option Nat} {value : α} {change : α → α}

def empty : Heap α := fun _ => none

def put (heap : Heap α) (address : Nat) (value : α) : Heap α :=
  fun other => if other = address then some value else heap other

/-- Allocate a block at this address, if it is free. -/
def allocate (heap : Heap α) (address : Nat) (value : α) : Option (Heap α) :=
  match heap address with
  | none => some (heap.put address value)
  | some _ => none

/-- Change the block that a pointer points to. -/
def assign (heap : Heap α) (pointer : Option Nat) (change : α → α) :
    Option (Heap α) := do
  let address ← pointer
  let value ← heap address
  return heap.put address (change value)

def erase (heap : Heap α) (address : Nat) : Heap α :=
  fun other => if other = address then none else heap other

/-- Free the block that a pointer points to; nothing happens for NULL. -/
def free (heap : Heap α) : Option Nat → Option (Heap α)
  | none => some heap
  | some address =>
      match heap address with
      | none => none
      | some _ => some (heap.erase address)

@[simp]
theorem put_same : heap.put address value address = some value := if_pos rfl

theorem put_other (different : other ≠ address) :
    heap.put address value other = heap other := if_neg different

/-- No block is lost. -/
theorem put_ne_none (live : heap other ≠ none) :
    heap.put address value other ≠ none := by
  unfold put
  split
  · exact Option.some_ne_none value
  · exact live

/-- A block below a bound is put among blocks below it. -/
theorem put_below {bound : Nat}
    (below : ∀ other, heap other ≠ none → other < bound)
    (inside : address < bound) :
    ∀ other, heap.put address value other ≠ none → other < bound := by
  intro other live
  by_cases same : other = address
  · rw [same]
    exact inside
  · rw [put_other same] at live
    exact below other live

theorem allocate_eq_some :
    heap.allocate address value = some heap' ↔
      heap address = none ∧ heap' = heap.put address value := by
  unfold allocate
  cases heap address with
  | none => simp [eq_comm]
  | some old => simp

theorem assign_eq_some :
    heap.assign (some address) change = some heap' ↔
      ∃ old, heap address = some old ∧ heap' = heap.put address (change old) := by
  unfold assign
  cases isLive : heap address with
  | none => simp [isLive]
  | some old => simp [isLive, eq_comm]

theorem erase_other (different : other ≠ address) :
    heap.erase address other = heap other := if_neg different

/-- What is free stays free. -/
theorem erase_of_none (free : heap other = none) :
    heap.erase address other = none := by
  unfold erase
  split
  · rfl
  · exact free

theorem free_eq_some :
    heap.free (some address) = some heap' ↔
      heap address ≠ none ∧ heap' = heap.erase address := by
  unfold free
  cases isLive : heap address with
  | none => simp [isLive]
  | some old => simp [isLive, eq_comm]

end Heap
