import Mathlib.Data.List.Basic

/-!
# Byte streams

One direction of a connection: what was written is read in the same order, in
pieces whose sizes the reader cannot choose.
-/

namespace ByteStream

variable {α : Type}

/-- Everything that was written, how much of it was read, and whether more may
be written. -/
structure Stream (α : Type) where
  sent : List α
  taken : Nat
  closed : Bool

namespace Stream

def start : Stream α := ⟨[], 0, false⟩

def unread (s : Stream α) : List α := s.sent.drop s.taken

def received (s : Stream α) : List α := s.sent.take s.taken

def write (s : Stream α) (bytes : List α) : Stream α :=
  { s with sent := s.sent ++ bytes }

def close (s : Stream α) : Stream α := { s with closed := true }

/-- A read with room for `size` elements: a part of what is there, the end of a
stream that was closed, or an error, which the other side can only cause by
closing. -/
inductive Reads (size : Nat) : Stream α → Option (List α) → Stream α → Prop
  | part {s : Stream α} {count : Nat} (some : 0 < count) (room : count ≤ size)
      (there : count ≤ s.unread.length) :
      Reads size s (Option.some (s.unread.take count))
        { s with taken := s.taken + count }
  | ended {s : Stream α} (closed : s.closed = true) (nothing : s.unread = []) :
      Reads size s (Option.some []) s
  | failed {s : Stream α} (closed : s.closed = true) : Reads size s none s

variable {s s' : Stream α} {size : Nat} {result : Option (List α)}

@[simp] theorem sent_write (bytes : List α) :
    (s.write bytes).sent = s.sent ++ bytes := rfl

@[simp] theorem taken_write (bytes : List α) :
    (s.write bytes).taken = s.taken := rfl

@[simp] theorem closed_write (bytes : List α) :
    (s.write bytes).closed = s.closed := rfl

@[simp] theorem sent_close : s.close.sent = s.sent := rfl

@[simp] theorem taken_close : s.close.taken = s.taken := rfl

@[simp] theorem closed_close : s.close.closed = true := rfl

theorem received_append_unread : s.received ++ s.unread = s.sent :=
  List.take_append_drop _ _

theorem length_unread : s.unread.length = s.sent.length - s.taken :=
  List.length_drop

theorem Reads.sent (reads : Reads size s result s') : s'.sent = s.sent := by
  cases reads <;> rfl

theorem Reads.closed (reads : Reads size s result s') :
    s'.closed = s.closed := by
  cases reads <;> rfl

/-- What is read comes next. -/
theorem Reads.received {bytes : List α} (reads : Reads size s (some bytes) s')
    (inside : s.taken ≤ s.sent.length) :
    s'.received = s.received ++ bytes ∧ s'.taken ≤ s'.sent.length ∧
      bytes.length ≤ size := by
  cases reads with
  | part some room there =>
      rename_i count
      rw [length_unread] at there
      refine ⟨?_, by simp only; omega, ?_⟩
      · simp only [Stream.received, unread, List.take_add]
      · rw [List.length_take]
        exact Nat.le_trans (Nat.min_le_left _ _) room
  | ended _ _ => exact ⟨(List.append_nil _).symm, inside, Nat.zero_le _⟩

/-- What was read is no longer unread. -/
theorem Reads.length_unread {bytes : List α}
    (reads : Reads size s (some bytes) s') :
    s'.unread.length + bytes.length = s.unread.length := by
  cases reads with
  | part some room there =>
      rw [Stream.length_unread] at there ⊢
      rw [List.length_take, Stream.length_unread]
      simp only
      omega
  | ended _ _ => rfl

theorem Reads.eq_of_none (reads : Reads size s none s') : s' = s := by
  cases reads
  rfl

/-- A read of nothing is the end. -/
theorem Reads.ended_of_nil (reads : Reads size s (some []) s') :
    s' = s ∧ s.closed = true ∧ s.unread = [] := by
  generalize isNil : some ([] : List α) = result at reads
  cases reads with
  | part some room there =>
      rename_i count
      have none := congrArg List.length (Option.some.inj isNil)
      rw [List.length_take, List.length_nil] at none
      omega
  | ended closed nothing => exact ⟨rfl, closed, nothing⟩
  | failed _ => exact absurd isNil (by simp)

theorem unread_write (bytes : List α) (inside : s.taken ≤ s.sent.length) :
    (s.write bytes).unread = s.unread ++ bytes :=
  List.drop_append_of_le_length inside

@[simp] theorem unread_close : s.close.unread = s.unread := rfl

@[simp] theorem received_close : s.close.received = s.received := rfl

theorem received_prefix : s.received <+: s.sent := List.take_prefix _ _

/-- A read that fills its room took the next elements. -/
theorem Reads.full {bytes : List α} (reads : Reads size s (some bytes) s')
    (positive : 0 < size) (full : bytes.length = size) :
    bytes = s.unread.take size ∧ size ≤ s.unread.length := by
  cases reads with
  | part _ room there =>
      rename_i count
      rw [List.length_take, Nat.min_eq_left there] at full
      subst full
      exact ⟨rfl, there⟩
  | ended _ _ => exact absurd full (Nat.ne_of_lt positive)

/-- A read ends when something is there or nothing will be. -/
theorem exists_reads (positive : 0 < size)
    (ready : s.unread ≠ [] ∨ s.closed = true) :
    ∃ result s', Reads size s result s' := by
  by_cases nothing : s.unread = []
  · exact ⟨_, _, Reads.ended (ready.resolve_left fun more => more nothing)
      nothing⟩
  · have there := List.length_pos_of_ne_nil nothing
    exact ⟨_, _, @Reads.part _ _ _ 1 Nat.zero_lt_one positive there⟩

end Stream

end ByteStream
