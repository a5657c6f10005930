import RdmaKv.Library.ByteMemory

/-!
# Programs between two buffers that may be one

An `Access` reads one buffer and writes another one.  `run` executes it on two
separate buffers and `runInPlace` on a single one.  Where no byte is read after
it was written, `Safe.same` shows that both runs return the same value and
write the same bytes.
-/

namespace Aliasing

open ByteMemory

/-- A program that reads bytes of one buffer and writes bytes of another. -/
inductive Access (α : Type) where
  | done (value : α)
  | crash
  | read (offset count : Nat) (next : List UInt8 → Access α)
  | write (offset : Nat) (bytes : List UInt8) (next : Access α)

namespace Access

variable {α β : Type}

def bind (program : Access α) (next : α → Access β) : Access β :=
  match program with
  | done value => next value
  | crash => crash
  | read offset count resume =>
      read offset count fun bytes => (resume bytes).bind next
  | write offset bytes resume => write offset bytes (resume.bind next)

instance : Monad Access where
  pure := done
  bind := bind

def get (offset count : Nat) : Access (List UInt8) := read offset count done

def put (offset : Nat) (bytes : List UInt8) : Access Unit :=
  write offset bytes (done ())

def littleEndian (width value : Nat) : List UInt8 :=
  (List.range width).map fun i => UInt8.ofNat (value / 256 ^ i)

def load (offset width : Nat) : Access Nat :=
  read offset width fun bytes => done ((Memory.ofList bytes).loadLE 0 width)

def store (offset width value : Nat) : Access Unit :=
  put offset (littleEndian width value)

/-- Read the string that starts at an offset and ends within `room` bytes. -/
def string (offset room : Nat) : Access CString :=
  read offset room fun bytes =>
    match (Memory.ofList bytes).string? 0 room with
    | some s => done s
    | none => crash

/-- What is read from `source`, and `target` after the writes. -/
def run : Access α → Memory → Memory → Option (α × Memory)
  | done value, _, target => some (value, target)
  | crash, _, _ => none
  | read offset count next, source, target =>
      (next (source.slice offset count)).run source target
  | write offset bytes next, source, target =>
      next.run source (target.copy offset bytes.length (Memory.ofList bytes))

/-- Both in one buffer. -/
def runInPlace : Access α → Memory → Option (α × Memory)
  | done value, buffer => some (value, buffer)
  | crash, _ => none
  | read offset count next, buffer =>
      (next (buffer.slice offset count)).runInPlace buffer
  | write offset bytes next, buffer =>
      next.runInPlace (buffer.copy offset bytes.length (Memory.ofList bytes))

abbrev Written := Nat → Option UInt8

namespace Written

def nothing : Written := fun _ => none

def add (written : Written) (offset : Nat) (bytes : List UInt8) : Written :=
  fun i =>
    if offset ≤ i ∧ i < offset + bytes.length then
      some (bytes.getD (i - offset) 0)
    else written i

def At (written : Written) (memory : Memory) : Prop :=
  ∀ i c, written i = some c → memory i = c

theorem at_nothing (memory : Memory) : nothing.At memory :=
  fun _ _ isWritten => absurd isWritten (by simp [nothing])

theorem add_inside (written : Written) {offset i : Nat} {bytes : List UInt8}
    (inside : i < bytes.length) :
    written.add offset bytes (offset + i) = some (bytes.getD i 0) := by
  rw [add, if_pos ⟨Nat.le_add_right .., by omega⟩, Nat.add_sub_cancel_left]

theorem add_outside (written : Written) {offset i : Nat} {bytes : List UInt8}
    (outside : i < offset ∨ offset + bytes.length ≤ i) :
    written.add offset bytes i = written i :=
  if_neg (by omega)

theorem At.add {written : Written} {memory : Memory} (isAt : written.At memory)
    (offset : Nat) (bytes : List UInt8) :
    (written.add offset bytes).At
      (memory.copy offset bytes.length (Memory.ofList bytes)) := by
  intro i c isWritten
  unfold Written.add at isWritten
  split at isWritten
  · rename_i inside
    rw [Memory.copy_inside _ _ inside.1 inside.2]
    exact Option.some.inj isWritten
  · rename_i outside
    rw [Memory.copy_outside _ _ (by omega)]
    exact isAt i c isWritten

/-- Writing again what is there changes nothing. -/
theorem At.copy_eq_self {written : Written} {memory source : Memory}
    (isAt : written.At memory) {offset count : Nat}
    (covers : ∀ i < count, written (offset + i) = some (source i)) :
    memory.copy offset count source = memory := by
  funext i
  unfold Memory.copy
  split
  · rename_i inside
    have isThere := covers (i - offset) (by omega)
    rw [Nat.add_sub_cancel' inside.1] at isThere
    exact (isAt i _ isThere).symm
  · rfl

theorem At.storeLE_eq_self {written : Written} {memory : Memory}
    (isAt : written.At memory) {offset width value : Nat}
    (covers : ∀ i < width, written (offset + i) =
      some (UInt8.ofNat (value / 256 ^ i))) :
    memory.storeLE offset width value = memory :=
  isAt.copy_eq_self covers

end Written

@[simp]
theorem length_littleEndian (width value : Nat) :
    (littleEndian width value).length = width := by
  simp [littleEndian]

theorem getD_littleEndian {width value i : Nat} (inside : i < width) :
    (littleEndian width value).getD i 0 = UInt8.ofNat (value / 256 ^ i) := by
  simp [littleEndian, inside]

/-- No byte is read after it was written, and what is returned meets `post`
together with what was written. -/
def Safe (post : α → Written → Prop) : Access α → Written → Prop
  | done value, written => post value written
  | crash, _ => True
  | read offset count next, written =>
      (∀ i < count, written (offset + i) = none) ∧
        ∀ bytes, Safe post (next bytes) written
  | write offset bytes next, written =>
      Safe post next (written.add offset bytes)

variable {post : α → Written → Prop} {written : Written}

theorem Safe.bind {post : β → Written → Prop} {program : Access α}
    {next : α → Access β}
    (safe : program.Safe (fun value => (next value).Safe post) written) :
    (program >>= next).Safe post written := by
  change (program.bind next).Safe post written
  induction program generalizing written with
  | done value => exact safe
  | crash => trivial
  | read offset count resume inductionHypothesis =>
      exact ⟨safe.1, fun bytes => inductionHypothesis bytes (safe.2 bytes)⟩
  | write offset bytes resume inductionHypothesis =>
      exact inductionHypothesis safe

theorem Safe.mono {post' : α → Written → Prop} {program : Access α}
    (safe : program.Safe post written)
    (weaker : ∀ value later, post value later → post' value later) :
    program.Safe post' written := by
  induction program generalizing written with
  | done value => exact weaker value written safe
  | crash => trivial
  | read offset count resume inductionHypothesis =>
      exact ⟨safe.1, fun bytes => inductionHypothesis bytes (safe.2 bytes)⟩
  | write offset bytes resume inductionHypothesis =>
      exact inductionHypothesis safe

/-- What a stored integer leaves behind. -/
theorem Written.add_littleEndian (written : Written) {offset width value i : Nat}
    (inside : i < width) :
    written.add offset (littleEndian width value) (offset + i) =
      some (UInt8.ofNat (value / 256 ^ i)) := by
  rw [Written.add_inside _ (by rwa [length_littleEndian]),
    getD_littleEndian inside]

theorem safe_load {post : Nat → Written → Prop} {offset width : Nat}
    (unwritten : ∀ i < width, written (offset + i) = none)
    (meets : ∀ value, post value written) :
    (load offset width).Safe post written :=
  ⟨unwritten, fun _ => meets _⟩

theorem safe_string {post : CString → Written → Prop} {offset room : Nat}
    (unwritten : ∀ i < room, written (offset + i) = none)
    (meets : ∀ s, post s written) : (string offset room).Safe post written := by
  refine ⟨unwritten, fun bytes => ?_⟩
  simp only
  split
  · exact meets _
  · trivial

theorem slice_eq {first second : Memory} {offset count : Nat}
    (same : ∀ i < count, first (offset + i) = second (offset + i)) :
    first.slice offset count = second.slice offset count :=
  List.map_congr_left fun i member => same i (List.mem_range.mp member)

/-- In place or not: the same value is returned and the same bytes are
written. -/
theorem Safe.same {program : Access α} {source target buffer : Memory}
    (safe : program.Safe post written)
    (unread : ∀ i, written i = none → buffer i = source i)
    (inBuffer : written.At buffer) (inTarget : written.At target) :
    (program.runInPlace buffer = none ∧ program.run source target = none) ∨
      ∃ value buffer' target' later,
        program.runInPlace buffer = some (value, buffer') ∧
        program.run source target = some (value, target') ∧
        post value later ∧ later.At buffer' ∧ later.At target' := by
  induction program generalizing written target buffer with
  | done value =>
      exact Or.inr ⟨value, buffer, target, written, rfl, rfl, safe, inBuffer,
        inTarget⟩
  | crash => exact Or.inl ⟨rfl, rfl⟩
  | read offset count next inductionHypothesis =>
      have same : buffer.slice offset count = source.slice offset count :=
        slice_eq fun i inside => unread _ (safe.1 i inside)
      have resumed := inductionHypothesis (source.slice offset count)
        (safe.2 _) unread inBuffer inTarget
      simpa only [runInPlace, run, same] using resumed
  | write offset bytes next inductionHypothesis =>
      refine inductionHypothesis safe (fun i unwritten => ?_)
        (inBuffer.add offset bytes) (inTarget.add offset bytes)
      unfold Written.add at unwritten
      split at unwritten
      · exact absurd unwritten (by simp)
      · rename_i outside
        rw [Memory.copy_outside _ _ (by omega)]
        exact unread i unwritten

end Access

end Aliasing
