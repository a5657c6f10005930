import Mathlib.Data.Nat.ModEq
import Mathlib.Tactic.Ring

/-!
# Byte memory

A memory is what a pointer sees: one byte at every offset.  This module gives
the C operations on it that copy blocks, store and load little-endian
integers, and read NUL-terminated strings, with the rules by which they
compose.  Bounds are the business of the caller.
-/

namespace ByteMemory

abbrev Memory := Nat → UInt8

namespace Memory

def zero : Memory := fun _ => 0

def copy (memory : Memory) (offset count : Nat) (source : Memory) :
    Memory :=
  fun i =>
    if offset ≤ i ∧ i < offset + count then source (i - offset)
    else memory i

/-- The bytes of a list, followed by zeros. -/
def ofList (bytes : List UInt8) : Memory := fun i => bytes.getD i 0

def slice (memory : Memory) (offset count : Nat) : List UInt8 :=
  (List.range count).map fun i => memory (offset + i)

/-- Store a little-endian integer of `width` bytes. -/
def storeLE (memory : Memory) (offset width value : Nat) : Memory :=
  memory.copy offset width fun i => UInt8.ofNat (value / 256 ^ i)

/-- Load a little-endian integer of the given width. -/
def loadLE (memory : Memory) (offset : Nat) : Nat → Nat
  | 0 => 0
  | width + 1 =>
      (memory offset).toNat + 256 * loadLE memory (offset + 1) width

theorem copy_inside
    (memory : Memory) {offset count i : Nat} (source : Memory)
    (lower : offset ≤ i) (upper : i < offset + count) :
    memory.copy offset count source i = source (i - offset) := by
  simp [copy, lower, upper]

theorem copy_outside
    (memory : Memory) {offset count i : Nat} (source : Memory)
    (outside : i < offset ∨ offset + count ≤ i) :
    memory.copy offset count source i = memory i := by
  unfold copy
  rw [if_neg]
  rintro ⟨lower, upper⟩
  omega

theorem storeLE_outside
    (memory : Memory) {offset width i : Nat} (value : Nat)
    (outside : i < offset ∨ offset + width ≤ i) :
    memory.storeLE offset width value i = memory i :=
  copy_outside memory _ outside

@[simp]
theorem length_slice (memory : Memory) (offset count : Nat) :
    (memory.slice offset count).length = count := by
  simp [slice]

theorem getD_slice
    (memory : Memory) (offset : Nat) {count i : Nat} (inside : i < count) :
    (memory.slice offset count).getD i 0 = memory (offset + i) := by
  simp [slice, inside]

/-- A slice only depends on the bytes it covers. -/
theorem slice_congr
    {first second : Memory} {offset count : Nat}
    (agree : ∀ i, offset ≤ i → i < offset + count → first i = second i) :
    first.slice offset count = second.slice offset count := by
  apply List.map_congr_left
  intro i member
  have inside : i < count := List.mem_range.mp member
  exact agree (offset + i) (by omega) (by omega)

theorem slice_eq_of_getD
    {memory : Memory} {offset : Nat} {bytes : List UInt8}
    (agree : ∀ i < bytes.length, memory (offset + i) = bytes.getD i 0) :
    memory.slice offset bytes.length = bytes := by
  apply List.ext_getElem
  · simp
  · intro i _ inside
    have byte := agree i inside
    simpa [slice, inside] using byte

theorem loadLE_congr
    {first second : Memory} {offset width : Nat}
    (agree : ∀ i, offset ≤ i → i < offset + width → first i = second i) :
    first.loadLE offset width = second.loadLE offset width := by
  induction width generalizing offset with
  | zero => rfl
  | succ width inductionHypothesis =>
      have rest :
          first.loadLE (offset + 1) width =
            second.loadLE (offset + 1) width :=
        inductionHypothesis fun i lower upper =>
          agree i (by omega) (by omega)
      simp only [loadLE]
      rw [rest, agree offset (by omega) (by omega)]

/-- The digits of `value` in base 256 load as `value`, up to the width. -/
theorem loadLE_of_digits
    {memory : Memory} {offset width value : Nat}
    (digits :
      ∀ i < width, memory (offset + i) = UInt8.ofNat (value / 256 ^ i)) :
    memory.loadLE offset width = value % 256 ^ width := by
  induction width generalizing offset value with
  | zero => simp [loadLE, Nat.mod_one]
  | succ width inductionHypothesis =>
      have first : (memory offset).toNat = value % 256 := by
        have digit := digits 0 (by omega)
        simp only [Nat.add_zero, pow_zero, Nat.div_one] at digit
        rw [digit, UInt8.toNat_ofNat']
      have rest :
          memory.loadLE (offset + 1) width =
            value / 256 % 256 ^ width := by
        apply inductionHypothesis
        intro i inside
        have digit := digits (i + 1) (by omega)
        rw [Nat.div_div_eq_div_mul, ← pow_succ', ← digit]
        congr 1
        omega
      rw [loadLE, first, rest, pow_succ', Nat.mod_mul]

theorem loadLE_storeLE
    (memory : Memory) (offset width value : Nat) :
    (memory.storeLE offset width value).loadLE offset width =
      value % 256 ^ width := by
  apply loadLE_of_digits
  intro i inside
  rw [storeLE, copy_inside memory _ (by omega) (by omega),
    Nat.add_sub_cancel_left]

theorem loadLE_copy_outside
    (memory : Memory) {offset count start width : Nat} (source : Memory)
    (apart : start + width ≤ offset ∨ offset + count ≤ start) :
    (memory.copy offset count source).loadLE start width =
      memory.loadLE start width :=
  loadLE_congr fun _ _ _ => copy_outside memory source (by omega)

theorem loadLE_storeLE_outside
    (memory : Memory) {offset count start width : Nat} (value : Nat)
    (apart : start + width ≤ offset ∨ offset + count ≤ start) :
    (memory.storeLE offset count value).loadLE start width =
      memory.loadLE start width :=
  loadLE_copy_outside memory _ apart

theorem slice_ofList (bytes : List UInt8) :
    (ofList bytes).slice 0 bytes.length = bytes :=
  slice_eq_of_getD fun i _ => by rw [Nat.zero_add, ofList]

theorem slice_copy (memory : Memory) (offset count : Nat) (source : Memory) :
    (memory.copy offset count source).slice offset count =
      source.slice 0 count := by
  apply List.map_congr_left
  intro i member
  have inside : i < count := List.mem_range.mp member
  rw [copy_inside memory source (by omega) (by omega),
    Nat.add_sub_cancel_left, Nat.zero_add]

theorem loadLE_lt (memory : Memory) (offset width : Nat) :
    memory.loadLE offset width < 256 ^ width := by
  induction width generalizing offset with
  | zero => simp [loadLE]
  | succ width inductionHypothesis =>
      have rest := inductionHypothesis (offset + 1)
      have byte : (memory offset).toNat < 256 := (memory offset).toNat_lt
      rw [loadLE, pow_succ']
      omega

/-- The bytes that were loaded. -/
theorem byte_loadLE {memory : Memory} {offset width i : Nat}
    (inside : i < width) :
    UInt8.ofNat (memory.loadLE offset width / 256 ^ i) =
      memory (offset + i) := by
  induction width generalizing offset i with
  | zero => omega
  | succ width inductionHypothesis =>
      have byte : (memory offset).toNat < 256 := (memory offset).toNat_lt
      cases i with
      | zero =>
          change _ = memory offset
          rw [loadLE, pow_zero, Nat.div_one, ← UInt8.toNat_inj,
            UInt8.toNat_ofNat']
          omega
      | succ i =>
          have rest : ((memory offset).toNat +
              256 * memory.loadLE (offset + 1) width) / 256 =
                memory.loadLE (offset + 1) width := by omega
          rw [loadLE, pow_succ', ← Nat.div_div_eq_div_mul, rest,
            inductionHypothesis (by omega)]
          congr 1
          omega

end Memory

/-! ## NUL-terminated strings -/

/-- A C string: bytes none of which is the terminator. -/
structure CString where
  chars : List UInt8
  nonzero : ∀ c ∈ chars, c ≠ 0
  deriving DecidableEq

namespace CString

/-- `strlen`. -/
def length (s : CString) : Nat := s.chars.length

def empty : CString := ⟨[], by simp⟩

def cons (c : UInt8) (h : c ≠ 0) (s : CString) : CString :=
  ⟨c :: s.chars, by
    intro d member
    rcases List.mem_cons.mp member with rfl | later
    · exact h
    · exact s.nonzero d later⟩

def take (count : Nat) (s : CString) : CString :=
  ⟨s.chars.take count, fun c member => s.nonzero c (List.mem_of_mem_take member)⟩

def replicate (count : Nat) (c : UInt8) (h : c ≠ 0) : CString :=
  ⟨List.replicate count c, fun d member => by
    rw [List.eq_of_mem_replicate member]
    exact h⟩

@[simp]
theorem length_replicate (count : Nat) (c : UInt8) (h : c ≠ 0) :
    (replicate count c h).length = count :=
  List.length_replicate

/-- `strcat`. -/
def append (s t : CString) : CString :=
  ⟨s.chars ++ t.chars, fun c member => by
    rcases List.mem_append.mp member with first | second
    · exact s.nonzero c first
    · exact t.nonzero c second⟩

@[simp]
theorem length_append (s t : CString) :
    (s.append t).length = s.length + t.length :=
  List.length_append

/-- The characters of the string, with the terminator after them. -/
def memory (s : CString) : Memory := Memory.ofList s.chars

@[ext]
theorem ext {s t : CString} (h : s.chars = t.chars) : s = t := by
  cases s
  cases t
  cases h
  rfl

theorem take_of_length_le {count : Nat} {s : CString}
    (whole : s.length ≤ count) : s.take count = s :=
  CString.ext (List.take_of_length_le whole)

@[simp]
theorem length_empty : empty.length = 0 := rfl

@[simp]
theorem length_cons (c : UInt8) (h : c ≠ 0) (s : CString) :
    (cons c h s).length = s.length + 1 := rfl

theorem memory_ne_zero (s : CString) {i : Nat} (inside : i < s.length) :
    s.memory i ≠ 0 := by
  have inside' : i < s.chars.length := inside
  have value : s.memory i = s.chars[i] := by
    simp [memory, Memory.ofList, inside']
  rw [value]
  exact s.nonzero _ (List.getElem_mem inside')

theorem memory_after (s : CString) {i : Nat} (after : s.length ≤ i) :
    s.memory i = 0 := by
  have after' : s.chars.length ≤ i := after
  simp [memory, Memory.ofList, after']

@[simp]
theorem memory_length (s : CString) : s.memory s.length = 0 :=
  s.memory_after le_rfl

/-- Two strings with the same bytes up to both terminators are equal. -/
theorem eq_of_memory_eq {s t : CString}
    (agree : ∀ i ≤ s.length, s.memory i = t.memory i) : s = t := by
  have sameLength : s.length = t.length := by
    rcases lt_trichotomy s.length t.length with shorter | equal | longer
    · have terminator := agree s.length le_rfl
      rw [memory_length] at terminator
      exact absurd terminator.symm (t.memory_ne_zero shorter)
    · exact equal
    · have terminator := agree t.length longer.le
      rw [memory_length] at terminator
      exact absurd terminator (s.memory_ne_zero longer)
  apply CString.ext
  apply List.ext_getElem sameLength
  intro i left right
  have byte := agree i (Nat.le_of_lt left)
  simpa [memory, Memory.ofList, left, right] using byte

end CString

namespace Memory

/-- The string at `offset`, if its terminator lies within `room` bytes. -/
def string? (memory : Memory) (offset : Nat) : Nat → Option CString
  | 0 => none
  | room + 1 =>
      if h : memory offset = 0 then some CString.empty
      else
        (string? memory (offset + 1) room).map
          (CString.cons (memory offset) h)

/-- Reading a string finds exactly the bytes up to the terminator. -/
theorem string?_eq_some_iff
    {memory : Memory} {offset room : Nat} {s : CString} :
    memory.string? offset room = some s ↔
      s.length < room ∧
        ∀ i ≤ s.length, memory (offset + i) = s.memory i := by
  induction room generalizing offset s with
  | zero => simp [string?]
  | succ room inductionHypothesis =>
      by_cases terminator : memory offset = 0
      · simp only [string?, terminator, dite_true, Option.some.injEq]
        constructor
        · rintro rfl
          refine ⟨by simp, ?_⟩
          intro i bound
          have first : i = 0 := by simpa using bound
          subst first
          simp [terminator, CString.memory, CString.empty, ofList]
        · rintro ⟨_, agree⟩
          apply CString.eq_of_memory_eq
          intro i bound
          have first : i = 0 := by simpa using bound
          subst first
          rw [← agree 0 (Nat.zero_le _), Nat.add_zero, terminator]
          rfl
      · simp only [string?, terminator, dite_false, Option.map_eq_some_iff,
          inductionHypothesis]
        constructor
        · rintro ⟨t, ⟨short, agree⟩, rfl⟩
          refine ⟨by simpa using short, ?_⟩
          intro i bound
          cases i with
          | zero => simp [CString.memory, CString.cons, ofList]
          | succ i =>
              have byte := agree i (by simpa using bound)
              rw [← Nat.add_assoc, Nat.add_right_comm, byte]
              simp [CString.memory, CString.cons, ofList]
        · rintro ⟨short, agree⟩
          obtain ⟨chars, nonzero⟩ := s
          cases chars with
          | nil =>
              have first := agree 0 (Nat.zero_le _)
              exact absurd first (by
                simpa [CString.memory, ofList] using terminator)
          | cons c rest =>
              have head : memory offset = c := by
                simpa [CString.memory, ofList] using
                  agree 0 (Nat.zero_le _)
              refine ⟨⟨rest, fun d member =>
                nonzero d (List.mem_cons_of_mem c member)⟩, ⟨?_, ?_⟩, ?_⟩
              · simpa [CString.length] using short
              · intro i bound
                have byte := agree (i + 1) (by
                  simpa [CString.length] using bound)
                rw [← Nat.add_assoc, Nat.add_right_comm] at byte
                simpa [CString.memory, ofList] using byte
              · apply CString.ext
                simp [CString.cons, head]

theorem string?_congr
    {first second : Memory} {offset room : Nat} {s : CString}
    (found : first.string? offset room = some s)
    (agree :
      ∀ i, offset ≤ i → i ≤ offset + s.length → second i = first i) :
    second.string? offset room = some s := by
  rw [string?_eq_some_iff] at found ⊢
  refine ⟨found.1, ?_⟩
  intro i bound
  rw [agree (offset + i) (by omega) (by omega)]
  exact found.2 i bound

/-- A string copied with its terminator is read back. -/
theorem string?_copy (memory : Memory) {offset room : Nat} (s : CString)
    (fits : s.length < room) :
    (memory.copy offset (s.length + 1) s.memory).string? offset room =
      some s := by
  rw [string?_eq_some_iff]
  refine ⟨fits, fun i bound => ?_⟩
  rw [copy_inside memory _ (by omega) (by omega), Nat.add_sub_cancel_left]

theorem string?_copy_outside (memory : Memory)
    {offset count start room : Nat} (source : Memory) {s : CString}
    (found : memory.string? start room = some s)
    (apart : start + s.length < offset ∨ offset + count ≤ start) :
    (memory.copy offset count source).string? start room = some s :=
  string?_congr found fun _ _ _ => copy_outside memory source (by omega)

/-- The string at the start of a block that was cut out of a memory. -/
theorem string?_slice {memory : Memory} {size : Nat} {value : CString} :
    (ofList (memory.slice 0 size)).string? 0
        (memory.slice 0 size).length = some value ↔
      value.length < size ∧ ∀ i ≤ value.length, memory i = value.memory i := by
  rw [string?_eq_some_iff, length_slice]
  refine and_congr_right fun short => forall₂_congr fun i bound => ?_
  rw [Nat.zero_add, ofList, getD_slice _ _ (by omega),
    Nat.zero_add]

/-- `strncpy(dst, memory, count)`: the bytes of `dst` that are written. -/
def strncpy (memory : Memory) (count : Nat) : List UInt8 :=
  slice (fun i => if ∀ j < i, memory j ≠ 0 then memory i else 0) 0 count

/-- It copies a string that ends within the count. -/
theorem string?_strncpy {memory : Memory} {count : Nat} {s : CString} :
    (ofList (memory.strncpy count)).string? 0 (memory.strncpy count).length =
        some s ↔
      s.length < count ∧ ∀ i ≤ s.length, memory i = s.memory i := by
  rw [strncpy, string?_slice]
  refine and_congr_right fun _ => ?_
  have running {i : Nat} (bound : i ≤ s.length)
      (agree : ∀ j < i, memory j = s.memory j) : ∀ j < i, memory j ≠ 0 := by
    intro j before
    rw [agree j before]
    exact s.memory_ne_zero (by omega)
  constructor
  · intro copied i
    induction i using Nat.strong_induction_on with
    | _ i inductionHypothesis =>
        intro bound
        have here := copied i bound
        rwa [if_pos (running bound fun j before =>
          inductionHypothesis j before (by omega))] at here
  · intro agree i bound
    rw [if_pos (running bound fun j before => agree j (by omega))]
    exact agree i bound

end Memory

end ByteMemory
