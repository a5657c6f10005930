import RdmaKv.Ex4.Web
import Mathlib.Data.List.GetD
import Mathlib.Data.List.TakeWhile

/-!
# What the checks of `web` make of a request

The request buffer keeps the bytes of earlier requests and replies behind the
terminator.  Of what the checks compute, only the search for `..` reads them,
and only if the request has no second space.
-/

namespace RdmaKv.Nweb

open ByteMemory

/-- CR and LF are replaced. -/
def starred (request : List UInt8) : List UInt8 :=
  request.map fun c => if c = 13 ∨ c = 10 then 42 else c

/-- The path of the request, up to the second space. -/
def pathOf (request : List UInt8) : List UInt8 :=
  ((starred request).drop 4).takeWhile fun c => c ≠ 0 ∧ c ≠ 32

private theorem pathOf_mem {request : List UInt8} {c : UInt8}
    (member : c ∈ pathOf request) :
    c ≠ 0 ∧ c ≠ 32 := by
  unfold pathOf at member
  have kept := List.mem_takeWhile_imp member
  simpa only [decide_eq_true_eq] using kept

/-- The path, where `/` stands for the index file. -/
def urlPath (request : List UInt8) : CString where
  chars := if pathOf request = [47] then bytes "/index.html" else pathOf request
  nonzero := by
    split
    · exact ne_zero_of_all (by decide)
    · exact fun c member => (pathOf_mem member).1

/-- The request is a GET that leaves room for the terminator. -/
def IsRequest (request : List UInt8) : Prop :=
  request.length < bufsize ∧
    ((starred request).take 4 = bytes "GET " ∨
      (starred request).take 4 = bytes "get ")

def Delimited (request : List UInt8) : Prop :=
  32 ∈ (starred request).drop 4

theorem IsRequest.long {request : List UInt8} (isRequest : IsRequest request) :
    4 ≤ request.length := by
  have length : ((starred request).take 4).length = 4 := by
    rcases isRequest.2 with get | get <;> rw [get] <;> decide
  simpa [starred] using length

@[simp]
theorem length_starred (request : List UInt8) :
    (starred request).length = request.length :=
  List.length_map _

/-! ## The buffer after `read` -/

section Receive

variable {request : List UInt8} {buffer : Memory}

theorem receive_inside (small : request.length < bufsize) {i : Nat}
    (inside : i < request.length) :
    receive request buffer i = (starred request).getD i 0 := by
  have positive : 0 < request.length := by omega
  have whole : request.take bufsize = request :=
    List.take_of_length_le small.le
  unfold receive
  simp only [whole, positive, small, and_self, if_true, inside, true_and]
  rw [Memory.copy_outside _ _ (Or.inl inside),
    Memory.copy_inside _ _ (Nat.zero_le i) (by omega), Nat.sub_zero]
  simp [Memory.ofList, starred, inside]

private theorem receive_end (small : request.length < bufsize)
    (positive : 0 < request.length) :
    receive request buffer request.length = 0 := by
  have whole : request.take bufsize = request :=
    List.take_of_length_le small.le
  unfold receive
  simp only [whole, positive, small, and_self, if_true, lt_irrefl, false_and,
    if_false]
  rw [Memory.copy_inside _ _ le_rfl (Nat.lt_succ_self _)]
  rfl

/-- A request that fills the buffer is not terminated but erased. -/
private theorem receive_full (full : bufsize ≤ request.length) :
    receive request buffer 0 = 0 := by
  have whole : (request.take bufsize).length = bufsize := by
    rw [List.length_take, Nat.min_eq_left full]
  unfold receive
  simp only [whole, lt_irrefl, and_false, if_false]
  rw [Memory.copy_inside _ _ le_rfl (Nat.lt_succ_self _)]
  simp [Memory.zero]

private theorem slice_receive (small : request.length < bufsize)
    (long : 4 ≤ request.length) :
    (receive request buffer).slice 0 4 = (starred request).take 4 := by
  have length : ((starred request).take 4).length = 4 := by
    simpa using long
  have agree : ∀ i < ((starred request).take 4).length,
      receive request buffer (0 + i) = ((starred request).take 4).getD i 0 := by
    intro i inside
    rw [Nat.zero_add, receive_inside small (by omega)]
    simp only [List.getD_eq_getElem?_getD,
      List.getElem?_take_of_lt (show i < 4 by omega)]
  have same := Memory.slice_eq_of_getD agree
  rwa [length] at same

/-- A method is not read from a buffer that ends before it. -/
private theorem isRequest_of_slice {method : List UInt8}
    (nonzero : ∀ i < 4, method.getD i 0 ≠ 0) (nonempty : request ≠ [])
    (reads : (receive request buffer).slice 0 4 = method) :
    request.length < bufsize ∧ (starred request).take 4 = method := by
  have byte (i : Nat) (inside : i < 4) : receive request buffer i ≠ 0 := by
    have here := Memory.getD_slice (receive request buffer) 0 inside
    rw [reads, Nat.zero_add] at here
    rw [← here]
    exact nonzero i inside
  have small : request.length < bufsize := by
    by_contra full
    exact byte 0 (by decide) (receive_full (not_lt.mp full))
  have long : 4 ≤ request.length := by
    by_contra short
    exact byte request.length (not_le.mp short)
      (receive_end small (List.length_pos_iff.mpr nonempty))
  exact ⟨small, (slice_receive small long).symm.trans reads⟩

/-- Whether the method is GET does not depend on what the buffer held. -/
private theorem isGet_receive (nonempty : request ≠ []) :
    isGet (receive request buffer) = true ↔ IsRequest request := by
  unfold isGet IsRequest
  rw [Bool.or_eq_true, decide_eq_true_iff, decide_eq_true_iff, and_or_left]
  have back {method : List UInt8} (length : method.length = 4)
      (small : request.length < bufsize)
      (isMethod : (starred request).take 4 = method) :
      (receive request buffer).slice 0 4 = method := by
    have long := congrArg List.length isMethod
    rw [List.length_take, length_starred, length] at long
    exact (slice_receive small (by omega)).trans isMethod
  constructor
  · rintro (reads | reads)
    · exact Or.inl (isRequest_of_slice (by decide) nonempty reads)
    · exact Or.inr (isRequest_of_slice (by decide) nonempty reads)
  · rintro (⟨small, isMethod⟩ | ⟨small, isMethod⟩)
    · exact Or.inl (back (by decide) small isMethod)
    · exact Or.inr (back (by decide) small isMethod)

end Receive

/-! ## The loop that cuts the path -/

/-- The index of the first space, if there is one. -/
private theorem cutPath_eq (buffer : Memory) (i remaining : Nat) :
    ∃ last, i ≤ last ∧ (∀ k, i ≤ k → k < last → buffer k ≠ 32) ∧
      ((last < i + remaining ∧ buffer last = 32 ∧
          cutPath buffer i remaining =
            (last, buffer.copy last 1 Memory.zero)) ∨
        last = i + remaining ∧ cutPath buffer i remaining = (last, buffer)) := by
  induction remaining generalizing i with
  | zero => exact ⟨i, le_rfl, by omega, Or.inr ⟨rfl, rfl⟩⟩
  | succ remaining inductionHypothesis =>
      unfold cutPath
      by_cases space : buffer i = 32
      · rw [if_pos space]
        exact ⟨i, le_rfl, by omega, Or.inl ⟨by omega, space, rfl⟩⟩
      · rw [if_neg space]
        obtain ⟨last, above, none, ends⟩ := inductionHypothesis (i + 1)
        refine ⟨last, by omega, fun k low high => ?_, ?_⟩
        · rcases Nat.eq_or_lt_of_le low with rfl | later
          · exact space
          · exact none k later high
        · rwa [Nat.add_right_comm] at ends

/-- The loop stops at the first space. -/
private theorem cutPath_of_space {buffer : Memory} {i remaining last : Nat}
    (above : i ≤ last) (inside : last < i + remaining)
    (none : ∀ k, i ≤ k → k < last → buffer k ≠ 32) (space : buffer last = 32) :
    cutPath buffer i remaining = (last, buffer.copy last 1 Memory.zero) := by
  obtain ⟨other, above', none', ends⟩ := cutPath_eq buffer i remaining
  obtain rfl : last = other := by
    rcases lt_trichotomy last other with before | same | after
    · exact absurd space (none' last above before)
    · exact same
    · rcases ends with ⟨_, found, _⟩ | ⟨rfl, _⟩
      · exact absurd found (none other above' after)
      · omega
  rcases ends with ⟨_, _, cut⟩ | ⟨rfl, _⟩
  · exact cut
  · omega

/-- Before the first space nothing is changed. -/
private theorem cutPath_before {buffer : Memory} {i remaining bound k : Nat}
    (none : ∀ k, i ≤ k → k < bound → buffer k ≠ 32) (inside : k < bound)
    (fits : bound ≤ i + remaining) :
    bound ≤ (cutPath buffer i remaining).1 ∧
      (cutPath buffer i remaining).2 k = buffer k := by
  obtain ⟨last, above, _, ends⟩ := cutPath_eq buffer i remaining
  rcases ends with ⟨_, space, cut⟩ | ⟨rfl, cut⟩
  · have later : bound ≤ last := by
      by_contra before
      exact none last above (not_le.mp before) space
    rw [cut]
    exact ⟨later, Memory.copy_outside _ _ (Or.inl (by omega))⟩
  · rw [cut]
    exact ⟨fits, rfl⟩

private theorem cutPath_zero {buffer : Memory} {k : Nat} (zero : buffer k = 0)
    (i remaining : Nat) : (cutPath buffer i remaining).2 k = 0 := by
  obtain ⟨last, _, _, ends⟩ := cutPath_eq buffer i remaining
  rcases ends with ⟨_, _, cut⟩ | ⟨_, cut⟩
  · rw [cut]
    simp only [Memory.copy]
    split
    · rfl
    · exact zero
  · rw [cut]
    exact zero

/-! ## The path -/

section Path

variable {request : List UInt8} (buffer : Memory)

def pathEnd (request : List UInt8) : Nat := 4 + (pathOf request).length

private theorem pathOf_append (request : List UInt8) :
    ∃ rest, (starred request).drop 4 = pathOf request ++ rest ∧
      ∀ c ∈ rest.head?, c = 0 ∨ c = 32 := by
  refine ⟨_, (List.takeWhile_append_dropWhile).symm, fun c isHead => ?_⟩
  have stops := List.head?_dropWhile_not
    (fun c : UInt8 => decide (c ≠ 0 ∧ c ≠ 32)) ((starred request).drop 4)
  rw [Option.mem_def.mp isHead] at stops
  simpa [or_iff_not_imp_left] using stops

private theorem pathEnd_le (long : 4 ≤ request.length) :
    pathEnd request ≤ request.length := by
  obtain ⟨rest, split, _⟩ := pathOf_append request
  have length := congrArg List.length split
  rw [List.length_drop, length_starred, List.length_append] at length
  unfold pathEnd
  omega

/-- The bytes of the path in the request. -/
private theorem getD_pathOf {k : Nat} (inside : k < (pathOf request).length) :
    (starred request).getD (4 + k) 0 = (pathOf request).getD k 0 := by
  obtain ⟨rest, split, _⟩ := pathOf_append request
  rw [← List.getD_append (pathOf request) rest 0 k inside, ← split]
  simp only [List.getD_eq_getElem?_getD, List.getElem?_drop]

private theorem getD_pathOf_ne {k : Nat}
    (inside : k < (pathOf request).length) :
    (pathOf request).getD k 0 ≠ 0 ∧ (pathOf request).getD k 0 ≠ 32 := by
  rw [List.getD_eq_getElem _ _ inside]
  exact pathOf_mem (List.getElem_mem inside)

/-- The bytes before the end of the path are those of the request, and among
them the path contains no space. -/
private theorem receive_path (isRequest : IsRequest request) {k : Nat}
    (inside : k < pathEnd request) :
    receive request buffer k = (starred request).getD k 0 ∧
      (4 ≤ k → receive request buffer k ≠ 32) := by
  have before := pathEnd_le isRequest.long
  have isByte := @receive_inside request buffer isRequest.1 k
    (show k < request.length by omega)
  refine ⟨isByte, fun low => ?_⟩
  obtain ⟨i, rfl⟩ := Nat.exists_eq_add_of_le low
  unfold pathEnd at inside
  rw [isByte, getD_pathOf (by omega)]
  exact (getD_pathOf_ne (by omega)).2

/-- Behind the path there is a terminator or a space. -/
private theorem receive_pathEnd (isRequest : IsRequest request) :
    receive request buffer (pathEnd request) = 0 ∨
      receive request buffer (pathEnd request) = 32 := by
  have long := isRequest.long
  obtain ⟨rest, split, ends⟩ := pathOf_append request
  have length := congrArg List.length split
  rw [List.length_drop, length_starred, List.length_append] at length
  cases rest with
  | nil =>
      have whole : pathEnd request = request.length := by
        unfold pathEnd
        simp only [List.length_nil] at length
        omega
      rw [whole]
      exact Or.inl (receive_end isRequest.1 (by omega))
  | cons c rest =>
      have inside : pathEnd request < request.length := by
        unfold pathEnd
        simp only [List.length_cons] at length
        omega
      have isHead : (starred request).getD (pathEnd request) 0 = c := by
        unfold pathEnd
        simp only [List.getD_eq_getElem?_getD]
        rw [← List.getElem?_drop, split, List.getElem?_append_right le_rfl]
        simp
      rw [receive_inside isRequest.1 inside, isHead]
      exact ends c rfl

/-- The buffer when the path has been cut. -/
def pathBuffer (request : List UInt8) (buffer : Memory) : Memory :=
  (cutPath (receive request buffer) 4 (bufsize - 4)).2

private theorem pathBuffer_inside (isRequest : IsRequest request) {k : Nat}
    (inside : k < pathEnd request) :
    pathBuffer request buffer k = (starred request).getD k 0 := by
  have before := pathEnd_le isRequest.long
  have small := isRequest.1
  rw [← (receive_path buffer isRequest inside).1]
  exact (cutPath_before
    (fun i low high => (receive_path buffer isRequest high).2 low) inside
    (by omega)).2

private theorem pathBuffer_end (isRequest : IsRequest request) :
    pathBuffer request buffer (pathEnd request) = 0 := by
  rcases receive_pathEnd buffer isRequest with zero | space
  · exact cutPath_zero zero _ _
  · have before := pathEnd_le isRequest.long
    have small := isRequest.1
    have size : bufsize = 8096 := rfl
    unfold pathBuffer
    have low : 4 ≤ pathEnd request := Nat.le_add_right ..
    rw [cutPath_of_space low (by omega)
      (fun i low high => (receive_path buffer isRequest high).2 low) space]
    exact Memory.copy_inside _ _ le_rfl (Nat.lt_succ_self _)

/-- The buffer holds the request up to the end of the path. -/
def IsLine (chars : List UInt8) (buffer : Memory) : Prop :=
  buffer.slice 0 chars.length = chars ∧ buffer chars.length = 0

namespace IsLine

variable {chars : List UInt8} {b : Memory}

private theorem getD (isLine : IsLine chars b) {i : Nat}
    (inside : i < chars.length) :
    b i = chars.getD i 0 := by
  have here := Memory.getD_slice b 0 inside
  rw [isLine.1, Nat.zero_add] at here
  exact here.symm

private theorem slice_succ (isLine : IsLine chars b) :
    b.slice 0 (chars.length + 1) = chars ++ [0] := by
  have split : b.slice 0 (chars.length + 1) =
      b.slice 0 chars.length ++ [b (0 + chars.length)] := by
    simp [Memory.slice, List.range_succ]
  rw [split, isLine.1, Nat.zero_add, isLine.2]

/-- The string in the buffer from an offset on. -/
private theorem stringAt (isLine : IsLine chars b)
    (nonzero : ∀ c ∈ chars, c ≠ 0)
    (small : chars.length < bufsize) {offset : Nat}
    (inside : offset ≤ chars.length) :
    (Nweb.stringAt b offset).chars = chars.drop offset := by
  let rest : CString :=
    ⟨chars.drop offset, fun c member => nonzero c (List.mem_of_mem_drop member)⟩
  have length : rest.length = chars.length - offset := List.length_drop
  have found : b.string? offset (bufsize + 1 - offset) = some rest := by
    rw [Memory.string?_eq_some_iff]
    refine ⟨by omega, fun i bound => ?_⟩
    rcases Nat.eq_or_lt_of_le bound with rfl | before
    · have ends : offset + rest.length = chars.length := by
        omega
      rw [rest.memory_length, ends]
      exact isLine.2
    · rw [isLine.getD (by omega)]
      simp [CString.memory, Memory.ofList, rest]
  rw [Nweb.stringAt, found, Option.getD_some]

end IsLine

/-- The method and the path, where `/` stands for the index file. -/
def lineOf (request : List UInt8) : List UInt8 :=
  if pathOf request = [47] then bytes "GET /index.html"
  else (starred request).take 4 ++ pathOf request

private theorem isLine_pathBuffer (isRequest : IsRequest request) :
    IsLine ((starred request).take 4 ++ pathOf request)
      (pathBuffer request buffer) := by
  have length : ((starred request).take 4 ++ pathOf request).length =
      pathEnd request := by
    have long := isRequest.long
    simp [pathEnd, long]
  refine ⟨Memory.slice_eq_of_getD fun i inside => ?_, ?_⟩
  · rw [length] at inside
    rw [Nat.zero_add, pathBuffer_inside buffer isRequest inside]
    obtain ⟨rest, split, _⟩ := pathOf_append request
    have whole : starred request =
        ((starred request).take 4 ++ pathOf request) ++ rest := by
      rw [List.append_assoc, ← split, List.take_append_drop]
    conv_lhs => rw [whole]
    exact List.getD_append _ _ _ _ (by rwa [length])
  · rw [length]
    exact pathBuffer_end buffer isRequest

private theorem method_ne_zero (isRequest : IsRequest request) {c : UInt8}
    (member : c ∈ (starred request).take 4) : c ≠ 0 := by
  rcases isRequest.2 with get | get
  · rw [get] at member
    exact ne_zero_of_all (by decide) c member
  · rw [get] at member
    exact ne_zero_of_all (by decide) c member

private theorem lineOf_ne_zero (isRequest : IsRequest request) {c : UInt8}
    (member : c ∈ lineOf request) : c ≠ 0 := by
  unfold lineOf at member
  split at member
  · exact ne_zero_of_all (by decide) c member
  · rcases List.mem_append.mp member with method | path
    · exact method_ne_zero isRequest method
    · exact (pathOf_mem path).1

/-- The index file is inserted exactly if the path is `/`. -/
private theorem isIndex_iff (isRequest : IsRequest request) :
    ((pathBuffer request buffer).slice 0 6 = bytes "GET /" ++ [0] ∨
      (pathBuffer request buffer).slice 0 6 = bytes "get /" ++ [0]) ↔
      pathOf request = [47] := by
  have isLine := isLine_pathBuffer buffer isRequest
  have long : ((starred request).take 4).length = 4 := by
    simpa using isRequest.long
  constructor
  · intro found
    have fourth : pathBuffer request buffer 4 = 47 := by
      have here := Memory.getD_slice (pathBuffer request buffer) 0
        (show 4 < 6 by decide)
      rcases found with same | same <;> rw [same] at here <;> exact here.symm
    have fifth : pathBuffer request buffer 5 = 0 := by
      have here := Memory.getD_slice (pathBuffer request buffer) 0
        (show 5 < 6 by decide)
      rcases found with same | same <;> rw [same] at here <;> exact here.symm
    cases isPath : pathOf request with
    | nil =>
        have ends := isLine.2
        rw [isPath, List.append_nil, long, fourth] at ends
        exact absurd ends (by decide)
    | cons c path =>
        have first := isLine.getD (show 4 < _ by simp [long, isPath])
        rw [List.getD_append_right _ _ _ _ long.le, long, isPath, fourth]
          at first
        cases path with
        | nil => rw [first]; rfl
        | cons d path =>
            have second := isLine.getD (show 5 < _ by
              simp only [List.length_append, long, isPath, List.length_cons]
              omega)
            rw [List.getD_append_right _ _ _ _ (by omega), long, isPath, fifth]
              at second
            have nonzero := (@pathOf_mem request d (by simp [isPath])).1
            exact absurd second.symm nonzero
  · intro index
    have whole := isLine.slice_succ
    rw [index, List.length_append, long] at whole
    rcases isRequest.2 with get | get
    · rw [get] at whole
      exact Or.inl whole
    · rw [get] at whole
      exact Or.inr whole

private theorem isLine_indexFile (isRequest : IsRequest request) :
    IsLine (lineOf request) (indexFile (pathBuffer request buffer)) := by
  have isIndex := isIndex_iff buffer isRequest
  unfold indexFile lineOf
  by_cases index : pathOf request = [47]
  · rw [if_pos (isIndex.mpr index), if_pos index]
    refine ⟨Memory.slice_eq_of_getD fun i inside => ?_, ?_⟩
    · have inside' : i < 15 := inside
      rw [Nat.zero_add, Memory.copy_inside _ _ (Nat.zero_le i) (by omega)]
      rfl
    · exact Memory.copy_inside _ _ (Nat.zero_le 15) (by decide)
  · rw [if_neg fun found => index (isIndex.mp found), if_neg index]
    exact isLine_pathBuffer buffer isRequest

private theorem length_lineOf_lt (isRequest : IsRequest request) :
    (lineOf request).length < bufsize := by
  have before := pathEnd_le isRequest.long
  have small := isRequest.1
  unfold lineOf
  split
  · decide
  · rw [List.length_append, List.length_take, length_starred,
      Nat.min_eq_left isRequest.long]
    unfold pathEnd at before
    omega

theorem drop_lineOf (isRequest : IsRequest request) :
    (lineOf request).drop 4 = (urlPath request).chars := by
  have long : ((starred request).take 4).length = 4 := by
    simpa using isRequest.long
  have index : (bytes "GET /index.html").drop 4 = bytes "/index.html" := by
    decide
  unfold lineOf urlPath
  split
  · exact index
  · exact List.drop_left' long

private theorem four_le_lineOf (isRequest : IsRequest request) :
    4 ≤ (lineOf request).length := by
  have long : ((starred request).take 4).length = 4 := by
    simpa using isRequest.long
  unfold lineOf
  split
  · decide
  · rw [List.length_append, long]
    exact Nat.le_add_right ..

def typeOf (request : List UInt8) : Option String :=
  (extensions.find? fun extension =>
    (lineOf request).drop ((lineOf request).length -
      (bytes extension.1).length) = bytes extension.1).map Prod.snd

/-- What the checks say, without the rest of the buffer. -/
def checked (request : List UInt8) (buffer : Memory) :
    Option (CString × String) :=
  (checks request buffer).map fun (buffer, fstr) =>
    (stringAt buffer 4, fstr)

/-- The search for `..` in the buffer. -/
def seesParent (request : List UInt8) (buffer : Memory) : Bool :=
  hasParent (pathBuffer request buffer)
    (cutPath (receive request buffer) 4 (bufsize - 4)).1

/-- Of what the checks compute only the search for `..` depends on what the
buffer held. -/
theorem checked_eq (isRequest : IsRequest request) :
    checked request buffer =
      if seesParent request buffer then none
      else (typeOf request).map fun fstr => (urlPath request, fstr) := by
  have nonempty : request ≠ [] := by
    rintro rfl
    exact absurd isRequest.long (by decide)
  have isGet : isGet (receive request buffer) = true :=
    (isGet_receive nonempty).mpr isRequest
  have isLine := isLine_indexFile buffer isRequest
  have nonzero (c : UInt8) (member : c ∈ lineOf request) : c ≠ 0 :=
    lineOf_ne_zero isRequest member
  have small := length_lineOf_lt isRequest
  have whole := isLine.stringAt nonzero small (Nat.zero_le _)
  have path : stringAt (indexFile (pathBuffer request buffer)) 4 =
      urlPath request := by
    refine CString.ext ?_
    rw [isLine.stringAt nonzero small (four_le_lineOf isRequest),
      drop_lineOf isRequest]
  unfold checked checks
  simp only [if_neg nonempty, isGet, Bool.true_eq_false, if_false]
  change Option.map _ (if seesParent request buffer then none
    else (fileType (indexFile (pathBuffer request buffer))).map _) = _
  split
  · rfl
  · unfold fileType typeOf
    rw [whole, List.drop_zero, Option.map_map, Option.map_map, Option.map_map]
    congr 1
    funext extension
    exact congrArg (fun key => (key, extension.2)) path

private theorem checked_of_not_isRequest (other : ¬ IsRequest request) :
    checked request buffer = none := by
  unfold checked checks
  by_cases empty : request = []
  · rw [if_pos empty]
    rfl
  · have isGet : isGet (receive request buffer) = false :=
      Bool.eq_false_iff.mpr fun get => other ((isGet_receive empty).mp get)
    simp only [if_neg empty, isGet, if_true]
    rfl

end Path

/-! ## The search for `..` -/

section Parent

variable {request : List UInt8} {buffer other : Memory}

private theorem hasParent_iff {b : Memory} {i : Nat} :
    hasParent b i = true ↔ ∃ j, j + 1 < i ∧ b j = 46 ∧ b (j + 1) = 46 := by
  unfold hasParent
  rw [List.any_eq_true]
  constructor
  · rintro ⟨j, member, found⟩
    have inside := List.mem_range.mp member
    simp only [Bool.and_eq_true, decide_eq_true_eq] at found
    exact ⟨j, by omega, found⟩
  · rintro ⟨j, inside, found⟩
    exact ⟨j, List.mem_range.mpr (by omega), by simpa using found⟩

/-- What the search finds, in terms of the request and the old contents: two
dots, before the first space behind the method. -/
theorem seesParent_iff :
    seesParent request buffer = true ↔
      ∃ j, j + 1 < bufsize ∧
        (∀ k, 4 ≤ k → k ≤ j + 1 → receive request buffer k ≠ 32) ∧
        receive request buffer j = 46 ∧ receive request buffer (j + 1) = 46 := by
  unfold seesParent pathBuffer
  rw [hasParent_iff]
  have size : bufsize = 8096 := rfl
  obtain ⟨last, above, none, ends⟩ :=
    cutPath_eq (receive request buffer) 4 (bufsize - 4)
  have cut : (cutPath (receive request buffer) 4 (bufsize - 4)).1 = last := by
    rcases ends with ⟨_, _, cut⟩ | ⟨_, cut⟩ <;> rw [cut]
  have same (k : Nat) (inside : k < last) :
      (cutPath (receive request buffer) 4 (bufsize - 4)).2 k =
        receive request buffer k := by
    rcases ends with ⟨_, _, cut⟩ | ⟨_, cut⟩ <;> rw [cut]
    exact Memory.copy_outside _ _ (Or.inl inside)
  have whole : last ≤ bufsize := by
    rcases ends with ⟨inside, _⟩ | ⟨rfl, _⟩ <;> omega
  rw [cut]
  constructor
  · rintro ⟨j, inside, first, second⟩
    rw [same j (by omega)] at first
    rw [same (j + 1) inside] at second
    exact ⟨j, by omega, fun k low high => none k low (by omega), first, second⟩
  · rintro ⟨j, small, clear, first, second⟩
    have inside : j + 1 < last := by
      rcases ends with ⟨_, space, _⟩ | ⟨rfl, _⟩
      · by_contra outside
        exact clear last above (by omega) space
      · omega
    refine ⟨j, inside, ?_, ?_⟩
    · rw [same j (by omega)]
      exact first
    · rw [same (j + 1) inside]
      exact second

/-- Nothing behind the two dots matters. -/
private theorem seesParent_of_same {j : Nat} (inside : j + 1 < bufsize)
    (clear : ∀ k, 4 ≤ k → k ≤ j + 1 → receive request buffer k ≠ 32)
    (first : receive request buffer j = 46)
    (second : receive request buffer (j + 1) = 46)
    (same : ∀ k ≤ j + 1,
      receive request other k = receive request buffer k) :
    seesParent request other = true := by
  refine seesParent_iff.mpr ⟨j, inside, fun k low high => ?_, ?_, ?_⟩
  · rw [same k high]
    exact clear k low high
  · rw [same j (by omega)]
    exact first
  · rw [same (j + 1) le_rfl]
    exact second

/-- If the path ends with a space, nothing behind it is searched. -/
private theorem seesParent_of_delimited (isRequest : IsRequest request)
    (delimited : Delimited request)
    (sees : seesParent request buffer = true) :
    seesParent request other = true := by
  have small := isRequest.1
  rw [seesParent_iff] at sees
  obtain ⟨j, inside, clear, first, second⟩ := sees
  obtain ⟨s, bound, isSpace⟩ := List.getElem_of_mem delimited
  rw [List.length_drop, length_starred] at bound
  have space : receive request buffer (4 + s) = 32 := by
    rw [receive_inside small (by omega), ← isSpace, List.getElem_drop]
    exact List.getD_eq_getElem _ _ _
  have before : j + 1 < 4 + s := by
    by_contra after
    exact clear (4 + s) (Nat.le_add_right 4 s) (not_lt.mp after) space
  refine seesParent_of_same inside clear first second fun k within => ?_
  rw [receive_inside small (by omega), receive_inside small (by omega)]

/-- The checks come out the same whatever the buffer held, if the path ends
with a space. -/
theorem checked_of_delimited (delimited : Delimited request) :
    checked request buffer = checked request other := by
  by_cases isRequest : IsRequest request
  · rw [checked_eq buffer isRequest, checked_eq other isRequest]
    have same : seesParent request buffer = seesParent request other :=
      Bool.eq_iff_iff.mpr
        ⟨seesParent_of_delimited isRequest delimited,
          seesParent_of_delimited isRequest delimited⟩
    rw [same]
  · rw [checked_of_not_isRequest buffer isRequest,
      checked_of_not_isRequest other isRequest]

/-- A request that passes the checks asks for its path. -/
theorem urlPath_of_checked {path : CString} {fstr : String}
    (passes : checked request buffer = some (path, fstr)) :
    path = urlPath request := by
  by_cases isRequest : IsRequest request
  · rw [checked_eq buffer isRequest] at passes
    split at passes
    · exact absurd passes (by simp)
    · obtain ⟨type, _, same⟩ := Option.map_eq_some_iff.mp passes
      exact (Prod.mk.inj same).1.symm
  · rw [checked_of_not_isRequest buffer isRequest] at passes
    exact absurd passes (by simp)

end Parent

end RdmaKv.Nweb
