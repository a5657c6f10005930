import RdmaKv.Ex4.WorkRequests
import Mathlib.Algebra.BigOperators.Group.Finset.Basic
import Mathlib.Algebra.BigOperators.Ring.Finset
import Mathlib.Data.List.Induction

/-!
# The arithmetic of `hash_key`

`unsigned long` has 32 bits on some platforms and 64 on others.  The server of
a key is the same on both, since it depends on the hash modulo `2 ^ 32` only.
-/

namespace RdmaKv

open ByteMemory

/-- `hash_key`, where `unsigned long` has so many bits. -/
def hashKeyIn (width : Nat) (key : CString) : BitVec width :=
  key.chars.foldl
    (fun hash c => (hash <<< 5) + hash + BitVec.ofNat width c.toNat)
    (BitVec.ofNat width 5381)

/-- The server that `FIND` selects: the hash is converted to `unsigned int`
before the remainder is taken. -/
def selectServerIn (width numOfServers : Nat) (key : CString) : Nat :=
  (BitVec.setWidth 32 (hashKeyIn width key)).toNat % numOfServers

/-- `case FIND` of `handle_server_packets_only` of `kv_indexer.c`, with the
reply in the same buffer. -/
def findIn (width : Nat) (buf : Memory) : Option (Memory × Nat) :=
  match Packet.read buf with
  | some (.find numOfServers key) =>
      if numOfServers = 0 then none
      else
        some ((Packet.location
          (selectServerIn width numOfServers key)).store buf, sizeofPacket)
  | _ => none

def hashSum (key : CString) : Nat :=
  5381 * 33 ^ key.length + ∑ i ∈ Finset.range key.length,
    (key.chars.getD i 0).toNat * 33 ^ (key.length - (i + 1))

/-! ## One character -/

private theorem toNat_hash_step {width : Nat} (hash : BitVec width)
    (c : UInt8) :
    ((hash <<< 5) + hash + BitVec.ofNat width c.toNat).toNat =
      (33 * hash.toNat + c.toNat) % 2 ^ width := by
  rw [BitVec.toNat_add, BitVec.toNat_add, BitVec.toNat_shiftLeft,
    BitVec.toNat_ofNat, Nat.shiftLeft_eq]
  simp only [Nat.add_mod_mod, Nat.mod_add_mod]
  congr 1
  ring

/-- What wraps around at `2 ^ width` does not change a number modulo
`2 ^ 32`. -/
private theorem hash_step_mod {width : Nat} (wide : 32 ≤ width)
    (hash : BitVec width)
    (c : UInt8) {value : Nat} (same : hash.toNat % 2 ^ 32 = value % 2 ^ 32) :
    ((hash <<< 5) + hash + BitVec.ofNat width c.toNat).toNat % 2 ^ 32 =
      (33 * value + c.toNat) % 2 ^ 32 := by
  rw [toNat_hash_step, Nat.mod_mod_of_dvd _ (Nat.pow_dvd_pow 2 wide)]
  exact Nat.ModEq.add_right _ (Nat.ModEq.mul_left _ same)

/-! ## All characters -/

private theorem sum_append (chars : List UInt8) (c : UInt8) :
    ∑ i ∈ Finset.range (chars.length + 1),
        ((chars ++ [c]).getD i 0).toNat * 33 ^ (chars.length + 1 - (i + 1)) =
      33 * (∑ i ∈ Finset.range chars.length,
        (chars.getD i 0).toNat * 33 ^ (chars.length - (i + 1))) + c.toNat := by
  have last : (chars ++ [c]).getD chars.length 0 = c := by simp
  rw [Finset.sum_range_succ, last, Nat.sub_self, pow_zero, Nat.mul_one,
    Finset.mul_sum]
  congr 1
  refine Finset.sum_congr rfl fun i member => ?_
  have inside : i < chars.length := Finset.mem_range.mp member
  have exponent : chars.length + 1 - (i + 1) =
      chars.length - (i + 1) + 1 := by omega
  have earlier : (chars ++ [c]).getD i 0 = chars.getD i 0 := by
    rw [List.getD_eq_getElem?_getD, List.getElem?_append_left inside,
      List.getD_eq_getElem?_getD]
  rw [earlier, exponent, pow_succ]
  ring

/-- The loop of `hash_key` computes the sum, modulo `2 ^ 32`. -/
private theorem hashKeyIn_mod {width : Nat} (wide : 32 ≤ width)
    (key : CString) :
    (hashKeyIn width key).toNat % 2 ^ 32 = hashSum key % 2 ^ 32 := by
  obtain ⟨chars, nonzero⟩ := key
  simp only [hashKeyIn, hashSum, CString.length]
  clear nonzero
  induction chars using List.reverseRecOn with
  | nil =>
      have start : 5381 < 2 ^ width :=
        Nat.lt_of_lt_of_le (by decide) (Nat.pow_le_pow_right Nat.two_pos wide)
      simp [Nat.mod_eq_of_lt start]
  | append_singleton chars c inductionHypothesis =>
      rw [List.foldl_append, List.foldl_cons, List.foldl_nil,
        hash_step_mod wide _ c inductionHypothesis, List.length_append,
        List.length_singleton, sum_append]
      congr 1
      rw [pow_succ]
      ring

private theorem selectServerIn_eq {width : Nat} (wide : 32 ≤ width)
    (numOfServers : Nat) (key : CString) :
    selectServerIn width numOfServers key =
      hashSum key % 2 ^ 32 % numOfServers := by
  rw [selectServerIn, BitVec.toNat_setWidth, hashKeyIn_mod wide]

/-- On a platform with 64 bits this is the server that was selected before. -/
private theorem selectServer_eq_selectServerIn (numOfServers : Nat)
    (key : CString) :
    selectServer numOfServers key = selectServerIn 64 numOfServers key := by
  have same : (hashKey key).toNat = (hashKeyIn 64 key).toNat := by
    obtain ⟨chars, nonzero⟩ := key
    simp only [hashKey, hashKeyIn]
    clear nonzero
    induction chars using List.reverseRecOn with
    | nil => rfl
    | append_singleton chars c inductionHypothesis =>
        rw [List.foldl_append, List.foldl_cons, List.foldl_nil,
          List.foldl_append, List.foldl_cons, List.foldl_nil, toNat_hash_step,
          ← inductionHypothesis, UInt64.toNat_add, UInt64.toNat_add,
          UInt64.toNat_shiftLeft]
        simp only [Nat.mod_add_mod, UInt8.toNat_toUInt64]
        congr 1
        rw [show (5 : UInt64).toNat % 64 = 5 from rfl, Nat.shiftLeft_eq]
        ring
  rw [selectServer, selectServerIn, BitVec.toNat_setWidth, ← same]
  rfl

/-! ## `LOCATION` -/

/-- The index server that was modelled before, on such a platform. -/
theorem indexerHandleBuf_eq_findIn (closed : Bool) {buf : Memory}
    {numOfServers : Nat} {key : CString}
    (isFind : Packet.read buf = some (.find numOfServers key)) :
    indexerHandleBuf closed buf = (findIn 64 buf).map
      fun (reply, size) => (closed, reply, some size) := by
  simp only [indexerHandleBuf, findIn, isFind, selectServer_eq_selectServerIn]
  split <;> rfl

/-- `FIND` is answered with the same server whether `unsigned long` has 32 or
64 bits. -/
theorem find_selects {width numOfServers : Nat} {key : CString}
    (isLong : width = 32 ∨ width = 64) (positive : 1 ≤ numOfServers)
    (bound : numOfServers < unsignedRange) :
    selectServerIn width numOfServers key =
        hashSum key % 2 ^ 32 % numOfServers ∧
      ∀ buf, Packet.read buf = some (.find numOfServers key) →
        ∃ reply, findIn width buf = some (reply, sizeofPacket) ∧
          Packet.read reply = some (.location
            (hashSum key % 2 ^ 32 % numOfServers)) := by
  have wide : 32 ≤ width := by omega
  have selected := selectServerIn_eq wide numOfServers key
  refine ⟨selected, fun buf isFind => ?_⟩
  have range : (Packet.location
      (hashSum key % 2 ^ 32 % numOfServers)).InRange :=
    ⟨show 12 ≤ eagerProtocolLimit by decide,
      Nat.lt_trans (Nat.mod_lt _ positive) bound⟩
  refine ⟨_, ?_, Packet.read_of_at (Packet.at_store range buf)
    range.extent⟩
  simp only [findIn, isFind, selected]
  rw [if_neg (by omega)]

theorem find_selects_three :
    (32 = 32 ∨ 32 = 64) ∧ 1 ≤ 3 ∧ 3 < unsignedRange ∧
      selectServerIn 32 3 Sample.firstKey = 1 := by
  have selected := (@find_selects 32 3 Sample.firstKey (Or.inl rfl)
    (by decide) (by decide)).1
  exact ⟨Or.inl rfl, by decide, by decide, selected.trans (by decide)⟩

end RdmaKv
