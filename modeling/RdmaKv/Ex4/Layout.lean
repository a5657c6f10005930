import RdmaKv.Ex4.Packet

/-!
# Writing and reading a `struct packet` in place

The assignments that put a packet into a `ctx->buf`, and the reads that take
it out.  What is written at the offsets of `struct packet` is read back.
-/

namespace RdmaKv

open ByteMemory

namespace Packet

/-- The fields of a packet, assigned into a `ctx->buf`. -/
def store : Packet → Memory → Memory
  | eagerGetRequest key, buf =>
      (buf.storeLE 0 4 PacketType.eagerGetRequest.code).copy 8
        (key.length + 1) key.memory
  | eagerGetResponse value, buf =>
      ((buf.storeLE 0 4 PacketType.eagerGetResponse.code).storeLE 8 4
        value.length).copy 12 value.length (Memory.ofList value)
  | eagerSetRequest key value, buf =>
      (((buf.storeLE 0 4 PacketType.eagerSetRequest.code).storeLE 8 4
        value.length).copy 12 (key.length + 1) key.memory).copy
        (12 + (key.length + 1)) value.length (Memory.ofList value)
  | rendezvousGetRequest key, buf =>
      (buf.storeLE 0 4 PacketType.rendezvousGetRequest.code).copy 8
        (key.length + 1) key.memory
  | rendezvousGetResponse valueLength server, buf =>
      (((buf.storeLE 0 4 PacketType.rendezvousGetResponse.code).storeLE 8 4
        valueLength).storeLE 16 8 server.addr.toNat).storeLE 24 4
        server.rkey.toNat
  | rendezvousSetRequest valueLength key, buf =>
      ((buf.storeLE 0 4 PacketType.rendezvousSetRequest.code).storeLE 8 4
        valueLength).copy 12 (key.length + 1) key.memory
  | rendezvousSetResponse server, buf =>
      ((buf.storeLE 0 4 PacketType.rendezvousSetResponse.code).storeLE 8 8
        server.addr.toNat).storeLE 16 4 server.rkey.toNat
  | closeConnection toClose, buf =>
      (buf.storeLE 0 4 PacketType.closeConnection.code).storeLE 8 4 toClose
  | find numOfServers key, buf =>
      ((buf.storeLE 0 4 PacketType.find.code).storeLE 8 4
        numOfServers).copy 12 (key.length + 1) key.memory
  | location selectedServer, buf =>
      (buf.storeLE 0 4 PacketType.location.code).storeLE 8 4 selectedServer

def number : Packet → Nat
  | eagerGetRequest _ => 0
  | eagerGetResponse value => value.length
  | eagerSetRequest _ value => value.length
  | rendezvousGetRequest _ => 0
  | rendezvousGetResponse valueLength _ => valueLength
  | rendezvousSetRequest valueLength _ => valueLength
  | rendezvousSetResponse _ => 0
  | closeConnection toClose => toClose
  | find numOfServers _ => numOfServers
  | location selectedServer => selectedServer

/-- The packet lies inside a `ctx->buf` and its number in an `unsigned`. -/
structure InRange (packet : Packet) : Prop where
  extent : packet.extent ≤ eagerProtocolLimit
  number : packet.number < unsignedRange

theorem loadLE_type (memory : Memory) (type : PacketType) :
    (memory.storeLE 0 4 type.code).loadLE 0 4 = type.code := by
  rw [Memory.loadLE_storeLE]
  exact Nat.mod_eq_of_lt (Nat.lt_trans type.code_lt (by decide))

private theorem loadLE_unsigned (memory : Memory) (offset : Nat) {value : Nat}
    (bound : value < unsignedRange) :
    (memory.storeLE offset 4 value).loadLE offset 4 = value := by
  rw [Memory.loadLE_storeLE]
  exact Nat.mod_eq_of_lt bound

private theorem loadLE_addr (memory : Memory) (offset : Nat) (addr : UInt64) :
    (memory.storeLE offset 8 addr.toNat).loadLE offset 8 = addr.toNat := by
  rw [Memory.loadLE_storeLE]
  exact Nat.mod_eq_of_lt addr.toNat_lt

private theorem loadLE_rkey (memory : Memory) (offset : Nat) (rkey : UInt32) :
    (memory.storeLE offset 4 rkey.toNat).loadLE offset 4 = rkey.toNat := by
  rw [Memory.loadLE_storeLE]
  exact Nat.mod_eq_of_lt rkey.toNat_lt

private theorem bufferString_copy (memory : Memory) {offset : Nat}
    {key : CString}
    (fits : offset + (key.length + 1) ≤ eagerProtocolLimit) :
    bufferString (memory.copy offset (key.length + 1) key.memory) offset =
      some key :=
  Memory.string?_copy memory key (by omega)

/-- A packet that was assigned is there. -/
theorem at_store {packet : Packet} (inRange : packet.InRange) (buf : Memory) :
    packet.At (packet.store buf) := by
  obtain ⟨fits, bound⟩ := inRange
  cases packet with
  | eagerGetRequest key =>
      refine ⟨?_, bufferString_copy _ fits⟩
      simp only [store, type]
      rw [Memory.loadLE_copy_outside _ _ (by omega), loadLE_type]
  | eagerGetResponse value =>
      simp only [Packet.extent, eagerProtocolLimit] at fits
      refine ⟨?_, ?_, ?_⟩
      · simp only [store, type]
        rw [Memory.loadLE_copy_outside _ _ (by omega),
          Memory.loadLE_storeLE_outside _ _ (by omega), loadLE_type]
      · simp only [store]
        rw [Memory.loadLE_copy_outside _ _ (by omega)]
        exact loadLE_unsigned _ _ bound
      · simp only [store]
        rw [Memory.slice_copy, Memory.slice_ofList]
  | eagerSetRequest key value =>
      refine ⟨?_, ?_, ?_, fits, ?_⟩
      · simp only [store, type]
        rw [Memory.loadLE_copy_outside _ _ (by omega),
          Memory.loadLE_copy_outside _ _ (by omega),
          Memory.loadLE_storeLE_outside _ _ (by omega), loadLE_type]
      · simp only [store]
        rw [Memory.loadLE_copy_outside _ _ (by omega),
          Memory.loadLE_copy_outside _ _ (by omega)]
        exact loadLE_unsigned _ _ bound
      · simp only [store]
        refine Memory.string?_copy_outside _ _ (bufferString_copy _ ?_)
          (by omega)
        simp only [Packet.extent] at fits
        omega
      · simp only [store]
        rw [Memory.slice_copy, Memory.slice_ofList]
  | rendezvousGetRequest key =>
      refine ⟨?_, bufferString_copy _ fits⟩
      simp only [store, type]
      rw [Memory.loadLE_copy_outside _ _ (by omega), loadLE_type]
  | rendezvousGetResponse valueLength server =>
      refine ⟨?_, ?_, ?_, ?_⟩
      · simp only [store, type]
        rw [Memory.loadLE_storeLE_outside _ _ (by omega),
          Memory.loadLE_storeLE_outside _ _ (by omega),
          Memory.loadLE_storeLE_outside _ _ (by omega), loadLE_type]
      · simp only [store]
        rw [Memory.loadLE_storeLE_outside _ _ (by omega),
          Memory.loadLE_storeLE_outside _ _ (by omega)]
        exact loadLE_unsigned _ _ bound
      · simp only [store]
        rw [Memory.loadLE_storeLE_outside _ _ (by omega), loadLE_addr]
      · simp only [store]
        rw [loadLE_rkey]
  | rendezvousSetRequest valueLength key =>
      refine ⟨?_, ?_, bufferString_copy _ fits⟩
      · simp only [store, type]
        rw [Memory.loadLE_copy_outside _ _ (by omega),
          Memory.loadLE_storeLE_outside _ _ (by omega), loadLE_type]
      · simp only [store]
        rw [Memory.loadLE_copy_outside _ _ (by omega)]
        exact loadLE_unsigned _ _ bound
  | rendezvousSetResponse server =>
      refine ⟨?_, ?_, ?_⟩
      · simp only [store, type]
        rw [Memory.loadLE_storeLE_outside _ _ (by omega),
          Memory.loadLE_storeLE_outside _ _ (by omega), loadLE_type]
      · simp only [store]
        rw [Memory.loadLE_storeLE_outside _ _ (by omega), loadLE_addr]
      · simp only [store]
        rw [loadLE_rkey]
  | closeConnection toClose =>
      refine ⟨?_, loadLE_unsigned _ _ bound⟩
      simp only [store, type]
      rw [Memory.loadLE_storeLE_outside _ _ (by omega), loadLE_type]
  | find numOfServers key =>
      refine ⟨?_, ?_, bufferString_copy _ fits⟩
      · simp only [store, type]
        rw [Memory.loadLE_copy_outside _ _ (by omega),
          Memory.loadLE_storeLE_outside _ _ (by omega), loadLE_type]
      · simp only [store]
        rw [Memory.loadLE_copy_outside _ _ (by omega)]
        exact loadLE_unsigned _ _ bound
  | location selectedServer =>
      refine ⟨?_, loadLE_unsigned _ _ bound⟩
      simp only [store, type]
      rw [Memory.loadLE_storeLE_outside _ _ (by omega), loadLE_type]

/-- The packet in a `ctx->buf`, if its fields lie inside the buffer. -/
def read (buf : Memory) : Option Packet :=
  match buf.loadLE 0 4 with
  | 0 => (bufferString buf 8).map eagerGetRequest
  | 1 =>
      let valueLength := buf.loadLE 8 4
      if 12 + valueLength ≤ eagerProtocolLimit then
        some (eagerGetResponse (buf.slice 12 valueLength))
      else none
  | 2 =>
      let valueLength := buf.loadLE 8 4
      (bufferString buf 12).bind fun key =>
        let start := 12 + (key.length + 1)
        if start + valueLength ≤ eagerProtocolLimit then
          some (eagerSetRequest key (buf.slice start valueLength))
        else none
  | 3 => (bufferString buf 8).map rendezvousGetRequest
  | 4 =>
      some (rendezvousGetResponse (buf.loadLE 8 4)
        ⟨UInt64.ofNat (buf.loadLE 16 8), UInt32.ofNat (buf.loadLE 24 4)⟩)
  | 5 =>
      (bufferString buf 12).map (rendezvousSetRequest (buf.loadLE 8 4))
  | 6 =>
      some (rendezvousSetResponse
        ⟨UInt64.ofNat (buf.loadLE 8 8), UInt32.ofNat (buf.loadLE 16 4)⟩)
  | 7 => some (closeConnection (buf.loadLE 8 4))
  | 8 => (bufferString buf 12).map (find (buf.loadLE 8 4))
  | 9 => some (location (buf.loadLE 8 4))
  | _ => none

/-- A packet that is there, and ends inside the buffer, is read. -/
theorem read_of_at {packet : Packet} {buf : Memory} (present : packet.At buf)
    (fits : packet.extent ≤ eagerProtocolLimit) : read buf = some packet := by
  obtain ⟨typeCode, fields⟩ := present
  unfold read
  rw [typeCode]
  cases packet with
  | eagerGetRequest key =>
      have keyField : bufferString buf 8 = some key := fields
      simp [type, PacketType.code, keyField]
  | eagerGetResponse value =>
      obtain ⟨lengthField, valueField⟩ := fields
      simp only [extent] at fits
      simp [type, PacketType.code, lengthField, valueField, fits]
  | eagerSetRequest key value =>
      obtain ⟨lengthField, keyField, inside, valueField⟩ := fields
      simp [type, PacketType.code, lengthField, keyField, valueField, inside]
  | rendezvousGetRequest key =>
      have keyField : bufferString buf 8 = some key := fields
      simp [type, PacketType.code, keyField]
  | rendezvousGetResponse valueLength server =>
      obtain ⟨lengthField, addrField, rkeyField⟩ := fields
      simp [type, PacketType.code, lengthField, addrField, rkeyField]
  | rendezvousSetRequest valueLength key =>
      obtain ⟨lengthField, keyField⟩ := fields
      simp [type, PacketType.code, lengthField, keyField]
  | rendezvousSetResponse server =>
      obtain ⟨addrField, rkeyField⟩ := fields
      simp [type, PacketType.code, addrField, rkeyField]
  | closeConnection toClose =>
      have field : buf.loadLE 8 4 = toClose := fields
      simp [type, PacketType.code, field]
  | find numOfServers key =>
      obtain ⟨numberField, keyField⟩ := fields
      simp [type, PacketType.code, numberField, keyField]
  | location selectedServer =>
      have field : buf.loadLE 8 4 = selectedServer := fields
      simp [type, PacketType.code, field]

/-- A buffer holds at most one packet. -/
theorem At.unique {first second : Packet} {buf : Memory}
    (left : first.At buf) (right : second.At buf)
    (leftFits : first.extent ≤ eagerProtocolLimit)
    (rightFits : second.extent ≤ eagerProtocolLimit) : first = second :=
  Option.some.inj
    ((read_of_at left leftFits).symm.trans (read_of_at right rightFits))

end Packet

end RdmaKv
