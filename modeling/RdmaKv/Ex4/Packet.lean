import RdmaKv.Library.ByteMemory

/-!
# `struct packet` of `kv_shared.h`

The messages of the key-value protocol, as the union members name their
fields, and where each field lies in a `ctx->buf`: the packet type in the
first four bytes, the union at offset 8, little-endian integers, the keys and
values in place after the fixed fields.
-/

namespace RdmaKv

open ByteMemory

def eagerProtocolLimit : Nat := 4096

/-- `MAX_TEST_SIZE`, the size of every `rndv_buffer`. -/
def maxTestSize : Nat := 10 * eagerProtocolLimit

def minPoolNodes : Nat := 10

def sizeofPacket : Nat := 32

theorem sizeofPacket_le : sizeofPacket ≤ eagerProtocolLimit := by decide

def sizeofPointer : Nat := 8

def unsignedRange : Nat := 2 ^ 32

inductive PacketType where
  | eagerGetRequest
  | eagerGetResponse
  | eagerSetRequest
  | rendezvousGetRequest
  | rendezvousGetResponse
  | rendezvousSetRequest
  | rendezvousSetResponse
  | closeConnection
  | find
  | location
  deriving DecidableEq, Repr

namespace PacketType

def code : PacketType → Nat
  | eagerGetRequest => 0
  | eagerGetResponse => 1
  | eagerSetRequest => 2
  | rendezvousGetRequest => 3
  | rendezvousGetResponse => 4
  | rendezvousSetRequest => 5
  | rendezvousSetResponse => 6
  | closeConnection => 7
  | find => 8
  | location => 9

theorem code_lt (type : PacketType) : type.code < 10 := by
  cases type <;> decide

end PacketType

/-- A registered memory region, as the peer names it. -/
structure IbvMr where
  addr : UInt64
  rkey : UInt32
  deriving DecidableEq, Repr

/-- `struct packet`.  The `value_length` of an eager packet is the length of
the value that it carries. -/
inductive Packet where
  | eagerGetRequest (key : CString)
  | eagerGetResponse (value : List UInt8)
  | eagerSetRequest (key : CString) (value : List UInt8)
  | rendezvousGetRequest (key : CString)
  | rendezvousGetResponse (valueLength : Nat) (server : IbvMr)
  | rendezvousSetRequest (valueLength : Nat) (key : CString)
  | rendezvousSetResponse (server : IbvMr)
  | closeConnection (toClose : Nat)
  | find (numOfServers : Nat) (key : CString)
  | location (selectedServer : Nat)
  deriving DecidableEq

/-- The string at an offset of a `ctx->buf`, if it ends inside the buffer. -/
def bufferString (buf : Memory) (offset : Nat) : Option CString :=
  buf.string? offset (eagerProtocolLimit - offset)

namespace Packet

def type : Packet → PacketType
  | eagerGetRequest _ => .eagerGetRequest
  | eagerGetResponse _ => .eagerGetResponse
  | eagerSetRequest _ _ => .eagerSetRequest
  | rendezvousGetRequest _ => .rendezvousGetRequest
  | rendezvousGetResponse _ _ => .rendezvousGetResponse
  | rendezvousSetRequest _ _ => .rendezvousSetRequest
  | rendezvousSetResponse _ => .rendezvousSetResponse
  | closeConnection _ => .closeConnection
  | find _ _ => .find
  | location _ => .location

/-- The buffer holds the fields of the packet's union member. -/
def FieldsAt : Packet → Memory → Prop
  | eagerGetRequest key, buf => bufferString buf 8 = some key
  | eagerGetResponse value, buf =>
      buf.loadLE 8 4 = value.length ∧ buf.slice 12 value.length = value
  | eagerSetRequest key value, buf =>
      buf.loadLE 8 4 = value.length ∧ bufferString buf 12 = some key ∧
        12 + (key.length + 1) + value.length ≤ eagerProtocolLimit ∧
        buf.slice (12 + (key.length + 1)) value.length = value
  | rendezvousGetRequest key, buf => bufferString buf 8 = some key
  | rendezvousGetResponse valueLength server, buf =>
      buf.loadLE 8 4 = valueLength ∧ buf.loadLE 16 8 = server.addr.toNat ∧
        buf.loadLE 24 4 = server.rkey.toNat
  | rendezvousSetRequest valueLength key, buf =>
      buf.loadLE 8 4 = valueLength ∧ bufferString buf 12 = some key
  | rendezvousSetResponse server, buf =>
      buf.loadLE 8 8 = server.addr.toNat ∧
        buf.loadLE 16 4 = server.rkey.toNat
  | closeConnection toClose, buf => buf.loadLE 8 4 = toClose
  | find numOfServers key, buf =>
      buf.loadLE 8 4 = numOfServers ∧ bufferString buf 12 = some key
  | location selectedServer, buf => buf.loadLE 8 4 = selectedServer

instance decidableFieldsAt :
    (packet : Packet) → (buf : Memory) → Decidable (packet.FieldsAt buf)
  | eagerGetRequest _, _ => inferInstanceAs (Decidable (_ = _))
  | eagerGetResponse _, _ => inferInstanceAs (Decidable (_ ∧ _))
  | eagerSetRequest _ _, _ => inferInstanceAs (Decidable (_ ∧ _))
  | rendezvousGetRequest _, _ => inferInstanceAs (Decidable (_ = _))
  | rendezvousGetResponse _ _, _ => inferInstanceAs (Decidable (_ ∧ _))
  | rendezvousSetRequest _ _, _ => inferInstanceAs (Decidable (_ ∧ _))
  | rendezvousSetResponse _, _ => inferInstanceAs (Decidable (_ ∧ _))
  | closeConnection _, _ => inferInstanceAs (Decidable (_ = _))
  | find _ _, _ => inferInstanceAs (Decidable (_ ∧ _))
  | location _, _ => inferInstanceAs (Decidable (_ = _))

/-- The buffer holds the packet. -/
def At (packet : Packet) (buf : Memory) : Prop :=
  buf.loadLE 0 4 = packet.type.code ∧ packet.FieldsAt buf

instance (packet : Packet) (buf : Memory) : Decidable (packet.At buf) :=
  inferInstanceAs (Decidable (_ ∧ _))

def extent : Packet → Nat
  | eagerGetRequest key => 8 + (key.length + 1)
  | eagerGetResponse value => 12 + value.length
  | eagerSetRequest key value => 12 + (key.length + 1) + value.length
  | rendezvousGetRequest key => 8 + (key.length + 1)
  | rendezvousGetResponse _ _ => 28
  | rendezvousSetRequest _ key => 12 + (key.length + 1)
  | rendezvousSetResponse _ => 20
  | closeConnection _ => 12
  | find _ key => 12 + (key.length + 1)
  | location _ => 12

end Packet

private theorem bufferString_congr
    {first second : Memory} {offset : Nat} {key : CString}
    (found : bufferString first offset = some key)
    (agree :
      ∀ i, offset ≤ i → i < offset + (key.length + 1) →
        second i = first i) :
    bufferString second offset = some key :=
  Memory.string?_congr found fun i lower upper =>
    agree i lower (by omega)

namespace Packet

/-- A packet only depends on the bytes it covers. -/
theorem At.congr {packet : Packet} {first second : Memory}
    (present : packet.At first)
    (agree : ∀ i < packet.extent, second i = first i) :
    packet.At second := by
  obtain ⟨typeCode, fields⟩ := present
  have load :
      ∀ offset width, offset + width ≤ packet.extent →
        second.loadLE offset width = first.loadLE offset width :=
    fun offset width bound =>
      Memory.loadLE_congr fun i _ upper => agree i (by omega)
  refine ⟨?_, ?_⟩
  · rw [load 0 4 (by cases packet <;> simp only [extent] <;> omega)]
    exact typeCode
  · cases packet with
    | eagerGetRequest key =>
        exact bufferString_congr fields fun i _ upper => agree i upper
    | eagerGetResponse value =>
        refine ⟨(load 8 4 (by simp only [extent]; omega)).trans fields.1, ?_⟩
        exact (Memory.slice_congr fun i _ upper => agree i upper).trans
          fields.2
    | eagerSetRequest key value =>
        obtain ⟨lengthField, keyField, fits, valueField⟩ := fields
        refine ⟨(load 8 4 (by simp only [extent]; omega)).trans lengthField,
          bufferString_congr keyField fun i _ upper =>
            agree i (by simp only [extent]; omega), fits, ?_⟩
        exact (Memory.slice_congr fun i _ upper => agree i upper).trans
          valueField
    | rendezvousGetRequest key =>
        exact bufferString_congr fields fun i _ upper => agree i upper
    | rendezvousGetResponse valueLength server =>
        have end28 : (rendezvousGetResponse valueLength server).extent = 28 :=
          rfl
        exact ⟨(load 8 4 (by omega)).trans fields.1,
          (load 16 8 (by omega)).trans fields.2.1,
          (load 24 4 (by omega)).trans fields.2.2⟩
    | rendezvousSetRequest valueLength key =>
        exact ⟨(load 8 4 (by simp only [extent]; omega)).trans fields.1,
          bufferString_congr fields.2 fun i _ upper => agree i upper⟩
    | rendezvousSetResponse server =>
        have end20 : (rendezvousSetResponse server).extent = 20 := rfl
        exact ⟨(load 8 8 (by omega)).trans fields.1,
          (load 16 4 (by omega)).trans fields.2⟩
    | closeConnection toClose =>
        exact (load 8 4 (show 8 + 4 ≤ 12 by decide)).trans fields
    | find numOfServers key =>
        exact ⟨(load 8 4 (by simp only [extent]; omega)).trans fields.1,
          bufferString_congr fields.2 fun i _ upper => agree i upper⟩
    | location selectedServer =>
        exact (load 8 4 (show 8 + 4 ≤ 12 by decide)).trans fields

end Packet

/-! ## Messages -/

/-- What a posted send transmits: the first `size` bytes at a pointer. -/
structure Message where
  bytes : Memory
  size : Nat

namespace Message

/-- The receiver's buffer once the message has arrived in it. -/
def deliver (message : Message) (buf : Memory) : Memory :=
  buf.copy 0 message.size message.bytes

/-- The message transmits every field of the packet. -/
def Carries (message : Message) (packet : Packet) : Prop :=
  packet.At message.bytes ∧ packet.extent ≤ message.size

instance (message : Message) (packet : Packet) :
    Decidable (message.Carries packet) :=
  inferInstanceAs (Decidable (_ ∧ _))

theorem deliver_inside (message : Message) (buf : Memory) {i : Nat}
    (inside : i < message.size) :
    message.deliver buf i = message.bytes i := by
  rw [deliver, Memory.copy_inside buf _ (Nat.zero_le i) (by omega),
    Nat.sub_zero]

theorem deliver_outside (message : Message) (buf : Memory) {i : Nat}
    (outside : message.size ≤ i) :
    message.deliver buf i = buf i :=
  Memory.copy_outside buf _ (Or.inr (by omega))

/-- Whatever the receiver's buffer held before, it now holds the packet. -/
theorem Carries.at_deliver {message : Message} {packet : Packet}
    (carries : message.Carries packet) (buf : Memory) :
    packet.At (message.deliver buf) :=
  carries.1.congr fun _ bound =>
    message.deliver_inside buf (Nat.lt_of_lt_of_le bound carries.2)

end Message

end RdmaKv
