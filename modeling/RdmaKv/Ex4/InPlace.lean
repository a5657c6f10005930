import RdmaKv.Ex4.WorkRequests
import RdmaKv.Library.Aliasing

/-!
# Replies in place

`handle_server_packets_only` of `kv_server.c` and `kv_indexer.c`, with every
read of the request and every write of the reply in the order of the source.
`ctx->buf` holds the request, and the reply is built over it.
-/

namespace RdmaKv

open ByteMemory Aliasing

/-! ## The steps of both handlers -/

namespace Handling

/-- `strlen`, or `strcpy`, of a string in the request. -/
def string (offset : Nat) : Access CString :=
  Access.string offset (eagerProtocolLimit - offset)

/-- `strcmp(current_node->key, key) == 0` for a key in the request. -/
def strcmp (key : CString) (offset : Nat) : Access Bool := do
  let bytes ← Access.get offset (key.length + 1)
  return bytes == key.chars ++ [0]

def memcpy (offset count : Nat) : Access (List UInt8) :=
  if offset + count ≤ eagerProtocolLimit then Access.get offset count
  else .crash

/-- The loop over the entries, which stops at the first one with the key. -/
def search {ε : Type} (keyOf : ε → CString) (offset : Nat) :
    List ε → Access (Option ε)
  | [] => return none
  | entry :: rest => do
      if ← strcmp (keyOf entry) offset then return some entry
      else search keyOf offset rest

def setType (type : PacketType) : Access Unit := Access.store 0 4 type.code

def replyValue (valLen : Nat) (copied : List UInt8) : Access Nat := do
  setType .eagerGetResponse
  Access.store 8 4 valLen
  if valLen ≤ copied.length ∧ 12 + copied.length ≤ eagerProtocolLimit then
    Access.put 12 copied
    return sizeofPacket + valLen
  else .crash

def replyBuffer (valLen : Nat) (server : IbvMr) : Access Nat := do
  setType .rendezvousGetResponse
  Access.store 8 4 valLen
  Access.store 16 8 server.addr.toNat
  Access.store 24 4 server.rkey.toNat
  return sizeofPacket

def replyMissing : Access Nat := do
  setType .eagerGetResponse
  Access.put 12 [0]
  Access.store 8 4 1
  return sizeofPointer + 1

/-- The reply with the buffer that the client may write. -/
def replySet (server : IbvMr) : Access Nat := do
  setType .rendezvousSetResponse
  Access.store 8 8 server.addr.toNat
  Access.store 16 4 server.rkey.toNat
  return sizeofPacket

/-- A step that does not touch the buffers. -/
def lift {α : Type} : Option α → Access α
  | some value => return value
  | none => .crash

def rndvMr (nodes : Nat → MemoryInfo) (node : Option Nat) : Access IbvMr :=
  lift (node.bind fun node => (nodes node).rndvMr)

end Handling

open Handling

/-! ## `kv_server.c` -/

namespace Server

def eagerGetCase (s : Server) : Access (Server × Nat) := do
  match ← search KvEntry.key 8 s.entries with
  | some entry =>
      match entry.value with
      | some value => do
          let size ← replyValue entry.valLen (value.take entry.valLen)
          return (s, size)
      | none => do
          let server ← rndvMr s.nodes entry.largeValMemInfo
          let size ← replyBuffer entry.valLen server
          return (s, size)
  | none => do
      let size ← replyMissing
      return (s, size)

def eagerSetCase (s : Server) : Access (Server × Nat) := do
  let key ← string 12
  let valueLength ← Access.load 8 4
  match ← search KvEntry.key 12 s.entries with
  | some entry =>
      match entry.value with
      | none => do
          let s ← lift (s.taint entry.largeValMemInfo)
          let bytes ← memcpy (12 + (key.length + 1)) valueLength
          return (s.putEntry entry.key { entry with
            largeValMemInfo := none
            valLen := valueLength
            value := some bytes }, 0)
      | some old => do
          let bytes ← memcpy (12 + (key.length + 1)) valueLength
          if entry.valLen ≠ valueLength then
            return (s.putEntry entry.key { entry with
              valLen := valueLength
              value := some bytes }, 0)
          else if valueLength ≤ old.length then
            return (s.putEntry entry.key { entry with
              value := some (bytes ++ old.drop valueLength) }, 0)
          else .crash
  | none => do
      let copied ← string 12
      let bytes ← memcpy (12 + (key.length + 1)) valueLength
      return (s.appendEntry {
        key := copied
        keyLen := key.length
        valLen := valueLength
        largeValMemInfo := none
        value := some bytes }, 0)

/-- The buffer of an entry that was found, from the pool if it has none. -/
def bufferOf (s : Server) (entry : KvEntry) (valueLength : Nat) :
    Option (Nat × Server) :=
  match entry.largeValMemInfo with
  | none => do
      let (node, s) ← s.takeBuffer
      return (node, s.putEntry entry.key { entry with
        valLen := valueLength
        largeValMemInfo := some node
        value := none })
  | some node =>
      some (node, s.putEntry entry.key { entry with valLen := valueLength })

def rendezvousSetCase (s : Server) : Access (Server × Nat) := do
  let key ← string 12
  let valueLength ← Access.load 8 4
  match ← search KvEntry.key 12 s.entries with
  | some entry => do
      let (node, s) ← lift (s.bufferOf entry valueLength)
      let server ← rndvMr s.nodes (some node)
      let size ← replySet server
      return (s, size)
  | none => do
      let copied ← string 12
      let (node, s) ← lift s.takeBuffer
      let server ← rndvMr s.nodes (some node)
      let size ← replySet server
      return (s.appendEntry {
        key := copied
        keyLen := key.length
        valLen := valueLength
        largeValMemInfo := some node
        value := none }, size)

/-- `handle_server_packets_only`: the new state and `response_size`. -/
def handleServerPacketsOnlyBytes (s : Server) : Access (Server × Nat) := do
  let type ← Access.load 0 4
  if type = PacketType.eagerGetRequest.code then s.eagerGetCase
  else if type = PacketType.eagerSetRequest.code then s.eagerSetCase
  else if type = PacketType.rendezvousSetRequest.code then s.rendezvousSetCase
  else if type = PacketType.closeConnection.code then
    return ({ s with closeServer := true }, 0)
  else return (s, 0)

end Server

/-! ## `kv_indexer.c` -/

/-- `KV_ENTRY` of the index server, which has no use for `val_len`.  `value`
is what is at and behind the pointer. -/
structure IndexerEntry where
  key : CString
  keyLen : Nat
  largeValMemInfo : Option Nat
  value : Option Memory

/-- The globals of the index server.  It has the ones of a server, of which
`globals` holds all but the entries. -/
structure Indexer where
  entries : List IndexerEntry
  globals : Server

namespace Indexer

/-- Assign the fields of the first entry with its key. -/
def putEntry (s : Indexer) (updated : IndexerEntry) : Indexer :=
  { s with
    entries := s.entries.replaceF fun entry =>
      if entry.key = updated.key then some updated else none }

/-- Link a new entry behind `entries_tail`. -/
def appendEntry (s : Indexer) (entry : IndexerEntry) : Indexer where
  entries := s.entries ++ [entry]
  globals := { s.globals with
    entriesCounter := s.globals.entriesCounter + 1 }

def eagerGetCase (s : Indexer) : Access (Indexer × Nat) := do
  match ← search IndexerEntry.key 8 s.entries with
  | some entry =>
      match entry.value with
      | some value => do
          let value ← lift (value.string? 0 eagerProtocolLimit)
          let size ← replyValue value.length (value.chars ++ [0])
          return (s, size)
      | none => do
          let node ← lift entry.largeValMemInfo
          let value ←
            lift ((s.globals.nodes node).rndvBuffer.string? 0 maxTestSize)
          let server ← rndvMr s.globals.nodes (some node)
          let size ← replyBuffer value.length server
          return (s, size)
  | none => do
      let size ← replyMissing
      return (s, size)

/-- `case EAGER_SET_REQUEST`.  `heap` is what is at and behind a block that
`calloc` returns, from the end of the block on. -/
def eagerSetCase (heap : Memory) (s : Indexer) : Access (Indexer × Nat) := do
  let key ← string 12
  let value ← string (12 + (key.length + 1))
  match ← search IndexerEntry.key 12 s.entries with
  | some entry =>
      match entry.value with
      | none => do
          let globals ← lift (s.globals.taint entry.largeValMemInfo)
          let bytes ← memcpy (12 + (key.length + 1)) value.length
          return ({ s with globals := globals }.putEntry { entry with
            largeValMemInfo := none
            value := some (heap.copy 0 value.length (Memory.ofList bytes)) }, 0)
      | some old => do
          let bytes ← memcpy (12 + (key.length + 1)) value.length
          let block :=
            if (old.string? 0 eagerProtocolLimit).map CString.length =
              some value.length then old else heap
          return (s.putEntry { entry with
            value := some (block.copy 0 value.length (Memory.ofList bytes)) },
            0)
  | none => do
      let copied ← string 12
      let value ← string (12 + (key.length + 1))
      return (s.appendEntry {
        key := copied
        keyLen := key.length
        largeValMemInfo := none
        value := some (heap.copy 0 (value.length + 1) value.memory) }, 0)

/-- The buffer of an entry that was found, from the pool if it has none. -/
def bufferOf (s : Indexer) (entry : IndexerEntry) : Option (Nat × Indexer) :=
  match entry.largeValMemInfo with
  | none => do
      let (node, globals) ← s.globals.takeBuffer
      return (node, { s with globals := globals }.putEntry { entry with
        largeValMemInfo := some node
        value := none })
  | some node => some (node, s)

def rendezvousSetCase (s : Indexer) : Access (Indexer × Nat) := do
  let key ← string 12
  let _ ← Access.load 8 4
  match ← search IndexerEntry.key 12 s.entries with
  | some entry => do
      let (node, s) ← lift (s.bufferOf entry)
      let server ← rndvMr s.globals.nodes (some node)
      let size ← replySet server
      return (s, size)
  | none => do
      let copied ← string 12
      let (node, globals) ← lift s.globals.takeBuffer
      let server ← rndvMr globals.nodes (some node)
      let size ← replySet server
      return ({ s with globals := globals }.appendEntry {
        key := copied
        keyLen := key.length
        largeValMemInfo := some node
        value := none }, size)

/-- `case FIND`.  `num_of_servers` is read after the type is written. -/
def findCase (s : Indexer) : Access (Indexer × Nat) := do
  let key ← string 12
  setType .location
  let numOfServers ← Access.load 8 4
  if numOfServers = 0 then .crash
  else do
    Access.store 8 4 (selectServer numOfServers key)
    return (s, sizeofPacket)

/-- `handle_server_packets_only`: the new state and `response_size`. -/
def handleServerPacketsOnlyBytes (heap : Memory) (s : Indexer) :
    Access (Indexer × Nat) := do
  let type ← Access.load 0 4
  if type = PacketType.eagerGetRequest.code then s.eagerGetCase
  else if type = PacketType.eagerSetRequest.code then s.eagerSetCase heap
  else if type = PacketType.rendezvousSetRequest.code then s.rendezvousSetCase
  else if type = PacketType.closeConnection.code then
    return ({ s with globals := { s.globals with closeServer := true } }, 0)
  else if type = PacketType.find.code then s.findCase
  else return (s, 0)

end Indexer

/-- In place and in two buffers, the handler fails, or it returns the same
state and `response_size`, and the replies have the same fields. -/
def SameInPlace {σ : Type} (handler : Access (σ × Nat))
    (buf other : Memory) : Prop :=
  (handler.runInPlace buf = none ∧ handler.run buf other = none) ∨
    ∃ s responseSize buf' other',
      handler.runInPlace buf = some ((s, responseSize), buf') ∧
      handler.run buf other = some ((s, responseSize), other') ∧
      (responseSize ≠ 0 → ∃ reply : Packet, reply.At buf' ∧ reply.At other')

/-! ## The replies -/

namespace Handling

open Access

def Replied (written : Written) : Prop :=
  ∃ reply : Packet, ∀ memory, written.At memory → reply.At memory

/-- The reply is there if storing it changes nothing. -/
private theorem replied_of_store {written : Written} {reply : Packet}
    (inRange : reply.InRange)
    (stored : ∀ memory, written.At memory → reply.store memory = memory) :
    Replied written := by
  refine ⟨reply, fun memory isAt => ?_⟩
  have present := Packet.at_store inRange memory
  rwa [stored memory isAt] at present

variable {written : Written}

private theorem safe_replyValue (valLen : Nat) (copied : List UInt8) :
    (replyValue valLen copied).Safe (fun _ => Replied) written := by
  unfold replyValue
  refine Safe.bind (Safe.bind ?_)
  simp only [store, put, Safe]
  split
  · rename_i fits
    have length : (copied.take valLen).length = valLen :=
      List.length_take_of_le fits.1
    refine @replied_of_store _ (.eagerGetResponse (copied.take valLen))
      ⟨?_, ?_⟩ fun memory isAt => ?_
    · simp only [Packet.extent, length]
      omega
    · simp only [Packet.number, length]
      simp only [eagerProtocolLimit, unsignedRange] at fits ⊢
      omega
    · rw [Packet.store, length, isAt.storeLE_eq_self, isAt.storeLE_eq_self,
        isAt.copy_eq_self]
      · intro i inside
        rw [Written.add_inside _ (by omega), Memory.ofList]
        simp [List.getD_eq_getElem?_getD, inside]
      · intro i inside
        rw [Written.add_outside _ (by omega),
          Written.add_littleEndian _ inside]
      · intro i inside
        rw [Written.add_outside _ (by omega), Written.add_outside _ (by omega),
          Written.add_littleEndian _ inside]
  · trivial

/-- Only the low bytes of a number are stored. -/
private theorem ofNat_mod_unsigned (value : Nat) {i : Nat} (inside : i < 4) :
    UInt8.ofNat (value / 256 ^ i) =
      UInt8.ofNat (value % unsignedRange / 256 ^ i) := by
  rw [← UInt8.toNat_inj, UInt8.toNat_ofNat', UInt8.toNat_ofNat']
  simp only [unsignedRange]
  have cases4 : i = 0 ∨ i = 1 ∨ i = 2 ∨ i = 3 := by omega
  rcases cases4 with rfl | rfl | rfl | rfl <;> omega

private theorem safe_replyBuffer (valLen : Nat) (server : IbvMr) :
    (replyBuffer valLen server).Safe (fun _ => Replied) written := by
  refine @replied_of_store _
    (.rendezvousGetResponse (valLen % unsignedRange) server)
    ⟨by simp [Packet.extent, eagerProtocolLimit], Nat.mod_lt _ (by decide)⟩
    fun memory isAt => ?_
  rw [Packet.store, isAt.storeLE_eq_self, isAt.storeLE_eq_self,
    isAt.storeLE_eq_self, isAt.storeLE_eq_self]
  · intro i inside
    rw [Written.add_littleEndian _ inside]
  · intro i inside
    rw [Written.add_outside _ (by simp; omega),
      Written.add_littleEndian _ inside]
  · intro i inside
    rw [Written.add_outside _ (by simp; omega),
      Written.add_outside _ (by simp; omega),
      Written.add_littleEndian _ inside, ofNat_mod_unsigned _ inside]
  · intro i inside
    rw [Written.add_outside _ (by simp; omega),
      Written.add_outside _ (by simp; omega),
      Written.add_outside _ (by simp; omega),
      Written.add_littleEndian _ inside]

private theorem safe_replyMissing :
    replyMissing.Safe (fun _ => Replied) written := by
  refine @replied_of_store _ (.eagerGetResponse [0])
    ⟨by decide, by decide⟩ fun memory isAt => ?_
  rw [Packet.store, isAt.storeLE_eq_self, isAt.storeLE_eq_self,
    isAt.copy_eq_self]
  · intro i inside
    rw [Written.add_outside _ (by simp), Written.add_inside _ inside]
    rfl
  · intro i inside
    exact Written.add_littleEndian _ inside
  · intro i inside
    rw [Written.add_outside _ (by simp; omega),
      Written.add_outside _ (by simp; omega),
      Written.add_littleEndian _ inside]

private theorem safe_replySet (server : IbvMr) :
    (replySet server).Safe (fun _ => Replied) written := by
  refine @replied_of_store _ (.rendezvousSetResponse server)
    ⟨by simp [Packet.extent, eagerProtocolLimit], by simp [Packet.number,
      unsignedRange]⟩ fun memory isAt => ?_
  rw [Packet.store, isAt.storeLE_eq_self, isAt.storeLE_eq_self,
    isAt.storeLE_eq_self]
  · intro i inside
    rw [Written.add_littleEndian _ inside]
  · intro i inside
    rw [Written.add_outside _ (by simp; omega),
      Written.add_littleEndian _ inside]
  · intro i inside
    rw [Written.add_outside _ (by simp; omega),
      Written.add_outside _ (by simp; omega),
      Written.add_littleEndian _ inside]

/-! ## The reads -/

section Reads

variable {α ε : Type}

private theorem safe_lift {post : α → Written → Prop} {step : Option α}
    (meets : ∀ value, step = some value → post value written) :
    (lift step).Safe post written := by
  cases step with
  | none => trivial
  | some value => exact meets value rfl

private theorem safe_string {post : CString → Written → Prop} {offset : Nat}
    (meets : ∀ s, post s Written.nothing) :
    (Handling.string offset).Safe post Written.nothing :=
  Access.safe_string (fun _ _ => rfl) meets

private theorem safe_memcpy {post : List UInt8 → Written → Prop}
    {offset count : Nat}
    (meets : ∀ bytes, post bytes Written.nothing) :
    (memcpy offset count).Safe post Written.nothing := by
  unfold memcpy
  split
  · exact ⟨fun _ _ => rfl, meets⟩
  · trivial

/-- The whole search reads before anything is written. -/
private theorem safe_search {post : Option ε → Written → Prop}
    (keyOf : ε → CString)
    (offset : Nat) (entries : List ε)
    (meets : ∀ found, post found Written.nothing) :
    (search keyOf offset entries).Safe post Written.nothing := by
  induction entries with
  | nil => exact meets none
  | cons entry rest inductionHypothesis =>
      refine Safe.bind ⟨fun _ _ => rfl, fun bytes => ?_⟩
      change Safe post (if _ then _ else _) _
      split
      · exact meets (some entry)
      · exact inductionHypothesis

end Reads

end Handling

/-! ## The handlers -/

section Handlers

variable {σ : Type}

/-- What is known when a handler returns. -/
def Answered (result : σ × Nat) (written : Access.Written) : Prop :=
  result.2 ≠ 0 → Replied written

/-- A handler that ends with a reply. -/
private theorem safe_reply {written : Access.Written} {reply : Access Nat}
    (safe : reply.Safe (fun _ => Replied) written) (finish : Nat → σ × Nat) :
    (reply >>= fun size => (return finish size : Access (σ × Nat))).Safe
      Answered written :=
  Access.Safe.bind (safe.mono fun _ _ replied _ => replied)

/-- A handler that ends with the buffer that the value is to be written to. -/
private theorem safe_replyMr (mr : Option IbvMr) (finish : Nat → σ × Nat) :
    (lift mr >>= fun server => replySet server >>= fun size =>
      (return finish size : Access (σ × Nat))).Safe Answered
      Access.Written.nothing :=
  Access.Safe.bind (safe_lift fun server _ =>
    safe_reply (safe_replySet server) finish)

/-- A handler that ends without a reply. -/
private theorem safe_silent (s : σ) {written : Access.Written} :
    (return (s, 0) : Access (σ × Nat)).Safe Answered written :=
  fun replies => absurd rfl replies

theorem SameInPlace.of_safe {handler : Access (σ × Nat)} {buf other : Memory}
    (safe : handler.Safe Answered Access.Written.nothing) :
    SameInPlace handler buf other := by
  rcases safe.same (fun i _ => rfl) (Access.Written.at_nothing buf)
    (Access.Written.at_nothing other) with crashed | ⟨result, buf', other',
      later, inPlace, apart, answered, inBuf, inOther⟩
  · exact Or.inl crashed
  · refine Or.inr ⟨result.1, result.2, buf', other', inPlace, apart,
      fun replies => ?_⟩
    obtain ⟨reply, isAt⟩ := answered replies
    exact ⟨reply, isAt buf' inBuf, isAt other' inOther⟩

end Handlers

namespace Server

open Access

private theorem safe_eagerGetCase (s : Server) :
    s.eagerGetCase.Safe Answered Written.nothing := by
  refine Safe.bind (safe_search _ _ _ fun found => ?_)
  cases found with
  | none => exact safe_reply safe_replyMissing _
  | some entry =>
      simp only
      split
      · exact safe_reply (safe_replyValue _ _) _
      · refine Safe.bind (safe_lift fun server _ => ?_)
        exact safe_reply (safe_replyBuffer _ _) _

private theorem safe_eagerSetCase (s : Server) :
    s.eagerSetCase.Safe Answered Written.nothing := by
  refine Safe.bind (safe_string fun key => Safe.bind
    (safe_load (fun _ _ => rfl) fun valueLength => Safe.bind
      (safe_search _ _ _ fun found => ?_)))
  cases found with
  | none =>
      refine Safe.bind (safe_string fun copied => Safe.bind
        (safe_memcpy fun bytes => ?_))
      exact safe_silent _
  | some entry =>
      simp only
      split
      · refine Safe.bind (safe_lift fun s _ => Safe.bind
          (safe_memcpy fun bytes => ?_))
        exact safe_silent _
      · refine Safe.bind (safe_memcpy fun bytes => ?_)
        split
        · exact safe_silent _
        · split
          · exact safe_silent _
          · trivial

private theorem safe_rendezvousSetCase (s : Server) :
    s.rendezvousSetCase.Safe Answered Written.nothing := by
  refine Safe.bind (safe_string fun key => Safe.bind
    (safe_load (fun _ _ => rfl) fun valueLength => Safe.bind
      (safe_search _ _ _ fun found => ?_)))
  cases found with
  | none =>
      refine Safe.bind (safe_string fun copied => Safe.bind
        (safe_lift fun taken _ => ?_))
      exact safe_replyMr _ _
  | some entry =>
      refine Safe.bind (safe_lift fun buffer _ => ?_)
      exact safe_replyMr _ _

private theorem safe_handleServerPacketsOnly (s : Server) :
    s.handleServerPacketsOnlyBytes.Safe Answered Written.nothing := by
  refine Safe.bind (safe_load (fun _ _ => rfl) fun type => ?_)
  split
  · exact s.safe_eagerGetCase
  split
  · exact s.safe_eagerSetCase
  split
  · exact s.safe_rendezvousSetCase
  split
  · exact safe_silent _
  · exact safe_silent _

end Server

namespace Indexer

open Access

private theorem safe_eagerGetCase (s : Indexer) :
    s.eagerGetCase.Safe Answered Written.nothing := by
  refine Safe.bind (safe_search _ _ _ fun found => ?_)
  cases found with
  | none => exact safe_reply safe_replyMissing _
  | some entry =>
      simp only
      split
      · refine Safe.bind (safe_lift fun value _ => ?_)
        exact safe_reply (safe_replyValue _ _) _
      · refine Safe.bind (safe_lift fun node _ => Safe.bind
          (safe_lift fun value _ => Safe.bind (safe_lift fun server _ => ?_)))
        exact safe_reply (safe_replyBuffer _ _) _

private theorem safe_eagerSetCase (heap : Memory) (s : Indexer) :
    (s.eagerSetCase heap).Safe Answered Written.nothing := by
  refine Safe.bind (safe_string fun key => Safe.bind (safe_string fun value =>
    Safe.bind (safe_search _ _ _ fun found => ?_)))
  cases found with
  | none =>
      refine Safe.bind (safe_string fun copied => Safe.bind
        (safe_string fun value => ?_))
      exact safe_silent _
  | some entry =>
      simp only
      split
      · refine Safe.bind (safe_lift fun globals _ => Safe.bind
          (safe_memcpy fun bytes => ?_))
        exact safe_silent _
      · refine Safe.bind (safe_memcpy fun bytes => ?_)
        exact safe_silent _

private theorem safe_rendezvousSetCase (s : Indexer) :
    s.rendezvousSetCase.Safe Answered Written.nothing := by
  refine Safe.bind (safe_string fun key => Safe.bind
    (safe_load (fun _ _ => rfl) fun valueLength => Safe.bind
      (safe_search _ _ _ fun found => ?_)))
  cases found with
  | none =>
      refine Safe.bind (safe_string fun copied => Safe.bind
        (safe_lift fun taken _ => ?_))
      exact safe_replyMr _ _
  | some entry =>
      refine Safe.bind (safe_lift fun buffer _ => ?_)
      exact safe_replyMr _ _

/-- `num_of_servers` lies behind the type that was written before. -/
private theorem safe_findCase (s : Indexer) :
    s.findCase.Safe Answered Written.nothing := by
  refine Safe.bind (safe_string fun key => Safe.bind ?_)
  refine Safe.bind (safe_load (fun i inside => ?_) fun numOfServers => ?_)
  · exact Written.add_outside _ (by simp; omega)
  split
  · trivial
  · rename_i positive
    refine Safe.bind fun _ => @replied_of_store _
      (.location (selectServer numOfServers key)) ⟨by simp [Packet.extent,
        eagerProtocolLimit], ?_⟩ fun memory isAt => ?_
    · refine Nat.lt_of_le_of_lt (Nat.mod_le _ _) ?_
      exact UInt32.toNat_lt _
    · rw [Packet.store, isAt.storeLE_eq_self, isAt.storeLE_eq_self]
      · intro i inside
        rw [Written.add_littleEndian _ inside]
      · intro i inside
        rw [Written.add_outside _ (by simp; omega),
          Written.add_littleEndian _ inside]

private theorem safe_handleServerPacketsOnly (heap : Memory) (s : Indexer) :
    (s.handleServerPacketsOnlyBytes heap).Safe Answered Written.nothing := by
  refine Safe.bind (safe_load (fun _ _ => rfl) fun type => ?_)
  split
  · exact s.safe_eagerGetCase
  split
  · exact s.safe_eagerSetCase heap
  split
  · exact s.safe_rendezvousSetCase
  split
  · exact safe_silent _
  split
  · exact s.safe_findCase
  · exact safe_silent _

end Indexer

/-- Whatever is in `ctx->buf` and in the state of a server or of the index
server, the reply may be built over the request. -/
theorem handleServerPacketsOnly_inPlace (buf other : Memory) :
    (∀ s : Server, SameInPlace s.handleServerPacketsOnlyBytes buf other) ∧
      ∀ (heap : Memory) (s : Indexer),
        SameInPlace (s.handleServerPacketsOnlyBytes heap) buf other :=
  ⟨fun s => SameInPlace.of_safe s.safe_handleServerPacketsOnly,
    fun heap s => SameInPlace.of_safe (s.safe_handleServerPacketsOnly heap)⟩

end RdmaKv
