import RdmaKv.Ex4.Cluster
import RdmaKv.Library.LockStep

/-!
# The work requests of `kv_client.c` and of its servers

The client and its servers as they post to their queue pairs and poll their
completion queues: `pp_post_recv`, `pp_post_send`, `pp_wait_completions`, and
the calls on top of them.  Every `ctx` has one buffer and a receive queue of
`rx_depth = 1`.
-/

namespace RdmaKv

open ByteMemory Interaction QueuePair

/-! ## The servers -/

/-- `handle_server_packets_only` of `kv_server.c` on `ctx->buf`: the new
buffer, and the `response_size` if a reply is sent from it. -/
def Server.handleBuf (s : Server) (buf : Memory) :
    Option (Server × Memory × Option Nat) :=
  if buf.loadLE 0 4 ∈ [0, 2, 5, 7] then do
    let packet ← Packet.read buf
    let (s, reply) ← s.handleServerPacketsOnly packet
    match reply with
    | none => some (s, buf, none)
    | some (reply, responseSize) =>
        if reply.extent ≤ eagerProtocolLimit then
          some (s, reply.store buf, some responseSize)
        else none
  else some (s, buf, none)

/-- `handle_server_packets_only` of `kv_indexer.c`, whose only global that
these requests use is `close_server`.  A client sends it no other requests. -/
def indexerHandleBuf (closeServer : Bool) (buf : Memory) :
    Option (Bool × Memory × Option Nat) :=
  match Packet.read buf with
  | some (.find numOfServers key) =>
      if numOfServers = 0 then none
      else
        some (closeServer,
          (Packet.location (selectServer numOfServers key)).store buf,
          some sizeofPacket)
  | some (.closeConnection _) => some (true, buf, none)
  | _ => none

/-- What an RDMA operation names: the size of the local region, what is
written, the length and the remote buffer. -/
inductive Rdma where
  | write (region : Nat) (source : Memory) (length : Nat) (remote : IbvMr)
  | read (region length : Nat) (remote : IbvMr)

/-- An RDMA operation on the buffers of a server, and what it reads. -/
def Server.access (s : Server) : Rdma → Option (Server × Memory)
  | .write region source length remote => do
      let node ← s.nodeAt remote
      if length ≤ maxTestSize ∧ length ≤ region then
        some (s.setRndvBuffer node
          ((s.nodes node).rndvBuffer.copy 0 length source), Memory.zero)
      else none
  | .read region length remote => do
      let node ← s.nodeAt remote
      if length ≤ maxTestSize ∧ length ≤ region then
        some (s, (s.nodes node).rndvBuffer)
      else none

namespace Packet

/-- A packet that was read has the type that the buffer says. -/
private theorem type_of_read {buf : Memory} {packet : Packet}
    (isPacket : Packet.read buf = some packet) :
    packet.type.code = buf.loadLE 0 4 := by
  unfold Packet.read at isPacket
  split at isPacket
  case h_1 code =>
      obtain ⟨key, _, rfl⟩ := Option.map_eq_some_iff.mp isPacket
      exact code.symm
  case h_2 code =>
      simp only at isPacket
      split at isPacket
      · obtain rfl := Option.some.inj isPacket
        exact code.symm
      · exact absurd isPacket (by simp)
  case h_3 code =>
      obtain ⟨key, _, rest⟩ := Option.bind_eq_some_iff.mp isPacket
      simp only at rest
      split at rest
      · obtain rfl := Option.some.inj rest
        exact code.symm
      · exact absurd rest (by simp)
  case h_4 code =>
      obtain ⟨key, _, rfl⟩ := Option.map_eq_some_iff.mp isPacket
      exact code.symm
  case h_5 code =>
      obtain rfl := Option.some.inj isPacket
      exact code.symm
  case h_6 code =>
      obtain ⟨key, _, rfl⟩ := Option.map_eq_some_iff.mp isPacket
      exact code.symm
  case h_7 code =>
      obtain rfl := Option.some.inj isPacket
      exact code.symm
  case h_8 code =>
      obtain rfl := Option.some.inj isPacket
      exact code.symm
  case h_9 code =>
      obtain ⟨key, _, rfl⟩ := Option.map_eq_some_iff.mp isPacket
      exact code.symm
  case h_10 code =>
      obtain rfl := Option.some.inj isPacket
      exact code.symm
  case h_11 => exact absurd isPacket (by simp)

end Packet

/-- The requests that a key-value server answers. -/
def Server.asks (buf : Memory) : Bool :=
  buf.loadLE 0 4 ∈ [PacketType.eagerGetRequest.code,
    PacketType.rendezvousSetRequest.code]

def indexerAsks (buf : Memory) : Bool :=
  buf.loadLE 0 4 = PacketType.find.code

theorem Server.handleBuf_asks {s s' : Server} {buf buf' : Memory}
    {reply : Option Nat} (handled : s.handleBuf buf = some (s', buf', reply)) :
    reply.isSome = Server.asks buf := by
  unfold Server.handleBuf at handled
  split at handled
  · rename_i isRequest
    simp only [Option.bind_eq_bind, Option.bind_eq_some_iff] at handled
    obtain ⟨packet, isPacket, ⟨state, answer⟩, computed, rest⟩ := handled
    have code := Packet.type_of_read isPacket
    have answered : answer.isSome = Server.asks buf := by
      rw [Server.asks, ← code]
      cases packet <;>
        simp only [Server.handleServerPacketsOnly, Option.map_eq_some_iff,
          Option.some.injEq, Prod.mk.injEq, Prod.exists] at computed
      case eagerGetRequest =>
          obtain ⟨reply, size, _, _, rfl⟩ := computed
          rfl
      case eagerSetRequest =>
          obtain ⟨next, _, _, rfl⟩ := computed
          rfl
      case rendezvousSetRequest =>
          obtain ⟨next, reply, _, _, rfl⟩ := computed
          rfl
      all_goals
        obtain ⟨_, rfl⟩ := computed
        rfl
    rw [← answered]
    cases answer with
    | none =>
        simp only [Option.some.injEq, Prod.mk.injEq] at rest
        rw [← rest.2.2]
        rfl
    | some answer =>
        simp only at rest
        split at rest
        · simp only [Option.some.injEq, Prod.mk.injEq] at rest
          rw [← rest.2.2]
          rfl
        · exact absurd rest (by simp)
  · rename_i other
    simp only [Option.some.injEq, Prod.mk.injEq] at handled
    rw [← handled.2.2]
    symm
    rw [Option.isSome_none, Server.asks, decide_eq_false_iff_not]
    intro member
    refine other ?_
    simp only [PacketType.code, List.mem_cons, List.not_mem_nil, or_false]
      at member ⊢
    omega

private theorem indexerHandleBuf_asks {closed closed' : Bool}
    {buf buf' : Memory}
    {reply : Option Nat}
    (handled : indexerHandleBuf closed buf = some (closed', buf', reply)) :
    reply.isSome = indexerAsks buf := by
  unfold indexerHandleBuf at handled
  split at handled
  · rename_i numOfServers key isPacket
    have code := Packet.type_of_read isPacket
    split at handled
    · exact absurd handled (by simp)
    · simp only [Option.some.injEq, Prod.mk.injEq] at handled
      rw [← handled.2.2, indexerAsks, ← code]
      rfl
  · rename_i toClose isPacket
    have code := Packet.type_of_read isPacket
    simp only [Option.some.injEq, Prod.mk.injEq] at handled
    rw [← handled.2.2, indexerAsks, ← code]
    rfl
  · exact absurd handled (by simp)

/-- What the handler makes of a message that arrives. -/
theorem Host.receive_eq_handleBuf (host : Host) (message : Message) :
    host.receive message =
      (host.state.handleBuf (message.deliver host.buf)).map
        fun (s, buf, reply) => (⟨s, buf, true⟩, reply.map (⟨buf, ·⟩)) := by
  unfold Host.receive Server.handleBuf
  simp only
  split
  · cases Packet.read (message.deliver host.buf) with
    | none => rfl
    | some packet =>
        simp only [Option.bind_eq_bind, Option.bind_some]
        cases host.state.handleServerPacketsOnly packet with
        | none => rfl
        | some answer =>
            obtain ⟨s, reply⟩ := answer
            cases reply with
            | none => rfl
            | some reply =>
                simp only [Option.bind_some]
                split <;> rfl
  · rfl

/-- The index server answers `FIND` in its buffer. -/
theorem locate_eq_handleBuf {buf : Memory} {message : Message}
    {buf' : Memory} {reply : Message}
    (located : locate buf message = some (buf', reply)) :
    indexerHandleBuf false (message.deliver buf) =
        some (false, buf', some sizeofPacket) ∧
      reply = ⟨buf', sizeofPacket⟩ := by
  unfold locate at located
  split at located
  · rename_i numOfServers key isPacket
    split at located
    · exact absurd located (by simp)
    · rename_i some
      obtain ⟨rfl, rfl⟩ := Prod.mk.inj (Option.some.inj located)
      exact ⟨by simp [indexerHandleBuf, isPacket, some], rfl⟩
  · exact absurd located (by simp)

/-! ## Connections -/

/-- The type of a message is in its first four bytes. -/
private theorem loadLE_copy (sent received : Memory) {size : Nat}
    (long : 4 ≤ size) :
    (received.copy 0 size sent).loadLE 0 4 = sent.loadLE 0 4 := by
  refine Memory.loadLE_congr fun i _ upper => ?_
  rw [Memory.copy_inside received _ (Nat.zero_le i) (by omega), Nat.sub_zero]

/-- `kv_server.c` on a connection. -/
def serverService (regMr : Nat → Option IbvMr) : Service Memory Rdma Memory where
  State := Server
  limit := eagerProtocolLimit
  header := 4
  deliver := fun sent size received => received.copy 0 size sent
  handle := fun s buf s' buf' reply => s.handleBuf buf = some (s', buf', reply)
  closed := Server.closeServer
  maintain := fun s s' => s.maintainPool regMr = some s'
  access := fun s rdma s' data => s.access rdma = some (s', data)
  asks := Server.asks
  handle_asks := Server.handleBuf_asks
  asks_deliver := fun sent _ received long => by
    rw [Server.asks, Server.asks, loadLE_copy sent received long]

/-- `kv_indexer.c` on a connection. -/
def indexerService : Service Memory Rdma Memory where
  State := Bool
  limit := eagerProtocolLimit
  header := 4
  deliver := fun sent size received => received.copy 0 size sent
  handle := fun closed buf closed' buf' reply =>
    indexerHandleBuf closed buf = some (closed', buf', reply)
  closed := id
  maintain := Eq
  access := fun _ _ _ _ => False
  asks := indexerAsks
  handle_asks := indexerHandleBuf_asks
  asks_deliver := fun sent _ received long => by
    rw [indexerAsks, indexerAsks, loadLE_copy sent received long]

/-- What a `kv_handle` is connected to. -/
def services (regMr : Nat → Nat → Option IbvMr) :
    Conn → Service Memory Rdma Memory
  | .indexer => indexerService
  | .server id => serverService (regMr id)

/-! ## The client -/

namespace Verbs

abbrev Act (α : Type) := QueuePair.Client Conn Memory Rdma Memory α

structure Globals where
  lastRndvAccessedKey : CString
  lastAccessedKeyValLength : Nat
  lastAccessedServer : IbvMr

namespace Globals

def init : Globals := ⟨CString.empty, 0, ⟨0, 0⟩⟩

/-- `memset(last_rndv_accessed_key, '\0', key_length)` for the key that is
cached. -/
def invalidate (globals : Globals) (key : CString) : Globals :=
  if key = globals.lastRndvAccessedKey then
    { globals with
      lastRndvAccessedKey := CString.empty
      lastAccessedKeyValLength := 0 }
  else globals

end Globals

/-- The loop over what `ibv_poll_cq` returned: whether all of it was
successful. -/
def lookAt (conn : Conn) : List (WrId × Bool) → Act Bool
  | [] => pure true
  | (_, false) :: _ => pure false
  | (.send, true) :: rest => lookAt conn rest
  | (.recv, true) :: rest => do
      postRecv conn
      lookAt conn rest

/-- `pp_wait_completions`, from where `rcnt + scnt` is `remaining` below
`iters`. -/
def waitFrom (conn : Conn) (iters : Nat) (remaining : Nat) : Act Int :=
  match remaining with
  | 0 => pure 0
  | left + 1 => do
      let batch ← pollCq conn iters (iters - (left + 1))
      if ← lookAt conn batch.1 then
        waitFrom conn iters (left + 1 - batch.1.length)
      else pure 1
termination_by remaining
decreasing_by
  have some := batch.2
  omega

def ppWaitCompletions (conn : Conn) (iters : Nat) : Act Int :=
  waitFrom conn iters iters

/-- What the eager branch of `kv_set` writes into `ctx->buf`. -/
def eagerSetBuf (key value : CString) (keyLength valueLength : Nat)
    (buf : Memory) : Memory :=
  (((buf.storeLE 0 4 PacketType.eagerSetRequest.code).storeLE 8 4
    valueLength).copy 12 (keyLength + 1) key.memory).copy
    (12 + (keyLength + 1)) (valueLength + 1) value.memory

def eagerSet (conn : Conn) (key value : CString)
    (keyLength valueLength packetSize : Nat) (globals : Globals) :
    Act (Int × Globals) :=
  if 12 + (keyLength + 1) + (valueLength + 1) ≤ eagerProtocolLimit then do
    store conn (eagerSetBuf key value keyLength valueLength)
    postSend conn packetSize
    let ret ← ppWaitCompletions conn 1
    return (ret, globals.invalidate key)
  else .crash

def writeValue (conn : Conn) (value : CString) (valueLength : Nat)
    (globals : Globals) : Act (Int × Globals) := do
  let length := (valueLength + 1) % unsignedRange
  postRdma conn (.write length value.memory length globals.lastAccessedServer)
  let ret ← ppWaitCompletions conn 1
  return (ret, globals)

/-- The rendezvous branch of `kv_set` for a key that is not cached. -/
def rendezvousSet (conn : Conn) (key value : CString)
    (keyLength valueLength : Nat) : Act (Int × Globals) :=
  if 12 + (keyLength + 1) ≤ eagerProtocolLimit then do
    store conn fun buf =>
      (buf.storeLE 8 4 ((valueLength + 1) % unsignedRange)).copy 12
        (keyLength + 1) key.memory
    postRecv conn
    postSend conn ((keyLength + 1 + sizeofPacket) % unsignedRange)
    let ret ← ppWaitCompletions conn 2
    if ret ≠ 0 then .crash
    else do
      let buf ← load conn
      if buf.loadLE 0 4 = PacketType.rendezvousSetResponse.code ∧
          key.length < eagerProtocolLimit then
        writeValue conn value valueLength ⟨key, valueLength,
          ⟨UInt64.ofNat (buf.loadLE 8 8), UInt32.ofNat (buf.loadLE 16 4)⟩⟩
      else .crash
  else .crash

def kvSet (conn : Conn) (key value : CString) (globals : Globals) :
    Act (Int × Globals) :=
  let keyLength := key.length % unsignedRange
  let valueLength := value.length % unsignedRange
  let packetSize :=
    (keyLength + valueLength + sizeofPacket + 2) % unsignedRange
  if packetSize < eagerProtocolLimit then
    eagerSet conn key value keyLength valueLength packetSize globals
  else do
    store conn fun buf => buf.storeLE 0 4 PacketType.rendezvousSetRequest.code
    if key = globals.lastRndvAccessedKey then
      writeValue conn value valueLength
        { globals with lastAccessedKeyValLength := valueLength }
    else rendezvousSet conn key value keyLength valueLength

/-- Post an RDMA read into a block that was cleared and wait for it.  The
result of the wait is ignored. -/
def readValue (conn : Conn) (region length : Nat) (globals : Globals) :
    Act (GetResult × Globals) := do
  postRdma conn (.read region length globals.lastAccessedServer)
  let _ ← ppWaitCompletions conn 1
  let data ← loadData conn
  return (⟨0, some ((Memory.zero.copy 0 length data).slice 0 region), none⟩,
    globals)

def uncachedGet (conn : Conn) (key : CString) (keyLength packetSize : Nat)
    (globals : Globals) : Act (GetResult × Globals) :=
  if 8 + (keyLength + 1) ≤ eagerProtocolLimit then do
    store conn fun buf =>
      (buf.storeLE 0 4 PacketType.eagerGetRequest.code).copy 8 (keyLength + 1)
        key.memory
    postRecv conn
    postSend conn packetSize
    let _ ← ppWaitCompletions conn 2
    let buf ← load conn
    if buf.loadLE 0 4 = PacketType.eagerGetResponse.code then
      if 12 + buf.loadLE 8 4 ≤ eagerProtocolLimit then
        return (⟨0, some (buf.slice 12 (buf.loadLE 8 4) ++ [0]), none⟩, globals)
      else .crash
    else if buf.loadLE 0 4 = PacketType.rendezvousGetResponse.code then
      let size := (buf.loadLE 8 4 + 1) % unsignedRange
      readValue conn size size ⟨key, buf.loadLE 8 4,
        ⟨UInt64.ofNat (buf.loadLE 16 8), UInt32.ofNat (buf.loadLE 24 4)⟩⟩
    else return (⟨-1, none, none⟩, globals)
  else .crash

def kvGet (conn : Conn) (key : CString) (globals : Globals) :
    Act (GetResult × Globals) :=
  let keyLength := key.length % unsignedRange
  let packetSize := (keyLength + 1 + sizeofPacket) % unsignedRange
  if packetSize > eagerProtocolLimit then
    return (⟨-1, none, none⟩, globals)
  else if key ≠ globals.lastRndvAccessedKey then
    uncachedGet conn key keyLength packetSize globals
  else
    readValue conn ((globals.lastAccessedKeyValLength + 1) % unsignedRange)
      globals.lastAccessedKeyValLength globals

/-- `kv_close`, up to the teardown of the context. -/
def kvClose (conn : Conn) : Act Unit := do
  store conn (Packet.closeConnection 1).store
  postSend conn sizeofPacket
  let _ ← ppWaitCompletions conn 1

/-- Ask the index server for the server of a key. -/
def findServer (numServers : Nat) (key : CString) : Act Nat :=
  if 12 + (key.length + 1) ≤ eagerProtocolLimit then do
    store .indexer (Packet.find numServers key).store
    postRecv .indexer
    postSend .indexer ((key.length + sizeofPacket) % unsignedRange)
    let ret ← ppWaitCompletions .indexer 2
    if ret ≠ 0 then .crash
    else do
      let buf ← load .indexer
      if buf.loadLE 0 4 = PacketType.location.code then
        return buf.loadLE 8 4
      else .crash
  else .crash

def dkvSet (numServers : Nat) (key value : CString) (globals : Globals) :
    Act (Int × Globals) := do
  let selectedServer ← findServer numServers key
  kvSet (.server selectedServer) key value globals

def dkvGet (numServers : Nat) (key : CString) (globals : Globals) :
    Act (GetResult × Globals) := do
  let selectedServer ← findServer numServers key
  kvGet (.server selectedServer) key globals

def mkvClose : (count remaining : Nat) → Act Unit
  | _, 0 => pure ()
  | count, remaining + 1 => do
      kvClose (.server count)
      mkvClose (count + 1) remaining

def dkvClose (numServers : Nat) : Act Unit := do
  kvClose .indexer
  mkvClose 0 numServers

inductive Call where
  | dkvSet (key value : CString)
  | dkvGet (key : CString)
  | mkvSet (kvId : Nat) (key value : CString)
  | mkvGet (kvId : Nat) (key : CString)

/-- A call, as it changes the globals. -/
def Call.act (numServers : Nat) (globals : Globals) : Call → Act Globals
  | dkvSet key value => return (← Verbs.dkvSet numServers key value globals).2
  | dkvGet key => return (← Verbs.dkvGet numServers key globals).2
  | mkvSet kvId key value => return (← kvSet (.server kvId) key value globals).2
  | mkvGet kvId key => return (← kvGet (.server kvId) key globals).2

def actAll (numServers : Nat) : List Call → Globals → Act Globals
  | [], globals => pure globals
  | call :: calls, globals => do
      let globals ← call.act numServers globals
      actAll numServers calls globals

def session (numServers : Nat) (calls : List Call) : Act Unit := do
  let _ ← actAll numServers calls .init
  dkvClose numServers

end Verbs

end RdmaKv
