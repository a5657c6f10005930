import RdmaKv.Ex4.Packet

/-!
# `kv_server.c`: entries, buffer pool and request handler

The globals of a key-value server and the functions that change them.  The
`MEMORY_INFO` nodes live in a heap and are linked by `next_mem` pointers,
because the server keeps a head, a tail and a counter for one chain of them.
The entries are kept in list order.

A function returns `none` where the C function does not return: it
dereferences NULL, leaves a buffer, or loops for ever.  `ibv_reg_mr` is a
parameter: `regMr k` is what the registration of the `k`-th node returns.
-/

namespace RdmaKv

open ByteMemory

structure MemoryInfo where
  rndvMr : Option IbvMr
  rndvBuffer : Memory
  nextMem : Option Nat

/-- `KV_ENTRY`, without its links to the neighbours in the list. -/
structure KvEntry where
  key : CString
  keyLen : Nat
  valLen : Nat
  largeValMemInfo : Option Nat
  value : Option (List UInt8)
  deriving DecidableEq

/-- The globals of the server.  Node `k` is the result of the `k`-th
`malloc(sizeof(MEMORY_INFO))`, and `mallocs` counts them. -/
structure Server where
  entries : List KvEntry
  entriesCounter : Nat
  nodes : Nat → MemoryInfo
  mallocs : Nat
  memPoolHead : Option Nat
  memPoolTail : Option Nat
  taintedMemPoolHead : Option Nat
  taintedMemPoolTail : Option Nat
  poolSize : Int
  closeServer : Bool

namespace Server

def init : Server where
  entries := []
  entriesCounter := 0
  nodes := fun _ => ⟨none, Memory.zero, none⟩
  mallocs := 0
  memPoolHead := none
  memPoolTail := none
  taintedMemPoolHead := none
  taintedMemPoolTail := none
  poolSize := 0
  closeServer := false

def nextMem (s : Server) (node : Nat) : Option Nat :=
  (s.nodes node).nextMem

def updateNode (s : Server) (node : Nat)
    (change : MemoryInfo → MemoryInfo) : Server :=
  { s with
    nodes := fun other =>
      if other = node then change (s.nodes other) else s.nodes other }

def setNextMem (s : Server) (node : Nat) (next : Option Nat) : Server :=
  s.updateNode node fun info => { info with nextMem := next }

def setRndvBuffer (s : Server) (node : Nat) (buffer : Memory) : Server :=
  s.updateNode node fun info => { info with rndvBuffer := buffer }

/-! ## The entries -/

/-- The loop that looks for a key from `entries_head` on. -/
def findEntry (s : Server) (key : CString) : Option KvEntry :=
  s.entries.find? fun entry => entry.key = key

/-- The list with its first entry for the key replaced. -/
def replaceEntry (key : CString) (updated : KvEntry) :
    List KvEntry → List KvEntry
  | [] => []
  | entry :: rest =>
      if entry.key = key then updated :: rest
      else entry :: replaceEntry key updated rest

/-- Assign the fields of the entry that the search has found. -/
def putEntry (s : Server) (key : CString) (updated : KvEntry) : Server :=
  { s with entries := replaceEntry key updated s.entries }

/-- Link a new entry behind `entries_tail`. -/
def appendEntry (s : Server) (entry : KvEntry) : Server :=
  { s with
    entries := s.entries ++ [entry]
    entriesCounter := s.entriesCounter + 1 }

/-! ## The handler -/

/-- Hand the buffer of an entry to the tainted list. -/
def taint (s : Server) (buffer : Option Nat) : Option Server :=
  match s.taintedMemPoolHead with
  | none =>
      some { s with
        taintedMemPoolHead := buffer
        taintedMemPoolTail := buffer }
  | some _ =>
      match s.taintedMemPoolTail with
      | none => none
      | some tail =>
          some { s.setNextMem tail buffer with taintedMemPoolTail := buffer }

/-- Take the node at `mem_pool_head` out of the pool. -/
def takeBuffer (s : Server) : Option (Nat × Server) :=
  match s.memPoolHead with
  | none => none
  | some node =>
      some (node,
        { s.setNextMem node none with
          memPoolHead := s.nextMem node
          poolSize := s.poolSize - 1 })

/-- `case EAGER_GET_REQUEST`: the reply and its `response_size`. -/
def eagerGet (s : Server) (key : CString) : Option (Packet × Nat) :=
  match s.findEntry key with
  | some entry =>
      match entry.value with
      | some value =>
          if entry.valLen ≤ value.length then
            some (.eagerGetResponse (value.take entry.valLen),
              sizeofPacket + entry.valLen)
          else none
      | none => do
          let node ← entry.largeValMemInfo
          let server ← (s.nodes node).rndvMr
          return (.rendezvousGetResponse entry.valLen server, sizeofPacket)
  | none =>
      -- `sizeof(response_packet) + 1`, where `response_packet` is a pointer
      some (.eagerGetResponse [0], sizeofPointer + 1)

/-- `case EAGER_SET_REQUEST`. -/
def eagerSet (s : Server) (key : CString) (value : List UInt8) :
    Option Server :=
  match s.findEntry key with
  | some entry =>
      match entry.value with
      | none => do
          let s ← s.taint entry.largeValMemInfo
          return s.putEntry key { entry with
            largeValMemInfo := none
            valLen := value.length
            value := some value }
      | some old =>
          if entry.valLen ≠ value.length then
            some (s.putEntry key { entry with
              valLen := value.length
              value := some value })
          else if value.length ≤ old.length then
            some (s.putEntry key { entry with
              value := some (value ++ old.drop value.length) })
          else none
  | none =>
      some (s.appendEntry {
        key := key
        keyLen := key.length
        valLen := value.length
        largeValMemInfo := none
        value := some value })

/-- The reply to a rendezvous set: where the client may write. -/
def rendezvousReply (s : Server) (node : Nat) : Option (Server × Packet) :=
  (s.nodes node).rndvMr.map fun server =>
    (s, .rendezvousSetResponse server)

/-- `case RENDEZVOUS_SET_REQUEST`. -/
def rendezvousSet (s : Server) (valueLength : Nat) (key : CString) :
    Option (Server × Packet) :=
  match s.findEntry key with
  | some entry =>
      match entry.largeValMemInfo with
      | none => do
          let (node, s) ← s.takeBuffer
          (s.putEntry key { entry with
            valLen := valueLength
            largeValMemInfo := some node
            value := none }).rendezvousReply node
      | some node =>
          (s.putEntry key { entry with
            valLen := valueLength }).rendezvousReply node
  | none => do
      let (node, s) ← s.takeBuffer
      (s.appendEntry {
        key := key
        keyLen := key.length
        valLen := valueLength
        largeValMemInfo := some node
        value := none }).rendezvousReply node

/-- `handle_server_packets_only`, with the request and the reply as packets:
the new state, and the reply with its `response_size` if one is sent. -/
def handleServerPacketsOnly (s : Server) :
    Packet → Option (Server × Option (Packet × Nat))
  | .eagerGetRequest key => (s.eagerGet key).map fun reply => (s, some reply)
  | .eagerSetRequest key value => (s.eagerSet key value).map fun s => (s, none)
  | .rendezvousSetRequest valueLength key =>
      (s.rendezvousSet valueLength key).map fun (s, reply) =>
        (s, some (reply, sizeofPacket))
  | .closeConnection _ => some ({ s with closeServer := true }, none)
  | _ => some (s, none)

/-! ## The pool -/

/-- The loop over `tainted_mem_pool_head`, for at most `fuel` rounds. -/
def recycleTainted : Nat → Server → Option Server
  | fuel, s =>
      match s.taintedMemPoolHead with
      | none => some s
      | some node =>
          match fuel with
          | 0 => none
          | fuel + 1 =>
              let s := s.setRndvBuffer node Memory.zero
              let s :=
                match s.memPoolTail with
                | some tail => s.setNextMem tail (some node)
                | none =>
                    { s with
                      memPoolHead := some node
                      memPoolTail := some node }
              -- `mem_pool_tail` stays where it is
              recycleTainted fuel { s with
                poolSize := s.poolSize + 1
                taintedMemPoolHead := s.nextMem node }

/-- The node just allocated becomes the pool or is linked behind
`mem_pool_tail`. -/
def linkFresh (s : Server) (node : Nat) : Option Server :=
  if s.poolSize = 0 then
    some { s with memPoolHead := some node, memPoolTail := some node }
  else
    s.memPoolTail.map fun tail =>
      { s.setNextMem tail (some node) with memPoolTail := some node }

/-- One round of the loop that fills the pool: allocate, link and register a
node. -/
def growPool (regMr : Nat → Option IbvMr) (s : Server) : Option Server := do
  let linked ← { s with mallocs := s.mallocs + 1 }.linkFresh s.mallocs
  let server ← regMr s.mallocs
  return {
    linked.updateNode s.mallocs fun _ => ⟨some server, Memory.zero, none⟩ with
    poolSize := linked.poolSize + 1 }

/-- `while (pool_size < MIN_POOL_NODES)`, for at most `rounds` rounds. -/
def fillPool (regMr : Nat → Option IbvMr) : Nat → Server → Option Server
  | 0, s => some s
  | rounds + 1, s =>
      if s.poolSize < minPoolNodes then
        (s.growPool regMr).bind (fillPool regMr rounds)
      else some s

/-- `maintain_pool`, where it returns 0.  The walk over the tainted list does
not end if it takes more rounds than there are nodes; each round of the
second loop adds one to `pool_size`. -/
def maintainPool (regMr : Nat → Option IbvMr) (s : Server) :
    Option Server := do
  let s ← recycleTainted (s.mallocs + 1) s
  fillPool regMr (minPoolNodes - s.poolSize).toNat s

/-! ## Teardown -/

/-- Deregister the nodes from `start` on, in order. -/
def deregisterChain (s : Server) : Nat → Option Nat → Option (List Nat)
  | _, none => some []
  | 0, some _ => none
  | fuel + 1, some node => do
      let _ ← (s.nodes node).rndvMr
      let rest ← deregisterChain s fuel (s.nextMem node)
      return node :: rest

def deregisterEntries (s : Server) : List KvEntry → Option (List Nat)
  | [] => some []
  | entry :: entries =>
      match entry.largeValMemInfo with
      | none => deregisterEntries s entries
      | some node => do
          let _ ← (s.nodes node).rndvMr
          let rest ← deregisterEntries s entries
          return node :: rest

/-- `clear_server_data`, where every `ibv_dereg_mr` succeeds: the nodes whose
`rndv_mr` it deregisters, in order. -/
def clearServerData (s : Server) : Option (List Nat) := do
  let pool ← s.deregisterChain s.mallocs s.memPoolHead
  let tainted ← s.deregisterChain s.mallocs s.taintedMemPoolHead
  let entries ← s.deregisterEntries s.entries
  return pool ++ tainted ++ entries

/-! ## Runs -/

/-- The pool before the first request. -/
def start (regMr : Nat → Option IbvMr) : Option Server :=
  maintainPool regMr init

/-- One round of `pp_wait_completions`: a request is handled and the pool
maintained. -/
def serve (regMr : Nat → Option IbvMr) (s : Server) (request : Packet) :
    Option (Server × Option (Packet × Nat)) := do
  let (s, reply) ← s.handleServerPacketsOnly request
  let s ← maintainPool regMr s
  return (s, reply)

/-- The last round: `CLOSE_CONNECTION` is handled and the data is cleared. -/
def close (s : Server) : Option (List Nat) := do
  let (s, _) ← s.handleServerPacketsOnly (.closeConnection 1)
  s.clearServerData

end Server

/-- The requests that a client sends to a server while it is open. -/
inductive Request where
  | eagerGet (key : CString)
  | eagerSet (key : CString) (value : List UInt8)
  | rendezvousSet (valueLength : Nat) (key : CString)
  deriving DecidableEq

namespace Request

def packet : Request → Packet
  | eagerGet key => .eagerGetRequest key
  | eagerSet key value => .eagerSetRequest key value
  | rendezvousSet valueLength key => .rendezvousSetRequest valueLength key

end Request

namespace Server

/-- Serve requests one after the other, collecting the replies. -/
def serveAll (regMr : Nat → Option IbvMr) :
    Server → List Request →
      Option (Server × List (Option (Packet × Nat)))
  | s, [] => some (s, [])
  | s, request :: requests => do
      let (s, reply) ← s.serve regMr request.packet
      let (s, replies) ← serveAll regMr s requests
      return (s, reply :: replies)

/-- A server from its start, after it has served some requests. -/
def session (regMr : Nat → Option IbvMr) (requests : List Request) :
    Option (Server × List (Option (Packet × Nat))) := do
  let s ← start regMr
  serveAll regMr s requests

end Server

end RdmaKv
