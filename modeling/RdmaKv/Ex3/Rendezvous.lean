import RdmaKv.Ex3.EagerStore
import RdmaKv.Ex3.History

/-!
# The rendezvous protocol of `kv_template.c`

`kv_set` and `kv_get` while `use_rndv_protocol` is true, with the server's
`RENDEZVOUS_SET_REQUEST` and its pool.  A call is over when the completions it
waits for are there, so the calls are functions on the state of the client and
the server.  The address and the key of a registered buffer are given by the
number of its node.
-/

namespace RdmaKv.Ex3

open ByteMemory

def eagerProtocolLimit : Nat := 2 ^ 12

def maxTestSize : Nat := 10 * eagerProtocolLimit

def minPoolNodes : Nat := 10

def unsignedRange : Nat := 2 ^ 32

/-! ## The server -/

/-- The buffers of all nodes that were allocated, the pool, its counter and the
list of nodes that were handed out. -/
structure RndvServer where
  buffers : Nat → Memory
  mallocs : Nat
  rndvPool : List Nat
  rndvPoolNodesCounter : Nat
  rndvNodes : List Nat

namespace RndvServer

/-- A cleared and registered node is appended to the pool. -/
def growPool (s : RndvServer) : RndvServer :=
  { s with
    buffers := fun node =>
      if node = s.mallocs then Memory.zero else s.buffers node
    mallocs := s.mallocs + 1
    rndvPool := s.rndvPool ++ [s.mallocs]
    rndvPoolNodesCounter := s.rndvPoolNodesCounter + 1 }

def fillPool (s : RndvServer) : RndvServer :=
  growPool^[minPoolNodes - s.rndvPoolNodesCounter] s

def init : RndvServer := fillPool ⟨fun _ => Memory.zero, 0, [], 0, []⟩

/-- `case RENDEZVOUS_SET_REQUEST` of `handle_server_packets_only`: the node
that the response names. -/
def setRequest (s : RndvServer) (key : CString) : Option (Nat × RndvServer) :=
  match s.rndvPool with
  | [] => none
  | node :: rest =>
      some (node, { s with
        buffers := fun other =>
          if other = node then
            (s.buffers node).copy 0 key.length key.memory
          else s.buffers other
        rndvPool := rest
        rndvPoolNodesCounter := s.rndvPoolNodesCounter - 1
        rndvNodes := s.rndvNodes ++ [node] })

def write (s : RndvServer) (node length : Nat) (source : Memory) : RndvServer :=
  { s with
    buffers := fun other =>
      if other = node then (s.buffers node).copy 0 length source
      else s.buffers other }

end RndvServer

/-! ## The client -/

structure CacheNode where
  srvNode : Nat
  valLen : Nat
  key : CString

/-- `ctx->remote_buf` and the list between `cache_node_head` and
`cache_node_tail`. -/
structure RndvClient where
  remoteBuf : Memory
  cacheNodes : List CacheNode

structure System where
  client : RndvClient
  server : RndvServer

namespace System

def init (remoteBuf : Memory) : System := ⟨⟨remoteBuf, []⟩, .init⟩

def lookup (s : System) (key : CString) : Option CacheNode :=
  s.client.cacheNodes.find? fun node => decide (node.key = key)

/-- `kv_set`.  It fails where an RDMA operation leaves a buffer, and where the
assertion after a `RENDEZVOUS_SET_REQUEST` that is too large fails. -/
def kvSet (key value : CString) (s : System) : Option System :=
  match s.lookup key with
  | some node =>
      let remoteBuf := s.client.remoteBuf.copy 0 (value.length + 1) value.memory
      if value.length + 1 ≤ maxTestSize then
        some ⟨{ s.client with remoteBuf := remoteBuf },
          s.server.write node.srvNode (value.length + 1) remoteBuf⟩
      else none
  | none => do
      let keyLength := key.length % unsignedRange
      -- the packet ends behind the key, so it is inside if it is small enough
      if keyLength + 1 + sizeofPacket ≤ eagerProtocolLimit then
        let (node, server) ← s.server.setRequest (key.take keyLength)
        let server := server.fillPool
        let cacheNode : CacheNode :=
          ⟨node, value.length % unsignedRange, key.take keyLength⟩
        let remoteBuf :=
          (s.client.remoteBuf.copy 0 value.length value.memory).copy
            value.length 1 Memory.zero
        if value.length + 1 ≤ maxTestSize then
          return ⟨⟨remoteBuf, s.client.cacheNodes ++ [cacheNode]⟩,
            server.write node value.length remoteBuf⟩
        else none
      else none

/-- `kv_get`: the bytes of `*value`.  For a key that is not cached it sends
`RENDEZVOUS_GET_REQUEST`, to which the server does not reply. -/
def kvGet (key : CString) (s : System) : Option (List UInt8 × System) :=
  match s.lookup key with
  | some node =>
      if node.valLen + 1 ≤ maxTestSize then
        let remoteBuf := s.client.remoteBuf.copy 0 node.valLen
          (s.server.buffers node.srvNode)
        some (remoteBuf.strncpy (node.valLen + 1),
          { s with client := { s.client with remoteBuf := remoteBuf } })
      else none
  | none => none

end System

/-! ## Calls -/

inductive RndvCall where
  | set (key value : CString)
  | get (key : CString)
  deriving DecidableEq

namespace RndvCall

def key : RndvCall → CString
  | set key _ => key
  | get key => key

def perform : RndvCall → System → Option System
  | set key value, s => s.kvSet key value
  | get key, s => (s.kvGet key).map Prod.snd

/-- The state after a sequence of calls, if all of them return. -/
def performAll (calls : List RndvCall) (s : System) : Option System :=
  calls.foldlM (fun s call => call.perform s) s

end RndvCall

end RdmaKv.Ex3
