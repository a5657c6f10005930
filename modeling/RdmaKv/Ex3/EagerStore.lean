import RdmaKv.Library.ByteMemory
import RdmaKv.Library.LinkedChain

/-!
# The eager store of `kv_template.c`

The list of `struct KV_NODE` and what `handle_server_packets_only` does with it
for `EAGER_SET_REQUEST` and `EAGER_GET_REQUEST`.  The heap is explicit: a
freed node is gone, and an access to it is a crash, as is one past the end of
a block.  `malloc` returns any address that is free, and the contents of the
block are arbitrary.
-/

namespace RdmaKv.Ex3

open ByteMemory

def sizeofPacket : Nat := 32

/-- `sizeof(response_packet)`, which is a pointer. -/
def sizeofPointer : Nat := 8

/-- `struct KV_NODE` in a block with `room` bytes from `key_and_value` on. -/
structure KvNode where
  next : Option Nat
  prev : Option Nat
  valLen : Nat
  room : Nat
  keyAndValue : Memory

/-- What `malloc` returns: an address and what the block holds. -/
structure Block where
  address : Nat
  next : Option Nat
  prev : Option Nat
  valLen : Nat
  bytes : Memory

/-- The heap and the globals `kv_head`, `kv_tail` and `kv_nodes_counter`. -/
structure Server where
  nodes : Nat → Option KvNode
  kvHead : Option Nat
  kvTail : Option Nat
  kvNodesCounter : Nat

inductive EagerRequest where
  | set (key : CString) (value : List UInt8)
  | get (key : CString)
  deriving DecidableEq

/-- An `EAGER_GET_RESPONSE`: its fields, with what is written from `value` on,
and its size. -/
structure EagerGetResponse where
  valueLength : Nat
  value : List UInt8
  responseSize : Nat
  deriving DecidableEq

/-- `key_and_value` of a request: the key, its terminator and the value. -/
def keyAndValueOf (key : CString) (value : List UInt8) : Memory :=
  (Memory.zero.copy 0 (key.length + 1) key.memory).copy (key.length + 1)
    value.length (Memory.ofList value)

/-- The string at the start of `key_and_value`. -/
def KvNode.key (node : KvNode) : Option CString :=
  node.keyAndValue.string? 0 node.room

namespace Server

def init : Server := ⟨fun _ => none, none, none, 0⟩

/-- Assign through a pointer, which must be to a node that is not freed. -/
def modify (s : Server) (address : Nat) (change : KvNode → KvNode) :
    Option Server :=
  (s.nodes address).map fun node =>
    { s with
      nodes := fun other =>
        if other = address then some (change node) else s.nodes other }

/-- Assign through a pointer that may be NULL. -/
def modify? (s : Server) (pointer : Option Nat)
    (change : KvNode → KvNode) : Option Server :=
  match pointer with
  | none => some s
  | some address => s.modify address change

def free (s : Server) (address : Nat) : Server :=
  { s with
    nodes := fun other => if other = address then none else s.nodes other }

/-- `malloc` of a node for a key and a value, with the copy of both. -/
def allocate (s : Server) (block : Block) (key : CString)
    (value : List UInt8) : Server :=
  { s with
    nodes := fun other =>
      if other = block.address then
        some ⟨block.next, block.prev, block.valLen,
          key.length + value.length + 6,
          block.bytes.copy 0 (key.length + 1 + value.length)
            (keyAndValueOf key value)⟩
      else s.nodes other }

/-- The search of both handlers, for at most `fuel` nodes. -/
def findNode (s : Server) (key : CString) :
    Nat → Option Nat → Option (Option Nat)
  | _, none => some none
  | 0, some _ => none
  | fuel + 1, some address => do
      let node ← s.nodes address
      let nodeKey ← node.key
      if nodeKey = key then some (some address)
      else s.findNode key fuel node.next

/-- `case EAGER_GET_REQUEST` of `handle_server_packets_only`. -/
def eagerGet (s : Server) (fuel : Nat) (key : CString) :
    Option EagerGetResponse := do
  match ← s.findNode key fuel s.kvHead with
  | some address =>
      let node ← s.nodes address
      if key.length + 1 + node.valLen ≤ node.room then
        some ⟨node.valLen,
          node.keyAndValue.slice (key.length + 1) node.valLen ++ [0],
          sizeofPacket + node.valLen⟩
      else none
  | none => some ⟨1, [0], sizeofPointer⟩

/-- `case EAGER_SET_REQUEST` for a key that is found: its node is freed and
another one takes its place.  The terminator is written through `kv_head`. -/
def replaceNode (s : Server) (block : Block) (address : Nat) (key : CString)
    (value : List UInt8) : Option Server := do
  let node ← s.nodes address
  let s := (s.free address).allocate block key value
  let terminator := key.length + 1 + value.length
  let head ← s.kvHead
  let headNode ← s.nodes head
  if terminator < headNode.room then
    let s ← s.modify head fun node =>
      { node with
        keyAndValue := node.keyAndValue.copy terminator 1 Memory.zero }
    let s ← s.modify? node.prev fun node =>
      { node with next := some block.address }
    let s ← s.modify block.address fun fresh =>
      { fresh with prev := node.prev, next := node.next }
    s.modify? node.next fun node => { node with prev := some block.address }
  else none

def appendNode (s : Server) (block : Block) (key : CString)
    (value : List UInt8) : Option Server := do
  let s := s.allocate block key value
  let s ← s.modify block.address fun node =>
    { node with next := none, valLen := value.length, prev := s.kvTail }
  let s ← s.modify? s.kvTail fun node =>
    { node with next := some block.address }
  return { s with
    kvHead := if s.kvTail = none then some block.address else s.kvHead
    kvTail := some block.address
    kvNodesCounter := s.kvNodesCounter + 1 }

/-- `case EAGER_SET_REQUEST` of `handle_server_packets_only`. -/
def eagerSet (s : Server) (fuel : Nat) (block : Block) (key : CString)
    (value : List UInt8) : Option Server := do
  match ← s.findNode key fuel s.kvHead with
  | some address => s.replaceNode block address key value
  | none => s.appendNode block key value

/-- Both cases, with what `malloc` returns in the second one. -/
def handle (s : Server) (fuel : Nat) (block : Block) :
    EagerRequest → Option (Server × Option EagerGetResponse)
  | .set key value =>
      (s.eagerSet fuel block key value).map fun s => (s, none)
  | .get key => (s.eagerGet fuel key).map fun reply => (s, some reply)

def Handles (s : Server) (block : Block) (request : EagerRequest)
    (s' : Server) (reply : Option EagerGetResponse) : Prop :=
  ∃ fuel, s.handle fuel block request = some (s', reply)

/-- `malloc` may return this block: its address is free, or it is that of the
node that the handler has just freed. -/
def MayAllocate (s : Server) (block : Block) : EagerRequest → Prop
  | .set key _ => s.nodes block.address = none ∨
      ∃ fuel, s.findNode key fuel s.kvHead = some (some block.address)
  | .get _ => True

inductive Reached : List EagerRequest → Server → Prop
  | start : Reached [] init
  | handled {past : List EagerRequest} {s s' : Server} {block : Block}
      {request : EagerRequest} {reply : Option EagerGetResponse}
      (reached : Reached past s) (may : s.MayAllocate block request)
      (handles : s.Handles block request s' reply) :
      Reached (past ++ [request]) s'

end Server

end RdmaKv.Ex3
