import RdmaKv.Ex4.Client
import RdmaKv.Ex4.Host

/-!
# A client, its servers and the index server

One client is connected to every server and to the index server.  A message
that was sent is acknowledged at once and waits in its link until the peer
handles it; messages arrive in order.  Between the client's operations any
server may handle its next message or finish `maintain_pool`.

An RDMA operation acts on the buffer that was registered under its address
and key.  One that leaves that buffer or its own local region transfers
nothing and breaks the connection, as does a message that is larger than
`ctx->buf`; everything posted on a broken connection fails.
-/

namespace RdmaKv

open ByteMemory Interaction

/-! ## `kv_indexer.c` -/

def hashKey (key : CString) : UInt64 :=
  key.chars.foldl (fun hash c => (hash <<< 5) + hash + c.toUInt64) 5381

/-- The server that `FIND` selects. -/
def selectServer (numOfServers : Nat) (key : CString) : Nat :=
  (hashKey key).toUInt32.toNat % numOfServers

/-- `case FIND` of `handle_server_packets_only` of `kv_indexer.c`: the new
`ctx->buf` and the reply.  No other request is sent to the index server. -/
def locate (buf : Memory) (message : Message) : Option (Memory × Message) :=
  match Packet.read (message.deliver buf) with
  | some (.find numOfServers key) =>
      if numOfServers = 0 then none
      else
        let buf := (Packet.location (selectServer numOfServers key)).store
          (message.deliver buf)
        some (buf, ⟨buf, sizeofPacket⟩)
  | _ => none

/-! ## Links -/

/-- A connection: what was sent to the peer and to the client and has not been
handled yet. -/
structure Link where
  toServer : List Message
  toClient : List Message
  broken : Bool

/-- The peer has handled its first message and sends a reply, if any. -/
def Link.handled (link : Link) (rest : List Message)
    (reply : Option Message) : Link :=
  match reply with
  | none => { link with toServer := rest }
  | some reply =>
      if reply.size ≤ eagerProtocolLimit then
        { link with toServer := rest, toClient := link.toClient ++ [reply] }
      else { link with toServer := rest, broken := true }

@[simp]
theorem Link.toServer_handled (link : Link) (rest : List Message)
    (reply : Option Message) : (link.handled rest reply).toServer = rest := by
  unfold Link.handled
  split
  · rfl
  · split <;> rfl

/-- The node whose buffer is registered under an address and key. -/
def Server.nodeAt (s : Server) (remote : IbvMr) : Option Nat :=
  (List.range s.mallocs).find? fun node =>
    decide ((s.nodes node).rndvMr = some remote)

structure Cluster where
  links : Conn → Link
  hosts : Nat → Host
  indexerBuf : Memory

namespace Cluster

def setLink (c : Cluster) (conn : Conn) (link : Link) : Cluster :=
  { c with
    links := fun other => if other = conn then link else c.links other }

def setHost (c : Cluster) (id : Nat) (host : Host) : Cluster :=
  { c with hosts := fun other => if other = id then host else c.hosts other }

/-- The connection breaks. -/
def breakLink (c : Cluster) (conn : Conn) : Cluster :=
  c.setLink conn { c.links conn with broken := true }

/-! ## Steps of the servers -/

/-- A server handles its next message or finishes `maintain_pool`, or the
index server handles its next message. -/
inductive Evolve (regMr : Nat → Nat → Option IbvMr) :
    Cluster → Cluster → Prop
  | receive {c : Cluster} {id : Nat} {message : Message}
      {rest : List Message} {host : Host} {reply : Option Message}
      (idle : (c.hosts id).maintaining = false)
      (arrived : (c.links (.server id)).toServer = message :: rest)
      (received : (c.hosts id).receive message = some (host, reply)) :
      Evolve regMr c ((c.setHost id host).setLink (.server id)
        ((c.links (.server id)).handled rest reply))
  | maintain {c : Cluster} {id : Nat} {host : Host}
      (busy : (c.hosts id).maintaining = true)
      (maintained : (c.hosts id).maintain (regMr id) = some host) :
      Evolve regMr c (c.setHost id host)
  | locate {c : Cluster} {message reply : Message} {rest : List Message}
      {buf : Memory}
      (arrived : (c.links .indexer).toServer = message :: rest)
      (located : RdmaKv.locate c.indexerBuf message = some (buf, reply)) :
      Evolve regMr c ({ c with indexerBuf := buf }.setLink .indexer
        ((c.links .indexer).handled rest (some reply)))

/-! ## Completions -/

def access (c : Cluster) (server region length : Nat) (remote : IbvMr) :
    Option Nat :=
  if (c.links (.server server)).broken = false ∧ length ≤ maxTestSize ∧
      length ≤ region then
    (c.hosts server).state.nodeAt remote
  else none

def writeBuffer (c : Cluster) (server node length : Nat) (source : Memory) :
    Cluster :=
  let host := c.hosts server
  c.setHost server { host with
    state := host.state.setRndvBuffer node
      ((host.state.nodes node).rndvBuffer.copy 0 length source) }

/-- How an operation completes, unless it has to wait. -/
def complete (c : Cluster) : (op : Op) → Option (Answer op × Cluster)
  | .send conn message =>
      let link := c.links conn
      if link.broken = false ∧ message.size ≤ eagerProtocolLimit then
        some ((true : Bool), c.setLink conn
          { link with toServer := link.toServer ++ [message] })
      else some ((false : Bool), c.breakLink conn)
  | .recv conn =>
      let link := c.links conn
      match link.toClient with
      | message :: rest =>
          some (some message, c.setLink conn { link with toClient := rest })
      | [] => if link.broken then some ((none : Option Message), c) else none
  | .rdmaWrite server _ region source length remote =>
      match c.access server region length remote with
      | some node =>
          some ((true : Bool), c.writeBuffer server node length source)
      | none => some ((false : Bool), c.breakLink (.server server))
  | .rdmaRead server _ region length remote =>
      match c.access server region length remote with
      | some node => some (some ((c.hosts server).state.nodes node).rndvBuffer, c)
      | none => some ((none : Option Memory), c.breakLink (.server server))

/-- What a completion does, outcome by outcome. -/
inductive Completes (c : Cluster) : (op : Op) → Answer op → Cluster → Prop
  | sends {conn : Conn} {message : Message}
      (intact : (c.links conn).broken = false)
      (fits : message.size ≤ eagerProtocolLimit) :
      Completes c (.send conn message) (true : Bool) (c.setLink conn
        { c.links conn with
          toServer := (c.links conn).toServer ++ [message] })
  | sendFails {conn : Conn} {message : Message}
      (fails : (c.links conn).broken = true ∨
        eagerProtocolLimit < message.size) :
      Completes c (.send conn message) (false : Bool) (c.breakLink conn)
  | receives {conn : Conn} {message : Message} {rest : List Message}
      (arrived : (c.links conn).toClient = message :: rest) :
      Completes c (.recv conn) (some message : Option Message)
        (c.setLink conn { c.links conn with toClient := rest })
  | receiveFails {conn : Conn} (nothing : (c.links conn).toClient = [])
      (broken : (c.links conn).broken = true) :
      Completes c (.recv conn) (none : Option Message) c
  | writes {server region length node : Nat} {key : CString} {source : Memory}
      {remote : IbvMr}
      (granted : c.access server region length remote = some node) :
      Completes c (.rdmaWrite server key region source length remote)
        (true : Bool) (c.writeBuffer server node length source)
  | writeFails {server region length : Nat} {key : CString} {source : Memory}
      {remote : IbvMr}
      (refused : c.access server region length remote = none) :
      Completes c (.rdmaWrite server key region source length remote)
        (false : Bool) (c.breakLink (.server server))
  | reads {server region length node : Nat} {key : CString} {remote : IbvMr}
      (granted : c.access server region length remote = some node) :
      Completes c (.rdmaRead server key region length remote)
        (some ((c.hosts server).state.nodes node).rndvBuffer : Option Memory) c
  | readFails {server region length : Nat} {key : CString} {remote : IbvMr}
      (refused : c.access server region length remote = none) :
      Completes c (.rdmaRead server key region length remote)
        (none : Option Memory) (c.breakLink (.server server))

theorem completes_of_complete {c c' : Cluster} {op : Op} {given : Answer op}
    (step : c.complete op = some (given, c')) : Completes c op given c' := by
  cases op with
  | send conn message =>
      simp only [complete] at step
      split at step
      · rename_i goes
        obtain ⟨rfl, rfl⟩ := Prod.mk.inj (Option.some.inj step)
        exact .sends goes.1 goes.2
      · rename_i stays
        obtain ⟨rfl, rfl⟩ := Prod.mk.inj (Option.some.inj step)
        refine .sendFails ?_
        by_cases broken : (c.links conn).broken = true
        · exact Or.inl broken
        · exact Or.inr (not_le.mp fun fits =>
            stays ⟨Bool.eq_false_iff.mpr broken, fits⟩)
  | recv conn =>
      simp only [complete] at step
      split at step
      · rename_i arrived
        obtain ⟨rfl, rfl⟩ := Prod.mk.inj (Option.some.inj step)
        exact .receives arrived
      · rename_i nothing
        split at step
        · rename_i broken
          obtain ⟨rfl, rfl⟩ := Prod.mk.inj (Option.some.inj step)
          exact .receiveFails nothing broken
        · exact absurd step (by simp)
  | rdmaWrite server key region source length remote =>
      simp only [complete] at step
      split at step
      · rename_i granted
        obtain ⟨rfl, rfl⟩ := Prod.mk.inj (Option.some.inj step)
        exact .writes granted
      · rename_i refused
        obtain ⟨rfl, rfl⟩ := Prod.mk.inj (Option.some.inj step)
        exact .writeFails refused
  | rdmaRead server key region length remote =>
      simp only [complete] at step
      split at step
      · rename_i granted
        obtain ⟨rfl, rfl⟩ := Prod.mk.inj (Option.some.inj step)
        exact .reads granted
      · rename_i refused
        obtain ⟨rfl, rfl⟩ := Prod.mk.inj (Option.some.inj step)
        exact .readFails refused

def environment (regMr : Nat → Nat → Option IbvMr) :
    Environment Op Answer where
  State := Cluster
  evolve := Evolve regMr
  answer := fun op c answer c' => c.complete op = some (answer, c')

/-- The servers have returned from their first `maintain_pool` and nothing was
sent yet. -/
structure Initial (regMr : Nat → Nat → Option IbvMr) (c : Cluster) :
    Prop where
  started : ∀ id, Server.start (regMr id) = some (c.hosts id).state
  idle : ∀ id, (c.hosts id).maintaining = false
  links : ∀ conn, c.links conn = ⟨[], [], false⟩

end Cluster

/-- What `ibv_reg_mr` returns on one server: no two live registrations have
the same address and key. -/
def DistinctMrs (regMr : Nat → Option IbvMr) : Prop :=
  ∀ first second server, regMr first = some server →
    regMr second = some server → first = second

end RdmaKv
