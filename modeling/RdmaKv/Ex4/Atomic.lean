import RdmaKv.Ex4.Cluster

/-!
# Servers that act at once

What a client may rely on: a server is a map from keys to values and to
registered buffers, an eager set takes effect when it is sent, and every other
request when its reply is received.  This holds as long as the client posts
RDMA operations only for a key whose buffer it addresses, and has no reply
outstanding then.
-/

namespace RdmaKv

open ByteMemory Interaction

inductive Stored where
  | eager (value : List UInt8)
  | rendezvous (valueLength : Nat) (remote : IbvMr)
  deriving DecidableEq

/-- A server as a map, and what its buffers contain. -/
structure Store where
  find : CString → Option Stored
  region : IbvMr → Memory

namespace Store

def put (store : Store) (key : CString) (stored : Stored) : Store :=
  { store with
    find := fun other => if other = key then some stored else store.find other }

def setRegion (store : Store) (remote : IbvMr) (memory : Memory) : Store :=
  { store with
    region := fun other =>
      if other = remote then memory else store.region other }

@[simp]
theorem find_put (store : Store) (key other : CString) (stored : Stored) :
    (store.put key stored).find other =
      if other = key then some stored else store.find other := rfl

@[simp]
theorem region_put (store : Store) (key : CString) (stored : Stored) :
    (store.put key stored).region = store.region := rfl

@[simp]
theorem find_setRegion (store : Store) (remote : IbvMr) (memory : Memory) :
    (store.setRegion remote memory).find = store.find := rfl

@[simp]
theorem region_setRegion (store : Store) (remote other : IbvMr)
    (memory : Memory) :
    (store.setRegion remote memory).region other =
      if other = remote then memory else store.region other := rfl

/-- The reply to a request, and the store after it.  Of the reply for a
missing key only the type is described. -/
inductive Replies (store : Store) : Request → Message → Store → Prop
  | missing {key : CString} {reply : Message}
      (absent : store.find key = none)
      (type : reply.bytes.loadLE 0 4 = PacketType.eagerGetResponse.code)
      (covers : 4 ≤ reply.size) :
      Replies store (.eagerGet key) reply store
  | eager {key : CString} {value : List UInt8} {reply : Message}
      (present : store.find key = some (.eager value))
      (carries : reply.Carries (.eagerGetResponse value))
      (fits : sizeofPacket + value.length ≤ eagerProtocolLimit) :
      Replies store (.eagerGet key) reply store
  | rendezvous {key : CString} {valueLength : Nat} {remote : IbvMr}
      {reply : Message}
      (present : store.find key = some (.rendezvous valueLength remote))
      (carries : reply.Carries (.rendezvousGetResponse valueLength remote)) :
      Replies store (.eagerGet key) reply store
  | kept {key : CString} {valueLength old : Nat} {remote : IbvMr}
      {reply : Message}
      (present : store.find key = some (.rendezvous old remote))
      (carries : reply.Carries (.rendezvousSetResponse remote)) :
      Replies store (.rendezvousSet valueLength key) reply
        (store.put key (.rendezvous valueLength remote))
  | assigned {key : CString} {valueLength : Nat} {remote : IbvMr}
      {reply : Message}
      (absent : ∀ old other, store.find key ≠ some (.rendezvous old other))
      (fresh : ∀ other length,
        store.find other ≠ some (.rendezvous length remote))
      (carries : reply.Carries (.rendezvousSetResponse remote)) :
      Replies store (.rendezvousSet valueLength key) reply
        ((store.put key (.rendezvous valueLength remote)).setRegion remote
          Memory.zero)

theorem Replies.of_get {store after : Store} {key : CString} {reply : Message}
    (replied : store.Replies (.eagerGet key) reply after) : after = store := by
  cases replied <;> rfl

end Store

/-- A server behind a connection, with the request whose reply is
outstanding. -/
structure Peer where
  store : Store
  waiting : Option Request
  broken : Bool

structure Atomic where
  peers : Nat → Peer
  indexerWaiting : Option (Nat × CString)
  indexerBroken : Bool

namespace Atomic

def setPeer (a : Atomic) (id : Nat) (peer : Peer) : Atomic :=
  { a with peers := fun other => if other = id then peer else a.peers other }

@[simp]
theorem peers_setPeer (a : Atomic) (id : Nat) (peer : Peer) :
    (a.setPeer id peer).peers id = peer := if_pos rfl

theorem setPeer_setPeer (a : Atomic) (id : Nat) (first second : Peer) :
    (a.setPeer id first).setPeer id second = a.setPeer id second := by
  unfold setPeer
  congr 1
  funext other
  by_cases same : other = id <;> simp [same]

theorem setPeer_self (a : Atomic) (id : Nat) : a.setPeer id (a.peers id) = a := by
  unfold setPeer
  congr 1
  funext other
  by_cases same : other = id <;> simp [same]

def breakPeer (a : Atomic) (id : Nat) : Atomic :=
  a.setPeer id { a.peers id with broken := true }

inductive Answers : (op : Op) → Atomic → Answer op → Atomic → Prop
  | sendFails {a : Atomic} {id : Nat} {message : Message}
      (fails : (a.peers id).broken = true ∨
        eagerProtocolLimit < message.size) :
      Answers (.send (.server id) message) a (false : Bool) (a.breakPeer id)
  | sets {a : Atomic} {id : Nat} {message : Message} {key : CString}
      {value : List UInt8} (intact : (a.peers id).broken = false)
      (sent : (Request.eagerSet key value).SentAs message) :
      Answers (.send (.server id) message) a (true : Bool)
        (a.setPeer id { a.peers id with
          store := (a.peers id).store.put key (.eager value) })
  | asks {a : Atomic} {id : Nat} {message : Message} {request : Request}
      (intact : (a.peers id).broken = false)
      (sent : request.SentAs message)
      (answered : ∀ key value, request ≠ .eagerSet key value) :
      Answers (.send (.server id) message) a (true : Bool)
        (a.setPeer id { a.peers id with waiting := some request })
  | replies {a : Atomic} {id : Nat} {request : Request} {reply : Message}
      {store : Store} (waiting : (a.peers id).waiting = some request)
      (replied : (a.peers id).store.Replies request reply store) :
      Answers (.recv (.server id)) a (some reply)
        (a.setPeer id { a.peers id with store := store, waiting := none })
  | writes {a : Atomic} {id : Nat} {key : CString} {region length : Nat}
      {source : Memory} {remote : IbvMr}
      (intact : (a.peers id).broken = false)
      (inside : length ≤ maxTestSize ∧ length ≤ region) :
      Answers (.rdmaWrite id key region source length remote) a (true : Bool)
        (a.setPeer id { a.peers id with
          store := (a.peers id).store.setRegion remote
            (((a.peers id).store.region remote).copy 0 length source) })
  | writeFails {a : Atomic} {id : Nat} {key : CString} {region length : Nat}
      {source : Memory} {remote : IbvMr}
      (fails : (a.peers id).broken = true ∨
        ¬ (length ≤ maxTestSize ∧ length ≤ region)) :
      Answers (.rdmaWrite id key region source length remote) a (false : Bool)
        (a.breakPeer id)
  | reads {a : Atomic} {id : Nat} {key : CString} {region length : Nat}
      {remote : IbvMr} (intact : (a.peers id).broken = false)
      (inside : length ≤ maxTestSize ∧ length ≤ region) :
      Answers (.rdmaRead id key region length remote) a
        (some ((a.peers id).store.region remote)) a
  | readFails {a : Atomic} {id : Nat} {key : CString} {region length : Nat}
      {remote : IbvMr}
      (fails : (a.peers id).broken = true ∨
        ¬ (length ≤ maxTestSize ∧ length ≤ region)) :
      Answers (.rdmaRead id key region length remote) a (none : Option Memory)
        (a.breakPeer id)
  | findFails {a : Atomic} {message : Message}
      (fails : a.indexerBroken = true ∨ eagerProtocolLimit < message.size) :
      Answers (.send .indexer message) a (false : Bool)
        { a with indexerBroken := true }
  | finds {a : Atomic} {message : Message} {numOfServers : Nat}
      {key : CString} (intact : a.indexerBroken = false)
      (positive : 0 < numOfServers)
      (carries : message.Carries (.find numOfServers key))
      (fits : message.size ≤ eagerProtocolLimit) :
      Answers (.send .indexer message) a (true : Bool)
        { a with indexerWaiting := some (numOfServers, key) }
  | located {a : Atomic} {reply : Message} {numOfServers : Nat}
      {key : CString} (waiting : a.indexerWaiting = some (numOfServers, key))
      (carries : reply.Carries
        (.location (selectServer numOfServers key))) :
      Answers (.recv .indexer) a (some reply)
        { a with indexerWaiting := none }

def environment : Environment Op Answer where
  State := Atomic
  evolve := fun _ _ => False
  answer := Answers

/-- The buffer that an RDMA operation addresses belongs to the key that it is
posted for, and no reply is outstanding. -/
def Addresses (a : Atomic) (id : Nat) (key : CString) (remote : IbvMr) :
    Prop :=
  (a.peers id).waiting = none ∧
    ∃ valueLength,
      (a.peers id).store.find key = some (.rendezvous valueLength remote)

/-- The operation may be posted.  With `bounded`, RDMA operations also stay in
the buffer and in the local region. -/
def Ready (bounded : Prop) : Op → Atomic → Prop
  | .send (.server id) message, a =>
      (a.peers id).waiting = none ∧
        (message.size ≤ eagerProtocolLimit →
          ∃ request : Request, request.SentAs message)
  | .send .indexer message, a =>
      a.indexerWaiting = none ∧
        (message.size ≤ eagerProtocolLimit →
          ∃ numOfServers key, 0 < numOfServers ∧
            message.Carries (.find numOfServers key))
  | .recv (.server id), a => (a.peers id).waiting ≠ none
  | .recv .indexer, a => a.indexerWaiting ≠ none
  | .rdmaWrite id key region _ length remote, a =>
      a.Addresses id key remote ∧
        (bounded → length ≤ maxTestSize ∧ length ≤ region)
  | .rdmaRead id key region length remote, a =>
      a.Addresses id key remote ∧
        (bounded → length ≤ maxTestSize ∧ length ≤ region)

end Atomic

end RdmaKv
