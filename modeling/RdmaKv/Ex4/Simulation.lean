import RdmaKv.Ex4.Represents

/-!
# The cluster behaves like servers that act at once

The eager sets that a server has not handled yet are what its map is behind
the one that the client sees; a request with a reply is answered from the map
that all earlier requests have led to.
-/

namespace RdmaKv

open ByteMemory Interaction Relation

/-! ## Eager sets in flight -/

/-- Eager sets, in order. -/
def Store.putAll (store : Store) (pending : List (CString × List UInt8)) :
    Store :=
  pending.foldl (fun store (key, value) => store.put key (.eager value)) store

namespace Store

variable (store : Store) (pending : List (CString × List UInt8))

@[simp]
theorem putAll_nil : store.putAll [] = store := rfl

@[simp]
theorem putAll_cons (key : CString) (value : List UInt8) :
    store.putAll ((key, value) :: pending) =
      (store.put key (.eager value)).putAll pending := rfl

@[simp]
theorem putAll_append_singleton (key : CString) (value : List UInt8) :
    store.putAll (pending ++ [(key, value)]) =
      (store.putAll pending).put key (.eager value) := by
  simp [putAll]

@[simp]
theorem region_putAll : (store.putAll pending).region = store.region := by
  induction pending generalizing store with
  | nil => rfl
  | cons head rest inductionHypothesis =>
      exact inductionHypothesis (store.put head.1 (.eager head.2))

private theorem setRegion_putAll (remote : IbvMr) (memory : Memory) :
    (store.putAll pending).setRegion remote memory =
      (store.setRegion remote memory).putAll pending := by
  induction pending generalizing store with
  | nil => rfl
  | cons head rest inductionHypothesis =>
      exact inductionHypothesis (store.put head.1 (.eager head.2))

/-- A buffer that is seen behind eager sets is of none of their keys. -/
private theorem find_putAll {key : CString} {valueLength : Nat} {remote : IbvMr}
    (found : (store.putAll pending).find key =
      some (.rendezvous valueLength remote)) :
    store.find key = some (.rendezvous valueLength remote) ∧
      ∀ set ∈ pending, set.1 ≠ key := by
  induction pending generalizing store with
  | nil => exact ⟨found, fun set member => absurd member List.not_mem_nil⟩
  | cons head rest inductionHypothesis =>
      obtain ⟨found', others⟩ :=
        inductionHypothesis (store.put head.1 (.eager head.2)) found
      rw [find_put] at found'
      split at found'
      · exact absurd found' (by simp)
      · rename_i different
        refine ⟨found', fun set member => ?_⟩
        rcases List.mem_cons.mp member with rfl | later
        · exact Ne.symm different
        · exact others set later

end Store

/-- Every element of the right list has a related one in the left list. -/
private theorem forall₂_mem_right {α β : Type} {related : α → β → Prop}
    {left : List α} {right : List β} (all : List.Forall₂ related left right)
    {element : β} (member : element ∈ right) :
    ∃ other ∈ left, related other element := by
  induction all with
  | nil => exact absurd member List.not_mem_nil
  | cons first rest inductionHypothesis =>
      rcases List.mem_cons.mp member with rfl | later
      · exact ⟨_, List.mem_cons_self .., first⟩
      · obtain ⟨other, inside, here⟩ := inductionHypothesis later
        exact ⟨other, List.mem_cons_of_mem _ inside, here⟩

def toRequest : CString × List UInt8 → Request :=
  fun (key, value) => .eagerSet key value

/-! ## The relation -/

/-- What is under way between a client and a server: eager sets and at most
one request after them, or the reply to it. -/
inductive Flight (peer : Peer) (link : Link) (base : Store) : Prop
  | asked (pending : List (CString × List UInt8))
      (sent : List.Forall₂ Request.SentAs
        (pending.map toRequest ++ peer.waiting.toList) link.toServer)
      (nothing : link.toClient = [])
      (store : peer.store = base.putAll pending)
  | answered {request : Request} {reply : Message}
      (waiting : peer.waiting = some request)
      (empty : link.toServer = [])
      (arrived : link.toClient = [reply])
      (replied : peer.store.Replies request reply base)

structure PeerRel (regMr : Nat → Option IbvMr) (peer : Peer) (link : Link)
    (host : Host) (base : Store) : Prop where
  represents : Represents regMr base host.state
  handled : host.maintaining = true → Server.SoundHandled regMr host.state
  settled : host.maintaining = false → Server.Sound regMr host.state
  broken : link.broken = peer.broken
  intact : peer.waiting ≠ none → peer.broken = false
  answerable : ∀ key value, peer.waiting ≠ some (.eagerSet key value)
  flight : Flight peer link base

/-- What is under way between a client and the index server. -/
structure IndexerRel (waiting : Option (Nat × CString)) (broken : Bool)
    (link : Link) : Prop where
  state : link.broken = broken
  intact : waiting ≠ none → broken = false
  flight :
    (List.Forall₂ (fun (request : Nat × CString) message =>
        0 < request.1 ∧ message.Carries (.find request.1 request.2) ∧
          message.size ≤ eagerProtocolLimit) waiting.toList link.toServer ∧
      link.toClient = []) ∨
    ∃ request reply, waiting = some request ∧ link.toServer = [] ∧
      link.toClient = [reply] ∧
      reply.Carries (.location (selectServer request.1 request.2))

structure ClusterRel (regMr : Nat → Nat → Option IbvMr) (a : Atomic)
    (c : Cluster) : Prop where
  peers : ∀ id, ∃ base,
    PeerRel (regMr id) (a.peers id) (c.links (.server id)) (c.hosts id) base
  indexer : IndexerRel a.indexerWaiting a.indexerBroken (c.links .indexer)

variable {regMr : Nat → Nat → Option IbvMr} {a a' : Atomic} {c c' : Cluster}

/-- Something happened between the client and one server. -/
theorem ClusterRel.update {id : Nat} {peer : Peer} {link : Link}
    {host : Host} (related : ClusterRel regMr a c)
    (here : ∃ base, PeerRel (regMr id) peer link host base)
    (peers : ∀ other, a'.peers other = if other = id then peer else a.peers other)
    (links : ∀ conn, c'.links conn =
      if conn = .server id then link else c.links conn)
    (hosts : ∀ other, c'.hosts other =
      if other = id then host else c.hosts other)
    (waiting : a'.indexerWaiting = a.indexerWaiting)
    (broken : a'.indexerBroken = a.indexerBroken) :
    ClusterRel regMr a' c' := by
  refine ⟨fun other => ?_, ?_⟩
  · rw [peers, links, hosts]
    by_cases same : other = id
    · subst same
      simpa using here
    · have different : Conn.server other ≠ Conn.server id := by
        simpa using same
      rw [if_neg same, if_neg different, if_neg same]
      exact related.peers other
  · rw [waiting, broken, links, if_neg (by simp)]
    exact related.indexer

/-! ## Steps of the servers -/

theorem Link.handled_reply {link : Link} {reply : Message}
    (rest : List Message) (fits : reply.size ≤ eagerProtocolLimit)
    (nothing : link.toClient = []) :
    link.handled rest (some reply) =
      { link with toServer := rest, toClient := [reply] } := by
  simp [Link.handled, fits, nothing]

/-- A server handles its next message. -/
theorem PeerRel.receive {regMr : Nat → Option IbvMr} {peer : Peer}
    {link : Link} {host host' : Host} {base : Store}
    {message : Message} {rest : List Message} {reply : Option Message}
    (distinct : DistinctMrs regMr)
    (related : PeerRel regMr peer link host base)
    (idle : host.maintaining = false)
    (arrived : link.toServer = message :: rest)
    (received : host.receive message = some (host', reply)) :
    ∃ base', PeerRel regMr peer (link.handled rest reply) host' base' := by
  have sound := related.settled idle
  obtain ⟨pending, sent, nothing, store⟩ | ⟨_, empty, _, _⟩ := related.flight
  case answered =>
    rw [arrived] at empty
    exact absurd empty (by simp)
  rw [arrived] at sent
  cases pending with
  | cons set others =>
      obtain ⟨key, value⟩ := set
      cases sent with
      | cons first later =>
          obtain ⟨answer, handled, agree, busy⟩ :=
            Host.receive_spec first received
          obtain ⟨soundHandled, outcome, _, buffers⟩ :=
            Server.handle_spec sound handled
          obtain ⟨rfl, represents⟩ := related.represents.eagerSet first outcome
            fun node => (buffers node).1
          cases reply with
          | some _ => exact agree.elim
          | none =>
              refine ⟨base.put key (.eager value), represents,
                fun _ => soundHandled, fun idle' => ?_, related.broken,
                related.intact, related.answerable,
                .asked others later nothing store⟩
              rw [busy] at idle'
              exact absurd idle' (by simp)
  | nil =>
      cases waiting : peer.waiting with
      | none =>
          rw [waiting] at sent
          cases sent
      | some request =>
          rw [waiting] at sent
          cases sent with
          | cons first later =>
              cases later with
              | nil =>
                  obtain ⟨answer, handled, agree, busy⟩ :=
                    Host.receive_spec first received
                  obtain ⟨soundHandled, outcome, _, buffers⟩ :=
                    Server.handle_spec sound handled
                  have answerable : ∀ key value,
                      request ≠ .eagerSet key value := by
                    intro key value same
                    exact related.answerable key value (by rw [waiting, same])
                  obtain ⟨posted, base', rfl, fits, replies, represents⟩ :=
                    related.represents.replies distinct sound first answerable
                      outcome (fun node => (buffers node).1) agree
                  rw [Link.handled_reply [] fits nothing]
                  refine ⟨base', represents, fun _ => soundHandled,
                    fun idle' => ?_, related.broken, related.intact,
                    related.answerable, .answered waiting rfl rfl ?_⟩
                  · rw [busy] at idle'
                    exact absurd idle' (by simp)
                  · rw [store]
                    exact replies

/-- A server returns from `maintain_pool`. -/
theorem PeerRel.maintain {regMr : Nat → Option IbvMr} {peer : Peer}
    {link : Link} {host host' : Host} {base : Store}
    (related : PeerRel regMr peer link host base)
    (busy : host.maintaining = true)
    (maintained : host.maintain regMr = some host') :
    PeerRel regMr peer link host' base := by
  obtain ⟨state, ran, rfl⟩ := Option.map_eq_some_iff.mp maintained
  have sound := related.handled busy
  obtain ⟨settled, keeps⟩ := Server.maintain_spec sound ran
  exact ⟨related.represents.maintain sound.1 keeps, fun busy' =>
    absurd busy' (by simp), fun _ => settled, related.broken,
    related.intact, related.answerable, related.flight⟩

theorem selectServer_lt (numOfServers : Nat) (key : CString) :
    selectServer numOfServers key < unsignedRange :=
  Nat.lt_of_le_of_lt (Nat.mod_le _ _) (hashKey key).toUInt32.toNat_lt

/-- The index server handles its next message. -/
theorem IndexerRel.locate {waiting : Option (Nat × CString)} {broken : Bool}
    {link : Link} {message reply : Message} {rest : List Message}
    {before buf : Memory} (related : IndexerRel waiting broken link)
    (arrived : link.toServer = message :: rest)
    (located : RdmaKv.locate before message = some (buf, reply)) :
    IndexerRel waiting broken (link.handled rest (some reply)) := by
  rcases related.flight with ⟨sent, nothing⟩ | ⟨_, _, _, empty, _⟩
  · rw [arrived] at sent
    cases waiting with
    | none => cases sent
    | some request =>
        cases sent with
        | cons first later =>
            cases later with
            | nil =>
                obtain ⟨_, carries, size⟩ := first
                have isFind : Packet.read (message.deliver before) =
                    some (.find request.1 request.2) :=
                  Packet.read_of_at (carries.at_deliver before)
                    (carries.2.trans size)
                unfold RdmaKv.locate at located
                rw [isFind] at located
                simp only at located
                split at located
                · exact absurd located (by simp)
                · obtain ⟨rfl, rfl⟩ := Prod.mk.inj (Option.some.inj located)
                  rw [Link.handled_reply [] sizeofPacket_le nothing]
                  refine ⟨related.state, related.intact, Or.inr
                    ⟨request, _, rfl, rfl, rfl, Packet.at_store ⟨?_, ?_⟩ _, ?_⟩⟩
                  · exact (show 12 ≤ eagerProtocolLimit by decide)
                  · exact selectServer_lt request.1 request.2
                  · exact (show 12 ≤ sizeofPacket by decide)
  · rw [arrived] at empty
    exact absurd empty (by simp)

/-! ## Operations of the client -/

section Operations

variable {regMr : Nat → Option IbvMr} {peer : Peer} {link : Link}
  {host : Host} {base : Store}

/-- Without an outstanding reply everything under way is an eager set. -/
theorem PeerRel.quiet (related : PeerRel regMr peer link host base)
    (waiting : peer.waiting = none) :
    ∃ pending : List (CString × List UInt8),
      List.Forall₂ Request.SentAs (pending.map toRequest) link.toServer ∧
        link.toClient = [] ∧ peer.store = base.putAll pending := by
  obtain ⟨pending, sent, nothing, store⟩ | ⟨asked, _, _, _⟩ := related.flight
  · rw [waiting, Option.toList_none, List.append_nil] at sent
    exact ⟨pending, sent, nothing, store⟩
  · rw [waiting] at asked
    exact absurd asked (by simp)

theorem PeerRel.breaks (related : PeerRel regMr peer link host base)
    (waiting : peer.waiting = none) :
    PeerRel regMr { peer with broken := true } { link with broken := true }
      host base := by
  obtain ⟨pending, sent, nothing, store⟩ := related.quiet waiting
  refine ⟨related.represents, related.handled, related.settled, rfl,
    fun asked => absurd waiting asked, related.answerable,
    .asked pending ?_ nothing store⟩
  simpa [waiting] using sent

/-- An eager set is sent. -/
theorem PeerRel.sets (related : PeerRel regMr peer link host base)
    (waiting : peer.waiting = none) {key : CString} {value : List UInt8}
    {message : Message}
    (sent : (Request.eagerSet key value).SentAs message) :
    PeerRel regMr { peer with store := peer.store.put key (.eager value) }
      { link with toServer := link.toServer ++ [message] } host base := by
  obtain ⟨pending, earlier, nothing, store⟩ := related.quiet waiting
  refine ⟨related.represents, related.handled, related.settled,
    related.broken, related.intact, related.answerable,
    .asked (pending ++ [(key, value)]) ?_ nothing ?_⟩
  · have last : List.Forall₂ Request.SentAs [toRequest (key, value)]
        [message] := .cons sent .nil
    simpa [waiting] using List.rel_append earlier last
  · rw [store, Store.putAll_append_singleton]

/-- A request with a reply is sent. -/
theorem PeerRel.asks (related : PeerRel regMr peer link host base)
    (waiting : peer.waiting = none) (intact : peer.broken = false)
    {request : Request} {message : Message} (sent : request.SentAs message)
    (answerable : ∀ key value, request ≠ .eagerSet key value) :
    PeerRel regMr { peer with waiting := some request }
      { link with toServer := link.toServer ++ [message] } host base := by
  obtain ⟨pending, earlier, nothing, store⟩ := related.quiet waiting
  refine ⟨related.represents, related.handled, related.settled,
    related.broken, fun _ => intact, ?_, .asked pending ?_ nothing store⟩
  · intro key value same
    exact answerable key value (Option.some.inj same)
  · exact List.rel_append earlier (.cons sent .nil)

/-- A reply is received. -/
theorem PeerRel.recv (related : PeerRel regMr peer link host base)
    {message : Message} {rest : List Message}
    (arrived : link.toClient = message :: rest) :
    ∃ request, peer.waiting = some request ∧
      peer.store.Replies request message base ∧
      PeerRel regMr { peer with store := base, waiting := none }
        { link with toClient := rest } host base := by
  obtain ⟨_, _, nothing, _⟩ | ⟨waiting, empty, arrived', replied⟩ :=
    related.flight
  · rw [arrived] at nothing
    exact absurd nothing (by simp)
  · rw [arrived] at arrived'
    obtain ⟨rfl, rfl⟩ := List.cons.inj arrived'
    refine ⟨_, waiting, replied, related.represents, related.handled,
      related.settled, related.broken, fun asked => absurd rfl asked,
      fun key value same => absurd same (by simp), .asked [] ?_ rfl rfl⟩
    simp [empty]

/-- What waits for a server was sent as a request. -/
theorem PeerRel.sentAs (related : PeerRel regMr peer link host base)
    {message : Message} (arrived : message ∈ link.toServer) :
    ∃ request : Request, request.SentAs message := by
  rcases related.flight with ⟨pending, sent, _, _⟩ | ⟨_, empty, _, _⟩
  · obtain ⟨request, _, first⟩ := forall₂_mem_right sent arrived
    exact ⟨request, first⟩
  · rw [empty] at arrived
    exact absurd arrived List.not_mem_nil

theorem PeerRel.wellFormed (related : PeerRel regMr peer link host base) :
    host.state.WellFormed := by
  cases busy : host.maintaining with
  | false => exact (related.settled busy).1
  | true => exact (related.handled busy).1

theorem PeerRel.shape (related : PeerRel regMr peer link host base) :
    ∃ pool tail stale,
      Server.PoolShape regMr host.state pool tail stale := by
  cases busy : host.maintaining with
  | false =>
      obtain ⟨_, pool, tail, stale, settled⟩ := related.settled busy
      exact ⟨pool, tail, stale, settled.shape⟩
  | true =>
      obtain ⟨_, pool, tail, stale, handled⟩ := related.handled busy
      exact ⟨pool, tail, stale, handled.shape⟩

/-- An RDMA operation for a key whose buffer it addresses finds that buffer
in the key's entry, and no eager set of the key is under way. -/
theorem PeerRel.addresses (related : PeerRel regMr peer link host base)
    (distinct : DistinctMrs regMr) (waiting : peer.waiting = none)
    {key : CString} {valueLength : Nat} {remote : IbvMr}
    (found : peer.store.find key = some (.rendezvous valueLength remote)) :
    ∃ node, host.state.held key = some (.buffer valueLength node) ∧
      node ∈ host.state.owned ∧ regMr node = some remote ∧
      (host.state.nodes node).rndvMr = some remote ∧
      host.state.nodeAt remote = some node ∧
      peer.store.region remote = (host.state.nodes node).rndvBuffer ∧
      ∀ message ∈ link.toServer, ∀ value,
        ¬ message.Carries (.eagerSetRequest key value) := by
  obtain ⟨pending, sent, nothing, store⟩ := related.quiet waiting
  rw [store] at found
  obtain ⟨found, others⟩ := base.find_putAll pending found
  obtain ⟨node, holds, registered, region⟩ := related.represents.of_find found
  have member := Server.held_buffer_mem_owned related.wellFormed holds
  obtain ⟨_, _, _, shape⟩ := related.shape
  have mrs := shape.toRegistered
  refine ⟨node, holds, member, registered,
    (mrs.nodes node (mrs.owned node member)).trans registered,
    mrs.nodeAt distinct member registered, ?_, ?_⟩
  · rw [store, Store.region_putAll, region]
  · intro message inside value carries
    obtain ⟨request, listed, first⟩ := forall₂_mem_right sent inside
    obtain ⟨set, member', rfl⟩ := List.mem_map.mp listed
    have same := first.carries.1.unique carries.1
      (first.carries.2.trans first.size) (carries.2.trans first.size)
    exact others set member' (Packet.eagerSetRequest.inj same).1

/-- An RDMA write for a key whose buffer it addresses. -/
theorem PeerRel.write (related : PeerRel regMr peer link host base)
    (distinct : DistinctMrs regMr) (waiting : peer.waiting = none)
    {node : Nat} {remote : IbvMr} (member : node ∈ host.state.owned)
    (registered : regMr node = some remote) (memory : Memory) :
    PeerRel regMr
      { peer with store := peer.store.setRegion remote memory } link
      { host with state := host.state.setRndvBuffer node memory }
      (base.setRegion remote memory) := by
  obtain ⟨pending, sent, nothing, store⟩ := related.quiet waiting
  refine ⟨related.represents.write distinct registered memory,
    fun busy => (related.handled busy).setRndvBuffer member,
    fun idle => (related.settled idle).setRndvBuffer member, related.broken,
    related.intact, related.answerable, .asked pending ?_ nothing ?_⟩
  · simpa [waiting] using sent
  · rw [store, Store.setRegion_putAll]

end Operations

/-! ## The simulation -/

/-- An eager set, or a request with a reply. -/
theorem Request.eagerSet_or (request : Request) :
    (∃ key value, request = .eagerSet key value) ∨
      ∀ key value, request ≠ .eagerSet key value := by
  cases request with
  | eagerGet key => exact Or.inr fun _ _ same => absurd same (by simp)
  | eagerSet key value => exact Or.inl ⟨key, value, rfl⟩
  | rendezvousSet valueLength key =>
    exact Or.inr fun _ _ same => absurd same (by simp)

theorem ClusterRel.evolve
    (distinct : ∀ id, DistinctMrs (regMr id)) (related : ClusterRel regMr a c)
    (step : Cluster.Evolve regMr c c') : ClusterRel regMr a c' := by
  cases step with
  | receive idle arrived received =>
      rename_i id message rest host reply
      obtain ⟨base, here⟩ := related.peers id
      have after := here.receive (distinct id) idle arrived received
      exact related.update after (fun other => by split <;> simp_all)
        (fun conn => rfl) (fun other => rfl) rfl rfl
  | maintain busy maintained =>
      rename_i id host
      obtain ⟨base, here⟩ := related.peers id
      exact related.update ⟨base, here.maintain busy maintained⟩
        (fun other => by split <;> simp_all)
        (fun conn => by split <;> simp_all [Cluster.setHost])
        (fun other => rfl) rfl rfl
  | locate arrived located =>
      refine ⟨fun id => ?_, ?_⟩
      · simpa [Cluster.setLink] using related.peers id
      · simpa [Cluster.setLink] using related.indexer.locate arrived located

/-- Breaking a connection on which no reply is outstanding. -/
theorem ClusterRel.breaks (related : ClusterRel regMr a c) {id : Nat}
    (waiting : (a.peers id).waiting = none) :
    ClusterRel regMr (a.breakPeer id) (c.breakLink (.server id)) := by
  obtain ⟨base, here⟩ := related.peers id
  exact related.update ⟨base, here.breaks waiting⟩ (fun other => rfl)
    (fun conn => rfl) (fun other => by split <;> simp_all [Cluster.breakLink,
      Cluster.setLink]) rfl rfl

theorem ClusterRel.send (related : ClusterRel regMr a c) {id : Nat}
    {message : Message} {given : Bool}
    (waiting : (a.peers id).waiting = none)
    (formed : message.size ≤ eagerProtocolLimit →
      ∃ request : Request, request.SentAs message)
    (step : c.complete (.send (.server id) message) = some (given, c')) :
    ∃ a', Atomic.Answers (.send (.server id) message) a given a' ∧
      ClusterRel regMr a' c' := by
  obtain ⟨base, here⟩ := related.peers id
  cases Cluster.completes_of_complete step with
  | sends intact fits =>
      rw [here.broken] at intact
      obtain ⟨request, sentAs⟩ := formed fits
      rcases request.eagerSet_or with ⟨key, value, rfl⟩ | answerable
      · exact ⟨_, .sets intact sentAs, related.update
          ⟨base, here.sets waiting sentAs⟩ (fun other => rfl)
          (fun conn => rfl)
          (fun other => by split <;> simp_all [Cluster.setLink]) rfl rfl⟩
      · exact ⟨_, .asks intact sentAs answerable, related.update
          ⟨base, here.asks waiting intact sentAs answerable⟩
          (fun other => rfl) (fun conn => rfl)
          (fun other => by split <;> simp_all [Cluster.setLink]) rfl rfl⟩
  | sendFails fails =>
      rw [here.broken] at fails
      exact ⟨_, .sendFails fails, related.breaks waiting⟩

theorem ClusterRel.recv (related : ClusterRel regMr a c) {id : Nat}
    {given : Option Message} (asked : (a.peers id).waiting ≠ none)
    (step : c.complete (.recv (.server id)) = some (given, c')) :
    ∃ a', Atomic.Answers (.recv (.server id)) a given a' ∧
      ClusterRel regMr a' c' := by
  obtain ⟨base, here⟩ := related.peers id
  cases Cluster.completes_of_complete step with
  | receives arrived =>
      obtain ⟨request, waiting, replied, after⟩ := here.recv arrived
      exact ⟨_, .replies waiting replied, related.update ⟨base, after⟩
        (fun other => rfl) (fun conn => rfl)
        (fun other => by split <;> simp_all [Cluster.setLink]) rfl rfl⟩
  | receiveFails nothing broken =>
      rw [here.broken, here.intact asked] at broken
      exact absurd broken (by simp)

/-- Whether an RDMA operation succeeds is the same in both environments. -/
theorem ClusterRel.access (related : ClusterRel regMr a c)
    (distinct : ∀ id, DistinctMrs (regMr id)) {id : Nat} {key : CString}
    {remote : IbvMr} (addresses : a.Addresses id key remote)
    (region length : Nat) :
    ∃ node, node ∈ (c.hosts id).state.owned ∧
      regMr id node = some remote ∧
      (a.peers id).store.region remote =
        ((c.hosts id).state.nodes node).rndvBuffer ∧
      c.access id region length remote =
        if (a.peers id).broken = false ∧ length ≤ maxTestSize ∧
            length ≤ region then some node
        else none := by
  obtain ⟨base, here⟩ := related.peers id
  obtain ⟨waiting, valueLength, found⟩ := addresses
  obtain ⟨node, _, member, registered, _, there, contents, _⟩ :=
    here.addresses (distinct id) waiting found
  refine ⟨node, member, registered, contents, ?_⟩
  unfold Cluster.access
  rw [here.broken, there]

theorem ClusterRel.rdmaWrite (related : ClusterRel regMr a c)
    (distinct : ∀ id, DistinctMrs (regMr id)) {id : Nat} {key : CString}
    {region length : Nat} {source : Memory} {remote : IbvMr} {given : Bool}
    (addresses : a.Addresses id key remote)
    (step : c.complete (.rdmaWrite id key region source length remote) =
      some (given, c')) :
    ∃ a', Atomic.Answers (.rdmaWrite id key region source length remote) a
        given a' ∧ ClusterRel regMr a' c' := by
  obtain ⟨node, member, registered, contents, access⟩ :=
    related.access distinct addresses region length
  simp only [Cluster.complete, access] at step
  by_cases succeeds : (a.peers id).broken = false ∧ length ≤ maxTestSize ∧
      length ≤ region
  · simp only [if_pos succeeds] at step
    obtain ⟨rfl, rfl⟩ := Prod.mk.inj (Option.some.inj step)
    obtain ⟨base, here⟩ := related.peers id
    have after := here.write (distinct id) addresses.1 member registered
      (((a.peers id).store.region remote).copy 0 length source)
    refine ⟨_, .writes succeeds.1 succeeds.2,
      related.update ⟨_, after⟩ (fun other => rfl)
        (fun conn => by split <;> simp_all [Cluster.writeBuffer,
          Cluster.setHost]) (fun other => ?_) rfl rfl⟩
    rw [contents]
    rfl
  · simp only [if_neg succeeds] at step
    obtain ⟨rfl, rfl⟩ := Prod.mk.inj (Option.some.inj step)
    refine ⟨_, .writeFails ?_, related.breaks addresses.1⟩
    by_cases broken : (a.peers id).broken = true
    · exact Or.inl broken
    · exact Or.inr fun inside => succeeds ⟨by simpa using broken, inside⟩

theorem ClusterRel.rdmaRead (related : ClusterRel regMr a c)
    (distinct : ∀ id, DistinctMrs (regMr id)) {id : Nat} {key : CString}
    {region length : Nat} {remote : IbvMr} {given : Option Memory}
    (addresses : a.Addresses id key remote)
    (step : c.complete (.rdmaRead id key region length remote) =
      some (given, c')) :
    ∃ a', Atomic.Answers (.rdmaRead id key region length remote) a given a' ∧
      ClusterRel regMr a' c' := by
  obtain ⟨node, _, _, contents, access⟩ :=
    related.access distinct addresses region length
  simp only [Cluster.complete, access] at step
  by_cases succeeds : (a.peers id).broken = false ∧ length ≤ maxTestSize ∧
      length ≤ region
  · simp only [if_pos succeeds] at step
    obtain ⟨rfl, rfl⟩ := Prod.mk.inj (Option.some.inj step)
    rw [← contents]
    exact ⟨a, .reads succeeds.1 succeeds.2, related⟩
  · simp only [if_neg succeeds] at step
    obtain ⟨rfl, rfl⟩ := Prod.mk.inj (Option.some.inj step)
    refine ⟨_, .readFails ?_, related.breaks addresses.1⟩
    by_cases broken : (a.peers id).broken = true
    · exact Or.inl broken
    · exact Or.inr fun inside => succeeds ⟨by simpa using broken, inside⟩

/-- Something happened between the client and the index server. -/
theorem ClusterRel.updateIndexer (related : ClusterRel regMr a c)
    {link : Link} (peers : a'.peers = a.peers)
    (here : IndexerRel a'.indexerWaiting a'.indexerBroken link) :
    ClusterRel regMr a' (c.setLink .indexer link) := by
  refine ⟨fun id => ?_, ?_⟩
  · rw [peers]
    simpa [Cluster.setLink] using related.peers id
  · simpa [Cluster.setLink] using here

theorem ClusterRel.sendFind (related : ClusterRel regMr a c)
    {message : Message} {given : Bool} (waiting : a.indexerWaiting = none)
    (formed : message.size ≤ eagerProtocolLimit →
      ∃ numOfServers key, 0 < numOfServers ∧
        message.Carries (.find numOfServers key))
    (step : c.complete (.send .indexer message) = some (given, c')) :
    ∃ a', Atomic.Answers (.send .indexer message) a given a' ∧
      ClusterRel regMr a' c' := by
  have here := related.indexer
  rcases here.flight with ⟨sent, nothing⟩ | ⟨_, _, asked, _⟩
  case inr =>
    rw [waiting] at asked
    exact absurd asked (by simp)
  rw [waiting, Option.toList_none] at sent
  cases Cluster.completes_of_complete step with
  | sends intact fits =>
      rw [here.state] at intact
      obtain ⟨numOfServers, key, positive, carries⟩ := formed fits
      refine ⟨_, .finds intact positive carries fits, related.updateIndexer
        rfl ⟨here.state, fun _ => intact, Or.inl ⟨?_, nothing⟩⟩⟩
      exact List.rel_append sent (.cons ⟨positive, carries, fits⟩ .nil)
  | sendFails fails =>
      rw [here.state] at fails
      refine ⟨_, .findFails fails, related.updateIndexer rfl
        ⟨rfl, fun asked => absurd waiting asked, Or.inl ⟨?_, nothing⟩⟩⟩
      simpa [waiting] using sent

theorem ClusterRel.recvLocation (related : ClusterRel regMr a c)
    {given : Option Message} (asked : a.indexerWaiting ≠ none)
    (step : c.complete (.recv .indexer) = some (given, c')) :
    ∃ a', Atomic.Answers (.recv .indexer) a given a' ∧
      ClusterRel regMr a' c' := by
  have here := related.indexer
  cases Cluster.completes_of_complete step with
  | receives arrived =>
      rcases here.flight with
        ⟨_, nothing⟩ | ⟨request, reply, waiting, empty, arrived', carries⟩
      · rw [arrived] at nothing
        exact absurd nothing (by simp)
      · rw [arrived] at arrived'
        obtain ⟨rfl, rfl⟩ := List.cons.inj arrived'
        refine ⟨_, .located waiting carries, related.updateIndexer rfl
          ⟨here.state, fun nothing => absurd rfl nothing, Or.inl ⟨?_, rfl⟩⟩⟩
        rw [empty]
        exact .nil
  | receiveFails nothing broken =>
      rw [here.state, here.intact asked] at broken
      exact absurd broken (by simp)

/-- The cluster, seen through the client's operations, is servers that act at
once. -/
def simulation (regMr : Nat → Nat → Option IbvMr)
    (distinct : ∀ id, DistinctMrs (regMr id)) (bounded : Prop) :
    Simulation Atomic.environment (Cluster.environment regMr)
      (Atomic.Ready bounded) where
  rel := ClusterRel regMr
  evolve := fun related step =>
    ⟨_, .refl, ClusterRel.evolve distinct related step⟩
  answer := by
    intro op a c given c' related ready step
    cases op with
    | send conn message =>
        cases conn with
        | indexer => exact related.sendFind ready.1 ready.2 step
        | server id => exact related.send ready.1 ready.2 step
    | recv conn =>
        cases conn with
        | indexer => exact related.recvLocation ready step
        | server id => exact related.recv ready step
    | rdmaWrite id key region source length remote =>
        exact related.rdmaWrite distinct ready.1 step
    | rdmaRead id key region length remote =>
        exact related.rdmaRead distinct ready.1 step

/-- The servers before the first operation. -/
def Atomic.init : Atomic where
  peers := fun _ => ⟨⟨fun _ => none, fun _ => Memory.zero⟩, none, false⟩
  indexerWaiting := none
  indexerBroken := false

theorem ClusterRel.init (initial : Cluster.Initial regMr c) :
    ClusterRel regMr Atomic.init c := by
  refine ⟨fun id => ⟨⟨fun _ => none, fun _ => Memory.zero⟩, ?_⟩, ?_⟩
  · have started := initial.started id
    have empty := (Server.start_settled started).2
    rw [initial.links]
    refine ⟨fun key => ?_, fun busy => ?_, fun _ => Server.start_sound started,
      rfl, fun asked => absurd rfl asked,
      fun key value same => absurd same (by simp [Atomic.init]),
      .asked [] .nil rfl rfl⟩
    · have nothing : (c.hosts id).state.held key = none := by
        simp [Server.held, Server.findEntry, empty]
      rw [nothing]
    · rw [initial.idle] at busy
      exact absurd busy (by simp)
  · rw [initial.links]
    exact ⟨rfl, fun asked => absurd rfl asked, Or.inl ⟨.nil, rfl⟩⟩

end RdmaKv
