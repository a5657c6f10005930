import RdmaKv.Ex4.Schedule
import RdmaKv.Ex4.Scripts
import Mathlib.Data.List.Pairwise

/-!
# One-sided access to the servers' buffers

Along every run of `dkv_set` and `dkv_get` the client reads and writes by RDMA
only the buffer that the server holds for the key, and no byte of one key's
value is found in the buffer of another.
-/

namespace RdmaKv

open ByteMemory Interaction

/-- The entry of a key has no value of its own, and the node is its buffer. -/
def Server.HoldsBuffer (s : Server) (key : CString) (node : Nat) : Prop :=
  ∃ entry, s.findEntry key = some entry ∧ entry.value = none ∧
    entry.largeValMemInfo = some node

/-- An RDMA operation that is posted on the connection to a server, for a key,
with an address and key of a region there. -/
inductive Op.Accesses : Op → Nat → CString → IbvMr → Prop
  | write {server : Nat} {key : CString} {region length : Nat}
      {source : Memory} {remote : IbvMr} :
      Accesses (.rdmaWrite server key region source length remote) server key
        remote
  | read {server : Nat} {key : CString} {region length : Nat}
      {remote : IbvMr} :
      Accesses (.rdmaRead server key region length remote) server key remote

theorem Op.accesses_of_isRead {op : Op} (isRead : op.isRead = true) :
    ∃ server key remote, op.Accesses server key remote := by
  cases op with
  | send conn message => exact absurd isRead (by simp [Op.isRead])
  | recv conn => exact absurd isRead (by simp [Op.isRead])
  | rdmaWrite server key region source length remote =>
      exact absurd isRead (by simp [Op.isRead])
  | rdmaRead server key region length remote => exact ⟨_, _, _, .read⟩

namespace Server

variable {s : Server} {key other : CString} {node : Nat}

theorem holdsBuffer_iff (wellFormed : s.WellFormed) :
    s.HoldsBuffer key node ↔
      ∃ valueLength, s.held key = some (.buffer valueLength node) := by
  constructor
  · rintro ⟨entry, found, noValue, buffer⟩
    refine ⟨entry.valLen, ?_⟩
    rw [held_of_findEntry found]
    simp [KvEntry.held, noValue, buffer]
  · rintro ⟨valueLength, holds⟩
    obtain ⟨entry, found, inside⟩ := findEntry_of_held holds
    obtain ⟨noValue, _, buffer⟩ :=
      (wellFormed entry (findEntry_mem found)).held_buffer inside
    exact ⟨entry, found, noValue, buffer⟩

/-- A buffer is held for one key. -/
theorem HoldsBuffer.unique (ownedNodup : s.owned.Nodup)
    (first : s.HoldsBuffer key node) (second : s.HoldsBuffer other node) :
    key = other := by
  obtain ⟨entry, found, _, buffer⟩ := first
  obtain ⟨entry', found', _, buffer'⟩ := second
  by_contra different
  have apart : entry ≠ entry' := by
    rintro rfl
    exact different ((findEntry_key found).symm.trans (findEntry_key found'))
  have symmetric : Std.Symm fun first second : KvEntry =>
      ∀ node, first.largeValMemInfo = some node →
        ∀ other, second.largeValMemInfo = some other → node ≠ other :=
    ⟨fun _ _ distinct node isFirst other isSecond =>
      (distinct other isSecond node isFirst).symm⟩
  exact (List.pairwise_filterMap.mp ownedNodup).forall (findEntry_mem found)
    (findEntry_mem found') apart node buffer node buffer' rfl

end Server

namespace Sample

/-- A value in a buffer, and a `dkv_get` that reads it. -/
def setThenGet : List KvClient.DkvCall :=
  [.set firstKey (letters 5000), .get firstKey]

private theorem setThenGet_keys :
    ∀ call ∈ setThenGet, call.key ≠ CString.empty ∧
    call.key.length < eagerProtocolLimit := by
  intro call member
  simp only [setThenGet, List.mem_cons, List.not_mem_nil, or_false] at member
  rcases member with rfl | rfl
  · exact ⟨by decide, by decide⟩
  · exact ⟨by decide, by decide⟩

end Sample

open Sample

section Runs

variable {numServers : Nat} {regMr : Nat → Nat → Option IbvMr} {c : Cluster}
  {calls : List KvClient.DkvCall} {buf : Conn → Memory}
  {reached : Run (List Returned × Client) × Cluster}

/-- Along a run the servers stay related to servers that act at once, on which
the rest of the calls stays correct. -/
private theorem dkv_reached (positive : 0 < numServers)
    (small : numServers < unsignedRange)
    (distinct : ∀ id, DistinctMrs (regMr id))
    (initial : Cluster.Initial regMr c)
    (keys : ∀ call ∈ calls, call.key ≠ CString.empty ∧
      call.key.length < eagerProtocolLimit)
    (steps : Steps (Cluster.environment regMr)
      (runCalls (KvClient.DkvCall.perform numServers) calls
        (Client.init buf), c) reached) :
    ∃ a, ClusterRel regMr a reached.2 ∧
      Achieves False True (fun _ _ => True) reached.1 a := by
  refine (simulation regMr distinct False).reachable
    (ClusterRel.init initial) (wp_mono (fun _ _ _ => trivial)
      (achieves_runCalls (KvClient.DkvCall.toCall numServers)
        (fun ledger call =>
          ledger.Routed (selectServer numServers) ∧
            call.key ≠ CString.empty ∧
            call.key.length < eagerProtocolLimit)
        ?_ calls (tracks_init buf) ?_)) steps
  · intro call ledger client a tracks allowed
    obtain ⟨routed, nonempty, short⟩ := allowed
    have usable := routed.usable nonempty
    have bound : call.key.length < unsignedRange :=
      short.trans (by decide)
    refine call.achieves tracks positive small (fun _ => trivial)
      ⟨?_, fun _ => trivial, fun absent => absent.elim⟩
    cases call with
    | set key value => exact ⟨bound, Or.inr usable⟩
    | get key => exact ⟨bound, usable⟩
  · intro front call back split
    have inside : call ∈ calls := by
      rw [split]
      exact List.mem_append_right front (List.mem_cons_self ..)
    refine ⟨Ledger.routed_init.afterAll fun other member => ?_, keys call inside⟩
    obtain ⟨mapped, _, rfl⟩ := List.mem_map.mp member
    cases mapped <;> rfl

/-- Whenever the client reads or writes by RDMA for a key, the server on whose
connection it does so holds exactly that buffer for the key, and no eager set
of the key is still to be handled there. -/
theorem dkv_rdma_coherent (positive : 0 < numServers)
    (small : numServers < unsignedRange)
    (distinct : ∀ id, DistinctMrs (regMr id))
    (initial : Cluster.Initial regMr c)
    (keys : ∀ call ∈ calls, call.key ≠ CString.empty ∧
      call.key.length < eagerProtocolLimit)
    (steps : Steps (Cluster.environment regMr)
      (runCalls (KvClient.DkvCall.perform numServers) calls
        (Client.init buf), c) reached)
    {op : Op} {resume : Answer op → Run (List Returned × Client)}
    (posts : reached.1 = .perform op resume) {server : Nat} {key : CString}
    {remote : IbvMr} (accesses : op.Accesses server key remote) :
    (∃ node, (reached.2.hosts server).state.HoldsBuffer key node ∧
      (reached.2.hosts server).state.nodeAt remote = some node) ∧
    ∀ message ∈ (reached.2.links (.server server)).toServer, ∀ value,
      ¬ message.Carries (.eagerSetRequest key value) := by
  obtain ⟨a, related, achieves⟩ :=
    dkv_reached positive small distinct initial keys steps
  rw [posts] at achieves
  have ready := (achieves a .refl).1
  have addresses : a.Addresses server key remote := by
    cases accesses with
    | write => exact ready.1
    | read => exact ready.1
  obtain ⟨base, here⟩ := related.peers server
  obtain ⟨waiting, valueLength, found⟩ := addresses
  obtain ⟨node, holds, _, _, _, there, _, nothing⟩ :=
    here.addresses (distinct server) waiting found
  exact ⟨⟨node, (Server.holdsBuffer_iff here.wellFormed).mpr
    ⟨valueLength, holds⟩, there⟩, nothing⟩

/-- The second call reads what the first one stored. -/
theorem dkv_rdma_coherent_read :
    ∃ reached op resume server key remote,
      Steps (Cluster.environment mr)
        (runCalls (KvClient.DkvCall.perform 1) setThenGet
          client, cluster) reached ∧
      reached.1 = .perform op resume ∧ op.Accesses server key remote ∧
      (∃ node, (reached.2.hosts server).state.HoldsBuffer key node ∧
        (reached.2.hosts server).state.nodeAt remote = some node) ∧
      ∀ message ∈ (reached.2.links (.server server)).toServer, ∀ value,
        ¬ message.Carries (.eagerSetRequest key value) := by
  obtain ⟨reached, op, resume, steps, posts, isRead⟩ :=
    Cluster.steps_of_posted mr 7
      (runCalls (KvClient.DkvCall.perform 1) setThenGet client,
        cluster) Op.isRead (by decide +kernel)
  obtain ⟨server, key, remote, accesses⟩ := Op.accesses_of_isRead isRead
  exact ⟨reached, op, resume, server, key, remote, steps, posts, accesses,
    dkv_rdma_coherent (by decide) (by decide) mr_distinct
      cluster_initial setThenGet_keys steps posts accesses⟩

/-- A request that assigns a buffer to a key assigns one that is all zero. -/
theorem PeerRel.assigns_zeroed {regMr : Nat → Option IbvMr} {peer : Peer}
    {link : Link} {host host' : Host} {base : Store}
    (related : PeerRel regMr peer link host base)
    (idle : host.maintaining = false) {message : Message}
    {rest : List Message} {reply : Option Message} {valueLength : Nat}
    {key : CString} (arrived : link.toServer = message :: rest)
    (carries : message.Carries (.rendezvousSetRequest valueLength key))
    (received : host.receive message = some (host', reply))
    (nothing : ∀ node, ¬ host.state.HoldsBuffer key node) :
    ∃ node, host'.state.HoldsBuffer key node ∧
      (host'.state.nodes node).rndvBuffer = Memory.zero := by
  have sound := related.settled idle
  obtain ⟨request, sent⟩ := related.sentAs
    (arrived ▸ List.mem_cons_self : message ∈ link.toServer)
  obtain rfl : request = .rendezvousSet valueLength key :=
    Request.packet_injective (sent.carries.1.unique carries.1
      (sent.carries.2.trans sent.size) (carries.2.trans sent.size))
  obtain ⟨answer, handled, agree, busy⟩ := Host.receive_spec sent received
  obtain ⟨soundHandled, outcome, _, buffers⟩ :=
    Server.handle_spec sound handled
  cases outcome with
  | keeps before registered held =>
      exact absurd ((Server.holdsBuffer_iff sound.1).mpr ⟨_, before⟩)
        (nothing _)
  | takes before fresh zeroed registered held =>
      rename_i node server
      refine ⟨node, (Server.holdsBuffer_iff soundHandled.1).mpr
        ⟨valueLength, ?_⟩, ?_⟩
      · rw [held, if_pos rfl]
      · rw [(buffers node).1, zeroed]

/-- A server's step leaves the buffers that stay with their keys alone. -/
theorem ClusterRel.evolve_buffers {a : Atomic} {c' : Cluster}
    (related : ClusterRel regMr a c) (step : Cluster.Evolve regMr c c')
    {id : Nat} {key : CString} {node : Nat}
    (holds : (c.hosts id).state.HoldsBuffer key node) :
    ((c'.hosts id).state.nodes node).rndvBuffer =
      ((c.hosts id).state.nodes node).rndvBuffer := by
  obtain ⟨base, here⟩ := related.peers id
  cases step with
  | receive idle arrived received =>
      rename_i other message rest host reply
      by_cases same : id = other
      · subst same
        obtain ⟨request, sent⟩ := here.sentAs
          (arrived ▸ List.mem_cons_self :
            message ∈ (c.links (.server id)).toServer)
        obtain ⟨answer, handled, _, _⟩ := Host.receive_spec sent received
        obtain ⟨_, _, _, buffers⟩ :=
          Server.handle_spec (here.settled idle) handled
        simpa [Cluster.setHost, Cluster.setLink] using (buffers node).1
      · simp [Cluster.setHost, Cluster.setLink, same]
  | maintain busy maintained =>
      rename_i other host
      by_cases same : id = other
      · subst same
        obtain ⟨state, ran, rfl⟩ := Option.map_eq_some_iff.mp maintained
        obtain ⟨_, keeps⟩ := Server.maintain_spec (here.handled busy) ran
        obtain ⟨valueLength, held⟩ :=
          (Server.holdsBuffer_iff here.wellFormed).mp holds
        have member := Server.held_buffer_mem_owned here.wellFormed held
        simpa [Cluster.setHost] using keeps.buffers node member
      · simp [Cluster.setHost, same]
  | locate arrived located => rfl

/-- The client's operations leave them alone as well, except that it writes
the buffer of a key for that key. -/
theorem ClusterRel.complete_buffers {a : Atomic} {c' : Cluster}
    (related : ClusterRel regMr a c) (distinct : ∀ id, DistinctMrs (regMr id))
    {op : Op} {given : Answer op} (ready : Atomic.Ready False op a)
    (step : c.complete op = some (given, c')) {id : Nat} {key : CString}
    {node : Nat} (holds : (c.hosts id).state.HoldsBuffer key node)
    (changed : ((c'.hosts id).state.nodes node).rndvBuffer ≠
      ((c.hosts id).state.nodes node).rndvBuffer) :
    ∃ region source length remote,
      op = .rdmaWrite id key region source length remote := by
  cases Cluster.completes_of_complete step with
  | sends intact fits => exact absurd rfl changed
  | sendFails fails => exact absurd rfl changed
  | receives arrived => exact absurd rfl changed
  | receiveFails nothing broken => exact absurd rfl changed
  | reads granted => exact absurd rfl changed
  | readFails refused => exact absurd rfl changed
  | writeFails refused => exact absurd rfl changed
  | writes granted =>
      rename_i server region length accessed other source remote
      obtain ⟨base, here⟩ := related.peers server
      obtain ⟨waiting, valueLength, found⟩ := ready.1
      obtain ⟨target, held, _, _, _, there, _, _⟩ :=
        here.addresses (distinct server) waiting found
      have holder := (Server.holdsBuffer_iff here.wellFormed).mpr ⟨_, held⟩
      have isTarget : accessed = target := by
        unfold Cluster.access at granted
        split at granted
        · exact Option.some.inj (granted.symm.trans there)
        · exact absurd granted (by simp)
      subst isTarget
      have here' : id = server ∧ node = accessed := by
        by_contra elsewhere
        refine changed ?_
        by_cases same : id = server
        · subst same
          have different : node ≠ accessed := fun equal =>
            elsewhere ⟨rfl, equal⟩
          simp [Cluster.writeBuffer, Cluster.setHost, different]
        · simp [Cluster.writeBuffer, Cluster.setHost, same]
      obtain ⟨rfl, rfl⟩ := here'
      obtain ⟨_, _, _, shape⟩ := here.shape
      obtain rfl := holder.unique shape.ownedNodup holds
      exact ⟨_, _, _, _, rfl⟩

/-- No data of one key is found in the buffer of another: a buffer is all
zero when it is assigned to a key that had none, and as long as it stays with
the key only an RDMA write for that key changes it. -/
theorem dkv_buffers_private (positive : 0 < numServers)
    (small : numServers < unsignedRange)
    (distinct : ∀ id, DistinctMrs (regMr id))
    (initial : Cluster.Initial regMr c)
    (keys : ∀ call ∈ calls, call.key ≠ CString.empty ∧
      call.key.length < eagerProtocolLimit)
    (steps : Steps (Cluster.environment regMr)
      (runCalls (KvClient.DkvCall.perform numServers) calls
        (Client.init buf), c) reached) :
    (∀ {id : Nat} {message : Message} {rest : List Message} {host : Host}
        {reply : Option Message} {valueLength : Nat} {key : CString},
      (reached.2.hosts id).maintaining = false →
      (reached.2.links (.server id)).toServer = message :: rest →
      message.Carries (.rendezvousSetRequest valueLength key) →
      (reached.2.hosts id).receive message = some (host, reply) →
      (∀ node, ¬ (reached.2.hosts id).state.HoldsBuffer key node) →
        ∃ node, host.state.HoldsBuffer key node ∧
          (host.state.nodes node).rndvBuffer = Memory.zero) ∧
    ∀ {next : Run (List Returned × Client) × Cluster},
      Step (Cluster.environment regMr) reached next →
        ∀ {id : Nat} {key : CString} {node : Nat},
          (reached.2.hosts id).state.HoldsBuffer key node →
          (next.2.hosts id).state.HoldsBuffer key node →
          ((next.2.hosts id).state.nodes node).rndvBuffer ≠
            ((reached.2.hosts id).state.nodes node).rndvBuffer →
          ∃ region source length remote resume, reached.1 =
            .perform (.rdmaWrite id key region source length remote)
              resume := by
  obtain ⟨a, related, achieves⟩ :=
    dkv_reached positive small distinct initial keys steps
  constructor
  · intro id message rest host reply valueLength key idle arrived carries
      received nothing
    obtain ⟨base, here⟩ := related.peers id
    exact here.assigns_zeroed idle arrived carries received nothing
  · intro next step id key node holds _ changed
    rcases step_cases step with
      ⟨_, evolved⟩ | ⟨op, resume, given, posts, _, answered⟩
    · exact absurd (related.evolve_buffers evolved holds) changed
    · rw [posts] at achieves
      obtain ⟨region, source, length, remote, rfl⟩ :=
        related.complete_buffers distinct (achieves a .refl).1 answered holds
          changed
      exact ⟨region, source, length, remote, resume, posts⟩

/-- The request of the first call is handled. -/
theorem dkv_buffers_private_assigned :
    ∃ reached message rest host reply,
      Steps (Cluster.environment mr)
        (runCalls (KvClient.DkvCall.perform 1) setThenGet client, cluster)
        reached ∧
      (reached.2.links (.server 0)).toServer = message :: rest ∧
      (reached.2.hosts 0).receive message = some (host, reply) ∧
      ∃ node, host.state.HoldsBuffer firstKey node ∧
        (host.state.nodes node).rndvBuffer = Memory.zero := by
  obtain ⟨reached, steps, tested⟩ := Cluster.steps_of_reached mr 3
    (runCalls (KvClient.DkvCall.perform 1) setThenGet client, cluster)
    (fun reached =>
      match (reached.2.links (.server 0)).toServer with
      | [] => false
      | message :: _ =>
          decide ((reached.2.hosts 0).maintaining = false ∧
            message.Carries (.rendezvousSetRequest 5001 firstKey) ∧
            ((reached.2.hosts 0).receive message).isSome ∧
            ((reached.2.hosts 0).state.findEntry firstKey).isNone))
    (by decide +kernel)
  cases arrived : (reached.2.links (.server 0)).toServer with
  | nil =>
      simp only [arrived] at tested
      exact absurd tested (by simp)
  | cons message rest =>
      simp only [arrived, decide_eq_true_eq] at tested
      obtain ⟨idle, carries, receives, missing⟩ := tested
      obtain ⟨⟨host, reply⟩, received⟩ := Option.isSome_iff_exists.mp receives
      refine ⟨reached, message, rest, host, reply, steps, arrived, received, ?_⟩
      refine (dkv_buffers_private (by decide) (by decide) mr_distinct
        cluster_initial setThenGet_keys steps).1 idle arrived carries received ?_
      rintro node ⟨entry, found, _⟩
      rw [Option.isNone_iff_eq_none.mp missing] at found
      exact absurd found (by simp)

end Runs

end RdmaKv
