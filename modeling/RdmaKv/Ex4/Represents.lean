import RdmaKv.Ex4.Atomic

/-!
# What the globals of a server represent

The map that a client sees, read off the entries and the nodes of a server.
Every request and every RDMA access to an entry's buffer does to the globals
what it does to the map.
-/

namespace RdmaKv

open ByteMemory LinkedChain

variable {regMr : Nat → Option IbvMr}
variable {store : Store} {s s' : Server}

/-- Under every key the client sees what the server holds. -/
def Represents (regMr : Nat → Option IbvMr) (store : Store) (s : Server) :
    Prop :=
  ∀ key, match s.held key with
    | none => store.find key = none
    | some (.inline value) =>
        store.find key = some (.eager value) ∧
          sizeofPacket + value.length ≤ eagerProtocolLimit
    | some (.buffer valueLength node) =>
        valueLength < unsignedRange ∧ ∃ remote,
          regMr node = some remote ∧
            store.find key = some (.rendezvous valueLength remote) ∧
            store.region remote = (s.nodes node).rndvBuffer

theorem Represents.absent (represents : Represents regMr store s)
    {key : CString} (holds : s.held key = none) : store.find key = none := by
  have known := represents key
  rw [holds] at known
  exact known

theorem Represents.inline (represents : Represents regMr store s)
    {key : CString} {value : List UInt8}
    (holds : s.held key = some (.inline value)) :
    store.find key = some (.eager value) ∧
      sizeofPacket + value.length ≤ eagerProtocolLimit := by
  have known := represents key
  rw [holds] at known
  exact known

theorem Represents.buffer (represents : Represents regMr store s)
    {key : CString} {valueLength node : Nat}
    (holds : s.held key = some (.buffer valueLength node)) :
    valueLength < unsignedRange ∧ ∃ remote, regMr node = some remote ∧
      store.find key = some (.rendezvous valueLength remote) ∧
      store.region remote = (s.nodes node).rndvBuffer := by
  have known := represents key
  rw [holds] at known
  exact known

/-- A buffer that a client sees is held under the key. -/
theorem Represents.of_find (represents : Represents regMr store s)
    {key : CString} {valueLength : Nat} {remote : IbvMr}
    (found : store.find key = some (.rendezvous valueLength remote)) :
    ∃ node, s.held key = some (.buffer valueLength node) ∧
      regMr node = some remote ∧
      store.region remote = (s.nodes node).rndvBuffer := by
  cases holds : s.held key with
  | none =>
      rw [represents.absent holds] at found
      exact absurd found (by simp)
  | some holding =>
      cases holding with
      | inline value =>
          rw [(represents.inline holds).1] at found
          exact absurd found (by simp)
      | buffer length node =>
          obtain ⟨_, other, registered, found', region⟩ :=
            represents.buffer holds
          rw [found'] at found
          obtain ⟨rfl, rfl⟩ := Stored.rendezvous.inj (Option.some.inj found)
          exact ⟨node, rfl, registered, region⟩

/-- If only buffers have changed, only these are to be compared. -/
theorem Represents.of_buffers {store' : Store}
    (represents : Represents regMr store s)
    (find : ∀ key, store'.find key = store.find key)
    (held : ∀ key, s'.held key = s.held key)
    (buffers : ∀ key valueLength node,
      s.held key = some (.buffer valueLength node) → ∀ remote,
        regMr node = some remote →
        store.region remote = (s.nodes node).rndvBuffer →
          store'.region remote = (s'.nodes node).rndvBuffer) :
    Represents regMr store' s' := by
  intro key
  rw [held, find]
  cases holds : s.held key with
  | none => exact represents.absent holds
  | some holding =>
      cases holding with
      | inline value => exact represents.inline holds
      | buffer valueLength node =>
          obtain ⟨bound, remote, registered, found, region⟩ :=
            represents.buffer holds
          exact ⟨bound, remote, registered, found,
            buffers key valueLength node holds remote registered region⟩

/-- The representation only looks at what is held and at held buffers. -/
theorem Represents.congr (represents : Represents regMr store s)
    (held : ∀ key, s'.held key = s.held key)
    (buffers : ∀ key valueLength node,
      s.held key = some (.buffer valueLength node) →
        (s'.nodes node).rndvBuffer = (s.nodes node).rndvBuffer) :
    Represents regMr store s' :=
  represents.of_buffers (fun _ => rfl) held
    fun key valueLength node holds _ _ region =>
      region.trans (buffers key valueLength node holds).symm

/-! ## Requests -/

/-- A set changes the map at its key. -/
theorem Represents.put_eager (represents : Represents regMr store s)
    {key : CString} {value : List UInt8}
    (held : ∀ other, s'.held other =
      if other = key then some (.inline value) else s.held other)
    (buffers : ∀ node,
      (s'.nodes node).rndvBuffer = (s.nodes node).rndvBuffer)
    (fits : sizeofPacket + value.length ≤ eagerProtocolLimit) :
    Represents regMr (store.put key (.eager value)) s' := by
  intro other
  rw [held]
  by_cases same : other = key
  · simp only [if_pos same]
    exact ⟨if_pos same, fits⟩
  · have known := represents other
    simp only [if_neg same, Store.put, buffers]
    exact known

theorem Represents.put_rendezvous (represents : Represents regMr store s)
    {key : CString} {valueLength node : Nat} {remote : IbvMr}
    (held : ∀ other, s'.held other =
      if other = key then some (.buffer valueLength node) else s.held other)
    (buffers : ∀ node,
      (s'.nodes node).rndvBuffer = (s.nodes node).rndvBuffer)
    (bound : valueLength < unsignedRange) (registered : regMr node = some remote)
    (region : store.region remote = (s.nodes node).rndvBuffer) :
    Represents regMr (store.put key (.rendezvous valueLength remote)) s' := by
  intro other
  rw [held]
  by_cases same : other = key
  · simp only [if_pos same]
    exact ⟨bound, remote, registered, if_pos same, by
      rw [buffers]
      exact region⟩
  · have known := represents other
    simp only [if_neg same, Store.put, buffers]
    exact known

/-- Another buffer may have any contents. -/
theorem Represents.setRegion (represents : Represents regMr store s)
    {remote : IbvMr} {memory : Memory}
    (unused : ∀ key valueLength node,
      s.held key = some (.buffer valueLength node) →
        regMr node ≠ some remote) :
    Represents regMr (store.setRegion remote memory) s := by
  refine represents.of_buffers (fun _ => rfl) (fun _ => rfl)
    fun key valueLength node holds other registered region => ?_
  have different : other ≠ remote := by
    rintro rfl
    exact unused key valueLength node holds registered
  rw [Store.region_setRegion, if_neg different]
  exact region

/-- An eager set, handled. -/
theorem Represents.eagerSet (represents : Represents regMr store s)
    {key : CString} {value : List UInt8} {message : Message}
    {answer : Option (Packet × Nat)}
    (sent : (Request.eagerSet key value).SentAs message)
    (outcome : Server.Outcome regMr s s' (.eagerSet key value) answer)
    (buffers : ∀ node,
      (s'.nodes node).rndvBuffer = (s.nodes node).rndvBuffer) :
    answer = none ∧ Represents regMr (store.put key (.eager value)) s' := by
  cases outcome with
  | eagerSet held =>
      have counted := sent.counted key value rfl
      exact ⟨rfl, represents.put_eager held buffers
        (counted.trans sent.size)⟩

/-- An eager get, answered: the reply is the one that the map gives, and it
fits into the client's buffer. -/
theorem Represents.repliesGet (represents : Represents regMr store s)
    (sound : Server.Sound regMr s) {key : CString} {answer : Packet × Nat}
    {posted : Message} (computed : s.eagerGet key = some answer)
    (isReply : posted.IsReply answer) :
    posted.size ≤ eagerProtocolLimit ∧
      store.Replies (.eagerGet key) posted store := by
  rw [Server.eagerGet_spec sound.1] at computed
  cases holds : s.held key with
  | none =>
      simp only [holds, Option.some.injEq] at computed
      subst computed
      obtain ⟨buf, bytes⟩ := isReply.bytes
      refine ⟨by rw [isReply.size]; decide,
        .missing (represents.absent holds) ?_ (by rw [isReply.size]; decide)⟩
      rw [bytes]
      exact (Packet.at_store ⟨isReply.extent,
        show 1 < unsignedRange by decide⟩ buf).1
  | some holding =>
      cases holding with
      | inline value =>
          simp only [holds, Option.some.injEq] at computed
          subst computed
          obtain ⟨found, fits⟩ := represents.inline holds
          have small : value.length < unsignedRange := by
            simp only [eagerProtocolLimit, unsignedRange] at fits ⊢
            omega
          refine ⟨by rw [isReply.size]; exact fits,
            .eager found (isReply.carries small ?_) fits⟩
          simp only [Packet.extent, sizeofPacket]
          omega
      | buffer valueLength node =>
          obtain ⟨bound, remote, registered, found, _⟩ :=
            represents.buffer holds
          obtain ⟨server, registered', inside⟩ :=
            sound.registered (Server.held_buffer_mem_owned sound.1 holds)
          rw [registered] at registered'
          obtain rfl := Option.some.inj registered'
          simp only [holds, inside, Option.map_some,
            Option.some.injEq] at computed
          subst computed
          exact ⟨by rw [isReply.size]; exact sizeofPacket_le,
            .rendezvous found (isReply.carries bound
              (show 28 ≤ sizeofPacket by decide))⟩

/-- A request with a reply, handled: the reply is the one that the map gives,
and it fits into the client's buffer. -/
theorem Represents.replies (represents : Represents regMr store s)
    (distinct : DistinctMrs regMr) (sound : Server.Sound regMr s)
    {request : Request} {message : Message} {answer : Option (Packet × Nat)}
    {reply : Option Message} (sent : request.SentAs message)
    (answered : ∀ key value, request ≠ .eagerSet key value)
    (outcome : Server.Outcome regMr s s' request answer)
    (buffers : ∀ node,
      (s'.nodes node).rndvBuffer = (s.nodes node).rndvBuffer)
    (agree : Host.Agree answer reply) :
    ∃ posted store', reply = some posted ∧
      posted.size ≤ eagerProtocolLimit ∧
      store.Replies request posted store' ∧ Represents regMr store' s' := by
  cases outcome with
  | eagerSet held => exact absurd rfl (answered _ _)
  | eagerGet computed held =>
      rename_i key answer
      obtain ⟨posted, rfl, isReply⟩ := Host.agree_reply agree
      obtain ⟨small, replies⟩ := represents.repliesGet sound computed isReply
      exact ⟨posted, store, rfl, small, replies,
        represents.congr held fun _ _ node _ => buffers node⟩
  | keeps before registered held =>
      rename_i key valueLength old node remote
      obtain ⟨posted, rfl, isReply⟩ := Host.agree_reply agree
      obtain ⟨_, other, registered', found, region⟩ := represents.buffer before
      rw [registered] at registered'
      obtain rfl := Option.some.inj registered'
      exact ⟨posted, _, rfl, by rw [isReply.size]; exact sizeofPacket_le,
        .kept found (isReply.carries (show 0 < unsignedRange by decide)
          (show 20 ≤ sizeofPacket by decide)),
        represents.put_rendezvous held buffers (Host.sent_number sent)
          registered region⟩
  | takes before fresh zeroed registered held =>
      rename_i key valueLength node remote
      obtain ⟨posted, rfl, isReply⟩ := Host.agree_reply agree
      have unused : ∀ other length holder,
          s.held other = some (.buffer length holder) →
            regMr holder ≠ some remote := by
        intro other length holder holds registered'
        obtain rfl := distinct holder node remote registered' registered
        exact fresh (Server.held_buffer_mem_owned sound.1 holds)
      refine ⟨posted, _, rfl, by rw [isReply.size]; exact sizeofPacket_le,
        .assigned ?_ ?_ (isReply.carries (show 0 < unsignedRange by decide)
          (show 20 ≤ sizeofPacket by decide)), ?_⟩
      · intro length other found
        obtain ⟨holder, holds, _⟩ := represents.of_find found
        exact before length holder holds
      · intro other length found
        obtain ⟨holder, holds, registered', _⟩ := represents.of_find found
        exact unused other length holder holds registered'
      · exact (represents.setRegion unused).put_rendezvous held buffers
          (Host.sent_number sent) registered (by
            rw [zeroed, Store.region_setRegion, if_pos rfl])

/-! ## Maintenance and RDMA -/

theorem Represents.maintain (represents : Represents regMr store s)
    (wellFormed : s.WellFormed) (keeps : Server.Keeps s s') :
    Represents regMr store s' :=
  represents.congr keeps.held fun _ _ node holds =>
    keeps.buffers node (Server.held_buffer_mem_owned wellFormed holds)

namespace Server

variable {pool : List Nat} {tail node : Nat} {stale : Set Nat}
  {buffer : Memory}

private theorem held_setRndvBuffer (s : Server) (node : Nat) (buffer : Memory)
    (key : CString) : (s.setRndvBuffer node buffer).held key = s.held key :=
  rfl

/-- What an entry's buffer contains does not matter to the pool. -/
theorem PoolShape.setRndvBuffer (shape : PoolShape regMr s pool tail stale)
    (member : node ∈ s.owned) :
    PoolShape regMr (s.setRndvBuffer node buffer) pool tail stale where
  chain := shape.chain.congr fun other _ =>
    nextMem_setRndvBuffer s node other buffer
  tailEq := shape.tailEq
  place := shape.place
  bound := shape.bound
  ownedNodup := shape.ownedNodup
  separate := shape.separate
  staleNext := by
    intro other inside different
    rw [nextMem_setRndvBuffer]
    exact shape.staleNext other inside different
  ownedNext := by
    intro other inside outside
    rw [nextMem_setRndvBuffer]
    exact shape.ownedNext other inside outside
  zeroed := by
    intro other inside
    have different : other ≠ node := by
      rintro rfl
      exact (shape.separate other inside).1 member
    rw [rndvBuffer_setRndvBuffer, if_neg different]
    exact shape.zeroed other inside
  registered := by
    intro other bound
    rw [rndvMr_setRndvBuffer]
    exact shape.registered other bound

theorem Sound.setRndvBuffer (sound : Sound regMr s)
    (member : node ∈ s.owned) :
    Sound regMr (s.setRndvBuffer node buffer) := by
  obtain ⟨wellFormed, pool, tail, stale, settled⟩ := sound
  exact ⟨wellFormed, pool, tail, stale, settled.shape.setRndvBuffer member,
    settled.noTainted, settled.enough⟩

theorem SoundHandled.setRndvBuffer (sound : SoundHandled regMr s)
    (member : node ∈ s.owned) :
    SoundHandled regMr (s.setRndvBuffer node buffer) := by
  obtain ⟨wellFormed, pool, tail, stale, handled⟩ := sound
  refine ⟨wellFormed, pool, tail, stale,
    handled.shape.setRndvBuffer member, ?_, handled.enough⟩
  intro other head
  obtain ⟨bound, notPool, notOwned, last⟩ := handled.tainted other head
  refine ⟨bound, notPool, notOwned, fun outside => ?_⟩
  rw [nextMem_setRndvBuffer]
  exact last outside

/-- The registrations of the nodes, and that the entries' nodes exist. -/
structure Registered (regMr : Nat → Option IbvMr) (s : Server) : Prop where
  nodes : ∀ node < s.mallocs, (s.nodes node).rndvMr = regMr node
  owned : ∀ node ∈ s.owned, node < s.mallocs

theorem PoolShape.toRegistered (shape : PoolShape regMr s pool tail stale) :
    Registered regMr s :=
  ⟨fun node bound => (shape.registered node bound).1,
    fun node member => shape.bound node (Or.inr (Or.inl member))⟩

/-- The registration of an entry's buffer leads to that buffer. -/
theorem Registered.nodeAt (registered : Registered regMr s)
    (distinct : DistinctMrs regMr) (member : node ∈ s.owned)
    {remote : IbvMr} (answer : regMr node = some remote) :
    s.nodeAt remote = some node := by
  have bound := registered.owned node member
  have here : (s.nodes node).rndvMr = some remote :=
    (registered.nodes node bound).trans answer
  unfold Server.nodeAt
  cases found : (List.range s.mallocs).find? fun other =>
      decide ((s.nodes other).rndvMr = some remote) with
  | none =>
      have missing := List.find?_eq_none.mp found node
        (List.mem_range.mpr bound)
      exact absurd here (by simpa using missing)
  | some other =>
      have inside := List.mem_range.mp (List.mem_of_find?_eq_some found)
      have there := List.find?_some found
      rw [registered.nodes other inside] at there
      rw [distinct other node remote (of_decide_eq_true there) answer]

end Server

/-- An RDMA write changes the contents of the buffer of one key. -/
theorem Represents.write (represents : Represents regMr store s)
    (distinct : DistinctMrs regMr) {node : Nat} {remote : IbvMr}
    (registered : regMr node = some remote) (memory : Memory) :
    Represents regMr (store.setRegion remote memory)
      (s.setRndvBuffer node memory) := by
  refine represents.of_buffers (fun _ => rfl)
    (fun _ => Server.held_setRndvBuffer ..)
    fun key valueLength other holds there registered' region => ?_
  rw [Store.region_setRegion, Server.rndvBuffer_setRndvBuffer]
  by_cases same : other = node
  · subst same
    rw [registered] at registered'
    rw [if_pos rfl, if_pos (Option.some.inj registered').symm]
  · have different : there ≠ remote := by
      rintro rfl
      exact same (distinct other node there registered' registered)
    rw [if_neg same, if_neg different]
    exact region

end RdmaKv
