import RdmaKv.Ex4.Calls
import RdmaKv.Ex4.Schedule
import RdmaKv.Ex4.Simulation
import Mathlib.Data.List.GetD

/-!
# What a reply leaves in `ctx->buf`

A `kv_get` that asks the server builds its request in `ctx->buf`, and the
reply overwrites as many bytes as it has.  The reply for a key that is present
covers everything that the client looks at; the one for a missing key ends
inside its length field.
-/

namespace RdmaKv

open ByteMemory Interaction Relation

/-! ## Servers at rest -/

namespace Server

variable {regMr : Nat → Option IbvMr} {s : Server}

/-- The server is between two requests, and its packets can carry what it
holds. -/
structure Servable (regMr : Nat → Option IbvMr) (s : Server) : Prop where
  sound : Sound regMr s
  inline : ∀ key value, s.held key = some (.inline value) →
    sizeofPacket + value.length ≤ eagerProtocolLimit
  buffer : ∀ key valueLength node,
    s.held key = some (.buffer valueLength node) → valueLength < unsignedRange

/-- So is every server that has served requests as they are sent. -/
theorem session_servable {requests : List Request}
    {replies : List (Option (Packet × Nat))}
    (sent : ∀ request ∈ requests, ∃ message, request.SentAs message)
    (ran : session regMr requests = some (s, replies)) :
    Servable regMr s := by
  have records := session_records ran
  have latest {key : CString} {request : Request}
      (found : Request.latestSet key requests = some request) :
      ∃ message, request.SentAs message :=
    sent request (List.mem_reverse.mp (List.mem_of_find?_eq_some found))
  refine ⟨session_sound ran, fun key value holds => ?_,
    fun key valueLength node holds => ?_⟩
  · have recorded := records key
    split at recorded
    · rename_i found
      obtain ⟨message, isSent⟩ := latest found
      rw [holds] at recorded
      obtain rfl := Held.inline.inj (Option.some.inj recorded)
      exact (isSent.counted _ _ rfl).trans isSent.size
    · obtain ⟨other, same⟩ := recorded
      exact absurd (holds.symm.trans same) (by simp)
    · exact recorded.elim
    · exact absurd (holds.symm.trans recorded) (by simp)
  · have recorded := records key
    split at recorded
    · exact absurd (holds.symm.trans recorded) (by simp)
    · rename_i found
      obtain ⟨message, isSent⟩ := latest found
      obtain ⟨other, same⟩ := recorded
      obtain ⟨rfl, _⟩ :=
        Held.buffer.inj (Option.some.inj (holds.symm.trans same))
      exact Host.sent_number isSent
    · exact recorded.elim
    · exact absurd (holds.symm.trans recorded) (by simp)

def view (regMr : Nat → Option IbvMr) (s : Server) : Store where
  find := fun key =>
    match s.held key with
    | none => none
    | some (.inline value) => some (.eager value)
    | some (.buffer valueLength node) =>
        (regMr node).map (.rendezvous valueLength)
  region := fun remote =>
    match s.nodeAt remote with
    | some node => (s.nodes node).rndvBuffer
    | none => Memory.zero

theorem Servable.represents (servable : Servable regMr s)
    (distinct : DistinctMrs regMr) : Represents regMr (s.view regMr) s := by
  intro key
  cases holds : s.held key with
  | none => simp [view, holds]
  | some holding =>
      cases holding with
      | inline value =>
          exact ⟨by simp [view, holds], servable.inline key value holds⟩
      | buffer valueLength node =>
          have member := held_buffer_mem_owned servable.sound.1 holds
          obtain ⟨remote, registered, _⟩ := servable.sound.registered member
          obtain ⟨_, pool, tail, stale, settled⟩ := servable.sound
          have there := settled.shape.toRegistered.nodeAt distinct member
            registered
          exact ⟨servable.buffer key valueLength node holds, remote,
            registered, by simp [view, holds, registered],
            by simp [view, there]⟩

/-- The reply to a get fits into the client's buffer. -/
theorem Servable.get_size (servable : Servable regMr s) {key : CString}
    {answer : Packet × Nat} (answered : s.eagerGet key = some answer) :
    answer.1.extent ≤ eagerProtocolLimit ∧ answer.2 ≤ eagerProtocolLimit := by
  rw [eagerGet_spec servable.sound.1] at answered
  cases holds : s.held key with
  | none =>
      simp only [holds, Option.some.injEq] at answered
      subst answered
      exact ⟨by decide, by decide⟩
  | some holding =>
      cases holding with
      | inline value =>
          have fits := servable.inline key value holds
          simp only [holds, Option.some.injEq] at answered
          subst answered
          refine ⟨?_, fits⟩
          simp only [Packet.extent, sizeofPacket] at fits ⊢
          omega
      | buffer valueLength node =>
          simp only [holds, Option.map_eq_some_iff] at answered
          obtain ⟨server, _, rfl⟩ := answered
          exact ⟨show 28 ≤ eagerProtocolLimit by decide, sizeofPacket_le⟩

end Server

/-- A get that arrives is answered, and changes nothing but `ctx->buf`. -/
theorem Host.receive_get {regMr : Nat → Option IbvMr} {host : Host}
    (servable : Server.Servable regMr host.state) {key : CString}
    {message : Message} (sent : (Request.eagerGet key).SentAs message) :
    ∃ answer reply buf, host.state.eagerGet key = some answer ∧
      host.receive message = some (⟨host.state, buf, true⟩, some reply) ∧
      reply.IsReply answer ∧ reply.size ≤ eagerProtocolLimit := by
  obtain ⟨answer, answered⟩ := servable.sound.eagerGet_isSome key
  obtain ⟨extent, size⟩ := servable.get_size answered
  have arrived := sent.carries.at_deliver host.buf
  have isRequest :
      (message.deliver host.buf).loadLE 0 4 ∈ [0, 2, 5, 7] := by
    rw [arrived.1]
    exact Host.request_type _
  let buf := answer.1.store (message.deliver host.buf)
  refine ⟨answer, ⟨buf, answer.2⟩, buf, answered, ?_,
    ⟨rfl, ⟨_, rfl⟩, extent⟩, size⟩
  unfold Host.receive
  simp only [if_pos isRequest,
    Packet.read_of_at arrived (Host.request_extent sent), Option.bind_eq_bind,
    Option.bind_some, Request.packet, Server.handleServerPacketsOnly, answered,
    Option.map_some, if_pos extent]
  rfl

namespace Cluster

/-- Nothing is under way. -/
structure AtRest (regMr : Nat → Nat → Option IbvMr) (c : Cluster) : Prop where
  links : ∀ conn, c.links conn = ⟨[], [], false⟩
  idle : ∀ id, (c.hosts id).maintaining = false
  servable : ∀ id, Server.Servable (regMr id) (c.hosts id).state

def view (regMr : Nat → Nat → Option IbvMr) (c : Cluster) : Atomic where
  peers := fun id => ⟨(c.hosts id).state.view (regMr id), none, false⟩
  indexerWaiting := none
  indexerBroken := false

variable {regMr : Nat → Nat → Option IbvMr} {c : Cluster}

theorem AtRest.related (rest : c.AtRest regMr)
    (distinct : ∀ id, DistinctMrs (regMr id)) :
    ClusterRel regMr (c.view regMr) c := by
  refine ⟨fun id => ⟨(c.hosts id).state.view (regMr id), ?_⟩, ?_⟩
  · rw [rest.links]
    refine ⟨(rest.servable id).represents (distinct id), fun busy => ?_,
      fun _ => (rest.servable id).sound, rfl, fun asked => absurd rfl asked,
      fun key value same => absurd same (by simp [view]),
      .asked [] .nil rfl rfl⟩
    rw [rest.idle] at busy
    exact absurd busy (by simp)
  · rw [rest.links]
    exact ⟨rfl, fun asked => absurd rfl asked, Or.inl ⟨.nil, rfl⟩⟩

end Cluster

/-- Whatever operations a client has performed, where nothing is under way any
more the cluster is at rest. -/
theorem ClusterRel.atRest {regMr : Nat → Nat → Option IbvMr} {a : Atomic}
    {c : Cluster} (related : ClusterRel regMr a c)
    (links : ∀ conn, c.links conn = ⟨[], [], false⟩)
    (idle : ∀ id, (c.hosts id).maintaining = false) : c.AtRest regMr := by
  refine ⟨links, idle, fun id => ?_⟩
  obtain ⟨base, here⟩ := related.peers id
  exact ⟨here.settled (idle id),
    fun key value holds => (here.represents.inline holds).2,
    fun key valueLength node holds => (here.represents.buffer holds).1⟩

theorem Cluster.Initial.atRest {regMr : Nat → Nat → Option IbvMr}
    {c : Cluster} (initial : Cluster.Initial regMr c) : c.AtRest regMr :=
  (ClusterRel.init initial).atRest initial.links initial.idle

/-! ## How a `kv_get` ends -/

def GetResult.string (result : GetResult) : Option CString :=
  result.value.bind fun block => (Memory.ofList block).string? 0 block.length

inductive GetOutcome where
  | crashed
  | returned (ret : Int) (string : Option CString)

/-- The client has ended like this. -/
def GetOutcome.Of (outcome : GetOutcome) : Run (GetResult × Client) → Prop
  | .done (result, _) => outcome = .returned result.ret result.string
  | .crash => outcome = .crashed
  | .perform _ _ => False

/-- Some run of a client ends like this. -/
def Gives (regMr : Nat → Nat → Option IbvMr)
    (start : Run (GetResult × Client) × Cluster) (outcome : GetOutcome) :
    Prop :=
  ∃ reached, Steps (Cluster.environment regMr) start reached ∧
    outcome.Of reached.1

section Outcomes

variable {regMr : Nat → Nat → Option IbvMr} {c : Cluster} {server : Nat}
  {key : CString} {client : Client}

theorem Gives.of_steps {start reached : Run (GetResult × Client) × Cluster}
    {outcome : GetOutcome}
    (steps : Steps (Cluster.environment regMr) start reached)
    (gives : Gives regMr reached outcome) : Gives regMr start outcome := by
  obtain ⟨last, later, ended⟩ := gives
  exact ⟨last, steps.trans later, ended⟩

variable (regMr server key) in
/-- Once the reply has arrived, the client ends. -/
private theorem getReply_ends (client : Client) (c : Cluster) :
    ∃ outcome, Gives regMr (getReply server key client, c) outcome := by
  unfold getReply
  simp only
  split
  · split
    · exact ⟨_, _, .refl, rfl⟩
    · exact ⟨_, _, .refl, rfl⟩
  · split
    · have completes (region length : Nat) (remote : IbvMr) :
          ∃ given c', c.complete (.rdmaRead server key region length remote) =
            some (given, c') := by
        simp only [Cluster.complete]
        split <;> exact ⟨_, _, rfl⟩
      obtain ⟨given, c', completed⟩ := completes _ _ _
      exact ⟨_, _, .single (.answer completed), rfl⟩
    · exact ⟨_, _, .refl, rfl⟩

def getRequest (key : CString) (buf : Memory) : Memory :=
  (buf.storeLE 0 4 PacketType.eagerGetRequest.code).copy 8 (key.length + 1)
    key.memory

variable (regMr client) in
/-- A request is sent to a server that waits for one, and its reply arrives. -/
theorem Cluster.steps_exchange {α : Type} (next : Option Client → Run α)
    {id : Nat} {message reply : Message} {host : Host}
    (quiet : c.links (.server id) = ⟨[], [], false⟩)
    (idle : (c.hosts id).maintaining = false)
    (fits : message.size ≤ eagerProtocolLimit)
    (received : (c.hosts id).receive message = some (host, some reply))
    (size : reply.size ≤ eagerProtocolLimit) :
    ∃ c', Steps (Cluster.environment regMr)
      (client.exchange (.server id) message >>= next, c)
      (next (some (client.setBuf (.server id)
        (reply.deliver (client.buf (.server id))))), c') := by
  let asked := c.setLink (.server id) ⟨[message], [], false⟩
  have posts : c.complete (.send (.server id) message) =
      some ((true : Bool), asked) := by
    simp only [Cluster.complete, quiet]
    rw [if_pos ⟨trivial, fits⟩]
    rfl
  have waits : asked.links (.server id) = ⟨[message], [], false⟩ :=
    if_pos rfl
  let answered := (asked.setHost id host).setLink (.server id)
    ((asked.links (.server id)).handled [] (some reply))
  have evolves : Cluster.Evolve regMr asked answered :=
    .receive idle (by rw [waits]) received
  have arrives : answered.links (.server id) = ⟨[], [reply], false⟩ := by
    simp [answered, Cluster.setLink, waits, Link.handled, size]
  have completes : answered.complete (.recv (.server id)) =
      some (some reply, answered.setLink (.server id) ⟨[], [], false⟩) := by
    simp only [Cluster.complete, arrives]
    rfl
  let resume (replied : Option Message) : Run α :=
    next (replied.map fun reply =>
      client.setBuf (.server id) (reply.deliver (client.buf (.server id))))
  have receives : Step (Cluster.environment regMr)
      (Program.perform (.recv (.server id)) resume, answered)
      (resume (some reply), answered.setLink (.server id) ⟨[], [], false⟩) :=
    .answer completes
  exact ⟨_, .head (.answer posts) (.head (.evolve evolves)
    (.single receives))⟩

/-- A `kv_get` that asks the server, with its request in `ctx->buf`. -/
private theorem kvGet_short
    (short : key.length + 1 + sizeofPacket ≤ eagerProtocolLimit)
    (uncached : key ≠ client.lastRndvAccessedKey) :
    kvGet server key client =
      (let request := getRequest key (client.buf (.server server))
      (client.setBuf (.server server) request).exchange (.server server)
          ⟨request, key.length + 1 + sizeofPacket⟩ >>= fun replied =>
        getReply server key
          (replied.getD (client.setBuf (.server server) request))) := by
  have range : eagerProtocolLimit < unsignedRange := by decide
  have keyLength : key.length % unsignedRange = key.length :=
    Nat.mod_eq_of_lt (by omega)
  have packetSize : (key.length + 1 + sizeofPacket) % unsignedRange =
      key.length + 1 + sizeofPacket := Nat.mod_eq_of_lt (by omega)
  have inside : 8 + (key.length + 1) ≤ eagerProtocolLimit := by
    simp only [sizeofPacket] at short
    omega
  unfold kvGet
  simp only [keyLength, packetSize, if_neg (not_lt.mpr short), if_pos inside]
  rw [if_pos uncached]
  rfl

variable (server client) in
/-- A `kv_get` that asks a server at rest goes on with the reply. -/
theorem Cluster.AtRest.steps_kvGet (rest : c.AtRest regMr)
    (short : key.length + 1 + sizeofPacket ≤ eagerProtocolLimit)
    (uncached : key ≠ client.lastRndvAccessedKey) :
    ∃ answer reply client' c',
      (c.hosts server).state.eagerGet key = some answer ∧
      Message.IsReply reply answer ∧
      client'.buf (.server server) = reply.deliver
        (getRequest key (client.buf (.server server))) ∧
      Steps (Cluster.environment regMr) (kvGet server key client, c)
        (getReply server key client', c') := by
  obtain ⟨answer, reply, buf, answered, received, isReply, size⟩ :=
    Host.receive_get (rest.servable server)
      (eagerGet_sent (client.buf (.server server)) key short le_rfl)
  let request := client.setBuf (.server server)
    (getRequest key (client.buf (.server server)))
  obtain ⟨c', steps⟩ := Cluster.steps_exchange regMr request
    (fun replied => getReply server key (replied.getD request))
    (rest.links _) (rest.idle _) short received size
  rw [kvGet_short short uncached]
  exact ⟨answer, reply, request.setBuf (.server server) (reply.deliver
    (request.buf (.server server))), c', answered, isReply, by simp [request],
    steps⟩

variable (server) in
/-- A key that is too long for a `kv_get`: it returns at once, or crashes if
the size of its packet overflows. -/
private theorem kvGet_long (small : key.length < unsignedRange)
    (long : eagerProtocolLimit < key.length + 1 + sizeofPacket) :
    ∃ outcome : GetOutcome, outcome ≠ .returned 0 (some CString.empty) ∧
      ∀ client : Client, key ≠ client.lastRndvAccessedKey →
        outcome.Of (kvGet server key client) := by
  have keyLength : key.length % unsignedRange = key.length :=
    Nat.mod_eq_of_lt small
  by_cases refused : (key.length + 1 + sizeofPacket) % unsignedRange >
      eagerProtocolLimit
  · refine ⟨.returned (-1) none, by simp, fun client _ => ?_⟩
    unfold kvGet
    simp only [keyLength]
    rw [if_pos refused]
    rfl
  · have outside : ¬ 8 + (key.length + 1) ≤ eagerProtocolLimit := by
      intro inside
      refine refused ?_
      rw [Nat.mod_eq_of_lt]
      · exact long
      · simp only [eagerProtocolLimit, sizeofPacket, unsignedRange] at inside ⊢
        omega
    refine ⟨.crashed, by simp, fun client uncached => ?_⟩
    unfold kvGet
    simp only [keyLength]
    rw [if_neg refused, if_pos uncached, if_neg outside]
    rfl

/-- The result of a `kv_get` does not depend on what `ctx->buf` held, and for a
key that the server does not have it is the empty string. -/
def Clean (regMr : Nat → Nat → Option IbvMr) (c : Cluster) (server : Nat)
    (key : CString) (client : Client) : Prop :=
  ∃ outcome : GetOutcome,
    (∀ buf other, Gives regMr
        (KvClient.kvGet server key (client.setBuf (.server server) buf), c)
        other ↔ other = outcome) ∧
      ((c.hosts server).state.findEntry key = none →
        outcome = .returned 0 (some CString.empty))

/-- A client that has ended has ended in one way. -/
theorem GetOutcome.Of.gives_iff {outcome other : GetOutcome}
    {program : Run (GetResult × Client)} (ends : outcome.Of program) :
    Gives regMr (program, c) other ↔ other = outcome := by
  constructor
  · rintro ⟨reached, steps, ended⟩
    have stopped : program.posted? = none := by
      cases program with
      | done value => rfl
      | crash => rfl
      | perform op resume => exact ends.elim
    rw [program_eq_of_steps stopped steps] at ended
    cases program with
    | done value => exact Eq.trans ended (Eq.symm ends)
    | crash => exact Eq.trans ended (Eq.symm ends)
    | perform op resume => exact ends.elim
  · rintro rfl
    exact ⟨_, .refl, ends⟩

/-! ## A key that is present -/

def Stored.result (region : IbvMr → Memory) : Stored → GetResult
  | .eager value => ⟨0, some (value ++ [0]), some value.length⟩
  | .rendezvous valueLength remote =>
      let size := (valueLength + 1) % unsignedRange
      let memory :=
        if size ≤ maxTestSize then Memory.zero.copy 0 size (region remote)
        else Memory.zero
      ⟨0, some (memory.slice 0 size), some valueLength⟩

variable (client) in
/-- Whatever `ctx->buf` held, it returns what is stored. -/
private theorem achieves_present {a : Atomic} {stored : Stored}
    (quiet : (a.peers server).waiting = none)
    (intact : (a.peers server).broken = false)
    (present : (a.peers server).store.find key = some stored)
    (short : key.length + 1 + sizeofPacket ≤ eagerProtocolLimit)
    (uncached : key ≠ client.lastRndvAccessedKey) :
    Achieves False False
      (fun result _ =>
        result.1 = stored.result (a.peers server).store.region)
      (kvGet server key client) a := by
  rw [kvGet_short short uncached]
  refine achieves_exchange quiet
    (fun small => eagerGet_sent _ _ small le_rfl)
    (fun _ _ same => absurd same (by simp)) (fun reason => ?_)
    (fun _ _ reply store replied => ?_)
  · rcases reason with broken | large
    · exact absurd (intact.symm.trans broken) (by simp)
    · exact absurd short (not_le.mpr large)
  obtain rfl := replied.of_get
  cases replied with
  | missing absent type covers =>
      exact absurd (present.symm.trans absent) (by simp)
  | eager found carries fits =>
      rename_i value
      obtain rfl := Option.some.inj (present.symm.trans found)
      have room : 12 + value.length ≤ eagerProtocolLimit := by
        simp only [sizeofPacket] at fits
        omega
      rw [Option.getD_some, getReply_eager (by
        rw [Client.buf_setBuf]
        exact carries.at_deliver _) room]
      exact achieves_done rfl
  | rendezvous found carries =>
      rename_i valueLength remote
      obtain rfl := Option.some.inj (present.symm.trans found)
      rw [Option.getD_some, getReply_rendezvous (by
        rw [Client.buf_setBuf]
        exact carries.at_deliver _)]
      refine wp_perform_of_still Atomic.still
        ⟨⟨by simp, valueLength, by simpa using found⟩, fun no => no.elim⟩ ?_
      intro given after answered
      refine achieves_done ?_
      cases answered with
      | reads _ inside =>
          simp [Stored.result, if_pos inside.1]
      | readFails reason =>
          have tooLong : ¬ (valueLength + 1) % unsignedRange ≤ maxTestSize := by
            rcases reason with broken | outside
            · exact absurd broken (by simp [intact])
            · exact fun inside => outside ⟨inside, le_rfl⟩
          simp [Stored.result, if_neg tooLong]

/-- A key that is present is read in the same way whatever `ctx->buf` held. -/
private theorem clean_of_present (distinct : ∀ id, DistinctMrs (regMr id))
    (rest : c.AtRest regMr) (small : key.length < unsignedRange)
    (uncached : key ≠ client.lastRndvAccessedKey)
    (present : (c.hosts server).state.findEntry key ≠ none) :
    Clean regMr c server key client := by
  by_cases long : eagerProtocolLimit < key.length + 1 + sizeofPacket
  · obtain ⟨outcome, _, ends⟩ := kvGet_long server small long
    exact ⟨outcome, fun buf other =>
      (ends (client.setBuf (.server server) buf) uncached).gives_iff,
      fun absent => absurd absent present⟩
  have short := not_lt.mp long
  have related := rest.related distinct
  obtain ⟨stored, found⟩ : ∃ stored,
      ((c.view regMr).peers server).store.find key = some stored := by
    have represents := (rest.servable server).represents (distinct server)
    cases holds : (c.hosts server).state.held key with
    | none =>
        exact absurd ((Server.held_eq_none_iff
          (rest.servable server).sound.1).mp holds) present
    | some holding =>
        cases holding with
        | inline value => exact ⟨_, (represents.inline holds).1⟩
        | buffer valueLength node =>
            obtain ⟨_, remote, _, isFound, _⟩ := represents.buffer holds
            exact ⟨_, isFound⟩
  let result := stored.result ((c.view regMr).peers server).store.region
  have only (buf : Memory) (other : GetOutcome)
      (gives : Gives regMr (KvClient.kvGet server key
        (client.setBuf (.server server) buf), c) other) :
      other = .returned result.ret result.string := by
    obtain ⟨⟨program, c'⟩, steps, ended⟩ := gives
    obtain ⟨a, _, achieved⟩ := (simulation regMr distinct False).reachable
      related (achieves_present (client.setBuf (.server server) buf) rfl rfl
        found short uncached) steps
    cases program with
    | done value =>
        have same : value.1 = result := achieved a .refl
        exact Eq.trans ended (by rw [same])
    | crash => exact achieved.elim
    | perform op resume => exact ended.elim
  refine ⟨.returned result.ret result.string, fun buf other =>
    ⟨only buf other, ?_⟩, fun absent => absurd absent present⟩
  rintro rfl
  obtain ⟨_, _, client', c', _, _, _, steps⟩ := rest.steps_kvGet server
    (client.setBuf (.server server) buf) short uncached
  obtain ⟨outcome, gives⟩ := getReply_ends regMr server key client' c'
  have isOutcome := only buf outcome (gives.of_steps steps)
  rw [← isOutcome]
  exact gives.of_steps steps

/-! ## A key that is missing -/

/-- What an earlier request may have left: a letter where a value begins. -/
def leftover : Memory := fun i => if i = 12 then 97 else 0

/-- The reply for a missing key ends in the length field, so the length and
the value are those of the request and of what was there before it. -/
private theorem getReply_missing {reply : Message}
    (isReply : reply.IsReply (.eagerGetResponse [0], sizeofPointer + 1))
    (arrived : client.buf (.server server) =
      reply.deliver (getRequest key leftover)) :
    ∃ outcome : GetOutcome, outcome ≠ .returned 0 (some CString.empty) ∧
      outcome.Of (getReply server key client) := by
  obtain ⟨before, bytes⟩ := isReply.bytes
  have stored : (Packet.eagerGetResponse [0]).At reply.bytes := by
    rw [bytes]
    exact Packet.at_store ⟨by decide, by decide⟩ before
  have size : reply.size = 9 := isReply.size
  have sent (i : Nat) (inside : i < 9) :
      client.buf (.server server) i = reply.bytes i := by
    rw [arrived]
    exact reply.deliver_inside _ (by omega)
  have kept (i : Nat) (outside : 9 ≤ i) :
      client.buf (.server server) i = getRequest key leftover i := by
    rw [arrived]
    exact reply.deliver_outside _ (by omega)
  have type : (client.buf (.server server)).loadLE 0 4 =
      PacketType.eagerGetResponse.code := by
    refine Eq.trans ?_ stored.1
    exact Memory.loadLE_congr fun i _ bound => sent i (by omega)
  have positive : 0 < (client.buf (.server server) 8).toNat := by
    have length := stored.2.1
    simp only [Memory.loadLE, List.length_singleton] at length
    rw [sent 8 (by omega)]
    omega
  by_cases fits : 12 + (client.buf (.server server)).loadLE 8 4 ≤
      eagerProtocolLimit
  · have short : key.length < 4 := by
      by_contra long
      have fourth : 0 < (client.buf (.server server) 11).toNat := by
        rw [kept 11 (by omega), getRequest,
          Memory.copy_inside _ _ (by omega) (by omega)]
        exact Nat.pos_of_ne_zero fun zero =>
          key.memory_ne_zero (by omega) (UInt8.toNat_inj.mp zero)
      simp only [Memory.loadLE, eagerProtocolLimit, Nat.reduceAdd] at fits
      omega
    have letter : client.buf (.server server) 12 = 97 := by
      rw [kept 12 (by omega), getRequest,
        Memory.copy_outside _ _ (Or.inr (by omega)),
        Memory.storeLE_outside _ _ (by omega)]
      rfl
    refine ⟨.returned 0 (GetResult.string ⟨0, some
      ((client.buf (.server server)).slice 12
        ((client.buf (.server server)).loadLE 8 4) ++ [0]), none⟩), ?_, ?_⟩
    · intro same
      have isEmpty := (GetOutcome.returned.inj same).2
      have begins :=
        (Memory.string?_eq_some_iff.mp isEmpty).2 0 (Nat.zero_le _)
      have nonempty : 0 < (client.buf (.server server)).loadLE 8 4 := by
        simp only [Memory.loadLE]
        omega
      rw [Memory.ofList, Nat.zero_add, List.getD_append _ _ _ _ (by
        rw [Memory.length_slice]
        exact nonempty), Memory.getD_slice _ _ nonempty, letter] at begins
      exact absurd begins (by decide)
    · unfold getReply
      simp only [if_pos type, if_pos fits]
      rfl
  · refine ⟨.crashed, by simp, ?_⟩
    unfold getReply
    simp only [if_pos type, if_neg fits]
    rfl

private theorem not_clean_of_missing (rest : c.AtRest regMr)
    (small : key.length < unsignedRange)
    (uncached : key ≠ client.lastRndvAccessedKey)
    (absent : (c.hosts server).state.findEntry key = none) :
    ¬ Clean regMr c server key client := by
  rintro ⟨outcome, gives, isEmpty⟩
  obtain rfl := isEmpty absent
  by_cases long : eagerProtocolLimit < key.length + 1 + sizeofPacket
  · obtain ⟨outcome, different, ends⟩ := kvGet_long server small long
    exact different ((gives Memory.zero outcome).mp ⟨_, .refl, ends _ uncached⟩)
  obtain ⟨answer, reply, client', c', answered, isReply, arrived, steps⟩ :=
    rest.steps_kvGet server (client.setBuf (.server server) leftover)
      (not_lt.mp long) uncached
  rw [Client.buf_setBuf] at arrived
  rw [Server.eagerGet, absent] at answered
  obtain rfl := Option.some.inj answered
  obtain ⟨outcome, different, ends⟩ := getReply_missing isReply arrived
  exact different ((gives leftover outcome).mp ⟨_, steps, ends⟩)

/-- On servers at rest a `kv_get` that asks the server returns the same
whatever `ctx->buf` held, and the empty string for a missing key, if and only
if the key is not missing. -/
theorem kvGet_clean_iff (distinct : ∀ id, DistinctMrs (regMr id))
    (rest : c.AtRest regMr) (small : key.length < unsignedRange)
    (uncached : key ≠ client.lastRndvAccessedKey) :
    Clean regMr c server key client ↔
      (c.hosts server).state.findEntry key ≠ none := by
  constructor
  · intro clean absent
    exact not_clean_of_missing rest small uncached absent clean
  · exact clean_of_present distinct rest small uncached

/-- A run under one schedule that returns a string. -/
private theorem gives_of_run (fuel : Nat)
    {start : Run (GetResult × Client) × Cluster}
    {ret : Int} {string : CString}
    (ran : (((advance (Cluster.respond regMr) fuel start).bind
      fun reached => reached.1.result?).any fun value =>
        decide (value.1.ret = ret ∧ value.1.string = some string)) = true) :
    Gives regMr start (.returned ret (some string)) := by
  obtain ⟨value, c, steps, tested⟩ := Cluster.steps_of_value _ fuel start _ ran
  obtain ⟨rfl, isString⟩ := of_decide_eq_true tested
  exact ⟨_, steps, congrArg (GetOutcome.returned value.1.ret) isString.symm⟩

end Outcomes

open Sample

/-- The first server has served two rendezvous sets. -/
def holding : Cluster :=
  cluster.setHost 0
    ⟨((Server.session (mr 0) taking).map Prod.fst).getD server, Memory.zero,
      false⟩

private theorem holding_atRest : holding.AtRest mr := by
  have initial := cluster_initial.atRest
  refine ⟨initial.links, fun id => ?_, fun id => ?_⟩
  · by_cases isFirst : id = 0 <;>
      simp [holding, Cluster.setHost, isFirst, initial.idle]
  · by_cases isFirst : id = 0
    · subst isFirst
      have completes : (Server.session (mr 0) taking).isSome = true := by
        decide +kernel
      obtain ⟨⟨s, replies⟩, ran⟩ := Option.isSome_iff_exists.mp completes
      have isState : (holding.hosts 0).state = s := by
        simp [holding, Cluster.setHost, ran]
      rw [isState]
      refine Server.session_servable (fun request member => ?_) ran
      simp only [taking, List.mem_cons, List.not_mem_nil, or_false] at member
      rcases member with rfl | rfl
      · exact ⟨_, rendezvousSet_sent Memory.zero (by decide)
          (show 34 ≤ eagerProtocolLimit by decide) (by decide)⟩
      · exact ⟨_, rendezvousSet_sent Memory.zero (by decide)
          (show 34 ≤ eagerProtocolLimit by decide) (by decide)⟩
    · simpa [holding, Cluster.setHost, isFirst] using initial.servable id

theorem kvGet_clean_holding : Clean mr holding 0 firstKey client :=
  (kvGet_clean_iff mr_distinct holding_atRest (by decide) (by decide)).mpr
    (by decide +kernel)

/-- For a missing key a `kv_get` returns the empty string, or what an earlier
request left in `ctx->buf`. -/
theorem kvGet_clean_fails :
    cluster.AtRest mr ∧ firstKey ≠ client.lastRndvAccessedKey ∧
      Gives mr (KvClient.kvGet 0 firstKey
        (client.setBuf (.server 0) Memory.zero), cluster)
        (.returned 0 (some CString.empty)) ∧
      Gives mr (KvClient.kvGet 0 firstKey
        (client.setBuf (.server 0) leftover), cluster)
        (.returned 0 (some firstKey)) ∧
      ¬ Clean mr cluster 0 firstKey client :=
  ⟨cluster_initial.atRest, by decide, gives_of_run 2 (by decide +kernel),
    gives_of_run 2 (by decide +kernel),
    not_clean_of_missing cluster_initial.atRest (by decide) (by decide)
      (by decide)⟩

end RdmaKv
