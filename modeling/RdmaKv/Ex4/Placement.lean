import RdmaKv.Ex4.Posts
import RdmaKv.Ex4.Schedule
import RdmaKv.Ex4.Scripts

/-!
# Where the entries of a cluster are

The index server's answer to `FIND` depends on the key and the number of
servers only, and `dkv_set` sends a key to that server.  So along every run of
`dkv_set` and `dkv_get` a server has entries for such keys only, and one for
each.
-/

namespace RdmaKv

open ByteMemory Interaction Relation

/-! ## The keys of one server -/

namespace Server

variable {s s' : Server} {key : CString} {entry updated : KvEntry}

def keys (s : Server) : List CString := s.entries.map KvEntry.key

private theorem keys_putEntry (found : s.findEntry key = some entry)
    (sameKey : updated.key = key) :
    (s.putEntry key updated).keys = s.keys := by
  obtain ⟨entryKey, before, after, split, _, replaced⟩ :=
    findEntry_split found
  have assigned : (s.putEntry key updated).entries =
      before ++ updated :: after := replaced updated
  rw [keys, keys, assigned, split]
  simp [sameKey, entryKey]

@[simp]
theorem keys_appendEntry :
    (s.appendEntry entry).keys = s.keys ++ [entry.key] := by
  simp [keys, appendEntry]

private theorem not_mem_keys (absent : s.findEntry key = none) :
    key ∉ s.keys := by
  intro member
  obtain ⟨entry, inside, isKey⟩ := List.mem_map.mp member
  have different := List.find?_eq_none.mp absent entry inside
  exact different (decide_eq_true isKey)

theorem entries_taint {buffer : Option Nat}
    (ran : s.taint buffer = some s') : s'.entries = s.entries := by
  unfold taint at ran
  split at ran
  · obtain rfl := Option.some.inj ran
    rfl
  · split at ran
    · exact absurd ran (by simp)
    · obtain rfl := Option.some.inj ran
      rfl

private theorem entries_takeBuffer {node : Nat}
    (ran : s.takeBuffer = some (node, s')) : s'.entries = s.entries := by
  unfold takeBuffer at ran
  split at ran
  · exact absurd ran (by simp)
  · obtain ⟨_, rfl⟩ := Prod.mk.inj (Option.some.inj ran)
    rfl

/-- What the search finds and the keys depend on the entries only. -/
theorem keys_congr (same : s'.entries = s.entries) :
    s'.keys = s.keys ∧ ∀ key, s'.findEntry key = s.findEntry key := by
  unfold keys findEntry
  rw [same]
  exact ⟨rfl, fun _ => rfl⟩

theorem keys_eagerSet {value : List UInt8}
    (ran : s.eagerSet key value = some s') :
    s'.keys = s.keys ∨ key ∉ s.keys ∧ s'.keys = s.keys ++ [key] := by
  unfold eagerSet at ran
  split at ran
  · rename_i entry found
    have sameKey := findEntry_key found
    split at ran
    · obtain ⟨t, tainted, rest⟩ := Option.bind_eq_some_iff.mp ran
      obtain rfl := Option.some.inj rest
      obtain ⟨sameKeys, sameFound⟩ := keys_congr (entries_taint tainted)
      have inside := (sameFound key).trans found
      refine Or.inl (Eq.trans ?_ sameKeys)
      exact keys_putEntry inside sameKey
    · split at ran
      · obtain rfl := Option.some.inj ran
        exact Or.inl (keys_putEntry found sameKey)
      · split at ran
        · obtain rfl := Option.some.inj ran
          exact Or.inl (keys_putEntry found sameKey)
        · exact absurd ran (by simp)
  · rename_i absent
    obtain rfl := Option.some.inj ran
    exact Or.inr ⟨not_mem_keys absent, keys_appendEntry⟩

private theorem rendezvousReply_fst {node : Nat} {reply : Packet}
    (ran : s.rendezvousReply node = some (s', reply)) : s' = s := by
  obtain ⟨server, _, pair⟩ := Option.map_eq_some_iff.mp ran
  exact (Prod.mk.inj pair).1.symm

theorem keys_rendezvousSet {valueLength : Nat} {reply : Packet}
    (ran : s.rendezvousSet valueLength key = some (s', reply)) :
    s'.keys = s.keys ∨ key ∉ s.keys ∧ s'.keys = s.keys ++ [key] := by
  unfold rendezvousSet at ran
  split at ran
  · rename_i entry found
    have sameKey := findEntry_key found
    split at ran
    · obtain ⟨⟨node, t⟩, taken, rest⟩ := Option.bind_eq_some_iff.mp ran
      obtain rfl := rendezvousReply_fst rest
      obtain ⟨sameKeys, sameFound⟩ := keys_congr (entries_takeBuffer taken)
      have inside := (sameFound key).trans found
      refine Or.inl (Eq.trans ?_ sameKeys)
      exact keys_putEntry inside sameKey
    · obtain rfl := rendezvousReply_fst ran
      exact Or.inl (keys_putEntry found sameKey)
  · rename_i absent
    obtain ⟨⟨node, t⟩, taken, rest⟩ := Option.bind_eq_some_iff.mp ran
    obtain rfl := rendezvousReply_fst rest
    obtain ⟨sameKeys, _⟩ := keys_congr (entries_takeBuffer taken)
    refine Or.inr ⟨not_mem_keys absent, ?_⟩
    rw [keys_appendEntry, sameKeys]

/-- A request leaves the keys as they are, or it sets a key that was not there
and appends it. -/
private theorem keys_handle {request : Request} {reply : Option (Packet × Nat)}
    (handled : s.handleServerPacketsOnly request.packet =
      some (s', reply)) :
    s'.keys = s.keys ∨ ∃ key, request.sets key = true ∧ key ∉ s.keys ∧
      s'.keys = s.keys ++ [key] := by
  cases request with
  | eagerGet key =>
      obtain ⟨answer, _, pair⟩ := Option.map_eq_some_iff.mp handled
      rw [← (Prod.mk.inj pair).1]
      exact Or.inl rfl
  | eagerSet key value =>
      obtain ⟨t, ran, pair⟩ := Option.map_eq_some_iff.mp handled
      obtain ⟨rfl, _⟩ := Prod.mk.inj pair
      exact (keys_eagerSet ran).imp_right fun appended =>
        ⟨key, decide_eq_true rfl, appended⟩
  | rendezvousSet valueLength key =>
      obtain ⟨⟨t, answer⟩, ran, pair⟩ := Option.map_eq_some_iff.mp handled
      obtain ⟨rfl, _⟩ := Prod.mk.inj pair
      exact (keys_rendezvousSet ran).imp_right fun appended =>
        ⟨key, decide_eq_true rfl, appended⟩

private theorem keys_maintain {regMr : Nat → Option IbvMr}
    (ran : maintainPool regMr s = some s') : s'.keys = s.keys :=
  (keys_congr (maintainPool_entries ran)).1

end Server

/-! ## The index server -/

section Placement

variable {numServers : Nat} {regMr : Nat → Nat → Option IbvMr} {c c' : Cluster}
  {key : CString}

/-- The index server answers `FIND` with this server, whatever its buffer held
before. -/
def Locates (numServers : Nat) (key : CString) (id : Nat) : Prop :=
  ∀ buf message, message.Carries (.find numServers key) →
    message.size ≤ eagerProtocolLimit →
    ∃ buf' reply, locate buf message = some (buf', reply) ∧
      reply.Carries (.location id)

private theorem locates_selectServer (positive : 0 < numServers)
    (key : CString) :
    Locates numServers key (selectServer numServers key) := by
  intro buf message carries size
  have isFind : Packet.read (message.deliver buf) =
      some (.find numServers key) :=
    Packet.read_of_at (carries.at_deliver buf) (carries.2.trans size)
  have computed : locate buf message = some
      ((Packet.location (selectServer numServers key)).store
          (message.deliver buf),
        ⟨(Packet.location (selectServer numServers key)).store
          (message.deliver buf), sizeofPacket⟩) := by
    unfold locate
    rw [isFind]
    exact if_neg (Nat.pos_iff_ne_zero.mp positive)
  have inRange : (Packet.location (selectServer numServers key)).InRange :=
    ⟨show 12 ≤ eagerProtocolLimit by decide, selectServer_lt numServers key⟩
  exact ⟨_, _, computed, Packet.at_store inRange _,
    show 12 ≤ sizeofPacket by decide⟩

/-! ## The invariant -/

/-- The set requests under way to a server are for its keys, and so are its
entries, one for each key. -/
structure Placed (numServers : Nat) (c : Cluster) : Prop where
  sent : ∀ id, ∀ message ∈ (c.links (.server id)).toServer,
    ∃ request : Request, request.SentAs message ∧
      ∀ key, request.sets key = true → selectServer numServers key = id
  stored : ∀ id, ∀ key ∈ (c.hosts id).state.keys,
    selectServer numServers key = id
  once : ∀ id, (c.hosts id).state.keys.Nodup

/-- What may be sent: to a server, a request that sets only keys of that
server. -/
def MayPost (numServers : Nat) : Op → Cluster → Prop
  | .send (.server id) message, _ =>
      message.size ≤ eagerProtocolLimit →
        ∃ request : Request, request.SentAs message ∧
          ∀ key, request.sets key = true → selectServer numServers key = id
  | _, _ => True

theorem Placed.init (initial : Cluster.Initial regMr c) :
    Placed numServers c := by
  have empty (id : Nat) : (c.hosts id).state.keys = [] := by
    rw [Server.keys, (Server.start_settled (initial.started id)).2]
    rfl
  refine ⟨fun id message member => ?_, fun id key member => ?_, fun id => ?_⟩
  · rw [initial.links] at member
    exact absurd member List.not_mem_nil
  · rw [empty] at member
    exact absurd member List.not_mem_nil
  · rw [empty]
    exact List.nodup_nil

/-- One server's link and host change. -/
theorem Placed.update (placed : Placed numServers c) (id : Nat)
    (links : ∀ other, other ≠ id →
      c'.links (.server other) = c.links (.server other))
    (hosts : ∀ other, other ≠ id →
      (c'.hosts other).state.keys = (c.hosts other).state.keys)
    (sent : ∀ message ∈ (c'.links (.server id)).toServer,
      ∃ request : Request, request.SentAs message ∧
        ∀ key, request.sets key = true → selectServer numServers key = id)
    (stored : ∀ key ∈ (c'.hosts id).state.keys,
      selectServer numServers key = id)
    (once : (c'.hosts id).state.keys.Nodup) : Placed numServers c' := by
  refine ⟨fun other => ?_, fun other => ?_, fun other => ?_⟩
  · by_cases same : other = id
    · exact same ▸ sent
    · rw [links other same]
      exact placed.sent other
  · by_cases same : other = id
    · exact same ▸ stored
    · rw [hosts other same]
      exact placed.stored other
  · by_cases same : other = id
    · exact same ▸ once
    · rw [hosts other same]
      exact placed.once other

/-- Only the links and the keys matter. -/
theorem Placed.congr (placed : Placed numServers c)
    (links : ∀ id, (c'.links (.server id)).toServer =
      (c.links (.server id)).toServer)
    (keys : ∀ id, (c'.hosts id).state.keys = (c.hosts id).state.keys) :
    Placed numServers c' := by
  refine ⟨fun id => ?_, fun id => ?_, fun id => ?_⟩
  · rw [links]
    exact placed.sent id
  · rw [keys]
    exact placed.stored id
  · rw [keys]
    exact placed.once id

/-- A server's step keeps the placement. -/
theorem Placed.evolve (placed : Placed numServers c)
    (step : Cluster.Evolve regMr c c') : Placed numServers c' := by
  cases step with
  | receive idle arrived received =>
      rename_i id message rest host reply
      obtain ⟨request, sent, sets⟩ := placed.sent id message
        (arrived ▸ List.mem_cons_self)
      obtain ⟨answer, handled, _, _⟩ := Host.receive_spec sent received
      refine placed.update id (fun other different => ?_)
        (fun other different => ?_) ?_ ?_ ?_
      · simp [Cluster.setLink, Cluster.setHost, different]
      · simp [Cluster.setLink, Cluster.setHost, different]
      · intro later member
        simp only [Cluster.setLink, if_true, Link.toServer_handled] at member
        exact placed.sent id later (arrived ▸ List.mem_cons_of_mem _ member)
      · intro key member
        simp only [Cluster.setLink, Cluster.setHost, if_true] at member
        rcases Server.keys_handle handled with same | ⟨new, isSet, _, appended⟩
        · exact placed.stored id key (same ▸ member)
        · rw [appended, List.mem_append, List.mem_singleton] at member
          rcases member with old | rfl
          · exact placed.stored id key old
          · exact sets key isSet
      · simp only [Cluster.setLink, Cluster.setHost, if_true]
        rcases Server.keys_handle handled with same | ⟨new, _, fresh, appended⟩
        · rw [same]
          exact placed.once id
        · rw [appended]
          exact List.nodup_append.mpr ⟨placed.once id, List.nodup_singleton _,
            fun key inside other isNew => by
              rw [List.mem_singleton.mp isNew]
              exact fun same => fresh (same ▸ inside)⟩
  | maintain busy maintained =>
      rename_i id host
      obtain ⟨state, ran, rfl⟩ := Option.map_eq_some_iff.mp maintained
      refine placed.congr (fun other => rfl) fun other => ?_
      by_cases same : other = id
      · subst same
        simpa [Cluster.setHost] using Server.keys_maintain ran
      · simp [Cluster.setHost, same]
  | locate arrived located =>
      exact placed.congr (fun other => by simp [Cluster.setLink])
        fun other => rfl

/-- So does an operation of the client that may be posted. -/
theorem Placed.complete (placed : Placed numServers c) {op : Op}
    {given : Answer op} (mayPost : MayPost numServers op c)
    (step : c.complete op = some (given, c')) : Placed numServers c' := by
  have breaks (conn : Conn) : Placed numServers (c.breakLink conn) := by
    refine placed.congr (fun id => ?_) fun id => rfl
    by_cases same : Conn.server id = conn
    · subst same
      simp [Cluster.breakLink, Cluster.setLink]
    · simp [Cluster.breakLink, Cluster.setLink, same]
  cases Cluster.completes_of_complete step with
  | sends intact fits =>
      rename_i conn message
      cases conn with
      | indexer =>
          exact placed.congr (fun id => by simp [Cluster.setLink])
            fun id => rfl
      | server id =>
          refine placed.update id
            (fun other different => by simp [Cluster.setLink, different])
            (fun other different => rfl) (fun later member => ?_)
            (placed.stored id) (placed.once id)
          simp only [Cluster.setLink, if_true, List.mem_append,
            List.mem_singleton] at member
          rcases member with earlier | rfl
          · exact placed.sent id later earlier
          · exact mayPost fits
  | sendFails fails => exact breaks _
  | receives arrived =>
      rename_i conn message rest
      refine placed.congr (fun id => ?_) fun id => rfl
      by_cases same : Conn.server id = conn
      · subst same
        simp [Cluster.setLink]
      · simp [Cluster.setLink, same]
  | receiveFails nothing broken => exact placed
  | writes granted =>
      rename_i server region length node key source remote
      refine placed.congr (fun id => rfl) fun id => ?_
      by_cases same : id = server
      · subst same
        simp [Cluster.writeBuffer, Cluster.setHost, Server.keys,
          Server.setRndvBuffer, Server.updateNode]
      · simp [Cluster.writeBuffer, Cluster.setHost, same]
  | writeFails refused => exact breaks _
  | reads granted => exact placed
  | readFails refused => exact breaks _

/-! ## The calls -/

/-- Nothing is under way to the index server. -/
def IndexerQuiet (c : Cluster) : Prop :=
  ∃ broken, IndexerRel none broken (c.links .indexer)

/-- A program that posts only what may be posted. -/
abbrev Places (regMr : Nat → Nat → Option IbvMr) (numServers : Nat)
    {α : Type} (post : α → Cluster → Prop) (program : Run α) (c : Cluster) :
    Prop :=
  wp (Cluster.environment regMr) (MayPost numServers) True post program c

theorem IndexerRel.evolve {waiting : Option (Nat × CString)} {broken : Bool}
    (here : IndexerRel waiting broken (c.links .indexer))
    (step : Cluster.Evolve regMr c c') :
    IndexerRel waiting broken (c'.links .indexer) := by
  cases step with
  | receive idle arrived received =>
      simpa [Cluster.setLink, Cluster.setHost] using here
  | maintain busy maintained => exact here
  | locate arrived located =>
      simpa [Cluster.setLink] using here.locate arrived located

theorem IndexerQuiet.evolve
    {before after : (Cluster.environment regMr).State}
    (quiet : IndexerQuiet before)
    (step : (Cluster.environment regMr).evolve before after) :
    IndexerQuiet after := by
  obtain ⟨broken, here⟩ := quiet
  exact ⟨broken, IndexerRel.evolve here step⟩

theorem IndexerRel.empty {broken : Bool} {link : Link}
    (here : IndexerRel none broken link) :
    link.toServer = [] ∧ link.toClient = [] := by
  rcases here.flight with ⟨sent, nothing⟩ | ⟨_, _, asked, _⟩
  · rw [Option.toList_none, List.forall₂_nil_left_iff] at sent
    exact ⟨sent, nothing⟩
  · exact absurd asked (by simp)

/-- An operation on a server's connection leaves the index server's alone. -/
private theorem links_indexer_complete {op : Op} {given : Answer op}
    (elsewhere : op.conn ≠ .indexer)
    (step : c.complete op = some (given, c')) :
    c'.links .indexer = c.links .indexer := by
  have other {conn : Conn} (different : conn ≠ .indexer) (link : Link) :
      (c.setLink conn link).links .indexer = c.links .indexer :=
    if_neg (Ne.symm different)
  cases Cluster.completes_of_complete step with
  | sends intact fits => exact other elsewhere _
  | sendFails fails => exact other elsewhere _
  | receives arrived => exact other elsewhere _
  | receiveFails nothing broken => rfl
  | writes granted => rfl
  | writeFails refused => exact other elsewhere _
  | reads granted => rfl
  | readFails refused => exact other elsewhere _

section Programs

variable {α : Type} {post : α → Cluster → Prop}

private theorem places_done {value : α} (quiet : IndexerQuiet c)
    (holds : ∀ c, IndexerQuiet c → post value c) :
    Places regMr numServers post (.done value) c :=
  wp_done_of_kept IndexerQuiet.evolve quiet holds

/-- A call on the server of its key. -/
private theorem places_of_serves {program : Run α} {small : Prop}
    (quiet : IndexerQuiet c)
    (serves : program.Always
      (Op.Serves (selectServer numServers key) key small) (fun _ => True)) :
    Places regMr numServers (fun _ c => IndexerQuiet c) program c := by
  have elsewhere {op : Op}
      (served : op.Serves (selectServer numServers key) key small) :
      op.conn ≠ .indexer := by
    rw [served.conn]
    simp
  have answers {op : Op} {before after : Cluster} {given : Answer op}
      (quiet : IndexerQuiet before)
      (served : op.Serves (selectServer numServers key) key small)
      (step : before.complete op = some (given, after)) :
      IndexerQuiet after := by
    obtain ⟨broken, related⟩ := quiet
    refine ⟨broken, ?_⟩
    rw [links_indexer_complete (elsewhere served) step]
    exact related
  have mayPost {op : Op} {c : Cluster}
      (served : op.Serves (selectServer numServers key) key small) :
      MayPost numServers op c := by
    cases op with
    | send conn message =>
        obtain ⟨rfl, _, formed⟩ := served
        intro fits
        obtain ⟨request, sent, sets⟩ := formed fits
        exact ⟨request, sent, fun other isSet =>
          congrArg (selectServer numServers) (sets other isSet)⟩
    | recv conn => trivial
    | rdmaWrite server key region source length remote => trivial
    | rdmaRead server key region length remote => trivial
  exact wp_mono (fun value c kept => kept.2)
    (wp_of_always IndexerQuiet.evolve answers (fun _ => mayPost) quiet serves)

variable {client : Client}

/-- The index server's answer. -/
private theorem places_findServer (positive : 0 < numServers)
    (small : numServers < unsignedRange) (quiet : IndexerQuiet c) :
    Places regMr numServers
      (fun result c => result.1 = selectServer numServers key ∧
        12 + (key.length + 1) ≤ eagerProtocolLimit ∧ IndexerQuiet c)
      (KvClient.findServer numServers key client) c := by
  unfold KvClient.findServer
  split
  case isFalse => trivial
  rename_i fits
  obtain ⟨size, covers⟩ := find_size fits le_rfl (by omega)
  have carries := carries_find (client.buf .indexer) small fits covers
  simp only [size]
  refine wp_perform_of_kept IndexerQuiet.evolve quiet fun later quiet =>
    ⟨trivial, fun given after step => ?_⟩
  obtain ⟨broken, here⟩ := quiet
  obtain ⟨empty, nothing⟩ := here.empty
  change later.complete _ = _ at step
  cases Cluster.completes_of_complete step
  case sendFails => trivial
  rename_i intact short
  have asked : IndexerRel (some (numServers, key)) false
      { later.links .indexer with
        toServer := (later.links .indexer).toServer ++ [⟨
          (Packet.find numServers key).store (client.buf .indexer),
          key.length + sizeofPacket⟩] } := by
    refine ⟨intact, fun _ => rfl, Or.inl ⟨?_, nothing⟩⟩
    simp only [empty, List.nil_append, Option.toList_some]
    exact .cons ⟨positive, carries, short⟩ .nil
  have waits {before after : (Cluster.environment regMr).State}
      (here : IndexerRel (some (numServers, key)) false
        (Cluster.links before .indexer))
      (step : (Cluster.environment regMr).evolve before after) :
      IndexerRel (some (numServers, key)) false
        (Cluster.links after .indexer) := IndexerRel.evolve here step
  refine wp_perform_of_kept waits (by simpa [Cluster.setLink] using asked)
    fun later here => ⟨trivial, fun given after step => ?_⟩
  change later.complete _ = _ at step
  simp only [Cluster.complete] at step
  rcases here.flight with ⟨_, nothing⟩ | ⟨_, reply, same, empty, waiting, arrived⟩
  · rw [nothing, here.state] at step
    exact absurd step (by simp)
  · obtain rfl := Option.some.inj same
    rw [waiting] at step
    obtain ⟨rfl, rfl⟩ := Prod.mk.inj (Option.some.inj step)
    have isLocation (buf : Memory) := (arrived.at_deliver buf).1
    have selected (buf : Memory) := (arrived.at_deliver buf).2
    simp only [Packet.type, Packet.FieldsAt] at isLocation selected
    simp only [Program.bind, Option.map_some, Client.buf_setBuf,
      isLocation, selected, if_true]
    have unasked : IndexerRel none false
        { later.links .indexer with toClient := [] } :=
      ⟨here.state, fun asks => absurd rfl asks,
        Or.inl ⟨by simp [empty], rfl⟩⟩
    have quiet : IndexerQuiet (later.setLink .indexer
        { later.links .indexer with toClient := [] }) :=
      ⟨false, by simpa [Cluster.setLink] using unasked⟩
    exact places_done quiet fun c quiet => ⟨rfl, fits, quiet⟩

private theorem places_call (positive : 0 < numServers)
    (small : numServers < unsignedRange) (call : KvClient.DkvCall)
    (quiet : IndexerQuiet c) :
    Places regMr numServers (fun _ c => IndexerQuiet c)
      (call.perform numServers client) c := by
  cases call with
  | set key value =>
      refine wp_bind (wp_bind (wp_mono ?_
        (places_findServer positive small quiet)))
      rintro ⟨server, client⟩ c ⟨selected, short, quiet⟩
      simp only at selected
      subst selected
      have bound : key.length < unsignedRange := by
        simp only [eagerProtocolLimit, unsignedRange] at short ⊢
        omega
      refine wp_mono ?_ (places_of_serves quiet (always_kvSet bound))
      exact fun result c quiet => places_done quiet fun _ quiet => quiet
  | get key =>
      refine wp_bind (wp_bind (wp_mono ?_
        (places_findServer positive small quiet)))
      rintro ⟨server, client⟩ c ⟨selected, short, quiet⟩
      simp only at selected
      subst selected
      have bound : key.length + 1 + sizeofPacket < unsignedRange := by
        simp only [eagerProtocolLimit, sizeofPacket, unsignedRange] at short ⊢
        omega
      refine wp_mono ?_ (places_of_serves quiet (always_kvGet bound))
      exact fun result c quiet => places_done quiet fun _ quiet => quiet

private theorem places_runCalls (positive : 0 < numServers)
    (small : numServers < unsignedRange) (calls : List KvClient.DkvCall)
    (quiet : IndexerQuiet c) :
    Places regMr numServers (fun _ c => IndexerQuiet c)
      (runCalls (KvClient.DkvCall.perform numServers) calls client) c := by
  induction calls generalizing client c with
  | nil => exact places_done quiet fun _ quiet => quiet
  | cons call calls inductionHypothesis =>
      refine wp_bind (wp_mono ?_ (places_call positive small call quiet))
      rintro ⟨returned, client⟩ c quiet
      refine wp_bind (wp_mono ?_ (inductionHypothesis quiet))
      exact fun results c quiet => places_done quiet fun _ quiet => quiet

end Programs

/-- Along every run of `dkv_set` and `dkv_get` the invariant holds. -/
private theorem placed_of_steps (positive : 0 < numServers)
    (small : numServers < unsignedRange) (initial : Cluster.Initial regMr c)
    {calls : List KvClient.DkvCall} {client : Client}
    {reached : Run (List Returned × Client) × Cluster}
    (steps : Steps (Cluster.environment regMr)
      (runCalls (KvClient.DkvCall.perform numServers) calls client, c)
      reached) : Placed numServers reached.2 := by
  have quiet : IndexerQuiet c := by
    refine ⟨false, ?_⟩
    rw [initial.links]
    exact ⟨rfl, fun _ => rfl, Or.inl ⟨.nil, rfl⟩⟩
  have init : Placed numServers
      (runCalls (KvClient.DkvCall.perform numServers) calls client, c).2 :=
    Placed.init initial
  exact kept_of_steps Placed.evolve
    (fun placed ready step => placed.complete ready step) init
    (places_runCalls positive small calls quiet) steps

/-- The index server names one of the servers, every entry is on the server
that it names for the key, and no key has two entries. -/
theorem dkv_placed (positive : 0 < numServers)
    (small : numServers < unsignedRange) (initial : Cluster.Initial regMr c)
    {calls : List KvClient.DkvCall} {client : Client}
    {reached : Run (List Returned × Client) × Cluster}
    (steps : Steps (Cluster.environment regMr)
      (runCalls (KvClient.DkvCall.perform numServers) calls client, c)
      reached) :
    (∀ key, ∃ id < numServers, Locates numServers key id) ∧
      (∀ id, ∀ entry ∈ (reached.2.hosts id).state.entries,
        id < numServers ∧ Locates numServers entry.key id) ∧
      ∀ id id' index index' : Nat, ∀ entry entry' : KvEntry,
        (reached.2.hosts id).state.entries[index]? = some entry →
          (reached.2.hosts id').state.entries[index']? = some entry' →
            entry.key = entry'.key → id = id' ∧ index = index' := by
  have placed := placed_of_steps positive small initial steps
  have inside {id index : Nat} {entry : KvEntry}
      (isEntry : (reached.2.hosts id).state.entries[index]? = some entry) :
      (reached.2.hosts id).state.keys[index]? = some entry.key := by
    rw [Server.keys, List.getElem?_map, isEntry, Option.map_some]
  have home {id : Nat} {key : CString}
      (stored : key ∈ (reached.2.hosts id).state.keys) :
      selectServer numServers key = id := placed.stored id key stored
  refine ⟨fun key => ⟨selectServer numServers key,
    Nat.mod_lt _ positive, locates_selectServer positive key⟩,
    fun id entry member => ?_, ?_⟩
  · have here := home (List.mem_map_of_mem member)
    rw [← here]
    exact ⟨Nat.mod_lt _ positive, locates_selectServer positive entry.key⟩
  · intro id id' index index' entry entry' first second sameKey
    have firstKey := inside first
    have secondKey := inside second
    rw [← sameKey] at secondKey
    have firstHome := home (List.mem_of_getElem? firstKey)
    have secondHome := home (List.mem_of_getElem? secondKey)
    have sameServer : id = id' := firstHome.symm.trans secondHome
    subst sameServer
    have bounded := (List.getElem?_eq_some_iff.mp firstKey).1
    exact ⟨rfl, (List.getElem?_inj bounded (placed.once id)).mp
      (firstKey.trans secondKey.symm)⟩

end Placement

/-! ## A value that moves from a buffer into its entry -/

open Sample

/-- The entry that was made for the buffer gets the short value. -/
def moving : List KvClient.DkvCall :=
  [.set firstKey (letters 5000), .set firstKey (letters 1)]

theorem dkv_placed_moving :
    ∃ results client' c',
      Steps (Cluster.environment mr)
        (runCalls (KvClient.DkvCall.perform 2) moving client, cluster)
        (.done (results, client'), c') ∧
      (∀ key, ∃ id < 2, Locates 2 key id) ∧
      (∀ id, ∀ entry ∈ (c'.hosts id).state.entries,
        id < 2 ∧ Locates 2 entry.key id) ∧
      ∀ id id' index index' : Nat, ∀ entry entry' : KvEntry,
        (c'.hosts id).state.entries[index]? = some entry →
          (c'.hosts id').state.entries[index']? = some entry' →
            entry.key = entry'.key → id = id' ∧ index = index' := by
  obtain ⟨⟨results, client'⟩, c', steps⟩ :
      ∃ value c, Steps (Cluster.environment mr)
        (runCalls (KvClient.DkvCall.perform 2) moving client, cluster)
        (.done value, c) :=
    Cluster.steps_of_result 20 _ (by decide +kernel)
  exact ⟨results, client', c', steps,
    dkv_placed (by decide) (by decide) cluster_initial steps⟩

end RdmaKv
