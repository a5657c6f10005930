import RdmaKv.Ex4.Maintenance
import RdmaKv.Ex4.Requests

/-!
# Sessions of a server

Over any sequence of requests whose handling and maintenance complete, the
server is a map from keys to the latest value or buffer, and no buffer has
two owners.
-/

namespace RdmaKv

open ByteMemory LinkedChain

namespace Server

variable {regMr : Nat → Option IbvMr}
variable {s s' s'' : Server} {pool : List Nat} {tail : Nat} {stale : Set Nat}

/-! ## One request -/

/-- What a request does to the map, and its reply. -/
inductive Outcome (regMr : Nat → Option IbvMr) (s s' : Server) :
    Request → Option (Packet × Nat) → Prop
  | eagerGet {key : CString} {reply : Packet × Nat}
      (answer : s.eagerGet key = some reply)
      (held : ∀ other, s'.held other = s.held other) :
      Outcome regMr s s' (.eagerGet key) (some reply)
  | eagerSet {key : CString} {value : List UInt8}
      (held : ∀ other, s'.held other =
        if other = key then some (.inline value) else s.held other) :
      Outcome regMr s s' (.eagerSet key value) none
  | keeps {key : CString} {valueLength old node : Nat} {server : IbvMr}
      (before : s.held key = some (.buffer old node))
      (registered : regMr node = some server)
      (held : ∀ other, s'.held other =
        if other = key then some (.buffer valueLength node)
        else s.held other) :
      Outcome regMr s s' (.rendezvousSet valueLength key)
        (some (.rendezvousSetResponse server, sizeofPacket))
  | takes {key : CString} {valueLength node : Nat} {server : IbvMr}
      (before : ∀ old owner, s.held key ≠ some (.buffer old owner))
      (fresh : node ∉ s.owned)
      (zeroed : (s.nodes node).rndvBuffer = Memory.zero)
      (registered : regMr node = some server)
      (held : ∀ other, s'.held other =
        if other = key then some (.buffer valueLength node)
        else s.held other) :
      Outcome regMr s s' (.rendezvousSet valueLength key)
        (some (.rendezvousSetResponse server, sizeofPacket))

def Sound (regMr : Nat → Option IbvMr) (s : Server) : Prop :=
  s.WellFormed ∧ ∃ pool tail stale, Settled regMr s pool tail stale

/-- The server when a request has been handled and not yet maintained. -/
def SoundHandled (regMr : Nat → Option IbvMr) (s : Server) : Prop :=
  s.WellFormed ∧ ∃ pool tail stale, Handled regMr s pool tail stale

theorem Sound.registered (sound : Sound regMr s) {node : Nat}
    (member : node ∈ s.owned) :
    ∃ server, regMr node = some server ∧
      (s.nodes node).rndvMr = some server := by
  obtain ⟨_, pool, tail, stale, settled⟩ := sound
  apply settled.shape.exists_server
  exact settled.shape.bound node (Or.inr (Or.inl member))

/-- A get is answered. -/
theorem Sound.eagerGet_isSome (sound : Sound regMr s) (key : CString) :
    ∃ answer, s.eagerGet key = some answer := by
  rw [eagerGet_spec sound.1]
  cases holds : s.held key with
  | none => exact ⟨_, rfl⟩
  | some holding =>
      cases holding with
      | inline value => exact ⟨_, rfl⟩
      | buffer valueLength node =>
          obtain ⟨server, _, inside⟩ :=
            sound.registered (held_buffer_mem_owned sound.1 holds)
          simp only [inside, Option.map_some]
          exact ⟨_, rfl⟩

/-- What an answered request leads to, before maintenance. -/
theorem handle_spec (sound : Sound regMr s) {request : Request}
    {reply : Option (Packet × Nat)}
    (ran : s.handleServerPacketsOnly request.packet = some (s', reply)) :
    SoundHandled regMr s' ∧ Outcome regMr s s' request reply ∧
      s'.mallocs = s.mallocs ∧ ∀ node,
        (s'.nodes node).rndvBuffer = (s.nodes node).rndvBuffer ∧
        (s'.nodes node).rndvMr = (s.nodes node).rndvMr := by
  obtain ⟨wellFormed, pool, tail, stale, settled⟩ := sound
  cases request with
  | eagerGet key =>
      obtain ⟨answer, computed, pair⟩ := Option.map_eq_some_iff.mp ran
      obtain ⟨rfl, rfl⟩ := Prod.mk.inj pair
      exact ⟨⟨wellFormed, pool, tail, stale,
        settled.unmoved (Unmoved.refl s)⟩, .eagerGet computed fun _ => rfl,
        rfl, fun _ => ⟨rfl, rfl⟩⟩
  | eagerSet key value =>
      obtain ⟨t, computed, pair⟩ := Option.map_eq_some_iff.mp ran
      obtain ⟨rfl, rfl⟩ := Prod.mk.inj pair
      by_cases holds : ∃ valueLength node,
          s.held key = some (.buffer valueLength node)
      · obtain ⟨valueLength, node, holds⟩ := holds
        obtain ⟨u, computed', sound', step, held⟩ :=
          eagerSet_buffer wellFormed settled.noTainted holds value
        rw [computed] at computed'
        obtain rfl := Option.some.inj computed'
        exact ⟨⟨sound', pool, tail, stale, settled.taints step⟩,
          .eagerSet held, step.mallocs, fun node => by simp [step.nodes]⟩
      · obtain ⟨u, computed', sound', step, held⟩ :=
          eagerSet_inline wellFormed
            (fun valueLength node holds' => holds ⟨valueLength, node, holds'⟩)
            value
        rw [computed] at computed'
        obtain rfl := Option.some.inj computed'
        exact ⟨⟨sound', pool, tail, stale, settled.unmoved step⟩,
          .eagerSet held, step.mallocs, fun node => by simp [step.nodes]⟩
  | rendezvousSet valueLength key =>
      obtain ⟨⟨t, answer⟩, computed, pair⟩ := Option.map_eq_some_iff.mp ran
      obtain ⟨rfl, rfl⟩ := Prod.mk.inj pair
      by_cases holds : ∃ old node, s.held key = some (.buffer old node)
      · obtain ⟨old, node, holds⟩ := holds
        obtain ⟨u, computed', sound', step, held⟩ :=
          rendezvousSet_buffer wellFormed holds valueLength
        obtain ⟨server, answer', inside⟩ :=
          Sound.registered ⟨wellFormed, pool, tail, stale, settled⟩
            (held_buffer_mem_owned wellFormed holds)
        rw [computed', inside, Option.map_some, Option.some.injEq] at computed
        obtain ⟨rfl, rfl⟩ := Prod.mk.inj computed
        exact ⟨⟨sound', pool, tail, stale, settled.unmoved step⟩,
          .keeps holds answer' held, step.mallocs,
          fun node => by simp [step.nodes]⟩
      · have empty : ∀ old node, s.held key ≠ some (.buffer old node) :=
          fun old node holds' => holds ⟨old, node, holds'⟩
        cases front : s.memPoolHead with
        | none =>
            rw [rendezvousSet_empty wellFormed empty front] at computed
            exact absurd computed (by simp)
        | some node =>
            obtain ⟨rest, rfl⟩ := settled.shape.front front
            have inPool : node ∈ node :: rest := List.mem_cons_self ..
            obtain ⟨server, answer', inside⟩ := settled.shape.exists_server
              (settled.shape.bound node (Or.inl inPool))
            obtain ⟨u, computed', sound', step, held⟩ :=
              rendezvousSet_inline wellFormed empty front valueLength
            rw [computed', inside, Option.map_some,
              Option.some.injEq] at computed
            obtain ⟨rfl, rfl⟩ := Prod.mk.inj computed
            exact ⟨⟨sound', rest, tail, _, settled.takes step⟩,
              .takes empty (settled.shape.separate node inPool).1
                (settled.shape.zeroed node inPool) answer' held,
              step.mallocs, fun other => by simp [step.nodes]⟩

/-- Maintenance, where it ends, changes neither the map nor what the owned
buffers contain. -/
theorem maintain_spec (sound : SoundHandled regMr s)
    (ran : maintainPool regMr s = some s') :
    Sound regMr s' ∧ Keeps s s' := by
  obtain ⟨wellFormed, pool, tail, stale, handled⟩ := sound
  obtain ⟨⟨pool', tail', stale', settled, _⟩, keeps⟩ := handled.maintain ran
  refine ⟨⟨?_, pool', tail', stale', settled⟩, keeps⟩
  unfold WellFormed
  rw [keeps.entries]
  exact wellFormed

theorem Keeps.held (keeps : Keeps s s') (key : CString) :
    s'.held key = s.held key := by
  unfold Server.held findEntry
  rw [keeps.entries]

theorem Outcome.keeps_held {request : Request}
    {reply : Option (Packet × Nat)}
    (outcome : Outcome regMr s s' request reply)
    (same : ∀ key, s''.held key = s'.held key) :
    Outcome regMr s s'' request reply := by
  cases outcome with
  | eagerGet answer held =>
      exact .eagerGet answer fun other => (same other).trans (held other)
  | eagerSet held => exact .eagerSet fun other => (same other).trans (held other)
  | keeps before registered held =>
      exact .keeps before registered fun other =>
        (same other).trans (held other)
  | takes before fresh zeroed registered held =>
      exact .takes before fresh zeroed registered fun other =>
        (same other).trans (held other)

/-- What a round leads to. -/
theorem serve_spec (sound : Sound regMr s) {request : Request}
    {reply : Option (Packet × Nat)}
    (ran : s.serve regMr request.packet = some (s', reply)) :
    Sound regMr s' ∧ Outcome regMr s s' request reply := by
  obtain ⟨⟨t, answer⟩, handled, rest⟩ := Option.bind_eq_some_iff.mp ran
  obtain ⟨u, maintained, pair⟩ := Option.bind_eq_some_iff.mp rest
  obtain ⟨rfl, rfl⟩ := Prod.mk.inj (Option.some.inj pair)
  obtain ⟨sound', outcome, _⟩ := handle_spec sound handled
  obtain ⟨sound'', keeps⟩ := maintain_spec sound' maintained
  exact ⟨sound'', outcome.keeps_held keeps.held⟩

/-! ## The map is the one that the requests describe -/

/-- Under every key the server holds what the latest set of it asked for. -/
def Records (past : List Request) (s : Server) : Prop :=
  ∀ key, match Request.latestSet key past with
    | some (.eagerSet _ value) => s.held key = some (.inline value)
    | some (.rendezvousSet valueLength _) =>
        ∃ node, s.held key = some (.buffer valueLength node)
    | some (.eagerGet _) => False
    | none => s.held key = none

theorem Records.inBuffer_iff {past : List Request}
    (records : Records past s) (key : CString) :
    Request.inBuffer key past = true ↔
      ∃ valueLength node, s.held key = some (.buffer valueLength node) := by
  have recorded := records key
  unfold Request.inBuffer
  split at recorded
  · rename_i latest
    simp [latest, recorded]
  · rename_i latest
    obtain ⟨node, holds⟩ := recorded
    simp [latest, holds]
  · exact recorded.elim
  · rename_i latest
    simp [latest, recorded]

theorem Outcome.records {past : List Request} {request : Request}
    {reply : Option (Packet × Nat)}
    (outcome : Outcome regMr s s' request reply)
    (records : Records past s) : Records (past ++ [request]) s' := by
  intro key
  rw [Request.latestSet_append_singleton]
  have same : ∀ changed : CString, key ≠ changed →
      decide (changed = key) = false := fun changed different =>
    decide_eq_false fun equal => different equal.symm
  cases outcome with
  | eagerGet answer held =>
      simp only [Request.sets, held]
      exact records key
  | eagerSet held =>
      rename_i changed value
      by_cases equal : key = changed
      · simp [Request.sets, held, equal]
      · simp only [Request.sets, held, same changed equal, if_neg equal]
        exact records key
  | keeps before registered held =>
      rename_i changed valueLength old node server
      by_cases equal : key = changed
      · simp [Request.sets, held, equal]
      · simp only [Request.sets, held, same changed equal, if_neg equal]
        exact records key
  | takes before fresh zeroed registered held =>
      rename_i changed valueLength node server
      by_cases equal : key = changed
      · simp [Request.sets, held, equal]
      · simp only [Request.sets, held, same changed equal, if_neg equal]
        exact records key

/-- A request that does not set a key leaves what is held under it. -/
theorem Outcome.held_of_not_sets {request : Request}
    {reply : Option (Packet × Nat)}
    (outcome : Outcome regMr s s' request reply) {key : CString}
    (quiet : request.sets key = false) : s'.held key = s.held key := by
  have different : ∀ changed : CString, decide (changed = key) = false →
      key ≠ changed := fun changed unequal equal =>
    of_decide_eq_false unequal equal.symm
  cases outcome with
  | eagerGet answer held => exact held key
  | eagerSet held => rw [held, if_neg (different _ quiet)]
  | keeps before registered held => rw [held, if_neg (different _ quiet)]
  | takes before fresh zeroed registered held =>
      rw [held, if_neg (different _ quiet)]

/-- A rendezvous set answers with the registration of the buffer that it
stores. -/
theorem Outcome.rendezvousSet {key : CString} {valueLength : Nat}
    {reply : Option (Packet × Nat)}
    (outcome : Outcome regMr s s' (.rendezvousSet valueLength key) reply) :
    ∃ node server, regMr node = some server ∧
      s'.held key = some (.buffer valueLength node) ∧
      reply = some (.rendezvousSetResponse server, sizeofPacket) := by
  cases outcome with
  | keeps before registered held =>
      exact ⟨_, _, registered, by rw [held, if_pos rfl], rfl⟩
  | takes before fresh zeroed registered held =>
      exact ⟨_, _, registered, by rw [held, if_pos rfl], rfl⟩

/-- The reply to a get follows from what is held under the key. -/
theorem Sound.eagerGet_congr (sound : Sound regMr s)
    (sound' : Sound regMr s') {key : CString}
    (same : s'.held key = s.held key) : s'.eagerGet key = s.eagerGet key := by
  rw [eagerGet_spec sound.1, eagerGet_spec sound'.1, same]
  cases holds : s.held key with
  | none => rfl
  | some holding =>
      cases holding with
      | inline value => rfl
      | buffer valueLength node =>
          obtain ⟨server, answer, inside⟩ :=
            sound.registered (held_buffer_mem_owned sound.1 holds)
          rw [holds] at same
          obtain ⟨server', answer', inside'⟩ :=
            sound'.registered (held_buffer_mem_owned sound'.1 same)
          simp only [inside, inside']
          rw [answer] at answer'
          rw [Option.some.inj answer']

/-! ## Runs of requests -/

theorem serveAll_cons_eq_some_iff {request : Request}
    {requests : List Request} {replies : List (Option (Packet × Nat))} :
    serveAll regMr s (request :: requests) = some (s'', replies) ↔
      ∃ s' reply rest, s.serve regMr request.packet = some (s', reply) ∧
        serveAll regMr s' requests = some (s'', rest) ∧
        replies = reply :: rest := by
  constructor
  · intro ran
    obtain ⟨⟨t, reply⟩, served, rest⟩ := Option.bind_eq_some_iff.mp ran
    obtain ⟨⟨u, others⟩, later, pair⟩ := Option.bind_eq_some_iff.mp rest
    obtain ⟨rfl, rfl⟩ := Prod.mk.inj (Option.some.inj pair)
    exact ⟨t, reply, others, served, later, rfl⟩
  · rintro ⟨t, reply, rest, served, later, rfl⟩
    simp [serveAll, served, later]

/-- A run of requests splits into a run and a later run. -/
theorem serveAll_append_eq_some_iff {earlier later : List Request}
    {replies : List (Option (Packet × Nat))} :
    serveAll regMr s (earlier ++ later) = some (s'', replies) ↔
      ∃ s' first second, serveAll regMr s earlier = some (s', first) ∧
        serveAll regMr s' later = some (s'', second) ∧
        replies = first ++ second := by
  induction earlier generalizing s replies with
  | nil => simp [serveAll]
  | cons request requests inductionHypothesis =>
      rw [List.cons_append, serveAll_cons_eq_some_iff]
      constructor
      · rintro ⟨t, reply, rest, served, ran, rfl⟩
        obtain ⟨u, first, second, before, after, rfl⟩ :=
          inductionHypothesis.mp ran
        exact ⟨u, reply :: first, second,
          serveAll_cons_eq_some_iff.mpr ⟨t, reply, first, served, before, rfl⟩,
          after, rfl⟩
      · rintro ⟨u, first, second, before, after, rfl⟩
        obtain ⟨t, reply, rest, served, ran, rfl⟩ :=
          serveAll_cons_eq_some_iff.mp before
        exact ⟨t, reply, rest ++ second, served,
          inductionHypothesis.mpr ⟨u, rest, second, ran, after, rfl⟩, rfl⟩

theorem serveAll_length {requests : List Request}
    {replies : List (Option (Packet × Nat))}
    (ran : serveAll regMr s requests = some (s', replies)) :
    replies.length = requests.length := by
  induction requests generalizing s replies with
  | nil =>
      obtain ⟨_, rfl⟩ := Prod.mk.inj (Option.some.inj ran)
      rfl
  | cons request requests inductionHypothesis =>
      obtain ⟨t, reply, rest, _, later, rfl⟩ :=
        serveAll_cons_eq_some_iff.mp ran
      rw [List.length_cons, List.length_cons, inductionHypothesis later]

theorem start_sound (started : start regMr = some s) : Sound regMr s := by
  obtain ⟨settled, empty⟩ := start_settled started
  refine ⟨?_, settled⟩
  intro entry member
  rw [empty] at member
  exact absurd member List.not_mem_nil

theorem serveAll_sound (sound : Sound regMr s) {requests : List Request}
    {replies : List (Option (Packet × Nat))}
    (ran : serveAll regMr s requests = some (s', replies)) :
    Sound regMr s' := by
  induction requests generalizing s replies with
  | nil =>
      obtain ⟨rfl, _⟩ := Prod.mk.inj (Option.some.inj ran)
      exact sound
  | cons request requests inductionHypothesis =>
      obtain ⟨t, reply, rest, served, later, rfl⟩ :=
        serveAll_cons_eq_some_iff.mp ran
      exact inductionHypothesis (serve_spec sound served).1 later

theorem start_records (started : start regMr = some s) : Records [] s := by
  intro key
  have empty := (start_settled started).2
  simp [Server.held, findEntry, empty]

private theorem serveAll_records (sound : Sound regMr s)
    {past requests : List Request}
    {replies : List (Option (Packet × Nat))} (records : Records past s)
    (ran : serveAll regMr s requests = some (s', replies)) :
    Records (past ++ requests) s' := by
  induction requests generalizing s past replies with
  | nil =>
      obtain ⟨rfl, _⟩ := Prod.mk.inj (Option.some.inj ran)
      simpa using records
  | cons request requests inductionHypothesis =>
      obtain ⟨t, reply, rest, served, later, rfl⟩ :=
        serveAll_cons_eq_some_iff.mp ran
      obtain ⟨sound', outcome⟩ := serve_spec sound served
      simpa using inductionHypothesis sound' (outcome.records records) later

private theorem serveAll_held (sound : Sound regMr s) {requests : List Request}
    {replies : List (Option (Packet × Nat))}
    (ran : serveAll regMr s requests = some (s', replies)) {key : CString}
    (quiet : ∀ request ∈ requests, request.sets key = false) :
    s'.held key = s.held key := by
  induction requests generalizing s replies with
  | nil =>
      obtain ⟨rfl, _⟩ := Prod.mk.inj (Option.some.inj ran)
      rfl
  | cons request requests inductionHypothesis =>
      obtain ⟨t, reply, rest, served, later, rfl⟩ :=
        serveAll_cons_eq_some_iff.mp ran
      obtain ⟨sound', outcome⟩ := serve_spec sound served
      rw [inductionHypothesis sound' later fun other member =>
          quiet other (List.mem_cons_of_mem request member),
        outcome.held_of_not_sets (quiet request (List.mem_cons_self ..))]

/-- A set, requests that do not set the key, and a get: the reply to the set,
and what the get finds. -/
theorem serveAll_set_get (sound : Sound regMr s) {key : CString}
    {set : Request} {after : List Request}
    (quiet : ∀ request ∈ after, request.sets key = false)
    {replies : List (Option (Packet × Nat))}
    (ran : serveAll regMr s (set :: (after ++ [.eagerGet key])) =
      some (s', replies)) :
    ∃ t reply middle answer, Outcome regMr s t set reply ∧
      replies = reply :: (middle ++ [some answer]) ∧
      ∃ u, Sound regMr u ∧ u.held key = t.held key ∧
        u.eagerGet key = some answer := by
  obtain ⟨t, reply, rest, served, later, rfl⟩ :=
    serveAll_cons_eq_some_iff.mp ran
  obtain ⟨sound', outcome⟩ := serve_spec sound served
  obtain ⟨u, middle, last, before, final, rfl⟩ :=
    serveAll_append_eq_some_iff.mp later
  obtain ⟨v, answer, nothing, served', ended, rfl⟩ :=
    serveAll_cons_eq_some_iff.mp final
  obtain ⟨_, rfl⟩ := Prod.mk.inj (Option.some.inj ended)
  have sound'' := serveAll_sound sound' before
  obtain ⟨_, got⟩ := serve_spec sound'' served'
  cases got with
  | eagerGet computed _ =>
      exact ⟨t, reply, middle, _, outcome, rfl, u, sound'',
        serveAll_held sound' before quiet, computed⟩

private theorem session_eq_some_iff {requests : List Request}
    {replies : List (Option (Packet × Nat))} :
    session regMr requests = some (s', replies) ↔
      ∃ s, start regMr = some s ∧
        serveAll regMr s requests = some (s', replies) :=
  Option.bind_eq_some_iff

theorem session_sound {requests : List Request}
    {replies : List (Option (Packet × Nat))}
    (ran : session regMr requests = some (s', replies)) :
    Sound regMr s' := by
  obtain ⟨s, started, served⟩ := session_eq_some_iff.mp ran
  exact serveAll_sound (start_sound started) served

theorem session_records {requests : List Request}
    {replies : List (Option (Packet × Nat))}
    (ran : session regMr requests = some (s', replies)) :
    Records requests s' := by
  obtain ⟨s, started, served⟩ := session_eq_some_iff.mp ran
  exact serveAll_records (start_sound started) (start_records started) served

/-! ## Ownership -/

/-- No buffer has two entries, and none of an entry is in a chain. -/
structure Exclusive (s : Server) : Prop where
  entries : s.entries.Pairwise fun first second =>
    ∀ node, first.largeValMemInfo = some node →
      second.largeValMemInfo ≠ some node
  chains : ∀ entry ∈ s.entries, ∀ node, entry.largeValMemInfo = some node →
    ¬ Reaches s.nextMem s.memPoolHead node ∧
      ¬ Reaches s.nextMem s.taintedMemPoolHead node

theorem PoolShape.exclusive (shape : PoolShape regMr s pool tail stale)
    {tainted : List Nat}
    (chain : Chain s.nextMem s.taintedMemPoolHead tainted)
    (released : ∀ node ∈ tainted, node ∉ s.owned) : s.Exclusive where
  entries := by
    have distinct := List.pairwise_filterMap.mp shape.ownedNodup
    refine distinct.imp ?_
    intro first second different node isFirst isSecond
    exact different node isFirst node isSecond rfl
  chains := by
    intro entry member node buffer
    have inOwned : node ∈ s.owned :=
      List.mem_filterMap.mpr ⟨entry, member, buffer⟩
    rw [shape.chain.reaches_iff, chain.reaches_iff]
    exact ⟨fun inPool => (shape.separate node inPool).1 inOwned,
      fun inTainted => released node inTainted inOwned⟩

theorem PoolShape.exclusive_of_noTainted
    (shape : PoolShape regMr s pool tail stale)
    (noTainted : s.taintedMemPoolHead = none) : s.Exclusive := by
  have chain : Chain s.nextMem s.taintedMemPoolHead [] := noTainted
  exact shape.exclusive chain fun _ member => absurd member List.not_mem_nil

/-- Also between a request and its maintenance, if that ends. -/
theorem Handled.exclusive (handled : Handled regMr s pool tail stale)
    (completes : (maintainPool regMr s).isSome) : s.Exclusive := by
  cases head : s.taintedMemPoolHead with
  | none =>
      exact handled.shape.exclusive_of_noTainted head
  | some node =>
      obtain ⟨_, _, notOwned, last⟩ := handled.tainted node head
      by_cases inStale : node ∈ stale
      · have diverges : recycleTainted (s.mallocs + 1) s = none :=
          PoolShape.recycle_stale handled.shape.tailEq handled.shape.staleNext
            head inStale (s.mallocs + 1)
        simp [maintainPool, diverges] at completes
      · have chain : Chain s.nextMem s.taintedMemPoolHead [node] :=
          ⟨head, last inStale⟩
        refine handled.shape.exclusive chain ?_
        intro other member
        rw [List.mem_singleton.mp member]
        exact notOwned

/-- In every state of a session, between two requests and between a request
and its maintenance, every buffer is held exclusively. -/
theorem session_exclusive {requests : List Request}
    {replies : List (Option (Packet × Nat))}
    (ran : session regMr requests = some (s, replies)) :
    s.Exclusive ∧
      ∀ (request : Request) (s' : Server) (reply : Option (Packet × Nat)),
        s.handleServerPacketsOnly request.packet = some (s', reply) →
        (maintainPool regMr s').isSome → s'.Exclusive := by
  have sound := session_sound ran
  constructor
  · obtain ⟨_, pool, tail, stale, settled⟩ := sound
    exact settled.shape.exclusive_of_noTainted settled.noTainted
  · intro request s' reply handled completes
    obtain ⟨⟨_, pool, tail, stale, shape⟩, _⟩ := handle_spec sound handled
    exact shape.exclusive completes

theorem session_exclusive_taking :
    ∃ s replies, session Sample.regMr Sample.taking = some (s, replies) ∧
      s.Exclusive := by
  have completes : (session Sample.regMr Sample.taking).isSome = true := by
    decide +kernel
  obtain ⟨⟨s, replies⟩, ran⟩ := Option.isSome_iff_exists.mp completes
  exact ⟨s, replies, ran, (session_exclusive ran).1⟩

end Server

end RdmaKv
