import RdmaKv.Ex4.Layout
import RdmaKv.Ex4.Sessions

/-!
# A server and its `ctx->buf`

A request arrives in `ctx->buf` and the reply is built there, over it.  What
is transmitted carries the reply packet, so the map of the entries is what the
client sees.
-/

namespace RdmaKv

open ByteMemory

/-- A running server.  `maintaining` says that it has handled a request and
not yet returned from `maintain_pool`. -/
structure Host where
  state : Server
  buf : Memory
  maintaining : Bool

namespace Host

/-- `handle_server_packets_only` on a `ctx->buf` in which a message has
arrived, and what it sends. -/
def receive (host : Host) (message : Message) :
    Option (Host × Option Message) :=
  let buf := message.deliver host.buf
  if buf.loadLE 0 4 ∈ [0, 2, 5, 7] then do
    let packet ← Packet.read buf
    let (state, reply) ← host.state.handleServerPacketsOnly packet
    match reply with
    | none => some (⟨state, buf, true⟩, none)
    | some (reply, responseSize) =>
        if reply.extent ≤ eagerProtocolLimit then
          some (⟨state, reply.store buf, true⟩,
            some ⟨reply.store buf, responseSize⟩)
        else none
  else some (⟨host.state, buf, true⟩, none)

/-- `maintain_pool`, where it returns 0. -/
def maintain (regMr : Nat → Option IbvMr) (host : Host) : Option Host :=
  (host.state.maintainPool regMr).map fun state =>
    { host with state := state, maintaining := false }

/-- One round of `pp_wait_completions`. -/
def serve (regMr : Nat → Option IbvMr) (host : Host) (message : Message) :
    Option (Host × Option Message) := do
  let (host, reply) ← host.receive message
  let host ← host.maintain regMr
  return (host, reply)

/-- Serve messages one after the other, collecting what is sent back. -/
def serveAll (regMr : Nat → Option IbvMr) :
    Host → List Message → Option (Host × List (Option Message))
  | host, [] => some (host, [])
  | host, message :: messages => do
      let (host, reply) ← host.serve regMr message
      let (host, replies) ← serveAll regMr host messages
      return (host, reply :: replies)

end Host

/-- A message transmits the request as the clients send it: in full, in one
buffer, and an eager set in a packet whose size counts the header and the
value. -/
structure Request.SentAs (request : Request) (message : Message) : Prop where
  carries : message.Carries request.packet
  size : message.size ≤ eagerProtocolLimit
  counted : ∀ key value, request = .eagerSet key value →
    sizeofPacket + value.length ≤ message.size

/-- The message transmits the reply, of the given size. -/
structure Message.IsReply (message : Message) (reply : Packet × Nat) :
    Prop where
  size : message.size = reply.2
  bytes : ∃ buf, message.bytes = reply.1.store buf
  extent : reply.1.extent ≤ eagerProtocolLimit

theorem Message.IsReply.carries {message : Message} {packet : Packet}
    {size : Nat} (isReply : message.IsReply (packet, size))
    (number : packet.number < unsignedRange) (covers : packet.extent ≤ size) :
    message.Carries packet := by
  obtain ⟨buf, bytes⟩ := isReply.bytes
  refine ⟨?_, by rw [isReply.size]; exact covers⟩
  rw [bytes]
  exact Packet.at_store ⟨isReply.extent, number⟩ buf

namespace Host

variable {regMr : Nat → Option IbvMr} {host host' : Host}

/-- The replies in the two views of a server. -/
def Agree : Option (Packet × Nat) → Option Message → Prop
  | none, none => True
  | some reply, some message => message.IsReply reply
  | _, _ => False

/-- Whatever arrives, `maintain_pool` follows. -/
theorem receive_maintaining {message : Message} {reply : Option Message}
    (ran : host.receive message = some (host', reply)) :
    host'.maintaining = true := by
  unfold receive at ran
  simp only at ran
  split at ran
  · simp only [Option.bind_eq_bind, Option.bind_eq_some_iff] at ran
    obtain ⟨packet, _, ⟨state, answer⟩, _, rest⟩ := ran
    split at rest
    · obtain ⟨rfl, _⟩ := Prod.mk.inj (Option.some.inj rest)
      rfl
    · split at rest
      · obtain ⟨rfl, _⟩ := Prod.mk.inj (Option.some.inj rest)
        rfl
      · exact absurd rest (by simp)
  · obtain ⟨rfl, _⟩ := Prod.mk.inj (Option.some.inj ran)
    rfl

theorem request_type (request : Request) :
    request.packet.type.code ∈ [0, 2, 5, 7] := by
  cases request <;> simp [Request.packet, Packet.type, PacketType.code]

theorem request_extent {request : Request} {message : Message}
    (sent : request.SentAs message) :
    request.packet.extent ≤ eagerProtocolLimit :=
  sent.carries.2.trans sent.size

/-- What arrives in `ctx->buf` is handled as the packet that was sent. -/
theorem receive_spec {request : Request} {message : Message}
    {reply : Option Message} (sent : request.SentAs message)
    (ran : host.receive message = some (host', reply)) :
    ∃ answer, host.state.handleServerPacketsOnly request.packet =
        some (host'.state, answer) ∧
      Agree answer reply ∧ host'.maintaining = true := by
  have arrived := sent.carries.at_deliver host.buf
  have isRequest :
      (message.deliver host.buf).loadLE 0 4 ∈ [0, 2, 5, 7] := by
    rw [arrived.1]
    exact request_type request
  unfold receive at ran
  simp only [if_pos isRequest,
    Packet.read_of_at arrived (request_extent sent), Option.bind_eq_bind,
    Option.bind_some] at ran
  obtain ⟨⟨state, answer⟩, handled, rest⟩ := Option.bind_eq_some_iff.mp ran
  refine ⟨answer, ?_⟩
  cases answer with
  | none =>
      obtain ⟨rfl, rfl⟩ := Prod.mk.inj (Option.some.inj rest)
      exact ⟨handled, trivial, rfl⟩
  | some answer =>
      obtain ⟨packet, responseSize⟩ := answer
      simp only at rest
      split at rest
      · rename_i fits
        obtain ⟨rfl, rfl⟩ := Prod.mk.inj (Option.some.inj rest)
        exact ⟨handled, ⟨rfl, ⟨_, rfl⟩, fits⟩, rfl⟩
      · exact absurd rest (by simp)

/-- A round of a server is a round on its globals. -/
private theorem serve_refines {request : Request} {message : Message}
    {reply : Option Message} (sent : request.SentAs message)
    (ran : host.serve regMr message = some (host', reply)) :
    ∃ answer, host.state.serve regMr request.packet =
        some (host'.state, answer) ∧ Agree answer reply := by
  obtain ⟨⟨handled, answer⟩, received, rest⟩ :=
    Option.bind_eq_some_iff.mp ran
  obtain ⟨settled, maintained, pair⟩ := Option.bind_eq_some_iff.mp rest
  obtain ⟨rfl, rfl⟩ := Prod.mk.inj (Option.some.inj pair)
  obtain ⟨state, ran', rfl⟩ := Option.map_eq_some_iff.mp maintained
  obtain ⟨packet, computed, agree, _⟩ := receive_spec sent received
  refine ⟨packet, ?_, agree⟩
  unfold Server.serve
  rw [computed]
  simp [ran']

/-- A run of a server is a run on its globals. -/
private theorem serveAll_refines {requests : List Request}
    {messages : List Message} {replies : List (Option Message)}
    (sent : List.Forall₂ Request.SentAs requests messages)
    (ran : host.serveAll regMr messages = some (host', replies)) :
    ∃ answers, Server.serveAll regMr host.state requests =
        some (host'.state, answers) ∧ List.Forall₂ Agree answers replies := by
  induction sent generalizing host replies with
  | nil =>
      obtain ⟨rfl, rfl⟩ := Prod.mk.inj (Option.some.inj ran)
      exact ⟨[], rfl, .nil⟩
  | cons first rest inductionHypothesis =>
      obtain ⟨⟨next, reply⟩, served, more⟩ := Option.bind_eq_some_iff.mp ran
      obtain ⟨⟨last, others⟩, later, pair⟩ := Option.bind_eq_some_iff.mp more
      obtain ⟨rfl, rfl⟩ := Prod.mk.inj (Option.some.inj pair)
      obtain ⟨answer, computed, agree⟩ := serve_refines first served
      obtain ⟨answers, computed', agree'⟩ := inductionHypothesis later
      exact ⟨answer :: answers, Server.serveAll_cons_eq_some_iff.mpr
        ⟨_, answer, answers, computed, computed', rfl⟩, .cons agree agree'⟩

/-- The unsigned field of a request that arrived is in range. -/
theorem sent_number {request : Request} {message : Message}
    (sent : request.SentAs message) :
    request.packet.number < unsignedRange := by
  have present := sent.carries.1.2
  have bound := message.bytes.loadLE_lt 8 4
  cases request with
  | eagerGet key => exact (show 0 < unsignedRange by decide)
  | eagerSet key value =>
      rw [present.1] at bound
      exact bound
  | rendezvousSet valueLength key =>
      rw [present.1] at bound
      exact bound

theorem agree_reply {reply : Packet × Nat} {message : Option Message}
    (agree : Agree (some reply) message) :
    ∃ sent, message = some sent ∧ sent.IsReply reply := by
  cases message with
  | none => exact agree.elim
  | some sent => exact ⟨sent, rfl, agree⟩

/-- A list related to one with a marked element has a related element at the
same place. -/
private theorem forall₂_split {α β : Type} {related : α → β → Prop}
    {front : List α} {element : α} {back : List α} {others : List β}
    (all : List.Forall₂ related (front ++ element :: back) others) :
    ∃ front' element' back', others = front' ++ element' :: back' ∧
      front'.length = front.length ∧ related element element' ∧
      back'.length = back.length := by
  induction front generalizing others with
  | nil =>
      cases all with
      | cons first rest => exact ⟨[], _, _, rfl, rfl, first, rest.length_eq.symm⟩
  | cons head front inductionHypothesis =>
      cases all with
      | cons first rest =>
          obtain ⟨front', element', back', rfl, length, here, length'⟩ :=
            inductionHypothesis rest
          exact ⟨_ :: front', element', back', rfl, by simp [length], here,
            length'⟩

private theorem last_reply {front : List (Option (Packet × Nat))}
    {reply : Packet × Nat} {replies : List (Option Message)}
    {set : Option (Packet × Nat)} {middle : List (Option (Packet × Nat))}
    (agree : List.Forall₂ Agree
      (front ++ set :: (middle ++ [some reply])) replies) :
    ∃ message, replies.getLast? = some (some message) ∧
      message.IsReply reply := by
  have shape : front ++ set :: (middle ++ [some reply]) =
      (front ++ set :: middle) ++ some reply :: [] := by simp
  rw [shape] at agree
  obtain ⟨front', last, back', rfl, _, here, empty⟩ := forall₂_split agree
  obtain rfl := List.length_eq_zero_iff.mp empty
  obtain ⟨message, rfl, isReply⟩ := agree_reply here
  exact ⟨message, by simp, isReply⟩

/-- A get of a key whose latest set was eager. -/
private theorem replies_eager (started : Server.start regMr = some host.state)
    {key : CString} {value : List UInt8} {before after : List Request}
    {messages : List Message} {replies : List (Option Message)}
    (quiet : ∀ request ∈ after, request.sets key = false)
    (sent : List.Forall₂ Request.SentAs
      (before ++ .eagerSet key value :: (after ++ [.eagerGet key])) messages)
    (ran : host.serveAll regMr messages = some (host', replies)) :
    ∃ reply, replies.getLast? = some (some reply) ∧
      reply.Carries (.eagerGetResponse value) ∧
      reply.size ≤ eagerProtocolLimit := by
  have sound := Server.start_sound started
  obtain ⟨answers, computed, agree⟩ := serveAll_refines sent ran
  obtain ⟨u, first, second, earlier, later, rfl⟩ :=
    Server.serveAll_append_eq_some_iff.mp computed
  obtain ⟨t, reply, middle, answer, outcome, rfl, v, soundLast, same, got⟩ :=
    Server.serveAll_set_get (Server.serveAll_sound sound earlier) quiet later
  cases outcome with
  | eagerSet held =>
      rw [held, if_pos rfl] at same
      rw [Server.eagerGet_spec soundLast.1, same] at got
      obtain rfl := Option.some.inj got
      obtain ⟨message, last, isReply⟩ := last_reply agree
      obtain ⟨_, set, _, _, _, sentSet, _⟩ := forall₂_split sent
      have counted := sentSet.counted key value rfl
      have size := sentSet.size
      have fits : sizeofPacket + value.length ≤ eagerProtocolLimit := by omega
      refine ⟨message, last, isReply.carries (sent_number sentSet) ?_, ?_⟩
      · simp only [Packet.extent, sizeofPacket]
        omega
      · rw [isReply.size]
        exact fits

/-- A get of a key whose latest set was a rendezvous: both replies name the same
buffer. -/
private theorem replies_rendezvous
    (started : Server.start regMr = some host.state)
    {key : CString} {valueLength : Nat} {before after : List Request}
    {messages : List Message} {replies : List (Option Message)}
    (quiet : ∀ request ∈ after, request.sets key = false)
    (sent : List.Forall₂ Request.SentAs
      (before ++ .rendezvousSet valueLength key :: (after ++ [.eagerGet key]))
      messages)
    (ran : host.serveAll regMr messages = some (host', replies)) :
    ∃ server answer reply,
      replies[before.length]? = some (some answer) ∧
      answer.Carries (.rendezvousSetResponse server) ∧
      replies.getLast? = some (some reply) ∧
      reply.Carries (.rendezvousGetResponse valueLength server) := by
  have sound := Server.start_sound started
  obtain ⟨answers, computed, agree⟩ := serveAll_refines sent ran
  obtain ⟨u, first, second, earlier, later, rfl⟩ :=
    Server.serveAll_append_eq_some_iff.mp computed
  obtain ⟨t, reply, middle, answer, outcome, rfl, v, soundLast, same, got⟩ :=
    Server.serveAll_set_get (Server.serveAll_sound sound earlier) quiet later
  obtain ⟨node, server, registered, held, rfl⟩ := outcome.rendezvousSet
  rw [held] at same
  obtain ⟨server', registered', inside⟩ :=
    soundLast.registered (Server.held_buffer_mem_owned soundLast.1 same)
  rw [registered] at registered'
  obtain rfl := Option.some.inj registered'
  rw [Server.eagerGet_spec soundLast.1, same] at got
  simp only [inside, Option.map_some, Option.some.injEq] at got
  subst got
  obtain ⟨message, last, isReply⟩ := last_reply agree
  obtain ⟨_, set, _, _, _, sentSet, _⟩ := forall₂_split sent
  obtain ⟨front, here, back, rfl, length, agreeHere, _⟩ :=
    forall₂_split agree
  obtain ⟨answer, rfl, isAnswer⟩ := agree_reply agreeHere
  have index : before.length = front.length := by
    rw [length, Server.serveAll_length earlier]
  refine ⟨server, answer, message, ?_, ?_, last, ?_⟩
  · simp [index]
  · exact isAnswer.carries (show 0 < unsignedRange by decide)
      (show 20 ≤ sizeofPacket by decide)
  · exact isReply.carries (sent_number sentSet)
      (show 28 ≤ sizeofPacket by decide)

/-- The server is a map: a get is answered with what the latest set of its
key stored, and no request changes the answer for a key it does not set. -/
theorem serves_latest_set (started : Server.start regMr = some host.state)
    {requests : List Request} {messages : List Message}
    {replies : List (Option Message)}
    (sent : List.Forall₂ Request.SentAs requests messages)
    (ran : host.serveAll regMr messages = some (host', replies)) :
    (∀ key value before after,
      requests = before ++ .eagerSet key value ::
        (after ++ [.eagerGet key]) →
      (∀ request ∈ after, request.sets key = false) →
      ∃ reply, replies.getLast? = some (some reply) ∧
        reply.Carries (.eagerGetResponse value) ∧
        reply.size ≤ eagerProtocolLimit) ∧
    (∀ key valueLength before after,
      requests = before ++ .rendezvousSet valueLength key ::
        (after ++ [.eagerGet key]) →
      (∀ request ∈ after, request.sets key = false) →
      ∃ server answer reply,
        replies[before.length]? = some (some answer) ∧
        answer.Carries (.rendezvousSetResponse server) ∧
        replies.getLast? = some (some reply) ∧
        reply.Carries (.rendezvousGetResponse valueLength server)) ∧
    (∀ (request : Request) (key : CString) (s : Server)
      (answer : Option (Packet × Nat)),
      request.sets key = false →
      host'.state.serve regMr request.packet = some (s, answer) →
      s.eagerGet key = host'.state.eagerGet key) := by
  refine ⟨?_, ?_, ?_⟩
  · rintro key value before after rfl quiet
    exact replies_eager started quiet sent ran
  · rintro key valueLength before after rfl quiet
    exact replies_rendezvous started quiet sent ran
  · intro request key s answer quiet served
    obtain ⟨answers, computed, _⟩ := serveAll_refines sent ran
    have soundAfter :=
      Server.serveAll_sound (Server.start_sound started) computed
    obtain ⟨sound', outcome⟩ := Server.serve_spec soundAfter served
    exact soundAfter.eagerGet_congr sound' (outcome.held_of_not_sets quiet)

open Sample

def started : Host where
  state := (Server.start Sample.regMr).getD Server.init
  buf := Memory.zero
  maintaining := false

private theorem start_started :
    Server.start Sample.regMr = some started.state := by
  have starts : (Server.start Sample.regMr).isSome = true := by
    decide
  obtain ⟨s, isStarted⟩ := Option.isSome_iff_exists.mp starts
  rw [started, isStarted, Option.getD_some]

/-- A rendezvous set and a get, as they are sent. -/
def asking : List Message :=
  [⟨(Packet.rendezvousSetRequest 5001 firstKey).store Memory.zero, 34⟩,
    ⟨(Packet.eagerGetRequest firstKey).store Memory.zero, 34⟩]

private theorem asking_sent : List.Forall₂ Request.SentAs
    [.rendezvousSet 5001 firstKey, .eagerGet firstKey] asking :=
  .cons ⟨⟨Packet.at_store ⟨by decide, by decide⟩ _, by decide⟩, by decide,
    fun _ _ same => absurd same (by simp)⟩
    (.cons ⟨⟨Packet.at_store ⟨by decide, by decide⟩ _, by decide⟩, by decide,
      fun _ _ same => absurd same (by simp)⟩ .nil)

theorem serves_latest_set_asking :
    ∃ host' replies server answer reply,
      started.serveAll Sample.regMr asking = some (host', replies) ∧
      replies[0]? = some (some answer) ∧
      answer.Carries (.rendezvousSetResponse server) ∧
      replies.getLast? = some (some reply) ∧
      reply.Carries (.rendezvousGetResponse 5001 server) := by
  have completes :
      (started.serveAll Sample.regMr asking).isSome = true := by
    decide +kernel
  obtain ⟨⟨host', replies⟩, ran⟩ := Option.isSome_iff_exists.mp completes
  obtain ⟨server, answer, reply, answered⟩ :=
    (serves_latest_set start_started asking_sent ran).2.1 firstKey 5001 [] []
      rfl (fun _ member => absurd member List.not_mem_nil)
  exact ⟨host', replies, server, answer, reply, ran, answered⟩

end Host

end RdmaKv
