import RdmaKv.Ex4.Calls
import RdmaKv.Ex4.Progress
import RdmaKv.Ex4.Schedule
import Mathlib.Logic.Function.Basic

/-!
# What a failed `kv_set` leaves behind

An eager set that fails and a write that fails change nothing on the server,
but the variables of the cache are assigned before it is known whether the set
fails, and a set that asks for a buffer has changed the entry by then.
-/

namespace RdmaKv

open ByteMemory Interaction Relation

/-! ## The entries -/

namespace Server

variable {s s' : Server}

/-- After a rendezvous set the key has an entry with a buffer and the new
length, and the entries for other keys are as before. -/
private theorem rendezvousSet_entries {valueLength : Nat} {key : CString}
    {reply : Packet} (ran : s.rendezvousSet valueLength key = some (s', reply)) :
    (∃ entry, s'.findEntry key = some entry ∧ entry.valLen = valueLength ∧
        entry.largeValMemInfo.isSome) ∧
      ∀ other, other ≠ key → s'.findEntry other = s.findEntry other := by
  have replied {t : Server} {node : Nat}
      (ran : t.rendezvousReply node = some (s', reply)) : t = s' := by
    obtain ⟨server, _, pair⟩ := Option.map_eq_some_iff.mp ran
    exact (Prod.mk.inj pair).1
  have took {t : Server} {node : Nat}
      (taken : s.takeBuffer = some (node, t)) : t.entries = s.entries := by
    unfold takeBuffer at taken
    split at taken
    · exact absurd taken (by simp)
    · obtain ⟨_, rfl⟩ := Prod.mk.inj (Option.some.inj taken)
      rfl
  have same {t : Server} (entries : t.entries = s.entries) (other : CString) :
      t.findEntry other = s.findEntry other := by
    rw [findEntry, findEntry, entries]
  have replaced (updated : KvEntry)
      (lookup : ∀ other, s'.findEntry other =
        if other = key then some updated else s.findEntry other)
      (length : updated.valLen = valueLength)
      (buffer : updated.largeValMemInfo.isSome) :
      (∃ entry, s'.findEntry key = some entry ∧ entry.valLen = valueLength ∧
          entry.largeValMemInfo.isSome) ∧
        ∀ other, other ≠ key → s'.findEntry other = s.findEntry other :=
    ⟨⟨updated, (lookup key).trans (if_pos rfl), length, buffer⟩,
      fun other different => (lookup other).trans (if_neg different)⟩
  unfold rendezvousSet at ran
  cases found : s.findEntry key with
  | some entry =>
      have isKey := findEntry_key found
      rw [found] at ran
      simp only at ran
      split at ran
      · obtain ⟨⟨node, t⟩, taken, rest⟩ := Option.bind_eq_some_iff.mp ran
        obtain rfl := replied rest
        refine replaced { entry with
          valLen := valueLength
          largeValMemInfo := some node
          value := none } (fun other => ?_) rfl rfl
        rw [← same (took taken) other]
        refine findEntry_putEntry ((same (took taken) key).trans found) ?_ other
        exact isKey
      · rename_i node buffer
        obtain rfl := replied ran
        refine replaced { entry with valLen := valueLength }
          (fun other => findEntry_putEntry found ?_ other) rfl ?_
        · exact isKey
        · exact Option.isSome_iff_exists.mpr ⟨node, buffer⟩
  | none =>
      rw [found] at ran
      obtain ⟨⟨node, t⟩, taken, rest⟩ := Option.bind_eq_some_iff.mp ran
      obtain rfl := replied rest
      refine replaced ⟨key, key.length, valueLength, some node, none⟩
        (fun other => ?_) rfl rfl
      rw [← same (took taken) other]
      exact findEntry_appendEntry ((same (took taken) key).trans found) other

end Server

/-! ## When everything that was sent has been handled -/

/-- The server when it has returned from `maintain_pool` and handled some more
messages. -/
def Host.finish (regMr : Nat → Option IbvMr) (host : Host)
    (messages : List Message) : Option Host :=
  (if host.maintaining then host.maintain regMr else some host).bind
    fun host => messages.foldlM
      (fun host message => (host.serve regMr message).map Prod.fst) host

namespace Host

variable {regMr : Nat → Option IbvMr} {host host' : Host}

private theorem maintaining_of_maintain
    (maintained : host.maintain regMr = some host') :
    host'.maintaining = false := by
  obtain ⟨state, _, rfl⟩ := Option.map_eq_some_iff.mp maintained
  rfl

private theorem finish_maintain (busy : host.maintaining = true)
    (maintained : host.maintain regMr = some host') (messages : List Message) :
    host.finish regMr messages = host'.finish regMr messages := by
  unfold finish
  rw [if_pos busy, maintained, maintaining_of_maintain maintained]
  rfl

private theorem finish_receive {message : Message} {reply : Option Message}
    (idle : host.maintaining = false)
    (received : host.receive message = some (host', reply))
    (messages : List Message) :
    host.finish regMr (message :: messages) =
      host'.finish regMr messages := by
  unfold finish
  rw [idle, if_pos (receive_maintaining received)]
  simp only [Bool.false_eq_true, if_false, Option.bind_some, List.foldlM_cons]
  have served : (host.serve regMr message).map Prod.fst =
      host'.maintain regMr := by
    simp [serve, received, Option.map_bind]
  rw [served]
  rfl

private theorem finish_append (host : Host) (messages : List Message)
    (message : Message) :
    host.finish regMr (messages ++ [message]) =
      (host.finish regMr messages).bind fun host =>
        (host.serve regMr message).map Prod.fst := by
  unfold finish
  simp [List.foldlM_append, Option.bind_assoc]

end Host

namespace Cluster

variable {regMr : Nat → Nat → Option IbvMr} {c c' : Cluster}

/-- The servers when they have handled what was sent to them. -/
def finished (regMr : Nat → Nat → Option IbvMr) (c : Cluster) (id : Nat) :
    Option Host :=
  (c.hosts id).finish (regMr id) (c.links (.server id)).toServer

/-- What the servers do on their own leads there. -/
private theorem finished_evolve (step : Evolve regMr c c') :
    c'.finished regMr = c.finished regMr := by
  funext other
  cases step with
  | receive idle arrived received =>
      rename_i id message rest host reply
      by_cases here : other = id
      · subst here
        unfold finished
        rw [arrived, Host.finish_receive idle received]
        simp [setHost, setLink]
      · simp [finished, setHost, setLink, here]
  | maintain busy maintained =>
      rename_i id host
      by_cases here : other = id
      · subst here
        unfold finished
        rw [Host.finish_maintain busy maintained]
        simp [setHost]
      · simp [finished, setHost, here]
  | locate arrived located => simp [finished, setLink]

private theorem finished_setLink {conn : Conn} {link : Link}
    (same : link.toServer = (c.links conn).toServer) :
    (c.setLink conn link).finished regMr = c.finished regMr := by
  funext id
  unfold finished
  rw [toServer_setLink same]
  rfl

private theorem finished_breakLink (c : Cluster) (conn : Conn) :
    (c.breakLink conn).finished regMr = c.finished regMr := by
  unfold breakLink
  exact finished_setLink rfl

/-- A message that is sent is handled as the last one. -/
private theorem finished_send (id : Nat) (message : Message) :
    (c.setLink (.server id) { c.links (.server id) with
        toServer := (c.links (.server id)).toServer ++ [message] }).finished
        regMr =
      Function.update (c.finished regMr) id ((c.finished regMr id).bind
        fun host => (host.serve (regMr id) message).map Prod.fst) := by
  funext other
  by_cases here : other = id
  · subst here
    rw [Function.update_self, finished, finished, ← Host.finish_append]
    simp [setLink]
  · simp [finished, setLink, here]

/-- Neither a message nor a reply is on its way. -/
def Quiet (c : Cluster) (server : Nat) : Prop :=
  (c.links (.server server)).toServer = [] ∧
    (c.links (.server server)).toClient = []

private theorem Quiet.evolve {server : Nat} (quiet : c.Quiet server)
    (step : Evolve regMr c c') : c'.Quiet server := by
  obtain ⟨asked, answered⟩ := quiet
  cases step with
  | receive idle arrived received =>
      rename_i id message rest host reply
      by_cases here : server = id
      · subst here
        exact absurd (asked.symm.trans arrived) (by simp)
      · exact ⟨by simpa [setLink, setHost, here] using asked,
          by simpa [setLink, setHost, here] using answered⟩
  | maintain busy maintained => exact ⟨asked, answered⟩
  | locate arrived located => exact ⟨asked, answered⟩

/-- What the server replies to a message, if it has come to this state. -/
def replyOf (host : Option Host) (message : Message) : Option Message :=
  host.bind fun host => (host.receive message).bind Prod.snd

/-- The only message that is on its way reaches the server in this state, or
its reply is the only one. -/
def Asked (regMr : Nat → Nat → Option IbvMr) (server : Nat) (message : Message)
    (host : Option Host) (c : Cluster) : Prop :=
  (c.links (.server server)).toServer = [message] ∧
      (c.links (.server server)).toClient = [] ∧
      (c.hosts server).finish (regMr server) [] = host ∨
    (c.links (.server server)).toServer = [] ∧
      ∀ reply rest, (c.links (.server server)).toClient = reply :: rest →
        replyOf host message = some reply

private theorem Asked.evolve {server : Nat} {message : Message}
    {host : Option Host} (asked : Asked regMr server message host c)
    (step : Evolve regMr c c') : Asked regMr server message host c' := by
  cases step with
  | receive idle arrived received =>
      rename_i id message' rest host' reply
      by_cases here : server = id
      · subst here
        rcases asked with ⟨only, nothing, reaches⟩ | ⟨nothing, _⟩
        · obtain ⟨rfl, rfl⟩ := List.cons.inj (only.symm.trans arrived)
          rw [Host.finish, idle] at reaches
          obtain rfl : some (c.hosts server) = host := reaches
          refine Or.inr ⟨by simp [setLink, setHost], fun reply' rest arrives => ?_⟩
          simp only [replyOf, Option.bind_some, received]
          cases reply with
          | none => simp [setLink, Link.handled, nothing] at arrives
          | some reply =>
              simp only [setLink, setHost, if_true, Link.handled] at arrives
              split at arrives
              · simp only [nothing, List.nil_append, List.cons.injEq]
                  at arrives
                rw [arrives.1]
              · exact absurd (nothing.symm.trans arrives) (by simp)
        · exact absurd (nothing.symm.trans arrived) (by simp)
      · simpa [Asked, setLink, setHost, here] using asked
  | maintain busy maintained =>
      rename_i id host'
      by_cases here : server = id
      · subst here
        rw [Asked, Host.finish_maintain busy maintained] at asked
        simpa [Asked, setHost] using asked
      · simpa [Asked, setHost, here] using asked
  | locate arrived located => simpa [Asked, setLink] using asked

/-- A message that is sent when nothing else is on its way. -/
private theorem Quiet.asked {server : Nat} {message : Message}
    (quiet : c.Quiet server)
    (sent : c.complete (.send (.server server) message) = some (true, c')) :
    Asked regMr server message (c.finished regMr server) c' := by
  obtain ⟨asked, answered⟩ := quiet
  cases completes_of_complete sent with
  | sends intact fits =>
      refine Or.inl ⟨?_, ?_, ?_⟩
      · simp [setLink, asked]
      · simpa [setLink] using answered
      · rw [finished, asked]
        rfl

private theorem Asked.answers {server : Nat} {message reply : Message}
    {host : Option Host} {rest : List Message}
    (asked : Asked regMr server message host c)
    (arrived : (c.links (.server server)).toClient = reply :: rest) :
    replyOf host message = some reply := by
  rcases asked with ⟨_, nothing, _⟩ | ⟨_, replies⟩
  · exact absurd (nothing.symm.trans arrived) (by simp)
  · exact replies reply rest arrived

end Cluster

/-! ## The operations of the client -/

section Operations

variable {regMr : Nat → Nat → Option IbvMr} {c : Cluster}
  {servers : Nat → Option Host}

/-- What holds whenever a program has ended, whatever it is used on. -/
abbrev Leaves (regMr : Nat → Nat → Option IbvMr) {α : Type}
    (post : α → Cluster → Prop) (program : Run α) (c : Cluster) : Prop :=
  wp (Cluster.environment regMr) (fun _ _ => True) True post program c

private theorem finished_kept {before after : Cluster}
    (kept : before.finished regMr = servers)
    (step : (Cluster.environment regMr).evolve before after) :
    after.finished regMr = servers :=
  (Cluster.finished_evolve step).trans kept

/-- A write that fails changes nothing on the servers. -/
private theorem leaves_write (kept : c.finished regMr = servers) (server : Nat)
    (key : CString) (value : Memory) (length : Nat) (remote : IbvMr)
    (client : Client) :
    Leaves regMr
      (fun result later => result.2 = client ∧
        (result.1 ≠ 0 → later.finished regMr = servers))
      (client.write server key value length remote) c := by
  refine wp_perform_of_kept finished_kept kept fun later kept => ⟨trivial, ?_⟩
  intro written after completed
  cases written with
  | true => exact fun _ _ => ⟨rfl, fun failed => absurd rfl failed⟩
  | false =>
      have breaks : after = later.breakLink (.server server) := by
        change later.complete _ = _ at completed
        cases Cluster.completes_of_complete completed
        rfl
      refine wp_done_of_kept finished_kept ?_
        (fun later kept => ⟨rfl, fun _ => kept⟩)
      rw [breaks]
      exact (Cluster.finished_breakLink later (.server server)).trans kept

/-- The servers when one of them has also handled this message. -/
def alsoServed (regMr : Nat → Nat → Option IbvMr)
    (servers : Nat → Option Host) (server : Nat) (message : Message) :
    Nat → Option Host :=
  Function.update servers server ((servers server).bind fun host =>
    (host.serve (regMr server) message).map Prod.fst)

/-- A send that completes is handled, and one that fails is not sent. -/
private theorem complete_send (kept : c.finished regMr = servers) {server : Nat}
    {message : Message} {sent : Bool} {after : Cluster}
    (completed : c.complete (.send (.server server) message) =
      some (sent, after)) :
    if sent then
      message.size ≤ eagerProtocolLimit ∧
        after.finished regMr = alsoServed regMr servers server message
    else after.finished regMr = servers := by
  subst kept
  cases Cluster.completes_of_complete completed with
  | sends intact fits => exact ⟨fits, Cluster.finished_send server message⟩
  | sendFails fails => exact Cluster.finished_breakLink c (.server server)

/-- A reply that is received changes `ctx->buf`.  If nothing was on its way
before, it is the reply to this message. -/
private theorem leaves_exchange (kept : c.finished regMr = servers)
    (server : Nat)
    (message : Message) (client : Client) :
    Leaves regMr
      (fun replied later => ∀ client', replied = some client' →
        (∃ reply : Message, client' = client.setBuf (.server server)
            (reply.deliver (client.buf (.server server))) ∧
          (c.Quiet server → Cluster.replyOf (servers server) message = some reply)) ∧
          message.size ≤ eagerProtocolLimit ∧
          later.finished regMr = alsoServed regMr servers server message)
      (client.exchange (.server server) message) c := by
  have keeps {before after : Cluster}
      (here : before.finished regMr = servers ∧
        (c.Quiet server → before.Quiet server))
      (step : (Cluster.environment regMr).evolve before after) :
      after.finished regMr = servers ∧
        (c.Quiet server → after.Quiet server) :=
    ⟨finished_kept here.1 step, fun quiet => (here.2 quiet).evolve step⟩
  refine wp_perform_of_kept keeps ⟨kept, id⟩ fun later kept => ⟨trivial, ?_⟩
  intro sent after completed
  have goes := complete_send kept.1 completed
  cases sent with
  | false => exact fun _ _ client' isNone => absurd isNone (by simp)
  | true =>
      have asks {before after : Cluster}
          (here : before.finished regMr =
              alsoServed regMr servers server message ∧
            (c.Quiet server → Cluster.Asked regMr server message
              (servers server) before))
          (step : (Cluster.environment regMr).evolve before after) :
          after.finished regMr = alsoServed regMr servers server message ∧
            (c.Quiet server → Cluster.Asked regMr server message
              (servers server) after) :=
        ⟨finished_kept here.1 step, fun quiet => (here.2 quiet).evolve step⟩
      refine wp_perform_of_kept asks ⟨goes.2, fun quiet =>
        kept.1 ▸ (kept.2 quiet).asked completed⟩ fun later kept => ⟨trivial, ?_⟩
      intro reply after completed
      have same : after.finished regMr = later.finished regMr := by
        change later.complete _ = _ at completed
        cases Cluster.completes_of_complete completed with
        | receives arrived => exact Cluster.finished_setLink rfl
        | receiveFails nothing broken => rfl
      have answers : ∀ answer, reply = some answer → c.Quiet server →
          Cluster.replyOf (servers server) message = some answer := by
        rintro answer rfl quiet
        change later.complete _ = _ at completed
        cases Cluster.completes_of_complete completed with
        | receives arrived => exact (kept.2 quiet).answers arrived
      refine wp_done_of_kept finished_kept (same.trans kept.1)
        fun later kept client' isSome => ⟨?_, goes.1, kept⟩
      obtain ⟨reply, isReply, rfl⟩ := Option.map_eq_some_iff.mp isSome
      exact ⟨_, rfl, answers reply isReply⟩

end Operations

/-! ## `kv_set` -/

def Client.cacheVariables (client : Client) : CString × Nat × IbvMr :=
  (client.lastRndvAccessedKey, client.lastAccessedKeyValLength,
    client.lastAccessedServer)

@[simp]
theorem Client.cacheVariables_setBuf (client : Client) (conn : Conn)
    (buf : Memory) :
    (client.setBuf conn buf).cacheVariables = client.cacheVariables := rfl

namespace KvClient

def valueLength (value : CString) : Nat := value.length % unsignedRange

def packetSize (key value : CString) : Nat :=
  (key.length % unsignedRange + valueLength value + sizeofPacket + 1 + 1) %
    unsignedRange

/-- What the servers come to and what the variables of the cache are after a
`kv_set` that failed.  The message of a set that asks for a buffer has been
sent, and the reply that arrived over it in `ctx->buf` is a
`RENDEZVOUS_SET_RESPONSE` with the address and the key that are cached.  If
the connection was quiet, this is what the server replies to the message. -/
def Leftover (regMr : Nat → Nat → Option IbvMr) (server : Nat) (quiet : Prop)
    (key value : CString) (client client' : Client)
    (servers servers' : Nat → Option Host) : Prop :=
  if packetSize key value < eagerProtocolLimit then
    servers' = servers ∧
      client'.cacheVariables = (client.invalidate key).cacheVariables
  else if key = client.lastRndvAccessedKey then
    servers' = servers ∧
      client'.cacheVariables =
        (key, valueLength value, client.lastAccessedServer)
  else
    ∃ (message reply : Message) (remote : IbvMr),
      (Request.rendezvousSet ((valueLength value + 1) % unsignedRange)
          key).SentAs message ∧
        servers' = alsoServed regMr servers server message ∧
        (quiet → Cluster.replyOf (servers server) message = some reply) ∧
        client'.buf (.server server) = reply.deliver message.bytes ∧
        (Packet.rendezvousSetResponse remote).At
          (client'.buf (.server server)) ∧
        client'.cacheVariables = (key, valueLength value, remote)

variable {regMr : Nat → Nat → Option IbvMr} {c : Cluster}
  {servers : Nat → Option Host}

/-- An eager set that fails was not sent. -/
private theorem leaves_eagerSet (kept : c.finished regMr = servers)
    (server : Nat) (key : CString) (value : Memory)
    (keyLength valueLength packetSize : Nat) (client : Client) :
    Leaves regMr
      (fun result later => result.1 ≠ 0 →
        later.finished regMr = servers ∧
          result.2.cacheVariables = (client.invalidate key).cacheVariables)
      (eagerSetWith 1 server key value keyLength valueLength packetSize client)
      c := by
  unfold eagerSetWith
  simp only
  split
  · refine wp_perform_of_kept finished_kept kept
      fun later kept => ⟨trivial, ?_⟩
    intro sent after completed
    have goes := complete_send kept completed
    cases sent with
    | true => exact fun _ _ failed => absurd rfl failed
    | false =>
        exact wp_done_of_kept finished_kept goes
          fun later kept _ => ⟨kept, rfl⟩
  · trivial

/-- The buffer of the key is not asked for. -/
private theorem leaves_cachedSet (kept : c.finished regMr = servers)
    (server : Nat) (key : CString) (value : Memory) (valueLength : Nat)
    (client : Client) :
    Leaves regMr
      (fun result later => result.1 ≠ 0 →
        later.finished regMr = servers ∧
          result.2.cacheVariables = (client.lastRndvAccessedKey, valueLength,
            client.lastAccessedServer))
      (cachedSet server key value valueLength client) c := by
  refine wp_mono (fun result later written failed => ?_)
    (leaves_write kept server key value ((valueLength + 1) % unsignedRange)
      client.lastAccessedServer
      { client with lastAccessedKeyValLength := valueLength })
  rw [written.1]
  exact ⟨written.2 failed, rfl⟩

/-- The address and the key in a `RENDEZVOUS_SET_RESPONSE`. -/
private theorem rendezvousSetResponse_at {buf : Memory}
    (arrived : buf.loadLE 0 4 = PacketType.rendezvousSetResponse.code) :
    (Packet.rendezvousSetResponse ⟨UInt64.ofNat (buf.loadLE 8 8),
      UInt32.ofNat (buf.loadLE 16 4)⟩).At buf := by
  refine ⟨arrived, ?_, ?_⟩
  · exact (UInt64.toNat_ofNat_of_lt' (Memory.loadLE_lt buf 8 8)).symm
  · exact (UInt32.toNat_ofNat_of_lt' (Memory.loadLE_lt buf 16 4)).symm

/-- The buffer was asked for, and it is remembered. -/
private theorem leaves_rendezvousSet (kept : c.finished regMr = servers)
    (server : Nat) (key : CString) (value : Memory) (valueLength : Nat)
    (client : Client) :
    Leaves regMr
      (fun result later => result.1 ≠ 0 →
        ∃ (message reply : Message) (remote : IbvMr),
        (Request.rendezvousSet ((valueLength + 1) % unsignedRange)
            key).SentAs message ∧
          later.finished regMr = alsoServed regMr servers server message ∧
          (c.Quiet server →
            Cluster.replyOf (servers server) message = some reply) ∧
          result.2.buf (.server server) = reply.deliver message.bytes ∧
          (Packet.rendezvousSetResponse remote).At
            (result.2.buf (.server server)) ∧
          result.2.cacheVariables = (key, valueLength, remote))
      (rendezvousSetWith 1 server key value (key.length % unsignedRange)
        valueLength (client.setBuf (.server server)
          ((client.buf (.server server)).storeLE 0 4
            PacketType.rendezvousSetRequest.code))) c := by
  unfold rendezvousSetWith
  simp only
  split
  · refine wp_bind (wp_mono (fun replied later exchanged => ?_)
      (leaves_exchange kept server _ _))
    cases replied with
    | none => trivial
    | some client' =>
        obtain ⟨⟨reply, isClient, answers⟩, fits, kept'⟩ :=
          exchanged client' rfl
        simp only
        split
        · rename_i arrived
          have small := arrived.2
          have range : eagerProtocolLimit + sizeofPacket < unsignedRange := by
            decide
          have short : key.length % unsignedRange = key.length :=
            Nat.mod_eq_of_lt (by omega)
          have size : (key.length + 1 + sizeofPacket) % unsignedRange =
              key.length + 1 + sizeofPacket := Nat.mod_eq_of_lt (by omega)
          rw [short, size, Client.buf_setBuf] at fits kept' answers
          refine wp_mono (fun result later written failed => ?_)
            (leaves_write kept' server key value _ _ _)
          refine ⟨_, reply, _, rendezvousSet_sent _ (Nat.mod_lt _ (by decide))
            fits le_rfl, written.2 failed, answers, ?_, ?_,
            congrArg _ written.1⟩
          · rw [written.1]
            change client'.buf (.server server) = _
            rw [isClient, Client.buf_setBuf, Client.buf_setBuf, short,
              Client.buf_setBuf]
          · rw [written.1]
            exact rendezvousSetResponse_at arrived.1
        · trivial
  · trivial

private theorem leaves_kvSet (c : Cluster) (server : Nat) (key value : CString)
    (client : Client) :
    Leaves regMr
      (fun result later => result.1 ≠ 0 →
        Leftover regMr server (c.Quiet server) key value client result.2
          (c.finished regMr) (later.finished regMr))
      (kvSet server key value client) c := by
  unfold kvSet kvSetWith Leftover
  simp only
  by_cases eager : packetSize key value < eagerProtocolLimit
  · have eager' := eager
    unfold packetSize valueLength at eager'
    rw [if_pos eager']
    simp only [if_pos eager]
    exact leaves_eagerSet rfl server key value.memory _ _ _ client
  · have large := eager
    unfold packetSize valueLength at large
    rw [if_neg large]
    simp only [if_neg eager]
    by_cases cached : key = client.lastRndvAccessedKey
    · have cached' (buf : Memory) : key = (client.setBuf (.server server)
          buf).lastRndvAccessedKey := cached
      rw [if_pos (cached' _)]
      simp only [if_pos cached]
      refine wp_mono (fun result later written failed => ?_)
        (leaves_cachedSet rfl server key value.memory
          (value.length % unsignedRange) _)
      rw [cached]
      exact written failed
    · have other (buf : Memory) : key ≠ (client.setBuf (.server server)
          buf).lastRndvAccessedKey := cached
      rw [if_neg (other _)]
      simp only [if_neg cached]
      exact leaves_rendezvousSet rfl server key value.memory _ client

/-- Nothing is different after a set that failed: it was an eager one and did
not clear the cache, or it wrote as much as is cached. -/
def Harmless (key value : CString) (client : Client) : Prop :=
  if packetSize key value < eagerProtocolLimit then
    key = client.lastRndvAccessedKey →
      key = CString.empty ∧ client.lastAccessedKeyValLength = 0
  else
    key = client.lastRndvAccessedKey ∧
      client.lastAccessedKeyValLength = valueLength value

theorem Leftover.unchanged_iff {server : Nat} {quiet : Prop}
    {key value : CString}
    {client client' : Client} {servers' : Nat → Option Host}
    (leftover : Leftover regMr server quiet key value client client' servers
      servers') :
    servers' = servers ∧ client'.cacheVariables = client.cacheVariables ↔
      Harmless key value client := by
  unfold Leftover at leftover
  unfold Harmless
  split at leftover
  · rename_i eager
    rw [leftover.1, leftover.2, if_pos eager]
    unfold Client.invalidate Client.cacheVariables
    by_cases cached : key = client.lastRndvAccessedKey
    · rw [if_pos cached]
      simp only [cached, true_and, forall_const, Prod.mk.injEq, and_true]
      exact and_congr eq_comm eq_comm
    · rw [if_neg cached]
      exact iff_of_true ⟨rfl, rfl⟩ (fun same => absurd same cached)
  · rename_i large
    rw [if_neg large]
    split at leftover
    · rename_i cached
      rw [leftover.1, leftover.2]
      simp only [Client.cacheVariables, cached, true_and, Prod.mk.injEq,
        and_true]
      exact eq_comm
    · rename_i uncached
      obtain ⟨message, reply, remote, _, _, _, _, _, changed⟩ := leftover
      refine iff_of_false (fun unchanged => ?_) (fun both => uncached both.1)
      rw [changed] at unchanged
      exact uncached (Prod.mk.inj unchanged.2).1

/-- What a server that has handled the request for a buffer holds. -/
private theorem alsoServed_entries {server valueLength : Nat} {key : CString}
    {message : Message} {host host' : Host}
    (sent : (Request.rendezvousSet valueLength key).SentAs message)
    (before : servers server = some host)
    (after : alsoServed regMr servers server message server = some host') :
    (∃ entry, host'.state.findEntry key = some entry ∧
        entry.valLen = valueLength ∧ entry.largeValMemInfo.isSome) ∧
      ∀ other, other ≠ key →
        host'.state.findEntry other = host.state.findEntry other := by
  rw [alsoServed, Function.update_self, before, Option.bind_some] at after
  obtain ⟨⟨host', reply⟩, served, rfl⟩ := Option.map_eq_some_iff.mp after
  obtain ⟨⟨handled, answer⟩, received, rest⟩ :=
    Option.bind_eq_some_iff.mp served
  obtain ⟨settled, maintained, pair⟩ := Option.bind_eq_some_iff.mp rest
  obtain ⟨rfl, rfl⟩ := Prod.mk.inj (Option.some.inj pair)
  obtain ⟨state, ran, rfl⟩ := Option.map_eq_some_iff.mp maintained
  obtain ⟨_, computed, _, _⟩ := Host.receive_spec sent received
  obtain ⟨⟨set, packet⟩, ranSet, pair⟩ := Option.map_eq_some_iff.mp computed
  obtain ⟨rfl, rfl⟩ := Prod.mk.inj pair
  have entries := Server.maintainPool_entries ran
  have kept (other : CString) :
      state.findEntry other = handled.state.findEntry other := by
    rw [Server.findEntry, Server.findEntry, entries]
  simp only [kept]
  exact Server.rendezvousSet_entries ranSet

/-- If `kv_set` fails, an eager set and a set of the cached key change no
server, and any other has changed the entry for its key and no other entry.
The variables of the cache are as they were assigned on the way, so that
nothing at all is different exactly if that made no difference. -/
theorem kvSet_failed {c c' : Cluster} {server : Nat} {key value : CString}
    {client client' : Client} {ret : Int}
    (run : Steps (Cluster.environment regMr)
      (kvSet server key value client, c) (.done (ret, client'), c'))
    (failed : ret ≠ 0) :
    Leftover regMr server (c.Quiet server) key value client client'
        (c.finished regMr) (c'.finished regMr) ∧
      (eagerProtocolLimit ≤ packetSize key value →
        key ≠ client.lastRndvAccessedKey → ∀ host host',
        c.finished regMr server = some host →
        c'.finished regMr server = some host' →
          (∃ entry, host'.state.findEntry key = some entry ∧
              entry.valLen = (valueLength value + 1) % unsignedRange ∧
              entry.largeValMemInfo.isSome) ∧
            ∀ other, other ≠ key →
              host'.state.findEntry other = host.state.findEntry other) ∧
      (c'.finished regMr = c.finished regMr ∧
          client'.cacheVariables = client.cacheVariables ↔
        Harmless key value client) := by
  have leaves := @leaves_kvSet regMr c server key value client
  have leftover := wp_steps leaves run c' .refl failed
  refine ⟨leftover, fun large uncached host host' before after => ?_,
    leftover.unchanged_iff⟩
  unfold Leftover at leftover
  rw [if_neg (not_lt.mpr large), if_neg uncached] at leftover
  obtain ⟨message, _, _, sent, same, _⟩ := leftover
  rw [same] at after
  exact alsoServed_entries sent before after

/-! ### A value that does not fit into a buffer -/

open Sample

private theorem kvSet_letters :
    kvSet 0 firstKey (letters maxTestSize) client =
      kvSetWith 1 0 firstKey (letters maxTestSize).memory 40960 client := by
  unfold kvSet
  rw [length_letters]
  rfl

/-- The write is rejected, but the key has an entry and is cached. -/
private theorem kvSet_rejected :
    ∃ client' c', Steps (Cluster.environment mr)
        (kvSet 0 firstKey (letters maxTestSize) client, cluster)
        (.done (1, client'), c') ∧
      ((c'.hosts 0).state.findEntry firstKey).isSome ∧
      client'.lastRndvAccessedKey = firstKey := by
  rw [kvSet_letters]
  obtain ⟨⟨program, c'⟩, steps, reaches⟩ := Cluster.steps_of_reached mr 3
    (kvSetWith 1 0 firstKey (letters maxTestSize).memory 40960 client, cluster)
    (fun reached =>
      reached.1.result?.any (fun result : Int × Client =>
        decide (result.1 = 1 ∧ result.2.lastRndvAccessedKey = firstKey)) &&
      ((reached.2.hosts 0).state.findEntry firstKey).isSome)
    (by decide +kernel)
  obtain ⟨ends, stored⟩ := (Bool.and_eq_true ..).mp reaches
  obtain ⟨⟨ret, client'⟩, ended, tested⟩ := (Option.any_eq_true ..).mp ends
  obtain rfl := Program.eq_done_of_result? ended
  obtain ⟨rfl, cached⟩ := of_decide_eq_true tested
  exact ⟨client', c', steps, stored, cached⟩

theorem kvSet_failed_letters :
    ∃ client' c', Steps (Cluster.environment mr)
        (kvSet 0 firstKey (letters maxTestSize) client, cluster)
        (.done (1, client'), c') ∧
      ¬ (c'.finished mr = cluster.finished mr ∧
        client'.cacheVariables = client.cacheVariables) := by
  obtain ⟨client', c', run, _, _⟩ := kvSet_rejected
  have large {value : CString} (long : value.length = maxTestSize) :
      ¬ packetSize firstKey value < eagerProtocolLimit := by
    rw [packetSize, valueLength, long]
    decide
  -- The letters are kept out of the condition, which would count them.
  have applies {value : CString} (long : value.length = maxTestSize)
      (run : Steps (Cluster.environment mr)
        (kvSet 0 firstKey value client, cluster) (.done (1, client'), c')) :
      ¬ (c'.finished mr = cluster.finished mr ∧
        client'.cacheVariables = client.cacheVariables) := by
    intro same
    have harmless := (kvSet_failed run one_ne_zero).2.2.mp same
    rw [Harmless, if_neg (large long)] at harmless
    exact absurd harmless.1 (by decide)
  exact ⟨client', c', run, applies (length_letters maxTestSize) run⟩

/-- Neither the entry nor the variables of the cache are as before. -/
theorem kvSet_failed_changes :
    ∃ client' c', Steps (Cluster.environment mr)
        (kvSet 0 firstKey (letters maxTestSize) client, cluster)
        (.done (1, client'), c') ∧
      (c'.hosts 0).state.findEntry firstKey ≠
        (cluster.hosts 0).state.findEntry firstKey ∧
      client'.cacheVariables ≠ client.cacheVariables := by
  obtain ⟨client', c', run, stored, cached⟩ := kvSet_rejected
  refine ⟨client', c', run, fun same => ?_, fun same => ?_⟩
  · have absent : (cluster.hosts 0).state.findEntry firstKey = none := by
      decide +kernel
    rw [same, absent] at stored
    exact absurd stored (by simp)
  · exact absurd (cached.symm.trans (congrArg Prod.fst same)) (by decide)

end KvClient

end RdmaKv
