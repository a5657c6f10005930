import RdmaKv.Ex4.WireAddress
import RdmaKv.Library.ByteStream
import Mathlib.Logic.Relation

/-!
# How a client and a server get connected

`orig_main` of both sides up to its return: the receives are posted, the
addresses are exchanged over TCP (`pp_client_exch_dest` and
`pp_server_exch_dest`) and each queue pair goes from INIT to RTR to RTS
(`pp_connect_ctx`), the server's before it answers, the client's after it has
got the answer.  Every call may fail, every read may return less than was
asked for.
-/

namespace RdmaKv

open ByteMemory ByteStream Relation

/-! ## Queue pairs -/

/-- The attributes that depend on the address of the other side.  `grh` is the
GID of a global address. -/
structure Route where
  destQpNum : Nat
  rqPsn : Nat
  dlid : Nat
  grh : Option (List UInt8)

/-- `gid.global.interface_id` is not zero. -/
def PingpongDest.isGlobal (dest : PingpongDest) : Bool :=
  (dest.gid.slice 8 8).any (· != 0)

/-- What `pp_connect_ctx` makes of an address. -/
def PingpongDest.route (dest : PingpongDest) : Route :=
  ⟨dest.qpn, dest.psn, dest.lid,
    if dest.isGlobal then some (dest.gid.slice 0 16) else none⟩

/-- `IBV_QPS_INIT`, `IBV_QPS_RTR` and `IBV_QPS_RTS` with the attributes that
were set. -/
inductive QpState where
  | init
  | rtr (route : Route)
  | rts (route : Route) (sqPsn : Nat)

private theorem slice_eight {gid : Memory} :
    gid.slice 8 8 = (gid.slice 0 16).drop 8 := by
  apply List.ext_getElem
  · simp
  · intro i _ _
    simp [Memory.slice]

theorem PingpongDest.Same.route {dest other : PingpongDest}
    (same : dest.Same other) : dest.route = other.route := by
  simp only [PingpongDest.route, PingpongDest.isGlobal, slice_eight, same.lid,
    same.qpn, same.psn, same.gid]

/-! ## The two programs -/

inductive ServerAt where
  | starting
  | listening
  | accepted
  | read (remDest : PingpongDest)
  | ready (remDest : PingpongDest)
  | connected
  | answered
  | returned
  | failed

inductive ClientAt where
  | starting
  | connecting
  | opened
  | asked
  | read (remDest : PingpongDest)
  | told (remDest : PingpongDest)
  | ready (remDest : PingpongDest)
  | returned
  | failed

/-- Both programs, their queue pairs with the receives that are posted, and the
connection between them.  `opened` is what `accept` waits for. -/
structure Handshake where
  server : ServerAt
  client : ClientAt
  serverQp : QpState
  clientQp : QpState
  serverRouts : Nat
  clientRouts : Nat
  opened : Bool
  up : Stream UInt8
  down : Stream UInt8

namespace Handshake

def start : Handshake :=
  ⟨.starting, .starting, .init, .init, 0, 0, false, Stream.start, Stream.start⟩

/-- The server gives up or is done: its socket is closed. -/
def endServer (s : Handshake) (server : ServerAt) : Handshake :=
  { s with server := server, down := s.down.close }

def endClient (s : Handshake) (client : ClientAt) : Handshake :=
  { s with client := client, up := s.up.close }

def doneText : List UInt8 := [100, 111, 110, 101, 0]

variable (serverRx clientRx : Nat) (serverDest clientDest : PingpongDest)

/-- The server, whose own address is `serverDest`.  `accept` blocks until a
client has connected. -/
inductive ServerStep : Handshake → Handshake → Prop
  | gaveUp {s : Handshake} (working : s.server = .starting ∨
      s.server = .listening ∧ s.opened = true ∨
      (∃ remDest, s.server = .read remDest) ∨
      (∃ remDest, s.server = .ready remDest)) :
      ServerStep s (s.endServer .failed)
  | posted {s : Handshake} (here : s.server = .starting) :
      ServerStep s { s with server := .listening, serverRouts := serverRx }
  | accepted {s : Handshake} (here : s.server = .listening)
      (opened : s.opened = true) :
      ServerStep s { s with server := .accepted }
  | read {s : Handshake} {bytes : List UInt8} {up : Stream UInt8}
      {remDest received : PingpongDest} {gid : Memory} {v32 : Nat}
      (here : s.server = .accepted)
      (reads : Stream.Reads msgSize s.up (some bytes) up)
      (full : bytes.length = msgSize)
      (parsed : PingpongDest.readMessage (Memory.ofList bytes) remDest gid v32 =
        some received) :
      ServerStep s { s with server := .read received, up := up }
  | readShort {s : Handshake} {result : Option (List UInt8)}
      {up : Stream UInt8} (here : s.server = .accepted)
      (reads : Stream.Reads msgSize s.up result up)
      (short : ∀ bytes ∈ result, bytes.length ≠ msgSize) :
      ServerStep s { s.endServer .failed with up := up }
  | toRtr {s : Handshake} {remDest : PingpongDest}
      (here : s.server = .read remDest) :
      ServerStep s { s with
        server := .ready remDest
        serverQp := .rtr remDest.route }
  | toRts {s : Handshake} {remDest : PingpongDest}
      (here : s.server = .ready remDest) :
      ServerStep s { s with
        server := .connected
        serverQp := .rts remDest.route serverDest.psn }
  | wrote {s : Handshake} {bytes : List UInt8} (here : s.server = .connected)
      (message : serverDest.Message bytes) :
      ServerStep s { s with server := .answered, down := s.down.write bytes }
  | wroteShort {s : Handshake} {bytes : List UInt8} {count : Nat}
      (here : s.server = .connected) (message : serverDest.Message bytes)
      (short : count < msgSize) :
      ServerStep s
        ({ s with down := s.down.write (bytes.take count) }.endServer .failed)
  | finished {s : Handshake} {result : Option (List UInt8)}
      {up : Stream UInt8} (here : s.server = .answered)
      (reads : Stream.Reads msgSize s.up result up) :
      ServerStep s { s.endServer .returned with up := up }

/-- The client, whose own address is `clientDest`.  Nothing depends on how much
of `"done"` it can write. -/
inductive ClientStep : Handshake → Handshake → Prop
  | gaveUp {s : Handshake} (working : s.client = .starting ∨
      s.client = .connecting ∨ (∃ remDest, s.client = .read remDest) ∨
      (∃ remDest, s.client = .told remDest) ∨
      (∃ remDest, s.client = .ready remDest)) :
      ClientStep s (s.endClient .failed)
  | posted {s : Handshake} (here : s.client = .starting) :
      ClientStep s { s with client := .connecting, clientRouts := clientRx }
  | opened {s : Handshake} (here : s.client = .connecting)
      (listening : s.server = .listening) (first : s.opened = false) :
      ClientStep s { s with client := .opened, opened := true }
  | wrote {s : Handshake} {bytes : List UInt8} (here : s.client = .opened)
      (message : clientDest.Message bytes) :
      ClientStep s { s with client := .asked, up := s.up.write bytes }
  | wroteShort {s : Handshake} {bytes : List UInt8} {count : Nat}
      (here : s.client = .opened) (message : clientDest.Message bytes)
      (short : count < msgSize) :
      ClientStep s
        ({ s with up := s.up.write (bytes.take count) }.endClient .failed)
  | read {s : Handshake} {bytes : List UInt8} {down : Stream UInt8}
      {remDest received : PingpongDest} {gid : Memory} {v32 : Nat}
      (here : s.client = .asked)
      (reads : Stream.Reads msgSize s.down (some bytes) down)
      (full : bytes.length = msgSize)
      (parsed : PingpongDest.readMessage (Memory.ofList bytes) remDest gid v32 =
        some received) :
      ClientStep s { s with client := .read received, down := down }
  | readShort {s : Handshake} {result : Option (List UInt8)}
      {down : Stream UInt8} (here : s.client = .asked)
      (reads : Stream.Reads msgSize s.down result down)
      (short : ∀ bytes ∈ result, bytes.length ≠ msgSize) :
      ClientStep s { s.endClient .failed with down := down }
  | told {s : Handshake} {remDest : PingpongDest} {count : Nat}
      (here : s.client = .read remDest) :
      ClientStep s
        ({ s with up := s.up.write (doneText.take count) }.endClient
          (.told remDest))
  | toRtr {s : Handshake} {remDest : PingpongDest}
      (here : s.client = .told remDest) :
      ClientStep s { s with
        client := .ready remDest
        clientQp := .rtr remDest.route }
  | toRts {s : Handshake} {remDest : PingpongDest}
      (here : s.client = .ready remDest) :
      ClientStep s { s with
        client := .returned
        clientQp := .rts remDest.route clientDest.psn }

def Step (s s' : Handshake) : Prop :=
  ServerStep serverRx serverDest s s' ∨ ClientStep clientRx clientDest s s'

def Reached (s : Handshake) : Prop :=
  ReflTransGen (Step serverRx clientRx serverDest clientDest) start s

/-! ## What every run keeps -/

/-- The server's queue pair belongs to the client's. -/
structure ServerLinked (s : Handshake) : Prop where
  qp : s.serverQp = .rts clientDest.route serverDest.psn
  routs : s.serverRouts = serverRx

structure Answered (s : Handshake) : Prop where
  linked : ServerLinked serverRx serverDest clientDest s
  message : serverDest.Message s.down.sent
  here : s.server = .answered ∨ s.server = .returned

/-- What the server may rely on: its next 52 bytes are the client's address. -/
def Asking (s : Handshake) : Prop :=
  ∃ message, clientDest.Message message ∧
    s.up.sent.take msgSize <+: message

def ServerHolds (s : Handshake) : Prop :=
  match s.server with
  | .starting => s.up.taken = 0 ∧ s.down.sent = []
  | .listening | .accepted =>
      s.up.taken = 0 ∧ s.down.sent = [] ∧ s.serverRouts = serverRx
  | .read remDest | .ready remDest =>
      remDest.Same clientDest ∧ s.down.sent = [] ∧ s.serverRouts = serverRx
  | .connected =>
      ServerLinked serverRx serverDest clientDest s ∧ s.down.sent = []
  | .answered | .returned => Answered serverRx serverDest clientDest s
  | .failed => s.down.sent.length < msgSize

def ClientHolds (s : Handshake) : Prop :=
  match s.client with
  | .starting => s.up.sent = [] ∧ s.down.taken = 0
  | .connecting | .opened =>
      s.up.sent = [] ∧ s.down.taken = 0 ∧ s.clientRouts = clientRx
  | .asked =>
      clientDest.Message s.up.sent ∧ s.down.taken = 0 ∧
        s.clientRouts = clientRx
  | .read remDest =>
      clientDest.Message s.up.sent ∧ s.clientRouts = clientRx ∧
        remDest.Same serverDest ∧ Answered serverRx serverDest clientDest s
  | .told remDest | .ready remDest =>
      Asking clientDest s ∧ s.clientRouts = clientRx ∧
        remDest.Same serverDest ∧ Answered serverRx serverDest clientDest s
  | .returned =>
      Asking clientDest s ∧ s.clientRouts = clientRx ∧
        s.clientQp = .rts serverDest.route clientDest.psn ∧
        Answered serverRx serverDest clientDest s
  | .failed => Asking clientDest s

variable {serverRx clientRx serverDest clientDest} {s s' : Handshake}

private theorem exists_message (dest : PingpongDest) :
    ∃ bytes, dest.Message bytes :=
  ⟨_, Memory.zero, Memory.zero, _, dest.writeMessage_eq _ _, rfl⟩

private theorem asking_of_empty (empty : s.up.sent = []) :
    Asking clientDest s := by
  obtain ⟨message, isMessage⟩ := exists_message clientDest
  refine ⟨message, isMessage, ?_⟩
  rw [empty, List.take_nil]
  exact List.nil_prefix

private theorem asking_of_message (message : clientDest.Message s.up.sent) :
    Asking clientDest s :=
  ⟨_, message, List.take_prefix _ _⟩

/-- At every point of the client. -/
theorem ClientHolds.asking
    (holds : ClientHolds serverRx clientRx serverDest clientDest s) :
    Asking clientDest s := by
  unfold ClientHolds at holds
  split at holds
  · exact asking_of_empty holds.1
  · exact asking_of_empty holds.1
  · exact asking_of_empty holds.1
  · exact asking_of_message holds.1
  · exact asking_of_message holds.1
  · exact holds.1
  · exact holds.1
  · exact holds.1
  · exact holds

/-- A full message can only come from a server that has answered. -/
theorem ServerHolds.answered
    (holds : ServerHolds serverRx serverDest clientDest s)
    (full : msgSize ≤ s.down.sent.length) :
    Answered serverRx serverDest clientDest s := by
  have empty (nothing : s.down.sent = []) :
      Answered serverRx serverDest clientDest s := by
    rw [nothing] at full
    exact absurd full (by decide)
  unfold ServerHolds at holds
  split at holds
  · exact empty holds.2
  · exact empty holds.2.1
  · exact empty holds.2.1
  · exact empty holds.2.1
  · exact empty holds.2.1
  · exact empty holds.2
  · exact holds
  · exact holds
  · exact absurd holds (Nat.not_lt.mpr full)

/-- A full read from the start of a stream takes the message. -/
private theorem read_message {dest : PingpongDest}
    {stream stream' : Stream UInt8}
    {bytes message : List UInt8} (isMessage : dest.Message message)
    (first : stream.taken = 0)
    (starts : stream.sent.take msgSize <+: message)
    (reads : Stream.Reads msgSize stream (some bytes) stream')
    (full : bytes.length = msgSize) : dest.Message bytes := by
  obtain ⟨rfl, _⟩ := reads.full (by decide) full
  rw [Stream.unread, first, List.drop_zero] at full ⊢
  rw [starts.eq_of_length (full.trans
    (PingpongDest.length_message isMessage).symm)]
  exact isMessage

private theorem same_of_parsed {dest remDest received : PingpongDest}
    {bytes : List UInt8} {gid : Memory} {v32 : Nat} (inRange : dest.InRange)
    (message : dest.Message bytes)
    (parsed : PingpongDest.readMessage (Memory.ofList bytes) remDest gid v32 =
      some received) : received.Same dest := by
  obtain ⟨received', reads, same⟩ := PingpongDest.readMessage_text inRange
    (PingpongDest.message_eq inRange message) remDest gid v32
  obtain rfl := Option.some.inj (parsed.symm.trans reads)
  exact same

/-- A step of the server keeps what holds at its points. -/
theorem ServerStep.server (inRange : clientDest.InRange)
    (step : ServerStep serverRx serverDest s s')
    (asking : Asking clientDest s)
    (holds : ServerHolds serverRx serverDest clientDest s) :
    ServerHolds serverRx serverDest clientDest s' := by
  have short (nothing : s.down.sent = []) : s.down.sent.length < msgSize := by
    rw [nothing]
    decide
  cases step with
  | gaveUp working =>
      change s.down.sent.length < msgSize
      unfold ServerHolds at holds
      rcases working with here | ⟨here, _⟩ | ⟨_, here⟩ | ⟨_, here⟩
      · rw [here] at holds
        exact short holds.2
      · rw [here] at holds
        exact short holds.2.1
      · rw [here] at holds
        exact short holds.2.1
      · rw [here] at holds
        exact short holds.2.1
  | posted here =>
      rw [ServerHolds, here] at holds
      exact ⟨holds.1, holds.2, rfl⟩
  | accepted here _ =>
      rw [ServerHolds, here] at holds
      exact holds
  | read here reads full parsed =>
      rw [ServerHolds, here] at holds
      obtain ⟨message, isMessage, starts⟩ := asking
      have taken := read_message isMessage holds.1 starts reads full
      exact ⟨same_of_parsed inRange taken parsed, holds.2⟩
  | readShort here _ _ =>
      rw [ServerHolds, here] at holds
      exact short holds.2.1
  | toRtr here =>
      rw [ServerHolds, here] at holds
      exact holds
  | toRts here =>
      rw [ServerHolds, here] at holds
      obtain ⟨same, nothing, routs⟩ := holds
      exact ⟨⟨by rw [same.route], routs⟩, nothing⟩
  | wrote here message =>
      rw [ServerHolds, here] at holds
      refine ⟨⟨holds.1.qp, holds.1.routs⟩, ?_, Or.inl rfl⟩
      rw [Stream.sent_write, holds.2, List.nil_append]
      exact message
  | wroteShort here message few =>
      rw [ServerHolds, here] at holds
      change (s.down.sent ++ _).length < msgSize
      rw [holds.2, List.nil_append, List.length_take]
      exact (Nat.min_le_left _ _).trans_lt few
  | finished here _ =>
      rw [ServerHolds, here] at holds
      exact ⟨⟨holds.linked.qp, holds.linked.routs⟩, holds.message, Or.inr rfl⟩

/-- It keeps that it has answered. -/
theorem ServerStep.answered (step : ServerStep serverRx serverDest s s')
    (answered : Answered serverRx serverDest clientDest s) :
    Answered serverRx serverDest clientDest s' := by
  obtain ⟨⟨qp, routs⟩, message, here⟩ := answered
  have elsewhere {point : ServerAt} (other : s.server = point)
      (first : point ≠ .answered) (second : point ≠ .returned) : False := by
    rw [other] at here
    exact here.elim first second
  cases step with
  | gaveUp working =>
      rcases working with other | ⟨other, _⟩ | ⟨_, other⟩ | ⟨_, other⟩
      · exact (elsewhere other (by simp) (by simp)).elim
      · exact (elsewhere other (by simp) (by simp)).elim
      · exact (elsewhere other (by simp) (by simp)).elim
      · exact (elsewhere other (by simp) (by simp)).elim
  | finished _ _ => exact ⟨⟨qp, routs⟩, message, Or.inr rfl⟩
  | posted other => exact (elsewhere other (by simp) (by simp)).elim
  | accepted other _ => exact (elsewhere other (by simp) (by simp)).elim
  | read other _ _ _ => exact (elsewhere other (by simp) (by simp)).elim
  | readShort other _ _ => exact (elsewhere other (by simp) (by simp)).elim
  | toRtr other => exact (elsewhere other (by simp) (by simp)).elim
  | toRts other => exact (elsewhere other (by simp) (by simp)).elim
  | wrote other _ => exact (elsewhere other (by simp) (by simp)).elim
  | wroteShort other _ _ => exact (elsewhere other (by simp) (by simp)).elim

structure ServerFrame (s s' : Handshake) : Prop where
  client : s'.client = s.client
  clientQp : s'.clientQp = s.clientQp
  clientRouts : s'.clientRouts = s.clientRouts
  up : s'.up.sent = s.up.sent
  upClosed : s'.up.closed = s.up.closed
  down : s'.down.taken = s.down.taken
  opened : s'.opened = s.opened

theorem ServerStep.frame (step : ServerStep serverRx serverDest s s') :
    ServerFrame s s' := by
  cases step with
  | read _ reads _ _ =>
      exact ⟨rfl, rfl, rfl, reads.sent, reads.closed, rfl, rfl⟩
  | readShort _ reads _ =>
      exact ⟨rfl, rfl, rfl, reads.sent, reads.closed, rfl, rfl⟩
  | finished _ reads =>
      exact ⟨rfl, rfl, rfl, reads.sent, reads.closed, rfl, rfl⟩
  | _ => exact ⟨rfl, rfl, rfl, rfl, rfl, rfl, rfl⟩

structure ClientFrame (s s' : Handshake) : Prop where
  server : s'.server = s.server
  serverQp : s'.serverQp = s.serverQp
  serverRouts : s'.serverRouts = s.serverRouts
  down : s'.down.sent = s.down.sent
  downClosed : s'.down.closed = s.down.closed
  up : s'.up.taken = s.up.taken

theorem ClientStep.frame (step : ClientStep clientRx clientDest s s') :
    ClientFrame s s' := by
  cases step with
  | read _ reads _ _ =>
      exact ⟨rfl, rfl, rfl, reads.sent, reads.closed, rfl⟩
  | readShort _ reads _ =>
      exact ⟨rfl, rfl, rfl, reads.sent, reads.closed, rfl⟩
  | _ => exact ⟨rfl, rfl, rfl, rfl, rfl, rfl⟩

theorem ServerFrame.asking (frame : ServerFrame s s')
    (asking : Asking clientDest s) : Asking clientDest s' := by
  unfold Asking
  rw [frame.up]
  exact asking

/-- A step of the server keeps what holds at the points of the client. -/
theorem ServerStep.client (step : ServerStep serverRx serverDest s s')
    (holds : ClientHolds serverRx clientRx serverDest clientDest s) :
    ClientHolds serverRx clientRx serverDest clientDest s' := by
  have frame := step.frame
  unfold ClientHolds at holds ⊢
  rw [frame.client, frame.clientQp, frame.clientRouts, frame.up, frame.down]
  split at holds
  · exact holds
  · exact holds
  · exact holds
  · exact holds
  · exact ⟨holds.1, holds.2.1, holds.2.2.1, step.answered holds.2.2.2⟩
  · exact ⟨frame.asking holds.1, holds.2.1, holds.2.2.1,
      step.answered holds.2.2.2⟩
  · exact ⟨frame.asking holds.1, holds.2.1, holds.2.2.1,
      step.answered holds.2.2.2⟩
  · exact ⟨frame.asking holds.1, holds.2.1, holds.2.2.1,
      step.answered holds.2.2.2⟩
  · exact frame.asking holds

theorem ClientFrame.answered (frame : ClientFrame s s')
    (answered : Answered serverRx serverDest clientDest s) :
    Answered serverRx serverDest clientDest s' := by
  refine ⟨⟨?_, ?_⟩, ?_, ?_⟩
  · rw [frame.serverQp]
    exact answered.linked.qp
  · rw [frame.serverRouts]
    exact answered.linked.routs
  · rw [frame.down]
    exact answered.message
  · rw [frame.server]
    exact answered.here

/-- A step of the client keeps what holds at the points of the server. -/
theorem ClientStep.server (step : ClientStep clientRx clientDest s s')
    (holds : ServerHolds serverRx serverDest clientDest s) :
    ServerHolds serverRx serverDest clientDest s' := by
  have frame := step.frame
  unfold ServerHolds at holds ⊢
  rw [frame.server, frame.up, frame.down, frame.serverRouts]
  split at holds
  · exact holds
  · exact holds
  · exact holds
  · exact holds
  · exact holds
  · refine ⟨⟨?_, ?_⟩, holds.2⟩
    · rw [frame.serverQp]
      exact holds.1.qp
    · rw [frame.serverRouts]
      exact holds.1.routs
  · exact frame.answered holds
  · exact frame.answered holds
  · exact holds

/-- A step of the client keeps what holds at its points. -/
theorem ClientStep.client (inRange : serverDest.InRange)
    (step : ClientStep clientRx clientDest s s')
    (server : ServerHolds serverRx serverDest clientDest s)
    (holds : ClientHolds serverRx clientRx serverDest clientDest s) :
    ClientHolds serverRx clientRx serverDest clientDest s' := by
  have frame := step.frame
  have asking := holds.asking
  cases step with
  | gaveUp _ => exact asking
  | posted here =>
      rw [ClientHolds, here] at holds
      exact ⟨holds.1, holds.2, rfl⟩
  | opened here _ _ =>
      rw [ClientHolds, here] at holds
      exact holds
  | wrote here message =>
      rw [ClientHolds, here] at holds
      refine ⟨?_, holds.2⟩
      rw [Stream.sent_write, holds.1, List.nil_append]
      exact message
  | wroteShort here message few =>
      rw [ClientHolds, here] at holds
      refine ⟨_, message, ?_⟩
      change (s.up.sent ++ _).take msgSize <+: _
      rw [holds.1, List.nil_append]
      exact (List.take_prefix _ _).trans (List.take_prefix _ _)
  | read here reads full parsed =>
      rw [ClientHolds, here] at holds
      obtain ⟨isMessage, first, routs⟩ := holds
      have there := (reads.full (by decide) full).2
      rw [Stream.length_unread, first, Nat.sub_zero] at there
      have answered := server.answered there
      have taken := read_message answered.message first (List.take_prefix _ _)
        reads full
      exact ⟨isMessage, routs, same_of_parsed inRange taken parsed,
        frame.answered answered⟩
  | readShort _ _ _ => exact asking
  | told here =>
      rw [ClientHolds, here] at holds
      obtain ⟨isMessage, routs, same, answered⟩ := holds
      refine ⟨⟨_, isMessage, ?_⟩, routs, same, frame.answered answered⟩
      change (s.up.sent ++ _).take msgSize <+: _
      have long := PingpongDest.length_message isMessage
      rw [← long, List.take_left]
  | toRtr here =>
      rw [ClientHolds, here] at holds
      exact ⟨holds.1, holds.2.1, holds.2.2.1, frame.answered holds.2.2.2⟩
  | toRts here =>
      rw [ClientHolds, here] at holds
      exact ⟨holds.1, holds.2.1, by rw [holds.2.2.1.route],
        frame.answered holds.2.2.2⟩

structure Holds (serverRx clientRx : Nat) (serverDest clientDest : PingpongDest)
    (s : Handshake) : Prop where
  server : ServerHolds serverRx serverDest clientDest s
  client : ClientHolds serverRx clientRx serverDest clientDest s

private theorem holds_start :
    Holds serverRx clientRx serverDest clientDest start :=
  ⟨⟨rfl, rfl⟩, ⟨rfl, rfl⟩⟩

theorem Step.holds (serverRange : serverDest.InRange)
    (clientRange : clientDest.InRange)
    (step : Step serverRx clientRx serverDest clientDest s s')
    (holds : Holds serverRx clientRx serverDest clientDest s) :
    Holds serverRx clientRx serverDest clientDest s' := by
  rcases step with step | step
  · exact ⟨step.server clientRange holds.client.asking holds.server,
      step.client holds.client⟩
  · exact ⟨step.server holds.server,
      step.client serverRange holds.server holds.client⟩

theorem Reached.holds (serverRange : serverDest.InRange)
    (clientRange : clientDest.InRange)
    (reached : Reached serverRx clientRx serverDest clientDest s) :
    Holds serverRx clientRx serverDest clientDest s := by
  induction reached with
  | refl => exact holds_start
  | tail _ step inductionHypothesis =>
      exact Step.holds serverRange clientRange step inductionHypothesis

/-- Both queue pairs can send and receive, each names the other one, the PSNs
agree and the receives are posted. -/
structure Linked (serverRx clientRx : Nat) (serverDest clientDest : PingpongDest)
    (s : Handshake) : Prop where
  serverQp : s.serverQp = .rts clientDest.route serverDest.psn
  clientQp : s.clientQp = .rts serverDest.route clientDest.psn
  serverRouts : s.serverRouts = serverRx
  clientRouts : s.clientRouts = clientRx
  server : s.server = .answered ∨ s.server = .returned

theorem Holds.linked (holds : Holds serverRx clientRx serverDest clientDest s)
    (returned : s.client = .returned) :
    Linked serverRx clientRx serverDest clientDest s := by
  have client := holds.client
  rw [ClientHolds, returned] at client
  obtain ⟨_, routs, qp, answered⟩ := client
  exact ⟨answered.linked.qp, qp, answered.linked.routs, routs, answered.here⟩

/-- A message that was written can be read as a whole. -/
private theorem exists_read {dest : PingpongDest} {stream : Stream UInt8}
    (inRange : dest.InRange) (message : dest.Message stream.sent)
    (first : stream.taken = 0) :
    ∃ received : PingpongDest,
      Stream.Reads msgSize stream (some stream.sent)
        { stream with taken := msgSize } ∧
      stream.sent.length = msgSize ∧
      PingpongDest.readMessage (Memory.ofList stream.sent) dest Memory.zero 0 =
        some received := by
  have long := PingpongDest.length_message message
  have unread : stream.unread = stream.sent := by
    rw [Stream.unread, first, List.drop_zero]
  obtain ⟨received, parsed, _⟩ := PingpongDest.readMessage_text inRange
    (PingpongDest.message_eq inRange message) dest Memory.zero 0
  refine ⟨received, ?_, long, parsed⟩
  have reads := @Stream.Reads.part _ msgSize stream msgSize (by decide) le_rfl
    (by rw [unread, long])
  rw [unread, ← long, List.take_length, first, Nat.zero_add] at reads
  rwa [← long]

theorem Reached.server
    (reached : Reached serverRx clientRx serverDest clientDest s)
    (step : ServerStep serverRx serverDest s s') :
    Reached serverRx clientRx serverDest clientDest s' :=
  ReflTransGen.tail reached (Or.inl step)

theorem Reached.client
    (reached : Reached serverRx clientRx serverDest clientDest s)
    (step : ClientStep clientRx clientDest s s') :
    Reached serverRx clientRx serverDest clientDest s' :=
  ReflTransGen.tail reached (Or.inr step)

/-- The two can get there. -/
theorem exists_reached_returned (serverRx clientRx : Nat)
    (serverRange : serverDest.InRange) (clientRange : clientDest.InRange) :
    ∃ s, Reached serverRx clientRx serverDest clientDest s ∧
      s.client = .returned := by
  obtain ⟨ask, isAsk⟩ := exists_message clientDest
  obtain ⟨answer, isAnswer⟩ := exists_message serverDest
  have initial : Reached serverRx clientRx serverDest clientDest start := .refl
  have opened := ((initial.server (.posted rfl)).client (.posted rfl)).client
    (.opened rfl rfl rfl)
  have asked := (opened.server (.accepted rfl rfl)).client (.wrote rfl isAsk)
  obtain ⟨fromClient, reads, full, parsed⟩ :=
    @exists_read clientDest (Stream.start.write ask) clientRange isAsk rfl
  have answered := (((asked.server (.read rfl reads full parsed)).server
    (.toRtr rfl)).server (.toRts rfl)).server (.wrote rfl isAnswer)
  obtain ⟨fromServer, reads, full, parsed⟩ :=
    @exists_read serverDest (Stream.start.write answer) serverRange isAnswer rfl
  have told := (answered.client (.read rfl reads full parsed)).client
    (@ClientStep.told _ _ _ _ 5 rfl)
  exact ⟨_, (told.client (.toRtr rfl)).client (.toRts rfl), rfl⟩

/-- When the client's `orig_main` returns 0, both sides are connected. -/
theorem linked_of_returned (serverRange : serverDest.InRange)
    (clientRange : clientDest.InRange)
    (reached : Reached serverRx clientRx serverDest clientDest s)
    (returned : s.client = .returned) :
    Linked serverRx clientRx serverDest clientDest s :=
  (reached.holds serverRange clientRange).linked returned

theorem linked_of_returned_some : ∃ s,
    Linked 100 1 ⟨1, 2, 3, .zero⟩ ⟨4, 5, 6, .zero⟩ s := by
  have serverRange : PingpongDest.InRange ⟨1, 2, 3, .zero⟩ :=
    ⟨by decide, by decide, by decide⟩
  have clientRange : PingpongDest.InRange ⟨4, 5, 6, .zero⟩ :=
    ⟨by decide, by decide, by decide⟩
  obtain ⟨s, reached, returned⟩ :=
    exists_reached_returned 100 1 serverRange clientRange
  exact ⟨s, linked_of_returned serverRange clientRange reached returned⟩

/-! ## Every run ends -/

/-- How far the server is. -/
def serverRank : ServerAt → Nat
  | .starting => 0
  | .listening => 1
  | .accepted => 2
  | .read _ => 3
  | .ready _ => 4
  | .connected => 5
  | .answered => 6
  | .returned | .failed => 7

def clientRank : ClientAt → Nat
  | .starting => 0
  | .connecting => 1
  | .opened => 2
  | .asked => 3
  | .read _ => 4
  | .told _ => 5
  | .ready _ => 6
  | .returned | .failed => 7

def rank (s : Handshake) : Nat := serverRank s.server + clientRank s.client

theorem rank_le (s : Handshake) : s.rank ≤ 14 := by
  have server : serverRank s.server ≤ 7 := by
    cases s.server <;> simp [serverRank]
  have client : clientRank s.client ≤ 7 := by
    cases s.client <;> simp [clientRank]
  exact Nat.add_le_add server client

/-- The server only goes on. -/
theorem ServerStep.rank (step : ServerStep serverRx serverDest s s') :
    s.rank < s'.rank := by
  have client := step.frame.client
  unfold Handshake.rank
  rw [client]
  refine Nat.add_lt_add_right ?_ _
  cases step with
  | gaveUp working =>
      rcases working with here | ⟨here, _⟩ | ⟨_, here⟩ | ⟨_, here⟩ <;>
        simp [here, serverRank, endServer]
  | posted here => simp [here, serverRank]
  | accepted here _ => simp [here, serverRank]
  | read here _ _ _ => simp [here, serverRank]
  | readShort here _ _ => simp [here, serverRank, endServer]
  | toRtr here => simp [here, serverRank]
  | toRts here => simp [here, serverRank]
  | wrote here _ => simp [here, serverRank]
  | wroteShort here _ _ => simp [here, serverRank, endServer]
  | finished here _ => simp [here, serverRank, endServer]

theorem ClientStep.rank (step : ClientStep clientRx clientDest s s') :
    s.rank < s'.rank := by
  have server := step.frame.server
  unfold Handshake.rank
  rw [server]
  refine Nat.add_lt_add_left ?_ _
  cases step with
  | gaveUp working =>
      rcases working with here | here | ⟨_, here⟩ | ⟨_, here⟩ | ⟨_, here⟩ <;>
        simp [here, clientRank, endClient]
  | posted here => simp [here, clientRank]
  | opened here _ _ => simp [here, clientRank]
  | wrote here _ => simp [here, clientRank]
  | wroteShort here _ _ => simp [here, clientRank, endClient]
  | read here _ _ _ => simp [here, clientRank]
  | readShort here _ _ => simp [here, clientRank, endClient]
  | told here => simp [here, clientRank, endClient]
  | toRtr here => simp [here, clientRank]
  | toRts here => simp [here, clientRank]

theorem Step.rank (step : Step serverRx clientRx serverDest clientDest s s') :
    s.rank < s'.rank :=
  step.elim ServerStep.rank ClientStep.rank

structure Sockets (s : Handshake) : Prop where
  up : 5 ≤ clientRank s.client → s.up.closed = true
  down : serverRank s.server = 7 → s.down.closed = true
  opened : 2 ≤ clientRank s.client → s.client = .failed ∨ s.opened = true
  first : clientRank s.client < 2 → s.opened = false
  accepted : 2 ≤ serverRank s.server → s.server = .failed ∨ s.opened = true

private theorem sockets_start : Sockets start := by
  refine ⟨?_, ?_, ?_, fun _ => rfl, ?_⟩ <;> exact fun far => absurd far (by decide)

theorem ServerStep.sockets (step : ServerStep serverRx serverDest s s')
    (sockets : Sockets s) : Sockets s' := by
  have frame := step.frame
  refine ⟨?_, ?_, ?_, ?_, ?_⟩
  · rw [frame.client, frame.upClosed]
    exact sockets.up
  · cases step with
    | gaveUp _ => exact fun _ => rfl
    | readShort _ _ _ => exact fun _ => rfl
    | wroteShort _ _ _ => exact fun _ => rfl
    | finished _ _ => exact fun _ => rfl
    | _ => exact fun last => absurd last (by simp [serverRank])
  · rw [frame.client, frame.opened]
    exact sockets.opened
  · rw [frame.client, frame.opened]
    exact sockets.first
  · have before {point : ServerAt} (here : s.server = point)
        (far : 2 ≤ serverRank point) (alive : point ≠ .failed) :
        s.opened = true :=
      (sockets.accepted (here ▸ far)).resolve_left (here ▸ alive)
    cases step with
    | gaveUp _ => exact fun _ => Or.inl rfl
    | posted _ => exact fun far => absurd far (by simp [serverRank])
    | accepted _ opened => exact fun _ => Or.inr opened
    | read here _ _ _ =>
        exact fun _ => Or.inr (before here (by simp [serverRank]) (by simp))
    | readShort _ _ _ => exact fun _ => Or.inl rfl
    | toRtr here =>
        exact fun _ => Or.inr (before here (by simp [serverRank]) (by simp))
    | toRts here =>
        exact fun _ => Or.inr (before here (by simp [serverRank]) (by simp))
    | wrote here _ =>
        exact fun _ => Or.inr (before here (by simp [serverRank]) (by simp))
    | wroteShort _ _ _ => exact fun _ => Or.inl rfl
    | finished here _ =>
        exact fun _ => Or.inr (before here (by simp [serverRank]) (by simp))

theorem ClientStep.sockets (step : ClientStep clientRx clientDest s s')
    (sockets : Sockets s) : Sockets s' := by
  have frame := step.frame
  have before {point : ClientAt} (here : s.client = point)
      (far : 2 ≤ clientRank point) (alive : point ≠ .failed) :
      s.opened = true :=
    (sockets.opened (here ▸ far)).resolve_left (here ▸ alive)
  have closed (far : 5 ≤ clientRank s.client) : s.up.closed = true :=
    sockets.up far
  have down : serverRank s'.server = 7 → s'.down.closed = true := by
    rw [frame.server, frame.downClosed]
    exact sockets.down
  have accepted (same : s'.opened = s.opened ∨ s'.opened = true) :
      2 ≤ serverRank s'.server → s'.server = .failed ∨ s'.opened = true := by
    rw [frame.server]
    rcases same with same | same
    · rw [same]
      exact sockets.accepted
    · exact fun _ => Or.inr same
  refine ⟨?_, down, ?_, ?_, accepted ?_⟩
  · cases step with
    | gaveUp _ => exact fun _ => rfl
    | wroteShort _ _ _ => exact fun _ => rfl
    | readShort _ _ _ => exact fun _ => rfl
    | told _ => exact fun _ => rfl
    | toRtr here => exact fun _ => closed (by simp [here, clientRank])
    | toRts here => exact fun _ => closed (by simp [here, clientRank])
    | _ => exact fun far => absurd far (by simp [clientRank])
  · cases step with
    | gaveUp _ => exact fun _ => Or.inl rfl
    | posted _ => exact fun far => absurd far (by simp [clientRank])
    | opened _ _ _ => exact fun _ => Or.inr rfl
    | wroteShort _ _ _ => exact fun _ => Or.inl rfl
    | readShort _ _ _ => exact fun _ => Or.inl rfl
    | wrote here _ =>
        exact fun _ => Or.inr (before here (by simp [clientRank]) (by simp))
    | read here _ _ _ =>
        exact fun _ => Or.inr (before here (by simp [clientRank]) (by simp))
    | told here =>
        exact fun _ => Or.inr (before here (by simp [clientRank]) (by simp))
    | toRtr here =>
        exact fun _ => Or.inr (before here (by simp [clientRank]) (by simp))
    | toRts here =>
        exact fun _ => Or.inr (before here (by simp [clientRank]) (by simp))
  · cases step with
    | posted here => exact fun _ => sockets.first (by simp [here, clientRank])
    | _ => exact fun early => absurd early (by simp [clientRank, endClient])
  · cases step with
    | opened _ _ _ => exact Or.inr rfl
    | _ => exact Or.inl rfl

theorem Reached.sockets
    (reached : Reached serverRx clientRx serverDest clientDest s) :
    Sockets s := by
  induction reached with
  | refl => exact sockets_start
  | tail _ step inductionHypothesis =>
      exact step.elim (fun step => step.sockets inductionHypothesis)
        fun step => step.sockets inductionHypothesis

/-- A side that waits for an address gets it or gives up. -/
private theorem exists_address {dest : PingpongDest} {stream : Stream UInt8}
    (inRange : dest.InRange) (first : stream.taken = 0)
    (starts : ∃ message, dest.Message message ∧
      stream.sent.take msgSize <+: message)
    (ready : stream.unread ≠ [] ∨ stream.closed = true) :
    ∃ result stream', Stream.Reads msgSize stream result stream' ∧
      ((∃ bytes, result = some bytes ∧ bytes.length = msgSize ∧
        ∀ remDest gid v32, ∃ received, PingpongDest.readMessage
          (Memory.ofList bytes) remDest gid v32 = some received) ∨
      ∀ bytes ∈ result, bytes.length ≠ msgSize) := by
  obtain ⟨result, stream', reads⟩ := @Stream.exists_reads
    _ _ msgSize (by decide) ready
  refine ⟨result, stream', reads, ?_⟩
  cases result with
  | none => exact Or.inr fun _ member => absurd member (by simp)
  | some bytes =>
      by_cases full : bytes.length = msgSize
      · obtain ⟨message, isMessage, starts⟩ := starts
        have taken := read_message isMessage first starts reads full
        refine Or.inl ⟨bytes, rfl, full, fun remDest gid v32 => ?_⟩
        obtain ⟨received, parsed, _⟩ := PingpongDest.readMessage_text inRange
          (PingpongDest.message_eq inRange taken) remDest gid v32
        exact ⟨received, parsed⟩
      · refine Or.inr fun other member => ?_
        rwa [← Option.some.inj member]

/-- Where a run may end. -/
def Ended (s : Handshake) : Prop :=
  s.client = .returned ∧ s.server = .returned ∨
    s.client = .failed ∧ (s.server = .returned ∨ s.server = .failed ∨
      s.server = .listening ∧ s.opened = false)

/-- The server is done, or `accept` or a read blocks. -/
private theorem server_waits (inRange : clientDest.InRange)
    (holds : Holds serverRx clientRx serverDest clientDest s)
    (stuck : ∀ s', ¬ServerStep serverRx serverDest s s') :
    (s.server = .returned ∨ s.server = .failed ∨
      s.server = .listening ∧ s.opened = false) ∨
    (s.server = .accepted ∨ s.server = .answered) ∧
      ¬(s.up.unread ≠ [] ∨ s.up.closed = true) := by
  cases here : s.server with
  | starting => exact absurd (.posted here) (stuck _)
  | listening =>
      cases opened : s.opened with
      | false => exact Or.inl (Or.inr (Or.inr ⟨rfl, rfl⟩))
      | true => exact absurd (.accepted here opened) (stuck _)
  | accepted =>
      refine Or.inr ⟨Or.inl rfl, fun ready => ?_⟩
      have server := holds.server
      rw [ServerHolds, here] at server
      obtain ⟨result, up, reads, ⟨bytes, rfl, full, parsed⟩ | short⟩ :=
        exists_address inRange server.1 holds.client.asking ready
      · obtain ⟨received, parsed⟩ := parsed serverDest Memory.zero 0
        exact stuck _ (.read here reads full parsed)
      · exact stuck _ (.readShort here reads short)
  | read remDest => exact absurd (.toRtr here) (stuck _)
  | ready remDest => exact absurd (.toRts here) (stuck _)
  | connected =>
      obtain ⟨bytes, message⟩ := exists_message serverDest
      exact absurd (.wrote here message) (stuck _)
  | answered =>
      refine Or.inr ⟨Or.inr rfl, fun ready => ?_⟩
      obtain ⟨result, up, reads⟩ :=
        @Stream.exists_reads _ _ msgSize (by decide) ready
      exact stuck _ (.finished here reads)
  | returned => exact Or.inl (Or.inl rfl)
  | failed => exact Or.inl (Or.inr (Or.inl rfl))

/-- The client is done, or its read blocks. -/
private theorem client_waits (inRange : serverDest.InRange)
    (holds : Holds serverRx clientRx serverDest clientDest s)
    (stuck : ∀ s', ¬ClientStep clientRx clientDest s s') :
    s.client = .returned ∨ s.client = .failed ∨
      s.client = .asked ∧ ¬(s.down.unread ≠ [] ∨ s.down.closed = true) := by
  cases here : s.client with
  | starting => exact absurd (.posted here) (stuck _)
  | connecting => exact absurd (.gaveUp (Or.inr (Or.inl here))) (stuck _)
  | opened =>
      obtain ⟨bytes, message⟩ := exists_message clientDest
      exact absurd (.wrote here message) (stuck _)
  | asked =>
      refine Or.inr (Or.inr ⟨rfl, fun ready => ?_⟩)
      have client := holds.client
      rw [ClientHolds, here] at client
      by_cases long : msgSize ≤ s.down.sent.length
      · obtain ⟨result, down, reads, ⟨bytes, rfl, full, parsed⟩ | short⟩ :=
          exists_address inRange client.2.1
            ⟨_, (holds.server.answered long).message, List.take_prefix _ _⟩
            ready
        · obtain ⟨received, parsed⟩ := parsed clientDest Memory.zero 0
          exact stuck _ (.read here reads full parsed)
        · exact stuck _ (.readShort here reads short)
      · obtain ⟨result, down, reads⟩ :=
          @Stream.exists_reads _ _ msgSize (by decide) ready
        refine stuck _ (.readShort here reads ?_)
        rintro bytes rfl full
        have there := (reads.full (by decide) full).2
        rw [Stream.length_unread] at there
        omega
  | read remDest => exact absurd (@ClientStep.told _ _ _ _ 5 here) (stuck _)
  | told remDest => exact absurd (.toRtr here) (stuck _)
  | ready remDest => exact absurd (.toRts here) (stuck _)
  | returned => exact Or.inl rfl
  | failed => exact Or.inr (Or.inl rfl)

private theorem unread_of_message {dest : PingpongDest} {stream : Stream UInt8}
    (message : dest.Message stream.sent) (first : stream.taken = 0) :
    stream.unread ≠ [] := by
  rw [Stream.unread, first, List.drop_zero]
  intro nothing
  have long := PingpongDest.length_message message
  rw [nothing] at long
  exact absurd long (by decide)

/-- The server does not wait for a client that waits or is done. -/
private theorem server_ready
    (holds : Holds serverRx clientRx serverDest clientDest s)
    (sockets : Sockets s)
    (waits : s.server = .accepted ∨ s.server = .answered)
    (client : s.client = .returned ∨ s.client = .failed ∨
      s.client = .asked ∧ ¬(s.down.unread ≠ [] ∨ s.down.closed = true)) :
    s.up.unread ≠ [] ∨ s.up.closed = true := by
  rcases client with here | here | ⟨here, empty⟩
  · exact Or.inr (sockets.up (by simp [here, clientRank]))
  · exact Or.inr (sockets.up (by simp [here, clientRank]))
  · have client := holds.client
    have server := holds.server
    rw [ClientHolds, here] at client
    rcases waits with waits | waits <;> rw [ServerHolds, waits] at server
    · exact Or.inl (unread_of_message client.1 server.1)
    · exact absurd (Or.inl (unread_of_message server.message client.2.1)) empty

/-- The client does not wait for a server that is done. -/
private theorem client_ready (sockets : Sockets s) (here : s.client = .asked)
    (server : s.server = .returned ∨ s.server = .failed ∨
      s.server = .listening ∧ s.opened = false) :
    s.down.unread ≠ [] ∨ s.down.closed = true := by
  rcases server with server | server | ⟨_, closed⟩
  · exact Or.inr (sockets.down (by simp [server, serverRank]))
  · exact Or.inr (sockets.down (by simp [server, serverRank]))
  · have opened := sockets.opened (by simp [here, clientRank])
    rw [here, closed] at opened
    simp at opened

/-- Only an unanswered server blocks forever. -/
theorem ended_of_stuck (serverRange : serverDest.InRange)
    (clientRange : clientDest.InRange)
    (reached : Reached serverRx clientRx serverDest clientDest s)
    (stuck : ∀ s', ¬Step serverRx clientRx serverDest clientDest s s') :
    Ended s := by
  have holds := reached.holds serverRange clientRange
  have sockets := reached.sockets
  have client := client_waits serverRange holds
    fun s' step => stuck s' (Or.inr step)
  have server := (server_waits clientRange holds
    fun s' step => stuck s' (Or.inl step)).resolve_right
      fun ⟨waits, blocked⟩ => blocked (server_ready holds sockets waits client)
  rcases client with here | here | ⟨here, blocked⟩
  · refine Or.inl ⟨here, ?_⟩
    have linked := (holds.linked here).server
    rcases server with server | server | ⟨server, _⟩
    · exact server
    · rw [server] at linked
      simp at linked
    · rw [server] at linked
      simp at linked
  · exact Or.inr ⟨here, server⟩
  · exact absurd (client_ready sockets here server) blocked

/-- Every run of both `orig_main`s takes at most 14 steps and can stop only
when both have returned 0 or the client has failed; then the server is done as
well, unless it still waits in `accept`. -/
theorem handshake_ends (serverRange : serverDest.InRange)
    (clientRange : clientDest.InRange)
    (reached : Reached serverRx clientRx serverDest clientDest s) :
    s.rank ≤ 14 ∧
      (∀ s', Step serverRx clientRx serverDest clientDest s s' →
        s.rank < s'.rank) ∧
      ((∀ s', ¬Step serverRx clientRx serverDest clientDest s s') → Ended s) :=
  ⟨rank_le s, fun _ step => step.rank,
    ended_of_stuck serverRange clientRange reached⟩

theorem handshake_ends_returned : ∃ s,
    Reached 100 1 ⟨1, 2, 3, .zero⟩ ⟨4, 5, 6, .zero⟩ s ∧
      s.client = .returned ∧ s.rank ≤ 14 ∧
      (∀ s', Step 100 1 ⟨1, 2, 3, .zero⟩ ⟨4, 5, 6, .zero⟩ s s' →
        s.rank < s'.rank) ∧
      ((∀ s', ¬Step 100 1 ⟨1, 2, 3, .zero⟩ ⟨4, 5, 6, .zero⟩ s s') →
        Ended s) := by
  have serverRange : PingpongDest.InRange ⟨1, 2, 3, .zero⟩ :=
    ⟨by decide, by decide, by decide⟩
  have clientRange : PingpongDest.InRange ⟨4, 5, 6, .zero⟩ :=
    ⟨by decide, by decide, by decide⟩
  obtain ⟨s, reached, returned⟩ :=
    exists_reached_returned 100 1 serverRange clientRange
  exact ⟨s, reached, returned, handshake_ends serverRange clientRange reached⟩

end Handshake

end RdmaKv
