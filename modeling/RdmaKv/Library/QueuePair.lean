import Mathlib.Data.List.Basic

/-!
# A connection between two queue pairs

A client and a server, each with one buffer that it sends from and receives
into, one completion queue for both directions, and room for one receive and
one send.  A message is delivered only into a posted receive; what is
transmitted is what the buffer holds at that moment, not at the time of the
post; the two sides are notified at any later time.

The client posts and polls as its program says.  The server polls one or two
completions at a time, runs a handler on its buffer for each message, answers
from the same buffer and posts a receive again.

The requests of a connection are numbered.  The numbers, and the history of
what the client did, are not part of the machine; they say which request a
completion or a reply belongs to.
-/

namespace QueuePair

/-- Which kind of work request a completion is of. -/
inductive WrId where
  | send
  | recv
  deriving DecidableEq, Repr

/-- A completion, with the number of the request that it belongs to. -/
structure Completion where
  wrId : WrId
  number : Nat
  success : Bool
  deriving DecidableEq, Repr

namespace Completion

/-- A send or an RDMA operation has succeeded. -/
def sent (number : Nat) : Completion := ⟨.send, number, true⟩

def received (number : Nat) : Completion := ⟨.recv, number, true⟩

/-- What a request produces, if all goes well. -/
def ofRequest (number : Nat) (asks : Bool) : List Completion :=
  if asks then [sent number, received number] else [sent number]

end Completion

/-- The numbers of the messages that have arrived. -/
def arrivals (completions : List Completion) : List Nat :=
  completions.filterMap fun completion =>
    match completion.wrId with
    | .send => none
    | .recv => some completion.number

/-- What a send queue executes.  For a send, `built` is what the buffer held
when it was posted. -/
inductive Work (Buf Remote : Type) where
  | send (size : Nat) (built : Buf)
  | rdma (remote : Remote)

structure Posted (Buf Remote : Type) where
  number : Nat
  work : Work Buf Remote

/-- One side of a connection: its buffer, the receives that are posted, the
sends that are posted, those that were executed and not acknowledged, and the
completions that were not polled. -/
structure Endpoint (Buf Remote : Type) where
  buf : Buf
  recvs : Nat
  sends : List (Posted Buf Remote)
  unacked : List Nat
  cq : List Completion

/-- Where a server is in its loop; `rest` are the completions of the last poll
that it has not looked at. -/
inductive Thread where
  | polling
  | batch (rest : List Completion)
  | handling (number : Nat) (rest : List Completion)
  | reposting (rest : List Completion)
  | stopped

/-- What a server does with its connection: how large a message may be, how a
message changes the buffer it arrives in, what the handler makes of a buffer
and the size of its reply, if any, and what happens after the completions of a
poll.  `access` is an RDMA operation, with the data that it reads. -/
structure Service (Buf Remote Data : Type) where
  State : Type
  limit : Nat
  header : Nat
  deliver : Buf → Nat → Buf → Buf
  handle : State → Buf → State → Buf → Option Nat → Prop
  closed : State → Bool
  maintain : State → State → Prop
  access : State → Remote → State → Data → Prop
  /-- Whether a request is answered. -/
  asks : Buf → Bool
  handle_asks : ∀ {before buf after buf' reply},
    handle before buf after buf' reply → reply.isSome = asks buf
  asks_deliver : ∀ sent {size} received, header ≤ size →
    asks (deliver sent size received) = asks sent

variable {Buf Remote Data : Type}

/-! ## Posting -/

namespace Endpoint

def outstanding (e : Endpoint Buf Remote) : Nat :=
  e.sends.length + e.unacked.length +
    e.cq.countP fun completion => completion.wrId = .send

/-- A receive is posted; it may be refused if there is one already. -/
inductive PostRecv (e : Endpoint Buf Remote) : Endpoint Buf Remote → Prop
  | accepted : PostRecv e { e with recvs := e.recvs + 1 }
  | refused (full : e.recvs ≠ 0) : PostRecv e e

/-- A send is posted; it may be refused while another one is outstanding. -/
inductive PostSend (posted : Posted Buf Remote) (e : Endpoint Buf Remote) :
    Endpoint Buf Remote → Prop
  | accepted : PostSend posted e { e with sends := e.sends ++ [posted] }
  | refused (full : e.outstanding ≠ 0) : PostSend posted e e

def executed (e : Endpoint Buf Remote) (number : Nat)
    (rest : List (Posted Buf Remote)) : Endpoint Buf Remote :=
  { e with sends := rest, unacked := e.unacked ++ [number] }

def acknowledged (e : Endpoint Buf Remote) (number : Nat) (rest : List Nat) :
    Endpoint Buf Remote :=
  { e with unacked := rest, cq := e.cq ++ [.sent number] }

def filled (e : Endpoint Buf Remote) (buf : Buf) (recvs number : Nat) :
    Endpoint Buf Remote :=
  { e with buf := buf, recvs := recvs, cq := e.cq ++ [.received number] }

end Endpoint

/-! ## Connections -/

/-- What the client did: its posts, its polls inside a wait for `iters`
completions of which `counted` were counted before, and where it wrote and
read its buffer. -/
inductive Event where
  | posted (number : Nat) (asks : Bool)
  | polled (iters counted : Nat) (batch : List Completion)
  | stored
  | loaded (holds : Option Nat)

/-- A connection.  `data` is what the latest RDMA operation read, `arrived`
what the server's buffer held when the latest message had arrived, and `holds`
the request whose reply the client's buffer holds. -/
structure Line (service : Service Buf Remote Data) where
  client : Endpoint Buf Remote
  server : Endpoint Buf Remote
  thread : Thread
  state : service.State
  data : Data
  broken : Bool
  posts : Nat
  arrived : Buf
  holds : Option Nat
  history : List Event

namespace Thread

/-- The messages that the server has polled and not handled. -/
def unhandled : Thread → List Nat
  | polling => []
  | batch rest => arrivals rest
  | handling number rest => number :: arrivals rest
  | reposting rest => arrivals rest
  | stopped => []

/-- The receives that the server is about to post. -/
def owed : Thread → Nat
  | reposting _ => 1
  | _ => 0

end Thread

variable {service : Service Buf Remote Data}

namespace Line

/-- The client's first send has arrived at the server. -/
def requested (line : Line service) (number size recvs : Nat)
    (rest : List (Posted Buf Remote)) : Line service :=
  let buf := service.deliver line.client.buf size line.server.buf
  { line with
    client := line.client.executed number rest
    server := line.server.filled buf recvs number
    arrived := buf }

/-- The client's first operation, an RDMA operation, was executed. -/
def accessed (line : Line service) (number : Nat)
    (rest : List (Posted Buf Remote)) (state : service.State) (data : Data) :
    Line service :=
  { line with
    client := line.client.executed number rest
    state := state
    data := data }

/-- The server's first send has arrived at the client. -/
def replied (line : Line service) (number size recvs : Nat)
    (rest : List (Posted Buf Remote)) : Line service :=
  { line with
    server := line.server.executed number rest
    client := line.client.filled
      (service.deliver line.server.buf size line.client.buf) recvs number
    holds := some number }

def acknowledged (line : Line service) (number : Nat) (rest : List Nat) :
    Line service :=
  { line with client := line.client.acknowledged number rest }

def handled (line : Line service) (rest : List Completion) (state : service.State)
    (server : Endpoint Buf Remote) : Line service :=
  { line with
    thread := if service.closed state then .stopped else .reposting rest
    state := state
    server := server }

/-- What happens on a connection while the client does nothing.  With `faults`
an operation that cannot be executed completes with an error and breaks the
connection, and what is posted on a broken connection is flushed. -/
inductive Evolve (faults : Prop) : Line service → Line service → Prop
  | request {line : Line service} {number size recvs : Nat} {built : Buf}
      {rest : List (Posted Buf Remote)} (up : line.broken = false)
      (posted : line.client.sends = ⟨number, .send size built⟩ :: rest)
      (fits : size ≤ service.limit) (ready : line.server.recvs = recvs + 1) :
      Evolve faults line (line.requested number size recvs rest)
  | access {line : Line service} {number : Nat} {remote : Remote}
      {rest : List (Posted Buf Remote)} {state : service.State} {data : Data}
      (up : line.broken = false)
      (posted : line.client.sends = ⟨number, .rdma remote⟩ :: rest)
      (accessed : service.access line.state remote state data) :
      Evolve faults line (line.accessed number rest state data)
  | reply {line : Line service} {number size recvs : Nat} {built : Buf}
      {rest : List (Posted Buf Remote)} (up : line.broken = false)
      (posted : line.server.sends = ⟨number, .send size built⟩ :: rest)
      (fits : size ≤ service.limit) (ready : line.client.recvs = recvs + 1) :
      Evolve faults line (line.replied number size recvs rest)
  | acknowledgeClient {line : Line service} {number : Nat} {rest : List Nat}
      (executed : line.client.unacked = number :: rest) :
      Evolve faults line (line.acknowledged number rest)
  | acknowledgeServer {line : Line service} {number : Nat} {rest : List Nat}
      (executed : line.server.unacked = number :: rest) :
      Evolve faults line { line with
        server := line.server.acknowledged number rest }
  | poll {line : Line service} {batch rest : List Completion}
      (polling : line.thread = .polling)
      (completed : line.server.cq = batch ++ rest)
      (few : batch.length = 1 ∨ batch.length = 2) :
      Evolve faults line { line with
        thread := .batch batch
        server := { line.server with cq := rest } }
  | countSend {line : Line service} {number : Nat} {rest : List Completion}
      (next : line.thread = .batch (.sent number :: rest)) :
      Evolve faults line { line with thread := .batch rest }
  | countRecv {line : Line service} {number : Nat} {rest : List Completion}
      (next : line.thread = .batch (.received number :: rest)) :
      Evolve faults line { line with thread := .handling number rest }
  | handle {line : Line service} {number : Nat} {rest : List Completion}
      {state : service.State} {buf : Buf}
      (next : line.thread = .handling number rest)
      (handled : service.handle line.state line.server.buf state buf none) :
      Evolve faults line
        (line.handled rest state { line.server with buf := buf })
  | answer {line : Line service} {number size : Nat} {rest : List Completion}
      {state : service.State} {buf : Buf} {server : Endpoint Buf Remote}
      (next : line.thread = .handling number rest)
      (handled :
        service.handle line.state line.server.buf state buf (some size))
      (posts : Endpoint.PostSend ⟨number, .send size buf⟩
        { line.server with buf := buf } server) :
      Evolve faults line (line.handled rest state server)
  | repost {line : Line service} {rest : List Completion}
      {server : Endpoint Buf Remote}
      (next : line.thread = .reposting rest)
      (posts : line.server.PostRecv server) :
      Evolve faults line { line with
        thread := .batch rest
        server := server }
  | maintain {line : Line service} {state : service.State}
      (next : line.thread = .batch [])
      (maintained : service.maintain line.state state) :
      Evolve faults line { line with
        thread := .polling
        state := state }
  | oversized {line : Line service} {number size : Nat} {built : Buf}
      {rest : List (Posted Buf Remote)} (allowed : faults)
      (up : line.broken = false)
      (posted : line.client.sends = ⟨number, .send size built⟩ :: rest)
      (exceeds : service.limit < size) :
      Evolve faults line { line with
        client := { line.client with
          sends := rest
          cq := line.client.cq ++ [⟨.send, number, false⟩] }
        broken := true }
  | denied {line : Line service} {number : Nat} {remote : Remote}
      {rest : List (Posted Buf Remote)} (allowed : faults)
      (up : line.broken = false)
      (posted : line.client.sends = ⟨number, .rdma remote⟩ :: rest)
      (outside : ∀ state data, ¬ service.access line.state remote state data) :
      Evolve faults line { line with
        client := { line.client with
          sends := rest
          cq := line.client.cq ++ [⟨.send, number, false⟩] }
        broken := true }
  | flushSend {line : Line service} {number : Nat} {work : Work Buf Remote}
      {rest : List (Posted Buf Remote)} (allowed : faults)
      (down : line.broken = true)
      (posted : line.client.sends = ⟨number, work⟩ :: rest) :
      Evolve faults line { line with
        client := { line.client with
          sends := rest
          cq := line.client.cq ++ [⟨.send, number, false⟩] } }
  | flushRecv {line : Line service} {recvs : Nat} (allowed : faults)
      (down : line.broken = true)
      (posted : line.client.recvs = recvs + 1) :
      Evolve faults line { line with
        client := { line.client with
          recvs := recvs
          cq := line.client.cq ++ [⟨.recv, line.posts, false⟩] } }

end Line

/-! ## What is still to come -/

@[simp]
theorem arrivals_nil : arrivals [] = [] := rfl

@[simp]
theorem arrivals_sent (number : Nat) (rest : List Completion) :
    arrivals (.sent number :: rest) = arrivals rest := rfl

@[simp]
theorem arrivals_received (number : Nat) (rest : List Completion) :
    arrivals (.received number :: rest) = number :: arrivals rest := rfl

@[simp]
theorem arrivals_append (first second : List Completion) :
    arrivals (first ++ second) = arrivals first ++ arrivals second :=
  List.filterMap_append

namespace Completion

@[simp]
theorem sent_ne_received (first second : Nat) :
    sent first ≠ received second := by simp [sent, received]

@[simp]
theorem received_inj {first second : Nat} :
    received first = received second ↔ first = second := by
  simp [received]

@[simp]
theorem sent_inj {first second : Nat} :
    sent first = sent second ↔ first = second := by
  simp [sent]

theorem success_of_mem_ofRequest {completion : Completion} {number : Nat}
    {asks : Bool} (member : completion ∈ ofRequest number asks) :
    completion.success = true := by
  cases asks <;> simp [ofRequest] at member
  · rw [member]; rfl
  · rcases member with rfl | rfl <;> rfl

end Completion

/-- Whether an operation is a request that is answered. -/
def Work.asks (service : Service Buf Remote Data) : Work Buf Remote → Bool
  | send _ built => service.asks built
  | rdma _ => false

namespace Line

/-- The messages that have arrived at the server and were not handled. -/
def unhandled (line : Line service) : List Nat :=
  line.thread.unhandled ++ arrivals line.server.cq

/-- Those of them that will be answered. -/
def toAnswer (line : Line service) : List Nat :=
  if service.asks line.server.buf then line.unhandled else []

theorem toAnswer_eq_nil {line : Line service} (none : line.unhandled = []) :
    line.toAnswer = [] := by simp [toAnswer, none]

/-- The completions that the client has not polled and those that what was
posted leads to. -/
def coming (line : Line service) : List Completion :=
  line.client.cq ++ line.client.unacked.map .sent ++
    line.client.sends.flatMap (fun posted =>
      Completion.ofRequest posted.number (posted.work.asks service)) ++
    line.toAnswer.map .received ++
    line.server.sends.map fun posted => .received posted.number

theorem mem_coming_of_mem_cq {line : Line service} {completion : Completion}
    (completed : completion ∈ line.client.cq) : completion ∈ line.coming := by
  simp [coming, completed]

theorem count_coming (line : Line service) (completion : Completion) :
    line.coming.count completion =
      line.client.cq.count completion +
        (line.client.unacked.map Completion.sent).count completion +
        (line.client.sends.flatMap fun posted => Completion.ofRequest
          posted.number (posted.work.asks service)).count completion +
        (line.toAnswer.map Completion.received).count completion +
        (line.server.sends.map fun posted =>
          Completion.received posted.number).count completion := by
  rw [coming, List.count_append, List.count_append, List.count_append,
    List.count_append]

@[simp]
theorem toAnswer_accessed (line : Line service) (number : Nat)
    (rest : List (Posted Buf Remote)) (state : service.State) (data : Data) :
    (line.accessed number rest state data).toAnswer = line.toAnswer := rfl

@[simp]
theorem toAnswer_replied (line : Line service) (number size recvs : Nat)
    (rest : List (Posted Buf Remote)) :
    (line.replied number size recvs rest).toAnswer = line.toAnswer := rfl

@[simp]
theorem toAnswer_acknowledged (line : Line service) (number : Nat)
    (rest : List Nat) :
    (line.acknowledged number rest).toAnswer = line.toAnswer := rfl

/-- The receives that are posted on the server, and what holds one back. -/
def credit (line : Line service) : Nat :=
  line.server.recvs + line.unhandled.length + line.thread.owed

end Line

/-! ## The accounts of a client -/

/-- Where a client is: what its posts since the last wait lead to, what the
wait has taken of that, and the request whose reply is in the buffer. -/
structure Phase where
  due : List Completion
  taken : List Completion
  reply : Option Nat

namespace Phase

/-- Between two waits. -/
def idle (reply : Option Nat) : Phase := ⟨[], [], reply⟩

/-- The request that was answered, if the client has waited for a reply. -/
def answered (due : List Completion) : Option Nat := (arrivals due).head?

theorem answered_ofRequest (number : Nat) (asks : Bool) :
    answered (Completion.ofRequest number asks) =
      if asks then some number else none := by
  cases asks <;> rfl

/-- What a client in lock step may do: it posts one operation at a time, and
waits for as many completions as that leads to; a wait takes these and no
others; and it reads its buffer only when that holds the reply to its latest
request. -/
inductive Next : Phase → Event → Phase → Prop
  | posted {reply : Option Nat} (number : Nat) (asks : Bool) :
      Next (idle reply) (.posted number asks)
        ⟨Completion.ofRequest number asks, [], none⟩
  | polled {due taken batch : List Completion}
      (within : (taken ++ batch).Subperm due)
      (more : taken.length + batch.length < due.length) :
      Next ⟨due, taken, none⟩ (.polled due.length taken.length batch)
        ⟨due, taken ++ batch, none⟩
  | waited {due taken batch : List Completion}
      (all : (taken ++ batch).Perm due) (some : taken.length < due.length) :
      Next ⟨due, taken, none⟩ (.polled due.length taken.length batch)
        (idle (answered due))
  | stored {reply : Option Nat} : Next (idle reply) .stored (idle none)
  | loaded {number : Nat} :
      Next (idle (some number)) (.loaded (some number)) (idle (some number))

inductive After : List Event → Phase → Prop
  | start : After [] (idle none)
  | next {history : List Event} {event : Event} {before after : Phase}
      (earlier : After history before) (next : Next before event after) :
      After (history ++ [event]) after

end Phase

theorem Phase.After.shape {history : List Event} {phase : Phase}
    (after : Phase.After history phase) :
    (∃ reply, phase = .idle reply) ∨
      ∃ number asks taken,
        phase = ⟨Completion.ofRequest number asks, taken, none⟩ := by
  induction after with
  | start => exact Or.inl ⟨none, rfl⟩
  | next earlier next inductionHypothesis =>
      cases next with
      | posted number asks => exact Or.inr ⟨number, asks, [], rfl⟩
      | @polled due taken batch within more =>
          rcases inductionHypothesis with ⟨reply, idle⟩ | ⟨number, asks, _, same⟩
          · obtain ⟨rfl, -, -⟩ := (Phase.mk.injEq ..).mp idle
            exact absurd more (Nat.not_lt_zero _)
          · obtain ⟨rfl, -, -⟩ := (Phase.mk.injEq ..).mp same
            exact Or.inr ⟨number, asks, _, rfl⟩
      | waited => exact Or.inl ⟨_, rfl⟩
      | stored => exact Or.inl ⟨_, rfl⟩
      | loaded => exact Or.inl ⟨_, rfl⟩

/-- The connection of a client in lock step.  No more is to come than is due;
what is posted stays in the buffers until it is transmitted; a request that
has arrived stays in the server's buffer until it is handled. -/
structure Line.Keeps (line : Line service) (phase : Phase) : Prop where
  history : Phase.After line.history phase
  coming : ∀ completion,
    (phase.taken ++ line.coming).count completion ≤
      phase.due.count completion
  credit : line.credit ≤ 1
  intact : line.unhandled ≠ [] → line.server.buf = line.arrived
  quiet : line.unhandled ≠ [] → line.server.sends = []
  latest : ∀ posted ∈ line.client.sends,
    phase.due =
      Completion.ofRequest posted.number (posted.work.asks service)
  built : ∀ number size buf, ⟨number, .send size buf⟩ ∈ line.client.sends →
    line.client.buf = buf ∧ service.header ≤ size
  replied : ∀ posted ∈ line.server.sends,
    ∃ size, posted.work = .send size line.server.buf
  holds : ∀ number, .received number ∈ phase.taken ++ line.client.cq →
    line.holds = some number
  reply : ∀ number, phase.reply = some number → line.holds = some number

namespace Line

variable {line line' : Line service} {phase : Phase}

/-- While the client has something to send, no reply is on its way. -/
theorem Keeps.no_reply (keeps : line.Keeps phase)
    {posted : Posted Buf Remote} (member : posted ∈ line.client.sends) :
    line.server.sends = [] := by
  by_contra some
  obtain ⟨answer, rest, isReply⟩ := List.exists_cons_of_ne_nil some
  obtain ⟨front, back, sends⟩ := List.append_of_mem member
  have due := keeps.coming (.received answer.number)
  rw [keeps.latest posted member, List.count_append, count_coming, sends,
    isReply] at due
  simp only [List.flatMap_append, List.flatMap_cons, List.count_append,
    List.map_cons, List.count_cons_self] at due
  omega

/-- A connection on which nothing was posted but one receive on each side. -/
structure Fresh (line : Line service) : Prop where
  sends : line.client.sends = []
  unacked : line.client.unacked = []
  cq : line.client.cq = []
  recvs : line.client.recvs = 1
  serverSends : line.server.sends = []
  serverUnacked : line.server.unacked = []
  serverCq : line.server.cq = []
  serverRecvs : line.server.recvs = 1
  thread : line.thread = .polling
  broken : line.broken = false
  holds : line.holds = none
  history : line.history = []

theorem Fresh.keeps (fresh : line.Fresh) : line.Keeps (.idle none) := by
  have unhandled : line.unhandled = [] := by
    rw [Line.unhandled, fresh.thread, fresh.serverCq]
    rfl
  have coming : line.coming = [] := by
    simp [Line.coming, fresh.cq, fresh.unacked, fresh.sends,
      fresh.serverSends, toAnswer_eq_nil unhandled]
  refine ⟨by rw [fresh.history]; exact .start, ?_, ?_, ?_, ?_, ?_, ?_, ?_, ?_,
    fun number replied => absurd replied (by simp [Phase.idle])⟩
  · intro completion
    rw [coming]
    exact Nat.le_refl _
  · rw [Line.credit, unhandled, fresh.thread, fresh.serverRecvs]
    exact Nat.le_refl _
  · exact fun some => absurd unhandled some
  · exact fun some => absurd unhandled some
  · rw [fresh.sends]
    exact fun posted member => absurd member List.not_mem_nil
  · rw [fresh.sends]
    exact fun _ _ _ member => absurd member List.not_mem_nil
  · rw [fresh.serverSends]
    exact fun posted member => absurd member List.not_mem_nil
  · rw [fresh.cq]
    exact fun number member => absurd member (by simp [Phase.idle])

/-- Two connections that differ only in what the invariant does not see. -/
theorem Keeps.frame (keeps : line.Keeps phase)
    (client : line'.client = line.client)
    (buf : line'.server.buf = line.server.buf)
    (sends : line'.server.sends = line.server.sends)
    (unhandled : line'.unhandled = line.unhandled)
    (credit : line'.credit ≤ line.credit)
    (arrived : line'.arrived = line.arrived)
    (holds : line'.holds = line.holds)
    (history : line'.history = line.history) : line'.Keeps phase := by
  have coming : line'.coming = line.coming := by
    rw [Line.coming, Line.coming, Line.toAnswer, Line.toAnswer, client, buf,
      sends, unhandled]
  refine ⟨?_, ?_, Nat.le_trans credit keeps.credit, ?_, ?_, ?_, ?_, ?_, ?_, ?_⟩
  · rw [history]
    exact keeps.history
  · rw [coming]
    exact keeps.coming
  · rw [unhandled, buf, arrived]
    exact keeps.intact
  · rw [unhandled, sends]
    exact keeps.quiet
  · rw [client]
    exact keeps.latest
  · rw [client]
    exact keeps.built
  · rw [sends, buf]
    exact keeps.replied
  · rw [client, holds]
    exact keeps.holds
  · rw [holds]
    exact keeps.reply

/-- A request arrives. -/
theorem Keeps.request (keeps : line.Keeps phase) {number size recvs : Nat}
    {built : Buf} {rest : List (Posted Buf Remote)}
    (posted : line.client.sends = ⟨number, .send size built⟩ :: rest)
    (ready : line.server.recvs = recvs + 1) :
    (line.requested number size recvs rest).Keeps phase := by
  have first : ⟨number, .send size built⟩ ∈ line.client.sends := by
    simp [posted]
  have noReply := keeps.no_reply first
  obtain ⟨rfl, long⟩ := keeps.built _ _ _ first
  have credit := keeps.credit
  rw [Line.credit, ready] at credit
  have empty : line.unhandled = [] :=
    List.length_eq_zero_iff.mp (by omega)
  have asked := service.asks_deliver line.client.buf line.server.buf long
  have arrives :
      (line.requested number size recvs rest).unhandled = [number] := by
    rw [Line.unhandled] at empty
    simp only [Line.unhandled, Line.requested, Endpoint.filled,
      arrivals_append, arrivals_received, arrivals_nil, ← List.append_assoc,
      empty, List.nil_append]
  refine ⟨keeps.history, ?_, ?_, fun _ => rfl, fun _ => noReply, ?_, ?_, ?_,
    keeps.holds, keeps.reply⟩
  · intro completion
    refine Nat.le_trans (Nat.le_of_eq ?_) (keeps.coming completion)
    rw [List.count_append, List.count_append, count_coming, count_coming,
      Line.toAnswer, Line.toAnswer, arrives, empty, posted]
    simp only [Line.requested, Endpoint.executed, Endpoint.filled, asked,
      List.map_append, List.count_append, List.flatMap_cons, Work.asks, noReply]
    cases service.asks line.client.buf <;>
      simp [Completion.ofRequest, List.count_cons] <;> omega
  · rw [Line.credit, arrives]
    simp only [Line.requested, Endpoint.filled, List.length_singleton]
    omega
  · intro other member
    exact keeps.latest other (by rw [posted]; exact List.mem_cons_of_mem _ member)
  · intro number' size' buf member
    exact keeps.built _ _ _ (by rw [posted]; exact List.mem_cons_of_mem _ member)
  · intro other member
    have member : other ∈ line.server.sends := member
    rw [noReply] at member
    exact absurd member List.not_mem_nil

/-- An RDMA operation is executed. -/
theorem Keeps.access (keeps : line.Keeps phase) {number : Nat}
    {remote : Remote} {rest : List (Posted Buf Remote)} {state : service.State}
    {data : Data}
    (posted : line.client.sends = ⟨number, .rdma remote⟩ :: rest) :
    (line.accessed number rest state data).Keeps phase := by
  refine ⟨keeps.history, ?_, keeps.credit, keeps.intact, keeps.quiet, ?_, ?_,
    keeps.replied, keeps.holds, keeps.reply⟩
  · intro completion
    refine Nat.le_trans (Nat.le_of_eq ?_) (keeps.coming completion)
    rw [List.count_append, List.count_append, count_coming, count_coming,
      toAnswer_accessed, posted]
    simp only [Line.accessed, Endpoint.executed, List.map_append,
      List.count_append, List.flatMap_cons, Work.asks]
    simp [Completion.ofRequest, List.count_cons]
    omega
  · intro other member
    exact keeps.latest other (by rw [posted]; exact List.mem_cons_of_mem _ member)
  · intro number' size' buf member
    exact keeps.built _ _ _ (by rw [posted]; exact List.mem_cons_of_mem _ member)

/-- What the client has posted leads to one reply at most. -/
theorem Keeps.received_unique (keeps : line.Keeps phase) {first second : Nat}
    (isFirst : Completion.received first ∈ phase.taken ++ line.coming)
    (isSecond : Completion.received second ∈ phase.taken ++ line.coming) :
    first = second ∧ phase.reply = none := by
  have member : ∀ completion ∈ phase.taken ++ line.coming,
      completion ∈ phase.due := fun completion member =>
    List.count_pos_iff.mp (Nat.lt_of_lt_of_le (List.count_pos_iff.mpr member)
      (keeps.coming completion))
  have firstDue := member _ isFirst
  have secondDue := member _ isSecond
  rcases keeps.history.shape with ⟨reply, rfl⟩ | ⟨number, asks, taken, rfl⟩
  · exact absurd firstDue List.not_mem_nil
  · cases asks <;> simp [Completion.ofRequest, Completion.received,
      Completion.sent] at firstDue secondDue
    exact ⟨firstDue.trans secondDue.symm, rfl⟩

/-- The reply arrives. -/
theorem Keeps.answered (keeps : line.Keeps phase) {number size recvs : Nat}
    {built : Buf} {rest : List (Posted Buf Remote)}
    (posted : line.server.sends = ⟨number, .send size built⟩ :: rest) :
    (line.replied number size recvs rest).Keeps phase := by
  have nothingSent : line.client.sends = [] := by
    by_contra some
    obtain ⟨request, others, sends⟩ := List.exists_cons_of_ne_nil some
    have member : request ∈ line.client.sends := by simp [sends]
    have noReply := keeps.no_reply member
    rw [posted] at noReply
    exact absurd noReply (List.cons_ne_nil _ _)
  have comes : Completion.received number ∈ phase.taken ++ line.coming := by
    simp [Line.coming, posted]
  refine ⟨keeps.history, ?_, keeps.credit, keeps.intact, ?_, ?_, ?_, ?_, ?_,
    ?_⟩
  · intro completion
    refine Nat.le_trans (Nat.le_of_eq ?_) (keeps.coming completion)
    rw [List.count_append, List.count_append, count_coming, count_coming,
      toAnswer_replied, posted]
    simp only [Line.replied, Endpoint.executed, Endpoint.filled,
      List.count_append, List.map_cons, List.count_cons, List.count_nil]
    omega
  · intro some
    have none := keeps.quiet some
    rw [posted] at none
    exact absurd none (List.cons_ne_nil _ _)
  · intro other member
    exact keeps.latest other member
  · intro number' size' buf member
    have member : _ ∈ line.client.sends := member
    rw [nothingSent] at member
    exact absurd member List.not_mem_nil
  · intro other member
    exact keeps.replied other
      (by rw [posted]; exact List.mem_cons_of_mem _ member)
  · intro other member
    simp only [Line.replied, Endpoint.filled, List.mem_append,
      List.mem_singleton] at member
    have isOther : Completion.received other ∈ phase.taken ++ line.coming := by
      rcases member with taken | completed | arrived
      · exact List.mem_append_left _ taken
      · simp [Line.coming, completed]
      · rw [arrived]
        exact comes
    rw [(keeps.received_unique isOther comes).1]
    rfl
  · intro other replied
    rw [(keeps.received_unique comes comes).2] at replied
    exact absurd replied (by simp)

/-- The client's operation is acknowledged. -/
theorem Keeps.acknowledged (keeps : line.Keeps phase) {number : Nat}
    {rest : List Nat} (executed : line.client.unacked = number :: rest) :
    (line.acknowledged number rest).Keeps phase := by
  refine ⟨keeps.history, ?_, keeps.credit, keeps.intact, keeps.quiet,
    keeps.latest, keeps.built, keeps.replied, ?_, keeps.reply⟩
  · intro completion
    refine Nat.le_trans (Nat.le_of_eq ?_) (keeps.coming completion)
    rw [List.count_append, List.count_append, count_coming, count_coming,
      toAnswer_acknowledged, executed]
    simp only [Line.acknowledged, Endpoint.acknowledged, List.count_append,
      List.map_cons, List.count_cons, List.count_nil]
    omega
  · intro other member
    refine keeps.holds other ?_
    simp only [Line.acknowledged, Endpoint.acknowledged, List.mem_append,
      List.mem_singleton] at member
    rcases member with taken | completed | sent
    · exact List.mem_append_left _ taken
    · exact List.mem_append_right _ completed
    · exact absurd sent.symm (by simp)

/-- While a request is handled, it is the only one and no reply is on its
way. -/
theorem Keeps.handling (keeps : line.Keeps phase) {number : Nat}
    {rest : List Completion} (next : line.thread = .handling number rest) :
    arrivals rest = [] ∧ arrivals line.server.cq = [] ∧
      line.server.recvs = 0 ∧ line.server.sends = [] := by
  have unhandled : line.unhandled =
      number :: (arrivals rest ++ arrivals line.server.cq) := by
    rw [Line.unhandled, next]
    rfl
  have credit := keeps.credit
  rw [Line.credit, unhandled, List.length_cons, List.length_append] at credit
  exact ⟨List.length_eq_zero_iff.mp (by omega),
    List.length_eq_zero_iff.mp (by omega), by omega,
    keeps.quiet (by rw [unhandled]; exact List.cons_ne_nil _ _)⟩

theorem unhandled_handled (line : Line service) {rest : List Completion}
    (state : service.State) {server : Endpoint Buf Remote}
    (last : arrivals rest = []) (none : arrivals server.cq = []) :
    (line.handled rest state server).unhandled = [] ∧
      (line.handled rest state server).credit ≤ server.recvs + 1 := by
  cases closed : service.closed state <;>
    simp [Line.credit, Line.unhandled, Line.handled, closed,
      Thread.unhandled, Thread.owed, last, none]

/-- A request is handled that is not answered. -/
theorem Keeps.handle (keeps : line.Keeps phase) {number : Nat}
    {rest : List Completion} {state : service.State} {buf : Buf}
    (next : line.thread = .handling number rest)
    (handled : service.handle line.state line.server.buf state buf none) :
    (line.handled rest state { line.server with buf := buf }).Keeps phase := by
  obtain ⟨last, empty, noRecv, noReply⟩ := keeps.handling next
  obtain ⟨unhandled, credit⟩ :=
    line.unhandled_handled state last
      (show arrivals { line.server with buf := buf }.cq = [] from empty)
  have silent : service.asks line.server.buf = false :=
    (service.handle_asks handled).symm
  refine ⟨keeps.history, ?_, ?_, ?_, ?_, keeps.latest, keeps.built, ?_,
    keeps.holds, keeps.reply⟩
  · intro completion
    refine Nat.le_trans (Nat.le_of_eq ?_) (keeps.coming completion)
    rw [List.count_append, List.count_append, count_coming, count_coming,
      toAnswer_eq_nil unhandled, Line.toAnswer, silent]
    simp [Line.handled]
  · exact Nat.le_trans credit (by simp [noRecv])
  · intro some
    exact absurd unhandled some
  · intro some
    exact absurd unhandled some
  · intro other member
    have member : other ∈ line.server.sends := member
    rw [noReply] at member
    exact absurd member List.not_mem_nil

/-- A request is handled and the reply posted. -/
theorem Keeps.answer (keeps : line.Keeps phase) {number size : Nat}
    {rest : List Completion} {state : service.State} {buf : Buf}
    {server : Endpoint Buf Remote}
    (next : line.thread = .handling number rest)
    (handled : service.handle line.state line.server.buf state buf (some size))
    (posts : Endpoint.PostSend ⟨number, .send size buf⟩
      { line.server with buf := buf } server) :
    (line.handled rest state server).Keeps phase := by
  obtain ⟨last, empty, noRecv, noReply⟩ := keeps.handling next
  have same : server.buf = buf ∧ server.cq = line.server.cq ∧
      server.recvs = line.server.recvs ∧
      (server.sends = [⟨number, .send size buf⟩] ∨ server.sends = []) := by
    cases posts with
    | accepted => exact ⟨rfl, rfl, rfl, Or.inl (by simp [noReply])⟩
    | refused full => exact ⟨rfl, rfl, rfl, Or.inr noReply⟩
  obtain ⟨sameBuf, sameCq, sameRecvs, sends⟩ := same
  obtain ⟨unhandled, credit⟩ :=
    line.unhandled_handled state last (by rw [sameCq]; exact empty)
  have asked : service.asks line.server.buf = true :=
    (service.handle_asks handled).symm
  have arrived : line.unhandled = [number] := by
    rw [Line.unhandled, next, Thread.unhandled, last, empty]
    rfl
  refine ⟨keeps.history, ?_, ?_, ?_, ?_, keeps.latest, keeps.built, ?_,
    keeps.holds, keeps.reply⟩
  · intro completion
    refine Nat.le_trans ?_ (keeps.coming completion)
    rw [List.count_append, List.count_append, count_coming, count_coming,
      toAnswer_eq_nil unhandled, Line.toAnswer, asked, arrived, noReply]
    rcases sends with posted | refused
    · simp [Line.handled, posted]
    · simp [Line.handled, refused]
  · exact Nat.le_trans credit (by simp [sameRecvs, noRecv])
  · intro some
    exact absurd unhandled some
  · intro some
    exact absurd unhandled some
  · intro other member
    have member : other ∈ server.sends := member
    rcases sends with posted | refused
    · rw [posted, List.mem_singleton] at member
      exact ⟨size, by rw [member]; exact congrArg _ sameBuf.symm⟩
    · rw [refused] at member
      exact absurd member List.not_mem_nil

/-- The invariant is kept while the client does nothing. -/
theorem Keeps.evolve (keeps : line.Keeps phase)
    (step : Evolve False line line') : line'.Keeps phase := by
  cases step with
  | request _ posted _ ready => exact keeps.request posted ready
  | access _ posted _ => exact keeps.access posted
  | reply _ posted _ _ => exact keeps.answered posted
  | acknowledgeClient executed => exact keeps.acknowledged executed
  | acknowledgeServer _ =>
      have same : ∀ number rest,
          Line.unhandled { line with
            server := line.server.acknowledged number rest } =
            line.unhandled := fun number rest => by
        simp [Line.unhandled, Endpoint.acknowledged]
      exact keeps.frame rfl rfl rfl (same _ _)
        (by rw [Line.credit, same]; exact Nat.le_refl _) rfl rfl rfl
  | poll polling completed _ =>
      refine keeps.frame rfl rfl rfl ?_ ?_ rfl rfl rfl
      all_goals simp [Line.credit, Line.unhandled, polling, completed,
        Thread.unhandled, Thread.owed]
  | countSend next =>
      refine keeps.frame rfl rfl rfl ?_ ?_ rfl rfl rfl
      all_goals simp [Line.credit, Line.unhandled, next, Thread.unhandled,
        Thread.owed]
  | countRecv next =>
      refine keeps.frame rfl rfl rfl ?_ ?_ rfl rfl rfl
      all_goals simp [Line.credit, Line.unhandled, next, Thread.unhandled,
        Thread.owed]
  | handle next handled => exact keeps.handle next handled
  | answer next handled posts => exact keeps.answer next handled posts
  | repost next posts =>
      cases posts with
      | accepted =>
          refine keeps.frame rfl rfl rfl ?_ ?_ rfl rfl rfl
          all_goals simp [Line.credit, Line.unhandled, next, Thread.unhandled,
            Thread.owed]
          omega
      | refused full =>
          refine keeps.frame rfl rfl rfl ?_ ?_ rfl rfl rfl
          all_goals simp [Line.credit, Line.unhandled, next, Thread.unhandled,
            Thread.owed]
  | maintain next _ =>
      refine keeps.frame rfl rfl rfl ?_ ?_ rfl rfl rfl
      all_goals simp [Line.credit, Line.unhandled, next, Thread.unhandled,
        Thread.owed]
  | oversized allowed => exact allowed.elim
  | denied allowed => exact allowed.elim
  | flushSend allowed => exact allowed.elim
  | flushRecv allowed => exact allowed.elim

end Line

end QueuePair
