import RdmaKv.Library.ByteStream
import Mathlib.Logic.Relation
import Mathlib.Order.Nat
import Mathlib.Algebra.GroupWithZero.Nat

/-!
# The echo server and its client

The client sends one packet after the other and calls `recv` once after each,
whatever that returns.  The server sends back what it reads, in whatever pieces
it comes.
-/

namespace RdmaKv.Ex1

open ByteStream Relation

def warmupPacketSize : Nat := 1024

def rttPacketsPerCycle : Nat := 1000

def rttNumOfCycles : Nat := 100

/-- Where the client is: before `send` with the packets that are left, or in
`recv` with room for one packet. -/
inductive ClientAt where
  | sending (packets : List (List UInt8))
  | receiving (size : Nat) (packets : List (List UInt8))
  | closed
  | failed

/-- Where the server is: in `recv`, or in `send` with what it has read. -/
inductive ServerAt where
  | receiving
  | echoing (bytes : List UInt8)
  | returned
  | failed

/-- Both programs and the connection between them. -/
structure Session where
  client : ClientAt
  server : ServerAt
  up : Stream UInt8
  down : Stream UInt8

namespace Session

def start (packets : List (List UInt8)) : Session :=
  ⟨.sending packets, .receiving, Stream.start, Stream.start⟩

/-- `measure_latency` and the inner loop of `measure_throughput`.  A `recv`
that returns 0 is no error. -/
inductive ClientStep : Session → Session → Prop
  | sent {s : Session} {packet : List UInt8} {packets : List (List UInt8)}
      (here : s.client = .sending (packet :: packets)) :
      ClientStep s { s with
        client := .receiving packet.length packets
        up := s.up.write packet }
  | sendFailed {s : Session} {packet : List UInt8}
      {packets : List (List UInt8)} {count : Nat}
      (here : s.client = .sending (packet :: packets))
      (short : count < packet.length) :
      ClientStep s { s with
        client := .failed
        up := (s.up.write (packet.take count)).close }
  | received {s : Session} {size : Nat} {packets : List (List UInt8)}
      {bytes : List UInt8} {down : Stream UInt8}
      (here : s.client = .receiving size packets)
      (reads : Stream.Reads size s.down (some bytes) down) :
      ClientStep s { s with client := .sending packets, down := down }
  | recvFailed {s : Session} {size : Nat} {packets : List (List UInt8)}
      {down : Stream UInt8} (here : s.client = .receiving size packets)
      (reads : Stream.Reads size s.down none down) :
      ClientStep s { s with client := .failed, up := s.up.close, down := down }
  | closed {s : Session} (here : s.client = .sending []) :
      ClientStep s { s with client := .closed, up := s.up.close }

/-- `Server::echo` and `killServer`.  It does not look at how much `send` has
sent; that this may be less than it was given is `mayLose`. -/
inductive ServerStep (mayLose : Prop) : Session → Session → Prop
  | received {s : Session} {bytes : List UInt8} {up : Stream UInt8}
      (here : s.server = .receiving)
      (reads : Stream.Reads warmupPacketSize s.up (some bytes) up)
      (some : bytes ≠ []) :
      ServerStep mayLose s { s with server := .echoing bytes, up := up }
  | ended {s : Session} {up : Stream UInt8} (here : s.server = .receiving)
      (reads : Stream.Reads warmupPacketSize s.up (some []) up) :
      ServerStep mayLose s { s with
        server := .returned, up := up, down := s.down.close }
  | recvFailed {s : Session} {up : Stream UInt8} (here : s.server = .receiving)
      (reads : Stream.Reads warmupPacketSize s.up none up) :
      ServerStep mayLose s { s with
        server := .failed, up := up, down := s.down.close }
  | sent {s : Session} {bytes : List UInt8}
      (here : s.server = .echoing bytes) :
      ServerStep mayLose s { s with
        server := .receiving, down := s.down.write bytes }
  | sentShort {s : Session} {bytes : List UInt8} {count : Nat}
      (loses : mayLose) (here : s.server = .echoing bytes)
      (short : count < bytes.length) :
      ServerStep mayLose s { s with
        server := .receiving, down := s.down.write (bytes.take count) }
  | sendFailed {s : Session} {bytes : List UInt8}
      (here : s.server = .echoing bytes) (gone : s.up.closed = true) :
      ServerStep mayLose s { s with
        server := .failed, down := s.down.close }

def Step (mayLose : Prop) (s s' : Session) : Prop :=
  ClientStep s s' ∨ ServerStep mayLose s s'

def Reached (mayLose : Prop) (packets : List (List UInt8)) (s : Session) :
    Prop :=
  ReflTransGen (Step mayLose) (start packets) s

/-! ## What every run keeps -/

def left : ClientAt → List (List UInt8)
  | .sending packets | .receiving _ packets => packets
  | .closed | .failed => []

/-- What the server has read and not sent. -/
def hand : ServerAt → List UInt8
  | .echoing bytes => bytes
  | .receiving | .returned | .failed => []

structure Client (packets : List (List UInt8)) (s : Session) : Prop where
  sent : s.up.sent ++ (left s.client).flatten <+: packets.flatten
  all : s.client ≠ .failed →
    s.up.sent ++ (left s.client).flatten = packets.flatten
  nonempty : ∀ packet ∈ left s.client, 0 < packet.length
  taken : s.down.taken ≤ s.down.sent.length
  owed : ∀ size packets, s.client = .receiving size packets →
    0 < size ∧ s.down.taken + size ≤ s.up.sent.length
  got : s.down.taken ≤ s.up.sent.length
  closed : s.up.closed = true ↔ s.client = .closed ∨ s.client = .failed

structure Server (mayLose : Prop) (s : Session) : Prop where
  taken : s.up.taken ≤ s.up.sent.length
  order : (s.down.sent ++ hand s.server).Sublist s.up.received
  echoed : ¬mayLose → s.down.sent ++ hand s.server <+: s.up.received
  all : ¬mayLose → s.server ≠ .failed →
    s.down.sent ++ hand s.server = s.up.received
  closed : s.down.closed = true ↔ s.server = .returned ∨ s.server = .failed
  ended : s.server = .returned → s.up.unread = [] ∧ s.up.closed = true
  failed : s.server = .failed → s.up.closed = true

variable {mayLose : Prop} {packets : List (List UInt8)} {s s' : Session}

private theorem client_start
    (nonempty : ∀ packet ∈ packets, 0 < packet.length) :
    Client packets (start packets) := by
  refine ⟨List.prefix_rfl, fun _ => rfl, nonempty, le_rfl, ?_, le_rfl, ?_⟩
  · exact fun size packets here => absurd here (by simp [start])
  · simp [start, Stream.start]

private theorem server_start : Server mayLose (start packets) := by
  refine ⟨le_rfl, List.Sublist.refl _, fun _ => List.prefix_rfl,
    fun _ _ => rfl, ?_, ?_, ?_⟩
  · simp [start, Stream.start]
  · exact fun here => absurd here (by simp [start])
  · exact fun here => absurd here (by simp [start])

/-- The client's side after one of its own steps. -/
theorem ClientStep.client (step : ClientStep s s') (client : Client packets s) :
    Client packets s' := by
  obtain ⟨sent, all, nonempty, taken, owed, got, closed⟩ := client
  cases step with
  | sent here =>
      rw [here] at sent all nonempty closed
      have regroup (first packet : List UInt8) (rest : List (List UInt8)) :
          first ++ (packet :: rest).flatten = (first ++ packet) ++
            rest.flatten := by
        rw [List.flatten_cons, List.append_assoc]
      simp only [left, regroup] at sent all
      refine ⟨sent, fun _ => all (by simp), fun other member =>
        nonempty other (List.mem_cons_of_mem _ member), taken, ?_, ?_, ?_⟩
      · intro size rest same
        obtain ⟨rfl, rfl⟩ := ClientAt.receiving.inj same
        rw [Stream.sent_write, List.length_append]
        exact ⟨nonempty _ List.mem_cons_self, Nat.add_le_add_right got _⟩
      · rw [Stream.sent_write, List.length_append]
        exact got.trans (Nat.le_add_right _ _)
      · simpa using closed
  | sendFailed here short =>
      rename_i packet rest count
      rw [here] at sent
      refine ⟨?_, fun alive => absurd rfl alive, by simp [left], taken, ?_, ?_,
        by simp⟩
      · simp only [left, Stream.sent_close, Stream.sent_write, List.flatten_nil,
          List.append_nil, List.flatten_cons] at sent ⊢
        refine List.IsPrefix.trans ?_ sent
        rw [List.prefix_append_right_inj]
        exact (List.take_prefix _ _).trans (List.prefix_append _ _)
      · exact fun size packets same => absurd same (by simp)
      · simp only [Stream.sent_close, Stream.sent_write, List.length_append]
        exact got.trans (Nat.le_add_right _ _)
  | received here reads =>
      rw [here] at sent all nonempty closed
      obtain ⟨_, bound⟩ := owed _ _ here
      obtain ⟨_, inside, room⟩ := reads.received taken
      have later := reads.length_unread
      rw [Stream.length_unread, Stream.length_unread, reads.sent] at later
      rw [reads.sent] at inside
      refine ⟨sent, fun _ => all (by simp), nonempty, by rwa [reads.sent],
        fun size packets same => absurd same (by simp), ?_, by simpa using closed⟩
      simp only
      omega
  | recvFailed here reads =>
      rw [here] at sent
      obtain rfl := reads.eq_of_none
      refine ⟨?_, fun alive => absurd rfl alive, by simp [left], taken,
        fun size packets same => absurd same (by simp), got, by simp⟩
      simp only [left, List.flatten_nil, List.append_nil] at sent ⊢
      exact (List.prefix_append _ _).trans sent
  | closed here =>
      rw [here] at sent all
      exact ⟨sent, fun _ => all (by simp), by simp [left], taken,
        fun size packets same => absurd same (by simp), got, by simp⟩

structure ClientFrame (s s' : Session) : Prop where
  server : s'.server = s.server
  down : s'.down.sent = s.down.sent
  downClosed : s'.down.closed = s.down.closed
  up : s'.up.taken = s.up.taken
  more : ∃ bytes, s'.up.sent = s.up.sent ++ bytes
  before : s.client ≠ .closed ∧ s.client ≠ .failed

theorem ClientStep.frame (step : ClientStep s s') : ClientFrame s s' := by
  cases step with
  | sent here => exact ⟨rfl, rfl, rfl, rfl, ⟨_, rfl⟩, by simp [here]⟩
  | sendFailed here _ => exact ⟨rfl, rfl, rfl, rfl, ⟨_, rfl⟩, by simp [here]⟩
  | received here reads =>
      exact ⟨rfl, reads.sent, reads.closed, rfl, ⟨[], by simp⟩, by simp [here]⟩
  | recvFailed here reads =>
      exact ⟨rfl, reads.sent, reads.closed, rfl, ⟨[], by simp⟩, by simp [here]⟩
  | closed here => exact ⟨rfl, rfl, rfl, rfl, ⟨[], by simp⟩, by simp [here]⟩

theorem ClientStep.server (step : ClientStep s s') (client : Client packets s)
    (server : Server mayLose s) : Server mayLose s' := by
  obtain ⟨sameServer, down, downClosed, up, ⟨bytes, more⟩, before⟩ := step.frame
  obtain ⟨taken, order, echoed, all, closed, ended, failed⟩ := server
  have isOpen : ¬s.up.closed = true := fun closed =>
    (client.closed.mp closed).elim before.1 before.2
  have received : s'.up.received = s.up.received := by
    unfold Stream.received
    rw [up, more]
    exact List.take_append_of_le_length taken
  refine ⟨?_, ?_, ?_, ?_, ?_, ?_, ?_⟩
  · rw [up, more, List.length_append]
    exact taken.trans (Nat.le_add_right _ _)
  · rwa [sameServer, down, received]
  · rwa [sameServer, down, received]
  · rwa [sameServer, down, received]
  · rwa [sameServer, downClosed]
  · rw [sameServer]
    exact fun returned => absurd (ended returned).2 isOpen
  · rw [sameServer]
    exact fun gone => absurd (failed gone) isOpen

structure ServerFrame (s s' : Session) : Prop where
  client : s'.client = s.client
  up : s'.up.sent = s.up.sent
  upClosed : s'.up.closed = s.up.closed
  down : s'.down.taken = s.down.taken
  more : ∃ bytes, s'.down.sent = s.down.sent ++ bytes

theorem ServerStep.frame (step : ServerStep mayLose s s') :
    ServerFrame s s' := by
  cases step with
  | received _ reads _ =>
      exact ⟨rfl, reads.sent, reads.closed, rfl, ⟨[], by simp⟩⟩
  | ended _ reads => exact ⟨rfl, reads.sent, reads.closed, rfl, ⟨[], by simp⟩⟩
  | recvFailed _ reads =>
      exact ⟨rfl, reads.sent, reads.closed, rfl, ⟨[], by simp⟩⟩
  | sent _ => exact ⟨rfl, rfl, rfl, rfl, ⟨_, rfl⟩⟩
  | sentShort _ _ _ => exact ⟨rfl, rfl, rfl, rfl, ⟨_, rfl⟩⟩
  | sendFailed _ _ => exact ⟨rfl, rfl, rfl, rfl, ⟨[], by simp⟩⟩

theorem ServerStep.client (step : ServerStep mayLose s s')
    (client : Client packets s) : Client packets s' := by
  obtain ⟨sameClient, up, upClosed, down, ⟨bytes, more⟩⟩ := step.frame
  obtain ⟨sent, all, nonempty, taken, owed, got, closed⟩ := client
  refine ⟨?_, ?_, ?_, ?_, ?_, ?_, ?_⟩
  · rwa [sameClient, up]
  · rwa [sameClient, up]
  · rwa [sameClient]
  · rw [down, more, List.length_append]
    exact taken.trans (Nat.le_add_right _ _)
  · rwa [sameClient, down, up]
  · rwa [down, up]
  · rwa [sameClient, upClosed]

/-- The server's side after one of its own steps. -/
theorem ServerStep.server (step : ServerStep mayLose s s')
    (server : Server mayLose s) : Server mayLose s' := by
  obtain ⟨taken, order, echoed, all, closed, ended, failed⟩ := server
  cases step with
  | received here reads some =>
      obtain ⟨next, inside, _⟩ := reads.received taken
      rw [here] at order echoed all closed
      simp only [hand, List.append_nil] at order echoed all
      refine ⟨inside, ?_, fun whole => ?_, fun whole _ => ?_, ?_, ?_, ?_⟩
      · simp only [hand, next]
        exact order.append (List.Sublist.refl _)
      · simp only [hand, next, all whole (by simp)]
        exact List.prefix_rfl
      · simp only [hand, next, all whole (by simp)]
      · simpa using closed
      · exact fun same => absurd same (by simp)
      · exact fun same => absurd same (by simp)
  | ended here reads =>
      obtain ⟨rfl, gone, nothing⟩ := reads.ended_of_nil
      rw [here] at order echoed all
      exact ⟨taken, order, echoed, fun whole _ => all whole (by simp),
        by simp, fun _ => ⟨nothing, gone⟩, fun same => absurd same (by simp)⟩
  | recvFailed here reads =>
      obtain rfl := reads.eq_of_none
      have gone : s.up.closed = true := by
        cases reads
        assumption
      rw [here] at order echoed all
      exact ⟨taken, order, echoed, fun _ alive => absurd rfl alive, by simp,
        fun same => absurd same (by simp), fun _ => gone⟩
  | sent here =>
      rw [here] at order echoed all closed
      simp only [hand] at order echoed all
      refine ⟨taken, ?_, fun whole => ?_, fun whole _ => ?_,
        by simpa using closed, fun same => absurd same (by simp),
        fun same => absurd same (by simp)⟩
      · simpa [hand] using order
      · simpa [hand] using echoed whole
      · simpa [hand] using all whole (by simp)
  | sentShort loses here short =>
      rw [here] at order closed
      simp only [hand] at order
      refine ⟨taken, ?_, fun whole => absurd loses whole,
        fun whole _ => absurd loses whole, by simpa using closed,
        fun same => absurd same (by simp), fun same => absurd same (by simp)⟩
      simp only [hand, List.append_nil, Stream.sent_write]
      exact ((List.Sublist.refl _).append (List.take_sublist _ _)).trans order
  | sendFailed here gone =>
      rw [here] at order echoed
      simp only [hand] at order echoed
      refine ⟨taken, ?_, fun whole => ?_, fun _ alive => absurd rfl alive,
        by simp, fun same => absurd same (by simp), fun _ => gone⟩
      · simp only [hand, List.append_nil, Stream.sent_close]
        exact (List.sublist_append_left _ _).trans order
      · simp only [hand, List.append_nil, Stream.sent_close]
        exact (List.prefix_append _ _).trans (echoed whole)

structure Holds (mayLose : Prop) (packets : List (List UInt8)) (s : Session) :
    Prop where
  client : Client packets s
  server : Server mayLose s

theorem Step.holds (step : Step mayLose s s')
    (holds : Holds mayLose packets s) : Holds mayLose packets s' := by
  rcases step with step | step
  · exact ⟨step.client holds.client, step.server holds.client holds.server⟩
  · exact ⟨step.client holds.client, step.server holds.server⟩

theorem Reached.holds (nonempty : ∀ packet ∈ packets, 0 < packet.length)
    (reached : Reached mayLose packets s) : Holds mayLose packets s := by
  induction reached with
  | refl => exact ⟨client_start nonempty, server_start⟩
  | tail _ step inductionHypothesis => exact Step.holds step inductionHypothesis

theorem Client.sent_prefix (client : Client packets s) :
    s.up.sent <+: packets.flatten :=
  (List.prefix_append _ _).trans client.sent

/-- What the client gets is what it has sent, in that order, without what a
`send` of the server has left out.  If no `send` does, nothing is missing in
between, and a server that has returned has sent everything back. -/
theorem echo_in_order (nonempty : ∀ packet ∈ packets, 0 < packet.length)
    (reached : Reached mayLose packets s) :
    s.up.sent <+: packets.flatten ∧
      s.down.received.Sublist s.up.sent ∧
      (¬mayLose → s.down.received <+: s.up.sent) ∧
      (¬mayLose → s.server = .returned → s.down.sent = s.up.sent ∧
        (s.client = .closed → s.down.sent = packets.flatten)) := by
  obtain ⟨client, server⟩ := reached.holds nonempty
  refine ⟨client.sent_prefix, ?_, fun whole => ?_, fun whole returned => ?_⟩
  · exact (Stream.received_prefix.sublist.trans
      ((List.sublist_append_left _ _).trans server.order)).trans
        Stream.received_prefix.sublist
  · exact (Stream.received_prefix.trans
      ((List.prefix_append _ _).trans (server.echoed whole))).trans
        Stream.received_prefix
  · have all := server.all whole (by simp [returned])
    obtain ⟨nothing, _⟩ := server.ended returned
    have everything : s.up.received = s.up.sent := by
      have split := @Stream.received_append_unread _ s.up
      rwa [nothing, List.append_nil] at split
    rw [returned, everything] at all
    simp only [hand, List.append_nil] at all
    refine ⟨all, fun done => ?_⟩
    have complete := client.all (by simp [done])
    rw [done] at complete
    simpa [left, all] using complete

/-! ### Two packets -/

def twoPackets : List (List UInt8) := [[7, 8], [9]]

/-- The client has got one byte of its first packet and sent the second. -/
def between : Session :=
  ⟨.receiving 1 [], .receiving, ⟨[7, 8, 9], 2, false⟩, ⟨[7, 8], 1, false⟩⟩

private theorem reached_between : Reached False twoPackets between := by
  have sent : Step False (start twoPackets)
      ⟨.receiving 2 [[9]], .receiving, ⟨[7, 8], 0, false⟩, Stream.start⟩ :=
    Or.inl (@ClientStep.sent (start twoPackets) [7, 8] [[9]] rfl)
  have read : Step False
      ⟨.receiving 2 [[9]], .receiving, ⟨[7, 8], 0, false⟩, Stream.start⟩
      ⟨.receiving 2 [[9]], .echoing [7, 8], ⟨[7, 8], 2, false⟩,
        Stream.start⟩ :=
    Or.inr (.received rfl (@Stream.Reads.part _ _ ⟨[7, 8], 0, false⟩ 2
      (by decide) (by decide) (by decide)) (by decide))
  have echoed : Step False
      ⟨.receiving 2 [[9]], .echoing [7, 8], ⟨[7, 8], 2, false⟩, Stream.start⟩
      ⟨.receiving 2 [[9]], .receiving, ⟨[7, 8], 2, false⟩,
        ⟨[7, 8], 0, false⟩⟩ :=
    Or.inr (.sent rfl)
  have received : Step False
      ⟨.receiving 2 [[9]], .receiving, ⟨[7, 8], 2, false⟩, ⟨[7, 8], 0, false⟩⟩
      ⟨.sending [[9]], .receiving, ⟨[7, 8], 2, false⟩, ⟨[7, 8], 1, false⟩⟩ :=
    Or.inl (.received rfl (@Stream.Reads.part _ _ ⟨[7, 8], 0, false⟩ 1
      (by decide) (by decide) (by decide)))
  have sentSecond : Step False
      ⟨.sending [[9]], .receiving, ⟨[7, 8], 2, false⟩, ⟨[7, 8], 1, false⟩⟩
      between :=
    Or.inl (@ClientStep.sent ⟨.sending [[9]], .receiving, ⟨[7, 8], 2, false⟩,
      ⟨[7, 8], 1, false⟩⟩ [9] [] rfl)
  exact ((((ReflTransGen.single sent).tail read).tail echoed).tail
    received).tail sentSecond

/-- Both have ended.  The last byte was sent back and not read. -/
def ended : Session :=
  ⟨.closed, .returned, ⟨[7, 8, 9], 3, true⟩, ⟨[7, 8, 9], 2, true⟩⟩

private theorem reached_ended : Reached False twoPackets ended := by
  have received : Step False between
      ⟨.sending [], .receiving, ⟨[7, 8, 9], 2, false⟩, ⟨[7, 8], 2, false⟩⟩ :=
    Or.inl (.received rfl (@Stream.Reads.part _ _ ⟨[7, 8], 1, false⟩ 1
      (by decide) (by decide) (by decide)))
  have read : Step False
      ⟨.sending [], .receiving, ⟨[7, 8, 9], 2, false⟩, ⟨[7, 8], 2, false⟩⟩
      ⟨.sending [], .echoing [9], ⟨[7, 8, 9], 3, false⟩,
        ⟨[7, 8], 2, false⟩⟩ :=
    Or.inr (.received rfl (@Stream.Reads.part _ _ ⟨[7, 8, 9], 2, false⟩ 1
      (by decide) (by decide) (by decide)) (by decide))
  have echoed : Step False
      ⟨.sending [], .echoing [9], ⟨[7, 8, 9], 3, false⟩, ⟨[7, 8], 2, false⟩⟩
      ⟨.sending [], .receiving, ⟨[7, 8, 9], 3, false⟩,
        ⟨[7, 8, 9], 2, false⟩⟩ :=
    Or.inr (.sent rfl)
  have closed : Step False
      ⟨.sending [], .receiving, ⟨[7, 8, 9], 3, false⟩, ⟨[7, 8, 9], 2, false⟩⟩
      ⟨.closed, .receiving, ⟨[7, 8, 9], 3, true⟩, ⟨[7, 8, 9], 2, false⟩⟩ :=
    Or.inl (.closed rfl)
  have stops : Step False
      ⟨.closed, .receiving, ⟨[7, 8, 9], 3, true⟩, ⟨[7, 8, 9], 2, false⟩⟩
      ended :=
    Or.inr (.ended rfl (.ended rfl rfl))
  exact ((((reached_between.tail received).tail read).tail echoed).tail
    closed).tail stops

theorem echo_in_order_two :
    between.down.received <+: between.up.sent ∧
      between.down.received = [7] ∧
      ended.down.received <+: ended.up.sent ∧
      ended.down.received = [7, 8] ∧
      ended.down.sent = twoPackets.flatten := by
  have nonempty : ∀ packet ∈ twoPackets, 0 < packet.length := by decide
  have first := echo_in_order nonempty reached_between
  have last := echo_in_order nonempty reached_ended
  exact ⟨first.2.2.1 id, rfl, last.2.2.1 id, rfl, (last.2.2.2 id rfl).2 rfl⟩

/-! ## Every run ends -/

def clientWork : ClientAt → Nat
  | .sending packets =>
      (packets.map fun packet => 5 * packet.length + 3).sum + 1
  | .receiving _ packets =>
      (packets.map fun packet => 5 * packet.length + 3).sum + 2
  | .closed | .failed => 0

def serverWork : ServerAt → Nat
  | .echoing _ => 2
  | .receiving => 1
  | .returned | .failed => 0

/-- What is left to do: a byte gets less when it goes on. -/
def work (s : Session) : Nat :=
  clientWork s.client + 4 * s.up.unread.length +
    2 * (hand s.server).length + s.down.unread.length + serverWork s.server

theorem ClientStep.work (step : ClientStep s s')
    (holds : Holds mayLose packets s) : s'.work < s.work := by
  have taken := holds.server.taken
  unfold Session.work
  cases step with
  | sent here =>
      rw [here, Stream.unread_write _ taken, List.length_append]
      simp only [clientWork, List.map_cons, List.sum_cons]
      omega
  | sendFailed here short =>
      rw [here, Stream.unread_close, Stream.unread_write _ taken,
        List.length_append, List.length_take]
      simp only [clientWork, List.map_cons, List.sum_cons]
      omega
  | received here reads =>
      have later := reads.length_unread
      rw [here]
      simp only [clientWork]
      omega
  | recvFailed here reads =>
      obtain rfl := reads.eq_of_none
      rw [here, Stream.unread_close]
      simp only [clientWork]
      omega
  | closed here =>
      rw [here, Stream.unread_close]
      simp only [clientWork, List.map_nil, List.sum_nil]
      omega

theorem ServerStep.work (step : ServerStep mayLose s s')
    (holds : Holds mayLose packets s) : s'.work < s.work := by
  have taken := holds.client.taken
  unfold Session.work
  cases step with
  | received here reads some =>
      have later := reads.length_unread
      have positive := List.length_pos_of_ne_nil some
      rw [here]
      simp only [hand, serverWork, List.length_nil]
      omega
  | ended here reads =>
      obtain ⟨rfl, _⟩ := reads.ended_of_nil
      rw [here, Stream.unread_close]
      simp only [hand, serverWork]
      omega
  | recvFailed here reads =>
      obtain rfl := reads.eq_of_none
      rw [here, Stream.unread_close]
      simp only [hand, serverWork]
      omega
  | sent here =>
      rw [here, Stream.unread_write _ taken, List.length_append]
      simp only [hand, serverWork, List.length_nil]
      omega
  | sentShort _ here short =>
      rw [here, Stream.unread_write _ taken, List.length_append,
        List.length_take]
      simp only [hand, serverWork, List.length_nil]
      omega
  | sendFailed here _ =>
      rw [here, Stream.unread_close]
      simp only [hand, serverWork, List.length_nil]
      omega

/-- A client that waits is owed bytes; when the server has none to read, they
are on their way back. -/
theorem Holds.owed (holds : Holds False packets s) {size : Nat}
    {rest : List (List UInt8)} (here : s.client = .receiving size rest)
    (server : s.server = .receiving) (nothing : s.up.unread = []) :
    s.down.unread ≠ [] := by
  obtain ⟨positive, owed⟩ := holds.client.owed size rest here
  have all := holds.server.all (by simp) (by simp [server])
  have everything : s.up.received = s.up.sent := by
    have split := @Stream.received_append_unread _ s.up
    rwa [nothing, List.append_nil] at split
  rw [server, everything] at all
  simp only [hand, List.append_nil] at all
  refine List.ne_nil_of_length_pos ?_
  rw [Stream.length_unread, all]
  omega

end Session

end RdmaKv.Ex1
