import RdmaKv.Library.Interaction
import Mathlib.Logic.Function.Basic
import Mathlib.Tactic.Ring

/-!
# `measure_throughput` of the TCP client

The client sends one packet on every stream and then calls `recv` once on
every stream; the echo server reads what has arrived on one stream and sends
it back.  TCP is a stream of bytes, so either of them may get fewer bytes than
were sent.
-/

namespace RdmaKv.Ex2

open Interaction Relation

def maxPacketSizeBytes : Nat := 1048576

def rttPacketsPerCycle : Nat := 100

def rttNumOfCycles : Nat := 10

/-! ## A connection -/

/-- Where the bytes are that the client has sent on a stream: on the way to the
server, in its `read_buffer`, on the way back, or received.  `recvs` lists what
the client's `recv`s have returned. -/
structure Stream where
  sent : Nat
  toServer : Nat
  held : Nat
  toClient : Nat
  received : Nat
  recvs : List Nat
  balance : sent = toServer + held + toClient + received

namespace Stream

/-- Nothing is in flight. -/
def Conserved (s : Stream) : Prop := s.received = s.sent

def clientSend (s : Stream) (size : Nat) : Stream :=
  { s with
    sent := s.sent + size
    toServer := s.toServer + size
    balance := by
      have balance := s.balance
      omega }

def serverRecv (s : Stream) (count : Nat) (available : count ≤ s.toServer) :
    Stream :=
  { s with
    toServer := s.toServer - count
    held := s.held + count
    balance := by
      have balance := s.balance
      omega }

def serverSend (s : Stream) : Stream :=
  { s with
    held := 0
    toClient := s.toClient + s.held
    balance := by
      have balance := s.balance
      omega }

def clientRecv (s : Stream) (count : Nat) (available : count ≤ s.toClient) :
    Stream :=
  { s with
    toClient := s.toClient - count
    received := s.received + count
    recvs := s.recvs ++ [count]
    balance := by
      have balance := s.balance
      omega }

end Stream

abbrev Network := Nat → Stream

/-- What the client calls, with the number of bytes. -/
inductive Op where
  | send (stream size : Nat)
  | recv (stream size : Nat)

abbrev Answer (_ : Op) : Type := Int

abbrev Run (α : Type) := Program Op Answer α

/-! ## `echoClient` -/

/-- The server reads some of what has arrived on a stream, or sends what it has
read. -/
inductive EchoClient : Network → Network → Prop
  | recv {net : Network} {stream count : Nat}
      (idle : ∀ other, (net other).held = 0) (positive : 0 < count)
      (available : count ≤ (net stream).toServer)
      (inside : count ≤ maxPacketSizeBytes) :
      EchoClient net (Function.update net stream
        ((net stream).serverRecv count available))
  | send {net : Network} {stream : Nat} (busy : 0 < (net stream).held) :
      EchoClient net (Function.update net stream (net stream).serverSend)

/-- `send` takes all bytes; `recv` returns at least one of those that have
arrived. -/
inductive Returns : (op : Op) → Network → Answer op → Network → Prop
  | send {net : Network} {stream size : Nat} :
      Returns (.send stream size) net size
        (Function.update net stream ((net stream).clientSend size))
  | recv {net : Network} {stream size count : Nat} (positive : 0 < count)
      (available : count ≤ (net stream).toClient) (inside : count ≤ size) :
      Returns (.recv stream size) net count
        (Function.update net stream ((net stream).clientRecv count available))

def environment : Environment Op Answer where
  State := Network
  evolve := EchoClient
  answer := Returns

/-! ## `measure_throughput` -/

/-- The first loop over the streams, from `stream` on. -/
def sendPackets (packetSize : Nat) : (stream remaining : Nat) → Run Unit
  | _, 0 => .done ()
  | stream, remaining + 1 =>
      .perform (.send stream packetSize) fun returned =>
        if returned = packetSize then
          sendPackets packetSize (stream + 1) remaining
        else .crash

/-- The second loop over the streams. -/
def recvPackets (packetSize : Nat) : (stream remaining : Nat) → Run Unit
  | _, 0 => .done ()
  | stream, remaining + 1 =>
      .perform (.recv stream packetSize) fun returned =>
        if returned < 0 then .crash
        else recvPackets packetSize (stream + 1) remaining

/-- The iterations that are left. -/
def iterations (numOfStreams packetSize : Nat) : (remaining : Nat) → Run Unit
  | 0 => .done ()
  | remaining + 1 =>
      sendPackets packetSize 0 numOfStreams >>= fun _ =>
        recvPackets packetSize 0 numOfStreams >>= fun _ =>
          iterations numOfStreams packetSize remaining

/-- `measure_throughput`: the cycles only divide the iterations into those
whose time is measured together. -/
def measureThroughput (numOfStreams packetSize : Nat) : Run Unit :=
  iterations numOfStreams packetSize (rttNumOfCycles * rttPacketsPerCycle)

/-! ## One stream -/

/-- So much has happened on a stream since the start. -/
structure Counts (start now : Stream) (packetSize sends recvs : Nat) :
    Prop where
  sent : now.sent = start.sent + sends * packetSize
  received : now.received = start.received + now.recvs.sum
  length : now.recvs.length = recvs
  positive : ∀ count ∈ now.recvs, 0 < count
  bounded : ∀ count ∈ now.recvs, count ≤ packetSize

private theorem sum_eq_iff {counts : List Nat} {bound : Nat}
    (bounded : ∀ count ∈ counts, count ≤ bound) :
    counts.sum ≤ counts.length * bound ∧
      (counts.sum = counts.length * bound ↔ ∀ count ∈ counts, count = bound) := by
  induction counts with
  | nil => simp
  | cons count counts inductionHypothesis =>
      have first := bounded count (List.mem_cons_self ..)
      obtain ⟨le, eq⟩ := inductionHypothesis fun other member =>
        bounded other (List.mem_cons_of_mem count member)
      have total : (count :: counts).length * bound =
          counts.length * bound + bound := by
        rw [List.length_cons, Nat.add_mul, Nat.one_mul]
      rw [List.sum_cons, total, List.forall_mem_cons, ← eq]
      constructor
      · omega
      · omega

/-- After whole iterations everything is back exactly if everything was back
before and no `recv` returned less than a packet. -/
theorem Counts.conserved_iff {start now : Stream} {packetSize rounds : Nat}
    (counts : Counts start now packetSize rounds rounds) :
    now.Conserved ↔ start.Conserved ∧ ∀ count ∈ now.recvs, count = packetSize := by
  have balance := start.balance
  obtain ⟨le, eq⟩ := sum_eq_iff counts.bounded
  rw [counts.length] at le eq
  unfold Stream.Conserved
  rw [counts.sent, counts.received, ← eq]
  constructor
  · intro same
    constructor <;> omega
  · rintro ⟨same, all⟩
    omega

/-- The server moves bytes only. -/
theorem EchoClient.counts {net net' : Network} (step : EchoClient net net')
    {start : Stream} {stream packetSize sends recvs : Nat}
    (counts : Counts start (net stream) packetSize sends recvs) :
    Counts start (net' stream) packetSize sends recvs := by
  cases step with
  | @recv other count idle positive available inside =>
      by_cases same : stream = other
      · subst same
        rw [Function.update_self]
        exact ⟨counts.sent, counts.received, counts.length, counts.positive,
          counts.bounded⟩
      · rwa [Function.update_of_ne same]
  | @send other busy =>
      by_cases same : stream = other
      · subst same
        rw [Function.update_self]
        exact ⟨counts.sent, counts.received, counts.length, counts.positive,
          counts.bounded⟩
      · rwa [Function.update_of_ne same]

theorem Counts.clientSend {start now : Stream} {packetSize sends recvs : Nat}
    (counts : Counts start now packetSize sends recvs) :
    Counts start (now.clientSend packetSize) packetSize (sends + 1) recvs := by
  refine ⟨?_, counts.received, counts.length, counts.positive, counts.bounded⟩
  simp only [Stream.clientSend, counts.sent]
  ring

theorem Counts.clientRecv {start now : Stream}
    {packetSize sends recvs count : Nat}
    (counts : Counts start now packetSize sends recvs) (positive : 0 < count)
    (available : count ≤ now.toClient) (inside : count ≤ packetSize) :
    Counts start (now.clientRecv count available) packetSize sends
      (recvs + 1) := by
  refine ⟨counts.sent, ?_, ?_, fun other member => ?_, fun other member => ?_⟩
  · simp only [Stream.clientRecv, counts.received, List.sum_append,
      List.sum_singleton, Nat.add_assoc]
  · simp only [Stream.clientRecv, List.length_append, counts.length]
    rfl
  · rcases List.mem_append.mp member with old | new
    · exact counts.positive other old
    · rw [List.mem_singleton.mp new]
      exact positive
  · rcases List.mem_append.mp member with old | new
    · exact counts.bounded other old
    · rw [List.mem_singleton.mp new]
      exact inside

/-! ## Along a run -/

section Runs

variable {numOfStreams packetSize : Nat} {start net net' : Network}

private theorem sendPackets_succ (packetSize stream remaining : Nat)
    (next : Unit → Run Unit) :
    (sendPackets packetSize stream (remaining + 1) >>= next) =
      .perform (.send stream packetSize) fun returned =>
        (if returned = packetSize then
          sendPackets packetSize (stream + 1) remaining
        else .crash) >>= next := rfl

private theorem recvPackets_succ (packetSize stream remaining : Nat)
    (next : Unit → Run Unit) :
    (recvPackets packetSize stream (remaining + 1) >>= next) =
      .perform (.recv stream packetSize) fun returned =>
        (if returned < 0 then .crash
        else recvPackets packetSize (stream + 1) remaining) >>= next := rfl

/-- An iteration begins with the first stream. -/
private theorem posted?_iterations {left : Nat} (positive : 0 < numOfStreams) :
    (iterations numOfStreams packetSize left).posted? =
      match left with
      | 0 => none
      | _ + 1 => some (.send 0 packetSize) := by
  obtain ⟨remaining, rfl⟩ := Nat.exists_eq_succ_of_ne_zero positive.ne'
  cases left <;> rfl

/-- Where the client is, and what it has sent and received on each stream. -/
inductive At (numOfStreams packetSize : Nat) (start : Network) :
    Run Unit → Network → Prop
  | ended {finished : Nat} {net : Network}
      (counts : ∀ stream < numOfStreams,
        Counts (start stream) (net stream) packetSize finished finished) :
      At numOfStreams packetSize start (.done ()) net
  | sending {finished left stream remaining : Nat} {net : Network}
      (total : stream + (remaining + 1) = numOfStreams)
      (counts : ∀ other < numOfStreams,
        Counts (start other) (net other) packetSize
          (if other < stream then finished + 1 else finished) finished) :
      At numOfStreams packetSize start
        (sendPackets packetSize stream (remaining + 1) >>= fun _ =>
          recvPackets packetSize 0 numOfStreams >>= fun _ =>
            iterations numOfStreams packetSize left) net
  | receiving {finished left stream remaining : Nat} {net : Network}
      (total : stream + (remaining + 1) = numOfStreams)
      (counts : ∀ other < numOfStreams,
        Counts (start other) (net other) packetSize (finished + 1)
          (if other < stream then finished + 1 else finished)) :
      At numOfStreams packetSize start
        (recvPackets packetSize stream (remaining + 1) >>= fun _ =>
          iterations numOfStreams packetSize left) net

/-- Between two iterations. -/
private theorem at_iterations {finished left : Nat}
    (positive : 0 < numOfStreams)
    (counts : ∀ stream < numOfStreams,
      Counts (start stream) (net stream) packetSize finished finished) :
    At numOfStreams packetSize start
      (iterations numOfStreams packetSize left) net := by
  cases left with
  | zero => exact .ended counts
  | succ left =>
      obtain ⟨remaining, rfl⟩ := Nat.exists_eq_succ_of_ne_zero positive.ne'
      exact .sending (Nat.zero_add _) fun other inside => by
        rw [if_neg (Nat.not_lt_zero other)]
        exact counts other inside

/-- A loop over the streams advances: one more stream is further. -/
private theorem update_advances (holds : Nat → Stream → Nat → Prop)
    {stream finished : Nat} {now : Stream}
    (before : ∀ other < numOfStreams, holds other (net other)
      (if other < stream then finished + 1 else finished))
    (moved : holds stream (net stream) finished →
      holds stream now (finished + 1)) :
    ∀ other < numOfStreams, holds other (Function.update net stream now other)
      (if other < stream + 1 then finished + 1 else finished) := by
  intro other inside
  have earlier := before other inside
  by_cases same : other = stream
  · subst same
    rw [if_neg (lt_irrefl other)] at earlier
    rw [Function.update_self, if_pos (Nat.lt_succ_self other)]
    exact moved earlier
  · rw [Function.update_of_ne same]
    have sameSide : other < stream + 1 ↔ other < stream := by omega
    simpa only [sameSide] using earlier

/-- A packet was sent on one more stream. -/
private theorem at_sent {finished left stream remaining : Nat}
    (total : stream + (remaining + 1) = numOfStreams)
    (counts : ∀ other < numOfStreams,
      Counts (start other) (net other) packetSize
        (if other < stream then finished + 1 else finished) finished) :
    At numOfStreams packetSize start
      (sendPackets packetSize (stream + 1) remaining >>= fun _ =>
        recvPackets packetSize 0 numOfStreams >>= fun _ =>
          iterations numOfStreams packetSize left)
      (Function.update net stream ((net stream).clientSend packetSize)) := by
  have counted := update_advances
    (fun other now sends => Counts (start other) now packetSize sends finished)
    counts Counts.clientSend
  cases remaining with
  | zero =>
      have last : stream + 1 = numOfStreams := total
      rw [last] at counted
      subst last
      exact .receiving (Nat.zero_add _) fun other inside => by
        have all := counted other inside
        rw [if_pos inside] at all
        rw [if_neg (Nat.not_lt_zero other)]
        exact all
  | succ remaining => exact .sending (by omega) counted

/-- A packet, or a part of it, was received on one more stream. -/
private theorem at_received {finished left stream remaining count : Nat}
    (total : stream + (remaining + 1) = numOfStreams)
    (counts : ∀ other < numOfStreams,
      Counts (start other) (net other) packetSize (finished + 1)
        (if other < stream then finished + 1 else finished))
    (positive : 0 < count) (available : count ≤ (net stream).toClient)
    (inside : count ≤ packetSize) :
    At numOfStreams packetSize start
      (recvPackets packetSize (stream + 1) remaining >>= fun _ =>
        iterations numOfStreams packetSize left)
      (Function.update net stream
        ((net stream).clientRecv count available)) := by
  have counted := update_advances
    (fun other now recvs =>
      Counts (start other) now packetSize (finished + 1) recvs)
    counts fun before => before.clientRecv positive available inside
  cases remaining with
  | zero =>
      have last : stream + 1 = numOfStreams := total
      rw [last] at counted
      exact at_iterations (by omega) fun other isStream => by
        have all := counted other isStream
        rw [if_pos isStream] at all
        exact all
  | succ remaining => exact .receiving (by omega) counted

/-- What one step keeps. -/
theorem At.step {before after : Run Unit × Network}
    (here : At numOfStreams packetSize start before.1 before.2)
    (step : Step environment before after) :
    At numOfStreams packetSize start after.1 after.2 := by
  obtain ⟨program, net⟩ := before
  simp only at here
  cases here with
  | ended counts =>
      rcases step with step | step
      exact .ended fun stream inside => step.counts (counts stream inside)
  | sending total counts =>
      rw [sendPackets_succ] at step
      rcases step with step | step
      · exact .sending total fun other inside =>
          EchoClient.counts step (counts other inside)
      · cases step
        simp only [if_true]
        exact at_sent total counts
  | receiving total counts =>
      rw [recvPackets_succ] at step
      rcases step with step | step
      · exact .receiving total fun other inside =>
          EchoClient.counts step (counts other inside)
      · cases step with
        | @recv _ _ _ count positive available inside =>
            have nonneg : ¬ (count : Int) < 0 := by omega
            simp only [if_neg nonneg]
            exact at_received total counts positive available inside

/-- The client at every point of a run on fresh connections. -/
private theorem at_reached (positive : 0 < numOfStreams)
    (fresh : ∀ stream, (start stream).recvs = [])
    {reached : Run Unit × Network}
    (steps : Steps environment
      (measureThroughput numOfStreams packetSize, start) reached) :
    At numOfStreams packetSize start reached.1 reached.2 := by
  induction steps with
  | refl =>
      have counts (stream : Nat) :
          Counts (start stream) (start stream) packetSize 0 0 := by
        have none := fresh stream
        refine ⟨?_, ?_, ?_, ?_, ?_⟩ <;> simp [none]
      exact at_iterations positive fun stream inside => counts stream
  | tail earlier step inductionHypothesis =>
      exact inductionHypothesis.step step

/-- Whole iterations are behind the client whenever it begins another. -/
theorem At.counts_of_iterations {left : Nat} {program : Run Unit}
    (here : At numOfStreams packetSize start program net)
    (between : program = iterations numOfStreams packetSize left) :
    ∃ finished, ∀ stream < numOfStreams,
      Counts (start stream) (net stream) packetSize finished finished := by
  have posts := congrArg Program.posted? between
  cases here with
  | @ended finished _ counts => exact ⟨finished, counts⟩
  | @sending finished _ stream remaining _ total counts =>
      rw [sendPackets_succ] at posts
      rw [posted?_iterations (by omega)] at posts
      cases left with
      | zero => exact absurd posts (by simp [Program.posted?])
      | succ left =>
          obtain rfl : stream = 0 := by
            simpa [Program.posted?] using posts
          refine ⟨finished, fun other inside => ?_⟩
          have all := counts other inside
          rwa [if_neg (Nat.not_lt_zero other)] at all
  | @receiving finished _ stream remaining _ total counts =>
      rw [recvPackets_succ] at posts
      rw [posted?_iterations (by omega)] at posts
      cases left <;> exact absurd posts (by simp [Program.posted?])

/-- Whenever whole iterations are finished, everything that was sent has been
received exactly if that was so at the start and every `recv` returned a whole
packet. -/
private theorem conserved_of_steps (fresh : ∀ stream, (start stream).recvs = [])
    {left : Nat}
    (steps : Steps environment (measureThroughput numOfStreams packetSize, start)
      (iterations numOfStreams packetSize left, net)) :
    (∀ stream < numOfStreams, (net stream).Conserved) ↔
      ∀ stream < numOfStreams, (start stream).Conserved ∧
        ∀ count ∈ (net stream).recvs, count = packetSize := by
  rcases Nat.eq_zero_or_pos numOfStreams with rfl | some
  · simp
  · obtain ⟨finished, counts⟩ :=
      (at_reached some fresh steps).counts_of_iterations rfl
    exact forall₂_congr fun stream inside =>
      (counts stream inside).conserved_iff

end Runs

/-! ## A run in which every `recv` returns one byte -/

section OneByte

variable {packetSize : Nat} {next : Unit → Run Unit}

private theorem held_update {net : Network}
    (idle : ∀ other, (net other).held = 0)
    {stream : Nat} {s : Stream} (free : s.held = 0) :
    ∀ other, (Function.update net stream s other).held = 0 :=
  (Function.forall_update_iff net fun _ s => s.held = 0).mpr
    ⟨free, fun other _ => idle other⟩

private theorem step_sendPackets (stream remaining : Nat) (net : Network) :
    Step environment (sendPackets packetSize stream (remaining + 1) >>= next, net)
      (sendPackets packetSize (stream + 1) remaining >>= next,
        Function.update net stream ((net stream).clientSend packetSize)) := by
  have goesOn :
      (if (packetSize : Int) = packetSize then
        sendPackets packetSize (stream + 1) remaining
      else .crash) >>= next =
        sendPackets packetSize (stream + 1) remaining >>= next := by
    rw [if_pos rfl]
  rw [sendPackets_succ, ← goesOn]
  exact .answer .send

/-- One byte goes to the server, back, and to the client. -/
private theorem steps_recvPackets_one (positive : 0 < packetSize)
    (stream remaining : Nat) {net : Network}
    (idle : ∀ other, (net other).held = 0)
    (arrived : 0 < (net stream).toServer) :
    ∃ s : Stream,
      Steps environment
        (recvPackets packetSize stream (remaining + 1) >>= next, net)
        (recvPackets packetSize (stream + 1) remaining >>= next,
          Function.update net stream s) ∧
      s.held = 0 ∧ 1 ∈ s.recvs := by
  let read := (net stream).serverRecv 1 arrived
  have toClient : 1 ≤ read.serverSend.toClient := by
    simp [Stream.serverSend, read, Stream.serverRecv, idle stream]
  let last := read.serverSend.clientRecv 1 toClient
  have goesOn :
      (if ((1 : Nat) : Int) < 0 then .crash
      else recvPackets packetSize (stream + 1) remaining) >>= next =
        recvPackets packetSize (stream + 1) remaining >>= next := by
    rw [if_neg (by omega)]
  refine ⟨last, ?_, rfl, List.mem_append_right _ (List.mem_singleton_self 1)⟩
  have reads : EchoClient net (Function.update net stream read) :=
    EchoClient.recv idle Nat.one_pos arrived (by decide)
  have sends : EchoClient (Function.update net stream read)
      (Function.update net stream read.serverSend) := by
    have busy : 0 < (Function.update net stream read stream).held := by
      simp [read, Stream.serverRecv]
    simpa using EchoClient.send busy
  have receives : Returns (.recv stream packetSize)
      (Function.update net stream read.serverSend) ((1 : Nat) : Int)
      (Function.update net stream last) := by
    have available : 1 ≤
        (Function.update net stream read.serverSend stream).toClient := by
      simpa using toClient
    have step := Returns.recv Nat.one_pos available positive
    simpa [last] using step
  rw [recvPackets_succ, ← goesOn]
  exact ((ReflTransGen.single (.evolve reads)).tail (.evolve sends)).tail
    (.answer receives)

private theorem steps_sendPackets (positive : 0 < packetSize)
    (remaining : Nat) :
    ∀ (stream : Nat) (net : Network), (∀ other, (net other).held = 0) →
      ∃ net' : Network,
        Steps environment (sendPackets packetSize stream remaining >>= next, net)
          (next (), net') ∧
        (∀ other, (net' other).held = 0) ∧
        (∀ other < stream, net' other = net other) ∧
        ∀ other, stream ≤ other → other < stream + remaining →
          0 < (net' other).toServer := by
  induction remaining with
  | zero =>
      intro stream net idle
      exact ⟨net, .refl, idle, fun other before => rfl, by omega⟩
  | succ remaining inductionHypothesis =>
      intro stream net idle
      have still : ∀ other, (Function.update net stream
          ((net stream).clientSend packetSize) other).held = 0 :=
        held_update idle (idle stream)
      obtain ⟨net', steps, still', kept, arrived⟩ :=
        inductionHypothesis (stream + 1) _ still
      refine ⟨net', .head (step_sendPackets stream remaining net) steps, still',
        fun other before => ?_, fun other low high => ?_⟩
      · rw [kept other (by omega)]
        exact Function.update_of_ne before.ne _ _
      · rcases Nat.eq_or_lt_of_le low with rfl | above
        · rw [kept stream (Nat.lt_succ_self stream), Function.update_self]
          exact Nat.lt_of_lt_of_le positive (Nat.le_add_left _ _)
        · exact arrived other above (by omega)

private theorem steps_recvPackets (positive : 0 < packetSize)
    (remaining : Nat) :
    ∀ (stream : Nat) (net : Network), (∀ other, (net other).held = 0) →
      (∀ other, stream ≤ other → other < stream + remaining →
        0 < (net other).toServer) →
      ∃ net' : Network,
        Steps environment (recvPackets packetSize stream remaining >>= next, net)
          (next (), net') ∧
        (∀ other < stream, net' other = net other) ∧
        ∀ other, stream ≤ other → other < stream + remaining →
          1 ∈ (net' other).recvs := by
  induction remaining with
  | zero =>
      intro stream net idle arrived
      exact ⟨net, .refl, fun other before => rfl, by omega⟩
  | succ remaining inductionHypothesis =>
      intro stream net idle arrived
      obtain ⟨s, first, free, one⟩ :=
        steps_recvPackets_one positive stream remaining idle
          (arrived stream le_rfl (by omega))
      obtain ⟨net', steps, kept, ones⟩ :=
        inductionHypothesis (stream + 1) _ (held_update idle free)
          fun other low high => by
            have differs : other ≠ stream := by omega
            rw [Function.update_of_ne differs]
            exact arrived other (by omega) (by omega)
      refine ⟨net', first.trans steps, fun other before => ?_,
        fun other low high => ?_⟩
      · rw [kept other (by omega)]
        exact Function.update_of_ne before.ne _ _
      · rcases Nat.eq_or_lt_of_le low with rfl | above
        · rw [kept stream (Nat.lt_succ_self stream), Function.update_self]
          exact one
        · exact ones other above (by omega)

/-- Such a run of the first iteration. -/
private theorem steps_one_byte (numOfStreams left : Nat)
    (positive : 0 < packetSize)
    {start : Network} (idle : ∀ stream, (start stream).held = 0) :
    ∃ net : Network,
      Steps environment (iterations numOfStreams packetSize (left + 1), start)
        (iterations numOfStreams packetSize left, net) ∧
      ∀ stream < numOfStreams, 1 ∈ (net stream).recvs := by
  obtain ⟨sent, sends, still, _, arrived⟩ :=
    steps_sendPackets positive numOfStreams 0 start idle
  obtain ⟨net, receives, _, ones⟩ :=
    steps_recvPackets positive numOfStreams 0 sent still fun other low high =>
      arrived other low high
  exact ⟨net, sends.trans receives, fun stream inside =>
    ones stream (Nat.zero_le stream) (by omega)⟩

end OneByte

/-! ## Whether the bytes are conserved -/

/-- In one run the bytes are conserved exactly if every `recv` so far returned
a whole packet; in all runs, exactly if a packet is one byte.  Either way there
is nothing in flight at the start. -/
theorem throughput_conserves_iff {numOfStreams packetSize : Nat}
    {start : Network} (positive : 0 < packetSize)
    (fresh : ∀ stream, (start stream).recvs = [])
    (idle : ∀ stream, (start stream).held = 0) :
    (∀ left net,
      Steps environment (measureThroughput numOfStreams packetSize, start)
        (iterations numOfStreams packetSize left, net) →
      ((∀ stream < numOfStreams, (net stream).Conserved) ↔
        ∀ stream < numOfStreams, (start stream).Conserved ∧
          ∀ count ∈ (net stream).recvs, count = packetSize)) ∧
    ((∀ left net,
      Steps environment (measureThroughput numOfStreams packetSize, start)
        (iterations numOfStreams packetSize left, net) →
      ∀ stream < numOfStreams, (net stream).Conserved) ↔
      numOfStreams = 0 ∨
        packetSize = 1 ∧ ∀ stream < numOfStreams, (start stream).Conserved) := by
  refine ⟨fun left net steps => conserved_of_steps fresh steps, fun all => ?_,
    fun single left net steps => ?_⟩
  · rcases Nat.eq_zero_or_pos numOfStreams with none | some
    · exact Or.inl none
    · obtain ⟨net, steps, ones⟩ := steps_one_byte numOfStreams 999 positive idle
      have whole := (conserved_of_steps fresh steps).mp (all _ net steps)
      refine Or.inr ⟨?_, fun stream inside => (whole stream inside).1⟩
      exact ((whole 0 some).2 1 (ones 0 some)).symm
  · rcases single with rfl | ⟨rfl, before⟩
    · exact fun stream inside => absurd inside (Nat.not_lt_zero stream)
    · rw [conserved_of_steps fresh steps]
      intro stream inside
      obtain ⟨finished, counts⟩ :=
        (at_reached (Nat.zero_lt_of_lt inside) fresh steps).counts_of_iterations
          rfl
      have counts := counts stream inside
      exact ⟨before stream inside, fun count member =>
        Nat.le_antisymm (counts.bounded count member)
          (counts.positive count member)⟩

/-- Nothing was sent yet. -/
def connected : Network := fun _ =>
  { sent := 0
    toServer := 0
    held := 0
    toClient := 0
    received := 0
    recvs := []
    balance := rfl }

theorem throughput_conserves_iff_two :
    (∀ left net,
      Steps environment (measureThroughput 1 2, connected)
        (iterations 1 2 left, net) →
      ((∀ stream < 1, (net stream).Conserved) ↔
        ∀ stream < 1, (connected stream).Conserved ∧
          ∀ count ∈ (net stream).recvs, count = 2)) ∧
    ((∀ left net,
      Steps environment (measureThroughput 1 2, connected)
        (iterations 1 2 left, net) →
      ∀ stream < 1, (net stream).Conserved) ↔
      1 = 0 ∨ 2 = 1 ∧ ∀ stream < 1, (connected stream).Conserved) :=
  throughput_conserves_iff Nat.two_pos (fun _ => rfl) fun _ => rfl

/-- Two bytes are sent on one stream and one of them is received. -/
theorem throughput_conserves_fails :
    ∃ net, Steps environment (measureThroughput 1 2, connected)
        (iterations 1 2 999, net) ∧
      1 ∈ (net 0).recvs ∧ ¬ (net 0).Conserved := by
  obtain ⟨net, steps, ones⟩ :=
    @steps_one_byte 2 1 999 Nat.two_pos connected fun _ => rfl
  have one := ones 0 Nat.one_pos
  refine ⟨net, steps, one, fun conserved => ?_⟩
  have whole := (conserved_of_steps (fun _ => rfl) steps).mp fun stream inside => by
    obtain rfl : stream = 0 := by omega
    exact conserved
  exact absurd ((whole 0 Nat.one_pos).2 1 one) (by decide)

end RdmaKv.Ex2
