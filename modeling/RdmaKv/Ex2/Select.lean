import Mathlib

/-!
# `Server::selectPhase` of the TCP server

The server watches its welcome socket and its clients with `select`.  The
kernel gives a new client any descriptor that is not open, so the number of a
client that has left may come back.
-/

namespace RdmaKv.Ex2

def fdSetsize : Nat := 1024

/-- A descriptor is watched in a `fd_set`. -/
abbrev FdSet := Finset Nat

/-- `std::map<std::string, int>`, in the order of the keys. -/
abbrev SocketMap := List (String × Nat)

/-- The members of `Server` that `selectPhase` uses. -/
structure Server where
  welcomeSocket : Nat
  keepLoopSelect : Bool
  clientsSockets : SocketMap
  clientsFds : FdSet
  readFds : FdSet

/-- What a round does that can be seen from outside. -/
inductive Event where
  | accepted (fd : Nat)
  | echoed (fd : Nat)
  | closed (fd : Nat)
  deriving DecidableEq

/-- The server, the descriptors that are open in its process, and what has
happened since the last call of `select`. -/
structure State where
  server : Server
  opened : Finset Nat
  events : List Event

/-- How the system calls of a round end: the descriptors that `select` leaves
in `read_fds`, the descriptor of a new client, and how much a client has
sent, where 0 is the end of file. -/
structure Outcome where
  ready : FdSet
  accepted : Nat
  received : Nat → Nat

namespace SocketMap

/-- `emplace`, which leaves a key alone that is there. -/
def emplace (key : String) (fd : Nat) : SocketMap → SocketMap
  | [] => [(key, fd)]
  | (other, value) :: rest =>
      if key = other then (other, value) :: rest
      else if key < other then (key, fd) :: (other, value) :: rest
      else (other, value) :: emplace key fd rest

def erase (key : String) (sockets : SocketMap) : SocketMap :=
  sockets.filter fun client => client.1 ≠ key

end SocketMap

namespace Server

def getMaxFd (server : Server) : Nat :=
  server.clientsSockets.foldl
    (fun maxfd client => if client.2 > maxfd then client.2 else maxfd)
    server.welcomeSocket

end Server

namespace State

def echoClient (outcome : Outcome) (s : State) (clientFd : Nat) : State :=
  let s := { s with events := s.events ++ [.echoed clientFd] }
  if outcome.received clientFd = 0 then
    { server := { s.server with
        clientsFds := s.server.clientsFds.erase clientFd
        clientsSockets :=
          SocketMap.erase (Nat.repr clientFd) s.server.clientsSockets }
      opened := s.opened.erase clientFd
      events := s.events ++ [.closed clientFd] }
  else s

/-- A new client is accepted if the welcome socket is ready. -/
def welcome (outcome : Outcome) (s : State) : State :=
  if s.server.welcomeSocket ∈ s.server.readFds then
    { server := { s.server with
        clientsFds := insert outcome.accepted s.server.clientsFds
        clientsSockets := SocketMap.emplace (Nat.repr outcome.accepted)
          outcome.accepted s.server.clientsSockets }
      opened := insert outcome.accepted s.opened
      events := s.events ++ [.accepted outcome.accepted] }
  else s

def echoClients (outcome : Outcome) (clients : SocketMap) (s : State) : State :=
  clients.foldl
    (fun s client =>
      if client.2 ∈ s.server.readFds then s.echoClient outcome client.2 else s)
    s

/-- One iteration of the loop of `selectPhase`. -/
def iterate (outcome : Outcome) (s : State) : State :=
  let s := { s with
    server := { s.server with readFds := outcome.ready }
    events := [] }
  if outcome.ready = ∅ then
    if s.server.clientsSockets.isEmpty then
      { s with server := { s.server with keepLoopSelect := false } }
    else s
  else
    let s := s.welcome outcome
    s.echoClients outcome s.server.clientsSockets

/-- What the kernel may do: `select` reports watched descriptors, and a new
client gets a descriptor that is not open and that a `fd_set` can hold. -/
structure Permits (s : State) (outcome : Outcome) : Prop where
  watched : outcome.ready ⊆ s.server.clientsFds
  fresh : s.server.welcomeSocket ∈ outcome.ready →
    outcome.accepted ∉ s.opened ∧ outcome.accepted < fdSetsize

/-- The state in which `selectPhase` enters its loop. -/
structure Starts (s : State) : Prop where
  clients : s.server.clientsSockets = []
  watched : s.server.clientsFds = {s.server.welcomeSocket}
  isOpen : s.server.welcomeSocket ∈ s.opened

inductive Reached (start : State) : State → Prop
  | start : Reached start start
  | iterated {s : State} {outcome : Outcome} (reached : Reached start s)
      (loops : s.server.keepLoopSelect = true) (permits : s.Permits outcome) :
      Reached start (s.iterate outcome)

/-- The books agree with each other and with the kernel. -/
structure Books (s : State) : Prop where
  watched : ∀ fd, fd ∈ s.server.clientsFds ↔
    fd = s.server.welcomeSocket ∨
      fd ∈ s.server.clientsSockets.map Prod.snd
  named : ∀ client ∈ s.server.clientsSockets, client.1 = Nat.repr client.2
  once : (s.server.clientsSockets.map Prod.snd).Nodup
  apart : s.server.welcomeSocket ∉ s.server.clientsSockets.map Prod.snd
  isOpen : ∀ fd ∈ s.server.clientsFds, fd ∈ s.opened

/-- In the next round `echoClient` is called once for each client that is
ready and for nobody else, and not for one that was accepted or closed before
in this round. -/
structure EchoesOnce (s : State) (outcome : Outcome) : Prop where
  count : ∀ fd, (s.iterate outcome).events.count (.echoed fd) =
    if fd ∈ outcome.ready ∧ fd ≠ s.server.welcomeSocket then 1 else 0
  turn : ∀ before fd after,
    (s.iterate outcome).events = before ++ .echoed fd :: after →
      .accepted fd ∉ before ∧ .closed fd ∉ before

end State

/-! ## The map of the clients -/

namespace SocketMap

variable {key : String} {fd : Nat} {sockets : SocketMap}

private theorem emplace_perm (fresh : key ∉ sockets.map Prod.fst) :
    (sockets.emplace key fd).Perm ((key, fd) :: sockets) := by
  induction sockets with
  | nil => exact List.Perm.refl _
  | cons client rest inductionHypothesis =>
      obtain ⟨other, value⟩ := client
      simp only [List.map_cons, List.mem_cons, not_or] at fresh
      rw [emplace, if_neg fresh.1]
      split
      · exact List.Perm.refl _
      · exact ((inductionHypothesis fresh.2).cons _).trans (List.Perm.swap ..)

/-- The entry of a descriptor goes, and no other one. -/
private theorem map_erase
    (named : ∀ client ∈ sockets, client.1 = Nat.repr client.2) :
    (sockets.erase (Nat.repr fd)).map Prod.snd =
      (sockets.map Prod.snd).filter fun other => other ≠ fd := by
  rw [List.filter_map, erase]
  refine congrArg _ (List.filter_congr fun client member => ?_)
  simp [named client member, Nat.repr_inj]

end SocketMap

namespace State

variable {s : State} {outcome : Outcome}

/-! ## The steps of a round -/

theorem Starts.books (starts : s.Starts) : s.Books := by
  obtain ⟨clients, watched, isOpen⟩ := starts
  refine ⟨?_, ?_, ?_, ?_, ?_⟩
  · simp [clients, watched]
  · simp [clients]
  · simp [clients]
  · simp [clients]
  · simpa [watched] using isOpen

theorem Books.key_fresh (books : s.Books) {fd : Nat} (closed : fd ∉ s.opened) :
    Nat.repr fd ∉ s.server.clientsSockets.map Prod.fst := by
  intro member
  obtain ⟨client, isClient, isKey⟩ := List.mem_map.mp member
  have same : client.2 = fd :=
    Nat.repr_inj.mp ((books.named client isClient).symm.trans isKey)
  refine closed (books.isOpen fd ((books.watched fd).mpr (Or.inr ?_)))
  exact List.mem_map.mpr ⟨client, isClient, same⟩

theorem Books.welcome (books : s.Books)
    (fresh : s.server.welcomeSocket ∈ s.server.readFds →
      outcome.accepted ∉ s.opened) : (s.welcome outcome).Books := by
  unfold State.welcome
  split
  · rename_i isReady
    have closed := fresh isReady
    have perm := @SocketMap.emplace_perm _ outcome.accepted _
      (books.key_fresh closed)
    have fds := perm.map Prod.snd
    have absent : outcome.accepted ∉
        s.server.clientsSockets.map Prod.snd := fun member =>
      closed (books.isOpen _ ((books.watched _).mpr (Or.inr member)))
    have other : outcome.accepted ≠ s.server.welcomeSocket := fun same =>
      closed (same ▸ books.isOpen _ ((books.watched _).mpr (Or.inl rfl)))
    refine ⟨fun fd => ?_, fun client member => ?_, ?_, ?_, fun fd member => ?_⟩
    · rw [fds.mem_iff, Finset.mem_insert, books.watched, List.map_cons,
        List.mem_cons]
      exact or_left_comm
    · rcases List.mem_cons.mp (perm.mem_iff.mp member) with rfl | old
      · rfl
      · exact books.named client old
    · exact fds.nodup_iff.mpr (List.nodup_cons.mpr ⟨absent, books.once⟩)
    · rw [fds.mem_iff, List.map_cons, List.mem_cons, not_or]
      exact ⟨other.symm, books.apart⟩
    · rcases Finset.mem_insert.mp member with rfl | old
      · exact Finset.mem_insert_self _ _
      · exact Finset.mem_insert_of_mem (books.isOpen fd old)
  · exact books

theorem Books.echoClient (books : s.Books) {fd : Nat}
    (other : fd ≠ s.server.welcomeSocket) :
    (s.echoClient outcome fd).Books := by
  unfold State.echoClient
  simp only
  split
  · have fds := @SocketMap.map_erase fd _ books.named
    refine ⟨fun fd' => ?_, fun client member => ?_, ?_, ?_,
      fun fd' member => ?_⟩
    · rw [fds, Finset.mem_erase, books.watched, List.mem_filter,
        decide_eq_true_eq]
      constructor
      · rintro ⟨different, rfl | old⟩
        · exact Or.inl rfl
        · exact Or.inr ⟨old, different⟩
      · rintro (rfl | ⟨old, different⟩)
        · exact ⟨other.symm, Or.inl rfl⟩
        · exact ⟨different, Or.inr old⟩
    · exact books.named client (List.mem_of_mem_filter member)
    · rw [fds]
      exact books.once.filter _
    · rw [fds]
      exact fun member => books.apart (List.mem_of_mem_filter member)
    · obtain ⟨different, old⟩ := Finset.mem_erase.mp member
      exact Finset.mem_erase.mpr ⟨different, books.isOpen fd' old⟩
  · exact ⟨books.watched, books.named, books.once, books.apart, books.isOpen⟩

@[simp]
theorem readFds_echoClient (s : State) (fd : Nat) :
    (s.echoClient outcome fd).server.readFds = s.server.readFds := by
  unfold State.echoClient
  simp only
  split <;> rfl

@[simp]
theorem welcomeSocket_echoClient (s : State) (fd : Nat) :
    (s.echoClient outcome fd).server.welcomeSocket =
      s.server.welcomeSocket := by
  unfold State.echoClient
  simp only
  split <;> rfl

theorem Books.echoClients (books : s.Books) {clients : SocketMap}
    (apart : s.server.welcomeSocket ∉ clients.map Prod.snd) :
    (s.echoClients outcome clients).Books := by
  unfold State.echoClients
  induction clients generalizing s with
  | nil => exact books
  | cons client rest inductionHypothesis =>
      rw [List.map_cons, List.mem_cons, not_or] at apart
      rw [List.foldl_cons]
      split
      · refine inductionHypothesis (books.echoClient (Ne.symm apart.1)) ?_
        rw [welcomeSocket_echoClient]
        exact apart.2
      · exact inductionHypothesis books apart.2

/-- One iteration keeps the books. -/
theorem Books.iterate (books : s.Books) (permits : s.Permits outcome) :
    (s.iterate outcome).Books := by
  have starts : State.Books { s with
      server := { s.server with readFds := outcome.ready }
      events := [] } :=
    ⟨books.watched, books.named, books.once, books.apart, books.isOpen⟩
  unfold State.iterate
  simp only
  split
  · split
    · exact ⟨books.watched, books.named, books.once, books.apart, books.isOpen⟩
    · exact starts
  · have welcomed := starts.welcome fun isReady =>
      (permits.fresh isReady).1
    exact welcomed.echoClients welcomed.apart

/-! ## The events of a round -/

/-- What `echoClient` does for one client. -/
def Outcome.events (outcome : Outcome) (fd : Nat) : List Event :=
  if outcome.received fd = 0 then [.echoed fd, .closed fd] else [.echoed fd]

private theorem events_echoClient (s : State) (fd : Nat) :
    (s.echoClient outcome fd).events = s.events ++ Outcome.events outcome fd := by
  unfold State.echoClient Outcome.events
  simp only
  split
  · exact List.append_assoc ..
  · rfl

private theorem events_echoClients (s : State) (clients : SocketMap) :
    (s.echoClients outcome clients).events = s.events ++
      ((clients.map Prod.snd).filter fun fd => fd ∈ s.server.readFds).flatMap
        (Outcome.events outcome) := by
  unfold State.echoClients
  induction clients generalizing s with
  | nil => exact (List.append_nil _).symm
  | cons client rest inductionHypothesis =>
      rw [List.foldl_cons, inductionHypothesis]
      split
      · rename_i isReady
        rw [readFds_echoClient, events_echoClient, List.map_cons,
          List.filter_cons_of_pos (by simpa using isReady), List.flatMap_cons,
          List.append_assoc]
      · rename_i notReady
        rw [List.map_cons, List.filter_cons_of_neg (by simpa using notReady)]

/-- The clients that are served in a round. -/
def served (s : State) (outcome : Outcome) : List Nat :=
  (s.server.clientsSockets.map Prod.snd).filter fun fd => fd ∈ outcome.ready

/-- A new client is not served in the round in which it is accepted. -/
private theorem events_iterate (books : s.Books) (permits : s.Permits outcome) :
    ∃ fds : List Nat, (s.iterate outcome).events =
        (if s.server.welcomeSocket ∈ outcome.ready then
          [.accepted outcome.accepted] else []) ++
          fds.flatMap (Outcome.events outcome) ∧
      fds.Perm (s.served outcome) := by
  have fresh : s.server.welcomeSocket ∈ outcome.ready →
      outcome.accepted ∉ outcome.ready := fun isReady member =>
    (permits.fresh isReady).1 (books.isOpen _ (permits.watched member))
  unfold State.iterate
  simp only
  split
  · rename_i empty
    refine ⟨[], ?_, ?_⟩
    · split <;> simp [empty]
    · simp [served, empty]
  · rw [events_echoClients]
    unfold State.welcome
    simp only
    split
    · rename_i isReady
      refine ⟨_, rfl, ?_⟩
      have perm := (@SocketMap.emplace_perm _ outcome.accepted _
        (books.key_fresh (permits.fresh isReady).1)).map Prod.snd
      refine (perm.filter _).trans ?_
      rw [List.map_cons, List.filter_cons_of_neg (by simpa using fresh isReady)]
      exact List.Perm.refl _
    · exact ⟨_, rfl, List.Perm.refl _⟩

private theorem echoed_mem_events {fd other : Nat} :
    Event.echoed fd ∈ Outcome.events outcome other ↔ fd = other := by
  unfold Outcome.events
  split <;> simp

private theorem count_served (fds : List Nat) (fd : Nat) :
    (fds.flatMap (Outcome.events outcome)).count (.echoed fd) =
      fds.count fd := by
  induction fds with
  | nil => rfl
  | cons first rest inductionHypothesis =>
      rw [List.flatMap_cons, List.count_append, inductionHypothesis,
        List.count_cons, Nat.add_comm]
      congr 1
      unfold Outcome.events
      split <;> simp [List.count_cons]

/-- The clients that `select` has reported are served once. -/
theorem Books.count_served (books : s.Books) (permits : s.Permits outcome)
    (fd : Nat) : (s.served outcome).count fd =
      if fd ∈ outcome.ready ∧ fd ≠ s.server.welcomeSocket then 1 else 0 := by
  have once : (s.served outcome).Nodup := books.once.filter _
  have member : fd ∈ s.served outcome ↔
      fd ∈ outcome.ready ∧ fd ≠ s.server.welcomeSocket := by
    rw [served, List.mem_filter, decide_eq_true_eq]
    constructor
    · rintro ⟨isClient, isReady⟩
      exact ⟨isReady, fun same => books.apart (same ▸ isClient)⟩
    · rintro ⟨isReady, other⟩
      have watched := (books.watched fd).mp (permits.watched isReady)
      exact ⟨watched.resolve_left other, isReady⟩
  split
  · rename_i isServed
    exact List.count_eq_one_of_mem once (member.mpr isServed)
  · rename_i notServed
    exact List.count_eq_zero_of_not_mem fun isServed =>
      notServed (member.mp isServed)

/-- An echo comes before the client is closed, and not after it was
accepted. -/
def Ordered (first second : Event) : Prop :=
  ∀ fd, second = .echoed fd → first ≠ .accepted fd ∧ first ≠ .closed fd

theorem Books.events_ordered (books : s.Books) (permits : s.Permits outcome) :
    (s.iterate outcome).events.Pairwise Ordered := by
  obtain ⟨fds, events, perm⟩ := events_iterate books permits
  have once : fds.Nodup := perm.nodup_iff.mpr (books.once.filter _)
  rw [events]
  refine List.pairwise_append.mpr ⟨?_, ?_, ?_⟩
  · split
    · exact List.pairwise_singleton _ _
    · exact List.Pairwise.nil
  · refine List.pairwise_flatMap.mpr ⟨fun fd _ => ?_, once.imp ?_⟩
    · unfold Outcome.events
      split
      · simp [Ordered]
      · exact List.pairwise_singleton _ _
    · intro first second different event isFirst other isSecond fd isEcho
      subst isEcho
      obtain rfl := echoed_mem_events.mp isSecond
      unfold Outcome.events at isFirst
      split at isFirst <;> simp at isFirst
      · rcases isFirst with rfl | rfl
        · simp
        · simpa using different
      · simp [isFirst]
  · intro event isFirst other isSecond fd isEcho
    subst isEcho
    obtain ⟨served, isServed, isEvent⟩ := List.mem_flatMap.mp isSecond
    obtain rfl := echoed_mem_events.mp isEvent
    split at isFirst
    · rename_i isReady
      rw [List.mem_singleton.mp isFirst]
      have ready : fd ∈ outcome.ready := by
        have inServed := perm.mem_iff.mp isServed
        simpa using (List.mem_filter.mp inServed).2
      have other : outcome.accepted ≠ fd := fun same =>
        (permits.fresh isReady).1
          (books.isOpen _ (permits.watched (same ▸ ready)))
      simpa using other
    · exact absurd isFirst List.not_mem_nil

theorem Books.echoesOnce (books : s.Books) (permits : s.Permits outcome) :
    s.EchoesOnce outcome := by
  refine ⟨fun fd => ?_, fun before fd after split => ?_⟩
  · obtain ⟨fds, events, perm⟩ := events_iterate books permits
    rw [events, List.count_append, State.count_served, perm.count_eq,
      books.count_served permits]
    split <;> simp
  · have ordered := books.events_ordered permits
    rw [split] at ordered
    have turns := (List.pairwise_append.mp ordered).2.2
    exact ⟨fun member => (turns _ member _ List.mem_cons_self fd rfl).1 rfl,
      fun member => (turns _ member _ List.mem_cons_self fd rfl).2 rfl⟩

/-! ## The head of the loop -/

private theorem maxFd_spec (sockets : SocketMap) (start : Nat) :
    let greatest := sockets.foldl
      (fun maxfd client => if client.2 > maxfd then client.2 else maxfd) start
    (greatest = start ∨ greatest ∈ sockets.map Prod.snd) ∧ start ≤ greatest ∧
      ∀ fd ∈ sockets.map Prod.snd, fd ≤ greatest := by
  induction sockets generalizing start with
  | nil => simp
  | cons client rest inductionHypothesis =>
      simp only [List.foldl_cons, List.map_cons, List.mem_cons]
      obtain ⟨isOne, above, greatest⟩ := inductionHypothesis
        (if client.2 > start then client.2 else start)
      refine ⟨?_, ?_, ?_⟩
      · rcases isOne with same | inside
        · split at same
          · exact Or.inr (Or.inl (by rwa [if_pos ‹_›]))
          · exact Or.inl (by rwa [if_neg ‹_›])
        · exact Or.inr (Or.inr inside)
      · refine Nat.le_trans ?_ above
        split <;> omega
      · rintro fd (rfl | inside)
        · refine Nat.le_trans ?_ above
          split <;> omega
        · exact greatest fd inside

theorem Books.maxFd (books : s.Books) :
    s.server.getMaxFd ∈ s.server.clientsFds ∧
      ∀ fd ∈ s.server.clientsFds, fd ≤ s.server.getMaxFd := by
  obtain ⟨isOne, above, greatest⟩ :=
    maxFd_spec s.server.clientsSockets s.server.welcomeSocket
  refine ⟨(books.watched _).mpr isOne, fun fd member => ?_⟩
  rcases (books.watched fd).mp member with rfl | client
  · exact above
  · exact greatest fd client

theorem Reached.books {start : State} (starts : start.Starts)
    (reached : Reached start s) : s.Books := by
  induction reached with
  | start => exact starts.books
  | iterated _ _ permits inductionHypothesis =>
      exact inductionHypothesis.iterate permits

/-- Whatever `select` reports and whoever comes and goes: at the head of the
loop the watched descriptors are the welcome socket and the clients, they are
open, `getMaxFd` is their maximum, the keys are their numbers, and the next
round serves the clients that are ready, once each. -/
theorem selectPhase_books {start : State} (starts : start.Starts)
    (reached : Reached start s) :
    s.server.clientsFds = insert s.server.welcomeSocket
        (s.server.clientsSockets.map Prod.snd).toFinset ∧
      (∀ client ∈ s.server.clientsSockets, client.1 = Nat.repr client.2) ∧
      (s.server.getMaxFd ∈ s.server.clientsFds ∧
        ∀ fd ∈ s.server.clientsFds, fd ≤ s.server.getMaxFd) ∧
      (∀ fd ∈ s.server.clientsFds, fd ∈ s.opened) ∧
      ∀ outcome, s.Permits outcome → s.EchoesOnce outcome := by
  have books := reached.books starts
  refine ⟨?_, books.named, books.maxFd, books.isOpen,
    fun outcome permits => books.echoesOnce permits⟩
  ext fd
  rw [books.watched, Finset.mem_insert, List.mem_toFinset]

/-- A client comes, sends something and leaves, and another one gets its
descriptor. -/
def started : State where
  server := ⟨3, true, [], {3}, ∅⟩
  opened := {0, 1, 2, 3}
  events := []

def comes : Outcome := ⟨{3}, 4, fun _ => 1⟩

def leaves : Outcome := ⟨{4}, 4, fun _ => 0⟩

theorem selectPhase_books_again :
    (∃ s, Reached started s ∧ s.server.clientsSockets = [("4", 4)]) ∧
      ∀ fd ∈ (((started.iterate comes).iterate leaves).iterate
        comes).server.clientsFds,
        fd ∈ (((started.iterate comes).iterate leaves).iterate comes).opened := by
  have starts : started.Starts := ⟨rfl, rfl, by decide⟩
  have reached : Reached started
      (((started.iterate comes).iterate leaves).iterate comes) := by
    refine .iterated (.iterated (.iterated .start rfl ?_) ?_ ?_) ?_ ?_
    · exact ⟨by decide, fun _ => ⟨by decide, by decide⟩⟩
    · decide
    · exact ⟨by decide, fun isReady => absurd isReady (by decide)⟩
    · decide
    · exact ⟨by decide, fun _ => ⟨by decide, by decide⟩⟩
  exact ⟨⟨_, reached, by decide⟩, (selectPhase_books starts reached).2.2.2.1⟩

end State

end RdmaKv.Ex2
