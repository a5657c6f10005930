import RdmaKv.Ex2.PerfServer

/-!
# The InfiniBand client with its server

Each program runs as in its own model.  A message arrives after it was posted,
and its send is completed after it has arrived.  When a program ends, its queue
pair is gone, and what it has sent may be lost.  The client never waits for
ever; the server may.

All completions succeed.  A send of the server may also fail, when the client
has ended before the message arrives; then `pp_wait_completions` returns 1,
which `main` does not look at, and the server may end with fewer messages than
`done_delivered` says.  Such runs are left out: here the message of a program
whose peer has ended is never completed.
-/

namespace RdmaKv.Ex2.PerfSession

open Relation SendWindow PerfServer

def ClientEnded (client : SendState) : Prop :=
  ∃ status, client.point = .ended status

/-- What the queue pairs have done with each other's messages. -/
structure Link (client : SendState) (server : ServerState) : Prop where
  delivered_le : server.delivered ≤ client.posted
  completed_le : client.posted - client.inFlight ≤ server.delivered
  sent : 1 ≤ client.due + server.sends + server.completed
  own_le : server.completed + client.due ≤ 1

/-- The two programs, as long as all completions succeed. -/
structure Session where
  client : SendState
  server : ServerState
  link : Link client server

def start (iters txDepth rxDepth : Nat) : Session :=
  ⟨SendWindow.start iters txDepth, PerfServer.start rxDepth,
    ⟨le_rfl, le_rfl, le_rfl, le_rfl⟩⟩

/-- One of the programs or its queue pair goes on. -/
inductive Step (iters txDepth rxDepth : Nat) : Session → Session → Prop
  | client {s s' : Session} (running : ¬ClientEnded s.client)
      (step : SendWindow.Step iters txDepth s.client s'.client)
      (same : s'.server = s.server) : Step iters txDepth rxDepth s s'
  | server {s s' : Session}
      (step : PerfServer.Step iters rxDepth (iters + 1) s.server s'.server)
      (same : s'.client = s.client) : Step iters txDepth rxDepth s s'

/-- The states that both get to, whatever happens when. -/
def Reached (iters txDepth rxDepth : Nat) (s : Session) : Prop :=
  ReflTransGen (Step iters txDepth rxDepth) (start iters txDepth rxDepth) s

/-- Nothing more has to happen.  At most, a message arrives that an ended
program has sent. -/
def Idle (iters txDepth rxDepth : Nat) (s : Session) : Prop :=
  ∀ s', Step iters txDepth rxDepth s s' →
    ClientEnded s.client ∧ s.server.delivered < s'.server.delivered ∨
      s.server.point.Ended ∧ s'.client.due < s.client.due

variable {iters txDepth rxDepth : Nat} {s s' : Session}

/-! ## Each program runs as alone -/

theorem Reached.client (reached : Reached iters txDepth rxDepth s) :
    SendWindow.Reached iters txDepth s.client := by
  induction reached with
  | refl => exact .refl
  | tail _ step inductionHypothesis =>
      cases step with
      | client running step same => exact inductionHypothesis.tail step
      | server step same =>
          rw [same]
          exact inductionHypothesis

theorem Reached.server (reached : Reached iters txDepth rxDepth s) :
    PerfServer.Reached iters rxDepth (iters + 1) s.server := by
  induction reached with
  | refl => exact .refl
  | tail _ step inductionHypothesis =>
      cases step with
      | client running step same =>
          rw [same]
          exact inductionHypothesis
      | server step same => exact inductionHypothesis.tail step

/-! ## What has arrived -/

/-- An ended server has polled `iters + 1` completions, one of which may be of
its own message. -/
private theorem iters_le_delivered {total : Nat} {server : ServerState}
    (accounts : PerfServer.Accounts iters rxDepth total server)
    (ended : server.point.Ended) : iters ≤ server.delivered := by
  have balance := accounts.balance
  have own := accounts.own
  have place := accounts.place
  cases isPoint : server.point with
  | post | first _ | second _ _ =>
      rw [isPoint] at ended
      exact ended.elim
  | ended before counted =>
      rw [isPoint] at balance place own
      rw [if_neg (by simp)] at own
      simp only [ServerPoint.polled, PerfServer.Place] at balance place
      omega

private theorem length_pos_of_mem_polls {client : SendState}
    (reached : SendWindow.Reached iters txDepth client) {batch : List Completion}
    (member : batch ∈ client.polls) : 1 ≤ batch.length := by
  induction reached with
  | refl => cases member
  | tail _ step inductionHypothesis =>
      cases step with
      | polled point more returned nonempty few =>
          rcases List.mem_append.1 member with earlier | last
          · exact inductionHypothesis earlier
          · rw [List.mem_singleton.1 last]
            exact nonempty
      | posted point => exact inductionHypothesis member
      | refused point full => exact inductionHypothesis member
      | waited point enough => exact inductionHypothesis member
      | completed sending => exact inductionHypothesis member
      | arrived coming => exact inductionHypothesis member

/-- The waits of a client that is done have polled this many sends. -/
private theorem le_sendNumbers_polled {client : SendState}
    (looping : 1 ≤ iters) (positive : 1 ≤ txDepth)
    (reached : SendWindow.Reached iters txDepth client)
    (ended : client.point = .ended 0) :
    iters - sinceWait iters txDepth iters ≤
      (sendNumbers client.polled).length := by
  have accounts := reached.accounts looping positive
  have place := accounts.place
  rw [ended] at place
  obtain ⟨_, earlier, last, isPolls, _, enough⟩ := place
  have single := accounts.count_recv_le
  have all := length_sendNumbers client.polled
  have isPolled : client.polled.length =
      earlier.flatten.length + last.length := by
    rw [SendState.polled, isPolls, List.flatten_append, List.length_append,
      List.flatten_singleton]
  have filled : 1 ≤ last.length := by
    apply length_pos_of_mem_polls reached
    rw [isPolls]
    exact List.mem_append_right earlier (List.mem_singleton_self last)
  omega

/-- When all completions succeed: once the client is done, the messages that it
has waited for are all with the server; once the server is done, as many as the
loop posts have arrived. -/
theorem done_delivered (looping : 1 ≤ iters) (positive : 1 ≤ txDepth)
    (reached : Reached iters txDepth rxDepth s) :
    (s.client.point = .ended 0 →
        iters - sinceWait iters txDepth iters ≤ s.server.delivered) ∧
      (s.server.point.Ended →
        iters ≤ s.server.delivered ∧ iters ≤ s.client.posted) := by
  have accounts := reached.client.accounts looping positive
  constructor
  · intro ended
    have polled := le_sendNumbers_polled looping positive reached.client ended
    have completed := accounts.sendNumbers_polled.2
    have arrived := s.link.completed_le
    omega
  · intro ended
    have arrived := iters_le_delivered reached.server.accounts ended
    exact ⟨arrived, arrived.trans s.link.delivered_le⟩

theorem Reached.client_step {client : SendState}
    (reached : Reached iters txDepth rxDepth s) (running : ¬ClientEnded s.client)
    (step : SendWindow.Step iters txDepth s.client client)
    (link : Link client s.server) :
    Reached iters txDepth rxDepth ⟨client, s.server, link⟩ :=
  reached.tail (.client running step rfl)

theorem Reached.server_step {server : ServerState}
    (reached : Reached iters txDepth rxDepth s)
    (step : PerfServer.Step iters rxDepth (iters + 1) s.server server)
    (link : Link s.client server) :
    Reached iters txDepth rxDepth ⟨s.client, server, link⟩ :=
  reached.tail (.server step rfl)

/-- A loop of one message.  Both programs are done before the client polls its
second send, and the server's own message never arrives. -/
private theorem exists_reached_both :
    ∃ s, Reached 1 1 2 s ∧ s.client.point = .ended 0 ∧
      s.server.point.Ended := by
  have reached : Reached 1 1 2 (start 1 1 2) := .refl
  have few : [Completion.recv].length ≤ wcBatch := Nat.le_add_left 1 9
  -- the client posts both messages, the server its own
  have posted := reached.client_step nofun (.posted rfl)
    ⟨by decide, by decide, by decide, by decide⟩
  have latency := posted.client_step nofun (.posted rfl)
    ⟨by decide, by decide, by decide, by decide⟩
  have started := latency.server_step (.posted rfl)
    ⟨by decide, by decide, by decide, by decide⟩
  -- the server takes the two receives
  have arrived := started.server_step (.arrived id (by decide) rfl)
    ⟨by decide, by decide, by decide, by decide⟩
  have polled := arrived.server_step
    (@PerfServer.Step.polled 1 2 2 _ [.recv] [] Nat.zero_lt_one rfl le_rfl few)
    ⟨by decide, by decide, by decide, by decide⟩
  have waited := polled.server_step (.waited (le_refl 1))
    ⟨by decide, by decide, by decide, by decide⟩
  have arrived := waited.server_step (.arrived id (by decide) rfl)
    ⟨by decide, by decide, by decide, by decide⟩
  have polled := arrived.server_step
    (@PerfServer.Step.polled 1 2 2 _ [.recv] [] Nat.zero_lt_one rfl le_rfl few)
    ⟨by decide, by decide, by decide, by decide⟩
  have served := polled.server_step (.waited (le_refl 1))
    ⟨by decide, by decide, by decide, by decide⟩
  -- the client takes the completion of its first send
  have completed := served.client_step nofun (.completed rfl)
    ⟨by decide, by decide, by decide, by decide⟩
  have polled := completed.client_step nofun
    (@SendWindow.Step.polled 1 1 _ 1 0 2 [.send 0] [] rfl Nat.zero_lt_one rfl
      le_rfl few)
    ⟨by decide, by decide, by decide, by decide⟩
  have ended := polled.client_step nofun (.waited rfl (le_refl 1))
    ⟨by decide, by decide, by decide, by decide⟩
  exact ⟨_, ended, rfl, trivial⟩

theorem done_delivered_both :
    ∃ s, Reached 1 1 2 s ∧ s.client.point = .ended 0 ∧ s.server.point.Ended ∧
      1 - sinceWait 1 1 1 ≤ s.server.delivered ∧
      1 ≤ s.server.delivered ∧ 1 ≤ s.client.posted := by
  obtain ⟨s, reached, clientEnded, serverEnded⟩ := exists_reached_both
  obtain ⟨polled, arrived⟩ := done_delivered le_rfl le_rfl reached
  exact ⟨s, reached, clientEnded, serverEnded, polled clientEnded,
    arrived serverEnded⟩

/-! ## Nothing is waited for for ever -/

theorem Idle.no_client_step (idle : Idle iters txDepth rxDepth s)
    (running : ¬ClientEnded s.client) {client : SendState}
    (step : SendWindow.Step iters txDepth s.client client)
    (link : Link client s.server) :
    s.server.point.Ended ∧ client.due < s.client.due := by
  have next : Step iters txDepth rxDepth s ⟨client, s.server, link⟩ :=
    .client running step rfl
  exact (idle _ next).resolve_left fun ended => running ended.1

theorem Idle.no_server_step (idle : Idle iters txDepth rxDepth s)
    {server : ServerState}
    (step : PerfServer.Step iters rxDepth (iters + 1) s.server server)
    (link : Link s.client server) :
    ClientEnded s.client ∧ s.server.delivered < server.delivered := by
  have next : Step iters txDepth rxDepth s ⟨s.client, server, link⟩ :=
    .server step rfl
  exact (idle _ next).resolve_right fun due => lt_irrefl _ due.2

/-- The client stands in a wait for which no completion is in the queue. -/
theorem Idle.client_waits (idle : Idle iters txDepth rxDepth s)
    (running : ¬ClientEnded s.client) :
    (∃ n counted i, s.client.point = .wait n counted i ∧ counted < n) ∧
      s.client.cq = [] := by
  have same {client : SendState}
      (step : SendWindow.Step iters txDepth s.client client)
      (link : Link client s.server) (due : client.due = s.client.due) :
      False :=
    (idle.no_client_step running step link).2.ne due
  obtain ⟨delivered_le, completed_le, sent, own_le⟩ := s.link
  cases isPoint : s.client.point with
  | post i =>
      refine (same (.posted isPoint) ⟨?_, ?_, sent, own_le⟩ rfl).elim
      · exact Nat.le_succ_of_le delivered_le
      · simp only [Nat.add_sub_add_right]
        exact completed_le
  | wait n counted i =>
      have more : counted < n := by
        by_contra enough
        exact same (.waited isPoint (Nat.le_of_not_lt enough))
          ⟨delivered_le, completed_le, sent, own_le⟩ rfl
      refine ⟨⟨n, counted, i, rfl, more⟩, ?_⟩
      cases isCq : s.client.cq with
      | nil => rfl
      | cons completion later =>
          have split : s.client.cq = [completion] ++ later := isCq
          have few : [completion].length ≤ wcBatch := Nat.le_add_left 1 9
          exact (same (.polled isPoint more split le_rfl few)
            ⟨delivered_le, completed_le, sent, own_le⟩ rfl).elim
  | ended status => exact absurd ⟨status, isPoint⟩ running

/-- All sends whose messages have arrived are completed. -/
theorem Idle.completed_eq (idle : Idle iters txDepth rxDepth s)
    (running : ¬ClientEnded s.client)
    (accounts : SendWindow.Accounts iters txDepth s.client) :
    s.client.posted - s.client.inFlight = s.server.delivered := by
  obtain ⟨delivered_le, completed_le, sent, own_le⟩ := s.link
  have inFlight_le := accounts.inFlight_le
  by_contra other
  obtain ⟨left, sending⟩ : ∃ left, s.client.inFlight = left + 1 :=
    ⟨s.client.inFlight - 1, by omega⟩
  have link : Link { s.client with
      inFlight := left
      cq := s.client.cq ++ [.send (s.client.posted - s.client.inFlight)] }
      s.server :=
    ⟨delivered_le, by simp only; omega, sent, own_le⟩
  exact lt_irrefl _ (idle.no_client_step running (.completed sending) link).2

/-- A server that goes on no more stands in a wait, and every message of a
client that still runs has arrived. -/
theorem Idle.server_waits (idle : Idle iters txDepth rxDepth s)
    (accounts : PerfServer.Accounts iters rxDepth (iters + 1) s.server)
    (positive : 1 ≤ rxDepth) (running : ¬s.server.point.Ended) :
    s.server.point.Waits iters ∧ s.server.cq = [] ∧
      (s.server.completed = 1 ∨ s.client.due = 1) ∧
      (¬ClientEnded s.client → s.client.posted ≤ iters + 1 →
        s.server.delivered = s.client.posted) := by
  have same {server : ServerState}
      (step : PerfServer.Step iters rxDepth (iters + 1) s.server server)
      (link : Link s.client server)
      (delivered : server.delivered = s.server.delivered) : False :=
    (idle.no_server_step step link).2.ne' delivered
  obtain ⟨delivered_le, completed_le, sent, own_le⟩ := s.link
  have started : s.server.point ≠ .post := by
    intro point
    exact same (.posted point)
      ⟨delivered_le, completed_le, by simp only; omega, own_le⟩ rfl
  have waits : s.server.point.Waits iters := by
    apply ServerPoint.waits_of_running running started
    intro satisfied
    exact same (.waited satisfied)
      ⟨delivered_le, completed_le, sent, own_le⟩ rfl
  have empty : s.server.cq = [] := by
    cases isCq : s.server.cq with
    | nil => rfl
    | cons completion later =>
        obtain ⟨point, credits, polled⟩ :=
          @Step.polled_of_cons iters rxDepth (iters + 1) s.server _ _ waits isCq
        exact (same polled ⟨delivered_le, completed_le, sent, own_le⟩ rfl).elim
  have own := accounts.own
  rw [if_neg started] at own
  refine ⟨waits, empty, ?_, ?_⟩
  · by_contra other
    have sending : s.server.sends = 1 := by omega
    exact same (.completed running sending)
      ⟨delivered_le, completed_le, by simp only; omega, by simp only; omega⟩
      rfl
  · intro clientRuns within
    by_contra more
    obtain ⟨left, ready⟩ := accounts.receive_posted positive empty
    have arrived := idle.no_server_step
      (.arrived running (by omega) ready)
      ⟨by simp only; omega, by simp only; omega, sent, own_le⟩
    exact clientRuns arrived.1

/-- The message of a server that still runs has arrived. -/
theorem Idle.due_eq_zero (idle : Idle iters txDepth rxDepth s)
    (accounts : PerfServer.Accounts iters rxDepth (iters + 1) s.server)
    (waits : s.server.point.Waits iters) (running : ¬ClientEnded s.client)
    (serverRuns : ¬s.server.point.Ended) : s.client.due = 0 := by
  obtain ⟨delivered_le, completed_le, sent, own_le⟩ := s.link
  have own := accounts.own
  rw [if_neg waits.ne_post] at own
  by_contra other
  obtain ⟨left, coming⟩ := Nat.exists_eq_succ_of_ne_zero other
  have link : Link { s.client with
      due := left
      cq := s.client.cq ++ [.recv] } s.server :=
    ⟨delivered_le, completed_le, by simp only; omega, by simp only; omega⟩
  exact serverRuns (idle.no_client_step running (.arrived coming) link).1

/-- No wait is for the latency message: it is left when all others are
completed. -/
private theorem completed_lt_of_wait {client : SendState} {n counted i : Nat}
    (accounts : SendWindow.Accounts iters txDepth client) (looping : 1 ≤ iters)
    (point : client.point = .wait n counted i) (more : counted < n)
    (empty : client.cq = []) :
    client.posted - client.inFlight < iters ∧ client.posted ≤ iters + 1 := by
  have outstanding := accounts.outstanding_eq_inFlight empty
  have completed := accounts.sendNumbers_polled.2
  have inFlight_le := accounts.inFlight_le
  rw [SendState.outstanding] at outstanding
  have place := accounts.place
  rw [point] at place
  obtain ⟨isPosted, inLoop | ⟨isLast, isOne, waiting | polled⟩⟩ := place
  · have within := inLoop.1
    omega
  · have few : (sendNumbers client.polled).length ≤
        iters - sinceWait iters txDepth iters := waiting.2.1
    have last : 1 ≤ sinceWait iters txDepth iters := by
      rw [sinceWait, if_neg (Nat.lt_irrefl iters)]
      exact Nat.le_add_left 1 _
    omega
  · have counts := polled.1
    omega

/-- A client that still runs can go on, and so can its server until then. -/
theorem Idle.client_ended (idle : Idle iters txDepth rxDepth s)
    (looping : 1 ≤ iters) (txPositive : 1 ≤ txDepth) (rxPositive : 1 ≤ rxDepth)
    (reached : Reached iters txDepth rxDepth s) : ClientEnded s.client := by
  by_contra running
  have accounts := reached.client.accounts looping txPositive
  have serverAccounts := reached.server.accounts
  obtain ⟨⟨n, counted, i, point, more⟩, empty⟩ := idle.client_waits running
  have completed := idle.completed_eq running accounts
  obtain ⟨before, within⟩ := completed_lt_of_wait accounts looping point more empty
  have serverRuns : ¬s.server.point.Ended := by
    intro ended
    have delivered := iters_le_delivered serverAccounts ended
    omega
  obtain ⟨waits, _, _, arrived⟩ :=
    idle.server_waits serverAccounts rxPositive serverRuns
  have due := idle.due_eq_zero serverAccounts waits running serverRuns
  have delivered := arrived running within
  have inFlight_le := accounts.inFlight_le
  have stuck := wait_not_stuck looping txPositive reached.client point more
  rcases stuck with filled | flying | coming
  · exact filled empty
  · omega
  · omega

/-! ## Every run ends -/

def clientRank : Point → Nat
  | .post _ => 1
  | .wait _ _ _ => 2
  | .ended _ => 0

def clientWork (iters : Nat) (client : SendState) : Nat :=
  4 * (iters + 1 - client.posted) + 2 * client.inFlight + 2 * client.due +
    client.cq.length + clientRank client.point

def Session.work (iters : Nat) (s : Session) : Nat :=
  clientWork iters s.client + s.server.work (iters + 1)

private theorem clientRank_le (point : Point) : clientRank point ≤ 2 := by
  cases point with
  | post i => exact Nat.le_succ 1
  | wait n counted i => exact le_rfl
  | ended status => exact Nat.zero_le 2

private theorem clientRank_waited (i : Nat) :
    clientRank (if i ≤ iters then .post i else .ended 0) ≤ 1 := by
  split
  · exact le_rfl
  · exact Nat.zero_le 1

private theorem clientWork_lt {client client' : SendState}
    (accounts : SendWindow.Accounts iters txDepth client)
    (step : SendWindow.Step iters txDepth client client') :
    clientWork iters client' < clientWork iters client := by
  unfold clientWork
  cases step with
  | @posted i point =>
      have place := accounts.place
      rw [point] at place
      obtain ⟨isPosted, within, _⟩ := place
      have rank := clientRank_le (nextCall iters txDepth (i + 1))
      have before : clientRank (.post i) = 1 := rfl
      rw [point, before]
      simp only
      omega
  | refused point full =>
      rw [point]
      exact Nat.lt_succ_self _
  | polled point more returned nonempty few =>
      rw [point, returned]
      simp only [clientRank, List.length_append]
      omega
  | @waited n counted i point enough =>
      have rank := @clientRank_waited iters i
      have before : clientRank (.wait n counted i) = 2 := rfl
      rw [point, before]
      simp only
      omega
  | completed sending =>
      simp only [List.length_append, List.length_singleton]
      omega
  | arrived coming =>
      simp only [List.length_append, List.length_singleton]
      omega

private theorem work_lt (looping : 1 ≤ iters) (positive : 1 ≤ txDepth)
    (reached : Reached iters txDepth rxDepth s)
    (step : Step iters txDepth rxDepth s s') : s'.work iters < s.work iters := by
  unfold Session.work
  cases step with
  | client running step same =>
      rw [same]
      apply Nat.add_lt_add_right
      exact clientWork_lt (reached.client.accounts looping positive) step
  | server step same =>
      rw [same]
      apply Nat.add_lt_add_left
      exact reached.server.accounts.work_lt step

/-- Every run is finite, whatever is delayed.  When nothing more has to happen,
the client has ended, and the server has ended or waits for completions that do
not come. -/
theorem session_ends (looping : 1 ≤ iters) (txPositive : 1 ≤ txDepth)
    (rxPositive : 1 ≤ rxDepth) (reached : Reached iters txDepth rxDepth s) :
    (∀ s', Step iters txDepth rxDepth s s' → s'.work iters < s.work iters) ∧
      (Idle iters txDepth rxDepth s →
        ClientEnded s.client ∧
          (s.server.point.Ended ∨
            s.server.point.Waits iters ∧ s.server.cq = [] ∧
              (s.server.completed = 1 ∨ s.client.due = 1))) := by
  refine ⟨fun _ step => work_lt looping txPositive reached step, ?_⟩
  intro idle
  refine ⟨idle.client_ended looping txPositive rxPositive reached, ?_⟩
  by_cases running : s.server.point.Ended
  · exact Or.inl running
  · obtain ⟨waits, empty, own, _⟩ :=
      idle.server_waits reached.server.accounts rxPositive running
    exact Or.inr ⟨waits, empty, own⟩

/-- Nothing has to happen when both have ended. -/
private theorem idle_of_ended (client : ClientEnded s.client)
    (server : s.server.point.Ended) : Idle iters txDepth rxDepth s := by
  intro s' step
  cases step with
  | client running step same => exact absurd client running
  | server step same =>
      refine Or.inl ⟨client, ?_⟩
      cases isPoint : s.server.point <;> rw [isPoint] at server
      · exact server.elim
      · exact server.elim
      · exact server.elim
      · generalize s'.server = server' at step
        cases step <;> simp_all [ServerPoint.Waits, ServerPoint.Satisfied,
          ServerPoint.Ended]

theorem session_ends_both :
    ∃ s, Reached 1 1 2 s ∧ Idle 1 1 2 s ∧
      (∀ s', Step 1 1 2 s s' → s'.work 1 < s.work 1) ∧
      ClientEnded s.client ∧
        (s.server.point.Ended ∨
          s.server.point.Waits 1 ∧ s.server.cq = [] ∧
            (s.server.completed = 1 ∨ s.client.due = 1)) := by
  obtain ⟨s, reached, clientEnded, serverEnded⟩ := exists_reached_both
  have idle : Idle 1 1 2 s := idle_of_ended ⟨0, clientEnded⟩ serverEnded
  obtain ⟨lowers, ends⟩ :=
    session_ends le_rfl le_rfl (Nat.le_succ 1) reached
  exact ⟨s, reached, idle, lowers, ends idle⟩

end RdmaKv.Ex2.PerfSession
