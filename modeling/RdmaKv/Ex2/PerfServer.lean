import RdmaKv.Ex2.SendWindow

/-!
# The InfiniBand server

The server posts one message and waits for `iters` completions, then for one
more.  The client sends `iters + 1` messages, the last of which may be lost when
the client ends, and the server's own message is completed as well.  A wait
forgets what a batch holds beyond its count: if the first wait takes all
completions, the second one waits for ever.

As in the model of the client, all completions succeed: the `return 1` of
`pp_wait_completions` on a status other than `IBV_WC_SUCCESS` is left out.
-/

namespace RdmaKv.Ex2.PerfServer

open Relation SendWindow

/-! ## `pp_post_recv` and the completions of a batch -/

/-- `ctx->routs`, and the receives that are in the queue. -/
structure Credits where
  routs : Nat
  posted : Nat

namespace Credits

/-- `pp_post_recv(ctx, n)`: the receives that fit into a queue of `rx_depth`. -/
def ppPostRecv (rxDepth n : Nat) (credits : Credits) : Nat × Credits :=
  let i := min n (rxDepth - credits.posted)
  (i, { credits with posted := credits.posted + i })

/-- What `pp_wait_completions` does with one completion, and whether it goes
on.  It counts the receive of a completion, so `routs` is not zero. -/
def lookAt (rxDepth : Nat) (credits : Credits) :
    Completion → Bool × Credits
  | .send _ => (true, credits)
  | .recv =>
      let routs := credits.routs - 1
      if routs ≤ 10 then
        let (i, credits) := credits.ppPostRecv rxDepth (rxDepth - routs)
        (decide (rxDepth ≤ routs + i), { credits with routs := routs + i })
      else (true, { credits with routs := routs })

/-- The completions of a batch, up to one at which the wait returns. -/
def lookAll (rxDepth : Nat) : List Completion → Credits → Bool × Credits
  | [], credits => (true, credits)
  | completion :: batch, credits =>
      match credits.lookAt rxDepth completion with
      | (true, credits) => lookAll rxDepth batch credits
      | (false, credits) => (false, credits)

/-- `routs` counts the receives that are posted and those whose completions
nothing has looked at; it is above the bound or at its maximum. -/
structure Sound (rxDepth unseen : Nat) (credits : Credits) : Prop where
  routs : credits.routs = credits.posted + unseen
  routs_le : credits.routs ≤ rxDepth
  replenished : 10 < credits.routs ∨ credits.routs = rxDepth

variable {rxDepth unseen : Nat} {credits : Credits}

/-- Receives can always be posted again. -/
theorem Sound.lookAt_recv (sound : credits.Sound rxDepth (unseen + 1)) :
    (credits.lookAt rxDepth .recv).1 = true ∧
      (credits.lookAt rxDepth .recv).2.Sound rxDepth unseen := by
  obtain ⟨routs, routs_le, replenished⟩ := sound
  simp only [lookAt, ppPostRecv]
  by_cases few : credits.routs - 1 ≤ 10
  · have fits : min (rxDepth - (credits.routs - 1))
        (rxDepth - credits.posted) = rxDepth - (credits.routs - 1) := by
      omega
    simp only [if_pos few, fits]
    refine ⟨decide_eq_true ?_, ?_, ?_, Or.inr ?_⟩
    · omega
    · simp only
      omega
    · simp only
      omega
    · simp only
      omega
  · rw [if_neg few]
    refine ⟨rfl, ?_, ?_, Or.inl ?_⟩
    · simp only
      omega
    · simp only
      omega
    · simp only
      omega

theorem Sound.lookAll {batch : List Completion}
    (sound : credits.Sound rxDepth (batch.count .recv + unseen)) :
    (credits.lookAll rxDepth batch).1 = true ∧
      (credits.lookAll rxDepth batch).2.Sound rxDepth unseen := by
  induction batch generalizing credits with
  | nil =>
      rw [List.count_nil, Nat.zero_add] at sound
      exact ⟨rfl, sound⟩
  | cons completion batch inductionHypothesis =>
      unfold Credits.lookAll
      cases completion with
      | send number =>
          rw [List.count_cons_of_ne (by simp)] at sound
          exact inductionHypothesis sound
      | recv =>
          rw [List.count_cons_self, Nat.add_right_comm] at sound
          obtain ⟨goesOn, sound'⟩ := sound.lookAt_recv
          have answer : credits.lookAt rxDepth .recv =
              (true, (credits.lookAt rxDepth .recv).2) :=
            Prod.ext goesOn rfl
          rw [answer]
          exact inductionHypothesis sound'

end Credits

/-! ## The server -/

/-- Where `main` is: before `pp_post_send`, in the first or the second
`pp_wait_completions`, or after it, with what the waits have counted. -/
inductive ServerPoint where
  | post
  | first (counted : Nat)
  | second (before counted : Nat)
  | ended (before counted : Nat)
  deriving DecidableEq

namespace ServerPoint

/-- The completions that the waits have counted. -/
def polled : ServerPoint → Nat
  | post => 0
  | first counted => counted
  | second before counted => before + counted
  | ended before counted => before + counted

def count (more : Nat) : ServerPoint → ServerPoint
  | first counted => first (counted + more)
  | second before counted => second before (counted + more)
  | point => point

/-- The point after a wait.  Its status is not used. -/
def next : ServerPoint → ServerPoint
  | first counted => second counted 0
  | second before counted => ended before counted
  | point => point

/-- A wait that needs more completions. -/
def Waits (iters : Nat) : ServerPoint → Prop
  | first counted => counted < iters
  | second _ counted => counted < 1
  | _ => False

/-- A wait that has counted enough. -/
def Satisfied (iters : Nat) : ServerPoint → Prop
  | first counted => iters ≤ counted
  | second _ counted => 1 ≤ counted
  | _ => False

def Ended : ServerPoint → Prop
  | ended _ _ => True
  | _ => False

end ServerPoint

/-- The server and its queue pair: the message of its own that is not
completed, whether it is, the messages of the client that have arrived, and the
completion queue. -/
structure ServerState where
  point : ServerPoint
  credits : Credits
  sends : Nat
  completed : Nat
  delivered : Nat
  cq : List Completion

/-- After `pp_post_recv(ctx, ctx->rx_depth)` and the exchange of addresses. -/
def start (rxDepth : Nat) : ServerState :=
  ⟨.post, ⟨rxDepth, rxDepth⟩, 0, 0, 0, []⟩

/-- What happens: the server goes on, its message is completed, or one of the
client's messages that ever arrive does, for which a receive must be posted.
When the server has ended, its queue pair is gone. -/
inductive Step (iters rxDepth total : Nat) : ServerState → ServerState → Prop
  | posted {s : ServerState} (point : s.point = .post) :
      Step iters rxDepth total s { s with point := .first 0, sends := 1 }
  | polled {s : ServerState} {batch later : List Completion}
      (waits : s.point.Waits iters) (returned : s.cq = batch ++ later)
      (nonempty : 1 ≤ batch.length) (few : batch.length ≤ wcBatch) :
      Step iters rxDepth total s { s with
        point := if (s.credits.lookAll rxDepth batch).1 then
          s.point.count batch.length else s.point.next
        credits := (s.credits.lookAll rxDepth batch).2
        cq := later }
  | waited {s : ServerState} (satisfied : s.point.Satisfied iters) :
      Step iters rxDepth total s { s with point := s.point.next }
  | completed {s : ServerState} (running : ¬s.point.Ended)
      (sending : s.sends = 1) :
      Step iters rxDepth total s { s with
        sends := 0
        completed := 1
        cq := s.cq ++ [.send 0] }
  | arrived {s : ServerState} {left : Nat} (running : ¬s.point.Ended)
      (more : s.delivered < total) (ready : s.credits.posted = left + 1) :
      Step iters rxDepth total s { s with
        credits := { s.credits with posted := left }
        delivered := s.delivered + 1
        cq := s.cq ++ [.recv] }

/-- The states that the server gets to, whatever arrives when. -/
def Reached (iters rxDepth total : Nat) (s : ServerState) : Prop :=
  ReflTransGen (Step iters rxDepth total) (start rxDepth) s

def Stuck (iters rxDepth total : Nat) (s : ServerState) : Prop :=
  ∀ s', ¬Step iters rxDepth total s s'

variable {iters rxDepth total : Nat} {s s' : ServerState}

/-! ## What every run keeps -/

/-- What the waits have counted. -/
def Place (iters : Nat) : ServerPoint → Prop
  | .post | .first _ => True
  | .second before _ => iters ≤ before
  | .ended before counted => iters ≤ before ∧ 1 ≤ counted

structure Accounts (iters rxDepth total : Nat) (s : ServerState) : Prop where
  sound : s.credits.Sound rxDepth (s.cq.count .recv)
  own : if s.point = .post then s.sends = 0 ∧ s.completed = 0
    else s.sends + s.completed = 1
  balance : s.completed + s.delivered = s.point.polled + s.cq.length
  sends : s.cq.length ≤ s.cq.count .recv + s.completed
  delivered_le : s.delivered ≤ total
  place : Place iters s.point

private theorem accounts_start : Accounts iters rxDepth total (start rxDepth) :=
  ⟨⟨rfl, le_rfl, Or.inr rfl⟩, ⟨rfl, rfl⟩, rfl, Nat.zero_le _, Nat.zero_le _,
    trivial⟩

namespace ServerPoint

variable {point : ServerPoint}

theorem Waits.ne_post (waits : point.Waits iters) : point ≠ .post := by
  rintro rfl
  exact waits

theorem Waits.polled_count (waits : point.Waits iters) (more : Nat) :
    (point.count more).polled = point.polled + more := by
  cases point with
  | post => exact waits.elim
  | first counted => rfl
  | second before counted => exact (Nat.add_assoc before counted more).symm
  | ended before counted => exact waits.elim

theorem Waits.count_ne_post (waits : point.Waits iters) (more : Nat) :
    point.count more ≠ .post := by
  cases point with
  | post => exact waits.elim
  | first counted => simp [count]
  | second before counted => simp [count]
  | ended before counted => exact waits.elim

private theorem place_count (place : Place iters point) (more : Nat) :
    Place iters (point.count more) := by
  cases point <;> exact place

theorem Satisfied.polled_next (satisfied : point.Satisfied iters) :
    point.next.polled = point.polled := by
  cases point <;> rfl

theorem Satisfied.ne_post (satisfied : point.Satisfied iters) :
    point ≠ .post := by
  rintro rfl
  exact satisfied

theorem Satisfied.next_ne_post (satisfied : point.Satisfied iters) :
    point.next ≠ .post := by
  cases point with
  | post => exact satisfied.elim
  | first counted => simp [next]
  | second before counted => simp [next]
  | ended before counted => exact satisfied.elim

theorem Satisfied.place_next (satisfied : point.Satisfied iters)
    (place : Place iters point) : Place iters point.next := by
  cases point with
  | post => exact satisfied.elim
  | first counted => exact satisfied
  | second before counted => exact ⟨place, satisfied⟩
  | ended before counted => exact satisfied.elim

end ServerPoint

/-- A batch is part of the completion queue. -/
theorem Accounts.lookAll (accounts : Accounts iters rxDepth total s)
    {batch later : List Completion} (returned : s.cq = batch ++ later) :
    (s.credits.lookAll rxDepth batch).1 = true ∧
      (s.credits.lookAll rxDepth batch).2.Sound rxDepth
        (later.count .recv) := by
  have sound := accounts.sound
  rw [returned, List.count_append] at sound
  exact sound.lookAll

theorem Accounts.step (accounts : Accounts iters rxDepth total s)
    (step : Step iters rxDepth total s s') : Accounts iters rxDepth total s' := by
  have looked {batch later : List Completion}
      (returned : s.cq = batch ++ later) := accounts.lookAll returned
  obtain ⟨sound, own, balance, sends, delivered_le, place⟩ := accounts
  cases step with
  | posted point =>
      rw [if_pos point] at own
      rw [point] at balance
      refine ⟨sound, ?_, balance, sends, delivered_le, trivial⟩
      simp [own.2]
  | @polled batch later waits returned nonempty few =>
      obtain ⟨goesOn, sound'⟩ := looked returned
      have all := length_sendNumbers batch
      rw [returned, List.length_append] at balance sends
      rw [List.count_append] at sends
      rw [if_neg waits.ne_post] at own
      rw [if_pos goesOn]
      refine ⟨sound', ?_, ?_, ?_, delivered_le,
        ServerPoint.place_count place _⟩
      · simpa only [if_neg (waits.count_ne_post _)] using own
      · simp only [waits.polled_count]
        omega
      · simp only
        omega
  | waited satisfied =>
      rw [if_neg satisfied.ne_post] at own
      refine ⟨sound, ?_, ?_, sends, delivered_le, satisfied.place_next place⟩
      · simpa only [if_neg satisfied.next_ne_post] using own
      · simpa only [satisfied.polled_next] using balance
  | completed running sending =>
      by_cases isPost : s.point = .post
      · rw [if_pos isPost] at own
        omega
      · rw [if_neg isPost] at own
        have count : (s.cq ++ [Completion.send 0]).count .recv =
            s.cq.count .recv := by
          simp
        refine ⟨by simpa only [count] using sound, ?_, ?_, ?_, delivered_le,
          place⟩
        · rw [if_neg isPost]
          rfl
        · simp only [List.length_append, List.length_singleton]
          omega
        · simp only [List.length_append, List.length_singleton, count]
          omega
  | @arrived left running more ready =>
      have count : (s.cq ++ [Completion.recv]).count .recv =
          s.cq.count .recv + 1 := by
        simp
      obtain ⟨routs, routs_le, replenished⟩ := sound
      refine ⟨⟨?_, routs_le, replenished⟩, own, ?_, ?_, more, place⟩
      · simp only [count]
        omega
      · simp only [List.length_append, List.length_singleton]
        omega
      · simp only [List.length_append, List.length_singleton, count]
        omega

theorem Reached.accounts (reached : Reached iters rxDepth total s) :
    Accounts iters rxDepth total s := by
  induction reached with
  | refl => exact accounts_start
  | tail _ step inductionHypothesis => exact inductionHypothesis.step step

theorem Accounts.length_cq_le (accounts : Accounts iters rxDepth total s) :
    s.cq.length ≤ rxDepth + 1 := by
  obtain ⟨routs, routs_le, _⟩ := accounts.sound
  have few := accounts.sends
  have own := accounts.own
  split at own <;> omega

/-- In every run receives can be posted again: `routs` counts those that are
posted or completed, it stays above the bound, and the completion queue never
overflows. -/
theorem receives_posted (reached : Reached iters rxDepth total s) :
    s.credits.routs = s.credits.posted + s.cq.count .recv ∧
      s.credits.routs ≤ rxDepth ∧ min 11 rxDepth ≤ s.credits.routs ∧
      s.cq.length ≤ rxDepth + 1 ∧
      ∀ batch later, s.cq = batch ++ later →
        (s.credits.lookAll rxDepth batch).1 = true := by
  have accounts := reached.accounts
  obtain ⟨routs, routs_le, replenished⟩ := accounts.sound
  exact ⟨routs, routs_le, by omega, accounts.length_cq_le,
    fun batch later returned => (accounts.lookAll returned).1⟩

/-- Two messages were polled in one batch, their receives were posted again,
and a third message has arrived. -/
private theorem reached_reposted : Reached 5 12 6
    ⟨.first 2, ⟨12, 11⟩, 1, 0, 3, [.recv]⟩ := by
  have posted : Reached 5 12 6 ⟨.first 0, ⟨12, 12⟩, 1, 0, 0, []⟩ :=
    ReflTransGen.single (.posted rfl)
  have first : Reached 5 12 6 ⟨.first 0, ⟨12, 11⟩, 1, 0, 1, [.recv]⟩ :=
    posted.tail (.arrived id (by decide) rfl)
  have second : Reached 5 12 6
      ⟨.first 0, ⟨12, 10⟩, 1, 0, 2, [.recv, .recv]⟩ :=
    first.tail (.arrived id (by decide) rfl)
  have polled : Reached 5 12 6 ⟨.first 2, ⟨12, 12⟩, 1, 0, 2, []⟩ :=
    second.tail (@Step.polled 5 12 6 _ [.recv, .recv] [] (Nat.succ_pos 4) rfl
      (by decide) (by decide))
  exact polled.tail (.arrived id (by decide) rfl)

theorem receives_posted_reposted :
    12 = 11 + [Completion.recv].count .recv ∧ 12 ≤ 12 ∧ min 11 12 ≤ 12 ∧
      [Completion.recv].length ≤ 12 + 1 ∧
      ∀ batch later, [Completion.recv] = batch ++ later →
        ((⟨12, 11⟩ : Credits).lookAll 12 batch).1 = true :=
  receives_posted reached_reposted

/-! ## Every run ends, or all completions are gone -/

def ServerPoint.rank : ServerPoint → Nat
  | .post => 5
  | .first _ => 2
  | .second _ _ => 1
  | .ended _ _ => 0

def ServerState.work (total : Nat) (s : ServerState) : Nat :=
  2 * (total - s.delivered) + 2 * s.sends + s.cq.length + s.point.rank

/-- A wait needs more completions, and there are none. -/
def Hangs (iters total : Nat) (s : ServerState) : Prop :=
  s.point.Waits iters ∧ s.completed = 1 ∧ s.delivered = total ∧ s.cq = []

theorem ServerPoint.rank_count (point : ServerPoint) (more : Nat) :
    (point.count more).rank = point.rank := by
  cases point <;> rfl

theorem ServerPoint.Satisfied.rank_next {point : ServerPoint}
    (satisfied : point.Satisfied iters) : point.next.rank < point.rank := by
  cases point with
  | post => exact satisfied.elim
  | first counted => exact Nat.lt_succ_self 1
  | second before counted => exact Nat.one_pos
  | ended before counted => exact satisfied.elim

theorem Accounts.work_lt (accounts : Accounts iters rxDepth total s)
    (step : Step iters rxDepth total s s') : s'.work total < s.work total := by
  have own := accounts.own
  unfold ServerState.work
  cases step with
  | posted point =>
      rw [if_pos point] at own
      simp only [point, ServerPoint.rank]
      omega
  | @polled batch later waits returned nonempty few =>
      obtain ⟨goesOn, _⟩ := accounts.lookAll returned
      simp only [if_pos goesOn, ServerPoint.rank_count, returned,
        List.length_append]
      omega
  | waited satisfied =>
      have lower := satisfied.rank_next
      simp only
      omega
  | completed running sending =>
      simp only [List.length_append, List.length_singleton, sending]
      omega
  | arrived running more ready =>
      simp only [List.length_append, List.length_singleton]
      omega

/-- A wait that is not over is short of completions. -/
theorem ServerPoint.waits_of_running {point : ServerPoint}
    (running : ¬point.Ended) (started : point ≠ .post)
    (more : ¬point.Satisfied iters) : point.Waits iters := by
  cases point with
  | post => exact absurd rfl started
  | first counted => exact Nat.lt_of_not_le more
  | second before counted => exact Nat.lt_of_not_le more
  | ended before counted => exact absurd trivial running

/-- With an empty completion queue, receives are posted. -/
theorem Accounts.receive_posted (accounts : Accounts iters rxDepth total s)
    (positive : 1 ≤ rxDepth) (empty : s.cq = []) :
    ∃ left, s.credits.posted = left + 1 := by
  obtain ⟨routs, _, replenished⟩ := accounts.sound
  rw [empty, List.count_nil, Nat.add_zero] at routs
  have ready : s.credits.posted ≠ 0 := by
    omega
  exact Nat.exists_eq_succ_of_ne_zero ready

/-- Completions that a wait needs are polled. -/
theorem Step.polled_of_cons {completion : Completion} {later : List Completion}
    (waits : s.point.Waits iters) (isCq : s.cq = completion :: later) :
    ∃ point credits, Step iters rxDepth total s
      { s with point := point, credits := credits, cq := later } := by
  have single : s.cq = [completion] ++ later := isCq
  have few : [completion].length ≤ wcBatch := Nat.le_add_left 1 9
  exact ⟨_, _, .polled waits single le_rfl few⟩

/-- A server that neither ends nor goes on has taken all completions. -/
theorem Accounts.ended_or_hangs (accounts : Accounts iters rxDepth total s)
    (positive : 1 ≤ rxDepth) (stuck : Stuck iters rxDepth total s) :
    s.point.Ended ∨ Hangs iters total s := by
  by_cases running : s.point.Ended
  · exact Or.inl running
  have started : s.point ≠ .post := fun point => stuck _ (.posted point)
  have waits : s.point.Waits iters :=
    ServerPoint.waits_of_running running started fun satisfied =>
      stuck _ (.waited satisfied)
  have empty : s.cq = [] := by
    cases isCq : s.cq with
    | nil => rfl
    | cons completion later =>
        obtain ⟨point, credits, polled⟩ :=
          @Step.polled_of_cons iters rxDepth total s _ _ waits isCq
        exact absurd polled (stuck _)
  have sent : s.sends ≠ 1 := fun sending =>
    stuck _ (.completed running sending)
  have own := accounts.own
  rw [if_neg started] at own
  obtain ⟨left, isLeft⟩ := accounts.receive_posted positive empty
  have arrived : ¬s.delivered < total := fun more =>
    stuck _ (.arrived running more isLeft)
  have delivered_le := accounts.delivered_le
  exact Or.inr ⟨waits, by omega, by omega, empty⟩

/-- Every run can be continued until the server neither ends nor goes on. -/
theorem Reached.exists_stuck (reached : Reached iters rxDepth total s) :
    ∃ last, Reached iters rxDepth total last ∧
      Stuck iters rxDepth total last := by
  induction left : s.work total using Nat.strong_induction_on
    generalizing s with
  | _ left inductionHypothesis =>
      by_cases stuck : Stuck iters rxDepth total s
      · exact ⟨s, reached, stuck⟩
      · obtain ⟨s', step⟩ := not_forall.mp stuck
        have step := not_not.mp step
        exact inductionHypothesis _
          (left ▸ reached.accounts.work_lt step) (reached.tail step) rfl

/-! ## When the server hangs -/

theorem Reached.stuck_of_hangs (reached : Reached iters rxDepth total s)
    (hangs : Hangs iters total s) : Stuck iters rxDepth total s := by
  obtain ⟨waits, completed, delivered, empty⟩ := hangs
  have own := reached.accounts.own
  rw [if_neg waits.ne_post, completed] at own
  intro s' step
  cases step with
  | posted isPost => exact waits.ne_post isPost
  | polled waits returned nonempty few =>
      obtain ⟨rfl, _⟩ := List.append_eq_nil_iff.mp (returned.symm.trans empty)
      exact absurd nonempty (by decide)
  | waited satisfied =>
      cases isPoint : s.point <;> rw [isPoint] at waits satisfied
      · exact waits
      · exact Nat.not_le.mpr waits satisfied
      · exact Nat.not_le.mpr waits satisfied
      · exact waits
  | completed running sending => omega
  | arrived running more ready => omega

/-- Some receives are posted when nothing is in the completion queue. -/
theorem Reached.posted_ge (reached : Reached iters rxDepth total s)
    (empty : s.cq = []) : min 11 rxDepth ≤ s.credits.posted := by
  obtain ⟨routs, _, replenished⟩ := reached.accounts.sound
  rw [empty, List.count_nil, Nat.add_zero] at routs
  omega

/-- Every message of the client may be polled as soon as it arrives, before the
server's own is completed. -/
private theorem exists_reached_first (positive : 1 ≤ rxDepth) {count : Nat}
    (within : count ≤ iters) (sent : count ≤ total) :
    ∃ credits, Reached iters rxDepth total
      ⟨.first count, credits, 1, 0, count, []⟩ := by
  induction count with
  | zero => exact ⟨_, ReflTransGen.single (.posted rfl)⟩
  | succ count inductionHypothesis =>
      obtain ⟨credits, reached⟩ :=
        inductionHypothesis (Nat.le_of_succ_le within)
          (Nat.le_of_succ_le sent)
      have enough := reached.posted_ge rfl
      obtain ⟨left, ready⟩ : ∃ left, credits.posted = left + 1 :=
        ⟨credits.posted - 1, by simp only at enough; omega⟩
      have arrived : Reached iters rxDepth total ⟨.first count,
          { credits with posted := left }, 1, 0, count + 1, [.recv]⟩ :=
        reached.tail (.arrived id sent ready)
      have split : [Completion.recv] = [.recv] ++ [] := rfl
      obtain ⟨goesOn, _⟩ := arrived.accounts.lookAll split
      have waits : (ServerPoint.first count).Waits iters := within
      have few : [Completion.recv].length ≤ wcBatch := by
        decide
      have polled := arrived.tail (.polled waits split le_rfl few)
      rw [if_pos goesOn] at polled
      exact ⟨_, polled⟩

/-- The last two completions, or with two receives the last three, may be taken
at once: then the first wait counts more than it needs, and the second one
waits for ever. -/
private theorem exists_hangs {more : Nat} (several : more + 1 ≤ rxDepth)
    (few : more ≤ 1) (looping : 1 ≤ iters) :
    ∃ credits, Reached iters rxDepth (iters + more)
      ⟨.second (iters + more + 1) 0, credits, 0, 1, iters + more, []⟩ := by
  obtain ⟨before, rfl⟩ := Nat.exists_eq_add_of_le' looping
  obtain ⟨credits, reached⟩ := @exists_reached_first (before + 1) rxDepth
    (before + 1 + more) (by omega) before (by omega) (by omega)
  have enough := reached.posted_ge rfl
  obtain ⟨left, ready⟩ : ∃ left, credits.posted = left + 1 :=
    ⟨credits.posted - 1, by simp only at enough; omega⟩
  have first : Reached (before + 1) rxDepth (before + 1 + more)
      ⟨.first before, { credits with posted := left }, 1, 0, before + 1,
        [.recv]⟩ :=
    reached.tail (.arrived id (by simp only; omega) ready)
  have waits : (ServerPoint.first before).Waits (before + 1) :=
    Nat.lt_succ_self before
  have satisfied (counted : Nat) (enough : before + 1 ≤ counted) :
      (ServerPoint.first counted).Satisfied (before + 1) := enough
  rcases Nat.le_one_iff_eq_zero_or_eq_one.mp few with rfl | rfl
  · have all := first.tail (.completed id rfl)
    have split : [Completion.recv] ++ [.send 0] =
        [.recv, .send 0] ++ [] := rfl
    obtain ⟨goesOn, _⟩ := Accounts.lookAll (Reached.accounts all) split
    have polled := all.tail (.polled waits split (by decide) (by decide))
    simp only [if_pos goesOn] at polled
    exact ⟨_, polled.tail (.waited (satisfied (before + 2) (by omega)))⟩
  · obtain ⟨fewer, isLeft⟩ : ∃ fewer, left = fewer + 1 :=
      ⟨left - 1, by simp only at enough; omega⟩
    have second : Reached (before + 1) rxDepth (before + 1 + 1)
        ⟨.first before, { credits with posted := fewer }, 1, 0,
          before + 1 + 1, [.recv, .recv]⟩ :=
      first.tail (.arrived id (by simp) isLeft)
    have all := second.tail (.completed id rfl)
    have split : [Completion.recv, .recv] ++ [.send 0] =
        [.recv, .recv, .send 0] ++ [] := rfl
    obtain ⟨goesOn, _⟩ := Accounts.lookAll (Reached.accounts all) split
    have polled := all.tail (.polled waits split (by decide) (by decide))
    simp only [if_pos goesOn] at polled
    exact ⟨_, polled.tail (.waited (satisfied (before + 3) (by omega)))⟩

private theorem hangs_of_second {counted : Nat} {credits : Credits} :
    Hangs iters total ⟨.second counted 0, credits, 0, 1, total, []⟩ :=
  ⟨Nat.one_pos, rfl, rfl, rfl⟩

/-- Every run of the server is finite: each step leaves less to do.  It stops
when the server has ended, or when a wait needs more completions than there
are. -/
theorem server_ends (positive : 1 ≤ rxDepth)
    (reached : Reached iters rxDepth total s) :
    (∀ s', Step iters rxDepth total s s' → s'.work total < s.work total) ∧
      (Stuck iters rxDepth total s →
        s.point.Ended ∨ Hangs iters total s) :=
  ⟨fun _ step => reached.accounts.work_lt step,
    reached.accounts.ended_or_hangs positive⟩

/-- The program's own numbers, in a run whose first wait has counted two
completions more than it needs. -/
theorem server_ends_hanging : ∃ s : ServerState,
    s.point = .second (ibNumOfCycle + 2) 0 ∧
      Stuck ibNumOfCycle ibPacketPerCycle (ibNumOfCycle + 1) s ∧
      (∀ s', Step ibNumOfCycle ibPacketPerCycle (ibNumOfCycle + 1) s s' →
        s'.work (ibNumOfCycle + 1) < s.work (ibNumOfCycle + 1)) ∧
      (s.point.Ended ∨ Hangs ibNumOfCycle (ibNumOfCycle + 1) s) := by
  obtain ⟨credits, reached⟩ := @exists_hangs ibNumOfCycle ibPacketPerCycle 1
    (by decide) le_rfl (by decide)
  have stuck := reached.stuck_of_hangs hangs_of_second
  obtain ⟨lowers, ends⟩ := server_ends (by decide) reached
  exact ⟨_, rfl, stuck, lowers, ends stuck⟩

/-- What the first wait counts if the completion queue holds two completions
at most. -/
def FewCounted (iters : Nat) : ServerPoint → Prop
  | .first counted => counted ≤ iters + 1
  | .second before _ => before ≤ iters + 1
  | _ => True

theorem Reached.fewCounted (reached : Reached iters 1 total s) :
    FewCounted iters s.point := by
  induction reached with
  | refl => trivial
  | @tail s s' ran step inductionHypothesis =>
      have accounts := Reached.accounts ran
      have short := accounts.length_cq_le
      cases step with
      | posted point => exact Nat.zero_le _
      | @polled batch later waits returned nonempty few =>
          obtain ⟨goesOn, _⟩ := accounts.lookAll returned
          rw [returned, List.length_append] at short
          simp only [if_pos goesOn]
          cases isPoint : s.point <;>
            rw [isPoint] at waits inductionHypothesis
          · exact waits.elim
          · simp only [ServerPoint.Waits] at waits
            simp only [ServerPoint.count, FewCounted]
            omega
          · exact inductionHypothesis
          · exact waits.elim
      | waited satisfied =>
          cases isPoint : s.point <;>
            rw [isPoint] at satisfied inductionHypothesis
          · exact satisfied.elim
          · exact inductionHypothesis
          · trivial
          · exact satisfied.elim
      | completed running sending => exact inductionHypothesis
      | arrived running more ready => exact inductionHypothesis

/-- Of the messages that the client sends all but one must arrive. -/
theorem Accounts.iters_le (accounts : Accounts iters rxDepth total s)
    (ended : s.point.Ended) : iters ≤ total := by
  obtain ⟨_, own, balance, _, delivered_le, place⟩ := accounts
  cases isPoint : s.point <;> rw [isPoint] at ended
  · exact ended.elim
  · exact ended.elim
  · exact ended.elim
  · rw [isPoint] at balance place own
    rw [if_neg (by simp)] at own
    simp only [ServerPoint.polled, Place] at balance place
    omega

/-- The server ends in every run exactly if all messages arrive and its queue
has room for one receive only.  Else, if all of them but one arrive at least,
there is a run in which the first wait has counted all completions, which is
more than it needs, and the second one waits for ever. -/
theorem always_ends_iff (positive : 1 ≤ rxDepth) (looping : 1 ≤ iters)
    (sent : total ≤ iters + 1) :
    ((∀ s, Reached iters rxDepth total s → Stuck iters rxDepth total s →
        s.point.Ended) ↔ total = iters + 1 ∧ rxDepth = 1) ∧
      (iters ≤ total → ¬(total = iters + 1 ∧ rxDepth = 1) →
        ∃ s : ServerState, Reached iters rxDepth total s ∧
          Stuck iters rxDepth total s ∧ s.point = .second (total + 1) 0 ∧
          s.completed + s.delivered = total + 1 ∧ s.cq = []) := by
  have overtaken (enough : iters ≤ total)
      (other : ¬(total = iters + 1 ∧ rxDepth = 1)) :
      ∃ credits, Reached iters rxDepth total
        ⟨.second (total + 1) 0, credits, 0, 1, total, []⟩ := by
    obtain ⟨more, rfl⟩ := Nat.exists_eq_add_of_le enough
    exact exists_hangs (by omega) (by omega) looping
  refine ⟨⟨fun ends => ?_, ?_⟩, fun enough other => ?_⟩
  · by_contra other
    obtain ⟨last, ran, stuck⟩ :=
      @Reached.exists_stuck iters rxDepth total _ .refl
    have enough := ran.accounts.iters_le (ends last ran stuck)
    obtain ⟨credits, reached⟩ := overtaken enough other
    exact (ends _ reached (reached.stuck_of_hangs hangs_of_second)).elim
  · rintro ⟨rfl, rfl⟩ s reached stuck
    have accounts := reached.accounts
    refine (accounts.ended_or_hangs positive stuck).resolve_right ?_
    rintro ⟨waits, completed, delivered, empty⟩
    have balance := accounts.balance
    have few := reached.fewCounted
    rw [completed, delivered, empty] at balance
    cases isPoint : s.point <;>
      rw [isPoint] at waits balance few <;>
      simp only [ServerPoint.Waits, ServerPoint.polled, FewCounted,
        List.length_nil] at waits balance few <;>
      omega
  · obtain ⟨credits, reached⟩ := overtaken enough other
    exact ⟨_, reached, reached.stuck_of_hangs hangs_of_second, rfl,
      Nat.add_comm 1 total, rfl⟩

theorem always_ends_iff_hundred :
    ((∀ s, Reached ibNumOfCycle ibPacketPerCycle (ibNumOfCycle + 1) s →
        Stuck ibNumOfCycle ibPacketPerCycle (ibNumOfCycle + 1) s →
          s.point.Ended) ↔
      ibNumOfCycle + 1 = ibNumOfCycle + 1 ∧ ibPacketPerCycle = 1) ∧
      ∃ s : ServerState,
        Reached ibNumOfCycle ibPacketPerCycle (ibNumOfCycle + 1) s ∧
          Stuck ibNumOfCycle ibPacketPerCycle (ibNumOfCycle + 1) s ∧
          s.point = .second (ibNumOfCycle + 1 + 1) 0 ∧
          s.completed + s.delivered = ibNumOfCycle + 1 + 1 ∧ s.cq = [] := by
  obtain ⟨ends, overtaken⟩ := @always_ends_iff ibNumOfCycle ibPacketPerCycle
    (ibNumOfCycle + 1) (by decide) (by decide) le_rfl
  exact ⟨ends, overtaken (by decide) (by decide)⟩

end RdmaKv.Ex2.PerfServer
