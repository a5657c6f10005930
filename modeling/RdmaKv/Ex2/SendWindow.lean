import Mathlib.Data.List.Basic
import Mathlib.Data.Nat.ModEq
import Mathlib.Logic.Relation

/-!
# The send window of the InfiniBand client

The client posts `iters` messages and waits for `tx_depth` completions before
every `tx_depth`-th of them.  Then it posts the latency message and waits for
one completion.  A wait counts the message that the server sends like a
completed send, it forgets what a batch holds beyond its count, and nothing
waits for the messages after the last full window.

All completions succeed: runs in which one has a status other than
`IBV_WC_SUCCESS`, on which `pp_wait_completions` returns 1 and `main` goes on,
are left out.
-/

namespace RdmaKv.Ex2.SendWindow

open Relation

def wcBatch : Nat := 10

def ibPacketPerCycle : Nat := 100

def ibNumOfCycle : Nat := 1000

/-- What `ibv_poll_cq` returns: the sends are numbered in the order in which
they were posted. -/
inductive Completion where
  | send (number : Nat)
  | recv
  deriving DecidableEq

/-- Where `main` is: at a `pp_post_send`, in `pp_wait_completions(ctx, n)` with
`rcnt + scnt = counted`, or after its return.  The message `i` is posted next;
those below `iters` are posted by the loop, and `iters` is the latency
message. -/
inductive Point where
  | post (i : Nat)
  | wait (n counted i : Nat)
  | ended (status : Nat)
  deriving DecidableEq

/-- The next call of `main` when the first `i` messages are posted. -/
def nextCall (iters txDepth i : Nat) : Point :=
  if i < iters then
    if i ≠ 0 ∧ i % txDepth = 0 then .wait txDepth 0 i else .post i
  else if i = iters then .post i
  else .wait 1 0 i

/-- The client and its queue pair: the sends that were posted, those that are
not completed, the messages of the server that have not arrived, the
completion queue, and what the polls have returned. -/
structure SendState where
  point : Point
  posted : Nat
  inFlight : Nat
  due : Nat
  cq : List Completion
  polls : List (List Completion)

/-- Before the loop.  The server posts one message. -/
def start (iters txDepth : Nat) : SendState :=
  ⟨nextCall iters txDepth 0, 0, 0, 1, [], []⟩

def sendNumbers (completions : List Completion) : List Nat :=
  completions.filterMap fun
    | .send number => some number
    | .recv => none

def SendState.polled (s : SendState) : List Completion := s.polls.flatten

def SendState.outstanding (s : SendState) : Nat :=
  s.posted - (sendNumbers s.polled).length

/-- What happens: the client goes on, the oldest send completes, or the
server's message arrives.  A queue pair may hold more sends than it was created
for, so a post into a full window succeeds or fails.  All completions are
successful, and one message of the server leaves `routs` above the bound at
which receives are posted again. -/
inductive Step (iters txDepth : Nat) : SendState → SendState → Prop
  | posted {s : SendState} {i : Nat} (point : s.point = .post i) :
      Step iters txDepth s { s with
        point := nextCall iters txDepth (i + 1)
        posted := s.posted + 1
        inFlight := s.inFlight + 1 }
  | refused {s : SendState} {i : Nat} (point : s.point = .post i)
      (full : txDepth ≤ s.outstanding) :
      Step iters txDepth s { s with point := .ended 1 }
  | polled {s : SendState} {n counted i : Nat} {batch later : List Completion}
      (point : s.point = .wait n counted i) (more : counted < n)
      (returned : s.cq = batch ++ later)
      (nonempty : 1 ≤ batch.length) (few : batch.length ≤ wcBatch) :
      Step iters txDepth s { s with
        point := .wait n (counted + batch.length) i
        cq := later
        polls := s.polls ++ [batch] }
  | waited {s : SendState} {n counted i : Nat}
      (point : s.point = .wait n counted i) (enough : n ≤ counted) :
      Step iters txDepth s { s with
        point := if i ≤ iters then .post i else .ended 0 }
  | completed {s : SendState} {left : Nat} (sending : s.inFlight = left + 1) :
      Step iters txDepth s { s with
        inFlight := left
        cq := s.cq ++ [.send (s.posted - s.inFlight)] }
  | arrived {s : SendState} {left : Nat} (coming : s.due = left + 1) :
      Step iters txDepth s { s with
        due := left
        cq := s.cq ++ [.recv] }

/-- The states that the client gets to, whatever is completed when. -/
def Reached (iters txDepth : Nat) (s : SendState) : Prop :=
  ReflTransGen (Step iters txDepth) (start iters txDepth) s

/-! ## Completions -/

private theorem sendNumbers_append (first second : List Completion) :
    sendNumbers (first ++ second) = sendNumbers first ++ sendNumbers second :=
  List.filterMap_append

/-- A completion is one of a send or one of a receive. -/
theorem length_sendNumbers (completions : List Completion) :
    (sendNumbers completions).length + completions.count .recv =
      completions.length := by
  induction completions with
  | nil => rfl
  | cons first rest inductionHypothesis =>
      cases first with
      | send number =>
          rw [List.count_cons_of_ne (by simp), List.length_cons,
            ← inductionHypothesis]
          exact Nat.add_right_comm _ 1 _
      | recv =>
          rw [List.count_cons_self, List.length_cons, ← inductionHypothesis]
          rfl

private theorem mem_sendNumbers {completions : List Completion} {number : Nat} :
    number ∈ sendNumbers completions ↔ .send number ∈ completions := by
  rw [sendNumbers, List.mem_filterMap]
  constructor
  · rintro ⟨completion, member, isNumber⟩
    cases completion with
    | send other =>
        obtain rfl := Option.some.inj isNumber
        exact member
    | recv => exact absurd isNumber (by simp)
  · intro member
    exact ⟨.send number, member, rfl⟩

/-! ## The waits -/

/-- The sends that were posted since the last wait, before the message `i` is
posted: the remainder in the loop, the last window at the latency message. -/
def sinceWait (iters txDepth i : Nat) : Nat :=
  if i < iters then i % txDepth else (iters - 1) % txDepth + 1

/-- The waits have counted the server's message in the place of a send, and no
completion beyond those that they waited for. -/
def Swapped (waited : Nat) (polled : List Completion) : Prop :=
  .recv ∈ polled ∧ polled.length = waited

instance (waited : Nat) (polled : List Completion) :
    Decidable (Swapped waited polled) :=
  inferInstanceAs (Decidable (_ ∧ _))

/-- The waits for so many completions were all for sends that had been posted,
and none has polled fewer. -/
def Counted (waited : Nat) (polled : List Completion) : Prop :=
  (sendNumbers polled).length ≤ waited ∧ waited ≤ polled.length

/-- What a wait leaves unpolled of the sends that it is about: one, when the
server's message took its place. -/
theorem Counted.length_sendNumbers_eq {waited : Nat} {polled : List Completion}
    (counted : Counted waited polled) (single : polled.count .recv ≤ 1) :
    (sendNumbers polled).length + (if Swapped waited polled then 1 else 0) =
      waited := by
  obtain ⟨below, enough⟩ := counted
  have all := length_sendNumbers polled
  by_cases swapped : Swapped waited polled
  · rw [if_pos swapped]
    have received := List.count_pos_iff.2 swapped.1
    have noSurplus := swapped.2
    omega
  · rw [if_neg swapped]
    by_cases received : .recv ∈ polled
    · have surplus : polled.length ≠ waited := fun same =>
        swapped ⟨received, same⟩
      omega
    · have none := List.count_eq_zero_of_not_mem received
      omega

private theorem succ_mod {d i : Nat} (positive : 1 ≤ d) :
    (i + 1) % d = if i % d + 1 = d then 0 else i % d + 1 := by
  have below := Nat.mod_lt i positive
  rw [← Nat.mod_add_mod]
  split
  · rename_i full
    rw [full, Nat.mod_self]
  · apply Nat.mod_eq_of_lt
    omega

private theorem mod_add_one_eq {d i : Nat} (positive : 1 ≤ d)
    (whole : (i + 1) % d = 0) : i % d + 1 = d := by
  rw [succ_mod positive] at whole
  by_contra short
  rw [if_neg short] at whole
  exact Nat.succ_ne_zero _ whole

/-- A whole window was posted, and the loop goes on. -/
private theorem nextCall_of_full {iters txDepth i : Nat}
    (full : i + 1 < iters ∧ (i + 1) % txDepth = 0) :
    nextCall iters txDepth (i + 1) = .wait txDepth 0 (i + 1) := by
  rw [nextCall, if_pos full.1, if_pos ⟨Nat.succ_ne_zero i, full.2⟩]

private theorem nextCall_of_not_full {iters txDepth i : Nat}
    (within : i + 1 ≤ iters)
    (going : ¬ (i + 1 < iters ∧ (i + 1) % txDepth = 0)) :
    nextCall iters txDepth (i + 1) = .post (i + 1) := by
  rw [nextCall]
  split
  · rename_i more
    rw [if_neg]
    intro waits
    apply going
    exact ⟨more, waits.2⟩
  · apply if_pos
    omega

private theorem start_eq {iters txDepth : Nat} (looping : 1 ≤ iters) :
    start iters txDepth = ⟨.post 0, 0, 0, 1, [], []⟩ := by
  have first : 0 < iters := looping
  rw [start, nextCall, if_pos first, if_neg]
  intro waits
  exact waits.1 rfl

private theorem sinceWait_succ {iters txDepth i : Nat} (positive : 1 ≤ txDepth)
    (more : i < iters)
    (going : ¬ (i + 1 < iters ∧ (i + 1) % txDepth = 0)) :
    sinceWait iters txDepth (i + 1) = sinceWait iters txDepth i + 1 := by
  rw [sinceWait, sinceWait, if_pos more]
  by_cases again : i + 1 < iters
  · rw [if_pos again, succ_mod positive, if_neg]
    intro full
    apply going
    rw [succ_mod positive, if_pos full]
    exact ⟨again, rfl⟩
  · have last : iters - 1 = i := by omega
    rw [if_neg again, last]

/-- Before a wait of the loop, a whole window was posted since the last one. -/
private theorem sinceWait_add_one {iters txDepth i : Nat}
    (positive : 1 ≤ txDepth)
    (full : i + 1 < iters ∧ (i + 1) % txDepth = 0) :
    sinceWait iters txDepth i + 1 = txDepth := by
  rw [sinceWait, if_pos (Nat.lt_of_succ_lt full.1)]
  exact mod_add_one_eq positive full.2

private theorem sinceWait_eq_zero {iters txDepth i : Nat} (more : i < iters)
    (full : i % txDepth = 0) : sinceWait iters txDepth i = 0 := by
  rw [sinceWait, if_pos more, full]

private theorem sinceWait_le {iters txDepth i : Nat} (looping : 1 ≤ iters)
    (reached : i ≤ iters) : sinceWait iters txDepth i ≤ i := by
  rw [sinceWait]
  split
  · exact Nat.mod_le i txDepth
  · have smaller := Nat.mod_le (iters - 1) txDepth
    omega

/-! ## The invariant -/

/-- What the polls have returned, by where `main` is: at a post, what the waits
were for; in a wait of the loop, that and what is counted already, with at most
one completion more; in the last wait, at most one poll beyond that. -/
def Place (iters txDepth posted : Nat) (polls : List (List Completion)) :
    Point → Prop
  | .post i => posted = i ∧ i ≤ iters ∧
      Counted (i - sinceWait iters txDepth i) polls.flatten
  | .wait n counted i => posted = i ∧
      (i < iters ∧ i % txDepth = 0 ∧ n = txDepth ∧
          i + counted ≤ polls.flatten.length + n ∧
          polls.flatten.length + n ≤ i + counted + 1 ∨
        i = iters + 1 ∧ n = 1 ∧ (counted = 0 ∧
            Counted (iters - sinceWait iters txDepth iters) polls.flatten ∨
          1 ≤ counted ∧ ∃ earlier last, polls = earlier ++ [last] ∧
            Counted (iters - sinceWait iters txDepth iters) earlier.flatten))
  | .ended 0 => posted = iters + 1 ∧
      ∃ earlier last, polls = earlier ++ [last] ∧
        Counted (iters - sinceWait iters txDepth iters) earlier.flatten
  | .ended _ => True

/-- The sends are completed in their order, the server's message is somewhere,
and the waits have counted what they wait for. -/
structure Accounts (iters txDepth : Nat) (s : SendState) : Prop where
  inFlight_le : s.inFlight ≤ s.posted
  sends : sendNumbers (s.polled ++ s.cq) = List.range (s.posted - s.inFlight)
  recvs : (s.polled ++ s.cq).count .recv + s.due = 1
  place : Place iters txDepth s.posted s.polls s.point

variable {iters txDepth : Nat} {s s' : SendState}

theorem Accounts.sendNumbers_polled (accounts : Accounts iters txDepth s) :
    sendNumbers s.polled = List.range (sendNumbers s.polled).length ∧
      (sendNumbers s.polled).length ≤ s.posted - s.inFlight := by
  have sends := accounts.sends
  rw [sendNumbers_append] at sends
  have short := congrArg List.length sends
  rw [List.length_append, List.length_range] at short
  have first := congrArg (List.take (sendNumbers s.polled).length) sends
  rw [List.take_left, List.take_range, Nat.min_eq_left (by omega)] at first
  exact ⟨first, by omega⟩

theorem Accounts.count_recv_le (accounts : Accounts iters txDepth s) :
    s.polled.count .recv ≤ 1 := by
  have recvs := accounts.recvs
  rw [List.count_append] at recvs
  omega

/-- A message is polled when more sends were polled than were posted before
it. -/
theorem Accounts.send_mem_polled (accounts : Accounts iters txDepth s)
    {number : Nat} :
    .send number ∈ s.polled ↔ number < (sendNumbers s.polled).length := by
  rw [← mem_sendNumbers, accounts.sendNumbers_polled.1, List.mem_range,
    List.length_range]

/-- `main` goes on to its next call. -/
private theorem place_nextCall {i : Nat} {polls : List (List Completion)}
    (looping : 1 ≤ iters) (positive : 1 ≤ txDepth) (within : i ≤ iters)
    (single : polls.flatten.count .recv ≤ 1)
    (counted : Counted (i - sinceWait iters txDepth i) polls.flatten) :
    Place iters txDepth (i + 1) polls (nextCall iters txDepth (i + 1)) := by
  have since := @sinceWait_le iters txDepth i looping within
  by_cases full : i + 1 < iters ∧ (i + 1) % txDepth = 0
  · rw [nextCall_of_full full]
    obtain ⟨few, enough⟩ := counted
    have all := length_sendNumbers polls.flatten
    have window := sinceWait_add_one positive full
    refine ⟨rfl, Or.inl ⟨full.1, full.2, rfl, ?_, ?_⟩⟩
    · omega
    · omega
  · by_cases more : i + 1 ≤ iters
    · rw [nextCall_of_not_full more full]
      refine ⟨rfl, more, ?_⟩
      rw [sinceWait_succ positive more full, Nat.add_sub_add_right]
      exact counted
    · obtain rfl : i = iters := by omega
      rw [nextCall, if_neg (by omega), if_neg (by omega)]
      exact ⟨rfl, Or.inr ⟨rfl, rfl, Or.inl ⟨rfl, counted⟩⟩⟩

/-- A poll goes on with the wait. -/
private theorem place_polled {posted n counted i : Nat}
    {batch : List Completion}
    {polls : List (List Completion)}
    (place : Place iters txDepth posted polls (.wait n counted i))
    (more : counted < n) (nonempty : 1 ≤ batch.length) :
    Place iters txDepth posted (polls ++ [batch])
      (.wait n (counted + batch.length) i) := by
  obtain ⟨isPosted, inLoop | ⟨isLast, isOne, waiting | ended⟩⟩ := place
  · obtain ⟨within, full, isDepth, enough, few⟩ := inLoop
    refine ⟨isPosted, Or.inl ⟨within, full, isDepth, ?_⟩⟩
    rw [List.flatten_append, List.flatten_singleton, List.length_append]
    constructor <;> omega
  · refine ⟨isPosted, Or.inr ⟨isLast, isOne, Or.inr ⟨?_, polls, batch, rfl, ?_⟩⟩⟩
    · omega
    · exact waiting.2
  · have counts := ended.1
    omega

/-- A wait that is over is one for sends that were posted. -/
private theorem place_waited {posted n counted i : Nat}
    {polls : List (List Completion)}
    (place : Place iters txDepth posted polls (.wait n counted i))
    (below : (sendNumbers polls.flatten).length ≤ posted)
    (enough : n ≤ counted) :
    Place iters txDepth posted polls
      (if i ≤ iters then .post i else .ended 0) := by
  obtain ⟨isPosted, inLoop | ⟨isLast, isOne, waiting | ended⟩⟩ := place
  · obtain ⟨within, full, isDepth, all, _⟩ := inLoop
    rw [if_pos within.le]
    refine ⟨isPosted, within.le, ?_⟩
    rw [sinceWait_eq_zero within full]
    constructor <;> omega
  · have counts := waiting.1
    omega
  · rw [if_neg (by omega)]
    exact ⟨isPosted.trans isLast, ended.2⟩

private theorem accounts_start (looping : 1 ≤ iters) :
    Accounts iters txDepth (start iters txDepth) := by
  rw [start_eq looping]
  refine ⟨le_rfl, rfl, rfl, ?_⟩
  exact ⟨rfl, Nat.zero_le iters, Nat.le_of_eq (Nat.zero_sub _).symm,
    Nat.le_of_eq (Nat.zero_sub _)⟩

/-- One step keeps the accounts. -/
theorem Accounts.step (accounts : Accounts iters txDepth s)
    (looping : 1 ≤ iters) (positive : 1 ≤ txDepth)
    (step : Step iters txDepth s s') : Accounts iters txDepth s' := by
  have polledSends := accounts.sendNumbers_polled.2
  have single := accounts.count_recv_le
  obtain ⟨inFlight_le, sends, recvs, place⟩ := accounts
  cases step with
  | @posted i point =>
      rw [point] at place
      obtain ⟨isPosted, within, counted⟩ := place
      refine ⟨Nat.succ_le_succ inFlight_le, ?_, recvs, ?_⟩
      · simp only [Nat.add_sub_add_right]
        exact sends
      · simp only [isPosted]
        exact place_nextCall looping positive within single counted
  | @refused i point full => exact ⟨inFlight_le, sends, recvs, trivial⟩
  | @polled n counted i batch later point more returned nonempty few =>
      rw [point] at place
      have same : (s.polls ++ [batch]).flatten ++ later = s.polled ++ s.cq := by
        rw [returned, List.flatten_append, List.flatten_singleton,
          List.append_assoc, SendState.polled]
      refine ⟨inFlight_le, ?_, ?_, place_polled place more nonempty⟩
      · exact (congrArg sendNumbers same).trans sends
      · exact (congrArg (fun all => all.count .recv + s.due) same).trans recvs
  | @waited n counted i point enough =>
      rw [point] at place
      refine ⟨inFlight_le, sends, recvs, place_waited place ?_ enough⟩
      exact polledSends.trans (Nat.sub_le _ _)
  | @completed left sending =>
      refine ⟨?_, ?_, ?_, place⟩
      · simp only
        omega
      · have next : s.posted - left = s.posted - s.inFlight + 1 := by omega
        simp only [SendState.polled] at sends ⊢
        rw [← List.append_assoc, sendNumbers_append, sends, next,
          List.range_succ]
        rfl
      · simp only [SendState.polled] at recvs ⊢
        rw [← List.append_assoc, List.count_append, List.count_cons_of_ne]
        · exact recvs
        · simp
  | @arrived left coming =>
      refine ⟨inFlight_le, ?_, ?_, place⟩
      · simp only [SendState.polled] at sends ⊢
        rw [← List.append_assoc, sendNumbers_append, sends]
        exact List.append_nil _
      · simp only [SendState.polled] at recvs ⊢
        rw [← List.append_assoc, List.count_append, List.count_singleton_self]
        omega

theorem Reached.accounts (looping : 1 ≤ iters) (positive : 1 ≤ txDepth)
    (ran : Reached iters txDepth s) : Accounts iters txDepth s := by
  induction ran with
  | refl => exact accounts_start looping
  | tail _ step inductionHypothesis =>
      exact inductionHypothesis.step looping positive step

/-- No wait hangs: until it has counted enough, a completion is in the queue, a
send is in flight or the server's message is due. -/
theorem wait_not_stuck (looping : 1 ≤ iters) (positive : 1 ≤ txDepth)
    (ran : Reached iters txDepth s) {n counted i : Nat}
    (point : s.point = .wait n counted i) (more : counted < n) :
    s.cq ≠ [] ∨ 1 ≤ s.inFlight ∨ 1 ≤ s.due := by
  by_contra stuck
  simp only [not_or, not_not, Nat.not_le, Nat.lt_one_iff] at stuck
  obtain ⟨empty, landed, none⟩ := stuck
  obtain ⟨_, sends, recvs, place⟩ := ran.accounts looping positive
  have all := length_sendNumbers s.polled
  have polled := congrArg List.length sends
  rw [empty, List.append_nil, List.length_range, landed, Nat.sub_zero] at polled
  rw [empty, List.append_nil, none, Nat.add_zero] at recvs
  rw [point] at place
  obtain ⟨isPosted, inLoop | ⟨isLast, isOne, waiting | ended⟩⟩ := place
  · obtain ⟨_, _, _, _, few⟩ := inLoop
    rw [SendState.polled] at all polled recvs
    omega
  · have few : (sendNumbers s.polled).length ≤
        iters - sinceWait iters txDepth iters := waiting.2.1
    omega
  · have counts := ended.1
    omega

/-! ## Runs -/

/-- A completion is polled alone. -/
theorem Reached.poll {p f due i n counted : Nat} {completion : Completion}
    {polls : List (List Completion)} (more : counted < n)
    (ran : Reached iters txDepth
      ⟨.wait n counted i, p, f, due, [completion], polls⟩) :
    Reached iters txDepth
      ⟨.wait n (counted + 1) i, p, f, due, [], polls ++ [[completion]]⟩ :=
  ran.tail (@Step.polled iters txDepth _ n counted i [completion] [] rfl more
    rfl le_rfl (Nat.le_add_left 1 9))

/-- A send completes and is polled alone. -/
theorem Reached.complete {p f due i n counted : Nat}
    {polls : List (List Completion)} (more : counted < n)
    (ran : Reached iters txDepth ⟨.wait n counted i, p, f + 1, due, [], polls⟩) :
    Reached iters txDepth ⟨.wait n (counted + 1) i, p, f, due, [],
      polls ++ [[.send (p - (f + 1))]]⟩ := by
  have completed : Reached iters txDepth
      ⟨.wait n counted i, p, f, due, [.send (p - (f + 1))], polls⟩ :=
    ran.tail (Step.completed rfl)
  exact completed.poll more

/-- A wait of the loop is over. -/
theorem Reached.resume {p f due i n counted : Nat} {cq : List Completion}
    {polls : List (List Completion)} (within : i ≤ iters) (enough : n ≤ counted)
    (ran : Reached iters txDepth ⟨.wait n counted i, p, f, due, cq, polls⟩) :
    Reached iters txDepth ⟨.post i, p, f, due, cq, polls⟩ := by
  have ended : Reached iters txDepth
      ⟨if i ≤ iters then .post i else .ended 0, p, f, due, cq, polls⟩ :=
    ran.tail (Step.waited rfl enough)
  rw [if_pos within] at ended
  exact ended

/-- Sends that complete and are polled one by one end a wait, and `lag` more
stay in flight. -/
private theorem reached_of_wait {p i n lag due counted : Nat}
    {polls : List (List Completion)} (within : i ≤ iters)
    (remaining : counted + n = txDepth)
    (ran : Reached iters txDepth
      ⟨.wait txDepth counted i, p, n + lag, due, [], polls⟩) :
    ∃ polls, Reached iters txDepth ⟨.post i, p, lag, due, [], polls⟩ := by
  induction n generalizing counted polls with
  | zero =>
      rw [Nat.zero_add] at ran
      exact ⟨polls, ran.resume within remaining.ge⟩
  | succ n inductionHypothesis =>
      rw [Nat.add_right_comm] at ran
      have polled := ran.complete (by omega)
      exact inductionHypothesis (by omega) polled

/-- The next message can be posted while nothing is completed before a wait. -/
private theorem reached_succ {lag due i : Nat} {polls : List (List Completion)}
    (positive : 1 ≤ txDepth) (within : i + 1 ≤ iters)
    (ran : Reached iters txDepth
      ⟨.post i, i, sinceWait iters txDepth i + lag, due, [], polls⟩) :
    ∃ polls, Reached iters txDepth
      ⟨.post (i + 1), i + 1, sinceWait iters txDepth (i + 1) + lag, due, [],
        polls⟩ := by
  have posted : Reached iters txDepth
      ⟨nextCall iters txDepth (i + 1), i + 1,
        sinceWait iters txDepth i + lag + 1, due, [], polls⟩ :=
    ran.tail (Step.posted rfl)
  rw [Nat.add_right_comm] at posted
  by_cases full : i + 1 < iters ∧ (i + 1) % txDepth = 0
  · rw [nextCall_of_full full] at posted
    rw [sinceWait_eq_zero full.1 full.2, Nat.zero_add]
    apply reached_of_wait within _ posted
    rw [sinceWait_add_one positive full, Nat.zero_add]
  · rw [nextCall_of_not_full within full,
      ← sinceWait_succ positive within full] at posted
    exact ⟨polls, posted⟩

/-- The loop and the latency message, when the server's message comes after
all of them. -/
private theorem reached_post (looping : 1 ≤ iters) (positive : 1 ≤ txDepth)
    {i : Nat}
    (within : i ≤ iters) : ∃ polls, Reached iters txDepth
      ⟨.post i, i, sinceWait iters txDepth i, 1, [], polls⟩ := by
  induction i with
  | zero =>
      refine ⟨[], ?_⟩
      rw [Reached, start_eq looping,
        sinceWait_eq_zero looping (Nat.zero_mod txDepth)]
  | succ i inductionHypothesis =>
      obtain ⟨polls, ran⟩ := inductionHypothesis (by omega)
      exact @reached_succ iters txDepth 0 1 i polls positive within ran

/-- The same when the first wait polls the server's message. -/
private theorem reached_post_swapped (positive : 1 ≤ txDepth)
    (more : txDepth < iters)
    {i : Nat} (windows : txDepth ≤ i) (within : i ≤ iters) :
    ∃ polls, Reached iters txDepth
      ⟨.post i, i, sinceWait iters txDepth i + 1, 0, [], polls⟩ := by
  induction i, windows using Nat.le_induction with
  | base =>
      obtain ⟨d, rfl⟩ := Nat.exists_eq_succ_of_ne_zero (Nat.ne_of_gt positive)
      obtain ⟨polls, ran⟩ := reached_post (by omega) positive
        (Nat.le_of_succ_le within)
      have full : d + 1 < iters ∧ (d + 1) % (d + 1) = 0 :=
        ⟨more, Nat.mod_self _⟩
      rw [Nat.succ.inj (sinceWait_add_one positive full)] at ran
      have posted := ran.tail (Step.posted rfl)
      rw [nextCall_of_full full] at posted
      have arrived : Reached iters (d + 1)
          ⟨.wait (d + 1) 0 (d + 1), d + 1, d + 1, 0, [.recv], polls⟩ :=
        posted.tail (Step.arrived rfl)
      rw [sinceWait_eq_zero more full.2, Nat.zero_add]
      exact reached_of_wait within (Nat.add_comm 1 d) (arrived.poll positive)
  | succ i windows inductionHypothesis =>
      obtain ⟨polls, ran⟩ := inductionHypothesis (by omega)
      exact reached_succ positive within ran

/-! ## The window -/

/-- What is outstanding before a post: what was posted since the last wait, and
one more when the server's message was counted in the place of a send. -/
theorem Accounts.outstanding_eq (accounts : Accounts iters txDepth s)
    (looping : 1 ≤ iters) {i : Nat} (point : s.point = .post i) :
    s.outstanding = sinceWait iters txDepth i +
      if Swapped (i - sinceWait iters txDepth i) s.polled then 1 else 0 := by
  have place := accounts.place
  rw [point] at place
  obtain ⟨isPosted, within, counted⟩ := place
  have since := @sinceWait_le iters txDepth i looping within
  have waited := @Counted.length_sendNumbers_eq _ s.polled counted
    accounts.count_recv_le
  rw [SendState.outstanding, isPosted]
  omega

/-- The last wait has polled the latency message when its poll returned all
that was outstanding. -/
theorem Accounts.latency_polled_iff (accounts : Accounts iters txDepth s)
    (looping : 1 ≤ iters) (point : s.point = .ended 0) :
    .send iters ∈ s.polled ↔
      ∃ earlier last, s.polls = earlier ++ [last] ∧
        (sendNumbers last).length = sinceWait iters txDepth iters + 1 +
          if Swapped (iters - sinceWait iters txDepth iters) earlier.flatten
            then 1 else 0 := by
  have place := accounts.place
  rw [point] at place
  obtain ⟨isPosted, earlier, last, isPolls, counted⟩ := place
  have since := @sinceWait_le iters txDepth iters looping le_rfl
  have isPolled : s.polled = earlier.flatten ++ last := by
    rw [SendState.polled, isPolls, List.flatten_append, List.flatten_singleton]
  have single := accounts.count_recv_le
  rw [isPolled, List.count_append] at single
  have waited := counted.length_sendNumbers_eq (by omega)
  have below := accounts.sendNumbers_polled.2
  rw [accounts.send_mem_polled]
  rw [isPolled, sendNumbers_append, List.length_append] at below ⊢
  constructor
  · intro polled
    refine ⟨earlier, last, isPolls, ?_⟩
    omega
  · rintro ⟨others, final, isOther, all⟩
    obtain ⟨rfl, isFinal⟩ := List.append_inj' (isPolls.symm.trans isOther) rfl
    obtain rfl := List.singleton_inj.1 isFinal
    omega

/-- A post fits when fewer than `tx_depth - 1` sends were posted since the last
wait, or exactly so many and the waits have not counted the server's message
in the place of a send.  The wait after the latency message has polled its
completion when its one poll returned everything outstanding. -/
theorem sendWindow_iff (looping : 1 ≤ iters) (positive : 1 ≤ txDepth)
    (ran : Reached iters txDepth s) :
    (∀ i, s.point = .post i →
      (s.outstanding + 1 ≤ txDepth ↔
        sinceWait iters txDepth i + 1 < txDepth ∨
          sinceWait iters txDepth i + 1 = txDepth ∧
            ¬ Swapped (i - sinceWait iters txDepth i) s.polled)) ∧
      (s.point = .ended 0 →
        (.send iters ∈ s.polled ↔
          ∃ earlier last, s.polls = earlier ++ [last] ∧
            (sendNumbers last).length = sinceWait iters txDepth iters + 1 +
              if Swapped (iters - sinceWait iters txDepth iters) earlier.flatten
                then 1 else 0)) := by
  have accounts := ran.accounts looping positive
  refine ⟨?_, accounts.latency_polled_iff looping⟩
  intro i point
  rw [accounts.outstanding_eq looping point]
  split
  · rename_i swapped
    simp only [swapped, not_true_eq_false, and_false, or_false]
    omega
  · rename_i distinct
    simp only [distinct, not_false_eq_true, and_true]
    omega

/-- Windows of one: the first wait has polled the server's message, so the
second post does not fit. -/
theorem sendWindow_iff_swapped :
    ¬ (⟨.post 1, 1, 1, 0, [], [[.recv]]⟩ : SendState).outstanding + 1 ≤ 1 := by
  have posted : Reached 2 1 ⟨.wait 1 0 1, 1, 1, 1, [], []⟩ :=
    ReflTransGen.single (@Step.posted 2 1 (start 2 1) 0 rfl)
  have arrived : Reached 2 1 ⟨.wait 1 0 1, 1, 1, 0, [.recv], []⟩ :=
    posted.tail (Step.arrived rfl)
  have ran : Reached 2 1 ⟨.post 1, 1, 1, 0, [], [[.recv]]⟩ :=
    (arrived.poll Nat.zero_lt_one).resume (by decide) le_rfl
  rw [(sendWindow_iff (by decide) (by decide) ran).1 1 rfl]
  decide

private theorem sinceWait_of_dvd (looping : 1 ≤ iters) (positive : 1 ≤ txDepth)
    (whole : txDepth ∣ iters) : sinceWait iters txDepth iters = txDepth := by
  have next : iters - 1 + 1 = iters := by omega
  rw [sinceWait, if_neg (Nat.lt_irrefl iters)]
  apply mod_add_one_eq positive
  rw [next]
  exact Nat.mod_eq_zero_of_dvd whole

/-- Where the loop posts whole windows, the latency message never fits. -/
private theorem overfull_of_dvd (looping : 1 ≤ iters) (positive : 1 ≤ txDepth)
    (whole : txDepth ∣ iters) (ran : Reached iters txDepth s)
    (point : s.point = .post iters) : txDepth < s.outstanding + 1 := by
  rw [(ran.accounts looping positive).outstanding_eq looping point,
    sinceWait_of_dvd looping positive whole]
  omega

/-- When every completion was polled, what is outstanding is in flight. -/
theorem Accounts.outstanding_eq_inFlight (accounts : Accounts iters txDepth s)
    (empty : s.cq = []) : s.outstanding = s.inFlight := by
  have sends := congrArg List.length accounts.sends
  rw [empty, List.append_nil, List.length_range] at sends
  have flying := accounts.inFlight_le
  rw [SendState.outstanding, sends]
  omega

private theorem sinceWait_first {i : Nat} (looping : 1 ≤ iters)
    (below : i < txDepth)
    (within : i ≤ iters) : sinceWait iters txDepth i = i := by
  rw [sinceWait]
  split
  · exact Nat.mod_eq_of_lt below
  · rw [Nat.mod_eq_of_lt (by omega)]
    omega

private theorem sinceWait_second {k : Nat} (more : txDepth < iters)
    (below : k < txDepth) (within : txDepth + k ≤ iters) :
    sinceWait iters txDepth (txDepth + k) = k := by
  induction k with
  | zero => exact sinceWait_eq_zero more (Nat.mod_self txDepth)
  | succ k inductionHypothesis =>
      have before := inductionHypothesis (by omega) (by omega)
      rw [← Nat.add_assoc, sinceWait_succ (by omega) (by omega), before]
      rintro ⟨_, full⟩
      rw [Nat.add_assoc, Nat.add_mod_left, Nat.mod_eq_of_lt below] at full
      exact Nat.succ_ne_zero k full

/-- Whatever is completed when, every post fits exactly when the loop is
shorter than a window, or ends at least two messages before the end of the
second. -/
theorem window_kept_iff (looping : 1 ≤ iters) (positive : 1 ≤ txDepth) :
    (∀ s, Reached iters txDepth s → ∀ i, s.point = .post i →
        s.outstanding + 1 ≤ txDepth) ↔
      iters < txDepth ∨ txDepth < iters ∧ iters + 1 < 2 * txDepth := by
  constructor
  · intro kept
    by_contra far
    by_cases one : iters = txDepth
    · obtain ⟨polls, ran⟩ := reached_post looping positive (le_refl iters)
      have overfull := overfull_of_dvd looping positive one.symm.dvd ran rfl
      have fits := kept _ ran iters rfl
      omega
    · -- the last message of the second window, one send behind
      obtain ⟨d, isDepth⟩ := Nat.exists_eq_add_of_le' positive
      have within : txDepth + d ≤ iters := by omega
      obtain ⟨polls, ran⟩ := reached_post_swapped positive (by omega)
        (Nat.le_add_right txDepth d) within
      have flying :=
        (ran.accounts looping positive).outstanding_eq_inFlight rfl
      have fits := kept _ ran (txDepth + d) rfl
      rw [flying] at fits
      simp only [sinceWait_second (by omega) (show d < txDepth by omega) within]
        at fits
      omega
  · intro short s ran i point
    have accounts := ran.accounts looping positive
    have within : i ≤ iters := by
      have place := accounts.place
      rw [point] at place
      exact place.2.1
    rw [accounts.outstanding_eq looping point]
    by_cases first : i < txDepth
    · rw [sinceWait_first looping first within, Nat.sub_self, if_neg]
      · exact first
      · intro swapped
        rw [List.eq_nil_of_length_eq_zero swapped.2] at swapped
        exact List.not_mem_nil swapped.1
    · obtain ⟨k, rfl⟩ := Nat.exists_eq_add_of_le (Nat.le_of_not_lt first)
      rw [sinceWait_second (by omega) (by omega) within]
      split <;> omega

/-- Whatever the window is, the client may end before the latency message is
completed. -/
theorem exists_latency_not_polled (looping : 1 ≤ iters)
    (positive : 1 ≤ txDepth) :
    ∃ s, Reached iters txDepth s ∧ s.point = .ended 0 ∧
      .send iters ∉ s.polled := by
  obtain ⟨polls, ran⟩ := reached_post looping positive (le_refl iters)
  have posted : Reached iters txDepth
      ⟨.wait 1 0 (iters + 1), iters + 1, sinceWait iters txDepth iters + 1, 1,
        [], polls⟩ := by
    have last := ran.tail (Step.posted rfl)
    rw [nextCall, if_neg (by omega), if_neg (by omega)] at last
    exact last
  have polled := posted.complete Nat.zero_lt_one
  have ended : Reached iters txDepth
      ⟨if iters + 1 ≤ iters then .post (iters + 1) else .ended 0, iters + 1,
        sinceWait iters txDepth iters, 1, [], _⟩ :=
    polled.tail (Step.waited rfl le_rfl)
  rw [if_neg (Nat.not_succ_le_self iters)] at ended
  refine ⟨_, ended, rfl, ?_⟩
  have accounts := ended.accounts looping positive
  have below := accounts.sendNumbers_polled.2
  have left : 1 ≤ sinceWait iters txDepth iters := by
    rw [sinceWait, if_neg (Nat.lt_irrefl iters)]
    exact Nat.le_add_left 1 _
  rw [accounts.send_mem_polled]
  simp only at below ⊢
  omega

/-- In windows of 100, the latency message is the 101st send since the last
wait, and nothing has to be completed by then. -/
theorem sendWindow_overfull : ¬ ∀ s,
    Reached ibNumOfCycle ibPacketPerCycle s →
      (∀ i, s.point = .post i → s.outstanding + 1 ≤ ibPacketPerCycle) ∧
        (s.point = .ended 0 → .send ibNumOfCycle ∈ s.polled) := by
  intro fits
  have looping : 1 ≤ ibNumOfCycle := by decide
  have positive : 1 ≤ ibPacketPerCycle := by decide
  obtain ⟨polls, ran⟩ := reached_post looping positive (le_refl ibNumOfCycle)
  have overfull := overfull_of_dvd looping positive (by decide) ran rfl
  have window := (fits _ ran).1 ibNumOfCycle rfl
  omega

end RdmaKv.Ex2.SendWindow
