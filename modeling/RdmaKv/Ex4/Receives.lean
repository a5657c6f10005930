import RdmaKv.Ex4.Client
import RdmaKv.Library.QueuePair

/-!
# The receives of a client's connections

`pp_post_recv` is called once by `orig_main`, by every call that waits for a
reply, and by `pp_wait_completions` for every receive that it counts.  A queue
pair that is created with `max_recv_wr = 1` holds `capacity ≥ 1` receives; what
does not fit is refused, and the client does not look.
-/

namespace RdmaKv

open QueuePair Relation

/-- What a call does with one connection, in the order of the source: it posts
a receive, posts a send (of a request that is answered, or of something else),
or waits for so many completions. -/
inductive ConnAct where
  | postRecv
  | postSend (asks : Bool)
  | wait (iters : Nat)
  deriving DecidableEq

/-- The ways through `kv_set`: the eager protocol, an RDMA write into a cached
buffer, and a request with an RDMA write into the buffer of the reply. -/
inductive SetPath where
  | eager
  | cached
  | requested

/-- The ways through `kv_get`: the packet is too long, an RDMA read of a cached
buffer, and a request with a reply of either protocol or another one. -/
inductive GetPath where
  | tooLong
  | cached
  | eagerResponse
  | rendezvousResponse
  | otherResponse

/-- A call of `dkv_set` or `dkv_get`, by the server that is selected and the way
it goes there. -/
inductive DkvCall where
  | set (selectedServer : Nat) (path : SetPath)
  | get (selectedServer : Nat) (path : GetPath)

/-- A request and the wait for its reply: `dkv_set` and `dkv_get` on the
connection to the index server. -/
def findActs : List ConnAct := [.postRecv, .postSend true, .wait 2]

def SetPath.acts : SetPath → List ConnAct
  | eager => [.postSend false, .wait 1]
  | cached => [.postSend false, .wait 1]
  | requested =>
      [.postRecv, .postSend true, .wait 2, .postSend false, .wait 1]

def GetPath.acts : GetPath → List ConnAct
  | tooLong => []
  | cached => [.postSend false, .wait 1]
  | eagerResponse => [.postRecv, .postSend true, .wait 2]
  | rendezvousResponse =>
      [.postRecv, .postSend true, .wait 2, .postSend false, .wait 1]
  | otherResponse => [.postRecv, .postSend true, .wait 2]

def DkvCall.acts (call : DkvCall) : Conn → List ConnAct
  | .indexer => findActs
  | .server id =>
      match call with
      | set selectedServer path => if id = selectedServer then path.acts else []
      | get selectedServer path => if id = selectedServer then path.acts else []

def actsOf (conn : Conn) (calls : List DkvCall) : List ConnAct :=
  calls.flatMap fun call => call.acts conn

/-- A connection, and what the client has still to do with it: the receives
that are posted and not consumed, the sends that are not completed, the
replies that have not arrived, and the completions that were not polled. -/
structure ConnState where
  todo : List ConnAct
  recvs : Nat
  sends : Nat
  replies : Nat
  cq : List WrId

namespace ConnState

/-- After `orig_main`. -/
def start (conn : Conn) (calls : List DkvCall) : ConnState :=
  ⟨actsOf conn calls, 1, 0, 0, []⟩

def ppPostRecv (capacity recvs : Nat) : Nat :=
  if recvs < capacity then recvs + 1 else recvs

/-- The loop over what `ibv_poll_cq` has returned. -/
def lookAt (capacity : Nat) (recvs : Nat) : List WrId → Nat
  | [] => recvs
  | .send :: rest => lookAt capacity recvs rest
  | .recv :: rest => lookAt capacity (ppPostRecv capacity recvs) rest

/-- What happens on a connection: the client goes on, a send completes, or a
reply arrives, for which it needs a receive. -/
inductive Step (capacity : Nat) : ConnState → ConnState → Prop
  | postRecv {s : ConnState} {rest : List ConnAct}
      (next : s.todo = .postRecv :: rest) :
      Step capacity s { s with
        todo := rest
        recvs := ppPostRecv capacity s.recvs }
  | postSend {s : ConnState} {asks : Bool} {rest : List ConnAct}
      (next : s.todo = .postSend asks :: rest) :
      Step capacity s { s with
        todo := rest
        sends := s.sends + 1
        replies := s.replies + if asks then 1 else 0 }
  | poll {s : ConnState} {left : Nat} {rest : List ConnAct}
      {batch later : List WrId} (next : s.todo = .wait (left + 1) :: rest)
      (completed : s.cq = batch ++ later)
      (few : batch.length = 1 ∨ batch.length = 2) :
      Step capacity s { s with
        todo := .wait (left + 1 - batch.length) :: rest
        recvs := lookAt capacity s.recvs batch
        cq := later }
  | waited {s : ConnState} {rest : List ConnAct}
      (next : s.todo = .wait 0 :: rest) :
      Step capacity s { s with todo := rest }
  | completed {s : ConnState} {sends : Nat} (posted : s.sends = sends + 1) :
      Step capacity s { s with sends := sends, cq := s.cq ++ [.send] }
  | arrived {s : ConnState} {replies recvs : Nat}
      (due : s.replies = replies + 1) (ready : s.recvs = recvs + 1) :
      Step capacity s { s with
        replies := replies
        recvs := recvs
        cq := s.cq ++ [.recv] }

end ConnState

/-! ## Rounds -/

/-- A post that is waited for, of a request or of something else. -/
inductive Round where
  | ask
  | tell

def Round.acts : Round → List ConnAct
  | ask => [.postRecv, .postSend true, .wait 2]
  | tell => [.postSend false, .wait 1]

/-- The calls consist of rounds. -/
private theorem exists_rounds (conn : Conn) (calls : List DkvCall) :
    ∃ rounds : List Round, actsOf conn calls = rounds.flatMap Round.acts := by
  have one (call : DkvCall) : ∃ rounds : List Round,
      call.acts conn = rounds.flatMap Round.acts := by
    cases conn with
    | indexer => exact ⟨[.ask], rfl⟩
    | server id =>
        cases call with
        | set selectedServer path =>
            unfold DkvCall.acts
            simp only
            split
            · cases path with
              | eager => exact ⟨[.tell], rfl⟩
              | cached => exact ⟨[.tell], rfl⟩
              | requested => exact ⟨[.ask, .tell], rfl⟩
            · exact ⟨[], rfl⟩
        | get selectedServer path =>
            unfold DkvCall.acts
            simp only
            split
            · cases path with
              | tooLong => exact ⟨[], rfl⟩
              | cached => exact ⟨[.tell], rfl⟩
              | eagerResponse => exact ⟨[.ask], rfl⟩
              | rendezvousResponse => exact ⟨[.ask, .tell], rfl⟩
              | otherResponse => exact ⟨[.ask], rfl⟩
            · exact ⟨[], rfl⟩
  induction calls with
  | nil => exact ⟨[], rfl⟩
  | cons call rest inductionHypothesis =>
      obtain ⟨first, isFirst⟩ := one call
      obtain ⟨later, isLater⟩ := inductionHypothesis
      refine ⟨first ++ later, ?_⟩
      rw [List.flatMap_append, ← isFirst, ← isLater]
      rfl

/-! ## The invariant -/

namespace ConnState

/-- Where the client is, by what is pending on the connection: between two
rounds, before the send of a request, or in a wait. -/
inductive Shape : List ConnAct → Nat → Prop
  | idle (rounds : List Round) : Shape (rounds.flatMap Round.acts) 0
  | asking (rounds : List Round) :
      Shape (.postSend true :: .wait 2 :: rounds.flatMap Round.acts) 0
  | waiting (pending : Nat) (rounds : List Round) :
      Shape (.wait pending :: rounds.flatMap Round.acts) pending

/-- The receives that are posted or have a completion are those that were
posted so far, as far as the queue holds them. -/
structure Accounts (capacity total : Nat) (s : ConnState) : Prop where
  shape : Shape s.todo (s.sends + s.replies + s.cq.length)
  single : s.replies + s.cq.count .recv ≤ 1
  recvs : ∃ posted, posted + s.todo.count .postRecv = total + 1 ∧ 1 ≤ posted ∧
    s.recvs + s.cq.count .recv = min capacity posted

variable {capacity total : Nat} {s s' : ConnState}

private theorem accounts_start (positive : 1 ≤ capacity) (conn : Conn)
    (calls : List DkvCall) :
    (start conn calls).Accounts capacity
      ((actsOf conn calls).count .postRecv) := by
  obtain ⟨rounds, isFlat⟩ := exists_rounds conn calls
  refine ⟨?_, by simp [start], 1, ?_, le_rfl, ?_⟩
  · simp only [start, isFlat]
    exact Shape.idle rounds
  · rw [start, Nat.add_comm]
  · simp only [start, List.count_nil]
    omega

/-- A receive that is posted for one that was consumed fits. -/
private theorem lookAt_eq {batch : List WrId} {recvs : Nat}
    (fits : recvs + batch.count .recv ≤ capacity) :
    lookAt capacity recvs batch = recvs + batch.count .recv := by
  induction batch generalizing recvs with
  | nil => rfl
  | cons first rest inductionHypothesis =>
      cases first with
      | send =>
          rw [List.count_cons_of_ne (by decide)] at fits ⊢
          exact inductionHypothesis fits
      | recv =>
          rw [List.count_cons_self] at fits ⊢
          rw [lookAt, ppPostRecv, if_pos (by omega),
            inductionHypothesis (by omega)]
          omega

/-- Nothing is pending where the client is not in a wait. -/
theorem Shape.rest_of_postRecv {rest : List ConnAct} {pending : Nat}
    (shape : Shape (.postRecv :: rest) pending) :
    pending = 0 ∧ Shape rest 0 := by
  generalize isTodo : ConnAct.postRecv :: rest = todo at shape
  cases shape with
  | idle rounds =>
      rcases rounds with _ | ⟨_ | _, later⟩
      · exact absurd isTodo (by simp)
      · obtain ⟨_, rfl⟩ := List.cons.inj isTodo
        exact ⟨rfl, Shape.asking later⟩
      · exact absurd (List.cons.inj isTodo).1 (by simp)
  | asking rounds => exact absurd (List.cons.inj isTodo).1 (by simp)
  | waiting pending rounds => exact absurd (List.cons.inj isTodo).1 (by simp)

theorem Shape.rest_of_postSend {asks : Bool} {rest : List ConnAct}
    {pending : Nat} (shape : Shape (.postSend asks :: rest) pending) :
    pending = 0 ∧ Shape rest (1 + if asks then 1 else 0) := by
  generalize isTodo : ConnAct.postSend asks :: rest = todo at shape
  cases shape with
  | idle rounds =>
      rcases rounds with _ | ⟨_ | _, later⟩
      · exact absurd isTodo (by simp)
      · exact absurd (List.cons.inj isTodo).1 (by simp)
      · obtain ⟨same, rfl⟩ := List.cons.inj isTodo
        obtain rfl := ConnAct.postSend.inj same
        exact ⟨rfl, Shape.waiting 1 later⟩
  | asking rounds =>
      obtain ⟨same, rfl⟩ := List.cons.inj isTodo
      obtain rfl := ConnAct.postSend.inj same
      exact ⟨rfl, Shape.waiting 2 rounds⟩
  | waiting pending rounds => exact absurd (List.cons.inj isTodo).1 (by simp)

theorem Shape.rest_of_wait {left : Nat} {rest : List ConnAct} {pending : Nat}
    (shape : Shape (.wait left :: rest) pending) :
    pending = left ∧ ∃ rounds : List Round,
      rest = rounds.flatMap Round.acts := by
  generalize isTodo : ConnAct.wait left :: rest = todo at shape
  cases shape with
  | idle rounds =>
      rcases rounds with _ | ⟨_ | _, later⟩
      · exact absurd isTodo (by simp)
      · exact absurd (List.cons.inj isTodo).1 (by simp)
      · exact absurd (List.cons.inj isTodo).1 (by simp)
  | asking rounds => exact absurd (List.cons.inj isTodo).1 (by simp)
  | waiting pending rounds =>
      obtain ⟨same, rfl⟩ := List.cons.inj isTodo
      exact ⟨(ConnAct.wait.inj same).symm, rounds, rfl⟩

theorem Shape.nothing_of_rounds {rounds : List Round} {pending : Nat}
    (shape : Shape (rounds.flatMap Round.acts) pending) : pending = 0 := by
  rcases rounds with _ | ⟨_ | _, later⟩
  · generalize isNil : ([] : List Round).flatMap Round.acts = todo at shape
    cases shape with
    | idle rounds => rfl
    | asking rounds => rfl
    | waiting pending rounds => exact absurd isNil (by simp)
  · exact shape.rest_of_postRecv.1
  · exact shape.rest_of_postSend.1

/-- One step keeps the accounts. -/
theorem Accounts.step (accounts : s.Accounts capacity total)
    (step : Step capacity s s') : s'.Accounts capacity total := by
  obtain ⟨shape, single, posted, remaining, positive, recvs⟩ := accounts
  cases step with
  | @postRecv rest next =>
      rw [next] at shape remaining
      rw [List.count_cons_self] at remaining
      obtain ⟨nothing, isRest⟩ := shape.rest_of_postRecv
      have empty : s.cq = [] := List.eq_nil_of_length_eq_zero (by omega)
      have none : s.sends + s.replies + s.cq.length = 0 := nothing
      simp only [empty, List.count_nil, Nat.add_zero] at recvs
      refine ⟨by simpa only [none] using isRest, single, posted + 1, ?_, ?_, ?_⟩
      · simp only
        omega
      · exact Nat.le_add_left 1 posted
      · simp only [empty, List.count_nil, ppPostRecv]
        split <;> omega
  | @postSend asks rest next =>
      rw [next] at shape remaining
      rw [List.count_cons_of_ne (by simp)] at remaining
      obtain ⟨nothing, isRest⟩ := shape.rest_of_postSend
      have empty : s.cq = [] := List.eq_nil_of_length_eq_zero (by omega)
      refine ⟨?_, ?_, posted, remaining, positive, recvs⟩
      · have pending : s.sends + 1 + (s.replies + if asks then 1 else 0) +
            s.cq.length = 1 + if asks then 1 else 0 := by omega
        simpa only [pending] using isRest
      · simp only [empty, List.count_nil]
        split <;> omega
  | @poll left rest batch later next completed few =>
      rw [next] at shape remaining
      rw [List.count_cons_of_ne (by simp)] at remaining
      obtain ⟨pending, rounds, rfl⟩ := shape.rest_of_wait
      simp only [completed, List.length_append, List.count_append] at *
      have fits : s.recvs + batch.count .recv ≤ capacity := by omega
      refine ⟨?_, ?_, posted, ?_, positive, ?_⟩
      · have still : s.sends + s.replies + later.length =
            left + 1 - batch.length := by omega
        simp only [still]
        exact Shape.waiting _ rounds
      · simp only
        omega
      · simp only
        rw [List.count_cons_of_ne (by simp)]
        exact remaining
      · simp only [lookAt_eq fits]
        omega
  | @waited rest next =>
      rw [next] at shape remaining
      rw [List.count_cons_of_ne (by simp)] at remaining
      obtain ⟨pending, rounds, rfl⟩ := shape.rest_of_wait
      refine ⟨?_, single, posted, remaining, positive, recvs⟩
      simp only [pending]
      exact Shape.idle rounds
  | @completed sends isPosted =>
      refine ⟨?_, ?_, posted, remaining, positive, ?_⟩
      · have same : sends + s.replies + (s.cq ++ [WrId.send]).length =
            s.sends + s.replies + s.cq.length := by
          rw [List.length_append, List.length_singleton]
          omega
        simpa only [same] using shape
      · simpa using single
      · simpa using recvs
  | @arrived replies left due ready =>
      refine ⟨?_, ?_, posted, remaining, positive, ?_⟩
      · have same : s.sends + replies + (s.cq ++ [WrId.recv]).length =
            s.sends + s.replies + s.cq.length := by
          rw [List.length_append, List.length_singleton]
          omega
        simpa only [same] using shape
      · simp only [List.count_append, List.count_singleton_self]
        omega
      · simp only [List.count_append, List.count_singleton_self]
        omega

theorem Accounts.steps (accounts : s.Accounts capacity total)
    (steps : ReflTransGen (Step capacity) s s') :
    s'.Accounts capacity total := by
  induction steps with
  | refl => exact accounts
  | tail _ step inductionHypothesis => exact inductionHypothesis.step step

/-- Between two rounds all receives that were posted are there. -/
theorem Accounts.recvs_of_rounds (accounts : s.Accounts capacity total)
    {rounds : List Round} (isTodo : s.todo = rounds.flatMap Round.acts) :
    ∃ posted, posted + s.todo.count .postRecv = total + 1 ∧
      s.recvs = min capacity posted := by
  obtain ⟨shape, _, posted, remaining, _, recvs⟩ := accounts
  rw [isTodo] at shape
  have nothing : s.cq.length = 0 := by
    have none := shape.nothing_of_rounds
    omega
  have empty : s.cq = [] := List.eq_nil_of_length_eq_zero nothing
  refine ⟨posted, remaining, ?_⟩
  simpa [empty] using recvs

/-- How many requests that are answered some calls make on a connection. -/
def requests (conn : Conn) (calls : List DkvCall) : Nat :=
  (actsOf conn calls).count .postRecv

/-- On every connection of the client, whatever the calls, the order and the
batches in which things complete: between two calls one receive is posted
exactly if the queue holds no more than one, or no request that is answered
was made, and a reply that may arrive finds a receive. -/
theorem receives_iff (positive : 1 ≤ capacity) (conn : Conn)
    (calls : List DkvCall) (steps : ReflTransGen (Step capacity)
      (start conn calls) s) :
    (∀ before after, calls = before ++ after → s.todo = actsOf conn after →
      (s.recvs = 1 ↔ capacity = 1 ∨ requests conn before = 0)) ∧
    (s.replies ≠ 0 → 1 ≤ s.recvs) := by
  have accounts := (accounts_start positive conn calls).steps steps
  constructor
  · intro before after split isTodo
    obtain ⟨rounds, isFlat⟩ := exists_rounds conn after
    obtain ⟨posted, remaining, recvs⟩ :=
      accounts.recvs_of_rounds (isTodo.trans isFlat)
    have total : (actsOf conn calls).count .postRecv =
        requests conn before + (actsOf conn after).count .postRecv := by
      rw [split, requests, actsOf, List.flatMap_append, List.count_append]
      rfl
    rw [isTodo] at remaining
    rw [recvs]
    omega
  · intro due
    obtain ⟨_, single, posted, _, posted1, recvs⟩ := accounts
    omega

/-- One `dkv_get` with a queue for two receives, on the connection to the index
server. -/
def oneGet : List DkvCall := [.get 0 .eagerResponse]

def afterGet : ConnState := ⟨[], 2, 0, 0, []⟩

private theorem steps_oneGet :
    ReflTransGen (Step 2) (start .indexer oneGet) afterGet := by
  have posts : Step 2 (start .indexer oneGet)
      ⟨[.postSend true, .wait 2], 2, 0, 0, []⟩ := .postRecv rfl
  have sends : Step 2 ⟨[.postSend true, .wait 2], 2, 0, 0, []⟩
      ⟨[.wait 2], 2, 1, 1, []⟩ :=
    @Step.postSend 2 ⟨[.postSend true, .wait 2], 2, 0, 0, []⟩ true _ rfl
  have completes : Step 2 ⟨[.wait 2], 2, 1, 1, []⟩
      ⟨[.wait 2], 2, 0, 1, [.send]⟩ := .completed rfl
  have arrives : Step 2 ⟨[.wait 2], 2, 0, 1, [.send]⟩
      ⟨[.wait 2], 1, 0, 0, [.send, .recv]⟩ := .arrived rfl rfl
  have polls : Step 2 ⟨[.wait 2], 1, 0, 0, [.send, .recv]⟩
      ⟨[.wait 0], 2, 0, 0, []⟩ :=
    @Step.poll 2 ⟨[.wait 2], 1, 0, 0, [.send, .recv]⟩ 1 [] [.send, .recv] []
      rfl rfl (Or.inr rfl)
  have waits : Step 2 ⟨[.wait 0], 2, 0, 0, []⟩ afterGet := .waited rfl
  exact .head posts (.head sends (.head completes (.head arrives
    (.head polls (.single waits)))))

theorem receives_iff_oneGet :
    (∀ before after, oneGet = before ++ after →
      afterGet.todo = actsOf .indexer after →
        (afterGet.recvs = 1 ↔ 2 = 1 ∨ requests .indexer before = 0)) ∧
      (afterGet.replies ≠ 0 → 1 ≤ afterGet.recvs) :=
  receives_iff (by decide) .indexer oneGet steps_oneGet

/-- After it there are two receives. -/
theorem receives_fails :
    ¬ ∀ capacity, 1 ≤ capacity → ∀ (conn : Conn) (calls : List DkvCall) s,
      ReflTransGen (Step capacity) (start conn calls) s →
        ∀ before after, calls = before ++ after →
          s.todo = actsOf conn after → s.recvs = 1 := by
  intro always
  exact absurd (always 2 (by decide) .indexer oneGet _ steps_oneGet oneGet []
    rfl rfl) (by decide)

end ConnState

end RdmaKv
