import RdmaKv.Ex3.EagerRuns
import RdmaKv.Ex3.RendezvousRuns
import RdmaKv.Library.Interaction
import RdmaKv.Library.QueuePair

/-!
# The waits of `kv_template.c`

A client waits for completions: one for everything that it posts and one for
every reply.  Whether they come depends on which requests the server answers
and on how many completions the earlier waits took.

The client and the server have one connection, on which messages arrive in
order, and whose send queues take what is posted.  The server has one receive,
which is posted again when a request was handled.  An operation that fails
completes with an error, which ends the wait; nothing is said about a
connection after that.
-/

namespace RdmaKv.Ex3

open Interaction QueuePair Relation ByteMemory

/-! ## The server -/

inductive WireRequest where
  | eager (request : EagerRequest)
  | rndvGet (key : CString)
  | rndvSet (key : CString)

def WireRequest.answered : WireRequest → Bool
  | eager (.get _) => true
  | eager (.set _ _) => false
  | rndvGet _ => false
  | rndvSet _ => true

/-- `case RENDEZVOUS_GET_REQUEST` of `handle_server_packets_only`: a buffer is
taken, and `response_size` stays zero. -/
def RndvServer.getRequest (s : RndvServer) : Option RndvServer :=
  match s.rndvPool with
  | [] => none
  | node :: rest =>
      some { s with
        rndvPool := rest
        rndvPoolNodesCounter := s.rndvPoolNodesCounter - 1
        rndvNodes := s.rndvNodes ++ [node] }

structure TemplateServer where
  eager : Server
  rndv : RndvServer

/-- `handle_server_packets_only` and the loop that fills the pool, and whether
a reply is posted. -/
def TemplateServer.Handles (s : TemplateServer) (request : WireRequest)
    (s' : TemplateServer) (replies : Bool) : Prop :=
  match request with
  | .eager request =>
      ∃ block reply, s.eager.MayAllocate block request ∧
        s.eager.Handles block request s'.eager reply ∧
        s'.rndv = s.rndv.fillPool ∧ replies = reply.isSome
  | .rndvGet _ =>
      ∃ rndv, s.rndv.getRequest = some rndv ∧
        s' = ⟨s.eager, rndv.fillPool⟩ ∧ replies = false
  | .rndvSet key =>
      ∃ node rndv, s.rndv.setRequest key = some (node, rndv) ∧
        s' = ⟨s.eager, rndv.fillPool⟩ ∧ replies = true

/-! ## The client -/

/-- What a call does with the connection, in the order of the source.  `post`
is an operation that nobody answers. -/
inductive TemplateAct where
  | postRecv
  | send (request : WireRequest)
  | post
  | wait (iters : Nat)

/-- A call, with `use_rndv_protocol` at that time. -/
inductive TemplateCall where
  | set (useRndv : Bool) (key value : CString)
  | get (useRndv : Bool) (key : CString)

/-- What a call does, and the keys between `cache_node_head` and
`cache_node_tail` when it returns, if it does so on a connection that still
works. -/
abbrev CallActs := List TemplateAct × Option (List CString)

/-- `kv_set`.  A packet that is larger than the receive buffer of the server is
not delivered, and the assertion behind its wait fails. -/
def setActs (useRndv : Bool) (key value : CString) (cache : List CString) :
    CallActs :=
  let packetSize :=
    (key.length + 1 + value.length + sizeofPacket) % unsignedRange
  if useRndv = false ∧ packetSize < eagerProtocolLimit then
    if 12 + (key.length + 1) + (value.length + 1) ≤ eagerProtocolLimit then
      ([.send (.eager (.set key value.chars)), .wait 1], some cache)
    else ([], none)
  else if key ∈ cache then
    if value.length + 1 ≤ maxTestSize then ([.post, .wait 1], some cache)
    else ([], none)
  else
    let keyLength := key.length % unsignedRange
    if keyLength + 1 + sizeofPacket ≤ eagerProtocolLimit then
      let asks : List TemplateAct :=
        [.postRecv, .send (.rndvSet (key.take keyLength)), .wait 2]
      if value.length + 1 ≤ maxTestSize then
        (asks ++ [.post, .wait 1], some (cache ++ [key.take keyLength]))
      else (asks, none)
    else ([.postRecv, .post, .wait 1], none)

/-- `kv_get`.  The second search of the cache stays at the first node, and the
assertion behind a `RENDEZVOUS_GET_REQUEST` is that the wait fails. -/
def getActs (useRndv : Bool) (key : CString) (cache : List CString) :
    CallActs :=
  if useRndv = true ∧ key ∈ cache then ([.post, .wait 1], some cache)
  else
    let keyLength := key.length % unsignedRange
    let packetSize := (keyLength + 1 + sizeofPacket) % unsignedRange
    if useRndv = false ∧ packetSize < eagerProtocolLimit then
      if 8 + (key.length + 1) ≤ eagerProtocolLimit then
        ([.send (.eager (.get key)), .wait 1, .wait 1], some cache)
      else ([], none)
    else
      match cache with
      | [] =>
          if keyLength + 1 + sizeofPacket ≤ eagerProtocolLimit then
            ([.postRecv, .send (.rndvGet key), .wait 2], none)
          else ([.postRecv, .post, .wait 1], none)
      | first :: _ =>
          if first = key then ([.postRecv, .post, .wait 2], some cache)
          else ([], none)

def TemplateCall.acts : TemplateCall → List CString → CallActs
  | set useRndv key value => setActs useRndv key value
  | get useRndv key => getActs useRndv key

def templateActs : List TemplateCall → List CString → List TemplateAct
  | [], _ => []
  | call :: calls, cache =>
      match call.acts cache with
      | (acts, some cache) => acts ++ templateActs calls cache
      | (acts, none) => acts

/-! ## The connection -/

/-- A connection, and what the client has still to do with it: the requests
that have not arrived, the one that is in `ctx->buf` of the server, the
operations that were executed and are not completed, the replies that have not
arrived, the receives of the client and its completions. -/
structure WaitState where
  todo : List TemplateAct
  toServer : List WireRequest
  handling : Option WireRequest
  executed : Nat
  replies : Nat
  recvs : Nat
  cq : List WrId
  server : TemplateServer

namespace WaitState

def start (server : TemplateServer) (calls : List TemplateCall) : WaitState :=
  ⟨templateActs calls [], [], none, 0, 0, 1, [], server⟩

/-- `pp_post_recv(ctx, 1)` with so many receives in a queue for `capacity`. -/
def ppPostRecv (capacity recvs : Nat) : Nat :=
  if recvs < capacity then recvs + 1 else recvs

/-- The loop over what `ibv_poll_cq` has returned.  The packets that arrive at
the client are none that `handle_server_packets_only` acts on. -/
def lookAt (capacity recvs : Nat) : List WrId → Nat
  | [] => recvs
  | .send :: rest => lookAt capacity recvs rest
  | .recv :: rest => lookAt capacity (ppPostRecv capacity recvs) rest

/-- What happens without the client. -/
inductive Serves : WaitState → WaitState → Prop
  | deliver {s : WaitState} {request : WireRequest} {rest : List WireRequest}
      (sent : s.toServer = request :: rest) (idle : s.handling = none) :
      Serves s { s with
        toServer := rest
        handling := some request
        executed := s.executed + 1 }
  | complete {s : WaitState} {executed : Nat}
      (done : s.executed = executed + 1) :
      Serves s { s with executed := executed, cq := s.cq ++ [.send] }
  | handle {s : WaitState} {request : WireRequest} {server : TemplateServer}
      {replies : Bool} (next : s.handling = some request)
      (handles : s.server.Handles request server replies) :
      Serves s { s with
        handling := none
        replies := s.replies + replies.toNat
        server := server }
  | arrive {s : WaitState} {replies recvs : Nat}
      (due : s.replies = replies + 1) (ready : s.recvs = recvs + 1) :
      Serves s { s with
        replies := replies
        recvs := recvs
        cq := s.cq ++ [.recv] }

/-- What happens.  If `orderly`, a poll takes no more completions than the wait
that it is part of still needs. -/
inductive Step (capacity : Nat) (orderly : Prop) : WaitState → WaitState → Prop
  | serves {s s' : WaitState} (step : Serves s s') : Step capacity orderly s s'
  | postRecv {s : WaitState} {rest : List TemplateAct}
      (next : s.todo = .postRecv :: rest) :
      Step capacity orderly s { s with
        todo := rest
        recvs := ppPostRecv capacity s.recvs }
  | send {s : WaitState} {request : WireRequest} {rest : List TemplateAct}
      (next : s.todo = .send request :: rest) :
      Step capacity orderly s { s with
        todo := rest
        toServer := s.toServer ++ [request] }
  | post {s : WaitState} {rest : List TemplateAct}
      (next : s.todo = .post :: rest) :
      Step capacity orderly s { s with
        todo := rest
        executed := s.executed + 1 }
  | poll {s : WaitState} {left : Nat} {rest : List TemplateAct}
      {batch later : List WrId} (next : s.todo = .wait (left + 1) :: rest)
      (completed : s.cq = batch ++ later)
      (few : batch.length = 1 ∨ batch.length = 2)
      (fits : orderly → batch.length ≤ left + 1) :
      Step capacity orderly s { s with
        todo := .wait (left + 1 - batch.length) :: rest
        recvs := lookAt capacity s.recvs batch
        cq := later }
  | waited {s : WaitState} {rest : List TemplateAct}
      (next : s.todo = .wait 0 :: rest) :
      Step capacity orderly s { s with todo := rest }

/-! ## When the waits can be satisfied -/

end WaitState

/-- The posted operations and the replies cover the waits, if so many
completions are owed, and there is one operation at a time. -/
def Balanced : Nat → List TemplateAct → Prop
  | _, [] => True
  | owed, .postRecv :: rest => Balanced owed rest
  | owed, .send request :: rest =>
      owed = 0 ∧ Balanced (1 + request.answered.toNat) rest
  | owed, .post :: rest => owed = 0 ∧ Balanced 1 rest
  | owed, .wait iters :: rest => iters ≤ owed ∧ Balanced (owed - iters) rest

def WireRequest.eager? : WireRequest → Option EagerRequest
  | eager request => some request
  | _ => none

def TemplateAct.request? : TemplateAct → Option WireRequest
  | send request => some request
  | _ => none

namespace RndvServer

/-- The pool after a `RENDEZVOUS_GET_REQUEST` is the one after a set. -/
private theorem getRequest_eq (s : RndvServer) :
    s.getRequest = (s.setRequest CString.empty).map Prod.snd := by
  unfold getRequest setRequest
  cases s.rndvPool with
  | nil => rfl
  | cons node rest =>
      have same : (fun other =>
          if other = node then
            (s.buffers node).copy 0 CString.empty.length CString.empty.memory
          else s.buffers other) = s.buffers := by
        funext other
        by_cases here : other = node
        · subst here
          rw [if_pos rfl]
          funext i
          exact Memory.copy_outside _ _ (Or.inr (Nat.zero_le i))
        · exact if_neg here
      simp only [same, Option.map_some]

theorem Ready.fillPool {s : RndvServer} {used : List Nat}
    (ready : s.Ready used) : s.fillPool = s := by
  unfold RndvServer.fillPool
  rw [ready.counted, Nat.sub_self]
  rfl

end RndvServer

namespace TemplateServer

/-- What the server needs for the requests to come: no key is set twice by the
eager protocol, and the pool is full. -/
structure Serving (s : TemplateServer) (requests : List EagerRequest) :
    Prop where
  store : ∃ past nodes, s.eager.Stores nodes (EagerRequest.pairs past) ∧
    Server.SetsOnce (past ++ requests)
  pool : ∃ used, s.rndv.Ready used

variable {s s' : TemplateServer} {request : WireRequest} {replies : Bool}
  {later : List WireRequest}

/-- A reply is posted exactly to what is answered. -/
private theorem replies_of_handles (handles : s.Handles request s' replies) :
    replies = request.answered := by
  cases request with
  | eager request =>
      obtain ⟨block, reply, _, ⟨fuel, ran⟩, _, rfl⟩ := handles
      cases request with
      | set key value =>
          obtain ⟨_, _, same⟩ := Option.map_eq_some_iff.mp ran
          obtain ⟨_, rfl⟩ := Prod.mk.inj same
          rfl
      | get key =>
          obtain ⟨_, _, same⟩ := Option.map_eq_some_iff.mp ran
          obtain ⟨_, rfl⟩ := Prod.mk.inj same
          rfl
  | rndvGet key =>
      obtain ⟨_, _, _, rfl⟩ := handles
      rfl
  | rndvSet key =>
      obtain ⟨_, _, _, _, rfl⟩ := handles
      rfl

theorem Serving.handles
    (serving : s.Serving ((request :: later).filterMap WireRequest.eager?)) :
    ∃ s', s.Handles request s' request.answered := by
  obtain ⟨⟨past, nodes, stores, once⟩, used, ready⟩ := serving
  cases request with
  | eager request =>
      obtain ⟨address, outside⟩ := Infinite.exists_notMem_finset nodes.toFinset
      have free : s.eager.nodes address = none := by
        by_contra live
        exact outside (List.mem_toFinset.mpr (stores.only address live))
      have may : s.eager.MayAllocate ⟨address, none, none, 0, Memory.zero⟩
          request := by
        cases request with
        | set key value => exact Or.inl free
        | get key => trivial
      obtain ⟨t, reply, handled⟩ := Server.exists_handles stores
        (fun key value same => once past key value _ (by rw [same]; rfl)) may
      have handles : s.Handles (.eager request) ⟨t, s.rndv.fillPool⟩
          reply.isSome := ⟨_, reply, may, handled, rfl, rfl⟩
      exact ⟨_, replies_of_handles handles ▸ handles⟩
  | rndvGet key =>
      obtain ⟨node, rndv, ran, _⟩ := ready.setRequest CString.empty
      refine ⟨⟨s.eager, rndv.fillPool⟩, rndv, ?_, rfl, rfl⟩
      rw [RndvServer.getRequest_eq, ran]
      rfl
  | rndvSet key =>
      obtain ⟨node, rndv, ran, _⟩ := ready.setRequest key
      exact ⟨⟨s.eager, rndv.fillPool⟩, node, rndv, ran, rfl, rfl⟩

theorem Serving.handled
    (serving : s.Serving ((request :: later).filterMap WireRequest.eager?))
    (handles : s.Handles request s' replies) :
    s'.Serving (later.filterMap WireRequest.eager?) := by
  obtain ⟨⟨past, nodes, stores, once⟩, used, ready⟩ := serving
  cases request with
  | eager request =>
      obtain ⟨block, reply, may, handled, pool, _⟩ := handles
      obtain ⟨nodes', stores'⟩ := Server.handles_stores stores
        (fun key value same => once past key value _ (by rw [same]; rfl)) may
        handled
      refine ⟨⟨past ++ [request], nodes', stores', ?_⟩, used, ?_⟩
      · rw [List.append_assoc]
        exact once
      · rw [pool, ready.fillPool]
        exact ready
  | rndvGet key =>
      obtain ⟨rndv, ran, rfl, _⟩ := handles
      obtain ⟨node, rndv', ran', ready', _⟩ := ready.setRequest CString.empty
      rw [RndvServer.getRequest_eq, ran'] at ran
      obtain rfl := Option.some.inj ran
      exact ⟨⟨past, nodes, stores, once⟩, used ++ [node], ready'⟩
  | rndvSet key =>
      obtain ⟨node, rndv, ran, rfl, _⟩ := handles
      obtain ⟨node', rndv', ran', ready', _⟩ := ready.setRequest key
      obtain ⟨rfl, rfl⟩ := Prod.mk.inj (Option.some.inj (ran'.symm.trans ran))
      exact ⟨⟨past, nodes, stores, once⟩, used ++ [node'], ready'⟩

end TemplateServer

/-! ## The invariant -/

namespace WaitState

variable {s s' : WaitState} {capacity : Nat}

def unserved (s : WaitState) : List WireRequest :=
  s.handling.toList ++ s.toServer

/-- The completions that are there or will be. -/
def owed (s : WaitState) : Nat :=
  s.cq.length + s.executed + s.replies + s.toServer.length +
    s.unserved.countP WireRequest.answered

/-- The replies that are there or will be. -/
def due (s : WaitState) : Nat :=
  s.replies + s.cq.count .recv + s.unserved.countP WireRequest.answered

/-- The waits are covered by what is owed, one reply at most is due, a receive
is posted for it, and the server will handle the requests. -/
structure Kept (s : WaitState) : Prop where
  balanced : Balanced s.owed s.todo
  single : s.due ≤ 1
  recvs : 1 ≤ s.recvs + s.cq.count .recv
  serving : s.server.Serving ((s.unserved ++
    s.todo.filterMap TemplateAct.request?).filterMap WireRequest.eager?)

/-- The handler, seen from the connection. -/
private theorem unserved_handled {request : WireRequest}
    (next : s.handling = some request) :
    s.unserved = request :: s.toServer := by
  rw [unserved, next]
  rfl

private theorem countP_request (request : WireRequest)
    (rest : List WireRequest) :
    (request :: rest).countP WireRequest.answered =
      rest.countP WireRequest.answered + request.answered.toNat := by
  rw [List.countP_cons]
  cases request.answered <;> rfl

/-- What happens without the client keeps what is owed and what the client has
to do. -/
theorem Serves.kept (step : Serves s s') (kept : s.Kept) :
    s'.Kept ∧ s'.todo = s.todo ∧ s'.owed = s.owed := by
  obtain ⟨balanced, single, recvs, serving⟩ := kept
  cases step with
  | @deliver request rest sent idle =>
      have same : (some request).toList ++ rest = s.unserved := by
        rw [unserved, sent, idle]
        rfl
      have owed : s.owed = s.cq.length + (s.executed + 1) + s.replies +
          rest.length +
          ((some request).toList ++ rest).countP WireRequest.answered := by
        rw [same, WaitState.owed, sent, List.length_cons]
        omega
      refine ⟨⟨?_, ?_, recvs, ?_⟩, rfl, owed.symm⟩
      · have balanced := balanced
        rw [owed] at balanced
        exact balanced
      · rw [due, ← same] at single
        exact single
      · rw [← same] at serving
        exact serving
  | @complete executed done =>
      have owed : s.owed = (s.cq ++ [WrId.send]).length + executed + s.replies +
          s.toServer.length + s.unserved.countP WireRequest.answered := by
        rw [WaitState.owed, done, List.length_append, List.length_singleton]
        omega
      refine ⟨⟨?_, ?_, ?_, serving⟩, rfl, owed.symm⟩
      · have balanced := balanced
        rw [owed] at balanced
        exact balanced
      · simpa [due, unserved] using single
      · simpa using recvs
  | @handle request server replies next handles =>
      obtain rfl := TemplateServer.replies_of_handles handles
      have unserved := unserved_handled next
      have owed : s.owed = s.cq.length + s.executed +
          (s.replies + request.answered.toNat) + s.toServer.length +
          s.toServer.countP WireRequest.answered := by
        rw [WaitState.owed, unserved, countP_request]
        omega
      refine ⟨⟨?_, ?_, recvs, ?_⟩, rfl, owed.symm⟩
      · have balanced := balanced
        rw [owed] at balanced
        exact balanced
      · rw [due, unserved, countP_request] at single
        simp only [due, WaitState.unserved, Option.toList_none, List.nil_append]
        omega
      · rw [unserved, List.cons_append] at serving
        exact serving.handled handles
  | @arrive replies left isDue ready =>
      have owed : s.owed = (s.cq ++ [WrId.recv]).length + s.executed + replies +
          s.toServer.length + s.unserved.countP WireRequest.answered := by
        rw [WaitState.owed, isDue, List.length_append, List.length_singleton]
        omega
      refine ⟨⟨?_, ?_, ?_, serving⟩, rfl, owed.symm⟩
      · have balanced := balanced
        rw [owed] at balanced
        exact balanced
      · rw [due, isDue] at single
        simp only [due, unserved, List.count_append,
          List.count_singleton_self] at single ⊢
        omega
      · simp only [List.count_append, List.count_singleton_self]
        omega

/-- What is left to happen without the client. -/
def rank (s : WaitState) : Nat :=
  6 * s.toServer.length + 3 * s.handling.toList.length + s.executed +
    2 * s.replies

/-- A receive that was counted is posted again. -/
private theorem lookAt_recvs (positive : 1 ≤ capacity) {recvs : Nat}
    {batch later : List WrId}
    (posted : 1 ≤ recvs + (batch ++ later).count .recv) :
    1 ≤ lookAt capacity recvs batch + later.count .recv := by
  induction batch generalizing recvs with
  | nil => exact posted
  | cons first rest inductionHypothesis =>
      cases first with
      | send => exact inductionHypothesis (by simpa using posted)
      | recv =>
          refine inductionHypothesis ?_
          unfold ppPostRecv
          split <;> omega

/-- Where the client posts an operation nothing is owed. -/
private theorem nothing_of_owed (nothing : s.owed = 0) :
    s.cq = [] ∧ s.executed = 0 ∧ s.replies = 0 ∧ s.toServer = [] ∧
      s.unserved.countP WireRequest.answered = 0 := by
  unfold owed at nothing
  exact ⟨List.eq_nil_of_length_eq_zero (by omega), by omega, by omega,
    List.eq_nil_of_length_eq_zero (by omega), by omega⟩

theorem Step.kept (positive : 1 ≤ capacity) (step : Step capacity True s s')
    (kept : s.Kept) : s'.Kept := by
  cases step with
  | serves step => exact (step.kept kept).1
  | @postRecv rest next =>
      obtain ⟨balanced, single, recvs, serving⟩ := kept
      rw [next] at balanced serving
      refine ⟨balanced, single, ?_, serving⟩
      simp only [ppPostRecv]
      split <;> omega
  | @send request rest next =>
      obtain ⟨balanced, single, recvs, serving⟩ := kept
      rw [next] at balanced serving
      obtain ⟨nothing, balanced⟩ := balanced
      obtain ⟨empty, idle, none, quiet, unanswered⟩ := nothing_of_owed nothing
      have unserved : s.handling.toList ++ (s.toServer ++ [request]) =
          s.unserved ++ [request] := (List.append_assoc ..).symm
      have counts : (s.unserved ++ [request]).countP WireRequest.answered =
          request.answered.toNat := by
        rw [List.countP_append, unanswered, Nat.zero_add, countP_request]
        exact Nat.zero_add _
      have owed : WaitState.owed { s with
          todo := rest
          toServer := s.toServer ++ [request] } =
            1 + request.answered.toNat := by
        simp only [WaitState.owed, WaitState.unserved]
        rw [unserved, counts, empty, idle, none, quiet]
        rfl
      refine ⟨by rw [owed]; exact balanced, ?_, recvs, ?_⟩
      · simp only [due, WaitState.unserved]
        rw [unserved, counts, empty, none, List.count_nil, Nat.zero_add]
        exact request.answered.toNat_le
      · simp only [WaitState.unserved]
        rw [unserved, List.append_assoc]
        exact serving
  | @post rest next =>
      obtain ⟨balanced, single, recvs, serving⟩ := kept
      rw [next] at balanced serving
      obtain ⟨nothing, balanced⟩ := balanced
      have owed : (WaitState.owed { s with
          todo := rest
          executed := s.executed + 1 }) = 1 := by
        unfold WaitState.owed at nothing ⊢
        simp only [unserved] at nothing ⊢
        omega
      exact ⟨by rw [owed]; exact balanced, single, recvs, serving⟩
  | @poll left rest batch later next completed few fits =>
      obtain ⟨balanced, single, recvs, serving⟩ := kept
      rw [next] at balanced serving
      obtain ⟨enough, balanced⟩ := balanced
      have fits := fits trivial
      rw [completed] at recvs
      have owed : s.owed = batch.length + WaitState.owed { s with
          todo := .wait (left + 1 - batch.length) :: rest
          recvs := lookAt capacity s.recvs batch
          cq := later } := by
        simp only [WaitState.owed, unserved, completed, List.length_append]
        omega
      refine ⟨⟨by omega, ?_⟩, ?_, lookAt_recvs positive recvs, serving⟩
      · have left : s.owed - (left + 1) = WaitState.owed { s with
            todo := .wait (left + 1 - batch.length) :: rest
            recvs := lookAt capacity s.recvs batch
            cq := later } - (left + 1 - batch.length) := by
          omega
        rw [← left]
        exact balanced
      · simp only [due, unserved, completed, List.count_append] at single ⊢
        omega
  | @waited rest next =>
      obtain ⟨balanced, single, recvs, serving⟩ := kept
      rw [next] at balanced serving
      exact ⟨balanced.2, single, recvs, serving⟩

def eagerGet : List TemplateCall := [.get false Server.oneKey]

end WaitState

end RdmaKv.Ex3
