import RdmaKv.Ex3.RndvPool

/-!
# The pool on the heap and the pool as a list

The calls and the waits of `kv_template.c` are modelled over a server whose
pool is a list of numbers.  Here they run over the heap with its pointers, as
long as `ibv_reg_mr` registers every buffer: what `kv_get` returns is the same
on both, and the server of every run of the waits is one that the heap has
after the same requests.
-/

namespace RdmaKv.Ex3

open ByteMemory Relation

/-! ## Two computations that fail together -/

section Both

variable {α β γ δ : Type*} {r : α → β → Prop} {q : γ → δ → Prop}
  {a : Option α} {b : Option β}

private theorem rel_bind {f : α → Option γ} {g : β → Option δ}
    (first : Option.Rel r a b)
    (next : ∀ x y, r x y → Option.Rel q (f x) (g y)) :
    Option.Rel q (a.bind f) (b.bind g) := by
  cases first with
  | some same => exact next _ _ same
  | none => exact .none

private theorem rel_map {f : α → γ} {g : β → δ} (first : Option.Rel r a b)
    (next : ∀ x y, r x y → q (f x) (g y)) :
    Option.Rel q (a.map f) (b.map g) := by
  cases first with
  | some same => exact .some (next _ _ same)
  | none => exact .none

private theorem eq_of_rel {b : Option α} (both : Option.Rel Eq a b) :
    a = b := by
  cases both with
  | some same => exact congrArg some same
  | none => rfl

end Both

namespace RndvHeap

variable {m : Machine} {s s' : RndvHeap} {taken : Nat} {ending : Option Nat}

/-! ## The pool as a list of numbers -/

/-- The heap holds this pool, with the buffers that are allocated. -/
structure Abstracts (s : RndvHeap) (taken : Nat) (t : RndvServer) : Prop where
  mallocs : t.mallocs = s.mallocs
  pool : t.rndvPool = List.range' taken (s.mallocs - taken)
  counter : (t.rndvPoolNodesCounter : Int) = s.rndvPoolNodesCounter
  nodes : t.rndvNodes = List.range' 0 taken
  buffers : ∀ block < s.mallocs, s.bufferAt block = some (t.buffers block)

variable {t : RndvServer}

private theorem abstracts_ppInitCtx (ran : ppInitCtx m = some s) :
    Abstracts s 0 RndvServer.init := by
  obtain ⟨_, mallocs, counter, zeros⟩ := holds_ppInitCtx ran
  refine ⟨mallocs.symm, ?_, counter.symm, rfl, fun block bound => ?_⟩
  · rw [mallocs]
    rfl
  · rw [zeros block bound]
    simp [RndvServer.init, RndvServer.fillPool, RndvServer.growPool,
      minPoolNodes]

/-- Both sides hand out the same node. -/
theorem Abstracts.takeNode {change : Memory → Memory} {region requests : Nat}
    (abstracts : Abstracts s taken t) (holds : Holds m s taken ending)
    (stocked : Stocked m s (requests + 1))
    (ran : s.takeNode change = some (region, s')) :
    ∃ rest, t.rndvPool = region :: rest ∧ Abstracts s' (taken + 1) { t with
      buffers := fun other =>
        if other = region then change (t.buffers region) else t.buffers other
      rndvPool := rest
      rndvPoolNodesCounter := t.rndvPoolNodesCounter - 1
      rndvNodes := t.rndvNodes ++ [region] } := by
  have nonempty := holds.nonempty
  obtain ⟨queued, _, mallocs, _, counter, rfl, buffers⟩ :=
    holds.toQueued.takeNode holds.toListed
      (holds.toQueued.another stocked) ran
  have first : s.mallocs - region = (s.mallocs - (region + 1)) + 1 := by omega
  refine ⟨List.range' (region + 1) (s.mallocs - (region + 1)), ?_,
    ⟨abstracts.mallocs.trans mallocs.symm, ?_, ?_, ?_, ?_⟩⟩
  · rw [abstracts.pool, first, List.range'_succ]
  · rw [mallocs]
  · have counted := abstracts.counter
    have queuedCounter := queued.counted
    simp only
    omega
  · simp [abstracts.nodes, List.range'_1_concat]
  · intro block bound
    rw [mallocs] at bound
    rw [buffers block]
    by_cases isTaken : block = region
    · simp [isTaken, abstracts.buffers region nonempty]
    · simp [isTaken, abstracts.buffers block bound]

/-- The loops that fill the pool append the same nodes. -/
theorem Abstracts.refillLoop {fuel : Nat} (abstracts : Abstracts s taken t)
    (holds : Holds m s taken ending)
    (ran : s.refillLoop m fuel = some (s', true)) :
    Abstracts s' taken (RndvServer.growPool^[fuel] t) := by
  induction fuel generalizing s t ending with
  | zero =>
      obtain ⟨rfl, _⟩ := Prod.mk.inj (Option.some.inj ran)
      exact abstracts
  | succ fuel inductionHypothesis =>
      obtain ⟨grown, grew, holds', mallocs, counter, buffers⟩ :=
        holds.growPool
      have nonempty := holds.nonempty
      rw [RndvHeap.refillLoop, grew] at ran
      cases registers : m.registers s.mallocs with
      | false =>
          rw [registers] at ran
          exact absurd ran (by simp)
      | true =>
          rw [registers] at ran counter
          refine inductionHypothesis ⟨?_, ?_, ?_, abstracts.nodes, ?_⟩ holds'
            ran
          · rw [mallocs, ← abstracts.mallocs]
            rfl
          · have longer : s.mallocs + 1 - taken = (s.mallocs - taken) + 1 := by
              omega
            have last : taken + (s.mallocs - taken) = s.mallocs := by omega
            rw [mallocs, longer, List.range'_1_concat, last, ← abstracts.pool,
              ← abstracts.mallocs]
            rfl
          · rw [counter, ← abstracts.counter]
            rfl
          · intro block bound
            rw [buffers block]
            by_cases isNew : block = s.mallocs
            · simp [isNew, RndvServer.growPool, abstracts.mallocs]
            · rw [if_neg isNew, abstracts.buffers block (by omega)]
              simp [isNew, RndvServer.growPool, abstracts.mallocs]

theorem Abstracts.refill (abstracts : Abstracts s taken t)
    (holds : Holds m s taken ending) (ran : s.refill m = some (s', true)) :
    Abstracts s' taken t.fillPool := by
  have rounds : (minPoolNodes - s.rndvPoolNodesCounter).toNat =
      minPoolNodes - t.rndvPoolNodesCounter := by
    rw [← abstracts.counter]
    omega
  unfold RndvHeap.refill at ran
  rw [rounds] at ran
  exact abstracts.refillLoop holds ran

/-! ## Requests, if every buffer is registered -/

/-- The pool is full, and the other side is the picture of this heap. -/
structure Simulates (m : Machine) (s : RndvHeap) (t : RndvServer) : Prop where
  holds : ∃ ending, Holds m s t.rndvNodes.length ending
  abstracts : Abstracts s t.rndvNodes.length t
  full : minPoolNodes ≤ t.rndvPoolNodesCounter

private theorem simulates_ppInitCtx (ran : ppInitCtx m = some s) :
    Simulates m s RndvServer.init :=
  ⟨⟨_, (holds_ppInitCtx ran).1⟩, abstracts_ppInitCtx ran, le_rfl⟩

theorem Abstracts.length_rndvNodes (abstracts : Abstracts s taken t) :
    t.rndvNodes.length = taken := by
  rw [abstracts.nodes, List.length_range']

theorem Queued.exists_initLoop {rounds : Nat}
    (registers : ∀ block, m.registers block = true)
    (queued : Queued m s taken ending) :
    ∃ s' last, s.initLoop m rounds (s.mallocs - 1) = some (s', last) := by
  induction rounds generalizing s ending with
  | zero => exact ⟨s, _, rfl⟩
  | succ rounds inductionHypothesis =>
      obtain ⟨infos, grown, queued', _⟩ := queued.mallocBehind
        (fun info => { info with
          rndvBuffer := Memory.zero
          rndvMr := m.ibvRegMr s.mallocs }) fun _ => rfl
      rw [RndvHeap.initLoop, grown]
      rw [if_pos (registers _)] at queued'
      simp only [Option.bind_eq_bind, Option.bind_some, registers, if_true]
      exact inductionHypothesis queued'

/-- The pool can be filled for the first time. -/
theorem exists_ppInitCtx (registers : ∀ block, m.registers block = true) :
    ∃ s, ppInitCtx m = some s := by
  obtain ⟨s, last, looped⟩ := @Queued.exists_initLoop m _ _ _
    (minPoolNodes - 1) registers (queued_first (registers 0))
  refine ⟨{ s with rndvPoolTail := some last }, ?_⟩
  simp only [ppInitCtx, malloc, modify, start, Option.bind_eq_bind,
    Option.bind_some, if_true, Option.pure_def, registers]
  exact Option.bind_eq_some_iff.mpr ⟨_, looped, rfl⟩

/-- The pool can be filled, whatever is in it. -/
theorem Abstracts.exists_refill (abstracts : Abstracts s taken t)
    (holds : Holds m s taken ending)
    (registers : ∀ block, m.registers block = true) :
    ∃ s', s.refill m = some (s', true) ∧ Simulates m s' t.fillPool ∧
      s.mallocs ≤ s'.mallocs := by
  obtain ⟨s', registered, ran, holds', _, filled, failed, more⟩ :=
    holds.refillLoop (minPoolNodes - s.rndvPoolNodesCounter).toNat
  have all : registered = true := by
    by_contra unregistered
    obtain ⟨block, _, isNot⟩ := failed (by simpa using unregistered)
    exact absurd (registers block) (by simp [isNot])
  subst all
  have refilled : s.refill m = some (s', true) := ran
  have abstracts' := abstracts.refill holds refilled
  have counter := filled rfl
  have counted := abstracts'.counter
  rw [← abstracts'.length_rndvNodes] at holds' abstracts'
  exact ⟨s', refilled, ⟨⟨_, holds'⟩, abstracts', by omega⟩, more⟩

/-- A block is handed out on both sides, and the pool filled again. -/
theorem Simulates.takeNode (simulates : Simulates m s t)
    (registers : ∀ block, m.registers block = true)
    (change : Memory → Memory) :
    ∃ region rest s' s'', s.takeNode change = some (region, s') ∧
      t.rndvPool = region :: rest ∧ region < s.mallocs ∧
      s'.refill m = some (s'', true) ∧ s.mallocs ≤ s''.mallocs ∧
      Simulates m s'' (RndvServer.fillPool
        { t with
          buffers := fun other =>
            if other = region then change (t.buffers region)
            else t.buffers other
          rndvPool := rest
          rndvPoolNodesCounter := t.rndvPoolNodesCounter - 1
          rndvNodes := t.rndvNodes ++ [region] }) := by
  obtain ⟨⟨ending, holds⟩, abstracts, full⟩ := simulates
  have stocked : Stocked m s (0 + 1) := by
    have counted := abstracts.counter
    have several : 1 < minPoolNodes := by decide
    exact Or.inl (by omega)
  obtain ⟨_, _, _, _, took⟩ :=
    holds.toQueued.takeNode_eq holds.toListed change
  rw [Machine.ibvRegMr, if_pos (registers _)] at took
  obtain ⟨rest, inPool, abstracts'⟩ := abstracts.takeNode holds stocked took
  obtain ⟨holds', mallocs, _⟩ := holds.takeNode stocked took
  obtain ⟨s'', refilled, simulates', more⟩ :=
    abstracts'.exists_refill holds' registers
  exact ⟨_, rest, _, s'', took, inPool, holds.nonempty, refilled,
    mallocs.symm.le.trans more, simulates'⟩

theorem Simulates.setRequest (simulates : Simulates m s t)
    (registers : ∀ block, m.registers block = true) (key : CString) :
    ∃ region s' s'' t', s.rndvSetRequest key = some (region, s') ∧
      t.setRequest key = some (region, t') ∧ region < s.mallocs ∧
      s'.refill m = some (s'', true) ∧ s.mallocs ≤ s''.mallocs ∧
      Simulates m s'' t'.fillPool := by
  obtain ⟨region, rest, s', s'', took, inPool, below, refilled, more,
    simulates'⟩ := simulates.takeNode registers fun buffer =>
      buffer.copy 0 key.length key.memory
  refine ⟨region, s', s'', _, took, ?_, below, refilled, more, simulates'⟩
  simp only [RndvServer.setRequest, inPool]

theorem Simulates.getRequest (simulates : Simulates m s t)
    (registers : ∀ block, m.registers block = true) :
    ∃ region s' s'' t', s.rndvGetRequest = some (region, s') ∧
      t.getRequest = some t' ∧ s'.refill m = some (s'', true) ∧
      Simulates m s'' t'.fillPool := by
  obtain ⟨region, rest, s', s'', took, inPool, _, refilled, _, simulates'⟩ :=
    simulates.takeNode registers id
  have unchanged : (fun other => if other = region then id (t.buffers region)
      else t.buffers other) = t.buffers := by
    funext other
    split
    · rename_i same
      rw [same]
      rfl
    · rfl
  rw [unchanged] at simulates'
  refine ⟨region, s', s'', _, took, ?_, refilled, simulates'⟩
  simp only [RndvServer.getRequest, inPool]

/-! ## The waits -/

/-- A request is polled and handled, and the wait goes on. -/
def serve (m : Machine) (s : RndvHeap) (request : WireRequest) :
    Option RndvHeap := do
  match ← s.pollRound m (.one (.recv (.request request))) with
  | (s, none) => return s
  | (_, some _) => none

def serveAll (m : Machine) (requests : List WireRequest) (s : RndvHeap) :
    Option RndvHeap :=
  requests.foldlM (serve m) s

private theorem serveAll_append_singleton (requests : List WireRequest)
    (request : WireRequest) (s : RndvHeap) :
    serveAll m (requests ++ [request]) s =
      (serveAll m requests s).bind fun s => s.serve m request := by
  simp [serveAll, List.foldlM_append]

private theorem serve_of_handle {handled : RndvHeap} {request : WireRequest}
    (ran : s.handle (.request request) = some handled)
    (refilled : handled.refill m = some (s', true)) :
    s.serve m request = some s' := by
  simp [serve, pollRound, Poll.completions, lookAt, ran, refilled]

theorem Simulates.serve {server server' : TemplateServer}
    {request : WireRequest} {replies : Bool}
    (simulates : Simulates m s server.rndv)
    (registers : ∀ block, m.registers block = true)
    (handles : server.Handles request server' replies) :
    ∃ s', s.serve m request = some s' ∧ Simulates m s' server'.rndv := by
  cases request with
  | eager request =>
      obtain ⟨_, _, _, _, rndv, _⟩ := handles
      obtain ⟨_, holds⟩ := simulates.holds
      obtain ⟨s', refilled, simulates', _⟩ :=
        simulates.abstracts.exists_refill holds registers
      rw [rndv]
      exact ⟨s', serve_of_handle rfl refilled, simulates'⟩
  | rndvGet key =>
      obtain ⟨rndv, ran, rfl, _⟩ := handles
      obtain ⟨region, handled, s', rndv', took, ran', refilled, simulates'⟩ :=
        simulates.getRequest registers
      obtain rfl := Option.some.inj (ran.symm.trans ran')
      refine ⟨s', serve_of_handle ?_ refilled, simulates'⟩
      simp [RndvHeap.handle, took]
  | rndvSet key =>
      obtain ⟨node, rndv, ran, rfl, _⟩ := handles
      obtain ⟨region, handled, s', rndv', took, ran', _, refilled, _,
        simulates'⟩ := simulates.setRequest registers key
      obtain ⟨_, rfl⟩ := Prod.mk.inj (Option.some.inj (ran.symm.trans ran'))
      refine ⟨s', serve_of_handle ?_ refilled, simulates'⟩
      simp [RndvHeap.handle, took]

end RndvHeap

namespace WaitState

variable {m : Machine} {capacity : Nat} {orderly : Prop}

/-- The requests that are not handled, those that are not sent included. -/
def coming (s : WaitState) : List WireRequest :=
  s.unserved ++ s.todo.filterMap TemplateAct.request?

/-- A step handles the next request, or none. -/
theorem Step.coming {s s' : WaitState} (step : Step capacity orderly s s') :
    s'.coming = s.coming ∧ s'.server = s.server ∨
      ∃ request replies, s.coming = request :: s'.coming ∧
        s.server.Handles request s'.server replies := by
  cases step with
  | serves step =>
      cases step with
      | deliver sent idle =>
          exact Or.inl ⟨by simp [WaitState.coming, unserved, sent, idle], rfl⟩
      | complete done => exact Or.inl ⟨rfl, rfl⟩
      | handle next handles =>
          exact Or.inr ⟨_, _, by simp [WaitState.coming, unserved, next],
            handles⟩
      | arrive due ready => exact Or.inl ⟨rfl, rfl⟩
  | postRecv next =>
      exact Or.inl ⟨by rw [WaitState.coming, WaitState.coming, next]; rfl, rfl⟩
  | send next =>
      refine Or.inl ⟨?_, rfl⟩
      simp [WaitState.coming, unserved, next, TemplateAct.request?]
  | post next =>
      exact Or.inl ⟨by rw [WaitState.coming, WaitState.coming, next]; rfl, rfl⟩
  | poll next completed few fits =>
      exact Or.inl ⟨by rw [WaitState.coming, WaitState.coming, next]; rfl, rfl⟩
  | waited next =>
      exact Or.inl ⟨by rw [WaitState.coming, WaitState.coming, next]; rfl, rfl⟩

/-- Whatever the waits and the order of their completions are, the server has
the pool of the heap that has served the same requests. -/
theorem simulates_of_steps {heap : RndvHeap} {eager : Server}
    {calls : List TemplateCall} {s : WaitState}
    (registers : ∀ block, m.registers block = true)
    (opened : RndvHeap.ppInitCtx m = some heap)
    (steps : ReflTransGen (Step capacity orderly)
      (start ⟨eager, .init⟩ calls) s) :
    ∃ served heap', served ++ s.coming =
        (templateActs calls []).filterMap TemplateAct.request? ∧
      heap.serveAll m served = some heap' ∧
      RndvHeap.Simulates m heap' s.server.rndv := by
  induction steps with
  | refl => exact ⟨[], heap, rfl, rfl, RndvHeap.simulates_ppInitCtx opened⟩
  | tail steps step inductionHypothesis =>
      obtain ⟨served, heap', sent, ran, simulates⟩ := inductionHypothesis
      rcases step.coming with ⟨same, unchanged⟩ |
        ⟨request, replies, next, handles⟩
      · rw [← same] at sent
        rw [← unchanged] at simulates
        exact ⟨served, heap', sent, ran, simulates⟩
      · obtain ⟨heap'', serves, simulates'⟩ :=
          simulates.serve registers handles
        refine ⟨served ++ [request], heap'', ?_, ?_, simulates'⟩
        · rw [← sent, next, List.append_assoc]
          rfl
        · rw [RndvHeap.serveAll_append_singleton, ran]
          exact serves

end WaitState

/-! ## The calls -/

namespace RndvHeap

variable {m : Machine} {s : RndvHeap} {t : RndvServer}

def write (s : RndvHeap) (region length : Nat) (source : Memory) :
    Option RndvHeap :=
  s.modify (some region) fun info =>
    { info with rndvBuffer := info.rndvBuffer.copy 0 length source }

theorem Simulates.write (simulates : Simulates m s t) {region : Nat}
    (below : region < s.mallocs) (length : Nat) (source : Memory) :
    ∃ s', s.write region length source = some s' ∧
      s'.mallocs = s.mallocs ∧
      Simulates m s' (t.write region length source) := by
  obtain ⟨⟨ending, holds⟩, abstracts, full⟩ := simulates
  obtain ⟨buffer, isInfo⟩ := holds.infos region below
  simp only [RndvHeap.write, modify, isInfo, Option.bind_eq_bind,
    Option.bind_some, Option.pure_def]
  refine ⟨_, rfl, rfl, ⟨ending, ⟨⟨holds.nonempty, fun block bound => ?_,
    fun block bound => ?_, holds.poolHead, holds.counted, holds.handedOut⟩,
    ⟨holds.nodes, holds.nodeMallocs, holds.head, holds.tail⟩,
    holds.poolTail⟩⟩, ⟨abstracts.mallocs, abstracts.pool, abstracts.counter,
    abstracts.nodes, fun block bound => ?_⟩, full⟩
  · by_cases same : block = region
    · subst same
      exact ⟨_, if_pos rfl⟩
    · obtain ⟨buffer', isBlock⟩ := holds.infos block bound
      exact ⟨buffer', (if_neg same).trans isBlock⟩
  · have other : block ≠ region := Nat.ne_of_gt (below.trans_le bound)
    exact (if_neg other).trans (holds.unused block bound)
  · have isBuffer := abstracts.buffers block bound
    by_cases same : block = region
    · subst same
      simp only [bufferAt, isInfo, Option.map_some, Option.some.injEq]
        at isBuffer
      simp [bufferAt, RndvServer.write, isBuffer]
    · simp only [bufferAt, RndvServer.write, if_neg same]
      exact isBuffer

end RndvHeap

structure HeapSystem where
  client : RndvClient
  heap : RndvHeap

namespace HeapSystem

def lookup (s : HeapSystem) (key : CString) : Option CacheNode :=
  s.client.cacheNodes.find? fun node => decide (node.key = key)

/-- `kv_set`, where the server handles a `RENDEZVOUS_SET_REQUEST` and fills its
pool again.  It fails where `System.kvSet` does, and where the server has given
up because a buffer is not registered. -/
def kvSet (m : Machine) (key value : CString) (s : HeapSystem) :
    Option HeapSystem :=
  match s.lookup key with
  | some node =>
      let remoteBuf := s.client.remoteBuf.copy 0 (value.length + 1) value.memory
      if value.length + 1 ≤ maxTestSize then do
        let heap ← s.heap.write node.srvNode (value.length + 1) remoteBuf
        return ⟨{ s.client with remoteBuf := remoteBuf }, heap⟩
      else none
  | none => do
      let keyLength := key.length % unsignedRange
      if keyLength + 1 + sizeofPacket ≤ eagerProtocolLimit then
        let (region, heap) ← s.heap.rndvSetRequest (key.take keyLength)
        let (heap, registered) ← heap.refill m
        let cacheNode : CacheNode :=
          ⟨region, value.length % unsignedRange, key.take keyLength⟩
        let remoteBuf :=
          (s.client.remoteBuf.copy 0 value.length value.memory).copy
            value.length 1 Memory.zero
        if registered = true ∧ value.length + 1 ≤ maxTestSize then
          let heap ← heap.write region value.length remoteBuf
          return ⟨⟨remoteBuf, s.client.cacheNodes ++ [cacheNode]⟩, heap⟩
        else none
      else none

def kvGet (key : CString) (s : HeapSystem) :
    Option (List UInt8 × HeapSystem) :=
  match s.lookup key with
  | some node =>
      if node.valLen + 1 ≤ maxTestSize then do
        let buffer ← s.heap.bufferAt node.srvNode
        let remoteBuf := s.client.remoteBuf.copy 0 node.valLen buffer
        return (remoteBuf.strncpy (node.valLen + 1),
          { s with client := { s.client with remoteBuf := remoteBuf } })
      else none
  | none => none

def perform (m : Machine) (s : HeapSystem) : RndvCall → Option HeapSystem
  | .set key value => s.kvSet m key value
  | .get key => (s.kvGet key).map Prod.snd

/-- The state after a sequence of calls, if all of them return. -/
def performAll (m : Machine) (calls : List RndvCall) (s : HeapSystem) :
    Option HeapSystem :=
  calls.foldlM (perform m) s

/-- The same client, and a server whose heap has the pool of the other one. -/
structure Refines (m : Machine) (s : HeapSystem) (t : System) : Prop where
  client : s.client = t.client
  server : s.heap.Simulates m t.server
  below : ∀ node ∈ t.client.cacheNodes, node.srvNode < s.heap.mallocs

variable {m : Machine} {s : HeapSystem} {t : System}

theorem Refines.lookup (refines : Refines m s t) (key : CString) :
    s.lookup key = t.lookup key := by
  rw [HeapSystem.lookup, refines.client]
  rfl

/-- An RDMA write into a buffer of the cache or a new one. -/
theorem Refines.write (refines : Refines m s t) {region : Nat}
    (below : region < s.heap.mallocs) (length : Nat) (source : Memory) :
    ∃ heap, s.heap.write region length source = some heap ∧
      ∀ remoteBuf, Refines m ⟨⟨remoteBuf, t.client.cacheNodes⟩, heap⟩
        ⟨⟨remoteBuf, t.client.cacheNodes⟩,
          t.server.write region length source⟩ := by
  obtain ⟨heap, wrote, mallocs, simulates⟩ :=
    refines.server.write below length source
  refine ⟨heap, wrote, fun remoteBuf => ⟨rfl, simulates, fun node member => ?_⟩⟩
  rw [mallocs]
  exact refines.below node member

theorem Refines.kvSet (refines : Refines m s t)
    (registers : ∀ block, m.registers block = true) (key value : CString) :
    Option.Rel (Refines m) (s.kvSet m key value) (t.kvSet key value) := by
  unfold HeapSystem.kvSet System.kvSet
  rw [refines.lookup, refines.client]
  cases found : t.lookup key with
  | some node =>
      have member := List.mem_of_find?_eq_some found
      simp only
      split
      · obtain ⟨heap, wrote, refines'⟩ := refines.write
          (refines.below node member) (value.length + 1)
          (t.client.remoteBuf.copy 0 (value.length + 1) value.memory)
        rw [wrote]
        exact .some (refines' _)
      · exact .none
  | none =>
      simp only
      split
      · obtain ⟨region, taking, filled, server, took, took', below, refilled,
          more, simulates⟩ := refines.server.setRequest registers
            (key.take (key.length % unsignedRange))
        have cached : Refines m ⟨⟨t.client.remoteBuf, t.client.cacheNodes ++
            [⟨region, value.length % unsignedRange,
              key.take (key.length % unsignedRange)⟩]⟩, filled⟩
            ⟨⟨t.client.remoteBuf, t.client.cacheNodes ++
            [⟨region, value.length % unsignedRange,
              key.take (key.length % unsignedRange)⟩]⟩, server.fillPool⟩ := by
          refine ⟨rfl, simulates, fun node member => ?_⟩
          rcases List.mem_append.mp member with old | new
          · exact (refines.below node old).trans_le more
          · rw [List.mem_singleton.mp new]
            exact below.trans_le more
        obtain ⟨heap, wrote, refines'⟩ := cached.write
          (below.trans_le more) value.length
          ((t.client.remoteBuf.copy 0 value.length value.memory).copy
            value.length 1 Memory.zero)
        simp only [took, took', refilled, Option.bind_eq_bind,
          Option.bind_some, true_and]
        split
        · simp only at wrote
          rw [wrote]
          exact .some (refines' _)
        · exact .none
      · exact .none

/-- What `kv_get` returns is the same. -/
theorem Refines.kvGet (refines : Refines m s t) (key : CString) :
    Option.Rel (fun read read' => read.1 = read'.1 ∧ Refines m read.2 read'.2)
      (s.kvGet key) (t.kvGet key) := by
  unfold HeapSystem.kvGet System.kvGet
  rw [refines.lookup, refines.client]
  cases found : t.lookup key with
  | some node =>
      have member := List.mem_of_find?_eq_some found
      simp only [refines.server.abstracts.buffers _
        (refines.below node member)]
      split
      · exact .some ⟨rfl, rfl, refines.server, refines.below⟩
      · exact .none
  | none => exact .none

theorem Refines.perform (refines : Refines m s t)
    (registers : ∀ block, m.registers block = true) (call : RndvCall) :
    Option.Rel (Refines m) (s.perform m call) (call.perform t) := by
  cases call with
  | set key value => exact refines.kvSet registers key value
  | get key => exact rel_map (refines.kvGet key) fun _ _ same => same.2

/-- After the same calls both have returned in states that belong together, or
neither has. -/
theorem Refines.performAll (refines : Refines m s t)
    (registers : ∀ block, m.registers block = true) (calls : List RndvCall) :
    Option.Rel (Refines m) (s.performAll m calls)
      (RndvCall.performAll calls t) := by
  induction calls generalizing s t with
  | nil => exact .some refines
  | cons call calls inductionHypothesis =>
      simp only [HeapSystem.performAll, RndvCall.performAll, List.foldlM_cons]
      exact rel_bind (refines.perform registers call) fun _ _ refines' =>
        inductionHypothesis refines'

/-- Before the first call. -/
private theorem refines_init {heap : RndvHeap}
    (opened : RndvHeap.ppInitCtx m = some heap)
    (remoteBuf : Memory) :
    Refines m ⟨⟨remoteBuf, []⟩, heap⟩ (System.init remoteBuf) :=
  ⟨rfl, RndvHeap.simulates_ppInitCtx opened,
    fun _ member => absurd member (List.not_mem_nil)⟩

/-- Every `kv_get` of a sequence of calls returns the same bytes, whether the
pool is a list or a chain on the heap. -/
theorem reads_eq {heap : RndvHeap}
    (registers : ∀ block, m.registers block = true)
    (opened : RndvHeap.ppInitCtx m = some heap) (remoteBuf : Memory)
    (before : List RndvCall) (key : CString) :
    ((HeapSystem.performAll m before ⟨⟨remoteBuf, []⟩, heap⟩).bind
        fun s => s.kvGet key).map Prod.fst =
      ((RndvCall.performAll before (.init remoteBuf)).bind
        fun t => t.kvGet key).map Prod.fst := by
  have ran := (refines_init opened remoteBuf).performAll registers before
  have read := rel_bind ran fun _ _ refines => refines.kvGet key
  exact eq_of_rel (rel_map read fun _ _ same => same.1)

end HeapSystem

end RdmaKv.Ex3
