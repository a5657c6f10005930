import RdmaKv.Ex3.Waits

/-!
# The rendezvous pool of `kv_template.c` in its heap

The list from `rndv_pool_head` to `rndv_pool_tail` and the list of
`struct RNDV_NODE` from `rndv_head`, with the pointers as the source assigns
them: `pp_init_ctx` fills the pool, a rendezvous request takes its first node,
`pp_wait_completions` fills it again behind the last one, and `pp_close_ctx`
walks both lists.

Nothing is freed before `pp_close_ctx`, so a block is given by the number of
its `malloc`; what it holds then is arbitrary.  An access to a block that was
not allocated, or through NULL, is a crash.
-/

namespace RdmaKv.Ex3

open ByteMemory LinkedChain

/-- `struct RNDV_MEMORY_INFO`.  A memory region is given by the block whose
buffer it covers. -/
structure RndvMemoryInfo where
  rndvMr : Option Nat
  rndvBuffer : Memory
  next : Option Nat

/-- `struct RNDV_NODE`, without the copy of the key, which nobody reads. -/
structure RndvNode where
  next : Option Nat
  memInfo : Option Nat

/-- What the server cannot know: the content of each block that `malloc`
returns, and whether `ibv_reg_mr` registers its buffer. -/
structure Machine where
  fresh : Nat → RndvMemoryInfo
  registers : Nat → Bool

def Machine.ibvRegMr (m : Machine) (block : Nat) : Option Nat :=
  if m.registers block then some block else none

/-- The heap and the globals of the two lists. -/
structure RndvHeap where
  infos : Nat → Option RndvMemoryInfo
  mallocs : Nat
  nodes : Nat → Option RndvNode
  nodeMallocs : Nat
  rndvHead : Option Nat
  rndvTail : Option Nat
  rndvPoolHead : Option Nat
  rndvPoolTail : Option Nat
  rndvPoolNodesCounter : Int

namespace RndvHeap

def start : RndvHeap :=
  ⟨fun _ => none, 0, fun _ => none, 0, none, none, none, none, 0⟩

/-- Assign through a pointer to a `struct RNDV_MEMORY_INFO`. -/
def modify (s : RndvHeap) (pointer : Option Nat)
    (change : RndvMemoryInfo → RndvMemoryInfo) : Option RndvHeap := do
  let block ← pointer
  let info ← s.infos block
  return { s with
    infos := fun other =>
      if other = block then some (change info) else s.infos other }

/-- Assign through a pointer to a `struct RNDV_NODE`. -/
def modifyNode (s : RndvHeap) (pointer : Option Nat)
    (change : RndvNode → RndvNode) : Option RndvHeap := do
  let block ← pointer
  let node ← s.nodes block
  return { s with
    nodes := fun other =>
      if other = block then some (change node) else s.nodes other }

/-- `malloc` of a `struct RNDV_MEMORY_INFO`, which gets the number
`s.mallocs`. -/
def malloc (m : Machine) (s : RndvHeap) : RndvHeap :=
  { s with
    infos := fun other =>
      if other = s.mallocs then some (m.fresh s.mallocs) else s.infos other
    mallocs := s.mallocs + 1 }

/-- `malloc` of a `struct RNDV_NODE`, with the first two assignments. -/
def mallocNode (s : RndvHeap) (memInfo : Option Nat) : RndvHeap :=
  { s with
    nodes := fun other =>
      if other = s.nodeMallocs then some ⟨none, memInfo⟩ else s.nodes other
    nodeMallocs := s.nodeMallocs + 1 }

/-- `malloc` of a node behind `last`, and what is assigned to it. -/
def mallocBehind (m : Machine) (s : RndvHeap) (last : Option Nat)
    (assign : RndvMemoryInfo → RndvMemoryInfo) : Option RndvHeap := do
  let block := s.mallocs
  let s ← (s.malloc m).modify last fun info => { info with next := some block }
  s.modify (some block) assign

/-! ## `pp_init_ctx` -/

/-- The loop that fills the pool for the first time, with `current_pool_node`.
It assigns `next` of a node only when another one follows.  It fails where a
buffer is not registered. -/
def initLoop (m : Machine) : Nat → RndvHeap → Nat → Option (RndvHeap × Nat)
  | 0, s, current => some (s, current)
  | fuel + 1, s, current => do
      let block := s.mallocs
      let s ← s.mallocBehind m (some current) fun info =>
        { info with
          rndvBuffer := Memory.zero
          rndvMr := m.ibvRegMr block }
      if m.registers block then
        initLoop m fuel
          { s with rndvPoolNodesCounter := s.rndvPoolNodesCounter + 1 } block
      else none

def ppInitCtx (m : Machine) : Option RndvHeap := do
  let block := start.mallocs
  let s ← (start.malloc m).modify (some block) fun info =>
    { info with
      next := none
      rndvBuffer := Memory.zero
      rndvMr := m.ibvRegMr block }
  if m.registers block then
    let s := { s with rndvPoolHead := some block, rndvPoolNodesCounter := 1 }
    let (s, current) ← s.initLoop m (minPoolNodes - 1) block
    return { s with rndvPoolTail := some current }
  else none

/-! ## `handle_server_packets_only` -/

/-- A `struct RNDV_NODE` becomes the last one. -/
def appendNode (s : RndvHeap) (block : Nat) : Option RndvHeap :=
  match s.rndvTail with
  | none => some { s with rndvHead := some block, rndvTail := some block }
  | some tail => do
      let s ← s.modifyNode (some tail) fun node =>
        { node with next := some block }
      return { s with rndvTail := some block }

/-- `rndv_tail->mem_info->rndv_mr`, which the response reads. -/
def responseRegion (s : RndvHeap) : Option Nat := do
  let last ← s.nodes (← s.rndvTail)
  let info ← s.infos (← last.memInfo)
  info.rndvMr

/-- What both rendezvous requests do: the first node of the pool is taken and a
node for it appended to the other list.  The response names the region. -/
def takeNode (s : RndvHeap) (change : Memory → Memory) :
    Option (Nat × RndvHeap) := do
  let block := s.nodeMallocs
  let memInfo := s.rndvPoolHead
  let s := s.mallocNode memInfo
  let info ← s.infos (← memInfo)
  let s := { s with
    rndvPoolHead := info.next
    rndvPoolNodesCounter := s.rndvPoolNodesCounter - 1 }
  let s ← s.modify memInfo fun info =>
    { info with next := none, rndvBuffer := change info.rndvBuffer }
  let s ← s.appendNode block
  let region ← s.responseRegion
  return (region, s)

/-- `case RENDEZVOUS_GET_REQUEST`. -/
def rndvGetRequest (s : RndvHeap) : Option (Nat × RndvHeap) :=
  s.takeNode id

/-- `case RENDEZVOUS_SET_REQUEST`: the key is copied into the buffer. -/
def rndvSetRequest (s : RndvHeap) (key : CString) : Option (Nat × RndvHeap) :=
  s.takeNode fun buffer => buffer.copy 0 key.length key.memory

end RndvHeap

/-- What a server finds in `ctx->buf`: a request, `CLOSE_CONNECTION`, or
something that it ignores. -/
inductive ServerPacket where
  | request (request : WireRequest)
  | closeConnection
  | ignored

namespace RndvHeap

/-- `handle_server_packets_only`, as far as it concerns the two lists: an eager
request works on the list of `struct KV_NODE`. -/
def handle (s : RndvHeap) : ServerPacket → Option RndvHeap
  | .request (.rndvGet _) => s.rndvGetRequest.map Prod.snd
  | .request (.rndvSet key) => (s.rndvSetRequest key).map Prod.snd
  | .request (.eager _) => some s
  | .closeConnection => some s
  | .ignored => some s

/-! ## `pp_wait_completions` -/

/-- One round of the loop that fills the pool again, and whether the buffer
was registered. -/
def growPool (m : Machine) (s : RndvHeap) : Option (RndvHeap × Bool) := do
  let block := s.mallocs
  let s ← s.mallocBehind m s.rndvPoolTail fun info =>
    { info with
      next := none
      rndvBuffer := Memory.zero
      rndvMr := m.ibvRegMr block }
  let s := { s with rndvPoolTail := some block }
  if m.registers block then
    return ({ s with rndvPoolNodesCounter := s.rndvPoolNodesCounter + 1 }, true)
  else return (s, false)

def refillLoop (m : Machine) : Nat → RndvHeap → Option (RndvHeap × Bool)
  | 0, s => some (s, true)
  | fuel + 1, s => do
      match ← s.growPool m with
      | (s, true) => refillLoop m fuel s
      | (s, false) => return (s, false)

/-- `while (rndv_pool_nodes_counter < MIN_POOL_NODES)`. -/
def refill (m : Machine) (s : RndvHeap) : Option (RndvHeap × Bool) :=
  s.refillLoop m (minPoolNodes - s.rndvPoolNodesCounter).toNat

end RndvHeap

/-- A work completion: of a send, of a receive with what has arrived, or one
whose status is not `IBV_WC_SUCCESS`. -/
inductive Completion where
  | send
  | recv (packet : ServerPacket)
  | failed

/-- What `ibv_poll_cq(ctx->cq, 2, wc)` returns when it is not zero. -/
inductive Poll where
  | one (wc : Completion)
  | two (first second : Completion)
  | failed

def Poll.completions : Poll → List Completion
  | one wc => [wc]
  | two first second => [first, second]
  | failed => []

def ServerPacket.takes : ServerPacket → Bool
  | request (.rndvGet _) => true
  | request (.rndvSet _) => true
  | _ => false

def Completion.takes : Completion → Bool
  | recv packet => packet.takes
  | _ => false

def Completion.succeeded : Completion → Bool
  | failed => false
  | _ => true

/-- The loop over `wc` reaches its end. -/
def Poll.succeeded : Poll → Bool
  | failed => false
  | poll => poll.completions.all Completion.succeeded

/-- The rendezvous requests that come before a failed completion. -/
def Poll.requests (poll : Poll) : Nat :=
  (poll.completions.takeWhile Completion.succeeded).countP Completion.takes

/-- The nodes of the pool behind a poll, if there were `stock` before.  The
pool is filled again only where the loop over `wc` has reached its end. -/
def Poll.stockAfter (stock : Nat) (poll : Poll) : Nat :=
  if poll.succeeded then max (stock - poll.requests) minPoolNodes
  else stock - poll.requests

/-- The pool never runs empty before it is filled again. -/
def Lasts : Nat → List Poll → Prop
  | _, [] => True
  | stock, poll :: polls =>
      poll.requests < stock ∧ Lasts (poll.stockAfter stock) polls

theorem Poll.succeeded_iff {poll : Poll} : poll.succeeded = true ↔
    poll ≠ .failed ∧ poll.completions.all Completion.succeeded = true := by
  cases poll <;> simp [Poll.succeeded]

/-- A poll takes fewer nodes than a full pool has. -/
theorem Poll.requests_lt (poll : Poll) : poll.requests < minPoolNodes := by
  have few : poll.requests ≤ poll.completions.length :=
    List.countP_le_length.trans (List.takeWhile_sublist _).length_le
  have two : poll.completions.length ≤ 2 := by
    cases poll <;> simp [Poll.completions]
  exact (few.trans two).trans_lt (by decide)

def requestsOf (polls : List Poll) : Nat :=
  (polls.map Poll.requests).sum

private theorem requestsOf_cons {poll : Poll} {polls : List Poll} :
    requestsOf (poll :: polls) = poll.requests + requestsOf polls := by
  simp [requestsOf]

private theorem requestsOf_append {before after : List Poll} :
    requestsOf (before ++ after) = requestsOf before + requestsOf after := by
  simp [requestsOf]

private theorem requestsOf_pos {past : List Poll} :
    0 < requestsOf past ↔ ∃ poll ∈ past, 0 < poll.requests := by
  rw [requestsOf, List.sum_pos_iff_exists_pos_nat]
  simp only [List.mem_map, exists_exists_and_eq_and]

private theorem lasts_append {stock : Nat} {before after : List Poll} :
    Lasts stock (before ++ after) ↔ Lasts stock before ∧
      Lasts (before.foldl Poll.stockAfter stock) after := by
  induction before generalizing stock with
  | nil => simp [Lasts]
  | cons poll before inductionHypothesis =>
      simp only [List.cons_append, Lasts, List.foldl_cons, inductionHypothesis,
        and_assoc]

/-- Without a failed completion the pool lasts. -/
theorem lasts_of_succeeded {stock : Nat} {polls : List Poll}
    (full : minPoolNodes ≤ stock)
    (succeeded : ∀ wc ∈ polls.flatMap Poll.completions, wc.succeeded = true) :
    Lasts stock polls := by
  induction polls generalizing stock with
  | nil => trivial
  | cons poll polls inductionHypothesis =>
      rw [List.flatMap_cons] at succeeded
      refine ⟨poll.requests_lt.trans_le full, inductionHypothesis ?_
        fun wc member => succeeded wc (List.mem_append_right _ member)⟩
      by_cases isFailed : poll = .failed
      · subst isFailed
        exact full
      · have whole : poll.succeeded = true :=
          Poll.succeeded_iff.mpr ⟨isFailed, List.all_eq_true.mpr
            fun wc member => succeeded wc (List.mem_append_left _ member)⟩
        rw [Poll.stockAfter, if_pos whole]
        exact le_max_right _ _

namespace RndvHeap

/-- The loop over `wc`, and what `pp_wait_completions` returns if it returns
there. -/
def lookAt (s : RndvHeap) : List Completion → Option (RndvHeap × Option Int)
  | [] => some (s, none)
  | .send :: rest => s.lookAt rest
  | .recv .closeConnection :: _ => some (s, some (-1))
  | .recv packet :: rest => do (← s.handle packet).lookAt rest
  | .failed :: _ => some (s, some 1)

/-- One round of the loop of `pp_wait_completions`. -/
def pollRound (m : Machine) (s : RndvHeap) :
    Poll → Option (RndvHeap × Option Int)
  | .failed => some (s, some 1)
  | poll => do
      match ← s.lookAt poll.completions with
      | (s, some code) => return (s, some code)
      | (s, none) =>
          let (s, registered) ← s.refill m
          return (s, if registered then none else some 1)

/-- `pp_wait_completions(ctx, iters)`, given everything that it polls, and what
it returns. -/
def ppWaitCompletions (m : Machine) :
    Nat → List Poll → RndvHeap → Option (RndvHeap × Int)
  | 0, [], s => some (s, 0)
  | iters + 1, poll :: polls, s => do
      match ← s.pollRound m poll with
      | (s, none) =>
          ppWaitCompletions m (iters + 1 - poll.completions.length) polls s
      | (s, some code) => if polls.isEmpty then return (s, code) else none
  | _, _, _ => none

/-! ## `pp_close_ctx` -/

/-- The walk over the pool, for at most `fuel` nodes, with the regions that it
passes to `ibv_dereg_mr`. -/
def closePool : Nat → RndvHeap → Option (List Nat × RndvHeap)
  | fuel, s =>
      match s.rndvPoolHead with
      | none => some ([], s)
      | some block =>
          match fuel with
          | 0 => none
          | fuel + 1 => do
              let info ← s.infos block
              let region ← info.rndvMr
              let (regions, s) ← closePool fuel { s with
                infos := fun other =>
                  if other = block then none else s.infos other
                rndvPoolHead := info.next }
              return (region :: regions, s)

/-- The walk over the nodes that were handed out. -/
def closeNodes : Nat → RndvHeap → Option (List Nat × RndvHeap)
  | fuel, s =>
      match s.rndvHead with
      | none => some ([], s)
      | some block =>
          match fuel with
          | 0 => none
          | fuel + 1 => do
              let node ← s.nodes block
              let info ← s.infos (← node.memInfo)
              let region ← info.rndvMr
              let (regions, s) ← closeNodes fuel { s with
                nodes := fun other =>
                  if other = block then none else s.nodes other
                rndvHead := node.next }
              return (region :: regions, s)

/-- `pp_close_ctx`: the regions of both walks. -/
def ppCloseCtx (fuel : Nat) (s : RndvHeap) : Option (List Nat) := do
  let (pooled, s) ← s.closePool fuel
  let (handedOut, _) ← s.closeNodes fuel
  return pooled ++ handedOut

/-! ## Runs -/

/-- The server after `pp_init_ctx` and any number of waits, with everything
that was polled.  When a wait returns -1 the server closes. -/
inductive Reached (m : Machine) : List Poll → RndvHeap → Prop
  | opened {s : RndvHeap} (ran : ppInitCtx m = some s) : Reached m [] s
  | waited {past polls : List Poll} {s s' : RndvHeap} {iters : Nat} {code : Int}
      (reached : Reached m past s)
      (ran : s.ppWaitCompletions m iters polls = some (s', code))
      (stays : 0 ≤ code) : Reached m (past ++ polls) s'

/-- After `pp_init_ctx`, or after a wait that has returned 0. -/
inductive Settled (m : Machine) : List Poll → RndvHeap → Prop
  | opened {s : RndvHeap} (ran : ppInitCtx m = some s) : Settled m [] s
  | waited {past polls : List Poll} {s s' : RndvHeap} {iters : Nat}
      (reached : Reached m past s) (positive : 0 < iters)
      (ran : s.ppWaitCompletions m iters polls = some (s', 0)) :
      Settled m (past ++ polls) s'

def next (s : RndvHeap) (block : Nat) : Option Nat :=
  (s.infos block).bind RndvMemoryInfo.next

def nextNode (s : RndvHeap) (block : Nat) : Option Nat :=
  (s.nodes block).bind RndvNode.next

def memInfo (s : RndvHeap) (block : Nat) : Option Nat :=
  (s.nodes block).bind RndvNode.memInfo

def bufferAt (s : RndvHeap) (block : Nat) : Option Memory :=
  (s.infos block).map RndvMemoryInfo.rndvBuffer

def Registered (s : RndvHeap) (region : Nat) : Prop :=
  ∃ block info, s.infos block = some info ∧ info.rndvMr = some region

/-- Closing visits every region that is registered once. -/
def Closes (s : RndvHeap) : Prop :=
  ∃ regions : List Nat, regions.Nodup ∧
    (∀ region, region ∈ regions ↔ s.Registered region) ∧
    ∃ enough, ∀ fuel ≥ enough, s.ppCloseCtx fuel = some regions

/-- The pool is a list that ends at `rndv_pool_tail` and has as many nodes as
its counter says, the other list has none of them, and both can be closed. -/
structure Sound (s : RndvHeap) : Prop where
  list : ∃ blocks, Chain s.next s.rndvPoolHead blocks ∧
    blocks.getLast? = s.rndvPoolTail ∧
    s.rndvPoolNodesCounter = blocks.length ∧ minPoolNodes ≤ blocks.length
  apart : ∀ block node, Reaches s.next s.rndvPoolHead block →
    Reaches s.nextNode s.rndvHead node → s.memInfo node ≠ some block
  closes : s.Closes

/-! ## The order of the blocks -/

/-- `next` of a block, where the first `taken` of all blocks are handed out and
the last one holds `ending`. -/
def linkOf (taken mallocs : Nat) (ending : Option Nat) (block : Nat) :
    Option Nat :=
  if block < taken then none
  else if block + 1 = mallocs then ending else some (block + 1)

/-- The blocks leave the pool in the order of their allocation.  The counter
counts those of its blocks that are registered. -/
structure Queued (m : Machine) (s : RndvHeap) (taken : Nat)
    (ending : Option Nat) : Prop where
  nonempty : taken < s.mallocs
  infos : ∀ block < s.mallocs, ∃ buffer, s.infos block =
    some ⟨m.ibvRegMr block, buffer, linkOf taken s.mallocs ending block⟩
  unused : ∀ block, s.mallocs ≤ block → s.infos block = none
  poolHead : s.rndvPoolHead = some taken
  counted : s.rndvPoolNodesCounter =
    ((List.range' taken (s.mallocs - taken)).countP m.registers : Nat)
  handedOut : ∀ block < taken, m.registers block = true

/-- The other list has one node for each block that was handed out. -/
structure Listed (s : RndvHeap) (taken : Nat) : Prop where
  nodes : ∀ block, s.nodes block =
    if block < taken then
      some ⟨if block + 1 = taken then none else some (block + 1), some block⟩
    else none
  nodeMallocs : s.nodeMallocs = taken
  head : s.rndvHead = if taken = 0 then none else some 0
  tail : s.rndvTail = if taken = 0 then none else some (taken - 1)

variable {m : Machine} {s s' : RndvHeap} {taken : Nat} {ending : Option Nat}

/-- A block is allocated behind the last one. -/
theorem Queued.mallocBehind (queued : Queued m s taken ending)
    (assign : RndvMemoryInfo → RndvMemoryInfo)
    (registers : ∀ info, (assign info).rndvMr = m.ibvRegMr s.mallocs) :
    ∃ infos, s.mallocBehind m (some (s.mallocs - 1)) assign =
        some { s with infos := infos, mallocs := s.mallocs + 1 } ∧
      Queued m { s with
        infos := infos
        mallocs := s.mallocs + 1
        rndvPoolNodesCounter := s.rndvPoolNodesCounter +
          if m.registers s.mallocs then 1 else 0 }
        taken (assign (m.fresh s.mallocs)).next ∧
      ∀ block, (infos block).map RndvMemoryInfo.rndvBuffer =
        if block = s.mallocs then some (assign (m.fresh s.mallocs)).rndvBuffer
        else s.bufferAt block := by
  obtain ⟨nonempty, infos, unused, head, counted, handedOut⟩ := queued
  obtain ⟨buffer, isLast⟩ := infos (s.mallocs - 1) (by omega)
  have older : s.mallocs - 1 ≠ s.mallocs := by omega
  simp only [RndvHeap.mallocBehind, malloc, modify, if_neg older, isLast,
    Option.bind_eq_bind, Option.bind_some, Option.pure_def, if_neg older.symm,
    if_true]
  refine ⟨_, rfl, ⟨?_, ?_, ?_, head, ?_, handedOut⟩, fun block => ?_⟩
  · exact Nat.lt_succ_of_lt nonempty
  · intro block bound
    simp only at bound ⊢
    by_cases isNew : block = s.mallocs
    · subst isNew
      refine ⟨(assign (m.fresh s.mallocs)).rndvBuffer, ?_⟩
      rw [if_neg older.symm, if_pos rfl, ← registers (m.fresh s.mallocs)]
      simp [linkOf, Nat.not_lt.mpr (Nat.le_of_lt nonempty)]
    · obtain ⟨buffer', isInfo⟩ := infos block (by omega)
      by_cases wasLast : block = s.mallocs - 1
      · subst wasLast
        refine ⟨buffer, ?_⟩
        simp only [if_neg older, if_true, linkOf]
        rw [if_neg (by omega), if_neg (by omega)]
        congr 2
        exact congrArg some (by omega)
      · refine ⟨buffer', ?_⟩
        simp only [if_neg isNew, if_neg wasLast, isInfo, linkOf]
        rw [if_neg (show ¬ block + 1 = s.mallocs by omega),
          if_neg (show ¬ block + 1 = s.mallocs + 1 by omega)]
  · intro block bound
    simp only at bound ⊢
    rw [if_neg (by omega), if_neg (by omega), if_neg (by omega),
      unused block (by omega)]
  · have longer : s.mallocs + 1 - taken = (s.mallocs - taken) + 1 := by omega
    simp only [longer, List.range'_1_concat, List.countP_append, counted]
    have last : taken + (s.mallocs - taken) = s.mallocs := by omega
    rw [last]
    split <;> simp [*]
  · by_cases isNew : block = s.mallocs
    · rw [if_pos isNew, if_pos isNew]
      rfl
    · by_cases wasLast : block = s.mallocs - 1
      · simp [bufferAt, isLast, wasLast, older]
      · simp [bufferAt, isNew, wasLast]

/-- The node that was just allocated becomes the last one. -/
theorem Listed.appendNode (listed : Listed s taken)
    (nodes : ∀ block, s'.nodes block =
      if block = taken then some ⟨none, some taken⟩ else s.nodes block)
    (head : s'.rndvHead = s.rndvHead) (tail : s'.rndvTail = s.rndvTail) :
    ∃ nodes', s'.appendNode taken = some { s' with
        nodes := nodes'
        rndvHead := some 0
        rndvTail := some taken } ∧
      ∀ block, nodes' block =
        if block < taken + 1 then
          some ⟨if block + 1 = taken + 1 then none else some (block + 1),
            some block⟩
        else none := by
  cases taken with
  | zero =>
      have empty : s'.rndvTail = none := tail.trans listed.tail
      simp only [RndvHeap.appendNode, empty]
      refine ⟨s'.nodes, rfl, fun block => ?_⟩
      rw [nodes block, listed.nodes block]
      by_cases first : block = 0 <;> simp [first]
  | succ last =>
      have isLast : s'.rndvTail = some last := by
        simpa using tail.trans listed.tail
      have older : last ≠ last + 1 := by omega
      have isNode : s'.nodes last = some ⟨none, some last⟩ := by
        rw [nodes, if_neg older, listed.nodes, if_pos (Nat.lt_succ_self last),
          if_pos rfl]
      have isHead : s'.rndvHead = some 0 := by
        simpa using head.trans listed.head
      simp only [RndvHeap.appendNode, isLast, modifyNode, isNode, isHead,
        Option.bind_eq_bind, Option.bind_some, Option.pure_def]
      refine ⟨_, rfl, fun block => ?_⟩
      by_cases wasLast : block = last
      · subst wasLast
        rw [if_pos rfl, if_pos (Nat.lt_add_right 1 (Nat.lt_succ_self block)),
          if_neg (Nat.ne_of_lt (Nat.lt_succ_self (block + 1)))]
      · rw [if_neg wasLast, nodes, listed.nodes]
        grind

/-- The first block is handed out, unless its buffer is not registered. -/
theorem Queued.takeNode_eq (queued : Queued m s taken ending)
    (listed : Listed s taken) (change : Memory → Memory) :
    ∃ buffer nodes', s.bufferAt taken = some buffer ∧
      (∀ block, nodes' block =
        if block < taken + 1 then
          some ⟨if block + 1 = taken + 1 then none else some (block + 1),
            some block⟩
        else none) ∧
      s.takeNode change = (m.ibvRegMr taken).map fun region => (region, { s with
        infos := fun other =>
          if other = taken then some ⟨m.ibvRegMr taken, change buffer, none⟩
          else s.infos other
        nodes := nodes'
        nodeMallocs := taken + 1
        rndvHead := some 0
        rndvTail := some taken
        rndvPoolHead := linkOf taken s.mallocs ending taken
        rndvPoolNodesCounter := s.rndvPoolNodesCounter - 1 }) := by
  obtain ⟨buffer, isFirst⟩ := queued.infos taken queued.nonempty
  simp only [RndvHeap.takeNode, mallocNode, modify, queued.poolHead, isFirst,
    listed.nodeMallocs, Option.bind_eq_bind, Option.bind_some,
    Option.pure_def]
  generalize atTake : RndvHeap.mk _ _ _ _ _ _ _ _ _ = taking
  have copied : ∀ block, taking.nodes block =
      if block = taken then some ⟨none, some taken⟩ else s.nodes block := by
    subst atTake
    exact fun _ => rfl
  obtain ⟨nodes', appended, isNodes⟩ :=
    listed.appendNode copied (by subst atTake; rfl) (by subst atTake; rfl)
  have isNode : nodes' taken = some ⟨none, some taken⟩ := by
    simp [isNodes]
  have isInfo : taking.infos taken = some ⟨m.ibvRegMr taken, change buffer,
      none⟩ := by
    subst atTake
    simp
  refine ⟨buffer, nodes', by simp [bufferAt, isFirst], isNodes, ?_⟩
  rw [appended]
  simp only [responseRegion, isNode, isInfo, Option.bind_eq_bind,
    Option.bind_some]
  subst atTake
  cases m.ibvRegMr taken <;> rfl

/-- The first block is handed out, if another one follows. -/
theorem Queued.takeNode {change : Memory → Memory} {region : Nat}
    (queued : Queued m s taken ending) (listed : Listed s taken)
    (another : m.registers taken = true → taken + 1 < s.mallocs)
    (ran : s.takeNode change = some (region, s')) :
    Queued m s' (taken + 1) ending ∧ Listed s' (taken + 1) ∧
      s'.mallocs = s.mallocs ∧ s'.rndvPoolTail = s.rndvPoolTail ∧
      s'.rndvPoolNodesCounter = s.rndvPoolNodesCounter - 1 ∧
      region = taken ∧ ∀ block, s'.bufferAt block =
        if block = taken then (s.bufferAt taken).map change
        else s.bufferAt block := by
  obtain ⟨buffer, nodes', isBuffer, isNodes, took⟩ :=
    queued.takeNode_eq listed change
  obtain ⟨_, infos, unused, _, counted, handedOut⟩ := queued
  rw [took] at ran
  obtain ⟨named, isRegion, same⟩ := Option.map_eq_some_iff.mp ran
  obtain ⟨rfl, rfl⟩ := Prod.mk.inj same
  have registered : m.registers taken = true := by
    by_contra unregistered
    simp [Machine.ibvRegMr, unregistered] at isRegion
  have follows := another registered
  have isTaken : taken = named := by
    simpa [Machine.ibvRegMr, registered] using isRegion
  refine ⟨⟨follows, ?_, ?_, ?_, ?_, ?_⟩, ⟨isNodes, rfl, rfl, rfl⟩, rfl, rfl,
    rfl, isTaken.symm, fun block => ?_⟩
  · intro block bound
    simp only at bound ⊢
    by_cases isTaken : block = taken
    · subst isTaken
      exact ⟨change buffer, by simp [linkOf]⟩
    · obtain ⟨buffer', isBlock⟩ := infos block bound
      refine ⟨buffer', ?_⟩
      rw [if_neg isTaken, isBlock]
      simp only [linkOf]
      by_cases before : block < taken
      · rw [if_pos before, if_pos (by omega)]
      · rw [if_neg before, if_neg (show ¬ block < taken + 1 by omega)]
  · intro block bound
    simp only at bound ⊢
    rw [if_neg (by omega), unused block bound]
  · simp only [linkOf]
    rw [if_neg (lt_irrefl taken), if_neg (by omega)]
  · have shorter : s.mallocs - taken = (s.mallocs - (taken + 1)) + 1 := by
      omega
    simp only [counted, shorter, List.range'_succ, List.countP_cons,
      registered, if_true]
    push_cast
    omega
  · intro block bound
    rcases Nat.lt_succ_iff_lt_or_eq.mp bound with before | rfl
    · exact handedOut block before
    · exact registered
  · by_cases isTaken : block = taken
    · rw [if_pos isTaken, isBuffer, isTaken]
      simp [bufferAt]
    · simp [bufferAt, isTaken]

/-- Both lists, and the tail of the pool. -/
structure Holds (m : Machine) (s : RndvHeap) (taken : Nat)
    (ending : Option Nat) : Prop extends Queued m s taken ending,
    Listed s taken where
  poolTail : s.rndvPoolTail = some (s.mallocs - 1)

/-! ## The first filling -/

theorem Queued.initLoop {fuel current last : Nat}
    (queued : Queued m s taken ending) (atLast : current = s.mallocs - 1)
    (ran : s.initLoop m fuel current = some (s', last)) :
    Queued m s' taken
        (if fuel = 0 then ending else (m.fresh (s.mallocs + fuel - 1)).next) ∧
      s'.mallocs = s.mallocs + fuel ∧ last = s'.mallocs - 1 ∧
      s'.rndvPoolNodesCounter = s.rndvPoolNodesCounter + fuel ∧
      s'.nodes = s.nodes ∧ s'.nodeMallocs = s.nodeMallocs ∧
      s'.rndvHead = s.rndvHead ∧ s'.rndvTail = s.rndvTail ∧
      ∀ block < s'.mallocs, s'.bufferAt block =
        if block < s.mallocs then s.bufferAt block else some Memory.zero := by
  induction fuel generalizing s ending current with
  | zero =>
      obtain ⟨rfl, rfl⟩ := Prod.mk.inj (Option.some.inj ran)
      refine ⟨queued, rfl, atLast, by simp, rfl, rfl, rfl, rfl,
        fun block bound => ?_⟩
      rw [if_pos bound]
  | succ fuel inductionHypothesis =>
      obtain ⟨infos, grown, queued', buffers⟩ := queued.mallocBehind
        (fun info => { info with
          rndvBuffer := Memory.zero
          rndvMr := m.ibvRegMr s.mallocs }) fun _ => rfl
      rw [RndvHeap.initLoop] at ran
      simp only [atLast, grown, Option.bind_eq_bind, Option.bind_some] at ran
      split at ran
      · rename_i registered
        rw [if_pos registered] at queued'
        obtain ⟨queued'', mallocs, isLast, counter, nodes, count, head, tail,
          zeros⟩ := inductionHypothesis queued' (by simp) ran
        simp only at mallocs counter zeros
        refine ⟨?_, by omega, isLast, by push_cast; omega, nodes, count, head,
          tail, fun block bound => ?_⟩
        · simp only [Nat.add_one_ne_zero, if_false]
          cases fuel with
          | zero => exact queued''
          | succ fuel =>
              have sum : s.mallocs + (fuel + 1 + 1) - 1 =
                  s.mallocs + 1 + (fuel + 1) - 1 := by omega
              rw [sum]
              exact queued''
        · rw [zeros block bound]
          by_cases older : block < s.mallocs
          · rw [if_pos (by omega), if_pos older]
            exact (buffers block).trans (if_neg older.ne)
          · rw [if_neg older]
            split
            · exact (buffers block).trans (if_pos (by omega))
            · rfl
      · exact absurd ran (by simp)

/-- The first block of the pool. -/
theorem queued_first (registered : m.registers 0 = true) :
    Queued m { start with
      infos := fun other =>
        if other = 0 then some ⟨m.ibvRegMr 0, Memory.zero, none⟩
        else if other = 0 then some (m.fresh 0) else none
      mallocs := 1
      rndvPoolHead := some 0
      rndvPoolNodesCounter := 1 } 0 none := by
  refine ⟨Nat.zero_lt_one, ?_, ?_, rfl, ?_, ?_⟩
  · intro block bound
    obtain rfl : block = 0 := by simpa using bound
    exact ⟨Memory.zero, by simp [linkOf]⟩
  · intro block bound
    have later : block ≠ 0 := Nat.one_le_iff_ne_zero.mp bound
    simp [later]
  · simp [registered]
  · simp

/-- After `pp_init_ctx` the last node ends with whatever was there. -/
theorem holds_ppInitCtx (ran : ppInitCtx m = some s) :
    Holds m s 0 (m.fresh 9).next ∧ s.mallocs = minPoolNodes ∧
      s.rndvPoolNodesCounter = minPoolNodes ∧
      ∀ block < s.mallocs, s.bufferAt block = some Memory.zero := by
  simp only [ppInitCtx, malloc, modify, start, Option.bind_eq_bind,
    Option.bind_some, if_true, Option.pure_def] at ran
  by_cases registered : m.registers 0 = true
  · simp only [registered, if_true] at ran
    obtain ⟨⟨filled, last⟩, looped, same⟩ := Option.bind_eq_some_iff.mp ran
    obtain rfl := Option.some.inj same
    obtain ⟨queued, mallocs, rfl, counter, nodes, count, head, tail, zeros⟩ :=
      (queued_first registered).initLoop rfl looped
    have listed : Listed filled 0 := ⟨fun block => by simp [nodes, start],
      count, head, tail⟩
    refine ⟨⟨⟨queued.nonempty, queued.infos, queued.unused, queued.poolHead,
      queued.counted, queued.handedOut⟩, ⟨listed.nodes, listed.nodeMallocs,
      listed.head, listed.tail⟩, rfl⟩, mallocs, counter, fun block bound => ?_⟩
    refine (zeros block bound).trans ?_
    split
    · obtain rfl := Nat.lt_one_iff.mp ‹block < 1›
      rfl
    · rfl
  · simp [registered] at ran

/-! ## Requests -/

/-- There are more blocks than requests to come, or one that is not registered,
at which the next request would fail. -/
def Stocked (m : Machine) (s : RndvHeap) (requests : Nat) : Prop :=
  (requests : Int) < s.rndvPoolNodesCounter ∨
    ∃ block < s.mallocs, m.registers block = false

theorem Queued.another {requests : Nat} (queued : Queued m s taken ending)
    (stocked : Stocked m s (requests + 1))
    (registered : m.registers taken = true) : taken + 1 < s.mallocs := by
  rcases stocked with many | ⟨block, bound, unregistered⟩
  · have counted := queued.counted
    have few := List.countP_le_length
      (p := m.registers) (l := List.range' taken (s.mallocs - taken))
    rw [List.length_range'] at few
    omega
  · have later : taken ≤ block := by
      by_contra earlier
      have handedOut := queued.handedOut block (by omega)
      rw [unregistered] at handedOut
      exact absurd handedOut (by simp)
    have other : taken ≠ block := by
      rintro rfl
      rw [registered] at unregistered
      exact absurd unregistered (by simp)
    omega

theorem Stocked.mono {requests fewer : Nat} (stocked : Stocked m s requests)
    (fewer_le : fewer ≤ requests) : Stocked m s fewer :=
  stocked.imp_left fun many => by omega

theorem Holds.takeNode {change : Memory → Memory} {region requests : Nat}
    (holds : Holds m s taken ending)
    (stocked : Stocked m s (requests + 1))
    (ran : s.takeNode change = some (region, s')) :
    Holds m s' (taken + 1) ending ∧ s'.mallocs = s.mallocs ∧
      Stocked m s' requests := by
  obtain ⟨queued, listed, mallocs, tail, counter, _⟩ :=
    holds.toQueued.takeNode holds.toListed
      (holds.toQueued.another stocked) ran
  refine ⟨⟨queued, listed, ?_⟩, mallocs, ?_⟩
  · rw [tail, holds.poolTail, mallocs]
  · unfold Stocked
    rw [counter, mallocs]
    exact stocked.imp_left fun many => by push_cast at many; omega

/-- A packet takes a node of the pool or leaves both lists as they are. -/
private theorem handle_cases {packet : ServerPacket}
    (ran : s.handle packet = some s') :
    packet.takes = false ∧ s' = s ∨ packet.takes = true ∧
      ∃ change region, s.takeNode change = some (region, s') := by
  cases packet with
  | request request =>
      cases request with
      | eager request => exact Or.inl ⟨rfl, (Option.some.inj ran).symm⟩
      | rndvGet key =>
          obtain ⟨⟨region, s''⟩, took, rfl⟩ := Option.map_eq_some_iff.mp ran
          exact Or.inr ⟨rfl, _, region, took⟩
      | rndvSet key =>
          obtain ⟨⟨region, s''⟩, took, rfl⟩ := Option.map_eq_some_iff.mp ran
          exact Or.inr ⟨rfl, _, region, took⟩
  | closeConnection => exact Or.inl ⟨rfl, (Option.some.inj ran).symm⟩
  | ignored => exact Or.inl ⟨rfl, (Option.some.inj ran).symm⟩

theorem Holds.handle {packet : ServerPacket} {requests : Nat}
    (holds : Holds m s taken ending)
    (stocked : Stocked m s (packet.takes.toNat + requests))
    (ran : s.handle packet = some s') :
    Holds m s' (taken + packet.takes.toNat) ending ∧
      s'.mallocs = s.mallocs ∧ Stocked m s' requests := by
  rcases handle_cases ran with ⟨takes, rfl⟩ | ⟨takes, change, region, took⟩
  · rw [takes] at stocked ⊢
    exact ⟨holds, rfl, stocked.mono (Nat.le_add_left _ _)⟩
  · rw [takes, Bool.toNat_true, Nat.add_comm] at stocked
    rw [takes]
    exact holds.takeNode stocked took

/-- What has arrived closes the server or is handled. -/
private theorem lookAt_recv_cases {packet : ServerPacket}
    {wcs : List Completion}
    {code : Option Int}
    (ran : s.lookAt (.recv packet :: wcs) = some (s', code)) :
    s' = s ∧ code = some (-1) ∨ ∃ handled, s.handle packet = some handled ∧
      handled.lookAt wcs = some (s', code) := by
  by_cases isClose : packet = .closeConnection
  · subst isClose
    obtain ⟨rfl, rfl⟩ := Prod.mk.inj (Option.some.inj ran)
    exact Or.inl ⟨rfl, rfl⟩
  · rw [RndvHeap.lookAt] at ran
    · exact Or.inr (Option.bind_eq_some_iff.mp ran)
    · rintro rfl
      exact isClose rfl

/-- The loop over `wc` handles the requests before a failed completion. -/
theorem Holds.lookAt {wcs : List Completion} {code : Option Int}
    (holds : Holds m s taken ending)
    (stocked : Stocked m s
      ((wcs.takeWhile Completion.succeeded).countP Completion.takes))
    (ran : s.lookAt wcs = some (s', code)) :
    ∃ handled, Holds m s' (taken + handled) ending ∧
      s'.mallocs = s.mallocs ∧
      (code ≠ some (-1) →
        handled = (wcs.takeWhile Completion.succeeded).countP
          Completion.takes ∧
        code = if wcs.all Completion.succeeded then none else some 1) := by
  induction wcs generalizing s taken with
  | nil =>
      obtain ⟨rfl, rfl⟩ := Prod.mk.inj (Option.some.inj ran)
      exact ⟨0, holds, rfl, fun _ => ⟨rfl, rfl⟩⟩
  | cons wc wcs inductionHypothesis =>
      cases wc with
      | send => exact inductionHypothesis holds stocked ran
      | failed =>
          obtain ⟨rfl, rfl⟩ := Prod.mk.inj (Option.some.inj ran)
          exact ⟨0, holds, rfl, fun _ => ⟨rfl, rfl⟩⟩
      | recv packet =>
          rcases lookAt_recv_cases ran with ⟨rfl, rfl⟩ | ⟨t, handled, looked⟩
          · exact ⟨0, holds, rfl, fun stays => absurd rfl stays⟩
          · have counted : ((Completion.recv packet :: wcs).takeWhile
                Completion.succeeded).countP Completion.takes =
                  packet.takes.toNat + (wcs.takeWhile
                    Completion.succeeded).countP Completion.takes := by
              rw [List.takeWhile_cons_of_pos rfl, List.countP_cons,
                Completion.takes, Nat.add_comm]
              cases packet.takes <;> rfl
            rw [counted] at stocked ⊢
            obtain ⟨holds'', mallocs, stocked''⟩ :=
              holds.handle stocked handled
            obtain ⟨count, holds', mallocs', returns⟩ :=
              inductionHypothesis holds'' stocked'' looked
            refine ⟨packet.takes.toNat + count, ?_, mallocs'.trans mallocs,
              fun stays => ?_⟩
            · rw [← Nat.add_assoc]
              exact holds'
            · obtain ⟨all, goesOn⟩ := returns stays
              exact ⟨by rw [all], goesOn⟩

/-- The counter counts what was handed out. -/
theorem Holds.counter_sub {count : Nat} {ending' : Option Nat}
    (before : Holds m s taken ending)
    (after : Holds m s' (taken + count) ending')
    (mallocs : s'.mallocs = s.mallocs) :
    s'.rndvPoolNodesCounter = s.rndvPoolNodesCounter - count := by
  have nonempty := after.nonempty
  have longer : s.mallocs - taken =
      count + (s.mallocs - (taken + count)) := by omega
  have handedOut : (List.range' taken count).countP m.registers = count := by
    rw [List.countP_eq_length.mpr, List.length_range']
    intro block member
    exact after.handedOut block (List.mem_range'_1.mp member).2
  rw [before.counted, after.counted, mallocs, longer, ← List.range'_append_1,
    List.countP_append, handedOut]
  push_cast
  omega

/-! ## The later fillings -/

theorem Holds.growPool (holds : Holds m s taken ending) :
    ∃ s', s.growPool m = some (s', m.registers s.mallocs) ∧
      Holds m s' taken none ∧ s'.mallocs = s.mallocs + 1 ∧
      s'.rndvPoolNodesCounter = s.rndvPoolNodesCounter +
        (if m.registers s.mallocs then 1 else 0) ∧
      ∀ block, s'.bufferAt block =
        if block = s.mallocs then some Memory.zero else s.bufferAt block := by
  obtain ⟨infos, grown, queued, buffers⟩ := holds.toQueued.mallocBehind
    (fun info => { info with
      next := none
      rndvBuffer := Memory.zero
      rndvMr := m.ibvRegMr s.mallocs }) fun _ => rfl
  have listed := holds.toListed
  simp only [RndvHeap.growPool, holds.poolTail, grown, Option.bind_eq_bind,
    Option.bind_some, Option.pure_def]
  cases registered : m.registers s.mallocs with
  | true =>
      rw [registered] at queued
      exact ⟨_, rfl, ⟨⟨queued.nonempty, queued.infos, queued.unused,
        queued.poolHead, queued.counted, queued.handedOut⟩, ⟨listed.nodes,
        listed.nodeMallocs, listed.head, listed.tail⟩, rfl⟩, rfl, rfl,
        buffers⟩
  | false =>
      rw [registered] at queued
      exact ⟨_, rfl, ⟨⟨queued.nonempty, queued.infos, queued.unused,
        queued.poolHead, (Int.add_zero _).symm.trans queued.counted,
        queued.handedOut⟩, ⟨listed.nodes, listed.nodeMallocs, listed.head,
        listed.tail⟩, rfl⟩, rfl, (Int.add_zero _).symm, buffers⟩

/-- The loop writes `next` of the last node unless it has nothing to do. -/
theorem Holds.refillLoop (fuel : Nat) (holds : Holds m s taken ending) :
    ∃ s' registered, s.refillLoop m fuel = some (s', registered) ∧
      Holds m s' taken (if fuel = 0 then ending else none) ∧
      (fuel = 0 → s' = s) ∧
      (registered = true →
        s'.rndvPoolNodesCounter = s.rndvPoolNodesCounter + fuel) ∧
      (registered = false →
        ∃ block < s'.mallocs, m.registers block = false) ∧
      s.mallocs ≤ s'.mallocs := by
  induction fuel generalizing s ending with
  | zero =>
      exact ⟨s, true, rfl, holds, fun _ => rfl, fun _ => by simp,
        fun failed => absurd failed (by simp), le_rfl⟩
  | succ fuel inductionHypothesis =>
      obtain ⟨grown, ran, holds', mallocs, counter, _⟩ := holds.growPool
      rw [RndvHeap.refillLoop, ran]
      cases registers : m.registers s.mallocs with
      | true =>
          rw [registers] at counter
          obtain ⟨s', registered, looped, holds'', _, full, failed, more⟩ :=
            inductionHypothesis holds'
          refine ⟨s', registered, looped, ?_, fun none => absurd none (by simp),
            fun all => ?_, failed, by omega⟩
          · simpa using holds''
          · rw [full all, counter]
            push_cast
            simp only [if_true]
            omega
      | false =>
          refine ⟨grown, false, rfl, by simpa using holds',
            fun none => absurd none (by simp), fun all => absurd all (by simp),
            fun _ => ⟨s.mallocs, by omega, registers⟩, by omega⟩

/-- After a wait: so many blocks are handed out, the counter is `stock` unless
a block is not registered, and the last one ends with what `malloc` left there
until the pool is filled again. -/
structure Kept (m : Machine) (handled stock : Nat) (ending : Option Nat)
    (s : RndvHeap) : Prop where
  holds : Holds m s handled ending
  stock : s.rndvPoolNodesCounter = stock ∨
    ∃ block < s.mallocs, m.registers block = false
  filled : ending = none ∧ 0 < handled ∨ ending = (m.fresh 9).next ∧
    s.rndvPoolNodesCounter = minPoolNodes - (handled : Int)

/-- What holds behind the loop that fills the pool. -/
structure Filled (m : Machine) (handled stock : Nat) (ending : Option Nat) :
    Prop where
  ends : ending = if handled = 0 then (m.fresh 9).next else none
  full : minPoolNodes ≤ stock

variable {handled stock : Nat}

theorem Filled.ended (filled : Filled m handled stock ending)
    (ends : (m.fresh 9).next = none ∨ 0 < handled) : ending = none := by
  rw [filled.ends]
  split
  · exact ends.resolve_right (by omega)
  · rfl

theorem Kept.ended (kept : Kept m handled stock ending s)
    (ends : (m.fresh 9).next = none) : ending = none := by
  rcases kept.filled with ⟨ended, _⟩ | ⟨first, _⟩
  · exact ended
  · exact first.trans ends

private theorem kept_ppInitCtx (ran : ppInitCtx m = some s) :
    Kept m 0 minPoolNodes (m.fresh 9).next s := by
  obtain ⟨holds, _, counter, _⟩ := holds_ppInitCtx ran
  exact ⟨holds, Or.inl counter, Or.inr ⟨rfl, by rw [counter]; simp⟩⟩

private theorem filled_ppInitCtx : Filled m 0 minPoolNodes (m.fresh 9).next :=
  ⟨rfl, le_rfl⟩

theorem Kept.stocked {requests : Nat} (kept : Kept m handled stock ending s)
    (lasts : requests < stock) : Stocked m s requests :=
  kept.stock.imp_left fun counter => by omega

/-- The loop over `wc`, before the pool is filled again. -/
theorem Kept.lookAt {wcs : List Completion} {code : Option Int}
    (kept : Kept m handled stock ending s)
    (lasts : (wcs.takeWhile Completion.succeeded).countP Completion.takes <
      stock)
    (ran : s.lookAt wcs = some (s', code)) (stays : code ≠ some (-1)) :
    Kept m (handled +
        (wcs.takeWhile Completion.succeeded).countP Completion.takes)
      (stock - (wcs.takeWhile Completion.succeeded).countP Completion.takes)
      ending s' ∧
      code = if wcs.all Completion.succeeded then none else some 1 := by
  obtain ⟨count, holds, mallocs, returns⟩ :=
    kept.holds.lookAt (kept.stocked lasts) ran
  obtain ⟨rfl, goesOn⟩ := returns stays
  have counter := kept.holds.counter_sub holds mallocs
  refine ⟨⟨holds, ?_, ?_⟩, goesOn⟩
  · rw [mallocs]
    exact kept.stock.imp_left fun before => by omega
  · refine kept.filled.imp (fun ⟨ended, positive⟩ => ⟨ended, by omega⟩)
      fun ⟨first, before⟩ => ⟨first, ?_⟩
    rw [counter, before]
    push_cast
    omega

/-- The filling writes `next` of the last block if a block is missing. -/
theorem Kept.refill {registered : Bool}
    (kept : Kept m handled stock ending s)
    (ran : s.refill m = some (s', registered)) :
    ∃ ending', Kept m handled (max stock minPoolNodes) ending' s' ∧
      Filled m handled (max stock minPoolNodes) ending' := by
  obtain ⟨filled, outcome, looped, holds, same, full, failed, more⟩ :=
    kept.holds.refillLoop (minPoolNodes - s.rndvPoolNodesCounter).toNat
  obtain ⟨rfl, _⟩ := Prod.mk.inj (Option.some.inj (looped.symm.trans ran))
  have stocked : filled.rndvPoolNodesCounter = (max stock minPoolNodes : Nat) ∨
      ∃ block < filled.mallocs, m.registers block = false := by
    cases outcome with
    | false => exact Or.inr (failed rfl)
    | true =>
        rcases kept.stock with counter | ⟨block, bound, unregistered⟩
        · exact Or.inl (by rw [full rfl]; omega)
        · exact Or.inr ⟨block, by omega, unregistered⟩
  by_cases idle : (minPoolNodes - s.rndvPoolNodesCounter).toNat = 0
  · obtain rfl := same idle
    rw [if_pos idle] at holds
    refine ⟨ending, ⟨holds, stocked, kept.filled⟩, ?_, le_max_right _ _⟩
    rcases kept.filled with ⟨rfl, some⟩ | ⟨rfl, counter⟩
    · rw [if_neg (by omega)]
    · rw [if_pos (by omega)]
  · rw [if_neg idle] at holds
    have some : 0 < handled := by
      rcases kept.filled with ⟨_, some⟩ | ⟨_, counter⟩
      · exact some
      · omega
    exact ⟨none, ⟨holds, stocked, Or.inl ⟨rfl, some⟩⟩, by rw [if_neg some.ne'],
      le_max_right _ _⟩

/-- A round ends where the poll fails, in the loop over `wc`, or behind the
refill. -/
private theorem pollRound_cases {poll : Poll} {code : Option Int}
    (ran : s.pollRound m poll = some (s', code)) :
    s' = s ∧ poll.completions = [] ∧ code = some 1 ∨
      (∃ code', s.lookAt poll.completions = some (s', some code') ∧
        code = some code') ∨
      poll ≠ .failed ∧ ∃ looked registered,
        s.lookAt poll.completions = some (looked, none) ∧
        looked.refill m = some (s', registered) ∧
        code = if registered then none else some 1 := by
  by_cases isFailed : poll = .failed
  · subst isFailed
    obtain ⟨rfl, rfl⟩ := Prod.mk.inj (Option.some.inj ran)
    exact Or.inl ⟨rfl, rfl, rfl⟩
  · rw [RndvHeap.pollRound] at ran
    · obtain ⟨⟨looked, code'⟩, lookedAt, rest⟩ :=
        Option.bind_eq_some_iff.mp ran
      refine Or.inr ?_
      cases code' with
      | some code' =>
          obtain ⟨rfl, rfl⟩ := Prod.mk.inj (Option.some.inj rest)
          exact Or.inl ⟨code', lookedAt, rfl⟩
      | none =>
          obtain ⟨⟨filled, registered⟩, refilled, same⟩ :=
            Option.bind_eq_some_iff.mp rest
          obtain ⟨rfl, rfl⟩ := Prod.mk.inj (Option.some.inj same)
          exact Or.inr ⟨isFailed, looked, registered, lookedAt, refilled, rfl⟩
    · exact isFailed

theorem Kept.pollRound {poll : Poll} {code : Option Int}
    (kept : Kept m handled stock ending s) (lasts : poll.requests < stock)
    (ran : s.pollRound m poll = some (s', code)) (stays : code ≠ some (-1)) :
    ∃ ending',
      Kept m (handled + poll.requests) (poll.stockAfter stock) ending' s' ∧
      (code ≠ some 1 →
        Filled m (handled + poll.requests) (poll.stockAfter stock) ending') := by
  rcases pollRound_cases ran with ⟨rfl, none, rfl⟩ | ⟨code', lookedAt, rfl⟩ |
    ⟨polled, looked, registered, lookedAt, refilled, _⟩
  · obtain rfl : poll = .failed := by
      cases poll <;> simp [Poll.completions] at none ⊢
    exact ⟨ending, kept, fun goesOn => absurd rfl goesOn⟩
  · obtain ⟨kept', stops⟩ := kept.lookAt lasts lookedAt stays
    split at stops
    · exact absurd stops (by simp)
    · rename_i stopped
      have cut : ¬ poll.succeeded = true := fun succeeded =>
        stopped (Poll.succeeded_iff.mp succeeded).2
      rw [Poll.stockAfter, if_neg cut]
      exact ⟨ending, kept', fun goesOn => absurd stops goesOn⟩
  · obtain ⟨kept', goesOn⟩ := kept.lookAt lasts lookedAt (by simp)
    have whole : poll.succeeded = true := by
      refine Poll.succeeded_iff.mpr ⟨polled, ?_⟩
      by_contra stopped
      rw [if_neg stopped] at goesOn
      exact absurd goesOn (by simp)
    obtain ⟨ending', kept'', filled⟩ := kept'.refill refilled
    rw [Poll.stockAfter, if_pos whole]
    exact ⟨ending', kept'', fun _ => filled⟩

theorem Kept.pollRound_closed {poll : Poll}
    (kept : Kept m handled stock none s) (lasts : poll.requests < stock)
    (ran : s.pollRound m poll = some (s', some (-1))) :
    ∃ taken, Holds m s' taken none := by
  rcases pollRound_cases ran with ⟨_, _, code⟩ | ⟨_, lookedAt, _⟩ |
    ⟨_, looked, registered, _, _, code⟩
  · exact absurd code (by decide)
  · obtain ⟨count, holds, _⟩ := kept.holds.lookAt (kept.stocked lasts) lookedAt
    exact ⟨_, holds⟩
  · exact absurd code (by cases registered <;> decide)

/-- A wait that returns has returned at once, goes on behind its first round,
or returns there. -/
private theorem ppWaitCompletions_cases {iters : Nat} {polls : List Poll}
    {code : Int}
    (ran : s.ppWaitCompletions m iters polls = some (s', code)) :
    polls = [] ∧ iters = 0 ∧ s' = s ∧ code = 0 ∨
      ∃ poll rest, polls = poll :: rest ∧
      ((∃ polled left, s.pollRound m poll = some (polled, none) ∧
          polled.ppWaitCompletions m left rest = some (s', code)) ∨
        s.pollRound m poll = some (s', some code) ∧ rest = []) := by
  cases polls with
  | nil =>
      cases iters with
      | zero =>
          obtain ⟨rfl, rfl⟩ := Prod.mk.inj (Option.some.inj ran)
          exact Or.inl ⟨rfl, rfl, rfl, rfl⟩
      | succ iters => exact absurd ran (by simp [RndvHeap.ppWaitCompletions])
  | cons poll rest =>
      cases iters with
      | zero => exact absurd ran (by simp [RndvHeap.ppWaitCompletions])
      | succ iters =>
          refine Or.inr ⟨poll, rest, rfl, ?_⟩
          rw [RndvHeap.ppWaitCompletions] at ran
          obtain ⟨⟨polled, code'⟩, round, later⟩ :=
            Option.bind_eq_some_iff.mp ran
          cases code' with
          | none => exact Or.inl ⟨polled, _, round, later⟩
          | some code' =>
              simp only at later
              split at later
              · rename_i last
                obtain ⟨rfl, rfl⟩ := Prod.mk.inj (Option.some.inj later)
                exact Or.inr ⟨round, List.isEmpty_iff.mp last⟩
              · exact absurd later (by simp)

/-- After a wait that returns 0 the pool is filled. -/
theorem Kept.ppWaitCompletions {iters : Nat} {polls : List Poll} {code : Int}
    (kept : Kept m handled stock ending s) (lasts : Lasts stock polls)
    (ran : s.ppWaitCompletions m iters polls = some (s', code))
    (stays : 0 ≤ code) :
    ∃ ending', Kept m (handled + requestsOf polls)
        (polls.foldl Poll.stockAfter stock) ending' s' ∧
      (code = 0 → 0 < iters ∨ Filled m handled stock ending →
        Filled m (handled + requestsOf polls)
          (polls.foldl Poll.stockAfter stock) ending') := by
  induction polls generalizing s handled stock ending iters with
  | nil =>
      rcases ppWaitCompletions_cases ran with ⟨_, rfl, rfl, _⟩ |
        ⟨_, _, some, _⟩
      · refine ⟨ending, kept, fun _ filled => ?_⟩
        exact filled.resolve_left (Nat.lt_irrefl 0)
      · exact absurd some (by simp)
  | cons poll polls inductionHypothesis =>
      rw [requestsOf_cons, ← Nat.add_assoc, List.foldl_cons]
      rcases ppWaitCompletions_cases ran with ⟨none, _⟩ | ⟨_, _, isPoll, goesOn⟩
      · exact absurd none (by simp)
      · obtain ⟨rfl, rfl⟩ := List.cons.inj isPoll
        rcases goesOn with ⟨polled, left, round, rest⟩ | ⟨round, rfl⟩
        · obtain ⟨between, kept', filled⟩ :=
            kept.pollRound lasts.1 round (by simp)
          obtain ⟨ending', kept'', filled'⟩ :=
            inductionHypothesis kept' lasts.2 rest
          refine ⟨ending', kept'', fun zero _ => filled' zero (Or.inr ?_)⟩
          exact filled (by simp)
        · obtain ⟨ending', kept', filled⟩ := kept.pollRound lasts.1 round (by
            rintro same
            obtain rfl := Option.some.inj same
            exact absurd stays (by decide))
          refine ⟨ending', kept', fun zero _ => filled ?_⟩
          rw [zero]
          decide

/-- A wait that returns -1 has left the lists in order. -/
theorem Kept.closed {iters : Nat} {polls : List Poll}
    (kept : Kept m handled stock none s) (lasts : Lasts stock polls)
    (ends : (m.fresh 9).next = none ∨ 0 < handled)
    (ran : s.ppWaitCompletions m iters polls = some (s', -1)) :
    ∃ taken, Holds m s' taken none := by
  induction polls generalizing s handled stock iters with
  | nil =>
      rcases ppWaitCompletions_cases ran with ⟨_, _, _, zero⟩ | ⟨_, _, some, _⟩
      · exact absurd zero (by decide)
      · exact absurd some (by simp)
  | cons poll polls inductionHypothesis =>
      rcases ppWaitCompletions_cases ran with ⟨none, _⟩ | ⟨_, _, isPoll, goesOn⟩
      · exact absurd none (by simp)
      · obtain ⟨rfl, rfl⟩ := List.cons.inj isPoll
        rcases goesOn with ⟨polled, left, round, rest⟩ | ⟨round, _⟩
        · obtain ⟨ending', kept', filled⟩ :=
            kept.pollRound lasts.1 round (by simp)
          obtain rfl : ending' = none := (filled (by simp)).ended
            (ends.imp_right fun positive => by omega)
          exact inductionHypothesis kept' lasts.2
            (ends.imp_right fun some => by omega) rest
        · exact kept.pollRound_closed lasts.1 round

theorem Reached.kept {past : List Poll} (reached : Reached m past s)
    (lasts : Lasts minPoolNodes past) :
    ∃ ending, Kept m (requestsOf past)
      (past.foldl Poll.stockAfter minPoolNodes) ending s := by
  induction reached with
  | opened ran => exact ⟨_, kept_ppInitCtx ran⟩
  | waited _ ran stays inductionHypothesis =>
      obtain ⟨before, after⟩ := lasts_append.mp lasts
      obtain ⟨ending, kept⟩ := inductionHypothesis before
      obtain ⟨ending', kept', _⟩ := kept.ppWaitCompletions after ran stays
      rw [requestsOf_append, List.foldl_append]
      exact ⟨ending', kept'⟩

theorem Settled.kept {past : List Poll} (settled : Settled m past s)
    (lasts : Lasts minPoolNodes past) :
    ∃ ending, Kept m (requestsOf past)
        (past.foldl Poll.stockAfter minPoolNodes) ending s ∧
      Filled m (requestsOf past)
        (past.foldl Poll.stockAfter minPoolNodes) ending := by
  cases settled with
  | opened ran => exact ⟨_, kept_ppInitCtx ran, filled_ppInitCtx⟩
  | waited reached positive ran =>
      obtain ⟨before, after⟩ := lasts_append.mp lasts
      obtain ⟨ending, kept⟩ := reached.kept before
      obtain ⟨ending', kept', filled⟩ :=
        kept.ppWaitCompletions after ran le_rfl
      rw [requestsOf_append, List.foldl_append]
      exact ⟨ending', kept', filled rfl (Or.inl positive)⟩

/-! ## `pp_close_ctx` on lists -/

private theorem closePool_of_chain {blocks : List Nat} {fuel : Nat}
    (chain : Chain s.next s.rndvPoolHead blocks)
    (registered : ∀ block ∈ blocks, ∃ info, s.infos block = some info ∧
      info.rndvMr = some block)
    (enough : blocks.length ≤ fuel) :
    ∃ s', s.closePool fuel = some (blocks, s') ∧
      (∀ block, block ∉ blocks → s'.infos block = s.infos block) ∧
      s'.nodes = s.nodes ∧ s'.rndvHead = s.rndvHead := by
  induction blocks generalizing s fuel with
  | nil =>
      have empty : s.rndvPoolHead = none := chain
      refine ⟨s, ?_, fun _ _ => rfl, rfl, rfl⟩
      unfold closePool
      rw [empty]
  | cons block blocks inductionHypothesis =>
      obtain ⟨fuel, rfl⟩ : ∃ less, fuel = less + 1 :=
        Nat.exists_eq_succ_of_ne_zero (by
          rintro rfl
          exact absurd enough (by simp))
      have outside : block ∉ blocks := (List.nodup_cons.mp chain.nodup).1
      obtain ⟨head, tail⟩ := chain
      obtain ⟨info, isInfo, isRegion⟩ :=
        registered block (List.mem_cons_self ..)
      have follows : s.next block = info.next := by
        simp [next, isInfo]
      rw [follows] at tail
      let freed : RndvHeap := { s with
        infos := fun other => if other = block then none else s.infos other
        rndvPoolHead := info.next }
      have kept : ∀ other ∈ blocks, freed.infos other = s.infos other := by
        intro other member
        have different : other ≠ block := by
          rintro rfl
          exact outside member
        exact if_neg different
      obtain ⟨s', ran, others, nodes, rndvHead⟩ :=
        @inductionHypothesis freed fuel
          (tail.congr fun other member => by
            simp only [next, kept other member])
          (fun other member => by
            rw [kept other member]
            exact registered other (List.mem_cons_of_mem _ member))
          (Nat.le_of_succ_le_succ enough)
      refine ⟨s', ?_, fun other absent => ?_, nodes, rndvHead⟩
      · unfold closePool
        simp only [head, isInfo, isRegion, Option.bind_eq_bind,
          Option.bind_some]
        rw [ran]
        rfl
      · obtain ⟨different, later⟩ := not_or.mp (List.mem_cons.not.mp absent)
        rw [others other later]
        exact if_neg different

private theorem closeNodes_of_chain {nodes : List Nat} {fuel : Nat}
    (chain : Chain s.nextNode s.rndvHead nodes)
    (registered : ∀ block ∈ nodes, s.memInfo block = some block ∧
      ∃ info, s.infos block = some info ∧ info.rndvMr = some block)
    (enough : nodes.length ≤ fuel) :
    ∃ s', s.closeNodes fuel = some (nodes, s') := by
  induction nodes generalizing s fuel with
  | nil =>
      have empty : s.rndvHead = none := chain
      refine ⟨s, ?_⟩
      unfold closeNodes
      rw [empty]
  | cons block nodes inductionHypothesis =>
      obtain ⟨fuel, rfl⟩ : ∃ less, fuel = less + 1 :=
        Nat.exists_eq_succ_of_ne_zero (by
          rintro rfl
          exact absurd enough (by simp))
      have outside : block ∉ nodes := (List.nodup_cons.mp chain.nodup).1
      obtain ⟨head, tail⟩ := chain
      obtain ⟨isMemInfo, info, isInfo, isRegion⟩ :=
        registered block (List.mem_cons_self ..)
      obtain ⟨node, isNode, isBlock⟩ := Option.bind_eq_some_iff.mp isMemInfo
      have follows : s.nextNode block = node.next := by
        simp [nextNode, isNode]
      rw [follows] at tail
      let freed : RndvHeap := { s with
        nodes := fun other => if other = block then none else s.nodes other
        rndvHead := node.next }
      have kept : ∀ other ∈ nodes, freed.nodes other = s.nodes other := by
        intro other member
        have different : other ≠ block := by
          rintro rfl
          exact outside member
        exact if_neg different
      obtain ⟨s', ran⟩ := @inductionHypothesis freed fuel
        (tail.congr fun other member => by
          simp only [nextNode, kept other member])
        (fun other member => by
          simp only [memInfo, kept other member]
          exact registered other (List.mem_cons_of_mem _ member))
        (Nat.le_of_succ_le_succ enough)
      refine ⟨s', ?_⟩
      unfold closeNodes
      simp only [head, isNode, isBlock, isInfo, isRegion, Option.bind_eq_bind,
        Option.bind_some]
      rw [ran]
      rfl

/-! ## When the pool is sound -/

theorem Queued.next_eq (queued : Queued m s taken ending) {block : Nat}
    (bound : block < s.mallocs) :
    s.next block = linkOf taken s.mallocs ending block := by
  obtain ⟨buffer, isInfo⟩ := queued.infos block bound
  simp [next, isInfo]

theorem Queued.chain (queued : Queued m s taken none) :
    Chain s.next s.rndvPoolHead
      (List.range' taken (s.mallocs - taken)) := by
  have nonempty := queued.nonempty
  have chain := @chain_range' s.next taken (s.mallocs - taken)
    fun i bound => by
      rw [queued.next_eq (by omega), linkOf, if_neg (by omega)]
      by_cases last : i + 1 = s.mallocs - taken
      · rw [if_pos last, if_pos (by omega)]
      · rw [if_neg last, if_neg (by omega)]
  rwa [if_neg (by omega), ← queued.poolHead] at chain

theorem Listed.chain (listed : Listed s taken) :
    Chain s.nextNode s.rndvHead (List.range' 0 taken) := by
  have chain := @chain_range' s.nextNode 0 taken fun i bound => by
    simp [nextNode, listed.nodes, bound]
  rwa [← listed.head] at chain

theorem Listed.memInfo_eq (listed : Listed s taken) {block : Nat}
    (bound : block < taken) : s.memInfo block = some block := by
  simp [memInfo, listed.nodes, bound]

theorem Queued.region (queued : Queued m s taken ending)
    (registered : ∀ block < s.mallocs, m.registers block = true)
    {block : Nat} (bound : block < s.mallocs) :
    ∃ info, s.infos block = some info ∧ info.rndvMr = some block := by
  obtain ⟨buffer, isInfo⟩ := queued.infos block bound
  exact ⟨_, isInfo, if_pos (registered block bound)⟩

/-- Lists that end, with registered blocks only, can be closed. -/
theorem Holds.closes (holds : Holds m s taken none)
    (registered : ∀ block < s.mallocs, m.registers block = true) :
    s.Closes := by
  have nonempty := holds.nonempty
  refine ⟨List.range' taken (s.mallocs - taken) ++ List.range' 0 taken,
    ?_, fun region => ?_, s.mallocs, fun fuel enough => ?_⟩
  · refine List.nodup_append.mpr ⟨List.nodup_range', List.nodup_range',
      fun block inPool other isNode => ?_⟩
    rw [List.mem_range'_1] at inPool isNode
    omega
  · rw [List.mem_append, List.mem_range'_1, List.mem_range'_1]
    constructor
    · intro inside
      have bound : region < s.mallocs := by omega
      obtain ⟨info, isInfo, isRegion⟩ :=
        holds.toQueued.region registered bound
      exact ⟨region, info, isInfo, isRegion⟩
    · rintro ⟨block, info, isInfo, isRegion⟩
      have bound : block < s.mallocs := by
        by_contra outside
        rw [holds.unused block (by omega)] at isInfo
        exact absurd isInfo (by simp)
      obtain ⟨info', isInfo', isRegion'⟩ :=
        holds.toQueued.region registered bound
      obtain rfl := Option.some.inj (isInfo.symm.trans isInfo')
      obtain rfl := Option.some.inj (isRegion.symm.trans isRegion')
      omega
  · obtain ⟨closed, ran, others, sameNodes, sameHead⟩ :=
      @closePool_of_chain s _ fuel holds.toQueued.chain
        (fun block member => holds.toQueued.region registered (by
          rw [List.mem_range'_1] at member
          omega))
        (by rw [List.length_range']; omega)
    obtain ⟨closed', ran'⟩ := @closeNodes_of_chain closed
      (List.range' 0 taken) fuel
      (by
        rw [sameHead]
        exact holds.toListed.chain.congr fun node _ => by
          simp only [nextNode, sameNodes])
      (fun node member => by
        rw [List.mem_range'_1] at member
        refine ⟨?_, ?_⟩
        · simp only [memInfo, sameNodes]
          exact holds.toListed.memInfo_eq (by omega)
        · rw [others node (by rw [List.mem_range'_1]; omega)]
          exact holds.toQueued.region registered (by omega))
      (by rw [List.length_range']; omega)
    simp only [RndvHeap.ppCloseCtx, ran, ran', Option.bind_eq_bind,
      Option.bind_some, Option.pure_def]

theorem Holds.sound (holds : Holds m s taken none)
    (registered : ∀ block < s.mallocs, m.registers block = true)
    (full : (minPoolNodes : Int) ≤ s.rndvPoolNodesCounter) : s.Sound := by
  have pool := holds.toQueued.chain
  have nodes := holds.toListed.chain
  have nonempty := holds.nonempty
  have counted : s.rndvPoolNodesCounter =
      (List.range' taken (s.mallocs - taken)).length := by
    rw [holds.counted, List.countP_eq_length.mpr fun block member =>
      registered block (by rw [List.mem_range'_1] at member; omega)]
  refine ⟨⟨_, pool, ?_, counted, by omega⟩, ?_, holds.closes registered⟩
  · rw [List.getLast?_range', if_neg (by omega), holds.poolTail]
    congr 1
    omega
  · intro block node inPool isNode same
    rw [pool.reaches_iff, List.mem_range'_1] at inPool
    rw [nodes.reaches_iff, List.mem_range'_1] at isNode
    rw [holds.toListed.memInfo_eq (by omega)] at same
    obtain rfl := Option.some.inj same
    omega

theorem Kept.counter (kept : Kept m handled stock ending s)
    (registered : ∀ block < s.mallocs, m.registers block = true) :
    s.rndvPoolNodesCounter = stock := by
  refine kept.stock.resolve_right fun ⟨block, bound, unregistered⟩ => ?_
  rw [registered block bound] at unregistered
  exact absurd unregistered (by simp)

theorem Kept.sound (kept : Kept m handled stock none s)
    (full : minPoolNodes ≤ stock)
    (registered : ∀ block < s.mallocs, m.registers block = true) :
    s.Sound := by
  refine kept.holds.sound registered ?_
  rw [kept.counter registered]
  exact Int.ofNat_le.mpr full

/-- A pool that is sound ends with NULL, and its blocks are registered. -/
theorem Holds.of_sound (holds : Holds m s taken ending) (sound : s.Sound) :
    ending = none ∧ ∀ block < s.mallocs, m.registers block = true := by
  obtain ⟨blocks, chain, isLast, counted, _⟩ := sound.list
  have nonempty := holds.nonempty
  have ended : ending = none := by
    have last := chain.next_last (isLast.trans holds.poolTail)
    rw [holds.toQueued.next_eq (by omega), linkOf, if_neg (by omega),
      if_pos (by omega)] at last
    exact last
  subst ended
  obtain rfl := chain.unique holds.toQueued.chain
  refine ⟨rfl, fun block bound => ?_⟩
  by_cases handedOut : block < taken
  · exact holds.handedOut block handedOut
  · have all := Int.ofNat.inj (holds.counted.symm.trans counted)
    exact List.countP_eq_length.mp all block
      (List.mem_range'_1.mpr ⟨by omega, by omega⟩)

/-- In every run in which the pool lasts, it is sound after `pp_init_ctx` and
after a wait that returns 0 if and only if every buffer was registered and the
last node of the first filling has got a NULL: from `malloc`, or since a
rendezvous request has been handled. -/
theorem rndvPool_sound_iff {past : List Poll} (settled : Settled m past s)
    (lasts : Lasts minPoolNodes past) :
    s.Sound ↔ (∀ block < s.mallocs, m.registers block = true) ∧
      ((m.fresh (minPoolNodes - 1)).next = none ∨
        ∃ poll ∈ past, 0 < poll.requests) := by
  obtain ⟨ending, kept, filled⟩ := settled.kept lasts
  rw [← requestsOf_pos]
  constructor
  · intro sound
    obtain ⟨ended, registered⟩ := kept.holds.of_sound sound
    refine ⟨registered, ?_⟩
    by_cases first : requestsOf past = 0
    · rw [filled.ends, if_pos first] at ended
      exact Or.inl ended
    · exact Or.inr (Nat.pos_of_ne_zero first)
  · rintro ⟨registered, ends⟩
    obtain rfl := filled.ended ends
    exact kept.sound filled.full registered

/-- Every buffer is registered, and every block held a pointer to the first
one. -/
def leftover : Machine := ⟨fun _ => ⟨none, Memory.zero, some 0⟩, fun _ => true⟩

/-- The pool of a server that has just started does not end. -/
theorem rndvPool_not_sound :
    ¬ ∀ (m : Machine) (s : RndvHeap), (∀ block, m.registers block = true) →
      ppInitCtx m = some s → s.Sound := by
  intro sound
  obtain ⟨s, ran⟩ : ∃ s, ppInitCtx leftover = some s :=
    Option.isSome_iff_exists.mp rfl
  have holds := (holds_ppInitCtx ran).1
  have ended := (holds.of_sound (sound leftover s (fun _ => rfl) ran)).1
  exact absurd ended (by simp [leftover])

def oneRequest : List Poll := [.one (.recv (.request (.rndvGet .empty)))]

/-- After the first rendezvous request it ends. -/
theorem rndvPool_sound_iff_oneRequest :
    ∃ s, Settled leftover oneRequest s ∧
      (s.Sound ↔ (∀ block < s.mallocs, leftover.registers block = true) ∧
        ((leftover.fresh (minPoolNodes - 1)).next = none ∨
          ∃ poll ∈ oneRequest, 0 < poll.requests)) := by
  obtain ⟨started, opened⟩ : ∃ s, ppInitCtx leftover = some s :=
    Option.isSome_iff_exists.mp rfl
  have waits : (ppInitCtx leftover).bind (fun s =>
      (s.ppWaitCompletions leftover 1 oneRequest).map Prod.snd) = some 0 := rfl
  rw [opened, Option.bind_some] at waits
  obtain ⟨⟨s, code⟩, ran, rfl⟩ := Option.map_eq_some_iff.mp waits
  have settled : Settled leftover oneRequest s :=
    Settled.waited (Reached.opened opened) Nat.zero_lt_one ran
  exact ⟨s, settled, rndvPool_sound_iff settled ⟨by decide, trivial⟩⟩

/-- When a wait returns -1, which is before the pool is filled again, the
lists can be closed on the same condition. -/
theorem closes_of_closed {past polls : List Poll} {iters : Nat}
    (settled : Settled m past s) (lasts : Lasts minPoolNodes (past ++ polls))
    (ran : s.ppWaitCompletions m iters polls = some (s', -1))
    (registered : ∀ block < s'.mallocs, m.registers block = true)
    (ends : (m.fresh (minPoolNodes - 1)).next = none ∨
      ∃ poll ∈ past, 0 < poll.requests) :
    s'.Closes := by
  obtain ⟨before, after⟩ := lasts_append.mp lasts
  obtain ⟨ending, kept, filled⟩ := settled.kept before
  rw [← requestsOf_pos] at ends
  obtain rfl := filled.ended ends
  obtain ⟨taken, holds⟩ := kept.closed after ends ran
  exact holds.closes registered

/-! ## A pool that has run empty -/

/-- The next request would go through NULL. -/
private theorem handle_empty {packet : ServerPacket}
    (empty : s.rndvPoolHead = none)
    (ran : s.handle packet = some s') : s' = s := by
  rcases handle_cases ran with ⟨_, same⟩ | ⟨_, change, region, took⟩
  · exact same
  · exact absurd took (by simp [RndvHeap.takeNode, mallocNode, empty])

private theorem lookAt_empty {wcs : List Completion} {code : Option Int}
    (empty : s.rndvPoolHead = none)
    (ran : s.lookAt wcs = some (s', code)) : s' = s := by
  induction wcs with
  | nil => exact (Prod.mk.inj (Option.some.inj ran)).1.symm
  | cons wc wcs inductionHypothesis =>
      cases wc with
      | send => exact inductionHypothesis ran
      | failed => exact (Prod.mk.inj (Option.some.inj ran)).1.symm
      | recv packet =>
          rcases lookAt_recv_cases ran with ⟨same, _⟩ | ⟨t, handled, looked⟩
          · exact same
          · obtain rfl := handle_empty empty handled
            exact inductionHypothesis looked

private theorem modify_poolHead {pointer : Option Nat}
    {change : RndvMemoryInfo → RndvMemoryInfo}
    (ran : s.modify pointer change = some s') :
    s'.rndvPoolHead = s.rndvPoolHead := by
  obtain ⟨block, _, ran⟩ := Option.bind_eq_some_iff.mp ran
  obtain ⟨info, _, ran⟩ := Option.bind_eq_some_iff.mp ran
  obtain rfl := Option.some.inj ran
  rfl

private theorem appendNode_poolHead {block : Nat}
    (ran : s.appendNode block = some s') :
    s'.rndvPoolHead = s.rndvPoolHead := by
  unfold RndvHeap.appendNode at ran
  split at ran
  · obtain rfl := Option.some.inj ran
    rfl
  · obtain ⟨t, modified, ran⟩ := Option.bind_eq_some_iff.mp ran
    obtain ⟨node, _, modified⟩ := Option.bind_eq_some_iff.mp modified
    obtain rfl := Option.some.inj modified
    obtain rfl := Option.some.inj ran
    rfl

/-- The pool goes on behind its first node. -/
private theorem takeNode_poolHead {change : Memory → Memory}
    {region block : Nat}
    (ran : s.takeNode change = some (region, s'))
    (isHead : s.rndvPoolHead = some block) :
    s'.rndvPoolHead = s.next block := by
  obtain ⟨first, isFirst, ran⟩ := Option.bind_eq_some_iff.mp ran
  obtain rfl : first = block := Option.some.inj (isFirst.symm.trans isHead)
  obtain ⟨info, isInfo, ran⟩ := Option.bind_eq_some_iff.mp ran
  obtain ⟨t, modified, ran⟩ := Option.bind_eq_some_iff.mp ran
  obtain ⟨t', appended, ran⟩ := Option.bind_eq_some_iff.mp ran
  obtain ⟨region', _, ran⟩ := Option.bind_eq_some_iff.mp ran
  obtain ⟨_, rfl⟩ := Prod.mk.inj (Option.some.inj ran)
  have follows : s.next first = info.next := by
    have isInfo : s.infos first = some info := isInfo
    simp [next, isInfo]
  rw [follows]
  exact (appendNode_poolHead appended).trans (modify_poolHead modified)

/-- The filling works behind `rndv_pool_tail`. -/
private theorem growPool_poolHead {registered : Bool}
    (ran : s.growPool m = some (s', registered)) :
    s'.rndvPoolHead = s.rndvPoolHead := by
  obtain ⟨t, behind, ran⟩ := Option.bind_eq_some_iff.mp ran
  obtain ⟨t', linked, assigned⟩ := Option.bind_eq_some_iff.mp behind
  have same := (modify_poolHead assigned).trans (modify_poolHead linked)
  simp only [Option.pure_def] at ran
  split at ran
  · obtain ⟨rfl, _⟩ := Prod.mk.inj (Option.some.inj ran)
    exact same
  · obtain ⟨rfl, _⟩ := Prod.mk.inj (Option.some.inj ran)
    exact same

private theorem refillLoop_poolHead {fuel : Nat} {registered : Bool}
    (ran : s.refillLoop m fuel = some (s', registered)) :
    s'.rndvPoolHead = s.rndvPoolHead := by
  induction fuel generalizing s with
  | zero =>
      obtain ⟨rfl, _⟩ := Prod.mk.inj (Option.some.inj ran)
      rfl
  | succ fuel inductionHypothesis =>
      obtain ⟨⟨grown, outcome⟩, grew, ran⟩ := Option.bind_eq_some_iff.mp ran
      have same := growPool_poolHead grew
      cases outcome with
      | true => exact (inductionHypothesis ran).trans same
      | false =>
          obtain ⟨rfl, _⟩ := Prod.mk.inj (Option.some.inj ran)
          exact same

private theorem pollRound_empty {poll : Poll} {code : Option Int}
    (empty : s.rndvPoolHead = none)
    (ran : s.pollRound m poll = some (s', code)) :
    s'.rndvPoolHead = none := by
  rcases pollRound_cases ran with ⟨rfl, _⟩ | ⟨_, lookedAt, _⟩ |
    ⟨_, looked, registered, lookedAt, refilled, _⟩
  · exact empty
  · rw [lookAt_empty empty lookedAt]
    exact empty
  · obtain rfl := lookAt_empty empty lookedAt
    exact (refillLoop_poolHead refilled).trans empty

private theorem ppWaitCompletions_empty {iters : Nat} {polls : List Poll}
    {code : Int}
    (empty : s.rndvPoolHead = none)
    (ran : s.ppWaitCompletions m iters polls = some (s', code)) :
    s'.rndvPoolHead = none := by
  induction polls generalizing s iters with
  | nil =>
      rcases ppWaitCompletions_cases ran with ⟨_, _, rfl, _⟩ | ⟨_, _, some, _⟩
      · exact empty
      · exact absurd some (by simp)
  | cons poll polls inductionHypothesis =>
      rcases ppWaitCompletions_cases ran with ⟨none, _⟩ | ⟨_, _, isPoll, goesOn⟩
      · exact absurd none (by simp)
      · obtain ⟨rfl, rfl⟩ := List.cons.inj isPoll
        rcases goesOn with ⟨polled, left, round, rest⟩ | ⟨round, _⟩
        · exact inductionHypothesis (pollRound_empty empty round) rest
        · exact pollRound_empty empty round

/-- As many requests as the pool has nodes leave it empty. -/
theorem Holds.runsOut {wcs : List Completion} {code : Option Int}
    (holds : Holds m s taken none)
    (registered : ∀ block < s.mallocs, m.registers block = true)
    (many : s.mallocs - taken ≤
      (wcs.takeWhile Completion.succeeded).countP Completion.takes)
    (ran : s.lookAt wcs = some (s', code)) (stays : code ≠ some (-1)) :
    s'.rndvPoolHead = none := by
  have nonempty := holds.nonempty
  induction wcs generalizing s taken with
  | nil => exact absurd many (by simp; omega)
  | cons wc wcs inductionHypothesis =>
      cases wc with
      | send => exact inductionHypothesis holds registered many ran nonempty
      | failed => exact absurd many (by simp [Completion.succeeded]; omega)
      | recv packet =>
          rcases lookAt_recv_cases ran with ⟨_, closed⟩ | ⟨t, handled, looked⟩
          · exact absurd closed stays
          · rw [List.takeWhile_cons_of_pos rfl, List.countP_cons,
              Completion.takes] at many
            rcases handle_cases handled with ⟨takes, rfl⟩ |
              ⟨takes, change, region, took⟩
            · rw [takes] at many
              exact inductionHypothesis holds registered many looked nonempty
            · rw [takes, if_pos rfl] at many
              by_cases another : taken + 1 < s.mallocs
              · obtain ⟨queued, listed, mallocs, tail, _⟩ :=
                  holds.toQueued.takeNode holds.toListed
                    (fun _ => another) took
                have holds' : Holds m t (taken + 1) none :=
                  ⟨queued, listed, by rw [tail, holds.poolTail, mallocs]⟩
                rw [← mallocs] at registered
                exact inductionHypothesis holds' registered
                  (by rw [mallocs]; omega) looked (by rw [mallocs]; omega)
              · have empty : t.rndvPoolHead = none := by
                  rw [takeNode_poolHead took holds.poolHead,
                    holds.toQueued.next_eq nonempty, linkOf,
                    if_neg (Nat.lt_irrefl taken), if_pos (by omega)]
                rw [lookAt_empty empty looked]
                exact empty

theorem Kept.pollRound_runsOut {poll : Poll} {code : Option Int}
    (kept : Kept m handled stock none s)
    (registers : ∀ block, m.registers block = true)
    (runsOut : ¬ poll.requests < stock)
    (ran : s.pollRound m poll = some (s', code)) (stays : code ≠ some (-1)) :
    s'.rndvPoolHead = none := by
  have few : s.mallocs - handled ≤ poll.requests := by
    have counter := kept.counter fun block _ => registers block
    rw [kept.holds.counted, List.countP_eq_length.mpr fun block _ =>
      registers block, List.length_range'] at counter
    omega
  have nonempty := kept.holds.nonempty
  rcases pollRound_cases ran with ⟨rfl, none, _⟩ | ⟨_, lookedAt, rfl⟩ |
    ⟨_, looked, registered, lookedAt, refilled, _⟩
  · rw [Poll.requests, none] at few
    exact absurd few (by simp; omega)
  · exact kept.holds.runsOut (fun block _ => registers block) few lookedAt
      stays
  · exact (refillLoop_poolHead refilled).trans
      (kept.holds.runsOut (fun block _ => registers block) few lookedAt
        (by simp))

theorem Kept.lasts_or_empty {iters : Nat} {polls : List Poll} {code : Int}
    (kept : Kept m handled stock none s)
    (registers : ∀ block, m.registers block = true)
    (ends : (m.fresh 9).next = none)
    (ran : s.ppWaitCompletions m iters polls = some (s', code))
    (stays : 0 ≤ code) : Lasts stock polls ∨ s'.rndvPoolHead = none := by
  induction polls generalizing s handled stock iters with
  | nil => exact Or.inl trivial
  | cons poll polls inductionHypothesis =>
      rcases ppWaitCompletions_cases ran with ⟨none, _⟩ | ⟨_, _, isPoll, goesOn⟩
      · exact absurd none (by simp)
      · obtain ⟨rfl, rfl⟩ := List.cons.inj isPoll
        rcases goesOn with ⟨polled, left, round, rest⟩ | ⟨round, rfl⟩
        · by_cases here : poll.requests < stock
          · obtain ⟨ending, kept', _⟩ := kept.pollRound here round (by simp)
            obtain rfl := kept'.ended ends
            exact (inductionHypothesis kept' rest).imp_left
              fun later => ⟨here, later⟩
          · exact Or.inr (ppWaitCompletions_empty
              (kept.pollRound_runsOut registers here round (by simp)) rest)
        · by_cases here : poll.requests < stock
          · exact Or.inl ⟨here, trivial⟩
          · refine Or.inr (kept.pollRound_runsOut registers here round ?_)
            rintro same
            obtain rfl := Option.some.inj same
            exact absurd stays (by decide)

/-- In every run the pool lasts, or it is empty from then on. -/
theorem Reached.lasts_or_empty {past : List Poll} (reached : Reached m past s)
    (registers : ∀ block, m.registers block = true)
    (ends : (m.fresh 9).next = none) :
    Lasts minPoolNodes past ∨ s.rndvPoolHead = none := by
  induction reached with
  | opened _ => exact Or.inl trivial
  | waited reached ran stays inductionHypothesis =>
      rcases inductionHypothesis with before | empty
      · obtain ⟨ending, kept⟩ := reached.kept before
        obtain rfl := kept.ended ends
        rw [lasts_append]
        exact (kept.lasts_or_empty registers ends ran stays).imp_left
          fun after => ⟨before, after⟩
      · exact Or.inr (ppWaitCompletions_empty empty ran)

theorem Settled.reached {past : List Poll} (settled : Settled m past s) :
    Reached m past s := by
  cases settled with
  | opened ran => exact Reached.opened ran
  | waited reached _ ran => exact reached.waited ran le_rfl

private theorem not_sound_of_empty (empty : s.rndvPoolHead = none) :
    ¬ s.Sound := by
  intro sound
  obtain ⟨blocks, chain, _, _, many⟩ := sound.list
  rw [empty] at chain
  cases blocks with
  | nil => exact absurd many (by decide)
  | cons block blocks => exact absurd chain.1 (by simp)

/-- Where every buffer is registered and the first filling ends with NULL, the
pool is sound as long as it lasts, and not again. -/
theorem sound_iff_lasts {past : List Poll} (settled : Settled m past s)
    (registers : ∀ block, m.registers block = true)
    (ends : (m.fresh (minPoolNodes - 1)).next = none) :
    s.Sound ↔ Lasts minPoolNodes past := by
  constructor
  · intro sound
    exact (settled.reached.lasts_or_empty registers ends).resolve_right
      fun empty => not_sound_of_empty empty sound
  · intro lasts
    obtain ⟨ending, kept, filled⟩ := settled.kept lasts
    obtain rfl := filled.ended (Or.inl ends)
    exact kept.sound filled.full fun block _ => registers block

end RndvHeap

end RdmaKv.Ex3
