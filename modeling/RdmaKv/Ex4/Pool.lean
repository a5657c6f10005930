import RdmaKv.Ex4.Handler
import RdmaKv.Library.LinkedChain
import Mathlib.Data.Set.Basic

/-!
# Who holds which buffer

Every `MEMORY_INFO` node of a server is in the chain from `mem_pool_head`, is
the buffer of one entry, or is neither.  `maintain_pool` links tainted nodes
behind `mem_pool_tail` without moving the tail, so the tail may leave the
chain: it is then handed to an entry, and later links hang off that entry's
buffer.  The invariant calls the nodes on that loose end `stale`.  A walk that
starts among them never ends, which is why they do not come back into the
chain.
-/

namespace RdmaKv

open ByteMemory LinkedChain

namespace Server

variable {regMr : Nat → Option IbvMr}
variable {s s' : Server} {pool : List Nat} {tail : Nat} {stale : Set Nat}

/-- The chain from `mem_pool_head` is `pool`, `mem_pool_tail` is `tail`, and
the nodes of `stale` hang together behind a tail that has left the chain. -/
structure PoolShape (regMr : Nat → Option IbvMr) (s : Server)
    (pool : List Nat) (tail : Nat) (stale : Set Nat) : Prop where
  chain : Chain s.nextMem s.memPoolHead pool
  tailEq : s.memPoolTail = some tail
  place : tail ∈ pool ∧ stale = ∅ ∨ tail ∈ stale
  bound : ∀ node, node ∈ pool ∨ node ∈ s.owned ∨ node ∈ stale →
    node < s.mallocs
  ownedNodup : s.owned.Nodup
  separate : ∀ node ∈ pool, node ∉ s.owned ∧ node ∉ stale
  staleNext : ∀ node ∈ stale, node ≠ tail →
    ∃ next ∈ stale, s.nextMem node = some next
  ownedNext : ∀ node ∈ s.owned, node ∉ stale → s.nextMem node = none
  zeroed : ∀ node ∈ pool, (s.nodes node).rndvBuffer = Memory.zero
  registered : ∀ node < s.mallocs,
    (s.nodes node).rndvMr = regMr node ∧ (regMr node).isSome

/-- The pool between two requests. -/
structure Settled (regMr : Nat → Option IbvMr) (s : Server)
    (pool : List Nat) (tail : Nat) (stale : Set Nat) : Prop where
  shape : PoolShape regMr s pool tail stale
  noTainted : s.taintedMemPoolHead = none
  enough : (minPoolNodes : Int) ≤ s.poolSize

/-- The pool when a request has been handled and not yet been maintained: at
most one buffer was tainted, and at most one taken. -/
structure Handled (regMr : Nat → Option IbvMr) (s : Server)
    (pool : List Nat) (tail : Nat) (stale : Set Nat) : Prop where
  shape : PoolShape regMr s pool tail stale
  tainted : ∀ node, s.taintedMemPoolHead = some node →
    node < s.mallocs ∧ node ∉ pool ∧ node ∉ s.owned ∧
      (node ∉ stale → s.nextMem node = none)
  enough : (minPoolNodes : Int) ≤ s.poolSize + 1

/-- A step of pool maintenance: the entries, their buffers and the
registrations stay as they are. -/
structure Keeps (s s' : Server) : Prop where
  entries : s'.entries = s.entries
  entriesCounter : s'.entriesCounter = s.entriesCounter
  closeServer : s'.closeServer = s.closeServer
  buffers : ∀ node ∈ s.owned,
    (s'.nodes node).rndvBuffer = (s.nodes node).rndvBuffer
  registrations : ∀ node < s.mallocs,
    (s'.nodes node).rndvMr = (s.nodes node).rndvMr
  mallocs : s.mallocs ≤ s'.mallocs

theorem Keeps.refl (s : Server) : Keeps s s :=
  ⟨rfl, rfl, rfl, fun _ _ => rfl, fun _ _ => rfl, le_rfl⟩

theorem Keeps.owned (keeps : Keeps s s') : s'.owned = s.owned := by
  unfold Server.owned
  rw [keeps.entries]

theorem Keeps.trans {s'' : Server} (first : Keeps s s')
    (second : Keeps s' s'') : Keeps s s'' where
  entries := second.entries.trans first.entries
  entriesCounter := second.entriesCounter.trans first.entriesCounter
  closeServer := second.closeServer.trans first.closeServer
  buffers := fun node member =>
    (second.buffers node (by rw [first.owned]; exact member)).trans
      (first.buffers node member)
  registrations := fun node bound =>
    (second.registrations node (bound.trans_le first.mallocs)).trans
      (first.registrations node bound)
  mallocs := first.mallocs.trans second.mallocs

theorem PoolShape.stale_eq_empty
    (shape : PoolShape regMr s pool tail stale) (member : tail ∈ pool) :
    stale = ∅ := by
  rcases shape.place with ⟨_, empty⟩ | inStale
  · exact empty
  · exact absurd inStale (shape.separate tail member).2

/-- The registration of a node that was allocated. -/
theorem PoolShape.exists_server (shape : PoolShape regMr s pool tail stale)
    {node : Nat} (bound : node < s.mallocs) :
    ∃ server, regMr node = some server ∧
      (s.nodes node).rndvMr = some server := by
  obtain ⟨same, isSome⟩ := shape.registered node bound
  obtain ⟨server, answer⟩ := Option.isSome_iff_exists.mp isSome
  exact ⟨server, answer, same.trans answer⟩

/-! ## What a request does to the pool -/

/-- Only the owned buffers changed, and only by giving some away. -/
theorem PoolShape.of_subset
    (shape : PoolShape regMr s pool tail stale)
    (nodes : s'.nodes = s.nodes) (mallocs : s'.mallocs = s.mallocs)
    (head : s'.memPoolHead = s.memPoolHead)
    (tailSame : s'.memPoolTail = s.memPoolTail)
    (owned : s'.owned ⊆ s.owned) (nodup : s'.owned.Nodup) :
    PoolShape regMr s' pool tail stale := by
  have next : ∀ node, s'.nextMem node = s.nextMem node := by
    intro node
    rw [nextMem, nextMem, nodes]
  refine ⟨?_, tailSame.trans shape.tailEq, shape.place, ?_, nodup, ?_, ?_,
    ?_, ?_, ?_⟩
  · rw [head]
    exact shape.chain.congr fun node _ => next node
  · intro node member
    rw [mallocs]
    refine shape.bound node ?_
    rcases member with inPool | inOwned | inStale
    · exact Or.inl inPool
    · exact Or.inr (Or.inl (owned inOwned))
    · exact Or.inr (Or.inr inStale)
  · intro node member
    exact ⟨fun inOwned =>
      (shape.separate node member).1 (owned inOwned),
      (shape.separate node member).2⟩
  · intro node member different
    rw [next]
    exact shape.staleNext node member different
  · intro node member outside
    rw [next]
    exact shape.ownedNext node (owned member) outside
  · rw [nodes]
    exact shape.zeroed
  · rw [nodes, mallocs]
    exact shape.registered

section Takes

variable {node : Nat} {rest : List Nat}

theorem Takes.nextMem (step : Takes node s s') (other : Nat) :
    s'.nextMem other = if other = node then none else s.nextMem other := by
  rw [← nextMem_setNextMem s node other none, Server.nextMem, Server.nextMem,
    step.nodes]

/-- The head of a chain is nowhere else. -/
theorem PoolShape.ne_head
    (shape : PoolShape regMr s (node :: rest) tail stale) {other : Nat}
    (member : other ∈ rest) : other ≠ node :=
  fun same => (List.nodup_cons.mp shape.chain.nodup).1 (same ▸ member)

theorem PoolShape.take_chain
    (shape : PoolShape regMr s (node :: rest) tail stale)
    (step : Takes node s s') : Chain s'.nextMem s'.memPoolHead rest := by
  rw [step.head]
  refine shape.chain.2.congr fun other member => ?_
  rw [step.nextMem, if_neg (shape.ne_head member)]

theorem PoolShape.take_nodup
    (shape : PoolShape regMr s (node :: rest) tail stale)
    (step : Takes node s s') : s'.owned.Nodup :=
  step.owned.nodup_iff.mpr (List.nodup_cons.mpr
    ⟨(shape.separate node (List.mem_cons_self ..)).1, shape.ownedNodup⟩)

theorem PoolShape.take_zeroed
    (shape : PoolShape regMr s (node :: rest) tail stale)
    (step : Takes node s s') :
    ∀ other ∈ rest, (s'.nodes other).rndvBuffer = Memory.zero := by
  intro other member
  rw [step.nodes, rndvBuffer_setNextMem]
  exact shape.zeroed other (List.mem_cons_of_mem node member)

theorem PoolShape.take_registered
    (shape : PoolShape regMr s (node :: rest) tail stale)
    (step : Takes node s s') : ∀ other < s'.mallocs,
      (s'.nodes other).rndvMr = regMr other ∧ (regMr other).isSome := by
  intro other bound
  rw [step.nodes, rndvMr_setNextMem]
  exact shape.registered other (step.mallocs ▸ bound)

theorem PoolShape.take_bound
    (shape : PoolShape regMr s (node :: rest) tail stale)
    (step : Takes node s s') {other : Nat}
    (member : other ∈ rest ∨ other ∈ s'.owned ∨ other ∈ stale) :
    other < s'.mallocs := by
  rw [step.mallocs]
  refine shape.bound other ?_
  rcases member with inRest | inOwned | inStale
  · exact Or.inl (List.mem_cons_of_mem node inRest)
  · rcases List.mem_cons.mp (step.owned.mem_iff.mp inOwned) with rfl | old
    · exact Or.inl (List.mem_cons_self ..)
    · exact Or.inr (Or.inl old)
  · exact Or.inr (Or.inr inStale)

theorem PoolShape.take_separate
    (shape : PoolShape regMr s (node :: rest) tail stale)
    (step : Takes node s s') {other : Nat} (member : other ∈ rest) :
    other ∉ s'.owned := by
  intro inOwned
  rcases List.mem_cons.mp (step.owned.mem_iff.mp inOwned) with same | old
  · exact shape.ne_head member same
  · exact (shape.separate other (List.mem_cons_of_mem node member)).1 old

/-- The tail leaves the chain, and the loose end starts with it alone. -/
theorem PoolShape.take_tail
    (shape : PoolShape regMr s (node :: rest) node stale)
    (step : Takes node s s') : PoolShape regMr s' rest node {node} := by
  have noStale : stale = ∅ := shape.stale_eq_empty (List.mem_cons_self ..)
  refine ⟨shape.take_chain step, step.tail.trans shape.tailEq,
    Or.inr (Set.mem_singleton node), ?_, shape.take_nodup step, ?_, ?_, ?_,
    shape.take_zeroed step, shape.take_registered step⟩
  · rintro other (inRest | inOwned | rfl)
    · exact shape.take_bound step (Or.inl inRest)
    · exact shape.take_bound step (Or.inr (Or.inl inOwned))
    · rw [step.mallocs]
      exact shape.bound other (Or.inl (List.mem_cons_self ..))
  · exact fun other member =>
      ⟨shape.take_separate step member, shape.ne_head member⟩
  · intro other member different
    exact absurd (Set.mem_singleton_iff.mp member) different
  · intro other member outside
    have different : other ≠ node := outside
    rcases List.mem_cons.mp (step.owned.mem_iff.mp member) with same | old
    · exact absurd same different
    · rw [step.nextMem, if_neg different]
      exact shape.ownedNext other old (by simp [noStale])

/-- Another node leaves the chain, and the loose end stays. -/
theorem PoolShape.take_other
    (shape : PoolShape regMr s (node :: rest) tail stale)
    (step : Takes node s s') (notTail : node ≠ tail) :
    PoolShape regMr s' rest tail stale := by
  have nodeNotStale : node ∉ stale :=
    (shape.separate node (List.mem_cons_self ..)).2
  refine ⟨shape.take_chain step, step.tail.trans shape.tailEq, ?_,
    fun other => shape.take_bound step, shape.take_nodup step, ?_, ?_, ?_,
    shape.take_zeroed step, shape.take_registered step⟩
  · rcases shape.place with ⟨member, empty⟩ | inStale
    · rcases List.mem_cons.mp member with same | later
      · exact absurd same.symm notTail
      · exact Or.inl ⟨later, empty⟩
    · exact Or.inr inStale
  · exact fun other member => ⟨shape.take_separate step member,
      (shape.separate other (List.mem_cons_of_mem node member)).2⟩
  · intro other member different
    have notNode : other ≠ node := fun same => nodeNotStale (same ▸ member)
    rw [step.nextMem, if_neg notNode]
    exact shape.staleNext other member different
  · intro other member outside
    rw [step.nextMem]
    split
    · rfl
    · rename_i different
      rcases List.mem_cons.mp (step.owned.mem_iff.mp member) with same | old
      · exact absurd same different
      · exact shape.ownedNext other old outside

/-- The head of the chain moves to an entry. -/
theorem PoolShape.take (shape : PoolShape regMr s (node :: rest) tail stale)
    (step : Takes node s s') :
    PoolShape regMr s' rest tail (if node = tail then {node} else stale) := by
  by_cases isTail : node = tail
  · subst isTail
    rw [if_pos rfl]
    exact shape.take_tail step
  · rw [if_neg isTail]
    exact shape.take_other step isTail

end Takes

/-! ## What maintenance does to the pool -/

/-- One tainted node, zeroed and linked behind the tail. -/
def recycled (tail node : Nat) (s : Server) : Server :=
  { (s.setRndvBuffer node Memory.zero).setNextMem tail (some node) with
    poolSize := s.poolSize + 1
    taintedMemPoolHead := none }

@[simp]
theorem nextMem_recycled (s : Server) (tail node other : Nat) :
    (recycled tail node s).nextMem other =
      if other = tail then some node else s.nextMem other := by
  change ((s.setRndvBuffer node Memory.zero).setNextMem tail
    (some node)).nextMem other = _
  simp

@[simp]
theorem rndvBuffer_recycled (s : Server) (tail node other : Nat) :
    ((recycled tail node s).nodes other).rndvBuffer =
      if other = node then Memory.zero else (s.nodes other).rndvBuffer := by
  change (((s.setRndvBuffer node Memory.zero).setNextMem tail
    (some node)).nodes other).rndvBuffer = _
  simp

@[simp]
theorem rndvMr_recycled (s : Server) (tail node other : Nat) :
    ((recycled tail node s).nodes other).rndvMr = (s.nodes other).rndvMr := by
  change (((s.setRndvBuffer node Memory.zero).setNextMem tail
    (some node)).nodes other).rndvMr = _
  simp

/-- The walk over the tainted list ends after a node without a successor. -/
private theorem recycleTainted_recycled {node : Nat}
    (head : s.taintedMemPoolHead = some node)
    (tailEq : s.memPoolTail = some tail) (notTail : node ≠ tail)
    (last : s.nextMem node = none) (fuel : Nat) :
    recycleTainted (fuel + 1) s = some (recycled tail node s) := by
  have walk : ∀ fuel (t : Server), t.taintedMemPoolHead = none →
      recycleTainted fuel t = some t := by
    intro fuel t empty
    cases fuel <;> simp [recycleTainted, empty]
  have lastAfter : ((s.setRndvBuffer node Memory.zero).setNextMem tail
      (some node)).nextMem node = none := by
    simp [notTail, last]
  have tailAfter : (s.setRndvBuffer node Memory.zero).memPoolTail =
      some tail := tailEq
  rw [recycleTainted, head]
  simp only [tailAfter]
  rw [walk]
  · refine congrArg some ?_
    rw [recycled]
    congr 1
  · exact lastAfter

private theorem keeps_recycled {node : Nat} (notOwned : node ∉ s.owned) :
    Keeps s (recycled tail node s) := by
  refine ⟨rfl, rfl, rfl, ?_, ?_, le_rfl⟩
  · intro other member
    have different : other ≠ node := fun same => notOwned (same ▸ member)
    rw [rndvBuffer_recycled, if_neg different]
  · intro other _
    exact rndvMr_recycled s tail node other

theorem PoolShape.relinked {node : Nat}
    (shape : PoolShape regMr s pool tail stale) (bound : node < s.mallocs)
    (notTail : node ≠ tail) (notOwned : node ∉ s.owned)
    (notStale : node ∉ stale) (last : s.nextMem node = none) :
    PoolShape regMr (recycled tail node s) (linkBehind tail node pool) tail
      stale := by
  refine ⟨?_, shape.tailEq, ?_, ?_, shape.ownedNodup, ?_, ?_, ?_, ?_, ?_⟩
  · refine shape.chain.linkBehind ?_ ?_ ?_
    · intro other _ different
      rw [nextMem_recycled, if_neg different]
    · rw [nextMem_recycled, if_pos rfl]
    · rw [nextMem_recycled, if_neg notTail]
      exact last
  · rcases shape.place with ⟨member, empty⟩ | inStale
    · exact Or.inl ⟨tail_mem_linkBehind member, empty⟩
    · exact Or.inr inStale
  · intro other member
    rcases member with inPool | rest
    · rcases mem_of_mem_linkBehind inPool with old | rfl
      · exact shape.bound other (Or.inl old)
      · exact bound
    · exact shape.bound other (Or.inr rest)
  · intro other member
    rcases mem_of_mem_linkBehind member with old | rfl
    · exact shape.separate other old
    · exact ⟨notOwned, notStale⟩
  · intro other member different
    rw [nextMem_recycled, if_neg different]
    exact shape.staleNext other member different
  · intro other member outside
    have different : other ≠ tail := by
      rintro rfl
      rcases shape.place with ⟨inPool, _⟩ | inStale
      · exact (shape.separate other inPool).1 member
      · exact outside inStale
    rw [nextMem_recycled, if_neg different]
    exact shape.ownedNext other member outside
  · intro other member
    rw [rndvBuffer_recycled]
    split
    · rfl
    · rename_i different
      rcases mem_of_mem_linkBehind member with old | same
      · exact shape.zeroed other old
      · exact absurd same different
  · intro other inside
    rw [rndvMr_recycled]
    exact shape.registered other inside

/-- A node that lies outside the chain is zeroed and linked behind the tail. -/
theorem PoolShape.recycle {node : Nat}
    (shape : PoolShape regMr s pool tail stale)
    (head : s.taintedMemPoolHead = some node) (bound : node < s.mallocs)
    (notPool : node ∉ pool) (notOwned : node ∉ s.owned)
    (notStale : node ∉ stale) (last : s.nextMem node = none) (fuel : Nat) :
    ∃ s', recycleTainted (fuel + 1) s = some s' ∧
      PoolShape regMr s' (linkBehind tail node pool) tail stale ∧
      Keeps s s' ∧ s'.taintedMemPoolHead = none ∧
      s'.poolSize = s.poolSize + 1 ∧ s'.mallocs = s.mallocs := by
  have notTail : node ≠ tail := by
    rintro rfl
    rcases shape.place with ⟨member, _⟩ | inStale
    · exact notPool member
    · exact notStale inStale
  exact ⟨recycled tail node s,
    recycleTainted_recycled head shape.tailEq notTail last fuel,
    shape.relinked bound notTail notOwned notStale last,
    keeps_recycled notOwned, rfl, rfl, rfl⟩

/-- Once a node of the loose end is tainted, the walk goes round in it: the
tail points back to where the walk came from. -/
theorem PoolShape.recycle_stale {node : Nat}
    (tailEq : s.memPoolTail = some tail)
    (staleNext : ∀ node ∈ stale, node ≠ tail →
      ∃ next ∈ stale, s.nextMem node = some next)
    (head : s.taintedMemPoolHead = some node) (member : node ∈ stale)
    (fuel : Nat) : recycleTainted fuel s = none := by
  induction fuel generalizing s node with
  | zero => simp [recycleTainted, head]
  | succ fuel inductionHypothesis =>
      rw [recycleTainted, head]
      have tailEq' : (s.setRndvBuffer node Memory.zero).memPoolTail =
          some tail := tailEq
      simp only [tailEq']
      have next : ∀ other,
          ((s.setRndvBuffer node Memory.zero).setNextMem tail
            (some node)).nextMem other =
            if other = tail then some node else s.nextMem other := by
        intro other
        simp
      obtain ⟨following, inStale, step⟩ :
          ∃ following ∈ stale,
            (if node = tail then some node else s.nextMem node) =
              some following := by
        by_cases isTail : node = tail
        · exact ⟨node, member, by rw [if_pos isTail]⟩
        · rw [if_neg isTail]
          exact staleNext node member isTail
      refine inductionHypothesis tailEq ?_ ?_ inStale
      · intro other inside different
        obtain ⟨successor, inside', step'⟩ :=
          staleNext other inside different
        refine ⟨successor, inside', ?_⟩
        rw [← step']
        exact (next other).trans (by rw [if_neg different])
      · exact (next node).trans step

/-! ### A fresh node -/

/-- What a round of the loop that fills the pool does, if the pool has a
tail. -/
structure Grows (tail : Nat) (server : IbvMr) (s s' : Server) : Prop where
  nodes : ∀ node, s'.nodes node =
    if node = s.mallocs then ⟨some server, Memory.zero, none⟩
    else if node = tail then
      { s.nodes node with nextMem := some s.mallocs }
    else s.nodes node
  entries : s'.entries = s.entries
  entriesCounter : s'.entriesCounter = s.entriesCounter
  closeServer : s'.closeServer = s.closeServer
  head : s'.memPoolHead = s.memPoolHead
  tailEq : s'.memPoolTail = some s.mallocs
  tainted : s'.taintedMemPoolHead = s.taintedMemPoolHead
  poolSize : s'.poolSize = s.poolSize + 1
  mallocs : s'.mallocs = s.mallocs + 1

private theorem growPool_grows {server : IbvMr} (nonempty : s.poolSize ≠ 0)
    (tailEq : s.memPoolTail = some tail)
    (answer : regMr s.mallocs = some server) :
    ∃ s', s.growPool regMr = some s' ∧ Grows tail server s s' := by
  let linked : Server :=
    { { s with mallocs := s.mallocs + 1 }.setNextMem tail (some s.mallocs) with
      memPoolTail := some s.mallocs }
  let s' : Server :=
    { linked.updateNode s.mallocs fun _ => ⟨some server, Memory.zero, none⟩ with
      poolSize := s.poolSize + 1 }
  refine ⟨s', ?_, fun _ => rfl, rfl, rfl, rfl, rfl, rfl, rfl, rfl, rfl⟩
  unfold growPool linkFresh
  simp only [nonempty, if_false, tailEq, Option.map_some,
    Option.bind_eq_bind, Option.bind_some, answer]
  rfl

section Grows

variable {server : IbvMr}

theorem Grows.owned (grows : Grows tail server s s') : s'.owned = s.owned := by
  unfold Server.owned
  rw [grows.entries]

theorem Grows.nextMem_fresh (grows : Grows tail server s s') :
    s'.nextMem s.mallocs = none := by
  rw [nextMem, grows.nodes, if_pos rfl]

theorem Grows.nextMem_old (grows : Grows tail server s s') {node : Nat}
    (old : node < s.mallocs) : s'.nextMem node =
      if node = tail then some s.mallocs else s.nextMem node := by
  rw [nextMem, grows.nodes, if_neg old.ne]
  split <;> rfl

theorem Grows.keeps (grows : Grows tail server s s')
    (bound : ∀ node ∈ s.owned, node < s.mallocs) : Keeps s s' := by
  refine ⟨grows.entries, grows.entriesCounter, grows.closeServer, ?_, ?_,
    grows.mallocs ▸ Nat.le_succ _⟩
  · intro node member
    rw [grows.nodes, if_neg (bound node member).ne]
    split <;> rfl
  · intro node old
    rw [grows.nodes, if_neg old.ne]
    split <;> rfl

/-- The nodes of the grown chain are allocated. -/
theorem PoolShape.lt_of_mem_linkBehind
    (shape : PoolShape regMr s pool tail stale) {node : Nat}
    (member : node ∈ linkBehind tail s.mallocs pool) :
    node < s.mallocs + 1 := by
  rcases mem_of_mem_linkBehind member with old | rfl
  · exact Nat.lt_succ_of_lt (shape.bound node (Or.inl old))
  · exact Nat.lt_succ_self _

theorem PoolShape.tail_lt (shape : PoolShape regMr s pool tail stale) :
    tail < s.mallocs := by
  rcases shape.place with ⟨member, _⟩ | inStale
  · exact shape.bound tail (Or.inl member)
  · exact shape.bound tail (Or.inr (Or.inr inStale))

theorem PoolShape.grow_chain (shape : PoolShape regMr s pool tail stale)
    (grows : Grows tail server s s') :
    Chain s'.nextMem s'.memPoolHead (linkBehind tail s.mallocs pool) := by
  rw [grows.head]
  refine shape.chain.linkBehind ?_ ?_ grows.nextMem_fresh
  · intro node member different
    rw [grows.nextMem_old (shape.bound node (Or.inl member)),
      if_neg different]
  · rw [grows.nextMem_old shape.tail_lt, if_pos rfl]

theorem PoolShape.grow_zeroed (shape : PoolShape regMr s pool tail stale)
    (grows : Grows tail server s s') :
    ∀ node ∈ linkBehind tail s.mallocs pool,
      (s'.nodes node).rndvBuffer = Memory.zero := by
  intro node member
  rw [grows.nodes]
  rcases mem_of_mem_linkBehind member with old | rfl
  · have zeroed := shape.zeroed node old
    rw [if_neg (shape.bound node (Or.inl old)).ne]
    split <;> exact zeroed
  · rw [if_pos rfl]

theorem PoolShape.grow_registered (shape : PoolShape regMr s pool tail stale)
    (grows : Grows tail server s s')
    (answer : regMr s.mallocs = some server) :
    ∀ node < s'.mallocs,
      (s'.nodes node).rndvMr = regMr node ∧ (regMr node).isSome := by
  intro node bound
  rw [grows.mallocs] at bound
  rw [grows.nodes]
  by_cases isFresh : node = s.mallocs
  · rw [if_pos isFresh, isFresh, answer]
    exact ⟨rfl, rfl⟩
  · have old := shape.registered node (by omega)
    rw [if_neg isFresh]
    split <;> exact old

/-- With the tail in the chain, the chain gets longer. -/
theorem PoolShape.grow_inside (shape : PoolShape regMr s pool tail stale)
    (grows : Grows tail server s s')
    (answer : regMr s.mallocs = some server) (inPool : tail ∈ pool) :
    PoolShape regMr s' (linkBehind tail s.mallocs pool) s.mallocs ∅ := by
  have noStale := shape.stale_eq_empty inPool
  refine ⟨shape.grow_chain grows, grows.tailEq,
    Or.inl ⟨node_mem_linkBehind inPool, rfl⟩, ?_, ?_, ?_, ?_, ?_,
    shape.grow_zeroed grows, shape.grow_registered grows answer⟩
  · intro node member
    rw [grows.owned] at member
    rw [grows.mallocs]
    rcases member with inside | inOwned | nowhere
    · exact shape.lt_of_mem_linkBehind inside
    · exact Nat.lt_succ_of_lt (shape.bound node (Or.inr (Or.inl inOwned)))
    · exact absurd nowhere (Set.notMem_empty node)
  · rw [grows.owned]
    exact shape.ownedNodup
  · intro node member
    rw [grows.owned]
    refine ⟨?_, Set.notMem_empty node⟩
    rcases mem_of_mem_linkBehind member with old | rfl
    · exact (shape.separate node old).1
    · exact fun inOwned =>
        lt_irrefl _ (shape.bound s.mallocs (Or.inr (Or.inl inOwned)))
  · intro node member
    exact absurd member (Set.notMem_empty node)
  · intro node member _
    rw [grows.owned] at member
    have different : node ≠ tail := fun same =>
      (shape.separate tail inPool).1 (same ▸ member)
    rw [grows.nextMem_old (shape.bound node (Or.inr (Or.inl member))),
      if_neg different]
    exact shape.ownedNext node member (by simp [noStale])

/-- With the tail outside, the loose end gets longer. -/
theorem PoolShape.grow_outside (shape : PoolShape regMr s pool tail stale)
    (grows : Grows tail server s s')
    (answer : regMr s.mallocs = some server) (outside : tail ∉ pool) :
    PoolShape regMr s' pool s.mallocs (insert s.mallocs stale) := by
  have tailStale : tail ∈ stale :=
    shape.place.resolve_left fun inPool => outside inPool.1
  have chain := shape.grow_chain grows
  have zeroed := shape.grow_zeroed grows
  rw [linkBehind_of_not_mem outside] at chain zeroed
  refine ⟨chain, grows.tailEq, Or.inr (Set.mem_insert _ _), ?_, ?_, ?_, ?_,
    ?_, zeroed, shape.grow_registered grows answer⟩
  · intro node member
    rw [grows.owned] at member
    rw [grows.mallocs]
    rcases member with inside | inOwned | rfl | old
    · exact Nat.lt_succ_of_lt (shape.bound node (Or.inl inside))
    · exact Nat.lt_succ_of_lt (shape.bound node (Or.inr (Or.inl inOwned)))
    · exact Nat.lt_succ_self _
    · exact Nat.lt_succ_of_lt (shape.bound node (Or.inr (Or.inr old)))
  · rw [grows.owned]
    exact shape.ownedNodup
  · intro node member
    rw [grows.owned]
    have old := shape.separate node member
    refine ⟨old.1, ?_⟩
    rintro (rfl | before)
    · exact lt_irrefl _ (shape.bound s.mallocs (Or.inl member))
    · exact old.2 before
  · rintro node (rfl | old) different
    · exact absurd rfl different
    · rw [grows.nextMem_old (shape.bound node (Or.inr (Or.inr old)))]
      by_cases isTail : node = tail
      · exact ⟨s.mallocs, Set.mem_insert _ _, if_pos isTail⟩
      · obtain ⟨following, inside, step⟩ := shape.staleNext node old isTail
        refine ⟨following, Set.mem_insert_of_mem _ inside, ?_⟩
        rw [if_neg isTail, step]
  · intro node member elsewhere
    rw [grows.owned] at member
    have notStale : node ∉ stale := fun inside =>
      elsewhere (Set.mem_insert_of_mem _ inside)
    have different : node ≠ tail := fun same => notStale (same ▸ tailStale)
    rw [grows.nextMem_old (shape.bound node (Or.inr (Or.inl member))),
      if_neg different]
    exact shape.ownedNext node member notStale

end Grows

/-- A fresh node is linked behind the tail and becomes the tail. -/
theorem PoolShape.grow
    (shape : PoolShape regMr s pool tail stale)
    (nonempty : s.poolSize ≠ 0) {server : IbvMr}
    (answer : regMr s.mallocs = some server) :
    ∃ s', s.growPool regMr = some s' ∧
      PoolShape regMr s' (linkBehind tail s.mallocs pool) s.mallocs
        (if tail ∈ pool then ∅ else insert s.mallocs stale) ∧
      Keeps s s' ∧ s'.taintedMemPoolHead = s.taintedMemPoolHead ∧
      s'.poolSize = s.poolSize + 1 ∧ s'.mallocs = s.mallocs + 1 := by
  obtain ⟨s', ran, grows⟩ := growPool_grows nonempty shape.tailEq answer
  refine ⟨s', ran, ?_, grows.keeps fun node member =>
    shape.bound node (Or.inr (Or.inl member)), grows.tainted, grows.poolSize,
    grows.mallocs⟩
  by_cases inPool : tail ∈ pool
  · rw [if_pos inPool]
    exact shape.grow_inside grows answer inPool
  · rw [if_neg inPool, linkBehind_of_not_mem inPool]
    exact shape.grow_outside grows answer inPool

end Server

end RdmaKv
