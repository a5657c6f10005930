import RdmaKv.Ex4.Sessions
import Mathlib.Data.List.Perm.Subperm

/-!
# The pool over whole sessions

How far the chain from `mem_pool_head`, the pointer `mem_pool_tail`, and the
counter `pool_size` agree, and whether every node is still somewhere, both
exactly: a recycled node is linked behind the tail, which stays where it is,
so one such node is kept as long as nothing else is linked.
-/

namespace RdmaKv

open ByteMemory LinkedChain Request

namespace Server

variable {regMr : Nat → Option IbvMr}
variable {s s' : Server} {pool : List Nat} {tail : Nat} {stale : Set Nat}

/-- `mem_pool_head`, `mem_pool_tail` and `pool_size` describe one chain of at
least `MIN_POOL_NODES` nodes. -/
def WellPooled (s : Server) : Prop :=
  ∃ pool, Chain s.nextMem s.memPoolHead pool ∧
    pool.getLast? = s.memPoolTail ∧ s.poolSize = pool.length ∧
    minPoolNodes ≤ pool.length

/-- The tail is in the chain, the counter is right, and every node is in the
chain or with an entry. -/
structure Stocked (regMr : Nat → Option IbvMr) (s : Server)
    (pool : List Nat) (tail : Nat) : Prop where
  shape : PoolShape regMr s pool tail ∅
  noTainted : s.taintedMemPoolHead = none
  poolSize : s.poolSize = pool.length
  conserved : ∀ node < s.mallocs, node ∈ pool ∨ node ∈ s.owned

/-- The pool at each stage of a session. -/
def AtStage (regMr : Nat → Option IbvMr) (s : Server) : Stage → Prop
  | .clean => ∃ front tail,
      Stocked regMr s (front ++ [tail]) tail ∧ front.length = 9
  | .spare => ∃ front tail last,
      Stocked regMr s (front ++ [tail, last]) tail ∧ front.length = 9
  | .spareTaken => ∃ front tail last,
      Stocked regMr s (front ++ [tail, last]) tail ∧ front.length = 8
  | .lost => ∃ pool tail stale, Settled regMr s pool tail stale ∧
      ∃ node < s.mallocs, node ∉ pool ∧ node ∉ s.owned ∧ node ∉ stale

theorem Stocked.settled (stocked : Stocked regMr s pool tail)
    (enough : minPoolNodes ≤ pool.length) :
    Settled regMr s pool tail ∅ := by
  refine ⟨stocked.shape, stocked.noTainted, ?_⟩
  rw [stocked.poolSize]
  exact_mod_cast enough

/-! ## Maintenance after each kind of request -/

private theorem fillPool_full (rounds : Nat)
    (full : (minPoolNodes : Int) ≤ s.poolSize) :
    fillPool regMr rounds s = some s := by
  cases rounds with
  | zero => rfl
  | succ rounds => rw [fillPool, if_neg (not_lt.mpr full)]

private theorem maintainPool_full (empty : s.taintedMemPoolHead = none)
    (full : (minPoolNodes : Int) ≤ s.poolSize) :
    maintainPool regMr s = some s := by
  rw [maintainPool, recycleTainted_none _ empty]
  exact fillPool_full _ full

private theorem maintainPool_short (empty : s.taintedMemPoolHead = none)
    (short : s.poolSize = 9) :
    maintainPool regMr s = s.growPool regMr := by
  have rounds : ((minPoolNodes : Int) - s.poolSize).toNat = 0 + 1 := by
    rw [short]
    rfl
  have less : s.poolSize < minPoolNodes := by
    rw [short]
    decide
  rw [maintainPool, recycleTainted_none _ empty]
  simp only [Option.bind_eq_bind, Option.bind_some, rounds]
  rw [fillPool, if_pos less]
  cases s.growPool regMr <;> rfl

/-- A buffer that an eager set gave back is linked behind the tail. -/
theorem Stocked.overwrite {node : Nat}
    (stocked : Stocked regMr s pool tail)
    (enough : minPoolNodes ≤ pool.length) (step : Taints node s s') :
    ∃ s'', maintainPool regMr s' = some s'' ∧
      PoolShape regMr s'' (linkBehind tail node pool) tail ∅ ∧
      s''.taintedMemPoolHead = none ∧
      s''.poolSize = pool.length + 1 ∧ s''.mallocs = s.mallocs ∧
      s.owned.Perm (node :: s''.owned) ∧ Keeps s' s'' := by
  have handled := (stocked.settled enough).taints step
  obtain ⟨bound, notPool, notOwned, last⟩ :=
    handled.tainted node step.tainted
  obtain ⟨s'', computed, shape, keeps, empty, size, mallocs⟩ :=
    handled.shape.recycle step.tainted bound notPool notOwned
      (Set.notMem_empty node) (last (Set.notMem_empty node)) s'.mallocs
  have newSize : s''.poolSize = pool.length + 1 := by
    rw [size, step.poolSize, stocked.poolSize]
  have full : (minPoolNodes : Int) ≤ s''.poolSize := by
    rw [newSize]
    exact_mod_cast Nat.le_succ_of_le enough
  refine ⟨s'', ?_, shape, empty, newSize, mallocs.trans step.mallocs, ?_,
    keeps⟩
  · rw [maintainPool, computed]
    exact fillPool_full _ full
  · rw [keeps.owned]
    exact step.owned

/-- A taken buffer leaves the rest of the chain as it was. -/
theorem Stocked.take {node : Nat} {rest : List Nat}
    (stocked : Stocked regMr s (node :: rest) tail)
    (different : node ≠ tail) (step : Takes node s s') :
    Stocked regMr s' rest tail := by
  have shape := stocked.shape.take_other step different
  refine ⟨shape, step.tainted.trans stocked.noTainted, ?_, ?_⟩
  · rw [step.poolSize, stocked.poolSize, List.length_cons]
    push_cast
    omega
  · intro other bound
    rw [step.mallocs] at bound
    rcases stocked.conserved other bound with inPool | inOwned
    · rcases List.mem_cons.mp inPool with rfl | later
      · exact Or.inr (step.owned.mem_iff.mpr (List.mem_cons_self ..))
      · exact Or.inl later
    · exact Or.inr (step.owned.mem_iff.mpr (List.mem_cons_of_mem node inOwned))

/-- Taking from a chain with a node before the tail. -/
theorem Stocked.takeFront {node : Nat} {front behind : List Nat}
    (stocked : Stocked regMr s (front ++ tail :: behind) tail)
    (nonempty : 0 < front.length) (step : Takes node s s') :
    ∃ others, front = node :: others ∧
      Stocked regMr s' (others ++ tail :: behind) tail := by
  obtain ⟨rest, split⟩ := stocked.shape.front step.front
  cases front with
  | nil => simp at nonempty
  | cons head others =>
      obtain rfl : head = node := (List.cons.inj split).1
      have different : head ≠ tail := by
        rintro rfl
        have nodup := stocked.shape.chain.nodup
        simp at nodup
      exact ⟨others, rfl, stocked.take different step⟩

theorem Stocked.unmoved (stocked : Stocked regMr s pool tail)
    (step : Unmoved s s') : Stocked regMr s' pool tail where
  shape := stocked.shape.of_subset step.nodes step.mallocs step.head step.tail
    (by rw [step.owned]; exact List.Subset.refl _)
    (by rw [step.owned]; exact stocked.shape.ownedNodup)
  noTainted := step.tainted.trans stocked.noTainted
  poolSize := step.poolSize.trans stocked.poolSize
  conserved := by
    rw [step.mallocs, step.owned]
    exact stocked.conserved

/-- A chain of nine nodes gets a fresh one behind its tail. -/
theorem Stocked.refill (stocked : Stocked regMr s pool tail)
    (nine : pool.length = 9) (inPool : tail ∈ pool) {server : IbvMr}
    (answer : regMr s.mallocs = some server) :
    ∃ s', maintainPool regMr s = some s' ∧
      PoolShape regMr s' (linkBehind tail s.mallocs pool) s.mallocs ∅ ∧
      s'.taintedMemPoolHead = none ∧ s'.poolSize = 10 ∧
      s'.mallocs = s.mallocs + 1 ∧ Keeps s s' := by
  have short : s.poolSize = 9 := by
    rw [stocked.poolSize, nine]
    rfl
  obtain ⟨s', computed, shape, keeps, tainted, size, mallocs⟩ :=
    stocked.shape.grow (by rw [short]; decide) answer
  rw [if_pos inPool] at shape
  refine ⟨s', ?_, shape, tainted.trans stocked.noTainted, ?_, mallocs, keeps⟩
  · rw [maintainPool_short stocked.noTainted short, computed]
  · rw [size, short]
    rfl

/-- While the tail is the last node, a fresh node extends the chain. -/
theorem Stocked.grow {front : List Nat}
    (stocked : Stocked regMr s (front ++ [tail]) tail)
    (grown : s.growPool regMr = some s') :
    Stocked regMr s' (front ++ [tail] ++ [s.mallocs]) s.mallocs ∧
      Keeps s s' := by
  obtain ⟨server, answer⟩ := growPool_registers grown
  have nonempty : s.poolSize ≠ 0 := by
    rw [stocked.poolSize]
    simp
    omega
  obtain ⟨u, computed, shape, keeps, tainted, size, mallocs⟩ :=
    stocked.shape.grow nonempty answer
  rw [computed] at grown
  obtain rfl := Option.some.inj grown
  rw [linkBehind_of_nodup stocked.shape.chain.nodup,
    if_pos (by simp)] at shape
  refine ⟨⟨?_, tainted.trans stocked.noTainted, ?_, ?_⟩, keeps⟩
  · rw [List.append_assoc]
    exact shape
  · rw [size, stocked.poolSize]
    simp
    omega
  · intro other bound
    rw [mallocs] at bound
    rw [keeps.owned]
    rcases Nat.lt_succ_iff_lt_or_eq.mp bound with old | rfl
    · rcases stocked.conserved other old with inPool | inOwned
      · exact Or.inl (List.mem_append_left _ inPool)
      · exact Or.inr inOwned
    · exact Or.inl (by simp)

/-! ## The stages -/

theorem AtStage.settled {stage : Stage} (staged : AtStage regMr s stage) :
    ∃ pool tail stale, Settled regMr s pool tail stale := by
  cases stage with
  | clean =>
      obtain ⟨front, tail, stocked, nine⟩ := staged
      exact ⟨_, _, _, stocked.settled (by simp [minPoolNodes, nine])⟩
  | spare =>
      obtain ⟨front, tail, last, stocked, nine⟩ := staged
      exact ⟨_, _, _, stocked.settled (by simp [minPoolNodes, nine])⟩
  | spareTaken =>
      obtain ⟨front, tail, last, stocked, eight⟩ := staged
      exact ⟨_, _, _, stocked.settled (by simp [minPoolNodes, eight])⟩
  | lost =>
      obtain ⟨pool, tail, stale, settled, _⟩ := staged
      exact ⟨pool, tail, stale, settled⟩

/-- Before a node was dropped the pool is not empty. -/
theorem AtStage.pool_ne_nil {stage : Stage} (staged : AtStage regMr s stage)
    (settled : Settled regMr s pool tail stale)
    (kept : stage.next .take ≠ .lost) : pool ≠ [] := by
  cases stage with
  | clean =>
      obtain ⟨front, last, stocked, _⟩ := staged
      rw [settled.shape.chain.unique stocked.shape.chain]
      simp
  | spare =>
      obtain ⟨front, middle, last, stocked, _⟩ := staged
      rw [settled.shape.chain.unique stocked.shape.chain]
      simp
  | spareTaken => exact absurd rfl kept
  | lost => exact absurd rfl kept

/-- A request that moves no buffer keeps the stage, and there is nothing to
maintain. -/
theorem AtStage.unmoved {stage : Stage} (staged : AtStage regMr s stage)
    (step : Unmoved s s') :
    maintainPool regMr s' = some s' ∧ AtStage regMr s' stage := by
  obtain ⟨pool, tail, stale, settled⟩ := staged.settled
  constructor
  · refine maintainPool_full (step.tainted.trans settled.noTainted) ?_
    rw [step.poolSize]
    exact settled.enough
  · cases stage with
    | clean =>
        obtain ⟨front, tail, stocked, nine⟩ := staged
        exact ⟨front, tail, stocked.unmoved step, nine⟩
    | spare =>
        obtain ⟨front, tail, last, stocked, nine⟩ := staged
        exact ⟨front, tail, last, stocked.unmoved step, nine⟩
    | spareTaken =>
        obtain ⟨front, tail, last, stocked, eight⟩ := staged
        exact ⟨front, tail, last, stocked.unmoved step, eight⟩
    | lost =>
        obtain ⟨pool, tail, stale, settled, node, bound, notPool, notOwned,
          notStale⟩ := staged
        have handled := settled.unmoved step
        refine ⟨pool, tail, stale, ⟨handled.shape, ?_, ?_⟩, node, ?_,
          notPool, ?_, notStale⟩
        · exact step.tainted.trans settled.noTainted
        · rw [step.poolSize]
          exact settled.enough
        · rw [step.mallocs]
          exact bound
        · rw [step.owned]
          exact notOwned

/-- A node that is nowhere stays nowhere. -/
theorem Handled.lost {node : Nat}
    (handled : Handled regMr s pool tail stale) (bound : node < s.mallocs)
    (notPool : node ∉ pool) (notOwned : node ∉ s.owned)
    (notStale : node ∉ stale)
    (notTainted : s.taintedMemPoolHead ≠ some node)
    (ran : maintainPool regMr s = some s') : AtStage regMr s' .lost := by
  obtain ⟨⟨pool', tail', stale', settled, inside⟩, keeps⟩ :=
    handled.maintain ran
  have outside : ¬ (node ∈ pool' ∨ node ∈ stale') := by
    intro member
    rcases inside node bound member with inPool | inStale | tainted
    · exact notPool inPool
    · exact notStale inStale
    · exact notTainted tainted
  refine ⟨pool', tail', stale', settled, node,
    Nat.lt_of_lt_of_le bound keeps.mallocs, fun inPool => outside (Or.inl inPool),
    ?_, fun inStale => outside (Or.inr inStale)⟩
  rw [keeps.owned]
  exact notOwned

/-- The node that was behind the tail is no longer in the chain. -/
private theorem not_mem_relinked {front : List Nat} {last node : Nat}
    (nodup : (front ++ [tail, last]).Nodup) (different : last ≠ node) :
    last ∉ front ++ [tail, node] := by
  have reordered : (front ++ [tail] ++ [last]).Nodup := by simpa using nodup
  have apart : last ∉ front ++ [tail] := fun member =>
    (List.nodup_append.mp reordered).2.2 last member last
      (List.mem_singleton_self last) rfl
  simp only [List.mem_append, List.mem_cons, List.not_mem_nil,
    or_false] at apart ⊢
  tauto

/-- An overwrite drops the nodes behind the tail, if there are any. -/
theorem Stocked.overwrite_lost {front : List Nat} {last node : Nat}
    (stocked : Stocked regMr s (front ++ [tail, last]) tail)
    (enough : minPoolNodes ≤ (front ++ [tail, last]).length)
    (step : Taints node s s') :
    ∃ s'', maintainPool regMr s' = some s'' ∧ AtStage regMr s'' .lost := by
  obtain ⟨s'', computed, shape, empty, size, mallocs, owned, _⟩ :=
    stocked.overwrite enough step
  have nodup := stocked.shape.chain.nodup
  rw [linkBehind_of_nodup nodup] at shape
  have lastInPool : last ∈ front ++ [tail, last] := by simp
  have nodeOwned : node ∈ s.owned := owned.mem_iff.mpr (List.mem_cons_self ..)
  have lastNotOwned := (stocked.shape.separate last lastInPool).1
  refine ⟨s'', computed, _, _, _, ⟨shape, empty, ?_⟩, last, ?_, ?_, ?_,
    Set.notMem_empty last⟩
  · rw [size]
    exact_mod_cast Nat.le_succ_of_le enough
  · rw [mallocs]
    exact stocked.shape.bound last (Or.inl lastInPool)
  · exact not_mem_relinked nodup fun same => lastNotOwned (same ▸ nodeOwned)
  · exact fun member =>
      lastNotOwned (owned.mem_iff.mpr (List.mem_cons_of_mem node member))

theorem AtStage.overwrite {stage : Stage} {node : Nat}
    (staged : AtStage regMr s stage) (step : Taints node s s') :
    (stage.next .overwrite ≠ .lost → (maintainPool regMr s').isSome) ∧
      ∀ s'', maintainPool regMr s' = some s'' →
        AtStage regMr s'' (stage.next .overwrite) := by
  cases stage with
  | clean =>
      obtain ⟨front, tail, stocked, nine⟩ := staged
      obtain ⟨s'', computed, shape, empty, size, mallocs, owned, _⟩ :=
        stocked.overwrite (by simp [minPoolNodes, nine]) step
      rw [linkBehind_of_nodup stocked.shape.chain.nodup] at shape
      rw [computed]
      refine ⟨fun _ => rfl, fun t same => ?_⟩
      obtain rfl := Option.some.inj same
      refine ⟨front, tail, node, ⟨shape, empty, ?_, ?_⟩, nine⟩
      · rw [size]
        simp
        omega
      · intro other bound
        rw [mallocs] at bound
        rcases stocked.conserved other bound with inPool | inOwned
        · left
          simp only [List.mem_append, List.mem_cons, List.not_mem_nil,
            or_false] at inPool ⊢
          tauto
        · rcases List.mem_cons.mp (owned.mem_iff.mp inOwned) with rfl | old
          · exact Or.inl (by simp)
          · exact Or.inr old
  | spare =>
      obtain ⟨front, tail, last, stocked, nine⟩ := staged
      obtain ⟨s'', computed, lost⟩ :=
        stocked.overwrite_lost (by simp [minPoolNodes, nine]) step
      rw [computed]
      exact ⟨fun _ => rfl, fun t same => Option.some.inj same ▸ lost⟩
  | spareTaken =>
      obtain ⟨front, tail, last, stocked, eight⟩ := staged
      obtain ⟨s'', computed, lost⟩ :=
        stocked.overwrite_lost (by simp [minPoolNodes, eight]) step
      rw [computed]
      exact ⟨fun _ => rfl, fun t same => Option.some.inj same ▸ lost⟩
  | lost =>
      obtain ⟨pool, tail, stale, settled, lost, bound, notPool, notOwned,
        notStale⟩ := staged
      refine ⟨fun other => absurd rfl other, fun s'' ran => ?_⟩
      have wasOwned : node ∈ s.owned :=
        step.owned.mem_iff.mpr (List.mem_cons_self ..)
      refine (settled.taints step).lost ?_ notPool ?_ notStale ?_ ran
      · rw [step.mallocs]
        exact bound
      · exact fun member => notOwned
          (step.owned.mem_iff.mpr (List.mem_cons_of_mem node member))
      · rw [step.tainted]
        intro same
        exact notOwned (Option.some.inj same ▸ wasOwned)

theorem AtStage.take {stage : Stage} {node : Nat}
    (registers : ∀ node, (regMr node).isSome)
    (staged : AtStage regMr s stage) (step : Takes node s s') :
    (stage.next .take ≠ .lost → (maintainPool regMr s').isSome) ∧
      ∀ s'', maintainPool regMr s' = some s'' →
        AtStage regMr s'' (stage.next .take) := by
  obtain ⟨server, answer⟩ := Option.isSome_iff_exists.mp (registers s'.mallocs)
  cases stage with
  | clean =>
      obtain ⟨front, tail, stocked, nine⟩ := staged
      obtain ⟨others, rfl, after⟩ := stocked.takeFront (by omega) step
      simp only [List.length_cons] at nine
      have short : s'.poolSize = 9 := by
        rw [after.poolSize]
        simp
        omega
      rw [maintainPool_short after.noTainted short]
      constructor
      · intro _
        obtain ⟨t, computed, _⟩ :=
          after.shape.grow (by rw [short]; decide) answer
        rw [computed]
        rfl
      · intro t grown
        exact ⟨_, _, (after.grow grown).1, by simp; omega⟩
  | spare =>
      obtain ⟨front, tail, last, stocked, nine⟩ := staged
      obtain ⟨others, rfl, after⟩ := stocked.takeFront (by omega) step
      simp only [List.length_cons] at nine
      have full : (minPoolNodes : Int) ≤ s'.poolSize := by
        rw [after.poolSize]
        simp [minPoolNodes]
        omega
      rw [maintainPool_full after.noTainted full]
      refine ⟨fun _ => rfl, fun t same => ?_⟩
      obtain rfl := Option.some.inj same
      exact ⟨others, tail, last, after, by omega⟩
  | spareTaken =>
      obtain ⟨front, tail, last, stocked, eight⟩ := staged
      obtain ⟨others, rfl, after⟩ := stocked.takeFront (by omega) step
      simp only [List.length_cons] at eight
      refine ⟨fun other => absurd rfl other, fun t ran => ?_⟩
      obtain ⟨s'', computed, shape, empty, size, mallocs, keeps⟩ :=
        after.refill (by simp; omega) (by simp) answer
      rw [computed] at ran
      obtain rfl := Option.some.inj ran
      have nodup := after.shape.chain.nodup
      have lastInPool : last ∈ others ++ [tail, last] := by simp
      have bound := after.shape.bound last (Or.inl lastInPool)
      rw [linkBehind_of_nodup nodup] at shape
      refine ⟨_, _, _, ⟨shape, empty, ?_⟩, last, ?_, ?_, ?_,
        Set.notMem_empty last⟩
      · rw [size]
        decide
      · omega
      · exact not_mem_relinked nodup (Nat.ne_of_lt bound)
      · rw [keeps.owned]
        exact (after.shape.separate last lastInPool).1
  | lost =>
      obtain ⟨pool, tail, stale, settled, lost, bound, notPool, notOwned,
        notStale⟩ := staged
      refine ⟨fun other => absurd rfl other, fun t ran => ?_⟩
      obtain ⟨rest, rfl⟩ := settled.shape.front step.front
      have different : lost ≠ node := List.ne_of_not_mem_cons notPool
      refine (settled.takes step).lost ?_
        (List.not_mem_of_not_mem_cons notPool) ?_ ?_ ?_ ran
      · rw [step.mallocs]
        exact bound
      · intro member
        rcases List.mem_cons.mp (step.owned.mem_iff.mp member) with same | old
        · exact different same
        · exact notOwned old
      · split
        · exact different
        · exact notStale
      · rw [step.tainted, settled.noTainted]
        simp

/-! ## Requests -/

/-- Whether and how a request moves a buffer, by the requests before it. -/
theorem handle_movement (wellFormed : s.WellFormed)
    (settled : Settled regMr s pool tail stale) {past : List Request}
    (records : Records past s) (request : Request) :
    match request.movement past with
    | none => ∃ s' reply,
        s.handleServerPacketsOnly request.packet = some (s', reply) ∧
          Unmoved s s'
    | some .overwrite => ∃ s' reply node,
        s.handleServerPacketsOnly request.packet = some (s', reply) ∧
          Taints node s s'
    | some .take =>
        (∃ s' reply node,
          s.handleServerPacketsOnly request.packet = some (s', reply) ∧
            Takes node s s') ∨
        (pool = [] ∧ s.handleServerPacketsOnly request.packet = none) := by
  have sound : Sound regMr s := ⟨wellFormed, pool, tail, stale, settled⟩
  cases request with
  | eagerGet key =>
      obtain ⟨reply, answer⟩ := sound.eagerGet_isSome key
      exact ⟨s, some reply, by
        simp [handleServerPacketsOnly, Request.packet, answer],
        Unmoved.refl s⟩
  | eagerSet key value =>
      by_cases inside : inBuffer key past = true
      · simp only [movement, if_pos inside]
        obtain ⟨valueLength, node, holds⟩ := (records.inBuffer_iff key).mp inside
        obtain ⟨s', computed, _, step, _⟩ :=
          eagerSet_buffer wellFormed settled.noTainted holds value
        exact ⟨s', none, node, by
          simp [handleServerPacketsOnly, Request.packet, computed], step⟩
      · simp only [movement, if_neg inside]
        have holds : ∀ valueLength node,
            s.held key ≠ some (.buffer valueLength node) :=
          fun valueLength node present => inside
            ((records.inBuffer_iff key).mpr ⟨valueLength, node, present⟩)
        obtain ⟨s', computed, _, step, _⟩ :=
          eagerSet_inline wellFormed holds value
        exact ⟨s', none, by
          simp [handleServerPacketsOnly, Request.packet, computed], step⟩
  | rendezvousSet valueLength key =>
      by_cases inside : inBuffer key past = true
      · simp only [movement, if_pos inside]
        obtain ⟨old, node, holds⟩ := (records.inBuffer_iff key).mp inside
        obtain ⟨s', computed, _, step, _⟩ :=
          rendezvousSet_buffer wellFormed holds valueLength
        obtain ⟨server, _, registered⟩ :=
          sound.registered (held_buffer_mem_owned wellFormed holds)
        rw [registered] at computed
        exact ⟨s', _, by
          simp only [handleServerPacketsOnly, Request.packet, computed]
          rfl, step⟩
      · simp only [movement, if_neg inside]
        have holds : ∀ old node, s.held key ≠ some (.buffer old node) :=
          fun old node present => inside
            ((records.inBuffer_iff key).mpr ⟨old, node, present⟩)
        cases front : s.memPoolHead with
        | none =>
            right
            refine ⟨settled.shape.chain.unique front, ?_⟩
            have computed :=
              rendezvousSet_empty wellFormed holds front valueLength
            simp [handleServerPacketsOnly, Request.packet, computed]
        | some node =>
            left
            obtain ⟨rest, rfl⟩ := settled.shape.front front
            obtain ⟨server, _, inside⟩ := settled.shape.exists_server
              (settled.shape.bound node (Or.inl (List.mem_cons_self ..)))
            obtain ⟨s', computed, _, step, _⟩ :=
              rendezvousSet_inline wellFormed holds front valueLength
            rw [inside] at computed
            exact ⟨s', _, node, by
              simp only [handleServerPacketsOnly, Request.packet, computed]
              rfl, step⟩

private theorem serve_eq {request : Packet} {reply : Option (Packet × Nat)}
    (handled : s.handleServerPacketsOnly request = some (s', reply)) :
    s.serve regMr request =
      (maintainPool regMr s').map fun s'' => (s'', reply) := by
  unfold serve
  rw [handled]
  cases h : maintainPool regMr s' <;> simp [h]

/-- A round takes the pool from one stage to the next, and ends unless a node
was dropped. -/
theorem AtStage.serve {stage : Stage}
    (registers : ∀ node, (regMr node).isSome)
    (staged : AtStage regMr s stage) (wellFormed : s.WellFormed)
    {past : List Request} (records : Records past s) (request : Request) :
    ((request.movement past).toList.foldl Stage.next stage ≠ .lost →
        (s.serve regMr request.packet).isSome) ∧
      ∀ s'' reply, s.serve regMr request.packet = some (s'', reply) →
        AtStage regMr s''
          ((request.movement past).toList.foldl Stage.next stage) := by
  obtain ⟨pool, tail, stale, settled⟩ := staged.settled
  have moved := handle_movement wellFormed settled records request
  cases movement : request.movement past with
  | none =>
      rw [movement] at moved
      obtain ⟨s', reply, handled, step⟩ := moved
      obtain ⟨computed, after⟩ := staged.unmoved step
      rw [serve_eq handled, computed]
      refine ⟨fun _ => rfl, fun s'' reply' same => ?_⟩
      obtain ⟨rfl, _⟩ := Prod.mk.inj (Option.some.inj same)
      exact after
  | some move =>
      rw [movement] at moved
      have finish : ∀ s' reply,
          s.handleServerPacketsOnly request.packet = some (s', reply) →
          (stage.next move ≠ .lost → (maintainPool regMr s').isSome) ∧
            (∀ s'', maintainPool regMr s' = some s'' →
              AtStage regMr s'' (stage.next move)) →
          (stage.next move ≠ .lost →
              (s.serve regMr request.packet).isSome) ∧
            ∀ s'' reply, s.serve regMr request.packet = some (s'', reply) →
              AtStage regMr s'' (stage.next move) := by
        intro s' reply handled ⟨completes, after⟩
        rw [serve_eq handled]
        refine ⟨fun other => by simpa using completes other, ?_⟩
        intro s'' reply' ran
        obtain ⟨t, maintained, pair⟩ := Option.map_eq_some_iff.mp ran
        obtain ⟨rfl, _⟩ := Prod.mk.inj pair
        exact after t maintained
      cases move with
      | overwrite =>
          obtain ⟨s', reply, node, handled, step⟩ := moved
          exact finish s' reply handled (staged.overwrite step)
      | take =>
          rcases moved with ⟨s', reply, node, handled, step⟩ | ⟨empty, stuck⟩
          · exact finish s' reply handled (staged.take registers step)
          · have stuck' : s.serve regMr request.packet = none := by
              simp [Server.serve, stuck]
            rw [stuck']
            refine ⟨fun other => ?_, fun s'' reply ran => absurd ran (by simp)⟩
            exact absurd empty (staged.pool_ne_nil settled other)

/-! ## Sessions -/

private theorem serveAll_stage (registers : ∀ node, (regMr node).isSome)
    {stage : Stage} (staged : AtStage regMr s stage) (sound : Sound regMr s)
    {past : List Request} (records : Records past s)
    (requests : List Request) :
    ((movementsFrom past requests).foldl Stage.next stage ≠ .lost →
        (serveAll regMr s requests).isSome) ∧
      ∀ s' replies, serveAll regMr s requests = some (s', replies) →
        AtStage regMr s'
          ((movementsFrom past requests).foldl Stage.next stage) := by
  induction requests generalizing s past stage with
  | nil =>
      refine ⟨fun _ => rfl, fun s' replies ran => ?_⟩
      obtain ⟨rfl, _⟩ := Prod.mk.inj (Option.some.inj ran)
      exact staged
  | cons request requests inductionHypothesis =>
      obtain ⟨completes, after⟩ :=
        staged.serve registers sound.1 records request
      rw [movementsFrom, List.foldl_append]
      constructor
      · intro kept
        have keptBefore :
            (request.movement past).toList.foldl Stage.next stage ≠ .lost := by
          intro same
          rw [same, Stage.foldl_lost] at kept
          exact kept rfl
        obtain ⟨⟨t, reply⟩, served⟩ :=
          Option.isSome_iff_exists.mp (completes keptBefore)
        obtain ⟨sound', outcome⟩ := serve_spec sound served
        obtain ⟨⟨u, rest⟩, later⟩ := Option.isSome_iff_exists.mp
          ((inductionHypothesis (after t reply served) sound'
            (outcome.records records)).1 kept)
        rw [serveAll_cons_eq_some_iff.mpr
          ⟨t, reply, rest, served, later, rfl⟩]
        rfl
      · intro s' replies ran
        obtain ⟨t, reply, rest, served, later, _⟩ :=
          serveAll_cons_eq_some_iff.mp ran
        obtain ⟨sound', outcome⟩ := serve_spec sound served
        exact (inductionHypothesis (after t reply served) sound'
          (outcome.records records)).2 s' rest later

/-- The first maintenance ends with a clean pool. -/
private theorem start_clean (registers : ∀ node, (regMr node).isSome) :
    ∃ s, start regMr = some s ∧ AtStage regMr s .clean := by
  obtain ⟨server, answer⟩ := Option.isSome_iff_exists.mp (registers 0)
  have first : (init.growPool regMr).isSome := by
    simp [growPool, linkFresh, init, answer]
  obtain ⟨t, grown⟩ := Option.isSome_iff_exists.mp first
  obtain ⟨shape, keeps, empty, size, mallocs⟩ := growPool_init grown
  have filled : (fillPool regMr 9 t).isSome :=
    fillPool_isSome registers 9 (fun _ => by rw [shape.tailEq]; rfl)
      (by rw [size]; decide)
  obtain ⟨s, fills⟩ := Option.isSome_iff_exists.mp filled
  have begun : ∃ front tail, Stocked regMr t (front ++ [tail]) tail ∧
      front.length ≤ 9 := by
    refine ⟨[], 0, ⟨shape, empty, size, ?_⟩, Nat.zero_le 9⟩
    intro node bound
    rw [mallocs] at bound
    exact Or.inl (by simpa using bound)
  have round : ∀ u u' : Server,
      (∃ front tail, Stocked regMr u (front ++ [tail]) tail ∧
        front.length ≤ 9) →
      u.poolSize < minPoolNodes → u.growPool regMr = some u' →
      ∃ front tail, Stocked regMr u' (front ++ [tail]) tail ∧
        front.length ≤ 9 := by
    rintro u u' ⟨front, tail, stocked, _⟩ short grown
    refine ⟨front ++ [tail], u.mallocs, (stocked.grow grown).1, ?_⟩
    rw [stocked.poolSize] at short
    simp only [List.length_append, List.length_singleton,
      minPoolNodes] at short ⊢
    omega
  obtain ⟨⟨front, tail, stocked, short⟩, full⟩ :=
    fillPool_rule round begun fills
  refine ⟨s, ?_, front, tail, stocked, ?_⟩
  · rw [start_eq, grown]
    exact fills
  · have enough := full (by rw [size]; decide)
    rw [stocked.poolSize] at enough
    simp only [List.length_append, List.length_singleton,
      minPoolNodes] at enough
    omega

/-- The stage of a session follows from the movements of its requests. -/
private theorem session_stage (registers : ∀ node, (regMr node).isSome)
    (requests : List Request) :
    (Stage.after (movements requests) ≠ .lost →
        (session regMr requests).isSome) ∧
      ∀ s replies, session regMr requests = some (s, replies) →
        AtStage regMr s (Stage.after (movements requests)) := by
  obtain ⟨s, started, clean⟩ := start_clean registers
  have run := serveAll_stage registers clean (start_sound started)
    (start_records started) requests
  rw [session, started]
  exact run

theorem AtStage.wellPooled (staged : AtStage regMr s .clean) :
    s.WellPooled := by
  obtain ⟨front, tail, stocked, nine⟩ := staged
  refine ⟨front ++ [tail], stocked.shape.chain, ?_, stocked.poolSize, ?_⟩
  · rw [stocked.shape.tailEq]
    simp
  · simp [minPoolNodes, nine]

theorem AtStage.not_wellPooled (staged : AtStage regMr s .spare) :
    ¬ s.WellPooled := by
  rintro ⟨pool, chain, isLast, _⟩
  obtain ⟨front, tail, last, stocked, _⟩ := staged
  have nodup := stocked.shape.chain.nodup
  have ends : pool.getLast? = some last := by
    rw [chain.unique stocked.shape.chain]
    simp
  rw [ends, stocked.shape.tailEq] at isLast
  rw [Option.some.inj isLast] at nodup
  have twice := (List.nodup_append.mp nodup).2.1
  simp at twice

/-- In all of a session the pool is what its pointers and its counter say if
and only if no eager set overwrites a rendezvous value. -/
theorem session_wellPooled_iff (registers : ∀ node, (regMr node).isSome)
    (requests : List Request) :
    (∀ before after, requests = before ++ after →
      ∃ s replies, session regMr before = some (s, replies) ∧
        s.WellPooled ∧ s.memPoolHead ≠ none) ↔
      Movement.overwrite ∉ movements requests := by
  constructor
  · intro holds overwrites
    obtain ⟨before, after, split, spare⟩ := exists_spare overwrites
    obtain ⟨s, replies, ran, wellPooled, _⟩ := holds before after split
    have staged := (session_stage registers before).2 s replies ran
    rw [spare] at staged
    exact staged.not_wellPooled wellPooled
  · rintro noOverwrite before after rfl
    have earlier : Movement.overwrite ∉ movements before := by
      rw [movements, movementsFrom_append] at noOverwrite
      exact fun member => noOverwrite (List.mem_append_left _ member)
    have clean := Stage.after_eq_clean _ earlier
    obtain ⟨completes, stage⟩ := session_stage registers before
    rw [clean] at completes stage
    obtain ⟨⟨s, replies⟩, ran⟩ :=
      Option.isSome_iff_exists.mp (completes (by decide))
    have wellPooled := (stage s replies ran).wellPooled
    refine ⟨s, replies, ran, wellPooled, ?_⟩
    obtain ⟨pool, chain, _, _, enough⟩ := wellPooled
    exact chain.start_ne_none fun empty => by
      simp [empty, minPoolNodes] at enough

open Sample

theorem session_wellPooled_taking :
    ∃ s replies, session Sample.regMr taking = some (s, replies) ∧ s.WellPooled ∧
      s.memPoolHead ≠ none :=
  (session_wellPooled_iff registers_all taking).mpr
    (by decide) taking [] rfl

/-- Ten buffers are given back, and then every node of the chain is taken. -/
def draining : List Request :=
  (List.replicate 10 overwriting).flatten ++ taking

/-- After the first overwrite the tail is not the last node, and in the end a
rendezvous set finds no buffer. -/
theorem session_wellPooled_fails :
    (∃ s replies, session Sample.regMr overwriting = some (s, replies) ∧
      ¬ s.WellPooled) ∧
    ∃ s replies, session Sample.regMr draining = some (s, replies) ∧
      s.memPoolHead = none := by
  constructor
  · obtain ⟨completes, stage⟩ :=
      session_stage registers_all overwriting
    obtain ⟨⟨s, replies⟩, ran⟩ :=
      Option.isSome_iff_exists.mp (completes (by decide))
    exact ⟨s, replies, ran, (stage s replies ran).not_wellPooled⟩
  · have empties : ((session Sample.regMr draining).any fun result =>
        result.1.memPoolHead.isNone) = true := by
      decide +kernel
    obtain ⟨⟨s, replies⟩, ran, isNone⟩ := (Option.any_eq_true ..).mp empties
    exact ⟨s, replies, ran, Option.isNone_iff_eq_none.mp isNone⟩

/-! ## Teardown -/

private theorem deregisterChain_chain {start : Option Nat} {nodes : List Nat}
    (chain : Chain s.nextMem start nodes)
    (registered : ∀ node ∈ nodes, (s.nodes node).rndvMr.isSome)
    {fuel : Nat} (enough : nodes.length ≤ fuel) :
    s.deregisterChain fuel start = some nodes := by
  induction nodes generalizing start fuel with
  | nil =>
      have empty : start = none := chain
      subst empty
      cases fuel <;> rfl
  | cons node rest inductionHypothesis =>
      obtain ⟨rfl, later⟩ := chain
      obtain ⟨server, answer⟩ := Option.isSome_iff_exists.mp
        (registered node (List.mem_cons_self ..))
      cases fuel with
      | zero => simp at enough
      | succ fuel =>
          have others := inductionHypothesis later
            (fun other member =>
              registered other (List.mem_cons_of_mem node member))
            (by simpa using enough)
          simp [deregisterChain, answer, others]

private theorem deregisterEntries_eq {entries : List KvEntry}
    (registered : ∀ node ∈ entries.filterMap KvEntry.largeValMemInfo,
      (s.nodes node).rndvMr.isSome) :
    s.deregisterEntries entries =
      some (entries.filterMap KvEntry.largeValMemInfo) := by
  induction entries with
  | nil => rfl
  | cons entry rest inductionHypothesis =>
      cases buffer : entry.largeValMemInfo with
      | none =>
          simp only [List.filterMap_cons, buffer] at registered ⊢
          simp [deregisterEntries, buffer, inductionHypothesis registered]
      | some node =>
          simp only [List.filterMap_cons, buffer] at registered ⊢
          obtain ⟨server, answer⟩ := Option.isSome_iff_exists.mp
            (registered node (List.mem_cons_self ..))
          have others := inductionHypothesis fun other member =>
            registered other (List.mem_cons_of_mem node member)
          simp [deregisterEntries, buffer, answer, others]

/-- At the end the nodes of the chain and of the entries are deregistered. -/
theorem Settled.close_eq (settled : Settled regMr s pool tail stale) :
    s.close = some (pool ++ s.owned) := by
  have registered : ∀ node < s.mallocs, (s.nodes node).rndvMr.isSome := by
    intro node bound
    obtain ⟨same, isSome⟩ := settled.shape.registered node bound
    rw [same]
    exact isSome
  have inRange : pool ⊆ List.range s.mallocs := by
    intro node member
    exact List.mem_range.mpr (settled.shape.bound node (Or.inl member))
  have short : pool.length ≤ s.mallocs := by
    simpa using
      (List.subperm_of_subset settled.shape.chain.nodup inRange).length_le
  let closed : Server := { s with closeServer := true }
  have fromPool : closed.deregisterChain s.mallocs s.memPoolHead =
      some pool :=
    deregisterChain_chain (s := closed) settled.shape.chain
      (fun node member => registered node
        (settled.shape.bound node (Or.inl member))) short
  have fromTainted : closed.deregisterChain s.mallocs s.taintedMemPoolHead =
      some [] := by
    rw [settled.noTainted]
    cases s.mallocs <;> rfl
  have fromEntries : closed.deregisterEntries s.entries = some s.owned :=
    deregisterEntries_eq fun node member => registered node
      (settled.shape.bound node (Or.inr (Or.inl member)))
  change closed.clearServerData = _
  unfold clearServerData
  change (closed.deregisterChain s.mallocs s.memPoolHead).bind _ = _
  rw [fromPool, Option.bind_some]
  change (closed.deregisterChain s.mallocs s.taintedMemPoolHead).bind _ = _
  rw [fromTainted, Option.bind_some]
  change (closed.deregisterEntries s.entries).bind _ = _
  rw [fromEntries, Option.bind_some, List.append_nil]
  rfl

/-- The node is in exactly one of the pool chain, the tainted chain and an
entry. -/
def InOnePlace (s : Server) (node : Nat) : Prop :=
  (Reaches s.nextMem s.memPoolHead node ∧
      ¬ Reaches s.nextMem s.taintedMemPoolHead node ∧ s.owned.count node = 0) ∨
    (¬ Reaches s.nextMem s.memPoolHead node ∧
      Reaches s.nextMem s.taintedMemPoolHead node ∧ s.owned.count node = 0) ∨
    (¬ Reaches s.nextMem s.memPoolHead node ∧
      ¬ Reaches s.nextMem s.taintedMemPoolHead node ∧ s.owned.count node = 1)

theorem Settled.inOnePlace_iff (settled : Settled regMr s pool tail stale)
    (node : Nat) : s.InOnePlace node ↔ node ∈ pool ∨ node ∈ s.owned := by
  have tainted : Chain s.nextMem s.taintedMemPoolHead [] := settled.noTainted
  have apart := settled.shape.separate node
  unfold InOnePlace
  rw [settled.shape.chain.reaches_iff, tainted.reaches_iff,
    settled.shape.ownedNodup.count]
  by_cases inPool : node ∈ pool <;> by_cases inOwned : node ∈ s.owned <;>
    simp_all

theorem Settled.count_eq_one_iff (settled : Settled regMr s pool tail stale)
    (node : Nat) : (pool ++ s.owned).count node = 1 ↔
      node ∈ pool ∨ node ∈ s.owned := by
  have apart := settled.shape.separate node
  rw [List.count_append, settled.shape.chain.nodup.count,
    settled.shape.ownedNodup.count]
  by_cases inPool : node ∈ pool <;> by_cases inOwned : node ∈ s.owned <;>
    simp_all

/-- Every node is somewhere if and only if none was dropped. -/
theorem AtStage.conserved_iff {stage : Stage} (staged : AtStage regMr s stage)
    (settled : Settled regMr s pool tail stale) :
    (∀ node < s.mallocs, node ∈ pool ∨ node ∈ s.owned) ↔
      stage ≠ .lost := by
  have kept : ∀ {others : List Nat} {last : Nat},
      Stocked regMr s others last →
      ∀ node < s.mallocs, node ∈ pool ∨ node ∈ s.owned := by
    intro others last stocked
    rw [settled.shape.chain.unique stocked.shape.chain]
    exact stocked.conserved
  cases stage with
  | clean =>
      obtain ⟨_, _, stocked, _⟩ := staged
      simpa using kept stocked
  | spare =>
      obtain ⟨_, _, _, stocked, _⟩ := staged
      simpa using kept stocked
  | spareTaken =>
      obtain ⟨_, _, _, stocked, _⟩ := staged
      simpa using kept stocked
  | lost =>
      obtain ⟨others, _, _, settled', node, bound, notPool, notOwned, _⟩ := staged
      constructor
      · intro all
        rw [settled.shape.chain.unique settled'.shape.chain] at all
        rcases all node bound with inPool | inOwned
        · exact absurd inPool notPool
        · exact absurd inOwned notOwned
      · intro different
        exact absurd rfl different

/-- A session ends with every registration taken back exactly once if and
only if it overwrote at most one buffer and took at most one after that. -/
theorem session_deregisters_iff (registers : ∀ node, (regMr node).isSome)
    (requests : List Request) :
    (AtMostOneSpare (movements requests) →
        (session regMr requests).isSome) ∧
      ∀ s replies, session regMr requests = some (s, replies) →
        ∃ deregistered, s.close = some deregistered ∧
          ((∀ node < s.mallocs, deregistered.count node = 1) ↔
            AtMostOneSpare (movements requests)) ∧
          ((∀ node < s.mallocs, s.InOnePlace node) ↔
            AtMostOneSpare (movements requests)) := by
  obtain ⟨completes, stage⟩ := session_stage registers requests
  rw [atMostOneSpare_iff]
  refine ⟨completes, fun s replies ran => ?_⟩
  have staged := stage s replies ran
  obtain ⟨pool, tail, stale, settled⟩ := staged.settled
  have conserved := staged.conserved_iff settled
  refine ⟨pool ++ s.owned, settled.close_eq, ?_, ?_⟩
  · simp only [settled.count_eq_one_iff]
    exact conserved
  · simp only [settled.inOnePlace_iff]
    exact conserved

theorem session_deregisters_taking :
    ∃ s replies deregistered,
      session Sample.regMr taking = some (s, replies) ∧ s.close = some deregistered ∧
      ∀ node < s.mallocs, deregistered.count node = 1 := by
  have spare : AtMostOneSpare (movements taking) :=
    (atMostOneSpare_iff _).mpr (by decide)
  obtain ⟨completes, closes⟩ :=
    session_deregisters_iff registers_all taking
  obtain ⟨⟨s, replies⟩, ran⟩ := Option.isSome_iff_exists.mp (completes spare)
  obtain ⟨deregistered, closed, once, _⟩ := closes s replies ran
  exact ⟨s, replies, deregistered, ran, closed, once.mpr spare⟩

/-- The node that was given back is cut off when both keys get buffers. -/
theorem session_deregisters_fails :
    ∃ s replies deregistered node,
      session Sample.regMr (overwriting ++ taking) = some (s, replies) ∧
      s.close = some deregistered ∧ node < s.mallocs ∧
      deregistered.count node ≠ 1 := by
  have drops : ((session Sample.regMr (overwriting ++ taking)).any fun result =>
      result.1.close.any fun deregistered =>
        decide (0 < result.1.mallocs ∧ deregistered.count 0 ≠ 1)) = true := by
    decide +kernel
  obtain ⟨⟨s, replies⟩, ran, closes⟩ := (Option.any_eq_true ..).mp drops
  obtain ⟨deregistered, closed, dropped⟩ := (Option.any_eq_true ..).mp closes
  exact ⟨s, replies, deregistered, 0, ran, closed, of_decide_eq_true dropped⟩

end Server

end RdmaKv
