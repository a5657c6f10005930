import RdmaKv.Ex4.Pool

/-!
# `maintain_pool` keeps the ownership of buffers

A request and the maintenance after it lead from a settled pool to a settled
pool, and maintenance leaves the entries and their buffers alone.
-/

namespace RdmaKv

open ByteMemory LinkedChain

namespace Server

variable {regMr : Nat → Option IbvMr}
variable {s s' : Server} {pool : List Nat} {tail : Nat} {stale : Set Nat}

/-! ## From a request to its maintenance -/

theorem Settled.unmoved (settled : Settled regMr s pool tail stale)
    (step : Unmoved s s') : Handled regMr s' pool tail stale where
  shape := settled.shape.of_subset step.nodes step.mallocs step.head
    step.tail (by rw [step.owned]; exact List.Subset.refl _)
    (by rw [step.owned]; exact settled.shape.ownedNodup)
  tainted := fun node head => by
    rw [step.tainted, settled.noTainted] at head
    exact absurd head (by simp)
  enough := by
    have enough := settled.enough
    rw [step.poolSize]
    omega

theorem Settled.taints {node : Nat}
    (settled : Settled regMr s pool tail stale) (step : Taints node s s') :
    Handled regMr s' pool tail stale where
  shape := settled.shape.of_subset step.nodes step.mallocs step.head step.tail
    (fun _ member => step.owned.mem_iff.mpr (List.mem_cons_of_mem node member))
    (List.nodup_cons.mp
      (step.owned.nodup_iff.mp settled.shape.ownedNodup)).2
  tainted := by
    intro other head
    rw [step.tainted] at head
    obtain rfl := Option.some.inj head
    have wasOwned : node ∈ s.owned :=
      step.owned.mem_iff.mpr (List.mem_cons_self ..)
    have released : node ∉ s'.owned :=
      (List.nodup_cons.mp
        (step.owned.nodup_iff.mp settled.shape.ownedNodup)).1
    refine ⟨?_, ?_, released, ?_⟩
    · rw [step.mallocs]
      exact settled.shape.bound node (Or.inr (Or.inl wasOwned))
    · exact fun inPool => (settled.shape.separate node inPool).1 wasOwned
    · intro notStale
      rw [nextMem, step.nodes]
      exact settled.shape.ownedNext node wasOwned notStale
  enough := by
    have enough := settled.enough
    rw [step.poolSize]
    omega

theorem Settled.takes {node : Nat} {rest : List Nat}
    (settled : Settled regMr s (node :: rest) tail stale)
    (step : Takes node s s') :
    Handled regMr s' rest tail (if node = tail then {node} else stale) := by
  refine ⟨settled.shape.take step, ?_, ?_⟩
  · intro other head
    rw [step.tainted, settled.noTainted] at head
    exact absurd head (by simp)
  · have enough := settled.enough
    rw [step.poolSize]
    omega

/-- A settled pool that a request takes from has a head. -/
theorem PoolShape.front {node : Nat}
    (shape : PoolShape regMr s pool tail stale)
    (front : s.memPoolHead = some node) :
    ∃ rest, pool = node :: rest := by
  cases pool with
  | nil =>
      have empty : s.memPoolHead = none := shape.chain
      rw [front] at empty
      exact absurd empty (by simp)
  | cons head rest =>
      have same : s.memPoolHead = some head := shape.chain.1
      rw [front] at same
      exact ⟨rest, by rw [Option.some.inj same]⟩

/-! ## The two loops -/

@[simp]
theorem recycleTainted_none (fuel : Nat)
    (empty : s.taintedMemPoolHead = none) :
    recycleTainted fuel s = some s := by
  cases fuel <;> simp [recycleTainted, empty]

/-- The walk over the tainted list, where it ends. -/
theorem Handled.recycle (handled : Handled regMr s pool tail stale)
    {fuel : Nat} (ran : recycleTainted (fuel + 1) s = some s') :
    ∃ pool', PoolShape regMr s' pool' tail stale ∧
      (∀ node ∈ pool', node ∈ pool ∨ s.taintedMemPoolHead = some node) ∧
      Keeps s s' ∧ s'.taintedMemPoolHead = none ∧
      s.poolSize ≤ s'.poolSize := by
  cases head : s.taintedMemPoolHead with
  | none =>
      rw [recycleTainted_none _ head] at ran
      obtain rfl := Option.some.inj ran
      exact ⟨pool, handled.shape, fun _ member => Or.inl member, Keeps.refl s,
        head, le_rfl⟩
  | some node =>
      obtain ⟨bound, notPool, notOwned, last⟩ := handled.tainted node head
      by_cases inStale : node ∈ stale
      · have diverges : recycleTainted (fuel + 1) s = none :=
          PoolShape.recycle_stale handled.shape.tailEq handled.shape.staleNext
            head inStale (fuel + 1)
        rw [diverges] at ran
        exact absurd ran (by simp)
      · obtain ⟨t, computed, shape, keeps, empty, size, _⟩ :=
          handled.shape.recycle head bound notPool notOwned inStale
            (last inStale) fuel
        rw [computed] at ran
        obtain rfl := Option.some.inj ran
        refine ⟨_, shape, ?_, keeps, empty, by omega⟩
        intro other member
        rcases mem_of_mem_linkBehind member with old | rfl
        · exact Or.inl old
        · exact Or.inr rfl

theorem growPool_registers {t : Server} (grown : s.growPool regMr = some t) :
    ∃ server, regMr s.mallocs = some server := by
  cases answer : regMr s.mallocs with
  | some server => exact ⟨server, rfl⟩
  | none => simp [growPool, answer] at grown

private theorem linkFresh_poolSize {node : Nat} {t : Server}
    (linked : s.linkFresh node = some t) : t.poolSize = s.poolSize := by
  unfold linkFresh at linked
  split at linked
  · exact (congrArg poolSize (Option.some.inj linked)).symm
  · obtain ⟨_, _, result⟩ := Option.map_eq_some_iff.mp linked
    exact (congrArg poolSize result).symm

private theorem growPool_poolSize {t : Server}
    (grown : s.growPool regMr = some t) :
    t.poolSize = s.poolSize + 1 := by
  obtain ⟨linked, link, rest⟩ := Option.bind_eq_some_iff.mp grown
  obtain ⟨_, _, result⟩ := Option.bind_eq_some_iff.mp rest
  have size := linkFresh_poolSize link
  have sum : linked.poolSize + 1 = t.poolSize :=
    congrArg poolSize (Option.some.inj result)
  rw [← sum, size]

/-- What a round of the filling loop preserves holds after the loop, and
enough rounds fill the pool. -/
theorem fillPool_rule {invariant : Server → Prop}
    (round : ∀ t t', invariant t → t.poolSize < minPoolNodes →
      t.growPool regMr = some t' → invariant t')
    {rounds : Nat} (holds : invariant s)
    (ran : fillPool regMr rounds s = some s') :
    invariant s' ∧
      ((minPoolNodes : Int) ≤ s.poolSize + rounds →
        (minPoolNodes : Int) ≤ s'.poolSize) := by
  induction rounds generalizing s with
  | zero =>
      obtain rfl := Option.some.inj ran
      exact ⟨holds, fun enough => by simpa using enough⟩
  | succ rounds inductionHypothesis =>
      rw [fillPool] at ran
      split at ran
      · rename_i short
        obtain ⟨t, grown, rest⟩ := Option.bind_eq_some_iff.mp ran
        obtain ⟨holds', filled⟩ :=
          inductionHypothesis (round s t holds short grown) rest
        refine ⟨holds', fun enough => filled ?_⟩
        rw [growPool_poolSize grown]
        push_cast at enough
        omega
      · rename_i full
        obtain rfl := Option.some.inj ran
        exact ⟨holds, fun _ => not_lt.mp full⟩

/-- The filling loop ends if every registration succeeds. -/
theorem fillPool_isSome (registers : ∀ node, (regMr node).isSome)
    (rounds : Nat) (linked : s.poolSize ≠ 0 → s.memPoolTail.isSome)
    (counts : 0 ≤ s.poolSize) :
    (fillPool regMr rounds s).isSome := by
  induction rounds generalizing s with
  | zero => rfl
  | succ rounds inductionHypothesis =>
      rw [fillPool]
      split
      · obtain ⟨server, answer⟩ :=
          Option.isSome_iff_exists.mp (registers s.mallocs)
        have grows : ∃ t, s.growPool regMr = some t ∧
            t.memPoolTail.isSome := by
          unfold growPool linkFresh
          by_cases empty : s.poolSize = 0
          · simp only [empty, if_true, Option.bind_eq_bind, Option.bind_some,
              answer]
            exact ⟨_, rfl, rfl⟩
          · obtain ⟨tail, isTail⟩ :=
              Option.isSome_iff_exists.mp (linked empty)
            simp only [empty, if_false, isTail, Option.map_some,
              Option.bind_eq_bind, Option.bind_some, answer]
            exact ⟨_, rfl, rfl⟩
        obtain ⟨t, grown, isTail⟩ := grows
        rw [grown, Option.bind_some]
        refine inductionHypothesis (fun _ => isTail) ?_
        rw [growPool_poolSize grown]
        omega
      · rfl

/-! ## The entries -/

private theorem recycleTainted_entries {fuel : Nat}
    (ran : recycleTainted fuel s = some s') : s'.entries = s.entries := by
  induction fuel generalizing s with
  | zero =>
      unfold recycleTainted at ran
      split at ran
      · obtain rfl := Option.some.inj ran
        rfl
      · exact absurd ran (by simp)
  | succ fuel inductionHypothesis =>
      unfold recycleTainted at ran
      split at ran
      · obtain rfl := Option.some.inj ran
        rfl
      · refine (inductionHypothesis ran).trans ?_
        simp only
        split <;> rfl

private theorem growPool_entries
    (grown : s.growPool regMr = some s') : s'.entries = s.entries := by
  obtain ⟨linked, isLinked, rest⟩ := Option.bind_eq_some_iff.mp grown
  obtain ⟨server, _, same⟩ := Option.bind_eq_some_iff.mp rest
  obtain rfl := Option.some.inj same
  unfold linkFresh at isLinked
  split at isLinked
  · obtain rfl := Option.some.inj isLinked
    rfl
  · obtain ⟨tail, _, rfl⟩ := Option.map_eq_some_iff.mp isLinked
    rfl

/-- `maintain_pool` does not touch the entries. -/
theorem maintainPool_entries
    (ran : s.maintainPool regMr = some s') : s'.entries = s.entries := by
  obtain ⟨recycled, isRecycled, filled⟩ := Option.bind_eq_some_iff.mp ran
  have round : ∀ t t' : Server, t.entries = s.entries →
      t.poolSize < minPoolNodes → t.growPool regMr = some t' →
      t'.entries = s.entries :=
    fun t t' same _ grown => (growPool_entries grown).trans same
  exact (fillPool_rule round (recycleTainted_entries isRecycled) filled).1

/-! ## Maintenance -/

/-- What is known of the pool while the filling loop runs: its nodes are
fresh or come from `origin`. -/
def Filling (regMr : Nat → Option IbvMr) (s : Server) (origin : Set Nat)
    (t : Server) : Prop :=
  (∃ pool tail stale, PoolShape regMr t pool tail stale ∧
    ∀ node < s.mallocs, node ∈ pool ∨ node ∈ stale → node ∈ origin) ∧
    t.poolSize ≠ 0 ∧ 0 ≤ t.poolSize ∧
    t.taintedMemPoolHead = none ∧ Keeps s t

theorem Filling.round {origin : Set Nat} {t t' : Server}
    (filling : Filling regMr s origin t)
    (grown : t.growPool regMr = some t') : Filling regMr s origin t' := by
  obtain ⟨⟨pool, tail, stale, shape, inside⟩, nonempty, counts, empty,
    keeps⟩ := filling
  obtain ⟨server, answer⟩ := growPool_registers grown
  obtain ⟨u, computed, shape', keeps', tainted, size, _⟩ :=
    shape.grow nonempty answer
  rw [computed] at grown
  obtain rfl := Option.some.inj grown
  refine ⟨⟨_, _, _, shape', ?_⟩, by omega, by omega, tainted.trans empty,
    keeps.trans keeps'⟩
  intro node bound member
  have old : node ≠ t.mallocs :=
    Nat.ne_of_lt (Nat.lt_of_lt_of_le bound keeps.mallocs)
  rcases member with inPool | inStale
  · rcases mem_of_mem_linkBehind inPool with before | fresh
    · exact inside node bound (Or.inl before)
    · exact absurd fresh old
  · split at inStale
    · exact absurd inStale (Set.notMem_empty node)
    · rcases Set.mem_insert_iff.mp inStale with fresh | before
      · exact absurd fresh old
      · exact inside node bound (Or.inr before)

/-- Maintenance, where it ends, settles the pool, and no node comes into the
pool that was neither there, nor tainted, nor fresh. -/
theorem Handled.maintain (handled : Handled regMr s pool tail stale)
    (ran : maintainPool regMr s = some s') :
    (∃ pool' tail' stale', Settled regMr s' pool' tail' stale' ∧
      ∀ node < s.mallocs, node ∈ pool' ∨ node ∈ stale' →
        node ∈ pool ∨ node ∈ stale ∨ s.taintedMemPoolHead = some node) ∧
    Keeps s s' := by
  obtain ⟨t, recycled, filled⟩ := Option.bind_eq_some_iff.mp ran
  obtain ⟨pool', shape, inside, keeps, empty, size⟩ :=
    handled.recycle recycled
  have enough := handled.enough
  have start : Filling regMr s
      {node | node ∈ pool ∨ node ∈ stale ∨
        s.taintedMemPoolHead = some node} t := by
    refine ⟨⟨pool', tail, stale, shape, ?_⟩,
      by simp only [minPoolNodes] at enough; omega,
      by simp only [minPoolNodes] at enough; omega, empty, keeps⟩
    intro node _ member
    rcases member with inPool | inStale
    · rcases inside node inPool with old | tainted
      · exact Or.inl old
      · exact Or.inr (Or.inr tainted)
    · exact Or.inr (Or.inl inStale)
  obtain ⟨⟨⟨pool'', tail'', stale'', shape'', inside''⟩, _, _, empty'',
    keeps''⟩, full⟩ :=
    fillPool_rule (fun _ _ filling _ grown => filling.round grown) start filled
  refine ⟨⟨pool'', tail'', stale'', ⟨shape'', empty'', full ?_⟩, inside''⟩,
    keeps''⟩
  omega

/-! ## The first maintenance -/

/-- The first round of the first maintenance: the pool is one node. -/
theorem growPool_init {t : Server} (grown : init.growPool regMr = some t) :
    PoolShape regMr t [0] 0 ∅ ∧ Keeps init t ∧
      t.taintedMemPoolHead = none ∧ t.poolSize = 1 ∧ t.mallocs = 1 := by
  obtain ⟨server, answer⟩ := growPool_registers grown
  have answer' : regMr 0 = some server := answer
  have computed : init.growPool regMr =
      some { init with
        nodes := fun node =>
          if node = 0 then ⟨some server, Memory.zero, none⟩
          else init.nodes node
        mallocs := 1
        memPoolHead := some 0
        memPoolTail := some 0
        poolSize := 1 } := by
    simp only [growPool, linkFresh, init, answer', Option.bind_eq_bind,
      Option.bind_some, if_true]
    rfl
  rw [computed] at grown
  obtain rfl := Option.some.inj grown
  refine ⟨⟨⟨rfl, rfl⟩, rfl, Or.inl ⟨List.mem_singleton.mpr rfl, rfl⟩, ?_,
    List.nodup_nil, ?_, ?_, ?_, ?_, ?_⟩,
    ⟨rfl, rfl, rfl, ?_, ?_, Nat.zero_le 1⟩, rfl, rfl, rfl⟩
  · intro node member
    simpa [Server.owned, init] using member
  · intro node _
    exact ⟨by simp [Server.owned, init], Set.notMem_empty node⟩
  · intro node member
    exact absurd member (Set.notMem_empty node)
  · intro node member
    exact absurd member (by simp [Server.owned, init])
  · intro node member
    rw [List.mem_singleton.mp member]
    rfl
  · intro node bound
    obtain rfl := Nat.lt_one_iff.mp bound
    exact ⟨answer'.symm, by simp [answer']⟩
  · intro node member
    exact absurd member (by simp [Server.owned, init])
  · intro node bound
    exact absurd bound (Nat.not_lt_zero node)

/-- The first maintenance is one round on the initial globals, then the
filling loop goes on. -/
theorem start_eq : start regMr =
    (init.growPool regMr).bind (fillPool regMr 9) := by
  have small : init.poolSize < minPoolNodes := by decide
  have rounds : ((minPoolNodes : Int) - init.poolSize).toNat = 9 + 1 := rfl
  rw [start, maintainPool, recycleTainted_none _ rfl]
  simp only [Option.bind_eq_bind, Option.bind_some, rounds]
  rw [fillPool, if_pos small]

theorem start_settled (started : start regMr = some s) :
    (∃ pool tail stale, Settled regMr s pool tail stale) ∧
      s.entries = [] := by
  rw [start_eq] at started
  obtain ⟨t, grown, filled⟩ := Option.bind_eq_some_iff.mp started
  obtain ⟨shape, keeps, empty, size, _⟩ := growPool_init grown
  have begun : Filling regMr init ∅ t :=
    ⟨⟨[0], 0, ∅, shape, fun node bound _ => absurd bound (Nat.not_lt_zero node)⟩,
      by omega, by omega, empty, keeps⟩
  obtain ⟨⟨⟨pool, tail, stale, shape', _⟩, _, _, empty', keeps'⟩, full⟩ :=
    fillPool_rule (fun _ _ filling _ grown => filling.round grown) begun filled
  refine ⟨⟨pool, tail, stale, shape', empty', full ?_⟩, keeps'.entries⟩
  rw [size]
  decide

end Server

end RdmaKv
