import RdmaKv.Ex4.PoolRuns

/-!
# The loop over the tainted list

`maintain_pool` walks along `next_mem` from `tainted_mem_pool_head` and links
every node behind `mem_pool_tail` while it walks.  It comes to NULL unless the
node that was given back leads to the tail, as it may once the tail itself was
handed out.
-/

namespace RdmaKv

open ByteMemory LinkedChain Request

/-- The node that a request gives back: the buffer of the entry that it
overwrites. -/
def Request.givesBack (s : Server) : Request → Option Nat
  | .eagerSet key _ =>
      match s.held key with
      | some (.buffer _ node) => some node
      | _ => none
  | _ => none

namespace Server

variable {regMr : Nat → Option IbvMr}
variable {s s' : Server} {pool : List Nat} {tail : Nat} {stale : Set Nat}

/-- The tainted list ends, its nodes are different, and the loop over it is
over after one round for each of them. -/
def RecyclesOnce (s : Server) : Prop :=
  ∃ tainted recycled, Chain s.nextMem s.taintedMemPoolHead tainted ∧
    tainted.Nodup ∧ recycleTainted tainted.length s = some recycled

/-- The node is the end of its chain, and is not `mem_pool_tail`. -/
def Detached (s : Server) (node : Nat) : Prop :=
  s.nextMem node = none ∧ s.memPoolTail ≠ some node

instance (s : Server) (node : Nat) : Decidable (s.Detached node) :=
  inferInstanceAs (Decidable (_ ∧ _))

/-- The nodes of entries that are not detached are those of the loose end. -/
theorem PoolShape.detached_iff (shape : PoolShape regMr s pool tail stale)
    {node : Nat} (member : node ∈ s.owned) :
    s.Detached node ↔ node ∉ stale := by
  constructor
  · rintro ⟨last, notTail⟩ inStale
    have different : node ≠ tail := fun same =>
      notTail (same ▸ shape.tailEq)
    obtain ⟨next, _, step⟩ := shape.staleNext node inStale different
    exact absurd (last.symm.trans step) (by simp)
  · intro outside
    refine ⟨shape.ownedNext node member outside, fun isTail => ?_⟩
    obtain rfl := Option.some.inj (isTail.symm.trans shape.tailEq)
    rcases shape.place with ⟨inPool, _⟩ | inStale
    · exact (shape.separate node inPool).1 member
    · exact outside inStale

/-- A request taints the node that it gives back, and no other. -/
private theorem handle_givesBack (wellFormed : s.WellFormed)
    (settled : Settled regMr s pool tail stale) {past : List Request}
    (records : Records past s) (request : Request) :
    match request.givesBack s with
    | some node => node ∈ s.owned ∧ ∃ s' reply,
        s.handleServerPacketsOnly request.packet = some (s', reply) ∧
          Taints node s s'
    | none => ∀ s' reply,
        s.handleServerPacketsOnly request.packet = some (s', reply) →
          s'.taintedMemPoolHead = none := by
  have moved := handle_movement wellFormed settled records request
  have unmoved {t t' : Server} {reply reply' : Option (Packet × Nat)}
      (computed : s.handleServerPacketsOnly request.packet = some (t, reply))
      (handled : s.handleServerPacketsOnly request.packet = some (t', reply'))
      (tainted : t.taintedMemPoolHead = s.taintedMemPoolHead) :
      t'.taintedMemPoolHead = none := by
    obtain ⟨rfl, _⟩ :=
      Prod.mk.inj (Option.some.inj (computed.symm.trans handled))
    exact tainted.trans settled.noTainted
  cases request with
  | eagerGet key =>
      intro s' reply handled
      obtain ⟨t, _, computed, step⟩ := moved
      exact unmoved computed handled step.tainted
  | eagerSet key value =>
      have inline (notBuffer : ∀ valueLength node,
          s.held key ≠ some (.buffer valueLength node))
          (s' : Server) (reply : Option (Packet × Nat))
          (handled : s.handleServerPacketsOnly
            (Request.eagerSet key value).packet = some (s', reply)) :
          s'.taintedMemPoolHead = none := by
        obtain ⟨t, computed, _, step, _⟩ :=
          eagerSet_inline wellFormed notBuffer value
        have answered : s.handleServerPacketsOnly
            (Request.eagerSet key value).packet = some (t, none) := by
          simp [handleServerPacketsOnly, Request.packet, computed]
        exact unmoved answered handled step.tainted
      cases holds : s.held key with
      | none =>
          simp only [givesBack, holds]
          exact inline (by simp [holds])
      | some holding =>
          cases holding with
          | inline old =>
              simp only [givesBack, holds]
              exact inline (by simp [holds])
          | buffer valueLength node =>
              simp only [givesBack, holds]
              obtain ⟨t, computed, _, step, _⟩ :=
                eagerSet_buffer wellFormed settled.noTainted holds value
              refine ⟨held_buffer_mem_owned wellFormed holds, t, none, ?_, step⟩
              simp [handleServerPacketsOnly, Request.packet, computed]
  | rendezvousSet valueLength key =>
      intro s' reply handled
      simp only [movement] at moved
      split at moved
      · obtain ⟨t, _, computed, step⟩ := moved
        exact unmoved computed handled step.tainted
      · rename_i isOverwrite
        split at isOverwrite
        · exact absurd isOverwrite (by simp)
        · exact absurd isOverwrite (by simp)
      · rcases moved with ⟨t, _, node, computed, step⟩ | ⟨_, stuck⟩
        · exact unmoved computed handled step.tainted
        · exact absurd (stuck.symm.trans handled) (by simp)

/-- The loop ends at once where nothing was tainted. -/
private theorem recyclesOnce_of_none (empty : s.taintedMemPoolHead = none) :
    s.RecyclesOnce :=
  ⟨[], s, empty, List.nodup_nil, recycleTainted_none 0 empty⟩

/-- It ends after one round for a detached node, and never for another one. -/
private theorem recycles_or_loops {node : Nat}
    (settled : Settled regMr s pool tail stale) (member : node ∈ s.owned)
    (step : Taints node s s') :
    (s.Detached node → s'.RecyclesOnce) ∧
      (¬ s.Detached node → ∀ fuel, recycleTainted fuel s' = none) := by
  have handled := settled.taints step
  obtain ⟨bound, notPool, notOwned, last⟩ :=
    handled.tainted node step.tainted
  rw [settled.shape.detached_iff member]
  constructor
  · intro outside
    obtain ⟨s'', ran, _⟩ := handled.shape.recycle step.tainted bound notPool
      notOwned outside (last outside) 0
    exact ⟨[node], s'', ⟨step.tainted, last outside⟩,
      List.nodup_singleton node, ran⟩
  · intro inside fuel
    exact PoolShape.recycle_stale handled.shape.tailEq
      handled.shape.staleNext step.tainted (not_not.mp inside) fuel

/-- Along a session `maintain_pool` gets through the tainted list after every
request exactly if every node that a request gives back is detached then. -/
theorem session_recycles_iff (requests : List Request) :
    (∀ before request after, requests = before ++ request :: after →
      ∀ s replies, session regMr before = some (s, replies) →
      ∀ s' reply, s.handleServerPacketsOnly request.packet =
        some (s', reply) → s'.RecyclesOnce) ↔
    ∀ before request after, requests = before ++ request :: after →
      ∀ s replies, session regMr before = some (s, replies) →
      ∀ node, request.givesBack s = some node → s.Detached node := by
  refine forall₄_congr fun before request after split =>
    forall₃_congr fun s replies ran => ?_
  obtain ⟨wellFormed, pool, tail, stale, settled⟩ := session_sound ran
  have tainted :=
    handle_givesBack wellFormed settled (session_records ran) request
  cases gives : request.givesBack s with
  | none =>
      rw [gives] at tainted
      refine iff_of_true (fun s' reply handled => ?_) (by simp)
      exact recyclesOnce_of_none (tainted s' reply handled)
  | some node =>
      rw [gives] at tainted
      obtain ⟨member, t, answer, computed, step⟩ := tainted
      obtain ⟨recycles, loops⟩ := recycles_or_loops settled member step
      constructor
      · rintro ends other isNode
        obtain rfl := Option.some.inj isNode
        by_contra attached
        obtain ⟨_, _, _, _, ran'⟩ := ends t answer computed
        rw [loops attached] at ran'
        exact absurd ran' (by simp)
      · intro detached s' reply handled
        obtain ⟨rfl, _⟩ :=
          Prod.mk.inj (Option.some.inj (computed.symm.trans handled))
        exact recycles (detached node rfl)

/-- The tail itself is handed out in the end. -/
def handingOutTail : List Request :=
  (List.replicate 10 Sample.overwriting).flatten ++
    [.rendezvousSet 5000 Sample.firstKey]

/-- The next eager set gives the tail back, and the loop never ends. -/
theorem session_recycles_fails :
    ∃ s replies s' reply,
      session Sample.regMr handingOutTail = some (s, replies) ∧
      s.handleServerPacketsOnly
        (Request.eagerSet Sample.firstKey [1]).packet = some (s', reply) ∧
      ∀ fuel, recycleTainted fuel s' = none := by
  have attached : ((session Sample.regMr handingOutTail).any fun result =>
      ((Request.eagerSet Sample.firstKey [1]).givesBack result.1).any
        fun node => decide (¬ result.1.Detached node)) = true := by
    decide +kernel
  obtain ⟨⟨s, replies⟩, ran, isAttached⟩ :=
    (Option.any_eq_true ..).mp attached
  obtain ⟨node, gives, notDetached⟩ := (Option.any_eq_true ..).mp isAttached
  obtain ⟨wellFormed, pool, tail, stale, settled⟩ := session_sound ran
  have tainted := handle_givesBack wellFormed settled (session_records ran)
    (.eagerSet Sample.firstKey [1])
  simp only at gives
  rw [gives] at tainted
  obtain ⟨member, s', reply, computed, step⟩ := tainted
  exact ⟨s, replies, s', reply, ran, computed,
    (recycles_or_loops settled member step).2 (of_decide_eq_true notDetached)⟩

end Server

end RdmaKv
