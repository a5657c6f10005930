import RdmaKv.Ex4.Coherence
import RdmaKv.Ex4.Latest
import RdmaKv.Ex4.Schedule

/-!
# RDMA stays inside the buffers

A run of `kv_set` and `kv_get`, on any of the handles, posts an RDMA operation
outside the buffer of its key only after a `kv_get` that asks the server for a
value whose stored length is already the size of the buffer, or where the one
cache of the client is used for a buffer that it does not describe.
-/

namespace RdmaKv

open ByteMemory Interaction

/-- An RDMA operation stays in its local region and in the buffer that the
server holds for the key. -/
def Op.Within (c : Cluster) : Op → Prop
  | .rdmaWrite server key region _ length remote =>
      length ≤ region ∧ length ≤ maxTestSize ∧
        ∃ node, (c.hosts server).state.HoldsBuffer key node ∧
          (c.hosts server).state.nodeAt remote = some node
  | .rdmaRead server key region length remote =>
      length ≤ region ∧ length ≤ maxTestSize ∧
        ∃ node, (c.hosts server).state.HoldsBuffer key node ∧
          (c.hosts server).state.nodeAt remote = some node
  | _ => True

/-- Where it is ready and stays in bounds on servers that act at once, it does
so on the cluster. -/
theorem ClusterRel.within {regMr : Nat → Nat → Option IbvMr} {a : Atomic}
    {c : Cluster} (related : ClusterRel regMr a c)
    (distinct : ∀ id, DistinctMrs (regMr id)) {op : Op}
    (ready : Atomic.Ready True op a) : op.Within c := by
  have holds {server : Nat} {key : CString} {remote : IbvMr}
      (addresses : a.Addresses server key remote) :
      ∃ node, (c.hosts server).state.HoldsBuffer key node ∧
        (c.hosts server).state.nodeAt remote = some node := by
    obtain ⟨base, here⟩ := related.peers server
    obtain ⟨waiting, valueLength, found⟩ := addresses
    obtain ⟨node, held, _, _, _, there, _, _⟩ :=
      here.addresses (distinct server) waiting found
    exact ⟨node, (Server.holdsBuffer_iff here.wellFormed).mpr
      ⟨valueLength, held⟩, there⟩
  cases op with
  | send conn message => trivial
  | recv conn => trivial
  | rdmaWrite server key region source length remote =>
      exact ⟨(ready.2 trivial).2, (ready.2 trivial).1, holds ready.1⟩
  | rdmaRead server key region length remote =>
      exact ⟨(ready.2 trivial).2, (ready.2 trivial).1, holds ready.1⟩

/-- The client reads more bytes than a buffer has. -/
def Op.readsTooMuch : Op → Bool
  | .rdmaRead _ _ _ length _ => decide (maxTestSize < length)
  | _ => false

theorem Op.not_within_of_readsTooMuch {op : Op} {c : Cluster}
    (tooLong : op.readsTooMuch = true) : ¬ op.Within c := by
  intro within
  cases op with
  | rdmaRead server key region length remote =>
      exact absurd within.2.1 (not_le.mpr (of_decide_eq_true tooLong))
  | send conn message => exact absurd tooLong (by simp [readsTooMuch])
  | recv conn => exact absurd tooLong (by simp [readsTooMuch])
  | rdmaWrite server key region source length remote =>
      exact absurd tooLong (by simp [readsTooMuch])

namespace KvClient

/-- The value with its terminator fits into the buffer of a server. -/
def KvCall.Fits : KvCall → Prop
  | .set _ _ value => value.length + 1 ≤ maxTestSize
  | .get _ _ => True

def kvLedgerAfter (calls : List KvCall) : Ledger :=
  Ledger.init.afterAll (calls.map KvCall.toCall)

/-- The cache is used only for the buffer that it describes, and a `kv_get`
that asks the server finds there a length that leaves room for one byte. -/
def KvCall.Safe (ledger : Ledger) (call : KvCall) : Prop :=
  call.toCall.Consults ledger ∧
    match call with
    | .set _ _ _ => True
    | .get server key => ledger.isCached key = false →
        ledger.sentLength server key < maxTestSize

private theorem inBounds_of_safe {ledger : Ledger}
    (bounded : ledger.Bounded maxTestSize)
    {call : KvCall} (fits : call.Fits) (safe : call.Safe ledger) :
    call.toCall.InBounds ledger := by
  have top : maxTestSize + 1 < unsignedRange := by
    decide
  cases call with
  | set server key value =>
      have length := Nat.mod_le value.length unsignedRange
      refine Or.inr ?_
      simp only [ite_self]
      exact (Nat.mod_le _ _).trans ((Nat.add_le_add_right length 1).trans fits)
  | get server key =>
      have cached := bounded.cachedLength
      simp only [KvCall.toCall, Call.InBounds]
      split
      · rw [Nat.mod_eq_of_lt (by omega)]
        omega
      · rename_i miss
        have room := safe.2 (by simpa using miss)
        exact (Nat.mod_le _ _).trans room

/-- In every run whose calls are safe, every RDMA operation that is posted
stays in the buffer of its key and in its local region. -/
theorem rdma_within {regMr : Nat → Nat → Option IbvMr} {c : Cluster}
    {calls : List KvCall} {buf : Conn → Memory}
    {reached : Run (List Returned × Client) × Cluster}
    (distinct : ∀ id, DistinctMrs (regMr id))
    (initial : Cluster.Initial regMr c) (fits : ∀ call ∈ calls, call.Fits)
    (safe : ∀ front call back, calls = front ++ call :: back →
      call.Safe (kvLedgerAfter front))
    (steps : Steps (Cluster.environment regMr)
      (runCalls KvCall.perform calls (Client.init buf), c) reached)
    {op : Op} {resume : Answer op → Run (List Returned × Client)}
    (posts : reached.1 = .perform op resume) : op.Within reached.2 := by
  have allowed (front : List KvCall) (call : KvCall) (back : List KvCall)
      (split : calls = front ++ call :: back) :
      call.toCall.Allowed True True (kvLedgerAfter front) := by
    have bounded : (kvLedgerAfter front).Bounded maxTestSize := by
      refine (Ledger.bounded_init _).afterAll fun other member => ?_
      obtain ⟨mapped, inside, rfl⟩ := List.mem_map.mp member
      have fit := fits mapped (by rw [split]; exact List.mem_append_left _ inside)
      cases mapped with
      | set server key value =>
          exact (Nat.add_le_add_right (Nat.mod_le _ _) 1).trans fit
      | get server key => trivial
    have here := safe front call back split
    exact ⟨here.1, fun _ => trivial, fun _ =>
      inBounds_of_safe bounded (fits call (by rw [split]; simp)) here⟩
  obtain ⟨a, related, achieves⟩ := (simulation regMr distinct True).reachable
    (ClusterRel.init initial)
    (achieves_runCalls KvCall.toCall
      (fun ledger call => call.toCall.Allowed True True ledger)
      (fun call ledger client a tracks allowed => by
        rw [KvCall.perform_eq]
        exact call.toCall.achieves tracks allowed)
      calls (tracks_init buf) allowed) steps
  rw [posts] at achieves
  exact related.within distinct (achieves a .refl).1

open Sample

/-- A value in a buffer, and a `kv_get` that reads it. -/
def storing : List KvCall :=
  [.set 0 firstKey (letters 5000), .get 0 firstKey]

private theorem storing_safe (front : List KvCall) (call : KvCall)
    (back : List KvCall) (split : storing = front ++ call :: back) :
    call.Safe (kvLedgerAfter front) := by
  rcases front with _ | ⟨first, _ | ⟨second, front⟩⟩
  · obtain ⟨rfl, _⟩ := List.cons.inj split
    exact ⟨⟨by decide, Or.inr (show firstKey ≠ CString.empty by decide)⟩,
      trivial⟩
  · obtain ⟨rfl, rest⟩ := List.cons.inj split
    obtain ⟨rfl, _⟩ := List.cons.inj rest
    have cached : (kvLedgerAfter [.set 0 firstKey (letters 5000)]).cached =
        some (0, firstKey) := by
      decide +kernel
    have hit : (kvLedgerAfter [.set 0 firstKey (letters 5000)]).isCached
        firstKey = true := Ledger.isCached_iff.mpr ⟨0, cached⟩
    refine ⟨⟨by decide, ?_⟩, fun miss => ?_⟩
    · unfold Ledger.Usable
      rw [cached]
      exact fun _ => rfl
    · exact absurd (hit.symm.trans miss) (by simp)
  · exact absurd (congrArg List.length split) (by simp [storing])

/-- The read of a `kv_get` after a `kv_set` stays in the buffer. -/
theorem rdma_within_storing :
    ∃ reached op resume,
      Steps (Cluster.environment mr)
        (runCalls KvCall.perform storing client, cluster) reached ∧
      reached.1 = .perform op resume ∧ op.isRead = true ∧
      op.Within reached.2 := by
  obtain ⟨reached, op, resume, steps, posts, isRead⟩ :=
    Cluster.steps_of_posted mr 3
      (runCalls KvCall.perform storing client, cluster) Op.isRead
      (by decide +kernel)
  refine ⟨reached, op, resume, steps, posts, isRead, ?_⟩
  refine rdma_within mr_distinct cluster_initial (fun call member => ?_)
    storing_safe steps posts
  simp only [storing, List.mem_cons, List.not_mem_nil, or_false] at member
  rcases member with rfl | rfl
  · exact (show (letters 5000).length + 1 ≤ _ by rw [length_letters]; decide)
  · trivial

/-! ## A read past the end of a buffer -/

/-- The first value fills the buffer with its terminator, the second call
evicts its key. -/
def filling : List KvCall :=
  [.set 0 firstKey (letters 40959), .set 0 secondKey (letters 5000),
    .get 0 firstKey]

private theorem filling_fits : ∀ call ∈ filling, call.Fits := by
  intro call member
  simp only [filling, List.mem_cons, List.not_mem_nil, or_false] at member
  rcases member with rfl | rfl | rfl
  · exact (show (letters 40959).length + 1 ≤ _ by rw [length_letters]; decide)
  · exact (show (letters 5000).length + 1 ≤ _ by rw [length_letters]; decide)
  · trivial

/-- A run that posts a read of more bytes than the buffer has. -/
theorem rdma_within_fails :
    Cluster.Initial mr cluster ∧ (∀ call ∈ filling, call.Fits) ∧
      ∃ reached op resume,
        Steps (Cluster.environment mr)
          (runCalls KvCall.perform filling client, cluster) reached ∧
        reached.1 = .perform op resume ∧ ¬ op.Within reached.2 := by
  have same : runCalls KvCall.perform filling = runCalls Call.perform
      [.set 1 0 firstKey (letters 40959).memory 40959,
        .set 1 0 secondKey (letters 5000).memory 5000, .get 0 firstKey] := by
    rw [funext KvCall.perform_eq, runCalls_map]
    simp [filling, KvCall.toCall, unsignedRange]
  obtain ⟨reached, op, resume, steps, posts, tooLong⟩ :=
    Cluster.steps_of_posted mr 8
      (runCalls Call.perform
        [.set 1 0 firstKey (letters 40959).memory 40959,
          .set 1 0 secondKey (letters 5000).memory 5000, .get 0 firstKey]
        client, cluster) Op.readsTooMuch (by decide +kernel)
  refine ⟨cluster_initial, filling_fits, reached, op, resume, ?_, posts,
    Op.not_within_of_readsTooMuch tooLong⟩
  rw [same]
  exact steps

end KvClient

end RdmaKv
