import RdmaKv.Ex3.Rendezvous
import Mathlib.Data.List.Induction

/-!
# When a rendezvous `kv_get` returns the latest value

`kv_get` reads as many bytes as the first value of its key had and ends the
string with what `ctx->remote_buf` happens to hold behind them.  So it returns
the latest value exactly if that value is shorter than the first one, or as
long and followed by a zero byte in `ctx->remote_buf`.
-/

namespace RdmaKv.Ex3

open ByteMemory

variable {s s' : System} {key value : CString}

/-! ## The pool -/

namespace RndvServer

/-- The pool is full and nothing in it is in use. -/
structure Ready (s : RndvServer) (used : List Nat) : Prop where
  full : s.rndvPool.length = minPoolNodes
  counted : s.rndvPoolNodesCounter = minPoolNodes
  apart : (used ++ s.rndvPool).Nodup
  below : ∀ node ∈ used ++ s.rndvPool, node < s.mallocs

theorem ready_init : init.Ready [] :=
  ⟨rfl, rfl, by decide, by decide⟩

theorem Ready.write {s : RndvServer} {used : List Nat} {node length : Nat}
    {source : Memory} (ready : s.Ready used) :
    (s.write node length source).Ready used :=
  ⟨ready.full, ready.counted, ready.apart, ready.below⟩

/-- A buffer is handed out and the pool filled again; the other buffers in use
stay as they are. -/
theorem Ready.setRequest {s : RndvServer} {used : List Nat}
    (ready : s.Ready used) (key : CString) :
    ∃ node server, s.setRequest key = some (node, server) ∧
      server.fillPool.Ready (used ++ [node]) ∧ node ∉ used ∧
      ∀ other ∈ used, server.fillPool.buffers other = s.buffers other := by
  obtain ⟨full, counted, apart, below⟩ := ready
  cases inPool : s.rndvPool with
  | nil => exact absurd full (by rw [inPool]; decide)
  | cons node rest =>
      rw [inPool] at full apart below
      have outside : node ∉ used := fun member =>
        (List.nodup_append.mp apart).2.2 node member node
          (List.mem_cons_self ..) rfl
      let server : RndvServer := { s with
        buffers := fun other =>
          if other = node then (s.buffers node).copy 0 key.length key.memory
          else s.buffers other
        rndvPool := rest
        rndvPoolNodesCounter := s.rndvPoolNodesCounter - 1
        rndvNodes := s.rndvNodes ++ [node] }
      have grown : server.fillPool = server.growPool := by
        have once : minPoolNodes - server.rndvPoolNodesCounter = 1 := by
          simp only [server, counted, minPoolNodes]
        unfold fillPool
        rw [once]
        rfl
      have ran : s.setRequest key = some (node, server) := by
        simp only [RndvServer.setRequest, inPool]
        rfl
      have listed : (used ++ [node]) ++ (rest ++ [s.mallocs]) =
          (used ++ node :: rest) ++ [s.mallocs] := by
        simp
      refine ⟨node, server, ran, ?_, outside, ?_⟩
      · rw [grown]
        refine ⟨?_, ?_, ?_, ?_⟩
        · simpa [growPool, server] using full
        · simp only [growPool, server, counted, minPoolNodes]
        · simp only [growPool, server]
          rw [listed]
          refine List.nodup_append.mpr ⟨apart, List.nodup_singleton _,
            fun old member new isNew => ?_⟩
          have older := below old member
          rw [List.mem_singleton.mp isNew]
          omega
        · simp only [growPool, server]
          rw [listed]
          intro old member
          rcases List.mem_append.mp member with older | new
          · exact Nat.lt_succ_of_lt (below old older)
          · rw [List.mem_singleton.mp new]
            exact Nat.lt_succ_self _
      · intro other inUse
        have older : other ≠ s.mallocs :=
          (below other (List.mem_append_left _ inUse)).ne
        have different : other ≠ node := fun same => outside (same ▸ inUse)
        rw [grown]
        simp only [growPool, server, if_neg older, if_neg different]

end RndvServer

/-! ## What the system holds -/

namespace RndvCall

def pair? : RndvCall → Option (CString × CString)
  | set key value => some (key, value)
  | get _ => none

def pairs (calls : List RndvCall) : List (CString × CString) :=
  calls.filterMap pair?

@[simp]
theorem pairs_append_set (past : List RndvCall) (key value : CString) :
    pairs (past ++ [set key value]) = pairs past ++ [(key, value)] := by
  simp [pairs, pair?]

@[simp]
theorem pairs_append_get (past : List RndvCall) (key : CString) :
    pairs (past ++ [get key]) = pairs past := by
  simp [pairs, pair?]

theorem performAll_append_singleton (past : List RndvCall) (call : RndvCall)
    (s : System) :
    performAll (past ++ [call]) s =
      (performAll past s).bind call.perform := by
  simp [performAll, List.foldlM_append]

end RndvCall

/-- A buffer holds a value, followed by a zero byte if it is shorter than the
first value. -/
structure Holding (buffer : Memory) (value : CString) (valLen : Nat) : Prop where
  bytes : ∀ i < value.length, buffer i = value.memory i
  ends : value.length < valLen → buffer value.length = 0

/-- Every key that was set is cached with the length of its first value, and
its own buffer holds its last one. -/
structure Follows (pairs : List (CString × CString)) (s : System) :
    Prop where
  absent : ∀ key, lastValue key pairs = none → s.lookup key = none
  cached : ∀ key value, lastValue key pairs = some value →
    ∃ node first, s.lookup key = some node ∧
      firstValue key pairs = some first ∧ first.length < maxTestSize ∧
      node.valLen = first.length ∧
      Holding (s.server.buffers node.srvNode) value first.length
  ready : s.server.Ready (s.client.cacheNodes.map CacheNode.srvNode)

private theorem follows_init (remoteBuf : Memory) : Follows []
    (.init remoteBuf) :=
  ⟨fun _ _ => rfl, fun _ _ found => absurd found (by simp [lastValue]),
    RndvServer.ready_init⟩

/-- Different keys have different buffers. -/
theorem Follows.srvNode_ne {pairs : List (CString × CString)}
    (follows : Follows pairs s) {other : CString} {node node' : CacheNode}
    (found : s.lookup key = some node) (found' : s.lookup other = some node')
    (different : key ≠ other) : node.srvNode ≠ node'.srvNode := by
  intro same
  have nodup : (s.client.cacheNodes.map CacheNode.srvNode).Nodup :=
    (List.nodup_append.mp follows.ready.apart).1
  have sameNode : node = node' := List.inj_on_of_nodup_map nodup
    (List.mem_of_find?_eq_some found) (List.mem_of_find?_eq_some found') same
  have isKey : node.key = key := by simpa using List.find?_some found
  have isOther : node'.key = other := by simpa using List.find?_some found'
  exact different (by rw [← isKey, ← isOther, sameNode])

/-! ## `kv_set` -/

/-- The value that is copied into `ctx->remote_buf` is there with its
terminator. -/
theorem memory_copy (remoteBuf : Memory) {i : Nat} (bound : i ≤ value.length) :
    remoteBuf.copy 0 (value.length + 1) value.memory i = value.memory i := by
  rw [Memory.copy_inside _ _ (Nat.zero_le i) (by omega), Nat.sub_zero]

/-- What holds of the other keys after a `kv_set`. -/
theorem Follows.other {pairs : List (CString × CString)} {other old : CString}
    (follows : Follows pairs s)
    (kept : ∀ node, s.lookup other = some node → s'.lookup other = some node ∧
      s'.server.buffers node.srvNode = s.server.buffers node.srvNode)
    (found : lastValue other pairs = some old) :
    ∃ node first, s'.lookup other = some node ∧
      firstValue other (pairs ++ [(key, value)]) = some first ∧
      first.length < maxTestSize ∧ node.valLen = first.length ∧
      Holding (s'.server.buffers node.srvNode) old first.length := by
  obtain ⟨node, first, isNode, isFirst, bound, valLen, holding⟩ :=
    follows.cached other old found
  obtain ⟨isNode', same⟩ := kept node isNode
  refine ⟨node, first, isNode', ?_, bound, valLen, same ▸ holding⟩
  rw [firstValue_append, isFirst]
  rfl

/-- A further `kv_set` of a key. -/
theorem Follows.set_again {pairs : List (CString × CString)} {old : CString}
    (follows : Follows pairs s) (found : lastValue key pairs = some old)
    (small : value.length < maxTestSize) :
    ∃ s', s.kvSet key value = some s' ∧ Follows (pairs ++ [(key, value)]) s' := by
  obtain ⟨node, first, isNode, isFirst, bound, valLen, _⟩ :=
    follows.cached key old found
  let remoteBuf := s.client.remoteBuf.copy 0 (value.length + 1) value.memory
  let after : System := ⟨{ s.client with remoteBuf := remoteBuf },
    s.server.write node.srvNode (value.length + 1) remoteBuf⟩
  have ran : s.kvSet key value = some after := by
    unfold System.kvSet
    rw [isNode]
    exact if_pos small
  have atNode : after.server.buffers node.srvNode =
      (s.server.buffers node.srvNode).copy 0 (value.length + 1) remoteBuf :=
    if_pos rfl
  have written {i : Nat} (inside : i ≤ value.length) :
      after.server.buffers node.srvNode i = value.memory i := by
    rw [atNode, Memory.copy_inside _ _ (Nat.zero_le i) (by omega), Nat.sub_zero]
    exact memory_copy _ inside
  refine ⟨after, ran, ⟨fun other absent => ?_, fun other last isLast => ?_,
    follows.ready.write⟩⟩
  · rw [lastValue_append] at absent
    split at absent
    · exact absurd absent (by simp)
    · exact follows.absent other absent
  · rw [lastValue_append] at isLast
    split at isLast
    · rename_i same
      subst same
      obtain rfl := Option.some.inj isLast
      refine ⟨node, first, isNode, ?_, bound, valLen,
        fun i inside => written inside.le, fun _ => ?_⟩
      · rw [firstValue_append, isFirst]
        rfl
      · rw [written le_rfl, value.memory_length]
    · rename_i different
      refine follows.other (fun other' isOther => ⟨isOther, if_neg ?_⟩) isLast
      exact (follows.srvNode_ne isNode isOther different).symm

/-- The first `kv_set` of a key. -/
theorem Follows.set_new {pairs : List (CString × CString)}
    (follows : Follows pairs s) (absent : lastValue key pairs = none)
    (short : key.length + 1 + sizeofPacket ≤ eagerProtocolLimit)
    (small : value.length < maxTestSize) :
    ∃ s', s.kvSet key value = some s' ∧ Follows (pairs ++ [(key, value)]) s' := by
  have uncached := follows.absent key absent
  have keyLength : key.length % unsignedRange = key.length := by
    refine Nat.mod_eq_of_lt ?_
    simp only [eagerProtocolLimit, sizeofPacket, unsignedRange] at short ⊢
    omega
  have valueLength : value.length % unsignedRange = value.length := by
    refine Nat.mod_eq_of_lt ?_
    simp only [maxTestSize, eagerProtocolLimit, unsignedRange] at small ⊢
    omega
  obtain ⟨node, server, answered, ready, fresh, kept⟩ :=
    follows.ready.setRequest key
  let remoteBuf := (s.client.remoteBuf.copy 0 value.length value.memory).copy
    value.length 1 Memory.zero
  let cacheNode : CacheNode := ⟨node, value.length, key⟩
  let after : System := ⟨⟨remoteBuf, s.client.cacheNodes ++ [cacheNode]⟩,
    server.fillPool.write node value.length remoteBuf⟩
  have ran : s.kvSet key value = some after := by
    unfold System.kvSet
    simp only [uncached, keyLength, valueLength, CString.take_of_length_le le_rfl]
    rw [if_pos short, answered]
    exact if_pos small
  have lookups (other : CString) : after.lookup other =
      (s.lookup other).or (if key = other then some cacheNode else none) := by
    unfold System.lookup
    simp only [after, List.find?_append]
    congr 1
    by_cases same : key = other
    · simp [cacheNode, same]
    · simp [cacheNode, same]
  have written {i : Nat} (inside : i < value.length) :
      after.server.buffers node i = value.memory i := by
    have atNode : after.server.buffers node =
        (server.fillPool.buffers node).copy 0 value.length remoteBuf :=
      if_pos rfl
    rw [atNode, Memory.copy_inside _ _ (Nat.zero_le i) (by omega), Nat.sub_zero]
    simp only [remoteBuf]
    rw [Memory.copy_outside _ _ (Or.inl inside),
      Memory.copy_inside _ _ (Nat.zero_le i) (by omega), Nat.sub_zero]
  refine ⟨after, ran, ⟨fun other missing => ?_, fun other last isLast => ?_, ?_⟩⟩
  · rw [lastValue_append] at missing
    split at missing
    · exact absurd missing (by simp)
    · rename_i different
      rw [lookups, follows.absent other missing, if_neg different]
      rfl
  · rw [lastValue_append] at isLast
    split at isLast
    · rename_i same
      subst same
      obtain rfl := Option.some.inj isLast
      refine ⟨cacheNode, value, ?_, ?_, small, rfl,
        fun i inside => written inside, fun shorter => ?_⟩
      · rw [lookups, uncached, if_pos rfl]
        rfl
      · rw [firstValue_append, firstValue_eq_none absent, if_pos rfl]
        rfl
      · exact absurd shorter (lt_irrefl _)
    · rename_i different
      refine follows.other (fun other' isOther => ⟨?_, ?_⟩) isLast
      · rw [lookups, isOther]
        rfl
      · have inUse : other'.srvNode ∈ s.client.cacheNodes.map CacheNode.srvNode :=
          List.mem_map_of_mem (List.mem_of_find?_eq_some isOther)
        have elsewhere : other'.srvNode ≠ node := fun same =>
          fresh (same ▸ inUse)
        rw [← kept other'.srvNode inUse]
        exact if_neg elsewhere
  · have used : after.client.cacheNodes.map CacheNode.srvNode =
        s.client.cacheNodes.map CacheNode.srvNode ++ [node] := by
      simp [after, cacheNode]
    rw [used]
    exact ready.write

/-! ## `kv_get` -/

/-- The bytes of the latest value are covered: it is shorter than the first
value, or as long, and a zero byte follows in `ctx->remote_buf`. -/
def Covers (remoteBuf : Memory) (first value : CString) : Prop :=
  value.length < first.length ∨
    value.length = first.length ∧ remoteBuf value.length = 0

/-- A `kv_get` of a key that was set returns, and its string is the latest
value exactly if that is covered. -/
theorem Follows.get {pairs : List (CString × CString)}
    (follows : Follows pairs s) (isLast : lastValue key pairs = some value) :
    ∃ first block s', firstValue key pairs = some first ∧
      s.kvGet key = some (block, s') ∧ Follows pairs s' ∧
      ((Memory.ofList block).string? 0 block.length = some value ↔
        Covers s.client.remoteBuf first value) := by
  obtain ⟨node, first, isNode, isFirst, bound, valLen, holding⟩ :=
    follows.cached key value isLast
  let remoteBuf := s.client.remoteBuf.copy 0 first.length
    (s.server.buffers node.srvNode)
  refine ⟨first, remoteBuf.strncpy (first.length + 1),
    { s with client := { s.client with remoteBuf := remoteBuf } }, isFirst, ?_,
    ⟨follows.absent, follows.cached, follows.ready⟩, ?_⟩
  · unfold System.kvGet
    simp only [isNode, valLen]
    exact if_pos bound
  · have read {i : Nat} (inside : i < first.length) :
        remoteBuf i = s.server.buffers node.srvNode i := by
      simp only [remoteBuf]
      rw [Memory.copy_inside _ _ (Nat.zero_le i) (by omega), Nat.sub_zero]
    have left {i : Nat} (outside : first.length ≤ i) :
        remoteBuf i = s.client.remoteBuf i :=
      Memory.copy_outside _ _ (Or.inr (by omega))
    rw [Memory.string?_strncpy]
    constructor
    · rintro ⟨short, agree⟩
      rcases Nat.lt_succ_iff_lt_or_eq.mp short with shorter | same
      · exact Or.inl shorter
      · refine Or.inr ⟨same, ?_⟩
        rw [← left same.ge, agree _ le_rfl, value.memory_length]
    · intro covers
      have bytes {i : Nat} (inside : i < value.length)
          (reads : i < first.length) : remoteBuf i = value.memory i := by
        rw [read reads, holding.bytes i inside]
      rcases covers with shorter | ⟨same, zero⟩
      · refine ⟨by omega, fun i upTo => ?_⟩
        rcases upTo.lt_or_eq with inside | rfl
        · exact bytes inside (by omega)
        · rw [read shorter, holding.ends shorter, value.memory_length]
      · refine ⟨by omega, fun i upTo => ?_⟩
        rcases upTo.lt_or_eq with inside | rfl
        · exact bytes inside (by omega)
        · rw [left same.ge, zero, value.memory_length]

/-! ## Sequences of calls -/

namespace RndvCall

/-- Only keys that were set are read, and the values fit into a buffer. -/
structure Proper (calls : List RndvCall) : Prop where
  reads : ∀ before key after, calls = before ++ .get key :: after →
    lastValue key (pairs before) ≠ none
  small : ∀ pair ∈ pairs calls, pair.2.length < maxTestSize

/-- Every key that is set fits into a `RENDEZVOUS_SET_REQUEST`. -/
def Short (calls : List RndvCall) : Prop :=
  ∀ pair ∈ pairs calls, pair.1.length + 1 + sizeofPacket ≤ eagerProtocolLimit

/-- Every `kv_get` returns the string that was set last. -/
def AllRight (remoteBuf : Memory) (calls : List RndvCall) : Prop :=
  ∀ before key after, calls = before ++ .get key :: after →
    ∀ value, lastValue key (pairs before) = some value →
      ∃ s block s', performAll before (.init remoteBuf) = some s ∧
        s.kvGet key = some (block, s') ∧
        (Memory.ofList block).string? 0 block.length = some value

/-- The keys before every `kv_get` are short and what it reads is covered. -/
def AllCovered (remoteBuf : Memory) (calls : List RndvCall) : Prop :=
  ∀ before key after, calls = before ++ .get key :: after →
    Short before ∧ ∀ first value s, firstValue key (pairs before) = some first →
      lastValue key (pairs before) = some value →
        performAll before (.init remoteBuf) = some s →
          Covers s.client.remoteBuf first value

theorem Proper.of_append {front back : List RndvCall}
    (proper : Proper (front ++ back)) : Proper front :=
  ⟨fun before key after split =>
      proper.reads before key (after ++ back) (by rw [split]; simp),
    fun pair member => proper.small pair (by
      rw [pairs, List.filterMap_append]
      exact List.mem_append_left _ member)⟩

theorem Short.of_append {front back : List RndvCall}
    (short : Short (front ++ back)) : Short front :=
  fun pair member => short pair (by
    rw [pairs, List.filterMap_append]
    exact List.mem_append_left _ member)

/-- Calls with short keys return. -/
theorem exists_performAll (remoteBuf : Memory) {calls : List RndvCall}
    (proper : Proper calls) (short : Short calls) :
    ∃ s, performAll calls (.init remoteBuf) = some s ∧
      Follows (pairs calls) s := by
  induction calls using List.reverseRecOn with
  | nil => exact ⟨_, rfl, follows_init remoteBuf⟩
  | append_singleton past call inductionHypothesis =>
      obtain ⟨s, ran, follows⟩ :=
        inductionHypothesis proper.of_append short.of_append
      rw [performAll_append_singleton, ran, Option.bind_some]
      cases call with
      | set key value =>
          have member : (key, value) ∈ pairs (past ++ [set key value]) := by
            simp
          have small := proper.small (key, value) member
          rw [pairs_append_set]
          cases found : lastValue key (pairs past) with
          | none => exact follows.set_new found (short _ member) small
          | some old => exact follows.set_again found small
      | get key =>
          obtain ⟨value, isLast⟩ := Option.ne_none_iff_exists'.mp
            (proper.reads past key [] rfl)
          obtain ⟨first, block, s', _, returned, follows', _⟩ :=
            follows.get isLast
          exact ⟨s', by simp [perform, returned], by simpa using follows'⟩

/-- A key that is too long for its request stops the client. -/
private theorem short_of_performAll (remoteBuf : Memory) {calls : List RndvCall}
    (proper : Proper calls)
    (keys : ∀ pair ∈ pairs calls, pair.1.length < unsignedRange) {s : System}
    (ran : performAll calls (.init remoteBuf) = some s) : Short calls := by
  induction calls using List.reverseRecOn generalizing s with
  | nil => exact fun pair member => absurd member (by simp [pairs])
  | append_singleton past call inductionHypothesis =>
      rw [performAll_append_singleton] at ran
      obtain ⟨t, earlier, last⟩ := Option.bind_eq_some_iff.mp ran
      have short : Short past := by
        refine inductionHypothesis proper.of_append (fun pair member => ?_) earlier
        refine keys pair ?_
        rw [pairs, List.filterMap_append]
        exact List.mem_append_left _ member
      obtain ⟨t', ran', follows⟩ :=
        exists_performAll remoteBuf proper.of_append short
      obtain rfl := Option.some.inj (ran'.symm.trans earlier)
      cases call with
      | get key =>
          unfold Short
          rw [pairs_append_get]
          exact short
      | set key value =>
          unfold Short at short ⊢
          rw [pairs_append_set] at keys ⊢
          intro pair member
          rcases List.mem_append.mp member with old | new
          · exact short pair old
          · rw [List.mem_singleton.mp new]
            cases found : lastValue key (pairs past) with
            | some old => exact short (key, old) (mem_of_lastValue found)
            | none =>
                have keyLength : key.length % unsignedRange = key.length :=
                  Nat.mod_eq_of_lt (keys (key, value) (by simp))
                have returned : t'.kvSet key value = some s := last
                unfold System.kvSet at returned
                simp only [follows.absent key found, keyLength] at returned
                split at returned
                · assumption
                · exact absurd returned (by simp)

/-- Every `kv_get` of a sequence returns the value set last exactly if the
keys before it are short and the value is covered. -/
theorem rendezvous_right_iff (remoteBuf : Memory) {calls : List RndvCall}
    (proper : Proper calls) :
    (AllCovered remoteBuf calls → AllRight remoteBuf calls) ∧
    ((∀ pair ∈ pairs calls, pair.1.length < unsignedRange) →
      AllRight remoteBuf calls → AllCovered remoteBuf calls) := by
  constructor
  · intro covered before key after split value isLast
    have earlier : Proper before := by
      rw [split] at proper
      exact proper.of_append
    obtain ⟨short, covers⟩ := covered before key after split
    obtain ⟨s, ran, follows⟩ := exists_performAll remoteBuf earlier short
    obtain ⟨first, block, s', isFirst, returned, _, right⟩ := follows.get isLast
    exact ⟨s, block, s', ran, returned,
      right.mpr (covers first value s isFirst isLast ran)⟩
  · intro keys right before key after split
    have earlier : Proper before := by
      rw [split] at proper
      exact proper.of_append
    obtain ⟨value, isLast⟩ := Option.ne_none_iff_exists'.mp
      (proper.reads before key after split)
    obtain ⟨s, block, s', ran, returned, isString⟩ :=
      right before key after split value isLast
    have short : Short before := by
      refine short_of_performAll remoteBuf earlier (fun pair member => ?_) ran
      refine keys pair ?_
      rw [split, pairs, List.filterMap_append]
      exact List.mem_append_left _ member
    refine ⟨short, fun first other t isFirst isOther ran' => ?_⟩
    obtain rfl := Option.some.inj (isLast.symm.trans isOther)
    obtain rfl := Option.some.inj (ran.symm.trans ran')
    obtain ⟨t, ran', follows⟩ := exists_performAll remoteBuf earlier short
    obtain rfl := Option.some.inj (ran.symm.trans ran')
    obtain ⟨first', block', t, isFirst', returned', _, decides⟩ :=
      follows.get isLast
    obtain rfl := Option.some.inj (isFirst.symm.trans isFirst')
    obtain ⟨rfl, _⟩ := Prod.mk.inj (Option.some.inj (returned.symm.trans returned'))
    exact decides.mp isString

/-! ## A value that outgrows the first one -/

def letters (count : Nat) (c : UInt8) (h : c ≠ 0) : CString :=
  CString.replicate count c h

theorem letter_ne_zero : (97 : UInt8) ≠ 0 := by decide

def oneKey : CString := letters 1 97 letter_ne_zero

/-- The second value is one character longer. -/
def outgrowing : List RndvCall :=
  [.set oneKey (letters 1 120 (by decide)),
    .set oneKey (letters 2 121 (by decide)), .get oneKey]

private theorem outgrowing_reads (before : List RndvCall) (key : CString)
    (after : List RndvCall) (split : outgrowing = before ++ .get key :: after) :
    before = outgrowing.take 2 ∧ key = oneKey := by
  rcases before with _ | ⟨first, _ | ⟨second, _ | ⟨third, before⟩⟩⟩
  · exact absurd (List.cons.inj split).1 (by simp)
  · exact absurd (List.cons.inj (List.cons.inj split).2).1 (by simp)
  · obtain ⟨rfl, later⟩ := List.cons.inj split
    obtain ⟨rfl, last⟩ := List.cons.inj later
    exact ⟨rfl, (RndvCall.get.inj (List.cons.inj last).1).symm⟩
  · exact absurd (congrArg List.length split) (by simp [outgrowing])

private theorem outgrowing_proper : Proper outgrowing := by
  refine ⟨fun before key after split => ?_, by decide⟩
  obtain ⟨rfl, rfl⟩ := outgrowing_reads before key after split
  decide

theorem rendezvous_right_iff_outgrowing :
    (AllCovered (fun _ => 123) outgrowing →
      AllRight (fun _ => 123) outgrowing) ∧
    ((∀ pair ∈ pairs outgrowing, pair.1.length < unsignedRange) →
      AllRight (fun _ => 123) outgrowing →
        AllCovered (fun _ => 123) outgrowing) :=
  rendezvous_right_iff _ outgrowing_proper

/-- The `kv_get` returns one character of the value and the character that
`ctx->remote_buf` holds behind it. -/
theorem rendezvous_right_fails :
    Proper outgrowing ∧ ¬ AllRight (fun _ => 123) outgrowing := by
  refine ⟨outgrowing_proper, fun right => ?_⟩
  obtain ⟨s, block, s', ran, returned, isString⟩ :=
    right (outgrowing.take 2) oneKey [] rfl _ rfl
  have computed : ((performAll (outgrowing.take 2) (.init fun _ => 123)).bind
      fun s => (s.kvGet oneKey).map Prod.fst) = some [121, 121] := by
    decide +kernel
  rw [ran, Option.bind_some, returned] at computed
  obtain rfl := Option.some.inj computed
  exact absurd isString (by decide)

end RndvCall

end RdmaKv.Ex3
