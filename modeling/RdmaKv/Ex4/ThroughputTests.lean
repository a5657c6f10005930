import RdmaKv.Ex4.DkvRuns
import RdmaKv.Ex4.Workload

/-!
# Reading one's own writes

A `dkv_get` returns what the latest `dkv_set` of its key set, if no call in
between fills the cache with another key.  `run_throughput_tests` gets every
key right after it has set it, so every one of its `dkv_get`s is right: what
its commented assertion compares is equal.
-/

namespace RdmaKv

open ByteMemory Interaction

namespace Ledger

variable {ledger : Ledger} {id valueLength : Nat} {key : CString}
  {value : Memory}

/-- If the latest value is in a buffer, the buffer is cached with its
length. -/
def Fresh (id : Nat) (key : CString) (valueLength : Nat) (ledger : Ledger) :
    Prop :=
  ledger.inBuffer id key = true →
    ledger.isCached key = true ∧ ledger.cachedLength = valueLength

private theorem cachedLength_write (value : Memory) (length : Nat) :
    (ledger.write id key value length).2.cachedLength =
      ledger.cachedLength := by
  unfold write
  split <;> rfl

private theorem isCached_congr {other : Ledger}
    (same : other.cached = ledger.cached)
    (key : CString) : other.isCached key = ledger.isCached key := by
  unfold isCached
  rw [same]

private theorem isCached_cache (id : Nat) (key : CString) (length : Nat) :
    (ledger.cache id key length).isCached key = true :=
  isCached_iff.mpr ⟨id, rfl⟩

/-- A `kv_set` leaves the value inline, or the buffer cached with its
length. -/
private theorem fresh_set {ledger' : Ledger}
    (computed : ledger.set 1 id key value valueLength = some (0, ledger')) :
    ledger'.Fresh id key valueLength := by
  unfold set at computed
  simp only at computed
  split at computed
  · split at computed
    · split at computed
      · exact absurd computed (by simp)
      · obtain ⟨_, rfl⟩ := Prod.mk.inj (Option.some.inj computed)
        intro here
        simp [inBuffer] at here
    · exact absurd computed (by simp)
  · split at computed
    · rename_i hit
      obtain rfl := (Prod.ext_iff.mp (Option.some.inj computed)).2
      intro _
      rw [cachedLength_write, isCached_congr (cached_write _ _)]
      exact ⟨hit, rfl⟩
    · split at computed
      · obtain rfl := (Prod.ext_iff.mp (Option.some.inj computed)).2
        intro _
        rw [cachedLength_write, isCached_congr (cached_write _ _)]
        exact ⟨isCached_cache _ _ _, rfl⟩
      · exact absurd computed (by simp)

/-- A `kv_get` of the key leaves the ledger alone: it hits the cache, or the
value is not in a buffer. -/
theorem Fresh.get {latest : Nat → CString → Option (Memory × Nat)}
    (fresh : ledger.Fresh id key valueLength)
    (known : ledger.Shows 1 latest)
    (regular : Regular 1 ledger (.get id key)) :
    (ledger.get id key).2 = ledger := by
  obtain ⟨short, inside, _⟩ := regular
  have intact := known.intact id
  cases hit : ledger.isCached key with
  | true => rw [get_hit short intact hit inside]
  | false =>
      rw [get_miss short intact hit]
      cases holds : ledger.held id key with
      | none => rw [fetch_missing holds]
      | some kept =>
          cases kept with
          | inline bytes => rw [fetch_inline holds]
          | buffer sent contents =>
              have cached := (fresh (by simp [inBuffer, holds])).1
              exact absurd (cached.symm.trans hit) (by simp)

/-- An eager `kv_set` of another key does not touch the cache. -/
theorem Fresh.set_other {server otherLength : Nat} {other : CString}
    {otherValue : Memory} {ledger' : Ledger}
    (fresh : ledger.Fresh id key valueLength) (different : other ≠ key)
    (isEager : IsEager 1 other otherLength)
    (computed : ledger.set 1 server other otherValue otherLength =
      some (0, ledger')) :
    ledger'.Fresh id key valueLength := by
  unfold set at computed
  simp only [if_pos isEager] at computed
  split at computed
  · split at computed
    · exact absurd computed (by simp)
    · obtain ⟨_, rfl⟩ := Prod.mk.inj (Option.some.inj computed)
      intro here
      have elsewhere : ¬ (id = server ∧ key = other) :=
        fun both => different both.2.symm
      have before : ledger.inBuffer id key = true := by
        simpa [inBuffer, held_put_other _ elsewhere, held_invalidate]
          using here
      obtain ⟨hit, length⟩ := fresh before
      have kept : ledger.invalidate other = ledger := by
        unfold invalidate
        refine if_neg fun hitOther => different ?_
        obtain ⟨_, cached⟩ := isCached_iff.mp hit
        obtain ⟨_, cachedOther⟩ := isCached_iff.mp hitOther
        exact (Prod.mk.inj (Option.some.inj
          (cachedOther.symm.trans cached))).2
      rw [kept]
      exact ⟨hit, length⟩
  · exact absurd computed (by simp)

end Ledger

namespace KvClient

variable {numServers : Nat}

/-! ## Calls that keep the cached length -/

/-- A `dkv_get` of the key, or a `dkv_set` of another key that uses the eager
protocol. -/
def DkvCall.Quiet (key : CString) : DkvCall → Prop
  | .set other value =>
      other ≠ key ∧ Ledger.IsEager 1 other (value.length % unsignedRange)
  | .get other => other = key

private theorem ledgerAfter_append_singleton (numServers : Nat)
    (calls : List DkvCall) (call : DkvCall) :
    ledgerAfter numServers (calls ++ [call]) =
      (call.toCall numServers).after (ledgerAfter numServers calls) := by
  simp [ledgerAfter, Ledger.afterAll]

/-- After a `dkv_set` and quiet calls the buffer is cached. -/
private theorem fresh_ledgerAfter (numServers : Nat)
    {calls front middle back : List DkvCall} {key value : CString}
    (accepted : ∀ call ∈ calls, call.Accepted)
    (split : calls = front ++ .set key value :: middle ++ back)
    (quiet : ∀ call ∈ middle, call.Quiet key) :
    (ledgerAfter numServers (front ++ .set key value :: middle)).Fresh
      (selectServer numServers key) key (value.length % unsignedRange) := by
  induction middle using List.reverseRecOn generalizing back with
  | nil =>
      have whole : calls = front ++ .set key value :: back := by
        simpa using split
      have known := shows_ledgerAfter numServers accepted whole
      have regular := regular_calls numServers accepted whole
      obtain ⟨ledger', computed, _⟩ := known.set regular.accepted le_rfl
        regular.inside regular.usable
      rw [ledgerAfter_append_singleton]
      simp only [DkvCall.toCall, Call.after, computed]
      exact Ledger.fresh_set computed
  | append_singleton middle call inductionHypothesis =>
      have whole : calls = (front ++ .set key value :: middle) ++
          call :: back := by
        simpa using split
      have fresh := inductionHypothesis whole
        fun other member => quiet other (List.mem_append_left _ member)
      have known := shows_ledgerAfter numServers accepted whole
      have regular := regular_calls numServers accepted whole
      have last := quiet call (by simp)
      rw [← List.cons_append, ← List.append_assoc,
        ledgerAfter_append_singleton]
      cases call with
      | set other otherValue =>
          obtain ⟨different, isEager⟩ := last
          obtain ⟨ledger', computed, _⟩ := known.set regular.accepted le_rfl
            regular.inside regular.usable
          simp only [DkvCall.toCall, Call.after, computed]
          exact fresh.set_other different isEager computed
      | get other =>
          obtain rfl : other = key := last
          simp only [DkvCall.toCall, Call.after]
          rw [fresh.get known regular]
          exact fresh

/-! ## The calls that succeed -/

def SetsSucceed (calls : List DkvCall) (results : List Returned) : Prop :=
  ∀ front key value back, calls = front ++ .set key value :: back →
    results[front.length]? = some (.set 0)

/-- A `dkv_get` that follows a `dkv_set` of its key and quiet calls returned
the value. -/
def ReadsOwnWrites (calls : List DkvCall) (results : List Returned) : Prop :=
  ∀ front key value middle back,
    calls = front ++ .set key value :: middle ++ .get key :: back →
      (∀ call ∈ middle, call.Quiet key) →
        ∃ result, results[front.length + 1 + middle.length]? =
            some (.get result) ∧ result.IsString value

private theorem latestValue_quiet {front middle : List DkvCall}
    {key value : CString}
    (quiet : ∀ call ∈ middle, call.Quiet key) :
    latestValue key (front ++ .set key value :: middle) = some value := by
  induction middle using List.reverseRecOn with
  | nil => simp [latestValue]
  | append_singleton middle call inductionHypothesis =>
      have before := inductionHypothesis fun other member =>
        quiet other (List.mem_append_left _ member)
      have last := quiet call (by simp)
      rw [← List.cons_append, ← List.append_assoc]
      unfold latestValue at before ⊢
      rw [List.foldl_append, before]
      cases call with
      | set other otherValue => simp [last.1]
      | get other => rfl

private theorem setsSucceed_of_returned {calls : List DkvCall}
    {results : List Returned}
    (accepted : ∀ call ∈ calls, call.Accepted)
    (returned : AllReturn (DkvCall.toCall numServers) Ledger.init calls
      results) :
    SetsSucceed calls results := by
  intro front key value back split
  have known := shows_ledgerAfter numServers accepted split
  have regular := regular_calls numServers accepted split
  obtain ⟨ledger', computed, _⟩ := known.set regular.accepted le_rfl
    regular.inside regular.usable
  obtain ⟨answer, inside, returns⟩ :=
    returned front (.set key value) back split
  cases answer with
  | get result => exact returns.elim
  | set ret =>
      obtain ⟨other, same⟩ := returns
      have equal := Option.some.inj (same.symm.trans computed)
      rw [inside, (Prod.mk.inj equal).1]

private theorem readsOwnWrites_of_returned {calls : List DkvCall}
    {results : List Returned}
    (accepted : ∀ call ∈ calls, call.Accepted)
    (returned : AllReturn (DkvCall.toCall numServers) Ledger.init calls
      results) :
    ReadsOwnWrites calls results := by
  intro front key value middle back split quiet
  have latest : latestValue key (front ++ .set key value :: middle) =
      some value := latestValue_quiet quiet
  obtain ⟨result, computed, right⟩ :=
    get_isString_iff numServers accepted split latest
  have fresh := fresh_ledgerAfter numServers accepted split quiet
  have top : maxTestSize < unsignedRange := by decide
  have bound : value.length + 2 ≤ maxTestSize :=
    (accepted (.set key value) (by rw [split]; simp)).2.2
  have covers : Covers (ledgerAfter numServers
      (front ++ .set key value :: middle)) (selectServer numServers key) key
        value := by
    intro here
    obtain ⟨hit, length⟩ := fresh here
    rw [if_pos hit, length, Nat.mod_eq_of_lt (by omega)]
  obtain ⟨answer, inside, returns⟩ := returned _ (.get key) back split
  have position : (front ++ .set key value :: middle).length =
      front.length + 1 + middle.length := by
    simp
    omega
  rw [position] at inside
  cases answer with
  | set ret => exact returns.elim
  | get other =>
      obtain rfl : other = result := returns result computed
      exact ⟨_, inside, right.mpr covers⟩

/-- Every run of a client ends, unless a step of a server fails; then every
`dkv_set` has succeeded, and every `dkv_get` that follows a `dkv_set` of its
key and quiet calls has read that value. -/
theorem own_writes_read {regMr : Nat → Nat → Option IbvMr} {c : Cluster}
    {calls : List DkvCall} (positive : 0 < numServers)
    (small : numServers < unsignedRange)
    (distinct : ∀ id, DistinctMrs (regMr id))
    (initial : Cluster.Initial regMr c)
    (accepted : ∀ call ∈ calls, call.Accepted) (buf : Conn → Memory) :
    Finishes (Cluster.environment regMr) (Cluster.Halted regMr)
      (GetsMissing calls)
      (fun result => SetsSucceed calls result.1 ∧
        ReadsOwnWrites calls result.1)
      (runCalls (DkvCall.perform numServers) calls (Client.init buf), c) :=
  Achieves.finishes distinct initial
    (wp_mono (fun _ _ returned =>
        ⟨setsSucceed_of_returned accepted returned,
          readsOwnWrites_of_returned accepted returned⟩)
      (dkv_achieves positive small accepted buf))

/-- A buffer that grows through the cache is read back. -/
theorem own_writes_read_growing :
    let calls := [.set Sample.firstKey (Sample.letters 5000),
      .set Sample.firstKey (Sample.letters 5002), .get Sample.firstKey]
    Finishes (Cluster.environment Sample.mr) (Cluster.Halted Sample.mr)
      (GetsMissing calls)
      (fun result => SetsSucceed calls result.1 ∧
        ReadsOwnWrites calls result.1)
      (runCalls (DkvCall.perform 1) calls Sample.client, Sample.cluster) :=
  own_writes_read (by decide) (by decide) Sample.mr_distinct
    Sample.cluster_initial
    (fun call member => by
      simp only [List.mem_cons, List.not_mem_nil, or_false] at member
      rcases member with rfl | rfl | rfl
      · exact ⟨by decide, by decide, by rw [Sample.length_letters]; decide⟩
      · exact ⟨by decide, by decide, by rw [Sample.length_letters]; decide⟩
      · exact ⟨by decide, by decide⟩) _

/-! ## `run_throughput_tests` -/

def throughputAttempts : Nat := 100

/-- The attempts with one size.  What the calls return is not used, except
that `recv_buffer` is released. -/
def attemptCalls (valueSize : Nat) (value : CString) : List DkvCall :=
  (List.range throughputAttempts).flatMap fun attempt =>
    [.set (testKey valueSize attempt) value, .get (testKey valueSize attempt)]

def runThroughputTests (clock : Nat → Bool) : Option (List DkvCall) :=
  testSizesFrom attemptCalls maxTestSize maxTestSize clock 0 1 Nat.one_pos
    Memory.zero

/-- The calls of a round, one pair for each attempt. -/
private theorem mem_roundsFrom {start rounds : Nat} {call : DkvCall}
    (member : call ∈ roundsFrom attemptCalls start rounds) :
    ∃ round < start + rounds, ∃ attempt < throughputAttempts,
      call = .set (testKey (2 ^ round) attempt) (testValue (2 ^ round)) ∨
        call = .get (testKey (2 ^ round) attempt) := by
  obtain ⟨round, inRange, inside⟩ := List.mem_flatMap.mp member
  obtain ⟨attempt, isAttempt, isCall⟩ := List.mem_flatMap.mp inside
  have bounds := List.mem_range'_1.mp inRange
  exact ⟨round, bounds.2, attempt, List.mem_range.mp isAttempt,
    by simpa using isCall⟩

private theorem roundsFrom_fits {rounds : Nat} (few : rounds ≤ 16) :
    ∀ call ∈ roundsFrom attemptCalls 0 rounds,
      call.key.length < sizeofTestKey ∧ call.Accepted := by
  intro call member
  obtain ⟨round, inRange, attempt, isAttempt, isCall⟩ := mem_roundsFrom member
  have size : 2 ^ round ≤ 2 ^ 15 :=
    Nat.pow_le_pow_right (by decide) (by omega)
  have short : (testKey (2 ^ round) attempt).length < sizeofTestKey :=
    length_testKey (by omega) isAttempt
  have fits : (testKey (2 ^ round) attempt).length + 1 + sizeofPacket ≤
      eagerProtocolLimit := by
    simp only [sizeofTestKey, sizeofPacket, eagerProtocolLimit] at short ⊢
    omega
  rcases isCall with rfl | rfl
  · refine ⟨short, testKey_ne_empty _ _, fits, ?_⟩
    simp only [testValue, CString.length_replicate, maxTestSize,
      eagerProtocolLimit]
    omega
  · exact ⟨short, testKey_ne_empty _ _, fits⟩

/-! ### Its pairs -/

/-- Every `dkv_get` comes right after a `dkv_set` of its key. -/
def Paired (calls : List DkvCall) : Prop :=
  ∀ front key back, calls = front ++ .get key :: back →
    ∃ before value, front = before ++ [.set key value]

private theorem paired_nil : Paired [] := fun _ _ _ split => absurd split
    (by simp)

private theorem paired_pair (key value : CString) :
    Paired [.set key value, .get key] := by
  intro front other back split
  cases front with
  | nil => exact absurd split (by simp)
  | cons first rest =>
      cases rest with
      | nil =>
          obtain ⟨rfl, same, _⟩ : DkvCall.set key value = first ∧
              DkvCall.get key = .get other ∧ [] = back := by
            simpa using split
          obtain rfl := DkvCall.get.inj same
          exact ⟨[], value, rfl⟩
      | cons second later => exact absurd split (by simp)

theorem Paired.append {first second : List DkvCall} (left : Paired first)
    (right : Paired second) : Paired (first ++ second) := by
  intro front key back split
  rcases List.append_eq_append_iff.mp split with
    ⟨rest, rfl, same⟩ | ⟨rest, rfl, same⟩
  · obtain ⟨before, value, rfl⟩ := right rest key back same
    exact ⟨first ++ before, value, (List.append_assoc _ _ _).symm⟩
  · cases rest with
    | nil =>
        obtain ⟨before, value, isEmpty⟩ := right [] key back same.symm
        exact absurd isEmpty (by simp)
    | cons call rest =>
        obtain ⟨rfl, _⟩ := List.cons.inj same
        exact left front key rest rfl

private theorem paired_flatMap {T : Type} (toCalls : T → List DkvCall)
    (paired : ∀ item, Paired (toCalls item)) (items : List T) :
    Paired (items.flatMap toCalls) := by
  induction items with
  | nil => exact paired_nil
  | cons item items inductionHypothesis =>
      exact (paired item).append inductionHypothesis

private theorem paired_roundsFrom (start rounds : Nat) :
    Paired (roundsFrom attemptCalls start rounds) :=
  paired_flatMap _ (fun _ => paired_flatMap _ (fun _ => paired_pair _ _) _) _

/-- The latest value of a key is the one that was set right before. -/
theorem Paired.latestValue {calls front back : List DkvCall} {key : CString}
    (paired : Paired calls) (split : calls = front ++ .get key :: back) :
    ∃ before value, front = before ++ [.set key value] ∧
      latestValue key front = some value := by
  obtain ⟨before, value, rfl⟩ := paired front key back split
  exact ⟨before, value, rfl,
    latestValue_quiet (fun _ inside => absurd inside List.not_mem_nil)⟩

/-- `run_throughput_tests` goes through the powers of two up to the first
failing call of `gettimeofday`, never reads past `send_buffer` or writes past
`key`, and in every run it ends, unless a step of a server fails.  Then every
`dkv_set` has succeeded, and every `dkv_get` has returned the value that was
set right before it. -/
theorem throughput_tests_right {regMr : Nat → Nat → Option IbvMr}
    {c : Cluster} (clock : Nat → Bool) (positive : 0 < numServers)
    (small : numServers < unsignedRange)
    (distinct : ∀ id, DistinctMrs (regMr id))
    (initial : Cluster.Initial regMr c) (buf : Conn → Memory) :
    ∃ rounds ≤ 16,
      runThroughputTests clock = some (roundsFrom attemptCalls 0 rounds) ∧
      StopsAfter clock 16 0 rounds ∧
      (∀ call ∈ roundsFrom attemptCalls 0 rounds,
        call.key.length < sizeofTestKey) ∧
      Finishes (Cluster.environment regMr) (Cluster.Halted regMr) False
        (fun result => SetsSucceed (roundsFrom attemptCalls 0 rounds) result.1 ∧
          AllRight (roundsFrom attemptCalls 0 rounds) result.1)
        (runCalls (DkvCall.perform numServers)
          (roundsFrom attemptCalls 0 rounds) (Client.init buf), c) := by
  have below : ∀ round < 16, 2 ^ round < maxTestSize := by
    decide
  have top : maxTestSize ≤ 2 ^ 16 := by
    decide
  obtain ⟨rounds, few, computed, reason⟩ :=
    testSizesFrom_one attemptCalls clock le_rfl below top
  have fits := roundsFrom_fits few
  have paired := paired_roundsFrom 0 rounds
  have accepted := fun call member => (fits call member).2
  have never : ¬ GetsMissing (roundsFrom attemptCalls 0 rounds) := by
    rintro ⟨front, key, back, split, missing⟩
    obtain ⟨before, value, _, latest⟩ := paired.latestValue split
    exact absurd (missing.symm.trans latest) (by simp)
  refine ⟨rounds, few, computed, reason,
    fun call member => (fits call member).1, ?_⟩
  · have achieved := dkv_achieves positive small accepted buf
    rw [eq_false never] at achieved
    refine Achieves.finishes distinct initial
      (wp_mono (fun _ _ returned => ⟨?_, ?_⟩) achieved)
    · exact setsSucceed_of_returned accepted returned
    · intro front key back value split latest
      have reads := readsOwnWrites_of_returned accepted returned
      obtain ⟨before, newest, rfl, same⟩ := paired.latestValue split
      obtain rfl := Option.some.inj (same.symm.trans latest)
      have whole : roundsFrom attemptCalls 0 rounds =
          before ++ .set key newest :: [] ++ .get key :: back := by
        simpa using split
      simpa using reads before key newest [] back whole
        fun _ inside => absurd inside List.not_mem_nil

/-- The clock fails in the third round. -/
theorem throughput_tests_right_clock :
    ∃ rounds ≤ 16,
      runThroughputTests (fun n => decide (n < 5)) =
        some (roundsFrom attemptCalls 0 rounds) ∧
      StopsAfter (fun n => decide (n < 5)) 16 0 rounds ∧
      (∀ call ∈ roundsFrom attemptCalls 0 rounds,
        call.key.length < sizeofTestKey) ∧
      Finishes (Cluster.environment Sample.mr) (Cluster.Halted Sample.mr)
        False
        (fun result => SetsSucceed (roundsFrom attemptCalls 0 rounds) result.1 ∧
          AllRight (roundsFrom attemptCalls 0 rounds) result.1)
        (runCalls (DkvCall.perform 3) (roundsFrom attemptCalls 0 rounds)
          Sample.client, Sample.cluster) :=
  throughput_tests_right _ (by decide) (by decide) Sample.mr_distinct
    Sample.cluster_initial _

end KvClient

end RdmaKv
