import RdmaKv.Ex4.Latest
import RdmaKv.Ex4.Progress
import RdmaKv.Ex4.Schedule

/-!
# What `dkv_get` returns

Along every run of `dkv_set` and `dkv_get`, whatever path served the calls in
between, a `dkv_get` returns the latest value of its key exactly if the length
with which it reads a buffer covers that value.
-/

namespace RdmaKv

open ByteMemory Interaction

/-! ## Strings in blocks -/

/-- `kv_get` returned 0 and a block that holds the C string. -/
def GetResult.IsString (result : GetResult) (value : CString) : Prop :=
  result.ret = 0 ∧ ∃ block, result.value = some block ∧
    (Memory.ofList block).string? 0 block.length = some value

private theorem isString_slice {memory : Memory} {size : Nat}
    {stored : Option Nat}
    {value : CString} :
    GetResult.IsString ⟨0, some (memory.slice 0 size), stored⟩ value ↔
      value.length < size ∧ ∀ i ≤ value.length, memory i = value.memory i := by
  rw [← Memory.string?_slice]
  constructor
  · rintro ⟨_, block, isBlock, isValue⟩
    obtain rfl := Option.some.inj isBlock
    exact isValue
  · intro isValue
    exact ⟨rfl, _, rfl, isValue⟩

/-- A block that was cleared and holds the first `length` bytes of a buffer. -/
private theorem isString_block {contents : Memory} {size length : Nat}
    {stored : Option Nat} {value : CString}
    (agree : ∀ i ≤ value.length, contents i = value.memory i)
    (covers : length < size → length + 1 = size)
    (inside : length ≤ size) :
    GetResult.IsString ⟨0, some ((Memory.zero.copy 0 length contents).slice 0
        size), stored⟩ value ↔ value.length < size := by
  rw [isString_slice, and_iff_left_iff_imp]
  intro short i bound
  by_cases copied : i < length
  · rw [Memory.copy_inside _ _ (Nat.zero_le i) (by omega), Nat.sub_zero]
    exact agree i bound
  · have last : i = value.length := by
      omega
    rw [Memory.copy_outside _ _ (by omega), last, value.memory_length]
    rfl

private theorem isString_inline (value : CString) (stored : Option Nat) :
    GetResult.IsString ⟨0, some (value.memory.slice 0 value.length ++ [0]),
      stored⟩ value := by
  have block : value.memory.slice 0 value.length ++ [0] =
      value.memory.slice 0 (value.length + 1) := by
    simp [Memory.slice, List.range_succ]
  rw [block, isString_slice]
  exact ⟨Nat.lt_succ_self _, fun i _ => rfl⟩

namespace KvClient

variable {numServers : Nat}

/-! ## Sequences of calls -/

/-- Nonempty keys that `kv_get` accepts, and values that leave two bytes of a
buffer. -/
def DkvCall.Accepted : DkvCall → Prop
  | .set key value =>
      key ≠ CString.empty ∧
        key.length + 1 + sizeofPacket ≤ eagerProtocolLimit ∧
        value.length + 2 ≤ maxTestSize
  | .get key =>
      key ≠ CString.empty ∧
        key.length + 1 + sizeofPacket ≤ eagerProtocolLimit

def latestValue (key : CString) (calls : List DkvCall) : Option CString :=
  calls.foldl (fun before call =>
    match call with
    | .set other value => if other = key then some value else before
    | .get _ => before) none

def ledgerAfter (numServers : Nat) (calls : List DkvCall) : Ledger :=
  Ledger.init.afterAll (calls.map (DkvCall.toCall numServers))

/-- Every `dkv_get` of a key that was set returned the latest value. -/
def AllRight (calls : List DkvCall) (results : List Returned) : Prop :=
  ∀ front key back value, calls = front ++ .get key :: back →
    latestValue key front = some value →
      ∃ result, results[front.length]? = some (.get result) ∧
        result.IsString value

/-- If the latest value is in a buffer, the length with which `kv_get` reads
the buffer covers it: the cached one, or else the one that was sent with the
latest rendezvous request. -/
abbrev Covers (ledger : Ledger) (id : Nat) (key value : CString) : Prop :=
  ledger.inBuffer id key = true →
    value.length ≤ if ledger.isCached key then ledger.cachedLength
      else ledger.sentLength id key

/-- The length covers the latest value whenever `dkv_get` is called. -/
def AllCovered (numServers : Nat) (calls : List DkvCall) : Prop :=
  ∀ front key back value, calls = front ++ .get key :: back →
    latestValue key front = some value →
      Covers (ledgerAfter numServers front) (selectServer numServers key) key
        value

/-- Some `dkv_get` is of a key that was not set before. -/
def GetsMissing (calls : List DkvCall) : Prop :=
  ∃ front key back, calls = front ++ .get key :: back ∧
    latestValue key front = none

private theorem latest_map (numServers : Nat) (key : CString)
    (calls : List DkvCall) :
    Call.latest (selectServer numServers key) key
        (calls.map (DkvCall.toCall numServers)) =
      (latestValue key calls).map fun value =>
        (value.memory, value.length % unsignedRange) := by
  induction calls using List.reverseRecOn with
  | nil => rfl
  | append_singleton calls call inductionHypothesis =>
      rw [List.map_append, List.map_singleton, Call.latest_append_singleton,
        inductionHypothesis]
      cases call with
      | set other value =>
          by_cases same : other = key
          · subst same
            simp [latestValue, DkvCall.toCall, Call.record]
          · simp [latestValue, DkvCall.toCall, Call.record, same]
      | get other => simp [latestValue, DkvCall.toCall, Call.record]

/-- After accepted calls the lengths leave one byte of a buffer. -/
private theorem bounded_ledgerAfter {calls : List DkvCall}
    (accepted : ∀ call ∈ calls, call.Accepted) :
    (ledgerAfter numServers calls).Bounded (maxTestSize - 1) := by
  refine (Ledger.bounded_init _).afterAll fun call member => ?_
  obtain ⟨mapped, inside, rfl⟩ := List.mem_map.mp member
  cases mapped with
  | set key value =>
      have short := (accepted _ inside).2.2
      have small := Nat.mod_le value.length unsignedRange
      simp only [DkvCall.toCall, Call.SetsAtMost]
      omega
  | get key => trivial

private theorem routed_ledgerAfter (numServers : Nat) (calls : List DkvCall) :
    (ledgerAfter numServers calls).Routed (selectServer numServers) := by
  refine Ledger.routed_init.afterAll fun call member => ?_
  obtain ⟨mapped, _, rfl⟩ := List.mem_map.mp member
  cases mapped <;> rfl

/-- Accepted calls stay in bounds. -/
theorem regular_calls (numServers : Nat) {calls front back : List DkvCall}
    {call : DkvCall} (accepted : ∀ call ∈ calls, call.Accepted)
    (split : calls = front ++ call :: back) :
    Ledger.Regular 1 (ledgerAfter numServers front)
      (call.toCall numServers) := by
  have bounded : (ledgerAfter numServers front).Bounded (maxTestSize - 1) :=
    bounded_ledgerAfter fun other member =>
      accepted other (by rw [split]; exact List.mem_append_left _ member)
  have routed := routed_ledgerAfter numServers front
  have here := accepted call (by rw [split]; simp)
  have top : maxTestSize + 1 < unsignedRange := by
    decide
  have positive : 0 < maxTestSize := by
    decide
  cases call with
  | set key value =>
      obtain ⟨nonempty, short, small⟩ := here
      have length := Nat.mod_le value.length unsignedRange
      have fits :
          (value.length % unsignedRange + 1) % unsignedRange ≤ maxTestSize :=
        (Nat.mod_le _ _).trans (by omega)
      refine ⟨⟨rfl, short, by omega⟩, Or.inr ?_, routed.usable nonempty⟩
      simp only [ite_self]
      exact fits
  | get key =>
      obtain ⟨nonempty, short⟩ := here
      refine ⟨short, ?_, routed.usable nonempty⟩
      have cached := bounded.cachedLength
      have sent := bounded.sentLength (selectServer numServers key) key
      simp only [DkvCall.toCall, Call.InBounds]
      split
      · rw [Nat.mod_eq_of_lt (by omega)]
        omega
      · exact (Nat.mod_le _ _).trans (by omega)

/-! ## One `dkv_get` -/

private theorem latestValue_mem {key value : CString} {calls : List DkvCall}
    (found : latestValue key calls = some value) :
    DkvCall.set key value ∈ calls := by
  induction calls using List.reverseRecOn with
  | nil => exact absurd found (by simp [latestValue])
  | append_singleton calls call inductionHypothesis =>
      unfold latestValue at found
      rw [List.foldl_append] at found
      cases call with
      | set other newest =>
          simp only [List.foldl_cons, List.foldl_nil] at found
          split at found
          · rename_i same
            obtain rfl := Option.some.inj found
            rw [same]
            exact List.mem_append_right _ (by simp)
          · exact List.mem_append_left _ (inductionHypothesis found)
      | get other => exact List.mem_append_left _ (inductionHypothesis found)

theorem shows_ledgerAfter (numServers : Nat) {calls front back : List DkvCall}
    (accepted : ∀ call ∈ calls, call.Accepted)
    (split : calls = front ++ back) :
    (ledgerAfter numServers front).Shows 1 fun id key =>
      Call.latest id key (front.map (DkvCall.toCall numServers)) :=
  Ledger.shows_afterAll_map le_rfl (regular_calls numServers accepted) split

/-- A `dkv_get` returns the latest value exactly if the length covers it. -/
theorem get_isString_iff (numServers : Nat) {calls front back : List DkvCall}
    {key value : CString}
    (accepted : ∀ call ∈ calls, call.Accepted)
    (split : calls = front ++ .get key :: back)
    (latest : latestValue key front = some value) :
    ∃ result, ((ledgerAfter numServers front).get
        (selectServer numServers key) key).1 = some result ∧
      (result.IsString value ↔ Covers (ledgerAfter numServers front)
        (selectServer numServers key) key value) := by
  have known := shows_ledgerAfter numServers accepted split
  have regular := regular_calls numServers accepted split
  have member : DkvCall.set key value ∈ calls := by
    rw [split]
    exact List.mem_append_left _ (latestValue_mem latest)
  have top : maxTestSize < unsignedRange := by decide
  have positive : 0 < maxTestSize := by decide
  have small : value.length < unsignedRange := by
    have bound := (accepted _ member).2.2
    omega
  have isLatest := latest_map numServers key front
  rw [latest, Option.map_some, Nat.mod_eq_of_lt small] at isLatest
  have bounded : (ledgerAfter numServers front).Bounded (maxTestSize - 1) :=
    bounded_ledgerAfter fun other inside =>
      accepted other (by rw [split]; exact List.mem_append_left _ inside)
  obtain ⟨result, computed, reads⟩ := known.reads regular isLatest
  refine ⟨result, computed, ?_⟩
  cases reads with
  | inline elsewhere miss =>
      exact iff_of_true (isString_inline value _) fun here =>
        absurd (elsewhere.symm.trans here) (by simp)
  | cached here hit agree =>
      have length := bounded.cachedLength
      rw [Nat.mod_eq_of_lt (by omega), isString_block
        (fun i bound => agree i (Nat.lt_succ_of_le bound)) (fun _ => rfl)
        (Nat.le_succ _), Nat.lt_succ_iff]
      simp [Covers, here, hit]
  | fetched here miss agree =>
      have length := bounded.sentLength (selectServer numServers key) key
      rw [Nat.mod_eq_of_lt (by omega), isString_block
        (fun i bound => agree i (Nat.lt_succ_of_le bound))
        (fun less => absurd less (lt_irrefl _)) le_rfl, Nat.lt_succ_iff]
      simp [Covers, here, miss]

/-! ## All of them -/

/-- The results that the ledger gives are right where the lengths cover. -/
private theorem allRight_iff {calls : List DkvCall} {results : List Returned}
    (accepted : ∀ call ∈ calls, call.Accepted)
    (returned : AllReturn (DkvCall.toCall numServers) Ledger.init calls
      results) :
    AllRight calls results ↔ AllCovered numServers calls := by
  refine forall₅_congr fun front key back value split =>
    forall_congr' fun latest => ?_
  obtain ⟨result, computed, right⟩ :=
    get_isString_iff numServers accepted split latest
  obtain ⟨answer, inside, returns⟩ := returned front (.get key) back split
  cases answer with
  | set ret => exact returns.elim
  | get other =>
      obtain rfl : other = result := returns result computed
      rw [← right, inside]
      constructor
      · rintro ⟨same, isSame, isValue⟩
        obtain rfl := Returned.get.inj (Option.some.inj isSame)
        exact isValue
      · exact fun isValue => ⟨_, rfl, isValue⟩

/-- The calls return what the ledger says and leave it as it says.  The client
does not crash, except on a `dkv_get` of a missing key. -/
private theorem dkv_follows {calls : List DkvCall} (positive : 0 < numServers)
    (small : numServers < unsignedRange)
    (accepted : ∀ call ∈ calls, call.Accepted) (buf : Conn → Memory) :
    Achieves False (GetsMissing calls)
      (fun result a =>
        AllReturn (DkvCall.toCall numServers) Ledger.init calls result.1 ∧
          Tracks (ledgerAfter numServers calls) result.2 a)
      (runCalls (DkvCall.perform numServers) calls (Client.init buf))
      Atomic.init := by
  refine achieves_runCalls (DkvCall.toCall numServers)
    (fun ledger call =>
      call.key.length + 1 + sizeofPacket ≤ eagerProtocolLimit ∧
        (call.toCall numServers).Allowed False (GetsMissing calls) ledger)
    ?_ calls (tracks_init buf) ?_
  · intro call ledger client a tracks allowed
    refine call.achieves tracks positive small (fun long => ?_) allowed.2
    exact absurd long (by omega)
  · intro front call back split
    have regular := regular_calls numServers accepted split
    have known := shows_ledgerAfter numServers accepted split
    have short := regular.short
    rw [call.key_toCall numServers] at short
    refine ⟨short, regular.allowed fun crashes => ?_⟩
    obtain ⟨missing, isGet⟩ := known.missing_of_mayCrash le_rfl regular crashes
    cases call with
    | set key value => exact absurd isGet (by simp [DkvCall.toCall])
    | get key =>
        refine ⟨front, key, back, split, ?_⟩
        simpa [DkvCall.toCall, Call.server, Call.key, latest_map] using missing

theorem dkv_achieves {calls : List DkvCall} (positive : 0 < numServers)
    (small : numServers < unsignedRange)
    (accepted : ∀ call ∈ calls, call.Accepted) (buf : Conn → Memory) :
    Achieves False (GetsMissing calls)
      (fun result _ => AllReturn (DkvCall.toCall numServers) Ledger.init calls
        result.1)
      (runCalls (DkvCall.perform numServers) calls (Client.init buf))
      Atomic.init :=
  wp_mono (fun _ _ both => both.1)
    (dkv_follows positive small accepted buf)

/-- After the calls before it, a `dkv_get` of a key that was set returns
without a crash, and the latest value exactly if the length covers it. -/
private theorem dkvGet_achieves {calls front back : List DkvCall}
    {key value : CString} {client : Client} {a : Atomic}
    (positive : 0 < numServers) (small : numServers < unsignedRange)
    (accepted : ∀ call ∈ calls, call.Accepted)
    (split : calls = front ++ .get key :: back)
    (latest : latestValue key front = some value)
    (tracks : Tracks (ledgerAfter numServers front) client a) :
    Achieves False False
      (fun result _ => result.1.IsString value ↔
        Covers (ledgerAfter numServers front) (selectServer numServers key)
          key value)
      (dkvGet numServers key client) a := by
  obtain ⟨result, computed, right⟩ :=
    get_isString_iff numServers accepted split latest
  have regular := regular_calls numServers accepted split
  have short : key.length + 1 + sizeofPacket ≤ eagerProtocolLimit :=
    regular.short
  refine wp_bind (wp_mono ?_ (achieves_findServer tracks positive small
    fun long => absurd long (by omega)))
  rintro ⟨server, client⟩ a' ⟨selected, tracks⟩
  simp only at selected
  subst selected
  have allowed : (Call.get (selectServer numServers key) key).Allowed False
      False (ledgerAfter numServers front) :=
    regular.allowed fun crashes => absurd (computed.symm.trans crashes) (by simp)
  refine wp_mono ?_ (achieves_get tracks allowed)
  rintro ⟨answer, client⟩ a'' ⟨returns, _⟩
  obtain rfl : answer = result := returns result computed
  exact right

private theorem dkv_returned {regMr : Nat → Nat → Option IbvMr} {c c' : Cluster}
    {calls : List DkvCall} {buf : Conn → Memory} {results : List Returned}
    {client : Client} (positive : 0 < numServers)
    (small : numServers < unsignedRange)
    (distinct : ∀ id, DistinctMrs (regMr id))
    (initial : Cluster.Initial regMr c)
    (accepted : ∀ call ∈ calls, call.Accepted)
    (steps : Steps (Cluster.environment regMr)
      (runCalls (DkvCall.perform numServers) calls (Client.init buf), c)
      (.done (results, client), c')) :
    AllReturn (DkvCall.toCall numServers) Ledger.init calls results := by
  obtain ⟨a, _, achieved⟩ := (simulation regMr distinct False).reachable
    (ClusterRel.init initial) (dkv_achieves positive small accepted buf) steps
  exact achieved a .refl

/-- Every run of a client ends, unless a step of a server fails, and its
`dkv_get`s return the latest values exactly if the lengths cover them.  Only a
`dkv_get` of a key that was not set may crash.  Wherever the calls before a
`dkv_get` of a key that was set have returned, it returns too, and the latest
value exactly if the length covers it then. -/
theorem dkv_gets_latest_iff {regMr : Nat → Nat → Option IbvMr} {c : Cluster}
    {calls : List DkvCall} (positive : 0 < numServers)
    (small : numServers < unsignedRange)
    (distinct : ∀ id, DistinctMrs (regMr id))
    (initial : Cluster.Initial regMr c)
    (accepted : ∀ call ∈ calls, call.Accepted) (buf : Conn → Memory) :
    Finishes (Cluster.environment regMr) (Cluster.Halted regMr)
        (GetsMissing calls)
        (fun result => AllRight calls result.1 ↔ AllCovered numServers calls)
        (runCalls (DkvCall.perform numServers) calls (Client.init buf), c) ∧
      ∀ front key back value, calls = front ++ .get key :: back →
        latestValue key front = some value →
          Finishes (Cluster.environment regMr) (Cluster.Halted regMr)
              (GetsMissing front) (fun _ => True)
              (runCalls (DkvCall.perform numServers) front (Client.init buf),
                c) ∧
            ∀ results client c',
              Steps (Cluster.environment regMr)
                (runCalls (DkvCall.perform numServers) front
                  (Client.init buf), c) (.done (results, client), c') →
                Finishes (Cluster.environment regMr) (Cluster.Halted regMr)
                  False
                  (fun result => result.1.IsString value ↔
                    Covers (ledgerAfter numServers front)
                      (selectServer numServers key) key value)
                  (dkvGet numServers key client, c') := by
  refine ⟨Achieves.finishes distinct initial
    (wp_mono (fun result a returned => ?_)
      (dkv_achieves positive small accepted buf)), ?_⟩
  · exact allRight_iff accepted returned
  · intro front key back value split latest
    have earlier : ∀ call ∈ front, call.Accepted := fun call member =>
      accepted call (by rw [split]; exact List.mem_append_left _ member)
    have follows := dkv_follows positive small earlier buf
    refine ⟨Achieves.finishes distinct initial
      (wp_mono (fun _ _ _ => trivial) follows), ?_⟩
    intro results client c' returned
    obtain ⟨a, related, followed⟩ := (simulation regMr distinct False).reachable
      (ClusterRel.init initial) follows returned
    exact Achieves.finishes_next
      (fun result : List Returned × Client => dkvGet numServers key result.2)
      distinct initial returned related
      (dkvGet_achieves positive small accepted split latest
        (followed a .refl).2)

/-! ## A value that outgrows the length at the server -/

open Sample

/-- The second call writes through the cache, and the third evicts the key. -/
def outgrowingSets : List DkvCall :=
  [.set firstKey (letters 5000), .set firstKey (letters 5002),
    .set secondKey (letters 5000)]

def outgrowing : List DkvCall :=
  outgrowingSets ++ [.get firstKey]

private theorem latest_outgrowing :
    latestValue firstKey outgrowingSets = some (letters 5002) := by
  simp [outgrowingSets, latestValue, show secondKey ≠ firstKey by decide]

private theorem outgrowing_accepted : ∀ call ∈ outgrowing, call.Accepted := by
  have accepted {key : CString} {count : Nat} (nonempty : key ≠ CString.empty)
      (short : key.length + 1 + sizeofPacket ≤ eagerProtocolLimit)
      (small : count + 2 ≤ maxTestSize) :
      (DkvCall.set key (letters count)).Accepted :=
    ⟨nonempty, short, by rw [length_letters]; exact small⟩
  intro call member
  simp only [outgrowing, outgrowingSets, List.cons_append, List.nil_append,
    List.mem_cons, List.not_mem_nil, or_false] at member
  rcases member with rfl | rfl | rfl | rfl
  · exact accepted (by decide) (by decide) (by decide)
  · exact accepted (by decide) (by decide) (by decide)
  · exact accepted (by decide) (by decide) (by decide)
  · exact ⟨by decide, by decide⟩

theorem dkv_gets_latest_iff_outgrowing :
    Finishes (Cluster.environment mr) (Cluster.Halted mr)
        (GetsMissing outgrowing)
        (fun result => AllRight outgrowing result.1 ↔ AllCovered 1 outgrowing)
        (runCalls (DkvCall.perform 1) outgrowing client, cluster) ∧
      ∃ results client' c,
        Steps (Cluster.environment mr)
            (runCalls (DkvCall.perform 1) outgrowingSets client, cluster)
            (.done (results, client'), c) ∧
          Finishes (Cluster.environment mr) (Cluster.Halted mr) False
            (fun result => result.1.IsString (letters 5002) ↔
              Covers (ledgerAfter 1 outgrowingSets)
                (selectServer 1 firstKey) firstKey (letters 5002))
            (dkvGet 1 firstKey client', c) := by
  have positive : 0 < 1 := by decide
  have small : 1 < unsignedRange := by decide
  obtain ⟨whole, every⟩ := dkv_gets_latest_iff positive small mr_distinct
    cluster_initial outgrowing_accepted fun _ => Memory.zero
  refine ⟨whole, ?_⟩
  obtain ⟨⟨results, client'⟩, c, steps⟩ :
      ∃ value c, Steps (Cluster.environment mr)
        (runCalls (DkvCall.perform 1) outgrowingSets client, cluster)
        (.done value, c) :=
    Cluster.steps_of_result 20 _ (by decide +kernel)
  exact ⟨results, client', c, steps,
    (every outgrowingSets firstKey [] (letters 5002) rfl latest_outgrowing).2 _
      _ _ steps⟩

/-- A run in which a `dkv_get` does not return the latest value. -/
theorem dkv_gets_latest_fails :
    Cluster.Initial mr cluster ∧ (∀ call ∈ outgrowing, call.Accepted) ∧
      ∃ results client' c,
        Steps (Cluster.environment mr)
          (runCalls (DkvCall.perform 1) outgrowing client, cluster)
          (.done (results, client'), c) ∧
        ¬ AllRight outgrowing results := by
  refine ⟨cluster_initial, outgrowing_accepted, ?_⟩
  obtain ⟨⟨results, client'⟩, c, steps⟩ :
      ∃ value c, Steps (Cluster.environment mr)
        (runCalls (DkvCall.perform 1) outgrowing client, cluster)
        (.done value, c) :=
    Cluster.steps_of_result 20 _ (by decide +kernel)
  refine ⟨results, client', c, steps, fun right => ?_⟩
  have returned := dkv_returned (by decide) (by decide) mr_distinct
    cluster_initial outgrowing_accepted steps
  have covered := (allRight_iff outgrowing_accepted returned).mp right
  have covers : Covers (ledgerAfter 1 outgrowingSets)
      (selectServer 1 firstKey) firstKey (letters 5002) :=
    covered outgrowingSets firstKey [] (letters 5002) rfl latest_outgrowing
  revert covers
  decide +kernel

end KvClient

end RdmaKv
