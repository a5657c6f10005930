import RdmaKv.Ex4.Latest
import RdmaKv.Ex4.Progress
import RdmaKv.Ex4.Schedule

/-!
# What `kv_get` of `nweb23.c` returns

Along every run of `kv_set` and `kv_get` on one connection in which the
lengths agree, a `kv_get` returns the bytes of the latest `kv_set` of its key
and stores their number in `*length`.  From the cache it does not store it.
-/

namespace RdmaKv

open ByteMemory Interaction

/-- After the call `*length`, which was `before` the call, is the length, and
the block starts with the bytes of the value. -/
def GetResult.Stores (result : GetResult) (before : Nat) (value : Memory)
    (length : Nat) : Prop :=
  result.length.getD before = length ∧ ∃ block, result.value = some block ∧
    block.take length = value.slice 0 length

private theorem take_slice (memory : Memory) (offset : Nat) {count size : Nat}
    (bound : count ≤ size) :
    (memory.slice offset size).take count = memory.slice offset count := by
  unfold Memory.slice
  rw [← List.map_take, List.take_range, Nat.min_eq_left bound]

/-- A block that was cleared and holds the first bytes of a buffer. -/
private theorem take_block {contents value : Memory} {length copied size : Nat}
    (agree : ∀ i < length, contents i = value i) (covers : length ≤ copied)
    (inside : length ≤ size) :
    ((Memory.zero.copy 0 copied contents).slice 0 size).take length =
      value.slice 0 length := by
  rw [take_slice _ _ inside]
  refine Memory.slice_congr fun i _ upper => ?_
  rw [Memory.copy_inside _ _ (Nat.zero_le i) (by omega), Nat.sub_zero]
  exact agree i (by omega)

namespace Nweb

variable {server : Nat}

/-! ## Sequences of calls -/

/-- Nonempty keys that `kv_get` accepts, and values that are not longer than a
buffer. -/
def KvCall.Accepted : KvCall → Prop
  | .set key _ length =>
      key ≠ CString.empty ∧
        key.length + 1 + sizeofPacket ≤ eagerProtocolLimit ∧
        length ≤ maxTestSize
  | .get key _ =>
      key ≠ CString.empty ∧
        key.length + 1 + sizeofPacket ≤ eagerProtocolLimit

def latestValue (key : CString) (calls : List KvCall) : Option (Memory × Nat) :=
  calls.foldl (fun before call =>
    match call with
    | .set other value length =>
        if other = key then some (value, length) else before
    | .get _ _ => before) none

def ledgerAfter (server : Nat) (calls : List KvCall) : Ledger :=
  Ledger.init.afterAll (calls.map (KvCall.toCall server))

/-- Every `kv_get` of a key that was set and that returned 0 stored the latest
value and its length. -/
def AllRight (calls : List KvCall) (results : List Returned) : Prop :=
  ∀ front key before back value length,
    calls = front ++ .get key before :: back →
    latestValue key front = some (value, length) →
      ∃ result, results[front.length]? = some (.get result) ∧
        (result.ret = 0 → result.Stores before value length)

/-- The lengths agree when the call is made.  A `kv_set` through the cache
leaves one byte of the buffer.  A `kv_get` from the cache is given the latest
length.  One that asks the server for a buffer finds there the latest length,
and this leaves one byte as well. -/
def KvCall.Agrees (server : Nat) (front : List KvCall) : KvCall → Prop
  | .set key _ length =>
      (ledgerAfter server front).isCached key = true → length < maxTestSize
  | .get key before =>
      if (ledgerAfter server front).isCached key then
        ∀ value length, latestValue key front = some (value, length) →
          before = length ∧
            length ≤ (ledgerAfter server front).cachedLength
      else
        (ledgerAfter server front).inBuffer server key = true →
          (ledgerAfter server front).sentLength server key < maxTestSize ∧
            ∀ value length, latestValue key front = some (value, length) →
              (ledgerAfter server front).sentLength server key = length

def AllAgree (server : Nat) (calls : List KvCall) : Prop :=
  ∀ front call back, calls = front ++ call :: back →
    call.Agrees server front

/-- Some `kv_get` is of a key that was not set before. -/
def GetsMissing (calls : List KvCall) : Prop :=
  ∃ front key before back, calls = front ++ .get key before :: back ∧
    latestValue key front = none

private theorem latest_map (server : Nat) (key : CString)
    (calls : List KvCall) :
    Call.latest server key (calls.map (KvCall.toCall server)) =
      (latestValue key calls).map fun (value, length) =>
        (value, length % unsignedRange) := by
  induction calls using List.reverseRecOn with
  | nil => rfl
  | append_singleton calls call inductionHypothesis =>
      rw [List.map_append, List.map_singleton, Call.latest_append_singleton,
        inductionHypothesis]
      cases call with
      | set other value length =>
          by_cases same : other = key
          · subst same
            simp [latestValue, KvCall.toCall, Call.record]
          · simp [latestValue, KvCall.toCall, Call.record, same]
      | get other before => simp [latestValue, KvCall.toCall, Call.record]

private theorem latestValue_mem {key : CString} {calls : List KvCall}
    {value : Memory}
    {length : Nat} (found : latestValue key calls = some (value, length)) :
    KvCall.set key value length ∈ calls := by
  induction calls using List.reverseRecOn with
  | nil => exact absurd found (by simp [latestValue])
  | append_singleton calls call inductionHypothesis =>
      unfold latestValue at found
      rw [List.foldl_append] at found
      cases call with
      | set other newest count =>
          simp only [List.foldl_cons, List.foldl_nil] at found
          split at found
          · rename_i same
            obtain ⟨rfl, rfl⟩ := Prod.mk.inj (Option.some.inj found)
            rw [same]
            exact List.mem_append_right _ (by simp)
          · exact List.mem_append_left _ (inductionHypothesis found)
      | get other before =>
          exact List.mem_append_left _ (inductionHypothesis found)

private theorem bounded_ledgerAfter {calls : List KvCall}
    (accepted : ∀ call ∈ calls, call.Accepted) :
    (ledgerAfter server calls).Bounded maxTestSize := by
  refine (Ledger.bounded_init _).afterAll fun call member => ?_
  obtain ⟨mapped, inside, rfl⟩ := List.mem_map.mp member
  cases mapped with
  | set key value length =>
      exact (Nat.mod_le _ _).trans (accepted _ inside).2.2
  | get key before => trivial

/-- Accepted calls whose lengths agree stay in bounds. -/
private theorem regular_calls {calls front back : List KvCall} {call : KvCall}
    (accepted : ∀ call ∈ calls, call.Accepted) (agree : AllAgree server calls)
    (split : calls = front ++ call :: back) :
    Ledger.Regular 0 (ledgerAfter server front) (call.toCall server) := by
  have bounded : (ledgerAfter server front).Bounded maxTestSize :=
    bounded_ledgerAfter fun other member =>
      accepted other (by rw [split]; exact List.mem_append_left _ member)
  have routed : (ledgerAfter server front).Routed fun _ => server := by
    refine Ledger.routed_init.afterAll fun other member => ?_
    obtain ⟨mapped, _, rfl⟩ := List.mem_map.mp member
    cases mapped <;> rfl
  have here := accepted call (by rw [split]; simp)
  have agrees := agree front call back split
  have top : maxTestSize + 1 < unsignedRange := by
    decide
  cases call with
  | set key value length =>
      obtain ⟨nonempty, short, small⟩ := here
      have isLength : length % unsignedRange = length :=
        Nat.mod_eq_of_lt (by omega)
      simp only [KvCall.toCall, isLength]
      refine ⟨⟨rfl, short, small⟩, Or.inr ?_, routed.usable nonempty⟩
      split
      · rename_i hit
        exact (Nat.mod_le _ _).trans (agrees hit)
      · exact (Nat.mod_le _ _).trans small
  | get key before =>
      obtain ⟨nonempty, short⟩ := here
      refine ⟨short, ?_, routed.usable nonempty⟩
      have cached := bounded.cachedLength
      simp only [KvCall.toCall, KvCall.Agrees, Call.InBounds] at agrees ⊢
      split
      · rw [Nat.mod_eq_of_lt (by omega)]
        omega
      · rename_i miss
        rw [if_neg miss] at agrees
        refine (Nat.mod_le _ _).trans ?_
        cases holds : (ledgerAfter server front).inBuffer server key with
        | true => exact (agrees holds).1
        | false =>
            rw [Ledger.sentLength_of_inBuffer_false holds]
            decide

private theorem shows_ledgerAfter {calls front back : List KvCall}
    (accepted : ∀ call ∈ calls, call.Accepted) (agree : AllAgree server calls)
    (split : calls = front ++ back) :
    (ledgerAfter server front).Shows 0 fun id key =>
      Call.latest id key (front.map (KvCall.toCall server)) :=
  Ledger.shows_afterAll_map (Nat.zero_le 1) (regular_calls accepted agree)
    split

/-! ## One `kv_get` -/

/-- A `kv_get` returns the latest value and its length. -/
private theorem get_stores {calls front back : List KvCall} {key : CString}
    {before length : Nat} {value : Memory}
    (accepted : ∀ call ∈ calls, call.Accepted) (agree : AllAgree server calls)
    (split : calls = front ++ .get key before :: back)
    (latest : latestValue key front = some (value, length)) :
    ∃ result, ((ledgerAfter server front).get server key).1 = some result ∧
      result.Stores before value length := by
  have known := shows_ledgerAfter accepted agree split
  have regular := regular_calls accepted agree split
  have agrees := agree front _ back split
  simp only [KvCall.Agrees] at agrees
  have member : KvCall.set key value length ∈ calls := by
    rw [split]
    exact List.mem_append_left _ (latestValue_mem latest)
  have top : maxTestSize + 1 < unsignedRange := by decide
  have bound := (accepted _ member).2.2
  have small : length % unsignedRange = length :=
    Nat.mod_eq_of_lt (by omega)
  have isLatest := latest_map server key front
  simp only [latest, Option.map_some, small] at isLatest
  obtain ⟨result, computed, reads⟩ := known.reads regular isLatest
  refine ⟨result, computed, ?_⟩
  cases reads with
  | inline elsewhere miss =>
      refine ⟨rfl, _, rfl, ?_⟩
      exact List.take_left' (Memory.length_slice _ _ _)
  | cached here hit same =>
      rw [if_pos hit] at agrees
      obtain ⟨given, covers⟩ := agrees value length latest
      have cached : (ledgerAfter server front).cachedLength ≤ maxTestSize :=
        Ledger.Bounded.cachedLength (bounded_ledgerAfter fun other inside =>
          accepted other (by rw [split]; exact List.mem_append_left _ inside))
      rw [Nat.mod_eq_of_lt (by omega)]
      exact ⟨given, _, rfl, take_block same covers (by omega)⟩
  | fetched here miss same =>
      rw [if_neg (by simp [miss])] at agrees
      obtain ⟨room, isLength⟩ := agrees here
      have sent := isLength value length latest
      rw [sent, Nat.mod_eq_of_lt (by omega)]
      exact ⟨rfl, _, rfl, take_block same (by omega) (by omega)⟩

/-! ## All of them -/

/-- The results that the ledger gives are right where the lengths agree. -/
private theorem allRight_of_agree {calls : List KvCall}
    {results : List Returned}
    (accepted : ∀ call ∈ calls, call.Accepted) (agree : AllAgree server calls)
    (returned : AllReturn (KvCall.toCall server) Ledger.init calls results) :
    AllRight calls results := by
  intro front key before back value length split latest
  obtain ⟨result, computed, stores⟩ := get_stores accepted agree split latest
  obtain ⟨answer, inside, returns⟩ :=
    returned front (.get key before) back split
  cases answer with
  | set ret => exact returns.elim
  | get other =>
      obtain rfl : other = result := returns result computed
      exact ⟨other, inside, fun _ => stores⟩

/-- The client does not crash, except on a `kv_get` of a missing key. -/
private theorem kv_achieves {calls : List KvCall}
    (accepted : ∀ call ∈ calls, call.Accepted) (agree : AllAgree server calls)
    (buf : Conn → Memory) :
    Achieves False (GetsMissing calls)
      (fun result _ => AllReturn (KvCall.toCall server) Ledger.init calls
        result.1)
      (runCalls (KvCall.perform server) calls (Client.init buf))
      Atomic.init := by
  refine wp_mono (fun result a both => both.1)
    (achieves_runCalls (KvCall.toCall server)
      (fun ledger call =>
        (call.toCall server).Allowed False (GetsMissing calls) ledger)
      ?_ calls (tracks_init buf) ?_)
  · intro call ledger client a tracks allowed
    rw [call.perform_eq server]
    exact (call.toCall server).achieves tracks allowed
  · intro front call back split
    have regular := regular_calls accepted agree split
    have known := shows_ledgerAfter accepted agree split
    refine regular.allowed fun crashes => ?_
    obtain ⟨missing, isGet⟩ :=
      known.missing_of_mayCrash (Nat.zero_le 1) regular crashes
    cases call with
    | set key value length => exact absurd isGet (by simp [KvCall.toCall])
    | get key before =>
        refine ⟨front, key, before, back, split, ?_⟩
        simpa [KvCall.toCall, Call.server, Call.key, latest_map] using missing

/-- Every run of a client in which the lengths agree ends, unless a step of
the server fails, and its `kv_get`s store the latest values.  Only a `kv_get`
of a key that was not set may crash. -/
theorem kv_gets_latest {regMr : Nat → Nat → Option IbvMr} {c : Cluster}
    {calls : List KvCall} (distinct : ∀ id, DistinctMrs (regMr id))
    (initial : Cluster.Initial regMr c)
    (accepted : ∀ call ∈ calls, call.Accepted) (agree : AllAgree server calls)
    (buf : Conn → Memory) :
    Finishes (Cluster.environment regMr) (Cluster.Halted regMr)
      (GetsMissing calls) (fun result => AllRight calls result.1)
      (runCalls (KvCall.perform server) calls (Client.init buf), c) := by
  refine Achieves.finishes distinct initial
    (wp_mono (fun result a returned => ?_) (kv_achieves accepted agree buf))
  exact allRight_of_agree accepted agree returned

/-! ## A length that is not stored -/

open Sample

/-- A value in a buffer, and a `kv_get` that reads it from the cache. -/
def refetching (before : Nat) : List KvCall :=
  [.set firstKey (letters 5000).memory 5000, .get firstKey before]

private theorem refetching_accepted (before : Nat) :
    ∀ call ∈ refetching before, call.Accepted := by
  intro call member
  simp only [refetching, List.mem_cons, List.not_mem_nil, or_false] at member
  rcases member with rfl | rfl
  · exact ⟨by decide, by decide, by decide⟩
  · exact ⟨by decide, by decide⟩

private theorem refetching_agree : AllAgree 0 (refetching 5000) := by
  intro front call back split
  rcases front with _ | ⟨first, _ | ⟨second, front⟩⟩
  · obtain ⟨rfl, _⟩ := List.cons.inj split
    exact fun hit => absurd hit (by decide)
  · obtain ⟨rfl, rest⟩ := List.cons.inj split
    obtain ⟨rfl, _⟩ := List.cons.inj rest
    have state : (ledgerAfter 0 [.set firstKey (letters 5000).memory
        5000]).isCached firstKey = true ∧
        (ledgerAfter 0 [.set firstKey (letters 5000).memory
          5000]).cachedLength = 5000 := by
      decide +kernel
    simp only [KvCall.Agrees, state.1, state.2, if_true]
    intro value length latest
    obtain ⟨_, rfl⟩ := Prod.mk.inj (Option.some.inj latest)
    exact ⟨rfl, le_rfl⟩
  · exact absurd (congrArg List.length split) (by simp [refetching])

theorem kv_gets_latest_refetching :
    Finishes (Cluster.environment mr) (Cluster.Halted mr)
      (GetsMissing (refetching 5000))
      (fun result => AllRight (refetching 5000) result.1)
      (runCalls (KvCall.perform 0) (refetching 5000) client, cluster) :=
  kv_gets_latest mr_distinct cluster_initial (refetching_accepted 5000)
    refetching_agree _

/-- The second of two calls returned 0 and did not store a length. -/
def forgetsLength : List Returned → Bool
  | [_, .get result] => decide (result.ret = 0 ∧ result.length = none)
  | _ => false

private theorem not_allRight_of_forgetsLength {results : List Returned}
    (forgets : forgetsLength results = true) :
    ¬ AllRight (refetching 0) results := by
  intro right
  obtain ⟨result, inside, stores⟩ :=
    right [.set firstKey (letters 5000).memory 5000] firstKey 0 []
      (letters 5000).memory 5000 rfl (by simp [latestValue])
  unfold forgetsLength at forgets
  split at forgets
  · rename_i other
    obtain rfl : other = result := Returned.get.inj (Option.some.inj inside)
    obtain ⟨success, nothing⟩ := of_decide_eq_true forgets
    have stored := (stores success).1
    rw [nothing] at stored
    exact absurd stored (by decide)
  · exact absurd forgets (by simp)

/-- A run in which a `kv_get` returns 0 and does not store the length. -/
theorem kv_gets_latest_fails :
    Cluster.Initial mr cluster ∧
      (∀ call ∈ refetching 0, call.Accepted) ∧
      ∃ results client' c,
        Steps (Cluster.environment mr)
          (runCalls (KvCall.perform 0) (refetching 0) client, cluster)
          (.done (results, client'), c) ∧
        ¬ AllRight (refetching 0) results := by
  refine ⟨cluster_initial, refetching_accepted 0, ?_⟩
  obtain ⟨⟨program, c⟩, steps, tested⟩ :=
    Cluster.steps_of_reached mr 4
      (runCalls (KvCall.perform 0) (refetching 0) client, cluster)
      (fun reached => reached.1.result?.any fun result =>
        forgetsLength result.1) (by decide +kernel)
  obtain ⟨⟨results, client'⟩, ended, forgets⟩ :=
    (Option.any_eq_true ..).mp tested
  obtain rfl := Program.eq_done_of_result? ended
  exact ⟨results, client', c, steps, not_allRight_of_forgetsLength forgets⟩

end Nweb

end RdmaKv
