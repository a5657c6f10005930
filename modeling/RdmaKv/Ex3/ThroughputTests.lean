import RdmaKv.Ex3.CacheSearch
import RdmaKv.Ex3.EagerRuns
import RdmaKv.Ex4.Workload

/-!
# `run_throuput_tests`

Every key is read right after it was set.  With the rendezvous protocol the byte
behind the value in `ctx->remote_buf` is then the terminator that `kv_set` has
put there, so the value is read back exactly if it is not longer than the first
value of its key.  With the eager protocol every key must be new, which it is.
-/

namespace RdmaKv.Ex3

open ByteMemory

/-- `kv_set` leaves the terminator of the value in `ctx->remote_buf`. -/
theorem System.remoteBuf_kvSet {s s' : System} {key value : CString}
    (ran : s.kvSet key value = some s') :
    s'.client.remoteBuf value.length = 0 := by
  unfold System.kvSet at ran
  split at ran
  · simp only at ran
    split at ran
    · obtain rfl := Option.some.inj ran
      exact (memory_copy _ le_rfl).trans value.memory_length
    · exact absurd ran (by simp)
  · simp only at ran
    split at ran
    · obtain ⟨⟨node, server⟩, _, later⟩ := Option.bind_eq_some_iff.mp ran
      split at later
      · obtain rfl := Option.some.inj later
        exact Memory.copy_inside _ _ le_rfl (Nat.lt_succ_self _)
      · exact absurd later (by simp)
    · exact absurd ran (by simp)

namespace RndvCall

/-! ## Keys that are read right after they are set -/

/-- A `kv_set` and a `kv_get` for each of some keys and values. -/
def testCalls (tests : List (CString × CString)) : List RndvCall :=
  tests.flatMap fun test => [.set test.1 test.2, .get test.1]

private theorem testCalls_cons (key value : CString)
    (tests : List (CString × CString)) :
    testCalls ((key, value) :: tests) =
      .set key value :: .get key :: testCalls tests :=
  List.flatMap_cons

private theorem testCalls_append (first second : List (CString × CString)) :
    testCalls (first ++ second) = testCalls first ++ testCalls second :=
  List.flatMap_append

private theorem pairs_testCalls (tests : List (CString × CString)) :
    pairs (testCalls tests) = tests := by
  induction tests with
  | nil => rfl
  | cons test tests inductionHypothesis =>
      obtain ⟨key, value⟩ := test
      rw [testCalls_cons]
      exact congrArg ((key, value) :: ·) inductionHypothesis

/-- What comes before a `kv_get`. -/
private theorem split_testCalls {tests : List (CString × CString)}
    {before after : List RndvCall} {key : CString}
    (split : testCalls tests = before ++ .get key :: after) :
    ∃ front value back, tests = front ++ (key, value) :: back ∧
      before = testCalls front ++ [.set key value] := by
  induction tests generalizing before with
  | nil => exact absurd split (by simp [testCalls])
  | cons test tests inductionHypothesis =>
      obtain ⟨other, value⟩ := test
      rw [testCalls_cons] at split
      rcases before with _ | ⟨first, _ | ⟨second, before⟩⟩
      · exact absurd (List.cons.inj split).1 (by simp)
      · obtain ⟨rfl, later⟩ := List.cons.inj split
        obtain rfl := RndvCall.get.inj (List.cons.inj later).1
        exact ⟨[], value, tests, rfl, rfl⟩
      · obtain ⟨rfl, later⟩ := List.cons.inj split
        obtain ⟨rfl, last⟩ := List.cons.inj later
        obtain ⟨front, newest, back, rfl, rfl⟩ := inductionHypothesis last
        exact ⟨(other, value) :: front, newest, back, rfl,
          by rw [testCalls_cons]; rfl⟩

private theorem proper_testCalls {tests : List (CString × CString)}
    (small : ∀ test ∈ tests, test.2.length < maxTestSize) :
    Proper (testCalls tests) := by
  refine ⟨fun before key after split => ?_, ?_⟩
  · obtain ⟨front, value, back, _, rfl⟩ := split_testCalls split
    rw [pairs_append_set, lastValue_append, if_pos rfl]
    simp
  · rw [pairs_testCalls]
    exact small

/-- The value that was set right before is covered if it is not longer than
the first one. -/
private theorem covers_iff_of_ends {remoteBuf : Memory} {first value : CString}
    (ends : remoteBuf value.length = 0) :
    Covers remoteBuf first value ↔ value.length ≤ first.length := by
  unfold Covers
  rw [and_iff_left ends]
  exact le_iff_lt_or_eq.symm

/-- What a `kv_get` returns right after a `kv_set` of its key. -/
private theorem exists_get_after_set (remoteBuf : Memory)
    {tests front back : List (CString × CString)} {key value : CString}
    (short : ∀ test ∈ tests,
      test.1.length + 1 + sizeofPacket ≤ eagerProtocolLimit)
    (small : ∀ test ∈ tests, test.2.length < maxTestSize)
    (split : tests = front ++ (key, value) :: back) :
    ∃ s block s' first,
      performAll (testCalls front ++ [.set key value]) (.init remoteBuf) =
        some s ∧ s.kvGet key = some (block, s') ∧
      firstValue key (front ++ [(key, value)]) = some first ∧
      ((Memory.ofList block).string? 0 block.length = some value ↔
        value.length ≤ first.length) := by
  have whole : testCalls tests =
      (testCalls front ++ [.set key value]) ++ .get key :: testCalls back := by
    rw [split, testCalls_append, testCalls_cons]
    simp
  have proper := proper_testCalls small
  have shortCalls : Short (testCalls tests) := by
    rw [Short, pairs_testCalls]
    exact short
  rw [whole] at proper shortCalls
  obtain ⟨s, ran, follows⟩ :=
    exists_performAll remoteBuf proper.of_append shortCalls.of_append
  rw [pairs_append_set, pairs_testCalls] at follows
  have isLast : lastValue key (front ++ [(key, value)]) = some value := by
    rw [lastValue_append, if_pos rfl]
  obtain ⟨first, block, s', isFirst, returned, _, right⟩ := follows.get isLast
  have ends : s.client.remoteBuf value.length = 0 := by
    have last := ran
    rw [performAll_append_singleton] at last
    obtain ⟨t, _, set⟩ := Option.bind_eq_some_iff.mp last
    exact System.remoteBuf_kvSet set
  exact ⟨s, block, s', first, ran, returned, isFirst,
    right.trans (covers_iff_of_ends ends)⟩

/-- No value is longer than the first value of its key. -/
private theorem allRight_of_covered (remoteBuf : Memory)
    {tests : List (CString × CString)}
    (short : ∀ test ∈ tests,
      test.1.length + 1 + sizeofPacket ≤ eagerProtocolLimit)
    (small : ∀ test ∈ tests, test.2.length < maxTestSize)
    (covered : ∀ front key value back, tests = front ++ (key, value) :: back →
      ∀ first, firstValue key (front ++ [(key, value)]) = some first →
        value.length ≤ first.length) :
    AllRight remoteBuf (testCalls tests) := by
  intro before key after split value isLast
  obtain ⟨front, newest, back, isSplit, rfl⟩ := split_testCalls split
  rw [pairs_append_set, lastValue_append, if_pos rfl] at isLast
  obtain rfl := Option.some.inj isLast
  obtain ⟨s, block, s', first, ran, returned, isFirst, reads⟩ :=
    exists_get_after_set remoteBuf short small isSplit
  exact ⟨s, block, s', ran, returned,
    reads.mpr (covered front key newest back isSplit first isFirst)⟩

/-- The tests read what they set exactly if no value is longer than the first
value of its key. -/
theorem tests_right_iff (remoteBuf : Memory)
    {tests : List (CString × CString)}
    (short : ∀ test ∈ tests,
      test.1.length + 1 + sizeofPacket ≤ eagerProtocolLimit)
    (small : ∀ test ∈ tests, test.2.length < maxTestSize) :
    AllRight remoteBuf (testCalls tests) ↔
      ∀ front key value back, tests = front ++ (key, value) :: back →
        ∀ first, firstValue key (front ++ [(key, value)]) = some first →
          value.length ≤ first.length := by
  constructor
  · intro right front key value back split first isFirst
    obtain ⟨s, block, s', other, ran, returned, isOther, reads⟩ :=
      exists_get_after_set remoteBuf short small split
    obtain rfl := Option.some.inj (isFirst.symm.trans isOther)
    have whole : testCalls tests =
        (testCalls front ++ [.set key value]) ++
          .get key :: testCalls back := by
      rw [split, testCalls_append, testCalls_cons]
      simp
    have isLast : lastValue key
        (pairs (testCalls front ++ [.set key value])) = some value := by
      rw [pairs_append_set, lastValue_append, if_pos rfl]
    obtain ⟨t, block', t', ran', returned', isString⟩ :=
      right _ key _ whole value isLast
    obtain rfl := Option.some.inj (ran.symm.trans ran')
    obtain ⟨rfl, _⟩ :=
      Prod.mk.inj (Option.some.inj (returned.symm.trans returned'))
    exact reads.mp isString
  · exact allRight_of_covered remoteBuf short small

/-- The second value of the key is longer. -/
theorem tests_right_iff_outgrowing :
    AllRight (fun _ => 123) (testCalls
        [(oneKey, letters 1 97 letter_ne_zero),
          (oneKey, letters 2 97 letter_ne_zero)]) ↔
      ∀ front key value back,
        [(oneKey, letters 1 97 letter_ne_zero),
          (oneKey, letters 2 97 letter_ne_zero)] =
            front ++ (key, value) :: back →
        ∀ first, firstValue key (front ++ [(key, value)]) = some first →
          value.length ≤ first.length :=
  tests_right_iff _ (by decide) (by decide)

/-! ## The tests of the program -/

def totalAttempts : Nat := 50

def attemptCalls (valueSize : Nat) (value : CString) : List RndvCall :=
  (List.range totalAttempts).flatMap fun attempt =>
    [.set (testKey valueSize attempt) value, .get (testKey valueSize attempt)]

def runThrouputTests (rndvMode : Bool) (clock : Nat → Bool) :
    Option (List RndvCall) :=
  testSizesFrom attemptCalls maxTestSize
    (if rndvMode then maxTestSize else eagerProtocolLimit) clock 0 1
      Nat.one_pos Memory.zero

def roundTests (rounds : Nat) : List (CString × CString) :=
  (List.range' 0 rounds).flatMap fun round =>
    (List.range totalAttempts).map fun attempt =>
      (testKey (2 ^ round) attempt, testValue (2 ^ round))

private theorem roundsFrom_eq (rounds : Nat) :
    roundsFrom attemptCalls 0 rounds = testCalls (roundTests rounds) := by
  rw [testCalls, roundTests, List.flatMap_assoc]
  simp only [List.flatMap_map]
  rfl

private theorem mem_roundTests {rounds : Nat} {test : CString × CString}
    (member : test ∈ roundTests rounds) :
    ∃ round < rounds, ∃ attempt < totalAttempts,
      test = (testKey (2 ^ round) attempt, testValue (2 ^ round)) := by
  obtain ⟨round, inRange, inside⟩ := List.mem_flatMap.mp member
  obtain ⟨attempt, isAttempt, isTest⟩ := List.mem_map.mp inside
  have bounds := List.mem_range'_1.mp inRange
  exact ⟨round, by omega, attempt, List.mem_range.mp isAttempt, isTest.symm⟩

private theorem roundTests_fit {rounds : Nat} (few : rounds ≤ 16)
    {test : CString × CString} (member : test ∈ roundTests rounds) :
    test.1.length < sizeofTestKey ∧ test.2.length < maxTestSize := by
  obtain ⟨round, inRange, attempt, isAttempt, rfl⟩ := mem_roundTests member
  have size : 2 ^ round ≤ 2 ^ 15 :=
    Nat.pow_le_pow_right (by decide) (by omega)
  refine ⟨length_testKey (by omega) (isAttempt.trans (by decide)), ?_⟩
  simp only [testValue, CString.length_replicate]
  exact size.trans_lt (by decide)

/-- All values of a key have the same length. -/
private theorem length_eq_of_mem {rounds : Nat} {key value other : CString}
    (member : (key, value) ∈ roundTests rounds)
    (again : (key, other) ∈ roundTests rounds) :
    value.length = other.length := by
  obtain ⟨round, _, attempt, _, isTest⟩ := mem_roundTests member
  obtain ⟨later, _, retry, _, isOther⟩ := mem_roundTests again
  obtain ⟨isKey, rfl⟩ := Prod.mk.inj isTest
  obtain ⟨sameKey, rfl⟩ := Prod.mk.inj isOther
  rw [valueSize_of_testKey (isKey.symm.trans sameKey)]

private theorem length_eq_of_first {rounds : Nat}
    {front back : List (CString × CString)} {key value first : CString}
    (split : roundTests rounds = front ++ (key, value) :: back)
    (isFirst : firstValue key (front ++ [(key, value)]) = some first) :
    value.length = first.length := by
  have member : (key, value) ∈ roundTests rounds := by
    rw [split]
    simp
  obtain ⟨test, found, rfl⟩ := Option.map_eq_some_iff.mp isFirst
  have isKey : test.1 = key := by
    simpa using List.find?_some found
  have again : (key, test.2) ∈ roundTests rounds := by
    have inside := List.mem_of_find?_eq_some found
    rw [← isKey, split, List.append_cons]
    exact List.mem_append_left _ inside
  exact length_eq_of_mem member again

/-- With the rendezvous protocol no call of `run_throuput_tests` fails, no key
leaves `char key[10]`, and the assertion after every `kv_get` holds, whatever
`ctx->remote_buf` held and `gettimeofday` does. -/
theorem throuput_tests_right (clock : Nat → Bool) (remoteBuf : Memory) :
    ∃ rounds ≤ 16,
      runThrouputTests true clock = some (roundsFrom attemptCalls 0 rounds) ∧
      StopsAfter clock 16 0 rounds ∧
      (∀ call ∈ roundsFrom attemptCalls 0 rounds,
        call.key.length < sizeofTestKey) ∧
      (∃ s, performAll (roundsFrom attemptCalls 0 rounds)
        (.init remoteBuf) = some s) ∧
      AllRight remoteBuf (roundsFrom attemptCalls 0 rounds) := by
  have below : ∀ round < 16, 2 ^ round < maxTestSize := by
    decide
  have top : maxTestSize ≤ 2 ^ 16 := by
    decide
  obtain ⟨rounds, few, computed, reason⟩ :=
    testSizesFrom_one attemptCalls clock le_rfl below top
  have fits {test : CString × CString} (member : test ∈ roundTests rounds) :=
    roundTests_fit few member
  have short : ∀ test ∈ roundTests rounds,
      test.1.length + 1 + sizeofPacket ≤ eagerProtocolLimit := by
    intro test member
    have bound := (fits member).1
    simp only [sizeofTestKey, sizeofPacket, eagerProtocolLimit] at bound ⊢
    omega
  have small : ∀ test ∈ roundTests rounds, test.2.length < maxTestSize :=
    fun test member => (fits member).2
  refine ⟨rounds, few, computed, reason, ?_, ?_, ?_⟩
  · intro call member
    rw [roundsFrom_eq] at member
    obtain ⟨test, isTest, isCall⟩ := List.mem_flatMap.mp member
    have bound := (fits isTest).1
    simp only [List.mem_cons, List.not_mem_nil, or_false] at isCall
    rcases isCall with rfl | rfl
    · exact bound
    · exact bound
  · rw [roundsFrom_eq]
    have shortCalls : Short (testCalls (roundTests rounds)) := by
      rw [Short, pairs_testCalls]
      exact short
    obtain ⟨s, ran, _⟩ :=
      exists_performAll remoteBuf (proper_testCalls small) shortCalls
    exact ⟨s, ran⟩
  · rw [roundsFrom_eq]
    exact allRight_of_covered remoteBuf short small
      fun front key value back split first isFirst =>
        (length_eq_of_first split isFirst).le

/-! ## With the eager protocol -/

def toRequest : RndvCall → EagerRequest
  | set key value => .set key value.chars
  | get key => .get key

private theorem pairs_toRequest (tests : List (CString × CString)) :
    EagerRequest.pairs ((testCalls tests).map toRequest) =
      tests.map fun test => (test.1, test.2.chars) := by
  induction tests with
  | nil => rfl
  | cons test tests inductionHypothesis =>
      obtain ⟨key, value⟩ := test
      rw [testCalls_cons]
      exact congrArg ((key, value.chars) :: ·) inductionHypothesis

private theorem setsOnce_of_nodup {requests : List EagerRequest}
    (nodup : ((EagerRequest.pairs requests).map Prod.fst).Nodup) :
    Server.SetsOnce requests := by
  intro before key value after split
  rw [split, EagerRequest.pairs, List.filterMap_append, List.map_append] at nodup
  refine lastValue_eq_none_iff.mpr fun pair member same => ?_
  refine (List.nodup_append.mp nodup).2.2 pair.1
    (List.mem_map.mpr ⟨pair, member, rfl⟩) key ?_ same
  exact List.mem_cons_self

/-- No key is used twice. -/
private theorem nodup_roundTests (rounds : Nat) :
    ((roundTests rounds).map Prod.fst).Nodup := by
  have keys : (roundTests rounds).map Prod.fst =
      (List.range' 0 rounds).flatMap fun round =>
        (List.range totalAttempts).map (testKey (2 ^ round)) := by
    rw [roundTests, List.map_flatMap]
    simp only [List.map_map]
    rfl
  rw [keys, List.nodup_flatMap]
  refine ⟨fun round _ =>
    List.nodup_range.map (testKey_injective (2 ^ round)), ?_⟩
  have rounds' : (List.range' 0 rounds).Nodup := List.nodup_range'
  refine rounds'.imp fun {first second} different key inFirst inSecond => ?_
  obtain ⟨attempt, _, rfl⟩ := List.mem_map.mp inFirst
  obtain ⟨again, _, same⟩ := List.mem_map.mp inSecond
  exact different (Nat.pow_right_injective le_rfl
    (valueSize_of_testKey same.symm))

private theorem isEager_attempt {valueSize attempt : Nat} {call : RndvCall}
    (size : valueSize ≤ 2 ^ 11) (small : attempt < totalAttempts)
    (isCall : call = .set (testKey valueSize attempt) (testValue valueSize) ∨
      call = .get (testKey valueSize attempt)) :
    isEager false call.packetSize = true := by
  have short : (testKey valueSize attempt).length < sizeofTestKey :=
    length_testKey (by omega) (small.trans (by decide))
  simp only [sizeofTestKey] at short
  simp only [isEager, Bool.not_false, Bool.true_and, decide_eq_true_eq]
  rcases isCall with rfl | rfl
  · refine (Nat.mod_le _ _).trans_lt ?_
    simp only [testValue, CString.length_replicate, sizeofPacket,
      eagerProtocolLimit]
    omega
  · refine (Nat.mod_le _ _).trans_lt ?_
    have key := Nat.mod_le (testKey valueSize attempt).length unsignedRange
    simp only [sizeofPacket, eagerProtocolLimit]
    omega

/-- With the eager protocol no call of `run_throuput_tests` needs another one,
no key is set twice, and the server answers every `kv_get` with the value that was set, whatever
`malloc` returns and `gettimeofday` does. -/
theorem throuput_tests_eager (clock : Nat → Bool) :
    ∃ rounds ≤ 12,
      runThrouputTests false clock =
        some (roundsFrom attemptCalls 0 rounds) ∧
      StopsAfter clock 12 0 rounds ∧
      (∀ call ∈ roundsFrom attemptCalls 0 rounds,
        isEager false call.packetSize = true) ∧
      roundsFrom attemptCalls 0 rounds = testCalls (roundTests rounds) ∧
      ((roundTests rounds).map Prod.fst).Nodup ∧
      Server.IsMap ((roundsFrom attemptCalls 0 rounds).map toRequest) := by
  have below : ∀ round < 12, 2 ^ round < eagerProtocolLimit := by
    decide
  have top : eagerProtocolLimit ≤ 2 ^ 12 := by
    decide
  have inside : eagerProtocolLimit ≤ maxTestSize := by
    decide
  obtain ⟨rounds, few, computed, reason⟩ :=
    testSizesFrom_one attemptCalls clock inside below top
  refine ⟨rounds, few, computed, reason, ?_, roundsFrom_eq rounds,
    nodup_roundTests rounds, ?_⟩
  · intro call member
    rw [roundsFrom_eq] at member
    obtain ⟨test, isTest, isCall⟩ := List.mem_flatMap.mp member
    obtain ⟨round, inRange, attempt, isAttempt, rfl⟩ := mem_roundTests isTest
    have size : 2 ^ round ≤ 2 ^ 11 :=
      Nat.pow_le_pow_right (by decide) (by omega)
    exact isEager_attempt size isAttempt (by simpa using isCall)
  · rw [roundsFrom_eq]
    refine Server.isMap_of_setsOnce (setsOnce_of_nodup ?_)
    rw [pairs_toRequest, List.map_map]
    exact nodup_roundTests rounds

end RndvCall

end RdmaKv.Ex3
