import RdmaKv.Ex4.Addresses

/-!
# The sizes, keys and values of the throughput tests

The tests of `kv_template.c` and of `kv_client.c` go through the same sizes,
print the same keys into `char key[10]` and send the same letters.  They differ
in the number of attempts, in the largest size and in what they call.
-/

namespace RdmaKv

open ByteMemory

def sizeofTestKey : Nat := 10

/-- `"%ld"` and `"%d"` of a number that is not negative. -/
def printNumber (number : Nat) : List UInt8 :=
  if number = 0 then [48] else decimal number

/-- `sprintf(key, "%ld-%d", value_size, attempt)`. -/
def testKey (valueSize attempt : Nat) : CString where
  chars := printNumber valueSize ++ 45 :: printNumber attempt
  nonzero c member := by
    have digits {number : Nat} (inside : c ∈ printNumber number) : c ≠ 0 := by
      unfold printNumber at inside
      split at inside
      · rw [List.mem_singleton.mp inside]
        decide
      · rintro rfl
        exact absurd (mem_decimal inside).1 (by decide)
    rcases List.mem_append.mp member with size | rest
    · exact digits size
    · rcases List.mem_cons.mp rest with rfl | attempt
      · decide
      · exact digits attempt

/-- `memset(send_buffer, c, count)`. -/
def memset (sendBuffer : Memory) (c : UInt8) (count : Nat) : Memory :=
  sendBuffer.copy 0 count fun _ => c

/-- The loop over the sizes below a limit, from one of them on, with what is
called for one size.  `clock n` says whether the `n`-th call of `gettimeofday`
succeeds; the loop ends when one fails.  Without result `strlen` does not find
the end of `send_buffer`. -/
def testSizesFrom {C : Type} (attemptCalls : Nat → CString → List C)
    (sendSize limit : Nat) (clock : Nat → Bool) (round valueSize : Nat)
    (positive : 0 < valueSize) (sendBuffer : Memory) : Option (List C) :=
  if valueSize < limit then
    let sendBuffer := memset sendBuffer 97 valueSize
    if clock (2 * round) then
      match sendBuffer.string? 0 sendSize with
      | none => none
      | some value =>
          let calls := attemptCalls valueSize value
          if clock (2 * round + 1) then
            (testSizesFrom attemptCalls sendSize limit clock (round + 1)
              (valueSize <<< 1) (by rw [Nat.shiftLeft_eq]; omega)
                sendBuffer).map (calls ++ ·)
          else some calls
    else some []
  else some []
  termination_by limit - valueSize
  decreasing_by
    rw [Nat.shiftLeft_eq]
    omega

/-! ## Keys and values -/

private theorem length_printNumber {number digits : Nat} (positive : 0 < digits)
    (small : number < 10 ^ digits) : (printNumber number).length ≤ digits := by
  unfold printNumber decimal
  split
  · exact positive
  · rw [List.length_map, List.length_reverse]
    exact (Nat.digits_length_le_iff (by decide) number).mpr small

theorem length_testKey {valueSize attempt : Nat} (size : valueSize < 10 ^ 5)
    (small : attempt < 10 ^ 2) :
    (testKey valueSize attempt).length < sizeofTestKey := by
  have first := length_printNumber (by decide) size
  have second : (printNumber attempt).length ≤ 2 :=
    length_printNumber (by decide) small
  simp only [CString.length, testKey, List.length_append, List.length_cons,
    sizeofTestKey]
  omega

theorem testKey_ne_empty (valueSize attempt : Nat) :
    testKey valueSize attempt ≠ CString.empty := by
  intro same
  have chars := congrArg CString.chars same
  simp [testKey, CString.empty] at chars

theorem testByte_ne_zero : (97 : UInt8) ≠ 0 := by decide

/-- The digits of a printed number make the number. -/
private theorem ofDigits_printNumber (number : Nat) :
    Nat.ofDigits 10 ((printNumber number).map fun c =>
      c.toNat - 48).reverse = number := by
  unfold printNumber
  split
  · rename_i isZero
    rw [isZero]
    rfl
  · have digits : (decimal number).map (fun c => c.toNat - 48) =
        (Nat.digits 10 number).reverse := by
      rw [decimal, List.map_map]
      refine (List.map_congr_left fun digit member => ?_).trans
        (List.map_id _)
      have small : digit < 10 :=
        Nat.digits_lt_base (by decide) (List.mem_reverse.mp member)
      simp only [Function.comp_apply, decimal_digit small, id_eq]
      omega
    rw [digits, List.reverse_reverse, Nat.ofDigits_digits]

private theorem printNumber_injective : Function.Injective printNumber :=
  fun first second same => by
    rw [← ofDigits_printNumber first, same, ofDigits_printNumber]

/-- Keys of different sizes are different. -/
theorem valueSize_of_testKey {valueSize other attempt again : Nat}
    (same : testKey valueSize attempt = testKey other again) :
    valueSize = other := by
  have front (number attempt : Nat) :
      (testKey number attempt).chars.takeWhile (fun c => c ≠ 45) =
        printNumber number := by
    have digits : ∀ c ∈ printNumber number,
        decide (c ≠ 45) = true := by
      intro c member
      refine decide_eq_true ?_
      rintro rfl
      unfold printNumber at member
      split at member
      · exact absurd (List.mem_singleton.mp member) (by decide)
      · exact absurd (mem_decimal member).1 (by decide)
    rw [testKey, List.takeWhile_append_of_pos digits]
    simp
  have printed : printNumber valueSize = printNumber other := by
    rw [← front valueSize attempt, same, front]
  exact printNumber_injective printed

theorem testKey_injective (valueSize : Nat) :
    Function.Injective (testKey valueSize) := by
  intro attempt again same
  have chars := List.append_cancel_left (congrArg CString.chars same)
  exact printNumber_injective (List.cons.inj chars).2

/-- What is in `send_buffer`. -/
def testValue (valueSize : Nat) : CString :=
  CString.replicate valueSize 97 testByte_ne_zero

private theorem memory_testValue (valueSize i : Nat) :
    (testValue valueSize).memory i = if i < valueSize then 97 else 0 := by
  by_cases inside : i < valueSize
  · simp [testValue, CString.replicate, CString.memory, Memory.ofList, inside]
  · simp [testValue, CString.replicate, CString.memory, Memory.ofList, inside]

private theorem memset_testValue {before valueSize : Nat}
    (grows : before ≤ valueSize) :
    memset (testValue before).memory 97 valueSize =
      (testValue valueSize).memory := by
  funext i
  rw [memory_testValue]
  by_cases inside : i < valueSize
  · rw [if_pos inside]
    exact Memory.copy_inside _ _ (Nat.zero_le i) (by omega)
  · rw [if_neg inside, memset, Memory.copy_outside _ _ (by omega),
      memory_testValue, if_neg (by omega)]

private theorem string?_testValue {valueSize sendSize : Nat}
    (small : valueSize < sendSize) :
    (testValue valueSize).memory.string? 0 sendSize =
      some (testValue valueSize) := by
  rw [Memory.string?_eq_some_iff]
  exact ⟨by simpa [testValue] using small, fun i _ => by rw [Nat.zero_add]⟩

/-! ## Rounds -/

/-- The calls of some rounds, which start with a given one. -/
def roundsFrom {C : Type} (attemptCalls : Nat → CString → List C)
    (start rounds : Nat) : List C :=
  (List.range' start rounds).flatMap fun round =>
    attemptCalls (2 ^ round) (testValue (2 ^ round))

/-- The loop over so many sizes, from the `start`-th on, makes this many rounds:
all of them, if no call of `gettimeofday` fails, or those up to the first call
that does.  If that is the second call of a round, its attempts are made. -/
def StopsAfter (clock : Nat → Bool) (sizes start rounds : Nat) : Prop :=
  (start + rounds = sizes ∧
    ∀ n, 2 * start ≤ n → n < 2 * sizes → clock n = true) ∨
  ∃ first, 2 * start ≤ first ∧ first < 2 * sizes ∧ clock first = false ∧
    (∀ n, 2 * start ≤ n → n < first → clock n = true) ∧
    start + rounds = (first + 1) / 2

section StopsAfter

variable {clock : Nat → Bool} {sizes start rounds : Nat}

private theorem stopsAfter_end : StopsAfter clock sizes sizes 0 :=
  Or.inl ⟨rfl, fun n least most => absurd most (by omega)⟩

/-- The first call of a round fails. -/
private theorem stopsAfter_start (more : start < sizes)
    (fails : clock (2 * start) = false) : StopsAfter clock sizes start 0 :=
  Or.inr ⟨2 * start, le_rfl, by omega, fails,
    fun n least most => absurd most (by omega), by omega⟩

/-- The second call of a round fails. -/
private theorem stopsAfter_one (more : start < sizes)
    (starts : clock (2 * start) = true)
    (fails : clock (2 * start + 1) = false) :
    StopsAfter clock sizes start 1 := by
  refine Or.inr ⟨2 * start + 1, by omega, by omega, fails,
    fun n least most => ?_, by omega⟩
  obtain rfl : n = 2 * start := by
    omega
  exact starts

/-- Both calls of a round succeed. -/
theorem StopsAfter.succ (later : StopsAfter clock sizes (start + 1) rounds)
    (starts : clock (2 * start) = true)
    (ends : clock (2 * start + 1) = true) :
    StopsAfter clock sizes start (rounds + 1) := by
  have both (n : Nat) (least : 2 * start ≤ n) (early : n < 2 * (start + 1)) :
      clock n = true := by
    rcases Nat.eq_or_lt_of_le least with rfl | after
    · exact starts
    · obtain rfl : n = 2 * start + 1 := by
        omega
      exact ends
  have extend {bound : Nat}
      (rest : ∀ n, 2 * (start + 1) ≤ n → n < bound → clock n = true) (n : Nat)
      (least : 2 * start ≤ n) (most : n < bound) : clock n = true := by
    by_cases early : n < 2 * (start + 1)
    · exact both n least early
    · exact rest n (Nat.le_of_not_lt early) most
  rcases later with ⟨all, rest⟩ | ⟨first, least, most, fails, rest, count⟩
  · exact Or.inl ⟨by omega, extend rest⟩
  · exact Or.inr ⟨first, by omega, most, fails, extend rest, by omega⟩

end StopsAfter

/-- The sizes are the powers of two below the limit, up to the first call of
`gettimeofday` that fails. -/
private theorem testSizesFrom_eq {C : Type}
    (attemptCalls : Nat → CString → List C)
    {sendSize limit sizes : Nat} (clock : Nat → Bool)
    (inside : limit ≤ sendSize) (below : ∀ round < sizes, 2 ^ round < limit)
    (top : limit ≤ 2 ^ sizes) {left start before : Nat}
    (last : start + left = sizes) (grows : before ≤ 2 ^ start)
    (positive : 0 < 2 ^ start) :
    ∃ rounds ≤ left,
      testSizesFrom attemptCalls sendSize limit clock start (2 ^ start)
          positive (testValue before).memory =
        some (roundsFrom attemptCalls start rounds) ∧
      StopsAfter clock sizes start rounds := by
  induction left generalizing start before with
  | zero =>
      obtain rfl : start = sizes := last
      refine ⟨0, le_rfl, ?_, stopsAfter_end⟩
      unfold testSizesFrom
      rw [if_neg (Nat.not_lt.mpr top)]
      rfl
  | succ left inductionHypothesis =>
      have small : 2 ^ start < limit := below start (by omega)
      unfold testSizesFrom
      simp only [if_pos small, memset_testValue grows,
        string?_testValue (small.trans_le inside)]
      by_cases starts : clock (2 * start) = true
      · rw [if_pos starts]
        by_cases ends : clock (2 * start + 1) = true
        · have later : start + 1 + left = sizes := by
            omega
          have larger : 2 ^ start ≤ 2 ^ (start + 1) :=
            Nat.pow_le_pow_right (by decide) (by omega)
          obtain ⟨rounds, fewer, computed, reason⟩ :=
            inductionHypothesis later larger (Nat.two_pow_pos _)
          have doubled : 2 ^ start <<< 1 = 2 ^ (start + 1) := by
            rw [Nat.shiftLeft_eq, pow_one, pow_succ]
          refine ⟨rounds + 1, by omega, ?_, reason.succ starts ends⟩
          rw [if_pos ends]
          simp only [doubled, computed, Option.map_some]
          simp [roundsFrom, List.range'_succ]
        · refine ⟨1, by omega, ?_,
            stopsAfter_one (by omega) starts (Bool.not_eq_true _ ▸ ends)⟩
          rw [if_neg ends]
          simp [roundsFrom]
      · refine ⟨0, by omega, ?_,
          stopsAfter_start (by omega) (Bool.not_eq_true _ ▸ starts)⟩
        rw [if_neg starts]
        rfl

/-- From the first size on, with a `send_buffer` of zeros. -/
theorem testSizesFrom_one {C : Type}
    (attemptCalls : Nat → CString → List C) {sendSize limit sizes : Nat}
    (clock : Nat → Bool) (inside : limit ≤ sendSize)
    (below : ∀ round < sizes, 2 ^ round < limit) (top : limit ≤ 2 ^ sizes) :
    ∃ rounds ≤ sizes,
      testSizesFrom attemptCalls sendSize limit clock 0 1 Nat.one_pos
          Memory.zero = some (roundsFrom attemptCalls 0 rounds) ∧
      StopsAfter clock sizes 0 rounds := by
  have zeroed : (testValue 0).memory = Memory.zero := by
    funext i
    rw [memory_testValue, if_neg (Nat.not_lt_zero i)]
    rfl
  rw [← zeroed]
  exact testSizesFrom_eq attemptCalls clock inside below top
    (Nat.zero_add sizes) (Nat.zero_le _) Nat.one_pos

end RdmaKv
