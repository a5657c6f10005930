import RdmaKv.Ex4.Scripts
import Mathlib.Data.List.Induction

/-!
# What the ledger holds is what was set latest

As long as every operation stays in bounds, the ledger holds under every key
the value of the latest `kv_set`: in the entry, or at the start of the buffer.
How much of the buffer a `kv_get` reads is another matter: that is the length
that is cached, or the one that was sent with the latest rendezvous request.
-/

namespace RdmaKv

open ByteMemory

namespace Call

/-- The latest value of a key, and its length, after one more call. -/
def record (id : Nat) (key : CString) (before : Option (Memory × Nat)) :
    Call → Option (Memory × Nat)
  | set _ server other value valueLength =>
      if server = id ∧ other = key then some (value, valueLength) else before
  | get _ _ => before

def latest (id : Nat) (key : CString) (calls : List Call) :
    Option (Memory × Nat) :=
  calls.foldl (record id key) none

theorem latest_append_singleton (id : Nat) (key : CString) (calls : List Call)
    (call : Call) :
    latest id key (calls ++ [call]) = call.record id key (latest id key calls) := by
  simp [latest]

/-- The key leaves room in the packets, and the value is not longer than a
buffer. -/
def Accepted (terminator : Nat) : Call → Prop
  | set bytes _ key _ valueLength =>
      bytes = terminator ∧ key.length + 1 + sizeofPacket ≤ eagerProtocolLimit ∧
        valueLength ≤ maxTestSize
  | get _ key => key.length + 1 + sizeofPacket ≤ eagerProtocolLimit

end Call

namespace Ledger

variable {ledger : Ledger} {id terminator valueLength : Nat}
  {key : CString} {value : Memory}

/-- The ledger holds the latest values, and no connection is broken. -/
structure Shows (terminator : Nat)
    (latest : Nat → CString → Option (Memory × Nat)) (ledger : Ledger) :
    Prop where
  intact : ∀ id, ledger.broken id = false
  missing : ∀ id key, latest id key = none → ledger.held id key = none
  present : ∀ id key value valueLength,
    latest id key = some (value, valueLength) →
      ledger.held id key = some (.inline (value.slice 0 valueLength)) ∨
      ∃ sent contents, ledger.held id key = some (.buffer sent contents) ∧
        ∀ i < valueLength + terminator, contents i = value i
  cached : ∀ id key, ledger.cached = some (id, key) →
    ∃ sent contents, ledger.held id key = some (.buffer sent contents)

private theorem shows_init : Ledger.init.Shows terminator (fun _ _ => none) :=
  ⟨fun _ => rfl, fun _ _ _ => rfl, fun _ _ _ _ found => absurd found (by simp),
    fun _ _ cached => absurd cached (by simp [Ledger.init])⟩

theorem write_of_fits (intact : ledger.broken id = false) {length : Nat}
    (fits : length ≤ maxTestSize) (value : Memory) :
    ledger.write id key value length =
      (0, ledger.put id key (.buffer (ledger.sentLength id key)
        ((ledger.contents id key).copy 0 length value))) := by
  unfold write
  rw [if_pos ⟨intact, fits⟩]

private theorem read_of_fits (intact : ledger.broken id = false)
    {contents : Memory} {size length : Nat} {stored : Option Nat}
    (fits : length ≤ maxTestSize ∧ length ≤ size) :
    ledger.read id contents size length stored =
      (⟨0, some ((Memory.zero.copy 0 length contents).slice 0 size), stored⟩,
        ledger) := by
  unfold read
  rw [if_pos ⟨intact, fits⟩]

variable {latest : Nat → CString → Option (Memory × Nat)}

/-- A key gets a new value. -/
theorem Shows.put (known : ledger.Shows terminator latest) {kept : Kept}
    {ledger' : Ledger} (bytes : Nat)
    (held : ledger'.held = (ledger.put id key kept).held)
    (broken : ledger'.broken = ledger.broken)
    (cached : ∀ other otherKey, ledger'.cached = some (other, otherKey) →
      (other = id ∧ otherKey = key ∧
        ∃ sent contents, kept = .buffer sent contents) ∨
      (¬ (other = id ∧ otherKey = key) ∧
        ledger.cached = some (other, otherKey)))
    (isLatest : kept = .inline (value.slice 0 valueLength) ∨
      ∃ sent contents, kept = .buffer sent contents ∧
        ∀ i < valueLength + terminator, contents i = value i) :
    ledger'.Shows terminator fun other otherKey =>
      (Call.set bytes id key value valueLength).record other otherKey
        (latest other otherKey) := by
  refine ⟨fun other => by rw [broken, known.intact], ?_, ?_, ?_⟩
  · intro other otherKey absent
    by_cases same : id = other ∧ key = otherKey
    · exact absurd ((if_pos same).symm.trans absent) (by simp)
    · have before : latest other otherKey = none :=
        (if_neg same).symm.trans absent
      rw [held, held_put_other _ fun both => same ⟨both.1.symm, both.2.symm⟩]
      exact known.missing other otherKey before
  · intro other otherKey found length isFound
    by_cases same : id = other ∧ key = otherKey
    · obtain ⟨rfl, rfl⟩ := same
      have newest := (if_pos ⟨rfl, rfl⟩).symm.trans isFound
      obtain ⟨rfl, rfl⟩ := Prod.mk.inj (Option.some.inj newest)
      rw [held, held_put_self]
      rcases isLatest with rfl | ⟨sent, contents, rfl, agree⟩
      · exact Or.inl rfl
      · exact Or.inr ⟨sent, contents, rfl, agree⟩
    · have before : latest other otherKey = some (found, length) :=
        (if_neg same).symm.trans isFound
      rw [held, held_put_other _ fun both => same ⟨both.1.symm, both.2.symm⟩]
      exact known.present other otherKey found length before
  · intro other otherKey isCached
    rcases cached other otherKey isCached with
      ⟨rfl, rfl, sent, contents, rfl⟩ | ⟨different, before⟩
    · exact ⟨sent, contents, by rw [held, held_put_self]⟩
    · rw [held, held_put_other _ different]
      exact known.cached other otherKey before

private theorem held_put_put (first second : Kept) :
    ((ledger.put id key first).put id key second).held =
      (ledger.put id key second).held := by
  funext other otherKey
  by_cases same : other = id ∧ otherKey = key
  · obtain ⟨rfl, rfl⟩ := same
    rw [held_put_self, held_put_self]
  · rw [held_put_other _ same, held_put_other _ same, held_put_other _ same]

private theorem cached_of_isCached_false {other : Nat} {otherKey : CString}
    (absent : ledger.isCached key = false)
    (cached : ledger.cached = some (other, otherKey)) : otherKey ≠ key := by
  rintro rfl
  rw [isCached_iff.mpr ⟨other, cached⟩] at absent
  exact absurd absent (by simp)

theorem Shows.invalidate (known : ledger.Shows terminator latest)
    (key : CString) :
    (ledger.invalidate key).Shows terminator latest := by
  refine ⟨?_, ?_, ?_, ?_⟩
  · rw [broken_invalidate]
    exact known.intact
  · rw [held_invalidate]
    exact known.missing
  · rw [held_invalidate]
    exact known.present
  · intro other otherKey cached
    rw [held_invalidate]
    unfold Ledger.invalidate at cached
    split at cached
    · exact absurd cached (by simp)
    · exact known.cached other otherKey cached

/-- A `kv_set` that stays in bounds succeeds, and its value is the latest. -/
theorem Shows.set (known : ledger.Shows terminator latest)
    (accepted : (Call.set terminator id key value valueLength).Accepted
      terminator) (one : terminator ≤ 1)
    (inside : (Call.set terminator id key value valueLength).InBounds ledger)
    (usable : ledger.Usable id key) :
    ∃ ledger', ledger.set terminator id key value valueLength =
        some (0, ledger') ∧
      ledger'.Shows terminator fun other otherKey =>
        (Call.set terminator id key value valueLength).record other otherKey
          (latest other otherKey) := by
  obtain ⟨_, short, small⟩ := accepted
  have bytesMod (count : Nat) (bound : count ≤ 1) :
      (valueLength + count) % unsignedRange = valueLength + count := by
    refine Nat.mod_eq_of_lt ?_
    simp only [eagerProtocolLimit, maxTestSize, unsignedRange] at small ⊢
    omega
  have noWrap (count : Nat) (bound : count ≤ 40) :
      (key.length + valueLength + count) % unsignedRange =
        key.length + valueLength + count := by
    refine Nat.mod_eq_of_lt ?_
    simp only [eagerProtocolLimit, sizeofPacket, maxTestSize,
      unsignedRange] at short small ⊢
    omega
  unfold Ledger.set
  by_cases isEager : IsEager terminator key valueLength
  · have fits : 12 + (key.length + 1) + (valueLength + terminator) ≤
        eagerProtocolLimit := by
      have small := isEager
      unfold IsEager at small
      rw [show key.length + valueLength + sizeofPacket + 1 + terminator =
        key.length + valueLength + (33 + terminator) by
          simp only [sizeofPacket]; omega, noWrap _ (by omega)] at small
      omega
    have known := known.invalidate key
    rw [if_pos isEager]
    simp only [if_pos fits, known.intact, Bool.false_eq_true, if_false]
    refine ⟨_, rfl, known.put terminator rfl rfl
      (fun other otherKey cached => Or.inr ⟨fun both => ?_, cached⟩)
      (Or.inl rfl)⟩
    exact cached_of_isCached_false isCached_invalidate cached both.2
  · have inside := inside.resolve_left isEager
    rw [if_neg isEager]
    by_cases hit : ledger.isCached key = true
    · rw [if_pos hit, bytesMod 1 le_rfl] at inside
      have intact : ({ ledger with cachedLength := valueLength } :
          Ledger).broken id = false := known.intact id
      rw [if_pos hit, bytesMod 1 le_rfl, write_of_fits intact inside]
      refine ⟨_, rfl, known.put terminator rfl rfl
        (fun other otherKey cached => Or.inl ?_)
        (Or.inr ⟨_, _, rfl, fun i bound => ?_⟩)⟩
      · obtain ⟨server, isCached⟩ := isCached_iff.mp hit
        have same := Option.some.inj (cached.symm.trans isCached)
        unfold Usable at usable
        rw [isCached] at usable
        obtain ⟨rfl, rfl⟩ := Prod.mk.inj same
        exact ⟨usable rfl, rfl, _, _, rfl⟩
      · rw [Memory.copy_inside _ _ (Nat.zero_le i) (by omega), Nat.sub_zero]
    · rw [if_neg hit, bytesMod terminator one] at inside
      rw [if_neg hit, bytesMod terminator one,
        if_pos ⟨known.intact id, short⟩]
      have intact : ((ledger.put id key (.buffer (valueLength + terminator)
          (ledger.contents id key))).cache id key valueLength).broken id =
          false := known.intact id
      simp only [write_of_fits intact inside]
      refine ⟨_, rfl, known.put terminator (held_put_put _ _) rfl
        (fun other otherKey cached => Or.inl ?_)
        (Or.inr ⟨_, _, rfl, fun i bound => ?_⟩)⟩
      · obtain ⟨rfl, rfl⟩ := Prod.mk.inj (Option.some.inj cached)
        exact ⟨rfl, rfl, _, _, rfl⟩
      · rw [Memory.copy_inside _ _ (Nat.zero_le i) (by omega), Nat.sub_zero]

/-! ## `kv_get` -/

theorem accepted_mod
    (short : key.length + 1 + sizeofPacket ≤ eagerProtocolLimit) :
    ¬ (key.length + 1 + sizeofPacket) % unsignedRange > eagerProtocolLimit :=
  not_lt.mpr ((Nat.mod_le _ _).trans short)

theorem get_hit (short : key.length + 1 + sizeofPacket ≤ eagerProtocolLimit)
    (intact : ledger.broken id = false) (hit : ledger.isCached key = true)
    (inside : (Call.get id key).InBounds ledger) :
    ledger.get id key =
      (some ⟨0, some ((Memory.zero.copy 0 ledger.cachedLength
        (ledger.contents id key)).slice 0
          ((ledger.cachedLength + 1) % unsignedRange)), none⟩, ledger) := by
  simp only [Call.InBounds, if_pos hit] at inside
  unfold Ledger.get
  rw [if_neg (accepted_mod short), if_pos hit]
  simp only [read_of_fits intact inside]

theorem get_miss (short : key.length + 1 + sizeofPacket ≤ eagerProtocolLimit)
    (intact : ledger.broken id = false) (miss : ledger.isCached key = false) :
    ledger.get id key = ledger.fetch id key := by
  have fits : ¬ 8 + (key.length + 1) > eagerProtocolLimit := by
    simp only [sizeofPacket] at short
    omega
  unfold Ledger.get
  simp only [if_neg (accepted_mod short), if_neg fits, miss, intact,
    Bool.false_eq_true, if_false]

theorem fetch_buffer (intact : ledger.broken id = false) {sent : Nat}
    {contents : Memory}
    (holds : ledger.held id key = some (.buffer sent contents))
    (inside : (sent + 1) % unsignedRange ≤ maxTestSize) :
    ledger.fetch id key =
      (some ⟨0, some ((Memory.zero.copy 0 ((sent + 1) % unsignedRange)
        contents).slice 0 ((sent + 1) % unsignedRange)), some sent⟩,
        ledger.cache id key sent) := by
  have intact' : (ledger.cache id key sent).broken id = false := intact
  unfold Ledger.fetch
  simp only [holds, read_of_fits intact' ⟨inside, le_rfl⟩]

theorem fetch_inline {bytes : List UInt8}
    (holds : ledger.held id key = some (.inline bytes)) :
    ledger.fetch id key =
      (some ⟨0, some (bytes ++ [0]), some bytes.length⟩, ledger) := by
  unfold Ledger.fetch
  simp only [holds]

theorem sentLength_of_inBuffer_false
    (elsewhere : ledger.inBuffer id key = false) :
    ledger.sentLength id key = 0 := by
  unfold inBuffer at elsewhere
  unfold Ledger.sentLength
  split at elsewhere
  · exact absurd elsewhere (by simp)
  · rfl

theorem fetch_missing (holds : ledger.held id key = none) :
    ledger.fetch id key = (none, ledger) := by
  unfold Ledger.fetch
  simp only [holds]

/-- A `kv_get` changes no value. -/
theorem Shows.get (known : ledger.Shows terminator latest)
    (short : key.length + 1 + sizeofPacket ≤ eagerProtocolLimit)
    (inside : (Call.get id key).InBounds ledger) :
    (ledger.get id key).2.Shows terminator latest := by
  have intact := known.intact id
  cases cached : ledger.isCached key with
  | true =>
      rw [get_hit short intact cached inside]
      exact known
  | false =>
      rw [get_miss short intact cached]
      cases holds : ledger.held id key with
      | none =>
          rw [fetch_missing holds]
          exact known
      | some kept =>
          cases kept with
          | inline bytes =>
              rw [fetch_inline holds]
              exact known
          | buffer sent contents =>
              simp only [Call.InBounds, cached, Bool.false_eq_true, if_false,
                sentLength, holds] at inside
              rw [fetch_buffer intact holds inside]
              refine ⟨known.intact, known.missing, known.present,
                fun other otherKey isCached => ?_⟩
              obtain ⟨rfl, rfl⟩ := Prod.mk.inj (Option.some.inj isCached)
              exact ⟨sent, contents, holds⟩

/-! ## Sequences -/

/-- The call is accepted, stays in bounds and may consult the cache. -/
structure Regular (terminator : Nat) (ledger : Ledger) (call : Call) :
    Prop where
  accepted : call.Accepted terminator
  inside : call.InBounds ledger
  usable : ledger.Usable call.server call.key

theorem Regular.short {call : Call} (regular : Regular terminator ledger call) :
    call.key.length + 1 + sizeofPacket ≤ eagerProtocolLimit := by
  cases call with
  | set bytes id key value valueLength => exact regular.accepted.2.1
  | get id key => exact regular.accepted

theorem Regular.allowed {bounded mayCrash : Prop} {call : Call}
    (regular : Regular terminator ledger call)
    (crash : call.MayCrash ledger → mayCrash) :
    call.Allowed bounded mayCrash ledger := by
  have short := regular.short
  have keyLength : call.key.length < unsignedRange := by
    have bound : eagerProtocolLimit < unsignedRange := by decide
    omega
  refine ⟨?_, crash, fun _ => regular.inside⟩
  cases call with
  | set bytes id key value valueLength =>
      exact ⟨keyLength, Or.inr regular.usable⟩
  | get id key => exact ⟨keyLength, regular.usable⟩

/-- What a `kv_get` of a key returns after a `kv_set` of it: the value that is
held, or what is read from the buffer with the cached length or with the one
that was sent to the server. -/
inductive Reads (terminator : Nat) (ledger : Ledger) (id : Nat)
    (key : CString) (value : Memory) (valueLength : Nat) : GetResult → Prop
  | inline (elsewhere : ledger.inBuffer id key = false)
      (miss : ledger.isCached key = false) :
      Reads terminator ledger id key value valueLength
        ⟨0, some (value.slice 0 valueLength ++ [0]), some valueLength⟩
  | cached {contents : Memory} (here : ledger.inBuffer id key = true)
      (hit : ledger.isCached key = true)
      (agree : ∀ i < valueLength + terminator, contents i = value i) :
      Reads terminator ledger id key value valueLength
        ⟨0, some ((Memory.zero.copy 0 ledger.cachedLength contents).slice 0
          ((ledger.cachedLength + 1) % unsignedRange)), none⟩
  | fetched {contents : Memory} (here : ledger.inBuffer id key = true)
      (miss : ledger.isCached key = false)
      (agree : ∀ i < valueLength + terminator, contents i = value i) :
      Reads terminator ledger id key value valueLength
        ⟨0, some ((Memory.zero.copy 0
          ((ledger.sentLength id key + 1) % unsignedRange) contents).slice 0
            ((ledger.sentLength id key + 1) % unsignedRange)),
          some (ledger.sentLength id key)⟩

/-- A `kv_get` of a key that was set reads its latest value. -/
theorem Shows.reads (known : ledger.Shows terminator latest)
    (regular : Regular terminator ledger (.get id key))
    (isLatest : latest id key = some (value, valueLength)) :
    ∃ result, (ledger.get id key).1 = some result ∧
      Reads terminator ledger id key value valueLength result := by
  obtain ⟨short, inside, usable⟩ := regular
  have intact := known.intact id
  rcases known.present id key value valueLength isLatest with
    holds | ⟨sent, contents, holds, agree⟩
  · have miss : ledger.isCached key = false := by
      by_contra hit
      obtain ⟨server, cached⟩ := isCached_iff.mp ((Bool.not_eq_false _).mp hit)
      obtain rfl : server = id := by
        simpa [Usable, cached, Call.key, Call.server] using usable
      obtain ⟨sent, contents, buffer⟩ := known.cached _ key cached
      exact absurd (holds.symm.trans buffer) (by simp)
    rw [get_miss short intact miss, fetch_inline holds, Memory.length_slice]
    exact ⟨_, rfl, .inline (by simp [inBuffer, holds]) miss⟩
  · have here : ledger.inBuffer id key = true := by
      simp [inBuffer, holds]
    cases hit : ledger.isCached key with
    | true =>
        have isContents : ledger.contents id key = contents := by
          simp [Ledger.contents, holds]
        rw [get_hit short intact hit inside, isContents]
        exact ⟨_, rfl, .cached here hit agree⟩
    | false =>
        have isSent : ledger.sentLength id key = sent := by
          simp [Ledger.sentLength, holds]
        simp only [Call.InBounds, hit, Bool.false_eq_true, if_false, isSent]
          at inside
        rw [get_miss short intact hit, fetch_buffer intact holds inside,
          ← isSent]
        exact ⟨_, rfl, .fetched here hit agree⟩

/-- Only a `kv_get` of a key that was not set may crash. -/
theorem Shows.missing_of_mayCrash (known : ledger.Shows terminator latest)
    (one : terminator ≤ 1) {call : Call}
    (regular : Regular terminator ledger call)
    (crashes : call.MayCrash ledger) :
    latest call.server call.key = none ∧
      call = .get call.server call.key := by
  cases call with
  | set bytes id key value valueLength =>
      obtain rfl := regular.accepted.1
      obtain ⟨ledger', computed, _⟩ :=
        known.set regular.accepted one regular.inside regular.usable
      exact absurd (crashes.symm.trans computed) (by simp)
  | get id key =>
      refine ⟨?_, rfl⟩
      cases isLatest : latest id key with
      | none => exact isLatest
      | some pair =>
          obtain ⟨result, computed, _⟩ := known.reads regular isLatest
          exact absurd (crashes.symm.trans computed) (by simp)

theorem Shows.after (known : ledger.Shows terminator latest)
    (one : terminator ≤ 1) {call : Call}
    (regular : Regular terminator ledger call) :
    (call.after ledger).Shows terminator fun id key =>
      call.record id key (latest id key) := by
  obtain ⟨accepted, inside, usable⟩ := regular
  cases call with
  | set bytes id key value valueLength =>
      obtain rfl := accepted.1
      obtain ⟨ledger', computed, after⟩ :=
        known.set accepted one inside usable
      simp only [Call.after, computed]
      exact after
  | get id key => exact known.get accepted inside

/-- After regular calls the ledger holds the latest values. -/
private theorem shows_afterAll (one : terminator ≤ 1) {calls : List Call}
    (regular : ∀ front call back, calls = front ++ call :: back →
      Regular terminator (Ledger.init.afterAll front) call) :
    (Ledger.init.afterAll calls).Shows terminator fun id key =>
      Call.latest id key calls := by
  induction calls using List.reverseRecOn with
  | nil => exact shows_init
  | append_singleton calls call inductionHypothesis =>
      have before := inductionHypothesis fun front other back split =>
        regular front other (back ++ [call]) (by rw [split]; simp)
      have after := before.after one (regular calls call [] rfl)
      simp only [Call.latest_append_singleton]
      rw [Ledger.afterAll, List.foldl_append]
      exact after

/-- The same for what a client calls with arguments of its own. -/
theorem shows_afterAll_map {C : Type} {toCall : C → Call}
    (one : terminator ≤ 1) {calls front back : List C}
    (regular : ∀ {front back call}, calls = front ++ call :: back →
      Regular terminator (Ledger.init.afterAll (front.map toCall))
        (toCall call))
    (split : calls = front ++ back) :
    (Ledger.init.afterAll (front.map toCall)).Shows terminator fun id key =>
      Call.latest id key (front.map toCall) := by
  refine shows_afterAll one fun before call after same => ?_
  obtain ⟨first, rest, rfl, rfl, mapped⟩ := List.map_eq_append_iff.mp same
  obtain ⟨other, later, rfl, rfl, rfl⟩ := List.map_eq_cons_iff.mp mapped
  have longer : calls = first ++ other :: (later ++ back) := by
    rw [split]
    simp
  exact regular longer

end Ledger

/-! ## The lengths stay below the size of a buffer -/

/-- A value that the call sets is, with its terminator, not longer. -/
def Call.SetsAtMost (limit : Nat) : Call → Prop
  | .set terminator _ _ _ valueLength => valueLength + terminator ≤ limit
  | .get _ _ => True

namespace Ledger

variable {ledger : Ledger} {limit id terminator valueLength : Nat}
  {key : CString} {value : Memory}

/-- The lengths that are cached or were sent. -/
structure Bounded (limit : Nat) (ledger : Ledger) : Prop where
  cachedLength : ledger.cachedLength ≤ limit
  sent : ∀ id key sent contents,
    ledger.held id key = some (.buffer sent contents) → sent ≤ limit

theorem bounded_init (limit : Nat) : Ledger.init.Bounded limit :=
  ⟨Nat.zero_le limit, fun _ _ _ _ holds => absurd holds (by simp [Ledger.init])⟩

theorem Bounded.put (bounded : ledger.Bounded limit) {kept : Kept}
    (short : ∀ sent contents, kept = .buffer sent contents → sent ≤ limit) :
    (ledger.put id key kept).Bounded limit := by
  refine ⟨bounded.cachedLength, fun other otherKey sent contents holds => ?_⟩
  by_cases same : other = id ∧ otherKey = key
  · obtain ⟨rfl, rfl⟩ := same
    rw [held_put_self] at holds
    exact short sent contents (Option.some.inj holds)
  · rw [held_put_other _ same] at holds
    exact bounded.sent other otherKey sent contents holds

theorem Bounded.sentLength (bounded : ledger.Bounded limit) (id : Nat)
    (key : CString) :
    ledger.sentLength id key ≤ limit := by
  unfold Ledger.sentLength
  split
  · rename_i sent contents holds
    exact bounded.sent id key sent contents holds
  · exact Nat.zero_le limit

theorem Bounded.cache (bounded : ledger.Bounded limit) {length : Nat}
    (short : length ≤ limit) : (ledger.cache id key length).Bounded limit :=
  ⟨short, bounded.sent⟩

theorem Bounded.invalidate (bounded : ledger.Bounded limit) :
    (ledger.invalidate key).Bounded limit := by
  unfold Ledger.invalidate
  split
  · exact ⟨bounded.cachedLength, bounded.sent⟩
  · exact bounded

theorem Bounded.write (bounded : ledger.Bounded limit) (length : Nat) :
    (ledger.write id key value length).2.Bounded limit := by
  unfold Ledger.write
  split
  · refine bounded.put fun sent contents same => ?_
    obtain ⟨rfl, _⟩ := Kept.buffer.inj same
    exact bounded.sentLength id key
  · exact ⟨bounded.cachedLength, bounded.sent⟩

theorem Bounded.read (bounded : ledger.Bounded limit) (contents : Memory)
    (size length : Nat) (stored : Option Nat) :
    (ledger.read id contents size length stored).2.Bounded limit := by
  unfold Ledger.read
  split
  · exact bounded
  · exact ⟨bounded.cachedLength, bounded.sent⟩

theorem Bounded.set (bounded : ledger.Bounded limit)
    (short : valueLength + terminator ≤ limit) :
    ((Call.set terminator id key value valueLength).after ledger).Bounded
      limit := by
  have sent : (valueLength + terminator) % unsignedRange ≤ limit :=
    (Nat.mod_le _ _).trans short
  have length : valueLength ≤ limit := by
    omega
  have cached : ({ ledger with cachedLength := valueLength } :
      Ledger).Bounded limit := ⟨length, bounded.sent⟩
  simp only [Call.after]
  cases computed : ledger.set terminator id key value valueLength with
  | none => exact bounded
  | some result =>
      unfold Ledger.set at computed
      simp only at computed
      split at computed
      · split at computed
        · split at computed <;> obtain rfl := Option.some.inj computed
          · exact bounded.invalidate
          · exact bounded.invalidate.put fun _ _ same => absurd same (by simp)
        · exact absurd computed (by simp)
      · split at computed
        · obtain rfl := Option.some.inj computed
          exact cached.write _
        · split at computed
          · obtain rfl := Option.some.inj computed
            refine Bounded.write (Bounded.cache (bounded.put ?_) length) _
            intro old contents same
            obtain ⟨rfl, _⟩ := Kept.buffer.inj same
            exact sent
          · exact absurd computed (by simp)

theorem Bounded.get (bounded : ledger.Bounded limit) :
    ((Call.get id key).after ledger).Bounded limit := by
  simp only [Call.after]
  unfold Ledger.get Ledger.fetch
  split
  · exact bounded
  · split
    · exact bounded.read _ _ _ _
    · split
      · exact bounded
      · split
        · exact bounded
        · split
          · exact bounded
          · exact bounded
          · rename_i sent contents holds
            exact (bounded.cache (bounded.sent id key sent contents holds)).read
              _ _ _ _

theorem Bounded.afterAll (bounded : ledger.Bounded limit) {calls : List Call}
    (short : ∀ call ∈ calls, call.SetsAtMost limit) :
    (ledger.afterAll calls).Bounded limit := by
  induction calls generalizing ledger with
  | nil => exact bounded
  | cons call calls inductionHypothesis =>
      have first := short call (List.mem_cons_self ..)
      have after : (call.after ledger).Bounded limit := by
        cases call with
        | set terminator server key value valueLength => exact bounded.set first
        | get server key => exact bounded.get
      exact inductionHypothesis after fun other member =>
        short other (List.mem_cons_of_mem _ member)

end Ledger

end RdmaKv
