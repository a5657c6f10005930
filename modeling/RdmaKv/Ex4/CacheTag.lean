import RdmaKv.Ex4.Posts

/-!
# The tag of the client's cache

`last_rndv_accessed_key` of `kv_client.c` and `nweb23.c`, byte for byte:
strings of different lengths are copied over each other, and the tag is
cleared by zeroing as many bytes as the key has.
-/

namespace RdmaKv

open ByteMemory

structure CacheGlobals where
  lastRndvAccessedKey : Memory
  lastAccessedKeyValLength : Nat
  lastAccessedServer : IbvMr

abbrev ShortKey := { key : CString // key.length < eagerProtocolLimit }

/-- A call of `kv_set`, with the length of the value, or of `kv_get`. -/
inductive CacheCall where
  | set (key : ShortKey) (valueLength : Nat)
  | get (key : ShortKey)

/-- What is in `ctx->buf` when the wait for a reply is over. -/
inductive Reply where
  | eagerGetResponse
  | rendezvousGetResponse (valueLength : Nat) (server : IbvMr)
  | rendezvousSetResponse (server : IbvMr)
  | other

/-- What a call does that matters for the cache: an `EAGER_SET_REQUEST` is
sent, a rendezvous reply is received, or an RDMA operation is posted. -/
inductive CacheEvent where
  | eagerSet (key : CString)
  | rendezvousReply (key : CString) (server : IbvMr)
  | rdma (key : CString) (server : IbvMr)
  deriving DecidableEq

namespace CacheGlobals

def init : CacheGlobals := ⟨Memory.zero, 0, ⟨0, 0⟩⟩

/-- `strcmp(key, last_rndv_accessed_key) == 0`. -/
def Tagged (globals : CacheGlobals) (key : CString) : Prop :=
  ∀ i < key.length + 1, globals.lastRndvAccessedKey i = key.memory i

instance (globals : CacheGlobals) (key : CString) :
    Decidable (globals.Tagged key) :=
  inferInstanceAs (Decidable (∀ i < key.length + 1, _ = _))

/-- `memset(last_rndv_accessed_key, '\0', key_length)`. -/
def memsetTag (globals : CacheGlobals) (keyLength : Nat) : CacheGlobals :=
  { globals with
    lastRndvAccessedKey :=
      globals.lastRndvAccessedKey.copy 0 keyLength Memory.zero
    lastAccessedKeyValLength := 0 }

/-- The key and where its buffer is. -/
def update (globals : CacheGlobals) (key : CString) (valLength : Nat)
    (server : IbvMr) : CacheGlobals where
  lastRndvAccessedKey :=
    globals.lastRndvAccessedKey.copy 0 (key.length + 1) key.memory
  lastAccessedKeyValLength := valLength
  lastAccessedServer := server

/-- `kv_set`, for a client that counts `terminator` bytes after a value.
`none` where an assertion fails. -/
def kvSet (terminator : Nat) (key : ShortKey) (valueLength : Nat)
    (reply : Option Reply) (globals : CacheGlobals) :
    Option (CacheGlobals × List CacheEvent) :=
  let packetSize := (key.1.length + valueLength + sizeofPacket + 1 +
    terminator) % unsignedRange
  if packetSize < eagerProtocolLimit then
    if globals.Tagged key then
      some (globals.memsetTag key.1.length, [.eagerSet key])
    else some (globals, [.eagerSet key])
  else if globals.Tagged key then
    some ({ globals with lastAccessedKeyValLength := valueLength },
      [.rdma key globals.lastAccessedServer])
  else
    match reply with
    | some (.rendezvousSetResponse server) =>
        some (globals.update key valueLength server,
          [.rendezvousReply key server, .rdma key server])
    | _ => none

/-- `kv_get`, which does not look at how its waits end. -/
def kvGet (key : ShortKey) (reply : Option Reply) (globals : CacheGlobals) :
    CacheGlobals × List CacheEvent :=
  let packetSize := key.1.length + 1 + sizeofPacket
  if packetSize > eagerProtocolLimit then (globals, [])
  else if globals.Tagged key then
    (globals, [.rdma key globals.lastAccessedServer])
  else
    match reply with
    | some (.rendezvousGetResponse valueLength server) =>
        (globals.update key valueLength server,
          [.rendezvousReply key server, .rdma key server])
    | _ => (globals, [])

/-- One call. -/
def perform (terminator : Nat) (globals : CacheGlobals)
    (reply : Option Reply) : CacheCall →
      Option (CacheGlobals × List CacheEvent)
  | .set key valueLength => globals.kvSet terminator key valueLength reply
  | .get key => some (globals.kvGet key reply)

def performAll (terminator : Nat) : List (CacheCall × Option Reply) →
    CacheGlobals × List CacheEvent → Option (CacheGlobals × List CacheEvent)
  | [], state => some state
  | (call, reply) :: rest, (globals, events) => do
      let (globals, new) ← globals.perform terminator reply call
      performAll terminator rest (globals, events ++ new)

end CacheGlobals

/-! ## What has been obtained -/

/-- The last rendezvous reply was for the key, and no eager `kv_set` of the
key was sent since. -/
def ObtainedAt (key : CString) (server : IbvMr) (events : List CacheEvent) :
    Prop :=
  ∃ before after, events = before ++ .rendezvousReply key server :: after ∧
    (∀ other mr, .rendezvousReply other mr ∉ after) ∧ .eagerSet key ∉ after

def Obtained (key : CString) (events : List CacheEvent) : Prop :=
  ∃ server, ObtainedAt key server events

private theorem obtainedAt_append {key : CString} {server : IbvMr}
    {events : List CacheEvent} {event : CacheEvent} :
    ObtainedAt key server (events ++ [event]) ↔
      event = .rendezvousReply key server ∨
        ObtainedAt key server events ∧
          (∀ other mr, event ≠ .rendezvousReply other mr) ∧
          event ≠ .eagerSet key := by
  constructor
  · rintro ⟨before, after, split, noReply, noSet⟩
    rcases List.eq_nil_or_concat after with rfl | ⟨init, last, rfl⟩
    · exact Or.inl (List.singleton_inj.mp (List.append_inj' split rfl).2)
    · simp only [List.concat_eq_append] at split noReply noSet
      rw [← List.cons_append, ← List.append_assoc] at split
      obtain ⟨isInit, isLast⟩ := List.append_inj' split rfl
      obtain rfl := List.singleton_inj.mp isLast
      simp only [List.mem_append, List.mem_singleton, not_or] at noReply noSet
      exact Or.inr ⟨⟨before, init, isInit, fun other mr => (noReply other mr).1,
        noSet.1⟩, fun other mr => Ne.symm (noReply other mr).2,
        Ne.symm noSet.2⟩
  · rintro (rfl | ⟨⟨before, after, rfl, noReply, noSet⟩, other, different⟩)
    · exact ⟨events, [], rfl, fun _ _ => List.not_mem_nil, List.not_mem_nil⟩
    · refine ⟨before, after ++ [event], by simp, fun key mr member => ?_,
        fun member => ?_⟩
      · rcases List.mem_append.mp member with old | new
        · exact noReply key mr old
        · exact other key mr (List.mem_singleton.mp new).symm
      · rcases List.mem_append.mp member with old | new
        · exact noSet old
        · exact different (List.mem_singleton.mp new).symm

/-- What the events leave in the cache. -/
def CacheEvent.entryAfter (entry : Option (CString × IbvMr)) :
    CacheEvent → Option (CString × IbvMr)
  | eagerSet key => if entry.map Prod.fst = some key then none else entry
  | rendezvousReply key server => some (key, server)
  | rdma _ _ => entry

def entry (events : List CacheEvent) : Option (CString × IbvMr) :=
  events.foldl CacheEvent.entryAfter none

private theorem entry_append (events : List CacheEvent) (event : CacheEvent) :
    entry (events ++ [event]) = event.entryAfter (entry events) := by
  rw [entry, List.foldl_append]
  rfl

private theorem entry_eq_some_iff {key : CString} {server : IbvMr}
    {events : List CacheEvent} :
    entry events = some (key, server) ↔ ObtainedAt key server events := by
  induction events using List.reverseRecOn with
  | nil =>
      refine iff_of_false (by simp [entry]) ?_
      rintro ⟨before, after, split, _⟩
      simp at split
  | append_singleton events event inductionHypothesis =>
      rw [entry_append, obtainedAt_append, ← inductionHypothesis]
      cases event with
      | eagerSet other =>
          cases entry events with
          | none => simp [CacheEvent.entryAfter]
          | some cached =>
              obtain ⟨cachedKey, mr⟩ := cached
              by_cases same : cachedKey = other
              · simp only [CacheEvent.entryAfter, Option.map_some, same,
                  if_true, Option.some.injEq, Prod.mk.injEq]
                simp only [reduceCtorEq, ne_eq, not_false_eq_true,
                  implies_true, CacheEvent.eagerSet.injEq, true_and, false_or,
                  false_iff]
                exact fun both => both.2 both.1.1
              · simp only [CacheEvent.entryAfter, Option.map_some,
                  Option.some.injEq, same, if_false, Prod.mk.injEq]
                simp only [ne_eq, reduceCtorEq, not_false_eq_true,
                  implies_true, CacheEvent.eagerSet.injEq, true_and, false_or]
                constructor
                · rintro ⟨rfl, rfl⟩
                  exact ⟨⟨rfl, rfl⟩, fun isOther => same isOther.symm⟩
                · exact fun both => both.1
      | rendezvousReply other mr => simp [CacheEvent.entryAfter]
      | rdma other mr => simp [CacheEvent.entryAfter]

private theorem entry_ne_none_iff {events : List CacheEvent} :
    entry events ≠ none ↔ ∃ key, Obtained key events := by
  constructor
  · intro present
    obtain ⟨⟨key, server⟩, isEntry⟩ := Option.ne_none_iff_exists'.mp present
    exact ⟨key, server, entry_eq_some_iff.mp isEntry⟩
  · rintro ⟨key, server, obtained⟩ absent
    rw [entry_eq_some_iff.mpr obtained] at absent
    exact absurd absent (by simp)

/-! ## The bytes -/

namespace CacheGlobals

variable {globals : CacheGlobals} {key other : CString}

/-- At most one key has the tag. -/
theorem Tagged.eq (tagged : globals.Tagged key) (again : globals.Tagged other) :
    key = other := by
  rcases Nat.le_total key.length other.length with shorter | longer
  · exact CString.eq_of_memory_eq fun i inside =>
      (tagged i (by omega)).symm.trans (again i (by omega))
  · exact (CString.eq_of_memory_eq fun i inside =>
      (again i (by omega)).symm.trans (tagged i (by omega))).symm

private theorem tagged_init : init.Tagged CString.empty := fun i inside => by
  obtain rfl : i = 0 := by simpa using inside
  rfl

/-- After `strcpy` the tag is the key, whatever was there. -/
private theorem tagged_update (globals : CacheGlobals) (key : CString)
    (valLength : Nat) (server : IbvMr) :
    (globals.update key valLength server).Tagged key := fun i inside => by
  refine (Memory.copy_inside _ _ (Nat.zero_le i) (by omega)).trans ?_
  rw [Nat.sub_zero]

/-- `memset` makes the tag empty: its first byte is zero, also where the key
is empty and no byte is written. -/
theorem Tagged.memsetTag (tagged : globals.Tagged key) :
    (globals.memsetTag key.length).Tagged CString.empty := fun i inside => by
  obtain rfl : i = 0 := by simpa using inside
  by_cases empty : key.length = 0
  · have first := tagged 0 (Nat.succ_pos _)
    refine (Memory.copy_outside _ _ (Or.inr (by omega))).trans ?_
    rw [first, key.memory_after (by omega)]
    rfl
  · exact Memory.copy_inside _ _ (Nat.le_refl 0) (by omega)

/-- The tag and the server are those of the entry, and without an entry the
tag is the empty string. -/
def Matches (globals : CacheGlobals) : Option (CString × IbvMr) → Prop
  | some (key, server) =>
      globals.Tagged key ∧ globals.lastAccessedServer = server
  | none => globals.Tagged CString.empty

/-- The tag of a key means that the entry is for the key, unless the key is
empty and there is no entry. -/
def Exact (entry : Option (CString × IbvMr)) (key : CString) : Prop :=
  key ≠ CString.empty ∨ entry ≠ none

theorem Matches.tagged_iff {entry : Option (CString × IbvMr)}
    (isMatch : globals.Matches entry) (key : CString) :
    (globals.Tagged key ↔ entry.map Prod.fst = some key) ↔
      Exact entry key := by
  cases entry with
  | some cached =>
      obtain ⟨cachedKey, server⟩ := cached
      have tagged : globals.Tagged cachedKey := isMatch.1
      refine iff_of_true ⟨fun again => ?_, fun same => ?_⟩ (Or.inr (by simp))
      · rw [tagged.eq again]
        rfl
      · rwa [← Option.some.inj same]
  | none =>
      have tagged : globals.Tagged CString.empty := isMatch
      simp only [Option.map_none, Exact, ne_eq, not_true_eq_false, or_false,
        reduceCtorEq, iff_false]
      refine not_congr ⟨fun again => again.eq tagged, fun same => ?_⟩
      rwa [same]

/-- An operation that is posted for a key names the server of the entry. -/
theorem Matches.rdma_iff {entry : Option (CString × IbvMr)}
    (isMatch : globals.Matches entry) (tagged : globals.Tagged key) :
    entry = some (key, globals.lastAccessedServer) ↔ Exact entry key := by
  cases entry with
  | some cached =>
      obtain ⟨cachedKey, server⟩ := cached
      obtain ⟨isTag, rfl⟩ := isMatch
      rw [isTag.eq tagged]
      exact iff_of_true rfl (Or.inr (by simp))
  | none =>
      have empty : key = CString.empty := tagged.eq isMatch
      exact iff_of_false (by simp) (by simp [Exact, empty])

/-! ## One call -/

/-- What one call keeps: the tag matches the entry, and what it posts is for
the entry exactly if it is not for the empty key without one. -/
structure Kept (globals : CacheGlobals) (events new : List CacheEvent) :
    Prop where
  isMatch : globals.Matches (entry (events ++ new))
  posts : ∀ before key server after, new = before ++ .rdma key server :: after →
    (entry (events ++ before) = some (key, server) ↔
      Exact (entry (events ++ before)) key)

variable {events : List CacheEvent}

theorem Matches.kept_nil (isMatch : globals.Matches (entry events)) :
    globals.Kept events [] :=
  ⟨by rwa [List.append_nil], fun before key server after split =>
    absurd split (by simp)⟩

theorem Matches.kept_eagerSet (isMatch : globals.Matches (entry events))
    {key : CString} {cleared : CacheGlobals}
    (hit : globals.Tagged key → cleared.Tagged CString.empty)
    (miss : ¬ globals.Tagged key → cleared = globals) :
    cleared.Kept events [.eagerSet key] := by
  refine ⟨?_, fun before other server after split => ?_⟩
  · rw [entry_append]
    have tagIff := isMatch.tagged_iff key
    by_cases tagged : globals.Tagged key
    · have empty := hit tagged
      cases cached : entry events with
      | none => exact empty
      | some pair =>
          obtain ⟨cachedKey, server⟩ := pair
          rw [cached] at isMatch
          have same : cachedKey = key := isMatch.1.eq tagged
          simpa [CacheEvent.entryAfter, same, Matches] using empty
    · obtain rfl := miss tagged
      cases cached : entry events with
      | none =>
          rw [cached] at isMatch
          exact isMatch
      | some pair =>
          obtain ⟨cachedKey, server⟩ := pair
          rw [cached] at isMatch
          have different : cachedKey ≠ key := fun same =>
            tagged (same ▸ isMatch.1)
          simpa [CacheEvent.entryAfter, different] using isMatch
  · rcases before with _ | ⟨first, rest⟩
    · exact absurd split (by simp)
    · exact absurd split (by simp)

theorem Matches.kept_rdma (isMatch : globals.Matches (entry events))
    {key : CString} (tagged : globals.Tagged key) {valLength : Nat} :
    CacheGlobals.Kept { globals with lastAccessedKeyValLength := valLength }
      events [.rdma key globals.lastAccessedServer] := by
  refine ⟨?_, fun before other server after split => ?_⟩
  · rw [entry_append]
    exact isMatch
  · rcases before with _ | ⟨first, rest⟩
    · obtain ⟨same, rfl⟩ := List.cons.inj split
      obtain ⟨rfl, rfl⟩ := CacheEvent.rdma.inj same
      rw [List.append_nil]
      exact isMatch.rdma_iff tagged
    · exact absurd split (by simp)

private theorem kept_update (globals : CacheGlobals) (events : List CacheEvent)
    (key : CString) (valLength : Nat) (server : IbvMr) :
    (globals.update key valLength server).Kept events
      [.rendezvousReply key server, .rdma key server] := by
  have obtained : entry (events ++ [.rendezvousReply key server]) =
      some (key, server) := by
    rw [entry_append]
    rfl
  refine ⟨?_, fun before other mr after split => ?_⟩
  · rw [List.append_cons, entry_append, obtained]
    exact ⟨globals.tagged_update key valLength server, rfl⟩
  · rcases before with _ | ⟨first, _ | ⟨second, rest⟩⟩
    · exact absurd split (by simp)
    · obtain ⟨rfl, same⟩ := List.cons.inj split
      obtain ⟨isRdma, rfl⟩ := List.cons.inj same
      obtain ⟨rfl, rfl⟩ := CacheEvent.rdma.inj isRdma
      rw [obtained]
      exact iff_of_true rfl (Or.inr (by simp))
    · exact absurd split (by simp)

private theorem kept_kvSet {terminator valueLength : Nat} {key : ShortKey}
    {reply : Option Reply} {after : CacheGlobals} {new : List CacheEvent}
    (isMatch : globals.Matches (entry events))
    (ran : globals.kvSet terminator key valueLength reply =
      some (after, new)) : after.Kept events new := by
  unfold kvSet at ran
  simp only at ran
  split at ran
  · split at ran
    · rename_i tagged
      obtain ⟨rfl, rfl⟩ := Prod.mk.inj (Option.some.inj ran)
      exact isMatch.kept_eagerSet (fun tagged => tagged.memsetTag)
        fun other => absurd tagged other
    · rename_i other
      obtain ⟨rfl, rfl⟩ := Prod.mk.inj (Option.some.inj ran)
      exact isMatch.kept_eagerSet (fun tagged => absurd tagged other)
        fun _ => rfl
  · split at ran
    · rename_i tagged
      obtain ⟨rfl, rfl⟩ := Prod.mk.inj (Option.some.inj ran)
      exact isMatch.kept_rdma tagged
    · split at ran
      · obtain ⟨rfl, rfl⟩ := Prod.mk.inj (Option.some.inj ran)
        exact kept_update globals events _ _ _
      · exact absurd ran (by simp)

private theorem kept_kvGet {key : ShortKey} {reply : Option Reply}
    (isMatch : globals.Matches (entry events)) :
    (globals.kvGet key reply).1.Kept events (globals.kvGet key reply).2 := by
  unfold kvGet
  simp only
  split
  · exact isMatch.kept_nil
  · split
    · rename_i tagged
      exact isMatch.kept_rdma tagged
    · split
      · exact kept_update globals events _ _ _
      · exact isMatch.kept_nil

private theorem kept_perform {terminator : Nat} {call : CacheCall}
    {reply : Option Reply} {after : CacheGlobals} {new : List CacheEvent}
    (isMatch : globals.Matches (entry events))
    (ran : globals.perform terminator reply call = some (after, new)) :
    after.Kept events new := by
  cases call with
  | set key valueLength => exact kept_kvSet isMatch ran
  | get key =>
      have same := Option.some.inj ran
      have kept := @kept_kvGet globals events key reply isMatch
      rwa [same] at kept

/-! ## The clients -/

structure Shows (client : Client) (globals : CacheGlobals) : Prop where
  tag : globals.Tagged client.lastRndvAccessedKey
  valLength : client.lastAccessedKeyValLength =
    globals.lastAccessedKeyValLength
  server : client.lastAccessedServer = globals.lastAccessedServer

theorem Shows.tagged_iff {client : Client} (isShown : Shows client globals) :
    globals.Tagged key ↔ key = client.lastRndvAccessedKey :=
  ⟨fun tagged => tagged.eq isShown.tag, fun same => same ▸ isShown.tag⟩

@[simp]
theorem lastRndvAccessedKey_setBuf (client : Client) (conn : Conn)
    (buf : Memory) : (client.setBuf conn buf).lastRndvAccessedKey =
      client.lastRndvAccessedKey := rfl

theorem Shows.setBuf {client : Client} (isShown : Shows client globals)
    (conn : Conn) (buf : Memory) : Shows (client.setBuf conn buf) globals :=
  ⟨isShown.tag, isShown.valLength, isShown.server⟩

theorem Shows.invalidate {client : Client} (isShown : Shows client globals)
    (key : CString) : ∃ after,
      (if key = client.lastRndvAccessedKey then
        some (globals.memsetTag key.length, [CacheEvent.eagerSet key])
      else some (globals, [.eagerSet key])) =
        some (after, [.eagerSet key]) ∧
      Shows (client.invalidate key) after := by
  unfold Client.invalidate
  split
  · rename_i same
    have tagged : globals.Tagged key := isShown.tagged_iff.mpr same
    exact ⟨_, rfl, tagged.memsetTag, rfl, isShown.server⟩
  · exact ⟨_, rfl, isShown⟩

private theorem shows_cache (client : Client) (globals : CacheGlobals)
    (key : CString)
    (valLength : Nat) (server : IbvMr) :
    Shows (client.cache key valLength server)
      (globals.update key valLength server) :=
  ⟨globals.tagged_update key valLength server, rfl, rfl⟩

/-- Whatever is answered, `kv_set` leaves the globals as the bytes do. -/
theorem always_kvSet_shows {terminator server valueLength : Nat}
    {key : ShortKey} {value : Memory} {client : Client}
    (isShown : Shows client globals) :
    (kvSetWith terminator server key.1 value valueLength client).Always
      (fun _ => True)
      fun result => ∃ reply after new,
        globals.kvSet terminator key valueLength reply = some (after, new) ∧
          Shows result.2 after := by
  have keyLength : key.1.length % unsignedRange = key.1.length :=
    Nat.mod_eq_of_lt (Nat.lt_trans key.2 (by decide))
  unfold kvSetWith kvSet
  simp only [keyLength, isShown.tagged_iff, lastRndvAccessedKey_setBuf]
  split
  · obtain ⟨after, cleared, isCleared⟩ := isShown.invalidate key
    unfold eagerSetWith
    simp only [cleared]
    split
    · exact ⟨trivial, fun sent => ⟨none, after, _, rfl,
        isCleared.setBuf _ _⟩⟩
    · trivial
  · split
    · exact ⟨trivial, fun written => ⟨none, _, _, rfl, isShown.tag, rfl,
        isShown.server⟩⟩
    · unfold rendezvousSetWith
      simp only
      split
      · refine always_exchange ?_ ?_ fun replied => ?_
        · trivial
        · trivial
        cases replied with
        | none => trivial
        | some client =>
            simp only
            split
            · exact ⟨trivial, fun written => ⟨some (.rendezvousSetResponse _),
                _, _, rfl, shows_cache _ _ _ _ _⟩⟩
            · trivial
      · trivial

private theorem always_getReply_shows {server : Nat} {key : ShortKey}
    {client : Client} (isShown : Shows client globals)
    (small : ¬ key.1.length + 1 + sizeofPacket > eagerProtocolLimit)
    (missed : ¬ globals.Tagged key) :
    (getReply server key client).Always (fun _ => True) fun result =>
      ∃ reply, Shows result.2 (globals.kvGet key reply).1 := by
  have nothing : (globals.kvGet key none).1 = globals := by
    simp [kvGet, if_neg missed]
  unfold getReply
  simp only
  split
  · split
    · exact ⟨none, by rwa [nothing]⟩
    · trivial
  · split
    · let buf := client.buf (.server server)
      refine ⟨trivial, fun bytes => ⟨some (.rendezvousGetResponse
        (buf.loadLE 8 4) ⟨UInt64.ofNat (buf.loadLE 16 8),
          UInt32.ofNat (buf.loadLE 24 4)⟩), ?_⟩⟩
      simp only [kvGet, if_neg small, if_neg missed]
      exact shows_cache _ _ _ _ _
    · exact ⟨none, by rwa [nothing]⟩

/-- So does `kv_get`. -/
theorem always_kvGet_shows {server : Nat} {key : ShortKey} {client : Client}
    (isShown : Shows client globals) :
    (RdmaKv.kvGet server key.1 client).Always (fun _ => True)
      fun result => ∃ reply, Shows result.2 (globals.kvGet key reply).1 := by
  have keyLength : key.1.length % unsignedRange = key.1.length :=
    Nat.mod_eq_of_lt (Nat.lt_trans key.2 (by decide))
  have packetSize : (key.1.length + 1 + sizeofPacket) % unsignedRange =
      key.1.length + 1 + sizeofPacket := by
    have short := key.2
    simp only [eagerProtocolLimit, sizeofPacket, unsignedRange] at short ⊢
    omega
  unfold RdmaKv.kvGet
  simp only [keyLength, packetSize]
  split
  · rename_i large
    exact ⟨none, by simpa [kvGet, if_pos large] using isShown⟩
  · rename_i small
    split
    · rename_i other
      have missed : ¬ globals.Tagged key := fun tagged =>
        other (isShown.tagged_iff.mp tagged)
      split
      · have waits := isShown.setBuf (.server server)
          (((client.buf (.server server)).storeLE 0 4
            PacketType.eagerGetRequest.code).copy 8 (key.1.length + 1)
              key.1.memory)
        refine always_exchange_setBuf ?_ ?_ ?_ fun reply => ?_
        · trivial
        · trivial
        · exact always_getReply_shows waits small missed
        · exact always_getReply_shows (waits.setBuf _ reply) small missed
      · trivial
    · rename_i same
      have tagged := isShown.tagged_iff.mpr (not_not.mp same)
      exact ⟨trivial, fun bytes => ⟨none, by
        simpa [kvGet, if_neg small, if_pos tagged] using isShown⟩⟩

/-! ## All calls -/

/-- Everything that was posted so far is for the entry exactly if it is not
for the empty key without one. -/
def PostsExact (events : List CacheEvent) : Prop :=
  ∀ before key server after, events = before ++ .rdma key server :: after →
    (entry before = some (key, server) ↔ Exact (entry before) key)

theorem Kept.postsExact {new : List CacheEvent} (kept : globals.Kept events new)
    (posts : PostsExact events) : PostsExact (events ++ new) := by
  intro before key server after split
  rcases List.append_eq_append_iff.mp split with
    ⟨middle, rfl, isNew⟩ | ⟨middle, isOld, isAfter⟩
  · exact kept.posts middle key server after isNew
  · rcases middle with _ | ⟨first, rest⟩
    · rw [List.append_nil] at isOld
      subst isOld
      have inNew := kept.posts [] key server after isAfter.symm
      rwa [List.append_nil] at inNew
    · obtain ⟨rfl, rfl⟩ := List.cons.inj isAfter
      exact posts before key server rest isOld

private theorem kept_performAll {terminator : Nat}
    {calls : List (CacheCall × Option Reply)} {after : CacheGlobals}
    {later : List CacheEvent} (isMatch : globals.Matches (entry events))
    (posts : PostsExact events)
    (ran : performAll terminator calls (globals, events) =
      some (after, later)) :
    after.Matches (entry later) ∧ PostsExact later := by
  induction calls generalizing globals events with
  | nil =>
      obtain ⟨rfl, rfl⟩ := Prod.mk.inj (Option.some.inj ran)
      exact ⟨isMatch, posts⟩
  | cons first rest inductionHypothesis =>
      obtain ⟨⟨next, new⟩, performed, remaining⟩ :=
        Option.bind_eq_some_iff.mp ran
      have kept := kept_perform isMatch performed
      exact inductionHypothesis kept.isMatch (kept.postsExact posts) remaining

/-- After any calls of either client: the test of the tag is right about a key,
and an RDMA operation goes where the key's buffer is, exactly if the key is
not empty or the cache has an entry. -/
theorem tag_exact_iff {terminator : Nat}
    {calls : List (CacheCall × Option Reply)} {events : List CacheEvent}
    (ran : performAll terminator calls (init, []) = some (globals, events)) :
    (∀ key, (globals.Tagged key ↔ Obtained key events) ↔
      (key ≠ CString.empty ∨ ∃ other, Obtained other events)) ∧
    ∀ before key server after,
      events = before ++ .rdma key server :: after →
        (ObtainedAt key server before ↔
          (key ≠ CString.empty ∨ ∃ other, Obtained other before)) := by
  have start : CacheGlobals.Matches init (entry []) := tagged_init
  obtain ⟨isMatch, posts⟩ := kept_performAll start
    (fun before key server after split => absurd split (by simp)) ran
  refine ⟨fun key => ?_, fun before key server after split => ?_⟩
  · have obtained : Obtained key events ↔
        (entry events).map Prod.fst = some key := by
      rw [Option.map_eq_some_iff]
      constructor
      · rintro ⟨server, obtained⟩
        exact ⟨_, entry_eq_some_iff.mpr obtained, rfl⟩
      · rintro ⟨⟨_, server⟩, isEntry, rfl⟩
        exact ⟨server, entry_eq_some_iff.mp isEntry⟩
    rw [obtained, isMatch.tagged_iff key, Exact, entry_ne_none_iff]
  · rw [← entry_eq_some_iff, posts before key server after split, Exact,
      entry_ne_none_iff]

def emptyKey : ShortKey := ⟨CString.empty, by decide⟩

def letterKey : ShortKey :=
  ⟨Sample.firstKey, by decide⟩

def longerKey : ShortKey :=
  ⟨CString.replicate 3 100 (by decide), by decide⟩

/-- A longer key is cached, a shorter one is copied over it, and an eager set of
that clears the tag. -/
def clearing : List (CacheCall × Option Reply) :=
  [(.set longerKey 5000, some (.rendezvousSetResponse ⟨1, 2⟩)),
    (.get letterKey, some (.rendezvousGetResponse 5000 ⟨3, 4⟩)),
    (.get letterKey, none), (.set letterKey 1, none)]

def clearingEvents : List CacheEvent :=
  [.rendezvousReply longerKey ⟨1, 2⟩, .rdma longerKey ⟨1, 2⟩,
    .rendezvousReply letterKey ⟨3, 4⟩, .rdma letterKey ⟨3, 4⟩,
    .rdma letterKey ⟨3, 4⟩, .eagerSet letterKey]

theorem tag_exact_iff_clearing : ∃ globals,
    performAll 1 clearing (init, []) = some (globals, clearingEvents) ∧
      (∀ key ∈ [longerKey, letterKey],
        (globals.Tagged key ↔ Obtained key clearingEvents)) ∧
      ObtainedAt letterKey ⟨3, 4⟩ (clearingEvents.take 4) := by
  have events : (performAll 1 clearing (init, [])).map Prod.snd =
      some clearingEvents := by
    decide +kernel
  obtain ⟨⟨globals, _⟩, ran, rfl⟩ := Option.map_eq_some_iff.mp events
  obtain ⟨tags, posts⟩ := tag_exact_iff ran
  have nonempty : ∀ key ∈ [longerKey, letterKey], key.1 ≠ CString.empty := by
    decide
  refine ⟨globals, ran, fun key member => (tags key).mpr (Or.inl
    (nonempty key member)), ?_⟩
  exact (posts (clearingEvents.take 4) letterKey ⟨3, 4⟩ [.eagerSet letterKey]
    rfl).mpr (Or.inl (by decide))

theorem tag_exact_fails :
    ¬ ∀ (terminator : Nat) (calls : List (CacheCall × Option Reply)) globals
        events, performAll terminator calls (init, []) =
          some (globals, events) →
        (∀ key, globals.Tagged key ↔ Obtained key events) ∧
        ∀ before key server after,
          events = before ++ .rdma key server :: after →
            ObtainedAt key server before := by
  intro always
  have obtained := (always 1 [(.get emptyKey, none)] init
    [.rdma CString.empty ⟨0, 0⟩] rfl).2 [] CString.empty ⟨0, 0⟩ [] rfl
  obtain ⟨before, after, split, _⟩ := obtained
  exact absurd split (by simp)

end CacheGlobals

end RdmaKv
