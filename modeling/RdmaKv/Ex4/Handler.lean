import RdmaKv.Ex4.Entries

/-!
# What one request does

The entries of a server as a map from keys to what is held under them, and,
for every request, the new map, the reply, and what happens to the buffers:
nothing, one is tainted, or one is taken from the pool.
-/

namespace RdmaKv

open ByteMemory

inductive Held where
  | inline (value : List UInt8)
  | buffer (valueLength node : Nat)
  deriving DecidableEq

namespace KvEntry

def held (entry : KvEntry) : Option Held :=
  match entry.value with
  | some value => some (.inline value)
  | none => entry.largeValMemInfo.map (Held.buffer entry.valLen)

theorem WellFormed.held_inline {entry : KvEntry}
    (wellFormed : entry.WellFormed) {value : List UInt8}
    (holds : entry.held = some (.inline value)) :
    entry.value = some value ∧ entry.valLen = value.length ∧
      entry.largeValMemInfo = none := by
  rcases wellFormed.form with ⟨inside, isValue, length, noBuffer⟩ | ⟨noValue, _, _⟩
  · simp only [held, isValue, Option.some.injEq, Held.inline.injEq] at holds
    subst holds
    exact ⟨isValue, length.symm, noBuffer⟩
  · simp [held, noValue] at holds

theorem WellFormed.held_buffer {entry : KvEntry}
    (wellFormed : entry.WellFormed) {valueLength node : Nat}
    (holds : entry.held = some (.buffer valueLength node)) :
    entry.value = none ∧ entry.valLen = valueLength ∧
      entry.largeValMemInfo = some node := by
  rcases wellFormed.form with ⟨_, isValue, _, _⟩ | ⟨noValue, owner, buffer⟩
  · simp [held, isValue] at holds
  · simp only [held, noValue, buffer, Option.map_some, Option.some.injEq,
      Held.buffer.injEq] at holds
    obtain ⟨rfl, rfl⟩ := holds
    exact ⟨noValue, rfl, buffer⟩

theorem WellFormed.held_isSome {entry : KvEntry}
    (wellFormed : entry.WellFormed) : entry.held.isSome := by
  rcases wellFormed.form with ⟨_, isValue, _, _⟩ | ⟨noValue, _, buffer⟩
  · simp [held, isValue]
  · simp [held, noValue, buffer]

end KvEntry

namespace Server

variable {s s' : Server}

def WellFormed (s : Server) : Prop :=
  ∀ entry ∈ s.entries, entry.WellFormed

def held (s : Server) (key : CString) : Option Held :=
  (s.findEntry key).bind KvEntry.held

theorem held_of_findEntry {key : CString} {entry : KvEntry}
    (found : s.findEntry key = some entry) : s.held key = entry.held := by
  simp [held, found]

private theorem held_of_absent {key : CString}
    (absent : s.findEntry key = none) :
    s.held key = none := by
  simp [held, absent]

theorem held_eq_none_iff (wellFormed : s.WellFormed) {key : CString} :
    s.held key = none ↔ s.findEntry key = none := by
  constructor
  · intro empty
    cases found : s.findEntry key with
    | none => rfl
    | some entry =>
        have present := (wellFormed entry (findEntry_mem found)).held_isSome
        rw [held_of_findEntry found] at empty
        simp [empty] at present
  · exact held_of_absent

/-- What is held comes from an entry that holds it. -/
theorem findEntry_of_held {key : CString} {holding : Held}
    (holds : s.held key = some holding) :
    ∃ entry, s.findEntry key = some entry ∧ entry.held = some holding := by
  cases found : s.findEntry key with
  | none => simp [held, found] at holds
  | some entry => exact ⟨entry, rfl, by rwa [held_of_findEntry found] at holds⟩

theorem held_buffer_mem_owned (wellFormed : s.WellFormed) {key : CString}
    {valueLength node : Nat}
    (holds : s.held key = some (.buffer valueLength node)) :
    node ∈ s.owned := by
  obtain ⟨entry, found, inside⟩ := findEntry_of_held holds
  exact mem_owned_of_findEntry found
    ((wellFormed entry (findEntry_mem found)).held_buffer inside).2.2

/-! ## Two ways to store an entry -/

/-- Assigning an entry changes what is held under its key only. -/
theorem WellFormed.putEntry (wellFormed : s.WellFormed) {key : CString}
    {entry updated : KvEntry} (found : s.findEntry key = some entry)
    (sound : updated.WellFormed) :
    (s.putEntry key updated).WellFormed := by
  intro member inside
  rcases mem_entries_putEntry found inside with rfl | old
  · exact sound
  · exact wellFormed member old

private theorem held_putEntry {key : CString} {entry updated : KvEntry}
    (found : s.findEntry key = some entry) (sameKey : updated.key = key)
    (other : CString) :
    (s.putEntry key updated).held other =
      if other = key then updated.held else s.held other := by
  rw [held, findEntry_putEntry found sameKey]
  split <;> rfl

theorem WellFormed.appendEntry (wellFormed : s.WellFormed)
    {entry : KvEntry} (sound : entry.WellFormed) :
    (s.appendEntry entry).WellFormed := by
  intro member inside
  rcases List.mem_append.mp inside with old | last
  · exact wellFormed member old
  · rw [List.mem_singleton.mp last]
    exact sound

private theorem held_appendEntry {entry : KvEntry}
    (absent : s.findEntry entry.key = none) (other : CString) :
    (s.appendEntry entry).held other =
      if other = entry.key then entry.held else s.held other := by
  rw [held, findEntry_appendEntry absent]
  split <;> rfl

/-! ## What happens to the buffers -/

/-- The request leaves the pool alone, and every buffer with its entry. -/
structure Unmoved (s s' : Server) : Prop where
  nodes : s'.nodes = s.nodes
  mallocs : s'.mallocs = s.mallocs
  head : s'.memPoolHead = s.memPoolHead
  tail : s'.memPoolTail = s.memPoolTail
  tainted : s'.taintedMemPoolHead = s.taintedMemPoolHead
  poolSize : s'.poolSize = s.poolSize
  owned : s'.owned = s.owned

/-- The request takes the buffer `node` from its entry and taints it. -/
structure Taints (node : Nat) (s s' : Server) : Prop where
  nodes : s'.nodes = s.nodes
  mallocs : s'.mallocs = s.mallocs
  head : s'.memPoolHead = s.memPoolHead
  tail : s'.memPoolTail = s.memPoolTail
  tainted : s'.taintedMemPoolHead = some node
  poolSize : s'.poolSize = s.poolSize
  owned : s.owned.Perm (node :: s'.owned)

/-- The request takes `node` from the head of the pool for an entry. -/
structure Takes (node : Nat) (s s' : Server) : Prop where
  front : s.memPoolHead = some node
  nodes : s'.nodes = (s.setNextMem node none).nodes
  mallocs : s'.mallocs = s.mallocs
  head : s'.memPoolHead = s.nextMem node
  tail : s'.memPoolTail = s.memPoolTail
  tainted : s'.taintedMemPoolHead = s.taintedMemPoolHead
  poolSize : s'.poolSize = s.poolSize - 1
  owned : s'.owned.Perm (node :: s.owned)

theorem Unmoved.refl (s : Server) : Unmoved s s :=
  ⟨rfl, rfl, rfl, rfl, rfl, rfl, rfl⟩

/-- Assigning an entry that keeps its buffer moves no buffer. -/
theorem Unmoved.putEntry {key : CString} {entry updated : KvEntry}
    (found : s.findEntry key = some entry)
    (same : updated.largeValMemInfo = entry.largeValMemInfo) :
    Unmoved s (s.putEntry key updated) := by
  refine ⟨rfl, rfl, rfl, rfl, rfl, rfl, ?_⟩
  obtain ⟨before, after, split, replaced⟩ := owned_putEntry found
  rw [replaced updated, split, same]

theorem Unmoved.appendEntry {entry : KvEntry}
    (noBuffer : entry.largeValMemInfo = none) :
    Unmoved s (s.appendEntry entry) := by
  refine ⟨rfl, rfl, rfl, rfl, rfl, rfl, ?_⟩
  rw [owned_appendEntry, noBuffer, Option.toList_none, List.append_nil]

/-! ## The requests -/

/-- The reply to a get, by what is held under the key. -/
theorem eagerGet_spec (wellFormed : s.WellFormed) (key : CString) :
    s.eagerGet key =
      match s.held key with
      | none => some (.eagerGetResponse [0], sizeofPointer + 1)
      | some (.inline value) =>
          some (.eagerGetResponse value, sizeofPacket + value.length)
      | some (.buffer valueLength node) =>
          (s.nodes node).rndvMr.map fun server =>
            (.rendezvousGetResponse valueLength server, sizeofPacket) := by
  unfold eagerGet
  cases found : s.findEntry key with
  | none => simp [held_of_absent found]
  | some entry =>
      have sound := wellFormed entry (findEntry_mem found)
      rw [held_of_findEntry found]
      obtain ⟨holding, holds⟩ := Option.isSome_iff_exists.mp sound.held_isSome
      rw [holds]
      cases holding with
      | inline value =>
          obtain ⟨isValue, length, _⟩ := sound.held_inline holds
          simp [isValue, length]
      | buffer valueLength node =>
          obtain ⟨noValue, length, isNode⟩ := sound.held_buffer holds
          simp only [noValue, isNode, length]
          exact Option.map_eq_bind.symm

/-- An eager set of a key that holds a buffer taints the buffer. -/
theorem eagerSet_buffer (wellFormed : s.WellFormed)
    (noTainted : s.taintedMemPoolHead = none) {key : CString}
    {valueLength node : Nat}
    (holds : s.held key = some (.buffer valueLength node))
    (value : List UInt8) :
    ∃ s', s.eagerSet key value = some s' ∧ s'.WellFormed ∧
      Taints node s s' ∧
      ∀ other, s'.held other =
        if other = key then some (.inline value) else s.held other := by
  obtain ⟨entry, found, inside⟩ := findEntry_of_held holds
  obtain ⟨noValue, _, isNode⟩ :=
    (wellFormed entry (findEntry_mem found)).held_buffer inside
  let updated : KvEntry :=
    { entry with
      largeValMemInfo := none
      valLen := value.length
      value := some value }
  let t : Server :=
    { s with
      taintedMemPoolHead := some node
      taintedMemPoolTail := some node }
  have foundAfter : t.findEntry key = some entry := found
  have sameKey : updated.key = key :=
    show entry.key = key from findEntry_key found
  have sound : updated.WellFormed :=
    ⟨(wellFormed entry (findEntry_mem found)).keyLen,
      Or.inl ⟨value, rfl, rfl, rfl⟩⟩
  refine ⟨t.putEntry key updated, ?_, ?_, ?_, ?_⟩
  · simp [eagerSet, found, noValue, taint, noTainted, isNode, t, updated]
  · exact WellFormed.putEntry (s := t) wellFormed foundAfter sound
  · refine ⟨rfl, rfl, rfl, rfl, rfl, rfl, ?_⟩
    obtain ⟨before, after, split, replaced⟩ := owned_putEntry foundAfter
    have ownedBefore : s.owned = before ++ [node] ++ after := by
      rw [show s.owned = t.owned from rfl, split, isNode]
      rfl
    have ownedAfter : (t.putEntry key updated).owned = before ++ after := by
      rw [replaced updated]
      simp [updated]
    rw [ownedBefore, ownedAfter, List.append_assoc]
    exact List.perm_middle
  · exact held_putEntry foundAfter sameKey

/-- The entry of a key that holds no buffer has a value. -/
theorem WellFormed.inline_of_findEntry (wellFormed : s.WellFormed)
    {key : CString} {entry : KvEntry} (found : s.findEntry key = some entry)
    (holds : ∀ valueLength node,
      s.held key ≠ some (.buffer valueLength node)) :
    ∃ value, entry.value = some value ∧ entry.valLen = value.length ∧
      entry.largeValMemInfo = none := by
  have sound := wellFormed entry (findEntry_mem found)
  rw [held_of_findEntry found] at holds
  obtain ⟨holding, inside⟩ := Option.isSome_iff_exists.mp sound.held_isSome
  cases holding with
  | buffer valueLength node => exact absurd inside (holds valueLength node)
  | inline value => exact ⟨value, sound.held_inline inside⟩

/-- An eager set of a key that holds no buffer moves none. -/
theorem eagerSet_inline (wellFormed : s.WellFormed) {key : CString}
    (holds : ∀ valueLength node,
      s.held key ≠ some (.buffer valueLength node))
    (value : List UInt8) :
    ∃ s', s.eagerSet key value = some s' ∧ s'.WellFormed ∧ Unmoved s s' ∧
      ∀ other, s'.held other =
        if other = key then some (.inline value) else s.held other := by
  cases found : s.findEntry key with
  | none =>
      let fresh : KvEntry :=
        { key := key
          keyLen := key.length
          valLen := value.length
          largeValMemInfo := none
          value := some value }
      have absent : s.findEntry fresh.key = none := found
      refine ⟨s.appendEntry fresh, by simp [eagerSet, found, fresh], ?_, ?_,
        held_appendEntry absent⟩
      · exact wellFormed.appendEntry ⟨rfl, Or.inl ⟨value, rfl, rfl, rfl⟩⟩
      · exact Unmoved.appendEntry rfl
  | some entry =>
      have sound := wellFormed entry (findEntry_mem found)
      obtain ⟨old, isValue, length, noBuffer⟩ :=
        wellFormed.inline_of_findEntry found holds
      let updated : KvEntry :=
        { entry with valLen := value.length, value := some value }
      have step : s.eagerSet key value =
          some (s.putEntry key updated) := by
        simp only [eagerSet, found, isValue, length]
        split
        · rfl
        · rename_i same
          have equal : old.length = value.length := not_not.mp same
          have whole : value ++ old.drop value.length = value := by
            rw [List.drop_of_length_le equal.le, List.append_nil]
          rw [if_pos equal.ge, whole]
          simp only [updated]
          rw [← equal, ← length]
      have sameKey : updated.key = key :=
        show entry.key = key from findEntry_key found
      refine ⟨_, step, ?_, Unmoved.putEntry found rfl,
        held_putEntry found sameKey⟩
      exact wellFormed.putEntry found
        ⟨sound.keyLen, Or.inl ⟨value, rfl, rfl, noBuffer⟩⟩

/-- A rendezvous set of a key that holds a buffer keeps the buffer. -/
theorem rendezvousSet_buffer (wellFormed : s.WellFormed) {key : CString}
    {old node : Nat} (holds : s.held key = some (.buffer old node))
    (valueLength : Nat) :
    ∃ s', s.rendezvousSet valueLength key =
        (s.nodes node).rndvMr.map (fun server =>
          (s', .rendezvousSetResponse server)) ∧
      s'.WellFormed ∧ Unmoved s s' ∧
      ∀ other, s'.held other =
        if other = key then some (.buffer valueLength node)
        else s.held other := by
  obtain ⟨entry, found, inside⟩ := findEntry_of_held holds
  have sound := wellFormed entry (findEntry_mem found)
  obtain ⟨noValue, _, isNode⟩ := sound.held_buffer inside
  let updated : KvEntry := { entry with valLen := valueLength }
  have sameKey : updated.key = key :=
    show entry.key = key from findEntry_key found
  have isHeld : updated.held = some (.buffer valueLength node) := by
    simp [updated, KvEntry.held, noValue, isNode]
  refine ⟨s.putEntry key updated, ?_, ?_, Unmoved.putEntry found rfl, ?_⟩
  · simp only [rendezvousSet, found, isNode, rendezvousReply, updated]
    rfl
  · exact wellFormed.putEntry found
      ⟨sound.keyLen, Or.inr ⟨noValue, node, isNode⟩⟩
  · intro other
    rw [held_putEntry found sameKey, isHeld]

/-- A rendezvous set of a key that holds no buffer does not return when the
pool is empty. -/
theorem rendezvousSet_empty (wellFormed : s.WellFormed) {key : CString}
    (holds : ∀ valueLength node,
      s.held key ≠ some (.buffer valueLength node))
    (empty : s.memPoolHead = none) (valueLength : Nat) :
    s.rendezvousSet valueLength key = none := by
  have nothing : s.takeBuffer = none := by simp [takeBuffer, empty]
  cases found : s.findEntry key with
  | none => simp [rendezvousSet, found, nothing]
  | some entry =>
      obtain ⟨_, _, _, noBuffer⟩ := wellFormed.inline_of_findEntry found holds
      simp [rendezvousSet, found, noBuffer, nothing]

/-- A rendezvous set of a key that holds no buffer takes one. -/
theorem rendezvousSet_inline (wellFormed : s.WellFormed) {key : CString}
    (holds : ∀ valueLength node,
      s.held key ≠ some (.buffer valueLength node))
    {node : Nat} (front : s.memPoolHead = some node) (valueLength : Nat) :
    ∃ s', s.rendezvousSet valueLength key =
        (s.nodes node).rndvMr.map (fun server =>
          (s', .rendezvousSetResponse server)) ∧
      s'.WellFormed ∧ Takes node s s' ∧
      ∀ other, s'.held other =
        if other = key then some (.buffer valueLength node)
        else s.held other := by
  let t : Server :=
    { s.setNextMem node none with
      memPoolHead := s.nextMem node
      poolSize := s.poolSize - 1 }
  have took : s.takeBuffer = some (node, t) := by
    simp [takeBuffer, front, t]
  have kept : (t.nodes node).rndvMr = (s.nodes node).rndvMr :=
    rndvMr_setNextMem s node node none
  cases found : s.findEntry key with
  | none =>
      let fresh : KvEntry :=
        { key := key
          keyLen := key.length
          valLen := valueLength
          largeValMemInfo := some node
          value := none }
      have absent : t.findEntry fresh.key = none := found
      refine ⟨t.appendEntry fresh, ?_, ?_, ?_, held_appendEntry absent⟩
      · simp only [rendezvousSet, found, took, Option.bind_eq_bind,
          Option.bind_some, rendezvousReply]
        rw [← kept]
        rfl
      · exact WellFormed.appendEntry (s := t) wellFormed
          ⟨rfl, Or.inr ⟨rfl, node, rfl⟩⟩
      · refine ⟨front, rfl, rfl, rfl, rfl, rfl, rfl, ?_⟩
        rw [owned_appendEntry]
        exact List.perm_append_singleton node t.owned
  | some entry =>
      have sound := wellFormed entry (findEntry_mem found)
      obtain ⟨_, _, _, noBuffer⟩ := wellFormed.inline_of_findEntry found holds
      let updated : KvEntry :=
        { entry with
          valLen := valueLength
          largeValMemInfo := some node
          value := none }
      have foundAfter : t.findEntry key = some entry := found
      have sameKey : updated.key = key :=
        show entry.key = key from findEntry_key found
      refine ⟨t.putEntry key updated, ?_, ?_, ?_,
        held_putEntry foundAfter sameKey⟩
      · simp only [rendezvousSet, found, noBuffer, took,
          Option.bind_eq_bind, Option.bind_some, rendezvousReply]
        rw [← kept]
        rfl
      · exact WellFormed.putEntry (s := t) wellFormed foundAfter
          ⟨sound.keyLen, Or.inr ⟨rfl, node, rfl⟩⟩
      · refine ⟨front, rfl, rfl, rfl, rfl, rfl, rfl, ?_⟩
        obtain ⟨before, after, split, replaced⟩ := owned_putEntry foundAfter
        have ownedBefore : s.owned = before ++ after := by
          rw [show s.owned = t.owned from rfl, split, noBuffer]
          simp
        rw [replaced updated, ownedBefore, List.append_assoc]
        exact List.perm_middle

end Server

end RdmaKv
