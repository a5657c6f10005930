import RdmaKv.Ex4.Server

/-!
# The entries of a server and the nodes of its heap

What the search for a key finds after an entry was assigned or appended, which
buffers the entries own, and what a node holds after another was changed.
-/

namespace RdmaKv

open ByteMemory

/-- An entry holds its value either inline or in a buffer. -/
structure KvEntry.WellFormed (entry : KvEntry) : Prop where
  keyLen : entry.keyLen = entry.key.length
  form :
    (∃ value, entry.value = some value ∧ value.length = entry.valLen ∧
      entry.largeValMemInfo = none) ∨
    (entry.value = none ∧ ∃ node, entry.largeValMemInfo = some node)

namespace Server

/-- The buffers that entries hold, in list order. -/
def owned (s : Server) : List Nat :=
  s.entries.filterMap KvEntry.largeValMemInfo

/-! ## Reading a changed heap -/

@[simp]
theorem nextMem_setNextMem (s : Server) (node other : Nat)
    (next : Option Nat) :
    (s.setNextMem node next).nextMem other =
      if other = node then next else s.nextMem other := by
  unfold nextMem setNextMem updateNode
  by_cases same : other = node <;> simp [same]

@[simp]
theorem nextMem_setRndvBuffer (s : Server) (node other : Nat)
    (buffer : Memory) :
    (s.setRndvBuffer node buffer).nextMem other = s.nextMem other := by
  unfold nextMem setRndvBuffer updateNode
  by_cases same : other = node <;> simp [same]

@[simp]
theorem rndvMr_setNextMem (s : Server) (node other : Nat)
    (next : Option Nat) :
    ((s.setNextMem node next).nodes other).rndvMr =
      (s.nodes other).rndvMr := by
  unfold setNextMem updateNode
  by_cases same : other = node <;> simp [same]

@[simp]
theorem rndvMr_setRndvBuffer (s : Server) (node other : Nat)
    (buffer : Memory) :
    ((s.setRndvBuffer node buffer).nodes other).rndvMr =
      (s.nodes other).rndvMr := by
  unfold setRndvBuffer updateNode
  by_cases same : other = node <;> simp [same]

@[simp]
theorem rndvBuffer_setNextMem (s : Server) (node other : Nat)
    (next : Option Nat) :
    ((s.setNextMem node next).nodes other).rndvBuffer =
      (s.nodes other).rndvBuffer := by
  unfold setNextMem updateNode
  by_cases same : other = node <;> simp [same]

@[simp]
theorem rndvBuffer_setRndvBuffer (s : Server) (node other : Nat)
    (buffer : Memory) :
    ((s.setRndvBuffer node buffer).nodes other).rndvBuffer =
      if other = node then buffer else (s.nodes other).rndvBuffer := by
  unfold setRndvBuffer updateNode
  by_cases same : other = node <;> simp [same]

/-! ## Searching and replacing entries -/

theorem replaceEntry_append {key : CString} {entry updated : KvEntry}
    {before after : List KvEntry} (sameKey : entry.key = key)
    (different : ∀ other ∈ before, other.key ≠ key) :
    replaceEntry key updated (before ++ entry :: after) =
      before ++ updated :: after := by
  induction before with
  | nil => simp [replaceEntry, sameKey]
  | cons head rest inductionHypothesis =>
      have headDifferent : head.key ≠ key :=
        different head (List.mem_cons_self ..)
      rw [List.cons_append, replaceEntry, if_neg headDifferent,
        inductionHypothesis fun other member =>
          different other (List.mem_cons_of_mem head member),
        List.cons_append]

/-- The search stops at the first entry for the key, and that entry is the
one an assignment changes. -/
theorem findEntry_split {s : Server} {key : CString} {entry : KvEntry}
    (found : s.findEntry key = some entry) :
    entry.key = key ∧ ∃ before after,
      s.entries = before ++ entry :: after ∧
        (∀ other ∈ before, other.key ≠ key) ∧
        ∀ updated,
          replaceEntry key updated s.entries =
            before ++ updated :: after := by
  obtain ⟨matching, before, after, split, others⟩ :=
    List.find?_eq_some_iff_append.mp found
  have sameKey : entry.key = key := of_decide_eq_true matching
  have different : ∀ other ∈ before, other.key ≠ key := by
    intro other member
    simpa using others other member
  refine ⟨sameKey, before, after, split, different, ?_⟩
  intro updated
  rw [split]
  exact replaceEntry_append sameKey different

theorem findEntry_mem {s : Server} {key : CString} {entry : KvEntry}
    (found : s.findEntry key = some entry) : entry ∈ s.entries :=
  List.mem_of_find?_eq_some found

theorem findEntry_key {s : Server} {key : CString} {entry : KvEntry}
    (found : s.findEntry key = some entry) : entry.key = key :=
  (findEntry_split found).1

/-- After an assignment the search finds the new fields under the key and
what it found before under every other key. -/
theorem findEntry_putEntry {s : Server} {key : CString}
    {entry updated : KvEntry} (found : s.findEntry key = some entry)
    (sameKey : updated.key = key) (other : CString) :
    (s.putEntry key updated).findEntry other =
      if other = key then some updated else s.findEntry other := by
  obtain ⟨entryKey, before, after, split, different, replaced⟩ :=
    findEntry_split found
  change List.find? _ (replaceEntry key updated s.entries) =
    if other = key then some updated else List.find? _ s.entries
  rw [replaced updated, split]
  simp only [List.find?_append, List.find?_cons]
  by_cases same : other = key
  · subst same
    have absent :
        before.find? (fun entry => decide (entry.key = other)) = none := by
      rw [List.find?_eq_none]
      intro candidate member
      simpa using different candidate member
    simp [absent, sameKey]
  · have otherEntry : ¬ entry.key = other := by
      rw [entryKey]
      exact fun equal => same equal.symm
    have otherUpdated : ¬ updated.key = other := by
      rw [sameKey]
      exact fun equal => same equal.symm
    simp [same, otherEntry, otherUpdated]

theorem findEntry_appendEntry {s : Server} {entry : KvEntry}
    (absent : s.findEntry entry.key = none) (other : CString) :
    (s.appendEntry entry).findEntry other =
      if other = entry.key then some entry else s.findEntry other := by
  unfold findEntry appendEntry
  rw [List.find?_append]
  by_cases same : other = entry.key
  · subst same
    have absent' :
        s.entries.find? (fun candidate =>
          decide (candidate.key = entry.key)) = none := absent
    simp [absent']
  · have different : ¬ entry.key = other := fun equal => same equal.symm
    simp [same, different]

theorem mem_entries_putEntry {s : Server} {key : CString}
    {entry updated member : KvEntry} (found : s.findEntry key = some entry)
    (inside : member ∈ (s.putEntry key updated).entries) :
    member = updated ∨ member ∈ s.entries := by
  obtain ⟨_, before, after, split, _, replaced⟩ := findEntry_split found
  have listed : member ∈ before ++ updated :: after := by
    rw [← replaced updated]
    exact inside
  rw [split]
  simp only [List.mem_append, List.mem_cons] at listed ⊢
  tauto

/-- Assigning the fields of one entry changes the owned buffers only at that
entry. -/
theorem owned_putEntry {s : Server} {key : CString}
    {entry : KvEntry} (found : s.findEntry key = some entry) :
    ∃ before after : List Nat,
      s.owned = before ++ entry.largeValMemInfo.toList ++ after ∧
        ∀ updated : KvEntry,
          (s.putEntry key updated).owned =
            before ++ updated.largeValMemInfo.toList ++ after := by
  obtain ⟨_, before, after, split, _, replaced⟩ := findEntry_split found
  refine ⟨before.filterMap KvEntry.largeValMemInfo,
    after.filterMap KvEntry.largeValMemInfo, ?_, ?_⟩
  · rw [owned, split]
    cases buffer : entry.largeValMemInfo <;>
      simp [List.filterMap_append, buffer]
  · intro updated
    rw [owned, putEntry]
    simp only [replaced updated]
    cases buffer : updated.largeValMemInfo <;>
      simp [List.filterMap_append, buffer]

theorem owned_appendEntry (s : Server) (entry : KvEntry) :
    (s.appendEntry entry).owned =
      s.owned ++ entry.largeValMemInfo.toList := by
  unfold owned appendEntry
  cases buffer : entry.largeValMemInfo <;>
    simp [List.filterMap_append, buffer]

/-- The buffer of an entry that the search finds is owned. -/
theorem mem_owned_of_findEntry {s : Server} {key : CString}
    {entry : KvEntry} {node : Nat} (found : s.findEntry key = some entry)
    (buffer : entry.largeValMemInfo = some node) : node ∈ s.owned :=
  List.mem_filterMap.mpr ⟨entry, findEntry_mem found, buffer⟩

end Server

end RdmaKv
