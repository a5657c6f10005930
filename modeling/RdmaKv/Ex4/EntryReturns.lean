import RdmaKv.Ex4.EntryList

/-!
# When the handler on the heap returns

With addresses that are free and a search that is long enough,
`handle_server_packets_only` on the heap returns for a packet exactly when it
does on the list of entries. So every run on the list is a run on the heap at
some addresses.
-/

namespace RdmaKv

open ByteMemory LinkedChain

/-- What `malloc` and `calloc` may return. -/
structure Mallocs.Fresh (mallocs : Mallocs) (s : EntryServer) : Prop where
  entry : s.kvEntries mallocs.entry = none
  key : s.chars mallocs.key = none
  value : s.chars mallocs.value = none
  apart : mallocs.key ≠ mallocs.value

structure Mallocs.Below (mallocs : Mallocs) (bound : Nat) : Prop where
  entry : mallocs.entry < bound
  key : mallocs.key < bound
  value : mallocs.value < bound

/-- A step that succeeds before steps that succeed. -/
private theorem exists_bind_eq_some {α β : Type} {step : Option α}
    {rest : α → Option β} {a : α} (succeeds : step = some a)
    (later : ∃ b, rest a = some b) : ∃ b, step.bind rest = some b := by
  rw [succeeds, Option.bind_some]
  exact later

namespace EntryServer

variable {s : EntryServer} {cells before after : List Cell} {c : Cell}
  {key : CString} {fuel : Nat} {mallocs : Mallocs} {value : List UInt8}
  {valueLength : Nat}

theorem freeChars_none : s.freeChars none = some s := rfl

/-! ## The search -/

private theorem searchEntry_isSome {first : Option Nat}
    (chain : Chain s.next first (cells.map Cell.address))
    (shown : ∀ c ∈ cells, ∃ node, s.kvEntries c.address = some node ∧
      c.Shows s.chars node)
    (enough : cells.length ≤ fuel) :
    ∃ found, s.searchEntry key fuel first = some found := by
  induction cells generalizing first fuel with
  | nil =>
      obtain rfl : first = none := chain
      exact ⟨none, by rw [searchEntry]⟩
  | cons c cells inductionHypothesis =>
      obtain ⟨rfl, later⟩ := chain
      obtain ⟨node, isNode, shows'⟩ := shown c (List.mem_cons_self ..)
      obtain ⟨block, isBlock, isKey⟩ := shows'.isKey
      obtain ⟨fuel, rfl⟩ := Nat.exists_eq_add_of_le' enough
      simp only [next, isNode, Option.bind_some] at later
      obtain ⟨found, searched⟩ := inductionHypothesis later (fun other member =>
        shown other (List.mem_cons_of_mem _ member)) (Nat.le_add_left _ fuel)
      simp only [List.length_cons, ← Nat.add_assoc, searchEntry, isNode,
        shows'.key, isBlock, isKey, Option.bind_eq_bind, Option.bind_some]
      split
      · exact ⟨_, rfl⟩
      · exact ⟨found, searched⟩

/-! ## `EAGER_GET_REQUEST` -/

private theorem eagerGet_isSome {reply : Packet × Nat} (listed : s.Listed cells)
    (enough : cells.length ≤ fuel)
    (answered : (s.view cells).eagerGet key = some reply) :
    ∃ reply, s.eagerGet fuel key = some reply := by
  obtain ⟨found, searched⟩ :=
    @searchEntry_isSome s cells key fuel _ listed.linked.forward listed.shown
      enough
  rw [eagerGet, searched]
  rcases searchEntry_spec listed.linked.forward listed.shown searched with
    ⟨rfl, absent⟩ | ⟨before, c, after, rfl, rfl, same, others⟩
  · exact ⟨_, rfl⟩
  · obtain ⟨node, isNode, shows'⟩ := listed.here
    rw [Server.eagerGet, findEntry_view same others] at answered
    simp only [isNode, Option.bind_eq_bind, Option.bind_some, shows'.value,
      shows'.valLen, shows'.large]
    cases isValue : c.valueAt with
    | none =>
        simp only [shows'.noValue isValue] at answered
        exact ⟨reply, answered⟩
    | some address =>
        obtain ⟨block, isBlock, content⟩ := shows'.isValue address isValue
        simp only [content, CharBlock.content, Memory.length_slice] at answered
        simp only [isBlock, Option.bind_some]
        split at answered
        · rename_i fits
          exact ⟨_, if_pos fits⟩
        · exact absurd answered (by simp)

/-! ## `EAGER_SET_REQUEST` -/

private theorem linkEntry_isSome {entry : Nat} (live : s.kvEntries entry ≠ none)
    (tailLive : ∀ tail, s.entriesTail = some tail → s.kvEntries tail ≠ none) :
    ∃ s', s.linkEntry entry = some s' := by
  obtain ⟨node, isNode⟩ := Option.ne_none_iff_exists'.mp live
  unfold linkEntry
  cases isTail : s.entriesTail with
  | none =>
      simp only [Option.bind_eq_bind]
      rw [assign_eq_some.mpr ⟨node, isNode, rfl⟩]
      exact ⟨_, rfl⟩
  | some tail =>
      simp only [Option.bind_eq_bind]
      rw [assign_eq_some.mpr ⟨node, isNode, rfl⟩, Option.bind_some]
      obtain ⟨last, isLast⟩ := Option.ne_none_iff_exists'.mp
        (Heap.put_ne_none (tailLive tail isTail))
      rw [assign_eq_some.mpr ⟨last, isLast, rfl⟩]
      exact ⟨_, rfl⟩

/-- The tail of the list is an entry. -/
theorem Listed.tail_live (listed : s.Listed cells) {tail : Nat}
    (isTail : s.entriesTail = some tail) : s.kvEntries tail ≠ none := by
  obtain ⟨c, member, rfl⟩ :=
    List.mem_map.mp (listed.linked.tail_mem isTail)
  obtain ⟨node, isNode, _⟩ := listed.shown c member
  rw [isNode]
  exact Option.some_ne_none node

private theorem eagerSetNew_isSome (listed : s.Listed cells)
    (fresh : mallocs.Fresh s) :
    ∃ s', s.eagerSetNew mallocs key value = some s' := by
  have apart := fresh.apart
  simp only [eagerSetNew, Option.bind_eq_bind]
  apply exists_bind_eq_some
  · exact mallocEntry_eq_some.mpr ⟨fresh.entry, rfl⟩
  apply exists_bind_eq_some
  · exact calloc_eq_some.mpr ⟨fresh.key, rfl⟩
  apply exists_bind_eq_some
  · exact calloc_eq_some.mpr
      ⟨(Heap.put_other apart.symm).trans fresh.value, rfl⟩
  apply exists_bind_eq_some
  · exact assign_eq_some.mpr ⟨_, Heap.put_same, rfl⟩
  apply exists_bind_eq_some
  · exact copyInto_eq_some.mpr
      ⟨_, (Heap.put_other apart).trans Heap.put_same, le_rfl, rfl⟩
  apply exists_bind_eq_some
  · exact copyInto_eq_some.mpr
      ⟨_, (Heap.put_other apart.symm).trans Heap.put_same, le_rfl, rfl⟩
  apply exists_bind_eq_some
  · exact assign_eq_some.mpr ⟨_, Heap.put_same, rfl⟩
  apply linkEntry_isSome
  · exact fun absent => absurd (Heap.put_same.symm.trans absent) (by simp)
  · intro tail isTail
    exact Heap.put_ne_none (Heap.put_ne_none (Heap.put_ne_none
      (listed.tail_live isTail)))

private theorem storeValue_isSome {entry address : Nat} {node : EntryNode}
    {block : CharBlock} (isNode : s.kvEntries entry = some node)
    (inBlock : node.value = some address)
    (isBlock : s.chars address = some block)
    (fits : value.length ≤ block.size) :
    ∃ s', s.storeValue entry value = some s' := by
  simp only [storeValue, isNode, inBlock, Option.bind_eq_bind,
    Option.bind_some]
  exact ⟨_, copyInto_eq_some.mpr ⟨block, isBlock, fits, rfl⟩⟩

/-- A value of a key that is there is stored, in a new block or in place. -/
private theorem makeRoom_isSome {entry : Nat} {node : EntryNode}
    (isNode : s.kvEntries entry = some node) (fresh : mallocs.Fresh s)
    (tainted : node.value = none →
      ∃ globals, s.globals.taint node.largeValMemInfo = some globals)
    (held : ∀ old, node.value = some old → ∃ block, s.chars old = some block ∧
      (node.valLen = value.length → value.length ≤ block.size)) :
    ∃ s', ((s.makeRoom mallocs entry value.length).bind fun roomy =>
      roomy.storeValue entry value) = some s' := by
  cases isValue : node.value with
  | none =>
      obtain ⟨globals, isTainted⟩ := tainted isValue
      simp only [makeRoom, isNode, isValue, isTainted, Option.bind_eq_bind,
        Option.bind_some, Option.bind_assoc]
      apply exists_bind_eq_some
      · exact assign_eq_some.mpr ⟨node, isNode, rfl⟩
      apply exists_bind_eq_some
      · exact calloc_eq_some.mpr ⟨fresh.value, rfl⟩
      apply exists_bind_eq_some
      · exact assign_eq_some.mpr ⟨_, Heap.put_same, rfl⟩
      exact storeValue_isSome Heap.put_same rfl Heap.put_same le_rfl
  | some old =>
      obtain ⟨block, isBlock, fits⟩ := held old isValue
      by_cases resized : node.valLen ≠ value.length
      · simp only [makeRoom, isNode, isValue, if_pos resized,
          Option.bind_eq_bind, Option.bind_some, Option.bind_assoc]
        apply exists_bind_eq_some
        · exact freeChars_eq_some.mpr ⟨by rw [isBlock]; simp, rfl⟩
        apply exists_bind_eq_some
        · exact calloc_eq_some.mpr ⟨Heap.erase_of_none fresh.value, rfl⟩
        apply exists_bind_eq_some
        · exact assign_eq_some.mpr ⟨node, isNode, rfl⟩
        exact storeValue_isSome Heap.put_same rfl Heap.put_same le_rfl
      · simp only [makeRoom, isNode, isValue, if_neg resized,
          Option.bind_eq_bind, Option.bind_some]
        exact storeValue_isSome isNode isValue isBlock
          (fits (not_ne_iff.mp resized))

private theorem eagerSet_isSome {t : Server} (listed : s.Listed cells)
    (enough : cells.length ≤ fuel) (fresh : mallocs.Fresh s)
    (stored : (s.view cells).eagerSet key value = some t) :
    ∃ s', s.eagerSet fuel mallocs key value = some s' := by
  obtain ⟨found, searched⟩ :=
    @searchEntry_isSome s cells key fuel _ listed.linked.forward listed.shown
      enough
  rw [eagerSet, searched]
  rcases searchEntry_spec listed.linked.forward listed.shown searched with
    ⟨rfl, absent⟩ | ⟨before, c, after, rfl, rfl, same, others⟩
  · exact eagerSetNew_isSome listed fresh
  · obtain ⟨node, isNode, shows'⟩ := listed.here
    rw [Server.eagerSet, findEntry_view same others] at stored
    apply makeRoom_isSome isNode fresh
    · intro isValue
      rw [shows'.value] at isValue
      simp only [shows'.noValue isValue, ← shows'.large, view, taint_entries]
        at stored
      obtain ⟨_, tainted, _⟩ := Option.bind_eq_some_iff.mp stored
      obtain ⟨globals, isTainted, _⟩ := Option.map_eq_some_iff.mp tainted
      exact ⟨globals, isTainted⟩
    · intro old isValue
      rw [shows'.value] at isValue
      obtain ⟨block, isBlock, content⟩ := shows'.isValue old isValue
      refine ⟨block, isBlock, fun sameLength => ?_⟩
      rw [shows'.valLen] at sameLength
      simp only [content, sameLength, CharBlock.content, Memory.length_slice,
        ne_eq, not_true_eq_false, if_false] at stored
      split at stored
      · assumption
      · exact absurd stored (by simp)

/-! ## `RENDEZVOUS_SET_REQUEST` -/

private theorem takeLarge_isSome {entry : Nat} {node : EntryNode}
    {taken : Nat × Server} (isNode : s.kvEntries entry = some node)
    (isTaken : s.globals.takeBuffer = some taken) :
    ∃ result, s.takeLarge entry = some result := by
  simp only [takeLarge, isTaken, Option.bind_eq_bind, Option.bind_some]
  apply exists_bind_eq_some
  · exact assign_eq_some.mpr ⟨node, isNode, rfl⟩
  exact ⟨_, rfl⟩

/-- A new entry is linked, and then it takes a buffer. -/
private theorem linkEntry_takeLarge_isSome {entry : Nat} {node : EntryNode}
    {taken : Nat × Server} (isNode : s.kvEntries entry = some node)
    (notTail : s.entriesTail ≠ some entry)
    (tailLive : ∀ tail, s.entriesTail = some tail → s.kvEntries tail ≠ none)
    (isTaken : s.globals.takeBuffer = some taken) :
    ∃ result, ((s.linkEntry entry).bind fun t => t.takeLarge entry) =
      some result := by
  have live : s.kvEntries entry ≠ none := by
    rw [isNode]
    exact Option.some_ne_none node
  obtain ⟨t, linked⟩ := linkEntry_isSome live tailLive
  have links := linkEntry_links linked isNode notTail
  apply exists_bind_eq_some linked
  apply takeLarge_isSome links.here
  rw [links.globals]
  exact isTaken

private theorem rendezvousSetNew_isSome {taken : Nat × Server}
    (listed : s.Listed cells) (fresh : mallocs.Fresh s)
    (isTaken : s.globals.takeBuffer = some taken) :
    ∃ result, s.rendezvousSetNew mallocs valueLength key = some result := by
  simp only [rendezvousSetNew, Option.bind_eq_bind]
  apply exists_bind_eq_some
  · exact mallocEntry_eq_some.mpr ⟨fresh.entry, rfl⟩
  apply exists_bind_eq_some
  · exact calloc_eq_some.mpr ⟨fresh.key, rfl⟩
  apply exists_bind_eq_some
  · exact assign_eq_some.mpr ⟨_, Heap.put_same, rfl⟩
  apply exists_bind_eq_some
  · exact copyInto_eq_some.mpr ⟨_, Heap.put_same, le_rfl, rfl⟩
  apply exists_bind_eq_some
  · exact assign_eq_some.mpr ⟨_, Heap.put_same, rfl⟩
  apply linkEntry_takeLarge_isSome Heap.put_same
  · exact listed.tail_ne fresh.entry
  · intro tail isTail
    exact Heap.put_ne_none (Heap.put_ne_none (Heap.put_ne_none
      (listed.tail_live isTail)))
  · exact isTaken

private theorem rendezvousSetOld_isSome {entry : Nat} {node : EntryNode}
    (isNode : s.kvEntries entry = some node)
    (valueLive : ∀ old, node.value = some old → s.chars old ≠ none)
    (room : node.largeValMemInfo = none →
      ∃ taken, s.globals.takeBuffer = some taken) :
    ∃ result, s.rendezvousSetOld entry valueLength = some result := by
  simp only [rendezvousSetOld, isNode, Option.bind_eq_bind, Option.bind_some]
  cases isLarge : node.largeValMemInfo with
  | some info =>
      apply exists_bind_eq_some
      · exact assign_eq_some.mpr ⟨node, isNode, rfl⟩
      exact ⟨_, rfl⟩
  | none =>
      obtain ⟨⟨info, globals⟩, isTaken⟩ := room isLarge
      apply exists_bind_eq_some
      · exact assign_eq_some.mpr ⟨node, isNode, rfl⟩
      simp only [takeLarge, isTaken, Option.bind_eq_bind, Option.bind_some,
        Option.bind_assoc, Option.pure_def]
      apply exists_bind_eq_some
      · exact assign_eq_some.mpr ⟨_, Heap.put_same, rfl⟩
      cases isValue : node.value with
      | none =>
          apply exists_bind_eq_some
          · exact freeChars_none
          apply exists_bind_eq_some
          · exact assign_eq_some.mpr ⟨_, Heap.put_same, rfl⟩
          exact ⟨_, rfl⟩
      | some old =>
          apply exists_bind_eq_some
          · exact freeChars_eq_some.mpr ⟨valueLive old isValue, rfl⟩
          apply exists_bind_eq_some
          · exact assign_eq_some.mpr ⟨_, Heap.put_same, rfl⟩
          exact ⟨_, rfl⟩

/-- The list takes a buffer where the handler does. -/
private theorem takeBuffer_of_view {taken : Nat × Server}
    (isTaken : (s.view cells).takeBuffer = some taken) :
    ∃ taken, s.globals.takeBuffer = some taken := by
  rw [view, takeBuffer_entries] at isTaken
  obtain ⟨before, isBefore, _⟩ := Option.map_eq_some_iff.mp isTaken
  exact ⟨before, isBefore⟩

private theorem largeBuffer_isSome {result : Server × Packet}
    (listed : s.Listed cells)
    (enough : cells.length ≤ fuel) (fresh : mallocs.Fresh s)
    (stored : (s.view cells).rendezvousSet valueLength key = some result) :
    ∃ result, s.largeBuffer fuel mallocs valueLength key = some result := by
  obtain ⟨found, searched⟩ :=
    @searchEntry_isSome s cells key fuel _ listed.linked.forward listed.shown
      enough
  rw [largeBuffer, searched]
  rcases searchEntry_spec listed.linked.forward listed.shown searched with
    ⟨rfl, absent⟩ | ⟨before, c, after, rfl, rfl, same, others⟩
  · rw [Server.rendezvousSet, findEntry_view_none absent] at stored
    obtain ⟨taken, isTaken, _⟩ := Option.bind_eq_some_iff.mp stored
    obtain ⟨taken', isTaken'⟩ := takeBuffer_of_view isTaken
    exact rendezvousSetNew_isSome listed fresh isTaken'
  · obtain ⟨node, isNode, shows'⟩ := listed.here
    rw [Server.rendezvousSet, findEntry_view same others] at stored
    apply rendezvousSetOld_isSome isNode
    · intro old isValue
      rw [shows'.value] at isValue
      obtain ⟨block, isBlock, _⟩ := shows'.isValue old isValue
      rw [isBlock]
      exact Option.some_ne_none block
    · intro isLarge
      rw [shows'.large] at isLarge
      simp only [isLarge] at stored
      obtain ⟨taken, isTaken, _⟩ := Option.bind_eq_some_iff.mp stored
      exact takeBuffer_of_view isTaken

private theorem rendezvousSet_isSome {t : Server × Packet}
    (listed : s.Listed cells)
    (enough : cells.length ≤ fuel) (fresh : mallocs.Fresh s)
    (stored : (s.view cells).rendezvousSet valueLength key = some t) :
    ∃ result, s.rendezvousSet fuel mallocs valueLength key = some result := by
  obtain ⟨⟨info, s'⟩, buffer⟩ :=
    largeBuffer_isSome listed enough fresh stored
  obtain ⟨cells', _, refined⟩ := largeBuffer_refines listed buffer
  obtain ⟨server, isServer, _⟩ :=
    Option.map_eq_some_iff.mp (refined.symm.trans stored)
  have isServer' : (s'.globals.nodes info).rndvMr = some server := isServer
  simp only [rendezvousSet, buffer, isServer', Option.bind_eq_bind,
    Option.bind_some]
  exact ⟨_, rfl⟩

/-! ## The handler -/

/-- The handler on the heap returns exactly when the one on the list does. -/
theorem handle_isSome_iff (listed : s.Listed cells)
    (enough : cells.length ≤ fuel) (fresh : mallocs.Fresh s)
    (packet : Packet) :
    (s.handleServerPacketsOnly fuel mallocs packet).isSome ↔
      ((s.view cells).handleServerPacketsOnly packet).isSome := by
  rw [Option.isSome_iff_exists, Option.isSome_iff_exists]
  constructor
  · rintro ⟨⟨s', reply⟩, ran⟩
    obtain ⟨cells', _, refined⟩ := handle_refines listed ran
    exact ⟨_, refined⟩
  · rintro ⟨⟨t, reply⟩, ran⟩
    cases packet with
    | eagerGetRequest key =>
        obtain ⟨answer, answered, _⟩ := Option.map_eq_some_iff.mp ran
        obtain ⟨answer', answered'⟩ := eagerGet_isSome listed enough answered
        exact ⟨_, Option.map_eq_some_iff.mpr ⟨answer', answered', rfl⟩⟩
    | eagerSetRequest key value =>
        obtain ⟨t', stored, _⟩ := Option.map_eq_some_iff.mp ran
        obtain ⟨s', stored'⟩ := eagerSet_isSome listed enough fresh stored
        exact ⟨_, Option.map_eq_some_iff.mpr ⟨s', stored', rfl⟩⟩
    | rendezvousSetRequest valueLength key =>
        obtain ⟨t', stored, _⟩ := Option.map_eq_some_iff.mp ran
        obtain ⟨result, stored'⟩ :=
          rendezvousSet_isSome listed enough fresh stored
        exact ⟨_, Option.map_eq_some_iff.mpr ⟨result, stored', rfl⟩⟩
    | _ => exact ⟨_, rfl⟩

/-! ## Addresses in use -/

/-- Everything that is allocated is below this address. -/
structure Within (s : EntryServer) (bound : Nat) : Prop where
  kvEntries : ∀ address, s.kvEntries address ≠ none → address < bound
  chars : ∀ address, s.chars address ≠ none → address < bound

/-- A step that succeeds leads to what the steps behind it need. -/
private theorem forall_mem_bind {α β : Type} {step : Option α}
    {rest : α → Option β}
    {between : α → Prop} {after : β → Prop} (first : ∀ a ∈ step, between a)
    (later : ∀ a, between a → ∀ b ∈ rest a, after b) :
    ∀ b ∈ step.bind rest, after b := by
  intro b member
  obtain ⟨a, isStep, isRest⟩ := Option.bind_eq_some_iff.mp member
  exact later a (first a isStep) b isRest

section Within

variable {bound entry address size count : Nat} {pointer : Option Nat}
  {change : EntryNode → EntryNode} {source : Memory}

private theorem within_mallocEntry (within : s.Within bound)
    (below : mallocs.entry < bound) :
    ∀ t ∈ s.mallocEntry mallocs, t.Within bound := by
  intro t ran
  obtain ⟨_, rfl⟩ := mallocEntry_eq_some.mp ran
  exact ⟨Heap.put_below within.kvEntries below, within.chars⟩

private theorem within_calloc (within : s.Within bound)
    (below : address < bound) :
    ∀ t ∈ s.calloc address size, t.Within bound := by
  intro t ran
  obtain ⟨_, rfl⟩ := calloc_eq_some.mp ran
  exact ⟨within.kvEntries, Heap.put_below within.chars below⟩

private theorem within_assign (within : s.Within bound) :
    ∀ t ∈ s.assign entry change, t.Within bound := by
  intro t ran
  obtain ⟨old, isOld, rfl⟩ := assign_eq_some.mp ran
  have below := within.kvEntries entry (by rw [isOld]; simp)
  exact ⟨Heap.put_below within.kvEntries below, within.chars⟩

private theorem within_copyInto (within : s.Within bound) :
    ∀ t ∈ s.copyInto pointer count source, t.Within bound := by
  intro t ran
  cases pointer with
  | none => exact absurd ran (by simp [copyInto])
  | some address =>
      obtain ⟨block, isBlock, _, rfl⟩ := copyInto_eq_some.mp ran
      have below := within.chars address (by rw [isBlock]; simp)
      exact ⟨within.kvEntries, Heap.put_below within.chars below⟩

private theorem within_freeChars (within : s.Within bound) :
    ∀ t ∈ s.freeChars pointer, t.Within bound := by
  intro t ran
  cases pointer with
  | none =>
      obtain rfl := Option.some.inj ran
      exact within
  | some address =>
      obtain ⟨_, rfl⟩ := freeChars_eq_some.mp ran
      refine ⟨within.kvEntries, fun other live => within.chars other ?_⟩
      exact fun free => live (Heap.erase_of_none free)

private theorem within_linkEntry (within : s.Within bound) :
    ∀ t ∈ s.linkEntry entry, t.Within bound := by
  unfold linkEntry
  cases s.entriesTail with
  | none =>
      simp only [Option.bind_eq_bind]
      refine forall_mem_bind (within_assign within) fun t within => ?_
      intro t' isLast
      obtain rfl := Option.some.inj isLast
      exact ⟨within.kvEntries, within.chars⟩
  | some tail =>
      simp only [Option.bind_eq_bind]
      refine forall_mem_bind (within_assign within) fun t within => ?_
      refine forall_mem_bind (within_assign within) fun t within => ?_
      intro t' isLast
      obtain rfl := Option.some.inj isLast
      exact ⟨within.kvEntries, within.chars⟩

private theorem within_makeRoom (within : s.Within bound)
    (below : mallocs.Below bound) :
    ∀ t ∈ s.makeRoom mallocs entry size, t.Within bound := by
  simp only [makeRoom, Option.bind_eq_bind]
  refine forall_mem_bind (fun node _ => trivial) fun node _ => ?_
  cases node.value with
  | none =>
      simp only
      refine forall_mem_bind (fun globals _ => trivial) fun globals _ => ?_
      refine forall_mem_bind (within_assign within) fun t within => ?_
      refine forall_mem_bind (within_calloc (s := { t with globals := globals })
        ⟨within.kvEntries, within.chars⟩ below.value) fun t within => ?_
      exact within_assign within
  | some old =>
      simp only
      split
      · refine forall_mem_bind (within_freeChars within) fun t within => ?_
        refine forall_mem_bind (within_calloc within below.value)
          fun t within => ?_
        exact within_assign within
      · intro t same
        obtain rfl := Option.some.inj same
        exact within

private theorem within_storeValue (within : s.Within bound) :
    ∀ t ∈ s.storeValue entry value, t.Within bound := by
  simp only [storeValue, Option.bind_eq_bind]
  refine forall_mem_bind (fun node _ => trivial) fun node _ => ?_
  exact within_copyInto within

private theorem within_eagerSetNew (within : s.Within bound)
    (below : mallocs.Below bound) :
    ∀ t ∈ s.eagerSetNew mallocs key value, t.Within bound := by
  simp only [eagerSetNew, Option.bind_eq_bind]
  refine forall_mem_bind (within_mallocEntry within below.entry)
    fun t within => ?_
  refine forall_mem_bind (within_calloc within below.key) fun t within => ?_
  refine forall_mem_bind (within_calloc within below.value) fun t within => ?_
  refine forall_mem_bind (within_assign within) fun t within => ?_
  refine forall_mem_bind (within_copyInto within) fun t within => ?_
  refine forall_mem_bind (within_copyInto within) fun t within => ?_
  refine forall_mem_bind (within_assign within) fun t within => ?_
  exact within_linkEntry within

private theorem within_eagerSet (within : s.Within bound)
    (below : mallocs.Below bound) :
    ∀ t ∈ s.eagerSet fuel mallocs key value, t.Within bound := by
  simp only [eagerSet, Option.bind_eq_bind]
  refine forall_mem_bind (fun found _ => trivial) fun found _ => ?_
  cases found with
  | none => exact within_eagerSetNew within below
  | some entry =>
      refine forall_mem_bind (within_makeRoom within below) fun t within => ?_
      exact within_storeValue within

private theorem within_takeLarge (within : s.Within bound) :
    ∀ result ∈ s.takeLarge entry, result.2.Within bound := by
  simp only [takeLarge, Option.bind_eq_bind]
  refine forall_mem_bind (fun taken _ => trivial) fun taken _ => ?_
  refine forall_mem_bind (within_assign (s := { s with globals := taken.2 })
    ⟨within.kvEntries, within.chars⟩) fun t within => ?_
  intro result same
  obtain rfl := Option.some.inj same
  exact within

private theorem within_rendezvousSetOld (within : s.Within bound) :
    ∀ result ∈ s.rendezvousSetOld entry valueLength,
      result.2.Within bound := by
  simp only [rendezvousSetOld, Option.bind_eq_bind]
  refine forall_mem_bind (fun node _ => trivial) fun node _ => ?_
  cases node.largeValMemInfo with
  | none =>
      simp only
      refine forall_mem_bind (within_assign within) fun t within => ?_
      refine forall_mem_bind (within_takeLarge within) fun taken within => ?_
      refine forall_mem_bind (within_freeChars within) fun t within => ?_
      refine forall_mem_bind (within_assign within) fun t within => ?_
      intro result same
      obtain rfl := Option.some.inj same
      exact within
  | some info =>
      simp only
      refine forall_mem_bind (within_assign within) fun t within => ?_
      intro result same
      obtain rfl := Option.some.inj same
      exact within

private theorem within_rendezvousSetNew (within : s.Within bound)
    (below : mallocs.Below bound) :
    ∀ result ∈ s.rendezvousSetNew mallocs valueLength key,
      result.2.Within bound := by
  simp only [rendezvousSetNew, Option.bind_eq_bind]
  refine forall_mem_bind (within_mallocEntry within below.entry)
    fun t within => ?_
  refine forall_mem_bind (within_calloc within below.key) fun t within => ?_
  refine forall_mem_bind (within_assign within) fun t within => ?_
  refine forall_mem_bind (within_copyInto within) fun t within => ?_
  refine forall_mem_bind (within_assign within) fun t within => ?_
  refine forall_mem_bind (within_linkEntry within) fun t within => ?_
  exact within_takeLarge within

private theorem within_rendezvousSet (within : s.Within bound)
    (below : mallocs.Below bound) :
    ∀ result ∈ s.rendezvousSet fuel mallocs valueLength key,
      result.1.Within bound := by
  have large : ∀ result ∈ s.largeBuffer fuel mallocs valueLength key,
      result.2.Within bound := by
    simp only [largeBuffer, Option.bind_eq_bind]
    refine forall_mem_bind (fun found _ => trivial) fun found _ => ?_
    cases found with
    | none => exact within_rendezvousSetNew within below
    | some entry => exact within_rendezvousSetOld within
  simp only [rendezvousSet, Option.bind_eq_bind]
  refine forall_mem_bind large fun buffer within => ?_
  refine forall_mem_bind (fun server _ => trivial) fun server _ => ?_
  intro result same
  obtain rfl := Option.some.inj same
  exact within

theorem within_handle (within : s.Within bound) (below : mallocs.Below bound)
    {packet : Packet} {s' : EntryServer} {reply : Option (Packet × Nat)}
    (ran : s.handleServerPacketsOnly fuel mallocs packet = some (s', reply)) :
    s'.Within bound := by
  cases packet with
  | eagerGetRequest key =>
      obtain ⟨answer, _, same⟩ := Option.map_eq_some_iff.mp ran
      rw [← (Prod.mk.inj same).1]
      exact within
  | eagerSetRequest key value =>
      obtain ⟨t, stored, same⟩ := Option.map_eq_some_iff.mp ran
      rw [← (Prod.mk.inj same).1]
      exact within_eagerSet within below t stored
  | rendezvousSetRequest valueLength key =>
      obtain ⟨result, stored, same⟩ := Option.map_eq_some_iff.mp ran
      rw [← (Prod.mk.inj same).1]
      exact within_rendezvousSet within below result stored
  | closeConnection toClose =>
      rw [← (Prod.mk.inj (Option.some.inj ran)).1]
      exact ⟨within.kvEntries, within.chars⟩
  | _ =>
      rw [← (Prod.mk.inj (Option.some.inj ran)).1]
      exact within

end Within

/-! ## Runs -/

def handleAll (s : Server) (packets : List Packet) : Option Server :=
  packets.foldlM (fun s packet =>
    (s.handleServerPacketsOnly packet).map Prod.fst) s

/-- Addresses that are free. -/
def above (bound : Nat) : Mallocs :=
  ⟨bound, ⟨none, none, 0, 0, none, none, none⟩, bound, bound + 1⟩

theorem above_below (bound : Nat) : (above bound).Below (bound + 2) := by
  constructor <;> simp only [above] <;> omega

theorem above_fresh {bound : Nat} (within : s.Within bound) :
    (above bound).Fresh s := by
  have entry : s.kvEntries bound = none := by
    by_contra live
    exact absurd (within.kvEntries bound live) (Nat.lt_irrefl bound)
  have chars : ∀ address, bound ≤ address → s.chars address = none := by
    intro address beyond
    by_contra live
    exact absurd (within.chars address live) (Nat.not_lt.mpr beyond)
  exact ⟨entry, chars bound le_rfl, chars (bound + 1) (Nat.le_succ bound),
    (Nat.lt_succ_self bound).ne⟩

/-- Whatever packets the list handles, the heap handles at some addresses. -/
private theorem exists_reached {regMr : Nat → Option IbvMr}
    {past packets : List Packet}
    {bound : Nat} {t : Server} (reached : Reached regMr past s)
    (listed : s.Listed cells) (within : s.Within bound)
    (ran : handleAll (s.view cells) packets = some t) :
    ∃ s' cells', Reached regMr (past ++ packets) s' ∧ s'.Listed cells' ∧
      s'.view cells' = t := by
  induction packets generalizing s cells past bound with
  | nil =>
      rw [List.append_nil]
      exact ⟨s, cells, reached, listed, Option.some.inj ran⟩
  | cons packet packets inductionHypothesis =>
      obtain ⟨middle, first, later⟩ := Option.bind_eq_some_iff.mp ran
      obtain ⟨⟨_, reply⟩, handled, rfl⟩ := Option.map_eq_some_iff.mp first
      have fresh := above_fresh within
      have returns := (handle_isSome_iff listed le_rfl fresh packet).mpr
        (Option.isSome_of_eq_some handled)
      obtain ⟨⟨s', reply'⟩, ran'⟩ := Option.isSome_iff_exists.mp returns
      obtain ⟨cells', listed', refined⟩ := handle_refines listed ran'
      have same := Option.some.inj (handled.symm.trans refined)
      rw [(Prod.mk.inj same).1] at later
      have wider : s.Within (bound + 2) :=
        ⟨fun address live => (within.kvEntries address live).trans
          (Nat.lt_add_of_pos_right Nat.zero_lt_two),
        fun address live => (within.chars address live).trans
          (Nat.lt_add_of_pos_right Nat.zero_lt_two)⟩
      have within' := within_handle wider (above_below bound) ran'
      obtain ⟨last, lastCells, reached', listed'', isView⟩ :=
        inductionHypothesis (reached.handled ran') listed' within' later
      rw [List.append_assoc] at reached'
      exact ⟨last, lastCells, reached', listed'', isView⟩

/-- A run on the heap for every run on the list. -/
theorem exists_reached_start {regMr : Nat → Option IbvMr}
    {packets : List Packet} {globals t : Server}
    (ran : handleAll { globals with entries := [], entriesCounter := 0 }
      packets = some t) :
    ∃ s cells, Reached regMr packets s ∧ s.Listed cells ∧
      s.view cells = t := by
  have within : (start globals).Within 0 :=
    ⟨fun _ live => absurd rfl live, fun _ live => absurd rfl live⟩
  exact exists_reached (Reached.start globals) (listed_start globals) within ran

end EntryServer

end RdmaKv
