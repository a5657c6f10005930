import RdmaKv.Ex4.EntryReturns

/-!
# What becomes of the entries in the heap

No request loses an entry or a block, and the last loop of `clear_server_data`
frees each of them once.
-/

namespace RdmaKv.EntryServer

open ByteMemory LinkedChain

variable {s s' : EntryServer} {cells : List Cell} {key : CString}
  {value : List UInt8} {mallocs : Mallocs} {entry fuel valueLength : Nat}
  {node node' : EntryNode}

/-- Every entry that is allocated is in the list, and every block of characters
is the key or the value of an entry. -/
structure Owns (s : EntryServer) : Prop where
  listed : ∀ entry, s.kvEntries entry ≠ none →
    Reaches s.next s.entriesHead entry
  owned : ∀ block, s.chars block ≠ none → ∃ entry node,
    s.kvEntries entry = some node ∧
      (node.key = some block ∨ node.value = some block)

private theorem owns_start (globals : Server) : (start globals).Owns :=
  ⟨fun _ live => absurd rfl live, fun _ live => absurd rfl live⟩

/-! ## A request for a key that is found -/

/-- A step that changes one entry and its value. -/
structure Rewrites (entry : Nat) (node node' : EntryNode)
    (s s' : EntryServer) : Prop where
  before : s.kvEntries entry = some node
  here : s'.kvEntries entry = some node'
  others : ∀ other ≠ entry, s'.kvEntries other = s.kvEntries other
  head : s'.entriesHead = s.entriesHead
  next : node'.nextEntry = node.nextEntry
  key : node'.key = node.key
  chars : ∀ block, s'.chars block ≠ none → node'.value = some block ∨
    s.chars block ≠ none ∧ node.value ≠ some block

theorem Owns.rewrite (owns : s.Owns)
    (rewrites : Rewrites entry node node' s s') : s'.Owns := by
  obtain ⟨before, here, others, head, next, key, chars⟩ := rewrites
  have sameNext : s'.next = s.next := by
    funext other
    by_cases same : other = entry
    · rw [same, EntryServer.next, EntryServer.next, here, before,
        Option.bind_some, Option.bind_some, next]
    · rw [EntryServer.next, EntryServer.next, others other same]
  refine ⟨fun other live => ?_, fun block live => ?_⟩
  · rw [sameNext, head]
    refine owns.listed other ?_
    by_cases same : other = entry
    · rw [same, before]
      exact Option.some_ne_none node
    · rwa [← others other same]
  · rcases chars block live with isValue | ⟨live, notValue⟩
    · exact ⟨entry, node', here, Or.inr isValue⟩
    · obtain ⟨other, otherNode, isOther, points⟩ := owns.owned block live
      by_cases same : other = entry
      · rw [same, before] at isOther
        obtain rfl := Option.some.inj isOther
        exact ⟨entry, node', here, Or.inl
          (key.trans (points.resolve_right notValue))⟩
      · exact ⟨other, otherNode, (others other same).trans isOther, points⟩

/-- What is live after `free` was live, and is not what was freed. -/
private theorem freeChars_live {pointer : Option Nat} {t : EntryServer}
    (ran : s.freeChars pointer = some t) :
    ∃ chars, t = { s with chars := chars } ∧ ∀ block, chars block ≠ none →
      s.chars block ≠ none ∧ pointer ≠ some block := by
  cases pointer with
  | none =>
      obtain rfl := Option.some.inj ran
      exact ⟨_, rfl, fun _ live => ⟨live, by simp⟩⟩
  | some address =>
      obtain ⟨_, rfl⟩ := freeChars_eq_some.mp ran
      refine ⟨_, rfl, fun block live => ?_⟩
      have other : block ≠ address := by
        rintro rfl
        exact live (if_pos rfl)
      rw [Heap.erase_other other] at live
      exact ⟨live, fun same => other (Option.some.inj same).symm⟩

/-- `EAGER_SET_REQUEST`. -/
private theorem storeValue_rewrites {roomy : EntryServer}
    (isNode : s.kvEntries entry = some node)
    (made : s.makeRoom mallocs entry value.length = some roomy)
    (ran : roomy.storeValue entry value = some s') :
    ∃ node', Rewrites entry node node' s s' := by
  have away {heap : Heap EntryNode} {node : EntryNode} (other : Nat)
      (different : other ≠ entry) :
      heap.put entry node other = heap other := Heap.put_other different
  cases isValue : node.value with
  | none =>
      simp only [makeRoom, isNode, isValue, Option.bind_eq_bind,
        Option.bind_some, Option.bind_eq_some_iff, assign_eq_some,
        calloc_eq_some, Option.some.injEq, exists_eq_left'] at made
      obtain ⟨globals, _, _, rfl, _, ⟨free, rfl⟩, last, isLast, rfl⟩ := made
      obtain rfl := Option.some.inj (Heap.put_same.symm.trans isLast)
      simp only [storeValue, Heap.put_same, Option.bind_eq_bind,
        Option.bind_some, copyInto_eq_some, Option.some.injEq,
        exists_eq_left'] at ran
      obtain ⟨_, rfl⟩ := ran
      refine ⟨_, isNode, Heap.put_same, fun other different => ?_, rfl, rfl,
        rfl, fun block live => ?_⟩
      · simp only [away other different]
      · by_cases same : mallocs.value = block
        · exact Or.inl (congrArg some same)
        · simp only [Heap.put_other (Ne.symm same)] at live
          exact Or.inr ⟨live, by simp [isValue]⟩
  | some old =>
      by_cases resized : node.valLen ≠ value.length
      · simp only [makeRoom, isNode, isValue, if_pos resized,
          Option.bind_eq_bind, Option.bind_some, Option.bind_eq_some_iff,
          assign_eq_some, calloc_eq_some, freeChars_eq_some] at made
        obtain ⟨_, ⟨_, rfl⟩, _, ⟨free, rfl⟩, last, isLast, rfl⟩ := made
        obtain rfl := Option.some.inj (isNode.symm.trans isLast)
        simp only [storeValue, Heap.put_same, Option.bind_eq_bind,
          Option.bind_some, copyInto_eq_some, Option.some.injEq,
          exists_eq_left'] at ran
        obtain ⟨_, rfl⟩ := ran
        refine ⟨_, isNode, Heap.put_same, fun other different => ?_, rfl, rfl,
          rfl, fun block live => ?_⟩
        · simp only [away other different]
        · by_cases same : mallocs.value = block
          · exact Or.inl (congrArg some same)
          · simp only [Heap.put_other (Ne.symm same)] at live
            have other : block ≠ old := by
              rintro rfl
              exact live (if_pos rfl)
            rw [Heap.erase_other other] at live
            exact Or.inr ⟨live, by simpa [isValue] using other.symm⟩
      · simp only [makeRoom, isNode, isValue, Option.bind_eq_bind,
          Option.bind_some, if_neg resized, Option.some.injEq] at made
        subst made
        simp only [storeValue, isNode, isValue, Option.bind_eq_bind,
          Option.bind_some, copyInto_eq_some] at ran
        obtain ⟨block, _, _, rfl⟩ := ran
        refine ⟨node, isNode, isNode, fun _ _ => rfl, rfl, rfl, rfl,
          fun other live => ?_⟩
        by_cases same : old = other
        · exact Or.inl (isValue.trans (congrArg some same))
        · simp only [Heap.put_other (Ne.symm same)] at live
          exact Or.inr ⟨live, by simpa [isValue] using same⟩

/-- `RENDEZVOUS_SET_REQUEST`. -/
private theorem rendezvousSetOld_rewrites {info : Nat}
    (isNode : s.kvEntries entry = some node)
    (ran : s.rendezvousSetOld entry valueLength = some (info, s')) :
    ∃ node', Rewrites entry node node' s s' := by
  cases isLarge : node.largeValMemInfo with
  | none =>
      simp only [rendezvousSetOld, isNode, isLarge, takeLarge,
        Option.bind_eq_bind, Option.bind_some, Option.bind_eq_some_iff,
        assign_eq_some, Option.pure_def, Option.some.injEq, exists_eq_left',
        Prod.mk.injEq] at ran
      obtain ⟨_, rfl, _, ⟨⟨info, globals⟩, _, _, ⟨second, isSecond, rfl⟩, rfl⟩,
        _, freed, _, ⟨third, isThird, rfl⟩, rfl, rfl⟩ := ran
      obtain rfl := Option.some.inj (isSecond.symm.trans Heap.put_same)
      obtain ⟨chars, rfl, kept⟩ := freeChars_live freed
      obtain rfl := Option.some.inj (isThird.symm.trans Heap.put_same)
      refine ⟨_, isNode, Heap.put_same, fun other different => ?_, rfl, rfl,
        rfl, fun block live => Or.inr (kept block live)⟩
      simp only [Heap.put_other different]
  | some taken =>
      simp only [rendezvousSetOld, isNode, isLarge, Option.bind_eq_bind,
        Option.bind_some, Option.bind_eq_some_iff, assign_eq_some,
        Option.pure_def, Option.some.injEq, exists_eq_left',
        Prod.mk.injEq] at ran
      obtain ⟨_, rfl, rfl, rfl⟩ := ran
      refine ⟨_, isNode, Heap.put_same, fun other different => ?_, rfl, rfl,
        rfl, fun block live => ?_⟩
      · simp only [Heap.put_other different]
      · by_cases same : node.value = some block
        · exact Or.inl same
        · exact Or.inr ⟨live, same⟩

/-! ## A request for a key that is not found -/

/-- A step that allocates an entry with its blocks and links it. -/
structure Adds (entry : Nat) (blocks : List Nat) (s s' : EntryServer) :
    Prop where
  tail : s'.entriesTail = some entry
  here : ∀ block ∈ blocks, ∃ node, s'.kvEntries entry = some node ∧
    (node.key = some block ∨ node.value = some block)
  kept : ∀ other node, s.kvEntries other = some node →
    ∃ node', s'.kvEntries other = some node' ∧ node'.key = node.key ∧
      node'.value = node.value
  live : ∀ other, s'.kvEntries other ≠ none →
    other = entry ∨ s.kvEntries other ≠ none
  chars : ∀ block, s'.chars block ≠ none →
    block ∈ blocks ∨ s.chars block ≠ none

theorem Owns.add {blocks : List Nat} {c : Cell} (owns : s.Owns)
    (adds : Adds entry blocks s s') (listed : s.Listed cells)
    (listed' : s'.Listed (cells ++ [c])) : s'.Owns := by
  refine ⟨fun other live => ?_, fun block live => ?_⟩
  · rw [listed'.linked.forward.reaches_iff]
    rcases adds.live other live with rfl | old
    · exact listed'.linked.tail_mem adds.tail
    · have member := listed.linked.forward.reaches_iff.mp
        (owns.listed other old)
      rw [List.map_append]
      exact List.mem_append_left _ member
  · rcases adds.chars block live with new | old
    · obtain ⟨node, isNode, points⟩ := adds.here block new
      exact ⟨entry, node, isNode, points⟩
    · obtain ⟨other, node, isNode, points⟩ := owns.owned block old
      obtain ⟨node', isNode', sameKey, sameValue⟩ := adds.kept other node isNode
      exact ⟨other, node', isNode', by rwa [sameKey, sameValue]⟩

/-- `linkEntry` behind an allocation. -/
theorem Links.adds {blocks : List Nat} {t : EntryServer}
    (links : Links entry node t s') (fresh : s.kvEntries entry = none)
    (others : ∀ other ≠ entry, t.kvEntries other = s.kvEntries other)
    (here : ∀ block ∈ blocks, node.key = some block ∨ node.value = some block)
    (chars : ∀ block, t.chars block ≠ none →
      block ∈ blocks ∨ s.chars block ≠ none) : Adds entry blocks s s' := by
  have away (other : Nat) (old : EntryNode)
      (isOld : s.kvEntries other = some old) : other ≠ entry := by
    rintro rfl
    rw [fresh] at isOld
    exact absurd isOld (by simp)
  refine ⟨links.tail, fun block member => ⟨_, links.here, here block member⟩,
    fun other old isOld => ?_, fun other live => ?_, fun block live => ?_⟩
  · have different := away other old isOld
    rw [links.others other different, others other different, isOld]
    split
    · exact ⟨_, rfl, rfl, rfl⟩
    · exact ⟨_, rfl, rfl, rfl⟩
  · by_cases same : other = entry
    · exact Or.inl same
    · rw [links.others other same, others other same] at live
      refine Or.inr fun free => live ?_
      rw [free]
      split <;> rfl
  · rw [links.chars] at live
    exact chars block live

private theorem eagerSetNew_adds (listed : s.Listed cells)
    (ran : s.eagerSetNew mallocs key value = some s') :
    Adds mallocs.entry [mallocs.key, mallocs.value] s s' := by
  simp only [eagerSetNew, Option.bind_eq_bind, Option.bind_eq_some_iff,
    mallocEntry_eq_some, calloc_eq_some, assign_eq_some,
    copyInto_eq_some] at ran
  obtain ⟨_, ⟨free, rfl⟩, _, ⟨_, rfl⟩, _, ⟨_, rfl⟩, _, ⟨_, _, rfl⟩, _,
    ⟨_, _, _, rfl⟩, _, ⟨_, _, _, rfl⟩, _, ⟨node, isNode, rfl⟩, linked⟩ := ran
  obtain rfl := Option.some.inj (isNode.symm.trans Heap.put_same)
  have links := linkEntry_links linked Heap.put_same (listed.tail_ne free)
  refine links.adds free (fun other different => ?_) (fun block member => ?_)
    fun block live => ?_
  · simp only [Heap.put_other different]
  · simpa [eq_comm] using member
  · by_cases isKey : block = mallocs.key
    · exact Or.inl (by simp [isKey])
    by_cases isValue : block = mallocs.value
    · exact Or.inl (by simp [isValue])
    · simp only [Heap.put_other isKey, Heap.put_other isValue] at live
      exact Or.inr live

private theorem rendezvousSetNew_adds {info : Nat} (listed : s.Listed cells)
    (ran : s.rendezvousSetNew mallocs valueLength key = some (info, s')) :
    Adds mallocs.entry [mallocs.key] s s' := by
  simp only [rendezvousSetNew, takeLarge, Option.bind_eq_bind,
    Option.bind_eq_some_iff, mallocEntry_eq_some, calloc_eq_some,
    assign_eq_some, copyInto_eq_some, Option.pure_def, Option.some.injEq,
    Prod.mk.injEq] at ran
  obtain ⟨_, ⟨free, rfl⟩, _, ⟨_, rfl⟩, _, ⟨_, _, rfl⟩, _, ⟨_, _, _, rfl⟩, _,
    ⟨node, isNode, rfl⟩, t, linked, ⟨info, globals⟩, _, _,
    ⟨last, isLast, rfl⟩, rfl, rfl⟩ := ran
  obtain rfl := Option.some.inj (isNode.symm.trans Heap.put_same)
  have links := linkEntry_links linked Heap.put_same (listed.tail_ne free)
  have adds : Adds mallocs.entry [mallocs.key] s t := by
    refine links.adds free (fun other different => ?_)
      (fun block member => ?_) fun block live => ?_
    · simp only [Heap.put_other different]
    · exact Or.inl (congrArg some (List.mem_singleton.mp member).symm)
    · by_cases isKey : block = mallocs.key
      · exact Or.inl (by simp [isKey])
      · simp only [Heap.put_other isKey] at live
        exact Or.inr live
  -- `takeLarge` changes the new entry, but not what it points to.
  have same (other : Nat) :
      (t.kvEntries.put mallocs.entry { last with
        largeValMemInfo := some info }) other =
      if other = mallocs.entry then some { last with
        largeValMemInfo := some info }
      else t.kvEntries other := rfl
  refine ⟨adds.tail, fun block member => ?_, fun other old isOld => ?_,
    fun other live => ?_, adds.chars⟩
  · obtain ⟨node, isNode', points⟩ := adds.here block member
    obtain rfl := Option.some.inj (isLast.symm.trans isNode')
    exact ⟨_, Heap.put_same, points⟩
  · obtain ⟨node', isNode', sameBlocks⟩ := adds.kept other old isOld
    simp only [same]
    split
    · rename_i here
      rw [here, isLast] at isNode'
      obtain rfl := Option.some.inj isNode'
      exact ⟨_, rfl, sameBlocks⟩
    · exact ⟨node', isNode', sameBlocks⟩
  · by_cases here : other = mallocs.entry
    · exact Or.inl here
    · simp only [same, if_neg here] at live
      exact adds.live other live

/-! ## Any request -/

theorem Owns.eagerSet (owns : s.Owns) (listed : s.Listed cells)
    (ran : s.eagerSet fuel mallocs key value = some s') : s'.Owns := by
  simp only [EntryServer.eagerSet, Option.bind_eq_bind,
    Option.bind_eq_some_iff] at ran
  obtain ⟨found, searched, stored⟩ := ran
  rcases searchEntry_spec listed.linked.forward listed.shown searched with
    ⟨rfl, _⟩ | ⟨before, c, after, rfl, rfl, _, _⟩
  · obtain ⟨c, listed', _⟩ := eagerSetNew_spec listed stored
    exact owns.add (eagerSetNew_adds listed stored) listed listed'
  · obtain ⟨node, isNode, _⟩ := listed.here
    obtain ⟨roomy, made, stored⟩ := Option.bind_eq_some_iff.mp stored
    obtain ⟨node', rewrites⟩ := storeValue_rewrites isNode made stored
    exact owns.rewrite rewrites

theorem Owns.largeBuffer {info : Nat} (owns : s.Owns) (listed : s.Listed cells)
    (ran : s.largeBuffer fuel mallocs valueLength key = some (info, s')) :
    s'.Owns := by
  obtain ⟨found, searched, stored⟩ := Option.bind_eq_some_iff.mp ran
  rcases searchEntry_spec listed.linked.forward listed.shown searched with
    ⟨rfl, _⟩ | ⟨before, c, after, rfl, rfl, _, _⟩
  · obtain ⟨c, globals, listed', _⟩ := rendezvousSetNew_spec listed stored
    exact owns.add (rendezvousSetNew_adds listed stored) listed listed'
  · obtain ⟨node, isNode, _⟩ := listed.here
    obtain ⟨node', rewrites⟩ := rendezvousSetOld_rewrites isNode stored
    exact owns.rewrite rewrites

theorem Owns.handle {packet : Packet} {reply : Option (Packet × Nat)}
    (owns : s.Owns) (listed : s.Listed cells)
    (ran : s.handleServerPacketsOnly fuel mallocs packet =
      some (s', reply)) : s'.Owns := by
  cases packet with
  | eagerGetRequest key =>
      obtain ⟨_, _, same⟩ := Option.map_eq_some_iff.mp ran
      obtain ⟨rfl, rfl⟩ := Prod.mk.inj same
      exact owns
  | eagerSetRequest key value =>
      obtain ⟨t, stored, same⟩ := Option.map_eq_some_iff.mp ran
      obtain ⟨rfl, rfl⟩ := Prod.mk.inj same
      exact owns.eagerSet listed stored
  | rendezvousSetRequest valueLength key =>
      obtain ⟨⟨t, answer⟩, stored, same⟩ := Option.map_eq_some_iff.mp ran
      obtain ⟨rfl, rfl⟩ := Prod.mk.inj same
      obtain ⟨⟨info, t'⟩, buffer, replied⟩ := Option.bind_eq_some_iff.mp stored
      obtain ⟨server, _, same'⟩ := Option.bind_eq_some_iff.mp replied
      obtain ⟨rfl, rfl⟩ := Prod.mk.inj (Option.some.inj same')
      exact owns.largeBuffer listed buffer
  | closeConnection toClose =>
      obtain ⟨rfl, rfl⟩ := Prod.mk.inj (Option.some.inj ran)
      exact ⟨owns.listed, owns.owned⟩
  | _ =>
      obtain ⟨rfl, rfl⟩ := Prod.mk.inj (Option.some.inj ran)
      exact owns

theorem Reached.owns {regMr : Nat → Option IbvMr} {past : List Packet}
    (reached : Reached regMr past s) : s.Owns := by
  induction reached with
  | start globals => exact owns_start globals
  | handled reached ran inductionHypothesis =>
      obtain ⟨cells, listed, _⟩ := reached.listed
      exact inductionHypothesis.handle listed ran
  | maintained _ _ inductionHypothesis =>
      exact ⟨inductionHypothesis.listed, inductionHypothesis.owned⟩

/-! ## `clear_server_data` -/

/-- The last loop, for at most `fuel` entries, where every `ibv_dereg_mr`
succeeds: the nodes whose `rndv_mr` it deregisters, in order. -/
def clearEntries (s : EntryServer) (fuel : Nat) :
    Option (List Nat × EntryServer) :=
  match s.entriesHead with
  | none => some ([], s)
  | some entry =>
      match fuel with
      | 0 => none
      | fuel + 1 => do
          let node ← s.kvEntries entry
          let infos ← match node.largeValMemInfo with
            | none => some []
            | some info => (s.globals.nodes info).rndvMr.map fun _ => [info]
          let s ← s.freeChars node.value
          let s ← s.freeChars node.key
          let kvEntries ← s.kvEntries.free (some entry)
          let (rest, s) ← clearEntries { s with
            kvEntries := kvEntries
            entriesHead := node.nextEntry } fuel
          return (infos ++ rest, s)

def cleared (s : EntryServer) : EntryServer :=
  { s with kvEntries := .empty, chars := .empty, entriesHead := none }

/-- The blocks of an entry can be freed. -/
private theorem free_blocks {c : Cell} (shows' : c.Shows s.chars node)
    (nodup : c.blocks.Nodup) :
    ∃ t chars, s.freeChars node.value = some t ∧
      t.freeChars node.key = some { s with chars := chars } ∧
      (∀ block ∈ c.blocks, chars block = none) ∧
      ∀ block, block ∉ c.blocks → chars block = s.chars block := by
  have keyLive : s.chars c.keyAt ≠ none := shows'.live List.mem_cons_self
  rw [shows'.key, shows'.value]
  cases isValue : c.valueAt with
  | none =>
      have blocks : c.blocks = [c.keyAt] := by
        simp [Cell.blocks, isValue]
      refine ⟨s, _, freeChars_none, freeChars_eq_some.mpr ⟨keyLive, rfl⟩,
        fun block member => ?_, fun block outside => ?_⟩
      · rw [blocks, List.mem_singleton] at member
        exact if_pos member
      · rw [blocks, List.mem_singleton] at outside
        exact Heap.erase_other outside
  | some address =>
      have blocks : c.blocks = [c.keyAt, address] := by
        simp [Cell.blocks, isValue]
      have valueLive : s.chars address ≠ none :=
        shows'.live (value_mem_blocks isValue)
      have apart : c.keyAt ≠ address := by
        rw [blocks] at nodup
        simpa using nodup
      refine ⟨_, _, freeChars_eq_some.mpr ⟨valueLive, rfl⟩,
        freeChars_eq_some.mpr ⟨?_, rfl⟩, fun block member => ?_,
        fun block outside => ?_⟩
      · exact fun free => keyLive ((Heap.erase_other apart).symm.trans free)
      · rw [blocks, List.mem_cons, List.mem_singleton] at member
        rcases member with rfl | rfl
        · exact if_pos rfl
        · exact Heap.erase_of_none (if_pos rfl)
      · rw [blocks, List.mem_cons, List.mem_singleton, not_or] at outside
        exact (Heap.erase_other outside.1).trans (Heap.erase_other outside.2)

/-- The loop frees all entries and their blocks when nothing else is
allocated. -/
private theorem clearEntries_eq
    (chain : Chain s.next s.entriesHead (cells.map Cell.address))
    (shown : ∀ c ∈ cells, ∃ node, s.kvEntries c.address = some node ∧
      c.Shows s.chars node)
    (apart : (cells.flatMap Cell.blocks).Nodup)
    (entries : ∀ entry, s.kvEntries entry ≠ none →
      entry ∈ cells.map Cell.address)
    (blocks : ∀ block, s.chars block ≠ none →
      block ∈ cells.flatMap Cell.blocks)
    (enough : cells.length ≤ fuel) :
    s.clearEntries fuel =
      (s.globals.deregisterEntries (cells.map Cell.entry)).map
        fun infos => (infos, s.cleared) := by
  induction cells generalizing s fuel with
  | nil =>
      have isHead : s.entriesHead = none := chain
      have noEntries : s.kvEntries = .empty := by
        funext entry
        by_contra live
        exact absurd (entries entry live) List.not_mem_nil
      have noBlocks : s.chars = .empty := by
        funext block
        by_contra live
        exact absurd (blocks block live) List.not_mem_nil
      have same : s.cleared = s := by
        rw [cleared, ← noEntries, ← noBlocks, ← isHead]
      unfold clearEntries
      rw [isHead, same]
      rfl
  | cons c cells inductionHypothesis =>
      obtain ⟨isHead, later⟩ := chain
      obtain ⟨node, isNode, shows'⟩ := shown c List.mem_cons_self
      rw [List.flatMap_cons, List.nodup_append] at apart
      obtain ⟨nodup, apart, different⟩ := apart
      have addresses : c.address ∉ cells.map Cell.address := by
        have nodup := (show Chain s.next s.entriesHead
          ((c :: cells).map Cell.address) from ⟨isHead, later⟩).nodup
        exact (List.nodup_cons.mp nodup).1
      obtain ⟨t, chars, valueFreed, keyFreed, gone, kept⟩ :=
        free_blocks shows' nodup
      have entryFreed : s.kvEntries.free (some c.address) =
          some (s.kvEntries.erase c.address) :=
        Heap.free_eq_some.mpr ⟨by simp [isNode], rfl⟩
      cases fuel with
      | zero => exact absurd enough (Nat.not_succ_le_zero _)
      | succ fuel =>
          have away (other : Cell) (member : other ∈ cells) :
              other.address ≠ c.address := fun same =>
            addresses (same ▸ List.mem_map_of_mem member)
          have rest := @inductionHypothesis { s with
            kvEntries := s.kvEntries.erase c.address
            chars := chars
            entriesHead := node.nextEntry } fuel ?_ ?_ apart ?_ ?_
            (Nat.le_of_succ_le_succ enough)
          · unfold clearEntries
            simp only [isHead, isNode, Option.bind_eq_bind, Option.bind_some,
              valueFreed, keyFreed, entryFreed, rest, shows'.large,
              List.map_cons, Server.deregisterEntries]
            cases c.entry.largeValMemInfo with
            | none =>
                cases s.globals.deregisterEntries (cells.map Cell.entry) <;> rfl
            | some info =>
                simp only
                cases (s.globals.nodes info).rndvMr <;>
                  cases s.globals.deregisterEntries (cells.map Cell.entry) <;>
                  rfl
          · have isNext : s.next c.address = node.nextEntry := by
              simp [next, isNode]
            rw [isNext] at later
            refine later.congr fun entry member => ?_
            have other : entry ≠ c.address := fun same =>
              addresses (same ▸ member)
            simp only [next, Heap.erase_other other]
          · intro other member
            obtain ⟨otherNode, isOther, otherShows⟩ :=
              shown other (List.mem_cons_of_mem _ member)
            refine ⟨otherNode, (Heap.erase_other (away other member)).trans
              isOther, otherShows.congr fun block inside => ?_⟩
            exact kept block fun also => different block also block
              (List.mem_flatMap.mpr ⟨other, member, inside⟩) rfl
          · intro entry live
            have other : entry ≠ c.address := by
              rintro rfl
              exact live (if_pos rfl)
            simp only [Heap.erase_other other] at live
            exact (List.mem_cons.mp (entries entry live)).resolve_left other
          · intro block live
            have outside : block ∉ c.blocks := fun member =>
              live (gone block member)
            simp only [kept block outside] at live
            exact (List.mem_append.mp (blocks block live)).resolve_left outside

/-- Only the nodes of the pool matter. -/
private theorem deregisterEntries_congr {t t' : Server}
    (same : t'.nodes = t.nodes)
    (entries : List KvEntry) :
    t'.deregisterEntries entries = t.deregisterEntries entries := by
  induction entries with
  | nil => rfl
  | cons entry entries inductionHypothesis =>
      unfold Server.deregisterEntries
      rw [inductionHypothesis, same]

/-- The entries in the list have all that is allocated. -/
theorem Owns.blocks (owns : s.Owns) (listed : s.Listed cells) {block : Nat}
    (live : s.chars block ≠ none) : block ∈ cells.flatMap Cell.blocks := by
  obtain ⟨entry, node, isNode, points⟩ := owns.owned block live
  have member := listed.linked.forward.reaches_iff.mp
    (owns.listed entry (by simp [isNode]))
  obtain ⟨c, isCell, rfl⟩ := List.mem_map.mp member
  obtain ⟨other, isOther, shows'⟩ := listed.shown c isCell
  obtain rfl := Option.some.inj (isNode.symm.trans isOther)
  refine List.mem_flatMap.mpr ⟨c, isCell, ?_⟩
  rcases points with isKey | isValue
  · rw [Option.some.inj (isKey.symm.trans shows'.key)]
    exact List.mem_cons_self
  · exact value_mem_blocks (shows'.value.symm.trans isValue)

/-- After any packets exactly the entries of the list are allocated, with the
blocks of their keys and values, and the last loop of `clear_server_data` frees
each of them once: nothing is left, and it deregisters what the list of
entries says. -/
theorem entries_freed {regMr : Nat → Option IbvMr} {past : List Packet}
    (reached : Reached regMr past s) :
    ∃ cells, s.Listed cells ∧
      (∀ entry, s.kvEntries entry ≠ none ↔ entry ∈ cells.map Cell.address) ∧
      (∀ block, s.chars block ≠ none ↔ block ∈ cells.flatMap Cell.blocks) ∧
      ∀ fuel, cells.length ≤ fuel → s.clearEntries fuel =
        ((s.view cells).deregisterEntries (s.view cells).entries).map
          fun infos => (infos, s.cleared) := by
  obtain ⟨cells, listed, _⟩ := reached.listed
  have owns := reached.owns
  have entries (entry : Nat) (live : s.kvEntries entry ≠ none) :
      entry ∈ cells.map Cell.address :=
    listed.linked.forward.reaches_iff.mp (owns.listed entry live)
  refine ⟨cells, listed, fun entry => ⟨entries entry, fun member => ?_⟩,
    fun block => ⟨owns.blocks listed, fun member => ?_⟩, fun fuel enough => ?_⟩
  · obtain ⟨c, isCell, rfl⟩ := List.mem_map.mp member
    obtain ⟨node, isNode, _⟩ := listed.shown c isCell
    simp [isNode]
  · obtain ⟨c, isCell, inside⟩ := List.mem_flatMap.mp member
    obtain ⟨_, _, shows'⟩ := listed.shown c isCell
    exact shows'.live inside
  · rw [clearEntries_eq listed.linked.forward listed.shown listed.apart entries
      (fun block => owns.blocks listed) enough]
    exact congrArg (Option.map _)
      (@deregisterEntries_congr (s.view cells) s.globals rfl _)

theorem entries_freed_setTwice :
    ∃ s, Reached (fun _ => none) setTwice s ∧ ∃ cells, s.Listed cells ∧
      (∀ entry, s.kvEntries entry ≠ none ↔ entry ∈ cells.map Cell.address) ∧
      (∀ block, s.chars block ≠ none ↔ block ∈ cells.flatMap Cell.blocks) ∧
      ∀ fuel, cells.length ≤ fuel → s.clearEntries fuel =
        ((s.view cells).deregisterEntries (s.view cells).entries).map
          fun infos => (infos, s.cleared) := by
  have handles : (handleAll { oneBuffer with entries := [], entriesCounter := 0 }
      setTwice).isSome = true := rfl
  obtain ⟨t, ran⟩ := Option.isSome_iff_exists.mp handles
  obtain ⟨s, _, reached, _⟩ :=
    @exists_reached_start (fun _ => none) setTwice oneBuffer t ran
  exact ⟨s, reached, entries_freed reached⟩

end RdmaKv.EntryServer
