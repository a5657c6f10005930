import RdmaKv.Ex4.Placement
import RdmaKv.Library.Heap
import RdmaKv.Library.LinkedChain

/-!
# The list of entries of `kv_server.c` in its heap

`struct KV_ENTRY` with its pointers: the neighbours in the list, the block of
the key and the block of the value.  `handle_server_packets_only` assigns them
in the order of the source.  `malloc` and `calloc` succeed; they return any
address that is free, and `malloc` a block with any content.

`RdmaKv.Server` has the entries as a list.  What the handler does with the
pointers is what it does with that list.
-/

namespace RdmaKv

open ByteMemory LinkedChain
open scoped List

structure EntryNode where
  prevEntry : Option Nat
  nextEntry : Option Nat
  keyLen : Nat
  valLen : Nat
  largeValMemInfo : Option Nat
  key : Option Nat
  value : Option Nat

structure CharBlock where
  size : Nat
  bytes : Memory

namespace CharBlock

def content (block : CharBlock) : List UInt8 := block.bytes.slice 0 block.size

/-- The string in it, if it ends there. -/
def string? (block : CharBlock) : Option CString :=
  block.bytes.string? 0 block.size

end CharBlock

/-- The heap, `entries_head`, `entries_tail` and `entries_counter`.  `globals`
has the other globals of the server. -/
structure EntryServer where
  kvEntries : Heap EntryNode
  chars : Heap CharBlock
  entriesHead : Option Nat
  entriesTail : Option Nat
  entriesCounter : Nat
  globals : Server

/-- What the calls of `malloc` and `calloc` return while a request is handled:
an entry with its content, and the blocks of a key and of a value. -/
structure Mallocs where
  entry : Nat
  garbage : EntryNode
  key : Nat
  value : Nat

namespace EntryServer

/-- No entries, and any state of the pool. -/
def start (globals : Server) : EntryServer :=
  ⟨.empty, .empty, none, none, 0, globals⟩

def mallocEntry (s : EntryServer) (mallocs : Mallocs) : Option EntryServer :=
  (s.kvEntries.allocate mallocs.entry mallocs.garbage).map fun kvEntries =>
    { s with kvEntries := kvEntries }

/-- `calloc(size, 1)`. -/
def calloc (s : EntryServer) (address size : Nat) : Option EntryServer :=
  (s.chars.allocate address ⟨size, Memory.zero⟩).map fun chars =>
    { s with chars := chars }

def freeChars (s : EntryServer) (pointer : Option Nat) : Option EntryServer :=
  (s.chars.free pointer).map fun chars => { s with chars := chars }

def assign (s : EntryServer) (entry : Nat) (change : EntryNode → EntryNode) :
    Option EntryServer :=
  (s.kvEntries.assign (some entry) change).map fun kvEntries =>
    { s with kvEntries := kvEntries }

/-- `memcpy` or `strcpy` to the start of a block, in which there is room. -/
def copyInto (s : EntryServer) (pointer : Option Nat) (count : Nat)
    (source : Memory) : Option EntryServer := do
  let address ← pointer
  let block ← s.chars address
  if count ≤ block.size then
    return { s with
      chars := s.chars.put address
        { block with bytes := block.bytes.copy 0 count source } }
  else none

/-- The loop of each request from `current_node` on, for at most `fuel`
entries: the entry that `strcmp` finds. -/
def searchEntry (s : EntryServer) (key : CString) :
    Nat → Option Nat → Option (Option Nat)
  | _, none => some none
  | 0, some _ => none
  | fuel + 1, some entry => do
      let node ← s.kvEntries entry
      let block ← s.chars (← node.key)
      if (← block.string?) = key then some (some entry)
      else s.searchEntry key fuel node.nextEntry

/-! ## The requests -/

def eagerGet (s : EntryServer) (fuel : Nat) (key : CString) :
    Option (Packet × Nat) := do
  match ← s.searchEntry key fuel s.entriesHead with
  | some entry =>
      let node ← s.kvEntries entry
      match node.value with
      | some value =>
          let block ← s.chars value
          if node.valLen ≤ block.size then
            return (.eagerGetResponse (block.bytes.slice 0 node.valLen),
              sizeofPacket + node.valLen)
          else none
      | none =>
          let info ← node.largeValMemInfo
          let server ← (s.globals.nodes info).rndvMr
          return (.rendezvousGetResponse node.valLen server, sizeofPacket)
  | none => return (.eagerGetResponse [0], sizeofPointer + 1)

/-- Behind `fix pointers`: the entry becomes the last one. -/
def linkEntry (s : EntryServer) (entry : Nat) : Option EntryServer :=
  match s.entriesTail with
  | none => do
      let s ← s.assign entry fun node => { node with prevEntry := none }
      return { s with
        entriesHead := some entry
        entriesTail := some entry
        entriesCounter := s.entriesCounter + 1 }
  | some tail => do
      let s ← s.assign entry fun node => { node with prevEntry := some tail }
      let s ← s.assign tail fun node => { node with nextEntry := some entry }
      return { s with
        entriesTail := some entry
        entriesCounter := s.entriesCounter + 1 }

/-- `case EAGER_SET_REQUEST` for a key that is found: a block with room for the
value. -/
def makeRoom (s : EntryServer) (mallocs : Mallocs) (entry size : Nat) :
    Option EntryServer := do
  let node ← s.kvEntries entry
  match node.value with
  | none =>
      let globals ← s.globals.taint node.largeValMemInfo
      let s ← s.assign entry fun node =>
        { node with largeValMemInfo := none, valLen := size }
      let s ← { s with globals := globals }.calloc mallocs.value size
      s.assign entry fun node => { node with value := some mallocs.value }
  | some old =>
      if node.valLen ≠ size then
        let s ← s.freeChars (some old)
        let s ← s.calloc mallocs.value size
        s.assign entry fun node =>
          { node with value := some mallocs.value, valLen := size }
      else some s

/-- The `memcpy` behind it. -/
def storeValue (s : EntryServer) (entry : Nat) (value : List UInt8) :
    Option EntryServer := do
  let node ← s.kvEntries entry
  s.copyInto node.value value.length (Memory.ofList value)

/-- The same request for a key that is not found. -/
def eagerSetNew (s : EntryServer) (mallocs : Mallocs) (key : CString)
    (value : List UInt8) : Option EntryServer := do
  let s ← s.mallocEntry mallocs
  let s ← s.calloc mallocs.key (key.length + 1)
  let s ← s.calloc mallocs.value value.length
  let s ← s.assign mallocs.entry fun node =>
    { node with key := some mallocs.key, value := some mallocs.value }
  let s ← s.copyInto (some mallocs.key) (key.length + 1) key.memory
  let s ← s.copyInto (some mallocs.value) value.length (Memory.ofList value)
  let s ← s.assign mallocs.entry fun node =>
    { node with
      nextEntry := none
      keyLen := key.length
      valLen := value.length
      largeValMemInfo := none }
  s.linkEntry mallocs.entry

def eagerSet (s : EntryServer) (fuel : Nat) (mallocs : Mallocs)
    (key : CString) (value : List UInt8) : Option EntryServer := do
  match ← s.searchEntry key fuel s.entriesHead with
  | some entry =>
      (← s.makeRoom mallocs entry value.length).storeValue entry value
  | none => s.eagerSetNew mallocs key value

/-- `mem_pool_head` becomes the buffer of an entry. -/
def takeLarge (s : EntryServer) (entry : Nat) :
    Option (Nat × EntryServer) := do
  let (info, globals) ← s.globals.takeBuffer
  let s ← { s with globals := globals }.assign entry fun node =>
    { node with largeValMemInfo := some info }
  return (info, s)

/-- `case RENDEZVOUS_SET_REQUEST` for a key that is found: its buffer. -/
def rendezvousSetOld (s : EntryServer) (entry valueLength : Nat) :
    Option (Nat × EntryServer) := do
  let node ← s.kvEntries entry
  match node.largeValMemInfo with
  | none =>
      let s ← s.assign entry fun node => { node with valLen := valueLength }
      let (info, s) ← s.takeLarge entry
      let s ← s.freeChars node.value
      let s ← s.assign entry fun node => { node with value := none }
      return (info, s)
  | some info =>
      let s ← s.assign entry fun node => { node with valLen := valueLength }
      return (info, s)

/-- The same request for a key that is not found. -/
def rendezvousSetNew (s : EntryServer) (mallocs : Mallocs) (valueLength : Nat)
    (key : CString) : Option (Nat × EntryServer) := do
  let s ← s.mallocEntry mallocs
  let s ← s.calloc mallocs.key (key.length + 1)
  let s ← s.assign mallocs.entry fun node =>
    { node with key := some mallocs.key, value := none }
  let s ← s.copyInto (some mallocs.key) (key.length + 1) key.memory
  let s ← s.assign mallocs.entry fun node =>
    { node with
      nextEntry := none
      keyLen := key.length
      valLen := valueLength }
  let s ← s.linkEntry mallocs.entry
  s.takeLarge mallocs.entry

def largeBuffer (s : EntryServer) (fuel : Nat) (mallocs : Mallocs)
    (valueLength : Nat) (key : CString) : Option (Nat × EntryServer) := do
  match ← s.searchEntry key fuel s.entriesHead with
  | some entry => s.rendezvousSetOld entry valueLength
  | none => s.rendezvousSetNew mallocs valueLength key

def rendezvousSet (s : EntryServer) (fuel : Nat) (mallocs : Mallocs)
    (valueLength : Nat) (key : CString) : Option (EntryServer × Packet) := do
  let (info, s) ← s.largeBuffer fuel mallocs valueLength key
  let server ← (s.globals.nodes info).rndvMr
  return (s, .rendezvousSetResponse server)

def handleServerPacketsOnly (s : EntryServer) (fuel : Nat)
    (mallocs : Mallocs) :
    Packet → Option (EntryServer × Option (Packet × Nat))
  | .eagerGetRequest key =>
      (s.eagerGet fuel key).map fun reply => (s, some reply)
  | .eagerSetRequest key value =>
      (s.eagerSet fuel mallocs key value).map fun s => (s, none)
  | .rendezvousSetRequest valueLength key =>
      (s.rendezvousSet fuel mallocs valueLength key).map fun (s, reply) =>
        (s, some (reply, sizeofPacket))
  | .closeConnection _ =>
      some ({ s with globals := { s.globals with closeServer := true } }, none)
  | _ => some (s, none)

/-- A server that has handled these packets, one after the other, and
maintained its pool at any time in between. -/
inductive Reached (regMr : Nat → Option IbvMr) :
    List Packet → EntryServer → Prop
  | start (globals : Server) : Reached regMr [] (start globals)
  | handled {past : List Packet} {s s' : EntryServer} {fuel : Nat}
      {mallocs : Mallocs} {packet : Packet} {reply : Option (Packet × Nat)}
      (reached : Reached regMr past s)
      (ran : s.handleServerPacketsOnly fuel mallocs packet =
        some (s', reply)) : Reached regMr (past ++ [packet]) s'
  | maintained {past : List Packet} {s : EntryServer} {globals : Server}
      (reached : Reached regMr past s)
      (ran : Server.maintainPool regMr s.globals = some globals) :
      Reached regMr past { s with globals := globals }

/-! ## What the heap holds -/

def next (s : EntryServer) (entry : Nat) : Option Nat :=
  (s.kvEntries entry).bind EntryNode.nextEntry

def prev (s : EntryServer) (entry : Nat) : Option Nat :=
  (s.kvEntries entry).bind EntryNode.prevEntry

end EntryServer

/-- Where an entry and its blocks are, and what they hold. -/
structure Cell where
  address : Nat
  keyAt : Nat
  valueAt : Option Nat
  entry : KvEntry

namespace Cell

def blocks (c : Cell) : List Nat := c.keyAt :: c.valueAt.toList

/-- The fields of a node and the blocks that it points to. -/
structure Shows (c : Cell) (chars : Heap CharBlock) (node : EntryNode) :
    Prop where
  key : node.key = some c.keyAt
  value : node.value = c.valueAt
  keyLen : node.keyLen = c.entry.keyLen
  valLen : node.valLen = c.entry.valLen
  large : node.largeValMemInfo = c.entry.largeValMemInfo
  isKey : ∃ block, chars c.keyAt = some block ∧
    block.string? = some c.entry.key
  isValue : ∀ address, c.valueAt = some address → ∃ block,
    chars address = some block ∧ c.entry.value = some block.content
  noValue : c.valueAt = none → c.entry.value = none

variable {c : Cell} {chars chars' : Heap CharBlock} {node : EntryNode}

/-- The blocks of a cell are allocated. -/
theorem Shows.live (shows' : c.Shows chars node) {block : Nat}
    (member : block ∈ c.blocks) : chars block ≠ none := by
  rcases List.mem_cons.mp member with rfl | isValue
  · obtain ⟨held, isHeld, _⟩ := shows'.isKey
    rw [isHeld]
    exact Option.some_ne_none held
  · obtain ⟨held, isHeld, _⟩ :=
      shows'.isValue block (Option.mem_toList.mp isValue)
    rw [isHeld]
    exact Option.some_ne_none held

/-- Only its own blocks matter to a cell. -/
theorem Shows.congr (shows' : c.Shows chars node)
    (same : ∀ block ∈ c.blocks, chars' block = chars block) :
    c.Shows chars' node := by
  obtain ⟨key, value, keyLen, valLen, large, isKey, isValue, noValue⟩ :=
    shows'
  refine ⟨key, value, keyLen, valLen, large, ?_, ?_, noValue⟩
  · rw [same c.keyAt (List.mem_cons_self ..)]
    exact isKey
  · intro address isAddress
    rw [same address (List.mem_cons_of_mem _ (Option.mem_toList.mpr
      isAddress))]
    exact isValue address isAddress

end Cell

namespace EntryServer

/-- The entries of the list, in order; no two of them share a block. -/
structure Listed (s : EntryServer) (cells : List Cell) : Prop where
  linked : TwoWay s.next s.prev s.entriesHead s.entriesTail
    (cells.map Cell.address)
  counted : s.entriesCounter = cells.length
  shown : ∀ c ∈ cells, ∃ node, s.kvEntries c.address = some node ∧
    c.Shows s.chars node
  apart : (cells.flatMap Cell.blocks).Nodup

def view (s : EntryServer) (cells : List Cell) : Server :=
  { s.globals with
    entries := cells.map Cell.entry
    entriesCounter := s.entriesCounter }

theorem listed_start (globals : Server) : (start globals).Listed [] :=
  ⟨⟨rfl, rfl⟩, rfl, by simp, List.nodup_nil⟩

variable {s s' : EntryServer} {cells before after : List Cell} {c c' : Cell}
  {key : CString} {fuel : Nat}

/-! ## The search -/

/-- The search stops at the first entry for the key. -/
theorem searchEntry_spec {first found : Option Nat}
    (chain : Chain s.next first (cells.map Cell.address))
    (shown : ∀ c ∈ cells, ∃ node, s.kvEntries c.address = some node ∧
      c.Shows s.chars node)
    (ran : s.searchEntry key fuel first = some found) :
    (found = none ∧ ∀ c ∈ cells, c.entry.key ≠ key) ∨
      ∃ before c after, cells = before ++ c :: after ∧
        found = some c.address ∧ c.entry.key = key ∧
        ∀ other ∈ before, other.entry.key ≠ key := by
  induction cells generalizing first fuel with
  | nil =>
      obtain rfl : first = none := chain
      rw [searchEntry] at ran
      obtain rfl := Option.some.inj ran
      exact Or.inl ⟨rfl, by simp⟩
  | cons c cells inductionHypothesis =>
      obtain ⟨rfl, later⟩ := chain
      obtain ⟨node, isNode, shows'⟩ := shown c (List.mem_cons_self ..)
      obtain ⟨block, isBlock, isKey⟩ := shows'.isKey
      cases fuel with
      | zero => exact absurd ran (by simp [searchEntry])
      | succ fuel =>
          simp only [searchEntry, isNode, shows'.key, isBlock, isKey,
            Option.bind_eq_bind, Option.bind_some] at ran
          split at ran
          · rename_i same
            obtain rfl := Option.some.inj ran
            exact Or.inr ⟨[], c, cells, rfl, rfl, same, by simp⟩
          · rename_i different
            simp only [next, isNode, Option.bind_some] at later
            rcases inductionHypothesis later (fun other member =>
              shown other (List.mem_cons_of_mem _ member)) ran with
              ⟨absent, others⟩ | ⟨before, c', after, rfl, isFound, same, others⟩
            · refine Or.inl ⟨absent, fun other member => ?_⟩
              rcases List.mem_cons.mp member with rfl | member
              · exact different
              · exact others other member
            · refine Or.inr ⟨c :: before, c', after, rfl, isFound, same,
                fun other member => ?_⟩
              rcases List.mem_cons.mp member with rfl | member
              · exact different
              · exact others other member

/-! ## One entry changes -/

structure Changes (c : Cell) (node : EntryNode) (s s' : EntryServer) :
    Prop where
  head : s'.entriesHead = s.entriesHead
  tail : s'.entriesTail = s.entriesTail
  counter : s'.entriesCounter = s.entriesCounter
  here : s'.kvEntries c.address = some node
  links : ∀ old, s.kvEntries c.address = some old →
    node.nextEntry = old.nextEntry ∧ node.prevEntry = old.prevEntry
  others : ∀ other ≠ c.address, s'.kvEntries other = s.kvEntries other
  chars : ∀ block, block ∉ c.blocks → s.chars block ≠ none →
    s'.chars block = s.chars block

/-- The blocks of one cell, and those of the others. -/
private theorem apart_iff :
    ((before ++ c :: after).flatMap Cell.blocks).Nodup ↔
      c.blocks.Nodup ∧ ((before ++ after).flatMap Cell.blocks).Nodup ∧
        ∀ block ∈ c.blocks, ∀ other ∈ before ++ after,
          block ∉ other.blocks := by
  have perm : (before ++ c :: after).flatMap Cell.blocks ~
      c.blocks ++ (before ++ after).flatMap Cell.blocks :=
    List.Perm.flatMap_right Cell.blocks List.perm_middle
  rw [perm.nodup_iff, List.nodup_append]
  refine and_congr_right fun _ => and_congr_right fun _ => ?_
  constructor
  · intro different block inside other member also
    exact different block inside block
      (List.mem_flatMap.mpr ⟨other, member, also⟩) rfl
  · intro absent block inside also member same
    obtain ⟨other, isOther, contains⟩ := List.mem_flatMap.mp member
    exact absent block inside other isOther (same ▸ contains)

theorem Listed.change {node : EntryNode}
    (listed : s.Listed (before ++ c :: after))
    (changes : Changes c node s s') (address : c'.address = c.address)
    (shows' : c'.Shows s'.chars node) (nodup : c'.blocks.Nodup)
    (blocks : ∀ block ∈ c'.blocks,
      block ∈ c.blocks ∨ s.chars block = none) :
    s'.Listed (before ++ c' :: after) := by
  obtain ⟨linked, counted, shown, apart⟩ := listed
  have sameAddresses : (before ++ c' :: after).map Cell.address =
      (before ++ c :: after).map Cell.address := by
    simp [address]
  obtain ⟨old, isOld, _⟩ := shown c (by simp)
  obtain ⟨nextHere, prevHere⟩ := changes.links old isOld
  have sameNext : ∀ other, s'.next other = s.next other := by
    intro other
    by_cases isHere : other = c.address
    · simp [isHere, next, changes.here, isOld, nextHere]
    · simp [next, changes.others other isHere]
  have samePrev : ∀ other, s'.prev other = s.prev other := by
    intro other
    by_cases isHere : other = c.address
    · simp [isHere, prev, changes.here, isOld, prevHere]
    · simp [prev, changes.others other isHere]
  obtain ⟨_, apartOthers, apartHere⟩ := apart_iff.mp apart
  have others : ∀ other ∈ before ++ after, other ∈ before ++ c :: after := by
    intro other member
    rcases List.mem_append.mp member with left | right
    · exact List.mem_append_left _ left
    · exact List.mem_append_right _ (List.mem_cons_of_mem _ right)
  refine ⟨?_, ?_, ?_, ?_⟩
  · rw [sameAddresses, changes.head, changes.tail]
    exact linked.congr (fun other _ => sameNext other)
      (fun other _ => samePrev other)
  · rw [changes.counter, counted]
    simp
  · intro other member
    by_cases isHere : other = c'
    · rw [isHere, address]
      exact ⟨node, changes.here, shows'⟩
    · have member' : other ∈ before ++ after := by
        simpa [isHere] using member
      obtain ⟨otherNode, isOther, otherShows⟩ := shown other (others other member')
      have elsewhere : other.address ≠ c.address := by
        have nodup := linked.nodup
        rw [List.map_append, List.map_cons, List.nodup_middle,
          ← List.map_append] at nodup
        intro same
        exact (List.nodup_cons.mp nodup).1
          (List.mem_map.mpr ⟨other, member', same⟩)
      refine ⟨otherNode, (changes.others _ elsewhere).trans isOther,
        otherShows.congr fun block inside => ?_⟩
      exact changes.chars block
        (fun also => apartHere block also other member' inside)
        (otherShows.live inside)
  · refine apart_iff.mpr ⟨nodup, apartOthers, fun block inside other member also => ?_⟩
    rcases blocks block inside with old | fresh
    · exact apartHere block old other member also
    · obtain ⟨_, _, otherShows⟩ := shown other (others other member)
      exact otherShows.live also fresh

/-! ## An entry is appended -/

/-- A step that links a new entry behind the last one. -/
structure Appends (c : Cell) (s s' : EntryServer) : Prop where
  head : s'.entriesHead =
    if s.entriesTail = none then some c.address else s.entriesHead
  tail : s'.entriesTail = some c.address
  counter : s'.entriesCounter = s.entriesCounter + 1
  here : ∃ node, s'.kvEntries c.address = some node ∧ c.Shows s'.chars node ∧
    node.nextEntry = none ∧ node.prevEntry = s.entriesTail
  others : ∀ other ≠ c.address, s'.kvEntries other =
    if s.entriesTail = some other then
      (s.kvEntries other).map fun node =>
        { node with nextEntry := some c.address }
    else s.kvEntries other
  chars : ∀ block, s.chars block ≠ none → s'.chars block = s.chars block

theorem Listed.append (listed : s.Listed cells) (appends : Appends c s s')
    (fresh : s.kvEntries c.address = none) (nodup : c.blocks.Nodup)
    (blocks : ∀ block ∈ c.blocks, s.chars block = none) :
    s'.Listed (cells ++ [c]) := by
  obtain ⟨linked, counted, shown, apart⟩ := listed
  obtain ⟨node, isNode, shows', ends, back⟩ := appends.here
  have elsewhere : ∀ other ∈ cells, other.address ≠ c.address := by
    intro other member same
    obtain ⟨old, isOld, _⟩ := shown other member
    rw [same, fresh] at isOld
    exact absurd isOld (by simp)
  have kept : ∀ other ∈ cells, ∃ old, s.kvEntries other.address = some old ∧
      other.Shows s.chars old ∧ s'.kvEntries other.address =
        some (if s.entriesTail = some other.address then
          { old with nextEntry := some c.address } else old) := by
    intro other member
    obtain ⟨old, isOld, otherShows⟩ := shown other member
    refine ⟨old, isOld, otherShows, ?_⟩
    rw [appends.others _ (elsewhere other member), isOld]
    split <;> rfl
  refine ⟨?_, ?_, ?_, ?_⟩
  · rw [List.map_append]
    refine linked.append appends.head appends.tail ?_ ?_ ?_ ?_
    · simp [next, isNode, ends]
    · simp [prev, isNode, back]
    · intro address member
      obtain ⟨other, isOther, rfl⟩ := List.mem_map.mp member
      obtain ⟨old, isOld, _, isNew⟩ := kept other isOther
      simp only [next, isOld, isNew, Option.bind_some]
      split <;> rfl
    · intro address member
      obtain ⟨other, isOther, rfl⟩ := List.mem_map.mp member
      obtain ⟨old, isOld, _, isNew⟩ := kept other isOther
      simp only [prev, isOld, isNew, Option.bind_some]
      split <;> rfl
  · rw [appends.counter, counted]
    simp
  · intro other member
    rcases List.mem_append.mp member with old | new
    · obtain ⟨oldNode, _, otherShows, isNew⟩ := kept other old
      refine ⟨_, isNew, ?_⟩
      have same : other.Shows s'.chars oldNode := otherShows.congr
        fun block inside => appends.chars block (otherShows.live inside)
      split
      · exact ⟨same.key, same.value, same.keyLen, same.valLen, same.large,
          same.isKey, same.isValue, same.noValue⟩
      · exact same
    · obtain rfl := List.mem_singleton.mp new
      exact ⟨node, isNode, shows'⟩
  · refine apart_iff.mpr ⟨nodup, by simpa using apart,
      fun block inside other member also => ?_⟩
    obtain ⟨_, _, otherShows⟩ := shown other (by simpa using member)
    exact otherShows.live also (blocks block inside)

/-! ## The steps of the handler -/

section Steps

variable {entry address size count : Nat} {change : EntryNode → EntryNode}
  {mallocs : Mallocs} {source : Memory}

theorem mallocEntry_eq_some :
    s.mallocEntry mallocs = some s' ↔ s.kvEntries mallocs.entry = none ∧
      s' = { s with
        kvEntries := s.kvEntries.put mallocs.entry mallocs.garbage } := by
  simp only [mallocEntry, Option.map_eq_some_iff, Heap.allocate_eq_some]
  constructor
  · rintro ⟨_, ⟨free, rfl⟩, rfl⟩
    exact ⟨free, rfl⟩
  · rintro ⟨free, rfl⟩
    exact ⟨_, ⟨free, rfl⟩, rfl⟩

theorem calloc_eq_some :
    s.calloc address size = some s' ↔ s.chars address = none ∧
      s' = { s with chars := s.chars.put address ⟨size, Memory.zero⟩ } := by
  simp only [calloc, Option.map_eq_some_iff, Heap.allocate_eq_some]
  constructor
  · rintro ⟨_, ⟨free, rfl⟩, rfl⟩
    exact ⟨free, rfl⟩
  · rintro ⟨free, rfl⟩
    exact ⟨_, ⟨free, rfl⟩, rfl⟩

theorem freeChars_eq_some :
    s.freeChars (some address) = some s' ↔ s.chars address ≠ none ∧
      s' = { s with chars := s.chars.erase address } := by
  simp only [freeChars, Option.map_eq_some_iff, Heap.free_eq_some]
  constructor
  · rintro ⟨_, ⟨live, rfl⟩, rfl⟩
    exact ⟨live, rfl⟩
  · rintro ⟨live, rfl⟩
    exact ⟨_, ⟨live, rfl⟩, rfl⟩

theorem assign_eq_some :
    s.assign entry change = some s' ↔ ∃ old, s.kvEntries entry = some old ∧
      s' = { s with kvEntries := s.kvEntries.put entry (change old) } := by
  simp only [assign, Option.map_eq_some_iff, Heap.assign_eq_some]
  constructor
  · rintro ⟨_, ⟨old, isOld, rfl⟩, rfl⟩
    exact ⟨old, isOld, rfl⟩
  · rintro ⟨old, isOld, rfl⟩
    exact ⟨_, ⟨old, isOld, rfl⟩, rfl⟩

theorem copyInto_eq_some :
    s.copyInto (some address) count source = some s' ↔
      ∃ block, s.chars address = some block ∧ count ≤ block.size ∧
        s' = { s with
          chars := s.chars.put address
            { block with bytes := block.bytes.copy 0 count source } } := by
  simp only [copyInto, Option.bind_eq_bind, Option.bind_some,
    Option.bind_eq_some_iff, Option.pure_def]
  refine exists_congr fun block => and_congr_right fun _ => ?_
  by_cases fits : count ≤ block.size
  · simp [fits, eq_comm]
  · simp [fits]

end Steps

/-- A value at the start of a block. -/
private theorem content_copy {block : CharBlock} {value : List UInt8}
    (fits : value.length ≤ block.size) :
    ({ block with
      bytes := block.bytes.copy 0 value.length (Memory.ofList value) } :
        CharBlock).content = value ++ block.content.drop value.length := by
  apply List.ext_getElem
  · simp [CharBlock.content]
    omega
  · intro i inside _
    simp only [CharBlock.content, Memory.length_slice] at inside
    by_cases first : i < value.length
    · rw [List.getElem_append_left first]
      simp [CharBlock.content, Memory.slice, Memory.copy, first,
        Memory.ofList]
    · rw [List.getElem_append_right (by omega)]
      simp only [CharBlock.content, Memory.slice, Memory.copy]
      simp [first]
      congr
      omega

private theorem string?_fresh {key : CString} :
    (⟨key.length + 1, Memory.zero.copy 0 (key.length + 1) key.memory⟩ :
      CharBlock).string? = some key :=
  Memory.string?_copy Memory.zero key (Nat.lt_succ_self _)

private theorem content_fresh {value : List UInt8} :
    (⟨value.length, Memory.zero.copy 0 value.length (Memory.ofList value)⟩ :
      CharBlock).content = value := by
  rw [CharBlock.content, Memory.slice_copy, Memory.slice_ofList]

/-! ## The entries as a list -/

section View

variable {entry : KvEntry} {globals : Server}

private theorem view_congr (same : s'.globals = s.globals)
    (counter : s'.entriesCounter = s.entriesCounter) :
    s'.view cells = s.view cells := by
  unfold view
  rw [same, counter]

theorem findEntry_view (key' : c.entry.key = key)
    (others : ∀ other ∈ before, other.entry.key ≠ key) :
    (s.view (before ++ c :: after)).findEntry key = some c.entry := by
  have absent : (before.map Cell.entry).find? (fun entry =>
      decide (entry.key = key)) = none := by
    rw [List.find?_eq_none]
    intro entry member
    obtain ⟨other, isOther, rfl⟩ := List.mem_map.mp member
    simpa using others other isOther
  simp only [view, Server.findEntry, List.map_append, List.map_cons,
    List.find?_append, absent, Option.none_or]
  exact List.find?_cons_of_pos (decide_eq_true key')

theorem findEntry_view_none (absent : ∀ other ∈ cells, other.entry.key ≠ key) :
    (s.view cells).findEntry key = none := by
  refine List.find?_eq_none.mpr fun entry member => ?_
  obtain ⟨other, isOther, rfl⟩ := List.mem_map.mp member
  simpa using absent other isOther

private theorem putEntry_view (key' : c.entry.key = key)
    (others : ∀ other ∈ before, other.entry.key ≠ key) :
    (s.view (before ++ c :: after)).putEntry key c'.entry =
      s.view (before ++ c' :: after) := by
  have replaced : Server.replaceEntry key c'.entry
      ((before ++ c :: after).map Cell.entry) =
        (before ++ c' :: after).map Cell.entry := by
    rw [List.map_append, List.map_cons, List.map_append, List.map_cons]
    refine Server.replaceEntry_append key' fun entry member => ?_
    obtain ⟨other, isOther, rfl⟩ := List.mem_map.mp member
    exact others other isOther
  simp only [Server.putEntry, view, replaced]

private theorem appendEntry_view :
    (s.view cells).appendEntry c.entry =
      { s with entriesCounter := s.entriesCounter + 1 }.view (cells ++ [c]) := by
  simp [view, Server.appendEntry]

/-- The entries do not matter to the pool. -/
theorem taint_entries (globals : Server) (entries : List KvEntry)
    (counter : Nat) (buffer : Option Nat) :
    ({ globals with
      entries := entries
      entriesCounter := counter } : Server).taint buffer =
      (globals.taint buffer).map fun globals => { globals with
        entries := entries
        entriesCounter := counter } := by
  obtain ⟨_, _, _, _, _, _, head, tail, _, _⟩ := globals
  cases head with
  | none => rfl
  | some head => cases tail <;> rfl

theorem takeBuffer_entries (globals : Server) (entries : List KvEntry)
    (counter : Nat) :
    ({ globals with
      entries := entries
      entriesCounter := counter } : Server).takeBuffer =
      globals.takeBuffer.map fun taken => (taken.1, { taken.2 with
        entries := entries
        entriesCounter := counter }) := by
  obtain ⟨_, _, _, _, head, _, _, _, _, _⟩ := globals
  cases head <;> rfl

private theorem taint_view {buffer : Option Nat}
    (ran : s.globals.taint buffer = some globals) :
    (s.view cells).taint buffer =
      some ({ s with globals := globals }.view cells) := by
  rw [view, taint_entries, ran]
  rfl

private theorem takeBuffer_view {info : Nat}
    (ran : s.globals.takeBuffer = some (info, globals)) :
    (s.view cells).takeBuffer =
      some (info, { s with globals := globals }.view cells) := by
  rw [view, takeBuffer_entries, ran]
  rfl

end View

/-! ## `EAGER_SET_REQUEST` -/

section EagerSet

variable {mallocs : Mallocs} {value : List UInt8}

/-- The entry that the search has found. -/
theorem Listed.here (listed : s.Listed (before ++ c :: after)) :
    ∃ node, s.kvEntries c.address = some node ∧ c.Shows s.chars node :=
  listed.shown c (List.mem_append_right _ (List.mem_cons_self ..))

/-- The block of a value is one of its cell, and not that of the key. -/
theorem value_mem_blocks {old : Nat} (isOld : c.valueAt = some old) :
    old ∈ c.blocks :=
  List.mem_cons_of_mem _ (Option.mem_toList.mpr isOld)

theorem Listed.key_ne (listed : s.Listed (before ++ c :: after)) {old : Nat}
    (isOld : c.valueAt = some old) : c.keyAt ≠ old := by
  obtain ⟨nodup, _, _⟩ := apart_iff.mp listed.apart
  simpa [Cell.blocks, isOld] using nodup

/-- The value of an entry is in this block now. -/
theorem Listed.moveValue {node : EntryNode} {kvEntries : Heap EntryNode}
    {chars : Heap CharBlock} {globals : Server} {address length : Nat}
    {block : CharBlock} {large : Option Nat}
    (listed : s.Listed (before ++ c :: after))
    (isNode : s.kvEntries c.address = some node) (shows' : c.Shows s.chars node)
    (here : kvEntries c.address = some { node with
      largeValMemInfo := large
      valLen := length
      value := some address })
    (others : ∀ other ≠ c.address, kvEntries other = s.kvEntries other)
    (isBlock : chars address = some block)
    (keyKept : chars c.keyAt = s.chars c.keyAt) (apart : c.keyAt ≠ address)
    (free : address ∈ c.blocks ∨ s.chars address = none)
    (kept : ∀ block, block ∉ c.blocks → s.chars block ≠ none →
      chars block = s.chars block) :
    { s with
      kvEntries := kvEntries
      chars := chars
      globals := globals : EntryServer }.Listed (before ++ { c with
        valueAt := some address
        entry := { c.entry with
          largeValMemInfo := large
          valLen := length
          value := some block.content } } :: after) := by
  refine listed.change ⟨rfl, rfl, rfl, here, ?_, others, kept⟩ rfl
    ⟨shows'.key, rfl, shows'.keyLen, rfl, rfl, ?_, ?_, by simp⟩ ?_ ?_
  · intro old isOld
    obtain rfl := Option.some.inj (isNode.symm.trans isOld)
    exact ⟨rfl, rfl⟩
  · simp only [keyKept]
    exact shows'.isKey
  · intro other isValue
    obtain rfl := Option.some.inj isValue
    exact ⟨block, isBlock, rfl⟩
  · simpa [Cell.blocks] using apart
  · intro other member
    rcases List.mem_cons.mp member with rfl | isValue
    · exact Or.inl (List.mem_cons_self ..)
    · obtain rfl := List.mem_singleton.mp isValue
      exact free

/-- A value in a buffer gives way to one in a block. -/
private theorem eagerSet_large {node : EntryNode} {roomy : EntryServer}
    (listed : s.Listed (before ++ c :: after))
    (isNode : s.kvEntries c.address = some node) (shows' : c.Shows s.chars node)
    (inBuffer : node.value = none)
    (made : s.makeRoom mallocs c.address value.length = some roomy)
    (ran : roomy.storeValue c.address value = some s') :
    ∃ c' globals, s'.Listed (before ++ c' :: after) ∧
      c'.entry = { c.entry with
        largeValMemInfo := none
        valLen := value.length
        value := some value } ∧
      s.globals.taint c.entry.largeValMemInfo = some globals ∧
      s'.globals = globals ∧ s'.entriesCounter = s.entriesCounter := by
  simp only [makeRoom, isNode, inBuffer, Option.bind_eq_bind,
    Option.bind_some, Option.bind_eq_some_iff, assign_eq_some,
    calloc_eq_some, Option.some.injEq, exists_eq_left'] at made
  obtain ⟨globals, tainted, _, rfl, _, ⟨free, rfl⟩, last, isLast, rfl⟩ := made
  simp only at free
  obtain rfl := Option.some.inj (Heap.put_same.symm.trans isLast)
  simp only [storeValue, Heap.put_same, Option.bind_eq_bind, Option.bind_some,
    copyInto_eq_some, Option.some.injEq, exists_eq_left'] at ran
  obtain ⟨_, rfl⟩ := ran
  have keyLive : s.chars c.keyAt ≠ none :=
    shows'.live (List.mem_cons_self ..)
  have away : ∀ block, s.chars block ≠ none → block ≠ mallocs.value :=
    fun block live same => live (same ▸ free)
  have frame (room stored : CharBlock) (block : Nat)
      (live : s.chars block ≠ none) :
      ((s.chars.put mallocs.value room).put mallocs.value stored) block =
        s.chars block := by
    rw [Heap.put_other (away block live), Heap.put_other (away block live)]
  refine ⟨_, globals, listed.moveValue isNode shows' Heap.put_same ?_
    Heap.put_same (frame _ _ _ keyLive) (away _ keyLive) (Or.inr free)
    fun block _ => frame _ _ block, ?_, ?_, rfl, rfl⟩
  · intro other different
    simp only [Heap.put_other different]
  · rw [content_fresh]
  · rw [← shows'.large]
    exact tainted

/-- A value in a block is freed if the new one has another length. -/
private theorem eagerSet_resized {node : EntryNode} {roomy : EntryServer}
    {old : Nat}
    (listed : s.Listed (before ++ c :: after))
    (isNode : s.kvEntries c.address = some node) (shows' : c.Shows s.chars node)
    (inBlock : node.value = some old) (resized : node.valLen ≠ value.length)
    (made : s.makeRoom mallocs c.address value.length = some roomy)
    (ran : roomy.storeValue c.address value = some s') :
    ∃ c', s'.Listed (before ++ c' :: after) ∧
      c'.entry = { c.entry with
        valLen := value.length
        value := some value } ∧
      s'.globals = s.globals ∧ s'.entriesCounter = s.entriesCounter := by
  simp only [makeRoom, isNode, inBlock, if_pos resized, Option.bind_eq_bind,
    Option.bind_some, Option.bind_eq_some_iff, assign_eq_some,
    calloc_eq_some, freeChars_eq_some] at made
  obtain ⟨_, ⟨_, rfl⟩, _, ⟨free, rfl⟩, last, isLast, rfl⟩ := made
  obtain rfl := Option.some.inj (isNode.symm.trans isLast)
  simp only at free
  simp only [storeValue, Heap.put_same, Option.bind_eq_bind, Option.bind_some,
    copyInto_eq_some, Option.some.injEq, exists_eq_left'] at ran
  obtain ⟨_, rfl⟩ := ran
  have isOld : c.valueAt = some old := shows'.value.symm.trans inBlock
  have oldBlock := value_mem_blocks isOld
  have keyOld := listed.key_ne isOld
  have keyLive : s.chars c.keyAt ≠ none :=
    shows'.live (List.mem_cons_self ..)
  have away : ∀ block, block ≠ old → s.chars block ≠ none →
      block ≠ mallocs.value := by
    rintro block different live rfl
    rw [Heap.erase_other different] at free
    exact live free
  have frame (room stored : CharBlock) (block : Nat) (different : block ≠ old)
      (live : s.chars block ≠ none) :
      (((s.chars.erase old).put mallocs.value room).put mallocs.value stored)
        block = s.chars block := by
    have other := away block different live
    rw [Heap.put_other other, Heap.put_other other, Heap.erase_other different]
  refine ⟨_, listed.moveValue isNode shows' Heap.put_same ?_ Heap.put_same
    (frame _ _ _ keyOld keyLive) (away _ keyOld keyLive) ?_
    (fun block outside => frame _ _ block fun same =>
      outside (same ▸ oldBlock)), ?_, rfl, rfl⟩
  · intro other different
    simp only [Heap.put_other different]
  · by_cases same : mallocs.value = old
    · exact Or.inl (same ▸ oldBlock)
    · rw [Heap.erase_other same] at free
      exact Or.inr free
  · rw [content_fresh, shows'.large]

/-- A value of the same length is overwritten. -/
private theorem eagerSet_inPlace {node : EntryNode} {old : Nat}
    (listed : s.Listed (before ++ c :: after))
    (isNode : s.kvEntries c.address = some node) (shows' : c.Shows s.chars node)
    (inBlock : node.value = some old)
    (ran : s.storeValue c.address value = some s') :
    ∃ c' oldValue, c.entry.value = some oldValue ∧
      value.length ≤ oldValue.length ∧ s'.Listed (before ++ c' :: after) ∧
      c'.entry = { c.entry with
        value := some (value ++ oldValue.drop value.length) } ∧
      s'.globals = s.globals ∧ s'.entriesCounter = s.entriesCounter := by
  simp only [storeValue, isNode, inBlock, Option.bind_eq_bind,
    Option.bind_some, copyInto_eq_some] at ran
  obtain ⟨block, isBlock, fits, rfl⟩ := ran
  have isOld : c.valueAt = some old := shows'.value.symm.trans inBlock
  have oldBlock := value_mem_blocks isOld
  have keyOld := listed.key_ne isOld
  obtain ⟨block', isBlock', isValue⟩ := shows'.isValue old isOld
  obtain rfl := Option.some.inj (isBlock.symm.trans isBlock')
  have here : s.kvEntries c.address = some { node with
      largeValMemInfo := node.largeValMemInfo
      valLen := node.valLen
      value := some old } := by
    rw [isNode, ← inBlock]
  refine ⟨_, block.content, isValue, by simpa [CharBlock.content] using fits,
    listed.moveValue isNode shows' here (fun _ _ => rfl) Heap.put_same
      (Heap.put_other keyOld) keyOld (Or.inl oldBlock)
      (fun block outside _ => Heap.put_other fun same =>
        outside (same ▸ oldBlock)), ?_, rfl, rfl⟩
  rw [content_copy fits, shows'.large, shows'.valLen]

end EagerSet

/-! ## `RENDEZVOUS_SET_REQUEST` -/

private theorem freeChars_chars {pointer : Option Nat}
    (ran : s.freeChars pointer = some s') :
    ∃ chars, s' = { s with chars := chars } ∧
      ∀ block, pointer ≠ some block → chars block = s.chars block := by
  cases pointer with
  | none =>
      obtain rfl := Option.some.inj ran
      exact ⟨_, rfl, fun _ _ => rfl⟩
  | some address =>
      obtain ⟨_, rfl⟩ := freeChars_eq_some.mp ran
      exact ⟨_, rfl, fun block different =>
        Heap.erase_other fun same => different (congrArg some same.symm)⟩

/-- A value in a block gives way to a buffer from the pool. -/
private theorem rendezvousSet_inline {node : EntryNode} {valueLength info : Nat}
    (listed : s.Listed (before ++ c :: after))
    (isNode : s.kvEntries c.address = some node) (shows' : c.Shows s.chars node)
    (noBuffer : node.largeValMemInfo = none)
    (ran : s.rendezvousSetOld c.address valueLength = some (info, s')) :
    ∃ c' globals, s'.Listed (before ++ c' :: after) ∧
      c'.entry = { c.entry with
        valLen := valueLength
        largeValMemInfo := some info
        value := none } ∧
      s.globals.takeBuffer = some (info, globals) ∧ s'.globals = globals ∧
      s'.entriesCounter = s.entriesCounter := by
  simp only [rendezvousSetOld, isNode, noBuffer, takeLarge,
    Option.bind_eq_bind, Option.bind_some, Option.bind_eq_some_iff,
    assign_eq_some, Option.pure_def, Option.some.injEq, exists_eq_left',
    Prod.mk.injEq] at ran
  obtain ⟨_, rfl, _, ⟨⟨info, globals⟩, taken, _, ⟨second, isSecond, rfl⟩, rfl⟩,
    _, freed, _, ⟨third, isThird, rfl⟩, rfl, rfl⟩ := ran
  obtain rfl := Option.some.inj (isSecond.symm.trans Heap.put_same)
  obtain ⟨chars, rfl, same⟩ := freeChars_chars freed
  obtain rfl := Option.some.inj (isThird.symm.trans Heap.put_same)
  have kept : ∀ block, node.value ≠ some block → chars block = s.chars block :=
    same
  let c' : Cell := ⟨c.address, c.keyAt, none, { c.entry with
    valLen := valueLength
    largeValMemInfo := some info
    value := none }⟩
  have keyKept : chars c.keyAt = s.chars c.keyAt := kept _ fun isValue =>
    listed.key_ne (shows'.value.symm.trans isValue) rfl
  refine ⟨c', globals, listed.change ⟨rfl, rfl, rfl, Heap.put_same, ?_, ?_, ?_⟩
    rfl ⟨shows'.key, rfl, shows'.keyLen, rfl, rfl, ?_, by simp [c'],
      fun _ => rfl⟩ ?_ ?_, rfl, taken, rfl, rfl⟩
  · intro old isOld
    obtain rfl := Option.some.inj (isNode.symm.trans isOld)
    exact ⟨rfl, rfl⟩
  · intro other different
    simp only [Heap.put_other different]
  · intro block outside _
    apply kept block
    intro isValue
    exact outside (value_mem_blocks (shows'.value.symm.trans isValue))
  · simp only [c', keyKept]
    exact shows'.isKey
  · simp [Cell.blocks, c']
  · intro block member
    refine Or.inl ?_
    rw [List.mem_singleton.mp member]
    exact List.mem_cons_self ..

/-- A buffer is kept. -/
private theorem rendezvousSet_large {node : EntryNode}
    {valueLength info taken : Nat}
    (listed : s.Listed (before ++ c :: after))
    (isNode : s.kvEntries c.address = some node) (shows' : c.Shows s.chars node)
    (inBuffer : node.largeValMemInfo = some taken)
    (ran : s.rendezvousSetOld c.address valueLength = some (info, s')) :
    ∃ c', s'.Listed (before ++ c' :: after) ∧
      c'.entry = { c.entry with valLen := valueLength } ∧ info = taken ∧
      s'.globals = s.globals ∧ s'.entriesCounter = s.entriesCounter := by
  simp only [rendezvousSetOld, isNode, inBuffer, Option.bind_eq_bind,
    Option.bind_some, Option.bind_eq_some_iff, assign_eq_some,
    Option.pure_def, Option.some.injEq, exists_eq_left',
    Prod.mk.injEq] at ran
  obtain ⟨_, rfl, rfl, rfl⟩ := ran
  obtain ⟨nodup, _, _⟩ := apart_iff.mp listed.apart
  let c' : Cell := ⟨c.address, c.keyAt, c.valueAt, { c.entry with
    valLen := valueLength }⟩
  refine ⟨c', listed.change ⟨rfl, rfl, rfl, Heap.put_same, ?_, ?_,
    fun _ _ _ => rfl⟩ rfl ⟨shows'.key, shows'.value, shows'.keyLen, rfl,
      inBuffer.symm.trans shows'.large, shows'.isKey, shows'.isValue,
      shows'.noValue⟩ nodup fun block member => Or.inl member, rfl, rfl, rfl,
    rfl⟩
  · intro old isOld
    obtain rfl := Option.some.inj (isNode.symm.trans isOld)
    exact ⟨rfl, rfl⟩
  · intro other different
    simp only [Heap.put_other different]

/-! ## New entries -/

structure Links (entry : Nat) (node : EntryNode) (s s' : EntryServer) :
    Prop where
  head : s'.entriesHead =
    if s.entriesTail = none then some entry else s.entriesHead
  tail : s'.entriesTail = some entry
  counter : s'.entriesCounter = s.entriesCounter + 1
  here : s'.kvEntries entry = some { node with prevEntry := s.entriesTail }
  others : ∀ other ≠ entry, s'.kvEntries other =
    if s.entriesTail = some other then
      (s.kvEntries other).map fun node => { node with nextEntry := some entry }
    else s.kvEntries other
  chars : s'.chars = s.chars
  globals : s'.globals = s.globals

theorem linkEntry_links {entry : Nat} {node : EntryNode}
    (ran : s.linkEntry entry = some s')
    (isNode : s.kvEntries entry = some node)
    (notTail : s.entriesTail ≠ some entry) : Links entry node s s' := by
  unfold linkEntry at ran
  cases isTail : s.entriesTail with
  | none =>
      simp only [isTail, Option.bind_eq_bind, Option.bind_eq_some_iff,
        assign_eq_some, Option.pure_def, Option.some.injEq] at ran
      obtain ⟨_, ⟨old, isOld, rfl⟩, rfl⟩ := ran
      obtain rfl := Option.some.inj (isNode.symm.trans isOld)
      refine ⟨?_, rfl, rfl, ?_, ?_, rfl, rfl⟩
      · rw [if_pos isTail]
      · rw [isTail]
        exact Heap.put_same
      · intro other different
        rw [isTail, if_neg (Option.some_ne_none other).symm]
        exact Heap.put_other different
  | some tail =>
      have different : tail ≠ entry := by
        rintro rfl
        exact notTail isTail
      simp only [isTail, Option.bind_eq_bind, Option.bind_eq_some_iff,
        assign_eq_some, Option.pure_def, Option.some.injEq] at ran
      obtain ⟨_, ⟨old, isOld, rfl⟩, _, ⟨last, isLast, rfl⟩, rfl⟩ := ran
      obtain rfl := Option.some.inj (isNode.symm.trans isOld)
      have isLast' : s.kvEntries tail = some last :=
        (Heap.put_other different).symm.trans isLast
      refine ⟨?_, rfl, rfl, ?_, ?_, rfl, rfl⟩
      · rw [isTail, if_neg (Option.some_ne_none tail)]
      · rw [isTail]
        exact (Heap.put_other different.symm).trans Heap.put_same
      · intro other away
        rw [isTail]
        by_cases same : tail = other
        · subst same
          simp [isLast']
        · have notLast : ¬ some tail = some other := fun equal =>
            same (Option.some.inj equal)
          rw [if_neg notLast]
          exact (Heap.put_other (Ne.symm same)).trans (Heap.put_other away)

/-- The tail of the list is in it. -/
theorem Listed.tail_ne (listed : s.Listed cells) {entry : Nat}
    (fresh : s.kvEntries entry = none) : s.entriesTail ≠ some entry := by
  intro isTail
  obtain ⟨c, member, same⟩ :=
    List.mem_map.mp (listed.linked.tail_mem isTail)
  obtain ⟨node, isNode, _⟩ := listed.shown c member
  rw [same, fresh] at isNode
  exact absurd isNode (by simp)

section New

variable {mallocs : Mallocs} {value : List UInt8} {valueLength : Nat}

theorem eagerSetNew_spec (listed : s.Listed cells)
    (ran : s.eagerSetNew mallocs key value = some s') :
    ∃ c, s'.Listed (cells ++ [c]) ∧
      c.entry = ⟨key, key.length, value.length, none, some value⟩ ∧
      s'.globals = s.globals ∧ s'.entriesCounter = s.entriesCounter + 1 := by
  simp only [eagerSetNew, Option.bind_eq_bind, Option.bind_eq_some_iff,
    mallocEntry_eq_some, calloc_eq_some, assign_eq_some,
    copyInto_eq_some] at ran
  obtain ⟨_, ⟨free, rfl⟩, _, ⟨keyFree, rfl⟩, _, ⟨valueFree, rfl⟩, _,
    ⟨garbage, isGarbage, rfl⟩, _, ⟨keyBlock, isKeyBlock, _, rfl⟩, _,
    ⟨valueBlock, isValueBlock, _, rfl⟩, _, ⟨node, isNode, rfl⟩, linked⟩ := ran
  have apart : mallocs.key ≠ mallocs.value := by
    intro same
    rw [← same] at valueFree
    exact absurd (Heap.put_same.symm.trans valueFree) (by simp)
  have valueFree' : s.chars mallocs.value = none :=
    (Heap.put_other apart.symm).symm.trans valueFree
  obtain rfl := Option.some.inj (isKeyBlock.symm.trans
    ((Heap.put_other apart).trans Heap.put_same))
  obtain rfl := Option.some.inj (isValueBlock.symm.trans
    ((Heap.put_other apart.symm).trans Heap.put_same))
  obtain rfl := Option.some.inj (isNode.symm.trans Heap.put_same)
  have links := linkEntry_links linked Heap.put_same (listed.tail_ne free)
  let c : Cell := ⟨mallocs.entry, mallocs.key, some mallocs.value,
    ⟨key, key.length, value.length, none, some value⟩⟩
  refine ⟨c, listed.append ⟨links.head, links.tail, links.counter,
    ⟨_, links.here, ⟨rfl, rfl, rfl, rfl, rfl, ?_, ?_, by simp [c]⟩, rfl, rfl⟩,
    ?_, ?_⟩ free ?_ ?_, rfl, links.globals, links.counter⟩
  · refine ⟨_, ?_, string?_fresh⟩
    rw [links.chars]
    exact (Heap.put_other apart).trans Heap.put_same
  · intro address isValue
    obtain rfl := Option.some.inj isValue
    rw [links.chars]
    exact ⟨_, Heap.put_same, congrArg some content_fresh.symm⟩
  · intro other (different : other ≠ mallocs.entry)
    rw [links.others other different]
    simp only [Heap.put_other different]
    rfl
  · intro block live
    have notKey : block ≠ mallocs.key := fun same => live (same ▸ keyFree)
    have notValue : block ≠ mallocs.value := fun same =>
      live (same ▸ valueFree')
    rw [links.chars]
    simp only [Heap.put_other notKey, Heap.put_other notValue]
  · simpa [Cell.blocks, c] using apart
  · intro block member
    rcases List.mem_cons.mp member with rfl | isValue
    · exact keyFree
    · obtain rfl := List.mem_singleton.mp isValue
      exact valueFree'

theorem rendezvousSetNew_spec {info : Nat} (listed : s.Listed cells)
    (ran : s.rendezvousSetNew mallocs valueLength key = some (info, s')) :
    ∃ c globals, s'.Listed (cells ++ [c]) ∧
      c.entry = ⟨key, key.length, valueLength, some info, none⟩ ∧
      s.globals.takeBuffer = some (info, globals) ∧ s'.globals = globals ∧
      s'.entriesCounter = s.entriesCounter + 1 := by
  simp only [rendezvousSetNew, takeLarge, Option.bind_eq_bind,
    Option.bind_eq_some_iff, mallocEntry_eq_some, calloc_eq_some,
    assign_eq_some, copyInto_eq_some, Option.pure_def, Option.some.injEq,
    Prod.mk.injEq] at ran
  obtain ⟨_, ⟨free, rfl⟩, _, ⟨keyFree, rfl⟩, _, ⟨garbage, isGarbage, rfl⟩, _,
    ⟨keyBlock, isKeyBlock, _, rfl⟩, _, ⟨node, isNode, rfl⟩, t, linked,
    ⟨info, globals⟩, taken, _, ⟨last, isLast, rfl⟩, rfl, rfl⟩ := ran
  obtain rfl := Option.some.inj (isKeyBlock.symm.trans Heap.put_same)
  obtain rfl := Option.some.inj (isNode.symm.trans Heap.put_same)
  have links := linkEntry_links linked Heap.put_same (listed.tail_ne free)
  obtain rfl := Option.some.inj (isLast.symm.trans links.here)
  let c : Cell := ⟨mallocs.entry, mallocs.key, none,
    ⟨key, key.length, valueLength, some info, none⟩⟩
  refine ⟨c, globals, listed.append ⟨links.head, links.tail, links.counter,
    ⟨_, Heap.put_same, ⟨rfl, rfl, rfl, rfl, rfl, ?_, ?_, fun _ => rfl⟩, rfl,
      rfl⟩, ?_, ?_⟩ free ?_ ?_, rfl, ?_, rfl, links.counter⟩
  · refine ⟨_, ?_, string?_fresh⟩
    simp only [links.chars]
    exact Heap.put_same
  · intro address isValue
    exact absurd isValue (by simp [c])
  · intro other (different : other ≠ mallocs.entry)
    refine (Heap.put_other different).trans ?_
    rw [links.others other different]
    simp only [Heap.put_other different]
    rfl
  · intro block live
    have notKey : block ≠ mallocs.key := fun same => live (same ▸ keyFree)
    simp only [links.chars, Heap.put_other notKey]
  · simp [Cell.blocks, c]
  · intro block member
    rcases List.mem_cons.mp member with rfl | isValue
    · exact keyFree
    · exact absurd isValue (by simp [c])
  · rw [links.globals] at taken
    exact taken

end New

/-! ## The handler of the list -/

section Refines

variable {mallocs : Mallocs} {value : List UInt8} {valueLength : Nat}

private theorem eagerGet_refines {reply : Packet × Nat}
    (listed : s.Listed cells)
    (ran : s.eagerGet fuel key = some reply) :
    (s.view cells).eagerGet key = some reply := by
  simp only [eagerGet, Option.bind_eq_bind, Option.bind_eq_some_iff] at ran
  obtain ⟨found, searched, answered⟩ := ran
  rcases searchEntry_spec listed.linked.forward listed.shown searched with
    ⟨rfl, absent⟩ | ⟨before, c, after, rfl, rfl, same, others⟩
  · rw [Server.eagerGet, findEntry_view_none absent]
    exact answered
  · obtain ⟨node, isNode, shows'⟩ := listed.here
    rw [Server.eagerGet, findEntry_view same others]
    simp only [isNode, Option.bind_some] at answered ⊢
    cases isValue : node.value with
    | none =>
        simp only [isValue, shows'.large, shows'.valLen] at answered
        rw [shows'.value] at isValue
        simp only [shows'.noValue isValue]
        exact answered
    | some address =>
        rw [shows'.value] at isValue
        obtain ⟨block, isBlock, content⟩ := shows'.isValue address isValue
        simp only [shows'.value, isValue, isBlock, Option.bind_some,
          shows'.valLen] at answered
        have short : ∀ count ≤ block.size,
            block.content.take count = block.bytes.slice 0 count := by
          intro count fits
          rw [CharBlock.content, Memory.slice, ← List.map_take,
            List.take_range, Nat.min_eq_left fits, Memory.slice]
        simp only [content, CharBlock.content, Memory.length_slice]
        split at answered
        · rename_i fits
          rw [if_pos fits]
          rw [← short _ fits] at answered
          exact answered
        · exact absurd answered (by simp)

private theorem eagerSet_refines (listed : s.Listed cells)
    (ran : s.eagerSet fuel mallocs key value = some s') :
    ∃ cells', s'.Listed cells' ∧
      (s.view cells).eagerSet key value = some (s'.view cells') := by
  simp only [eagerSet, Option.bind_eq_bind, Option.bind_eq_some_iff] at ran
  obtain ⟨found, searched, stored⟩ := ran
  rcases searchEntry_spec listed.linked.forward listed.shown searched with
    ⟨rfl, absent⟩ | ⟨before, c, after, rfl, rfl, same, others⟩
  · obtain ⟨c, listed', isEntry, globals, counter⟩ :=
      eagerSetNew_spec listed stored
    refine ⟨_, listed', ?_⟩
    rw [Server.eagerSet, findEntry_view_none absent]
    simp only [← isEntry, appendEntry_view]
    exact congrArg some (view_congr globals.symm counter.symm)
  · obtain ⟨node, isNode, shows'⟩ := listed.here
    obtain ⟨roomy, made, stored⟩ := Option.bind_eq_some_iff.mp stored
    rw [Server.eagerSet, findEntry_view same others]
    cases isValue : node.value with
    | none =>
        obtain ⟨c', globals, listed', isEntry, tainted, same', counter⟩ :=
          eagerSet_large listed isNode shows' isValue made stored
        refine ⟨_, listed', ?_⟩
        rw [shows'.value] at isValue
        simp only [shows'.noValue isValue, taint_view tainted,
          Option.bind_eq_bind, Option.bind_some, ← isEntry,
          putEntry_view same others]
        exact congrArg some (view_congr same'.symm counter.symm)
    | some old =>
        rw [shows'.value] at isValue
        obtain ⟨block, _, content⟩ := shows'.isValue old isValue
        have inBlock : node.value = some old := shows'.value.trans isValue
        by_cases resized : node.valLen ≠ value.length
        · obtain ⟨c', listed', isEntry, globals, counter⟩ :=
            eagerSet_resized listed isNode shows' inBlock resized made stored
          refine ⟨_, listed', ?_⟩
          simp only [content]
          rw [if_pos (by rw [← shows'.valLen]; exact resized), ← isEntry,
            putEntry_view same others]
          exact congrArg some (view_congr globals.symm counter.symm)
        · have unchanged : roomy = s := by
            simp only [makeRoom, isNode, inBlock, Option.bind_eq_bind,
              Option.bind_some, if_neg resized, Option.some.injEq] at made
            exact made.symm
          rw [unchanged] at stored
          obtain ⟨c', oldValue, isOld, fits, listed', isEntry, globals,
            counter⟩ := eagerSet_inPlace listed isNode shows' inBlock stored
          refine ⟨_, listed', ?_⟩
          simp only [isOld]
          rw [if_neg (by rw [← shows'.valLen]; exact resized), if_pos fits,
            ← isEntry, putEntry_view same others]
          exact congrArg some (view_congr globals.symm counter.symm)

/-- The buffer of the entry is the one that the list replies with. -/
theorem largeBuffer_refines {info : Nat} (listed : s.Listed cells)
    (ran : s.largeBuffer fuel mallocs valueLength key = some (info, s')) :
    ∃ cells', s'.Listed cells' ∧
      (s.view cells).rendezvousSet valueLength key =
        (s'.view cells').rendezvousReply info := by
  have reply (t : EntryServer) (list : List Cell)
      (same : t.globals = s'.globals)
      (counter : t.entriesCounter = s'.entriesCounter) :
      (t.view list).rendezvousReply info =
        (s'.view list).rendezvousReply info := by
    rw [view_congr same counter]
  obtain ⟨found, searched, stored⟩ := Option.bind_eq_some_iff.mp ran
  rcases searchEntry_spec listed.linked.forward listed.shown searched with
    ⟨rfl, absent⟩ | ⟨before, c, after, rfl, rfl, same, others⟩
  · obtain ⟨c, globals, listed', isEntry, taken, same', counter⟩ :=
      rendezvousSetNew_spec listed stored
    refine ⟨_, listed', ?_⟩
    rw [Server.rendezvousSet, findEntry_view_none absent]
    simp only [takeBuffer_view taken, Option.bind_eq_bind, Option.bind_some,
      ← isEntry, appendEntry_view]
    exact reply _ _ same'.symm counter.symm
  · obtain ⟨node, isNode, shows'⟩ := listed.here
    rw [Server.rendezvousSet, findEntry_view same others]
    cases isLarge : node.largeValMemInfo with
    | none =>
        obtain ⟨c', globals, listed', isEntry, taken, same', counter⟩ :=
          rendezvousSet_inline listed isNode shows' isLarge stored
        refine ⟨_, listed', ?_⟩
        rw [shows'.large] at isLarge
        simp only [isLarge, takeBuffer_view taken, Option.bind_eq_bind,
          Option.bind_some, ← isEntry, putEntry_view same others]
        exact reply _ _ same'.symm counter.symm
    | some taken =>
        obtain ⟨c', listed', isEntry, rfl, same', counter⟩ :=
          rendezvousSet_large listed isNode shows' isLarge stored
        refine ⟨_, listed', ?_⟩
        rw [shows'.large] at isLarge
        simp only [isLarge] at isEntry ⊢
        rw [← isEntry, putEntry_view same others]
        exact reply _ _ same'.symm counter.symm

private theorem rendezvousSet_refines {reply : Packet} (listed : s.Listed cells)
    (ran : s.rendezvousSet fuel mallocs valueLength key = some (s', reply)) :
    ∃ cells', s'.Listed cells' ∧
      (s.view cells).rendezvousSet valueLength key =
        some (s'.view cells', reply) := by
  obtain ⟨⟨info, t⟩, buffer, replied⟩ := Option.bind_eq_some_iff.mp ran
  obtain ⟨server, isServer, same'⟩ := Option.bind_eq_some_iff.mp replied
  obtain ⟨rfl, rfl⟩ := Prod.mk.inj (Option.some.inj same')
  obtain ⟨cells', listed', refined⟩ := largeBuffer_refines listed buffer
  have isServer' : ((t.view cells').nodes info).rndvMr = some server := isServer
  refine ⟨cells', listed', ?_⟩
  rw [refined, Server.rendezvousReply, isServer', Option.map_some]

/-- The handler does with the pointers what it does with the list. -/
theorem handle_refines {packet : Packet} {reply : Option (Packet × Nat)}
    (listed : s.Listed cells)
    (ran : s.handleServerPacketsOnly fuel mallocs packet =
      some (s', reply)) :
    ∃ cells', s'.Listed cells' ∧
      (s.view cells).handleServerPacketsOnly packet =
        some (s'.view cells', reply) := by
  cases packet with
  | eagerGetRequest key =>
      obtain ⟨answer, got, same⟩ := Option.map_eq_some_iff.mp ran
      obtain ⟨rfl, rfl⟩ := Prod.mk.inj same
      refine ⟨cells, listed, ?_⟩
      rw [Server.handleServerPacketsOnly, eagerGet_refines listed got]
      rfl
  | eagerSetRequest key value =>
      obtain ⟨t, stored, same⟩ := Option.map_eq_some_iff.mp ran
      obtain ⟨rfl, rfl⟩ := Prod.mk.inj same
      obtain ⟨cells', listed', refined⟩ := eagerSet_refines listed stored
      refine ⟨cells', listed', ?_⟩
      rw [Server.handleServerPacketsOnly, refined]
      rfl
  | rendezvousSetRequest valueLength key =>
      obtain ⟨⟨t, answer⟩, stored, same⟩ := Option.map_eq_some_iff.mp ran
      obtain ⟨rfl, rfl⟩ := Prod.mk.inj same
      obtain ⟨cells', listed', refined⟩ := rendezvousSet_refines listed stored
      refine ⟨cells', listed', ?_⟩
      rw [Server.handleServerPacketsOnly, refined]
      rfl
  | closeConnection toClose =>
      obtain ⟨rfl, rfl⟩ := Prod.mk.inj (Option.some.inj ran)
      exact ⟨cells, ⟨listed.linked, listed.counted, listed.shown,
        listed.apart⟩, rfl⟩
  | _ =>
      obtain ⟨rfl, rfl⟩ := Prod.mk.inj (Option.some.inj ran)
      exact ⟨cells, listed, rfl⟩

end Refines

end EntryServer

/-! ## The entries after a request -/

namespace Server

variable {s s' : Server} {key : CString}

theorem WellFormed.eagerSet {value : List UInt8} (wellFormed : s.WellFormed)
    (ran : s.eagerSet key value = some s') : s'.WellFormed := by
  by_cases holds : ∃ valueLength node,
      s.held key = some (.buffer valueLength node)
  · obtain ⟨valueLength, node, isHeld⟩ := holds
    obtain ⟨entry, found, inside⟩ := findEntry_of_held isHeld
    have sound := wellFormed entry (findEntry_mem found)
    obtain ⟨noValue, _, _⟩ := sound.held_buffer inside
    simp only [Server.eagerSet, found, noValue] at ran
    obtain ⟨t, tainted, rest⟩ := Option.bind_eq_some_iff.mp ran
    obtain rfl := Option.some.inj rest
    have same := entries_taint tainted
    have wellFormed' : t.WellFormed := by
      unfold Server.WellFormed
      rwa [same]
    exact wellFormed'.putEntry (((keys_congr same).2 key).trans found)
      ⟨sound.keyLen, Or.inl ⟨value, rfl, rfl, rfl⟩⟩
  · obtain ⟨t, stored, wellFormed', _⟩ := eagerSet_inline wellFormed
      (fun valueLength node isHeld => holds ⟨valueLength, node, isHeld⟩) value
    obtain rfl := Option.some.inj (ran.symm.trans stored)
    exact wellFormed'

theorem WellFormed.rendezvousSet {valueLength : Nat} {reply : Packet}
    (wellFormed : s.WellFormed)
    (ran : s.rendezvousSet valueLength key = some (s', reply)) :
    s'.WellFormed := by
  by_cases holds : ∃ valueLength node,
      s.held key = some (.buffer valueLength node)
  · obtain ⟨old, node, isHeld⟩ := holds
    obtain ⟨t, stored, wellFormed', _⟩ :=
      rendezvousSet_buffer wellFormed isHeld valueLength
    obtain ⟨server, _, same⟩ :=
      Option.map_eq_some_iff.mp (stored.symm.trans ran)
    rw [← (Prod.mk.inj same).1]
    exact wellFormed'
  · have absent : ∀ valueLength node,
        s.held key ≠ some (.buffer valueLength node) :=
      fun valueLength node isHeld => holds ⟨valueLength, node, isHeld⟩
    cases front : s.memPoolHead with
    | none =>
        rw [rendezvousSet_empty wellFormed absent front] at ran
        exact absurd ran (by simp)
    | some node =>
        obtain ⟨t, stored, wellFormed', _⟩ :=
          rendezvousSet_inline wellFormed absent front valueLength
        obtain ⟨server, _, same⟩ :=
          Option.map_eq_some_iff.mp (stored.symm.trans ran)
        rw [← (Prod.mk.inj same).1]
        exact wellFormed'

/-- Every entry is well formed, and no two have the same key. -/
structure KeyedOnce (s : Server) : Prop where
  wellFormed : s.WellFormed
  once : s.keys.Nodup

theorem KeyedOnce.congr (sound : s.KeyedOnce) (same : s'.entries = s.entries) :
    s'.KeyedOnce := by
  refine ⟨?_, ?_⟩
  · unfold Server.WellFormed
    rw [same]
    exact sound.wellFormed
  · rw [(keys_congr same).1]
    exact sound.once

private theorem nodup_keys (once : s.keys.Nodup)
    (keys : s'.keys = s.keys ∨ key ∉ s.keys ∧ s'.keys = s.keys ++ [key]) :
    s'.keys.Nodup := by
  rcases keys with same | ⟨fresh, appended⟩
  · rwa [same]
  · rw [appended]
    exact List.nodup_append.mpr ⟨once, List.nodup_singleton key,
      fun old member new isNew => by
        rw [List.mem_singleton.mp isNew]
        exact ne_of_mem_of_not_mem member fresh⟩

theorem KeyedOnce.handle {packet : Packet} {reply : Option (Packet × Nat)}
    (sound : s.KeyedOnce)
    (ran : s.handleServerPacketsOnly packet = some (s', reply)) :
    s'.KeyedOnce := by
  cases packet with
  | eagerGetRequest key =>
      obtain ⟨answer, _, same⟩ := Option.map_eq_some_iff.mp ran
      rw [← (Prod.mk.inj same).1]
      exact sound
  | eagerSetRequest key value =>
      obtain ⟨t, stored, same⟩ := Option.map_eq_some_iff.mp ran
      obtain ⟨rfl, _⟩ := Prod.mk.inj same
      exact ⟨sound.wellFormed.eagerSet stored,
        nodup_keys sound.once (keys_eagerSet stored)⟩
  | rendezvousSetRequest valueLength key =>
      obtain ⟨⟨t, answer⟩, stored, same⟩ := Option.map_eq_some_iff.mp ran
      obtain ⟨rfl, _⟩ := Prod.mk.inj same
      exact ⟨sound.wellFormed.rendezvousSet stored,
        nodup_keys sound.once (keys_rendezvousSet stored)⟩
  | closeConnection toClose =>
      obtain ⟨rfl, _⟩ := Prod.mk.inj (Option.some.inj ran)
      exact sound.congr rfl
  | _ =>
      obtain ⟨rfl, _⟩ := Prod.mk.inj (Option.some.inj ran)
      exact sound

end Server

namespace EntryServer

/-! ## The list after any requests -/

variable {s : EntryServer} {cells : List Cell}

def keyString (s : EntryServer) (entry : Nat) : Option CString := do
  let node ← s.kvEntries entry
  let block ← s.chars (← node.key)
  block.string?

/-- The value of an entry is in a block of `val_len` bytes, or in a buffer. -/
def OneValue (s : EntryServer) (node : EntryNode) : Prop :=
  (∃ address block, node.value = some address ∧ s.chars address = some block ∧
    block.size = node.valLen ∧ node.largeValMemInfo = none) ∨
  (node.value = none ∧ node.largeValMemInfo ≠ none)

/-- `entries_head` to `entries_tail` is a list of these entries. -/
structure WellFormed (s : EntryServer) (entries : List Nat) : Prop where
  linked : TwoWay s.next s.prev s.entriesHead s.entriesTail entries
  inverse : ∀ entry ∈ entries, ∀ other ∈ entries,
    s.next entry = some other ↔ s.prev other = some entry
  headEmpty : s.entriesHead = none ↔ entries = []
  tailEmpty : s.entriesTail = none ↔ entries = []
  counted : s.entriesCounter = entries.length
  distinct : ∀ entry ∈ entries, ∀ other ∈ entries,
    s.keyString entry = s.keyString other → entry = other
  shape : ∀ entry ∈ entries, ∃ node key, s.kvEntries entry = some node ∧
    s.keyString entry = some key ∧ node.keyLen = key.length ∧ s.OneValue node

theorem Listed.keyString_eq (listed : s.Listed cells) {c : Cell}
    (member : c ∈ cells) : s.keyString c.address = some c.entry.key := by
  obtain ⟨node, isNode, shows'⟩ := listed.shown c member
  obtain ⟨block, isBlock, isKey⟩ := shows'.isKey
  simp only [keyString, isNode, shows'.key, isBlock, Option.bind_eq_bind,
    Option.bind_some]
  exact isKey

theorem Listed.wellFormed (listed : s.Listed cells)
    (sound : (s.view cells).KeyedOnce) :
    s.WellFormed (cells.map Cell.address) := by
  have linked := listed.linked
  refine ⟨linked, fun entry member other => linked.inverse member,
    linked.head_eq_none_iff, linked.tail_eq_none_iff, ?_, ?_, ?_⟩
  · rw [listed.counted, List.length_map]
  · intro entry member other otherMember same
    obtain ⟨c, isCell, rfl⟩ := List.mem_map.mp member
    obtain ⟨c', isCell', rfl⟩ := List.mem_map.mp otherMember
    rw [listed.keyString_eq isCell, listed.keyString_eq isCell'] at same
    have once : (cells.map fun c => c.entry.key).Nodup := by
      have keys := sound.once
      simpa [Server.keys, view, Function.comp_def] using keys
    rw [List.inj_on_of_nodup_map once isCell isCell' (Option.some.inj same)]
  · intro entry member
    obtain ⟨c, isCell, rfl⟩ := List.mem_map.mp member
    obtain ⟨node, isNode, shows'⟩ := listed.shown c isCell
    have entrySound := sound.wellFormed c.entry (List.mem_map_of_mem isCell)
    refine ⟨node, c.entry.key, isNode, listed.keyString_eq isCell,
      shows'.keyLen.trans entrySound.keyLen, ?_⟩
    rcases entrySound.form with ⟨value, isValue, length, noBuffer⟩ |
      ⟨noValue, info, isBuffer⟩
    · refine Or.inl ?_
      cases valueAt : c.valueAt with
      | none =>
          rw [shows'.noValue valueAt] at isValue
          exact absurd isValue (by simp)
      | some address =>
          obtain ⟨block, isBlock, content⟩ := shows'.isValue address valueAt
          rw [content] at isValue
          have size := congrArg List.length (Option.some.inj isValue)
          rw [CharBlock.content, Memory.length_slice] at size
          exact ⟨address, block, shows'.value.trans valueAt, isBlock,
            size.trans (length.trans shows'.valLen.symm),
            shows'.large.trans noBuffer⟩
    · refine Or.inr ⟨?_, ?_⟩
      · cases valueAt : c.valueAt with
        | none => exact shows'.value.trans valueAt
        | some address =>
            obtain ⟨block, _, content⟩ := shows'.isValue address valueAt
            rw [noValue] at content
            exact absurd content (by simp)
      · rw [shows'.large, isBuffer]
        exact Option.some_ne_none info

/-- The heap holds a list of entries that is sound. -/
theorem Reached.listed {regMr : Nat → Option IbvMr} {past : List Packet}
    (reached : Reached regMr past s) :
    ∃ cells, s.Listed cells ∧ (s.view cells).KeyedOnce := by
  induction reached with
  | start globals =>
      exact ⟨[], listed_start globals, fun _ member =>
        absurd member List.not_mem_nil, List.nodup_nil⟩
  | handled _ ran inductionHypothesis =>
      obtain ⟨cells, listed, sound⟩ := inductionHypothesis
      obtain ⟨cells', listed', refined⟩ := handle_refines listed ran
      exact ⟨cells', listed', sound.handle refined⟩
  | maintained _ _ inductionHypothesis =>
      obtain ⟨cells, listed, sound⟩ := inductionHypothesis
      exact ⟨cells, ⟨listed.linked, listed.counted, listed.shown,
        listed.apart⟩, sound.congr rfl⟩

/-- After any packets, the entries are a list with both links, with distinct
keys and one value each. -/
theorem entryList_wellFormed {regMr : Nat → Option IbvMr}
    {past : List Packet} (reached : Reached regMr past s) :
    ∃ entries, s.WellFormed entries := by
  obtain ⟨cells, listed, sound⟩ := reached.listed
  exact ⟨_, listed.wellFormed sound⟩

def oneBuffer : Server :=
  { Server.init with
    nodes := fun _ => ⟨some ⟨0, 0⟩, Memory.zero, none⟩
    memPoolHead := some 0
    memPoolTail := some 0
    poolSize := 1 }

def setTwice : List Packet :=
  [.eagerSetRequest .empty [7], .rendezvousSetRequest 5000 .empty]

theorem entryList_wellFormed_setTwice :
    ∃ s, Reached (fun _ => none) setTwice s ∧
      ∃ entries, s.WellFormed entries := by
  let mallocs : Mallocs :=
    ⟨0, ⟨some 9, some 9, 9, 9, some 9, some 9, some 9⟩, 1, 2⟩
  have first : ((start oneBuffer).handleServerPacketsOnly 0 mallocs
      (.eagerSetRequest .empty [7])).isSome = true := rfl
  obtain ⟨⟨middle, reply⟩, ran⟩ := Option.isSome_iff_exists.mp first
  have second : ((start oneBuffer).handleServerPacketsOnly 0 mallocs
      (.eagerSetRequest .empty [7])).bind (fun middle =>
        (middle.1.handleServerPacketsOnly 1 mallocs
          (.rendezvousSetRequest 5000 .empty)).map fun _ => ()) = some () := rfl
  rw [ran, Option.bind_some] at second
  obtain ⟨⟨s, reply'⟩, ran', _⟩ := Option.map_eq_some_iff.mp second
  have reached : Reached (fun _ => none) setTwice s :=
    ((Reached.start oneBuffer).handled ran).handled ran'
  exact ⟨s, reached, entryList_wellFormed reached⟩

end EntryServer

end RdmaKv
