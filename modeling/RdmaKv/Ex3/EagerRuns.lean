import RdmaKv.Ex3.EagerStore
import RdmaKv.Ex3.History
import Mathlib.Data.Fintype.EquivFin
import Mathlib.Data.List.Induction

/-!
# When the eager store is a map

A server that is never asked to set a key for a second time keeps its nodes in
one doubly linked list and answers with the values that were set.  The second
set of a key puts a node into the list whose `val_len` nobody assigned.
-/

namespace RdmaKv.Ex3

open ByteMemory LinkedChain

namespace EagerRequest

def pair? : EagerRequest → Option (CString × List UInt8)
  | set key value => some (key, value)
  | get _ => none

def pairs (requests : List EagerRequest) : List (CString × List UInt8) :=
  requests.filterMap pair?

def latest (key : CString) (requests : List EagerRequest) :
    Option (List UInt8) :=
  lastValue key (pairs requests)

@[simp]
theorem pairs_nil : pairs [] = [] := rfl

@[simp]
theorem pairs_append_set (past : List EagerRequest) (key : CString)
    (value : List UInt8) :
    pairs (past ++ [set key value]) = pairs past ++ [(key, value)] := by
  simp [pairs, pair?]

@[simp]
theorem pairs_append_get (past : List EagerRequest) (key : CString) :
    pairs (past ++ [get key]) = pairs past := by
  simp [pairs, pair?]

end EagerRequest

/-! ## One node -/

namespace KvNode

structure Holds (node : KvNode) (key : CString) (value : List UInt8) :
    Prop where
  isKey : node.key = some key
  isValue : node.keyAndValue.slice (key.length + 1) value.length = value
  valLen : node.valLen = value.length
  room : key.length + 1 + value.length ≤ node.room

private theorem key_copy {bytes : Memory} {key : CString} {value : List UInt8} :
    (bytes.copy 0 (key.length + 1 + value.length)
      (keyAndValueOf key value)).string? 0 (key.length + value.length + 6) =
        some key := by
  refine Memory.string?_eq_some_iff.mpr ⟨by omega, fun i bound => ?_⟩
  rw [Memory.copy_inside _ _ (by omega) (by omega), keyAndValueOf,
    Memory.copy_outside _ _ (by omega),
    Memory.copy_inside _ _ (by omega) (by omega)]
  simp

private theorem value_copy {bytes : Memory} {key : CString}
    {value : List UInt8} :
    (bytes.copy 0 (key.length + 1 + value.length)
      (keyAndValueOf key value)).slice (key.length + 1) value.length = value := by
  have inside : (bytes.copy 0 (key.length + 1 + value.length)
      (keyAndValueOf key value)).slice (key.length + 1) value.length =
      (keyAndValueOf key value).slice (key.length + 1) value.length :=
    Memory.slice_congr fun i lower upper => by
      rw [Memory.copy_inside _ _ (Nat.zero_le _) (by omega), Nat.sub_zero]
  rw [inside, keyAndValueOf, Memory.slice_copy, Memory.slice_ofList]

end KvNode

/-! ## The list -/

namespace Server

variable {s s' : Server} {nodes : List Nat} {key : CString}
  {value : List UInt8} {fuel : Nat} {block : Block}

def next (s : Server) (address : Nat) : Option Nat :=
  (s.nodes address).bind KvNode.next

def prev (s : Server) (address : Nat) : Option Nat :=
  (s.nodes address).bind KvNode.prev

/-- `next` and `prev` link the nodes both ways between `kv_head` and
`kv_tail`, no node is freed, and `kv_nodes_counter` counts them. -/
structure Listed (s : Server) (nodes : List Nat) : Prop where
  forward : Chain s.next s.kvHead nodes
  backward : Chain s.prev s.kvTail nodes.reverse
  live : ∀ address ∈ nodes, s.nodes address ≠ none
  counted : s.kvNodesCounter = nodes.length

/-- A node in the heap holds a key and a value. -/
def HoldsAt (s : Server) (address : Nat) (pair : CString × List UInt8) :
    Prop :=
  ∃ node, s.nodes address = some node ∧ node.Holds pair.1 pair.2

/-- The list holds these keys and values, and the heap nothing else. -/
structure Stores (s : Server) (nodes : List Nat)
    (pairs : List (CString × List UInt8)) : Prop extends Listed s nodes where
  only : ∀ address, s.nodes address ≠ none → address ∈ nodes
  holds : List.Forall₂ s.HoldsAt nodes pairs

theorem stores_init : init.Stores [] [] :=
  ⟨⟨rfl, rfl, by simp, rfl⟩, fun _ live => absurd rfl live, .nil⟩

/-! ## The search -/

/-- What the search finds in a list. -/
def Finds (s : Server) (nodes : List Nat)
    (pairs : List (CString × List UInt8)) (key : CString) :
    Option Nat → Prop
  | none => ∀ pair ∈ pairs, pair.1 ≠ key
  | some address => address ∈ nodes ∧
      ∃ value, (key, value) ∈ pairs ∧ s.HoldsAt address (key, value)

private theorem findNode_sound {start found : Option Nat}
    {pairs : List (CString × List UInt8)} (chain : Chain s.next start nodes)
    (holds : List.Forall₂ s.HoldsAt nodes pairs)
    (searched : s.findNode key fuel start = some found) :
    s.Finds nodes pairs key found := by
  induction holds generalizing start fuel with
  | nil =>
      obtain rfl : start = none := chain
      cases fuel <;>
      · obtain rfl := Option.some.inj searched
        exact fun pair member => absurd member List.not_mem_nil
  | @cons address pair nodes pairs here _ inductionHypothesis =>
      obtain ⟨rfl, later⟩ := chain
      obtain ⟨node, isNode, held⟩ := here
      cases fuel with
      | zero => exact absurd searched (by simp [findNode])
      | succ fuel =>
          simp only [findNode, isNode, held.isKey, Option.bind_eq_bind,
            Option.bind_some] at searched
          split at searched
          · rename_i same
            obtain rfl := Option.some.inj searched
            refine ⟨List.mem_cons_self .., pair.2, ?_, node, isNode, ?_⟩
            · rw [← same]
              exact List.mem_cons_self ..
            · rw [← same]
              exact held
          · rename_i different
            simp only [next, isNode, Option.bind_some] at later
            have rest := inductionHypothesis later searched
            cases found with
            | none =>
                intro other member
                rcases List.mem_cons.mp member with rfl | member
                · exact different
                · exact rest other member
            | some found =>
                obtain ⟨inside, value, isPair, holdsAt⟩ := rest
                exact ⟨List.mem_cons_of_mem _ inside, value,
                  List.mem_cons_of_mem _ isPair, holdsAt⟩

variable (key) in
private theorem findNode_isSome {start : Option Nat}
    {pairs : List (CString × List UInt8)} (chain : Chain s.next start nodes)
    (holds : List.Forall₂ s.HoldsAt nodes pairs)
    (enough : nodes.length ≤ fuel) :
    ∃ found, s.findNode key fuel start = some found := by
  induction holds generalizing start fuel with
  | nil =>
      obtain rfl : start = none := chain
      cases fuel <;> exact ⟨none, rfl⟩
  | @cons address pair nodes pairs here _ inductionHypothesis =>
      obtain ⟨rfl, later⟩ := chain
      obtain ⟨node, isNode, held⟩ := here
      cases fuel with
      | zero => exact absurd enough (by simp)
      | succ fuel =>
          simp only [next, isNode, Option.bind_some] at later
          have rest : nodes.length ≤ fuel := by simpa using enough
          simp only [findNode, isNode, held.isKey, Option.bind_eq_bind,
            Option.bind_some]
          split
          · exact ⟨_, rfl⟩
          · exact inductionHypothesis later rest

/-! ## `EAGER_GET_REQUEST` -/

def response (value : List UInt8) : EagerGetResponse :=
  ⟨value.length, value ++ [0], sizeofPacket + value.length⟩

section Get

variable {pairs : List (CString × List UInt8)}

variable (key) in
private theorem eagerGet_isSome (stores : s.Stores nodes pairs)
    (enough : nodes.length ≤ fuel) :
    ∃ reply, s.eagerGet fuel key = some reply := by
  obtain ⟨found, searched⟩ :=
    findNode_isSome key stores.forward stores.holds enough
  have finds := findNode_sound stores.forward stores.holds searched
  unfold eagerGet
  simp only [searched, Option.bind_eq_bind, Option.bind_some]
  cases found with
  | none => exact ⟨_, rfl⟩
  | some address =>
      obtain ⟨_, value, _, node, isNode, held⟩ := finds
      simp only [isNode, Option.bind_some]
      rw [if_pos (by rw [held.valLen]; exact held.room)]
      exact ⟨_, rfl⟩

/-- A key that was set once is answered with its value. -/
private theorem eagerGet_sound (stores : s.Stores nodes pairs)
    (once : (pairs.map Prod.fst).Nodup) (isPair : (key, value) ∈ pairs)
    {reply : EagerGetResponse} (ran : s.eagerGet fuel key = some reply) :
    reply = response value := by
  unfold eagerGet at ran
  simp only [Option.bind_eq_bind, Option.bind_eq_some_iff] at ran
  obtain ⟨found, searched, answered⟩ := ran
  have finds := findNode_sound stores.forward stores.holds searched
  cases found with
  | none => exact absurd rfl (finds (key, value) isPair)
  | some address =>
      obtain ⟨_, other, isOther, node, isNode, held⟩ := finds
      have same : (key, other) = (key, value) :=
        List.inj_on_of_nodup_map once isOther isPair rfl
      obtain ⟨_, rfl⟩ := Prod.mk.inj same
      simp only [isNode, Option.bind_some] at answered
      split at answered
      · obtain rfl := Option.some.inj answered
        rw [held.valLen, held.isValue]
        rfl
      · exact absurd answered (by simp)

end Get

/-! ## `EAGER_SET_REQUEST` of a new key -/

def appended (s : Server) (block : Block) (key : CString)
    (value : List UInt8) : KvNode :=
  ⟨none, s.kvTail, value.length, key.length + value.length + 6,
    block.bytes.copy 0 (key.length + 1 + value.length)
      (keyAndValueOf key value)⟩

private theorem appended_holds : (s.appended block key value).Holds key value :=
  ⟨KvNode.key_copy, KvNode.value_copy, rfl, by
    simp only [appended]
    omega⟩

/-- What `appendNode` assigns. -/
structure Appends (block : Block) (key : CString) (value : List UInt8)
    (s s' : Server) : Prop where
  head : s'.kvHead =
    if s.kvTail = none then some block.address else s.kvHead
  last : s'.kvTail = some block.address
  counter : s'.kvNodesCounter = s.kvNodesCounter + 1
  heap : ∀ address, s'.nodes address =
    if s.kvTail = some address then
      (s.nodes address).map fun node =>
        { node with next := some block.address }
    else if address = block.address then some (s.appended block key value)
    else s.nodes address

variable (key value) in
private theorem appendNode_appends (fresh : s.nodes block.address = none)
    (tail : ∀ address, s.kvTail = some address → s.nodes address ≠ none) :
    ∃ s', s.appendNode block key value = some s' ∧
      Appends block key value s s' := by
  cases atTail : s.kvTail with
  | none =>
      simp only [appendNode, allocate, modify, modify?, atTail, if_true,
        Option.map_some, Option.bind_eq_bind, Option.bind_some, Option.pure_def]
      refine ⟨_, rfl, by simp [atTail], rfl, rfl, fun address => ?_⟩
      by_cases same : address = block.address <;>
      simp [same, appended, atTail]
  | some last =>
      obtain ⟨node, isNode⟩ := Option.ne_none_iff_exists'.mp (tail last atTail)
      have different : last ≠ block.address := by
        rintro rfl
        exact absurd (fresh.symm.trans isNode) (by simp)
      simp only [appendNode, allocate, modify, modify?, atTail, if_true,
        if_neg different, isNode, Option.map_some, Option.bind_eq_bind,
        Option.bind_some, Option.pure_def]
      refine ⟨_, rfl, by simp [atTail], rfl, rfl, fun address => ?_⟩
      by_cases isLast : address = last
      · subst isLast
        simp [isNode, atTail]
      · have other : ¬ last = address := fun same => isLast same.symm
        by_cases same : address = block.address
        · simp [same, different, different.symm, appended, atTail]
        · simp [isLast, other, same, atTail]

theorem Listed.twoWay (listed : s.Listed nodes) :
    TwoWay s.next s.prev s.kvHead s.kvTail nodes :=
  ⟨listed.forward, listed.backward⟩

namespace Appends

variable {pairs : List (CString × List UInt8)}

private theorem at_block (appends : Appends block key value s s')
    (stores : s.Stores nodes pairs) (fresh : s.nodes block.address = none) :
    s'.nodes block.address = some (s.appended block key value) := by
  rw [appends.heap, if_neg, if_pos rfl]
  intro isTail
  exact absurd fresh (stores.live _ (stores.twoWay.tail_mem isTail))

/-- The other nodes keep everything but the `next` of the tail. -/
private theorem away (appends : Appends block key value s s')
    (stores : s.Stores nodes pairs) (fresh : s.nodes block.address = none)
    {address : Nat} (member : address ∈ nodes) :
    ∃ node, s.nodes address = some node ∧ s'.nodes address = some
      (if s.kvTail = some address then
        { node with next := some block.address } else node) := by
  obtain ⟨node, isNode⟩ :=
    Option.ne_none_iff_exists'.mp (stores.live address member)
  refine ⟨node, isNode, ?_⟩
  have different : address ≠ block.address := by
    rintro rfl
    exact stores.live _ member fresh
  rw [appends.heap]
  split
  · rw [isNode, Option.map_some]
  · simp [isNode]

private theorem twoWay (appends : Appends block key value s s')
    (stores : s.Stores nodes pairs) (fresh : s.nodes block.address = none) :
    TwoWay s'.next s'.prev s'.kvHead s'.kvTail (nodes ++ [block.address]) := by
  apply stores.twoWay.append appends.head appends.last
  · simp [next, appends.at_block stores fresh, appended]
  · simp [prev, appends.at_block stores fresh, appended]
  · intro other member
    obtain ⟨node, isNode, isNode'⟩ := appends.away stores fresh member
    simp only [next, isNode, isNode', Option.bind_some]
    split <;> rfl
  · intro other member
    obtain ⟨node, isNode, isNode'⟩ := appends.away stores fresh member
    simp only [prev, isNode, isNode', Option.bind_some]
    split <;> rfl

private theorem holds (appends : Appends block key value s s')
    (stores : s.Stores nodes pairs) (fresh : s.nodes block.address = none) :
    List.Forall₂ s'.HoldsAt (nodes ++ [block.address])
      (pairs ++ [(key, value)]) := by
  have keeps (address : Nat) (pair : CString × List UInt8)
      (holdsAt : s.HoldsAt address pair) : s'.HoldsAt address pair := by
    obtain ⟨old, isOld, held⟩ := holdsAt
    obtain ⟨node, isNode, isNode'⟩ := appends.away stores fresh
      (stores.only address (by rw [isOld]; simp))
    obtain rfl := Option.some.inj (isOld.symm.trans isNode)
    refine ⟨_, isNode', ?_⟩
    split
    · exact ⟨held.isKey, held.isValue, held.valLen, held.room⟩
    · exact held
  exact List.rel_append (stores.holds.imp keeps)
    (.cons ⟨_, appends.at_block stores fresh, appended_holds⟩ .nil)

end Appends

variable (key value) in
private theorem appendNode_stores {pairs : List (CString × List UInt8)}
    (stores : s.Stores nodes pairs) (fresh : s.nodes block.address = none) :
    ∃ s', s.appendNode block key value = some s' ∧
      s'.Stores (nodes ++ [block.address]) (pairs ++ [(key, value)]) := by
  obtain ⟨s', ran, appends⟩ := appendNode_appends key value fresh
    fun address isTail =>
      stores.live address (stores.twoWay.tail_mem isTail)
  have twoWay := appends.twoWay stores fresh
  refine ⟨s', ran, ⟨⟨twoWay.forward, twoWay.backward, ?_, ?_⟩, ?_,
    appends.holds stores fresh⟩⟩
  · intro address member
    rcases List.mem_append.mp member with old | new
    · obtain ⟨node, _, isNode'⟩ := appends.away stores fresh old
      rw [isNode']
      exact Option.some_ne_none _
    · rw [List.mem_singleton.mp new, appends.at_block stores fresh]
      exact Option.some_ne_none _
  · rw [appends.counter, stores.counted, List.length_append]
    rfl
  · intro address live
    by_cases same : address = block.address
    · exact List.mem_append_right _ (List.mem_singleton.mpr same)
    · refine List.mem_append_left _ (stores.only address fun freed => live ?_)
      rw [appends.heap, if_neg same, freed]
      split <;> rfl

/-! ## `EAGER_SET_REQUEST` of a key that is there -/

/-- What an assignment leaves of a node: its length, and its string if that is
`key`. -/
structure Similar (key : CString) (node node' : KvNode) : Prop where
  valLen : node'.valLen = node.valLen
  room : node'.room = node.room
  bytes : ∀ i ≤ key.length, node'.keyAndValue i = node.keyAndValue i

theorem Similar.isKey {node node' : KvNode} (similar : Similar key node node')
    (isKey : node'.key = some key) : node.key = some key := by
  unfold KvNode.key at isKey ⊢
  rw [← similar.room]
  exact Memory.string?_congr isKey fun i _ upper =>
    (similar.bytes i (by omega)).symm

/-- Every node of the second heap was in the first one. -/
def HeapSimilar (key : CString) (s s' : Server) : Prop :=
  ∀ address node', s'.nodes address = some node' →
    ∃ node, s.nodes address = some node ∧ Similar key node node'

theorem HeapSimilar.trans {t : Server} (first : HeapSimilar key s s')
    (second : HeapSimilar key s' t) : HeapSimilar key s t := by
  intro address node isNode
  obtain ⟨middle, isMiddle, later⟩ := second address node isNode
  obtain ⟨origin, isOrigin, earlier⟩ := first address middle isMiddle
  exact ⟨origin, isOrigin, later.valLen.trans earlier.valLen,
    later.room.trans earlier.room, fun i bound =>
      (later.bytes i bound).trans (earlier.bytes i bound)⟩

private theorem heapSimilar_modify {address : Nat} {change : KvNode → KvNode}
    (ran : s.modify address change = some s')
    (similar : ∀ node, Similar key node (change node)) : HeapSimilar key s s' := by
  obtain ⟨node, isNode, rfl⟩ := Option.map_eq_some_iff.mp ran
  intro other node' isNode'
  simp only at isNode'
  split at isNode'
  · rename_i same
    obtain rfl := Option.some.inj isNode'
    exact ⟨node, same ▸ isNode, similar node⟩
  · exact ⟨node', isNode', rfl, rfl, fun _ _ => rfl⟩

private theorem heapSimilar_modify? {pointer : Option Nat}
    {change : KvNode → KvNode}
    (ran : s.modify? pointer change = some s')
    (similar : ∀ node, Similar key node (change node)) : HeapSimilar key s s' := by
  cases pointer with
  | none =>
      obtain rfl := Option.some.inj ran
      exact fun address node isNode =>
        ⟨node, isNode, rfl, rfl, fun _ _ => rfl⟩
  | some address => exact heapSimilar_modify ran similar

private theorem replaceNode_similar {address : Nat}
    (ran : s.replaceNode block address key value = some s') :
    HeapSimilar key ((s.free address).allocate block key value) s' := by
  unfold replaceNode at ran
  simp only [Option.bind_eq_bind, Option.bind_eq_some_iff] at ran
  obtain ⟨node, _, head, _, headNode, _, ran⟩ := ran
  split at ran
  · simp only [Option.bind_eq_some_iff] at ran
    obtain ⟨first, terminated, second, linkedPrev, third, linked, linkedNext⟩ :=
      ran
    refine HeapSimilar.trans
      (heapSimilar_modify terminated fun node => ⟨rfl, rfl, fun i bound =>
        Memory.copy_outside _ _ (Or.inl (by omega))⟩) ?_
    refine HeapSimilar.trans
      (heapSimilar_modify? linkedPrev fun node => ⟨rfl, rfl, fun _ _ => rfl⟩) ?_
    exact HeapSimilar.trans
      (heapSimilar_modify linked fun node => ⟨rfl, rfl, fun _ _ => rfl⟩)
      (heapSimilar_modify? linkedNext fun node => ⟨rfl, rfl, fun _ _ => rfl⟩)
  · exact absurd ran (by simp)

private theorem findNode_key {start : Option Nat} {address : Nat}
    (searched : s.findNode key fuel start = some (some address)) :
    ∃ node, s.nodes address = some node ∧ node.key = some key := by
  induction fuel generalizing start with
  | zero => cases start <;> exact absurd searched (by simp [findNode])
  | succ fuel inductionHypothesis =>
      cases start with
      | none => exact absurd searched (by simp [findNode])
      | some first =>
          simp only [findNode, Option.bind_eq_bind,
            Option.bind_eq_some_iff] at searched
          obtain ⟨node, isNode, nodeKey, isKey, rest⟩ := searched
          split at rest
          · rename_i same
            obtain rfl := Option.some.inj (Option.some.inj rest)
            exact ⟨node, isNode, same ▸ isKey⟩
          · exact inductionHypothesis rest

/-- The key of a node in the list. -/
private theorem mem_keys_of_holds {pairs : List (CString × List UInt8)}
    (holds : List.Forall₂ s.HoldsAt nodes pairs) {address : Nat}
    (inside : address ∈ nodes) {node : KvNode}
    (isNode : s.nodes address = some node) (isKey : node.key = some key) :
    key ∈ pairs.map Prod.fst := by
  induction holds with
  | nil => exact absurd inside List.not_mem_nil
  | @cons first pair nodes pairs here _ inductionHypothesis =>
      rcases List.mem_cons.mp inside with rfl | later
      · obtain ⟨other, isOther, held⟩ := here
        obtain rfl := Option.some.inj (isOther.symm.trans isNode)
        obtain rfl := Option.some.inj (held.isKey.symm.trans isKey)
        exact List.mem_cons_self ..
      · exact List.mem_cons_of_mem _ (inductionHypothesis later)

/-- Different nodes hold different keys. -/
private theorem holds_unique {pairs : List (CString × List UInt8)}
    (holds : List.Forall₂ s.HoldsAt nodes pairs)
    (once : (pairs.map Prod.fst).Nodup) {first second : Nat}
    (inside : first ∈ nodes) (inside' : second ∈ nodes)
    {node node' : KvNode} (isNode : s.nodes first = some node)
    (isNode' : s.nodes second = some node') (isKey : node.key = some key)
    (isKey' : node'.key = some key) : first = second := by
  induction holds with
  | nil => exact absurd inside List.not_mem_nil
  | @cons head pair nodes pairs here later inductionHypothesis =>
      obtain ⟨other, isOther, held⟩ := here
      obtain ⟨fresh, once⟩ := List.nodup_cons.mp once
      rcases List.mem_cons.mp inside with rfl | behind
      · obtain rfl := Option.some.inj (isOther.symm.trans isNode)
        obtain rfl := Option.some.inj (held.isKey.symm.trans isKey)
        rcases List.mem_cons.mp inside' with rfl | behind'
        · rfl
        · exact absurd (mem_keys_of_holds later behind' isNode' isKey') fresh
      · rcases List.mem_cons.mp inside' with rfl | behind'
        · obtain rfl := Option.some.inj (isOther.symm.trans isNode')
          obtain rfl := Option.some.inj (held.isKey.symm.trans isKey')
          exact absurd (mem_keys_of_holds later behind isNode isKey) fresh
        · exact inductionHypothesis once behind behind'

/-- The node that takes the place of another one answers with whatever
`val_len` its block had. -/
private theorem eagerGet_replaced {pairs : List (CString × List UInt8)}
    {fuel' : Nat}
    (stores : s.Stores nodes pairs) (once : (pairs.map Prod.fst).Nodup)
    (searched : s.findNode key fuel s.kvHead = some (some block.address))
    (wrong : block.valLen ≠ value.length)
    (ran : s.replaceNode block block.address key value = some s') :
    s'.eagerGet fuel' key ≠ some (response value) := by
  intro answered
  obtain ⟨freed, isFreed, freedKey⟩ := findNode_key searched
  unfold eagerGet at answered
  simp only [Option.bind_eq_bind, Option.bind_eq_some_iff] at answered
  obtain ⟨found, searched', answered⟩ := answered
  cases found with
  | none =>
      have sizes := congrArg EagerGetResponse.responseSize
        (Option.some.inj answered)
      simp only [response, sizeofPacket, sizeofPointer] at sizes
      omega
  | some address =>
      obtain ⟨node', isNode', isKey'⟩ := findNode_key searched'
      obtain ⟨node, isNode, similar⟩ := replaceNode_similar ran address node'
        isNode'
      simp only [isNode', Option.bind_some] at answered
      split at answered
      case isFalse => exact absurd answered (by simp)
      have lengths := congrArg EagerGetResponse.valueLength
        (Option.some.inj answered)
      simp only [response] at lengths
      simp only [allocate] at isNode
      split at isNode
      · obtain rfl := Option.some.inj isNode
        exact wrong (similar.valLen.symm.trans lengths)
      · rename_i different
        have isOld : s.nodes address = some node := by
          simpa [free, different] using isNode
        have live : address ∈ nodes :=
          stores.only address (by rw [isOld]; simp)
        have freedLive : block.address ∈ nodes :=
          stores.only block.address (by rw [isFreed]; simp)
        exact different (holds_unique stores.holds once live freedLive isOld
          isFreed (similar.isKey isKey') freedKey)

/-! ## Sequences of requests -/

/-- Every key is set at most once. -/
def SetsOnce (requests : List EagerRequest) : Prop :=
  ∀ before key value after, requests = before ++ .set key value :: after →
    EagerRequest.latest key before = none

/-- Every key that was set is answered with its latest value, and the nodes
are in one list. -/
def Right (past : List EagerRequest) (s : Server) : Prop :=
  (∃ nodes, s.Listed nodes) ∧ ∀ key value,
    EagerRequest.latest key past = some value →
      ∃ fuel, s.eagerGet fuel key = some (response value)

/-- The store is a map along a sequence of requests, whatever `malloc`
returns: every request is handled, a get of a key that was set is answered
with the latest value, and so would be every other get. -/
def IsMap (requests : List EagerRequest) : Prop :=
  ∀ before request after, requests = before ++ request :: after →
    ∀ s block, Reached before s → s.MayAllocate block request →
      (∃ s' reply, s.Handles block request s' reply) ∧
      ∀ s' reply, s.Handles block request s' reply →
        (∀ key value, request = .get key →
          EagerRequest.latest key before = some value →
            reply = some (response value)) ∧
        Right (before ++ [request]) s'

theorem SetsOnce.of_append {front back : List EagerRequest}
    (once : SetsOnce (front ++ back)) : SetsOnce front :=
  fun before key value after split =>
    once before key value (after ++ back) (by rw [split]; simp)

theorem IsMap.of_append {front back : List EagerRequest}
    (isMap : IsMap (front ++ back)) : IsMap front :=
  fun before request after split =>
    isMap before request (after ++ back) (by rw [split]; simp)

theorem SetsOnce.nodup {requests : List EagerRequest}
    (once : SetsOnce requests) :
    ((EagerRequest.pairs requests).map Prod.fst).Nodup := by
  induction requests using List.reverseRecOn with
  | nil => exact List.nodup_nil
  | append_singleton past request inductionHypothesis =>
      have earlier := inductionHypothesis once.of_append
      cases request with
      | get key => simpa using earlier
      | set key value =>
          have absent := lastValue_eq_none_iff.mp
            (once past key value [] rfl)
          rw [EagerRequest.pairs_append_set, List.map_append]
          refine List.nodup_append.mpr ⟨earlier, List.nodup_singleton _,
            fun other member new isNew => ?_⟩
          obtain ⟨pair, isPair, rfl⟩ := List.mem_map.mp member
          rw [List.mem_singleton.mp isNew]
          exact absent pair isPair

/-- A set of a new key, or a get, keeps the list. -/
theorem handles_stores {past : List EagerRequest} {request : EagerRequest}
    {reply : Option EagerGetResponse}
    (stores : s.Stores nodes (EagerRequest.pairs past))
    (new : ∀ key value, request = .set key value →
      EagerRequest.latest key past = none)
    (may : s.MayAllocate block request)
    (handles : s.Handles block request s' reply) :
    ∃ nodes', s'.Stores nodes' (EagerRequest.pairs (past ++ [request])) := by
  obtain ⟨fuel, ran⟩ := handles
  cases request with
  | get key =>
      obtain ⟨answer, _, same⟩ := Option.map_eq_some_iff.mp ran
      obtain ⟨rfl, _⟩ := Prod.mk.inj same
      exact ⟨nodes, by simpa using stores⟩
  | set key value =>
      have absent := lastValue_eq_none_iff.mp (new key value rfl)
      have misses {fuel : Nat} {found : Option Nat}
          (searched : s.findNode key fuel s.kvHead = some found) :
          found = none := by
        cases found with
        | none => rfl
        | some address =>
            obtain ⟨_, other, isPair, _⟩ :=
              findNode_sound stores.forward stores.holds searched
            exact absurd rfl (absent (key, other) isPair)
      have fresh : s.nodes block.address = none := by
        rcases may with free | ⟨fuel, searched⟩
        · exact free
        · exact absurd (misses searched) (by simp)
      obtain ⟨t, isSet, same⟩ := Option.map_eq_some_iff.mp ran
      obtain ⟨rfl, _⟩ := Prod.mk.inj same
      obtain ⟨found, searched, rest⟩ := Option.bind_eq_some_iff.mp isSet
      obtain rfl := misses searched
      obtain ⟨t', appends, stores'⟩ :=
        appendNode_stores key value stores fresh
      obtain rfl := Option.some.inj (appends.symm.trans rest)
      exact ⟨_, by simpa using stores'⟩

/-- Such a request is handled. -/
theorem exists_handles {past : List EagerRequest} {request : EagerRequest}
    (stores : s.Stores nodes (EagerRequest.pairs past))
    (new : ∀ key value, request = .set key value →
      EagerRequest.latest key past = none)
    (may : s.MayAllocate block request) :
    ∃ s' reply, s.Handles block request s' reply := by
  cases request with
  | get key =>
      obtain ⟨reply, ran⟩ := eagerGet_isSome key stores le_rfl
      refine ⟨s, some reply, nodes.length, ?_⟩
      simp [handle, ran]
  | set key value =>
      have absent := lastValue_eq_none_iff.mp (new key value rfl)
      obtain ⟨found, searched⟩ :=
        findNode_isSome key stores.forward stores.holds le_rfl
      have finds := findNode_sound stores.forward stores.holds searched
      cases found with
      | some address =>
          obtain ⟨_, other, isPair, _⟩ := finds
          exact absurd rfl (absent (key, other) isPair)
      | none =>
          have fresh : s.nodes block.address = none := by
            rcases may with free | ⟨fuel, elsewhere⟩
            · exact free
            · obtain ⟨_, other, isPair, _⟩ :=
                findNode_sound stores.forward stores.holds elsewhere
              exact absurd rfl (absent (key, other) isPair)
          obtain ⟨s', appends, _⟩ :=
            appendNode_stores key value stores fresh
          refine ⟨s', none, nodes.length, ?_⟩
          simp [handle, eagerSet, searched, appends]

private theorem reached_stores {past : List EagerRequest}
    (reached : Reached past s)
    (once : SetsOnce past) :
    ∃ nodes, s.Stores nodes (EagerRequest.pairs past) := by
  induction reached with
  | start => exact ⟨[], stores_init⟩
  | @handled past s s' block request reply _ may handles inductionHypothesis =>
      obtain ⟨nodes, stores⟩ := inductionHypothesis once.of_append
      refine handles_stores stores (fun key value same => ?_) may handles
      exact once past key value [] (by rw [same])

private theorem exists_reached {past : List EagerRequest}
    (once : SetsOnce past) :
    ∃ s, Reached past s := by
  induction past using List.reverseRecOn with
  | nil => exact ⟨_, .start⟩
  | append_singleton past request inductionHypothesis =>
      obtain ⟨s, reached⟩ := inductionHypothesis once.of_append
      obtain ⟨nodes, stores⟩ := reached_stores reached once.of_append
      obtain ⟨address, outside⟩ := Infinite.exists_notMem_finset nodes.toFinset
      have free : s.nodes address = none := by
        by_contra live
        exact outside (List.mem_toFinset.mpr (stores.only address live))
      have may : s.MayAllocate ⟨address, none, none, 0, Memory.zero⟩ request := by
        cases request with
        | set key value => exact Or.inl free
        | get key => trivial
      obtain ⟨s', reply, handles⟩ := exists_handles stores
        (fun key value same => once past key value [] (by rw [same])) may
      exact ⟨s', reached.handled may handles⟩

private theorem right_of_stores {past : List EagerRequest}
    (stores : s.Stores nodes (EagerRequest.pairs past))
    (once : SetsOnce past) : Right past s := by
  refine ⟨⟨nodes, stores.toListed⟩, fun key value found => ?_⟩
  obtain ⟨reply, ran⟩ := eagerGet_isSome key stores le_rfl
  obtain rfl := eagerGet_sound stores once.nodup
    (mem_of_lastValue found) ran
  exact ⟨_, ran⟩

theorem isMap_of_setsOnce {requests : List EagerRequest}
    (once : SetsOnce requests) : IsMap requests := by
  intro before request after split s block reached may
  have here : SetsOnce (before ++ [request]) := by
    rw [split, List.append_cons] at once
    exact once.of_append
  have new (key : CString) (value : List UInt8) (same : request = .set key value) :
      EagerRequest.latest key before = none :=
    here before key value [] (by rw [same])
  obtain ⟨nodes, stores⟩ := reached_stores reached here.of_append
  refine ⟨exists_handles stores new may, fun s' reply handles => ⟨?_, ?_⟩⟩
  · rintro key value rfl found
    obtain ⟨fuel, ran⟩ := handles
    obtain ⟨answer, answered, same⟩ := Option.map_eq_some_iff.mp ran
    obtain ⟨_, rfl⟩ := Prod.mk.inj same
    rw [eagerGet_sound stores here.of_append.nodup
      (mem_of_lastValue found) answered]
  · obtain ⟨nodes', stores'⟩ := handles_stores stores new may handles
    exact right_of_stores stores' here

/-- The second set of a key goes wrong: `malloc` returns the block that was
freed, with another `val_len`. -/
private theorem not_isMap_of_update {past : List EagerRequest} {key : CString}
    {value : List UInt8} (once : SetsOnce past)
    (present : EagerRequest.latest key past ≠ none) :
    ¬ IsMap (past ++ [.set key value]) := by
  intro isMap
  obtain ⟨s, reached⟩ := exists_reached once
  obtain ⟨nodes, stores⟩ := reached_stores reached once
  obtain ⟨old, found⟩ := Option.ne_none_iff_exists'.mp present
  have isPair := mem_of_lastValue found
  have hits {fuel : Nat} {result : Option Nat}
      (searched : s.findNode key fuel s.kvHead = some result) :
      ∃ address, result = some address := by
    have finds := findNode_sound stores.forward stores.holds searched
    cases result with
    | none => exact absurd rfl (finds (key, old) isPair)
    | some address => exact ⟨address, rfl⟩
  obtain ⟨result, searched⟩ :=
    findNode_isSome key stores.forward stores.holds le_rfl
  obtain ⟨address, rfl⟩ := hits searched
  let block : Block := ⟨address, none, none, value.length + 1, Memory.zero⟩
  have may : s.MayAllocate block (.set key value) :=
    Or.inr ⟨nodes.length, searched⟩
  obtain ⟨⟨s', reply, handles⟩, right⟩ :=
    isMap past (.set key value) [] rfl s block reached may
  obtain ⟨_, _, answers⟩ := right s' reply handles
  have isLatest :
      EagerRequest.latest key (past ++ [.set key value]) = some value := by
    simp [EagerRequest.latest, lastValue_append]
  obtain ⟨fuel', answered⟩ := answers key value isLatest
  obtain ⟨fuel, ran⟩ := handles
  obtain ⟨t, isSet, same⟩ := Option.map_eq_some_iff.mp ran
  obtain ⟨rfl, _⟩ := Prod.mk.inj same
  obtain ⟨result, searched', rest⟩ := Option.bind_eq_some_iff.mp isSet
  obtain ⟨other, rfl⟩ := hits searched'
  obtain ⟨node, isNode, isKey⟩ := findNode_key searched
  obtain ⟨node', isNode', isKey'⟩ := findNode_key searched'
  have inside (address : Nat) (node : KvNode)
      (isNode : s.nodes address = some node) : address ∈ nodes :=
    stores.only address (by rw [isNode]; simp)
  obtain rfl : other = address :=
    holds_unique stores.holds once.nodup (inside _ _ isNode') (inside _ _ isNode)
      isNode' isNode isKey' isKey
  exact eagerGet_replaced stores once.nodup searched'
    (show block.valLen ≠ value.length by simp [block]) rest answered

/-- The eager store is a map along exactly those sequences of requests that
set no key twice. -/
theorem eager_isMap_iff (requests : List EagerRequest) :
    IsMap requests ↔ SetsOnce requests := by
  constructor
  · intro isMap
    induction requests using List.reverseRecOn with
    | nil => exact fun before key value after split => absurd split (by simp)
    | append_singleton past request inductionHypothesis =>
        have once := inductionHypothesis isMap.of_append
        intro before key value after split
        rcases List.eq_nil_or_concat' after with rfl | ⟨front, last, rfl⟩
        · obtain ⟨rfl, same⟩ := List.append_inj' split rfl
          obtain rfl := List.singleton_inj.mp same
          by_contra present
          exact not_isMap_of_update once present isMap
        · refine once before key value front ?_
          have longer : past ++ [request] =
              (before ++ .set key value :: front) ++ [last] := by
            rw [split]
            simp
          exact (List.append_inj' longer rfl).1
  · exact isMap_of_setsOnce

private theorem letter_ne_zero : (97 : UInt8) ≠ 0 := by decide

def oneKey : CString := CString.replicate 1 97 letter_ne_zero

/-- A second value for a key, after which its length is not known. -/
theorem eager_isMap_fails : ¬ IsMap [.set oneKey [1], .set oneKey [2]] := by
  have once : SetsOnce [.set oneKey [1]] := by
    intro before key value after split
    cases before with
    | nil => rfl
    | cons first before =>
        have lengths := congrArg List.length split
        simp at lengths
  exact not_isMap_of_update once (by decide)

end Server

end RdmaKv.Ex3
