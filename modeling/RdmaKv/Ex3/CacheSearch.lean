import RdmaKv.Ex3.RendezvousRuns

/-!
# The searches of the client's cache in `kv_template.c`

`kv_set` has one loop over the cache and `kv_get` two, of which the second one
does not advance.
-/

namespace RdmaKv.Ex3

open ByteMemory

/-- A loop over the nodes from a pointer on, for at most `fuel` steps: the
nodes that it visits, and the one whose key it finds.  `next` is what the body
makes of the pointer when it does not return. -/
def search (next : List CacheNode → List CacheNode) (key : CString) :
    Nat → List CacheNode → Option (List CacheNode × Option CacheNode)
  | _, [] => some ([], none)
  | 0, _ :: _ => none
  | fuel + 1, node :: rest =>
      if node.key = key then some ([node], some node)
      else do
        let (visited, found) ← search next key fuel (next (node :: rest))
        return (node :: visited, found)

/-- The loop of `kv_set`. -/
def kvSetSearch : CString → Nat → List CacheNode →
    Option (List CacheNode × Option CacheNode) := search List.tail

/-- The first loop of `kv_get`. -/
def kvGetFirstSearch : CString → Nat → List CacheNode →
    Option (List CacheNode × Option CacheNode) := search List.tail

/-- The second loop of `kv_get`, which lacks the assignment of the next node. -/
def kvGetSecondSearch : CString → Nat → List CacheNode →
    Option (List CacheNode × Option CacheNode) := search id

def isEager (useRndvProtocol : Bool) (packetSize : Nat) : Bool :=
  !useRndvProtocol && decide (packetSize < eagerProtocolLimit)

namespace RndvCall

def packetSize : RndvCall → Nat
  | set key value =>
      (key.length + 1 + value.length + sizeofPacket) % unsignedRange
  | get key =>
      (key.length % unsignedRange + 1 + sizeofPacket) % unsignedRange

def searches (fuel : Nat) (useRndvProtocol : Bool) (cache : List CacheNode) :
    RndvCall → Option (List (List CacheNode))
  | set key value =>
      if isEager useRndvProtocol (set key value).packetSize then some []
      else do
        let (visited, _) ← kvSetSearch key fuel cache
        return [visited]
  | get key =>
      if useRndvProtocol then do
        let (visited, found) ← kvGetFirstSearch key fuel cache
        if found.isSome then return [visited]
        let (again, _) ← kvGetSecondSearch key fuel cache
        return [visited, again]
      else if isEager useRndvProtocol (get key).packetSize then some []
      else do
        let (again, _) ← kvGetSecondSearch key fuel cache
        return [again]

/-- Every search visits every node at most once and then ends, and all of them
take no more steps than there are nodes. -/
def SearchesEnd (useRndvProtocol : Bool) (cache : List CacheNode)
    (call : RndvCall) : Prop :=
  ∃ visits, call.searches cache.length useRndvProtocol cache = some visits ∧
    (∀ visited ∈ visits, visited.Sublist cache) ∧
    visits.flatten.length ≤ cache.length

/-- The second search of `kv_get` is not entered, or finds the key in the
first node or no node at all. -/
def Avoids (useRndvProtocol : Bool) (cache : List CacheNode) :
    RndvCall → Prop
  | set _ _ => True
  | get key =>
      (useRndvProtocol = true ∧ ∃ node ∈ cache, node.key = key) ∨
        isEager useRndvProtocol (get key).packetSize = true ∨
        ∀ node, cache.head? = some node → node.key = key

end RndvCall

/-! ## One loop -/

section Loops

variable {key : CString} {cache : List CacheNode}

/-- A loop that advances visits the nodes one after the other. -/
private theorem search_tail (key : CString) (cache : List CacheNode) :
    ∃ visited found, search List.tail key cache.length cache =
        some (visited, found) ∧ visited.Sublist cache ∧
      (found.isSome = true ↔ ∃ node ∈ cache, node.key = key) := by
  induction cache with
  | nil => exact ⟨[], none, rfl, .slnil, by simp⟩
  | cons node rest inductionHypothesis =>
      by_cases same : node.key = key
      · refine ⟨[node], some node, by simp [search, same], ?_, by simp [same]⟩
        exact List.singleton_sublist.mpr List.mem_cons_self
      · obtain ⟨visited, found, ran, sublist, finds⟩ := inductionHypothesis
        refine ⟨node :: visited, found, ?_, sublist.cons_cons node, ?_⟩
        · simp [search, same, ran]
        · rw [finds]
          simp [same]

/-- Without the key it finds nothing, however long it runs. -/
private theorem search_tail_missing (missing : ∀ node ∈ cache, node.key ≠ key)
    {fuel : Nat} {visited : List CacheNode} {found : Option CacheNode}
    (ran : search List.tail key fuel cache = some (visited, found)) :
    found = none := by
  induction cache generalizing fuel visited found with
  | nil =>
      cases fuel <;> simp [search] at ran <;> exact ran.2.symm
  | cons node rest inductionHypothesis =>
      cases fuel with
      | zero => exact absurd ran (by simp [search])
      | succ fuel =>
          simp only [search, if_neg (missing node List.mem_cons_self),
            List.tail_cons, Option.bind_eq_bind,
            Option.bind_eq_some_iff] at ran
          obtain ⟨⟨later, result⟩, again, same⟩ := ran
          simp only [Option.pure_def, Option.some.injEq, Prod.mk.injEq] at same
          rw [← same.2]
          exact inductionHypothesis
            (fun other member => missing other (List.mem_cons_of_mem _ member))
            again

/-- The loop that does not advance ends in the first node or never. -/
private theorem search_id {node : CacheNode} {rest : List CacheNode}
    (different : node.key ≠ key) (fuel : Nat) :
    search id key fuel (node :: rest) = none := by
  induction fuel with
  | zero => rfl
  | succ fuel inductionHypothesis =>
      rw [search, if_neg different, id_eq, inductionHypothesis]
      rfl

private theorem search_id_first
    (first : ∀ node, cache.head? = some node → node.key = key) :
    ∃ visited found, search id key cache.length cache =
      some (visited, found) ∧ visited.Sublist cache := by
  cases cache with
  | nil => exact ⟨[], none, rfl, .slnil⟩
  | cons node rest =>
      have same : node.key = key := first node rfl
      exact ⟨[node], some node, by simp [search, same],
        List.singleton_sublist.mpr List.mem_cons_self⟩

end Loops

/-! ## The searches of a call -/

namespace RndvCall

variable {useRndvProtocol : Bool} {cache : List CacheNode} {key : CString}

private theorem set_searchesEnd (value : CString) :
    (set key value).SearchesEnd useRndvProtocol cache := by
  simp only [SearchesEnd, searches]
  split
  · exact ⟨[], rfl, by simp, Nat.zero_le _⟩
  · obtain ⟨visited, found, ran, sublist, _⟩ := search_tail key cache
    refine ⟨[visited], by simp [kvSetSearch, ran], by simpa using sublist, ?_⟩
    simpa using sublist.length_le

private theorem get_searchesEnd
    (avoids : (get key).Avoids useRndvProtocol cache) :
    (get key).SearchesEnd useRndvProtocol cache := by
  unfold SearchesEnd searches
  obtain ⟨visited, found, ran, sublist, finds⟩ := search_tail key cache
  cases useRndvProtocol with
  | true =>
      by_cases isFound : ∃ node ∈ cache, node.key = key
      · refine ⟨[visited], ?_, by simpa using sublist,
          by simpa using sublist.length_le⟩
        simp [kvGetFirstSearch, ran, finds.mpr isFound]
      · have first : ∀ node, cache.head? = some node → node.key = key := by
          rcases avoids with ⟨_, isFound'⟩ | eager | first
          · exact absurd isFound' isFound
          · exact absurd eager (by simp [isEager])
          · exact first
        -- the first node would have been found before
        have empty : cache = [] := by
          cases cache with
          | nil => rfl
          | cons node rest =>
              exact absurd ⟨node, List.mem_cons_self, first node rfl⟩ isFound
        subst empty
        exact ⟨[[], []], rfl, by simp, Nat.le_refl _⟩
  | false =>
      by_cases eager : isEager false (get key).packetSize = true
      · exact ⟨[], by simp [eager], by simp, Nat.zero_le _⟩
      · have first : ∀ node, cache.head? = some node → node.key = key := by
          rcases avoids with ⟨rndv, _⟩ | isEager | first
          · exact absurd rndv (by simp)
          · exact absurd isEager eager
          · exact first
        obtain ⟨again, found, ran, sublist⟩ := search_id_first first
        refine ⟨[again], ?_, by simpa using sublist,
          by simpa using sublist.length_le⟩
        simp [eager, kvGetSecondSearch, ran]

/-- A `kv_get` that does not avoid the second search never leaves it. -/
private theorem get_searches_none
    (enters : ¬ (get key).Avoids useRndvProtocol cache)
    (fuel : Nat) : (get key).searches fuel useRndvProtocol cache = none := by
  unfold Avoids at enters
  push Not at enters
  obtain ⟨absent, notEager, node, first, different⟩ := enters
  obtain ⟨rest, rfl⟩ : ∃ rest, cache = node :: rest := by
    cases cache with
    | nil => exact absurd first (by simp)
    | cons other rest =>
        obtain rfl := Option.some.inj first
        exact ⟨rest, rfl⟩
  have stuck := @search_id key node rest different fuel
  cases useRndvProtocol with
  | false => simp [searches, notEager, kvGetSecondSearch, stuck]
  | true =>
      simp only [searches, if_true, kvGetFirstSearch, kvGetSecondSearch, stuck,
        Option.bind_eq_bind]
      refine Option.bind_eq_none_iff.mpr fun (visited, found) ran => ?_
      simp [search_tail_missing (absent rfl) ran]

/-- The searches of a call end exactly if it avoids the second search of
`kv_get`. -/
theorem searchesEnd_iff (useRndvProtocol : Bool) (cache : List CacheNode)
    (call : RndvCall) :
    call.SearchesEnd useRndvProtocol cache ↔
      call.Avoids useRndvProtocol cache := by
  cases call with
  | set key value => exact iff_of_true (set_searchesEnd value) trivial
  | get key =>
      refine ⟨fun ends => ?_, get_searchesEnd⟩
      by_contra enters
      obtain ⟨visits, ran, _⟩ := ends
      rw [get_searches_none enters] at ran
      exact absurd ran (by simp)

/-- After one `kv_set`, `kv_get` of another key does not return. -/
theorem searchesEnd_fails :
    ¬ ∀ remoteBuf calls s,
      performAll calls (System.init remoteBuf) = some s →
        ∀ useRndvProtocol call,
          SearchesEnd useRndvProtocol s.client.cacheNodes call := by
  intro always
  have built : ∃ s, performAll [set oneKey oneKey]
      (System.init Memory.zero) = some s ∧
        s.client.cacheNodes.map CacheNode.key = [oneKey] := ⟨_, rfl, rfl⟩
  obtain ⟨s, ran, keys⟩ := built
  obtain ⟨visits, searched, _⟩ :=
    always Memory.zero _ s ran true (get CString.empty)
  obtain ⟨node, cached, isKey⟩ := List.map_eq_singleton_iff.mp keys
  rw [cached, get_searches_none ?_ _] at searched
  · exact absurd searched (by simp)
  · have other : oneKey ≠ CString.empty := by decide
    simpa [Avoids, isEager, isKey] using other

end RndvCall

end RdmaKv.Ex3
