import RdmaKv.Ex4.EntryFree
import RdmaKv.Ex4.Sessions

/-!
# Sessions of the server in its heap

Requests and maintenance on the pointers do what they do on the list of
entries, over whole sessions and in both directions.
-/

namespace RdmaKv

/-! ## The pool does not look at the entries -/

namespace Server

variable {entries : List KvEntry} {counter : Nat}

def withEntries (s : Server) (entries : List KvEntry) (counter : Nat) :
    Server :=
  { s with entries := entries, entriesCounter := counter }

private theorem recycleTainted_withEntries (fuel : Nat) (s : Server) :
    recycleTainted fuel (s.withEntries entries counter) =
      (recycleTainted fuel s).map fun s => s.withEntries entries counter := by
  induction fuel generalizing s with
  | zero =>
      unfold recycleTainted
      have same : (s.withEntries entries counter).taintedMemPoolHead =
        s.taintedMemPoolHead := rfl
      rw [same]
      cases s.taintedMemPoolHead <;> rfl
  | succ fuel inductionHypothesis =>
      unfold recycleTainted
      have same : (s.withEntries entries counter).taintedMemPoolHead =
        s.taintedMemPoolHead := rfl
      rw [same]
      cases s.taintedMemPoolHead with
      | none => rfl
      | some node =>
          simp only
          rw [← inductionHypothesis]
          cases isTail : s.memPoolTail with
          | none =>
              have tail : ((s.withEntries entries counter).setRndvBuffer node
                ByteMemory.Memory.zero).memPoolTail = none := isTail
              have tail' : (s.setRndvBuffer node
                ByteMemory.Memory.zero).memPoolTail = none := isTail
              simp only [tail, tail']
              rfl
          | some last =>
              have tail : ((s.withEntries entries counter).setRndvBuffer node
                ByteMemory.Memory.zero).memPoolTail = some last := isTail
              have tail' : (s.setRndvBuffer node
                ByteMemory.Memory.zero).memPoolTail = some last := isTail
              simp only [tail, tail']
              rfl

private theorem linkFresh_withEntries (s : Server) (node : Nat) :
    (s.withEntries entries counter).linkFresh node =
      (s.linkFresh node).map fun s => s.withEntries entries counter := by
  have sameSize : (s.withEntries entries counter).poolSize = s.poolSize := rfl
  have sameTail : (s.withEntries entries counter).memPoolTail =
    s.memPoolTail := rfl
  unfold linkFresh
  rw [sameSize, sameTail]
  split
  · rfl
  · cases s.memPoolTail <;> rfl

private theorem growPool_withEntries (regMr : Nat → Option IbvMr) (s : Server) :
    (s.withEntries entries counter).growPool regMr =
      (s.growPool regMr).map fun s => s.withEntries entries counter := by
  have linked := @linkFresh_withEntries entries counter
    { s with mallocs := s.mallocs + 1 } s.mallocs
  have same : ({ s.withEntries entries counter with
      mallocs := (s.withEntries entries counter).mallocs + 1 } : Server).linkFresh
        (s.withEntries entries counter).mallocs =
      (({ s with mallocs := s.mallocs + 1 } : Server).linkFresh
        s.mallocs).map fun s => s.withEntries entries counter := linked
  unfold growPool
  rw [same]
  cases ({ s with mallocs := s.mallocs + 1 } : Server).linkFresh s.mallocs with
  | none => rfl
  | some grown =>
      have sameMr : regMr (s.withEntries entries counter).mallocs =
        regMr s.mallocs := rfl
      simp only [Option.map_some, Option.bind_eq_bind, Option.bind_some, sameMr]
      cases regMr s.mallocs <;> rfl

private theorem fillPool_withEntries (regMr : Nat → Option IbvMr) (rounds : Nat)
    (s : Server) :
    fillPool regMr rounds (s.withEntries entries counter) =
      (fillPool regMr rounds s).map fun s => s.withEntries entries counter := by
  induction rounds generalizing s with
  | zero => rfl
  | succ rounds inductionHypothesis =>
      unfold fillPool
      have same : (s.withEntries entries counter).poolSize = s.poolSize := rfl
      rw [same, growPool_withEntries]
      split
      · cases s.growPool regMr with
        | none => rfl
        | some grown => exact inductionHypothesis grown
      · rfl

private theorem maintainPool_withEntries (regMr : Nat → Option IbvMr)
    (s : Server) :
    maintainPool regMr (s.withEntries entries counter) =
      (maintainPool regMr s).map fun s => s.withEntries entries counter := by
  have same : (s.withEntries entries counter).mallocs = s.mallocs := rfl
  unfold maintainPool
  rw [same, recycleTainted_withEntries]
  cases recycleTainted (s.mallocs + 1) s with
  | none => rfl
  | some recycled => exact fillPool_withEntries regMr _ recycled

/-- The pool is filled before there are entries. -/
private theorem withEntries_of_start {regMr : Nat → Option IbvMr} {s : Server}
    (started : start regMr = some s) : s.withEntries [] 0 = s := by
  have same := @maintainPool_withEntries [] 0 regMr init
  have initial : init.withEntries [] 0 = init := rfl
  have filled : maintainPool regMr init = some s := started
  rw [initial, filled] at same
  exact (Option.some.inj same).symm

end Server

/-! ## Sessions -/

/-- A request, what the calls of `malloc` and `calloc` return while it is
handled, and a bound for the entries that are searched. -/
structure Handling where
  request : Request
  mallocs : Mallocs
  fuel : Nat

namespace EntryServer

variable {regMr : Nat → Option IbvMr} {s s' : EntryServer} {cells : List Cell}
  {replies : List (Option (Packet × Nat))}

/-- One round of `pp_wait_completions`: a request is handled and the pool
maintained. -/
def serve (regMr : Nat → Option IbvMr) (s : EntryServer)
    (handling : Handling) :
    Option (EntryServer × Option (Packet × Nat)) := do
  let (s, reply) ← s.handleServerPacketsOnly handling.fuel handling.mallocs
    handling.request.packet
  let globals ← Server.maintainPool regMr s.globals
  return ({ s with globals := globals }, reply)

def serveAll (regMr : Nat → Option IbvMr) :
    EntryServer → List Handling →
      Option (EntryServer × List (Option (Packet × Nat)))
  | s, [] => some (s, [])
  | s, handling :: handlings => do
      let (s, reply) ← s.serve regMr handling
      let (s, replies) ← serveAll regMr s handlings
      return (s, reply :: replies)

def session (regMr : Nat → Option IbvMr) (handlings : List Handling) :
    Option (EntryServer × List (Option (Packet × Nat))) := do
  let globals ← Server.start regMr
  serveAll regMr (start globals) handlings

private theorem maintainPool_view (s : EntryServer) (cells : List Cell) :
    Server.maintainPool regMr (s.view cells) =
      (Server.maintainPool regMr s.globals).map fun globals =>
        { s with globals := globals }.view cells :=
  Server.maintainPool_withEntries regMr s.globals

theorem Listed.setGlobals (listed : s.Listed cells) (globals : Server) :
    { s with globals := globals }.Listed cells :=
  ⟨listed.linked, listed.counted, listed.shown, listed.apart⟩

/-- The fields of a node and its blocks say what the entry is. -/
private theorem entry_eq {c c' : Cell} {node : EntryNode}
    {chars : Heap CharBlock} (shows' : c.Shows chars node)
    (other : c'.Shows chars node) : c.entry = c'.entry := by
  have sameKey : c.entry.key = c'.entry.key := by
    obtain ⟨block, isBlock, isKey⟩ := shows'.isKey
    obtain ⟨block', isBlock', isKey'⟩ := other.isKey
    rw [← Option.some.inj (shows'.key.symm.trans other.key), isBlock]
      at isBlock'
    rw [← Option.some.inj isBlock', isKey] at isKey'
    exact Option.some.inj isKey'
  have sameValueAt : c.valueAt = c'.valueAt :=
    shows'.value.symm.trans other.value
  have sameValue : c.entry.value = c'.entry.value := by
    cases isValue : c.valueAt with
    | none =>
        rw [shows'.noValue isValue,
          other.noValue (sameValueAt.symm.trans isValue)]
    | some address =>
        obtain ⟨block, isBlock, content⟩ := shows'.isValue address isValue
        obtain ⟨block', isBlock', content'⟩ :=
          other.isValue address (sameValueAt.symm.trans isValue)
        rw [content, content', Option.some.inj (isBlock.symm.trans isBlock')]
  have sameKeyLen := shows'.keyLen.symm.trans other.keyLen
  have sameValLen := shows'.valLen.symm.trans other.valLen
  have sameLarge := shows'.large.symm.trans other.large
  obtain ⟨_, _, _, ⟨_, _, _, _, _⟩⟩ := c
  obtain ⟨_, _, _, ⟨_, _, _, _, _⟩⟩ := c'
  simp_all

/-- The pointers make one list. -/
theorem Listed.view_eq {cells' : List Cell} (listed : s.Listed cells)
    (listed' : s.Listed cells') : s.view cells = s.view cells' := by
  have addresses := listed.linked.forward.unique listed'.linked.forward
  have lengths : cells.length = cells'.length := by
    simpa using congrArg List.length addresses
  have entries : cells.map Cell.entry = cells'.map Cell.entry := by
    apply List.ext_getElem
    · simpa using lengths
    · intro i inside inside'
      simp only [List.length_map] at inside inside'
      rw [List.getElem_map, List.getElem_map]
      have same : cells[i].address = cells'[i].address := by
        have here := congrArg (fun list => list[i]?) addresses
        simpa [inside, inside'] using here
      obtain ⟨node, isNode, shows'⟩ :=
        listed.shown cells[i] (List.getElem_mem inside)
      obtain ⟨node', isNode', other⟩ :=
        listed'.shown cells'[i] (List.getElem_mem inside')
      rw [← same, isNode] at isNode'
      obtain rfl := Option.some.inj isNode'
      exact entry_eq shows' other
  rw [view, view, entries]

/-- One request on the heap is one on the list. -/
private theorem serve_refines {handling : Handling}
    {reply : Option (Packet × Nat)}
    (listed : s.Listed cells)
    (ran : s.serve regMr handling = some (s', reply)) :
    ∃ cells', s'.Listed cells' ∧
      (s.view cells).serve regMr handling.request.packet =
        some (s'.view cells', reply) := by
  obtain ⟨⟨t, answer⟩, handled, later⟩ := Option.bind_eq_some_iff.mp ran
  obtain ⟨globals, maintained, same⟩ := Option.bind_eq_some_iff.mp later
  obtain ⟨rfl, rfl⟩ := Prod.mk.inj (Option.some.inj same)
  obtain ⟨cells', listed', refined⟩ := handle_refines listed handled
  refine ⟨cells', listed'.setGlobals globals, ?_⟩
  have filled : Server.maintainPool regMr t.globals = some globals :=
    maintained
  simp only [Server.serve, refined, maintainPool_view, filled,
    Option.bind_eq_bind, Option.bind_some, Option.map_some, Option.pure_def]

private theorem serveAll_refines {handlings : List Handling}
    (listed : s.Listed cells)
    (ran : s.serveAll regMr handlings = some (s', replies)) :
    ∃ cells', s'.Listed cells' ∧
      Server.serveAll regMr (s.view cells)
          (handlings.map Handling.request) =
        some (s'.view cells', replies) := by
  induction handlings generalizing s cells replies with
  | nil =>
      obtain ⟨rfl, rfl⟩ := Prod.mk.inj (Option.some.inj ran)
      exact ⟨cells, listed, rfl⟩
  | cons handling handlings inductionHypothesis =>
      obtain ⟨⟨t, reply⟩, served, later⟩ := Option.bind_eq_some_iff.mp ran
      obtain ⟨⟨u, rest⟩, further, same⟩ := Option.bind_eq_some_iff.mp later
      obtain ⟨rfl, rfl⟩ := Prod.mk.inj (Option.some.inj same)
      obtain ⟨middle, listed', refined⟩ := serve_refines listed served
      obtain ⟨cells', listed'', refined'⟩ := inductionHypothesis listed' further
      exact ⟨cells', listed'', Server.serveAll_cons_eq_some_iff.mpr
        ⟨_, _, _, refined, refined', rfl⟩⟩

/-- A request that the list serves, the heap serves wherever the new blocks
are. -/
private theorem exists_serve {request : Request} {t : Server}
    {reply : Option (Packet × Nat)} {mallocs : Mallocs}
    (listed : s.Listed cells) (fresh : mallocs.Fresh s)
    (ran : (s.view cells).serve regMr request.packet = some (t, reply)) :
    ∃ s' cells', s.serve regMr ⟨request, mallocs, cells.length⟩ =
        some (s', reply) ∧ s'.Listed cells' ∧ s'.view cells' = t := by
  obtain ⟨⟨middle, answer⟩, handled, later⟩ := Option.bind_eq_some_iff.mp ran
  obtain ⟨after, maintained, same⟩ := Option.bind_eq_some_iff.mp later
  obtain ⟨rfl, rfl⟩ := Prod.mk.inj (Option.some.inj same)
  have returns := (handle_isSome_iff listed le_rfl fresh request.packet).mpr
    (Option.isSome_of_eq_some handled)
  obtain ⟨⟨s', reply'⟩, ran'⟩ := Option.isSome_iff_exists.mp returns
  obtain ⟨cells', listed', refined⟩ := handle_refines listed ran'
  obtain ⟨rfl, rfl⟩ := Prod.mk.inj (Option.some.inj (handled.symm.trans refined))
  obtain ⟨globals, filled, rfl⟩ := Option.map_eq_some_iff.mp
    ((maintainPool_view s' cells').symm.trans maintained)
  refine ⟨_, cells', ?_, listed'.setGlobals globals, rfl⟩
  simp only [serve, ran', filled, Option.bind_eq_bind, Option.bind_some,
    Option.pure_def]

private theorem within_serve {handling : Handling} {bound : Nat}
    {reply : Option (Packet × Nat)} (within : s.Within bound)
    (below : handling.mallocs.Below bound)
    (ran : s.serve regMr handling = some (s', reply)) : s'.Within bound := by
  obtain ⟨⟨t, answer⟩, handled, later⟩ := Option.bind_eq_some_iff.mp ran
  obtain ⟨globals, _, same⟩ := Option.bind_eq_some_iff.mp later
  obtain ⟨rfl, rfl⟩ := Prod.mk.inj (Option.some.inj same)
  have within' := within_handle within below handled
  exact ⟨within'.kvEntries, within'.chars⟩

private theorem exists_serveAll {requests : List Request} {t : Server}
    {bound : Nat}
    (listed : s.Listed cells) (within : s.Within bound)
    (ran : Server.serveAll regMr (s.view cells) requests = some (t, replies)) :
    ∃ handlings s' cells', handlings.map Handling.request = requests ∧
      s.serveAll regMr handlings = some (s', replies) ∧ s'.Listed cells' ∧
      s'.view cells' = t := by
  induction requests generalizing s cells replies bound with
  | nil =>
      obtain ⟨rfl, rfl⟩ := Prod.mk.inj (Option.some.inj ran)
      exact ⟨[], s, cells, rfl, rfl, listed, rfl⟩
  | cons request requests inductionHypothesis =>
      obtain ⟨middle, reply, rest, served, later, rfl⟩ :=
        Server.serveAll_cons_eq_some_iff.mp ran
      obtain ⟨s', cells', served', listed', rfl⟩ :=
        exists_serve listed (above_fresh within) served
      have wider : s.Within (bound + 2) :=
        ⟨fun address live => (within.kvEntries address live).trans
          (Nat.lt_add_of_pos_right Nat.zero_lt_two),
        fun address live => (within.chars address live).trans
          (Nat.lt_add_of_pos_right Nat.zero_lt_two)⟩
      obtain ⟨handlings, last, lastCells, isRequests, ran', listed'', isView⟩ :=
        inductionHypothesis listed'
          (within_serve wider (above_below bound) served') later
      refine ⟨⟨request, above bound, cells.length⟩ :: handlings, last,
        lastCells, by simp [isRequests], ?_, listed'', isView⟩
      simp only [serveAll, served', ran', Option.bind_eq_bind,
        Option.bind_some, Option.pure_def]

/-- The server with its pointers and the one with a list of entries have the
same sessions: the same replies, and at the end the list that the pointers
make. -/
theorem session_iff {requests : List Request} {t : Server} :
    Server.session regMr requests = some (t, replies) ↔
      ∃ handlings s cells, handlings.map Handling.request = requests ∧
        session regMr handlings = some (s, replies) ∧ s.Listed cells ∧
        s.view cells = t := by
  constructor
  · intro ran
    obtain ⟨globals, started, served⟩ := Option.bind_eq_some_iff.mp ran
    rw [← Server.withEntries_of_start started] at served
    have within : (start globals).Within 0 :=
      ⟨fun _ live => absurd rfl live, fun _ live => absurd rfl live⟩
    obtain ⟨handlings, s, cells, isRequests, ran', listed, isView⟩ :=
      exists_serveAll (listed_start globals) within served
    exact ⟨handlings, s, cells, isRequests,
      Option.bind_eq_some_iff.mpr ⟨globals, started, ran'⟩, listed, isView⟩
  · rintro ⟨handlings, s, cells, rfl, ran, listed, rfl⟩
    obtain ⟨globals, started, served⟩ := Option.bind_eq_some_iff.mp ran
    obtain ⟨cells', listed', refined⟩ :=
      serveAll_refines (listed_start globals) served
    rw [listed.view_eq listed']
    refine Option.bind_eq_some_iff.mpr ⟨globals, started, ?_⟩
    rw [← Server.withEntries_of_start started]
    exact refined

end EntryServer

end RdmaKv
