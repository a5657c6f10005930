import RdmaKv.Ex4.Atomic
import RdmaKv.Ex4.Ledger

/-!
# The ledger follows the servers

Between two calls of a client the ledger describes the servers that act at
once and the client's cache.  What the operations do to the servers, the
functions of the ledger do to the ledger.
-/

namespace RdmaKv

open ByteMemory

/-- What a store has under a key. -/
def Store.Keeps (store : Store) (key : CString) : Option Kept → Prop
  | none => store.find key = none
  | some (.inline value) => store.find key = some (.eager value)
  | some (.buffer valueLength contents) =>
      ∃ remote, store.find key = some (.rendezvous valueLength remote) ∧
        store.region remote = contents

def Store.Separate (store : Store) : Prop :=
  ∀ key other valueLength length remote,
    store.find key = some (.rendezvous valueLength remote) →
      store.find other = some (.rendezvous length remote) → key = other

/-- The ledger's view of one server between two calls. -/
structure PeerTracks (held : CString → Option Kept) (broken : Bool)
    (peer : Peer) : Prop where
  quiet : peer.waiting = none
  broken : peer.broken = broken
  keeps : ∀ key, peer.store.Keeps key (held key)
  separate : peer.store.Separate

/-- The ledger's view of the client's cache. -/
def CacheTracks (ledger : Ledger) (client : Client) (a : Atomic) : Prop :=
  match ledger.cached with
  | none => client.lastRndvAccessedKey = CString.empty
  | some (id, key) =>
      client.lastRndvAccessedKey = key ∧
        client.lastAccessedKeyValLength = ledger.cachedLength ∧
        ∃ valueLength, (a.peers id).store.find key =
          some (.rendezvous valueLength client.lastAccessedServer)

structure Tracks (ledger : Ledger) (client : Client) (a : Atomic) : Prop where
  peers : ∀ id,
    PeerTracks (ledger.held id) (ledger.broken id) (a.peers id)
  indexerQuiet : a.indexerWaiting = none
  indexerIntact : a.indexerBroken = false
  cache : CacheTracks ledger client a

/-! ## The functions of the ledger -/

namespace Ledger

variable {ledger : Ledger} {id : Nat} {key : CString}

@[simp]
theorem cached_put (kept : Kept) :
    (ledger.put id key kept).cached = ledger.cached := rfl

@[simp]
theorem broken_put (kept : Kept) :
    (ledger.put id key kept).broken = ledger.broken := rfl

@[simp]
theorem cachedLength_put (kept : Kept) :
    (ledger.put id key kept).cachedLength = ledger.cachedLength := rfl

@[simp]
theorem held_put_self (kept : Kept) :
    (ledger.put id key kept).held id key = some kept :=
  if_pos ⟨rfl, rfl⟩

theorem held_put_other (kept : Kept) {server : Nat} {other : CString}
    (different : ¬ (server = id ∧ other = key)) :
    (ledger.put id key kept).held server other = ledger.held server other :=
  if_neg different

theorem isCached_iff :
    ledger.isCached key = true ↔ ∃ server, ledger.cached = some (server, key) := by
  unfold isCached
  cases ledger.cached with
  | none => simp
  | some cached =>
      obtain ⟨server, other⟩ := cached
      simp

@[simp]
theorem isCached_put (kept : Kept) (server : Nat) (other : CString) :
    (ledger.put server other kept).isCached key = ledger.isCached key := rfl

theorem isCached_invalidate : (ledger.invalidate key).isCached key = false := by
  unfold invalidate
  split
  · rfl
  · rename_i absent
    simpa using absent

@[simp]
theorem held_invalidate : (ledger.invalidate key).held = ledger.held := by
  unfold invalidate
  split <;> rfl

@[simp]
theorem broken_invalidate : (ledger.invalidate key).broken = ledger.broken := by
  unfold invalidate
  split <;> rfl

end Ledger

/-! ## Small facts -/

variable {ledger : Ledger} {client : Client} {a : Atomic} {id : Nat}
  {key : CString}

theorem Tracks.setBuf (tracks : Tracks ledger client a) (conn : Conn)
    (buf : Memory) : Tracks ledger (client.setBuf conn buf) a :=
  ⟨tracks.peers, tracks.indexerQuiet, tracks.indexerIntact, tracks.cache⟩

/-- The `strcmp` with the cached key. -/
theorem Tracks.isCached (tracks : Tracks ledger client a)
    (usable : ledger.Usable id key) :
    key = client.lastRndvAccessedKey ↔ ledger.isCached key = true := by
  have cache := tracks.cache
  unfold CacheTracks at cache
  unfold Ledger.Usable at usable
  unfold Ledger.isCached
  cases cached : ledger.cached with
  | none =>
      rw [cached] at cache usable
      simp only [cache, Bool.false_eq_true, iff_false]
      exact usable
  | some pair =>
      obtain ⟨server, other⟩ := pair
      rw [cached] at cache
      simp only [cache.1, decide_eq_true_eq]
      exact eq_comm

/-- What is cached, where it may be used. -/
theorem Tracks.cached (tracks : Tracks ledger client a)
    (usable : ledger.Usable id key) (hit : ledger.isCached key = true) :
    client.lastAccessedKeyValLength = ledger.cachedLength ∧
      ∃ valueLength, (a.peers id).store.find key =
        some (.rendezvous valueLength client.lastAccessedServer) := by
  obtain ⟨server, cached⟩ := Ledger.isCached_iff.mp hit
  have cache := tracks.cache
  unfold CacheTracks at cache
  unfold Ledger.Usable at usable
  rw [cached] at cache usable
  obtain rfl := usable rfl
  exact cache.2

/-- The ledger knows that a key is missing. -/
theorem PeerTracks.absent {held : CString → Option Kept} {broken : Bool}
    {peer : Peer} (tracks : PeerTracks held broken peer)
    (missing : peer.store.find key = none) : held key = none := by
  have keeps := tracks.keeps key
  cases holds : held key with
  | none => rfl
  | some kept =>
      rw [holds] at keeps
      cases kept with
      | inline value => exact absurd (missing.symm.trans keeps) (by simp)
      | buffer length contents =>
          obtain ⟨remote, found, _⟩ := keeps
          exact absurd (missing.symm.trans found) (by simp)

/-- The ledger knows the value of a key. -/
theorem PeerTracks.inline {held : CString → Option Kept} {broken : Bool}
    {peer : Peer} (tracks : PeerTracks held broken peer) {value : List UInt8}
    (present : peer.store.find key = some (.eager value)) :
    held key = some (.inline value) := by
  have keeps := tracks.keeps key
  cases holds : held key with
  | none =>
      rw [holds] at keeps
      exact absurd (present.symm.trans keeps) (by simp)
  | some kept =>
      rw [holds] at keeps
      cases kept with
      | inline other =>
          have same := present.symm.trans keeps
          rw [Stored.eager.inj (Option.some.inj same)]
      | buffer length contents =>
          obtain ⟨remote, found, _⟩ := keeps
          exact absurd (present.symm.trans found) (by simp)

/-- The ledger knows the buffer of a key. -/
theorem PeerTracks.buffer {held : CString → Option Kept} {broken : Bool}
    {peer : Peer} (tracks : PeerTracks held broken peer)
    {valueLength : Nat} {remote : IbvMr}
    (found : peer.store.find key = some (.rendezvous valueLength remote)) :
    held key = some (.buffer valueLength (peer.store.region remote)) := by
  have keeps := tracks.keeps key
  cases holds : held key with
  | none =>
      rw [holds] at keeps
      exact absurd (found.symm.trans keeps) (by simp)
  | some kept =>
      rw [holds] at keeps
      cases kept with
      | inline value => exact absurd (found.symm.trans keeps) (by simp)
      | buffer length contents =>
          obtain ⟨other, found', region⟩ := keeps
          rw [found] at found'
          obtain ⟨rfl, rfl⟩ := Stored.rendezvous.inj (Option.some.inj found')
          rw [region]

theorem Tracks.sentLength (tracks : Tracks ledger client a)
    {valueLength : Nat} {remote : IbvMr}
    (found : (a.peers id).store.find key =
      some (.rendezvous valueLength remote)) :
    ledger.sentLength id key = valueLength ∧
      ledger.contents id key = (a.peers id).store.region remote := by
  have holds := (tracks.peers id).buffer found
  simp [Ledger.sentLength, Ledger.contents, holds]

/-! ## Steps -/

/-- Something happened on one server. -/
theorem Tracks.update (tracks : Tracks ledger client a) {ledger' : Ledger}
    {client' : Client} {peer : Peer}
    (here : PeerTracks (ledger'.held id) (ledger'.broken id) peer)
    (held : ∀ server, server ≠ id → ledger'.held server = ledger.held server)
    (broken : ∀ server, server ≠ id →
      ledger'.broken server = ledger.broken server)
    (cache : CacheTracks ledger' client' (a.setPeer id peer)) :
    Tracks ledger' client' (a.setPeer id peer) := by
  refine ⟨fun server => ?_, tracks.indexerQuiet, tracks.indexerIntact, cache⟩
  by_cases same : server = id
  · subst same
    rw [Atomic.peers_setPeer]
    exact here
  · have other : (a.setPeer id peer).peers server = a.peers server :=
      if_neg same
    rw [other, held server same, broken server same]
    exact tracks.peers server

/-- The cache stays valid if no buffer that it addresses goes away. -/
theorem CacheTracks.of_setPeer {ledger' : Ledger} {client' : Client}
    {peer : Peer} (cache : CacheTracks ledger client a)
    (cached : ledger'.cached = ledger.cached)
    (length : ledger'.cachedLength = ledger.cachedLength)
    (tag : client'.lastRndvAccessedKey = client.lastRndvAccessedKey)
    (valLength : client'.lastAccessedKeyValLength =
      client.lastAccessedKeyValLength)
    (server : client'.lastAccessedServer = client.lastAccessedServer)
    (found : ∀ other valueLength remote, ledger.cached = some (id, other) →
      (a.peers id).store.find other =
          some (.rendezvous valueLength remote) →
        ∃ length, peer.store.find other = some (.rendezvous length remote)) :
    CacheTracks ledger' client' (a.setPeer id peer) := by
  unfold CacheTracks at cache ⊢
  rw [cached, length, tag, valLength, server]
  cases cachedKey : ledger.cached with
  | none =>
      rw [cachedKey] at cache
      exact cache
  | some pair =>
      obtain ⟨other, otherKey⟩ := pair
      rw [cachedKey] at cache
      obtain ⟨isTag, isLength, valueLength, here⟩ := cache
      refine ⟨isTag, isLength, ?_⟩
      by_cases same : other = id
      · subst same
        rw [Atomic.peers_setPeer]
        exact found otherKey valueLength _ cachedKey here
      · have kept : (a.setPeer id peer).peers other = a.peers other :=
          if_neg same
        rw [kept]
        exact ⟨valueLength, here⟩

/-- The cache is emptied if it holds the key. -/
theorem Tracks.invalidate (tracks : Tracks ledger client a)
    (key : CString) :
    Tracks (ledger.invalidate key) (client.invalidate key) a := by
  refine ⟨fun server => ?_, tracks.indexerQuiet, tracks.indexerIntact, ?_⟩
  · rw [Ledger.held_invalidate, Ledger.broken_invalidate]
    exact tracks.peers server
  · have cache := tracks.cache
    unfold CacheTracks at cache ⊢
    unfold Ledger.invalidate Ledger.isCached Client.invalidate
    cases cached : ledger.cached with
    | none =>
        rw [cached] at cache
        simp only [Bool.false_eq_true, if_false, cached]
        split
        · rfl
        · exact cache
    | some pair =>
        obtain ⟨server, other⟩ := pair
        rw [cached] at cache
        by_cases same : other = key
        · simp [same, cache.1]
        · have different : ¬ key = client.lastRndvAccessedKey := by
            rw [cache.1]
            exact fun equal => same equal.symm
          simp only [same, decide_false, Bool.false_eq_true, if_false,
            cached, different]
          exact cache

/-- A connection breaks. -/
theorem Tracks.breaks (tracks : Tracks ledger client a) :
    Tracks (ledger.breakLink id) client (a.breakPeer id) := by
  have here := tracks.peers id
  refine tracks.update ⟨here.quiet, ?_, here.keeps, here.separate⟩
    (fun server _ => rfl) (fun server different => if_neg different)
    (tracks.cache.of_setPeer rfl rfl rfl rfl rfl
      fun other valueLength remote _ found => ⟨valueLength, found⟩)
  simp [Ledger.breakLink]

theorem Tracks.broken (tracks : Tracks ledger client a)
    (broken : ledger.broken id = true) :
    Tracks ledger client (a.breakPeer id) := by
  have here := tracks.peers id
  exact tracks.update ⟨here.quiet, broken.symm, here.keeps, here.separate⟩
    (fun server _ => rfl) (fun server _ => rfl)
    (tracks.cache.of_setPeer rfl rfl rfl rfl rfl
      fun other valueLength remote _ found => ⟨valueLength, found⟩)

/-- A key is set on a server: its other keys, their buffers and the
connection stay as they were. -/
theorem Tracks.put (tracks : Tracks ledger client a) {peer : Peer}
    {kept : Kept} (quiet : peer.waiting = none)
    (intact : peer.broken = (a.peers id).broken)
    (keeps : peer.store.Keeps key (some kept))
    (others : ∀ other, other ≠ key →
      peer.store.find other = (a.peers id).store.find other)
    (apart : ∀ other valueLength length remote, other ≠ key →
      (a.peers id).store.find other =
          some (.rendezvous valueLength remote) →
        peer.store.region remote = (a.peers id).store.region remote ∧
          peer.store.find key ≠ some (.rendezvous length remote))
    (cached : ledger.isCached key = true →
      ∃ valueLength contents, kept = .buffer valueLength contents ∧
        ∀ old remote,
          (a.peers id).store.find key = some (.rendezvous old remote) →
            peer.store.find key = some (.rendezvous valueLength remote)) :
    Tracks (ledger.put id key kept) client (a.setPeer id peer) := by
  have here := tracks.peers id
  refine tracks.update
    ⟨quiet, intact.trans here.broken, fun other => ?_, ?_⟩
    (fun server different => ?_) (fun server _ => rfl)
    (tracks.cache.of_setPeer rfl rfl rfl rfl rfl
      fun other valueLength remote here' found => ?_)
  · by_cases same : other = key
    · subst same
      rw [Ledger.held_put_self]
      exact keeps
    · rw [Ledger.held_put_other _ fun both => same both.2]
      have before := here.keeps other
      cases holds : ledger.held id other with
      | none =>
          rw [holds] at before
          exact (others other same).trans before
      | some old =>
          rw [holds] at before
          cases old with
          | inline value => exact (others other same).trans before
          | buffer length contents =>
              obtain ⟨remote, found, region⟩ := before
              exact ⟨remote, (others other same).trans found,
                (apart other length length remote same found).1.trans region⟩
  · intro first second length length' remote found found'
    by_cases isFirst : first = key <;> by_cases isSecond : second = key
    · exact isFirst.trans isSecond.symm
    · subst isFirst
      rw [others second isSecond] at found'
      exact absurd found (apart second length' length remote isSecond found').2
    · subst isSecond
      rw [others first isFirst] at found
      exact absurd found' (apart first length length' remote isFirst found).2
    · rw [others first isFirst] at found
      rw [others second isSecond] at found'
      exact here.separate first second length length' remote found found'
  · funext other
    exact Ledger.held_put_other _ fun both => different both.1
  · by_cases same : other = key
    · subst same
      obtain ⟨length, _, _, still⟩ :=
        cached (Ledger.isCached_iff.mpr ⟨id, here'⟩)
      exact ⟨length, still valueLength remote found⟩
    · exact ⟨valueLength, (others other same).trans found⟩

/-- An eager set of a key that is not cached. -/
theorem Tracks.eagerSet (tracks : Tracks ledger client a)
    (value : List UInt8) (absent : ledger.isCached key = false) :
    Tracks (ledger.put id key (.inline value)) client
      (a.setPeer id { a.peers id with
        store := (a.peers id).store.put key (.eager value) }) := by
  refine tracks.put (tracks.peers id).quiet rfl (if_pos rfl)
    (fun other different => if_neg different)
    (fun other _ length remote _ _ => ⟨rfl, ?_⟩) (fun hit => ?_)
  · simp
  · rw [absent] at hit
    exact absurd hit (by simp)

/-- A rendezvous set of a key that is not cached: the reply names the buffer
of the key. -/
theorem Tracks.rendezvousSet (tracks : Tracks ledger client a)
    {valueLength : Nat} {reply : Message} {store : Store}
    (absent : ledger.isCached key = false)
    (replied : (a.peers id).store.Replies (.rendezvousSet valueLength key)
      reply store) :
    ∃ remote, reply.Carries (.rendezvousSetResponse remote) ∧
      store.find key = some (.rendezvous valueLength remote) ∧
      Tracks
        (ledger.put id key (.buffer valueLength (ledger.contents id key)))
        client
        (a.setPeer id { a.peers id with store := store, waiting := none }) := by
  have notCached (valueLength : Nat) (store : Store) (hit :
      ledger.isCached key = true) :
      ∃ length contents,
        Kept.buffer valueLength (ledger.contents id key) =
            .buffer length contents ∧
          ∀ old remote, (a.peers id).store.find key =
              some (.rendezvous old remote) →
            store.find key = some (.rendezvous length remote) := by
    rw [absent] at hit
    exact absurd hit (by simp)
  cases replied with
  | kept present carries =>
      rename_i old remote
      have contents := (tracks.sentLength present).2
      refine ⟨remote, carries, if_pos rfl,
        tracks.put rfl rfl ⟨remote, if_pos rfl, contents.symm⟩
          (fun other different => if_neg different)
          (fun other _ length used different found => ⟨rfl, ?_⟩)
          (notCached _ _)⟩
      simp only [Store.find_put, if_true]
      intro same
      obtain ⟨_, rfl⟩ := Stored.rendezvous.inj (Option.some.inj same)
      exact different ((tracks.peers id).separate _ _ _ _ _ found present)
  | assigned noBuffer fresh carries =>
      rename_i remote
      have contents : ledger.contents id key = Memory.zero := by
        have keeps := (tracks.peers id).keeps key
        unfold Ledger.contents
        split
        · rename_i length contents holds
          rw [holds] at keeps
          obtain ⟨other, found, _⟩ := keeps
          exact absurd found (noBuffer length other)
        · rfl
      refine ⟨remote, carries, if_pos rfl,
        tracks.put rfl rfl ⟨remote, if_pos rfl, ?_⟩
          (fun other different => if_neg different)
          (fun other _ length used different found => ⟨?_, ?_⟩)
          (notCached _ _)⟩
      · simp [contents]
      · have apart : used ≠ remote := by
          rintro rfl
          exact fresh _ _ found
        simp [apart]
      · simp only [Store.find_setRegion, Store.find_put, if_true]
        intro same
        obtain ⟨_, rfl⟩ := Stored.rendezvous.inj (Option.some.inj same)
        exact fresh _ _ found

/-- The client remembers where the buffer of a key is. -/
theorem Tracks.caches (tracks : Tracks ledger client a) (length : Nat)
    {valueLength : Nat} {remote : IbvMr}
    (found : (a.peers id).store.find key =
      some (.rendezvous valueLength remote)) :
    Tracks (ledger.cache id key length) (client.cache key length remote) a :=
  ⟨tracks.peers, tracks.indexerQuiet, tracks.indexerIntact,
    ⟨rfl, rfl, valueLength, found⟩⟩

/-- The cached key gets another length. -/
theorem Tracks.setLength (tracks : Tracks ledger client a) (length : Nat) :
    Tracks { ledger with cachedLength := length }
      { client with lastAccessedKeyValLength := length } a := by
  refine ⟨tracks.peers, tracks.indexerQuiet, tracks.indexerIntact, ?_⟩
  have cache := tracks.cache
  unfold CacheTracks at cache ⊢
  cases cached : ledger.cached with
  | none =>
      rw [cached] at cache
      exact cache
  | some pair =>
      rw [cached] at cache
      exact ⟨cache.1, rfl, cache.2.2⟩

/-- An RDMA write into the buffer of a key. -/
theorem Tracks.write (tracks : Tracks ledger client a)
    {valueLength : Nat} {remote : IbvMr} (memory : Memory)
    (found : (a.peers id).store.find key =
      some (.rendezvous valueLength remote)) :
    Tracks (ledger.put id key (.buffer valueLength memory)) client
      (a.setPeer id { a.peers id with
        store := (a.peers id).store.setRegion remote memory }) := by
  have here := tracks.peers id
  refine tracks.put here.quiet rfl ⟨remote, found, if_pos rfl⟩
    (fun other _ => rfl)
    (fun other _ length used different found' => ⟨?_, fun found'' => ?_⟩)
    (fun _ => ⟨valueLength, memory, rfl, fun old other found' => ?_⟩)
  · have apart : used ≠ remote := by
      rintro rfl
      exact different (here.separate _ _ _ _ _ found' found)
    exact if_neg apart
  · exact different (here.separate _ _ _ _ _ found' found'')
  · rw [found] at found'
    obtain ⟨rfl, rfl⟩ := Stored.rendezvous.inj (Option.some.inj found')
    exact found

end RdmaKv
