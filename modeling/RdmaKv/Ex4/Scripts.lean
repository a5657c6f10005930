import RdmaKv.Ex4.Calls
import RdmaKv.Ex4.Simulation

/-!
# Sequences of calls

The three ways in which the clients are called: `dkv_set` and `dkv_get`, where
the index server selects the server of a key; `kv_set` and `kv_get` of
`kv_client.c` on any of its handles; and those of `nweb23.c` on its one
connection.  A sequence of calls returns what the ledger says.
-/

namespace RdmaKv

open ByteMemory Interaction

def runCalls {C : Type} (perform : C → Client → Run (Returned × Client)) :
    List C → Client → Run (List Returned × Client)
  | [], client => .done ([], client)
  | call :: calls, client =>
      perform call client >>= fun (returned, client) =>
        runCalls perform calls client >>= fun (results, client) =>
          .done (returned :: results, client)

theorem runCalls_map {C D : Type}
    (perform : D → Client → Run (Returned × Client)) (toCall : C → D)
    (calls : List C) :
    runCalls (fun call => perform (toCall call)) calls =
      runCalls perform (calls.map toCall) := by
  induction calls with
  | nil => rfl
  | cons call calls inductionHypothesis =>
      funext client
      simp only [List.map_cons, runCalls, inductionHypothesis]

def Ledger.afterAll (ledger : Ledger) (calls : List Call) : Ledger :=
  calls.foldl Call.after ledger

def Call.perform : Call → Client → Run (Returned × Client)
  | set terminator server key value valueLength, client =>
      kvSetWith terminator server key value valueLength client >>=
        fun (ret, client) => .done (.set ret, client)
  | get server key, client =>
      kvGet server key client >>= fun (result, client) =>
        .done (.get result, client)

namespace KvClient

inductive DkvCall where
  | set (key value : CString)
  | get (key : CString)
  deriving DecidableEq

namespace DkvCall

def key : DkvCall → CString
  | set key _ => key
  | get key => key

def perform (numServers : Nat) :
    DkvCall → Client → Run (Returned × Client)
  | set key value, client =>
      dkvSet numServers key value client >>= fun (ret, client) =>
        .done (.set ret, client)
  | get key, client =>
      dkvGet numServers key client >>= fun (result, client) =>
        .done (.get result, client)

def toCall (numServers : Nat) : DkvCall → Call
  | set key value =>
      .set 1 (selectServer numServers key) key value.memory
        (value.length % unsignedRange)
  | get key => .get (selectServer numServers key) key

end DkvCall

/-- A call of `kv_set` or `kv_get` on the handle of a server. -/
inductive KvCall where
  | set (server : Nat) (key value : CString)
  | get (server : Nat) (key : CString)

namespace KvCall

def perform : KvCall → Client → Run (Returned × Client)
  | set server key value, client =>
      kvSet server key value client >>= fun (ret, client) =>
        .done (.set ret, client)
  | get server key, client =>
      kvGet server key client >>= fun (result, client) =>
        .done (.get result, client)

def toCall : KvCall → Call
  | set server key value =>
      .set 1 server key value.memory (value.length % unsignedRange)
  | get server key => .get server key

theorem perform_eq (call : KvCall) : call.perform = call.toCall.perform := by
  cases call <;> rfl

end KvCall

end KvClient

namespace Nweb

/-- A call of `kv_set` or `kv_get`.  The latter is given what `*length` holds
when it is called. -/
inductive KvCall where
  | set (key : CString) (value : Memory) (length : Nat)
  | get (key : CString) (length : Nat)

namespace KvCall

def perform (server : Nat) : KvCall → Client → Run (Returned × Client)
  | set key value length, client =>
      kvSet server key value length client >>= fun (ret, client) =>
        .done (.set ret, client)
  | get key _, client =>
      kvGet server key client >>= fun (result, client) =>
        .done (.get result, client)

def toCall (server : Nat) : KvCall → Call
  | set key value length => .set 0 server key value (length % unsignedRange)
  | get key _ => .get server key

theorem perform_eq (server : Nat) (call : KvCall) :
    call.perform server = (call.toCall server).perform := by
  cases call <;> rfl

end KvCall

end Nweb

/-! ## Sequences -/

section Sequences

variable {C : Type} {perform : C → Client → Run (Returned × Client)}

def AllReturn (toCall : C → Call) (ledger : Ledger) (calls : List C)
    (results : List Returned) : Prop :=
  ∀ front call back, calls = front ++ call :: back →
    ∃ returned, results[front.length]? = some returned ∧
      (toCall call).Returns (ledger.afterAll (front.map toCall)) returned

/-- A call, performed between two states that the ledger follows. -/
def Follows (toCall : C → Call) (call : C) (ledger : Ledger)
    (result : Returned × Client) (a : Atomic) : Prop :=
  (toCall call).Returns ledger result.1 ∧
    Tracks ((toCall call).after ledger) result.2 a

variable {bounded mayCrash : Prop}

/-- If every single call does what the ledger says where it is allowed, so
does a sequence of them. -/
theorem achieves_runCalls (toCall : C → Call) (Allowed : Ledger → C → Prop)
    (single : ∀ call ledger client a, Tracks ledger client a →
      Allowed ledger call →
        Achieves bounded mayCrash (Follows toCall call ledger)
          (perform call client) a)
    (calls : List C) {ledger : Ledger} {client : Client} {a : Atomic}
    (tracks : Tracks ledger client a)
    (allowed : ∀ front call back, calls = front ++ call :: back →
      Allowed (ledger.afterAll (front.map toCall)) call) :
    Achieves bounded mayCrash
      (fun result a' => AllReturn toCall ledger calls result.1 ∧
        Tracks (ledger.afterAll (calls.map toCall)) result.2 a')
      (runCalls perform calls client) a := by
  induction calls generalizing ledger client a with
  | nil =>
      refine achieves_done ⟨fun front call back split => ?_, tracks⟩
      exact absurd split (by simp)
  | cons call calls inductionHypothesis =>
      refine wp_bind (wp_mono ?_ (single call ledger client a tracks
        (allowed [] call calls rfl)))
      rintro ⟨returned, client⟩ a' ⟨returns, tracks⟩
      refine wp_bind (wp_mono ?_ (inductionHypothesis tracks ?_))
      · rintro ⟨results, client⟩ a'' ⟨others, tracks⟩
        refine achieves_done ⟨fun front other back split => ?_, tracks⟩
        cases front with
        | nil =>
            obtain ⟨rfl, rfl⟩ := List.cons.inj split
            exact ⟨returned, rfl, returns⟩
        | cons first front =>
            obtain ⟨rfl, rest⟩ := List.cons.inj split
            exact others front other back rest
      · intro front other back split
        exact allowed (call :: front) other back (by rw [split]; rfl)

end Sequences

/-! ## Single calls -/

section Single

variable {bounded mayCrash : Prop} {ledger : Ledger} {client : Client}
  {a : Atomic} {server : Nat} {key : CString}

/-- A call may be made here: it consults the cache only where it may, crashes
only if that is allowed, and stays in bounds if that is asked for. -/
structure Call.Allowed (bounded mayCrash : Prop) (ledger : Ledger)
    (call : Call) : Prop where
  consults : call.Consults ledger
  crash : call.MayCrash ledger → mayCrash
  inside : bounded → call.InBounds ledger

theorem achieves_set {terminator valueLength : Nat} {value : Memory}
    (tracks : Tracks ledger client a)
    (allowed : (Call.set terminator server key value valueLength).Allowed
      bounded mayCrash ledger) :
    Achieves bounded mayCrash
      (fun result a' =>
        (Call.set terminator server key value valueLength).Returns ledger
            (.set result.1) ∧
          Tracks ((Call.set terminator server key value valueLength).after
            ledger) result.2 a')
      (kvSetWith terminator server key value valueLength client) a := by
  refine wp_mono ?_ (achieves_kvSet tracks allowed.consults allowed.crash
    allowed.inside)
  rintro result a' ⟨ledger', computed, tracks⟩
  refine ⟨⟨ledger', computed⟩, ?_⟩
  simp only [Call.after, computed]
  exact tracks

theorem achieves_get (tracks : Tracks ledger client a)
    (allowed : (Call.get server key).Allowed bounded mayCrash ledger) :
    Achieves bounded mayCrash
      (fun result a' =>
        (Call.get server key).Returns ledger (.get result.1) ∧
          Tracks ((Call.get server key).after ledger) result.2 a')
      (kvGet server key client) a := by
  refine wp_mono ?_ (achieves_kvGet tracks allowed.consults allowed.crash
    allowed.inside)
  rintro result a' ⟨known, tracks⟩
  exact ⟨known, tracks⟩

/-- A call does what the ledger says. -/
theorem Call.achieves (call : Call) (tracks : Tracks ledger client a)
    (allowed : call.Allowed bounded mayCrash ledger) :
    Achieves bounded mayCrash
      (fun result a' => call.Returns ledger result.1 ∧
        Tracks (call.after ledger) result.2 a')
      (call.perform client) a := by
  cases call with
  | set terminator server key value valueLength =>
      refine wp_bind (wp_mono ?_ (achieves_set tracks allowed))
      rintro ⟨ret, client⟩ a' follows
      exact achieves_done follows
  | get server key =>
      refine wp_bind (wp_mono ?_ (achieves_get tracks allowed))
      rintro ⟨result, client⟩ a' follows
      exact achieves_done follows

/-- Asking the index server. -/
private theorem achieves_find {numServers : Nat} {message : Message} {α : Type}
    {post : α → Atomic → Prop} {next : Option Client → Run α}
    (tracks : Tracks ledger client a) (positive : 0 < numServers)
    (fits : 12 + (key.length + 1) ≤ eagerProtocolLimit)
    (carries : message.Carries (.find numServers key))
    (fails : message.size > eagerProtocolLimit →
      Achieves bounded mayCrash post (next none)
        { a with indexerBroken := true })
    (replied : message.size ≤ eagerProtocolLimit → ∀ reply : Message,
      reply.Carries (.location (selectServer numServers key)) →
        Achieves bounded mayCrash post
          (next (some (client.setBuf .indexer
            (reply.deliver (client.buf .indexer))))) a) :
    Achieves bounded mayCrash post
      (client.exchange .indexer message >>= next) a := by
  refine wp_perform_of_still Atomic.still
    ⟨tracks.indexerQuiet, fun _ => ⟨_, _, positive, carries⟩⟩ ?_
  intro given after answered
  cases answered with
  | findFails reason =>
      rcases reason with broken | large
      · rw [tracks.indexerIntact] at broken
        exact absurd broken (by simp)
      · exact fails large
  | finds intact _ sent short =>
      have same := Packet.find.inj
        (sent.1.unique carries.1 (sent.2.trans short) fits)
      refine wp_perform_of_still Atomic.still (by simp [Atomic.Ready]) ?_
      intro given after answered
      cases answered with
      | located waiting arrived =>
          have asked := Prod.mk.inj (Option.some.inj waiting)
          rw [← asked.1, ← asked.2, same.1, same.2] at arrived
          have restored : Atomic.mk a.peers none a.indexerBroken = a := by
            rw [← tracks.indexerQuiet]
          simp only [restored]
          exact replied short _ arrived

/-- The packet that asks for the server of a key. -/
theorem carries_find {numServers size : Nat} (buf : Memory)
    (small : numServers < unsignedRange)
    (fits : 12 + (key.length + 1) ≤ eagerProtocolLimit)
    (covers : 12 + (key.length + 1) ≤ size) :
    (⟨(Packet.find numServers key).store buf, size⟩ : Message).Carries
      (.find numServers key) := by
  have inRange : (Packet.find numServers key).InRange := ⟨fits, small⟩
  exact ⟨Packet.at_store inRange _, covers⟩

/-- The size of the request covers the key, and it does not wrap around. -/
theorem find_size {packetSize : Nat}
    (fits : 12 + (key.length + 1) ≤ eagerProtocolLimit)
    (least : key.length + sizeofPacket ≤ packetSize)
    (most : packetSize ≤ key.length + 1 + sizeofPacket) :
    packetSize % unsignedRange = packetSize ∧
      12 + (key.length + 1) ≤ packetSize := by
  simp only [eagerProtocolLimit, sizeofPacket, unsignedRange]
    at fits least most ⊢
  omega

/-- The server in a reply of the index server. -/
private theorem location_deliver {server : Nat} {reply : Message}
    (carries : reply.Carries (.location server)) (buf : Memory) :
    (reply.deliver buf).loadLE 0 4 = PacketType.location.code ∧
      (reply.deliver buf).loadLE 8 4 = server :=
  carries.at_deliver buf

namespace KvClient

/-- The index server's answer. -/
theorem achieves_findServer {numServers : Nat}
    (tracks : Tracks ledger client a) (positive : 0 < numServers)
    (small : numServers < unsignedRange)
    (crash : key.length + sizeofPacket > eagerProtocolLimit → mayCrash) :
    Achieves bounded mayCrash
      (fun result a' => result.1 = selectServer numServers key ∧
        Tracks ledger result.2 a')
      (findServer numServers key client) a := by
  unfold findServer
  by_cases fits : 12 + (key.length + 1) ≤ eagerProtocolLimit
  case neg =>
    rw [if_neg fits]
    refine crash ?_
    simp only [sizeofPacket]
    omega
  rw [if_pos fits]
  obtain ⟨size, covers⟩ := find_size fits le_rfl (by omega)
  simp only [size]
  refine achieves_find (tracks.setBuf _ _) positive fits
    (carries_find _ small fits covers) crash fun _ reply carries => ?_
  have located := location_deliver carries
  simp only [Client.buf_setBuf, located, if_true]
  exact achieves_done ⟨rfl, (tracks.setBuf _ _).setBuf _ _⟩

theorem DkvCall.achieves {numServers : Nat} (call : DkvCall)
    (tracks : Tracks ledger client a) (positive : 0 < numServers)
    (small : numServers < unsignedRange)
    (long : call.key.length + sizeofPacket > eagerProtocolLimit → mayCrash)
    (allowed : (call.toCall numServers).Allowed bounded mayCrash ledger) :
    Achieves bounded mayCrash (Follows (toCall numServers) call ledger)
      (call.perform numServers client) a := by
  cases call with
  | set key value =>
      refine wp_bind (wp_bind (wp_mono ?_
        (achieves_findServer tracks positive small long)))
      rintro ⟨server, client⟩ a' ⟨selected, tracks⟩
      simp only at selected
      subst selected
      refine wp_mono ?_ (achieves_set tracks allowed)
      rintro ⟨ret, client⟩ a'' follows
      exact achieves_done follows
  | get key =>
      refine wp_bind (wp_bind (wp_mono ?_
        (achieves_findServer tracks positive small long)))
      rintro ⟨server, client⟩ a' ⟨selected, tracks⟩
      simp only at selected
      subst selected
      refine wp_mono ?_ (achieves_get tracks allowed)
      rintro ⟨result, client⟩ a'' follows
      exact achieves_done follows

end KvClient

/-- The index server's answer, to a key that fits into the request. -/
theorem Nweb.achieves_findServer {numServers : Nat}
    (tracks : Tracks ledger client a) (positive : 0 < numServers)
    (small : numServers < unsignedRange)
    (crash : key.length + 1 + sizeofPacket > eagerProtocolLimit → mayCrash) :
    Achieves bounded mayCrash
      (fun result a' => result.1 = selectServer numServers key ∧
        Tracks ledger result.2 a' ∧
          key.length + 1 + sizeofPacket ≤ eagerProtocolLimit)
      (Nweb.findServer numServers key client) a := by
  unfold Nweb.findServer
  by_cases fits : 12 + (key.length + 1) ≤ eagerProtocolLimit
  case neg =>
    rw [if_neg fits]
    refine crash ?_
    simp only [sizeofPacket]
    omega
  rw [if_pos fits]
  obtain ⟨size, covers⟩ := find_size fits (by omega) le_rfl
  simp only [size]
  refine achieves_find (tracks.setBuf _ _) positive fits
    (carries_find _ small fits covers) crash fun short reply carries => ?_
  have located := location_deliver carries
  simp only [Client.buf_setBuf, located, if_true]
  exact achieves_done ⟨rfl, (tracks.setBuf _ _).setBuf _ _, short⟩

end Single

/-! ## One connection for every key -/

namespace Call

def server : Call → Nat
  | set _ server _ _ _ => server
  | get server _ => server

def key : Call → CString
  | set _ _ key _ _ => key
  | get _ key => key

end Call

theorem KvClient.DkvCall.key_toCall (numServers : Nat)
    (call : KvClient.DkvCall) : (call.toCall numServers).key = call.key := by
  cases call <;> rfl

namespace Ledger

variable {ledger : Ledger} {route : CString → Nat} {id : Nat} {key : CString}

theorem cached_write (value : Memory) (length : Nat) :
    (ledger.write id key value length).2.cached = ledger.cached := by
  unfold write
  split <;> rfl

private theorem cached_read (contents : Memory) (size length : Nat)
    (stored : Option Nat) :
    (ledger.read id contents size length stored).2.cached =
      ledger.cached := by
  unfold read
  split <;> rfl

/-- A call leaves the cache alone, empties it or fills it with its key. -/
private theorem cached_after (call : Call) :
    (call.after ledger).cached = ledger.cached ∨
      (call.after ledger).cached = none ∨
      (call.after ledger).cached = some (call.server, call.key) := by
  cases call with
  | set terminator id key value valueLength =>
      have invalidated : (ledger.invalidate key).cached = ledger.cached ∨
          (ledger.invalidate key).cached = none := by
        unfold invalidate
        split
        · exact Or.inr rfl
        · exact Or.inl rfl
      simp only [Call.after, Call.server, Call.key]
      cases computed : ledger.set terminator id key value valueLength with
      | none => exact Or.inl rfl
      | some result =>
          obtain ⟨ret, after⟩ := result
          unfold set at computed
          simp only at computed
          split at computed
          · split at computed
            · split at computed
              · obtain ⟨_, rfl⟩ := Prod.mk.inj (Option.some.inj computed)
                exact invalidated.imp_right Or.inl
              · obtain ⟨_, rfl⟩ := Prod.mk.inj (Option.some.inj computed)
                exact invalidated.imp_right Or.inl
            · exact absurd computed (by simp)
          · split at computed
            · obtain rfl := (Prod.ext_iff.mp (Option.some.inj computed)).2
              exact Or.inl (cached_write _ _)
            · split at computed
              · obtain rfl := (Prod.ext_iff.mp (Option.some.inj computed)).2
                exact Or.inr (Or.inr (cached_write _ _))
              · exact absurd computed (by simp)
  | get id key =>
      simp only [Call.after, Call.server, Call.key]
      unfold get fetch
      split
      · exact Or.inl rfl
      · split
        · exact Or.inl (cached_read _ _ _ _)
        · split
          · exact Or.inl rfl
          · split
            · exact Or.inl rfl
            · split
              · exact Or.inl rfl
              · exact Or.inl rfl
              · exact Or.inr (Or.inr (cached_read _ _ _ _))

/-- The cached key is cached on the connection that its calls use. -/
def Routed (route : CString → Nat) (ledger : Ledger) : Prop :=
  ∀ id key, ledger.cached = some (id, key) → id = route key

theorem Routed.usable (routed : ledger.Routed route)
    (nonempty : key ≠ CString.empty) : ledger.Usable (route key) key := by
  unfold Usable
  cases cached : ledger.cached with
  | none => exact nonempty
  | some pair =>
      rintro rfl
      exact routed pair.1 pair.2 cached

theorem Routed.after (routed : ledger.Routed route) {call : Call}
    (onRoute : call.server = route call.key) :
    (call.after ledger).Routed route := by
  intro id key cached
  rcases ledger.cached_after call with same | empty | filled
  · exact routed id key (same.symm.trans cached)
  · exact absurd (empty.symm.trans cached) (by simp)
  · obtain ⟨rfl, rfl⟩ := Prod.mk.inj (Option.some.inj
      (filled.symm.trans cached))
    exact onRoute

theorem Routed.afterAll (routed : ledger.Routed route) {calls : List Call}
    (onRoute : ∀ call ∈ calls, call.server = route call.key) :
    (ledger.afterAll calls).Routed route := by
  induction calls generalizing ledger with
  | nil => exact routed
  | cons call calls inductionHypothesis =>
      exact inductionHypothesis
        (routed.after (onRoute call (List.mem_cons_self ..)))
        fun other member => onRoute other (List.mem_cons_of_mem _ member)

theorem routed_init : Ledger.init.Routed route :=
  fun _ _ cached => absurd cached (by simp [Ledger.init])

end Ledger

/-- Before the first call the ledger follows the servers. -/
theorem tracks_init (buf : Conn → Memory) :
    Tracks Ledger.init (Client.init buf) Atomic.init :=
  ⟨fun _ => ⟨rfl, rfl, fun _ => rfl, fun _ _ _ _ _ found =>
    absurd found (by simp [Atomic.init])⟩, rfl, rfl, rfl⟩

end RdmaKv
