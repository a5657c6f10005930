import RdmaKv.Ex4.Tracks

/-!
# The calls of a client on servers that act at once

One rule for every operation that a client posts, and from these one for
`kv_set` and one for `kv_get`: the call computes what the ledger says.
-/

namespace RdmaKv

open ByteMemory Interaction

theorem Request.packet_injective {first second : Request}
    (same : first.packet = second.packet) : first = second := by
  cases first <;> cases second <;>
    simp_all [Request.packet]

/-- A message is sent as one request only. -/
theorem Request.SentAs.unique {first second : Request} {message : Message}
    (left : first.SentAs message) (right : second.SentAs message) :
    first = second :=
  Request.packet_injective (left.carries.1.unique right.carries.1
    (left.carries.2.trans left.size) (right.carries.2.trans right.size))

/-- What a program achieves on servers that act at once. -/
abbrev Achieves (bounded mayCrash : Prop) {α : Type}
    (post : α → Atomic → Prop) (program : Run α) (a : Atomic) : Prop :=
  wp Atomic.environment (Atomic.Ready bounded) mayCrash post program a

theorem Atomic.still (before after : Atomic) :
    ¬ Atomic.environment.evolve before after := fun step => step

section Operations

variable {bounded mayCrash : Prop} {α : Type} {post : α → Atomic → Prop}
  {a : Atomic} {id : Nat}

theorem achieves_done {value : α} (holds : post value a) :
    Achieves bounded mayCrash post (.done value) a :=
  wp_done_of_still Atomic.still holds

/-- Sending an eager set. -/
private theorem achieves_sendSet {message : Message} {key : CString}
    {value : List UInt8} {resume : Bool → Run α}
    (quiet : (a.peers id).waiting = none)
    (sent : (Request.eagerSet key value).SentAs message)
    (fails : (a.peers id).broken = true →
      Achieves bounded mayCrash post (resume false) (a.breakPeer id))
    (succeeds : (a.peers id).broken = false →
      Achieves bounded mayCrash post (resume true)
        (a.setPeer id { a.peers id with
          store := (a.peers id).store.put key (.eager value) })) :
    Achieves bounded mayCrash post
      (.perform (.send (.server id) message) resume) a := by
  refine wp_perform_of_still Atomic.still ⟨quiet, fun _ => ⟨_, sent⟩⟩ ?_
  intro given after answered
  cases answered with
  | sendFails reason =>
      rcases reason with broken | large
      · exact fails broken
      · exact absurd sent.size (not_le.mpr large)
  | sets intact sent' =>
      obtain ⟨rfl, rfl⟩ := Request.eagerSet.inj (sent'.unique sent)
      exact succeeds intact
  | asks intact sent' answerable =>
      exact absurd (sent'.unique sent) (answerable key value)

/-- Sending any other request and receiving its reply. -/
theorem achieves_exchange {message : Message} {request : Request}
    {client : Client} {next : Option Client → Run α}
    (quiet : (a.peers id).waiting = none)
    (sent : message.size ≤ eagerProtocolLimit → request.SentAs message)
    (answerable : ∀ key value, request ≠ .eagerSet key value)
    (fails : (a.peers id).broken = true ∨ eagerProtocolLimit < message.size →
      Achieves bounded mayCrash post (next none) (a.breakPeer id))
    (replied : (a.peers id).broken = false →
      message.size ≤ eagerProtocolLimit → ∀ reply store,
      (a.peers id).store.Replies request reply store →
        Achieves bounded mayCrash post
          (next (some (client.setBuf (.server id)
            (reply.deliver (client.buf (.server id))))))
          (a.setPeer id { a.peers id with store := store, waiting := none })) :
    Achieves bounded mayCrash post
      (client.exchange (.server id) message >>= next) a := by
  refine wp_perform_of_still Atomic.still
    ⟨quiet, fun fits => ⟨request, sent fits⟩⟩ ?_
  intro given after answered
  cases answered with
  | sendFails reason => exact fails reason
  | sets intact sent' =>
      exact absurd (sent'.unique (sent sent'.size)).symm (answerable _ _)
  | asks intact sent' _ =>
      obtain rfl := sent'.unique (sent sent'.size)
      refine wp_perform_of_still Atomic.still (by simp [Atomic.Ready]) ?_
      intro given after answered
      cases answered with
      | replies waiting replies =>
          simp only [Atomic.peers_setPeer, Option.some.injEq] at waiting replies
          subst waiting
          rw [Atomic.peers_setPeer, Atomic.setPeer_setPeer]
          exact replied intact sent'.size _ _ replies

variable {ledger : Ledger} {client : Client} {key : CString}
  {valueLength : Nat} {remote : IbvMr}

/-- Writing the buffer of a key. -/
private theorem achieves_write (tracks : Tracks ledger client a)
    (found : (a.peers id).store.find key =
      some (.rendezvous valueLength remote))
    (value : Memory) {length : Nat}
    (inside : bounded → length ≤ maxTestSize) :
    Achieves bounded mayCrash
      (fun result a' =>
        (ledger.write id key value length).1 = result.1 ∧
          Tracks (ledger.write id key value length).2 result.2 a')
      (client.write id key value length remote) a := by
  have here := tracks.peers id
  obtain ⟨isLength, isContents⟩ := tracks.sentLength found
  refine wp_perform_of_still Atomic.still
    ⟨⟨here.quiet, valueLength, found⟩, fun holds => ⟨inside holds, le_rfl⟩⟩ ?_
  intro given after answered
  refine achieves_done ?_
  unfold Ledger.write
  cases answered with
  | writes intact within =>
      rw [if_pos ⟨here.broken.symm.trans intact, within.1⟩, isLength,
        isContents]
      exact ⟨rfl, tracks.write _ found⟩
  | writeFails reason =>
      rw [if_neg]
      · exact ⟨rfl, tracks.breaks⟩
      · rintro ⟨intact, short⟩
        rcases reason with broken | outside
        · rw [here.broken, intact] at broken
          exact absurd broken (by simp)
        · exact outside ⟨short, le_rfl⟩

/-- Reading the buffer of a key. -/
private theorem achieves_readBlock (tracks : Tracks ledger client a)
    (found : (a.peers id).store.find key =
      some (.rendezvous valueLength remote))
    {size length : Nat} (stored : Option Nat)
    (inside : bounded → length ≤ maxTestSize ∧ length ≤ size) :
    Achieves bounded mayCrash
      (fun result a' =>
        (ledger.read id (ledger.contents id key) size length stored).1 =
            result.1 ∧
          Tracks
            (ledger.read id (ledger.contents id key) size length stored).2
            result.2 a')
      (readBlock id key size length remote stored client) a := by
  have here := tracks.peers id
  obtain ⟨_, isContents⟩ := tracks.sentLength found
  refine wp_perform_of_still Atomic.still
    ⟨⟨here.quiet, valueLength, found⟩, inside⟩ ?_
  intro given after answered
  refine achieves_done ?_
  unfold Ledger.read
  cases answered with
  | reads intact within =>
      rw [if_pos ⟨here.broken.symm.trans intact, within⟩, isContents]
      exact ⟨rfl, tracks⟩
  | readFails reason =>
      rw [if_neg]
      · exact ⟨rfl, tracks.breaks⟩
      · rintro ⟨intact, within⟩
        rcases reason with broken | outside
        · rw [here.broken, intact] at broken
          exact absurd broken (by simp)
        · exact outside within

end Operations

/-! ## `kv_set` -/

/-- The size that is sent covers the value, and it does not wrap around. -/
theorem eagerSet_counts {key : CString} {terminator valueLength : Nat}
    (fits : 12 + (key.length + 1) + (valueLength + terminator) ≤
      eagerProtocolLimit) :
    key.length + valueLength + sizeofPacket ≤
      (key.length + valueLength + sizeofPacket + 1 + terminator) %
        unsignedRange := by
  rw [Nat.mod_eq_of_lt]
  · omega
  · simp only [eagerProtocolLimit, sizeofPacket, unsignedRange] at fits ⊢
    omega

/-- The eager branch builds an `EAGER_SET_REQUEST`, whatever it copies after
the value. -/
theorem eagerSet_sent (buf : Memory) {key : CString} (value : Memory)
    {terminator valueLength packetSize : Nat}
    (fits : 12 + (key.length + 1) + (valueLength + terminator) ≤
      eagerProtocolLimit)
    (small : packetSize ≤ eagerProtocolLimit)
    (counts : key.length + valueLength + sizeofPacket ≤ packetSize) :
    (Request.eagerSet key (value.slice 0 valueLength)).SentAs
      ⟨(((buf.storeLE 0 4 PacketType.eagerSetRequest.code).storeLE 8 4
        valueLength).copy 12 (key.length + 1) key.memory).copy
        (12 + (key.length + 1)) (valueLength + terminator) value,
        packetSize⟩ := by
  have extent : (Packet.eagerSetRequest key (value.slice 0 valueLength)).extent
      = 12 + (key.length + 1) + valueLength := by
    simp [Packet.extent]
  have number : valueLength < unsignedRange := by
    simp only [eagerProtocolLimit, unsignedRange] at fits ⊢
    omega
  have inRange : (Packet.eagerSetRequest key
      (value.slice 0 valueLength)).InRange :=
    ⟨by rw [extent]; omega, by
      rw [Packet.number, Memory.length_slice]
      exact number⟩
  refine ⟨⟨(Packet.at_store inRange buf).congr fun i bound => ?_, ?_⟩,
    small, ?_⟩
  · rw [extent] at bound
    simp only [Packet.store, Memory.length_slice]
    by_cases before : i < 12 + (key.length + 1)
    · rw [Memory.copy_outside _ _ (Or.inl before),
        Memory.copy_outside _ _ (Or.inl before)]
    · rw [Memory.copy_inside _ _ (not_lt.mp before) (by omega),
        Memory.copy_inside _ _ (not_lt.mp before) (by omega)]
      simp only [Memory.ofList]
      rw [Memory.getD_slice _ _ (by omega), Nat.zero_add]
  · simp only [Request.packet, extent]
    simp only [sizeofPacket] at counts
    omega
  · rintro other bytes same
    obtain ⟨rfl, rfl⟩ := Request.eagerSet.inj same
    simp only [Memory.length_slice]
    omega

/-- The rendezvous branch builds a `RENDEZVOUS_SET_REQUEST`. -/
theorem rendezvousSet_sent (buf : Memory) {key : CString}
    {valueLength packetSize : Nat} (bound : valueLength < unsignedRange)
    (small : packetSize ≤ eagerProtocolLimit)
    (counts : key.length + 1 + sizeofPacket ≤ packetSize) :
    (Request.rendezvousSet valueLength key).SentAs
      ⟨((buf.storeLE 0 4 PacketType.rendezvousSetRequest.code).storeLE 8 4
        valueLength).copy 12 (key.length + 1) key.memory, packetSize⟩ := by
  have extent : 12 + (key.length + 1) ≤ packetSize := by
    simp only [sizeofPacket] at counts
    omega
  have inRange : (Packet.rendezvousSetRequest valueLength key).InRange :=
    ⟨extent.trans small, bound⟩
  exact ⟨⟨Packet.at_store inRange buf, extent⟩, small,
    fun other bytes same => absurd same (by simp)⟩

section Calls

variable {bounded mayCrash : Prop} {ledger : Ledger} {client : Client}
  {a : Atomic} {id terminator valueLength : Nat} {key : CString}
  {value : Memory}

/-- The state after a call that returned, as the ledger has it. -/
def Sets (computed : Option (Int × Ledger)) (result : Int × Client)
    (a : Atomic) : Prop :=
  ∃ ledger, computed = some (result.1, ledger) ∧ Tracks ledger result.2 a

private theorem achieves_eagerSet (tracks : Tracks ledger client a)
    {packetSize : Nat} (size : packetSize =
      (key.length + valueLength + sizeofPacket + 1 + terminator) %
        unsignedRange)
    (isEager : Ledger.IsEager terminator key valueLength)
    (crash : ledger.set terminator id key value valueLength = none →
      mayCrash) :
    Achieves bounded mayCrash
      (Sets (ledger.set terminator id key value valueLength))
      (eagerSetWith terminator id key value key.length valueLength packetSize
        client) a := by
  subst size
  unfold Ledger.set at crash ⊢
  unfold eagerSetWith
  simp only [if_pos isEager] at crash ⊢
  by_cases fits : 12 + (key.length + 1) + (valueLength + terminator) ≤
      eagerProtocolLimit
  · rw [if_pos fits, if_pos fits]
    have tracks := tracks.invalidate key
    have here := tracks.peers id
    refine achieves_sendSet here.quiet
      (eagerSet_sent _ value fits isEager.le (eagerSet_counts fits))
      (fun broken => ?_) (fun intact => ?_)
    · rw [here.broken] at broken
      rw [if_pos broken]
      exact achieves_done ⟨_, rfl, (tracks.broken broken).setBuf _ _⟩
    · rw [here.broken] at intact
      rw [if_neg (by simp [intact])]
      exact achieves_done ⟨_, rfl, (tracks.eagerSet _
        Ledger.isCached_invalidate).setBuf _ _⟩
  · simp only [if_neg fits, true_implies] at crash ⊢
    exact crash

private theorem achieves_cachedSet (tracks : Tracks ledger client a)
    (usable : ledger.Usable id key) (hit : ledger.isCached key = true)
    (inside : bounded → (valueLength + 1) % unsignedRange ≤ maxTestSize) :
    Achieves bounded mayCrash
      (Sets (some ({ ledger with cachedLength := valueLength }.write id key
        value ((valueLength + 1) % unsignedRange))))
      (cachedSet id key value valueLength client) a := by
  obtain ⟨_, length, found⟩ := tracks.cached usable hit
  refine wp_mono ?_
    (achieves_write (tracks.setLength valueLength) found value inside)
  rintro result a' ⟨returned, after⟩
  exact ⟨_, by rw [← returned], after⟩

private theorem achieves_rendezvousSet (tracks : Tracks ledger client a)
    (absent : ledger.isCached key = false)
    (isRendezvous : ¬ Ledger.IsEager terminator key valueLength)
    (crash : ledger.set terminator id key value valueLength = none →
      mayCrash)
    (inside : bounded →
      (valueLength + terminator) % unsignedRange ≤ maxTestSize) :
    Achieves bounded mayCrash
      (Sets (ledger.set terminator id key value valueLength))
      (rendezvousSetWith terminator id key value key.length valueLength
        (client.setBuf (.server id) ((client.buf (.server id)).storeLE 0 4
          PacketType.rendezvousSetRequest.code))) a := by
  unfold Ledger.set at crash ⊢
  unfold rendezvousSetWith
  simp only [if_neg isRendezvous, absent, Bool.false_eq_true, if_false,
    Client.buf_setBuf] at crash ⊢
  have here := tracks.peers id
  have crashes (reason : ¬ (ledger.broken id = false ∧
      key.length + 1 + sizeofPacket ≤ eagerProtocolLimit)) : mayCrash :=
    crash (if_neg reason)
  by_cases fits : 12 + (key.length + 1) ≤ eagerProtocolLimit
  case neg =>
    rw [if_neg fits]
    refine crashes fun both => fits ?_
    simp only [sizeofPacket] at both
    omega
  have small : key.length < eagerProtocolLimit := by
    omega
  have size : (key.length + 1 + sizeofPacket) % unsignedRange =
      key.length + 1 + sizeofPacket := by
    refine Nat.mod_eq_of_lt ?_
    simp only [eagerProtocolLimit, sizeofPacket, unsignedRange] at fits ⊢
    omega
  rw [if_pos fits, size]
  refine achieves_exchange here.quiet
    (fun small => rendezvousSet_sent _ (Nat.mod_lt _ (by decide)) small le_rfl)
    (fun _ _ same => absurd same (by simp)) (fun reason => ?_)
    (fun intact short reply store replied => ?_)
  · refine crashes fun both => ?_
    rcases reason with broken | large
    · rw [here.broken, both.1] at broken
      exact absurd broken (by simp)
    · exact absurd both.2 (not_le.mpr large)
  · rw [here.broken] at intact
    rw [if_pos ⟨intact, short⟩]
    obtain ⟨remote, carries, found, tracks⟩ :=
      tracks.rendezvousSet absent replied
    have isReply (buf : Memory) : (reply.deliver buf).loadLE 0 4 =
        PacketType.rendezvousSetResponse.code ∧
        key.length < eagerProtocolLimit :=
      ⟨(carries.at_deliver buf).1, small⟩
    have isRemote (buf : Memory) :
        (⟨UInt64.ofNat ((reply.deliver buf).loadLE 8 8),
          UInt32.ofNat ((reply.deliver buf).loadLE 16 4)⟩ : IbvMr) = remote := by
      obtain ⟨_, addr, rkey⟩ := carries.at_deliver buf
      rw [addr, rkey, UInt64.ofNat_toNat, UInt32.ofNat_toNat]
    simp only [Client.buf_setBuf, if_pos (isReply _), isRemote]
    have found' : ((a.setPeer id { a.peers id with
        store := store, waiting := none }).peers id).store.find key =
        some (.rendezvous ((valueLength + terminator) % unsignedRange)
          remote) := by
      rw [Atomic.peers_setPeer]
      exact found
    refine wp_mono ?_ (achieves_write
      (Tracks.caches (((tracks.setBuf _ _).setBuf _ _).setBuf _ _) valueLength
        found') found' value inside)
    rintro result a' ⟨returned, after⟩
    exact ⟨_, by rw [← returned], after⟩

/-- `kv_set` does what the ledger says. -/
theorem achieves_kvSet (tracks : Tracks ledger client a)
    (consults : (Call.set terminator id key value valueLength).Consults ledger)
    (crash : (Call.set terminator id key value valueLength).MayCrash ledger →
      mayCrash)
    (inside : bounded →
      (Call.set terminator id key value valueLength).InBounds ledger) :
    Achieves bounded mayCrash
      (Sets (ledger.set terminator id key value valueLength))
      (kvSetWith terminator id key value valueLength client) a := by
  obtain ⟨short, usable⟩ := consults
  have keyLength : key.length % unsignedRange = key.length :=
    Nat.mod_eq_of_lt short
  unfold kvSetWith
  simp only [keyLength]
  by_cases isEager : Ledger.IsEager terminator key valueLength
  · rw [if_pos isEager]
    exact achieves_eagerSet tracks rfl isEager crash
  · have usable := usable.resolve_left isEager
    have inside (holds : bounded) := (inside holds).resolve_left isEager
    rw [if_neg isEager]
    by_cases hit : ledger.isCached key = true
    · have isTag : key = (client.setBuf (.server id) ((client.buf
          (.server id)).storeLE 0 4
          PacketType.rendezvousSetRequest.code)).lastRndvAccessedKey :=
        (tracks.isCached usable).mpr hit
      rw [if_pos isTag]
      simp only [if_pos hit] at inside
      have computes : ledger.set terminator id key value valueLength =
          some ({ ledger with cachedLength := valueLength }.write id key value
            ((valueLength + 1) % unsignedRange)) := by
        unfold Ledger.set
        rw [if_neg isEager, if_pos hit]
      rw [computes]
      exact achieves_cachedSet (tracks.setBuf _ _) usable hit inside
    · have notTag : ¬ key = (client.setBuf (.server id) ((client.buf
          (.server id)).storeLE 0 4
          PacketType.rendezvousSetRequest.code)).lastRndvAccessedKey :=
        fun isTag => hit ((tracks.isCached usable).mp isTag)
      rw [if_neg notTag]
      simp only [if_neg hit] at inside
      exact achieves_rendezvousSet tracks (by simpa using hit) isEager crash
        inside

/-! ## `kv_get` -/

/-- The result that the ledger knows, if any, and the state after it. -/
def Gets (computed : Option GetResult × Ledger) (result : GetResult × Client)
    (a : Atomic) : Prop :=
  (∀ known, computed.1 = some known → result.1 = known) ∧
    Tracks computed.2 result.2 a

theorem eagerGet_sent (buf : Memory) (key : CString) {packetSize : Nat}
    (small : packetSize ≤ eagerProtocolLimit)
    (counts : key.length + 1 + sizeofPacket ≤ packetSize) :
    (Request.eagerGet key).SentAs
      ⟨(buf.storeLE 0 4 PacketType.eagerGetRequest.code).copy 8
        (key.length + 1) key.memory, packetSize⟩ := by
  simp only [sizeofPacket] at counts
  have extent : 8 + (key.length + 1) ≤ packetSize := by
    omega
  have inRange : (Packet.eagerGetRequest key).InRange :=
    ⟨extent.trans small, show 0 < unsignedRange by decide⟩
  exact ⟨⟨Packet.at_store inRange buf, extent⟩, small,
    fun other bytes same => absurd same (by simp)⟩

/-- `kv_get` on a reply with a value. -/
theorem getReply_eager {value : List UInt8}
    (arrived : (Packet.eagerGetResponse value).At (client.buf (.server id)))
    (fits : 12 + value.length ≤ eagerProtocolLimit) :
    getReply id key client =
      .done (⟨0, some (value ++ [0]), some value.length⟩, client) := by
  obtain ⟨type, length, bytes⟩ := arrived
  simp only [Packet.type] at type
  unfold getReply
  simp only [if_pos type, length, bytes, if_pos fits]

/-- `kv_get` on a reply with a buffer. -/
theorem getReply_rendezvous {valueLength : Nat} {remote : IbvMr}
    (arrived : (Packet.rendezvousGetResponse valueLength remote).At
      (client.buf (.server id))) :
    getReply id key client =
      readBlock id key ((valueLength + 1) % unsignedRange)
        ((valueLength + 1) % unsignedRange) remote (some valueLength)
        (client.cache key valueLength remote) := by
  obtain ⟨type, length, addr, rkey⟩ := arrived
  simp only [Packet.type] at type
  have notEager : ¬ (client.buf (.server id)).loadLE 0 4 =
      PacketType.eagerGetResponse.code := by
    rw [type]
    decide
  unfold getReply
  simp only [if_neg notEager, if_pos type, length, addr, rkey,
    UInt64.ofNat_toNat, UInt32.ofNat_toNat]

/-- The branches of `kv_get` on a reply. -/
private theorem achieves_getReply {reply : Message} {store : Store}
    {buf : Memory}
    (tracks : Tracks ledger client a)
    (replied : (a.peers id).store.Replies (.eagerGet key) reply store)
    (intact : ledger.broken id = false)
    (accepted : ¬ (key.length + 1 + sizeofPacket) % unsignedRange >
      eagerProtocolLimit)
    (short : ¬ 8 + (key.length + 1) > eagerProtocolLimit)
    (absent : ledger.isCached key = false)
    (crash : (Call.get id key).MayCrash ledger → mayCrash)
    (inside : bounded → (Call.get id key).InBounds ledger) :
    Achieves bounded mayCrash (Gets (ledger.get id key))
      (getReply id key (client.setBuf (.server id) (reply.deliver buf))) a := by
  have here := tracks.peers id
  have computes : ledger.get id key = ledger.fetch id key := by
    unfold Ledger.get
    simp only [if_neg accepted, if_neg short, absent, intact,
      Bool.false_eq_true, if_false]
  simp only [Call.MayCrash, computes] at crash
  rw [computes]
  unfold Ledger.fetch at crash ⊢
  cases replied with
  | missing missing type covers =>
      have loaded : (reply.deliver buf).loadLE 0 4 =
          PacketType.eagerGetResponse.code := by
        rw [← type]
        refine Memory.loadLE_congr fun i _ bound => ?_
        exact reply.deliver_inside buf (by omega)
      have nothing := here.absent missing
      simp only [nothing, true_implies] at crash ⊢
      unfold getReply
      simp only [Client.buf_setBuf]
      rw [if_pos loaded]
      split
      · refine achieves_done ⟨fun known same => ?_, tracks.setBuf _ _⟩
        exact absurd same (by simp)
      · exact crash
  | eager present carries fits =>
      rename_i value
      have room : 12 + value.length ≤ eagerProtocolLimit := by
        simp only [sizeofPacket] at fits
        omega
      simp only [here.inline present]
      rw [getReply_eager (by
        rw [Client.buf_setBuf]
        exact carries.at_deliver buf) room]
      refine achieves_done ⟨fun known same => ?_, tracks.setBuf _ _⟩
      exact Option.some.inj same
  | rendezvous present carries =>
      rename_i valueLength remote
      obtain ⟨isLength, isContents⟩ := tracks.sentLength present
      simp only [here.buffer present]
      rw [getReply_rendezvous (by
        rw [Client.buf_setBuf]
        exact carries.at_deliver buf)]
      simp only [Call.InBounds, absent, Bool.false_eq_true, if_false,
        isLength] at inside
      simp only [← isContents]
      refine wp_mono ?_ (achieves_readBlock
        ((tracks.setBuf _ _).caches valueLength present) present
        (some valueLength) fun holds => ⟨inside holds, le_rfl⟩)
      rintro result a' ⟨returned, after⟩
      exact ⟨fun known same => returned.symm.trans (Option.some.inj same),
        after⟩

/-- `kv_get` does what the ledger says. -/
theorem achieves_kvGet (tracks : Tracks ledger client a)
    (consults : (Call.get id key).Consults ledger)
    (crash : (Call.get id key).MayCrash ledger → mayCrash)
    (inside : bounded → (Call.get id key).InBounds ledger) :
    Achieves bounded mayCrash (Gets (ledger.get id key))
      (kvGet id key client) a := by
  obtain ⟨small, usable⟩ := consults
  have keyLength : key.length % unsignedRange = key.length :=
    Nat.mod_eq_of_lt small
  have here := tracks.peers id
  unfold kvGet
  simp only [keyLength]
  by_cases refused : (key.length + 1 + sizeofPacket) % unsignedRange >
      eagerProtocolLimit
  · rw [if_pos refused]
    have computes : ledger.get id key = (some ⟨-1, none, none⟩, ledger) := by
      unfold Ledger.get
      rw [if_pos refused]
    rw [computes]
    exact achieves_done ⟨fun known same => Option.some.inj same, tracks⟩
  rw [if_neg refused]
  by_cases hit : ledger.isCached key = true
  · obtain ⟨length, valueLength, found⟩ := tracks.cached usable hit
    have notMissed : ¬ key ≠ client.lastRndvAccessedKey :=
      not_not.mpr ((tracks.isCached usable).mpr hit)
    rw [if_neg notMissed]
    have computes : ledger.get id key =
        (some (ledger.read id (ledger.contents id key)
          ((ledger.cachedLength + 1) % unsignedRange) ledger.cachedLength
          none).1, (ledger.read id (ledger.contents id key)
          ((ledger.cachedLength + 1) % unsignedRange) ledger.cachedLength
          none).2) := by
      unfold Ledger.get
      rw [if_neg refused, if_pos hit]
    rw [computes, length]
    simp only [Call.InBounds, if_pos hit] at inside
    refine wp_mono ?_ (achieves_readBlock tracks found none inside)
    rintro result a' ⟨returned, after⟩
    exact ⟨fun known same => returned.symm.trans (Option.some.inj same), after⟩
  · have missed : key ≠ client.lastRndvAccessedKey := fun isTag =>
      hit ((tracks.isCached usable).mp isTag)
    have absent : ledger.isCached key = false := by
      simpa using hit
    rw [if_pos missed]
    by_cases long : 8 + (key.length + 1) > eagerProtocolLimit
    · rw [if_neg (not_le.mpr long)]
      refine crash ?_
      simp only [Call.MayCrash]
      unfold Ledger.get
      rw [if_neg refused, if_neg hit, if_pos long]
    have size : (key.length + 1 + sizeofPacket) % unsignedRange =
        key.length + 1 + sizeofPacket := by
      refine Nat.mod_eq_of_lt ?_
      simp only [eagerProtocolLimit, sizeofPacket, unsignedRange] at long ⊢
      omega
    rw [if_pos (not_lt.mp long), size]
    rw [size] at refused
    refine achieves_exchange here.quiet
      (fun small => eagerGet_sent _ _ small le_rfl)
      (fun _ _ same => absurd same (by simp)) (fun reason => ?_)
      (fun intact _ reply store replied => ?_)
    · have broken := reason.resolve_right (not_lt.mpr (not_lt.mp refused))
      have known : ledger.broken id = true := here.broken.symm.trans broken
      have computes : ledger.get id key = (some ⟨-1, none, none⟩, ledger) := by
        unfold Ledger.get
        rw [size, if_neg refused, if_neg hit, if_neg long, if_pos known]
      rw [computes]
      have sent := (eagerGet_sent (client.buf (.server id)) key
        (not_lt.mp refused) le_rfl).carries.1.1
      simp only [Request.packet, Packet.type] at sent
      unfold getReply
      simp only [Option.getD_none, Client.buf_setBuf, sent]
      exact achieves_done ⟨fun known same => Option.some.inj same,
        (tracks.broken known).setBuf _ _⟩
    · obtain rfl := replied.of_get
      have unchanged : a.setPeer id { a.peers id with
          store := (a.peers id).store, waiting := none } = a := by
        rw [← here.quiet]
        exact a.setPeer_self id
      rw [unchanged]
      exact achieves_getReply (tracks.setBuf _ _) replied
        (here.broken.symm.trans intact) (by rw [size]; exact refused) long
        absent crash inside

end Calls

end RdmaKv
