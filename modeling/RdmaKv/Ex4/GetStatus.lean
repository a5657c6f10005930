import RdmaKv.Ex4.Client
import RdmaKv.Ex4.Requests

/-!
# The waits of `kv_get`

`kv_get` of both clients with the status of every operation that it posts.
`pp_wait_completions` reports a failure, and `kv_get` does not look.
-/

namespace RdmaKv

open ByteMemory

/-- What `kv_get` posts and waits for. -/
inductive GetOp where
  | recv
  | send
  | read
  deriving DecidableEq

/-- How a call of `kv_get` meets its peers: whether each operation completes
with `IBV_WC_SUCCESS`, the completions that each `ibv_poll_cq` returns, and
what `ctx->buf` holds when the wait for the reply is over. -/
structure Delivery where
  success : GetOp → Bool
  polls : List (List GetOp)
  reply : Memory

/-- What `kv_get` returns, what it has posted and what it leaves. -/
structure GetRun where
  ret : Int
  posted : List GetOp
  client : Client

namespace Delivery

/-- The loop over what one `ibv_poll_cq` has returned: how many completions
were counted, if all of them were successful. -/
def lookAt (delivery : Delivery) : Nat → List GetOp → Option Nat
  | counted, [] => some counted
  | counted, op :: rest =>
      if delivery.success op then delivery.lookAt (counted + 1) rest
      else none

/-- `pp_wait_completions`: what it returns, and the polls that are left.  It
does not return if there are not enough of them. -/
def ppWaitCompletions (delivery : Delivery) (iters : Nat) :
    Nat → List (List GetOp) → Option (Int × List (List GetOp))
  | counted, polls =>
      if iters ≤ counted then some (0, polls)
      else
        match polls with
        | [] => none
        | poll :: rest =>
            match delivery.lookAt counted poll with
            | some counted => ppWaitCompletions delivery iters counted rest
            | none => some (1, rest)

/-- The RDMA read at the end of a branch; what the wait returns is dropped. -/
def readValue (delivery : Delivery) (polls : List (List GetOp))
    (posted : List GetOp) (client : Client) : Option GetRun := do
  let _ ← delivery.ppWaitCompletions 1 0 polls
  return ⟨0, posted ++ [.read], client⟩

/-- `kv_get`, as far as its result and the globals go.  `none` where it does
not return. -/
def kvGet (delivery : Delivery) (server : Nat) (key : CString)
    (client : Client) : Option GetRun :=
  let keyLength := key.length % unsignedRange
  let packetSize := (keyLength + 1 + sizeofPacket) % unsignedRange
  if packetSize > eagerProtocolLimit then some ⟨-1, [], client⟩
  else if key ≠ client.lastRndvAccessedKey then do
    let (_, polls) ← delivery.ppWaitCompletions 2 0 delivery.polls
    let buf := delivery.reply
    let client := client.setBuf (.server server) buf
    let posted := [GetOp.recv, .send]
    if buf.loadLE 0 4 = PacketType.eagerGetResponse.code then
      if 12 + buf.loadLE 8 4 ≤ eagerProtocolLimit then
        some ⟨0, posted, client⟩
      else none
    else if buf.loadLE 0 4 = PacketType.rendezvousGetResponse.code then
      let remote : IbvMr :=
        ⟨UInt64.ofNat (buf.loadLE 16 8), UInt32.ofNat (buf.loadLE 24 4)⟩
      delivery.readValue polls posted
        (client.cache key (buf.loadLE 8 4) remote)
    else some ⟨-1, posted, client⟩
  else delivery.readValue delivery.polls [] client

/-- A call is truthful: it returns 0 only if everything that it posted was
successful, and otherwise leaves the cache alone. -/
structure Truthful (delivery : Delivery) (client : Client) (run : GetRun) :
    Prop where
  success : run.ret = 0 → ∀ op ∈ run.posted, delivery.success op = true
  unchanged : run.ret ≠ 0 →
    run.client.lastRndvAccessedKey = client.lastRndvAccessedKey ∧
    run.client.lastAccessedKeyValLength = client.lastAccessedKeyValLength ∧
    run.client.lastAccessedServer = client.lastAccessedServer

/-- What the branches of `kv_get` need: nothing where it returns -1, and
otherwise that what the branch posts is successful. -/
def Succeeds (delivery : Delivery) (key : CString) (client : Client) : Prop :=
  let type := delivery.reply.loadLE 0 4
  if (key.length % unsignedRange + 1 + sizeofPacket) % unsignedRange >
      eagerProtocolLimit then True
  else if key = client.lastRndvAccessedKey then
    delivery.success .read = true
  else if type = PacketType.eagerGetResponse.code then
    delivery.success .recv = true ∧ delivery.success .send = true
  else if type = PacketType.rendezvousGetResponse.code then
    delivery.success .recv = true ∧ delivery.success .send = true ∧
      delivery.success .read = true
  else True

variable {delivery : Delivery} {server : Nat} {key : CString}
  {client : Client} {run : GetRun}

private theorem truthful_of_ret_zero (isZero : run.ret = 0) :
    delivery.Truthful client run ↔
      ∀ op ∈ run.posted, delivery.success op = true :=
  ⟨fun truthful => truthful.success isZero,
    fun success => ⟨fun _ => success, fun fails => absurd isZero fails⟩⟩

/-- A run that returns -1 has changed `ctx->buf` only. -/
private theorem truthful_failed (posted : List GetOp) (buf : Memory) :
    delivery.Truthful client
      ⟨-1, posted, client.setBuf (.server server) buf⟩ :=
  ⟨fun isZero => absurd isZero (by simp), fun _ => ⟨rfl, rfl, rfl⟩⟩

private theorem readValue_eq {polls : List (List GetOp)} {posted : List GetOp}
    (returned : delivery.readValue polls posted client = some run) :
    run = ⟨0, posted ++ [.read], client⟩ := by
  obtain ⟨waited, _, done⟩ := Option.bind_eq_some_iff.mp returned
  exact (Option.some.inj done).symm

/-- `kv_get` is truthful exactly if it returns -1 or everything that it posts
is successful: whatever its waits return, it goes on. -/
theorem kvGet_truthful_iff
    (returned : delivery.kvGet server key client = some run) :
    delivery.Truthful client run ↔ delivery.Succeeds key client := by
  unfold kvGet at returned
  unfold Succeeds
  simp only at returned ⊢
  split at returned
  · rename_i large
    rw [if_pos large]
    obtain rfl := Option.some.inj returned
    exact iff_of_true ⟨fun isZero => absurd isZero (by simp),
      fun _ => ⟨rfl, rfl, rfl⟩⟩ trivial
  · rename_i small
    rw [if_neg small]
    split at returned
    · rename_i uncached
      rw [if_neg uncached]
      obtain ⟨⟨waited, polls⟩, _, replied⟩ :=
        Option.bind_eq_some_iff.mp returned
      simp only at replied
      split at replied
      · rename_i isEager
        rw [if_pos isEager]
        split at replied
        · obtain rfl := Option.some.inj replied
          rw [truthful_of_ret_zero rfl]
          simp
        · exact absurd replied (by simp)
      · rename_i notEager
        rw [if_neg notEager]
        split at replied
        · rename_i isRendezvous
          rw [if_pos isRendezvous]
          obtain rfl := readValue_eq replied
          rw [truthful_of_ret_zero rfl]
          simp
        · rename_i other
          rw [if_neg other]
          obtain rfl := Option.some.inj replied
          exact iff_of_true (truthful_failed _ _) trivial
    · rename_i cached
      rw [if_pos (not_not.mp cached)]
      obtain rfl := readValue_eq returned
      rw [truthful_of_ret_zero rfl]
      simp

/-- The first call for a key whose value is in a buffer: the request and the
reply are fine, and the RDMA read fails. -/
def failedRead : Delivery where
  success op := op ≠ .read
  polls := [[.send, .recv], [.read]]
  reply := (Packet.rendezvousGetResponse 5000 ⟨7, 9⟩).store Memory.zero

/-- A client that has called nothing, and what it has after `failedRead`. -/
def freshClient : Client := Client.init fun _ => Memory.zero

def readClient : Client :=
  (freshClient.setBuf (.server 0) failedRead.reply).cache Sample.firstKey
    5000 ⟨7, 9⟩

private theorem kvGet_failedRead :
    failedRead.kvGet 0 Sample.firstKey freshClient =
      some ⟨0, [.recv, .send, .read], readClient⟩ := by
  rfl

theorem kvGet_truthful_iff_failedRead :
    failedRead.Truthful freshClient
        ⟨0, [.recv, .send, .read], readClient⟩ ↔
      failedRead.Succeeds Sample.firstKey freshClient :=
  kvGet_truthful_iff kvGet_failedRead

/-- `kv_get` returns 0 although its read has failed. -/
theorem kvGet_truthful_fails :
    ¬ ∀ (delivery : Delivery) server key client run,
      delivery.kvGet server key client = some run →
        delivery.Truthful client run := by
  intro always
  have truthful := always _ _ _ _ _ kvGet_failedRead
  exact absurd (truthful.success rfl .read (by decide)) (by decide)

end Delivery

end RdmaKv
