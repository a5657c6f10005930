import RdmaKv.Ex4.Calls

/-!
# What the calls post

Whatever its peers answer, `kv_set` and `kv_get` post on the connection of
their server only, and a message that fits into `ctx->buf` is one request for
their key.
-/

namespace RdmaKv

open ByteMemory Interaction

def Op.conn : Op → Conn
  | .send conn _ => conn
  | .recv conn => conn
  | .rdmaWrite server _ _ _ _ _ => .server server
  | .rdmaRead server _ _ _ _ => .server server

/-- An operation of a call for a key: a message that it sends fits, if the
call is `small`, and one that fits is a request that sets no other key. -/
def Op.Serves (server : Nat) (key : CString) (small : Prop) : Op → Prop
  | .send conn message => conn = .server server ∧
      (small → message.size ≤ eagerProtocolLimit) ∧
      (message.size ≤ eagerProtocolLimit →
        ∃ request : Request, request.SentAs message ∧
          ∀ other, request.sets other = true → other = key)
  | op => op.conn = .server server

theorem Op.Serves.conn {server : Nat} {key : CString} {small : Prop} {op : Op}
    (serves : op.Serves server key small) : op.conn = .server server := by
  cases op with
  | send conn message => exact serves.1
  | recv conn => exact serves
  | rdmaWrite server key region source length remote => exact serves
  | rdmaRead server key region length remote => exact serves

theorem Op.Serves.size {server : Nat} {key : CString} {small : Prop}
    {conn : Conn} {message : Message}
    (serves : (Op.send conn message).Serves server key small)
    (isSmall : small) : message.size ≤ eagerProtocolLimit := serves.2.1 isSmall

section Calls

variable {server terminator valueLength : Nat} {key : CString}
  {value : Memory} {client : Client} {small : Prop}

/-- The packet of `kv_set` fits: the sum that decides for the eager protocol
does not wrap, and the packet of the other one is short enough or is not
needed. -/
def SetFits (terminator : Nat) (key : CString) (valueLength : Nat)
    (client : Client) : Prop :=
  let packetSize :=
    key.length + valueLength + sizeofPacket + 1 + terminator
  if packetSize % unsignedRange < eagerProtocolLimit then
    packetSize < unsignedRange
  else key = client.lastRndvAccessedKey ∨
    key.length + 1 + sizeofPacket ≤ eagerProtocolLimit

/-- A request and its reply, which changes one buffer at most. -/
theorem always_exchange_setBuf {α : Type} {allowed : Op → Prop}
    {result : α → Prop} {conn : Conn} {message : Message}
    {next : Option Client → Run α}
    (sends : allowed (.send conn message)) (receives : allowed (.recv conn))
    (fails : (next none).Always allowed result)
    (resumes : ∀ buf,
      (next (some (client.setBuf conn buf))).Always allowed result) :
    (client.exchange conn message >>= next).Always allowed result := by
  refine ⟨sends, fun sent => ?_⟩
  cases sent with
  | false => exact fails
  | true =>
      refine ⟨receives, fun reply => ?_⟩
      cases reply with
      | none => exact fails
      | some reply => exact resumes _

theorem always_exchange {α : Type} {allowed : Op → Prop} {result : α → Prop}
    {conn : Conn} {message : Message} {next : Option Client → Run α}
    (sends : allowed (.send conn message)) (receives : allowed (.recv conn))
    (resumes : ∀ replied, (next replied).Always allowed result) :
    (client.exchange conn message >>= next).Always allowed result :=
  always_exchange_setBuf sends receives (resumes none) fun _ => resumes _

theorem always_kvSet (short : key.length < unsignedRange) :
    (kvSetWith terminator server key value valueLength client).Always
      (Op.Serves server key (SetFits terminator key valueLength client))
      (fun _ => True) := by
  have keyLength : key.length % unsignedRange = key.length :=
    Nat.mod_eq_of_lt short
  unfold kvSetWith
  simp only [keyLength]
  split
  · rename_i isEager
    unfold eagerSetWith
    simp only
    split
    · rename_i fits
      refine ⟨⟨rfl, fun _ => isEager.le, fun small => ?_⟩, fun sent => trivial⟩
      refine ⟨_, eagerSet_sent _ value fits small (eagerSet_counts fits),
        fun other same => ?_⟩
      simpa [Request.sets, eq_comm] using same
    · trivial
  · rename_i isLarge
    split
    · exact ⟨rfl, fun written => trivial⟩
    · rename_i uncached
      unfold rendezvousSetWith
      simp only
      split
      · rename_i fits
        have size : (key.length + 1 + sizeofPacket) % unsignedRange =
            key.length + 1 + sizeofPacket := by
          refine Nat.mod_eq_of_lt ?_
          simp only [eagerProtocolLimit, sizeofPacket, unsignedRange] at fits ⊢
          omega
        rw [size]
        refine always_exchange ⟨rfl, fun setFits => ?_, fun small => ?_⟩ rfl
          fun replied => ?_
        · unfold SetFits at setFits
          simp only [if_neg isLarge] at setFits
          exact setFits.resolve_left uncached
        · rw [Client.buf_setBuf]
          exact ⟨_, rendezvousSet_sent _ (Nat.mod_lt _ (by decide)) small
            le_rfl, fun other same => by
              simpa [Request.sets, eq_comm] using same⟩
        · cases replied with
          | none => trivial
          | some client =>
              simp only
              split
              · exact ⟨rfl, fun written => trivial⟩
              · trivial
      · trivial

private theorem always_readBlock {size length : Nat} {remote : IbvMr}
    {stored : Option Nat} :
    (readBlock server key size length remote stored client).Always
      (Op.Serves server key small) (fun _ => True) :=
  ⟨rfl, fun _ => trivial⟩

theorem always_kvGet (short : key.length + 1 + sizeofPacket < unsignedRange) :
    (kvGet server key client).Always (Op.Serves server key True)
      (fun _ => True) := by
  have keyLength : key.length % unsignedRange = key.length :=
    Nat.mod_eq_of_lt (by omega)
  unfold kvGet
  simp only [keyLength]
  split
  · trivial
  · rename_i small
    split
    · split
      · refine always_exchange ⟨rfl, fun _ => not_lt.mp small, fun small => ?_⟩
          rfl fun replied => ?_
        · rw [Nat.mod_eq_of_lt short] at small ⊢
          exact ⟨_, eagerGet_sent _ key small le_rfl,
            fun other isSet => absurd isSet (by simp [Request.sets])⟩
        · unfold getReply
          simp only
          split
          · split
            · trivial
            · trivial
          · split
            · exact always_readBlock
            · trivial
      · trivial
    · exact always_readBlock

end Calls

end RdmaKv
