import RdmaKv.Ex4.Client

/-!
# What the calls of a client do, without a network

A ledger follows the calls of a client: what every server holds under every
key, which key's buffer is cached and on which connection, the length that is
remembered for it, and which connections are broken.  The calls compute on the
ledger alone what they return.
-/

namespace RdmaKv

open ByteMemory

/-- What is held under a key: a value, or the length sent with the latest
rendezvous request and the contents of the buffer. -/
inductive Kept where
  | inline (value : List UInt8)
  | buffer (valueLength : Nat) (contents : Memory)

structure Ledger where
  held : Nat → CString → Option Kept
  cached : Option (Nat × CString)
  cachedLength : Nat
  broken : Nat → Bool

namespace Ledger

def init : Ledger where
  held := fun _ _ => none
  cached := none
  cachedLength := 0
  broken := fun _ => false

def put (ledger : Ledger) (id : Nat) (key : CString) (kept : Kept) :
    Ledger :=
  { ledger with
    held := fun server other =>
      if server = id ∧ other = key then some kept
      else ledger.held server other }

def breakLink (ledger : Ledger) (id : Nat) : Ledger :=
  { ledger with
    broken := fun server => if server = id then true else ledger.broken server }

def isCached (ledger : Ledger) (key : CString) : Bool :=
  match ledger.cached with
  | some (_, other) => decide (other = key)
  | none => false

def cache (ledger : Ledger) (id : Nat) (key : CString) (length : Nat) :
    Ledger :=
  { ledger with cached := some (id, key), cachedLength := length }

def invalidate (ledger : Ledger) (key : CString) : Ledger :=
  if ledger.isCached key then { ledger with cached := none } else ledger

/-- The contents of the buffer of a key; a buffer that is newly assigned is
zero. -/
def contents (ledger : Ledger) (id : Nat) (key : CString) : Memory :=
  match ledger.held id key with
  | some (.buffer _ contents) => contents
  | _ => Memory.zero

/-- The latest value of the key is in a buffer. -/
def inBuffer (ledger : Ledger) (id : Nat) (key : CString) : Bool :=
  match ledger.held id key with
  | some (.buffer _ _) => true
  | _ => false

/-- The length that was sent with the latest rendezvous request. -/
def sentLength (ledger : Ledger) (id : Nat) (key : CString) : Nat :=
  match ledger.held id key with
  | some (.buffer valueLength _) => valueLength
  | _ => 0

/-- Write into the buffer of a key. -/
def write (ledger : Ledger) (id : Nat) (key : CString) (value : Memory)
    (length : Nat) : Int × Ledger :=
  if ledger.broken id = false ∧ length ≤ maxTestSize then
    (0, ledger.put id key (.buffer (ledger.sentLength id key)
      ((ledger.contents id key).copy 0 length value)))
  else (1, ledger.breakLink id)

abbrev IsEager (terminator : Nat) (key : CString) (valueLength : Nat) : Prop :=
  (key.length + valueLength + sizeofPacket + 1 + terminator) % unsignedRange <
    eagerProtocolLimit

/-- `kv_set`, unless it crashes. -/
def set (terminator id : Nat) (key : CString) (value : Memory)
    (valueLength : Nat) (ledger : Ledger) : Option (Int × Ledger) :=
  if IsEager terminator key valueLength then
    let ledger := ledger.invalidate key
    if 12 + (key.length + 1) + (valueLength + terminator) ≤
        eagerProtocolLimit then
      if ledger.broken id then some (1, ledger)
      else some (0, ledger.put id key (.inline (value.slice 0 valueLength)))
    else none
  else if ledger.isCached key then
    some ({ ledger with cachedLength := valueLength }.write id key value
      ((valueLength + 1) % unsignedRange))
  else if ledger.broken id = false ∧
      key.length + 1 + sizeofPacket ≤ eagerProtocolLimit then
    let sentLength := (valueLength + terminator) % unsignedRange
    let ledger := ledger.put id key
      (.buffer sentLength (ledger.contents id key))
    some ((ledger.cache id key valueLength).write id key value sentLength)
  else none

def read (ledger : Ledger) (id : Nat) (contents : Memory)
    (size length : Nat) (stored : Option Nat) : GetResult × Ledger :=
  if ledger.broken id = false ∧ length ≤ maxTestSize ∧ length ≤ size then
    (⟨0, some ((Memory.zero.copy 0 length contents).slice 0 size), stored⟩,
      ledger)
  else (⟨0, some (Memory.zero.slice 0 size), stored⟩, ledger.breakLink id)

/-- `kv_get` when it asks the server, and what it returns unless the key is
missing. -/
def fetch (id : Nat) (key : CString) (ledger : Ledger) :
    Option GetResult × Ledger :=
  match ledger.held id key with
  | none => (none, ledger)
  | some (.inline value) =>
      (some ⟨0, some (value ++ [0]), some value.length⟩, ledger)
  | some (.buffer valueLength contents) =>
      let size := (valueLength + 1) % unsignedRange
      let (result, ledger) := (ledger.cache id key valueLength).read id
        contents size size (some valueLength)
      (some result, ledger)

/-- `kv_get`, and what it returns unless the key is missing or too long. -/
def get (id : Nat) (key : CString) (ledger : Ledger) :
    Option GetResult × Ledger :=
  if (key.length + 1 + sizeofPacket) % unsignedRange > eagerProtocolLimit then
    (some ⟨-1, none, none⟩, ledger)
  else if ledger.isCached key then
    let length := ledger.cachedLength
    let (result, ledger) := ledger.read id (ledger.contents id key)
      ((length + 1) % unsignedRange) length none
    (some result, ledger)
  else if 8 + (key.length + 1) > eagerProtocolLimit then (none, ledger)
  else if ledger.broken id then (some ⟨-1, none, none⟩, ledger)
  else ledger.fetch id key

end Ledger

/-- The cache is consulted for a key only on the connection on which it was
filled, and while it is empty not for the empty key. -/
def Ledger.Usable (ledger : Ledger) (id : Nat) (key : CString) : Prop :=
  match ledger.cached with
  | none => key ≠ CString.empty
  | some (other, cachedKey) => cachedKey = key → other = id

/-! ## Calls -/

inductive Returned where
  | set (ret : Int)
  | get (result : GetResult)
  deriving DecidableEq

inductive Call where
  | set (terminator id : Nat) (key : CString) (value : Memory)
      (valueLength : Nat)
  | get (id : Nat) (key : CString)

namespace Call

def after (ledger : Ledger) : Call → Ledger
  | set terminator id key value valueLength =>
      match ledger.set terminator id key value valueLength with
      | some (_, ledger) => ledger
      | none => ledger
  | get id key => (ledger.get id key).2

/-- The call may return this.  The result for a missing key is whatever is in
`ctx->buf`. -/
def Returns (ledger : Ledger) : Call → Returned → Prop
  | set terminator id key value valueLength, .set ret =>
      ∃ ledger', ledger.set terminator id key value valueLength =
        some (ret, ledger')
  | get id key, .get result =>
      ∀ known, (ledger.get id key).1 = some known → result = known
  | _, _ => False

def MayCrash (ledger : Ledger) : Call → Prop
  | set terminator id key value valueLength =>
      ledger.set terminator id key value valueLength = none
  | get id key => (ledger.get id key).1 = none

/-- The length of the key fits into an `unsigned`, and if the call consults
the cache, the cache may be used. -/
def Consults (ledger : Ledger) : Call → Prop
  | set terminator id key _ valueLength =>
      key.length < unsignedRange ∧
        (Ledger.IsEager terminator key valueLength ∨ ledger.Usable id key)
  | get id key => key.length < unsignedRange ∧ ledger.Usable id key

/-- The RDMA operations of the call stay in the server's buffer and in the
local region. -/
def InBounds (ledger : Ledger) : Call → Prop
  | set terminator _ key _ valueLength =>
      Ledger.IsEager terminator key valueLength ∨
        (if ledger.isCached key then (valueLength + 1) % unsignedRange
        else (valueLength + terminator) % unsignedRange) ≤ maxTestSize
  | get id key =>
      if ledger.isCached key then
        ledger.cachedLength ≤ maxTestSize ∧
          ledger.cachedLength ≤ (ledger.cachedLength + 1) % unsignedRange
      else (ledger.sentLength id key + 1) % unsignedRange ≤ maxTestSize

end Call

end RdmaKv
