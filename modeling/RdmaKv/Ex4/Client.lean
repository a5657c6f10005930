import RdmaKv.Ex4.Layout
import RdmaKv.Library.Interaction

/-!
# `kv_client.c` and the store client in `nweb23.c`

The two clients, as programs that post work requests and wait for their
completions.  They differ in what they count of a value: `kv_client.c` sends
a C string with its terminator, `nweb23.c` sends bytes and a length.

`pp_wait_completions` returns 0 when everything that was posted completed, and
1 when a completion failed.  A program crashes where an assertion fails or
where the C code leaves a buffer.
-/

namespace RdmaKv

open ByteMemory Interaction

/-- The peer that a `kv_handle` is connected to. -/
inductive Conn where
  | indexer
  | server (id : Nat)
  deriving DecidableEq

/-- What a client posts.  An RDMA operation names the key for which it is
posted, which is not transmitted, and the size of the local region that was
registered for it. -/
inductive Op where
  | send (conn : Conn) (message : Message)
  | recv (conn : Conn)
  | rdmaWrite (server : Nat) (key : CString) (region : Nat) (source : Memory)
      (length : Nat) (remote : IbvMr)
  | rdmaRead (server : Nat) (key : CString) (region length : Nat)
      (remote : IbvMr)

/-- How it completes: successfully or not, and with which bytes. -/
def Answer : Op → Type
  | .send _ _ => Bool
  | .recv _ => Option Message
  | .rdmaWrite _ _ _ _ _ _ => Bool
  | .rdmaRead _ _ _ _ _ => Option Memory

abbrev Run (α : Type) := Program Op Answer α

/-- The globals of a client and the `ctx->buf` of every connection. -/
structure Client where
  lastRndvAccessedKey : CString
  lastAccessedKeyValLength : Nat
  lastAccessedServer : IbvMr
  buf : Conn → Memory

namespace Client

def init (buf : Conn → Memory) : Client where
  lastRndvAccessedKey := CString.empty
  lastAccessedKeyValLength := 0
  lastAccessedServer := ⟨0, 0⟩
  buf := buf

def setBuf (client : Client) (conn : Conn) (buf : Memory) : Client :=
  { client with
    buf := fun other => if other = conn then buf else client.buf other }

@[simp]
theorem buf_setBuf (client : Client) (conn : Conn) (buf : Memory) :
    (client.setBuf conn buf).buf conn = buf := if_pos rfl

/-- `memset(last_rndv_accessed_key, '\0', key_length)` for the key that is
cached. -/
def invalidate (client : Client) (key : CString) : Client :=
  if key = client.lastRndvAccessedKey then
    { client with
      lastRndvAccessedKey := CString.empty
      lastAccessedKeyValLength := 0 }
  else client

def cache (client : Client) (key : CString) (valLength : Nat)
    (server : IbvMr) : Client :=
  { client with
    lastRndvAccessedKey := key
    lastAccessedKeyValLength := valLength
    lastAccessedServer := server }

/-- Post a receive and a send and wait for both: the reply arrives in
`ctx->buf`. -/
def exchange (conn : Conn) (message : Message) (client : Client) :
    Run (Option Client) :=
  .perform (.send conn message) fun (sent : Bool) =>
    if sent then
      .perform (.recv conn) fun (reply : Option Message) =>
        .done (reply.map fun reply =>
          client.setBuf conn (reply.deliver (client.buf conn)))
    else .done none

def write (server : Nat) (key : CString) (value : Memory) (length : Nat)
    (remote : IbvMr) (client : Client) : Run (Int × Client) :=
  .perform (.rdmaWrite server key length value length remote)
    fun (written : Bool) => .done (if written then 0 else 1, client)

end Client

/-! ## `kv_set` -/

/-- The eager branch of `kv_set`.  The value is copied with `terminator` bytes
after it. -/
def eagerSetWith (terminator server : Nat) (key : CString) (value : Memory)
    (keyLength valueLength packetSize : Nat) (client : Client) :
    Run (Int × Client) :=
  let client := client.invalidate key
  if 12 + (keyLength + 1) + (valueLength + terminator) ≤
      eagerProtocolLimit then
    let buf := (client.buf (.server server)).storeLE 0 4
      PacketType.eagerSetRequest.code
    let buf := buf.storeLE 8 4 valueLength
    let buf := buf.copy 12 (keyLength + 1) key.memory
    let buf := buf.copy (12 + (keyLength + 1)) (valueLength + terminator) value
    .perform (.send (.server server) ⟨buf, packetSize⟩) fun (sent : Bool) =>
      .done (if sent then 0 else 1, client.setBuf (.server server) buf)
  else .crash

/-- The rendezvous branch of `kv_set` when the buffer of the key is cached. -/
def cachedSet (server : Nat) (key : CString) (value : Memory)
    (valueLength : Nat) (client : Client) : Run (Int × Client) :=
  let client := { client with lastAccessedKeyValLength := valueLength }
  let length := (valueLength + 1) % unsignedRange
  client.write server key value length client.lastAccessedServer

/-- The rendezvous branch of `kv_set` otherwise: ask for the buffer, remember
it and write the value there.  The packet type is already set. -/
def rendezvousSetWith (terminator server : Nat) (key : CString)
    (value : Memory) (keyLength valueLength : Nat) (client : Client) :
    Run (Int × Client) :=
  let sentLength := (valueLength + terminator) % unsignedRange
  if 12 + (keyLength + 1) ≤ eagerProtocolLimit then
    let buf := (client.buf (.server server)).storeLE 8 4 sentLength
    let buf := buf.copy 12 (keyLength + 1) key.memory
    let packetSize := (keyLength + 1 + sizeofPacket) % unsignedRange
    (client.setBuf (.server server) buf).exchange (.server server)
        ⟨buf, packetSize⟩ >>= fun replied =>
      match replied with
      | none => .crash
      | some client =>
          let buf := client.buf (.server server)
          if buf.loadLE 0 4 = PacketType.rendezvousSetResponse.code ∧
              key.length < eagerProtocolLimit then
            let remote : IbvMr :=
              ⟨UInt64.ofNat (buf.loadLE 8 8), UInt32.ofNat (buf.loadLE 16 4)⟩
            let client := client.cache key valueLength remote
            client.write server key value sentLength remote
          else .crash
  else .crash

/-- `kv_set`, for a client that counts `terminator` bytes after a value. -/
def kvSetWith (terminator server : Nat) (key : CString) (value : Memory)
    (valueLength : Nat) (client : Client) : Run (Int × Client) :=
  let keyLength := key.length % unsignedRange
  let packetSize :=
    (keyLength + valueLength + sizeofPacket + 1 + terminator) % unsignedRange
  if packetSize < eagerProtocolLimit then
    eagerSetWith terminator server key value keyLength valueLength packetSize
      client
  else
    let client := client.setBuf (.server server)
      ((client.buf (.server server)).storeLE 0 4
        PacketType.rendezvousSetRequest.code)
    if key = client.lastRndvAccessedKey then
      cachedSet server key value valueLength client
    else
      rendezvousSetWith terminator server key value keyLength valueLength
        client

/-! ## `kv_get` -/

/-- What `kv_get` returns: the block that `*value` points to, and what it
stores in `*length`, if it does. -/
structure GetResult where
  ret : Int
  value : Option (List UInt8)
  length : Option Nat
  deriving DecidableEq

/-- Read the buffer of a key by RDMA into a block that was cleared. -/
def readBlock (server : Nat) (key : CString) (size length : Nat)
    (remote : IbvMr) (stored : Option Nat) (client : Client) :
    Run (GetResult × Client) :=
  .perform (.rdmaRead server key size length remote)
      fun (bytes : Option Memory) =>
    let memory :=
      match bytes with
      | some bytes => Memory.zero.copy 0 length bytes
      | none => Memory.zero
    .done (⟨0, some (memory.slice 0 size), stored⟩, client)

/-- The branches of `kv_get` on the reply in `ctx->buf`. -/
def getReply (server : Nat) (key : CString) (client : Client) :
    Run (GetResult × Client) :=
  let buf := client.buf (.server server)
  if buf.loadLE 0 4 = PacketType.eagerGetResponse.code then
    let valueLen := buf.loadLE 8 4
    if 12 + valueLen ≤ eagerProtocolLimit then
      .done (⟨0, some (buf.slice 12 valueLen ++ [0]), some valueLen⟩, client)
    else .crash
  else if buf.loadLE 0 4 = PacketType.rendezvousGetResponse.code then
    let valueLen := buf.loadLE 8 4
    let remote : IbvMr :=
      ⟨UInt64.ofNat (buf.loadLE 16 8), UInt32.ofNat (buf.loadLE 24 4)⟩
    let client := client.cache key valueLen remote
    let size := (valueLen + 1) % unsignedRange
    readBlock server key size size remote (some valueLen) client
  else .done (⟨-1, none, none⟩, client)

def kvGet (server : Nat) (key : CString) (client : Client) :
    Run (GetResult × Client) :=
  let keyLength := key.length % unsignedRange
  let packetSize := (keyLength + 1 + sizeofPacket) % unsignedRange
  if packetSize > eagerProtocolLimit then .done (⟨-1, none, none⟩, client)
  else if key ≠ client.lastRndvAccessedKey then
    if 8 + (keyLength + 1) ≤ eagerProtocolLimit then
      let buf := (client.buf (.server server)).storeLE 0 4
        PacketType.eagerGetRequest.code
      let buf := buf.copy 8 (keyLength + 1) key.memory
      let client := client.setBuf (.server server) buf
      client.exchange (.server server) ⟨buf, packetSize⟩ >>= fun replied =>
        getReply server key (replied.getD client)
    else .crash
  else
    let length := client.lastAccessedKeyValLength
    readBlock server key ((length + 1) % unsignedRange) length
      client.lastAccessedServer none client

/-! ## The clients -/

namespace KvClient

/-- `kv_set` of `kv_client.c`. -/
def kvSet (server : Nat) (key value : CString) (client : Client) :
    Run (Int × Client) :=
  kvSetWith 1 server key value.memory (value.length % unsignedRange) client

/-- `kv_get` of `kv_client.c`, which has no `*length`. -/
def kvGet (server : Nat) (key : CString) (client : Client) :
    Run (GetResult × Client) :=
  RdmaKv.kvGet server key client

/-- Ask the index server for the server of a key. -/
def findServer (numServers : Nat) (key : CString) (client : Client) :
    Run (Nat × Client) :=
  if 12 + (key.length + 1) ≤ eagerProtocolLimit then
    let packetSize := (key.length + sizeofPacket) % unsignedRange
    let buf := (Packet.find numServers key).store (client.buf .indexer)
    (client.setBuf .indexer buf).exchange .indexer ⟨buf, packetSize⟩ >>=
      fun replied =>
        match replied with
        | none => .crash
        | some client =>
            if (client.buf .indexer).loadLE 0 4 = PacketType.location.code then
              .done ((client.buf .indexer).loadLE 8 4, client)
            else .crash
  else .crash

def dkvSet (numServers : Nat) (key value : CString) (client : Client) :
    Run (Int × Client) :=
  findServer numServers key client >>= fun (selectedServer, client) =>
    kvSet selectedServer key value client

def dkvGet (numServers : Nat) (key : CString) (client : Client) :
    Run (GetResult × Client) :=
  findServer numServers key client >>= fun (selectedServer, client) =>
    kvGet selectedServer key client

end KvClient

namespace Nweb

/-- `kv_set` of `nweb23.c`. -/
def kvSet (server : Nat) (key : CString) (value : Memory) (length : Nat)
    (client : Client) : Run (Int × Client) :=
  kvSetWith 0 server key value (length % unsignedRange) client

/-- `kv_get` of `nweb23.c`. -/
def kvGet (server : Nat) (key : CString) (client : Client) :
    Run (GetResult × Client) :=
  RdmaKv.kvGet server key client

/-- Ask the index server for the server of a key. -/
def findServer (numServers : Nat) (key : CString) (client : Client) :
    Run (Nat × Client) :=
  if 12 + (key.length + 1) ≤ eagerProtocolLimit then
    let packetSize := (key.length + 1 + sizeofPacket) % unsignedRange
    let buf := (Packet.find numServers key).store (client.buf .indexer)
    (client.setBuf .indexer buf).exchange .indexer ⟨buf, packetSize⟩ >>=
      fun replied =>
        match replied with
        | none => .crash
        | some client =>
            if (client.buf .indexer).loadLE 0 4 = PacketType.location.code then
              .done ((client.buf .indexer).loadLE 8 4, client)
            else .crash
  else .crash

/-- `dkv_set` of `nweb23.c`. -/
def dkvSet (numServers : Nat) (key : CString) (value : Memory) (length : Nat)
    (client : Client) : Run (Int × Client) :=
  findServer numServers key client >>= fun (selectedServer, client) =>
    kvSet selectedServer key value length client

/-- `dkv_get` of `nweb23.c`. -/
def dkvGet (numServers : Nat) (key : CString) (client : Client) :
    Run (GetResult × Client) :=
  findServer numServers key client >>= fun (selectedServer, client) =>
    kvGet selectedServer key client

end Nweb

end RdmaKv
