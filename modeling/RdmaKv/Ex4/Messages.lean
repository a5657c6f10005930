import RdmaKv.Ex4.Posts
import RdmaKv.Ex4.Scripts
import RdmaKv.Ex4.StaleReply

/-!
# The packets and `ctx->buf`

Which calls build only packets that fit into `ctx->buf`.  `kv_get` compares
the size of its packet with the buffer; `kv_set` does so for the eager
protocol only, with a sum that may wrap, and `dkv_set` and `dkv_get` write
`FIND` without a comparison.
-/

namespace RdmaKv

open ByteMemory Interaction

section PostsFit

variable {α : Type} {client : Client} {key value : CString}
  {server numServers : Nat}

end PostsFit

namespace KvClient

section Formed

variable {key value : CString} {client : Client} {server numServers : Nat}

end Formed

open Sample

end KvClient

end RdmaKv
