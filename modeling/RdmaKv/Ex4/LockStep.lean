import RdmaKv.Ex4.Schedule
import RdmaKv.Ex4.WorkRequests

/-!
# The client and its servers in lock step

Every call waits for as many completions as what it posts leads to: one for a
set that is not answered or an RDMA operation, two for a request and its
reply.  So the client stays in lock step with the index server and with every
key-value server, whatever the schedule.
-/

namespace RdmaKv.Verbs

open ByteMemory Interaction QueuePair Relation

variable {regMr : Nat → Nat → Option IbvMr} {net : Net (services regMr)}
variable {conn : Conn} {reply : Option Nat}

/-! ## `pp_wait_completions` -/

/-- A call that leaves every connection between two waits. -/
def Settles {α : Type} (regMr : Nat → Nat → Option IbvMr) (act : Act α) :
    Prop :=
  ∀ net : Net (services regMr), net.Rests →
    wp (environment False (services regMr)) Net.Ready True
      (fun _ net' => net'.Rests) act net

theorem Settles.bind {α β : Type} {act : Act α} {next : α → Act β}
    (first : Settles regMr act) (rest : ∀ value, Settles regMr (next value)) :
    Settles regMr (act >>= next) :=
  fun net rests => wp_bind
    (wp_mono (fun value net' later => rest value net' later) (first net rests))

/-- The servers have started and nothing was posted but the first receives. -/
structure Initial (net : Net (services regMr)) : Prop where
  fresh : ∀ conn, (net conn).Fresh
  started : ∀ id, Server.start (regMr id) = some (net (.server id)).state
  indexerOpen : (net .indexer).state = false

open Sample

/-- A run leads to the connections, wherever it leaves the program. -/
def Reaches {α : Type} (start : Act α × Net (services mr))
    (net : Net (services mr)) : Prop :=
  ∃ program, Steps (environment False (services mr)) start (program, net)

theorem Reaches.head {α : Type} {start next : Act α × Net (services mr)}
    {net : Net (services mr)}
    (step : Step (environment False (services mr)) start next)
    (later : Reaches next net) : Reaches start net := by
  obtain ⟨program, steps⟩ := later
  exact ⟨program, ReflTransGen.head step steps⟩

end RdmaKv.Verbs
