import RdmaKv.Ex4.Cluster

/-!
# One schedule

The servers handle everything that was sent to them before the client looks
for a reply.  Under this schedule a run is computed.
-/

namespace RdmaKv

open ByteMemory Interaction Relation

namespace Cluster

variable {regMr : Nat → Nat → Option IbvMr} {c c' : Cluster}

/-- An idle server handles messages and returns from `maintain_pool` after
each of them. -/
def drain (regMr : Nat → Nat → Option IbvMr) (id : Nat) :
    List Message → Cluster → Option Cluster
  | [], c => some c
  | message :: rest, c =>
      if (c.hosts id).maintaining then none
      else do
        let (host, reply) ← (c.hosts id).receive message
        let maintained ← host.maintain (regMr id)
        let received := (c.setHost id host).setLink (.server id)
          ((c.links (.server id)).handled rest reply)
        drain regMr id rest (received.setHost id maintained)

/-- The index server handles messages. -/
def drainIndexer : List Message → Cluster → Option Cluster
  | [], c => some c
  | message :: rest, c => do
      let (buf, reply) ← locate c.indexerBuf message
      drainIndexer rest ({ c with indexerBuf := buf }.setLink .indexer
        ((c.links .indexer).handled rest (some reply)))

/-- What the peer does before the client's operation completes. -/
def settle (regMr : Nat → Nat → Option IbvMr) (op : Op) (c : Cluster) :
    Option Cluster :=
  match op with
  | .recv (.server id) => drain regMr id (c.links (.server id)).toServer c
  | .recv .indexer => drainIndexer (c.links .indexer).toServer c
  | _ => some c

def respond (regMr : Nat → Nat → Option IbvMr) (op : Op) (c : Cluster) :
    Option (Answer op × Cluster) := do
  let c ← c.settle regMr op
  c.complete op

private theorem drain_evolves {id : Nat} {messages : List Message}
    (waiting : (c.links (.server id)).toServer = messages)
    (drained : drain regMr id messages c = some c') :
    ReflTransGen (Evolve regMr) c c' := by
  induction messages generalizing c with
  | nil =>
      obtain rfl := Option.some.inj drained
      exact .refl
  | cons message rest inductionHypothesis =>
      unfold drain at drained
      split at drained
      · exact absurd drained (by simp)
      · rename_i idle
        simp only [Option.bind_eq_bind, Option.bind_eq_some_iff] at drained
        obtain ⟨⟨host, reply⟩, received, maintained, returned, later⟩ := drained
        have first : Evolve regMr c _ :=
          .receive (by simpa using idle) waiting received
        have here : ((c.setHost id host).setLink (.server id)
            ((c.links (.server id)).handled rest reply)).hosts id = host :=
          if_pos rfl
        have second : Evolve regMr ((c.setHost id host).setLink (.server id)
            ((c.links (.server id)).handled rest reply)) _ :=
          .maintain (by rw [here]; exact Host.receive_maintaining received)
            (by rw [here]; exact returned)
        refine .head first (.head second (inductionHypothesis ?_ later))
        simp [setLink, setHost]

private theorem drainIndexer_evolves {messages : List Message}
    (waiting : (c.links .indexer).toServer = messages)
    (drained : drainIndexer messages c = some c') :
    ReflTransGen (Evolve regMr) c c' := by
  induction messages generalizing c with
  | nil =>
      obtain rfl := Option.some.inj drained
      exact .refl
  | cons message rest inductionHypothesis =>
      simp only [drainIndexer, Option.bind_eq_bind, Option.bind_eq_some_iff]
        at drained
      obtain ⟨⟨buf, reply⟩, located, later⟩ := drained
      refine .head (.locate waiting located) (inductionHypothesis ?_ later)
      simp [setLink]

/-- A run under this schedule is a run of the cluster. -/
private theorem steps_of_respond {α : Type} {fuel : Nat}
    {start reached : Run α × Cluster}
    (ran : advance (respond regMr) fuel start = some reached) :
    Steps (Cluster.environment regMr) start reached := by
  refine steps_of_advance (Cluster.environment regMr) ?_ ran
  intro op before given after responded
  obtain ⟨middle, settled, completed⟩ := Option.bind_eq_some_iff.mp responded
  refine ⟨middle, ?_, completed⟩
  unfold settle at settled
  split at settled
  · exact drain_evolves rfl settled
  · exact drainIndexer_evolves rfl settled
  · obtain rfl := Option.some.inj settled
    exact .refl

/-- A run under this schedule that ends with a result. -/
theorem steps_of_result {α : Type} (fuel : Nat) (start : Run α × Cluster)
    (ended : ((advance (respond regMr) fuel start).bind
      fun reached => reached.1.result?).isSome = true) :
    ∃ value c, Steps (Cluster.environment regMr) start (.done value, c) := by
  obtain ⟨value, ended⟩ := Option.isSome_iff_exists.mp ended
  obtain ⟨⟨program, c⟩, ran, isResult⟩ := Option.bind_eq_some_iff.mp ended
  obtain rfl := Program.eq_done_of_result? isResult
  exact ⟨value, c, steps_of_respond ran⟩

variable (regMr) in
/-- A run under this schedule that ends with such a result. -/
theorem steps_of_value {α : Type} (fuel : Nat) (start : Run α × Cluster)
    (test : α → Bool)
    (ended : (((advance (respond regMr) fuel start).bind
      fun reached => reached.1.result?).any test) = true) :
    ∃ value c, Steps (Cluster.environment regMr) start (.done value, c) ∧
      test value = true := by
  obtain ⟨value, ended, tested⟩ := (Option.any_eq_true ..).mp ended
  obtain ⟨⟨program, c⟩, ran, isResult⟩ := Option.bind_eq_some_iff.mp ended
  obtain rfl := Program.eq_done_of_result? isResult
  exact ⟨value, c, steps_of_respond ran, tested⟩

/-- A run under this schedule that crashes. -/
theorem steps_of_crash {α : Type} (fuel : Nat) (start : Run α × Cluster)
    (crashes : (advance (respond regMr) fuel start).any
      (fun reached => reached.1.isCrash) = true) :
    ∃ c, Steps (Cluster.environment regMr) start (.crash, c) := by
  obtain ⟨⟨program, c⟩, ran, crashed⟩ := (Option.any_eq_true ..).mp crashes
  obtain rfl := Program.eq_crash_of_isCrash crashed
  exact ⟨c, steps_of_respond ran⟩

variable (regMr) in
/-- A run under this schedule up to an operation. -/
theorem steps_of_posted {α : Type} (fuel : Nat) (start : Run α × Cluster)
    (test : Op → Bool)
    (posts : (((advance (respond regMr) fuel start).bind
      fun reached => reached.1.posted?).any test) = true) :
    ∃ reached op resume, Steps (Cluster.environment regMr) start reached ∧
      reached.1 = .perform op resume ∧ test op = true := by
  obtain ⟨op, posted, tested⟩ := (Option.any_eq_true ..).mp posts
  obtain ⟨reached, ran, isPosted⟩ := Option.bind_eq_some_iff.mp posted
  obtain ⟨resume, program⟩ := Program.eq_perform_of_posted? isPosted
  exact ⟨reached, op, resume, steps_of_respond ran, program, tested⟩

variable (regMr) in
/-- A run under this schedule of so many operations. -/
theorem steps_of_reached {α : Type} (fuel : Nat) (start : Run α × Cluster)
    (test : Run α × Cluster → Bool)
    (reaches : ((advance (respond regMr) fuel start).any test) = true) :
    ∃ reached, Steps (Cluster.environment regMr) start reached ∧
      test reached = true := by
  obtain ⟨reached, ran, tested⟩ := (Option.any_eq_true ..).mp reaches
  exact ⟨reached, steps_of_respond ran, tested⟩

end Cluster

def Op.isRead : Op → Bool
  | .rdmaRead _ _ _ _ _ => true
  | _ => false

/-! ## A cluster that has started -/

namespace Sample

/-- What `ibv_reg_mr` returns on a server: as many different registrations as
there are keys. -/
def mr (_ node : Nat) : Option IbvMr :=
  if node + 1 < 2 ^ 32 then regMr node else none

theorem mr_distinct (id : Nat) : DistinctMrs (mr id) := by
  intro first second server isFirst isSecond
  unfold mr at isFirst isSecond
  split at isFirst
  · split at isSecond
    · have same := Option.some.inj (isFirst.trans isSecond.symm)
      have keys := congrArg UInt32.toNat (IbvMr.mk.inj same).2
      rw [UInt32.toNat_ofNat_of_lt' (by omega),
        UInt32.toNat_ofNat_of_lt' (by omega)] at keys
      omega
    · exact absurd isSecond (by simp)
  · exact absurd isFirst (by simp)

def server : Server := (Server.start (mr 0)).getD Server.init

def cluster : Cluster where
  links := fun _ => ⟨[], [], false⟩
  hosts := fun _ => ⟨server, Memory.zero, false⟩
  indexerBuf := Memory.zero

theorem cluster_initial : Cluster.Initial mr cluster where
  started := fun id => by
    have starts : (Server.start (mr 0)).isSome = true := by decide
    obtain ⟨started, isStarted⟩ := Option.isSome_iff_exists.mp starts
    have same : server = started := by
      unfold server
      rw [isStarted, Option.getD_some]
    exact isStarted.trans (congrArg some same.symm)
  idle := fun _ => rfl
  links := fun _ => rfl

def client : Client := Client.init fun _ => Memory.zero

/-- A long value. -/
def letters (count : Nat) : CString := CString.replicate count 99 (by decide)

@[simp]
theorem length_letters (count : Nat) : (letters count).length = count :=
  CString.length_replicate count 99 _

end Sample

end RdmaKv
