import RdmaKv.Ex4.Scripts
import Mathlib.Algebra.Order.BigOperators.Group.Finset

/-!
# Every run of a client ends

The servers come to rest when the client sends nothing, and the client waits
only for a reply that is on its way.  So a run is finite, and it goes on until
the calls have returned, unless a step of a server fails.
-/

namespace RdmaKv

open ByteMemory Interaction

namespace Cluster

variable {regMr : Nat → Nat → Option IbvMr} {c c' : Cluster}

/-- A server cannot complete its next step. -/
def Halted (regMr : Nat → Nat → Option IbvMr) (c : Cluster) : Prop :=
  ∃ id,
    ((c.hosts id).maintaining = true ∧
      (c.hosts id).maintain (regMr id) = none) ∨
    ((c.hosts id).maintaining = false ∧ ∃ message rest,
      (c.links (.server id)).toServer = message :: rest ∧
        (c.hosts id).receive message = none)

/-! ## The servers come to rest -/

/-- What a server still has to do. -/
def load (c : Cluster) (id : Nat) : Nat :=
  2 * (c.links (.server id)).toServer.length +
    (c.hosts id).maintaining.toNat

/-- Only these servers have something to do. -/
def BusyWithin (busy : Finset Nat) (c : Cluster) : Prop :=
  ∀ id, id ∉ busy → c.load id = 0

def totalLoad (busy : Finset Nat) (c : Cluster) : Nat :=
  ∑ id ∈ busy, c.load id + (c.links .indexer).toServer.length

/-- A step of a server leaves less to do to it, and to the others as much. -/
private theorem evolve_load (step : Evolve regMr c c') :
    (∃ id, c'.load id < c.load id ∧
      (∀ other, other ≠ id → c'.load other = c.load other) ∧
      (c'.links .indexer).toServer = (c.links .indexer).toServer) ∨
    ((∀ id, c'.load id = c.load id) ∧
      (c'.links .indexer).toServer.length <
        (c.links .indexer).toServer.length) := by
  cases step with
  | receive idle arrived received =>
      rename_i id message rest host reply
      refine Or.inl ⟨id, ?_, fun other different => ?_, rfl⟩
      · simp only [load, setHost, setLink, if_true, Link.toServer_handled,
          arrived, idle, List.length_cons, Bool.toNat_false]
        have bound := host.maintaining.toNat_le
        omega
      · simp [load, setHost, setLink, different]
  | maintain busy maintained =>
      rename_i id host
      obtain ⟨state, _, rfl⟩ := Option.map_eq_some_iff.mp maintained
      refine Or.inl ⟨id, ?_, fun other different => ?_, rfl⟩
      · simp [load, setHost, busy]
      · simp [load, setHost, different]
  | locate arrived located =>
      rename_i message reply rest buf
      refine Or.inr ⟨fun id => by simp [load, setLink], ?_⟩
      simp [setLink, arrived]

theorem BusyWithin.evolve {busy : Finset Nat} (within : BusyWithin busy c)
    (step : Evolve regMr c c') :
    BusyWithin busy c' ∧ totalLoad busy c' < totalLoad busy c := by
  rcases evolve_load step with ⟨id, less, others, same⟩ | ⟨same, less⟩
  · have member : id ∈ busy := by
      by_contra outside
      rw [within id outside] at less
      exact absurd less (Nat.not_lt_zero _)
    refine ⟨fun other outside => ?_, ?_⟩
    · have different : other ≠ id := by
        rintro rfl
        exact outside member
      rw [others other different]
      exact within other outside
    · have sum : ∑ id ∈ busy, c'.load id < ∑ id ∈ busy, c.load id := by
        refine Finset.sum_lt_sum (fun other _ => ?_) ⟨id, member, less⟩
        by_cases isId : other = id
        · rw [isId]
          exact less.le
        · exact (others other isId).le
      unfold totalLoad
      rw [same]
      omega
  · refine ⟨fun other outside => (same other).trans (within other outside), ?_⟩
    have sum : ∑ id ∈ busy, c'.load id = ∑ id ∈ busy, c.load id :=
      Finset.sum_congr rfl fun id _ => same id
    unfold totalLoad
    omega

/-- Left alone, the servers come to rest. -/
private theorem evolve_acc {busy : Finset Nat} (within : BusyWithin busy c) :
    Acc (fun after before => Evolve regMr before after) c := by
  induction bound : totalLoad busy c using Nat.strong_induction_on
      generalizing c with
  | _ total inductionHypothesis =>
      refine Acc.intro c fun c' step => ?_
      obtain ⟨within', less⟩ := within.evolve step
      exact inductionHypothesis _ (bound ▸ less) within' rfl

theorem toServer_setLink {conn : Conn} {link : Link}
    (same : link.toServer = (c.links conn).toServer) (other : Conn) :
    ((c.setLink conn link).links other).toServer =
      (c.links other).toServer := by
  by_cases isConn : other = conn
  · subst isConn
    simpa [setLink] using same
  · simp [setLink, isConn]

private theorem load_setLink {conn : Conn} {link : Link}
    (same : link.toServer = (c.links conn).toServer) (id : Nat) :
    (c.setLink conn link).load id = c.load id := by
  unfold load
  rw [toServer_setLink same]
  rfl

/-- An operation gives work to one server at most. -/
private theorem complete_load {op : Op} {given : Answer op}
    (step : c.complete op = some (given, c')) :
    ∃ target, ∀ id, id ≠ target → c'.load id = c.load id := by
  cases completes_of_complete step with
  | sends intact fits =>
      rename_i conn message
      cases conn with
      | indexer => exact ⟨0, fun id _ => by simp [load, setLink]⟩
      | server target =>
          exact ⟨target, fun id different => by
            simp [load, setLink, different]⟩
  | sendFails fails => exact ⟨0, fun id _ => load_setLink (by rfl) id⟩
  | receives arrived => exact ⟨0, fun id _ => load_setLink (by rfl) id⟩
  | receiveFails nothing broken => exact ⟨0, fun _ _ => rfl⟩
  | writes granted =>
      rename_i server region length node key source remote
      exact ⟨server, fun id different => by
        simp [load, writeBuffer, setHost, different]⟩
  | writeFails refused => exact ⟨0, fun id _ => load_setLink (by rfl) id⟩
  | reads granted => exact ⟨0, fun _ _ => rfl⟩
  | readFails refused => exact ⟨0, fun id _ => load_setLink (by rfl) id⟩

theorem BusyWithin.complete {busy : Finset Nat} (within : BusyWithin busy c)
    {op : Op} {given : Answer op} (step : c.complete op = some (given, c')) :
    ∃ busy, BusyWithin busy c' := by
  obtain ⟨target, others⟩ := complete_load step
  refine ⟨insert target busy, fun id outside => ?_⟩
  obtain ⟨different, outside⟩ := not_or.mp
    (Finset.mem_insert.not.mp outside)
  rw [others id different]
  exact within id outside

/-- Every run of a client is finite. -/
private theorem run_acc {α : Type} (program : Run α)
    (initial : Cluster.Initial regMr c) :
    Acc (fun (after before : Run α × Cluster) =>
      Step (Cluster.environment regMr) before after) (program, c) := by
  refine step_acc (Cluster.environment regMr)
    (fun c : Cluster => ∃ busy, BusyWithin busy c)
    (fun ⟨busy, within⟩ step => ⟨busy, (within.evolve step).1⟩)
    (fun ⟨busy, within⟩ step => within.complete step)
    (fun ⟨busy, within⟩ => evolve_acc within) program
    ⟨∅, fun id _ => ?_⟩
  simp [load, initial.links, initial.idle]

end Cluster

/-! ## The client waits only for what comes -/

variable {regMr : Nat → Nat → Option IbvMr} {a : Atomic} {c : Cluster}

/-- A server that has a message handles it, unless a step of it fails. -/
theorem Cluster.evolve_or_halted {id : Nat} {message : Message}
    {rest : List Message}
    (arrived : (c.links (.server id)).toServer = message :: rest) :
    (∃ c', Cluster.Evolve regMr c c') ∨ Cluster.Halted regMr c := by
  cases busy : (c.hosts id).maintaining with
  | true =>
      cases maintained : (c.hosts id).maintain (regMr id) with
      | none => exact Or.inr ⟨id, Or.inl ⟨busy, maintained⟩⟩
      | some host => exact Or.inl ⟨_, .maintain busy maintained⟩
  | false =>
      cases received : (c.hosts id).receive message with
      | none => exact Or.inr ⟨id, Or.inr ⟨busy, _, _, arrived, received⟩⟩
      | some result => exact Or.inl ⟨_, .receive busy arrived received⟩

/-- The index server handles a `FIND` request. -/
private theorem locate_isSome {message : Message} {numOfServers : Nat}
    {key : CString} (positive : 0 < numOfServers)
    (carries : message.Carries (.find numOfServers key))
    (size : message.size ≤ eagerProtocolLimit) (buf : Memory) :
    ∃ result, locate buf message = some result := by
  have isFind : Packet.read (message.deliver buf) =
      some (.find numOfServers key) :=
    Packet.read_of_at (carries.at_deliver buf) (carries.2.trans size)
  simp [locate, isFind, Nat.ne_of_gt positive]

/-- An operation that is ready completes, or a server takes a step first,
unless that fails. -/
theorem ClusterRel.live {bounded : Prop} (related : ClusterRel regMr a c)
    {op : Op} (ready : Atomic.Ready bounded op a) :
    (∃ given c', c.complete op = some (given, c')) ∨
      (∃ c', Cluster.Evolve regMr c c') ∨ Cluster.Halted regMr c := by
  cases op with
  | send conn message =>
      refine Or.inl ?_
      simp only [Cluster.complete]
      split
      · exact ⟨_, _, rfl⟩
      · exact ⟨_, _, rfl⟩
  | recv conn =>
      cases conn with
      | indexer =>
          rcases related.indexer.flight with
            ⟨sent, _⟩ | ⟨_, reply, _, _, arrived, _⟩
          · obtain ⟨request, waiting⟩ := Option.ne_none_iff_exists'.mp ready
            rw [waiting] at sent
            cases arrived : (c.links .indexer).toServer with
            | nil =>
                rw [arrived] at sent
                cases sent
            | cons message rest =>
                rw [arrived] at sent
                cases sent with
                | cons first _ =>
                    obtain ⟨⟨buf, reply⟩, located⟩ :=
                      locate_isSome first.1 first.2.1 first.2.2 c.indexerBuf
                    exact Or.inr (Or.inl ⟨_, .locate arrived located⟩)
          · exact Or.inl ⟨some reply, _, by
              simp only [Cluster.complete, arrived]
              rfl⟩
      | server id =>
          obtain ⟨base, here⟩ := related.peers id
          rcases here.flight with
            ⟨pending, sent, _, _⟩ | ⟨_, _, arrived, _⟩
          · obtain ⟨request, waiting⟩ := Option.ne_none_iff_exists'.mp ready
            cases arrived : (c.links (.server id)).toServer with
            | nil =>
                rw [arrived, waiting] at sent
                have nothing := sent.length_eq
                simp at nothing
            | cons message rest =>
                exact Or.inr (Cluster.evolve_or_halted arrived)
          · exact Or.inl ⟨_, _, by
              simp only [Cluster.complete, arrived]
              rfl⟩
  | rdmaWrite server key region source length remote =>
      refine Or.inl ?_
      simp only [Cluster.complete]
      split
      · exact ⟨_, _, rfl⟩
      · exact ⟨_, _, rfl⟩
  | rdmaRead server key region length remote =>
      refine Or.inl ?_
      simp only [Cluster.complete]
      split
      · exact ⟨_, _, rfl⟩
      · exact ⟨_, _, rfl⟩

/-- After a program has returned, the next one finishes with what it achieves
on servers that act at once. -/
theorem Achieves.finishes_next {α β : Type} {bounded mayCrash : Prop}
    {post : β → Prop} {program : Run α} {value : α} {start : Cluster}
    (next : α → Run β) (distinct : ∀ id, DistinctMrs (regMr id))
    (initial : Cluster.Initial regMr start)
    (returned : Steps (Cluster.environment regMr) (program, start)
      (.done value, c))
    (related : ClusterRel regMr a c)
    (achieves : Achieves bounded mayCrash (fun value _ => post value)
      (next value) a) :
    Finishes (Cluster.environment regMr) (Cluster.Halted regMr) mayCrash post
      (next value, c) :=
  (simulation regMr distinct bounded).finishes
    (fun related ready => ClusterRel.live related ready) related achieves
    (acc_next (Cluster.run_acc (program >>= next) initial) returned)

/-- What a program achieves on servers that act at once, it finishes with on
the cluster. -/
theorem Achieves.finishes {α : Type} {bounded mayCrash : Prop}
    {post : α → Prop} {program : Run α}
    (distinct : ∀ id, DistinctMrs (regMr id))
    (initial : Cluster.Initial regMr c)
    (achieves : Achieves bounded mayCrash (fun value _ => post value) program
      Atomic.init) :
    Finishes (Cluster.environment regMr) (Cluster.Halted regMr) mayCrash post
      (program, c) :=
  (simulation regMr distinct bounded).finishes
    (fun related ready => ClusterRel.live related ready)
    (ClusterRel.init initial) achieves (Cluster.run_acc program initial)

end RdmaKv
