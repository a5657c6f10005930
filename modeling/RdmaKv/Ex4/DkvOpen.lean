import RdmaKv.Ex4.Connect
import Mathlib.Algebra.BigOperators.Group.Finset.Basic
import Mathlib.Algebra.Order.BigOperators.Group.Finset

/-!
# How a store is opened

`dkv_open` connects to the indexer and then, in `mkv_open`, to one server after
the other.  The programs on the other side run on their own the whole time.
-/

namespace RdmaKv

open Relation Finset

/-- `orig_main` has returned 0 `count` times.  Connection 0 is the indexer's,
connection `i + 1` is that of server `i`. -/
structure Opening where
  count : Nat
  conns : Nat → Handshake

namespace Opening

def start : Opening := ⟨0, fun _ => Handshake.start⟩

def setConn (o : Opening) (i : Nat) (conn : Handshake) : Opening :=
  { o with conns := Function.update o.conns i conn }

variable (serverRx : Nat → Nat) (clientRx numServers : Nat)
  (serverDests clientDests : Nat → PingpongDest)

/-- The first `orig_main` that returns 1 makes `dkv_open` return 1. -/
inductive Step : Opening → Opening → Prop
  | server {o : Opening} {i : Nat} {conn : Handshake} (known : i ≤ numServers)
      (step : Handshake.ServerStep (serverRx i) (serverDests i) (o.conns i) conn) :
      Step o (o.setConn i conn)
  | client {o : Opening} {conn : Handshake} (more : o.count ≤ numServers)
      (step : Handshake.ClientStep clientRx (clientDests o.count)
        (o.conns o.count) conn) : Step o (o.setConn o.count conn)
  | next {o : Opening} (more : o.count ≤ numServers)
      (returned : (o.conns o.count).client = .returned) :
      Step o { o with count := o.count + 1 }

def Reached (o : Opening) : Prop :=
  ReflTransGen (Step serverRx clientRx numServers serverDests clientDests) start o

structure Holds (o : Opening) : Prop where
  count : o.count ≤ numServers + 1
  reached : ∀ i, Handshake.Reached (serverRx i) clientRx (serverDests i)
    (clientDests i)
    (o.conns i)
  before : ∀ i < o.count, (o.conns i).client = .returned
  after : ∀ i, o.count < i → (o.conns i).client = .starting

variable {serverRx clientRx numServers serverDests clientDests}
  {o o' : Opening}

@[simp] theorem count_setConn (i : Nat) (conn : Handshake) :
    (o.setConn i conn).count = o.count := rfl

private theorem conns_setConn (i j : Nat) (conn : Handshake) :
    (o.setConn i conn).conns j = if j = i then conn else o.conns j :=
  Function.update_apply o.conns i conn j

@[simp] theorem conns_setConn_self (i : Nat) (conn : Handshake) :
    (o.setConn i conn).conns i = conn := by
  simp [conns_setConn]

private theorem conns_setConn_of_ne {i j : Nat} (ne : j ≠ i)
    (conn : Handshake) :
    (o.setConn i conn).conns j = o.conns j := by
  simp [conns_setConn, ne]

private theorem holds_start :
    Holds serverRx clientRx numServers serverDests clientDests start :=
  ⟨Nat.zero_le _, fun _ => ReflTransGen.refl,
    fun _ early => absurd early (Nat.not_lt_zero _), fun _ _ => rfl⟩

theorem Holds.setConn {i : Nat} {conn : Handshake}
    (holds : Holds serverRx clientRx numServers serverDests clientDests o)
    (step : Handshake.Step (serverRx i) clientRx (serverDests i)
      (clientDests i) (o.conns i)
      conn)
    (client : i ≠ o.count → conn.client = (o.conns i).client) :
    Holds serverRx clientRx numServers serverDests clientDests
      (o.setConn i conn) := by
  have same (j : Nat) (other : j ≠ o.count) :
      ((o.setConn i conn).conns j).client = (o.conns j).client := by
    by_cases here : j = i
    · subst here
      rw [conns_setConn_self, client other]
    · rw [conns_setConn_of_ne here]
  refine ⟨holds.count, fun j => ?_, fun j early => ?_, fun j late => ?_⟩
  · by_cases here : j = i
    · subst here
      rw [conns_setConn_self]
      exact ReflTransGen.tail (holds.reached j) step
    · rw [conns_setConn_of_ne here]
      exact holds.reached j
  · rw [same j (Nat.ne_of_lt early)]
    exact holds.before j early
  · rw [same j (Nat.ne_of_gt late)]
    exact holds.after j late

theorem Step.holds
    (step : Step serverRx clientRx numServers serverDests clientDests o o')
    (holds : Holds serverRx clientRx numServers serverDests clientDests o) :
    Holds serverRx clientRx numServers serverDests clientDests o' := by
  cases step with
  | server _ step => exact holds.setConn (Or.inl step) fun _ => step.frame.client
  | client _ step =>
      exact holds.setConn (Or.inr step) fun other => absurd rfl other
  | next more returned =>
      refine ⟨Nat.succ_le_succ more, holds.reached, fun i early => ?_,
        fun i late => holds.after i ((Nat.lt_succ_self _).trans late)⟩
      rcases Nat.lt_succ_iff_lt_or_eq.mp early with early | rfl
      · exact holds.before i early
      · exact returned

theorem Reached.holds
    (reached : Reached serverRx clientRx numServers serverDests clientDests o) :
    Holds serverRx clientRx numServers serverDests clientDests o := by
  induction reached with
  | refl => exact holds_start
  | tail _ step inductionHypothesis => exact step.holds inductionHypothesis

/-- No client has come yet. -/
private theorem waits_of_starting {s : Handshake} (sockets : s.Sockets)
    (starting : s.client = .starting) :
    s.server = .starting ∨ s.server = .listening ∨ s.server = .failed := by
  have closed := sockets.first (by simp [starting, Handshake.clientRank])
  have accepted := sockets.accepted
  rw [closed] at accepted
  cases here : s.server <;> simp [here, Handshake.serverRank] at accepted ⊢

/-- A run of the connection that is being made is a run of `dkv_open`. -/
private theorem reached_setConn {conn : Handshake} (more : o.count ≤ numServers)
    (reached : Reached serverRx clientRx numServers serverDests clientDests o)
    (run : ReflTransGen
      (Handshake.Step (serverRx o.count) clientRx (serverDests o.count)
      (clientDests o.count)) (o.conns o.count) conn) :
    Reached serverRx clientRx numServers serverDests clientDests
      (o.setConn o.count conn) := by
  induction run with
  | refl =>
      rw [setConn, Function.update_eq_self]
      exact reached
  | tail _ step inductionHypothesis =>
      rename_i s s' _
      have again : (o.setConn o.count s).setConn o.count s' =
          o.setConn o.count s' := by
        simp [setConn]
      rw [← again]
      refine ReflTransGen.tail inductionHypothesis ?_
      have here : (o.setConn o.count s).conns o.count = s :=
        conns_setConn_self _ _
      rcases step with step | step
      · exact .server more (by rwa [here])
      · exact @Step.client _ _ _ _ _ (o.setConn o.count s) s' more
          (by rwa [count_setConn, here])

/-- `dkv_open` can return 0. -/
private theorem exists_reached_open (serverRx : Nat → Nat) (clientRx : Nat)
    (serverRange : ∀ i, (serverDests i).InRange)
    (clientRange : ∀ i, (clientDests i).InRange) :
    ∀ count ≤ numServers + 1, ∃ o,
      Reached serverRx clientRx numServers serverDests clientDests o ∧
        o.count = count ∧ ∀ i, count ≤ i → o.conns i = Handshake.start := by
  intro count
  induction count with
  | zero => exact fun _ => ⟨start, ReflTransGen.refl, rfl, fun _ _ => rfl⟩
  | succ count inductionHypothesis =>
      intro known
      obtain ⟨o, reached, rfl, untouched⟩ :=
        inductionHypothesis ((Nat.le_succ _).trans known)
      have more := Nat.le_of_succ_le_succ known
      obtain ⟨conn, run, returned⟩ := Handshake.exists_reached_returned
        (serverRx o.count) clientRx (serverRange o.count) (clientRange o.count)
      have connected := @reached_setConn _ _ _ _ _ _ conn more reached
        (by rwa [untouched _ le_rfl])
      refine ⟨_, ReflTransGen.tail connected (.next more ?_), rfl,
        fun i late => ?_⟩
      · rw [count_setConn, conns_setConn_self]
        exact returned
      · change (o.setConn o.count conn).conns i = _
        rw [conns_setConn_of_ne (Nat.ne_of_gt late)]
        exact untouched i ((Nat.le_succ _).trans late)

/-- At every moment of `dkv_open`: the connections that were made work in both
directions and those to come have not begun. -/
theorem dkv_open_links (serverRange : ∀ i, (serverDests i).InRange)
    (clientRange : ∀ i, (clientDests i).InRange)
    (reached : Reached serverRx clientRx numServers serverDests clientDests o) :
    (∀ i < o.count, Handshake.Linked (serverRx i) clientRx (serverDests i)
      (clientDests i)
      (o.conns i)) ∧
    ∀ i, o.count < i → (o.conns i).client = .starting ∧
      ((o.conns i).server = .starting ∨ (o.conns i).server = .listening ∨
        (o.conns i).server = .failed) := by
  have holds := reached.holds
  refine ⟨fun i early => ?_, fun i late => ⟨holds.after i late, ?_⟩⟩
  · exact ((holds.reached i).holds (serverRange i) (clientRange i)).linked
      (holds.before i early)
  · exact waits_of_starting (holds.reached i).sockets (holds.after i late)

theorem dkv_open_links_two : ∃ o : Opening, o.count = 2 ∧ ∀ i < 2,
    Handshake.Linked 100 1 ⟨1, 2, 3, .zero⟩ ⟨4, 5, 6, .zero⟩ (o.conns i) := by
  have serverRange : PingpongDest.InRange ⟨1, 2, 3, .zero⟩ :=
    ⟨by decide, by decide, by decide⟩
  have clientRange : PingpongDest.InRange ⟨4, 5, 6, .zero⟩ :=
    ⟨by decide, by decide, by decide⟩
  obtain ⟨o, reached, count, _⟩ := @exists_reached_open 1 (fun _ => _)
    (fun _ => _) (fun _ => 100) 1 (fun _ => serverRange)
    (fun _ => clientRange) 2 le_rfl
  refine ⟨o, count, fun i early => ?_⟩
  exact (dkv_open_links (fun _ => serverRange) (fun _ => clientRange)
    reached).1 i (by rwa [count])

/-! ## Every run ends -/

/-- The steps that were taken. -/
def work (numServers : Nat) (o : Opening) : Nat :=
  o.count + ∑ i ∈ range (numServers + 1), (o.conns i).rank

theorem Holds.work_le
    (holds : Holds serverRx clientRx numServers serverDests clientDests o) :
    o.work numServers ≤ 15 * (numServers + 1) := by
  have ranks : ∑ i ∈ range (numServers + 1), (o.conns i).rank ≤
      (range (numServers + 1)).card • 14 :=
    sum_le_card_nsmul _ _ _ fun i _ => Handshake.rank_le _
  have count := holds.count
  rw [card_range, nsmul_eq_mul, Nat.cast_id] at ranks
  unfold work
  omega

private theorem work_setConn {i : Nat} {conn : Handshake}
    (known : i ≤ numServers)
    (further : (o.conns i).rank < conn.rank) :
    o.work numServers < (o.setConn i conn).work numServers := by
  refine Nat.add_lt_add_left (sum_lt_sum (fun j _ => ?_) ⟨i, ?_, ?_⟩) _
  · by_cases here : j = i
    · subst here
      rw [conns_setConn_self]
      exact further.le
    · rw [conns_setConn_of_ne here]
  · exact mem_range.mpr (Nat.lt_succ_of_le known)
  · rw [conns_setConn_self]
    exact further

theorem Step.work
    (step : Step serverRx clientRx numServers serverDests clientDests o o') :
    o.work numServers < o'.work numServers := by
  cases step with
  | server known step => exact work_setConn known step.rank
  | client more step => exact work_setConn more step.rank
  | next _ _ => exact Nat.add_lt_add_right (Nat.lt_succ_self _) _

/-- A client that has returned does nothing. -/
private theorem not_clientStep_of_returned {dest : PingpongDest}
    {s s' : Handshake}
    (returned : s.client = .returned) :
    ¬Handshake.ClientStep clientRx dest s s' := by
  intro step
  cases step <;> simp_all

/-- Where a run of `dkv_open` may end: all are connected, or one `orig_main`
of the client has failed. -/
def Ended (numServers : Nat) (o : Opening) : Prop :=
  (∀ i < o.count, (o.conns i).client = .returned ∧
      (o.conns i).server = .returned) ∧
    (o.count = numServers + 1 ∨
      o.count ≤ numServers ∧ (o.conns o.count).client = .failed)

private theorem ended_of_stuck (serverRange : ∀ i, (serverDests i).InRange)
    (clientRange : ∀ i, (clientDests i).InRange)
    (reached : Reached serverRx clientRx numServers serverDests clientDests o)
    (stuck : ∀ o',
      ¬Step serverRx clientRx numServers serverDests clientDests o o') :
    Ended numServers o := by
  have holds := reached.holds
  refine ⟨fun i early => ?_, ?_⟩
  · have returned := holds.before i early
    have known : i ≤ numServers := Nat.lt_succ_iff.mp (early.trans_le holds.count)
    have ended := Handshake.ended_of_stuck (serverRange i) (clientRange i)
      (holds.reached i) fun s' step => step.elim
        (fun step => stuck _ (.server known step))
        (not_clientStep_of_returned returned)
    rcases ended with ended | ⟨failed, _⟩
    · exact ended
    · rw [returned] at failed
      simp at failed
  · rcases Nat.lt_or_eq_of_le holds.count with more | all
    · have more := Nat.lt_succ_iff.mp more
      have ended := Handshake.ended_of_stuck (serverRange o.count)
        (clientRange o.count) (holds.reached o.count) fun s' step => step.elim
          (fun step => stuck _ (.server more step))
          (fun step => stuck _ (.client more step))
      rcases ended with ⟨returned, _⟩ | ⟨failed, _⟩
      · exact absurd (.next more returned) (stuck _)
      · exact Or.inr ⟨more, failed⟩
    · exact Or.inl all

/-- `dkv_open` always returns: every run takes at most 15 steps for each
connection and can stop only when all are made or one has failed. -/
theorem dkv_open_ends (serverRange : ∀ i, (serverDests i).InRange)
    (clientRange : ∀ i, (clientDests i).InRange)
    (reached : Reached serverRx clientRx numServers serverDests clientDests o) :
    o.work numServers ≤ 15 * (numServers + 1) ∧
      (∀ o', Step serverRx clientRx numServers serverDests clientDests o o' →
        o.work numServers < o'.work numServers) ∧
      ((∀ o', ¬Step serverRx clientRx numServers serverDests clientDests o o') →
        Ended numServers o) :=
  ⟨reached.holds.work_le, fun _ step => step.work,
    ended_of_stuck serverRange clientRange reached⟩

theorem dkv_open_ends_two : ∃ o : Opening, o.count = 2 ∧
    o.work 1 ≤ 15 * (1 + 1) ∧
      (∀ o', Step (fun _ => 100) 1 1 (fun _ => ⟨1, 2, 3, .zero⟩)
          (fun _ => ⟨4, 5, 6, .zero⟩) o o' → o.work 1 < o'.work 1) ∧
      ((∀ o', ¬Step (fun _ => 100) 1 1 (fun _ => ⟨1, 2, 3, .zero⟩)
        (fun _ => ⟨4, 5, 6, .zero⟩) o o') → Ended 1 o) := by
  have serverRange : PingpongDest.InRange ⟨1, 2, 3, .zero⟩ :=
    ⟨by decide, by decide, by decide⟩
  have clientRange : PingpongDest.InRange ⟨4, 5, 6, .zero⟩ :=
    ⟨by decide, by decide, by decide⟩
  obtain ⟨o, reached, count, _⟩ := @exists_reached_open 1 (fun _ => _)
    (fun _ => _) (fun _ => 100) 1 (fun _ => serverRange)
    (fun _ => clientRange) 2 le_rfl
  exact ⟨o, count, dkv_open_ends (fun _ => serverRange)
    (fun _ => clientRange) reached⟩

end Opening

end RdmaKv
