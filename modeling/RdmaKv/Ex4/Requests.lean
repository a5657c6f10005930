import RdmaKv.Ex4.Server
import Mathlib.Data.List.Induction

/-!
# Requests and the buffers that they move

Which set of a key is the latest one in a sequence of requests, and which of
the requests move a buffer: an eager set of a key whose latest set was a
rendezvous gives one back, and a rendezvous set of any other key takes one.
-/

namespace RdmaKv

open ByteMemory

namespace Request

def sets (key : CString) : Request → Bool
  | eagerGet _ => false
  | eagerSet other _ => decide (other = key)
  | rendezvousSet _ other => decide (other = key)

def latestSet (key : CString) (past : List Request) : Option Request :=
  past.reverse.find? (sets key)

@[simp]
theorem latestSet_nil (key : CString) : latestSet key [] = none := rfl

@[simp]
theorem latestSet_append_singleton (key : CString) (past : List Request)
    (request : Request) :
    latestSet key (past ++ [request]) =
      if request.sets key then some request else latestSet key past := by
  unfold latestSet
  rw [List.reverse_append, List.reverse_singleton, List.singleton_append,
    List.find?_cons]
  cases request.sets key <;> rfl

/-- The latest set of the key is a rendezvous set. -/
def inBuffer (key : CString) (past : List Request) : Bool :=
  match latestSet key past with
  | some (rendezvousSet _ _) => true
  | _ => false

/-! ## Movements -/

inductive Movement where
  | overwrite
  | take
  deriving DecidableEq, Repr

/-- What a request does with a buffer, by the requests before it. -/
def movement (past : List Request) : Request → Option Movement
  | eagerGet _ => none
  | eagerSet key _ => if inBuffer key past then some .overwrite else none
  | rendezvousSet _ key => if inBuffer key past then none else some .take

def movementsFrom : List Request → List Request → List Movement
  | _, [] => []
  | past, request :: requests =>
      (request.movement past).toList ++
        movementsFrom (past ++ [request]) requests

def movements (requests : List Request) : List Movement :=
  movementsFrom [] requests

theorem movementsFrom_append (past earlier later : List Request) :
    movementsFrom past (earlier ++ later) =
      movementsFrom past earlier ++ movementsFrom (past ++ earlier) later := by
  induction earlier generalizing past with
  | nil => simp [movementsFrom]
  | cons request requests inductionHypothesis =>
      simp only [List.cons_append, movementsFrom, inductionHypothesis,
        List.append_assoc, List.nil_append]

@[simp]
theorem movements_nil : movements [] = [] := rfl

@[simp]
theorem movements_append_singleton (past : List Request)
    (request : Request) :
    movements (past ++ [request]) =
      movements past ++ (request.movement past).toList := by
  simp [movements, movementsFrom_append, movementsFrom]

/-! ## Which node is behind the tail -/

/-- How the end of the pool chain lies to `mem_pool_tail` after some
movements: at the tail; one recycled node behind it, in a chain of eleven or
of ten; or cut off at least once. -/
inductive Stage where
  | clean
  | spare
  | spareTaken
  | lost
  deriving DecidableEq, Repr

namespace Stage

def next : Stage → Movement → Stage
  | clean, .take => clean
  | clean, .overwrite => spare
  | spare, .take => spareTaken
  | spare, .overwrite => lost
  | spareTaken, _ => lost
  | lost, _ => lost

def after (moves : List Movement) : Stage := moves.foldl next clean

@[simp]
theorem after_nil : after [] = clean := rfl

@[simp]
theorem after_append (earlier later : List Movement) :
    after (earlier ++ later) = later.foldl next (after earlier) :=
  List.foldl_append

@[simp]
theorem foldl_lost (moves : List Movement) : moves.foldl next lost = lost := by
  induction moves with
  | nil => rfl
  | cons _ _ inductionHypothesis => exact inductionHypothesis

private theorem foldl_spare (moves : List Movement) :
    moves.foldl next spare ≠ lost ↔ moves = [] ∨ moves = [.take] := by
  match moves with
  | [] => simp
  | [.take] => simp [next]
  | [.overwrite] => simp [next]
  | .overwrite :: second :: rest => simp [next]
  | .take :: second :: rest => simp [next]

end Stage

/-- Without an overwrite the tail stays the last node. -/
theorem Stage.after_eq_clean (moves : List Movement)
    (noOverwrite : Movement.overwrite ∉ moves) : Stage.after moves = .clean := by
  induction moves with
  | nil => rfl
  | cons move rest inductionHypothesis =>
      have later := inductionHypothesis (List.not_mem_of_not_mem_cons noOverwrite)
      cases move with
      | take => exact later
      | overwrite => exact absurd (List.mem_cons_self ..) noOverwrite

/-- The requests up to the first overwrite leave a spare node behind the
tail. -/
theorem exists_spare {requests : List Request}
    (overwrites : Movement.overwrite ∈ movements requests) :
    ∃ before after, requests = before ++ after ∧
      Stage.after (movements before) = .spare := by
  induction requests using List.reverseRecOn with
  | nil => exact absurd overwrites (by simp)
  | append_singleton past request inductionHypothesis =>
      by_cases earlier : Movement.overwrite ∈ movements past
      · obtain ⟨before, after, rfl, spare⟩ := inductionHypothesis earlier
        exact ⟨before, after ++ [request], by simp, spare⟩
      · refine ⟨past ++ [request], [], by simp, ?_⟩
        have isOverwrite : request.movement past = some .overwrite := by
          simpa [earlier] using overwrites
        simp [isOverwrite, Stage.after_eq_clean _ earlier, Stage.next]

/-- After the first overwrite of a buffer at most one more is moved, and that
one is taken. -/
def AtMostOneSpare (moves : List Movement) : Prop :=
  ∀ before after, moves = before ++ .overwrite :: after →
    after = [] ∨ after = [.take]

theorem atMostOneSpare_iff (moves : List Movement) :
    AtMostOneSpare moves ↔ Stage.after moves ≠ .lost := by
  have fromClean : ∀ moves : List Movement,
      AtMostOneSpare moves ↔ moves.foldl Stage.next .clean ≠ .lost := by
    intro moves
    induction moves with
    | nil =>
        simp [AtMostOneSpare]
    | cons move rest inductionHypothesis =>
        cases move with
        | take =>
            rw [List.foldl_cons, Stage.next, ← inductionHypothesis]
            constructor
            · intro holds before after split
              exact holds (.take :: before) after (by rw [split]; rfl)
            · intro holds before after split
              cases before with
              | nil => exact absurd split (by simp)
              | cons head others =>
                  exact holds others after (List.cons.inj split).2
        | overwrite =>
            rw [List.foldl_cons, Stage.next, Stage.foldl_spare]
            constructor
            · intro holds
              exact holds [] rest rfl
            · intro holds before after split
              cases before with
              | nil =>
                  rw [← (List.cons.inj split).2]
                  exact holds
              | cons head others =>
                  have later := (List.cons.inj split).2
                  rcases holds with rfl | rfl
                  · exact absurd later (by simp)
                  · cases others with
                    | nil => exact absurd later (by simp)
                    | cons _ _ => exact absurd later (by simp)
  exact fromClean moves

end Request

/-! ## A server and two keys -/

namespace Sample

/-- Registrations that always succeed. -/
def regMr (node : Nat) : Option IbvMr :=
  some ⟨UInt64.ofNat (65536 * (node + 1)), UInt32.ofNat (node + 1)⟩

theorem registers_all (node : Nat) : (regMr node).isSome := rfl

def firstKey : CString := CString.replicate 1 97 (by decide)

def secondKey : CString := CString.replicate 1 98 (by decide)

/-- Both keys get buffers. -/
def taking : List Request :=
  [.rendezvousSet 5000 firstKey, .rendezvousSet 5000 secondKey]

/-- The buffer of the first key is given back. -/
def overwriting : List Request :=
  [.rendezvousSet 5000 firstKey, .eagerSet firstKey [1]]

end Sample

end RdmaKv
