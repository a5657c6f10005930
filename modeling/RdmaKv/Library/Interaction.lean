import Mathlib.Logic.Relation
import Mathlib.Order.WellFounded

/-!
# Programs that interact with an environment

A `Program` is a sequential client: it performs operations one at a time and
goes on with their answers.  An `Environment` answers the operations and may
also evolve on its own between them, so a run interleaves the two.

`wp` is the weakest precondition of a program whatever the environment does in
between; `Simulation.reachable` carries it from an abstract environment to a
concrete one; `advance` executes a program under one fixed schedule.
-/

namespace Interaction

open Relation

/-- A client: done, crashed, or waiting for the answer to an operation. -/
inductive Program (Op : Type) (Answer : Op → Type) (α : Type) where
  | done (value : α)
  | crash
  | perform (op : Op) (resume : Answer op → Program Op Answer α)

variable {Op : Type} {Answer : Op → Type} {α β : Type}

namespace Program

def bind (program : Program Op Answer α)
    (next : α → Program Op Answer β) : Program Op Answer β :=
  match program with
  | done value => next value
  | crash => crash
  | perform op resume => perform op fun answer => (resume answer).bind next

instance : Monad (Program Op Answer) where
  pure := done
  bind := bind

theorem bind_assoc {γ : Type} (program : Program Op Answer α)
    (next : α → Program Op Answer β) (later : β → Program Op Answer γ) :
    program >>= next >>= later =
      program >>= fun value => next value >>= later := by
  change (program.bind next).bind later =
    program.bind fun value => (next value).bind later
  induction program with
  | done value => rfl
  | crash => rfl
  | perform op resume inductionHypothesis =>
      simp only [bind, inductionHypothesis]

def result? : Program Op Answer α → Option α
  | done value => some value
  | _ => none

theorem eq_done_of_result? {program : Program Op Answer α} {value : α}
    (ended : program.result? = some value) : program = done value := by
  cases program with
  | done result =>
      obtain rfl := Option.some.inj ended
      rfl
  | crash => exact absurd ended (by simp [result?])
  | perform op resume => exact absurd ended (by simp [result?])

def isCrash : Program Op Answer α → Bool
  | crash => true
  | _ => false

theorem eq_crash_of_isCrash {program : Program Op Answer α}
    (crashed : program.isCrash = true) : program = crash := by
  cases program with
  | crash => rfl
  | done value => exact absurd crashed (by simp [isCrash])
  | perform op resume => exact absurd crashed (by simp [isCrash])

def posted? : Program Op Answer α → Option Op
  | perform op _ => some op
  | _ => none

theorem eq_perform_of_posted? {program : Program Op Answer α} {op : Op}
    (posts : program.posted? = some op) :
    ∃ resume, program = perform op resume := by
  cases program with
  | done value => exact absurd posts (by simp [posted?])
  | crash => exact absurd posts (by simp [posted?])
  | perform other resume =>
      obtain rfl := Option.some.inj posts
      exact ⟨resume, rfl⟩

end Program

/-- What answers the operations.  `evolve` is a step it takes on its own. -/
structure Environment (Op : Type) (Answer : Op → Type) where
  State : Type
  evolve : State → State → Prop
  answer : (op : Op) → State → Answer op → State → Prop

inductive Step (env : Environment Op Answer) :
    Program Op Answer α × env.State → Program Op Answer α × env.State → Prop
  | evolve {program : Program Op Answer α} {before after : env.State}
      (step : env.evolve before after) :
      Step env (program, before) (program, after)
  | answer {op : Op} {resume : Answer op → Program Op Answer α}
      {given : Answer op} {before after : env.State}
      (step : env.answer op before given after) :
      Step env (.perform op resume, before) (resume given, after)

/-- Either the environment evolves or an operation is answered. -/
theorem step_cases {env : Environment Op Answer}
    {before after : Program Op Answer α × env.State}
    (step : Step env before after) :
    (after.1 = before.1 ∧ env.evolve before.2 after.2) ∨
      ∃ op resume given, before.1 = .perform op resume ∧
        after.1 = resume given ∧ env.answer op before.2 given after.2 := by
  cases step with
  | evolve step => exact Or.inl ⟨rfl, step⟩
  | answer step => exact Or.inr ⟨_, _, _, rfl, rfl, step⟩

abbrev Steps (env : Environment Op Answer) :
    Program Op Answer α × env.State → Program Op Answer α × env.State → Prop :=
  ReflTransGen (Step env)

/-- A program that has ended stays as it is. -/
theorem program_eq_of_steps {env : Environment Op Answer}
    {start reached : Program Op Answer α × env.State}
    (ended : start.1.posted? = none) (steps : Steps env start reached) :
    reached.1 = start.1 := by
  induction steps with
  | refl => rfl
  | tail _ step inductionHypothesis =>
      rcases step_cases step with ⟨same, _⟩ | ⟨op, resume, given, posts, _⟩
      · exact same.trans inductionHypothesis
      · rw [← inductionHypothesis, posts] at ended
        exact absurd ended (by simp [Program.posted?])

/-- The steps of a program that something follows. -/
theorem steps_bind {env : Environment Op Answer}
    {program program' : Program Op Answer α} {before after : env.State}
    (steps : Steps env (program, before) (program', after))
    (next : α → Program Op Answer β) :
    Steps env (program >>= next, before) (program' >>= next, after) := by
  refine ReflTransGen.lift
    (fun config : Program Op Answer α × env.State =>
      (config.1 >>= next, config.2)) (fun first second step => ?_) _ _ steps
  cases step with
  | evolve step => exact Step.evolve step
  | answer step => exact Step.answer step

section WeakestPrecondition

variable (env : Environment Op Answer)
variable (ready : Op → env.State → Prop) (mayCrash : Prop)

/-- In every run from here, each operation is performed in a state where it
is `ready`, the program crashes only if it may, and a result satisfies the
postcondition for as long as the environment goes on. -/
def wp (post : α → env.State → Prop) :
    Program Op Answer α → env.State → Prop
  | .done value, state =>
      ∀ later, ReflTransGen env.evolve state later → post value later
  | .crash, _ => mayCrash
  | .perform op resume, state =>
      ∀ later, ReflTransGen env.evolve state later →
        ready op later ∧
          ∀ given after, env.answer op later given after →
            wp post (resume given) after

variable {env ready mayCrash}

theorem wp_evolve {post : α → env.State → Prop}
    {program : Program Op Answer α} {before after : env.State}
    (holds : wp env ready mayCrash post program before)
    (step : env.evolve before after) :
    wp env ready mayCrash post program after := by
  cases program with
  | done value =>
      intro later steps
      exact holds later (ReflTransGen.head step steps)
  | crash => exact holds
  | perform op resume =>
      intro later steps
      exact holds later (ReflTransGen.head step steps)

theorem wp_bind {post : β → env.State → Prop}
    {program : Program Op Answer α} {next : α → Program Op Answer β}
    {state : env.State}
    (holds :
      wp env ready mayCrash
        (fun value => wp env ready mayCrash post (next value))
        program state) :
    wp env ready mayCrash post (program >>= next) state := by
  induction program generalizing state with
  | done value => exact holds state ReflTransGen.refl
  | crash => exact holds
  | perform op resume inductionHypothesis =>
      intro later steps
      obtain ⟨isReady, answered⟩ := holds later steps
      refine ⟨isReady, ?_⟩
      intro given after step
      exact inductionHypothesis given (answered given after step)

theorem wp_mono {post post' : α → env.State → Prop}
    {program : Program Op Answer α} {state : env.State}
    (weaker : ∀ value state, post value state → post' value state)
    (holds : wp env ready mayCrash post program state) :
    wp env ready mayCrash post' program state := by
  induction program generalizing state with
  | done value =>
      intro later steps
      exact weaker value later (holds later steps)
  | crash => exact holds
  | perform op resume inductionHypothesis =>
      intro later steps
      obtain ⟨isReady, answered⟩ := holds later steps
      refine ⟨isReady, ?_⟩
      intro given after step
      exact inductionHypothesis given (answered given after step)

/-! ### In an environment with an invariant -/

theorem kept_of_evolves {kept : env.State → Prop}
    (evolves : ∀ {before after}, kept before → env.evolve before after →
      kept after) {state later : env.State} (here : kept state)
    (steps : ReflTransGen env.evolve state later) : kept later := by
  induction steps with
  | refl => exact here
  | tail _ step inductionHypothesis =>
      exact evolves inductionHypothesis step

theorem wp_done_of_kept {post : α → env.State → Prop}
    {kept : env.State → Prop}
    (evolves : ∀ {before after}, kept before → env.evolve before after →
      kept after) {value : α} {state : env.State} (here : kept state)
    (holds : ∀ later, kept later → post value later) :
    wp env ready mayCrash post (.done value) state :=
  fun later steps => holds later (kept_of_evolves evolves here steps)

/-- An operation is performed in some state that the invariant describes. -/
theorem wp_perform_of_kept {post : α → env.State → Prop}
    {kept : env.State → Prop}
    (evolves : ∀ {before after}, kept before → env.evolve before after →
      kept after) {op : Op} {resume : Answer op → Program Op Answer α}
    {state : env.State} (here : kept state)
    (performed : ∀ later, kept later → ready op later ∧
      ∀ given after, env.answer op later given after →
        wp env ready mayCrash post (resume given) after) :
    wp env ready mayCrash post (.perform op resume) state :=
  fun later steps => performed later (kept_of_evolves evolves here steps)

theorem wp_steps {post : α → env.State → Prop}
    {start reached : Program Op Answer α × env.State}
    (holds : wp env ready mayCrash post start.1 start.2)
    (steps : Steps env start reached) :
    wp env ready mayCrash post reached.1 reached.2 := by
  induction steps with
  | refl => exact holds
  | tail _ step inductionHypothesis =>
      cases step with
      | evolve step => exact wp_evolve inductionHypothesis step
      | answer step =>
          exact (inductionHypothesis _ ReflTransGen.refl).2 _ _ step

/-- What every step keeps, if operations are performed only where they are
ready, holds along the run of a correct program. -/
theorem kept_of_steps {post : α → env.State → Prop}
    {kept : env.State → Prop}
    (evolves : ∀ {before after}, kept before → env.evolve before after →
      kept after)
    (answers : ∀ {op before given after}, kept before → ready op before →
      env.answer op before given after → kept after)
    {start reached : Program Op Answer α × env.State} (here : kept start.2)
    (holds : wp env ready mayCrash post start.1 start.2)
    (steps : Steps env start reached) : kept reached.2 := by
  induction steps with
  | refl => exact here
  | tail earlier step inductionHypothesis =>
      have correct := wp_steps holds earlier
      cases step with
      | evolve step => exact evolves inductionHypothesis step
      | answer step =>
          exact answers inductionHypothesis
            (correct _ ReflTransGen.refl).1 step

/-! ### In an environment that does nothing on its own -/

theorem wp_done_of_still {post : α → env.State → Prop}
    (still : ∀ before after, ¬ env.evolve before after) {value : α}
    {state : env.State} (holds : post value state) :
    wp env ready mayCrash post (.done value) state := by
  intro later steps
  rcases ReflTransGen.cases_head steps with rfl | ⟨next, step, _⟩
  · exact holds
  · exact absurd step (still state next)

theorem wp_perform_of_still {post : α → env.State → Prop}
    (still : ∀ before after, ¬ env.evolve before after) {op : Op}
    {resume : Answer op → Program Op Answer α} {state : env.State}
    (isReady : ready op state)
    (answered : ∀ given after, env.answer op state given after →
      wp env ready mayCrash post (resume given) after) :
    wp env ready mayCrash post (.perform op resume) state := by
  intro later steps
  rcases ReflTransGen.cases_head steps with rfl | ⟨next, step, _⟩
  · exact ⟨isReady, answered⟩
  · exact absurd step (still state next)

end WeakestPrecondition

/-! ## Whatever is answered -/

namespace Program

/-- Some answers lead to this operation. -/
def Posts (op : Op) : Program Op Answer α → Prop
  | done _ => False
  | crash => False
  | perform other resume => other = op ∨ ∃ given, (resume given).Posts op

/-- Some answers lead to this result. -/
def Returns (value : α) : Program Op Answer α → Prop
  | done result => result = value
  | crash => False
  | perform _ resume => ∃ given, (resume given).Returns value

/-- All operations are allowed and all results as described, whatever is
answered. -/
def Always (allowed : Op → Prop) (result : α → Prop) :
    Program Op Answer α → Prop
  | done value => result value
  | crash => True
  | perform op resume =>
      allowed op ∧ ∀ given, (resume given).Always allowed result

variable {allowed : Op → Prop} {result : α → Prop}

theorem Always.posts {program : Program Op Answer α}
    (holds : program.Always allowed result) {op : Op}
    (posted : program.Posts op) : allowed op := by
  induction program with
  | done value => exact posted.elim
  | crash => exact posted.elim
  | perform other resume inductionHypothesis =>
      rcases posted with rfl | ⟨given, later⟩
      · exact holds.1
      · exact inductionHypothesis given (holds.2 given) later

theorem Always.returns {program : Program Op Answer α}
    (holds : program.Always allowed result) {value : α}
    (returned : program.Returns value) : result value := by
  induction program with
  | done other => exact returned ▸ holds
  | crash => exact returned.elim
  | perform other resume inductionHypothesis =>
      obtain ⟨given, later⟩ := returned
      exact inductionHypothesis given (holds.2 given) later

theorem Always.bind {program : Program Op Answer α}
    {next : α → Program Op Answer β} {last : β → Prop}
    (holds : program.Always allowed result)
    (rest : ∀ value, result value → (next value).Always allowed last) :
    (program >>= next).Always allowed last := by
  induction program with
  | done value => exact rest value holds
  | crash => trivial
  | perform other resume inductionHypothesis =>
      exact ⟨holds.1, fun given => inductionHypothesis given (holds.2 given)⟩

theorem Always.mono {allowed' : Op → Prop} {result' : α → Prop}
    {program : Program Op Answer α} (holds : program.Always allowed result)
    (weaker : ∀ op, allowed op → allowed' op)
    (weakerResult : ∀ value, result value → result' value) :
    program.Always allowed' result' := by
  induction program with
  | done value => exact weakerResult value holds
  | crash => trivial
  | perform other resume inductionHypothesis =>
      exact ⟨weaker other holds.1,
        fun given => inductionHypothesis given (holds.2 given)⟩

end Program

/-- What a program does whatever is answered, it does in an environment with
an invariant. -/
theorem wp_of_always {env : Environment Op Answer}
    {ready : Op → env.State → Prop} {allowed : Op → Prop}
    {result : α → Prop} {kept : env.State → Prop}
    (evolves : ∀ {before after}, kept before → env.evolve before after →
      kept after)
    (answers : ∀ {op before given after}, kept before → allowed op →
      env.answer op before given after → kept after)
    (isReady : ∀ {op state}, kept state → allowed op → ready op state)
    {program : Program Op Answer α} {state : env.State} (here : kept state)
    (holds : program.Always allowed result) :
    wp env ready True (fun value later => result value ∧ kept later)
      program state := by
  induction program generalizing state with
  | done value =>
      exact wp_done_of_kept evolves here fun later kept => ⟨holds, kept⟩
  | crash => trivial
  | perform op resume inductionHypothesis =>
      exact wp_perform_of_kept evolves here fun later kept =>
        ⟨isReady kept holds.1, fun given after step =>
          inductionHypothesis given (answers kept holds.1 step)
            (holds.2 given)⟩

/-! ## Simulation -/

/-- Every step of the concrete environment is matched by the abstract one, as
long as operations are performed only where the abstract one is ready. -/
structure Simulation (abstract concrete : Environment Op Answer)
    (ready : Op → abstract.State → Prop) where
  rel : abstract.State → concrete.State → Prop
  evolve : ∀ {a c c'}, rel a c → concrete.evolve c c' →
    ∃ a', ReflTransGen abstract.evolve a a' ∧ rel a' c'
  answer : ∀ {op a c given c'}, rel a c → ready op a →
    concrete.answer op c given c' →
    ∃ a', abstract.answer op a given a' ∧ rel a' c'

section Simulation

variable {abstract concrete : Environment Op Answer}
variable {ready : Op → abstract.State → Prop} {mayCrash : Prop}

/-- Whatever the concrete run reaches, the abstract environment reaches a
related state in which the rest of the program is still correct. -/
theorem Simulation.reachable
    (simulation : Simulation abstract concrete ready)
    {post : α → abstract.State → Prop}
    {program : Program Op Answer α}
    {a : abstract.State} {c : concrete.State}
    (related : simulation.rel a c)
    (holds : wp abstract ready mayCrash post program a)
    {reached : Program Op Answer α × concrete.State}
    (steps : Steps concrete (program, c) reached) :
    ∃ a', simulation.rel a' reached.2 ∧
      wp abstract ready mayCrash post reached.1 a' := by
  induction steps with
  | refl => exact ⟨a, related, holds⟩
  | tail _ step inductionHypothesis =>
      obtain ⟨a', related', holds'⟩ := inductionHypothesis
      cases step with
      | evolve step =>
          obtain ⟨a'', matched, related''⟩ :=
            simulation.evolve related' step
          refine ⟨a'', related'', ?_⟩
          clear related'' related'
          induction matched with
          | refl => exact holds'
          | tail _ step inductionHypothesis =>
              exact wp_evolve inductionHypothesis step
      | answer step =>
          obtain ⟨isReady, answered⟩ := holds' a' ReflTransGen.refl
          obtain ⟨a'', matched, related''⟩ :=
            simulation.answer related' isReady step
          exact ⟨a'', related'', answered _ a'' matched⟩

end Simulation

/-! ## Termination -/

/-- A client runs for a finite time in an environment that, left alone, comes
to rest: every run ends. -/
theorem step_acc (env : Environment Op Answer) (kept : env.State → Prop)
    (evolves : ∀ {before after}, kept before → env.evolve before after →
      kept after)
    (answers : ∀ {op before given after}, kept before →
      env.answer op before given after → kept after)
    (rests : ∀ {state}, kept state →
      Acc (fun after before => env.evolve before after) state)
    (program : Program Op Answer α) {state : env.State} (holds : kept state) :
    Acc (fun (after before : Program Op Answer α × env.State) =>
      Step env before after) (program, state) := by
  induction program generalizing state with
  | done value =>
      have rest := rests holds
      induction rest with
      | intro state _ inductionHypothesis =>
          refine Acc.intro _ ?_
          rintro _ (step | step)
          exact inductionHypothesis _ step (evolves holds step)
  | crash =>
      have rest := rests holds
      induction rest with
      | intro state _ inductionHypothesis =>
          refine Acc.intro _ ?_
          rintro _ (step | step)
          exact inductionHypothesis _ step (evolves holds step)
  | perform op resume resumed =>
      have rest := rests holds
      induction rest with
      | intro state _ inductionHypothesis =>
          refine Acc.intro _ ?_
          rintro _ (step | step)
          · exact inductionHypothesis _ step (evolves holds step)
          · exact resumed _ (answers holds step)

/-- What is reached in a finite run is finite. -/
theorem acc_of_steps {env : Environment Op Answer}
    {start reached : Program Op Answer α × env.State}
    (finite : Acc (fun (after before : Program Op Answer α × env.State) =>
      Step env before after) start)
    (steps : Steps env start reached) :
    Acc (fun (after before : Program Op Answer α × env.State) =>
      Step env before after) reached := by
  induction steps with
  | refl => exact finite
  | tail _ step inductionHypothesis => exact inductionHypothesis.inv step

/-- So is what follows a program that has returned. -/
theorem acc_next {env : Environment Op Answer}
    {program : Program Op Answer α} {value : α} {before after : env.State}
    {next : α → Program Op Answer β}
    (finite : Acc (fun (after before : Program Op Answer β × env.State) =>
      Step env before after) (program >>= next, before))
    (returned : Steps env (program, before) (.done value, after)) :
    Acc (fun (after before : Program Op Answer β × env.State) =>
      Step env before after) (next value, after) :=
  acc_of_steps finite (steps_bind returned next)

/-- How a program may have ended. -/
def Ended (mayCrash : Prop) (post : α → Prop) : Program Op Answer α → Prop
  | .done value => post value
  | .crash => mayCrash
  | .perform _ _ => False

/-- Every run is finite, and unless the environment has halted, it ends with
a result that satisfies the postcondition, or in a crash where it may. -/
structure Finishes (env : Environment Op Answer)
    (halted : env.State → Prop) (mayCrash : Prop) (post : α → Prop)
    (start : Program Op Answer α × env.State) : Prop where
  finite : Acc (fun (after before : Program Op Answer α × env.State) =>
    Step env before after) start
  ends : ∀ reached, Steps env start reached →
    (∀ next, ¬ Step env reached next) → ¬ halted reached.2 →
      Ended mayCrash post reached.1

section Simulation

variable {abstract concrete : Environment Op Answer}
variable {ready : Op → abstract.State → Prop} {mayCrash : Prop}

/-- A program that is correct in the abstract environment finishes in the
concrete one, where an operation that is ready never waits for nothing. -/
theorem Simulation.finishes
    (simulation : Simulation abstract concrete ready)
    {halted : concrete.State → Prop}
    (live : ∀ {op a c}, simulation.rel a c → ready op a →
      (∃ given c', concrete.answer op c given c') ∨
        (∃ c', concrete.evolve c c') ∨ halted c)
    {post : α → Prop} {program : Program Op Answer α}
    {a : abstract.State} {c : concrete.State}
    (related : simulation.rel a c)
    (holds : wp abstract ready mayCrash (fun value _ => post value) program a)
    (finite : Acc (fun (after before : Program Op Answer α × concrete.State) =>
      Step concrete before after) (program, c)) :
    Finishes concrete halted mayCrash post (program, c) := by
  refine ⟨finite, fun reached steps last running => ?_⟩
  obtain ⟨program', c'⟩ := reached
  obtain ⟨a', related', holds'⟩ := simulation.reachable related holds steps
  cases program' with
  | done value => exact holds' a' ReflTransGen.refl
  | crash => exact holds'
  | perform op resume =>
      have isReady := (holds' a' ReflTransGen.refl).1
      rcases live related' isReady with ⟨given, after, answer⟩ |
        ⟨after, evolve⟩ | stopped
      · exact last _ (Step.answer answer)
      · exact last _ (Step.evolve evolve)
      · exact running stopped

end Simulation

/-! ## Running under one schedule -/

/-- Up to so many operations, with answers computed one after the other. -/
def advance {State : Type}
    (respond : (op : Op) → State → Option (Answer op × State)) :
    Nat → Program Op Answer α × State → Option (Program Op Answer α × State)
  | 0, current => some current
  | fuel + 1, (.perform op resume, state) =>
      match respond op state with
      | none => none
      | some (given, after) => advance respond fuel (resume given, after)
  | _ + 1, (.done value, state) => some (.done value, state)
  | _ + 1, (.crash, state) => some (.crash, state)

/-- What `advance` computes is a run of the environment, if it answers only as
the environment can. -/
theorem steps_of_advance (env : Environment Op Answer)
    {respond : (op : Op) → env.State → Option (Answer op × env.State)}
    (sound : ∀ op before given after,
      respond op before = some (given, after) →
        ∃ middle, ReflTransGen env.evolve before middle ∧
          env.answer op middle given after)
    {fuel : Nat} {start reached : Program Op Answer α × env.State}
    (ran : advance respond fuel start = some reached) :
    Steps env start reached := by
  induction fuel generalizing start with
  | zero =>
      obtain rfl := Option.some.inj ran
      exact ReflTransGen.refl
  | succ fuel inductionHypothesis =>
      obtain ⟨program, state⟩ := start
      cases program with
      | done value =>
          obtain rfl := Option.some.inj ran
          exact ReflTransGen.refl
      | crash =>
          obtain rfl := Option.some.inj ran
          exact ReflTransGen.refl
      | perform op resume =>
          simp only [advance] at ran
          split at ran
          · exact absurd ran (by simp)
          · rename_i given after answered
            obtain ⟨middle, evolved, step⟩ := sound op state given after answered
            have waited : Steps env (.perform op resume, state)
                (.perform op resume, middle) := by
              clear step ran
              induction evolved with
              | refl => exact ReflTransGen.refl
              | tail _ step inductionHypothesis =>
                  exact inductionHypothesis.tail (Step.evolve step)
            exact (waited.tail (Step.answer step)).trans
              (inductionHypothesis ran)

/-! ## What is bound to happen -/

end Interaction
