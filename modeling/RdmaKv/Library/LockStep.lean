import RdmaKv.Library.Interaction
import RdmaKv.Library.QueuePair
import Mathlib.Data.List.Perm.Subperm
import Mathlib.Logic.Function.Basic

/-!
# Clients in lock step

A client of several connections, as a program that writes and reads its
buffers, posts work requests and polls for completions.  Whatever the servers
do in between, a client that waits for what it has posted before it goes on
keeps every connection in the phase that its own actions lead to.
-/

namespace QueuePair

open Interaction Relation

/-- What a client does with one connection.  A poll names the wait that it is
part of: for `iters` completions, of which `counted` were counted. -/
inductive Action (Buf Remote : Type) where
  | store (change : Buf → Buf)
  | load
  | postRecv
  | postSend (size : Nat)
  | postRdma (remote : Remote)
  | loadData
  | pollCq (iters counted : Nat)

/-- What a poll returns: one or two completions, each with its kind and
whether it was successful. -/
abbrev Batch :=
  { statuses : List (WrId × Bool) //
    statuses.length = 1 ∨ statuses.length = 2 }

def Action.Answer {Buf Remote : Type} (Data : Type) :
    Action Buf Remote → Type
  | .load => Buf
  | .loadData => Data
  | .pollCq _ _ => Batch
  | _ => Unit

/-- What a client sees of a completion. -/
def Completion.status (completion : Completion) : WrId × Bool :=
  (completion.wrId, completion.success)

variable {Buf Remote Data : Type} {service : Service Buf Remote Data}

namespace Line

def stored (line : Line service) (change : Buf → Buf) : Line service :=
  { line with
    client := { line.client with buf := change line.client.buf }
    holds := none
    history := line.history ++ [.stored] }

def loaded (line : Line service) : Line service :=
  { line with history := line.history ++ [.loaded line.holds] }

def posted (line : Line service) (client : Endpoint Buf Remote) (asks : Bool) :
    Line service :=
  { line with
    client := client
    posts := line.posts + 1
    history := line.history ++ [.posted line.posts asks] }

def polled (line : Line service) (iters counted : Nat)
    (batch rest : List Completion) : Line service :=
  { line with
    client := { line.client with cq := rest }
    history := line.history ++ [.polled iters counted batch] }

inductive Perform : (action : Action Buf Remote) → Line service →
    action.Answer Data → Line service → Prop
  | store {line : Line service} (change : Buf → Buf) :
      Perform (.store change) line () (line.stored change)
  | load {line : Line service} :
      Perform .load line line.client.buf line.loaded
  | postRecv {line : Line service} {client : Endpoint Buf Remote}
      (posts : line.client.PostRecv client) :
      Perform .postRecv line () { line with client := client }
  | postSend {line : Line service} {size : Nat} {client : Endpoint Buf Remote}
      (posts : line.client.PostSend
        ⟨line.posts, .send size line.client.buf⟩ client) :
      Perform (.postSend size) line ()
        (line.posted client (service.asks line.client.buf))
  | postRdma {line : Line service} {remote : Remote}
      {client : Endpoint Buf Remote}
      (posts : line.client.PostSend ⟨line.posts, .rdma remote⟩ client) :
      Perform (.postRdma remote) line () (line.posted client false)
  | loadData {line : Line service} : Perform .loadData line line.data line
  | pollCq {line : Line service} {iters counted : Nat}
      {batch rest : List Completion}
      (completed : line.client.cq = batch ++ rest)
      (few : (batch.map Completion.status).length = 1 ∨
        (batch.map Completion.status).length = 2) :
      Perform (.pollCq iters counted) line
        ⟨batch.map Completion.status, few⟩
        (line.polled iters counted batch rest)

variable {line : Line service} {phase : Phase}

/-! ## One connection -/

/-- Between two waits nothing is to come. -/
theorem Keeps.coming_eq_nil {reply : Option Nat}
    (keeps : line.Keeps (.idle reply)) : line.coming = [] := by
  refine List.eq_nil_iff_forall_not_mem.mpr fun completion member => ?_
  have none := keeps.coming completion
  have some := List.count_pos_iff.mpr member
  rw [List.count_append] at none
  have zero : (Phase.idle reply).due.count completion = 0 := List.count_nil
  omega

/-- What was posted completes. -/
theorem sends_eq_nil_of_coming (nothing : line.coming = []) :
    line.client.sends = [] := by
  by_contra some
  obtain ⟨posted, rest, sends⟩ := List.exists_cons_of_ne_nil some
  have comes : Completion.sent posted.number ∈ line.coming := by
    cases asks : posted.work.asks service <;>
      simp [Line.coming, sends, asks, Completion.ofRequest]
  rw [nothing] at comes
  exact absurd comes List.not_mem_nil

theorem Keeps.sends_eq_nil {reply : Option Nat}
    (keeps : line.Keeps (.idle reply)) : line.client.sends = [] :=
  sends_eq_nil_of_coming keeps.coming_eq_nil

theorem Keeps.store {reply : Option Nat} (keeps : line.Keeps (.idle reply))
    (change : Buf → Buf) : (line.stored change).Keeps (.idle none) := by
  have nothing := keeps.coming_eq_nil
  have same : (line.stored change).coming = [] := nothing
  refine ⟨.next keeps.history .stored, ?_, keeps.credit, keeps.intact,
    keeps.quiet, ?_, ?_, keeps.replied, ?_, ?_⟩
  · intro completion
    rw [same]
    exact Nat.le_refl _
  · intro posted member
    have member : posted ∈ line.client.sends := member
    rw [keeps.sends_eq_nil] at member
    exact absurd member List.not_mem_nil
  · intro number size buf member
    have member : _ ∈ line.client.sends := member
    rw [keeps.sends_eq_nil] at member
    exact absurd member List.not_mem_nil
  · intro number member
    have member : .received number ∈ line.client.cq := by
      simpa [Phase.idle, Line.stored] using member
    have comes := Line.mem_coming_of_mem_cq member
    rw [nothing] at comes
    exact absurd comes List.not_mem_nil
  · intro number replied
    exact absurd replied (by simp [Phase.idle])

theorem Keeps.load {number : Nat} (keeps : line.Keeps (.idle (some number))) :
    line.loaded.Keeps (.idle (some number)) := by
  refine ⟨?_, keeps.coming, keeps.credit, keeps.intact, keeps.quiet,
    keeps.latest, keeps.built, keeps.replied, keeps.holds, keeps.reply⟩
  rw [Line.loaded, keeps.reply number rfl]
  exact .next keeps.history .loaded

theorem Keeps.postRecv (keeps : line.Keeps phase)
    {client : Endpoint Buf Remote} (posts : line.client.PostRecv client) :
    Line.Keeps { line with client := client } phase := by
  cases posts with
  | accepted =>
      exact ⟨keeps.history, keeps.coming, keeps.credit, keeps.intact,
        keeps.quiet, keeps.latest, keeps.built, keeps.replied, keeps.holds,
        keeps.reply⟩
  | refused => exact keeps

/-- The client posts a request or an RDMA operation. -/
theorem Keeps.post {reply : Option Nat} (keeps : line.Keeps (.idle reply))
    {work : Work Buf Remote} {client : Endpoint Buf Remote}
    (posts : line.client.PostSend ⟨line.posts, work⟩ client)
    (inBuffer : ∀ size buf, work = .send size buf →
      line.client.buf = buf ∧ service.header ≤ size) :
    (line.posted client (work.asks service)).Keeps
      ⟨Completion.ofRequest line.posts (work.asks service), [], none⟩ := by
  have nothing := keeps.coming_eq_nil
  have noSends := keeps.sends_eq_nil
  have same : client.buf = line.client.buf ∧ client.cq = line.client.cq ∧
      client.unacked = line.client.unacked ∧
      (client.sends = [⟨line.posts, work⟩] ∨ client.sends = []) := by
    cases posts with
    | accepted => exact ⟨rfl, rfl, rfl, Or.inl (by simp [noSends])⟩
    | refused => exact ⟨rfl, rfl, rfl, Or.inr noSends⟩
  obtain ⟨sameBuf, sameCq, sameUnacked, sends⟩ := same
  have onlyPosted : ∀ posted ∈ client.sends,
      posted = ⟨line.posts, work⟩ := by
    intro posted member
    rcases sends with sends | sends
    · rw [sends] at member
      exact List.mem_singleton.mp member
    · rw [sends] at member
      exact absurd member List.not_mem_nil
  refine ⟨.next keeps.history (.posted _ _), ?_, keeps.credit, keeps.intact,
    keeps.quiet, ?_, ?_, keeps.replied, ?_, ?_⟩
  · intro completion
    have before := congrArg (List.count completion) nothing
    rw [count_coming, List.count_nil] at before
    rw [List.nil_append, count_coming,
      show (line.posted client (work.asks service)).toAnswer = line.toAnswer
        from rfl]
    simp only [Line.posted, sameCq, sameUnacked]
    rcases sends with sends | sends
    · rw [sends]
      simp only [List.flatMap_cons, List.flatMap_nil, List.append_nil]
      omega
    · rw [sends, List.flatMap_nil, List.count_nil]
      omega
  · intro posted member
    rw [onlyPosted posted member]
  · intro number size buf member
    have isPosted := onlyPosted _ member
    have isWork : work = .send size buf :=
      (congrArg Posted.work isPosted).symm
    obtain ⟨here, long⟩ := inBuffer size buf isWork
    exact ⟨sameBuf.trans here, long⟩
  · intro number member
    have member : .received number ∈ line.client.cq := by
      simpa [Line.posted, sameCq] using member
    have comes := Line.mem_coming_of_mem_cq member
    rw [nothing] at comes
    exact absurd comes List.not_mem_nil
  · intro number replied
    exact absurd replied (by simp)

theorem Keeps.postSend {reply : Option Nat} {size : Nat}
    (keeps : line.Keeps (.idle reply)) (long : service.header ≤ size)
    {client : Endpoint Buf Remote}
    (posts : line.client.PostSend
      ⟨line.posts, .send size line.client.buf⟩ client) :
    (line.posted client (service.asks line.client.buf)).Keeps
      ⟨Completion.ofRequest line.posts (service.asks line.client.buf), [],
        none⟩ := by
  refine keeps.post posts fun other buf isWork => ?_
  obtain ⟨rfl, rfl⟩ := (Work.send.injEq ..).mp isWork
  exact ⟨rfl, long⟩

theorem Keeps.postRdma {reply : Option Nat} {remote : Remote}
    (keeps : line.Keeps (.idle reply)) {client : Endpoint Buf Remote}
    (posts : line.client.PostSend ⟨line.posts, .rdma remote⟩ client) :
    (line.posted client false).Keeps
      ⟨Completion.ofRequest line.posts false, [], none⟩ :=
  keeps.post posts fun _ _ isWork => absurd isWork (by simp)

/-- What the client takes no longer comes. -/
theorem Keeps.count_polled {due taken batch rest : List Completion}
    (keeps : line.Keeps ⟨due, taken, none⟩)
    (completed : line.client.cq = batch ++ rest) (iters counted : Nat)
    (completion : Completion) :
    (taken ++ batch).count completion +
      (line.polled iters counted batch rest).coming.count completion ≤
        due.count completion := by
  have coming : taken.count completion + line.coming.count completion ≤
      due.count completion := by
    rw [← List.count_append]
    exact keeps.coming completion
  rw [count_coming, completed, List.count_append] at coming
  rw [List.count_append, count_coming,
    show (line.polled iters counted batch rest).toAnswer = line.toAnswer
      from rfl]
  simp only [Line.polled]
  omega

/-- The wait goes on. -/
theorem Keeps.poll_more {due taken batch rest : List Completion}
    (keeps : line.Keeps ⟨due, taken, none⟩)
    (completed : line.client.cq = batch ++ rest)
    (within : (taken ++ batch).Subperm due)
    (less : taken.length + batch.length < due.length) :
    (line.polled due.length taken.length batch rest).Keeps
      ⟨due, taken ++ batch, none⟩ := by
  refine ⟨.next keeps.history (.polled within less), ?_, keeps.credit,
    keeps.intact, keeps.quiet, keeps.latest, keeps.built, keeps.replied, ?_,
    keeps.reply⟩
  · intro completion
    rw [List.count_append]
    exact keeps.count_polled completed _ _ completion
  · intro number member
    refine keeps.holds number ?_
    rw [completed, ← List.append_assoc]
    exact member

/-- The wait is over, and nothing is to come. -/
theorem Keeps.poll_last {due taken batch rest : List Completion}
    (keeps : line.Keeps ⟨due, taken, none⟩)
    (completed : line.client.cq = batch ++ rest)
    (perm : (taken ++ batch).Perm due) (more : taken.length < due.length) :
    (line.polled due.length taken.length batch rest).Keeps
      (.idle (Phase.answered due)) := by
  have nothing :
      (line.polled due.length taken.length batch rest).coming = [] := by
    refine List.eq_nil_iff_forall_not_mem.mpr fun completion member => ?_
    have some := List.count_pos_iff.mpr member
    have bound := keeps.count_polled completed due.length taken.length
      completion
    rw [perm.count_eq] at bound
    omega
  have noSends := sends_eq_nil_of_coming nothing
  change line.client.sends = [] at noSends
  refine ⟨.next keeps.history (.waited perm more), ?_, keeps.credit,
    keeps.intact, keeps.quiet, ?_, ?_, keeps.replied, ?_, ?_⟩
  · intro completion
    rw [nothing]
    exact Nat.le_refl _
  · intro posted member
    have member : posted ∈ line.client.sends := member
    rw [noSends] at member
    exact absurd member List.not_mem_nil
  · intro number size buf member
    have member : _ ∈ line.client.sends := member
    rw [noSends] at member
    exact absurd member List.not_mem_nil
  · intro number member
    have member : .received number ∈
        (line.polled due.length taken.length batch rest).client.cq := by
      simpa [Phase.idle, Line.polled] using member
    have comes := Line.mem_coming_of_mem_cq member
    rw [nothing] at comes
    exact absurd comes List.not_mem_nil
  · intro number replied
    refine keeps.holds number ?_
    rcases keeps.history.shape with ⟨reply, idle⟩ | ⟨other, asks, _, same⟩
    · obtain ⟨rfl, -, -⟩ := (Phase.mk.injEq ..).mp idle
      exact absurd more (Nat.not_lt_zero _)
    · obtain ⟨rfl, -, -⟩ := (Phase.mk.injEq ..).mp same
      have isReply := replied.symm.trans (Phase.answered_ofRequest other asks)
      split at isReply
      · rename_i asked
        obtain rfl := Option.some.inj isReply
        rw [completed, ← List.append_assoc]
        refine List.mem_append_left rest (perm.mem_iff.mpr ?_)
        simp [Completion.ofRequest, asked]
      · exact absurd isReply (by simp)

/-- The client polls inside a wait: it takes only what the wait is for, and
when it has taken all of that the wait is over. -/
theorem Keeps.poll {due taken rest : List Completion}
    (keeps : line.Keeps ⟨due, taken, none⟩) (batch : List Completion)
    (more : taken.length < due.length)
    (completed : line.client.cq = batch ++ rest) :
    (taken.length + batch.length < due.length ∧
        (line.polled due.length taken.length batch rest).Keeps
          ⟨due, taken ++ batch, none⟩) ∨
      (taken.length + batch.length = due.length ∧
        (line.polled due.length taken.length batch rest).Keeps
          (.idle (Phase.answered due))) := by
  have within : (taken ++ batch).Subperm due :=
    List.subperm_ext_iff.mpr fun completion _ =>
      Nat.le_trans (Nat.le_add_right _ _)
        (keeps.count_polled completed 0 0 completion)
  have bound := within.length_le
  rw [List.length_append] at bound
  rcases Nat.lt_or_eq_of_le bound with less | all
  · exact Or.inl ⟨less, keeps.poll_more completed within less⟩
  · have perm : (taken ++ batch).Perm due :=
      within.perm_of_length_le (by rw [List.length_append]; omega)
    exact Or.inr ⟨all, keeps.poll_last completed perm more⟩

end Line

/-! ## All connections -/

abbrev Verb (Conn Buf Remote : Type) := Conn × Action Buf Remote

abbrev Verb.Answer {Conn Buf Remote : Type} (Data : Type)
    (verb : Verb Conn Buf Remote) : Type := verb.2.Answer Data

variable {Conn : Type} [DecidableEq Conn]

abbrev Net (services : Conn → Service Buf Remote Data) :=
  ∀ conn, Line (services conn)

/-- The connections evolve independently of each other. -/
def environment (faults : Prop) (services : Conn → Service Buf Remote Data) :
    Environment (Verb Conn Buf Remote) (Verb.Answer Data) where
  State := Net services
  evolve := fun net net' => ∃ conn line, (net conn).Evolve faults line ∧
    net' = Function.update net conn line
  answer := fun verb net given net' => ∃ line,
    Line.Perform verb.2 (net verb.1) given line ∧
      net' = Function.update net verb.1 line

variable {services : Conn → Service Buf Remote Data}

namespace Net

def Keeps (net : Net services) : Prop :=
  ∀ conn, ∃ phase, (net conn).Keeps phase

/-- One connection is in the given phase and the others are between two
waits. -/
structure At (net : Net services) (conn : Conn) (phase : Phase) : Prop where
  here : (net conn).Keeps phase
  others : ∀ other, other ≠ conn → ∃ reply, (net other).Keeps (.idle reply)

variable {net net' : Net services} {conn : Conn} {phase : Phase}

/-- Every connection is between two waits. -/
def Rests (net : Net services) : Prop :=
  ∀ conn, ∃ reply, (net conn).Keeps (.idle reply)

omit [DecidableEq Conn] in
theorem Rests.at (rests : net.Rests) (conn : Conn) :
    ∃ reply, net.At conn (.idle reply) := by
  obtain ⟨reply, idle⟩ := rests conn
  exact ⟨reply, idle, fun other _ => rests other⟩

theorem At.rests {reply : Option Nat} (isAt : net.At conn (.idle reply)) :
    net.Rests := by
  intro other
  by_cases same : other = conn
  · exact ⟨reply, same ▸ isAt.here⟩
  · exact isAt.others other same

theorem At.keeps (isAt : net.At conn phase) : net.Keeps := by
  intro other
  by_cases same : other = conn
  · exact ⟨phase, same ▸ isAt.here⟩
  · obtain ⟨reply, idle⟩ := isAt.others other same
    exact ⟨_, idle⟩

theorem At.update (isAt : net.At conn phase) {line : Line (services conn)}
    {phase' : Phase} (here : line.Keeps phase') :
    Net.At (Function.update net conn line) conn phase' := by
  refine ⟨by rwa [Function.update_self], fun other different => ?_⟩
  rw [Function.update_of_ne different]
  exact isAt.others other different

theorem At.evolve (isAt : net.At conn phase)
    (step : (environment False services).evolve net net') :
    net'.At conn phase := by
  obtain ⟨other, line, evolved, rfl⟩ := step
  by_cases same : other = conn
  · subst same
    exact isAt.update (isAt.here.evolve evolved)
  · refine ⟨?_, fun third different => ?_⟩
    · rw [Function.update_of_ne (Ne.symm same)]
      exact isAt.here
    · by_cases again : third = other
      · subst again
        obtain ⟨reply, idle⟩ := isAt.others third different
        rw [Function.update_self]
        exact ⟨reply, idle.evolve evolved⟩
      · rw [Function.update_of_ne again]
        exact isAt.others third different

inductive Permits (header : Nat) : Phase → Action Buf Remote → Prop
  | store {reply : Option Nat} (change : Buf → Buf) :
      Permits header (.idle reply) (.store change)
  | load {number : Nat} : Permits header (.idle (some number)) .load
  | postRecv {phase : Phase} : Permits header phase .postRecv
  | postSend {reply : Option Nat} {size : Nat} (long : header ≤ size) :
      Permits header (.idle reply) (.postSend size)
  | postRdma {reply : Option Nat} (remote : Remote) :
      Permits header (.idle reply) (.postRdma remote)
  | loadData {phase : Phase} : Permits header phase .loadData
  | pollCq {due taken : List Completion} (more : taken.length < due.length) :
      Permits header ⟨due, taken, none⟩ (.pollCq due.length taken.length)

/-- The next operation of the client is permitted. -/
def Ready (verb : Verb Conn Buf Remote) (net : Net services) : Prop :=
  ∃ phase, (net verb.1).Keeps phase ∧
    Permits (services verb.1).header phase verb.2

end Net

/-- A client that does only what is permitted stays in lock step. -/
theorem Line.Keeps.perform {line line' : Line service} {phase : Phase}
    (keeps : line.Keeps phase) {action : Action Buf Remote}
    {given : action.Answer Data}
    (permitted : Net.Permits service.header phase action)
    (performed : Line.Perform action line given line') :
    ∃ phase', line'.Keeps phase' := by
  cases permitted with
  | store change =>
      cases performed with
      | store => exact ⟨_, keeps.store change⟩
  | load =>
      cases performed with
      | load => exact ⟨_, keeps.load⟩
  | postRecv =>
      cases performed with
      | postRecv posts => exact ⟨_, keeps.postRecv posts⟩
  | postSend long =>
      cases performed with
      | postSend posts => exact ⟨_, keeps.postSend long posts⟩
  | postRdma remote =>
      cases performed with
      | postRdma posts => exact ⟨_, keeps.postRdma posts⟩
  | loadData =>
      cases performed with
      | loadData => exact ⟨_, keeps⟩
  | pollCq more =>
      cases performed with
      | @pollCq _ _ _ batch _ completed _ =>
          rcases keeps.poll batch more completed with ⟨_, later⟩ | ⟨_, later⟩
          · exact ⟨_, later⟩
          · exact ⟨_, later⟩

theorem Net.Keeps.evolve {net net' : Net services} (keeps : net.Keeps)
    (step : (environment False services).evolve net net') : net'.Keeps := by
  obtain ⟨conn, line, evolved, rfl⟩ := step
  intro other
  by_cases same : other = conn
  · subst same
    obtain ⟨phase, here⟩ := keeps other
    rw [Function.update_self]
    exact ⟨phase, here.evolve evolved⟩
  · rw [Function.update_of_ne same]
    exact keeps other

theorem Net.Keeps.answer {net net' : Net services} (keeps : net.Keeps)
    {verb : Verb Conn Buf Remote} {given : verb.Answer Data}
    (ready : Net.Ready verb net)
    (step : (environment False services).answer verb net given net') :
    net'.Keeps := by
  obtain ⟨line, performed, rfl⟩ := step
  obtain ⟨phase, here, permitted⟩ := ready
  intro other
  by_cases same : other = verb.1
  · subst same
    rw [Function.update_self]
    exact here.perform permitted performed
  · rw [Function.update_of_ne same]
    exact keeps other

section Steps

variable {faults : Prop} {net : Net services} {conn : Conn}
variable {line line' : Line (services conn)} {α : Type}

end Steps

/-! ## Programs -/

abbrev Client (Conn Buf Remote Data α : Type) :=
  Program (Verb Conn Buf Remote) (Verb.Answer Data) α

def store (conn : Conn) (change : Buf → Buf) :
    Client Conn Buf Remote Data Unit :=
  .perform (conn, .store change) .done

def load (conn : Conn) : Client Conn Buf Remote Data Buf :=
  .perform (conn, .load) .done

def postRecv (conn : Conn) : Client Conn Buf Remote Data Unit :=
  .perform (conn, .postRecv) .done

def postSend (conn : Conn) (size : Nat) : Client Conn Buf Remote Data Unit :=
  .perform (conn, .postSend size) .done

def postRdma (conn : Conn) (remote : Remote) :
    Client Conn Buf Remote Data Unit :=
  .perform (conn, .postRdma remote) .done

/-- What the latest RDMA operation has read. -/
def loadData (conn : Conn) : Client Conn Buf Remote Data Data :=
  .perform (conn, .loadData) .done

def pollCq (conn : Conn) (iters counted : Nat) :
    Client Conn Buf Remote Data Batch :=
  .perform (conn, .pollCq iters counted) .done

section Rules

variable {α : Type} {net : Net services} {conn : Conn} {reply : Option Nat}

/-- A statement about the client's buffer that nothing but the client makes
false while the connection is in the phase. -/
def Stable (service : Service Buf Remote Data) (phase : Phase) (P : Buf → Prop) :
    Prop :=
  ∀ {line line' : Line service}, line.Keeps phase → P line.client.buf →
    line.Evolve False line' → P line'.client.buf

/-- A connection in its phase whose buffer is as described. -/
def Net.Holds (net : Net services) (conn : Conn) (phase : Phase)
    (P : Buf → Prop) : Prop :=
  net.At conn phase ∧ P (net conn).client.buf

omit [DecidableEq Conn] in
theorem Net.At.holds {phase : Phase} (isAt : net.At conn phase) :
    net.Holds conn phase fun _ => True := ⟨isAt, trivial⟩

theorem Net.Holds.evolve {phase : Phase} {P : Buf → Prop} {net' : Net services}
    (stable : Stable (services conn) phase P) (holds : net.Holds conn phase P)
    (step : (environment False services).evolve net net') :
    net'.Holds conn phase P := by
  refine ⟨holds.1.evolve step, ?_⟩
  obtain ⟨other, line, evolved, rfl⟩ := step
  by_cases same : other = conn
  · subst same
    rw [Function.update_self]
    exact stable holds.1.here holds.2 evolved
  · rw [Function.update_of_ne (Ne.symm same)]
    exact holds.2

theorem Line.Keeps.success {line : Line service} {phase : Phase}
    (keeps : line.Keeps phase) {completion : Completion}
    (completed : completion ∈ line.client.cq) :
    completion.success = true := by
  have comes : completion ∈ phase.taken ++ line.coming :=
    List.mem_append_right _ (Line.mem_coming_of_mem_cq completed)
  have due := List.count_pos_iff.mp (Nat.lt_of_lt_of_le
    (List.count_pos_iff.mpr comes) (keeps.coming completion))
  rcases keeps.history.shape with ⟨_, rfl⟩ | ⟨_, _, _, rfl⟩
  · exact absurd due List.not_mem_nil
  · exact Completion.success_of_mem_ofRequest due

end Rules

end QueuePair
