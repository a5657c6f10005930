import Mathlib.Data.List.Basic
import Mathlib.Data.List.Nodup

/-!
# Chains of `next` pointers

A singly linked list in a heap is a start pointer and a `next` pointer for
every node.  `Chain next start nodes` says that following `next` from `start`
visits exactly `nodes`, in this order, and then meets NULL.
-/

namespace LinkedChain

variable {α : Type*}

/-- Following `next` from `start` visits `nodes` and ends at NULL. -/
def Chain (next : α → Option α) : Option α → List α → Prop
  | start, [] => start = none
  | start, node :: rest => start = some node ∧ Chain next (next node) rest

namespace Chain

variable {next next' : α → Option α}

/-- A heap and a start pointer determine the chain. -/
theorem unique {start : Option α} {first second : List α}
    (left : Chain next start first) (right : Chain next start second) :
    first = second := by
  induction first generalizing start second with
  | nil =>
      have empty : start = none := left
      cases second with
      | nil => rfl
      | cons node rest =>
          have head : start = some node := right.1
          rw [empty] at head
          exact absurd head (by simp)
  | cons node rest inductionHypothesis =>
      obtain ⟨head, tail⟩ := left
      cases second with
      | nil =>
          have empty : start = none := right
          rw [empty] at head
          exact absurd head (by simp)
      | cons other others =>
          obtain ⟨otherHead, otherTail⟩ := right
          have same : node = other := by
            rw [head] at otherHead
            exact Option.some.inj otherHead
          subst same
          rw [inductionHypothesis tail otherTail]

/-- The nodes from any point of a chain on are again a chain. -/
theorem suffix {start : Option α} {before after : List α} {node : α}
    (chain : Chain next start (before ++ node :: after)) :
    Chain next (next node) after := by
  induction before generalizing start with
  | nil => exact chain.2
  | cons head rest inductionHypothesis =>
      exact inductionHypothesis chain.2

/-- A chain that ends visits no node twice. -/
theorem nodup {start : Option α} {nodes : List α}
    (chain : Chain next start nodes) : nodes.Nodup := by
  induction nodes generalizing start with
  | nil => exact List.nodup_nil
  | cons node rest inductionHypothesis =>
      obtain ⟨_, tail⟩ := chain
      refine List.nodup_cons.mpr ⟨?_, inductionHypothesis tail⟩
      intro member
      obtain ⟨before, after, split⟩ := List.append_of_mem member
      rw [split] at tail
      have again : Chain next (next node) after := tail.suffix
      have same := congrArg List.length (again.unique tail)
      simp only [List.length_append, List.length_cons] at same
      omega

/-- Only the pointers of its own nodes matter to a chain. -/
theorem congr {start : Option α} {nodes : List α}
    (chain : Chain next start nodes)
    (agree : ∀ node ∈ nodes, next' node = next node) :
    Chain next' start nodes := by
  induction nodes generalizing start with
  | nil => exact chain
  | cons node rest inductionHypothesis =>
      refine ⟨chain.1, ?_⟩
      rw [agree node (List.mem_cons_self ..)]
      exact inductionHypothesis chain.2 fun other member =>
        agree other (List.mem_cons_of_mem node member)

/-- The last node of a chain points nowhere. -/
theorem next_last {start : Option α} {nodes : List α} {last : α}
    (chain : Chain next start nodes) (isLast : nodes.getLast? = some last) :
    next last = none := by
  obtain ⟨before, split⟩ := List.getLast?_eq_some_iff.mp isLast
  rw [split] at chain
  exact chain.suffix

theorem start_ne_none {start : Option α} {nodes : List α}
    (chain : Chain next start nodes) (nonempty : nodes ≠ []) :
    start ≠ none := by
  cases nodes with
  | nil => exact absurd rfl nonempty
  | cons node rest =>
      rw [chain.1]
      exact Option.some_ne_none node

end Chain

/-- Numbered nodes, each of which points to the one with the next number. -/
theorem chain_range' {next : Nat → Option Nat} {start count : Nat}
    (links : ∀ i < count, next (start + i) =
      if i + 1 = count then none else some (start + i + 1)) :
    Chain next (if count = 0 then none else some start)
      (List.range' start count) := by
  induction count generalizing start with
  | zero => exact rfl
  | succ count inductionHypothesis =>
      have first := links 0 (Nat.succ_pos count)
      have later := @inductionHypothesis (start + 1) fun i bound => by
        have link := links (i + 1) (Nat.succ_lt_succ bound)
        rw [show start + (i + 1) = start + 1 + i by omega] at link
        rw [link]
        by_cases last : i + 1 = count <;> simp [last]
      rw [List.range'_succ]
      refine ⟨by simp, ?_⟩
      rw [Nat.add_zero] at first
      rw [first]
      cases count with
      | zero => exact later
      | succ count => simpa using later

/-- Following `next` from `start` comes to `node`. -/
inductive Reaches (next : α → Option α) : Option α → α → Prop
  | here (node : α) : Reaches next (some node) node
  | there {node other : α} (later : Reaches next (next node) other) :
      Reaches next (some node) other

/-- A pointer reaches exactly the nodes of its chain. -/
theorem Chain.reaches_iff {next : α → Option α} {start : Option α}
    {nodes : List α} (chain : Chain next start nodes) {node : α} :
    Reaches next start node ↔ node ∈ nodes := by
  induction nodes generalizing start with
  | nil =>
      have empty : start = none := chain
      subst empty
      constructor
      · intro reached
        cases reached
      · intro member
        exact absurd member List.not_mem_nil
  | cons head rest inductionHypothesis =>
      obtain ⟨rfl, tail⟩ := chain
      rw [List.mem_cons, ← inductionHypothesis tail]
      constructor
      · intro reached
        cases reached with
        | here => exact Or.inl rfl
        | there later => exact Or.inr later
      · rintro (rfl | later)
        · exact Reaches.here node
        · exact Reaches.there later

/-! ## Linking a node behind another one -/

section LinkBehind

variable [DecidableEq α]

/-- The nodes that are left when `node` is linked behind `tail`: whatever
followed `tail` is cut off. -/
def linkBehind (tail node : α) : List α → List α
  | [] => []
  | head :: rest =>
      if head = tail then [tail, node]
      else head :: linkBehind tail node rest

theorem linkBehind_of_not_mem {tail node : α} {nodes : List α}
    (absent : tail ∉ nodes) : linkBehind tail node nodes = nodes := by
  induction nodes with
  | nil => rfl
  | cons head rest inductionHypothesis =>
      have different : tail ≠ head := List.ne_of_not_mem_cons absent
      have later : tail ∉ rest := List.not_mem_of_not_mem_cons absent
      rw [linkBehind, if_neg (Ne.symm different), inductionHypothesis later]

theorem linkBehind_append {tail node : α} {before after : List α}
    (absent : tail ∉ before) :
    linkBehind tail node (before ++ tail :: after) =
      before ++ [tail, node] := by
  induction before with
  | nil => simp [linkBehind]
  | cons head rest inductionHypothesis =>
      have different : tail ≠ head := List.ne_of_not_mem_cons absent
      have later : tail ∉ rest := List.not_mem_of_not_mem_cons absent
      rw [List.cons_append, linkBehind, if_neg (Ne.symm different),
        inductionHypothesis later, List.cons_append]

theorem linkBehind_of_nodup {tail node : α} {before after : List α}
    (nodup : (before ++ tail :: after).Nodup) :
    linkBehind tail node (before ++ tail :: after) =
      before ++ [tail, node] := by
  refine linkBehind_append fun member => ?_
  exact (List.nodup_append.mp nodup).2.2 tail member tail
    (List.mem_cons_self ..) rfl

theorem mem_of_mem_linkBehind {tail node other : α} {nodes : List α}
    (member : other ∈ linkBehind tail node nodes) :
    other ∈ nodes ∨ other = node := by
  induction nodes with
  | nil => exact Or.inl member
  | cons head rest inductionHypothesis =>
      rw [linkBehind] at member
      split at member
      · rename_i same
        rcases List.mem_cons.mp member with rfl | last
        · exact Or.inl (by rw [same]; exact List.mem_cons_self ..)
        · exact Or.inr (List.mem_singleton.mp last)
      · rcases List.mem_cons.mp member with rfl | later
        · exact Or.inl (List.mem_cons_self ..)
        · rcases inductionHypothesis later with found | found
          · exact Or.inl (List.mem_cons_of_mem head found)
          · exact Or.inr found

theorem tail_mem_linkBehind {tail node : α} {nodes : List α}
    (member : tail ∈ nodes) : tail ∈ linkBehind tail node nodes := by
  obtain ⟨before, after, split, absent⟩ :=
    List.eq_append_cons_of_mem member
  rw [split, linkBehind_append absent]
  simp

theorem node_mem_linkBehind {tail node : α} {nodes : List α}
    (member : tail ∈ nodes) : node ∈ linkBehind tail node nodes := by
  obtain ⟨before, after, split, absent⟩ :=
    List.eq_append_cons_of_mem member
  rw [split, linkBehind_append absent]
  simp

/-- Point the tail at a node that ends the chain. -/
theorem Chain.linkBehind {next next' : α → Option α} {start : Option α}
    {nodes : List α} {tail node : α}
    (chain : Chain next start nodes)
    (agree : ∀ other ∈ nodes, other ≠ tail → next' other = next other)
    (linked : next' tail = some node) (last : next' node = none) :
    Chain next' start (linkBehind tail node nodes) := by
  induction nodes generalizing start with
  | nil => exact chain
  | cons head rest inductionHypothesis =>
      rw [LinkedChain.linkBehind]
      split
      · rename_i same
        subst same
        exact ⟨chain.1, linked, last⟩
      · rename_i different
        refine ⟨chain.1, ?_⟩
        rw [agree head (List.mem_cons_self ..) different]
        exact inductionHypothesis chain.2 fun other member =>
          agree other (List.mem_cons_of_mem head member)

end LinkBehind

/-! ## Lists that are linked both ways -/

/-- What follows a node of a chain is what its pointer says. -/
theorem Chain.next_eq_some_iff {next : α → Option α} {start : Option α}
    {nodes : List α} {node other : α} (chain : Chain next start nodes)
    (member : node ∈ nodes) :
    next node = some other ↔
      ∃ before after, nodes = before ++ node :: other :: after := by
  constructor
  · intro link
    obtain ⟨before, after, rfl⟩ := List.append_of_mem member
    have rest := chain.suffix
    rw [link] at rest
    cases after with
    | nil => exact absurd rest (Option.some_ne_none other)
    | cons follower after =>
        obtain rfl := Option.some.inj rest.1
        exact ⟨before, after, rfl⟩
  · rintro ⟨before, after, rfl⟩
    exact chain.suffix.1

/-- `next` and `prev` link the nodes both ways between `head` and `tail`. -/
structure TwoWay (next prev : α → Option α) (head tail : Option α)
    (nodes : List α) : Prop where
  forward : Chain next head nodes
  backward : Chain prev tail nodes.reverse

namespace TwoWay

variable {next next' prev prev' : α → Option α} {head head' tail tail' : Option α}
  {nodes : List α}

theorem nodup (listed : TwoWay next prev head tail nodes) : nodes.Nodup :=
  listed.forward.nodup

theorem head_eq_none_iff (listed : TwoWay next prev head tail nodes) :
    head = none ↔ nodes = [] := by
  constructor
  · intro empty
    by_contra nonempty
    exact listed.forward.start_ne_none nonempty empty
  · rintro rfl
    exact listed.forward

theorem tail_eq_none_iff (listed : TwoWay next prev head tail nodes) :
    tail = none ↔ nodes = [] := by
  constructor
  · intro empty
    by_contra nonempty
    refine listed.backward.start_ne_none ?_ empty
    rwa [Ne, List.reverse_eq_nil_iff]
  · rintro rfl
    exact listed.backward

theorem tail_mem (listed : TwoWay next prev head tail nodes) {last : α}
    (isTail : tail = some last) : last ∈ nodes := by
  have backward := listed.backward
  rw [← List.mem_reverse]
  cases reversed : nodes.reverse with
  | nil =>
      rw [reversed] at backward
      exact absurd (isTail.symm.trans backward) (Option.some_ne_none last)
  | cons first rest =>
      rw [reversed] at backward
      obtain rfl := Option.some.inj (isTail.symm.trans backward.1)
      exact List.mem_cons_self ..

/-- `prev` is the inverse of `next`. -/
theorem inverse (listed : TwoWay next prev head tail nodes) {node other : α}
    (member : node ∈ nodes) (otherMember : other ∈ nodes) :
    next node = some other ↔ prev other = some node := by
  rw [listed.forward.next_eq_some_iff member,
    listed.backward.next_eq_some_iff (List.mem_reverse.mpr otherMember)]
  constructor
  · rintro ⟨before, after, rfl⟩
    exact ⟨after.reverse, before.reverse, by simp⟩
  · rintro ⟨before, after, reversed⟩
    refine ⟨after.reverse, before.reverse, ?_⟩
    rw [← nodes.reverse_reverse, reversed]
    simp

theorem congr (listed : TwoWay next prev head tail nodes)
    (sameNext : ∀ node ∈ nodes, next' node = next node)
    (samePrev : ∀ node ∈ nodes, prev' node = prev node) :
    TwoWay next' prev' head tail nodes :=
  ⟨listed.forward.congr sameNext, listed.backward.congr fun node member =>
    samePrev node (List.mem_reverse.mp member)⟩

/-- A node that is linked behind the tail. -/
theorem append [DecidableEq α] {node : α}
    (listed : TwoWay next prev head tail nodes)
    (isHead : head' = if tail = none then some node else head)
    (isTail : tail' = some node) (ends : next' node = none)
    (back : prev' node = tail)
    (sameNext : ∀ other ∈ nodes,
      next' other = if tail = some other then some node else next other)
    (samePrev : ∀ other ∈ nodes, prev' other = prev other) :
    TwoWay next' prev' head' tail' (nodes ++ [node]) := by
  constructor
  · rcases List.eq_nil_or_concat' nodes with rfl | ⟨before, last, rfl⟩
    · rw [isHead, if_pos (listed.tail_eq_none_iff.mpr rfl)]
      exact ⟨rfl, ends⟩
    · have atTail : tail = some last := by
        have backward := listed.backward
        rw [List.reverse_append] at backward
        exact backward.1
      have linked : next' last = some node := by
        rw [sameNext last (by simp), if_pos atTail]
      have chain := @Chain.linkBehind _ _ _ next' _ _ _ _ listed.forward
        (fun other member different => by
          rw [sameNext other member, if_neg]
          rw [atTail]
          exact fun same => different (Option.some.inj same).symm)
        linked ends
      rw [linkBehind_of_nodup listed.nodup] at chain
      rw [isHead, if_neg (by rw [atTail]; exact Option.some_ne_none last),
        List.append_assoc]
      exact chain
  · rw [List.reverse_append]
    refine ⟨isTail, ?_⟩
    rw [back]
    exact listed.backward.congr fun other member =>
      samePrev other (List.mem_reverse.mp member)

end TwoWay

end LinkedChain
