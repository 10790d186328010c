import Mathlib

/-! # Depth-first traversal with a work list

A traversal keeps a stack of nodes to look at and the nodes already seen.  One
`pop` takes the top of the stack; a new node is recorded and its unseen
successors are pushed, the last one on top.  The module proves what any number
of pops can and must have found, and how many pops empty the stack.
-/

namespace RootCx.Worklist

open List

variable {α : Type*}

/-- The stack, top first, and the nodes seen, latest first. -/
structure State (α : Type*) where
  stack : List α
  seen : List α

/-- The nodes reachable from a list of starting nodes. -/
def Reach (next : α → List α) (start : List α) (node : α) : Prop :=
  ∃ root ∈ start, Relation.ReflTransGen (fun a b => b ∈ next a) root node

variable {next : α → List α} {start : List α} {s : State α}

theorem Reach.step {node successor : α} (reached : Reach next start node) (edge : successor ∈ next node) :
    Reach next start successor := by
  obtain ⟨root, mem, path⟩ := reached
  exact ⟨root, mem, path.tail edge⟩

/-- What holds between pops: only reachable nodes are held, the starting nodes
    are held, and every successor of a seen node is held. -/
structure Invariant (next : α → List α) (start : List α) (s : State α) : Prop where
  sound : ∀ node, node ∈ s.seen ∨ node ∈ s.stack → Reach next start node
  roots : ∀ node ∈ start, node ∈ s.seen ∨ node ∈ s.stack
  closed : ∀ node ∈ s.seen, ∀ successor ∈ next node, successor ∈ s.seen ∨ successor ∈ s.stack

theorem invariant_start (next : α → List α) (start stack : List α)
    (same : ∀ node, node ∈ stack ↔ node ∈ start) : Invariant next start ⟨stack, []⟩ where
  sound := by
    rintro node (seen | waiting)
    · cases seen
    · exact ⟨node, (same node).mp waiting, .refl⟩
  roots node mem := .inr ((same node).mpr mem)
  closed node seen := by cases seen

/-- An empty stack means the traversal is complete. -/
theorem Invariant.complete (inv : Invariant next start s) (empty : s.stack = []) (node : α) :
    node ∈ s.seen ↔ Reach next start node := by
  constructor
  · exact fun seen => inv.sound node (.inl seen)
  · rintro ⟨root, mem, path⟩
    have noStack : ∀ {x}, x ∈ s.seen ∨ x ∈ s.stack → x ∈ s.seen := by
      intro x held
      rcases held with seen | waiting
      · exact seen
      · rw [empty] at waiting; cases waiting
    induction path with
    | refl => exact noStack (inv.roots root mem)
    | tail _ edge ih => exact noStack (inv.closed _ ih _ edge)

/-! ## Popping -/

variable [DecidableEq α]

/-- Take the top of the stack; an empty stack stays as it is. -/
def pop (next : α → List α) (s : State α) : State α :=
  match s.stack with
  | [] => s
  | top :: rest =>
    if top ∈ s.seen then { s with stack := rest }
    else
      { stack := ((next top).filter (· ∉ top :: s.seen)).reverse ++ rest
        seen := top :: s.seen }

theorem length_seen_pop (next : α → List α) (s : State α) : (pop next s).seen.length ≤ s.seen.length + 1 := by
  unfold pop
  split
  · exact Nat.le_succ _
  · split
    · exact Nat.le_succ _
    · exact Nat.le_refl _

theorem length_seen_iterate (next : α → List α) (s : State α) (count : Nat) :
    ((pop next)^[count] s).seen.length ≤ s.seen.length + count := by
  induction count generalizing s with
  | zero => exact Nat.le_refl _
  | succ count ih =>
    rw [Function.iterate_succ_apply]
    have more := ih (pop next s)
    have one := length_seen_pop next s
    omega

theorem Invariant.pop (inv : Invariant next start s) : Invariant next start (pop next s) := by
  obtain ⟨stack, seen⟩ := s
  cases stack with
  | nil => exact inv
  | cons top rest =>
    by_cases old : top ∈ seen
    · -- the top was seen before: nothing is lost by dropping it
      have kept : ∀ node, node ∈ seen ∨ node ∈ top :: rest → node ∈ seen ∨ node ∈ rest := by
        rintro node (inSeen | inStack)
        · exact .inl inSeen
        · rcases mem_cons.mp inStack with rfl | later
          · exact .inl old
          · exact .inr later
      simp only [Worklist.pop, if_pos old]
      exact
        { sound := fun node held => inv.sound node (held.imp_right (mem_cons_of_mem top))
          roots := fun node mem => kept node (inv.roots node mem)
          closed := fun node seenNode successor edge =>
            kept successor (inv.closed node seenNode successor edge) }
    · simp only [Worklist.pop, if_neg old]
      have topReached : Reach next start top := inv.sound top (.inr (mem_cons_self ..))
      have kept : ∀ node, node ∈ seen ∨ node ∈ top :: rest →
          node ∈ top :: seen ∨
            node ∈ ((next top).filter (· ∉ top :: seen)).reverse ++ rest := by
        rintro node (inSeen | inStack)
        · exact .inl (mem_cons_of_mem top inSeen)
        · rcases mem_cons.mp inStack with rfl | later
          · exact .inl (mem_cons_self ..)
          · exact .inr (mem_append_right _ later)
      refine ⟨?_, fun node mem => kept node (inv.roots node mem), ?_⟩
      · rintro node (inSeen | inStack)
        · rcases mem_cons.mp inSeen with rfl | before
          · exact topReached
          · exact inv.sound node (.inl before)
        · rcases mem_append.mp inStack with pushed | later
          · simp only [mem_reverse, mem_filter] at pushed
            exact topReached.step pushed.1
          · exact inv.sound node (.inr (mem_cons_of_mem top later))
      · intro node inSeen successor edge
        rcases mem_cons.mp inSeen with rfl | before
        · by_cases known : successor ∈ node :: seen
          · exact .inl known
          · refine .inr (mem_append_left _ ?_)
            simp only [mem_reverse, mem_filter, decide_eq_true_eq]
            exact ⟨edge, known⟩
        · exact kept successor (inv.closed node before successor edge)

theorem Invariant.iterate (inv : Invariant next start s) (count : Nat) :
    Invariant next start ((Worklist.pop next)^[count] s) := by
  induction count generalizing s with
  | zero => exact inv
  | succ count ih => exact ih inv.pop

/-- Pops still needed at most: one for each stack entry and one for each edge
    out of a node of `nodes` that is not seen yet. -/
def pending (next : α → List α) (nodes : Finset α) (s : State α) : Nat :=
  s.stack.length + ∑ node ∈ nodes.filter (· ∉ s.seen), (next node).length

theorem pending_pop {nodes : Finset α} {top : α} {rest : List α} (stack : s.stack = top :: rest)
    (known : top ∈ nodes) : pending next nodes (pop next s) < pending next nodes s := by
  by_cases old : top ∈ s.seen
  · simp [pending, pop, stack, old]
  · have split : nodes.filter (· ∉ s.seen) =
        insert top (nodes.filter (· ∉ top :: s.seen)) := by
      ext node
      by_cases same : node = top
      · simp [same, known, old]
      · simp [same]
    have fresh : top ∉ nodes.filter (· ∉ top :: s.seen) := by simp
    have pushed : ((next top).filter (· ∉ top :: s.seen)).length ≤ (next top).length :=
      length_filter_le _ _
    simp only [pending, pop, stack, if_neg old, length_append, length_reverse,
      length_cons, split, Finset.sum_insert fresh]
    omega

/-- With every reachable node in `nodes`, that many pops empty the stack. -/
theorem stack_empty_of_pending {nodes : Finset α} (known : ∀ node, Reach next start node → node ∈ nodes)
    (count : Nat) (inv : Invariant next start s) (enough : pending next nodes s ≤ count) :
    ((pop next)^[count] s).stack = [] := by
  induction count generalizing s with
  | zero =>
    have short : s.stack.length = 0 := by unfold pending at enough; omega
    exact length_eq_zero_iff.mp short
  | succ count ih =>
    rw [Function.iterate_succ_apply]
    cases stack : s.stack with
    | nil =>
      have still : pop next s = s := by simp [pop, stack]
      rw [still, Function.iterate_fixed still, stack]
    | cons top rest =>
      have reached : Reach next start top := inv.sound top (.inr (by simp [stack]))
      have less : pending next nodes (pop next s) < pending next nodes s :=
        pending_pop stack (known top reached)
      exact ih inv.pop (by omega)

end RootCx.Worklist
