import RootCx.Lib.Worklist

/-! # Closures that are checked

A work list on which every node is checked when it is taken off; a node that passes brings
its successors, and one that fails ends the work.  The work ends on every finite graph, and
it fails exactly where a node that can be reached does.
-/

namespace RootCx.CheckedClosure

open Worklist (Reach Invariant pending)

variable {α ε : Type*} [DecidableEq α] (next : α → Except ε (List α))

/-- The nodes that a node brings. -/
def successors (node : α) : List α :=
  match next node with
  | .ok nodes => nodes
  | .error _ => []

/-- The verdict of the work, if it ends within a number of rounds. -/
def explore : Nat → List α → List α → Option (Except ε Unit)
  | _, [], _ => some (.ok ())
  | 0, _ :: _, _ => none
  | fuel + 1, top :: rest, visited =>
    if top ∈ visited then explore fuel rest visited
    else
      match next top with
      | .error failure => some (.error failure)
      | .ok nodes => explore fuel (nodes.reverse ++ rest) (top :: visited)

variable {next} {start stack visited : List α} {top : α} {rest nodes : List α}

theorem Invariant.skip (inv : Invariant (successors next) start ⟨top :: rest, visited⟩) (seen : top ∈ visited) :
    Invariant (successors next) start ⟨rest, visited⟩ := by
  have kept (node : α) (held : node ∈ visited ∨ node ∈ top :: rest) : node ∈ visited ∨ node ∈ rest := by
    obtain inside | waiting := held
    · exact .inl inside
    · obtain rfl | later := List.mem_cons.mp waiting
      · exact .inl seen
      · exact .inr later
  exact
    { sound := fun node held => inv.sound node (held.imp_right (List.mem_cons_of_mem top))
      roots := fun node mem => kept node (inv.roots node mem)
      closed := fun node inside successor edge => kept successor (inv.closed node inside successor edge) }

theorem Invariant.take (inv : Invariant (successors next) start ⟨top :: rest, visited⟩) (passed : next top = .ok nodes) :
    Invariant (successors next) start ⟨nodes.reverse ++ rest, top :: visited⟩ := by
  have brought : successors next top = nodes := by rw [successors, passed]
  have reached : Reach (successors next) start top := inv.sound top (.inr List.mem_cons_self)
  have kept (node : α) (held : node ∈ visited ∨ node ∈ top :: rest) :
      node ∈ top :: visited ∨ node ∈ nodes.reverse ++ rest := by
    obtain inside | waiting := held
    · exact .inl (List.mem_cons_of_mem top inside)
    · obtain rfl | later := List.mem_cons.mp waiting
      · exact .inl List.mem_cons_self
      · exact .inr (List.mem_append_right _ later)
  refine ⟨fun node held => ?_, fun node mem => kept node (inv.roots node mem), fun node inside successor edge => ?_⟩
  · obtain inside | waiting := held
    · obtain rfl | before := List.mem_cons.mp inside
      · exact reached
      · exact inv.sound node (.inl before)
    · obtain pushed | later := List.mem_append.mp waiting
      · exact reached.step (brought ▸ List.mem_reverse.mp pushed)
      · exact inv.sound node (.inr (List.mem_cons_of_mem top later))
  · obtain rfl | before := List.mem_cons.mp inside
    · exact .inr (List.mem_append_left _ (List.mem_reverse.mpr (brought ▸ edge)))
    · exact kept successor (inv.closed node before successor edge)

variable {fuel : Nat} {known : Finset α}

/-- Work that ends well has checked every node that can be reached. -/
theorem explore_ok (inv : Invariant (successors next) start ⟨stack, visited⟩)
    (checked : ∀ node ∈ visited, ∃ nodes, next node = .ok nodes)
    (explored : explore next fuel stack visited = some (.ok ())) :
    ∀ node, Reach (successors next) start node → ∃ nodes, next node = .ok nodes := by
  induction fuel generalizing stack visited with
  | zero =>
    cases stack with
    | nil => exact fun node reached => checked node ((inv.complete rfl node).mpr reached)
    | cons top rest => cases explored
  | succ fuel ih =>
    cases stack with
    | nil => exact fun node reached => checked node ((inv.complete rfl node).mpr reached)
    | cons top rest =>
      unfold explore at explored
      split at explored
      · rename_i seen
        exact ih (Invariant.skip inv seen) checked explored
      · split at explored
        · cases explored
        · rename_i nodes passed
          refine ih (Invariant.take inv passed) (fun node mem => ?_) explored
          obtain rfl | before := List.mem_cons.mp mem
          · exact ⟨nodes, passed⟩
          · exact checked node before

/-- Work that fails has met a node that can be reached and fails. -/
theorem explore_error {failure : ε} (inv : Invariant (successors next) start ⟨stack, visited⟩)
    (explored : explore next fuel stack visited = some (.error failure)) :
    ∃ node, Reach (successors next) start node ∧ next node = .error failure := by
  induction fuel generalizing stack visited with
  | zero => cases stack <;> cases explored
  | succ fuel ih =>
    cases stack with
    | nil => cases explored
    | cons top rest =>
      unfold explore at explored
      split at explored
      · rename_i seen
        exact ih (Invariant.skip inv seen) explored
      · split at explored
        · rename_i failed
          obtain rfl := Except.error.inj (Option.some.inj explored)
          exact ⟨top, inv.sound top (.inr List.mem_cons_self), failed⟩
        · rename_i nodes passed
          exact ih (Invariant.take inv passed) explored

theorem pending_take (mem : top ∈ known) (fresh : top ∉ visited) (passed : next top = .ok nodes) :
    pending (successors next) known ⟨nodes.reverse ++ rest, top :: visited⟩ <
      pending (successors next) known ⟨top :: rest, visited⟩ := by
  have split : known.filter (· ∉ visited) = insert top (known.filter (· ∉ top :: visited)) := by
    ext node
    by_cases same : node = top
    · simp [same, mem, fresh]
    · simp [same]
  have apart : top ∉ known.filter (· ∉ top :: visited) := by simp
  have brought : successors next top = nodes := by rw [successors, passed]
  simp only [pending, List.length_append, List.length_reverse, List.length_cons, split, Finset.sum_insert apart, brought]
  omega

/-- Where the nodes that can be reached are finitely many, the work ends. -/
theorem explore_ends (finite : ∀ node, Reach (successors next) start node → node ∈ known)
    (inv : Invariant (successors next) start ⟨stack, visited⟩)
    (enough : pending (successors next) known ⟨stack, visited⟩ ≤ fuel) :
    ∃ verdict, explore next fuel stack visited = some verdict := by
  induction fuel generalizing stack visited with
  | zero =>
    cases stack with
    | nil => exact ⟨_, rfl⟩
    | cons top rest =>
      simp [pending] at enough
  | succ fuel ih =>
    cases stack with
    | nil => exact ⟨_, rfl⟩
    | cons top rest =>
      unfold explore
      split
      · rename_i seen
        apply ih (Invariant.skip inv seen)
        simp only [pending, List.length_cons] at enough ⊢
        omega
      · rename_i fresh
        cases passed : next top with
        | error failure => exact ⟨_, rfl⟩
        | ok nodes =>
          have mem := finite top (inv.sound top (.inr List.mem_cons_self))
          have less : pending (successors next) known ⟨nodes.reverse ++ rest, top :: visited⟩ <
              pending (successors next) known ⟨top :: rest, visited⟩ := pending_take mem fresh passed
          exact ih (Invariant.take inv passed) (Nat.le_of_lt_succ (Nat.lt_of_lt_of_le less enough))

/-- The verdict of the work on a list of starting nodes. -/
theorem explore_iff (finite : ∀ node, Reach (successors next) start node → node ∈ known) :
    ∃ rounds, ∀ fuel ≥ rounds, ∃ verdict, explore next fuel start.reverse [] = some verdict ∧
      (verdict = .ok () ↔ ∀ node, Reach (successors next) start node → ∃ nodes, next node = .ok nodes) := by
  have inv : Invariant (successors next) start ⟨start.reverse, []⟩ :=
    Worklist.invariant_start _ _ _ fun node => List.mem_reverse
  refine ⟨pending (successors next) known ⟨start.reverse, []⟩, fun fuel enough => ?_⟩
  obtain ⟨verdict, explored⟩ := explore_ends finite inv enough
  refine ⟨verdict, explored, ?_⟩
  cases verdict with
  | ok done => exact iff_of_true rfl (explore_ok inv nofun explored)
  | error failure =>
    obtain ⟨node, reached, failed⟩ := explore_error inv explored
    refine iff_of_false nofun fun passes => ?_
    obtain ⟨nodes, passed⟩ := passes node reached
    exact nomatch failed.symm.trans passed

end RootCx.CheckedClosure
