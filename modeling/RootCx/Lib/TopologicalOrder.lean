import Mathlib

/-! # Topological order by counting inbound edges

Vertices are taken from a queue; a taken vertex lowers the count of every vertex
it has an edge to, and a vertex whose count reaches zero is queued.  Vertices on a
cycle, and everything behind one, are never queued.  The queue starts with the
vertices that have no inbound edge, in whatever order.
-/

namespace RootCx.TopologicalOrder

open List Function

variable {α : Type*} [DecidableEq α]

/-- How many edges lead to a vertex from outside a list of vertices. -/
def inDegree (edges : List (α × α)) (taken : List α) (vertex : α) : Nat :=
  edges.countP fun edge => decide (edge.2 = vertex) && decide (edge.1 ∉ taken)

/-- One edge, seen while a vertex is taken. -/
def relax (vertex : α) (st : (α → Nat) × List α) (edge : α × α) : (α → Nat) × List α :=
  if edge.1 = vertex then
    let degree := st.1 edge.2 - 1
    (update st.1 edge.2 degree, if degree = 0 then st.2 ++ [edge.2] else st.2)
  else st

def loop (edges : List (α × α)) : Nat → (α → Nat) → List α → List α
  | 0, _, _ => []
  | _ + 1, _, [] => []
  | fuel + 1, degree, vertex :: queue =>
    let st := edges.foldl (relax vertex) (degree, queue)
    vertex :: loop edges fuel st.1 st.2

/-- Every edge into a vertex of the list comes from an earlier one. -/
def Ordered (edges : List (α × α)) (order : List α) : Prop :=
  ∀ front vertex rest, order = front ++ vertex :: rest → ∀ edge ∈ edges, edge.2 = vertex → edge.1 ∈ front

omit [DecidableEq α] in
theorem ordered_nil (edges : List (α × α)) : Ordered edges [] := by
  intro front vertex rest split
  simp at split

omit [DecidableEq α] in
variable {edges : List (α × α)} {vertex : α} {taken : List α}

theorem Ordered.snoc {order : List α} (ordered : Ordered edges order)
    (known : ∀ edge ∈ edges, edge.2 = vertex → edge.1 ∈ order) : Ordered edges (order ++ [vertex]) := by
  intro front last rest split edge mem into
  -- The new vertex is either the one the split is at, or behind it.
  rcases eq_nil_or_concat rest with rfl | ⟨rest, z, rfl⟩
  · obtain ⟨rfl, same⟩ := append_inj' split rfl
    obtain rfl : vertex = last := by simpa using same
    exact known edge mem into
  · have split : order ++ [vertex] = (front ++ last :: rest) ++ [z] := by simpa using split
    obtain ⟨same, _⟩ := append_inj' split rfl
    exact ordered front last rest same edge mem into

theorem inDegree_eq_zero {edges : List (α × α)} {taken : List α} {vertex : α} :
    inDegree edges taken vertex = 0 ↔ ∀ edge ∈ edges, edge.2 = vertex → edge.1 ∈ taken := by
  simp [inDegree, countP_eq_zero]

/-- The edges of the vertex that is being taken, as far as they are still ahead. -/
def ahead (vertex : α) (rest : List (α × α)) (target : α) : Nat :=
  rest.countP fun edge => decide (edge.1 = vertex) && decide (edge.2 = target)

theorem inDegree_snoc (fresh : vertex ∉ taken) (target : α) :
    inDegree edges taken target = inDegree edges (taken ++ [vertex]) target + ahead vertex edges target := by
  induction edges with
  | nil => rfl
  | cons edge rest ih =>
    simp only [inDegree, ahead, countP_cons] at ih ⊢
    rw [ih]
    by_cases into : edge.2 = target <;> by_cases own : edge.1 = vertex <;> by_cases known : edge.1 ∈ taken <;>
      simp_all <;> omega

/-- The counts and the queue, while the edges of the last taken vertex are seen. -/
structure Counted (edges : List (α × α)) (taken : List α) (vertex : α) (rest : List (α × α))
    (st : (α → Nat) × List α) : Prop where
  degrees : ∀ target, st.1 target = inDegree edges (taken ++ [vertex]) target + ahead vertex rest target
  distinct : (taken ++ vertex :: st.2).Nodup
  zero : ∀ target ∈ taken ++ vertex :: st.2, st.1 target = 0

theorem ahead_cons (vertex : α) (edge : α × α) (rest : List (α × α)) (target : α) :
    ahead vertex (edge :: rest) target
      = ahead vertex rest target + if edge.1 = vertex ∧ edge.2 = target then 1 else 0 := by
  simp [ahead, countP_cons]

theorem Counted.relax {edge : α × α} {rest : List (α × α)} {st : (α → Nat) × List α}
    (counted : Counted edges taken vertex (edge :: rest) st) :
    Counted edges taken vertex rest (relax vertex st edge) := by
  unfold TopologicalOrder.relax
  by_cases own : edge.1 = vertex
  · rw [if_pos own]
    have unseen : st.1 edge.2
        = inDegree edges (taken ++ [vertex]) edge.2 + ahead vertex rest edge.2 + 1 := by
      rw [counted.degrees, ahead_cons, if_pos ⟨own, rfl⟩]
      omega
    -- The edge still counts, so its target has not been queued.
    have absent : edge.2 ∉ taken ++ vertex :: st.2 := by
      intro mem
      have := counted.zero edge.2 mem
      omega
    have degrees (target : α) : update st.1 edge.2 (st.1 edge.2 - 1) target
        = inDegree edges (taken ++ [vertex]) target + ahead vertex rest target := by
      by_cases into : target = edge.2
      · subst into
        rw [update_self]
        omega
      · rw [update_of_ne into, counted.degrees, ahead_cons, if_neg fun same => into same.2.symm]
        rfl
    have zero (target : α) (mem : target ∈ taken ++ vertex :: st.2) :
        update st.1 edge.2 (st.1 edge.2 - 1) target = 0 := by
      have different : target ≠ edge.2 := by
        rintro rfl
        exact absent mem
      rw [update_of_ne different]
      exact counted.zero target mem
    by_cases last : st.1 edge.2 - 1 = 0
    · dsimp only
      rw [if_pos last]
      refine ⟨degrees, ?_, ?_⟩
      · have distinct := nodup_append.mpr ⟨counted.distinct, nodup_singleton edge.2, ?_⟩
        · simpa using distinct
        · intro a mem b same
          rw [mem_singleton.mp same]
          exact fun equal => absent (equal ▸ mem)
      · intro target mem
        have mem : target ∈ taken ++ vertex :: st.2 ∨ target = edge.2 := by simpa [or_assoc] using mem
        rcases mem with mem | rfl
        · exact zero target mem
        · show update st.1 edge.2 (st.1 edge.2 - 1) edge.2 = 0
          rw [update_self]
          exact last
    · dsimp only
      rw [if_neg last]
      exact ⟨degrees, counted.distinct, zero⟩
  · rw [if_neg own]
    refine ⟨fun target => ?_, counted.distinct, counted.zero⟩
    rw [counted.degrees, ahead_cons, if_neg fun same => own same.1]
    rfl

theorem Counted.foldl {rest : List (α × α)} {st : (α → Nat) × List α}
    (counted : Counted edges taken vertex rest st) :
    Counted edges taken vertex [] (rest.foldl (TopologicalOrder.relax vertex) st) := by
  induction rest generalizing st with
  | nil => exact counted
  | cons edge rest ih => exact ih counted.relax

/-- Between two vertices: every count is the number of edges from vertices that have
    not been taken, and nothing that has been queued counts. -/
structure Ready (edges : List (α × α)) (taken : List α) (degree : α → Nat) (queue : List α) : Prop where
  degrees : ∀ target, degree target = inDegree edges taken target
  distinct : (taken ++ queue).Nodup
  zero : ∀ target ∈ taken ++ queue, degree target = 0

theorem Ready.start {roots : List α} (distinct : roots.Nodup)
    (zero : ∀ root ∈ roots, inDegree edges [] root = 0) : Ready edges [] (inDegree edges []) roots :=
  ⟨fun _ => rfl, distinct, zero⟩

theorem Ready.take {degree : α → Nat} {queue : List α} (ready : Ready edges taken degree (vertex :: queue)) :
    Ready edges (taken ++ [vertex]) (edges.foldl (relax vertex) (degree, queue)).1
      (edges.foldl (relax vertex) (degree, queue)).2 := by
  have fresh : vertex ∉ taken := by
    intro mem
    have := nodup_append.mp ready.distinct
    exact this.2.2 vertex mem vertex (mem_cons_self ..) rfl
  have counted : Counted edges taken vertex edges (degree, queue) := by
    refine ⟨fun target => ?_, ready.distinct, ready.zero⟩
    rw [← inDegree_snoc fresh]
    exact ready.degrees target
  have done := counted.foldl
  refine ⟨fun target => ?_, ?_, ?_⟩
  · rw [done.degrees]
    rfl
  · simpa using done.distinct
  · simpa using done.zero

/-- What the loop takes is free of repetitions, and every edge into it comes from
    something taken earlier. -/
theorem Ready.loop {edges : List (α × α)} {fuel : Nat} {taken : List α} {degree : α → Nat} {queue : List α}
    (ready : Ready edges taken degree queue) (ordered : Ordered edges taken) :
    (taken ++ loop edges fuel degree queue).Nodup ∧ Ordered edges (taken ++ loop edges fuel degree queue) := by
  induction fuel generalizing taken degree queue with
  | zero =>
    rw [TopologicalOrder.loop, append_nil]
    exact ⟨(nodup_append.mp ready.distinct).1, ordered⟩
  | succ fuel ih =>
    cases queue with
    | nil =>
      rw [TopologicalOrder.loop, append_nil]
      exact ⟨(nodup_append.mp ready.distinct).1, ordered⟩
    | cons vertex queue =>
      have known : ∀ edge ∈ edges, edge.2 = vertex → edge.1 ∈ taken := by
        apply inDegree_eq_zero.mp
        rw [← ready.degrees]
        apply ready.zero
        simp
      have rest := ih ready.take (ordered.snoc known)
      rw [TopologicalOrder.loop]
      simpa using rest

end RootCx.TopologicalOrder
