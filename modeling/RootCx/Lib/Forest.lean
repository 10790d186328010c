import Mathlib

/-! # Forests by parent pointers

A partial parent function makes its type a forest when every climb along it ends.  The
path of a node is then the finite list of what the climb meets, and that list is all that
later proofs look at: pointers off the path do not matter to it, and a pointer may be
turned to any node whose path does not hold the one that is turned.
-/

namespace RootCx.Forest

open List

variable {α : Type*}

/-- The node so many steps above, when the climb gets that far. -/
def climb (parent : α → Option α) : Nat → α → Option α
  | 0, x => some x
  | steps + 1, x => (parent x).bind (climb parent steps)

/-- The path of a node: itself, its parent and so on up to a node without one. -/
inductive Ascends (parent : α → Option α) : α → List α → Prop where
  | root {x : α} : parent x = none → Ascends parent x [x]
  | up {x above : α} {rest : List α} :
      parent x = some above → Ascends parent above rest → Ascends parent x (x :: rest)

variable {parent turned : α → Option α} {x y : α} {path : List α}

namespace Ascends

theorem unique {other : List α} (one : Ascends parent x path) (two : Ascends parent x other) : path = other := by
  induction one generalizing other with
  | root ended =>
    cases two with
    | root => rfl
    | up stepped => simp [ended] at stepped
  | up stepped _ ih =>
    cases two with
    | root ended => simp [ended] at stepped
    | up stepped' above =>
      cases stepped.symm.trans stepped'
      rw [ih above]

theorem head (ascends : Ascends parent x path) : path.head? = some x := by
  cases ascends <;> rfl

/-- What follows a node on a path is its parent, and nothing follows the root. -/
theorem next {before after : List α} (ascends : Ascends parent x (before ++ y :: after)) :
    parent y = after.head? := by
  induction before generalizing x with
  | nil =>
    cases ascends with
    | root ended => simpa using ended
    | up stepped above => rw [stepped, above.head]
  | cons first before ih =>
    generalize whole : first :: before ++ y :: after = list at ascends
    cases ascends with
    | root => simp at whole
    | up _ above =>
      simp only [cons_append, cons.injEq] at whole
      exact ih (whole.2 ▸ above)

/-- A node on a path has the rest of it for its own path. -/
theorem drop {before after : List α} (ascends : Ascends parent x (before ++ y :: after)) :
    Ascends parent y (y :: after) := by
  induction before generalizing x with
  | nil =>
    obtain rfl : y = x := by simpa using ascends.head
    exact ascends
  | cons first before ih =>
    generalize whole : first :: before ++ y :: after = list at ascends
    cases ascends with
    | root => simp at whole
    | up _ above =>
      simp only [cons_append, cons.injEq] at whole
      exact ih (whole.2 ▸ above)

theorem nodup (ascends : Ascends parent x path) : path.Nodup := by
  induction ascends with
  | root => simp
  | up stepped rising ih =>
    refine nodup_cons.mpr ⟨fun again => ?_, ih⟩
    obtain ⟨before, after, rfl⟩ := append_of_mem again
    have shorter := congrArg length (rising.drop.unique (.up stepped rising))
    simp only [length_cons, length_append] at shorter
    omega

/-- A path is the same wherever the pointers along it are. -/
theorem congr (ascends : Ascends parent x path) (same : ∀ y ∈ path, turned y = parent y) :
    Ascends turned x path := by
  induction ascends with
  | root ended => exact .root ((same _ (by simp)).trans ended)
  | up stepped _ ih =>
    apply Ascends.up ((same _ (by simp)).trans stepped)
    exact ih fun y mem => same y (by simp [mem])

/-- The climb meets the nodes of the path in turn. -/
theorem climb_eq (ascends : Ascends parent x path) (steps : Nat) : climb parent steps x = path[steps]? := by
  induction ascends generalizing steps with
  | root ended => cases steps <;> simp [climb, ended]
  | up stepped _ ih =>
    cases steps with
    | zero => simp [climb]
    | succ steps => simp [climb, stepped, ih steps]

/-- The path of an ancestor is shorter. -/
theorem length_lt {above : List α} (ancestor : Relation.TransGen (fun x y => parent x = some y) x y)
    (low : Ascends parent x path) (high : Ascends parent y above) : above.length < path.length := by
  induction ancestor generalizing above with
  | single stepped =>
    cases low with
    | root ended => simp [ended] at stepped
    | up stepped' rest =>
      cases stepped.symm.trans stepped'
      simp [rest.unique high]
  | @tail middle top _ stepped ih =>
    exact Nat.lt_trans (by simp) (ih (.up stepped high))

/-- A node with a path is not its own ancestor. -/
theorem acyclic (ascends : Ascends parent x path) :
    ¬Relation.TransGen (fun x y => parent x = some y) x x := by
  intro ancestor
  exact Nat.lt_irrefl _ (length_lt ancestor ascends ascends)

end Ascends

variable {moved : α}

/-- A pointer may be turned to a node whose path does not hold the one that is turned:
    every node keeps a path. -/
theorem turn {target : α} {above : List α} (turnedHere : turned moved = some target)
    (elsewhere : ∀ y, y ≠ moved → turned y = parent y) (high : Ascends parent target above)
    (clear : moved ∉ above) (ascends : Ascends parent x path) : ∃ path, Ascends turned x path := by
  have kept : Ascends turned target above :=
    high.congr fun y mem => elsewhere y fun same => clear (same ▸ mem)
  induction ascends with
  | @root x ended =>
    by_cases here : x = moved
    · subst here
      exact ⟨_, .up turnedHere kept⟩
    · exact ⟨_, .root ((elsewhere x here).trans ended)⟩
  | @up x _ _ stepped _ ih =>
    by_cases here : x = moved
    · subst here
      exact ⟨_, .up turnedHere kept⟩
    · obtain ⟨rest, rising⟩ := ih
      exact ⟨_, .up ((elsewhere x here).trans stepped) rising⟩

/-- A path ends at the node on it that is made a root. -/
theorem Ascends.cut {before after : List α} (turnedHere : turned moved = none)
    (elsewhere : ∀ y, y ≠ moved → turned y = parent y) (ascends : Ascends parent x (before ++ moved :: after)) :
    Ascends turned x (before ++ [moved]) := by
  induction before generalizing x with
  | nil =>
    obtain rfl : moved = x := by simpa using ascends.head
    exact .root turnedHere
  | cons first before ih =>
    have distinct := ascends.nodup
    generalize whole : first :: before ++ moved :: after = list at ascends
    cases ascends with
    | root => simp at whole
    | up stepped above =>
      simp only [cons_append, cons.injEq] at whole
      obtain ⟨rfl, rfl⟩ := whole
      have other : first ≠ moved := by
        rintro rfl
        simp at distinct
      exact .up ((elsewhere first other).trans stepped) (ih above)

/-- A node may be made a root. -/
theorem uproot (turnedHere : turned moved = none) (elsewhere : ∀ y, y ≠ moved → turned y = parent y)
    (ascends : Ascends parent x path) : ∃ path, Ascends turned x path := by
  induction ascends with
  | @root x ended =>
    by_cases here : x = moved
    · subst here
      exact ⟨_, .root turnedHere⟩
    · exact ⟨_, .root ((elsewhere x here).trans ended)⟩
  | @up x _ _ stepped _ ih =>
    by_cases here : x = moved
    · subst here
      exact ⟨_, .root turnedHere⟩
    · obtain ⟨rest, rising⟩ := ih
      exact ⟨_, .up ((elsewhere x here).trans stepped) rising⟩

end RootCx.Forest
