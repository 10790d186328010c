import Mathlib

/-! # Runs of a labelled transition system

A partial step function on states, with the action that is taken as a label.  A
run is a list of actions that are all possible in turn; the order of the actions
of different parties in it is their interleaving.
-/

namespace RootCx.Runs

variable {σ α : Type*} (step : σ → α → Option σ)

def run : σ → List α → Option σ
  | s, [] => some s
  | s, action :: rest => (step s action).bind fun next => run next rest

variable {step}

/-- What every step preserves holds at the end of every run. -/
theorem run_invariant {holds : σ → Prop}
    (preserved : ∀ {s action next}, holds s → step s action = some next → holds next)
    {s last : σ} {actions : List α} (start : holds s) (ran : run step s actions = some last) :
    holds last := by
  induction actions generalizing s with
  | nil =>
    cases ran
    exact start
  | cons action rest ih =>
    obtain ⟨next, stepped, ran⟩ := Option.bind_eq_some_iff.mp ran
    exact ih (preserved start stepped) ran

variable {s : σ} {meets : σ → α → Prop} {actions : List α} {holds : σ → Prop}

theorem run_append {middle : σ} {front rest : List α} (ran : run step s front = some middle) :
    run step s (front ++ rest) = run step middle rest := by
  induction front generalizing s with
  | nil =>
    cases ran
    rfl
  | cons action front ih =>
    obtain ⟨next, stepped, ran⟩ := Option.bind_eq_some_iff.mp ran
    rw [List.cons_append, run, stepped]
    exact ih ran

theorem run_append_none {front rest : List α} (stuck : run step s front = none) :
    run step s (front ++ rest) = none := by
  induction front generalizing s with
  | nil => cases stuck
  | cons action front ih =>
    rw [run] at stuck
    rw [List.cons_append, run]
    cases stepped : step s action with
    | none => rfl
    | some next =>
      rw [stepped] at stuck
      exact ih stuck

/-- Every action of a run meets a condition on the state it is taken in. -/
def Along (step : σ → α → Option σ) (meets : σ → α → Prop) : σ → List α → Prop
  | _, [] => True
  | s, action :: rest => meets s action ∧ ∀ next, step s action = some next → Along step meets next rest

theorem Along.cons {meets : σ → α → Prop} {s next : σ} {action : α} {rest : List α} (met : meets s action)
    (stepped : step s action = some next) (continued : Along step meets next rest) :
    Along step meets s (action :: rest) := by
  refine ⟨met, fun other stepped' => ?_⟩
  cases stepped.symm.trans stepped'
  exact continued

/-- What is met in the states of an invariant is met along a run. -/
theorem Along.of_invariant (preserved : ∀ {s action next}, holds s → step s action = some next → holds next)
    (met : ∀ {s action}, holds s → meets s action) (start : holds s) : Along step meets s actions := by
  induction actions generalizing s with
  | nil => trivial
  | cons action rest ih =>
    exact ⟨met start, fun next stepped => ih (preserved start stepped)⟩

instance Along.decidable (step : σ → α → Option σ) (meets : σ → α → Prop) [∀ s action, Decidable (meets s action)] :
    ∀ s actions, Decidable (Along step meets s actions)
  | _, [] => isTrue trivial
  | s, action :: rest =>
    match stepped : step s action with
    | none =>
      decidable_of_iff (meets s action)
        ⟨fun met => ⟨met, fun _ stepped' => nomatch stepped.symm.trans stepped'⟩, And.left⟩
    | some next =>
      have := Along.decidable step meets next rest
      decidable_of_iff (meets s action ∧ Along step meets next rest)
        ⟨fun both => .cons both.1 stepped both.2, fun along => ⟨along.1, along.2 next stepped⟩⟩

theorem Along.append {meets : σ → α → Prop} {s : σ} {front rest : List α} (begun : Along step meets s front)
    (continued : ∀ middle, run step s front = some middle → Along step meets middle rest) :
    Along step meets s (front ++ rest) := by
  induction front generalizing s with
  | nil => exact continued s rfl
  | cons action front ih =>
    refine ⟨begun.1, fun next stepped => ?_⟩
    apply ih (begun.2 next stepped)
    intro middle ran
    exact continued middle (by rw [run, stepped]; exact ran)

/-- What every step that meets its condition preserves holds at the end of a run of such
    steps. -/
theorem run_along
    (kept : ∀ {s action next}, holds s → step s action = some next → meets s action → holds next) {last : σ}
    (start : holds s) (ran : run step s actions = some last) (along : Along step meets s actions) :
    holds last := by
  induction actions generalizing s with
  | nil =>
    cases ran
    exact start
  | cons action rest ih =>
    obtain ⟨next, stepped, ran⟩ := Option.bind_eq_some_iff.mp ran
    exact ih (kept start stepped along.1) ran (along.2 next stepped)

/-- Where a step keeps a flag up exactly when its condition is met, the flag is up
    behind a run exactly when all of its actions met theirs. -/
theorem run_flag {flag : σ → Prop}
    (preserved : ∀ {s action next}, holds s → step s action = some next → holds next)
    (flagged : ∀ {s action next}, holds s → step s action = some next → (flag next ↔ flag s ∧ meets s action))
    {last : σ} (start : holds s) (ran : run step s actions = some last) :
    flag last ↔ flag s ∧ Along step meets s actions := by
  induction actions generalizing s with
  | nil =>
    cases ran
    exact (and_iff_left trivial).symm
  | cons action rest ih =>
    obtain ⟨next, stepped, ran⟩ := Option.bind_eq_some_iff.mp ran
    rw [ih (preserved start stepped) ran, flagged start stepped, Along, and_assoc]
    have only (other : σ) : step s action = some other ↔ other = next := by
      rw [stepped, Option.some.injEq, eq_comm]
    simp only [only, forall_eq]

/-- Where one property holds of the states up to the first action that fails its
    condition, and another one from there on, the end of a run has the one that its
    actions decide, if they are all as given. -/
theorem run_turn {given : σ → α → Prop} {before after : σ → Prop}
    (kept : ∀ {s action next}, before s → step s action = some next → given s action → meets s action → before next)
    (turned : ∀ {s action next}, before s → step s action = some next → given s action → ¬meets s action → after next)
    (stays : ∀ {s action next}, after s → step s action = some next → given s action → after next) {last : σ}
    (start : before s) (ran : run step s actions = some last) (always : Along step given s actions) :
    Along step meets s actions ∧ before last ∨ ¬Along step meets s actions ∧ after last := by
  induction actions generalizing s with
  | nil =>
    cases ran
    exact .inl ⟨trivial, start⟩
  | cons action rest ih =>
    obtain ⟨next, stepped, ran⟩ := Option.bind_eq_some_iff.mp ran
    by_cases met : meets s action
    · rcases ih (kept start stepped always.1 met) ran (always.2 next stepped) with ⟨along, holds⟩ | ⟨broken, holds⟩
      · refine .inl ⟨⟨met, ?_⟩, holds⟩
        intro other stepped'
        cases stepped.symm.trans stepped'
        exact along
      · exact .inr ⟨fun along => broken (along.2 next stepped), holds⟩
    · exact .inr ⟨fun along => met along.1, run_along stays (turned start stepped always.1 met) ran (always.2 next stepped)⟩

end RootCx.Runs
