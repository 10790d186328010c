import Mathlib

/-! # Three-valued truth

The truth values of SQL conditions: true, false and unknown. -/

namespace RootCx

/-- `none` is unknown. -/
abbrev Truth := Option Bool

variable (t : Truth) (rest : List Truth)

namespace Truth

def not : Truth → Truth := Option.map (!·)

def and : Truth → Truth → Truth
  | some false, _ | _, some false => some false
  | some true, some true => some true
  | _, _ => none

def or : Truth → Truth → Truth
  | some true, _ | _, some true => some true
  | some false, some false => some false
  | _, _ => none

@[simp] theorem true_and : and (some true) t = t := by
  rcases t with _ | _ | _ <;> rfl

@[simp] theorem and_true : and t (some true) = t := by
  rcases t with _ | _ | _ <;> rfl

@[simp] theorem or_false : or t (some false) = t := by
  rcases t with _ | _ | _ <;> rfl

theorem and_some (a b : Bool) : and (some a) (some b) = some (a && b) := by cases a <;> cases b <;> rfl

theorem and_assoc (s t u : Truth) : and (and s t) u = and s (and t u) := by
  rcases s with _ | _ | _ <;> rcases t with _ | _ | _ <;> rcases u with _ | _ | _ <;> rfl

/-- The conjunction of a list; nothing to hold is true. -/
def all (truths : List Truth) : Truth := truths.foldr and (some true)

def any (truths : List Truth) : Truth := truths.foldr or (some false)

@[simp] theorem all_nil : all [] = some true := rfl

@[simp] theorem all_cons : all (t :: rest) = and t (all rest) := rfl

@[simp] theorem any_nil : any [] = some false := rfl

@[simp] theorem any_cons : any (t :: rest) = or t (any rest) := rfl

@[simp] theorem all_append (front rest : List Truth) :
    all (front ++ rest) = and (all front) (all rest) := by
  induction front with
  | nil => rw [List.nil_append, all_nil, true_and]
  | cons t front ih =>
    rw [List.cons_append, all_cons, all_cons, ih, and_assoc]

theorem and_eq_true {s t : Truth} : and s t = some true ↔ s = some true ∧ t = some true := by
  rcases s with _ | _ | _ <;> rcases t with _ | _ | _ <;> simp [and]

theorem or_eq_true {s t : Truth} : or s t = some true ↔ s = some true ∨ t = some true := by
  rcases s with _ | _ | _ <;> rcases t with _ | _ | _ <;> simp [or]

theorem any_eq_true {truths : List Truth} : any truths = some true ↔ some true ∈ truths := by
  induction truths with
  | nil => simp
  | cons t rest ih => rw [any_cons, or_eq_true, ih, List.mem_cons, eq_comm]

/-- A comparison of two values is unknown when one of them is missing. -/
def compare {α : Type} (holds : α → α → Bool) (left right : Option α) : Truth :=
  match left, right with
  | some left, some right => some (holds left right)
  | _, _ => none

theorem compare_eq_true {α : Type} {holds : α → α → Bool} {left right : Option α} :
    compare holds left right = some true ↔ ∃ l r, left = some l ∧ right = some r ∧ holds l r = true := by
  cases left <;> cases right <;> simp [compare]

end Truth

end RootCx
