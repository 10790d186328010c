import RootCx.Lib.Truth

/-! # Row security

The rules of a table decide which rows a command may touch.  A row passes when
one permissive rule of the command holds of it and every restrictive one does.
-/

namespace RootCx.RowSecurity

open List

inductive Command where
  | select
  | insert
  | delete
  | update
deriving DecidableEq, Repr

/-- A rule over rows `ρ`.  Without a command it is about all of them. -/
structure Rule (ρ : Type) where
  restrictive : Bool
  command : Option Command
  usingClause : Option (ρ → Truth)
  withCheck : Option (ρ → Truth)

variable {ρ : Type}

def Rule.applies (command : Command) (rule : Rule ρ) : Bool := rule.command.all (· = command)

/-- What a rule says of a row the command finds. -/
def Rule.finds (rule : Rule ρ) (row : ρ) : Truth := (rule.usingClause.map (· row)).getD (some true)

/-- What a rule says of a row the command leaves; the first clause stands in for
    a missing second one. -/
def Rule.leaves (rule : Rule ρ) (row : ρ) : Truth :=
  ((rule.withCheck <|> rule.usingClause).map (· row)).getD (some true)

def admits (rules : List (Rule ρ)) (command : Command) (verdict : Rule ρ → Truth) : Bool :=
  (rules.any fun rule => rule.applies command && !rule.restrictive && verdict rule == some true) &&
    rules.all fun rule => !(rule.applies command && rule.restrictive) || verdict rule == some true

/-- What a command does to one row. -/
inductive Touch (ρ : Type) where
  | sees (row : ρ)
  | inserts (row : ρ)
  | deletes (row : ρ)
  | updates (old new : ρ)

def Touch.command : Touch ρ → Command
  | .sees _ => .select
  | .inserts _ => .insert
  | .deletes _ => .delete
  | .updates _ _ => .update

def passes (rules : List (Rule ρ)) : Touch ρ → Bool
  | .sees row => admits rules .select (·.finds row)
  | .inserts row => admits rules .insert (·.leaves row)
  | .deletes row => admits rules .delete (·.finds row)
  | .updates old new => admits rules .update (·.finds old) && admits rules .update (·.leaves new)

/-- The rows a touch is about. -/
def Touch.rows : Touch ρ → List ρ
  | .sees row | .inserts row | .deletes row => [row]
  | .updates old new => [old, new]

section Admission

variable {rules : List (Rule ρ)} {command : Command} {verdict : Rule ρ → Truth}

theorem exists_permissive (admitted : admits rules command verdict = true) :
    ∃ rule ∈ rules, rule.applies command = true ∧ rule.restrictive = false ∧ verdict rule = some true := by
  unfold admits at admitted
  obtain ⟨permissive, -⟩ := Bool.and_eq_true_iff.mp admitted
  obtain ⟨rule, mem, holds⟩ := any_eq_true.mp permissive
  simp only [Bool.and_eq_true, Bool.not_eq_true', beq_iff_eq] at holds
  exact ⟨rule, mem, holds.1.1, holds.1.2, holds.2⟩

/-- No permissive rule lifts a restrictive one. -/
theorem restrictive_holds (admitted : admits rules command verdict = true) {rule : Rule ρ} (mem : rule ∈ rules)
    (applies : rule.applies command = true) (restrictive : rule.restrictive = true) : verdict rule = some true := by
  unfold admits at admitted
  obtain ⟨-, all⟩ := Bool.and_eq_true_iff.mp admitted
  have holds := all_eq_true.mp all rule mem
  simpa [applies, restrictive] using holds

end Admission

/-- What a rule says of the row a touch is first checked on. -/
def Touch.verdict (rule : Rule ρ) : Touch ρ → Truth
  | .sees row | .deletes row => rule.finds row
  | .inserts row => rule.leaves row
  | .updates old _ => rule.finds old

/-- Every restrictive rule of a command holds of what passes. -/
theorem verdict_of_passes {rules : List (Rule ρ)} {touch : Touch ρ} (passed : passes rules touch = true) {rule : Rule ρ}
    (mem : rule ∈ rules) (applies : rule.applies touch.command = true) (restrictive : rule.restrictive = true) :
    touch.verdict rule = some true := by
  cases touch with
  | sees row => exact restrictive_holds passed mem applies restrictive
  | inserts row => exact restrictive_holds passed mem applies restrictive
  | deletes row => exact restrictive_holds passed mem applies restrictive
  | updates old new =>
    obtain ⟨found, -⟩ := Bool.and_eq_true_iff.mp passed
    exact restrictive_holds found mem applies restrictive

/-- A permissive rule of a command that passes holds of each row it finds and of
    each row it leaves. -/
theorem rows_of_passes {rules : List (Rule ρ)} {touch : Touch ρ} {mine : ρ → Prop}
    (finds : touch.command ≠ .insert → ∀ rule ∈ rules, rule.applies touch.command = true → rule.restrictive = false →
      ∀ row, rule.finds row = some true → mine row)
    (leaves : touch.command = .insert ∨ touch.command = .update → ∀ rule ∈ rules, rule.applies touch.command = true →
      rule.restrictive = false → ∀ row, rule.leaves row = some true → mine row)
    (passed : passes rules touch = true) : ∀ row ∈ touch.rows, mine row := by
  have found {row : ρ} (old : touch.command ≠ .insert) (admitted : admits rules touch.command (·.finds row) = true) :
      mine row := by
    obtain ⟨rule, mem, applies, permissive, verdict⟩ := exists_permissive admitted
    exact finds old rule mem applies permissive row verdict
  have left {row : ρ} (new : touch.command = .insert ∨ touch.command = .update)
      (admitted : admits rules touch.command (·.leaves row) = true) : mine row := by
    obtain ⟨rule, mem, applies, permissive, verdict⟩ := exists_permissive admitted
    exact leaves new rule mem applies permissive row verdict
  cases touch with
  | sees row => exact forall_mem_singleton.mpr (found Command.noConfusion passed)
  | inserts row => exact forall_mem_singleton.mpr (left (.inl rfl) passed)
  | deletes row => exact forall_mem_singleton.mpr (found Command.noConfusion passed)
  | updates old new =>
    obtain ⟨before, after⟩ := Bool.and_eq_true_iff.mp passed
    exact forall_mem_cons.mpr ⟨found Command.noConfusion before, forall_mem_singleton.mpr (left (.inr rfl) after)⟩

end RootCx.RowSecurity
