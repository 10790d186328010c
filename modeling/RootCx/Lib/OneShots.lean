import Mathlib
import RootCx.Lib.Slots

/-! # One-shot channels

A table holds, for a key, the sending half of a channel for a single value.  The
receiving half belongs to a waiter, whose wait ends once: by what was sent, by the
loss of the sender, or on its own account.
-/

namespace RootCx.OneShots

open RootCx.Slots List

variable {κ ρ : Type*}

structure Waiter (κ ρ : Type*) where
  key : κ
  ending : Option ρ

/-- The first ending stands. -/
def Waiter.endBy (waiter : Waiter κ ρ) (ending : Option ρ) : Waiter κ ρ :=
  { waiter with ending := waiter.ending <|> ending }

structure Channels (κ ρ : Type*) where
  /-- The slot of the waiter behind each entry. -/
  senders : κ → Option Nat := fun _ => none
  waiters : List (Waiter κ ρ) := []

/-- The entries of some keys are taken out, and the waiters behind them are told. -/
def Channels.close (channels : Channels κ ρ) (gone : κ → Option ρ) : Channels κ ρ where
  senders key := if (gone key).isSome then none else channels.senders key
  waiters := channels.waiters.mapIdx fun place waiter =>
    if channels.senders waiter.key = some place then waiter.endBy (gone waiter.key) else waiter

/-- A new waiter behind a key; one that is there loses its sender. -/
def Channels.register [DecidableEq κ] (channels : Channels κ ρ) (key : κ) (lost : ρ) : Channels κ ρ :=
  let channels := channels.close fun other => if other = key then some lost else none
  { senders := Function.update channels.senders key (some channels.waiters.length)
    waiters := channels.waiters ++ [⟨key, none⟩] }

/-- A waiter that is told at once. -/
def Channels.refuse (channels : Channels κ ρ) (key : κ) (ending : ρ) : Channels κ ρ :=
  { channels with waiters := channels.waiters ++ [⟨key, some ending⟩] }

/-- A wait ends on its own account; the table does not notice. -/
def Channels.leave (channels : Channels κ ρ) (place : Nat) (ending : ρ) : Channels κ ρ :=
  { channels with waiters := channels.waiters.modify place (·.endBy (some ending)) }

/-- An entry stands for the one wait behind it that has not ended. -/
def Channels.Matched (channels : Channels κ ρ) : Prop :=
  ∀ key place, channels.senders key = some place ↔ channels.waiters[place]? = some ⟨key, none⟩

variable {channels : Channels κ ρ} {key : κ} {place : Nat} {waiter : Waiter κ ρ} {ending : ρ} {gone : κ → Option ρ}

theorem Waiter.endBy_of_ended (ended : waiter.ending.isSome) (later : Option ρ) : waiter.endBy later = waiter := by
  obtain ⟨key, ending⟩ := waiter
  cases ending with
  | none => cases ended
  | some ending => rfl

theorem Waiter.endBy_eq_waiting {later : Option ρ} :
    waiter.endBy later = ⟨key, none⟩ ↔ waiter = ⟨key, none⟩ ∧ later = none := by
  obtain ⟨own, ending⟩ := waiter
  cases ending <;> cases later <;> simp [Waiter.endBy]

/-! ## Entries and waits -/

theorem matched_empty : ({} : Channels κ ρ).Matched := by
  intro key place
  simp

theorem Channels.Matched.isSome_iff (matched : channels.Matched) :
    (channels.senders key).isSome ↔ ∃ waiter ∈ channels.waiters, waiter.key = key ∧ waiter.ending = none := by
  constructor
  · intro entry
    obtain ⟨place, entry⟩ := Option.isSome_iff_exists.mp entry
    exact ⟨_, mem_of_getElem? ((matched key place).mp entry), rfl, rfl⟩
  · rintro ⟨⟨own, ending⟩, mem, rfl, rfl⟩
    obtain ⟨place, there⟩ := mem_iff_getElem?.mp mem
    rw [(matched own place).mpr there]
    rfl

theorem close_getElem? : (channels.close gone).waiters[place]? =
    channels.waiters[place]?.map fun waiter =>
      if channels.senders waiter.key = some place then waiter.endBy (gone waiter.key) else waiter := by
  simp [Channels.close]

theorem Channels.Matched.close (matched : channels.Matched) (gone : κ → Option ρ) : (channels.close gone).Matched := by
  intro key place
  rw [close_getElem?, Option.map_eq_some_iff]
  show (if (gone key).isSome then none else channels.senders key) = some place ↔ _
  constructor
  · intro entry
    split at entry
    case isTrue => cases entry
    case isFalse kept =>
      refine ⟨⟨key, none⟩, (matched key place).mp entry, ?_⟩
      rw [if_pos entry]
      exact Waiter.endBy_eq_waiting.mpr ⟨rfl, Option.not_isSome_iff_eq_none.mp kept⟩
  · rintro ⟨waiter, there, same⟩
    split at same
    case isTrue =>
      obtain ⟨rfl, kept⟩ := Waiter.endBy_eq_waiting.mp same
      have kept : gone key = none := kept
      rw [kept, if_neg (by simp)]
      exact (matched key place).mpr there
    case isFalse apart =>
      subst same
      exact absurd ((matched key place).mpr there) apart

theorem Channels.Matched.register [DecidableEq κ] (matched : channels.Matched) (key : κ) (lost : ρ) :
    (channels.register key lost).Matched := by
  intro other place
  simp only [Channels.register]
  generalize lostEntry : (fun other : κ => if other = key then some lost else none) = gone
  rw [concat_iff, ← matched.close gone other place]
  by_cases same : other = key
  · have taken : (channels.close gone).senders other = none := by
      subst lostEntry
      exact if_pos (by simp [same])
    rw [taken, same, Function.update_self]
    simp [eq_comm]
  · simp [same]

theorem Channels.Matched.refuse (matched : channels.Matched) (key : κ) (ending : ρ) :
    (channels.refuse key ending).Matched := by
  intro other place
  simp only [Channels.refuse]
  rw [concat_iff, matched other place]
  simp

/-- A wait that had ended before can end on its own account. -/
theorem leave_of_ended (ended : ∀ waiter, channels.waiters[place]? = some waiter → waiter.ending.isSome) :
    channels.leave place ending = channels := by
  cases found : channels.waiters[place]? with
  | none =>
    simp only [Channels.leave]
    rw [modify_eq_self (List.getElem?_eq_none_iff.mp found)]
  | some waiter =>
    simp only [Channels.leave]
    rw [modify_eq found, Waiter.endBy_of_ended (ended waiter found)]
    obtain ⟨bound, rfl⟩ := List.getElem?_eq_some_iff.mp found
    rw [set_getElem_self]

/-! ## A wait ends once -/

theorem close_of_ended (found : channels.waiters[place]? = some waiter) (ended : waiter.ending.isSome)
    (gone : κ → Option ρ) : (channels.close gone).waiters[place]? = some waiter := by
  rw [close_getElem?, found, Option.map_some, Waiter.endBy_of_ended ended, ite_self]

theorem concat_of_found (found : channels.waiters[place]? = some waiter) (other : Waiter κ ρ) :
    (channels.waiters ++ [other])[place]? = some waiter :=
  concat_iff.mpr (.inr found)

theorem register_of_ended [DecidableEq κ] (found : channels.waiters[place]? = some waiter) (ended : waiter.ending.isSome)
    (key : κ) (lost : ρ) : (channels.register key lost).waiters[place]? = some waiter :=
  concat_of_found (close_of_ended found ended _) _

theorem leave_of_found (found : channels.waiters[place]? = some waiter) (ended : waiter.ending.isSome)
    (other : Nat) (ending : ρ) : (channels.leave other ending).waiters[place]? = some waiter := by
  simp only [Channels.leave]
  rw [getElem?_modify, found]
  split
  · exact congrArg some (Waiter.endBy_of_ended ended _)
  · rfl

end RootCx.OneShots
