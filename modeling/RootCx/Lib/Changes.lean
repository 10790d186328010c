import Mathlib

/-! # Changes to a map

A list of changes, each to the value at one key.  When no key is changed twice
their order does not matter, and changes that give the same when made again can
be made again as a whole.
-/

namespace RootCx

open List Function

variable {κ β : Type*} [DecidableEq κ]

/-- The map after the changes, made in turn. -/
def change (map : κ → β) (changes : List (κ × (β → β))) : κ → β :=
  changes.foldl (fun map entry => update map entry.1 (entry.2 (map entry.1))) map

variable (map : κ → β) {changes : List (κ × (β → β))}

@[simp] theorem change_nil : change map [] = map := rfl

@[simp] theorem change_cons (entry : κ × (β → β)) (changes : List (κ × (β → β))) :
    change map (entry :: changes) = change (update map entry.1 (entry.2 (map entry.1))) changes := rfl

theorem change_append (front rest : List (κ × (β → β))) :
    change map (front ++ rest) = change (change map front) rest := foldl_append

theorem change_of_notMem {key : κ} (untouched : key ∉ changes.map (·.1)) (map : κ → β) :
    change map changes key = map key := by
  induction changes generalizing map with
  | nil => rfl
  | cons entry changes ih =>
    rw [map_cons, mem_cons, not_or] at untouched
    rw [change_cons, ih untouched.2, update_of_ne untouched.1]

theorem change_of_mem (once : (changes.map (·.1)).Nodup) {entry : κ × (β → β)} (mem : entry ∈ changes)
    (map : κ → β) : change map changes entry.1 = entry.2 (map entry.1) := by
  induction changes generalizing map with
  | nil => exact absurd mem not_mem_nil
  | cons first changes ih =>
    rw [map_cons, nodup_cons] at once
    rw [change_cons]
    rcases mem_cons.mp mem with rfl | inside
    · rw [change_of_notMem once.1, update_self]
    · have different : entry.1 ≠ first.1 := fun same => once.1 (same ▸ mem_map_of_mem inside)
      rw [ih once.2 inside, update_of_ne different]

theorem change_again (once : (changes.map (·.1)).Nodup)
    (again : ∀ entry ∈ changes, ∀ value, entry.2 (entry.2 value) = entry.2 value) (map : κ → β) :
    change (change map changes) changes = change map changes := by
  funext key
  by_cases touched : key ∈ changes.map (·.1)
  · obtain ⟨entry, mem, rfl⟩ := mem_map.mp touched
    rw [change_of_mem once mem, change_of_mem once mem, again entry mem]
  · rw [change_of_notMem touched]

end RootCx
