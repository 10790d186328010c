import Mathlib

/-! # Parties in slots

A list holds the state of each party in a slot of its own; a party is put back in its slot
when it has moved, and a new one gets the next slot.
-/

namespace RootCx.Slots

open List

variable {α : Type*} {items : List α} {index place : Nat} {item item' other : α}

theorem set_iff (found : items[index]? = some item) :
    (items.set index item')[place]? = some other ↔
      place = index ∧ other = item' ∨ place ≠ index ∧ items[place]? = some other := by
  have bound := (List.getElem?_eq_some_iff.mp found).1
  rw [getElem?_set]
  by_cases same : index = place
  · subst same
    simp [bound, eq_comm]
  · simp [same, Ne.symm same]

theorem set_self (found : items[index]? = some item) : (items.set index item')[index]? = some item' :=
  (set_iff found).mpr (.inl ⟨rfl, rfl⟩)

theorem modify_eq (found : items[index]? = some item) (change : α → α) :
    items.modify index change = items.set index (change item) := by
  have : Inhabited α := ⟨item⟩
  rw [modify_eq_set, found, Option.getD_some]

theorem concat_iff : (items ++ [item])[place]? = some other ↔
    place = items.length ∧ other = item ∨ items[place]? = some other := by
  rw [getElem?_append]
  by_cases older : place < items.length
  · have differs : place ≠ items.length := by omega
    simp [older, differs]
  · rw [if_neg older, getElem?_singleton, getElem?_eq_none (Nat.le_of_not_lt older)]
    by_cases last : place = items.length
    · simp [last, eq_comm]
    · have beyond : place - items.length ≠ 0 := by omega
      simp [last, beyond]

theorem mem_set (found : items[index]? = some item) (mem : other ∈ items.set index item') :
    other = item' ∨ ∃ place, place ≠ index ∧ items[place]? = some other := by
  obtain ⟨place, there⟩ := mem_iff_getElem?.mp mem
  obtain ⟨-, same⟩ | kept := (set_iff found).mp there
  · exact .inl same
  · exact .inr ⟨place, kept⟩

/-- Items that are sent to slots one by one are in each slot in their order. -/
theorem foldl_modify_append {β : Type*} (slot : α → Nat) (brings : α → List β) (items : List α) (slots : List (List β)) (place : Nat) :
    (items.foldl (fun slots item => slots.modify (slot item) (· ++ brings item)) slots)[place]? =
      slots[place]?.map (· ++ (items.filter (slot · = place)).flatMap brings) := by
  induction items generalizing slots with
  | nil => simp
  | cons item items ih =>
    rw [foldl_cons, ih, getElem?_modify]
    by_cases here : slot item = place
    · cases slots[place]? <;> simp [here]
    · cases slots[place]? <;> simp [here]

theorem foldl_modify_length {β : Type*} (slot : α → Nat) (brings : α → List β) (items : List α) (slots : List (List β)) :
    (items.foldl (fun slots item => slots.modify (slot item) (· ++ brings item)) slots).length = slots.length := by
  induction items generalizing slots with
  | nil => rfl
  | cons item items ih => rw [foldl_cons, ih, length_modify]

end RootCx.Slots
