import Mathlib

/-! # Lookup by a distinct key

A list whose entries have distinct keys is a map: the first and the last entry of
a key are the same one.
-/

namespace RootCx

open List

variable {α κ : Type*} [DecidableEq κ] {key : α → κ} {list : List α}

theorem find?_key_eq_some (distinct : (list.map key).Nodup) {name : κ} {entry : α} :
    list.find? (fun candidate => decide (key candidate = name)) = some entry ↔ entry ∈ list ∧ key entry = name := by
  constructor
  · intro found
    exact ⟨mem_of_find?_eq_some found, by simpa using find?_some found⟩
  · rintro ⟨mem, named⟩
    cases found : list.find? (fun candidate => decide (key candidate = name)) with
    | none => exact absurd named (by simpa using find?_eq_none.mp found entry mem)
    | some other =>
      have same : key other = name := by simpa using find?_some found
      rw [inj_on_of_nodup_map distinct (mem_of_find?_eq_some found) mem (same.trans named.symm)]

theorem find?_key_reverse (distinct : (list.map key).Nodup) (name : κ) :
    list.reverse.find? (fun candidate => decide (key candidate = name)) =
      list.find? (fun candidate => decide (key candidate = name)) := by
  apply Option.ext
  intro entry
  have mirrored : (list.reverse.map key).Nodup := by rwa [map_reverse, nodup_reverse]
  rw [find?_key_eq_some distinct, find?_key_eq_some mirrored, mem_reverse]

end RootCx
