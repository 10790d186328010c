import Mathlib

/-! # Unique keys

Two ways to find out whether two keys of a list are the same: count the members
of every group of them, or enter them into an index one after the other.  Both
compare a key with the keys before it, so they agree for whatever relation says
that two keys are the same.
-/

namespace RootCx.UniqueKeys

variable {Key : Type} (same : Key → Key → Bool)

/-- No key is the same as an earlier one. -/
def Distinct (keys : List Key) : Prop := keys.Pairwise fun first second => same first second = false

/-! ## Groups -/

/-- The groups with one more key.  A group is its first key and its size. -/
def addTo (key : Key) : List (Key × Nat) → List (Key × Nat)
  | [] => [(key, 1)]
  | (first, size) :: rest => if same first key then (first, size + 1) :: rest else (first, size) :: addTo key rest

def groups (keys : List Key) : List (Key × Nat) := keys.foldl (fun made key => addTo same key made) []

/-- How many groups have more than one member. -/
def duplicates (keys : List Key) : Nat := (groups same keys).countP fun group => decide (1 < group.2)

variable {same}

variable {made : List (Key × Nat)} {keys : List Key}

theorem addTo_fresh {key : Key} (fresh : ∀ group ∈ made, same group.1 key = false) :
    addTo same key made = made ++ [(key, 1)] := by
  induction made with
  | nil => rfl
  | cons group rest ih =>
    have other : same group.1 key = false := fresh group (by simp)
    simp [addTo, other, ih fun group mem => fresh group (by simp [mem])]

/-- A key that is there already makes a group of at least two. -/
theorem addTo_hit {key : Key} (inhabited : ∀ group ∈ made, 0 < group.2)
    (hit : ∃ group ∈ made, same group.1 key = true) : ∃ group ∈ addTo same key made, 1 < group.2 := by
  induction made with
  | nil => simp at hit
  | cons group rest ih =>
    by_cases here : same group.1 key = true
    · have members := inhabited group (by simp)
      exact ⟨(group.1, group.2 + 1), by simp [addTo, here], by simp; omega⟩
    · obtain ⟨found, mem, larger⟩ := ih (fun group mem => inhabited group (by simp [mem]))
        (by simpa [here] using hit)
      exact ⟨found, by simp [addTo, here, mem], larger⟩

theorem addTo_inhabited {key : Key} (inhabited : ∀ group ∈ made, 0 < group.2) :
    ∀ group ∈ addTo same key made, 0 < group.2 := by
  induction made with
  | nil => simp [addTo]
  | cons group rest ih =>
    have below := ih fun group mem => inhabited group (by simp [mem])
    have first := inhabited group (by simp)
    by_cases here : same group.1 key = true <;> simp [addTo, here] <;> grind

/-- Grouping more keys leaves every group at one member exactly when the keys are
    new, to the groups and to each other. -/
theorem foldl_addTo {keys : List Key} {made : List (Key × Nat)} (inhabited : ∀ group ∈ made, 0 < group.2) :
    (∀ group ∈ keys.foldl (fun made key => addTo same key made) made, group.2 ≤ 1) ↔
      (∀ group ∈ made, group.2 ≤ 1) ∧ Distinct same keys ∧ ∀ key ∈ keys, ∀ group ∈ made, same group.1 key = false := by
  induction keys generalizing made with
  | nil => simp [Distinct]
  | cons key keys ih =>
    rw [List.foldl_cons, ih (addTo_inhabited inhabited)]
    by_cases hit : ∃ group ∈ made, same group.1 key = true
    · -- the group that the key joins is too large on the left, and known on the right
      obtain ⟨grown, inside, larger⟩ := addTo_hit inhabited hit
      obtain ⟨known, mem, equal⟩ := hit
      constructor
      · intro ⟨small, _⟩
        have := small grown inside
        omega
      · intro ⟨_, _, new⟩
        simp [new key (by simp) known mem] at equal
    · have fresh : ∀ group ∈ made, same group.1 key = false := by simpa using hit
      rw [addTo_fresh fresh]
      simp only [Distinct, List.pairwise_cons, List.forall_mem_append, List.forall_mem_singleton, List.forall_mem_cons]
      constructor
      · intro ⟨⟨small, _⟩, apart, new⟩
        exact ⟨small, ⟨fun other mem => (new other mem).2, apart⟩, fresh, fun other mem => (new other mem).1⟩
      · intro ⟨small, ⟨first, apart⟩, _, new⟩
        exact ⟨⟨small, by omega⟩, apart, fun other mem => ⟨new other mem, first other mem⟩⟩

theorem duplicates_eq_zero : duplicates same keys = 0 ↔ Distinct same keys := by
  have grouped := @foldl_addTo _ same keys [] (by simp)
  simp only [duplicates, List.countP_eq_zero, decide_eq_true_eq, Nat.not_lt]
  simpa [groups] using grouped

/-! ## An index -/

variable (same)

/-- The keys an index holds after more are entered; entering one that is there
    already fails. -/
def insertAll (held : List Key) : List Key → Option (List Key)
  | [] => some held
  | key :: rest => if held.any (same · key) then none else insertAll (held ++ [key]) rest

variable {same}

theorem insertAll_isSome {held : List Key} :
    (insertAll same held keys).isSome = true ↔
      Distinct same keys ∧ ∀ key ∈ keys, ∀ other ∈ held, same other key = false := by
  induction keys generalizing held with
  | nil => simp [insertAll, Distinct]
  | cons key keys ih =>
    by_cases hit : held.any (same · key) = true
    · obtain ⟨other, mem, equal⟩ := List.any_eq_true.mp hit
      simp only [insertAll, hit, if_true, Option.isSome_none, Bool.false_eq_true, false_iff]
      intro ⟨_, new⟩
      simp [new key (by simp) other mem] at equal
    · have fresh : ∀ other ∈ held, same other key = false := by simpa using hit
      rw [insertAll, if_neg hit, ih]
      simp only [Distinct, List.pairwise_cons, List.forall_mem_append, List.forall_mem_singleton, List.forall_mem_cons]
      constructor
      · intro ⟨apart, new⟩
        exact ⟨⟨fun other mem => (new other mem).2, apart⟩, fresh, fun other mem => (new other mem).1⟩
      · intro ⟨⟨first, apart⟩, _, new⟩
        exact ⟨apart, fun other mem => ⟨new other mem, first other mem⟩⟩

/-- An index over the keys can be built exactly when no group has two members. -/
theorem insertAll_iff_duplicates : (insertAll same [] keys).isSome = true ↔ duplicates same keys = 0 := by
  simp [insertAll_isSome, duplicates_eq_zero]

end RootCx.UniqueKeys
