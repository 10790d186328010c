import Mathlib

/-! # Sliding windows

Points in time that are forgotten when they are a span or more in the past.
-/

namespace RootCx.Window

open List

variable {span now later limit : Nat} {times history : List Nat}

/-- The times less than a span before now; a difference of times never goes below zero. -/
def recent (span now : Nat) (times : List Nat) : List Nat := times.filter fun time => decide (now - time < span)

@[simp] theorem recent_append (span now : Nat) (times more : List Nat) :
    recent span now (times ++ more) = recent span now times ++ recent span now more :=
  filter_append ..

/-- What has been forgotten stays forgotten. -/
theorem recent_recent (ordered : now ≤ later) : recent span later (recent span now times) = recent span later times := by
  unfold recent
  rw [filter_filter]
  apply filter_congr
  intro time _
  rw [Bool.and_eq_left_iff_imp]
  simp only [decide_eq_true_eq]
  omega

/-- A pruned list holds, from now on, what is recent of a whole history. -/
def Prunes (span now : Nat) (times history : List Nat) : Prop :=
  ∀ later, now ≤ later → recent span later times = recent span later history

theorem prunes_nil : Prunes span now [] [] := fun _ _ => rfl

theorem Prunes.wait (prunes : Prunes span now times history) (ordered : now ≤ later) : Prunes span later times history :=
  fun last after => prunes last (Nat.le_trans ordered after)

theorem Prunes.recent (prunes : Prunes span now times history) : Prunes span now (recent span now times) history :=
  fun later ordered => (recent_recent ordered).trans (prunes later ordered)

theorem Prunes.append (prunes : Prunes span now times history) (time : Nat) :
    Prunes span now (times ++ [time]) (history ++ [time]) := by
  intro later ordered
  rw [recent_append, recent_append, prunes later ordered]

/-! ## Bounded windows -/

/-- The times of a window. -/
def inside (span start : Nat) (times : List Nat) : List Nat :=
  times.filter fun time => decide (start ≤ time ∧ time < start + span)

/-- No window holds more than a limit. -/
def Bounded (span limit : Nat) (history : List Nat) : Prop := ∀ start, (inside span start history).length ≤ limit

theorem bounded_nil : Bounded span limit [] := fun _ => Nat.zero_le _

/-- A time at which less than the limit is recent can be added to a history. -/
theorem Bounded.append (bounded : Bounded span limit history)
    (room : (recent span now history).length < limit) : Bounded span limit (history ++ [now]) := by
  intro start
  unfold inside
  rw [filter_append, length_append]
  by_cases within : start ≤ now ∧ now < start + span
  · -- What is in a window with now is recent.
    have fewer : (inside span start history).length ≤ (Window.recent span now history).length := by
      unfold inside Window.recent
      rw [← countP_eq_length_filter, ← countP_eq_length_filter]
      apply countP_mono_left
      intro time mem kept
      simp only [decide_eq_true_eq] at kept ⊢
      omega
    have last : ([now].filter fun time => decide (start ≤ time ∧ time < start + span)).length = 1 := by simp [within]
    rw [last]
    exact Nat.lt_of_le_of_lt fewer room
  · have empty : ([now].filter fun time => decide (start ≤ time ∧ time < start + span)) = [] := by
      rw [filter_eq_nil_iff]
      simpa using within
    rw [empty]
    exact bounded start

end RootCx.Window
