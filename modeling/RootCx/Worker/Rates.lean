import Mathlib
import RootCx.Lib.Window

/-! # Rates of the data plane

The sliding-window budgets of `worker.rs`: one for each class of messages that
spend the Core's database and integrations. -/

namespace RootCx.Worker

open RootCx.Window List

/-- One second, in the nanoseconds of an `Instant`. -/
def SECOND : Nat := 1000000000

def RATE_PER_SECOND : Nat := 100

inductive RateClass where
  | sql
  | collection
  | selfAction
  deriving DecidableEq, Repr

/-- Whether a call at `now` is admitted, and the times kept for the next one. -/
def rateAdmit (times : List Nat) (max now : Nat) : Bool × List Nat :=
  let times := recent SECOND now times
  if times.length ≥ max then (false, times) else (true, times ++ [now])

structure RateBuckets where
  sql : List Nat := []
  collection : List Nat := []
  selfAction : List Nat := []

def RateBuckets.times (buckets : RateBuckets) : RateClass → List Nat
  | .sql => buckets.sql
  | .collection => buckets.collection
  | .selfAction => buckets.selfAction

def RateBuckets.put (buckets : RateBuckets) (kind : RateClass) (times : List Nat) : RateBuckets :=
  match kind with
  | .sql => { buckets with sql := times }
  | .collection => { buckets with collection := times }
  | .selfAction => { buckets with selfAction := times }

def RateBuckets.admits (buckets : RateBuckets) (kind : RateClass) (now : Nat) : Bool × RateBuckets :=
  let (admitted, times) := rateAdmit (buckets.times kind) RATE_PER_SECOND now
  (admitted, buckets.put kind times)

structure Call where
  kind : RateClass
  now : Nat
  deriving DecidableEq, Repr

/-- The calls of a run with their answers. -/
def answers (buckets : RateBuckets) : List Call → List (Call × Bool)
  | [] => []
  | call :: calls =>
    (call, (buckets.admits call.kind call.now).1) :: answers (buckets.admits call.kind call.now).2 calls

/-- The times at which calls of a class were admitted. -/
def admittedTimes (kind : RateClass) (answered : List (Call × Bool)) : List Nat :=
  (answered.filter fun answer => decide (answer.1.kind = kind) && answer.2).map (·.1.now)

/-- The buckets behind a run. -/
def RateBuckets.after (buckets : RateBuckets) : List Call → RateBuckets
  | [] => buckets
  | call :: calls => (buckets.admits call.kind call.now).2.after calls

variable {buckets other : RateBuckets} {kind : RateClass} {now limit : Nat} {times history : List Nat} {call : Call}
  {before calls : List Call}

/-! ## One bucket -/

@[simp] theorem times_put (buckets : RateBuckets) (kind : RateClass) (times : List Nat) :
    (buckets.put kind times).times kind = times := by
  cases kind <;> rfl

theorem times_put_of_ne {another : RateClass} (different : another ≠ kind) :
    (buckets.put kind times).times another = buckets.times another := by
  cases kind <;> cases another <;> first | rfl | exact absurd rfl different

theorem rateAdmit_of_prunes (prunes : Prunes SECOND now times history) :
    ((rateAdmit times limit now).1 = true ↔ (recent SECOND now history).length < limit) ∧
      Prunes SECOND now (rateAdmit times limit now).2
        (if (rateAdmit times limit now).1 then history ++ [now] else history) := by
  unfold rateAdmit
  dsimp only
  rw [prunes now (Nat.le_refl now)]
  split
  case isTrue full =>
    refine ⟨⟨fun admitted => (nomatch admitted), fun room => absurd full (Nat.not_le_of_lt room)⟩, ?_⟩
    rw [← prunes now (Nat.le_refl now)]
    exact prunes.recent
  case isFalse room =>
    refine ⟨⟨fun _ => Nat.lt_of_not_le room, fun _ => rfl⟩, ?_⟩
    rw [← prunes now (Nat.le_refl now)]
    exact prunes.recent.append now

/-! ## Runs -/

theorem answers_append (buckets : RateBuckets) (before calls : List Call) :
    answers buckets (before ++ calls) = answers buckets before ++ answers (buckets.after before) calls := by
  induction before generalizing buckets with
  | nil => rfl
  | cons call before ih =>
    rw [cons_append, answers, answers, cons_append, ih]
    rfl

theorem after_append (buckets : RateBuckets) (before calls : List Call) :
    buckets.after (before ++ calls) = (buckets.after before).after calls := by
  induction before generalizing buckets with
  | nil => rfl
  | cons call before ih => exact ih _

theorem admittedTimes_concat (kind : RateClass) (answered : List (Call × Bool)) (call : Call) (admitted : Bool) :
    admittedTimes kind (answered ++ [(call, admitted)]) =
      admittedTimes kind answered ++ if call.kind = kind ∧ admitted = true then [call.now] else [] := by
  unfold admittedTimes
  rw [filter_append, map_append]
  by_cases counts : call.kind = kind ∧ admitted = true
  · simp [counts]
  · have none : [(call, admitted)].filter (fun answer => decide (answer.1.kind = kind) && answer.2) = [] := by
      rw [filter_eq_nil_iff]
      simpa using counts
    rw [if_neg counts, none, map_nil]

/-- What a class has been admitted: its bucket holds the recent calls of it, and
    no window more than the rate. -/
structure Metered (buckets : RateBuckets) (kind : RateClass) (now : Nat) (history : List Nat) : Prop where
  prunes : Prunes SECOND now (buckets.times kind) history
  bounded : Bounded SECOND RATE_PER_SECOND history

theorem Metered.admits (metered : Metered buckets kind now history) (call : Call) (ordered : now ≤ call.now) :
    Metered (buckets.admits call.kind call.now).2 kind call.now
      (history ++ if call.kind = kind ∧ (buckets.admits call.kind call.now).1 = true then [call.now] else []) := by
  have prunes := metered.prunes.wait ordered
  by_cases same : call.kind = kind
  · subst same
    obtain ⟨decides, kept⟩ := @rateAdmit_of_prunes _ RATE_PER_SECOND _ _ prunes
    simp only [RateBuckets.admits, true_and]
    refine ⟨?_, ?_⟩
    · rw [times_put]
      split at kept
      case isTrue admitted =>
        rw [if_pos admitted]
        exact kept
      case isFalse refused =>
        rw [if_neg refused, append_nil]
        exact kept
    · split
      case isTrue admitted => exact metered.bounded.append (decides.mp admitted)
      case isFalse =>
        rw [append_nil]
        exact metered.bounded
  · rw [if_neg fun counts => same counts.1, append_nil]
    refine ⟨?_, metered.bounded⟩
    simp only [RateBuckets.admits]
    rw [times_put_of_ne (Ne.symm same)]
    exact prunes

theorem metered_after (ordered : (calls.map Call.now).Pairwise (· ≤ ·)) (later : ∀ call ∈ calls, call.now ≤ now) :
    Metered (RateBuckets.after {} calls) kind now (admittedTimes kind (answers {} calls)) := by
  induction calls using reverseRecOn generalizing now with
  | nil => exact ⟨by cases kind <;> exact prunes_nil, bounded_nil⟩
  | append_singleton before call ih =>
    rw [map_append, pairwise_append] at ordered
    have older : ∀ earlier ∈ before, earlier.now ≤ call.now := fun earlier mem =>
      ordered.2.2 earlier.now (mem_map_of_mem mem) call.now (mem_singleton_self _)
    have metered := (ih ordered.1 older).admits call (Nat.le_refl _)
    have last : call.now ≤ now := later call (mem_append_right _ (mem_singleton_self _))
    rw [after_append, answers_append, answers, answers, admittedTimes_concat]
    exact ⟨metered.prunes.wait last, metered.bounded⟩

theorem answers_filter (same : buckets.times kind = other.times kind) (calls : List Call) :
    (answers buckets calls).filter (fun answer => decide (answer.1.kind = kind)) =
      answers other (calls.filter fun call => decide (call.kind = kind)) := by
  induction calls generalizing buckets other with
  | nil => rfl
  | cons call calls ih =>
    rw [answers]
    by_cases counts : call.kind = kind
    · rw [filter_cons_of_pos (by simpa using counts), filter_cons_of_pos (by simpa using counts), answers]
      have answer : (buckets.admits call.kind call.now).1 = (other.admits call.kind call.now).1 := by
        simp only [RateBuckets.admits, counts, same]
      have rest : (buckets.admits call.kind call.now).2.times kind = (other.admits call.kind call.now).2.times kind := by
        simp only [RateBuckets.admits, counts, same, times_put]
      rw [answer, ih rest]
    · rw [filter_cons_of_neg (by simpa using counts), filter_cons_of_neg (by simpa using counts)]
      apply ih
      simp only [RateBuckets.admits]
      rw [times_put_of_ne (Ne.symm counts)]
      exact same

theorem exists_later (calls : List Call) : ∃ now, ∀ call ∈ calls, call.now ≤ now := by
  induction calls with
  | nil => exact ⟨0, fun _ mem => nomatch mem⟩
  | cons call calls ih =>
    obtain ⟨now, later⟩ := ih
    refine ⟨max call.now now, forall_mem_cons.mpr ⟨Nat.le_max_left _ _, fun other mem => ?_⟩⟩
    exact Nat.le_trans (later other mem) (Nat.le_max_right _ _)

/-- In every run of calls at nondecreasing times, no second holds more admitted
    calls of a class than the rate; a call is refused only behind as many admitted
    within the second before it; and each class is answered as if it were alone. -/
theorem rates_exact (calls : List Call) (ordered : (calls.map Call.now).Pairwise (· ≤ ·)) :
    (∀ kind start, (inside SECOND start (admittedTimes kind (answers {} calls))).length ≤ RATE_PER_SECOND) ∧
      (∀ before call after, calls = before ++ call :: after →
        (((RateBuckets.after {} before).admits call.kind call.now).1 = false ↔
          RATE_PER_SECOND ≤ (recent SECOND call.now (admittedTimes call.kind (answers {} before))).length)) ∧
      ∀ kind, (answers {} calls).filter (fun answer => decide (answer.1.kind = kind)) =
        answers {} (calls.filter fun call => decide (call.kind = kind)) := by
  refine ⟨fun kind start => ?_, ?_, fun kind => answers_filter rfl calls⟩
  · obtain ⟨now, later⟩ := exists_later calls
    exact (metered_after ordered later).bounded start
  · rintro before call after rfl
    rw [List.map_append, List.map_cons, List.pairwise_append] at ordered
    have older : ∀ earlier ∈ before, earlier.now ≤ call.now := fun earlier member =>
      ordered.2.2 earlier.now (List.mem_map_of_mem member) call.now List.mem_cons_self
    have metered : Metered (RateBuckets.after {} before) call.kind call.now _ := metered_after ordered.1 older
    rw [← Bool.not_eq_true, ← Nat.not_lt, not_iff_not]
    exact (rateAdmit_of_prunes metered.prunes).1

/-- A hundred and one calls of a class at once. -/
def burst : List Call := replicate 101 ⟨.sql, 0⟩

theorem burst_admitted : (inside SECOND 0 (admittedTimes .sql (answers {} burst))).length ≤ RATE_PER_SECOND :=
  (rates_exact burst (by rw [burst, List.map_replicate]; exact List.pairwise_replicate.mpr (.inr (Nat.le_refl 0)))).1 .sql 0

end RootCx.Worker
