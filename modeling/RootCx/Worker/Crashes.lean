import RootCx.Lib.Window
import RootCx.Worker.Supervisor

/-! # Crashes and restarts

The bookkeeping of `worker.rs` on the crashes of one process: the times that the
window still holds, and the count behind the delay of the next restart. -/

namespace RootCx.Worker

open RootCx.Text RootCx.Window

def MAX_CRASHES : Nat := 5

/-- Sixty seconds, in the nanoseconds of an `Instant`. -/
def CRASH_WINDOW : Nat := 60000000000

def BACKOFF_BASE : Nat := 2000000000

/-- `2u32.saturating_pow` -/
def saturatingPow (exponent : Nat) : Nat := min (2 ^ exponent) (2 ^ 32 - 1)

def backoffDelay (restartCount : Nat) : Nat :=
  if restartCount ≤ 1 then 0 else BACKOFF_BASE * saturatingPow (restartCount - 2)

/-- What the loop keeps of the life of its process. -/
structure Life where
  status : WorkerStatus := .stopped
  /-- Whether there is a process to hear from. -/
  connected : Bool := false
  crashTimes : List Nat := []
  /-- A count of 32 bits. -/
  restartCount : Nat := 0

/-- What a crash comes to. -/
inductive Reaction where
  | gaveUp
  | restarts (delay : Nat)
  deriving DecidableEq, Repr

namespace Life

/-- Whether a start is taken up. -/
def startable (life : Life) : Bool := !decide (life.status = .running ∨ life.status = .starting ∨ life.status = .crashed)

def start (spawned : Except Text Unit) (life : Life) : Life :=
  if !life.startable then life
  else
    match spawned with
    | .ok () => { life with status := .running, connected := true, restartCount := 0 }
    | .error _ => { life with status := .crashed }

def stop (life : Life) : Life := { life with status := .stopped, connected := false, crashTimes := [] }

/-- The supervisor ends the process itself. -/
def abandon (life : Life) : Life := { life with status := .crashed, connected := false }

/-- Whether the end of the pipe is a crash. -/
def hears (life : Life) : Bool := life.connected && !decide (life.status = .stopping ∨ life.status = .stopped)

/-- The bookkeeping on a crash. -/
def crash (now : Nat) (life : Life) : Life × Reaction :=
  let crashTimes := recent CRASH_WINDOW now life.crashTimes ++ [now]
  let restartCount := (life.restartCount + 1) % 2 ^ 32
  let life := { life with connected := false, crashTimes := crashTimes, restartCount := restartCount }
  if crashTimes.length ≥ MAX_CRASHES then ({ life with status := .crashed }, .gaveUp)
  else (life, .restarts (backoffDelay restartCount))

/-- Behind the delay: a stop may come while it lasts, else the process is spawned. -/
def comeBack (delay : Nat) (stopped : Bool) (spawned : Except Text Unit) (life : Life) : Life :=
  if delay ≠ 0 ∧ stopped = true then { life with status := .stopped, crashTimes := [] }
  else
    match spawned with
    | .ok () => { life with status := .running, connected := true }
    | .error _ => { life with status := .crashed }

def crashed (now : Nat) (stopped : Bool) (spawned : Except Text Unit) (life : Life) : Life :=
  match life.crash now with
  | (life, .gaveUp) => life
  | (life, .restarts delay) => life.comeBack delay stopped spawned

/-- A life and the times of its crashes since the last start that was taken up. -/
inductive Lives : List Nat → Life → Prop
  | boot : Lives [] {}
  | start {crashes : List Nat} {life : Life} (spawned : Except Text Unit) (lives : Lives crashes life) :
      Lives (if life.startable then [] else crashes) (life.start spawned)
  | stop {crashes : List Nat} {life : Life} (lives : Lives crashes life) : Lives crashes life.stop
  | abandon {crashes : List Nat} {life : Life} (lives : Lives crashes life) : Lives crashes life.abandon
  | crash {crashes : List Nat} {life : Life} {now : Nat} (stopped : Bool) (spawned : Except Text Unit)
      (lives : Lives crashes life) (heard : life.hears = true) (ordered : ∀ time ∈ crashes, time ≤ now) :
      Lives (crashes ++ [now]) (life.crashed now stopped spawned)

/-- The crashes inside the window, one at `now` among them. -/
def within (now : Nat) (crashes : List Nat) : Nat := (recent CRASH_WINDOW now crashes).length + 1

/-- What the number of crashes inside the window asks for. -/
def windowed (count : Nat) : Reaction := if count ≥ MAX_CRASHES then .gaveUp else .restarts (backoffDelay count)

end Life

/-! ## The supervisor's own status -/

/-- The status and the pipes of the supervisor are those of a life. -/
structure Life.Tracks (life : Life) (s : Supervisor) : Prop where
  status : life.status = s.status
  connected : life.connected = s.connected

variable {life : Life} {s : Supervisor} {config : Config} {crashes : List Nat} {now count : Nat}

theorem Life.Tracks.start (tracks : life.Tracks s) (spawned : Except Text Unit) :
    (life.start spawned).Tracks (Worker.start spawned s) := by
  obtain ⟨status, connected⟩ := tracks
  unfold Life.start Life.startable Worker.start
  rw [status]
  by_cases refused : s.status = .running ∨ s.status = .starting ∨ s.status = .crashed
  · simp only [refused, decide_true, Bool.not_true, Bool.not_false, if_true]
    exact ⟨status, connected⟩
  · simp only [refused, decide_false, Bool.not_false, Bool.not_true, Bool.false_eq_true, if_false]
    cases spawned with
    | ok => exact ⟨rfl, rfl⟩
    | error error => exact ⟨rfl, connected⟩

theorem Life.Tracks.stop (life : Life) (s : Supervisor) : life.stop.Tracks (resume config .stop s).1 := ⟨rfl, rfl⟩

theorem Life.Tracks.abandon (life : Life) (error : Text) (s : Supervisor) :
    life.abandon.Tracks (resume config (.abandon error) s).1 := ⟨rfl, rfl⟩

/-- The restart of the supervisor's loop that a crash comes to. -/
def Life.restart (now : Nat) (stopped : Bool) (spawned : Except Text Unit) (life : Life) : Restart :=
  match (life.crash now).2 with
  | .gaveUp => .gaveUp
  | .restarts delay => if delay ≠ 0 ∧ stopped = true then .stopped else .spawned spawned

theorem Life.Tracks.crash (life : Life) (now : Nat) (stopped : Bool) (spawned : Except Text Unit) (s : Supervisor) :
    (life.crashed now stopped spawned).Tracks (resume config (.crash (life.restart now stopped spawned)) s).1 := by
  unfold Life.crashed Life.restart
  cases crashed : life.crash now with
  | mk after reaction =>
    cases reaction with
    | gaveUp =>
      unfold Life.crash at crashed
      dsimp only at crashed
      split at crashed
      case isTrue =>
        obtain ⟨rfl, -⟩ := Prod.mk.inj crashed
        exact ⟨rfl, rfl⟩
      case isFalse => cases crashed
    | restarts delay =>
      have disconnected : after.connected = false := by
        unfold Life.crash at crashed
        dsimp only at crashed
        split at crashed
        case isTrue => cases crashed
        case isFalse =>
          obtain ⟨rfl, -⟩ := Prod.mk.inj crashed
          rfl
      dsimp only
      unfold Life.comeBack
      split
      case isTrue => exact ⟨rfl, disconnected⟩
      case isFalse =>
        cases spawned with
        | ok => exact ⟨rfl, rfl⟩
        | error error => exact ⟨rfl, disconnected⟩

/-! ## Delays -/

theorem backoffDelay_pos {count : Nat} (many : 2 ≤ count) : 0 < backoffDelay count := by
  unfold backoffDelay saturatingPow
  rw [if_neg (by omega)]
  have power : 0 < 2 ^ (count - 2) := Nat.pow_pos (by decide)
  exact Nat.mul_pos (by decide) (Nat.lt_min.mpr ⟨power, by decide⟩)

/-- Below the limit of crashes, no two counts have one delay, but for none and one. -/
theorem backoffDelay_eq_iff {other : Nat} (visible : 1 ≤ count) (few : count < MAX_CRASHES) :
    backoffDelay other = backoffDelay count ↔ other = count ∨ other = 0 ∧ count = 1 := by
  have few : count < 5 := few
  constructor
  · intro same
    by_cases base : count = 1
    · subst base
      have zero : backoffDelay other = 0 := same
      have small : ¬ 2 ≤ other := fun many => absurd zero (Nat.ne_of_gt (backoffDelay_pos many))
      omega
    · have many : 2 ≤ other := by
        by_contra small
        have zero : backoffDelay other = 0 := if_pos (by omega)
        exact absurd (same.symm.trans zero) (Nat.ne_of_gt (backoffDelay_pos (by omega)))
      unfold backoffDelay saturatingPow at same
      rw [if_neg (by omega), if_neg (by omega)] at same
      have powers := Nat.eq_of_mul_eq_mul_left (by decide) same
      -- The delay of so few crashes is far from the one that saturates.
      have low : 2 ^ (count - 2) ≤ 2 ^ 2 := Nat.pow_le_pow_right (by decide) (by omega)
      have exact : 2 ^ (other - 2) = 2 ^ (count - 2) := by omega
      have exponents := Nat.pow_right_injective (Nat.le_refl 2) exact
      omega
  · rintro (rfl | ⟨rfl, rfl⟩)
    · rfl
    · rfl

/-! ## Histories -/

/-- The books agree with the crashes since the last start. -/
structure Life.Kept (crashes : List Nat) (life : Life) : Prop where
  stopped : life.startable = true → life.crashTimes = [] ∧ life.connected = false
  prunes : life.connected = true → ∀ now, (∀ time ∈ crashes, time ≤ now) →
    Prunes CRASH_WINDOW now life.crashTimes crashes
  counts : life.connected = true → life.restartCount = crashes.length % 2 ^ 32

theorem Life.Kept.disconnected (stopped : life.startable = true → life.crashTimes = []) (off : life.connected = false) :
    Life.Kept crashes life :=
  ⟨fun startable => ⟨stopped startable, off⟩, fun on => (nomatch off.symm.trans on), fun on => (nomatch off.symm.trans on)⟩

theorem Life.Kept.start (kept : Life.Kept crashes life) (spawned : Except Text Unit) :
    Life.Kept (if life.startable then [] else crashes) (life.start spawned) := by
  unfold Life.start
  by_cases startable : life.startable = true
  · obtain ⟨empty, off⟩ := kept.stopped startable
    rw [startable, Bool.not_true, if_neg Bool.false_ne_true, if_pos rfl]
    cases spawned with
    | error error => exact .disconnected (fun startable => nomatch startable) off
    | ok =>
      refine ⟨fun startable => (nomatch startable), fun _ now _ => ?_, fun _ => rfl⟩
      show Prunes CRASH_WINDOW now life.crashTimes []
      rw [empty]
      exact prunes_nil
  · rw [if_neg startable, if_pos (by simp [startable])]
    exact kept

/-- The pruned times and the count behind a crash. -/
theorem Life.Kept.crashed (kept : Life.Kept crashes life) (heard : life.hears = true)
    (ordered : ∀ time ∈ crashes, time ≤ now) (stopped : Bool) (spawned : Except Text Unit) :
    Life.Kept (crashes ++ [now]) (life.crashed now stopped spawned) := by
  have connected : life.connected = true := (Bool.and_eq_true_iff.mp heard).1
  have counts : (life.restartCount + 1) % 2 ^ 32 = (crashes ++ [now]).length % 2 ^ 32 := by
    rw [kept.counts connected, List.length_append, List.length_singleton, Nat.mod_add_mod]
  have prunes (later : Nat) (behind : ∀ time ∈ crashes ++ [now], time ≤ later) :
      Prunes CRASH_WINDOW later (recent CRASH_WINDOW now life.crashTimes ++ [now]) (crashes ++ [now]) :=
    ((kept.prunes connected now ordered).recent.append now).wait (behind now (by simp))
  unfold Life.crashed Life.crash
  dsimp only
  split
  case h_1 gaveUp =>
    split at gaveUp
    case isTrue =>
      obtain ⟨rfl, -⟩ := Prod.mk.inj gaveUp
      exact .disconnected (fun startable => nomatch startable) rfl
    case isFalse => cases gaveUp
  case h_2 restarts =>
    split at restarts
    case isTrue => cases restarts
    case isFalse =>
      obtain ⟨rfl, -⟩ := Prod.mk.inj restarts
      unfold Life.comeBack
      split
      case isTrue => exact .disconnected (fun _ => rfl) rfl
      case isFalse =>
        cases spawned with
        | error error => exact .disconnected (fun startable => nomatch startable) rfl
        | ok => exact ⟨fun startable => (nomatch startable), fun _ => prunes, fun _ => counts⟩

theorem Life.kept_of_lives (lives : Life.Lives crashes life) : Life.Kept crashes life := by
  induction lives with
  | boot => exact .disconnected (fun _ => rfl) rfl
  | start spawned _ kept => exact kept.start spawned
  | stop => exact .disconnected (fun _ => rfl) rfl
  | abandon => exact .disconnected (fun startable => nomatch startable) rfl
  | crash stopped spawned _ heard ordered kept => exact kept.crashed heard ordered stopped spawned

theorem Life.crash_eq (lives : Life.Lives crashes life) (heard : life.hears = true)
    (ordered : ∀ time ∈ crashes, time ≤ now) :
    (life.crash now).2 = if Life.within now crashes ≥ MAX_CRASHES then .gaveUp
      else .restarts (backoffDelay ((crashes.length + 1) % 2 ^ 32)) := by
  have kept := Life.kept_of_lives lives
  have connected : life.connected = true := (Bool.and_eq_true_iff.mp heard).1
  unfold Life.crash Life.within
  dsimp only
  rw [kept.counts connected, Nat.mod_add_mod, kept.prunes connected now ordered now (Nat.le_refl now), List.length_append,
    List.length_singleton]
  split <;> rfl

/-- In every history, a crash at `now` gives the worker up exactly when as many
    crashes as the limit are inside the window; it answers to the crashes inside the
    window alone exactly when they are as many as the count holds: all the crashes
    since the last start, in 32 bits. -/
theorem crash_windowed_iff (crashes : List Nat) (life : Life) (now : Nat) (lives : Life.Lives crashes life)
    (heard : life.hears = true) (ordered : ∀ time ∈ crashes, time ≤ now) :
    ((life.crash now).2 = .gaveUp ↔ MAX_CRASHES ≤ Life.within now crashes) ∧
      ((life.crash now).2 = Life.windowed (Life.within now crashes) ↔
        MAX_CRASHES ≤ Life.within now crashes ∨ (crashes.length + 1) % 2 ^ 32 = Life.within now crashes ∨
          (crashes.length + 1) % 2 ^ 32 = 0 ∧ Life.within now crashes = 1) := by
  have visible : 1 ≤ Life.within now crashes := Nat.le_add_left 1 _
  rw [Life.crash_eq lives heard ordered]
  unfold Life.windowed
  by_cases full : Life.within now crashes ≥ MAX_CRASHES
  · rw [if_pos full, if_pos full]
    exact ⟨⟨fun _ => full, fun _ => rfl⟩, ⟨fun _ => .inl full, fun _ => rfl⟩⟩
  · rw [if_neg full, if_neg full]
    refine ⟨⟨fun gaveUp => (nomatch gaveUp), fun many => absurd many full⟩, ?_⟩
    rw [Reaction.restarts.injEq, backoffDelay_eq_iff visible (Nat.lt_of_not_le full)]
    exact (or_iff_right full).symm

theorem lives_once : Life.Lives [0] ((({} : Life).start (.ok ())).crashed 0 false (.ok ())) :=
  .crash false (.ok ()) (.start (.ok ()) .boot) rfl (fun _ mem => nomatch mem)

/-- A second crash within the minute is the second of the window. -/
theorem second_crash_windowed :
    ((((({} : Life).start (.ok ())).crashed 0 false (.ok ())).crash 1000000000).2 = .restarts BACKOFF_BASE) ∧
      ((({} : Life).start (.ok ())).crashed 0 false (.ok ()) |>.crash 1000000000).2 =
        Life.windowed (Life.within 1000000000 [0]) :=
  ⟨by decide, (crash_windowed_iff [0] _ 1000000000 lives_once rfl (by simp)).2.mpr (.inr (.inl (by decide)))⟩

/-- A worker that ran for an hour behind its first crash restarts with the delay of
    the second. -/
theorem rare_crash_delayed :
    ((((({} : Life).start (.ok ())).crashed 0 false (.ok ())).crash 3600000000000).2 = .restarts BACKOFF_BASE) ∧
      Life.windowed (Life.within 3600000000000 [0]) = .restarts 0 ∧
      ¬ ∀ (crashes : List Nat) (life : Life) (now : Nat), Life.Lives crashes life → life.hears = true →
        (∀ time ∈ crashes, time ≤ now) → (life.crash now).2 = Life.windowed (Life.within now crashes) := by
  refine ⟨by decide, by decide, fun always => ?_⟩
  have same := always [0] _ 3600000000000 lives_once rfl (by simp)
  exact absurd same (by decide)

end RootCx.Worker
