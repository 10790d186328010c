import Mathlib
import RootCx.Lib.Runs
import RootCx.Worker.Changes

/-! # Results of jobs

All applications share one queue.  A `JobResult` names a message of it by an id
that the process chooses, and the supervisor settles the message without asking
whether it handed it to this process.
-/

namespace RootCx.Worker

open RootCx.Text RootCx.Runs

variable {config : Config} {s s' : Supervisor} {effects : List Effect} {event : Option Event} {msgId : Int}

/-! ## Settled messages -/

/-- The queue message that `jobs::complete`, `fail` or `dead_letter` takes away. -/
def Effect.settled : Effect → Option Int
  | .complete msgId | .fail msgId | .deadLetter msgId _ _ => some msgId
  | _ => none

def settledBy (effects : List Effect) : List Int := effects.filterMap Effect.settled

theorem Effect.settled_of_quiet {effect : Effect} (quiet : effect.quiet = true) : effect.settled = none := by
  cases effect <;> first | rfl | cases quiet

theorem settledBy_of_quiet (quiet : Quiet effects) : settledBy effects = [] := by
  rw [settledBy, List.filterMap_eq_nil_iff]
  exact fun effect mem => Effect.settled_of_quiet (quiet effect mem)

theorem closeJob_jobLeases (msgId : Int) (s : Supervisor) : (closeJob msgId s).1.jobLeases = s.jobLeases := by
  unfold closeJob
  split <;> rfl

theorem settlement_settled (msgId : Int) (error : Option Text) (payload : Option Json) :
    (settlement msgId error payload).settled = some msgId := by
  unfold settlement
  split <;> rfl

theorem mem_settledBy_jobResult {id : Text} {error : Option Text} :
    msgId ∈ settledBy (jobResult id error s).2 ↔ parseI64 id = some msgId := by
  unfold jobResult
  split
  case h_1 unparsed => simp [settledBy, unparsed]
  case h_2 parsed found =>
    have closed : settledBy (closeJob parsed s).2 = [] := settledBy_of_quiet (closeJob_quiet parsed s)
    dsimp only
    rw [settledBy, List.filterMap_append]
    simp only [settledBy] at closed
    simp [closed, settlement_settled, found, eq_comm]

/-- A message that a turn settles is the one that an ordinary worker's result names. -/
def Settles (config : Config) (s : Supervisor) (event : Option Event) (msgId : Int) : Prop :=
  s.connected = true ∧ config.approved = false ∧ config.publicExecution = false ∧
    ∃ id error chance, event = some (.message (.jobResult id error) chance) ∧ parseI64 id = some msgId

theorem mem_settledBy_turn (turned : turn config s event = some (s', effects)) :
    msgId ∈ settledBy effects ↔ Settles config s event msgId := by
  constructor
  · intro mem
    have calm (quiet : Quiet effects) : Settles config s event msgId := by
      rw [settledBy_of_quiet quiet] at mem
      cases mem
    cases turn_change turned with
    | kept _ _ _ _ _ _ quiet | denied _ _ quiet | takes _ quiet | ended _ quiet => exact calm quiet
    | waits | answers | dispatches | employs | forgets => exact calm quiet_nil
    | operates => simp [settledBy, Effect.settled] at mem
    | opens => simp [settledBy, Effect.settled] at mem
    | finishes => simp [settledBy, Effect.settled] at mem
    | states _ _ _ _ _ _ reaches =>
      obtain ⟨effect, among, settled⟩ := List.mem_filterMap.mp mem
      obtain rfl | rfl | quiet := reaches effect among
      · cases settled
      · cases settled
      · rw [Effect.settled_of_quiet quiet] at settled
        cases settled
    | settles _ heard =>
      refine ⟨heard.connected, ?_, ?_, _, _, _, rfl, mem_settledBy_jobResult.mp mem⟩
      · rw [← Bool.not_eq_true]
        exact fun approved => nomatch heard.approved approved
      · rw [← Bool.not_eq_true]
        exact fun isPublic => nomatch heard.published isPublic
    | resumes => exact calm (resume_quiet _ _ _)
  · rintro ⟨connected, ordinary, apart, id, error, chance, rfl, parsed⟩
    have handled : handle config (.message (.jobResult id error) chance) s = jobResult id error s := by
      simp [handle, connected, message, ordinary, performScoped, apart, perform]
    have settled : msgId ∈ settledBy (jobResult id error s).2 := mem_settledBy_jobResult.mpr parsed
    rwa [← handled, (turn_event turned).2] at settled

/-! ## The shared queue -/

/-- The message that a turn hands to the process. -/
def handed (s : Supervisor) : Option Event → Option Int
  | some (.job id _ _ sent) =>
    if s.status = .running ∧ jobAlreadyInFlight id s.jobLeases = false ∧ s.connected = true ∧ sent = true then parseI64 id
    else none
  | _ => none

/-- One worker at the queue of all applications. -/
structure Office where
  supervisor : Supervisor := {}
  /-- The messages that are neither archived nor deleted. -/
  queue : Finset Int := ∅
  /-- The messages that were handed to this worker. -/
  dispatched : Finset Int := ∅
  /-- The messages that were settled on this worker's behalf although it did not
      hold them. -/
  wronged : Finset Int := ∅

inductive Action where
  | turn (event : Option Event)
  /-- The rest of the system changes the queue. -/
  | others (queue : Finset Int)

/-- A message that this worker holds: it was handed to it and is still leased. -/
def Office.holds (o : Office) (msgId : Int) : Prop := msgId ∈ o.supervisor.jobLeases ∧ msgId ∈ o.dispatched

instance (o : Office) (msgId : Int) : Decidable (o.holds msgId) := inferInstanceAs (Decidable (_ ∧ _))

def Office.step (config : Config) (o : Office) : Action → Option Office
  | .others queue => some { o with queue := queue }
  | .turn event => (turn config o.supervisor event).map fun (s, effects) =>
    { supervisor := s
      queue := o.queue.filter (· ∉ settledBy effects)
      dispatched := o.dispatched ∪ (handed o.supervisor event).toFinset
      wronged := o.wronged ∪ o.queue.filter (fun msgId => msgId ∈ settledBy effects ∧ ¬o.holds msgId) }

/-- A result of an ordinary worker names a message that this worker holds, or none
    of the queue. -/
def Named (config : Config) (o : Office) : Action → Prop
  | .turn (some (.message (.jobResult id _) _)) =>
    o.supervisor.connected = true → config.approved = false → config.publicExecution = false →
      ∀ msgId, parseI64 id = some msgId → msgId ∈ o.queue → msgId ∈ o.supervisor.jobLeases
  | _ => True

theorem job_jobLeases {id invocation : Text} {payload : Json} {sent : Bool} (held : msgId ∈ (job id invocation payload sent s).jobLeases) :
    msgId ∈ s.jobLeases ∨ handed s (some (.job id invocation payload sent)) = some msgId := by
  unfold job at held
  split at held
  case isTrue => exact .inl held
  case isFalse running =>
    split at held
    case isTrue => exact .inl held
    case isFalse notInFlight =>
      dsimp only at held
      split at held
      case isFalse => exact .inl held
      case isTrue connected =>
        split at held
        case isTrue => exact .inl held
        case isFalse sent =>
          split at held
          case h_1 parsed found =>
            obtain rfl | held := Finset.mem_insert.mp held
            · right
              rw [handed, if_pos ⟨not_not.mp running, by simpa using notInFlight, connected, by simpa using sent⟩, found]
            · exact .inl held
          case h_2 => exact .inl held

/-- A turn leases no message but the one it hands out. -/
theorem turn_jobLeases (turned : turn config s event = some (s', effects)) (held : msgId ∈ s'.jobLeases) :
    msgId ∈ s.jobLeases ∨ handed s event = some msgId := by
  cases turn_change turned with
  | kept _ books => exact .inl (books ▸ held)
  | waits | denied | takes | ended | operates | opens | states | finishes | answers | forgets => exact .inl held
  | dispatches =>
    left
    unfold rpc at held
    split at held
    · exact held
    · dsimp only at held
      split at held
      · split at held
        · exact held
        · rw [resolve_toBooks] at held
          exact held
      · exact held
  | employs => exact job_jobLeases held
  | settles =>
    left
    unfold jobResult at held
    split at held
    · exact held
    · rw [← closeJob_jobLeases]
      exact Finset.mem_of_mem_erase held
  | @resumes wait awaited =>
    left
    cases wait with
    | finish =>
      simp only [resume, resolve_toBooks] at held
      exact held
    | expire => exact held
    | abandon => exact held
    | stop => cases held
    | crash restart =>
      rw [(resume_crash config restart s).1] at held
      cases held

/-! ## Runs -/

theorem Office.step_leased {o next : Office} {action : Action} (leased : o.supervisor.jobLeases ⊆ o.dispatched)
    (stepped : o.step config action = some next) : next.supervisor.jobLeases ⊆ next.dispatched := by
  cases action with
  | others queue =>
    cases stepped
    exact leased
  | turn event =>
    obtain ⟨⟨s, effects⟩, turned, rfl⟩ := Option.map_eq_some_iff.mp stepped
    intro msgId held
    obtain held | fresh := turn_jobLeases turned held
    · exact Finset.mem_union_left _ (leased held)
    · exact Finset.mem_union_right _ (by simp [fresh])

theorem Office.step_wronged {o next : Office} {action : Action} (leased : o.supervisor.jobLeases ⊆ o.dispatched)
    (stepped : o.step config action = some next) : next.wronged = ∅ ↔ o.wronged = ∅ ∧ Named config o action := by
  cases action with
  | others queue =>
    cases stepped
    exact (and_iff_left trivial).symm
  | turn event =>
    obtain ⟨⟨s, effects⟩, turned, rfl⟩ := Option.map_eq_some_iff.mp stepped
    rw [Finset.union_eq_empty, Finset.filter_eq_empty_iff]
    refine and_congr_right fun _ => ?_
    have settled (msgId : Int) : msgId ∈ settledBy effects ↔ Settles config o.supervisor event msgId :=
      mem_settledBy_turn turned
    simp only [settled, not_and_not_right]
    constructor
    · intro own
      unfold Named
      split
      case h_1 same =>
        intro connected ordinary apart msgId parsed queued
        exact (own queued ⟨connected, ordinary, apart, _, _, _, Action.turn.inj same, parsed⟩).1
      case h_2 => trivial
    · rintro named msgId queued ⟨connected, ordinary, apart, id, error, chance, rfl, parsed⟩
      have held := named connected ordinary apart msgId parsed queued
      exact ⟨held, leased held⟩

/-- Along every run, no message of the queue is settled on a worker's behalf unless
    the worker holds it, exactly when every result it sent named a message that it
    holds or that is not in the queue. -/
theorem settles_own_iff (config : Config) (actions : List Action) (last : Office)
    (ran : run (Office.step config) {} actions = some last) :
    last.wronged = ∅ ↔ Along (Office.step config) (Named config) {} actions := by
  have own : last.wronged = ∅ ↔ (∅ : Finset Int) = ∅ ∧ Along (Office.step config) (Named config) {} actions :=
    run_flag Office.step_leased Office.step_wronged (Finset.empty_subset _) ran
  rw [own]
  exact and_iff_right rfl

/-- Message 7 is handed to the worker, which completes it. -/
def ownJob : List Action :=
  [.turn (some (.start (.ok ()))), .others {7}, .turn (some (.job "7" "first" .null true)),
    .turn (some (.message (.jobResult "7" none) {}))]

theorem own_job_settled : ∃ last, run (Office.step {}) {} ownJob = some last ∧ last.queue = ∅ ∧ last.wronged = ∅ ∧
    Along (Office.step {}) (Named {}) {} ownJob :=
  ⟨_, rfl, by decide, by decide, (settles_own_iff {} ownJob _ rfl).mp (by decide)⟩

/-- Message 7 belongs to another application, and a worker that was given no job
    reports it done. -/
theorem foreign_job_settled : ∃ last, run (Office.step {}) {} [.turn (some (.start (.ok ()))), .others {7},
      .turn (some (.message (.jobResult "7".toList none) {}))] = some last ∧
    7 ∉ last.queue ∧ 7 ∉ last.dispatched ∧ last.wronged = {7} :=
  ⟨_, rfl, by decide, by decide, by decide⟩

end RootCx.Worker
