import RootCx.Lib.OneShots
import RootCx.Worker.Changes

/-! # The callers of a worker

Behind every entry of `PendingRpcs` a task waits for the answer of one request,
thirty seconds at most, and passes it on to the caller.  The table is also to
agree with the invocations: an entry for each that owes an answer. -/

namespace RootCx.Worker

open RootCx.Text RootCx.OneShots Option

/-- How the wait of a caller ended. -/
inductive Ending where
  | told (result : Except Text Json)
  | cancelled

def channelDropped : Ending := .told (.error "rpc channel dropped")

/-- The loop, its table with the tasks behind the entries, and the requests it
    answered itself. -/
structure Desk where
  supervisor : Supervisor := {}
  callers : Channels Text Ending := {}

/-- What a turn did to an entry: `resolve` sent its outcome, and the end of the
    loop drops the table. -/
def Supervisor.ending (after : Supervisor) (id : Text) : Option Ending :=
  if after.pendingRpcs id && !after.exited then none
  else some (((after.outcomes id).map Ending.told).getD channelDropped)

/-- The caller that an event brings. -/
def Desk.request (desk : Desk) : Option Event → Channels Text Ending
  | some (.rpc id _ _) =>
    if desk.supervisor.status = .running then desk.callers.register id channelDropped
    else desk.callers.refuse id (.told (.error (desk.supervisor.startupError.getD "worker not running")))
  | _ => desk.callers

inductive Happening where
  | turn (event : Option Event)
  /-- The task of a caller waited for thirty seconds. -/
  | timeout (caller : Nat)
  /-- The caller is gone. -/
  | cancel (caller : Nat)

def Desk.step (config : Config) (desk : Desk) : Happening → Option Desk
  | .turn event =>
    (turn config desk.supervisor event).map fun handled =>
      { supervisor := handled.1, callers := (desk.request event).close handled.1.ending }
  | .timeout caller =>
    some { desk with callers := desk.callers.leave caller (.told (.error "rpc timeout (30s)")) }
  | .cancel caller => some { desk with callers := desk.callers.leave caller .cancelled }

/-- The states behind happenings that are all allowed. -/
inductive Desk.Reaches (config : Config) (allowed : Desk → Happening → Prop) : Desk → Prop
  | start : Desk.Reaches config allowed {}
  | step {desk desk' : Desk} {happening : Happening} (reached : Desk.Reaches config allowed desk)
      (meets : allowed desk happening) (stepped : desk.step config happening = some desk') :
      Desk.Reaches config allowed desk'

/-- The request is answered, its invocation is being closed. -/
def Supervisor.closing (s : Supervisor) (id : Text) : Prop :=
  ∃ result invocation, s.awaiting = some (.finish id result invocation)

/-- An entry for each caller that waits, and for each invocation that owes an answer. -/
structure Desk.Exact (desk : Desk) : Prop where
  waiting : ∀ id, (desk.callers.senders id).isSome ↔
    ∃ caller ∈ desk.callers.waiters, caller.key = id ∧ caller.ending = none
  owed : desk.supervisor.exited = false → ∀ id, (desk.callers.senders id).isSome ↔
    (desk.supervisor.rpcInvocations id).isSome ∨ desk.supervisor.closing id
  dropped : desk.supervisor.exited = true → ∀ id, desk.callers.senders id = none

/-- No request is unanswered at its expiry or when its caller ends the wait, nor
    when an ordinary worker is stopped or crashes. -/
def Timely (config : Config) (desk : Desk) : Happening → Prop
  | .turn (some (.expiry request invocation)) => desk.supervisor.rpcInvocations request ≠ some invocation
  | .turn (some .stop) | .turn (some (.eof _)) =>
    config.approved = true ∨ ∀ id, desk.supervisor.rpcInvocations id = none
  | .timeout caller | .cancel caller =>
    ∀ waiter, desk.callers.waiters[caller]? = some waiter → waiter.ending.isSome
  | _ => True

variable {effects : List Effect} {wait : Await} (id error : Text)

/-! ## The table in a turn -/

section Table

variable {config : Config} {s s' : Supervisor} {chance : Chance} {msg : InboundMessage} {event : Option Event}

/-- The handler touches neither the table nor the invocations of requests. -/
structure Unmoved (s s' : Supervisor) : Prop where
  pending : s'.pendingRpcs = s.pendingRpcs
  held : s'.rpcInvocations = s.rpcInvocations
  idle : s.awaiting = none
  awaiting : s'.awaiting = s.awaiting

/-- What a turn does to the table of requests. -/
inductive Tabled (config : Config) (s : Supervisor) : Option Event → Supervisor → Prop
  | unmoved {event : Option Event} {s' : Supervisor} (same : Unmoved s s') : Tabled config s event s'
  | unknown {event : Option Event} {id : Text} {result : Except Text Json} (idle : s.awaiting = none)
      (free : s.rpcInvocations id = none) : Tabled config s event (s.resolve id result)
  | answers {event : Option Event} {id : Text} {result : Except Text Json} {invocation : Text} (idle : s.awaiting = none)
      (held : s.rpcInvocations id = some invocation) :
      Tabled config s event { s with
        rpcInvocations := remove s.rpcInvocations id
        activeInvocations := s.activeInvocations.erase invocation
        awaiting := some (.finish id result invocation) }
  | dispatches {id invocation : Text} {sent : Except Text Unit} (idle : s.awaiting = none) :
      Tabled config s (some (.rpc id invocation sent)) (rpc id invocation sent s)
  | forgets {event : Option Event} {error : Text} (idle : s.awaiting = none) : Tabled config s event (publicAbandon error s)
  | abandons {event : Option Event} {s' : Supervisor} {error : Text} (same : Unmoved s s') :
      Tabled config s event { s' with awaiting := some (.abandon error) }
  | expires {request invocation : Text} (idle : s.awaiting = none) (held : s.rpcInvocations request = some invocation) :
      Tabled config s (some (.expiry request invocation)) { s with awaiting := some (.expire request invocation) }
  | stops (idle : s.awaiting = none) : Tabled config s (some .stop) { s with awaiting := some .stop }
  | crashes {restart : Restart} (idle : s.awaiting = none) :
      Tabled config s (some (.eof restart)) { s with awaiting := some (.crash restart) }
  | resumes {wait : Await} (awaited : s.awaiting = some wait) : Tabled config s none (resume config wait s).1

theorem Unmoved.rfl (idle : s.awaiting = none) : Unmoved s s := ⟨.refl _, .refl _, idle, .refl _⟩

theorem taken_unmoved (idle : s.awaiting = none) (txId : Text) : Unmoved s (taken txId s) := ⟨rfl, rfl, idle, rfl⟩

theorem dataOperation_unmoved (idle : s.awaiting = none) (invocationId : Option Text) (refused : Text → Reply) :
    Unmoved s (dataOperation config chance invocationId refused s).1 := by
  unfold dataOperation
  split
  · exact .rfl idle
  · split
    · exact .rfl idle
    · exact .rfl idle

theorem remoteCollectionOp_unmoved (idle : s.awaiting = none) (id : Text) (invocationId : Option Text) :
    Unmoved s (remoteCollectionOp config chance id invocationId s).1 := by
  unfold remoteCollectionOp
  split
  · exact .rfl idle
  · split
    · exact .rfl idle
    · exact dataOperation_unmoved idle _ _

theorem sqlBegin_unmoved (idle : s.awaiting = none) (id : Text) (invocationId : Option Text) :
    Unmoved s (sqlBegin config chance id invocationId s).1 := by
  unfold sqlBegin
  split
  · exact .rfl idle
  · split
    · exact .rfl idle
    · split
      · exact .rfl idle
      · split
        · exact .rfl idle
        · split
          · exact .rfl idle
          · exact ⟨rfl, rfl, idle, rfl⟩

theorem refuseTx_unmoved (idle : s.awaiting = none) (txId : Text) (aborted unknown : Reply) :
    Unmoved s (refuseTx txId aborted unknown s).1 := by
  unfold refuseTx
  split
  · exact taken_unmoved idle txId
  · exact .rfl idle

theorem sqlExec_unmoved (idle : s.awaiting = none) (id : Text) (invocationId : Option Text) (txId : Text) :
    Unmoved s (sqlExec config chance id invocationId txId s).1 := by
  unfold sqlExec
  split
  · exact refuseTx_unmoved idle txId _ _
  · split
    · exact .rfl idle
    · split
      case h_1 | h_3 => exact .rfl idle
      case h_2 | h_4 => exact taken_unmoved idle txId

theorem sqlEnd_unmoved (idle : s.awaiting = none) (commit : Bool) (refused id : Text) (invocationId : Option Text)
    (txId : Text) : Unmoved s (sqlEnd config commit refused id invocationId txId s).1 := by
  unfold sqlEnd
  split
  · exact refuseTx_unmoved idle txId _ _
  · split
    · exact .rfl idle
    · exact taken_unmoved idle txId

theorem jobResult_unmoved (idle : s.awaiting = none) (id : Text) (error : Option Text) :
    Unmoved s (jobResult id error s).1 := by
  unfold jobResult
  split
  case h_1 => exact .rfl idle
  case h_2 msgId _ =>
    unfold closeJob
    cases s.jobInvocations msgId with
    | none => exact ⟨rfl, rfl, idle, rfl⟩
    | some invocation => exact ⟨rfl, rfl, idle, rfl⟩

theorem rpcResponse_tabled (idle : s.awaiting = none) (id : Text) (result : Option Json) (error : Option Text) :
    Tabled config s event (rpcResponse id result error s).1 := by
  cases held : s.rpcInvocations id with
  | none =>
    simp only [rpcResponse, held]
    exact .unknown idle held
  | some invocation =>
    simp only [rpcResponse, held]
    exact .answers idle held

theorem perform_tabled (idle : s.awaiting = none) : Tabled config s event (perform config chance msg s).1 := by
  cases msg with
  | discover protocol => exact .unmoved ⟨rfl, rfl, idle, rfl⟩
  | rpcResponse id result error => exact rpcResponse_tabled idle id result error
  | jobResult id error => exact .unmoved (jobResult_unmoved idle id error)
  | collectionOp id invocationId op => exact .unmoved (dataOperation_unmoved idle invocationId _)
  | sqlQuery id invocationId => exact .unmoved (dataOperation_unmoved idle invocationId _)
  | remoteCollectionOp id invocationId op => exact .unmoved (remoteCollectionOp_unmoved idle id invocationId)
  | sqlBegin id invocationId => exact .unmoved (sqlBegin_unmoved idle id invocationId)
  | sqlExec id invocationId txId => exact .unmoved (sqlExec_unmoved idle id invocationId txId)
  | sqlCommit id invocationId txId => exact .unmoved (sqlEnd_unmoved idle true _ id invocationId txId)
  | sqlRollback id invocationId txId => exact .unmoved (sqlEnd_unmoved idle false _ id invocationId txId)
  | _ => exact .unmoved (.rfl idle)

theorem publicRead_unmoved (idle : s.awaiting = none) (id : Text) (invocationId : Option Text) :
    Unmoved s (publicRead chance id invocationId s).1 := by
  unfold publicRead
  split
  · exact .rfl idle
  · split
    · exact .rfl idle
    · exact .rfl idle

theorem performScoped_tabled (idle : s.awaiting = none) : Tabled config s event (performScoped config chance msg s).1 := by
  unfold performScoped
  split
  case isFalse => exact perform_tabled idle
  case isTrue =>
    unfold performPublic
    split
    case h_1 => exact .forgets idle
    case h_2 => exact .unmoved (.rfl idle)
    case h_3 =>
      split
      case h_1 | h_2 => exact .unmoved (publicRead_unmoved idle _ _)
      case h_3 => exact perform_tabled idle

theorem approvedDenied_unmoved (idle : s.awaiting = none) : Unmoved s (approvedDenied chance msg s).1.1 := by
  obtain ⟨-, ⟨same, -⟩ | ⟨txId, same⟩⟩ := approvedDenied_cases chance msg s
  · rw [same]
    exact .rfl idle
  · rw [same]
    exact taken_unmoved idle txId

theorem message_tabled (idle : s.awaiting = none) : Tabled config s event (message config chance msg s).1 := by
  unfold message
  split
  case isFalse => exact performScoped_tabled idle
  case isTrue =>
    have unmoved : Unmoved s (approvedDenied chance msg s).1.1 := approvedDenied_unmoved idle
    split
    case h_1 denied =>
      rw [denied] at unmoved
      exact .unmoved unmoved
    case h_2 denied =>
      rw [denied] at unmoved
      exact .abandons unmoved
    case h_3 => exact performScoped_tabled idle

theorem start_unmoved (idle : s.awaiting = none) (spawned : Except Text Unit) : Unmoved s (start spawned s) := by
  unfold start
  split
  · exact .rfl idle
  · split
    · exact ⟨rfl, rfl, idle, rfl⟩
    · exact ⟨rfl, rfl, idle, rfl⟩

theorem job_unmoved (idle : s.awaiting = none) (id invocation : Text) (payload : Json) (sent : Bool) :
    Unmoved s (job id invocation payload sent s) := by
  unfold job
  split
  · exact .rfl idle
  · split
    · exact .rfl idle
    · dsimp only
      split
      · split
        · exact ⟨rfl, rfl, idle, rfl⟩
        · split
          · exact ⟨rfl, rfl, idle, rfl⟩
          · exact ⟨rfl, rfl, idle, rfl⟩
      · exact ⟨rfl, rfl, idle, rfl⟩

theorem handle_tabled (idle : s.awaiting = none) (event : Event) :
    Tabled config s (some event) (handle config event s).1 := by
  cases event with
  | sendFailed =>
    simp only [handle]
    split
    · exact .abandons (.rfl idle)
    · exact .unmoved (.rfl idle)
  | txDone txId => exact .unmoved ⟨rfl, rfl, idle, rfl⟩
  | expiry request invocation =>
    simp only [handle]
    split
    case isTrue held => exact .expires idle held
    case isFalse => exact .unmoved (.rfl idle)
  | start spawned => exact .unmoved (start_unmoved idle spawned)
  | stop => exact .stops idle
  | rpc id invocation sent => exact .dispatches idle
  | job id invocation payload sent => exact .unmoved (job_unmoved idle id invocation payload sent)
  | message msg chance =>
    simp only [handle]
    split
    · exact message_tabled idle
    · exact .unmoved (.rfl idle)
  | eof restart =>
    simp only [handle]
    split
    · exact .crashes idle
    · exact .unmoved (.rfl idle)

theorem turn_tabled (turned : turn config s event = some (s', effects)) : Tabled config s event s' := by
  cases event with
  | none =>
    obtain ⟨wait, awaited, resumed⟩ := turn_await turned
    obtain rfl : (resume config wait s).1 = s' := congrArg Prod.fst resumed
    exact .resumes awaited
  | some event =>
    obtain ⟨idle, handled⟩ := turn_event turned
    obtain rfl : (handle config event s).1 = s' := congrArg Prod.fst handled
    exact handle_tabled idle event

@[simp] theorem resolve_pendingRpcs (s : Supervisor) (id other : Text) (result : Except Text Json) :
    (s.resolve id result).pendingRpcs other = (s.pendingRpcs other && decide (other ≠ id)) := by
  unfold Supervisor.resolve
  by_cases same : other = id
  · subst same
    split
    · simp
    · simp_all
  · split
    · simp [same]
    · simp [same]

@[simp] theorem resolveHeld_pendingRpcs (s : Supervisor) (id : Text) (error : Text) :
    (s.resolveHeld error).pendingRpcs id = (s.pendingRpcs id && !(s.rpcInvocations id).isSome) := by
  simp only [Supervisor.resolveHeld]
  cases s.pendingRpcs id <;> rfl

theorem publicAbandon_pendingRpcs (id : Text) :
    (publicAbandon error s).pendingRpcs id = (s.pendingRpcs id && !(s.rpcInvocations id).isSome) :=
  resolveHeld_pendingRpcs s id error

theorem restarted_pendingRpcs (config : Config) (restart : Restart) (s : Supervisor) :
    (restarted config restart s).pendingRpcs = s.pendingRpcs := by
  unfold restarted
  split <;> rfl

theorem resume_crash_pendingRpcs (restart : Restart) (id : Text) :
    (resume config (.crash restart) s).1.pendingRpcs id =
      (s.pendingRpcs id && !(config.approved && (s.rpcInvocations id).isSome)) := by
  simp only [resume, restarted_pendingRpcs, clearBooks, clearTransactions, disconnect]
  split
  case isTrue approved => simp [approved]
  case isFalse ordinary => simp [ordinary]

theorem resume_abandon_pendingRpcs (id : Text) :
    (resume config (.abandon error) s).1.pendingRpcs id = (s.pendingRpcs id && !(s.rpcInvocations id).isSome) :=
  resolveHeld_pendingRpcs { s with awaiting := none, actors := s.closeActors none } id error

theorem resume_finish_pendingRpcs (other invocation : Text) (result : Except Text Json) :
    (resume config (.finish id result invocation) s).1.pendingRpcs other =
      (s.pendingRpcs other && decide (other ≠ id)) :=
  resolve_pendingRpcs _ id other result

theorem of_resume_pendingRpcs {id : Text} (entry : (resume config wait s).1.pendingRpcs id = true) :
    s.pendingRpcs id = true := by
  cases wait with
  | finish request result invocation =>
    rw [resume_finish_pendingRpcs] at entry
    exact (Bool.and_eq_true_iff.mp entry).1
  | expire request invocation => exact entry
  | abandon error =>
    rw [resume_abandon_pendingRpcs] at entry
    exact (Bool.and_eq_true_iff.mp entry).1
  | stop => exact entry
  | crash restart =>
    rw [resume_crash_pendingRpcs] at entry
    exact (Bool.and_eq_true_iff.mp entry).1

/-- Every way a dispatch leaves the table, behind the entry it made. -/
theorem rpc_cases (invocation : Text) (sent : Except Text Unit) (s : Supervisor) :
    (s.status ≠ .running ∧ rpc id invocation sent s = s) ∨
      s.status = .running ∧ (rpc id invocation sent s).exited = s.exited ∧
        (rpc id invocation sent s).awaiting = s.awaiting ∧
        ((rpc id invocation sent s).pendingRpcs = Function.update s.pendingRpcs id true ∧
            (rpc id invocation sent s).rpcInvocations = put s.rpcInvocations id invocation ∨
          (rpc id invocation sent s).pendingRpcs = Function.update s.pendingRpcs id false ∧
            (rpc id invocation sent s).rpcInvocations = remove s.rpcInvocations id) := by
  unfold rpc
  split
  case isTrue idle => exact .inl ⟨idle, rfl⟩
  case isFalse running =>
    refine .inr ⟨not_not.mp running, ?_⟩
    dsimp only
    split
    case isFalse => exact ⟨rfl, rfl, .inl ⟨rfl, rfl⟩⟩
    case isTrue =>
      split
      case h_1 => exact ⟨rfl, rfl, .inl ⟨rfl, rfl⟩⟩
      case h_2 error =>
        refine ⟨by rw [resolve_exited]; rfl, by rw [resolve_awaiting]; rfl, .inr ⟨?_, ?_⟩⟩
        · funext other
          rw [resolve_pendingRpcs]
          by_cases same : other = id
          · simp [same]
          · simp [same, Supervisor.register]
        · rw [resolve_toBooks]
          funext other
          by_cases same : other = id
          · rw [same, remove_self]
            exact remove_self _ id
          · rw [remove_of_ne same]
            exact (remove_of_ne same).trans (put_of_ne same)

/-- Only a dispatch makes an entry. -/
theorem of_turn_pendingRpcs {id : Text} (turned : turn config s event = some (s', effects))
    (entry : s'.pendingRpcs id = true) :
    s.pendingRpcs id = true ∨ ∃ invocation sent, event = some (.rpc id invocation sent) ∧ s.status = .running := by
  cases turn_tabled turned with
  | unmoved same | abandons same => exact .inl (same.pending ▸ entry)
  | unknown =>
    rw [resolve_pendingRpcs] at entry
    exact .inl (Bool.and_eq_true_iff.mp entry).1
  | answers | expires | stops | crashes => exact .inl entry
  | @dispatches request invocation sent =>
    obtain ⟨-, same⟩ | ⟨running, -, -, ⟨made, -⟩ | ⟨made, -⟩⟩ := rpc_cases request invocation sent s
    · exact .inl (same ▸ entry)
    · by_cases named : id = request
      · exact .inr ⟨invocation, sent, by rw [named], running⟩
      · rw [made, Function.update_of_ne named] at entry
        exact .inl entry
    · by_cases named : id = request
      · rw [made, named, Function.update_self] at entry
        cases entry
      · rw [made, Function.update_of_ne named] at entry
        exact .inl entry
  | forgets =>
    rw [publicAbandon_pendingRpcs] at entry
    exact .inl (Bool.and_eq_true_iff.mp entry).1
  | resumes => exact .inl (of_resume_pendingRpcs entry)

end Table

/-! ## What is owed -/

section Owed

variable {config : Config} {s s' : Supervisor} {event : Option Event}

/-- The table and the invocations agree, and what is awaited finds them so. -/
structure Owing (config : Config) (s : Supervisor) : Prop where
  linked : ∀ id, s.pendingRpcs id = true ↔ (s.rpcInvocations id).isSome ∨ s.closing id
  finishing : ∀ id result invocation, s.awaiting = some (.finish id result invocation) → s.rpcInvocations id = none
  unexpired : ∀ request invocation, s.awaiting ≠ some (.expire request invocation)
  stopping : s.awaiting = some .stop → config.approved = true ∨ ∀ id, s.rpcInvocations id = none
  crashing : ∀ restart, s.awaiting = some (.crash restart) → config.approved = true ∨ ∀ id, s.rpcInvocations id = none

theorem not_closing_of_idle (idle : s.awaiting = none) (id : Text) : ¬ s.closing id := by
  rintro ⟨result, invocation, waits⟩
  rw [idle] at waits
  cases waits

theorem Owing.of_wait (awaited : s.awaiting = some wait)
    (linked : ∀ id, s.pendingRpcs id = true ↔ (s.rpcInvocations id).isSome)
    (unfinished : ∀ id result invocation, wait ≠ .finish id result invocation)
    (unexpired : ∀ request invocation, wait ≠ .expire request invocation)
    (quiet : wait = .stop ∨ (∃ restart, wait = .crash restart) →
      config.approved = true ∨ ∀ id, s.rpcInvocations id = none) : Owing config s where
  linked id := by
    rw [linked id]
    refine (or_iff_left ?_).symm
    rintro ⟨result, invocation, waits⟩
    exact unfinished id result invocation (some.inj (awaited.symm.trans waits))
  finishing id result invocation waits :=
    absurd (some.inj (awaited.symm.trans waits)) (unfinished id result invocation)
  unexpired request invocation waits := unexpired request invocation (some.inj (awaited.symm.trans waits))
  stopping waits := quiet (.inl (some.inj (awaited.symm.trans waits)))
  crashing restart waits := quiet (.inr ⟨restart, some.inj (awaited.symm.trans waits)⟩)

theorem Owing.of_idle (idle : s.awaiting = none) (linked : ∀ id, s.pendingRpcs id = true ↔ (s.rpcInvocations id).isSome) :
    Owing config s where
  linked id := (linked id).trans (or_iff_left (not_closing_of_idle idle id)).symm
  finishing _ _ _ waits := nomatch idle.symm.trans waits
  unexpired _ _ waits := nomatch idle.symm.trans waits
  stopping waits := nomatch idle.symm.trans waits
  crashing _ waits := nomatch idle.symm.trans waits

theorem Owing.pending_iff (owing : Owing config s) (idle : s.awaiting = none) (id : Text) :
    s.pendingRpcs id = true ↔ (s.rpcInvocations id).isSome :=
  (owing.linked id).trans (or_iff_left (not_closing_of_idle idle id))

theorem Owing.dispatch (owing : Owing config s) (idle : s.awaiting = none) (id invocation : Text)
    (sent : Except Text Unit) : Owing config (rpc id invocation sent s) := by
  obtain ⟨-, same⟩ | ⟨-, -, awaiting, ⟨pending, held⟩ | ⟨pending, held⟩⟩ := rpc_cases id invocation sent s
  · rw [same]
    exact owing
  · refine .of_idle (awaiting.trans idle) fun other => ?_
    rw [pending, held]
    by_cases named : other = id
    · simp [named]
    · rw [Function.update_of_ne named, put_of_ne named]
      exact owing.pending_iff idle other
  · refine .of_idle (awaiting.trans idle) fun other => ?_
    rw [pending, held]
    by_cases named : other = id
    · simp [named]
    · rw [Function.update_of_ne named, remove_of_ne named]
      exact owing.pending_iff idle other

theorem none_left (linked : ∀ id, s.pendingRpcs id = true ↔ (s.rpcInvocations id).isSome) (id : Text) :
    (s.pendingRpcs id && !(s.rpcInvocations id).isSome) = false := by
  cases entry : s.pendingRpcs id with
  | false => rfl
  | true => simp [(linked id).mp entry]

theorem Owing.resume (owing : Owing config s) (awaited : s.awaiting = some wait)
    (running : (resume config wait s).1.exited = false) : Owing config (resume config wait s).1 := by
  have linked (unfinished : ∀ id result invocation, wait ≠ .finish id result invocation) (id : Text) :
      s.pendingRpcs id = true ↔ (s.rpcInvocations id).isSome := by
    refine (owing.linked id).trans (or_iff_left ?_)
    rintro ⟨result, invocation, waits⟩
    exact unfinished id result invocation (some.inj (awaited.symm.trans waits))
  cases wait with
  | finish id result invocation =>
    have idle : (Worker.resume config (.finish id result invocation) s).1.awaiting = none := resolve_awaiting _ id result
    refine .of_idle idle fun other => ?_
    have held : (Worker.resume config (.finish id result invocation) s).1.rpcInvocations = s.rpcInvocations :=
      (congrArg Books.rpcInvocations (resolve_toBooks (closeWorkflowInvocation invocation
        { s with awaiting := none, actors := s.closeActors (some invocation) }).1 id result)).trans rfl
    rw [resume_finish_pendingRpcs, held, Bool.and_eq_true_iff, owing.linked other, decide_eq_true_iff]
    constructor
    · rintro ⟨holds | ⟨later, behind, waits⟩, different⟩
      · exact holds
      · cases awaited.symm.trans waits
        exact absurd rfl different
    · intro holds
      refine ⟨.inl holds, ?_⟩
      rintro rfl
      rw [owing.finishing other result invocation awaited] at holds
      cases holds
  | expire request invocation => exact absurd awaited (owing.unexpired request invocation)
  | abandon error =>
    refine .of_idle rfl fun id => ?_
    rw [resume_abandon_pendingRpcs, none_left (linked fun _ _ _ different => nomatch different)]
    exact ⟨fun entry => (nomatch entry), fun held => (nomatch held)⟩
  | stop =>
    -- An approved worker's loop is over.
    have ordinary : config.approved = false := running
    refine .of_idle rfl fun id => ?_
    have none : s.rpcInvocations id = none :=
      (owing.stopping awaited).resolve_left (by rw [ordinary]; exact Bool.false_ne_true) id
    show s.pendingRpcs id = true ↔ false = true
    rw [linked (fun _ _ _ different => nomatch different), none]
    rfl
  | crash restart =>
    obtain ⟨books, idle⟩ := resume_crash config restart s
    refine .of_idle idle fun id => ?_
    rw [resume_crash_pendingRpcs, books]
    have entry : (s.pendingRpcs id && !(config.approved && (s.rpcInvocations id).isSome)) = false := by
      have linked := linked fun _ _ _ different => nomatch different
      obtain approved | none := owing.crashing restart awaited
      · rw [approved, Bool.true_and]
        exact none_left linked id
      · cases entry : s.pendingRpcs id with
        | false => rfl
        | true =>
          have held := (linked id).mp entry
          rw [none id] at held
          cases held
    rw [entry]
    exact ⟨fun entry => (nomatch entry), fun held => (nomatch held)⟩

theorem Owing.unmoved (owing : Owing config s) (same : Unmoved s s') (id : Text) :
    s'.pendingRpcs id = true ↔ (s'.rpcInvocations id).isSome := by
  rw [same.pending, same.held]
  exact owing.pending_iff same.idle id

theorem Owing.turn (owing : Owing config s) (turned : turn config s event = some (s', effects))
    (running : s'.exited = false)
    (expiries : ∀ request invocation, event = some (.expiry request invocation) → s.rpcInvocations request ≠ some invocation)
    (ends : event = some .stop ∨ (∃ restart, event = some (.eof restart)) →
      config.approved = true ∨ ∀ id, s.rpcInvocations id = none) : Owing config s' := by
  cases turn_tabled turned with
  | unmoved same => exact .of_idle (same.awaiting.trans same.idle) (owing.unmoved same)
  | unknown idle free =>
    refine .of_idle ((resolve_awaiting _ _ _).trans idle) fun id => ?_
    rw [resolve_pendingRpcs, resolve_toBooks, Bool.and_eq_true_iff, owing.pending_iff idle, decide_eq_true_iff]
    refine and_iff_left_of_imp fun held same => ?_
    rw [same, free] at held
    cases held
  | @answers _ id result invocation idle held =>
    constructor
    case linked =>
      intro other
      show s.pendingRpcs other = true ↔ (remove s.rpcInvocations id other).isSome ∨ _
      rw [owing.pending_iff idle]
      by_cases same : other = id
      · subst same
        rw [held]
        exact ⟨fun _ => .inr ⟨result, invocation, rfl⟩, fun _ => rfl⟩
      · rw [remove_of_ne same]
        refine (or_iff_left ?_).symm
        rintro ⟨later, behind, waits⟩
        cases waits
        exact same rfl
    case finishing =>
      intro other later behind waits
      cases waits
      exact remove_self _ id
    case unexpired => exact fun _ _ waits => nomatch waits
    case stopping => exact fun waits => nomatch waits
    case crashing => exact fun _ waits => nomatch waits
  | dispatches idle => exact owing.dispatch idle _ _ _
  | forgets idle =>
    refine .of_idle idle fun id => ?_
    rw [publicAbandon_pendingRpcs, none_left (owing.pending_iff idle)]
    exact ⟨fun entry => (nomatch entry), fun held => (nomatch held)⟩
  | abandons same =>
    have linked := owing.unmoved same
    exact .of_wait rfl linked (fun _ _ _ different => nomatch different)
      (fun _ _ different => nomatch different) (by rintro (different | ⟨_, different⟩) <;> cases different)
  | expires idle held => exact absurd held (expiries _ _ rfl)
  | stops idle =>
    exact .of_wait rfl (owing.pending_iff idle) (fun _ _ _ different => nomatch different)
      (fun _ _ different => nomatch different) fun _ => ends (.inl rfl)
  | crashes idle =>
    exact .of_wait rfl (owing.pending_iff idle) (fun _ _ _ different => nomatch different)
      (fun _ _ different => nomatch different) fun _ => ends (.inr ⟨_, rfl⟩)
  | resumes awaited => exact owing.resume awaited running

end Owed

/-! ## Runs -/

section Runs

variable {config : Config} {desk desk' : Desk} {happening : Happening} {event : Option Event}

theorem Supervisor.ending_isSome_iff {after : Supervisor} {id : Text} :
    (after.ending id).isSome ↔ after.pendingRpcs id = false ∨ after.exited = true := by
  unfold Supervisor.ending
  cases after.pendingRpcs id <;> cases after.exited <;> simp

/-- An entry for each request that the loop has registered; none when it is over. -/
def Desk.Tables (desk : Desk) : Prop :=
  ∀ id, (desk.callers.senders id).isSome = (desk.supervisor.pendingRpcs id && !desk.supervisor.exited)

theorem request_senders {id : Text}
    (entry : (desk.callers.senders id).isSome ∨
      ∃ invocation sent, event = some (.rpc id invocation sent) ∧ desk.supervisor.status = .running) :
    ((desk.request event).senders id).isSome := by
  obtain entry | ⟨invocation, sent, rfl, running⟩ := entry
  · unfold Desk.request
    split
    case h_2 => exact entry
    case h_1 request _ _ =>
      split
      case isFalse => exact entry
      case isTrue =>
        by_cases named : id = request
        · simp [Channels.register, named]
        · simpa [Channels.register, Channels.close, named] using entry
  · simp [Desk.request, running, Channels.register]

theorem turn_running {s : Supervisor} {handled : Handled} (turned : turn config s event = some handled) :
    s.exited = false := by
  unfold turn at turned
  split at turned
  case isTrue => cases turned
  case isFalse running => exact Bool.not_eq_true _ ▸ running

theorem Desk.Tables.turn {handled : Handled} (tables : desk.Tables)
    (turned : turn config desk.supervisor event = some handled) :
    Desk.Tables { supervisor := handled.1, callers := (desk.request event).close handled.1.ending } := by
  intro id
  show (if (handled.1.ending id).isSome then none else (desk.request event).senders id).isSome = _
  split
  case isTrue gone =>
    obtain resolved | ended := Supervisor.ending_isSome_iff.mp gone
    · simp [resolved]
    · simp [ended]
  case isFalse stays =>
    rw [Supervisor.ending_isSome_iff, not_or, Bool.not_eq_false, Bool.not_eq_true] at stays
    obtain ⟨entry, running⟩ := stays
    rw [entry, running]
    refine request_senders ((of_turn_pendingRpcs turned entry).imp_left fun before => ?_)
    rw [tables id, before, turn_running turned]
    rfl

theorem step_of_ended {place : Nat} {caller : Waiter Text Ending} (stepped : desk.step config happening = some desk')
    (found : desk.callers.waiters[place]? = some caller) (ended : caller.ending.isSome) :
    desk'.callers.waiters[place]? = some caller := by
  cases happening with
  | timeout other | cancel other =>
    cases stepped
    exact leave_of_found found ended other _
  | turn event =>
    obtain ⟨handled, -, rfl⟩ := map_eq_some_iff.mp stepped
    refine close_of_ended ?_ ended _
    unfold Desk.request
    split
    case h_2 => exact found
    case h_1 =>
      split
      · exact register_of_ended found ended _ _
      · exact concat_of_found found _

theorem request_matched (matched : desk.callers.Matched) (event : Option Event) : (desk.request event).Matched := by
  unfold Desk.request
  split
  case h_2 => exact matched
  case h_1 =>
    split
    · exact matched.register _ _
    · exact matched.refuse _ _

/-- What timely happenings keep. -/
structure Desk.Timed (config : Config) (desk : Desk) : Prop where
  tables : desk.Tables
  matched : desk.callers.Matched
  owing : desk.supervisor.exited = false → Owing config desk.supervisor

theorem Desk.Timed.step (timed : desk.Timed config) (timely : Timely config desk happening)
    (stepped : desk.step config happening = some desk') : desk'.Timed config := by
  cases happening with
  | timeout caller | cancel caller =>
    cases stepped
    rw [leave_of_ended timely]
    exact timed
  | turn event =>
    obtain ⟨handled, turned, rfl⟩ := map_eq_some_iff.mp stepped
    refine ⟨timed.tables.turn turned, (request_matched timed.matched event).close _, fun running => ?_⟩
    apply (timed.owing (turn_running turned)).turn turned running
    · rintro request invocation rfl
      exact timely
    · rintro (rfl | ⟨restart, rfl⟩)
      · exact timely
      · exact timely

theorem timed_of_reaches (reached : desk.Reaches config (Timely config)) : desk.Timed config := by
  induction reached with
  | start =>
    refine ⟨fun _ => rfl, matched_empty, fun _ => .of_idle rfl fun id => ?_⟩
    exact ⟨fun entry => (nomatch entry), fun held => (nomatch held)⟩
  | step _ meets stepped timed => exact timed.step meets stepped

/-- In every run in which no request is left unanswered, the table has an entry
    exactly for the callers that wait and for the invocations that owe an answer,
    and no wait ends twice. -/
theorem pending_exact (config : Config) (desk : Desk) (reached : desk.Reaches config (Timely config)) :
    desk.Exact ∧ ∀ happening desk', desk.step config happening = some desk' → ∀ (place : Nat) caller,
      desk.callers.waiters[place]? = some caller → caller.ending.isSome →
        desk'.callers.waiters[place]? = some caller := by
  have timed := timed_of_reaches reached
  refine ⟨⟨fun id => timed.matched.isSome_iff, fun running id => ?_, fun ended id => ?_⟩, ?_⟩
  · rw [timed.tables id, running, Bool.not_false, Bool.and_true]
    exact (timed.owing running).linked id
  · have none := timed.tables id
    rwa [ended, Bool.not_true, Bool.and_false, Option.isSome_eq_false_iff, Option.isNone_iff_eq_none] at none
  · exact fun happening desk' stepped place caller found ended => step_of_ended stepped found ended

/-- The state behind a list of happenings, those that are not possible left out. -/
def Desk.after (config : Config) (desk : Desk) : List Happening → Desk
  | [] => desk
  | happening :: rest => ((desk.step config happening).getD desk).after config rest

/-- Every happening of a list is allowed where it comes. -/
def Desk.Along (config : Config) (allowed : Desk → Happening → Prop) (desk : Desk) : List Happening → Prop
  | [] => True
  | happening :: rest => allowed desk happening ∧ ((desk.step config happening).getD desk).Along config allowed rest

theorem Desk.Reaches.after {allowed : Desk → Happening → Prop} (reached : desk.Reaches config allowed)
    {happenings : List Happening} (along : desk.Along config allowed happenings) :
    (desk.after config happenings).Reaches config allowed := by
  induction happenings generalizing desk with
  | nil => exact reached
  | cons happening rest ih =>
    refine ih ?_ along.2
    cases stepped : desk.step config happening with
    | none => exact reached
    | some desk' => exact .step reached along.1 stepped

/-- A request that is answered, and whose caller leaves behind the answer. -/
def answeredCaller : List Happening :=
  [.turn (some (.start (.ok ()))), .turn (some (.rpc "r" "i" (.ok ()))),
    .turn (some (.message (.rpcResponse "r" none none) {})), .turn none, .cancel 0]

theorem answeredCaller_exact :
    (Desk.after {} {} answeredCaller).callers.waiters = [⟨"r".toList, some (.told (.ok .null))⟩] ∧
      (Desk.after {} {} answeredCaller).Exact := by
  refine ⟨rfl, (pending_exact {} _ (Desk.Reaches.start.after ?_)).1⟩
  refine ⟨trivial, trivial, trivial, trivial, fun caller found => ?_, trivial⟩
  cases found
  rfl

/-- The process of an ordinary worker crashes while a request is unanswered; it
    comes back, and the caller has waited for thirty seconds. -/
def crashedCaller : List Happening :=
  [.turn (some (.start (.ok ()))), .turn (some (.rpc "r" "i" (.ok ()))),
    .turn (some (.eof (.spawned (.ok ())))), .turn none, .timeout 0]

/-- The entry of the request outlives its invocation and its caller. -/
theorem crashedCaller_stays :
    (Desk.after {} {} crashedCaller).callers.senders "r".toList = some 0 ∧
      ¬ ∀ (config : Config) (desk : Desk), desk.Reaches config (fun _ _ => True) → desk.Exact := by
  have entry : (Desk.after {} {} crashedCaller).callers.senders "r".toList = some 0 := by decide
  refine ⟨entry, fun always => ?_⟩
  have reached : (Desk.after {} {} crashedCaller).Reaches {} (fun _ _ => True) :=
    Desk.Reaches.start.after ⟨trivial, trivial, trivial, trivial, trivial, trivial⟩
  have owed := ((always {} _ reached).owed rfl "r".toList).mp (by rw [entry]; rfl)
  obtain held | ⟨result, invocation, waits⟩ := owed
  · cases held
  · cases waits

end Runs

end RootCx.Worker
