import RootCx.Worker.Supervisor

/-! # What a turn of the supervisor changes

Every turn of the loop is one of a dozen changes of the books.  The invariants of
the supervisor are proved by cases on `Change`, and `turn_change` is the only
place that goes through the handlers.  The effects that matter outside the books
have their own cases: a transaction starts, an open transaction is reached, a data
operation starts, a message of the queue is settled.
-/

namespace RootCx.Worker

open RootCx.Text

/-- Whether an effect neither reaches data nor settles a job. -/
def Effect.quiet : Effect → Bool
  | .begun _ _ | .exec _ | .poison _ | .finish _ _ | .dataTask _ | .complete _ | .fail _ | .deadLetter _ _ _ => false
  | .reply _ | .stray _ | .abort _ _ | .dropped _ | .cancel _ => true

def Quiet (effects : List Effect) : Prop := ∀ effect ∈ effects, effect.quiet = true

/-- The message came from a process whose kind of worker may send it. -/
structure Heard (config : Config) (s : Supervisor) (msg : InboundMessage) : Prop where
  connected : s.connected = true
  approved : config.approved = true → approvedCapabilityDenial msg s.workerProtocol s.activeInvocations = .ok none
  published : config.publicExecution = true → publicCapabilityDenial msg = .ok none

inductive Change (config : Config) (s : Supervisor) : Option Event → Supervisor → List Effect → Prop
  | kept {event} {s' : Supervisor} {effects} (idle : s.awaiting = none) (books : s'.toBooks = s.toBooks)
      (awaiting : s'.awaiting = none)
      (pipes : (s.status = .running → s.connected = true) → s'.status = .running → s'.connected = true)
      (exited : s'.exited = s.exited) (outcomes : ∀ id, s'.outcomes id = s.outcomes id ∨ s.rpcInvocations id = none)
      (quiet : Quiet effects) : Change config s event s' effects
  | waits {event} {wait : Await} (idle : s.awaiting = none)
      (unanswered : ∀ id result invocation, wait ≠ .finish id result invocation)
      (expires : ∀ request invocation, wait = .expire request invocation → s.rpcInvocations request = some invocation)
      (abandons : ∀ error, wait = .abandon error → config.approved = true) :
      Change config s event { s with awaiting := some wait } []
  | denied {event} {txId error : Text} {effects} (idle : s.awaiting = none) (approved : config.approved = true)
      (quiet : Quiet effects) :
      Change config s event { taken txId s with awaiting := some (.abandon error) } effects
  | takes {event} {txId : Text} {effects} (idle : s.awaiting = none) (quiet : Quiet effects) :
      Change config s event (taken txId s) effects
  | ended {txId : Text} {effects} (idle : s.awaiting = none) (quiet : Quiet effects) :
      Change config s (some (.txDone txId)) { taken txId s with actors := remove s.actors txId } effects
  | operates {msg chance} {invocationId : Option Text} (idle : s.awaiting = none) (heard : Heard config s msg)
      (data : config.approved = true → msg.dataInvocation = some invocationId) :
      Change config s (some (.message msg chance)) s [.dataTask invocationId]
  | opens {id chance} {txId : Text} {invocationId : Option Text} {reply : Reply} (idle : s.awaiting = none)
      (heard : Heard config s (.sqlBegin id invocationId)) (session : chance.begun = .session txId)
      (capable : (capabilityContext config.invocation s.workerProtocol s.activeInvocations invocationId).isOk = true) :
      Change config s (some (.message (.sqlBegin id invocationId) chance)) (opened config txId invocationId s)
        [.begun txId invocationId, .reply reply]
  | states {msg chance} {txId : Text} {invocationId : Option Text} {effects} (idle : s.awaiting = none)
      (heard : Heard config s msg) (data : msg.dataInvocation = some invocationId) (names : msg.transaction = some txId)
      (admitted : s.admits config txId invocationId = true) (isOpen : txId ∈ s.openTxs)
      (reaches : ∀ effect ∈ effects, effect = .exec txId ∨ effect = .poison txId ∨ effect.quiet = true) :
      Change config s (some (.message msg chance)) s effects
  | finishes {msg chance} {txId : Text} {invocationId : Option Text} {commit : Bool} (idle : s.awaiting = none)
      (heard : Heard config s msg) (data : msg.dataInvocation = some invocationId) (names : msg.transaction = some txId)
      (admitted : s.admits config txId invocationId = true) (isOpen : txId ∈ s.openTxs) :
      Change config s (some (.message msg chance)) (taken txId s) [.finish txId commit]
  | answers {event} {id : Text} {result : Except Text Json} {invocation : Text} (idle : s.awaiting = none)
      (held : s.rpcInvocations id = some invocation) :
      Change config s event { s with
        rpcInvocations := remove s.rpcInvocations id
        activeInvocations := s.activeInvocations.erase invocation
        awaiting := some (.finish id result invocation) } []
  | dispatches {id invocation : Text} {sent : Except Text Unit} (idle : s.awaiting = none) :
      Change config s (some (.rpc id invocation sent)) (rpc id invocation sent s) []
  | employs {id invocation : Text} {payload : Json} {sent : Bool} (idle : s.awaiting = none) :
      Change config s (some (.job id invocation payload sent)) (job id invocation payload sent s) []
  | settles {id : Text} {error : Option Text} {chance} (idle : s.awaiting = none)
      (heard : Heard config s (.jobResult id error)) :
      Change config s (some (.message (.jobResult id error) chance)) (jobResult id error s).1 (jobResult id error s).2
  | forgets {event} {error : Text} (idle : s.awaiting = none) (isPublic : config.publicExecution = true) :
      Change config s event (publicAbandon error s) []
  | resumes {wait : Await} (awaited : s.awaiting = some wait) :
      Change config s none (resume config wait s).1 (resume config wait s).2

/-! ## Small facts -/

variable {config : Config} {s s' : Supervisor} {effects : List Effect} {chance : Chance} {msg : InboundMessage}

theorem quiet_nil : Quiet [] := by simp [Quiet]

theorem quiet_reply (reply : Reply) : Quiet [.reply reply] := by simp [Quiet, Effect.quiet]

theorem quiet_dropped (txIds : Finset Text) : Quiet [.dropped txIds] := by simp [Quiet, Effect.quiet]

theorem resume_quiet (config : Config) (wait : Await) (s : Supervisor) : Quiet (resume config wait s).2 := by
  cases wait <;> exact quiet_dropped _

theorem closeJob_quiet (msgId : Int) (s : Supervisor) : Quiet (closeJob msgId s).2 := by
  unfold closeJob
  split
  · exact quiet_dropped _
  · exact quiet_nil

variable {id : Text} {event : Option Event} {txId : Text} {invocationId : Option Text} {handled : Handled}

theorem jobResult_mem {error : Option Text} {effect : Effect} (mem : effect ∈ (jobResult id error s).2) :
    effect.quiet = true ∨ ∃ msgId payload, effect = settlement msgId error payload := by
  unfold jobResult at mem
  split at mem
  · cases mem
  · obtain mem | mem := List.mem_append.mp mem
    · exact .inl (closeJob_quiet _ _ effect mem)
    · exact .inr ⟨_, _, List.mem_singleton.mp mem⟩

@[simp] theorem resolve_toBooks (s : Supervisor) (id : Text) (result : Except Text Json) :
    (s.resolve id result).toBooks = s.toBooks := by
  unfold Supervisor.resolve
  split <;> rfl

@[simp] theorem resolve_awaiting (s : Supervisor) (id : Text) (result : Except Text Json) :
    (s.resolve id result).awaiting = s.awaiting := by
  unfold Supervisor.resolve
  split <;> rfl

@[simp] theorem resolve_status (s : Supervisor) (id : Text) (result : Except Text Json) :
    (s.resolve id result).status = s.status := by
  unfold Supervisor.resolve
  split <;> rfl

@[simp] theorem resolve_connected (s : Supervisor) (id : Text) (result : Except Text Json) :
    (s.resolve id result).connected = s.connected := by
  unfold Supervisor.resolve
  split <;> rfl

@[simp] theorem resolve_exited (s : Supervisor) (id : Text) (result : Except Text Json) :
    (s.resolve id result).exited = s.exited := by
  unfold Supervisor.resolve
  split <;> rfl

theorem resolve_outcomes_of_ne {other : Text} {result : Except Text Json} (different : other ≠ id) :
    (s.resolve id result).outcomes other = s.outcomes other := by
  unfold Supervisor.resolve
  split
  · exact put_of_ne different
  · rfl

theorem Change.rest (idle : s.awaiting = none) (quiet : Quiet effects) : Change config s event s effects :=
  .kept idle rfl idle id rfl (fun _ => .inl rfl) quiet

theorem mem_of_matchSession {openTxs : Finset Text} (matched : matchSession openTxs txId = .ok ()) :
    txId ∈ openTxs := by
  unfold matchSession at matched
  split at matched
  case isTrue mem => exact mem
  case isFalse => split at matched <;> cases matched

theorem restarted_toBooks (config : Config) (restart : Restart) (s : Supervisor) :
    (restarted config restart s).toBooks = s.toBooks := by
  unfold restarted
  split <;> rfl

theorem resume_crash (config : Config) (restart : Restart) (s : Supervisor) :
    (resume config (.crash restart) s).1.toBooks = { actors := s.closeActors none } ∧
      (resume config (.crash restart) s).1.awaiting = none := by
  constructor
  · simp only [resume, restarted_toBooks, clearBooks, clearTransactions, disconnect]
    split <;> rfl
  · simp only [resume, restarted]
    split <;> split <;> rfl

theorem restarted_pipes (config : Config) (restart : Restart) (s : Supervisor) :
    (restarted config restart s).status = .running → (restarted config restart s).connected = true := by
  unfold restarted
  split
  · exact nofun
  · exact nofun
  · exact fun _ => rfl
  · exact nofun

/-! ## Messages -/

theorem dataOperation_change (idle : s.awaiting = none) (heard : Heard config s msg)
    (data : config.approved = true → msg.dataInvocation = some invocationId) (refused : Text → Reply) :
    Change config s (some (.message msg chance)) (dataOperation config chance invocationId refused s).1
      (dataOperation config chance invocationId refused s).2 := by
  unfold dataOperation
  split
  case isTrue => exact .rest idle (quiet_reply _)
  case isFalse =>
    split
    case h_1 => exact .rest idle (quiet_reply _)
    case h_2 => exact .operates idle heard data

theorem remoteCollectionOp_change {op : Text} (idle : s.awaiting = none)
    (heard : Heard config s (.remoteCollectionOp id invocationId op)) :
    Change config s (some (.message (.remoteCollectionOp id invocationId op) chance))
      (remoteCollectionOp config chance id invocationId s).1
      (remoteCollectionOp config chance id invocationId s).2 := by
  unfold remoteCollectionOp
  split
  case isTrue => exact .rest idle (quiet_reply _)
  case isFalse =>
    split
    case isTrue => exact .rest idle (quiet_reply _)
    case isFalse => exact dataOperation_change idle heard (fun approved => nomatch heard.approved approved) _

theorem rpcResponse_change (idle : s.awaiting = none) (id : Text) (result : Option Json) (error : Option Text) :
    Change config s event (rpcResponse id result error s).1 (rpcResponse id result error s).2 := by
  cases held : s.rpcInvocations id with
  | none =>
    simp only [rpcResponse, held]
    refine .kept idle (by simp) (by simpa using idle) (by simp) (by simp) ?_ quiet_nil
    intro other
    by_cases same : other = id
    · exact .inr (same ▸ held)
    · exact .inl (resolve_outcomes_of_ne same)
  | some invocation =>
    simp only [rpcResponse, held]
    exact .answers idle held

theorem sqlBegin_change (idle : s.awaiting = none) (heard : Heard config s (.sqlBegin id invocationId)) :
    Change config s (some (.message (.sqlBegin id invocationId) chance))
      (sqlBegin config chance id invocationId s).1 (sqlBegin config chance id invocationId s).2 := by
  unfold sqlBegin
  split
  case isTrue => exact .rest idle (quiet_reply _)
  case isFalse =>
    split
    case isTrue => exact .rest idle (quiet_reply _)
    case isFalse =>
      split
      case h_1 => exact .rest idle (quiet_reply _)
      case h_2 allowed =>
        split
        case isTrue => exact .rest idle (by simp [Quiet, Effect.quiet])
        case isFalse =>
          split
          case h_1 => exact .rest idle (quiet_reply _)
          case h_2 session => exact .opens idle heard session (by rw [allowed]; rfl)

theorem refuseTx_change (idle : s.awaiting = none) (txId : Text) (aborted unknown : Reply) :
    Change config s event (refuseTx txId aborted unknown s).1 (refuseTx txId aborted unknown s).2 := by
  unfold refuseTx
  split
  · exact .takes idle (by simp [Quiet, Effect.quiet])
  · exact .rest idle (quiet_reply _)

theorem sqlExec_change (idle : s.awaiting = none) (heard : Heard config s (.sqlExec id invocationId txId)) :
    Change config s (some (.message (.sqlExec id invocationId txId) chance))
      (sqlExec config chance id invocationId txId s).1 (sqlExec config chance id invocationId txId s).2 := by
  unfold sqlExec
  split
  case isTrue => exact refuseTx_change idle txId _ _
  case isFalse admitted =>
    have admitted : s.admits config txId invocationId = true := by simpa using admitted
    split
    case h_1 => exact .rest idle (quiet_reply _)
    case h_2 matched =>
      split
      case h_1 | h_3 =>
        exact .states idle heard rfl rfl admitted (mem_of_matchSession matched) (by simp [Effect.quiet])
      case h_2 | h_4 => exact .takes idle (by simp [Quiet, Effect.quiet])

theorem sqlEnd_change (idle : s.awaiting = none) (heard : Heard config s msg)
    (data : msg.dataInvocation = some invocationId) (names : msg.transaction = some txId) (commit : Bool)
    (refused : Text) :
    Change config s (some (.message msg chance)) (sqlEnd config commit refused id invocationId txId s).1
      (sqlEnd config commit refused id invocationId txId s).2 := by
  unfold sqlEnd
  split
  case isTrue => exact refuseTx_change idle txId _ _
  case isFalse admitted =>
    have admitted : s.admits config txId invocationId = true := by simpa using admitted
    split
    case h_1 => exact .rest idle (quiet_reply _)
    case h_2 matched => exact .finishes idle heard data names admitted (mem_of_matchSession matched)

theorem perform_change (idle : s.awaiting = none) (heard : Heard config s msg) :
    Change config s (some (.message msg chance)) (perform config chance msg s).1 (perform config chance msg s).2 := by
  cases msg with
  | discover protocol => exact .kept idle rfl idle id rfl (fun _ => .inl rfl) quiet_nil
  | rpcResponse id result error => exact rpcResponse_change idle id result error
  | jobResult id error => exact .settles idle heard
  | collectionOp id invocationId op => exact dataOperation_change idle heard (fun _ => rfl) _
  | sqlQuery id invocationId => exact dataOperation_change idle heard (fun _ => rfl) _
  | remoteCollectionOp id invocationId op => exact remoteCollectionOp_change idle heard
  | sqlBegin id invocationId => exact sqlBegin_change idle heard
  | sqlExec id invocationId txId => exact sqlExec_change idle heard
  | sqlCommit id invocationId txId => exact sqlEnd_change idle heard rfl rfl true _
  | sqlRollback id invocationId txId => exact sqlEnd_change idle heard rfl rfl false _
  | _ => exact .rest idle quiet_nil

theorem publicRead_change (idle : s.awaiting = none) (heard : Heard config s msg)
    (data : config.approved = true → msg.dataInvocation = some invocationId) :
    Change config s (some (.message msg chance)) (publicRead chance id invocationId s).1
      (publicRead chance id invocationId s).2 := by
  unfold publicRead
  split
  case h_1 => exact .rest idle (quiet_reply _)
  case h_2 =>
    split
    case isTrue => exact .operates idle heard data
    case isFalse => exact .rest idle (quiet_reply _)

theorem publicDenied_eq_none (passed : publicDenied chance msg = .ok none) : publicCapabilityDenial msg = .ok none := by
  unfold publicDenied at passed
  split at passed
  case h_1 => cases passed
  case h_2 => split at passed <;> cases passed
  case h_3 free => exact free

theorem performPublic_change (idle : s.awaiting = none) (connected : s.connected = true)
    (approved : config.approved = true → approvedCapabilityDenial msg s.workerProtocol s.activeInvocations = .ok none)
    (isPublic : config.publicExecution = true) :
    Change config s (some (.message msg chance)) (performPublic config chance msg s).1
      (performPublic config chance msg s).2 := by
  unfold performPublic
  split
  case h_1 => exact .forgets idle isPublic
  case h_2 => exact .rest idle (quiet_reply _)
  case h_3 passed =>
    have heard : Heard config s msg := ⟨connected, approved, fun _ => publicDenied_eq_none passed⟩
    split
    case h_1 => exact publicRead_change idle heard (fun _ => rfl)
    case h_2 => exact publicRead_change idle heard (fun approved => nomatch heard.approved approved)
    case h_3 => exact perform_change idle heard

theorem performScoped_change (idle : s.awaiting = none) (connected : s.connected = true)
    (approved : config.approved = true → approvedCapabilityDenial msg s.workerProtocol s.activeInvocations = .ok none) :
    Change config s (some (.message msg chance)) (performScoped config chance msg s).1
      (performScoped config chance msg s).2 := by
  unfold performScoped
  split
  case isTrue isPublic => exact performPublic_change idle connected approved isPublic
  case isFalse ordinary => exact perform_change idle ⟨connected, approved, fun isPublic => absurd isPublic ordinary⟩

/-- The gate of an approved worker denies without an effect on the books, but for
    the transaction that the message names. -/
theorem approvedDenied_cases (chance : Chance) (msg : InboundMessage) (s : Supervisor) :
    Quiet (approvedDenied chance msg s).1.2 ∧
      ((approvedDenied chance msg s).1.1 = s ∧ (∀ error, (approvedDenied chance msg s).2 = .error error →
          (approvedDenied chance msg s).1.2 = []) ∨
        ∃ txId, (approvedDenied chance msg s).1.1 = taken txId s) := by
  unfold approvedDenied denyTransaction
  split
  case h_1 => exact ⟨quiet_nil, .inl ⟨rfl, fun _ _ => rfl⟩⟩
  case h_2 =>
    cases msg.transaction with
    | none =>
      cases chance.room with
      | true => exact ⟨quiet_reply _, .inl ⟨rfl, fun _ failed => nomatch failed⟩⟩
      | false => exact ⟨quiet_nil, .inl ⟨rfl, fun _ _ => rfl⟩⟩
    | some txId =>
      cases chance.room with
      | true => exact ⟨by simp [Quiet, Effect.quiet], .inr ⟨txId, rfl⟩⟩
      | false => exact ⟨by simp [Quiet, Effect.quiet], .inr ⟨txId, rfl⟩⟩
  case h_3 =>
    split
    · split
      · exact ⟨quiet_nil, .inl ⟨rfl, fun _ _ => rfl⟩⟩
      · exact ⟨quiet_nil, .inl ⟨rfl, fun _ _ => rfl⟩⟩
    · exact ⟨quiet_nil, .inl ⟨rfl, fun _ _ => rfl⟩⟩

theorem approvedDenied_eq_false (passed : approvedDenied chance msg s = (handled, .ok false)) :
    approvedCapabilityDenial msg s.workerProtocol s.activeInvocations = .ok none := by
  unfold approvedDenied at passed
  split at passed
  case h_1 => cases passed
  case h_2 =>
    dsimp only at passed
    split at passed <;> cases passed
  case h_3 free => exact free

theorem message_change (idle : s.awaiting = none) (connected : s.connected = true) :
    Change config s (some (.message msg chance)) (message config chance msg s).1 (message config chance msg s).2 := by
  unfold message
  split
  case isFalse ordinary =>
    exact performScoped_change idle connected (fun approved => absurd approved ordinary)
  case isTrue approved =>
    obtain ⟨quiet, cases⟩ := approvedDenied_cases chance msg s
    split
    case h_1 handled denied =>
      rw [denied] at quiet cases
      obtain ⟨same, -⟩ | ⟨txId, same⟩ := cases
      · rw [same]
        exact .rest idle quiet
      · rw [same]
        exact .takes idle quiet
    case h_2 next emitted error denied =>
      rw [denied] at quiet cases
      obtain ⟨same, none⟩ | ⟨txId, same⟩ := cases
      · obtain rfl : emitted = [] := none error rfl
        obtain rfl : next = s := same
        exact .waits idle (fun _ _ _ different => nomatch different) (fun _ _ different => nomatch different)
          (fun _ _ => approved)
      · obtain rfl : next = taken txId s := same
        exact .denied idle approved quiet
    case h_3 passed => exact performScoped_change idle connected (fun _ => approvedDenied_eq_false passed)

/-! ## Turns -/

theorem start_change (idle : s.awaiting = none) (spawned : Except Text Unit) :
    Change config s event (start spawned s) [] := by
  unfold start
  split
  · exact .rest idle quiet_nil
  · split
    · exact .kept idle rfl idle (fun _ _ => rfl) rfl (fun _ => .inl rfl) quiet_nil
    · exact .kept idle rfl idle (fun _ running => nomatch running) rfl (fun _ => .inl rfl) quiet_nil

theorem handle_change (idle : s.awaiting = none) (event : Event) :
    Change config s (some event) (handle config event s).1 (handle config event s).2 := by
  cases event with
  | sendFailed =>
    simp only [handle]
    split
    case isTrue unsent =>
      exact .waits idle (fun _ _ _ different => nomatch different) (fun _ _ different => nomatch different)
        (fun _ _ => (Bool.and_eq_true_iff.mp unsent).2)
    case isFalse => exact .rest idle quiet_nil
  | txDone txId => exact .ended idle (by simp [handle, Quiet, Effect.quiet])
  | expiry request invocation =>
    simp only [handle]
    split
    case isTrue held =>
      refine .waits idle (fun _ _ _ different => nomatch different) ?_ (fun _ different => nomatch different)
      intro other named same
      cases same
      exact held
    case isFalse => exact .rest idle quiet_nil
  | start spawned => exact start_change idle spawned
  | stop =>
    exact .waits idle (fun _ _ _ different => nomatch different) (fun _ _ different => nomatch different)
      (fun _ different => nomatch different)
  | rpc id invocation sent => exact .dispatches idle
  | job id invocation payload sent => exact .employs idle
  | message msg chance =>
    simp only [handle]
    split
    case isTrue connected => exact message_change idle connected
    case isFalse => exact .rest idle quiet_nil
  | eof restart =>
    simp only [handle]
    split
    · exact .waits idle (fun _ _ _ different => nomatch different) (fun _ _ different => nomatch different)
        (fun _ different => nomatch different)
    · exact .rest idle quiet_nil

theorem turn_event {event : Event} (turned : turn config s (some event) = some handled) :
    s.awaiting = none ∧ handle config event s = handled := by
  unfold turn at turned
  split at turned
  · cases turned
  · cases waiting : s.awaiting with
    | none =>
      simp only [waiting, Option.some.injEq] at turned
      exact ⟨rfl, turned⟩
    | some wait => simp [waiting] at turned

theorem turn_await (turned : turn config s none = some handled) :
    ∃ wait, s.awaiting = some wait ∧ resume config wait s = handled := by
  unfold turn at turned
  split at turned
  · cases turned
  · cases waiting : s.awaiting with
    | none => simp [waiting] at turned
    | some wait =>
      simp only [waiting, Option.some.injEq] at turned
      exact ⟨wait, rfl, turned⟩

theorem turn_change (turned : turn config s event = some (s', effects)) :
    Change config s event s' effects := by
  cases event with
  | none =>
    obtain ⟨wait, awaited, resumed⟩ := turn_await turned
    have change : Change config s none (resume config wait s).1 (resume config wait s).2 := .resumes awaited
    rwa [resumed] at change
  | some event =>
    obtain ⟨idle, handled⟩ := turn_event turned
    have change : Change config s (some event) (handle config event s).1 (handle config event s).2 :=
      handle_change idle event
    rwa [handled] at change

end RootCx.Worker
