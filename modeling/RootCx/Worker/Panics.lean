import RootCx.Lib.Utf8
import RootCx.Worker.Changes

/-! # Panics of the supervisor

The handlers once more, with every slice, `unwrap` and `expect` they hold: each
of them is taken or ends the loop.  A message is taken as it arrives, a log with
its text. -/

namespace RootCx.Worker

open RootCx.Text

inductive Panic where
  /-- A byte index that is not a character boundary. -/
  | boundary (index : Nat)
  | unwrapNone
  | expectNone (message : Text)
  deriving DecidableEq, Repr

inductive Received where
  | log (level message : Text)
  | other (msg : InboundMessage)

def Received.inbound : Received → InboundMessage
  | .log _ _ => .log
  | .other msg => msg

/-- What is handled, and the lines of the log. -/
abbrev Unwrapped := Except Panic (Handled × List (Text × Text))

/-! ## Handlers -/

def LOG_LIMIT : Nat := 8192

/-- The text of a log, cut to its limit. -/
def logText (message : Text) : Except Panic Text :=
  if byteLength message > LOG_LIMIT then (sliceTo LOG_LIMIT message).elim (.error (.boundary LOG_LIMIT)) .ok
  else .ok message

/-- `open_txs.remove(&tx_id).unwrap()` -/
def takeSession (txId : Text) (s : Supervisor) : Except Panic Supervisor :=
  if txId ∈ s.openTxs then .ok (taken txId s) else .error .unwrapNone

section Handlers

variable (config : Config) (chance : Chance)

def sqlBeginUnwrapped (id : Text) (invocationId : Option Text) (s : Supervisor) : Except Panic Handled :=
  let refused (error : Text) : Effect := .reply (.sqlBeginResult id none (some error))
  if MAX_OPEN_TRANSACTIONS_PER_WORKER ≤ s.openTxs.card then
    .ok (s, [refused "too many open transactions in this worker (max 4)"])
  else if !chance.admitted then .ok (s, [refused "rate limited (100 SQL operations/s)"])
  else
    match capabilityContext config.invocation s.workerProtocol s.activeInvocations invocationId with
    | .error error => .ok (s, [refused error])
    | .ok _ =>
      if config.approved && chance.late then
        .ok (s, [.stray invocationId, refused "approved transaction acquisition timed out"])
      else
        match chance.begun with
        | .failed error => .ok (s, [refused error])
        | .session txId =>
          let begun : Handled :=
            (opened config txId invocationId s, [.begun txId invocationId, .reply (.sqlBeginResult id (some txId) none)])
          if config.approved then invocationId.elim (.error (.expectNone "approved invocation id")) fun _ => .ok begun
          else .ok begun

def sqlExecUnwrapped (id : Text) (invocationId : Option Text) (txId : Text) (s : Supervisor) : Except Panic Handled :=
  if !s.admits config txId invocationId then
    .ok (refuseTx txId (.sqlExecResult id "transaction invocation is unknown, expired, or mismatched")
      (.sqlExecResult id "unknown transaction id") s)
  else
    match matchSession s.openTxs txId with
    | .error error => .ok (s, [.reply (.sqlExecResult id error)])
    | .ok () =>
      match chance.admitted, chance.enqueued with
      | false, .ok () => .ok (s, [.poison txId, .reply (.sqlExecResult id "rate limited (100 queries/s)")])
      | false, .error error =>
        (takeSession txId s).map fun s => (s, [.abort txId (.sqlExecResult id
          ("rate limited (100 queries/s); transaction aborted because its command queue was unavailable: " ++
            error))])
      | true, .ok () => .ok (s, [.exec txId])
      | true, .error error =>
        (takeSession txId s).map fun s => (s, [.abort txId (.sqlExecResult id
          ("transaction aborted because its command queue was unavailable: " ++ error))])

def sqlEndUnwrapped (commit : Bool) (refused : Text) (id : Text) (invocationId : Option Text) (txId : Text)
    (s : Supervisor) : Except Panic Handled :=
  if !s.admits config txId invocationId then
    .ok (refuseTx txId (.sqlExecResult id refused) (.sqlEndResult id "unknown transaction id") s)
  else
    match matchSession s.openTxs txId with
    | .error error => .ok (s, [.reply (.sqlEndResult id error)])
    | .ok () => (takeSession txId s).map fun s => (s, [.finish txId commit])

/-- `perform`, with what can panic. -/
def performUnwrapped (received : Received) (s : Supervisor) : Unwrapped :=
  match received with
  | .log level message => (logText message).map fun text => ((s, []), [(level, text)])
  | .other (.sqlBegin id invocationId) => (sqlBeginUnwrapped config chance id invocationId s).map (·, [])
  | .other (.sqlExec id invocationId txId) => (sqlExecUnwrapped config chance id invocationId txId s).map (·, [])
  | .other (.sqlCommit id invocationId txId) =>
    (sqlEndUnwrapped config true "transaction invocation expired or mismatched" id invocationId txId s).map (·, [])
  | .other (.sqlRollback id invocationId txId) =>
    (sqlEndUnwrapped config false "transaction invocation mismatched" id invocationId txId s).map (·, [])
  | .other msg => .ok (perform config chance msg s, [])

def performPublicUnwrapped (received : Received) (s : Supervisor) : Unwrapped :=
  match publicDenied chance received.inbound with
  | .error error => .ok ((publicAbandon error s, []), [])
  | .ok (some reply) => .ok ((s, [.reply reply]), [])
  | .ok none =>
    match received with
    | .other (.collectionOp id invocationId _) | .other (.remoteCollectionOp id invocationId _) =>
      .ok (publicRead chance id invocationId s, [])
    | received => performUnwrapped config chance received s

def performScopedUnwrapped (received : Received) (s : Supervisor) : Unwrapped :=
  if config.publicExecution then performPublicUnwrapped config chance received s
  else performUnwrapped config chance received s

/-- `message`, with what can panic. -/
def messageUnwrapped (received : Received) (s : Supervisor) : Unwrapped :=
  if config.approved then
    match approvedDenied chance received.inbound s with
    | (handled, .ok true) => .ok (handled, [])
    | ((s, effects), .error error) => .ok (({ s with awaiting := some (.abandon error) }, effects), [])
    | (_, .ok false) => performScopedUnwrapped config chance received s
  else performScopedUnwrapped config chance received s

end Handlers

/-! ## What panics -/

variable {config : Config} {chance : Chance} {s : Supervisor}

theorem sqlExecUnwrapped_eq (id : Text) (invocationId : Option Text) (txId : Text) :
    sqlExecUnwrapped config chance id invocationId txId s = .ok (sqlExec config chance id invocationId txId s) := by
  unfold sqlExecUnwrapped sqlExec
  cases s.admits config txId invocationId with
  | false => rfl
  | true =>
    cases matched : matchSession s.openTxs txId with
    | error error => rfl
    | ok =>
      -- `match_session` found the session that is taken here.
      have held : takeSession txId s = .ok (taken txId s) := if_pos (mem_of_matchSession matched)
      dsimp only
      rw [held]
      cases chance.admitted <;> cases chance.enqueued <;> rfl

theorem sqlEndUnwrapped_eq (commit : Bool) (refused id : Text) (invocationId : Option Text) (txId : Text) :
    sqlEndUnwrapped config commit refused id invocationId txId s =
      .ok (sqlEnd config commit refused id invocationId txId s) := by
  unfold sqlEndUnwrapped sqlEnd
  cases s.admits config txId invocationId with
  | false => rfl
  | true =>
    cases matched : matchSession s.openTxs txId with
    | error error => rfl
    | ok =>
      have held : takeSession txId s = .ok (taken txId s) := if_pos (mem_of_matchSession matched)
      dsimp only
      rw [held]
      rfl

theorem sqlBeginUnwrapped_eq {id : Text} {invocationId : Option Text}
    (named : config.approved = true → ∃ invocation, invocationId = some invocation) :
    sqlBeginUnwrapped config chance id invocationId s = .ok (sqlBegin config chance id invocationId s) := by
  unfold sqlBeginUnwrapped sqlBegin
  split
  case isTrue => rfl
  case isFalse =>
    split
    case isTrue => rfl
    case isFalse =>
      cases capabilityContext config.invocation s.workerProtocol s.activeInvocations invocationId with
      | error error => rfl
      | ok scope =>
        dsimp only
        split
        case isTrue => rfl
        case isFalse =>
          cases chance.begun with
          | failed error => rfl
          | session txId =>
            dsimp only
            split
            case isTrue approved =>
              obtain ⟨invocation, rfl⟩ := named approved
              rfl
            case isFalse => rfl

variable {msg : InboundMessage}

/-- Behind the gate of an approved worker only a log can panic. -/
theorem performUnwrapped_eq
    (gated : config.approved = true → approvedCapabilityDenial msg s.workerProtocol s.activeInvocations = .ok none) :
    performUnwrapped config chance (.other msg) s = .ok (perform config chance msg s, []) := by
  unfold performUnwrapped
  split
  case h_1 contradiction => cases contradiction
  case h_2 id invocationId same =>
    obtain rfl := Received.other.inj same
    have named (approved : config.approved = true) : ∃ invocation, invocationId = some invocation := by
      obtain ⟨-, invocation, found, -⟩ := live_of_approved rfl (gated approved)
      exact ⟨invocation, found⟩
    rw [sqlBeginUnwrapped_eq named]
    rfl
  case h_3 id invocationId txId same =>
    obtain rfl := Received.other.inj same
    rw [sqlExecUnwrapped_eq]
    rfl
  case h_4 id invocationId txId same =>
    obtain rfl := Received.other.inj same
    rw [sqlEndUnwrapped_eq]
    rfl
  case h_5 id invocationId txId same =>
    obtain rfl := Received.other.inj same
    rw [sqlEndUnwrapped_eq]
    rfl
  case h_6 same =>
    obtain rfl := Received.other.inj same
    rfl

theorem performPublicUnwrapped_eq
    (gated : config.approved = true → approvedCapabilityDenial msg s.workerProtocol s.activeInvocations = .ok none) :
    performPublicUnwrapped config chance (.other msg) s = .ok (performPublic config chance msg s, []) := by
  have inside : performUnwrapped config chance (.other msg) s = .ok (perform config chance msg s, []) :=
    performUnwrapped_eq gated
  unfold performPublicUnwrapped performPublic Received.inbound
  cases publicDenied chance msg with
  | error error => rfl
  | ok denied =>
    cases denied with
    | some reply => rfl
    | none =>
      cases msg with
      | collectionOp id invocationId op | remoteCollectionOp id invocationId op => rfl
      | _ => exact inside

theorem performScopedUnwrapped_eq
    (gated : config.approved = true → approvedCapabilityDenial msg s.workerProtocol s.activeInvocations = .ok none) :
    performScopedUnwrapped config chance (.other msg) s = .ok (performScoped config chance msg s, []) := by
  unfold performScopedUnwrapped performScoped
  split
  case isTrue => exact performPublicUnwrapped_eq gated
  case isFalse => exact performUnwrapped_eq gated

theorem messageUnwrapped_other (msg : InboundMessage) :
    messageUnwrapped config chance (.other msg) s = .ok (message config chance msg s, []) := by
  unfold messageUnwrapped message Received.inbound
  split
  case isFalse ordinary => exact performScopedUnwrapped_eq fun approved => absurd approved ordinary
  case isTrue =>
    cases same : approvedDenied chance msg s with
    | mk handled answer =>
      cases answer with
      | error => rfl
      | ok denied =>
        cases denied with
        | true => rfl
        | false => exact performScopedUnwrapped_eq fun _ => approvedDenied_eq_false same

theorem messageUnwrapped_log (level text : Text) :
    messageUnwrapped config chance (.log level text) s =
      (logText text).map fun written => ((s, []), [(level, written)]) := by
  have inside : performScopedUnwrapped config chance (.log level text) s =
      (logText text).map fun written => ((s, []), [(level, written)]) := by
    unfold performScopedUnwrapped
    split <;> rfl
  unfold messageUnwrapped
  split
  case isTrue => exact inside
  case isFalse => exact inside

theorem logText_ok_iff {message : Text} :
    (∃ written, logText message = .ok written) ↔ byteLength message ≤ LOG_LIMIT ∨ IsBoundary LOG_LIMIT message := by
  unfold logText
  split
  case isFalse fits => exact ⟨fun _ => .inl (Nat.le_of_not_lt fits), fun _ => ⟨message, rfl⟩⟩
  case isTrue long =>
    constructor
    · rintro ⟨written, cut⟩
      cases found : sliceTo LOG_LIMIT message with
      | none =>
        rw [found] at cut
        cases cut
      | some front => exact .inr (sliceTo_isSome_iff.mp ⟨front, found⟩)
    · intro reason
      obtain short | boundary := reason
      · exact absurd long (Nat.not_lt_of_le short)
      · obtain ⟨front, found⟩ := sliceTo_isSome_iff.mpr boundary
        rw [found]
        exact ⟨front, rfl⟩

/-- One byte below its limit the text holds a character of two. -/
def longLog : Text := List.replicate 8191 'a' ++ ['é']

theorem byteLength_replicate (count : Nat) : byteLength (List.replicate count 'a') = count := by
  induction count with
  | zero => rfl
  | succ count ih =>
    rw [List.replicate_succ, byteLength_cons, ih]
    exact Nat.add_comm 1 count

theorem longLog_cut : ¬ (byteLength longLog ≤ LOG_LIMIT ∨ IsBoundary LOG_LIMIT longLog) := by
  have front : byteLength (List.replicate 8191 'a') = 8191 := byteLength_replicate 8191
  have length : byteLength longLog = 8193 := by
    unfold longLog
    rw [byteLength_append, front]
    rfl
  rintro (short | ⟨cut, inside, bytes⟩)
  · rw [length] at short
    exact absurd short (by decide)
  · -- A prefix ends before the last character, or is the whole text.
    obtain whole | before := List.prefix_concat_iff.mp inside
    · rw [whole] at bytes
      exact absurd (length.symm.trans bytes) (by decide)
    · have shorter : byteLength cut ≤ 8191 := by
        obtain ⟨rest, same⟩ := before
        rw [← front, ← same, byteLength_append]
        exact Nat.le_add_right _ _
      rw [bytes] at shorter
      exact absurd shorter (by decide)

end RootCx.Worker
