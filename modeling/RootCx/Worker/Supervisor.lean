import Mathlib
import RootCx.Worker.Messages

/-! # The supervisor of a worker

The loop of `worker.rs` that owns one worker process: the books it keeps on
invocations, jobs and transactions, and what every command, message and
completion does to them.  A handler that closes an approved invocation awaits its
transactions and data operations; it is cut there, `awaiting` says where, and
`resume` is the code behind the await.  The loop handles nothing else meanwhile.

What the handlers do to agents, storage, events and logs is left out: it touches
none of these books.  A log is one that can be cut to its limit; where it cannot,
the task of the supervisor panics and no turn follows (`logText` of `Panics`).
-/

namespace RootCx.Worker

open RootCx.Text Function

variable {α β : Type*}

/-! ## State -/

inductive WorkerStatus where
  | starting
  | running
  | stopping
  | stopped
  | crashed
  deriving DecidableEq, Repr

structure Config where
  approved : Bool := false
  publicExecution : Bool := false
  agentBoot : Bool := false
  invocation : InvocationContext := .none

/-- How the process came back behind a crash. -/
inductive Restart where
  | gaveUp
  | stopped
  | spawned (result : Except Text Unit)

/-- Where the loop waits for approved transactions and data operations to end. -/
inductive Await where
  | finish (id : Text) (result : Except Text Json) (invocation : Text)
  | expire (request invocation : Text)
  | abandon (error : Text)
  | stop
  | crash (restart : Restart)

/-- The invocation whose transactions are awaited, or all of them. -/
def Await.scope : Await → Option Text
  | .finish _ _ invocation | .expire _ invocation => some invocation
  | .abandon _ | .stop | .crash _ => none

/-- The maps of the loop over invocations, jobs and transactions. -/
structure Books where
  activeInvocations : Finset Text := ∅
  rpcInvocations : Text → Option Text := fun _ => none
  jobInvocations : Int → Option Text := fun _ => none
  jobLeases : Finset Int := ∅
  jobPayloads : Int → Option Json := fun _ => none
  openTxs : Finset Text := ∅
  txInvocations : Text → Option Text := fun _ => none
  /-- `ApprovedTransactions`: the invocation that owns each database actor. -/
  actors : Text → Option Text := fun _ => none

structure Supervisor extends Books where
  status : WorkerStatus := .stopped
  /-- Whether the process's pipes are open: `ipc_writer` and `ipc_reader`. -/
  connected : Bool := false
  startupError : Option Text := none
  workerProtocol : Nat := 1
  pendingRpcs : Text → Bool := fun _ => false
  /-- What was sent to the registered receiver of a request. -/
  outcomes : Text → Option (Except Text Json) := fun _ => none
  awaiting : Option Await := none
  exited : Bool := false

/-- What a handler does outside the books. -/
inductive Effect where
  | reply (message : Reply)
  | begun (txId : Text) (invocationId : Option Text)
  /-- An approved begin that timed out: its actor has no session. -/
  | stray (invocationId : Option Text)
  | exec (txId : Text)
  | poison (txId : Text)
  | finish (txId : Text) (commit : Bool)
  | abort (txId : Text) (message : Reply)
  /-- The sessions of these transactions are dropped. -/
  | dropped (txIds : Finset Text)
  /-- `ApprovedTransactions::cancel`. -/
  | cancel (txId : Text)
  | dataTask (invocationId : Option Text)
  | complete (msgId : Int)
  | fail (msgId : Int)
  | deadLetter (msgId : Int) (payload : Json) (error : Text)

abbrev Handled := Supervisor × List Effect

/-! ## Maps -/

def put [DecidableEq α] (map : α → Option β) (key : α) (value : β) : α → Option β := update map key (some value)

def remove [DecidableEq α] (map : α → Option β) (key : α) : α → Option β := update map key none

@[simp] theorem put_self [DecidableEq α] (map : α → Option β) (key : α) (value : β) :
    put map key value key = some value := by
  simp [put]

@[simp] theorem remove_self [DecidableEq α] (map : α → Option β) (key : α) : remove map key key = none := by
  simp [remove]

variable {map : α → Option β} {key other : α} {value : β}

theorem put_of_ne [DecidableEq α] (different : other ≠ key) : put map key value other = map other := by
  simp [put, different]

theorem remove_of_ne [DecidableEq α] (different : other ≠ key) : remove map key other = map other := by
  simp [remove, different]

theorem of_remove_eq_some [DecidableEq α] (held : remove map key other = some value) :
    other ≠ key ∧ map other = some value := by
  by_cases same : other = key
  · rw [same, remove_self] at held
    cases held
  · exact ⟨same, (remove_of_ne same).symm.trans held⟩

theorem of_put_eq_some [DecidableEq α] {found : β} (held : put map key value other = some found) :
    other = key ∧ value = found ∨ other ≠ key ∧ map other = some found := by
  by_cases same : other = key
  · rw [same, put_self] at held
    exact .inl ⟨same, Option.some.inj held⟩
  · exact .inr ⟨same, (put_of_ne same).symm.trans held⟩

/-! ## Requests -/

def Supervisor.register (s : Supervisor) (id : Text) : Supervisor :=
  { s with
    pendingRpcs := update s.pendingRpcs id true
    outcomes := remove s.outcomes id }

def Supervisor.resolve (s : Supervisor) (id : Text) (result : Except Text Json) : Supervisor :=
  if s.pendingRpcs id then
    { s with
      pendingRpcs := update s.pendingRpcs id false
      outcomes := put s.outcomes id result }
  else s

/-- Resolve every request that is held with one error. -/
def Supervisor.resolveHeld (s : Supervisor) (error : Text) : Supervisor :=
  let failed (id : Text) : Bool := s.pendingRpcs id && (s.rpcInvocations id).isSome
  { s with
    pendingRpcs := fun id => s.pendingRpcs id && !failed id
    outcomes := fun id => if failed id then some (.error error) else s.outcomes id }

/-! ## Invocations -/

/-- The open transactions recorded against an invocation. -/
def Books.owned (b : Books) (invocation : Text) : Finset Text :=
  b.openTxs.filter (b.txInvocations · = some invocation)

def closeWorkflowInvocation (invocation : Text) (s : Supervisor) : Handled :=
  ({ s with
    activeInvocations := s.activeInvocations.erase invocation
    openTxs := s.openTxs.filter (s.txInvocations · ≠ some invocation)
    txInvocations := fun txId => if s.txInvocations txId = some invocation then none else s.txInvocations txId },
   [.dropped (s.owned invocation)])

/-- The actors that a close of a scope awaits are those it took out of the map. -/
def Books.closeActors (b : Books) (scope : Option Text) : Text → Option Text :=
  fun txId => if scope.isNone ∨ b.actors txId = scope then none else b.actors txId

def clearTransactions (s : Supervisor) : Handled :=
  ({ s with openTxs := ∅, txInvocations := fun _ => none }, [.dropped s.openTxs])

/-- Every book on invocations and jobs is emptied: a stop, a crash. -/
def clearBooks (s : Supervisor) : Handled :=
  clearTransactions { s with
    jobLeases := ∅
    jobPayloads := fun _ => none
    activeInvocations := ∅
    rpcInvocations := fun _ => none
    jobInvocations := fun _ => none }

def disconnect (s : Supervisor) : Supervisor := { s with connected := false }

/-! ## Behind an await -/

def restarted (config : Config) (restart : Restart) (s : Supervisor) : Supervisor :=
  match restart with
  | .gaveUp => { s with status := .crashed }
  | .stopped => { s with status := .stopped, exited := config.approved }
  | .spawned (.ok ()) => { s with connected := true, status := .running, startupError := none, workerProtocol := 1 }
  | .spawned (.error error) => { s with startupError := some error, status := .crashed }

def resume (config : Config) (wait : Await) (s : Supervisor) : Handled :=
  let s := { s with awaiting := none, actors := s.closeActors wait.scope }
  match wait with
  | .finish id result invocation =>
    let (s, effects) := closeWorkflowInvocation invocation s
    (s.resolve id result, effects)
  | .expire request invocation =>
    closeWorkflowInvocation invocation { s with rpcInvocations := remove s.rpcInvocations request }
  | .abandon error =>
    let (s, effects) := clearTransactions { s.resolveHeld error with
      rpcInvocations := fun _ => none
      activeInvocations := ∅ }
    ({ disconnect s with status := .crashed }, effects)
  | .stop =>
    let (s, effects) := clearBooks (disconnect s)
    ({ s with status := .stopped, startupError := none, exited := config.approved }, effects)
  | .crash restart =>
    let s := if config.approved then s.resolveHeld "approved worker crashed" else s
    let (s, effects) := clearBooks (disconnect s)
    (restarted config restart { s with workerProtocol := 1 }, effects)

/-! ## Commands -/

def start (spawned : Except Text Unit) (s : Supervisor) : Supervisor :=
  if s.status = .running ∨ s.status = .starting ∨ s.status = .crashed then s
  else
    match spawned with
    | .ok () => { s with connected := true, status := .running, startupError := none, workerProtocol := 1 }
    | .error error => { s with startupError := some error, status := .crashed }

/-- `SupervisorCommand::Rpc`, with the minted invocation and what the bounded send
    to the process came to. -/
def rpc (id invocation : Text) (sent : Except Text Unit) (s : Supervisor) : Supervisor :=
  if s.status ≠ .running then s
  else
    let s := { s with
      activeInvocations := insert invocation s.activeInvocations
      rpcInvocations := put s.rpcInvocations id invocation }
    let s := s.register id
    if s.connected then
      match sent with
      | .ok () => s
      | .error error =>
        let s := { s with
          activeInvocations := s.activeInvocations.erase invocation
          rpcInvocations := remove s.rpcInvocations id }
        s.resolve id (.error error)
    else s

def jobAlreadyInFlight (id : Text) (jobLeases : Finset Int) : Bool :=
  (parseI64 id).any (· ∈ jobLeases)

def job (id invocation : Text) (payload : Json) (sent : Bool) (s : Supervisor) : Supervisor :=
  if s.status ≠ .running then s
  else if jobAlreadyInFlight id s.jobLeases then s
  else
    let s := { s with activeInvocations := insert invocation s.activeInvocations }
    if s.connected then
      if !sent then { s with activeInvocations := s.activeInvocations.erase invocation }
      else
        match parseI64 id with
        | some msgId =>
          { s with
            jobInvocations := put s.jobInvocations msgId invocation
            jobLeases := insert msgId s.jobLeases
            jobPayloads := put s.jobPayloads msgId payload }
        | none => s
    else s

/-! ## Messages of the process -/

/-- What a transaction's begin came to. -/
inductive Begun where
  | session (txId : Text)
  | failed (error : Text)

/-- What the surroundings decide while a message is handled. -/
structure Chance where
  /-- The message is within its rate. -/
  admitted : Bool := true
  /-- The queue to the process has room. -/
  room : Bool := true
  begun : Begun := .failed []
  /-- An approved begin takes longer than it may. -/
  late : Bool := false
  /-- Whether the command queue of the transaction takes the command. -/
  enqueued : Except Text Unit := .ok ()

def rpcResponse (id : Text) (result : Option Json) (error : Option Text) (s : Supervisor) : Handled :=
  let result := match error with
    | some error => .error error
    | none => .ok (result.getD .null)
  match s.rpcInvocations id with
  | none => (s.resolve id result, [])
  | some invocation =>
    ({ s with
      rpcInvocations := remove s.rpcInvocations id
      activeInvocations := s.activeInvocations.erase invocation
      awaiting := some (.finish id result invocation) }, [])

/-- What a result does to the message of the queue it names. -/
def settlement (msgId : Int) (error : Option Text) (payload : Option Json) : Effect :=
  match error, payload with
  | some error, some payload => .deadLetter msgId payload error
  | some _, none => .fail msgId
  | none, _ => .complete msgId

/-- The invocation of a job is closed. -/
def closeJob (msgId : Int) (s : Supervisor) : Handled :=
  match s.jobInvocations msgId with
  | some invocation => closeWorkflowInvocation invocation { s with jobInvocations := remove s.jobInvocations msgId }
  | none => (s, [])

def jobResult (id : Text) (error : Option Text) (s : Supervisor) : Handled :=
  match parseI64 id with
  | none => (s, [])
  | some msgId =>
    let (s, effects) := closeJob msgId s
    ({ s with jobLeases := s.jobLeases.erase msgId, jobPayloads := remove s.jobPayloads msgId },
     effects ++ [settlement msgId error (s.jobPayloads msgId)])

/-- `CollectionOp`, `RemoteCollectionOp` and `SqlQuery` behind their own checks. -/
def dataOperation (config : Config) (chance : Chance) (invocationId : Option Text) (refused : Text → Reply)
    (s : Supervisor) : Handled :=
  if !chance.admitted then (s, [.reply (refused "rate limited (100 queries/s)")])
  else
    match capabilityContext config.invocation s.workerProtocol s.activeInvocations invocationId with
    | .error error => (s, [.reply (refused error)])
    | .ok _ => (s, [.dataTask invocationId])

def remoteCollectionOp (config : Config) (chance : Chance) (id : Text) (invocationId : Option Text)
    (s : Supervisor) : Handled :=
  if s.workerProtocol < 5 then (s, [.reply (.collectionOpResult id "ctx.remote requires worker protocol v5")])
  else if config.agentBoot then
    (s, [.reply (.collectionOpResult id "agents must use query_data or mutate_data for cross-app access")])
  else dataOperation config chance invocationId (.collectionOpResult id) s

def MAX_OPEN_TRANSACTIONS_PER_WORKER : Nat := 4

def opened (config : Config) (txId : Text) (invocationId : Option Text) (s : Supervisor) : Supervisor :=
  { s with
    actors := if config.approved then invocationId.elim s.actors (put s.actors txId) else s.actors
    openTxs := insert txId s.openTxs
    txInvocations := invocationId.elim s.txInvocations (put s.txInvocations txId) }

def sqlBegin (config : Config) (chance : Chance) (id : Text) (invocationId : Option Text) (s : Supervisor) : Handled :=
  let refused (error : Text) : Effect := .reply (.sqlBeginResult id none (some error))
  if MAX_OPEN_TRANSACTIONS_PER_WORKER ≤ s.openTxs.card then
    (s, [refused "too many open transactions in this worker (max 4)"])
  else if !chance.admitted then (s, [refused "rate limited (100 SQL operations/s)"])
  else
    match capabilityContext config.invocation s.workerProtocol s.activeInvocations invocationId with
    | .error error => (s, [refused error])
    | .ok _ =>
      if config.approved && chance.late then
        (s, [.stray invocationId, refused "approved transaction acquisition timed out"])
      else
        match chance.begun with
        | .failed error => (s, [refused error])
        | .session txId =>
          (opened config txId invocationId s, [.begun txId invocationId, .reply (.sqlBeginResult id (some txId) none)])

def TX_NONE : Text := "no open transaction"

def TX_MISMATCH : Text := "tx_id mismatch"

def matchSession (openTxs : Finset Text) (txId : Text) : Except Text Unit :=
  if txId ∈ openTxs then .ok ()
  else if openTxs = ∅ then .error TX_NONE
  else .error TX_MISMATCH

/-- The session of a transaction is taken out of the books. -/
def taken (txId : Text) (s : Supervisor) : Supervisor :=
  { s with openTxs := s.openTxs.erase txId, txInvocations := remove s.txInvocations txId }

def Supervisor.admits (s : Supervisor) (config : Config) (txId : Text) (invocationId : Option Text) : Bool :=
  txMessageAdmitted config.invocation s.workerProtocol s.activeInvocations s.txInvocations txId invocationId

/-- The answer to a transaction message that is not admitted: the transaction it
    names is aborted. -/
def refuseTx (txId : Text) (aborted unknown : Reply) (s : Supervisor) : Handled :=
  if txId ∈ s.openTxs then (taken txId s, [.abort txId aborted])
  else (s, [.reply unknown])

def sqlExec (config : Config) (chance : Chance) (id : Text) (invocationId : Option Text) (txId : Text)
    (s : Supervisor) : Handled :=
  if !s.admits config txId invocationId then
    refuseTx txId (.sqlExecResult id "transaction invocation is unknown, expired, or mismatched")
      (.sqlExecResult id "unknown transaction id") s
  else
    match matchSession s.openTxs txId with
    | .error error => (s, [.reply (.sqlExecResult id error)])
    | .ok () =>
      match chance.admitted, chance.enqueued with
      | false, .ok () => (s, [.poison txId, .reply (.sqlExecResult id "rate limited (100 queries/s)")])
      | false, .error error =>
        (taken txId s, [.abort txId (.sqlExecResult id
          ("rate limited (100 queries/s); transaction aborted because its command queue was unavailable: " ++
            error))])
      | true, .ok () => (s, [.exec txId])
      | true, .error error =>
        (taken txId s, [.abort txId (.sqlExecResult id
          ("transaction aborted because its command queue was unavailable: " ++ error))])

def sqlEnd (config : Config) (commit : Bool) (refused : Text) (id : Text) (invocationId : Option Text) (txId : Text)
    (s : Supervisor) : Handled :=
  if !s.admits config txId invocationId then
    refuseTx txId (.sqlExecResult id refused) (.sqlEndResult id "unknown transaction id") s
  else
    match matchSession s.openTxs txId with
    | .error error => (s, [.reply (.sqlEndResult id error)])
    | .ok () => (taken txId s, [.finish txId commit])

def sqlCommit (config : Config) : Text → Option Text → Text → Supervisor → Handled :=
  sqlEnd config true "transaction invocation expired or mismatched"

def sqlRollback (config : Config) : Text → Option Text → Text → Supervisor → Handled :=
  sqlEnd config false "transaction invocation mismatched"

def InboundMessage.transaction : InboundMessage → Option Text
  | .sqlExec _ _ txId | .sqlCommit _ _ txId | .sqlRollback _ _ txId => some txId
  | _ => none

/-- The transaction a denied message names loses its session. -/
def denyTransaction (msg : InboundMessage) (s : Supervisor) : Handled :=
  match msg.transaction with
  | some txId => (taken txId s, [.cancel txId, .dropped (s.openTxs ∩ {txId})])
  | none => (s, [])

/-- The gate of an approved worker: whether the message was answered here, or the
    reason to end the worker. -/
def approvedDenied (chance : Chance) (msg : InboundMessage) (s : Supervisor) : Handled × Except Text Bool :=
  match approvedCapabilityDenial msg s.workerProtocol s.activeInvocations with
  | .error error => ((s, []), .error error)
  | .ok (some reply) =>
    let (s, effects) := denyTransaction msg s
    if chance.room then ((s, effects ++ [.reply reply]), .ok true)
    else ((s, effects), .error "approved worker IPC response backlog exceeded")
  | .ok none =>
    match msg with
    | .rpcResponse id _ _ =>
      if (s.rpcInvocations id).isNone then ((s, []), .error "unknown approved action response")
      else ((s, []), .ok false)
    | _ => ((s, []), .ok false)

def publicDenied (chance : Chance) (msg : InboundMessage) : Except Text (Option Reply) :=
  match publicCapabilityDenial msg with
  | .error error => .error error
  | .ok (some reply) =>
    if chance.room then .ok (some reply) else .error "public worker IPC response backlog exceeded"
  | .ok none => .ok none

def publicInvocationActive (workerProtocol : Nat) (active : Finset Text) (invocationId : Option Text) :
    Except Text Unit :=
  if workerProtocol < 5 then .error "public collection reads require worker protocol v5"
  else
    match invocationId with
    | none => .error "missing invocation id"
    | some id => if id ∈ active then .ok () else .error "unknown or expired invocation id"

def publicRead (chance : Chance) (id : Text) (invocationId : Option Text) (s : Supervisor) : Handled :=
  match publicInvocationActive s.workerProtocol s.activeInvocations invocationId with
  | .error error => (s, [.reply (.collectionOpResult id error)])
  | .ok () =>
    if chance.admitted then (s, [.dataTask invocationId])
    else (s, [.reply (.collectionOpResult id "rate limited (100 queries/s)")])

/-- A public worker's message that has no answer ends its process; transactions
    and jobs are not looked at. -/
def publicAbandon (error : Text) (s : Supervisor) : Supervisor :=
  { disconnect (s.resolveHeld error) with
    rpcInvocations := fun _ => none
    activeInvocations := ∅
    status := .crashed }

/-- The message behind the gates. -/
def perform (config : Config) (chance : Chance) (msg : InboundMessage) (s : Supervisor) : Handled :=
  match msg with
  | .discover protocol => ({ s with workerProtocol := protocol }, [])
  | .rpcResponse id result error => rpcResponse id result error s
  | .jobResult id error => jobResult id error s
  | .collectionOp id invocationId _ => dataOperation config chance invocationId (.collectionOpResult id) s
  | .remoteCollectionOp id invocationId _ => remoteCollectionOp config chance id invocationId s
  | .sqlQuery id invocationId => dataOperation config chance invocationId (.sqlQueryResult id) s
  | .sqlBegin id invocationId => sqlBegin config chance id invocationId s
  | .sqlExec id invocationId txId => sqlExec config chance id invocationId txId s
  | .sqlCommit id invocationId txId => sqlCommit config id invocationId txId s
  | .sqlRollback id invocationId txId => sqlRollback config id invocationId txId s
  -- Agents, storage, events and logs.
  | _ => (s, [])

def performPublic (config : Config) (chance : Chance) (msg : InboundMessage) (s : Supervisor) : Handled :=
  match publicDenied chance msg with
  | .error error => (publicAbandon error s, [])
  | .ok (some reply) => (s, [.reply reply])
  | .ok none =>
    match msg with
    | .collectionOp id invocationId _ | .remoteCollectionOp id invocationId _ => publicRead chance id invocationId s
    | msg => perform config chance msg s

def performScoped (config : Config) (chance : Chance) (msg : InboundMessage) (s : Supervisor) : Handled :=
  if config.publicExecution then performPublic config chance msg s else perform config chance msg s

def message (config : Config) (chance : Chance) (msg : InboundMessage) (s : Supervisor) : Handled :=
  if config.approved then
    match approvedDenied chance msg s with
    | (handled, .ok true) => handled
    | ((s, effects), .error error) => ({ s with awaiting := some (.abandon error) }, effects)
    | (_, .ok false) => performScoped config chance msg s
  else performScoped config chance msg s

/-! ## The loop -/

inductive Event where
  /-- A bounded send to an approved process fails. -/
  | sendFailed
  | txDone (txId : Text)
  | expiry (request invocation : Text)
  | start (spawned : Except Text Unit)
  | stop
  | rpc (id invocation : Text) (sent : Except Text Unit)
  | job (id invocation : Text) (payload : Json) (sent : Bool)
  | message (msg : InboundMessage) (chance : Chance)
  /-- The pipe of the process is at its end. -/
  | eof (restart : Restart)

def handle (config : Config) (event : Event) (s : Supervisor) : Handled :=
  match event with
  | .sendFailed =>
    if s.connected && config.approved then
      ({ s with awaiting := some (.abandon "approved worker unresponsive") }, [])
    else (s, [])
  | .txDone txId => ({ taken txId s with actors := remove s.actors txId }, [.dropped (s.openTxs ∩ {txId})])
  | .expiry request invocation =>
    if s.rpcInvocations request = some invocation then
      ({ s with awaiting := some (.expire request invocation) }, [])
    else (s, [])
  | .start spawned => (start spawned s, [])
  | .stop => ({ s with awaiting := some .stop }, [])
  | .rpc id invocation sent => (rpc id invocation sent s, [])
  | .job id invocation payload sent => (job id invocation payload sent s, [])
  | .message msg chance => if s.connected then message config chance msg s else (s, [])
  | .eof restart =>
    if s.connected && !decide (s.status = .stopping ∨ s.status = .stopped) then
      ({ s with awaiting := some (.crash restart) }, [])
    else (s, [])

/-- One turn of the loop: an event is handled when nothing is awaited, and an
    await ends by `none`. -/
def turn (config : Config) (s : Supervisor) (event : Option Event) : Option Handled :=
  if s.exited then none
  else
    match event, s.awaiting with
    | some event, none => some (handle config event s)
    | none, some wait => some (resume config wait s)
    | _, _ => none

end RootCx.Worker
