import RootCx.CrossApp.Grants
import RootCx.Lib.Runs

/-! # The transactions on grants

The transactions of `governance/cross_app.rs` run side by side, and each of their
statements sees what was committed when it starts.  What keeps them apart is advisory
locks, held to the end of a transaction: one for an app, taken when an installation is
registered or deactivated and when a grant is created, and one for a grant, taken around
every change of it and by an operation that runs under it.

Row locks are left out, and so are the sessions that hold the lock of an app across the
transactions of an installation: both only rule out runs.  A transaction may fail at any
statement, and all that it leaves behind then is the end of its locks.
-/

namespace RootCx.CrossApp

open RootCx.Text RootCx.Crud Function

/-! ## The committed rows -/

inductive AppStatus where
  | installed
  | system
  | other
  deriving DecidableEq, Repr

structure AppRow where
  status : AppStatus
  /-- The entities of the manifest, with their fields as `field_types` reads them. -/
  dataContract : List (Text × FieldMap)

def AppRow.usable (app : AppRow) : Bool := app.status = .installed || app.status = .system

/-- A row of `cross_app_grant_audit`. -/
structure GrantAudit where
  grantId : Uuid
  operation : Text
  actorId : Option Uuid
  reason : Text
  beforeState : Option CollectionGrant
  afterState : CollectionGrant
  deriving DecidableEq, Repr

structure Store where
  now : Time
  apps : Text → Option AppRow
  installations : List Installation
  /-- The ids of the grants, in the order they were created. -/
  ids : List Uuid
  grants : Uuid → Option GrantRow
  audit : List GrantAudit

namespace Store

variable (store : Store)

/-- The history of a grant. -/
def history (id : Uuid) : List GrantAudit := store.audit.filter (·.grantId = id)

def activeInstallation (appId : Text) : Option Installation :=
  store.installations.find? fun i => i.appId = appId && i.active

/-- `id IN (SELECT id FROM app_installations WHERE app_id = $1)` -/
def ofApp (appId : Text) (id : Uuid) : Bool := (installation store.installations id).any (·.appId = appId)

/-- The installation is an active one of the app. -/
def activeOf (appId : Text) (id : Uuid) : Bool :=
  (installation store.installations id).any fun i => i.appId = appId && i.active

/-- The ids of the rows that a statement selects, in ascending order. -/
def select (takes : GrantRow → Bool) : List Uuid :=
  (store.ids.filter fun id => (store.grants id).any takes).insertionSort (· ≤ ·)

def overdue (row : GrantRow) : Bool := row.status.isOpen && !row.unexpired store.now

/-- The selection of `deactivate_installation_tx`. -/
def involves (appId : Text) (row : GrantRow) : Bool :=
  row.status.isOpen && (store.ofApp appId row.consumerInstallationId || store.ofApp appId row.providerInstallationId)

/-- The joined conditions of an operation: both apps are there and the grant is bound to
    their active installations. -/
def bound (row : GrantRow) : Bool :=
  store.activeOf row.consumerApp row.consumerInstallationId && store.activeOf row.providerApp row.providerInstallationId &&
    (store.apps row.consumerApp).any AppRow.usable && (store.apps row.providerApp).any AppRow.usable

def inForce (row : GrantRow) : Bool := row.status = .active && row.unexpired store.now && store.bound row

end Store

/-! ## Requests -/

structure CreateGrantRequest where
  consumerApp : Text
  providerApp : Text
  entity : Text
  actions : List Text
  fields : Option (List Text)
  writeFields : Option (List Text)
  expiresAt : Option Time
  reason : Text

/-- An operation of a consumer on a collection, with the fields that it names. -/
structure OperationRequest where
  consumerApp : Text
  providerApp : Text
  entity : Text
  action : Text
  requestedFields : List Text
  writtenFields : List Text

def isLower (c : Char) : Bool := isAsciiLower c

def validIdentifier (value : Text) : Bool :=
  value.head?.any isLower && value.all fun c => isLower c || c.isDigit || c = '_'

def validAppId (value : Text) : Bool :=
  value.head?.any isLower && value.all fun c => isLower c || c.isDigit || c = '_' || c = '-'

/-- The names of an operation, checked before anything is read. -/
def OperationRequest.named (request : OperationRequest) : Bool :=
  validAppId request.consumerApp && validAppId request.providerApp && validIdentifier request.entity &&
    request.consumerApp ≠ request.providerApp && validAction request.action

/-- The entity is one of the manifest of the provider. -/
def Store.targetExists (store : Store) (request : OperationRequest) : Bool :=
  (store.apps request.providerApp).any fun app => app.usable && app.dataContract.any (·.1 = request.entity)

/-- The grant that `authorize_cross_app_operation` finds for an operation. -/
def Store.grantFor (store : Store) (request : OperationRequest) : Option GrantRow :=
  ((store.ids.filterMap store.grants).filter fun row =>
    row.consumerApp = request.consumerApp && row.providerApp = request.providerApp && row.entity = request.entity &&
      store.inForce row && row.actions.elem request.action).maxOn? (·.version)

/-- The grant and its scope; the refusals are one and the same to the consumer. -/
def Store.authorize (store : Store) (request : OperationRequest) : Option GrantRow :=
  (store.grantFor request).filter fun row =>
    match authorizeScope row request.action request.requestedFields request.writtenFields with
    | .ok () => true
    | .error _ => false

/-- The check of `lock_cross_app_read_in_tx`, on what a capability says. -/
def Store.recheck (store : Store) (authority : AuthorizedRead) : Option GrantRow :=
  (store.grants authority.grantId).filter fun row =>
    row.consumerApp = authority.consumerApp && row.providerApp = authority.providerApp &&
      row.entity = authority.entity && row.version = authority.grantVersion &&
      row.consumerInstallationId = authority.consumerInstallationId &&
      row.providerInstallationId = authority.providerInstallationId && store.inForce row &&
      row.actions.elem authority.action && row.fieldSnapshot = authority.fieldSnapshot &&
      row.writeFieldSnapshot = authority.writeFieldSnapshot

/-! ## Transactions -/

inductive Job where
  /-- A grant is approved, disabled, enabled or revoked. -/
  | change (id : Uuid) (update : GrantUpdate) (actor : Uuid)
  /-- `expire_stale_grants` -/
  | sweep
  | deactivate (appId : Text) (actor : Option Uuid) (reason : Text)
  | register (appId : Text) (id : Uuid)
  | create (request : CreateGrantRequest) (id actor : Uuid)
  | operate (request : OperationRequest)

/-- How the changes that a transaction makes are carried out. -/
def Job.update : Job → GrantUpdate
  | .change _ update _ => update
  | .deactivate _ _ _ => autoRevokeGrant
  | _ => expireGrant

def Job.auditActor : Job → Option Uuid
  | .change _ _ actor => some actor
  | .deactivate _ actor _ => actor
  | _ => none

def Job.auditReason : Job → Text
  | .change _ update _ => update.reason
  | .deactivate _ _ reason => reason
  | _ => "grant expired"

/-- Whether a change that finds no row to take fails the transaction. -/
def Job.strict : Job → Bool
  | .change _ _ _ => true
  | _ => false

/-- How far the change of one grant has come: its lock, the row before, the update, the
    row behind it, and then its entry in the history. -/
inductive Point where
  | idle
  | locked
  | loaded (before : CollectionGrant)
  | updated (before : CollectionGrant) (row : GrantRow)
  | reloaded (before : CollectionGrant) (row : GrantRow) (after : CollectionGrant)

inductive Stage where
  | begun
  /-- The lock of the app is held; of two apps, that of the first one. -/
  | held
  | bothHeld
  | consumerFound (consumer : Uuid)
  | bothFound (consumer provider : Uuid)
  /-- No installation of the app is active. -/
  | vacant
  /-- The installations of the app are inactive. -/
  | retired
  /-- Grants are changed one after the other; a new one may be inserted at the end. -/
  | changing (todo : List Uuid) (point : Point) (draft : Option GrantRow)
  | inserted (row : GrantRow)
  | described (row : GrantRow) (after : CollectionGrant)
  | targeted
  | authorized (row : GrantRow)
  | guarded (row : GrantRow)
  /-- The operation may run; `seen` is what the check saw. -/
  | checked (row : GrantRow) (seen : Store)
  | finished
  | ended

/-- A row that is written when the transaction commits, with its entry in the history. -/
structure Change where
  row : GrantRow
  entry : GrantAudit

structure Tx where
  job : Job
  began : Time
  stage : Stage
  changes : List Change
  retired : List Uuid
  arrival : Option Installation

/-- An operation that has run: the row that it was authorized with, what was committed
    when its grant was checked again and what was when it ran. -/
structure Operation where
  authority : AuthorizedRead
  row : GrantRow
  recheck : Store
  current : Store

structure State where
  store : Store
  appLocks : Text → Option Nat
  grantLocks : Uuid → Option Nat
  tasks : List Tx
  operations : List Operation

namespace State

variable (s : State)

def put (i : Nat) (t : Tx) : State := { s with tasks := s.tasks.set i t }

/-- The transaction is over: its locks are free. -/
def release (i : Nat) (t : Tx) : State :=
  { s with
    appLocks := fun app => if s.appLocks app = some i then none else s.appLocks app
    grantLocks := fun id => if s.grantLocks id = some i then none else s.grantLocks id
    tasks := s.tasks.set i { t with stage := .ended, changes := [], retired := [], arrival := none } }

def appFree (i : Nat) (app : Text) : Bool := s.appLocks app = none || s.appLocks app = some i

def grantFree (i : Nat) (id : Uuid) : Bool := s.grantLocks id = none || s.grantLocks id = some i

def lockApp (i : Nat) (app : Text) : State := { s with appLocks := update s.appLocks app (some i) }

def lockGrant (i : Nat) (id : Uuid) : State := { s with grantLocks := update s.grantLocks id (some i) }

end State

/-! ## The statements -/

/-- The rows as a transaction sees them. -/
def Tx.view (t : Tx) (store : Store) (id : Uuid) : Option GrantRow :=
  ((t.changes.find? (·.row.id = id)).map (·.row)).or (store.grants id)

/-- The unique index on the pending and active grants of a relationship. -/
def Tx.collides (t : Tx) (store : Store) (row : GrantRow) : Bool :=
  (row.status = .pending || row.status = .active) && store.ids.any fun id =>
    id ≠ row.id && (t.view store id).any fun other =>
      (other.status = .pending || other.status = .active) && other.entity = row.entity &&
        other.consumerInstallationId = row.consumerInstallationId &&
        other.providerInstallationId = row.providerInstallationId

/-- The first lock that `begin_grant_creation` tries, and the second one. -/
def CreateGrantRequest.locks (request : CreateGrantRequest) : Text × Text :=
  if request.consumerApp < request.providerApp then (request.consumerApp, request.providerApp)
  else (request.providerApp, request.consumerApp)

/-- The row of a new grant, from what was found under the locks. -/
def draftOf (store : Store) (request : CreateGrantRequest) (id actor : Uuid) (began : Time) (consumer provider : Uuid) :
    Option GrantRow := do
  let app ← (store.apps request.providerApp).filter AppRow.usable
  let (_, types) ← app.dataContract.find? (·.1 = request.entity)
  let actions ← (validateActions request.actions).toOption
  let fields ← (validateRequestedFields types request.fields).toOption
  let writeFields ← (validateWriteFields types actions request.writeFields).toOption
  pure {
    id, consumerApp := request.consumerApp, providerApp := request.providerApp
    consumerInstallationId := consumer, providerInstallationId := provider, entity := request.entity
    actions, fieldSnapshot := fields, writeFieldSnapshot := writeFields
    status := .pending, version := 1, expiresAt := request.expiresAt, requestedBy := actor, approvedBy := none
    reason := request.reason, createdAt := began, updatedAt := began, revokedAt := none }

/-- `expire_matching_grants_tx` sweeps the relationship that is replaced only. -/
def sameRelation (row draft : GrantRow) : Bool :=
  row.consumerInstallationId = draft.consumerInstallationId &&
    row.providerInstallationId = draft.providerInstallationId && row.entity = draft.entity

def nextGeneration (installations : List Installation) (appId : Text) : Nat :=
  ((installations.filter (·.appId = appId)).map (·.generation)).foldr max 0 + 1

/-- One more statement of the loop over the grants `id :: rest`. -/
def changeNext (s : State) (i : Nat) (t : Tx) (id : Uuid) (rest : List Uuid) (draft : Option GrantRow) :
    Point → Option State
  | .idle =>
    if s.grantFree i id then
      some ((s.lockGrant i id).put i { t with stage := .changing (id :: rest) .locked draft })
    else none
  | .locked =>
    match (s.store.grants id).bind (describe s.store.installations) with
    | some before => some (s.put i { t with stage := .changing (id :: rest) (.loaded before) draft })
    | none => some (s.release i t)
  | .loaded before =>
    match (s.store.grants id).bind (t.job.update.apply t.began s.store.now) with
    | some row =>
      if t.collides s.store row then some (s.release i t)
      else some (s.put i { t with stage := .changing (id :: rest) (.updated before row) draft })
    | none =>
      if t.job.strict then some (s.release i t) else some (s.put i { t with stage := .changing rest .idle draft })
  | .updated before row =>
    match describe s.store.installations row with
    | some after => some (s.put i { t with stage := .changing (id :: rest) (.reloaded before row after) draft })
    | none => some (s.release i t)
  | .reloaded before row after =>
    let entry : GrantAudit := ⟨id, t.job.update.operation, t.job.auditActor, t.job.auditReason, some before, after⟩
    some (s.put i { t with stage := .changing rest .idle draft, changes := t.changes ++ [⟨row, entry⟩] })

/-- The next statement of a transaction; nothing where it waits for a lock or has none. -/
def advance (s : State) (i : Nat) (t : Tx) : Option State :=
  match t.stage, t.job with
  | .begun, .change id _ _ => some (s.put i { t with stage := .changing [id] .idle none })
  | .begun, .sweep => some (s.put i { t with stage := .changing (s.store.select s.store.overdue) .idle none })
  | .begun, .deactivate appId _ _ | .begun, .register appId _ =>
    if s.appFree i appId then some ((s.lockApp i appId).put i { t with stage := .held }) else none
  | .begun, .create request _ _ =>
    if s.appFree i request.locks.1 then some ((s.lockApp i request.locks.1).put i { t with stage := .held })
    else some (s.release i t)
  | .begun, .operate request =>
    if request.named && s.store.targetExists request then some (s.put i { t with stage := .targeted })
    else some (s.release i t)
  | .held, .deactivate appId _ _ =>
    let retired := (s.store.installations.filter fun inst => inst.appId = appId && inst.active).map (·.id)
    some (s.put i { t with stage := .retired, retired })
  | .held, .register appId _ =>
    match s.store.activeInstallation appId with
    | some _ => some (s.put i { t with stage := .finished })
    | none => some (s.put i { t with stage := .vacant })
  | .held, .create request _ _ =>
    if s.appFree i request.locks.2 then some ((s.lockApp i request.locks.2).put i { t with stage := .bothHeld })
    else some (s.release i t)
  | .vacant, .register appId id =>
    let arrival : Installation := ⟨id, appId, nextGeneration s.store.installations appId, true⟩
    some (s.put i { t with stage := .finished, arrival := some arrival })
  | .retired, .deactivate appId _ _ =>
    some (s.put i { t with stage := .changing (s.store.select (s.store.involves appId)) .idle none })
  | .bothHeld, .create request _ _ =>
    match s.store.activeInstallation request.consumerApp with
    | some consumer => some (s.put i { t with stage := .consumerFound consumer.id })
    | none => some (s.release i t)
  | .consumerFound consumer, .create request _ _ =>
    match s.store.activeInstallation request.providerApp with
    | some provider => some (s.put i { t with stage := .bothFound consumer provider.id })
    | none => some (s.release i t)
  | .bothFound consumer provider, .create request id actor =>
    match draftOf s.store request id actor t.began consumer provider with
    | some draft =>
      let stale := s.store.select fun row => s.store.overdue row && sameRelation row draft
      some (s.put i { t with stage := .changing stale .idle (some draft) })
    | none => some (s.release i t)
  | .changing (id :: rest) point draft, _ => changeNext s i t id rest draft point
  | .changing [] .idle none, _ => some (s.put i { t with stage := .finished })
  | .changing [] .idle (some draft), _ =>
    -- the primary key and the index
    if (t.view s.store draft.id).isSome || t.collides s.store draft then some (s.release i t)
    else some (s.put i { t with stage := .inserted draft })
  | .inserted row, _ =>
    match describe s.store.installations row with
    | some after => some (s.put i { t with stage := .described row after })
    | none => some (s.release i t)
  | .described row after, .create request id actor =>
    let entry : GrantAudit := ⟨id, "created", some actor, request.reason, none, after⟩
    some (s.put i { t with stage := .finished, changes := t.changes ++ [⟨row, entry⟩] })
  | .targeted, .operate request =>
    match s.store.authorize request with
    | some row => some (s.put i { t with stage := .authorized row })
    | none => some (s.release i t)
  | .authorized row, _ =>
    if s.grantFree i row.id then some ((s.lockGrant i row.id).put i { t with stage := .guarded row }) else none
  | .guarded row, .operate request =>
    match s.store.recheck (capability row request.action) with
    | some _ => some (s.put i { t with stage := .checked row s.store })
    | none => some (s.release i t)
  | .checked row seen, .operate request =>
    some { s with operations := s.operations ++ [⟨capability row request.action, row, seen, s.store⟩] }
  | _, _ => none

/-! ## Commit -/

/-- Where a row with the id of a new one has been committed, the primary key refuses it. -/
def Tx.fits (t : Tx) (store : Store) : Bool :=
  t.changes.all (fun change => change.entry.beforeState.isSome || (store.grants change.row.id).isNone) &&
    t.arrival.all fun arrival => (installation store.installations arrival.id).isNone &&
      !store.installations.any fun other => other.appId = arrival.appId && (other.active || other.generation = arrival.generation)

def retire (ids : List Uuid) (installations : List Installation) : List Installation :=
  installations.map fun inst => if inst.id ∈ ids then { inst with active := false } else inst

def Store.write (store : Store) (change : Change) : Store :=
  { store with
    ids := if (store.grants change.row.id).isSome then store.ids else store.ids ++ [change.row.id]
    grants := update store.grants change.row.id (some change.row)
    audit := store.audit ++ [change.entry] }

def Tx.apply (t : Tx) (store : Store) : Store :=
  t.changes.foldl Store.write
    { store with installations := retire t.retired store.installations ++ t.arrival.toList }

def commit (s : State) (i : Nat) (t : Tx) : Option State :=
  match t.stage with
  | .finished =>
    if t.fits s.store then some ({ s with store := t.apply s.store }.release i t) else some (s.release i t)
  | .checked _ _ => some (s.release i t)
  | _ => none

/-! ## Steps -/

inductive Act where
  | tick (now : Time)
  /-- The apps change under transactions of their own. -/
  | setApp (appId : Text) (row : Option AppRow)
  /-- `create_workflow` adds the installation of a new app without a lock. -/
  | workflow (appId : Text) (id : Uuid)
  | begin (job : Job)
  | advance (i : Nat)
  | commit (i : Nat)
  /-- The transaction fails: an error, a deadlock or a lost connection. -/
  | abort (i : Nat)

def step (s : State) : Act → Option State
  | .tick now => if s.store.now ≤ now then some { s with store := { s.store with now } } else none
  | .setApp appId row => some { s with store := { s.store with apps := update s.store.apps appId row } }
  | .workflow appId id =>
    let arrival : Installation := ⟨id, appId, 1, true⟩
    if (installation s.store.installations id).isNone && !s.store.installations.any fun other =>
        other.appId = appId && (other.active || other.generation = 1) then
      some { s with store := { s.store with installations := s.store.installations ++ [arrival] } }
    else none
  | .begin job =>
    some { s with tasks := s.tasks ++ [{ job, began := s.store.now, stage := .begun, changes := [], retired := [], arrival := none }] }
  | .advance i => (s.tasks[i]?).bind (advance s i)
  | .commit i => (s.tasks[i]?).bind (commit s i)
  | .abort i => (s.tasks[i]?).bind fun t => some (s.release i t)

/-- Apps and installations without a grant. -/
def start (now : Time) (apps : Text → Option AppRow) (installations : List Installation) : State where
  store := { now, apps, installations, ids := [], grants := fun _ => none, audit := [] }
  appLocks _ := none
  grantLocks _ := none
  tasks := []
  operations := []

end RootCx.CrossApp
