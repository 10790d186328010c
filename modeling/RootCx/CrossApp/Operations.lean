import RootCx.Authority.Perms
import RootCx.CrossApp.Fields
import RootCx.CrossApp.Mutations

/-! # One operation on another app

`execute` of `governance/cross_app_operations.rs`: a call is authorized, its attempt is
written to the audit, and it runs in one transaction of the provider app.  Every step
may fail, so a call is run against an outcome for each of its steps: an audit entry may
also be written without the caller ever hearing of it, and so may the commit.
-/

namespace RootCx.CrossApp.Operations

open RootCx.Text RootCx.Crud RootCx.CrossApp.Mutations

/-! ## Calls -/

inductive Origin where
  | collection
  | queryTool
  | delegatedAgent
  deriving DecidableEq, Repr

structure ContextState where
  userId : Option Uuid
  effectivePerms : List Text
  auditActorId : Option Uuid
  auditDelegatorId : Option Uuid

structure Call where
  consumerApp : Text
  providerApp : Text
  op : Text
  entity : Text
  data : Json
  state : Option ContextState
  idempotencyKey : Option Text
  origin : Origin
  correlationId : Uuid

def actionOf (op : Text) : Option Text :=
  if op ∈ ["find".toList, "list".toList, "findAll".toList, "findPage".toList] then some ACTION_LIST
  else if op = "findOne" then some ACTION_READ
  else if op ∈ ["create".toList, "insert".toList, "bulk_create".toList] then some ACTION_CREATE
  else if op = "update" then some ACTION_UPDATE
  else if op = "delete" then some ACTION_DELETE
  else none

def isMutation (action : Text) : Bool := action ∈ [ACTION_CREATE, ACTION_UPDATE, ACTION_DELETE]

/-- Whether an operation writes. -/
def mutates (op : Text) : Bool := (actionOf op).any isMutation

def authorizationKind (origin : Origin) : Text :=
  if origin = .delegatedAgent then "agent_delegation" else "application_grant"

/-! ## The audit -/

inductive Outcome where
  | denied
  | started
  | success
  | error
  deriving DecidableEq, Repr

/-- A row of `cross_app_read_audit`. -/
structure Entry where
  consumerApp : Text
  providerApp : Text
  consumerInstallationId : Option Uuid
  providerInstallationId : Option Uuid
  entity : Text
  action : Text
  grantId : Option Uuid
  grantVersion : Option Nat
  principalId : Option Uuid
  responsibleHumanId : Option Uuid
  outcome : Outcome
  denialCategory : Option Text
  rowCount : Option Nat
  correlationId : Uuid
  projection : List Text
  authorizationKind : Text
  deriving DecidableEq, Repr

/-- The columns that every entry of an attempt shares. -/
structure Attempt where
  call : Call
  authority : Option AuthorizedRead
  action : Text
  principal : Option Uuid
  responsibleHuman : Option Uuid

def Attempt.entry (attempt : Attempt) (outcome : Outcome) (denialCategory : Option Text) (rowCount : Option Nat) : Entry where
  consumerApp := attempt.call.consumerApp
  providerApp := attempt.call.providerApp
  consumerInstallationId := attempt.authority.map (·.consumerInstallationId)
  providerInstallationId := attempt.authority.map (·.providerInstallationId)
  entity := attempt.call.entity
  action := attempt.action
  grantId := attempt.authority.map (·.grantId)
  grantVersion := attempt.authority.map (·.grantVersion)
  principalId := attempt.principal
  responsibleHumanId := attempt.responsibleHuman
  outcome := outcome
  denialCategory := denialCategory
  rowCount := rowCount
  correlationId := attempt.call.correlationId
  projection := (attempt.authority.map (·.fieldSnapshot)).getD []
  authorizationKind := authorizationKind attempt.call.origin

/-! ## The outcomes of the steps -/

inductive ApiError where
  | notFound (message : Text)
  | forbidden (message : Text)
  | other (message : Text)

/-- How the write of an audit entry outside the transaction ends.  One that is not
    acknowledged is written. -/
inductive Write where
  | done
  | failed
  | unacknowledged
  deriving DecidableEq

/-- How a commit ends.  One whose acknowledgement is lost took place. -/
inductive Commit where
  | committed
  | failed
  | lost
  deriving DecidableEq

inductive EqualityMode where
  | all
  | newestFirst
  | one
  deriving DecidableEq

/-- The read of `collection_reads.rs` that an operation asks for. -/
inductive Reading where
  | equality (mode : EqualityMode)
  | page (legacy : Bool)
  deriving DecidableEq

def readingOf (op : Text) (origin : Origin) : Reading :=
  if op = "findOne" then .equality .one
  else if op = "findAll" then .equality (if origin = .collection then .all else .newestFirst)
  else .page (op ≠ "findPage")

structure Env where
  codec : Codec
  audited : Entry → Write
  /-- `authorize_cross_app_operation`, by the fields read and written. -/
  authorizeCrossAppOperation : List Text → List Text → Except ApiError AuthorizedRead
  /-- Whether the provider app runs, for a delegated agent. -/
  installed : Except ApiError Bool
  /-- `entity_exists`, or none where its query fails. -/
  entityExists : Option Bool
  fieldTypeMap : Option FieldMap
  /-- Whether the transaction of the provider app begins, with everything checked in it. -/
  begins : Bool
  provider : Provider
  reads : FieldMap → Reading → Json → Except Text Json
  resetsRole : Bool
  /-- Whether an entry is written inside the transaction. -/
  inserted : Entry → Bool
  commits : Commit

/-! ## The session of a call -/

structure Tx where
  work : Work
  entries : List Entry

/-- What a call has committed, and its open transaction. -/
structure World where
  trail : List Entry
  changes : List (Statement × List Json)
  tx : Option Tx

def World.start : World := ⟨[], [], none⟩

abbrev Reply := Except Text Json

abbrev Session := StateM World

variable (env : Env)

/-- What a write of an entry leaves in the audit. -/
def recorded (entry : Entry) : List Entry := if env.audited entry = .failed then [] else [entry]

/-- `record_read_audit`: whether the caller knows that the entry is written. -/
def recordReadAudit (entry : Entry) : Session Bool := fun world =>
  (env.audited entry = .done, { world with trail := world.trail ++ recorded env entry })

def begin' : Session Unit := fun world => ((), { world with tx := some ⟨⟨[], false⟩, []⟩ })

def rollback : Session Unit := fun world => ((), { world with tx := none })

/-- A mutation inside the transaction. -/
def inTx {α : Type} (run : Mutations.Run α) : Session (Except Text α) := fun world =>
  match world.tx with
  | none => (.error "no transaction", world)
  | some tx =>
    let (outcome, work) := run tx.work
    (outcome, { world with tx := some { tx with work := work } })

/-- An open transaction takes statements until one of them fails. -/
def World.takes (world : World) : Bool := world.tx.any (!·.work.failed)

/-- `RESET ROLE` and the entry, inside the transaction. -/
def insertReadAudit (entry : Entry) : Session Bool := fun world =>
  if world.takes && env.resetsRole && env.inserted entry then
    (true, { world with tx := world.tx.map fun tx => { tx with entries := tx.entries ++ [entry] } })
  else (false, { world with tx := world.tx.map fun tx => { tx with work := { tx.work with failed := true } } })

/-- A transaction with a failed statement is rolled back by its commit. -/
def World.committed (world : World) : World :=
  match world.tx with
  | none => world
  | some tx =>
    if tx.work.failed then { world with tx := none }
    else ⟨world.trail ++ tx.entries, world.changes ++ tx.work.sent, none⟩

def commit : Session Bool := fun world =>
  match env.commits with
  | .committed => (true, world.committed)
  | .failed => (false, { world with tx := none })
  | .lost => (false, world.committed)

/-! ## The call -/

def auditUnavailable : Text := "cross-app audit unavailable"

/-- The answer of a call that is refused, once that is in the audit. -/
def deny (entry : Entry) (failure : Text) : Session Reply := do
  let written ← recordReadAudit env entry
  return .error (if written then failure else auditUnavailable)

/-- The answer of a call that failed, whether or not that gets into the audit. -/
def giveUp (entry : Entry) (failure : Text) : Session Reply := do
  let _ ← recordReadAudit env entry
  return .error failure

def unavailable : Text := "cross-app collection is unavailable"

def rowCount (op action : Text) (result : Json) : Nat :=
  if isMutation action || op = "findAll" then (result.asArray.map List.length).getD 1
  else if action = ACTION_READ then (if result.isNull then 0 else 1)
  else (((result.get "data").bind Json.asArray).map List.length).getD (if result.isNull then 0 else 1)

def project (op action : Text) (authority : Option AuthorizedRead) (result : Json) : Json :=
  match authority with
  | none => result
  | some authority =>
    if action = ACTION_DELETE then result
    else if isMutation action || op = "findAll" || action = ACTION_READ then
      projectRecords authority.fieldSnapshot result
    else projectQueryResult authority.fieldSnapshot result

/-- The end of an operation, from its commit on. -/
def finish (attempt : Attempt) (result : Json) : Session Reply := do
  let call := attempt.call
  if ← commit env then
    if isMutation attempt.action then return .ok (project call.op attempt.action attempt.authority result)
    else
      let count := rowCount call.op attempt.action result
      let written ← recordReadAudit env (attempt.entry .success none (some count))
      return if written then .ok (project call.op attempt.action attempt.authority result) else .error auditUnavailable
  else giveUp env (attempt.entry .error (some "target_commit") none) unavailable

/-- The business change and its success audit have one commit. -/
def settle (attempt : Attempt) (result : Json) : Session Reply := do
  let count := rowCount attempt.call.op attempt.action result
  if isMutation attempt.action then
    if ← insertReadAudit env (attempt.entry .success none (some count)) then finish env attempt result
    else do
      rollback
      giveUp env (attempt.entry .error (some "audit_unavailable") none)
        "cross-app audit unavailable; mutation rolled back"
  else finish env attempt result

def mutationOp (op : Text) : Text := if op = "insert" then "create" else op

def operate (attempt : Attempt) (types : FieldMap) : Session Reply :=
  let call := attempt.call
  if isMutation attempt.action then
    inTx (Mutations.execute env.codec env.provider types call.providerApp call.entity (mutationOp call.op) call.data
      call.idempotencyKey)
  else return env.reads types (readingOf call.op call.origin) call.data

def conclude (attempt : Attempt) : Reply → Session Reply
  | .ok result => settle env attempt result
  | .error _ => do
    rollback
    giveUp env (attempt.entry .error (some "query_validation_or_execution") none)
      "cross-app collection query failed"

def inside (attempt : Attempt) (types : FieldMap) : Session Reply := do
  begin'
  let execution ← operate env attempt types
  conclude env attempt execution

def run (attempt : Attempt) : Session Reply :=
  match env.fieldTypeMap with
  | none =>
    giveUp env (attempt.entry .error (some "target_unavailable") none) "cross-app collection is not available"
  | some types =>
    if env.begins then inside env attempt types
    else giveUp env (attempt.entry .error (some "target_unavailable") none) unavailable

/-- An authorized call is in the audit before anything is looked at. -/
def start (attempt : Attempt) : Session Reply := do
  if ← recordReadAudit env (attempt.entry .started none none) then run env attempt
  else return .error auditUnavailable

def blockedApp (app : Text) : Bool :=
  app ∈ ["rootcx_system".toList, "pg_catalog".toList, "information_schema".toList] || "pg_".toList.isPrefixOf app

def authorizeAgentCollection (st : ContextState) (app entity action : Text) : Except ApiError Unit := do
  let verb := if action = ACTION_LIST ∨ action = ACTION_READ then "read".toList else action
  let key := "app:" ++ app ++ ":" ++ entity ++ "." ++ verb
  let permits := fun key => Authority.hasPermission st.effectivePerms key
  if !(permits key || permits (key ++ ".own") || (verb = "read" && permits (key ++ ".shared"))) then
    throw (.forbidden "delegated collection permission denied")
  if blockedApp app then throw (.forbidden ("access to schema '" ++ app ++ "' is blocked"))
  let installed ← env.installed
  if !(installed && env.entityExists.getD false) then throw (.notFound "collection unavailable")

/-- A mutation is authorized by the fields that it writes, a read by those it filters on. -/
def authorize (call : Call) (st : ContextState) (action : Text) : Except ApiError (Option AuthorizedRead) :=
  if call.origin = .delegatedAgent then
    (authorizeAgentCollection env st call.providerApp call.entity action).map fun _ => none
  else
    (env.authorizeCrossAppOperation (if isMutation action then [] else remoteRequestedFields call.op call.data)
      (remoteWrittenFields call.op call.data)).map some

/-- The category of a denial and the error that the caller gets for it. -/
def denial (origin : Origin) : ApiError → Text × Text
  | .notFound _ => ("target_unavailable", "cross-app collection is not available")
  | _ =>
    if origin = .delegatedAgent then ("delegated_permission", "delegated collection permission denied")
    else ("grant_or_scope", "cross-app collection access is not authorized")

/-- A missing human is let through to row security by a query tool that lists. -/
def anonymous (call : Call) (st : ContextState) (action : Text) : Bool :=
  st.userId.isNone && !(call.origin = .queryTool && action = ACTION_LIST)

def admitted (call : Call) (st : ContextState) (action : Text) : Session Reply :=
  let principal := st.auditActorId.or st.userId
  match authorize env call st action with
  | .error failure =>
    let (category, message) := denial call.origin failure
    deny env (Attempt.entry ⟨call, none, action, principal, st.auditDelegatorId⟩ .denied (some category) none) message
  | .ok authority => start env ⟨call, authority, action, principal, st.auditDelegatorId⟩

def execute (call : Call) : Session Reply :=
  match actionOf call.op with
  | none =>
    let principal := call.state.bind fun st => st.auditActorId.or st.userId
    let responsibleHuman := call.state.bind (·.auditDelegatorId)
    deny env (Attempt.entry ⟨call, none, "unsupported", principal, responsibleHuman⟩ .denied
      (some "unsupported_operation") none) "unsupported cross-app collection operation"
  | some action =>
    match call.state with
    | none =>
      deny env (Attempt.entry ⟨call, none, action, none, none⟩ .denied (some "no_principal") none)
        "cross-app collection access denied: no active principal"
    | some st =>
      if anonymous call st action then
        deny env (Attempt.entry ⟨call, none, action, none, st.auditDelegatorId⟩ .denied (some "anonymous") none)
          "cross-app collection access denied: anonymous principals are not allowed"
      else admitted env call st action

end RootCx.CrossApp.Operations
