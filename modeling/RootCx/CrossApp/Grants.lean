import RootCx.Crud.Query

/-! # Grants between applications

A grant lets the installation of one app, the consumer, use a collection of another app,
the provider: some actions on it, the fields that may be read and the fields that may be
written, all listed when it is requested.  Here are the rows of
`cross_app_collection_grants`, the checks of a request and the updates of a row; each
update counts the version of the row up by one.
-/

namespace RootCx.CrossApp

open RootCx.Text RootCx.Crud

abbrev Uuid := Text

/-- Points in time, as the clock of the server reads them. -/
abbrev Time := Nat

/-! ## The checks of a request -/

def ACTION_LIST : Text := "list"
def ACTION_READ : Text := "read"
def ACTION_CREATE : Text := "create"
def ACTION_UPDATE : Text := "update"
def ACTION_DELETE : Text := "delete"

def validAction (action : Text) : Bool :=
  action ∈ [ACTION_LIST, ACTION_READ, ACTION_CREATE, ACTION_UPDATE, ACTION_DELETE]

/-- Writes that take field values. -/
def writesFields (action : Text) : Bool := action ∈ [ACTION_CREATE, ACTION_UPDATE]

/-- The items in the order of their first occurrence. -/
def firsts (items : List Text) : List Text :=
  items.foldl (fun result item => if item ∈ result then result else result ++ [item]) []

def validateActions (actions : List Text) : Except Text (List Text) :=
  if actions.isEmpty then .error "actions must not be empty"
  else if actions.any (!validAction ·) then
    .error "cross-app grants support list, read, create, update and delete only"
  else .ok ((firsts actions).insertionSort (· ≤ ·))

/-- A field of the manifest that is not sensitive. -/
def readable (types : FieldMap) (name : Text) : Bool := (types.get name).any (!·.sensitive)

def validateRequestedFields (types : FieldMap) (requested : Option (List Text)) : Except Text (List Text) := do
  let fields ← match requested with
    | some [] => .error "fields must not be empty when supplied"
    | some fields => pure fields
    | none => pure (sortedNames types fun field => !field.sensitive)
  match fields.find? (!readable types ·) with
  | some field => .error ("field '" ++ field ++ "' is not readable")
  | none =>
    -- system fields belong to every collection, however narrow the projection is
    let required := SYSTEM_FIELDS.filter fun name => (types.get name).isSome && !(name ∈ fields)
    pure ((firsts fields ++ required).insertionSort (· ≤ ·))

def validateWriteFields (types : FieldMap) (actions : List Text) (requested : Option (List Text)) :
    Except Text (List Text) :=
  let supplied := requested.getD []
  if !actions.any writesFields then
    if supplied.isEmpty then .ok [] else .error "writeFields requires create or update actions"
  else if supplied.isEmpty then .error "create/update grants require explicit nonempty writeFields"
  else
    match supplied.find? fun name => isSystemField name || !readable types name with
    | some name => .error ("field '" ++ name ++ "' is not writable")
    | none => .ok ((firsts supplied).insertionSort (· ≤ ·))

/-! ## The rows -/

inductive GrantStatus where
  | pending
  | active
  | disabled
  | revoked
  | expired
  deriving DecidableEq, Repr

/-- `status IN ('pending', 'active', 'disabled')` -/
def GrantStatus.isOpen : GrantStatus → Bool
  | .pending | .active | .disabled => true
  | .revoked | .expired => false

/-- What a row and its description in the history have in common. -/
structure Terms where
  id : Uuid
  consumerApp : Text
  providerApp : Text
  consumerInstallationId : Uuid
  providerInstallationId : Uuid
  entity : Text
  actions : List Text
  fieldSnapshot : List Text
  writeFieldSnapshot : List Text
  status : GrantStatus
  version : Nat
  expiresAt : Option Time
  requestedBy : Uuid
  approvedBy : Option Uuid
  reason : Text
  createdAt : Time
  updatedAt : Time
  deriving DecidableEq, Repr

structure GrantRow extends Terms where
  revokedAt : Option Time
  deriving DecidableEq, Repr

/-- A row with the generations of its two installations. -/
structure CollectionGrant extends Terms where
  consumerGeneration : Nat
  providerGeneration : Nat
  deriving DecidableEq, Repr

/-- `expires_at IS NULL OR expires_at > statement_timestamp()` -/
def Terms.unexpired (terms : Terms) (now : Time) : Bool := terms.expiresAt.all (decide <| now < ·)

/-- A row of `app_installations`. -/
structure Installation where
  id : Uuid
  appId : Text
  generation : Nat
  active : Bool
  deriving DecidableEq, Repr

def installation (installations : List Installation) (id : Uuid) : Option Installation :=
  installations.find? (·.id = id)

/-- The join of `load_grant_tx`. -/
def describe (installations : List Installation) (row : GrantRow) : Option CollectionGrant := do
  let consumer ← installation installations row.consumerInstallationId
  let provider ← installation installations row.providerInstallationId
  pure { row.toTerms with consumerGeneration := consumer.generation, providerGeneration := provider.generation }

/-! ## The updates -/

inductive Timing where
  | whenever
  | unexpired
  | overdue
  deriving DecidableEq, Repr

def Timing.meets (timing : Timing) (terms : Terms) (now : Time) : Bool :=
  match timing with
  | .whenever => true
  | .unexpired => terms.unexpired now
  | .overdue => !terms.unexpired now

/-- An `UPDATE` of a grant: the rows it takes and what it makes of them.  None takes a row
    that is revoked or expired. -/
structure GrantUpdate where
  operation : Text
  takes : GrantStatus → Bool
  timing : Timing
  becomes : GrantStatus → GrantStatus
  approver : Option Uuid
  reason : Text
  takesOpen : ∀ status, takes status = true → status.isOpen = true

/-- The row behind the update, or nothing when it affects no row; `began` is what `now()`
    gives, the start of the transaction. -/
def GrantUpdate.apply (update : GrantUpdate) (began now : Time) (row : GrantRow) : Option GrantRow :=
  if update.takes row.status && update.timing.meets row.toTerms now then
    some { row with
      status := update.becomes row.status
      version := row.version + 1
      approvedBy := update.approver.or row.approvedBy
      reason := if update.reason.isEmpty then row.reason else update.reason
      updatedAt := began
      revokedAt := if update.becomes row.status = .revoked then some began else row.revokedAt }
  else none

def approveGrant (actor : Uuid) (reason : Text) : GrantUpdate where
  operation := "approved"
  takes status := status = .pending
  timing := .unexpired
  becomes _ := .active
  approver := some actor
  reason := reason
  takesOpen status := by cases status <;> decide

def disableGrant (reason : Text) : GrantUpdate where
  operation := "disabled"
  takes status := status = .active || status = .disabled
  timing := .whenever
  becomes status := if status = .active then .disabled else status
  approver := none
  reason := reason
  takesOpen status := by cases status <;> decide

def enableGrant (reason : Text) : GrantUpdate where
  operation := "enabled"
  takes status := status = .disabled
  timing := .unexpired
  becomes _ := .active
  approver := none
  reason := reason
  takesOpen status := by cases status <;> decide

def revokeGrant (reason : Text) : GrantUpdate where
  operation := "revoked"
  takes status := !(status = .revoked || status = .expired)
  timing := .whenever
  becomes _ := .revoked
  approver := none
  reason := reason
  takesOpen status := by cases status <;> decide

/-- The update of `expire_grants_tx`; it keeps the reason of the row. -/
def expireGrant : GrantUpdate where
  operation := "expired"
  takes := GrantStatus.isOpen
  timing := .overdue
  becomes _ := .expired
  approver := none
  reason := []
  takesOpen _ := id

/-- The update of `deactivate_installation_tx`; it keeps the reason of the row. -/
def autoRevokeGrant : GrantUpdate where
  operation := "auto_revoked"
  takes := GrantStatus.isOpen
  timing := .whenever
  becomes _ := .revoked
  approver := none
  reason := []
  takesOpen _ := id

/-- What an update leaves as it is: the parties, the collection and the scope. -/
structure SameGrant (row row' : GrantRow) : Prop where
  id : row'.id = row.id
  consumer : row'.consumerApp = row.consumerApp
  provider : row'.providerApp = row.providerApp
  consumerInstallation : row'.consumerInstallationId = row.consumerInstallationId
  providerInstallation : row'.providerInstallationId = row.providerInstallationId

theorem GrantUpdate.apply_eq_some {update : GrantUpdate} {began now : Time} {row row' : GrantRow}
    (applied : update.apply began now row = some row') :
    row.status.isOpen = true ∧ row'.status = update.becomes row.status ∧ row'.version = row.version + 1 ∧
      SameGrant row row' := by
  unfold GrantUpdate.apply at applied
  split at applied
  next taken =>
    cases applied
    rw [Bool.and_eq_true] at taken
    exact ⟨update.takesOpen _ taken.1, rfl, rfl, ⟨rfl, rfl, rfl, rfl, rfl⟩⟩
  next => cases applied

/-! ## The decision on a request -/

/-- What an authorized operation carries: never handed to an app. -/
structure AuthorizedRead where
  grantId : Uuid
  grantVersion : Nat
  consumerApp : Text
  providerApp : Text
  consumerInstallationId : Uuid
  providerInstallationId : Uuid
  entity : Text
  action : Text
  fieldSnapshot : List Text
  writeFieldSnapshot : List Text
  deriving DecidableEq, Repr

def capability (row : GrantRow) (action : Text) : AuthorizedRead where
  grantId := row.id
  grantVersion := row.version
  consumerApp := row.consumerApp
  providerApp := row.providerApp
  consumerInstallationId := row.consumerInstallationId
  providerInstallationId := row.providerInstallationId
  entity := row.entity
  action := action
  fieldSnapshot := row.fieldSnapshot
  writeFieldSnapshot := row.writeFieldSnapshot

/-- The checks of `authorize_cross_app_operation` on the fields of a request. -/
def authorizeScope (row : GrantRow) (action : Text) (requestedFields writtenFields : List Text) : Except Text Unit :=
  if requestedFields.any (!row.fieldSnapshot.elem ·) then
    .error "requested collection scope is not authorized"
  else if !writesFields action && !writtenFields.isEmpty then .error "this operation cannot write fields"
  else if writtenFields.any fun field => !row.writeFieldSnapshot.elem field || isSystemField field then
    .error "requested writable collection scope is not authorized"
  else .ok ()

end RootCx.CrossApp
