import RootCx.Lib.JsonValue
import Mathlib

/-! # Connections of users to integrations

The tables of `extensions/integrations/connections.rs` and the requests that change
them.  A binding names a connection without referring to it, and so does a delegation,
whose target is in its stored credential; both outlive the connection that they name.
-/

namespace RootCx.Integrations

open RootCx.Text

/-- The scope of a binding for every user of an app. -/
def APP_WIDE : Text := []

inductive Kind where
  | direct
  | delegation
  deriving DecidableEq, Repr

inductive Status where
  | active
  | dead
  deriving DecidableEq, Repr

/-- A row of `integration_connections`. -/
structure Connection where
  id : Text
  integrationId : Text
  userId : Text
  label : Option Text
  kind : Kind
  status : Status
  configId : Option Text
  createdAt : Nat
  deriving DecidableEq, Repr

/-- A row of `app_integrations`, without its key. -/
structure Binding where
  connectionId : Option Text
  enabled : Bool
  deriving DecidableEq, Repr

structure Store where
  connections : List Connection
  /-- By app, integration and user, where the empty user stands for all of them. -/
  bindings : Text → Text → Text → Option Binding
  /-- By integration and name. -/
  secrets : Text → Text → Option Text

def credentialKey (connectionId : Text) : Text := "_conn." ++ connectionId

namespace Store

variable (store : Store)

/-- The row of a connection, by its primary key. -/
def connection (id : Text) : Option Connection := store.connections.find? (·.id = id)

def credential (integration id : Text) : Option Text := store.secrets integration (credentialKey id)

def setSecret (integration name : Text) (value : Option Text) : Store :=
  { store with secrets := fun other key => if other = integration ∧ key = name then value else store.secrets other key }

def setBinding (app integration user : Text) (binding : Option Binding) : Store :=
  { store with
    bindings := fun app' integration' user' =>
      if app' = app ∧ integration' = integration ∧ user' = user then binding else store.bindings app' integration' user' }

/-- The rows of a kind that may be picked for a user, by their age. -/
def ofKind (integration user : Text) (kind : Kind) : List Connection :=
  (store.connections.filter fun row =>
    row.integrationId = integration && row.userId = user && row.status = .active && row.kind = kind).insertionSort
    (·.createdAt ≤ ·.createdAt)

/-- `first_direct_connection`. -/
def firstDirectConnection (integration user : Text) : Option Text :=
  (store.ofKind integration user .direct).head?.map (·.id)

end Store

/-! ## Requests -/

/-- A row is made under a new id, or the one of its label is made active again. -/
structure Connect where
  integration : Text
  user : Text
  label : Option Text
  configId : Option Text
  credentials : Text
  newId : Text
  now : Nat

def createConnection (store : Store) (request : Connect) (kind : Kind) : Store :=
  let row : Connection :=
    { id := request.newId, integrationId := request.integration, userId := request.user, label := request.label, kind := kind
      status := .active, configId := request.configId, createdAt := request.now }
  { store with connections := store.connections ++ [row] }

def labelled (store : Store) (request : Connect) : Option Connection :=
  request.label.bind fun label => store.connections.find? fun row =>
    row.integrationId = request.integration && row.userId = request.user && row.label = some label && row.kind = .direct

/-- `upsert_connection`, with the id of the row. -/
def upsertConnection (store : Store) (request : Connect) : Store × Text :=
  match labelled store request with
  | some row =>
    let revive := fun other : Connection =>
      if other.id = row.id then { other with status := .active, configId := request.configId } else other
    ({ store with connections := store.connections.map revive }, row.id)
  | none => (createConnection store request .direct, request.newId)

/-- `submit_credentials` and the callback of a provider. -/
def connect (store : Store) (request : Connect) : Store :=
  let (store, id) := upsertConnection store request
  store.setSecret request.integration (credentialKey id) (some request.credentials)

/-- The stored credential of a delegation. -/
def delegationText (sourceId : Text) : Text :=
  Json.compact (.obj [("_delegate", .str sourceId)])

/-- `delegate`: an administrator lends the first direct connection to an agent. -/
def delegate (store : Store) (integration sourceUser agentUid newId : Text) (now : Nat) : Store :=
  match store.firstDirectConnection integration sourceUser with
  | none => store
  | some source =>
    let request : Connect := ⟨integration, agentUid, none, none, delegationText source, newId, now⟩
    (createConnection store request .delegation).setSecret integration (credentialKey newId) (some request.credentials)

/-- `delete_connection`, by its owner. -/
def deleteConnection (store : Store) (integration user id : Text) : Store :=
  match store.connections.find? fun row => row.id = id && row.integrationId = integration with
  | none => store
  | some row =>
    if row.userId = user then
      { store.setSecret integration (credentialKey id) none with
        connections := store.connections.filter (·.id ≠ id) }
    else store

/-- `disconnect`: every connection of a user goes, with its credential. -/
def disconnect (store : Store) (integration user : Text) : Store :=
  let gone := store.connections.filter fun row => row.integrationId = integration && row.userId = user
  let cleared := gone.foldl (fun store row => store.setSecret integration (credentialKey row.id) none) store
  { cleared with connections := store.connections.filter fun row => !(row.integrationId = integration && row.userId = user) }

/-- `bind_app`, under the id of the caller or for the whole app. -/
def bindApp (store : Store) (app integration caller : Text) (connectionId : Option Text) (ownScope mayManage : Bool) : Store :=
  let bindingUser := if ownScope then caller else APP_WIDE
  let owned := connectionId.all fun id => store.connections.any fun row =>
    row.id = id && row.integrationId = integration && row.userId = caller
  if (bindingUser ≠ APP_WIDE ∧ connectionId = none) ∨ owned = false ∨ (bindingUser = APP_WIDE ∧ mayManage = false) then store
  else store.setBinding app integration bindingUser (some ⟨connectionId, true⟩)

def unbindApp (store : Store) (app integration caller : Text) (ownScope : Bool) : Store :=
  store.setBinding app integration (if ownScope then caller else APP_WIDE) none

/-- `flag_if_auth_failed`, once the provider rejected a credential. -/
def flagDead (store : Store) (id : Text) : Store :=
  { store with connections := store.connections.map fun row => if row.id = id then { row with status := .dead } else row }

inductive Request where
  | connect (request : Connect)
  | delegate (integration sourceUser agentUid newId : Text) (now : Nat)
  | deleteConnection (integration user id : Text)
  | disconnect (integration user : Text)
  | bindApp (app integration caller : Text) (connectionId : Option Text) (ownScope mayManage : Bool)
  | unbindApp (app integration caller : Text) (ownScope : Bool)
  | flagDead (id : Text)

def Request.apply (store : Store) : Request → Store
  | .connect request => Integrations.connect store request
  | .delegate integration sourceUser agentUid newId now => Integrations.delegate store integration sourceUser agentUid newId now
  | .deleteConnection integration user id => Integrations.deleteConnection store integration user id
  | .disconnect integration user => Integrations.disconnect store integration user
  | .bindApp app integration caller id ownScope mayManage => Integrations.bindApp store app integration caller id ownScope mayManage
  | .unbindApp app integration caller ownScope => Integrations.unbindApp store app integration caller ownScope
  | .flagDead id => Integrations.flagDead store id

def Store.empty : Store := ⟨[], fun _ _ _ => none, fun _ _ => none⟩

def run (requests : List Request) (store : Store) : Store := requests.foldl Request.apply store

/-! ## Resolution -/

inductive RenewError where
  | rejected (message : Text)
  | transient (message : Text)

/-- What resolution takes from other modules: the configuration of an integration under
    an OAuth client, stored texts as JSON, and the credential that a worker is given. -/
structure Backend where
  config : Text → Option Text → Json
  parse : Text → Json
  credentialsForWorker : (integration connectionId : Text) → (config credentials : Json) → Except RenewError Json

structure Resolved where
  config : Json
  credentials : Json
  effectiveUser : Text
  connectionId : Option Text

/-- Which statements of a call fail: those for the binding, for the fallback, for the
    credential of the delegation, and for the row, the configuration and the credential
    of the connection.  Resolution swallows every one of these failures. -/
structure Outage where
  binding : Bool
  candidates : Bool
  delegate : Bool
  owner : Bool
  config : Bool
  credential : Bool

def Outage.calm : Outage := ⟨false, false, false, false, false, false⟩

/-- `.await.ok().flatten()` -/
def okFlatten {α : Type} (fails : Bool) (found : Option α) : Option α := if fails then none else found

variable (backend : Backend) (outage : Outage) (store : Store) (integration : Text)

/-- `resolve_config_scoped(..).await.unwrap_or(JsonValue::Null)` -/
def configOrNull (configId : Option Text) : Json := if outage.config then .null else backend.config integration configId

def resolveByConnectionId (connectionId fallbackUser : Text) : Except RenewError Resolved :=
  let row := okFlatten outage.owner (store.connection connectionId)
  let config := configOrNull backend outage integration (row.bind (·.configId))
  match okFlatten outage.credential (store.credential integration connectionId) with
  | some raw =>
    (backend.credentialsForWorker integration connectionId config (backend.parse raw)).map fun credentials =>
      ⟨config, credentials, (row.map (·.userId)).getD fallbackUser, some connectionId⟩
  | none => .ok ⟨config, .null, fallbackUser, none⟩

/-- The connection of an enabled binding. -/
def boundAt (app user : Text) : Option Text :=
  (store.bindings app integration user).bind fun binding => if binding.enabled then binding.connectionId else none

/-- The own binding of a user wins over the one of the app. -/
def bound (app : Option Text) (user : Text) : Option Text :=
  app.bind fun app => (boundAt store integration app user).or (boundAt store integration app APP_WIDE)

/-- The rows of the fallback query: delegations before direct ones, and two of them. -/
def candidates (user : Text) : List Connection :=
  (store.ofKind integration user .delegation ++ store.ofKind integration user .direct).take 2

/-- The connection that the credential of a delegation names. -/
def delegateOf (id : Text) : Option Text :=
  (store.credential integration id).bind fun raw => ((backend.parse raw).get "_delegate").bind Json.asStr

def resolveDirect (rows : List Connection) (user : Text) : Except RenewError Resolved :=
  match rows.find? (·.kind = .direct) with
  | some direct => resolveByConnectionId backend outage store integration direct.id user
  | none => .ok ⟨configOrNull backend outage integration none, .null, user, none⟩

def resolveCredentials (user : Text) (app : Option Text) : Except RenewError Resolved :=
  match okFlatten outage.binding (bound store integration app user) with
  | some connectionId => resolveByConnectionId backend outage store integration connectionId user
  | none =>
    let rows := if outage.candidates then [] else candidates store integration user
    let delegate := fun row : Connection => okFlatten outage.delegate (delegateOf backend store integration row.id)
    match (rows.find? (·.kind = .delegation)).bind delegate with
    | some source => resolveByConnectionId backend outage store integration source user
    | none => resolveDirect backend outage store integration rows user

end RootCx.Integrations
