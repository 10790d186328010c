import RootCx.Authority.SqlMatcher
import RootCx.RowAccess.Meaning

/-! # The gates of policies

The functions of `rootcx_system` that policies ask: `check_access`,
`check_cross_app_access` and `check_publication_access` of
`extensions/rbac/bootstrap.rs`, `cross_app_grant_allows` of its migration and
`check_approved_action_access` of `governance/approved_actions/gate.sql`.  Core
poses ids in their canonical text, on which the cast to `uuid` is the identity.
-/

namespace RootCx.RowAccess

open RootCx.Text RootCx.Postgres RootCx.Authority List

/-! ## The tables they read -/

inductive DataOperation where
  | read
  | create
  | update
  | delete
deriving DecidableEq, Repr

def DataOperation.asStr : DataOperation → Text
  | .read => "read"
  | .create => "create"
  | .update => "update"
  | .delete => "delete"

/-- An approved action.  It is current while it is not revoked and the release,
    the installation and the manifest it was approved for are. -/
structure Approval where
  id : Text
  appId : Text
  actionId : Text
  authority : List (Text × List DataOperation)
  current : Bool

/-- The keys `approve` stores for an authority. -/
def Approval.permissions (approval : Approval) : List Text :=
  approval.authority.flatMap fun entry => entry.2.map fun operation => entityKey approval.appId entry.1 operation.asStr

/-- A grant of one app on a collection of another.  It is live while its status,
    its expiry, both installations and both apps say so. -/
structure CrossAppGrant where
  id : Text
  consumerApp : Text
  providerApp : Text
  entity : Text
  actions : List Text
  live : Bool

/-- A publication with the user that runs it. -/
structure Publication where
  id : Text
  consumerApp : Text
  providerApp : Text
  entity : Text
  principal : Text
  live : Bool

structure System where
  /-- Whether an app has an active installation. -/
  active : Text → Bool
  /-- `resolve_permissions`. -/
  permissions : Text → List Text
  approvals : List Approval
  grants : List CrossAppGrant
  publications : List Publication

/-! ## The functions -/

section Gates

variable (system : System) (setting : Setting → Option Text)

/-- `coalesce(current_setting(name, true), '') <> ''`. -/
def posed (name : Setting) : Bool := (setting name).getD [] ≠ []

def isDelegated : Bool := setting .isDelegated = some "1".toList

def isHuman : Bool := setting .humanDataRequest = some "1".toList

def callerId : Option Text := nullif (setting .userId)

/-- `string_to_array(current_setting('rootcx.effective_perms', true), ',')`, where
    no setting and an empty one hold nothing. -/
def frozenPerms : List Text := stringToArray ((setting .effectivePerms).getD [])

/-- `has_permission`. -/
def hasPermissionSql (user required : Text) : Bool := matchPermission (system.permissions user) required

def actionKey (approval : Approval) : Text :=
  "app:" ++ approval.appId ++ ":action:" ++ approval.actionId

def checkApprovedActionAccess (required : Text) : Bool :=
  match nullif (setting .approvedActionId), callerId setting with
  | some id, some user =>
    -- an unset invocation kind is unknown, which refuses nothing
    if posed setting .publicationId || isHuman setting ||
        (setting .invocationKind).any (· ≠ "action".toList) then false
    else
      match system.approvals.find? fun approval =>
        approval.id = id && approval.current && setting .appId = some approval.appId &&
          setting .actionId = some approval.actionId && required ∈ approval.permissions with
      | none => false
      | some approval =>
        if !hasPermissionSql system user (actionKey approval) then false
        else if isDelegated setting then matchPermission (frozenPerms setting) (actionKey approval)
        else true
  | _, _ => false

def isMutation (action : Text) : Bool := action ∈ ["create".toList, "update".toList, "delete".toList]

/-- The key a delegated call is asked for: the fixed mutation of an agent reads
    under the key of its mutation. -/
def askedKey (required : Text) : Text :=
  match setting .agentCollectionMutation, setting .agentCollectionReadKey with
  | some action, some readKey =>
    if !isMutation action then required
    else if required = readKey then left readKey (readKey.length - 5) ++ "." ++ action
    else if required = readKey ++ ".own" then
      left readKey (readKey.length - 5) ++ "." ++ action ++ ".own"
    else required
  | _, _ => required

/-- `split_part(text, ':', 2)`. -/
def appOfKey (required : Text) : Text := (split ':' required).getD 1 []

def checkAccess (required : Text) : Bool :=
  if posed setting .approvedActionId then checkApprovedActionAccess system setting required
  else if posed setting .publicationId then false
  else if left required 4 = "app:" && !isHuman setting &&
      nullif (setting .appId) ≠ some (appOfKey required) then false
  else if left required 4 = "app:" && !system.active (appOfKey required) then false
  else
    match callerId setting with
    | none => false
    | some user =>
      if isDelegated setting then matchPermission (frozenPerms setting) (askedKey setting required)
      else hasPermissionSql system user required

/-- `cross_app_grant_allows`. -/
def crossAppGrantAllows (required target source : Text) (id : Option Text) : Bool :=
  match id, nullif (setting .crossAppAction) with
  | some id, some action =>
    target ≠ [] && source ≠ [] && system.grants.any fun grant =>
      grant.id = id && grant.consumerApp = source && grant.providerApp = target && action ∈ grant.actions &&
        (action = "list" || action = "read" || isMutation action) &&
        (required = entityKey target grant.entity (if action = "list" then "read" else action) ||
          (isMutation action && required = entityKey target grant.entity "read")) &&
        grant.live
  | _, _ => false

/-- The key a delegated cross-app call is asked for. -/
def crossAskedKey (required : Text) : Text :=
  match setting .crossAppAction with
  | some action =>
    if !isMutation action then required
    else if right required 5 = ".read" then left required (required.length - 5) ++ "." ++ action
    else if right required 9 = ".read.own" then
      left required (required.length - 9) ++ "." ++ action ++ ".own"
    else required
  | none => required

/-- The collection action of a scoped key. -/
def collectionKey (required : Text) : Text :=
  if [".read.own", ".create.own", ".update.own", ".delete.own"].any
      (· <:+ required) then left required (required.length - 4)
  else required

def checkCrossAppAccess (required : Text) : Bool :=
  if posed setting .approvedActionId then false
  else if posed setting .publicationId then false
  else if (callerId setting).isNone then false
  else if isDelegated setting && !matchPermission (frozenPerms setting) (crossAskedKey setting required) then false
  else crossAppGrantAllows system setting (collectionKey required)
    ((nullif (setting .appId)).getD []) ((nullif (setting .crossAppSourceApp)).getD [])
    (nullif (setting .crossAppGrantId))

def checkPublicationAccess (required : Text) : Bool :=
  system.publications.any fun publication =>
    publication.live && nullif (setting .publicationId) = some publication.id &&
      callerId setting = some publication.principal &&
      setting .publicationReadKey = some required &&
      required = entityKey publication.providerApp publication.entity "read" &&
      setting .appId = some publication.providerApp &&
      (publication.consumerApp = publication.providerApp ||
        crossAppGrantAllows system setting required publication.providerApp publication.consumerApp
          (nullif (setting .crossAppGrantId)))

def gates : Gate → Text → Bool
  | .access => checkAccess system setting
  | .crossApp => checkCrossAppAccess system setting
  | .publication => checkPublicationAccess system setting
  | .approvedAction => checkApprovedActionAccess system setting

/-- The permissions the session holds. -/
def held : List Text :=
  if isDelegated setting then frozenPerms setting
  else ((callerId setting).map system.permissions).getD []

/-- The session holds what it is asked for `required`. -/
def holds (required : Text) : Bool :=
  matchPermission (held system setting) (if isDelegated setting then askedKey setting required else required)

end Gates

/-! ## What the gates say -/

section Facts

variable {system : System} {setting : Setting → Option Text} {required : Text}

theorem nullif_eq_none {text : Option Text} : nullif text = none ↔ text.getD [] = [] := by
  cases text with
  | none => simp [nullif]
  | some text => simp [nullif, Option.filter]

theorem posed_eq_false {name : Setting} : posed setting name = false ↔ nullif (setting name) = none := by
  rw [nullif_eq_none, posed, decide_eq_false_iff_not, not_not]

theorem checkApprovedActionAccess_unposed (unposed : posed setting .approvedActionId = false) :
    checkApprovedActionAccess system setting required = false := by
  unfold checkApprovedActionAccess
  rw [posed_eq_false.mp unposed]

theorem checkPublicationAccess_unposed (unposed : posed setting .publicationId = false) :
    checkPublicationAccess system setting required = false := by
  have absent := posed_eq_false.mp unposed
  rw [checkPublicationAccess, any_eq_false]
  intro publication _ passed
  simp only [Bool.and_eq_true, decide_eq_true_eq] at passed
  obtain ⟨⟨⟨⟨⟨⟨-, named⟩, -⟩, -⟩, -⟩, -⟩, -⟩ := passed
  exact nomatch absent.symm.trans named

theorem holds_of_checkAccess (noAction : posed setting .approvedActionId = false)
    (opened : checkAccess system setting required = true) : holds system setting required = true := by
  rw [checkAccess, if_neg (by rw [noAction]; exact Bool.false_ne_true)] at opened
  split at opened
  case isTrue => cases opened
  case isFalse =>
    split at opened
    case isTrue => cases opened
    case isFalse =>
      split at opened
      case isTrue => cases opened
      case isFalse =>
        split at opened
        case h_1 => cases opened
        case h_2 user caller =>
          unfold holds held
          rw [caller]
          split at opened
          case isTrue delegated => rw [if_pos delegated, if_pos delegated]; exact opened
          case isFalse delegated => rw [if_neg delegated, if_neg delegated]; exact opened

theorem approved_of_checkAccess (action : posed setting .approvedActionId = true)
    (opened : checkAccess system setting required = true) :
    ∃ approval ∈ system.approvals, nullif (setting .approvedActionId) = some approval.id ∧
      approval.current = true ∧ required ∈ approval.permissions := by
  rw [checkAccess, if_pos action, checkApprovedActionAccess] at opened
  split at opened
  case h_1 id user posedId caller =>
    split at opened
    case isTrue => cases opened
    case isFalse =>
      split at opened
      case h_1 => cases opened
      case h_2 approval found =>
        have listed := find?_some found
        simp only [Bool.and_eq_true, decide_eq_true_eq] at listed
        obtain ⟨⟨⟨⟨rfl, current⟩, -⟩, -⟩, approved⟩ := listed
        exact ⟨approval, mem_of_find?_eq_some found, posedId, current, approved⟩
  case h_2 => cases opened

theorem last_of_append {stem stem' tail tail' : Text} {c c' : Char} (ends : tail.getLast? = some c)
    (ends' : tail'.getLast? = some c') (same : stem ++ tail = stem' ++ tail') : c = c' := by
  have last := congrArg getLast? same
  rw [getLast?_append, getLast?_append, ends, ends'] at last
  exact Option.some.inj last

theorem ownKey_notMem_permissions (approval : Approval) (key : Text) : ownKey key ∉ approval.permissions := by
  intro mem
  obtain ⟨entry, -, inside⟩ := mem_flatMap.mp mem
  obtain ⟨operation, -, same⟩ := mem_map.mp inside
  have ends : ∃ c, operation.asStr.getLast? = some c ∧ c ≠ 'n' := by
    cases operation <;> exact ⟨_, rfl, by decide⟩
  obtain ⟨c, last, different⟩ := ends
  exact different (last_of_append last (show OWN_SCOPE.getLast? = some 'n' from rfl) same)

end Facts

end RootCx.RowAccess
