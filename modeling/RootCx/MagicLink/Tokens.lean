import RootCx.Authority.Perms
import RootCx.Authority.Roles
import RootCx.Lib.Runs

/-! # Magic links

`generate` and `consume_inner` of `extensions/magic_link/routes.rs`.  A link is made in
statements of their own, after the roles of its creator were read; it is consumed in one
transaction, whose writes nobody sees before it commits, and which holds the row of the
token and the address of a new user until then.
-/

namespace RootCx.MagicLink

open RootCx.Text RootCx.Authority

def DEFAULT_EXPIRES_IN_SECONDS : Int := 15 * 60

def MAX_EXPIRES_IN_SECONDS : Int := 24 * 60 * 60

def MAX_ROLES_PER_TOKEN : Nat := 32

/-! ## Roles -/

/-- The rows of `rbac_roles`. -/
structure RoleDefs where
  inherits : RoleMap
  permissions : Text → List Text

/-- The roles and permissions of a user, by the roles assigned to it. -/
def resolvePermissions (defs : RoleDefs) (assigned : List Text) : List Text × List Text :=
  if assigned.isEmpty then ([], [])
  else
    let expanded := expandRoles assigned defs.inherits
    (expanded, expanded.flatMap defs.permissions)

/-! ## The tables -/

/-- How a role came to be assigned. -/
inductive Source where
  | link (token : Nat)
  | other
  deriving DecidableEq, Repr

structure Assignment where
  user : Nat
  role : Text
  source : Source
  deriving DecidableEq, Repr

/-- What a creator was when it made a link: its assignments, and the definitions read after
    them. -/
structure Creator where
  assigned : List Text
  defs : RoleDefs

def Creator.roles (creator : Creator) : List Text := (resolvePermissions creator.defs creator.assigned).1

def Creator.permissions (creator : Creator) : List Text := (resolvePermissions creator.defs creator.assigned).2

def Creator.isAdmin (creator : Creator) : Bool := creator.permissions.any (· = "*")

/-- A row of `magic_link_tokens`, with its creator as it was. -/
structure Token where
  email : Text
  roles : List Text
  expiresAt : Int
  consumed : Bool
  creator : Creator

structure Session where
  user : Nat
  token : Nat
  /-- When the transaction of its consumer began. -/
  began : Int
  deriving DecidableEq, Repr

structure Store where
  /-- The addresses of the users; the id of a user is its place. -/
  users : List Text
  assignments : List Assignment
  defs : RoleDefs
  tokens : List Token
  sessions : List Session

def Store.assignedTo (store : Store) (user : Nat) : List Text :=
  (store.assignments.filter (·.user = user)).map (·.role)

/-! ## Generating a link -/

structure GenerateRequest where
  caller : Nat
  email : Text
  roles : List Text
  redirectUri : Option Text
  expiresInSeconds : Option Int

/-- The checks of the request alone; the address is normalized already. -/
def GenerateRequest.checked (request : GenerateRequest) : Except Text Unit :=
  if request.email.isEmpty || !request.email.elem '@' then .error "valid email required"
  else if request.roles.length > MAX_ROLES_PER_TOKEN then .error "at most 32 roles per token"
  else if request.roles.any fun role => (trim role).isEmpty then .error "role names must be non-empty"
  else .ok ()

/-- Privilege containment. -/
def contained (creator : Creator) (roles : List Text) : Except Text Unit :=
  if creator.isAdmin then .ok ()
  else if hasPermission creator.permissions "auth.invite" = false then
    .error "auth.invite permission required"
  else
    match roles.find? (!creator.roles.elem ·) with
    | some role => .error ("cannot confer role '" ++ role ++ "' — caller does not hold it")
    | none => .ok ()

def declared (defs : RoleDefs) (roles : List Text) : Bool :=
  (defs.inherits.keys.filter (· ∈ roles)).length = roles.length

def lifetime (request : GenerateRequest) : Int :=
  max 60 (min (request.expiresInSeconds.getD DEFAULT_EXPIRES_IN_SECONDS) MAX_EXPIRES_IN_SECONDS)

/-- A link in the making: its request, and its creator once the privileges are checked. -/
inductive Making where
  | requested (request : GenerateRequest)
  /-- The assignments of the caller are read, the definitions are not. -/
  | assigned (request : GenerateRequest) (names : List Text)
  | contained (request : GenerateRequest) (creator : Creator)
  | declared (request : GenerateRequest) (creator : Creator)
  | ended

/-! ## Consuming a link -/

inductive Consumer where
  | existing (user : Nat)
  | new
  deriving DecidableEq, Repr

/-- Up to which statement the transaction of a consumer has run. -/
inductive Progress where
  | opened
  | claimed
  | inserting
  | known (user : Consumer)
  | assigned (user : Consumer)
  | ready (user : Consumer)
  | ended
  deriving DecidableEq, Repr

structure Consume where
  token : Nat
  began : Int
  progress : Progress
  deriving DecidableEq, Repr

/-- It has claimed the row of its token. -/
def Consume.holds (consume : Consume) : Bool :=
  match consume.progress with
  | .opened | .ended => false
  | _ => true

/-- The user that it is going to serve. -/
def Consume.user (consume : Consume) : Option Consumer :=
  match consume.progress with
  | .known user | .assigned user | .ready user => some user
  | _ => none

structure State where
  store : Store
  now : Int
  makings : List Making
  consumes : List Consume

namespace State

variable (safeRedirect : Text → Bool) (s : State)

def setMaking (index : Nat) (making : Making) : State := { s with makings := s.makings.set index making }

def setConsume (index : Nat) (consume : Consume) (progress : Progress) : State :=
  { s with consumes := s.consumes.set index { consume with progress := progress } }

/-- A transaction that holds the row of a token. -/
def tokenHeld (token : Nat) : Bool := s.consumes.any fun other => other.holds && other.token = token

def emailOf (token : Nat) : Option Text := s.store.tokens[token]?.map (·.email)

/-- A transaction that has inserted a user of an address. -/
def emailHeld (email : Text) : Bool :=
  s.consumes.any fun other => other.user = some .new && s.emailOf other.token = some email

def findUser (email : Text) : Option Nat := s.store.users.findIdx? (· = email)

def userIndex : Consumer → Nat
  | .existing user => user
  | .new => s.store.users.length

/-- `ON CONFLICT DO NOTHING` -/
def addAssignment (assignments : List Assignment) (row : Assignment) : List Assignment :=
  if assignments.any fun other => other.user = row.user && other.role = row.role then assignments else assignments ++ [row]

/-- Everything that a consumer has written, at once. -/
def committed (consume : Consume) (token : Token) (user : Consumer) : Store :=
  let id := s.userIndex user
  { s.store with
    users := if user = .new then s.store.users ++ [token.email] else s.store.users
    assignments := token.roles.foldl (fun rows role => addAssignment rows ⟨id, role, .link consume.token⟩) s.store.assignments
    tokens := s.store.tokens.set consume.token { token with consumed := true }
    sessions := s.store.sessions ++ [⟨id, consume.token, consume.began⟩] }

def advanceMaking (index : Nat) (making : Making) : Option State :=
  match making with
  | .requested request =>
    match request.checked with
    | .error _ => some (s.setMaking index .ended)
    | .ok _ => some (s.setMaking index (.assigned request (s.store.assignedTo request.caller)))
  | .assigned request names =>
    -- without assignments nothing is read, and any definitions give nothing
    let creator : Creator := ⟨names, s.store.defs⟩
    match MagicLink.contained creator request.roles with
    | .error _ => some (s.setMaking index .ended)
    | .ok _ => some (s.setMaking index (.contained request creator))
  | .contained request creator =>
    if (request.roles.isEmpty || MagicLink.declared s.store.defs request.roles) && request.redirectUri.all safeRedirect then
      some (s.setMaking index (.declared request creator))
    else some (s.setMaking index .ended)
  | .declared request creator =>
    some
      { s with
        store := { s.store with
          tokens := s.store.tokens ++ [⟨request.email, request.roles, s.now + lifetime request, false, creator⟩] }
        makings := s.makings.set index .ended }
  | .ended => none

def advanceConsume (index : Nat) (consume : Consume) : Option State :=
  match consume.progress with
  | .opened =>
    if s.tokenHeld consume.token then none
    else if s.store.tokens[consume.token]?.any fun token => !token.consumed && consume.began < token.expiresAt then
      some (s.setConsume index consume .claimed)
    else some (s.setConsume index consume .ended)
  | .claimed =>
    (s.emailOf consume.token).map fun email =>
      match s.findUser email with
      | some user => s.setConsume index consume (.known (.existing user))
      | none => s.setConsume index consume .inserting
  | .inserting =>
    (s.emailOf consume.token).bind fun email =>
      if s.emailHeld email then none
      else if (s.findUser email).isSome then some (s.setConsume index consume .ended)
      else some (s.setConsume index consume (.known .new))
  | .known user => some (s.setConsume index consume (.assigned user))
  | .assigned user => some (s.setConsume index consume (.ready user))
  | .ready user =>
    s.store.tokens[consume.token]?.map fun token =>
      { s.setConsume index consume .ended with store := s.committed consume token user }
  | .ended => none

end State

inductive Action where
  | tick (seconds : Nat)
  /-- Roles and assignments change by other paths. -/
  | setRoles (defs : RoleDefs)
  | assign (user : Nat) (role : Text)
  | unassign (user : Nat) (role : Text)
  | provision (email : Text)
  | generate (request : GenerateRequest)
  | advanceMaking (index : Nat)
  | failMaking (index : Nat)
  | consume (token : Nat)
  | advanceConsume (index : Nat)
  /-- A statement of the transaction fails, or its commit, or the process ends. -/
  | failConsume (index : Nat)

def step (safeRedirect : Text → Bool) (s : State) : Action → Option State
  | .tick seconds => some { s with now := s.now + seconds }
  | .setRoles defs => some { s with store := { s.store with defs := defs } }
  | .assign user role =>
    some { s with store := { s.store with assignments := State.addAssignment s.store.assignments ⟨user, role, .other⟩ } }
  | .unassign user role =>
    some { s with
      store := { s.store with assignments := s.store.assignments.filter fun row => !(row.user = user && row.role = role) } }
  | .provision email =>
    if s.emailHeld email || (s.findUser email).isSome then none
    else some { s with store := { s.store with users := s.store.users ++ [email] } }
  | .generate request => some { s with makings := s.makings ++ [.requested request] }
  | .advanceMaking index => s.makings[index]?.bind (s.advanceMaking safeRedirect index)
  | .failMaking index => s.makings[index]?.map fun _ => s.setMaking index .ended
  | .consume token => some { s with consumes := s.consumes ++ [⟨token, s.now, .opened⟩] }
  | .advanceConsume index => s.consumes[index]?.bind (s.advanceConsume index)
  | .failConsume index => s.consumes[index]?.map fun consume => s.setConsume index consume .ended

end RootCx.MagicLink
