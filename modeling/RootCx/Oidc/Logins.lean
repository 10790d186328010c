import RootCx.Lib.Runs
import RootCx.Lib.Text

/-! # Logins through an identity provider

`find_or_create_user` of `extensions/oidc/routes.rs`, one statement at a time: a login
looks for the user of its identity, then for one that was provisioned under its address,
and then registers a new one and gives it a role.  Nothing holds these statements
together, so those of several logins interleave, and each may be the last of its login.
-/

namespace RootCx.Oidc

open RootCx.Text

/-- A subject of a provider. -/
structure Identity where
  provider : Text
  sub : Text
  deriving DecidableEq, Repr

/-- A row of `users`; its id is its place. -/
structure User where
  email : Text
  identity : Option Identity
  isSystem : Bool
  deriving DecidableEq, Repr

inductive Stage where
  | looking
  | refreshing (user : Nat)
  | matching
  | linking (user : Nat)
  | inserting
  | checking (user : Nat)
  | resolving (user : Nat) (firstBoot : Bool)
  | assigning (user : Nat) (role : Text) (firstBoot : Bool)
  /-- Answered, refused, failed or cut off. -/
  | ended
  deriving DecidableEq, Repr

/-- The claims of a login with what its provider is set to. -/
structure Login where
  identity : Identity
  email : Text
  role : Option Text
  autoRegister : Bool
  defaultRole : Text
  stage : Stage
  deriving DecidableEq, Repr

structure State where
  users : List User
  assignments : List (Nat × Text)
  roles : List Text
  logins : List Login
  /-- The users that logins registered. -/
  created : List Nat
  /-- Those of them that the first-boot rule made administrators. -/
  promoted : List Nat
  /-- Every link that was ever made. -/
  links : List (Identity × Nat)
  /-- The users that logins were answered with. -/
  served : List (Identity × Nat)
  deriving DecidableEq, Repr

namespace State

variable (s : State)

def userOf (identity : Identity) : Option Nat := s.users.findIdx? (·.identity = some identity)

/-- A user that was provisioned under an address. -/
def provisioned (email : Text) : Option Nat := s.users.findIdx? fun user => user.email = email && user.identity = none

def linkOf (user : Nat) : Option Identity := s.users[user]?.bind (·.identity)

def hasRole (user : Nat) : Bool := s.assignments.any (·.1 = user)

/-- `is_first_boot` -/
def isFirstBoot : Bool := !s.assignments.any fun row => s.users[row.1]?.any (!·.isSystem)

def setStage (index : Nat) (login : Login) (stage : Stage) : State :=
  { s with logins := s.logins.set index { login with stage := stage } }

/-- The login is answered. -/
def serve (index : Nat) (login : Login) (user : Nat) : State :=
  { s.setStage index login .ended with served := (login.identity, user) :: s.served }

/-- Whether another user has an address, or an identity. -/
def emailTaken (email : Text) (user : Nat) : Bool := (s.users.findIdx? (·.email = email)).any (· ≠ user)

def identityTaken (identity : Identity) (user : Nat) : Bool := (s.userOf identity).any (· ≠ user)

end State

/-- `pick_initial_role` -/
def pickInitialRole (firstBoot : Bool) (claimRole : Option Text) (claimRoleExists : Bool) (defaultRole : Text) : Text :=
  if firstBoot then "admin"
  else
    match claimRole with
    | some role => if claimRoleExists then role else defaultRole
    | none => defaultRole

def withEmail (email : Text) (user : User) : User := { user with email := email }

def withIdentity (identity : Identity) (user : User) : User := { user with identity := some identity }

/-- The next statement of a login; one that breaks a unique index is its last. -/
def State.advance (s : State) (index : Nat) (login : Login) : State :=
  match login.stage with
  | .looking =>
    match s.userOf login.identity with
    | some user => s.setStage index login (.refreshing user)
    | none => s.setStage index login .matching
  | .refreshing user =>
    if s.emailTaken login.email user then s.setStage index login .ended
    else { s with users := s.users.modify user (withEmail login.email) }.serve index login user
  | .matching =>
    match s.provisioned login.email with
    | some user => s.setStage index login (.linking user)
    | none => s.setStage index login (if login.autoRegister then .inserting else .ended)
  | .linking user =>
    if s.identityTaken login.identity user then s.setStage index login .ended
    else
      { s with
        users := s.users.modify user (withIdentity login.identity)
        links := (login.identity, user) :: s.links }.serve index login user
  | .inserting =>
    if s.emailTaken login.email s.users.length || s.identityTaken login.identity s.users.length then
      s.setStage index login .ended
    else
      { s with
        users := s.users ++ [User.mk login.email (some login.identity) false]
        created := s.users.length :: s.created
        links := (login.identity, s.users.length) :: s.links }.setStage index login (.checking s.users.length)
  | .checking user => s.setStage index login (.resolving user s.isFirstBoot)
  | .resolving user firstBoot =>
    let exists' := login.role.any (· ∈ s.roles)
    s.setStage index login (.assigning user (pickInitialRole firstBoot login.role exists' login.defaultRole) firstBoot)
  | .assigning user role firstBoot =>
    { s with
      assignments := if (user, role) ∈ s.assignments then s.assignments else s.assignments ++ [(user, role)]
      promoted := if firstBoot then user :: s.promoted else s.promoted }.serve index login user
  | .ended => s

inductive Action where
  | arrive (identity : Identity) (email : Text) (role : Option Text) (autoRegister : Bool) (defaultRole : Text)
  | advance (index : Nat)
  /-- The query of the first-boot test fails, which counts as no. -/
  | bootUnknown (index : Nat)
  /-- A statement fails, or the process ends. -/
  | fail (index : Nat)
  /-- A user is provisioned by another path. -/
  | provision (email : Text)
  | assign (user : Nat) (role : Text)

def step (s : State) : Action → Option State
  | .arrive identity email role autoRegister defaultRole =>
    some { s with logins := s.logins ++ [⟨identity, email, role, autoRegister, defaultRole, .looking⟩] }
  | .advance index => s.logins[index]?.bind fun login => if login.stage = .ended then none else some (s.advance index login)
  | .bootUnknown index =>
    s.logins[index]?.bind fun login =>
      match login.stage with
      | .checking user => some (s.setStage index login (.resolving user false))
      | _ => none
  | .fail index => s.logins[index]?.bind fun login => if login.stage = .ended then none else some (s.setStage index login .ended)
  | .provision email =>
    if s.users.any (·.email = email) then none else some { s with users := s.users ++ [⟨email, none, false⟩] }
  | .assign user role =>
    if user < s.users.length then some { s with assignments := s.assignments ++ [(user, role)] } else none

/-! ## What a login is in the middle of -/

/-- The user that is registered but has no role yet. -/
def Login.registering (login : Login) : Option Nat :=
  match login.stage with
  | .checking user | .resolving user _ | .assigning user _ _ => some user
  | _ => none

/-- Whether the first-boot test said yes and the role is not assigned yet. -/
def Login.promotes (login : Login) : Bool :=
  match login.stage with
  | .resolving _ firstBoot | .assigning _ _ firstBoot => firstBoot
  | _ => false

/-- What keeps the statements of a login together: its user is not found before it has a
    role, the user that it links is not linked to another identity meanwhile, and no other
    login is about to be promoted when the first-boot test says yes. -/
def State.undisturbed (s : State) (login : Login) : Bool :=
  match login.stage with
  | .looking => s.logins.all fun other => other.registering.all fun user => s.userOf login.identity ≠ some user
  | .linking user => (s.linkOf user).all (· = login.identity)
  | .checking _ => !s.isFirstBoot || s.logins.all (!·.promotes)
  | _ => true

/-- A login is undisturbed, and does not fail between a registration and the role. -/
def Orderly (s : State) : Action → Prop
  | .advance index => ∀ login ∈ s.logins[index]?, s.undisturbed login = true
  | .fail index => ∀ login ∈ s.logins[index]?, login.registering = none
  | _ => True

instance (s : State) (action : Action) : Decidable (Orderly s action) :=
  match action with
  | .advance index => inferInstanceAs (Decidable (∀ login ∈ s.logins[index]?, _))
  | .fail index => inferInstanceAs (Decidable (∀ login ∈ s.logins[index]?, _))
  | .arrive .. | .bootUnknown _ | .provision _ | .assign .. => isTrue trivial

/-- No two users have one identity, and no login has run. -/
structure State.Start (s : State) : Prop where
  distinct : ∀ user other identity, s.linkOf user = some identity → s.linkOf other = some identity → user = other
  linked : ∀ identity user, (identity, user) ∈ s.links ↔ s.linkOf user = some identity
  idle : s.logins = [] ∧ s.created = [] ∧ s.promoted = [] ∧ s.served = []

/-- What logins promise. -/
structure State.Upheld (s : State) : Prop where
  sameUser : ∀ identity user other, (identity, user) ∈ s.links → (identity, other) ∈ s.links → user = other
  sameIdentity : ∀ identity other user, (identity, user) ∈ s.links → (other, user) ∈ s.links → identity = other
  served : ∀ login ∈ s.served, login ∈ s.links
  assigned : ∀ identity user, (identity, user) ∈ s.served → user ∈ s.created → s.hasRole user = true
  oneAdministrator : s.promoted.length ≤ 1

end RootCx.Oidc
