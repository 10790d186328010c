import RootCx.Lib.Runs
import RootCx.Lib.Slots
import RootCx.Lib.Text

/-! # Linked chats

The chats of one channel: `try_complete_link`, `unlink_identity`, `resolve_session` and the
switch of an agent in `extensions/channels/routes.rs`, `ChannelSession` of `origin.rs`.
Identities and sessions are kept by chat, delegations by channel and user.  A link writes
the identity in a transaction and the delegation behind it, in statements of their own; an
unlink is one transaction.  What a transaction writes is seen at its commit, and the rows
that it has touched are its own until then.
-/

namespace RootCx.ChannelLinks

open RootCx.Text

structure Channel where
  /-- The id, as `Uuid` prints it. -/
  id : Text
  provider : Text
  defaultAgent : Text

def LINK_TTL_SECS : Nat := 300

/-- What the UUID of a `trigger_ref` is derived from. -/
def channelDelegationRef (channelId : Text) (userId : Nat) : Text × Nat := (channelId.map Char.toLower, userId)

/-- A row of `delegations` of a channel; the delegatee is the agent of an app. -/
structure Delegation where
  ref : Text × Nat
  delegator : Nat
  app : Text
  revoked : Bool
  deriving DecidableEq, Repr

/-! ## Delegations -/

/-- `UPDATE … SET revoked_at = now()`, on the rows that the statement found. -/
def revokeAll (rows : List Delegation) (ids : List Nat) : List Delegation :=
  rows.mapIdx fun index row => if index ∈ ids then { row with revoked := true } else row

/-- The rows that a revocation by trigger finds. -/
def activeIds (rows : List Delegation) (ref : Text × Nat) : List Nat :=
  (List.range rows.length).filter fun index => rows[index]?.any fun row => row.ref = ref && !row.revoked

/-- `delegation::create` -/
def create (rows : List Delegation) (ref : Text × Nat) (delegator : Nat) (app : Text) : List Delegation :=
  match (activeIds rows ref).head? with
  | some index => rows.modify index fun row => { row with delegator := delegator }
  | none => rows ++ [⟨ref, delegator, app, false⟩]

/-! ## The parties -/

structure PendingLink where
  token : Text
  channelId : Text
  userId : Nat
  created : Nat
  deriving DecidableEq, Repr

/-- The user of a token that is still good, and the tokens that are left. -/
def consumeLinkToken (tokens : List PendingLink) (now : Nat) (channelId token : Text) : Option Nat × List PendingLink :=
  let kept := tokens.filter fun pending => now - pending.created < LINK_TTL_SECS
  match kept.find? (·.token = token) with
  | none => (none, kept)
  | some pending =>
    (if pending.channelId ≠ channelId then none else some pending.userId, kept.filter (·.token ≠ token))

inductive LinkStage where
  | opened
  /-- The identity of the chat is read, and its row locked. -/
  | read
  | dropped
  | revoked
  | upserted
  | committed
  | sessionless
  | resolved
  | cleared
  | ended
  deriving DecidableEq, Repr

/-- The identity is committed, and the delegation is not made yet. -/
def LinkStage.underWay : LinkStage → Bool
  | .committed | .sessionless | .resolved | .cleared => true
  | _ => false

/-- `try_complete_link` for the user of a token. -/
structure Link where
  path : Text
  chat : Text
  user : Nat
  stage : LinkStage
  previous : Option Nat
  dropsSession : Bool
  revokes : List Nat
  app : Text
  deriving DecidableEq, Repr

/-- It has the row of its chat locked. -/
def Link.locks (link : Link) : Bool :=
  match link.stage with
  | .read | .dropped | .revoked => link.previous.isSome
  | .upserted => true
  | _ => false

/-- Another user than the one that links has the chat. -/
def Link.replaces (link : Link) : Option Nat := link.previous.filter (· ≠ link.user)

/-- The rows that its transaction has revoked. -/
def Link.revoked (link : Link) : List Nat := if link.replaces.isSome then link.revokes else []

def Link.pending (link : Link) : List Nat :=
  match link.stage with
  | .revoked | .upserted => link.revoked
  | _ => []

inductive UnlinkStage where
  | opened
  | deleted
  | revoked
  | ended
  deriving DecidableEq, Repr

structure Unlink where
  path : Text
  user : Nat
  stage : UnlinkStage
  chats : List Text
  revokes : List Nat
  deriving DecidableEq, Repr

def Unlink.locks (unlink : Unlink) : List Text :=
  match unlink.stage with
  | .deleted | .revoked => unlink.chats
  | _ => []

def Unlink.pending (unlink : Unlink) : List Nat :=
  match unlink.stage with
  | .revoked => unlink.revokes
  | _ => []

inductive SessionRead where
  | unread
  | absent
  | app (app : Text)
  deriving DecidableEq, Repr

inductive MessageStage where
  | reading
  | loaded (delegation : Nat)
  | validated (delegation : Nat)
  | ended
  deriving DecidableEq, Repr

/-- `do_invoke`: the session and the invoker are read next to each other. -/
structure Message where
  chat : Text
  session : SessionRead
  human : Option (Option Nat)
  stage : MessageStage
  deriving DecidableEq, Repr

/-- An admitted run, with its `ChannelSession`. -/
structure Run where
  chat : Text
  human : Nat
  app : Text
  delegation : Nat
  /-- Its user has been unlinked since, or its chat linked again. -/
  severed : Bool
  deriving DecidableEq, Repr

structure State where
  identities : List (Text × Nat)
  sessions : List (Text × Text)
  delegations : List Delegation
  tokens : List PendingLink
  links : List Link
  unlinks : List Unlink
  messages : List Message
  runs : List Run
  now : Nat
  deriving DecidableEq, Repr

namespace State

variable (channel : Channel) (s : State)

def identityOf (chat : Text) : Option Nat := (s.identities.find? (·.1 = chat)).map (·.2)

def sessionOf (chat : Text) : Option Text := (s.sessions.find? (·.1 = chat)).map (·.2)

/-- The agent that a chat talks to. -/
def agentOf (chat : Text) : Text := (s.sessionOf chat).getD channel.defaultAgent

/-- `create_session` -/
def createSession (chat app : Text) : State := { s with sessions := s.sessions.filter (·.1 ≠ chat) ++ [(chat, app)] }

/-- `reset_session` -/
def resetSession (chat : Text) : State := { s with sessions := s.sessions.filter (·.1 ≠ chat) }

def setLink (index : Nat) (link : Link) : State := { s with links := s.links.set index link }

def setUnlink (index : Nat) (unlink : Unlink) : State := { s with unlinks := s.unlinks.set index unlink }

def setMessage (index : Nat) (message : Message) : State := { s with messages := s.messages.set index message }

/-- A run is cut off from its chat. -/
def sever (cut : Run → Bool) : List Run := s.runs.map fun run => if cut run then { run with severed := true } else run

/-- Another link than the one at `index`, or an unlink, has the row of a chat locked. -/
def chatLocked (index : Nat) (chat : Text) : Bool :=
  ((List.range s.links.length).any fun other => other ≠ index && s.links[other]?.any fun link => link.chat = chat && link.locks) ||
    s.unlinks.any fun unlink => unlink.locks.elem chat

/-- An open transaction has revoked one of the rows. -/
def rowsLocked (ids : List Nat) : Bool :=
  ids.any fun id => s.links.any (·.pending.elem id) || s.unlinks.any (·.pending.elem id)

/-! ### Links -/

/-- The identity is written; everything else of the transaction is done. -/
def upsert (index : Nat) (link : Link) : Option State :=
  if s.chatLocked index link.chat then none else some (s.setLink index { link with stage := .upserted })

/-- The transaction of a link takes effect. -/
def commitLink (index : Nat) (link : Link) : State :=
  { s.setLink index { link with stage := .committed } with
    identities := s.identities.filter (·.1 ≠ link.chat) ++ [(link.chat, link.user)]
    sessions := if link.dropsSession then s.sessions.filter (·.1 ≠ link.chat) else s.sessions
    delegations := revokeAll s.delegations link.revoked
    runs := s.sever fun run => run.chat = link.chat && run.human ≠ link.user }

def advanceLink (index : Nat) (link : Link) : Option State :=
  match link.stage with
  | .opened =>
    if (s.identityOf link.chat).isSome && s.chatLocked index link.chat then none
    else some (s.setLink index { link with stage := .read, previous := s.identityOf link.chat })
  | .read =>
    match link.replaces with
    | none => s.upsert index link
    | some _ => some (s.setLink index { link with stage := .dropped, dropsSession := (s.sessionOf link.chat).isSome })
  | .dropped =>
    link.replaces.bind fun previous =>
      let ids := activeIds s.delegations (channelDelegationRef link.path previous)
      if s.rowsLocked ids then none else some (s.setLink index { link with stage := .revoked, revokes := ids })
  | .revoked => s.upsert index link
  | .upserted => some (s.commitLink index link)
  | .committed =>
    match s.sessionOf link.chat with
    | some app => some (s.setLink index { link with stage := .resolved, app := app })
    | none => some (s.setLink index { link with stage := .sessionless })
  | .sessionless =>
    some ((s.setLink index { link with stage := .resolved, app := channel.defaultAgent }).createSession link.chat channel.defaultAgent)
  | .resolved =>
    let ids := activeIds s.delegations (channelDelegationRef link.path link.user)
    if s.rowsLocked ids then none
    else
      some { s.setLink index { link with stage := .cleared } with
        delegations := revokeAll s.delegations ids
        runs := s.sever fun run => run.chat = link.chat && run.human = link.user }
  | .cleared =>
    let ref := channelDelegationRef link.path link.user
    if s.rowsLocked (activeIds s.delegations ref) then none
    else some { s.setLink index { link with stage := .ended } with delegations := create s.delegations ref link.user link.app }
  | .ended => none

/-! ### Unlinks -/

/-- The transaction of an unlink takes effect. -/
def commitUnlink (index : Nat) (unlink : Unlink) : State :=
  { s.setUnlink index { unlink with stage := .ended } with
    identities := s.identities.filter fun row => !(unlink.chats.elem row.1 && row.2 = unlink.user)
    delegations := revokeAll s.delegations unlink.revokes
    runs := s.sever fun run => run.human = unlink.user }

def advanceUnlink (index : Nat) (unlink : Unlink) : Option State :=
  match unlink.stage with
  | .opened =>
    let chats := (s.identities.filter (·.2 = unlink.user)).map (·.1)
    if chats.any (s.chatLocked s.links.length) then none
    else if chats.isEmpty then some (s.setUnlink index { unlink with stage := .ended })
    else some (s.setUnlink index { unlink with stage := .deleted, chats := chats })
  | .deleted =>
    let ids := activeIds s.delegations (channelDelegationRef unlink.path unlink.user)
    if s.rowsLocked ids then none else some (s.setUnlink index { unlink with stage := .revoked, revokes := ids })
  | .revoked => some (s.commitUnlink index unlink)
  | .ended => none

/-! ### Messages -/

/-- `ChannelSession::validate`, where `gate` is what the fire gate and the provider say. -/
def validate (chat : Text) (human : Nat) (app : Text) (delegation : Nat) (gate : Bool) : Bool :=
  gate && s.identityOf chat = some human &&
    s.delegations[delegation]?.any fun row => row.delegator = human && row.app = app && !row.revoked

def Run.revalidate (run : Run) (gate : Bool) : Bool := s.validate run.chat run.human run.app run.delegation gate

/-- The delegation that `ChannelSession::load` looks for. -/
def findDelegation (human : Nat) (app : Text) : Option Nat :=
  s.delegations.findIdx? fun row =>
    row.ref = channelDelegationRef channel.id human && row.delegator = human && row.app = app && !row.revoked

def advanceMessage (index : Nat) (message : Message) (gate : Bool) : Option State :=
  let ended := some (s.setMessage index { message with stage := .ended })
  match message.stage, message.session, message.human with
  | .reading, .app app, some (some human) =>
    match s.findDelegation channel human app with
    | none => ended
    | some delegation => some (s.setMessage index { message with stage := .loaded delegation })
  | .reading, .app _, some none => ended
  | .loaded delegation, .app app, some (some human) =>
    if s.validate message.chat human app delegation gate then
      some (s.setMessage index { message with stage := .validated delegation })
    else ended
  | .validated delegation, .app app, some (some human) =>
    -- the admission of the run validates once more
    if s.validate message.chat human app delegation gate then
      some { s.setMessage index { message with stage := .ended } with
        runs := s.runs ++ [⟨message.chat, human, app, delegation, false⟩] }
    else ended
  | _, _, _ => none

def readSession (index : Nat) (message : Message) : Option State :=
  match message.stage, message.session with
  | .reading, .unread =>
    match s.sessionOf message.chat with
    | some app => some (s.setMessage index { message with session := .app app })
    | none => some (s.setMessage index { message with session := .absent })
  | .reading, .absent =>
    some ((s.setMessage index { message with session := .app channel.defaultAgent }).createSession message.chat channel.defaultAgent)
  | _, _ => none

def readInvoker (index : Nat) (message : Message) : Option State :=
  match message.stage, message.human with
  | .reading, none => some (s.setMessage index { message with human := some (s.identityOf message.chat) })
  | _, _ => none

end State

inductive Action where
  | tick (seconds : Nat)
  | createLinkToken (path token : Text) (user : Nat)
  /-- A link command of a chat, on a webhook with its own spelling of the channel. -/
  | link (path chat token : Text)
  | advanceLink (index : Nat)
  | failLink (index : Nat)
  | unlink (path : Text) (user : Nat)
  | advanceUnlink (index : Nat)
  | failUnlink (index : Nat)
  | switchAgent (chat app : Text)
  | newSession (chat : Text)
  | message (chat : Text)
  | readSession (index : Nat)
  | readInvoker (index : Nat)
  | advanceMessage (index : Nat) (gate : Bool)
  | failMessage (index : Nat)
  deriving DecidableEq, Repr

def step (channel : Channel) (s : State) : Action → Option State
  | .tick seconds => some { s with now := s.now + seconds }
  | .createLinkToken path token user => some { s with tokens := s.tokens.filter (·.token ≠ token) ++ [⟨token, path, user, s.now⟩] }
  | .link path chat token =>
    if channel.provider = "whatsapp" then some s
    else
      match consumeLinkToken s.tokens s.now path token with
      | (none, tokens) => some { s with tokens := tokens }
      | (some user, tokens) =>
        some { s with tokens := tokens, links := s.links ++ [⟨path, chat, user, .opened, none, false, [], []⟩] }
  | .advanceLink index => s.links[index]?.bind (s.advanceLink channel index)
  | .failLink index =>
    s.links[index]?.bind fun link => if link.stage = .ended then none else some (s.setLink index { link with stage := .ended })
  | .unlink path user => some { s with unlinks := s.unlinks ++ [⟨path, user, .opened, [], []⟩] }
  | .advanceUnlink index => s.unlinks[index]?.bind (s.advanceUnlink index)
  | .failUnlink index =>
    s.unlinks[index]?.bind fun unlink =>
      if unlink.stage = .ended then none else some (s.setUnlink index { unlink with stage := .ended })
  | .switchAgent chat app => some (s.createSession chat app)
  | .newSession chat => some (s.resetSession chat)
  | .message chat => some { s with messages := s.messages ++ [⟨chat, .unread, none, .reading⟩] }
  | .readSession index => s.messages[index]?.bind (s.readSession channel index)
  | .readInvoker index => s.messages[index]?.bind (s.readInvoker index)
  | .advanceMessage index gate => s.messages[index]?.bind fun message => s.advanceMessage channel index message gate
  | .failMessage index => s.messages[index]?.map fun message => s.setMessage index { message with stage := .ended }

/-! ## What keeps authority with the chats -/

namespace State

variable (channel : Channel) (s : State)

/-- A path names the channel as its id is printed, but for the case. -/
def spelled (path : Text) : Bool := path.map Char.toLower = channel.id.map Char.toLower

/-- The user has an active delegation to the agent of an app, by a link. -/
def names (user : Nat) (app : Text) : Bool :=
  s.delegations.any fun row => row.ref = channelDelegationRef channel.id user && row.delegator = user && row.app = app && !row.revoked

/-- A link of the chat to this user is on the way from its identity to its delegation. -/
def linking (chat : Text) (user : Nat) : Bool :=
  s.links.any fun link => link.chat = chat && link.user = user && link.stage.underWay

/-- The user of the chat, if it is linked, has delegated to an agent. -/
def settles (chat app : Text) : Bool :=
  (s.identityOf chat).all fun user => s.linking chat user || s.names channel user app

/-- A user has no other chat whose link is finished. -/
def only (chat : Text) (user : Nat) : Bool :=
  s.identities.all fun row => row.2 ≠ user || row.1 = chat || s.linking row.1 user

/-- Another link of the same chat to the same user is on its way. -/
def linkingBeside (index : Nat) (link : Link) : Bool :=
  (s.setLink index { link with stage := .ended }).linking link.chat link.user

/-- The agent that a delegation of a link is for: one that is still active keeps its own. -/
def delegatedApp (link : Link) : Option Text :=
  match (activeIds s.delegations (channelDelegationRef link.path link.user)).head? with
  | some index => s.delegations[index]?.map (·.app)
  | none => some link.app

/-- A transaction that is still open has revoked the delegations of a user. -/
def severing (user : Nat) : Bool :=
  (s.unlinks.any fun unlink => unlink.stage = .revoked && unlink.user = user) ||
    s.links.any fun link => (link.stage = .revoked || link.stage = .upserted) && link.replaces = some user

/-- The statement of a link does not take the authority of another chat, and its delegation
    is the one that its chat needs. -/
def linkOrderly (index : Nat) (link : Link) : Bool :=
  match link.stage with
  | .upserted =>
    s.identityOf link.chat = link.previous && link.replaces.all fun previous => spelled channel link.path && s.only link.chat previous
  | .sessionless => s.settles channel link.chat channel.defaultAgent
  | .resolved => spelled channel link.path && s.only link.chat link.user
  | .cleared =>
    spelled channel link.path && !s.severing link.user &&
      (s.identityOf link.chat ≠ some link.user || s.linkingBeside index link ||
        s.delegatedApp link = some (s.agentOf channel link.chat))
  | _ => true

end State

/-- A step keeps the chats and the delegations together. -/
def Orderly (channel : Channel) (s : State) : Action → Prop
  | .advanceLink index => ∀ link ∈ s.links[index]?, s.linkOrderly channel index link = true
  | .failLink index => ∀ link ∈ s.links[index]?, link.stage.underWay = true → s.identityOf link.chat = some link.user →
      s.linkingBeside index link = true ∨ s.names channel link.user (s.agentOf channel link.chat) = true
  | .advanceUnlink index => ∀ unlink ∈ s.unlinks[index]?, unlink.stage = .revoked →
      State.spelled channel unlink.path = true ∧ ∀ row ∈ s.identities, row.2 = unlink.user →
        row.1 ∈ unlink.chats ∨ s.linking row.1 unlink.user = true
  | .switchAgent chat app => s.settles channel chat app = true
  | .newSession chat => s.settles channel chat channel.defaultAgent = true
  | .readSession index => ∀ message ∈ s.messages[index]?, message.session = .absent →
      s.settles channel message.chat channel.defaultAgent = true
  | _ => True

instance (channel : Channel) (s : State) (action : Action) : Decidable (Orderly channel s action) := by
  cases action <;> unfold Orderly <;> infer_instance

/-! ## What linked chats promise -/

/-- The authority that a run is admitted under. -/
structure Authorized (channel : Channel) (s : State) (run : Run) : Prop where
  linked : s.identityOf run.chat = some run.human
  delegated : ∃ row, s.delegations[run.delegation]? = some row ∧ row.ref = channelDelegationRef channel.id run.human ∧
    row.delegator = run.human ∧ row.app = run.app ∧ row.revoked = false

structure State.Upheld (channel : Channel) (s : State) : Prop where
  starts : ∀ action next run, step channel s action = some next → next.runs = s.runs ++ [run] → Authorized channel s run
  severed : ∀ run ∈ s.runs, run.severed = true → ∀ gate, s.validate run.chat run.human run.app run.delegation gate = false
  covered : ∀ chat user, s.identityOf chat = some user → s.linking chat user = true ∨
    s.names channel user (s.agentOf channel chat) = true

/-- Nobody has ever linked a chat. -/
structure State.Start (s : State) : Prop where
  identities : s.identities = []
  idle : s.links = [] ∧ s.unlinks = [] ∧ s.messages = [] ∧ s.runs = []

end RootCx.ChannelLinks
