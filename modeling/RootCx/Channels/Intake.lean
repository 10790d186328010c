import RootCx.Channels.Approvals
import RootCx.Lib.Runs
import RootCx.Manifest.Contract

/-! # The intake of a channel

`webhook` of `extensions/channels/routes.rs` and `admit`, `finish` of
`extensions/channels/intake.rs`.  A delivery is admitted in one transaction, a statement
at a time, under an advisory lock of its chat; the table of receipts has a primary key and
a unique index on the running messages of a chat, both of which see the rows of open
transactions too.  A callback of a chat may answer a pending approval.
-/

namespace RootCx.Channels

open RootCx.Text List

/-! ## Receipts -/

def PROCESSING : Text := "processing"

/-- A row of `channel_receipts`; one of an open transaction names it. -/
structure Receipt where
  channel : Text
  delivery : Text
  chat : Option Text
  isMessage : Bool
  status : Text
  tx : Option Nat
  deriving DecidableEq, Repr

namespace Receipt

def key (row : Receipt) : Text × Text := (row.channel, row.delivery)

def running (row : Receipt) : Bool := row.isMessage && row.status = PROCESSING

def conversation (row : Receipt) : Text × Option Text := (row.channel, row.chat)

/-- The two rows break one of the unique indexes. -/
def conflicts (row other : Receipt) : Bool :=
  other.key = row.key || row.running && other.running && other.conversation = row.conversation

end Receipt

structure Receipts where
  rows : List Receipt
  primary : (rows.map Receipt.key).Nodup
  runningChat : ((rows.filter Receipt.running).map Receipt.conversation).Nodup

namespace Receipts

theorem running_map_sublist {change : Receipt → Receipt}
    (kept : ∀ row, (change row).running = true → row.running = true ∧ (change row).conversation = row.conversation)
    (rows : List Receipt) :
    (((rows.map change).filter Receipt.running).map Receipt.conversation).Sublist
      ((rows.filter Receipt.running).map Receipt.conversation) := by
  induction rows with
  | nil => exact .slnil
  | cons row rest ih =>
    rw [map_cons]
    by_cases now : (change row).running = true
    · obtain ⟨before, same⟩ := kept row now
      rw [filter_cons_of_pos now, filter_cons_of_pos before, map_cons, map_cons, same]
      exact ih.cons_cons _
    · rw [filter_cons_of_neg now]
      exact ih.trans ((List.Sublist.filter _ (sublist_cons_self row rest)).map _)

def change (receipts : Receipts) (change : Receipt → Receipt) (keys : ∀ row, (change row).key = row.key)
    (kept : ∀ row, (change row).running = true → row.running = true ∧ (change row).conversation = row.conversation) :
    Receipts where
  rows := receipts.rows.map change
  primary := by
    rw [map_map, show Receipt.key ∘ change = Receipt.key from funext keys]
    exact receipts.primary
  runningChat := receipts.runningChat.sublist (running_map_sublist kept receipts.rows)

def keep (receipts : Receipts) (kept : Receipt → Bool) : Receipts where
  rows := receipts.rows.filter kept
  primary := receipts.primary.sublist (filter_sublist.map _)
  runningChat := receipts.runningChat.sublist ((List.Sublist.filter _ filter_sublist).map _)

/-- `INSERT`, where no index has the row. -/
def insert (receipts : Receipts) (row : Receipt) (free : receipts.rows.any row.conflicts = false) : Receipts where
  rows := receipts.rows ++ [row]
  primary := by
    rw [map_append]
    refine List.Nodup.append receipts.primary (nodup_singleton _) ?_
    intro key older new
    obtain ⟨other, member, rfl⟩ := mem_map.mp older
    have apart := any_eq_false.mp free other member
    rw [map_singleton, mem_singleton] at new
    exact apart (by simp [Receipt.conflicts, new])
  runningChat := by
    rw [filter_append, map_append]
    refine List.Nodup.append receipts.runningChat ((nodup_singleton _).sublist (filter_sublist.map _)) ?_
    intro chat older new
    obtain ⟨other, member, rfl⟩ := mem_map.mp older
    obtain ⟨inside, runs⟩ := mem_filter.mp member
    obtain ⟨same, single, conversation⟩ := mem_map.mp new
    obtain ⟨single, running⟩ := mem_filter.mp single
    obtain rfl := mem_singleton.mp single
    have apart := any_eq_false.mp free other inside
    exact apart (by simp [Receipt.conflicts, running, runs, conversation])

def committed (receipts : Receipts) : List Receipt := receipts.rows.filter (·.tx.isNone)

def statusOf (receipts : Receipts) (channel delivery : Text) : Option Text :=
  (receipts.committed.find? (·.key = (channel, delivery))).map (·.status)

def chatRunning (receipts : Receipts) (channel chat : Text) : Bool :=
  receipts.committed.any fun row => row.running && row.conversation = (channel, some chat)

def commitRow (tx : Nat) (row : Receipt) : Receipt := if row.tx = some tx then { row with tx := none } else row

def commit (receipts : Receipts) (tx : Nat) : Receipts :=
  receipts.change (commitRow tx) (fun row => by unfold commitRow; split <;> rfl)
    (fun row => by unfold commitRow; split <;> exact fun running => ⟨running, rfl⟩)

def rollback (receipts : Receipts) (tx : Nat) : Receipts := receipts.keep (·.tx ≠ some tx)

def finishedStatus (succeeded : Bool) : Text := if succeeded then "done" else "failed"

theorem finishedStatus_ne (succeeded : Bool) : finishedStatus succeeded ≠ PROCESSING := by
  cases succeeded <;> decide

def finishRow (channel delivery : Text) (succeeded : Bool) (row : Receipt) : Receipt :=
  if row.tx = none ∧ row.key = (channel, delivery) ∧ row.status = PROCESSING then { row with status := finishedStatus succeeded }
  else row

/-- `finish` -/
def finish (receipts : Receipts) (channel delivery : Text) (succeeded : Bool) : Receipts :=
  receipts.change (finishRow channel delivery succeeded) (fun row => by unfold finishRow; split <;> rfl) (fun row => by
    unfold finishRow
    split
    · intro running
      exact absurd (of_decide_eq_true (Bool.and_eq_true _ _ ▸ running).2) (finishedStatus_ne succeeded)
    · exact fun running => ⟨running, rfl⟩)

end Receipts

/-! ## Webhooks -/

inductive InboundEvent where
  | message (chatId text : Text)
  | callback (chatId callbackId data : Text)
  | reply (value : Text)
  | ignored
  deriving DecidableEq, Repr

/-- What a webhook request is, with what its checks read. -/
structure Request where
  channelId : Text
  /-- Whether the channel is active and whether it is managed, where it is there. -/
  channel : Option (Bool × Bool)
  knownProvider : Bool
  event : Except Text InboundEvent
  invoker : Option Nat
  authorized : Bool
  delivery : Except Text Text

inductive ApiError where
  | notFound (message : Text)
  | badRequest (message : Text)
  | forbidden (message : Text)
  | conflict (message : Text)
  deriving DecidableEq, Repr

/-- What is admitted: an event of a chat under a delivery id. -/
structure Intake where
  channel : Text
  delivery : Text
  chat : Text
  isMessage : Bool
  data : Text
  deriving DecidableEq, Repr

/-- The checks of `webhook` before the admission; `none` is an answer without one. -/
def webhook (parseUuid : Text → Option Text) (request : Request) : Except ApiError (Option Intake) := do
  let (active, managed) ← (request.channel.elim (.error (.notFound "channel not found")) .ok)
  if !request.knownProvider then .error (.badRequest "unknown channel provider")
  match request.event with
  | .error message => .error (.badRequest message)
  | .ok (.reply _) | .ok .ignored => .ok none
  | .ok (.message chat data) => admissible active managed chat data true
  | .ok (.callback chat _ data) => admissible active managed chat data false
where
  admissible (active managed : Bool) (chat data : Text) (isMessage : Bool) : Except ApiError (Option Intake) := do
    if !active then .ok none
    else
      if managed then
        if request.invoker.isNone then .error (.forbidden "channel identity missing")
        if !request.authorized then .error (.forbidden "channel access revoked")
      match request.delivery with
      | .error message => .error (.badRequest message)
      | .ok delivery =>
        if delivery.isEmpty || byteLength delivery > 512 then .error (.badRequest "invalid delivery id")
        match parseUuid request.channelId with
        | none => .error (.badRequest "invalid channel")
        | some channel => .ok (some ⟨channel, delivery, chat, isMessage, data⟩)

/-- The answer to an approval that the data of a callback is. -/
def approvalAnswer (data : Text) : Option (Text × ApprovalResponse) :=
  match (splitOnce ':' data).getD ([], []) with
  | (action, payload) =>
    if action = "approve" then some (payload, .approved)
    else if action = "deny" then some (payload, .rejected "rejected via chat")
    else none

inductive Outcome where
  | duplicate (status : Text)
  | busy
  | done (succeeded : Bool)
  /-- A statement failed, or the process ended. -/
  | failed
  deriving DecidableEq, Repr

inductive Stage where
  | locking
  | locked
  | unseen
  | clear
  | inserted (new : Bool)
  | looking
  | processing
  /-- The callback has answered an approval. -/
  | replied
  | finishing (succeeded : Bool)
  | ended (outcome : Outcome)
  deriving DecidableEq, Repr

/-- The transaction that holds the advisory lock is open. -/
def Stage.holdsLock : Stage → Bool
  | .locked | .unseen | .clear | .inserted _ => true
  | _ => false

def Stage.runs : Stage → Bool
  | .processing | .replied | .finishing _ => true
  | _ => false

structure Delivery where
  intake : Intake
  stage : Stage
  deriving DecidableEq, Repr

def Intake.key (intake : Intake) : Text × Text := (intake.channel, intake.delivery)

def Intake.lock (intake : Intake) : Text := "channel-intake:" ++ intake.channel ++ ':' :: intake.chat

def Intake.row (intake : Intake) (tx : Option Nat) : Receipt :=
  ⟨intake.channel, intake.delivery, some intake.chat, intake.isMessage, PROCESSING, tx⟩

structure State where
  receipts : Receipts
  deliveries : List Delivery
  /-- The deliveries whose processing ever began. -/
  processed : List (Text × Text)
  approvals : PendingApprovals
  now : Nat

namespace State

variable (hash : Text → Int) (s : State)

def setStage (index : Nat) (delivery : Delivery) (stage : Stage) : State :=
  { s with deliveries := s.deliveries.set index { delivery with stage := stage } }

/-- Another transaction holds the lock. -/
def lockTaken (intake : Intake) : Bool :=
  s.deliveries.any fun other => other.stage.holdsLock && hash other.intake.lock = hash intake.lock

/-- The next statement of an admission, or the receipt behind the processing. -/
def advance (index : Nat) (delivery : Delivery) : Option State :=
  let intake := delivery.intake
  match delivery.stage with
  | .locking => if s.lockTaken hash intake then none else some (s.setStage index delivery .locked)
  | .locked =>
    match s.receipts.statusOf intake.channel intake.delivery with
    | some status => some (s.setStage index delivery (.ended (.duplicate status)))
    | none => some (s.setStage index delivery (if intake.isMessage then .unseen else .clear))
  | .unseen =>
    some (s.setStage index delivery (if s.receipts.chatRunning intake.channel intake.chat then .ended .busy else .clear))
  | .clear =>
    -- a row of another open transaction is waited for; a committed one is a conflict
    if s.receipts.rows.any (fun other => other.tx.isSome && (intake.row (some index)).conflicts other) then none
    else if free : s.receipts.rows.any (intake.row (some index)).conflicts = false then
      some { s.setStage index delivery (.inserted true) with receipts := s.receipts.insert (intake.row (some index)) free }
    else some (s.setStage index delivery (.inserted false))
  | .inserted false => some (s.setStage index delivery .looking)
  | .inserted true =>
    some { s.setStage index delivery .processing with
      receipts := s.receipts.commit index
      processed := s.processed ++ [intake.key] }
  | .looking =>
    some (s.setStage index delivery (.ended ((s.receipts.statusOf intake.channel intake.delivery).elim .failed .duplicate)))
  | .finishing succeeded =>
    some { s.setStage index delivery (.ended (.done succeeded)) with
      receipts := s.receipts.finish intake.channel intake.delivery succeeded }
  | .processing | .replied | .ended _ => none

/-- A callback answers an approval as the owner that its chat resolves to. -/
def answer (index : Nat) (delivery : Delivery) (owner : Option ApprovalOwner) : Option State :=
  if delivery.stage = .processing && !delivery.intake.isMessage then
    (approvalAnswer delivery.intake.data).map fun (id, response) =>
      match owner with
      | none => s.setStage index delivery .replied
      | some owner =>
        { s.setStage index delivery .replied with approvals := (s.approvals.reply s.now id owner response).2 }
  else none

/-- The event of a delivery is processed; a callback always is. -/
def process (index : Nat) (delivery : Delivery) (succeeded : Bool) : Option State :=
  if (delivery.stage = .processing || delivery.stage = .replied) && (succeeded || delivery.intake.isMessage) then
    some (s.setStage index delivery (.finishing succeeded))
  else none

/-- A delivery is cut off: its transaction is rolled back. -/
def fail (index : Nat) (delivery : Delivery) : Option State :=
  match delivery.stage with
  | .ended _ => none
  | _ => some { s.setStage index delivery (.ended .failed) with receipts := s.receipts.rollback index }

/-- A commit takes effect and its answer is lost. -/
def loseCommit (index : Nat) (delivery : Delivery) : Option State :=
  if delivery.stage = .inserted true then
    some { s.setStage index delivery (.ended .failed) with receipts := s.receipts.commit index }
  else none

end State

inductive Action where
  | tick (nanos : Nat)
  | deliver (request : Request)
  | advance (index : Nat)
  | answer (index : Nat) (owner : Option ApprovalOwner)
  | process (index : Nat) (succeeded : Bool)
  | fail (index : Nat)
  | loseCommit (index : Nat)
  /-- A worker asks, some time after it computed when the request expires. -/
  | request (request : ApprovalRequest) (called : Nat)
  /-- Somebody replies, by the route of an app or of a chat. -/
  | reply (id : Text) (app : Option Text) (owner : ApprovalOwner) (response : ApprovalResponse)
  | cancel (id reason : Text)
  | dropWaiter (tx : Nat)
  /-- The process ends, and with it the table of the pending approvals. -/
  | restart

def step (parseUuid : Text → Option Text) (hash : Text → Int) (s : State) : Action → Option State
  | .tick nanos => some { s with now := s.now + nanos }
  | .deliver request =>
    match webhook parseUuid request with
    | .ok (some intake) => some { s with deliveries := s.deliveries ++ [⟨intake, .locking⟩] }
    | _ => some s
  | .advance index => s.deliveries[index]?.bind (s.advance hash index)
  | .answer index owner => s.deliveries[index]?.bind fun delivery => s.answer index delivery owner
  | .process index succeeded => s.deliveries[index]?.bind fun delivery => s.process index delivery succeeded
  | .fail index => s.deliveries[index]?.bind (s.fail index)
  | .loseCommit index => s.deliveries[index]?.bind (s.loseCommit index)
  | .request request called =>
    if called ≤ s.now then some { s with approvals := s.approvals.request request called } else none
  | .reply id app owner response => some { s with approvals := (s.approvals.consume s.now id app owner response).2 }
  | .cancel id reason => some { s with approvals := s.approvals.cancel id reason }
  | .dropWaiter tx => some { s with approvals := s.approvals.dropWaiter tx }
  | .restart =>
    some { s with
      approvals := ⟨[], s.approvals.waiters.map fun waiter => { waiter with dropped := true }⟩ }

end RootCx.Channels
