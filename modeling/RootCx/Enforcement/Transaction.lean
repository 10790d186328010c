import RootCx.Lib.Runs
import RootCx.Enforcement.ValidateSql

/-! # The transaction actor of the SQL proxy

`TxSession` of `governance/enforcement/sql_proxy.rs` keeps one database
transaction open on a task of its own.  Handles send it commands over a bounded
channel; anyone who holds the lifecycle may cancel it; a deadline runs.  Whether
the transaction commits is decided by one compare-and-exchange on the phase.

A state holds the shared cells, the channel, the place where the actor stands and
the log of what happened so far, newest first.  A step is one atomic operation of
one party, so that a run is an interleaving.  The actor polls the branches of its
`select!` one after the other, in the order of the source.
-/

namespace RootCx.Enforcement

open RootCx.Text RootCx.Runs List

/-! ## Messages and cells -/

def TX_GONE : Text := "transaction no longer active"
def TX_CANCELLED : Text := "transaction invocation closed"
def deadlineExceeded : Text := "transaction deadline exceeded"

/-- The capacity of the command channel. -/
def channelCapacity : Nat := 8

inductive Phase where
  | active
  | finalizing
  | cancelRequested
  | finished
  deriving DecidableEq, Repr

inductive TxCmd where
  | exec (sql : Text)
  | poison (error : Text)
  | commit
  | rollback
  deriving DecidableEq, Repr

/-- A command in the channel.  Its reply channel is named by the number of
    commands sent before it. -/
structure Request where
  id : Nat
  cmd : TxCmd
  deriving DecidableEq, Repr

/-- `Result<SqlOk, String>` for `Exec` and `Result<(), String>` for the others. -/
abbrev Answer (Rows : Type) := Except Text (Option Rows)

/-- What the actor does once the rollback has returned. -/
inductive AfterRollback where
  | leave
  -- a Commit that lost the claim
  | cancelled (request : Request)
  -- a Commit of a transaction with a failed statement
  | failed (request : Request) (reason : Text)
  | requested (request : Request)
  deriving DecidableEq, Repr

/-- The places where the actor's task can be interrupted. -/
inductive Pc (Rows : Type) where
  | beginning
  -- the outer `select!`, biased: cancellation, deadline, command
  | pollCancel
  | pollDeadline
  | pollRecv
  | handling (request : Request)
  -- the inner `select!` around the execution of a statement
  | execCancel (request : Request)
  | execDeadline (request : Request)
  | execRun (request : Request)
  | claimed (request : Request)
  | committing (request : Request)
  | rollingBack (after : AfterRollback)
  | answering (request : Request) (answer : Answer Rows)
  -- behind the loop: the channel is dropped, then the phase is set
  | closing
  | closed
  | done

inductive Event (Rows : Type) where
  | cancelWon
  | claimWon
  | taken (request : Request)
  | statementFailed (request : Request) (error : Text)
  | poisoned (request : Request)
  | commitIssued (request : Request)
  | commitDone (request : Request) (result : Except Text Unit)
  | rollbackIssued
  | answered (request : Request) (answer : Answer Rows)

structure Tx (Rows : Type) where
  phase : Phase := .active
  -- the cancellation token, and a winner of the claim that is about to set it
  token : Bool := false
  signalling : Bool := false
  queue : List Request := []
  sent : List Request := []
  senders : Nat := 1
  expired : Bool := false
  failed : Option Text := none
  pc : Pc Rows := .beginning
  log : List (Event Rows) := []

/-! ## One step -/

inductive Action (Rows : Type) where
  -- handles and the holders of the lifecycle
  | send (cmd : TxCmd)
  | cloneSender
  | dropSender
  | cancel
  | signal
  | expire
  -- answers of the database
  | begun (ready : Bool)
  | statementDone (result : Except Text Rows)
  | commitDone (result : Except Text Unit)
  | rollbackDone (result : Except Text Unit)
  -- the actor goes on by itself
  | poll

variable {Rows : Type}

def Tx.record (tx : Tx Rows) (event : Event Rows) : Tx Rows := { tx with log := event :: tx.log }

def Tx.goto (tx : Tx Rows) (pc : Pc Rows) : Tx Rows := { tx with pc := pc }

/-- `TxLifecycle::cancel` up to its compare-and-exchange. -/
def Tx.cancelClaim (tx : Tx Rows) : Tx Rows :=
  if tx.phase = .active then
    { tx with phase := .cancelRequested, signalling := true }.record .cancelWon
  else tx

/-- `TxLifecycle::begin_finalization`. -/
def Tx.beginFinalization (tx : Tx Rows) : Bool × Tx Rows :=
  if tx.phase = .active then (true, { tx with phase := .finalizing }.record .claimWon)
  else (false, tx)

/-- `TxLifecycle::mark_finished`. -/
def Tx.markFinished (tx : Tx Rows) : Tx Rows := { tx with phase := .finished }

/-- The actor's own `cancel`: nobody reads the token between its two parts. -/
def Tx.cancelSelf (tx : Tx Rows) : Tx Rows :=
  if tx.phase = .active then
    { tx with phase := .cancelRequested, token := true }.record .cancelWon
  else tx

def Tx.startRollback (tx : Tx Rows) (after : AfterRollback) : Tx Rows :=
  (tx.record .rollbackIssued).goto (.rollingBack after)

def AfterRollback.answer (result : Except Text Unit) :
    AfterRollback → Option (Request × Answer Rows)
  | .leave => none
  | .cancelled request => some (request, .error TX_CANCELLED)
  | .failed request reason =>
    some (request, .error (match result with
      | .ok () => "transaction rolled back after statement error: " ++ reason
      | .error rollbackError => "transaction failed (" ++ reason ++
          ") and rollback failed (" ++ rollbackError ++ ")"))
  | .requested request => some (request, result.map fun _ => none)

/-- A statement whose wait was cut short: cancel, answer, roll back. -/
def Tx.abandon (tx : Tx Rows) (request : Request) (reason : Text) : Tx Rows :=
  (tx.cancelSelf.record (.answered request (.error reason))).startRollback .leave

/-- The arms of `match cmd`. -/
def Tx.handle (tx : Tx Rows) (request : Request) : Tx Rows :=
  match request.cmd with
  | .exec _ =>
    match tx.failed with
    | some reason =>
      (tx.record (.answered request (.error ("transaction is aborted: " ++ reason)))).goto
        .pollCancel
    | none => tx.goto (.execCancel request)
  | .poison error =>
    (({ tx with failed := some (tx.failed.getD error) }.record (.poisoned request)).record
      (.answered request (.ok none))).goto .pollCancel
  | .commit =>
    match tx.beginFinalization with
    | (true, won) => won.goto (.claimed request)
    | (false, lost) => lost.startRollback (.cancelled request)
  | .rollback => tx.beginFinalization.2.startRollback (.requested request)

/-- One step of the actor that needs no answer of the database. -/
def Tx.poll (tx : Tx Rows) : Option (Tx Rows) :=
  match tx.pc with
  | .pollCancel => some (if tx.token then tx.startRollback .leave else tx.goto .pollDeadline)
  | .pollDeadline =>
    some (if tx.expired then tx.cancelSelf.startRollback .leave else tx.goto .pollRecv)
  | .pollRecv =>
    match tx.queue with
    | request :: rest => some (({ tx with queue := rest }.record (.taken request)).goto (.handling request))
    | [] => some (if tx.senders = 0 then tx.startRollback .leave else tx.goto .pollCancel)
  | .handling request => some (tx.handle request)
  | .execCancel request =>
    some (if tx.token then tx.abandon request TX_CANCELLED else tx.goto (.execDeadline request))
  | .execDeadline request =>
    some (if tx.expired then tx.abandon request deadlineExceeded else tx.goto (.execRun request))
  | .execRun request => some (tx.goto (.execCancel request))
  | .claimed request =>
    some (match tx.failed with
      | some reason => tx.startRollback (.failed request reason)
      | none => (tx.record (.commitIssued request)).goto (.committing request))
  | .answering request answer => some ((tx.record (.answered request answer)).goto .closing)
  | .closing => some (tx.goto .closed)
  | .closed => some (tx.markFinished.goto .done)
  | .beginning | .committing _ | .rollingBack _ | .done => none

/-- Whether the receiving end of the channel still exists. -/
def Pc.isOpen : Pc Rows → Bool
  | .closed | .done => false
  | _ => true

/-- `validate_sql` refuses a statement before the database sees it. -/
def admits (table : CharTable) (sql : Text) (result : Except Text Rows) : Bool :=
  match validateSql table sql, result with
  | some (.error message), .error error => message == error
  | some (.error _), .ok _ => false
  | _, _ => true

def Tx.statementDone (table : CharTable) (tx : Tx Rows) (result : Except Text Rows) :
    Option (Tx Rows) :=
  match tx.pc with
  | .execRun ⟨id, .exec sql⟩ =>
    if admits table sql result then
      some (match result with
        | .ok rows => (tx.record (.answered ⟨id, .exec sql⟩ (.ok (some rows)))).goto .pollCancel
        | .error error =>
          (({ tx with failed := some error }.record (.statementFailed ⟨id, .exec sql⟩ error)).record
            (.answered ⟨id, .exec sql⟩ (.error error))).goto .pollCancel)
    else none
  | _ => none

def Tx.step (table : CharTable) (tx : Tx Rows) : Action Rows → Option (Tx Rows)
  | .send cmd =>
    if tx.senders = 0 ∨ channelCapacity ≤ tx.queue.length ∨ tx.pc.isOpen = false then none
    else
      let request := ⟨tx.sent.length, cmd⟩
      some { tx with queue := tx.queue ++ [request], sent := tx.sent ++ [request] }
  | .cloneSender => if tx.senders = 0 then none else some { tx with senders := tx.senders + 1 }
  | .dropSender => if tx.senders = 0 then none else some { tx with senders := tx.senders - 1 }
  | .cancel => some tx.cancelClaim
  | .signal => if tx.signalling then some { tx with token := true, signalling := false } else none
  | .expire => some { tx with expired := true }
  | .begun ready =>
    match tx.pc with
    | .beginning => some (if ready then tx.goto .pollCancel else tx.goto .closing)
    | _ => none
  | .statementDone result => tx.statementDone table result
  | .commitDone result =>
    match tx.pc with
    | .committing request =>
      some ((tx.record (.commitDone request result)).goto
        (.answering request (result.map fun _ => none)))
    | _ => none
  | .rollbackDone result =>
    match tx.pc with
    | .rollingBack after =>
      some (match after.answer result with
        | none => tx.goto .closing
        | some (request, answer) => tx.goto (.answering request answer))
    | _ => none
  | .poll => tx.poll

/-! ## What is remembered of a run -/

/-- The requests the actor has taken from the channel, newest first. -/
def takenOf (log : List (Event Rows)) : List Request :=
  log.filterMap fun
    | .taken request => some request
    | _ => none

/-- The events around a COMMIT: issuing it, its result, and an `Ok` to a Commit. -/
def Event.isCommit : Event Rows → Bool
  | .commitIssued _ | .commitDone _ _ => true
  | .answered ⟨_, .commit⟩ (.ok _) => true
  | _ => false

def story (log : List (Event Rows)) : List (Event Rows) := log.filter Event.isCommit

/-- How the story of a COMMIT can end. -/
inductive Told : List (Event Rows) → Prop where
  | nothing : Told []
  | committed (request : Request) :
      Told [.answered request (.ok none), .commitDone request (.ok ()), .commitIssued request]
  | failed (request : Request) (error : Text) :
      Told [.commitDone request (.error error), .commitIssued request]

/-- The phase says who has won the claim. -/
def Claims (log : List (Event Rows)) : Phase → Prop
  | .active => .claimWon ∉ log ∧ .cancelWon ∉ log
  | .finalizing => .claimWon ∈ log ∧ .cancelWon ∉ log
  | .cancelRequested => .claimWon ∉ log
  | .finished => .claimWon ∉ log ∨ .cancelWon ∉ log

/-- No event of the log failed the transaction. -/
def Clean (log : List (Event Rows)) : Prop :=
  (∀ request error, .statementFailed request error ∉ log) ∧ ∀ request, .poisoned request ∉ log

/-- What is known of the transaction when a COMMIT is issued for `request`: the
    events before it and the requests sent so far or later. -/
structure Justified (sent : List Request) (request : Request) (before : List (Event Rows)) :
    Prop where
  claimed : .claimWon ∈ before
  clean : Clean before
  member : request ∈ sent
  unpoisoned : ∀ other ∈ sent, ∀ error, other.cmd = .poison error → request.id < other.id

/-- The part of the invariant that does not mention the actor's place. -/
structure Base (tx : Tx Rows) : Prop where
  order : tx.sent = (takenOf tx.log).reverse ++ tx.queue
  ids : tx.sent.map Request.id = range tx.sent.length
  claims : Claims tx.log tx.phase
  clean : tx.failed = none → Clean tx.log
  justified : ∀ request before, (.commitIssued request :: before) <:+ tx.log →
    Justified tx.sent request before

/-- What the actor's place says about the log. -/
def Fits (tx : Tx Rows) : Pc Rows → Prop
  | .claimed request => story tx.log = [] ∧ request.cmd = .commit ∧ tx.phase = .finalizing ∧
      (takenOf tx.log).head? = some request
  | .committing request => story tx.log = [.commitIssued request] ∧ request.cmd = .commit
  | .answering request answer =>
    (story tx.log = [] ∧ (request.cmd = .commit → ∃ error, answer = .error error)) ∨
      (request.cmd = .commit ∧ ∃ result, story tx.log =
        [.commitDone request result, .commitIssued request] ∧ answer = result.map fun _ => none)
  | .handling request => story tx.log = [] ∧ (takenOf tx.log).head? = some request
  | .rollingBack (.requested request) => story tx.log = [] ∧ request.cmd = .rollback
  | .closing | .closed | .done => Told (story tx.log)
  | _ => story tx.log = []

/-- Every Poison that was taken has failed the transaction, up to the one in hand. -/
def Heard (tx : Tx Rows) : Prop :=
  ∀ request ∈ takenOf tx.log, ∀ error, request.cmd = .poison error →
    .poisoned request ∈ tx.log ∨ tx.pc = .handling request

structure Inv (tx : Tx Rows) : Prop where
  base : Base tx
  fits : Fits tx tx.pc
  heard : Heard tx

/-! ## The log -/

@[simp] theorem takenOf_cons_taken (request : Request) (log : List (Event Rows)) :
    takenOf (.taken request :: log) = request :: takenOf log := rfl

theorem story_cons (event : Event Rows) (log : List (Event Rows)) :
    story (event :: log) = if event.isCommit then event :: story log else story log :=
  filter_cons

/-- Events that decide neither the claim nor the fate of the transaction. -/
def Event.isNeutral : Event Rows → Bool
  | .rollbackIssued | .answered _ _ | .commitDone _ _ => true
  | _ => false

variable {event : Event Rows} {tx : Tx Rows} {request : Request} {next : Tx Rows} {pc : Pc Rows}
  {table : CharTable}

theorem takenOf_neutral (neutral : event.isNeutral = true) (log : List (Event Rows)) :
    takenOf (event :: log) = takenOf log := by
  cases event <;> first | rfl | cases neutral

theorem Clean.cons {event : Event Rows} {log : List (Event Rows)} (clean : Clean log)
    (statement : ∀ request error, event ≠ .statementFailed request error)
    (poison : ∀ request, event ≠ .poisoned request) : Clean (event :: log) :=
  ⟨fun request error mem => (mem_cons.mp mem).elim
      (fun equal => statement request error equal.symm) (clean.1 request error),
    fun request mem => (mem_cons.mp mem).elim
      (fun equal => poison request equal.symm) (clean.2 request)⟩

theorem Claims.neutral {log : List (Event Rows)} {phase : Phase} (claims : Claims log phase)
    (claim : event ≠ .claimWon) (cancel : event ≠ .cancelWon) : Claims (event :: log) phase := by
  cases phase <;> simp_all [Claims, mem_cons, eq_comm]

theorem Claims.exclusive {log : List (Event Rows)} {phase : Phase} (claims : Claims log phase) :
    .claimWon ∉ log ∨ .cancelWon ∉ log := by
  cases phase with
  | active => exact .inl claims.1
  | finalizing => exact .inr claims.2
  | cancelRequested => exact .inl claims
  | finished => exact claims

/-! ## Steps that keep the base -/

theorem Base.goto (base : Base tx) (pc : Pc Rows) : Base (tx.goto pc) :=
  ⟨base.order, base.ids, base.claims, base.clean, base.justified⟩

theorem justified_cons (base : Base tx) (other : ∀ request, event ≠ .commitIssued request)
    {before : List (Event Rows)} (issued : (.commitIssued request :: before) <:+ event :: tx.log) :
    Justified tx.sent request before := by
  obtain equal | older := suffix_cons_iff.mp issued
  · exact absurd (cons.inj equal).1.symm (other request)
  · exact base.justified request before older

theorem Base.record {tx : Tx Rows} (base : Base tx) {event : Event Rows}
    (neutral : event.isNeutral = true) : Base (tx.record event) where
  order := by
    rw [Tx.record, takenOf_neutral neutral]
    exact base.order
  ids := base.ids
  claims := base.claims.neutral (by rintro rfl; exact nomatch neutral)
    (by rintro rfl; exact nomatch neutral)
  clean := fun fine => (base.clean fine).cons (by rintro _ _ rfl; exact nomatch neutral)
    (by rintro _ rfl; exact nomatch neutral)
  justified := fun request before issued =>
    justified_cons base (by rintro _ rfl; exact nomatch neutral) issued

theorem Base.win {won : Tx Rows} (base : Base tx) (log : won.log = event :: tx.log)
    (sent : won.sent = tx.sent) (queue : won.queue = tx.queue) (failed : won.failed = tx.failed)
    (claims : Claims (event :: tx.log) won.phase) (kind : event = .claimWon ∨ event = .cancelWon) :
    Base won where
  order := by
    rw [log, sent, queue]
    obtain rfl | rfl := kind <;> exact base.order
  ids := by
    rw [sent]
    exact base.ids
  claims := by rwa [log]
  clean := by
    rw [failed, log]
    intro fine
    obtain rfl | rfl := kind <;> exact (base.clean fine).cons (by simp) (by simp)
  justified := by
    rw [log, sent]
    intro request before issued
    obtain rfl | rfl := kind <;> exact justified_cons base (by simp) issued

theorem Base.cancelClaim (base : Base tx) : Base tx.cancelClaim := by
  unfold Tx.cancelClaim
  split
  next active =>
    have claims := base.claims
    rw [active] at claims
    exact base.win rfl rfl rfl rfl (by simp [Claims, Tx.record, claims.1]) (.inr rfl)
  next => exact base

theorem Base.cancelSelf (base : Base tx) : Base tx.cancelSelf := by
  unfold Tx.cancelSelf
  split
  next active =>
    have claims := base.claims
    rw [active] at claims
    exact base.win rfl rfl rfl rfl (by simp [Claims, Tx.record, claims.1]) (.inr rfl)
  next => exact base

theorem Base.beginFinalization (base : Base tx) : Base tx.beginFinalization.2 := by
  unfold Tx.beginFinalization
  split
  next active =>
    have claims := base.claims
    rw [active] at claims
    exact base.win rfl rfl rfl rfl (by simp [Claims, Tx.record, claims.2]) (.inl rfl)
  next => exact base

theorem Base.fail (base : Base tx) (reason : Text)
    (kind : (∃ request error, event = .statementFailed request error) ∨ ∃ request, event = .poisoned request) :
    Base ({ tx with failed := some reason }.record event) where
  order := by obtain ⟨request, error, rfl⟩ | ⟨request, rfl⟩ := kind <;> exact base.order
  ids := base.ids
  claims := by
    obtain ⟨request, error, rfl⟩ | ⟨request, rfl⟩ := kind <;>
      exact base.claims.neutral (by simp) (by simp)
  clean := fun fine => nomatch fine
  justified := fun request before issued => by
    obtain ⟨_, _, rfl⟩ | ⟨_, rfl⟩ := kind <;> exact justified_cons base (by simp) issued

theorem Base.take (base : Base tx) {rest : List Request} (next : tx.queue = request :: rest) :
    Base ({ tx with queue := rest }.record (.taken request)) where
  order := by
    have order := base.order
    rw [next] at order
    simpa [Tx.record] using order
  ids := base.ids
  claims := base.claims.neutral (by simp) (by simp)
  clean := fun fine => (base.clean fine).cons (by simp) (by simp)
  justified := fun request before issued => justified_cons base (by simp) issued

theorem Base.id_lt (base : Base tx) (mem : request ∈ tx.sent) : request.id < tx.sent.length := by
  have inside : request.id ∈ tx.sent.map Request.id := mem_map_of_mem mem
  rw [base.ids] at inside
  exact mem_range.mp inside

theorem Base.send (base : Base tx) (cmd : TxCmd) :
    Base { tx with
      queue := tx.queue ++ [⟨tx.sent.length, cmd⟩], sent := tx.sent ++ [⟨tx.sent.length, cmd⟩] } where
  order := by
    have order := base.order
    show tx.sent ++ [_] = _ ++ (tx.queue ++ [_])
    rw [← append_assoc, ← order]
  ids := by
    rw [map_append, base.ids, length_append, length_singleton, range_succ]
    rfl
  claims := base.claims
  clean := base.clean
  justified := fun request before issued => by
    obtain ⟨claimed, clean, mem, unpoisoned⟩ := base.justified request before issued
    refine ⟨claimed, clean, mem_append_left _ mem, ?_⟩
    intro other sent error poison
    obtain old | new := mem_append.mp sent
    · exact unpoisoned other old error poison
    · rw [mem_singleton.mp new]
      exact base.id_lt mem

theorem Base.taken_lt_queued (base : Base tx) {first later : Request} (taken : first ∈ takenOf tx.log)
    (queued : later ∈ tx.queue) : first.id < later.id := by
  have increasing : (tx.sent.map Request.id).Pairwise (· < ·) := by
    rw [base.ids]
    exact pairwise_lt_range
  rw [base.order, pairwise_map, pairwise_append] at increasing
  exact increasing.2.2 first (mem_reverse.mpr taken) later queued

theorem Base.issue (base : Base tx) (fine : tx.failed = none) (finalizing : tx.phase = .finalizing)
    (inHand : (takenOf tx.log).head? = some request)
    (heard : ∀ other ∈ takenOf tx.log, ∀ error, other.cmd = .poison error → .poisoned other ∈ tx.log) :
    Base (tx.record (.commitIssued request)) where
  order := base.order
  ids := base.ids
  claims := base.claims.neutral (by simp) (by simp)
  clean := fun fine => (base.clean fine).cons (by simp) (by simp)
  justified := fun issued before suffix => by
    obtain equal | older := suffix_cons_iff.mp suffix
    · obtain ⟨same, rfl⟩ := cons.inj equal
      obtain rfl := Event.commitIssued.inj same
      have taken : issued ∈ takenOf tx.log := mem_of_mem_head? inHand
      have claims := base.claims
      rw [finalizing] at claims
      refine ⟨claims.1, base.clean fine, ?_, ?_⟩
      · show issued ∈ tx.sent
        rw [base.order]
        exact mem_append_left _ (mem_reverse.mpr taken)
      · intro other sent error poison
        replace sent : other ∈ tx.sent := sent
        rw [base.order] at sent
        obtain old | queued := mem_append.mp sent
        · -- a Poison taken before would have failed the transaction
          have poisoned := heard other (mem_reverse.mp old) error poison
          exact absurd poisoned ((base.clean fine).2 other)
        · exact base.taken_lt_queued taken queued
    · exact base.justified issued before older

/-! ## Steps that keep the place -/

/-- Parties other than the actor change neither the story nor what was taken; a
    claim that is already won stays as it is. -/
theorem Fits.keep (fits : Fits tx pc) (story_eq : story next.log = story tx.log)
    (taken : takenOf next.log = takenOf tx.log) (phase : tx.phase = .finalizing → next.phase = .finalizing) :
    Fits next pc := by
  unfold Fits at fits ⊢
  rw [story_eq, taken]
  split <;> simp_all

theorem Heard.keep (heard : Heard tx) (pc : next.pc = tx.pc) (taken : takenOf next.log = takenOf tx.log)
    (poisoned : ∀ request, .poisoned request ∈ tx.log → .poisoned request ∈ next.log) : Heard next := by
  intro request mem error poison
  rw [taken] at mem
  rw [pc]
  exact (heard request mem error poison).imp_left (poisoned request)

theorem Heard.move (heard : Heard tx) (idle : ∀ request, tx.pc ≠ .handling request)
    (taken : takenOf next.log = takenOf tx.log)
    (poisoned : ∀ request, .poisoned request ∈ tx.log → .poisoned request ∈ next.log) : Heard next := by
  intro request mem error poison
  rw [taken] at mem
  obtain done | waiting := heard request mem error poison
  · exact .inl (poisoned request done)
  · exact absurd waiting (idle request)

theorem Inv.frame (inv : Inv tx) (senders : Nat) (token signalling expired : Bool) :
    Inv { tx with senders := senders, token := token, signalling := signalling, expired := expired } :=
  ⟨⟨inv.base.order, inv.base.ids, inv.base.claims, inv.base.clean, inv.base.justified⟩,
    inv.fits.keep rfl rfl id, inv.heard⟩

theorem cancelClaim_inv (inv : Inv tx) : Inv tx.cancelClaim := by
  refine ⟨inv.base.cancelClaim, ?_, ?_⟩
  · have pc : tx.cancelClaim.pc = tx.pc := by unfold Tx.cancelClaim; split <;> rfl
    rw [pc]
    unfold Tx.cancelClaim
    split
    next active => exact inv.fits.keep rfl rfl (by simp [active])
    next => exact inv.fits
  · unfold Tx.cancelClaim
    split
    next => exact inv.heard.keep rfl rfl (by simp [Tx.record])
    next => exact inv.heard

/-! ## Steps of the actor -/

/-- No COMMIT so far, and no Poison is waiting for its effect. -/
structure Quiet (tx : Tx Rows) : Prop where
  base : Base tx
  story : story tx.log = []
  heard : ∀ request ∈ takenOf tx.log, ∀ error, request.cmd = .poison error →
    .poisoned request ∈ tx.log

theorem Inv.quiet (inv : Inv tx) (story : story tx.log = [])
    (harmless : ∀ request error, tx.pc = .handling request → request.cmd ≠ .poison error) : Quiet tx :=
  ⟨inv.base, story, fun request mem error poison =>
    (inv.heard request mem error poison).resolve_right
      fun inHand => harmless request error inHand poison⟩

theorem Quiet.goto (quiet : Quiet tx) (fits : Fits tx pc) :
    Inv (tx.goto pc) where
  base := quiet.base.goto pc
  fits := fits.keep rfl rfl id
  heard := fun request mem error poison => .inl (quiet.heard request mem error poison)

theorem Quiet.record {tx : Tx Rows} (quiet : Quiet tx) (event : Event Rows)
    (neutral : event.isNeutral = true) (other : event.isCommit = false) :
    Quiet (tx.record event) where
  base := quiet.base.record neutral
  story := by rw [Tx.record, story_cons, other, if_neg Bool.false_ne_true, quiet.story]
  heard := by
    rw [Tx.record, takenOf_neutral neutral]
    exact fun request mem error poison =>
      mem_cons_of_mem _ (quiet.heard request mem error poison)

theorem Quiet.startRollback (quiet : Quiet tx) {after : AfterRollback}
    (kind : ∀ request, after = .requested request → request.cmd = .rollback) :
    Inv (tx.startRollback after) := by
  have recorded := quiet.record .rollbackIssued rfl rfl
  apply recorded.goto
  cases after with
  | requested request => exact ⟨recorded.story, kind request rfl⟩
  | leave => exact recorded.story
  | cancelled request => exact recorded.story
  | failed request reason => exact recorded.story

theorem Quiet.cancelSelf (quiet : Quiet tx) : Quiet tx.cancelSelf := by
  refine ⟨quiet.base.cancelSelf, ?_, ?_⟩
  · unfold Tx.cancelSelf
    split <;> exact quiet.story
  · unfold Tx.cancelSelf
    split
    next => exact fun request mem error poison =>
      mem_cons_of_mem _ (quiet.heard request mem error poison)
    next => exact quiet.heard

theorem Quiet.beginFinalization (quiet : Quiet tx) : Quiet tx.beginFinalization.2 := by
  refine ⟨quiet.base.beginFinalization, ?_, ?_⟩
  · unfold Tx.beginFinalization
    split <;> exact quiet.story
  · unfold Tx.beginFinalization
    split
    next => exact fun request mem error poison =>
      mem_cons_of_mem _ (quiet.heard request mem error poison)
    next => exact quiet.heard

theorem Quiet.abandon (quiet : Quiet tx) (request : Request) (reason : Text) :
    Inv (tx.abandon request reason) := by
  have answered := quiet.cancelSelf.record (.answered request (.error reason)) rfl (by
    cases request with
    | mk id cmd => cases cmd <;> rfl)
  exact answered.startRollback (by simp)

theorem poison_quiet (inv : Inv tx) (reason : Text) (quietStory : story tx.log = [])
    (inHand : tx.pc = .handling request) :
    Quiet ({ tx with failed := some reason }.record (.poisoned request)) where
  base := inv.base.fail reason (.inr ⟨request, rfl⟩)
  story := quietStory
  heard := by
    intro other mem error poison
    obtain done | waiting := inv.heard other mem error poison
    · exact mem_cons_of_mem _ done
    · obtain rfl := Pc.handling.inj (inHand.symm.trans waiting)
      exact mem_cons_self

theorem beginFinalization_won {won : Tx Rows} (claim : tx.beginFinalization = (true, won)) :
    won.phase = .finalizing ∧ won.log = .claimWon :: tx.log := by
  unfold Tx.beginFinalization at claim
  split at claim
  · obtain ⟨-, rfl⟩ := Prod.mk.inj claim
    exact ⟨rfl, rfl⟩
  · exact absurd (Prod.mk.inj claim).1 Bool.false_ne_true

theorem handle_inv (inv : Inv tx) (inHand : tx.pc = .handling request) : Inv (tx.handle request) := by
  have fits := inv.fits
  rw [inHand] at fits
  obtain ⟨quietStory, taken⟩ := fits
  -- a request that is no Poison leaves nothing waiting
  have quiet : (∀ error, request.cmd ≠ .poison error) → Quiet tx := by
    intro harmless
    refine inv.quiet quietStory fun other error waiting => ?_
    obtain rfl := Pc.handling.inj (inHand.symm.trans waiting)
    exact harmless error
  unfold Tx.handle
  split
  next sql exec =>
    have quiet := quiet (by simp [exec])
    split
    next reason failed =>
      refine (quiet.record _ rfl ?_).goto (quiet.record _ rfl ?_).story <;>
        (cases request; simp only at exec; subst exec; rfl)
    next => exact quiet.goto quiet.story
  next error poison =>
    have poisoned := poison_quiet inv (tx.failed.getD error) quietStory inHand
    refine (poisoned.record _ rfl ?_).goto (poisoned.record _ rfl ?_).story <;>
      (cases request; simp only at poison; subst poison; rfl)
  next commit =>
    have quiet := quiet (by simp [commit])
    split
    next won claim =>
      have quietWon := quiet.beginFinalization
      rw [claim] at quietWon
      obtain ⟨finalizing, log⟩ := beginFinalization_won claim
      refine quietWon.goto ⟨quietWon.story, commit, finalizing, ?_⟩
      rw [log]
      exact taken
    next lost claim =>
      have quietLost := quiet.beginFinalization
      rw [claim] at quietLost
      exact quietLost.startRollback (by simp)
  next rollback =>
    have quiet := quiet (by simp [rollback])
    exact quiet.beginFinalization.startRollback (by simp [rollback])

/-- The answer that ends the story of a COMMIT, or says that there was none. -/
theorem answering_told {answer : Answer Rows} (fits : Fits tx (.answering request answer)) :
    Told (story (.answered request answer :: tx.log)) := by
  rw [story_cons]
  obtain ⟨quiet, refused⟩ | ⟨commit, result, told, rfl⟩ := fits
  · have silent : (Event.answered request answer).isCommit = false := by
      obtain ⟨id, cmd⟩ := request
      cases cmd with
      | commit =>
        obtain ⟨error, rfl⟩ := refused rfl
        rfl
      | exec sql => rfl
      | poison error => rfl
      | rollback => rfl
    rw [silent, if_neg Bool.false_ne_true, quiet]
    exact .nothing
  · obtain ⟨id, cmd⟩ := request
    obtain rfl : cmd = .commit := commit
    rw [told]
    cases result with
    | ok _ => exact .committed _
    | error message => exact .failed _ message

theorem poll_inv (inv : Inv tx) (polled : tx.poll = some next) : Inv next := by
  have fits := inv.fits
  unfold Tx.poll at polled
  -- away from `handling`, a place without a COMMIT is quiet
  have quiet (story : story tx.log = []) (idle : ∀ request, tx.pc ≠ .handling request) : Quiet tx :=
    inv.quiet story fun request _ waiting => absurd waiting (idle request)
  split at polled
  next pc =>
    rw [pc] at fits
    have quiet := quiet fits (by simp [pc])
    cases polled
    split
    · exact quiet.startRollback (by simp)
    · exact quiet.goto quiet.story
  next pc =>
    rw [pc] at fits
    have quiet := quiet fits (by simp [pc])
    cases polled
    split
    · exact quiet.cancelSelf.startRollback (by simp)
    · exact quiet.goto quiet.story
  next pc =>
    rw [pc] at fits
    have quiet := quiet fits (by simp [pc])
    split at polled
    next request rest waiting =>
      cases polled
      refine ⟨(quiet.base.take waiting).goto _, ⟨quiet.story, rfl⟩, ?_⟩
      intro other mem error poison
      obtain rfl | older := mem_cons.mp mem
      · exact .inr rfl
      · exact .inl (mem_cons_of_mem _ (quiet.heard other older error poison))
    next =>
      cases polled
      split
      · exact quiet.startRollback (by simp)
      · exact quiet.goto quiet.story
  next request pc =>
    cases polled
    exact handle_inv inv pc
  next request pc =>
    rw [pc] at fits
    have quiet := quiet fits (by simp [pc])
    cases polled
    split
    · exact quiet.abandon request TX_CANCELLED
    · exact quiet.goto quiet.story
  next request pc =>
    rw [pc] at fits
    have quiet := quiet fits (by simp [pc])
    cases polled
    split
    · exact quiet.abandon request deadlineExceeded
    · exact quiet.goto quiet.story
  next request pc =>
    rw [pc] at fits
    have quiet := quiet fits (by simp [pc])
    cases polled
    exact quiet.goto quiet.story
  next request pc =>
    rw [pc] at fits
    obtain ⟨quietStory, commit, finalizing, inHand⟩ := fits
    have quiet := quiet quietStory (by simp [pc])
    cases polled
    split
    next reason failed => exact quiet.startRollback (by simp)
    next fine =>
      refine ⟨(quiet.base.issue fine finalizing inHand quiet.heard).goto _, ?_, ?_⟩
      · refine ⟨?_, commit⟩
        show story (.commitIssued request :: tx.log) = _
        rw [story_cons, quietStory]
        rfl
      · exact fun other mem error poison =>
          .inl (mem_cons_of_mem _ (quiet.heard other mem error poison))
  next request answer pc =>
    rw [pc] at fits
    cases polled
    refine ⟨(inv.base.record rfl).goto _, answering_told fits, ?_⟩
    exact inv.heard.move (by simp [pc]) rfl fun _ => mem_cons_of_mem _
  next pc =>
    rw [pc] at fits
    cases polled
    exact ⟨inv.base.goto _, fits, inv.heard.move (by simp [pc]) rfl fun _ => id⟩
  next pc =>
    rw [pc] at fits
    cases polled
    refine ⟨⟨inv.base.order, inv.base.ids, ?_, inv.base.clean, inv.base.justified⟩, fits,
      inv.heard.move (by simp [pc]) rfl fun _ => id⟩
    exact inv.base.claims.exclusive
  next => cases polled
  next => cases polled
  next => cases polled
  next => cases polled

theorem statementDone_inv {result : Except Text Rows} (inv : Inv tx)
    (returned : tx.statementDone table result = some next) : Inv next := by
  have fits := inv.fits
  unfold Tx.statementDone at returned
  split at returned
  next id sql pc =>
    rw [pc] at fits
    have quiet : Quiet tx := inv.quiet fits (by simp [pc])
    split at returned
    next =>
      cases returned
      cases result with
      | ok rows =>
        have answered := quiet.record (.answered ⟨id, .exec sql⟩ (.ok (some rows))) rfl rfl
        exact answered.goto answered.story
      | error error =>
        have failed : Quiet ({ tx with failed := some error }.record
            (.statementFailed ⟨id, .exec sql⟩ error)) :=
          ⟨quiet.base.fail error (.inl ⟨_, _, rfl⟩), quiet.story,
            fun request mem error poison =>
              mem_cons_of_mem _ (quiet.heard request mem error poison)⟩
        have answered := failed.record (.answered ⟨id, .exec sql⟩ (.error error)) rfl rfl
        exact answered.goto answered.story
    next => cases returned
  next => cases returned

theorem rollbackDone_inv {tx : Tx Rows} {after : AfterRollback} (inv : Inv tx)
    (pc : tx.pc = .rollingBack after) (result : Except Text Unit) :
    Inv (match after.answer result with
      | none => tx.goto .closing
      | some (request, answer) => tx.goto (.answering request answer)) := by
  have fits := inv.fits
  rw [pc] at fits
  cases after with
  | leave =>
    have quiet : Quiet tx := inv.quiet fits (by simp [pc])
    exact quiet.goto (by rw [Fits, quiet.story]; exact .nothing)
  | cancelled request =>
    have quiet : Quiet tx := inv.quiet fits (by simp [pc])
    exact quiet.goto (.inl ⟨quiet.story, fun _ => ⟨_, rfl⟩⟩)
  | failed request reason =>
    have quiet : Quiet tx := inv.quiet fits (by simp [pc])
    exact quiet.goto (.inl ⟨quiet.story, fun _ => ⟨_, rfl⟩⟩)
  | requested request =>
    have quiet : Quiet tx := inv.quiet fits.1 (by simp [pc])
    exact quiet.goto (.inl ⟨quiet.story, fun commit => nomatch fits.2.symm.trans commit⟩)

theorem step_inv {action : Action Rows} (inv : Inv tx) (stepped : tx.step table action = some next) :
    Inv next := by
  have fits := inv.fits
  cases action with
  | send cmd =>
    simp only [Tx.step, Option.ite_none_left_eq_some, Option.some.injEq] at stepped
    obtain ⟨-, rfl⟩ := stepped
    exact ⟨inv.base.send cmd, inv.fits.keep rfl rfl id, inv.heard⟩
  | cloneSender =>
    simp only [Tx.step, Option.ite_none_left_eq_some, Option.some.injEq] at stepped
    obtain ⟨-, rfl⟩ := stepped
    exact inv.frame _ _ _ _
  | dropSender =>
    simp only [Tx.step, Option.ite_none_left_eq_some, Option.some.injEq] at stepped
    obtain ⟨-, rfl⟩ := stepped
    exact inv.frame _ _ _ _
  | cancel =>
    cases stepped
    exact cancelClaim_inv inv
  | signal =>
    simp only [Tx.step, Option.ite_none_right_eq_some, Option.some.injEq] at stepped
    obtain ⟨-, rfl⟩ := stepped
    exact inv.frame _ _ _ _
  | expire =>
    cases stepped
    exact inv.frame _ _ _ _
  | begun ready =>
    simp only [Tx.step] at stepped
    split at stepped
    next pc =>
      rw [pc] at fits
      have quiet : Quiet tx := inv.quiet fits (by simp [pc])
      cases stepped
      split
      · exact quiet.goto quiet.story
      · exact quiet.goto (by rw [Fits, quiet.story]; exact .nothing)
    next => cases stepped
  | statementDone result => exact statementDone_inv inv stepped
  | commitDone result =>
    simp only [Tx.step] at stepped
    split at stepped
    next request pc =>
      rw [pc] at fits
      obtain ⟨issued, commit⟩ := fits
      cases stepped
      refine ⟨(inv.base.record rfl).goto _, .inr ⟨commit, result, ?_, rfl⟩, ?_⟩
      · show story (.commitDone request result :: tx.log) = _
        rw [story_cons, issued]
        rfl
      · exact inv.heard.move (by simp [pc]) rfl fun _ => mem_cons_of_mem _
    next => cases stepped
  | rollbackDone result =>
    simp only [Tx.step] at stepped
    split at stepped
    next after pc =>
      cases stepped
      exact rollbackDone_inv inv pc result
    next => cases stepped
  | poll => exact poll_inv inv stepped

theorem start_inv : Inv ({} : Tx Rows) where
  base := ⟨rfl, rfl, ⟨by simp, by simp⟩, fun _ => ⟨by simp, by simp⟩, fun _ _ issued =>
    absurd issued (by simp)⟩
  fits := rfl
  heard := fun _ mem => absurd mem (by simp [takenOf])

theorem run_inv {actions : List (Action Rows)} (ran : run (Tx.step table) {} actions = some tx) : Inv tx :=
  run_invariant step_inv start_inv ran

/-! ## The log only grows -/

theorem Tx.cancelSelf_log (tx : Tx Rows) : tx.log <:+ tx.cancelSelf.log := by
  unfold Tx.cancelSelf
  split
  · exact suffix_cons _ _
  · exact suffix_rfl

theorem Tx.beginFinalization_log (tx : Tx Rows) : tx.log <:+ tx.beginFinalization.2.log := by
  unfold Tx.beginFinalization
  split
  · exact suffix_cons _ _
  · exact suffix_rfl

theorem Tx.handle_log (tx : Tx Rows) (request : Request) : tx.log <:+ (tx.handle request).log := by
  unfold Tx.handle
  split
  · split
    · exact suffix_cons _ _
    · exact suffix_rfl
  · exact (suffix_cons _ _).trans (suffix_cons _ _)
  · have grows := tx.beginFinalization_log
    split
    next won claim =>
      rw [claim] at grows
      exact grows
    next lost claim =>
      rw [claim] at grows
      exact grows.trans (suffix_cons _ _)
  · exact tx.beginFinalization_log.trans (suffix_cons _ _)

theorem Tx.abandon_log (tx : Tx Rows) (request : Request) (reason : Text) :
    tx.log <:+ (tx.abandon request reason).log :=
  tx.cancelSelf_log.trans ((suffix_cons _ _).trans (suffix_cons _ _))

theorem Tx.poll_log (polled : tx.poll = some next) : tx.log <:+ next.log := by
  unfold Tx.poll at polled
  split at polled
  case h_3 =>
    split at polled
    · cases polled
      exact suffix_cons _ _
    · cases polled
      split
      · exact suffix_cons _ _
      · exact suffix_rfl
  case h_12 | h_13 | h_14 | h_15 => cases polled
  all_goals obtain rfl := Option.some.inj polled
  case h_1 => split <;> first | exact suffix_cons _ _ | exact suffix_rfl
  case h_2 =>
    split
    · exact tx.cancelSelf_log.trans (suffix_cons _ _)
    · exact suffix_rfl
  case h_4 => exact tx.handle_log _
  case h_5 | h_6 =>
    split
    · exact tx.abandon_log _ _
    · exact suffix_rfl
  case h_8 => split <;> exact suffix_cons _ _
  case h_9 => exact suffix_cons _ _
  case h_7 | h_10 | h_11 => exact suffix_rfl

theorem step_log {action : Action Rows} (stepped : tx.step table action = some next) :
    tx.log <:+ next.log := by
  cases action with
  | send cmd | cloneSender | dropSender =>
    simp only [Tx.step, Option.ite_none_left_eq_some, Option.some.injEq] at stepped
    obtain ⟨-, rfl⟩ := stepped
    exact suffix_rfl
  | signal =>
    simp only [Tx.step, Option.ite_none_right_eq_some, Option.some.injEq] at stepped
    obtain ⟨-, rfl⟩ := stepped
    exact suffix_rfl
  | cancel =>
    cases stepped
    unfold Tx.cancelClaim
    split
    · exact suffix_cons _ _
    · exact suffix_rfl
  | expire =>
    cases stepped
    exact suffix_rfl
  | begun ready =>
    simp only [Tx.step] at stepped
    split at stepped
    · cases stepped
      split <;> exact suffix_rfl
    · cases stepped
  | statementDone result =>
    simp only [Tx.step, Tx.statementDone] at stepped
    split at stepped
    · simp only [Option.ite_none_right_eq_some, Option.some.injEq] at stepped
      obtain ⟨-, rfl⟩ := stepped
      cases result with
      | ok rows => exact suffix_cons _ _
      | error error => exact (suffix_cons _ _).trans (suffix_cons _ _)
    · cases stepped
  | commitDone result =>
    simp only [Tx.step] at stepped
    split at stepped
    · cases stepped
      exact suffix_cons _ _
    · cases stepped
  | rollbackDone result =>
    simp only [Tx.step] at stepped
    split at stepped
    · cases stepped
      split <;> exact suffix_rfl
    · cases stepped
  | poll => exact Tx.poll_log stepped

theorem run_log {last : Tx Rows} {actions : List (Action Rows)}
    (ran : run (Tx.step table) tx actions = some last) : tx.log <:+ last.log := by
  have grows : ∀ {s action next}, tx.log <:+ s.log → Tx.step table s action = some next →
      tx.log <:+ next.log := fun older stepped => older.trans (step_log stepped)
  exact run_invariant grows suffix_rfl ran

/-! ## At most one COMMIT, and a truthful answer -/

def Event.isIssue : Event Rows → Bool
  | .commitIssued _ => true
  | _ => false

theorem Fits.story_cases (fits : Fits tx pc) :
    Told (story tx.log) ∨ (∃ request, story tx.log = [.commitIssued request]) ∨
      ∃ request result, request.cmd = .commit ∧ pc = .answering request (result.map fun _ => none) ∧
        story tx.log = [.commitDone request result, .commitIssued request] := by
  have quiet (nothing : story tx.log = []) : Told (story tx.log) := nothing ▸ .nothing
  unfold Fits at fits
  split at fits
  next => exact .inl (quiet fits.1)
  next request => exact .inr (.inl ⟨request, fits.1⟩)
  next request answer =>
    obtain ⟨nothing, -⟩ | ⟨commit, result, told, rfl⟩ := fits
    · exact .inl (quiet nothing)
    · exact .inr (.inr ⟨request, result, commit, rfl, told⟩)
  next => exact .inl (quiet fits.1)
  next => exact .inl (quiet fits.1)
  next => exact .inl fits
  next => exact .inl fits
  next => exact .inl fits
  next => exact .inl (quiet fits)

theorem commits_le_one (inv : Inv tx) : (tx.log.filter Event.isIssue).length ≤ 1 := by
  have inside : tx.log.filter Event.isIssue = (story tx.log).filter Event.isIssue := by
    rw [story, filter_filter]
    refine filter_congr fun event _ => ?_
    cases event <;> rfl
  rw [inside]
  obtain told | ⟨request, told⟩ | ⟨request, result, -, -, told⟩ := inv.fits.story_cases
  · generalize story tx.log = events at told
    cases told with
    | nothing => exact Nat.zero_le 1
    | committed request => exact Nat.le_refl 1
    | failed request error => exact Nat.le_refl 1
  · rw [told]
    exact Nat.le_refl 1
  · rw [told]
    exact Nat.le_refl 1

/-- The Commit request has been answered `Ok`, or the actor holds that answer and
    sends it next. -/
def AnswersOk (tx : Tx Rows) (request : Request) : Prop :=
  ∃ rows, .answered request (.ok rows) ∈ tx.log ∨ tx.pc = .answering request (.ok rows)

theorem answersOk_iff_committed (inv : Inv tx) (id : Nat) :
    AnswersOk tx ⟨id, .commit⟩ ↔ .commitDone ⟨id, .commit⟩ (.ok ()) ∈ tx.log := by
  have told {event : Event Rows} (kind : event.isCommit = true) :
      event ∈ tx.log ↔ event ∈ story tx.log := by simp [story, kind]
  constructor
  · rintro ⟨rows, sent | inHand⟩
    · rw [told rfl] at sent ⊢
      obtain ended | ⟨request, issued⟩ | ⟨request, result, -, -, issued⟩ := inv.fits.story_cases
      · generalize story tx.log = events at ended sent ⊢
        cases ended with
        | nothing => cases sent
        | committed request => simp_all
        | failed request error => simp_all
      · simp_all
      · simp_all
    · have fits := inv.fits
      rw [inHand] at fits
      obtain ⟨-, refused⟩ | ⟨-, result, story_eq, equal⟩ := fits
      · obtain ⟨error, equal⟩ := refused rfl
        cases equal
      · cases result with
        | ok _ =>
          rw [told rfl, story_eq]
          exact mem_cons_self
        | error message => cases equal
  · intro committed
    rw [told rfl] at committed
    obtain ended | ⟨request, issued⟩ | ⟨request, result, -, pc, issued⟩ := inv.fits.story_cases
    · refine ⟨none, .inl ?_⟩
      rw [told rfl]
      generalize story tx.log = events at ended committed ⊢
      cases ended with
      | nothing => cases committed
      | committed request => simp_all
      | failed request error => simp_all
    · simp_all
    · refine ⟨none, .inr ?_⟩
      rw [issued] at committed
      obtain ⟨rfl, rfl⟩ : request = ⟨id, .commit⟩ ∧ result = .ok () := by simp_all
      exact pc

/-- What holds of every state that any interleaving reaches, and of every state
    reached from it.  The part of the log below an event is what came before it. -/
theorem commit_once_and_truthful {table : CharTable} {tx : Tx Rows} {actions : List (Action Rows)}
    (ran : run (Tx.step table) {} actions = some tx) :
    (tx.log.filter Event.isIssue).length ≤ 1 ∧
      (∀ request before, (.commitIssued request :: before) <:+ tx.log →
        .claimWon ∈ before ∧ .cancelWon ∉ tx.log ∧
          (∀ statement error, .statementFailed statement error ∉ before) ∧
          (∀ poison, .poisoned poison ∉ before) ∧
          ∀ other ∈ tx.sent, ∀ error, other.cmd = .poison error → request.id < other.id) ∧
      (∀ id, AnswersOk tx ⟨id, .commit⟩ ↔ .commitDone ⟨id, .commit⟩ (.ok ()) ∈ tx.log) ∧
      (tx.pc = .done → ∀ id, (∃ rows, .answered ⟨id, .commit⟩ (.ok rows) ∈ tx.log) ↔
        .commitDone ⟨id, .commit⟩ (.ok ()) ∈ tx.log) ∧
      ∀ later more, run (Tx.step table) tx more = some later → .cancelWon ∈ tx.log →
        ∀ request, .commitIssued request ∉ later.log := by
  have inv := run_inv ran
  -- whoever wins the claim keeps the other from it
  have exclusive {state : Tx Rows} (inv : Inv state) {request : Request}
      (issued : .commitIssued request ∈ state.log) : .cancelWon ∉ state.log := by
    obtain ⟨after, before, split⟩ := List.append_of_mem issued
    have justified := inv.base.justified request before ⟨after, split.symm⟩
    have claimed : .claimWon ∈ state.log := by
      rw [split]
      exact List.mem_append_right _ (List.mem_cons_of_mem _ justified.claimed)
    exact inv.base.claims.exclusive.resolve_left fun absent => absent claimed
  refine ⟨commits_le_one inv, ?_, answersOk_iff_committed inv, ?_, ?_⟩
  · intro request before suffix
    obtain ⟨claimed, clean, -, unpoisoned⟩ := inv.base.justified request before suffix
    have issued : .commitIssued request ∈ tx.log := suffix.subset List.mem_cons_self
    exact ⟨claimed, exclusive inv issued, clean.1, clean.2, unpoisoned⟩
  · intro finished id
    rw [← answersOk_iff_committed inv id]
    constructor
    · exact fun ⟨rows, answered⟩ => ⟨rows, .inl answered⟩
    · rintro ⟨rows, answered | inHand⟩
      · exact ⟨rows, answered⟩
      · exact nomatch finished.symm.trans inHand
  · intro later more ranOn cancelled request issued
    have invLater : Inv later := run_invariant step_inv inv ranOn
    have kept : .cancelWon ∈ later.log := (run_log ranOn).subset cancelled
    exact exclusive invLater issued kept

/-- A session that commits one statement; a cancellation comes too late. -/
def committingRun : List (Action Unit) :=
  [.begun true, .send (.exec "SELECT 1"), .poll, .poll, .poll, .poll, .poll, .poll,
    .statementDone (.ok ()), .send .commit, .poll, .poll, .poll, .poll, .cancel, .poll,
    .commitDone (.ok ()), .poll, .poll, .poll]

theorem late_cancellation_commits : ∃ tx, run (Tx.step asciiTable) {} committingRun = some tx ∧
    (tx.log.filter Event.isIssue).length = 1 ∧ AnswersOk tx ⟨1, .commit⟩ := by
  -- the run is evaluated once, down to what is asked of its last state
  have evaluated : (run (Tx.step asciiTable) {} committingRun).map (fun tx =>
      ((tx.log.filter Event.isIssue).length, tx.log.map fun
        | .commitDone ⟨1, .commit⟩ (.ok ()) => true
        | _ => false)) = some (1, [false, true, false, false, false, false, false]) := by rfl
  obtain ⟨tx, ran, view⟩ := Option.map_eq_some_iff.mp evaluated
  obtain ⟨issued, marks⟩ := Prod.mk.inj view
  refine ⟨tx, ran, issued, ?_⟩
  rw [(commit_once_and_truthful ran).2.2.1]
  have marked : true ∈ tx.log.map fun
      | .commitDone ⟨1, .commit⟩ (.ok ()) => true
      | _ => false := by rw [marks]; decide
  obtain ⟨event, member, mark⟩ := List.mem_map.mp marked
  split at mark
  · exact member
  · cases mark

end RootCx.Enforcement
