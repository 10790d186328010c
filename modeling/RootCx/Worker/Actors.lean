import RootCx.Worker.Changes

/-! # Transactions beside the supervisor

A governed transaction runs on a task of its own (`TxSession` of `sql_proxy.rs`)
and takes its commands from a queue; one-shot data operations are tasks as well.
They go on while the supervisor handles other messages, so a run of the whole is
any interleaving of turns, moves of transactions and ends of tasks.  Cancelling a
transaction and beginning its commit race on one atomic phase.
-/

namespace RootCx.Worker

open RootCx.Text

/-! ## A transaction's task -/

inductive TxPhase where
  | active
  | finalizing
  | cancelRequested
  | finished
  deriving DecidableEq, Repr

inductive TxCmd where
  | exec
  | poison
  | commit
  | rollback
  deriving DecidableEq, Repr

structure TxActor where
  /-- The invocation that the begin named, and whether the worker owed it. -/
  invocation : Option Text
  echoed : Bool
  phase : TxPhase := .active
  queue : List TxCmd := []
  failed : Bool := false
  committed : Bool := false
  deriving DecidableEq, Repr

def TxActor.cancel (actor : TxActor) : TxActor :=
  if actor.phase = .active then { actor with phase := .cancelRequested } else actor

def TxActor.send (command : TxCmd) (actor : TxActor) : TxActor :=
  if actor.phase = .finished then actor else { actor with queue := actor.queue ++ [command] }

/-- The task has ended without a commit: `mark_finished`. -/
def TxActor.over (actor : TxActor) : TxActor := { actor with phase := .finished, queue := [] }

inductive TxMove where
  /-- The cancellation is seen, or the deadline passes. -/
  | cancelled
  | deadline
  /-- The next command is taken; a statement may fail. -/
  | receive (fails : Bool)
  /-- The COMMIT that was sent to the database comes back. -/
  | landed (succeeds : Bool)

def TxActor.receive (fails : Bool) (actor : TxActor) : Option TxActor :=
  match actor.queue with
  | [] => none
  | .exec :: rest => some { actor with queue := rest, failed := actor.failed || fails }
  | .poison :: rest => some { actor with queue := rest, failed := true }
  | .commit :: _ =>
    -- `begin_finalization` wins only over an active phase.
    if actor.phase = .active then
      if actor.failed then some actor.over else some { actor with phase := .finalizing }
    else some actor.over
  | .rollback :: _ => some actor.over

def TxActor.move (actor : TxActor) : TxMove → Option TxActor
  | .cancelled => if actor.phase = .cancelRequested then some actor.over else none
  | .deadline => if actor.phase = .active ∨ actor.phase = .cancelRequested then some actor.over else none
  | .receive fails =>
    if actor.phase = .active ∨ actor.phase = .cancelRequested then actor.receive fails else none
  | .landed succeeds =>
    if actor.phase = .finalizing then some { actor.over with committed := succeeds } else none

/-! ## The whole -/

structure System where
  supervisor : Supervisor := {}
  txs : Text → Option TxActor := fun _ => none
  /-- The one-shot data operations that run, by the invocation they named. -/
  tasks : List (Option Text) := []
  /-- The actors of approved begins that timed out.  No session holds their queue,
      so they can only roll back. -/
  strays : List (Option Text) := []

def System.tell (sys : System) (txId : Text) (change : TxActor → TxActor) : System :=
  { sys with txs := fun other => if other = txId then (sys.txs other).map change else sys.txs other }

def Effect.apply (echoed : Bool) (sys : System) : Effect → System
  | .begun txId invocationId => { sys with txs := put sys.txs txId { invocation := invocationId, echoed := echoed } }
  | .stray invocationId => { sys with strays := invocationId :: sys.strays }
  | .exec txId => sys.tell txId (.send .exec)
  | .poison txId => sys.tell txId (.send .poison)
  | .finish txId commit => sys.tell txId (.send (if commit then .commit else .rollback))
  | .abort txId _ => sys.tell txId (.send .rollback)
  | .dropped txIds =>
    -- Dropping a session cancels its transaction.
    { sys with txs := fun txId => if txId ∈ txIds then (sys.txs txId).map .cancel else sys.txs txId }
  | .cancel txId => sys.tell txId .cancel
  | .dataTask invocationId => { sys with tasks := invocationId :: sys.tasks }
  | .reply _ | .complete _ | .fail _ | .deadLetter _ _ _ => sys

/-- The actors that an await of the supervisor waits for. -/
def Supervisor.closes (s : Supervisor) (wait : Await) (txId : Text) : Bool :=
  (s.actors txId).any fun owner => wait.scope.all (· = owner)

/-- `ApprovedTransactions::close` cancels every actor before it waits for any. -/
def System.close (sys : System) : System :=
  match sys.supervisor.awaiting with
  | none => sys
  | some wait =>
    { sys with
      txs := fun txId => if sys.supervisor.closes wait txId then (sys.txs txId).map .cancel else sys.txs txId }

def System.perform (config : Config) (sys : System) (handled : Handled) : System :=
  let echoed := echoesInvocation config.invocation sys.supervisor.workerProtocol
  (handled.2.foldl (Effect.apply echoed) { sys with supervisor := handled.1 }).close

/-- What the surroundings keep of an event: minted ids are new, and a transaction
    reports its end when its task has ended. -/
def System.Possible (sys : System) : Option Event → Prop
  | some (.txDone txId) => ∀ actor, sys.txs txId = some actor → actor.phase = .finished
  | some (.rpc _ invocation _) | some (.job _ invocation _ _) => invocation ∉ sys.supervisor.activeInvocations
  | some (.message _ chance) => ∀ txId, chance.begun = .session txId → sys.txs txId = none
  | _ => True

/-- An approved worker's await ends when what it waits for has ended. -/
def System.Drained (config : Config) (sys : System) : Prop :=
  ∀ wait, sys.supervisor.awaiting = some wait → config.approved = true →
    sys.tasks = [] ∧ ∀ txId actor, sys.supervisor.closes wait txId = true → sys.txs txId = some actor →
      actor.phase = .finished

/-- What goes on beside the supervisor. -/
inductive System.Move (sys : System) : System → Prop
  | acts {txId : Text} {actor next : TxActor} {move : TxMove} (running : sys.txs txId = some actor)
      (moved : actor.move move = some next) : Move sys { sys with txs := put sys.txs txId next }
  | taskEnds {front rest : List (Option Text)} {task : Option Text} (running : sys.tasks = front ++ task :: rest) :
      Move sys { sys with tasks := front ++ rest }
  | strayEnds {front rest : List (Option Text)} {stray : Option Text} (running : sys.strays = front ++ stray :: rest) :
      Move sys { sys with strays := front ++ rest }

inductive System.Step (config : Config) (sys : System) : System → Prop
  | turn {event : Option Event} {handled : Handled} (possible : sys.Possible event)
      (drained : event = none → sys.Drained config)
      (turned : turn config sys.supervisor event = some handled) : Step config sys (sys.perform config handled)
  | beside {next : System} (moved : Move sys next) : Step config sys next

inductive System.Reaches (config : Config) : System → Prop
  | start : Reaches config {}
  | step {sys next : System} (reached : Reaches config sys) (stepped : Step config sys next) : Reaches config next

/-- The whole behind one turn of the supervisor. -/
def System.turns (config : Config) (sys : System) (event : Option Event) : System :=
  ((turn config sys.supervisor event).map (sys.perform config)).getD sys

theorem System.Reaches.turns {config : Config} {sys : System} (reached : Reaches config sys)
    (ordinary : config.approved = false) {event : Option Event} (possible : sys.Possible event) :
    Reaches config (sys.turns config event) := by
  unfold System.turns
  cases turned : turn config sys.supervisor event with
  | none => exact reached
  | some handled =>
    refine .step reached (.turn possible ?_ turned)
    intro _ _ _ approved
    rw [ordinary] at approved
    cases approved

theorem System.Move.supervisor {sys next : System} (moved : Move sys next) : next.supervisor = sys.supervisor := by
  cases moved <;> rfl

/-- An invocation that a turn has not ended: live, or in the middle of its end. -/
def Supervisor.current (s : Supervisor) (invocation : Text) : Prop :=
  invocation ∈ s.activeInvocations ∨ ∃ id result, s.awaiting = some (.finish id result invocation)

variable {s : Supervisor}

theorem live_of_current {invocation : Text} (idle : s.awaiting = none) (current : s.current invocation) :
    invocation ∈ s.activeInvocations := by
  obtain live | ⟨id, result, waiting⟩ := current
  · exact live
  · rw [idle] at waiting
    cases waiting

/-! ## What the effects leave alone -/

section Effects

variable {config : Config} {sys : System} {effects : List Effect} {echoed : Bool} {txId : Text} {actor : TxActor}

theorem System.close_supervisor (sys : System) : sys.close.supervisor = sys.supervisor := by
  unfold System.close
  split <;> rfl

@[simp] theorem Effect.apply_supervisor (echoed : Bool) (sys : System) (effect : Effect) :
    (effect.apply echoed sys).supervisor = sys.supervisor := by
  cases effect <;> rfl

theorem foldl_apply_supervisor (echoed : Bool) (effects : List Effect) (sys : System) :
    (effects.foldl (Effect.apply echoed) sys).supervisor = sys.supervisor := by
  induction effects generalizing sys with
  | nil => rfl
  | cons effect rest ih => rw [List.foldl_cons, ih, Effect.apply_supervisor]

@[simp] theorem System.perform_supervisor (config : Config) (sys : System) (handled : Handled) :
    (sys.perform config handled).supervisor = handled.1 := by
  rw [System.perform, System.close_supervisor, foldl_apply_supervisor]

/-- The parts of an actor that are fixed by its begin. -/
def TxActor.origin (actor : TxActor) : Option Text × Bool := (actor.invocation, actor.echoed)

@[simp] theorem TxActor.origin_cancel (actor : TxActor) : actor.cancel.origin = actor.origin := by
  unfold TxActor.cancel
  split <;> rfl

@[simp] theorem TxActor.origin_send (command : TxCmd) (actor : TxActor) : (actor.send command).origin = actor.origin := by
  unfold TxActor.send
  split <;> rfl

theorem TxActor.origin_receive {fails : Bool} {next : TxActor} (received : actor.receive fails = some next) :
    next.origin = actor.origin := by
  unfold TxActor.receive at received
  split at received
  · cases received
  · cases received; rfl
  · cases received; rfl
  · split at received
    · split at received <;> (cases received; rfl)
    · cases received; rfl
  · cases received; rfl

theorem TxActor.origin_move {move : TxMove} {next : TxActor} (moved : actor.move move = some next) :
    next.origin = actor.origin := by
  cases move with
  | receive fails =>
    simp only [TxActor.move] at moved
    split at moved
    · exact TxActor.origin_receive moved
    · cases moved
  | cancelled | deadline | landed =>
    simp only [TxActor.move] at moved
    split at moved <;> cases moved
    rfl

/-- Who opened each transaction. -/
def System.origins (sys : System) : Text → Option (Option Text × Bool) := fun txId => (sys.txs txId).map TxActor.origin

theorem System.origins_tell (sys : System) (txId : Text) {change : TxActor → TxActor}
    (same : ∀ actor, (change actor).origin = actor.origin) : (sys.tell txId change).origins = sys.origins := by
  funext other
  simp only [System.origins, System.tell]
  split
  · cases sys.txs other <;> simp [same]
  · rfl

theorem Effect.origins_apply {effect : Effect} (sys : System) (unopened : ∀ txId named, effect ≠ .begun txId named) :
    (effect.apply echoed sys).origins = sys.origins := by
  cases effect with
  | begun txId named => exact absurd rfl (unopened txId named)
  | exec | poison | finish | abort => exact sys.origins_tell _ (TxActor.origin_send _)
  | cancel => exact sys.origins_tell _ TxActor.origin_cancel
  | dropped txIds =>
    funext other
    simp only [System.origins, Effect.apply]
    split
    · cases sys.txs other <;> simp
    · rfl
  | _ => rfl

theorem foldl_apply_origins (sys : System) (unopened : ∀ txId named, Effect.begun txId named ∉ effects) :
    (effects.foldl (Effect.apply echoed) sys).origins = sys.origins := by
  induction effects generalizing sys with
  | nil => rfl
  | cons effect rest ih =>
    rw [List.foldl_cons, ih _ (fun txId named mem => unopened txId named (.tail _ mem)),
      Effect.origins_apply sys]
    intro txId named same
    exact unopened txId named (same ▸ List.mem_cons_self)

theorem System.origins_close (sys : System) : sys.close.origins = sys.origins := by
  funext other
  unfold System.close System.origins
  split
  · rfl
  · dsimp only
    split
    · cases sys.txs other <;> simp
    · rfl

theorem System.origins_perform (sys : System) (unopened : ∀ txId named, Effect.begun txId named ∉ effects) :
    (sys.perform config (s, effects)).origins = sys.origins := by
  rw [System.perform, System.origins_close, foldl_apply_origins _ unopened]
  rfl

theorem System.origins_opens {named : Option Text} {reply : Reply} (sys : System) :
    (sys.perform config (s, [.begun txId named, .reply reply])).origins = put sys.origins txId
      (named, echoesInvocation config.invocation sys.supervisor.workerProtocol) := by
  rw [System.perform, System.origins_close]
  funext other
  simp only [System.origins, List.foldl_cons, List.foldl_nil, Effect.apply]
  by_cases same : other = txId
  · rw [same, put_self, put_self]
    rfl
  · rw [put_of_ne same, put_of_ne same]
    rfl

end Effects

end RootCx.Worker
