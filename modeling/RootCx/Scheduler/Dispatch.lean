import Mathlib
import RootCx.Lib.Runs
import RootCx.Workflow.Runner

/-! # The job scheduler

Messages of the queue are leased to one Core process: a message that is read stays
hidden until its lease expires, and is then delivered again.  Each delivery is handed
to a dispatch task of its own; the task settles the message at once or starts a run
of it, on a worker, by an agent, or as a workflow run.  Messages and execution rows
are in the database and survive a crash of the process, everything else is lost.

Every access to the database and every start of a run is one step, and the steps of
different tasks come in any order.  What a delivery reads outside the modelled tables,
and which of its statements fail, is fixed by the `Answers` of the delivery.
-/

namespace RootCx.Scheduler

open Workflow (WorkflowExecutionStatus)

abbrev MsgId := Nat

abbrev ExecId := Nat

abbrev Uuid := Nat

/-- App and identity of a worker process. -/
abbrev WorkerKey := Text × Text

def maxDeliveries : Nat := 5

inductive JobKind where
  | app
  | cron
  | hook
  | workflowManual
  deriving DecidableEq, Repr

/-- A message, with the fields of its payload that the dispatcher reads.  Ids are parsed:
    `some none` is an id that is no UUID. -/
structure JobMessage where
  kind : Option JobKind
  appId : Text
  userId : Option Uuid
  actionType : Option Text
  executionId : Option ExecId
  hookWorkflow : Option Uuid
  cronWorkflow : Option (Option Uuid)
  deriving DecidableEq, Repr

/-- What a delivery reads, and which of its statements succeed. -/
structure Answers where
  /-- The app has an agent; a failed query counts as no. -/
  agentApp : Bool
  /-- The fire gate of the agent and its invocation. -/
  agentInvoked : Bool
  /-- The worker that the identity of the job resolves to; none where the caller, the
      delegation or the worker cannot be had. -/
  worker : Option WorkerKey
  /-- The worker is running, and the job could be sent to it. -/
  workerSent : Bool
  /-- The app of the workflow; none also for a failed query. -/
  workflowApp : Option Text
  /-- The fire gate of the workflow. -/
  mayFire : Option Uuid
  /-- The permissions of the responsible user. -/
  perms : Bool
  /-- The query for the bound execution is answered. -/
  lookedUp : Bool
  created : Bool
  executionFailed : Bool
  deleted : Bool
  buried : Bool
  archived : Bool
  deriving DecidableEq, Repr

inductive Route where
  | legacy
  | manual (executionId : Option ExecId)
  | agent
  | workflow (workflowId : Option Uuid)
  | worker
  deriving DecidableEq, Repr

/-- `Dispatcher::handle`, up to the call it ends in. -/
def route (msg : JobMessage) (agentApp : Bool) : Route :=
  match msg.kind with
  | none => .legacy
  | some .workflowManual => .manual msg.executionId
  | some .hook =>
    if msg.actionType = some "agent".toList then .agent
    else if msg.actionType = some "workflow".toList then .workflow msg.hookWorkflow
    else .worker
  | some .cron =>
    match msg.cronWorkflow with
    | some workflowId => .workflow workflowId
    | none => if agentApp then .agent else .worker
  | some .app => .worker

/-- A row of `workflow_executions`. -/
structure ExecutionRow where
  status : WorkflowExecutionStatus
  appId : Text
  runAs : Uuid
  leaseMsgId : Option MsgId
  deriving DecidableEq, Repr

/-- The row is the run of this message, and not terminal. -/
def ExecutionRow.liveFor (row : ExecutionRow) (msg : MsgId) : Bool :=
  row.status.isLive && decide (row.leaseMsgId = some msg)

/-- What follows a failed execution. -/
inductive Closing where
  | bury
  | delete
  | done
  deriving DecidableEq, Repr

/-- Where a dispatch task stands. -/
inductive Stage where
  | handling
  | inviting
  | posting (worker : WorkerKey)
  /-- `dispatch_workflow_job`, up to the permissions. -/
  | checking (workflowId : Option Uuid)
  | lookingUp
  | creating
  | spawning (exec : ExecId)
  /-- `dispatch_manual_workflow`, up to the permissions. -/
  | binding (exec : ExecId)
  /-- `dead_letter_workflow`: the bound execution is looked up. -/
  | expiring
  /-- `fail_execution` -/
  | closing (exec : Option ExecId) (next : Closing)
  /-- `jobs::dead_letter`: the copy is sent, then the message archived. -/
  | burying
  | archiving
  /-- `jobs::fail`; the execution, if one is given, is failed afterwards. -/
  | failing (exec : Option ExecId)
  deriving DecidableEq, Repr

structure Task where
  msg : MsgId
  delivery : Nat
  answers : Answers
  stage : Stage
  deriving DecidableEq, Repr

/-- A task that runs a workflow execution: before its row is loaded, in the middle of
    it, and between the final status and the archive of its message. -/
inductive RunStage where
  | loading
  | running
  | recorded
  deriving DecidableEq, Repr

structure RunTask where
  msg : MsgId
  exec : ExecId
  stage : RunStage
  deriving DecidableEq, Repr

/-- The queue and the executions, the tasks of the process, and two histories: the
    deliveries that have started a run, and the executions created for a message. -/
structure State where
  nextMsg : MsgId
  sent : MsgId → Option JobMessage
  queued : MsgId → Bool
  held : MsgId → Bool
  readCt : MsgId → Nat
  nextExec : ExecId
  executions : ExecId → Option ExecutionRow
  tasks : Nat → Option Task
  inFlight : MsgId → Bool
  runs : Nat → Option RunTask
  jobs : WorkerKey → MsgId → Bool
  agents : Nat → Option MsgId
  started : List (MsgId × Nat)
  created : List (MsgId × ExecId)

def initial : State where
  nextMsg := 0
  sent _ := none
  queued _ := false
  held _ := false
  readCt _ := 0
  nextExec := 0
  executions _ := none
  tasks _ := none
  inFlight _ := false
  runs _ := none
  jobs _ _ := false
  agents _ := none
  started := []
  created := []

namespace State

variable (s : State)

/-- `jobs::complete`, `jobs::fail` and the end of `jobs::dead_letter`, where they succeed. -/
def remove (msg : MsgId) (succeeds : Bool) : State :=
  { s with queued := if succeeds then Function.update s.queued msg false else s.queued }

/-- The newest execution that is bound to a message and not terminal. -/
def inflightForLease (msg : MsgId) : Option ExecId :=
  (List.range s.nextExec).reverse.find? fun exec => (s.executions exec).any (·.liveFor msg)

/-- A terminal execution is left as it is. -/
def failExecution (exec : ExecId) (succeeds : Bool) : State :=
  { s with
    executions := Function.update s.executions exec <| (s.executions exec).map fun row =>
      if succeeds && row.status.isLive then { row with status := .failed, leaseMsgId := none } else row }

def createExecution (msg : MsgId) (appId : Text) (runAs : Uuid) : State :=
  { s with
    nextExec := s.nextExec + 1
    executions := Function.update s.executions s.nextExec (some ⟨.queued, appId, runAs, some msg⟩)
    created := s.created ++ [(msg, s.nextExec)] }

/-- The complete binding of a manual execution, as the message names it. -/
def bound (msg : MsgId) (message : JobMessage) (exec : ExecId) : Bool :=
  (s.executions exec).any fun row =>
    decide (row.appId = message.appId) && decide (message.userId = some row.runAs) &&
      decide (row.leaseMsgId = some msg)

/-- The single-flight guard, and the run behind it. -/
def spawnWorkflowRun (run : Nat) (msg : MsgId) (delivery : Nat) (exec : ExecId) : State :=
  { s with
    inFlight := Function.update s.inFlight msg true
    runs := if s.inFlight msg then s.runs else Function.update s.runs run (some ⟨msg, exec, .loading⟩)
    started := if s.inFlight msg then s.started else s.started ++ [(msg, delivery)] }

/-- The worker refuses a job that it still holds. -/
def postJob (worker : WorkerKey) (msg : MsgId) (delivery : Nat) (sent : Bool) : State :=
  { s with
    jobs := if sent then Function.update s.jobs worker (Function.update (s.jobs worker) msg true) else s.jobs
    started := if sent && !s.jobs worker msg then s.started ++ [(msg, delivery)] else s.started }

def inviteAgent (agent : Nat) (msg : MsgId) (delivery : Nat) : State :=
  { s with
    agents := Function.update s.agents agent (some msg)
    started := s.started ++ [(msg, delivery)] }

/-- A run task is over, and its guard is dropped. -/
def endRun (run : Nat) (msg : MsgId) : State :=
  { s with runs := Function.update s.runs run none, inFlight := Function.update s.inFlight msg false }

end State

/-- The stage behind the routing. -/
def Task.routed (t : Task) (message : JobMessage) : Stage :=
  match route message t.answers.agentApp with
  | .legacy => .burying
  | .manual none => .failing none
  | .manual (some exec) => .binding exec
  | .agent => .inviting
  | .workflow workflowId => .checking workflowId
  | .worker =>
    if t.delivery > maxDeliveries then .burying
    else match t.answers.worker with
      | none => .failing none
      | some worker => .posting worker

/-- `dispatch_workflow_job`, up to the lookup of the bound execution. -/
def Task.checked (t : Task) (workflowId : Option Uuid) : Stage :=
  if workflowId = none then .failing none
  else if t.answers.workflowApp = none then .failing none
  else if t.delivery > maxDeliveries then .expiring
  else if t.answers.mayFire = none then .failing none
  else if !t.answers.perms then .failing none
  else .lookingUp

/-- `dispatch_manual_workflow`, up to the run. -/
def Task.admitted (t : Task) (s : State) (message : JobMessage) (exec : ExecId) : Stage :=
  if !(t.answers.lookedUp && s.bound t.msg message exec) then .burying
  else if t.delivery > maxDeliveries then .closing (some exec) .bury
  else if message.userId = none then .closing (some exec) .delete
  else if !t.answers.perms then .failing (some exec)
  else .spawning exec

def Closing.stage : Closing → Option Stage
  | .bury => some .burying
  | .delete => some (.failing none)
  | .done => none

/-- One step of a dispatch task: the new state, and where the task goes on.  A run that
    is started takes the place of the task. -/
def Task.dispatch (t : Task) (id : Nat) (s : State) (message : JobMessage) : State × Option Stage :=
  let answers := t.answers
  match t.stage with
  | .handling => (s, some (t.routed message))
  | .inviting => if answers.agentInvoked then (s.inviteAgent id t.msg t.delivery, none) else (s, some (.failing none))
  | .posting worker => (s.postJob worker t.msg t.delivery answers.workerSent, none)
  | .checking workflowId => (s, some (t.checked workflowId))
  | .lookingUp =>
    match (if answers.lookedUp then s.inflightForLease t.msg else none) with
    | some exec => (s, some (.spawning exec))
    | none => (s, some .creating)
  | .creating =>
    if answers.created then
      (s.createExecution t.msg (answers.workflowApp.getD []) (answers.mayFire.getD 0), some (.spawning s.nextExec))
    else (s, some (.failing none))
  | .spawning exec => (s.spawnWorkflowRun id t.msg t.delivery exec, none)
  | .binding exec => (s, some (t.admitted s message exec))
  | .expiring => (s, some (.closing (if answers.lookedUp then s.inflightForLease t.msg else none) .bury))
  | .closing none next => (s, next.stage)
  | .closing (some exec) next => (s.failExecution exec answers.executionFailed, next.stage)
  | .burying => (s, if answers.buried then some .archiving else none)
  | .archiving => (s.remove t.msg answers.archived, none)
  | .failing exec =>
    (s.remove t.msg answers.deleted, exec.map fun exec => .closing (some exec) .done)

inductive Action where
  | enqueue (message : JobMessage)
  /-- A manual run: the execution and the message that is bound to it. -/
  | enqueueManual (appId : Text) (userId : Uuid)
  | expire (msg : MsgId)
  | heartbeat (msg : MsgId)
  /-- A message is leased, and its dispatch task gets a number. -/
  | poll (msg : MsgId) (task : Nat) (answers : Answers)
  | dispatch (task : Nat)
  /-- The run loads its execution, if the query succeeds. -/
  | load (run : Nat) (succeeds : Bool)
  /-- The run writes the final status of its execution. -/
  | record (run : Nat) (status : WorkflowExecutionStatus) (succeeds : Bool)
  | archive (run : Nat) (succeeds : Bool)
  | panicRun (run : Nat)
  /-- A worker reports the result of a job; the message is archived or deleted. -/
  | endJob (worker : WorkerKey) (msg : MsgId) (succeeds : Bool)
  | stopWorker (worker : WorkerKey)
  | endAgent (agent : Nat) (succeeds : Bool)
  | crash
  deriving DecidableEq, Repr

namespace State

variable (s : State)

def enqueue (message : JobMessage) : State :=
  { s with
    nextMsg := s.nextMsg + 1
    sent := Function.update s.sent s.nextMsg (some message)
    queued := Function.update s.queued s.nextMsg true
    held := Function.update s.held s.nextMsg false }

def manualMessage (appId : Text) (userId : Uuid) (exec : ExecId) : JobMessage where
  kind := some .workflowManual
  appId := appId
  userId := some userId
  actionType := none
  executionId := some exec
  hookWorkflow := none
  cronWorkflow := none

def enqueueManual (appId : Text) (userId : Uuid) : State :=
  { s.enqueue (manualMessage appId userId s.nextExec) with
    nextExec := s.nextExec + 1
    executions := Function.update s.executions s.nextExec (some ⟨.queued, appId, userId, some s.nextMsg⟩) }

/-- `jobs::read_next`: a visible message is hidden and its deliveries counted. -/
def poll (msg : MsgId) (task : Nat) (answers : Answers) : State :=
  { s with
    held := Function.update s.held msg true
    readCt := Function.update s.readCt msg (s.readCt msg + 1)
    tasks := Function.update s.tasks task (some ⟨msg, s.readCt msg + 1, answers, .handling⟩) }

def dispatch (id : Nat) (t : Task) (message : JobMessage) : State :=
  let (next, stage) := t.dispatch id s message
  { next with tasks := Function.update next.tasks id (stage.map fun stage => { t with stage }) }

/-- The run belongs to this message, and the execution is not terminal. -/
def load (run : Nat) (r : RunTask) (succeeds : Bool) : State :=
  match s.executions r.exec with
  | some row =>
    if succeeds && row.liveFor r.msg then
      { s with
        executions := Function.update s.executions r.exec (some { row with status := .running })
        runs := Function.update s.runs run (some { r with stage := .running }) }
    else s.endRun run r.msg
  | none => s.endRun run r.msg

def record (run : Nat) (r : RunTask) (status : WorkflowExecutionStatus) (succeeds : Bool) : State :=
  if succeeds then
    { s with
      executions := Function.update s.executions r.exec
        ((s.executions r.exec).map fun row => { row with status, leaseMsgId := none })
      runs := Function.update s.runs run (some { r with stage := .recorded }) }
  else s.endRun run r.msg

def crash : State :=
  { s with
    tasks := fun _ => none
    inFlight := fun _ => false
    runs := fun _ => none
    jobs := fun _ _ => false
    agents := fun _ => none }

end State

def step (s : State) : Action → Option State
  | .enqueue message => some (s.enqueue message)
  | .enqueueManual appId userId => some (s.enqueueManual appId userId)
  | .expire msg => some { s with held := Function.update s.held msg false }
  | .heartbeat msg => some { s with held := Function.update s.held msg true }
  | .poll msg task answers =>
    if s.queued msg && !s.held msg && (s.tasks task).isNone && (s.runs task).isNone && (s.agents task).isNone then
      some (s.poll msg task answers)
    else none
  | .dispatch task =>
    match s.tasks task with
    | some t => (s.sent t.msg).map (s.dispatch task t)
    | none => none
  | .load run succeeds =>
    match s.runs run with
    | some r => if r.stage = .loading then some (s.load run r succeeds) else none
    | none => none
  | .record run status succeeds =>
    match s.runs run with
    | some r =>
      if r.stage = .running ∧ (status = .succeeded ∨ status = .failed) then some (s.record run r status succeeds) else none
    | none => none
  | .archive run succeeds =>
    match s.runs run with
    | some r => if r.stage = .recorded then some ((s.remove r.msg succeeds).endRun run r.msg) else none
    | none => none
  | .panicRun run =>
    match s.runs run with
    | some r => some (s.endRun run r.msg)
    | none => none
  | .endJob worker msg succeeds =>
    if s.jobs worker msg then
      some { s.remove msg succeeds with
        jobs := Function.update s.jobs worker (Function.update (s.jobs worker) msg false) }
    else none
  | .stopWorker worker => some { s with jobs := Function.update s.jobs worker fun _ => false }
  | .endAgent agent succeeds =>
    match s.agents agent with
    | some msg => some { s.remove msg succeeds with agents := Function.update s.agents agent none }
    | none => none
  | .crash => some s.crash

end RootCx.Scheduler
