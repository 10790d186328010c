import RootCx.Lib.NumberLiterals
import RootCx.Lib.Runs
import RootCx.Workflow.Executor

/-! # The durable runner

A run of an execution goes through the nodes in the order of the sort and records
each executed node in `workflow_node_runs`.  A crash loses the memory of the run;
at the next delivery of its message the run starts again and rebuilds its caches
from the recorded nodes; a number can be read back of a record as another one.  The steps are those between two accesses to the database
or two nodes, so that a crash can come at every boundary.
-/

namespace RootCx.Workflow

structure RetryPolicy where
  maxAttempts : Nat
  continueOnError : Bool

/-- From `params.retry.maxAttempts` and `params.continueOnError`.  The number of attempts
    is at least one before it is cut to 32 bits.  The pause between two attempts is
    not modelled. -/
def retryPolicy (node : WorkflowNode) : RetryPolicy where
  maxAttempts :=
    max (((node.params.get "retry").bind (Json.get "maxAttempts")).bind Json.asU64 |>.getD 1) 1 % 2 ^ 32
  continueOnError := ((node.params.get "continueOnError").bind Json.asBool).getD false

/-- A row of `workflow_node_runs`. -/
structure NodeRun where
  status : WorkflowNodeRunStatus
  input : Json
  output : Option Json
  error : Option Text
  attempts : Nat

inductive WorkflowExecutionStatus where
  | queued
  | running
  | succeeded
  | failed
  | canceled
  deriving DecidableEq, Repr

def WorkflowExecutionStatus.isLive (status : WorkflowExecutionStatus) : Bool :=
  status = .queued || status = .running

abbrev NodeRuns := Text → Option NodeRun

/-- The caches of a run and what it has met so far. -/
structure Memory where
  activePorts : Ports
  runOutputs : Outputs
  done : Text → Bool
  allSucceeded : Bool
  firstError : Option Text
  aborted : Bool
  halted : Bool

def succeededRun (row : NodeRun) : Bool := row.status = .succeeded

/-- The active ports of the nodes that succeeded; one without a stored output has none. -/
def portsOf (prior : NodeRuns) : Ports := fun id =>
  ((prior id).filter succeededRun).bind fun row => row.output.map Items.activePorts

def outputsOf (prior : NodeRuns) : Outputs := fun id => ((prior id).filter succeededRun).bind NodeRun.output

/-- Only nodes that succeeded are replayed; `reads` is what a number of an output is read
    back as. -/
def seedResume (reads : Text → Text) (prior : NodeRuns) : Memory where
  activePorts id := ((prior id).filter succeededRun).bind fun row =>
    row.output.map fun output => Items.activePorts (output.mapNumbers reads)
  runOutputs id := ((prior id).filter succeededRun).bind fun row => row.output.map (Json.mapNumbers reads)
  done id := (prior id).any succeededRun
  allSucceeded := true
  firstError := none
  aborted := false
  halted := false

/-- The status and the output that are recorded of a node's last attempt: with
    `continueOnError` a failure is recorded as a success that carries the error. -/
def recorded (policy : RetryPolicy) (ex : NodeExecution) : WorkflowNodeRunStatus × Json :=
  if ex.status = .failed ∧ policy.continueOnError then
    (.succeeded, Items.encode [[⟨.obj [("error", .str (ex.error.getD []))]⟩]])
  else (ex.status, ex.outputJson)

def nodeRun (policy : RetryPolicy) (ex : NodeExecution) (attempt : Nat) : NodeRun where
  status := (recorded policy ex).1
  input := ex.inputJson
  output := some (recorded policy ex).2
  error := ex.error
  attempts := attempt

/-- The row of an attempt that is followed by another. -/
def retriedRun (ex : NodeExecution) (attempt : Nat) : NodeRun where
  status := .failed
  input := ex.inputJson
  output := some ex.outputJson
  error := ex.error
  attempts := attempt

def Memory.after (m : Memory) (id : Text) (policy : RetryPolicy) (ex : NodeExecution) : Memory :=
  let (status, output) := recorded policy ex
  let m := if status = .succeeded then
      { m with
        activePorts := Function.update m.activePorts id (some (Items.activePorts output))
        runOutputs := Function.update m.runOutputs id (some output) }
    else
      { m with
        allSucceeded := false
        firstError := m.firstError.or (some (ex.error.getD "node failed"))
        aborted := m.aborted || status = .failed }
  { m with halted := m.halted || ex.halt }

/-- Where the process that runs an execution stands. -/
inductive Phase where
  /-- No process runs the execution; its message will be delivered. -/
  | waiting
  /-- The execution is marked running, its recorded nodes have not been read. -/
  | started
  | looping (m : Memory) (rest : List Text)
  /-- A node is about to be executed, after so many attempts. -/
  | attempting (m : Memory) (node : WorkflowNode) (rest : List Text) (attempts : Nat)
  /-- A node has been executed, and its attempt not yet recorded. -/
  | executed (m : Memory) (node : WorkflowNode) (rest : List Text) (attempt : Nat) (ex : NodeExecution)
  | finished

/-- The row of an execution, the rows of its nodes, the process, and the nodes that have
    been executed so far, in turn. -/
structure Run where
  status : WorkflowExecutionStatus
  attempts : Nat
  error : Option Text
  nodeRuns : NodeRuns
  phase : Phase
  log : List Text

/-- What all the attempts to run one execution share: its graph snapshot, which the
    validation accepts, the tools, the numbers that are read of stored ones (as decimals
    they are stored exactly, and read as doubles) and the order in which the sort meets the
    roots. -/
structure Execution where
  host : Host
  reads : Text → Text
  graph : WorkflowGraph
  roots : List Text
  accepted : graph.validate = .ok ()
  started : roots.Perm graph.roots

namespace Execution

def order (e : Execution) : List Text := e.graph.topoSort e.roots

def executed (e : Execution) (node : WorkflowNode) (outputs : Outputs) : NodeExecution :=
  executeNode e.host e.graph node outputs

/-- The execution as it is created. -/
def queued : Run where
  status := .queued
  attempts := 0
  error := none
  nodeRuns _ := none
  phase := .waiting
  log := []

def finish (s : Run) (m : Memory) : Run :=
  { s with
    status := if m.allSucceeded then .succeeded else .failed
    error := m.firstError
    phase := .finished }

/-- The head of the loop: the next node is passed, or its first attempt begins. -/
def meet (e : Execution) (s : Run) (m : Memory) (id : Text) (rest : List Text) : Run :=
  match e.graph.node id with
  | none => { s with phase := .looping m rest }
  | some node =>
    if m.done id then { s with phase := .looping m rest }
    else if !shouldExecute e.graph id m.activePorts then { s with phase := .looping m rest }
    else { s with phase := .attempting m node rest 0 }

/-- A row is inserted, or replaces the one that the node has; `lose` is a statement that
    fails. -/
def persistNodeRun (s : Run) (id : Text) (row : NodeRun) : Run :=
  { s with nodeRuns := Function.update s.nodeRuns id (some row) }

/-- The end of an attempt: a hard failure is retried until the attempts are exhausted. -/
def conclude (s : Run) (m : Memory) (node : WorkflowNode) (rest : List Text) (attempt : Nat) (ex : NodeExecution) :
    Run :=
  let policy := retryPolicy node
  if ex.status = .failed ∧ attempt < policy.maxAttempts then
    { persistNodeRun s node.id (retriedRun ex attempt) with phase := .attempting m node rest attempt }
  else
    { persistNodeRun s node.id (nodeRun policy ex attempt) with phase := .looping (m.after node.id policy ex) rest }

/-- One step of `run`. -/
def advance (e : Execution) (s : Run) : Option Run :=
  match s.phase with
  | .waiting =>
    if s.status.isLive then some { s with status := .running, attempts := s.attempts + 1, phase := .started } else none
  | .started => some { s with phase := .looping (seedResume e.reads s.nodeRuns) e.order }
  | .looping m [] => some (finish s m)
  | .looping m (id :: rest) => if m.aborted || m.halted then some (finish s m) else some (e.meet s m id rest)
  | .attempting m node rest attempts =>
    some { s with
      phase := .executed m node rest (attempts + 1) (e.executed node m.runOutputs)
      log := s.log ++ [node.id] }
  | .executed m node rest attempt ex => some (conclude s m node rest attempt ex)
  | .finished => none

/-- The statement that records an attempt fails, which the run ignores. -/
def lose (s : Run) : Option Run :=
  match s.phase with
  | .executed m node rest attempt ex => some { conclude s m node rest attempt ex with nodeRuns := s.nodeRuns }
  | _ => none

/-- A crash loses the process; what is recorded stays. -/
def crash (s : Run) : Option Run :=
  match s.phase with
  | .finished => none
  | _ => some { s with phase := .waiting }

end Execution

inductive Action where
  | advance
  | lose
  | crash
  deriving DecidableEq, Repr

def Execution.step (e : Execution) (s : Run) : Action → Option Run
  | .advance => e.advance s
  | .lose => Execution.lose s
  | .crash => Execution.crash s

end RootCx.Workflow
