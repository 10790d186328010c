import RootCx.Workflow.Graph

/-! # The executor: one node against the outputs so far -/

namespace RootCx.Workflow

open List

inductive WorkflowNodeRunStatus where
  | pending
  | running
  | succeeded
  | failed
  | skipped
  deriving DecidableEq, Repr

inductive BatchMode where
  | perItem
  | once
  deriving DecidableEq, Repr

def BatchMode.parse (s : Text) : Option BatchMode :=
  if s = "once" then some .once
  else if s = "perItem" then some .perItem
  else none

/-- A registered tool.  Its dispatch under the identity of the run gets the idempotency
    key of the item and the arguments; a refused permission and a failed execution
    are both an error text. -/
structure Tool where
  batchMode : BatchMode
  dispatch : Text → Json → Except Text Json

/-- What the nodes of a run are executed with. -/
structure Host where
  engine : Expr.Engine
  registry : Text → Option Tool
  execId : Text

abbrev Outputs := Text → Option Json

abbrev Ports := Text → Option (List UInt8)

abbrev Produced := WorkflowNodeRunStatus × List (List Item) × Option Text

structure NodeExecution where
  status : WorkflowNodeRunStatus
  outputJson : Json
  inputJson : Json
  error : Option Text
  /-- A Stop node: record it, then halt the whole execution. -/
  halt : Bool

/-! ## Input collection and routing -/

def collectInputsByPort (graph : WorkflowGraph) (id : Text) (outputs : Outputs) : List (List Item) :=
  let inbound := graph.inbound id
  match (inbound.map (·.toInput.toNat)).max? with
  | none => []
  | some maxPort =>
    inbound.foldl (fun ports edge => match outputs edge.source with
      | some output => ports.modify edge.toInput.toNat (· ++ Items.decodePort output edge.fromOutput)
      | none => ports) (replicate (maxPort + 1) [])

def itemsToJson : List Item → Json
  | [] => .obj []
  | [item] => item.json
  | items => .arr (items.map Item.json)

def shouldExecute (graph : WorkflowGraph) (id : Text) (activePorts : Ports) : Bool :=
  let isTrigger := (graph.nodes.find? fun node => decide (node.id = id)).any (·.kind.isTrigger)
  match graph.inbound id with
  | [] => isTrigger
  | inbound => inbound.any fun edge => (activePorts edge.source).any (·.contains edge.fromOutput)

/-! ## Control nodes -/

section Control

variable (engine : Expr.Engine)

def executeIf (params : Json) (items : List Item) (outputs : Outputs) : Produced :=
  let holds (item : Item) : Bool :=
    (((Expr.resolve engine params item.json outputs).get "condition").getD .null).isTruthy
  (.succeeded, [items.filter holds, items.filter (!holds ·)], none)

def executeSwitch (params : Json) (items : List Item) (outputs : Outputs) : Produced :=
  let cases := (params.get "cases").bind Json.asArray
  let numCases := (cases.map length).getD 0
  let port (item : Item) : Nat :=
    let value := ((Expr.resolve engine params item.json outputs).get "value").getD .null
    match cases with
    | some cases => (cases.findIdx? (Json.same · value)).getD numCases
    | none => 0
  (.succeeded, items.foldl (fun ports item => ports.modify (port item) (· ++ [item]))
    (replicate (numCases + 1) []), none)

def executeSet (params : Json) (items : List Item) (outputs : Outputs) : Produced :=
  let fields (input : Json) : Json := ((Expr.resolve engine params input outputs).get "fields").getD (.obj [])
  let output := if items.isEmpty then [⟨fields (.obj [])⟩] else items.map fun item => ⟨item.json.overlay (fields item.json)⟩
  (.succeeded, [output], none)

/-- Zip the ports index-wise; a later port overlays an earlier one. -/
def mergeByPosition (ports : List (List Item)) : List Item :=
  (range ((ports.map length).max?.getD 0)).map fun i =>
    ⟨ports.foldl (fun acc port => match port[i]? with
      | some item => acc.overlay item.json
      | none => acc) (.obj [])⟩

/-- Inner join of port 0 and port 1 on a field of each. -/
def mergeByField (ports : List (List Item)) (params : Json) : List Item :=
  let field1 := (((params.get "field1").or (params.get "field")).bind Json.asStr).getD "id"
  let field2 := ((params.get "field2").bind Json.asStr).getD field1
  let left := ports[0]?.getD []
  let right := ports[1]?.getD []
  left.flatMap fun l => match l.json.get field1 with
    | none => []
    | some key => (right.filter fun r => (r.json.get field2).any (Json.same · key)).map fun r => ⟨l.json.overlay r.json⟩

def executeMerge (params : Json) (ports : List (List Item)) (outputs : Outputs) : Produced :=
  let p := Expr.resolve engine params (.obj []) outputs
  let mode := ((p.get "mode").bind Json.asStr).getD "append"
  let out :=
    if mode = "combineByPosition" then mergeByPosition ports
    else if mode = "combineByField" then mergeByField ports p
    else ports.flatten
  (.succeeded, [out], none)

def notImplemented : Produced := (.skipped, [[]], some "not implemented")

def executeControlNode (control : ControlKind) (params : Json) (items : List Item) (ports : List (List Item))
    (outputs : Outputs) : Produced :=
  match control with
  | .ifElse => executeIf engine params items outputs
  | .switch => executeSwitch engine params items outputs
  | .set => executeSet engine params items outputs
  | .merge => executeMerge engine params ports outputs
  | .stop =>
    let resolved := Expr.resolve engine params (.obj []) outputs
    let msg := ((resolved.get "message").bind Json.asStr).getD "workflow stopped"
    (.succeeded, [[⟨.obj [("message", .str msg), ("stopped", .bool true)]⟩]], none)
  | .loop | .wait => notImplemented

end Control

/-! ## Tool nodes -/

/-- Each element of an array becomes an item, also where the array is the only one
    among the fields of an object. -/
def normalizeToolOutput (value : Json) : List Item :=
  match value with
  | .arr items => items.map Item.mk
  | .obj entries =>
    match entries.filterMap fun entry => entry.2.asArray with
    | [items] => items.map Item.mk
    | _ => [⟨value⟩]
  | value => [⟨value⟩]

section ToolNode

variable (host : Host)

/-- One dispatch for each item in turn, up to the first that fails. -/
def dispatchItems (tool : Tool) (params : Json) (idemBase : Text) (outputs : Outputs) :
    Nat → List Item → Except Text (List Item)
  | _, [] => .ok []
  | i, item :: rest => do
    let args := (Expr.resolve host.engine params item.json outputs).mergeArgs item.json
    let value ← tool.dispatch (idemBase ++ ':' :: Nat.toDigits 10 i) args
    let later ← dispatchItems tool params idemBase outputs (i + 1) rest
    pure (normalizeToolOutput value ++ later)

def withoutBatchMode : Json → Json
  | .obj entries => .obj (entries.filter fun entry => decide (entry.1 ≠ "batchMode"))
  | params => params

def executeToolNode (toolName : Text) (params : Json) (items : List Item) (idemBase : Text) (outputs : Outputs) :
    Produced :=
  match host.registry toolName with
  | none => (.failed, [[]], some ("unknown tool: " ++ toolName))
  | some tool =>
    let mode := (((params.get "batchMode").bind Json.asStr).bind BatchMode.parse).getD tool.batchMode
    let single : List Item := [⟨.obj []⟩]
    let process := match mode with
      | .once => single
      | .perItem => if items.isEmpty then single else items
    match dispatchItems host tool (withoutBatchMode params) idemBase outputs 0 process with
    | .ok output => (.succeeded, [output], none)
    | .error e => (.failed, [[]], some e)

/-! ## One node -/

def produce (node : WorkflowNode) (ports : List (List Item)) (outputs : Outputs) : Produced :=
  match node.kind with
  | .trigger _ => (.succeeded, [[⟨node.params⟩]], none)
  | .tool toolName =>
    executeToolNode host toolName node.params ports.flatten (host.execId ++ ':' :: node.id) outputs
  | .control control => executeControlNode host.engine control node.params ports.flatten ports outputs
  | .code | .subWorkflow _ => notImplemented

def executeNode (graph : WorkflowGraph) (node : WorkflowNode) (outputs : Outputs) : NodeExecution :=
  let ports := collectInputsByPort graph node.id outputs
  let (status, output, error) := produce host node ports outputs
  { status
    outputJson := Items.encode output
    inputJson := itemsToJson ports.flatten
    error
    halt := decide (node.kind = .control .stop) }

end ToolNode

variable {graph : WorkflowGraph} {outputs : Outputs} {host : Host} {node : WorkflowNode}

/-! ## What the outcome of a node depends on -/

theorem shouldExecute_congr {id : Text} {ports ports' : Ports}
    (alike : ∀ edge ∈ graph.inbound id, ports edge.source = ports' edge.source) :
    shouldExecute graph id ports = shouldExecute graph id ports' := by
  unfold shouldExecute
  cases into : graph.inbound id with
  | nil => rfl
  | cons first rest =>
    rw [into] at alike
    have same : ∀ edge ∈ first :: rest, ((ports edge.source).any (·.contains edge.fromOutput))
        = ((ports' edge.source).any (·.contains edge.fromOutput)) := by
      intro edge mem
      rw [alike edge mem]
    simp only [any_eq]
    congr 1
    apply propext
    constructor
    · rintro ⟨edge, mem, active⟩
      exact ⟨edge, mem, (same edge mem).symm.trans active⟩
    · rintro ⟨edge, mem, active⟩
      exact ⟨edge, mem, (same edge mem).trans active⟩

theorem collectInputsByPort_congr {id : Text} {outputs' : Outputs}
    (alike : ∀ edge ∈ graph.inbound id, outputs edge.source = outputs' edge.source) :
    collectInputsByPort graph id outputs = collectInputsByPort graph id outputs' := by
  unfold collectInputsByPort
  dsimp only
  cases (map (·.toInput.toNat) (graph.inbound id)).max? with
  | none => rfl
  | some maxPort =>
    apply foldl_ext
    intro ports edge mem
    rw [alike edge mem]

theorem produce_skipped {ports : List (List Item)} (skipped : (produce host node ports outputs).1 = .skipped)
    (outputs' : Outputs) : produce host node ports outputs' = produce host node ports outputs := by
  unfold produce at skipped ⊢
  cases kind : node.kind with
  | trigger _ => rfl
  | tool toolName =>
    rw [kind] at skipped
    dsimp only [executeToolNode] at skipped
    split at skipped
    · cases skipped
    · split at skipped <;> cases skipped
  | control control =>
    rw [kind] at skipped
    cases control with
    | loop | wait => rfl
    | _ => cases skipped
  | code | subWorkflow _ => rfl

theorem executeNode_skipped {outputs' : Outputs}
    (alike : ∀ edge ∈ graph.inbound node.id, outputs edge.source = outputs' edge.source)
    (skipped : (executeNode host graph node outputs).status = .skipped) :
    executeNode host graph node outputs' = executeNode host graph node outputs := by
  have inputs := collectInputsByPort_congr alike
  have produced := produce_skipped skipped outputs'
  unfold executeNode
  dsimp only
  rw [← inputs, produced]

theorem executeNode_status (host : Host) (graph : WorkflowGraph) (node : WorkflowNode) (outputs : Outputs) :
    (executeNode host graph node outputs).status = .succeeded ∨
      (executeNode host graph node outputs).status = .failed ∨
      (executeNode host graph node outputs).status = .skipped := by
  show (produce host node _ outputs).1 = _ ∨ (produce host node _ outputs).1 = _ ∨ (produce host node _ outputs).1 = _
  unfold produce
  cases node.kind with
  | trigger _ => exact .inl rfl
  | tool toolName =>
    dsimp only [executeToolNode]
    split
    · exact .inr (.inl rfl)
    · split
      · exact .inl rfl
      · exact .inr (.inl rfl)
  | control control =>
    cases control with
    | loop | wait => exact .inr (.inr rfl)
    | _ => exact .inl rfl
  | code | subWorkflow _ => exact .inr (.inr rfl)

theorem executeNode_halt (halted : (executeNode host graph node outputs).halt = true) :
    (executeNode host graph node outputs).status = .succeeded := by
  have stop : node.kind = .control .stop := by simpa [executeNode] using halted
  show (produce host node _ outputs).1 = _
  unfold produce
  rw [stop]
  rfl

end RootCx.Workflow
