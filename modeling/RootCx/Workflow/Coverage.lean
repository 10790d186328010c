import RootCx.Workflow.Crashes

/-! # What a successful run has executed

A run goes through the order of the sort, so a node that the sort leaves out is never
looked at: it is on a cycle or behind one, and the validation accepts such graphs.
Where the sort leaves out nothing behind a node that it has, a run that ends as
succeeded has executed the nodes that were fed with items, behind those that feed them,
and no others.

The tools may answer differently each time a node is executed, so each execution has a
host of its own here, and the process may die and resume at any moment.
-/

namespace RootCx.Workflow

open List Function

/-! ## Ports with items -/

namespace Items

theorem mem_activePorts {ports : List Json} (narrow : ports.length ≤ 256) {port : UInt8} :
    port ∈ activePorts (.arr ports) ↔ decodePort (.arr ports) port ≠ [] := by
  have decoded : decodePort (.arr ports) port ≠ [] ↔ ∃ items, ports[port.toNat]? = some (.arr items) ∧ items ≠ [] := by
    unfold decodePort
    simp only
    split
    next items found =>
      rw [found, ne_eq, map_eq_nil_iff]
      constructor
      · exact fun filled => ⟨items, rfl, filled⟩
      · rintro ⟨others, same, filled⟩
        cases same
        exact filled
    next other =>
      constructor
      · exact fun filled => absurd rfl filled
      · rintro ⟨items, found, -⟩
        exact absurd found (other items)
  rw [decoded]
  simp only [activePorts, mem_map, mem_filter]
  constructor
  · rintro ⟨⟨value, index⟩, ⟨mem, filled⟩, rfl⟩
    have found : ports[index]? = some value := mk_mem_zipIdx_iff_getElem?.mp mem
    have within : index < 256 := lt_of_lt_of_le (List.getElem?_eq_some_iff.mp found).1 narrow
    have same : (UInt8.ofNat index).toNat = index := by simp [Nat.mod_eq_of_lt within]
    rw [same]
    cases value with
    | arr items => exact ⟨items, found, by simpa using filled⟩
    | _ => cases filled
  · rintro ⟨items, found, filled⟩
    refine ⟨(.arr items, port.toNat), ⟨mk_mem_zipIdx_iff_getElem?.mpr found, ?_⟩, ?_⟩
    · simpa using filled
    · simp

end Items

/-- The kinds of nodes that are not implemented. -/
def WorkflowNodeKind.unsupported : WorkflowNodeKind → Bool
  | .code | .subWorkflow _ | .control .loop | .control .wait => true
  | _ => false

/-- A Switch node has at most as many cases as a port number can count beside the default. -/
def WorkflowNode.Narrow (node : WorkflowNode) : Prop :=
  node.kind = .control .switch → (((node.params.get "cases").bind Json.asArray).map length).getD 0 ≤ 255

variable {host : Host} {graph : WorkflowGraph} {node : WorkflowNode} {outputs : Outputs}

theorem executeNode_unsupported :
    (executeNode host graph node outputs).status = .skipped ↔ node.kind.unsupported = true := by
  change (produce host node _ outputs).1 = .skipped ↔ _
  unfold produce
  cases node.kind with
  | trigger => exact ⟨nofun, nofun⟩
  | code | subWorkflow => exact ⟨fun _ => rfl, fun _ => rfl⟩
  | tool toolName =>
    refine ⟨fun skipped => ?_, nofun⟩
    dsimp only [executeToolNode] at skipped
    split at skipped
    · cases skipped
    · split at skipped <;> cases skipped
  | control control =>
    cases control with
    | loop | wait => exact ⟨fun _ => rfl, fun _ => rfl⟩
    | _ => exact ⟨nofun, nofun⟩

theorem foldl_modify_length {items : List Item} {ports : List (List Item)} (port : Item → Nat) :
    (items.foldl (fun ports item => ports.modify (port item) (· ++ [item])) ports).length = ports.length := by
  induction items generalizing ports with
  | nil => rfl
  | cons item items ih => rw [foldl_cons, ih, length_modify]

theorem produce_narrow {ports : List (List Item)} (narrow : node.Narrow) :
    (produce host node ports outputs).2.1.length ≤ 256 := by
  unfold produce
  have one : 1 ≤ 256 := by decide
  have two : 2 ≤ 256 := by decide
  cases kind : node.kind with
  | trigger | code | subWorkflow => exact one
  | tool toolName =>
    dsimp only [executeToolNode]
    split
    · exact one
    · split <;> exact one
  | control control =>
    cases control with
    | switch =>
      have few := narrow kind
      dsimp only [executeControlNode, executeSwitch]
      rw [foldl_modify_length, length_replicate]
      omega
    | ifElse => exact two
    | merge | set | loop | wait | stop => exact one

theorem recorded_narrow (policy : RetryPolicy) (narrow : node.Narrow) :
    ∃ ports, (recorded policy (executeNode host graph node outputs)).2 = .arr ports ∧ ports.length ≤ 256 := by
  unfold recorded
  split
  · exact ⟨_, rfl, (by decide : 1 ≤ 256)⟩
  · refine ⟨_, rfl, ?_⟩
    rw [length_map]
    exact produce_narrow narrow

namespace Execution

/-! ## Runs with tools that answer anew -/

inductive Move where
  | advance
  /-- A node is executed, with the tools as they answer now. -/
  | execute (host : Host)
  | crash

def move (e : Execution) (s : Run) : Move → Option Run
  | .advance =>
    match s.phase with
    | .attempting _ _ _ _ => none
    | _ => e.advance s
  | .execute host =>
    match s.phase with
    | .attempting m node rest attempts =>
      some { s with
        phase := .executed m node rest (attempts + 1) (executeNode host e.graph node m.runOutputs)
        log := s.log ++ [node.id] }
    | _ => none
  | .crash => crash s

/-! ## What is promised of a successful run -/

/-- The source of the edge has succeeded, with at least one item on its output port. -/
def Feeds (nodeRuns : NodeRuns) (edge : WorkflowEdge) : Prop :=
  ∃ row output, nodeRuns edge.source = some row ∧ row.status = .succeeded ∧ row.output = some output ∧
    Items.decodePort output edge.fromOutput ≠ []

/-- Each node that was fed has been executed, behind the executed nodes that lead to it, and
    no other node has, beside the triggers that nothing leads to. -/
structure Covered (e : Execution) (s : Run) : Prop where
  fed : ∀ edge ∈ e.graph.edges, Feeds s.nodeRuns edge → edge.target ∈ s.log
  sorted : ∀ front id rest, s.log = front ++ id :: rest → ∀ edge ∈ e.graph.inbound id, edge.source ∈ s.log → edge.source ∈ front
  only : ∀ id ∈ s.log, (∃ edge ∈ e.graph.inbound id, Feeds s.nodeRuns edge) ∨
    e.graph.inbound id = [] ∧ ∃ node ∈ e.graph.nodes, node.id = id ∧ node.kind.isTrigger = true

def StopMet (e : Execution) (s : Run) : Prop :=
  ∃ id ∈ s.log, ∃ node, e.graph.node id = some node ∧ node.kind = .control .stop

/-- No edge leads from a node of the order to a node that the sort has left out. -/
def Sorts (e : Execution) : Prop := ∀ edge ∈ e.graph.edges, edge.source ∈ e.order → edge.target ∈ e.order

/-! ## The ports that are rebuilt from the records -/

def Succeeded (nodeRuns : NodeRuns) (id : Text) : Prop := (nodeRuns id).any succeededRun = true

variable {e : Execution} {nodeRuns : NodeRuns} {front rest : List Text} {id : Text} {node : WorkflowNode} {row : NodeRun}

theorem portsOf_none (unsuccessful : ¬Succeeded nodeRuns id) : portsOf nodeRuns id = none := by
  change ((nodeRuns id).filter succeededRun).bind _ = none
  cases found : nodeRuns id with
  | none => rfl
  | some row =>
    have failed : succeededRun row = false := by
      cases status : succeededRun row with
      | false => rfl
      | true => exact absurd (by rw [Succeeded, found]; exact status) unsuccessful
    rw [Option.filter_some, failed]
    rfl

theorem portsOf_update {other : Text} (different : other ≠ id) :
    portsOf (update nodeRuns id (some row)) other = portsOf nodeRuns other := by
  change ((update nodeRuns id (some row) other).filter succeededRun).bind _ = _
  rw [update_of_ne different]
  rfl

theorem portsOf_update_self {output : Json} (succeeded : row.status = .succeeded) (recorded : row.output = some output) :
    portsOf (update nodeRuns id (some row)) id = some (Items.activePorts output) := by
  change ((update nodeRuns id (some row) id).filter succeededRun).bind _ = _
  have kept : succeededRun row = true := decide_eq_true succeeded
  rw [update_self, Option.filter_some, kept, if_pos rfl]
  change row.output.map Items.activePorts = _
  rw [recorded]
  rfl

theorem succeeded_update_self : Succeeded (update nodeRuns id (some row)) id ↔ row.status = .succeeded := by
  rw [Succeeded, update_self]
  exact decide_eq_true_iff

theorem succeeded_update {other : Text} (different : other ≠ id) :
    Succeeded (update nodeRuns id (some row)) other ↔ Succeeded nodeRuns other := by
  rw [Succeeded, Succeeded, update_of_ne different]

theorem portsOf_update_unsuccessful (unsuccessful : ¬Succeeded nodeRuns id) (failed : row.status ≠ .succeeded) :
    portsOf (update nodeRuns id (some row)) = portsOf nodeRuns := by
  funext other
  by_cases same : other = id
  · subst same
    rw [portsOf_none unsuccessful, portsOf_none (mt succeeded_update_self.mp failed)]
  · exact portsOf_update same

theorem shouldExecute_mono {ports ports' : Ports}
    (grown : ∀ id active, ports id = some active → ports' id = some active)
    (ready : shouldExecute graph id ports = true) : shouldExecute graph id ports' = true := by
  unfold shouldExecute at ready ⊢
  simp only at ready ⊢
  split at ready
  next => exact ready
  next inbound =>
    obtain ⟨edge, mem, active⟩ := any_eq_true.mp ready
    refine any_eq_true.mpr ⟨edge, mem, ?_⟩
    cases found : ports edge.source with
    | none =>
      rw [found] at active
      cases active
    | some known =>
      rw [found] at active
      rw [grown edge.source known found]
      exact active

/-! ## Nodes that a run has passed for good -/

/-- Nothing changes any more for a node: it has succeeded, it is not implemented, or it
    has not been ready. -/
inductive Outcome (e : Execution) (nodeRuns : NodeRuns) (id : Text) : Prop
  | succeeded (succeeded : Succeeded nodeRuns id)
  | skipped (node : WorkflowNode) (found : e.graph.node id = some node) (unsupported : node.kind.unsupported = true)
    (recorded : (nodeRuns id).isSome = true)
  | idle (absent : nodeRuns id = none) (unready : shouldExecute e.graph id (portsOf nodeRuns) = false)
  | missing (absent : nodeRuns id = none) (missing : e.graph.node id = none)

def Passed (e : Execution) (nodeRuns : NodeRuns) (front : List Text) : Prop := ∀ id ∈ front, e.Outcome nodeRuns id

theorem source_within (within : front <+: e.order) (mem : id ∈ front) {edge : WorkflowEdge}
    (into : edge ∈ e.graph.inbound id) : edge.source ∈ front := by
  obtain ⟨tail, whole⟩ := within
  obtain ⟨before, behind, rfl⟩ := append_of_mem mem
  have split : e.order = before ++ id :: (behind ++ tail) := by rw [← whole]; simp
  exact mem_append_left _ (source_behind split into)

/-- A record leaves a passed part of the order as it is: it is of a node elsewhere, or of
    one that is not implemented. -/
theorem Passed.update (passed : e.Passed nodeRuns front) (within : front <+: e.order)
    (apart : id ∉ front ∨ (∃ node, e.graph.node id = some node ∧ node.kind.unsupported = true) ∧
      ¬Succeeded nodeRuns id ∧ row.status ≠ .succeeded) :
    e.Passed (update nodeRuns id (some row)) front := by
  have ports (other : Text) (mem : other ∈ front) :
      portsOf (Function.update nodeRuns id (some row)) other = portsOf nodeRuns other := by
    rcases apart with elsewhere | ⟨-, unsuccessful, failed⟩
    · apply portsOf_update
      rintro rfl
      exact elsewhere mem
    · rw [portsOf_update_unsuccessful unsuccessful failed]
  intro other mem
  by_cases same : other = id
  · subst same
    rcases apart with elsewhere | ⟨⟨node, found, unsupported⟩, -, -⟩
    · exact absurd mem elsewhere
    · exact .skipped node found unsupported (by rw [update_self]; rfl)
  · have unchanged : Function.update nodeRuns id (some row) other = nodeRuns other := Function.update_of_ne same ..
    cases passed other mem with
    | succeeded succeeded => exact .succeeded ((succeeded_update same).mpr succeeded)
    | skipped node found unsupported recorded => exact .skipped node found unsupported (by rw [unchanged]; exact recorded)
    | idle absent unready =>
      refine .idle (unchanged.trans absent) ?_
      rw [shouldExecute_congr fun edge into => ports edge.source (source_within within mem into)]
      exact unready
    | missing absent missing => exact .missing (unchanged.trans absent) missing

/-! ## The invariant -/

/-- What holds of the records and the log, whatever the process does. -/
structure Kept (e : Execution) (nodeRuns : NodeRuns) (log : List Text) : Prop where
  logged : ∀ id, (nodeRuns id).isSome = true → id ∈ log
  ready : ∀ id ∈ log, shouldExecute e.graph id (portsOf nodeRuns) = true
  within : ∀ id ∈ log, id ∈ e.order
  found : ∀ id ∈ log, ∃ node, e.graph.node id = some node
  passed : ∀ front id rest, e.order = front ++ id :: rest → id ∈ log → e.Passed nodeRuns front
  sorted : ∀ front id rest, log = front ++ id :: rest → ∀ edge ∈ e.graph.inbound id, edge.source ∈ log → edge.source ∈ front
  narrow : ∀ id row, nodeRuns id = some row → row.status = .succeeded →
    ∃ ports, row.output = some (.arr ports) ∧ ports.length ≤ 256

/-- The memory of a run that has come through `front`. -/
structure Through (e : Execution) (nodeRuns : NodeRuns) (log front : List Text) (m : Memory) : Prop where
  ports : m.activePorts = portsOf nodeRuns
  done : ∀ id, m.done id = true → Succeeded nodeRuns id
  undone : ∀ id, id ∉ front → m.done id = false → ¬Succeeded nodeRuns id
  passed : m.aborted = false → m.halted = false → e.Passed nodeRuns front
  aborted : m.aborted = true → m.allSucceeded = false
  halted : m.halted = true → ∃ id ∈ log, ∃ node, e.graph.node id = some node ∧ node.kind = .control .stop

/-- The node that a run is at. -/
structure At (e : Execution) (nodeRuns : NodeRuns) (log front : List Text) (m : Memory) (node : WorkflowNode)
    (rest : List Text) : Prop where
  split : e.order = front ++ node.id :: rest
  through : e.Through nodeRuns log front m
  running : m.aborted = false ∧ m.halted = false
  found : e.graph.node node.id = some node
  undone : ¬Succeeded nodeRuns node.id
  ready : shouldExecute e.graph node.id (portsOf nodeRuns) = true

/-- Where the process is. -/
def Placed (e : Execution) (s : Run) : Prop :=
  match s.phase with
  | .waiting | .started => True
  | .looping m rest => ∃ front, e.order = front ++ rest ∧ e.Through s.nodeRuns s.log front m
  | .attempting m node rest _ => ∃ front, e.At s.nodeRuns s.log front m node rest
  | .executed m node rest _ ex =>
    ∃ front, e.At s.nodeRuns s.log front m node rest ∧ node.id ∈ s.log ∧
      ∃ host, ex = executeNode host e.graph node m.runOutputs
  | .finished => s.status = .succeeded → e.StopMet s ∨ e.Passed s.nodeRuns e.order

structure Inv (e : Execution) (s : Run) : Prop where
  kept : e.Kept s.nodeRuns s.log
  placed : e.Placed s
  live : s.phase ≠ .finished → s.status ≠ .succeeded

variable {log : List Text} {m : Memory} {s next : Run}

theorem Through.seed (e : Execution) (nodeRuns : NodeRuns) (log : List Text) :
    e.Through nodeRuns log [] (seedResume e.reads nodeRuns) where
  ports := seedResume_activePorts ..
  done _ := id
  undone _ _ undone succeeded := absurd succeeded (by rw [Succeeded]; exact Bool.eq_false_iff.mp undone)
  passed _ _ := nofun
  aborted := nofun
  halted := nofun

theorem Through.pass (through : e.Through nodeRuns log front m) (outcome : e.Outcome nodeRuns id) :
    e.Through nodeRuns log (front ++ [id]) m where
  ports := through.ports
  done := through.done
  undone other outside := through.undone other fun mem => outside (mem_append_left _ mem)
  passed unaborted running other mem := by
    rcases mem_append.mp mem with before | last
    · exact through.passed unaborted running other before
    · rw [mem_singleton.mp last]
      exact outcome
  aborted := through.aborted
  halted := through.halted

theorem Kept.absent (kept : e.Kept nodeRuns log) (unready : shouldExecute e.graph id (portsOf nodeRuns) = false) :
    nodeRuns id = none := by
  cases found : nodeRuns id with
  | none => rfl
  | some row =>
    have logged := kept.logged id (by rw [found]; rfl)
    exact absurd (kept.ready id logged) (by rw [unready]; decide)

/-- A node that is executed again is one that is not implemented, where a later node has
    been executed already. -/
theorem At.unsupported {rest : List Text} (here : e.At nodeRuns log front m node rest) (outcome : e.Outcome nodeRuns node.id) :
    node.kind.unsupported = true ∧ (nodeRuns node.id).isSome = true := by
  cases outcome with
  | succeeded succeeded => exact absurd succeeded here.undone
  | skipped other found unsupported recorded =>
    cases here.found.symm.trans found
    exact ⟨unsupported, recorded⟩
  | idle _ unready => exact absurd here.ready (by rw [unready]; decide)
  | missing _ missing => exact nomatch here.found.symm.trans missing

theorem At.within {rest : List Text} (here : e.At nodeRuns log front m node rest) : node.id ∈ e.order := by
  rw [here.split]
  exact mem_append_right _ mem_cons_self

theorem split_unique {front' rest' : List Text} (split : e.order = front ++ id :: rest)
    (split' : e.order = front' ++ id :: rest') : front' = front := by
  have distinct := e.order_nodup
  rw [split'] at distinct
  have behind : id ∉ rest' := (nodup_cons.mp (nodup_append.mp distinct).2.1).1
  exact ((append_cons_inj_of_notMem (notMem_of_split split') behind).mp (split'.symm.trans split)).1

/-- The node is executed. -/
theorem Kept.execute {rest : List Text} (kept : e.Kept nodeRuns log) (here : e.At nodeRuns log front m node rest) :
    e.Kept nodeRuns (log ++ [node.id]) where
  logged other recorded := mem_append_left _ (kept.logged other recorded)
  ready other mem := by
    rcases mem_append.mp mem with before | last
    · exact kept.ready other before
    · rw [mem_singleton.mp last]
      exact here.ready
  within other mem := by
    rcases mem_append.mp mem with before | last
    · exact kept.within other before
    · rw [mem_singleton.mp last]
      exact here.within
  found other mem := by
    rcases mem_append.mp mem with before | last
    · exact kept.found other before
    · rw [mem_singleton.mp last]
      exact ⟨node, here.found⟩
  passed front' other rest' split mem := by
    rcases mem_append.mp mem with before | last
    · exact kept.passed front' other rest' split before
    · rw [mem_singleton.mp last] at split
      obtain rfl := split_unique here.split split
      exact here.through.passed here.running.1 here.running.2
  sorted front' other rest' split edge into mem := by
    rcases eq_nil_or_concat rest' with rfl | ⟨behind, last, rfl⟩
    · -- the node itself: what leads to it is in the log, and it does not lead to itself
      obtain ⟨rfl, same⟩ := append_inj' split rfl
      obtain rfl : node.id = other := (cons.inj same).1
      rcases mem_append.mp mem with before | itself
      · exact before
      · have loops := source_behind here.split into
        rw [mem_singleton.mp itself] at loops
        exact absurd loops (notMem_of_split here.split)
    · rw [concat_eq_append, ← cons_append, ← append_assoc] at split
      obtain ⟨earlier, same⟩ := append_inj' split rfl
      have listed : other ∈ log := by
        rw [earlier]
        exact mem_append_right _ mem_cons_self
      have sourced : edge.source ∈ log := by
        rcases mem_append.mp mem with before | itself
        · exact before
        · -- it leads to a node that has been executed, so it was executed before that one
          have own : edge.source = node.id := mem_singleton.mp itself
          obtain ⟨before, after, whole⟩ := append_of_mem (kept.within other listed)
          have behind := source_behind whole into
          rw [own] at behind ⊢
          exact kept.logged node.id (here.unsupported (kept.passed before other after whole listed node.id behind)).2
      exact kept.sorted front' other behind earlier edge into sourced
  narrow := kept.narrow

/-- An attempt of the node is recorded. -/
theorem Kept.update {rest : List Text} (kept : e.Kept nodeRuns log) (here : e.At nodeRuns log front m node rest)
    (mem : node.id ∈ log) (unsupported : node.kind.unsupported = true → row.status ≠ .succeeded)
    (narrow : row.status = .succeeded → ∃ ports, row.output = some (.arr ports) ∧ ports.length ≤ 256) :
    e.Kept (update nodeRuns node.id (some row)) log where
  logged other recorded := by
    by_cases same : other = node.id
    · rw [same]
      exact mem
    · rw [update_of_ne same] at recorded
      exact kept.logged other recorded
  ready other listed := by
    refine shouldExecute_mono (fun known active found => ?_) (kept.ready other listed)
    by_cases same : known = node.id
    · subst same
      exact nomatch (portsOf_none here.undone).symm.trans found
    · rw [portsOf_update same]
      exact found
  within := kept.within
  found := kept.found
  passed front' other rest' split listed := by
    have passed := kept.passed front' other rest' split listed
    refine passed.update ⟨other :: rest', split.symm⟩ ?_
    by_cases behind : node.id ∈ front'
    · have skips := (here.unsupported (passed node.id behind)).1
      exact .inr ⟨⟨node, here.found, skips⟩, here.undone, unsupported skips⟩
    · exact .inl behind
  sorted := kept.sorted
  narrow other row' found succeeded := by
    by_cases same : other = node.id
    · subst same
      rw [update_self] at found
      cases found
      exact narrow succeeded
    · rw [update_of_ne same] at found
      exact kept.narrow other row' found succeeded

theorem At.passed_update {rest : List Text} (here : e.At nodeRuns log front m node rest) :
    e.Passed (update nodeRuns node.id (some row)) front := by
  apply Passed.update (here.through.passed here.running.1 here.running.2) ⟨node.id :: rest, here.split.symm⟩
  exact .inl (notMem_of_split here.split)

/-- The node is tried again. -/
theorem At.retry {rest : List Text} (here : e.At nodeRuns log front m node rest) (failed : row.status ≠ .succeeded) :
    e.At (update nodeRuns node.id (some row)) log front m node rest := by
  have ports := portsOf_update_unsuccessful here.undone failed
  have undone : ¬Succeeded (update nodeRuns node.id (some row)) node.id := mt succeeded_update_self.mp failed
  refine ⟨here.split, ⟨?_, ?_, ?_, fun _ _ => here.passed_update, here.through.aborted, here.through.halted⟩, here.running,
    here.found, undone, ?_⟩
  · rw [ports]
    exact here.through.ports
  · intro other done
    have succeeded := here.through.done other done
    by_cases same : other = node.id
    · subst same
      exact absurd succeeded here.undone
    · exact (succeeded_update same).mpr succeeded
  · intro other outside open_
    by_cases same : other = node.id
    · rw [same]
      exact undone
    · rw [succeeded_update same]
      exact here.through.undone other outside open_
  · rw [ports]
    exact here.ready

/-- The last attempt of the node is recorded, and the run goes on. -/
theorem At.record {rest : List Text} {host : Host} {outputs : Outputs} {attempt : Nat}
    (here : e.At nodeRuns log front m node rest) (mem : node.id ∈ log) :
    e.Through (update nodeRuns node.id
        (some (nodeRun (retryPolicy node) (executeNode host e.graph node outputs) attempt))) log (front ++ [node.id])
      (m.after node.id (retryPolicy node) (executeNode host e.graph node outputs)) := by
  have undone (done : Text → Bool) (same : done = m.done) (row : NodeRun) :
      ∀ other, other ∉ front ++ [node.id] → done other = false →
        ¬Succeeded (update nodeRuns node.id (some row)) other := by
    intro other outside open_
    rw [mem_append, mem_singleton, not_or] at outside
    rw [succeeded_update outside.2]
    exact here.through.undone other outside.1 (same ▸ open_)
  have done (row : NodeRun) : ∀ other, m.done other = true →
      Succeeded (update nodeRuns node.id (some row)) other := by
    intro other done
    have succeeded := here.through.done other done
    by_cases same : other = node.id
    · subst same
      exact absurd succeeded here.undone
    · exact (succeeded_update same).mpr succeeded
  have passed (row : NodeRun) (outcome : e.Outcome (update nodeRuns node.id (some row)) node.id) :
      e.Passed (update nodeRuns node.id (some row)) (front ++ [node.id]) := by
    intro other listed
    rcases mem_append.mp listed with before | last
    · exact here.passed_update other before
    · rw [mem_singleton.mp last]
      exact outcome
  have halts : (m.halted || (executeNode host e.graph node outputs).halt) = true →
      ∃ id ∈ log, ∃ node, e.graph.node id = some node ∧ node.kind = .control .stop := by
    intro halted
    rw [here.running.2, Bool.false_or] at halted
    exact ⟨node.id, mem, node, here.found, of_decide_eq_true halted⟩
  by_cases succeeded : (recorded (retryPolicy node) (executeNode host e.graph node outputs)).1 = .succeeded
  · rw [after_of_succeeded succeeded]
    refine ⟨?_, done _, undone _ rfl _, fun _ _ => passed _ (.succeeded (succeeded_update_self.mpr succeeded)), ?_, halts⟩
    · funext other
      by_cases same : other = node.id
      · subst same
        rw [portsOf_update_self succeeded rfl]
        exact update_self ..
      · rw [portsOf_update same, ← here.through.ports]
        exact update_of_ne same ..
    · intro aborted
      exact absurd aborted (by rw [here.running.1]; decide)
  · rw [after_of_unsuccessful succeeded]
    have same : portsOf (update nodeRuns node.id
        (some (nodeRun (retryPolicy node) (executeNode host e.graph node outputs) attempt))) = portsOf nodeRuns :=
      portsOf_update_unsuccessful here.undone succeeded
    refine ⟨same ▸ here.through.ports, done _, undone _ rfl _, fun unaborted _ => passed _ ?_, fun _ => rfl, halts⟩
    -- it has not failed, so it is not implemented
    have kept : (recorded (retryPolicy node) (executeNode host e.graph node outputs)).1 ≠ .failed := by
      rw [here.running.1, Bool.false_or] at unaborted
      exact of_decide_eq_false unaborted
    have skipped : (executeNode host e.graph node outputs).status = .skipped :=
      @skipped_of_recorded { e with host } node (retryPolicy node) outputs succeeded kept
    exact .skipped node here.found (executeNode_unsupported.mp skipped) (by rw [update_self]; rfl)

/-- The run ends: it has failed, has met a Stop node or is through the order. -/
theorem Through.finish (through : e.Through s.nodeRuns s.log front m)
    (ended : front = e.order ∨ (m.aborted || m.halted) = true) : e.Placed (finish s m) := by
  intro succeeded
  have all : m.allSucceeded = true := by
    cases found : m.allSucceeded with
    | true => rfl
    | false =>
      change (if m.allSucceeded then WorkflowExecutionStatus.succeeded else .failed) = _ at succeeded
      rw [found] at succeeded
      cases succeeded
  have unaborted : m.aborted = false := by
    cases found : m.aborted with
    | false => rfl
    | true => exact absurd all (by rw [through.aborted found]; decide)
  cases halted : m.halted with
  | true => exact .inl (through.halted halted)
  | false =>
    rcases ended with rfl | stopped
    · exact .inr (through.passed unaborted halted)
    · rw [unaborted, halted] at stopped
      cases stopped

/-- The head of the loop. -/
theorem Inv.meet (inv : e.Inv s) (through : e.Through s.nodeRuns s.log front m) (split : e.order = front ++ id :: rest)
    (running : (m.aborted || m.halted) = false) (live : s.status ≠ .succeeded) : e.Inv (e.meet s m id rest) := by
  have passes (outcome : e.Outcome s.nodeRuns id) : e.Inv { s with phase := .looping m rest } := by
    refine ⟨inv.kept, ⟨front ++ [id], ?_, through.pass outcome⟩, fun _ => live⟩
    rw [split, append_assoc, singleton_append]
  unfold Execution.meet
  split
  next missing =>
    apply passes
    refine .missing ?_ missing
    cases recorded : s.nodeRuns id with
    | none => rfl
    | some row =>
      obtain ⟨node, found⟩ := inv.kept.found id (inv.kept.logged id (by rw [recorded]; rfl))
      exact nomatch missing.symm.trans found
  next node found =>
    obtain rfl := WorkflowGraph.id_of_node found
    split
    next done => exact passes (.succeeded (through.done _ done))
    next undone =>
      split
      next unready =>
        have unready : shouldExecute e.graph node.id (portsOf s.nodeRuns) = false := by
          rw [← through.ports]
          simpa using unready
        exact passes (.idle (inv.kept.absent unready) unready)
      next ready =>
        rw [Bool.or_eq_false_iff] at running
        refine ⟨inv.kept, ⟨front, split, through, running, found, ?_, ?_⟩, fun _ => live⟩
        · exact through.undone node.id (notMem_of_split split) (by simpa using undone)
        · rw [← through.ports]
          simpa using ready

theorem Inv.conclude {rest : List Text} {attempt : Nat} (inv : e.Inv s)
    (here : e.At s.nodeRuns s.log front m node rest) (mem : node.id ∈ s.log) (live : s.status ≠ .succeeded)
    (narrow : node.Narrow) :
    e.Inv (conclude s m node rest attempt (executeNode host e.graph node outputs)) := by
  unfold Execution.conclude
  simp only
  split
  next again =>
    have failed : (retriedRun (executeNode host e.graph node outputs) attempt).status ≠ .succeeded := nofun
    refine ⟨inv.kept.update here mem (fun _ => failed) (fun succeeded => absurd succeeded failed), ⟨front, here.retry failed⟩,
      fun _ => live⟩
  next =>
    refine ⟨inv.kept.update here mem ?_ ?_, ⟨front ++ [node.id], ?_, here.record mem⟩, fun _ => live⟩
    · intro unsupported succeeded
      have skipped : (executeNode host e.graph node outputs).status = .skipped := executeNode_unsupported.mpr unsupported
      change (recorded (retryPolicy node) (executeNode host e.graph node outputs)).1 = .succeeded at succeeded
      rw [recorded, skipped] at succeeded
      cases succeeded
    · intro _
      obtain ⟨ports, output, few⟩ := recorded_narrow (retryPolicy node) narrow
      exact ⟨ports, congrArg some output, few⟩
    · rw [here.split, append_assoc, singleton_append]

theorem mem_of_node (found : e.graph.node id = some node) : node ∈ e.graph.nodes :=
  mem_reverse.mp (mem_of_find?_eq_some found)

theorem Inv.queued (e : Execution) : e.Inv queued where
  kept := ⟨nofun, nofun, nofun, nofun, nofun,
    fun _ _ _ split => (nomatch (append_eq_nil_iff.mp split.symm).2), nofun⟩
  placed := trivial
  live := nofun

theorem Inv.advance (inv : e.Inv s) (advanced : e.move s .advance = some next)
    (narrow : ∀ node ∈ e.graph.nodes, node.Narrow) : e.Inv next := by
  have placed := inv.placed
  unfold Placed at placed
  cases phase : s.phase with
  | waiting =>
    rw [phase] at placed
    simp only [move, phase, Execution.advance] at advanced
    split at advanced
    · cases advanced
      exact ⟨inv.kept, trivial, by rintro _ ⟨⟩⟩
    · cases advanced
  | started =>
    have live := inv.live (by rw [phase]; rintro ⟨⟩)
    simp only [move, phase, Execution.advance] at advanced
    cases advanced
    exact ⟨inv.kept, ⟨[], rfl, .seed e s.nodeRuns s.log⟩, fun _ => live⟩
  | looping m rest =>
    have live := inv.live (by rw [phase]; rintro ⟨⟩)
    rw [phase] at placed
    obtain ⟨front, split, through⟩ := placed
    cases rest with
    | nil =>
      simp only [move, phase, Execution.advance] at advanced
      cases advanced
      refine ⟨inv.kept, through.finish (.inl ?_), fun unfinished => absurd rfl unfinished⟩
      rw [split, append_nil]
    | cons id rest =>
      simp only [move, phase, Execution.advance] at advanced
      split at advanced
      next stopped =>
        cases advanced
        exact ⟨inv.kept, through.finish (.inr stopped), fun unfinished => absurd rfl unfinished⟩
      next running =>
        cases advanced
        exact inv.meet through split (by simpa using running) live
  | attempting m node rest attempts =>
    simp only [move, phase] at advanced
    cases advanced
  | executed m node rest attempt ex =>
    have live := inv.live (by rw [phase]; rintro ⟨⟩)
    rw [phase] at placed
    obtain ⟨front, here, mem, host, rfl⟩ := placed
    simp only [move, phase, Execution.advance] at advanced
    cases advanced
    exact inv.conclude here mem live (narrow node (mem_of_node here.found))
  | finished =>
    simp only [move, phase, Execution.advance] at advanced
    cases advanced

theorem Inv.step {action : Move} (inv : e.Inv s) (stepped : e.move s action = some next)
    (narrow : ∀ node ∈ e.graph.nodes, node.Narrow) : e.Inv next := by
  cases action with
  | advance => exact inv.advance stepped narrow
  | execute host =>
    have placed := inv.placed
    unfold Placed at placed
    simp only [move] at stepped
    split at stepped
    next m node rest attempts phase =>
      have live := inv.live (by rw [phase]; exact nofun)
      rw [phase] at placed
      obtain ⟨front, here⟩ := placed
      cases stepped
      have mem : node.id ∈ s.log ++ [node.id] := mem_append_right _ (mem_singleton.mpr rfl)
      refine ⟨inv.kept.execute here, ⟨front, ⟨here.split, ?_, here.running, here.found, here.undone, here.ready⟩, mem, host,
        rfl⟩, fun _ => live⟩
      refine ⟨here.through.ports, here.through.done, here.through.undone, here.through.passed, here.through.aborted, ?_⟩
      intro halted
      exact absurd halted (by rw [here.running.2]; decide)
    next => cases stepped
  | crash =>
    simp only [move, Execution.crash] at stepped
    split at stepped
    next => cases stepped
    next unfinished =>
      cases stepped
      exact ⟨inv.kept, trivial, fun _ => inv.live unfinished⟩

theorem feeds_iff (kept : e.Kept nodeRuns log) (edge : WorkflowEdge) :
    (portsOf nodeRuns edge.source).any (·.contains edge.fromOutput) = true ↔ Feeds nodeRuns edge := by
  have reads : portsOf nodeRuns edge.source =
      ((nodeRuns edge.source).filter succeededRun).bind fun row => row.output.map Items.activePorts := rfl
  rw [reads]
  constructor
  · intro active
    cases found : nodeRuns edge.source with
    | none =>
      rw [found] at active
      cases active
    | some row =>
      rw [found, Option.filter_some] at active
      split at active
      next succeeded =>
        have status : row.status = .succeeded := of_decide_eq_true succeeded
        obtain ⟨ports, output, few⟩ := kept.narrow edge.source row found status
        rw [Option.bind_some, output, Option.map_some, Option.any_some, contains_iff_mem] at active
        exact ⟨row, .arr ports, found, status, output, (Items.mem_activePorts few).mp active⟩
      next => cases active
  · rintro ⟨row, output, found, status, recorded, filled⟩
    obtain ⟨ports, narrow, few⟩ := kept.narrow edge.source row found status
    cases recorded.symm.trans narrow
    have succeeded : succeededRun row = true := decide_eq_true status
    rw [found, Option.filter_some, if_pos succeeded, Option.bind_some, recorded, Option.map_some, Option.any_some,
      contains_iff_mem]
    exact (Items.mem_activePorts few).mpr filled

theorem shouldExecute_iff {graph : WorkflowGraph} {ports : Ports} :
    shouldExecute graph id ports = true ↔
      (∃ edge ∈ graph.inbound id, (ports edge.source).any (·.contains edge.fromOutput) = true) ∨
        graph.inbound id = [] ∧ (graph.nodes.find? fun node => decide (node.id = id)).any (·.kind.isTrigger) = true := by
  unfold shouldExecute
  simp only
  cases graph.inbound id with
  | nil => simp
  | cons first others => simp [any_eq_true]

theorem Inv.covered (inv : e.Inv s) (succeeded : s.status = .succeeded) (noStop : ¬e.StopMet s) (sorts : e.Sorts) :
    e.Covered s := by
  have finished : s.phase = .finished := by
    by_contra unfinished
    exact inv.live unfinished succeeded
  have placed := inv.placed
  unfold Placed at placed
  rw [finished] at placed
  have passed := (placed succeeded).resolve_left noStop
  have kept := inv.kept
  refine ⟨?_, kept.sorted, ?_⟩
  · intro edge mem feeds
    have into : edge ∈ e.graph.inbound edge.target := mem_filter.mpr ⟨mem, decide_eq_true rfl⟩
    have sourced : edge.source ∈ e.order := by
      obtain ⟨row, -, found, -⟩ := feeds
      exact kept.within edge.source (kept.logged edge.source (by rw [found]; rfl))
    cases passed edge.target (sorts edge mem sourced) with
    | succeeded succeeded => exact kept.logged edge.target (Option.isSome_of_any succeeded)
    | skipped _ _ _ recorded => exact kept.logged edge.target recorded
    | idle _ unready =>
      have ready := shouldExecute_iff.mpr (.inl ⟨edge, into, (feeds_iff kept edge).mpr feeds⟩)
      exact absurd ready (by rw [unready]; decide)
    | missing _ missing =>
      obtain ⟨node, found⟩ := WorkflowGraph.exists_node (WorkflowGraph.target_mem_ids e.accepted mem)
      exact nomatch missing.symm.trans found
  · intro id mem
    rcases shouldExecute_iff.mp (kept.ready id mem) with ⟨edge, into, active⟩ | ⟨nothing, trigger⟩
    · exact .inl ⟨edge, into, (feeds_iff kept edge).mp active⟩
    · refine .inr ⟨nothing, ?_⟩
      obtain ⟨node, found, kind⟩ := (Option.any_eq_true _ _).mp trigger
      have named := find?_some found
      exact ⟨node, mem_of_find?_eq_some found, of_decide_eq_true named, kind⟩

/-- In every run of a graph that the validation accepts, where no edge leads to a node that
    the sort leaves out and no Switch node has too many cases: if it ends as succeeded
    without a Stop node, it has executed the nodes that were fed and no others, in order. -/
theorem succeeded_covered (e : Execution) (sorts : e.Sorts) (narrow : ∀ node ∈ e.graph.nodes, node.Narrow)
    {moves : List Move} (ran : Runs.run e.move queued moves = some s) (succeeded : s.status = .succeeded)
    (noStop : ¬e.StopMet s) : e.Covered s := by
  have kept : e.Inv s := by
    refine Runs.run_invariant (fun inv stepped => ?_) (Inv.queued e) ran
    exact inv.step stepped narrow
  exact kept.covered succeeded noStop sorts

/-! ## A trigger with a Set node behind it, and one in front of a cycle -/

/-- A trigger that leads to a Set node. -/
def chainGraph : WorkflowGraph where
  nodes := [⟨['t'], .trigger .manual, .obj []⟩, ⟨['x'], .control .set, .obj []⟩]
  edges := [⟨['t'], ['x'], 0, 0⟩]

/-- A trigger in front of two Set nodes that lead to each other. -/
def loopGraph : WorkflowGraph where
  nodes := [⟨['t'], .trigger .manual, .obj []⟩, ⟨['x'], .control .set, .obj []⟩, ⟨['y'], .control .set, .obj []⟩]
  edges := [⟨['t'], ['x'], 0, 0⟩, ⟨['x'], ['y'], 0, 0⟩, ⟨['y'], ['x'], 0, 0⟩]

def chainExecution : Execution where
  host := ⟨noEngine, fun _ => none, ['e']⟩
  reads text := text
  graph := chainGraph
  roots := [['t']]
  accepted := rfl
  started := by decide

def loopExecution : Execution where
  host := ⟨noEngine, fun _ => none, ['e']⟩
  reads text := text
  graph := loopGraph
  roots := [['t']]
  accepted := rfl
  started := by decide

/-- The moves of one node that is met, executed and recorded. -/
def nodeMoves (host : Host) : List Move := [.advance, .execute host, .advance]

def chainMoves : List Move :=
  [Move.advance, .advance] ++ nodeMoves chainExecution.host ++ nodeMoves chainExecution.host ++ [Move.advance]

def loopMoves : List Move := [Move.advance, .advance] ++ nodeMoves loopExecution.host ++ [Move.advance]

/-- What the test runs are read off. -/
def outcome (s : Run) : WorkflowExecutionStatus × List Text := (s.status, s.log)

theorem not_stopMet (calm : ∀ node ∈ e.graph.nodes, node.kind ≠ .control .stop) (s : Run) : ¬e.StopMet s := by
  rintro ⟨id, -, node, found, kind⟩
  exact calm node (mem_reverse.mp (mem_of_find?_eq_some found)) kind

theorem chain_covered : ∃ s, Runs.run chainExecution.move queued chainMoves = some s ∧ s.status = .succeeded ∧
    s.log = [['t'], ['x']] ∧ chainExecution.Covered s := by
  have read : (Runs.run chainExecution.move queued chainMoves).map outcome = some (.succeeded, [['t'], ['x']]) := rfl
  obtain ⟨s, ran, ended⟩ := Option.map_eq_some_iff.mp read
  simp only [outcome, Prod.mk.injEq] at ended
  refine ⟨s, ran, ended.1, ended.2, succeeded_covered chainExecution ?_ ?_ ran ended.1 (not_stopMet ?_ s)⟩
  · change ∀ edge ∈ chainGraph.edges, edge.source ∈ chainExecution.order → edge.target ∈ chainExecution.order
    decide
  · intro node member kind
    simp only [chainExecution, chainGraph, List.mem_cons, List.not_mem_nil, or_false] at member
    rcases member with rfl | rfl <;> cases kind
  · change ∀ node ∈ chainGraph.nodes, node.kind ≠ .control .stop
    simp [chainGraph]

/-- The validation accepts a graph with a cycle, the sort leaves the cycle out, and the
    run ends as succeeded without the node that the trigger has fed. -/
theorem loop_dropped : ∃ s, Runs.run loopExecution.move queued loopMoves = some s ∧ s.status = .succeeded ∧
    ¬loopExecution.StopMet s ∧ ¬loopExecution.Covered s := by
  have read : (Runs.run loopExecution.move queued loopMoves).map outcome = some (.succeeded, [['t']]) := rfl
  have fed : (Runs.run loopExecution.move queued loopMoves).map (fun s => (s.nodeRuns ['t']).map fun row => (row.status, row.output)) =
      some (some (.succeeded, some (.arr [.arr [.obj [("json".toList, .obj [])]]]))) := rfl
  obtain ⟨s, ran, ended⟩ := Option.map_eq_some_iff.mp read
  simp only [outcome, Prod.mk.injEq] at ended
  refine ⟨s, ran, ended.1, not_stopMet ?_ s, fun covered => ?_⟩
  · change ∀ node ∈ loopGraph.nodes, node.kind ≠ .control .stop
    simp [loopGraph]
  · rw [ran, Option.map_some, Option.some.injEq] at fed
    obtain ⟨row, found, recorded⟩ := Option.map_eq_some_iff.mp fed
    simp only [Prod.mk.injEq] at recorded
    have executed := covered.fed ⟨['t'], ['x'], 0, 0⟩ (by simp [loopExecution, loopGraph])
      ⟨row, _, found, recorded.1, recorded.2, nofun⟩
    rw [ended.2] at executed
    exact absurd executed (by decide)

end Execution

end RootCx.Workflow
