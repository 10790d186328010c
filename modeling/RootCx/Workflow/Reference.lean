import RootCx.Workflow.Runner

/-! # The uninterrupted run, node by node

The reference that resumed runs are compared with: what the memory and the recorded
nodes are when a run that was never interrupted has come to some point of the order.
Every node in front of that point has its final record, and the caches are what
`seedResume` would rebuild from these records.
-/

namespace RootCx.Workflow

open List Function

structure Trace where
  memory : Memory
  nodeRuns : NodeRuns

def Trace.stopped (t : Trace) : Bool := t.memory.aborted || t.memory.halted

/-- The attempts that a node is recorded with: as many as its policy allows where it
    fails every time. -/
def attemptsOf (policy : RetryPolicy) (ex : NodeExecution) : Nat :=
  if ex.status = .failed then max 1 policy.maxAttempts else 1

variable {policy : RetryPolicy} {ex : NodeExecution}

namespace Execution

variable (e : Execution)

/-- A run at this point executes the node. -/
structure Takes (t : Trace) (id : Text) (node : WorkflowNode) : Prop where
  running : t.stopped = false
  found : e.graph.node id = some node
  ready : shouldExecute e.graph id t.memory.activePorts = true

/-- The record of the node after its last attempt. -/
def finalRun (t : Trace) (node : WorkflowNode) : NodeRun :=
  let ex := e.executed node t.memory.runOutputs
  nodeRun (retryPolicy node) ex (attemptsOf (retryPolicy node) ex)

def settled (t : Trace) (id : Text) (node : WorkflowNode) : Trace where
  memory := t.memory.after id (retryPolicy node) (e.executed node t.memory.runOutputs)
  nodeRuns := update t.nodeRuns id (some (e.finalRun t node))

def visit (t : Trace) (id : Text) : Trace :=
  if t.stopped then t
  else match e.graph.node id with
    | none => t
    | some node => if shouldExecute e.graph id t.memory.activePorts then e.settled t id node else t

def unvisited : Trace := ⟨seedResume e.reads fun _ => none, fun _ => none⟩

/-- An uninterrupted run, when the nodes of `front` are behind it. -/
def fresh (front : List Text) : Trace := front.foldl e.visit e.unvisited

variable {e} {t : Trace} {id : Text} {node : WorkflowNode} {front rest : List Text}

theorem visit_of_takes (takes : e.Takes t id node) : e.visit t id = e.settled t id node := by
  simp [visit, takes.running, takes.found, takes.ready]

theorem visit_cases (t : Trace) (id : Text) :
    (∃ node, e.Takes t id node) ∨ ((∀ node, ¬e.Takes t id node) ∧ e.visit t id = t) := by
  by_cases running : t.stopped = false
  · cases found : e.graph.node id with
    | none =>
      right
      refine ⟨fun node takes => ?_, by simp [visit, found]⟩
      rw [takes.found] at found
      cases found
    | some node =>
      by_cases ready : shouldExecute e.graph id t.memory.activePorts = true
      · exact .inl ⟨node, running, found, ready⟩
      · exact .inr ⟨fun _ takes => ready takes.ready, by simp [visit, found, ready]⟩
  · exact .inr ⟨fun _ takes => running takes.running, by simp [visit, Bool.eq_true_of_not_eq_false running]⟩

theorem visit_of_not_takes (passed : ∀ node, ¬e.Takes t id node) : e.visit t id = t := by
  rcases e.visit_cases t id with ⟨node, takes⟩ | ⟨_, same⟩
  · exact absurd takes (passed node)
  · exact same

theorem visit_of_stopped (stopped : t.stopped = true) : e.visit t id = t := by
  simp [visit, stopped]

theorem fresh_append (front rest : List Text) : e.fresh (front ++ rest) = rest.foldl e.visit (e.fresh front) :=
  foldl_append

theorem fresh_snoc (front : List Text) (id : Text) : e.fresh (front ++ [id]) = e.visit (e.fresh front) id :=
  fresh_append front [id]

theorem fresh_append_of_stopped (stopped : (e.fresh front).stopped = true) (rest : List Text) :
    e.fresh (front ++ rest) = e.fresh front := by
  induction rest using reverseRecOn with
  | nil => rw [append_nil]
  | append_singleton rest id ih =>
    rw [← append_assoc, fresh_snoc, ih, visit_of_stopped stopped]

theorem fresh_of_stopped_before {front rest : List Text} (before : front <+: rest)
    (stopped : (e.fresh front).stopped = true) : e.fresh rest = e.fresh front := by
  obtain ⟨tail, rfl⟩ := before
  exact fresh_append_of_stopped stopped tail

theorem stopped_of_halted (halted : t.memory.halted = true) : t.stopped = true := by
  simp [Trace.stopped, halted]

theorem aborted_of_prefix (before : front <+: rest) (live : (e.fresh rest).memory.aborted = false) :
    (e.fresh front).memory.aborted = false := by
  cases aborted : (e.fresh front).memory.aborted with
  | false => rfl
  | true =>
    rw [fresh_of_stopped_before before (by simp [Trace.stopped, aborted]), aborted] at live
    exact live

theorem halted_of_before (before : front <+: rest) (halted : (e.fresh rest).memory.halted = false) :
    (e.fresh front).memory.halted = false := by
  cases stop : (e.fresh front).memory.halted with
  | false => rfl
  | true =>
    rw [fresh_of_stopped_before before (stopped_of_halted stop), stop] at halted
    exact halted

/-! ## What a record changes in memory -/

theorem succeededRun_nodeRun {attempt : Nat} :
    succeededRun (nodeRun policy ex attempt) = true ↔ (recorded policy ex).1 = .succeeded :=
  decide_eq_true_iff

theorem after_of_succeeded {m : Memory} (succeeded : (recorded policy ex).1 = .succeeded) :
    m.after id policy ex =
      { m with
        activePorts := update m.activePorts id (some (Items.activePorts (recorded policy ex).2))
        runOutputs := update m.runOutputs id (some (recorded policy ex).2)
        halted := m.halted || ex.halt } := by
  unfold Memory.after
  dsimp only
  rw [if_pos succeeded]

theorem after_of_unsuccessful {m : Memory} (unsuccessful : (recorded policy ex).1 ≠ .succeeded) :
    m.after id policy ex =
      { m with
        allSucceeded := false
        firstError := m.firstError.or (some (ex.error.getD "node failed"))
        aborted := m.aborted || decide ((recorded policy ex).1 = .failed)
        halted := m.halted || ex.halt } := by
  unfold Memory.after
  dsimp only
  rw [if_neg unsuccessful]

theorem recorded_of_succeeded (succeeded : ex.status = .succeeded) :
    recorded policy ex = (.succeeded, ex.outputJson) := by
  simp [recorded, succeeded]

theorem recorded_of_halt {outputs : Outputs} (halts : (e.executed node outputs).halt = true) :
    (recorded policy (e.executed node outputs)).1 = .succeeded := by
  have succeeded : (e.executed node outputs).status = .succeeded := executeNode_halt halts
  rw [recorded_of_succeeded succeeded]

theorem skipped_of_recorded {policy : RetryPolicy} {outputs : Outputs}
    (unsuccessful : (recorded policy (e.executed node outputs)).1 ≠ .succeeded)
    (kept : (recorded policy (e.executed node outputs)).1 ≠ .failed) :
    (e.executed node outputs).status = .skipped := by
  rcases executeNode_status e.host e.graph node outputs with succeeded | failed | skipped
  · exact absurd (congrArg Prod.fst (recorded_of_succeeded succeeded)) unsuccessful
  · exfalso
    revert unsuccessful kept
    show (recorded policy (e.executed node outputs)).1 ≠ .succeeded →
      (recorded policy (e.executed node outputs)).1 ≠ .failed → False
    unfold recorded
    by_cases continues : policy.continueOnError = true
    · rw [if_pos ⟨failed, continues⟩]
      intro unsuccessful
      exact absurd rfl unsuccessful
    · rw [if_neg fun both => continues both.2]
      intro _ kept
      exact kept failed
  · exact skipped

/-! ## The records of the nodes that are behind -/

theorem settled_own (t : Trace) (id : Text) (node : WorkflowNode) :
    (e.settled t id node).nodeRuns id = some (e.finalRun t node) :=
  update_self ..

theorem settled_other {other : Text} (different : other ≠ id) :
    (e.settled t id node).nodeRuns other = t.nodeRuns other ∧
      (e.settled t id node).memory.activePorts other = t.memory.activePorts other ∧
      (e.settled t id node).memory.runOutputs other = t.memory.runOutputs other := by
  refine ⟨update_of_ne different .., ?_⟩
  unfold settled
  dsimp only
  by_cases succeeded : (recorded (retryPolicy node) (e.executed node t.memory.runOutputs)).1 = .succeeded
  · rw [after_of_succeeded succeeded]
    exact ⟨update_of_ne different .., update_of_ne different ..⟩
  · rw [after_of_unsuccessful succeeded]
    exact ⟨rfl, rfl⟩

theorem visit_other {other : Text} (different : other ≠ id) :
    (e.visit t id).nodeRuns other = t.nodeRuns other ∧
      (e.visit t id).memory.activePorts other = t.memory.activePorts other ∧
      (e.visit t id).memory.runOutputs other = t.memory.runOutputs other := by
  rcases e.visit_cases t id with ⟨node, takes⟩ | ⟨_, same⟩
  · rw [visit_of_takes takes]
    exact settled_other different
  · rw [same]
    exact ⟨rfl, rfl, rfl⟩

theorem fresh_behind {other : Text} (mem : other ∈ front) (distinct : (front ++ rest).Nodup) :
    (e.fresh (front ++ rest)).nodeRuns other = (e.fresh front).nodeRuns other ∧
      (e.fresh (front ++ rest)).memory.activePorts other = (e.fresh front).memory.activePorts other ∧
      (e.fresh (front ++ rest)).memory.runOutputs other = (e.fresh front).memory.runOutputs other := by
  induction rest using reverseRecOn with
  | nil => simp
  | append_singleton rest id ih =>
    rw [← append_assoc] at distinct ⊢
    obtain ⟨distinct, -, apart⟩ := nodup_append.mp distinct
    have different : other ≠ id := apart other (mem_append_left _ mem) id (mem_singleton_self id)
    obtain ⟨runs, ports, outputs⟩ := ih distinct
    obtain ⟨runs', ports', outputs'⟩ := @visit_other e (e.fresh (front ++ rest)) id other different
    rw [fresh_snoc]
    exact ⟨runs'.trans runs, ports'.trans ports, outputs'.trans outputs⟩

theorem fresh_ahead (ahead : id ∉ front) :
    (e.fresh front).nodeRuns id = none ∧ (e.fresh front).memory.activePorts id = none ∧
      (e.fresh front).memory.runOutputs id = none := by
  induction front using reverseRecOn with
  | nil => exact ⟨rfl, rfl, rfl⟩
  | append_singleton front other ih =>
    simp only [mem_append, mem_singleton, not_or] at ahead
    obtain ⟨runs, ports, outputs⟩ := ih ahead.1
    obtain ⟨runs', ports', outputs'⟩ := @visit_other e (e.fresh front) other id ahead.2
    rw [fresh_snoc]
    exact ⟨runs'.trans runs, ports'.trans ports, outputs'.trans outputs⟩

theorem mem_of_recorded (present : ((e.fresh front).nodeRuns id).isSome = true) : id ∈ front := by
  by_contra ahead
  rw [(fresh_ahead ahead).1] at present
  cases present

/-! ## What a resumed run rebuilds -/

theorem activePorts_mapNumbers (f : Text → Text) (output : Json) :
    Items.activePorts (output.mapNumbers f) = Items.activePorts output := by
  cases output with
  | arr ports =>
    rw [Json.mapNumbers_arr]
    unfold Items.activePorts
    simp only [zipIdx_map, filter_map, map_map, comp_def, Prod.map]
    refine congrArg _ (filter_congr ?_)
    rintro ⟨port, index⟩ -
    cases port with
    | arr items => simp [Json.mapNumbers_arr]
    | _ => rfl
  | _ => rfl

/-- Every number of an output that is replayed is read back as it is. -/
def ReadsBack (reads : Text → Text) (prior : NodeRuns) : Prop :=
  ∀ id output, outputsOf prior id = some output → ∀ text ∈ output.numbers, reads text = text

theorem seedResume_activePorts (reads : Text → Text) (prior : NodeRuns) :
    (seedResume reads prior).activePorts = portsOf prior := by
  simp only [seedResume, activePorts_mapNumbers]
  rfl

theorem seedResume_runOutputs {reads : Text → Text} {prior : NodeRuns} (kept : ReadsBack reads prior) :
    (seedResume reads prior).runOutputs = outputsOf prior := by
  funext id
  show ((prior id).filter succeededRun).bind (fun row => row.output.map (Json.mapNumbers reads)) = outputsOf prior id
  cases replayed : (prior id).filter succeededRun with
  | none => rw [outputsOf, replayed]; rfl
  | some row =>
    have own : outputsOf prior id = row.output := by rw [outputsOf, replayed]; rfl
    rw [own, Option.bind_some]
    cases stored : row.output with
    | none => rfl
    | some output => exact congrArg some (Json.mapNumbers_eq_self (kept id output (own.trans stored)))

/-- The caches are those that the records give. -/
def Rebuilt (t : Trace) : Prop := portsOf t.nodeRuns = t.memory.activePorts ∧ outputsOf t.nodeRuns = t.memory.runOutputs

theorem settled_rebuilt (rebuilt : Rebuilt t) (absent : t.nodeRuns id = none) : Rebuilt (e.settled t id node) := by
  have ports := congrFun rebuilt.1
  have outputs := congrFun rebuilt.2
  have ownPorts : t.memory.activePorts id = none := by simpa [portsOf, absent] using (ports id).symm
  have ownOutputs : t.memory.runOutputs id = none := by simpa [outputsOf, absent] using (outputs id).symm
  have own : portsOf (e.settled t id node).nodeRuns id = (e.settled t id node).memory.activePorts id ∧
      outputsOf (e.settled t id node).nodeRuns id = (e.settled t id node).memory.runOutputs id := by
    simp only [portsOf, outputsOf, settled_own]
    by_cases succeeded : (recorded (retryPolicy node) (e.executed node t.memory.runOutputs)).1 = .succeeded
    · have kept : succeededRun (e.finalRun t node) = true := succeededRun_nodeRun.mpr succeeded
      simp only [Option.filter_some, kept, if_true, settled, after_of_succeeded succeeded, update_self]
      exact ⟨rfl, rfl⟩
    · have dropped : succeededRun (e.finalRun t node) = false :=
        Bool.eq_false_iff.mpr fun kept => succeeded (succeededRun_nodeRun.mp kept)
      simp only [Option.filter_some, dropped, settled, after_of_unsuccessful succeeded]
      exact ⟨ownPorts.symm, ownOutputs.symm⟩
  constructor
  all_goals
    funext other
    by_cases same : other = id
    · subst same
      first | exact own.1 | exact own.2
    · obtain ⟨runs, ports', outputs'⟩ := @settled_other e t id node other same
      first | rw [ports', ← ports other] | rw [outputs', ← outputs other]
      simp only [portsOf, outputsOf, runs]

theorem fresh_rebuilt (distinct : front.Nodup) : Rebuilt (e.fresh front) := by
  induction front using reverseRecOn with
  | nil => exact ⟨rfl, rfl⟩
  | append_singleton front id ih =>
    obtain ⟨distinct, -, apart⟩ := nodup_append.mp distinct
    have ahead : id ∉ front := fun mem => apart id mem id (mem_singleton_self id) rfl
    rw [fresh_snoc]
    rcases e.visit_cases (e.fresh front) id with ⟨node, takes⟩ | ⟨_, same⟩
    · rw [visit_of_takes takes]
      exact settled_rebuilt (ih distinct) (fresh_ahead ahead).1
    · rw [same]
      exact ih distinct

theorem fresh_snoc_of_takes (takes : e.Takes (e.fresh front) id node) :
    e.fresh (front ++ [id]) = e.settled (e.fresh front) id node := by
  rw [fresh_snoc, visit_of_takes takes]

theorem memory_of_succeeded (takes : e.Takes (e.fresh front) id node)
    (succeeded : (recorded (retryPolicy node) (e.executed node (e.fresh front).memory.runOutputs)).1 = .succeeded) :
    (e.fresh (front ++ [id])).memory =
      { (e.fresh front).memory with
        activePorts := update (e.fresh front).memory.activePorts id
          (some (Items.activePorts (recorded (retryPolicy node) (e.executed node (e.fresh front).memory.runOutputs)).2))
        runOutputs := update (e.fresh front).memory.runOutputs id
          (some (recorded (retryPolicy node) (e.executed node (e.fresh front).memory.runOutputs)).2)
        halted := (e.fresh front).memory.halted || (e.executed node (e.fresh front).memory.runOutputs).halt } := by
  rw [fresh_snoc_of_takes takes, settled, after_of_succeeded succeeded]

theorem memory_of_unsuccessful (takes : e.Takes (e.fresh front) id node)
    (unsuccessful : (recorded (retryPolicy node) (e.executed node (e.fresh front).memory.runOutputs)).1 ≠ .succeeded) :
    (e.fresh (front ++ [id])).memory =
      { (e.fresh front).memory with
        allSucceeded := false
        firstError := (e.fresh front).memory.firstError.or
          (some ((e.executed node (e.fresh front).memory.runOutputs).error.getD "node failed"))
        aborted := (e.fresh front).memory.aborted ||
          decide ((recorded (retryPolicy node) (e.executed node (e.fresh front).memory.runOutputs)).1 = .failed)
        halted := (e.fresh front).memory.halted || (e.executed node (e.fresh front).memory.runOutputs).halt } := by
  rw [fresh_snoc_of_takes takes, settled, after_of_unsuccessful unsuccessful]

/-! ## Halted runs -/

/-- A Stop node is recorded as succeeded. -/
def StopRecorded (e : Execution) (nodeRuns : NodeRuns) : Prop :=
  ∃ id node, e.graph.node id = some node ∧ node.kind = .control .stop ∧ (nodeRuns id).any succeededRun = true

theorem settled_halted (takes : e.Takes t id node) :
    (e.settled t id node).memory.halted = true ↔ node.kind = .control .stop := by
  have running : t.memory.halted = false := by
    have := takes.running
    simp [Trace.stopped] at this
    exact this.2
  have halt : (e.executed node t.memory.runOutputs).halt = decide (node.kind = .control .stop) := rfl
  unfold settled
  by_cases succeeded : (recorded (retryPolicy node) (e.executed node t.memory.runOutputs)).1 = .succeeded
  · rw [after_of_succeeded succeeded]
    simp [running, halt]
  · rw [after_of_unsuccessful succeeded]
    simp [running, halt]

theorem fresh_halted (distinct : front.Nodup) :
    (e.fresh front).memory.halted = true ↔ e.StopRecorded (e.fresh front).nodeRuns := by
  induction front using reverseRecOn with
  | nil =>
    constructor
    · intro halted
      cases halted
    · rintro ⟨id, node, -, -, recorded⟩
      cases recorded
  | append_singleton front id ih =>
    obtain ⟨distinct, -, apart⟩ := nodup_append.mp distinct
    have ahead : id ∉ front := fun mem => apart id mem id (mem_singleton_self id) rfl
    rw [fresh_snoc]
    rcases e.visit_cases (e.fresh front) id with ⟨node, takes⟩ | ⟨_, same⟩
    · rw [visit_of_takes takes, settled_halted takes]
      constructor
      · intro stop
        refine ⟨id, node, takes.found, stop, ?_⟩
        rw [settled_own]
        have halts : (e.executed node (e.fresh front).memory.runOutputs).halt = true := decide_eq_true stop
        exact succeededRun_nodeRun.mpr (recorded_of_halt halts)
      · rintro ⟨other, stop, found, kind, succeeded⟩
        by_cases own : other = id
        · subst own
          cases takes.found.symm.trans found
          exact kind
        · -- An earlier Stop node would have halted the run already.
          rw [(settled_other own).1] at succeeded
          have halted := (ih distinct).mpr ⟨other, stop, found, kind, succeeded⟩
          have := takes.running
          simp [Trace.stopped, halted] at this
    · rw [same]
      exact ih distinct

end Execution

end RootCx.Workflow
