import RootCx.Workflow.Reference

/-! # Resumed runs against the uninterrupted one

What is recorded at any moment of an interrupted run is what the uninterrupted run
has recorded at some point of the order, up to a failed attempt of the node that is
next.  An attempt that resumes from there passes the nodes that succeeded, executes
the nodes that are not implemented again, and meets the point with the memory that
the uninterrupted run has there.

One thing is not rebuilt: that a Stop node has halted the run.  An attempt that
begins when a Stop node is recorded (`slept` below) goes on behind it, and strays
from the uninterrupted run as soon as it finds a node there that is ready.
-/

namespace RootCx.Workflow.Execution

open List Function

variable {e : Execution} {slept : Bool} {front point rest : List Text} {id : Text} {node : WorkflowNode} {m : Memory}
variable {nodeRuns : NodeRuns} {log : List Text} {s next : Run}

theorem order_nodup (e : Execution) : e.order.Nodup := WorkflowGraph.topoSort_nodup e.started

theorem source_behind (split : e.order = front ++ id :: rest) {edge : WorkflowEdge} (into : edge ∈ e.graph.inbound id) :
    edge.source ∈ front :=
  WorkflowGraph.source_mem_of_inbound (WorkflowGraph.topoSort_ordered e.started) split into

theorem notMem_of_split (split : e.order = front ++ id :: rest) : id ∉ front := by
  have distinct := e.order_nodup
  rw [split] at distinct
  intro mem
  exact (nodup_append.mp distinct).2.2 id mem id (mem_cons_self ..) rfl

theorem nodup_of_before (within : front <+: e.order) : front.Nodup :=
  e.order_nodup.sublist within.sublist

theorem snoc_before (split : e.order = front ++ id :: rest) (before : front <+: point) (within : point <+: e.order)
    (further : front ≠ point) : front ++ [id] <+: point := by
  obtain ⟨tail, rfl⟩ := before
  obtain ⟨behind, whole⟩ := within
  cases tail with
  | nil => exact absurd (append_nil front).symm further
  | cons first tail =>
    rw [split, append_assoc, append_cancel_left_eq, cons_append] at whole
    obtain rfl := (cons.inj whole).1
    exact ⟨tail, by simp⟩

/-! ## What is recorded -/

/-- The node that the uninterrupted run executes next. -/
structure Pending (e : Execution) (point : List Text) (id : Text) : Prop where
  following : ∃ rest, e.order = point ++ id :: rest
  taken : ∃ node, e.Takes (e.fresh point) id node

/-- The uninterrupted run has recorded the same at this point, where it has not been
    aborted.  The next node may have been tried. -/
structure Covers (e : Execution) (point : List Text) (nodeRuns : NodeRuns) (log : List Text) : Prop where
  within : point <+: e.order
  live : (e.fresh point).memory.aborted = false
  rows : ∀ id, nodeRuns id = (e.fresh point).nodeRuns id ∨
    e.Pending point id ∧ ∃ row, nodeRuns id = some row ∧ row.status = .failed
  logged : ∀ id, ((e.fresh point).nodeRuns id).isSome = true → id ∈ log
  known : ∀ id ∈ log, ((e.fresh point).nodeRuns id).isSome = true ∨ e.Pending point id

theorem Pending.absent (pending : e.Pending point id) : (e.fresh point).nodeRuns id = none := by
  obtain ⟨rest, split⟩ := pending.following
  exact (fresh_ahead (notMem_of_split split)).1

theorem Pending.next_eq (pending : e.Pending point id) {other : Text} (split : e.order = point ++ other :: rest) :
    id = other := by
  obtain ⟨rest', split'⟩ := pending.following
  rw [split, append_cancel_left_eq] at split'
  exact (cons.inj split').1.symm

theorem Covers.exact (covers : e.Covers point nodeRuns log) (settled : ∀ id, ¬e.Pending point id) :
    nodeRuns = (e.fresh point).nodeRuns ∧ ∀ id, id ∈ log ↔ ((e.fresh point).nodeRuns id).isSome = true := by
  constructor
  · funext id
    rcases covers.rows id with same | ⟨pending, _⟩
    · exact same
    · exact absurd pending (settled id)
  · intro id
    constructor
    · intro mem
      exact (covers.known id mem).resolve_right (settled id)
    · exact covers.logged id

theorem not_pending_of_stopped (stopped : (e.fresh point).stopped = true) (id : Text) : ¬e.Pending point id := by
  rintro ⟨-, node, takes⟩
  rw [takes.running] at stopped
  cases stopped

/-- A node that is passed moves the point. -/
theorem Covers.pass (covers : e.Covers point nodeRuns log) (split : e.order = point ++ id :: rest)
    (passed : ∀ node, ¬e.Takes (e.fresh point) id node) : e.Covers (point ++ [id]) nodeRuns log := by
  have settled (other : Text) : ¬e.Pending point other := by
    intro pending
    obtain rfl := pending.next_eq split
    obtain ⟨node, takes⟩ := pending.taken
    exact passed node takes
  obtain ⟨runs, logged⟩ := covers.exact settled
  have same : e.fresh (point ++ [id]) = e.fresh point := by rw [fresh_snoc, visit_of_not_takes passed]
  refine ⟨⟨rest, by simp [split]⟩, ?_, ?_, ?_, ?_⟩
  · rw [same]
    exact covers.live
  · intro other
    rw [same, runs]
    exact .inl rfl
  · intro other
    rw [same]
    exact (logged other).mpr
  · intro other mem
    rw [same]
    exact .inl ((logged other).mp mem)

/-- The next node has been recorded. -/
theorem Covers.record (covers : e.Covers point nodeRuns log) (split : e.order = point ++ id :: rest)
    (takes : e.Takes (e.fresh point) id node) (mem : id ∈ log)
    (live : (e.fresh (point ++ [id])).memory.aborted = false) :
    e.Covers (point ++ [id]) (update nodeRuns id (some (e.finalRun (e.fresh point) node))) log := by
  have whole := fresh_snoc_of_takes takes
  refine ⟨⟨rest, by simp [split]⟩, live, ?_, ?_, ?_⟩
  · intro other
    left
    rw [whole]
    by_cases own : other = id
    · subst own
      rw [update_self, settled_own]
    · rw [update_of_ne own, (settled_other own).1]
      rcases covers.rows other with same | ⟨pending, _⟩
      · exact same
      · exact absurd (pending.next_eq split) own
  · intro other present
    by_cases own : other = id
    · exact own ▸ mem
    · rw [whole, (settled_other own).1] at present
      exact covers.logged other present
  · intro other mem
    left
    rw [whole]
    by_cases own : other = id
    · subst own
      rw [settled_own]
      rfl
    · rw [(settled_other own).1]
      rcases covers.known other mem with present | pending
      · exact present
      · exact absurd (pending.next_eq split) own

theorem Covers.retry (covers : e.Covers point nodeRuns log) (pending : e.Pending point id) {row : NodeRun}
    (failed : row.status = .failed) : e.Covers point (update nodeRuns id (some row)) log := by
  refine ⟨covers.within, covers.live, ?_, covers.logged, covers.known⟩
  intro other
  by_cases own : other = id
  · subst own
    exact .inr ⟨pending, row, update_self .., failed⟩
  · rw [update_of_ne own]
    exact covers.rows other

theorem Covers.log_pending (covers : e.Covers point nodeRuns log) (pending : e.Pending point id) :
    e.Covers point nodeRuns (log ++ [id]) := by
  refine ⟨covers.within, covers.live, covers.rows, ?_, ?_⟩
  · intro other present
    exact mem_append_left _ (covers.logged other present)
  · intro other mem
    rcases mem_append.mp mem with mem | own
    · exact covers.known other mem
    · rw [mem_singleton.mp own]
      exact .inr pending

theorem Covers.log_recorded (covers : e.Covers point nodeRuns log)
    (present : ((e.fresh point).nodeRuns id).isSome = true) : e.Covers point nodeRuns (log ++ [id]) := by
  refine ⟨covers.within, covers.live, covers.rows, ?_, ?_⟩
  · intro other present
    exact mem_append_left _ (covers.logged other present)
  · intro other mem
    rcases mem_append.mp mem with mem | own
    · exact covers.known other mem
    · rw [mem_singleton.mp own]
      exact .inl present

/-- The caches that the records give are the uninterrupted run's at the point. -/
theorem Covers.seed (covers : e.Covers point nodeRuns log) :
    portsOf nodeRuns = (e.fresh point).memory.activePorts ∧ outputsOf nodeRuns = (e.fresh point).memory.runOutputs ∧
      (∀ id, (nodeRuns id).any succeededRun = ((e.fresh point).nodeRuns id).any succeededRun) := by
  have replayed (id : Text) : (nodeRuns id).filter succeededRun = ((e.fresh point).nodeRuns id).filter succeededRun := by
    rcases covers.rows id with same | ⟨pending, row, held, failed⟩
    · rw [same]
    · rw [held, pending.absent]
      simp [Option.filter, succeededRun, failed]
  obtain ⟨ports, outputs⟩ := @fresh_rebuilt e point (nodup_of_before covers.within)
  refine ⟨?_, ?_, ?_⟩
  · rw [← ports]
    funext id
    simp only [portsOf, replayed]
  · rw [← outputs]
    funext id
    simp only [outputsOf, replayed]
  · intro id
    rcases covers.rows id with same | ⟨pending, row, held, failed⟩
    · rw [same]
    · simp [held, pending.absent, succeededRun, failed]

/-! ## Where an attempt stands -/

/-- An attempt has passed `front`, when the records are those of the uninterrupted run
    at `point`.  Up to the point it passes what is recorded; from there on the two move
    together. -/
structure Follows (e : Execution) (slept : Bool) (point front : List Text) (m : Memory) : Prop where
  behind : front <+: point
  ports : m.activePorts = (e.fresh point).memory.activePorts
  outputs : m.runOutputs = (e.fresh point).memory.runOutputs
  done : ∀ id, m.done id = true → ((e.fresh point).nodeRuns id).any succeededRun = true
  replayed : front ≠ point → ∀ id, ((e.fresh point).nodeRuns id).any succeededRun = true → m.done id = true
  allSucceeded : m.allSucceeded = (e.fresh front).memory.allSucceeded
  firstError : m.firstError = (e.fresh front).memory.firstError
  aborted : m.aborted = false
  halted : slept = false → m.halted = (e.fresh front).memory.halted ∧
    (front ≠ point → (e.fresh point).memory.halted = false)
  asleep : slept = true → m.halted = false ∧ (e.fresh point).memory.halted = true ∧
    ∀ id ∈ front, ∀ node, e.graph.node id = some node → (e.fresh point).nodeRuns id = none →
      shouldExecute e.graph id (e.fresh point).memory.activePorts = false

/-- The node that an attempt is at is one that the uninterrupted run executes, with the
    same result. -/
structure Trying (e : Execution) (slept : Bool) (point front : List Text) (m : Memory) (node : WorkflowNode)
    (rest : List Text) : Prop where
  follows : e.Follows slept point front m
  split : e.order = front ++ node.id :: rest
  takes : e.Takes (e.fresh front) node.id node
  alike : e.executed node m.runOutputs = e.executed node (e.fresh front).memory.runOutputs
  repeats : front = point ∨ (e.executed node (e.fresh front).memory.runOutputs).status = .skipped

/-- Behind the Stop node of the uninterrupted run there is a node that is ready. -/
def Lingers (e : Execution) : Prop :=
  (e.fresh e.order).memory.halted = true ∧ ∃ id ∈ e.order, ∃ node, e.graph.node id = some node ∧
    (e.fresh e.order).nodeRuns id = none ∧ shouldExecute e.graph id (e.fresh e.order).memory.activePorts = true

/-- A node has been executed that the uninterrupted run does not execute. -/
def Strayed (e : Execution) (s : Run) : Prop := ∃ id ∈ s.log, (e.fresh e.order).nodeRuns id = none

/-- The outcome of the uninterrupted run. -/
structure Reached (e : Execution) (s : Run) : Prop where
  nodeRuns : s.nodeRuns = (e.fresh e.order).nodeRuns
  logged : ∀ id, id ∈ s.log ↔ ((e.fresh e.order).nodeRuns id).isSome = true
  status : s.status = if (e.fresh e.order).memory.allSucceeded then .succeeded else .failed
  error : s.error = (e.fresh e.order).memory.firstError

/-- A run that has not strayed; `slept` says whether its attempt began behind a Stop node. -/
inductive OnTrack (e : Execution) (slept : Bool) (s : Run) : Prop
  | idle {point : List Text} (phase : s.phase = .waiting ∨ s.phase = .started) (covers : e.Covers point s.nodeRuns s.log)
      (kept : ReadsBack e.reads s.nodeRuns) (halted : (e.fresh point).memory.halted = slept)
  | loops {point front : List Text} {m : Memory} {rest : List Text} (phase : s.phase = .looping m rest)
      (covers : e.Covers point s.nodeRuns s.log) (follows : e.Follows slept point front m) (split : e.order = front ++ rest)
  | aborts {point : List Text} {id : Text} {m : Memory} {rest : List Text} (phase : s.phase = .looping m rest)
      (covers : e.Covers point s.nodeRuns s.log) (awake : slept = false) (split : e.order = point ++ id :: rest)
      (running : (e.fresh point).memory.halted = false) (aborted : m.aborted = true)
      (stopped : (e.fresh (point ++ [id])).stopped = true)
      (rows : s.nodeRuns = (e.fresh (point ++ [id])).nodeRuns)
      (logged : ∀ id', id' ∈ s.log ↔ ((e.fresh (point ++ [id])).nodeRuns id').isSome = true)
      (allSucceeded : m.allSucceeded = (e.fresh (point ++ [id])).memory.allSucceeded)
      (firstError : m.firstError = (e.fresh (point ++ [id])).memory.firstError)
  | tries {point front : List Text} {m : Memory} {node : WorkflowNode} {rest : List Text} {attempts : Nat}
      (phase : s.phase = .attempting m node rest attempts)
      (covers : e.Covers point s.nodeRuns s.log) (trying : e.Trying slept point front m node rest)
      (count : attempts = 0 ∨ (e.executed node (e.fresh front).memory.runOutputs).status = .failed ∧
        attempts < (retryPolicy node).maxAttempts)
  | strays {point : List Text} {m : Memory} {node : WorkflowNode} {rest : List Text} {attempts : Nat}
      (phase : s.phase = .attempting m node rest attempts)
      (covers : e.Covers point s.nodeRuns s.log) (asleep : slept = true)
      (halted : (e.fresh point).memory.halted = true) (mem : node.id ∈ e.order)
      (found : e.graph.node node.id = some node) (absent : (e.fresh point).nodeRuns node.id = none)
      (ready : shouldExecute e.graph node.id (e.fresh point).memory.activePorts = true)
  | tried {point front : List Text} {m : Memory} {node : WorkflowNode} {rest : List Text} {attempt : Nat}
      {ex : NodeExecution} (phase : s.phase = .executed m node rest attempt ex)
      (covers : e.Covers point s.nodeRuns s.log) (trying : e.Trying slept point front m node rest)
      (executed : ex = e.executed node (e.fresh front).memory.runOutputs) (mem : node.id ∈ s.log)
      (count : attempt = 1 ∨ ex.status = .failed ∧ 1 ≤ attempt ∧ attempt ≤ (retryPolicy node).maxAttempts)
  | ends (phase : s.phase = .finished) (reached : e.Reached s) (rested : slept = true → ¬e.Lingers)

theorem fresh_order_of_halted (within : point <+: e.order) (halted : (e.fresh point).memory.halted = true) :
    e.fresh e.order = e.fresh point :=
  fresh_of_stopped_before within (stopped_of_halted halted)

theorem OnTrack.covered (track : e.OnTrack slept s) (unfinished : s.phase ≠ .finished) :
    ∃ point, e.Covers point s.nodeRuns s.log := by
  cases track with
  | idle phase covers => exact ⟨_, covers⟩
  | loops phase covers follows split => exact ⟨_, covers⟩
  | aborts phase covers awake split running aborted stopped rows logged allSucceeded firstError => exact ⟨_, covers⟩
  | tries phase covers trying count => exact ⟨_, covers⟩
  | strays phase covers asleep halted mem found absent ready => exact ⟨_, covers⟩
  | tried phase covers trying executed mem count => exact ⟨_, covers⟩
  | ends phase reached rested => exact absurd phase unfinished

/-! ## The steps of an attempt -/

theorem fresh_ports_behind (split : e.order = front ++ id :: rest) (behind : front <+: point) (within : point <+: e.order)
    {edge : WorkflowEdge} (into : edge ∈ e.graph.inbound id) :
    (e.fresh point).memory.activePorts edge.source = (e.fresh front).memory.activePorts edge.source ∧
      (e.fresh point).memory.runOutputs edge.source = (e.fresh front).memory.runOutputs edge.source := by
  obtain ⟨tail, rfl⟩ := behind
  exact (fresh_behind (source_behind split into) (nodup_of_before within)).2

theorem ready_behind (split : e.order = front ++ id :: rest) (behind : front <+: point) (within : point <+: e.order) :
    shouldExecute e.graph id (e.fresh point).memory.activePorts =
      shouldExecute e.graph id (e.fresh front).memory.activePorts :=
  shouldExecute_congr fun _ into => (fresh_ports_behind split behind within into).1

theorem row_behind (split : e.order = front ++ id :: rest) (behind : front <+: point) (within : point <+: e.order)
    (further : front ≠ point) : (e.fresh point).nodeRuns id = (e.fresh (front ++ [id])).nodeRuns id := by
  obtain ⟨tail, rfl⟩ := snoc_before split behind within further
  exact (fresh_behind (by simp) (nodup_of_before within)).1

theorem follows_seed (covers : e.Covers point nodeRuns log) (kept : ReadsBack e.reads nodeRuns)
    (halted : (e.fresh point).memory.halted = slept) : e.Follows slept point [] (seedResume e.reads nodeRuns) := by
  obtain ⟨ports, outputs, done⟩ := covers.seed
  refine ⟨List.nil_prefix, (seedResume_activePorts ..).trans ports, (seedResume_runOutputs kept).trans outputs, ?_, ?_,
    rfl, rfl, rfl, ?_, ?_⟩
  · exact fun id replayed => (done id).symm.trans replayed
  · exact fun _ id replayed => (done id).trans replayed
  · intro awake
    exact ⟨rfl, fun _ => halted.trans awake⟩
  · intro asleep
    exact ⟨rfl, halted.trans asleep, fun _ mem => nomatch mem⟩

/-- The flags of an attempt that passes a node. -/
theorem Follows.passed (follows : e.Follows slept point front m) (covers : e.Covers point nodeRuns log)
    (split : e.order = front ++ id :: rest) (running : m.halted = false)
    (same : (e.fresh (front ++ [id])).memory.allSucceeded = (e.fresh front).memory.allSucceeded ∧
      (e.fresh (front ++ [id])).memory.firstError = (e.fresh front).memory.firstError)
    (further : front ≠ point)
    (unready : ∀ node, e.graph.node id = some node → (e.fresh point).nodeRuns id = none →
      shouldExecute e.graph id (e.fresh point).memory.activePorts = false) :
    e.Follows slept point (front ++ [id]) m := by
  have before := snoc_before split follows.behind covers.within further
  refine ⟨before, follows.ports, follows.outputs, follows.done, fun _ => follows.replayed further,
    follows.allSucceeded.trans same.1.symm, follows.firstError.trans same.2.symm, follows.aborted, ?_, ?_⟩
  · intro awake
    have quiet := (follows.halted awake).2 further
    refine ⟨?_, fun _ => quiet⟩
    rw [running, halted_of_before before quiet]
  · intro asleep
    obtain ⟨_, halted, earlier⟩ := follows.asleep asleep
    refine ⟨running, halted, ?_⟩
    intro other mem
    rcases mem_append.mp mem with mem | own
    · exact earlier other mem
    · rw [mem_singleton.mp own]
      exact unready

/-- A node that the uninterrupted run does not execute is passed. -/
theorem OnTrack.pass_unready (covers : e.Covers point s.nodeRuns s.log)
    (follows : e.Follows slept point front m) (split : e.order = front ++ id :: rest) (running : m.halted = false)
    (unready : ∀ node, e.graph.node id = some node → shouldExecute e.graph id (e.fresh point).memory.activePorts = false) :
    e.OnTrack slept { s with phase := .looping m rest } := by
  have passed (node : WorkflowNode) : ¬e.Takes (e.fresh front) id node := by
    intro takes
    have ready := unready node takes.found
    rw [ready_behind split follows.behind covers.within, takes.ready] at ready
    cases ready
  have same : e.fresh (front ++ [id]) = e.fresh front := by rw [fresh_snoc, visit_of_not_takes passed]
  have whole : e.order = (front ++ [id]) ++ rest := by simp [split]
  by_cases further : front = point
  · -- The point moves along.
    subst further
    refine .loops rfl (covers.pass split passed) ?_ whole
    refine ⟨prefix_rfl, ?_, ?_, ?_, fun moved => absurd rfl moved, ?_, ?_, follows.aborted, ?_, ?_⟩
    · rw [same, follows.ports]
    · rw [same, follows.outputs]
    · rw [same]
      exact follows.done
    · rw [same, follows.allSucceeded]
    · rw [same, follows.firstError]
    · intro awake
      rw [same]
      exact ⟨(follows.halted awake).1, fun moved => absurd rfl moved⟩
    · intro asleep
      obtain ⟨_, halted, earlier⟩ := follows.asleep asleep
      rw [same]
      refine ⟨running, halted, ?_⟩
      intro other mem
      rcases mem_append.mp mem with mem | own
      · exact earlier other mem
      · rw [mem_singleton.mp own]
        exact fun node found _ => unready node found
  · refine .loops rfl covers (follows.passed covers split running ?_ further fun node found _ => unready node found) whole
    rw [same]
    exact ⟨rfl, rfl⟩

/-- A node that a done node stands for is passed: it was recorded as succeeded. -/
theorem OnTrack.pass_done (covers : e.Covers point s.nodeRuns s.log)
    (follows : e.Follows slept point front m) (split : e.order = front ++ id :: rest) (running : m.halted = false)
    (done : m.done id = true) : e.OnTrack slept { s with phase := .looping m rest } := by
  have ahead := notMem_of_split split
  have replayed := follows.done id done
  have further : front ≠ point := by
    rintro rfl
    rw [(fresh_ahead ahead).1] at replayed
    cases replayed
  rw [row_behind split follows.behind covers.within further] at replayed
  obtain ⟨node, takes⟩ : ∃ node, e.Takes (e.fresh front) id node := by
    rcases e.visit_cases (e.fresh front) id with takes | ⟨_, same⟩
    · exact takes
    · rw [fresh_snoc, same, (fresh_ahead ahead).1] at replayed
      cases replayed
  rw [fresh_snoc_of_takes takes, settled_own] at replayed
  have succeeded := succeededRun_nodeRun.mp replayed
  have whole : e.order = (front ++ [id]) ++ rest := by simp [split]
  refine .loops rfl covers (follows.passed covers split running ?_ further ?_) whole
  · rw [memory_of_succeeded takes succeeded]
    exact ⟨rfl, rfl⟩
  · intro other _ absent
    rw [row_behind split follows.behind covers.within further, fresh_snoc_of_takes takes, settled_own] at absent
    cases absent

/-- A node that is executed again, although it is recorded, is not implemented: the
    same comes out of it. -/
theorem Follows.executed_alike (follows : e.Follows slept point front m) (covers : e.Covers point nodeRuns log)
    (split : e.order = front ++ id :: rest) (takes : e.Takes (e.fresh front) id node) (undone : m.done id = false) :
    e.executed node m.runOutputs = e.executed node (e.fresh front).memory.runOutputs ∧
      (front = point ∨ (e.executed node (e.fresh front).memory.runOutputs).status = .skipped) := by
  by_cases further : front = point
  · subst further
    exact ⟨by rw [follows.outputs], .inl rfl⟩
  · have row := row_behind split follows.behind covers.within further
    rw [fresh_snoc_of_takes takes, settled_own] at row
    have unsuccessful :
        (recorded (retryPolicy node) (e.executed node (e.fresh front).memory.runOutputs)).1 ≠ .succeeded := by
      intro succeeded
      have done := follows.replayed further id (by rw [row]; exact succeededRun_nodeRun.mpr succeeded)
      rw [undone] at done
      cases done
    have kept : (recorded (retryPolicy node) (e.executed node (e.fresh front).memory.runOutputs)).1 ≠ .failed := by
      intro failed
      have live := aborted_of_prefix (snoc_before split follows.behind covers.within further) covers.live
      rw [memory_of_unsuccessful takes unsuccessful] at live
      simp [failed] at live
    have skipped := skipped_of_recorded unsuccessful kept
    refine ⟨executeNode_skipped ?_ skipped, .inr skipped⟩
    intro edge into
    rw [WorkflowGraph.id_of_node takes.found] at into
    rw [follows.outputs]
    exact (fresh_ports_behind split follows.behind covers.within into).2.symm

/-- The head of the loop keeps an attempt on track. -/
theorem OnTrack.meet (covers : e.Covers point s.nodeRuns s.log) (follows : e.Follows slept point front m)
    (split : e.order = front ++ id :: rest) (running : m.halted = false) :
    e.OnTrack slept (e.meet s m id rest) := by
  unfold Execution.meet
  cases found : e.graph.node id with
  | none =>
    show e.OnTrack slept { s with phase := .looping m rest }
    apply OnTrack.pass_unready covers follows split running
    intro node found'
    rw [found] at found'
    cases found'
  | some node =>
    dsimp only
    by_cases done : m.done id = true
    · rw [if_pos done]
      exact OnTrack.pass_done covers follows split running done
    · rw [if_neg done]
      by_cases ready : shouldExecute e.graph id m.activePorts = true
      · rw [if_neg (by simp [ready])]
        have ready : shouldExecute e.graph id (e.fresh point).memory.activePorts = true := by rwa [← follows.ports]
        obtain rfl := WorkflowGraph.id_of_node found
        cases stopped : (e.fresh front).stopped with
        | false =>
          rw [ready_behind split follows.behind covers.within] at ready
          have takes : e.Takes (e.fresh front) node.id node := ⟨stopped, found, ready⟩
          obtain ⟨alike, repeats⟩ := follows.executed_alike covers split takes (Bool.eq_false_iff.mpr done)
          exact .tries rfl covers ⟨follows, split, takes, alike, repeats⟩ (.inl rfl)
        | true =>
          -- A run that has stopped here, and an attempt that has not: the halt was lost.
          have live := aborted_of_prefix follows.behind covers.live
          have halted : (e.fresh front).memory.halted = true := by simpa [Trace.stopped, live] using stopped
          have same := fresh_of_stopped_before follows.behind stopped
          have asleep : slept = true := by
            cases awake : slept with
            | true => rfl
            | false =>
              rw [(follows.halted awake).1, halted] at running
              cases running
          refine .strays rfl covers asleep (by rw [same, halted]) ?_ found ?_ ready
          · rw [split]
            simp
          · rw [same]
            exact (fresh_ahead (notMem_of_split split)).1
      · rw [if_pos (by simpa using ready)]
        apply OnTrack.pass_unready covers follows split running
        intro _ _
        rw [← follows.ports]
        exact Bool.eq_false_iff.mpr ready

theorem OnTrack.attempt {attempts : Nat} (covers : e.Covers point s.nodeRuns s.log)
    (trying : e.Trying slept point front m node rest)
    (count : attempts = 0 ∨ (e.executed node (e.fresh front).memory.runOutputs).status = .failed ∧
      attempts < (retryPolicy node).maxAttempts) :
    e.OnTrack slept { s with
      phase := .executed m node rest (attempts + 1) (e.executed node m.runOutputs)
      log := s.log ++ [node.id] } := by
  refine .tried rfl ?_ trying trying.alike (by simp) ?_
  · by_cases further : front = point
    · subst further
      exact covers.log_pending ⟨⟨rest, trying.split⟩, node, trying.takes⟩
    · apply covers.log_recorded
      rw [row_behind trying.split trying.follows.behind covers.within further, fresh_snoc_of_takes trying.takes,
        settled_own]
      rfl
  · rw [trying.alike]
    rcases count with rfl | ⟨failed, fewer⟩
    · exact .inl rfl
    · exact .inr ⟨failed, Nat.le_add_left 1 attempts, fewer⟩

theorem attempts_eq {ex : NodeExecution} {policy : RetryPolicy} {attempt : Nat}
    (count : attempt = 1 ∨ ex.status = .failed ∧ 1 ≤ attempt ∧ attempt ≤ policy.maxAttempts)
    (last : ¬(ex.status = .failed ∧ attempt < policy.maxAttempts)) : attempt = attemptsOf policy ex := by
  unfold attemptsOf
  by_cases failed : ex.status = .failed
  · rw [if_pos failed]
    have exhausted : policy.maxAttempts ≤ attempt := by
      by_contra fewer
      exact last ⟨failed, by omega⟩
    rcases count with rfl | ⟨-, some, most⟩ <;> omega
  · rw [if_neg failed]
    rcases count with once | ⟨failed', -⟩
    · exact once
    · exact absurd failed' failed

/-- A node that is executed again leaves the record it has. -/
theorem OnTrack.conclude_again (covers : e.Covers point nodeRuns log) (trying : e.Trying slept point front m node rest)
    (further : front ≠ point) (skipped : (e.executed node (e.fresh front).memory.runOutputs).status = .skipped) :
    e.Covers point (update nodeRuns node.id (some (e.finalRun (e.fresh front) node))) log ∧
      e.Follows slept point (front ++ [node.id])
        (m.after node.id (retryPolicy node) (e.executed node (e.fresh front).memory.runOutputs)) := by
  have follows := trying.follows
  have row := row_behind trying.split follows.behind covers.within further
  rw [fresh_snoc_of_takes trying.takes, settled_own] at row
  have unsuccessful :
      (recorded (retryPolicy node) (e.executed node (e.fresh front).memory.runOutputs)).1 = .skipped := by
    simp [recorded, skipped]
  have unhalted : (e.executed node (e.fresh front).memory.runOutputs).halt = false := by
    by_contra halts
    have succeeded := executeNode_halt (Bool.eq_true_of_not_eq_false halts)
    have skipped : (executeNode e.host e.graph node (e.fresh front).memory.runOutputs).status = .skipped := skipped
    rw [succeeded] at skipped
    cases skipped
  have failing : (recorded (retryPolicy node) (e.executed node (e.fresh front).memory.runOutputs)).1 ≠ .succeeded := by
    rw [unsuccessful]
    decide
  constructor
  · refine ⟨covers.within, covers.live, ?_, covers.logged, covers.known⟩
    intro other
    by_cases own : other = node.id
    · subst own
      rw [update_self, row]
      exact .inl rfl
    · rw [update_of_ne own]
      exact covers.rows other
  · have before := snoc_before trying.split follows.behind covers.within further
    have memory := memory_of_unsuccessful trying.takes failing
    rw [after_of_unsuccessful failing]
    refine ⟨before, follows.ports, follows.outputs, follows.done, fun _ => follows.replayed further, ?_, ?_, ?_, ?_, ?_⟩
    · rw [memory]
    · rw [memory, follows.firstError]
    · simp [follows.aborted, unsuccessful]
    · intro awake
      have quiet := (follows.halted awake).2 further
      refine ⟨?_, fun _ => quiet⟩
      rw [halted_of_before before quiet]
      simp [(follows.halted awake).1, halted_of_before follows.behind quiet, unhalted]
    · intro asleep
      obtain ⟨running, halted, earlier⟩ := follows.asleep asleep
      refine ⟨by simp [running, unhalted], halted, ?_⟩
      intro other mem
      rcases mem_append.mp mem with mem | own
      · exact earlier other mem
      · intro _ _ absent
        rw [mem_singleton.mp own, row] at absent
        cases absent

/-- The memory of an attempt that has recorded the node the two runs are at. -/
theorem Follows.record (follows : e.Follows false point point m) (split : e.order = point ++ id :: rest)
    (takes : e.Takes (e.fresh point) id node) (live : (e.fresh (point ++ [id])).memory.aborted = false) :
    e.Follows false (point ++ [id]) (point ++ [id])
      (m.after id (retryPolicy node) (e.executed node (e.fresh point).memory.runOutputs)) := by
  have whole := fresh_snoc_of_takes takes
  have ahead := notMem_of_split split
  have done (other : Text) (replayed : m.done other = true) :
      ((e.fresh (point ++ [id])).nodeRuns other).any succeededRun = true := by
    have held := follows.done other replayed
    have different : other ≠ id := by
      rintro rfl
      rw [(fresh_ahead ahead).1] at held
      cases held
    rw [whole, (settled_other different).1]
    exact held
  have flags := follows.halted rfl
  by_cases succeeded : (recorded (retryPolicy node) (e.executed node (e.fresh point).memory.runOutputs)).1 = .succeeded
  · have memory := memory_of_succeeded takes succeeded
    rw [after_of_succeeded succeeded]
    refine ⟨prefix_rfl, ?_, ?_, done, fun moved => absurd rfl moved, ?_, ?_, follows.aborted, ?_, fun asleep => nomatch asleep⟩
    · rw [memory, follows.ports]
    · rw [memory, follows.outputs]
    · rw [memory, follows.allSucceeded]
    · rw [memory, follows.firstError]
    · refine fun _ => ⟨?_, fun moved => absurd rfl moved⟩
      rw [memory, flags.1]
  · have memory := memory_of_unsuccessful takes succeeded
    rw [memory] at live
    rw [after_of_unsuccessful succeeded]
    have kept : (recorded (retryPolicy node) (e.executed node (e.fresh point).memory.runOutputs)).1 ≠ .failed := by
      intro failed
      simp [failed] at live
    refine ⟨prefix_rfl, ?_, ?_, done, fun moved => absurd rfl moved, ?_, ?_, ?_, ?_, fun asleep => nomatch asleep⟩
    · rw [memory, follows.ports]
    · rw [memory, follows.outputs]
    · rw [memory]
    · rw [memory, follows.firstError]
    · simp [follows.aborted, kept]
    · refine fun _ => ⟨?_, fun moved => absurd rfl moved⟩
      rw [memory, flags.1]

theorem Trying.awake (trying : e.Trying slept front front m node rest) : slept = false := by
  cases asleep : slept with
  | false => rfl
  | true =>
    have halted := (trying.follows.asleep asleep).2.1
    have running := trying.takes.running
    rw [stopped_of_halted halted] at running
    cases running

/-- The end of an attempt. -/
theorem OnTrack.conclude {attempt : Nat} (covers : e.Covers point s.nodeRuns s.log)
    (trying : e.Trying slept point front m node rest) (mem : node.id ∈ s.log)
    (count : attempt = 1 ∨ (e.executed node (e.fresh front).memory.runOutputs).status = .failed ∧ 1 ≤ attempt ∧
      attempt ≤ (retryPolicy node).maxAttempts) :
    e.OnTrack slept
      (Execution.conclude s m node rest attempt (e.executed node (e.fresh front).memory.runOutputs)) := by
  unfold Execution.conclude
  dsimp only
  by_cases again : (e.executed node (e.fresh front).memory.runOutputs).status = .failed ∧
      attempt < (retryPolicy node).maxAttempts
  · rw [if_pos again]
    have together : front = point := by
      rcases trying.repeats with together | skipped
      · exact together
      · rw [again.1] at skipped
        cases skipped
    subst together
    have pending : e.Pending front node.id := ⟨⟨rest, trying.split⟩, node, trying.takes⟩
    exact .tries rfl (covers.retry pending rfl) trying (.inr again)
  · rw [if_neg again, attempts_eq count again]
    have whole : e.order = (front ++ [node.id]) ++ rest := by simp [trying.split]
    by_cases together : front = point
    · subst together
      obtain rfl := trying.awake
      have settle := fresh_snoc_of_takes trying.takes
      cases aborted : (e.fresh (front ++ [node.id])).memory.aborted with
      | false =>
        exact .loops rfl (covers.record trying.split trying.takes mem aborted)
          (trying.follows.record trying.split trying.takes aborted) whole
      | true =>
        -- The failure that ends the run counts as an attempt at the node that is next.
        have pending : e.Pending front node.id := ⟨⟨rest, trying.split⟩, node, trying.takes⟩
        have running : (e.fresh front).memory.halted = false := by
          have := trying.takes.running
          simp only [Trace.stopped, Bool.or_eq_false_iff] at this
          exact this.2
        have unsuccessful :
            (recorded (retryPolicy node) (e.executed node (e.fresh front).memory.runOutputs)).1 ≠ .succeeded := by
          intro succeeded
          rw [memory_of_succeeded trying.takes succeeded, covers.live] at aborted
          cases aborted
        have memory := memory_of_unsuccessful trying.takes unsuccessful
        have failed :
            (recorded (retryPolicy node) (e.executed node (e.fresh front).memory.runOutputs)).1 = .failed := by
          rw [memory] at aborted
          simpa [covers.live] using aborted
        have rows : ∀ other, other ≠ node.id → s.nodeRuns other = (e.fresh front).nodeRuns other := by
          intro other different
          rcases covers.rows other with same | ⟨pending, _⟩
          · exact same
          · exact absurd (pending.next_eq trying.split) different
        refine .aborts rfl (covers.retry pending failed) rfl trying.split running ?_
          (by simp [Trace.stopped, aborted]) ?_ ?_ ?_ ?_
        · rw [after_of_unsuccessful unsuccessful]
          simp [failed]
        · funext other
          by_cases own : other = node.id
          · subst own
            rw [settle, settled_own]
            exact update_self ..
          · rw [settle, (settled_other own).1, ← rows other own]
            exact update_of_ne own ..
        · intro other
          rw [settle]
          by_cases own : other = node.id
          · subst own
            rw [settled_own]
            exact ⟨fun _ => rfl, fun _ => mem⟩
          · rw [(settled_other own).1]
            constructor
            · intro mem
              exact (covers.known other mem).resolve_right fun pending => own (pending.next_eq trying.split)
            · exact covers.logged other
        · rw [memory, after_of_unsuccessful unsuccessful]
        · rw [memory, after_of_unsuccessful unsuccessful, trying.follows.firstError]
    · have skipped := trying.repeats.resolve_left together
      obtain ⟨covers, follows⟩ := OnTrack.conclude_again covers trying together skipped
      exact .loops rfl covers follows whole

/-- The end of a run. -/
theorem OnTrack.finish (covers : e.Covers point s.nodeRuns s.log) (follows : e.Follows slept point front m)
    (split : e.order = front ++ rest) (ended : rest = [] ∨ m.halted = true) :
    e.OnTrack slept (Execution.finish s m) := by
  have reached (same : e.fresh e.order = e.fresh point) (flags : e.fresh front = e.fresh point)
      (settled : ∀ id, ¬e.Pending point id) : e.Reached (Execution.finish s m) := by
    obtain ⟨rows, logged⟩ := covers.exact settled
    refine ⟨by rw [same]; exact rows, by rw [same]; exact logged, ?_, ?_⟩
    · rw [same, ← flags, ← follows.allSucceeded]
      rfl
    · rw [same, ← flags, ← follows.firstError]
      rfl
  rcases ended with rfl | halted
  · rw [append_nil] at split
    have whole : point = e.order := by
      apply List.IsPrefix.eq_of_length_le covers.within
      rw [split]
      exact follows.behind.length_le
    subst split
    subst whole
    refine .ends rfl (reached rfl rfl ?_) ?_
    · rintro id ⟨⟨rest, split⟩, -⟩
      have := congrArg length split
      simp at this
    · rintro asleep ⟨-, id, mem, node, found, absent, ready⟩
      rw [(follows.asleep asleep).2.2 id mem node found absent] at ready
      cases ready
  · have awake : slept = false := by
      cases asleep : slept with
      | false => rfl
      | true =>
        rw [(follows.asleep asleep).1] at halted
        cases halted
    rw [(follows.halted awake).1] at halted
    have stopped := stopped_of_halted halted
    have flags := fresh_of_stopped_before follows.behind stopped
    have same : e.fresh e.order = e.fresh point := by
      rw [flags]
      exact fresh_of_stopped_before ⟨rest, split.symm⟩ stopped
    refine .ends rfl (reached same flags.symm ?_) fun asleep => ?_
    · apply not_pending_of_stopped
      rw [flags]
      exact stopped
    · rw [awake] at asleep
      cases asleep

end RootCx.Workflow.Execution
