import RootCx.Workflow.Resume

/-! # Crashes and redeliveries

Every run of an execution that is interrupted any number of times, at any step, ends
like the uninterrupted run where what it has recorded is read back as it was, with one
exception: when it crashes with a Stop node recorded and a node left that is ready, the
next attempt executes that node.
-/

namespace RootCx.Workflow

open Runs (Along)

/-- Two runs end alike: the same nodes have been executed, and the same is recorded of
    every node and of the execution. -/
structure Run.Alike (first second : Run) : Prop where
  executed : ∀ id, id ∈ first.log ↔ id ∈ second.log
  nodeRuns : first.nodeRuns = second.nodeRuns
  status : first.status = second.status
  error : first.error = second.error

variable {action : Action}

namespace Execution

variable {e : Execution} {slept : Bool} {point : List Text} {s next last : Run} {actions : List Action}

/-- No node behind a Stop node that succeeded has been executed. -/
def NothingBehindStop (e : Execution) (s : Run) : Prop :=
  ∀ front stop behind node, e.order = front ++ stop :: behind → e.graph.node stop = some node →
    node.kind = .control .stop → (s.nodeRuns stop).any succeededRun = true → ∀ id ∈ behind, id ∉ s.log

/-- A Stop node is recorded, and a node that is not recorded is ready. -/
def Exposed (e : Execution) (s : Run) : Prop :=
  e.StopRecorded s.nodeRuns ∧ ∃ id ∈ e.order, ∃ node, e.graph.node id = some node ∧ s.nodeRuns id = none ∧
    shouldExecute e.graph id (portsOf s.nodeRuns) = true

/-- Every attempt is recorded, and the recorded outputs are read back as they are. -/
def Keeps (e : Execution) (s : Run) (action : Action) : Prop :=
  action ≠ .lose ∧ (action = .crash → ReadsBack e.reads s.nodeRuns)

/-! ## One step -/

theorem covers_queued (e : Execution) : e.Covers [] queued.nodeRuns queued.log where
  within := List.nil_prefix
  live := rfl
  rows _ := .inl rfl
  logged _ present := nomatch present
  known _ mem := nomatch mem

theorem OnTrack.queued (e : Execution) : e.OnTrack false queued := .idle (.inl rfl) e.covers_queued nofun rfl

/-- A step of `run` keeps it on track, or it strays behind a Stop node. -/
theorem OnTrack.advance (track : e.OnTrack slept s) (stepped : e.advance s = some next) :
    e.OnTrack slept next ∨ slept = true ∧ e.Lingers ∧ e.Strayed next := by
  cases track with
  | idle phase covers kept halted =>
    left
    rcases phase with phase | phase
    · simp only [Execution.advance, phase] at stepped
      split at stepped
      · cases stepped
        exact .idle (.inr rfl) covers kept halted
      · cases stepped
    · simp only [Execution.advance, phase] at stepped
      cases stepped
      exact .loops rfl covers (follows_seed covers kept halted) (List.nil_append _).symm
  | @loops point front m rest phase covers follows split =>
    left
    cases rest with
    | nil =>
      simp only [Execution.advance, phase] at stepped
      cases stepped
      exact OnTrack.finish covers follows split (.inl rfl)
    | cons id rest =>
      simp only [Execution.advance, phase, follows.aborted, Bool.false_or] at stepped
      by_cases halted : m.halted = true
      · rw [if_pos halted] at stepped
        cases stepped
        exact OnTrack.finish covers follows split (.inr halted)
      · rw [if_neg halted] at stepped
        cases stepped
        exact OnTrack.meet covers follows split (Bool.eq_false_iff.mpr halted)
  | @aborts point id m rest phase covers awake split running aborted stopped rows logged allSucceeded firstError =>
    left
    have finished : next = Execution.finish s m := by
      cases rest with
      | nil =>
        simp only [Execution.advance, phase] at stepped
        exact (Option.some.inj stepped).symm
      | cons other rest =>
        simp only [Execution.advance, phase, aborted, Bool.true_or, if_true] at stepped
        exact (Option.some.inj stepped).symm
    subst finished
    have same : e.fresh e.order = e.fresh (point ++ [id]) :=
      fresh_of_stopped_before ⟨rest, by simp [split]⟩ stopped
    refine .ends rfl ⟨by rw [same]; exact rows, by rw [same]; exact logged, ?_, ?_⟩ ?_
    · rw [same, ← allSucceeded]
      rfl
    · rw [same, ← firstError]
      rfl
    · intro asleep
      rw [awake] at asleep
      cases asleep
  | tries phase covers trying count =>
    left
    simp only [Execution.advance, phase] at stepped
    cases stepped
    exact OnTrack.attempt covers trying count
  | @strays point m node rest attempts phase covers asleep halted mem found absent ready =>
    right
    simp only [Execution.advance, phase] at stepped
    cases stepped
    have same := fresh_order_of_halted covers.within halted
    refine ⟨asleep, ⟨by rw [same, halted], node.id, mem, node, found, by rw [same, absent], by rw [same, ready]⟩, ?_⟩
    exact ⟨node.id, by simp, by rw [same, absent]⟩
  | tried phase covers trying executed mem count =>
    left
    simp only [Execution.advance, phase] at stepped
    cases stepped
    subst executed
    exact OnTrack.conclude covers trying mem count
  | ends phase reached rested =>
    simp only [Execution.advance, phase] at stepped
    cases stepped

/-- A crash leaves what is recorded; the next attempt begins behind a Stop node if the
    records have one. -/
theorem OnTrack.crash (track : e.OnTrack slept s) (stepped : Execution.crash s = some next)
    (kept : ReadsBack e.reads s.nodeRuns) :
    ∃ point, e.Covers point s.nodeRuns s.log ∧ e.OnTrack (e.fresh point).memory.halted next := by
  have unfinished : s.phase ≠ .finished := by
    intro phase
    simp only [Execution.crash, phase] at stepped
    cases stepped
  obtain ⟨point, covers⟩ := track.covered unfinished
  have rested : next = { s with phase := .waiting } := by
    unfold Execution.crash at stepped
    split at stepped
    · cases stepped
    · exact (Option.some.inj stepped).symm
  subst rested
  exact ⟨point, covers, .idle (.inl rfl) covers kept rfl⟩

/-- A crash exposes a run exactly when the uninterrupted run is halted at this point and
    leaves a node that is ready. -/
theorem exposed_iff (covers : e.Covers point s.nodeRuns s.log) :
    e.Exposed s ↔ (e.fresh point).memory.halted = true ∧ e.Lingers := by
  have distinct := nodup_of_before covers.within
  have stops : e.StopRecorded s.nodeRuns ↔ (e.fresh point).memory.halted = true := by
    rw [fresh_halted distinct]
    simp only [StopRecorded, covers.seed.2.2]
  unfold Exposed Lingers
  rw [stops]
  constructor
  · rintro ⟨halted, id, mem, node, found, absent, ready⟩
    have whole := fresh_order_of_halted covers.within halted
    obtain ⟨rows, -⟩ := covers.exact (not_pending_of_stopped (stopped_of_halted halted))
    rw [rows] at absent
    rw [covers.seed.1] at ready
    rw [whole]
    exact ⟨halted, halted, id, mem, node, found, absent, ready⟩
  · rintro ⟨halted, -, id, mem, node, found, absent, ready⟩
    have whole := fresh_order_of_halted covers.within halted
    obtain ⟨rows, -⟩ := covers.exact (not_pending_of_stopped (stopped_of_halted halted))
    rw [whole] at absent ready
    rw [rows, ← rows, covers.seed.1]
    refine ⟨halted, id, mem, node, found, ?_, ready⟩
    rw [rows]
    exact absent

theorem log_mono (stepped : e.step s action = some next) {id : Text} (mem : id ∈ s.log) : id ∈ next.log := by
  cases action with
  | crash =>
    simp only [step, Execution.crash] at stepped
    split at stepped
    · cases stepped
    · cases stepped
      exact mem
  | lose =>
    simp only [step, Execution.lose] at stepped
    split at stepped
    · cases stepped
      unfold Execution.conclude
      dsimp only
      split <;> exact mem
    · cases stepped
  | advance =>
    simp only [step] at stepped
    unfold Execution.advance at stepped
    split at stepped
    · split at stepped
      · cases stepped
        exact mem
      · cases stepped
    · cases stepped
      exact mem
    · cases stepped
      exact mem
    · split at stepped
      · cases stepped
        exact mem
      · cases stepped
        unfold Execution.meet
        repeat' split
        all_goals exact mem
    · cases stepped
      exact List.mem_append_left _ mem
    · cases stepped
      unfold Execution.conclude
      dsimp only
      split <;> exact mem
    · cases stepped

/-! ## Whole runs -/

/-- No crash has exposed the run. -/
def Faithful (e : Execution) (s : Run) : Prop := e.OnTrack false s ∨ ¬e.Lingers ∧ e.OnTrack true s

/-- A crash has exposed the run. -/
def Doomed (e : Execution) (s : Run) : Prop := e.Strayed s ∨ e.Lingers ∧ e.OnTrack true s

theorem Faithful.step (faithful : e.Faithful s) (stepped : e.step s action = some next) (keeps : e.Keeps s action)
    (met : action = .crash → ¬e.Exposed s) : e.Faithful next := by
  cases action with
  | lose => exact absurd rfl keeps.1
  | advance =>
    rcases faithful with track | ⟨rests, track⟩
    · rcases track.advance stepped with track | ⟨asleep, -⟩
      · exact .inl track
      · cases asleep
    · rcases track.advance stepped with track | ⟨-, lingers, -⟩
      · exact .inr ⟨rests, track⟩
      · exact absurd lingers rests
  | crash =>
    obtain ⟨slept, track⟩ : ∃ slept, e.OnTrack slept s := by
      rcases faithful with track | ⟨-, track⟩
      · exact ⟨false, track⟩
      · exact ⟨true, track⟩
    obtain ⟨point, covers, track⟩ := track.crash stepped (keeps.2 rfl)
    cases halted : (e.fresh point).memory.halted with
    | false => exact .inl (halted ▸ track)
    | true =>
      refine .inr ⟨fun lingers => ?_, halted ▸ track⟩
      exact met rfl ((exposed_iff covers).mpr ⟨halted, lingers⟩)

theorem Faithful.exposed (faithful : e.Faithful s) (stepped : e.step s action = some next) (keeps : e.Keeps s action)
    (broken : ¬(action = .crash → ¬e.Exposed s)) : e.Doomed next := by
  obtain ⟨rfl, exposed⟩ : action = .crash ∧ e.Exposed s := by simpa using broken
  obtain ⟨slept, track⟩ : ∃ slept, e.OnTrack slept s := by
    rcases faithful with track | ⟨-, track⟩
    · exact ⟨false, track⟩
    · exact ⟨true, track⟩
  obtain ⟨point, covers, track⟩ := track.crash stepped (keeps.2 rfl)
  obtain ⟨halted, lingers⟩ := (exposed_iff covers).mp exposed
  exact .inr ⟨lingers, halted ▸ track⟩

theorem Doomed.step (doomed : e.Doomed s) (stepped : e.step s action = some next) (keeps : e.Keeps s action) :
    e.Doomed next := by
  rcases doomed with ⟨id, mem, absent⟩ | ⟨lingers, track⟩
  · exact .inl ⟨id, log_mono stepped mem, absent⟩
  · cases action with
    | lose => exact absurd rfl keeps.1
    | advance =>
      rcases track.advance stepped with track | ⟨-, -, strayed⟩
      · exact .inr ⟨lingers, track⟩
      · exact .inl strayed
    | crash =>
      -- The Stop node stays recorded.
      have halted : ∃ point, e.Covers point s.nodeRuns s.log ∧ (e.fresh point).memory.halted = true := by
        cases track with
        | idle phase covers kept halted => exact ⟨_, covers, halted⟩
        | loops phase covers follows split => exact ⟨_, covers, (follows.asleep rfl).2.1⟩
        | aborts phase covers awake => cases awake
        | tries phase covers trying count => exact ⟨_, covers, (trying.follows.asleep rfl).2.1⟩
        | strays phase covers asleep halted => exact ⟨_, covers, halted⟩
        | tried phase covers trying => exact ⟨_, covers, (trying.follows.asleep rfl).2.1⟩
        | ends phase reached rested => exact absurd lingers (rested rfl)
      obtain ⟨point, covers, halted⟩ := halted
      have rested : next = { s with phase := .waiting } := by
        simp only [Execution.step, Execution.crash] at stepped
        split at stepped
        · cases stepped
        · exact (Option.some.inj stepped).symm
      subst rested
      exact .inr ⟨lingers, .idle (.inl rfl) covers (keeps.2 rfl) halted⟩

theorem OnTrack.reached (track : e.OnTrack slept s) (ended : s.phase = .finished) :
    e.Reached s ∧ (slept = true → ¬e.Lingers) := by
  cases track with
  | idle phase => rcases phase with phase | phase <;> exact nomatch phase.symm.trans ended
  | loops phase => exact nomatch phase.symm.trans ended
  | aborts phase => exact nomatch phase.symm.trans ended
  | tries phase => exact nomatch phase.symm.trans ended
  | strays phase => exact nomatch phase.symm.trans ended
  | tried phase => exact nomatch phase.symm.trans ended
  | ends phase reached rested => exact ⟨reached, rested⟩

theorem Faithful.reached (faithful : e.Faithful s) (ended : s.phase = .finished) : e.Reached s := by
  rcases faithful with track | ⟨-, track⟩
  · exact (track.reached ended).1
  · exact (track.reached ended).1

theorem Doomed.strayed (doomed : e.Doomed s) (ended : s.phase = .finished) : e.Strayed s := by
  rcases doomed with strayed | ⟨lingers, track⟩
  · exact strayed
  · exact absurd lingers ((track.reached ended).2 rfl)

theorem Reached.alike {first second : Run} (reached : e.Reached first) (reached' : e.Reached second) :
    first.Alike second :=
  ⟨fun id => (reached.logged id).trans (reached'.logged id).symm, reached.nodeRuns.trans reached'.nodeRuns.symm,
    reached.status.trans reached'.status.symm, reached.error.trans reached'.error.symm⟩

theorem Reached.nothingBehindStop (reached : e.Reached s) : e.NothingBehindStop s := by
  intro front stop behind node split found kind succeeded id mem logged
  rw [reached.nodeRuns] at succeeded
  have present := (reached.logged id).mp logged
  have within : front ++ [stop] <+: e.order := ⟨behind, by simp [split]⟩
  have distinct := nodup_of_before within
  have order := e.order_nodup
  have whole : e.order = (front ++ [stop]) ++ behind := by simp [split]
  rw [whole] at succeeded order present
  rw [(fresh_behind (by simp) order).1] at succeeded
  have halted : (e.fresh (front ++ [stop])).memory.halted = true :=
    (fresh_halted distinct).mpr ⟨stop, node, found, kind, succeeded⟩
  rw [fresh_append_of_stopped (stopped_of_halted halted)] at present
  exact (List.nodup_append.mp order).2.2 id (mem_of_recorded present) id mem rfl

/-! ## The uninterrupted run ends -/

/-- A state that steps without a crash lead to. -/
def Leads (e : Execution) (s next : Run) : Prop :=
  ∃ steps, Runs.run e.step s (List.replicate steps .advance) = some next

theorem Leads.one (stepped : e.advance s = some next) : e.Leads s next :=
  ⟨1, by simp [Runs.run, step, stepped]⟩

theorem Leads.trans {middle : Run} (first : e.Leads s middle) (second : e.Leads middle next) : e.Leads s next := by
  obtain ⟨steps, ran⟩ := first
  obtain ⟨more, ran'⟩ := second
  refine ⟨steps + more, ?_⟩
  rw [List.replicate_add, Runs.run_append ran]
  exact ran'

theorem attempt_leads {m : Memory} {node : WorkflowNode} {rest : List Text} {attempts : Nat}
    (phase : s.phase = .attempting m node rest attempts) :
    e.Leads s (conclude
      { s with
        phase := .executed m node rest (attempts + 1) (e.executed node m.runOutputs)
        log := s.log ++ [node.id] }
      m node rest (attempts + 1) (e.executed node m.runOutputs)) := by
  have executed : e.advance s = some
      { s with
        phase := .executed m node rest (attempts + 1) (e.executed node m.runOutputs)
        log := s.log ++ [node.id] } := by
    simp only [Execution.advance, phase]
  exact (Leads.one executed).trans (Leads.one rfl)

/-- The attempts at a node come to an end. -/
theorem attempts_end (m : Memory) (node : WorkflowNode) (rest : List Text) (left : Nat) :
    ∀ (s : Run) (attempts : Nat), s.phase = .attempting m node rest attempts →
      (retryPolicy node).maxAttempts - attempts ≤ left → ∃ next m', e.Leads s next ∧ next.phase = .looping m' rest := by
  induction left with
  | zero =>
    intro s attempts phase exhausted
    refine ⟨_, m.after node.id (retryPolicy node) (e.executed node m.runOutputs), attempt_leads phase, ?_⟩
    unfold conclude
    dsimp only
    rw [if_neg fun again => by omega]
  | succ left ih =>
    intro s attempts phase fewer
    by_cases again : (e.executed node m.runOutputs).status = .failed ∧ attempts + 1 < (retryPolicy node).maxAttempts
    · have retried : (conclude
          { s with
            phase := .executed m node rest (attempts + 1) (e.executed node m.runOutputs)
            log := s.log ++ [node.id] }
          m node rest (attempts + 1) (e.executed node m.runOutputs)).phase = .attempting m node rest (attempts + 1) := by
        unfold conclude
        dsimp only
        rw [if_pos again]
      obtain ⟨next, m', leads, ended⟩ := ih _ (attempts + 1) retried (by omega)
      exact ⟨next, m', (attempt_leads phase).trans leads, ended⟩
    · refine ⟨_, m.after node.id (retryPolicy node) (e.executed node m.runOutputs), attempt_leads phase, ?_⟩
      unfold conclude
      dsimp only
      rw [if_neg again]

theorem loop_ends (rest : List Text) :
    ∀ (s : Run) (m : Memory), s.phase = .looping m rest → ∃ next, e.Leads s next ∧ next.phase = .finished := by
  induction rest with
  | nil =>
    intro s m phase
    exact ⟨finish s m, Leads.one (by simp only [Execution.advance, phase]), rfl⟩
  | cons id rest ih =>
    intro s m phase
    by_cases ended : (m.aborted || m.halted) = true
    · exact ⟨finish s m, Leads.one (by simp only [Execution.advance, phase]; rw [if_pos ended]), rfl⟩
    · have met : e.Leads s (e.meet s m id rest) :=
        Leads.one (by simp only [Execution.advance, phase]; rw [if_neg ended])
      have position : (∃ m', (e.meet s m id rest).phase = .looping m' rest) ∨
          ∃ node, (e.meet s m id rest).phase = .attempting m node rest 0 := by
        unfold Execution.meet
        cases e.graph.node id with
        | none => exact .inl ⟨m, rfl⟩
        | some node =>
          dsimp only
          split
          · exact .inl ⟨m, rfl⟩
          · split
            · exact .inl ⟨m, rfl⟩
            · exact .inr ⟨node, rfl⟩
      rcases position with ⟨m', phase⟩ | ⟨node, phase⟩
      · obtain ⟨next, leads, finished⟩ := ih _ m' phase
        exact ⟨next, met.trans leads, finished⟩
      · obtain ⟨middle, m', leads, phase⟩ := attempts_end m node rest _ _ 0 phase (Nat.le_refl _)
        obtain ⟨next, leads', finished⟩ := ih middle m' phase
        exact ⟨next, (met.trans leads).trans leads', finished⟩

theorem uninterrupted_ends (e : Execution) : ∃ calm, e.Leads queued calm ∧ calm.phase = .finished := by
  have loaded : e.Leads queued
      { queued with status := .running, attempts := 1, phase := .looping (seedResume e.reads queued.nodeRuns) e.order } :=
    ⟨2, rfl⟩
  obtain ⟨calm, leads, finished⟩ := loop_ends e.order
    { queued with status := .running, attempts := 1, phase := .looping (seedResume e.reads queued.nodeRuns) e.order }
    (seedResume e.reads queued.nodeRuns) rfl
  exact ⟨calm, loaded.trans leads, finished⟩

theorem along_replicate {meets : Run → Action → Prop} (free : ∀ s, meets s .advance) (steps : Nat) (s : Run) :
    Along e.step meets s (List.replicate steps .advance) := by
  induction steps generalizing s with
  | zero => trivial
  | succ steps ih => exact ⟨free s, fun next _ => ih next⟩

theorem keeps_advance (s : Run) : e.Keeps s .advance := ⟨nofun, nofun⟩

theorem run_cases (ran : Runs.run e.step queued actions = some last) (keeps : Along e.step e.Keeps queued actions) :
    Along e.step (fun s action => action = .crash → ¬e.Exposed s) queued actions ∧ e.Faithful last ∨
      ¬Along e.step (fun s action => action = .crash → ¬e.Exposed s) queued actions ∧ e.Doomed last :=
  Runs.run_turn (fun faithful stepped keeps met => faithful.step stepped keeps met)
    (fun faithful stepped keeps broken => faithful.exposed stepped keeps broken)
    (fun doomed stepped keeps => doomed.step stepped keeps) (.inl (OnTrack.queued e)) ran keeps

theorem uninterrupted_reached {calm : Run} (leads : e.Leads queued calm) (ended : calm.phase = .finished) :
    e.Reached calm := by
  obtain ⟨steps, ran⟩ := leads
  have keeps : Along e.step e.Keeps queued (List.replicate steps .advance) := along_replicate keeps_advance steps queued
  rcases run_cases ran keeps with ⟨-, faithful⟩ | ⟨broken, -⟩
  · exact faithful.reached ended
  · exact absurd (along_replicate (fun _ crashed => nomatch crashed) steps queued) broken

/-- An engine without expressions. -/
def noEngine : Expr.Engine where
  Context := Unit
  context _ _ := ()
  eval _ _ := (.null, ())

/-- A trigger that leads to a Stop node and to a Set node. -/
def stopGraph : WorkflowGraph where
  nodes := [⟨['t'], .trigger .manual, .obj []⟩, ⟨['s'], .control .stop, .obj []⟩, ⟨['x'], .control .set, .obj []⟩]
  edges := [⟨['t'], ['s'], 0, 0⟩, ⟨['t'], ['x'], 0, 0⟩]

def stopExecution : Execution where
  host := ⟨noEngine, fun _ => none, ['e']⟩
  reads := id
  graph := stopGraph
  roots := [['t']]
  accepted := rfl
  started := by decide

/-- The process dies right after it has recorded the Stop node. -/
def stopInterrupted : List Action := List.replicate 8 .advance ++ .crash :: List.replicate 8 .advance

/-- What the test runs below are read off. -/
def brief (s : Run) : Bool × List Text × Bool :=
  (s.phase matches .finished, s.log, (s.nodeRuns ['s']).any succeededRun)

theorem finished_of_matches {s : Run} (ended : (s.phase matches .finished) = true) : s.phase = .finished := by
  cases phase : s.phase with
  | finished => rfl
  | _ => simp [phase] at ended

theorem stop_of_stopRecorded {nodeRuns : NodeRuns} (recorded : stopExecution.StopRecorded nodeRuns) :
    (nodeRuns ['s']).any succeededRun = true := by
  obtain ⟨id, node, found, kind, succeeded⟩ := recorded
  have mem : node ∈ stopGraph.nodes.reverse := List.mem_of_find?_eq_some found
  have named := WorkflowGraph.id_of_node found
  simp only [stopGraph, List.mem_reverse, List.mem_cons, List.not_mem_nil, or_false] at mem
  rcases mem with rfl | rfl | rfl
  · cases kind
  · rw [← named] at succeeded
    exact succeeded
  · cases kind

end Execution

end RootCx.Workflow
