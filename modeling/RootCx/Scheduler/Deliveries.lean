import RootCx.Scheduler.OneExecution

/-! # Deliveries and the runs they start

A workflow run is guarded by the set of messages in flight, a worker job by the books
of its worker, and both are refused beyond the delivery cap.  An agent job has none of
these: it is kept to one run at a time, and to the cap, only as long as its lease does
not run out under it.
-/

namespace RootCx.Scheduler

open Runs (Along)

variable {s next : State} {id : Nat} {t : Task} {message : JobMessage}

/-! ## Routing -/

/-- Manual and triggered workflow messages. -/
def JobMessage.isWorkflow (message : JobMessage) : Bool :=
  match route message false with
  | .manual _ | .workflow _ => true
  | _ => false

theorem route_agentApp (message : JobMessage) (agentApp : Bool) :
    route message agentApp = route message false ∨
      route message false = .worker ∧ route message agentApp = .agent := by
  unfold route
  cases message.kind with
  | none => exact .inl rfl
  | some kind =>
    cases kind with
    | app | workflowManual | hook => exact .inl rfl
    | cron =>
      cases message.cronWorkflow with
      | some workflowId => exact .inl rfl
      | none =>
        cases agentApp with
        | false => exact .inl rfl
        | true => exact .inr ⟨rfl, rfl⟩

theorem isWorkflow_iff (message : JobMessage) (agentApp : Bool) :
    message.isWorkflow = true ↔
      (∃ exec, route message agentApp = .manual exec) ∨ ∃ workflowId, route message agentApp = .workflow workflowId := by
  unfold JobMessage.isWorkflow
  rcases route_agentApp message agentApp with same | ⟨worker, agent⟩
  · rw [same]
    cases route message false <;> simp
  · rw [worker, agent]
    simp

variable {agentApp : Bool} {action : Action} {msg : MsgId} {answers : Answers}

theorem isWorkflow_of_workflow {workflowId : Option Uuid}
    (routed : route message agentApp = .workflow workflowId) : message.isWorkflow = true :=
  (isWorkflow_iff message agentApp).mpr (.inr ⟨workflowId, routed⟩)

theorem isWorkflow_of_manual {exec : Option ExecId} (routed : route message agentApp = .manual exec) :
    message.isWorkflow = true :=
  (isWorkflow_iff message agentApp).mpr (.inl ⟨exec, routed⟩)

theorem not_isWorkflow (routed : route message agentApp = .agent ∨ route message agentApp = .worker) :
    message.isWorkflow = false := by
  rw [Bool.eq_false_iff, ne_eq, isWorkflow_iff message agentApp]
  rintro (⟨exec, other⟩ | ⟨workflowId, other⟩) <;> rcases routed with routed | routed <;>
    exact nomatch routed.symm.trans other

/-- What the stage of a task says about its message and its delivery. -/
def StageFits (message : JobMessage) (t : Task) : Prop :=
  match t.stage with
  | .inviting => route message t.answers.agentApp = .agent
  | .posting worker =>
    route message t.answers.agentApp = .worker ∧ t.answers.worker = some worker ∧ t.delivery ≤ maxDeliveries
  | .checking _ | .binding _ | .expiring => message.isWorkflow = true
  | .lookingUp | .creating | .spawning _ => message.isWorkflow = true ∧ t.delivery ≤ maxDeliveries
  | _ => True

theorem stageFits_routed (t : Task) (message : JobMessage) :
    StageFits message { t with stage := t.routed message } := by
  unfold Task.routed
  cases routed : route message t.answers.agentApp with
  | legacy => trivial
  | manual exec =>
    cases exec with
    | none => trivial
    | some exec => exact isWorkflow_of_manual routed
  | agent => exact routed
  | workflow workflowId => exact isWorkflow_of_workflow routed
  | worker =>
    dsimp only
    by_cases exhausted : t.delivery > maxDeliveries
    · rw [if_pos exhausted]
      trivial
    · rw [if_neg exhausted]
      cases worker : t.answers.worker with
      | none => trivial
      | some worker' => exact ⟨routed, worker, Nat.le_of_not_lt exhausted⟩

theorem stageFits_checked (t : Task) (workflowId : Option Uuid) (workflow : message.isWorkflow = true) :
    StageFits message { t with stage := t.checked workflowId } := by
  unfold Task.checked
  by_cases missing : workflowId = none
  · rw [if_pos missing]; trivial
  · rw [if_neg missing]
    by_cases absent : t.answers.workflowApp = none
    · rw [if_pos absent]; trivial
    · rw [if_neg absent]
      by_cases exhausted : t.delivery > maxDeliveries
      · rw [if_pos exhausted]
        exact workflow
      · rw [if_neg exhausted]
        split
        · trivial
        · split
          · trivial
          · exact ⟨workflow, Nat.le_of_not_lt exhausted⟩

theorem stageFits_admitted (t : Task) (s : State) (exec : ExecId) (workflow : message.isWorkflow = true) :
    StageFits message { t with stage := t.admitted s message exec } := by
  unfold Task.admitted
  split
  · trivial
  · by_cases exhausted : t.delivery > maxDeliveries
    · rw [if_pos exhausted]; trivial
    · rw [if_neg exhausted]
      split
      · trivial
      · split
        · trivial
        · exact ⟨workflow, Nat.le_of_not_lt exhausted⟩

theorem stageFits_dispatch {stage : Stage} (fits : StageFits message t)
    (continued : (t.dispatch id s message).2 = some stage) : StageFits message { t with stage } := by
  unfold Task.dispatch at continued
  unfold StageFits at fits
  cases before : t.stage with
  | handling =>
    simp only [before, Option.some.injEq] at continued
    rw [← continued]
    exact stageFits_routed t message
  | inviting =>
    simp only [before] at continued
    split at continued
    · cases continued
    · cases continued
      trivial
  | checking workflowId =>
    rw [before] at fits
    simp only [before, Option.some.injEq] at continued
    rw [← continued]
    exact stageFits_checked t workflowId fits
  | lookingUp =>
    rw [before] at fits
    simp only [before] at continued
    split at continued <;> (obtain rfl := Option.some.inj continued; exact fits)
  | creating =>
    rw [before] at fits
    simp only [before] at continued
    split at continued
    · cases continued
      exact fits
    · cases continued
      trivial
  | binding exec =>
    rw [before] at fits
    simp only [before, Option.some.injEq] at continued
    rw [← continued]
    exact stageFits_admitted t s exec fits
  | expiring =>
    simp only [before, Option.some.injEq] at continued
    rw [← continued]
    trivial
  | closing exec after =>
    have continued : after.stage = some stage := by
      simp only [before] at continued
      cases exec <;> exact continued
    cases after with
    | done => cases continued
    | bury | delete =>
      cases continued
      trivial
  | burying =>
    simp only [before] at continued
    split at continued
    · cases continued
      trivial
    · cases continued
  | failing exec =>
    simp only [before] at continued
    cases exec with
    | none => cases continued
    | some exec =>
      cases continued
      trivial
  | posting _ | spawning _ | archiving => simp [before] at continued

/-! ## What a delivery is for -/

inductive Target where
  | agent
  | worker (key : WorkerKey)
  deriving DecidableEq, Repr

/-- The run outside the workflows that a delivery can start. -/
def target (message : JobMessage) (answers : Answers) : Option Target :=
  match route message answers.agentApp with
  | .agent => some .agent
  | .worker => answers.worker.map .worker
  | _ => none

/-- The task has not started its run, and not turned to settle its message. -/
def Stage.isOpen : Stage → Bool
  | .handling | .inviting | .posting _ => true
  | _ => false

theorem isOpen_dispatch {stage : Stage} (continued : (t.dispatch id s message).2 = some stage)
    (open' : stage.isOpen = true) : t.stage.isOpen = true := by
  unfold Task.dispatch at continued
  cases before : t.stage with
  | handling | inviting => rfl
  | posting worker => rfl
  | checking workflowId =>
    simp only [before, Option.some.injEq, Task.checked] at continued
    subst continued
    revert open'
    repeat' split
    all_goals exact fun open' => open'
  | lookingUp =>
    simp only [before] at continued
    split at continued <;> (obtain rfl := Option.some.inj continued; exact open')
  | creating =>
    simp only [before] at continued
    split at continued <;> (obtain rfl := Option.some.inj continued; exact open')
  | binding exec =>
    simp only [before, Option.some.injEq, Task.admitted] at continued
    subst continued
    revert open'
    repeat' split
    all_goals exact fun open' => open'
  | expiring =>
    simp only [before, Option.some.injEq] at continued
    subst continued
    exact open'
  | closing exec after =>
    have continued : after.stage = some stage := by
      simp only [before] at continued
      cases exec <;> exact continued
    cases after with
    | done => cases continued
    | bury | delete =>
      cases continued
      exact open'
  | burying =>
    simp only [before] at continued
    split at continued
    · cases continued
      exact open'
    · cases continued
  | failing exec =>
    simp only [before] at continued
    cases exec with
    | none => cases continued
    | some exec =>
      cases continued
      exact open'
  | spawning _ | archiving => simp [before] at continued

/-- A delivery of the message for this target has not come to its end. -/
inductive Unfinished (s : State) (msg : MsgId) : Target → Prop
  | task {id : Nat} {t : Task} {message : JobMessage} {goal : Target} (found : s.tasks id = some t) (own : t.msg = msg)
      (open' : t.stage.isOpen = true) (sent : s.sent msg = some message)
      (aimed : target message t.answers = some goal) : Unfinished s msg goal
  | job {worker : WorkerKey} (held : s.jobs worker msg = true) : Unfinished s msg (.worker worker)
  | agent {id : Nat} (runs : s.agents id = some msg) : Unfinished s msg .agent

/-- The deliveries that overlap: none with one for an agent, and those for a worker all
    for the same; and none for an agent beyond the cap. -/
def Separate (s : State) : Action → Prop
  | .poll msg _ answers => ∀ message goal, s.sent msg = some message → target message answers = some goal →
      (∀ other, Unfinished s msg other → other = goal ∧ goal ≠ .agent) ∧
        (goal = .agent → s.readCt msg < maxDeliveries)
  | _ => True

/-- Who runs a message. -/
inductive Runner where
  | workflow (run : Nat)
  | worker (key : WorkerKey)
  | agent (id : Nat)
  deriving DecidableEq, Repr

inductive Running (s : State) (msg : MsgId) : Runner → Prop
  | workflow {run : Nat} {r : RunTask} (found : s.runs run = some r) (own : r.msg = msg) : Running s msg (.workflow run)
  | worker {key : WorkerKey} (held : s.jobs key msg = true) : Running s msg (.worker key)
  | agent {id : Nat} (runs : s.agents id = some msg) : Running s msg (.agent id)

/-! ## What a step does to the runs -/

theorem dispatch_sent (t : Task) (id : Nat) (s : State) (message : JobMessage) :
    (s.dispatch id t message).sent = s.sent ∧ (s.dispatch id t message).readCt = s.readCt := by
  unfold State.dispatch Task.dispatch
  cases t.stage with
  | inviting => dsimp only; split <;> exact ⟨rfl, rfl⟩
  | lookingUp => dsimp only; split <;> exact ⟨rfl, rfl⟩
  | creating => dsimp only; split <;> exact ⟨rfl, rfl⟩
  | closing exec after => cases exec <;> exact ⟨rfl, rfl⟩
  | _ => exact ⟨rfl, rfl⟩

/-- What a dispatch task starts: nothing, or one run that takes its place. -/
inductive Starts (s : State) (id : Nat) (t : Task) (next : State) : Prop
  | nothing (started : next.started = s.started) (jobs : next.jobs = s.jobs) (agents : next.agents = s.agents)
      (runs : next.runs = s.runs) (inFlight : next.inFlight = s.inFlight)
  | agent (stage : t.stage = .inviting) (ended : next.tasks id = none)
      (started : next.started = s.started ++ [(t.msg, t.delivery)]) (jobs : next.jobs = s.jobs)
      (agents : next.agents = Function.update s.agents id (some t.msg)) (runs : next.runs = s.runs)
      (inFlight : next.inFlight = s.inFlight)
  | job {worker : WorkerKey} (stage : t.stage = .posting worker) (ended : next.tasks id = none)
      (started : next.started = s.started ++ [(t.msg, t.delivery)])
      (jobs : next.jobs = Function.update s.jobs worker (Function.update (s.jobs worker) t.msg true))
      (agents : next.agents = s.agents) (runs : next.runs = s.runs) (inFlight : next.inFlight = s.inFlight)
  | run {exec : ExecId} (stage : t.stage = .spawning exec) (ended : next.tasks id = none)
      (free : s.inFlight t.msg = false) (started : next.started = s.started ++ [(t.msg, t.delivery)])
      (jobs : next.jobs = s.jobs) (agents : next.agents = s.agents)
      (runs : next.runs = Function.update s.runs id (some ⟨t.msg, exec, .loading⟩))
      (inFlight : next.inFlight = Function.update s.inFlight t.msg true)

theorem starts_dispatch (t : Task) (id : Nat) (s : State) (message : JobMessage) :
    Starts s id t (s.dispatch id t message) := by
  cases stage : t.stage with
  | inviting =>
    by_cases invoked : t.answers.agentInvoked = true
    · apply Starts.agent stage <;> simp [State.dispatch, Task.dispatch, stage, invoked, State.inviteAgent]
    · apply Starts.nothing <;> simp [State.dispatch, Task.dispatch, stage, invoked]
  | posting worker =>
    by_cases refused : t.answers.workerSent = true ∧ s.jobs worker t.msg = false
    · apply Starts.job stage <;> simp [State.dispatch, Task.dispatch, stage, State.postJob, refused]
    · apply Starts.nothing <;> simp only [State.dispatch, Task.dispatch, stage, State.postJob]
      · rw [if_neg]
        simpa using refused
      · by_cases sent : t.answers.workerSent = true
        · have held : s.jobs worker t.msg = true := by simpa [sent] using refused
          have same : Function.update (s.jobs worker) t.msg true = s.jobs worker :=
            Function.update_eq_self_iff.mpr held.symm
          rw [if_pos sent, same, Function.update_eq_self]
        · rw [if_neg sent]
  | spawning exec =>
    cases free : s.inFlight t.msg with
    | false => apply Starts.run stage <;> simp [State.dispatch, Task.dispatch, stage, State.spawnWorkflowRun, free]
    | true =>
      apply Starts.nothing <;> simp [State.dispatch, Task.dispatch, stage, State.spawnWorkflowRun, free]
  | lookingUp =>
    apply Starts.nothing <;> (simp only [State.dispatch, Task.dispatch, stage]; split <;> rfl)
  | creating =>
    apply Starts.nothing <;> (simp only [State.dispatch, Task.dispatch, stage]; split <;> rfl)
  | closing exec after =>
    cases exec <;> apply Starts.nothing <;> simp [State.dispatch, Task.dispatch, stage, State.failExecution]
  | _ => apply Starts.nothing <;> simp [State.dispatch, Task.dispatch, stage, State.remove]

/-- What every step but a poll and a dispatch does to the process: nothing begins. -/
structure Shrinks (s next : State) : Prop where
  sent : ∀ msg message, msg < s.nextMsg → s.sent msg = some message → next.sent msg = some message
  tasks : ∀ id t, next.tasks id = some t → s.tasks id = some t
  jobs : ∀ worker msg, next.jobs worker msg = true → s.jobs worker msg = true
  agents : ∀ id msg, next.agents id = some msg → s.agents id = some msg
  runs : ∀ id r, next.runs id = some r → ∃ r', s.runs id = some r' ∧ r'.msg = r.msg
  readCt : next.readCt = s.readCt
  started : next.started = s.started
  inFlight : ∀ id r, next.runs id = some r → s.inFlight r.msg = true →
    (∀ other r', s.runs other = some r' → r'.msg = r.msg → other = id) → next.inFlight r.msg = true

theorem Shrinks.endRun {run : Nat} {r : RunTask} (s : State) (found : s.runs run = some r) :
    Shrinks s (s.endRun run r.msg) := by
  have kept (id : Nat) (r' : RunTask) (found' : (s.endRun run r.msg).runs id = some r') :
      id ≠ run ∧ s.runs id = some r' := by
    by_cases own : id = run
    · subst own
      simp [State.endRun] at found'
    · simp only [State.endRun, Function.update_of_ne own] at found'
      exact ⟨own, found'⟩
  refine ⟨fun _ _ _ sent => sent, fun _ _ found => found, fun _ _ held => held, fun _ _ runs => runs, ?_, rfl, rfl, ?_⟩
  · intro id r' found'
    exact ⟨r', (kept id r' found').2, rfl⟩
  · intro id r' found' flying lone
    have different : r'.msg ≠ r.msg := by
      intro same
      exact (kept id r' found').1 (lone run r found same.symm).symm
    simp only [State.endRun, Function.update_of_ne different]
    exact flying

/-- Everything but the runs is as it was. -/
theorem shrinks_runs {next : State} (runs : ∀ id r', next.runs id = some r' → ∃ r, s.runs id = some r ∧ r.msg = r'.msg)
    (sent : next.sent = s.sent) (tasks : next.tasks = s.tasks) (jobs : next.jobs = s.jobs) (agents : next.agents = s.agents)
    (readCt : next.readCt = s.readCt) (started : next.started = s.started) (inFlight : next.inFlight = s.inFlight) :
    Shrinks s next := by
  refine ⟨?_, ?_, ?_, ?_, runs, readCt, started, ?_⟩
  · rw [sent]; exact fun _ _ _ found => found
  · rw [tasks]; exact fun _ _ found => found
  · rw [jobs]; exact fun _ _ held => held
  · rw [agents]; exact fun _ _ found => found
  · rw [inFlight]; exact fun _ _ _ flying _ => flying

theorem shrinks_stage {run : Nat} {r : RunTask} {stage : RunStage} {next : State} (found : s.runs run = some r)
    (runs : next.runs = Function.update s.runs run (some { r with stage })) (sent : next.sent = s.sent)
    (tasks : next.tasks = s.tasks) (jobs : next.jobs = s.jobs) (agents : next.agents = s.agents)
    (readCt : next.readCt = s.readCt) (started : next.started = s.started) (inFlight : next.inFlight = s.inFlight) :
    Shrinks s next := by
  refine shrinks_runs ?_ sent tasks jobs agents readCt started inFlight
  rw [runs]
  intro id r' found'
  by_cases own : id = run
  · subst own
    rw [Function.update_self, Option.some.injEq] at found'
    exact ⟨r, found, by rw [← found']⟩
  · rw [Function.update_of_ne own] at found'
    exact ⟨r', found', rfl⟩

theorem Shrinks.of_step (stepped : step s action = some next) (aside : ∀ task, action ≠ .dispatch task)
    (unpolled : ∀ msg task answers, action ≠ .poll msg task answers) : Shrinks s next := by
  cases action with
  | dispatch task => exact absurd rfl (aside task)
  | poll msg task answers => exact absurd rfl (unpolled msg task answers)
  | enqueue message | enqueueManual appId userId =>
    cases stepped
    refine ⟨?_, fun _ _ found => found, fun _ _ held => held, fun _ _ runs => runs, fun _ r found => ⟨r, found, rfl⟩,
      rfl, rfl, fun _ _ _ flying _ => flying⟩
    intro msg message older sent
    exact (Function.update_of_ne (Nat.ne_of_lt older) ..).trans sent
  | expire msg | heartbeat msg =>
    cases stepped
    exact shrinks_runs (fun _ r found => ⟨r, found, rfl⟩) rfl rfl rfl rfl rfl rfl rfl
  | load run succeeds =>
    simp only [step] at stepped
    split at stepped
    · next r found =>
      split at stepped
      · cases stepped
        unfold State.load
        split
        · split
          · exact shrinks_stage found rfl rfl rfl rfl rfl rfl rfl rfl
          · exact Shrinks.endRun s found
        · exact Shrinks.endRun s found
      · cases stepped
    · cases stepped
  | record run status succeeds =>
    simp only [step] at stepped
    split at stepped
    · next r found =>
      split at stepped
      · cases stepped
        unfold State.record
        split
        · exact shrinks_stage found rfl rfl rfl rfl rfl rfl rfl rfl
        · exact Shrinks.endRun s found
      · cases stepped
    · cases stepped
  | archive run succeeds =>
    simp only [step] at stepped
    split at stepped
    · next r found =>
      split at stepped
      · cases stepped
        have ended := Shrinks.endRun s found
        exact ⟨ended.sent, ended.tasks, ended.jobs, ended.agents, ended.runs, ended.readCt, ended.started, ended.inFlight⟩
      · cases stepped
    · cases stepped
  | panicRun run =>
    simp only [step] at stepped
    split at stepped
    · next r found =>
      cases stepped
      exact Shrinks.endRun s found
    · cases stepped
  | endJob worker msg succeeds =>
    simp only [step] at stepped
    split at stepped
    · cases stepped
      refine ⟨fun _ _ _ sent => sent, fun _ _ found => found, ?_, fun _ _ runs => runs, fun _ r found => ⟨r, found, rfl⟩,
        rfl, rfl, fun _ _ _ flying _ => flying⟩
      intro worker' msg' held
      by_cases own : worker' = worker
      · subst own
        simp only [Function.update_self] at held
        by_cases same : msg' = msg
        · subst same
          simp at held
        · rwa [Function.update_of_ne same] at held
      · simpa only [Function.update_of_ne own] using held
    · cases stepped
  | stopWorker worker =>
    cases stepped
    refine ⟨fun _ _ _ sent => sent, fun _ _ found => found, ?_, fun _ _ runs => runs, fun _ r found => ⟨r, found, rfl⟩,
      rfl, rfl, fun _ _ _ flying _ => flying⟩
    intro worker' msg' held
    by_cases own : worker' = worker
    · subst own
      simp at held
    · simpa only [Function.update_of_ne own] using held
  | endAgent agent succeeds =>
    simp only [step] at stepped
    split at stepped
    · cases stepped
      refine ⟨fun _ _ _ sent => sent, fun _ _ found => found, fun _ _ held => held, ?_, fun _ r found => ⟨r, found, rfl⟩,
        rfl, rfl, fun _ _ _ flying _ => flying⟩
      intro id msg' runs
      by_cases own : id = agent
      · subst own
        simp at runs
      · simpa only [Function.update_of_ne own] using runs
    · cases stepped
  | crash =>
    cases stepped
    exact ⟨fun _ _ _ sent => sent, (fun _ _ found => by cases found), (fun _ _ held => by cases held),
      (fun _ _ runs => by cases runs), (fun _ _ found => by cases found), rfl, rfl, fun _ _ found => by cases found⟩

/-! ## The invariant -/

/-- The agent run of a message, or the delivery that will start it. -/
inductive HoldsAgent (s : State) (msg : MsgId) (id : Nat) : Prop
  | task {t : Task} {message : JobMessage} (found : s.tasks id = some t) (own : t.msg = msg)
      (open' : t.stage.isOpen = true) (sent : s.sent msg = some message)
      (aimed : target message t.answers = some .agent)
  | run (runs : s.agents id = some msg)

theorem HoldsAgent.unfinished (holds : HoldsAgent s msg id) : Unfinished s msg .agent := by
  cases holds with
  | task found own open' sent aimed => exact .task found own open' sent aimed
  | run runs => exact .agent runs

/-- Message numbers are given once, and what is queued has been sent. -/
structure Filed (s : State) : Prop where
  known : ∀ msg message, s.sent msg = some message → msg < s.nextMsg
  backed : ∀ msg, s.queued msg = true → ∃ message, s.sent msg = some message

/-- Every task is at a stage for its message, and workflow messages are run as workflows,
    other ones by workers and agents. -/
structure Placed (s : State) : Prop where
  filed : Filed s
  routed : ∀ id t, s.tasks id = some t → ∃ message, s.sent t.msg = some message ∧ StageFits message t
  running : ∀ run r, s.runs run = some r → ∃ message, s.sent r.msg = some message ∧ message.isWorkflow = true
  posted : ∀ worker msg, s.jobs worker msg = true → ∃ message, s.sent msg = some message ∧ message.isWorkflow = false
  invited : ∀ agent msg, s.agents agent = some msg → ∃ message, s.sent msg = some message ∧ message.isWorkflow = false

structure Sound (s : State) : Prop where
  placed : Placed s
  numbered : ∀ id t, s.tasks id = some t →
    1 ≤ t.delivery ∧ t.delivery ≤ s.readCt t.msg ∧ (t.msg, t.delivery) ∉ s.started
  distinct : ∀ id id' t t', s.tasks id = some t → s.tasks id' = some t' → t.msg = t'.msg →
    t.delivery = t'.delivery → id = id'
  counted : ∀ msg delivery, (msg, delivery) ∈ s.started →
    1 ≤ delivery ∧ delivery ≤ maxDeliveries ∧ delivery ≤ s.readCt msg
  once : s.started.Nodup
  flying : ∀ run r, s.runs run = some r → s.inFlight r.msg = true
  lone : ∀ run run' r r', s.runs run = some r → s.runs run' = some r' → r.msg = r'.msg → run = run'
  agreed : ∀ msg goal goal', Unfinished s msg goal → Unfinished s msg goal' → goal = goal'
  capped : ∀ id t message, s.tasks id = some t → s.sent t.msg = some message → t.stage.isOpen = true →
    target message t.answers = some .agent → t.delivery ≤ maxDeliveries
  alone : ∀ msg id id', HoldsAgent s msg id → HoldsAgent s msg id' → id = id'

theorem Placed.initial : Placed initial where
  filed := ⟨(fun _ _ sent => nomatch sent), fun _ queued => nomatch queued⟩
  routed _ _ found := nomatch found
  running _ _ found := nomatch found
  posted _ _ held := nomatch held
  invited _ _ runs := nomatch runs

theorem Sound.initial : Sound initial where
  placed := Placed.initial
  numbered _ _ found := nomatch found
  distinct _ _ _ _ found := nomatch found
  counted _ _ mem := nomatch mem
  once := List.nodup_nil
  flying _ _ found := nomatch found
  lone _ _ _ _ found := nomatch found
  agreed _ _ _ unfinished := by
    cases unfinished with
    | task found => cases found
    | job held => cases held
    | agent runs => cases runs
  capped _ _ _ found := nomatch found
  alone _ _ _ holds := by
    cases holds with
    | task found => cases found
    | run runs => cases runs

/-- What is running is bounded by who runs it. -/
theorem Sound.running_unique (sound : Sound s) {first second : Runner} (running : Running s msg first)
    (running' : Running s msg second) : first = second := by
  -- A workflow message runs as a workflow only.
  have apart {run : Nat} {r : RunTask} (found : s.runs run = some r) (own : r.msg = msg)
      (other : ∃ message, s.sent msg = some message ∧ message.isWorkflow = false) : False := by
    obtain ⟨message, sent, workflow⟩ := sound.placed.running run r found
    obtain ⟨message', sent', plain⟩ := other
    rw [own, sent'] at sent
    cases sent
    rw [plain] at workflow
    cases workflow
  cases running with
  | workflow found own =>
    cases running' with
    | workflow found' own' => rw [sound.lone _ _ _ _ found found' (own.trans own'.symm)]
    | worker held => exact (apart found own (sound.placed.posted _ _ held)).elim
    | agent runs => exact (apart found own (sound.placed.invited _ _ runs)).elim
  | worker held =>
    cases running' with
    | workflow found own => exact (apart found own (sound.placed.posted _ _ held)).elim
    | worker held' =>
      obtain rfl := Target.worker.inj (sound.agreed msg _ _ (.job held) (.job held'))
      rfl
    | agent runs => exact nomatch sound.agreed msg _ _ (.job held) (.agent runs)
  | agent runs =>
    cases running' with
    | workflow found own => exact (apart found own (sound.placed.invited _ _ runs)).elim
    | worker held => exact nomatch sound.agreed msg _ _ (.agent runs) (.job held)
    | agent runs' => rw [sound.alone msg _ _ (.run runs) (.run runs')]

/-- Each run of a message has a delivery of its own, and the deliveries that start one
    are within the cap. -/
theorem Sound.started_le (sound : Sound s) (msg : MsgId) : (s.started.map Prod.fst).count msg ≤ maxDeliveries := by
  have numbers : ((s.started.filter fun entry => decide (entry.1 = msg)).map Prod.snd).Nodup := by
    apply List.Nodup.map_on _ (sound.once.filter _)
    rintro ⟨first, delivery⟩ mem ⟨second, delivery'⟩ mem' same
    have own : first = msg := by simpa using (List.mem_filter.mp mem).2
    have own' : second = msg := by simpa using (List.mem_filter.mp mem').2
    rw [own, own', Prod.mk.injEq]
    exact ⟨rfl, same⟩
  have bounded : (s.started.filter fun entry => decide (entry.1 = msg)).map Prod.snd ⊆ List.range' 1 maxDeliveries := by
    intro delivery mem
    obtain ⟨⟨other, delivery⟩, entry, rfl⟩ := List.mem_map.mp mem
    obtain ⟨positive, capped, -⟩ := sound.counted other delivery (List.mem_filter.mp entry).1
    rw [List.mem_range'_1]
    omega
  have length := numbers.length_le_of_subset bounded
  rw [List.length_map, List.length_range'] at length
  rw [List.count_eq_countP, List.countP_map, List.countP_eq_length_filter]
  convert length using 3
  funext entry
  exact beq_eq_decide ..

/-! ## The invariant is kept -/

theorem Placed.shrinks (placed : Placed s) (shrinks : Shrinks s next) (filed : Filed next) : Placed next := by
  have sent {msg : MsgId} {message : JobMessage} (sent : s.sent msg = some message) : next.sent msg = some message :=
    shrinks.sent msg message (placed.filed.known msg message sent) sent
  refine ⟨filed, ?_, ?_, ?_, ?_⟩
  · intro id t found
    obtain ⟨message, sent', fits⟩ := placed.routed id t (shrinks.tasks id t found)
    exact ⟨message, sent sent', fits⟩
  · intro run r found
    obtain ⟨r', found', same⟩ := shrinks.runs run r found
    obtain ⟨message, sent', workflow⟩ := placed.running run r' found'
    rw [same] at sent'
    exact ⟨message, sent sent', workflow⟩
  · intro worker msg held
    obtain ⟨message, sent', plain⟩ := placed.posted worker msg (shrinks.jobs worker msg held)
    exact ⟨message, sent sent', plain⟩
  · intro agent msg runs
    obtain ⟨message, sent', plain⟩ := placed.invited agent msg (shrinks.agents agent msg runs)
    exact ⟨message, sent sent', plain⟩

theorem Sound.shrinks (sound : Sound s) (shrinks : Shrinks s next) (filed : Filed next) : Sound next := by
  have sent {msg : MsgId} {message : JobMessage} (sent : s.sent msg = some message) : next.sent msg = some message :=
    shrinks.sent msg message (sound.placed.filed.known msg message sent) sent
  have task {id : Nat} {t : Task} (found : next.tasks id = some t) {message : JobMessage}
      (sent' : next.sent t.msg = some message) : s.tasks id = some t ∧ s.sent t.msg = some message := by
    have found := shrinks.tasks id t found
    obtain ⟨message', sent'', -⟩ := sound.placed.routed id t found
    cases (sent sent'').symm.trans sent'
    exact ⟨found, sent''⟩
  have unfinished {msg : MsgId} {goal : Target} (unfinished : Unfinished next msg goal) : Unfinished s msg goal := by
    cases unfinished with
    | task found own open' sent' aimed =>
      subst own
      obtain ⟨found, sent'⟩ := task found sent'
      exact .task found rfl open' sent' aimed
    | job held => exact .job (shrinks.jobs _ _ held)
    | agent runs => exact .agent (shrinks.agents _ _ runs)
  have holds {msg : MsgId} {id : Nat} (holds : HoldsAgent next msg id) : HoldsAgent s msg id := by
    cases holds with
    | task found own open' sent' aimed =>
      subst own
      obtain ⟨found, sent'⟩ := task found sent'
      exact .task found rfl open' sent' aimed
    | run runs => exact .run (shrinks.agents _ _ runs)
  refine ⟨sound.placed.shrinks shrinks filed, ?_, ?_, ?_, ?_, ?_, ?_, ?_, ?_, ?_⟩
  · intro id t found
    rw [shrinks.readCt, shrinks.started]
    exact sound.numbered id t (shrinks.tasks id t found)
  · intro id id' t t' found found'
    exact sound.distinct id id' t t' (shrinks.tasks id t found) (shrinks.tasks id' t' found')
  · rw [shrinks.started, shrinks.readCt]
    exact sound.counted
  · rw [shrinks.started]
    exact sound.once
  · intro run r found
    obtain ⟨r', found', same⟩ := shrinks.runs run r found
    have flies := sound.flying run r' found'
    rw [same] at flies
    apply shrinks.inFlight run r found flies
    intro other r'' found'' same'
    exact sound.lone other run r'' r' found'' found' (same'.trans same.symm)
  · intro run run' r r' found found' same
    obtain ⟨r₁, found₁, same₁⟩ := shrinks.runs run r found
    obtain ⟨r₂, found₂, same₂⟩ := shrinks.runs run' r' found'
    exact sound.lone run run' r₁ r₂ found₁ found₂ (same₁.trans (same.trans same₂.symm))
  · intro msg goal goal' first second
    exact sound.agreed msg goal goal' (unfinished first) (unfinished second)
  · intro id t message found sent' open' aimed
    obtain ⟨found, sent'⟩ := task found sent'
    exact sound.capped id t message found sent' open' aimed
  · intro msg id id' first second
    exact sound.alone msg id id' (holds first) (holds second)

theorem queued_of_remove {other : MsgId} {succeeds : Bool}
    (queued : (s.remove msg succeeds).queued other = true) : s.queued other = true := by
  cases succeeds with
  | false => exact queued
  | true =>
    by_cases own : other = msg
    · subst own
      simp [State.remove] at queued
    · simpa [State.remove, own] using queued

theorem Filed.remove (filed : Filed s) (msg : MsgId) (succeeds : Bool) : Filed (s.remove msg succeeds) :=
  ⟨filed.known, fun _ queued => filed.backed _ (queued_of_remove queued)⟩

theorem Filed.enqueue (filed : Filed s) (message : JobMessage) : Filed (s.enqueue message) := by
  constructor
  · intro msg message' sent
    by_cases own : msg = s.nextMsg
    · rw [own]
      exact Nat.lt_succ_self _
    · simp only [State.enqueue, Function.update_of_ne own] at sent
      exact Nat.lt_succ_of_lt (filed.known msg message' sent)
  · intro msg queued
    by_cases own : msg = s.nextMsg
    · subst own
      exact ⟨message, Function.update_self ..⟩
    · simp only [State.enqueue, Function.update_of_ne own] at queued ⊢
      exact filed.backed msg queued

theorem Filed.dispatch (filed : Filed s) (id : Nat) (t : Task) (message : JobMessage) :
    Filed (s.dispatch id t message) := by
  unfold State.dispatch Task.dispatch
  cases t.stage with
  | inviting => dsimp only; split <;> exact ⟨filed.known, filed.backed⟩
  | lookingUp => dsimp only; split <;> exact ⟨filed.known, filed.backed⟩
  | creating => dsimp only; split <;> exact ⟨filed.known, filed.backed⟩
  | closing exec after => cases exec <;> exact ⟨filed.known, filed.backed⟩
  | archiving =>
    have removed := filed.remove t.msg t.answers.archived
    exact ⟨removed.known, removed.backed⟩
  | failing exec =>
    have removed := filed.remove t.msg t.answers.deleted
    exact ⟨removed.known, removed.backed⟩
  | _ => exact ⟨filed.known, filed.backed⟩

theorem Filed.step (filed : Filed s) (stepped : step s action = some next) : Filed next := by
  cases action with
  | enqueue message =>
    cases stepped
    exact filed.enqueue message
  | enqueueManual appId userId =>
    cases stepped
    have enqueued := filed.enqueue (State.manualMessage appId userId s.nextExec)
    exact ⟨enqueued.known, enqueued.backed⟩
  | expire msg | heartbeat msg | stopWorker worker | crash =>
    cases stepped
    exact ⟨filed.known, filed.backed⟩
  | poll msg task answers =>
    simp only [Scheduler.step] at stepped
    split at stepped
    · cases stepped
      exact ⟨filed.known, filed.backed⟩
    · cases stepped
  | dispatch task =>
    simp only [Scheduler.step] at stepped
    split at stepped
    · obtain ⟨message, -, rfl⟩ := Option.map_eq_some_iff.mp stepped
      exact filed.dispatch task _ message
    · cases stepped
  | load run succeeds =>
    simp only [Scheduler.step] at stepped
    split at stepped
    · split at stepped
      · cases stepped
        unfold State.load
        repeat' split
        all_goals exact ⟨filed.known, filed.backed⟩
      · cases stepped
    · cases stepped
  | record run status succeeds =>
    simp only [Scheduler.step] at stepped
    split at stepped
    · split at stepped
      · cases stepped
        unfold State.record
        split <;> exact ⟨filed.known, filed.backed⟩
      · cases stepped
    · cases stepped
  | archive run succeeds =>
    simp only [Scheduler.step] at stepped
    split at stepped
    · split at stepped
      · cases stepped
        next r _ _ =>
        have removed := filed.remove r.msg succeeds
        exact ⟨removed.known, removed.backed⟩
      · cases stepped
    · cases stepped
  | panicRun run =>
    simp only [Scheduler.step] at stepped
    split at stepped
    · cases stepped
      exact ⟨filed.known, filed.backed⟩
    · cases stepped
  | endJob worker msg succeeds =>
    simp only [Scheduler.step] at stepped
    split at stepped
    · cases stepped
      have removed := filed.remove msg succeeds
      exact ⟨removed.known, removed.backed⟩
    · cases stepped
  | endAgent agent succeeds =>
    simp only [Scheduler.step] at stepped
    split at stepped
    · cases stepped
      next msg _ =>
      have removed := filed.remove msg succeeds
      exact ⟨removed.known, removed.backed⟩
    · cases stepped

theorem poll_tasks {id' : Nat} (found : (s.poll msg id answers).tasks id' = some t) :
    s.tasks id' = some t ∨ id' = id ∧ t = ⟨msg, s.readCt msg + 1, answers, .handling⟩ := by
  by_cases same : id' = id
  · subst same
    simp only [State.poll, Function.update_self, Option.some.injEq] at found
    exact .inr ⟨rfl, found.symm⟩
  · simp only [State.poll, Function.update_of_ne same] at found
    exact .inl found

theorem Placed.poll (placed : Placed s) (sent : s.sent msg = some message) :
    Placed (s.poll msg id answers) := by
  refine ⟨⟨placed.filed.known, placed.filed.backed⟩, ?_, placed.running, placed.posted, placed.invited⟩
  intro id' t found
  rcases poll_tasks found with found | ⟨-, rfl⟩
  · exact placed.routed id' t found
  · exact ⟨message, sent, trivial⟩

theorem Sound.poll (sound : Sound s) {message : JobMessage} (sent : s.sent msg = some message)
    (separate : Separate s (.poll msg id answers)) : Sound (s.poll msg id answers) := by
  have more (msg' : MsgId) : s.readCt msg' ≤ (s.poll msg id answers).readCt msg' := by
    by_cases same : msg' = msg
    · subst same
      simp [State.poll]
    · simp [State.poll, same]
  have unfinished {msg' : MsgId} {goal : Target} (unfinished : Unfinished (s.poll msg id answers) msg' goal) :
      Unfinished s msg' goal ∨ msg' = msg ∧ target message answers = some goal := by
    cases unfinished with
    | task found own open' sent' aimed =>
      rcases poll_tasks found with found | ⟨-, rfl⟩
      · exact .inl (.task found own open' sent' aimed)
      · subst own
        cases sent.symm.trans sent'
        exact .inr ⟨rfl, aimed⟩
    | job held => exact .inl (.job held)
    | agent runs => exact .inl (.agent runs)
  have holds {msg' : MsgId} {id' : Nat} (holds : HoldsAgent (s.poll msg id answers) msg' id') :
      HoldsAgent s msg' id' ∨ id' = id ∧ msg' = msg ∧ target message answers = some .agent := by
    cases holds with
    | task found own open' sent' aimed =>
      rcases poll_tasks found with found | ⟨same, rfl⟩
      · exact .inl (.task found own open' sent' aimed)
      · subst own
        cases sent.symm.trans sent'
        exact .inr ⟨same, rfl, aimed⟩
    | run runs => exact .inl (.run runs)
  refine ⟨sound.placed.poll sent, ?_, ?_, ?_, sound.once, sound.flying, sound.lone, ?_, ?_, ?_⟩
  · intro id' t found
    rcases poll_tasks found with found | ⟨-, rfl⟩
    · obtain ⟨positive, below, unstarted⟩ := sound.numbered id' t found
      exact ⟨positive, Nat.le_trans below (more _), unstarted⟩
    · refine ⟨Nat.le_add_left 1 _, by simp [State.poll], ?_⟩
      intro mem
      obtain ⟨-, -, below⟩ := sound.counted msg _ mem
      exact absurd below (Nat.not_succ_le_self _)
  · intro id₁ id₂ t₁ t₂ found₁ found₂ same delivery
    rcases poll_tasks found₁ with before₁ | ⟨rfl, rfl⟩
    · rcases poll_tasks found₂ with before₂ | ⟨-, rfl⟩
      · exact sound.distinct id₁ id₂ t₁ t₂ before₁ before₂ same delivery
      · obtain ⟨-, below, -⟩ := sound.numbered id₁ t₁ before₁
        rw [same, delivery] at below
        exact absurd below (Nat.not_succ_le_self _)
    · rcases poll_tasks found₂ with before₂ | ⟨same, -⟩
      · obtain ⟨-, below, -⟩ := sound.numbered id₂ t₂ before₂
        rw [← same, ← delivery] at below
        exact absurd below (Nat.not_succ_le_self _)
      · exact same.symm
  · intro msg' delivery mem
    obtain ⟨positive, capped, below⟩ := sound.counted msg' delivery mem
    exact ⟨positive, capped, Nat.le_trans below (more msg')⟩
  · intro msg' goal goal' first second
    rcases unfinished first with before | ⟨rfl, aimed⟩
    · rcases unfinished second with before' | ⟨rfl, aimed⟩
      · exact sound.agreed msg' goal goal' before before'
      · exact ((separate message goal' sent aimed).1 goal before).1
    · rcases unfinished second with before' | ⟨-, aimed'⟩
      · exact ((separate message goal sent aimed).1 goal' before').1.symm
      · exact Option.some.inj (aimed.symm.trans aimed')
  · intro id' t message' found sent' open' aimed
    rcases poll_tasks found with found | ⟨-, rfl⟩
    · exact sound.capped id' t message' found sent' open' aimed
    · cases sent.symm.trans sent'
      exact (separate message .agent sent aimed).2 rfl
  · intro msg' id₁ id₂ first second
    rcases holds first with before | ⟨rfl, rfl, aimed⟩
    · rcases holds second with before' | ⟨rfl, rfl, aimed⟩
      · exact sound.alone msg' id₁ id₂ before before'
      · exact absurd rfl ((separate message .agent sent aimed).1 .agent before.unfinished).2
    · rcases holds second with before' | ⟨same, -, -⟩
      · exact absurd rfl ((separate message .agent sent aimed).1 .agent before'.unfinished).2
      · exact same.symm

theorem dispatch_found {id' : Nat} {t' : Task} (found : s.tasks id = some t)
    (found' : (s.dispatch id t message).tasks id' = some t') :
    (id' ≠ id ∧ s.tasks id' = some t') ∨
      (id' = id ∧ ∃ stage, (t.dispatch id s message).2 = some stage ∧ t' = { t with stage }) := by
  by_cases own : id' = id
  · subst own
    rw [dispatch_own, Option.map_eq_some_iff] at found'
    obtain ⟨stage, continued, rfl⟩ := found'
    exact .inr ⟨rfl, stage, continued, rfl⟩
  · rw [dispatch_other own] at found'
    exact .inl ⟨own, found'⟩

theorem Placed.dispatch (placed : Placed s) (found : s.tasks id = some t) (sent : s.sent t.msg = some message) :
    Placed (s.dispatch id t message) := by
  obtain ⟨message', sent', fits⟩ := placed.routed id t found
  cases sent.symm.trans sent'
  obtain ⟨same, -⟩ := dispatch_sent t id s message
  have staged := fits
  unfold StageFits at staged
  have starts := starts_dispatch t id s message
  refine ⟨placed.filed.dispatch id t message, ?_, ?_, ?_, ?_⟩
  · intro id' t' found'
    rw [same]
    rcases dispatch_found found found' with ⟨-, before⟩ | ⟨-, stage, continued, rfl⟩
    · exact placed.routed id' t' before
    · exact ⟨message, sent, stageFits_dispatch fits continued⟩
  · intro run r found'
    rw [same]
    cases starts with
    | nothing _ _ _ runs => rw [runs] at found'; exact placed.running run r found'
    | agent _ _ _ _ _ runs => rw [runs] at found'; exact placed.running run r found'
    | job _ _ _ _ _ runs => rw [runs] at found'; exact placed.running run r found'
    | run stage _ _ _ _ _ runs =>
      rw [runs] at found'
      by_cases own : run = id
      · rw [own, Function.update_self, Option.some.injEq] at found'
        rw [stage] at staged
        rw [← found']
        exact ⟨message, sent, staged.1⟩
      · rw [Function.update_of_ne own] at found'
        exact placed.running run r found'
  · intro worker msg held
    rw [same]
    cases starts with
    | nothing _ jobs => rw [jobs] at held; exact placed.posted worker msg held
    | agent _ _ _ jobs => rw [jobs] at held; exact placed.posted worker msg held
    | run _ _ _ _ jobs => rw [jobs] at held; exact placed.posted worker msg held
    | @job key stage _ _ jobs =>
      rw [jobs] at held
      rw [stage] at staged
      by_cases own : worker = key
      · by_cases mine : msg = t.msg
        · rw [mine]
          exact ⟨message, sent, not_isWorkflow (.inr staged.1)⟩
        · rw [own, Function.update_self, Function.update_of_ne mine] at held
          exact placed.posted key msg held
      · rw [Function.update_of_ne own] at held
        exact placed.posted worker msg held
  · intro agent msg runs
    rw [same]
    cases starts with
    | nothing _ _ agents => rw [agents] at runs; exact placed.invited agent msg runs
    | job _ _ _ _ agents => rw [agents] at runs; exact placed.invited agent msg runs
    | run _ _ _ _ _ agents => rw [agents] at runs; exact placed.invited agent msg runs
    | agent stage _ _ _ agents =>
      rw [agents] at runs
      rw [stage] at staged
      by_cases own : agent = id
      · rw [own, Function.update_self, Option.some.injEq] at runs
        rw [← runs]
        exact ⟨message, sent, not_isWorkflow (.inl staged)⟩
      · rw [Function.update_of_ne own] at runs
        exact placed.invited agent msg runs

theorem Sound.holds_dispatch (sound : Sound s) (found : s.tasks id = some t)
    (sent : s.sent t.msg = some message) {id' : Nat} (holds : HoldsAgent (s.dispatch id t message) msg id') :
    HoldsAgent s msg id' := by
  obtain ⟨message', sent', fits⟩ := sound.placed.routed id t found
  cases sent.symm.trans sent'
  cases holds with
  | task found' own open' sent' aimed =>
    rw [(dispatch_sent t id s message).1] at sent'
    rcases dispatch_found found found' with ⟨-, before⟩ | ⟨rfl, stage, continued, rfl⟩
    · exact .task before own open' sent' aimed
    · exact .task found own (isOpen_dispatch continued open') sent' aimed
  | run runs =>
    cases starts_dispatch t id s message with
    | nothing _ _ agents => exact .run (by rwa [agents] at runs)
    | job _ _ _ _ agents => exact .run (by rwa [agents] at runs)
    | run _ _ _ _ _ agents => exact .run (by rwa [agents] at runs)
    | agent stage _ _ _ agents =>
      rw [agents] at runs
      by_cases own : id' = id
      · subst own
        rw [Function.update_self, Option.some.injEq] at runs
        subst runs
        unfold StageFits at fits
        rw [stage] at fits
        exact .task found rfl (by rw [stage]; rfl) sent (by simp [target, fits])
      · rw [Function.update_of_ne own] at runs
        exact .run runs

theorem Sound.unfinished_dispatch (sound : Sound s) (found : s.tasks id = some t)
    (sent : s.sent t.msg = some message) {goal : Target}
    (unfinished : Unfinished (s.dispatch id t message) msg goal) : Unfinished s msg goal := by
  obtain ⟨message', sent', fits⟩ := sound.placed.routed id t found
  cases sent.symm.trans sent'
  have started := starts_dispatch t id s message
  cases unfinished with
  | task found' own open' sent' aimed =>
    rw [(dispatch_sent t id s message).1] at sent'
    rcases dispatch_found found found' with ⟨-, before⟩ | ⟨-, stage, continued, rfl⟩
    · exact .task before own open' sent' aimed
    · exact .task found own (isOpen_dispatch continued open') sent' aimed
  | @job worker held =>
    cases started with
    | nothing _ jobs => exact .job (by rwa [jobs] at held)
    | agent _ _ _ jobs => exact .job (by rwa [jobs] at held)
    | run _ _ _ _ jobs => exact .job (by rwa [jobs] at held)
    | @job key stage _ _ jobs =>
      rw [jobs] at held
      by_cases own : worker = key
      · subst own
        rw [Function.update_self] at held
        by_cases same : msg = t.msg
        · subst same
          unfold StageFits at fits
          rw [stage] at fits
          refine .task found rfl (by rw [stage]; rfl) sent ?_
          simp [target, fits.1, fits.2.1]
        · rw [Function.update_of_ne same] at held
          exact .job held
      · rw [Function.update_of_ne own] at held
        exact .job held
  | agent runs => exact (sound.holds_dispatch found sent (.run runs)).unfinished

theorem Sound.started_dispatch (sound : Sound s) (found : s.tasks id = some t) (sent : s.sent t.msg = some message) :
    (s.dispatch id t message).started = s.started ∨
      (s.dispatch id t message).started = s.started ++ [(t.msg, t.delivery)] ∧
        (s.dispatch id t message).tasks id = none ∧ t.delivery ≤ maxDeliveries := by
  obtain ⟨message', sent', fits⟩ := sound.placed.routed id t found
  cases sent.symm.trans sent'
  unfold StageFits at fits
  cases starts_dispatch t id s message with
  | nothing started => exact .inl started
  | agent stage ended started =>
    rw [stage] at fits
    refine .inr ⟨started, ended, sound.capped id t message found sent (by rw [stage]; rfl) ?_⟩
    simp [target, fits]
  | job stage ended started =>
    rw [stage] at fits
    exact .inr ⟨started, ended, fits.2.2⟩
  | run stage ended free started =>
    rw [stage] at fits
    exact .inr ⟨started, ended, fits.2⟩

theorem Sound.dispatch (sound : Sound s) (found : s.tasks id = some t) (sent : s.sent t.msg = some message) :
    Sound (s.dispatch id t message) := by
  obtain ⟨same, count⟩ := dispatch_sent t id s message
  obtain ⟨message', sent', fits⟩ := sound.placed.routed id t found
  cases sent.symm.trans sent'
  obtain ⟨positive, below, unstarted⟩ := sound.numbered id t found
  have starts := starts_dispatch t id s message
  -- A task keeps its message and its delivery.
  have origin {id' : Nat} {t' : Task} (found' : (s.dispatch id t message).tasks id' = some t') :
      ∃ t₀, s.tasks id' = some t₀ ∧ t₀.msg = t'.msg ∧ t₀.delivery = t'.delivery := by
    rcases dispatch_found found found' with ⟨-, before⟩ | ⟨rfl, stage, -, rfl⟩
    · exact ⟨t', before, rfl, rfl⟩
    · exact ⟨t, found, rfl, rfl⟩
  refine ⟨sound.placed.dispatch found sent, ?_, ?_, ?_, ?_, ?_, ?_, ?_, ?_, ?_⟩
  · intro id' t' found'
    obtain ⟨t₀, before, own, delivery⟩ := origin found'
    obtain ⟨positive', below', unstarted'⟩ := sound.numbered id' t₀ before
    rw [own, delivery] at unstarted'
    rw [own] at below'
    rw [delivery] at positive' below'
    rw [count]
    refine ⟨positive', below', ?_⟩
    rcases sound.started_dispatch found sent with started | ⟨started, ended, -⟩
    · rwa [started]
    · rw [started, List.mem_append, List.mem_singleton]
      rintro (mem | last)
      · exact unstarted' mem
      · obtain ⟨own', delivery'⟩ := Prod.mk.inj last
        obtain rfl := sound.distinct id' id t₀ t before found (own.trans own') (delivery.trans delivery')
        rw [ended] at found'
        cases found'
  · intro id₁ id₂ t₁ t₂ found₁ found₂ own delivery
    obtain ⟨t₁', before₁, own₁, delivery₁⟩ := origin found₁
    obtain ⟨t₂', before₂, own₂, delivery₂⟩ := origin found₂
    exact sound.distinct id₁ id₂ t₁' t₂' before₁ before₂ (own₁.trans (own.trans own₂.symm))
      (delivery₁.trans (delivery.trans delivery₂.symm))
  · intro msg delivery mem
    rw [count]
    rcases sound.started_dispatch found sent with started | ⟨started, -, capped⟩
    · rw [started] at mem
      exact sound.counted msg delivery mem
    · rw [started, List.mem_append, List.mem_singleton] at mem
      rcases mem with mem | last
      · exact sound.counted msg delivery mem
      · obtain ⟨rfl, rfl⟩ := Prod.mk.inj last
        exact ⟨positive, capped, below⟩
  · rcases sound.started_dispatch found sent with started | ⟨started, -, -⟩
    · rw [started]
      exact sound.once
    · rw [started, List.nodup_append]
      refine ⟨sound.once, List.nodup_singleton _, ?_⟩
      intro entry mem last own
      rw [List.mem_singleton.mp own]
      rintro rfl
      exact unstarted mem
  · intro run r found'
    cases starts with
    | nothing _ _ _ runs inFlight => rw [runs] at found'; rw [inFlight]; exact sound.flying run r found'
    | agent _ _ _ _ _ runs inFlight => rw [runs] at found'; rw [inFlight]; exact sound.flying run r found'
    | job _ _ _ _ _ runs inFlight => rw [runs] at found'; rw [inFlight]; exact sound.flying run r found'
    | run stage _ _ _ _ _ runs inFlight =>
      rw [runs] at found'
      rw [inFlight]
      by_cases mine : r.msg = t.msg
      · rw [mine]
        exact Function.update_self ..
      · have other : run ≠ id := by
          rintro rfl
          rw [Function.update_self, Option.some.injEq] at found'
          exact mine (by rw [← found'])
        rw [Function.update_of_ne other] at found'
        rw [Function.update_of_ne mine]
        exact sound.flying run r found'
  · intro run run' r r' found₁ found₂ own
    cases starts with
    | nothing _ _ _ runs => rw [runs] at found₁ found₂; exact sound.lone run run' r r' found₁ found₂ own
    | agent _ _ _ _ _ runs => rw [runs] at found₁ found₂; exact sound.lone run run' r r' found₁ found₂ own
    | job _ _ _ _ _ runs => rw [runs] at found₁ found₂; exact sound.lone run run' r r' found₁ found₂ own
    | run stage _ free _ _ _ runs =>
      rw [runs] at found₁ found₂
      -- The message was not in flight, so no other run has it.
      have lonely {run : Nat} {r : RunTask} (found : s.runs run = some r) : r.msg ≠ t.msg := by
        intro same
        have flies := sound.flying run r found
        rw [same, free] at flies
        cases flies
      by_cases first : run = id
      · by_cases second : run' = id
        · exact first.trans second.symm
        · rw [first, Function.update_self, Option.some.injEq] at found₁
          rw [Function.update_of_ne second] at found₂
          rw [← found₁] at own
          exact absurd own.symm (lonely found₂)
      · rw [Function.update_of_ne first] at found₁
        by_cases second : run' = id
        · rw [second, Function.update_self, Option.some.injEq] at found₂
          rw [← found₂] at own
          exact absurd own (lonely found₁)
        · rw [Function.update_of_ne second] at found₂
          exact sound.lone run run' r r' found₁ found₂ own
  · intro msg goal goal' first second
    exact sound.agreed msg goal goal' (sound.unfinished_dispatch found sent first)
      (sound.unfinished_dispatch found sent second)
  · intro id' t' message' found' sent' open' aimed
    rw [same] at sent'
    rcases dispatch_found found found' with ⟨-, before⟩ | ⟨rfl, stage, continued, rfl⟩
    · exact sound.capped id' t' message' before sent' open' aimed
    · exact sound.capped id' t message' found sent' (isOpen_dispatch continued open') aimed
  · intro msg id₁ id₂ first second
    exact sound.alone msg id₁ id₂ (sound.holds_dispatch found sent first) (sound.holds_dispatch found sent second)

theorem Sound.step (sound : Sound s) (stepped : step s action = some next) (separate : Separate s action) :
    Sound next := by
  by_cases dispatched : ∃ task, action = .dispatch task
  · obtain ⟨task, rfl⟩ := dispatched
    simp only [Scheduler.step] at stepped
    split at stepped
    · obtain ⟨message, sent, rfl⟩ := Option.map_eq_some_iff.mp stepped
      exact sound.dispatch (by assumption) sent
    · cases stepped
  · by_cases polled : ∃ msg task answers, action = .poll msg task answers
    · obtain ⟨msg, task, answers, rfl⟩ := polled
      simp only [Scheduler.step] at stepped
      split at stepped
      · next visible =>
        cases stepped
        simp only [Bool.and_eq_true] at visible
        obtain ⟨⟨⟨⟨queued, -⟩, -⟩, -⟩, -⟩ := visible
        obtain ⟨message, sent⟩ := sound.placed.filed.backed msg queued
        exact sound.poll sent separate
      · cases stepped
    · apply sound.shrinks _ (sound.placed.filed.step stepped)
      exact Shrinks.of_step stepped (fun task same => dispatched ⟨task, same⟩)
        fun msg task answers same => polled ⟨msg, task, answers, same⟩

/-- In every run in which the deliveries of a message are kept apart as `Separate` says,
    at most one run of a message is in progress in every state, and a message has been
    run at most as often as the cap allows. -/
theorem one_run_at_a_time {actions : List Action} (ran : Runs.run step initial actions = some s)
    (separate : Along step Separate initial actions) :
    (∀ msg first second, Running s msg first → Running s msg second → first = second) ∧
      ∀ msg, (s.started.map Prod.fst).count msg ≤ maxDeliveries := by
  have sound : Sound s := Runs.run_along (fun sound stepped met => Sound.step sound stepped met) Sound.initial ran separate
  exact ⟨fun _ _ _ first second => sound.running_unique first second, sound.started_le⟩

/-! ## An agent whose lease runs out -/

def agentMessage : JobMessage where
  kind := some .hook
  appId := ['a']
  userId := some 7
  actionType := some "agent"
  executionId := none
  hookWorkflow := none
  cronWorkflow := none

/-- A delivery of the agent's message, up to the start of its run. -/
def invited (task : Nat) : List Action := [.poll 0 task passing, .dispatch task, .dispatch task]

/-- The first delivery of an agent job starts its only run. -/
theorem invited_once : ∃ s, Runs.run step initial (.enqueue agentMessage :: invited 0) = some s ∧ s.agents 0 = some 0 ∧
    (∀ msg first second, Running s msg first → Running s msg second → first = second) ∧
      ∀ msg, (s.started.map Prod.fst).count msg ≤ maxDeliveries := by
  have ended : (Runs.run step initial (.enqueue agentMessage :: invited 0)).map (State.agents · 0) = some (some 0) := rfl
  obtain ⟨s, ran, runs⟩ := Option.map_eq_some_iff.mp ended
  refine ⟨s, ran, runs, one_run_at_a_time ran ?_⟩
  refine .cons trivial rfl (.cons ?_ rfl (.cons trivial rfl (.cons trivial rfl trivial)))
  intro message goal sent aimed
  refine ⟨fun other unfinished => ?_, fun _ => by decide⟩
  cases unfinished with
  | task found => cases found
  | job held => cases held
  | agent runs => cases runs

/-- The lease of an agent job is not kept alive: when it runs out, the message is
    delivered again and a second run starts beside the first; and the sixth delivery is
    run like the others. -/
theorem agent_run_twice :
    (∃ s, Runs.run step initial (.enqueue agentMessage :: invited 0 ++ .expire 0 :: invited 1) = some s ∧
      Running s 0 (.agent 0) ∧ Running s 0 (.agent 1)) ∧
    ∃ s, Runs.run step initial (.enqueue agentMessage :: (List.range 6).flatMap fun task =>
        invited task ++ [Action.crash, .expire 0]) = some s ∧
      (s.started.map Prod.fst).count 0 = 6 := by
  constructor
  · have ended : (Runs.run step initial (.enqueue agentMessage :: invited 0 ++ .expire 0 :: invited 1)).map
        (fun s => (s.agents 0, s.agents 1)) = some (some 0, some 0) := rfl
    obtain ⟨s, ran, runs⟩ := Option.map_eq_some_iff.mp ended
    obtain ⟨first, second⟩ := Prod.mk.inj runs
    exact ⟨s, ran, .agent first, .agent second⟩
  · have ended : (Runs.run step initial (.enqueue agentMessage :: (List.range 6).flatMap fun task =>
        invited task ++ [Action.crash, .expire 0])).map (fun s => (s.started.map Prod.fst).count 0) = some 6 := rfl
    obtain ⟨s, ran, count⟩ := Option.map_eq_some_iff.mp ended
    exact ⟨s, ran, count⟩

end RootCx.Scheduler
