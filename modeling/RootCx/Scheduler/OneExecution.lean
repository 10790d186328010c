import RootCx.Scheduler.Dispatch

/-! # One execution for each triggered message

The execution of a triggered message is found again by the message it is bound to,
and the runner clears that column when it finishes.  So the message has one execution
only as long as no delivery looks for it when it has finished, when the query fails,
or when another delivery is about to create it.
-/

namespace RootCx.Scheduler

open Runs (Along)

variable {s next : State} {id : Nat} {t : Task} {message : JobMessage}

/-! ## What the steps leave alone -/

theorem dispatch_tasks (t : Task) (id : Nat) (s : State) (message : JobMessage) :
    (t.dispatch id s message).1.tasks = s.tasks := by
  unfold Task.dispatch
  cases t.stage with
  | inviting => dsimp only; split <;> rfl
  | lookingUp => dsimp only; split <;> rfl
  | creating => dsimp only; split <;> rfl
  | closing exec next => cases exec <;> rfl
  | _ => rfl

theorem dispatch_own (s : State) (id : Nat) (t : Task) (message : JobMessage) :
    (s.dispatch id t message).tasks id = (t.dispatch id s message).2.map fun stage => { t with stage } := by
  simp [State.dispatch]

theorem dispatch_other {other : Nat} (different : other ≠ id) :
    (s.dispatch id t message).tasks other = s.tasks other := by
  simp [State.dispatch, dispatch_tasks, different]

theorem dispatch_created (t : Task) (id : Nat) (s : State) (message : JobMessage) :
    (t.stage = .creating ∧ (s.dispatch id t message).created = s.created ++ [(t.msg, s.nextExec)] ∧
        (s.dispatch id t message).nextExec = s.nextExec + 1) ∨
      ((s.dispatch id t message).created = s.created ∧ (s.dispatch id t message).nextExec = s.nextExec) := by
  unfold State.dispatch Task.dispatch
  cases stage : t.stage with
  | inviting => right; dsimp only; split <;> exact ⟨rfl, rfl⟩
  | lookingUp => right; dsimp only; split <;> exact ⟨rfl, rfl⟩
  | creating =>
    dsimp only
    split
    · exact .inl ⟨rfl, rfl, rfl⟩
    · exact .inr ⟨rfl, rfl⟩
  | closing exec after => right; cases exec <;> exact ⟨rfl, rfl⟩
  | _ => exact .inr ⟨rfl, rfl⟩

/-- The stage before a creation is the lookup, and the lookup found nothing. -/
theorem dispatch_creating (continued : (t.dispatch id s message).2 = some .creating) :
    t.stage = .lookingUp ∧ (t.answers.lookedUp = true → s.inflightForLease t.msg = none) := by
  unfold Task.dispatch at continued
  cases stage : t.stage with
  | handling =>
    simp only [stage, Task.routed] at continued
    exfalso
    revert continued
    repeat' split
    all_goals simp
  | inviting =>
    simp only [stage] at continued
    split at continued <;> simp at continued
  | checking workflowId =>
    simp only [stage, Task.checked] at continued
    exfalso
    revert continued
    repeat' split
    all_goals simp
  | lookingUp =>
    refine ⟨rfl, fun answered => ?_⟩
    simp only [stage, answered, if_true] at continued
    split at continued
    · simp at continued
    · assumption
  | creating =>
    simp only [stage] at continued
    split at continued <;> simp at continued
  | binding exec =>
    simp only [stage, Task.admitted] at continued
    exfalso
    revert continued
    repeat' split
    all_goals simp
  | closing exec after =>
    simp only [stage] at continued
    cases exec <;> cases after <;> simp [Closing.stage] at continued
  | burying =>
    simp only [stage] at continued
    split at continued <;> simp at continued
  | failing exec =>
    simp only [stage] at continued
    cases exec <;> simp at continued
  | posting _ | spawning _ | expiring | archiving => simp [stage] at continued

variable {action : Action}

/-- The steps of everything but a dispatch task. -/
theorem step_aside (stepped : step s action = some next) (aside : ∀ task, action ≠ .dispatch task) :
    next.created = s.created ∧ s.nextExec ≤ next.nextExec ∧
      ∀ task t, next.tasks task = some t → s.tasks task = some t ∨ t.stage = .handling := by
  cases action with
  | dispatch task => exact absurd rfl (aside task)
  | enqueue message =>
    cases stepped
    exact ⟨rfl, Nat.le_refl _, fun _ _ found => .inl found⟩
  | enqueueManual appId userId =>
    cases stepped
    exact ⟨rfl, Nat.le_succ _, fun _ _ found => .inl found⟩
  | expire msg | heartbeat msg | stopWorker worker =>
    cases stepped
    exact ⟨rfl, Nat.le_refl _, fun _ _ found => .inl found⟩
  | poll msg task answers =>
    simp only [step] at stepped
    split at stepped
    · cases stepped
      refine ⟨rfl, Nat.le_refl _, fun other t found => ?_⟩
      by_cases own : other = task
      · subst own
        simp only [State.poll, Function.update_self, Option.some.injEq] at found
        exact .inr (by rw [← found])
      · simp only [State.poll, Function.update_of_ne own] at found
        exact .inl found
    · cases stepped
  | load run succeeds =>
    simp only [step] at stepped
    split at stepped
    · split at stepped
      · cases stepped
        unfold State.load
        repeat' split
        all_goals exact ⟨rfl, Nat.le_refl _, fun _ _ found => .inl found⟩
      · cases stepped
    · cases stepped
  | record run status succeeds =>
    simp only [step] at stepped
    split at stepped
    · split at stepped
      · cases stepped
        unfold State.record
        split
        all_goals exact ⟨rfl, Nat.le_refl _, fun _ _ found => .inl found⟩
      · cases stepped
    · cases stepped
  | archive run succeeds =>
    simp only [step] at stepped
    split at stepped
    · split at stepped
      · cases stepped
        exact ⟨rfl, Nat.le_refl _, fun _ _ found => .inl found⟩
      · cases stepped
    · cases stepped
  | panicRun run =>
    simp only [step] at stepped
    split at stepped
    · cases stepped
      exact ⟨rfl, Nat.le_refl _, fun _ _ found => .inl found⟩
    · cases stepped
  | endJob worker msg succeeds =>
    simp only [step] at stepped
    split at stepped
    · cases stepped
      exact ⟨rfl, Nat.le_refl _, fun _ _ found => .inl found⟩
    · cases stepped
  | endAgent agent succeeds =>
    simp only [step] at stepped
    split at stepped
    · cases stepped
      exact ⟨rfl, Nat.le_refl _, fun _ _ found => .inl found⟩
    · cases stepped
  | crash =>
    cases stepped
    exact ⟨rfl, Nat.le_refl _, fun _ _ found => nomatch found⟩

theorem inflightForLease_isSome {msg : MsgId} {exec : ExecId} (known : exec < s.nextExec)
    (live : (s.executions exec).any (·.liveFor msg) = true) : s.inflightForLease msg ≠ none := by
  intro absent
  have missed := List.find?_eq_none.mp absent exec (by simpa using known)
  exact missed live

/-! ## At most one execution -/

/-- What the deliveries that look for an execution meet: the query is answered, the
    executions of the message have not finished, and no other delivery is about to
    create one. -/
def LooksInTime (s : State) : Action → Prop
  | .dispatch task => ∀ t, s.tasks task = some t → t.stage = .lookingUp →
      t.answers.lookedUp = true ∧
      (∀ exec, (t.msg, exec) ∈ s.created → (s.executions exec).any (·.liveFor t.msg) = true) ∧
      ∀ other t', other ≠ task → s.tasks other = some t' → t'.msg = t.msg → t'.stage ≠ .creating
  | _ => True

structure Once (s : State) : Prop where
  distinct : (s.created.map Prod.fst).Nodup
  known : ∀ msg exec, (msg, exec) ∈ s.created → exec < s.nextExec
  waiting : ∀ task t, s.tasks task = some t → t.stage = .creating → t.msg ∉ s.created.map Prod.fst
  single : ∀ task task' t t', s.tasks task = some t → s.tasks task' = some t' → t.stage = .creating →
    t'.stage = .creating → t.msg = t'.msg → task = task'

theorem Once.initial : Once initial where
  distinct := List.nodup_nil
  known _ _ mem := nomatch mem
  waiting _ _ found := nomatch found
  single _ _ _ _ found := nomatch found

theorem Once.aside (once : Once s) (stepped : step s action = some next)
    (aside : ∀ task, action ≠ .dispatch task) : Once next := by
  obtain ⟨created, more, tasks⟩ := step_aside stepped aside
  have before (task : Nat) (t : Task) (found : next.tasks task = some t) (creating : t.stage = .creating) :
      s.tasks task = some t := by
    rcases tasks task t found with found | handling
    · exact found
    · rw [handling] at creating
      cases creating
  refine ⟨by rw [created]; exact once.distinct, ?_, ?_, ?_⟩
  · intro msg exec mem
    rw [created] at mem
    exact Nat.lt_of_lt_of_le (once.known msg exec mem) more
  · intro task t found creating
    rw [created]
    exact once.waiting task t (before task t found creating) creating
  · intro task task' t t' found found' creating creating'
    exact once.single task task' t t' (before task t found creating) (before task' t' found' creating') creating creating'

/-- A dispatch task that comes to the creation is the only one there, and the message has
    no execution. -/
theorem Once.alone (once : Once s) (found : s.tasks id = some t) (timely : LooksInTime s (.dispatch id))
    (continued : (t.dispatch id s message).2 = some .creating) :
    t.msg ∉ s.created.map Prod.fst ∧
      ∀ other t', other ≠ id → s.tasks other = some t' → t'.msg = t.msg → t'.stage ≠ .creating := by
  obtain ⟨looking, absent⟩ := dispatch_creating continued
  obtain ⟨answered, live, alone⟩ := timely t found looking
  refine ⟨fun mem => ?_, alone⟩
  obtain ⟨⟨msg, exec⟩, mem, rfl⟩ := List.mem_map.mp mem
  exact inflightForLease_isSome (once.known _ exec mem) (live exec mem) (absent answered)

theorem Once.dispatch (once : Once s) (found : s.tasks id = some t) (timely : LooksInTime s (.dispatch id)) :
    Once (s.dispatch id t message) := by
  -- A task at the creation was there before, or has just come there.
  have creators (task : Nat) (t' : Task) (found' : (s.dispatch id t message).tasks task = some t')
      (creating : t'.stage = .creating) :
      (task ≠ id ∧ s.tasks task = some t') ∨
        (task = id ∧ t'.msg = t.msg ∧ (t.dispatch id s message).2 = some .creating) := by
    by_cases own : task = id
    · subst own
      rw [dispatch_own, Option.map_eq_some_iff] at found'
      obtain ⟨stage, continued, rfl⟩ := found'
      exact .inr ⟨rfl, rfl, continued.trans (congrArg some creating)⟩
    · rw [dispatch_other own] at found'
      exact .inl ⟨own, found'⟩
  have fresh (task : Nat) (t' : Task) (found' : (s.dispatch id t message).tasks task = some t')
      (creating : t'.stage = .creating) : t'.msg ∉ s.created.map Prod.fst := by
    rcases creators task t' found' creating with ⟨-, found'⟩ | ⟨-, same, continued⟩
    · exact once.waiting task t' found' creating
    · rw [same]
      exact (once.alone found timely continued).1
  have single (task task' : Nat) (t₁ t₂ : Task) (found₁ : (s.dispatch id t message).tasks task = some t₁)
      (found₂ : (s.dispatch id t message).tasks task' = some t₂) (creating₁ : t₁.stage = .creating)
      (creating₂ : t₂.stage = .creating) (same : t₁.msg = t₂.msg) : task = task' := by
    rcases creators task t₁ found₁ creating₁ with ⟨other, before₁⟩ | ⟨rfl, own, continued⟩
    · rcases creators task' t₂ found₂ creating₂ with ⟨-, before₂⟩ | ⟨rfl, own, continued⟩
      · exact once.single task task' t₁ t₂ before₁ before₂ creating₁ creating₂ same
      · exact absurd creating₁ ((once.alone found timely continued).2 task t₁ other before₁ (same.trans own))
    · rcases creators task' t₂ found₂ creating₂ with ⟨other, before₂⟩ | ⟨rfl, -, -⟩
      · exact absurd creating₂ ((once.alone found timely continued).2 task' t₂ other before₂ (same.symm.trans own))
      · rfl
  rcases dispatch_created t id s message with ⟨creating, created, counted⟩ | ⟨created, counted⟩
  · have absent := once.waiting id t found creating
    refine ⟨?_, ?_, ?_, single⟩
    · rw [created, List.map_append, List.nodup_append]
      refine ⟨once.distinct, List.nodup_singleton _, ?_⟩
      intro msg mem other same
      rw [List.map_singleton, List.mem_singleton] at same
      rintro rfl
      rw [same] at mem
      exact absent mem
    · intro msg exec mem
      rw [counted]
      rw [created] at mem
      rcases List.mem_append.mp mem with mem | last
      · exact Nat.lt_succ_of_lt (once.known msg exec mem)
      · obtain ⟨-, rfl⟩ := Prod.mk.inj (List.mem_singleton.mp last)
        exact Nat.lt_succ_self _
    · intro task t' found' creating'
      rw [created, List.map_append, List.mem_append, not_or]
      refine ⟨fresh task t' found' creating', ?_⟩
      rw [List.map_singleton, List.mem_singleton]
      intro same
      rcases creators task t' found' creating' with ⟨other, found'⟩ | ⟨-, -, continued⟩
      · exact other (once.single task id t' t found' found creating' creating same)
      · rw [(dispatch_creating continued).1] at creating
        cases creating
  · refine ⟨by rw [created]; exact once.distinct, ?_, ?_, single⟩
    · intro msg exec mem
      rw [counted]
      rw [created] at mem
      exact once.known msg exec mem
    · intro task t' found' creating'
      rw [created]
      exact fresh task t' found' creating'

theorem Once.step (once : Once s) (stepped : step s action = some next) (timely : LooksInTime s action) :
    Once next := by
  by_cases dispatched : ∃ task, action = .dispatch task
  · obtain ⟨task, rfl⟩ := dispatched
    simp only [Scheduler.step] at stepped
    split at stepped
    · obtain ⟨message, -, rfl⟩ := Option.map_eq_some_iff.mp stepped
      exact once.dispatch (by assumption) timely
    · cases stepped
  · exact once.aside stepped fun task same => dispatched ⟨task, same⟩

/-- In every run in which no delivery looks for the execution of its message when that has
    finished, when the query fails or when another delivery is about to create it, every
    message has at most one execution. -/
theorem one_execution {actions : List Action} (ran : Runs.run step initial actions = some s)
    (timely : Along step LooksInTime initial actions) (msg : MsgId) : (s.created.map Prod.fst).count msg ≤ 1 := by
  have once : Once s := Runs.run_along (fun once stepped met => Once.step once stepped met) Once.initial ran timely
  exact List.nodup_iff_count_le_one.mp once.distinct msg

/-! ## A record-change trigger -/

def hookMessage : JobMessage where
  kind := some .hook
  appId := ['a']
  userId := some 7
  actionType := some "workflow"
  executionId := none
  hookWorkflow := some 1
  cronWorkflow := none

/-- Every check passes and every statement succeeds. -/
def passing : Answers where
  agentApp := false
  agentInvoked := true
  worker := some (['a'], ['7'])
  workerSent := true
  workflowApp := some ['a']
  mayFire := some 7
  perms := true
  lookedUp := true
  created := true
  executionFailed := true
  deleted := true
  buried := true
  archived := true

/-- A delivery of the message, up to the start of its run. -/
def delivered (task : Nat) : List Action := .poll 0 task passing :: List.replicate 5 (.dispatch task)

theorem looksInTime_of_stage (found : s.tasks id = some t) (elsewhere : t.stage ≠ .lookingUp) :
    LooksInTime s (.dispatch id) := by
  intro t' found' looking
  cases found.symm.trans found'
  exact absurd looking elsewhere

/-- The first delivery of a message creates its execution. -/
theorem delivered_once : ∃ s, Runs.run step initial (.enqueue hookMessage :: delivered 0) = some s ∧
    s.created = [(0, 0)] ∧ ∀ msg, (s.created.map Prod.fst).count msg ≤ 1 := by
  have ended : (Runs.run step initial (.enqueue hookMessage :: delivered 0)).map State.created = some [(0, 0)] := rfl
  obtain ⟨s, ran, created⟩ := Option.map_eq_some_iff.mp ended
  refine ⟨s, ran, created, one_execution ran ?_⟩
  refine .cons trivial rfl (.cons trivial rfl (.cons (looksInTime_of_stage rfl (by decide)) rfl
    (.cons (looksInTime_of_stage rfl (by decide)) rfl (.cons ?_ rfl
      (.cons (looksInTime_of_stage rfl (by decide)) rfl (.cons (looksInTime_of_stage rfl (by decide)) rfl trivial))))))
  intro t found looking
  cases found
  refine ⟨rfl, (fun exec mem => nomatch mem), ?_⟩
  intro other t' different found'
  rw [dispatch_other different, dispatch_other different] at found'
  simp [State.poll, State.enqueue, initial, different] at found'

/-- When the process dies between the final status of a run and the archive of its
    message, the redelivery starts the workflow again under a second execution. -/
theorem finished_started_again : ∃ s,
    Runs.run step initial (Action.enqueue hookMessage :: delivered 0 ++ [Action.load 0 true, .record 0 .succeeded true, .crash, .expire 0] ++
      delivered 1) = some s ∧
      (s.executions 0).map ExecutionRow.status = some .succeeded ∧ (s.created.map Prod.fst).count 0 = 2 ∧
      s.runs 1 = some ⟨0, 1, .loading⟩ := by
  have ended : (Runs.run step initial (.enqueue hookMessage :: delivered 0 ++
      [.load 0 true, .record 0 .succeeded true, .crash, .expire 0] ++ delivered 1)).map
      (fun s => ((s.executions 0).map ExecutionRow.status, s.created, s.runs 1)) =
      some (some .succeeded, [(0, 0), (0, 1)], some ⟨0, 1, .loading⟩) := rfl
  obtain ⟨s, ran, read⟩ := Option.map_eq_some_iff.mp ended
  simp only [Prod.mk.injEq] at read
  exact ⟨s, ran, read.1, by rw [read.2.1]; rfl, read.2.2⟩

end RootCx.Scheduler
