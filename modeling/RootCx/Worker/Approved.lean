import RootCx.Worker.Actors

/-! # Approved executions

An approved action runs in a process of its own (`rpc_resolved` of
`worker_manager.rs`): the manager starts a supervisor, sends it the one request,
waits for the outcome or for its timeout, stops the supervisor, and only then
answers the caller.  Whatever the process sends meanwhile, and however its
transactions and data operations are interleaved with that, all of them have ended
when the caller is answered.
-/

namespace RootCx.Worker

open RootCx.Text List Option

variable {config : Config} {id invocation : Text}

/-! ## The execution -/

inductive Manager where
  | idle
  | started
  | calling
  | stopping (result : Except Text Json)
  | answered (result : Except Text Json)

structure Execution where
  system : System := {}
  manager : Manager := .idle

/-- The commands that the manager sends, in their order. -/
inductive Issues (id invocation : Text) : Manager → Event → Manager → Prop
  | start {spawned} : Issues id invocation .idle (.start spawned) .started
  | rpc {sent} : Issues id invocation .started (.rpc id invocation sent) .calling
  | stop {result} : Issues id invocation (.stopping result) .stop (.stopping result)

/-- What the supervisor's loop meets besides commands. -/
def Event.spontaneous : Event → Bool
  | .sendFailed | .txDone _ | .expiry _ _ | .message _ _ | .eof _ => true
  | .start _ | .stop | .rpc _ _ _ | .job _ _ _ _ => false

inductive Execution.Step (config : Config) (id invocation : Text) (e : Execution) : Execution → Prop
  | command {event : Event} {handled : Handled} {manager : Manager} (issues : Issues id invocation e.manager event manager)
      (possible : e.system.Possible (some event))
      (turned : turn config e.system.supervisor (some event) = some handled) :
      Step config id invocation e ⟨e.system.perform config handled, manager⟩
  | meets {event : Event} {handled : Handled} (spontaneous : event.spontaneous = true)
      (possible : e.system.Possible (some event))
      (turned : turn config e.system.supervisor (some event) = some handled) :
      Step config id invocation e { e with system := e.system.perform config handled }
  | wakes {handled : Handled} (drained : e.system.Drained config)
      (turned : turn config e.system.supervisor none = some handled) :
      Step config id invocation e { e with system := e.system.perform config handled }
  | beside {next : System} (moved : e.system.Move next) : Step config id invocation e { e with system := next }
  /-- The outcome of the request arrives. -/
  | outcome {result : Except Text Json} (calling : e.manager = .calling)
      (resolved : e.system.supervisor.outcomes id = some result) :
      Step config id invocation e { e with manager := .stopping result }
  /-- A command fails, or one of the timeouts of supervisor and manager passes. -/
  | fails {error : Text} (running : e.manager = .idle ∨ e.manager = .started ∨ e.manager = .calling) :
      Step config id invocation e { e with manager := .stopping (.error error) }
  /-- The supervisor has confirmed the stop, and the caller gets the result. -/
  | answers {result : Except Text Json} (stopping : e.manager = .stopping result)
      (exited : e.system.supervisor.exited = true) : Step config id invocation e { e with manager := .answered result }

inductive Execution.Runs (config : Config) (id invocation : Text) (e : Execution) : Execution → Prop
  | refl : Runs config id invocation e e
  | step {middle last : Execution} (ran : Runs config id invocation e middle)
      (stepped : Step config id invocation middle last) : Runs config id invocation e last

variable {actor : TxActor} {s' : Supervisor} {task : Option Text} {s : Supervisor}

/-! ## Running transactions and data operations -/

section Running

variable {sys next : System} {effects : List Effect} {effect : Effect} {echoed : Bool} {txId : Text}
  {named : Option Text}

/-- A transaction whose task has not ended, with the invocation it was begun under. -/
def System.Running (sys : System) (txId : Text) (named : Option Text) : Prop :=
  ∃ actor, sys.txs txId = some actor ∧ actor.phase ≠ .finished ∧ actor.invocation = named

/-- Nothing that was started for data is going on. -/
structure System.Ended (sys : System) : Prop where
  transactions : ∀ txId actor, sys.txs txId = some actor → actor.phase = .finished
  operations : sys.tasks = []

theorem TxActor.cancel_running (running : actor.cancel.phase ≠ .finished) :
    actor.phase ≠ .finished ∧ actor.cancel.invocation = actor.invocation := by
  unfold TxActor.cancel at running ⊢
  split at running
  case isTrue active => exact ⟨by rw [active]; exact nofun, by rw [if_pos active]⟩
  case isFalse inactive => exact ⟨running, by rw [if_neg inactive]⟩

theorem TxActor.send_running {command : TxCmd} (running : (actor.send command).phase ≠ .finished) :
    actor.phase ≠ .finished ∧ (actor.send command).invocation = actor.invocation := by
  unfold TxActor.send at running ⊢
  split at running
  case isTrue finished => exact absurd finished running
  case isFalse unfinished => exact ⟨unfinished, by rw [if_neg unfinished]⟩

/-- A change that brings no finished transaction back. -/
def Mild (change : TxActor → TxActor) : Prop :=
  ∀ {actor}, (change actor).phase ≠ .finished →
    actor.phase ≠ .finished ∧ (change actor).invocation = actor.invocation

theorem System.running_of_change {change : TxActor → TxActor} (mild : Mild change)
    (txs : next.txs txId = (sys.txs txId).map change ∨ next.txs txId = sys.txs txId)
    (running : next.Running txId named) : sys.Running txId named := by
  obtain ⟨actor, found, unfinished, rfl⟩ := running
  obtain txs | txs := txs
  · rw [txs] at found
    obtain ⟨before, same, rfl⟩ := map_eq_some_iff.mp found
    exact ⟨before, same, (mild unfinished).1, (mild unfinished).2.symm⟩
  · exact ⟨actor, txs ▸ found, unfinished, rfl⟩

theorem System.running_of_tell {change : TxActor → TxActor} {other : Text} (mild : Mild change)
    (running : (sys.tell other change).Running txId named) : sys.Running txId named := by
  refine System.running_of_change mild ?_ running
  simp only [System.tell]
  split
  · exact .inl rfl
  · exact .inr rfl

theorem Effect.running_apply (running : (effect.apply echoed sys).Running txId named) :
    sys.Running txId named ∨ effect = .begun txId named := by
  cases effect with
  | begun other opener =>
    obtain ⟨actor, found, unfinished, rfl⟩ := running
    obtain ⟨rfl, rfl⟩ | ⟨-, found⟩ := of_put_eq_some found
    · exact .inr rfl
    · exact .inl ⟨actor, found, unfinished, rfl⟩
  | exec | poison | finish | abort => exact .inl (System.running_of_tell TxActor.send_running running)
  | cancel => exact .inl (System.running_of_tell TxActor.cancel_running running)
  | dropped txIds =>
    refine .inl (System.running_of_change TxActor.cancel_running ?_ running)
    simp only [Effect.apply]
    split
    · exact .inl rfl
    · exact .inr rfl
  | _ => exact .inl running

theorem foldl_apply_running (running : (effects.foldl (Effect.apply echoed) sys).Running txId named) :
    sys.Running txId named ∨ .begun txId named ∈ effects := by
  induction effects generalizing sys with
  | nil => exact .inl running
  | cons effect rest ih =>
    obtain running | mem := ih running
    · obtain running | same := Effect.running_apply running
      · exact .inl running
      · exact .inr (same ▸ mem_cons_self)
    · exact .inr (.tail _ mem)

theorem System.running_of_close (running : sys.close.Running txId named) : sys.Running txId named := by
  refine System.running_of_change TxActor.cancel_running ?_ running
  unfold System.close
  split
  · exact .inr rfl
  · dsimp only
    split
    · exact .inl rfl
    · exact .inr rfl

theorem System.running_perform (running : (sys.perform config (s', effects)).Running txId named) :
    sys.Running txId named ∨ .begun txId named ∈ effects := by
  have before : ({ sys with supervisor := s' } : System).Running txId named ∨ .begun txId named ∈ effects :=
    foldl_apply_running (System.running_of_close running)
  exact before

theorem Effect.tasks_apply (running : task ∈ (effect.apply echoed sys).tasks) :
    task ∈ sys.tasks ∨ effect = .dataTask task := by
  cases effect with
  | dataTask other =>
    obtain rfl | mem := mem_cons.mp running
    · exact .inr rfl
    · exact .inl mem
  | _ => exact .inl running

theorem foldl_apply_tasks (running : task ∈ (effects.foldl (Effect.apply echoed) sys).tasks) :
    task ∈ sys.tasks ∨ .dataTask task ∈ effects := by
  induction effects generalizing sys with
  | nil => exact .inl running
  | cons effect rest ih =>
    obtain running | mem := ih running
    · obtain running | same := Effect.tasks_apply running
      · exact .inl running
      · exact .inr (same ▸ mem_cons_self)
    · exact .inr (.tail _ mem)

theorem System.close_tasks (sys : System) : sys.close.tasks = sys.tasks := by
  unfold System.close
  split <;> rfl

theorem System.tasks_perform (running : task ∈ (sys.perform config (s', effects)).tasks) :
    task ∈ sys.tasks ∨ .dataTask task ∈ effects := by
  rw [System.perform, System.close_tasks] at running
  have before : task ∈ ({ sys with supervisor := s' } : System).tasks ∨ .dataTask task ∈ effects :=
    foldl_apply_tasks running
  exact before

theorem TxActor.move_running {next : TxActor} {move : TxMove} (moved : actor.move move = some next) :
    actor.phase ≠ .finished := by
  rintro finished
  cases move <;> simp [TxActor.move, finished] at moved

theorem System.Move.running (moved : System.Move sys next) (running : next.Running txId named) :
    sys.Running txId named := by
  cases moved with
  | taskEnds | strayEnds => exact running
  | acts found moved =>
    obtain ⟨actor, after, unfinished, rfl⟩ := running
    obtain ⟨rfl, rfl⟩ | ⟨-, after⟩ := of_put_eq_some after
    · have same := congrArg Prod.fst (TxActor.origin_move moved)
      exact ⟨_, found, TxActor.move_running moved, same.symm⟩
    · exact ⟨actor, after, unfinished, rfl⟩

theorem System.ended_of_idle (transactions : ∀ txId named, ¬sys.Running txId named) (operations : sys.tasks = []) :
    sys.Ended := by
  refine ⟨fun txId actor found => ?_, operations⟩
  by_contra unfinished
  exact transactions txId actor.invocation ⟨actor, found, unfinished, rfl⟩

end Running

/-! ## The one request -/

section Request

variable {s s' : Supervisor} {effects : List Effect} {event : Option Event}

/-- The supervisor knows of one request, and its outcome comes when the invocation
    has left the books. -/
structure Single (id invocation : Text) (s : Supervisor) : Prop where
  requests : ∀ {other owner}, s.rpcInvocations other = some owner → other = id ∧ owner = invocation
  active : ∀ {owner}, owner ∈ s.activeInvocations → owner = invocation ∧ s.rpcInvocations id = some invocation
  finishing : ∀ {other result owner}, s.awaiting = some (.finish other result owner) →
    other = id ∧ owner = invocation ∧ s.rpcInvocations id = none
  expiring : ∀ {request owner}, s.awaiting = some (.expire request owner) → s.rpcInvocations request = some owner
  answered : ∀ {result}, s.outcomes id = some result →
    s.rpcInvocations id = none ∧ ∀ other result owner, s.awaiting ≠ some (.finish other result owner)

/-- An event of an execution: the request is the only one, and there are no jobs. -/
def Event.fits (id invocation : Text) : Option Event → Prop
  | some (.rpc other owner _) => other = id ∧ owner = invocation
  | some (.job _ _ _ _) => False
  | _ => True

theorem Single.same (single : Single id invocation s) (requests : s'.rpcInvocations = s.rpcInvocations)
    (active : s'.activeInvocations = s.activeInvocations)
    (outcomes : s'.outcomes id = s.outcomes id ∨ s.rpcInvocations id = none)
    (unanswered : ∀ other result owner, s'.awaiting ≠ some (.finish other result owner))
    (expiring : ∀ request owner, s'.awaiting = some (.expire request owner) → s.rpcInvocations request = some owner) :
    Single id invocation s' := by
  refine ⟨?_, ?_, ?_, ?_, ?_⟩
  · rw [requests]
    exact single.requests
  · rw [requests, active]
    exact single.active
  · intro other result owner waiting
    exact absurd waiting (unanswered other result owner)
  · rw [requests]
    exact fun {request owner} => expiring request owner
  · intro result resolved
    rw [requests]
    refine ⟨?_, unanswered⟩
    obtain same | free := outcomes
    · exact (single.answered (same ▸ resolved)).1
    · exact free

theorem Single.empty (requests : s'.rpcInvocations = fun _ => none) (active : s'.activeInvocations = ∅)
    (idle : s'.awaiting = none) : Single id invocation s' := by
  refine ⟨?_, ?_, ?_, by simp [idle], ?_⟩
  · intro other owner held
    rw [requests] at held
    cases held
  · intro owner live
    rw [active] at live
    cases live
  · intro other result owner waiting
    rw [idle] at waiting
    cases waiting
  · intro result _
    rw [requests, idle]
    exact ⟨rfl, nofun⟩

theorem Single.dispatch {sent : Except Text Unit} (single : Single id invocation s) (idle : s.awaiting = none) :
    Single id invocation (rpc id invocation sent s) := by
  unfold rpc
  split
  case isTrue => exact single
  case isFalse =>
    have requests {other owner : Text} (held : put s.rpcInvocations id invocation other = some owner) :
        other = id ∧ owner = invocation := by
      obtain ⟨same, rfl⟩ | ⟨-, held⟩ := of_put_eq_some held
      · exact ⟨same, rfl⟩
      · exact single.requests held
    have sentOk : Single id invocation (({ s with
        activeInvocations := insert invocation s.activeInvocations
        rpcInvocations := put s.rpcInvocations id invocation } : Supervisor).register id) := by
      refine ⟨requests, ?_, ?_, ?_, ?_⟩
      · intro owner live
        refine ⟨?_, put_self _ _ _⟩
        obtain same | live := Finset.mem_insert.mp live
        · exact same
        · exact (single.active live).1
      · intro other result owner waiting
        cases idle.symm.trans waiting
      · intro request owner waiting
        cases idle.symm.trans waiting
      · intro result resolved
        cases (remove_self s.outcomes id).symm.trans resolved
    dsimp only
    split
    case isFalse => exact sentOk
    case isTrue =>
      split
      case h_1 => exact sentOk
      case h_2 =>
        refine ⟨?_, ?_, ?_, ?_, ?_⟩
        · intro other owner held
          rw [resolve_toBooks] at held
          exact requests (of_remove_eq_some held).2
        · intro owner live
          rw [resolve_toBooks] at live
          obtain ⟨different, live⟩ := Finset.mem_erase.mp live
          obtain same | live := Finset.mem_insert.mp live
          · exact absurd same different
          · exact absurd (single.active live).1 different
        · intro other result owner waiting
          rw [resolve_awaiting] at waiting
          cases idle.symm.trans waiting
        · intro request owner waiting
          rw [resolve_awaiting] at waiting
          cases idle.symm.trans waiting
        · intro result _
          rw [resolve_toBooks, resolve_awaiting]
          exact ⟨remove_self _ _, fun _ _ _ waiting => by cases idle.symm.trans waiting⟩

theorem Single.resume {wait : Await} (single : Single id invocation s) (awaited : s.awaiting = some wait) :
    Single id invocation (resume config wait s).1 := by
  cases wait with
  | finish other result owner =>
    obtain ⟨rfl, rfl, free⟩ := single.finishing awaited
    simp only [Worker.resume, Await.scope]
    refine ⟨?_, ?_, ?_, ?_, ?_⟩
    · intro other owner held
      rw [resolve_toBooks] at held
      exact single.requests held
    · intro owner live
      rw [resolve_toBooks] at live ⊢
      exact single.active (Finset.mem_of_mem_erase live)
    · intro _ _ _ waiting
      rw [resolve_awaiting] at waiting
      cases waiting
    · intro _ _ waiting
      rw [resolve_awaiting] at waiting
      cases waiting
    · intro _ _
      rw [resolve_toBooks, resolve_awaiting]
      exact ⟨free, by rintro _ _ _ ⟨⟩⟩
  | expire request owner =>
    obtain ⟨rfl, rfl⟩ := single.requests (single.expiring awaited)
    refine ⟨?_, ?_, by rintro _ _ _ ⟨⟩, by rintro _ _ ⟨⟩, ?_⟩
    · intro other owner held
      exact single.requests (of_remove_eq_some held).2
    · intro owner live
      obtain ⟨different, live⟩ := Finset.mem_erase.mp live
      exact absurd (single.active live).1 different
    · intro result resolved
      exact ⟨remove_self _ _, by rintro _ _ _ ⟨⟩⟩
  | abandon error => exact .empty rfl rfl rfl
  | stop => exact .empty rfl rfl rfl
  | crash restart =>
    obtain ⟨books, idle⟩ := resume_crash config restart s
    exact .empty (by rw [books]) (by rw [books]) idle

theorem Single.change (single : Single id invocation s) (approved : config.approved = true)
    (unpublished : config.publicExecution = false) (fits : Event.fits id invocation event)
    (change : Change config s event s' effects) : Single id invocation s' := by
  have idly {s' : Supervisor} (idle : s'.awaiting = none) : (∀ other result owner,
      s'.awaiting ≠ some (.finish other result owner)) ∧ ∀ request owner,
        s'.awaiting = some (.expire request owner) → s.rpcInvocations request = some owner := by
    rw [idle]
    exact ⟨nofun, nofun⟩
  cases change with
  | kept _ books awaiting _ _ outcomes =>
    exact single.same (by rw [books]) (by rw [books]) (outcomes id) (idly awaiting).1 (idly awaiting).2
  | waits _ unanswered expires =>
    refine single.same rfl rfl (.inl rfl) ?_ ?_
    · intro other result owner waiting
      exact unanswered other result owner (some.inj waiting)
    · intro request owner waiting
      exact expires request owner (some.inj waiting)
  | denied => exact single.same rfl rfl (.inl rfl) nofun nofun
  | takes idle | ended idle | opens idle | finishes idle =>
    exact single.same rfl rfl (.inl rfl) (idly idle).1 (idly idle).2
  | operates | states => exact single
  | answers _ held =>
    obtain ⟨rfl, rfl⟩ := single.requests held
    refine ⟨?_, ?_, ?_, nofun, ?_⟩
    · intro other owner held
      exact single.requests (of_remove_eq_some held).2
    · intro owner live
      obtain ⟨different, live⟩ := Finset.mem_erase.mp live
      exact absurd (single.active live).1 different
    · intro other result owner waiting
      cases waiting
      exact ⟨rfl, rfl, remove_self _ _⟩
    · intro result resolved
      exact nomatch held.symm.trans (single.answered resolved).1
  | dispatches idle =>
    obtain ⟨rfl, rfl⟩ := fits
    exact single.dispatch idle
  | employs => exact fits.elim
  | settles _ heard => exact nomatch heard.approved approved
  | forgets _ isPublic =>
    rw [unpublished] at isPublic
    cases isPublic
  | resumes awaited => exact single.resume awaited

end Request

/-! ## What is going on is owned -/

section Guarded

variable {sys next : System} {s' : Supervisor} {effects : List Effect} {event : Option Event}

/-- Every running transaction is tracked, and runs, like every data operation, under
    an invocation that has not ended. -/
structure Guarded (sys : System) : Prop where
  tracked : ∀ {txId named}, sys.Running txId named →
    ∃ owner, named = some owner ∧ sys.supervisor.actors txId = some owner ∧ sys.supervisor.current owner
  tasked : ∀ {task}, task ∈ sys.tasks → ∃ owner, task = some owner ∧ sys.supervisor.current owner
  exited : sys.supervisor.exited = true → (∀ txId named, ¬sys.Running txId named) ∧ sys.tasks = []

theorem Guarded.empty (transactions : ∀ txId named, ¬sys.Running txId named) (operations : sys.tasks = []) :
    Guarded sys := by
  refine ⟨fun running => absurd running (transactions _ _), ?_, fun _ => ⟨transactions, operations⟩⟩
  intro task mem
  rw [operations] at mem
  cases mem

/-- A turn under which what runs goes on, and what starts is owned. -/
theorem Guarded.perform (guarded : Guarded sys) (exited : s'.exited = false)
    (begins : ∀ {txId named}, .begun txId named ∈ effects →
      ∃ owner, named = some owner ∧ s'.actors txId = some owner ∧ s'.current owner)
    (operates : ∀ {task}, .dataTask task ∈ effects → ∃ owner, task = some owner ∧ s'.current owner)
    (actors : ∀ {txId owner named}, sys.Running txId named → sys.supervisor.actors txId = some owner →
      s'.actors txId = some owner)
    (goesOn : ∀ {owner}, sys.supervisor.current owner → s'.current owner) :
    Guarded (sys.perform config (s', effects)) := by
  refine ⟨?_, ?_, ?_⟩
  · intro txId named after
    rw [System.perform_supervisor]
    obtain before | mem := System.running_perform after
    · obtain ⟨owner, same, tracked, current⟩ := guarded.tracked before
      exact ⟨owner, same, actors before tracked, goesOn current⟩
    · exact begins mem
  · intro task after
    rw [System.perform_supervisor]
    obtain before | mem := System.tasks_perform after
    · obtain ⟨owner, same, current⟩ := guarded.tasked before
      exact ⟨owner, same, goesOn current⟩
    · exact operates mem
  · intro after
    rw [System.perform_supervisor] at after
    exact nomatch exited.symm.trans after

theorem Guarded.drained {wait : Await} (guarded : Guarded sys) (single : Single id invocation sys.supervisor)
    (approved : config.approved = true) (awaited : sys.supervisor.awaiting = some wait)
    (drained : sys.Drained config) : (∀ txId named, ¬sys.Running txId named) ∧ sys.tasks = [] := by
  obtain ⟨operations, transactions⟩ := drained wait awaited approved
  refine ⟨?_, operations⟩
  rintro txId named running
  obtain ⟨owner, rfl, tracked, current⟩ := guarded.tracked running
  obtain ⟨actor, found, unfinished, -⟩ := running
  have owned : owner = invocation := by
    obtain live | ⟨_, _, waiting⟩ := current
    · exact (single.active live).1
    · exact (single.finishing waiting).2.1
  apply unfinished
  refine transactions txId actor ?_ found
  simp only [Supervisor.closes, tracked, any_some]
  cases wait with
  | finish _ _ closing => simp [Await.scope, (single.finishing awaited).2.1, owned]
  | expire _ closing => simp [Await.scope, (single.requests (single.expiring awaited)).2, owned]
  | abandon | stop | crash => rfl

theorem rpc_exited (id invocation : Text) (sent : Except Text Unit) (s : Supervisor) :
    (rpc id invocation sent s).exited = s.exited ∧ (rpc id invocation sent s).actors = s.actors := by
  unfold rpc
  split
  · exact ⟨rfl, rfl⟩
  · dsimp only
    split
    · split
      · exact ⟨rfl, rfl⟩
      · rw [resolve_exited, resolve_toBooks]
        exact ⟨rfl, rfl⟩
    · exact ⟨rfl, rfl⟩

theorem rpc_current {sent : Except Text Unit} {owner : Text} (idle : s.awaiting = none)
    (fresh : invocation ∉ s.activeInvocations) (current : s.current owner) :
    (rpc id invocation sent s).current owner := by
  have live := live_of_current idle current
  unfold rpc
  split
  · exact current
  · dsimp only
    split
    · split
      · exact .inl (Finset.mem_insert_of_mem live)
      · left
        rw [resolve_toBooks]
        show owner ∈ (insert invocation s.activeInvocations).erase invocation
        rwa [Finset.erase_insert fresh]
    · exact .inl (Finset.mem_insert_of_mem live)

theorem exited_of_turn {handled : Handled} (turned : turn config s event = some handled) :
    s.exited = false := by
  unfold turn at turned
  split at turned
  · cases turned
  case isFalse running => exact Bool.eq_false_iff.mpr running

theorem live_of_heard {msg : InboundMessage} {named : Option Text} (heard : Heard config s msg)
    (approved : config.approved = true) (data : msg.dataInvocation = some named) :
    ∃ owner, named = some owner ∧ owner ∈ s.activeInvocations :=
  (live_of_approved data (heard.approved approved)).2

theorem Guarded.turn (guarded : Guarded sys) (single : Single id invocation sys.supervisor)
    (approved : config.approved = true) (unpublished : config.publicExecution = false)
    (fits : Event.fits id invocation event) (possible : sys.Possible event) (drained : event = none → sys.Drained config)
    (turned : turn config sys.supervisor event = some (s', effects)) : Guarded (sys.perform config (s', effects)) := by
  have running : sys.supervisor.exited = false := exited_of_turn turned
  have quietly (quiet : Quiet effects) : (∀ {txId named}, .begun txId named ∈ effects →
        ∃ owner, named = some owner ∧ s'.actors txId = some owner ∧ s'.current owner) ∧
      ∀ {task}, .dataTask task ∈ effects → ∃ owner, task = some owner ∧ s'.current owner :=
    ⟨fun mem => (by cases quiet _ mem), fun mem => (by cases quiet _ mem)⟩
  cases turn_change turned with
  | kept idle books _ _ exited _ quiet =>
    refine guarded.perform (exited.trans running) (quietly quiet).1 (quietly quiet).2 ?_ ?_
    · rw [books]
      exact fun _ tracked => tracked
    · intro owner current
      left
      rw [books]
      exact live_of_current idle current
  | waits idle =>
    refine guarded.perform running (quietly quiet_nil).1 (quietly quiet_nil).2 (fun _ tracked => tracked) ?_
    intro owner current
    have live := live_of_current idle current
    exact .inl live
  | denied idle _ quiet =>
    refine guarded.perform running (quietly quiet).1 (quietly quiet).2 (fun _ tracked => tracked) ?_
    intro owner current
    have live := live_of_current idle current
    exact .inl live
  | takes idle quiet =>
    exact guarded.perform running (quietly quiet).1 (quietly quiet).2 (fun _ tracked => tracked) (fun current => current)
  | ended idle quiet =>
    refine guarded.perform running (quietly quiet).1 (quietly quiet).2 ?_ (fun current => current)
    intro txId owner named going tracked
    obtain ⟨actor, found, unfinished, -⟩ := going
    refine (remove_of_ne ?_).trans tracked
    rintro rfl
    exact unfinished (possible actor found)
  | operates idle heard data =>
    obtain ⟨owner, rfl, live⟩ := live_of_heard heard approved (data approved)
    refine guarded.perform running ?_ ?_ (fun _ tracked => tracked) (fun current => current)
    · intro txId named mem
      simp at mem
    · intro task mem
      simp only [mem_singleton, Effect.dataTask.injEq] at mem
      exact ⟨owner, mem, .inl live⟩
  | @opens _ _ fresh _ _ idle heard session capable =>
    obtain ⟨owner, rfl, live⟩ := live_of_heard heard approved rfl
    refine guarded.perform running ?_ (by simp) ?_ (fun current => current)
    · intro txId named mem
      simp only [mem_cons, Effect.begun.injEq, reduceCtorEq, not_mem_nil, or_false] at mem
      obtain ⟨rfl, rfl⟩ := mem
      refine ⟨owner, rfl, ?_, .inl live⟩
      simp [opened, approved]
    · intro txId other named going tracked
      obtain ⟨actor, found, -⟩ := going
      have apart : txId ≠ fresh := by
        rintro rfl
        cases found.symm.trans (possible _ session)
      simp only [opened, approved, if_true, elim_some]
      rw [put_of_ne apart, tracked]
  | states idle _ _ _ _ _ reaches =>
    refine guarded.perform running ?_ ?_ (fun _ tracked => tracked) (fun current => current)
    · intro txId named mem
      obtain same | same | quiet := reaches _ mem <;> contradiction
    · intro task mem
      obtain same | same | quiet := reaches _ mem <;> contradiction
  | finishes idle =>
    exact guarded.perform running (by simp) (by simp) (fun _ tracked => tracked) (fun current => current)
  | @answers _ request result owner idle held =>
    refine guarded.perform running (quietly quiet_nil).1 (quietly quiet_nil).2 (fun _ tracked => tracked) ?_
    intro other current
    by_cases same : other = owner
    · exact .inr ⟨request, result, by rw [same]⟩
    · exact .inl (Finset.mem_erase.mpr ⟨same, live_of_current idle current⟩)
  | dispatches idle =>
    refine guarded.perform ((rpc_exited _ _ _ _).1.trans running) (quietly quiet_nil).1 (quietly quiet_nil).2 ?_ ?_
    · rw [(rpc_exited _ _ _ _).2]
      exact fun _ tracked => tracked
    · exact rpc_current idle possible
  | employs => exact fits.elim
  | settles _ heard => cases heard.approved approved
  | forgets _ isPublic =>
    rw [unpublished] at isPublic
    cases isPublic
  | resumes awaited =>
    obtain ⟨transactions, operations⟩ := guarded.drained single approved awaited (drained rfl)
    apply Guarded.empty
    · intro txId named after
      obtain before | mem := System.running_perform after
      · exact transactions txId named before
      · cases resume_quiet _ _ _ _ mem
    · rw [eq_nil_iff_forall_not_mem]
      intro task after
      obtain before | mem := System.tasks_perform after
      · rw [operations] at before
        cases before
      · cases resume_quiet _ _ _ _ mem

end Guarded

/-! ## Executions -/

section Executions

variable {e later : Execution}

/-- What holds of an execution at all times. -/
structure Execution.Sound (id invocation : Text) (e : Execution) : Prop where
  single : Single id invocation e.system.supervisor
  guarded : Guarded e.system
  stopped : ∀ result, e.manager = .answered result → e.system.supervisor.exited = true

theorem Issues.fits {before after : Manager} {event : Event} (issues : Issues id invocation before event after) :
    Event.fits id invocation (some event) ∧ ∀ result, after ≠ .answered result := by
  cases issues with
  | start => exact ⟨trivial, nofun⟩
  | rpc => exact ⟨⟨rfl, rfl⟩, nofun⟩
  | stop => exact ⟨trivial, nofun⟩

theorem Guarded.beside {sys next : System} (guarded : Guarded sys) (moved : System.Move sys next) : Guarded next := by
  have tasks {task : Option Text} (mem : task ∈ next.tasks) : task ∈ sys.tasks := by
    cases moved with
    | acts | strayEnds => exact mem
    | taskEnds running =>
      rw [running]
      obtain front | rest := mem_append.mp mem
      · exact mem_append_left _ front
      · exact mem_append_right _ (.tail _ rest)
  refine ⟨?_, ?_, ?_⟩
  · intro txId named running
    rw [moved.supervisor]
    exact guarded.tracked (moved.running running)
  · intro task mem
    rw [moved.supervisor]
    exact guarded.tasked (tasks mem)
  · intro exited
    rw [moved.supervisor] at exited
    obtain ⟨transactions, operations⟩ := guarded.exited exited
    refine ⟨fun txId named running => transactions txId named (moved.running running), ?_⟩
    rw [eq_nil_iff_forall_not_mem]
    intro task mem
    have before := tasks mem
    rw [operations] at before
    cases before

theorem Execution.Step.sound (approved : config.approved = true) (unpublished : config.publicExecution = false)
    (sound : e.Sound id invocation) (stepped : Step config id invocation e later) : later.Sound id invocation := by
  have turns {event : Option Event} {handled : Handled} (fits : Event.fits id invocation event)
      (possible : e.system.Possible event) (drained : event = none → e.system.Drained config)
      (turned : turn config e.system.supervisor event = some handled) :
      Single id invocation (e.system.perform config handled).supervisor ∧ Guarded (e.system.perform config handled) := by
    rw [System.perform_supervisor]
    exact ⟨sound.single.change approved unpublished fits (turn_change turned),
      sound.guarded.turn sound.single approved unpublished fits possible drained turned⟩
  cases stepped with
  | command issues possible turned =>
    obtain ⟨single, guarded⟩ := turns issues.fits.1 possible nofun turned
    exact ⟨single, guarded, fun result answered => absurd answered (issues.fits.2 result)⟩
  | @meets event handled spontaneous possible turned =>
    have fits : Event.fits id invocation (some event) := by
      cases event <;> trivial
    obtain ⟨single, guarded⟩ := turns fits possible nofun turned
    refine ⟨single, guarded, ?_⟩
    intro result answered
    exact nomatch (exited_of_turn turned).symm.trans (sound.stopped result answered)
  | wakes drained turned =>
    have fits : Event.fits id invocation none := trivial
    have possible : e.system.Possible none := trivial
    obtain ⟨single, guarded⟩ := turns fits possible (fun _ => drained) turned
    refine ⟨single, guarded, ?_⟩
    intro result answered
    exact nomatch (exited_of_turn turned).symm.trans (sound.stopped result answered)
  | beside moved =>
    refine ⟨?_, sound.guarded.beside moved, ?_⟩
    · rw [moved.supervisor]
      exact sound.single
    · intro result answered
      rw [moved.supervisor]
      exact sound.stopped result answered
  | outcome | fails => exact ⟨sound.single, sound.guarded, nofun⟩
  | answers stopping exited => exact ⟨sound.single, sound.guarded, fun _ _ => exited⟩

theorem Execution.Runs.sound (approved : config.approved = true) (unpublished : config.publicExecution = false)
    (sound : e.Sound id invocation) (ran : Runs config id invocation e later) : later.Sound id invocation := by
  induction ran with
  | refl => exact sound
  | step _ stepped sound => exact stepped.sound approved unpublished sound

theorem Execution.start_sound (id invocation : Text) : ({} : Execution).Sound id invocation :=
  ⟨.empty rfl rfl rfl, .empty (fun _ _ running => by obtain ⟨_, found, -⟩ := running; cases found) rfl, nofun⟩

theorem Execution.Step.frozen (sound : e.Sound id invocation) (exited : e.system.supervisor.exited = true)
    (stepped : Step config id invocation e later) :
    later.system.supervisor.exited = true ∧ later.system.txs = e.system.txs := by
  have stuck {event : Option Event} {handled : Handled}
      (turned : turn config e.system.supervisor event = some handled) : False :=
    nomatch (exited_of_turn turned).symm.trans exited
  cases stepped with
  | command _ _ turned | meets _ _ turned | wakes _ turned => exact (stuck turned).elim
  | beside moved =>
    refine ⟨moved.supervisor ▸ exited, ?_⟩
    cases moved with
    | taskEnds | strayEnds => rfl
    | acts found moved =>
      exact absurd ⟨_, found, TxActor.move_running moved, rfl⟩ ((sound.guarded.exited exited).1 _ _)
  | outcome | fails | answers => exact ⟨exited, rfl⟩

theorem Execution.Runs.frozen (approved : config.approved = true) (unpublished : config.publicExecution = false)
    (sound : e.Sound id invocation) (exited : e.system.supervisor.exited = true)
    (ran : Runs config id invocation e later) :
    later.system.supervisor.exited = true ∧ later.system.txs = e.system.txs := by
  induction ran with
  | refl => exact ⟨exited, rfl⟩
  | step ran stepped frozen =>
    obtain ⟨stillExited, same⟩ := stepped.frozen (ran.sound approved unpublished sound) frozen.1
    exact ⟨stillExited, same.trans frozen.2⟩

theorem Execution.Sound.ended_of_outcome {result : Except Text Json} (sound : e.Sound id invocation)
    (resolved : e.system.supervisor.outcomes id = some result) : e.system.Ended := by
  obtain ⟨free, unfinished⟩ := sound.single.answered resolved
  have idle (owner : Text) : ¬e.system.supervisor.current owner := by
    rintro (live | ⟨_, _, waiting⟩)
    · exact nomatch free.symm.trans (sound.single.active live).2
    · exact unfinished _ _ _ waiting
  apply System.ended_of_idle
  · intro txId named running
    obtain ⟨owner, -, -, current⟩ := sound.guarded.tracked running
    exact idle owner current
  · rw [eq_nil_iff_forall_not_mem]
    intro task mem
    obtain ⟨owner, -, current⟩ := sound.guarded.tasked mem
    exact idle owner current

/-- What a turn of an approved worker starts or hands on for data, a message brought
    that names a live invocation under protocol 4. -/
theorem data_admitted {effects : List Effect} {event : Option Event} {effect : Effect}
    (approved : config.approved = true) (turned : turn config s event = some (s', effects))
    (mem : effect ∈ effects) (data : effect.quiet = false) :
    ∃ msg chance owner, event = some (.message msg chance) ∧ msg.dataInvocation = some (some owner) ∧
      owner ∈ s.activeInvocations ∧ INVOCATION_PROTOCOL_VERSION ≤ s.workerProtocol ∧
      ∀ named, (effect = .dataTask named ∨ ∃ txId, effect = .begun txId named) → named = some owner := by
  have calm {goal : Prop} (quiet : Quiet effects) : goal := nomatch (quiet effect mem).symm.trans data
  have admits {msg : InboundMessage} {named : Option Text} (heard : Heard config s msg)
      (names : msg.dataInvocation = some named) : ∃ owner, named = some owner ∧ owner ∈ s.activeInvocations ∧
        INVOCATION_PROTOCOL_VERSION ≤ s.workerProtocol := by
    obtain ⟨protocol, owner, rfl, live⟩ := live_of_approved names (heard.approved approved)
    exact ⟨owner, rfl, live, protocol⟩
  cases turn_change turned with
  | kept _ _ _ _ _ _ quiet | denied _ _ quiet | takes _ quiet | ended _ quiet => exact calm quiet
  | waits | answers | dispatches | employs | forgets => exact calm quiet_nil
  | operates _ heard names =>
    obtain ⟨owner, rfl, live, protocol⟩ := admits heard (names approved)
    refine ⟨_, _, owner, rfl, names approved, live, protocol, ?_⟩
    obtain rfl := mem_singleton.mp mem
    rintro named (same | ⟨txId, same⟩)
    · exact (Effect.dataTask.inj same).symm
    · cases same
  | opens _ heard =>
    obtain ⟨owner, rfl, live, protocol⟩ := admits heard rfl
    refine ⟨_, _, owner, rfl, rfl, live, protocol, ?_⟩
    rintro named (rfl | ⟨txId, rfl⟩)
    · simp at mem
    · simp only [mem_cons, Effect.begun.injEq, reduceCtorEq, not_mem_nil, or_false] at mem
      exact mem.2
  | states _ heard names _ _ _ reaches =>
    obtain ⟨owner, rfl, live, protocol⟩ := admits heard names
    refine ⟨_, _, owner, rfl, names, live, protocol, ?_⟩
    rintro named (rfl | ⟨txId, rfl⟩)
    · obtain same | same | quiet := reaches _ mem <;> contradiction
    · obtain same | same | quiet := reaches _ mem <;> contradiction
  | finishes _ heard names =>
    obtain ⟨owner, rfl, live, protocol⟩ := admits heard names
    refine ⟨_, _, owner, rfl, names, live, protocol, ?_⟩
    rintro named (rfl | ⟨txId, rfl⟩)
    · simp at mem
    · simp at mem
  | settles _ heard => exact nomatch heard.approved approved
  | resumes => exact calm (resume_quiet _ _ _)

/-- For every interleaving of an approved execution: when the caller is answered, and
    already when the outcome of its request is recorded, every transaction has ended
    and no data operation is going on; nothing that happens after the answer changes
    a transaction; and what a turn starts or hands on for data, a message brought
    that names a live invocation. -/
theorem nothing_outlives_answer (config : Config) (approved : config.approved = true)
    (unpublished : config.publicExecution = false) (id invocation : Text) (e : Execution)
    (ran : Execution.Runs config id invocation {} e) :
    (∀ result, e.manager = .answered result → e.system.Ended ∧
      ∀ later, Execution.Runs config id invocation e later → later.system.txs = e.system.txs) ∧
    (∀ result, e.system.supervisor.outcomes id = some result → e.system.Ended) ∧
    ∀ event s' effects, turn config e.system.supervisor event = some (s', effects) → ∀ effect ∈ effects,
      effect.quiet = false → ∃ msg chance owner, event = some (.message msg chance) ∧
        msg.dataInvocation = some (some owner) ∧ owner ∈ e.system.supervisor.activeInvocations ∧
        INVOCATION_PROTOCOL_VERSION ≤ e.system.supervisor.workerProtocol ∧
        ∀ named, (effect = .dataTask named ∨ ∃ txId, effect = .begun txId named) → named = some owner := by
  have sound := ran.sound approved unpublished (Execution.start_sound id invocation)
  refine ⟨?_, fun result => sound.ended_of_outcome, ?_⟩
  · intro result answered
    have exited := sound.stopped result answered
    obtain ⟨transactions, operations⟩ := sound.guarded.exited exited
    refine ⟨System.ended_of_idle transactions operations, ?_⟩
    intro later after
    exact (after.frozen approved unpublished sound exited).2
  · intro event s' effects turned effect member data
    exact data_admitted approved turned member data

/-! ## One approved payment -/

def approvedPay : Config := { approved := true, invocation := .action "pay" }

/-- The action is called under invocation `i`. -/
def approvedCalled : System :=
  ((({} : System).turns approvedPay (some (.start (.ok ())))).turns approvedPay
    (some (.message (.discover 4) {}))).turns approvedPay (some (.rpc "r" "i" (.ok ())))

/-- It begins transaction `t`. -/
def approvedBegun : System :=
  approvedCalled.turns approvedPay
    (some (.message (.sqlBegin "b" (some "i")) { begun := .session "t" }))

/-- The task of `t`, cancelled. -/
def approvedTx : TxActor := { invocation := some "i", echoed := true, phase := .cancelRequested }

def approvedAnswering : System :=
  approvedBegun.turns approvedPay (some (.message (.rpcResponse "r" none none) {}))

/-- It answers with the transaction open, which is cancelled and rolled back. -/
def approvedClosing : System :=
  { approvedAnswering with txs := put approvedAnswering.txs "t" approvedTx.over }

theorem approvedClosing_drained : approvedClosing.Drained approvedPay := by
  intro wait awaited _
  refine ⟨rfl, ?_⟩
  intro txId actor closes found
  have actors : approvedClosing.supervisor.actors = put (fun _ => none) "t".toList "i".toList := rfl
  by_cases same : txId = "t"
  · rw [same] at found
    cases found
    rfl
  · rw [Supervisor.closes, actors, put_of_ne same] at closes
    cases closes

theorem Execution.Runs.turned {event : Event} {manager : Manager} (ran : Runs config id invocation e later)
    (issues : Issues id invocation later.manager event manager ∨ event.spontaneous = true ∧ manager = later.manager)
    (possible : later.system.Possible (some event))
    (turns : (turn config later.system.supervisor (some event)).isSome = true) :
    Runs config id invocation e ⟨later.system.turns config (some event), manager⟩ := by
  obtain ⟨handled, turned⟩ := isSome_iff_exists.mp turns
  simp only [System.turns, turned, map_some, getD_some]
  obtain issues | ⟨spontaneous, rfl⟩ := issues
  · exact .step ran (.command issues possible turned)
  · exact .step ran (.meets spontaneous possible turned)

theorem Execution.Runs.woken (ran : Runs config id invocation e later) (drained : later.system.Drained config)
    (turns : (Worker.turn config later.system.supervisor none).isSome = true) :
    Runs config id invocation e ⟨later.system.turns config none, later.manager⟩ := by
  obtain ⟨handled, turned⟩ := isSome_iff_exists.mp turns
  simp only [System.turns, turned, map_some, getD_some]
  exact .step ran (.wakes drained turned)

/-- The execution is answered, and its transaction has ended. -/
theorem payment_answered :
    ∃ e, Execution.Runs approvedPay "r".toList "i".toList {} e ∧ e.manager = .answered (.ok .null) ∧
      e.system.txs "t".toList ≠ none ∧ e.system.Ended := by
  have unfailed (sys : System) (msg : InboundMessage) : sys.Possible (some (.message msg {})) :=
    fun _ failed => nomatch failed
  have started : Execution.Runs approvedPay "r".toList "i".toList {}
      ⟨({} : System).turns approvedPay (some (.start (.ok ()))), .started⟩ :=
    Execution.Runs.refl.turned (.inl .start) trivial rfl
  have called : Execution.Runs approvedPay "r".toList "i".toList {} ⟨approvedCalled, .calling⟩ :=
    (started.turned (.inr ⟨rfl, rfl⟩) (unfailed _ (.discover 4)) rfl).turned (.inl .rpc) (Finset.notMem_empty _) rfl
  have begun : Execution.Runs approvedPay "r".toList "i".toList {} ⟨approvedBegun, .calling⟩ :=
    called.turned (.inr ⟨rfl, rfl⟩) (fun _ _ => rfl) rfl
  have answering : Execution.Runs approvedPay "r".toList "i".toList {} ⟨approvedAnswering, .calling⟩ :=
    begun.turned (.inr ⟨rfl, rfl⟩) (unfailed _ _) rfl
  have cancelled : approvedAnswering.txs "t".toList = some approvedTx := rfl
  have rolledBack : approvedTx.move .cancelled = some approvedTx.over := rfl
  have closing : Execution.Runs approvedPay "r".toList "i".toList {} ⟨approvedClosing, .calling⟩ :=
    .step answering (.beside (.acts cancelled rolledBack))
  have closed : Execution.Runs approvedPay "r".toList "i".toList {}
      ⟨approvedClosing.turns approvedPay none, .stopping (.ok .null)⟩ :=
    .step (closing.woken approvedClosing_drained rfl) (.outcome rfl rfl)
  have stopping : Execution.Runs approvedPay "r".toList "i".toList {}
      ⟨(approvedClosing.turns approvedPay none).turns approvedPay (some .stop), .stopping (.ok .null)⟩ :=
    closed.turned (.inl .stop) trivial rfl
  have idle : ((approvedClosing.turns approvedPay none).turns approvedPay (some .stop)).Drained approvedPay := by
    -- The outcome is recorded, so that nothing is going on.
    have ended := (stopping.sound rfl rfl (Execution.start_sound _ _)).ended_of_outcome rfl
    exact fun wait _ _ => ⟨ended.operations, fun txId actor _ found => ended.transactions txId actor found⟩
  have answered := Execution.Runs.step (stopping.woken idle rfl) (.answers rfl rfl)
  exact ⟨_, answered, rfl, nofun, ((nothing_outlives_answer approvedPay rfl rfl _ _ _ answered).1 _ rfl).1⟩

end Executions

end RootCx.Worker
