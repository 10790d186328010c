import Mathlib
import RootCx.Lib.Runs
import RootCx.Manager.Keys

/-! # The pool of worker processes

`worker_manager.rs` keeps at most one process for each key and at most `cap` processes
in all.  The map entry of a process holds its slot; who leaves the map gives the slot
back.  A call reads the map, asks the process for its status and gets its handle, or
takes a slot, for which it may evict an idle process, and starts one.  Beside the calls
run the reaper, `stop_app` and the invalidation of permissions.  Each of them is a task
here, and a step of it is what it does between two of its awaits.  A call runs to its
end: that its request is dropped at an await is left out.
-/

namespace RootCx.Manager.Pool

open RootCx.Text Runs List

/-! ## The source functions -/

/-- A supervised process.  A call starts one at most, so its task is its number. -/
structure Proc where
  task : Nat
  key : Text × Text
  deriving DecidableEq

/-- The slot of an entry is the one of its process. -/
structure WorkerEntry where
  handle : Proc
  lastUsed : Nat
  deriving DecidableEq

/-- What a slot is taken for: the cached process of a key, or an approved action. -/
structure Request where
  key : Text × Text
  approved : Bool
  deriving DecidableEq

/-- Whose workers are stopped. -/
inductive Target where
  | app (appId : Text)
  | principal (userId : Uuid)

/-- Where a task is: what it does next, and the handles it has. -/
inductive Stage where
  /-- `get_or_spawn` asks the cached process for its status. -/
  | probing (worker : Proc)
  /-- The process runs; its entry is about to be touched. -/
  | touching (worker : Proc)
  /-- The process does not run and is about to be stopped. -/
  | replacing (worker : Proc)
  /-- The entry of the stopped process is about to be removed. -/
  | clearing (worker : Proc)
  /-- `take_slot` tries for a free slot. -/
  | admitting (request : Request)
  /-- No slot is free; the map is about to be read for candidates. -/
  | listing (request : Request)
  /-- The next candidate is asked whether it is idle. -/
  | evicting (request : Request) (candidates : List Proc)
  /-- The candidate was idle; its entry is about to be removed. -/
  | removing (request : Request) (worker : Proc) (rest : List Proc)
  /-- The entry is removed and the process about to be stopped. -/
  | stopping (request : Request) (worker : Proc) (rest : List Proc)
  /-- The slot that was freed is tried for. -/
  | retrying (request : Request) (rest : List Proc)
  /-- The slot is taken and the process about to be started. -/
  | spawning (approved : Bool) (worker : Proc)
  /-- The process is started and about to be put into the map. -/
  | registering (worker : Proc)
  /-- Another process has the key; the own one is about to be stopped. -/
  | yielding (worker existing : Proc)
  /-- `get_or_spawn` has returned the handle. -/
  | handed (worker : Proc)
  /-- The process has a unit of work of this caller. -/
  | working (worker : Proc)
  /-- The process of an approved action, with the slot of its task. -/
  | alone (worker : Proc)
  /-- The reaper waits for its next sweep. -/
  | sweeping
  /-- The next stale process is asked whether it is idle. -/
  | reaping (now : Nat) (stale : List Proc)
  /-- The process was idle; its entry is about to be looked at again. -/
  | judging (now : Nat) (worker : Proc) (rest : List Proc)
  /-- The reaper has removed the entry and is about to stop the process. -/
  | ending (now : Nat) (worker : Proc) (rest : List Proc)
  /-- `stop_app` and `invalidate_for_principal` are about to read the map. -/
  | hunting (targets : List Target)
  /-- The next process of the target is about to be stopped. -/
  | halting (victims : List Proc) (targets : List Target)
  /-- Its key is about to be removed. -/
  | dropping (worker : Proc) (victims : List Proc) (targets : List Target)
  | gone

/-- The slots that the variables of a task hold: those of the entries it has cloned, and
    the one it has taken itself. -/
def Stage.slots : Stage → List Proc
  | .probing worker | .touching worker | .replacing worker | .clearing worker => [worker]
  | .spawning _ worker | .registering worker | .alone worker => [worker]
  | .yielding worker existing => [worker, existing]
  | _ => []

/-- `live` are the processes that run, `kept` those whose supervisor holds one, is about
    to start one or waits to restart it. -/
structure State where
  clock : Nat
  live : Finset Proc
  kept : Finset Proc
  workers : List WorkerEntry
  tasks : List Stage

/-- The processes of the map. -/
def State.mapped (s : State) : List Proc := s.workers.map (·.handle)

/-- The processes whose slot is taken. -/
def State.held (s : State) : Finset Proc :=
  s.mapped.toFinset ∪ (s.tasks.flatMap Stage.slots).toFinset

def State.get (s : State) (key : Text × Text) : Option WorkerEntry := s.workers.find? (·.handle.key = key)

def State.remove (s : State) (key : Text × Text) : State :=
  { s with workers := s.workers.filter (·.handle.key ≠ key) }

def State.register (s : State) (worker : Proc) : State :=
  { s with workers := ⟨worker, s.clock⟩ :: s.workers }

def State.touch (s : State) (key : Text × Text) : State :=
  { s with workers := s.workers.map fun e => if e.handle.key = key then { e with lastUsed := s.clock } else e }

/-- `SupervisorHandle::stop` -/
def State.stop (s : State) (worker : Proc) : State :=
  { s with live := s.live.erase worker, kept := s.kept.erase worker }

def State.start (s : State) (worker : Proc) : State := { s with kept := insert worker s.kept }

def State.goTo (s : State) (task : Nat) (stage : Stage) : State := { s with tasks := s.tasks.set task stage }

def State.spawn (s : State) (stage : Stage) : State := { s with tasks := s.tasks ++ [stage] }

/-- A process says that it is idle: nothing is in flight, and the answer comes in time. -/
def State.isIdle (s : State) (worker : Proc) (answers : Bool) : Bool :=
  answers && s.tasks.all fun stage => match stage with
    | .working other => other ≠ worker
    | _ => true

/-- In nanoseconds. -/
def workerIdleTtl : Nat := 15 * 60 * 1000000000

def maxEvictionProbes : Nat := 4

def WorkerEntry.stale (entry : WorkerEntry) (now : Nat) : Bool := workerIdleTtl < now - entry.lastUsed

variable {key : Text × Text}

section Manager

variable (agentUserId : Text → Uuid) (cap : Nat)

def Target.covers (target : Target) (key : Text × Text) : Bool :=
  match target with
  | .app appId => key.1 = appId
  | .principal userId => workerKeyBelongsToPrincipal agentUserId key userId

/-- `try_acquire_owned`, and what the task does with the slot or without it. -/
def State.acquire (s : State) (task : Nat) (request : Request) (full : Stage) : State :=
  if s.held.card < cap then s.goTo task (.spawning request.approved ⟨task, request.key⟩)
  else s.goTo task full

/-- The step of a task that does not read the whole map.  `answer` is what the outside
    gives back: that a process answers in time, that a start works, that the caller of
    `get_or_spawn` has work for the process. -/
def State.advance (s : State) (task : Nat) (answer : Bool) : Stage → Option State
  | .probing worker =>
    if worker ∈ s.kept then s.goTo task (.touching worker) else s.goTo task (.replacing worker)
  | .touching worker => (s.touch worker.key).goTo task (.handed worker)
  | .replacing worker => (s.stop worker).goTo task (.clearing worker)
  | .clearing worker => (s.remove worker.key).goTo task (.admitting ⟨worker.key, false⟩)
  | .admitting request => s.acquire cap task request (.listing request)
  | .evicting _ [] => s.goTo task .gone
  | .evicting request (worker :: rest) =>
    if s.isIdle worker answer then s.goTo task (.removing request worker rest)
    else s.goTo task (.evicting request rest)
  | .removing request worker rest =>
    if (s.get worker.key).isSome then (s.remove worker.key).goTo task (.stopping request worker rest)
    else s.goTo task (.evicting request rest)
  | .stopping request worker rest => (s.stop worker).goTo task (.retrying request rest)
  | .retrying request rest => s.acquire cap task request (.evicting request rest)
  | .spawning approved worker =>
    if answer then (s.start worker).goTo task (if approved then .alone worker else .registering worker)
    else s.goTo task .gone
  | .registering worker =>
    match s.get worker.key with
    | some existing => s.goTo task (.yielding worker existing.handle)
    | none => (s.register worker).goTo task (.handed worker)
  | .yielding worker existing => (s.stop worker).goTo task (.handed existing)
  | .handed worker => s.goTo task (if answer then .working worker else .gone)
  | .working _ => s.goTo task .gone
  | .alone worker => (s.stop worker).goTo task .gone
  | .reaping _ [] => s.goTo task .sweeping
  | .reaping now (worker :: rest) =>
    if s.isIdle worker answer then s.goTo task (.judging now worker rest) else s.goTo task (.reaping now rest)
  | .judging now worker rest =>
    if (s.get worker.key).any (·.stale now) then (s.remove worker.key).goTo task (.ending now worker rest)
    else s.goTo task (.reaping now rest)
  | .ending now worker rest => (s.stop worker).goTo task (.reaping now rest)
  | .halting [] targets => s.goTo task (.hunting targets)
  | .halting (worker :: victims) targets => (s.stop worker).goTo task (.dropping worker victims targets)
  | .dropping worker victims targets => (s.remove worker.key).goTo task (.halting victims targets)
  | .listing _ | .sweeping | .hunting _ | .gone => none

/-- The step of a task that reads the whole map, in the order in which it comes. -/
def State.scan (s : State) (task : Nat) (order : List WorkerEntry) : Stage → Option State
  | .listing request =>
    let candidates := (order.insertionSort fun a b => a.lastUsed ≤ b.lastUsed).map (·.handle)
    s.goTo task (.evicting request (candidates.take maxEvictionProbes))
  | .sweeping => s.goTo task (.reaping s.clock ((order.filter (·.stale s.clock)).map (·.handle)))
  | .hunting [] => s.goTo task .gone
  | .hunting (target :: targets) =>
    s.goTo task (.halting ((order.filter (target.covers agentUserId ·.handle.key)).map (·.handle)) targets)
  | _ => none

inductive Action where
  | tick (nanos : Nat)
  /-- `get_or_spawn` reads the map. -/
  | call (key : Text × Text)
  /-- An approved action asks for a slot of its own. -/
  | approve (key : Text × Text)
  | stopApp (appId : Text)
  /-- `invalidate_for_role` lists the principals of the role, or there is one. -/
  | invalidate (userIds : List Uuid)
  | go (task : Nat) (answer : Bool)
  | scan (task : Nat) (order : List WorkerEntry)
  /-- The supervisor starts the process, for the first time or again. -/
  | launch (worker : Proc)
  | crash (worker : Proc)
  /-- The start has failed, or the process has crashed too often. -/
  | giveUp (worker : Proc)

def step (s : State) : Action → Option State
  | .tick nanos => some { s with clock := s.clock + nanos }
  | .call key =>
    match s.get key with
    | some entry => s.spawn (.probing entry.handle)
    | none => s.spawn (.admitting ⟨key, false⟩)
  | .approve key => s.spawn (.admitting ⟨key, true⟩)
  | .stopApp appId => s.spawn (.hunting [.app appId])
  | .invalidate userIds => s.spawn (.hunting (userIds.map .principal))
  | .go task answer => s.tasks[task]?.bind (s.advance cap task answer)
  | .scan task order => if order.Perm s.workers then s.tasks[task]?.bind (s.scan agentUserId task order) else none
  | .launch worker => if worker ∈ s.kept then some { s with live := insert worker s.live } else none
  | .crash worker => some { s with live := s.live.erase worker }
  | .giveUp worker => s.stop worker

/-- The manager with its reaper. -/
def start : State := ⟨0, ∅, ∅, [], [.sweeping]⟩

/-! ## When no work is cut off and the cap holds -/

/-- Eviction or the reaper stops the process in the next step of the task. -/
def Stage.condemned : Stage → List Proc
  | .stopping _ worker _ | .ending _ worker _ => [worker]
  | _ => []

/-- The caller has the handle, or the process has work of it. -/
def Stage.engaged : Stage → List Proc
  | .handed worker | .working worker => [worker]
  | _ => []

/-- `get_or_spawn` has returned the handle, or has seen the process run and returns it. -/
def Stage.relied : Stage → List Proc
  | .touching worker | .yielding _ worker | .handed worker | .working worker => [worker]
  | _ => []

/-- No more processes run than there are slots, and none is stopped to make room, or for
    being idle, that a caller was given. -/
structure Sound (s : State) : Prop where
  bounded : s.live.card ≤ cap
  spared : ∀ stage ∈ s.tasks, ∀ worker ∈ stage.condemned, ∀ caller ∈ s.tasks, worker ∉ caller.engaged

/-- The next step of the task is outside the gaps between slot, process and map entry: a
    slot is taken only while each process holds its own; an entry is removed for being
    idle only when no caller relies on its process; and the status of a process is not
    read between the removal of its entry and its end. -/
def Stage.Guarded (s : State) : Stage → Prop
  | .admitting _ | .retrying _ _ => s.held.card < cap → s.kept ⊆ s.held
  | .removing _ worker _ => (s.get worker.key).isSome → ∀ caller ∈ s.tasks, worker ∉ caller.relied
  | .judging now worker _ => (s.get worker.key).any (·.stale now) → ∀ caller ∈ s.tasks, worker ∉ caller.relied
  | .probing worker => worker ∈ s.kept → ∀ stage ∈ s.tasks, worker ∉ stage.condemned
  | _ => True

def Guarded (s : State) : Action → Prop
  | .go task _ => ∀ stage ∈ s.tasks[task]?, stage.Guarded cap s
  | _ => True

instance Stage.decidableGuarded (s : State) : ∀ stage : Stage, Decidable (stage.Guarded cap s)
  | .admitting _ | .retrying _ _ | .probing _ => inferInstanceAs (Decidable (_ → _))
  | .removing _ _ _ | .judging _ _ _ => inferInstanceAs (Decidable (_ → _))
  | .touching _ | .replacing _ | .clearing _ | .listing _ | .evicting _ _ | .stopping _ _ _ | .spawning _ _ => isTrue trivial
  | .registering _ | .yielding _ _ | .handed _ | .working _ | .alone _ | .sweeping | .reaping _ _ => isTrue trivial
  | .ending _ _ _ | .hunting _ | .halting _ _ | .dropping _ _ _ | .gone => isTrue trivial

instance decidableGuarded (s : State) : ∀ action, Decidable (Guarded cap s action)
  | .go task _ => inferInstanceAs (Decidable (∀ stage ∈ s.tasks[task]?, stage.Guarded cap s))
  | .tick _ | .call _ | .approve _ | .stopApp _ | .invalidate _ | .scan _ _ => isTrue trivial
  | .launch _ | .crash _ | .giveUp _ => isTrue trivial

/-! ## The invariant -/

/-- The processes that a task has seen in the map and may stop for being idle. -/
def Stage.seen : Stage → List Proc
  | .evicting _ candidates => candidates
  | .removing _ worker rest | .stopping _ worker rest => worker :: rest
  | .retrying _ rest => rest
  | .reaping _ stale => stale
  | .judging _ worker rest | .ending _ worker rest => worker :: rest
  | _ => []

/-- The process that a task has started, or is about to, and not yet registered. -/
def Stage.fresh : Stage → List Proc
  | .spawning _ worker | .registering worker => [worker]
  | _ => []

/-- The task has registered its process, if it ever does. -/
def Stage.past : Stage → Bool
  | .handed _ | .working _ | .gone => true
  | _ => false

/-- The task of the process has registered it. -/
def Registered (s : State) (worker : Proc) : Prop := ∃ stage, s.tasks[worker.task]? = some stage ∧ stage.past = true

structure Inv (s : State) : Prop where
  running : s.live ⊆ s.kept
  bounded : (s.kept ∪ s.held).card ≤ cap
  own : ∀ (task : Nat) (stage : Stage), s.tasks[task]? = some stage → ∀ worker ∈ stage.fresh, worker.task = task
  mapped : ∀ worker ∈ s.mapped, Registered s worker
  seen : ∀ stage ∈ s.tasks, ∀ worker ∈ stage.seen, Registered s worker
  removed : ∀ stage ∈ s.tasks, ∀ worker ∈ stage.condemned, worker ∉ s.mapped
  spared : ∀ stage ∈ s.tasks, ∀ worker ∈ stage.condemned, ∀ caller ∈ s.tasks, worker ∉ caller.relied

variable {agentUserId : Text → Uuid} {cap : Nat} {s next : State} {task : Nat} {stage after : Stage} {worker : Proc}

theorem mem_held : worker ∈ s.held ↔ worker ∈ s.mapped ∨ ∃ stage ∈ s.tasks, worker ∈ stage.slots := by
  simp only [State.held, Finset.mem_union, mem_toFinset, mem_flatMap]

theorem mem_held_of_slots (here : s.tasks[task]? = some stage) (slot : worker ∈ stage.slots) : worker ∈ s.held :=
  mem_held.mpr (.inr ⟨stage, mem_of_getElem? here, slot⟩)

theorem mem_tasks_set {other : Stage} (mem : other ∈ s.tasks.set task after) : other ∈ s.tasks ∨ other = after :=
  mem_or_eq_of_mem_set mem

theorem held_moved (tasks : next.tasks = s.tasks.set task after) (mem : worker ∈ next.held) :
    worker ∈ next.mapped ∨ (∃ stage ∈ s.tasks, worker ∈ stage.slots) ∨ worker ∈ after.slots := by
  rcases mem_held.mp mem with inMap | ⟨stage, listed, slot⟩
  · exact .inl inMap
  · rw [tasks] at listed
    rcases mem_tasks_set listed with old | rfl
    · exact .inr (.inl ⟨stage, old, slot⟩)
    · exact .inr (.inr slot)

theorem Registered.goTo (registered : Registered s worker) (here : s.tasks[task]? = some stage)
    (tasks : next.tasks = s.tasks.set task after) (past : stage.past = true → after.past = true) :
    Registered next worker := by
  obtain ⟨old, found, done⟩ := registered
  by_cases same : task = worker.task
  · subst same
    cases here.symm.trans found
    have inside : worker.task < s.tasks.length := (List.getElem?_eq_some_iff.mp here).1
    exact ⟨after, by rw [tasks, getElem?_set_self inside], past done⟩
  · exact ⟨old, by rw [tasks, getElem?_set_ne same, found], done⟩

theorem Registered.elsewhere (registered : Registered s worker) (here : s.tasks[task]? = some stage)
    (yet : stage.past = false) : worker.task ≠ task := by
  rintro rfl
  obtain ⟨old, found, done⟩ := registered
  cases here.symm.trans found
  exact absurd (done.symm.trans yet) (by decide)

theorem condemned_seen (doomed : worker ∈ stage.condemned) : worker ∈ stage.seen := by
  cases stage with
  | stopping | ending =>
    rw [mem_singleton.mp doomed]
    exact mem_cons_self
  | _ => cases doomed

/-- What the step of one task has to keep, beside the bound. -/
theorem Inv.moved (inv : Inv cap s) (here : s.tasks[task]? = some stage) (tasks : next.tasks = s.tasks.set task after)
    (running : next.live ⊆ next.kept) (bounded : (next.kept ∪ next.held).card ≤ cap)
    (fresh : ∀ worker ∈ after.fresh, worker.task = task)
    (mapped : ∀ worker ∈ next.mapped,
      worker ∈ s.mapped ∨ worker.task = task ∧ stage.past = false ∧ after.past = true)
    (past : stage.past = true → after.past = true)
    (seen : ∀ worker ∈ after.seen, worker ∈ s.mapped ∨ worker ∈ stage.seen)
    (condemned : ∀ worker ∈ after.condemned,
      worker ∉ next.mapped ∧ (∀ caller ∈ s.tasks, worker ∉ caller.relied) ∧ worker ∉ after.relied)
    (relied : ∀ worker ∈ after.relied, worker ∈ stage.relied ∨ worker ∈ s.mapped ∨
      worker.task = task ∧ stage.past = false ∨ ∀ other ∈ s.tasks, worker ∉ other.condemned) :
    Inv cap next := by
  have inside : task < s.tasks.length := (List.getElem?_eq_some_iff.mp here).1
  have here' : stage ∈ s.tasks := mem_of_getElem? here
  have registered {worker : Proc} (before : Registered s worker) : Registered next worker :=
    before.goTo here tasks past
  -- a process that is condemned was seen in the map, so its task has registered it
  have met {other : Stage} (mem : other ∈ s.tasks) {worker : Proc} (doomed : worker ∈ other.condemned) :
      Registered s worker := inv.seen other mem worker (condemned_seen doomed)
  refine ⟨running, bounded, ?_, ?_, ?_, ?_, ?_⟩
  · intro index other found worker mem
    rw [tasks] at found
    by_cases same : task = index
    · subst same
      rw [getElem?_set_self inside] at found
      cases found
      exact fresh worker mem
    · rw [getElem?_set_ne same] at found
      exact inv.own index other found worker mem
  · intro worker mem
    rcases mapped worker mem with before | ⟨rfl, -, done⟩
    · exact registered (inv.mapped worker before)
    · exact ⟨after, by rw [tasks, getElem?_set_self inside], done⟩
  · intro other mem worker listed
    rw [tasks] at mem
    rcases mem_tasks_set mem with mem | rfl
    · exact registered (inv.seen other mem worker listed)
    · rcases seen worker listed with before | before
      · exact registered (inv.mapped worker before)
      · exact registered (inv.seen stage here' worker before)
  · intro other mem worker doomed
    rw [tasks] at mem
    rcases mem_tasks_set mem with mem | rfl
    · intro inMap
      rcases mapped worker inMap with before | ⟨own, yet, -⟩
      · exact inv.removed other mem worker doomed before
      · exact (met mem doomed).elsewhere here yet own
    · exact (condemned worker doomed).1
  · intro other mem worker doomed caller calling relying
    rw [tasks] at mem calling
    rcases mem_tasks_set mem with old | rfl
    · rcases mem_tasks_set calling with calling | rfl
      · exact inv.spared other old worker doomed caller calling relying
      · rcases relied worker relying with before | before | ⟨own, yet⟩ | before
        · exact inv.spared other old worker doomed stage here' before
        · exact inv.removed other old worker doomed before
        · exact (met old doomed).elsewhere here yet own
        · exact before other old doomed
    · rcases mem_tasks_set calling with calling | rfl
      · exact (condemned worker doomed).2.1 caller calling relying
      · exact (condemned worker doomed).2.2 relying

/-- Processes that end and entries that go keep the invariant. -/
theorem Inv.shrunk (inv : Inv cap s) (tasks : next.tasks = s.tasks) (running : next.live ⊆ next.kept)
    (kept : next.kept ⊆ s.kept) (mapped : next.mapped ⊆ s.mapped) : Inv cap next := by
  have registered {worker : Proc} (before : Registered s worker) : Registered next worker := by
    obtain ⟨stage, found, done⟩ := before
    exact ⟨stage, by rw [tasks, found], done⟩
  refine ⟨running, ?_, ?_, ?_, ?_, ?_, ?_⟩
  · apply le_trans (Finset.card_le_card ?_) inv.bounded
    apply Finset.union_subset_union kept
    intro worker mem
    rw [mem_held, tasks] at mem
    rw [mem_held]
    exact mem.imp_left (@mapped _)
  · rw [tasks]
    exact inv.own
  · exact fun worker mem => registered (inv.mapped worker (mapped mem))
  · rw [tasks]
    exact fun stage mem worker listed => registered (inv.seen stage mem worker listed)
  · rw [tasks]
    exact fun stage mem worker doomed inMap => inv.removed stage mem worker doomed (mapped inMap)
  · rw [tasks]
    exact inv.spared

theorem Inv.stop (inv : Inv cap s) (worker : Proc) : Inv cap (s.stop worker) :=
  inv.shrunk rfl (Finset.erase_subset_erase worker inv.running) (Finset.erase_subset worker s.kept) (fun _ => id)

theorem mapped_remove : worker ∈ (s.remove key).mapped ↔ worker ∈ s.mapped ∧ worker.key ≠ key := by
  simp only [State.mapped, State.remove, mem_map, mem_filter, decide_eq_true_eq]
  grind

theorem Inv.remove (inv : Inv cap s) (key : Text × Text) : Inv cap (s.remove key) :=
  inv.shrunk rfl inv.running (fun _ => id) fun _ mem => (mapped_remove.mp mem).1

theorem mapped_touch : (s.touch key).mapped = s.mapped := by
  simp only [State.mapped, State.touch, map_map]
  apply map_congr_left
  intro entry _
  simp only [Function.comp]
  split <;> rfl

theorem Inv.touch (inv : Inv cap s) (key : Text × Text) : Inv cap (s.touch key) :=
  inv.shrunk rfl inv.running (fun _ => id) (by rw [mapped_touch]; exact fun _ => id)

theorem Inv.goTo (inv : Inv cap s) (here : s.tasks[task]? = some stage)
    (slots : ∀ worker ∈ after.slots, worker ∈ s.held) (fresh : ∀ worker ∈ after.fresh, worker ∈ stage.fresh)
    (past : stage.past = true → after.past = true)
    (seen : ∀ worker ∈ after.seen, worker ∈ s.mapped ∨ worker ∈ stage.seen)
    (condemned : after.condemned = [])
    (relied : ∀ worker ∈ after.relied, worker ∈ stage.relied ∨ worker ∈ s.mapped ∨
      worker.task = task ∧ stage.past = false ∨ ∀ other ∈ s.tasks, worker ∉ other.condemned) :
    Inv cap (s.goTo task after) := by
  refine inv.moved here rfl inv.running ?_ ?_ (fun _ mem => .inl mem) past seen ?_ relied
  · apply le_trans (Finset.card_le_card ?_) inv.bounded
    apply Finset.union_subset_union (Finset.Subset.refl _)
    intro worker mem
    rcases held_moved rfl mem with inMap | old | slot
    · exact mem_held.mpr (.inl inMap)
    · exact mem_held.mpr (.inr old)
    · exact slots worker slot
  · exact fun worker mem => inv.own task stage here worker (fresh worker mem)
  · intro worker doomed
    rw [condemned] at doomed
    cases doomed

theorem Inv.spawn (inv : Inv cap s) (slots : ∀ worker ∈ after.slots, worker ∈ s.held) (fresh : after.fresh = [])
    (seen : after.seen = []) (condemned : after.condemned = []) (relied : after.relied = []) :
    Inv cap (s.spawn after) := by
  have split {other : Stage} (mem : other ∈ (s.spawn after).tasks) : other ∈ s.tasks ∨ other = after := by
    rw [State.spawn] at mem
    simpa only [mem_append, mem_singleton] using mem
  have registered {worker : Proc} (before : Registered s worker) : Registered (s.spawn after) worker := by
    obtain ⟨stage, found, done⟩ := before
    exact ⟨stage, getElem?_append_left (List.getElem?_eq_some_iff.mp found).1 ▸ found, done⟩
  refine ⟨inv.running, ?_, ?_, ?_, ?_, ?_, ?_⟩
  · apply le_trans (Finset.card_le_card ?_) inv.bounded
    apply Finset.union_subset_union (Finset.Subset.refl _)
    intro worker mem
    rcases mem_held.mp mem with inMap | ⟨other, listed, slot⟩
    · exact mem_held.mpr (.inl inMap)
    · rcases split listed with old | rfl
      · exact mem_held.mpr (.inr ⟨other, old, slot⟩)
      · exact slots worker slot
  · intro index other found worker mem
    by_cases inside : index < s.tasks.length
    · rw [State.spawn, getElem?_append_left inside] at found
      exact inv.own index other found worker mem
    · rw [State.spawn, getElem?_append_right (by omega)] at found
      obtain rfl := mem_singleton.mp (mem_of_getElem? found)
      rw [fresh] at mem
      cases mem
  · exact fun worker mem => registered (inv.mapped worker mem)
  · intro other mem worker listed
    rcases split mem with old | rfl
    · exact registered (inv.seen other old worker listed)
    · rw [seen] at listed
      cases listed
  · intro other mem worker doomed
    rcases split mem with old | rfl
    · exact inv.removed other old worker doomed
    · rw [condemned] at doomed
      cases doomed
  · intro other mem worker doomed caller calling relying
    rcases split mem with old | rfl
    · rcases split calling with calling | rfl
      · exact inv.spared other old worker doomed caller calling relying
      · rw [relied] at relying
        cases relying
    · rw [condemned] at doomed
      cases doomed

/-- A slot is taken while each process holds its own, so there is room for one more. -/
theorem Inv.acquire (inv : Inv cap s) (here : s.tasks[task]? = some stage) {request : Request}
    (full : Inv cap (s.goTo task after)) (yet : stage.past = false) (guarded : s.held.card < cap → s.kept ⊆ s.held) :
    Inv cap (s.acquire cap task request after) := by
  unfold State.acquire
  split
  next room =>
    refine inv.moved here rfl inv.running ?_ ?_ (fun _ mem => .inl mem) ?_ ?_ ?_ ?_
    · have grown : s.kept ∪ (s.goTo task (.spawning request.approved ⟨task, request.key⟩)).held ⊆
          insert ⟨task, request.key⟩ s.held := by
        intro worker mem
        rw [Finset.mem_insert]
        rcases Finset.mem_union.mp mem with kept | held
        · exact .inr (guarded room kept)
        · rcases held_moved rfl held with inMap | old | slot
          · exact .inr (mem_held.mpr (.inl inMap))
          · exact .inr (mem_held.mpr (.inr old))
          · exact .inl (mem_singleton.mp slot)
      apply le_trans (Finset.card_le_card grown)
      apply le_trans (Finset.card_insert_le _ _)
      exact room
    · intro worker mem
      rw [mem_singleton.mp mem]
    · rw [yet]
      exact fun done => nomatch done
    all_goals exact fun _ mem => nomatch mem
  next => exact full

theorem Inv.start (inv : Inv cap s) (worker : Proc) (slot : worker ∈ s.held) : Inv cap (s.start worker) := by
  refine ⟨inv.running.trans (Finset.subset_insert _ _), ?_, inv.own, inv.mapped, inv.seen, inv.removed, inv.spared⟩
  have same : (s.start worker).kept ∪ (s.start worker).held = s.kept ∪ s.held := by
    change insert worker s.kept ∪ s.held = s.kept ∪ s.held
    rw [Finset.insert_union, Finset.insert_eq_of_mem (Finset.mem_union_right _ slot)]
  rw [same]
  exact inv.bounded

theorem Inv.register (inv : Inv cap s) (here : s.tasks[task]? = some (.registering worker)) :
    Inv cap ((s.register worker).goTo task (.handed worker)) := by
  have own : worker.task = task := inv.own task _ here worker (mem_singleton.mpr rfl)
  have listed {other : Proc} (mem : other ∈ ((s.register worker).goTo task (.handed worker)).mapped) :
      other = worker ∨ other ∈ s.mapped := mem_cons.mp mem
  refine inv.moved here rfl inv.running ?_ ?_ ?_ (fun done => nomatch done) ?_ ?_ ?_
  · apply le_trans (Finset.card_le_card ?_) inv.bounded
    apply Finset.union_subset_union (Finset.Subset.refl _)
    intro other mem
    rcases held_moved rfl mem with inMap | old | slot
    · rcases listed inMap with rfl | before
      · exact mem_held_of_slots here (mem_singleton.mpr rfl)
      · exact mem_held.mpr (.inl before)
    · exact mem_held.mpr (.inr old)
    · cases slot
  · exact fun _ mem => nomatch mem
  · intro other mem
    rcases listed mem with rfl | before
    · exact .inr ⟨own, rfl, rfl⟩
    · exact .inl before
  · exact fun _ mem => nomatch mem
  · exact fun _ mem => nomatch mem
  · intro other mem
    rw [mem_singleton.mp mem]
    exact .inr (.inr (.inl ⟨own, rfl⟩))

/-- The entry of an idle process is removed: no caller relies on it, and none can any more. -/
theorem Inv.condemn (inv : Inv cap s) (here : s.tasks[task]? = some stage) (condemned : after.condemned = [worker])
    (relied : after.relied = []) (fresh : after.fresh = []) (slots : after.slots = []) (yet : stage.past = false)
    (seen : ∀ other ∈ after.seen, other ∈ stage.seen) (guarded : ∀ caller ∈ s.tasks, worker ∉ caller.relied) :
    Inv cap ((s.remove worker.key).goTo task after) := by
  have removed := inv.remove worker.key
  have gone : worker ∉ (s.remove worker.key).mapped := fun mem => (mapped_remove.mp mem).2 rfl
  refine removed.moved here rfl removed.running ?_ ?_ (fun _ mem => .inl mem) ?_
    (fun other mem => .inr (seen other mem)) ?_ ?_
  · apply le_trans (Finset.card_le_card ?_) removed.bounded
    apply Finset.union_subset_union (Finset.Subset.refl _)
    intro other mem
    rcases held_moved rfl mem with inMap | old | slot
    · exact mem_held.mpr (.inl inMap)
    · exact mem_held.mpr (.inr old)
    · rw [slots] at slot
      cases slot
  · rw [fresh]
    exact fun _ mem => nomatch mem
  · rw [yet]
    exact fun done => nomatch done
  · intro other doomed
    rw [condemned] at doomed
    obtain rfl := mem_singleton.mp doomed
    refine ⟨gone, guarded, ?_⟩
    rw [relied]
    exact fun mem => nomatch mem
  · rw [relied]
    exact fun _ mem => nomatch mem

/-- The task goes where it has no slot, no process of its own and no handle that it stops
    or returns. -/
theorem Inv.leave (inv : Inv cap s) (here : s.tasks[task]? = some stage) (slots : after.slots = [])
    (fresh : after.fresh = []) (condemned : after.condemned = []) (relied : after.relied = [])
    (past : stage.past = true → after.past = true)
    (seen : ∀ worker ∈ after.seen, worker ∈ s.mapped ∨ worker ∈ stage.seen) : Inv cap (s.goTo task after) := by
  apply inv.goTo here ?_ ?_ past seen condemned ?_
  · rw [slots]
    exact fun _ mem => nomatch mem
  · rw [fresh]
    exact fun _ mem => nomatch mem
  · rw [relied]
    exact fun _ mem => nomatch mem

theorem get_mapped {entry : WorkerEntry} (found : s.get key = some entry) :
    entry.handle ∈ s.mapped := mem_map_of_mem (mem_of_find?_eq_some found)

theorem Inv.advance {answer : Bool} (inv : Inv cap s) (here : s.tasks[task]? = some stage)
    (advanced : s.advance cap task answer stage = some next) (guarded : Guarded cap s (.go task answer)) :
    Inv cap next := by
  have guarded := guarded stage here
  have slot {worker : Proc} (listed : worker ∈ stage.slots) : worker ∈ s.held := mem_held_of_slots here listed
  cases stage with
  | probing worker =>
    simp only [State.advance] at advanced
    split at advanced
    next running =>
      cases advanced
      refine inv.goTo here (fun _ => slot) nofun nofun nofun rfl ?_
      intro other mem
      rw [mem_singleton.mp mem]
      exact .inr (.inr (.inr (guarded running)))
    next =>
      cases advanced
      exact inv.goTo here (fun _ => slot) nofun nofun nofun rfl nofun
  | touching worker =>
    cases advanced
    exact (inv.touch worker.key).goTo here nofun nofun nofun nofun rfl fun _ => .inl
  | replacing worker =>
    cases advanced
    exact (inv.stop worker).goTo here (fun _ => slot) nofun nofun nofun rfl nofun
  | clearing worker =>
    cases advanced
    exact (inv.remove worker.key).leave here rfl rfl rfl rfl nofun nofun
  | admitting request =>
    cases advanced
    exact inv.acquire here (inv.leave here rfl rfl rfl rfl nofun nofun) rfl guarded
  | evicting request candidates =>
    cases candidates with
    | nil =>
      cases advanced
      exact inv.leave here rfl rfl rfl rfl nofun nofun
    | cons worker rest =>
      simp only [State.advance] at advanced
      split at advanced
      · cases advanced
        exact inv.leave here rfl rfl rfl rfl nofun fun _ => .inr
      · cases advanced
        exact inv.leave here rfl rfl rfl rfl nofun fun _ mem => .inr (mem_cons_of_mem _ mem)
  | removing request worker rest =>
    simp only [State.advance] at advanced
    split at advanced
    next present =>
      cases advanced
      exact inv.condemn here rfl rfl rfl rfl rfl (fun _ => id) (guarded present)
    next =>
      cases advanced
      exact inv.leave here rfl rfl rfl rfl nofun fun _ mem => .inr (mem_cons_of_mem _ mem)
  | stopping request worker rest =>
    cases advanced
    exact (inv.stop worker).leave here rfl rfl rfl rfl nofun fun _ mem => .inr (mem_cons_of_mem _ mem)
  | retrying request rest =>
    cases advanced
    exact inv.acquire here (inv.leave here rfl rfl rfl rfl nofun fun _ => .inr) rfl guarded
  | spawning approved worker =>
    simp only [State.advance] at advanced
    have started := inv.start worker (slot (mem_singleton.mpr rfl))
    cases answer with
    | false =>
      cases advanced
      exact inv.leave here rfl rfl rfl rfl nofun nofun
    | true =>
      cases approved with
      | true =>
        cases advanced
        exact started.goTo here (fun _ => slot) nofun nofun nofun rfl nofun
      | false =>
        cases advanced
        exact started.goTo here (fun _ => slot) (fun _ => id) nofun nofun rfl nofun
  | registering worker =>
    simp only [State.advance] at advanced
    split at advanced
    next existing found =>
      cases advanced
      refine inv.goTo here ?_ nofun nofun nofun rfl ?_
      · intro other mem
        rcases mem_pair.mp mem with rfl | rfl
        · exact slot (mem_singleton.mpr rfl)
        · exact mem_held.mpr (.inl (get_mapped found))
      · intro other mem
        rw [mem_singleton.mp mem]
        exact .inr (.inl (get_mapped found))
    next =>
      cases advanced
      exact inv.register here
  | yielding worker existing =>
    cases advanced
    exact (inv.stop worker).goTo here nofun nofun nofun nofun rfl fun _ => .inl
  | handed worker =>
    cases answer with
    | true =>
      cases advanced
      exact inv.goTo here nofun nofun (fun _ => rfl) nofun rfl fun _ => .inl
    | false =>
      cases advanced
      exact inv.leave here rfl rfl rfl rfl (fun _ => rfl) nofun
  | working worker =>
    cases advanced
    exact inv.leave here rfl rfl rfl rfl (fun _ => rfl) nofun
  | alone worker =>
    cases advanced
    exact (inv.stop worker).leave here rfl rfl rfl rfl nofun nofun
  | reaping now stale =>
    cases stale with
    | nil =>
      cases advanced
      exact inv.leave here rfl rfl rfl rfl nofun nofun
    | cons worker rest =>
      simp only [State.advance] at advanced
      split at advanced
      · cases advanced
        exact inv.leave here rfl rfl rfl rfl nofun fun _ => .inr
      · cases advanced
        exact inv.leave here rfl rfl rfl rfl nofun fun _ mem => .inr (mem_cons_of_mem _ mem)
  | judging now worker rest =>
    simp only [State.advance] at advanced
    split at advanced
    next stale =>
      cases advanced
      exact inv.condemn here rfl rfl rfl rfl rfl (fun _ => id) (guarded stale)
    next =>
      cases advanced
      exact inv.leave here rfl rfl rfl rfl nofun fun _ mem => .inr (mem_cons_of_mem _ mem)
  | ending now worker rest =>
    cases advanced
    exact (inv.stop worker).leave here rfl rfl rfl rfl nofun fun _ mem => .inr (mem_cons_of_mem _ mem)
  | halting victims targets =>
    cases victims with
    | nil =>
      cases advanced
      exact inv.leave here rfl rfl rfl rfl nofun nofun
    | cons worker victims =>
      cases advanced
      exact (inv.stop worker).leave here rfl rfl rfl rfl nofun nofun
  | dropping worker victims targets =>
    cases advanced
    exact (inv.remove worker.key).leave here rfl rfl rfl rfl nofun nofun
  | listing | sweeping | hunting | gone => cases advanced

theorem Inv.scan {order : List WorkerEntry} (inv : Inv cap s) (here : s.tasks[task]? = some stage)
    (listed : order.Perm s.workers) (scanned : s.scan agentUserId task order stage = some next) : Inv cap next := by
  have known {entry : WorkerEntry} (mem : entry ∈ order) : entry.handle ∈ s.mapped :=
    mem_map_of_mem (listed.mem_iff.mp mem)
  cases stage with
  | listing request =>
    cases scanned
    refine inv.leave here rfl rfl rfl rfl nofun ?_
    intro worker mem
    obtain ⟨entry, sorted, rfl⟩ := mem_map.mp (mem_of_mem_take mem)
    exact .inl (known ((mem_insertionSort _).mp sorted))
  | sweeping =>
    cases scanned
    refine inv.leave here rfl rfl rfl rfl nofun ?_
    intro worker mem
    obtain ⟨entry, filtered, rfl⟩ := mem_map.mp mem
    exact .inl (known (mem_filter.mp filtered).1)
  | hunting targets =>
    cases targets with
    | nil =>
      cases scanned
      exact inv.leave here rfl rfl rfl rfl nofun nofun
    | cons target targets =>
      cases scanned
      exact inv.leave here rfl rfl rfl rfl nofun nofun
  | _ => cases scanned

theorem Inv.step {action : Action} (inv : Inv cap s) (stepped : step agentUserId cap s action = some next)
    (guarded : Guarded cap s action) : Inv cap next := by
  cases action with
  | tick nanos =>
    cases stepped
    exact inv.shrunk rfl inv.running (fun _ => id) fun _ => id
  | call key =>
    simp only [Pool.step] at stepped
    split at stepped
    next entry found =>
      cases stepped
      refine inv.spawn ?_ rfl rfl rfl rfl
      intro worker mem
      rw [mem_singleton.mp mem]
      exact mem_held.mpr (.inl (get_mapped found))
    next =>
      cases stepped
      exact inv.spawn nofun rfl rfl rfl rfl
  | approve | stopApp | invalidate =>
    cases stepped
    exact inv.spawn nofun rfl rfl rfl rfl
  | go task answer =>
    obtain ⟨stage, here, advanced⟩ := Option.bind_eq_some_iff.mp stepped
    exact inv.advance here advanced guarded
  | scan task order =>
    simp only [Pool.step] at stepped
    split at stepped
    next listed =>
      obtain ⟨stage, here, scanned⟩ := Option.bind_eq_some_iff.mp stepped
      exact inv.scan here listed scanned
    next => cases stepped
  | launch worker =>
    simp only [Pool.step] at stepped
    split at stepped
    next kept =>
      cases stepped
      exact inv.shrunk rfl (Finset.insert_subset kept inv.running) (fun _ => id) fun _ => id
    next => cases stepped
  | crash worker =>
    cases stepped
    exact inv.shrunk rfl ((Finset.erase_subset _ _).trans inv.running) (fun _ => id) fun _ => id
  | giveUp worker =>
    cases stepped
    exact inv.stop worker

theorem Inv.start_pool : Inv cap Pool.start where
  running := Finset.empty_subset _
  bounded := Nat.zero_le cap
  own := by
    intro task stage found worker mem
    obtain rfl := mem_singleton.mp (mem_of_getElem? found)
    cases mem
  mapped := nofun
  seen := by
    intro stage listed worker mem
    obtain rfl := mem_singleton.mp listed
    cases mem
  removed := by
    intro stage listed worker mem
    obtain rfl := mem_singleton.mp listed
    cases mem
  spared := by
    intro stage listed worker mem
    obtain rfl := mem_singleton.mp listed
    cases mem

theorem Inv.sound (inv : Inv cap s) : Sound cap s := by
  constructor
  · calc s.live.card ≤ s.kept.card := Finset.card_le_card inv.running
      _ ≤ (s.kept ∪ s.held).card := Finset.card_le_card Finset.subset_union_left
      _ ≤ cap := inv.bounded
  · intro stage listed worker doomed caller calling engaged
    apply inv.spared stage listed worker doomed caller calling
    cases caller with
    | handed | working => exact engaged
    | _ => cases engaged

/-- In every run whose steps are all outside the gaps, no more processes run than there
    are slots, and eviction and the reaper stop none that a caller was given. -/
theorem pool_sound {actions : List Action} (ran : run (step agentUserId cap) start actions = some s)
    (along : Along (step agentUserId cap) (Guarded cap) start actions) : Sound cap s :=
  (run_along Inv.step Inv.start_pool ran along).sound

end Manager

/-! ## A pool of two slots -/

section Examples

def keyed (letter : Char) : Text × Text := (['a'], [letter])

def first : Proc := ⟨1, keyed 'x'⟩

def second : Proc := ⟨2, keyed 'y'⟩

/-- A call starts a process for its key. -/
def starts (worker : Proc) : List Action :=
  [.call worker.key, .go worker.task true, .go worker.task true, .go worker.task true, .go worker.task false,
    .launch worker]

/-- Two idle processes fill the pool. -/
def filled : List Action := starts first ++ starts second

/-- A third call finds the first process idle. -/
def evicts : List Action :=
  [.call (keyed 'z'), .go 3 true, .scan 3 [⟨first, 0⟩, ⟨second, 0⟩], .go 3 true]

/-- The call removes the entry, stops the process, takes the slot and starts its own. -/
def admits : List Action := [.go 3 true, .go 3 true, .go 3 true, .go 3 true, .go 3 true]

theorem eviction_sound :
    ∃ s, run (step (fun _ => callerId) 2) start (filled ++ evicts ++ admits) = some s ∧ Sound 2 s := by
  have possible : (run (step (fun _ => callerId) 2) start (filled ++ evicts ++ admits)).isSome = true := by decide
  obtain ⟨s, ran⟩ := Option.isSome_iff_exists.mp possible
  exact ⟨s, ran, pool_sound ran (by decide)⟩

/-- A third process starts between the removal of an entry and the end of its process, and
    a process is stopped that was given to a caller between the idle probe and the removal. -/
theorem eviction_unsound :
    ¬(∀ actions, ∀ s ∈ run (step (fun _ => callerId) 2) start actions, s.live.card ≤ 2) ∧
    ¬(∀ actions, ∀ s ∈ run (step (fun _ => callerId) 2) start actions,
      ∀ stage ∈ s.tasks, ∀ worker ∈ stage.condemned, ∀ caller ∈ s.tasks, worker ∉ caller.engaged) := by
  constructor
  · intro bounded
    have within := bounded (filled ++ evicts ++ [Action.go 3 true] ++ starts ⟨4, keyed 'w'⟩)
    revert within
    decide
  · intro spared
    have safe := spared (filled ++ evicts ++ [Action.call (keyed 'x'), .go 4 true, .go 4 true, .go 3 true])
    revert safe
    decide

end Examples

end RootCx.Manager.Pool
