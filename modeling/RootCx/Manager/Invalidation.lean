import RootCx.Authority.Roles
import RootCx.Lib.Runs
import RootCx.Manager.Keys

/-! # Workers after a change of roles

The identity of a worker carries permissions that were resolved before the worker was
started: those of the caller and of each agent of the chain.  The role API writes the
role tables and then stops the workers that `worker_manager.rs` finds by the principals
the role is assigned to and by the keys of the map.  Each request of the API is a call
here that runs beside the others and beside the admission of new workers; a step of it
is what it does between two of its awaits.
-/

namespace RootCx.Manager.Invalidation

open RootCx.Text Authority Runs List Option

instance Uuid.decidableEq : DecidableEq Uuid := fun first second =>
  decidable_of_iff (first.text = second.text) ⟨Uuid.text_inj, congrArg Uuid.text⟩

/-! ## The source functions -/

/-- `rbac_roles`, as `resolve_permissions` reads it, and `rbac_assignments`. -/
structure Tables where
  hierarchy : RoleMap
  rolePerms : RoleMap
  assignments : List (Uuid × Text)

def Tables.assigned (tables : Tables) (user : Uuid) : List Text :=
  (tables.assignments.filter (·.1 = user)).map (·.2)

/-- What `invalidate_for_role` selects. -/
def Tables.assignees (tables : Tables) (role : Text) : List Uuid :=
  (tables.assignments.filter (·.2 = role)).map (·.1)

/-- A request of the role API that is not refused. -/
inductive Edit where
  | update (role : Text) (inherits permissions : Option (List Text))
  | delete (role : Text)
  | assign (user : Uuid) (role : Text)
  | revoke (user : Uuid) (role : Text)

/-- The first statement of the request; `none` when it changes no row. -/
def Tables.write (tables : Tables) : Edit → Option Tables
  | .update role inherits permissions =>
    if role ∈ tables.hierarchy then
      some { tables with
        hierarchy := (inherits.map (tables.hierarchy.insert role)).getD tables.hierarchy
        rolePerms := (permissions.map (tables.rolePerms.insert role)).getD tables.rolePerms }
    else none
  | .delete role =>
    if role ∈ tables.hierarchy then
      some { tables with hierarchy := tables.hierarchy.erase role, rolePerms := tables.rolePerms.erase role }
    else none
  | .assign user role =>
    if (user, role) ∈ tables.assignments then tables
    else some { tables with assignments := (user, role) :: tables.assignments }
  | .revoke user role =>
    if (user, role) ∈ tables.assignments then
      some { tables with assignments := tables.assignments.filter (· ≠ (user, role)) }
    else none

/-- The second statement of `delete_role`. -/
def Tables.unassign (tables : Tables) (role : Text) : Tables :=
  { tables with assignments := tables.assignments.filter (·.2 ≠ role) }

/-- The permissions of a principal were resolved when so many changes had been written. -/
structure Read where
  user : Uuid
  epoch : Nat
  deriving DecidableEq

/-- A worker process, by the number of the admission it was started for. -/
structure Proc where
  admission : Nat
  key : Text × Text
  reads : List Read
  deriving DecidableEq

/-- What a call does behind the workers it stops. -/
inductive Goal where
  /-- It returns; it has written the change of this number. -/
  | finish (number : Nat)
  /-- `delete_role` deletes the role. -/
  | delete (role : Text)

inductive Stage where
  /-- The change is about to be written. -/
  | writing (edit : Edit)
  /-- `invalidate_for_role` is about to select the principals. -/
  | listing (role : Text) (goal : Goal)
  /-- `invalidate_for_principal` is about to read the map for the first of them. -/
  | scanning (users : List Uuid) (goal : Goal)
  /-- The first of the workers is about to be stopped. -/
  | stopping (victims : List Proc) (users : List Uuid) (goal : Goal)
  /-- The key of the stopped worker is about to be removed. -/
  | removing (victim : Proc) (victims : List Proc) (users : List Uuid) (goal : Goal)
  /-- The assignments of the deleted role are about to be deleted. -/
  | clearing (role : Text) (number : Nat)
  /-- The call has returned, with the number of the change it has written. -/
  | returned (number : Option Nat)

/-- A change that was written, with the tables before it. -/
structure Change where
  number : Nat
  edit : Edit
  before : Tables

structure State where
  tables : Tables
  /-- The latest first; the number of a change counts the changes up to it. -/
  changes : List Change
  /-- The permissions resolved so far for a worker that is not yet started. -/
  admissions : List (Option (List Read))
  running : List Proc
  mapped : List Proc
  calls : List Stage

def State.goTo (s : State) (call : Nat) (stage : Stage) : State := { s with calls := s.calls.set call stage }

/-- A change is written and recorded. -/
def State.record (s : State) (edit : Edit) (tables : Tables) : State :=
  { s with tables, changes := ⟨s.changes.length + 1, edit, s.tables⟩ :: s.changes }

variable {worker : Proc} {edit : Edit}

section Manager

variable (agentUserId : Text → Uuid) (printable : Char → Bool)

abbrev belongs (worker : Proc) (user : Uuid) : Bool := workerKeyBelongsToPrincipal agentUserId worker.key user

/-- Behind the statement of `update_role`, `assign_role` and `revoke_role`. -/
def Edit.next (number : Nat) : Edit → Stage
  | .update role inherits permissions =>
    if permissions.isSome || inherits.isSome then .listing role (.finish number) else .returned none
  | .assign user _ | .revoke user _ => .scanning [user] (.finish number)
  | .delete role => .clearing role number

def State.advance (s : State) (call : Nat) : Stage → Option State
  | .writing edit =>
    match s.tables.write edit with
    | none => s.goTo call (.returned none)
    | some tables => (s.record edit tables).goTo call (edit.next (s.changes.length + 1))
  | .listing role goal => s.goTo call (.scanning (s.tables.assignees role) goal)
  | .scanning [] (.finish number) => s.goTo call (.returned (some number))
  | .scanning [] (.delete role) => s.goTo call (.writing (.delete role))
  | .scanning (_ :: _) _ => none
  | .stopping [] users goal => s.goTo call (.scanning users goal)
  | .stopping (victim :: victims) users goal =>
    { s with running := s.running.filter (· ≠ victim) }.goTo call (.removing victim victims users goal)
  | .removing victim victims users goal =>
    { s with mapped := s.mapped.filter (·.key ≠ victim.key) }.goTo call (.stopping victims users goal)
  | .clearing role number => { s with tables := s.tables.unassign role }.goTo call (.returned (some number))
  | .returned _ => none

/-- The statement of a step fails.  `invalidate_for_role` takes a failing selection
    for an empty one and goes on. -/
def State.fail (s : State) (call : Nat) : Stage → Option State
  | .writing _ | .clearing _ _ => s.goTo call (.returned none)
  | .listing _ goal => s.goTo call (.scanning [] goal)
  | _ => none

inductive Action where
  /-- A request is about to resolve the permissions of its principals. -/
  | arrive
  | resolve (admission : Nat) (user : Uuid)
  /-- The worker is started with what was resolved. -/
  | launch (admission : Nat) (appId : Text) (principal : Principal) (invocation : InvocationContext)
  /-- The worker is put into the map, unless another one has the key. -/
  | register (worker : Proc)
  /-- Its entry is removed: eviction, the reaper, `stop_app`. -/
  | leave (worker : Proc)
  | exit (worker : Proc)
  | call (edit : Edit)
  | go (call : Nat)
  /-- The same, with a statement that fails. -/
  | fail (call : Nat)
  /-- A call reads the map, in the order in which it comes. -/
  | scan (call : Nat) (order : List Proc)

/-- Where a request of the role API begins: `delete_role` stops the workers first. -/
def Edit.begin : Edit → Stage
  | .delete role => .listing role (.delete role)
  | edit => .writing edit

def step (s : State) : Action → Option State
  | .arrive => some { s with admissions := s.admissions ++ [some []] }
  | .resolve admission user => do
    let reads ← s.admissions[admission]?.join
    some { s with admissions := s.admissions.set admission (some (⟨user, s.changes.length⟩ :: reads)) }
  | .launch admission appId principal invocation => do
    let reads ← s.admissions[admission]?.join
    some { s with
      admissions := s.admissions.set admission none
      running := ⟨admission, workerKey printable appId principal invocation, reads⟩ :: s.running }
  | .register worker =>
    if worker ∈ s.running ∧ s.mapped.all (·.key ≠ worker.key) then some { s with mapped := worker :: s.mapped } else none
  | .leave worker => some { s with mapped := s.mapped.filter (· ≠ worker) }
  | .exit worker => some { s with running := s.running.filter (· ≠ worker) }
  | .call edit => some { s with calls := s.calls ++ [edit.begin] }
  | .go call => s.calls[call]?.bind (s.advance call)
  | .fail call => s.calls[call]?.bind (s.fail call)
  | .scan call order =>
    match s.calls[call]? with
    | some (.scanning (user :: users) goal) =>
      if order.Perm s.mapped then s.goTo call (.stopping (order.filter (belongs agentUserId · user)) users goal) else none
    | _ => none

def start (tables : Tables) : State := ⟨tables, [], [], [], [], []⟩

/-! ## When no worker is left with old permissions -/

/-- The principal holds the role, by assignment or through inheritance. -/
def Tables.Holds (tables : Tables) (user : Uuid) (role : Text) : Prop :=
  Inherited (tables.assigned user) tables.hierarchy role

/-- The principals whose permissions a change concerns. -/
def Change.Affects (change : Change) (user : Uuid) : Prop :=
  match change.edit with
  | .update role _ _ | .delete role => change.before.Holds user role
  | .assign other _ | .revoke other _ => user = other

/-- The identity of the worker has permissions of a principal that the change concerns,
    resolved before the change. -/
def Outdated (changes : List Change) (number : Nat) (worker : Proc) : Prop :=
  ∃ change ∈ changes, change.number = number ∧ ∃ read ∈ worker.reads, read.epoch < number ∧ change.Affects read.user

/-- No worker runs with permissions from before the change of a call that has returned. -/
def Current (s : State) : Prop :=
  ∀ number, Stage.returned (some number) ∈ s.calls → ∀ worker ∈ s.running, ¬Outdated s.changes number worker

/-- The change that the call has written. -/
def Stage.number : Stage → Option Nat
  | .listing _ (.finish number) | .scanning _ (.finish number) | .stopping _ _ (.finish number) => some number
  | .removing _ _ _ (.finish number) | .clearing _ number => some number
  | .returned number => number
  | _ => none

/-- The call is going to stop the worker, or to look for workers of such a key. -/
def Stage.Reaches (worker : Proc) : Stage → Prop
  | .listing _ _ => True
  | .scanning users _ => ∃ user ∈ users, belongs agentUserId worker user
  | .stopping victims users _ | .removing _ victims users _ =>
    worker ∈ victims ∨ ∃ user ∈ users, belongs agentUserId worker user
  | _ => False

/-- The next step of the call misses no worker: the key of a worker with permissions of the
    user tells so; no worker with permissions of a holder runs when a role is deleted; and
    the key of each worker that the change outdates tells a direct assignee. -/
def Stage.Careful (s : State) : Stage → Prop
  | .writing edit => (s.tables.write edit).isSome → ∀ worker ∈ s.running, ∀ read ∈ worker.reads,
    match edit with
    | .assign user _ | .revoke user _ => read.user = user → belongs agentUserId worker user
    | .delete role => ¬s.tables.Holds read.user role
    | .update _ _ _ => True
  | .listing role (.finish number) => ∀ worker ∈ s.running, Outdated s.changes number worker →
    ∃ user ∈ s.tables.assignees role, belongs agentUserId worker user
  | _ => True

/-- A failing selection misses no worker: none is outdated. -/
def Stage.Harmless (s : State) : Stage → Prop
  | .listing _ (.finish number) => ∀ worker ∈ s.running, ¬Outdated s.changes number worker
  | _ => True

/-- Beside the calls: a worker starts with outdated permissions only while the call of the
    change has still to look for it, and the map has it when it does. -/
def Careful (s : State) : Action → Prop
  | .launch admission appId principal invocation =>
    ∀ reads, s.admissions[admission]?.join = some reads → ∀ stage ∈ s.calls, ∀ number ∈ stage.number,
      Outdated s.changes number ⟨admission, workerKey printable appId principal invocation, reads⟩ →
      stage.Reaches agentUserId ⟨admission, workerKey printable appId principal invocation, reads⟩
  | .go call => ∀ stage ∈ s.calls[call]?, stage.Careful agentUserId s
  | .fail call => ∀ stage ∈ s.calls[call]?, stage.Harmless s
  | .scan call _ =>
    ∀ user users number, s.calls[call]? = some (.scanning (user :: users) (.finish number)) →
      ∀ worker ∈ s.running, Outdated s.changes number worker → belongs agentUserId worker user →
      worker ∈ s.mapped ∨ ∃ other ∈ users, belongs agentUserId worker other
  | _ => True

/-! ## The invariant -/

structure Inv (s : State) : Prop where
  counted : ∀ change ∈ s.changes, change.number ≤ s.changes.length
  written : ∀ stage ∈ s.calls, ∀ number ∈ stage.number, number ≤ s.changes.length
  pursued : ∀ stage ∈ s.calls, ∀ number ∈ stage.number, ∀ worker ∈ s.running,
    Outdated s.changes number worker → stage.Reaches agentUserId worker

variable {agentUserId : Text → Uuid} {printable : Char → Bool} {s next : State} {call : Nat} {stage after : Stage}

theorem Inv.moved (inv : Inv agentUserId s) (here : s.calls[call]? = some stage)
    (calls : next.calls = s.calls.set call after) (changes : next.changes = s.changes)
    (running : ∀ worker ∈ next.running, worker ∈ s.running) (number : ∀ number ∈ after.number, number ∈ stage.number)
    (pursued : ∀ number ∈ after.number, ∀ worker ∈ next.running, Outdated s.changes number worker →
      stage.Reaches agentUserId worker → after.Reaches agentUserId worker) : Inv agentUserId next := by
  have here' : stage ∈ s.calls := mem_of_getElem? here
  refine ⟨?_, ?_, ?_⟩
  · rw [changes]
    exact inv.counted
  · rw [calls, changes]
    intro other mem count counted
    rcases mem_or_eq_of_mem_set mem with old | rfl
    · exact inv.written other old count counted
    · exact inv.written stage here' count (number count counted)
  · rw [calls, changes]
    intro other mem count counted worker runs outdated
    rcases mem_or_eq_of_mem_set mem with old | rfl
    · exact inv.pursued other old count counted worker (running worker runs) outdated
    · apply pursued count counted worker runs outdated
      exact inv.pursued stage here' count (number count counted) worker (running worker runs) outdated

theorem Inv.beside (inv : Inv agentUserId s) (changes : next.changes = s.changes)
    (calls : ∀ stage ∈ next.calls, stage ∈ s.calls ∨ stage.number = none)
    (running : ∀ worker ∈ next.running, worker ∈ s.running) : Inv agentUserId next := by
  refine ⟨?_, ?_, ?_⟩
  · rw [changes]
    exact inv.counted
  · rw [changes]
    intro stage mem count counted
    rcases calls stage mem with old | fresh
    · exact inv.written stage old count counted
    · rw [fresh] at counted
      cases counted
  · rw [changes]
    intro stage mem count counted worker runs
    rcases calls stage mem with old | fresh
    · exact inv.pursued stage old count counted worker (running worker runs)
    · rw [fresh] at counted
      cases counted

theorem outdated_record {number : Nat} (old : number ≤ s.changes.length)
    (outdated : Outdated (⟨s.changes.length + 1, edit, s.tables⟩ :: s.changes) number worker) :
    Outdated s.changes number worker := by
  obtain ⟨change, mem, numbered, depends⟩ := outdated
  rcases mem_cons.mp mem with rfl | mem
  · have : s.changes.length + 1 = number := numbered
    omega
  · exact ⟨change, mem, numbered, depends⟩

theorem affects_record (inv : Inv agentUserId s)
    (outdated : Outdated (⟨s.changes.length + 1, edit, s.tables⟩ :: s.changes) (s.changes.length + 1) worker) :
    ∃ read ∈ worker.reads, Change.Affects ⟨s.changes.length + 1, edit, s.tables⟩ read.user := by
  obtain ⟨change, mem, numbered, read, listed, -, affects⟩ := outdated
  rcases mem_cons.mp mem with rfl | mem
  · exact ⟨read, listed, affects⟩
  · have := inv.counted change mem
    omega

theorem update_next (role : Text) (inherits permissions : Option (List Text)) (number : Nat) :
    (Edit.update role inherits permissions).next number = .listing role (.finish number) ∨
      (Edit.update role inherits permissions).next number = .returned none := by
  by_cases changed : (permissions.isSome || inherits.isSome) = true
  · exact .inl (if_pos changed)
  · exact .inr (if_neg changed)

theorem next_number {fresh number : Nat} (mem : number ∈ (edit.next fresh).number) : number = fresh := by
  cases edit with
  | update role inherits permissions =>
    rcases update_next role inherits permissions fresh with listing | silent
    · rw [listing] at mem
      exact (some.inj mem).symm
    · rw [silent] at mem
      cases mem
  | delete | assign | revoke => exact (some.inj mem).symm

/-- The call writes its change and is behind each worker that it outdates. -/
theorem Inv.written_change {tables : Tables} (inv : Inv agentUserId s)
    (wrote : s.tables.write edit = some tables) (careful : (Stage.writing edit).Careful agentUserId s) :
    Inv agentUserId ((s.record edit tables).goTo call (edit.next (s.changes.length + 1))) := by
  have careful := careful (isSome_of_eq_some wrote)
  refine ⟨?_, ?_, ?_⟩
  · intro change mem
    change change.number ≤ s.changes.length + 1
    rcases mem_cons.mp mem with rfl | mem
    · exact le_rfl
    · exact (inv.counted change mem).trans (Nat.le_succ _)
  · intro stage mem number counted
    change number ≤ s.changes.length + 1
    rcases mem_or_eq_of_mem_set mem with old | rfl
    · exact (inv.written stage old number counted).trans (Nat.le_succ _)
    · exact (next_number counted).le
  · intro stage mem number counted worker runs outdated
    rcases mem_or_eq_of_mem_set mem with old | rfl
    · exact inv.pursued stage old number counted worker runs (outdated_record (inv.written stage old number counted) outdated)
    · obtain rfl := next_number counted
      obtain ⟨read, listed, affects⟩ := affects_record inv outdated
      have careful := careful worker runs read listed
      cases edit with
      | update role inherits permissions =>
        rcases update_next role inherits permissions (s.changes.length + 1) with listing | silent
        · rw [listing]
          exact trivial
        · rw [silent] at counted
          cases counted
      | delete role => exact careful affects
      | assign user role => exact ⟨user, mem_singleton.mpr rfl, careful affects⟩
      | revoke user role => exact ⟨user, mem_singleton.mpr rfl, careful affects⟩

theorem Inv.advance (inv : Inv agentUserId s) (here : s.calls[call]? = some stage)
    (advanced : s.advance call stage = some next) (careful : stage.Careful agentUserId s) : Inv agentUserId next := by
  cases stage with
  | writing edit =>
    simp only [State.advance] at advanced
    split at advanced
    next =>
      cases advanced
      exact inv.moved here rfl rfl (fun _ => id) nofun nofun
    next tables wrote =>
      cases advanced
      exact inv.written_change wrote careful
  | listing role goal =>
    cases advanced
    cases goal with
    | finish number =>
      refine inv.moved here rfl rfl (fun _ => id) (fun _ => id) ?_
      intro count counted worker runs outdated _
      cases counted
      exact careful worker runs outdated
    | delete => exact inv.moved here rfl rfl (fun _ => id) nofun nofun
  | scanning users goal =>
    cases users with
    | cons user users => cases advanced
    | nil =>
      cases goal with
      | finish number =>
        cases advanced
        refine inv.moved here rfl rfl (fun _ => id) (fun _ => id) ?_
        rintro count counted worker runs outdated ⟨user, listed, -⟩
        cases listed
      | delete role =>
        cases advanced
        exact inv.moved here rfl rfl (fun _ => id) nofun nofun
  | stopping victims users goal =>
    cases victims with
    | nil =>
      cases advanced
      cases goal with
      | finish number =>
        refine inv.moved here rfl rfl (fun _ => id) (fun _ => id) ?_
        rintro count counted worker runs outdated (victim | later)
        · cases victim
        · exact later
      | delete => exact inv.moved here rfl rfl (fun _ => id) nofun nofun
    | cons victim victims =>
      cases advanced
      have fewer : ∀ worker ∈ s.running.filter (· ≠ victim), worker ∈ s.running :=
        fun worker mem => (mem_filter.mp mem).1
      cases goal with
      | finish number =>
        refine inv.moved here rfl rfl fewer (fun _ => id) ?_
        rintro count counted worker runs outdated (condemned | later)
        · -- the worker that is stopped runs no more
          have other : worker ≠ victim := of_decide_eq_true (mem_filter.mp runs).2
          exact .inl ((mem_cons.mp condemned).resolve_left other)
        · exact .inr later
      | delete => exact inv.moved here rfl rfl fewer nofun nofun
  | removing victim victims users goal =>
    cases advanced
    cases goal with
    | finish number => exact inv.moved here rfl rfl (fun _ => id) (fun _ => id) fun _ _ _ _ _ => id
    | delete => exact inv.moved here rfl rfl (fun _ => id) nofun nofun
  | clearing role number =>
    cases advanced
    exact inv.moved here rfl rfl (fun _ => id) (fun _ => id) fun _ _ _ _ _ => id
  | returned => cases advanced

theorem Inv.fail (inv : Inv agentUserId s) (here : s.calls[call]? = some stage)
    (failed : s.fail call stage = some next) (harmless : stage.Harmless s) : Inv agentUserId next := by
  cases stage with
  | writing | clearing =>
    cases failed
    exact inv.moved here rfl rfl (fun _ => id) nofun nofun
  | listing role goal =>
    cases failed
    cases goal with
    | delete => exact inv.moved here rfl rfl (fun _ => id) nofun nofun
    | finish number =>
      refine inv.moved here rfl rfl (fun _ => id) (fun _ => id) ?_
      intro count counted worker runs outdated _
      cases counted
      exact absurd outdated (harmless worker runs)
  | scanning | stopping | removing | returned => cases failed

theorem Inv.scan {order : List Proc} {user : Uuid} {users : List Uuid} {goal : Goal} (inv : Inv agentUserId s)
    (here : s.calls[call]? = some (.scanning (user :: users) goal)) (listed : order.Perm s.mapped)
    (careful : Careful agentUserId printable s (.scan call order)) :
    Inv agentUserId (s.goTo call (.stopping (order.filter (belongs agentUserId · user)) users goal)) := by
  cases goal with
  | delete => exact inv.moved here rfl rfl (fun _ => id) nofun nofun
  | finish number =>
    refine inv.moved here rfl rfl (fun _ => id) (fun _ => id) ?_
    rintro count counted worker runs outdated ⟨owner, mem, own⟩
    cases counted
    rcases mem_cons.mp mem with rfl | later
    · rcases careful owner users number here worker runs outdated own with mapped | other
      · exact .inl (mem_filter.mpr ⟨listed.mem_iff.mpr mapped, own⟩)
      · exact .inr other
    · exact .inr ⟨owner, later, own⟩

theorem Inv.launch {admissions : List (Option (List Read))} (inv : Inv agentUserId s)
    (careful : ∀ stage ∈ s.calls, ∀ number ∈ stage.number, Outdated s.changes number worker →
      stage.Reaches agentUserId worker) :
    Inv agentUserId { s with admissions, running := worker :: s.running } := by
  refine ⟨inv.counted, inv.written, ?_⟩
  intro stage mem number counted other runs outdated
  rcases mem_cons.mp runs with rfl | old
  · exact careful stage mem number counted outdated
  · exact inv.pursued stage mem number counted other old outdated

theorem careful_go (here : s.calls[call]? = some stage) (careful : stage.Careful agentUserId s) :
    Careful agentUserId printable s (.go call) := by
  intro other mem
  cases here.symm.trans mem
  exact careful

theorem begin_number (edit : Edit) : edit.begin.number = none := by cases edit <;> rfl

theorem Inv.step {action : Action} (inv : Inv agentUserId s) (stepped : step agentUserId printable s action = some next)
    (careful : Careful agentUserId printable s action) : Inv agentUserId next := by
  cases action with
  | arrive =>
    cases stepped
    exact inv.beside rfl (fun _ => .inl) fun _ => id
  | resolve admission user =>
    obtain ⟨reads, -, stepped⟩ := bind_eq_some_iff.mp stepped
    cases stepped
    exact inv.beside rfl (fun _ => .inl) fun _ => id
  | launch admission appId principal invocation =>
    obtain ⟨reads, resolved, stepped⟩ := bind_eq_some_iff.mp stepped
    cases stepped
    exact inv.launch (careful reads resolved)
  | register worker =>
    simp only [Invalidation.step] at stepped
    split at stepped
    · cases stepped
      exact inv.beside rfl (fun _ => .inl) fun _ => id
    · cases stepped
  | leave worker =>
    cases stepped
    exact inv.beside rfl (fun _ => .inl) fun _ => id
  | exit worker =>
    cases stepped
    exact inv.beside rfl (fun _ => .inl) fun _ mem => (mem_filter.mp mem).1
  | call edit =>
    cases stepped
    refine inv.beside rfl ?_ fun _ => id
    intro stage mem
    rcases mem_append.mp mem with old | fresh
    · exact .inl old
    · rw [mem_singleton.mp fresh]
      exact .inr (begin_number edit)
  | go call =>
    obtain ⟨stage, here, advanced⟩ := bind_eq_some_iff.mp stepped
    exact inv.advance here advanced (careful stage here)
  | fail call =>
    obtain ⟨stage, here, failed⟩ := bind_eq_some_iff.mp stepped
    exact inv.fail here failed (careful stage here)
  | scan call order =>
    simp only [Invalidation.step] at stepped
    split at stepped
    next user users goal here =>
      split at stepped
      next listed =>
        cases stepped
        exact inv.scan here listed careful
      next => cases stepped
    next => cases stepped

theorem Inv.initial (tables : Tables) : Inv agentUserId (start tables) := ⟨nofun, nofun, nofun⟩

theorem Inv.current (inv : Inv agentUserId s) : Current s :=
  fun number returned worker runs outdated => inv.pursued _ returned number rfl worker runs outdated

/-- In every run from any role tables whose steps all miss no worker, no worker runs with
    permissions from before the change of a call that has returned. -/
theorem workers_current {tables : Tables} {actions : List Action}
    (ran : run (step agentUserId printable) (start tables) actions = some s)
    (along : Along (step agentUserId printable) (Careful agentUserId printable) (start tables) actions) : Current s :=
  (run_along Inv.step (Inv.initial tables) ran along).current

end Manager

/-! ## A role that another one inherits -/

section Examples

def deskAgent : Uuid := ⟨"00000000-0000-0000-0000-000000000001", by decide, by decide⟩

/-- The caller is staff, and staff inherits the base role. -/
def desk : Tables where
  hierarchy := (∅ : RoleMap).insert "base".toList [] |>.insert "staff".toList ["base".toList]
  rolePerms := (∅ : RoleMap).insert "base".toList [['p']] |>.insert "staff".toList []
  assignments := [(callerId, "staff")]

def helper : Principal := .agent (callerState [['p']] ['x']) ⟨[['a']], none⟩

def aide : Proc := ⟨0, workerKey (fun _ => true) ['a'] helper .none, [⟨callerId, 0⟩]⟩

/-- A worker of the caller is started and registered. -/
def hired : List Action :=
  [.arrive, .resolve 0 callerId, .launch 0 ['a'] helper .none, .register aide]

def staffed : State := ⟨desk, [], [none], [aide], [aide], []⟩

theorem hired_run : run (step (fun _ => deskAgent) fun _ => true) (start desk) hired = some staffed := rfl

/-- The permissions of a role are taken away. -/
def strip (role : Text) : Edit := .update role none (some [])

/-- The tables after that, with the workers and the call. -/
def stripped (role : Text) (running mapped : List Proc) (stage : Stage) : State :=
  ⟨{ desk with rolePerms := desk.rolePerms.insert role [] }, [⟨1, strip role, desk⟩], [none], running, mapped, [stage]⟩

def staff : Text := "staff"

def stripStaff : List Action :=
  [.call (strip staff), .go 0, .go 0, .scan 0 [aide], .go 0, .go 0, .go 0, .go 0]

theorem aide_belongs : belongs (fun _ => deskAgent) aide callerId = true := by decide

theorem stripStaff_run :
    run (step (fun _ => deskAgent) fun _ => true) staffed stripStaff =
      some (stripped staff [] [] (.returned (some 1))) := rfl

theorem stripStaff_careful :
    Along (step (fun _ => deskAgent) fun _ => true) (Careful (fun _ => deskAgent) fun _ => true) staffed stripStaff := by
  have found : ∀ worker ∈ [aide], belongs (fun _ => deskAgent) worker callerId = true := by
    intro worker mem
    rw [mem_singleton.mp mem]
    exact aide_belongs
  refine .cons trivial rfl (.cons (careful_go rfl fun _ _ _ _ _ => trivial) rfl ?_)
  refine .cons (careful_go rfl fun worker runs _ => ⟨callerId, mem_singleton.mpr rfl, found worker runs⟩) rfl ?_
  refine .cons (fun _ _ _ _ _ runs _ _ => .inl runs) rfl ?_
  refine .cons (careful_go rfl trivial) rfl (.cons (careful_go rfl trivial) rfl ?_)
  exact .cons (careful_go rfl trivial) rfl (.cons (careful_go rfl trivial) rfl trivial)

theorem staff_current :
    ∃ s, run (step (fun _ => deskAgent) fun _ => true) (start desk) (hired ++ stripStaff) = some s ∧ Current s := by
  have ran : run (step (fun _ => deskAgent) fun _ => true) (start desk) (hired ++ stripStaff) =
      some (stripped staff [] [] (.returned (some 1))) := by
    rw [run_append hired_run]
    exact stripStaff_run
  refine ⟨_, ran, workers_current ran ?_⟩
  apply Along.append
  · exact .cons trivial rfl (.cons trivial rfl (.cons nofun rfl (.cons trivial rfl trivial)))
  · intro middle reached
    cases hired_run.symm.trans reached
    exact stripStaff_careful

theorem base_inherited : desk.Holds callerId "base".toList := by
  refine ⟨staff, mem_singleton.mpr rfl, .single ?_⟩
  exact mem_singleton.mpr rfl

/-- The worker of a caller that holds the role through another one stays. -/
theorem base_missed :
    ∃ s, run (step (fun _ => deskAgent) fun _ => true) (start desk)
      (hired ++ [Action.call (strip "base".toList), .go 0, .go 0, .go 0]) = some s ∧ ¬Current s := by
  refine ⟨stripped "base".toList [aide] [aide] (.returned (some 1)), ?_, ?_⟩
  · rw [run_append hired_run]
    rfl
  · intro current
    apply current 1 (List.mem_singleton.mpr rfl) aide (List.mem_singleton.mpr rfl)
    refine ⟨_, List.mem_singleton.mpr rfl, rfl, ⟨callerId, 0⟩, List.mem_singleton.mpr rfl, Nat.one_pos, ?_⟩
    exact base_inherited

end Examples

end RootCx.Manager.Invalidation
