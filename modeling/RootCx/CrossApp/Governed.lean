import RootCx.CrossApp.Lifecycle
import RootCx.Lib.Lookup

/-! # Every run of the transactions on grants

An operation that runs has found, under the lock of its grant, the very row it was
authorized with: active, unexpired and bound to the active installations of both apps.
The lock keeps that row until the operation is over, and with it the two installations,
since whoever deactivates one has to revoke the grant first.

Whoever changes a grant holds its lock from before it reads the row to its commit, so the
history of a grant is a chain.  Whoever creates one or deactivates an installation holds
the lock of the apps, so a deactivation misses no grant.
-/

namespace RootCx.CrossApp

open RootCx.Text RootCx.Crud List

/-! ## What is promised -/

/-- A history: it begins with a first version, and each further entry begins where the one
    before has ended, one version later. -/
inductive Chained : List GrantAudit → CollectionGrant → Prop
  | first {entry : GrantAudit} (born : entry.beforeState = none) (one : entry.afterState.version = 1) :
    Chained [entry] entry.afterState
  | next {history : List GrantAudit} {last : CollectionGrant} {entry : GrantAudit} (chained : Chained history last)
    (linked : entry.beforeState = some last) (counted : entry.afterState.version = last.version + 1) :
    Chained (history ++ [entry]) entry.afterState

/-- The row of the operation is in force in what the check saw, and it still is the row of
    the grant, bound to the active installations, when the operation runs. -/
structure Operation.Authorized (operation : Operation) : Prop where
  capability : operation.authority = CrossApp.capability operation.row operation.authority.action
  checked : operation.recheck.grants operation.authority.grantId = some operation.row
  inForce : operation.recheck.inForce operation.row = true
  allowed : operation.authority.action ∈ operation.row.actions
  current : operation.current.grants operation.authority.grantId = some operation.row
  consumer : operation.current.activeOf operation.row.consumerApp operation.row.consumerInstallationId = true
  provider : operation.current.activeOf operation.row.providerApp operation.row.providerInstallationId = true

/-- What may happen to a grant in one step: nothing, its creation, or one change of an open
    grant with one entry in its history. -/
inductive GrantStep (store store' : Store) (id : Uuid) : Prop
  | same (row : store'.grants id = store.grants id) (history : store'.history id = store.history id)
  | created (row : GrantRow) (entry : GrantAudit) (before : store.grants id = none) (after : store'.grants id = some row)
    (one : row.version = 1) (history : store'.history id = store.history id ++ [entry])
    (born : entry.beforeState = none) (described : describe store'.installations row = some entry.afterState)
  | changed (row row' : GrantRow) (entry : GrantAudit) (before : store.grants id = some row) (open_ : row.status.isOpen = true)
    (after : store'.grants id = some row') (counted : row'.version = row.version + 1)
    (history : store'.history id = store.history id ++ [entry])
    (was : describe store.installations row = entry.beforeState) (described : describe store'.installations row' = some entry.afterState)

structure Governed (s : State) : Prop where
  operations : ∀ operation ∈ s.operations, operation.Authorized
  history : ∀ id row, s.store.grants id = some row →
    ∃ grant, describe s.store.installations row = some grant ∧ Chained (s.store.history id) grant
  deactivated : ∀ id row, s.store.grants id = some row → row.status.isOpen = true →
    ∀ inst, installation s.store.installations row.consumerInstallationId = some inst ∨
      installation s.store.installations row.providerInstallationId = some inst → inst.active = true

/-! ## Installations -/

/-- Installations stay, with their app and generation. -/
def Follows (installations installations' : List Installation) : Prop :=
  ∀ id inst, installation installations id = some inst → ∃ active, installation installations' id = some { inst with active }

theorem Follows.refl (installations : List Installation) : Follows installations installations :=
  fun _ inst found => ⟨inst.active, found⟩

variable {installations : List Installation} {id : Uuid} (ids : List Uuid) {store : Store} {appId : Text}
  {change : Change} {changes : List Change}

theorem installation_append {more : List Installation} {inst : Installation}
    (found : installation installations id = some inst) :
    installation (installations ++ more) id = some inst := by
  rw [installation, find?_append, ← installation, found]
  rfl

theorem installation_retire (installations : List Installation) (id : Uuid) :
    installation (retire ids installations) id =
      (installation installations id).map fun inst => if inst.id ∈ ids then { inst with active := false } else inst := by
  unfold installation retire
  rw [find?_map]
  have same : ((fun inst : Installation => decide (inst.id = id)) ∘
      fun inst : Installation => if inst.id ∈ ids then { inst with active := false } else inst) = fun inst => decide (inst.id = id) := by
    funext inst
    by_cases gone : inst.id ∈ ids
    · simp [gone]
    · simp [gone]
  rw [same]

theorem follows_commit (installations more : List Installation) :
    Follows installations (retire ids installations ++ more) := by
  intro id inst found
  have retired := installation_retire ids installations id
  rw [found, Option.map_some] at retired
  by_cases gone : inst.id ∈ ids
  · rw [if_pos gone] at retired
    exact ⟨false, installation_append retired⟩
  · rw [if_neg gone] at retired
    exact ⟨inst.active, installation_append retired⟩

theorem describe_follows {installations' : List Installation} {row : GrantRow} {grant : CollectionGrant}
    (follows : Follows installations installations') (described : describe installations row = some grant) :
    describe installations' row = some grant := by
  unfold describe at described ⊢
  obtain ⟨consumer, foundConsumer, described⟩ := Option.bind_eq_some_iff.mp described
  obtain ⟨provider, foundProvider, described⟩ := Option.bind_eq_some_iff.mp described
  obtain ⟨_, stillConsumer⟩ := follows _ _ foundConsumer
  obtain ⟨_, stillProvider⟩ := follows _ _ foundProvider
  rw [stillConsumer, Option.bind_eq_bind, Option.bind_some, stillProvider]
  exact described

theorem describe_version {row : GrantRow} {grant : CollectionGrant}
    (described : describe installations row = some grant) : grant.version = row.version := by
  unfold describe at described
  obtain ⟨_, -, described⟩ := Option.bind_eq_some_iff.mp described
  obtain ⟨_, -, described⟩ := Option.bind_eq_some_iff.mp described
  cases described
  rfl

theorem activeOf_iff :
    store.activeOf appId id = true ↔
      ∃ inst, installation store.installations id = some inst ∧ inst.appId = appId ∧ inst.active = true := by
  simp [Store.activeOf, Option.any_eq_true]

theorem ofApp_iff :
    store.ofApp appId id = true ↔ ∃ inst, installation store.installations id = some inst ∧ inst.appId = appId := by
  simp [Store.ofApp, Option.any_eq_true]

theorem activeOf_of_activeInstallation {inst : Installation} (keys : (store.installations.map (·.id)).Nodup)
    (found : store.activeInstallation appId = some inst) : store.activeOf appId inst.id = true := by
  have mem := mem_of_find?_eq_some found
  have holds := find?_some found
  simp only [Bool.and_eq_true, decide_eq_true_eq] at holds
  exact activeOf_iff.mpr ⟨inst, (find?_key_eq_some keys).mpr ⟨mem, rfl⟩, holds⟩

theorem map_id_retire (installations : List Installation) :
    (retire ids installations).map (·.id) = installations.map (·.id) := by
  rw [retire, map_map]
  apply map_congr_left
  intro inst _
  by_cases gone : inst.id ∈ ids
  · simp [gone]
  · simp [gone]

theorem nodup_arrival {arrival : Option Installation} (keys : (installations.map (·.id)).Nodup)
    (fresh : ∀ inst, arrival = some inst → (installation installations inst.id).isNone = true) :
    ((installations ++ arrival.toList).map (·.id)).Nodup := by
  cases arrival with
  | none => simpa using keys
  | some inst =>
    have absent := find?_eq_none.mp (Option.isNone_iff_eq_none.mp (fresh inst rfl))
    rw [Option.toList_some, map_append, nodup_append]
    refine ⟨keys, nodup_singleton _, ?_⟩
    intro id listed other single same
    obtain ⟨old, mem, rfl⟩ := mem_map.mp listed
    obtain rfl := mem_singleton.mp single
    exact absent old mem (decide_eq_true same)

/-! ## The rows behind a commit -/

/-- The change that a list of changes makes to a grant. -/
def changeOf (changes : List Change) (id : Uuid) : Option Change := changes.find? (·.row.id = id)

/-- Each entry is of the grant whose row it comes with, and no grant is changed twice. -/
structure Tidy (changes : List Change) : Prop where
  named : ∀ change ∈ changes, change.entry.grantId = change.row.id
  once : (changes.map (·.row.id)).Nodup

theorem Tidy.tail {change : Change} {changes : List Change} (tidy : Tidy (change :: changes)) : Tidy changes :=
  ⟨fun other mem => tidy.named other (mem_cons_of_mem _ mem), (nodup_cons.mp tidy.once).2⟩

theorem changeOf_cons_self : changeOf (change :: changes) change.row.id = some change := by
  simp [changeOf]

theorem changeOf_cons_ne (different : change.row.id ≠ id) :
    changeOf (change :: changes) id = changeOf changes id := by
  simp [changeOf, different]

theorem changeOf_eq_none : changeOf changes id = none ↔ id ∉ changes.map (·.row.id) := by
  simp [changeOf, find?_eq_none]

theorem Tidy.changeOf_eq_some (tidy : Tidy changes) :
    changeOf changes id = some change ↔ change ∈ changes ∧ change.row.id = id := find?_key_eq_some tidy.once

variable {store : Store} {changes : List Change}

theorem grants_writes (tidy : Tidy changes) (id : Uuid) :
    (changes.foldl Store.write store).grants id = ((changeOf changes id).map (·.row)).or (store.grants id) := by
  induction changes generalizing store with
  | nil => rfl
  | cons change changes ih =>
    rw [foldl_cons, ih tidy.tail]
    by_cases same : change.row.id = id
    · subst same
      have last : changeOf changes change.row.id = none := changeOf_eq_none.mpr (nodup_cons.mp tidy.once).1
      rw [last, changeOf_cons_self]
      simp [Store.write]
    · rw [changeOf_cons_ne same, Store.write]
      simp [Function.update_of_ne (Ne.symm same)]

theorem history_writes (tidy : Tidy changes) (id : Uuid) :
    (changes.foldl Store.write store).history id = store.history id ++ ((changeOf changes id).map (·.entry)).toList := by
  induction changes generalizing store with
  | nil => simp [changeOf]
  | cons change changes ih =>
    rw [foldl_cons, ih tidy.tail]
    have named := tidy.named change mem_cons_self
    by_cases same : change.row.id = id
    · subst same
      have last : changeOf changes change.row.id = none := changeOf_eq_none.mpr (nodup_cons.mp tidy.once).1
      rw [last, changeOf_cons_self]
      simp [Store.write, Store.history, named]
    · have other : ¬change.entry.grantId = id := named ▸ same
      rw [changeOf_cons_ne same]
      simp [Store.write, Store.history, other]

/-- The ids that are listed are those of the rows. -/
def Listed (store : Store) : Prop := store.ids.Nodup ∧ ∀ id, id ∈ store.ids ↔ (store.grants id).isSome = true

theorem Listed.write (listed : Listed store) (change : Change) : Listed (store.write change) := by
  unfold Store.write
  by_cases known : (store.grants change.row.id).isSome = true
  · refine ⟨?_, fun id => ?_⟩
    · simpa [known] using listed.1
    · by_cases same : id = change.row.id
      · subst same
        simpa [known] using (listed.2 _).mpr known
      · simpa [known, Function.update_of_ne same] using listed.2 id
  · have fresh : change.row.id ∉ store.ids := fun mem => known ((listed.2 _).mp mem)
    refine ⟨?_, fun id => ?_⟩
    · simp only [known, Bool.false_eq_true, if_false]
      exact nodup_append.mpr ⟨listed.1, nodup_singleton _, by
        intro id mem other single same
        obtain rfl := mem_singleton.mp single
        exact fresh (same ▸ mem)⟩
    · by_cases same : id = change.row.id
      · subst same
        simp [known]
      · simpa [known, Function.update_of_ne same, same] using listed.2 id

theorem Listed.writes (listed : Listed store) (changes : List Change) : Listed (changes.foldl Store.write store) := by
  induction changes generalizing store with
  | nil => exact listed
  | cons change changes ih => exact ih (listed.write change)

theorem frame_writes (changes : List Change) (store : Store) :
    (changes.foldl Store.write store).installations = store.installations ∧
      (changes.foldl Store.write store).now = store.now ∧ (changes.foldl Store.write store).apps = store.apps := by
  induction changes generalizing store with
  | nil => exact ⟨rfl, rfl, rfl⟩
  | cons change changes ih => exact ih (store.write change)

/-! ## What a transaction relies on -/

/-- A new grant: the locks of both apps are held and both installations are active. -/
structure Ready (s : State) (i : Nat) (row : GrantRow) : Prop where
  consumerLock : s.appLocks row.consumerApp = some i
  providerLock : s.appLocks row.providerApp = some i
  consumer : s.store.activeOf row.consumerApp row.consumerInstallationId = true
  provider : s.store.activeOf row.providerApp row.providerInstallationId = true

/-- A row that is going to replace one that was read under the lock of the grant. -/
structure Replaces (s : State) (i : Nat) (job : Job) (before : CollectionGrant) (row : GrantRow) : Prop where
  lock : s.grantLocks row.id = some i
  replaced : ∃ old, s.store.grants row.id = some old ∧ describe s.store.installations old = some before ∧
    old.status.isOpen = true ∧ row.status = job.update.becomes old.status ∧ row.version = old.version + 1 ∧ SameGrant old row

structure Drafted (s : State) (i : Nat) (job : Job) (row : GrantRow) : Prop where
  ready : Ready s i row
  one : row.version = 1
  creates : ∃ request actor, job = .create request row.id actor

structure Planned (s : State) (i : Nat) (job : Job) (change : Change) : Prop where
  described : describe s.store.installations change.row = some change.entry.afterState
  planned : (∃ before, change.entry.beforeState = some before ∧ Replaces s i job before change.row) ∨
    change.entry.beforeState = none ∧ Drafted s i job change.row

def PointInv (s : State) (i : Nat) (job : Job) (id : Uuid) : Point → Prop
  | .idle => True
  | .locked => s.grantLocks id = some i
  | .loaded before =>
    s.grantLocks id = some i ∧ ∃ row, s.store.grants id = some row ∧ describe s.store.installations row = some before
  | .updated before row => row.id = id ∧ Replaces s i job before row
  | .reloaded before row after =>
    row.id = id ∧ Replaces s i job before row ∧ describe s.store.installations row = some after

/-- A deactivation has still to come to each open grant of the app, or has changed it. -/
def Covered (s : State) (i : Nat) (job : Job) (changes : List Change) (todo : List Uuid) : Prop :=
  ∀ app actor reason, job = .deactivate app actor reason → s.appLocks app = some i ∧
    ∀ id row, s.store.grants id = some row → s.store.involves app row = true → id ∈ todo ∨ id ∈ changes.map (·.row.id)

structure Changing (s : State) (i : Nat) (job : Job) (changes : List Change) (todo : List Uuid) (point : Point)
    (draft : Option GrantRow) : Prop where
  once : todo.Nodup
  fresh : ∀ id ∈ todo, id ∉ changes.map (·.row.id)
  point : ∀ id rest, todo = id :: rest → PointInv s i job id point
  draft : ∀ row, draft = some row → Drafted s i job row
  covered : Covered s i job changes todo

/-- The row that an operation was authorized with is the row of the grant, or an older one. -/
def Known (s : State) (row : GrantRow) : Prop :=
  ∃ last, s.store.grants row.id = some last ∧ (last = row ∨ row.version < last.version)

structure Running (s : State) (i : Nat) (job : Job) (row : GrantRow) (seen : Store) : Prop where
  lock : s.grantLocks row.id = some i
  current : s.store.grants row.id = some row
  checked : seen.grants row.id = some row
  inForce : seen.inForce row = true
  allowed : ∃ request, job = .operate request ∧ request.action ∈ row.actions

def StageInv (s : State) (i : Nat) (job : Job) (changes : List Change) : Stage → Prop
  | .held => (∀ app actor reason, job = .deactivate app actor reason → s.appLocks app = some i) ∧
    ∀ request id actor, job = .create request id actor → s.appLocks request.locks.1 = some i
  | .bothHeld => ∀ request id actor, job = .create request id actor →
    s.appLocks request.consumerApp = some i ∧ s.appLocks request.providerApp = some i
  | .consumerFound consumer => ∀ request id actor, job = .create request id actor →
    s.appLocks request.consumerApp = some i ∧ s.appLocks request.providerApp = some i ∧
      s.store.activeOf request.consumerApp consumer = true
  | .bothFound consumer provider => ∀ request id actor, job = .create request id actor →
    s.appLocks request.consumerApp = some i ∧ s.appLocks request.providerApp = some i ∧
      s.store.activeOf request.consumerApp consumer = true ∧ s.store.activeOf request.providerApp provider = true
  | .retired => ∀ app actor reason, job = .deactivate app actor reason → s.appLocks app = some i
  | .changing todo point draft => Changing s i job changes todo point draft
  | .inserted row => Drafted s i job row ∧ row.id ∉ changes.map (·.row.id)
  | .described row after => (Drafted s i job row ∧ row.id ∉ changes.map (·.row.id)) ∧
    describe s.store.installations row = some after
  | .finished => Covered s i job changes []
  | .authorized row => Known s row
  | .guarded row => s.grantLocks row.id = some i ∧ Known s row
  | .checked row seen => Running s i job row seen
  | .begun | .vacant | .targeted | .ended => True

/-- No grant has been changed yet. -/
def Stage.early : Stage → Bool
  | .begun | .held | .bothHeld | .consumerFound _ | .bothFound _ _ | .retired => true
  | _ => false

structure TaskInv (s : State) (i : Nat) (t : Tx) : Prop where
  tidy : Tidy t.changes
  clean : t.stage.early = true → t.changes = []
  planned : ∀ change ∈ t.changes, Planned s i t.job change
  retired : ∀ id ∈ t.retired, ∃ app actor reason inst, t.job = .deactivate app actor reason ∧ s.appLocks app = some i ∧
    installation s.store.installations id = some inst ∧ inst.appId = app
  stage : StageInv s i t.job t.changes t.stage

/-! ## What one transaction leaves to another -/

/-- A step keeps what a transaction relies on: its locks, the rows and installations that
    they guard, and that no grant of an app that it has locked is opened. -/
structure Frame (s s' : State) (i : Nat) : Prop where
  grantLocks : ∀ id, s.grantLocks id = some i → s'.grantLocks id = some i
  appLocks : ∀ app, s.appLocks app = some i → s'.appLocks app = some i
  follows : Follows s.store.installations s'.store.installations
  guarded : ∀ id inst, s.appLocks inst.appId = some i → installation s.store.installations id = some inst →
    installation s'.store.installations id = some inst
  locked : ∀ id row, s.grantLocks id = some i → s.store.grants id = some row → s'.store.grants id = some row
  grown : ∀ id row, s.store.grants id = some row → ∃ row', s'.store.grants id = some row' ∧ (row' = row ∨ row.version < row'.version)
  unopened : ∀ app id row', s.appLocks app = some i → s'.store.grants id = some row' → s'.store.involves app row' = true →
    ∃ row, s.store.grants id = some row ∧ s.store.involves app row = true

variable {s s' next : State} {i j : Nat} {t : Tx} {job : Job} {row : GrantRow}

theorem Frame.activeOf {app : Text} (frame : Frame s s' i) (lock : s.appLocks app = some i)
    (active : s.store.activeOf app id = true) : s'.store.activeOf app id = true := by
  obtain ⟨inst, found, rfl, runs⟩ := activeOf_iff.mp active
  exact activeOf_iff.mpr ⟨inst, frame.guarded id inst lock found, rfl, runs⟩

theorem Ready.frame (ready : Ready s i row) (frame : Frame s s' i) : Ready s' i row where
  consumerLock := frame.appLocks _ ready.consumerLock
  providerLock := frame.appLocks _ ready.providerLock
  consumer := frame.activeOf ready.consumerLock ready.consumer
  provider := frame.activeOf ready.providerLock ready.provider

theorem Replaces.frame {before : CollectionGrant} (replaces : Replaces s i job before row) (frame : Frame s s' i) :
    Replaces s' i job before row := by
  obtain ⟨lock, old, found, described, rest⟩ := replaces
  exact ⟨frame.grantLocks _ lock, old, frame.locked _ _ lock found, describe_follows frame.follows described, rest⟩

theorem Drafted.frame (drafted : Drafted s i job row) (frame : Frame s s' i) : Drafted s' i job row :=
  ⟨drafted.ready.frame frame, drafted.one, drafted.creates⟩

theorem Planned.frame (planned : Planned s i job change) (frame : Frame s s' i) :
    Planned s' i job change := by
  refine ⟨describe_follows frame.follows planned.described, ?_⟩
  rcases planned.planned with ⟨before, was, replaces⟩ | ⟨born, drafted⟩
  · exact .inl ⟨before, was, replaces.frame frame⟩
  · exact .inr ⟨born, drafted.frame frame⟩

theorem PointInv.frame {point : Point} (holds : PointInv s i job id point) (frame : Frame s s' i) :
    PointInv s' i job id point := by
  cases point with
  | idle => trivial
  | locked => exact frame.grantLocks _ holds
  | loaded before =>
    obtain ⟨lock, row, found, described⟩ := holds
    exact ⟨frame.grantLocks _ lock, row, frame.locked _ _ lock found, describe_follows frame.follows described⟩
  | updated before row => exact ⟨holds.1, holds.2.frame frame⟩
  | reloaded before row after => exact ⟨holds.1, holds.2.1.frame frame, describe_follows frame.follows holds.2.2⟩

theorem Covered.frame {todo : List Uuid} (covered : Covered s i job changes todo) (frame : Frame s s' i) :
    Covered s' i job changes todo := by
  intro app actor reason same
  obtain ⟨lock, covers⟩ := covered app actor reason same
  refine ⟨frame.appLocks _ lock, fun id row found involved => ?_⟩
  obtain ⟨old, foundOld, involvedOld⟩ := frame.unopened app id row lock found involved
  exact covers id old foundOld involvedOld

theorem Known.frame (known : Known s row) (frame : Frame s s' i) : Known s' row := by
  obtain ⟨last, found, order⟩ := known
  obtain ⟨newer, found', order'⟩ := frame.grown _ _ found
  refine ⟨newer, found', ?_⟩
  rcases order' with rfl | later
  · exact order
  · rcases order with rfl | earlier
    · exact .inr later
    · exact .inr (by omega)

theorem StageInv.frame {stage : Stage} (holds : StageInv s i job changes stage) (frame : Frame s s' i) :
    StageInv s' i job changes stage := by
  cases stage with
  | begun | vacant | targeted | ended => trivial
  | held =>
    refine ⟨fun app actor reason same => ?_, fun request id actor same => ?_⟩
    · exact frame.appLocks _ (holds.1 app actor reason same)
    · exact frame.appLocks _ (holds.2 request id actor same)
  | bothHeld =>
    intro request id actor same
    obtain ⟨consumer, provider⟩ := holds request id actor same
    exact ⟨frame.appLocks _ consumer, frame.appLocks _ provider⟩
  | consumerFound =>
    intro request id actor same
    obtain ⟨consumer, provider, active⟩ := holds request id actor same
    exact ⟨frame.appLocks _ consumer, frame.appLocks _ provider, frame.activeOf consumer active⟩
  | bothFound =>
    intro request id actor same
    obtain ⟨consumer, provider, active, active'⟩ := holds request id actor same
    exact ⟨frame.appLocks _ consumer, frame.appLocks _ provider, frame.activeOf consumer active, frame.activeOf provider active'⟩
  | retired =>
    intro app actor reason same
    exact frame.appLocks _ (holds app actor reason same)
  | changing todo point draft =>
    exact ⟨holds.once, holds.fresh, fun id rest split => (holds.point id rest split).frame frame,
      fun row drafted => (holds.draft row drafted).frame frame, holds.covered.frame frame⟩
  | inserted row => exact ⟨holds.1.frame frame, holds.2⟩
  | described row after => exact ⟨⟨holds.1.1.frame frame, holds.1.2⟩, describe_follows frame.follows holds.2⟩
  | finished => exact Covered.frame holds frame
  | authorized row => exact Known.frame holds frame
  | guarded row => exact ⟨frame.grantLocks _ holds.1, holds.2.frame frame⟩
  | checked row seen =>
    exact ⟨frame.grantLocks _ holds.lock, frame.locked _ _ holds.lock holds.current, holds.checked, holds.inForce, holds.allowed⟩

theorem TaskInv.frame (inv : TaskInv s i t) (frame : Frame s s' i) : TaskInv s' i t := by
  refine ⟨inv.tidy, inv.clean, fun change mem => (inv.planned change mem).frame frame, ?_, inv.stage.frame frame⟩
  intro id mem
  obtain ⟨app, actor, reason, inst, job, lock, found, rfl⟩ := inv.retired id mem
  exact ⟨inst.appId, actor, reason, inst, job, frame.appLocks _ lock, frame.guarded id inst lock found, rfl⟩

theorem Frame.of_grants (grants : s'.store.grants = s.store.grants) (installations : s'.store.installations = s.store.installations)
    (grantLocks : ∀ id, s.grantLocks id = some i → s'.grantLocks id = some i)
    (appLocks : ∀ app, s.appLocks app = some i → s'.appLocks app = some i) : Frame s s' i where
  grantLocks := grantLocks
  appLocks := appLocks
  follows := by rw [installations]; exact .refl _
  guarded _ _ _ found := by rw [installations]; exact found
  locked _ _ _ found := by rw [grants]; exact found
  grown _ row found := ⟨row, by rw [grants]; exact found, .inl rfl⟩
  unopened app id row _ found involved := by
    refine ⟨row, by rw [← grants]; exact found, ?_⟩
    rw [← involved, Store.involves, Store.involves, Store.ofApp, Store.ofApp, Store.ofApp, Store.ofApp, installations]

end RootCx.CrossApp
