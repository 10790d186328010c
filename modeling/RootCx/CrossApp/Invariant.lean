import RootCx.CrossApp.Governed

/-! # The invariant of the transactions on grants

Each statement moves one transaction; what the others rely on is left alone by all
statements, and by a commit because the locks are theirs.
-/

namespace RootCx.CrossApp

open RootCx.Text RootCx.Crud List Option Function

structure Inv (s : State) : Prop where
  keys : (s.store.installations.map (·.id)).Nodup
  listed : Listed s.store
  named : ∀ id row, s.store.grants id = some row → row.id = id
  bound : ∀ id row, s.store.grants id = some row → row.status.isOpen = true →
    s.store.activeOf row.consumerApp row.consumerInstallationId = true ∧
      s.store.activeOf row.providerApp row.providerInstallationId = true
  unborn : ∀ id, s.store.grants id = none → s.store.history id = []
  chained : ∀ id row, s.store.grants id = some row →
    ∃ grant, describe s.store.installations row = some grant ∧ Chained (s.store.history id) grant
  operations : ∀ operation ∈ s.operations, operation.Authorized
  tasks : ∀ i t, s.tasks[i]? = some t → TaskInv s i t

variable {s next : State} {i : Nat} {t t' : Tx}

/-! ## Steps that commit nothing -/

/-- Nothing is committed, and all transactions keep what they rely on. -/
theorem Inv.beside (inv : Inv s) (grants : next.store.grants = s.store.grants) (ids : next.store.ids = s.store.ids)
    (audit : next.store.audit = s.store.audit) (installations : next.store.installations = s.store.installations)
    (operations : ∀ operation ∈ next.operations, operation.Authorized)
    (tasks : ∀ i t, next.tasks[i]? = some t → TaskInv next i t) : Inv next where
  keys := by rw [installations]; exact inv.keys
  listed := by
    rw [Listed, ids, grants]
    exact inv.listed
  named := by rw [grants]; exact inv.named
  bound := by
    unfold Store.activeOf
    rw [grants, installations]
    exact inv.bound
  unborn := by
    unfold Store.history
    rw [grants, audit]
    exact inv.unborn
  chained := by
    unfold Store.history
    rw [grants, installations, audit]
    exact inv.chained
  operations := operations
  tasks := tasks

theorem Inv.put (inv : Inv s) (own : TaskInv s i t') : Inv (s.put i t') := by
  refine inv.beside rfl rfl rfl rfl inv.operations ?_
  intro j task found
  have frame : Frame s (s.put i t') j := .of_grants rfl rfl (fun _ => id) fun _ => id
  by_cases same : i = j
  · subst same
    have within : i < s.tasks.length := by
      have := (List.getElem?_eq_some_iff.mp found).1
      simpa [State.put] using this
    have set : (s.tasks.set i t')[i]? = some t' := getElem?_set_self within
    cases set.symm.trans found
    exact own.frame frame
  · have old : s.tasks[j]? = some task := by
      rw [← found]
      exact (getElem?_set_ne same).symm
    exact (inv.tasks j task old).frame frame

theorem Inv.lockApp {app : Text} (inv : Inv s) (free : s.appFree i app = true) : Inv (s.lockApp i app) := by
  refine inv.beside rfl rfl rfl rfl inv.operations ?_
  intro j task found
  apply (inv.tasks j task found).frame
  refine Frame.of_grants rfl rfl (fun _ lock => lock) ?_
  intro other lock
  by_cases same : other = app
  · subst same
    simp only [State.appFree, lock, reduceCtorEq, decide_false, Bool.false_or, decide_eq_true_eq] at free
    simp [State.lockApp, free]
  · simpa [State.lockApp, update_of_ne same] using lock

variable {id : Uuid} {store : Store} {row : GrantRow} {request : CreateGrantRequest} {actor : Uuid}

theorem Inv.lockGrant (inv : Inv s) (free : s.grantFree i id = true) : Inv (s.lockGrant i id) := by
  refine inv.beside rfl rfl rfl rfl inv.operations ?_
  intro j task found
  apply (inv.tasks j task found).frame
  refine Frame.of_grants rfl rfl ?_ fun _ lock => lock
  intro other lock
  by_cases same : other = id
  · subst same
    simp only [State.grantFree, lock, reduceCtorEq, decide_false, Bool.false_or, decide_eq_true_eq] at free
    simp [State.lockGrant, free]
  · simpa [State.lockGrant, update_of_ne same] using lock

theorem TaskInv.over : TaskInv s i { t with stage := .ended, changes := [], retired := [], arrival := none } where
  tidy := ⟨fun _ mem => absurd mem not_mem_nil, nodup_nil⟩
  clean _ := rfl
  planned _ mem := absurd mem not_mem_nil
  retired _ mem := absurd mem not_mem_nil
  stage := trivial

/-- The task that lets go is over, and the others are as they were. -/
theorem task_release {j : Nat} {task : Tx} (found : (s.release i t).tasks[j]? = some task) :
    (∀ {s'}, TaskInv s' j task) ∨ i ≠ j ∧ s.tasks[j]? = some task := by
  by_cases same : i = j
  · subst same
    have within : i < s.tasks.length := by
      have := (List.getElem?_eq_some_iff.mp found).1
      simpa [State.release] using this
    have set := some.inj ((getElem?_set_self within).symm.trans found)
    rw [← set]
    exact .inl .over
  · rw [← found]
    exact .inr ⟨same, (getElem?_set_ne same).symm⟩

theorem lock_release {j : Nat} {holder : Option Nat} (apart : i ≠ j) (lock : holder = some j) :
    (if holder = some i then none else holder) = some j := by
  rw [lock, if_neg (by simpa using Ne.symm apart)]

theorem Inv.release (inv : Inv s) : Inv (s.release i t) := by
  refine inv.beside rfl rfl rfl rfl inv.operations ?_
  intro j task found
  obtain ended | ⟨apart, old⟩ := task_release found
  · exact ended
  · exact (inv.tasks j task old).frame
      (.of_grants rfl rfl (fun _ lock => lock_release apart lock) fun _ lock => lock_release apart lock)

theorem TaskInv.goTo {stage : Stage} (inv : TaskInv s i t) (holds : StageInv s i t.job t.changes stage)
    (clean : stage.early = true → t.stage.early = true) : TaskInv s i { t with stage } :=
  ⟨inv.tidy, fun early => inv.clean (clean early), inv.planned, inv.retired, holds⟩

theorem lockApp_self (s : State) (i : Nat) (app : Text) : (s.lockApp i app).appLocks app = some i := update_self ..

theorem lockGrant_self (s : State) (i : Nat) (id : Uuid) : (s.lockGrant i id).grantLocks id = some i :=
  update_self ..

theorem frame_lockApp (s : State) (i : Nat) (app : Text) : Frame s (s.lockApp i app) i := by
  refine Frame.of_grants rfl rfl (fun _ lock => lock) fun other lock => ?_
  by_cases same : other = app
  · rw [same]
    exact lockApp_self s i app
  · simpa [State.lockApp, update_of_ne same] using lock

theorem frame_lockGrant (s : State) (i : Nat) (id : Uuid) : Frame s (s.lockGrant i id) i := by
  refine Frame.of_grants rfl rfl (fun other lock => ?_) fun _ lock => lock
  by_cases same : other = id
  · rw [same]
    exact lockGrant_self s i id
  · simpa [State.lockGrant, update_of_ne same] using lock

/-! ## Selections -/

theorem mem_select {takes : GrantRow → Bool} (listed : Listed store) :
    id ∈ store.select takes ↔ ∃ row, store.grants id = some row ∧ takes row = true := by
  rw [Store.select, mem_insertionSort, mem_filter, listed.2, Option.any_eq_true]
  constructor
  · exact And.right
  · rintro ⟨row, found, taken⟩
    exact ⟨by rw [found]; rfl, row, found, taken⟩

theorem select_nodup {takes : GrantRow → Bool} (listed : Listed store) : (store.select takes).Nodup := by
  rw [Store.select, (perm_insertionSort _ _).nodup_iff]
  exact listed.1.filter _

/-! ## The change of one grant -/

theorem autoRevoke_open {began now : Time} (isOpen : row.status.isOpen = true) :
    autoRevokeGrant.apply began now row = some { row with
      status := .revoked, version := row.version + 1, updatedAt := began, revokedAt := some began } := by
  rw [GrantUpdate.apply, if_pos]
  · rfl
  · rw [Bool.and_eq_true]
    exact ⟨isOpen, rfl⟩

theorem Inv.changeNext {rest : List Uuid} {draft : Option GrantRow} {point : Point} (inv : Inv s)
    (own : TaskInv s i t) (changing : Changing s i t.job t.changes (id :: rest) point draft)
    (stepped : changeNext s i t id rest draft point = some next) : Inv next := by
  have moved {point' : Point} (holds : PointInv s i t.job id point') :
      Inv (s.put i { t with stage := .changing (id :: rest) point' draft }) := by
    refine inv.put (own.goTo ?_ nofun)
    refine ⟨changing.once, changing.fresh, fun other others split => ?_, changing.draft, changing.covered⟩
    obtain ⟨rfl, -⟩ := cons.inj split
    exact holds
  have holds := changing.point id rest rfl
  cases point with
  | idle =>
    dsimp only [CrossApp.changeNext] at stepped
    split at stepped
    next free =>
      cases stepped
      have frame := frame_lockGrant s i id
      refine (inv.lockGrant free).put ((own.frame frame).goTo ?_ nofun)
      refine ⟨changing.once, changing.fresh, fun other others split => ?_,
        fun row drafted => (changing.draft row drafted).frame frame, changing.covered.frame frame⟩
      obtain ⟨rfl, -⟩ := cons.inj split
      exact lockGrant_self s i id
    next => cases stepped
  | locked =>
    dsimp only [CrossApp.changeNext] at stepped
    split at stepped
    next before found =>
      cases stepped
      obtain ⟨row, found, described⟩ := bind_eq_some_iff.mp found
      exact moved ⟨holds, row, found, described⟩
    next =>
      cases stepped
      exact inv.release
  | loaded before =>
    obtain ⟨lock, row, found, described⟩ := holds
    dsimp only [CrossApp.changeNext] at stepped
    rw [found, bind_some] at stepped
    split at stepped
    next row' applied =>
      split at stepped
      · cases stepped
        exact inv.release
      · cases stepped
        obtain ⟨isOpen, status, version, same⟩ := GrantUpdate.apply_eq_some applied
        have named : row'.id = id := same.id.trans (inv.named id row found)
        exact moved ⟨named, by rw [named]; exact lock, row, by rw [named]; exact found, described, isOpen, status, version, same⟩
    next unaffected =>
      split at stepped
      · cases stepped
        exact inv.release
      next lenient =>
        cases stepped
        refine inv.put (own.goTo ?_ nofun)
        refine ⟨(nodup_cons.mp changing.once).2, fun other mem => changing.fresh other (mem_cons_of_mem _ mem),
          fun _ _ _ => trivial, changing.draft, ?_⟩
        -- a deactivation takes every open grant, so this one was not open any more
        intro app actor reason job
        obtain ⟨appLock, covers⟩ := changing.covered app actor reason job
        refine ⟨appLock, fun other row' found' involved => ?_⟩
        rcases covers other row' found' involved with mem | changed
        · rcases mem_cons.mp mem with rfl | later
          · cases found.symm.trans found'
            have isOpen := (Bool.and_eq_true_iff.mp involved).1
            rw [job, Job.update, autoRevoke_open isOpen] at unaffected
            cases unaffected
          · exact .inl later
        · exact .inr changed
  | updated before row =>
    dsimp only [CrossApp.changeNext] at stepped
    split at stepped
    next after described =>
      cases stepped
      exact moved ⟨holds.1, holds.2, described⟩
    next =>
      cases stepped
      exact inv.release
  | reloaded before row after =>
    obtain ⟨named, replaces, described⟩ := holds
    dsimp only [CrossApp.changeNext] at stepped
    cases stepped
    have ids (entry : GrantAudit) : (t.changes ++ [Change.mk row entry]).map (·.row.id) = t.changes.map (·.row.id) ++ [id] := by
      rw [map_append, ← named]
      rfl
    apply inv.put
    refine ⟨⟨?_, ?_⟩, nofun, ?_, own.retired, ?_⟩
    · intro change mem
      rcases mem_append.mp mem with old | new
      · exact own.tidy.named change old
      · obtain rfl := mem_singleton.mp new
        exact named.symm
    · rw [ids, nodup_append]
      refine ⟨own.tidy.once, nodup_singleton _, fun other mem last single same => ?_⟩
      obtain rfl := mem_singleton.mp single
      exact changing.fresh other (same ▸ mem_cons_self) mem
    · intro change mem
      rcases mem_append.mp mem with old | new
      · exact own.planned change old
      · obtain rfl := mem_singleton.mp new
        exact ⟨described, .inl ⟨before, rfl, replaces⟩⟩
    · refine ⟨(nodup_cons.mp changing.once).2, fun other mem => ?_, fun _ _ _ => trivial, changing.draft, ?_⟩
      · rw [ids, mem_append, not_or, mem_singleton]
        refine ⟨changing.fresh other (mem_cons_of_mem _ mem), ?_⟩
        rintro rfl
        exact (nodup_cons.mp changing.once).1 mem
      · intro app actor reason job
        obtain ⟨appLock, covers⟩ := changing.covered app actor reason job
        refine ⟨appLock, fun other row' found' involved => ?_⟩
        rw [ids, mem_append, mem_singleton]
        rcases covers other row' found' involved with mem | changed
        · rcases mem_cons.mp mem with rfl | later
          · exact .inr (.inr rfl)
          · exact .inl later
        · exact .inr (.inl changed)

/-! ## The statements -/

section Statements

variable {job : Job} {began : Time} {stage : Stage} {changes : List Change} {retired : List Uuid} {arrival : Option Installation}

theorem Inv.moved {stage' : Stage} (inv : Inv s) (own : TaskInv s i ⟨job, began, stage, changes, retired, arrival⟩)
    (holds : StageInv s i job changes stage') (clean : stage'.early = true → stage.early = true) :
    Inv (s.put i ⟨job, began, stage', changes, retired, arrival⟩) :=
  inv.put (own.goTo holds clean)

theorem Inv.movedApp {stage' : Stage} {app : Text} (inv : Inv s) (own : TaskInv s i ⟨job, began, stage, changes, retired, arrival⟩)
    (free : s.appFree i app = true) (holds : StageInv (s.lockApp i app) i job changes stage')
    (clean : stage'.early = true → stage.early = true) :
    Inv ((s.lockApp i app).put i ⟨job, began, stage', changes, retired, arrival⟩) :=
  (inv.lockApp free).moved (own.frame (frame_lockApp s i app)) holds clean

theorem Inv.chosen {todo : List Uuid} {draft : Option GrantRow} (inv : Inv s)
    (own : TaskInv s i ⟨job, began, stage, changes, retired, arrival⟩) (early : stage.early = true) (once : todo.Nodup)
    (drafted : ∀ row, draft = some row → Drafted s i job row) (covered : Covered s i job changes todo) :
    Inv (s.put i ⟨job, began, .changing todo .idle draft, changes, retired, arrival⟩) := by
  refine inv.moved own ⟨once, fun id _ => ?_, fun _ _ _ => trivial, drafted, covered⟩ nofun
  have clean : changes = [] := own.clean early
  rw [clean]
  exact not_mem_nil

theorem Inv.begun (inv : Inv s) (own : TaskInv s i ⟨job, began, .begun, changes, retired, arrival⟩)
    (stepped : CrossApp.advance s i ⟨job, began, .begun, changes, retired, arrival⟩ = some next) : Inv next := by
  cases job with
  | change id update actor =>
    cases stepped
    exact inv.chosen own rfl (nodup_singleton id) nofun nofun
  | sweep =>
    cases stepped
    exact inv.chosen own rfl (select_nodup inv.listed) nofun nofun
  | deactivate appId actor reason =>
    dsimp only [CrossApp.advance] at stepped
    split at stepped
    next free =>
      cases stepped
      refine inv.movedApp own free ⟨fun app actor reason same => ?_, nofun⟩ fun _ => rfl
      cases same
      exact lockApp_self ..
    next => cases stepped
  | register appId id =>
    dsimp only [CrossApp.advance] at stepped
    split at stepped
    next free =>
      cases stepped
      exact inv.movedApp own free ⟨nofun, nofun⟩ fun _ => rfl
    next => cases stepped
  | create request id actor =>
    dsimp only [CrossApp.advance] at stepped
    split at stepped
    next free =>
      cases stepped
      refine inv.movedApp own free ⟨nofun, fun request id actor same => ?_⟩ fun _ => rfl
      cases same
      exact lockApp_self ..
    next =>
      cases stepped
      exact inv.release
  | operate request =>
    dsimp only [CrossApp.advance] at stepped
    split at stepped
    · cases stepped
      have nothing : StageInv s i (.operate request) changes .targeted := trivial
      exact inv.moved own nothing nofun
    · cases stepped
      exact inv.release

theorem locks_cases (request : CreateGrantRequest) :
    request.locks = (request.consumerApp, request.providerApp) ∨ request.locks = (request.providerApp, request.consumerApp) := by
  unfold CreateGrantRequest.locks
  split
  · exact .inl rfl
  · exact .inr rfl

theorem Inv.held (inv : Inv s) (own : TaskInv s i ⟨job, began, .held, changes, retired, arrival⟩)
    (stepped : CrossApp.advance s i ⟨job, began, .held, changes, retired, arrival⟩ = some next) : Inv next := by
  have holds := own.stage
  cases job with
  | change | sweep | operate => cases stepped
  | deactivate appId actor reason =>
    cases stepped
    have lock := holds.1 appId actor reason rfl
    apply inv.put
    refine ⟨own.tidy, fun _ => own.clean rfl, own.planned, fun id mem => ?_, fun app actor reason same => ?_⟩
    · obtain ⟨inst, listed, rfl⟩ := mem_map.mp mem
      obtain ⟨mem, matching⟩ := mem_filter.mp listed
      simp only [Bool.and_eq_true, decide_eq_true_eq] at matching
      exact ⟨appId, actor, reason, inst, rfl, lock, (find?_key_eq_some inv.keys).mpr ⟨mem, rfl⟩, matching.1⟩
    · cases same
      exact lock
  | register appId id =>
    dsimp only [CrossApp.advance] at stepped
    split at stepped
    · cases stepped
      have nothing : StageInv s i (.register appId id) changes .finished := nofun
      exact inv.moved own nothing nofun
    · cases stepped
      have nothing : StageInv s i (.register appId id) changes .vacant := trivial
      exact inv.moved own nothing nofun
  | create request id actor =>
    have lock := holds.2 request id actor rfl
    dsimp only [CrossApp.advance] at stepped
    split at stepped
    next free =>
      cases stepped
      refine inv.movedApp own free (fun request id actor same => ?_) fun _ => rfl
      cases same
      have first := (frame_lockApp s i request.locks.2).appLocks _ lock
      have second := lockApp_self s i request.locks.2
      rcases locks_cases request with locks | locks
      · rw [locks] at first second ⊢
        exact ⟨first, second⟩
      · rw [locks] at first second ⊢
        exact ⟨second, first⟩
    next =>
      cases stepped
      exact inv.release

theorem draftOf_eq_some {consumer provider : Uuid}
    (drafted : draftOf store request id actor began consumer provider = some row) :
    row.id = id ∧ row.version = 1 ∧ row.consumerApp = request.consumerApp ∧ row.providerApp = request.providerApp ∧
      row.consumerInstallationId = consumer ∧ row.providerInstallationId = provider := by
  unfold draftOf at drafted
  obtain ⟨app, -, drafted⟩ := bind_eq_some_iff.mp drafted
  obtain ⟨entity, -, drafted⟩ := bind_eq_some_iff.mp drafted
  obtain ⟨actions, -, drafted⟩ := bind_eq_some_iff.mp drafted
  obtain ⟨fields, -, drafted⟩ := bind_eq_some_iff.mp drafted
  obtain ⟨writeFields, -, drafted⟩ := bind_eq_some_iff.mp drafted
  cases drafted
  exact ⟨rfl, rfl, rfl, rfl, rfl, rfl⟩

/-- A creation looks for the two installations and drafts the row. -/
theorem Inv.creating (inv : Inv s)
    (own : TaskInv s i ⟨.create request id actor, began, stage, changes, retired, arrival⟩)
    (stages : stage = .bothHeld ∨ (∃ consumer, stage = .consumerFound consumer) ∨ ∃ consumer provider, stage = .bothFound consumer provider)
    (stepped : CrossApp.advance s i ⟨.create request id actor, began, stage, changes, retired, arrival⟩ = some next) :
    Inv next := by
  have holds := own.stage
  rcases stages with rfl | ⟨consumer, rfl⟩ | ⟨consumer, provider, rfl⟩
  · obtain ⟨consumerLock, providerLock⟩ := holds request id actor rfl
    dsimp only [CrossApp.advance] at stepped
    split at stepped
    next inst found =>
      cases stepped
      refine inv.moved own (fun request id actor same => ?_) fun _ => rfl
      cases same
      exact ⟨consumerLock, providerLock, activeOf_of_activeInstallation inv.keys found⟩
    next =>
      cases stepped
      exact inv.release
  · obtain ⟨consumerLock, providerLock, active⟩ := holds request id actor rfl
    dsimp only [CrossApp.advance] at stepped
    split at stepped
    next inst found =>
      cases stepped
      refine inv.moved own (fun request id actor same => ?_) fun _ => rfl
      cases same
      exact ⟨consumerLock, providerLock, active, activeOf_of_activeInstallation inv.keys found⟩
    next =>
      cases stepped
      exact inv.release
  · obtain ⟨consumerLock, providerLock, activeConsumer, activeProvider⟩ := holds request id actor rfl
    dsimp only [CrossApp.advance] at stepped
    split at stepped
    next draft drafted =>
      cases stepped
      obtain ⟨rfl, one, consumerApp, providerApp, rfl, rfl⟩ := draftOf_eq_some drafted
      refine inv.chosen own rfl (select_nodup inv.listed) (fun row same => ?_) nofun
      cases same
      refine ⟨⟨?_, ?_, ?_, ?_⟩, one, request, actor, rfl⟩
      · rw [consumerApp]; exact consumerLock
      · rw [providerApp]; exact providerLock
      · rw [consumerApp]; exact activeConsumer
      · rw [providerApp]; exact activeProvider
    next =>
      cases stepped
      exact inv.release

theorem Inv.described {after : CollectionGrant} (inv : Inv s)
    (own : TaskInv s i ⟨.create request id actor, began, .described row after, changes, retired, arrival⟩)
    (stepped : CrossApp.advance s i ⟨.create request id actor, began, .described row after, changes, retired, arrival⟩ = some next) :
    Inv next := by
  obtain ⟨⟨drafted, fresh⟩, described⟩ := own.stage
  cases stepped
  have named : row.id = id := by
    obtain ⟨_, _, same⟩ := drafted.creates
    cases same
    rfl
  apply inv.put
  refine ⟨⟨fun change mem => ?_, ?_⟩, nofun, fun change mem => ?_, own.retired, nofun⟩
  · rcases mem_append.mp mem with old | new
    · exact own.tidy.named change old
    · obtain rfl := mem_singleton.mp new
      exact named.symm
  · rw [map_append, nodup_append]
    refine ⟨own.tidy.once, nodup_singleton _, fun other mem last single same => ?_⟩
    obtain rfl := mem_singleton.mp single
    have same : other = row.id := same
    subst same
    exact fresh mem
  · rcases mem_append.mp mem with old | new
    · exact own.planned change old
    · obtain rfl := mem_singleton.mp new
      exact ⟨described, .inr ⟨rfl, drafted⟩⟩

theorem view_eq_none (absent : ¬(t.view s.store id).isSome = true) : id ∉ t.changes.map (·.row.id) := by
  intro mem
  apply absent
  obtain ⟨change, listed, rfl⟩ := mem_map.mp mem
  have found : (t.changes.find? fun other => decide (other.row.id = change.row.id)).isSome = true :=
    find?_isSome.mpr ⟨change, listed, decide_eq_true rfl⟩
  obtain ⟨other, found⟩ := isSome_iff_exists.mp found
  rw [Tx.view, found]
  rfl

theorem authorize_eq_some {request : OperationRequest} (authorized : store.authorize request = some row) :
    ∃ id, store.grants id = some row ∧ store.inForce row = true := by
  obtain ⟨found, -⟩ := filter_eq_some_iff.mp authorized
  obtain ⟨listed, matching⟩ := List.mem_filter.mp (List.maxOn?_mem found)
  obtain ⟨id, -, grant⟩ := List.mem_filterMap.mp listed
  simp only [Bool.and_eq_true] at matching
  exact ⟨id, grant, matching.1.2⟩

theorem recheck_eq_some {found : GrantRow} {action : Text}
    (checked : store.recheck (capability row action) = some found) :
    store.grants row.id = some found ∧ found.version = row.version ∧ store.inForce found = true ∧ action ∈ found.actions := by
  obtain ⟨grant, holds⟩ := filter_eq_some_iff.mp checked
  simp only [capability, Bool.and_eq_true] at holds
  obtain ⟨⟨⟨⟨⟨⟨⟨-, version⟩, -⟩, -⟩, inForce⟩, allowed⟩, -⟩, -⟩ := holds
  exact ⟨grant, of_decide_eq_true version, inForce, elem_iff.mp allowed⟩

theorem Inv.operating {request : OperationRequest} (inv : Inv s)
    (own : TaskInv s i ⟨.operate request, began, stage, changes, retired, arrival⟩)
    (stages : stage = .targeted ∨ (∃ row, stage = .guarded row) ∨ ∃ row seen, stage = .checked row seen)
    (stepped : CrossApp.advance s i ⟨.operate request, began, stage, changes, retired, arrival⟩ = some next) : Inv next := by
  have holds := own.stage
  rcases stages with rfl | ⟨row, rfl⟩ | ⟨row, seen, rfl⟩
  · dsimp only [CrossApp.advance] at stepped
    split at stepped
    next row authorized =>
      cases stepped
      obtain ⟨id, found, -⟩ := authorize_eq_some authorized
      have named := inv.named id row found
      have known : StageInv s i (.operate request) changes (.authorized row) := ⟨row, by rw [named]; exact found, .inl rfl⟩
      exact inv.moved own known nofun
    next =>
      cases stepped
      exact inv.release
  · obtain ⟨lock, last, known, order⟩ := holds
    dsimp only [CrossApp.advance] at stepped
    split at stepped
    next found checked =>
      cases stepped
      obtain ⟨grant, version, inForce, allowed⟩ := recheck_eq_some checked
      cases known.symm.trans grant
      -- the version is the one of the authorization, so the row is
      have same : last = row := by
        rcases order with same | later
        · exact same
        · omega
      subst same
      have running : StageInv s i (.operate request) changes (.checked last s.store) :=
        ⟨lock, known, known, inForce, request, rfl, allowed⟩
      exact inv.moved own running nofun
    next =>
      cases stepped
      exact inv.release
  · cases stepped
    refine inv.beside rfl rfl rfl rfl (fun operation mem => ?_) fun j task found => ?_
    · rcases mem_append.mp mem with old | new
      · exact inv.operations operation old
      · obtain rfl := mem_singleton.mp new
        obtain ⟨_, same, allowed⟩ := holds.allowed
        cases same
        have isOpen : row.status.isOpen = true := by
          have active := holds.inForce
          simp only [Store.inForce, Bool.and_eq_true, decide_eq_true_eq] at active
          rw [active.1.1]
          rfl
        obtain ⟨consumer, provider⟩ := inv.bound row.id row holds.current isOpen
        exact ⟨rfl, holds.checked, holds.inForce, allowed, holds.current, consumer, provider⟩
    · exact (inv.tasks j task found).frame (.of_grants rfl rfl (fun _ lock => lock) fun _ lock => lock)

theorem Inv.advance (inv : Inv s) (own : TaskInv s i ⟨job, began, stage, changes, retired, arrival⟩)
    (stepped : CrossApp.advance s i ⟨job, began, stage, changes, retired, arrival⟩ = some next) : Inv next := by
  cases stage with
  | begun => exact inv.begun own stepped
  | held => exact inv.held own stepped
  | bothHeld =>
    cases job with
    | create => exact inv.creating own (.inl rfl) stepped
    | change | sweep | deactivate | register | operate => cases stepped
  | consumerFound consumer =>
    cases job with
    | create => exact inv.creating own (.inr (.inl ⟨consumer, rfl⟩)) stepped
    | change | sweep | deactivate | register | operate => cases stepped
  | bothFound consumer provider =>
    cases job with
    | create => exact inv.creating own (.inr (.inr ⟨consumer, provider, rfl⟩)) stepped
    | change | sweep | deactivate | register | operate => cases stepped
  | vacant =>
    cases job with
    | register appId id =>
      cases stepped
      apply inv.put
      exact ⟨own.tidy, nofun, own.planned, own.retired, nofun⟩
    | change | sweep | deactivate | create | operate => cases stepped
  | retired =>
    cases job with
    | deactivate appId actor reason =>
      cases stepped
      have lock : s.appLocks appId = some i := own.stage appId actor reason rfl
      refine inv.chosen own rfl (select_nodup inv.listed) nofun fun app actor reason same => ?_
      cases same
      exact ⟨lock, fun id row found involved => .inl ((mem_select inv.listed).mpr ⟨row, found, involved⟩)⟩
    | change | sweep | register | create | operate => cases stepped
  | changing todo point draft =>
    have holds : Changing s i job changes todo point draft := own.stage
    cases todo with
    | cons id rest => exact inv.changeNext own holds stepped
    | nil =>
      cases point with
      | idle =>
        cases draft with
        | none =>
          cases stepped
          exact inv.moved own holds.covered nofun
        | some row =>
          dsimp only [CrossApp.advance] at stepped
          split at stepped
          next =>
            cases stepped
            exact inv.release
          next free =>
            cases stepped
            rw [Bool.or_eq_true, not_or] at free
            have inserted : StageInv s i job changes (.inserted row) := ⟨holds.draft row rfl, view_eq_none free.1⟩
            exact inv.moved own inserted nofun
      | locked | loaded | updated | reloaded => cases stepped
  | inserted row =>
    dsimp only [CrossApp.advance] at stepped
    split at stepped
    next after described =>
      cases stepped
      have holds : StageInv s i job changes (.described row after) := ⟨own.stage, described⟩
      exact inv.moved own holds nofun
    next =>
      cases stepped
      exact inv.release
  | described row after =>
    cases job with
    | create => exact inv.described own stepped
    | change | sweep | deactivate | register | operate => cases stepped
  | targeted =>
    cases job with
    | operate => exact inv.operating own (.inl rfl) stepped
    | change | sweep | deactivate | register | create => cases stepped
  | authorized row =>
    dsimp only [CrossApp.advance] at stepped
    split at stepped
    next free =>
      cases stepped
      have frame := frame_lockGrant s i row.id
      have guarded : StageInv (s.lockGrant i row.id) i job changes (.guarded row) :=
        ⟨lockGrant_self s i row.id, Known.frame own.stage frame⟩
      exact (inv.lockGrant free).moved (own.frame frame) guarded nofun
    next => cases stepped
  | guarded row =>
    cases job with
    | operate => exact inv.operating own (.inr (.inl ⟨row, rfl⟩)) stepped
    | change | sweep | deactivate | register | create => cases stepped
  | checked row seen =>
    cases job with
    | operate => exact inv.operating own (.inr (.inr ⟨row, seen, rfl⟩)) stepped
    | change | sweep | deactivate | register | create => cases stepped
  | finished | ended => cases stepped

end Statements

end RootCx.CrossApp
