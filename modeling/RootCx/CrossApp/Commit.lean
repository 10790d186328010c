import RootCx.CrossApp.Invariant

/-! # The commit of a transaction on grants

A commit is the one step that others see.  What it writes was planned under locks: each
row replaces the one that was read, or is a new one, and no open grant of an installation
that it deactivates is left.
-/

namespace RootCx.CrossApp

open RootCx.Text RootCx.Crud List Option Bool

variable {s next : State} {i j : Nat} {t : Tx}

/-! ## What is committed -/

theorem apply_installations (t : Tx) (store : Store) :
    (t.apply store).installations = retire t.retired store.installations ++ t.arrival.toList := (frame_writes ..).1

theorem apply_follows (t : Tx) (store : Store) : Follows store.installations (t.apply store).installations := by
  rw [apply_installations]
  exact follows_commit _ _ _

variable {store store' : Store} {id : Uuid} {installations : List Installation} {inst : Installation}
  {app : Text} {row : GrantRow}

theorem apply_grants (tidy : Tidy t.changes) (id : Uuid) :
    (t.apply store).grants id = ((changeOf t.changes id).map (·.row)).or (store.grants id) := grants_writes tidy id

theorem apply_history (tidy : Tidy t.changes) (id : Uuid) :
    (t.apply store).history id = store.history id ++ ((changeOf t.changes id).map (·.entry)).toList := history_writes tidy id

theorem fits_new {change : Change} (fits : t.fits store = true) (mem : change ∈ t.changes)
    (born : change.entry.beforeState = none) : store.grants change.row.id = none := by
  have free := all_eq_true.mp (and_eq_true_iff.mp fits).1 change mem
  rw [born] at free
  exact isNone_iff_eq_none.mp free

theorem TaskInv.grantStep (own : TaskInv s i t) (fits : t.fits s.store = true) (id : Uuid) :
    GrantStep s.store (t.apply s.store) id := by
  have grants : (t.apply s.store).grants id = _ := apply_grants own.tidy id
  have history : (t.apply s.store).history id = _ := apply_history own.tidy id
  cases found : changeOf t.changes id with
  | none =>
    rw [found] at grants history
    exact .same grants (history.trans (append_nil _))
  | some change =>
    rw [found] at grants history
    obtain ⟨mem, rfl⟩ := own.tidy.changeOf_eq_some.mp found
    have planned := own.planned change mem
    have described := describe_follows (apply_follows t s.store) planned.described
    rcases planned.planned with ⟨before, was, replaces⟩ | ⟨born, drafted⟩
    · obtain ⟨old, current, read, isOpen, -, counted, -⟩ := replaces.replaced
      exact .changed old change.row change.entry current isOpen grants counted history (read.trans was.symm) described
    · exact .created change.row change.entry (fits_new fits mem born) grants drafted.one history born described

/-! ## The history of a grant -/

/-- A grant that is not there has no history, and the history of one that is there is a
    chain to its row. -/
def Recorded (store : Store) (id : Uuid) : Prop :=
  (store.grants id = none → store.history id = []) ∧
    ∀ row, store.grants id = some row → ∃ grant, describe store.installations row = some grant ∧ Chained (store.history id) grant

theorem GrantStep.recorded (stepped : GrantStep store store' id)
    (follows : Follows store.installations store'.installations) (recorded : Recorded store id) :
    Recorded store' id := by
  cases stepped with
  | same row history =>
    rw [Recorded, row, history]
    refine ⟨recorded.1, fun row found => ?_⟩
    obtain ⟨grant, described, chained⟩ := recorded.2 row found
    exact ⟨grant, describe_follows follows described, chained⟩
  | created row entry before after one history born described =>
    rw [Recorded, after, history, recorded.1 before]
    refine ⟨nofun, fun other same => ?_⟩
    cases same
    exact ⟨entry.afterState, described, .first born ((describe_version described).trans one)⟩
  | changed row row' entry before isOpen after counted history was described =>
    rw [Recorded, after, history]
    refine ⟨nofun, fun other same => ?_⟩
    cases same
    obtain ⟨grant, read, chained⟩ := recorded.2 row before
    refine ⟨entry.afterState, described, chained.next (was.symm.trans read) ?_⟩
    rw [describe_version described, describe_version read, counted]

/-! ## Installations behind a commit -/

theorem installation_id (found : installation installations id = some inst) : inst.id = id := by
  have named := find?_some found
  simpa using named

theorem installation_apply (found : installation store.installations id = some inst)
    (spared : inst.id ∉ t.retired) : installation (t.apply store).installations id = some inst := by
  rw [apply_installations]
  apply installation_append
  rw [installation_retire, found, map_some, if_neg spared]

theorem TaskInv.retires (own : TaskInv s i t) (found : installation s.store.installations id = some inst)
    (gone : inst.id ∈ t.retired) :
    ∃ actor reason, t.job = .deactivate inst.appId actor reason ∧ s.appLocks inst.appId = some i := by
  obtain ⟨app, actor, reason, other, job, lock, known, rfl⟩ := own.retired inst.id gone
  rw [installation_id found] at known
  cases found.symm.trans known
  exact ⟨actor, reason, job, lock⟩

theorem activeOf_apply (active : store.activeOf app id = true)
    (spared : ∀ inst, installation store.installations id = some inst → inst.appId = app → inst.id ∉ t.retired) :
    (t.apply store).activeOf app id = true := by
  obtain ⟨inst, found, rfl, runs⟩ := activeOf_iff.mp active
  exact activeOf_iff.mpr ⟨inst, installation_apply found (spared inst found rfl), rfl, runs⟩

theorem ofApp_follows (follows : Follows store.installations store'.installations)
    (found : installation store.installations id = some inst) :
    store'.ofApp app id = true ↔ inst.appId = app := by
  obtain ⟨active, still⟩ := follows id inst found
  rw [ofApp_iff, still]
  constructor
  · rintro ⟨_, same, app⟩
    cases same
    exact app
  · intro app
    exact ⟨_, rfl, app⟩

theorem describe_installations {grant : CollectionGrant} (described : describe installations row = some grant) :
    (∃ inst, installation installations row.consumerInstallationId = some inst) ∧
      ∃ inst, installation installations row.providerInstallationId = some inst := by
  unfold describe at described
  obtain ⟨consumer, foundConsumer, described⟩ := bind_eq_some_iff.mp described
  obtain ⟨provider, foundProvider, -⟩ := bind_eq_some_iff.mp described
  exact ⟨⟨consumer, foundConsumer⟩, provider, foundProvider⟩

theorem involves_follows {grant : CollectionGrant}
    (follows : Follows store.installations store'.installations)
    (described : describe store.installations row = some grant) :
    store'.involves app row = store.involves app row := by
  obtain ⟨⟨consumer, foundConsumer⟩, provider, foundProvider⟩ := describe_installations described
  rw [Store.involves, Store.involves]
  rw [Bool.eq_iff_iff.mpr ((ofApp_follows follows foundConsumer).trans (ofApp_follows (.refl _) foundConsumer).symm)]
  rw [Bool.eq_iff_iff.mpr ((ofApp_follows follows foundProvider).trans (ofApp_follows (.refl _) foundProvider).symm)]

/-! ## The step -/

/-- The grants of an installation that is deactivated are all closed. -/
theorem TaskInv.bound (inv : Inv s) (own : TaskInv s i t) (stage : t.stage = .finished)
    (found : (t.apply s.store).grants id = some row) (isOpen : row.status.isOpen = true) :
    (t.apply s.store).activeOf row.consumerApp row.consumerInstallationId = true ∧
      (t.apply s.store).activeOf row.providerApp row.providerInstallationId = true := by
  have covered : Covered s i t.job t.changes [] := by
    have holds := own.stage
    rw [stage] at holds
    exact holds
  rw [apply_grants own.tidy] at found
  cases changed : changeOf t.changes id with
  | none =>
    rw [changed, map_none, none_or] at found
    obtain ⟨consumer, provider⟩ := inv.bound id row found isOpen
    have missed {app : Text} (involved : s.store.involves app row = true) {actor : Option Uuid} {reason : Text} :
        t.job ≠ .deactivate app actor reason := by
      intro job
      rcases (covered app actor reason job).2 id row found involved with mem | mem
      · exact absurd mem not_mem_nil
      · exact changeOf_eq_none.mp changed mem
    constructor
    · refine activeOf_apply consumer fun inst known app gone => ?_
      obtain ⟨actor, reason, job, -⟩ := own.retires known gone
      apply missed _ job
      rw [Store.involves, isOpen, ofApp_iff.mpr ⟨inst, known, rfl⟩]
      rfl
    · refine activeOf_apply provider fun inst known app gone => ?_
      obtain ⟨actor, reason, job, -⟩ := own.retires known gone
      apply missed _ job
      rw [Store.involves, isOpen, ofApp_iff.mpr ⟨inst, known, rfl⟩, Bool.or_true]
      rfl
  | some change =>
    obtain ⟨mem, rfl⟩ := own.tidy.changeOf_eq_some.mp changed
    rw [changed] at found
    cases found
    -- who opens or keeps open a grant deactivates nothing
    have kept {app : Text} {other : Uuid} (active : s.store.activeOf app other = true)
        (others : ∀ app actor reason, t.job ≠ .deactivate app actor reason) : (t.apply s.store).activeOf app other = true := by
      refine activeOf_apply active fun inst known _ gone => ?_
      obtain ⟨actor, reason, job, -⟩ := own.retires known gone
      exact others _ _ _ job
    rcases (own.planned change mem).planned with ⟨before, -, replaces⟩ | ⟨-, drafted⟩
    · obtain ⟨old, current, -, wasOpen, status, -, same⟩ := replaces.replaced
      obtain ⟨consumer, provider⟩ := inv.bound _ old current wasOpen
      have others : ∀ app actor reason, t.job ≠ .deactivate app actor reason := by
        intro app actor reason job
        rw [status, job] at isOpen
        cases isOpen
      rw [same.consumer, same.consumerInstallation, same.provider, same.providerInstallation]
      exact ⟨kept consumer others, kept provider others⟩
    · have others : ∀ app actor reason, t.job ≠ .deactivate app actor reason := by
        intro app actor reason job
        obtain ⟨request, creator, created⟩ := drafted.creates
        cases job.symm.trans created
      exact ⟨kept drafted.ready.consumer others, kept drafted.ready.provider others⟩

theorem TaskInv.frameOther (inv : Inv s) (own : TaskInv s i t) (fits : t.fits s.store = true) (other : i ≠ j)
    (grantLocks : ∀ id, s.grantLocks id = some j → next.grantLocks id = some j)
    (appLocks : ∀ app, s.appLocks app = some j → next.appLocks app = some j) (store : next.store = t.apply s.store) :
    Frame s next j where
  grantLocks := grantLocks
  appLocks := appLocks
  follows := by
    rw [store]
    exact apply_follows t s.store
  guarded id inst lock found := by
    rw [store]
    refine installation_apply found fun gone => ?_
    obtain ⟨actor, reason, -, mine⟩ := own.retires found gone
    exact other (some.inj (mine.symm.trans lock))
  locked id row lock found := by
    rw [store, apply_grants own.tidy]
    cases changed : changeOf t.changes id with
    | none => exact found
    | some change =>
      obtain ⟨mem, rfl⟩ := own.tidy.changeOf_eq_some.mp changed
      rcases (own.planned change mem).planned with ⟨before, -, replaces⟩ | ⟨born, -⟩
      · exact absurd (some.inj (replaces.lock.symm.trans lock)) other
      · exact nomatch (fits_new fits mem born).symm.trans found
  grown id row found := by
    rw [store]
    cases own.grantStep fits id with
    | same kept => exact ⟨row, kept.trans found, .inl rfl⟩
    | created _ _ before => exact nomatch before.symm.trans found
    | changed old row' _ before _ after counted =>
      cases before.symm.trans found
      exact ⟨row', after, .inr (by omega)⟩
  unopened app id row lock found involved := by
    rw [store] at found involved
    rw [apply_grants own.tidy] at found
    have follows := apply_follows t s.store
    cases changed : changeOf t.changes id with
    | none =>
      rw [changed, map_none, none_or] at found
      obtain ⟨grant, described, -⟩ := inv.chained id row found
      exact ⟨row, found, (involves_follows follows described).symm.trans involved⟩
    | some change =>
      obtain ⟨mem, rfl⟩ := own.tidy.changeOf_eq_some.mp changed
      rw [changed] at found
      cases found
      rcases (own.planned change mem).planned with ⟨before, -, replaces⟩ | ⟨-, drafted⟩
      · obtain ⟨old, current, described, wasOpen, -, -, same⟩ := replaces.replaced
        refine ⟨old, current, ?_⟩
        rw [← involves_follows follows described, Store.involves, wasOpen, Bool.true_and]
        rw [Store.involves, and_eq_true, same.consumerInstallation, same.providerInstallation] at involved
        exact involved.2
      · -- the apps of a new grant are locked by whoever creates it
        exfalso
        rw [Store.involves, and_eq_true, or_eq_true] at involved
        rcases involved.2 with ofConsumer | ofProvider
        · obtain ⟨inst, known, app', -⟩ := activeOf_iff.mp drafted.ready.consumer
          rw [(ofApp_follows follows known).mp ofConsumer] at app'
          exact other (some.inj ((app' ▸ drafted.ready.consumerLock).symm.trans lock))
        · obtain ⟨inst, known, app', -⟩ := activeOf_iff.mp drafted.ready.provider
          rw [(ofApp_follows follows known).mp ofProvider] at app'
          exact other (some.inj ((app' ▸ drafted.ready.providerLock).symm.trans lock))

theorem Inv.committed (inv : Inv s) (own : TaskInv s i t) (stage : t.stage = .finished) (fits : t.fits s.store = true) :
    Inv ({ s with store := t.apply s.store }.release i t) := by
  have recorded (id : Uuid) : Recorded (t.apply s.store) id :=
    (own.grantStep fits id).recorded (apply_follows t s.store) ⟨inv.unborn id, inv.chained id⟩
  have listed : Listed { s.store with installations := retire t.retired s.store.installations ++ t.arrival.toList } := inv.listed
  refine ⟨?_, listed.writes t.changes, ?_, fun _ _ found => own.bound inv stage found, fun id => (recorded id).1,
    fun id => (recorded id).2, inv.operations, ?_⟩
  · change ((t.apply s.store).installations.map (·.id)).Nodup
    rw [apply_installations]
    refine nodup_arrival (by rw [map_id_retire]; exact inv.keys) fun inst arrives => ?_
    have free := (and_eq_true_iff.mp fits).2
    rw [arrives, all_some, and_eq_true, isNone_iff_eq_none] at free
    rw [installation_retire, free.1]
    rfl
  · intro id row found
    change (t.apply s.store).grants id = some row at found
    rw [apply_grants own.tidy] at found
    cases changed : changeOf t.changes id with
    | none =>
      rw [changed, map_none, none_or] at found
      exact inv.named id row found
    | some change =>
      rw [changed] at found
      cases found
      exact (own.tidy.changeOf_eq_some.mp changed).2
  · intro j task found
    obtain ended | ⟨apart, old⟩ := task_release found
    · exact ended
    · exact (inv.tasks j task old).frame
        (own.frameOther inv fits apart (fun _ lock => lock_release apart lock) (fun _ lock => lock_release apart lock) rfl)

/-! ## Runs -/

theorem Inv.commit (inv : Inv s) (own : TaskInv s i t) (stepped : CrossApp.commit s i t = some next) :
    Inv next ∧ ∀ id, GrantStep s.store next.store id := by
  have released : Inv (s.release i t) ∧ ∀ id, GrantStep s.store (s.release i t).store id :=
    ⟨inv.release, fun _ => .same rfl rfl⟩
  unfold CrossApp.commit at stepped
  split at stepped
  next stage =>
    split at stepped
    next fits =>
      cases stepped
      exact ⟨inv.committed own stage fits, own.grantStep fits⟩
    next =>
      cases stepped
      exact released
  next =>
    cases stepped
    exact released
  next => cases stepped

theorem changeNext_store {rest : List Uuid} {draft : Option GrantRow} {point : Point}
    (stepped : changeNext s i t id rest draft point = some next) : next.store = s.store := by
  unfold changeNext at stepped
  cases point with
  | idle =>
    dsimp only at stepped
    split at stepped
    · cases stepped
      rfl
    · cases stepped
  | locked | updated =>
    dsimp only at stepped
    split at stepped <;>
      · cases stepped
        rfl
  | loaded =>
    dsimp only at stepped
    split at stepped <;> split at stepped <;>
      · cases stepped
        rfl
  | reloaded =>
    cases stepped
    rfl

theorem advance_store (stepped : CrossApp.advance s i t = some next) : next.store = s.store := by
  unfold CrossApp.advance at stepped
  split at stepped
  all_goals
    first
    | exact changeNext_store stepped
    | cases stepped <;> rfl
    | split at stepped <;> cases stepped <;> rfl

theorem Inv.workflow {appId : Text} (inv : Inv s)
    (fresh : (installation s.store.installations id).isNone = true) :
    Inv { s with store := { s.store with installations := s.store.installations ++ [⟨id, appId, 1, true⟩] } } := by
  have follows : Follows s.store.installations (s.store.installations ++ [⟨id, appId, 1, true⟩]) :=
    fun _ inst found => ⟨inst.active, installation_append found⟩
  have active {app : Text} {other : Uuid} (runs : s.store.activeOf app other = true) :
      Store.activeOf { s.store with installations := s.store.installations ++ [⟨id, appId, 1, true⟩] } app other = true := by
    obtain ⟨inst, found, same, runs⟩ := activeOf_iff.mp runs
    exact activeOf_iff.mpr ⟨inst, installation_append found, same, runs⟩
  refine ⟨?_, inv.listed, inv.named, fun id row found isOpen => ?_, inv.unborn, fun id row found => ?_, inv.operations, ?_⟩
  · have arrives : ((s.store.installations ++ (some (Installation.mk id appId 1 true)).toList).map (·.id)).Nodup := by
      refine nodup_arrival inv.keys fun inst same => ?_
      cases same
      exact fresh
    exact arrives
  · obtain ⟨consumer, provider⟩ := inv.bound id row found isOpen
    exact ⟨active consumer, active provider⟩
  · obtain ⟨grant, described, chained⟩ := inv.chained id row found
    exact ⟨grant, describe_follows follows described, chained⟩
  · intro j task found
    apply (inv.tasks j task found).frame
    refine ⟨fun _ lock => lock, fun _ lock => lock, follows, fun _ _ _ found => installation_append found,
      fun _ _ _ found => found, fun _ row found => ⟨row, found, .inl rfl⟩, fun app id row _ found involved => ?_⟩
    obtain ⟨grant, described, -⟩ := inv.chained id row found
    exact ⟨row, found, (involves_follows follows described).symm.trans involved⟩

theorem Inv.step {act : Act} (inv : Inv s) (stepped : CrossApp.step s act = some next) :
    Inv next ∧ ∀ id, GrantStep s.store next.store id := by
  cases act with
  | tick now =>
    dsimp only [CrossApp.step] at stepped
    split at stepped
    · cases stepped
      refine ⟨inv.beside rfl rfl rfl rfl inv.operations fun j task found => ?_, fun _ => .same rfl rfl⟩
      exact (inv.tasks j task found).frame (.of_grants rfl rfl (fun _ lock => lock) fun _ lock => lock)
    · cases stepped
  | setApp appId row =>
    cases stepped
    refine ⟨inv.beside rfl rfl rfl rfl inv.operations fun j task found => ?_, fun _ => .same rfl rfl⟩
    exact (inv.tasks j task found).frame (.of_grants rfl rfl (fun _ lock => lock) fun _ lock => lock)
  | workflow appId id =>
    dsimp only [CrossApp.step] at stepped
    split at stepped
    next free =>
      cases stepped
      exact ⟨inv.workflow (and_eq_true_iff.mp free).1, fun _ => .same rfl rfl⟩
    next => cases stepped
  | begin job =>
    cases stepped
    refine ⟨inv.beside rfl rfl rfl rfl inv.operations fun j task found => ?_, fun _ => .same rfl rfl⟩
    have frame (t : Tx) : Frame s { s with tasks := s.tasks ++ [t] } j := .of_grants rfl rfl (fun _ lock => lock) fun _ lock => lock
    rcases Nat.lt_or_ge j s.tasks.length with within | beyond
    · rw [getElem?_append_left within] at found
      exact (inv.tasks j task found).frame (frame _)
    · have new := mem_of_getElem? (getElem?_append_right beyond ▸ found)
      obtain rfl := mem_singleton.mp new
      exact ⟨⟨fun _ mem => absurd mem not_mem_nil, nodup_nil⟩, fun _ => rfl,
        fun _ mem => absurd mem not_mem_nil, fun _ mem => absurd mem not_mem_nil, trivial⟩
  | advance i =>
    obtain ⟨t, here, advanced⟩ := bind_eq_some_iff.mp stepped
    refine ⟨inv.advance (inv.tasks i t here) advanced, fun _ => ?_⟩
    rw [advance_store advanced]
    exact .same rfl rfl
  | commit i =>
    obtain ⟨t, here, committed⟩ := bind_eq_some_iff.mp stepped
    exact inv.commit (inv.tasks i t here) committed
  | abort i =>
    obtain ⟨t, here, aborted⟩ := bind_eq_some_iff.mp stepped
    cases aborted
    exact ⟨inv.release, fun _ => .same rfl rfl⟩

theorem inv_start (now : Time) (apps : Text → Option AppRow) (keys : (installations.map (·.id)).Nodup) :
    Inv (start now apps installations) where
  keys := keys
  listed := ⟨nodup_nil, fun _ => ⟨fun mem => absurd mem not_mem_nil, fun known => absurd known Bool.false_ne_true⟩⟩
  named _ _ found := absurd found.symm (some_ne_none _)
  bound _ _ found := absurd found.symm (some_ne_none _)
  unborn _ _ := rfl
  chained _ _ found := absurd found.symm (some_ne_none _)
  operations _ mem := absurd mem not_mem_nil
  tasks _ _ found := absurd (mem_of_getElem? found) not_mem_nil

theorem Inv.governed (inv : Inv s) : Governed s := by
  refine ⟨inv.operations, inv.chained, fun id row found isOpen inst either => ?_⟩
  obtain ⟨consumer, provider⟩ := inv.bound id row found isOpen
  obtain ⟨other, known, -, active⟩ := activeOf_iff.mp consumer
  obtain ⟨other', known', -, active'⟩ := activeOf_iff.mp provider
  rcases either with same | same
  · cases known.symm.trans same
    exact active
  · cases known'.symm.trans same
    exact active'

theorem GrantStep.final (stepped : GrantStep store store' id) (found : store.grants id = some row)
    (closed : row.status.isOpen = false) : store'.grants id = some row := by
  cases stepped with
  | same kept => exact kept.trans found
  | created _ _ before => exact nomatch before.symm.trans found
  | changed old _ _ before isOpen =>
    cases before.symm.trans found
    rw [closed] at isOpen
    cases isOpen

/-- In every run of the transactions: each operation has run under the row that it was
    authorized with, in force at its check; the history of each grant is a chain; no grant
    of a deactivated installation is open.  Each step changes a grant by one version and
    one entry, and a grant that is revoked or expired never changes again. -/
theorem grants_governed (now : Time) (apps : Text → Option AppRow) {installations : List Installation}
    (keys : (installations.map (·.id)).Nodup) {acts : List Act} (ran : Runs.run step (start now apps installations) acts = some s) :
    Governed s ∧ (∀ act next, step s act = some next → ∀ id, GrantStep s.store next.store id) ∧
      ∀ more last, Runs.run step s more = some last →
        ∀ id row, s.store.grants id = some row → row.status.isOpen = false → last.store.grants id = some row := by
  have inv : Inv s := Runs.run_invariant (fun inv stepped => (inv.step stepped).1) (inv_start now apps keys) ran
  refine ⟨inv.governed, fun act next stepped => (inv.step stepped).2, fun more last continued id row found closed => ?_⟩
  refine (@Runs.run_invariant _ _ step (fun s => Inv s ∧ s.store.grants id = some row) ?_ s last more ⟨inv, found⟩ continued).2
  rintro s act next ⟨inv, found⟩ stepped
  obtain ⟨inv, steps⟩ := inv.step stepped
  exact ⟨inv, (steps id).final found closed⟩

/-! ## One grant from its creation to its end -/

def deskApps : Text → Option AppRow := fun app =>
  if app = ['c'] then some ⟨.installed, []⟩
  else if app = ['p'] then some ⟨.installed, [(['e'], ⟨systemFieldTypes⟩)]⟩ else none

def deskInstallations : List Installation := [⟨['1'], ['c'], 1, true⟩, ⟨['2'], ['p'], 1, true⟩]

/-- A grant is created and approved, an operation runs under it, and the provider is
    uninstalled while the operation waits to be over. -/
def deskActs : List Act :=
  flatten [
    [.begin (.create ⟨['c'], ['p'], ['e'], [ACTION_LIST], none, none, none, []⟩ ['g'] ['u'])], .replicate 8 (.advance 0), [.commit 0],
    [.begin (.change ['g'] (approveGrant ['v'] []) ['v'])], .replicate 7 (.advance 1), [.commit 1],
    [.begin (.operate ⟨['c'], ['p'], ['e'], ACTION_LIST, [], []⟩)], .replicate 5 (.advance 2),
    [.begin (.deactivate ['p'] none [])], .replicate 3 (.advance 3), [.commit 2], .replicate 6 (.advance 3), [.commit 3]]

theorem desk_governed : ∃ s, Runs.run step (start 0 deskApps deskInstallations) deskActs = some s ∧
    s.operations.length = 1 ∧ (s.store.grants ['g']).map (·.version) = some 3 ∧ Governed s := by
  have read : (Runs.run step (start 0 deskApps deskInstallations) deskActs).map
      (fun s => (s.operations.length, (s.store.grants ['g']).map (·.version))) = some (1, some 3) := by decide +kernel
  obtain ⟨s, ran, outcome⟩ := Option.map_eq_some_iff.mp read
  simp only [Prod.mk.injEq] at outcome
  exact ⟨s, ran, outcome.1, outcome.2, (grants_governed 0 deskApps (by decide) ran).1⟩

end RootCx.CrossApp
