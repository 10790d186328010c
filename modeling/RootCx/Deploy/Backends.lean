import RootCx.Deploy.Frontends

/-! # Deploying a backend

`deploy_backend_archive` of `routes/deploy.rs`: an archive is unpacked next to the
active directory of the application, prepared there and swapped in.  Every step
may fail, and what the environment answers at each of them is an input.  The
directories hold trees that stay opaque.
-/

namespace RootCx.Deploy

open RootCx.Text

variable {Tree : Type}

/-- The three directories a deployment works with and the row of the application
    in `backend_releases`: its revision and digest. -/
structure Machine (Tree : Type) where
  active : Option Tree
  staged : Option Tree := none
  previous : Option Tree := none
  release : Option (Nat × Option Text) := none

/-- What each step meets.  A step that fails may still have changed the staged
    directory. -/
structure Environment (Tree : Type) where
  lock : Except ApiError Unit
  extract : Except ApiError Unit
  unpacked : Tree
  migrations : Except Text (List Text)
  hasPackageJson : Tree → Bool
  install : Except ApiError Unit
  installed : Tree → Tree
  beginRelease : Except ApiError Nat
  moveAside : Except Text Unit
  activate : Except Text Unit
  restore : Except Text Unit
  hasAgent : Tree → Bool
  registerAgent : Except Text Unit
  govern : Except Text Unit
  fingerprint : Tree → Except ApiError Text
  saveDigest : Except ApiError Unit
  start : Except ApiError Unit
  clearPrevious : Except Text Unit

/-- A computation that keeps what it did when it fails. -/
abbrev Deployment (Tree : Type) (α : Type) := ExceptT ApiError (StateM (Machine Tree)) α

def check {α : Type} (outcome : Except ApiError α) : Deployment Tree α := fun machine => (outcome, machine)

/-- An error with a text in front. -/
def withText {α : Type} (front : String) (outcome : Except Text α) : Except ApiError α :=
  outcome.mapError fun message => .internal (front.toList ++ message)

/-! ## The steps -/

/-- `begin_deployment`: a new revision without a digest. -/
def beginDeployment (env : Environment Tree) : Deployment Tree Nat := do
  let revision ← check env.beginRelease
  modify fun machine => { machine with release := some (revision, none) }
  return revision

/-- Up to the release: only the staged directory is touched. -/
def prepare (env : Environment Tree) : Deployment Tree (List Text × Nat) := do
  check env.lock
  modify fun machine => { machine with staged := some env.unpacked }
  check env.extract
  let applied ← check (env.migrations.mapError .badRequest)
  if env.hasPackageJson env.unpacked then
    modify fun machine => { machine with staged := some (env.installed env.unpacked) }
    check env.install
  let revision ← beginDeployment env
  return (applied, revision)

/-- The swap of the directories, once the worker is stopped. -/
def swap (env : Environment Tree) : Deployment Tree Unit := do
  if (← get).active.isSome then
    check (withText "" env.moveAside)
    modify fun machine => { machine with previous := machine.active, active := none }
  match env.activate with
  | .ok () => modify fun machine => { machine with active := machine.staged, staged := none }
  | .error message =>
    if (← get).previous.isSome then
      match env.restore with
      | .ok () => modify fun machine => { machine with active := machine.previous, previous := none }
      -- not looked at
      | .error _ => pure ()
    throw (.internal ("activate backend: " ++ message))

/-- `finish_deployment`: the digest of the active directory. -/
def finishDeployment (env : Environment Tree) (tree : Tree) (revision : Nat) : Deployment Tree Unit := do
  let digest ← check (env.fingerprint tree)
  check env.saveDigest
  modify fun machine => { machine with
    release := machine.release.map fun held => if held.1 = revision then (revision, some digest) else held }

/-- What follows the swap, on the tree that is active now. -/
def settle (env : Environment Tree) (tree : Tree) (revision : Nat) : Deployment Tree Unit := do
  if env.hasAgent tree then check (withText "agent registration: " env.registerAgent)
  check (withText "governing app tables: " env.govern)
  finishDeployment env tree revision
  check env.start

/-- The tree that is swapped in. -/
def Environment.tree (env : Environment Tree) : Tree :=
  if env.hasPackageJson env.unpacked then env.installed env.unpacked else env.unpacked

/-- The rest of the deployment; a directory that cannot be cleared stays. -/
def conclude (env : Environment Tree) (applied : List Text) (revision : Nat) : Deployment Tree (List Text) := do
  settle env env.tree revision
  if env.clearPrevious.isOk then modify fun machine => { machine with previous := none }
  return applied

def deployBackendArchive (env : Environment Tree) : Deployment Tree (List Text) := do
  let (applied, revision) ← prepare env
  swap env
  conclude env applied revision

/-! ## What each part does -/

theorem bind_run {α β : Type} (first : Deployment Tree α) (next : α → Deployment Tree β) (machine : Machine Tree) :
    (first >>= next) machine =
      match first machine with
      | (.ok value, after) => next value after
      | (.error failure, after) => (.error failure, after) := by
  simp only [bind, ExceptT.bind, ExceptT.mk, StateT.bind]
  cases first machine with
  | mk result after => cases result <;> rfl

/-- What a part of the deployment leaves as it was. -/
def Keeps {α β : Type} (field : Machine Tree → β) (part : Deployment Tree α) : Prop :=
  ∀ machine, field (part machine).2 = field machine

variable {α β : Type} {first : Deployment Tree α} {next : α → Deployment Tree β} {field : Machine Tree → β}
  {change : Machine Tree → Machine Tree} (env : Environment Tree) {machine after : Machine Tree}
  {outcome : Except ApiError α} {later : Prop}

theorem Keeps.bind {γ : Type} {field : Machine Tree → γ} (one : Keeps field first)
    (rest : ∀ value, Keeps field (next value)) : Keeps field (first >>= next) := by
  intro machine
  rw [bind_run]
  have kept := one machine
  cases ran : first machine with
  | mk result after =>
    rw [ran] at kept
    cases result with
    | error failure => exact kept
    | ok value => exact (rest value after).trans kept

theorem keeps_check (outcome : Except ApiError α) :
    Keeps field (check outcome : Deployment Tree α) := fun _ => rfl

theorem keeps_modify (same : ∀ machine, field (change machine) = field machine) :
    Keeps field (modify change : Deployment Tree Unit) :=
  same

theorem begin_keeps (same : ∀ machine release, field { machine with release := release } = field machine) :
    Keeps field (beginDeployment env) :=
  (keeps_check _).bind fun _ => Keeps.bind (keeps_modify fun machine => same machine _) fun _ _ => rfl

theorem prepare_keeps : Keeps (fun machine => (machine.active, machine.previous)) (prepare env) := by
  refine (keeps_check _).bind fun _ => Keeps.bind (keeps_modify ?_) fun _ => (keeps_check _).bind fun _ =>
    (keeps_check _).bind fun applied => ?_
  · exact fun _ => rfl
  have begun : Keeps (fun machine : Machine Tree => (machine.active, machine.previous))
      (beginDeployment env >>= fun revision => pure (applied, revision)) :=
    Keeps.bind (begin_keeps env fun _ _ => rfl) fun _ _ => rfl
  split
  · exact Keeps.bind (keeps_modify fun _ => by rfl) fun _ => (keeps_check _).bind fun _ => begun
  · exact begun

theorem settle_keeps (tree : Tree) (revision : Nat) : Keeps Machine.active (settle env tree revision) := by
  have rest : Keeps Machine.active (do
      check (withText "governing app tables: " env.govern)
      finishDeployment env tree revision
      check env.start) := by
    refine (keeps_check _).bind fun _ => Keeps.bind ?_ fun _ => keeps_check _
    exact (keeps_check _).bind fun _ => (keeps_check _).bind fun _ => keeps_modify fun _ => by rfl
  unfold settle
  split
  · exact (keeps_check _).bind fun _ => rest
  · exact rest

theorem bind_run_ok {result : β} :
    (first >>= next) machine = (.ok result, after) ↔
      ∃ value between, first machine = (.ok value, between) ∧ next value between = (.ok result, after) := by
  rw [bind_run]
  cases first machine with
  | mk outcome between =>
    cases outcome with
    | error failure => exact ⟨(fun same => nomatch same), fun ⟨_, _, other, _⟩ => nomatch other⟩
    | ok value =>
      refine ⟨fun ran => ⟨value, between, rfl, ran⟩, ?_⟩
      rintro ⟨_, _, same, ran⟩
      cases same
      exact ran

theorem check_ok {value : α} :
    check outcome machine = (.ok value, after) ↔ outcome = .ok value ∧ after = machine := by
  constructor
  · intro same
    cases same
    exact ⟨rfl, rfl⟩
  · rintro ⟨rfl, rfl⟩
    rfl

/-- A prepared deployment has its tree in the staged directory. -/
theorem prepare_staged {env : Environment Tree} {result : List Text × Nat}
    (ran : prepare env machine = (.ok result, after)) : after.staged = some env.tree := by
  obtain ⟨_, _, -, ran⟩ := bind_run_ok.mp ran
  obtain ⟨_, unpacked, staged, ran⟩ := bind_run_ok.mp ran
  cases staged
  obtain ⟨_, _, extracted, ran⟩ := bind_run_ok.mp ran
  obtain ⟨-, rfl⟩ := check_ok.mp extracted
  obtain ⟨applied, _, migrated, ran⟩ := bind_run_ok.mp ran
  obtain ⟨-, rfl⟩ := check_ok.mp migrated
  -- the last two steps are the same with and without dependencies
  have begun {before : Machine Tree}
      (ran : (beginDeployment env >>= fun revision => pure (applied, revision)) before = (.ok result, after)) :
      after.staged = before.staged := by
    obtain ⟨revision, _, started, done⟩ := bind_run_ok.mp ran
    cases done
    have kept : Keeps Machine.staged (beginDeployment env) := begin_keeps env fun _ _ => rfl
    have kept := kept before
    rwa [started] at kept
  rw [Environment.tree]
  dsimp only at ran
  split at ran
  · rename_i packaged
    obtain ⟨_, _, changed, ran⟩ := bind_run_ok.mp ran
    cases changed
    obtain ⟨_, _, installed, ran⟩ := bind_run_ok.mp ran
    obtain ⟨-, rfl⟩ := check_ok.mp installed
    rw [begun ran, if_pos packaged]
  · rename_i bare
    rw [begun ran, if_neg bare]

/-! ## Where it fails -/

def Failing {ε α : Type} (outcome : Except ε α) : Prop := ∃ failure, outcome = .error failure

def Fails {α : Type} (part : Deployment Tree α) (machine : Machine Tree) : Prop := Failing (part machine).1

theorem failing_withText {front : String} {outcome : Except Text α} :
    Failing (withText front outcome) ↔ Failing outcome := by
  cases outcome <;> simp [withText, Except.mapError, Failing]

theorem not_failing {ε : Type} {outcome : Except ε α} : ¬Failing outcome ↔ ∃ value, outcome = .ok value := by
  cases outcome <;> simp [Failing]

@[simp] theorem fails_check :
    Fails (check outcome) machine ↔ Failing outcome := Iff.rfl

@[simp] theorem fails_modify : Fails (modify change : Deployment Tree Unit) machine ↔ False :=
  ⟨(fun ⟨_, other⟩ => nomatch other), False.elim⟩

@[simp] theorem fails_pure {value : α} : Fails (pure value : Deployment Tree α) machine ↔ False :=
  ⟨(fun ⟨_, other⟩ => nomatch other), False.elim⟩

/-- A sequence fails where its first part does, or the rest; whether the rest fails
    is decided by the environment, not by what the first part left. -/
theorem fails_bind (rest : ∀ value between, Fails (next value) between ↔ later) :
    Fails (first >>= next) machine ↔ Fails first machine ∨ later := by
  rw [Fails, Fails, bind_run]
  cases first machine with
  | mk outcome between =>
    cases outcome with
    | error failure => exact ⟨fun _ => .inl ⟨failure, rfl⟩, fun _ => ⟨failure, rfl⟩⟩
    | ok value =>
      have ahead : ¬Failing (.ok value : Except ApiError α) := not_failing.mpr ⟨value, rfl⟩
      exact (rest value between).trans (or_iff_right ahead).symm

theorem fails_check_bind (rest : ∀ value between, Fails (next value) between ↔ later) :
    Fails (check outcome >>= next) machine ↔ Failing outcome ∨ later := fails_bind rest

theorem fails_modify_bind {next : Unit → Deployment Tree β}
    (rest : ∀ between, Fails (next ()) between ↔ later) : Fails (modify change >>= next) machine ↔ later :=
  (fails_bind fun _ between => rest between).trans (or_iff_right fails_modify.mp)

/-- A step before the swap fails. -/
def Environment.PrepareFails (env : Environment Tree) : Prop :=
  Failing env.lock ∨ Failing env.extract ∨ Failing env.migrations ∨
    (env.hasPackageJson env.unpacked = true ∧ Failing env.install) ∨ Failing env.beginRelease

/-- A step behind the swap fails. -/
def Environment.SettleFails (env : Environment Tree) : Prop :=
  (env.hasAgent env.tree = true ∧ Failing env.registerAgent) ∨ Failing env.govern ∨
    Failing (env.fingerprint env.tree) ∨ Failing env.saveDigest ∨ Failing env.start

theorem begin_fails (machine : Machine Tree) :
    Fails (beginDeployment env) machine ↔ Failing env.beginRelease := by
  rw [← or_false (Failing env.beginRelease)]
  exact fails_check_bind fun _ _ => fails_modify_bind fun _ => fails_pure

theorem prepare_fails (machine : Machine Tree) : Fails (prepare env) machine ↔ env.PrepareFails := by
  have migrations : Failing (env.migrations.mapError ApiError.badRequest) ↔ Failing env.migrations := by
    cases env.migrations <;> simp [Except.mapError, Failing]
  have begun (applied : List Text) (machine : Machine Tree) :
      Fails (beginDeployment env >>= fun revision => pure (applied, revision)) machine ↔ Failing env.beginRelease := by
    rw [fails_bind fun _ _ => fails_pure, begin_fails, or_false]
  unfold Environment.PrepareFails
  rw [← migrations]
  refine fails_check_bind fun _ _ => fails_modify_bind fun _ => fails_check_bind fun _ _ =>
    fails_check_bind fun applied between => ?_
  split
  · rename_i packaged
    refine (fails_modify_bind fun _ => fails_check_bind fun _ _ => begun applied _).trans ?_
    simp [packaged]
  · rename_i bare
    refine (begun applied _).trans ?_
    simp [bare]

theorem settle_fails (revision : Nat) (machine : Machine Tree) :
    Fails (settle env env.tree revision) machine ↔ env.SettleFails := by
  have finish (machine : Machine Tree) : Fails (finishDeployment env env.tree revision) machine ↔
      Failing (env.fingerprint env.tree) ∨ Failing env.saveDigest := by
    rw [← or_false (Failing env.saveDigest)]
    exact fails_check_bind fun _ _ => fails_check_bind fun _ _ => fails_modify
  have governed (machine : Machine Tree) :
      Fails (check (withText "governing app tables: " env.govern) >>= fun _ =>
        finishDeployment env env.tree revision >>= fun _ => check env.start) machine ↔
        Failing env.govern ∨ Failing (env.fingerprint env.tree) ∨ Failing env.saveDigest ∨ Failing env.start := by
    rw [← failing_withText, ← @or_assoc (Failing (env.fingerprint env.tree))]
    exact fails_check_bind fun _ between => (fails_bind fun _ _ => fails_check).trans (or_congr_left (finish between))
  unfold settle Environment.SettleFails
  split
  · rename_i agent
    refine (fails_check_bind fun _ between => governed between).trans ?_
    simp [agent, failing_withText]
  · rename_i none_
    refine (governed machine).trans ?_
    simp [none_]

/-! ## The active directory -/

/-- The swap, by the active directory and what the three renames answer. -/
theorem swap_run (env : Environment Tree) (active staged : Option Tree) (release : Option (Nat × Option Text)) :
    swap env ⟨active, staged, none, release⟩ =
      match active, env.moveAside, env.activate, env.restore with
      | none, _, .ok (), _ => (.ok (), ⟨staged, none, none, release⟩)
      | none, _, .error message, _ =>
        (.error (.internal ("activate backend: " ++ message)), ⟨none, staged, none, release⟩)
      | some held, .error message, _, _ => (.error (.internal ("" ++ message)), ⟨some held, staged, none, release⟩)
      | some held, .ok (), .ok (), _ => (.ok (), ⟨staged, none, some held, release⟩)
      | some held, .ok (), .error message, .ok () =>
        (.error (.internal ("activate backend: " ++ message)), ⟨some held, staged, none, release⟩)
      | some held, .ok (), .error message, .error _ =>
        (.error (.internal ("activate backend: " ++ message)), ⟨none, staged, some held, release⟩) := by
  unfold swap
  cases active with
  | none => cases env.activate <;> rfl
  | some held =>
    cases env.moveAside with
    | error message => rfl
    | ok _ =>
      cases env.activate with
      | ok _ => rfl
      | error message => cases env.restore <;> rfl

/-- A deployment that answers with an error leaves the active directory as it was. -/
def Preserved (env : Environment Tree) (machine : Machine Tree) : Prop :=
  Fails (deployBackendArchive env) machine → (deployBackendArchive env machine).2.active = machine.active

/-- The failures that are undone, and those of a deployment that changes nothing. -/
def Environment.Harmless (env : Environment Tree) (active : Option Tree) : Prop :=
  env.PrepareFails ∨ (active.isSome = true ∧ Failing env.moveAside) ∨
    (Failing env.activate ∧ (active = none ∨ ¬Failing env.restore)) ∨
    (¬Failing env.activate ∧ (¬env.SettleFails ∨ active = some env.tree))

theorem conclude_fails (applied : List Text) (revision : Nat) (machine : Machine Tree) :
    Fails (conclude env applied revision) machine ↔ env.SettleFails := by
  rw [← settle_fails env revision machine, ← or_false (Fails (settle env env.tree revision) machine)]
  refine fails_bind fun _ between => ?_
  split
  · exact fails_modify_bind fun _ => fails_pure
  · exact fails_pure

theorem conclude_keeps (applied : List Text) (revision : Nat) :
    Keeps Machine.active (conclude env applied revision) := by
  refine (settle_keeps env env.tree revision).bind fun _ => ?_
  split
  · exact Keeps.bind (keeps_modify fun _ => by rfl) fun _ _ => rfl
  · exact fun _ => rfl

theorem deploy_swapped {env : Environment Tree} {before : Machine Tree} {applied : List Text} {revision : Nat}
    (prepared : prepare env machine = (.ok (applied, revision), before)) :
    (Fails (deployBackendArchive env) machine ↔ Fails (swap env) before ∨ env.SettleFails) ∧
      (deployBackendArchive env machine).2.active = (swap env before).2.active := by
  have ran : deployBackendArchive env machine = (swap env >>= fun _ => conclude env applied revision) before := by
    rw [deployBackendArchive, bind_run, prepared]
  constructor
  · rw [Fails, ran]
    exact fails_bind fun _ between => conclude_fails env applied revision between
  · rw [ran, bind_run]
    cases swapped : swap env before with
    | mk outcome after =>
      cases outcome with
      | error failure => rfl
      | ok _ => exact conclude_keeps env applied revision after

/-- A deployment that fails leaves the active directory as it was exactly when the
    failure is harmless.  The names of the two other directories are fresh. -/
theorem deploy_preserved_iff (env : Environment Tree) (active : Option Tree) (release : Option (Nat × Option Text)) :
    Preserved env ⟨active, none, none, release⟩ ↔ env.Harmless active := by
  have early := prepare_fails env ⟨active, none, none, release⟩
  have kept := prepare_keeps env ⟨active, none, none, release⟩
  cases prepared : prepare env ⟨active, none, none, release⟩ with
  | mk outcome before =>
    rw [Fails, prepared] at early
    rw [prepared] at kept
    cases outcome with
    | error failure =>
      -- nothing behind the failing step runs
      have harmless : env.PrepareFails := early.mp ⟨failure, rfl⟩
      refine ⟨fun _ => .inl harmless, fun _ _ => ?_⟩
      rw [deployBackendArchive, bind_run, prepared]
      exact congrArg Prod.fst kept
    | ok result =>
      obtain ⟨applied, revision⟩ := result
      have notEarly : ¬env.PrepareFails := fun fails => by
        obtain ⟨_, other⟩ := early.mpr fails
        cases other
      have staged := prepare_staged prepared
      obtain ⟨active', staged', previous', release'⟩ := before
      cases kept
      cases staged
      obtain ⟨fails, left⟩ := deploy_swapped prepared
      rw [Preserved, fails, left, Fails, swap_run, Environment.Harmless, or_iff_right notEarly]
      -- the swap by cases, as `swap_run` lists them
      cases active with
      | none =>
        cases env.activate with
        | error message => simp [Failing]
        | ok _ => simp [Failing, or_iff_not_imp_left]
      | some held =>
        cases env.moveAside with
        | error message => simp [Failing]
        | ok _ =>
          cases env.activate with
          | ok _ => simp [Failing, or_iff_not_imp_left, eq_comm]
          | error message => cases env.restore <;> simp [Failing]

/-- Every step succeeds but the start of the new backend. -/
def startFails : Environment Nat where
  lock := .ok ()
  extract := .ok ()
  unpacked := 1
  migrations := .ok []
  hasPackageJson := fun _ => false
  install := .ok ()
  installed := id
  beginRelease := .ok 7
  moveAside := .ok ()
  activate := .ok ()
  restore := .ok ()
  hasAgent := fun _ => false
  registerAgent := .ok ()
  govern := .ok ()
  fingerprint := fun _ => .ok "digest"
  saveDigest := .ok ()
  start := .error (.internal "start")
  clearPrevious := .ok ()

/-- The new tree stays active. -/
theorem deploy_replaced : ¬Preserved startFails ⟨some 0, none, none, none⟩ := by
  intro preserved
  have kept : (some 1 : Option Nat) = some 0 := preserved ⟨.internal "start".toList, rfl⟩
  exact absurd kept (by decide)

end RootCx.Deploy
