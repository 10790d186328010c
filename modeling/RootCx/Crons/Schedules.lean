import RootCx.Lib.JsonValue
import RootCx.Lib.Runs
import RootCx.Postgres.Pieces
import RootCx.Rules.Parser

/-! # Cron schedules and their jobs

`crons.rs` keeps a schedule twice: as a row of `cron_schedules`, and as a job of
`pg_cron` that fires it.  Each of its functions is one transaction on both, except for
the synchronisation with a manifest, which is a sequence of them.  Rows also go when the
row of their application does, by a cascade.

Ids are their canonical texts.  `accepts` says which schedules `pg_cron` can read, and
`answered` whether the database answers the statements of a transaction.
-/

namespace RootCx.Crons

open Rules.Parser (parseU32)

abbrev Uuid := Text

/-! ## The two stores -/

structure CronSchedule where
  id : Uuid
  appId : Text
  name : Text
  schedule : Text
  timezone : Option Text
  payload : Json
  overlapPolicy : Text
  enabled : Bool
  pgJobId : Option Nat
  createdBy : Option Uuid

/-- A row of `cron.job`. -/
structure PgJob where
  jobId : Nat
  jobName : Text
  schedule : Text
  command : Text

structure Store where
  /-- `PG_CRON_AVAILABLE` -/
  available : Bool
  apps : List Text
  rows : List CronSchedule
  jobs : List PgJob
  nextJob : Nat

inductive RuntimeError where
  | cron (message : Text)
  | notFound (message : Text)
  | database

abbrev Outcome := Except RuntimeError

def skip : Text := "skip"

def jobName (cron : Uuid) : Text := "rootcx-" ++ cron

def cronCommand (cron : Uuid) (appId : Text) (payload : Json) (skipOver : Bool) : Text :=
  "SELECT rootcx_system.enqueue_cron(" ++ Postgres.quoteLiteral cron ++ "::uuid, " ++
    Postgres.quoteLiteral appId ++ "::text, " ++ Postgres.quoteLiteral payload.compact ++ "::jsonb, " ++
    (if skipOver then "true" else "false").toList ++ "::boolean)"

/-! ## Validation -/

def refuse (message : Text) : Outcome Unit := .error (.cron message)

def requirePgCron (store : Store) : Outcome Unit :=
  if store.available then .ok ()
  else refuse
    "pg_cron not available — add shared_preload_libraries='pg_cron' to postgresql.conf and restart PostgreSQL"

def validateName (name : Text) : Outcome Unit :=
  if name.isEmpty || Text.byteLength name > 64 || !name.all (fun b => b.isAlphanum || b == '_' || b == '-') then
    refuse ("invalid cron name: '" ++ name ++ "'")
  else .ok ()

def validateSeconds (schedule amount : Text) : Outcome Unit :=
  match parseU32 amount with
  | none => refuse ("invalid seconds interval: '" ++ schedule ++ "'")
  | some n =>
    if n < 1 ∨ n > 59 then refuse ("seconds must be 1-59, got: " ++ (toString n).toList) else .ok ()

def validateSchedule (schedule : Text) : Outcome Unit :=
  let parts := Text.splitWhitespace schedule
  -- `pg_cron` reads "N seconds" as an interval
  if parts.length = 2 ∧ parts[1]? = some "seconds".toList then validateSeconds schedule (parts.headD [])
  else if parts.length ≠ 5 then
    refuse ("invalid cron schedule: '" ++ schedule ++ "' (expected 5 fields or 'N seconds')")
  else if !schedule.all (fun b => b.isDigit || b ∈ [' ', '*', '/', '-', ',', '$']) then
    refuse ("invalid characters in cron schedule: '" ++ schedule ++ "'")
  else .ok ()

def validateOverlap (policy : Text) : Outcome Unit :=
  if policy ≠ skip ∧ policy ≠ "queue" then
    refuse ("overlap_policy must be 'skip' or 'queue', got: '" ++ policy ++ "'")
  else .ok ()

/-! ## The jobs of `pg_cron` -/

section Transactions

variable (accepts : Text → Bool)

/-- `cron.schedule`: a job of that name is changed, otherwise there is a new one. -/
def schedulePgCron (store : Store) (cron : Uuid) (appId schedule : Text) (payload : Json) (skipOver : Bool) :
    Outcome (Store × Nat) :=
  let command := cronCommand cron appId payload skipOver
  if !accepts schedule then .error .database
  else match store.jobs.find? (fun job => decide (job.jobName = jobName cron)) with
    | some job =>
      let changed := store.jobs.map fun other =>
        if other.jobId = job.jobId then { other with schedule := schedule, command := command } else other
      .ok ({ store with jobs := changed }, job.jobId)
    | none =>
      .ok ({ store with
        jobs := store.jobs ++ [⟨store.nextJob, jobName cron, schedule, command⟩]
        nextJob := store.nextJob + 1 }, store.nextJob)

/-- `cron.unschedule`, which knows no other jobs than those that exist. -/
def unschedulePgCron (store : Store) (job : Nat) : Outcome Store :=
  if store.jobs.any (fun held => decide (held.jobId = job)) then
    .ok { store with jobs := store.jobs.filter fun held => decide (held.jobId ≠ job) }
  else .error .database

def unscheduleHeld (store : Store) : Option Nat → Outcome Store
  | some job => unschedulePgCron store job
  | none => .ok store

/-! ## Transactions -/

structure CreateCron where
  name : Text
  schedule : Text
  timezone : Option Text
  payload : Json
  overlapPolicy : Text
  createdBy : Option Uuid

def answers (answered : Bool) : Outcome Unit := if answered then .ok () else .error .database

/-- The row of a schedule, by its id and application. -/
def Store.row? (store : Store) (appId : Text) (cron : Uuid) : Option CronSchedule :=
  store.rows.find? fun row => decide (row.id = cron ∧ row.appId = appId)

def Store.setRow (store : Store) (cron : Uuid) (change : CronSchedule → CronSchedule) : Store :=
  { store with rows := store.rows.map fun row => if row.id = cron then change row else row }

/-- The `INSERT` fails on a missing application, a known id or a name the application has. -/
def Store.mayInsert (store : Store) (appId name : Text) (cron : Uuid) : Bool :=
  decide (appId ∈ store.apps) &&
    store.rows.all fun row => decide (row.id ≠ cron ∧ (row.appId, row.name) ≠ (appId, name))

/-- `crons::create`; `cron` is the id it draws. -/
def create (store : Store) (appId : Text) (c : CreateCron) (cron : Uuid) (answered : Bool) : Outcome Store := do
  requirePgCron store
  validateName c.name
  validateSchedule c.schedule
  validateOverlap c.overlapPolicy
  answers answered
  if !store.mayInsert appId c.name cron then .error .database
  else
    let row : CronSchedule :=
      ⟨cron, appId, c.name, c.schedule, c.timezone, c.payload, c.overlapPolicy, true, none, c.createdBy⟩
    let (scheduled, job) ← schedulePgCron accepts { store with rows := store.rows ++ [row] } cron appId c.schedule
      c.payload (decide (c.overlapPolicy = skip))
    .ok (scheduled.setRow cron fun row => { row with pgJobId := some job })

def validateGiven (validate : Text → Outcome Unit) : Option Text → Outcome Unit
  | some given => validate given
  | none => .ok ()

def scheduleIf (enabled : Bool) (store : Store) (cron : Uuid) (appId schedule : Text) (payload : Json)
    (skipOver : Bool) : Outcome (Store × Option Nat) :=
  if enabled then (schedulePgCron accepts store cron appId schedule payload skipOver).map fun (scheduled, job) =>
    (scheduled, some job)
  else .ok (store, none)

/-- `crons::update` -/
def update (store : Store) (appId : Text) (cron : Uuid) (schedule : Option Text) (payload : Option Json)
    (overlap : Option Text) (enabled : Option Bool) (answered : Bool) : Outcome Store := do
  requirePgCron store
  validateGiven validateSchedule schedule
  validateGiven validateOverlap overlap
  answers answered
  match store.row? appId cron with
  | none => .error (.notFound ("cron '" ++ cron ++ "' not found"))
  | some current =>
    let newSchedule := schedule.getD current.schedule
    let newPayload := payload.getD current.payload
    let newOverlap := overlap.getD current.overlapPolicy
    let newEnabled := enabled.getD current.enabled
    let idle ← unscheduleHeld store current.pgJobId
    let (scheduled, job) ← scheduleIf accepts newEnabled idle cron appId newSchedule newPayload
      (decide (newOverlap = skip))
    .ok (scheduled.setRow cron fun row => { row with
      schedule := newSchedule, payload := newPayload, overlapPolicy := newOverlap, enabled := newEnabled, pgJobId := job })

/-- `crons::delete` -/
def delete (store : Store) (appId : Text) (cron : Uuid) (answered : Bool) : Outcome Store := do
  requirePgCron store
  answers answered
  match store.row? appId cron with
  | none => .error (.notFound ("cron '" ++ cron ++ "' not found"))
  | some row =>
    let idle ← unscheduleHeld store row.pgJobId
    .ok { idle with rows := idle.rows.filter fun row => decide (¬ (row.id = cron ∧ row.appId = appId)) }

/-- `crons::delete_all_for_app`, which does nothing without `pg_cron`. -/
def deleteAllForApp (store : Store) (appId : Text) (answered : Bool) : Outcome Store :=
  if !store.available then .ok store
  else do
    answers answered
    let held := (store.rows.filter fun row => decide (row.appId = appId)).map (·.pgJobId)
    let idle ← held.foldlM unscheduleHeld store
    .ok { idle with rows := idle.rows.filter fun row => decide (row.appId ≠ appId) }

/-- `DELETE FROM rootcx_system.apps`, with the cascade to the schedules. -/
def dropApp (store : Store) (appId : Text) : Store :=
  { store with
    apps := store.apps.filter fun app => decide (app ≠ appId)
    rows := store.rows.filter fun row => decide (row.appId ≠ appId) }

/-! ## The synchronisation with a manifest -/

structure CronDefinition where
  name : Text
  schedule : Text
  timezone : Option Text
  method : Option Text
  payload : Option Json
  overlapPolicy : Text

/-- A definition with what its transaction meets: the id drawn when the schedule is new,
    and whether the database answers. -/
structure Declared extends CronDefinition where
  fresh : Uuid
  answered : Bool

/-- The payload of a definition; the method goes into an object. -/
def CronDefinition.payloadFor (definition : CronDefinition) : Outcome Json :=
  match definition.method, definition.payload.getD (.obj []) with
  | some method, .obj entries => .ok (.obj (Json.insert "method" (.str method) entries))
  | some _, _ => .error (.cron ("cron '" ++ definition.name ++ "': payload must be a JSON object"))
  | none, payload => .ok payload

/-- A transaction of the synchronisation: a failed one ends it and leaves the stores. -/
def attempt (store : Store) (result : Outcome Store) (next : Store → Store × Outcome Unit) : Store × Outcome Unit :=
  match result with
  | .ok changed => next changed
  | .error error => (store, .error error)

def deleteStale (appId : Text) (answered : CronSchedule → Bool) (rest : Store → Store × Outcome Unit) :
    List CronSchedule → Store → Store × Outcome Unit
  | [], store => rest store
  | row :: rows, store => attempt store (delete store appId row.id (answered row)) (deleteStale appId answered rest rows)

/-- The transaction for one definition. -/
def applyDefinition (appId : Text) (createdBy : Option Uuid) (existing : List CronSchedule) (declared : Declared)
    (store : Store) : Outcome Store := do
  let payload ← declared.payloadFor
  match existing.find? fun row => decide (row.name = declared.name) with
  | some row =>
    update accepts store appId row.id (some declared.schedule) (some payload) (some declared.overlapPolicy) (some true)
      declared.answered
  | none =>
    create accepts store appId
      ⟨declared.name, declared.schedule, declared.timezone, payload, declared.overlapPolicy, createdBy⟩
      declared.fresh declared.answered

def applyAll (appId : Text) (createdBy : Option Uuid) (existing : List CronSchedule) :
    List Declared → Store → Store × Outcome Unit
  | [], store => (store, .ok ())
  | declared :: rest, store =>
    attempt store (applyDefinition accepts appId createdBy existing declared store) (applyAll appId createdBy existing rest)

/-- `crons::sync_from_manifest` -/
def syncFromManifest (store : Store) (appId : Text) (defs : List Declared) (createdBy : Option Uuid)
    (listed : Bool) (answered : CronSchedule → Bool) : Store × Outcome Unit :=
  if !store.available then (store, .ok ())
  else if !listed then (store, .error .database)
  else
    let existing := store.rows.filter fun row => decide (row.appId = appId)
    let stale := existing.filter fun row => decide (row.name ∉ defs.map (·.name))
    deleteStale appId answered (applyAll accepts appId createdBy existing defs) stale store

end Transactions

/-! ## Runs -/

inductive Action where
  | register (appId : Text)
  | create (appId : Text) (c : CreateCron) (cron : Uuid) (answered : Bool)
  | update (appId : Text) (cron : Uuid) (schedule : Option Text) (payload : Option Json) (overlap : Option Text)
      (enabled : Option Bool) (answered : Bool)
  | delete (appId : Text) (cron : Uuid) (answered : Bool)
  | deleteAllForApp (appId : Text) (answered : Bool)
  | sync (appId : Text) (defs : List Declared) (createdBy : Option Uuid) (listed : Bool)
      (answered : CronSchedule → Bool)
  /-- The last statement of `uninstall_app`, some time after `delete_all_for_app`. -/
  | uninstalled (appId : Text)
  /-- The transaction of `delete_workflow`, on the application of the workflow. -/
  | deleteWorkflow (appId : Text)

/-- A transaction that fails is rolled back. -/
def Store.settle (store : Store) (result : Outcome Store) : Store :=
  match result with
  | .ok changed => changed
  | .error _ => store

def step (accepts : Text → Bool) (store : Store) : Action → Option Store
  | .register appId => some { store with apps := appId :: store.apps }
  | .create appId c cron answered => some (store.settle (create accepts store appId c cron answered))
  | .update appId cron schedule payload overlap enabled answered =>
    some (store.settle (update accepts store appId cron schedule payload overlap enabled answered))
  | .delete appId cron answered => some (store.settle (delete store appId cron answered))
  | .deleteAllForApp appId answered => some (store.settle (deleteAllForApp store appId answered))
  | .sync appId defs createdBy listed answered =>
    some (syncFromManifest accepts store appId defs createdBy listed answered).1
  | .uninstalled appId => some (dropApp store appId)
  | .deleteWorkflow appId => some (dropApp store appId)

end RootCx.Crons
