import RootCx.Crons.Schedules
import RootCx.Lib.Except

/-! # The rows and the jobs of the schedules

Both stores of `crons.rs` say the same after every history in which no application goes
while it has an enabled schedule.  All transactions are exchanges of some rows for at most
one new row, together with their jobs, so the invariant is proved once for an exchange.
-/

namespace RootCx.Crons

open List

variable {accepts : Text → Bool} {store changed : Store}

/-! ## What the two stores say -/

/-- The jobs that are named for schedules of the Core. -/
def PgJob.isCore (job : PgJob) : Bool := "rootcx-".toList.isPrefixOf job.jobName

/-- Name, schedule and command of a job. -/
def PgJob.entry (job : PgJob) : Text × Text × Text := (job.jobName, job.schedule, job.command)

/-- Name, schedule and command of the job that a row asks for. -/
def CronSchedule.entry (row : CronSchedule) : Text × Text × Text :=
  (jobName row.id, row.schedule, cronCommand row.id row.appId row.payload (decide (row.overlapPolicy = skip)))

/-- The jobs of the Core are, one by one, those of the enabled rows. -/
def Mirrored (store : Store) : Prop :=
  ((store.jobs.filter PgJob.isCore).map PgJob.entry).Perm
    ((store.rows.filter CronSchedule.enabled).map CronSchedule.entry)

structure Paired (store : Store) : Prop where
  rowIds : (store.rows.map CronSchedule.id).Nodup
  names : (store.rows.map fun row => (row.appId, row.name)).Nodup
  jobIds : (store.jobs.map PgJob.jobId).Nodup
  issued : ∀ job ∈ store.jobs, job.jobId < store.nextJob
  scheduled : ∀ row ∈ store.rows, row.enabled = true →
    ∃ job ∈ store.jobs, row.pgJobId = some job.jobId ∧ job.entry = row.entry
  idle : ∀ row ∈ store.rows, row.enabled = false → row.pgJobId = none
  owned : ∀ job ∈ store.jobs, job.isCore = true →
    ∃ row ∈ store.rows, row.enabled = true ∧ row.pgJobId = some job.jobId ∧ job.entry = row.entry

theorem jobName_inj {first second : Uuid} (same : jobName first = jobName second) : first = second :=
  append_cancel_left same

variable {job : PgJob} {cron : Uuid} {appId : Text} {payload : Json} {answered : Bool} {declared : Declared}

theorem isCore_of_jobName (named : job.jobName = jobName cron) : job.isCore = true := by
  rw [PgJob.isCore, named, isPrefixOf_iff_prefix]
  exact prefix_append _ _

theorem jobName_of_entry {row : CronSchedule} (same : job.entry = row.entry) :
    job.jobName = jobName row.id := congrArg Prod.fst same

namespace Paired

theorem row_unique (paired : Paired store) {first second : CronSchedule} (one : first ∈ store.rows)
    (two : second ∈ store.rows) (same : first.id = second.id) : first = second :=
  inj_on_of_nodup_map paired.rowIds one two same

theorem job_unique (paired : Paired store) {first second : PgJob} (one : first ∈ store.jobs)
    (two : second ∈ store.jobs) (same : first.jobId = second.jobId) : first = second :=
  inj_on_of_nodup_map paired.jobIds one two same

theorem named (paired : Paired store) (mem : job ∈ store.jobs) (name : job.jobName = jobName cron) :
    ∃ row ∈ store.rows, row.id = cron ∧ row.enabled = true ∧ row.pgJobId = some job.jobId := by
  obtain ⟨row, held, enabled, keeps, same⟩ := paired.owned job mem (isCore_of_jobName name)
  refine ⟨row, held, ?_, enabled, keeps⟩
  exact jobName_inj ((jobName_of_entry same).symm.trans name)

theorem row_of_job (paired : Paired store) {first second : CronSchedule} {job : Nat} (one : first ∈ store.rows)
    (two : second ∈ store.rows) (holds : first.pgJobId = some job) (keeps : second.pgJobId = some job) :
    first = second := by
  have enabled {row : CronSchedule} (mem : row ∈ store.rows) (held : row.pgJobId = some job) :
      row.enabled = true := by
    cases on : row.enabled with
    | true => rfl
    | false => simp [paired.idle row mem on] at held
  obtain ⟨left, leftMember, leftHeld, leftEntry⟩ := paired.scheduled first one (enabled one holds)
  obtain ⟨right, rightMember, rightHeld, rightEntry⟩ := paired.scheduled second two (enabled two keeps)
  have ids : left.jobId = right.jobId := by
    rw [holds] at leftHeld
    rw [keeps] at rightHeld
    exact (Option.some.inj leftHeld).symm.trans (Option.some.inj rightHeld)
  obtain rfl := paired.job_unique leftMember rightMember ids
  apply paired.row_unique one two
  exact jobName_inj ((jobName_of_entry leftEntry).symm.trans (jobName_of_entry rightEntry))

theorem mirrored (paired : Paired store) : Mirrored store := by
  have jobs : ((store.jobs.filter PgJob.isCore).map PgJob.entry).Nodup := by
    apply List.Nodup.map_on _ (paired.jobIds.of_map.filter _)
    intro first one second two same
    obtain ⟨one, core⟩ := mem_filter.mp one
    obtain ⟨two, core'⟩ := mem_filter.mp two
    obtain ⟨row, mem, -, holds, entry⟩ := paired.owned first one core
    obtain ⟨row', mem', -, keeps, entry'⟩ := paired.owned second two core'
    have ids : jobName row.id = jobName row'.id := congrArg Prod.fst (entry.symm.trans (same.trans entry'))
    obtain rfl := paired.row_unique mem mem' (jobName_inj ids)
    apply paired.job_unique one two
    rw [holds] at keeps
    exact Option.some.inj keeps
  have rows : ((store.rows.filter CronSchedule.enabled).map CronSchedule.entry).Nodup := by
    apply List.Nodup.map_on _ (paired.rowIds.of_map.filter _)
    intro first one second two same
    apply paired.row_unique (mem_filter.mp one).1 (mem_filter.mp two).1
    exact jobName_inj (congrArg Prod.fst same)
  apply (perm_ext_iff_of_nodup jobs rows).mpr
  intro entry
  simp only [mem_map, mem_filter]
  constructor
  · rintro ⟨job, ⟨mem, core⟩, rfl⟩
    obtain ⟨row, held, enabled, -, same⟩ := paired.owned job mem core
    exact ⟨row, ⟨held, enabled⟩, same.symm⟩
  · rintro ⟨row, ⟨mem, enabled⟩, rfl⟩
    obtain ⟨job, held, -, same⟩ := paired.scheduled row mem enabled
    exact ⟨job, ⟨held, isCore_of_jobName (jobName_of_entry same)⟩, same⟩

/-! ## Exchanges -/

/-- The job of a new row. -/
def jobOf (row : CronSchedule) (job : Nat) : PgJob :=
  ⟨job, row.entry.1, row.entry.2.1, row.entry.2.2⟩

/-- Some rows go with their jobs, and at most one comes with its own. -/
structure Exchange (store changed : Store) (gone : CronSchedule → Prop) (added : Option CronSchedule) : Prop where
  rows : ∀ row, row ∈ changed.rows ↔ row ∈ store.rows ∧ ¬ gone row ∨ added = some row
  jobs : ∀ job, job ∈ changed.jobs ↔
    job ∈ store.jobs ∧ ¬ (∃ row ∈ store.rows, gone row ∧ row.pgJobId = some job.jobId) ∨
      ∃ row, added = some row ∧ row.enabled = true ∧ job = jobOf row store.nextJob
  keeps : ∀ row, added = some row → row.pgJobId = if row.enabled then some store.nextJob else none
  rowIds : (changed.rows.map CronSchedule.id).Nodup
  names : (changed.rows.map fun row => (row.appId, row.name)).Nodup
  jobIds : (changed.jobs.map PgJob.jobId).Nodup
  issued : ∀ job ∈ changed.jobs, job.jobId < changed.nextJob

theorem exchange {gone : CronSchedule → Prop} {added : Option CronSchedule} (paired : Paired store)
    (exchanged : Exchange store changed gone added) : Paired changed where
  rowIds := exchanged.rowIds
  names := exchanged.names
  jobIds := exchanged.jobIds
  issued := exchanged.issued
  scheduled row mem enabled := by
    rcases (exchanged.rows row).mp mem with ⟨held, stays⟩ | new
    · obtain ⟨job, kept, holds, same⟩ := paired.scheduled row held enabled
      refine ⟨job, (exchanged.jobs job).mpr (.inl ⟨kept, ?_⟩), holds, same⟩
      rintro ⟨other, otherHeld, leaves, keeps⟩
      obtain rfl := paired.row_of_job held otherHeld holds keeps
      exact stays leaves
    · refine ⟨jobOf row store.nextJob, (exchanged.jobs _).mpr (.inr ⟨row, new, enabled, rfl⟩), ?_, rfl⟩
      rw [exchanged.keeps row new, if_pos enabled]
      rfl
  idle row mem disabled := by
    rcases (exchanged.rows row).mp mem with ⟨held, -⟩ | new
    · exact paired.idle row held disabled
    · rw [exchanged.keeps row new, disabled]
      rfl
  owned job mem core := by
    rcases (exchanged.jobs job).mp mem with ⟨kept, stays⟩ | ⟨row, new, enabled, rfl⟩
    · obtain ⟨row, held, enabled, holds, same⟩ := paired.owned job kept core
      refine ⟨row, (exchanged.rows row).mpr (.inl ⟨held, fun leaves => ?_⟩), enabled, holds, same⟩
      exact stays ⟨row, held, leaves, holds⟩
    · refine ⟨row, (exchanged.rows row).mpr (.inr new), enabled, ?_, rfl⟩
      rw [exchanged.keeps row new, if_pos enabled]
      rfl

end Paired

/-! ## The transactions -/

/-- Without a job of that name, `cron.schedule` adds one. -/
theorem schedulePgCron_ok {schedule : Text} {skipOver : Bool} {job : Nat}
    (unnamed : ∀ held ∈ store.jobs, held.jobName ≠ jobName cron)
    (ran : schedulePgCron accepts store cron appId schedule payload skipOver = .ok (changed, job)) :
    job = store.nextJob ∧ changed = { store with
      jobs := store.jobs ++ [⟨store.nextJob, jobName cron, schedule, cronCommand cron appId payload skipOver⟩]
      nextJob := store.nextJob + 1 } := by
  have absent : store.jobs.find? (fun held => decide (held.jobName = jobName cron)) = none := by
    apply find?_eq_none.mpr
    intro held mem
    simpa using unnamed held mem
  unfold schedulePgCron at ran
  cases able : accepts schedule with
  | false => simp [able] at ran
  | true =>
    simp only [able, Bool.not_true, Bool.false_eq_true, ↓reduceIte, absent, Except.ok.injEq, Prod.mk.injEq] at ran
    exact ⟨ran.2.symm, ran.1.symm⟩

theorem scheduleIf_ok {enabled : Bool} {schedule : Text} {skipOver : Bool} {job : Option Nat}
    (on : enabled = true)
    (ran : scheduleIf accepts enabled store cron appId schedule payload skipOver = .ok (changed, job)) :
    ∃ next, job = some next ∧ schedulePgCron accepts store cron appId schedule payload skipOver = .ok (changed, next) := by
  rw [scheduleIf, if_pos on] at ran
  cases scheduled : schedulePgCron accepts store cron appId schedule payload skipOver with
  | error error => simp [scheduled, Except.map] at ran
  | ok result =>
    simp only [scheduled, Except.map, Except.ok.injEq, Prod.mk.injEq] at ran
    exact ⟨result.2, ran.2.symm, by rw [← ran.1]⟩

/-- The jobs without the one a row holds. -/
def Store.without (store : Store) (held : Option Nat) : Store :=
  { store with jobs := store.jobs.filter fun job => decide (held ≠ some job.jobId) }

theorem unscheduleHeld_ok {held : Option Nat} (ran : unscheduleHeld store held = .ok changed) :
    changed = store.without held := by
  cases held with
  | none =>
    cases ran
    simp [Store.without]
  | some job =>
    simp only [unscheduleHeld, unschedulePgCron] at ran
    split at ran
    · cases ran
      simp only [Store.without, ne_eq, Option.some.injEq, eq_comm]
    · cases ran

theorem row?_eq_some {row : CronSchedule} (found : store.row? appId cron = some row) :
    row ∈ store.rows ∧ row.id = cron ∧ row.appId = appId := by
  have holds := find?_some found
  simp only [decide_eq_true_eq] at holds
  exact ⟨mem_of_find?_eq_some found, holds⟩

theorem jobIds_snoc {jobs : List PgJob} {job : PgJob} {bound : Nat} (distinct : (jobs.map PgJob.jobId).Nodup)
    (below : ∀ held ∈ jobs, held.jobId < bound) (next : job.jobId = bound) :
    ((jobs ++ [job]).map PgJob.jobId).Nodup ∧ ∀ held ∈ jobs ++ [job], held.jobId < bound + 1 := by
  constructor
  · rw [map_append, map_singleton, ← concat_eq_append]
    apply distinct.concat
    intro mem
    obtain ⟨held, inside, same⟩ := mem_map.mp mem
    have := below held inside
    omega
  · intro held mem
    rcases mem_append.mp mem with old | new
    · have := below held old
      omega
    · obtain rfl := mem_singleton.mp new
      omega

theorem map_unchanged {rows : List CronSchedule} {change : CronSchedule → CronSchedule}
    (absent : ∀ row ∈ rows, row.id ≠ cron) :
    rows.map (fun row => if row.id = cron then change row else row) = rows := by
  have same : rows.map (fun row => if row.id = cron then change row else row) = rows.map id := by
    apply map_congr_left
    intro row mem
    simp [absent row mem]
  rw [same, map_id]

/-- The row that `create` leaves. -/
def createdRow (store : Store) (appId : Text) (c : CreateCron) (cron : Uuid) : CronSchedule :=
  ⟨cron, appId, c.name, c.schedule, c.timezone, c.payload, c.overlapPolicy, true, some store.nextJob, c.createdBy⟩

theorem create_ok {c : CreateCron} (paired : Paired store)
    (ran : create accepts store appId c cron answered = .ok changed) :
    (∀ row ∈ store.rows, row.id ≠ cron ∧ (row.appId, row.name) ≠ (appId, c.name)) ∧
      changed = { store with
        rows := store.rows ++ [createdRow store appId c cron]
        jobs := store.jobs ++ [Paired.jobOf (createdRow store appId c cron) store.nextJob]
        nextJob := store.nextJob + 1 } := by
  simp only [create, bind_eq_ok] at ran
  obtain ⟨-, -, -, -, -, -, -, -, -, -, ran⟩ := ran
  split at ran
  · cases ran
  · next insertable =>
    obtain ⟨⟨scheduled, job⟩, added, done⟩ := bind_eq_ok.mp ran
    simp only [Bool.not_eq_true', Bool.not_eq_false, Store.mayInsert, Bool.and_eq_true, all_eq_true,
      decide_eq_true_eq] at insertable
    obtain ⟨-, fresh⟩ := insertable
    obtain ⟨rfl, rfl⟩ := schedulePgCron_ok (fun held mem named => by
      obtain ⟨row, inside, same, -⟩ := paired.named mem named
      exact (fresh row inside).1 same) added
    cases done
    refine ⟨fresh, ?_⟩
    -- only the new row gets the job
    simp only [Store.setRow, map_append, map_unchanged fun row mem => (fresh row mem).1, map_cons,
      map_nil, ↓reduceIte]
    rfl

theorem Paired.create {c : CreateCron} (paired : Paired store)
    (ran : create accepts store appId c cron answered = .ok changed) : Paired changed := by
  obtain ⟨fresh, made⟩ := create_ok paired ran
  obtain ⟨jobIds, issued⟩ := @jobIds_snoc _ (jobOf (createdRow store appId c cron) store.nextJob) _
    paired.jobIds paired.issued rfl
  have exchanged : Exchange store changed (fun _ => False) (some (createdRow store appId c cron)) := by
    subst made
    refine ⟨?_, ?_, ?_, ?_, ?_, jobIds, issued⟩
    · intro row
      simp [eq_comm]
    · intro job
      simp [createdRow]
    · intro row new
      cases new
      rfl
    · rw [map_append, map_singleton, ← concat_eq_append]
      apply paired.rowIds.concat
      intro mem
      obtain ⟨row, inside, same⟩ := mem_map.mp mem
      exact (fresh row inside).1 same
    · rw [map_append, map_singleton, ← concat_eq_append]
      apply paired.names.concat
      intro mem
      obtain ⟨row, inside, same⟩ := mem_map.mp mem
      exact (fresh row inside).2 same
  exact paired.exchange exchanged

/-- The row that `update` leaves. -/
def updatedRow (store : Store) (current : CronSchedule) (schedule : Option Text) (payload : Option Json)
    (overlap : Option Text) (enabled : Option Bool) : CronSchedule :=
  { current with
    schedule := schedule.getD current.schedule
    payload := payload.getD current.payload
    overlapPolicy := overlap.getD current.overlapPolicy
    enabled := enabled.getD current.enabled
    pgJobId := if enabled.getD current.enabled then some store.nextJob else none }

theorem Paired.unnamed (paired : Paired store) {current : CronSchedule} (mem : current ∈ store.rows) :
    ∀ job ∈ (store.without current.pgJobId).jobs, job.jobName ≠ jobName current.id := by
  intro job held named
  obtain ⟨held, other⟩ := mem_filter.mp held
  obtain ⟨row, inside, same, -, keeps⟩ := paired.named held named
  obtain rfl := paired.row_unique inside mem same
  simp [keeps] at other

section Update

variable {appId : Text} {cron : Uuid} {schedule overlap : Option Text} {payload : Option Json} {enabled : Option Bool}
variable {answered : Bool}

theorem update_ok (paired : Paired store)
    (ran : update accepts store appId cron schedule payload overlap enabled answered = .ok changed) :
    ∃ current, store.row? appId cron = some current ∧
      changed.rows = store.rows.map (fun row =>
        if row.id = cron then updatedRow store current schedule payload overlap enabled else row) ∧
      (changed.jobs, changed.nextJob) =
        if enabled.getD current.enabled then
          ((store.without current.pgJobId).jobs ++
            [Paired.jobOf (updatedRow store current schedule payload overlap enabled) store.nextJob], store.nextJob + 1)
        else ((store.without current.pgJobId).jobs, store.nextJob) := by
  simp only [update, bind_eq_ok] at ran
  obtain ⟨-, -, -, -, -, -, -, -, ran⟩ := ran
  cases found : store.row? appId cron with
  | none => rw [found] at ran; cases ran
  | some current =>
    obtain ⟨mem, same, app⟩ := row?_eq_some found
    simp only [found, bind_eq_ok] at ran
    obtain ⟨idle, gone, ⟨scheduled, job⟩, added, done⟩ := ran
    obtain rfl := unscheduleHeld_ok gone
    cases done
    have only (inside : CronSchedule) (here : inside ∈ store.rows) (found : inside.id = cron) : inside = current :=
      paired.row_unique here mem (found.trans same.symm)
    refine ⟨current, rfl, ?_⟩
    cases on : enabled.getD current.enabled with
    | false =>
      simp only [scheduleIf, on, Bool.false_eq_true, ↓reduceIte, Except.ok.injEq, Prod.mk.injEq] at added
      obtain ⟨rfl, rfl⟩ := added
      refine ⟨?_, rfl⟩
      apply map_congr_left
      intro row inside
      split
      · next here =>
        rw [only row inside here]
        simp [updatedRow, on]
      · rfl
    | true =>
      obtain ⟨next, rfl, made⟩ := scheduleIf_ok on added
      have unnamed := paired.unnamed mem
      rw [same] at unnamed
      obtain ⟨rfl, rfl⟩ := schedulePgCron_ok unnamed made
      constructor
      · apply map_congr_left
        intro row inside
        split
        · next here =>
          rw [only row inside here]
          simp [updatedRow, on, Store.without]
        · rfl
      · subst same app
        rfl

theorem Paired.update (paired : Paired store)
    (ran : update accepts store appId cron schedule payload overlap enabled answered = .ok changed) :
    Paired changed := by
  obtain ⟨current, found, rows, jobs⟩ := update_ok paired ran
  obtain ⟨mem, same, app⟩ := row?_eq_some found
  have kept : ((store.without current.pgJobId).jobs.map PgJob.jobId).Nodup :=
    paired.jobIds.sublist (filter_sublist.map _)
  have below : ∀ job ∈ (store.without current.pgJobId).jobs, job.jobId < store.nextJob :=
    fun job held => paired.issued job (mem_filter.mp held).1
  -- the jobs that stay are those no row with this id holds
  have stays (job : PgJob) : job ∈ (store.without current.pgJobId).jobs ↔ job ∈ store.jobs ∧
      ¬ ∃ row ∈ store.rows, row.id = cron ∧ row.pgJobId = some job.jobId := by
    simp only [Store.without, mem_filter, decide_eq_true_eq]
    refine and_congr_right fun _ => not_congr ?_
    constructor
    · intro holds
      exact ⟨current, mem, same, holds⟩
    · rintro ⟨row, inside, here, holds⟩
      rw [← paired.row_unique inside mem (here.trans same.symm)]
      exact holds
  have exchanged : Exchange store changed (fun row => row.id = cron)
      (some (updatedRow store current schedule payload overlap enabled)) := by
    refine ⟨?_, ?_, ?_, ?_, ?_, ?_, ?_⟩
    · intro row
      rw [rows, mem_map]
      constructor
      · rintro ⟨old, inside, rfl⟩
        split
        · exact .inr rfl
        · next other => exact .inl ⟨inside, other⟩
      · rintro (⟨inside, other⟩ | new)
        · exact ⟨row, inside, if_neg other⟩
        · exact ⟨current, mem, by rw [if_pos same]; exact Option.some.inj new⟩
    · intro job
      rw [← stays]
      split at jobs
      · next on =>
        obtain ⟨jobs, -⟩ := Prod.mk.inj jobs
        simp [jobs, updatedRow, on]
      · next off =>
        obtain ⟨jobs, -⟩ := Prod.mk.inj jobs
        simp [jobs, updatedRow, off]
    · intro row new
      cases new
      rfl
    · rw [rows, map_map]
      have ids : store.rows.map (CronSchedule.id ∘ fun row =>
          if row.id = cron then updatedRow store current schedule payload overlap enabled else row) =
          store.rows.map CronSchedule.id := by
        apply map_congr_left
        intro row inside
        simp only [Function.comp_apply]
        split
        · next here => exact same.trans here.symm
        · rfl
      rw [ids]
      exact paired.rowIds
    · rw [rows, map_map]
      have names : store.rows.map ((fun row => (row.appId, row.name)) ∘ fun row =>
          if row.id = cron then updatedRow store current schedule payload overlap enabled else row) =
          store.rows.map fun row => (row.appId, row.name) := by
        apply map_congr_left
        intro row inside
        simp only [Function.comp_apply]
        split
        · next here =>
          rw [paired.row_unique inside mem (here.trans same.symm)]
          rfl
        · rfl
      rw [names]
      exact paired.names
    · split at jobs
      · rw [(Prod.mk.inj jobs).1]
        exact (jobIds_snoc kept below rfl).1
      · rw [(Prod.mk.inj jobs).1]
        exact kept
    · split at jobs
      · rw [(Prod.mk.inj jobs).1, (Prod.mk.inj jobs).2]
        exact (jobIds_snoc kept below rfl).2
      · rw [(Prod.mk.inj jobs).1, (Prod.mk.inj jobs).2]
        exact below
  exact paired.exchange exchanged

end Update

theorem Paired.remove {gone : CronSchedule → Prop} (paired : Paired store)
    (rows : ∀ row, row ∈ changed.rows ↔ row ∈ store.rows ∧ ¬ gone row) (fewerRows : changed.rows.Sublist store.rows)
    (jobs : ∀ job, job ∈ changed.jobs ↔
      job ∈ store.jobs ∧ ¬ ∃ row ∈ store.rows, gone row ∧ row.pgJobId = some job.jobId)
    (fewerJobs : changed.jobs.Sublist store.jobs) (next : changed.nextJob = store.nextJob) : Paired changed := by
  have exchanged : Exchange store changed gone none := by
    refine ⟨?_, ?_, ?_, ?_, ?_, ?_, ?_⟩
    · intro row
      simp [rows]
    · intro job
      simp [jobs]
    · intro row new
      cases new
    · exact paired.rowIds.sublist (fewerRows.map _)
    · exact paired.names.sublist (fewerRows.map _)
    · exact paired.jobIds.sublist (fewerJobs.map _)
    · intro job held
      rw [next]
      exact paired.issued job (fewerJobs.subset held)
  exact paired.exchange exchanged

theorem delete_ok (ran : delete store appId cron answered = .ok changed) :
    ∃ row, store.row? appId cron = some row ∧ changed = { store.without row.pgJobId with
      rows := store.rows.filter fun row => decide (¬ (row.id = cron ∧ row.appId = appId)) } := by
  simp only [delete, bind_eq_ok] at ran
  obtain ⟨-, -, -, -, ran⟩ := ran
  cases found : store.row? appId cron with
  | none => rw [found] at ran; cases ran
  | some row =>
    rw [found] at ran
    obtain ⟨idle, gone, done⟩ := bind_eq_ok.mp ran
    obtain rfl := unscheduleHeld_ok gone
    exact ⟨row, rfl, (Except.ok.inj done).symm⟩

theorem Paired.mem_without (paired : Paired store) {current : CronSchedule} (mem : current ∈ store.rows)
    {gone : CronSchedule → Prop} (leaves : ∀ row ∈ store.rows, gone row ↔ row = current) (job : PgJob) :
    job ∈ (store.without current.pgJobId).jobs ↔
      job ∈ store.jobs ∧ ¬ ∃ row ∈ store.rows, gone row ∧ row.pgJobId = some job.jobId := by
  simp only [Store.without, mem_filter, decide_eq_true_eq]
  refine and_congr_right fun _ => not_congr ?_
  constructor
  · intro holds
    exact ⟨current, mem, (leaves current mem).mpr rfl, holds⟩
  · rintro ⟨row, inside, here, holds⟩
    rw [← (leaves row inside).mp here]
    exact holds

theorem Paired.delete (paired : Paired store) (ran : delete store appId cron answered = .ok changed) :
    Paired changed := by
  obtain ⟨current, found, rfl⟩ := delete_ok ran
  obtain ⟨mem, same, app⟩ := row?_eq_some found
  have leaves : ∀ row ∈ store.rows, (row.id = cron ∧ row.appId = appId) ↔ row = current := by
    intro row inside
    constructor
    · intro here
      exact paired.row_unique inside mem (here.1.trans same.symm)
    · rintro rfl
      exact ⟨same, app⟩
  refine paired.remove ?_ filter_sublist (paired.mem_without mem leaves) filter_sublist rfl
  intro row
  rw [mem_filter, decide_eq_true_eq]

theorem unscheduleAll_ok {held : List (Option Nat)} (ran : held.foldlM unscheduleHeld store = .ok changed) :
    changed = { store with jobs := store.jobs.filter fun job => decide (some job.jobId ∉ held) } := by
  induction held generalizing store with
  | nil =>
    obtain rfl := pure_eq_ok.mp ran
    simp
  | cons first rest ih =>
    rw [foldlM_cons] at ran
    obtain ⟨middle, gone, ran⟩ := bind_eq_ok.mp ran
    obtain rfl := unscheduleHeld_ok gone
    rw [ih ran]
    simp only [Store.without, filter_filter, mem_cons, not_or, Bool.decide_and, ne_eq, eq_comm]
    simp only [Bool.and_comm]

theorem Paired.deleteAllForApp (paired : Paired store)
    (ran : deleteAllForApp store appId answered = .ok changed) : Paired changed := by
  unfold Crons.deleteAllForApp at ran
  split at ran
  · cases ran
    exact paired
  · obtain ⟨-, -, ran⟩ := bind_eq_ok.mp ran
    obtain ⟨idle, gone, done⟩ := bind_eq_ok.mp ran
    obtain rfl := unscheduleAll_ok gone
    cases done
    have jobs (job : PgJob) : some job.jobId ∈ (store.rows.filter fun row => decide (row.appId = appId)).map (·.pgJobId) ↔
        ∃ row ∈ store.rows, row.appId = appId ∧ row.pgJobId = some job.jobId := by
      simp [and_assoc]
    refine @Paired.remove _ _ (fun row => row.appId = appId) paired ?_ filter_sublist ?_ filter_sublist rfl
    · intro row
      simp
    · intro job
      simp only [mem_filter, decide_eq_true_eq, jobs]

theorem Paired.dropApp (paired : Paired store)
    (disabled : ∀ row ∈ store.rows, row.appId = appId → row.enabled = false) :
    Paired (dropApp store appId) := by
  refine @Paired.remove _ _ (fun row => row.appId = appId) paired ?_ filter_sublist ?_ (List.Sublist.refl _) rfl
  · intro row
    simp [Crons.dropApp]
  · intro job
    show job ∈ store.jobs ↔ _
    rw [and_iff_left]
    rintro ⟨row, mem, own, holds⟩
    simp [paired.idle row mem (disabled row mem own)] at holds

/-! ## The synchronisation -/

section Sync

variable {appId : Text} {createdBy : Option Uuid} {existing : List CronSchedule}

theorem applyDefinition_ok
    (ran : applyDefinition accepts appId createdBy existing declared store = .ok changed) :
    ∃ payload, declared.payloadFor = .ok payload ∧
      ((∃ old ∈ existing, old.name = declared.name ∧
          update accepts store appId old.id (some declared.schedule) (some payload) (some declared.overlapPolicy)
            (some true) declared.answered = .ok changed) ∨
        (∀ old ∈ existing, old.name ≠ declared.name) ∧
          create accepts store appId
            ⟨declared.name, declared.schedule, declared.timezone, payload, declared.overlapPolicy, createdBy⟩
            declared.fresh declared.answered = .ok changed) := by
  obtain ⟨payload, given, ran⟩ := bind_eq_ok.mp ran
  refine ⟨payload, given, ?_⟩
  cases found : existing.find? fun row => decide (row.name = declared.name) with
  | some old =>
    rw [found] at ran
    have named := find?_some found
    exact .inl ⟨old, mem_of_find?_eq_some found, by simpa using named, ran⟩
  | none =>
    rw [found] at ran
    exact .inr ⟨by simpa using found, ran⟩

theorem Paired.applyDefinition (paired : Paired store)
    (ran : applyDefinition accepts appId createdBy existing declared store = .ok changed) :
    Paired changed := by
  obtain ⟨payload, -, ⟨old, -, -, updated⟩ | ⟨-, made⟩⟩ := applyDefinition_ok ran
  · exact paired.update updated
  · exact paired.create made

theorem Paired.attempt {result : Outcome Store} {next : Store → Store × Outcome Unit} (paired : Paired store)
    (first : ∀ changed, result = .ok changed → Paired changed) (rest : ∀ middle, Paired middle → Paired (next middle).1) :
    Paired (attempt store result next).1 := by
  cases result with
  | error error => exact paired
  | ok changed => exact rest changed (first changed rfl)

theorem Paired.applyAll {defs : List Declared} (paired : Paired store) :
    Paired (applyAll accepts appId createdBy existing defs store).1 := by
  induction defs generalizing store with
  | nil => exact paired
  | cons declared rest ih =>
    apply paired.attempt
    · intro changed ran
      exact paired.applyDefinition ran
    · intro middle kept
      exact ih kept

theorem Paired.deleteStale {answered : CronSchedule → Bool} {rest : Store → Store × Outcome Unit}
    {stale : List CronSchedule} (paired : Paired store) (kept : ∀ middle, Paired middle → Paired (rest middle).1) :
    Paired (deleteStale appId answered rest stale store).1 := by
  induction stale generalizing store with
  | nil => exact kept store paired
  | cons row rows ih =>
    apply paired.attempt
    · intro changed ran
      exact paired.delete ran
    · intro middle held
      exact ih held

theorem Paired.sync {defs : List Declared} {listed : Bool} {answered : CronSchedule → Bool} (paired : Paired store) :
    Paired (syncFromManifest accepts store appId defs createdBy listed answered).1 := by
  unfold syncFromManifest
  split
  · exact paired
  · split
    · exact paired
    · exact paired.deleteStale fun middle kept => kept.applyAll

/-- The row is what the definition declares. -/
structure Declares (appId : Text) (definition : CronDefinition) (row : CronSchedule) : Prop where
  app : row.appId = appId
  name : row.name = definition.name
  schedule : row.schedule = definition.schedule
  timezone : row.timezone = definition.timezone
  payload : definition.payloadFor = .ok row.payload
  overlap : row.overlapPolicy = definition.overlapPolicy
  enabled : row.enabled = true

/-- The application has the declared schedules and no others. -/
def Exact (appId : Text) (defs : List Declared) (store : Store) : Prop :=
  (∀ declared ∈ defs, ∃ row ∈ store.rows, Declares appId declared.toCronDefinition row) ∧
    ∀ row ∈ store.rows, row.appId = appId → ∃ declared ∈ defs, Declares appId declared.toCronDefinition row

/-- `pg_cron` is there, a schedule that exists has the declared timezone already, and a
    name that is declared twice is declared alike. -/
structure Settled (appId : Text) (defs : List Declared) (store : Store) : Prop where
  available : store.available = true
  timezones : ∀ declared ∈ defs, ∀ row ∈ store.rows, row.appId = appId → row.name = declared.name →
    row.timezone = declared.timezone
  alike : ∀ first ∈ defs, ∀ second ∈ defs, first.name = second.name →
    first.toCronDefinition = second.toCronDefinition

/-- What the loop over the definitions keeps: the definitions that are through are rows,
    every row of the application is declared, and the rows that were there are, up to what
    an update changes. -/
structure Progress (appId : Text) (defs through : List Declared) (existing : List CronSchedule) (store : Store) :
    Prop where
  rows : ∀ declared ∈ through, ∃ row ∈ store.rows, Declares appId declared.toCronDefinition row
  names : ∀ row ∈ store.rows, row.appId = appId → ∃ declared ∈ defs, row.name = declared.name
  kept : ∀ old ∈ existing, (∃ declared ∈ defs, old.name = declared.name) →
    ∃ row ∈ store.rows, row.id = old.id ∧ row.appId = appId ∧ row.name = old.name ∧ row.timezone = old.timezone

variable {defs through : List Declared} {initial : Store}

theorem Progress.update {old : CronSchedule} (settled : Settled appId defs initial)
    (progress : Progress appId defs through existing store) (paired : Paired store)
    (known : ∀ row ∈ existing, row ∈ initial.rows ∧ row.appId = appId) (mem : declared ∈ defs)
    (before : ∀ other ∈ through, other ∈ defs) (held : old ∈ existing) (named : old.name = declared.name)
    (given : declared.payloadFor = .ok payload)
    (ran : Crons.update accepts store appId old.id (some declared.schedule) (some payload)
      (some declared.overlapPolicy) (some true) declared.answered = .ok changed) :
    Progress appId defs (through ++ [declared]) existing changed := by
  obtain ⟨current, found, rows, -⟩ := update_ok paired ran
  obtain ⟨inside, same, app⟩ := row?_eq_some found
  obtain ⟨row, rowInside, rowId, -, rowName, rowZone⟩ := progress.kept old held ⟨declared, mem, named⟩
  obtain rfl := paired.row_unique rowInside inside (rowId.trans same.symm)
  -- the updated row is what is declared: its timezone is not touched, and was right before
  obtain ⟨new, isNew⟩ : ∃ new, new = updatedRow store row (some declared.schedule) (some payload)
      (some declared.overlapPolicy) (some true) := ⟨_, rfl⟩
  have declares : Declares appId declared.toCronDefinition new := by
    rw [isNew]
    refine ⟨app, rowName.trans named, rfl, ?_, given, rfl, rfl⟩
    exact rowZone.trans (settled.timezones declared mem old (known old held).1 (known old held).2 named)
  rw [← isNew] at rows
  have newInside : new ∈ changed.rows := by
    rw [rows]
    exact mem_map.mpr ⟨row, inside, if_pos same⟩
  have stays {other : CronSchedule} (otherInside : other ∈ store.rows) (different : other.id ≠ old.id) :
      other ∈ changed.rows := by
    rw [rows]
    exact mem_map.mpr ⟨other, otherInside, if_neg different⟩
  refine ⟨?_, ?_, ?_⟩
  · intro other otherMember
    rcases mem_append.mp otherMember with earlier | last
    · obtain ⟨held, heldInside, otherDeclares⟩ := progress.rows other earlier
      by_cases here : held.id = old.id
      · obtain rfl := paired.row_unique heldInside inside (here.trans same.symm)
        have names : other.name = declared.name := by
          rw [← otherDeclares.name, rowName, named]
        rw [settled.alike other (before other earlier) declared mem names]
        exact ⟨new, newInside, declares⟩
      · exact ⟨held, stays heldInside here, otherDeclares⟩
    · obtain rfl := mem_singleton.mp last
      exact ⟨new, newInside, declares⟩
  · intro other otherInside own
    rw [rows] at otherInside
    obtain ⟨held, heldInside, rfl⟩ := mem_map.mp otherInside
    split at own
    · next here =>
      rw [if_pos here]
      exact ⟨declared, mem, declares.name⟩
    · next here =>
      rw [if_neg here]
      exact progress.names held heldInside own
  · intro other otherHeld otherNamed
    obtain ⟨held, heldInside, heldId, heldApp, heldName, heldZone⟩ := progress.kept other otherHeld otherNamed
    by_cases here : held.id = old.id
    · obtain rfl := paired.row_unique heldInside inside (here.trans same.symm)
      refine ⟨new, newInside, ?_⟩
      rw [isNew]
      exact ⟨heldId, heldApp, heldName, heldZone⟩
    · exact ⟨held, stays heldInside here, heldId, heldApp, heldName, heldZone⟩

theorem Progress.create (progress : Progress appId defs through existing store) (paired : Paired store)
    (mem : declared ∈ defs) (given : declared.payloadFor = .ok payload)
    (ran : Crons.create accepts store appId
      ⟨declared.name, declared.schedule, declared.timezone, payload, declared.overlapPolicy, createdBy⟩
      declared.fresh declared.answered = .ok changed) :
    Progress appId defs (through ++ [declared]) existing changed := by
  obtain ⟨-, rfl⟩ := create_ok paired ran
  refine ⟨?_, ?_, ?_⟩
  · intro other otherMember
    rcases mem_append.mp otherMember with earlier | last
    · obtain ⟨row, inside, declares⟩ := progress.rows other earlier
      exact ⟨row, mem_append_left _ inside, declares⟩
    · obtain rfl := mem_singleton.mp last
      exact ⟨_, mem_append_right _ (mem_singleton_self _), rfl, rfl, rfl, rfl, given, rfl, rfl⟩
  · intro row inside own
    rcases mem_append.mp inside with old | new
    · exact progress.names row old own
    · obtain rfl := mem_singleton.mp new
      exact ⟨declared, mem, rfl⟩
  · intro old held named
    obtain ⟨row, inside, facts⟩ := progress.kept old held named
    exact ⟨row, mem_append_left _ inside, facts⟩

theorem Progress.applyAll {rest : List Declared} (settled : Settled appId defs initial)
    (known : ∀ row ∈ existing, row ∈ initial.rows ∧ row.appId = appId) (split : defs = through ++ rest)
    (progress : Progress appId defs through existing store) (paired : Paired store)
    (ran : Crons.applyAll accepts appId createdBy existing rest store = (changed, .ok ())) :
    Progress appId defs defs existing changed ∧ Paired changed := by
  induction rest generalizing through store with
  | nil =>
    obtain ⟨rfl, -⟩ := Prod.mk.inj ran
    rw [append_nil] at split
    exact ⟨split ▸ progress, paired⟩
  | cons declared rest ih =>
    have mem : declared ∈ defs := by simp [split]
    have before : ∀ other ∈ through, other ∈ defs := by
      intro other earlier
      simp [split, earlier]
    rw [Crons.applyAll] at ran
    cases one : applyDefinition accepts appId createdBy existing declared store with
    | error error => simp [one, Crons.attempt] at ran
    | ok middle =>
      rw [one] at ran
      have stepped : Progress appId defs (through ++ [declared]) existing middle := by
        obtain ⟨payload, given, ⟨old, held, named, updated⟩ | ⟨-, made⟩⟩ := applyDefinition_ok one
        · exact progress.update settled paired known mem before held named given updated
        · exact progress.create paired mem given made
      exact ih (by simp [split]) stepped (paired.applyDefinition one) ran

/-- After the deletions the rows are those that are not stale. -/
theorem deleteStale_ok {answered : CronSchedule → Bool} {rest : Store → Store × Outcome Unit}
    {stale : List CronSchedule} (paired : Paired store) (own : ∀ row ∈ stale, row ∈ initial.rows)
    (subset : ∀ row ∈ store.rows, row ∈ initial.rows) (unique : (initial.rows.map CronSchedule.id).Nodup)
    (ran : deleteStale appId answered rest stale store = (changed, .ok ())) :
    ∃ middle, Paired middle ∧ (∀ row, row ∈ middle.rows ↔ row ∈ store.rows ∧ row ∉ stale) ∧
      rest middle = (changed, .ok ()) := by
  induction stale generalizing store with
  | nil => exact ⟨store, paired, by simp, ran⟩
  | cons row rows ih =>
    rw [deleteStale] at ran
    cases one : delete store appId row.id (answered row) with
    | error error => simp [one, attempt] at ran
    | ok next =>
      rw [one] at ran
      obtain ⟨current, found, rfl⟩ := delete_ok one
      obtain ⟨inside, same, app⟩ := row?_eq_some found
      obtain rfl : current = row := inj_on_of_nodup_map unique (subset current inside)
        (own row mem_cons_self) same
      have left (other : CronSchedule) : other ∈ (store.rows.filter fun row =>
          decide (¬ (row.id = current.id ∧ row.appId = appId))) ↔ other ∈ store.rows ∧ other ≠ current := by
        rw [mem_filter, decide_eq_true_eq]
        refine and_congr_right fun held => not_congr ?_
        constructor
        · intro here
          exact paired.row_unique held inside here.1
        · rintro rfl
          exact ⟨rfl, app⟩
      obtain ⟨middle, kept, members, ran⟩ := ih (paired.delete one)
        (fun other mem => own other (mem_cons_of_mem _ mem))
        (fun other mem => subset other ((left other).mp mem).1) ran
      refine ⟨middle, kept, fun other => ?_, ran⟩
      rw [members, left, mem_cons, not_or, and_assoc]

/-- A successful synchronisation of settled definitions leaves exactly the declared
    schedules, whatever rows were there. -/
theorem sync_exact {listed : Bool} {answered : CronSchedule → Bool} (paired : Paired store)
    (settled : Settled appId defs store)
    (ran : syncFromManifest accepts store appId defs createdBy listed answered = (changed, .ok ())) :
    Exact appId defs changed := by
  unfold syncFromManifest at ran
  simp only [settled.available, Bool.not_true, Bool.false_eq_true, ↓reduceIte] at ran
  split at ran
  · simp at ran
  · have known : ∀ row ∈ store.rows.filter fun row => decide (row.appId = appId),
        row ∈ store.rows ∧ row.appId = appId := by
      intro row mem
      simpa using mem
    obtain ⟨middle, kept, members, ran⟩ := @deleteStale_ok _ _ _ store _ _ _ paired
      (fun row mem => (known row (mem_filter.mp mem).1).1) (fun _ held => held) paired.rowIds ran
    have start : Progress appId defs [] (store.rows.filter fun row => decide (row.appId = appId)) middle := by
      refine ⟨fun _ mem => absurd mem not_mem_nil, ?_, ?_⟩
      · intro row held own
        obtain ⟨inside, fresh⟩ := (members row).mp held
        by_contra undeclared
        apply fresh
        simp only [mem_filter, decide_eq_true_eq, mem_map, not_exists, not_and]
        refine ⟨⟨inside, own⟩, fun declared mem same => undeclared ⟨declared, mem, same.symm⟩⟩
      · intro old mem named
        obtain ⟨inside, own⟩ := known old mem
        refine ⟨old, (members old).mpr ⟨inside, fun stale => ?_⟩, rfl, own, rfl, rfl⟩
        obtain ⟨declared, declaredMember, same⟩ := named
        simp only [mem_filter, decide_eq_true_eq, mem_map, not_exists, not_and] at stale
        exact stale.2 declared declaredMember same.symm
    obtain ⟨progress, final⟩ := Progress.applyAll settled known rfl start kept ran
    refine ⟨progress.rows, fun row held own => ?_⟩
    obtain ⟨declared, mem, named⟩ := progress.names row held own
    obtain ⟨other, otherHeld, declares⟩ := progress.rows declared mem
    have same : row = other := inj_on_of_nodup_map final.names held otherHeld (by
      simp only [own, named, declares.app, declares.name])
    exact ⟨declared, mem, same ▸ declares⟩

end Sync

/-! ## Every history -/

open Runs (Along)

/-- The row of an application goes only without enabled schedules. -/
def Tidy (store : Store) : Action → Prop
  | .uninstalled appId | .deleteWorkflow appId =>
    ∀ row ∈ store.rows, row.appId = appId → row.enabled = false
  | _ => True

theorem Paired.settle {result : Outcome Store} (paired : Paired store)
    (kept : ∀ changed, result = .ok changed → Paired changed) : Paired (store.settle result) := by
  cases result with
  | error error => exact paired
  | ok changed => exact kept changed rfl

theorem Paired.step {action : Action} (paired : Paired store) (stepped : step accepts store action = some changed)
    (tidy : Tidy store action) : Paired changed := by
  cases action with
  | register appId =>
    cases stepped
    exact ⟨paired.rowIds, paired.names, paired.jobIds, paired.issued, paired.scheduled, paired.idle, paired.owned⟩
  | create appId c cron answered =>
    cases stepped
    exact paired.settle fun _ ran => paired.create ran
  | update appId cron schedule payload overlap enabled answered =>
    cases stepped
    exact paired.settle fun _ ran => paired.update ran
  | delete appId cron answered =>
    cases stepped
    exact paired.settle fun _ ran => paired.delete ran
  | deleteAllForApp appId answered =>
    cases stepped
    exact paired.settle fun _ ran => paired.deleteAllForApp ran
  | sync appId defs createdBy listed answered =>
    cases stepped
    exact paired.sync
  | uninstalled appId | deleteWorkflow appId =>
    cases stepped
    exact paired.dropApp tidy

/-- Stores without schedules; `pg_cron` may have jobs of others. -/
structure Unused (store : Store) : Prop where
  rows : store.rows = []
  jobIds : (store.jobs.map PgJob.jobId).Nodup
  issued : ∀ job ∈ store.jobs, job.jobId < store.nextJob
  foreign : ∀ job ∈ store.jobs, job.isCore = false

theorem Unused.paired (unused : Unused store) : Paired store where
  rowIds := by simp [unused.rows]
  names := by simp [unused.rows]
  jobIds := unused.jobIds
  issued := unused.issued
  scheduled := by simp [unused.rows]
  idle := by simp [unused.rows]
  owned job mem core := by simp [unused.foreign job mem] at core

/-- After every history in which no application goes while it has an enabled schedule, the
    jobs of the Core are one by one those of the enabled rows, and a synchronisation that
    succeeds there on settled definitions leaves exactly the declared schedules. -/
theorem schedules_mirrored {initial : Store} {actions : List Action} (unused : Unused initial)
    (ran : Runs.run (step accepts) initial actions = some store) (tidy : Along (step accepts) Tidy initial actions) :
    Mirrored store ∧ ∀ appId defs createdBy listed answered changed,
      syncFromManifest accepts store appId defs createdBy listed answered = (changed, .ok ()) →
      Settled appId defs store → Exact appId defs changed := by
  have paired : Paired store :=
    Runs.run_along (fun paired stepped tidy => Paired.step paired stepped tidy) unused.paired ran tidy
  exact ⟨paired.mirrored, fun _ _ _ _ _ _ done settled => sync_exact paired settled done⟩

/-! ## A workflow that is deleted -/

def emptyStore : Store := ⟨true, [], [], [], 1⟩

def hourly : CreateCron :=
  ⟨"wf-7-schedule", "0 * * * *", none, .obj [("workflow_id", .str ['7'])], skip, none⟩

/-- The row and the job of the schedule of a workflow. -/
def hourlyRow : CronSchedule := createdRow emptyStore "wf" hourly ['c']

def hourlyJob : PgJob := Paired.jobOf hourlyRow 1

def hourlyStore : Store := ⟨true, ["wf"], [hourlyRow], [hourlyJob], 2⟩

theorem created_hourly :
    Runs.run (step fun _ => true) emptyStore [.register "wf", .create "wf" hourly ['c'] true] =
      some hourlyStore := rfl

theorem emptyStore_unused : Unused emptyStore := by
  refine ⟨rfl, ?_, ?_, ?_⟩ <;> simp [emptyStore]

theorem hourly_mirrored : Mirrored hourlyStore := by
  apply And.left
  apply schedules_mirrored emptyStore_unused created_hourly
  exact ⟨trivial, fun _ _ => ⟨trivial, fun _ _ => trivial⟩⟩

/-- The job of a deleted workflow goes on firing, and a timezone that is declared for a
    schedule that exists is not written. -/
theorem deleted_workflow_fires :
    (∃ store, Runs.run (step fun _ => true) emptyStore
      [.register "wf".toList, .create "wf".toList hourly ['c'] true, .deleteWorkflow "wf".toList] = some store ∧
      ¬ Mirrored store) ∧
    ∃ defs changed, syncFromManifest (fun _ => true) hourlyStore "wf".toList defs none true (fun _ => true) =
      (changed, .ok ()) ∧ ¬ Exact "wf".toList defs changed := by
  constructor
  · refine ⟨⟨true, [], [], [hourlyJob], 2⟩, rfl, ?_⟩
    intro mirrored
    have core : hourlyJob.isCore = true := isCore_of_jobName rfl
    have lengths := mirrored.length_eq
    simp [core] at lengths
  · let utc : Declared :=
      ⟨⟨"wf-7-schedule".toList, "0 * * * *".toList, some "UTC".toList, none, some (.obj []), skip⟩, ['d'], true⟩
    let row : CronSchedule := updatedRow hourlyStore hourlyRow (some "0 * * * *".toList) (some (.obj [])) (some skip) (some true)
    refine ⟨[utc], ⟨true, ["wf".toList], [row], [Paired.jobOf row 2], 3⟩, rfl, ?_⟩
    intro exactly
    obtain ⟨held, inside, declares⟩ := exactly.1 utc (List.mem_singleton_self _)
    obtain rfl := List.mem_singleton.mp inside
    exact nomatch declares.timezone

end RootCx.Crons
