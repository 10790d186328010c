import RootCx.CrossApp.Operations

/-! # How an operation on another app ends

Every way out of `execute`, with what it leaves in the audit and in the provider app.
-/

namespace RootCx.CrossApp.Operations

open RootCx.Text RootCx.Crud RootCx.CrossApp.Mutations

/-- An entry of a call with an outcome. -/
structure Tagged (id : Uuid) (outcome : Outcome) (entry : Entry) : Prop where
  tagged : entry.outcome = outcome
  correlated : entry.correlationId = id

theorem Attempt.tagged (attempt : Attempt) (outcome : Outcome) (category : Option Text) (count : Option Nat) :
    Tagged attempt.call.correlationId outcome (attempt.entry outcome category count) := ⟨rfl, rfl⟩

/-- The statements of a mutation that ran to its end. -/
def Performed (env : Env) (call : Call) (sent : List (Statement × List Json)) : Prop :=
  ∃ types result work, env.fieldTypeMap = some types ∧
    Mutations.execute env.codec env.provider types call.providerApp call.entity (mutationOp call.op) call.data
      call.idempotencyKey ⟨[], false⟩ = (.ok result, work) ∧ sent = work.sent

/-- The answer of a call, its entries and its committed statements. -/
inductive Ending (env : Env) (call : Call) : Reply → World → Prop where
  /-- The call is refused. -/
  | denied {entry failure} (denied : Tagged call.correlationId .denied entry) :
    Ending env call (.error failure) ⟨recorded env entry, [], none⟩
  /-- The attempt is not known to be in the audit. -/
  | unstarted {start failure} (started : Tagged call.correlationId .started start) (unknown : env.audited start ≠ .done) :
    Ending env call (.error failure) ⟨recorded env start, [], none⟩
  /-- A step fails and everything is rolled back. -/
  | failed {start entry failure} (started : Tagged call.correlationId .started start)
    (error : Tagged call.correlationId .error entry) :
    Ending env call (.error failure) ⟨start :: recorded env entry, [], none⟩
  | read {start entry reply} (reads : mutates call.op = false) (started : Tagged call.correlationId .started start)
    (success : Tagged call.correlationId .success entry) :
    Ending env call reply ⟨start :: recorded env entry, [], none⟩
  | changed {start entry sent result} (writes : mutates call.op = true) (started : Tagged call.correlationId .started start)
    (success : Tagged call.correlationId .success entry) (performed : Performed env call sent) (some : sent ≠ []) :
    Ending env call (.ok result) ⟨[start, entry], sent, none⟩
  /-- The commit takes place, and its acknowledgement is lost. -/
  | lost {start entry error sent failure} (writes : mutates call.op = true)
    (started : Tagged call.correlationId .started start) (success : Tagged call.correlationId .success entry)
    (failed : Tagged call.correlationId .error error) (performed : Performed env call sent) (some : sent ≠ [])
    (lost : env.commits = .lost) :
    Ending env call (.error failure) ⟨start :: entry :: recorded env error, sent, none⟩

variable {env : Env} {call : Call} {attempt : Attempt} {world : World}

theorem session_bind {α β : Type} (x : Session α) (f : α → Session β) (world : World) :
    (x >>= f) world = f (x world).1 (x world).2 := rfl

theorem recorded_done {entry : Entry} (done : env.audited entry = .done) : recorded env entry = [entry] := by
  simp [recorded, done]

/-! ## The ways out -/

theorem deny_run (entry : Entry) (failure : Text) (world : World) :
    ∃ told, deny env entry failure world = (.error told, { world with trail := world.trail ++ recorded env entry }) :=
  ⟨_, rfl⟩

theorem giveUp_run (entry : Entry) (failure : Text) (world : World) :
    giveUp env entry failure world = (.error failure, { world with trail := world.trail ++ recorded env entry }) := rfl

theorem deny_ending {entry : Entry} {failure : Text} (denied : Tagged call.correlationId .denied entry) :
    Ending env call (deny env entry failure World.start).1 (deny env entry failure World.start).2 := by
  have ⟨told, ran⟩ : ∃ told, deny env entry failure World.start = (.error told, _) := deny_run entry failure World.start
  rw [ran]
  exact .denied denied

/-- An attempt of a call that is in the audit, by the entry that it has there. -/
structure Started (env : Env) (call : Call) (attempt : Attempt) (start : Entry) (world : World) : Prop where
  of : attempt.call = call
  action : isMutation attempt.action = mutates call.op
  started : Tagged call.correlationId .started start
  trail : world.trail = [start]
  changes : world.changes = []

theorem Started.giveUp_ending {start : Entry} (began : Started env call attempt start world) (closed : world.tx = none)
    (category : Option Text) (failure : Text) :
    Ending env call (giveUp env (attempt.entry .error category none) failure world).1
      (giveUp env (attempt.entry .error category none) failure world).2 := by
  obtain ⟨rfl, -, started, trail, changes⟩ := began
  rw [giveUp_run, trail, changes, closed]
  exact .failed started (attempt.tagged ..)

theorem Started.withTx {start : Entry} (began : Started env call attempt start world) (tx : Option Tx) :
    Started env call attempt start { world with tx := tx } :=
  ⟨began.of, began.action, began.started, began.trail, began.changes⟩

theorem commit_failed (failed : env.commits = .failed) (world : World) : commit env world = (false, (rollback world).2) := by
  rw [commit, failed]
  rfl

theorem commit_run {tx : Tx} (opened : world.tx = some tx) (whole : tx.work.failed = false) (took : env.commits ≠ .failed) :
    commit env world =
      (decide (env.commits = .committed), ⟨world.trail ++ tx.entries, world.changes ++ tx.work.sent, none⟩) := by
  have committed : world.committed = ⟨world.trail ++ tx.entries, world.changes ++ tx.work.sent, none⟩ := by
    rw [World.committed, opened]
    exact if_neg (Bool.eq_false_iff.mp whole)
  cases ends : env.commits with
  | committed =>
    rw [commit, ends, committed]
    rfl
  | failed => exact absurd ends took
  | lost =>
    rw [commit, ends, committed]
    rfl

theorem finish_refused {result : Json} {after : World} (ran : commit env world = (false, after)) :
    finish env attempt result world = giveUp env (attempt.entry .error (some "target_commit") none) unavailable after := by
  rw [finish, session_bind, ran]
  rfl

theorem finish_done {result : Json} {after : World} (ran : commit env world = (true, after)) (writes : isMutation attempt.action = true) :
    finish env attempt result world = (.ok (project attempt.call.op attempt.action attempt.authority result), after) := by
  rw [finish, session_bind, ran]
  simp only [writes, if_true]
  rfl

theorem finish_told {result : Json} {after : World} (ran : commit env world = (true, after)) (reads : isMutation attempt.action = false) :
    ∃ count reply, finish env attempt result world =
      (reply, { after with trail := after.trail ++ recorded env (attempt.entry .success none (some count)) }) := by
  refine ⟨rowCount attempt.call.op attempt.action result, (finish env attempt result world).1, ?_⟩
  rw [finish, session_bind, ran]
  simp only [reads, Bool.false_eq_true, if_false, if_true]
  rfl

theorem Started.finish_read {start : Entry} (began : Started env call attempt start world) (reads : mutates call.op = false)
    (opened : world.tx = some ⟨⟨[], false⟩, []⟩) (result : Json) :
    Ending env call (finish env attempt result world).1 (finish env attempt result world).2 := by
  by_cases failed : env.commits = .failed
  · rw [finish_refused (commit_failed failed world)]
    exact (began.withTx none).giveUp_ending rfl ..
  have ran := commit_run opened rfl failed
  rw [began.trail, began.changes] at ran
  by_cases told : env.commits = .committed
  · rw [decide_eq_true told] at ran
    have ⟨count, reply, finished⟩ : ∃ count reply, finish env attempt result world = (reply, _) :=
      finish_told ran (began.action.trans reads)
    rw [finished]
    exact .read reads began.started (began.of ▸ attempt.tagged ..)
  · rw [decide_eq_false told] at ran
    rw [finish_refused ran]
    exact Started.giveUp_ending ⟨began.of, began.action, began.started, rfl, rfl⟩ rfl ..

/-- The statements of a mutation and its success entry are in one transaction. -/
theorem Started.finish_mutation {start entry : Entry} {work : Work} (began : Started env call attempt start world)
    (writes : mutates call.op = true) (opened : world.tx = some ⟨work, [entry]⟩) (whole : work.failed = false)
    (success : Tagged call.correlationId .success entry) (performed : Performed env call work.sent) (some : work.sent ≠ [])
    (result : Json) :
    Ending env call (finish env attempt result world).1 (finish env attempt result world).2 := by
  by_cases failed : env.commits = .failed
  · rw [finish_refused (commit_failed failed world)]
    exact (began.withTx none).giveUp_ending rfl ..
  have ran := commit_run opened whole failed
  rw [began.trail, began.changes] at ran
  by_cases told : env.commits = .committed
  · rw [decide_eq_true told] at ran
    rw [finish_done ran (began.action.trans writes)]
    exact .changed writes began.started success performed some
  · rw [decide_eq_false told] at ran
    rw [finish_refused ran, giveUp_run]
    have lost : env.commits = .lost := by
      cases ends : env.commits with
      | committed => exact absurd ends told
      | failed => exact absurd ends failed
      | lost => rfl
    exact .lost writes began.started success (began.of ▸ attempt.tagged ..) performed some lost

/-! ## The stages of an attempt -/

theorem insertReadAudit_ok {entry : Entry} {tx : Tx} (opened : world.tx = some tx)
    (ran : (insertReadAudit env entry world).1 = true) :
    (insertReadAudit env entry world).2 = { world with tx := some { tx with entries := tx.entries ++ [entry] } } := by
  unfold insertReadAudit at ran ⊢
  split at ran
  · next taken => rw [if_pos taken, opened, Option.map_some]
  · cases ran

theorem insertReadAudit_refused {entry : Entry} (ran : (insertReadAudit env entry world).1 = false) :
    ∃ tx, (insertReadAudit env entry world).2 = { world with tx := tx } := by
  unfold insertReadAudit at ran ⊢
  split at ran
  · cases ran
  · next refused => exact ⟨_, by rw [if_neg refused]⟩

theorem Started.settle_mutation {start : Entry} {work : Work} (began : Started env call attempt start world)
    (writes : mutates call.op = true) (opened : world.tx = some ⟨work, []⟩) (whole : work.failed = false)
    (performed : Performed env call work.sent) (some' : work.sent ≠ []) (result : Json) :
    Ending env call (settle env attempt result world).1 (settle env attempt result world).2 := by
  have action : isMutation attempt.action = true := began.action.trans writes
  let entry := attempt.entry .success none (some (rowCount attempt.call.op attempt.action result))
  cases written : (insertReadAudit env entry world).1 with
  | true =>
    have step : settle env attempt result world = finish env attempt result (insertReadAudit env entry world).2 := by
      rw [settle, if_pos action, session_bind, if_pos written]
    rw [step, insertReadAudit_ok opened written]
    exact (began.withTx _).finish_mutation writes rfl whole
      (began.of ▸ attempt.tagged ..) performed some' result
  | false =>
    obtain ⟨tx, left⟩ := insertReadAudit_refused written
    have step : settle env attempt result world =
        giveUp env (attempt.entry .error (some "audit_unavailable") none)
          "cross-app audit unavailable; mutation rolled back" (rollback (insertReadAudit env entry world).2).2 := by
      rw [settle, if_pos action, session_bind, if_neg (Bool.eq_false_iff.mp written)]
      rfl
    rw [step, left]
    exact (began.withTx none).giveUp_ending rfl ..

/-- What an operation leaves in its transaction: a mutation that succeeds has sent its
    statements, and a read has sent none that change anything. -/
theorem Started.operated {start : Entry} {types : FieldMap} (began : Started env call attempt start world)
    (typed : env.fieldTypeMap = some types) (opened : world.tx = some ⟨⟨[], false⟩, []⟩) :
    (∃ failure tx, operate env attempt types world = (.error failure, { world with tx := tx })) ∨
      (∃ result work, operate env attempt types world = (.ok result, { world with tx := some ⟨work, []⟩ }) ∧
        mutates call.op = true ∧ work.failed = false ∧ work.sent ≠ [] ∧ Performed env call work.sent) ∨
      ∃ result, operate env attempt types world = (.ok result, world) ∧ mutates call.op = false := by
  obtain ⟨rfl, action, -⟩ := began
  unfold operate
  by_cases writes : mutates attempt.call.op = true
  · rw [if_pos (action.trans writes)]
    cases ran : Mutations.execute env.codec env.provider types attempt.call.providerApp attempt.call.entity
        (mutationOp attempt.call.op) attempt.call.data attempt.call.idempotencyKey ⟨[], false⟩ with
    | mk outcome work =>
      have step : ∀ {reply}, outcome = reply → inTx (Mutations.execute env.codec env.provider types attempt.call.providerApp
          attempt.call.entity (mutationOp attempt.call.op) attempt.call.data attempt.call.idempotencyKey) world =
          (reply, { world with tx := some ⟨work, []⟩ }) := by
        rintro _ rfl
        simp only [inTx, opened]
        rw [ran]
      cases outcome with
      | error failure => exact .inl ⟨failure, _, step rfl⟩
      | ok result =>
        have sent := Mutations.execute_ok ran
        refine .inr (.inl ⟨result, work, step rfl, writes, sent.whole, ?_, types, result, work, typed, ran, rfl⟩)
        exact List.ne_nil_of_length_pos (Nat.lt_of_le_of_lt (Nat.zero_le _) sent.more)
  · rw [if_neg (fun is => writes (action.symm.trans is))]
    cases read : env.reads types (readingOf attempt.call.op attempt.call.origin) attempt.call.data with
    | error failure => exact .inl ⟨failure, world.tx, rfl⟩
    | ok result => exact .inr (.inr ⟨result, rfl, Bool.eq_false_iff.mpr writes⟩)

theorem Started.inside {start : Entry} {types : FieldMap} (began : Started env call attempt start world)
    (typed : env.fieldTypeMap = some types) :
    Ending env call (inside env attempt types world).1 (inside env attempt types world).2 := by
  have opened := began.withTx (some ⟨⟨[], false⟩, []⟩)
  have step : Operations.inside env attempt types world =
      conclude env attempt (operate env attempt types { world with tx := some ⟨⟨[], false⟩, []⟩ }).1
        (operate env attempt types { world with tx := some ⟨⟨[], false⟩, []⟩ }).2 := rfl
  rw [step]
  rcases opened.operated typed rfl with ⟨failure, tx, ran⟩ | ⟨result, work, ran, writes, whole, some', performed⟩ |
    ⟨result, ran, reads⟩
  · rw [ran]
    exact (began.withTx none).giveUp_ending rfl ..
  · rw [ran]
    exact (began.withTx _).settle_mutation writes rfl whole performed some' result
  · rw [ran]
    have action : isMutation attempt.action = false := began.action.trans reads
    have step : conclude env attempt (.ok result) = finish env attempt result := by
      rw [conclude, settle, action]
      rfl
    rw [step]
    exact opened.finish_read reads rfl result

theorem Started.run {start : Entry} (began : Started env call attempt start world) (closed : world.tx = none) :
    Ending env call (run env attempt world).1 (run env attempt world).2 := by
  unfold Operations.run
  cases typed : env.fieldTypeMap with
  | none => exact began.giveUp_ending closed ..
  | some types =>
    by_cases begins : env.begins = true
    · simp only [if_pos begins]
      exact began.inside typed
    · simp only [if_neg begins]
      exact began.giveUp_ending closed ..

theorem start_ending (of : attempt.call = call) (action : isMutation attempt.action = mutates call.op) :
    Ending env call (start env attempt World.start).1 (start env attempt World.start).2 := by
  have started : Tagged call.correlationId .started (attempt.entry .started none none) := of ▸ attempt.tagged ..
  unfold start
  rw [session_bind]
  by_cases told : env.audited (attempt.entry .started none none) = .done
  · have ran : recordReadAudit env (attempt.entry .started none none) World.start =
        (true, ⟨[attempt.entry .started none none], [], none⟩) := by
      rw [recordReadAudit, decide_eq_true told, recorded_done told]
      rfl
    rw [ran]
    exact Started.run ⟨of, action, started, rfl, rfl⟩ rfl
  · have ran : recordReadAudit env (attempt.entry .started none none) World.start =
        (false, ⟨recorded env (attempt.entry .started none none), [], none⟩) := by
      rw [recordReadAudit, decide_eq_false told]
      rfl
    rw [ran]
    exact .unstarted started told

/-! ## The call -/

/-- Every call ends in one of the ways of `Ending`. -/
theorem execute_ending (env : Env) (call : Call) :
    Ending env call (execute env call World.start).1 (execute env call World.start).2 := by
  unfold execute
  cases acts : actionOf call.op with
  | none => exact deny_ending ⟨rfl, rfl⟩
  | some action =>
    cases call.state with
    | none => exact deny_ending ⟨rfl, rfl⟩
    | some st =>
      have mutation : isMutation action = mutates call.op := by rw [mutates, acts, Option.any_some]
      simp only
      split
      · exact deny_ending ⟨rfl, rfl⟩
      · unfold admitted
        cases authorize env call st action with
        | error failure => exact deny_ending ⟨rfl, rfl⟩
        | ok authority => exact start_ending rfl mutation

/-! ## The trail of a call -/

theorem mem_recorded {entry other : Entry} (mem : other ∈ recorded env entry) : other = entry := by
  unfold recorded at mem
  split at mem
  · exact absurd mem List.not_mem_nil
  · exact List.mem_singleton.mp mem

theorem Tagged.not_success {id : Uuid} {entry : Entry} {outcome : Outcome} (tagged : Tagged id outcome entry)
    (other : outcome ≠ .success) : entry.outcome ≠ .success := fun is => other (tagged.tagged.symm.trans is)

/-- One denied entry, or a started entry and the one that closes it. -/
inductive Closed (id : Uuid) : List Entry → Prop where
  | denied {entry} (denied : Tagged id .denied entry) : Closed id [entry]
  | ended {start entry} (started : Tagged id .started start)
    (ends : Tagged id .success entry ∨ Tagged id .error entry) : Closed id [start, entry]

/-- The change and its success entry are committed, and the caller is told of a failure,
    which has an entry of its own. -/
structure Misreported (env : Env) (call : Call) (reply : Reply) (world : World) : Prop where
  lost : env.commits = .lost
  writes : mutates call.op = true
  failed : ∃ failure, reply = .error failure
  committed : world.changes ≠ []
  entries : ∃ start entry error, world.trail = start :: entry :: recorded env error ∧
    Tagged call.correlationId .started start ∧ Tagged call.correlationId .success entry ∧
    Tagged call.correlationId .error error

/-- What a call promises: a change is committed together with its success entry and as a
    whole, an error means that there is none, and the trail is closed. -/
structure Audited (env : Env) (call : Call) (reply : Reply) (world : World) : Prop where
  together : mutates call.op = true → (world.changes ≠ [] ↔ ∃ entry ∈ world.trail, entry.outcome = .success)
  whole : world.changes ≠ [] → mutates call.op = true ∧ Performed env call world.changes
  refused : ∀ failure, reply = .error failure → world.changes = [] ∨ Misreported env call reply world
  closed : (∀ entry, env.audited entry = .done) →
    Closed call.correlationId world.trail ∨ Misreported env call reply world

theorem Audited.unchanged {reply : Reply} {trail : List Entry} (quiet : ∀ entry ∈ trail, entry.outcome ≠ .success)
    (closed : (∀ entry, env.audited entry = .done) → Closed call.correlationId trail) :
    Audited env call reply ⟨trail, [], none⟩ where
  together _ := ⟨fun changed => absurd rfl changed, fun ⟨entry, mem, success⟩ => absurd success (quiet entry mem)⟩
  whole changed := absurd rfl changed
  refused _ _ := .inl rfl
  closed done := .inl (closed done)

theorem Ending.audited {reply : Reply} (ending : Ending env call reply world) : Audited env call reply world := by
  cases ending with
  | @denied entry failure denied =>
    apply Audited.unchanged
    · intro other mem
      rw [mem_recorded mem]
      exact denied.not_success nofun
    · intro done
      rw [recorded_done (done entry)]
      exact .denied denied
  | @unstarted start failure started unknown =>
    apply Audited.unchanged
    · intro other mem
      rw [mem_recorded mem]
      exact started.not_success nofun
    · exact fun done => absurd (done start) unknown
  | @failed start entry failure started error =>
    apply Audited.unchanged
    · intro other mem
      obtain rfl | later := List.mem_cons.mp mem
      · exact started.not_success nofun
      · rw [mem_recorded later]
        exact error.not_success nofun
    · intro done
      rw [recorded_done (done entry)]
      exact .ended started (.inr error)
  | @read start entry reply reads started success =>
    refine ⟨fun writes => absurd (reads.symm.trans writes) nofun, fun changed => absurd rfl changed, fun _ _ => .inl rfl, ?_⟩
    intro done
    rw [recorded_done (done entry)]
    exact .inl (.ended started (.inl success))
  | @changed start entry sent result writes started success performed some =>
    refine ⟨fun _ => ⟨fun _ => ⟨entry, by simp, success.tagged⟩, fun _ => some⟩, fun _ => ⟨writes, performed⟩, nofun, ?_⟩
    exact fun _ => .inl (.ended started (.inl success))
  | @lost start entry error sent failure writes started success failed performed some lost =>
    have told : Misreported env call (.error failure) ⟨start :: entry :: recorded env error, sent, none⟩ :=
      ⟨lost, writes, ⟨failure, rfl⟩, some, start, entry, error, rfl, started, success, failed⟩
    exact ⟨fun _ => ⟨fun _ => ⟨entry, by simp, success.tagged⟩, fun _ => some⟩, fun _ => ⟨writes, performed⟩,
      fun _ _ => .inr told, fun _ => .inr told⟩

/-- Whatever fails, a mutation is committed if and only if its success entry is, and all of
    it; an error means that nothing is, and the trail is closed, unless the acknowledgement
    of a mutation's commit is lost. -/
theorem mutation_audited (env : Env) (call : Call) :
    Audited env call (execute env call World.start).1 (execute env call World.start).2 :=
  (execute_ending env call).audited

/-! A note is created in the app of its owner. -/

def noteTypes : FieldMap := ⟨[("title", ⟨.text, false⟩)]⟩

def noteGrant : AuthorizedRead where
  grantId := "grant"
  grantVersion := 1
  consumerApp := "crm"
  providerApp := "notes"
  consumerInstallationId := "crm-1"
  providerInstallationId := "notes-1"
  entity := "note"
  action := ACTION_CREATE
  fieldSnapshot := ["title"]
  writeFieldSnapshot := ["title"]

def noteCall : Call where
  consumerApp := "crm"
  providerApp := "notes"
  op := "create"
  entity := "note"
  data := .obj [("title", .str "call back")]
  state := some ⟨some "ann", [], none, none⟩
  idempotencyKey := none
  origin := .collection
  correlationId := "call"

def noteEnv (commits : Commit) : Env where
  codec := ⟨some, id, fun _ value => .ok value.asStr⟩
  audited _ := .done
  authorizeCrossAppOperation _ _ := .ok noteGrant
  installed := .ok true
  entityExists := some true
  fieldTypeMap := some noteTypes
  begins := true
  provider _ _ := .ok [.obj [("title", .str "call back")]]
  reads _ _ _ := .ok (.arr [])
  resetsRole := true
  inserted _ := true
  commits := commits

theorem note_closed :
    Closed noteCall.correlationId (execute (noteEnv .committed) noteCall World.start).2.trail ∨
      Misreported (noteEnv .committed) noteCall (execute (noteEnv .committed) noteCall World.start).1
        (execute (noteEnv .committed) noteCall World.start).2 :=
  (mutation_audited (noteEnv .committed) noteCall).closed fun _ => rfl

/-- The note is there, and its caller is told that it is not. -/
theorem note_misreported :
    (execute (noteEnv .lost) noteCall World.start).1.toOption.isNone = true ∧
      (execute (noteEnv .lost) noteCall World.start).2.changes.length = 1 ∧
      (execute (noteEnv .lost) noteCall World.start).2.trail.map (·.outcome) = [.started, .success, .error] := by
  decide +kernel

end RootCx.CrossApp.Operations
