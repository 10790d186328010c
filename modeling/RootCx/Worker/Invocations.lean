import RootCx.Worker.Changes

/-! # Live invocations

Every invocation the supervisor minted is held by the RPC or by the job it was
minted for.  The books agree on that as long as no request is dispatched under an
id that is still held: the second one takes the id over, and the invocation of
the first stays live for the rest of the process's life.
-/

namespace RootCx.Worker

open RootCx.Text Option

variable {config : Config} {s s' : Supervisor} {effects : List Effect} {event : Option Event}

/-- The states of a supervisor whose every turn is allowed. -/
inductive Reaches (config : Config) (allowed : Supervisor → Option Event → Prop) : Supervisor → Prop
  | start : Reaches config allowed {}
  | turn {s s' : Supervisor} {event : Option Event} {effects : List Effect} (reached : Reaches config allowed s)
      (meets : allowed s event) (turned : turn config s event = some (s', effects)) : Reaches config allowed s'

/-- The state behind a list of turns, those that are not possible left out. -/
def after (config : Config) (s : Supervisor) : List (Option Event) → Supervisor
  | [] => s
  | event :: rest => after config (((turn config s event).map Prod.fst).getD s) rest

theorem Reaches.after {allowed : Supervisor → Option Event → Prop} (always : ∀ s event, allowed s event)
    (reached : Reaches config allowed s) (events : List (Option Event)) :
    Reaches config allowed (after config s events) := by
  induction events generalizing s with
  | nil => exact reached
  | cons event rest ih =>
    apply ih
    cases turned : Worker.turn config s event with
    | none => exact reached
    | some handled => exact .turn reached (always s event) turned

/-! ## Tokens held by two maps -/

section Tokens

variable {ι κ τ : Type*} {active : Finset τ} {first : ι → Option τ}
  {second : κ → Option τ} {i : ι} {k : κ} {token : τ}

/-- The live tokens are those that one of two maps holds, and none is held twice. -/
structure Held (active : Finset τ) (first : ι → Option τ) (second : κ → Option τ) : Prop where
  mem_iff : ∀ token, token ∈ active ↔ (∃ i, first i = some token) ∨ ∃ k, second k = some token
  firstOnce : ∀ {i j token}, first i = some token → first j = some token → i = j
  secondOnce : ∀ {i j token}, second i = some token → second j = some token → i = j
  apart : ∀ {i j token}, first i = some token → second j ≠ some token

theorem Held.empty : Held (∅ : Finset τ) (fun _ : ι => none) (fun _ : κ => none) :=
  ⟨by simp, nofun, nofun, nofun⟩

theorem Held.swap (held : Held active first second) : Held active second first :=
  ⟨fun token => (held.mem_iff token).trans or_comm, held.secondOnce, held.firstOnce,
    fun left right => held.apart right left⟩

theorem Held.absent (held : Held active first second) (fresh : token ∉ active) (i : ι) : first i ≠ some token :=
  fun holds => fresh ((held.mem_iff token).mpr (.inl ⟨i, holds⟩))

variable [DecidableEq ι] [DecidableEq τ]

/-- A fresh token is handed to a free holder. -/
theorem Held.put (held : Held active first second) (free : first i = none) (fresh : token ∉ active) :
    Held (insert token active) (put first i token) second := by
  refine ⟨fun other => ?_, ?_, held.secondOnce, ?_⟩
  · rw [Finset.mem_insert, held.mem_iff other]
    constructor
    · rintro (rfl | ⟨j, holds⟩ | holds)
      · exact .inl ⟨i, put_self first i other⟩
      · have different : j ≠ i := by
          rintro rfl
          rw [free] at holds
          cases holds
        exact .inl ⟨j, (put_of_ne different).trans holds⟩
      · exact .inr holds
    · rintro (⟨j, holds⟩ | holds)
      · obtain ⟨-, same⟩ | ⟨-, holds⟩ := of_put_eq_some holds
        · exact .inl same.symm
        · exact .inr (.inl ⟨j, holds⟩)
      · exact .inr (.inr holds)
  · intro j k other left right
    obtain ⟨sameJ, rfl⟩ | ⟨-, left⟩ := of_put_eq_some left
    · obtain ⟨sameK, -⟩ | ⟨-, right⟩ := of_put_eq_some right
      · exact sameJ.trans sameK.symm
      · exact absurd right (held.absent fresh k)
    · obtain ⟨-, rfl⟩ | ⟨-, right⟩ := of_put_eq_some right
      · exact absurd left (held.absent fresh j)
      · exact held.firstOnce left right
  · intro j k other left right
    obtain ⟨-, rfl⟩ | ⟨-, left⟩ := of_put_eq_some left
    · exact held.swap.absent fresh k right
    · exact held.apart left right

/-- A holder gives its token back. -/
theorem Held.remove (held : Held active first second) (holds : first i = some token) :
    Held (active.erase token) (remove first i) second := by
  refine ⟨fun other => ?_, ?_, held.secondOnce, ?_⟩
  · rw [Finset.mem_erase, held.mem_iff other]
    constructor
    · rintro ⟨different, ⟨j, found⟩ | found⟩
      · have apart : j ≠ i := by
          rintro rfl
          exact different (some.inj (found.symm.trans holds))
        exact .inl ⟨j, (remove_of_ne apart).trans found⟩
      · exact .inr found
    · rintro (⟨j, found⟩ | ⟨k, found⟩)
      · obtain ⟨different, found⟩ := of_remove_eq_some found
        refine ⟨?_, .inl ⟨j, found⟩⟩
        rintro rfl
        exact different (held.firstOnce found holds)
      · refine ⟨?_, .inr ⟨k, found⟩⟩
        rintro rfl
        exact held.apart holds found
  · intro j k other left right
    exact held.firstOnce (of_remove_eq_some left).2 (of_remove_eq_some right).2
  · intro j k other left right
    exact held.apart (of_remove_eq_some left).2 right

end Tokens

/-! ## The invariant -/

/-- Every transaction recorded against an invocation is open. -/
def Books.Recorded (b : Books) : Prop := ∀ txId invocation, b.txInvocations txId = some invocation → txId ∈ b.openTxs

/-- The books agree: the live invocations are those that an RPC or a job holds, each
    by one of them, and what is recorded against an invocation is open. -/
structure Books.Balanced (b : Books) : Prop where
  held : Held b.activeInvocations b.rpcInvocations b.jobInvocations
  recorded : b.Recorded

/-- What a turn leaves for the next one. -/
structure Kept (config : Config) (s : Supervisor) : Prop where
  balanced : s.toBooks.Balanced
  leased : ∀ msgId, (s.jobInvocations msgId).isSome → msgId ∈ s.jobLeases
  pipes : s.status = .running → s.connected = true
  finishing : ∀ id result invocation, s.awaiting = some (.finish id result invocation) →
    invocation ∉ s.activeInvocations
  expiring : ∀ request invocation, s.awaiting = some (.expire request invocation) →
    s.rpcInvocations request = some invocation
  abandoning : ∀ error, s.awaiting = some (.abandon error) → config.approved = true
  jobless : config.approved || config.publicExecution → ∀ msgId, s.jobInvocations msgId = none

/-- A request is dispatched under an id that is not held, and a job, whose id is a
    message of the queue, to an ordinary worker; the minted invocation is fresh. -/
def Orderly (config : Config) (s : Supervisor) : Option Event → Prop
  | some (.rpc id invocation _) =>
    s.status = .running → s.rpcInvocations id = none ∧ invocation ∉ s.activeInvocations
  | some (.job id invocation _ _) =>
    (parseI64 id).isSome ∧ invocation ∉ s.activeInvocations ∧ (config.approved || config.publicExecution) = false
  | _ => True

/-! ## Steps -/

theorem Books.Recorded.taken (recorded : s.Recorded) (txId : Text) : (taken txId s).Recorded := by
  intro other invocation found
  obtain ⟨different, found⟩ := of_remove_eq_some found
  exact Finset.mem_erase.mpr ⟨different, recorded other invocation found⟩

theorem Books.Recorded.opened (recorded : s.Recorded) (txId : Text) (invocationId : Option Text) :
    (opened config txId invocationId s).Recorded := by
  intro other invocation found
  cases invocationId with
  | none => exact Finset.mem_insert_of_mem (recorded other invocation found)
  | some owner =>
    obtain ⟨rfl, -⟩ | ⟨-, found⟩ := of_put_eq_some found
    · exact Finset.mem_insert_self _ _
    · exact Finset.mem_insert_of_mem (recorded other invocation found)

theorem Books.Recorded.close (recorded : s.Recorded) (invocation : Text) :
    (closeWorkflowInvocation invocation s).1.Recorded := by
  intro txId owner found
  simp only [closeWorkflowInvocation] at found ⊢
  split at found
  case isTrue => cases found
  case isFalse different => exact Finset.mem_filter.mpr ⟨recorded txId owner found, different⟩

theorem Kept.idle (balanced : s.toBooks.Balanced) (leased : ∀ msgId, (s.jobInvocations msgId).isSome → msgId ∈ s.jobLeases)
    (pipes : s.status = .running → s.connected = true) (idle : s.awaiting = none)
    (jobless : config.approved || config.publicExecution → ∀ msgId, s.jobInvocations msgId = none) : Kept config s :=
  ⟨balanced, leased, pipes, by simp [idle], by simp [idle], by simp [idle], jobless⟩

variable {invocation : Text}

theorem Kept.dispatch {id : Text} {sent : Except Text Unit} (kept : Kept config s) (idle : s.awaiting = none)
    (orderly : Orderly config s (some (.rpc id invocation sent))) :
    Kept config (rpc id invocation sent s) := by
  unfold rpc
  split
  case isTrue => exact kept
  case isFalse notRunning =>
    obtain ⟨free, fresh⟩ := orderly (not_not.mp notRunning)
    have added := kept.balanced.held.put free fresh
    have sentOk : Kept config (({ s with
        activeInvocations := insert invocation s.activeInvocations
        rpcInvocations := put s.rpcInvocations id invocation } : Supervisor).register id) :=
      .idle ⟨added, kept.balanced.recorded⟩ kept.leased kept.pipes idle kept.jobless
    dsimp only
    split
    case isFalse => exact sentOk
    case isTrue =>
      split
      case h_1 => exact sentOk
      case h_2 error =>
        -- The failed send takes back what was put.
        have back := added.remove (put_self s.rpcInvocations id invocation)
        apply Kept.idle
        · rw [resolve_toBooks]
          exact ⟨back, kept.balanced.recorded⟩
        · rw [resolve_toBooks]
          exact kept.leased
        · rw [resolve_status, resolve_connected]
          exact kept.pipes
        · rw [resolve_awaiting]
          exact idle
        · rw [resolve_toBooks]
          exact kept.jobless

theorem Kept.employ {id : Text} {payload : Json} {sent : Bool} (kept : Kept config s)
    (idle : s.awaiting = none) (orderly : Orderly config s (some (.job id invocation payload sent))) :
    Kept config (job id invocation payload sent s) := by
  obtain ⟨numeric, fresh, ordinary⟩ := orderly
  obtain ⟨msgId, parsed⟩ := isSome_iff_exists.mp numeric
  unfold job
  split
  case isTrue => exact kept
  case isFalse notRunning =>
    split
    case isTrue => exact kept
    case isFalse notInFlight =>
      have free : s.jobInvocations msgId = none := by
        rw [← not_isSome_iff_eq_none]
        intro inFlight
        exact notInFlight (by simp [jobAlreadyInFlight, parsed, kept.leased msgId inFlight])
      dsimp only
      rw [if_pos (kept.pipes (not_not.mp notRunning)), parsed]
      split
      case isTrue =>
        rw [Finset.erase_insert fresh]
        exact .idle kept.balanced kept.leased kept.pipes idle kept.jobless
      case isFalse =>
        dsimp only
        refine .idle ⟨(kept.balanced.held.swap.put free fresh).swap, kept.balanced.recorded⟩ ?_ kept.pipes idle ?_
        · intro other inFlight
          by_cases same : other = msgId
          · exact same ▸ Finset.mem_insert_self _ _
          · dsimp only at inFlight
            rw [put_of_ne same] at inFlight
            exact Finset.mem_insert_of_mem (kept.leased other inFlight)
        · intro special
          rw [ordinary] at special
          cases special

theorem Books.Balanced.close (balanced : s.toBooks.Balanced) (dead : invocation ∉ s.activeInvocations) :
    (closeWorkflowInvocation invocation s).1.toBooks.Balanced := by
  refine ⟨?_, balanced.recorded.close invocation⟩
  simp only [closeWorkflowInvocation, Finset.erase_eq_of_notMem dead]
  exact balanced.held

theorem Kept.settle (kept : Kept config s) (idle : s.awaiting = none) (id : Text) (error : Option Text) :
    Kept config (jobResult id error s).1 := by
  unfold jobResult
  split
  case h_1 => exact kept
  case h_2 msgId _ =>
    dsimp only
    cases holds : s.jobInvocations msgId with
    | none =>
      simp only [closeJob, holds]
      refine .idle ⟨kept.balanced.held, kept.balanced.recorded⟩ ?_ kept.pipes idle kept.jobless
      intro other inFlight
      refine Finset.mem_erase.mpr ⟨?_, kept.leased other inFlight⟩
      rintro rfl
      simp [holds] at inFlight
    | some invocation =>
      have back := (kept.balanced.held.swap.remove holds).swap
      have dead : invocation ∉ s.activeInvocations.erase invocation := Finset.notMem_erase _ _
      have closed : (closeWorkflowInvocation invocation { s with
          activeInvocations := s.activeInvocations.erase invocation
          jobInvocations := remove s.jobInvocations msgId }).1.toBooks.Balanced :=
        Books.Balanced.close ⟨back, kept.balanced.recorded⟩ dead
      simp only [closeJob, holds]
      refine .idle ⟨?_, closed.recorded⟩ ?_ kept.pipes idle ?_
      · simpa only [closeWorkflowInvocation, Finset.erase_eq_of_notMem dead] using closed.held
      · intro other inFlight
        obtain ⟨owner, found⟩ := isSome_iff_exists.mp inFlight
        obtain ⟨different, found⟩ := of_remove_eq_some found
        exact Finset.mem_erase.mpr ⟨different, kept.leased other (isSome_iff_exists.mpr ⟨owner, found⟩)⟩
      · intro special other
        simp [closeWorkflowInvocation, remove, Function.update_apply, kept.jobless special other]

theorem Kept.resume {wait : Await} (kept : Kept config s) (awaited : s.awaiting = some wait) :
    Kept config (resume config wait s).1 := by
  have balanced (scope : Option Text) : ({ s with
      awaiting := none, actors := s.closeActors scope } : Supervisor).toBooks.Balanced :=
    ⟨kept.balanced.held, kept.balanced.recorded⟩
  cases wait with
  | finish id result invocation =>
    have closed := (balanced (some invocation)).close (kept.finishing id result invocation awaited)
    simp only [Worker.resume, Await.scope]
    apply Kept.idle
    · rw [resolve_toBooks]
      exact closed
    · rw [resolve_toBooks]
      exact kept.leased
    · rw [resolve_status, resolve_connected]
      exact kept.pipes
    · rw [resolve_awaiting]
      rfl
    · rw [resolve_toBooks]
      exact kept.jobless
  | expire request invocation =>
    have back := kept.balanced.held.remove (kept.expiring request invocation awaited)
    have dead : invocation ∉ s.activeInvocations.erase invocation := Finset.notMem_erase _ _
    have closed : (closeWorkflowInvocation invocation { s with
        awaiting := none
        actors := s.closeActors (some invocation)
        activeInvocations := s.activeInvocations.erase invocation
        rpcInvocations := remove s.rpcInvocations request }).1.toBooks.Balanced :=
      Books.Balanced.close ⟨back, kept.balanced.recorded⟩ dead
    refine .idle ⟨?_, closed.recorded⟩ kept.leased kept.pipes rfl kept.jobless
    simpa only [Worker.resume, closeWorkflowInvocation, Finset.erase_eq_of_notMem dead] using closed.held
  | abandon error =>
    -- Only an approved worker is abandoned, and it never got a job.
    have jobless := kept.jobless (by rw [kept.abandoning error awaited]; rfl)
    have jobs : s.jobInvocations = fun _ => none := funext jobless
    refine .idle ⟨?_, by rintro _ _ ⟨⟩⟩ kept.leased (by rintro ⟨⟩) rfl kept.jobless
    show Held ∅ (fun _ => none) s.jobInvocations
    rw [jobs]
    exact .empty
  | stop => exact .idle ⟨.empty, by rintro _ _ ⟨⟩⟩ (by rintro _ ⟨⟩) (by rintro ⟨⟩) rfl (fun _ _ => rfl)
  | crash restart =>
    obtain ⟨books, idle⟩ := resume_crash config restart s
    refine .idle ?_ ?_ ?_ idle ?_
    · rw [books]
      exact ⟨.empty, by rintro _ _ ⟨⟩⟩
    · rw [books]
      rintro _ ⟨⟩
    · simp only [Worker.resume]
      exact restarted_pipes config restart _ 
    · rw [books]
      exact fun _ _ => rfl

/-! ## Runs -/

theorem Kept.change (kept : Kept config s) (orderly : Orderly config s event)
    (change : Change config s event s' effects) : Kept config s' := by
  cases change with
  | kept _ books awaiting pipes =>
    refine .idle ?_ ?_ (pipes kept.pipes) awaiting ?_
    · rw [books]
      exact kept.balanced
    · rw [books]
      exact kept.leased
    · rw [books]
      exact kept.jobless
  | waits _ unanswered expires abandons =>
    refine ⟨kept.balanced, kept.leased, kept.pipes, ?_, ?_, ?_, kept.jobless⟩
    · intro id result invocation waiting
      exact absurd (some.inj waiting) (unanswered id result invocation)
    · intro request invocation waiting
      exact expires request invocation (some.inj waiting)
    · intro error waiting
      exact abandons error (some.inj waiting)
  | denied _ approved quiet =>
    refine ⟨⟨kept.balanced.held, kept.balanced.recorded.taken _⟩, kept.leased, kept.pipes, ?_, ?_, fun _ _ => approved,
      kept.jobless⟩
    · intro id result invocation waiting
      exact nomatch some.inj waiting
    · intro request invocation waiting
      exact nomatch some.inj waiting
  | takes idle quiet =>
    exact .idle ⟨kept.balanced.held, kept.balanced.recorded.taken _⟩ kept.leased kept.pipes idle kept.jobless
  | ended idle quiet =>
    exact .idle ⟨kept.balanced.held, kept.balanced.recorded.taken _⟩ kept.leased kept.pipes idle kept.jobless
  | operates idle | states idle => exact kept
  | finishes idle =>
    exact .idle ⟨kept.balanced.held, kept.balanced.recorded.taken _⟩ kept.leased kept.pipes idle kept.jobless
  | opens idle =>
    exact .idle ⟨kept.balanced.held, kept.balanced.recorded.opened _ _⟩ kept.leased kept.pipes idle kept.jobless
  | answers _ holds =>
    refine ⟨⟨kept.balanced.held.remove holds, kept.balanced.recorded⟩, kept.leased, kept.pipes, ?_, ?_, ?_,
      kept.jobless⟩
    · intro id result invocation waiting
      cases waiting
      exact Finset.notMem_erase _ _
    · intro request invocation waiting
      exact nomatch some.inj waiting
    · intro error waiting
      exact nomatch some.inj waiting
  | dispatches idle => exact kept.dispatch idle orderly
  | employs idle => exact kept.employ idle orderly
  | settles idle => exact kept.settle idle _ _
  | forgets idle isPublic =>
    have jobs : s.jobInvocations = fun _ => none := funext (kept.jobless (by rw [isPublic, Bool.or_true]))
    refine .idle ⟨?_, kept.balanced.recorded⟩ kept.leased nofun idle kept.jobless
    show Held ∅ (fun _ => none) s.jobInvocations
    rw [jobs]
    exact .empty
  | resumes awaited => exact kept.resume awaited

theorem kept_of_reaches (reached : Reaches config (Orderly config) s) : Kept config s := by
  induction reached with
  | start => exact .idle ⟨.empty, nofun⟩ nofun nofun rfl (fun _ _ => rfl)
  | turn _ meets turned kept => exact kept.change meets (turn_change turned)

/-- In every state that orderly turns reach, the live invocations are exactly those
    held by an RPC or by a job, each by one, and every recorded transaction is open. -/
theorem books_balanced (config : Config) (s : Supervisor) (reached : Reaches config (Orderly config) s) :
    s.toBooks.Balanced :=
  (kept_of_reaches reached).balanced

/-- A request that is dispatched and answered. -/
theorem answered_request_balanced :
    (resume {} (.finish "r".toList (.ok .null) "first".toList)
      (rpcResponse "r".toList none none
        (rpc "r".toList "first".toList (.ok ()) (start (.ok ()) {}))).1).1.toBooks.Balanced := by
  have started : turn {} {} (some (.start (.ok ()))) = some (start (.ok ()) {}, []) := rfl
  have called : turn {} (start (.ok ()) {}) (some (.rpc "r".toList "first".toList (.ok ()))) =
      some (rpc "r".toList "first".toList (.ok ()) (start (.ok ()) {}), []) := rfl
  have answered : turn {} (rpc "r".toList "first".toList (.ok ()) (start (.ok ()) {}))
      (some (.message (.rpcResponse "r".toList none none) {})) = some (rpcResponse "r".toList none none
        (rpc "r".toList "first".toList (.ok ()) (start (.ok ()) {}))) := rfl
  apply books_balanced {}
  have closed : turn {} (rpcResponse "r".toList none none
      (rpc "r".toList "first".toList (.ok ()) (start (.ok ()) {}))).1 none = some
        (resume {} (.finish "r".toList (.ok .null) "first".toList) (rpcResponse "r".toList none none
          (rpc "r".toList "first".toList (.ok ()) (start (.ok ()) {}))).1) := rfl
  refine .turn (.turn (.turn (.turn .start ?_ started) ?_ called) ?_ answered) ?_ closed
  · exact trivial
  · exact fun _ => ⟨rfl, Finset.notMem_empty _⟩
  · exact trivial
  · exact trivial

/-- Two requests under one id, then the answer. -/
def reusedRequest : List (Option Event) :=
  [some (.start (.ok ())), some (.rpc "r" "first" (.ok ())),
    some (.rpc "r" "second" (.ok ())), some (.message (.rpcResponse "r" none none) {}), none]

/-- A second request under an id that is still held: the first one's invocation is
    live, and held by nothing, when the id has been answered. -/
theorem reused_request_leaks :
    ∃ s, Reaches {} (fun _ _ => True) s ∧ s.awaiting = none ∧ "first".toList ∈ s.activeInvocations ∧
      (∀ id, s.rpcInvocations id = none) ∧ (∀ msgId, s.jobInvocations msgId = none) ∧ ¬s.toBooks.Balanced := by
  have live : "first".toList ∈ (after {} {} reusedRequest).activeInvocations := by decide
  have free (id : Text) : (after {} {} reusedRequest).rpcInvocations id = none := by
    show remove (put (put (fun _ => none) "r".toList "first".toList) "r".toList "second".toList) "r".toList id = none
    by_cases same : id = "r".toList
    · rw [same, remove_self]
    · rw [remove_of_ne same, put_of_ne same, put_of_ne same]
  have jobs (msgId : Int) : (after {} {} reusedRequest).jobInvocations msgId = none := rfl
  refine ⟨after {} {} reusedRequest, Reaches.start.after (fun _ _ => trivial) _, rfl, live, free, jobs, ?_⟩
  intro balanced
  obtain ⟨id, holds⟩ | ⟨msgId, holds⟩ := (balanced.held.mem_iff _).mp live
  · rw [free id] at holds
    cases holds
  · rw [jobs msgId] at holds
    cases holds

end RootCx.Worker
