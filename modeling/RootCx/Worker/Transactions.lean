import RootCx.Worker.Actors

/-! # Transactions and their invocations

A worker that announces protocol 4 owes, with every message on a transaction, the
invocation that opened it, and the supervisor hands the message on only while that
invocation is live.  The end of an invocation closes its transactions.  An older
worker owes nothing, and a commit that was handed on is not called back.
-/

namespace RootCx.Worker

open RootCx.Text

variable {config : Config} {sys next : System} {s s' : Supervisor} {effects : List Effect} {event : Option Event}
  {chance : Chance} {msg : InboundMessage} {txId : Text}

/-- The effects hand a command of the worker on to the transaction. -/
def Reached (txId : Text) (effects : List Effect) : Prop :=
  .exec txId ∈ effects ∨ .poison txId ∈ effects ∨ ∃ commit, .finish txId commit ∈ effects

/-! ## The invariant -/

/-- The books of the supervisor on transactions agree with who opened them. -/
structure Traced (config : Config) (s : Supervisor) (origins : Text → Option (Option Text × Bool)) : Prop where
  recorded : ∀ {txId invocation}, s.txInvocations txId = some invocation →
    txId ∈ s.openTxs ∧ ∃ echoed, origins txId = some (some invocation, echoed)
  known : ∀ {txId}, txId ∈ s.openTxs → (origins txId).isSome
  live : ∀ {txId named}, txId ∈ s.openTxs → origins txId = some (named, true) →
    ∃ invocation, named = some invocation ∧ s.txInvocations txId = some invocation ∧ s.current invocation
  published : config.publicExecution = true → s.openTxs = ∅

variable {invocation : Text} {named : Option Text}

/-! ## Steps -/

section Steps

variable {origins : Text → Option (Option Text × Bool)}

/-- Sessions leave the books together with their records, and the invocations of
    those that stay go on. -/
theorem Traced.shrink (traced : Traced config s origins) (subset : s'.openTxs ⊆ s.openTxs)
    (entries : ∀ txId invocation, s'.txInvocations txId = some invocation →
      txId ∈ s'.openTxs ∧ s.txInvocations txId = some invocation)
    (stays : ∀ txId ∈ s'.openTxs, s'.txInvocations txId = s.txInvocations txId)
    (goesOn : ∀ txId ∈ s'.openTxs, ∀ invocation, s.txInvocations txId = some invocation → s.current invocation →
      s'.current invocation) : Traced config s' origins := by
  refine ⟨?_, ?_, ?_, ?_⟩
  · intro txId invocation found
    obtain ⟨isOpen, found⟩ := entries txId invocation found
    exact ⟨isOpen, (traced.recorded found).2⟩
  · intro txId isOpen
    exact traced.known (subset isOpen)
  · intro txId named isOpen origin
    obtain ⟨invocation, rfl, found, current⟩ := traced.live (subset isOpen) origin
    exact ⟨invocation, rfl, (stays txId isOpen).trans found, goesOn txId isOpen invocation found current⟩
  · intro isPublic
    exact Finset.subset_empty.mp (traced.published isPublic ▸ subset)

theorem Traced.same (traced : Traced config s origins) (isOpen : s'.openTxs = s.openTxs)
    (entries : s'.txInvocations = s.txInvocations)
    (goesOn : ∀ invocation, s.current invocation → s'.current invocation) : Traced config s' origins := by
  apply traced.shrink
  · rw [isOpen]
  · intro txId invocation found
    rw [entries] at found
    exact ⟨isOpen ▸ (traced.recorded found).1, found⟩
  · intro txId _
    rw [entries]
  · intro txId _ invocation _
    exact goesOn invocation

theorem Traced.taken (traced : Traced config s origins) (txId : Text) : Traced config (taken txId s) origins := by
  apply traced.shrink
  · exact Finset.erase_subset _ _
  · intro other invocation found
    obtain ⟨different, found⟩ := of_remove_eq_some found
    exact ⟨Finset.mem_erase.mpr ⟨different, (traced.recorded found).1⟩, found⟩
  · intro other isOpen
    exact remove_of_ne (Finset.ne_of_mem_erase isOpen)
  · exact fun _ _ _ _ current => current

theorem Traced.emptied (isOpen : s'.openTxs = ∅) (entries : s'.txInvocations = fun _ => none) :
    Traced config s' origins := by
  refine ⟨?_, ?_, ?_, fun _ => isOpen⟩
  · intro txId invocation found
    rw [entries] at found
    cases found
  · intro txId mem
    rw [isOpen] at mem
    cases mem
  · intro txId named mem
    rw [isOpen] at mem
    cases mem

/-- The end of an invocation takes the sessions of its transactions. -/
theorem Traced.close (traced : Traced config s origins)
    (goesOn : ∀ other, other ≠ invocation → s.current other →
      (closeWorkflowInvocation invocation s').1.current other) (isOpen : s'.openTxs = s.openTxs)
    (entries : s'.txInvocations = s.txInvocations) :
    Traced config (closeWorkflowInvocation invocation s').1 origins := by
  apply traced.shrink
  · simp only [closeWorkflowInvocation, isOpen]
    exact Finset.filter_subset _ _
  · intro txId other found
    simp only [closeWorkflowInvocation, isOpen, entries] at found ⊢
    split at found
    case isTrue => cases found
    case isFalse apart => exact ⟨Finset.mem_filter.mpr ⟨(traced.recorded found).1, apart⟩, found⟩
  · intro txId mem
    simp only [closeWorkflowInvocation, isOpen, entries] at mem ⊢
    exact if_neg (Finset.mem_filter.mp mem).2
  · intro txId mem other found current
    simp only [closeWorkflowInvocation, isOpen, entries] at mem
    apply goesOn other _ current
    rintro rfl
    exact (Finset.mem_filter.mp mem).2 found

theorem Traced.resume {wait : Await} (traced : Traced config s origins) (awaited : s.awaiting = some wait) :
    Traced config (resume config wait s).1 origins := by
  cases wait with
  | finish id result invocation =>
    have closed : Traced config (closeWorkflowInvocation invocation
        { s with awaiting := none, actors := s.closeActors (some invocation) }).1 origins := by
      refine traced.close ?_ rfl rfl
      intro other apart current
      left
      refine Finset.mem_erase.mpr ⟨apart, ?_⟩
      obtain live | ⟨_, _, waiting⟩ := current
      · exact live
      · rw [awaited] at waiting
        cases waiting
        exact absurd rfl apart
    refine closed.same ?_ ?_ ?_
    · simp [Worker.resume, Await.scope]
    · simp [Worker.resume, Await.scope]
    · intro other current
      simpa [Supervisor.current, Worker.resume, Await.scope] using current
  | expire request invocation =>
    refine traced.close ?_ rfl rfl
    intro other apart current
    left
    refine Finset.mem_erase.mpr ⟨apart, ?_⟩
    obtain live | ⟨_, _, waiting⟩ := current
    · exact live
    · rw [awaited] at waiting
      cases waiting
  | abandon error => exact .emptied rfl rfl
  | stop => exact .emptied rfl rfl
  | crash restart =>
    obtain ⟨books, -⟩ := resume_crash config restart s
    apply Traced.emptied
    · rw [books]
    · rw [books]

theorem Traced.opens {named : Option Text} (traced : Traced config s origins) (fresh : origins txId = none)
    (unpublished : config.publicExecution = false)
    (capable : (capabilityContext config.invocation s.workerProtocol s.activeInvocations named).isOk = true) :
    Traced config (opened config txId named s)
      (put origins txId (named, echoesInvocation config.invocation s.workerProtocol)) := by
  have apart {other : Text} (isOpen : other ∈ s.openTxs) : other ≠ txId := by
    rintro rfl
    have known := traced.known isOpen
    rw [fresh] at known
    cases known
  refine ⟨?_, ?_, ?_, ?_⟩
  · intro other invocation found
    have old (found : s.txInvocations other = some invocation) : other ∈ (opened config txId named s).openTxs ∧
        ∃ echoed, put origins txId (named, echoesInvocation config.invocation s.workerProtocol) other =
          some (some invocation, echoed) := by
      obtain ⟨isOpen, origin⟩ := traced.recorded found
      exact ⟨Finset.mem_insert_of_mem isOpen, by rwa [put_of_ne (apart isOpen)]⟩
    cases named with
    | none => exact old found
    | some owner =>
      obtain ⟨rfl, rfl⟩ | ⟨-, found⟩ := of_put_eq_some found
      · exact ⟨Finset.mem_insert_self _ _, _, put_self _ _ _⟩
      · exact old found
  · intro other isOpen
    obtain rfl | isOpen := Finset.mem_insert.mp isOpen
    · rw [put_self]
      rfl
    · rw [put_of_ne (apart isOpen)]
      exact traced.known isOpen
  · intro other owner mem origin
    obtain rfl | isOpen := Finset.mem_insert.mp mem
    · -- The new transaction: a worker that echoes begins it under a live invocation.
      rw [put_self, Option.some.injEq, Prod.mk.injEq] at origin
      obtain ⟨rfl, echoes⟩ := origin
      obtain ⟨invocation, rfl, live⟩ := live_of_capabilityContext echoes capable
      exact ⟨invocation, rfl, put_self _ _ _, .inl live⟩
    · rw [put_of_ne (apart isOpen)] at origin
      obtain ⟨invocation, rfl, found, current⟩ := traced.live isOpen origin
      refine ⟨invocation, rfl, ?_, current⟩
      cases named with
      | none => exact found
      | some opener => exact (put_of_ne (apart isOpen)).trans found
  · intro isPublic
    rw [unpublished] at isPublic
    cases isPublic

theorem Traced.dispatch {id : Text} {sent : Except Text Unit} (traced : Traced config s origins)
    (idle : s.awaiting = none) (fresh : invocation ∉ s.activeInvocations) :
    Traced config (rpc id invocation sent s) origins := by
  unfold rpc
  split
  case isTrue => exact traced
  case isFalse =>
    have added : Traced config (({ s with
        activeInvocations := insert invocation s.activeInvocations
        rpcInvocations := put s.rpcInvocations id invocation } : Supervisor).register id) origins :=
      traced.same rfl rfl fun other current => .inl (Finset.mem_insert_of_mem (live_of_current idle current))
    dsimp only
    split
    case isFalse => exact added
    case isTrue =>
      split
      case h_1 => exact added
      case h_2 =>
        refine traced.same (by simp [Supervisor.register]) (by simp [Supervisor.register]) ?_
        intro other current
        have live := live_of_current idle current
        simp only [Supervisor.current, resolve_toBooks]
        left
        show other ∈ (insert invocation s.activeInvocations).erase invocation
        rwa [Finset.erase_insert fresh]

theorem Traced.employ {id : Text} {payload : Json} {sent : Bool} (traced : Traced config s origins)
    (idle : s.awaiting = none) (fresh : invocation ∉ s.activeInvocations) :
    Traced config (job id invocation payload sent s) origins := by
  have goesOn (other : Text) (current : s.current other) : other ∈ insert invocation s.activeInvocations :=
    Finset.mem_insert_of_mem (live_of_current idle current)
  unfold job
  split
  case isTrue => exact traced
  case isFalse =>
    split
    case isTrue => exact traced
    case isFalse =>
      dsimp only
      split
      case isFalse => exact traced.same rfl rfl fun other current => .inl (goesOn other current)
      case isTrue =>
        split
        case isTrue =>
          rw [Finset.erase_insert fresh]
          exact traced.same rfl rfl fun other current => .inl (live_of_current idle current)
        case isFalse =>
          split
          · exact traced.same rfl rfl fun other current => .inl (goesOn other current)
          · exact traced.same rfl rfl fun other current => .inl (goesOn other current)

theorem Traced.settle (traced : Traced config s origins) (idle : s.awaiting = none) (id : Text) (error : Option Text) :
    Traced config (jobResult id error s).1 origins := by
  unfold jobResult
  split
  case h_1 => exact traced
  case h_2 msgId _ =>
    have closed : Traced config (closeJob msgId s).1 origins := by
      unfold closeJob
      split
      case h_2 => exact traced
      case h_1 invocation _ =>
        refine traced.close ?_ rfl rfl
        intro other apart current
        exact .inl (Finset.mem_erase.mpr ⟨apart, live_of_current idle current⟩)
    exact closed.same rfl rfl fun _ current => current

end Steps

/-! ## Runs -/

theorem traced_start (config : Config) : Traced config {} ({} : System).origins := .emptied rfl rfl

/-- No transaction starts among the effects. -/
def Unopened (effects : List Effect) : Prop := ∀ txId named, Effect.begun txId named ∉ effects

theorem Quiet.unopened (quiet : Quiet effects) : Unopened effects :=
  fun _ _ mem => nomatch quiet _ mem

theorem jobResult_unopened (id : Text) (error : Option Text) (s : Supervisor) : Unopened (jobResult id error s).2 := by
  intro txId named mem
  obtain quiet | ⟨msgId, payload, same⟩ := jobResult_mem mem
  · cases quiet
  · unfold settlement at same
    split at same <;> cases same

theorem Traced.turn (traced : Traced config sys.supervisor sys.origins) (possible : sys.Possible event)
    (turned : turn config sys.supervisor event = some (s', effects)) :
    Traced config s' (sys.perform config (s', effects)).origins := by
  have calm (unopened : Unopened effects) (kept : Traced config s' sys.origins) :
      Traced config s' (sys.perform config (s', effects)).origins := by
    rwa [System.origins_perform sys unopened]
  cases turn_change turned with
  | kept idle books awaiting _ _ _ quiet =>
    refine calm quiet.unopened (traced.same (by rw [books]) (by rw [books]) ?_)
    intro invocation current
    left
    rw [books]
    exact live_of_current idle current
  | waits idle =>
    refine calm quiet_nil.unopened (traced.same rfl rfl ?_)
    intro invocation current
    have live := live_of_current idle current
    exact .inl live
  | denied idle _ quiet =>
    refine calm quiet.unopened ((traced.taken _).same rfl rfl ?_)
    intro invocation current
    have live := live_of_current (s := sys.supervisor) idle current
    exact .inl live
  | takes _ quiet => exact calm quiet.unopened (traced.taken _)
  | ended _ quiet => exact calm quiet.unopened ((traced.taken _).same rfl rfl fun _ current => current)
  | operates => exact calm (by simp [Unopened]) traced
  | states _ _ _ _ _ _ reaches =>
    refine calm ?_ traced
    intro txId named mem
    obtain same | same | quiet := reaches _ mem
    · cases same
    · cases same
    · cases quiet
  | finishes => exact calm (by simp [Unopened]) (traced.taken _)
  | opens idle heard session capable =>
    rw [System.origins_opens sys]
    refine traced.opens ?_ ?_ capable
    · simp [System.origins, possible _ session]
    · rw [← Bool.not_eq_true]
      intro isPublic
      cases heard.published isPublic
  | @answers _ id result invocation idle held =>
    refine calm quiet_nil.unopened (traced.same rfl rfl ?_)
    intro other current
    by_cases same : other = invocation
    · exact .inr ⟨id, result, by rw [same]⟩
    · exact .inl (Finset.mem_erase.mpr ⟨same, live_of_current idle current⟩)
  | dispatches idle => exact calm quiet_nil.unopened (traced.dispatch idle possible)
  | employs idle => exact calm quiet_nil.unopened (traced.employ idle possible)
  | settles idle => exact calm (jobResult_unopened _ _ _) (traced.settle idle _ _)
  | forgets _ isPublic =>
    have unopened := traced.published isPublic
    refine calm quiet_nil.unopened (traced.shrink (Finset.Subset.refl _) ?_ (fun _ _ => rfl) ?_)
    · exact fun txId invocation found => ⟨(traced.recorded found).1, found⟩
    · intro txId isOpen
      have isOpen : txId ∈ sys.supervisor.openTxs := isOpen
      rw [unopened] at isOpen
      cases isOpen
  | resumes awaited => exact calm (resume_quiet _ _ _).unopened (traced.resume awaited)

theorem System.Move.origins (moved : System.Move sys next) : next.origins = sys.origins := by
  cases moved with
  | taskEnds | strayEnds => rfl
  | @acts txId actor after move running moved =>
    funext other
    simp only [System.origins]
    by_cases here : other = txId
    · rw [here, put_self, running, Option.map_some, Option.map_some, TxActor.origin_move moved]
    · rw [put_of_ne here]

theorem System.Step.traced (stepped : System.Step config sys next) (traced : Traced config sys.supervisor sys.origins) :
    Traced config next.supervisor next.origins := by
  cases stepped with
  | turn possible drained turned =>
    rw [System.perform_supervisor]
    exact traced.turn possible turned
  | beside moved =>
    rw [moved.origins, moved.supervisor]
    exact traced

theorem traced_of_reaches (reached : System.Reaches config sys) : Traced config sys.supervisor sys.origins := by
  induction reached with
  | start => exact traced_start config
  | step _ stepped traced => exact stepped.traced traced

/-! ## Messages -/

/-- The transaction is rolled back: its session is used up for that, or its task is
    cancelled. -/
def Dismissed (txId : Text) (effects : List Effect) : Prop :=
  (∃ reply, .abort txId reply ∈ effects) ∨ .cancel txId ∈ effects

/-- A message on a transaction is refused: it does not reach the transaction, which
    is rolled back if it was open and is open no more; the worker gets an error, or
    its process is ended. -/
structure Refuses (txId : Text) (s : Supervisor) (handled : Handled) : Prop where
  unreached : ¬Reached txId handled.2
  closed : txId ∉ handled.1.openTxs
  dismissed : txId ∈ s.openTxs → Dismissed txId handled.2
  answered : (∃ reply, .reply reply ∈ handled.2) ∨ (∃ reply, .abort txId reply ∈ handled.2) ∨
    handled.1.status = .crashed ∨ ∃ error, handled.1.awaiting = some (.abandon error)

theorem unreached_of_quiet (quiet : Quiet effects) : ¬Reached txId effects := by
  rintro (mem | mem | ⟨commit, mem⟩)
  · exact nomatch quiet _ mem
  · exact nomatch quiet _ mem
  · exact nomatch quiet _ mem

theorem refuseTx_refuses (txId : Text) (aborted unknown : Reply) (s : Supervisor) :
    Refuses txId s (refuseTx txId aborted unknown s) := by
  unfold refuseTx
  split
  case isTrue =>
    have quiet : Quiet [.abort txId aborted] := by simp [Quiet, Effect.quiet]
    exact ⟨unreached_of_quiet quiet, Finset.notMem_erase _ _, fun _ => .inl ⟨aborted, List.mem_singleton_self _⟩,
      .inr (.inl ⟨aborted, List.mem_singleton_self _⟩)⟩
  case isFalse closed =>
    exact ⟨unreached_of_quiet (quiet_reply unknown), closed, fun isOpen => absurd isOpen closed,
      .inl ⟨unknown, List.mem_singleton_self _⟩⟩

theorem perform_refuses (names : msg.transaction = some txId) (data : msg.dataInvocation = some named)
    (refused : s.admits config txId named = false) : Refuses txId s (perform config chance msg s) := by
  cases msg with
  | sqlExec id invocationId other =>
    cases names
    cases data
    simp only [perform, sqlExec, refused]
    exact refuseTx_refuses _ _ _ _
  | sqlCommit id invocationId other | sqlRollback id invocationId other =>
    cases names
    cases data
    simp only [perform, sqlCommit, sqlRollback, sqlEnd, refused]
    exact refuseTx_refuses _ _ _ _
  | _ => cases names

theorem publicDenied_transaction (chance : Chance) (names : msg.transaction = some txId) :
    publicDenied chance msg ≠ .ok none := by
  cases msg with
  | sqlExec | sqlCommit | sqlRollback =>
    unfold publicDenied
    intro passed
    split at passed
    case h_1 => cases passed
    case h_2 => split at passed <;> cases passed
    case h_3 free => cases free
  | _ => cases names

theorem performScoped_refuses (names : msg.transaction = some txId) (data : msg.dataInvocation = some named)
    (refused : s.admits config txId named = false) (published : config.publicExecution = true → s.openTxs = ∅) :
    Refuses txId s (performScoped config chance msg s) := by
  unfold performScoped
  split
  case isFalse => exact perform_refuses names data refused
  case isTrue isPublic =>
    -- A public worker has no transaction to lose.
    have closed : txId ∉ s.openTxs := by
      rw [published isPublic]
      exact Finset.notMem_empty _
    unfold performPublic
    split
    case h_1 =>
      exact ⟨unreached_of_quiet quiet_nil, closed, fun isOpen => absurd isOpen closed, .inr (.inr (.inl rfl))⟩
    case h_2 reply _ =>
      exact ⟨unreached_of_quiet (quiet_reply _), closed, fun isOpen => absurd isOpen closed,
        .inl ⟨reply, List.mem_singleton_self _⟩⟩
    case h_3 passed => exact absurd passed (publicDenied_transaction chance names)

/-- The gate of an approved worker lets a message on a transaction through, or takes
    the transaction's session and cancels its task. -/
theorem approvedDenied_transaction (chance : Chance) (s : Supervisor) (names : msg.transaction = some txId) :
    (approvedDenied chance msg s).2 = .ok false ∨
      (approvedDenied chance msg s).1.1 = taken txId s ∧ .cancel txId ∈ (approvedDenied chance msg s).1.2 ∧
        ((approvedDenied chance msg s).2 = .ok true → ∃ reply, .reply reply ∈ (approvedDenied chance msg s).1.2) := by
  have decided : ∃ answer, approvedCapabilityDenial msg s.workerProtocol s.activeInvocations = .ok answer := by
    cases msg with
    | sqlExec | sqlCommit | sqlRollback =>
      simp only [approvedCapabilityDenial, InboundMessage.dataInvocation]
      split
      · exact ⟨_, rfl⟩
      · exact ⟨_, rfl⟩
    | _ => cases names
  obtain ⟨answer, decided⟩ := decided
  unfold approvedDenied denyTransaction
  rw [decided, names]
  cases answer with
  | none =>
    left
    dsimp only
    split
    · cases names
    · rfl
  | some reply =>
    right
    cases chance.room with
    | true => exact ⟨rfl, by simp, fun _ => ⟨reply, by simp⟩⟩
    | false => exact ⟨rfl, by simp, fun passed => nomatch passed⟩

theorem message_refuses (names : msg.transaction = some txId) (data : msg.dataInvocation = some named)
    (refused : s.admits config txId named = false) (published : config.publicExecution = true → s.openTxs = ∅) :
    Refuses txId s (message config chance msg s) := by
  unfold message
  split
  case isFalse => exact performScoped_refuses names data refused published
  case isTrue =>
    split
    case h_3 => exact performScoped_refuses names data refused published
    case h_1 handled denied =>
      have quiet := (approvedDenied_cases chance msg s).1
      have gate := approvedDenied_transaction chance s names
      rw [denied] at quiet gate
      obtain passed | ⟨taken, cancelled, answered⟩ := gate
      · cases passed
      · refine ⟨unreached_of_quiet quiet, ?_, fun _ => .inr cancelled, .inl (answered rfl)⟩
        rw [taken]
        exact Finset.notMem_erase _ _
    case h_2 after emitted error denied =>
      have quiet := (approvedDenied_cases chance msg s).1
      have gate := approvedDenied_transaction chance s names
      rw [denied] at quiet gate
      obtain passed | ⟨taken, cancelled, -⟩ := gate
      · cases passed
      · refine ⟨unreached_of_quiet quiet, ?_, fun _ => .inr cancelled, .inr (.inr (.inr ⟨error, rfl⟩))⟩
        obtain rfl : after = Worker.taken txId s := taken
        exact Finset.notMem_erase _ _

/-- The message names the invocation that opened the transaction, and it is live. -/
def Continues (sys : System) (msg : InboundMessage) (txId : Text) : Prop :=
  ∃ invocation echoed, msg.dataInvocation = some (some invocation) ∧ invocation ∈ sys.supervisor.activeInvocations ∧
    sys.origins txId = some (some invocation, echoed)

/-- What a turn hands on to a transaction, a message on that transaction brought. -/
theorem reached_message (turned : turn config s event = some (s', effects)) (reached : Reached txId effects) :
    ∃ msg chance named, event = some (.message msg chance) ∧ msg.transaction = some txId ∧
      msg.dataInvocation = some named ∧ s.admits config txId named = true ∧ txId ∈ s.openTxs := by
  have calm {goal : Prop} (quiet : Quiet effects) : goal := absurd reached (unreached_of_quiet quiet)
  cases turn_change turned with
  | kept _ _ _ _ _ _ quiet | denied _ _ quiet | takes _ quiet | ended _ quiet => exact calm quiet
  | waits | answers | dispatches | employs | forgets => exact calm quiet_nil
  | operates => simp [Reached] at reached
  | opens => simp [Reached] at reached
  | @states msg chance other named _ _ _ data names admitted isOpen reaches =>
    have same : other = txId := by
      obtain mem | mem | ⟨commit, mem⟩ := reached
      all_goals
        obtain same | same | quiet := reaches _ mem
        · cases same
          try rfl
        · cases same
          try rfl
        · cases quiet
    subst same
    exact ⟨msg, chance, named, rfl, names, data, admitted, isOpen⟩
  | @finishes msg chance other named commit _ _ data names admitted isOpen =>
    obtain rfl : other = txId := by
      simpa [Reached, eq_comm] using reached
    exact ⟨msg, chance, named, rfl, names, data, admitted, isOpen⟩
  | settles =>
    obtain mem | mem | ⟨commit, mem⟩ := reached
    all_goals
      obtain quiet | ⟨msgId, payload, same⟩ := jobResult_mem mem
      · cases quiet
      · unfold settlement at same
        split at same <;> cases same
  | resumes => exact calm (resume_quiet _ _ _)

/-- An admitted message of a worker that echoes names the live invocation that
    opened the transaction. -/
theorem continues_of_admits (traced : Traced config sys.supervisor sys.origins)
    (echoes : echoesInvocation config.invocation sys.supervisor.workerProtocol = true)
    (data : msg.dataInvocation = some named) (admitted : sys.supervisor.admits config txId named = true) :
    Continues sys msg txId := by
  obtain ⟨invocation, rfl, recorded, live⟩ := admitted_of_echoes echoes admitted
  obtain ⟨-, echoed, origin⟩ := traced.recorded recorded
  exact ⟨invocation, echoed, data, live, origin⟩

/-- In every run of a worker under a scope, and for every message it sends: what
    reaches a transaction is a message that names it, and while the worker speaks
    protocol 4 the message also names the live invocation that opened it; every
    other message on a transaction is refused; and nothing reaches a transaction
    that was opened under protocol 4 once its invocation has ended. -/
theorem tx_messages_continue (config : Config) (isScoped : config.invocation.isScoped = true) (sys : System)
    (reached : System.Reaches config sys) (connected : sys.supervisor.connected = true) (msg : InboundMessage)
    (chance : Chance) (s' : Supervisor) (effects : List Effect)
    (turned : turn config sys.supervisor (some (.message msg chance)) = some (s', effects)) (txId : Text) :
    (Reached txId effects → msg.transaction = some txId ∧
      (INVOCATION_PROTOCOL_VERSION ≤ sys.supervisor.workerProtocol → Continues sys msg txId) ∧
      ∀ invocation, sys.origins txId = some (some invocation, true) →
        invocation ∈ sys.supervisor.activeInvocations) ∧
    (msg.transaction = some txId → INVOCATION_PROTOCOL_VERSION ≤ sys.supervisor.workerProtocol →
      ¬Continues sys msg txId → Refuses txId sys.supervisor (s', effects)) := by
  have traced := traced_of_reaches reached
  obtain ⟨idle, handled⟩ := turn_event turned
  have echoes (protocol : INVOCATION_PROTOCOL_VERSION ≤ sys.supervisor.workerProtocol) :
      echoesInvocation config.invocation sys.supervisor.workerProtocol = true := by
    simp [echoesInvocation, isScoped, protocol]
  constructor
  · intro hits
    obtain ⟨other, _, named, same, names, data, admitted, isOpen⟩ := reached_message turned hits
    cases same
    refine ⟨names, fun protocol => continues_of_admits traced (echoes protocol) data admitted, ?_⟩
    intro invocation origin
    obtain ⟨_, same, -, current⟩ := traced.live isOpen origin
    cases same
    exact live_of_current idle current
  · intro names protocol broken
    have data : ∃ named, msg.dataInvocation = some named := by
      cases msg with
      | sqlExec | sqlCommit | sqlRollback => exact ⟨_, rfl⟩
      | _ => cases names
    obtain ⟨named, data⟩ := data
    have refused : sys.supervisor.admits config txId named = false := by
      rw [← Bool.not_eq_true]
      exact fun admitted => broken (continues_of_admits traced (echoes protocol) data admitted)
    have refuses : Refuses txId sys.supervisor (message config chance msg sys.supervisor) :=
      message_refuses names data refused traced.published
    simp only [handle, connected, if_true] at handled
    rwa [handled] at refuses

/-! ## A worker of one action -/

def payConfig : Config := { invocation := .action "pay" }

/-- The action is called, and the worker begins transaction `t`. -/
def paying (protocol : Nat) (named : Option Text) : System :=
  ((((({} : System).turns payConfig (some (.start (.ok ())))).turns payConfig
    (some (.message (.discover protocol) {}))).turns payConfig (some (.rpc "r" "i" (.ok ())))).turns payConfig
      (some (.message (.sqlBegin "b" named) { begun := .session "t" })))

theorem paying_reached (protocol : Nat) (named : Option Text) : System.Reaches payConfig (paying protocol named) := by
  refine .turns (.turns (.turns (.turns .start rfl ?_) rfl ?_) rfl ?_) rfl ?_
  · exact trivial
  · exact fun _ failed => nomatch failed
  · exact Finset.notMem_empty _
  · intro txId session
    rfl

/-- The commit under the live invocation reaches the transaction. -/
theorem commit_continues :
    Reached "t".toList [.finish "t".toList true] ∧
      Continues (paying 4 (some "i".toList)) (.sqlCommit "c".toList (some "i".toList) "t".toList) "t".toList := by
  have turned : turn payConfig (paying 4 (some "i".toList)).supervisor
      (some (.message (.sqlCommit "c".toList (some "i".toList) "t".toList) {})) =
        some (taken "t".toList (paying 4 (some "i".toList)).supervisor, [.finish "t".toList true]) := rfl
  have reached : Reached "t".toList [.finish "t".toList true] := .inr (.inr ⟨true, List.mem_singleton_self _⟩)
  exact ⟨reached,
    ((tx_messages_continue payConfig rfl _ (paying_reached 4 _) rfl _ _ _ _ turned _).1 reached).2.1 (Nat.le_refl _)⟩

/-- The worker answers the call. -/
def answer (sys : System) : System :=
  (sys.turns payConfig (some (.message (.rpcResponse "r" none none) {}))).turns payConfig none

theorem answer_reached {sys : System} (reached : System.Reaches payConfig sys) :
    System.Reaches payConfig (answer sys) := by
  refine .turns (.turns reached rfl ?_) rfl ?_
  · exact fun _ failed => nomatch failed
  · exact trivial

/-- The worker commits transaction `t` under its invocation and answers the call. -/
def paid : System :=
  answer ((paying 4 (some "i")).turns payConfig
    (some (.message (.sqlCommit "c" (some "i") "t") {})))

/-- The task of `t`, with the commit in its queue. -/
def payment : TxActor := { invocation := some "i", echoed := true, queue := [.commit] }

theorem paid_reached : System.Reaches payConfig paid :=
  answer_reached (.turns (paying_reached 4 _) rfl fun _ failed => nomatch failed)

/-- An older worker's commit reaches the transaction when the call is over and no
    invocation is live; and the commit of a worker that echoes, handed on in time,
    is carried out when its invocation has ended. -/
theorem late_commits :
    (∃ sys s', System.Reaches payConfig sys ∧ sys.supervisor.activeInvocations = ∅ ∧
      turn payConfig sys.supervisor (some (.message (.sqlCommit "c".toList none "t".toList) {})) =
        some (s', [.finish "t".toList true])) ∧
    ∃ sys next, System.Reaches payConfig sys ∧ System.Step payConfig sys next ∧
      sys.supervisor.workerProtocol = 4 ∧ sys.supervisor.activeInvocations = ∅ ∧
      (sys.txs "t".toList).map TxActor.committed = some false ∧
      (next.txs "t".toList).map TxActor.committed = some true := by
  constructor
  · exact ⟨answer (paying 1 none), _, answer_reached (paying_reached 1 none), by decide, rfl⟩
  · have queued : paid.txs "t".toList = some payment := rfl
    have begins : payment.move (.receive false) = some { payment with phase := .finalizing } := rfl
    have lands : ({ payment with phase := .finalizing } : TxActor).move (.landed true) =
        some { payment.over with committed := true } := rfl
    exact ⟨_, _, .step paid_reached (.beside (.acts queued begins)),
      .beside (.acts (put_self _ _ _) lands), rfl, by decide, rfl, rfl⟩

end RootCx.Worker
