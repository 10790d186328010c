import RootCx.Integrations.Connections
import RootCx.Lib.Except

/-! # The connection behind a call

Which connection `resolve_credentials` should serve, and in which states it does.  The
fallback query returns two rows only, and the first delegation is taken whether or not
its target can be used: a delegation that lost its target hides whatever comes after it.
-/

namespace RootCx.Integrations

open RootCx.Text List Option

variable (backend : Backend) (store : Store) (integration user : Text) (app : Option Text)

/-- A connection that exists and has a stored credential. -/
def Usable (id : Text) : Prop := (store.connection id).isSome = true ∧ (store.credential integration id).isSome = true

/-- No credential is left of a connection that is gone. -/
def NotOrphaned (id : Text) : Prop := (store.connection id).isSome = true ∨ store.credential integration id = none

/-- The connection that a delegation reaches. -/
def Reaches (row : Connection) (id : Text) : Prop :=
  delegateOf backend store integration row.id = some id ∧ Usable store integration id

/-- The connections that a call may act through, in the order of preference: the one that
    is bound, one that an active delegation of the user reaches, and a direct one. -/
inductive Chosen : Text → Prop where
  | bound {id} (named : bound store integration app user = some id) : Chosen id
  | delegated {row id} (free : Integrations.bound store integration app user = none)
    (member : row ∈ store.ofKind integration user .delegation) (reaches : Reaches backend store integration row id) : Chosen id
  | direct {row} (free : Integrations.bound store integration app user = none)
    (alone : ∀ other ∈ store.ofKind integration user .delegation, ∀ id, ¬Reaches backend store integration other id)
    (member : row ∈ store.ofKind integration user .direct) : Chosen row.id

/-- A connection's own configuration, credential and owner. -/
structure Handed (id : Text) (resolved : Resolved) : Prop where
  connectionId : resolved.connectionId = some id
  own : ∃ row raw, store.connection id = some row ∧ store.credential integration id = some raw ∧
    resolved.effectiveUser = row.userId ∧ resolved.config = backend.config integration row.configId ∧
    backend.credentialsForWorker integration id resolved.config (backend.parse raw) = .ok resolved.credentials

/-- No credential, for the user itself. -/
structure Empty (resolved : Resolved) : Prop where
  connectionId : resolved.connectionId = none
  credentials : resolved.credentials = .null
  effectiveUser : resolved.effectiveUser = user

/-- What a call should yield: the credential of a chosen connection, or none where no chosen
    connection can be used; it fails only where the renewal of a chosen one does. -/
def Right : Except RenewError Resolved → Prop
  | .ok resolved =>
    (∃ id, Chosen backend store integration user app id ∧ Handed backend store integration id resolved) ∨
      (∀ id, Chosen backend store integration user app id → ¬Usable store integration id) ∧ Empty user resolved
  | .error failure =>
    ∃ id row raw, Chosen backend store integration user app id ∧ store.connection id = some row ∧
      store.credential integration id = some raw ∧
      backend.credentialsForWorker integration id (backend.config integration row.configId) (backend.parse raw) = .error failure

/-! ## What a call picks -/

def firstDelegate : Option Text :=
  ((candidates store integration user).find? (·.kind = .delegation)).bind (delegateOf backend store integration ·.id)

def firstDirect : Option Text := ((candidates store integration user).find? (·.kind = .direct)).map (·.id)

/-- The connection that a call resolves, if any. -/
def picked : Option Text :=
  (bound store integration app user).or
    ((firstDelegate backend store integration user).or (firstDirect store integration user))

variable {backend store integration user app}

theorem resolveCredentials_eq :
    resolveCredentials backend .calm store integration user app =
      match picked backend store integration user app with
      | some id => resolveByConnectionId backend .calm store integration id user
      | none => .ok ⟨backend.config integration none, .null, user, none⟩ := by
  unfold resolveCredentials picked
  cases bound store integration app user with
  | some id => rfl
  | none =>
    change (match firstDelegate backend store integration user with
      | some source => _
      | none => _) = _
    cases firstDelegate backend store integration user with
    | some source => rfl
    | none =>
      rw [none_or, none_or, firstDirect]
      change resolveDirect backend .calm store integration (candidates store integration user) user = _
      rw [resolveDirect]
      cases (candidates store integration user).find? (·.kind = .direct) <;> rfl

variable {kind : Kind} {row : Connection} {id : Text}

theorem kind_of_mem (mem : row ∈ store.ofKind integration user kind) : row.kind = kind := by
  rw [Store.ofKind, mem_insertionSort, mem_filter, Bool.and_eq_true] at mem
  exact of_decide_eq_true mem.2.2

theorem find_all {rows : List Connection} (all : ∀ row ∈ rows, row.kind = kind) :
    rows.find? (·.kind = kind) = rows.head? := by
  cases rows with
  | nil => rfl
  | cons row rest => simp [all row mem_cons_self]

theorem find_other {other : Kind} {rows : List Connection} (all : ∀ row ∈ rows, row.kind = other)
    (differ : other ≠ kind) : rows.find? (·.kind = kind) = none := by
  rw [find?_eq_none]
  intro row mem
  simp [all row mem, differ]

theorem find_delegation :
    (candidates store integration user).find? (·.kind = .delegation) = (store.ofKind integration user .delegation).head? := by
  have direct : ((store.ofKind integration user .direct).take 2).find? (·.kind = .delegation) = none :=
    find_other (fun _ mem => kind_of_mem (mem_of_mem_take mem)) nofun
  unfold candidates
  cases rows : store.ofKind integration user .delegation with
  | nil => exact direct
  | cons row rest =>
    have kind : row.kind = .delegation := kind_of_mem (rows ▸ mem_cons_self)
    simp [kind]

theorem find_direct :
    (candidates store integration user).find? (·.kind = .direct) =
      if (store.ofKind integration user .delegation).length ≤ 1 then (store.ofKind integration user .direct).head? else none := by
  have direct : ∀ count, 0 < count →
      ((store.ofKind integration user .direct).take count).find? (·.kind = .direct) = (store.ofKind integration user .direct).head? := by
    intro count some'
    rw [find_all fun _ mem => kind_of_mem (mem_of_mem_take mem), head?_take, if_neg (by omega)]
  have delegation : ∀ row ∈ store.ofKind integration user .delegation, row.kind ≠ .direct :=
    fun row mem is => nomatch (kind_of_mem mem).symm.trans is
  unfold candidates
  match rows : store.ofKind integration user .delegation with
  | [] => exact direct 2 (by omega)
  | [row] =>
    have other := delegation row (rows ▸ mem_cons_self)
    rw [singleton_append, take_succ_cons, find?_cons_of_neg (by simpa using other)]
    exact direct 1 (by omega)
  | first :: second :: rest =>
    have one := delegation first (rows ▸ mem_cons_self)
    have two := delegation second (rows ▸ mem_cons_of_mem _ mem_cons_self)
    simp [one, two]

/-! ## One connection -/

theorem resolve_handed {raw : Text} (exists' : store.connection id = some row)
    (stored : store.credential integration id = some raw) :
    resolveByConnectionId backend .calm store integration id user =
      (backend.credentialsForWorker integration id (backend.config integration row.configId) (backend.parse raw)).map fun credentials =>
        ⟨backend.config integration row.configId, credentials, row.userId, some id⟩ := by
  simp [resolveByConnectionId, okFlatten, configOrNull, Outage.calm, exists', stored]

theorem resolve_missing (missing : store.credential integration id = none) :
    ∃ config, resolveByConnectionId backend .calm store integration id user = .ok ⟨config, .null, user, none⟩ :=
  ⟨configOrNull backend .calm integration ((store.connection id).bind (·.configId)),
    by simp [resolveByConnectionId, okFlatten, Outage.calm, missing]⟩

theorem resolve_named {raw : Text} {resolved : Resolved} (stored : store.credential integration id = some raw)
    (ran : resolveByConnectionId backend .calm store integration id user = .ok resolved) :
    resolved.connectionId = some id := by
  simp only [resolveByConnectionId, okFlatten, configOrNull, Outage.calm, stored, Bool.false_eq_true, if_false] at ran
  cases worker : backend.credentialsForWorker integration id
      (backend.config integration ((store.connection id).bind (·.configId))) (backend.parse raw) with
  | error failure =>
    rw [worker] at ran
    cases ran
  | ok credentials =>
    rw [worker] at ran
    cases ran
    rfl

/-! ## Where the right connection is picked -/

variable (backend store integration user app)

/-- The connection that is picked has not left its credential behind, and one that can be
    used is picked where there is one. -/
def Fair : Prop :=
  (∀ id, picked backend store integration user app = some id → NotOrphaned store integration id) ∧
    ((∃ id, Chosen backend store integration user app id ∧ Usable store integration id) →
      ∃ id, picked backend store integration user app = some id ∧ Usable store integration id)

variable {backend store integration user app}

theorem alone_names (none' : firstDelegate backend store integration user = none)
    (few : (store.ofKind integration user .delegation).length ≤ 1)
    (mem : row ∈ store.ofKind integration user .delegation) :
    delegateOf backend store integration row.id = none := by
  rw [firstDelegate, find_delegation] at none'
  match rows : store.ofKind integration user .delegation with
  | [] => exact absurd (rows ▸ mem) not_mem_nil
  | [only] =>
    rw [rows] at none' mem
    obtain rfl := mem_singleton.mp mem
    exact none'
  | _ :: _ :: _ =>
    rw [rows] at few
    simp at few

theorem firstDirect_eq_some : firstDirect store integration user = some id ↔
    (store.ofKind integration user .delegation).length ≤ 1 ∧
      ∃ row ∈ (store.ofKind integration user .direct).head?, row.id = id := by
  rw [firstDirect, find_direct, map_eq_some_iff]
  split
  · next few => simp [few]
  · next many => simp [many]

theorem firstDelegate_eq_some : firstDelegate backend store integration user = some id ↔
    ∃ row ∈ (store.ofKind integration user .delegation).head?, delegateOf backend store integration row.id = some id := by
  rw [firstDelegate, find_delegation, bind_eq_some_iff]
  rfl

theorem chosen_of_picked (picks : picked backend store integration user app = some id)
    (usable : Usable store integration id) : Chosen backend store integration user app id := by
  unfold picked at picks
  cases free : bound store integration app user with
  | some other =>
    rw [free, some_or] at picks
    exact .bound (free.trans picks)
  | none =>
    rw [free, none_or] at picks
    cases delegates : firstDelegate backend store integration user with
    | some other =>
      rw [delegates, some_or] at picks
      cases picks
      obtain ⟨row, first, names⟩ := firstDelegate_eq_some.mp delegates
      exact .delegated free (mem_of_mem_head? first) ⟨names, usable⟩
    | none =>
      rw [delegates, none_or] at picks
      obtain ⟨few, row, first, rfl⟩ := firstDirect_eq_some.mp picks
      refine .direct free ?_ (mem_of_mem_head? first)
      intro other mem id reaches
      exact nomatch reaches.1.symm.trans (alone_names delegates few mem)

theorem right_of_fair (fair : Fair backend store integration user app) :
    Right backend store integration user app (resolveCredentials backend .calm store integration user app) := by
  rw [resolveCredentials_eq]
  cases picks : picked backend store integration user app with
  | none =>
    refine .inr ⟨?_, rfl, rfl, rfl⟩
    intro id chosen usable
    obtain ⟨other, found, -⟩ := fair.2 ⟨id, chosen, usable⟩
    exact nomatch picks.symm.trans found
  | some id =>
    cases stored : store.credential integration id with
    | none =>
      have ⟨config, resolved⟩ : ∃ config, resolveByConnectionId backend .calm store integration id user = .ok ⟨config, .null, user, none⟩ :=
        resolve_missing stored
      simp only [resolved]
      refine .inr ⟨?_, rfl, rfl, rfl⟩
      intro other chosen usable
      obtain ⟨found, same, usable⟩ := fair.2 ⟨other, chosen, usable⟩
      cases picks.symm.trans same
      have none' := usable.2
      rw [stored] at none'
      cases none'
    | some raw =>
      obtain row | missing := fair.1 id picks
      · obtain ⟨row, exists'⟩ := isSome_iff_exists.mp row
        have chosen := chosen_of_picked picks ⟨isSome_iff_exists.mpr ⟨row, exists'⟩, by simp [stored]⟩
        simp only [resolve_handed exists' stored]
        cases worker : backend.credentialsForWorker integration id (backend.config integration row.configId) (backend.parse raw) with
        | error failure => exact ⟨id, row, raw, chosen, exists', stored, worker⟩
        | ok credentials => exact .inl ⟨id, chosen, rfl, row, raw, exists', stored, rfl, rfl, worker⟩
      · exact nomatch stored.symm.trans missing

theorem fair_of_right {resolved : Resolved} (ran : resolveCredentials backend .calm store integration user app = .ok resolved)
    (right : Right backend store integration user app (.ok resolved)) : Fair backend store integration user app := by
  rw [resolveCredentials_eq] at ran
  obtain ⟨id, chosen, handed, row, raw, exists', stored, -⟩ | ⟨unusable, empty⟩ := right
  · -- the call answers under an id, so that is the one that it picked
    have picks : picked backend store integration user app = some id := by
      cases picks : picked backend store integration user app with
      | none =>
        rw [picks] at ran
        cases ran
        cases handed
      | some other =>
        rw [picks] at ran
        cases has : store.credential integration other with
        | none =>
          have ⟨config, missing⟩ : ∃ config, resolveByConnectionId backend .calm store integration other user = .ok ⟨config, .null, user, none⟩ :=
            resolve_missing has
          cases missing.symm.trans ran
          cases handed
        | some found => rw [some.inj ((resolve_named has ran).symm.trans handed)]
    have usable : Usable store integration id := ⟨by simp [exists'], by simp [stored]⟩
    refine ⟨fun other same => ?_, fun _ => ⟨id, picks, usable⟩⟩
    cases picks.symm.trans same
    exact .inl usable.1
  · refine ⟨fun id picks => ?_, fun ⟨id, chosen, usable⟩ => absurd usable (unusable id chosen)⟩
    rw [picks] at ran
    cases has : store.credential integration id with
    | none => exact .inr has
    | some raw => exact nomatch (resolve_named has ran).symm.trans empty.connectionId

/-! ## The states in which it is -/

variable (backend store integration user app)

/-- Without a binding: what the oldest delegation names has not left its credential behind;
    it reaches a connection where some delegation does; and where none does but a direct
    connection has a credential, the oldest direct one has, and there is at most one
    delegation, which names nothing. -/
structure FallbackSettled : Prop where
  first : ∀ row ∈ (store.ofKind integration user .delegation).head?, ∀ id,
    delegateOf backend store integration row.id = some id → NotOrphaned store integration id
  delegated : (∃ row ∈ store.ofKind integration user .delegation, ∃ id, Reaches backend store integration row id) →
    ∃ row ∈ (store.ofKind integration user .delegation).head?, ∃ id, Reaches backend store integration row id
  direct : (∀ row ∈ store.ofKind integration user .delegation, ∀ id, ¬Reaches backend store integration row id) →
    (∃ row ∈ store.ofKind integration user .direct, Usable store integration row.id) →
      (store.ofKind integration user .delegation).length ≤ 1 ∧
        (∀ row ∈ store.ofKind integration user .delegation, delegateOf backend store integration row.id = none) ∧
        ∃ row ∈ (store.ofKind integration user .direct).head?, Usable store integration row.id

/-- With a binding, its connection has not left its credential behind. -/
def Settled : Prop :=
  (∀ id, bound store integration app user = some id → NotOrphaned store integration id) ∧
    (bound store integration app user = none → FallbackSettled backend store integration user)

variable {backend store integration user app}

theorem connection_of_mem (mem : row ∈ store.ofKind integration user kind) :
    (store.connection row.id).isSome = true := by
  rw [Store.ofKind, mem_insertionSort, mem_filter] at mem
  exact find?_isSome.mpr ⟨row, mem.1, by simp⟩

theorem picked_bound (named : bound store integration app user = some id) :
    picked backend store integration user app = some id := by
  rw [picked, named, some_or]

theorem picked_free (free : bound store integration app user = none) :
    picked backend store integration user app =
      (firstDelegate backend store integration user).or (firstDirect store integration user) := by
  rw [picked, free, none_or]

theorem FallbackSettled.fair (settled : FallbackSettled backend store integration user)
    (free : bound store integration app user = none) : Fair backend store integration user app := by
  rw [Fair, picked_free free]
  constructor
  · intro id picks
    cases delegates : firstDelegate backend store integration user with
    | some other =>
      rw [delegates, some_or] at picks
      obtain ⟨row, first, names⟩ := firstDelegate_eq_some.mp (delegates.trans picks)
      exact settled.first row first id names
    | none =>
      rw [delegates, none_or] at picks
      obtain ⟨-, row, first, rfl⟩ := firstDirect_eq_some.mp picks
      exact .inl (connection_of_mem (mem_of_mem_head? first))
  · intro ⟨id, chosen, usable⟩
    cases chosen with
    | bound named => exact nomatch free.symm.trans named
    | @delegated row _ _ mem reaches =>
      obtain ⟨row, first, other, names, usable⟩ := settled.delegated ⟨row, mem, id, reaches⟩
      exact ⟨other, by rw [firstDelegate_eq_some.mpr ⟨row, first, names⟩, some_or], usable⟩
    | @direct row _ alone mem =>
      obtain ⟨few, silent, row, first, usable⟩ := settled.direct alone ⟨row, mem, usable⟩
      have none' : firstDelegate backend store integration user = none := by
        rw [firstDelegate, find_delegation, bind_eq_none_iff]
        exact fun row first => silent row (mem_of_mem_head? first)
      exact ⟨row.id, by rw [none', none_or, firstDirect_eq_some.mpr ⟨few, row, first, rfl⟩], usable⟩

theorem Fair.fallbackSettled (fair : Fair backend store integration user app) (free : bound store integration app user = none) :
    FallbackSettled backend store integration user := by
  rw [Fair, picked_free free] at fair
  refine ⟨?_, ?_, ?_⟩
  · intro row first id names
    exact fair.1 id (by rw [firstDelegate_eq_some.mpr ⟨row, first, names⟩, some_or])
  · intro ⟨row, mem, id, reaches⟩
    obtain ⟨other, picks, usable⟩ := fair.2 ⟨id, .delegated free mem reaches, reaches.2⟩
    cases delegates : firstDelegate backend store integration user with
    | some third =>
      rw [delegates, some_or] at picks
      obtain ⟨row, first, names⟩ := firstDelegate_eq_some.mp (delegates.trans picks)
      exact ⟨row, first, other, names, usable⟩
    | none =>
      -- a direct connection is picked only where the delegation names nothing
      rw [delegates, none_or] at picks
      have few := (firstDirect_eq_some.mp picks).1
      exact nomatch reaches.1.symm.trans (alone_names delegates few mem)
  · intro alone ⟨row, mem, usable⟩
    obtain ⟨other, picks, usable⟩ := fair.2 ⟨row.id, .direct free alone mem, usable⟩
    cases delegates : firstDelegate backend store integration user with
    | some third =>
      rw [delegates, some_or] at picks
      obtain ⟨row, first, names⟩ := firstDelegate_eq_some.mp (delegates.trans picks)
      exact absurd ⟨names, usable⟩ (alone row (mem_of_mem_head? first) other)
    | none =>
      rw [delegates, none_or] at picks
      obtain ⟨few, row, first, rfl⟩ := firstDirect_eq_some.mp picks
      exact ⟨few, fun _ mem => alone_names delegates few mem, row, first, usable⟩

theorem fair_iff_settled : Fair backend store integration user app ↔ Settled backend store integration user app := by
  constructor
  · intro fair
    exact ⟨fun id named => fair.1 id (picked_bound named), fair.fallbackSettled⟩
  · intro settled
    cases named : bound store integration app user with
    | none => exact (settled.2 named).fair named
    | some id =>
      rw [Fair, picked_bound named]
      refine ⟨fun other same => some.inj same ▸ settled.1 id named, ?_⟩
      intro ⟨other, chosen, usable⟩
      cases chosen with
      | bound also =>
        cases named.symm.trans also
        exact ⟨id, rfl, usable⟩
      | delegated free => exact nomatch named.symm.trans free
      | direct free => exact nomatch named.symm.trans free

/-! ## Failing statements -/

variable (backend store integration user app)

/-- The connection picked has no row, configuration or credential to be missed where the
    statement for it fails. -/
structure Outage.Spares (outage : Outage) (id : Text) : Prop where
  owner : outage.owner = true → store.connection id = none
  credential : outage.credential = true → store.credential integration id = none
  config : outage.config = true → backend.config integration ((store.connection id).bind (·.configId)) = .null

/-- Each statement of the call that fails would have found nothing. -/
structure Outage.Idle (outage : Outage) : Prop where
  binding : outage.binding = true → bound store integration app user = none
  candidates : bound store integration app user = none → outage.candidates = true → Integrations.candidates store integration user = []
  delegate : bound store integration app user = none → outage.delegate = true → firstDelegate backend store integration user = none
  picked : ∀ id, Integrations.picked backend store integration user app = some id → outage.Spares backend store integration id
  config : Integrations.picked backend store integration user app = none → outage.config = true →
    backend.config integration none = .null

variable {backend store integration user app} {outage : Outage}

theorem Outage.Spares.resolve (spares : outage.Spares backend store integration id) :
    resolveByConnectionId backend outage store integration id user = resolveByConnectionId backend .calm store integration id user := by
  have owner : okFlatten outage.owner (store.connection id) = store.connection id := by
    cases fails : outage.owner with
    | false => rfl
    | true => exact (spares.owner fails).symm
  have credential : okFlatten outage.credential (store.credential integration id) = store.credential integration id := by
    cases fails : outage.credential with
    | false => rfl
    | true => exact (spares.credential fails).symm
  have config : configOrNull backend outage integration ((store.connection id).bind (·.configId)) =
      configOrNull backend .calm integration ((store.connection id).bind (·.configId)) := by
    unfold configOrNull
    cases fails : outage.config with
    | false => rfl
    | true => exact (spares.config fails).symm
  rw [resolveByConnectionId, owner, credential, config]
  rfl

/-- Failures that hide nothing change nothing. -/
theorem resolve_of_idle (idle : outage.Idle backend store integration user app) :
    resolveCredentials backend outage store integration user app = resolveCredentials backend .calm store integration user app := by
  have binding : okFlatten outage.binding (bound store integration app user) = bound store integration app user := by
    cases fails : outage.binding with
    | false => rfl
    | true => exact (idle.binding fails).symm
  rw [resolveCredentials_eq, resolveCredentials, binding]
  cases named : bound store integration app user with
  | some id =>
    rw [picked_bound named]
    exact (idle.picked id (picked_bound named)).resolve
  | none =>
    have rows : (if outage.candidates then [] else candidates store integration user) = candidates store integration user := by
      cases fails : outage.candidates with
      | false => rfl
      | true => exact (idle.candidates named fails).symm
    have delegate : (((candidates store integration user).find? (·.kind = .delegation)).bind fun row =>
        okFlatten outage.delegate (delegateOf backend store integration row.id)) = firstDelegate backend store integration user := by
      cases fails : outage.delegate with
      | false => rfl
      | true =>
        rw [idle.delegate named fails]
        cases (candidates store integration user).find? (·.kind = .delegation) <;> rfl
    simp only [rows, delegate]
    cases delegates : firstDelegate backend store integration user with
    | some source =>
      have picks : picked backend store integration user app = some source := by
        rw [picked_free named, delegates, some_or]
      rw [picks]
      exact (idle.picked source picks).resolve
    | none =>
      have picks : picked backend store integration user app = firstDirect store integration user := by
        rw [picked_free named, delegates, none_or]
      rw [picks]
      simp only [resolveDirect]
      cases direct : (candidates store integration user).find? (·.kind = .direct) with
      | some row =>
        rw [firstDirect, direct] at picks ⊢
        exact (idle.picked row.id picks).resolve
      | none =>
        rw [firstDirect, direct] at picks ⊢
        simp only [configOrNull]
        cases fails : outage.config with
        | false => rfl
        | true =>
          have nothing := idle.config picks fails
          simp [nothing]

/-- Where the statements that fail would have found nothing, a call serves the right
    connection in every settled state, and where it returns at all it does so in no other. -/
theorem resolves_right (backend : Backend) (outage : Outage) (store : Store) (integration user : Text) (app : Option Text)
    (idle : outage.Idle backend store integration user app) :
    (Settled backend store integration user app →
      Right backend store integration user app (resolveCredentials backend outage store integration user app)) ∧
    ∀ resolved, resolveCredentials backend outage store integration user app = .ok resolved →
      (Right backend store integration user app (.ok resolved) ↔ Settled backend store integration user app) := by
  rw [resolve_of_idle idle]
  refine ⟨fun settled => right_of_fair (fair_iff_settled.mpr settled), fun resolved ran => ?_⟩
  constructor
  · exact fun right => fair_iff_settled.mp (fair_of_right ran right)
  · exact fun settled => ran ▸ right_of_fair (fair_iff_settled.mpr settled)

/-! Two administrators lend their mailboxes to one agent, and the first one disconnects. -/

def mailBackend : Backend where
  config _ _ := .obj []
  parse raw := if raw = delegationText "ann-mail" then .obj [("_delegate", .str "ann-mail")]
    else if raw = delegationText "bob-mail" then .obj [("_delegate", .str "bob-mail")]
    else .str raw
  credentialsForWorker _ _ _ credentials := .ok credentials

def connectMail (user id : String) (now : Nat) : Request :=
  .connect ⟨"gmail", user.toList, none, none, "token", id.toList, now⟩

def lent : List Request :=
  [connectMail "ann" "ann-mail" 1, connectMail "bob" "bob-mail" 2,
    .delegate "gmail" "ann" "agent" "lent-by-ann" 3,
    .delegate "gmail" "bob" "agent" "lent-by-bob" 4]

def annGone : List Request := lent ++ [Request.disconnect "gmail" "ann"]

def mailOf (requests : List Request) : Except RenewError Resolved :=
  resolveCredentials mailBackend .calm (run requests .empty) "gmail" "agent" none

def connectionOf (outcome : Except RenewError Resolved) : Option Text := outcome.toOption.bind (·.connectionId)

theorem lent_right : Right mailBackend (run lent .empty) "gmail".toList "agent".toList none (mailOf lent) := by
  have picks : firstDelegate mailBackend (run lent .empty) "gmail".toList "agent".toList = some "ann-mail".toList := by
    decide +kernel
  have usable : Usable (run lent .empty) "gmail".toList "ann-mail".toList := ⟨by decide +kernel, by decide +kernel⟩
  obtain ⟨row, first, names⟩ := firstDelegate_eq_some.mp picks
  have idle : Outage.calm.Idle mailBackend (run lent .empty) "gmail".toList "agent".toList none :=
    ⟨nofun, nofun, nofun, fun _ _ => ⟨nofun, nofun, nofun⟩, nofun⟩
  apply (resolves_right mailBackend .calm (run lent .empty) "gmail".toList "agent".toList none idle).1
  refine ⟨nofun, fun _ => ⟨?_, fun _ => ⟨row, first, _, names, usable⟩, ?_⟩⟩
  · intro other also id reached
    cases picks.symm.trans (firstDelegate_eq_some.mpr ⟨other, also, reached⟩)
    exact .inl usable.1
  · intro alone
    exact absurd ⟨names, usable⟩ (alone row (List.mem_of_mem_head? first) _)

def lentByBob : Connection :=
  ⟨"lent-by-bob", "gmail", "agent", none, .delegation, .active, none, 4⟩

/-- The agent is left without a mailbox, though it may still use the one of the other. -/
theorem lent_hidden :
    connectionOf (mailOf annGone) = none ∧
      ∃ row ∈ (run annGone .empty).ofKind "gmail".toList "agent".toList .delegation,
        Reaches mailBackend (run annGone .empty) "gmail".toList row "bob-mail".toList := by
  refine ⟨by decide +kernel, lentByBob, by decide +kernel, ?_⟩
  exact ⟨by decide +kernel, by decide +kernel, by decide +kernel⟩

end RootCx.Integrations
