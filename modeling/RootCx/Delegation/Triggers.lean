import RootCx.Delegation.Grants
import RootCx.Lib.JsonValue
import RootCx.Lib.Runs

/-! # Triggers and the delegations they leave

Hooks, webhooks and crons each have an owner and an agent they run, and their creation
also makes a delegation from the one to the other.  The delegation is a row of its own:
some of the ways in which a trigger goes or changes hands do not touch it.

Only the columns that decide about delegations are kept.  The permission checks and the
choice of the owner come before the statements here, and only rule out requests.
-/

namespace RootCx.Delegation

open List

/-! ## The tables -/

/-- A row of `entity_hooks`. -/
structure Hook where
  id : Uuid
  appId : Text
  entity : Text
  operation : Text
  actionType : Text
  actionConfig : Json
  createdBy : Option Uuid

structure Webhook where
  id : Uuid
  appId : Text
  name : Text
  createdBy : Option Uuid

structure Cron where
  id : Uuid
  appId : Text
  name : Text
  createdBy : Option Uuid

structure State where
  now : Time
  users : Users
  /-- The apps with a row in `rootcx_system.agents`. -/
  agents : List Text
  hooks : List Hook
  webhooks : List Webhook
  crons : List Cron
  delegations : List Delegation

def State.start (users : Users) (agents : List Text) : State := ⟨0, users, agents, [], [], [], []⟩

/-- What a trigger says about delegations. -/
structure Trigger where
  type : TriggerType
  id : Uuid
  owner : Option Uuid
  /-- the agent it runs, if any -/
  agent : Option Uuid

variable {t : Trigger} {triggerType : TriggerType} {delegator id : Uuid} {appId : Text} {delegatee row : Uuid}
  {answers : Bool}

section Agents

-- `agents::agent_user_id`
variable (agentUserId : Text → Uuid)

/-- `config.get("app_id")`, or the app of the hook. -/
def Hook.target (hook : Hook) : Text := ((hook.actionConfig.get "app_id").bind Json.asStr).getD hook.appId

def Hook.trigger (hook : Hook) : Trigger :=
  ⟨.hook, hook.id, hook.createdBy, if hook.actionType = "agent" then some (agentUserId hook.target) else none⟩

def Webhook.trigger (webhook : Webhook) : Trigger :=
  ⟨.webhook, webhook.id, webhook.createdBy, some (agentUserId webhook.appId)⟩

def Cron.trigger (cron : Cron) : Trigger := ⟨.cron, cron.id, cron.createdBy, some (agentUserId cron.appId)⟩

def State.triggers (s : State) : List Trigger :=
  s.hooks.map (Hook.trigger agentUserId) ++ s.webhooks.map (Webhook.trigger agentUserId) ++
    s.crons.map (Cron.trigger agentUserId)

/-! ## The operations -/

/-- `let _ = delegation::create(…)`: where the database does not answer, or the kinds are
    refused, the rows stay as they are. -/
def State.delegate (s : State) (answers : Bool) (delegator delegatee : Uuid) (triggerType : TriggerType)
    (ref row : Uuid) : State :=
  if answers then
    match create s.users s.delegations delegator delegatee triggerType (some ref) row with
    | .ok (delegations, _) => { s with delegations }
    | .error _ => s
  else s

/-- `let _ = revoke_by_trigger(…)` -/
def State.revoke (s : State) (answers : Bool) (triggerType : TriggerType) (ref : Uuid) : State :=
  if answers then { s with delegations := revokeByTrigger s.delegations triggerType ref } else s

def State.createHook (s : State) (hook : Hook) (owner : Uuid) (answers : Bool) (row : Uuid) : State :=
  let s := { s with hooks := s.hooks ++ [{ hook with createdBy := some owner }] }
  if hook.actionType = "agent" then s.delegate answers owner (agentUserId hook.target) .hook hook.id row else s

/-- The insertion of `on_app_installed`, for one operation of a manifest's trigger. -/
def State.registerHook (s : State) (id : Uuid) (appId entity operation : Text) (installedBy : Uuid) : State :=
  { s with
    hooks := s.hooks ++
      [⟨id, appId, entity, operation, "agent", .obj [("app_id", .str appId)], some installedBy⟩] }

def State.deleteHook (s : State) (appId : Text) (id : Uuid) (answers : Bool) : State :=
  if s.hooks.any fun h => h.id == id && h.appId == appId then
    { s with hooks := s.hooks.filter fun h => !(h.id == id && h.appId == appId) }.revoke answers .hook id
  else s

/-- The first statement of `sync_webhooks`. -/
def State.pruneWebhooks (s : State) (appId : Text) (names : List Text) : State :=
  { s with webhooks := s.webhooks.filter fun w => !(w.appId == appId && !names.contains w.name) }

def State.findWebhook (s : State) (appId name : Text) : Option Webhook :=
  s.webhooks.find? fun w => w.appId == appId && w.name == name

/-- One definition of `sync_webhooks`. -/
def State.syncWebhook (s : State) (appId name : Text) (createdBy : Option Uuid) (fresh : Uuid) (answers : Bool)
    (row : Uuid) : State :=
  let (id, webhooks) := match s.findWebhook appId name with
    | some held =>
      (held.id, s.webhooks.map fun w =>
        if w.id = held.id then { w with createdBy := createdBy.orElse fun _ => w.createdBy } else w)
    | none => (fresh, s.webhooks ++ [⟨fresh, appId, name, createdBy⟩])
  let s := { s with webhooks }
  match createdBy with
  | some owner => s.delegate answers owner (agentUserId appId) .webhook id row
  | none => s

/-- `crons::create`, and then the delegation where the route makes one. -/
def State.createCron (s : State) (cron : Cron) (answers : Bool) (row : Uuid) : State :=
  let s := { s with crons := s.crons ++ [cron] }
  match cron.createdBy with
  | some owner => s.delegate answers owner (agentUserId cron.appId) .cron cron.id row
  | none => s

/-- `crons::delete`, and then the revocation where the route makes one. -/
def State.deleteCron (s : State) (appId : Text) (id : Uuid) (answers : Bool) : State :=
  if s.crons.any fun c => c.id == id && c.appId == appId then
    { s with crons := s.crons.filter fun c => !(c.id == id && c.appId == appId) }.revoke answers .cron id
  else s

/-- `migrate_existing_crons`, `migrate_existing_hooks` and `migrate_existing_webhooks` for
    the triggers without an owner. -/
def State.adopt (s : State) (admin : Uuid) : State :=
  { s with
    crons := s.crons.map fun c => { c with createdBy := c.createdBy.orElse fun _ => some admin }
    hooks := s.hooks.map fun h =>
      if h.actionType = "agent".toList then { h with createdBy := h.createdBy.orElse fun _ => some admin } else h
    webhooks := s.webhooks.map fun w =>
      if s.agents.contains w.appId then { w with createdBy := w.createdBy.orElse fun _ => some admin } else w }

/-- The triggers that the migration makes a delegation for, where they have none. -/
def State.migrates (s : State) (id : Uuid) : TriggerType → Option Trigger
  | .cron => (s.crons.find? fun c => c.id == id && s.agents.contains c.appId).map (Cron.trigger agentUserId)
  | .hook => (s.hooks.find? fun h => h.id == id && h.actionType == "agent".toList).map (Hook.trigger agentUserId)
  | .webhook =>
    (s.webhooks.find? fun w => w.id == id && s.agents.contains w.appId).map (Webhook.trigger agentUserId)
  | _ => none

def State.migrate (s : State) (triggerType : TriggerType) (id : Uuid) (answers : Bool) (row : Uuid) : State :=
  match s.migrates agentUserId id triggerType with
  | some ⟨_, _, some owner, some agent⟩ =>
    if s.delegations.any (Delegation.standsFor triggerType id) then s
    else s.delegate answers owner agent triggerType id row
  | _ => s

/-! ## Runs -/

inductive Action where
  | wait (time : Time)
  | createHook (hook : Hook) (owner : Uuid) (answers : Bool) (row : Uuid)
  | registerHook (id : Uuid) (appId entity operation : Text) (installedBy : Uuid)
  | deleteHook (appId : Text) (id : Uuid) (answers : Bool)
  | pruneWebhooks (appId : Text) (names : List Text)
  | syncWebhook (appId name : Text) (createdBy : Option Uuid) (fresh : Uuid) (answers : Bool) (row : Uuid)
  | createCron (cron : Cron) (answers : Bool) (row : Uuid)
  | deleteCron (appId : Text) (id : Uuid) (answers : Bool)
  /-- `crons::delete_all_for_app` -/
  | deleteCrons (appId : Text)
  /-- the deletions of `uninstall_app` -/
  | deleteHooks (appId : Text)
  | deleteApp (appId : Text)
  | grantActAs (human account row : Uuid)
  | revokeActAs (human account : Uuid)
  | adopt (admin : Uuid)
  | migrate (triggerType : TriggerType) (id : Uuid) (answers : Bool) (row : Uuid)

/-- The actions of `sync_webhooks`; where a statement fails the rest is left out. -/
def syncWebhooks (appId : Text) (definitions : List (Text × Uuid × Bool × Uuid)) (createdBy : Option Uuid) : List Action :=
  .pruneWebhooks appId (definitions.map Prod.fst) ::
    definitions.map fun (name, fresh, answers, row) => .syncWebhook appId name createdBy fresh answers row

/-- An id that no trigger has and no delegation refers to. -/
def State.fresh (s : State) (id : Uuid) : Bool :=
  (s.triggers agentUserId).all (·.id != id) && s.delegations.all (·.triggerRef != some id)

def State.step (s : State) : Action → Option State
  | .wait time => some { s with now := s.now + time }
  | .createHook hook owner answers row =>
    if s.fresh agentUserId hook.id then some (s.createHook agentUserId hook owner answers row) else none
  | .registerHook id appId entity operation installedBy =>
    if s.fresh agentUserId id then some (s.registerHook id appId entity operation installedBy) else none
  | .deleteHook appId id answers => some (s.deleteHook appId id answers)
  | .pruneWebhooks appId names => some (s.pruneWebhooks appId names)
  | .syncWebhook appId name createdBy fresh answers row =>
    if s.fresh agentUserId fresh then some (s.syncWebhook agentUserId appId name createdBy fresh answers row) else none
  | .createCron cron answers row =>
    if s.fresh agentUserId cron.id then some (s.createCron agentUserId cron answers row) else none
  | .deleteCron appId id answers => some (s.deleteCron appId id answers)
  | .deleteCrons appId => some { s with crons := s.crons.filter (·.appId != appId) }
  | .deleteHooks appId => some { s with hooks := s.hooks.filter (·.appId != appId) }
  | .deleteApp appId =>
    some { s with
      webhooks := s.webhooks.filter (·.appId != appId)
      crons := s.crons.filter (·.appId != appId) }
  | .grantActAs human account row =>
    match Delegation.grantActAs s.users s.now s.delegations human account row with
    | .ok delegations => some { s with delegations }
    | .error _ => some s
  | .revokeActAs human account => some { s with delegations := Delegation.revokeActAs s.delegations human account }
  | .adopt admin => some (s.adopt admin)
  | .migrate triggerType id answers row => some (s.migrate agentUserId triggerType id answers row)

def run : State → List Action → Option State := Runs.run (State.step agentUserId)

/-! ## What backs a delegation -/

/-- A trigger of the delegator that is aimed at the delegatee, or a standing grant. -/
def State.Backs (s : State) (delegator delegatee : Uuid) : Prop :=
  (∃ row ∈ s.delegations, row.triggerType = .actAs ∧ row.delegator = delegator ∧ row.delegatee = delegatee ∧
    row.revoked = false) ∨
  ∃ trigger ∈ s.triggers agentUserId, trigger.owner = some delegator ∧ trigger.agent = some delegatee

/-- A trigger that no unrevoked delegation stands for. -/
def State.unclaimed (s : State) (triggerType : TriggerType) (id : Uuid) : Bool :=
  !s.delegations.any (Delegation.standsFor triggerType id)

/-- A hook or a cron that goes, where it is there, has no delegation, or has it revoked. -/
def released (s : State) (triggerType : TriggerType) (id : Uuid) (answers there : Bool) : Bool :=
  answers || s.unclaimed triggerType id || !there

/-- A webhook that changes hands takes its delegation along. -/
def handed (s : State) (appId name : Text) (answers : Bool) : Option Uuid → Bool
  | none => true
  | some owner =>
    match s.findWebhook appId name with
    | none => true
    | some held =>
      (answers && (validateDelegationKinds s.users owner (agentUserId appId) .webhook).toBool) ||
        s.delegations.all fun row => !row.standsFor .webhook held.id || row.delegator == owner

def hooksFree (s : State) (appId : Text) : Bool := s.hooks.all fun h => h.appId != appId || s.unclaimed .hook h.id

def webhooksFree (s : State) (appId : Text) (names : List Text) : Bool :=
  s.webhooks.all fun w => names.contains w.name || w.appId != appId || s.unclaimed .webhook w.id

def cronsFree (s : State) (appId : Text) : Bool := s.crons.all fun c => c.appId != appId || s.unclaimed .cron c.id

/-- A statement that leaves no delegation without its trigger. -/
def settles (s : State) : Action → Bool
  | .deleteHook appId id answers =>
    released s .hook id answers (s.hooks.any fun h => h.id == id && h.appId == appId)
  | .deleteCron appId id answers =>
    released s .cron id answers (s.crons.any fun c => c.id == id && c.appId == appId)
  | .pruneWebhooks appId names => webhooksFree s appId names
  | .syncWebhook appId name createdBy _ answers _ => handed agentUserId s appId name answers createdBy
  | .deleteCrons appId => cronsFree s appId
  | .deleteHooks appId => hooksFree s appId
  | .deleteApp appId => webhooksFree s appId [] && cronsFree s appId
  | _ => true

/-! ## What is kept -/

variable {agentUserId} {s next : State}

/-- A trigger of the row's own type and id, with its two principals. -/
def Delegation.Backed (triggers : List Trigger) (row : Delegation) : Prop :=
  row.triggerType = .actAs ∨
    ∃ t ∈ triggers, row.triggerType = t.type ∧ row.triggerRef = some t.id ∧ t.owner = some row.delegator ∧
      t.agent = some row.delegatee

structure Inv (agentUserId : Text → Uuid) (s : State) : Prop where
  backed : ∀ row ∈ s.delegations, row.revoked = false → row.Backed (s.triggers agentUserId)
  lasting : ∀ row ∈ s.delegations, row.expiresAt = none
  ids : (s.webhooks.map Webhook.id).Nodup

theorem Delegation.standsFor_iff {row : Delegation} {ref : Uuid} :
    row.standsFor triggerType ref = true ↔
      row.revoked = false ∧ row.triggerType = triggerType ∧ row.triggerRef = some ref := by
  simp [Delegation.standsFor, and_assoc]

theorem Inv.backs (inv : Inv agentUserId s) (valid : isValid s.now s.delegations delegator delegatee = true) :
    s.Backs agentUserId delegator delegatee := by
  obtain ⟨row, mem, rfl, rfl, current⟩ := isValid_iff.mp valid
  have unrevoked : row.revoked = false := by
    simp only [Delegation.current, Bool.and_eq_true, Bool.not_eq_true'] at current
    exact current.1
  rcases inv.backed row mem unrevoked with standing | ⟨t, present, _, _, owned, aimed⟩
  · exact .inl ⟨row, mem, standing, rfl, rfl, unrevoked⟩
  · exact .inr ⟨t, present, owned, aimed⟩

theorem Inv.carry (inv : Inv agentUserId s)
    (rows : ∀ row ∈ next.delegations, row.revoked = false → row ∈ s.delegations)
    (lasting : ∀ row ∈ next.delegations, row.expiresAt = none)
    (kept : ∀ t ∈ s.triggers agentUserId, t.owner.isSome = true → t ∈ next.triggers agentUserId ∨
      ∀ row ∈ next.delegations, row.standsFor t.type t.id = false)
    (ids : (next.webhooks.map Webhook.id).Nodup) : Inv agentUserId next := by
  refine ⟨fun row mem unrevoked => ?_, lasting, ids⟩
  rcases inv.backed row (rows row mem unrevoked) unrevoked with standing | ⟨t, present, type, ref, owned, aimed⟩
  · exact .inl standing
  · rcases kept t present (by simp [owned]) with stays | unclaimed
    · exact .inr ⟨t, stays, type, ref, owned, aimed⟩
    · have stands := Delegation.standsFor_iff.mpr ⟨unrevoked, type, ref⟩
      rw [unclaimed row mem] at stands
      simp at stands

theorem unclaimed_spec (free : s.unclaimed triggerType id = true) :
    ∀ row ∈ s.delegations, row.standsFor triggerType id = false := by
  simpa [State.unclaimed] using free

theorem fresh_spec (fresh : s.fresh agentUserId id = true) (triggerType : TriggerType) :
    (∀ t ∈ s.triggers agentUserId, t.id ≠ id) ∧ ∀ row ∈ s.delegations, row.standsFor triggerType id = false := by
  simp only [State.fresh, Bool.and_eq_true, all_eq_true, bne_iff_ne] at fresh
  refine ⟨fresh.1, fun row mem => ?_⟩
  rw [Bool.eq_false_iff]
  intro stands
  exact fresh.2 row mem (Delegation.standsFor_iff.mp stands).2.2

/-! ### Triggers in the three tables -/

theorem mem_triggers : t ∈ s.triggers agentUserId ↔
    (∃ h ∈ s.hooks, h.trigger agentUserId = t) ∨ (∃ w ∈ s.webhooks, w.trigger agentUserId = t) ∨
      ∃ c ∈ s.crons, c.trigger agentUserId = t := by
  simp [State.triggers, or_assoc]

theorem triggers_kept (mem : t ∈ s.triggers agentUserId)
    (hooks : ∀ h ∈ s.hooks, h ∈ next.hooks ∨ ∀ row ∈ next.delegations, row.standsFor .hook h.id = false)
    (webhooks : ∀ w ∈ s.webhooks, w ∈ next.webhooks ∨ ∀ row ∈ next.delegations, row.standsFor .webhook w.id = false)
    (crons : ∀ c ∈ s.crons, c ∈ next.crons ∨ ∀ row ∈ next.delegations, row.standsFor .cron c.id = false) :
    t ∈ next.triggers agentUserId ∨ ∀ row ∈ next.delegations, row.standsFor t.type t.id = false := by
  rcases mem_triggers.mp mem with ⟨h, present, rfl⟩ | ⟨w, present, rfl⟩ | ⟨c, present, rfl⟩
  · exact (hooks h present).imp (fun stays => mem_triggers.mpr (.inl ⟨h, stays, rfl⟩)) id
  · exact (webhooks w present).imp (fun stays => mem_triggers.mpr (.inr (.inl ⟨w, stays, rfl⟩))) id
  · exact (crons c present).imp (fun stays => mem_triggers.mpr (.inr (.inr ⟨c, stays, rfl⟩))) id

/-! ### Making and revoking a delegation -/

/-- A delegation is made for a trigger that is there.  Rows of the trigger name its agent,
    and where they name another delegator they are turned over, if the creation succeeds. -/
theorem Inv.delegate (present : t ∈ s.triggers agentUserId) (owned : t.owner = some delegator)
    (aimed : t.agent = some delegatee)
    (own : ∀ row ∈ s.delegations, row.standsFor t.type t.id = true → row.delegatee = delegatee)
    (others : ∀ row ∈ s.delegations, row.revoked = false → row.standsFor t.type t.id = false →
      row.Backed (s.triggers agentUserId)) (lasting : ∀ row ∈ s.delegations, row.expiresAt = none)
    (ids : (s.webhooks.map Webhook.id).Nodup)
    (settled : (answers && (validateDelegationKinds s.users delegator delegatee t.type).toBool) = true ∨
      ∀ row ∈ s.delegations, row.standsFor t.type t.id = true → row.delegator = delegator) :
    Inv agentUserId (s.delegate answers delegator delegatee t.type t.id row) := by
  have backed : ∀ row : Delegation, row.standsFor t.type t.id = true → row.delegator = delegator →
      row.delegatee = delegatee → row.Backed (s.triggers agentUserId) := by
    rintro row stands rfl rfl
    obtain ⟨_, type, ref⟩ := Delegation.standsFor_iff.mp stands
    exact .inr ⟨t, present, type, ref, owned, aimed⟩
  have still : (∀ row ∈ s.delegations, row.standsFor t.type t.id = true → row.delegator = delegator) →
      Inv agentUserId s := by
    intro same
    refine ⟨fun row mem unrevoked => ?_, lasting, ids⟩
    cases stands : row.standsFor t.type t.id with
    | false => exact others row mem unrevoked stands
    | true => exact backed row stands (same row mem stands) (own row mem stands)
  simp only [State.delegate]
  split
  · rename_i answered
    cases created : create s.users s.delegations delegator delegatee t.type (some t.id) row with
    | ok made =>
      obtain ⟨made, kept⟩ := made
      rcases upsert_cases (create_ok created) with ⟨alone, rfl⟩ | ⟨ref, named, held, rfl⟩
      · refine ⟨fun row mem unrevoked => ?_, fun row mem => ?_, ids⟩
        · rcases mem_append.mp mem with old | new
          · exact others row old unrevoked (alone t.id rfl row old)
          · obtain rfl := mem_singleton.mp new
            exact .inr ⟨t, present, rfl, rfl, owned, aimed⟩
        · rcases mem_append.mp mem with old | new
          · exact lasting row old
          · rw [mem_singleton.mp new]
      · cases named
        refine ⟨fun row mem unrevoked => ?_, fun row mem => ?_, ids⟩
        · obtain ⟨old, before, rfl⟩ := mem_map.mp mem
          by_cases stands : old.standsFor t.type t.id = true
          · rw [if_pos stands]
            exact backed { old with delegator } stands rfl (own old before stands)
          · rw [if_neg stands] at unrevoked ⊢
            exact others old before unrevoked (Bool.eq_false_iff.mpr stands)
        · obtain ⟨old, before, rfl⟩ := mem_map.mp mem
          split <;> exact lasting old before
    | error failure =>
      rcases settled with valid | same
      · rw [Bool.and_eq_true] at valid
        cases kinds : validateDelegationKinds s.users delegator delegatee t.type with
        | error e => simp [kinds, Except.toBool] at valid
        | ok _ => simp [create, kinds, bind, Except.bind, pure, Except.pure] at created
      · exact still same
  · rename_i silent
    rcases settled with valid | same
    · simp [silent] at valid
    · exact still same

theorem revoke_rows {ref : Uuid} {row : Delegation}
    (mem : row ∈ (s.revoke answers triggerType ref).delegations) :
    (row.revoked = false → row ∈ s.delegations) ∧ (∃ old ∈ s.delegations, row.expiresAt = old.expiresAt) ∧
      (answers = true → row.standsFor triggerType ref = false) := by
  simp only [State.revoke] at mem
  split at mem
  · obtain ⟨old, before, rfl⟩ := mem_map.mp mem
    split
    · simp only [reduceCtorEq, false_implies, true_and]
      exact ⟨⟨old, before, rfl⟩, fun _ => by simp [Delegation.standsFor]⟩
    · rename_i stands
      exact ⟨fun _ => before, ⟨old, before, rfl⟩, fun _ => Bool.eq_false_iff.mpr stands⟩
  · rename_i silent
    exact ⟨fun _ => mem, ⟨row, mem, rfl⟩, fun answered => absurd answered silent⟩

theorem revoke_tables (answers : Bool) (triggerType : TriggerType) (ref : Uuid) :
    (s.revoke answers triggerType ref).hooks = s.hooks ∧ (s.revoke answers triggerType ref).webhooks = s.webhooks ∧
      (s.revoke answers triggerType ref).crons = s.crons := by
  simp only [State.revoke]
  split <;> exact ⟨rfl, rfl, rfl⟩

/-! ### One step -/

theorem Inv.delegate_fresh (inv : Inv agentUserId s)
    (unclaimed : ∀ row ∈ s.delegations, row.standsFor t.type t.id = false)
    (grown : ∀ t ∈ s.triggers agentUserId, t ∈ next.triggers agentUserId)
    (same : next.delegations = s.delegations) (ids : (next.webhooks.map Webhook.id).Nodup)
    (present : t ∈ next.triggers agentUserId) (owned : t.owner = some delegator)
    (aimed : t.agent = some delegatee) :
    Inv agentUserId (next.delegate answers delegator delegatee t.type t.id row) := by
  have inv : Inv agentUserId next :=
    inv.carry (fun row mem _ => same ▸ mem) (by simpa [same] using inv.lasting) (fun t mem _ => .inl (grown t mem)) ids
  have none_stand : ∀ row ∈ next.delegations, row.standsFor t.type t.id = true → False := by
    intro row mem stands
    rw [same] at mem
    simp [unclaimed row mem] at stands
  exact Inv.delegate present owned aimed (fun row mem stands => (none_stand row mem stands).elim)
    (fun row mem unrevoked _ => inv.backed row mem unrevoked) inv.lasting ids
    (.inr fun row mem stands => (none_stand row mem stands).elim)

theorem Inv.createHook (inv : Inv agentUserId s) {hook : Hook} (fresh : s.fresh agentUserId hook.id = true)
    (owner : Uuid) (answers : Bool) (row : Uuid) :
    Inv agentUserId (s.createHook agentUserId hook owner answers row) := by
  have grown : ∀ t ∈ s.triggers agentUserId,
      t ∈ State.triggers agentUserId { s with hooks := s.hooks ++ [{ hook with createdBy := some owner }] } := by
    intro t mem
    rw [mem_triggers] at mem ⊢
    exact mem.imp_left fun ⟨h, present, same⟩ => ⟨h, mem_append_left _ present, same⟩
  simp only [State.createHook]
  split
  · rename_i agent
    apply inv.delegate_fresh (t := Hook.trigger agentUserId { hook with createdBy := some owner }) _ grown rfl inv.ids
    · exact mem_triggers.mpr (.inl ⟨_, mem_append_right _ (mem_singleton_self _), rfl⟩)
    · rfl
    · exact if_pos agent
    · exact (fresh_spec fresh .hook).2
  · exact inv.carry (fun _ mem _ => mem) inv.lasting (fun t mem _ => .inl (grown t mem)) inv.ids

theorem Inv.createCron (inv : Inv agentUserId s) {cron : Cron} (fresh : s.fresh agentUserId cron.id = true)
    (answers : Bool) (row : Uuid) : Inv agentUserId (s.createCron agentUserId cron answers row) := by
  have grown : ∀ t ∈ s.triggers agentUserId,
      t ∈ State.triggers agentUserId { s with crons := s.crons ++ [cron] } := by
    intro t mem
    rw [mem_triggers] at mem ⊢
    exact mem.imp_right fun rest => rest.imp_right fun ⟨c, present, same⟩ =>
      ⟨c, mem_append_left _ present, same⟩
  simp only [State.createCron]
  cases owned : cron.createdBy with
  | some owner =>
    apply inv.delegate_fresh (t := cron.trigger agentUserId) _ grown rfl inv.ids
    · exact mem_triggers.mpr (.inr (.inr ⟨_, mem_append_right _ (mem_singleton_self _), rfl⟩))
    · exact owned
    · rfl
    · exact (fresh_spec fresh .cron).2
  | none => exact inv.carry (fun _ mem _ => mem) inv.lasting (fun t mem _ => .inl (grown t mem)) inv.ids

theorem Inv.registerHook (inv : Inv agentUserId s) (id : Uuid) (appId entity operation : Text) (installedBy : Uuid) :
    Inv agentUserId (s.registerHook id appId entity operation installedBy) := by
  refine inv.carry (fun _ mem _ => mem) inv.lasting (fun t mem _ => triggers_kept mem ?_ ?_ ?_) inv.ids
  · exact fun h present => .inl (mem_append_left _ present)
  · exact fun w present => .inl present
  · exact fun c present => .inl present

theorem Inv.remove (inv : Inv agentUserId s)
    (rows : ∀ row ∈ next.delegations, (row.revoked = false → row ∈ s.delegations) ∧
      ∃ old ∈ s.delegations, row.expiresAt = old.expiresAt)
    (hooks : ∀ h ∈ s.hooks, h ∈ next.hooks ∨ ∀ row ∈ next.delegations, row.standsFor .hook h.id = false)
    (webhooks : ∀ w ∈ s.webhooks, w ∈ next.webhooks ∨ ∀ row ∈ next.delegations, row.standsFor .webhook w.id = false)
    (crons : ∀ c ∈ s.crons, c ∈ next.crons ∨ ∀ row ∈ next.delegations, row.standsFor .cron c.id = false)
    (sub : next.webhooks.Sublist s.webhooks) : Inv agentUserId next := by
  apply inv.carry (fun row mem => (rows row mem).1) _ (fun t mem _ => triggers_kept mem hooks webhooks crons)
  · exact inv.ids.sublist (sub.map _)
  · intro row mem
    obtain ⟨old, before, same⟩ := (rows row mem).2
    rw [same]
    exact inv.lasting old before

/-- A hook or a cron goes, and its delegation is revoked, or it had none. -/
theorem Inv.removeRevoked (inv : Inv agentUserId s) (same : next.delegations = s.delegations)
    (revoked : answers = true ∨ s.unclaimed triggerType id = true)
    (hooks : ∀ h ∈ s.hooks, h ∈ next.hooks ∨ triggerType = .hook ∧ h.id = id)
    (webhooks : next.webhooks = s.webhooks)
    (crons : ∀ c ∈ s.crons, c ∈ next.crons ∨ triggerType = .cron ∧ c.id = id) :
    Inv agentUserId (next.revoke answers triggerType id) := by
  obtain ⟨sameHooks, sameWebhooks, sameCrons⟩ := revoke_tables (s := next) answers triggerType id
  have gone : ∀ row ∈ (next.revoke answers triggerType id).delegations, row.standsFor triggerType id = false := by
    intro row mem
    rcases revoked with answered | free
    · exact (revoke_rows mem).2.2 answered
    · by_cases unrevoked : row.revoked = false
      · exact unclaimed_spec free row (same ▸ (revoke_rows mem).1 unrevoked)
      · simp [Delegation.standsFor, unrevoked]
  apply inv.remove
  · intro row mem
    rw [← same]
    exact ⟨(revoke_rows mem).1, (revoke_rows mem).2.1⟩
  · intro h present
    rw [sameHooks]
    apply (hooks h present).imp_right
    rintro ⟨rfl, rfl⟩
    exact gone
  · rw [sameWebhooks, webhooks]
    exact fun w present => .inl present
  · intro c present
    rw [sameCrons]
    apply (crons c present).imp_right
    rintro ⟨rfl, rfl⟩
    exact gone
  · rw [sameWebhooks, webhooks]

theorem Inv.deleteHook (inv : Inv agentUserId s)
    (settled : released s .hook id answers (s.hooks.any fun h => h.id == id && h.appId == appId) = true) :
    Inv agentUserId (s.deleteHook appId id answers) := by
  simp only [State.deleteHook]
  split
  · rename_i there
    apply inv.removeRevoked
    · rfl
    · simpa [released, there] using settled
    · intro h present
      by_cases named : h.id = id
      · exact .inr ⟨rfl, named⟩
      · exact .inl (mem_filter.mpr ⟨present, by simp [named]⟩)
    · rfl
    · exact fun c present => .inl present
  · exact inv

theorem Inv.deleteCron (inv : Inv agentUserId s)
    (settled : released s .cron id answers (s.crons.any fun c => c.id == id && c.appId == appId) = true) :
    Inv agentUserId (s.deleteCron appId id answers) := by
  simp only [State.deleteCron]
  split
  · rename_i there
    apply inv.removeRevoked
    · rfl
    · simpa [released, there] using settled
    · exact fun h present => .inl present
    · rfl
    · intro c present
      by_cases named : c.id = id
      · exact .inr ⟨rfl, named⟩
      · exact .inl (mem_filter.mpr ⟨present, by simp [named]⟩)
  · exact inv

theorem Inv.pruneWebhooks (inv : Inv agentUserId s) {names : List Text}
    (settled : webhooksFree s appId names = true) : Inv agentUserId (s.pruneWebhooks appId names) := by
  simp only [webhooksFree, all_eq_true, Bool.or_eq_true, bne_iff_ne] at settled
  apply inv.remove
  · exact fun row mem => ⟨fun _ => mem, row, mem, rfl⟩
  · exact fun h present => .inl present
  · intro w present
    rcases settled w present with (named | other) | free
    · have listed : w.name ∈ names := by simpa using named
      exact .inl (mem_filter.mpr ⟨present, by simp [listed]⟩)
    · exact .inl (mem_filter.mpr ⟨present, by simp [other]⟩)
    · exact .inr (unclaimed_spec free)
  · exact fun c present => .inl present
  · exact filter_sublist

theorem Inv.syncWebhook (inv : Inv agentUserId s) {name : Text} {createdBy : Option Uuid} {fresh : Uuid}
    (unused : s.fresh agentUserId fresh = true)
    (settled : handed agentUserId s appId name answers createdBy = true) :
    Inv agentUserId (s.syncWebhook agentUserId appId name createdBy fresh answers row) := by
  simp only [State.syncWebhook]
  cases found : s.findWebhook appId name with
  | none =>
    have grown : ∀ t ∈ s.triggers agentUserId,
        t ∈ State.triggers agentUserId { s with webhooks := s.webhooks ++ [⟨fresh, appId, name, createdBy⟩] } := by
      intro t mem
      rw [mem_triggers] at mem ⊢
      exact mem.imp_right fun rest => rest.imp_left fun ⟨w, present, same⟩ =>
        ⟨w, mem_append_left _ present, same⟩
    have ids : ((s.webhooks ++ [(⟨fresh, appId, name, createdBy⟩ : Webhook)]).map Webhook.id).Nodup := by
      rw [map_append, nodup_append]
      refine ⟨inv.ids, by simp, ?_⟩
      intro id mem last isLast
      obtain ⟨w, present, rfl⟩ := mem_map.mp mem
      rw [mem_singleton.mp isLast]
      exact (fresh_spec unused .webhook).1 (w.trigger agentUserId) (mem_triggers.mpr (.inr (.inl ⟨w, present, rfl⟩)))
    cases createdBy with
    | some owner =>
      apply inv.delegate_fresh (t := Webhook.trigger agentUserId ⟨fresh, appId, name, some owner⟩) _ grown rfl ids
      · exact mem_triggers.mpr (.inr (.inl ⟨_, mem_append_right _ (mem_singleton_self _), rfl⟩))
      · rfl
      · rfl
      · exact (fresh_spec unused .webhook).2
    | none => exact inv.carry (fun _ mem _ => mem) inv.lasting (fun t mem _ => .inl (grown t mem)) ids
  | some held =>
    obtain ⟨present, named⟩ := And.intro (mem_of_find?_eq_some found) (find?_some found)
    obtain ⟨housed, -⟩ : held.appId = appId ∧ held.name = name := by simpa using named
    cases createdBy with
    | none =>
      -- the owner stays, so the row is as it was
      have same : (s.webhooks.map fun w => if w.id = held.id then { w with createdBy := w.createdBy } else w) =
          s.webhooks := by
        conv_rhs => rw [← map_id s.webhooks]
        apply map_congr_left
        intro w _
        split <;> rfl
      simp only [Option.orElse_none, same]
      exact inv
    | some owner =>
      simp only [Option.orElse_some]
      have only : ∀ w ∈ s.webhooks, w.id = held.id → w = held := fun w mem same =>
        inj_on_of_nodup_map inv.ids mem present same
      apply Inv.delegate (t := Webhook.trigger agentUserId { held with createdBy := some owner })
      · exact mem_triggers.mpr (.inr (.inl ⟨_, mem_map.mpr ⟨held, present, if_pos rfl⟩, rfl⟩))
      · rfl
      · exact congrArg (fun app => some (agentUserId app)) housed
      · intro row mem stands
        obtain ⟨unrevoked, type, ref⟩ := Delegation.standsFor_iff.mp stands
        rcases inv.backed row mem unrevoked with standing | ⟨t, before, type', ref', _, aimed⟩
        · exact nomatch (standing.symm.trans type : TriggerType.actAs = .webhook)
        · rcases mem_triggers.mp before with ⟨h, _, rfl⟩ | ⟨w, there, rfl⟩ | ⟨c, _, rfl⟩
          · exact nomatch (type'.symm.trans type : TriggerType.hook = .webhook)
          · have same : w.id = held.id := Option.some.inj (ref'.symm.trans ref)
            rw [only w there same, Webhook.trigger, housed] at aimed
            exact (Option.some.inj aimed).symm
          · exact nomatch (type'.symm.trans type : TriggerType.cron = .webhook)
      · intro row mem unrevoked apart
        rcases inv.backed row mem unrevoked with standing | ⟨t, before, type, ref, owned, aimed⟩
        · exact .inl standing
        · refine .inr ⟨t, ?_, type, ref, owned, aimed⟩
          rw [mem_triggers] at before ⊢
          apply before.imp_right
          apply Or.imp_left
          rintro ⟨w, there, rfl⟩
          have other : w.id ≠ held.id := by
            intro same
            have stands := Delegation.standsFor_iff.mpr ⟨unrevoked, type, ref⟩
            simp only [Webhook.trigger, same] at stands apart
            rw [apart] at stands
            simp at stands
          exact ⟨w, mem_map.mpr ⟨w, there, if_neg other⟩, rfl⟩
      · exact inv.lasting
      · have same : (s.webhooks.map fun w => if w.id = held.id then { w with createdBy := some owner } else w).map
            Webhook.id = s.webhooks.map Webhook.id := by
          rw [map_map]
          apply map_congr_left
          intro w _
          simp only [Function.comp_apply]
          split <;> rfl
        rw [same]
        exact inv.ids
      · simp only [handed, found, Bool.or_eq_true, all_eq_true, Bool.not_eq_true', beq_iff_eq] at settled
        apply settled.imp_right
        intro named row mem stands
        rcases named row mem with apart | owned
        · rw [show row.standsFor .webhook held.id = true from stands] at apart
          simp at apart
        · exact owned

theorem orElse_of_isSome {α : Type} {value : Option α} {other : Unit → Option α} (is : value.isSome = true) :
    value.orElse other = value := by
  cases value with
  | none => simp at is
  | some _ => rfl

theorem Inv.adopt (inv : Inv agentUserId s) (admin : Uuid) : Inv agentUserId (s.adopt admin) := by
  have ids : ((s.adopt admin).webhooks.map Webhook.id) = s.webhooks.map Webhook.id := by
    simp only [State.adopt, map_map]
    apply map_congr_left
    intro w _
    simp only [Function.comp_apply]
    split <;> rfl
  refine inv.carry (fun _ mem _ => mem) inv.lasting (fun t mem owned => .inl ?_) (by rw [ids]; exact inv.ids)
  -- a trigger with an owner is left as it is
  rcases mem_triggers.mp mem with ⟨h, present, rfl⟩ | ⟨w, present, rfl⟩ | ⟨c, present, rfl⟩
  · have kept : (h.createdBy.orElse fun _ => some admin) = h.createdBy := orElse_of_isSome owned
    refine mem_triggers.mpr (.inl ⟨_, mem_map_of_mem present, ?_⟩)
    split
    · rw [kept]
    · rfl
  · have kept : (w.createdBy.orElse fun _ => some admin) = w.createdBy := orElse_of_isSome owned
    refine mem_triggers.mpr (.inr (.inl ⟨_, mem_map_of_mem present, ?_⟩))
    split
    · rw [kept]
    · rfl
  · have kept : (c.createdBy.orElse fun _ => some admin) = c.createdBy := orElse_of_isSome owned
    refine mem_triggers.mpr (.inr (.inr ⟨_, mem_map_of_mem present, ?_⟩))
    rw [kept]

theorem migrates_spec (found : s.migrates agentUserId id triggerType = some t) :
    t ∈ s.triggers agentUserId ∧ t.type = triggerType ∧ t.id = id := by
  cases triggerType with
  | cron =>
    obtain ⟨c, first, rfl⟩ := Option.map_eq_some_iff.mp found
    have holds := find?_some first
    simp only [Bool.and_eq_true, beq_iff_eq] at holds
    exact ⟨mem_triggers.mpr (.inr (.inr ⟨c, mem_of_find?_eq_some first, rfl⟩)), rfl, holds.1⟩
  | hook =>
    obtain ⟨h, first, rfl⟩ := Option.map_eq_some_iff.mp found
    have holds := find?_some first
    simp only [Bool.and_eq_true, beq_iff_eq] at holds
    exact ⟨mem_triggers.mpr (.inl ⟨h, mem_of_find?_eq_some first, rfl⟩), rfl, holds.1⟩
  | webhook =>
    obtain ⟨w, first, rfl⟩ := Option.map_eq_some_iff.mp found
    have holds := find?_some first
    simp only [Bool.and_eq_true, beq_iff_eq] at holds
    exact ⟨mem_triggers.mpr (.inr (.inl ⟨w, mem_of_find?_eq_some first, rfl⟩)), rfl, holds.1⟩
  | manual => simp [State.migrates] at found
  | channel => simp [State.migrates] at found
  | actAs => simp [State.migrates] at found

theorem Inv.migrate (inv : Inv agentUserId s) (triggerType : TriggerType) (id : Uuid) (answers : Bool) (row : Uuid) :
    Inv agentUserId (s.migrate agentUserId triggerType id answers row) := by
  simp only [State.migrate]
  split
  · rename_i type place owner agent found
    split
    · exact inv
    · rename_i free
      obtain ⟨present, rfl, rfl⟩ := migrates_spec found
      have unclaimed : ∀ row ∈ s.delegations, row.standsFor type place = false := by simpa using free
      exact inv.delegate_fresh (t := ⟨type, place, some owner, some agent⟩) unclaimed (fun _ mem => mem) rfl
        inv.ids present rfl rfl
  · exact inv

theorem Inv.grantActAs (inv : Inv agentUserId s) {human account : Uuid} {delegations : List Delegation}
    (granted : Delegation.grantActAs s.users s.now s.delegations human account row = .ok delegations) :
    Inv agentUserId { s with delegations } := by
  simp only [Delegation.grantActAs] at granted
  split at granted
  · cases granted
    exact inv
  · cases created : create s.users s.delegations human account .actAs none row with
    | error failure => simp [created, Except.map] at granted
    | ok made =>
      obtain ⟨rows, kept⟩ := made
      simp only [created, Except.map, Except.ok.injEq] at granted
      subst granted
      rcases upsert_cases (create_ok created) with ⟨_, rfl⟩ | ⟨ref, named, _⟩
      · refine ⟨fun row mem unrevoked => ?_, fun row mem => ?_, inv.ids⟩
        · rcases mem_append.mp mem with old | new
          · exact inv.backed row old unrevoked
          · rw [mem_singleton.mp new]
            exact .inl rfl
        · rcases mem_append.mp mem with old | new
          · exact inv.lasting row old
          · rw [mem_singleton.mp new]
      · simp at named

theorem Inv.revokeActAs (inv : Inv agentUserId s) (human account : Uuid) :
    Inv agentUserId { s with delegations := Delegation.revokeActAs s.delegations human account } := by
  apply inv.remove
  · intro row mem
    obtain ⟨old, before, rfl⟩ := mem_map.mp mem
    split
    · exact ⟨fun unrevoked => by simp at unrevoked, old, before, rfl⟩
    · exact ⟨fun _ => before, old, before, rfl⟩
  · exact fun h present => .inl present
  · exact fun w present => .inl present
  · exact fun c present => .inl present
  · exact List.Sublist.refl _

theorem Inv.step (inv : Inv agentUserId s) {action : Action} (stepped : s.step agentUserId action = some next)
    (settled : settles agentUserId s action = true) : Inv agentUserId next := by
  cases action with
  | wait time =>
    cases stepped
    exact ⟨inv.backed, inv.lasting, inv.ids⟩
  | createHook hook owner answers row =>
    simp only [State.step, Option.ite_none_right_eq_some] at stepped
    obtain ⟨fresh, stepped⟩ := stepped
    cases stepped
    exact inv.createHook fresh owner answers row
  | registerHook id appId entity operation installedBy =>
    simp only [State.step, Option.ite_none_right_eq_some] at stepped
    obtain ⟨fresh, stepped⟩ := stepped
    cases stepped
    exact inv.registerHook id appId entity operation installedBy
  | deleteHook appId id answers =>
    cases stepped
    exact inv.deleteHook settled
  | pruneWebhooks appId names =>
    cases stepped
    exact inv.pruneWebhooks settled
  | syncWebhook appId name createdBy fresh answers row =>
    simp only [State.step, Option.ite_none_right_eq_some] at stepped
    obtain ⟨unused, stepped⟩ := stepped
    cases stepped
    exact inv.syncWebhook unused settled
  | createCron cron answers row =>
    simp only [State.step, Option.ite_none_right_eq_some] at stepped
    obtain ⟨fresh, stepped⟩ := stepped
    cases stepped
    exact inv.createCron fresh answers row
  | deleteCron appId id answers =>
    cases stepped
    exact inv.deleteCron settled
  | deleteCrons appId =>
    cases stepped
    have free : cronsFree s appId = true := settled
    simp only [cronsFree, all_eq_true, Bool.or_eq_true, bne_iff_ne] at free
    apply inv.remove
    · exact fun row mem => ⟨fun _ => mem, row, mem, rfl⟩
    · exact fun h present => .inl present
    · exact fun w present => .inl present
    · intro c present
      exact (free c present).imp (fun other => mem_filter.mpr ⟨present, by simpa using other⟩) unclaimed_spec
    · exact List.Sublist.refl _
  | deleteHooks appId =>
    cases stepped
    have free : hooksFree s appId = true := settled
    simp only [hooksFree, all_eq_true, Bool.or_eq_true, bne_iff_ne] at free
    apply inv.remove
    · exact fun row mem => ⟨fun _ => mem, row, mem, rfl⟩
    · intro h present
      exact (free h present).imp (fun other => mem_filter.mpr ⟨present, by simpa using other⟩) unclaimed_spec
    · exact fun w present => .inl present
    · exact fun c present => .inl present
    · exact List.Sublist.refl _
  | deleteApp appId =>
    cases stepped
    obtain ⟨webhooks, crons⟩ := Bool.and_eq_true_iff.mp (settled : (webhooksFree s appId [] && cronsFree s appId) = true)
    simp only [webhooksFree, cronsFree, all_eq_true, Bool.or_eq_true, bne_iff_ne, contains_nil,
      Bool.false_eq_true, false_or] at webhooks crons
    apply inv.remove
    · exact fun row mem => ⟨fun _ => mem, row, mem, rfl⟩
    · exact fun h present => .inl present
    · intro w present
      exact (webhooks w present).imp (fun other => mem_filter.mpr ⟨present, by simpa using other⟩) unclaimed_spec
    · intro c present
      exact (crons c present).imp (fun other => mem_filter.mpr ⟨present, by simpa using other⟩) unclaimed_spec
    · exact filter_sublist
  | grantActAs human account row =>
    simp only [State.step] at stepped
    cases granted : Delegation.grantActAs s.users s.now s.delegations human account row with
    | ok delegations =>
      simp only [granted, Option.some.injEq] at stepped
      subst stepped
      exact inv.grantActAs granted
    | error failure =>
      simp only [granted, Option.some.injEq] at stepped
      exact stepped ▸ inv
  | revokeActAs human account =>
    cases stepped
    exact inv.revokeActAs human account
  | adopt admin =>
    cases stepped
    exact inv.adopt admin
  | migrate triggerType id answers row =>
    cases stepped
    exact inv.migrate triggerType id answers row

theorem Inv.start (users : Users) (agents : List Text) : Inv agentUserId (.start users agents) :=
  ⟨by simp [State.start], by simp [State.start], by simp [State.start]⟩

/-! ### Every run -/

/-- In a run that leaves no delegation without its trigger, what is valid is backed, and a
    creation is valid exactly when its trigger is not tied to another delegatee. -/
theorem delegations_backed {users : Users} {agents : List Text} {actions : List Action}
    (ran : run agentUserId (.start users agents) actions = some s)
    (settled : Runs.Along (State.step agentUserId) (fun s action => settles agentUserId s action = true)
      (.start users agents) actions) :
    (∀ delegator delegatee, isValid s.now s.delegations delegator delegatee = true →
      s.Backs agentUserId delegator delegatee) ∧
    ∀ delegator delegatee triggerType triggerRef id delegations kept,
      create s.users s.delegations delegator delegatee triggerType triggerRef id = .ok (delegations, kept) →
      (isValid s.now delegations delegator delegatee = true ↔
        (∀ ref, triggerRef = some ref → (∃ row ∈ s.delegations, row.standsFor triggerType ref = true) →
          ∃ row ∈ s.delegations, row.standsFor triggerType ref = true ∧ row.delegatee = delegatee) ∨
        isValid s.now s.delegations delegator delegatee = true) := by
  have inv : Inv agentUserId s :=
    Runs.run_along (fun inv stepped met => inv.step stepped met) (Inv.start users agents) ran settled
  exact ⟨fun _ _ => inv.backs, fun _ _ _ _ _ _ _ => create_valid_iff inv.lasting⟩

end Agents

section Runs

private def agentOf : Text → Uuid := fun _ => 9

private def accounts : Users := [(1, "human"), (2, "human"), (9, "agent")]

/-- A webhook is declared, handed over at the next deployment, and stays when a hook goes. -/
private def handedOver : List Action :=
  syncWebhooks "crm" [("lead", 10, true, 20)] (some 1) ++
    [.createHook ⟨11, "crm", "accounts", "INSERT", "agent", .obj [], none⟩ 2 true 21] ++
    syncWebhooks "crm" [("lead", 12, true, 22)] (some 2) ++ [Action.deleteHook "crm" 11 true]

theorem handed_over_backed : ∃ s, run agentOf (.start accounts []) handedOver = some s ∧
    isValid s.now s.delegations 1 9 = false ∧ s.Backs agentOf 2 9 := by
  have read : (run agentOf (.start accounts []) handedOver).map
      (fun s => (isValid s.now s.delegations 1 9, isValid s.now s.delegations 2 9)) = some (false, true) := by
    decide +kernel
  obtain ⟨s, ran, valid⟩ := Option.map_eq_some_iff.mp read
  obtain ⟨gone, stays⟩ := Prod.mk.inj valid
  exact ⟨s, ran, gone, (delegations_backed ran (by decide +kernel)).1 2 9 stays⟩

private def dropped : List Action :=
  syncWebhooks "crm" [("lead", 10, true, 20)] (some 1) ++
    syncWebhooks "crm" [("other", 11, true, 21)] (some 2)

/-- A webhook that the next manifest leaves out is deleted, and its delegation stays; and a
    creation for another agent answers with the row of the trigger as it was aimed before. -/
theorem dropped_webhook_delegates :
    (∃ s, run agentOf (.start accounts []) dropped = some s ∧ isValid s.now s.delegations 1 9 = true ∧
      ¬s.Backs agentOf 1 9) ∧
    ∃ delegations kept,
      create accounts [⟨20, 1, 9, .hook, some 10, none, false⟩] 1 8 .hook (some 10) 21 = .ok (delegations, kept) ∧
        isValid 0 delegations 1 8 = false := by
  refine ⟨?_, _, _, rfl, rfl⟩
  have read : (run agentOf (.start accounts []) dropped).map
      (fun s => (isValid s.now s.delegations 1 9,
        s.delegations.any (fun row => row.triggerType == .actAs),
        (s.triggers agentOf).any fun t => t.owner == some 1)) = some (true, false, false) := by
    decide +kernel
  obtain ⟨s, ran, answers⟩ := Option.map_eq_some_iff.mp read
  simp only [Prod.mk.injEq, List.any_eq_false, beq_iff_eq] at answers
  obtain ⟨valid, standing, owned⟩ := answers
  refine ⟨s, ran, valid, ?_⟩
  rintro (⟨row, member, type, _⟩ | ⟨t, member, owner, _⟩)
  · exact standing row member type
  · exact owned t member owner

end Runs

end RootCx.Delegation
