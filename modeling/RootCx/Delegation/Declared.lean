import RootCx.Delegation.Triggers

/-! # The hooks a manifest declares

`install_app` of `manifest.rs` calls `on_app_installed` of the hooks extension at every
installation, except for one that only changes how the application presents itself.  The
call inserts one row for each declared operation; the table has no key that a second row
of the same operation could conflict with, and nothing takes the rows of an earlier
manifest away.

The histories here are installations of one application that all succeed.
-/

namespace RootCx.Delegation

open List

structure TriggerConfig where
  appId : Text
  entity : Text
  on : List Text
  deriving DecidableEq, Repr

/-- A manifest; all fields without a name of their own are its `rest`. -/
structure Manifest where
  appId : Text
  name : Text
  version : Text
  description : Text
  icon : Option Text
  trigger : Option TriggerConfig
  /-- the names of its webhooks -/
  webhooks : List Text
  rest : Text
  deriving DecidableEq, Repr

/-- Everything except the presentation is the same. -/
def sameGovernanceContract (previous next : Manifest) : Bool :=
  decide (previous = { next with
    name := previous.name, version := previous.version, description := previous.description, icon := previous.icon })

section Install

-- `str::to_uppercase`
variable (upper : Text → Text)

def operations : List Text := ["INSERT", "UPDATE", "DELETE"]

def readOperation (op : Text) : Except Text Text :=
  if upper op ∈ operations then .ok (upper op)
  else .error ("invalid trigger operation: '" ++ op ++ "'")

def validateTrigger (manifest : Manifest) (trigger : TriggerConfig) : Except Text (List Text) :=
  if trigger.appId ≠ manifest.appId then
    .error (flatten ["trigger targets app '", trigger.appId, "' but may only target its own app '",
      manifest.appId, "'"])
  else trigger.on.mapM (readOperation upper)

/-- One installation: who installs, and the ids that the new rows get. -/
structure Install where
  manifest : Manifest
  installedBy : Uuid
  webhookIds : Text → Uuid
  delegationIds : Text → Uuid
  hookIds : Nat → Uuid

/-- The rows of one call, numbered from a place on. -/
def declaredHooks (i : Install) (trigger : TriggerConfig) : Nat → List Text → List Hook
  | _, [] => []
  | place, operation :: rest =>
    ⟨i.hookIds place, trigger.appId, trigger.entity, operation, "agent",
      .obj [("app_id", .str i.manifest.appId)], some i.installedBy⟩ :: declaredHooks i trigger (place + 1) rest

/-- `HooksExtension::on_app_installed` -/
def onAppInstalled (tables : State) (i : Install) : Except Text State :=
  match i.manifest.trigger with
  | none => .ok tables
  | some trigger => do
    let operations ← validateTrigger upper i.manifest trigger
    -- `ON CONFLICT DO NOTHING`, and nothing conflicts
    pure { tables with hooks := tables.hooks ++ declaredHooks i trigger 0 operations }

structure AppState where
  manifest : Option Manifest
  active : Bool
  tables : State

variable (agentUserId : Text → Uuid)

/-- `sync_webhooks`, when the database answers. -/
def syncDeclared (tables : State) (i : Install) : State :=
  i.manifest.webhooks.foldl
    (fun tables name => tables.syncWebhook agentUserId i.manifest.appId name (some i.installedBy) (i.webhookIds name) true
      (i.delegationIds name))
    (tables.pruneWebhooks i.manifest.appId i.manifest.webhooks)

/-- Only the presentation changes. -/
def cosmetic (previous : Option Manifest) (next : Manifest) : Bool :=
  previous.any fun held => sameGovernanceContract held next && held != next

/-- What `install_app` does to the tables of triggers and delegations. -/
def installApp (s : AppState) (i : Install) : Except Text AppState :=
  if cosmetic s.manifest i.manifest && s.active then .ok { s with manifest := some i.manifest }
  else do
    let tables := if i.manifest.webhooks.isEmpty then s.tables else syncDeclared agentUserId s.tables i
    let tables ← onAppInstalled upper tables i
    pure ⟨some i.manifest, true, tables⟩

def installAll (s : AppState) (history : List Install) : Except Text AppState :=
  history.foldlM (installApp upper agentUserId) s

/-! ## What the manifest asks for -/

/-- The operations of the declared trigger. -/
def Manifest.declared (manifest : Manifest) : List Text :=
  match manifest.trigger with
  | none => []
  | some trigger => trigger.on.map upper

/-- `FOR hook IN SELECT … WHERE app_id AND entity AND operation` -/
def State.fired (tables : State) (appId entity operation : Text) : List Hook :=
  tables.hooks.filter fun h => h.appId == appId && h.entity == entity && h.operation == operation

/-- There is one hook of the agent for each declared operation, on the declared entity, and
    no other one. -/
def Registered (s : AppState) (manifest : Manifest) : Prop :=
  (∀ operation, s.tables.hooks.countP (fun h => decide (h.operation = operation)) =
    if operation ∈ manifest.declared upper then 1 else 0) ∧
  ∀ h ∈ s.tables.hooks, h.actionType = "agent" ∧ h.target = manifest.appId ∧
    ∃ trigger, manifest.trigger = some trigger ∧ h.appId = trigger.appId ∧ h.entity = trigger.entity

/-- Each hook has a delegation from its owner to the agent. -/
def Delegated (s : AppState) : Prop :=
  ∀ h ∈ s.tables.hooks, ∃ owner, h.createdBy = some owner ∧
    isValid s.tables.now s.tables.delegations owner (agentUserId h.target) = true

/-- Installing the manifest again changes no hook. -/
def Stable (s : AppState) (manifest : Manifest) : Prop :=
  ∀ i : Install, i.manifest = manifest →
    ∃ next, installApp upper agentUserId s i = .ok next ∧ next.tables.hooks = s.tables.hooks

/-- The installations that call the extensions. -/
def reruns : Option Manifest → List Install → List Install
  | _, [] => []
  | previous, i :: rest =>
    if cosmetic previous i.manifest then reruns (some i.manifest) rest else i :: reruns (some i.manifest) rest

/-- The manifest that is installed last. -/
def inForce : Option Manifest → List Install → Option Manifest
  | previous, [] => previous
  | _, i :: rest => inForce (some i.manifest) rest

end Install

/-! ## The rows after a history -/

section Histories

variable {upper : Text → Text} {agentUserId : Text → Uuid} {s next : AppState} {tables after : State} {i : Install}
  {history : List Install} {m : Manifest}

theorem cosmetic_spec {previous : Option Manifest} (only : cosmetic previous m = true) :
    ∃ held, previous = some held ∧ held.trigger = m.trigger ∧ held.appId = m.appId ∧ held ≠ m := by
  simp only [cosmetic, Option.any_eq_true, Bool.and_eq_true, sameGovernanceContract, decide_eq_true_eq,
    bne_iff_ne] at only
  obtain ⟨held, named, same, other⟩ := only
  have trigger := congrArg Manifest.trigger same
  have appId := congrArg Manifest.appId same
  exact ⟨held, named, trigger, appId, other⟩

theorem declared_of_trigger {other : Manifest} (same : other.trigger = m.trigger) :
    other.declared upper = m.declared upper := by
  simp [Manifest.declared, same]

/-- The rows that one call inserts. -/
def Install.hooks (upper : Text → Text) (i : Install) : List Hook :=
  match i.manifest.trigger with
  | none => []
  | some trigger => declaredHooks i trigger 0 (trigger.on.map upper)

theorem declaredHooks_operations (trigger : TriggerConfig) (place : Nat) (operations : List Text) :
    (declaredHooks i trigger place operations).map Hook.operation = operations := by
  induction operations generalizing place with
  | nil => rfl
  | cons operation rest ih => simp [declaredHooks, ih]

theorem declaredHooks_spec {trigger : TriggerConfig} {place : Nat} {operations : List Text} {h : Hook}
    (mem : h ∈ declaredHooks i trigger place operations) :
    h.actionType = "agent" ∧ h.target = i.manifest.appId ∧ h.appId = trigger.appId ∧
      h.entity = trigger.entity ∧ h.createdBy = some i.installedBy := by
  induction operations generalizing place with
  | nil => simp [declaredHooks] at mem
  | cons operation rest ih =>
    rcases mem_cons.mp mem with rfl | later
    · exact ⟨rfl, rfl, rfl, rfl, rfl⟩
    · exact ih later

theorem Install.hooks_operations : (i.hooks upper).map Hook.operation = i.manifest.declared upper := by
  simp only [Install.hooks, Manifest.declared]
  split
  · rfl
  · exact declaredHooks_operations _ 0 _

theorem Install.hooks_eq_nil : i.hooks upper = [] ↔ i.manifest.declared upper = [] := by
  rw [← Install.hooks_operations, map_eq_nil_iff]

theorem readOperations_ok {ops read : List Text} (ran : ops.mapM (readOperation upper) = .ok read) :
    read = ops.map upper := by
  induction ops generalizing read with
  | nil =>
    simp only [mapM_nil, pure_eq_ok] at ran
    exact ran.symm
  | cons op ops ih =>
    simp only [mapM_cons, bind_eq_ok, pure_eq_ok] at ran
    obtain ⟨first, readFirst, rest, readRest, rfl⟩ := ran
    simp only [readOperation] at readFirst
    split at readFirst
    · rw [map_cons, ih readRest, Except.ok.inj readFirst]
    · simp at readFirst

theorem onAppInstalled_ok (ran : onAppInstalled upper tables i = .ok after) :
    after = { tables with hooks := tables.hooks ++ i.hooks upper } := by
  simp only [onAppInstalled, Install.hooks] at ran ⊢
  split at ran
  · rw [append_nil]
    exact (Except.ok.inj ran).symm
  · simp only [bind_eq_ok, pure_eq_ok] at ran
    obtain ⟨read, validated, rfl⟩ := ran
    simp only [validateTrigger] at validated
    split at validated
    · simp at validated
    · rw [readOperations_ok validated]

theorem onAppInstalled_again {other : Install} {others : State} (ran : onAppInstalled upper tables i = .ok after)
    (appId : i.manifest.appId = other.manifest.appId) (trigger : i.manifest.trigger = other.manifest.trigger) :
    ∃ installed, onAppInstalled upper others other = .ok installed := by
  simp only [onAppInstalled, trigger] at ran ⊢
  split at ran
  · exact ⟨others, rfl⟩
  · simp only [bind_eq_ok] at ran
    obtain ⟨read, validated, _⟩ := ran
    simp only [validateTrigger, appId] at validated ⊢
    rw [validated]
    exact ⟨_, rfl⟩

theorem syncWebhook_hooks (appId name : Text) (createdBy : Option Uuid) (fresh : Uuid) (answers : Bool) (row : Uuid) :
    (tables.syncWebhook agentUserId appId name createdBy fresh answers row).hooks = tables.hooks := by
  have same : ∀ (s : State) (owner agent ref : Uuid) (type : TriggerType),
      (s.delegate answers owner agent type ref row).hooks = s.hooks := by
    intro s owner agent ref type
    simp only [State.delegate]
    split
    · split <;> rfl
    · rfl
  simp only [State.syncWebhook]
  cases createdBy <;> split <;> simp only [same]

theorem syncDeclared_hooks : (syncDeclared agentUserId tables i).hooks = tables.hooks := by
  have fold : ∀ (names : List Text) (tables : State),
      (names.foldl (fun tables name => tables.syncWebhook agentUserId i.manifest.appId name (some i.installedBy)
        (i.webhookIds name) true (i.delegationIds name)) tables).hooks = tables.hooks := by
    intro names
    induction names with
    | nil => exact fun _ => rfl
    | cons name names ih =>
      intro tables
      rw [foldl_cons, ih, syncWebhook_hooks]
  exact fold _ _

theorem installApp_ok (ran : installApp upper agentUserId s i = .ok next) :
    next.manifest = some i.manifest ∧
      ((cosmetic s.manifest i.manifest && s.active) = true ∧ next.active = s.active ∧ next.tables = s.tables ∨
        (cosmetic s.manifest i.manifest && s.active) = false ∧ next.active = true ∧
          next.tables.hooks = s.tables.hooks ++ i.hooks upper ∧
          (i.manifest.webhooks = [] → next.tables.delegations = s.tables.delegations) ∧
          ∃ before after, onAppInstalled upper before i = .ok after) := by
  simp only [installApp] at ran
  split at ran
  · rename_i only
    cases ran
    exact ⟨rfl, .inl ⟨only, rfl, rfl⟩⟩
  · rename_i whole
    simp only [bind_eq_ok, pure_eq_ok] at ran
    obtain ⟨after, installed, rfl⟩ := ran
    have same := onAppInstalled_ok installed
    refine ⟨rfl, .inr ⟨Bool.eq_false_iff.mpr whole, rfl, ?_, ?_, _, _, installed⟩⟩
    · rw [same]
      split
      · rfl
      · simp only [syncDeclared_hooks]
    · intro none_
      simp [same, none_]

/-- Behind a history the rows are those of all installations that called the extensions. -/
theorem installAll_ok (known : s.active = s.manifest.isSome)
    (ran : installAll upper agentUserId s history = .ok next) :
    next.active = next.manifest.isSome ∧
      next.manifest = inForce s.manifest history ∧
      next.tables.hooks = s.tables.hooks ++ (reruns s.manifest history).flatMap (Install.hooks upper) ∧
      ((∀ i ∈ history, i.manifest.webhooks = []) → next.tables.delegations = s.tables.delegations) ∧
      ∀ i ∈ reruns s.manifest history, ∃ before after, onAppInstalled upper before i = .ok after := by
  induction history generalizing s with
  | nil =>
    obtain rfl : s = next := by simpa [installAll] using ran
    exact ⟨known, rfl, by simp [reruns], fun _ => rfl, by simp [reruns]⟩
  | cons i rest ih =>
    simp only [installAll, foldlM_cons, bind_eq_ok] at ran
    obtain ⟨middle, first, ran⟩ := ran
    obtain ⟨named, cases⟩ := installApp_ok first
    have active : middle.active = true := by
      rcases cases with ⟨only, same, _⟩ | ⟨_, active, _⟩
      · rw [same]
        exact (Bool.and_eq_true_iff.mp only).2
      · exact active
    obtain ⟨known', named', hooks, delegations, called⟩ := ih (by simp [active, named]) ran
    refine ⟨known', by rw [named', named, inForce], ?_, ?_, ?_⟩
    · rw [hooks, named]
      rcases cases with ⟨only, _, same⟩ | ⟨whole, _, grown, _⟩
      · rw [same, reruns, if_pos (Bool.and_eq_true_iff.mp only).1]
      · have full : ¬cosmetic s.manifest i.manifest = true := by
          intro only
          obtain ⟨held, present, _⟩ := cosmetic_spec only
          rw [only, known, present] at whole
          simp at whole
        rw [grown, reruns, if_neg full, flatMap_cons, append_assoc]
    · intro plain
      rw [delegations fun j mem => plain j (mem_cons_of_mem _ mem)]
      rcases cases with ⟨_, _, same⟩ | ⟨_, _, _, kept, _⟩
      · rw [same]
      · exact kept (plain i (mem_cons_self ..))
    · rw [named] at called
      intro j mem
      rw [reruns] at mem
      split at mem
      · exact called j mem
      · rename_i full
        rcases mem_cons.mp mem with rfl | later
        · rcases cases with ⟨only, _⟩ | ⟨_, _, _, _, here⟩
          · exact absurd (Bool.and_eq_true_iff.mp only).1 full
          · exact here
        · exact called j later

/-! ## The manifest in force -/

theorem reruns_last (previous : Option Manifest)
    (current : inForce previous history = some m) :
    (reruns previous history = [] ∧
        ∃ held, previous = some held ∧ held.trigger = m.trigger ∧ held.appId = m.appId) ∨
      ∃ earlier last, reruns previous history = earlier ++ [last] ∧ last.manifest.trigger = m.trigger ∧
        last.manifest.appId = m.appId := by
  induction history generalizing previous with
  | nil => exact .inl ⟨rfl, m, current, rfl, rfl⟩
  | cons i rest ih =>
    simp only [reruns]
    rcases ih (some i.manifest) current with ⟨none_, held, named, same, sameApp⟩ | ⟨earlier, last, whole, same⟩
    · cases named
      split
      · rename_i only
        obtain ⟨held, present, kept, keptApp, _⟩ := cosmetic_spec only
        exact .inl ⟨none_, held, present, kept.trans same, keptApp.trans sameApp⟩
      · exact .inr ⟨[], i, by rw [none_]; rfl, same, sameApp⟩
    · split
      · exact .inr ⟨earlier, last, whole, same⟩
      · exact .inr ⟨i :: earlier, last, by rw [whole]; rfl, same⟩

theorem reruns_subset (previous : Option Manifest) : reruns previous history ⊆ history := by
  induction history generalizing previous with
  | nil => exact fun _ mem => mem
  | cons i rest ih =>
    intro j mem
    simp only [reruns] at mem
    split at mem
    · exact mem_cons_of_mem _ (ih _ mem)
    · rcases mem_cons.mp mem with rfl | later
      · exact mem_cons_self ..
      · exact mem_cons_of_mem _ (ih _ later)

/-- An installation that only changes the presentation declares what the one before it
    did. -/
theorem none_declared {previous : Option Manifest} (before : ∀ p, previous = some p → p.declared upper = [])
    (none_ : ∀ i ∈ reruns previous history, i.manifest.declared upper = []) :
    ∀ i ∈ history, i.manifest.declared upper = [] := by
  induction history generalizing previous with
  | nil => simp
  | cons i rest ih =>
    have here : i.manifest.declared upper = [] := by
      by_cases only : cosmetic previous i.manifest = true
      · obtain ⟨held, present, same, _⟩ := cosmetic_spec only
        rw [← declared_of_trigger same]
        exact before held present
      · apply none_ i
        rw [reruns, if_neg only]
        exact mem_cons_self ..
    have behindNone : ∀ j ∈ reruns (some i.manifest) rest, j.manifest.declared upper = [] := by
      intro j mem
      apply none_ j
      rw [reruns]
      split
      · exact mem
      · exact mem_cons_of_mem _ mem
    have later : ∀ j ∈ rest, j.manifest.declared upper = [] := by
      apply ih _ behindNone
      intro p same
      rw [← Option.some.inj same]
      exact here
    intro j mem
    rcases mem_cons.mp mem with rfl | behind
    · exact here
    · exact later j behind

/-! ## Every history -/

theorem countP_operation (hooks : List Hook) (operation : Text) :
    hooks.countP (fun h => decide (h.operation = operation)) = (hooks.map Hook.operation).count operation := by
  induction hooks with
  | nil => rfl
  | cons h rest ih =>
    by_cases same : h.operation = operation
    · simp [same, ih]
    · simp [same, ih]

/-- Each operation of a list is there once, and no other one is, exactly when nothing comes
    before the list and nothing in it comes twice. -/
theorem count_append_iff {earlier last : List Text} :
    (∀ operation, (earlier ++ last).count operation = if operation ∈ last then 1 else 0) ↔
      last.Nodup ∧ earlier = [] := by
  constructor
  · intro counted
    refine ⟨nodup_iff_count_le_one.mpr fun operation => ?_, eq_nil_iff_forall_not_mem.mpr fun operation mem => ?_⟩
    · have total := counted operation
      rw [count_append] at total
      split at total <;> omega
    · have total := counted operation
      have once := count_pos_iff.mpr mem
      rw [count_append] at total
      split at total
      · rename_i again
        have twice := count_pos_iff.mpr again
        omega
      · omega
  · rintro ⟨nodup, rfl⟩ operation
    rw [nil_append]
    split
    · rename_i mem
      exact count_eq_one_of_mem nodup mem
    · rename_i absent
      exact count_eq_zero_of_not_mem absent

def AppState.start (users : Users) (agents : List Text) : AppState := ⟨none, false, State.start users agents⟩

section Outcome

variable {users : Users} {agents : List Text}

theorem registered_iff (ran : installAll upper agentUserId (.start users agents) history = .ok next)
    (current : next.manifest = some m) :
    Registered upper next m ↔
      (m.declared upper).Nodup ∧ ∀ i ∈ (reruns none history).dropLast, i.manifest.declared upper = [] := by
  obtain ⟨_, named, hooks, _⟩ := installAll_ok rfl ran
  rw [named] at current
  rcases reruns_last none current with ⟨_, held, absent, _⟩ | ⟨earlier, last, whole, trigger, appId⟩
  · simp at absent
  · have rows : next.tables.hooks = earlier.flatMap (Install.hooks upper) ++ last.hooks upper := by
      rw [hooks]
      simp only [AppState.start, State.start, nil_append, whole, flatMap_append, flatMap_singleton]
    have operations : next.tables.hooks.map Hook.operation =
        earlier.flatMap (fun i => i.manifest.declared upper) ++ m.declared upper := by
      rw [rows, map_append, map_flatMap, Install.hooks_operations, declared_of_trigger trigger]
      simp only [Install.hooks_operations]
    have counted : (∀ operation, next.tables.hooks.countP (fun h => decide (h.operation = operation)) =
        if operation ∈ m.declared upper then 1 else 0) ↔
          (m.declared upper).Nodup ∧ ∀ i ∈ (reruns none history).dropLast, i.manifest.declared upper = [] := by
      simp only [countP_operation, operations, count_append_iff, flatMap_eq_nil_iff, whole,
        dropLast_concat]
    rw [Registered, counted]
    refine ⟨And.left, fun right => ⟨right, fun h mem => ?_⟩⟩
    -- the earlier installations left no row, and the last one names the trigger in force
    rw [rows] at mem
    rcases mem_append.mp mem with before | here
    · obtain ⟨i, present, row⟩ := mem_flatMap.mp before
      have none_ : i.manifest.declared upper = [] := by
        apply right.2 i
        rw [whole, dropLast_concat]
        exact present
      rw [Install.hooks_eq_nil.mpr none_] at row
      simp at row
    · simp only [Install.hooks] at here
      split at here
      · simp at here
      · rename_i named
        obtain ⟨type, target, app, entity, _⟩ := declaredHooks_spec here
        exact ⟨type, target.trans appId, _, trigger.symm.trans named, app, entity⟩

theorem rows_eq_nil_iff (ran : installAll upper agentUserId (.start users agents) history = .ok next) :
    next.tables.hooks = [] ↔ ∀ i ∈ history, i.manifest.declared upper = [] := by
  obtain ⟨_, _, hooks, _⟩ := installAll_ok rfl ran
  simp only [hooks, AppState.start, State.start, nil_append, flatMap_eq_nil_iff, Install.hooks_eq_nil]
  constructor
  · exact none_declared (by simp)
  · exact fun none_ i mem => none_ i (reruns_subset none mem)

/-- A second installation of the manifest in force calls the extensions again. -/
theorem stable_iff (ran : installAll upper agentUserId (.start users agents) history = .ok next)
    (current : next.manifest = some m) : Stable upper agentUserId next m ↔ m.declared upper = [] := by
  obtain ⟨_, named, _, _, called⟩ := installAll_ok rfl ran
  have force := named.symm.trans current
  have whole : cosmetic next.manifest m = false := by
    rw [Bool.eq_false_iff, current]
    intro only
    obtain ⟨held, same, _, _, other⟩ := cosmetic_spec only
    exact other (Option.some.inj same).symm
  constructor
  · intro stable
    obtain ⟨again, installed, same⟩ := stable ⟨m, 0, fun _ => 0, fun _ => 0, fun _ => 0⟩ rfl
    rcases (installApp_ok installed).2 with ⟨only, _⟩ | ⟨_, _, grown, _⟩
    · rw [whole] at only
      simp at only
    · rw [same] at grown
      have added := append_right_eq_self.mp grown.symm
      exact Install.hooks_eq_nil.mp added
  · rintro undeclared i rfl
    rcases reruns_last none force with ⟨_, held, absent, _⟩ | ⟨earlier, last, list, trigger, appId⟩
    · simp at absent
    · obtain ⟨before, after, installed⟩ := called last (by simp [AppState.start, list])
      obtain ⟨tables, again⟩ := onAppInstalled_again installed appId trigger
      refine ⟨⟨some i.manifest, true, tables⟩, ?_, ?_⟩
      · simp only [installApp, whole, Bool.false_and, Bool.false_eq_true, if_false]
        rw [again]
        rfl
      · rw [onAppInstalled_ok again, Install.hooks_eq_nil.mpr undeclared, append_nil]
        split
        · rfl
        · exact syncDeclared_hooks

theorem delegated_iff (ran : installAll upper agentUserId (.start users agents) history = .ok next)
    (plain : ∀ i ∈ history, i.manifest.webhooks = []) :
    Delegated agentUserId next ↔ ∀ i ∈ history, i.manifest.declared upper = [] := by
  obtain ⟨_, _, _, delegations, _⟩ := installAll_ok rfl ran
  rw [← rows_eq_nil_iff ran]
  constructor
  · intro delegated
    apply eq_nil_iff_forall_not_mem.mpr
    intro h mem
    obtain ⟨owner, _, valid⟩ := delegated h mem
    rw [delegations plain] at valid
    simp [AppState.start, State.start, isValid] at valid
  · intro none_ h mem
    simp [none_] at mem

/-- There is one hook for each declared operation exactly when only the last call of the
    extensions declared any, each once; without webhooks none has its delegation; and the
    hooks are as they should be, delegated and left alone by another installation exactly
    when no manifest of the history declares an operation. -/
theorem declared_hooks (ran : installAll upper agentUserId (.start users agents) history = .ok next)
    (current : next.manifest = some m) :
    (Registered upper next m ↔
      (m.declared upper).Nodup ∧ ∀ i ∈ (reruns none history).dropLast, i.manifest.declared upper = []) ∧
    ((∀ i ∈ history, i.manifest.webhooks = []) →
      (Delegated agentUserId next ↔ ∀ i ∈ history, i.manifest.declared upper = [])) ∧
    (Registered upper next m ∧ Delegated agentUserId next ∧ Stable upper agentUserId next m ↔
      ∀ i ∈ history, i.manifest.declared upper = []) := by
  refine ⟨registered_iff ran current, delegated_iff ran, ?_⟩
  rw [registered_iff ran current, stable_iff ran current]
  constructor
  · rintro ⟨⟨_, earlier⟩, _, undeclared⟩
    obtain ⟨_, named, _⟩ := installAll_ok rfl ran
    rcases reruns_last none (named.symm.trans current) with ⟨_, held, absent, _⟩ | ⟨front, last, list, trigger, _⟩
    · simp at absent
    · refine none_declared (fun p (absent : (none : Option Manifest) = some p) => nomatch absent) fun i member => ?_
      rw [list] at member earlier
      rcases List.mem_append.mp member with before | here
      · exact earlier i (by rwa [List.dropLast_concat])
      · rw [List.mem_singleton.mp here, declared_of_trigger trigger, undeclared]
  · intro none_
    have rows := (rows_eq_nil_iff ran).mpr none_
    have undeclared : m.declared upper = [] := by
      obtain ⟨_, named, _⟩ := installAll_ok rfl ran
      rcases reruns_last none (named.symm.trans current) with ⟨_, held, absent, _⟩ | ⟨front, last, list, trigger, _⟩
      · simp at absent
      · rw [← declared_of_trigger trigger]
        exact none_ last (reruns_subset none (by simp [list]))
    refine ⟨⟨by simp [undeclared], fun i member => none_ i ?_⟩, ?_, undeclared⟩
    · exact reruns_subset none (List.mem_of_mem_dropLast member)
    · intro h member
      simp [rows] at member

end Outcome

end Histories

section Examples

private def ascii (text : Text) : Text := text.map Char.toUpper

private def agentOfCrm : Text → Uuid := fun _ => 9

private def crmAccounts : Users := [(1, "human"), (9, "agent")]

private def watching (version : String) : Manifest :=
  ⟨"crm", "CRM", version.toList, [], none,
    some ⟨"crm", "accounts", ["insert", "Update"]⟩, [], []⟩

private def byAdmin (m : Manifest) (place : Nat) : Install := ⟨m, 1, fun _ => 0, fun _ => 0, fun n => place + n⟩

/-- One installation of a trigger, and a new version number later, register one hook for
    each operation. -/
theorem watching_registered : ∃ next,
    installAll ascii agentOfCrm (.start crmAccounts []) [byAdmin (watching "1") 30, byAdmin (watching "2") 40] = .ok next ∧
      next.tables.hooks.length = 2 ∧ Registered ascii next (watching "2") := by
  have read : (installAll ascii agentOfCrm (.start crmAccounts [])
      [byAdmin (watching "1") 30, byAdmin (watching "2") 40]).toOption.map
        (fun s => (s.manifest, s.tables.hooks.length)) = some (some (watching "2"), 2) := by
    decide +kernel
  obtain ⟨next, ran, answers⟩ := Option.map_eq_some_iff.mp read
  obtain ⟨current, rows⟩ := Prod.mk.inj answers
  have ran := toOption_eq_some.mp ran
  refine ⟨next, ran, rows, ((declared_hooks ran current).1).mpr ?_⟩
  exact ⟨by decide +kernel, by decide +kernel⟩

/-- The manifest is installed again: each operation has two hooks, and none of them a
    delegation. -/
theorem watching_twice : ∃ next,
    installAll ascii agentOfCrm (.start crmAccounts []) [byAdmin (watching "1") 30, byAdmin (watching "1") 40] = .ok next ∧
      (next.tables.fired "crm".toList "accounts".toList "INSERT".toList).length = 2 ∧
      ¬Registered ascii next (watching "1") ∧ isValid next.tables.now next.tables.delegations 1 9 = false := by
  have read : (installAll ascii agentOfCrm (.start crmAccounts [])
      [byAdmin (watching "1") 30, byAdmin (watching "1") 40]).toOption.map
        (fun s => ((s.tables.fired "crm".toList "accounts".toList "INSERT".toList).length,
          s.tables.hooks.countP (fun h => decide (h.operation = "INSERT".toList)),
          isValid s.tables.now s.tables.delegations 1 9)) = some (2, 2, false) := by
    decide +kernel
  obtain ⟨next, ran, answers⟩ := Option.map_eq_some_iff.mp read
  simp only [Prod.mk.injEq] at answers
  obtain ⟨fired, rows, invalid⟩ := answers
  refine ⟨next, ?_, fired, fun registered => ?_, invalid⟩
  · exact toOption_eq_some.mp ran
  · have once := registered.1 "INSERT".toList
    rw [rows] at once
    split at once <;> omega

end Examples

end RootCx.Delegation
