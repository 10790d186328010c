import RootCx.RowAccess.Gates
import RootCx.RowAccess.Install

/-! # What the policies of a table let through

The rules of a table after its plan, evaluated for a session: who passes them and
on which rows.
-/

namespace RootCx.RowAccess

open RootCx.Text RootCx.Postgres RootCx.RowSecurity RootCx.Runs List

section Rules

variable {Value : Type} [DecidableEq Value]

def Policy.rule (world : World Value) (answers : Text → List (Option Value)) (policy : Policy) : Rule (Row Value) where
  restrictive := policy.restrictive
  command := policy.command
  usingClause := policy.usingClause.map fun predicate row => predicate.holds world answers row
  withCheck := policy.withCheck.map fun predicate row => predicate.holds world answers row

/-- The rules of the policies Core manages. -/
def coreRules (world : World Value) (answers : Text → List (Option Value)) (access : Access) : List (Rule (Row Value)) :=
  corePolicies.filterMap fun name => (access.policies name).map (·.rule world answers)

/-- The permission action a command needs. -/
def actionOf : Command → Text
  | .select => "read"
  | .insert => "create"
  | .delete => "delete"
  | .update => "update"

theorem action_of_rls : ∀ rls ∈ RLS_POLICIES, rls.action = actionOf rls.command := by decide

end Rules

variable {entry : Text × Option Policy} {policy : Policy} {command : Command}

/-! ## The declared rules -/

section Declared

variable {schema table guard : Text} {mine shared : Option Predicate} {approvedRead : Bool}

theorem mem_declared (mem : entry ∈ declaredPolicies schema table guard mine shared approvedRead)
    (present : entry.2 = some policy) :
    (∃ predicate, shared = some predicate ∧
      policy = policyOf false .select (true, false) (.and (gate (sharedKey schema table)) predicate)) ∨
    (∃ rls ∈ RLS_POLICIES,
      policy = policyOf false rls.command rls.clauses (collectionGate (entityKey schema guard rls.action) mine) ∨
      (∃ own, mine = some own ∧ policy = policyOf false rls.command rls.clauses (rowScoped schema table rls.action own)) ∨
      policy = policyOf true rls.command rls.clauses (ceiling schema guard mine rls)) ∨
    policy = policyOf false .select (true, false) (publicationGate (entityKey schema guard "read") mine) ∨
    policy = lockPolicy (entityKey schema table "read") := by
  unfold declaredPolicies at mem
  rw [mem_append, mem_append, mem_append, mem_singleton, mem_singleton, mem_singleton,
    mem_flatMap] at mem
  obtain ((rfl | ⟨rls, inside, mem⟩) | rfl) | rfl := mem
  · obtain ⟨_, set, rfl⟩ := Option.map_eq_some_iff.mp present
    obtain ⟨predicate, declared, rfl⟩ := Option.map_eq_some_iff.mp set
    exact .inl ⟨predicate, declared, rfl⟩
  · refine .inr (.inl ⟨rls, inside, ?_⟩)
    simp only [commandDeclared, mem_cons, not_mem_nil, or_false] at mem
    obtain rfl | rfl | rfl := mem
    · exact .inl (Option.some.inj present).symm
    · obtain ⟨_, set, rfl⟩ := Option.map_eq_some_iff.mp present
      obtain ⟨own, declared, rfl⟩ := Option.map_eq_some_iff.mp set
      exact .inr (.inl ⟨own, declared, rfl⟩)
    · exact .inr (.inr (Option.some.inj present).symm)
  · exact .inr (.inr (.inl (Option.some.inj present).symm))
  · split at present
    case isTrue => exact .inr (.inr (.inr (Option.some.inj present).symm))
    case isFalse => cases present

theorem ceiling_mem {rls : RlsPolicy} (inside : rls ∈ RLS_POLICIES) :
    (rls.name ++ "_publication_ceiling",
      some (policyOf true rls.command rls.clauses (ceiling schema guard mine rls))) ∈
        declaredPolicies schema table guard mine shared approvedRead := by
  refine mem_append_left _ (mem_append_left _ (mem_append_right _ (mem_flatMap.mpr ⟨rls, inside, ?_⟩)))
  exact mem_cons_of_mem _ (mem_cons_of_mem _ mem_cons_self)

end Declared

section Settled

variable {Value : Type} [DecidableEq Value] {catalog : Catalog} {schema table guard : Text} {owners : OwnerMap}
  {facts : TableFacts} {shared : Option Predicate} {sensitive : List Text} {approvedRead : Bool}
  {statements : List Statement} {before after : Access}

/-- After a plan the rules of Core are the declared ones. -/
theorem coreRules_eq (world : World Value) (answers : Text → List (Option Value))
    (described : tableFacts catalog schema table owners = .ok facts)
    (planned : tableRls schema table guard facts shared sensitive approvedRead = .ok statements)
    (same : before.columns = facts.columns) (ran : run step before statements = some after) :
    coreRules world answers after = (declaredPolicies schema table guard (mineOf facts) shared approvedRead).filterMap
      fun entry => entry.2.map (·.rule world answers) := by
  obtain ⟨-, refused⟩ | ⟨-, done⟩ := run_tableRls (resolvers_once described) planned same
  · exact nomatch ran.symm.trans refused
  · cases ran.symm.trans done
    have names := declaredPolicies_names schema table guard (mineOf facts) shared approvedRead
    generalize declaredPolicies schema table guard (mineOf facts) shared approvedRead = policies at names ⊢
    have keys : (policies.map fun entry => (entry.1, fun _ : Option Policy => entry.2)).map (·.1) = corePolicies := by
      rw [map_map]
      exact names
    unfold coreRules
    rw [← names, filterMap_map]
    apply filterMap_congr
    intro entry inside
    have set := change_of_mem (keys ▸ corePolicies_nodup) (mem_map_of_mem inside) before.policies
    show ((settled sensitive facts.owner policies before).policies entry.1).map _ = _
    exact congrArg (Option.map _) set

end Settled

/-! ## How a row comes to pass -/

section Opens

variable {Value : Type} [DecidableEq Value] {world : World Value} {answers : Text → List (Option Value)}
  {schema table guard : Text} {mine shared : Option Predicate} {approvedRead : Bool} {command : Command} {row : Row Value}

/-- What stands behind a permissive policy that holds of a row. -/
inductive Opens (world : World Value) (answers : Text → List (Option Value)) (schema table guard : Text)
    (mine : Option Predicate) (command : Command) (row : Row Value) : Prop where
  | full (held : world.gate .access (entityKey schema guard (actionOf command)) = true)
  | crossApp (granted : world.gate .crossApp (entityKey schema guard (actionOf command)) = true ∨
        world.gate .crossApp (ownKey (entityKey schema guard (actionOf command))) = true)
      (owned : ∀ own, mine = some own → own.holds world answers row = some true)
  | own (own : Predicate) (declared : mine = some own)
      (held : world.gate .access (ownKey (entityKey schema table (actionOf command))) = true)
      (owned : own.holds world answers row = some true)
  | shared (reads : command = .select) (held : world.gate .access (sharedKey schema table) = true)
  | publication (reads : command = .select)
      (published : world.gate .publication (entityKey schema guard (actionOf command)) = true)

theorem collectionGate_holds (holds : (collectionGate (entityKey schema guard (actionOf command)) mine).holds world answers
    row = some true) : Opens world answers schema table guard mine command row := by
  cases mine with
  | none =>
    simp only [collectionGate, gate, crossGate, Predicate.holds, Truth.or_eq_true, Option.some.injEq] at holds
    rcases holds with held | granted
    · exact .full held
    · exact .crossApp (.inl granted) fun _ same => by cases same
  | some own =>
    simp only [collectionGate, gate, crossGate, Predicate.holds, Truth.or_eq_true, Truth.and_eq_true,
      Option.some.injEq] at holds
    rcases holds with held | ⟨granted, owned⟩
    · exact .full held
    · exact .crossApp granted fun other same => Option.some.inj same ▸ owned

theorem publicationGate_holds {key : Text} (holds : (publicationGate key mine).holds world answers row = some true) :
    world.gate .publication key = true := by
  cases mine with
  | none => exact Option.some.inj holds
  | some own =>
    rw [publicationGate, Predicate.holds, Truth.and_eq_true] at holds
    exact Option.some.inj holds.1

theorem rowScoped_holds {own : Predicate} (declared : mine = some own)
    (holds : (rowScoped schema table (actionOf command) own).holds world answers row = some true) :
    Opens world answers schema table guard mine command row := by
  rw [rowScoped, Predicate.holds, Truth.and_eq_true] at holds
  exact .own own declared (Option.some.inj holds.1) holds.2

theorem using_of_rls : ∀ rls ∈ RLS_POLICIES, rls.command ≠ .insert → rls.clauses.1 = true := by decide

theorem check_of_rls : ∀ rls ∈ RLS_POLICIES, rls.command = .insert ∨ rls.command = .update → rls.clauses.2 = true := by
  decide

theorem finds_policyOf {restrictive : Bool} {clauses : Bool × Bool} {predicate : Predicate} (needed : clauses.1 = true) :
    ((policyOf restrictive command clauses predicate).rule world answers).finds row = predicate.holds world answers row := by
  simp [policyOf, Policy.rule, Rule.finds, needed]

theorem leaves_policyOf {restrictive : Bool} {clauses : Bool × Bool} {predicate : Predicate} (needed : clauses.2 = true) :
    ((policyOf restrictive command clauses predicate).rule world answers).leaves row = predicate.holds world answers row := by
  simp [policyOf, Policy.rule, Rule.leaves, needed]

/-- A rule of the command that finds a row, but for the lock of an approved reader. -/
theorem opens_of_finds (mem : entry ∈ declaredPolicies schema table guard mine shared approvedRead)
    (present : entry.2 = some policy) (about : policy.command = some command)
    (permissive : policy.restrictive = false) (old : command ≠ .insert)
    (finds : (policy.rule world answers).finds row = some true) :
    Opens world answers schema table guard mine command row ∨
      (command = .update ∧ world.gate .approvedAction (entityKey schema table "read") = true) := by
  obtain ⟨predicate, -, rfl⟩ | ⟨rls, inside, rfl | ⟨own, declared, rfl⟩ | rfl⟩ | rfl | rfl := mem_declared mem present
  · cases about
    rw [finds_policyOf rfl, Predicate.holds, Truth.and_eq_true] at finds
    exact .inl (.shared rfl (Option.some.inj finds.1))
  · cases about
    rw [finds_policyOf (using_of_rls rls inside old), action_of_rls rls inside] at finds
    exact .inl (collectionGate_holds finds)
  · cases about
    rw [finds_policyOf (using_of_rls rls inside old), action_of_rls rls inside] at finds
    exact .inl (rowScoped_holds declared finds)
  · cases permissive
  · cases about
    rw [finds_policyOf rfl] at finds
    exact .inl (.publication rfl (publicationGate_holds finds))
  · cases about
    exact .inr ⟨rfl, Option.some.inj finds⟩

theorem opens_of_leaves (mem : entry ∈ declaredPolicies schema table guard mine shared approvedRead)
    (present : entry.2 = some policy) (about : policy.command = some command)
    (permissive : policy.restrictive = false) (new : command = .insert ∨ command = .update)
    (leaves : (policy.rule world answers).leaves row = some true) :
    Opens world answers schema table guard mine command row := by
  obtain ⟨predicate, -, rfl⟩ | ⟨rls, inside, rfl | ⟨own, declared, rfl⟩ | rfl⟩ | rfl | rfl := mem_declared mem present
  · cases about
    rcases new with new | new <;> cases new
  · cases about
    rw [leaves_policyOf (check_of_rls rls inside new), action_of_rls rls inside] at leaves
    exact collectionGate_holds leaves
  · cases about
    rw [leaves_policyOf (check_of_rls rls inside new), action_of_rls rls inside] at leaves
    exact rowScoped_holds declared leaves
  · cases permissive
  · cases about
    rcases new with new | new <;> cases new
  · cases leaves

end Opens

/-! ## Confinement -/

section Confined

variable {Value : Type} [DecidableEq Value] {system : System} {world : World Value}
  {answers : Text → List (Option Value)} {schema table guard : Text} {mine shared : Option Predicate} {approvedRead : Bool}

/-- The rules of the declared policies. -/
def declaredRules (world : World Value) (answers : Text → List (Option Value)) (schema table guard : Text)
    (mine shared : Option Predicate) (approvedRead : Bool) : List (Rule (Row Value)) :=
  (declaredPolicies schema table guard mine shared approvedRead).filterMap fun entry => entry.2.map (·.rule world answers)

theorem mem_declaredRules {rule : Rule (Row Value)}
    (mem : rule ∈ declaredRules world answers schema table guard mine shared approvedRead)
    (applies : rule.applies command = true) :
    ∃ entry ∈ declaredPolicies schema table guard mine shared approvedRead, ∃ policy, entry.2 = some policy ∧
      policy.command = some command ∧ rule = policy.rule world answers := by
  obtain ⟨entry, inside, made⟩ := mem_filterMap.mp mem
  obtain ⟨policy, present, rfl⟩ := Option.map_eq_some_iff.mp made
  have about : ∃ own, policy.command = some own := by
    obtain ⟨_, -, rfl⟩ | ⟨_, -, rfl | ⟨_, -, rfl⟩ | rfl⟩ | rfl | rfl := mem_declared inside present <;> exact ⟨_, rfl⟩
  obtain ⟨own, about⟩ := about
  rw [Rule.applies, Policy.rule, about, Option.all_some, decide_eq_true_eq] at applies
  exact ⟨entry, inside, policy, present, applies ▸ about, rfl⟩

theorem rls_of_command (command : Command) : ∃ rls ∈ RLS_POLICIES, rls.command = command := by
  cases command <;> decide

theorem action_ne_read (writes : command ≠ .select) : actionOf command ≠ "read" := by
  cases command with
  | select => exact absurd rfl writes
  | insert | delete | update => decide

theorem ceiling_closed (published : posed world.setting .publicationId = true) {rls : RlsPolicy}
    (writes : rls.action ≠ "read") (row : Row Value) :
    (ceiling schema guard mine rls).holds world answers row ≠ some true := by
  intro holds
  rw [ceiling, if_neg writes, Predicate.holds, Truth.or_eq_true] at holds
  rcases holds with unposed | never
  · exact of_decide_eq_true published (of_decide_eq_true (Option.some.inj unposed))
  · cases never

/-- No policy lifts the ceiling of a publication. -/
theorem publication_never_writes (published : posed world.setting .publicationId = true)
    (added : List (Rule (Row Value))) {touch : Touch (Row Value)} (writes : touch.command ≠ .select) :
    passes (declaredRules world answers schema table guard mine shared approvedRead ++ added) touch = false := by
  rw [Bool.eq_false_iff]
  intro passed
  obtain ⟨rls, inside, about⟩ := rls_of_command touch.command
  have action : rls.action ≠ "read" := by
    rw [action_of_rls rls inside, about]
    exact action_ne_read writes
  have mem : (policyOf true rls.command rls.clauses (ceiling schema guard mine rls)).rule world answers ∈
      declaredRules world answers schema table guard mine shared approvedRead ++ added :=
    mem_append_left _ (mem_filterMap.mpr ⟨_, ceiling_mem inside, rfl⟩)
  have verdict := verdict_of_passes passed mem (decide_eq_true about) rfl
  -- an insert is checked on the row it leaves, every other write on the one it finds
  cases touch with
  | sees row => exact writes rfl
  | inserts row =>
    rw [Touch.verdict, leaves_policyOf (check_of_rls rls inside (.inl about))] at verdict
    exact ceiling_closed published action row verdict
  | deletes row =>
    rw [Touch.verdict, finds_policyOf (using_of_rls rls inside (about ▸ Command.noConfusion))] at verdict
    exact ceiling_closed published action row verdict
  | updates old new =>
    rw [Touch.verdict, finds_policyOf (using_of_rls rls inside (about ▸ Command.noConfusion))] at verdict
    exact ceiling_closed published action old verdict

/-- An approved action that lacks a write never passes its check. -/
theorem approved_without_write (asked : world.gate = gates system world.setting)
    (action : posed world.setting .approvedActionId = true) {touch : Touch (Row Value)} (writes : touch.command ≠ .select)
    (lacks : ∀ approval ∈ system.approvals, nullif (world.setting .approvedActionId) = some approval.id →
      approval.current = true → entityKey schema guard (actionOf touch.command) ∉ approval.permissions) :
    passes (declaredRules world answers schema table guard mine shared approvedRead) touch = false := by
  have closed {row : Row Value} (opened : Opens world answers schema table guard mine touch.command row) : False := by
    cases opened with
    | full held =>
      rw [asked] at held
      obtain ⟨approval, inside, named, current, listed⟩ := approved_of_checkAccess action held
      exact lacks approval inside named current listed
    | crossApp granted _ =>
      have refused (key : Text) : ¬ world.gate .crossApp key = true := by
        rw [asked]
        show ¬ checkCrossAppAccess system world.setting key = true
        rw [checkCrossAppAccess, if_pos action]
        exact Bool.false_ne_true
      rcases granted with granted | granted <;> exact refused _ granted
    | own own declared held _ =>
      rw [asked] at held
      obtain ⟨approval, -, -, -, listed⟩ := approved_of_checkAccess action held
      exact ownKey_notMem_permissions approval _ listed
    | shared reads _ => exact writes reads
    | publication reads _ => exact writes reads
  rw [Bool.eq_false_iff]
  intro passed
  -- the lock finds rows but leaves none, so an update fails on the row it leaves
  have left {row : Row Value} (new : touch.command = .insert ∨ touch.command = .update)
      (admitted : admits (declaredRules world answers schema table guard mine shared approvedRead) touch.command
        (·.leaves row) = true) : False := by
    obtain ⟨rule, mem, applies, permissive, verdict⟩ := exists_permissive admitted
    obtain ⟨entry, inside, policy, present, about, rfl⟩ := mem_declaredRules mem applies
    exact closed (opens_of_leaves inside present about permissive new verdict)
  cases touch with
  | sees row => exact writes rfl
  | inserts row => exact left (.inl rfl) passed
  | deletes row =>
    obtain ⟨rule, mem, applies, permissive, verdict⟩ := exists_permissive passed
    obtain ⟨entry, inside, policy, present, about, rfl⟩ := mem_declaredRules mem applies
    obtain opened | ⟨update, -⟩ := opens_of_finds inside present about permissive Command.noConfusion verdict
    · exact closed opened
    · cases update
  | updates old new =>
    obtain ⟨-, after⟩ := Bool.and_eq_true_iff.mp passed
    exact left (.inr rfl) after

/-- Neither an approved action nor a publication. -/
def Ordinary (setting : Setting → Option Text) : Prop :=
  posed setting .approvedActionId = false ∧ posed setting .publicationId = false

theorem Opens.owned (asked : world.gate = gates system world.setting) (ordinary : Ordinary world.setting)
    {row : Row Value} (opened : Opens world answers schema table guard mine command row)
    (notFull : holds system world.setting (entityKey schema guard (actionOf command)) = false)
    (notShared : command = .select → holds system world.setting (sharedKey schema table) = false) :
    (∀ own, mine = some own → own.holds world answers row = some true) ∧
      ((world.gate .crossApp (entityKey schema guard (actionOf command)) = true ∨
        world.gate .crossApp (ownKey (entityKey schema guard (actionOf command))) = true) ∨
        holds system world.setting (ownKey (entityKey schema table (actionOf command))) = true) := by
  have access {key : Text} (held : world.gate .access key = true) : holds system world.setting key = true := by
    rw [asked] at held
    exact holds_of_checkAccess ordinary.1 held
  cases opened with
  | full held => exact absurd (access held) (by rw [notFull]; exact Bool.false_ne_true)
  | crossApp granted owned => exact ⟨owned, .inl granted⟩
  | own own declared held owned =>
    exact ⟨fun other same => Option.some.inj (declared.symm.trans same) ▸ owned, .inr (access held)⟩
  | shared reads held => exact absurd (access held) (by rw [notShared reads]; exact Bool.false_ne_true)
  | publication reads published =>
    rw [asked] at published
    exact absurd (checkPublicationAccess_unposed ordinary.2) (by rw [show checkPublicationAccess system world.setting _ = true from published]; exact Bool.noConfusion)

/-- Without the full scope, what an ordinary session finds or leaves is its
    caller's. -/
theorem owned_of_passes (asked : world.gate = gates system world.setting) (ordinary : Ordinary world.setting)
    {touch : Touch (Row Value)}
    (notFull : holds system world.setting (entityKey schema guard (actionOf touch.command)) = false)
    (notShared : touch.command = .select → holds system world.setting (sharedKey schema table) = false)
    (passed : passes (declaredRules world answers schema table guard mine shared approvedRead) touch = true) :
    ∀ row ∈ touch.rows, (∀ own, mine = some own → own.holds world answers row = some true) ∧
      ((world.gate .crossApp (entityKey schema guard (actionOf touch.command)) = true ∨
        world.gate .crossApp (ownKey (entityKey schema guard (actionOf touch.command))) = true) ∨
        holds system world.setting (ownKey (entityKey schema table (actionOf touch.command))) = true) := by
  refine rows_of_passes (fun old rule mem applies permissive row verdict => ?_)
    (fun new rule mem applies permissive row verdict => ?_) passed
  · obtain ⟨entry, inside, policy, present, about, rfl⟩ := mem_declaredRules mem applies
    obtain opened | ⟨-, approved⟩ := opens_of_finds inside present about permissive old verdict
    · exact opened.owned asked ordinary notFull notShared
    · rw [asked] at approved
      exact absurd (checkApprovedActionAccess_unposed ordinary.1)
        (by rw [show checkApprovedActionAccess system world.setting _ = true from approved]; exact Bool.noConfusion)
  · obtain ⟨entry, inside, policy, present, about, rfl⟩ := mem_declaredRules mem applies
    exact (opens_of_leaves inside present about permissive new verdict).owned asked ordinary notFull notShared

end Confined

/-- What the policies of a plan let through.  A publication never writes, whatever
    policies are added; an approved action never makes a write it was not approved
    for; without the full scope only rows that are the caller's, before and after,
    pass; and without any scope nothing is seen but through a cross-app grant. -/
theorem row_policies_confine {Value : Type} [DecidableEq Value] {catalog : Catalog} {schema table guard : Text}
    {owners : OwnerMap} {facts : TableFacts} {shared : Option Predicate} {sensitive : List Text} {approvedRead : Bool}
    {statements : List Statement} {before after : Access} (described : tableFacts catalog schema table owners = .ok facts)
    (planned : tableRls schema table guard facts shared sensitive approvedRead = .ok statements)
    (same : before.columns = facts.columns) (ran : run step before statements = some after) {system : System}
    {world : World Value} (asked : world.gate = gates system world.setting) (answers : Text → List (Option Value)) :
    (posed world.setting .publicationId = true → ∀ (added : List (Rule (Row Value))) (touch : Touch (Row Value)),
      touch.command ≠ .select → passes (coreRules world answers after ++ added) touch = false) ∧
    (posed world.setting .approvedActionId = true → ∀ touch : Touch (Row Value), touch.command ≠ .select →
      (∀ approval ∈ system.approvals, nullif (world.setting .approvedActionId) = some approval.id →
        approval.current = true → entityKey schema guard (actionOf touch.command) ∉ approval.permissions) →
      passes (coreRules world answers after) touch = false) ∧
    (Ordinary world.setting → ∀ (touch : Touch (Row Value)) (own : Predicate), mineOf facts = some own →
      holds system world.setting (entityKey schema guard (actionOf touch.command)) = false →
      (touch.command = .select → holds system world.setting (sharedKey schema table) = false) →
      passes (coreRules world answers after) touch = true →
        ∀ row ∈ touch.rows, own.holds world answers row = some true) ∧
    (Ordinary world.setting → ∀ row : Row Value,
      holds system world.setting (entityKey schema guard "read".toList) = false →
      holds system world.setting (ownKey (entityKey schema table "read".toList)) = false →
      holds system world.setting (sharedKey schema table) = false →
      world.gate .crossApp (entityKey schema guard "read".toList) = false →
      world.gate .crossApp (ownKey (entityKey schema guard "read".toList)) = false →
        passes (coreRules world answers after) (.sees row) = false) := by
  rw [coreRules_eq world answers described planned same ran]
  refine ⟨fun published added touch writes => publication_never_writes published added writes,
    fun action touch writes lacks => approved_without_write asked action writes lacks,
    fun ordinary touch own declared notFull notShared passed row inside => ?_,
    fun ordinary row notFull notOwn notShared noGrant noOwnGrant => ?_⟩
  · exact (owned_of_passes asked ordinary notFull notShared passed row inside).1 own declared
  · rw [Bool.eq_false_iff]
    intro passed
    obtain ⟨-, scope⟩ := @owned_of_passes Value _ system world answers schema table guard (mineOf facts) shared approvedRead
      asked ordinary (.sees row) notFull (fun _ => notShared) passed row List.mem_cons_self
    rcases scope with (grant | grant) | own
    · exact Bool.false_ne_true (noGrant.symm.trans grant)
    · exact Bool.false_ne_true (noOwnGrant.symm.trans grant)
    · exact Bool.false_ne_true (notOwn.symm.trans own)

/-! Notes are read through a cross-app grant by a caller that holds nothing, and an
approved reader writes through a policy that somebody added. -/

def noteCatalog : Catalog where
  columns _ := [("id", "uuid"), ("body", "text")]
  primaryKey _ := some "id"

def noteFacts : TableFacts := ⟨["id", "body"], none⟩

def noteStatements : List Statement :=
  [Statement.grantUsage] ++ privileges noteFacts.columns [] ++ [Statement.enableRowSecurity, .forceRowSecurity] ++ [] ++
    policyStatements "hr" "note" "note" none none true

/-- Nothing is granted on the table of notes. -/
def noteAccess : Access := { ungoverned.access "note" with columns := noteFacts.columns }

theorem notes_planned :
    tableRls "hr" "note" "note" noteFacts none [] true = .ok noteStatements := rfl

def noteSystem : System where
  active app := app = "hr"
  permissions user := if user = "u2" then ["app:hr:action:digest"] else []
  approvals := [⟨"a1", "hr", "digest", [("note", [.read])], true⟩]
  grants := [⟨"g1", "crm", "hr", "note", ["read"], true⟩]
  publications := []

/-- User `u1` reads notes of `hr` from `crm`. -/
def grantSetting : Setting → Option Text
  | .userId => some "u1"
  | .appId => some "hr"
  | .crossAppGrantId => some "g1"
  | .crossAppSourceApp => some "crm"
  | .crossAppAction => some "read"
  | _ => none

/-- User `u2` runs the approved action `digest`. -/
def approvedSetting : Setting → Option Text
  | .userId => some "u2"
  | .appId => some "hr"
  | .approvedActionId => some "a1"
  | .actionId => some "digest"
  | .invocationKind => some "action"
  | _ => none

def noteWorld (setting : Setting → Option Text) : World Text where
  setting := setting
  gate := gates noteSystem setting
  cast _ user := user
  tables _ := []
  resolvers _ := none
  sharedKeys _ := []
  other _ _ := none

/-- A policy that lets everybody write. -/
def openPolicy : Rule (Row Text) := ⟨false, none, some fun _ => some true, some fun _ => some true⟩

theorem notes_run : ∃ after, run step noteAccess noteStatements = some after ∧
    ∀ (world : World Text) (answers : Text → List (Option Text)), coreRules world answers after =
      declaredRules world answers "hr" "note" "note" none none true := by
  have described : tableFacts noteCatalog "hr" "note" (fun _ => none) = .ok noteFacts := rfl
  obtain ⟨⟨_, inside, _⟩, -⟩ | ⟨-, ran⟩ := run_tableRls (resolvers_once described) notes_planned
    (show noteAccess.columns = noteFacts.columns from rfl)
  · exact absurd inside not_mem_nil
  · exact ⟨_, ran, fun world answers => coreRules_eq world answers described notes_planned rfl ran⟩

theorem notes_seen_and_written :
    ∃ after, run step noteAccess noteStatements = some after ∧
      (held noteSystem grantSetting = [] ∧
        passes (coreRules (noteWorld grantSetting) (fun _ => []) after) (.sees fun _ => none) = true) ∧
      (approvedSetting .approvedActionId = some "a1".toList ∧
        passes (coreRules (noteWorld approvedSetting) (fun _ => []) after ++ [openPolicy]) (.inserts fun _ => none) = true) := by
  obtain ⟨after, ran, rules⟩ := notes_run
  refine ⟨after, ran, ⟨rfl, ?_⟩, rfl, ?_⟩
  · rw [rules]
    rfl
  · rw [rules]
    rfl

/-! Tasks under a publication, an approved reader, a caller that updates its own
tasks and one that holds nothing. -/

def taskStatements : List Statement :=
  [Statement.grantUsage] ++ privileges taskFacts.columns [] ++ [Statement.enableRowSecurity, .forceRowSecurity] ++
    (ownership taskOwner).1 ++
    policyStatements "hr" "task" "task" (mineOf taskFacts) none true

def taskAccess : Access := { ungoverned.access "task" with columns := taskFacts.columns }

theorem tasks_planned :
    tableRls "hr" "task" "task" taskFacts none [] true = .ok taskStatements := rfl

theorem tasks_run : ∃ after, run step taskAccess taskStatements = some after := by
  have described : tableFacts hrCatalog "hr" "task" hrOwners = .ok taskFacts := rfl
  obtain ⟨⟨_, _, _, found, _⟩, -⟩ | ⟨-, ran⟩ := run_tableRls (resolvers_once described) tasks_planned
    (show taskAccess.columns = taskFacts.columns from rfl)
  · cases found
  · exact ⟨_, ran⟩

def taskSystem : System where
  active app := app = "hr"
  permissions user := if user = "u3" then ["app:hr:task.update.own"] else []
  approvals := [⟨"a1", "hr", "digest", [("task", [.read])], true⟩]
  grants := []
  publications := []

def taskWorld (setting : Setting → Option Text) : World Text :=
  { hrWorld "hr" (fun _ => none) with setting := setting, gate := gates taskSystem setting }

/-- A session of `user` in `hr`, with one more setting. -/
def taskSetting (user : Text) (more : Setting) (value : Text) (name : Setting) : Option Text :=
  if name = more then some value
  else if name = .userId then some user
  else if name = .appId then some "hr"
  else none

theorem tasks_confined :
    ∃ after, run step taskAccess taskStatements = some after ∧
      (∀ row, passes (coreRules (taskWorld (taskSetting "u1".toList .publicationId "p1".toList)) (fun _ => []) after ++
        [openPolicy]) (.inserts row) = false) ∧
      (∀ row, passes (coreRules (taskWorld (taskSetting "u2".toList .approvedActionId "a1".toList)) (fun _ => []) after)
        (.inserts row) = false) ∧
      (∀ (answers : Text → List (Option Text)) (old new : Row Text),
        passes (coreRules (taskWorld (taskSetting "u3".toList .invocationKind "rpc".toList)) answers after)
          (.updates old new) = true →
        among (old "project_id".toList) (answers "rootcx_own.hr.project".toList) = some true ∧
          among (new "project_id".toList) (answers "rootcx_own.hr.project".toList) = some true) ∧
      (∀ row, passes (coreRules (taskWorld (taskSetting "u4".toList .invocationKind "rpc".toList)) (fun _ => []) after)
        (.sees row) = false) := by
  obtain ⟨after, ran⟩ := tasks_run
  have described : tableFacts hrCatalog "hr".toList "task".toList hrOwners = .ok taskFacts := rfl
  have confine (setting : Setting → Option Text) (answers : Text → List (Option Text)) :=
    row_policies_confine described tasks_planned (show taskAccess.columns = taskFacts.columns from rfl) ran
      (show (taskWorld setting).gate = gates taskSystem (taskWorld setting).setting from rfl) answers
  refine ⟨after, ran, fun row => ?_, fun row => ?_, fun answers old new passed => ?_, fun row => ?_⟩
  · exact (confine _ _).1 rfl [openPolicy] (.inserts row) Command.noConfusion
  · refine (confine _ _).2.1 rfl (.inserts row) Command.noConfusion fun approval inside _ _ => ?_
    obtain rfl := List.mem_singleton.mp inside
    show entityKey "hr".toList "task".toList "create".toList ∉ _
    decide
  · have owned := (confine _ answers).2.2.1 ⟨rfl, rfl⟩ (.updates old new) (.resolved "project_id".toList
      "rootcx_own.hr.project".toList) rfl rfl Command.noConfusion passed
    exact ⟨owned old (by simp [Touch.rows]), owned new (by simp [Touch.rows])⟩
  · exact (confine _ _).2.2.2 ⟨rfl, rfl⟩ row rfl rfl rfl rfl rfl

end RootCx.RowAccess
