import RootCx.Lib.Changes
import RootCx.Lib.Runs
import RootCx.RowAccess.Chain

/-! # Executing the plan

What the statements of a plan do to the access rules of a table.  Whatever
policies and grants there were, the rules it ends with are the declared ones.
-/

namespace RootCx.RowAccess

open RootCx.Text RootCx.Postgres RootCx.RowSecurity RootCx.Runs List Function

/-! ## The access rules of a table -/

inductive Grantee where
  | everyone
  | executor
  | role (name : Text)
deriving DecidableEq, Repr

inductive Privilege where
  | select
  | insert
  | update
  | delete
deriving DecidableEq, Repr

/-- The function that answers for `parent`, and who may execute it. -/
@[ext] structure Resolver where
  parent : Text
  pk : Text
  pkType : Text
  mine : Predicate
  execute : Grantee → Bool

/-- The rules of one table of a schema, with what its schema grants and the
    resolvers of the database. -/
@[ext] structure Access where
  columns : List Text
  policies : Text → Option Policy
  onTable : Grantee → Privilege → Bool
  /-- The columns one may select without a grant on the table. -/
  onColumn : Grantee → Text → Bool
  usage : Grantee → Bool
  defaults : Grantee → Bool
  enabled : Bool
  forced : Bool
  resolvers : Text → Option Resolver

/-- The grantees that a plan takes privileges from. -/
def Grantee.managed : Grantee → Bool
  | .role _ => false
  | _ => true

def setPolicy (access : Access) (name : Text) (policy : Option Policy) : Access :=
  { access with policies := update access.policies name policy }

/-- A function keeps its grants when it is replaced, and everyone may execute a
    new one. -/
def replaced (link : LinkFacts) (mine : Predicate) (before : Option Resolver) : Resolver :=
  ⟨link.parent, link.pk, link.pkType, mine,
    (before.map (·.execute)).getD fun grantee => grantee = .everyone⟩

def setResolver (access : Access) (name : Text) (resolver : Resolver) : Access :=
  { access with resolvers := update access.resolvers name (some resolver) }

def setExecute (access : Access) (name : Text) (grantee : Grantee) (granted : Bool) : Option Access :=
  (access.resolvers name).map fun resolver =>
    setResolver access name { resolver with execute := update resolver.execute grantee granted }

/-- A statement on the table.  `none` is a statement the database refuses. -/
def step (access : Access) : Statement → Option Access
  | .grantUsage => some { access with usage := update access.usage .executor true }
  | .revokeSelect => some { access with
      onTable := fun grantee privilege =>
        !(grantee.managed && privilege = .select) && access.onTable grantee privilege
      -- a privilege taken from a table is taken from its columns
      onColumn := fun grantee column => !grantee.managed && access.onColumn grantee column }
  | .revokeSelectColumns columns =>
    if columns ⊆ access.columns then some { access with
      onColumn := fun grantee column => !(grantee.managed && column ∈ columns) && access.onColumn grantee column }
    else none
  | .grantSelect => some { access with
      onTable := fun grantee privilege =>
        (grantee = .executor && privilege = .select) || access.onTable grantee privilege }
  | .grantSelectColumns columns =>
    if columns ⊆ access.columns then some { access with
      onColumn := fun grantee column => (grantee = .executor && column ∈ columns) || access.onColumn grantee column }
    else none
  | .grantWrites => some { access with
      onTable := fun grantee privilege =>
        (grantee = .executor && privilege ≠ .select) || access.onTable grantee privilege }
  | .revokeDefaults => some { access with defaults := fun grantee => !grantee.managed && access.defaults grantee }
  | .enableRowSecurity => some { access with enabled := true }
  | .forceRowSecurity => some { access with forced := true }
  | .createResolver link mine =>
    -- the type a function returns cannot be changed
    if (access.resolvers link.resolver).all (·.pkType = link.pkType) then
      some (setResolver access link.resolver (replaced link mine (access.resolvers link.resolver)))
    else none
  | .revokeExecute resolver => setExecute access resolver .everyone false
  | .grantExecute resolver => setExecute access resolver .executor true
  | .dropPolicy name => some (setPolicy access name none)
  | .createPolicy name policy =>
    if (access.policies name).isNone then some (setPolicy access name (some policy)) else none
  | .createLock readKey =>
    if (access.policies "rootcx_rls_action_lock").isNone then
      some (setPolicy access "rootcx_rls_action_lock" (some (lockPolicy readKey)))
    else none

/-- The executor reads a column that is granted to it or to everyone. -/
def executorReads (access : Access) (column : Text) : Bool :=
  access.onTable .executor .select || access.onTable .everyone .select ||
    access.onColumn .executor column || access.onColumn .everyone column

/-! ## Privileges -/

section Privileges

variable (columns sensitive : List Text)

def settledTable (onTable : Grantee → Privilege → Bool) (grantee : Grantee) (privilege : Privilege) : Bool :=
  if privilege = .select then
    if grantee.managed then grantee = .executor && sensitive = [] else onTable grantee privilege
  else grantee = .executor || onTable grantee privilege

def settledColumns (onColumn : Grantee → Text → Bool) (grantee : Grantee) (column : Text) : Bool :=
  if grantee.managed then grantee = .executor && !(sensitive = []) && (column ∈ columns && !(column ∈ sensitive))
  else onColumn grantee column

def settledPrivileges (access : Access) : Access :=
  { access with
    onTable := settledTable sensitive access.onTable
    onColumn := settledColumns columns sensitive access.onColumn
    defaults := fun grantee => !grantee.managed && access.defaults grantee }

end Privileges

/-- What is granted once nothing is selectable for the managed grantees. -/
def grantReadable (columns sensitive : List Text) : List Statement :=
  if sensitive = [] then [.grantSelect]
  else if columns.filter (· ∉ sensitive) = [] then []
  else [.grantSelectColumns (columns.filter (· ∉ sensitive))]

def cleared (access : Access) : Access :=
  { access with
    onTable := fun grantee privilege => !(grantee.managed && privilege = .select) && access.onTable grantee privilege
    onColumn := fun grantee column => !grantee.managed && access.onColumn grantee column }

theorem run_revokes (access : Access) :
    run step access ([Statement.revokeSelect] ++ if access.columns = [] then [] else [Statement.revokeSelectColumns access.columns]) =
      some (cleared access) := by
  split
  case isTrue => rfl
  case isFalse =>
    show (step (cleared access) (.revokeSelectColumns access.columns)).bind _ = _
    rw [step, if_pos (show access.columns ⊆ (cleared access).columns from fun _ inside => inside), Option.bind_some]
    show some _ = some _
    congr 1
    ext grantee column
    all_goals try rfl
    cases grantee <;> simp [cleared, Grantee.managed]

theorem run_grantReadable (sensitive : List Text) (access : Access) :
    run step (cleared access) (grantReadable access.columns sensitive) = some { cleared access with
      onTable := fun grantee privilege =>
        (grantee = .executor && (privilege = .select && sensitive = [])) || (cleared access).onTable grantee privilege
      onColumn := settledColumns access.columns sensitive access.onColumn } := by
  unfold grantReadable
  split_ifs with whole hidden
  · show some _ = some _
    congr 1
    ext grantee item
    all_goals try rfl
    · simp [whole, cleared]
    · cases grantee <;> simp [whole, cleared, settledColumns, Grantee.managed]
  · show some _ = some _
    congr 1
    have allHidden : ∀ column ∈ access.columns, column ∈ sensitive := by simpa using hidden
    ext grantee item
    all_goals try rfl
    · simp [whole, cleared]
    · cases grantee <;> simp [whole, cleared, settledColumns, Grantee.managed]
      exact allHidden item
  · show (step (cleared access) (.grantSelectColumns _)).bind _ = _
    have granted : access.columns.filter (· ∉ sensitive) ⊆ (cleared access).columns :=
      fun _ inside => mem_of_mem_filter inside
    rw [step, if_pos granted, Option.bind_some]
    show some _ = some _
    congr 1
    ext grantee item
    all_goals try rfl
    · simp [whole, cleared]
    · cases grantee <;> simp [whole, cleared, settledColumns, Grantee.managed]

theorem run_privileges (sensitive : List Text) (access : Access) :
    run step access (privileges access.columns sensitive) = some (settledPrivileges access.columns sensitive access) := by
  have split : privileges access.columns sensitive =
      ([Statement.revokeSelect] ++ if access.columns = [] then [] else [Statement.revokeSelectColumns access.columns]) ++
        (grantReadable access.columns sensitive ++ [Statement.grantWrites, .revokeDefaults]) := by
    rw [← append_assoc]
    rfl
  rw [split, run_append (run_revokes access), run_append (run_grantReadable sensitive access)]
  show some _ = some _
  congr 1
  ext grantee item
  all_goals try rfl
  cases grantee <;> cases item <;> simp [settledPrivileges, settledTable, cleared, Grantee.managed]

/-! ## Resolvers -/

/-- A resolver after its definition and its grants. -/
def settledResolver (link : LinkFacts) (mine : Predicate) (before : Option Resolver) : Resolver :=
  ⟨link.parent, link.pk, link.pkType, mine, fun grantee =>
    match grantee with
    | .everyone => false
    | .executor => true
    | .role name => ((before.map (·.execute)).getD fun _ => false) (.role name)⟩

def resolverChanges : Predicate → List LinkFacts → List (Text × (Option Resolver → Option Resolver))
  | _, [] => []
  | mine, link :: links =>
    (link.resolver, fun before => some (settledResolver link mine before)) ::
      resolverChanges (.resolved link.link link.resolver) links

/-- No resolver is there with another type. -/
def Retypes (access : Access) (links : List LinkFacts) : Prop :=
  ∃ link ∈ links, ∃ before, access.resolvers link.resolver = some before ∧ before.pkType ≠ link.pkType

variable (mine : Predicate) {before : Access}

theorem run_resolver {access : Access} {link : LinkFacts}
    (typed : (access.resolvers link.resolver).all (·.pkType = link.pkType) = true) :
    run step access (resolver link mine) =
      some (setResolver access link.resolver (settledResolver link mine (access.resolvers link.resolver))) := by
  have created : step access (.createResolver link mine) =
      some (setResolver access link.resolver (replaced link mine (access.resolvers link.resolver))) := if_pos typed
  rw [resolver, run, created, Option.bind_some, run, step]
  simp only [setExecute, setResolver, update_self, Option.map_some, Option.bind_some, run, step,
    update_idem]
  congr 4
  apply Resolver.ext
  all_goals try rfl
  funext grantee
  cases grantee <;> cases access.resolvers link.resolver <;> simp [replaced, settledResolver]

theorem resolverChanges_names (links : List LinkFacts) :
    (resolverChanges mine links).map (·.1) = links.map (·.resolver) := by
  induction links generalizing mine with
  | nil => rfl
  | cons link links ih => rw [resolverChanges, map_cons, map_cons, ih]

theorem mem_resolverChanges (mine : Predicate) {links : List LinkFacts} {link : LinkFacts} (inside : link ∈ links) :
    ∃ mine', (link.resolver, fun before => some (settledResolver link mine' before)) ∈ resolverChanges mine links := by
  induction links generalizing mine with
  | nil => exact absurd inside not_mem_nil
  | cons first links ih =>
    rcases mem_cons.mp inside with rfl | below
    · exact ⟨mine, mem_cons_self⟩
    · obtain ⟨mine', mem⟩ := ih (.resolved first.link first.resolver) below
      exact ⟨mine', mem_cons_of_mem _ mem⟩

theorem resolverChanges_again (links : List LinkFacts) :
    ∀ entry ∈ resolverChanges mine links, ∀ value, entry.2 (entry.2 value) = entry.2 value := by
  induction links generalizing mine with
  | nil => simp [resolverChanges]
  | cons link links ih =>
    rw [resolverChanges, forall_mem_cons]
    refine ⟨fun value => ?_, ih _⟩
    apply congrArg some
    apply Resolver.ext
    all_goals rfl

/-- The resolvers of a chain are all defined unless one changes its type. -/
theorem run_ownershipLinks {mine : Predicate} {links : List LinkFacts} (once : (links.map (·.resolver)).Nodup)
    {access : Access} :
    (Retypes access links ∧ run step access (ownershipLinks mine links).1 = none) ∨
      (¬ Retypes access links ∧ run step access (ownershipLinks mine links).1 = some { access with
        resolvers := change access.resolvers (resolverChanges mine links) }) := by
  induction links generalizing mine access with
  | nil => exact .inr ⟨fun ⟨_, inside, _⟩ => absurd inside not_mem_nil, rfl⟩
  | cons link links ih =>
    rw [map_cons, nodup_cons] at once
    cases typed : (access.resolvers link.resolver).all (·.pkType = link.pkType) with
    | false =>
      cases found : access.resolvers link.resolver with
      | none => simp [found] at typed
      | some before =>
        refine .inl ⟨⟨link, mem_cons_self, before, found, by simpa [found] using typed⟩, ?_⟩
        have refused : step access (.createResolver link mine) = none := by
          rw [step, typed]
          rfl
        show (step access (.createResolver link mine)).bind _ = none
        rw [refused, Option.bind_none]
    | true =>
      rw [ownershipLinks, run_append (run_resolver mine typed), resolverChanges, change_cons]
      -- the links below name other resolvers
      have others {below : LinkFacts} (inside : below ∈ links) (resolver : Resolver) :
          (setResolver access link.resolver resolver).resolvers below.resolver = access.resolvers below.resolver := by
        apply update_of_ne
        intro same
        exact once.1 (same ▸ mem_map_of_mem inside)
      have keep (resolver : Resolver) :
          Retypes (setResolver access link.resolver resolver) links ↔ Retypes access (link :: links) := by
        constructor
        · rintro ⟨below, inside, before, found, differs⟩
          exact ⟨below, mem_cons_of_mem _ inside, before, (others inside resolver).symm.trans found, differs⟩
        · rintro ⟨below, inside, before, found, differs⟩
          rcases mem_cons.mp inside with rfl | inside
          · rw [found] at typed
            exact absurd (of_decide_eq_true typed) differs
          · exact ⟨below, inside, before, (others inside resolver).trans found, differs⟩
      rw [← keep]
      exact ih once.2

/-! ## Policies -/

/-- Statements that set the policies of `changes` whatever they were. -/
def Redefines (statements : List Statement) (changes : List (Text × Option Policy)) : Prop :=
  ∀ access : Access, run step access statements = some { access with
    policies := change access.policies (changes.map fun entry => (entry.1, fun _ => entry.2)) }

theorem Redefines.append {front rest : List Statement} {first others : List (Text × Option Policy)}
    (atFront : Redefines front first) (after : Redefines rest others) : Redefines (front ++ rest) (first ++ others) := by
  intro access
  rw [run_append (atFront access), after, map_append, change_append]

theorem Redefines.flatMap {α : Type} {statements : α → List Statement} {changes : α → List (Text × Option Policy)}
    (each : ∀ item, Redefines (statements item) (changes item)) (items : List α) :
    Redefines (items.flatMap statements) (items.flatMap changes) := by
  induction items with
  | nil => exact fun access => rfl
  | cons item items ih =>
    rw [flatMap_cons, flatMap_cons]
    exact (each item).append ih

theorem redefines_drop (name : Text) : Redefines [.dropPolicy name] [(name, none)] := fun _ => rfl

theorem redefines_create {name : Text} {policy : Policy} {create : Statement}
    (creates : ∀ access, (access.policies name).isNone = true → step access create = some (setPolicy access name (some policy))) :
    Redefines [.dropPolicy name, create] [(name, some policy)] := by
  intro access
  have dropped : ((setPolicy access name none).policies name).isNone = true := by simp [setPolicy]
  rw [run, step, Option.bind_some, run, creates _ dropped]
  simp [run, setPolicy]

theorem redefines_emit (restrictive : Bool) (name : Text) (command : Command) (clauses : Bool × Bool)
    (predicate : Option Predicate) : Redefines (emit restrictive name command clauses predicate)
      [(name, predicate.map (policyOf restrictive command clauses))] := by
  cases predicate with
  | none => exact redefines_drop name
  | some predicate => exact redefines_create fun access absent => if_pos absent

section Declared

variable (schema table guard : Text)

def ceiling (mine : Option Predicate) (rls : RlsPolicy) : Predicate :=
  .or .noPublication (.paren
    (if rls.action = "read" then publicationGate (entityKey schema guard rls.action) mine else .never))

def rowScoped (action : Text) (mine : Predicate) : Predicate := .and (gate (ownKey (entityKey schema table action))) mine

/-- The policies of one command, as they are declared. -/
def commandDeclared (mine : Option Predicate) (rls : RlsPolicy) : List (Text × Option Policy) :=
  [(rls.name, some (policyOf false rls.command rls.clauses
      (collectionGate (entityKey schema guard rls.action) mine))),
    (rls.name ++ "_own", (mine.map (rowScoped schema table rls.action)).map (policyOf false rls.command rls.clauses)),
    (rls.name ++ "_publication_ceiling",
      some (policyOf true rls.command rls.clauses (ceiling schema guard mine rls)))]

/-- Every policy a plan sets; what is not declared is absent. -/
def declaredPolicies (mine shared : Option Predicate) (approvedRead : Bool) : List (Text × Option Policy) :=
  [("rootcx_rls_select_shared".toList,
    (shared.map fun predicate => .and (gate (sharedKey schema table)) predicate).map
      (policyOf false .select (true, false)))] ++
  RLS_POLICIES.flatMap (commandDeclared schema table guard mine) ++
  [("rootcx_rls_select_publication".toList,
    (some (publicationGate (entityKey schema guard "read".toList) mine)).map (policyOf false .select (true, false)))] ++
  [("rootcx_rls_action_lock".toList,
    if approvedRead then some (lockPolicy (entityKey schema table "read".toList)) else none)]

end Declared

theorem redefines_policyStatements (schema table guard : Text) (mine shared : Option Predicate) (approvedRead : Bool) :
    Redefines (policyStatements schema table guard mine shared approvedRead)
      (declaredPolicies schema table guard mine shared approvedRead) := by
  have commands (rls : RlsPolicy) :
      Redefines (commandPolicies schema table guard mine rls) (commandDeclared schema table guard mine rls) :=
    ((redefines_emit _ _ _ _ _).append (redefines_emit _ _ _ _ _)).append (redefines_emit _ _ _ _ _)
  have lock : Redefines ([Statement.dropPolicy "rootcx_rls_action_lock".toList] ++
      if approvedRead then [Statement.createLock (entityKey schema table "read".toList)] else [])
      [("rootcx_rls_action_lock".toList,
        if approvedRead then some (lockPolicy (entityKey schema table "read".toList)) else none)] := by
    cases approvedRead with
    | false => exact redefines_drop _
    | true => exact redefines_create fun access absent => if_pos absent
  unfold policyStatements declaredPolicies
  rw [append_assoc _ [Statement.dropPolicy _]]
  exact (((redefines_emit _ _ _ _ _).append (Redefines.flatMap commands RLS_POLICIES)).append
    (redefines_emit _ _ _ _ _)).append lock

/-- The names of the policies Core manages. -/
def corePolicies : List Text :=
  ["rootcx_rls_select_shared".toList] ++
  RLS_POLICIES.flatMap (fun rls =>
    [rls.name, rls.name ++ "_own".toList, rls.name ++ "_publication_ceiling".toList]) ++
  ["rootcx_rls_select_publication".toList, "rootcx_rls_action_lock".toList]

theorem declaredPolicies_names (schema table guard : Text) (mine shared : Option Predicate) (approvedRead : Bool) :
    (declaredPolicies schema table guard mine shared approvedRead).map (·.1) = corePolicies := rfl

theorem corePolicies_nodup : corePolicies.Nodup := by decide

/-! ## The whole plan -/

section Settles

variable {catalog : Catalog} {schema table guard : Text} {owners : OwnerMap} {facts : TableFacts}
  {shared : Option Predicate} {sensitive : List Text} {approvedRead : Bool} {statements : List Statement}

/-- The resolvers a plan defines. -/
def ownerChanges (owner : Option OwnerFacts) : List (Text × (Option Resolver → Option Resolver)) :=
  (owner.map fun owner => resolverChanges (.owned owner.rootColumn owner.rootType) owner.links).getD []

def ownerLinks (owner : Option OwnerFacts) : List LinkFacts := (owner.map (·.links)).getD []

/-- The rules a plan ends with. -/
def settled (sensitive : List Text) (owner : Option OwnerFacts) (policies : List (Text × Option Policy))
    (before : Access) : Access where
  columns := before.columns
  policies := change before.policies (policies.map fun entry => (entry.1, fun _ => entry.2))
  onTable := settledTable sensitive before.onTable
  onColumn := settledColumns before.columns sensitive before.onColumn
  usage := update before.usage .executor true
  defaults := fun grantee => !grantee.managed && before.defaults grantee
  enabled := true
  forced := true
  resolvers := change before.resolvers (ownerChanges owner)

theorem run_tableRls (once : ((ownerLinks facts.owner).map (·.resolver)).Nodup)
    (planned : tableRls schema table guard facts shared sensitive approvedRead = .ok statements)
    (same : before.columns = facts.columns) :
    (Retypes before (ownerLinks facts.owner) ∧ run step before statements = none) ∨
      (¬ Retypes before (ownerLinks facts.owner) ∧ run step before statements = some
        (settled sensitive facts.owner (declaredPolicies schema table guard (mineOf facts) shared approvedRead) before)) := by
  unfold tableRls at planned
  split at planned
  case h_1 => cases planned
  case h_2 =>
    cases planned
    -- up to the resolvers every statement is accepted
    have start : run step before ([Statement.grantUsage] ++ privileges facts.columns sensitive ++
        [Statement.enableRowSecurity, .forceRowSecurity]) = some { settledPrivileges before.columns sensitive before with
          usage := update before.usage .executor true, enabled := true, forced := true } := by
      rw [← same, append_assoc, run_append (show run step before [.grantUsage] = some { before with
        usage := update before.usage .executor true } from rfl), run_append (run_privileges sensitive _)]
      rfl
    rw [append_assoc, run_append start]
    cases declared : facts.owner with
    | none =>
      refine .inr ⟨fun ⟨_, inside, _⟩ => absurd inside not_mem_nil, ?_⟩
      exact redefines_policyStatements schema table guard (mineOf facts) shared approvedRead _
    | some owner =>
      rw [declared] at once
      obtain ⟨retypes, refused⟩ | ⟨typed, made⟩ := @run_ownershipLinks (.owned owner.rootColumn owner.rootType)
        owner.links once { settledPrivileges before.columns sensitive before with
          usage := update before.usage .executor true, enabled := true, forced := true }
      · exact .inl ⟨retypes, run_append_none refused⟩
      · refine .inr ⟨typed, ?_⟩
        exact (run_append made).trans
          (redefines_policyStatements schema table guard (mineOf facts) shared approvedRead _)

theorem resolvers_once (described : tableFacts catalog schema table owners = .ok facts) :
    ((ownerLinks facts.owner).map (·.resolver)).Nodup := by
  obtain ⟨owner, read, ok⟩ := bind_eq_ok.mp described
  cases ok
  cases owner with
  | none => exact nodup_nil
  | some owner => exact ownerFacts_resolvers read

theorem settledTable_again (onTable : Grantee → Privilege → Bool) :
    settledTable sensitive (settledTable sensitive onTable) = settledTable sensitive onTable := by
  funext grantee privilege
  cases grantee <;> cases privilege <;> simp [settledTable, Grantee.managed]

theorem settledColumns_again (columns : List Text) (onColumn : Grantee → Text → Bool) :
    settledColumns columns sensitive (settledColumns columns sensitive onColumn) =
      settledColumns columns sensitive onColumn := by
  funext grantee column
  unfold settledColumns
  by_cases managed : grantee.managed = true <;> simp [managed]

theorem settled_again {owner : Option OwnerFacts} {policies : List (Text × Option Policy)}
    (once : ((ownerLinks owner).map (·.resolver)).Nodup) (distinct : (policies.map (·.1)).Nodup) (before : Access) :
    settled sensitive owner policies (settled sensitive owner policies before) = settled sensitive owner policies before := by
  apply Access.ext
  case policies =>
    apply change_again
    · rwa [map_map]
    · intro entry inside value
      obtain ⟨_, -, rfl⟩ := mem_map.mp inside
      rfl
  case onTable => exact settledTable_again before.onTable
  case onColumn => exact settledColumns_again before.columns before.onColumn
  case usage => exact update_idem ..
  case defaults => funext grantee; cases grantee <;> simp [settled, Grantee.managed]
  case resolvers =>
    cases owner with
    | none => rfl
    | some owner =>
      apply change_again
      · rw [ownerChanges, Option.map_some, Option.getD_some, resolverChanges_names]
        exact once
      · exact resolverChanges_again _ _
  all_goals rfl

theorem settled_types {owner : Option OwnerFacts} {policies : List (Text × Option Policy)}
    (once : ((ownerLinks owner).map (·.resolver)).Nodup) :
    ¬ Retypes (settled sensitive owner policies before) (ownerLinks owner) := by
  cases owner with
  | none => exact fun ⟨_, inside, _⟩ => absurd inside not_mem_nil
  | some owner =>
    rintro ⟨link, inside, resolver, found, differs⟩
    obtain ⟨mine, mem⟩ := mem_resolverChanges (.owned owner.rootColumn owner.rootType) inside
    have made := change_of_mem (by rw [resolverChanges_names]; exact once) mem before.resolvers
    cases found.symm.trans made
    exact differs rfl

theorem executorReads_settled (owner : Option OwnerFacts) (policies : List (Text × Option Policy))
    {column : Text} (inside : column ∈ before.columns) :
    executorReads (settled sensitive owner policies before) column = decide (column ∉ sensitive) := by
  by_cases whole : sensitive = [] <;>
    simp [executorReads, settled, settledTable, settledColumns, Grantee.managed, inside, whole]

/-- A plan leads from every state of the access rules of a table to the declared
    policies and to the readable columns, and running it again changes nothing.
    It is refused only when a resolver would change its type. -/
theorem table_rls_settles (described : tableFacts catalog schema table owners = .ok facts)
    (planned : tableRls schema table guard facts shared sensitive approvedRead = .ok statements) :
    ∀ before : Access, before.columns = facts.columns →
      (Retypes before (ownerLinks facts.owner) ∧ run step before statements = none) ∨
      (¬ Retypes before (ownerLinks facts.owner) ∧ ∃ after, run step before statements = some after ∧
        (∀ entry ∈ declaredPolicies schema table guard (mineOf facts) shared approvedRead, after.policies entry.1 = entry.2) ∧
        (∀ name ∉ corePolicies, after.policies name = before.policies name) ∧
        before.columns.filter (executorReads after) = before.columns.filter (· ∉ sensitive) ∧
        run step after statements = some after) := by
  have once := resolvers_once described
  have names := declaredPolicies_names schema table guard (mineOf facts) shared approvedRead
  generalize listed : declaredPolicies schema table guard (mineOf facts) shared approvedRead = policies at names
  have distinct : (policies.map (·.1)).Nodup := names ▸ corePolicies_nodup
  intro before same
  -- no policy is declared twice, so each name has one declared value
  have keys : (policies.map fun entry => (entry.1, fun _ : Option Policy => entry.2)).map (·.1) = corePolicies := by
    rw [List.map_map]
    exact names
  obtain refused | ⟨typed, ran⟩ := run_tableRls once planned same
  · exact .inl refused
  · rw [listed] at ran
    refine .inr ⟨typed, _, ran, ?_, ?_, ?_, ?_⟩
    · intro entry mem
      show change before.policies _ entry.1 = _
      rw [change_of_mem (keys ▸ corePolicies_nodup) (List.mem_map_of_mem mem)]
    · intro name foreign
      exact change_of_notMem (keys ▸ foreign) before.policies
    · apply List.filter_congr
      intro column inside
      exact executorReads_settled facts.owner policies inside
    · -- the resolvers are there now, with their types
      obtain ⟨retypes, -⟩ | ⟨-, again⟩ := run_tableRls once planned
        (show (settled sensitive facts.owner policies before).columns = facts.columns from same)
      · exact absurd retypes (settled_types once)
      · rw [listed, settled_again once distinct] at again
        exact again

end Settles

/-! Tasks belong to whom their project belongs to. -/

def hrCatalog : Catalog where
  columns table :=
    if table = "task" then
      [("id", "uuid"), ("project_id", "uuid"), ("notes", "text")]
    else if table = "project" then [("id", "uuid"), ("owner_id", "uuid")]
    else []
  primaryKey _ := some "id"

def hrOwners : OwnerMap := fun entity =>
  if entity = "task" then some ("project_id", some "project")
  else if entity = "project" then some ("owner_id", none)
  else none

def taskOwner : OwnerFacts where
  rootColumn := "owner_id"
  rootType := "uuid"
  links := [⟨"project", "project_id", "rootcx_own.hr.project", "id", "uuid"⟩]

def taskFacts : TableFacts := ⟨["id", "project_id", "notes"], some taskOwner⟩

theorem tasks_settle :
    ∃ statements, tableRls "hr".toList "task".toList "task".toList taskFacts none ["notes".toList] false = .ok statements ∧
      ∀ before : Access, before.columns = taskFacts.columns →
        (Retypes before (ownerLinks taskFacts.owner) ∧ run step before statements = none) ∨
        (¬ Retypes before (ownerLinks taskFacts.owner) ∧ ∃ after, run step before statements = some after ∧
          (∀ entry ∈ declaredPolicies "hr".toList "task".toList "task".toList (mineOf taskFacts) none false,
            after.policies entry.1 = entry.2) ∧
          (∀ name ∉ corePolicies, after.policies name = before.policies name) ∧
          before.columns.filter (executorReads after) = before.columns.filter (· ∉ ["notes".toList]) ∧
          run step after statements = some after) :=
  ⟨_, rfl, table_rls_settles (show tableFacts hrCatalog "hr".toList "task".toList hrOwners = .ok taskFacts from rfl) rfl⟩

end RootCx.RowAccess
