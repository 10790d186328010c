import RootCx.Lib.RowSecurity
import RootCx.RowAccess.Ownership

/-! # The row-access plan

`governance/row_access/plan.rs`: the statements that bring the access rules of a
table to their declared state, as data with the SQL text they stand for.
-/

namespace RootCx.RowAccess

open RootCx.Text RootCx.Postgres RootCx.RowSecurity

/-! ## The catalog answers -/

/-- One delegation link: the column `link` points at the key of `parent`. -/
structure LinkFacts where
  parent : Text
  link : Text
  resolver : Text
  pk : Text
  pkType : Text
deriving DecidableEq, Repr

/-- A resolved ownership chain, root first. -/
structure OwnerFacts where
  rootColumn : Text
  rootType : Text
  links : List LinkFacts
deriving DecidableEq, Repr

structure TableFacts where
  columns : List Text
  owner : Option OwnerFacts

/-! ## Conditions -/

/-- The settings of a session that Core poses, each under `rootcx.`. -/
inductive Setting where
  | userId
  | appId
  | humanDataRequest
  | approvedActionId
  | publicationId
  | publicationReadKey
  | publicationReleaseOwnership
  | invocationKind
  | actionId
  | isDelegated
  | effectivePerms
  | agentCollectionReadKey
  | agentCollectionMutation
  | crossAppGrantId
  | crossAppSourceApp
  | crossAppAction
deriving DecidableEq, Repr

/-- The functions of `rootcx_system` that policies ask. -/
inductive Gate where
  | access
  | crossApp
  | publication
  | approvedAction
deriving DecidableEq, Repr

def Gate.name : Gate → Text
  | .access => "check_access"
  | .crossApp => "check_cross_app_access"
  | .publication => "check_publication_access"
  | .approvedAction => "check_approved_action_access"

/-- The conditions policies are made of, with their parentheses. -/
inductive Predicate where
  | gate (function : Gate) (key : Text)
  /-- The column holds the caller's id. -/
  | owned (column pgType : Text)
  /-- The column is among the keys a resolver returns. -/
  | resolved (column resolver : Text)
  | shared (column resolver : Text)
  | noPublication
  | released
  | never
  /-- A condition of somebody else's policy. -/
  | other (text : Text)
  | and (left right : Predicate)
  | or (left right : Predicate)
  | paren (inner : Predicate)
deriving DecidableEq, Repr

def Predicate.sql : Predicate → Text
  | .gate function key =>
    "(SELECT rootcx_system." ++ function.name ++ "(" ++ quoteLiteral key ++ "))"
  | .owned column pgType =>
    quoteIdent column ++ " = (SELECT nullif(current_setting('rootcx.user_id', true), ''))::" ++ pgType
  | .resolved column resolver =>
    quoteIdent column ++ " = ANY (ARRAY(SELECT rootcx_system." ++ quoteIdent resolver ++ "()))"
  | .shared column resolver =>
    quoteIdent column ++ " IN (SELECT rootcx_system." ++ quoteIdent resolver ++ "())"
  | .noPublication => "coalesce(current_setting('rootcx.publication_id', true), '') = ''"
  | .released => "current_setting('rootcx.publication_release_ownership', true) = '1'"
  | .never => "FALSE"
  | .other text => text
  | .and left right => left.sql ++ " AND " ++ right.sql
  | .or left right => left.sql ++ " OR " ++ right.sql
  | .paren inner => "(" ++ inner.sql ++ ")"

/-- A permission requirement. -/
def gate (key : Text) : Predicate := .gate .access key

def crossGate (key : Text) : Predicate := .gate .crossApp key

def OWN_SCOPE : Text := "own"

def ownKey (key : Text) : Text := key ++ "." ++ OWN_SCOPE

def collectionGate (key : Text) : Option Predicate → Predicate
  | some mine => .paren (.or (gate key) (.paren (.and (.paren (.or (crossGate key) (crossGate (ownKey key)))) mine)))
  | none => .paren (.or (gate key) (crossGate key))

/-- An owned entity keeps confining a public read unless the publication
    releases ownership. -/
def publicationGate (key : Text) : Option Predicate → Predicate
  | some mine => .and (.gate .publication key) (.paren (.or .released (.paren mine)))
  | none => .gate .publication key

/-! ## Statements -/

structure Policy where
  restrictive : Bool
  command : Option Command
  usingClause : Option Predicate
  withCheck : Option Predicate
deriving DecidableEq, Repr

inductive Statement where
  | grantUsage
  | revokeSelect
  | revokeSelectColumns (columns : List Text)
  | grantSelect
  | grantSelectColumns (columns : List Text)
  | grantWrites
  | revokeDefaults
  | enableRowSecurity
  | forceRowSecurity
  | createResolver (link : LinkFacts) (mine : Predicate)
  | revokeExecute (resolver : Text)
  | grantExecute (resolver : Text)
  | dropPolicy (name : Text)
  | createPolicy (name : Text) (policy : Policy)
  | createLock (readKey : Text)
deriving DecidableEq, Repr

/-- The lock an approved reader may take: it finds rows and leaves none. -/
def lockPolicy (readKey : Text) : Policy where
  restrictive := false
  command := some .update
  usingClause := some (.gate .approvedAction readKey)
  withCheck := some .never

section Sql

variable (schema table : Text)

def commandText : Option Command → Text
  | some .select => "SELECT"
  | some .insert => "INSERT"
  | some .delete => "DELETE"
  | some .update => "UPDATE"
  | none => "ALL"

def qualifiedTable : Text := quoteIdent schema ++ "." ++ quoteIdent table

def entityKey (entity action : Text) : Text :=
  "app:" ++ schema ++ ":" ++ entity ++ "." ++ action

def resolverSignature (resolver : Text) : Text := "rootcx_system." ++ quoteIdent resolver ++ "()"

def columnList (columns : List Text) : Text := join ", " (columns.map quoteIdent)

def policyBody (policy : Policy) : Text :=
  join " ".toList
    ((policy.usingClause.map fun predicate => "USING (".toList ++ predicate.sql ++ ")".toList).toList ++
      (policy.withCheck.map fun predicate => "WITH CHECK (".toList ++ predicate.sql ++ ")".toList).toList)

def Statement.sql : Statement → Text
  | .grantUsage => "GRANT USAGE ON SCHEMA ".toList ++ quoteIdent schema ++ " TO rootcx_app_executor".toList
  | .revokeSelect =>
    "REVOKE SELECT ON ".toList ++ qualifiedTable schema table ++ " FROM PUBLIC, rootcx_app_executor".toList
  | .revokeSelectColumns columns =>
    "REVOKE SELECT (".toList ++ columnList columns ++ ") ON ".toList ++ qualifiedTable schema table ++
      " FROM PUBLIC, rootcx_app_executor".toList
  | .grantSelect => "GRANT SELECT ON ".toList ++ qualifiedTable schema table ++ " TO rootcx_app_executor".toList
  | .grantSelectColumns columns =>
    "GRANT SELECT (".toList ++ columnList columns ++ ") ON ".toList ++ qualifiedTable schema table ++
      " TO rootcx_app_executor".toList
  | .grantWrites =>
    "GRANT INSERT, UPDATE, DELETE ON ".toList ++ qualifiedTable schema table ++ " TO rootcx_app_executor".toList
  | .revokeDefaults =>
    "ALTER DEFAULT PRIVILEGES IN SCHEMA ".toList ++ quoteIdent schema ++
      " REVOKE ALL ON TABLES FROM PUBLIC, rootcx_app_executor".toList
  | .enableRowSecurity => "ALTER TABLE ".toList ++ qualifiedTable schema table ++ " ENABLE ROW LEVEL SECURITY".toList
  | .forceRowSecurity => "ALTER TABLE ".toList ++ qualifiedTable schema table ++ " FORCE ROW LEVEL SECURITY".toList
  | .createResolver link mine =>
    "CREATE OR REPLACE FUNCTION ".toList ++ resolverSignature link.resolver ++ " RETURNS SETOF ".toList ++ link.pkType ++
      " LANGUAGE sql STABLE SECURITY DEFINER SET search_path = pg_catalog AS $rootcx$ SELECT ".toList ++
      quoteIdent link.pk ++ " FROM ".toList ++ qualifiedTable schema link.parent ++
      " WHERE (current_setting('rootcx.human_data_request', true) = '1' ".toList ++
      "OR coalesce(nullif(current_setting('rootcx.app_id', true), ''), ".toList ++ quoteLiteral schema ++ ") = ".toList ++
      quoteLiteral schema ++ ") AND (coalesce(current_setting('rootcx.approved_action_id', true), '') = '' ".toList ++
      "OR rootcx_system.check_approved_action_access(".toList ++
      quoteLiteral (entityKey schema link.parent "read".toList) ++ ")) AND ".toList ++ mine.sql ++ " $rootcx$".toList
  | .revokeExecute resolver => "REVOKE ALL ON FUNCTION ".toList ++ resolverSignature resolver ++ " FROM PUBLIC".toList
  | .grantExecute resolver =>
    "GRANT EXECUTE ON FUNCTION ".toList ++ resolverSignature resolver ++ " TO rootcx_app_executor".toList
  | .dropPolicy name => "DROP POLICY IF EXISTS ".toList ++ name ++ " ON ".toList ++ qualifiedTable schema table
  | .createPolicy name policy =>
    "CREATE POLICY ".toList ++ name ++ " ON ".toList ++ qualifiedTable schema table ++ " ".toList ++
      (if policy.restrictive then "AS RESTRICTIVE".toList else []) ++ " FOR ".toList ++ commandText policy.command ++
      " ".toList ++ policyBody policy
  | .createLock readKey =>
    "CREATE POLICY rootcx_rls_action_lock ON ".toList ++ qualifiedTable schema table ++ " FOR UPDATE USING (".toList ++
      (Predicate.gate .approvedAction readKey).sql ++ ") WITH CHECK (FALSE)".toList

end Sql

/-! ## The plan of a table -/

/-- One policy every table carries: its name, its command, the permission action
    gating it and the clauses it needs. -/
structure RlsPolicy where
  name : Text
  command : Command
  action : Text
  clauses : Bool × Bool

def RLS_POLICIES : List RlsPolicy :=
  [⟨"rootcx_rls_select", .select, "read", (true, false)⟩,
    ⟨"rootcx_rls_insert", .insert, "create", (false, true)⟩,
    ⟨"rootcx_rls_delete", .delete, "delete", (true, false)⟩,
    ⟨"rootcx_rls_update", .update, "update", (true, true)⟩]

def policyOf (restrictive : Bool) (command : Command) (clauses : Bool × Bool) (predicate : Predicate) : Policy where
  restrictive := restrictive
  command := some command
  usingClause := if clauses.1 then some predicate else none
  withCheck := if clauses.2 then some predicate else none

/-- Dropped first either way, so that each call is a redefinition. -/
def emit (restrictive : Bool) (name : Text) (command : Command) (clauses : Bool × Bool) :
    Option Predicate → List Statement
  | none => [.dropPolicy name]
  | some predicate => [.dropPolicy name, .createPolicy name (policyOf restrictive command clauses predicate)]

def policy (name : Text) (command : Command) (clauses : Bool × Bool) (predicate : Option Predicate) : List Statement :=
  emit false name command clauses predicate

def restrictivePolicy (name : Text) (command : Command) (clauses : Bool × Bool) (predicate : Predicate) :
    List Statement :=
  emit true name command clauses (some predicate)

/-- Historic grants of both shapes are revoked before the readable columns are
    granted. -/
def privileges (columns sensitive : List Text) : List Statement :=
  [Statement.revokeSelect] ++
  (if columns = [] then [] else [Statement.revokeSelectColumns columns]) ++
  (if sensitive = [] then [Statement.grantSelect]
    else if columns.filter (· ∉ sensitive) = [] then []
    else [Statement.grantSelectColumns (columns.filter (· ∉ sensitive))]) ++
  [Statement.grantWrites, .revokeDefaults]

def resolver (link : LinkFacts) (mine : Predicate) : List Statement :=
  [.createResolver link mine, .revokeExecute link.resolver, .grantExecute link.resolver]

/-- The resolvers of the links below `mine`, and what is mine below them. -/
def ownershipLinks : Predicate → List LinkFacts → List Statement × Predicate
  | mine, [] => ([], mine)
  | mine, link :: links =>
    let rest := ownershipLinks (.resolved link.link link.resolver) links
    (resolver link mine ++ rest.1, rest.2)

def ownership (owner : OwnerFacts) : List Statement × Predicate :=
  ownershipLinks (.owned owner.rootColumn owner.rootType) owner.links

def mineOf (facts : TableFacts) : Option Predicate := facts.owner.map fun owner => (ownership owner).2

section Plan

variable (schema table guard : Text)

/-- The three policies of one command. -/
def commandPolicies (mine : Option Predicate) (rls : RlsPolicy) : List Statement :=
  policy rls.name rls.command rls.clauses (some (collectionGate (entityKey schema guard rls.action) mine)) ++
  policy (rls.name ++ "_own") rls.command rls.clauses
    (mine.map fun mine => .and (gate (ownKey (entityKey schema table rls.action))) mine) ++
  restrictivePolicy (rls.name ++ "_publication_ceiling") rls.command rls.clauses
    (.or .noPublication (.paren
      (if rls.action = "read" then publicationGate (entityKey schema guard rls.action) mine else .never)))

def sharedKey : Text := entityKey schema table "read.shared"

def policyStatements (mine shared : Option Predicate) (approvedRead : Bool) : List Statement :=
  policy "rootcx_rls_select_shared" .select (true, false)
    (shared.map fun predicate => .and (gate (sharedKey schema table)) predicate) ++
  RLS_POLICIES.flatMap (commandPolicies schema table guard mine) ++
  policy "rootcx_rls_select_publication" .select (true, false)
    (some (publicationGate (entityKey schema guard "read") mine)) ++
  [Statement.dropPolicy "rootcx_rls_action_lock"] ++
  (if approvedRead then [Statement.createLock (entityKey schema table "read")] else [])

/-- Every statement that brings the access rules of a table to their declared
    state, in execution order. -/
def tableRls (facts : TableFacts) (shared : Option Predicate) (sensitive : List Text) (approvedRead : Bool) :
    Except Text (List Statement) :=
  match sensitive.find? (· ∉ facts.columns) with
  | some field => .error ("governance: sensitive column '" ++ schema ++ "." ++ table ++ "." ++
      field ++ "' is missing")
  | none => .ok
      ([Statement.grantUsage] ++ privileges facts.columns sensitive ++ [Statement.enableRowSecurity, .forceRowSecurity] ++
        ((facts.owner.map fun owner => (ownership owner).1).getD []) ++
        policyStatements schema table guard (mineOf facts) shared approvedRead)

end Plan

end RootCx.RowAccess
