import RootCx.Reconcile.Plan

/-! # One run of the reconciler

`rules/reconcile.rs` on its session: every statement takes effect on its own, or
a few of them in one transaction, so a run that stops leaves what the statements
before it made.  The rows of a table are others' to change between statements.
-/

namespace RootCx.Reconcile

open RootCx.Text RootCx.Postgres RootCx.Rules

inductive Failure where
  | invalid (message : Text)
  | schema (code : Text)
  deriving DecidableEq, Repr

/-! ## Statements -/

/-- What a statement that fails for a reason of its own has done by then. -/
inductive Aftermath where
  | nothing
  -- the remains of an index built concurrently
  | partly
  -- the answer was lost
  | done
  deriving DecidableEq, Repr

structure Env (Row Value : Type) where
  crates : Crates
  appId : Text
  engine : Catalog → Text → Engine Row Value
  -- the rows of a table when a statement runs
  rows : Nat → Text → List Row
  -- locks, limits and lost connections
  fault : Nat → Option (Text × Aftermath)
  -- the build of an index that is not unique
  buildPlain : CompiledIndex → List Row → Except Text Unit
  opclasses : CompiledIndex → List (Text × Text)

structure Session where
  clock : Nat
  catalog : Catalog
  -- the catalogs that were committed, the latest first
  history : List Catalog

abbrev Run (α : Type) : Type := ExceptT Failure (StateM Session) α

structure Statement (α : Type) where
  run : Nat → Catalog → Except Text α × Catalog
  -- what remains when it is interrupted
  partly : Catalog → Catalog := id

/-- How a statement ends, and the session after it. -/
def attempted {Row Value α : Type} (env : Env Row Value) (statement : Statement α) (s : Session) :
    Except Text α × Session :=
  let ran := statement.run s.clock s.catalog
  let (result, catalog) := match env.fault s.clock with
    | none => ran
    | some (code, .nothing) => (.error code, s.catalog)
    | some (code, .partly) => (.error code, statement.partly s.catalog)
    | some (code, .done) => (.error code, ran.2)
  (result, ⟨s.clock + 1, catalog, catalog :: s.history⟩)

/-- A statement whose failure the caller looks at. -/
def attempt {Row Value α : Type} (env : Env Row Value) (statement : Statement α) : Run (Except Text α) := fun s =>
  (.ok (attempted env statement s).1, (attempted env statement s).2)

/-- A statement whose failure ends the run. -/
def perform {Row Value α : Type} (env : Env Row Value) (statement : Statement α) : Run α := do
  match ← attempt env statement with
  | .ok value => pure value
  | .error code => throw (.schema code)

/-- A query changes nothing. -/
def ask {α : Type} (answer : Nat → Catalog → Except Text α) : Statement α where
  run clock catalog := (answer clock catalog, catalog)

inductive Ddl where
  | addCheck (table name sql : Text)
  | commentCheck (table name comment : Text)
  | dropCheck (table name : Text) (ifExists : Bool)
  | renameCheck (table name next : Text)
  | commentIndex (name comment : Text)
  | dropIndex (name : Text) (ifExists : Bool)
  | renameIndex (name next : Text)
  | createExtension (schema : Text)

def UNDEFINED_OBJECT : Text := "42704"
def DUPLICATE_OBJECT : Text := "42710"
def UNDEFINED_TABLE : Text := "42P01"
def DUPLICATE_TABLE : Text := "42P07"
def DEPENDENT_OBJECTS : Text := "2BP01"

def Constraint.is (table name : Text) (object : Constraint) : Bool := object.table == table && object.name == name

def Catalog.hasCheck (catalog : Catalog) (table name : Text) : Bool :=
  catalog.constraints.any (Constraint.is table name)

/-- Indexes share their names with the tables of the schema. -/
def Catalog.hasRelation (catalog : Catalog) (name : Text) : Bool :=
  catalog.indexes.any (·.name == name) || catalog.tables.any (·.1 == name)

def Catalog.mapCheck (catalog : Catalog) (table name : Text) (change : Constraint → Constraint) : Catalog :=
  { catalog with constraints := catalog.constraints.map fun object =>
      if object.is table name then change object else object }

def Catalog.mapIndex (catalog : Catalog) (name : Text) (change : Index → Index) : Catalog :=
  { catalog with indexes := catalog.indexes.map fun object => if object.name == name then change object else object }

def Catalog.dropCheck (catalog : Catalog) (table name : Text) : Catalog :=
  { catalog with constraints := catalog.constraints.filter fun object => !object.is table name }

def Catalog.dropIndex (catalog : Catalog) (name : Text) : Catalog :=
  { catalog with indexes := catalog.indexes.filter fun object => object.name != name }

section Session

variable {Row Value : Type} (env : Env Row Value)

def Ddl.apply (catalog : Catalog) : Ddl → Except Text Catalog
  | .addCheck table name sql => do
    (env.engine catalog table).analyze sql
    if catalog.hasCheck table name then .error DUPLICATE_OBJECT
    else .ok { catalog with constraints := catalog.constraints ++ [⟨table, name, sql, none, false⟩] }
  | .commentCheck table name comment =>
    if catalog.hasCheck table name then
      .ok (catalog.mapCheck table name fun object => { object with comment := some comment })
    else .error UNDEFINED_OBJECT
  | .dropCheck table name ifExists =>
    if catalog.hasCheck table name then .ok (catalog.dropCheck table name)
    else if ifExists then .ok catalog else .error UNDEFINED_OBJECT
  | .renameCheck table name next =>
    if !catalog.hasCheck table name then .error UNDEFINED_OBJECT
    else if catalog.hasCheck table next then .error DUPLICATE_OBJECT
    else .ok (catalog.mapCheck table name fun object => { object with name := next })
  | .commentIndex name comment =>
    if catalog.indexes.any (·.name == name) then
      .ok (catalog.mapIndex name fun object => { object with comment := some comment })
    else .error UNDEFINED_TABLE
  | .dropIndex name ifExists =>
    match catalog.indexes.find? (·.name == name) with
    | some object => if object.owned then .error DEPENDENT_OBJECTS else .ok (catalog.dropIndex name)
    | none => if ifExists then .ok catalog else .error UNDEFINED_OBJECT
  | .renameIndex name next =>
    if !catalog.indexes.any (·.name == name) then .error UNDEFINED_TABLE
    else if catalog.hasRelation next then .error DUPLICATE_TABLE
    else .ok (catalog.mapIndex name fun object => { object with name := next })
  | .createExtension schema => .ok { catalog with trigram := some schema }

/-- One transaction. -/
def applyAll (catalog : Catalog) : List Ddl → Except Text Catalog
  | [] => .ok catalog
  | first :: rest => do
    let next ← first.apply env catalog
    applyAll next rest

def transaction (statements : List Ddl) : Statement Unit where
  run _ catalog :=
    match applyAll env catalog statements with
    | .ok next => (.ok (), next)
    | .error code => (.error code, catalog)

def execute (statements : List Ddl) : Run Unit := perform env (transaction env statements)

/-! ## Extensions -/

/-- Install pg_trgm into Core's own schema when no app has installed it. -/
def ensureTrigram : Run Text := do
  match ← perform env (ask fun _ catalog => .ok catalog.trigram) with
  | some schema => pure schema
  | none => do
    execute env [.createExtension EXTENSION_SCHEMA]
    pure EXTENSION_SCHEMA

def declaresTrigram (entities : List EntityContract) : Bool :=
  entities.any fun entity => entity.indexes.any fun index =>
    index.using_.any fun using_ => using_.map Char.toLower == "trigram".toList

/-! ## Preflight -/

/-- Missing columns or types the install has yet to change. -/
def notEvaluableYet (code : Text) : Bool := "42".toList.isPrefixOf code

def plural (count : Nat) : Text := if count = 1 then [] else "s"

def checkRefusal (entity : EntityContract) (check : CompiledCheck) (count : Nat) (ids : List Text) : Text :=
  "rule '" ++ check.name ++ "' on '" ++ entity.entityName ++ "' is violated by " ++
    Nat.toDigits 10 count ++ " existing row" ++ plural count ++ " (ids " ++ join ", " ids ++
    "); nothing was changed"

def indexRefusal (entity : EntityContract) (index : CompiledIndex) (groups : Nat) : Text :=
  "unique index '" ++ index.name ++ "' on '" ++ entity.entityName ++ "' would reject " ++
    Nat.toDigits 10 groups ++ " group" ++ plural groups ++
    " of duplicate existing rows; nothing was changed"

/-- The answer of a preflight query, unless it cannot be asked yet. -/
def preflightAnswer {α : Type} (early : Bool) (answer : Nat → Catalog → Except Text α) : Run (Option α) := do
  match ← attempt env (ask answer) with
  | .ok found => pure (some found)
  | .error code => if early && notEvaluableYet code then pure none else throw (.schema code)

def preflightCheck (table : Table) (early : Bool) (check : CompiledCheck) : Run Unit := do
  let found ← preflightAnswer env early fun clock catalog => do
    let engine := env.engine catalog table.entity.entityName
    let rows ← engine.violations check.sql (env.rows clock table.entity.entityName)
    .ok (rows.length, (engine.ids rows).take 5)
  match found with
  | none => pure ()
  | some (count, ids) =>
    if count > 0 then throw (.invalid (checkRefusal table.entity check count ids)) else pure ()

def preflightIndex (table : Table) (early : Bool) (index : CompiledIndex) : Run Unit := do
  let found ← preflightAnswer env early fun clock catalog =>
    (env.engine catalog table.entity.entityName).duplicates index.keyValues (conjuncts index.keyValues index.predicate)
      (env.rows clock table.entity.entityName)
  match found with
  | none => pure ()
  | some groups => if groups > 0 then throw (.invalid (indexRefusal table.entity index groups)) else pure ()

def preflightChecks (table : Table) (early : Bool) : List (CompiledCheck × Plan) → Run Unit
  | [] => pure ()
  | (check, chosen) :: rest => do
    if chosen.builds then preflightCheck env table early check else pure ()
    preflightChecks table early rest

def preflightIndexes (table : Table) (early : Bool) : List (CompiledIndex × Plan) → Run Unit
  | [] => pure ()
  | (index, chosen) :: rest => do
    if index.unique && chosen.builds then preflightIndex env table early index else pure ()
    preflightIndexes table early rest

def preflightTable (table : Table) (early : Bool) : Run Unit := do
  preflightChecks env table early table.checks
  preflightIndexes env table early table.indexes

/-! ## Applying a plan -/

def nextName (name : Text) : Text := NEXT_PREFIX ++ env.crates.digest8 name

def checkComment (tag : Text) : Text := CHECK_TAG ++ tag

def indexComment (tag : Text) : Text := INDEX_TAG ++ tag

/-- `VALIDATE CONSTRAINT`. -/
def validateCheck (table name sql : Text) : Statement Unit where
  run clock catalog :=
    match (env.engine catalog table).validate sql (env.rows clock table) with
    | .ok () => (.ok (), catalog.mapCheck table name fun object => { object with valid := true })
    | .error code => (.error code, catalog)

def addValidatedCheck (table name : Text) (check : CompiledCheck) : Run Unit := do
  execute env [.addCheck table name check.sql, .commentCheck table name (checkComment (PENDING ++ check.tag))]
  match ← attempt env (validateCheck env table name check.sql) with
  | .ok () => pure ()
  | .error code => do
    -- a failure to drop it is ignored
    let _ ← attempt env (transaction env [.dropCheck table name true])
    if code = CHECK_VIOLATION then throw (.invalid ("rule '" ++ check.name ++
      "' is violated by rows written during the install; nothing was changed"))
    else throw (.schema code)

/-- The index that `CREATE INDEX` makes. -/
def newIndex (table : Table) (index : CompiledIndex) (name : Text) (valid : Bool) : Index where
  table := table.entity.entityName
  name := name
  shape := {
    unique := index.unique
    method := index.method
    predicate := index.predicate
    columns := if index.trigram then some index.columns else none
    opclasses := if index.trigram then
        index.columns.map fun _ => ("gin_trgm_ops", table.trigram.getD EXTENSION_SCHEMA)
      else env.opclasses index }
  owned := false
  comment := none
  valid := valid

/-- `CREATE INDEX`; what is left of a concurrent build is an invalid index. -/
def createIndex (table : Table) (index : CompiledIndex) (name : Text) (concurrently : Bool) : Statement Unit where
  run clock catalog :=
    let rows := env.rows clock table.entity.entityName
    if catalog.hasRelation name then (.error DUPLICATE_TABLE, catalog)
    else
      let built := if index.unique then
          (env.engine catalog table.entity.entityName).buildUnique index.method index.keyValues index.predicate rows
        else env.buildPlain index rows
      match built with
      | .ok () => (.ok (), { catalog with indexes := catalog.indexes ++ [newIndex env table index name true] })
      | .error code => (.error code, if concurrently then
          { catalog with indexes := catalog.indexes ++ [newIndex env table index name false] } else catalog)
  partly catalog :=
    if concurrently && !catalog.hasRelation name then
      { catalog with indexes := catalog.indexes ++ [newIndex env table index name false] }
    else catalog

def buildIndex (table : Table) (index : CompiledIndex) (name : Text) : Run Unit := do
  let hasRows ← perform env (ask fun clock _ => .ok !(env.rows clock table.entity.entityName).isEmpty)
  match ← attempt env (createIndex env table index name hasRows) with
  | .ok () => pure ()
  | .error code => do
    let _ ← attempt env (transaction env [.dropIndex name true])
    if code = UNIQUE_VIOLATION then throw (.invalid ("unique index '" ++ index.name ++
      "' is violated by rows written during the install; nothing was changed"))
    else throw (.schema code)

def applyCheck (table : Table) (check : CompiledCheck) : Plan → Run Unit
  | .keep => pure ()
  | .adopt => execute env [.commentCheck table.entity.entityName check.name (checkComment check.tag)]
  | .create => do
    addValidatedCheck env table.entity.entityName check.name check
    execute env [.commentCheck table.entity.entityName check.name (checkComment check.tag)]
  | .replace => do
    addValidatedCheck env table.entity.entityName (nextName env check.name) check
    execute env [
      .dropCheck table.entity.entityName check.name false,
      .renameCheck table.entity.entityName (nextName env check.name) check.name,
      .commentCheck table.entity.entityName check.name (checkComment check.tag)]

def applyIndex (table : Table) (index : CompiledIndex) : Plan → Run Unit
  | .keep => pure ()
  | .adopt => execute env [.commentIndex index.name (indexComment index.tag)]
  | .create => do
    buildIndex env table index index.name
    execute env [.commentIndex index.name (indexComment index.tag)]
  | .replace => do
    buildIndex env table index (nextName env index.name)
    execute env [
      .dropIndex index.name false,
      .renameIndex (nextName env index.name) index.name,
      .commentIndex index.name (indexComment index.tag)]

/-- One step for each element. -/
def forEach {α : Type} (step : α → Run Unit) : List α → Run Unit
  | [] => pure ()
  | item :: rest => do
    step item
    forEach step rest

def applyTable (table : Table) : Run Unit := do
  forEach (fun (check, chosen) => applyCheck env table check chosen) table.checks
  forEach (fun (index, chosen) => applyIndex env table index chosen) table.indexes

def dropObjects (table : Table) (checks indexes : List Text) : Run Unit :=
  let statements := checks.map (Ddl.dropCheck table.entity.entityName · true) ++ indexes.map (Ddl.dropIndex · true)
  if statements.isEmpty then pure () else execute env statements

/-! ## A run -/

def planned : Except Text Table → Run Table
  | .ok table => pure table
  | .error message => throw (.invalid message)

/-- The plans of all tables, each from what the catalogs say by then. -/
def plans (previous : List EntityContract) (trigram : Option Text) : List EntityContract → Run (List Table)
  | [] => pure []
  | entity :: rest => do
    let catalog ← perform env (ask fun _ catalog => .ok catalog)
    let before := previous.find? fun declared => declared.entityName == entity.entityName
    let table ← planned (plan env.crates env.appId catalog entity before trigram)
    let others ← plans previous trigram rest
    pure (table :: others)

/-- The schema of pg_trgm, if a trigram index needs it. -/
def trigramFor (entities : List EntityContract) : Run (Option Text) :=
  if declaresTrigram entities then do
    let schema ← ensureTrigram env
    pure (some schema)
  else pure none

/-- What `reconcile_on` does before its preflight. -/
def prepare (entities previous : List EntityContract) : Run (List Table) := do
  let trigram ← trigramFor env entities
  let tables ← plans env previous trigram entities
  forEach (fun table => dropObjects env table table.leftoverChecks table.leftoverIndexes) tables
  pure tables

/-- What it does afterwards. -/
def conclude (tables : List Table) : Run Unit := do
  forEach (applyTable env) tables
  forEach (fun table => dropObjects env table table.dropChecks table.dropIndexes) tables

def reconcileOn (entities previous : List EntityContract) : Run Unit := do
  let tables ← prepare env entities previous
  forEach (fun table => preflightTable env table false) tables
  conclude env tables

/-- The preflight of an install, before Core revokes anything. -/
def preflight (entities previous : List EntityContract) : Run Unit := do
  let tables ← perform env (ask fun _ catalog => .ok (catalog.tables.map Prod.fst))
  let trigram ← perform env (ask fun _ catalog => .ok catalog.trigram)
  forEach (fun entity => do
    let found ← plans env previous trigram [entity]
    forEach (fun table => preflightTable env table true) found)
    (entities.filter fun entity => tables.contains entity.entityName)

/-- The tables and columns are brought up to date. -/
def Session.synced (sync : List (Text × List Text) → List (Text × List Text)) (s : Session) : Session :=
  let catalog := { s.catalog with tables := sync s.catalog.tables }
  ⟨s.clock, catalog, catalog :: s.history⟩

/-- The part of an install that reaches the app's schema: its preflight, then its
    tables and columns, then its rules. -/
def installSchema (sync : List (Text × List Text) → List (Text × List Text)) (entities previous : List EntityContract) :
    Run Unit := do
  preflight env entities previous
  modify (Session.synced sync)
  reconcileOn env entities previous

end Session

end RootCx.Reconcile
