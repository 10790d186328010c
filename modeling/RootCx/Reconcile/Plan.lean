import RootCx.Reconcile.Preflight

/-! # The plan of an install

`plan` in `rules/reconcile.rs` classifies the checks and indexes of a table by
their names, comments and validity, and says what happens to each.
-/

namespace RootCx.Reconcile

open RootCx.Text RootCx.Postgres RootCx.Rules

def CHECK_TAG : Text := "rootcx:chk:"
def INDEX_TAG : Text := "rootcx:idx:"
def PENDING : Text := "pending-"
def NEXT_PREFIX : Text := "rootcx_next_"
def EXTENSION_SCHEMA : Text := "rootcx_ext"

/-! ## The catalog -/

/-- A check constraint of a table. -/
structure Constraint where
  table : Text
  name : Text
  sql : Text
  comment : Option Text
  valid : Bool
  deriving DecidableEq, Repr

structure IndexShape where
  unique : Bool
  method : Text
  predicate : Option Text
  -- the columns of the keys, unless one is an expression
  columns : Option (List Text)
  -- the operator class of each key: its name and schema
  opclasses : List (Text × Text)
  deriving DecidableEq, Repr

structure Index where
  table : Text
  name : Text
  shape : IndexShape
  -- whether a primary key or unique constraint rests on it
  owned : Bool
  comment : Option Text
  valid : Bool
  deriving DecidableEq, Repr

/-- What the catalogs say of an app's schema. -/
structure Catalog where
  -- the tables, with their columns
  tables : List (Text × List Text)
  constraints : List Constraint
  indexes : List Index
  -- the schema pg_trgm is installed in
  trigram : Option Text
  deriving DecidableEq, Repr

def Catalog.checksOf (catalog : Catalog) (table : Text) : List Constraint :=
  catalog.constraints.filter (·.table == table)

def Catalog.indexesOf (catalog : Catalog) (table : Text) : List Index :=
  catalog.indexes.filter (·.table == table)

/-! ## Plans -/

inductive Plan where
  | keep
  -- a legacy object that means the same: its tag is rewritten
  | adopt
  | create
  -- an object of the same name that means something else, or says nothing
  | replace
  deriving DecidableEq, Repr

/-- The plans that put an object in place. -/
def Plan.builds : Plan → Bool
  | .create | .replace => true
  | .keep | .adopt => false

structure Table where
  entity : EntityContract
  trigram : Option Text
  checks : List (CompiledCheck × Plan)
  indexes : List (CompiledIndex × Plan)
  dropChecks : List Text
  dropIndexes : List Text
  leftoverChecks : List Text
  leftoverIndexes : List Text

def tagOf (comment : Option Text) (stem : Text) : Option Text :=
  comment.bind fun comment => if stem.isPrefixOf comment then some (comment.drop stem.length) else none

/-- The manifest before declared this check, from the same source. -/
def checkWasDeclared (previous : Option EntityContract) (current : EntityContract) (check : CompiledCheck) : Bool :=
  match previous with
  | none => false
  | some previous =>
    match check.origin with
    | .check expr => previous.checks.any fun declared => declared.name == some check.name && declared.expr == expr
    | .enum field =>
      let find (entity : EntityContract) :=
        (entity.fields.find? fun declared => declared.name == field).map fun declared =>
          (declared.fieldType, declared.enumValues)
      (find previous).isSome && find previous == find current
    | .shorthand => false

def indexWasDeclared (printable : Char → Bool) (previous : Option EntityContract) (index : CompiledIndex) : Bool :=
  previous.any fun previous => previous.indexes.any fun declared =>
    resolveIndexName printable previous.entityName declared == index.name && declared == index.declared

/-- An existing index is already what a trigram index is declared to be. -/
def trigramMatches (existing : Index) (columns : List Text) (trigram : Text) : Bool :=
  existing.valid && existing.shape.columns == some columns && existing.shape.method == "gin" &&
    existing.shape.predicate.isNone && existing.shape.opclasses.all (· == ("gin_trgm_ops".toList, trigram))

/-- Never enforced on all rows, or replaced already. -/
def leftoverCheck (existing : Constraint) : Bool :=
  (tagOf existing.comment CHECK_TAG).any (PENDING.isPrefixOf ·) || NEXT_PREFIX.isPrefixOf existing.name

def leftoverIndex (rules : EntityRules) (existing : Index) : Bool :=
  let ours := NEXT_PREFIX.isPrefixOf existing.name || rules.indexes.any (·.name == existing.name) ||
    (tagOf existing.comment INDEX_TAG).isSome
  NEXT_PREFIX.isPrefixOf existing.name || (ours && !existing.valid)

def planCheck (previous : Option EntityContract) (entity : EntityContract) (now : List Constraint)
    (check : CompiledCheck) : Plan :=
  match now.find? fun existing => existing.name == check.name && !leftoverCheck existing with
  | none => .create
  | some existing =>
    match tagOf existing.comment CHECK_TAG with
    | none => .replace
    | some tag =>
      if tag == check.tag && existing.valid then .keep
      else if existing.valid && check.legacyTag == some tag && checkWasDeclared previous entity check then .adopt
      else .replace

def planIndex (printable : Char → Bool) (previous : Option EntityContract) (trigram : Option Text) (rules : EntityRules)
    (now : List Index) (index : CompiledIndex) : Plan :=
  match now.find? fun existing => existing.name == index.name && !leftoverIndex rules existing with
  | none => .create
  | some existing =>
    let tag := tagOf existing.comment INDEX_TAG
    if tag == some index.tag then .keep
    else if tag == some index.legacyTag && indexWasDeclared printable previous index then .adopt
    else
      let sameShape := match index.trigram, trigram with
        | true, some trigram => trigramMatches existing index.columns trigram
        | _, _ => false
      if sameShape then .adopt else .replace

/-- The plan for one table. -/
def plan (crates : Crates) (schema : Text) (catalog : Catalog) (entity : EntityContract)
    (previous : Option EntityContract) (trigram : Option Text) : Except Text Table := do
  let rules ← (compileEntity crates entity).mapError fun message =>
    "rules for '" ++ schema ++ "." ++ entity.entityName ++ "': " ++ message
  let checksNow := catalog.checksOf entity.entityName
  let indexesNow := catalog.indexesOf entity.entityName
  .ok {
    entity := entity
    trigram := trigram
    checks := rules.checks.map fun check => (check, planCheck previous entity checksNow check)
    indexes := rules.indexes.map fun index =>
      (index, planIndex crates.printable previous trigram rules indexesNow index)
    dropChecks := (checksNow.filter fun existing => (tagOf existing.comment CHECK_TAG).isSome &&
      !rules.checks.any (·.name == existing.name) && !leftoverCheck existing).map (·.name)
    dropIndexes := (indexesNow.filter fun existing => (tagOf existing.comment INDEX_TAG).isSome &&
      !rules.indexes.any (·.name == existing.name) && !leftoverIndex rules existing).map (·.name)
    leftoverChecks := (checksNow.filter leftoverCheck).map (·.name)
    leftoverIndexes := (indexesNow.filter (leftoverIndex rules)).map (·.name) }

end RootCx.Reconcile
