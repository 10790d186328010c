import RootCx.Manifest.Ddl

/-! # Schema sync

`schema_sync.rs`: the difference between the columns of a table and the fields of
its entity, and the DDL that removes it, in phases.
-/

namespace RootCx.Schema

open RootCx.Text RootCx.Postgres

/-! ## Columns of the catalog -/

structure FkInfo where
  constraintName : Text
  -- `confdeltype`
  deleteRule : Text
  deriving DecidableEq, Repr

structure DbColumn where
  name : Text
  -- as `format_type` prints it
  pgType : Text
  notNull : Bool
  -- as `pg_get_expr` prints it
  defaultExpr : Option Text
  fk : Option FkInfo
  deriving DecidableEq, Repr

/-- The columns of a table have different names. -/
structure Table where
  columns : List DbColumn
  unique : (columns.map (·.name)).Nodup

inductive ColumnDiff where
  | add (field : FieldContract) (pgType : Text)
  | drop (columnName : Text)
  | alterType (columnName fromType toType : Text)
  | setNotNull (columnName : Text)
  | dropNotNull (columnName : Text)
  | setDefault (columnName defaultSql : Text)
  | dropDefault (columnName : Text)
  | replaceFkConstraint (columnName oldName newName targetSchema targetTable deleteRule : Text)

/-! ## Comparing -/

def normalizePgType (pgType : Text) : Text :=
  if pgType = "TIMESTAMPTZ" then "timestamp with time zone" else pgType.map Char.toLower

def resolvePgType (parseDecimal : Text → Option Text) (pkTypes : PkTypes) (field : FieldContract) : Except Text Text :=
  if field.isLink then .ok (linkType pkTypes field)
  else (FieldType.fromField parseDecimal field).map FieldType.postgresType

/-- The text before the first `::`. -/
def beforeCast : Text → Text
  | ':' :: ':' :: _ => []
  | c :: rest => c :: beforeCast rest
  | [] => []

def defaultsMatch (pgExpr desired : Text) : Bool := trim (beforeCast pgExpr) == trim desired

def pgDeleteRule (code : Text) : Text :=
  if code = "c" then "CASCADE"
  else if code = "n" then "SET NULL"
  else "RESTRICT"

/-- `db_map`: a later column of the same name would replace an earlier one. -/
def columnNamed (columns : List DbColumn) (name : Text) : Option DbColumn := columns.reverse.find? (·.name = name)

section Diff

variable (parseDecimal : Text → Option Text) (pkTypes : PkTypes) (schema table : Text)

def typeDiff (column : DbColumn) (field : FieldContract) (desired : Text) : List ColumnDiff :=
  if column.pgType ≠ normalizePgType desired then [.alterType field.name column.pgType desired] else []

def nullDiff (column : DbColumn) (field : FieldContract) : List ColumnDiff :=
  let wantNotNull := field.required && !field.isPk
  if wantNotNull && !column.notNull then [.setNotNull field.name]
  else if !wantNotNull && column.notNull && !field.isPk then [.dropNotNull field.name]
  else []

def defaultDiff (column : DbColumn) (field : FieldContract) (desired : Option Text) : List ColumnDiff :=
  match column.defaultExpr, desired with
  | none, some sql => [.setDefault field.name sql]
  | some _, none => [.dropDefault field.name]
  | some existing, some sql => if defaultsMatch existing sql then [] else [.setDefault field.name sql]
  | none, none => []

/-- Schema and table of a link's target. -/
def replaceTarget (reference : FieldReference) : Option (Text × Text) :=
  match parseEntityRef reference.entity with
  | .core name => (resolveCoreEntity name).map fun core => (core.schema, core.table)
  | _ => some (schema, reference.entity)

def fkDiff (column : DbColumn) (field : FieldContract) : List ColumnDiff :=
  if field.isLink then
    match column.fk, field.references with
    | some fk, some reference =>
      if pgDeleteRule fk.deleteRule ≠ resolveOnDelete field then
        match replaceTarget schema reference with
        | some (targetSchema, target) =>
          [.replaceFkConstraint field.name fk.constraintName (fkName schema table field.name target) targetSchema target
            (resolveOnDelete field)]
        | none => []
      else []
    | _, _ => []
  else []

def desiredDefault (field : FieldContract) : Except Text (Option Text) :=
  match field.defaultValue with
  | none => .ok none
  | some value => do
    let fieldType ← FieldType.fromField parseDecimal field
    .ok (sqlDefault parseDecimal value fieldType)

def fieldDiff (columns : List DbColumn) (field : FieldContract) : Except Text (List ColumnDiff) :=
  if isSystemField field.name then .ok []
  else do
    let desired ← resolvePgType parseDecimal pkTypes field
    match columnNamed columns field.name with
    | none => .ok [.add field desired]
    | some column => do
      let default ← desiredDefault parseDecimal field
      .ok (typeDiff column field desired ++ nullDiff column field ++ defaultDiff column field default ++
        fkDiff schema table column field)

def fieldDiffs (columns : List DbColumn) : List FieldContract → Except Text (List ColumnDiff)
  | [] => .ok []
  | field :: rest => do
    let changes ← fieldDiff parseDecimal pkTypes schema table columns field
    let others ← fieldDiffs columns rest
    .ok (changes ++ others)

def dropDiffs (columns : List DbColumn) (fields : List FieldContract) : List ColumnDiff :=
  (columns.filter fun column => !isSystemField column.name && !(column.name ∈ fields.map (·.name))).map
    (.drop ·.name)

def computeDiff (columns : List DbColumn) (fields : List FieldContract) : Except Text (List ColumnDiff) := do
  let changes ← fieldDiffs parseDecimal pkTypes schema table columns fields
  .ok (changes ++ dropDiffs columns fields)

end Diff

/-! ## DDL -/

inductive Ddl where
  | dropConstraint (name : Text)
  | alterType (column toType : Text)
  | addColumn (column pgType : Text)
  | setNotNull (column : Text)
  | dropNotNull (column : Text)
  | setDefault (column sql : Text)
  | dropDefault (column : Text)
  | addForeignKey (name column targetSchema targetTable deleteRule : Text)
  | dropColumn (column : Text)
  deriving DecidableEq, Repr

def usingClause (column toType : Text) : Text :=
  let col := quoteIdent column
  if "NUMERIC" <+: toType then " USING NULLIF(" ++ col ++ "::text, '')::" ++ toType
  else if toType = "DOUBLE PRECISION" then " USING NULLIF(" ++ col ++ ", '')::DOUBLE PRECISION"
  else if toType = "BOOLEAN" then
    " USING CASE WHEN " ++ col ++ " IN ('true','1','yes','t') THEN true WHEN " ++ col ++
      " IN ('false','0','no','f') THEN false ELSE NULL END"
  else " USING " ++ col ++ "::" ++ toType

/-- The statement on a table given by its quoted name. -/
def Ddl.sql (table : Text) (statement : Ddl) : Text :=
  "ALTER TABLE " ++ table ++ match statement with
    | .dropConstraint name => " DROP CONSTRAINT IF EXISTS " ++ quoteIdent name
    | .alterType column toType => " ALTER COLUMN " ++ quoteIdent column ++ " TYPE " ++ toType ++
        usingClause column toType
    | .addColumn column pgType => " ADD COLUMN IF NOT EXISTS " ++ quoteIdent column ++ " " ++ pgType
    | .setNotNull column => " ALTER COLUMN " ++ quoteIdent column ++ " SET NOT NULL"
    | .dropNotNull column => " ALTER COLUMN " ++ quoteIdent column ++ " DROP NOT NULL"
    | .setDefault column sql => " ALTER COLUMN " ++ quoteIdent column ++ " SET DEFAULT " ++ sql
    | .dropDefault column => " ALTER COLUMN " ++ quoteIdent column ++ " DROP DEFAULT"
    | .addForeignKey name column targetSchema targetTable deleteRule =>
      " ADD CONSTRAINT " ++ quoteIdent name ++ " FOREIGN KEY (" ++ quoteIdent column ++
        ") REFERENCES " ++ quoteIdent targetSchema ++ "." ++ quoteIdent targetTable ++ "(" ++
        quoteIdent "id" ++ ") ON DELETE " ++ deleteRule
    | .dropColumn column => " DROP COLUMN IF EXISTS " ++ quoteIdent column ++ " CASCADE"

inductive Phase where
  | dropConstraints
  | alterTypes
  | addColumns
  | nullability
  | defaults
  | addConstraints
  | dropColumns
  deriving DecidableEq, Repr

def PHASES : List Phase :=
  [.dropConstraints, .alterTypes, .addColumns, .nullability, .defaults, .addConstraints, .dropColumns]

/-- The default of an added column, if its field is well typed. -/
def addedDefault (parseDecimal : Text → Option Text) (field : FieldContract) : Option Text := do
  let value ← field.defaultValue
  let fieldType ← (FieldType.fromField parseDecimal field).toOption
  sqlDefault parseDecimal value fieldType

/-- What a change puts into a phase. -/
def emitDdl (parseDecimal : Text → Option Text) : Phase → ColumnDiff → List Ddl
  | .addColumns, .add field pgType => [.addColumn field.name pgType]
  | .nullability, .add field _ => if field.required then [.setNotNull field.name] else []
  | .defaults, .add field _ => (addedDefault parseDecimal field).toList.map (.setDefault field.name)
  | .dropColumns, .drop column => [.dropColumn column]
  | .alterTypes, .alterType column _ toType => [.alterType column toType]
  | .nullability, .setNotNull column => [.setNotNull column]
  | .nullability, .dropNotNull column => [.dropNotNull column]
  | .defaults, .setDefault column sql => [.setDefault column sql]
  | .defaults, .dropDefault column => [.dropDefault column]
  | .dropConstraints, .replaceFkConstraint _ oldName _ _ _ _ => [.dropConstraint oldName]
  | .addConstraints, .replaceFkConstraint column _ newName targetSchema targetTable deleteRule =>
    [.addForeignKey newName column targetSchema targetTable deleteRule]
  | _, _ => []

def generateDdl (parseDecimal : Text → Option Text) (changes : List ColumnDiff) : List Ddl :=
  PHASES.flatMap fun phase => changes.flatMap (emitDdl parseDecimal phase)

/-! ## What the database does -/

/-- How the catalog spells a type. -/
def formatType (pgType : Text) : Text :=
  if pgType = "TIMESTAMPTZ" then "timestamp with time zone" else pgType.map Char.toLower

/-- `confdeltype` of an action. -/
def deleteCode (action : Text) : Text :=
  if action = "CASCADE" then "c"
  else if action = "SET NULL" then "n"
  else "r"

/-- How a default given for a column of a type is printed: as given, or with a
    cast behind it. -/
structure Printer where
  printed : Text → Text → Text
  suffixed : ∀ pgType sql, printed pgType sql = sql ∨ ∃ cast, printed pgType sql = sql ++ "::" ++ cast

/-- What a statement does to one column. -/
def Ddl.onColumn (printer : Printer) (statement : Ddl) (column : DbColumn) : DbColumn :=
  match statement with
  | .dropConstraint name =>
    if column.fk.any fun fk => fk.constraintName = name then { column with fk := none } else column
  | .alterType name toType => if column.name = name then { column with pgType := formatType toType } else column
  | .setNotNull name => if column.name = name then { column with notNull := true } else column
  | .dropNotNull name => if column.name = name then { column with notNull := false } else column
  | .setDefault name sql =>
    if column.name = name then { column with defaultExpr := some (printer.printed column.pgType sql) } else column
  | .dropDefault name => if column.name = name then { column with defaultExpr := none } else column
  | .addForeignKey constraint name _ _ action =>
    if column.name = name then { column with fk := some ⟨constraint, deleteCode action⟩ } else column
  | .addColumn _ _ | .dropColumn _ => column

def Ddl.run (printer : Printer) (columns : List DbColumn) (statement : Ddl) : List DbColumn :=
  match statement with
  | .addColumn name pgType =>
    if name ∈ columns.map (·.name) then columns else columns ++ [⟨name, formatType pgType, false, none, none⟩]
  | .dropColumn name => columns.filter (·.name ≠ name)
  | statement => columns.map (statement.onColumn printer)

def applyDdl (printer : Printer) (columns : List DbColumn) (statements : List Ddl) : List DbColumn :=
  statements.foldl (Ddl.run printer) columns

end RootCx.Schema
