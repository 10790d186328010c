import RootCx.Manifest.FieldType

/-! # Tables and foreign keys

The DDL of `manifest.rs`.  A statement is kept in its parts, and its text is
rendered from them; an `expect` on an unvalidated manifest is an error.
-/

namespace RootCx

open RootCx.Text RootCx.Postgres

/-! ## Columns -/

structure ColumnDef where
  name : Text
  pgType : Text
  primaryKey : Bool := false
  notNull : Bool := false
  default : Option Text := none
  check : Option Text := none
  deriving DecidableEq, Repr

def ColumnDef.sql (column : ColumnDef) : Text :=
  quoteIdent column.name ++ " " ++ column.pgType ++
    (if column.primaryKey then " PRIMARY KEY" else "").toList ++ (if column.notNull then " NOT NULL" else "").toList ++
    (match column.default with
      | none => []
      | some default => " DEFAULT " ++ default) ++
    (match column.check with
      | none => []
      | some check => " CHECK (" ++ check ++ ")")

/-- The types of the keys that links point at, by the text of the reference. -/
abbrev PkTypes := Text → Option Text

def GEN_RANDOM_UUID : Text := "gen_random_uuid()"

/-- The type of a link's column. -/
def linkType (pkTypes : PkTypes) (field : FieldContract) : Text :=
  match field.references with
  | some reference => (pkTypes reference.entity).getD "UUID"
  | none => "UUID"

section Columns

variable (parseDecimal : Text → Option Text) (pkTypes : PkTypes)

/-- The SQL of a declared default. -/
def declaredDefault (field : FieldContract) (fieldType : FieldType) : Option Text :=
  field.defaultValue.bind fun value => sqlDefault parseDecimal value fieldType

def fieldToColumn (field : FieldContract) : Except Text ColumnDef := do
  let fieldType ← FieldType.fromField parseDecimal field
  let pgType := if field.isLink then linkType pkTypes field else fieldType.postgresType
  .ok {
    name := field.name
    pgType := pgType
    primaryKey := field.isPk
    notNull := field.required && !field.isPk
    default :=
      if field.isPk then if pgType = "UUID" then some GEN_RANDOM_UUID else none
      else declaredDefault parseDecimal field fieldType
    check := enumCheckExpr parseDecimal field }

def idColumn : ColumnDef where
  name := "id"
  pgType := "UUID"
  primaryKey := true
  default := some GEN_RANDOM_UUID

def stampColumn (name : Text) : ColumnDef where
  name := name
  pgType := "TIMESTAMPTZ"
  notNull := true
  default := some "now()"

/-- The columns of the declared fields; Core makes its time stamps itself. -/
def fieldColumns : List FieldContract → Except Text (List ColumnDef)
  | [] => .ok []
  | field :: rest =>
    if field.name = "created_at" ∨ field.name = "updated_at" then fieldColumns rest
    else do
      let column ← fieldToColumn parseDecimal pkTypes field
      let columns ← fieldColumns rest
      .ok (column :: columns)

def createColumns (entity : EntityContract) : Except Text (List ColumnDef) := do
  let columns ← fieldColumns parseDecimal pkTypes entity.fields
  let hasId := entity.isDerived || entity.fields.any fun field => field.name == "id"
  .ok ((if hasId then [] else [idColumn]) ++ columns ++
    if entity.isDerived then [] else [stampColumn "created_at", stampColumn "updated_at"])

def generateCreateTable (appId : Text) (entity : EntityContract) : Except Text Text := do
  let columns ← createColumns parseDecimal pkTypes entity
  .ok ("CREATE TABLE IF NOT EXISTS " ++ quoteIdent appId ++ "." ++ quoteIdent entity.entityName ++
    " (\n  " ++ join ",\n  " (columns.map ColumnDef.sql) ++ "\n)")

end Columns

/-! ## The types of keys -/

section Keys

variable (parseDecimal : Text → Option Text)

def keyType (entity : EntityContract) : Except Text Text :=
  match entity.fields.find? FieldContract.isPk with
  | some field => (FieldType.fromField parseDecimal field).map FieldType.postgresType
  | none => .ok "UUID"

def entityKeys : List EntityContract → Except Text PkTypes
  | [] => .ok fun _ => none
  | entity :: rest => do
    let ty ← keyType parseDecimal entity
    let others ← entityKeys rest
    .ok fun name => (others name).or (if name = entity.entityName then some ty else none)

/-- The key of a Core entity, under the reference that names it. -/
def coreKey (field : FieldContract) : Option (Text × Text) :=
  if field.isLink then
    match field.references with
    | some reference =>
      match parseEntityRef reference.entity with
      | .core name => (resolveCoreEntity name).map fun core => (reference.entity, core.pkType)
      | _ => none
    | none => none
  else none

def coreKeys (entities : List EntityContract) : List (Text × Text) :=
  (entities.flatMap fun entity => entity.fields).filterMap coreKey

def buildPkTypeMap (entities : List EntityContract) : Except Text PkTypes := do
  let keys ← entityKeys parseDecimal entities
  .ok fun name => ((coreKeys entities).reverse.lookup name).or (keys name)

end Keys

/-! ## Foreign keys -/

structure ForeignKey where
  name : Text
  column : Text
  targetSchema : Text
  targetTable : Text
  targetColumn : Text
  onDelete : Text
  deriving DecidableEq, Repr

/-- The target of a link and the end of its constraint's name. -/
def foreignTarget (appId : Text) (names : List Text) (reference : FieldReference) : Option (Text × Text × Text × Text) :=
  match parseEntityRef reference.entity with
  | .local target => if target ∈ names then some (appId, target, "id", target) else none
  | .core name => (resolveCoreEntity name).map fun core => (core.schema, core.table, core.pkColumn, "core_" ++ name)
  | .app _ _ => none

def fkName (appId entity field suffix : Text) : Text :=
  "fk_" ++ appId ++ "_" ++ entity ++ "_" ++ field ++ "_" ++ suffix

def foreignKey (appId : Text) (names : List Text) (entity : EntityContract) (field : FieldContract) : Option ForeignKey := do
  if !field.isLink then none
  else
    let reference ← field.references
    let (schema, table, column, suffix) ← foreignTarget appId names reference
    some ⟨fkName appId entity.entityName field.name suffix, field.name, schema, table, column, resolveOnDelete field⟩

/-- The statements for one link: the constraint, unless its name is taken, and an
    index on its column. -/
def ForeignKey.statements (appId : Text) (entity : EntityContract) (fk : ForeignKey) : List Text :=
  let table := quoteIdent appId ++ "." ++ quoteIdent entity.entityName
  ["DO $$ BEGIN ALTER TABLE " ++ table ++ " ADD CONSTRAINT " ++ quoteIdent fk.name ++
      " FOREIGN KEY (" ++ quoteIdent fk.column ++ ") REFERENCES " ++ quoteIdent fk.targetSchema ++
      "." ++ quoteIdent fk.targetTable ++ "(" ++ quoteIdent fk.targetColumn ++ ") ON DELETE " ++
      fk.onDelete ++ "; EXCEPTION WHEN duplicate_object THEN NULL; END $$",
    "CREATE INDEX IF NOT EXISTS " ++
      quoteIdent ("idx_" ++ appId ++ "_" ++ entity.entityName ++ "_" ++ fk.column) ++
      " ON " ++ table ++ " (" ++ quoteIdent fk.column ++ ")"]

def foreignKeys (appId : Text) (entity : EntityContract) (entities : List EntityContract) : List ForeignKey :=
  entity.fields.filterMap (foreignKey appId (entities.map (·.entityName)) entity)

def generateForeignKeys (appId : Text) (entity : EntityContract) (entities : List EntityContract) : List Text :=
  (foreignKeys appId entity entities).flatMap (ForeignKey.statements appId entity)

/-! ## What is made of admitted fields -/

section Facts

variable {parseDecimal : Text → Option Text} {pkTypes : PkTypes}

/-- A field that Core does not make itself. -/
def isStamp (name : Text) : Prop := name = "created_at" ∨ name = "updated_at"

theorem fieldToColumn_ok (pkTypes : PkTypes) {field : FieldContract} {fieldType : FieldType}
    (typed : FieldType.fromField parseDecimal field = .ok fieldType) :
    ∃ column, fieldToColumn parseDecimal pkTypes field = .ok column ∧ column.name = field.name ∧
      column.pgType = if field.isLink then linkType pkTypes field else fieldType.postgresType := by
  unfold fieldToColumn
  rw [typed]
  exact ⟨_, rfl, rfl, rfl⟩

theorem fieldColumns_ok (pkTypes : PkTypes) {list : List FieldContract}
    (typed : ∀ field ∈ list, ∃ fieldType, FieldType.fromField parseDecimal field = .ok fieldType) :
    ∃ columns, fieldColumns parseDecimal pkTypes list = .ok columns := by
  induction list with
  | nil => exact ⟨[], rfl⟩
  | cons field list ih =>
    obtain ⟨columns, made⟩ := ih fun field mem => typed field (by simp [mem])
    rw [fieldColumns]
    split
    case isTrue => exact ⟨columns, made⟩
    case isFalse =>
      obtain ⟨fieldType, known⟩ := typed field (by simp)
      obtain ⟨column, columnMade, -⟩ := fieldToColumn_ok pkTypes known
      exact ⟨column :: columns, by rw [columnMade, made]; rfl⟩

/-- The columns are those of the fields, one for each. -/
theorem mem_fieldColumns {list : List FieldContract} {columns : List ColumnDef}
    (made : fieldColumns parseDecimal pkTypes list = .ok columns) {column : ColumnDef} :
    column ∈ columns ↔ ∃ field ∈ list, ¬ isStamp field.name ∧ fieldToColumn parseDecimal pkTypes field = .ok column := by
  induction list generalizing columns with
  | nil => cases made; simp
  | cons field list ih =>
    rw [fieldColumns] at made
    split at made
    case isTrue stamp =>
      rw [ih made]
      constructor
      · rintro ⟨other, mem, rest⟩
        exact ⟨other, by simp [mem], rest⟩
      · rintro ⟨other, mem, plain, columnMade⟩
        obtain rfl | older := List.mem_cons.mp mem
        · exact absurd stamp plain
        · exact ⟨other, older, plain, columnMade⟩
    case isFalse plain =>
      obtain ⟨first, firstMade, made⟩ := bind_eq_ok.mp made
      obtain ⟨others, othersMade, made⟩ := bind_eq_ok.mp made
      cases made
      rw [List.mem_cons, ih othersMade]
      constructor
      · rintro (rfl | ⟨other, mem, rest⟩)
        · exact ⟨field, by simp, plain, firstMade⟩
        · exact ⟨other, by simp [mem], rest⟩
      · rintro ⟨other, mem, notStamp, columnMade⟩
        obtain rfl | older := List.mem_cons.mp mem
        · exact .inl (Except.ok.inj (columnMade.symm.trans firstMade))
        · exact .inr ⟨other, older, notStamp, columnMade⟩

theorem fieldToColumn_name {field : FieldContract} {column : ColumnDef}
    (made : fieldToColumn parseDecimal pkTypes field = .ok column) : column.name = field.name := by
  obtain ⟨fieldType, -, made⟩ := bind_eq_ok.mp made
  cases made
  rfl

end Facts

end RootCx
