import RootCx.Rules.Columns
import RootCx.Schema.Converge

/-! # Created tables and sync

A table is made by `generate_create_table` and `generate_foreign_keys`, and
`compute_diff` describes it a second time.
-/

namespace RootCx.Schema

open RootCx.Text RootCx.Postgres List

/-! ## What the database makes -/

/-- A column as the catalog shows it after `CREATE TABLE`. -/
def createdColumn (printer : Printer) (column : ColumnDef) : DbColumn where
  name := column.name
  pgType := formatType column.pgType
  notNull := column.notNull || column.primaryKey
  defaultExpr := column.default.map (printer.printed (formatType column.pgType))
  fk := none

/-- `CREATE TABLE` is refused when two columns are the primary key. -/
def Creatable (columns : List ColumnDef) : Prop := (columns.filter (·.primaryKey)).length ≤ 1

instance (columns : List ColumnDef) : Decidable (Creatable columns) :=
  inferInstanceAs (Decidable ((columns.filter (·.primaryKey)).length ≤ 1))

/-- A constraint whose name is taken is passed over. -/
def addForeignKey (columns : List DbColumn) (fk : ForeignKey) : List DbColumn :=
  if columns.any fun column => column.fk.any fun taken => taken.constraintName = fk.name then columns
  else columns.map fun column =>
    if column.name = fk.column then { column with fk := some ⟨fk.name, deleteCode fk.onDelete⟩ } else column

def madeTable (printer : Printer) (appId : Text) (entity : EntityContract) (entities : List EntityContract)
    (columns : List ColumnDef) : List DbColumn :=
  (foreignKeys appId entity entities).foldl addForeignKey (columns.map (createdColumn printer))

/-- A column, but for its foreign key. -/
def bare (column : DbColumn) : DbColumn := { column with fk := none }

variable {column : DbColumn} {field : FieldContract}

theorem addForeignKey_mem {columns : List DbColumn} {fk : ForeignKey}
    (mem : column ∈ addForeignKey columns fk) : ∃ before ∈ columns, bare column = bare before ∧
      (column.fk = before.fk ∨ (column.name = fk.column ∧ column.fk = some ⟨fk.name, deleteCode fk.onDelete⟩)) := by
  unfold addForeignKey at mem
  split at mem
  case isTrue => exact ⟨column, mem, rfl, .inl rfl⟩
  case isFalse =>
    obtain ⟨before, inside, rfl⟩ := mem_map.mp mem
    refine ⟨before, inside, ?_⟩
    split
    case isTrue here => exact ⟨rfl, .inr ⟨here, rfl⟩⟩
    case isFalse => exact ⟨rfl, .inl rfl⟩

theorem addForeignKey_names (columns : List DbColumn) (fk : ForeignKey) :
    (addForeignKey columns fk).map (·.name) = columns.map (·.name) := by
  unfold addForeignKey
  split
  case isTrue => rfl
  case isFalse =>
    rw [map_map]
    apply map_congr_left
    intro column _
    simp only [Function.comp]
    split <;> rfl

theorem foldl_addForeignKey_mem {fks : List ForeignKey} {columns : List DbColumn}
    (mem : column ∈ fks.foldl addForeignKey columns) : ∃ before ∈ columns, bare column = bare before ∧
      (column.fk = before.fk ∨
        ∃ fk ∈ fks, column.name = fk.column ∧ column.fk = some ⟨fk.name, deleteCode fk.onDelete⟩) := by
  induction fks using reverseRecOn generalizing column with
  | nil => exact ⟨column, mem, rfl, .inl rfl⟩
  | append_singleton fks last ih =>
    rw [foldl_append] at mem
    obtain ⟨middle, inMiddle, sameBare, key⟩ := addForeignKey_mem mem
    obtain ⟨before, inside, middleBare, middleKey⟩ := ih inMiddle
    refine ⟨before, inside, sameBare.trans middleBare, ?_⟩
    obtain kept | ⟨here, added⟩ := key
    · rw [kept]
      obtain same | ⟨fk, inFks, named, keyed⟩ := middleKey
      · exact .inl same
      · have name : column.name = middle.name := (congrArg DbColumn.name sameBare : (bare column).name = _)
        exact .inr ⟨fk, mem_append.mpr (.inl inFks), name.trans named, keyed⟩
    · exact .inr ⟨last, mem_append.mpr (.inr (mem_singleton.mpr rfl)), here, added⟩

theorem foldl_addForeignKey_names (fks : List ForeignKey) (columns : List DbColumn) :
    (fks.foldl addForeignKey columns).map (·.name) = columns.map (·.name) := by
  induction fks generalizing columns with
  | nil => rfl
  | cons fk fks ih => rw [foldl_cons, ih, addForeignKey_names]

theorem mem_foreignKeys {appId : Text} {entity : EntityContract} {entities : List EntityContract} {fk : ForeignKey}
    (mem : fk ∈ foreignKeys appId entity entities) :
    ∃ field ∈ entity.fields, fk.column = field.name ∧ fk.onDelete = resolveOnDelete field := by
  obtain ⟨field, inside, made⟩ := mem_filterMap.mp mem
  refine ⟨field, inside, ?_⟩
  unfold foreignKey at made
  split at made
  case isTrue => cases made
  case isFalse =>
    obtain ⟨reference, -, made⟩ := Option.bind_eq_some_iff.mp made
    obtain ⟨target, -, made⟩ := Option.bind_eq_some_iff.mp made
    cases made
    exact ⟨rfl, rfl⟩

/-! ## Names of created columns -/

section Created

variable {parseDecimal : Text → Option Text} {pkTypes : PkTypes} {entity : EntityContract} {columns : List ColumnDef}

theorem fieldColumns_names {list : List FieldContract} {made : List ColumnDef}
    (ok : fieldColumns parseDecimal pkTypes list = .ok made) : (made.map (·.name)).Sublist (list.map (·.name)) ∧
      ∀ name ∈ made.map (·.name), ¬ isStamp name := by
  induction list generalizing made with
  | nil => cases ok; exact ⟨List.Sublist.refl _, fun _ mem => nomatch mem⟩
  | cons field list ih =>
    rw [fieldColumns] at ok
    split at ok
    case isTrue stamp =>
      obtain ⟨sublist, plain⟩ := ih ok
      exact ⟨sublist.trans (sublist_cons_self _ _), plain⟩
    case isFalse plainField =>
      obtain ⟨first, firstMade, ok⟩ := bind_eq_ok.mp ok
      obtain ⟨others, othersMade, ok⟩ := bind_eq_ok.mp ok
      cases ok
      obtain ⟨sublist, plain⟩ := ih othersMade
      rw [map_cons, map_cons, fieldToColumn_name firstMade]
      refine ⟨sublist.cons_cons _, ?_⟩
      intro name mem
      obtain rfl | older := mem_cons.mp mem
      · exact plainField
      · exact plain name older

theorem createColumns_unique (made : createColumns parseDecimal pkTypes entity = .ok columns)
    (unique : (entity.fields.map (·.name)).Nodup) : (columns.map (·.name)).Nodup := by
  obtain ⟨declared, declaredMade, made⟩ := bind_eq_ok.mp made
  cases made
  obtain ⟨sublist, plain⟩ := fieldColumns_names declaredMade
  have declaredUnique := unique.sublist sublist
  have noId {has : Bool} (given : has = (entity.isDerived || entity.fields.any fun field => field.name == "id".toList))
      {name : Text} (inside : name ∈ (if has then [] else [idColumn]).map (·.name)) :
      name = "id".toList ∧ "id".toList ∉ declared.map (·.name) := by
    cases has with
    | true => cases inside
    | false =>
      refine ⟨mem_singleton.mp inside, fun mem => ?_⟩
      have inFields := sublist.subset mem
      obtain ⟨field, fieldMember, named⟩ := mem_map.mp inFields
      have any : (entity.fields.any fun field => field.name == "id".toList) = true :=
        any_eq_true.mpr ⟨field, fieldMember, by simp [named]⟩
      rw [any, Bool.or_true] at given
      cases given
  have stamps {name : Text} (inside : name ∈ (if entity.isDerived then []
      else [stampColumn "created_at".toList, stampColumn "updated_at".toList]).map (·.name)) : isStamp name := by
    split at inside
    · cases inside
    · obtain rfl | rest := mem_cons.mp inside
      · exact .inl rfl
      · exact .inr (mem_singleton.mp rest)
  rw [map_append, map_append]
  refine List.Nodup.append (List.Nodup.append ?_ declaredUnique ?_) ?_ ?_
  · split
    · exact nodup_nil
    · exact nodup_singleton _
  · intro name inId inDeclared
    obtain ⟨rfl, absent⟩ := noId rfl inId
    exact absent inDeclared
  · split
    · exact nodup_nil
    · decide
  · intro name inFront inStamps
    obtain inId | inDeclared := mem_append.mp inFront
    · obtain ⟨rfl, -⟩ := noId rfl inId
      exact Rules.id_not_stamp (stamps inStamps)
    · exact plain name inDeclared (stamps inStamps)

/-! ## The created column of a field -/

/-- The default a created column has. -/
def createdDefault (parseDecimal : Text → Option Text) (pkTypes : PkTypes) (field : FieldContract) : Option Text :=
  if field.isPk then if wantedType parseDecimal pkTypes field = "UUID" then some GEN_RANDOM_UUID else none
  else wantedDefault parseDecimal field

theorem fieldToColumn_eq {ty : FieldType} (typed : FieldType.fromField parseDecimal field = .ok ty) :
    fieldToColumn parseDecimal pkTypes field = .ok {
      name := field.name
      pgType := wantedType parseDecimal pkTypes field
      primaryKey := field.isPk
      notNull := field.required && !field.isPk
      default := createdDefault parseDecimal pkTypes field
      check := enumCheckExpr parseDecimal field } := by
  unfold fieldToColumn createdDefault wantedDefault wantedType typeOf
  rw [typed]
  rfl

theorem system_of_stamp {name : Text} (plain : isSystemField name = false) : ¬ isStamp name := fun stamp => by
  rw [Rules.isStamp_system stamp] at plain
  cases plain

/-- The column of a declared field in the table that is made. -/
theorem columnNamed_made {printer : Printer} {appId : Text} {entities : List EntityContract}
    (made : createColumns parseDecimal pkTypes entity = .ok columns) (unique : (entity.fields.map (·.name)).Nodup)
    {field : FieldContract} {ty : FieldType} (mem : field ∈ entity.fields)
    (typed : FieldType.fromField parseDecimal field = .ok ty) (plain : isSystemField field.name = false) :
    ∃ column, columnNamed (madeTable printer appId entity entities columns) field.name = some column ∧
      column.pgType = normalizePgType (wantedType parseDecimal pkTypes field) ∧
      column.notNull = ((field.required && !field.isPk) || field.isPk) ∧
      column.defaultExpr = (createdDefault parseDecimal pkTypes field).map
        (printer.printed (formatType (wantedType parseDecimal pkTypes field))) ∧
      ∀ fk ∈ column.fk, pgDeleteRule fk.deleteRule = resolveOnDelete field := by
  have names : (madeTable printer appId entity entities columns).map (·.name) = columns.map (·.name) := by
    rw [madeTable, foldl_addForeignKey_names, map_map]
    rfl
  have columnsUnique := createColumns_unique made unique
  have own := (Rules.mem_createColumns made).mpr
    (.inr (.inl ⟨field, mem, system_of_stamp plain, fieldToColumn_eq typed⟩))
  cases found : columnNamed (madeTable printer appId entity entities columns) field.name with
  | none =>
    rw [columnNamed_eq_none, names] at found
    exact absurd (mem_map.mpr ⟨_, own, rfl⟩) found
  | some column =>
    obtain ⟨inside, named⟩ := (columnNamed_eq_some (names ▸ columnsUnique)).mp found
    obtain ⟨before, inCreated, sameBare, key⟩ := foldl_addForeignKey_mem inside
    obtain ⟨definition, inColumns, rfl⟩ := mem_map.mp inCreated
    have name : definition.name = field.name :=
      (congrArg DbColumn.name sameBare : column.name = definition.name).symm.trans named
    obtain rfl := inj_on_of_nodup_map columnsUnique inColumns own name
    refine ⟨column, rfl, congrArg DbColumn.pgType sameBare, congrArg DbColumn.notNull sameBare,
      congrArg DbColumn.defaultExpr sameBare, ?_⟩
    intro fk hasFk
    obtain same | ⟨declared, inDeclared, onColumn, keyed⟩ := key
    · rw [same] at hasFk
      cases hasFk
    · obtain ⟨other, otherMember, otherName, otherRule⟩ := mem_foreignKeys inDeclared
      obtain rfl := inj_on_of_nodup_map unique otherMember mem (otherName.symm.trans (onColumn.symm.trans named))
      rw [keyed] at hasFk
      cases hasFk
      rw [otherRule]
      exact pgDeleteRule_deleteCode other

theorem dropDiffs_made {printer : Printer} {appId : Text} {entities : List EntityContract}
    (made : createColumns parseDecimal pkTypes entity = .ok columns) :
    dropDiffs (madeTable printer appId entity entities columns) entity.fields = [] := by
  rw [dropDiffs, map_eq_nil_iff, filter_eq_nil_iff]
  intro column mem
  obtain ⟨before, inCreated, sameBare, -⟩ := foldl_addForeignKey_mem mem
  obtain ⟨definition, inColumns, rfl⟩ := mem_map.mp inCreated
  have name : column.name = definition.name := (congrArg DbColumn.name sameBare : (bare column).name = _)
  rw [name]
  obtain ⟨rfl, -⟩ | ⟨field, inside, -, fieldMade⟩ | ⟨-, other, stamp, rfl⟩ := (Rules.mem_createColumns made).mp inColumns
  · have system : isSystemField idColumn.name = true := rfl
    simp [system]
  · rw [fieldToColumn_name fieldMade]
    simp only [Bool.and_eq_true, Bool.not_eq_true', decide_eq_false_iff_not, not_and, not_not]
    exact fun _ => mem_map.mpr ⟨field, inside, rfl⟩
  · have system : isSystemField (stampColumn other).name = true := Rules.isStamp_system stamp
    simp [system]

/-! ## Agreement -/

/-- The default of a created column is the one that sync looks for: a declared
    key has no default of its own unless it is a uuid, and any other column has
    its declared default, which must survive printing. -/
def DefaultAgrees (parseDecimal : Text → Option Text) (pkTypes : PkTypes) (field : FieldContract) : Prop :=
  if field.isPk then
    if wantedType parseDecimal pkTypes field = "UUID" then
      ∃ sql, wantedDefault parseDecimal field = some sql ∧ trim sql = GEN_RANDOM_UUID
    else wantedDefault parseDecimal field = none
  else ∀ sql ∈ wantedDefault parseDecimal field, CastFree sql

theorem genRandomUuid_castFree : CastFree GEN_RANDOM_UUID := ⟨by decide, by decide⟩

theorem defaultsMatch_genRandomUuid (printer : Printer) (pgType sql : Text) :
    defaultsMatch (printer.printed pgType GEN_RANDOM_UUID) sql = true ↔ trim sql = GEN_RANDOM_UUID := by
  have before : beforeCast (printer.printed pgType GEN_RANDOM_UUID) = GEN_RANDOM_UUID := by
    obtain plain | ⟨cast, suffixed⟩ := printer.suffixed pgType GEN_RANDOM_UUID
    · rw [plain, beforeCast_self genRandomUuid_castFree]
    · rw [suffixed, beforeCast_cast genRandomUuid_castFree]
  rw [defaultsMatch, before, beq_iff_eq, show trim GEN_RANDOM_UUID = GEN_RANDOM_UUID by decide]
  exact eq_comm

theorem defaultDiff_nil_iff {desired : Option Text} :
    defaultDiff column field desired = [] ↔
      (column.defaultExpr = none ∧ desired = none) ∨
        ∃ existing sql, column.defaultExpr = some existing ∧ desired = some sql ∧ defaultsMatch existing sql = true := by
  unfold defaultDiff
  cases column.defaultExpr with
  | none => cases desired <;> simp
  | some existing => cases desired <;> simp

/-- Whatever the printing, the defaults agree. -/
theorem defaults_agree_iff {column : Printer → DbColumn} {pgType : Text}
    (created : ∀ printer, (column printer).defaultExpr =
      (createdDefault parseDecimal pkTypes field).map (printer.printed pgType)) :
    (∀ printer, defaultDiff (column printer) field (wantedDefault parseDecimal field) = []) ↔
      DefaultAgrees parseDecimal pkTypes field := by
  simp only [defaultDiff_nil_iff, created]
  unfold createdDefault DefaultAgrees
  by_cases key : field.isPk = true
  · rw [if_pos key, if_pos key]
    by_cases uuid : wantedType parseDecimal pkTypes field = "UUID"
    · rw [if_pos uuid, if_pos uuid]
      constructor
      · intro all
        obtain ⟨none, -⟩ | ⟨existing, sql, printed, wanted, matched⟩ := all castPrinter
        · cases none
        · cases printed
          exact ⟨sql, wanted, (defaultsMatch_genRandomUuid castPrinter pgType sql).mp matched⟩
      · rintro ⟨sql, wanted, same⟩ printer
        exact .inr ⟨_, sql, rfl, wanted, (defaultsMatch_genRandomUuid printer pgType sql).mpr same⟩
    · rw [if_neg uuid, if_neg uuid]
      constructor
      · intro all
        obtain ⟨-, wanted⟩ | ⟨existing, sql, printed, -⟩ := all castPrinter
        · exact wanted
        · cases printed
      · exact fun wanted printer => .inl ⟨rfl, wanted⟩
  · rw [if_neg key, if_neg key]
    cases wanted : wantedDefault parseDecimal field with
    | none => simp
    | some sql =>
      constructor
      · intro all other same
        cases same
        by_contra lost
        obtain ⟨none, -⟩ | ⟨existing, sql', printed, same, matched⟩ := all castPrinter
        · cases none
        · cases printed
          cases same
          rw [show castPrinter.printed pgType sql = sql ++ "::" ++ pgType from rfl, defaultsMatch_lost lost] at matched
          cases matched
      · intro free printer
        exact .inr ⟨_, sql, rfl, rfl, defaultsMatch_printed printer (free sql rfl) pgType⟩

end Created

def documents : EntityContract where
  entityName := "documents"
  fields := [{ name := "body", fieldType := "text" }]

def chunks : EntityContract where
  entityName := "chunks"
  fields := [{ name := "chunk", fieldType := "uuid", isPrimaryKey := some true }]
  derivedFrom := some "documents"

def chunksManifest : AppManifest := ⟨"crm", [documents, chunks]⟩

def chunkColumns : List ColumnDef :=
  [{ name := "chunk", pgType := "UUID", primaryKey := true, default := some GEN_RANDOM_UUID }]

end RootCx.Schema
