import RootCx.Manifest.Validate
import RootCx.Schema.Sync

/-! # Convergence of schema sync

The DDL of a difference is applied to the table and the difference is computed
again.  Each attribute of a column is followed through the statements that write
it.
-/

namespace RootCx.Schema

open RootCx.Text RootCx.Postgres List

/-! ## Defaults that survive printing -/

/-- No `::` in the text, and none at its end when one follows. -/
def CastFree (sql : Text) : Prop := ¬ "::" <:+: sql ∧ sql.getLast? ≠ some ':'

theorem beforeCast_cons {c : Char} {rest : Text} (plain : ¬ (c = ':' ∧ rest.head? = some ':')) :
    beforeCast (c :: rest) = c :: beforeCast rest := by
  rw [beforeCast]
  rintro more rfl rfl
  exact plain ⟨rfl, rfl⟩

theorem castFree_cons {c : Char} {rest : Text} :
    CastFree (c :: rest) ↔ ¬ (c = ':' ∧ (rest ++ ":").head? = some ':') ∧ CastFree rest := by
  have infixed : "::" <:+: c :: rest ↔ (c = ':' ∧ rest.head? = some ':') ∨ "::" <:+: rest := by
    rw [infix_cons_iff]
    apply or_congr_left
    cases rest with
    | nil => simp
    | cons d rest => simp [cons_prefix_cons, eq_comm]
  unfold CastFree
  rw [infixed, not_or]
  cases rest with
  | nil => simp
  | cons d rest => simp [getLast?_cons_cons, and_assoc]

variable {sql : Text} {field : FieldContract} {columns : List DbColumn} {α : Type} {phase : Phase}
  (name : Text) {ty : FieldType} {change : ColumnDiff}

theorem beforeCast_self (free : CastFree sql) : beforeCast sql = sql := by
  induction sql with
  | nil => rfl
  | cons c rest ih =>
    obtain ⟨plain, freeRest⟩ := castFree_cons.mp free
    rw [beforeCast_cons, ih freeRest]
    rintro ⟨colon, next⟩
    exact plain ⟨colon, by simp [head?_append, next]⟩

theorem beforeCast_cast (free : CastFree sql) (cast : Text) :
    beforeCast (sql ++ "::" ++ cast) = sql := by
  induction sql with
  | nil => rfl
  | cons c rest ih =>
    obtain ⟨plain, freeRest⟩ := castFree_cons.mp free
    rw [cons_append, cons_append, beforeCast_cons, ih freeRest]
    rintro ⟨colon, next⟩
    exact plain ⟨colon, by cases rest <;> simp_all⟩

/-- Of any other text something is lost, with a colon. -/
theorem beforeCast_lost (lost : ¬ CastFree sql) (cast : Text) :
    beforeCast (sql ++ "::" ++ cast) ++ [':'] <+: sql := by
  induction sql with
  | nil => exact absurd ⟨by simp [infix_nil], by simp⟩ lost
  | cons c rest ih =>
    by_cases here : c = ':' ∧ (rest ++ "::" ++ cast).head? = some ':'
    · obtain ⟨rfl, next⟩ := here
      have stop : beforeCast (':' :: rest ++ "::" ++ cast) = [] := by
        obtain ⟨more, shape⟩ : ∃ more, rest ++ "::" ++ cast = ':' :: more := by
          cases text : rest ++ "::" ++ cast with
          | nil => rw [text] at next; cases next
          | cons d more =>
            rw [text] at next
            exact ⟨more, by rw [Option.some.inj next]⟩
        rw [cons_append, cons_append, shape]
        rfl
      rw [stop]
      exact ⟨rest, rfl⟩
    · have lostRest : ¬ CastFree rest := by
        intro freeRest
        apply lost
        refine castFree_cons.mpr ⟨?_, freeRest⟩
        rintro ⟨colon, next⟩
        exact here ⟨colon, by cases rest <;> simp_all⟩
      rw [cons_append, cons_append, beforeCast_cons here, cons_append, cons_prefix_cons]
      exact ⟨rfl, ih lostRest⟩

theorem count_colon_trim (text : Text) : (trim text).count ':' = text.count ':' := by
  have dropped (text : Text) : (text.dropWhile isWhitespace).count ':' = text.count ':' := by
    induction text with
    | nil => rfl
    | cons c text ih =>
      rw [dropWhile_cons]
      split
      case isTrue space =>
        have other : c ≠ ':' := by
          rintro rfl
          exact absurd space (by decide)
        rw [ih, count_cons_of_ne other]
      case isFalse => rfl
  rw [trim, count_reverse, dropped, count_reverse, dropped]

theorem defaultsMatch_lost (lost : ¬ CastFree sql) (cast : Text) :
    defaultsMatch (sql ++ "::" ++ cast) sql = false := by
  rw [defaultsMatch, beq_eq_false_iff_ne]
  intro same
  have counts := congrArg (count ':') same
  rw [count_colon_trim, count_colon_trim] at counts
  have fewer := (beforeCast_lost lost cast).sublist.count_le ':'
  rw [count_append, count_singleton_self] at fewer
  omega

theorem defaultsMatch_printed (printer : Printer) {sql : Text} (free : CastFree sql) (pgType : Text) :
    defaultsMatch (printer.printed pgType sql) sql = true := by
  rw [defaultsMatch, beq_iff_eq]
  obtain plain | ⟨cast, suffixed⟩ := printer.suffixed pgType sql
  · rw [plain, beforeCast_self free]
  · rw [suffixed, beforeCast_cast free]

/-! ## The difference of admitted fields -/

section Pure

variable (parseDecimal : Text → Option Text) (pkTypes : PkTypes) (schema table : Text)

/-- The type of a field that has one. -/
def typeOf (field : FieldContract) : FieldType := (FieldType.fromField parseDecimal field).toOption.getD .text

def wantedType (field : FieldContract) : Text :=
  if field.isLink then linkType pkTypes field else (typeOf parseDecimal field).postgresType

def wantedDefault (field : FieldContract) : Option Text := declaredDefault parseDecimal field (typeOf parseDecimal field)

/-- The changes of a field, without the panics. -/
def changesOf (columns : List DbColumn) (field : FieldContract) : List ColumnDiff :=
  if isSystemField field.name then []
  else
    match columnNamed columns field.name with
    | none => [.add field (wantedType parseDecimal pkTypes field)]
    | some column => typeDiff column field (wantedType parseDecimal pkTypes field) ++ nullDiff column field ++
        defaultDiff column field (wantedDefault parseDecimal field) ++ fkDiff schema table column field

end Pure

section Facts

variable {parseDecimal : Text → Option Text} {pkTypes : PkTypes} {schema table : Text}

def Typed (parseDecimal : Text → Option Text) (fields : List FieldContract) : Prop :=
  ∀ field ∈ fields, ∃ ty, FieldType.fromField parseDecimal field = .ok ty

theorem resolvePgType_eq (typed : FieldType.fromField parseDecimal field = .ok ty) :
    resolvePgType parseDecimal pkTypes field = .ok (wantedType parseDecimal pkTypes field) := by
  unfold resolvePgType wantedType typeOf
  split
  case isTrue => rfl
  case isFalse => rw [typed]; rfl

theorem desiredDefault_eq (typed : FieldType.fromField parseDecimal field = .ok ty) :
    desiredDefault parseDecimal field = .ok (wantedDefault parseDecimal field) := by
  unfold desiredDefault wantedDefault declaredDefault typeOf
  cases field.defaultValue with
  | none => rfl
  | some value => rw [typed]; rfl

theorem addedDefault_eq {field : FieldContract} {ty : FieldType} (typed : FieldType.fromField parseDecimal field = .ok ty) :
    addedDefault parseDecimal field = wantedDefault parseDecimal field := by
  unfold addedDefault wantedDefault declaredDefault typeOf
  cases field.defaultValue with
  | none => rfl
  | some value => rw [typed]; rfl

theorem fieldDiff_eq (typed : FieldType.fromField parseDecimal field = .ok ty) :
    fieldDiff parseDecimal pkTypes schema table columns field =
      .ok (changesOf parseDecimal pkTypes schema table columns field) := by
  unfold fieldDiff changesOf
  split
  case isTrue => rfl
  case isFalse =>
    rw [resolvePgType_eq typed]
    cases columnNamed columns field.name with
    | none => rfl
    | some column =>
      show (desiredDefault parseDecimal field >>= _) = _
      rw [desiredDefault_eq typed]
      rfl

theorem computeDiff_eq {columns : List DbColumn} {fields : List FieldContract} (typed : Typed parseDecimal fields) :
    computeDiff parseDecimal pkTypes schema table columns fields =
      .ok (fields.flatMap (changesOf parseDecimal pkTypes schema table columns) ++ dropDiffs columns fields) := by
  have all : fieldDiffs parseDecimal pkTypes schema table columns fields =
      .ok (fields.flatMap (changesOf parseDecimal pkTypes schema table columns)) := by
    clear * - typed
    induction fields with
    | nil => rfl
    | cons field fields ih =>
      obtain ⟨ty, known⟩ := typed field (by simp)
      rw [fieldDiffs, fieldDiff_eq known, ih fun field mem => typed field (by simp [mem])]
      rfl
  unfold computeDiff
  rw [all]
  rfl

/-! ## Names of columns -/

theorem columnNamed_eq_some (unique : (columns.map (·.name)).Nodup) {name : Text} {column : DbColumn} :
    columnNamed columns name = some column ↔ column ∈ columns ∧ column.name = name := by
  constructor
  · intro found
    have named := find?_some found
    exact ⟨mem_reverse.mp (mem_of_find?_eq_some found), by simpa using named⟩
  · rintro ⟨mem, named⟩
    cases found : columnNamed columns name with
    | none => exact absurd named (by simpa using find?_eq_none.mp found column (mem_reverse.mpr mem))
    | some other =>
      have same : other.name = name := by simpa using find?_some found
      have inside := mem_reverse.mp (mem_of_find?_eq_some found)
      rw [inj_on_of_nodup_map unique inside mem (same.trans named.symm)]

theorem columnNamed_eq_none {columns : List DbColumn} {name : Text} :
    columnNamed columns name = none ↔ name ∉ columns.map (·.name) := by
  rw [columnNamed, find?_eq_none]
  simp

/-! ## Statements that write -/

variable {printer : Printer}

/-- A column after a list of statements that keep the set of columns. -/
def after (printer : Printer) (statements : List Ddl) (column : DbColumn) : DbColumn :=
  statements.foldl (fun column statement => statement.onColumn printer column) column

def Ddl.writesType (name : Text) : Ddl → Option Text
  | .alterType column toType => if name = column then some toType else none
  | _ => none

def Ddl.writesNull (name : Text) : Ddl → Option Bool
  | .setNotNull column => if name = column then some true else none
  | .dropNotNull column => if name = column then some false else none
  | _ => none

def Ddl.writesDefault (name : Text) : Ddl → Option (Option Text)
  | .setDefault column sql => if name = column then some (some sql) else none
  | .dropDefault column => if name = column then some none else none
  | _ => none

def Ddl.writesFk (name : Text) : Ddl → Option FkInfo
  | .addForeignKey constraint column _ _ action => if name = column then some ⟨constraint, deleteCode action⟩ else none
  | _ => none

/-- The last of the values written, or the one from before. -/
def lastOr {α : Type} (before : α) (written : List α) : α := written.foldl (fun _ value => value) before

theorem lastOr_append (before : α) (front rest : List α) :
    lastOr before (front ++ rest) = lastOr (lastOr before front) rest := by
  rw [lastOr, foldl_append]
  rfl

section Step

variable (printer : Printer) (statement : Ddl) (column : DbColumn)

theorem onColumn_name : (statement.onColumn printer column).name = column.name := by
  cases statement <;> simp only [Ddl.onColumn] <;> split <;> rfl

theorem onColumn_pgType : (statement.onColumn printer column).pgType =
    lastOr column.pgType ((statement.writesType column.name).toList.map formatType) := by
  cases statement <;> simp only [Ddl.onColumn, Ddl.writesType] <;> first | rfl | (split <;> rfl)

theorem onColumn_notNull : (statement.onColumn printer column).notNull =
    lastOr column.notNull (statement.writesNull column.name).toList := by
  cases statement <;> simp only [Ddl.onColumn, Ddl.writesNull] <;> first | rfl | (split <;> rfl)

theorem onColumn_default : (statement.onColumn printer column).defaultExpr =
    lastOr column.defaultExpr ((statement.writesDefault column.name).toList.map (·.map (printer.printed column.pgType))) := by
  cases statement <;> simp only [Ddl.onColumn, Ddl.writesDefault] <;> first | rfl | (split <;> rfl)

theorem onColumn_fk : (statement.onColumn printer column).fk = none ∨
    (statement.onColumn printer column).fk = lastOr column.fk ((statement.writesFk column.name).toList.map some) := by
  cases statement with
  | dropConstraint constraint =>
    simp only [Ddl.onColumn, Ddl.writesFk]
    split
    · exact .inl rfl
    · exact .inr rfl
  | _ =>
    right
    simp only [Ddl.onColumn, Ddl.writesFk]
    first | rfl | (split <;> rfl)

end Step

theorem after_append (statements : List Ddl) (statement : Ddl) (column : DbColumn) :
    after printer (statements ++ [statement]) column = statement.onColumn printer (after printer statements column) := by
  rw [after, foldl_append]
  rfl

theorem filterMap_append_singleton {β : Type} (f : α → Option β) (list : List α) (x : α) :
    (list ++ [x]).filterMap f = list.filterMap f ++ (f x).toList := by
  rw [filterMap_append]
  cases found : f x <;> simp [found]

theorem after_name (printer : Printer) (statements : List Ddl) (column : DbColumn) : (after printer statements column).name = column.name := by
  induction statements using reverseRecOn with
  | nil => rfl
  | append_singleton statements statement ih => rw [after_append, onColumn_name, ih]

theorem after_pgType (printer : Printer) (statements : List Ddl) (column : DbColumn) : (after printer statements column).pgType =
    lastOr column.pgType ((statements.filterMap (Ddl.writesType column.name)).map formatType) := by
  induction statements using reverseRecOn with
  | nil => rfl
  | append_singleton statements statement ih =>
    rw [after_append, onColumn_pgType, after_name, ih, filterMap_append_singleton, map_append,
      lastOr_append]

theorem after_notNull (printer : Printer) (statements : List Ddl) (column : DbColumn) : (after printer statements column).notNull =
    lastOr column.notNull (statements.filterMap (Ddl.writesNull column.name)) := by
  induction statements using reverseRecOn with
  | nil => rfl
  | append_singleton statements statement ih =>
    rw [after_append, onColumn_notNull, after_name, ih, filterMap_append_singleton, lastOr_append]

theorem after_default (printer : Printer) (statements : List Ddl) (column : DbColumn) : ∃ pgType,
    (after printer statements column).defaultExpr =
      lastOr column.defaultExpr ((statements.filterMap (Ddl.writesDefault column.name)).map
        (·.map (printer.printed pgType))) := by
  induction statements using reverseRecOn with
  | nil => exact ⟨[], rfl⟩
  | append_singleton statements statement ih =>
    obtain ⟨pgType, before⟩ := ih
    cases written : statement.writesDefault column.name with
    | none =>
      refine ⟨pgType, ?_⟩
      rw [after_append, onColumn_default, after_name, written, before, filterMap_append_singleton, written]
      simp [lastOr]
    | some default =>
      refine ⟨(after printer statements column).pgType, ?_⟩
      rw [after_append, onColumn_default, after_name, written, filterMap_append_singleton, written]
      simp [lastOr]

theorem after_fk (printer : Printer) (statements : List Ddl) (column : DbColumn) : (after printer statements column).fk = none ∨
    (after printer statements column).fk =
      lastOr column.fk ((statements.filterMap (Ddl.writesFk column.name)).map some) := by
  induction statements using reverseRecOn with
  | nil => exact .inr rfl
  | append_singleton statements statement ih =>
    rw [after_append, filterMap_append_singleton, map_append, lastOr_append]
    have step := onColumn_fk printer statement (after printer statements column)
    rw [after_name] at step
    obtain dropped | kept := step
    · exact .inl dropped
    · rw [kept]
      cases written : statement.writesFk column.name with
      | none => simpa [lastOr] using ih
      | some fk => simp [lastOr]

/-! ## Changes and the columns they are about -/

def ColumnDiff.target : ColumnDiff → Text
  | .add field _ => field.name
  | .drop column | .alterType column _ _ | .setNotNull column | .dropNotNull column | .setDefault column _
  | .dropDefault column | .replaceFkConstraint column _ _ _ _ _ => column

/-- The column a statement is about; a constraint is dropped by its own name. -/
def Ddl.column : Ddl → Option Text
  | .dropConstraint _ => none
  | .alterType column _ | .addColumn column _ | .setNotNull column | .dropNotNull column | .setDefault column _
  | .dropDefault column | .addForeignKey _ column _ _ _ | .dropColumn column => some column

theorem mem_typeDiff {column : DbColumn} {desired : Text} (mem : change ∈ typeDiff column field desired) :
    change = .alterType field.name column.pgType desired := by
  unfold typeDiff at mem
  split at mem
  · exact mem_singleton.mp mem
  · cases mem

theorem mem_nullDiff {column : DbColumn} (mem : change ∈ nullDiff column field) :
    change = .setNotNull field.name ∨ change = .dropNotNull field.name := by
  unfold nullDiff at mem
  dsimp only at mem
  split at mem
  · exact .inl (mem_singleton.mp mem)
  · split at mem
    · exact .inr (mem_singleton.mp mem)
    · cases mem

theorem mem_defaultDiff {column : DbColumn} {desired : Option Text}
    (mem : change ∈ defaultDiff column field desired) :
    (∃ sql, change = .setDefault field.name sql) ∨ change = .dropDefault field.name := by
  unfold defaultDiff at mem
  split at mem
  · exact .inl ⟨_, mem_singleton.mp mem⟩
  · exact .inr (mem_singleton.mp mem)
  · split at mem
    · cases mem
    · exact .inl ⟨_, mem_singleton.mp mem⟩
  · cases mem

theorem mem_fkDiff {column : DbColumn} (mem : change ∈ fkDiff schema table column field) :
    ∃ oldName newName targetSchema target,
      change = .replaceFkConstraint field.name oldName newName targetSchema target (resolveOnDelete field) := by
  unfold fkDiff at mem
  split at mem
  case isFalse => cases mem
  case isTrue =>
    split at mem
    case h_2 => cases mem
    case h_1 =>
      split at mem
      case isFalse => cases mem
      case isTrue =>
        split at mem
        · exact ⟨_, _, _, _, mem_singleton.mp mem⟩
        · cases mem

/-! Every difference of an attribute is emitted in its own phases only. -/

section Mute

variable {column : DbColumn} {field : FieldContract} {phase : Phase}

theorem typeDiff_mute (elsewhere : phase ≠ .alterTypes) {desired : Text} :
    (typeDiff column field desired).flatMap (emitDdl parseDecimal phase) = [] := by
  rw [flatMap_eq_nil_iff]
  intro change mem
  rw [mem_typeDiff mem]
  cases phase <;> first | rfl | exact absurd rfl elsewhere

theorem nullDiff_mute (elsewhere : phase ≠ .nullability) :
    (nullDiff column field).flatMap (emitDdl parseDecimal phase) = [] := by
  rw [flatMap_eq_nil_iff]
  intro change mem
  obtain rfl | rfl := mem_nullDiff mem <;> cases phase <;> first | rfl | exact absurd rfl elsewhere

theorem defaultDiff_mute (elsewhere : phase ≠ .defaults) {desired : Option Text} :
    (defaultDiff column field desired).flatMap (emitDdl parseDecimal phase) = [] := by
  rw [flatMap_eq_nil_iff]
  intro change mem
  obtain ⟨sql, rfl⟩ | rfl := mem_defaultDiff mem <;> cases phase <;> first | rfl | exact absurd rfl elsewhere

theorem fkDiff_mute (elsewhere : phase ≠ .dropConstraints ∧ phase ≠ .addConstraints) :
    (fkDiff schema table column field).flatMap (emitDdl parseDecimal phase) = [] := by
  rw [flatMap_eq_nil_iff]
  intro change mem
  obtain ⟨_, _, _, _, rfl⟩ := mem_fkDiff mem
  cases phase <;> first | rfl | exact absurd rfl elsewhere.1 | exact absurd rfl elsewhere.2

end Mute

theorem target_of_mem (mem : change ∈ changesOf parseDecimal pkTypes schema table columns field) :
    change.target = field.name := by
  unfold changesOf at mem
  split at mem
  case isTrue => cases mem
  case isFalse =>
    split at mem
    case h_1 => rw [mem_singleton.mp mem]; rfl
    case h_2 column found =>
      rw [mem_append, mem_append, mem_append] at mem
      obtain ((inType | inNull) | inDefault) | inFk := mem
      · rw [mem_typeDiff inType]; rfl
      · obtain rfl | rfl := mem_nullDiff inNull <;> rfl
      · obtain ⟨sql, rfl⟩ | rfl := mem_defaultDiff inDefault <;> rfl
      · obtain ⟨_, _, _, _, rfl⟩ := mem_fkDiff inFk; rfl

theorem emit_column {statement : Ddl} (mem : statement ∈ emitDdl parseDecimal phase change) :
    statement.column = none ∨ statement.column = some change.target := by
  unfold emitDdl at mem
  split at mem
  case h_2 =>
    split at mem
    · rw [mem_singleton.mp mem]; exact .inr rfl
    · cases mem
  case h_3 =>
    obtain ⟨sql, -, rfl⟩ := mem_map.mp mem
    exact .inr rfl
  case h_10 => rw [mem_singleton.mp mem]; exact .inl rfl
  case h_12 => cases mem
  all_goals rw [mem_singleton.mp mem]; exact .inr rfl

/-- A reader of statements about one column. -/
def Local {α : Type} (name : Text) (reader : Ddl → Option α) : Prop :=
  ∀ statement, reader statement ≠ none → statement.column = some name

theorem writesType_local (name : Text) : Local name (Ddl.writesType name) := by
  intro statement written
  cases statement <;> simp_all [Ddl.writesType, Ddl.column]

theorem writesNull_local (name : Text) : Local name (Ddl.writesNull name) := by
  intro statement written
  cases statement <;> simp_all [Ddl.writesNull, Ddl.column]

theorem writesDefault_local (name : Text) : Local name (Ddl.writesDefault name) := by
  intro statement written
  cases statement <;> simp_all [Ddl.writesDefault, Ddl.column]

theorem writesFk_local (name : Text) : Local name (Ddl.writesFk name) := by
  intro statement written
  cases statement <;> simp_all [Ddl.writesFk, Ddl.column]

/-- The statements of a phase that are about one field come from its changes. -/
theorem phase_local {α : Type} {columns : List DbColumn} {fields : List FieldContract} {field : FieldContract}
    {reader : Ddl → Option α} {phase : Phase} (unique : (fields.map (·.name)).Nodup) (mem : field ∈ fields)
    (aboutField : Local field.name reader) :
    ((fields.flatMap (changesOf parseDecimal pkTypes schema table columns) ++ dropDiffs columns fields).flatMap
        (emitDdl parseDecimal phase)).filterMap reader =
      ((changesOf parseDecimal pkTypes schema table columns field).flatMap (emitDdl parseDecimal phase)).filterMap reader := by
  have others {changes : List ColumnDiff} (elsewhere : ∀ change ∈ changes, change.target ≠ field.name) :
      (changes.flatMap (emitDdl parseDecimal phase)).filterMap reader = [] := by
    rw [filterMap_eq_nil_iff]
    intro statement inside
    obtain ⟨change, inChanges, emitted⟩ := mem_flatMap.mp inside
    by_contra written
    have about := aboutField statement written
    obtain none | target := emit_column emitted
    · rw [none] at about; cases about
    · exact elsewhere change inChanges (Option.some.inj (target.symm.trans about))
  have dropped : ((dropDiffs columns fields).flatMap (emitDdl parseDecimal phase)).filterMap reader = [] := by
    apply others
    intro change inside
    obtain ⟨column, kept, rfl⟩ := mem_map.mp inside
    have outside := (mem_filter.mp kept).2
    rw [Bool.and_eq_true, Bool.not_eq_true', Bool.not_eq_true', decide_eq_false_iff_not] at outside
    exact fun same => outside.2 (mem_map.mpr ⟨field, mem, same.symm⟩)
  rw [flatMap_append, filterMap_append, dropped, append_nil]
  clear dropped
  induction fields with
  | nil => cases mem
  | cons first fields ih =>
    rw [map_cons, nodup_cons] at unique
    rw [flatMap_cons, flatMap_append, filterMap_append]
    obtain rfl | older := mem_cons.mp mem
    · rw [@others (fields.flatMap _), append_nil]
      intro change inside
      obtain ⟨other, inFields, changed⟩ := mem_flatMap.mp inside
      rw [target_of_mem changed]
      exact fun same => unique.1 (mem_map.mpr ⟨other, inFields, same⟩)
    · rw [@others (changesOf _ _ _ _ _ first), nil_append, ih unique.2 older]
      intro change inside
      rw [target_of_mem inside]
      exact fun same => unique.1 (mem_map.mpr ⟨field, older, same.symm⟩)

/-! ## The table after the statements -/

def Ddl.isMap : Ddl → Bool
  | .addColumn _ _ | .dropColumn _ => false
  | _ => true

theorem applyDdl_maps {statements : List Ddl} {columns : List DbColumn}
    (maps : ∀ statement ∈ statements, statement.isMap = true) :
    applyDdl printer columns statements = columns.map (after printer statements) := by
  induction statements generalizing columns with
  | nil => exact (map_id columns).symm
  | cons statement statements ih =>
    have step : Ddl.run printer columns statement = columns.map (statement.onColumn printer) := by
      have isMap := maps statement (by simp)
      cases statement <;> first | rfl | cases isMap
    rw [applyDdl, foldl_cons, step]
    show applyDdl printer (columns.map (statement.onColumn printer)) statements = _
    rw [ih fun statement mem => maps statement (by simp [mem]), map_map]
    rfl

/-- A column that has just been added. -/
def fresh (parseDecimal : Text → Option Text) (pkTypes : PkTypes) (field : FieldContract) : DbColumn :=
  ⟨field.name, formatType (wantedType parseDecimal pkTypes field), false, none, none⟩

theorem applyDdl_adds {news : List FieldContract} {columns : List DbColumn} (unique : (news.map (·.name)).Nodup)
    (new : ∀ field ∈ news, field.name ∉ columns.map (·.name)) :
    applyDdl printer columns (news.map fun field => .addColumn field.name (wantedType parseDecimal pkTypes field)) =
      columns ++ news.map (fresh parseDecimal pkTypes) := by
  induction news generalizing columns with
  | nil => exact (append_nil columns).symm
  | cons field news ih =>
    rw [map_cons, nodup_cons] at unique
    have step : Ddl.run printer columns (.addColumn field.name (wantedType parseDecimal pkTypes field)) =
        columns ++ [fresh parseDecimal pkTypes field] := if_neg (new field (by simp))
    rw [map_cons, applyDdl, foldl_cons, step]
    show applyDdl printer (columns ++ [fresh parseDecimal pkTypes field]) _ = _
    rw [ih unique.2, append_assoc, map_cons]
    · rfl
    · intro other mem inside
      rw [map_append, mem_append] at inside
      obtain older | last := inside
      · exact new other (by simp [mem]) older
      · exact unique.1 (mem_map.mpr ⟨other, mem, mem_singleton.mp last⟩)

theorem applyDdl_drops {names : List Text} {columns : List DbColumn} :
    applyDdl printer columns (names.map .dropColumn) = columns.filter fun column => column.name ∉ names := by
  induction names generalizing columns with
  | nil => simp [applyDdl]
  | cons name names ih =>
    show applyDdl printer (columns.filter (·.name ≠ name)) (names.map .dropColumn) = _
    rw [ih, filter_filter]
    congr 1
    funext column
    simp [Bool.and_comm]

section Generated

variable (columns : List DbColumn) (fields : List FieldContract)

def changes (parseDecimal : Text → Option Text) (pkTypes : PkTypes) (schema table : Text) : List ColumnDiff :=
  fields.flatMap (changesOf parseDecimal pkTypes schema table columns) ++ dropDiffs columns fields

/-- The statements before and after the columns are added. -/
def early (parseDecimal : Text → Option Text) (changes : List ColumnDiff) : List Ddl :=
  changes.flatMap (emitDdl parseDecimal .dropConstraints) ++ changes.flatMap (emitDdl parseDecimal .alterTypes)

def late (parseDecimal : Text → Option Text) (changes : List ColumnDiff) : List Ddl :=
  changes.flatMap (emitDdl parseDecimal .nullability) ++ changes.flatMap (emitDdl parseDecimal .defaults) ++
    changes.flatMap (emitDdl parseDecimal .addConstraints)

def missing (field : FieldContract) : Bool := !isSystemField field.name && (columnNamed columns field.name).isNone

def droppedNames : List Text :=
  (columns.filter fun column => !isSystemField column.name && !(column.name ∈ fields.map (·.name))).map (·.name)

/-- The columns after the statements of the difference. -/
def synced (parseDecimal : Text → Option Text) (pkTypes : PkTypes) (schema table : Text) (printer : Printer) :
    List DbColumn :=
  let diff := changes columns fields parseDecimal pkTypes schema table
  ((columns.map (after printer (early parseDecimal diff)) ++
      (fields.filter (missing columns)).map (fresh parseDecimal pkTypes)).map (after printer (late parseDecimal diff))).filter
    fun column => column.name ∉ droppedNames columns fields

end Generated

variable {columns : List DbColumn} {fields : List FieldContract}

theorem emit_isMap {phase : Phase} (inner : phase ≠ .addColumns ∧ phase ≠ .dropColumns) {change : ColumnDiff}
    {statement : Ddl} (mem : statement ∈ emitDdl parseDecimal phase change) : statement.isMap = true := by
  unfold emitDdl at mem
  split at mem
  case h_1 => exact absurd rfl inner.1
  case h_4 => exact absurd rfl inner.2
  case h_2 =>
    split at mem
    · rw [mem_singleton.mp mem]; rfl
    · cases mem
  case h_3 =>
    obtain ⟨sql, -, rfl⟩ := mem_map.mp mem
    rfl
  case h_12 => cases mem
  all_goals rw [mem_singleton.mp mem]; rfl

theorem changesOf_adds (field : FieldContract) :
    (changesOf parseDecimal pkTypes schema table columns field).flatMap (emitDdl parseDecimal .addColumns) =
      if missing columns field then [.addColumn field.name (wantedType parseDecimal pkTypes field)] else [] := by
  unfold changesOf missing
  cases system : isSystemField field.name with
  | true => rfl
  | false =>
    cases found : columnNamed columns field.name with
    | none => rfl
    | some column =>
      simp [typeDiff_mute, nullDiff_mute, defaultDiff_mute, fkDiff_mute]

theorem changesOf_drops (field : FieldContract) :
    (changesOf parseDecimal pkTypes schema table columns field).flatMap (emitDdl parseDecimal .dropColumns) = [] := by
  unfold changesOf
  split
  case isTrue => rfl
  case isFalse =>
    split
    case h_1 => rfl
    case h_2 => simp [typeDiff_mute, nullDiff_mute, defaultDiff_mute, fkDiff_mute]

theorem changes_adds : (changes columns fields parseDecimal pkTypes schema table).flatMap (emitDdl parseDecimal .addColumns) =
    (fields.filter (missing columns)).map fun field => .addColumn field.name (wantedType parseDecimal pkTypes field) := by
  have none : (dropDiffs columns fields).flatMap (emitDdl parseDecimal .addColumns) = [] := by
    rw [flatMap_eq_nil_iff]
    intro change member
    obtain ⟨column, -, rfl⟩ := mem_map.mp member
    rfl
  rw [changes, flatMap_append, none, append_nil]
  clear none
  induction fields with
  | nil => rfl
  | cons field fields ih =>
    rw [flatMap_cons, flatMap_append, changesOf_adds, ih, filter_cons]
    split <;> rfl

theorem changes_drops : (changes columns fields parseDecimal pkTypes schema table).flatMap (emitDdl parseDecimal .dropColumns) =
    (droppedNames columns fields).map .dropColumn := by
  have none : (fields.flatMap (changesOf parseDecimal pkTypes schema table columns)).flatMap
      (emitDdl parseDecimal .dropColumns) = [] := by
    rw [flatMap_assoc, flatMap_eq_nil_iff]
    exact fun field _ => changesOf_drops field
  rw [changes, flatMap_append, none, nil_append, dropDiffs, droppedNames, flatMap_map, map_map]
  exact map_eq_flatMap.symm

/-- Running the generated statements. -/
theorem applyDdl_eq_synced (unique : (fields.map (·.name)).Nodup) :
    applyDdl printer columns (generateDdl parseDecimal (changes columns fields parseDecimal pkTypes schema table)) =
      synced columns fields parseDecimal pkTypes schema table printer := by
  let diff := changes columns fields parseDecimal pkTypes schema table
  have shape : generateDdl parseDecimal diff = early parseDecimal diff ++ (diff.flatMap (emitDdl parseDecimal .addColumns) ++
      (late parseDecimal diff ++ diff.flatMap (emitDdl parseDecimal .dropColumns))) := by
    simp [generateDdl, PHASES, early, late, append_assoc]
  have maps {phase : Phase} (inner : phase ≠ .addColumns ∧ phase ≠ .dropColumns) :
      ∀ statement ∈ diff.flatMap (emitDdl parseDecimal phase), statement.isMap = true := by
    intro statement member
    obtain ⟨change, -, emitted⟩ := mem_flatMap.mp member
    exact emit_isMap inner emitted
  have earlyMaps : ∀ statement ∈ early parseDecimal diff, statement.isMap = true := by
    intro statement member
    obtain first | second := mem_append.mp member
    · exact maps (by simp) statement first
    · exact maps (by simp) statement second
  have lateMaps : ∀ statement ∈ late parseDecimal diff, statement.isMap = true := by
    intro statement member
    rw [late, mem_append, mem_append] at member
    obtain (first | second) | third := member
    · exact maps (by simp) statement first
    · exact maps (by simp) statement second
    · exact maps (by simp) statement third
  have names : (columns.map (after printer (early parseDecimal diff))).map (·.name) = columns.map (·.name) := by
    rw [map_map]
    exact map_congr_left fun column _ => after_name _ _ _
  show applyDdl printer columns (generateDdl parseDecimal diff) = _
  rw [shape, applyDdl, foldl_append, foldl_append, foldl_append]
  show applyDdl printer (applyDdl printer (applyDdl printer (applyDdl printer columns (early parseDecimal diff)) _) _) _ = _
  rw [applyDdl_maps earlyMaps, changes_adds, changes_drops, applyDdl_adds, applyDdl_maps lateMaps, applyDdl_drops]
  · rfl
  · exact unique.sublist (filter_sublist.map _)
  · intro field member
    rw [names]
    have absent := (mem_filter.mp member).2
    rw [missing, Bool.and_eq_true, Option.isNone_iff_eq_none] at absent
    exact columnNamed_eq_none.mp absent.2

/-! ## One column after the statements -/

theorem diff_reads_nil {reader : Ddl → Option α} {diff : List ColumnDiff}
    (silent : ∀ change ∈ diff, (emitDdl parseDecimal phase change).filterMap reader = []) :
    (diff.flatMap (emitDdl parseDecimal phase)).filterMap reader = [] := by
  rw [filterMap_eq_nil_iff]
  intro statement member
  obtain ⟨change, inside, emitted⟩ := mem_flatMap.mp member
  exact filterMap_eq_nil_iff.mp (silent change inside) statement emitted

/-! Every attribute is written in one phase only. -/

/-- `home` is the only phase with statements that `reader` reads. -/
def Home {α : Type} (parseDecimal : Text → Option Text) (reader : Ddl → Option α) (home : Phase) : Prop :=
  ∀ phase, phase ≠ home → ∀ change, (emitDdl parseDecimal phase change).filterMap reader = []

theorem home_of_emits {reader : Ddl → Option α} {home : Phase}
    (emits : ∀ phase change, phase ≠ home → ∀ statement ∈ emitDdl parseDecimal phase change, reader statement = none) :
    Home parseDecimal reader home :=
  fun phase elsewhere change => filterMap_eq_nil_iff.mpr (emits phase change elsewhere)

theorem writesType_home : Home parseDecimal (Ddl.writesType name) .alterTypes := by
  refine home_of_emits fun phase change elsewhere statement member => ?_
  cases statement with
  | alterType =>
    unfold emitDdl at member
    split at member <;> first | exact absurd rfl elsewhere | simp at member
  | _ => rfl

theorem writesNull_home : Home parseDecimal (Ddl.writesNull name) .nullability := by
  refine home_of_emits fun phase change elsewhere statement member => ?_
  cases statement with
  | setNotNull | dropNotNull =>
    unfold emitDdl at member
    split at member <;> first | exact absurd rfl elsewhere | simp at member
  | _ => rfl

theorem writesDefault_home : Home parseDecimal (Ddl.writesDefault name) .defaults := by
  refine home_of_emits fun phase change elsewhere statement member => ?_
  cases statement with
  | setDefault | dropDefault =>
    unfold emitDdl at member
    split at member <;> first | exact absurd rfl elsewhere | (split at member <;> simp at member) | simp at member
  | _ => rfl

theorem writesFk_home : Home parseDecimal (Ddl.writesFk name) .addConstraints := by
  refine home_of_emits fun phase change elsewhere statement mem => ?_
  cases statement with
  | addForeignKey =>
    unfold emitDdl at mem
    split at mem <;> first | exact absurd rfl elsewhere | (split at mem <;> simp at mem) | simp at mem
  | _ => rfl

section Existing

variable {field : FieldContract} {column : DbColumn}

theorem changesOf_found (plain : isSystemField field.name = false) (found : columnNamed columns field.name = some column) :
    changesOf parseDecimal pkTypes schema table columns field =
      typeDiff column field (wantedType parseDecimal pkTypes field) ++ nullDiff column field ++
        defaultDiff column field (wantedDefault parseDecimal field) ++ fkDiff schema table column field := by
  unfold changesOf
  rw [plain, if_neg Bool.false_ne_true, found]

theorem changesOf_missing (plain : isSystemField field.name = false) (absent : columnNamed columns field.name = none) :
    changesOf parseDecimal pkTypes schema table columns field = [.add field (wantedType parseDecimal pkTypes field)] := by
  unfold changesOf
  rw [plain, if_neg Bool.false_ne_true, absent]

/-! What the changes of one column write, attribute by attribute. -/

section Found

variable (diff : List ColumnDiff)
  (shape : diff = typeDiff column field (wantedType parseDecimal pkTypes field) ++ nullDiff column field ++
    defaultDiff column field (wantedDefault parseDecimal field) ++ fkDiff schema table column field)

include shape

theorem found_type : (diff.flatMap (emitDdl parseDecimal .alterTypes)).filterMap (Ddl.writesType field.name) =
    if column.pgType ≠ normalizePgType (wantedType parseDecimal pkTypes field) then
      [wantedType parseDecimal pkTypes field] else [] := by
  simp only [shape, flatMap_append, nullDiff_mute (by decide : Phase.alterTypes ≠ _), defaultDiff_mute (by decide : Phase.alterTypes ≠ _),
    fkDiff_mute (by decide : Phase.alterTypes ≠ _ ∧ _), append_nil, typeDiff]
  split
  · simp [emitDdl, Ddl.writesType]
  · rfl

theorem found_null : (diff.flatMap (emitDdl parseDecimal .nullability)).filterMap (Ddl.writesNull field.name) =
    if (field.required && !field.isPk) && !column.notNull then [true]
    else if !(field.required && !field.isPk) && column.notNull && !field.isPk then [false] else [] := by
  simp only [shape, flatMap_append, typeDiff_mute (by decide : Phase.nullability ≠ _), defaultDiff_mute (by decide : Phase.nullability ≠ _),
    fkDiff_mute (by decide : Phase.nullability ≠ _ ∧ _), append_nil, nil_append, nullDiff]
  split
  · simp [emitDdl, Ddl.writesNull]
  · split
    · simp [emitDdl, Ddl.writesNull]
    · rfl

theorem found_default : (diff.flatMap (emitDdl parseDecimal .defaults)).filterMap (Ddl.writesDefault field.name) =
    match column.defaultExpr, wantedDefault parseDecimal field with
    | none, some sql => [some sql]
    | some _, none => [none]
    | some existing, some sql => if defaultsMatch existing sql then [] else [some sql]
    | none, none => [] := by
  simp only [shape, flatMap_append, typeDiff_mute (by decide : Phase.defaults ≠ _), nullDiff_mute (by decide : Phase.defaults ≠ _),
    fkDiff_mute (by decide : Phase.defaults ≠ _ ∧ _), append_nil, nil_append]
  unfold defaultDiff
  cases column.defaultExpr with
  | none =>
    cases wantedDefault parseDecimal field with
    | none => rfl
    | some sql => simp [emitDdl, Ddl.writesDefault]
  | some existing =>
    cases wantedDefault parseDecimal field with
    | none => simp [emitDdl, Ddl.writesDefault]
    | some sql =>
      dsimp only
      split
      · rfl
      · simp [emitDdl, Ddl.writesDefault]

theorem found_fk : (diff.flatMap (emitDdl parseDecimal .addConstraints)).filterMap (Ddl.writesFk field.name) =
    ((fkDiff schema table column field).flatMap (emitDdl parseDecimal .addConstraints)).filterMap (Ddl.writesFk field.name) := by
  simp only [shape, flatMap_append, typeDiff_mute (by decide : Phase.addConstraints ≠ _),
    nullDiff_mute (by decide : Phase.addConstraints ≠ _), defaultDiff_mute (by decide : Phase.addConstraints ≠ _), nil_append]

end Found

end Existing

theorem after_after (first second : List Ddl) (column : DbColumn) :
    after printer second (after printer first column) = after printer (first ++ second) column := by
  rw [after, after, after, foldl_append]

section Phases

variable {α : Type} {reader : Ddl → Option α} {home : Phase} (diff : List ColumnDiff)

theorem Home.silent (at_home : Home parseDecimal reader home) (elsewhere : phase ≠ home) :
    (diff.flatMap (emitDdl parseDecimal phase)).filterMap reader = [] :=
  diff_reads_nil fun change _ => at_home phase elsewhere change

variable (name : Text)

theorem early_type : (early parseDecimal diff).filterMap (Ddl.writesType name) =
    (diff.flatMap (emitDdl parseDecimal .alterTypes)).filterMap (Ddl.writesType name) := by
  simp [early, Home.silent diff (writesType_home name)]

theorem late_type : (late parseDecimal diff).filterMap (Ddl.writesType name) = [] := by
  simp [late, Home.silent diff (writesType_home name)]

theorem early_null : (early parseDecimal diff).filterMap (Ddl.writesNull name) = [] := by
  simp [early, Home.silent diff (writesNull_home name)]

theorem late_null : (late parseDecimal diff).filterMap (Ddl.writesNull name) =
    (diff.flatMap (emitDdl parseDecimal .nullability)).filterMap (Ddl.writesNull name) := by
  simp [late, Home.silent diff (writesNull_home name)]

theorem early_default : (early parseDecimal diff).filterMap (Ddl.writesDefault name) = [] := by
  simp [early, Home.silent diff (writesDefault_home name)]

theorem late_default : (late parseDecimal diff).filterMap (Ddl.writesDefault name) =
    (diff.flatMap (emitDdl parseDecimal .defaults)).filterMap (Ddl.writesDefault name) := by
  simp [late, Home.silent diff (writesDefault_home name)]

theorem early_fk : (early parseDecimal diff).filterMap (Ddl.writesFk name) = [] := by
  simp [early, Home.silent diff (writesFk_home name)]

theorem late_fk : (late parseDecimal diff).filterMap (Ddl.writesFk name) =
    (diff.flatMap (emitDdl parseDecimal .addConstraints)).filterMap (Ddl.writesFk name) := by
  simp [late, Home.silent diff (writesFk_home name)]

end Phases

/-- Nothing is left to change on the column, whatever its default. -/
structure Settled (schema table : Text) (pgType : Text) (field : FieldContract) (column : DbColumn) : Prop where
  type : typeDiff column field pgType = []
  null : nullDiff column field = []
  fk : fkDiff schema table column field = []

theorem pgDeleteRule_deleteCode (field : FieldContract) :
    pgDeleteRule (deleteCode (resolveOnDelete field)) = resolveOnDelete field := by
  unfold resolveOnDelete
  split
  · rfl
  · rfl
  · rfl
  · split <;> rfl

theorem fkDiff_nil_of {field : FieldContract} {column : DbColumn}
    (agrees : ∀ fk ∈ column.fk, field.isLink = true → field.references.isSome = true →
      pgDeleteRule fk.deleteRule = resolveOnDelete field ∨ field.references.bind (replaceTarget schema) = none) :
    fkDiff schema table column field = [] := by
  unfold fkDiff
  split
  case isFalse => rfl
  case isTrue link =>
    split
    case h_2 => rfl
    case h_1 fk reference hasFk hasReference =>
      split
      case isFalse => rfl
      case isTrue different =>
        obtain same | noTarget := agrees fk hasFk link (by rw [hasReference]; rfl)
        · exact absurd same different
        · rw [hasReference] at noTarget
          have noTarget : replaceTarget schema reference = none := noTarget
          rw [noTarget]

section Runs

variable {field : FieldContract} (unique : (fields.map (·.name)).Nodup) (member : field ∈ fields)
  (plain : isSystemField field.name = false)

include unique member plain

/-- An existing column settles. -/
theorem settled_found {column : DbColumn} (found : columnNamed columns field.name = some column)
    (named : column.name = field.name) (diff : List ColumnDiff)
    (shape : diff = changes columns fields parseDecimal pkTypes schema table) :
    Settled schema table (wantedType parseDecimal pkTypes field) field
        (after printer (early parseDecimal diff ++ late parseDecimal diff) column) ∧
      ((∀ sql ∈ wantedDefault parseDecimal field, CastFree sql) →
        defaultDiff (after printer (early parseDecimal diff ++ late parseDecimal diff) column) field
          (wantedDefault parseDecimal field) = []) := by
  have own := @changesOf_found parseDecimal pkTypes schema table columns field column plain found
  have reads {α : Type} {reader : Ddl → Option α} {phase : Phase} (aboutField : Local field.name reader) :
      (diff.flatMap (emitDdl parseDecimal phase)).filterMap reader =
        ((changesOf parseDecimal pkTypes schema table columns field).flatMap (emitDdl parseDecimal phase)).filterMap
          reader := by
    rw [shape]
    exact phase_local unique member aboutField
  refine ⟨⟨?_, ?_, ?_⟩, ?_⟩
  · have type := after_pgType printer (early parseDecimal diff ++ late parseDecimal diff) column
    rw [named, filterMap_append, early_type, late_type, append_nil, reads (writesType_local _), found_type _ own] at type
    unfold typeDiff
    rw [if_neg]
    rw [not_not, type]
    split
    · rfl
    · rename_i same
      exact not_not.mp same
  · have null := after_notNull printer (early parseDecimal diff ++ late parseDecimal diff) column
    rw [named, filterMap_append, early_null, late_null, nil_append, reads (writesNull_local _), found_null _ own] at null
    unfold nullDiff
    rw [null]
    cases field.required <;> cases field.isPk <;> cases column.notNull <;> rfl
  · apply fkDiff_nil_of
    intro fk hasFk link hasReference
    obtain none | written := after_fk printer (early parseDecimal diff ++ late parseDecimal diff) column
    · rw [none] at hasFk
      exact nomatch hasFk
    · rw [written, named, filterMap_append, early_fk, late_fk, nil_append, reads (writesFk_local _), found_fk _ own] at hasFk
      -- the key is the one written by the replacement, or the old one, which agreed
      unfold fkDiff at hasFk
      rw [if_pos link] at hasFk
      obtain ⟨reference, hasReference⟩ := Option.isSome_iff_exists.mp hasReference
      rw [hasReference] at hasFk ⊢
      cases old : column.fk with
      | none =>
        rw [old] at hasFk
        exact nomatch hasFk
      | some oldFk =>
        rw [old] at hasFk
        dsimp only at hasFk
        split at hasFk
        case isFalse same =>
          cases hasFk
          exact .inl (not_not.mp same)
        case isTrue =>
          cases target : replaceTarget schema reference with
          | none => exact .inr target
          | some pair =>
            rw [target] at hasFk
            simp only [flatMap_cons, flatMap_nil, emitDdl, append_nil, Ddl.writesFk,
              filterMap_cons, if_true, filterMap_nil] at hasFk
            cases hasFk
            exact .inl (pgDeleteRule_deleteCode field)
  · intro free
    obtain ⟨pgType, default⟩ := after_default printer (early parseDecimal diff ++ late parseDecimal diff) column
    rw [named, filterMap_append, early_default, late_default, nil_append, reads (writesDefault_local _), found_default _ own] at default
    unfold defaultDiff
    rw [default]
    cases wanted : wantedDefault parseDecimal field with
    | none => cases column.defaultExpr <;> rfl
    | some sql =>
      have matched := defaultsMatch_printed printer (free sql wanted) pgType
      cases existing : column.defaultExpr with
      | none => simp [lastOr, matched]
      | some old =>
        by_cases same : defaultsMatch old sql = true
        · simp [lastOr, same]
        · simp [lastOr, same, matched]

/-- An added column settles, and its default is the wanted one as it is printed. -/
theorem settled_fresh {ty : FieldType} (typed : FieldType.fromField parseDecimal field = .ok ty)
    (absent : columnNamed columns field.name = none) (diff : List ColumnDiff)
    (shape : diff = changes columns fields parseDecimal pkTypes schema table) :
    Settled schema table (wantedType parseDecimal pkTypes field) field
        (after printer (late parseDecimal diff) (fresh parseDecimal pkTypes field)) ∧
      ∃ pgType, (after printer (late parseDecimal diff) (fresh parseDecimal pkTypes field)).defaultExpr =
        (wantedDefault parseDecimal field).map (printer.printed pgType) := by
  have own := @changesOf_missing parseDecimal pkTypes schema table columns field plain absent
  have reads {α : Type} {reader : Ddl → Option α} {phase : Phase} (aboutField : Local field.name reader) :
      (diff.flatMap (emitDdl parseDecimal phase)).filterMap reader =
        (emitDdl parseDecimal phase (.add field (wantedType parseDecimal pkTypes field))).filterMap reader := by
    rw [shape, changes, phase_local unique member aboutField, own]
    simp
  have name : (fresh parseDecimal pkTypes field).name = field.name := rfl
  refine ⟨⟨?_, ?_, ?_⟩, ?_⟩
  · have type := after_pgType printer (late parseDecimal diff) (fresh parseDecimal pkTypes field)
    rw [name, late_type] at type
    unfold typeDiff
    rw [if_neg]
    rw [not_not, type]
    rfl
  · have null := after_notNull printer (late parseDecimal diff) (fresh parseDecimal pkTypes field)
    rw [name, late_null, reads (writesNull_local _)] at null
    unfold nullDiff
    rw [null]
    cases required : field.required <;> cases field.isPk <;> simp [emitDdl, required, Ddl.writesNull, lastOr, fresh]
  · apply fkDiff_nil_of
    intro fk hasFk
    obtain none | written := after_fk printer (late parseDecimal diff) (fresh parseDecimal pkTypes field)
    · rw [none] at hasFk
      exact nomatch hasFk
    · rw [written, name, late_fk, reads (writesFk_local _)] at hasFk
      exact nomatch hasFk
  · obtain ⟨pgType, default⟩ :=
      after_default printer (late parseDecimal diff) (fresh parseDecimal pkTypes field)
    refine ⟨pgType, ?_⟩
    rw [default, name, late_default, reads (writesDefault_local _)]
    show lastOr none (map _ (((addedDefault parseDecimal field).toList.map _).filterMap _)) = _
    rw [addedDefault_eq typed]
    cases wantedDefault parseDecimal field with
    | none => rfl
    | some sql => simp [lastOr, Ddl.writesDefault]

end Runs

/-! ## The synced table -/

theorem synced_names (early' late' : List Ddl) :
    ((columns.map (after printer early') ++ (fields.filter (missing columns)).map (fresh parseDecimal pkTypes)).map
        (after printer late')).map (·.name) =
      columns.map (·.name) ++ (fields.filter (missing columns)).map (·.name) := by
  rw [map_map, map_append, map_map, map_map]
  congr 1
  · exact map_congr_left fun column _ => (after_name _ _ _).trans (after_name _ _ _)
  · exact map_congr_left fun field _ => after_name _ _ _

theorem synced_unique (uniqueColumns : (columns.map (·.name)).Nodup) (unique : (fields.map (·.name)).Nodup) :
    ((synced columns fields parseDecimal pkTypes schema table printer).map (·.name)).Nodup := by
  apply List.Nodup.sublist (filter_sublist.map _)
  rw [synced_names]
  apply uniqueColumns.append (unique.sublist (filter_sublist.map _))
  intro name inColumns inFields
  obtain ⟨field, mem, rfl⟩ := mem_map.mp inFields
  have absent := (mem_filter.mp mem).2
  rw [missing, Bool.and_eq_true, Option.isNone_iff_eq_none] at absent
  exact columnNamed_eq_none.mp absent.2 inColumns

theorem not_dropped (mem : field ∈ fields) : field.name ∉ droppedNames columns fields := by
  intro dropped
  obtain ⟨column, kept, named⟩ := mem_map.mp dropped
  have outside := (mem_filter.mp kept).2
  rw [Bool.and_eq_true, Bool.not_eq_true', Bool.not_eq_true', decide_eq_false_iff_not] at outside
  exact outside.2 (mem_map.mpr ⟨field, mem, named.symm⟩)

/-- The column of a field in the synced table. -/
theorem columnNamed_synced (uniqueColumns : (columns.map (·.name)).Nodup) (unique : (fields.map (·.name)).Nodup)
    {field : FieldContract} (mem : field ∈ fields) (plain : isSystemField field.name = false) :
    columnNamed (synced columns fields parseDecimal pkTypes schema table printer) field.name =
      match columnNamed columns field.name with
      | some column => some (after printer (early parseDecimal (changes columns fields parseDecimal pkTypes schema table) ++
          late parseDecimal (changes columns fields parseDecimal pkTypes schema table)) column)
      | none => some (after printer (late parseDecimal (changes columns fields parseDecimal pkTypes schema table))
          (fresh parseDecimal pkTypes field)) := by
  have kept {column : DbColumn} (named : column.name = field.name) :
      decide (column.name ∉ droppedNames columns fields) = true := by
    rw [decide_eq_true_eq, named]
    exact not_dropped mem
  cases found : columnNamed columns field.name with
  | some column =>
    obtain ⟨inside, named⟩ := (columnNamed_eq_some uniqueColumns).mp found
    rw [columnNamed_eq_some (synced_unique uniqueColumns unique)]
    refine ⟨mem_filter.mpr ⟨mem_map.mpr ⟨_, mem_append.mpr (.inl (mem_map.mpr ⟨column, inside, rfl⟩)),
      after_after _ _ _⟩, kept ?_⟩, ?_⟩
    · rw [after_name, named]
    · rw [after_name, named]
  | none =>
    have absent : missing columns field = true := by rw [missing, plain, found]; rfl
    rw [columnNamed_eq_some (synced_unique uniqueColumns unique)]
    refine ⟨mem_filter.mpr ⟨mem_map.mpr ⟨_, mem_append.mpr (.inr (mem_map.mpr
      ⟨field, mem_filter.mpr ⟨mem, absent⟩, rfl⟩)), rfl⟩, kept ?_⟩, ?_⟩
    · rw [after_name]; rfl
    · rw [after_name]; rfl

theorem dropDiffs_synced :
    dropDiffs (synced columns fields parseDecimal pkTypes schema table printer) fields = [] := by
  rw [dropDiffs, map_eq_nil_iff, filter_eq_nil_iff]
  intro column mem
  obtain ⟨inside, kept⟩ := mem_filter.mp mem
  rw [decide_eq_true_eq] at kept
  have named : column.name ∈ columns.map (·.name) ++ (fields.filter (missing columns)).map (·.name) := by
    rw [← synced_names]
    exact mem_map.mpr ⟨column, inside, rfl⟩
  rw [Bool.and_eq_true, Bool.not_eq_true', Bool.not_eq_true', decide_eq_false_iff_not]
  rintro ⟨plain, outside⟩
  obtain old | new := mem_append.mp named
  · obtain ⟨original, inColumns, same⟩ := mem_map.mp old
    apply kept
    refine mem_map.mpr ⟨original, mem_filter.mpr ⟨inColumns, ?_⟩, same⟩
    rw [same, plain, decide_eq_false outside]
    rfl
  · obtain ⟨field, inFields, same⟩ := mem_map.mp new
    exact outside (mem_map.mpr ⟨field, (mem_filter.mp inFields).1, same⟩)

end Facts

/-! ## Convergence -/

/-- The difference, applied and computed again, is empty. -/
def Converges (parseDecimal : Text → Option Text) (pkTypes : PkTypes) (schema table : Text) (printer : Printer)
    (columns : List DbColumn) (fields : List FieldContract) : Prop :=
  ∃ diff, computeDiff parseDecimal pkTypes schema table columns fields = .ok diff ∧
    computeDiff parseDecimal pkTypes schema table (applyDdl printer columns (generateDdl parseDecimal diff)) fields = .ok []

section Convergence

variable {parseDecimal : Text → Option Text} {pkTypes : PkTypes} {schema table : Text} {fields : List FieldContract}

theorem converges_iff (printer : Printer) (existing : Table) (typed : Typed parseDecimal fields)
    (unique : (fields.map (·.name)).Nodup) :
    Converges parseDecimal pkTypes schema table printer existing.columns fields ↔ ∀ field ∈ fields,
      changesOf parseDecimal pkTypes schema table
        (synced existing.columns fields parseDecimal pkTypes schema table printer) field = [] := by
  have diff := @computeDiff_eq parseDecimal pkTypes schema table existing.columns fields typed
  have again := @computeDiff_eq parseDecimal pkTypes schema table
    (synced existing.columns fields parseDecimal pkTypes schema table printer) fields typed
  rw [dropDiffs_synced, append_nil] at again
  have applied := @applyDdl_eq_synced parseDecimal pkTypes schema table printer existing.columns fields unique
  rw [← flatMap_eq_nil_iff]
  constructor
  · rintro ⟨found, computed, empty⟩
    cases diff.symm.trans computed
    have empty := (congrArg (fun columns => computeDiff parseDecimal pkTypes schema table columns fields) applied).symm.trans empty
    exact Except.ok.inj (again.symm.trans empty)
  · intro nothing
    refine ⟨_, diff, ?_⟩
    have same := congrArg (fun columns => computeDiff parseDecimal pkTypes schema table columns fields) applied
    exact same.trans (again.trans (congrArg Except.ok nothing))

theorem converges_of_castFree (printer : Printer) (existing : Table) (typed : Typed parseDecimal fields)
    (unique : (fields.map (·.name)).Nodup)
    (free : ∀ field ∈ fields, isSystemField field.name = false → ∀ sql ∈ wantedDefault parseDecimal field, CastFree sql) :
    Converges parseDecimal pkTypes schema table printer existing.columns fields := by
  rw [converges_iff printer existing typed unique]
  intro field mem
  cases plain : isSystemField field.name with
  | true => unfold changesOf; rw [plain]; rfl
  | false =>
    have column := @columnNamed_synced parseDecimal pkTypes schema table printer existing.columns fields existing.unique
      unique field mem plain
    obtain ⟨ty, known⟩ := typed field mem
    cases found : columnNamed existing.columns field.name with
    | some old =>
      rw [found] at column
      have named := ((columnNamed_eq_some existing.unique).mp found).2
      obtain ⟨settled, defaults⟩ := @settled_found parseDecimal pkTypes schema table printer existing.columns fields field
        unique mem plain old found named _ rfl
      rw [changesOf_found plain column, settled.type, settled.null, settled.fk, defaults (free field mem plain)]
      rfl
    | none =>
      rw [found] at column
      obtain ⟨settled, pgType, default⟩ := @settled_fresh parseDecimal pkTypes schema table printer existing.columns fields
        field unique mem plain ty known found _ rfl
      have noDefault : defaultDiff (after printer (late parseDecimal
          (changes existing.columns fields parseDecimal pkTypes schema table)) (fresh parseDecimal pkTypes field)) field
          (wantedDefault parseDecimal field) = [] := by
        unfold defaultDiff
        rw [default]
        cases wanted : wantedDefault parseDecimal field with
        | none => rfl
        | some sql =>
          have matched := defaultsMatch_printed printer (free field mem plain sql wanted) pgType
          simp [matched]
      rw [changesOf_found plain column, settled.type, settled.null, settled.fk, noDefault]
      rfl

/-- A database that prints a cast behind every default. -/
def castPrinter : Printer where
  printed := fun pgType sql => sql ++ "::" ++ pgType
  suffixed := fun pgType _ => .inr ⟨pgType, rfl⟩

def noColumns : Table := ⟨[], nodup_nil⟩

theorem not_converges_of_cast (typed : Typed parseDecimal fields) (unique : (fields.map (·.name)).Nodup)
    (mem : field ∈ fields) (plain : isSystemField field.name = false)
    (wanted : wantedDefault parseDecimal field = some sql) (lost : ¬ CastFree sql) :
    ¬ Converges parseDecimal pkTypes schema table castPrinter noColumns.columns fields := by
  rw [converges_iff castPrinter noColumns typed unique]
  intro nothing
  have column := @columnNamed_synced parseDecimal pkTypes schema table castPrinter noColumns.columns fields
    noColumns.unique unique field mem plain
  obtain ⟨ty, known⟩ := typed field mem
  have absent : columnNamed noColumns.columns field.name = none := rfl
  rw [absent] at column
  obtain ⟨-, pgType, default⟩ := @settled_fresh parseDecimal pkTypes schema table castPrinter noColumns.columns fields
    field unique mem plain ty known absent _ rfl
  have changed := nothing field mem
  rw [changesOf_found plain column, append_eq_nil_iff, append_eq_nil_iff] at changed
  have differs := changed.1.2
  unfold defaultDiff at differs
  rw [default, wanted] at differs
  have mismatch : defaultsMatch (castPrinter.printed pgType sql) sql = false := defaultsMatch_lost lost pgType
  simp [mismatch] at differs

end Convergence

/-- Schema sync converges on every table of an admitted entity, however defaults
    are printed, exactly when no default of a declared column is written with a
    cast. -/
theorem sync_converges_iff {crates : Rules.Crates} {manifest : AppManifest}
    (admitted : validateManifest crates manifest = .ok ()) {entity : EntityContract}
    (member : entity ∈ manifest.dataContract) (pkTypes : PkTypes) :
    (∀ (printer : Printer) (existing : Table), Converges crates.parseDecimal pkTypes manifest.appId entity.entityName
        printer existing.columns entity.fields) ↔
      ∀ field ∈ entity.fields, isSystemField field.name = false → ∀ ty sql,
        FieldType.fromField crates.parseDecimal field = .ok ty →
        declaredDefault crates.parseDecimal field ty = some sql → CastFree sql := by
  have facts := admitted_of_validateManifest admitted
  have typed : Typed crates.parseDecimal entity.fields := facts.types entity member
  have unique := facts.fields entity member
  have wanted {field : FieldContract} {ty : FieldType} (known : FieldType.fromField crates.parseDecimal field = .ok ty) :
      wantedDefault crates.parseDecimal field = declaredDefault crates.parseDecimal field ty := by
    rw [wantedDefault, typeOf, known]
    rfl
  constructor
  · intro converges field inside plain ty sql known default
    by_contra lost
    exact not_converges_of_cast typed unique inside plain ((wanted known).trans default) lost (converges castPrinter noColumns)
  · intro free printer existing
    apply converges_of_castFree printer existing typed unique
    intro field inside plain sql default
    obtain ⟨ty, known⟩ := typed field inside
    exact free field inside plain ty sql known ((wanted known).symm.trans default)

/-! A JSON default is written with its cast. -/

def settings : EntityContract where
  entityName := "settings"
  fields := [{ name := "prefs", fieldType := "json", defaultValue := some (.arr []) }]

def settingsManifest : AppManifest := ⟨"crm", [settings]⟩

theorem settings_typed : Typed Rules.sampleCrates.parseDecimal settings.fields := by
  intro field mem
  obtain rfl := mem_singleton.mp mem
  exact ⟨.json, rfl⟩

theorem json_default_set_again :
    validateManifest Rules.sampleCrates settingsManifest = .ok () ∧ settings ∈ settingsManifest.dataContract ∧
      ¬ Converges Rules.sampleCrates.parseDecimal (fun _ => none) settingsManifest.appId settings.entityName castPrinter
        noColumns.columns settings.fields :=
  ⟨by decide +kernel, List.mem_singleton.mpr rfl,
    not_converges_of_cast settings_typed (by decide) (List.mem_singleton.mpr rfl) (by decide)
      (show wantedDefault Rules.sampleCrates.parseDecimal _ = some "'[]'::jsonb".toList from rfl)
      fun free => free.1 ⟨"'[]'".toList, "jsonb".toList, rfl⟩⟩

theorem settings_converge :
    validateManifest Rules.sampleCrates settingsManifest = .ok () ∧
      ((∀ (printer : Printer) (existing : Table), Converges Rules.sampleCrates.parseDecimal (fun _ => none)
          settingsManifest.appId settings.entityName printer existing.columns settings.fields) ↔
        ∀ field ∈ settings.fields, isSystemField field.name = false → ∀ ty sql,
          FieldType.fromField Rules.sampleCrates.parseDecimal field = .ok ty →
          declaredDefault Rules.sampleCrates.parseDecimal field ty = some sql → CastFree sql) :=
  ⟨by decide +kernel, sync_converges_iff
    (show validateManifest Rules.sampleCrates settingsManifest = .ok () by decide +kernel) (List.mem_singleton.mpr rfl) _⟩

end RootCx.Schema
