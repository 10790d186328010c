import RootCx.Schema.Converge

/-! # Schema sync on a table with rows

The statements of `generate_ddl` run one after the other in one transaction.
Here they also run on the rows: a statement can fail on what the rows hold, and
then the whole change is rolled back.
-/

namespace RootCx.Schema

open RootCx.Text RootCx.Postgres List Function

/-! ## The server -/

inductive Refusal where
  | undefinedColumn (column : Text)
  | nullValues (column : Text)
  | unreferenced (constraint : Text)
  | invalid (message : Text)
  deriving DecidableEq, Repr

/-- What the server reads out of the texts of the statements. -/
structure Server (Value : Type) where
  printer : Printer
  -- what the `USING` clause makes of the value of a row
  converted : DbColumn → Text → Option Value → Except Refusal (Option Value)
  -- a default expression under the type of its column
  evaluated : Text → Text → Except Refusal (Option Value)
  -- is the value an id of the target?
  referenced : Text → Text → Value → Bool

variable {Value : Type}

structure Populated (Value : Type) where
  columns : List DbColumn
  -- what a row holds in each column, `none` for NULL
  rows : List (Text → Option Value)

def Populated.hasColumn (table : Populated Value) (name : Text) : Bool := name ∈ table.columns.map (·.name)

/-- The row with a new value of the column. -/
def convertRow (server : Server Value) (column : DbColumn) (toType : Text) (row : Text → Option Value) :
    Except Refusal (Text → Option Value) := do
  let value ← server.converted column toType (row column.name)
  if column.notNull && value.isNone then .error (.nullValues column.name)
  else .ok (update row column.name value)

/-- What a statement does to the rows. -/
def Ddl.onRows (server : Server Value) (table : Populated Value) (statement : Ddl) :
    Except Refusal (List (Text → Option Value)) :=
  match statement with
  | .dropConstraint _ | .dropColumn _ => .ok table.rows
  | .alterType name toType =>
    match table.columns.find? (·.name = name) with
    | none => .error (.undefinedColumn name)
    | some column => table.rows.mapM (convertRow server column toType)
  -- without a default: NULL in every row there is
  | .addColumn name _ =>
    .ok (if table.hasColumn name then table.rows else table.rows.map (update · name none))
  -- scans the table
  | .setNotNull name =>
    if !table.hasColumn name then .error (.undefinedColumn name)
    else if table.rows.any fun row => (row name).isNone then .error (.nullValues name)
    else .ok table.rows
  -- a default is for rows to come
  | .setDefault name sql =>
    match table.columns.find? (·.name = name) with
    | none => .error (.undefinedColumn name)
    | some column => (server.evaluated column.pgType sql).map fun _ => table.rows
  | .dropNotNull name | .dropDefault name =>
    if table.hasColumn name then .ok table.rows else .error (.undefinedColumn name)
  | .addForeignKey constraint name schema target _ =>
    if !table.hasColumn name then .error (.undefinedColumn name)
    else if table.rows.all fun row => (row name).all (server.referenced schema target) then .ok table.rows
    else .error (.unreferenced constraint)

def Ddl.exec (server : Server Value) (table : Populated Value) (statement : Ddl) : Except Refusal (Populated Value) :=
  (statement.onRows server table).map (⟨statement.run server.printer table.columns, ·⟩)

/-- `apply_ddl`: the first error rolls everything back. -/
def Populated.applyDdl (server : Server Value) (table : Populated Value) (statements : List Ddl) :
    Except Refusal (Populated Value) :=
  statements.foldlM (Ddl.exec server) table

/-- The statements run to their end, and every row holds the default in the
    column. -/
def Fills (server : Server Value) (table : Populated Value) (statements : List Ddl) (column pgType sql : Text) : Prop :=
  ∃ value after, server.evaluated (formatType pgType) sql = .ok value ∧
    table.applyDdl server statements = .ok after ∧ ∀ row ∈ after.rows, row column = value

variable {statements : List Ddl} {column : Text} {rows : List (Text → Option Value)}

/-! ## One statement -/

section Exec

variable {server : Server Value} {table after : Populated Value} {statement : Ddl}

theorem exec_eq_ok : statement.exec server table = .ok after ↔
    after.columns = statement.run server.printer table.columns ∧ statement.onRows server table = .ok after.rows := by
  unfold Ddl.exec
  cases statement.onRows server table with
  | error refusal => simp [Except.map]
  | ok rows =>
    cases after
    simp [Except.map, eq_comm]

theorem applyDdl_keeps {P : Populated Value → Prop}
    (step : ∀ statement ∈ statements, ∀ before after, statement.exec server before = .ok after → P before → P after)
    (ran : table.applyDdl server statements = .ok after) (start : P table) : P after := by
  induction statements generalizing table with
  | nil =>
    cases ran
    exact start
  | cons statement statements ih =>
    obtain ⟨middle, first, rest⟩ := bind_eq_ok.mp ran
    have reached : P middle := step statement mem_cons_self table middle first start
    exact ih (fun other mem => step other (mem_cons_of_mem statement mem)) rest reached

theorem applyDdl_append {first second : List Ddl} :
    table.applyDdl server (first ++ second) = table.applyDdl server first >>= (·.applyDdl server second) :=
  foldlM_append

/-! ## A column without values -/

/-- There are rows, and none of them has a value in the column. -/
def Unfilled (column : Text) (table : Populated Value) : Prop :=
  table.rows ≠ [] ∧ (table.hasColumn column = false ∨ ∀ row ∈ table.rows, row column = none)

/-- There are rows, and the table does not have the column. -/
def Absent (column : Text) (table : Populated Value) : Prop :=
  table.rows ≠ [] ∧ table.hasColumn column = false

theorem Absent.unfilled (absent : Absent column table) : Unfilled column table :=
  ⟨absent.1, .inl absent.2⟩

/-- Only two statements write rows. -/
inductive Writes (server : Server Value) (table : Populated Value) : Ddl → List (Text → Option Value) → Prop where
  | converted {name toType : Text} {column : DbColumn} {rows : List (Text → Option Value)}
      (found : table.columns.find? (·.name = name) = some column)
      (each : table.rows.mapM (convertRow server column toType) = .ok rows) : Writes server table (.alterType name toType) rows
  | added {name pgType : Text} (new : table.hasColumn name = false) :
      Writes server table (.addColumn name pgType) (table.rows.map (update · name none))
  | unchanged {statement : Ddl} : Writes server table statement table.rows

theorem writes_of_onRows (ran : statement.onRows server table = .ok rows) :
    Writes server table statement rows := by
  cases statement with
  | dropConstraint name | dropColumn name =>
    cases ran
    exact .unchanged
  | alterType name toType =>
    simp only [Ddl.onRows] at ran
    split at ran
    next => cases ran
    next column found => exact .converted found ran
  | addColumn name pgType =>
    cases ran
    split
    next => exact .unchanged
    next new => exact .added (Bool.eq_false_of_not_eq_true new)
  | setDefault name sql =>
    simp only [Ddl.onRows] at ran
    split at ran
    next => cases ran
    next column found =>
      cases value : server.evaluated column.pgType sql with
      | error refusal =>
        rw [value] at ran
        cases ran
      | ok value' =>
        rw [value] at ran
        cases ran
        exact .unchanged
  | setNotNull name | addForeignKey constraint name schema target action =>
    simp only [Ddl.onRows] at ran
    split at ran
    · cases ran
    · split at ran <;> cases ran
      exact .unchanged
  | dropNotNull name | dropDefault name =>
    simp only [Ddl.onRows] at ran
    split at ran <;> cases ran
    exact .unchanged

theorem Writes.ne_nil (writes : Writes server table statement rows) (populated : table.rows ≠ []) :
    rows ≠ [] := by
  cases writes with
  | converted found each =>
    obtain ⟨row, others, shape⟩ := exists_cons_of_ne_nil populated
    rw [shape, mapM_cons] at each
    obtain ⟨first, -, each⟩ := bind_eq_ok.mp each
    obtain ⟨rest, -, whole⟩ := bind_eq_ok.mp each
    obtain rfl := pure_eq_ok.mp whole
    exact cons_ne_nil first rest
  | added => simpa using populated
  | unchanged => exact populated

/-- A column that is not there appears by `ADD COLUMN` alone. -/
theorem run_hasColumn (ran : statement.exec server table = .ok after)
    (other : ∀ pgType, statement ≠ .addColumn column pgType) (absent : table.hasColumn column = false) :
    after.hasColumn column = false := by
  simp only [Populated.hasColumn, decide_eq_false_iff_not] at absent ⊢
  rw [(exec_eq_ok.mp ran).1]
  cases statement with
  | addColumn name pgType =>
    simp only [Ddl.run]
    split
    · exact absent
    · rw [map_append, mem_append]
      rintro (old | new)
      · exact absent old
      · obtain rfl := mem_singleton.mp new
        exact other pgType rfl
  | dropColumn name =>
    intro left
    obtain ⟨kept, mem, same⟩ := mem_map.mp left
    exact absent (mem_map.mpr ⟨kept, mem_of_mem_filter mem, same⟩)
  | _ => simpa [Ddl.run, map_map, comp_def, onColumn_name] using absent

theorem exec_absent (ran : statement.exec server table = .ok after)
    (other : ∀ pgType, statement ≠ .addColumn column pgType) (absent : Absent column table) :
    Absent column after :=
  ⟨(writes_of_onRows (exec_eq_ok.mp ran).2).ne_nil absent.1, run_hasColumn ran other absent.2⟩

theorem added_null {pgType : Text} (ran : (Ddl.addColumn column pgType).exec server table = .ok after)
    (absent : table.hasColumn column = false) : ∀ row ∈ after.rows, row column = none := by
  have rows := (exec_eq_ok.mp ran).2
  simp only [Ddl.onRows, absent, Bool.false_eq_true, if_false, Except.ok.injEq] at rows
  intro row mem
  rw [← rows] at mem
  obtain ⟨old, -, rfl⟩ := mem_map.mp mem
  exact update_self column none old

theorem convertRow_other {found : DbColumn} {toType : Text} {row converted : Text → Option Value}
    (ran : convertRow server found toType row = .ok converted) (other : column ≠ found.name) :
    converted column = row column := by
  obtain ⟨value, -, kept⟩ := bind_eq_ok.mp ran
  split at kept <;> cases kept
  exact update_of_ne other value row

theorem Writes.null (writes : Writes server table statement rows)
    (other : ∀ toType, statement ≠ .alterType column toType) (null : ∀ row ∈ table.rows, row column = none) :
    ∀ row ∈ rows, row column = none := by
  intro row mem
  cases writes with
  | @converted name toType found rows named each =>
    obtain ⟨old, inside, ran⟩ := mem_of_mapM_ok each mem
    have apart : column ≠ found.name := by
      rintro rfl
      have same : found.name = name := by simpa using find?_some named
      exact other toType (by rw [same])
    rw [convertRow_other ran apart]
    exact null old inside
  | @added name pgType new =>
    obtain ⟨old, inside, rfl⟩ := mem_map.mp mem
    by_cases same : column = name
    · rw [same]
      exact update_self name none old
    · rw [update_of_ne same]
      exact null old inside
  | unchanged => exact null row mem

theorem exec_unfilled (ran : statement.exec server table = .ok after)
    (other : ∀ toType, statement ≠ .alterType column toType) (unfilled : Unfilled column table) :
    Unfilled column after := by
  have writes := writes_of_onRows (exec_eq_ok.mp ran).2
  refine ⟨writes.ne_nil unfilled.1, ?_⟩
  obtain absent | null := unfilled.2
  · by_cases adds : ∃ pgType, statement = .addColumn column pgType
    · obtain ⟨pgType, rfl⟩ := adds
      exact .inr (added_null ran absent)
    · exact .inl (run_hasColumn ran (fun pgType same => adds ⟨pgType, same⟩) absent)
  · exact .inr (writes.null other null)

theorem setNotNull_refused (unfilled : Unfilled column table) :
    (Ddl.setNotNull column).exec server table ≠ .ok after := by
  intro ran
  have rows := (exec_eq_ok.mp ran).2
  simp only [Ddl.onRows] at rows
  split at rows
  next => cases rows
  next known =>
    split at rows
    next => cases rows
    next full =>
      obtain absent | null := unfilled.2
      · simp [absent] at known
      · obtain ⟨row, others, shape⟩ := exists_cons_of_ne_nil unfilled.1
        have inside : row ∈ table.rows := shape ▸ mem_cons_self
        exact full (any_eq_true.mpr ⟨row, inside, by rw [null row inside]; rfl⟩)

/-- Statements that change no type of the column stop at its `SET NOT NULL`. -/
theorem applyDdl_refused (other : ∀ statement ∈ statements, ∀ toType, statement ≠ .alterType column toType)
    (demanded : .setNotNull column ∈ statements) (unfilled : Unfilled column table) :
    table.applyDdl server statements ≠ .ok after := by
  obtain ⟨front, rest, rfl⟩ := append_of_mem demanded
  intro ran
  rw [applyDdl_append] at ran
  obtain ⟨middle, first, second⟩ := bind_eq_ok.mp ran
  have reached : Unfilled column middle :=
    applyDdl_keeps (fun statement mem before next step =>
      exec_unfilled step (other statement (mem_append_left _ mem))) first unfilled
  obtain ⟨demandedAt, now, -⟩ := bind_eq_ok.mp second
  exact setNotNull_refused reached now

end Exec

/-! ## The phases -/

/-- The phase of a statement. -/
def Ddl.phase : Ddl → Phase
  | .dropConstraint _ => .dropConstraints
  | .alterType _ _ => .alterTypes
  | .addColumn _ _ => .addColumns
  | .setNotNull _ | .dropNotNull _ => .nullability
  | .setDefault _ _ | .dropDefault _ => .defaults
  | .addForeignKey _ _ _ _ _ => .addConstraints
  | .dropColumn _ => .dropColumns

theorem phase_of_mem_emitDdl {parseDecimal : Text → Option Text} {phase : Phase} {change : ColumnDiff} {statement : Ddl}
    (mem : statement ∈ emitDdl parseDecimal phase change) : statement.phase = phase := by
  cases phase <;> cases change <;> simp only [emitDdl, not_mem_nil, mem_singleton, mem_map] at mem
  case nullability.add field pgType =>
    split at mem
    · obtain rfl := mem_singleton.mp mem
      rfl
    · cases mem
  case defaults.add field pgType =>
    obtain ⟨sql, -, rfl⟩ := mem
    rfl
  all_goals
    subst mem
    rfl

section Phases

variable (parseDecimal : Text → Option Text) (changes : List ColumnDiff)

def phaseDdl (phase : Phase) : List Ddl := changes.flatMap (emitDdl parseDecimal phase)

variable {parseDecimal changes}

theorem phase_of_mem_phaseDdl {phase : Phase} {statement : Ddl} (mem : statement ∈ phaseDdl parseDecimal changes phase) :
    statement.phase = phase := by
  obtain ⟨change, -, inside⟩ := mem_flatMap.mp mem
  exact phase_of_mem_emitDdl inside

/-- No statement before the columns are added adds one, and none after changes a
    type before `SET NOT NULL` has run. -/
theorem generateDdl_split : generateDdl parseDecimal changes =
    (phaseDdl parseDecimal changes .dropConstraints ++ phaseDdl parseDecimal changes .alterTypes) ++
      ((phaseDdl parseDecimal changes .addColumns ++ phaseDdl parseDecimal changes .nullability) ++
        (phaseDdl parseDecimal changes .defaults ++ phaseDdl parseDecimal changes .addConstraints ++
          phaseDdl parseDecimal changes .dropColumns)) := by
  simp [generateDdl, PHASES, phaseDdl]

/-- A required column that is new to a table with rows is refused, with a default
    and without. -/
theorem required_add_refused {Value : Type} {server : Server Value} {table after : Populated Value}
    {field : FieldContract} {pgType : Text} (added : .add field pgType ∈ changes) (required : field.required)
    (absent : Absent field.name table) : table.applyDdl server (generateDdl parseDecimal changes) ≠ .ok after := by
  intro ran
  rw [generateDdl_split, applyDdl_append] at ran
  obtain ⟨middle, before, ran⟩ := bind_eq_ok.mp ran
  rw [applyDdl_append] at ran
  obtain ⟨demandedAt, now, -⟩ := bind_eq_ok.mp ran
  -- the column is still missing when the columns are added
  have missing : Absent field.name middle := by
    refine applyDdl_keeps (fun statement mem before next step => exec_absent step ?_) before absent
    rintro pgType rfl
    obtain early | early := mem_append.mp mem <;> cases phase_of_mem_phaseDdl early
  have demanded : Ddl.setNotNull field.name ∈ phaseDdl parseDecimal changes .nullability :=
    mem_flatMap.mpr ⟨_, added, by simp [emitDdl, required]⟩
  refine applyDdl_refused ?_ (mem_append_right _ demanded) missing.unfilled now
  rintro statement mem toType rfl
  obtain late | late := mem_append.mp mem <;> cases phase_of_mem_phaseDdl late

/-- Whatever else a change holds, a required column with a default is never filled
    in a table with rows. -/
theorem required_default_not_filled {Value : Type} {server : Server Value} {table : Populated Value}
    {field : FieldContract} {pgType sql : Text} (added : .add field pgType ∈ changes) (required : field.required)
    (_given : addedDefault parseDecimal field = some sql) (populated : table.rows ≠ [])
    (new : table.hasColumn field.name = false) :
    ¬ Fills server table (generateDdl parseDecimal changes) field.name pgType sql := by
  intro ⟨value, after, _, ran, _⟩
  exact required_add_refused added required ⟨populated, new⟩ ran

end Phases

/-! A status that every deal must have, with one deal in the table. -/

def textServer : Server Text where
  printer := castPrinter
  converted := fun _ _ value => .ok value
  evaluated := fun _ sql => .ok (some (sql.drop 1).dropLast)
  referenced := fun _ _ _ => true

def deals : Populated Text where
  columns := [⟨"title", "text", false, none, none⟩]
  rows := [fun column => if column = "title" then some "Renewal" else none]

def statusField : FieldContract where
  name := "status"
  fieldType := "text"
  required := true
  defaultValue := some (.str "open")

def titleField : FieldContract := { name := "title", fieldType := "text" }

def statusAdded : List ColumnDiff := [.add statusField "TEXT"]

theorem status_refused :
    deals.applyDdl textServer (generateDdl some statusAdded) = .error (.nullValues "status") := rfl

theorem status_not_filled :
    computeDiff some (fun _ => none) "crm".toList "deals".toList deals.columns [titleField, statusField] = .ok statusAdded ∧
      addedDefault some statusField = some "'open'".toList ∧
      textServer.evaluated "text".toList "'open'".toList = .ok (some "open".toList) ∧
      ¬ Fills textServer deals (generateDdl some statusAdded) "status".toList "TEXT".toList "'open'".toList := by
  refine ⟨rfl, rfl, rfl, ?_⟩
  intro ⟨value, after, _, ran, _⟩
  rw [status_refused] at ran
  cases ran

theorem status_never_filled :
    statusField.required ∧ deals.rows ≠ [] ∧
      ¬ Fills textServer deals (generateDdl some (.drop "title".toList :: statusAdded)) "status".toList "TEXT".toList
        "'open'".toList :=
  ⟨rfl, List.cons_ne_nil _ _,
    required_default_not_filled (show ColumnDiff.add statusField "TEXT".toList ∈ _ from List.mem_cons_of_mem _ List.mem_cons_self)
      rfl rfl (List.cons_ne_nil _ _) rfl⟩

end RootCx.Schema
