import RootCx.Crud.BindTyped
import RootCx.Lib.Lookup

/-! # Bulk inserts

`routes/crud.rs`: one record creates one row, a batch creates its rows by one
statement whose columns are the keys of all records. -/

namespace RootCx.Crud

open RootCx.Text RootCx.Postgres List

/-! ## Tables -/

/-- A value of a column, `none` for NULL. -/
abbrev Cell := Option SqlValue

abbrev TableRow := List Cell

structure TableColumn where
  name : Text
  notNull : Bool
  -- what the default gives for the row at a position of the request, `none` without a default
  default : Nat → Cell

structure BatchTarget where
  types : FieldTypes
  columns : List TableColumn
  readers : Readers

abbrev Entries := List (Text × Json)

/-- A JSON object. -/
structure BatchRecord where
  entries : Entries
  distinct : (entries.map Prod.fst).Nodup

def BatchRecord.get (record : BatchRecord) (name : Text) : Option Json := (Json.obj record.entries).get name

def sqlCell : SqlValue → Cell
  | .null _ => none
  | value => some value

section Insert

variable (target : BatchTarget)

/-- The cell that a value becomes in the column of a name. -/
def bindCell (name : Text) (value : Json) : Except Text Cell := do
  let fieldType := (target.types name).map Field.fieldType
  let bound ← bindTyped target.readers value fieldType
  let stored ← okOr "numeric field overflow" (storeIn fieldType bound)
  .ok (sqlCell stored)

def bindEntries (entries : Entries) : Except Text (List (Text × Cell)) :=
  entries.mapM fun entry => do
    let cell ← bindCell target entry.1 entry.2
    .ok (entry.1, cell)

def cellNamed (assigned : List (Text × Cell)) (name : Text) : Option Cell :=
  (assigned.find? (·.1 = name)).map Prod.snd

def fillColumn (position : Nat) (assigned : List (Text × Cell)) (column : TableColumn) : Except Text Cell :=
  let cell := (cellNamed assigned column.name).getD (column.default position)
  if column.notNull && cell.isNone then
    .error ("null value in column \"" ++ column.name ++ "\" violates not-null constraint")
  else .ok cell

/-- The row that an `INSERT` makes of what is assigned to its columns. -/
def formRow (position : Nat) (assigned : List (Text × Cell)) : Except Text TableRow :=
  match assigned.find? (fun entry => !(entry.1 ∈ target.columns.map (·.name))) with
  | some entry => .error ("column \"" ++ entry.1 ++ "\" does not exist")
  | none => target.columns.mapM (fillColumn position assigned)

-- the other constraints of the table: checks, unique and foreign keys, row policies
variable (admits : List TableRow → TableRow → Bool)

def insertRow (rows : List TableRow) (position : Nat) (assigned : List (Text × Cell)) : Except Text (List TableRow) := do
  let row ← formRow target position assigned
  if admits rows row then .ok (rows ++ [row]) else .error "new row violates a constraint"

/-! ## One record -/

def filterWritableFields (record : BatchRecord) : Entries := record.entries.filter fun entry => !isSystemField entry.1

def createRecord (rows : List TableRow) (position : Nat) (record : BatchRecord) : Except Text (List TableRow) :=
  let entries := filterWritableFields record
  if entries = [] then .error "body must contain at least one writable field"
  else do
    let assigned ← bindEntries target entries
    insertRow target admits rows position assigned

/-- Records created one after the other. -/
def createEach (rows : List TableRow) (position : Nat) : List BatchRecord → Except Text (List TableRow)
  | [] => .ok rows
  | record :: records => do
    let rows ← createRecord target admits rows position record
    createEach rows (position + 1) records

/-! ## A batch -/

/-- The names of a record that are not there yet. -/
def addKeys (keys : List Text) (record : BatchRecord) : List Text :=
  record.entries.foldl (fun keys entry => if isSystemField entry.1 || entry.1 ∈ keys then keys else keys ++ [entry.1]) keys

def unionKeys (records : List BatchRecord) : List Text := records.foldl addKeys []

/-- A key that is missing is bound as null. -/
def paddedEntries (keys : List Text) (record : BatchRecord) : Entries :=
  keys.map fun key => (key, (record.get key).getD .null)

def insertAll (rows : List TableRow) (position : Nat) : List (List (Text × Cell)) → Except Text (List TableRow)
  | [] => .ok rows
  | assigned :: rest => do
    let rows ← insertRow target admits rows position assigned
    insertAll rows (position + 1) rest

def bulkInsert (rows : List TableRow) (records : List BatchRecord) : Except Text (List TableRow) :=
  let keys := unionKeys records
  if keys = [] then .error "each record must contain at least one writable field"
  else if records.length * keys.length > PG_PARAM_LIMIT then
    .error ("bulk insert requires " ++ Nat.toDigits 10 (records.length * keys.length) ++ " params, limit is " ++
      Nat.toDigits 10 PG_PARAM_LIMIT)
  else do
    let assigned ← records.mapM fun record => bindEntries target (paddedEntries keys record)
    insertAll target admits rows 0 assigned

/-- Whatever the table holds and demands, the batch leaves the rows that its
    records leave one by one, or both are refused. -/
def Agrees (records : List BatchRecord) : Prop :=
  ∀ admits rows, (bulkInsert target admits rows records).toOption = (createEach target admits rows 0 records).toOption

/-- The row that entries make. -/
def makeRow (position : Nat) (entries : Entries) : Except Text TableRow := do
  let assigned ← bindEntries target entries
  formRow target position assigned

end Insert

/-! ## Rows -/

section Rows

variable {target : BatchTarget} {position : Nat} {entries : Entries}

def entryNamed (entries : Entries) (name : Text) : Option Json := (entries.find? (·.1 = name)).map Prod.snd

variable (target) in
/-- The cell of a column in the row that entries make. -/
def cellOf (position : Nat) (entries : Entries) (column : TableColumn) : Cell :=
  match entryNamed entries column.name with
  | some value => (bindCell target column.name value).toOption.join
  | none => column.default position

variable (target) in
/-- Entries that make a row. -/
structure Fits (position : Nat) (entries : Entries) : Prop where
  bound : ∀ entry ∈ entries, ∃ cell, bindCell target entry.1 entry.2 = .ok cell
  known : ∀ entry ∈ entries, entry.1 ∈ target.columns.map (·.name)
  filled : ∀ column ∈ target.columns, column.notNull → cellOf target position entries column ≠ none

theorem bindEntries_eq_ok {assigned : List (Text × Cell)} (ran : bindEntries target entries = .ok assigned) :
    (∀ entry ∈ entries, ∃ cell, bindCell target entry.1 entry.2 = .ok cell) ∧
      assigned = entries.map fun entry => (entry.1, (bindCell target entry.1 entry.2).toOption.join) := by
  unfold bindEntries at ran
  induction entries generalizing assigned with
  | nil =>
    obtain rfl := pure_eq_ok.mp ran
    exact ⟨fun entry mem => absurd mem not_mem_nil, rfl⟩
  | cons entry entries ih =>
    rw [mapM_cons] at ran
    obtain ⟨first, one, ran⟩ := bind_eq_ok.mp ran
    obtain ⟨others, many, done⟩ := bind_eq_ok.mp ran
    obtain ⟨cell, read, same⟩ := bind_eq_ok.mp one
    cases same
    obtain rfl := pure_eq_ok.mp done
    obtain ⟨bound, rfl⟩ := ih many
    refine ⟨?_, by rw [map_cons, read]; rfl⟩
    intro other mem
    obtain rfl | older := mem_cons.mp mem
    · exact ⟨cell, read⟩
    · exact bound other older

theorem exists_bindEntries (bound : ∀ entry ∈ entries, ∃ cell, bindCell target entry.1 entry.2 = .ok cell) :
    ∃ assigned, bindEntries target entries = .ok assigned := by
  unfold bindEntries
  induction entries with
  | nil => exact ⟨[], rfl⟩
  | cons entry entries ih =>
    obtain ⟨cell, read⟩ := bound entry mem_cons_self
    obtain ⟨others, many⟩ := ih fun other mem => bound other (mem_cons_of_mem entry mem)
    refine ⟨(entry.1, cell) :: others, ?_⟩
    rw [mapM_cons]
    exact bind_eq_ok.mpr ⟨_, bind_eq_ok.mpr ⟨cell, read, rfl⟩, bind_eq_ok.mpr ⟨others, many, rfl⟩⟩

theorem cellNamed_bound (name : Text) :
    cellNamed (entries.map fun entry => (entry.1, (bindCell target entry.1 entry.2).toOption.join)) name =
      (entryNamed entries name).map fun value => (bindCell target name value).toOption.join := by
  unfold cellNamed entryNamed
  rw [find?_map]
  show ((entries.find? (·.1 = name)).map _).map Prod.snd = _
  cases found : entries.find? (·.1 = name) with
  | none => rfl
  | some entry =>
    have named : entry.1 = name := by simpa using find?_some found
    subst named
    rfl

theorem fillColumn_eq_ok {assigned : List (Text × Cell)} {column : TableColumn} {cell : Cell} :
    fillColumn position assigned column = .ok cell ↔
      cell = (cellNamed assigned column.name).getD (column.default position) ∧
        (column.notNull → (cellNamed assigned column.name).getD (column.default position) ≠ none) := by
  unfold fillColumn
  generalize (cellNamed assigned column.name).getD (column.default position) = given
  cases column.notNull <;> cases given <;> simp [eq_comm]

theorem mapM_fillColumn {assigned : List (Text × Cell)} {columns : List TableColumn} {row : TableRow} :
    columns.mapM (fillColumn position assigned) = .ok row ↔
      row = columns.map (fun column => (cellNamed assigned column.name).getD (column.default position)) ∧
        ∀ column ∈ columns, column.notNull → (cellNamed assigned column.name).getD (column.default position) ≠ none := by
  induction columns generalizing row with
  | nil =>
    rw [mapM_nil, pure_eq_ok]
    constructor
    · rintro rfl
      exact ⟨rfl, fun column mem => absurd mem not_mem_nil⟩
    · rintro ⟨rfl, -⟩
      rfl
  | cons column columns ih =>
    rw [mapM_cons, bind_eq_ok]
    constructor
    · rintro ⟨cell, one, rest⟩
      obtain ⟨cells, many, done⟩ := bind_eq_ok.mp rest
      obtain rfl := pure_eq_ok.mp done
      obtain ⟨rfl, present⟩ := fillColumn_eq_ok.mp one
      obtain ⟨rfl, others⟩ := ih.mp many
      exact ⟨rfl, forall_mem_cons.mpr ⟨present, others⟩⟩
    · rintro ⟨rfl, present⟩
      obtain ⟨first, others⟩ := forall_mem_cons.mp present
      exact ⟨_, fillColumn_eq_ok.mpr ⟨rfl, first⟩, bind_eq_ok.mpr ⟨_, ih.mpr ⟨rfl, others⟩, rfl⟩⟩

theorem getD_cellNamed (column : TableColumn) :
    (cellNamed (entries.map fun entry => (entry.1, (bindCell target entry.1 entry.2).toOption.join)) column.name).getD
        (column.default position) =
      cellOf target position entries column := by
  rw [cellNamed_bound, cellOf]
  cases entryNamed entries column.name <;> rfl

theorem formRow_eq_ok {row : TableRow} :
    formRow target position (entries.map fun entry => (entry.1, (bindCell target entry.1 entry.2).toOption.join)) = .ok row ↔
      (∀ entry ∈ entries, entry.1 ∈ target.columns.map (·.name)) ∧
        row = target.columns.map (cellOf target position entries) ∧
        ∀ column ∈ target.columns, column.notNull → cellOf target position entries column ≠ none := by
  have cells : (fun column => (cellNamed (entries.map fun entry =>
      (entry.1, (bindCell target entry.1 entry.2).toOption.join)) column.name).getD (column.default position)) =
      cellOf target position entries := funext getD_cellNamed
  unfold formRow
  split
  next entry unknown =>
    refine iff_of_false (fun same => nomatch same) ?_
    rintro ⟨known, -⟩
    obtain ⟨origin, mem, rfl⟩ := mem_map.mp (mem_of_find?_eq_some unknown)
    have there := known origin mem
    have missing := find?_some unknown
    simp only [Bool.not_eq_true', decide_eq_false_iff_not] at missing
    exact missing there
  next known =>
    rw [mapM_fillColumn, cells]
    have all : ∀ entry ∈ entries, entry.1 ∈ target.columns.map (·.name) := by
      intro entry mem
      have := find?_eq_none.mp known _ (mem_map_of_mem mem)
      simpa only [Bool.not_eq_true', decide_eq_false_iff_not, not_not] using this
    constructor
    · rintro ⟨rfl, filled⟩
      exact ⟨all, rfl, fun column mem => getD_cellNamed column ▸ filled column mem⟩
    · rintro ⟨-, rfl, filled⟩
      exact ⟨rfl, fun column mem => (getD_cellNamed column).symm ▸ filled column mem⟩

theorem makeRow_eq_ok {row : TableRow} :
    makeRow target position entries = .ok row ↔
      Fits target position entries ∧ row = target.columns.map (cellOf target position entries) := by
  unfold makeRow
  rw [bind_eq_ok]
  constructor
  · rintro ⟨assigned, ran, formed⟩
    obtain ⟨bound, rfl⟩ := bindEntries_eq_ok ran
    obtain ⟨known, same, filled⟩ := formRow_eq_ok.mp formed
    exact ⟨⟨bound, known, filled⟩, same⟩
  · rintro ⟨fits, same⟩
    obtain ⟨assigned, ran⟩ := exists_bindEntries fits.bound
    obtain ⟨-, rfl⟩ := bindEntries_eq_ok ran
    exact ⟨_, ran, formRow_eq_ok.mpr ⟨fits.known, same, fits.filled⟩⟩

end Rows

/-! ## Keys -/

section Keys

variable {target : BatchTarget} {position : Nat} {keys : List Text} {record : BatchRecord} {records : List BatchRecord} {name : Text}

theorem mem_addKeys : name ∈ addKeys keys record ↔ name ∈ keys ∨ ∃ entry ∈ filterWritableFields record, entry.1 = name := by
  unfold addKeys filterWritableFields
  induction record.entries generalizing keys with
  | nil => simp
  | cons entry entries ih =>
    rw [foldl_cons, ih]
    by_cases system : isSystemField entry.1
    · simp [system]
    · by_cases known : entry.1 ∈ keys
      · rw [if_pos (by simp [known]), filter_cons_of_pos (by simpa using system)]
        constructor
        · rintro (old | ⟨other, mem, same⟩)
          · exact .inl old
          · exact .inr ⟨other, mem_cons_of_mem _ mem, same⟩
        · rintro (old | ⟨other, mem, same⟩)
          · exact .inl old
          · obtain rfl | later := mem_cons.mp mem
            · exact .inl (same ▸ known)
            · exact .inr ⟨other, later, same⟩
      · rw [if_neg (by simp [system, known]), filter_cons_of_pos (by simpa using system), mem_append, mem_singleton]
        constructor
        · rintro ((old | rfl) | ⟨other, mem, same⟩)
          · exact .inl old
          · exact .inr ⟨entry, mem_cons_self, rfl⟩
          · exact .inr ⟨other, mem_cons_of_mem _ mem, same⟩
        · rintro (old | ⟨other, mem, same⟩)
          · exact .inl (.inl old)
          · obtain rfl | later := mem_cons.mp mem
            · exact .inl (.inr same.symm)
            · exact .inr ⟨other, later, same⟩

theorem mem_unionKeys : name ∈ unionKeys records ↔ ∃ record ∈ records, ∃ entry ∈ filterWritableFields record, entry.1 = name := by
  have every (keys : List Text) : name ∈ records.foldl addKeys keys ↔
      name ∈ keys ∨ ∃ record ∈ records, ∃ entry ∈ filterWritableFields record, entry.1 = name := by
    induction records generalizing keys with
    | nil => simp
    | cons record records ih =>
      rw [foldl_cons, ih, mem_addKeys, or_assoc, exists_mem_cons_iff]
  rw [unionKeys, every]
  simp

theorem entryNamed_padded : entryNamed (paddedEntries keys record) name =
    if name ∈ keys then some ((record.get name).getD .null) else none := by
  unfold entryNamed paddedEntries
  rw [find?_map]
  show ((keys.find? (· = name)).map _).map Prod.snd = _
  cases found : keys.find? (· = name) with
  | none =>
    have absent : name ∉ keys := fun mem => by simpa using find?_eq_none.mp found name mem
    rw [if_neg absent]
    rfl
  | some key =>
    have same : key = name := by simpa using find?_some found
    subst same
    rw [if_pos (mem_of_find?_eq_some found)]
    rfl

theorem entryNamed_writable (plain : isSystemField name = false) :
    entryNamed (filterWritableFields record) name = record.get name := by
  unfold entryNamed filterWritableFields
  rw [find?_filter]
  show _ = (record.entries.find? (·.1 = name)).map Prod.snd
  congr 2
  funext entry
  by_cases named : entry.1 = name
  · simp [named, plain]
  · simp [named]

theorem get_of_mem {value : Json} (mem : (name, value) ∈ record.entries) : record.get name = some value := by
  have found : record.entries.find? (·.1 = name) = some (name, value) :=
    (find?_key_eq_some record.distinct).mpr ⟨mem, rfl⟩
  show (record.entries.find? (·.1 = name)).map Prod.snd = _
  rw [found]
  rfl

theorem mem_of_get {value : Json} (found : record.get name = some value) : (name, value) ∈ record.entries := by
  obtain ⟨entry, first, rfl⟩ := Option.map_eq_some_iff.mp
    (show (record.entries.find? (·.1 = name)).map Prod.snd = some value from found)
  obtain ⟨mem, rfl⟩ := (find?_key_eq_some record.distinct).mp first
  exact mem

theorem bindCell_null : bindCell target name .null = .ok none := by
  unfold bindCell
  exact bind_eq_ok.mpr ⟨_, rfl, bind_eq_ok.mpr ⟨_, okOr_eq_ok.mpr storeIn_null, rfl⟩⟩

/-- Another record has the key, this one does not. -/
def Lacks (keys : List Text) (record : BatchRecord) (name : Text) : Prop := name ∈ keys ∧ record.get name = none

theorem plain_of_mem_unionKeys (mem : name ∈ unionKeys records) : isSystemField name = false := by
  obtain ⟨record, -, entry, writable, rfl⟩ := mem_unionKeys.mp mem
  simpa using (mem_filter.mp writable).2

theorem entryNamed_of_not_mem (mem : record ∈ records) (absent : name ∉ unionKeys records) :
    entryNamed (filterWritableFields record) name = none := by
  unfold entryNamed
  rw [Option.map_eq_none_iff, find?_eq_none]
  intro entry writable
  rw [decide_eq_true_iff]
  intro named
  exact absent (mem_unionKeys.mpr ⟨record, mem, entry, writable, named⟩)

/-! ## The cells of a batch -/

variable {column : TableColumn}

theorem cellOf_lacks (lacks : Lacks keys record column.name) : cellOf target position (paddedEntries keys record) column = none := by
  rw [cellOf, entryNamed_padded, if_pos lacks.1, lacks.2]
  show (bindCell target column.name .null).toOption.join = none
  rw [bindCell_null]
  rfl

theorem cellOf_default (lacks : Lacks (unionKeys records) record column.name) :
    cellOf target position (filterWritableFields record) column = column.default position := by
  rw [cellOf, entryNamed_writable (plain_of_mem_unionKeys lacks.1), lacks.2]

theorem cellOf_same (mem : record ∈ records) (has : ¬ Lacks (unionKeys records) record column.name) :
    cellOf target position (paddedEntries (unionKeys records) record) column =
      cellOf target position (filterWritableFields record) column := by
  unfold cellOf
  rw [entryNamed_padded]
  by_cases key : column.name ∈ unionKeys records
  · obtain ⟨value, found⟩ := Option.ne_none_iff_exists'.mp fun lost => has ⟨key, lost⟩
    rw [if_pos key, entryNamed_writable (plain_of_mem_unionKeys key), found]
    rfl
  · rw [if_neg key, entryNamed_of_not_mem mem key]

theorem fits_own (mem : record ∈ records) (fits : Fits target position (paddedEntries (unionKeys records) record)) :
    Fits target position (filterWritableFields record) := by
  have inBatch : ∀ entry ∈ filterWritableFields record, entry ∈ paddedEntries (unionKeys records) record := by
    intro entry writable
    have key : entry.1 ∈ unionKeys records := mem_unionKeys.mpr ⟨record, mem, entry, writable, rfl⟩
    refine mem_map.mpr ⟨entry.1, key, ?_⟩
    rw [get_of_mem (mem_of_mem_filter writable)]
    rfl
  refine ⟨fun entry writable => fits.bound entry (inBatch entry writable),
    fun entry writable => fits.known entry (inBatch entry writable), fun column inside required => ?_⟩
  have filled := fits.filled column inside required
  by_cases lacks : Lacks (unionKeys records) record column.name
  · exact absurd (cellOf_lacks lacks) filled
  · rwa [cellOf_same mem lacks] at filled

/-- A record that makes a row on its own makes one in a batch, if it has every
    required column that another record has. -/
theorem fits_batch (mem : record ∈ records) (fits : Fits target position (filterWritableFields record))
    (known : ∀ key ∈ unionKeys records, key ∈ target.columns.map (·.name))
    (complete : ∀ column ∈ target.columns, column.notNull → ¬ Lacks (unionKeys records) record column.name) :
    Fits target position (paddedEntries (unionKeys records) record) := by
  refine ⟨?_, ?_, fun column inside required => ?_⟩
  · intro entry padded
    obtain ⟨key, inKeys, rfl⟩ := mem_map.mp padded
    cases found : record.get key with
    | none => exact ⟨none, bindCell_null⟩
    | some value =>
      have plain := plain_of_mem_unionKeys inKeys
      exact fits.bound (key, value) (mem_filter.mpr ⟨mem_of_get found, by simp [plain]⟩)
  · intro entry padded
    obtain ⟨key, inKeys, rfl⟩ := mem_map.mp padded
    exact known key inKeys
  · rw [cellOf_same mem (complete column inside required)]
    exact fits.filled column inside required

end Keys

/-! ## Rows put in one after the other -/

/-- The rows in order, or nothing if one of them is missing or not admitted. -/
def chain (admits : List TableRow → TableRow → Bool) (rows : List TableRow) : List (Option TableRow) → Option (List TableRow)
  | [] => some rows
  | none :: _ => none
  | some row :: rest => if admits rows row then chain admits (rows ++ [row]) rest else none

variable {position : Nat} {pair : BatchRecord × Nat}

section Chain

variable {target : BatchTarget} {admits : List TableRow → TableRow → Bool} {rows : List TableRow} {made : List (Option TableRow)}

theorem chain_of_none (lost : none ∈ made) : chain admits rows made = none := by
  induction made generalizing rows with
  | nil => exact absurd lost not_mem_nil
  | cons first made ih =>
    cases first with
    | none => rfl
    | some row =>
      have later : none ∈ made := (mem_cons.mp lost).resolve_left nofun
      rw [chain, ih later, ite_self]

theorem chain_free {list : List TableRow} : chain (fun _ _ => true) rows (list.map some) = some (rows ++ list) := by
  induction list generalizing rows with
  | nil => rw [append_nil]; rfl
  | cons row list ih =>
    rw [map_cons, chain, if_pos rfl, ih, append_assoc]
    rfl

theorem exists_rows (present : none ∉ made) : ∃ rows : List TableRow, made = rows.map some := by
  induction made with
  | nil => exact ⟨[], rfl⟩
  | cons first made ih =>
    obtain ⟨rows, rest⟩ := ih fun later => present (mem_cons_of_mem first later)
    cases first with
    | none => exact absurd mem_cons_self present
    | some row => exact ⟨row :: rows, by rw [map_cons, rest]⟩

theorem chain_free_ne_none (present : none ∉ made) : chain (fun _ _ => true) rows made ≠ none := by
  obtain ⟨list, rfl⟩ := exists_rows present
  rw [chain_free]
  exact Option.some_ne_none _

theorem chain_free_inj {other : List (Option TableRow)} (present : none ∉ made)
    (same : chain (fun _ _ => true) [] made = chain (fun _ _ => true) [] other) : made = other := by
  obtain ⟨first, rfl⟩ := exists_rows present
  rw [chain_free] at same
  by_cases lost : none ∈ other
  · rw [chain_of_none lost] at same
    cases same
  · obtain ⟨second, rfl⟩ := exists_rows lost
    rw [chain_free] at same
    obtain rfl : first = second := Option.some.inj same
    rfl

variable (target) in
/-- The row that a record creates at a position. -/
def ownRow (pair : BatchRecord × Nat) : Option TableRow :=
  if filterWritableFields pair.1 = [] then none else (makeRow target pair.2 (filterWritableFields pair.1)).toOption

variable (target) in
/-- The row that a record makes in a batch with these keys. -/
def batchRow (keys : List Text) (pair : BatchRecord × Nat) : Option TableRow :=
  (makeRow target pair.2 (paddedEntries keys pair.1)).toOption

theorem toOption_insertRow {position : Nat} {entries : Entries} :
    (bindEntries target entries >>= insertRow target admits rows position).toOption =
      (makeRow target position entries).toOption.bind fun row => if admits rows row then some (rows ++ [row]) else none := by
  unfold makeRow insertRow
  cases bindEntries target entries with
  | error message => rfl
  | ok assigned =>
    show (formRow target position assigned >>= _).toOption = (formRow target position assigned).toOption.bind _
    cases formRow target position assigned with
    | error message => rfl
    | ok row =>
      show (if admits rows row then _ else _ : Except Text _).toOption = if admits rows row then _ else _
      split <;> rfl

theorem toOption_createRecord {record : BatchRecord} :
    (createRecord target admits rows position record).toOption =
      (ownRow target (record, position)).bind fun row => if admits rows row then some (rows ++ [row]) else none := by
  unfold createRecord ownRow
  by_cases empty : filterWritableFields record = []
  · simp only [empty, if_true]
    rfl
  · simp only [if_neg empty]
    exact toOption_insertRow

theorem toOption_createEach {records : List BatchRecord} :
    (createEach target admits rows position records).toOption =
      chain admits rows ((records.zipIdx position).map (ownRow target)) := by
  induction records generalizing rows position with
  | nil => rfl
  | cons record records ih =>
    rw [createEach, toOption_bind, toOption_createRecord, zipIdx_cons, map_cons]
    cases ownRow target (record, position) with
    | none => rfl
    | some row =>
      rw [Option.bind_some, chain]
      split
      · rw [Option.bind_some, ih]
      · rfl

theorem toOption_insertAll {position : Nat} {keys : List Text} {records : List BatchRecord} {assigned : List (List (Text × Cell))}
    (bound : (records.mapM fun record => bindEntries target (paddedEntries keys record)) = .ok assigned) :
    (insertAll target admits rows position assigned).toOption =
      chain admits rows ((records.zipIdx position).map (batchRow target keys)) := by
  induction records generalizing rows position assigned with
  | nil =>
    obtain rfl := pure_eq_ok.mp bound
    rfl
  | cons record records ih =>
    rw [mapM_cons] at bound
    obtain ⟨first, one, bound⟩ := bind_eq_ok.mp bound
    obtain ⟨others, many, done⟩ := bind_eq_ok.mp bound
    obtain rfl := pure_eq_ok.mp done
    have made : (insertRow target admits rows position first).toOption =
        (batchRow target keys (record, position)).bind fun row => if admits rows row then some (rows ++ [row]) else none := by
      have whole : (bindEntries target (paddedEntries keys record) >>= insertRow target admits rows position).toOption = _ :=
        toOption_insertRow
      rw [one] at whole
      exact whole
    rw [insertAll, toOption_bind, made, zipIdx_cons, map_cons]
    cases batchRow target keys (record, position) with
    | none => rfl
    | some row =>
      rw [Option.bind_some, chain]
      split
      · rw [Option.bind_some, ih many]
      · rfl

theorem toOption_bulkInsert {records : List BatchRecord} (keyed : unionKeys records ≠ [])
    (small : records.length * (unionKeys records).length ≤ PG_PARAM_LIMIT) :
    (bulkInsert target admits rows records).toOption =
      chain admits rows ((records.zipIdx 0).map (batchRow target (unionKeys records))) := by
  unfold bulkInsert
  simp only [if_neg keyed, if_neg (Nat.not_lt.mpr small)]
  rw [toOption_bind]
  cases bound : records.mapM fun record => bindEntries target (paddedEntries (unionKeys records) record) with
  | ok assigned => exact toOption_insertAll bound
  | error message =>
    obtain ⟨record, mem, failed⟩ := exists_error_of_mapM bound
    obtain ⟨position, placed⟩ := getElem?_of_mem mem
    refine (chain_of_none (mem_map.mpr ⟨(record, position), ?_, ?_⟩)).symm
    · exact mem_zipIdx_iff_getElem?.mpr placed
    · rw [batchRow, makeRow, failed]
      rfl

end Chain

/-! ## When a batch agrees with its records -/

section Agreement

variable {target : BatchTarget} {records : List BatchRecord}

variable (target records)

/-- Some record makes no row: a value cannot be bound, a key is no column, or a
    required column gets no value. -/
def SomeUnfit : Prop := ∃ pair ∈ records.zipIdx, ¬ Fits target pair.2 (filterWritableFields pair.1)

def OverLimit : Prop := PG_PARAM_LIMIT < records.length * (unionKeys records).length

/-- A record without a writable key is refused, and so is the batch. -/
def BothRefused : Prop :=
  (∃ record ∈ records, filterWritableFields record = []) ∧
    (unionKeys records = [] ∨ OverLimit records ∨
      ∃ record ∈ records, ∃ column ∈ target.columns, column.notNull ∧ Lacks (unionKeys records) record column.name)

/-- A key that some record lacks has no default. -/
structure Uniform : Prop where
  nonempty : records ≠ []
  writable : ∀ record ∈ records, filterWritableFields record ≠ []
  small : ¬ OverLimit records
  defaults : ∀ pair ∈ records.zipIdx, ∀ column ∈ target.columns, Lacks (unionKeys records) pair.1 column.name →
    column.default pair.2 = none

variable {target records}

theorem mem_records (mem : pair ∈ records.zipIdx) : pair.1 ∈ records := by
  obtain ⟨record, position⟩ := pair
  exact mem_of_getElem? (mem_zipIdx_iff_getElem?.mp mem)

theorem exists_pair {record : BatchRecord} (mem : record ∈ records) : ∃ position, (record, position) ∈ records.zipIdx := by
  obtain ⟨position, placed⟩ := getElem?_of_mem mem
  exact ⟨position, mem_zipIdx_iff_getElem?.mpr placed⟩

theorem toOption_makeRow_of_fits {entries : Entries} (fits : Fits target position entries) :
    (makeRow target position entries).toOption = some (target.columns.map (cellOf target position entries)) :=
  toOption_eq_some.mpr (makeRow_eq_ok.mpr ⟨fits, rfl⟩)

theorem toOption_makeRow_of_unfit {entries : Entries} (unfit : ¬ Fits target position entries) :
    (makeRow target position entries).toOption = none := by
  cases made : makeRow target position entries with
  | error message => rfl
  | ok row => exact absurd (makeRow_eq_ok.mp made).1 unfit

theorem createEach_refused {admits : List TableRow → TableRow → Bool} {rows : List TableRow}
    (mem : pair ∈ records.zipIdx) (refused : ownRow target pair = none) :
    (createEach target admits rows 0 records).toOption = none := by
  rw [toOption_createEach]
  exact chain_of_none (mem_map.mpr ⟨pair, mem, refused⟩)

/-- A batch is refused when it has no keys, too many parameters, or a record that
    makes no row. -/
theorem bulkInsert_refused {admits : List TableRow → TableRow → Bool} {rows : List TableRow}
    (refused : unionKeys records = [] ∨ OverLimit records ∨
      ∃ pair ∈ records.zipIdx, batchRow target (unionKeys records) pair = none) :
    (bulkInsert target admits rows records).toOption = none := by
  by_cases keyed : unionKeys records = []
  · rw [bulkInsert]
    simp only [if_pos keyed]
    rfl
  by_cases large : OverLimit records
  · rw [bulkInsert]
    have excess : records.length * (unionKeys records).length > PG_PARAM_LIMIT := large
    simp only [if_neg keyed, if_pos excess]
    rfl
  obtain ⟨pair, mem, lost⟩ := (refused.resolve_left keyed).resolve_left large
  rw [toOption_bulkInsert keyed (Nat.not_lt.mp large)]
  exact chain_of_none (mem_map.mpr ⟨pair, mem, lost⟩)

theorem agrees_of_someUnfit (unfit : SomeUnfit target records) : Agrees target records := by
  obtain ⟨pair, mem, unfit⟩ := unfit
  intro admits rows
  have own : ownRow target pair = none := by
    rw [ownRow, toOption_makeRow_of_unfit unfit, ite_self]
  have batch : batchRow target (unionKeys records) pair = none :=
    toOption_makeRow_of_unfit fun fits => unfit (fits_own (mem_records mem) fits)
  rw [createEach_refused mem own, bulkInsert_refused (.inr (.inr ⟨pair, mem, batch⟩))]

theorem agrees_of_bothRefused (both : BothRefused target records) : Agrees target records := by
  obtain ⟨⟨record, mem, empty⟩, refused⟩ := both
  intro admits rows
  obtain ⟨position, placed⟩ := exists_pair mem
  have own : ownRow target (record, position) = none := by
    rw [ownRow, if_pos empty]
  rw [createEach_refused placed own]
  refine bulkInsert_refused (refused.imp id (Or.imp id ?_))
  rintro ⟨record, mem, column, inside, required, lacks⟩
  obtain ⟨position, placed⟩ := exists_pair mem
  exact ⟨(record, position), placed, toOption_makeRow_of_unfit fun fits => fits.filled column inside required (cellOf_lacks lacks)⟩

theorem known_of_fit (fit : ¬ SomeUnfit target records) : ∀ key ∈ unionKeys records, key ∈ target.columns.map (·.name) := by
  intro key mem
  obtain ⟨record, inside, entry, writable, rfl⟩ := mem_unionKeys.mp mem
  obtain ⟨position, placed⟩ := exists_pair inside
  by_contra unknown
  exact fit ⟨(record, position), placed, fun fits => unknown (fits.known entry writable)⟩

theorem agrees_of_uniform (uniform : Uniform target records) : Agrees target records := by
  by_cases unfit : SomeUnfit target records
  · exact agrees_of_someUnfit unfit
  intro admits rows
  have keyed : unionKeys records ≠ [] := by
    obtain ⟨record, others, shape⟩ := exists_cons_of_ne_nil uniform.nonempty
    have mem : record ∈ records := shape ▸ mem_cons_self
    obtain ⟨entry, rest, entries⟩ := exists_cons_of_ne_nil (uniform.writable record mem)
    have key : entry.1 ∈ unionKeys records :=
      mem_unionKeys.mpr ⟨record, mem, entry, entries ▸ mem_cons_self, rfl⟩
    exact ne_nil_of_mem key
  rw [toOption_bulkInsert keyed (Nat.not_lt.mp uniform.small), toOption_createEach]
  congr 1
  refine map_congr_left fun pair mem => ?_
  have inside := mem_records mem
  have own : Fits target pair.2 (filterWritableFields pair.1) := by
    by_contra lost
    exact unfit ⟨pair, mem, lost⟩
  have same (column : TableColumn) (there : column ∈ target.columns) :
      cellOf target pair.2 (paddedEntries (unionKeys records) pair.1) column =
        cellOf target pair.2 (filterWritableFields pair.1) column := by
    by_cases lacks : Lacks (unionKeys records) pair.1 column.name
    · rw [cellOf_lacks lacks, cellOf_default lacks, uniform.defaults pair mem column there lacks]
    · exact cellOf_same inside lacks
  have complete : ∀ column ∈ target.columns, column.notNull → ¬ Lacks (unionKeys records) pair.1 column.name := by
    intro column there required lacks
    refine own.filled column there required ?_
    rw [cellOf_default lacks, uniform.defaults pair mem column there lacks]
  have batch := fits_batch inside own (known_of_fit unfit) complete
  rw [batchRow, ownRow, if_neg (uniform.writable pair.1 inside), toOption_makeRow_of_fits batch, toOption_makeRow_of_fits own,
    map_congr_left same]

theorem chain_eq_of_agrees (agrees : Agrees target records) (keyed : unionKeys records ≠ []) (small : ¬ OverLimit records) :
    chain (fun _ _ => true) [] (records.zipIdx.map (batchRow target (unionKeys records))) =
      chain (fun _ _ => true) [] (records.zipIdx.map (ownRow target)) := by
  have same := agrees (fun _ _ => true) []
  rwa [toOption_bulkInsert keyed (Nat.not_lt.mp small), toOption_createEach] at same

theorem ownRow_of_fit (fit : ¬ SomeUnfit target records) (mem : pair ∈ records.zipIdx)
    (writable : filterWritableFields pair.1 ≠ []) :
    ownRow target pair = some (target.columns.map (cellOf target pair.2 (filterWritableFields pair.1))) := by
  have fits : Fits target pair.2 (filterWritableFields pair.1) := by
    by_contra lost
    exact fit ⟨pair, mem, lost⟩
  rw [ownRow, if_neg writable, toOption_makeRow_of_fits fits]

/-- A batch with an empty record must be refused. -/
theorem bothRefused_of_agrees (agrees : Agrees target records) (fit : ¬ SomeUnfit target records)
    (empty : ∃ record ∈ records, filterWritableFields record = []) : BothRefused target records := by
  refine ⟨empty, ?_⟩
  by_contra accepted
  rw [not_or, not_or] at accepted
  obtain ⟨keyed, small, complete⟩ := accepted
  obtain ⟨record, mem, barren⟩ := empty
  obtain ⟨position, placed⟩ := exists_pair mem
  have own : ownRow target (record, position) = none := by
    rw [ownRow, if_pos barren]
  have nothing : chain (fun _ _ => true) [] (records.zipIdx.map (batchRow target (unionKeys records))) = none :=
    (chain_eq_of_agrees agrees keyed small).trans (chain_of_none (mem_map.mpr ⟨_, placed, own⟩))
  -- every record makes a row in the batch
  refine chain_free_ne_none (fun lost => ?_) nothing
  obtain ⟨pair, inside, refused⟩ := mem_map.mp lost
  have fits : Fits target pair.2 (filterWritableFields pair.1) := by
    by_contra unfit
    exact fit ⟨pair, inside, unfit⟩
  have batch := fits_batch (mem_records inside) fits (known_of_fit fit) fun column there required lacks =>
    complete ⟨pair.1, mem_records inside, column, there, required, lacks⟩
  rw [batchRow, toOption_makeRow_of_fits batch] at refused
  cases refused

theorem uniform_of_agrees (agrees : Agrees target records) (fit : ¬ SomeUnfit target records)
    (writable : ∀ record ∈ records, filterWritableFields record ≠ []) : Uniform target records := by
  have own : none ∉ records.zipIdx.map (ownRow target) := by
    intro lost
    obtain ⟨pair, mem, refused⟩ := mem_map.mp lost
    rw [ownRow_of_fit fit mem (writable _ (mem_records mem))] at refused
    cases refused
  have created : (createEach target (fun _ _ => true) [] 0 records).toOption ≠ none := by
    rw [toOption_createEach]
    exact chain_free_ne_none own
  have stored : (bulkInsert target (fun _ _ => true) [] records).toOption ≠ none := by
    rw [agrees]
    exact created
  have accepted : unionKeys records ≠ [] ∧ ¬ OverLimit records :=
    ⟨fun keyless => stored (bulkInsert_refused (.inl keyless)), fun large => stored (bulkInsert_refused (.inr (.inl large)))⟩
  have same := chain_free_inj own (chain_eq_of_agrees agrees accepted.1 accepted.2).symm
  refine ⟨?_, writable, accepted.2, ?_⟩
  · rintro rfl
    exact accepted.1 rfl
  · intro pair mem column there lacks
    have equal : ownRow target pair = batchRow target (unionKeys records) pair := map_inj_left.mp same pair mem
    rw [ownRow_of_fit fit mem (writable _ (mem_records mem))] at equal
    obtain ⟨-, cells⟩ := makeRow_eq_ok.mp (toOption_eq_some.mp equal.symm)
    have cell := map_inj_left.mp cells column there
    rwa [cellOf_default lacks, cellOf_lacks lacks] at cell

/-- A batch leaves the rows of its records, exactly when both are refused or no
    record lacks a key that has a default. -/
theorem agrees_iff : Agrees target records ↔
    SomeUnfit target records ∨ BothRefused target records ∨ Uniform target records := by
  constructor
  · intro agrees
    by_cases unfit : SomeUnfit target records
    · exact .inl unfit
    by_cases empty : ∃ record ∈ records, filterWritableFields record = []
    · exact .inr (.inl (bothRefused_of_agrees agrees unfit empty))
    · exact .inr (.inr (uniform_of_agrees agrees unfit fun record member barren => empty ⟨record, member, barren⟩))
  · rintro (unfit | both | uniform)
    · exact agrees_of_someUnfit unfit
    · exact agrees_of_bothRefused both
    · exact agrees_of_uniform uniform

end Agreement

/-! Two deals, of which only the first gives its status. -/

def deals : BatchTarget where
  types := fun _ => none
  columns := [⟨"title", true, fun _ => none⟩, ⟨"status", false, fun _ => some (.text "open")⟩]
  readers := noReaders

def dealBatch : List BatchRecord :=
  [⟨[("status", .str "won"), ("title", .str "Renewal")], by decide⟩,
    ⟨[("title", .str "Upgrade")], by decide⟩]

theorem dealBatch_differs :
    (bulkInsert deals (fun _ _ => true) [] dealBatch).toOption =
        some [[some (.text "Renewal".toList), some (.text "won".toList)], [some (.text "Upgrade".toList), none]] ∧
      (createEach deals (fun _ _ => true) [] 0 dealBatch).toOption =
        some [[some (.text "Renewal".toList), some (.text "won".toList)],
          [some (.text "Upgrade".toList), some (.text "open".toList)]] ∧
      ¬ Agrees deals dealBatch := by
  have batch : (bulkInsert deals (fun _ _ => true) [] dealBatch).toOption =
      some [[some (.text "Renewal".toList), some (.text "won".toList)], [some (.text "Upgrade".toList), none]] := rfl
  have each : (createEach deals (fun _ _ => true) [] 0 dealBatch).toOption =
      some [[some (.text "Renewal".toList), some (.text "won".toList)],
        [some (.text "Upgrade".toList), some (.text "open".toList)]] := rfl
  refine ⟨batch, each, fun agrees => ?_⟩
  have same := batch.symm.trans ((agrees (fun _ _ => true) []).trans each)
  simp at same

end RootCx.Crud
