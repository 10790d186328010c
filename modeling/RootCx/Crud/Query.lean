import RootCx.Crud.Faithful
import RootCx.RowAccess.Policies

/-! # Queries on an entity

`list_records` and `query_records` of `routes/crud.rs` with the projection
`row_json` of `data_types.rs`: the statement a request becomes, and what the
server answers it in the session of its caller, who sees the rows that row
security shows and reads the columns that are granted.  Following links into
other apps is left out.
-/

namespace RootCx.Crud

open RootCx.Text RootCx.Postgres RootCx.RowAccess RootCx.RowSecurity

/-! ## The fields of an entity -/

/-- `FieldTypes`, by the entries it is collected from: a later entry replaces an
    earlier one of its name. -/
structure FieldMap where
  entries : List (Text × Field)

def FieldMap.get (types : FieldMap) : FieldTypes := fun name =>
  (types.entries.reverse.find? (·.1 = name)).map (·.2)

def systemFieldTypes : List (Text × Field) :=
  [("id", ⟨.uuid, false⟩), ("created_at", ⟨.timestamp, false⟩),
    ("updated_at", ⟨.timestamp, false⟩)]

def fieldTypes (parseDecimal : Text → Option Text) (entity : EntityContract) : Except Text FieldMap := do
  let declared ← entity.fields.mapM fun field => do
    let fieldType ← FieldType.fromField parseDecimal field
    pure (field.name, Field.mk fieldType field.sensitive)
  -- system fields last, so that a manifest never shadows one as sensitive
  pure ⟨declared ++ systemFieldTypes⟩

def FieldMap.Sensitive (types : FieldMap) (name : Text) : Prop := (types.get name).any Field.sensitive = true

instance (types : FieldMap) (name : Text) : Decidable (types.Sensitive name) :=
  inferInstanceAs (Decidable (_ = _))

def sortedNames (types : FieldMap) (pick : Field → Bool) : List Text :=
  ((types.entries.map (·.1)).dedup.filter fun name => (types.get name).any pick).insertionSort (· ≤ ·)

/-! ## The projection -/

def chunksFrom {α : Type} (size : Nat) (current : List α) : List α → List (List α)
  | [] => if current.isEmpty then [] else [current]
  | x :: rest =>
    if current.length = size then current :: chunksFrom size [x] rest else chunksFrom size (current ++ [x]) rest

/-- `slice::chunks`. -/
def chunks {α : Type} (size : Nat) (list : List α) : List (List α) := chunksFrom size [] list

def rowEntry (recordRef : Text) (types : FieldMap) (name : Text) : Text :=
  let cast := if (types.get name).any (·.fieldType.isDecimal) then "::text".toList else []
  quoteLiteral name ++ ", " ++ recordRef ++ "." ++ quoteIdent name ++ cast

def rowJson (recordRef : Text) (types : FieldMap) : Text :=
  let readable := sortedNames types fun field => !field.sensitive
  if readable.isEmpty then "'\x7b\x7d'::jsonb"
  else
    join " || " ((chunks 40 readable).map fun chunk =>
      "jsonb_build_object(" ++ join ", " (chunk.map (rowEntry recordRef types)) ++ ")")

/-! ## The statement -/

def validateSortField (field : Option Text) (types : FieldMap) : Text :=
  match field with
  | some f => if (types.get f).any (!·.sensitive) then quoteIdent f else "\"created_at\""
  | none => "\"created_at\""

def validateOrder (order : Option Text) : Text :=
  if order = some "asc".toList ∨ order = some "ASC".toList then "ASC" else "DESC"

def joinWhere (conditions : List Text) : Text :=
  if conditions.isEmpty then [] else " WHERE " ++ join " AND " conditions

/-- The parts of a `SELECT`; a query with its total also breaks ties by `id`. -/
structure Query where
  row : Text
  conditions : List Text
  sort : Text
  order : Text
  withTotal : Bool
  limit : Option Int
  offset : Option Int
  binds : List Text
  deriving DecidableEq, Repr

def Query.orderBy (query : Query) : Text :=
  " ORDER BY ".toList ++ query.sort ++ (" ".toList ++ query.order ++ if query.withTotal then ", t.id ASC".toList else [])

def Query.sql (tbl : Text) (query : Query) : Text :=
  "SELECT ".toList ++ query.row ++ " AS row".toList ++
    (if query.withTotal then ", COUNT(*) OVER() AS total".toList else []) ++
    " FROM ".toList ++ tbl ++ " t".toList ++ joinWhere query.conditions ++ query.orderBy ++
    (query.limit.elim [] fun limit => " LIMIT ".toList ++ (toString limit).toList) ++
    (query.offset.elim [] fun offset => " OFFSET ".toList ++ (toString offset).toList)

structure QueryRequest where
  whereClause : Option Json := none
  orderBy : Option Text := none
  order : Option Text := none
  limit : Int := 100
  offset : Int := 0

/-- The conditions of a query; a filter that says nothing leaves none. -/
def queryConditions (types : FieldMap) : Option Json → Build (List Text)
  | none => pure []
  | some clause => do
    let sql ← buildWhereClause types.get clause
    pure (if sql = "TRUE" then [] else [sql])

def queryRecords (types : FieldMap) (body : QueryRequest) : Except Text Query := do
  let (conditions, st) ← queryConditions types body.whereClause ⟨[], 0⟩
  pure {
    row := rowJson "t" types
    conditions
    sort := validateSortField body.orderBy types
    order := validateOrder body.order
    withTotal := true
    limit := some (max (min body.limit 1000) 1)
    offset := some (max body.offset 0)
    binds := st.binds }

def RESERVED_PARAMS : List Text :=
  ["limit", "offset", "sort", "order", "linked"]

/-- The loop over the parameters, in the order the map yields them. -/
def listConditions (types : FieldMap) : List (Text × Text) → Build (List Text)
  | [] => pure []
  | (key, value) :: rest =>
    if key ∈ RESERVED_PARAMS then listConditions types rest
    else do
      let condition ← buildFieldCondition types.get key (.str value)
      let conditions ← listConditions types rest
      pure (condition :: conditions)

def param (params : List (Text × Text)) (key : Text) : Option Text :=
  (params.find? (·.1 = key)).map (·.2)

def listRecords (types : FieldMap) (params : List (Text × Text)) : Except Text Query := do
  let (conditions, st) ← listConditions types params ⟨[], 0⟩
  pure {
    row := rowJson "t" types
    conditions
    sort := validateSortField (param params "sort") types
    order := validateOrder (param params "order")
    withTotal := false
    limit := (param params "limit").map fun limit => max (min ((parseI64 limit).getD 100) 1000) 1
    offset := (param params "offset").map fun offset => max ((parseI64 offset).getD 0) 0
    binds := st.binds }

/-! ## The answer -/

/-- What the server holds when the statement runs: the rows of the table, and the
    rules the session is under. -/
structure State (Value : Type) where
  rows : List (Row Value)
  rules : List (Rule (Row Value))

def State.sees {Value : Type} (st : State Value) (row : Row Value) : Bool := passes st.rules (.sees row)

def State.visible {Value : Type} (st : State Value) : List (Row Value) := st.rows.filter st.sees

/-- A statement that fails says nothing of the rows. -/
inductive Answer (Value : Type) where
  | refused
  | page (data : List (List (Option Value))) (total : Option Nat)

/-- The quoted names among the tokens of an expression. -/
def columnsRead (text : Text) : Option (List Text) :=
  (lex text).map fun toks => toks.filterMap fun tok =>
    match tok with
    | .quoted name => some name
    | _ => none

def readWhere (conditions : List Text) : Option (List (List Atom)) :=
  if conditions.isEmpty then some [[]] else readCondition (join " AND " conditions)

/-- A name of `ORDER BY` is first looked for among the output columns. -/
def sortColumns (query : Query) (projected sort : List Text) : List Text :=
  if sort = ["row".toList] then projected
  else if query.withTotal ∧ sort = ["total".toList] then []
  else sort

section Answers

-- how values are ranked in each direction, and what a statement answers that
-- reads whole rows through the alias of the table
variable (server : Server) (rank : Text → List (Option server.Value) → List (Option server.Value) → Bool)
  (whole : Query → List (List (Option server.Value)) → Answer server.Value)

/-- The value bound to a placeholder, counted from one. -/
def Query.value (query : Query) (index : Nat) : Option Text :=
  if index = 0 then none else query.binds[index - 1]?

def meets (query : Query) (choices : List (List Atom)) (row : Row server.Value) : Bool :=
  choicesEval (choices.map (·.map (Atom.eval server row query.value))) = some true

/-- The columns that rank a row, with the one that breaks ties. -/
def keyColumns (query : Query) (sort : List Text) : List Text := sort ++ if query.withTotal then ["id".toList] else []

def sorted (query : Query) (sort : List Text) (rows : List (Row server.Value)) : List (Row server.Value) :=
  rows.mergeSort fun l r => rank query.order ((keyColumns query sort).map l) ((keyColumns query sort).map r)

def pageOf (query : Query) (sort projected : List Text) (kept : List (Row server.Value)) : Answer server.Value :=
  let page := ((sorted server rank query sort kept).drop (query.offset.getD 0).toNat).take
    ((query.limit.map Int.toNat).getD kept.length)
  .page (page.map fun row => projected.map row)
    (if query.withTotal then some (if page.isEmpty then 0 else kept.length) else none)

def answer (access : Access) (query : Query) (st : State server.Value) : Answer server.Value :=
  match readWhere query.conditions, columnsRead query.sort, columnsRead query.row with
  | some choices, some sort, some projected =>
    let sort := sortColumns query projected sort
    let asked := choices.flatMap conjColumns ++ (keyColumns query sort ++ projected)
    let foreign := asked.filter (· ∉ access.columns)
    if foreign.isEmpty then
      if asked.all (executorReads access) then
        pageOf server rank query sort projected (st.visible.filter (meets server query choices))
      else .refused
    else if foreign.all (· = "t") && access.columns.all (executorReads access) then
      whole query (st.visible.map fun row => access.columns.map row)
    else .refused
  | _, _, _ => .refused

end Answers

end RootCx.Crud
