import RootCx.Crud.Query
import RootCx.CrossApp.Fields
import RootCx.Lib.Paging

/-! # Reading pages

The readers of a page: `page` and `published` of `governance/collection_reads.rs`, the query
tool of `tools/query_data.rs`, and `query_records` next to them.  Each becomes a statement, and
the rows of a statement come in any order that follows its sort columns.  What publications
and grants admit is left out.
-/

namespace RootCx.Crud

open RootCx.Text RootCx.Postgres RootCx.RowAccess RootCx.Paging

/-! ## The statements -/

/-- A page and its total.  The total is counted over the rows of the page's own statement, or by
    a query of its own. -/
structure PageStatement where
  row : Text
  conditions : List Text
  sort : Text
  order : Text
  tieBreak : Bool
  windowed : Bool
  limit : Int
  offset : Int
  binds : List Text
  deriving DecidableEq, Repr

def PageStatement.orderBy (s : PageStatement) : Text :=
  " ORDER BY ".toList ++ s.sort ++ " ".toList ++ s.order ++ if s.tieBreak then ", t.id ASC".toList else []

def PageStatement.sql (tbl : Text) (s : PageStatement) : Text :=
  let from_t := " FROM " ++ tbl ++ " t" ++ joinWhere s.conditions
  let bounds := " LIMIT " ++ (toString s.limit).toList ++ " OFFSET " ++ (toString s.offset).toList
  if s.windowed then
    "SELECT " ++ s.row ++ " AS row, COUNT(*) OVER() AS total" ++ from_t ++ s.orderBy ++ bounds
  else
    "WITH page AS (SELECT " ++ s.row ++ " AS row, " ++ s.sort ++ " AS sort_value" ++ from_t ++
      s.orderBy ++ bounds ++
      ") SELECT jsonb_build_object('data', COALESCE((SELECT jsonb_agg(row ORDER BY sort_value " ++ s.order ++
      ") FROM page), '[]'::jsonb), 'total', (SELECT count(*)" ++ from_t ++ "))"

/-- The same request for another page. -/
def PageStatement.at (s : PageStatement) (offset : Nat) : PageStatement := { s with offset }

/-! ## The options of a page -/

def optionText (object : Json) (key : Text) (failure : Text) : Except Text (Option Text) :=
  match object.get key with
  | none => .ok none
  | some value => value.asStr.elim (.error failure) (.ok ∘ some)

def optionInt (object : Json) (key : Text) (default : Int) (failure : Text) : Except Text Int :=
  match object.get key with
  | none => .ok default
  | some value => value.asI64.elim (.error failure) .ok

def parseOrder (object : Json) : Except Text Text :=
  match object.get "order" with
  | none => .ok "DESC"
  | some value =>
    if value.asStr = some "asc".toList ∨ value.asStr = some "ASC".toList then .ok "ASC"
    else if value.asStr = some "desc".toList ∨ value.asStr = some "DESC".toList then .ok "DESC"
    else .error "order must be 'asc' or 'desc'"

structure PageOptions where
  orderBy : Option Text
  order : Text
  limit : Int
  offset : Int

def parseQueryOptions (object : Json) : Except Text PageOptions := do
  let orderBy ← optionText object "orderBy" "orderBy must be a string"
  let order ← parseOrder object
  let limit ← optionInt object "limit" 100 "limit must be an integer"
  if ¬(1 ≤ limit ∧ limit ≤ 1000) then .error "limit must be between 1 and 1000"
  else do
    let offset ← optionInt object "offset" 0 "offset must be an integer"
    if offset < 0 then .error "offset must be non-negative" else pure ⟨orderBy, order, limit, offset⟩

def validateField (types : FieldMap) (name : Text) : Except Text Unit :=
  match types.get name with
  | none => .error ("unknown field '" ++ name ++ "'")
  | some field =>
    if field.sensitive then .error ("field '" ++ name ++ "' is sensitive and cannot be queried") else .ok ()

/-! ## The readers -/

section Readers

-- the text of an `ApiError`, and the column types of an entity
variable (debug : Text → Text) (types : FieldMap)

/-- `collection_reads::page` -/
def page (data : Json) (legacy : Bool) : Except Text PageStatement :=
  match data.asObject with
  | none => .error "data must be a JSON object (where clause)"
  | some object =>
    let usesOptions := !legacy || CrossApp.usesQueryOptions object
    if usesOptions ∧ ¬(CrossApp.objectKeys object).all (· ∈ CrossApp.PAGE_OPTION_KEYS) then
      .error "query options cannot be mixed with legacy equality fields; put filters under 'where'"
    else do
      let whereClause := if usesOptions then (data.get "where").getD (.obj []) else data
      let sortName := (data.get "orderBy").bind Json.asStr
      (CrossApp.queryFieldNames (some whereClause) sortName).forM (validateField types)
      let (conditions, st) ← (queryConditions types (some whereClause) ⟨[], 0⟩).mapError debug
      let options ← parseQueryOptions data
      pure {
        row := rowJson "t" types
        conditions
        sort := validateSortField options.orderBy types
        order := options.order
        tieBreak := false
        windowed := false
        limit := options.limit
        offset := options.offset
        binds := st.binds }

def publicationProjection (fields : List Text) : Text :=
  join " || " ((chunks 40 fields).map fun chunk =>
    "jsonb_build_object(" ++ join ", " (chunk.map (rowEntry "t" types)) ++ ")")

/-- `collection_reads::published`, for a page; the fields of a publication are not empty. -/
def published (fields : List Text) (predicate queryFilter options : Json) : Except Text PageStatement := do
  let (fixed, st) ← (buildWhereClause types.get predicate ⟨[], 0⟩).mapError debug
  let (requested, st) ← (buildWhereClause types.get queryFilter st).mapError debug
  let options ← parseQueryOptions options
  let sort := options.orderBy.getD (fields.headD [])
  if sort ∉ fields then .error "publication does not allow this sort field"
  else pure {
    row := publicationProjection types fields
    conditions := ["(" ++ fixed ++ ") AND (" ++ requested ++ ")"]
    sort := quoteIdent sort
    order := options.order
    tieBreak := false
    windowed := false
    limit := options.limit
    offset := options.offset
    binds := st.binds }

/-- The query tool, where one of the options is given. -/
def queryData (args : Json) : Except Text PageStatement := do
  let (conditions, st) ← (queryConditions types (args.get "where") ⟨[], 0⟩).mapError debug
  let orderBy := (args.get "orderBy").bind Json.asStr
  let order := (args.get "order").bind Json.asStr
  let limit := ((args.get "limit").bind Json.asI64).getD 100
  let offset := ((args.get "offset").bind Json.asI64).getD 0
  pure {
    row := rowJson "t" types
    conditions
    sort := validateSortField orderBy types
    order := validateOrder order
    tieBreak := false
    windowed := true
    limit := max 1 (min limit 1000)
    offset := max offset 0
    binds := st.binds }

end Readers

/-- A query of `query_records`. -/
def Query.statement (query : Query) : PageStatement where
  row := query.row
  conditions := query.conditions
  sort := query.sort
  order := query.order
  tieBreak := query.withTotal
  windowed := query.withTotal
  limit := query.limit.getD 0
  offset := query.offset.getD 0
  binds := query.binds

/-! ## The answers -/

/-- How keys are ranked in each direction: by their first columns first. -/
structure Collation (Value : Type) where
  rank : Text → Ranking (List (Option Value))
  first : ∀ {order : Text} {keys keys' more more' : List (Option Value)}, keys.length = keys'.length →
    (rank order).le (keys ++ more) (keys' ++ more') = true → (rank order).le keys keys' = true

/-- A table with its primary key. -/
structure Stored (Value : Type) extends State Value where
  keyed : (rows.map fun row => row "id").Nodup

section Answers

variable (server : Server) (collation : Collation server.Value) (access : Access)

def PageStatement.value (s : PageStatement) (index : Nat) : Option Text :=
  if index = 0 then none else s.binds[index - 1]?

/-- A name of `ORDER BY` is first looked for among the output columns. -/
def PageStatement.sortColumns (s : PageStatement) (projected sort : List Text) : List Text :=
  if sort = ["row".toList] then projected
  else if s.windowed ∧ sort = ["total".toList] then []
  else sort

/-- The rows that a statement is about, and the columns that rank them. -/
structure Scope (Value : Type) where
  kept : List (Row Value)
  keys : List Text

/-- The columns of a statement. -/
def PageStatement.asked (s : PageStatement) (choices : List (List Atom)) (sort projected : List Text) : List Text :=
  choices.flatMap conjColumns ++ (sort ++ (if s.tieBreak then ["id".toList] else []) ++ projected)

/-- Nothing where the statement is refused. -/
def PageStatement.scope (s : PageStatement) (st : State server.Value) : Option (Scope server.Value) :=
  match readWhere s.conditions, columnsRead s.sort, columnsRead s.row with
  | some choices, some sort, some projected =>
    if (s.asked choices sort projected).all fun column => column ∈ access.columns && executorReads access column then
      some ⟨st.visible.filter fun row =>
        choicesEval (choices.map (·.map (Atom.eval server row s.value))) = some true, s.sortColumns projected sort⟩
    else none
  | _, _, _ => none

/-- The ranking of rows by some of their columns. -/
def Collation.by {Value : Type} (collation : Collation Value) (order : Text) (columns : List Text) : Ranking (Row Value) :=
  (collation.rank order).on fun row => columns.map row

/-- What the database may answer a statement: the rows of the page and the total. -/
inductive PageStatement.Reads (s : PageStatement) (st : State server.Value) : List (Row server.Value) → Nat → Prop where
  | mk {scope : Scope server.Value} {ordered data : List (Row server.Value)} (found : s.scope server access st = some scope)
      (arranged : (collation.by s.order (scope.keys ++ if s.tieBreak then ["id".toList] else [])).Arranges scope.kept ordered)
      (shown : data.Perm (slice s.offset.toNat s.limit.toNat ordered)) :
      Reads s st data (if s.windowed && data.isEmpty then 0 else scope.kept.length)

variable {server collation access}

theorem scope_some {s : PageStatement} {st : State server.Value} {scope : Scope server.Value} :
    s.scope server access st = some scope ↔ ∃ choices sort projected,
      readWhere s.conditions = some choices ∧ columnsRead s.sort = some sort ∧ columnsRead s.row = some projected ∧
        ((s.asked choices sort projected).all fun column => column ∈ access.columns && executorReads access column) = true ∧
        scope = ⟨st.visible.filter fun row => choicesEval (choices.map (·.map (Atom.eval server row s.value))) = some true,
          s.sortColumns projected sort⟩ := by
  unfold PageStatement.scope
  constructor
  · intro found
    split at found
    · rename_i choices sort projected conditions sorts rows
      obtain ⟨readable, same⟩ := Option.ite_none_right_eq_some.mp found
      exact ⟨choices, sort, projected, conditions, sorts, rows, readable, (Option.some.inj same).symm⟩
    · cases found
  · rintro ⟨choices, sort, projected, conditions, sorts, rows, readable, rfl⟩
    simp only [conditions, sorts, rows]
    rw [if_pos readable]

end Answers

end RootCx.Crud
