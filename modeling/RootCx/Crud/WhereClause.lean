import RootCx.Lib.Except
import RootCx.Manifest.FieldType

/-! # The filter compiler

`build_where_clause` of `routes/crud.rs` turns a JSON filter into the text of a
condition, collecting the values it binds.  The vector of binds and the
placeholder counter, which the source passes by mutable reference, are a state.
-/

namespace RootCx.Crud

open RootCx.Text RootCx.Postgres

/-! ## Bound values -/

def PG_PARAM_LIMIT : Nat := 65535

def pgCastSuffix (fieldType : Option FieldType) : Text :=
  (fieldType.map FieldType.parameterCast).getD []

def isJsonbType (fieldType : Option FieldType) : Bool := fieldType.any FieldType.isJson

/-- A null becomes the empty string. -/
def jsonValueToString : Json → Text
  | .str value => value
  | .number text => text
  | .bool value => (if value then "true" else "false").toList
  | .null => []
  | value => value.compact

def filterBindValue (value : Json) (fieldType : Option FieldType) : Except Text Text :=
  if fieldType.any FieldType.isDecimal && !value.isStr then
    .error "decimal filter values must be JSON strings"
  else .ok (jsonValueToString value)

/-! ## The state -/

structure Binds where
  binds : List Text
  idx : Nat
  deriving DecidableEq, Repr

/-- The message of a bad request, or the result and the new state. -/
abbrev Build := StateT Binds (Except Text)

def refuse {α : Type} (message : Text) : Build α := fun _ => .error message

/-- Bind a value and name its placeholder. -/
def bindNext (value : Except Text Text) : Build Text := fun st =>
  match value with
  | .error message => .error message
  | .ok value => .ok ('$' :: Nat.toDigits 10 (st.idx + 1), ⟨st.binds ++ [value], st.idx + 1⟩)

/-- `Iterator::map` with a step that binds. -/
def bindAll (value : Json → Except Text Text) : List Json → Build (List Text)
  | [] => pure []
  | item :: rest => do
    let placeholder ← bindNext (value item)
    let placeholders ← bindAll value rest
    pure (placeholder :: placeholders)

/-! ## Conditions on one field -/

/-- One operator of a field; the conditions it pushes, none for an empty
    `$contains`. -/
def operatorCondition (col : Text) (fieldType : Option FieldType) (op : Text) (operand : Json) :
    Build (List Text) := do
  let cast := pgCastSuffix fieldType
  if op = "$eq" then
    if operand.isNull then pure [col ++ " IS NULL"]
    else do
      let placeholder ← bindNext (filterBindValue operand fieldType)
      pure [col ++ " = " ++ placeholder ++ cast]
  else if op = "$ne" then
    if operand.isNull then pure [col ++ " IS NOT NULL"]
    else do
      let placeholder ← bindNext (filterBindValue operand fieldType)
      pure [col ++ " != " ++ placeholder ++ cast]
  else if op ∈ ["$gt".toList, "$gte".toList, "$lt".toList, "$lte".toList] then do
    let sqlOp := if op = "$gt" then ">" else if op = "$gte" then ">="
      else if op = "$lt" then "<" else "<="
    let placeholder ← bindNext (filterBindValue operand fieldType)
    pure [col ++ " " ++ sqlOp.toList ++ " " ++ placeholder ++ cast]
  else if op = "$like" ∨ op = "$ilike" then do
    let kw := if op = "$like" then "LIKE" else "ILIKE"
    let placeholder ← bindNext (.ok (jsonValueToString operand))
    let lhs := if isJsonbType fieldType then col ++ "::text" else col
    pure [lhs ++ " " ++ kw.toList ++ " " ++ placeholder]
  else if op = "$in" ∨ op = "$nin" then
    match operand with
    | .arr items =>
      let (emptyVal, kw) := if op = "$in" then ("FALSE", "IN") else ("TRUE", "NOT IN")
      if items.isEmpty then pure [emptyVal.toList]
      else do
        let placeholders ← bindAll (filterBindValue · fieldType) items
        pure [col ++ " " ++ kw.toList ++ " (" ++
          join ", " (placeholders.map (· ++ cast)) ++ ")"]
    | _ => refuse (op ++ " must be an array")
  else if op = "$contains" then
    match operand with
    | .arr items =>
      if items.isEmpty then pure []
      else if isJsonbType fieldType then do
        let placeholder ← bindNext (.ok operand.compact)
        pure [col ++ " @> " ++ placeholder ++ "::jsonb"]
      else do
        let placeholders ← bindAll (fun item => .ok (jsonValueToString item)) items
        pure [col ++ " @> ARRAY[" ++ join ", " placeholders ++ "]" ++ cast]
    | _ => refuse "$contains must be an array"
  else if op = "$isNull" then
    pure [col ++ (if operand.asBool.getD true then " IS NULL" else " IS NOT NULL").toList]
  else refuse ("unknown operator: '" ++ op ++ "'")

def operatorConditions (col : Text) (fieldType : Option FieldType) :
    List (Text × Json) → Build (List Text)
  | [] => pure []
  | (op, operand) :: rest => do
    let pushed ← operatorCondition col fieldType op operand
    let conditions ← operatorConditions col fieldType rest
    pure (pushed ++ conditions)

def isOperatorKey (key : Text) : Bool := key.head? = some '$'

def buildFieldCondition (types : FieldTypes) (field : Text) (val : Json) : Build Text :=
  if (types field).any Field.sensitive then
    refuse ("field '" ++ field ++ "' is sensitive and cannot be used as a filter")
  else
    let col := quoteIdent field
    let fieldType := (types field).map Field.fieldType
    match val with
    | .null => pure (col ++ " IS NULL")
    | .obj ops =>
      if !ops.any fun (key, _) => isOperatorKey key then do
        let placeholder ← bindNext (.ok val.compact)
        pure (col ++ " = " ++ placeholder ++ "::jsonb")
      else do
        let conditions ← operatorConditions col fieldType ops
        pure (join " AND " conditions)
    | val => do
      let placeholder ← bindNext (filterBindValue val fieldType)
      pure (col ++ " = " ++ placeholder ++ pgCastSuffix fieldType)

/-! ## Clauses -/

def joinParts (separator : Text) (wrap : Text → Text) (parts : List Text) : Text :=
  if parts.isEmpty then "TRUE" else wrap (join separator parts)

mutual

def buildWhereClause (types : FieldTypes) : Json → Build Text
  | .obj entries => do
    let parts ← buildParts types entries
    pure (joinParts " AND " id parts)
  | _ => refuse "where clause must be a JSON object"

/-- The loop over the entries of a clause. -/
def buildParts (types : FieldTypes) : List (Text × Json) → Build (List Text)
  | [] => pure []
  | (key, val) :: rest => do
    let part ←
      if key = "$and" ∨ key = "$or" then buildLogical types key val
      else if key = "$not" then do
        let sub ← buildWhereClause types val
        pure ("NOT (" ++ sub ++ ")")
      else buildFieldCondition types key val
    let parts ← buildParts types rest
    pure (part :: parts)

def buildLogical (types : FieldTypes) (op : Text) : Json → Build Text
  | .arr items => do
    let subs ← buildClauses types items
    pure (joinParts (if op = "$and" then " AND " else " OR ").toList
      (fun text => "(" ++ text ++ ")") subs)
  | _ => refuse (op ++ " must be an array")

def buildClauses (types : FieldTypes) : List Json → Build (List Text)
  | [] => pure []
  | item :: rest => do
    let sub ← buildWhereClause types item
    let subs ← buildClauses types rest
    pure (sub :: subs)

end

end RootCx.Crud
