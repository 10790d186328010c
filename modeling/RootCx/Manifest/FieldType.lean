import RootCx.Lib.Except
import RootCx.Manifest.Contract

/-! # Field types

`data_types.rs`: the types a field can have, their PostgreSQL names and the SQL
of their defaults.  Parsing decimals is the business of a crate and a parameter:
it gives the text of the parsed number.
-/

namespace RootCx

open RootCx.Text RootCx.Postgres


structure DecimalType where
  precision : Option Nat
  scale : Option Nat
  deriving DecidableEq, Repr

inductive FieldType where
  | text
  | number
  | decimal (decimal : DecimalType)
  | boolean
  | date
  | timestamp
  | json
  | file
  | uuid
  | entityLink
  | textArray
  | numberArray
  deriving DecidableEq, Repr

structure Field where
  fieldType : FieldType
  sensitive : Bool
  deriving DecidableEq, Repr

/-- `FieldTypes`, by its lookup. -/
abbrev FieldTypes := Text → Option Field

def FieldType.parameterCast : FieldType → Text
  | .number => "::float8"
  | .decimal _ => "::numeric"
  | .boolean => "::boolean"
  | .date => "::date"
  | .timestamp => "::timestamptz"
  | .uuid | .entityLink => "::uuid"
  | .json => "::jsonb"
  | .textArray => "::text[]"
  | .numberArray => "::float8[]"
  | .text | .file => []

def FieldType.isJson : FieldType → Bool
  | .json => true
  | _ => false

def FieldType.isDecimal : FieldType → Bool
  | .decimal _ => true
  | _ => false

def FieldType.postgresType : FieldType → Text
  | .text | .file => "TEXT"
  | .number => "DOUBLE PRECISION"
  | .decimal ⟨some precision, some scale⟩ =>
    "NUMERIC(" ++ Nat.toDigits 10 precision ++ "," ++ Nat.toDigits 10 scale ++ ")"
  | .decimal _ => "NUMERIC"
  | .boolean => "BOOLEAN"
  | .date => "DATE"
  | .timestamp => "TIMESTAMPTZ"
  | .json => "JSONB"
  | .uuid | .entityLink => "UUID"
  | .textArray => "TEXT[]"
  | .numberArray => "DOUBLE PRECISION[]"

/-! ## From a field -/

def MAX_NUMERIC_PRECISION : Nat := 1000

def DecimalType.fromField (field : FieldContract) : Except Text DecimalType :=
  match field.precision, field.scale with
  | none, none => .ok ⟨none, none⟩
  | some precision, some scale =>
    if 1 ≤ precision ∧ precision ≤ MAX_NUMERIC_PRECISION ∧ scale ≤ precision then
      .ok ⟨some precision, some scale⟩
    else if precision = 0 then
      .error ("decimal field '" ++ field.name ++ "' precision must be at least 1")
    else if precision > MAX_NUMERIC_PRECISION then
      .error ("decimal field '" ++ field.name ++ "' precision must not exceed 1000")
    else .error ("decimal field '" ++ field.name ++ "' scale (" ++ Nat.toDigits 10 scale ++
      ") must not exceed precision (" ++ Nat.toDigits 10 precision ++ ")")
  | _, _ => .error ("decimal field '" ++ field.name ++
      "' must declare precision and scale together, or neither")

section Decimals

-- `parse::<BigDecimal>` followed by `to_string`
variable (parseDecimal : Text → Option Text)

def FieldType.validateDefault (fieldType : FieldType) (fieldName : Text) (value : Json) : Except Text Unit :=
  if !fieldType.isDecimal || value.isNull then .ok ()
  else
    match value with
    | .str literal =>
      if (parseDecimal literal).isSome then .ok ()
      else .error ("invalid decimal " ++ fieldName ++ ": '" ++ literal ++ "'")
    | _ => .error ("decimal field '" ++ fieldName ++ "' default_value must be a JSON string")

/-- The type named by a field. -/
def FieldType.named (field : FieldContract) : Except Text FieldType :=
  let name := field.fieldType
  if name = "text" then .ok .text
  else if name = "number" then .ok .number
  else if name = "decimal" then (DecimalType.fromField field).map .decimal
  else if name = "boolean" then .ok .boolean
  else if name = "date" then .ok .date
  else if name = "timestamp" then .ok .timestamp
  else if name = "json" then .ok .json
  else if name = "file" then .ok .file
  else if name = "uuid" then .ok .uuid
  else if name = "entity_link" then .ok .entityLink
  else if name = "[text]" then .ok .textArray
  else if name = "[number]" then .ok .numberArray
  else .error ("field '" ++ field.name ++ "' has unknown type '" ++ name ++ "'")

def FieldType.fromField (field : FieldContract) : Except Text FieldType := do
  let fieldType ← FieldType.named field
  if !fieldType.isDecimal && (field.precision.isSome || field.scale.isSome) then
    .error ("field '" ++ field.name ++
      "' can only declare precision and scale when type is 'decimal'")
  else
    match field.defaultValue with
    | none => .ok fieldType
    | some value => do
      FieldType.validateDefault parseDecimal fieldType field.name value
      .ok fieldType

/-- The SQL of a default, if the value has one for the type. -/
def sqlDefault (value : Json) (fieldType : FieldType) : Option Text :=
  match value with
  | .null => none
  | .bool value => some (if value then "true" else "false").toList
  | .number text => some text
  | .str value => if fieldType.isDecimal then parseDecimal value else some (quoteLiteral value)
  | value => if fieldType.isJson then some (quoteLiteral value.compact ++ "::jsonb") else none

/-- The expression of an enum check. -/
def enumCheckExpr (field : FieldContract) : Option Text := do
  let values ← field.enumValues.filter (!·.isEmpty)
  let list := join ", " (values.map quoteLiteral)
  let fieldType ← (FieldType.fromField parseDecimal field).toOption
  some (match fieldType with
    | .textArray => quoteIdent field.name ++ " <@ ARRAY[" ++ list ++ "]::TEXT[]"
    | _ => quoteIdent field.name ++ " IN (" ++ list ++ ")")

end Decimals

end RootCx
