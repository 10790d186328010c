import RootCx.Crud.Reading
import RootCx.Crud.WhereClause

/-! # What a filter means

A reference evaluation of the JSON filters, without text and placeholders: every
operator is a three-valued test of a column against its operands, and a null
operand is a missing value.  Next to it, the operands and the columns of a filter
in the order in which it is visited.
-/

namespace RootCx.Crud

open RootCx.Text RootCx.Postgres

/-! ## Operands -/

/-- The text of an operand; a null has none. -/
def operandText (operand : Json) : Option Text :=
  if operand.isNull then none else some (jsonValueToString operand)

def FieldType.cast : FieldType → Option Cast
  | .number => some .float8
  | .decimal _ => some .numeric
  | .boolean => some .boolean
  | .date => some .date
  | .timestamp => some .timestamptz
  | .uuid | .entityLink => some .uuid
  | .json => some .jsonb
  | .textArray => some .textArray
  | .numberArray => some .float8Array
  | .text | .file => none

def castOf (fieldType : Option FieldType) : Option Cast := fieldType.bind FieldType.cast

/-- What an operator compares with, if it is one of the comparisons. -/
def comparisonOf (op : Text) : Option CompareOp :=
  if op = "$gt" then some .gt
  else if op = "$gte" then some .gte
  else if op = "$lt" then some .lt
  else if op = "$lte" then some .lte
  else none

def patternOf (op : Text) : Option CompareOp :=
  if op = "$like" then some .like else if op = "$ilike" then some .ilike else none

/-- Whether an operator is a membership test, and whether it is negated. -/
def membershipOf (op : Text) : Option Bool :=
  if op = "$in" then some false else if op = "$nin" then some true else none

/-! ## The meaning of an operator -/

/-- One operator of a filter, by kind. -/
inductive Operator where
  -- `$eq` and `$ne`, which test for null when their operand is null
  | equality (negated : Bool) (operand : Json)
  | comparison (op : CompareOp) (operand : Json)
  | pattern (op : CompareOp) (operand : Json)
  | membership (negated : Bool) (items : List Json)
  | contains (items : List Json)
  | isNull (negated : Bool)
  -- equality with a whole JSON object
  | object (value : Json)

def operatorOf (op : Text) (operand : Json) : Option Operator :=
  if op = "$eq" then some (.equality false operand)
  else if op = "$ne" then some (.equality true operand)
  else if let some compare := comparisonOf op then some (.comparison compare operand)
  else if let some pattern := patternOf op then some (.pattern pattern operand)
  else if let some negated := membershipOf op then
    match operand with
    | .arr items => some (.membership negated items)
    | _ => none
  else if op = "$contains" then
    match operand with
    | .arr items => some (.contains items)
    | _ => none
  else if op = "$isNull" then some (.isNull !(operand.asBool.getD true))
  else none

/-- The conditions a filter puts on one field. -/
def operatorsOf : Json → List Operator
  | .obj ops =>
    if ops.any fun (key, _) => isOperatorKey key then ops.filterMap fun (op, operand) => operatorOf op operand
    else [.object (.obj ops)]
  | operand => [.equality false operand]

section Holds

variable (server : Server) (fieldType : Option FieldType) (column : Option server.Value)

def operandValue (cast : Option Cast) (operand : Option Text) : Option server.Value :=
  (operand.map server.text).map (castValue server cast)

def Operator.holds : Operator → Truth
  | .equality negated operand =>
    if operand.isNull then some (column.isNone != negated)
    else compareValues server (if negated then .ne else .eq) column
      (operandValue server (castOf fieldType) (operandText operand))
  | .comparison op operand =>
    compareValues server op column (operandValue server (castOf fieldType) (operandText operand))
  | .pattern op operand =>
    let text := if isJsonbType fieldType then column.map (server.cast .text) else column
    compareValues server op text (operandValue server none (operandText operand))
  | .membership negated items =>
    negateIf negated (Truth.any (items.map fun item =>
      compareValues server .eq column (operandValue server (castOf fieldType) (operandText item))))
  | .contains items =>
    if items.isEmpty then some true
    else if isJsonbType fieldType then
      compareValues server .contains column (operandValue server (some .jsonb) (some (Json.arr items).compact))
    else compareValues server .contains column (some (castValue server (castOf fieldType)
      (server.array (items.map fun item => operandValue server none (operandText item)))))
  | .isNull negated => some (column.isNone != negated)
  | .object value => compareValues server .eq column (operandValue server (some .jsonb) (some value.compact))

end Holds

/-- The operands an operator binds. -/
def Operator.operands (fieldType : Option FieldType) : Operator → List (Option Text)
  | .equality _ operand => if operand.isNull then [] else [operandText operand]
  | .comparison _ operand | .pattern _ operand => [operandText operand]
  | .membership _ items => items.map operandText
  | .contains items =>
    if items.isEmpty then []
    else if isJsonbType fieldType then [some (Json.arr items).compact]
    else items.map operandText
  | .isNull _ => []
  | .object value => [some value.compact]

/-- Whether an operator looks at its column: an empty list decides without it. -/
def Operator.looks : Operator → Bool
  | .membership _ items | .contains items => !items.isEmpty
  | _ => true

/-- An empty `$contains` is the one operator that adds no condition. -/
def Operator.vanishes : Operator → Bool
  | .contains items => items.isEmpty
  | _ => false

/-- No comparison and no list has a null operand. -/
def Operator.nullFree (fieldType : Option FieldType) : Operator → Bool
  | .comparison _ operand | .pattern _ operand => !operand.isNull
  | .membership _ items => items.all (!·.isNull)
  | .contains items => isJsonbType fieldType || items.all (!·.isNull)
  | .equality _ _ | .isNull _ | .object _ => true

/-! ## Filters -/

/-- What is to be said of a filter. -/
structure Facts where
  -- its value on a row
  holds : ∀ server : Server, (Text → Option server.Value) → Truth
  -- the operands it binds and the columns it looks at, in order
  operands : List (Option Text)
  columns : List Text
  -- no comparison and no list has a null operand
  nullFree : Bool
  -- no field is left without a condition
  present : Bool

def Facts.all (parts : List Facts) : Facts where
  holds server row := Truth.all (parts.map fun part => part.holds server row)
  operands := parts.flatMap Facts.operands
  columns := parts.flatMap Facts.columns
  nullFree := parts.all Facts.nullFree
  present := parts.all Facts.present

/-- Of several alternatives one has to hold, unless there are none. -/
def Facts.any (parts : List Facts) : Facts :=
  { Facts.all parts with
    holds := fun server row =>
      if parts.isEmpty then some true else Truth.any (parts.map fun part => part.holds server row) }

def Facts.not (part : Facts) : Facts :=
  { part with holds := fun server row => (part.holds server row).not }

def fieldFacts (types : FieldTypes) (name : Text) (value : Json) : Facts :=
  let fieldType := (types name).map Field.fieldType
  let operators := operatorsOf value
  { holds := fun server row => Truth.all (operators.map fun operator => operator.holds server fieldType (row name))
    operands := operators.flatMap (Operator.operands fieldType)
    columns := operators.flatMap fun operator => if operator.looks then [name] else []
    nullFree := operators.all (Operator.nullFree fieldType)
    present := operators.any (!·.vanishes) }

mutual

def clauseFacts (types : FieldTypes) : Json → Facts
  | .obj entries => Facts.all (entriesFacts types entries)
  | _ => Facts.all []

def entriesFacts (types : FieldTypes) : List (Text × Json) → List Facts
  | [] => []
  | (key, value) :: rest =>
    (if key = "$and" then Facts.all (listFacts types value)
      else if key = "$or" then Facts.any (listFacts types value)
      else if key = "$not" then Facts.not (clauseFacts types value)
      else fieldFacts types key value) :: entriesFacts types rest

def listFacts (types : FieldTypes) : Json → List Facts
  | .arr items => clausesFacts types items
  | _ => []

def clausesFacts (types : FieldTypes) : List Json → List Facts
  | [] => []
  | item :: rest => clauseFacts types item :: clausesFacts types rest

end

end RootCx.Crud
