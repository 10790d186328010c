import RootCx.Lib.Except
import RootCx.Manifest.FieldType
import RootCx.Rules.Ast

/-! # Type resolution

`rules/typing.rs`: the checker resolves a rule against the fields of its entity
and turns text literals into typed ones where a date, a timestamp or a uuid is
compared.  Parsing of dates, timestamps and uuids and the test of a pattern
belong to crates and are parameters.
-/

namespace RootCx.Rules

open RootCx.Text

inductive Ty where
  | bool
  | text
  | int
  | float
  | numeric
  | date
  | timestamp
  | interval
  | json
  | uuid
  | array
  -- a number, or a text, whose type is decided by what it meets
  | numLit
  | textLit
  deriving DecidableEq, Repr

def Ty.name : Ty → Text
  | .bool => "boolean"
  | .text | .textLit => "text"
  | .int => "integer"
  | .float => "number"
  | .numeric => "decimal"
  | .date => "date"
  | .timestamp => "timestamp"
  | .interval => "interval"
  | .json => "json"
  | .uuid => "uuid"
  | .array => "array"
  | .numLit => "number literal"

def Ty.isNumeric (ty : Ty) : Bool := ty ∈ [.int, .float, .numeric, .numLit]

def Ty.isText (ty : Ty) : Bool := ty ∈ [.text, .textLit]

def Ty.isOrderable (ty : Ty) : Bool := ty.isNumeric || ty ∈ [.date, .timestamp, .interval]

def Ty.of : FieldType → Ty
  | .text | .file => .text
  | .number => .float
  | .decimal _ => .numeric
  | .boolean => .bool
  | .date => .date
  | .timestamp => .timestamp
  | .json => .json
  | .uuid | .entityLink => .uuid
  | .textArray | .numberArray => .array

/-- A field in the scope of a rule, with the PostgreSQL type of its column. -/
structure ScopeField where
  ty : Ty
  sensitive : Bool
  pg : Text
  deriving DecidableEq, Repr

/-- `Fields`, by its lookup. -/
abbrev Fields := Text → Option ScopeField

/-- What crates do for the checker. -/
structure Literals where
  parseDate : Text → Bool
  -- the normalised spelling
  parseTimestamp : Text → Option Text
  parseUuid : Text → Option Text
  validatePattern : Text → Except Text Unit

/-! ## The fields of a tree -/

mutual

/-- The fields a tree reads, added to those found before. -/
def Expr.fields (out : List Text) : Expr → List Text
  | .field name | .arrayWithin name _ => if name ∈ out then out else out ++ [name]
  | .text _ | .number _ | .bool _ | .typed _ _ | .interval _ _ => out
  | .not e | .neg e | .isNull e _ | .finite e _ => e.fields out
  | .binary _ l r => r.fields (l.fields out)
  | .between e lo hi _ => hi.fields (lo.fields (e.fields out))
  | .inList e list _ => fieldsAll (e.fields out) list
  | .call _ args => fieldsAll out args

def fieldsAll (out : List Text) : List Expr → List Text
  | [] => out
  | e :: rest => fieldsAll (e.fields out) rest

end

/-! ## Resolution -/

def expectOk (ok : Bool) (message : Text) : Except Text Unit := if ok then .ok () else .error message

def isLiteral : Expr → Bool
  | .text _ | .number _ | .bool _ | .neg (.number _) => true
  | _ => false

/-- The type of an arithmetic result. -/
def arithmetic (a b : Ty) : Ty :=
  if a = .float ∨ b = .float then .float
  else if a = .numeric ∨ b = .numeric then .numeric
  else if a = .int ∨ b = .int then .int
  else .numLit

/-- Same family, and not two text literals. -/
def compatible (a b : Ty) : Bool :=
  ((a.isNumeric && b.isNumeric) || (a.isText && b.isText) || a == b) && !(a == .textLit && b == .textLit)

section Checker

variable (literals : Literals)

def typedLiteral (ty : Ty) (value : Text) : Except Text Expr :=
  match ty with
  | .date =>
    if byteLength value = 10 && literals.parseDate value then .ok (.typed .date value)
    else .error ("'" ++ value ++ "' is not a date; write 'YYYY-MM-DD'")
  | .timestamp =>
    match literals.parseTimestamp value with
    | some spelling => .ok (.typed .timestamp spelling)
    | none => .error ("'" ++ value ++
        "' is not a timestamp; write RFC 3339 with an offset, like '2026-01-01T00:00:00Z'")
  | .uuid =>
    match (literals.parseUuid value).filter fun _ => byteLength value = 36 with
    | some spelling => .ok (.typed .uuid spelling)
    | none => .error ("'" ++ value ++ "' is not a canonical uuid")
  -- unreachable in the source
  | _ => .error "typed literals are dates, timestamps or uuids"

/-- A text literal beside a date, a timestamp or a uuid becomes one. -/
def adopt (ty : Ty) : Expr × Ty → Except Text (Expr × Ty)
  | (.text value, .textLit) =>
    if ty ∈ [.date, .timestamp, .uuid] then (typedLiteral literals ty value).map fun typed => (typed, ty)
    else .ok (.text value, .textLit)
  | side => .ok side

/-- `unify`, given what `check` says of the other side. -/
def unify (ty : Ty) (what : Text) (other : Expr × Ty) : Except Text (Expr × Ty) := do
  let other ← adopt literals ty other
  expectOk (compatible ty other.2)
    (what ++ " cannot compare " ++ ty.name ++ " with " ++ other.2.name)
  .ok other

def orderMessage (op : BinOp) (lty rty : Ty) : Text :=
  if lty.isText || rty.isText then
    "'" ++ op.sql ++ "' cannot order text: the result would depend on collation"
  else "'" ++ op.sql ++ "' cannot order " ++ lty.name

/-- A text literal on the left takes its type from the right. -/
def unifySides (op : BinOp) (left right : Expr × Ty) : Except Text ((Expr × Ty) × (Expr × Ty)) :=
  if left.2 = .textLit then (unify literals right.2 op.sql left).map fun left => (left, right)
  else (unify literals left.2 op.sql right).map fun right => (left, right)

def compareSides (op : BinOp) (left right : Expr × Ty) : Except Text (Expr × Ty) := do
  let (left, right) ← unifySides literals op left right
  expectOk (op ∈ [.eq, .ne] || (left.2.isOrderable && right.2.isOrderable)) (orderMessage op left.2 right.2)
  expectOk (!(left.2 ∈ [.json, .array]))
    ("'" ++ op.sql ++ "' cannot compare " ++ left.2.name)
  .ok (.binary op left.1 right.1, .bool)

def arithmeticType (op : BinOp) (lty rty : Ty) : Except Text Ty :=
  if op = .sub ∧ lty = .timestamp ∧ rty = .timestamp then .ok .interval
  else if op = .sub ∧ lty = .date ∧ rty = .date then .ok .int
  else if lty.isNumeric && rty.isNumeric then .ok (arithmetic lty rty)
  else .error ("'" ++ op.sql ++ "' cannot combine " ++ lty.name ++ " and " ++ rty.name)

/-- A binary operation on resolved sides; `~` looks at the unresolved right one. -/
def binary (op : BinOp) (left : Expr × Ty) (r : Expr) (right : Except Text (Expr × Ty)) :
    Except Text (Expr × Ty) :=
  match op with
  | .and | .or => do
    let right ← right
    expectOk (left.2 = .bool && right.2 = .bool) (op.sql ++ " needs booleans")
    .ok (.binary op left.1 right.1, .bool)
  | .eq | .ne | .lt | .le | .gt | .ge => do
    let right ← right
    compareSides literals op left right
  | .match => do
    expectOk (left.2 = .text) ("'~' needs a text field, not " ++ left.2.name)
    match r with
    | .text value => do
      literals.validatePattern value
      .ok (.binary op left.1 r, .bool)
    | _ => .error "'~' needs a quoted pattern on its right"
  | .add | .sub | .mul => do
    let right ← right
    let ty ← arithmeticType op left.2 right.2
    .ok (.binary op left.1 right.1, ty)

def callMessage (func : Func) (ty : Ty) : Text := func.sqlName ++ "() does not accept " ++ ty.name

/-- The type of a call with one argument. -/
def unaryType (func : Func) (arg : Ty) : Except Text Ty :=
  match func with
  | .length => do expectOk arg.isText (callMessage func arg); .ok .int
  | .btrim | .upper | .lower => do expectOk arg.isText (callMessage func arg); .ok .text
  | .scale => do
    expectOk (arg = .numeric) ("scale() needs a decimal field, not " ++ arg.name)
    .ok .int
  | .trunc => do expectOk (arg ∈ [.float, .numeric]) (callMessage func arg); .ok arg
  | .abs => do expectOk (arg ∈ [.float, .numeric, .int]) (callMessage func arg); .ok arg
  | .jsonbTypeof => do expectOk (arg = .json) (callMessage func arg); .ok .text
  | .jsonbArrayLength => do expectOk (arg = .json) (callMessage func arg); .ok .int
  | .coalesce => .error "index out of bounds"

/-- A call on resolved arguments.  The parser gives every function its number of
    arguments; the source would index past the end otherwise. -/
def call (func : Func) (args : List (Expr × Ty)) : Except Text (Expr × Ty) :=
  match func, args with
  | .coalesce, [first, second] => do
    expectOk (!(first.2 ∈ [.numLit, .textLit, .json, .array]))
      "coalesce() starts with a text, number, date, timestamp, uuid or boolean field"
    let fallback ← unify literals first.2 "coalesce()" second
    .ok (.call func [first.1, fallback.1],
      if first.2.isNumeric then arithmetic first.2 fallback.2 else first.2)
  | func, [arg] => do
    let ty ← unaryType func arg.2
    .ok (.call func [arg.1], ty)
  | _, _ => .error "index out of bounds"

variable (fields : Fields)

mutual

def check : Expr → Except Text (Expr × Ty)
  | .field name =>
    match fields name with
    | some field => .ok (.field name, field.ty)
    | none => .error ("unknown field '" ++ name ++ "'")
  | .text value => .ok (.text value, .textLit)
  | .number value => .ok (.number value, .numLit)
  | .bool value => .ok (.bool value, .bool)
  | .interval amount unit => .ok (.interval amount unit, .interval)
  | .typed ty value => .ok (.typed ty value, match ty with
    | .date => .date
    | .timestamp => .timestamp
    | .uuid => .uuid)
  | .not e => do
    let (e, ty) ← check e
    expectOk (ty = .bool) ("NOT needs a boolean, not " ++ ty.name)
    .ok (.not e, .bool)
  | .neg e => do
    let (e, ty) ← check e
    expectOk ty.isNumeric ("unary '-' needs a number, not " ++ ty.name)
    .ok (.neg e, ty)
  | .isNull e negated => do
    let (e, _) ← check e
    .ok (.isNull e negated, .bool)
  | .binary op l r => do
    let left ← check l
    binary literals op left r (check r)
  | .between e lo hi negated => do
    let (e, ety) ← check e
    expectOk ety.isOrderable
      ("BETWEEN needs numbers, dates, timestamps or intervals, not " ++ ety.name)
    let lo ← check lo
    let (lo, _) ← unify literals ety "BETWEEN" lo
    let hi ← check hi
    let (hi, _) ← unify literals ety "BETWEEN" hi
    .ok (.between e lo hi negated, .bool)
  | .inList e list negated => do
    let (e, ety) ← check e
    expectOk (ety.isNumeric || ety.isText || ety ∈ [.date, .uuid])
      ("IN needs text, numbers, dates or uuids, not " ++ ety.name)
    let list ← checkItems ety list
    .ok (.inList e list negated, .bool)
  | .call func args => do
    let args ← checkAll args
    call literals func args
  | .arrayWithin field values => .ok (.arrayWithin field values, .bool)
  | .finite e numeric => do
    let (e, _) ← check e
    .ok (.finite e numeric, .bool)

def checkAll : List Expr → Except Text (List (Expr × Ty))
  | [] => .ok []
  | e :: rest => do
    let e ← check e
    let rest ← checkAll rest
    .ok (e :: rest)

/-- The literals of an `IN` list. -/
def checkItems (ety : Ty) : List Expr → Except Text (List Expr)
  | [] => .ok []
  | item :: rest => do
    expectOk (isLiteral item) "IN lists contain literals only"
    let item ← check item
    let (item, _) ← unify literals ety "IN" item
    let rest ← checkItems ety rest
    .ok (item :: rest)

end

/-- A rule has to be a condition. -/
def boolean (expr : Expr) : Except Text Expr := do
  let (expr, ty) ← check literals fields expr
  if ty = .bool then .ok expr
  else .error ("the rule must be a boolean condition, not " ++ ty.name)

/-- An index expression reads a field. -/
def scalar (expr : Expr) : Except Text Expr := do
  let (expr, ty) ← check literals fields expr
  if (expr.fields []).isEmpty || ty ∈ [.numLit, .textLit] then
    .error "an index expression must use at least one field"
  else .ok expr

end Checker

end RootCx.Rules
