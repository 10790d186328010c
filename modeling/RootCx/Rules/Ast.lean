import RootCx.Lib.Text

/-! # The rule syntax tree

`rules/ast.rs`: the tree the parser builds, the type checker resolves and the
emitter turns into SQL.
-/

namespace RootCx.Rules

inductive LiteralType where
  | date
  | timestamp
  | uuid
  deriving DecidableEq, Repr

inductive IntervalUnit where
  | days
  | hours
  | minutes
  | seconds
  deriving DecidableEq, Repr

def IntervalUnit.asStr : IntervalUnit → Text
  | .days => "days"
  | .hours => "hours"
  | .minutes => "minutes"
  | .seconds => "seconds"

inductive BinOp where
  | or
  | and
  | eq
  | ne
  | lt
  | le
  | gt
  | ge
  | match
  | add
  | sub
  | mul
  deriving DecidableEq, Repr

def BinOp.sql : BinOp → Text
  | .or => "OR"
  | .and => "AND"
  | .eq => "="
  | .ne => "<>"
  | .lt => "<"
  | .le => "<="
  | .gt => ">"
  | .ge => ">="
  | .match => "~"
  | .add => "+"
  | .sub => "-"
  | .mul => "*"

def BinOp.isComparison : BinOp → Bool
  | .eq | .ne | .lt | .le | .gt | .ge => true
  | _ => false

/-- The functions a rule may call. -/
inductive Func where
  | length
  | btrim
  | upper
  | lower
  | coalesce
  | scale
  | trunc
  | abs
  | jsonbTypeof
  | jsonbArrayLength
  deriving DecidableEq, Repr

def Func.NAMES : Text :=
  ("length, btrim, trim, upper, lower, coalesce, scale, trunc, abs, jsonb_typeof, " ++
    "jsonb_array_length").toList

/-- `trim(x)` is another spelling of `btrim(x)`. -/
def Func.fromName (name : Text) : Option Func :=
  if name = "length" then some .length
  else if name = "btrim" ∨ name = "trim" then some .btrim
  else if name = "upper" then some .upper
  else if name = "lower" then some .lower
  else if name = "coalesce" then some .coalesce
  else if name = "scale" then some .scale
  else if name = "trunc" then some .trunc
  else if name = "abs" then some .abs
  else if name = "jsonb_typeof" then some .jsonbTypeof
  else if name = "jsonb_array_length" then some .jsonbArrayLength
  else none

def Func.sqlName : Func → Text
  | .length => "length"
  | .btrim => "btrim"
  | .upper => "upper"
  | .lower => "lower"
  | .coalesce => "coalesce"
  | .scale => "scale"
  | .trunc => "trunc"
  | .abs => "abs"
  | .jsonbTypeof => "jsonb_typeof"
  | .jsonbArrayLength => "jsonb_array_length"

def Func.arity (func : Func) : Nat := if func = .coalesce then 2 else 1

inductive Expr where
  | field (name : Text)
  | text (value : Text)
  -- digits with an optional fraction, as written
  | number (value : Text)
  | bool (value : Bool)
  -- a text literal resolved against a date, timestamp or uuid
  | typed (ty : LiteralType) (value : Text)
  | interval (amount : Nat) (unit : IntervalUnit)
  | not (e : Expr)
  | neg (e : Expr)
  | binary (op : BinOp) (l r : Expr)
  | isNull (e : Expr) (negated : Bool)
  | between (e lo hi : Expr) (negated : Bool)
  | inList (e : Expr) (list : List Expr) (negated : Bool)
  | call (func : Func) (args : List Expr)
  -- generated by Core only
  | arrayWithin (field : Text) (values : List Text)
  | finite (e : Expr) (numeric : Bool)
  deriving Repr

/-- Induction over a tree, with one hypothesis for all items of a list. -/
@[induction_eliminator]
theorem Expr.induction {P : Expr → Prop} (field : ∀ name, P (.field name))
    (text : ∀ value, P (.text value)) (number : ∀ value, P (.number value))
    (bool : ∀ value, P (.bool value)) (typed : ∀ ty value, P (.typed ty value))
    (interval : ∀ amount unit, P (.interval amount unit)) (not : ∀ e, P e → P (.not e))
    (neg : ∀ e, P e → P (.neg e)) (binary : ∀ op l r, P l → P r → P (.binary op l r))
    (isNull : ∀ e negated, P e → P (.isNull e negated))
    (between : ∀ e lo hi negated, P e → P lo → P hi → P (.between e lo hi negated))
    (inList : ∀ e list negated, P e → (∀ item ∈ list, P item) → P (.inList e list negated))
    (call : ∀ func args, (∀ arg ∈ args, P arg) → P (.call func args))
    (arrayWithin : ∀ field values, P (.arrayWithin field values))
    (finite : ∀ e numeric, P e → P (.finite e numeric)) (e : Expr) : P e := by
  refine @Expr.rec P (fun list => ∀ item ∈ list, P item) field text number bool typed
    interval not neg binary isNull between inList call arrayWithin finite ?_ ?_ e
  · exact fun _ mem => nomatch mem
  · intro head tail first others item mem
    obtain rfl | older := List.mem_cons.mp mem
    · exact first
    · exact others item older

end RootCx.Rules
