import RootCx.Lib.NumberLiterals
import RootCx.Lib.Truth
import RootCx.Postgres.Numbers
import RootCx.Rules.Shorthand

/-! # What shorthands mean

The values of columns, and what PostgreSQL makes of the trees that shorthands are
compiled to.  Literals and integers are numerics; beside a double they are cast to
one.  The server's regular expressions are a parameter.
-/

namespace RootCx.Rules

open RootCx.Text RootCx.Postgres

inductive Value where
  | float (x : Number)
  | numeric (x : Number) (scale : Nat)
  | text (value : Text)
  | bool (value : Bool)
  | json (value : Json)

namespace Value

/-- A whole number, such as a length. -/
def count (n : Nat) : Value := .numeric (.finite n) 0

/-- The values of a field's type, as far as shorthands apply to it. -/
def HasTy : Value → Ty → Prop
  | .float _, .float | .numeric _ _, .numeric | .text _, .text | .bool _, .bool | .json _, .json => True
  | _, _ => False

end Value

/-! ## Operators -/

def holds (op : BinOp) (x y : Number) : Bool :=
  match op with
  | .eq => x = y
  | .ne => x ≠ y
  | .lt => x.lt y
  | .le => !y.lt x
  | .gt => y.lt x
  | .ge => !x.lt y
  | _ => false

/-- A comparison; `none` where the server has no operator. -/
def compareValues (op : BinOp) : Value → Value → Option Bool
  | .float x, .float y => some (holds op x y)
  | .float x, .numeric y _ => some (holds op x y.toDouble)
  | .numeric x _, .float y => some (holds op x.toDouble y)
  | .numeric x _, .numeric y _ => some (holds op x y)
  | .text x, .text y => if op = .eq then some (decide (x = y)) else if op = .ne then some (decide (x ≠ y)) else none
  | _, _ => none

def negate : Value → Option Value
  | .float (.finite x) => some (.float (.finite (-x)))
  | .numeric (.finite x) scale => some (.numeric (.finite (-x)) scale)
  | _ => none

def isBlank (c : Char) : Bool := c == ' '

/-- `btrim`, which takes spaces off both ends. -/
def btrim (text : Text) : Text := ((text.dropWhile isBlank).reverse.dropWhile isBlank).reverse

def jsonTypeof : Json → Text
  | .null => "null"
  | .bool _ => "boolean"
  | .number _ => "number"
  | .str _ => "string"
  | .arr _ => "array"
  | .obj _ => "object"

/-- A call on a value that is not null; the answer can be. -/
def callValue : Func → Value → Option (Option Value)
  | .trunc, .float x => some (some (.float x.trunc))
  | .trunc, .numeric x _ => some (some (.numeric x.trunc 0))
  | .scale, .numeric x scale => some (if x.isFinite then some (.count scale) else none)
  | .length, .text text => some (some (.count text.length))
  | .btrim, .text text => some (some (.text (btrim text)))
  | .jsonbTypeof, .json value => some (some (.text (jsonTypeof value)))
  -- emitted behind a test of the type
  | .jsonbArrayLength, .json (.arr items) => some (some (.count items.length))
  | .jsonbArrayLength, .json _ => some none
  | _, _ => none

/-- The two comparisons that a finiteness guard is emitted as. -/
def guardValue (numeric : Bool) (value : Value) : Option Bool :=
  let infinity (negative : Bool) : Value :=
    if numeric then .numeric (.infinite negative) 0 else .float (.infinite negative)
  (compareValues .lt value (infinity false)).bind fun below =>
    (compareValues .gt value (infinity true)).map fun above => below && above

/-- A truth value as a value that can be null. -/
def ofTruth (truth : Truth) : Option Value := truth.map .bool

def toTruth : Option Value → Option Truth
  | none => some none
  | some (.bool value) => some (some value)
  | some _ => none

/-- Null where an operand is. -/
def strict (f : Value → Value → Option Value) : Option Value → Option Value → Option (Option Value)
  | some left, some right => (f left right).map some
  | _, _ => some none

/-! ## Evaluation -/

section Eval

variable (regex : Text → Text → Bool) (row : Text → Option Value)

def matchValue : Value → Value → Option Value
  | .text value, .text pattern => some (.bool (regex pattern value))
  | _, _ => none

/-- The value of a tree in a row, which can be null; `none` for trees that shorthands are
    not made of. -/
def eval : Expr → Option (Option Value)
  | .field name => some (row name)
  | .number text => (decimalValue text).map fun value => some (.numeric (.finite value) (text.dropWhile (· != '.')).tail.length)
  | .text value => some (some (.text value))
  | .neg e => (eval e).bind fun value => match value with
    | none => some none
    | some value => (negate value).map some
  | .binary .and l r => (eval l).bind fun left => (eval r).bind fun right =>
    (toTruth left).bind fun left => (toTruth right).map fun right => ofTruth (Truth.and left right)
  | .binary .match l r => (eval l).bind fun left => (eval r).bind fun right => strict (matchValue regex) left right
  | .binary op l r => (eval l).bind fun left => (eval r).bind fun right =>
    strict (fun left right => (compareValues op left right).map .bool) left right
  | .call func [arg] => (eval arg).bind fun value => match value with
    | none => some none
    | some value => callValue func value
  | .finite e numeric => (eval e).bind fun value => match value with
    | none => some none
    | some value => (guardValue numeric value).map fun truth => some (.bool truth)
  | _ => none

end Eval

/-! ## Declared rules -/

namespace Shorthand

inductive Rule where
  | bound (op : BinOp) (value : Json)
  | integer
  | maxScale (limit : Nat)
  | minLength (limit : Nat)
  | maxLength (limit : Nat)
  | notBlank
  | format (format : Text)
  | pattern (pattern : Text)
  | jsonType (jsonType : Text)
  | maxItems (limit : Nat)

def Rule.kind : Rule → Text
  | .bound .ge _ => "min"
  | .bound .le _ => "max"
  | .bound .gt _ => "xmin"
  | .bound _ _ => "xmax"
  | .integer => "int"
  | .maxScale _ => "scale"
  | .minLength _ => "minlen"
  | .maxLength _ => "maxlen"
  | .notBlank => "notblank"
  | .format _ => "format"
  | .pattern _ => "pattern"
  | .jsonType _ => "jsontype"
  | .maxItems _ => "maxitems"

def boundsOf (op : BinOp) (value : Option Json) : List Rule := value.toList.map (.bound op)

/-- The rules of a field, in the order in which they are compiled. -/
def declared (rules : FieldRules) : List Rule :=
  boundsOf .ge rules.minimum ++ boundsOf .le rules.maximum ++ boundsOf .gt rules.exclusiveMinimum ++
    boundsOf .lt rules.exclusiveMaximum ++ (if rules.integer then [.integer] else []) ++
    rules.maxScale.toList.map .maxScale ++ rules.minLength.toList.map .minLength ++
    rules.maxLength.toList.map .maxLength ++ (if rules.notBlank then [.notBlank] else []) ++
    rules.format.toList.map .format ++ rules.pattern.toList.map .pattern ++
    rules.jsonType.toList.map .jsonType ++ rules.maxItems.toList.map .maxItems

/-- Whether a value meets a rule.  A bound is met by finite values only, and on doubles it
    is the double that is kept of the declared number; items are counted in arrays only. -/
def Rule.meets (reader : NumberReader) (regex : Text → Text → Bool) : Rule → Value → Truth
  | .bound op (.number text), .float x => some ((reader.asF64 text).any fun bound => x.isFinite && holds op x (.finite bound))
  | .bound op (.str text), .numeric x _ => some ((decimalValue (trim text)).any fun bound => x.isFinite && holds op x (.finite bound))
  | .integer, .float x | .integer, .numeric x _ => some x.isWhole
  | .maxScale limit, .numeric x scale => some (x.isFinite && decide (scale ≤ limit))
  | .minLength limit, .text text => some (limit ≤ text.length)
  | .maxLength limit, .text text => some (text.length ≤ limit)
  | .notBlank, .text text => some (text.any (!isBlank ·))
  | .format _, .text text => some (regex EMAIL_PATTERN text)
  | .pattern written, .text text => some (regex written text)
  | .jsonType name, .json value => some (jsonTypeof value = name)
  | .maxItems limit, .json (.arr items) => some (items.length ≤ limit)
  | _, _ => none

end Shorthand

end RootCx.Rules
