import RootCx.Rules.Typing

/-! # Field shorthands

`rules/shorthand.rs`: common rules on a single field, declared next to the field
and compiled through the same typed trees as written checks.
-/

namespace RootCx.Rules.Shorthand

open RootCx.Text

def EMAIL_PATTERN : Text := "^[^[:space:]@]+@[^[:space:]@]+\\.[^[:space:]@]+$"

def JSON_TYPES : List Text :=
  ["object", "array", "string", "number", "boolean", "null"]

/-- A compiled shorthand: the suffix of its name and its resolved tree. -/
structure Shorthand where
  kind : Text
  tree : Expr

/-- The value of a whole number of 64 bits with its sign. -/
def asI64 (text : Text) : Option Text :=
  let digits := if text.head? = some '-' then text.tail else text
  let limit := if text.head? = some '-' then 2 ^ 63 else 2 ^ 63 - 1
  if !digits.isEmpty && digits.all Char.isDigit && Nat.ofDigitChars 10 digits 0 ≤ limit then some text else none

/-- Digits with an optional fraction, forty bytes at most. -/
def isBoundText (digits : Text) : Bool :=
  let whole := digits.takeWhile (· != '.')
  let wellFormed := match digits.dropWhile (· != '.') with
    | [] => true
    | _ :: fraction => !fraction.isEmpty && fraction.all Char.isDigit
  !whole.isEmpty && whole.all Char.isDigit && wellFormed && byteLength digits ≤ 40

section Bounds

-- `f64::to_string` of a JSON number
variable (floatText : Text → Text)

def boundText (name key : Text) (value : Json) (ty : Ty) : Except Text Text :=
  match ty, value with
  | .numeric, .str text => .ok (trim text)
  | .numeric, _ => .error ("field '" ++ name ++ "': decimal '" ++ key ++
      "' must be a JSON string such as \"0.01\"")
  | _, .number text => .ok ((asI64 text).getD (floatText text))
  | _, _ => .error ("field '" ++ name ++ "': number '" ++ key ++ "' must be a JSON number")

/-- A bound as a literal of the field's type. -/
def bound (name key : Text) (value : Json) (ty : Ty) : Except Text Expr := do
  let text ← boundText floatText name key value ty
  let negative := text.head? = some '-'
  let digits := if negative then text.tail else text
  if isBoundText digits then .ok (if negative then .neg (.number digits) else .number digits)
  else .error ("field '" ++ name ++ "': '" ++ key ++
    "' must be a finite number written in digits, not '" ++ text ++ "'")

end Bounds

section Compile

variable (literals : Literals) (floatText : Text → Text) (fields : Fields) (field : FieldContract) (ty : Ty)

def this : Expr := .field field.name

def finite : Expr := .finite (this field) (ty == .numeric)

def needs (ok : Bool) (key what : String) : Except Text Unit :=
  expectOk ok ("field '" ++ field.name ++ "': '" ++ key.toList ++ "' applies to " ++
    what.toList ++ " fields")

def push (kind : String) (tree : Expr) : Except Text (List Shorthand) :=
  match boolean literals fields tree with
  | .ok tree => .ok [⟨kind.toList, tree⟩]
  | .error message => .error ("field '" ++ field.name ++ "': " ++ message)

def isNumeric : Bool := ty ∈ [.float, .numeric]

/-- One of the four bounds of a number. -/
def boundRule (key kind : String) (op : BinOp) : Option Json → Except Text (List Shorthand)
  | none => .ok []
  | some value => do
    needs field (isNumeric ty) key "number and decimal"
    let bound ← bound floatText field.name key.toList value ty
    push literals fields field kind (.binary .and (.binary op (this field) bound) (finite field ty))

/-- A rule that compares a whole number with a function of the field. -/
def countRule (key what kind : String) (ok : Bool) (op : BinOp) (measured : Expr) (rest : Option Expr) :
    Option Nat → Except Text (List Shorthand)
  | none => .ok []
  | some count => do
    needs field ok key what
    let compared := Expr.binary op measured (.number (Nat.toDigits 10 count))
    push literals fields field kind (match rest with
      | none => compared
      | some rest => .binary .and compared rest)

def integerRule : Except Text (List Shorthand) :=
  if field.rules.integer then do
    needs field (isNumeric ty) "integer" "number and decimal"
    push literals fields field "int"
      (.binary .and (.binary .eq (this field) (.call .trunc [this field])) (finite field ty))
  else .ok []

def lengthsFit : Except Text Unit :=
  match field.rules.minLength, field.rules.maxLength with
  | some min, some max =>
    expectOk (min ≤ max) ("field '" ++ field.name ++ "': min_length exceeds max_length")
  | _, _ => .ok ()

def notBlankRule : Except Text (List Shorthand) :=
  if field.rules.notBlank then do
    needs field (ty = .text) "not_blank" "text"
    push literals fields field "notblank"
      (.binary .gt (.call .length [.call .btrim [this field]]) (.number "0"))
  else .ok []

def formatRule : Except Text (List Shorthand) :=
  match field.rules.format with
  | none => .ok []
  | some format => do
    needs field (ty = .text) "format" "text"
    expectOk (format = "email") ("field '" ++ field.name ++ "': unknown format '" ++ format ++
      "'; supported: email")
    push literals fields field "format" (.binary .match (this field) (.text EMAIL_PATTERN))

def patternRule : Except Text (List Shorthand) :=
  match field.rules.pattern with
  | none => .ok []
  | some pattern => do
    needs field (ty = .text) "pattern" "text"
    push literals fields field "pattern" (.binary .match (this field) (.text pattern))

def jsonTypeRule : Except Text (List Shorthand) :=
  match field.rules.jsonType with
  | none => .ok []
  | some jsonType => do
    needs field (ty = .json) "json_type" "json"
    expectOk (jsonType ∈ JSON_TYPES) ("field '" ++ field.name ++ "': json_type must be one of " ++
      join ", " JSON_TYPES)
    push literals fields field "jsontype" (.binary .eq (.call .jsonbTypeof [this field]) (.text jsonType))

/-- The shorthands of a field, in the order in which they are compiled. -/
def compile : Except Text (List Shorthand) := do
  let rules := field.rules
  let minimum ← boundRule literals floatText fields field ty "minimum" "min" .ge rules.minimum
  let maximum ← boundRule literals floatText fields field ty "maximum" "max" .le rules.maximum
  let xmin ← boundRule literals floatText fields field ty "exclusive_minimum" "xmin" .gt rules.exclusiveMinimum
  let xmax ← boundRule literals floatText fields field ty "exclusive_maximum" "xmax" .lt rules.exclusiveMaximum
  let integer ← integerRule literals fields field ty
  let scale ← countRule literals fields field "max_scale" "decimal" "scale" (ty = .numeric) .le
    (.call .scale [this field]) (some (finite field ty)) rules.maxScale
  lengthsFit field
  let minLength ← countRule literals fields field "min_length" "text" "minlen" (ty = .text) .ge
    (.call .length [this field]) none rules.minLength
  let maxLength ← countRule literals fields field "max_length" "text" "maxlen" (ty = .text) .le
    (.call .length [this field]) none rules.maxLength
  let notBlank ← notBlankRule literals fields field ty
  let format ← formatRule literals fields field ty
  let pattern ← patternRule literals fields field ty
  let jsonType ← jsonTypeRule literals fields field ty
  let maxItems ← countRule literals fields field "max_items" "json" "maxitems" (ty = .json) .le
    (.call .jsonbArrayLength [this field]) none rules.maxItems
  .ok (minimum ++ maximum ++ xmin ++ xmax ++ integer ++ scale ++ minLength ++ maxLength ++ notBlank ++
    format ++ pattern ++ jsonType ++ maxItems)

end Compile

end RootCx.Rules.Shorthand
