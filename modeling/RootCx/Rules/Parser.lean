import RootCx.Rules.Lexer
import RootCx.Lib.Except

/-! # The parser of the rule language

The second half of `rules/parser.rs`, a recursive descent with one function for
each precedence level.  The limits are arguments, so that the grammar can be
studied without them.

The depth counter of the source is the argument `room` of `levels`: what is left
of the nesting depth.  An index outside the token list is `Stop.outOfRange`.
-/

namespace RootCx.Rules.Parser

open RootCx.Text

structure Limits where
  depth : Nat
  nodes : Nat
  items : Nat

def declaredLimits : Limits := ⟨MAX_DEPTH, MAX_NODES, MAX_IN_ITEMS⟩

structure Env where
  src : Text
  tokens : List (Tok × Nat)
  limits : Limits

structure State where
  -- `at`, the index of the next token
  cursor : Nat
  nodes : Nat
  deriving DecidableEq, Repr

inductive Stop where
  | refused (error : SyntaxError)
  | outOfRange
  -- a loop that has not ended after as many rounds as there are tokens
  | endless
  deriving DecidableEq, Repr

abbrev Parse := StateT State (Except Stop)

variable (env : Env)

/-! ## Single tokens -/

def peek : Parse Tok := fun s =>
  match env.tokens[s.cursor]? with
  | some (tok, _) => .ok (tok, s)
  | none => .error .outOfRange

def peek2 : Parse Tok := fun s =>
  match env.tokens[min (s.cursor + 1) (env.tokens.length - 1)]? with
  | some (tok, _) => .ok (tok, s)
  | none => .error .outOfRange

def seek (cursor : Nat) : Parse Unit := fun s => .ok ((), { s with cursor })

/-- `self.at -= 1`. -/
def stepBack : Parse Unit := fun s =>
  if s.cursor = 0 then .error .outOfRange else .ok ((), { s with cursor := s.cursor - 1 })

def bump : Parse Tok := fun s =>
  match env.tokens[s.cursor]? with
  | some (tok, _) => .ok (tok, if tok.isLast then s else { s with cursor := s.cursor + 1 })
  | none => .error .outOfRange

def errorHere {α : Type} (message : Text) : Parse α := fun s =>
  match env.tokens[s.cursor]? with
  | some (.bad error, _) => .error (.refused error)
  | some (_, start) => .error (.refused (errorAt env.src start message))
  | none => .error .outOfRange

def expect (tok : Tok) (what : Text) : Parse Unit := do
  let found ← peek env
  if found = tok then do
    let _ ← bump env
    pure ()
  else errorHere env ("expected " ++ what ++ ", found " ++ found.describe)

def node (expr : Expr) : Parse Expr := fun s =>
  if s.nodes + 1 > env.limits.nodes then
    errorHere env ("rules are limited to " ++ Nat.toDigits 10 env.limits.nodes ++ " nodes")
      { s with nodes := s.nodes + 1 }
  else .ok (expr, { s with nodes := s.nodes + 1 })

def binary (op : BinOp) (l r : Expr) : Parse Expr := node env (.binary op l r)

/-- What `nested` answers when the depth is used up. -/
def tooDeep {α : Type} : Parse α :=
  errorHere env ("rules are limited to a nesting depth of " ++
    Nat.toDigits 10 env.limits.depth)

/-- The functions that are called through `nested`. -/
structure Levels where
  or : Parse Expr
  not : Parse Expr
  unary : Parse Expr

/-! ## Loops -/

/-- `while` the next token is an operator of the level, read another operand. -/
def chainLoop (operator : Tok → Option BinOp) (operand : Parse Expr) : Nat → Expr → Parse Expr
  | 0, _ => fun _ => .error .endless
  | rounds + 1, l => do
    let tok ← peek env
    match operator tok with
    | none => pure l
    | some op => do
      let _ ← bump env
      let r ← operand
      let e ← binary env op l r
      chainLoop operator operand rounds e

def leftChain (operator : Tok → Option BinOp) (operand : Parse Expr) : Parse Expr := do
  let l ← operand
  chainLoop env operator operand env.tokens.length l

/-- The items behind the first one, each with its comma; `tooMany` refuses a list
    that has grown too long. -/
def itemsLoop (item : Parse Expr) (tooMany : List Expr → Option Text) :
    Nat → List Expr → Parse (List Expr)
  | 0, _ => fun _ => .error .endless
  | rounds + 1, list => do
    let tok ← peek env
    if tok = .comma then do
      let _ ← bump env
      let e ← item
      match tooMany (list ++ [e]) with
      | some message => errorHere env message
      | none => itemsLoop item tooMany rounds (list ++ [e])
    else pure list

def items (item : Parse Expr) (tooMany : List Expr → Option Text) : Parse (List Expr) := do
  let first ← item
  itemsLoop env item tooMany env.tokens.length [first]

/-! ## Atoms -/

def intervalUnit (unit : Text) : Option IntervalUnit :=
  if unit = "day" ∨ unit = "days" then some .days
  else if unit = "hour" ∨ unit = "hours" then some .hours
  else if unit = "minute" ∨ unit = "minutes" then some .minutes
  else if unit = "second" ∨ unit = "seconds" then some .seconds
  else none

/-- `str::parse::<u32>`, which takes a leading plus sign. -/
def parseU32 (text : Text) : Option Nat :=
  let digits := if text.head? = some '+' then text.tail else text
  if digits ≠ [] ∧ digits.all Char.isDigit = true ∧ Nat.ofDigitChars 10 digits 0 < 2 ^ 32 then
    some (Nat.ofDigitChars 10 digits 0)
  else none

def intervalOf (text : Text) : Option (Nat × IntervalUnit) :=
  match splitWhitespace text with
  | [amount, unit] => do
    let unit ← intervalUnit unit
    let n ← parseU32 amount
    if amount.all Char.isDigit = true ∧ n ≤ 1000000 then some (n, unit) else none
  | _ => none

def interval : Parse Expr := do
  let tok ← bump env
  match tok with
  | .str text =>
    match intervalOf text with
    | some (amount, unit) => node env (.interval amount unit)
    | none => do
      stepBack
      errorHere env "intervals are written '<n> days|hours|minutes|seconds'"
  | _ => do
    stepBack
    errorHere env "expected a quoted interval such as interval '62 days'"

def call (inner : Levels) (name : Text) : Parse Expr :=
  match Func.fromName (name.map Char.toLower) with
  | none =>
    errorHere env ("function '" ++ name ++ "' is not allowed; allowed: " ++ Func.NAMES)
  | some func => do
    let _ ← bump env
    let _ ← bump env
    let args ← items env inner.or fun _ => none
    expect env .rparen "')' closing the call"
    if args.length ≠ func.arity then
      errorHere env (name ++ "() takes ".toList ++ Nat.toDigits 10 func.arity ++ " argument".toList ++
        (if func.arity = 1 then [] else "s".toList) ++ " here".toList)
    else node env (.call func args)

def atom (inner : Levels) : Parse Expr := do
  let start ← get
  let tok ← bump env
  match tok with
  | .number value => node env (.number value)
  | .str value => node env (.text value)
  | .kw .true => node env (.bool true)
  | .kw .false => node env (.bool false)
  | .kw .null => do
    seek start.cursor
    errorHere env "NULL is only allowed in IS [NOT] NULL".toList
  | .kw .interval => interval env
  | .lparen => do
    let e ← inner.or
    expect env .rparen "')'".toList
    pure e
  | .ident name => do
    let behind ← peek env
    if behind = .lparen then do
      seek start.cursor
      call env inner name
    else if name.any Char.isUpper = true then do
      seek start.cursor
      errorHere env ("field names are lowercase: '".toList ++ name ++ "'".toList)
    else node env (.field name)
  | other => do
    seek start.cursor
    errorHere env ("expected a field, literal or function, found ".toList ++ other.describe)

/-! ## Precedence levels -/

def unary (inner : Levels) : Parse Expr := do
  let tok ← peek env
  match tok with
  | .minus => do
    let _ ← bump env
    let e ← inner.unary
    node env (.neg e)
  | .op .add => errorHere env "unary '+' is not allowed"
  | _ => atom env inner

def multiplicative (inner : Levels) : Parse Expr :=
  leftChain env (fun tok => if tok = .op .mul then some .mul else none) (unary env inner)

def additive (inner : Levels) : Parse Expr :=
  leftChain env
    (fun tok => if tok = .op .add then some .add else if tok = .minus then some .sub else none)
    (multiplicative env inner)

def other (inner : Levels) : Parse Expr :=
  leftChain env (fun tok => if tok = .op .match then some .match else none) (additive env inner)

def tooManyItems (list : List Expr) : Option Text :=
  if list.length > env.limits.items then
    some ("IN lists are limited to " ++ Nat.toDigits 10 env.limits.items ++ " items")
  else none

/-- Whether `NOT` comes next, as the first word of `NOT BETWEEN` or `NOT IN`. -/
def rangeNot : Parse Bool := do
  let tok ← peek env
  if tok = .kw .not then do
    let second ← peek2 env
    pure (second = .kw .between || second = .kw .in)
  else pure false

/-- What follows the first operand, behind the optional `NOT`. -/
def rangeTail (inner : Levels) (e : Expr) (negated : Bool) : Parse Expr := do
  let tok ← peek env
  match tok with
  | .kw .between => do
    let _ ← bump env
    let lo ← other env inner
    expect env (.kw .and) "AND in BETWEEN"
    let hi ← other env inner
    node env (.between e lo hi negated)
  | .kw .in => do
    let _ ← bump env
    expect env .lparen "'(' after IN"
    let list ← items env (other env inner) (tooManyItems env)
    expect env .rparen "')' closing the IN list"
    node env (.inList e list negated)
  | _ => pure e

def range (inner : Levels) : Parse Expr := do
  let e ← other env inner
  let negated ← rangeNot env
  if negated then do
    let _ ← bump env
    rangeTail env inner e true
  else rangeTail env inner e false

def comparison (inner : Levels) : Parse Expr := do
  let l ← range env inner
  let tok ← peek env
  match tok with
  | .op op =>
    if op.isComparison then do
      let _ ← bump env
      let r ← range env inner
      binary env op l r
    else pure l
  | _ => pure l

/-- `while` an `IS` follows, wrap the test around `e`. -/
def isLoop : Nat → Expr → Parse Expr
  | 0, _ => fun _ => .error .endless
  | rounds + 1, e => do
    let tok ← peek env
    if tok = .kw .is then do
      let _ ← bump env
      let found ← peek env
      if found = .kw .not then do
        let _ ← bump env
        expect env (.kw .null) "NULL (only IS [NOT] NULL is supported)"
        let e ← node env (.isNull e true)
        isLoop rounds e
      else do
        expect env (.kw .null) "NULL (only IS [NOT] NULL is supported)"
        let e ← node env (.isNull e false)
        isLoop rounds e
    else pure e

def is (inner : Levels) : Parse Expr := do
  let e ← comparison env inner
  isLoop env env.tokens.length e

def not (inner : Levels) : Parse Expr := do
  let tok ← peek env
  if tok = .kw .not then do
    let _ ← bump env
    let e ← inner.not
    node env (.not e)
  else is env inner

def and (inner : Levels) : Parse Expr :=
  leftChain env (fun tok => if tok = .kw .and then some .and else none) (not env inner)

def or (inner : Levels) : Parse Expr :=
  leftChain env (fun tok => if tok = .kw .or then some .or else none) (and env inner)

/-- The levels below `room` further calls of `nested`. -/
def levels : Nat → Levels
  | 0 => ⟨tooDeep env, tooDeep env, tooDeep env⟩
  | room + 1 => ⟨or env (levels room), not env (levels room), unary env (levels room)⟩

/-! ## Whole rules -/

def rule : Parse Expr := do
  let first ← peek env
  if first = .eof then errorHere env "the rule is empty"
  else do
    let expr ← or env (levels env env.limits.depth)
    let last ← peek env
    match last with
    | .eof => pure expr
    | .op op =>
      if op.isComparison then
        errorHere env "comparisons do not chain; add parentheses, as PostgreSQL requires"
      else errorHere env ("unexpected " ++ last.describe)
    | .kw .is => errorHere env "add parentheses around the IS test"
    | _ => errorHere env ("unexpected " ++ last.describe)

def parseWithin (limits : Limits) (src : Text) : Except Stop Expr :=
  if byteLength src > MAX_SOURCE_BYTES then
    .error (.refused (errorAt src 0
      ("rules are limited to " ++ Nat.toDigits 10 MAX_SOURCE_BYTES ++ " bytes")))
  else (rule ⟨src, tokens src, limits⟩ ⟨0, 0⟩).map Prod.fst

def parse (src : Text) : Except Stop Expr := parseWithin declaredLimits src

end RootCx.Rules.Parser
