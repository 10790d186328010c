import RootCx.Rules.Ast

/-! # The lexer of the rule language

The first half of `rules/parser.rs`.  The source scans bytes and cuts its text
at byte offsets; here it scans characters, and a position is the number of
characters before it.  Every cut of the source is next to an ASCII byte or at
the end of a character it has just read, so the two see the same pieces.
-/

namespace RootCx.Rules.Parser

open RootCx.Text

def MAX_SOURCE_BYTES : Nat := 2048
def MAX_DEPTH : Nat := 24
def MAX_NODES : Nat := 256
def MAX_IN_ITEMS : Nat := 100
def MAX_STRING_BYTES : Nat := 256

/-- A refusal with its line and column, both counted from one. -/
structure SyntaxError where
  line : Nat
  column : Nat
  message : Text
  deriving DecidableEq, Repr

inductive Kw where
  | and
  | or
  | not
  | is
  | null
  | true
  | false
  | between
  | in
  | interval
  deriving DecidableEq, Repr

inductive Tok where
  | ident (name : Text)
  | kw (key : Kw)
  | number (text : Text)
  | str (value : Text)
  | op (operator : BinOp)
  | minus
  | lparen
  | rparen
  | comma
  | eof
  -- a lexing error, reported when the parser reaches it
  | bad (error : SyntaxError)
  deriving DecidableEq, Repr

def Kw.upper : Kw → Text
  | .and => "AND"
  | .or => "OR"
  | .not => "NOT"
  | .is => "IS"
  | .null => "NULL"
  | .true => "TRUE"
  | .false => "FALSE"
  | .between => "BETWEEN"
  | .in => "IN"
  | .interval => "INTERVAL"

def Tok.describe : Tok → Text
  | .ident name => "'" ++ name ++ "'"
  | .kw key => key.upper
  | .number text => text
  | .str _ => "a string"
  | .op operator => "'" ++ operator.sql ++ "'"
  | .minus => "'-'"
  | .lparen => "'('"
  | .rparen => "')'"
  | .comma => "','"
  | .eof => "end of rule"
  | .bad error => error.message

/-- The last token of a rule, which `bump` never passes. -/
def Tok.isLast : Tok → Bool
  | .eof | .bad _ => true
  | _ => false

def OP_CHARS : Text := "+-*/<>=~!@#%^&|`?"

def keyword (word : Text) : Option Kw :=
  let lower := word.map Char.toLower
  [Kw.and, .or, .not, .is, .null, .true, .false, .between, .in, .interval].find? fun kw =>
    kw.upper.map Char.toLower == lower

def RESERVED : List Text :=
  ["all", "any", "array", "asymmetric", "both", "case", "cast", "collate", "current_date",
    "current_role", "current_time", "current_timestamp", "current_user", "distinct", "else",
    "end", "exists", "extract", "from", "ilike", "isnull", "leading", "like", "localtime",
    "localtimestamp", "notnull", "overlaps", "row", "select", "session_user", "similar", "some",
    "symmetric", "then", "trailing", "unknown", "user", "values", "when", "where"].map String.toList

/-! ## Positions -/

/-- `Lexer::error`: the line and column of position `at`. -/
def errorAt (src : Text) (at_ : Nat) (message : Text) : SyntaxError :=
  let before := src.take at_
  { line := before.count '\n' + 1
    column := (before.reverse.takeWhile (· != '\n')).length + 1
    message := message }

/-- The position at which `rest`, a tail of `src`, starts. -/
def position (src rest : Text) : Nat := src.length - rest.length

/-! ## One token -/

/-- `Lexer::string`, behind the opening quote. -/
def stringLoop (src : Text) (start : Nat) : Text → Except SyntaxError (Text × Text)
  | [] => .error (errorAt src start "unterminated string literal")
  | '\'' :: '\'' :: rest => (stringLoop src start rest).map fun (value, after) => ('\'' :: value, after)
  | '\'' :: rest => .ok ([], rest)
  | c :: rest =>
    if c == '\x00' then
      .error (errorAt src (position src (c :: rest)) "NUL is not allowed in a string literal")
    else (stringLoop src start rest).map fun (value, after) => (c :: value, after)

def string (src : Text) (start : Nat) (behind : Text) : Except SyntaxError (Tok × Text) := do
  let (value, after) ← stringLoop src start behind
  if byteLength value > MAX_STRING_BYTES then
    throw (errorAt src start
      ("string literals are limited to " ++ Nat.toDigits 10 MAX_STRING_BYTES ++ " bytes"))
  return (.str value, after)

def numberFormat : Text :=
  "write numbers as digits with an optional fraction, like 12 or 0.5"

def isWordChar (c : Char) : Bool := c.isAlphanum || c == '_'

/-- The digits of a number and the text behind them; `none` for a point with no
    digits behind it. -/
def numberDigits (rest : Text) : Option (Text × Text) :=
  let whole := rest.takeWhile Char.isDigit
  match rest.dropWhile Char.isDigit with
  | '.' :: behind =>
    let fraction := behind.takeWhile Char.isDigit
    if fraction.isEmpty then none
    else some (whole ++ '.' :: fraction, behind.dropWhile Char.isDigit)
  | behind => some (whole, behind)

def number (src : Text) (start : Nat) (rest : Text) : Except SyntaxError (Tok × Text) :=
  match numberDigits rest with
  | none => .error (errorAt src start numberFormat)
  | some (digits, after) =>
    if after.head?.any fun c => isWordChar c || c == '.' then .error (errorAt src start numberFormat)
    else if digits.length > 40 then
      .error (errorAt src start "numeric literals are limited to 40 characters")
    else .ok (.number digits, after)

def prefixedString : Text := "prefixed string literals are not allowed"

def word (src : Text) (start : Nat) (rest : Text) : Except SyntaxError (Tok × Text) :=
  let name := rest.takeWhile isWordChar
  let after := rest.dropWhile isWordChar
  if after.head? = some '$' then
    .error (errorAt src (position src after) "'$' is not allowed in names")
  else
    match keyword name with
    | some kw =>
      if after.head? = some '\'' ∧ kw ≠ .interval then .error (errorAt src start prefixedString)
      else .ok (.kw kw, after)
    | none =>
      if after.head? = some '\'' then .error (errorAt src start prefixedString)
      else if name.map Char.toLower ∈ RESERVED then
        .error (errorAt src start ("'" ++ name ++ "' is not part of the rule language"))
      else .ok (.ident name, after)

/-- The operator of a run, without the signs that end it.  PostgreSQL leaves
    them off only when the run has none of these special characters. -/
def operatorPart (run : Text) : Text :=
  if run.any fun c => "~!@#^&|`?%".toList.contains c then run
  else
    match run with
    | [] => []
    | first :: more => first :: (more.reverse.dropWhile fun c => c == '+' || c == '-').reverse

def operatorTok (text : Text) : Option Tok :=
  if text = "=" then some (.op .eq)
  else if text = "<>" ∨ text = "!=" then some (.op .ne)
  else if text = "<" then some (.op .lt)
  else if text = "<=" then some (.op .le)
  else if text = ">" then some (.op .gt)
  else if text = ">=" then some (.op .ge)
  else if text = "~" then some (.op .match)
  else if text = "+" then some (.op .add)
  else if text = "-" then some .minus
  else if text = "*" then some (.op .mul)
  else none

def operator (src : Text) (start : Nat) (rest : Text) : Except SyntaxError (Tok × Text) :=
  let run := rest.takeWhile (OP_CHARS.contains ·)
  if run.tails.any fun tail => "--".toList.isPrefixOf tail || "/*".toList.isPrefixOf tail then
    .error (errorAt src start "comments are not allowed")
  else
    let part := operatorPart run
    match operatorTok part with
    | some tok => .ok (tok, rest.drop part.length)
    | none =>
      .error (errorAt src start ("operator '" ++ part ++
        "' is not allowed; allowed: = <> != < <= > >= + - * ~"))

def isSpace (c : Char) : Bool := c == ' ' || c == '\t' || c == '\n' || c == '\r'

/-- The token that starts at `c`, which is not a space. -/
def scanFrom (src : Text) (start : Nat) (c : Char) (after : Text) : Except SyntaxError (Tok × Text) :=
  let refuse (message : String) := .error (errorAt src start message.toList)
  let notAllowed := .error (errorAt src start ("'" ++ c :: "' is not allowed"))
  if !isAscii c then refuse "only ASCII is allowed outside string literals"
  else if c == '(' then .ok (.lparen, after)
  else if c == ')' then .ok (.rparen, after)
  else if c == ',' then .ok (.comma, after)
  else if c == '\'' then string src start after
  else if c == '"' then refuse "quoted identifiers are not allowed; use the field name"
  else if c == '$' then refuse "'$' is not allowed (no parameters or dollar quoting)"
  else if c == ':' then refuse "casts are not allowed; Core types literals itself"
  else if c == '.' then refuse "qualified names and '.' are not allowed"
  else if c.isDigit then number src start (c :: after)
  else if c.isAlpha || c == '_' then word src start (c :: after)
  else if OP_CHARS.contains c then operator src start (c :: after)
  -- `;`, brackets, braces and the backslash, like every other character
  else notAllowed

/-- `Lexer::next`: the token, its position and the text behind it. -/
def next (src rest : Text) : Except SyntaxError (Tok × Nat × Text) :=
  match rest.dropWhile isSpace with
  | [] => .ok (.eof, src.length, [])
  | c :: after => do
    let start := position src (c :: after)
    let (tok, behind) ← scanFrom src start c after
    return (tok, start, behind)

/-! ## All tokens -/

/-- The loop of `Lexer::tokens`.  Every token but the last takes a character, so
    the rounds never run out. -/
def tokensLoop (src : Text) : Nat → Text → List (Tok × Nat)
  | 0, _ => []
  | rounds + 1, rest =>
    match next src rest with
    | .error error => [(.bad error, src.length)]
    | .ok (tok, start, behind) =>
      if tok.isLast then [(tok, start)] else (tok, start) :: tokensLoop src rounds behind

def tokens (src : Text) : List (Tok × Nat) := tokensLoop src (src.length + 1) src

end RootCx.Rules.Parser
