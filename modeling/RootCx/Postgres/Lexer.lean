import Mathlib
import RootCx.Lib.Text

/-! # The lexical rules of PostgreSQL

The scanner of the server (`scan.l`, with `standard_conforming_strings` on), as
far as the statements and constraints of Core reach it: white space, both kinds
of comment, quoted identifiers, string literals with their continuation lines,
numbers, parameters, operators and words.  Prefixed strings, dollar quotes and
numbers in other notations are outside: the scanner answers `none` on them, as it
does on text the server refuses.

Noise is skipped by one pass over the text with a mode, so that every function
here is structurally recursive and evaluates.
-/

namespace RootCx.Postgres

open RootCx.Text

/-! ## Character classes -/

def isNewline (c : Char) : Bool := c == '\n' || c == '\r'

/-- `space` of `scan.l`, the vertical tab included. -/
def isSpace (c : Char) : Bool :=
  c == ' ' || c == '\t' || c == '\n' || c == '\r' || c == '\x0b' || c == '\x0c'

/-- `ident_start`: every byte above 127 may start a name. -/
def isIdentStart (c : Char) : Bool := c.isAlpha || c == '_' || !isAscii c

def isIdentCont (c : Char) : Bool := isIdentStart c || c.isDigit || c == '$'

def isOpChar (c : Char) : Bool := c ∈ "~!@#^&|`?+-*/%<>=".toList

/-! ## White space and comments -/

/-- Where the scanner stands while it looks for the next token. -/
inductive Noise where
  | plain
  | line
  -- the number of comments around the innermost open one
  | block (depth : Nat)

/-- The text from the next token on; `none` inside an unterminated comment. -/
def skipNoise : Noise → Text → Option Text
  | .plain, [] => some []
  | .plain, '-' :: '-' :: rest => skipNoise .line rest
  | .plain, '/' :: '*' :: rest => skipNoise (.block 0) rest
  | .plain, c :: rest => if isSpace c then skipNoise .plain rest else some (c :: rest)
  | .line, [] => some []
  | .line, c :: rest => if isNewline c then skipNoise .plain rest else skipNoise .line rest
  | .block _, [] => none
  | .block depth, '/' :: '*' :: rest => skipNoise (.block (depth + 1)) rest
  | .block 0, '*' :: '/' :: rest => skipNoise .plain rest
  | .block (depth + 1), '*' :: '/' :: rest => skipNoise (.block depth) rest
  | .block depth, _ :: rest => skipNoise (.block depth) rest

variable {c : Char} {rest name after text : Text}

theorem skipNoise_space (space : isSpace c = true) :
    skipNoise .plain (c :: rest) = skipNoise .plain rest := by
  have dash : c ≠ '-' := by rintro rfl; revert space; decide
  have slash : c ≠ '/' := by rintro rfl; revert space; decide
  simp [skipNoise, dash, slash, space]

theorem skipNoise_stop (space : isSpace c = false) (line : ¬(c = '-' ∧ rest.head? = some '-'))
    (block : ¬(c = '/' ∧ rest.head? = some '*')) : skipNoise .plain (c :: rest) = some (c :: rest) := by
  rw [skipNoise, space]
  · rfl
  · exact fun tail dash equal => line ⟨dash, by rw [equal]; rfl⟩
  · exact fun tail slash equal => block ⟨slash, by rw [equal]; rfl⟩

theorem isSpace_eq_false {class_ : Char → Bool} (mem : class_ c = true)
    (spaces : ∀ d ∈ [' ', '\t', '\n', '\r', '\x0b', '\x0c'], class_ d = false) : isSpace c = false := by
  rw [Bool.eq_false_iff]
  intro space
  have listed : c ∈ [' ', '\t', '\n', '\r', '\x0b', '\x0c'] := by
    simpa [isSpace, or_assoc] using space
  rw [spaces c listed] at mem
  cases mem

theorem isSpace_of_isIdentStart (start : isIdentStart c = true) : isSpace c = false :=
  isSpace_eq_false start (forall_mem_of_all rfl)

theorem skipNoise_of_isIdentStart (start : isIdentStart c = true) :
    skipNoise .plain (c :: rest) = some (c :: rest) := by
  apply skipNoise_stop (isSpace_of_isIdentStart start)
  · rintro ⟨rfl, -⟩
    exact absurd start (by decide)
  · rintro ⟨rfl, -⟩
    exact absurd start (by decide)

/-! ## Tokens -/

inductive Token where
  -- an unquoted name or keyword, folded to lower case
  | word (name : Text)
  | quoted (name : Text)
  | str (value : Text)
  | num (text : Text)
  | param (index : Text)
  -- operators and punctuation, by their spelling
  | sym (text : Text)
  deriving DecidableEq, Repr

/-- `NAMEDATALEN - 1`, the bytes of a name the server keeps. -/
def MAX_IDENT_BYTES : Nat := 63

def truncateIdent (name : Text) : Text := clip MAX_IDENT_BYTES name

/-- The rest of a quoted identifier, after its opening quote. -/
def scanQuoted : Text → Option (Text × Text)
  | [] => none
  | '"' :: '"' :: rest => (scanQuoted rest).map fun (value, after) => ('"' :: value, after)
  | '"' :: rest => some ([], rest)
  | c :: rest => (scanQuoted rest).map fun (value, after) => (c :: value, after)

/-- Inside a string literal, or behind a quote that may have ended it: `resume`
    is the text behind that quote. -/
inductive StringMode where
  | inside
  | between (resume : Text) (newline comment : Bool)

/-- The rest of a string literal, after its opening quote.  A literal goes on
    behind its closing quote when white space with a newline in it, possibly with
    line comments, leads to another quote. -/
def scanString : StringMode → Text → Option (Text × Text)
  | .inside, [] => none
  | .inside, '\'' :: '\'' :: rest =>
    (scanString .inside rest).map fun (value, after) => ('\'' :: value, after)
  | .inside, '\'' :: rest => scanString (.between rest false false) rest
  | .inside, c :: rest => (scanString .inside rest).map fun (value, after) => (c :: value, after)
  | .between resume _ _, [] => some ([], resume)
  | .between resume newline true, c :: rest =>
    scanString (.between resume (newline || isNewline c) (!isNewline c)) rest
  | .between resume newline false, c :: rest =>
    if c == '\'' && newline then scanString .inside rest
    else if isSpace c then scanString (.between resume (newline || isNewline c) false) rest
    else if c == '-' && rest.head? == some '-' then scanString (.between resume newline true) rest
    else some ([], resume)

/-- A number or parameter directly followed by a name is refused as junk. -/
def noJunk (token : Token) (rest : Text) : Option (Token × Text) :=
  if rest.head?.any isIdentStart then none else some (token, rest)

def scanNumber (text : Text) : Option (Token × Text) :=
  let whole := text.takeWhile Char.isDigit
  match text.dropWhile Char.isDigit with
  | '.' :: '.' :: rest => some (.num whole, '.' :: '.' :: rest)
  | '.' :: rest =>
    noJunk (.num (whole ++ '.' :: rest.takeWhile Char.isDigit)) (rest.dropWhile Char.isDigit)
  | rest => noJunk (.num whole) rest

/-- A letter directly before a quote starts a literal of another kind. -/
def isPrefixed (name rest : Text) : Bool :=
  (name ∈ ["b".toList, "x".toList, "n".toList, "e".toList] && rest.head? == some '\'') ||
    (name == "u" && ("&'".toList.isPrefixOf rest || "&\"".toList.isPrefixOf rest))

def scanWord (text : Text) : Option (Token × Text) :=
  let name := (text.takeWhile isIdentCont).map Char.toLower
  let rest := text.dropWhile isIdentCont
  if isPrefixed name rest then none else some (.word (truncateIdent name), rest)

/-- An operator ends before a comment. -/
def cutComment : Text → Text
  | '-' :: '-' :: _ => []
  | '/' :: '*' :: _ => []
  | c :: rest => c :: cutComment rest
  | [] => []

/-- `+` and `-` do not end an operator of several characters, unless it holds a
    character no SQL operator has. -/
def trimSigns : Text → Text
  | [] => []
  | first :: more =>
    if ((first :: more).dropLast.any (· ∈ "~!@#^&|`?%".toList)) then first :: more
    else first :: more.rdropWhile (fun c => c == '+' || c == '-')

def scanOperator (text : Text) : Option (Token × Text) :=
  match trimSigns (cutComment (text.takeWhile isOpChar)) with
  | [] => none
  | operator => some (.sym operator, text.drop operator.length)

/-- The token at the front of a text that starts with neither space nor comment. -/
def scan : Text → Option (Token × Text)
  | [] => none
  | c :: rest =>
    if c == '"' then
      match scanQuoted rest with
      | some ([], _) | none => none
      | some (name, after) => some (.quoted (truncateIdent name), after)
    else if c == '\'' then
      (scanString .inside rest).map fun (value, after) => (.str value, after)
    else if c == '$' then
      match rest.takeWhile Char.isDigit with
      | [] => none
      | index => noJunk (.param index) (rest.dropWhile Char.isDigit)
    else if c.isDigit || (c == '.' && rest.head?.any Char.isDigit) then scanNumber (c :: rest)
    else if isIdentStart c then scanWord (c :: rest)
    else if isOpChar c then scanOperator (c :: rest)
    else match c, rest with
      | ':', ':' :: after => some (.sym "::", after)
      | ':', '=' :: after => some (.sym ":=", after)
      | '.', '.' :: after => some (.sym "..", after)
      | c, rest => some (.sym [c], rest)

theorem isPrefixed_eq_false (other : name ∉ ["b".toList, "x".toList, "n".toList, "e".toList, "u".toList]) :
    isPrefixed name rest = false := by
  rw [Bool.eq_false_iff]
  intro marked
  simp only [isPrefixed, Bool.or_eq_true, Bool.and_eq_true, decide_eq_true_eq, beq_iff_eq] at marked
  obtain ⟨letter, -⟩ | ⟨rfl, -⟩ := marked
  · exact other (List.mem_append_left ["u".toList] letter)
  · exact other (by simp)

theorem isDigit_of_isIdentStart (start : isIdentStart c = true) : c.isDigit = false := by
  cases ascii : isAscii c with
  | true =>
    exact ascii_cases (P := fun c => isIdentStart c = true → c.isDigit = false) (by decide) ascii
      start
  | false => exact isDigit_of_not_ascii ascii

theorem scan_of_isIdentStart (start : isIdentStart c = true) : scan (c :: rest) = scanWord (c :: rest) := by
  have digit := isDigit_of_isIdentStart start
  have quote : c ≠ '"' := by rintro rfl; revert start; decide
  have apostrophe : c ≠ '\'' := by rintro rfl; revert start; decide
  have dollar : c ≠ '$' := by rintro rfl; revert start; decide
  have dot : c ≠ '.' := by rintro rfl; revert start; decide
  simp [scan, quote, apostrophe, dollar, dot, digit, start]

theorem scan_quote (scanned : scanQuoted rest = some (name, after)) (nonempty : name ≠ []) :
    scan ('"' :: rest) = some (.quoted (truncateIdent name), after) := by
  show (match scanQuoted rest with
    | some ([], _) | none => none
    | some (name, after) => some (Token.quoted (truncateIdent name), after)) = _
  rw [scanned]
  cases name with
  | nil => exact absurd rfl nonempty
  | cons c name => rfl

theorem scan_apostrophe (rest : Text) :
    scan ('\'' :: rest) = (scanString .inside rest).map fun (value, after) => (.str value, after) :=
  rfl

theorem scan_dollar {index : Text} (taken : rest.takeWhile Char.isDigit = index)
    (dropped : rest.dropWhile Char.isDigit = after) (nonempty : index ≠ []) :
    scan ('$' :: rest) = noJunk (.param index) after := by
  show (match rest.takeWhile Char.isDigit with
    | [] => none
    | index => noJunk (.param index) (rest.dropWhile Char.isDigit)) = _
  rw [taken, dropped]
  cases index with
  | nil => exact absurd rfl nonempty
  | cons c index => rfl

theorem scan_of_isDigit (digit : c.isDigit = true) : scan (c :: rest) = scanNumber (c :: rest) := by
  have quote : c ≠ '"' := by rintro rfl; revert digit; decide
  have apostrophe : c ≠ '\'' := by rintro rfl; revert digit; decide
  have dollar : c ≠ '$' := by rintro rfl; revert digit; decide
  simp [scan, quote, apostrophe, dollar, digit]

theorem scan_of_isOpChar (op : isOpChar c = true) : scan (c :: rest) = scanOperator (c :: rest) := by
  have mem : c ∈ "~!@#^&|`?+-*/%<>=".toList := by simpa [isOpChar] using op
  have classes : ∀ d ∈ "~!@#^&|`?+-*/%<>=".toList, d ≠ '"' ∧ d ≠ '\'' ∧ d ≠ '$' ∧ d ≠ '.' ∧
      d.isDigit = false ∧ isIdentStart d = false := forall_mem_of_all rfl
  obtain ⟨quote, apostrophe, dollar, dot, digit, start⟩ := classes c mem
  simp [scan, quote, apostrophe, dollar, dot, digit, start, op]

/-- The first significant token of a statement. -/
def firstToken (text : Text) : Option Token :=
  (skipNoise .plain text).bind fun rest => (scan rest).map Prod.fst

/-- All tokens of a text, with at most `fuel` of them. -/
def lexLoop : Nat → Text → Option (List Token)
  | 0, _ => none
  | fuel + 1, text =>
    match skipNoise .plain text with
    | none => none
    | some [] => some []
    | some rest =>
      match scan rest with
      | none => none
      | some (token, after) => (lexLoop fuel after).map (token :: ·)

/-- The server reads a text up to its first NUL and takes none with one inside. -/
def lex (text : Text) : Option (List Token) :=
  if '\x00' ∈ text then none else lexLoop (text.length + 1) text

end RootCx.Postgres
