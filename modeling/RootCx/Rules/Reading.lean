import RootCx.Lib.Except
import RootCx.Rules.Emit

/-! # Reading emitted SQL back

A reader for fully parenthesised SQL: every compound form stands in parentheses,
so that no precedence is needed and one token decides how a form goes on.  Read
by PostgreSQL's lexical rules, the text of a resolved tree gives exactly that
tree back, and two resolved trees never have the same text.
-/

namespace RootCx.Rules

open RootCx.Text RootCx.Postgres

/-! ## The reader -/

def kw (name : String) : Token := .word name.toList

def sym (text : String) : Token := .sym text.toList

/-- The tokens behind `front`, when the tokens start with it. -/
def expect : List Token → List Token → Option (List Token)
  | [], rest => some rest
  | token :: front, head :: rest => if head = token then expect front rest else none
  | _ :: _, [] => none

/-- `::pg_catalog.ty` -/
def readCast (tokens : List Token) : Option (Text × List Token) :=
  match expect [sym "::", kw "pg_catalog", sym "."] tokens with
  | some (.word ty :: rest) => some (ty, rest)
  | _ => none

def unitOf (text : Text) : Option IntervalUnit :=
  [IntervalUnit.days, .hours, .minutes, .seconds].find? fun unit => unit.asStr == text

def readInterval (value : Text) : Option Expr :=
  match value.dropWhile Char.isDigit with
  | ' ' :: unit =>
    (unitOf unit).map (.interval (Nat.ofDigitChars 10 (value.takeWhile Char.isDigit) 0))
  | _ => none

def literalOf (ty value : Text) : Option Expr :=
  if ty = "interval" then readInterval value
  else ([LiteralType.date, .timestamp, .uuid].find? fun t => t.sqlName == ty).map (.typed · value)

/-- A string, with the cast that may follow it. -/
def readLiteral (value : Text) (tokens : List Token) : Option (Expr × List Token) :=
  match readCast tokens with
  | none => some (.text value, tokens)
  | some (ty, rest) => (literalOf ty value).map (·, rest)

abbrev Reader := List Token → Option (Expr × List Token)

/-- Items separated by commas, `fuel` of them at most. -/
def readItems (read : Reader) : Nat → List Token → Option (List Expr × List Token)
  | 0, _ => none
  | fuel + 1, tokens => do
    let (item, rest) ← read tokens
    match expect [sym ","] rest with
    | none => some ([item], rest)
    | some rest =>
      let (items, rest) ← readItems read fuel rest
      some (item :: items, rest)

def readList (read : Reader) (tokens : List Token) : Option (List Expr × List Token) := do
  let rest ← expect [sym "("] tokens
  let (items, rest) ← readItems read rest.length rest
  let rest ← expect [sym ")"] rest
  some (items, rest)

def readArgs (read : Reader) (func : Func) (tokens : List Token) : Option (Expr × List Token) := do
  let (args, rest) ← readList read tokens
  if args.length = func.arity then some (.call func args, rest) else none

def functionOf (name : Text) : Option Func :=
  [Func.length, .btrim, .upper, .lower, .scale, .trunc, .abs, .jsonbTypeof].find? fun func =>
    func.sqlName == name

def readFunction (read : Reader) (tokens : List Token) : Option (Expr × List Token) := do
  match ← expect [sym "."] tokens with
  | .word name :: rest => readArgs read (← functionOf name) rest
  | _ => none

def readClose (expr : Expr) (tokens : List Token) : Option (Expr × List Token) :=
  (expect [sym ")"] tokens).map (expr, ·)

/-- The tokens that were read, when `rest` is left of `tokens`. -/
def consumed (tokens rest : List Token) : List Token := tokens.take (tokens.length - rest.length)

/-- The guarded length of a JSON array; its argument stands there twice. -/
def readCase (read : Reader) (tokens : List Token) : Option (Expr × List Token) := do
  let tokens ← expect [kw "when", kw "pg_catalog", sym ".", kw "jsonb_typeof", sym "("] tokens
  let (arg, after) ← read tokens
  let rest ← expect [sym ")", sym "=", .str "array", kw "then", kw "pg_catalog", sym ".",
    kw "jsonb_array_length", sym "("] after
  let rest ← expect (consumed tokens after) rest
  let rest ← expect [sym ")", kw "end"] rest
  readClose (.call .jsonbArrayLength [arg]) rest

def readNull (e : Expr) (tokens : List Token) : Option (Expr × List Token) :=
  match expect [kw "not", kw "null"] tokens with
  | some rest => readClose (.isNull e true) rest
  | none => (expect [kw "null"] tokens).bind (readClose (.isNull e false))

def readRange (read : Reader) (e : Expr) (negated : Bool) (tokens : List Token) :
    Option (Expr × List Token) :=
  match expect [kw "between"] tokens with
  | some rest => do
    let (lo, rest) ← read rest
    let rest ← expect [kw "and"] rest
    let (hi, rest) ← read rest
    readClose (.between e lo hi negated) rest
  | none => do
    let rest ← expect [kw "in"] tokens
    let (list, rest) ← readList read rest
    readClose (.inList e list negated) rest

def readStrings : Nat → List Token → Option (List Text × List Token)
  | 0, _ => none
  | fuel + 1, .str value :: rest =>
    match expect [sym ","] rest with
    | none => some ([value], rest)
    | some rest => (readStrings fuel rest).map fun (values, rest) => (value :: values, rest)
  | _ + 1, rest => some ([], rest)

def readWithin (e : Expr) (tokens : List Token) : Option (Expr × List Token) :=
  match e with
  | .field name => do
    let rest ← expect [kw "array", sym "["] tokens
    let (values, rest) ← readStrings rest.length rest
    let rest ← expect [sym "]", sym "::", kw "pg_catalog", sym ".", kw "text", sym "[", sym "]"] rest
    readClose (.arrayWithin name values) rest
  | _ => none

/-- `< 'Infinity'` with a cast to a number type. -/
def readInfinity (tokens : List Token) : Option (Bool × List Token) := do
  let rest ← expect [sym "<", .str "Infinity"] tokens
  let (ty, rest) ← readCast rest
  if ty = numericName true then some (true, rest)
  else if ty = numericName false then some (false, rest)
  else none

/-- The other bound of a finite number; `front` is its operand, which stands there twice. -/
def readFinite (e : Expr) (numeric : Bool) (front tokens : List Token) :
    Option (Expr × List Token) := do
  let rest ← expect (kw "and" :: front) tokens
  let rest ← expect [sym ">", .str "-Infinity", sym "::", kw "pg_catalog", sym ".",
    .word (numericName numeric)] rest
  readClose (.finite e numeric) rest

def operatorOf (token : Token) : Option BinOp :=
  [BinOp.or, .and, .eq, .ne, .lt, .le, .gt, .ge, .match, .add, .sub, .mul].find? fun op =>
    op.body.token == token

/-- What follows the first operand `e`, whose tokens are `front`. -/
def readTail (read : Reader) (e : Expr) (front : List Token) :
    List Token → Option (Expr × List Token)
  | [] => none
  | head :: rest =>
    if head = kw "is" then readNull e rest
    else if head = kw "not" then readRange read e true rest
    else if head = kw "between" ∨ head = kw "in" then readRange read e false (head :: rest)
    else if head = sym "<@" then readWithin e rest
    else
      match readInfinity (head :: rest) with
      | some (numeric, rest) => readFinite e numeric front rest
      | none => do
        let op ← operatorOf head
        let (r, rest) ← read rest
        readClose (.binary op e r) rest

def readGroup (read : Reader) (tokens : List Token) : Option (Expr × List Token) :=
  if tokens.head? = some (kw "not") then do
    let (e, rest) ← read tokens.tail
    readClose (.not e) rest
  else if tokens.head? = some (sym "-") then do
    let (e, rest) ← read tokens.tail
    readClose (.neg e) rest
  else if tokens.head? = some (kw "case") then readCase read tokens.tail
  else do
    let (e, rest) ← read tokens
    readTail read e (consumed tokens rest) rest

def readNode (read : Reader) : Reader
  | .quoted name :: rest => some (.field name, rest)
  | .num value :: rest => some (.number value, rest)
  | .str value :: rest => readLiteral value rest
  | head :: rest =>
    if head = kw "true" then some (.bool true, rest)
    else if head = kw "false" then some (.bool false, rest)
    else if head = kw "coalesce" then readArgs read .coalesce rest
    else if head = kw "pg_catalog" then readFunction read rest
    else if head = sym "(" then readGroup read rest
    else none
  | [] => none

/-- An expression of nesting depth `depth` at most. -/
def readExpr : Nat → Reader
  | 0, _ => none
  | depth + 1, tokens => readNode (readExpr depth) tokens

/-- A text that is one expression. -/
def readAll (tokens : List Token) : Option Expr :=
  match readExpr tokens.length tokens with
  | some (e, []) => some e
  | _ => none

/-! ## The tokens of a tree -/

def toks (e : Expr) : List Token := tokens (pieces false e)

@[simp] theorem tokens_cons (piece : Piece) (rest : List Piece) :
    tokens (piece :: rest) = piece.body.token :: tokens rest := rfl

theorem tokens_pieces (space : Bool) (e : Expr) : tokens (pieces space e) = toks e := by
  cases e with
  | call func args => cases func <;> rfl
  | _ => rfl

def itemToks : List Expr → List Token
  | [] => []
  | e :: rest => sym "," :: (toks e ++ itemToks rest)

variable (list : List Expr) (front : List Token) {rest : List Token} {read : Reader} {e : Expr} {func : Func}
  {negated : Bool}

theorem tokens_morePieces : tokens (morePieces list) = itemToks list := by
  induction list with
  | nil => rfl
  | cons e rest ih =>
    rw [morePieces, tokens_cons, tokens_append, tokens_pieces, ih]
    rfl

theorem tokens_listPieces (e : Expr) (rest : List Expr) :
    tokens (listPieces (e :: rest)) = toks e ++ itemToks rest := by
  rw [listPieces, tokens_append, tokens_pieces, tokens_morePieces]

/-! ## Reading back what was emitted -/

@[simp] theorem expect_nil (rest : List Token) : expect [] rest = some rest := rfl

@[simp] theorem expect_cons_self (token : Token) (front rest : List Token) :
    expect (token :: front) (token :: rest) = expect front rest := by
  simp [expect]

theorem expect_cons_ne {token head : Token} (other : head ≠ token) (front rest : List Token) :
    expect (token :: front) (head :: rest) = none := by
  simp [expect, other]

theorem expect_append (more rest : List Token) :
    expect (front ++ more) (front ++ rest) = expect more rest := by
  induction front with
  | nil => rfl
  | cons token front ih =>
    rw [List.cons_append, List.cons_append, expect_cons_self, ih]

theorem expect_none {token : Token} {front : List Token} (other : rest.head? ≠ some token) :
    expect (token :: front) rest = none := by
  cases rest with
  | nil => rfl
  | cons head rest => exact expect_cons_ne (fun equal => other (by rw [equal]; rfl)) front rest

@[simp] theorem consumed_append (rest : List Token) : consumed (front ++ rest) rest = front := by
  simp [consumed]

/-- The tokens of `e` are read as `e`, unless a cast follows them. -/
def Reads (e : Expr) : Prop :=
  ∀ depth rest, (toks e).length ≤ depth → rest.head? ≠ some (sym "::") →
    readExpr depth (toks e ++ rest) = some (e, rest)

@[simp] theorem readClose_self (expr : Expr) (rest : List Token) :
    readClose expr (sym ")" :: rest) = some (expr, rest) := rfl

theorem toks_start (e : Expr) :
    ∃ head rest, toks e = head :: rest ∧ head ∉ [kw "not", sym "-", kw "case"] := by
  cases e with
  | bool value => cases value <;> exact ⟨_, _, rfl, by decide⟩
  | call func args => cases func <;> exact ⟨_, _, rfl, by decide⟩
  | field _ | text _ | number _ => exact ⟨_, _, rfl, by simp [kw, sym, Body.token]⟩
  | typed _ _ | interval _ _ => exact ⟨_, _, rfl, by simp [kw, sym, Body.token]⟩
  | _ => exact ⟨_, _, rfl, by decide⟩

theorem toks_pos (e : Expr) : 0 < (toks e).length := by
  obtain ⟨head, rest, equal, -⟩ := toks_start e
  simp [equal]

theorem readGroup_operation {l : Expr} {tail : List Token} (operand : read (toks l ++ tail) = some (l, tail)) :
    readGroup read (toks l ++ tail) = readTail read l (toks l) tail := by
  obtain ⟨head, rest, equal, other⟩ := toks_start l
  simp only [List.mem_cons, List.not_mem_nil, or_false, not_or] at other
  have start : (toks l ++ tail).head? = some head := by simp [equal]
  rw [readGroup, start, if_neg (by simp [other.1]), if_neg (by simp [other.2.1]),
    if_neg (by simp [other.2.2]), operand]
  simp

theorem readExpr_operation {l : Expr} {depth : Nat} {tail : List Token} (reads : Reads l)
    (enough : (toks l).length ≤ depth) (noCast : tail.head? ≠ some (sym "::")) :
    readExpr (depth + 1) (sym "(" :: (toks l ++ tail)) =
      readTail (readExpr depth) l (toks l) tail := by
  rw [← readGroup_operation (reads depth tail enough noCast)]
  rfl

theorem readItems_toks {list : List Expr} {fuel : Nat}
    (items : ∀ item ∈ e :: list, ∀ rest, rest.head? ≠ some (sym "::") →
      read (toks item ++ rest) = some (item, rest)) (enough : list.length < fuel)
    (close : rest.head? = some (sym ")") ) :
    readItems read fuel (toks e ++ (itemToks list ++ rest)) = some (e :: list, rest) := by
  induction list generalizing e fuel with
  | nil =>
    obtain ⟨fuel, rfl⟩ : ∃ n, fuel = n + 1 := ⟨fuel - 1, by simp only [List.length_nil] at enough; omega⟩
    have first := items e (by simp) rest (by simp [close, sym])
    have noComma : expect [sym ","] rest = none := expect_none (by simp [close, sym])
    simp [readItems, itemToks, first, noComma]
  | cons next list ih =>
    simp only [List.length_cons] at enough
    obtain ⟨fuel, rfl⟩ : ∃ n, fuel = n + 1 := ⟨fuel - 1, by omega⟩
    have first := items e (by simp) (itemToks (next :: list) ++ rest) (by simp [itemToks, sym])
    have others := ih (e := next)
      (fun item mem => items item (List.mem_cons_of_mem _ mem))
      (by omega : list.length < fuel)
    rw [readItems, first]
    simp only [Option.bind_eq_bind, Option.bind_some, itemToks, List.cons_append, List.append_assoc,
      expect_cons_self, expect_nil, others]

theorem length_itemToks : list.length ≤ (itemToks list).length := by
  induction list with
  | nil => exact Nat.le_refl 0
  | cons e list ih =>
    rw [itemToks, List.length_cons, List.length_cons, List.length_append]
    omega

theorem length_toks_le {item : Expr} {list : List Expr} (mem : item ∈ list) :
    (toks item).length ≤ (itemToks list).length := by
  induction list with
  | nil => cases mem
  | cons e list ih =>
    rw [itemToks, List.length_cons, List.length_append]
    obtain rfl | later := List.mem_cons.mp mem
    · omega
    · have shorter := ih later
      omega

theorem readList_toks {e : Expr} {list : List Expr} {depth : Nat} {rest : List Token}
    (items : ∀ item ∈ e :: list, Reads item)
    (enough : (toks e ++ itemToks list).length ≤ depth) :
    readList (readExpr depth) (sym "(" :: (toks e ++ (itemToks list ++ sym ")" :: rest))) =
      some (e :: list, rest) := by
  have inside : ∀ item ∈ e :: list, ∀ rest, rest.head? ≠ some (sym "::") →
      readExpr depth (toks item ++ rest) = some (item, rest) := by
    intro item mem rest noCast
    refine items item mem depth rest ?_ noCast
    rw [List.length_append] at enough
    obtain rfl | later := List.mem_cons.mp mem
    · omega
    · have shorter := length_toks_le later
      omega
  have fuel : list.length < (toks e ++ (itemToks list ++ sym ")" :: rest)).length := by
    have few := length_itemToks list
    simp only [List.length_append, List.length_cons]
    omega
  have close : (sym ")" :: rest).head? = some (sym ")") := rfl
  rw [readList, expect_cons_self, expect_nil]
  simp only [Option.bind_eq_bind, Option.bind_some, readItems_toks inside fuel close,
    expect_cons_self, expect_nil]

theorem readExpr_args {args : List Expr} {depth : Nat} (arity : args.length = func.arity)
    (items : ∀ item ∈ args, Reads item) (enough : (tokens (listPieces args)).length ≤ depth) :
    readArgs (readExpr depth) func (sym "(" :: (tokens (listPieces args) ++ sym ")" :: rest)) =
      some (.call func args, rest) := by
  cases args with
  | nil => cases func <;> cases arity
  | cons e list =>
    rw [tokens_listPieces] at enough
    rw [tokens_listPieces, List.append_assoc, readArgs, readList_toks items enough]
    simp only [Option.bind_eq_bind, Option.bind_some, arity, if_true]

/-! ## One form at a time -/

theorem toks_not (e : Expr) : toks (.not e) = sym "(" :: kw "not" :: (toks e ++ [sym ")"]) := by
  rw [toks, pieces, tokens_cons, tokens_cons, tokens_append, tokens_pieces]
  rfl

theorem toks_neg (e : Expr) : toks (.neg e) = sym "(" :: sym "-" :: (toks e ++ [sym ")"]) := by
  rw [toks, pieces, tokens_cons, tokens_cons, tokens_append, tokens_pieces]
  rfl

theorem toks_binary (op : BinOp) (l r : Expr) : toks (.binary op l r) =
    sym "(" :: (toks l ++ op.body.token :: (toks r ++ [sym ")"])) := by
  rw [toks, pieces, tokens_cons, tokens_append, tokens_cons, tokens_append, tokens_pieces,
    tokens_pieces]
  rfl

def notToks (negated : Bool) : List Token := if negated then [kw "not"] else []

theorem tokens_notPieces (negated : Bool) : tokens (notPieces negated) = notToks negated := by
  cases negated <;> rfl

theorem toks_isNull (e : Expr) (negated : Bool) : toks (.isNull e negated) =
    sym "(" :: (toks e ++ kw "is" :: (notToks negated ++ [kw "null", sym ")"])) := by
  rw [toks, pieces, tokens_cons, tokens_append, tokens_cons, tokens_append, tokens_pieces,
    tokens_notPieces]
  rfl

theorem toks_between (e lo hi : Expr) (negated : Bool) : toks (.between e lo hi negated) =
    sym "(" :: (toks e ++ (notToks negated ++ kw "between" ::
      (toks lo ++ kw "and" :: (toks hi ++ [sym ")"])))) := by
  rw [toks, pieces, tokens_cons, tokens_append, tokens_append, tokens_cons, tokens_append,
    tokens_cons, tokens_append, tokens_pieces, tokens_pieces, tokens_pieces, tokens_notPieces]
  rfl

theorem toks_inList (e : Expr) (list : List Expr) (negated : Bool) : toks (.inList e list negated) =
    sym "(" :: (toks e ++ (notToks negated ++ kw "in" :: sym "(" ::
      (tokens (listPieces list) ++ [sym ")", sym ")"]))) := by
  rw [toks, pieces, tokens_cons, tokens_append, tokens_append, tokens_cons, tokens_cons,
    tokens_append, tokens_pieces, tokens_notPieces]
  rfl

theorem toks_finite (e : Expr) (numeric : Bool) : toks (.finite e numeric) =
    sym "(" :: (toks e ++ sym "<" :: .str "Infinity" :: sym "::" :: kw "pg_catalog" ::
      sym "." :: .word (numericName numeric) :: kw "and" :: (toks e ++ sym ">" ::
        .str "-Infinity" :: sym "::" :: kw "pg_catalog" :: sym "." ::
        [.word (numericName numeric), sym ")"])) := by
  have word : (numericName numeric).map Char.toLower = numericName numeric := by
    cases numeric <;> decide
  simp only [toks, pieces, tokens_cons, tokens_append, castPieces]
  rw [tokens_pieces true]
  simp only [toks, spaced, glued, Body.token, word]
  rfl

theorem not_reads (reads : Reads e) : Reads (.not e) := by
  intro depth rest enough noCast
  rw [toks_not] at enough ⊢
  simp only [List.length_cons, List.length_append, List.length_nil] at enough
  obtain ⟨depth, rfl⟩ : ∃ n, depth = n + 1 := ⟨depth - 1, by omega⟩
  have inner := reads depth (sym ")" :: rest) (by omega) (by simp [sym])
  show readGroup (readExpr depth) (kw "not" :: (toks e ++ [sym ")"] ++ rest)) = _
  rw [readGroup, List.head?_cons, if_pos rfl, List.tail_cons, List.append_assoc, List.singleton_append,
    inner]
  rfl

theorem neg_reads (reads : Reads e) : Reads (.neg e) := by
  intro depth rest enough noCast
  rw [toks_neg] at enough ⊢
  simp only [List.length_cons, List.length_append, List.length_nil] at enough
  obtain ⟨depth, rfl⟩ : ∃ n, depth = n + 1 := ⟨depth - 1, by omega⟩
  have inner := reads depth (sym ")" :: rest) (by omega) (by simp [sym])
  show readGroup (readExpr depth) (sym "-" :: (toks e ++ [sym ")"] ++ rest)) = _
  rw [readGroup, List.head?_cons, if_neg (by simp [sym, kw]), if_pos rfl, List.tail_cons,
    List.append_assoc, List.singleton_append, inner]
  rfl

theorem operatorOf_token (op : BinOp) : operatorOf op.body.token = some op := by
  cases op <;> decide

theorem toks_typed (ty : LiteralType) (value : Text) : toks (.typed ty value) =
    [.str value, sym "::", kw "pg_catalog", sym ".", .word ty.sqlName] := by
  cases ty <;> rfl

theorem toks_interval (amount : Nat) (unit : IntervalUnit) : toks (.interval amount unit) =
    [.str (decimal amount ++ " " ++ unit.asStr), sym "::", kw "pg_catalog", sym ".",
      kw "interval"] := rfl

/-- Only the emitted bounds of a finite number are read as such. -/
theorem readInfinity_operand (r : Expr) (noCast : rest.head? ≠ some (sym "::")) :
    readInfinity (sym "<" :: (toks r ++ rest)) = none := by
  have started {head : Token} {more : List Token} (start : toks r = head :: more)
      (other : head ≠ .str "Infinity") : readInfinity (sym "<" :: (toks r ++ rest)) = none := by
    rw [readInfinity, expect_cons_self, start, List.cons_append, expect_cons_ne other]
    rfl
  cases r with
  | text value =>
    by_cases infinity : value = "Infinity"
    · subst infinity
      show readInfinity (sym "<" :: .str "Infinity" :: rest) = none
      rw [readInfinity, expect_cons_self, expect_cons_self, expect_nil]
      simp only [readCast, expect_none noCast, Option.bind_eq_bind, Option.bind_some, Option.bind_none]
    · exact started rfl (by simpa [Body.token] using infinity)
  | typed ty value =>
    by_cases infinity : value = "Infinity"
    · subst infinity
      rw [toks_typed, readInfinity]
      cases ty <;> rfl
    · exact started (toks_typed ty value) (by simpa using infinity)
  | interval amount unit =>
    by_cases infinity : decimal amount ++ " " ++ unit.asStr = "Infinity"
    · rw [toks_interval, infinity]
      rfl
    · exact started (toks_interval amount unit) (by simpa using infinity)
  | call func args => cases func <;> exact started rfl (by decide)
  | bool value => cases value <;> exact started rfl (by decide)
  | field _ | number _ => exact started rfl (by simp [Body.token])
  | _ => exact started rfl (by decide)

theorem binary_reads {op : BinOp} {l r : Expr} (left : Reads l) (right : Reads r) :
    Reads (.binary op l r) := by
  intro depth rest enough noCast
  rw [toks_binary] at enough ⊢
  simp only [List.length_cons, List.length_append, List.length_nil] at enough
  obtain ⟨depth, rfl⟩ : ∃ n, depth = n + 1 := ⟨depth - 1, by omega⟩
  have inner := right depth (sym ")" :: rest) (by omega) (by simp [sym])
  have marks : ∀ op : BinOp, op.body.token ∉ [sym "::", kw "is", kw "not", kw "between", kw "in",
      sym "<@"] := by
    intro op
    cases op <;> decide
  have mark := marks op
  simp only [List.mem_cons, List.not_mem_nil, or_false, not_or] at mark
  have shape : sym "(" :: (toks l ++ op.body.token :: (toks r ++ [sym ")"])) ++ rest =
      sym "(" :: (toks l ++ op.body.token :: (toks r ++ sym ")" :: rest)) := by simp
  -- a comparison with a literal is no test for a finite number
  have bounded : readInfinity (op.body.token :: (toks r ++ sym ")" :: rest)) = none := by
    by_cases less : op = .lt
    · subst less
      exact readInfinity_operand r (by simp [sym])
    · have other : ∀ op : BinOp, op ≠ .lt → op.body.token ≠ sym "<" := by
        intro op
        cases op <;> decide
      rw [readInfinity, expect_cons_ne (other op less)]
      rfl
  rw [shape, readExpr_operation left (by omega) (by simp [mark])]
  simp only [readTail, mark, if_false, or_self, bounded, operatorOf_token, Option.bind_eq_bind,
    Option.bind_some, inner, readClose_self]

theorem readTail_word {front : List Token} :
    readTail read e front (kw "is" :: rest) = readNull e rest ∧
      readTail read e front (kw "not" :: rest) = readRange read e true rest ∧
      readTail read e front (kw "between" :: rest) = readRange read e false (kw "between" :: rest) ∧
      readTail read e front (kw "in" :: rest) = readRange read e false (kw "in" :: rest) :=
  ⟨rfl, rfl, rfl, rfl⟩

theorem isNull_reads (reads : Reads e) : Reads (.isNull e negated) := by
  intro depth rest enough noCast
  rw [toks_isNull] at enough ⊢
  simp only [List.length_cons, List.length_append, List.length_nil] at enough
  obtain ⟨depth, rfl⟩ : ∃ n, depth = n + 1 := ⟨depth - 1, by omega⟩
  rw [List.cons_append, List.append_assoc, List.cons_append,
    readExpr_operation reads (by omega) (by simp [sym, kw]), readTail_word.1]
  cases negated <;> rfl

theorem readTail_range {front : List Token} {mark : Token} (kind : mark = kw "between" ∨ mark = kw "in") :
    readTail read e front (notToks negated ++ mark :: rest) =
      readRange read e negated (mark :: rest) := by
  cases negated with
  | true => exact readTail_word.2.1
  | false =>
    obtain rfl | rfl := kind
    · exact readTail_word.2.2.1
    · exact readTail_word.2.2.2

theorem head_notToks {mark : Token} (other : mark ≠ sym "::") :
    (notToks negated ++ mark :: rest).head? ≠ some (sym "::") := by
  cases negated with
  | true => simp [notToks, kw, sym]
  | false => simpa [notToks] using other

theorem between_reads {lo hi : Expr} (value : Reads e) (low : Reads lo) (high : Reads hi) :
    Reads (.between e lo hi negated) := by
  intro depth rest enough noCast
  rw [toks_between] at enough ⊢
  simp only [List.length_cons, List.length_append, List.length_nil] at enough
  obtain ⟨depth, rfl⟩ : ∃ n, depth = n + 1 := ⟨depth - 1, by omega⟩
  have lower := low depth (kw "and" :: (toks hi ++ sym ")" :: rest)) (by omega) (by simp [sym, kw])
  have upper := high depth (sym ")" :: rest) (by omega) (by simp [sym])
  simp only [List.cons_append, List.append_assoc, List.nil_append]
  rw [readExpr_operation value (by omega) (head_notToks (by decide)), readTail_range (.inl rfl), readRange,
    expect_cons_self, expect_nil]
  simp only [Option.bind_eq_bind, Option.bind_some, lower, expect_cons_self, expect_nil, upper,
    readClose_self]

theorem inList_reads {list : List Expr} (nonempty : list ≠ []) (value : Reads e)
    (items : ∀ item ∈ list, Reads item) : Reads (.inList e list negated) := by
  intro depth rest enough noCast
  obtain ⟨first, others, rfl⟩ := List.exists_cons_of_ne_nil nonempty
  rw [toks_inList, tokens_listPieces] at enough ⊢
  simp only [List.length_cons, List.length_append, List.length_nil] at enough
  obtain ⟨depth, rfl⟩ : ∃ n, depth = n + 1 := ⟨depth - 1, by omega⟩
  have inner : readList (readExpr depth) (sym "(" :: (toks first ++ (itemToks others ++ sym ")" ::
      sym ")" :: rest))) = some (first :: others, sym ")" :: rest) :=
    readList_toks items (by rw [List.length_append]; omega)
  simp only [List.cons_append, List.append_assoc, List.nil_append]
  rw [readExpr_operation value (by omega) (head_notToks (by decide)), readTail_range (.inr rfl), readRange,
    expect_cons_ne (by decide), expect_cons_self, expect_nil]
  simp only [Option.bind_eq_bind, Option.bind_some, inner, readClose_self]

theorem finite_reads {numeric : Bool} (reads : Reads e) : Reads (.finite e numeric) := by
  intro depth rest enough noCast
  rw [toks_finite] at enough ⊢
  simp only [List.length_cons, List.length_append, List.length_nil] at enough
  obtain ⟨depth, rfl⟩ : ∃ n, depth = n + 1 := ⟨depth - 1, by omega⟩
  simp only [List.cons_append, List.append_assoc, List.nil_append]
  rw [readExpr_operation reads (by omega) (by simp [sym])]
  have bound : ∀ tail, readInfinity (sym "<" :: .str "Infinity" :: sym "::" ::
      kw "pg_catalog" :: sym "." :: .word (numericName numeric) :: tail) = some (numeric, tail) := by
    intro tail
    cases numeric <;> rfl
  have other : ∀ token ∈ [kw "is", kw "not", kw "between", kw "in", sym "<@"], sym "<" ≠ token := by
    decide
  simp only [List.mem_cons, List.not_mem_nil, or_false, forall_eq_or_imp, forall_eq] at other
  simp only [readTail, other, if_false, or_self, bound, readFinite]
  rw [expect_cons_self, ← List.append_nil (toks e), List.append_assoc, List.nil_append, expect_append]
  simp

theorem readStrings_toks {value : Text} {values : List Text} {fuel : Nat} {rest : List Token}
    (enough : values.length < fuel) (close : rest.head? ≠ some (sym ",")) :
    readStrings fuel (.str value :: (tokens (literalPieces values) ++ rest)) =
      some (value :: values, rest) := by
  induction values generalizing value fuel with
  | nil =>
    obtain ⟨fuel, rfl⟩ : ∃ n, fuel = n + 1 := ⟨fuel - 1, by simp only [List.length_nil] at enough; omega⟩
    show readStrings (fuel + 1) (.str value :: rest) = _
    rw [readStrings, expect_none close]
  | cons next values ih =>
    simp only [List.length_cons] at enough
    obtain ⟨fuel, rfl⟩ : ∃ n, fuel = n + 1 := ⟨fuel - 1, by omega⟩
    have others := @ih next fuel (by omega)
    show readStrings (fuel + 1) (.str value :: sym "," :: .str next ::
      (tokens (literalPieces values) ++ rest)) = _
    rw [readStrings, expect_cons_self, expect_nil]
    simp only [others, Option.map_some]

theorem toks_arrayWithin (field : Text) (values : List Text) : toks (.arrayWithin field values) =
    sym "(" :: .quoted field :: sym "<@" :: kw "array" :: sym "[" ::
      (tokens (literalList values) ++ sym "]" :: sym "::" :: kw "pg_catalog" :: sym "." ::
        kw "text" :: sym "[" :: [sym "]", sym ")"]) := by
  simp only [toks, pieces, tokens_cons, tokens_append]
  rfl

theorem length_literalPieces (values : List Text) :
    values.length ≤ (tokens (literalPieces values)).length := by
  induction values with
  | nil => exact Nat.le_refl 0
  | cons value values ih =>
    rw [literalPieces, tokens_cons, tokens_cons, List.length_cons, List.length_cons,
      List.length_cons]
    omega

theorem readStrings_list {values : List Text} {fuel : Nat}
    (enough : (tokens (literalList values)).length < fuel) :
    readStrings fuel (tokens (literalList values) ++ sym "]" :: rest) = some (values, sym "]" :: rest) := by
  cases values with
  | nil =>
    obtain ⟨fuel, rfl⟩ : ∃ n, fuel = n + 1 := ⟨fuel - 1, by simp only [tokens] at enough; omega⟩
    rfl
  | cons value values =>
    have few := length_literalPieces values
    rw [literalList, tokens_cons, List.length_cons] at enough
    exact readStrings_toks (by omega) (by simp [sym])

theorem field_reads {name : Text} : Reads (.field name) := by
  intro depth rest enough noCast
  obtain ⟨depth, rfl⟩ : ∃ n, depth = n + 1 := ⟨depth - 1, by have := toks_pos (.field name); omega⟩
  rfl

theorem arrayWithin_reads {field : Text} {values : List Text} : Reads (.arrayWithin field values) := by
  intro depth rest enough noCast
  rw [toks_arrayWithin] at enough ⊢
  simp only [List.length_cons, List.length_append, List.length_nil] at enough
  obtain ⟨depth, rfl⟩ : ∃ n, depth = n + 2 := ⟨depth - 2, by omega⟩
  simp only [List.cons_append, List.append_assoc, List.nil_append]
  have group : ∀ tail, readExpr (depth + 2) (sym "(" :: .quoted field :: sym "<@" :: tail) =
      readTail (readExpr (depth + 1)) (.field field) [.quoted field] (sym "<@" :: tail) :=
    fun tail => readExpr_operation field_reads (by simp [toks, pieces, tokens]) (by simp [sym])
  rw [group]
  have other : ∀ token ∈ [kw "is", kw "not", kw "between", kw "in"], sym "<@" ≠ token := by decide
  simp only [List.mem_cons, List.not_mem_nil, or_false, forall_eq_or_imp, forall_eq] at other
  simp only [readTail, other, if_false, or_self, if_true, readWithin, expect_cons_self, expect_nil,
    Option.bind_eq_bind, Option.bind_some]
  rw [readStrings_list (by simp only [List.length_append, List.length_cons]; omega)]
  simp

theorem functionOf_sqlName (plain : func ≠ .coalesce ∧ func ≠ .jsonbArrayLength) :
    functionOf func.sqlName = some func := by
  revert plain
  cases func <;> decide

theorem call_reads {args : List Expr} (arity : args.length = func.arity) (items : ∀ item ∈ args, Reads item) :
    Reads (.call func args) := by
  intro depth rest enough noCast
  have args_length : (tokens (listPieces args)).length + 1 ≤ depth := by
    refine Nat.le_trans ?_ enough
    rw [toks, pieces]
    cases func <;>
      simp only [callPieces, functionPieces, tokens_append, tokens_cons, List.length_append,
        List.length_cons] <;> omega
  obtain ⟨depth, rfl⟩ : ∃ n, depth = n + 1 := ⟨depth - 1, by omega⟩
  have inner : ∀ rest, readArgs (readExpr depth) func
      (sym "(" :: (tokens (listPieces args) ++ sym ")" :: rest)) = some (.call func args, rest) :=
    fun rest => readExpr_args arity items (by omega)
  -- the functions that are called by their name
  have plain (other : func ≠ .coalesce ∧ func ≠ .jsonbArrayLength) :
      toks (.call func args) = kw "pg_catalog" :: sym "." :: .word func.sqlName :: sym "(" ::
        (tokens (listPieces args) ++ [sym ")"]) →
      readExpr (depth + 1) (toks (.call func args) ++ rest) = some (.call func args, rest) := by
    intro shape
    rw [shape]
    simp only [List.cons_append, List.append_assoc, List.nil_append]
    show readFunction (readExpr depth) (sym "." :: .word func.sqlName :: _) = _
    rw [readFunction, expect_cons_self, expect_nil]
    simp only [Option.bind_eq_bind, Option.bind_some, functionOf_sqlName other, inner]
  cases func with
  | coalesce =>
    have shape : toks (.call .coalesce args) = kw "coalesce" :: sym "(" ::
        (tokens (listPieces args) ++ [sym ")"]) := by
      simp only [toks, pieces, callPieces, tokens_append, tokens_cons]
      rfl
    rw [shape]
    simp only [List.cons_append, List.append_assoc, List.nil_append]
    exact inner rest
  | jsonbArrayLength =>
    obtain ⟨a, rfl⟩ : ∃ a, args = [a] := List.length_eq_one_iff.mp arity
    have one : tokens (listPieces [a]) = toks a := by simp [tokens_listPieces, itemToks]
    rw [one] at args_length
    have shape : toks (.call .jsonbArrayLength [a]) = sym "(" :: kw "case" :: kw "when" ::
        kw "pg_catalog" :: sym "." :: kw "jsonb_typeof" :: sym "(" :: (toks a ++ sym ")" ::
          sym "=" :: .str "array" :: kw "then" :: kw "pg_catalog" :: sym "." ::
          kw "jsonb_array_length" :: sym "(" :: (toks a ++ sym ")" :: kw "end" :: [sym ")"])) := by
      rw [← one]
      simp only [toks, pieces, callPieces, tokens_append, tokens_cons]
      rfl
    rw [shape]
    simp only [List.cons_append, List.append_assoc, List.nil_append]
    have first := items a (by simp) depth (sym ")" :: sym "=" :: .str "array" :: kw "then" ::
      kw "pg_catalog" :: sym "." :: kw "jsonb_array_length" :: sym "(" ::
      (toks a ++ sym ")" :: kw "end" :: sym ")" :: rest)) (by omega) (by simp [sym])
    show readCase (readExpr depth) (kw "when" :: _) = _
    simp only [readCase, expect_cons_self, expect_nil, Option.bind_eq_bind, Option.bind_some, first,
      consumed_append]
    rw [← List.append_nil (toks a), List.append_assoc, List.nil_append, expect_append]
    simp
  | _ =>
    refine plain (by decide) ?_
    simp only [toks, pieces, callPieces, tokens_append]
    rfl

theorem readInterval_decimal (amount : Nat) (unit : IntervalUnit) :
    readInterval (decimal amount ++ " " ++ unit.asStr) = some (.interval amount unit) := by
  have digits : ∀ c ∈ decimal amount, c.isDigit = true := fun c mem =>
    Nat.isDigit_of_mem_toDigits (by decide) (by decide) mem
  have stop : (" " ++ unit.asStr).head?.any Char.isDigit = false := rfl
  rw [readInterval, List.append_assoc, dropWhile_append_of_stop digits stop,
    takeWhile_append_of_stop digits stop, decimal, Nat.ofDigitChars_ten_toDigits]
  cases unit <;> rfl

theorem readLiteral_text {value : Text} (noCast : rest.head? ≠ some (sym "::")) :
    readLiteral value rest = some (.text value, rest) := by
  rw [readLiteral, readCast, expect_none noCast]

/-- Every resolved tree is read back from its tokens. -/
theorem reads_toks (resolved : Resolved e) : Reads e := by
  induction e with
  | field name => exact field_reads
  | text value =>
    intro depth rest enough noCast
    obtain ⟨depth, rfl⟩ : ∃ n, depth = n + 1 := ⟨depth - 1, by have := toks_pos (.text value); omega⟩
    exact readLiteral_text noCast
  | number value =>
    intro depth rest enough noCast
    obtain ⟨depth, rfl⟩ : ∃ n, depth = n + 1 := ⟨depth - 1, by have := toks_pos (.number value); omega⟩
    rfl
  | bool value =>
    intro depth rest enough noCast
    obtain ⟨depth, rfl⟩ : ∃ n, depth = n + 1 := ⟨depth - 1, by have := toks_pos (.bool value); omega⟩
    cases value <;> rfl
  | typed ty value =>
    intro depth rest enough noCast
    rw [toks_typed] at enough ⊢
    obtain ⟨depth, rfl⟩ : ∃ n, depth = n + 1 := ⟨depth - 1, by simp only [List.length_cons] at enough; omega⟩
    cases ty <;> rfl
  | interval amount unit =>
    intro depth rest enough noCast
    rw [toks_interval] at enough ⊢
    obtain ⟨depth, rfl⟩ : ∃ n, depth = n + 1 := ⟨depth - 1, by simp only [List.length_cons] at enough; omega⟩
    show (readInterval _).map (·, rest) = _
    rw [readInterval_decimal]
    rfl
  | not e ih => exact not_reads (ih resolved)
  | neg e ih => exact neg_reads (ih resolved)
  | binary op l r left right => exact binary_reads (left resolved.1) (right resolved.2)
  | isNull e negated ih => exact isNull_reads (ih resolved)
  | between e lo hi negated value low high =>
    exact between_reads (value resolved.1) (low resolved.2.1) (high resolved.2.2)
  | inList e list negated value items =>
    obtain ⟨resolved, nonempty, resolvedItems⟩ := resolved
    exact inList_reads nonempty (value resolved) fun item mem =>
      items item mem ((resolvedAll_iff list).mp resolvedItems item mem)
  | call func args items =>
    exact call_reads resolved.1 fun item mem =>
      items item mem ((resolvedAll_iff args).mp resolved.2 item mem)
  | arrayWithin field values => exact arrayWithin_reads
  | finite e numeric ih => exact finite_reads (ih resolved)

theorem readAll_toks (resolved : Resolved e) : readAll (toks e) = some e := by
  have whole := reads_toks resolved (toks e).length [] (Nat.le_refl _) (by simp)
  rw [List.append_nil] at whole
  rw [readAll, whole]

/-- The emitted text has exactly the tokens of the tree, is read back as the tree,
    and no other resolved tree has the same text. -/
theorem emission_reads_back {e : Expr} (resolved : Resolved e) (clean : NulFree e) :
    lex (sql e) = some (tokens (pieces false e)) ∧ (lex (sql e)).bind readAll = some e ∧
      ∀ other, Resolved other → sql other = sql e → other = e := by
  have noNul := nul_not_mem_sql resolved clean
  have back {tree : Expr} (resolved : Resolved tree) (noNul : '\x00' ∉ sql tree) :
      (lex (sql tree)).bind readAll = some tree := by
    rw [lex_sql resolved noNul]
    exact readAll_toks resolved
  refine ⟨lex_sql resolved noNul, back resolved noNul, ?_⟩
  intro other otherResolved same
  have both := back otherResolved (same ▸ noNul)
  rw [same, back resolved noNul] at both
  exact (Option.some.inj both).symm

/-- A name and a literal with quotes in them, below a comparison and a negation. -/
theorem quoted_names_read_back :
    (lex (sql (.not (.binary .eq (.field "a\"b".toList) (.text "it's; --".toList))))).bind readAll =
      some (.not (.binary .eq (.field "a\"b".toList) (.text "it's; --".toList))) := by
  have resolved : Resolved (.not (.binary .eq (.field "a\"b".toList) (.text "it's; --".toList))) := by
    simp only [Resolved]
    decide
  exact (emission_reads_back resolved fun text mem => by
    simp only [texts, List.cons_append, List.nil_append, List.mem_cons, List.not_mem_nil, or_false] at mem
    rcases mem with rfl | rfl <;> decide).2.1

/-- An enum value with a NUL in it passes the checks, and the server takes no such text. -/
theorem nul_not_read_back : ¬ ∀ e, Resolved e → (lex (sql e)).bind readAll = some e := by
  intro always
  have back := always (.text ['\x00']) trivial
  have refused : lex (sql (.text ['\x00'])) = none := rfl
  rw [refused] at back
  cases back

end RootCx.Rules
