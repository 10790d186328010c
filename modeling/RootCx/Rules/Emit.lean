import RootCx.Rules.Ast
import RootCx.Postgres.Pieces

/-! # SQL emission

`rules/emit.rs` turns a resolved tree into SQL text.  Every node is parenthesised,
every name quoted, every function qualified and every literal quoted.

Beside the text stands the list of its pieces; the text is their rendering.
-/

namespace RootCx.Rules

open RootCx.Text RootCx.Postgres

def decimal (n : Nat) : Text := Nat.toDigits 10 n

def LiteralType.sqlName : LiteralType → Text
  | .date => "date"
  | .timestamp => "timestamptz"
  | .uuid => "uuid"

def numericName (numeric : Bool) : Text := if numeric then "numeric" else "float8"

def notWord (negated : Bool) : Text := if negated then "NOT " else []

def joinComma (parts : List Text) : Text := join ", " parts

/-- `format!` with the holes filled in. -/
def format (parts : List Text) : Text := parts.flatten

/-- The three arms for `Expr::Call`, on the texts of the arguments. -/
def sqlCall (func : Func) (args : List Text) : Text :=
  match func with
  | .coalesce => format ["COALESCE(", args.getD 0 [], ", ", args.getD 1 [], ")"]
  | .jsonbArrayLength =>
    format ["(CASE WHEN pg_catalog.jsonb_typeof(", args.getD 0 [],
      ") = 'array' THEN pg_catalog.jsonb_array_length(", args.getD 0 [], ") END)"]
  | func => format ["pg_catalog.", func.sqlName, "(", joinComma args, ")"]

mutual

def sql : Expr → Text
  | .field name => quoteIdent name
  | .text value => quoteLiteral value
  | .number value => value
  | .bool value => if value then "TRUE" else "FALSE"
  | .typed ty value => format [quoteLiteral value, "::pg_catalog.", ty.sqlName]
  | .interval amount unit =>
    format ["'", decimal amount, " ", unit.asStr, "'::pg_catalog.interval"]
  | .not e => format ["(NOT ", sql e, ")"]
  | .neg e => format ["(- ", sql e, ")"]
  | .binary op l r => format ["(", sql l, " ", op.sql, " ", sql r, ")"]
  | .isNull e negated =>
    format ["(", sql e, " IS ", notWord negated, "NULL)"]
  | .between e lo hi negated =>
    format ["(", sql e, " ", notWord negated, "BETWEEN ", sql lo,
      " AND ", sql hi, ")"]
  | .inList e list negated =>
    format ["(", sql e, " ", notWord negated, "IN (",
      joinComma (sqlAll list), "))"]
  | .call func args => sqlCall func (sqlAll args)
  | .arrayWithin field values =>
    format ["(", quoteIdent field, " <@ ARRAY[",
      joinComma (values.map quoteLiteral), "]::pg_catalog.text[])"]
  | .finite e numeric =>
    format ["(", sql e, " < 'Infinity'::pg_catalog.", numericName numeric,
      " AND ", sql e, " > '-Infinity'::pg_catalog.", numericName numeric, ")"]

def sqlAll : List Expr → List Text
  | [] => []
  | e :: rest => sql e :: sqlAll rest

end

/-! ## The pieces of the text -/

/-- `::pg_catalog.ty` -/
def castPieces (ty : Text) : List Piece :=
  [glued (.punct "::"), glued (.word "pg_catalog"), glued (.punct "."),
    glued (.word ty)]

/-- `pg_catalog.name(` -/
def functionPieces (space : Bool) (name : Text) : List Piece :=
  [⟨space, .word "pg_catalog"⟩, glued (.punct "."), glued (.word name),
    openParen false]

def notPieces (negated : Bool) : List Piece :=
  if negated then [spaced (.word "NOT")] else []

def BinOp.body : BinOp → Body
  | .or => .word "OR"
  | .and => .word "AND"
  | op => .op op.sql

/-- Literals behind the first, each behind a comma. -/
def literalPieces : List Text → List Piece
  | [] => []
  | value :: rest => glued (.punct ",") :: spaced (.lit value) :: literalPieces rest

def literalList : List Text → List Piece
  | [] => []
  | value :: rest => glued (.lit value) :: literalPieces rest

def callPieces (space : Bool) (func : Func) (args : List Piece) : List Piece :=
  match func with
  | .coalesce => ⟨space, .word "COALESCE"⟩ :: openParen false :: (args ++ [closeParen])
  | .jsonbArrayLength =>
    openParen space :: glued (.word "CASE") :: spaced (.word "WHEN") ::
      (functionPieces true "jsonb_typeof" ++ (args ++ closeParen ::
        spaced (.op "=") :: spaced (.lit "array") :: spaced (.word "THEN") ::
        (functionPieces true "jsonb_array_length" ++ (args ++
          [closeParen, spaced (.word "END"), closeParen]))))
  | func => functionPieces space func.sqlName ++ (args ++ [closeParen])

mutual

def pieces (space : Bool) : Expr → List Piece
  | .field name => [⟨space, .ident name⟩]
  | .text value => [⟨space, .lit value⟩]
  | .number value => [⟨space, .num value⟩]
  | .bool value => [⟨space, .word (if value then "TRUE" else "FALSE")⟩]
  | .typed ty value => ⟨space, .lit value⟩ :: castPieces ty.sqlName
  | .interval amount unit =>
    ⟨space, .lit (decimal amount ++ " " ++ unit.asStr)⟩ :: castPieces "interval"
  | .not e => openParen space :: glued (.word "NOT") :: (pieces true e ++ [closeParen])
  | .neg e => openParen space :: glued (.op "-") :: (pieces true e ++ [closeParen])
  | .binary op l r =>
    openParen space :: (pieces false l ++ spaced op.body :: (pieces true r ++ [closeParen]))
  | .isNull e negated =>
    openParen space :: (pieces false e ++ spaced (.word "IS") ::
      (notPieces negated ++ [spaced (.word "NULL"), closeParen]))
  | .between e lo hi negated =>
    openParen space :: (pieces false e ++ (notPieces negated ++ spaced (.word "BETWEEN") ::
      (pieces true lo ++ spaced (.word "AND") :: (pieces true hi ++ [closeParen]))))
  | .inList e list negated =>
    openParen space :: (pieces false e ++ (notPieces negated ++ spaced (.word "IN") ::
      openParen true :: (listPieces list ++ [closeParen, closeParen])))
  | .call func args => callPieces space func (listPieces args)
  | .arrayWithin field values =>
    openParen space :: glued (.ident field) :: spaced (.op "<@") ::
      spaced (.word "ARRAY") :: glued (.punct "[") ::
      (literalList values ++ glued (.punct "]") :: (castPieces "text" ++
        [glued (.punct "["), glued (.punct "]"), closeParen]))
  | .finite e numeric =>
    openParen space :: (pieces false e ++ spaced (.op "<") ::
      spaced (.lit "Infinity") :: (castPieces (numericName numeric) ++
        spaced (.word "AND") :: (pieces true e ++ spaced (.op ">") ::
          spaced (.lit "-Infinity") :: (castPieces (numericName numeric) ++ [closeParen]))))

def listPieces : List Expr → List Piece
  | [] => []
  | e :: rest => pieces false e ++ morePieces rest

/-- The items behind the first, each behind a comma. -/
def morePieces : List Expr → List Piece
  | [] => []
  | e :: rest => glued (.punct ",") :: (pieces true e ++ morePieces rest)

end

/-! ## Resolved trees -/

mutual

/-- What holds of the trees that reach the emitter: names are column names of the
    entity, numbers are written in digits, `IN` lists are not empty and calls have
    the arguments of their function. -/
def Resolved : Expr → Prop
  | .field name => name ≠ [] ∧ byteLength name ≤ MAX_IDENT_BYTES
  | .number value => isNumber value = true
  | .text _ | .bool _ | .typed _ _ | .interval _ _ => True
  | .not e | .neg e | .isNull e _ | .finite e _ => Resolved e
  | .binary _ l r => Resolved l ∧ Resolved r
  | .between e lo hi _ => Resolved e ∧ Resolved lo ∧ Resolved hi
  | .inList e list _ => Resolved e ∧ list ≠ [] ∧ ResolvedAll list
  | .call func args => args.length = func.arity ∧ ResolvedAll args
  | .arrayWithin field _ => field ≠ [] ∧ byteLength field ≤ MAX_IDENT_BYTES

def ResolvedAll : List Expr → Prop
  | [] => True
  | e :: rest => Resolved e ∧ ResolvedAll rest

end

mutual

/-- The names and the strings of a tree. -/
def texts : Expr → List Text
  | .field name => [name]
  | .text value | .typed _ value => [value]
  | .number _ | .bool _ | .interval _ _ => []
  | .not e | .neg e | .isNull e _ | .finite e _ => texts e
  | .binary _ l r => texts l ++ texts r
  | .between e lo hi _ => texts e ++ texts lo ++ texts hi
  | .inList e list _ => texts e ++ textsAll list
  | .call _ args => textsAll args
  | .arrayWithin field values => field :: values

def textsAll : List Expr → List Text
  | [] => []
  | e :: rest => texts e ++ textsAll rest

end

/-- No name and no string of the tree holds a NUL, which the server takes in no text. -/
def NulFree (e : Expr) : Prop := ∀ text ∈ texts e, '\x00' ∉ text

/-! ## The text is the rendering of the pieces -/

theorem joinComma_cons (first : Text) (rest : List Text) :
    joinComma (first :: rest) = first ++ rest.flatMap (", ".toList ++ ·) :=
  join_cons ", ".toList first rest

theorem interval_quoted (amount : Nat) (unit : IntervalUnit) :
    quoteLiteral (decimal amount ++ " " ++ unit.asStr) =
      "'" ++ (decimal amount ++ " " ++ unit.asStr) ++ "'" := by
  have digits : '\'' ∉ decimal amount := by
    intro mem
    exact absurd (Nat.isDigit_of_mem_toDigits (by decide) (by decide) mem) (by decide)
  have units : '\'' ∉ unit.asStr := by cases unit <;> decide
  rw [quoteLiteral, doubled_of_not_mem (by simp_all)]
  rfl

theorem render_literalPieces (values : List Text) :
    render (literalPieces values) = (values.map quoteLiteral).flatMap (", ".toList ++ ·) := by
  induction values with
  | nil => rfl
  | cons value values ih =>
    rw [literalPieces, render_cons, render_cons, ih]
    rfl

theorem render_literalList (values : List Text) :
    render (literalList values) = joinComma (values.map quoteLiteral) := by
  cases values with
  | nil => rfl
  | cons value values =>
    rw [literalList, render_cons, render_literalPieces, List.map_cons, joinComma_cons]
    rfl

theorem sqlAll_eq (list : List Expr) : sqlAll list = list.map sql := by
  induction list with
  | nil => rfl
  | cons e rest ih => rw [sqlAll, ih, List.map_cons]

theorem resolvedAll_iff (list : List Expr) : ResolvedAll list ↔ ∀ e ∈ list, Resolved e := by
  induction list with
  | nil => simp [ResolvedAll]
  | cons e rest ih => simp [ResolvedAll, ih]

/-- What is to be shown of one tree, for either spacing. -/
def Renders (e : Expr) : Prop := ∀ space, render (pieces space e) = leading space ++ sql e

theorem render_morePieces {list : List Expr} (items : ∀ e ∈ list, Renders e) :
    render (morePieces list) = (list.map sql).flatMap (", ".toList ++ ·) := by
  induction list with
  | nil => simp [morePieces, render]
  | cons e rest ih =>
    have first := items e (by simp) true
    have others := ih fun e mem => items e (by simp [mem])
    simp [morePieces, render_cons, first, others, render_piece, glued, Body.text, leading]

theorem render_listPieces {list : List Expr} (items : ∀ e ∈ list, Renders e) :
    render (listPieces list) = joinComma (sqlAll list) := by
  rw [sqlAll_eq]
  cases list with
  | nil => simp [listPieces, render, joinComma, join]
  | cons e rest =>
    have first := items e (by simp) false
    have others := render_morePieces fun e mem => items e (List.mem_cons_of_mem _ mem)
    rw [listPieces, render_append, first, others, List.map_cons, joinComma_cons]
    rfl

theorem render_castPieces (ty : Text) : render (castPieces ty) = "::pg_catalog." ++ ty := by
  simp [castPieces, render_cons, Body.text]

theorem render_functionPieces (space : Bool) (name : Text) :
    render (functionPieces space name) = leading space ++ ("pg_catalog." ++ name ++ ['(']) := by
  simp [functionPieces, render_cons, render_piece, openParen, Body.text, leading]

theorem render_notPieces (negated : Bool) (rest : Text) :
    render (notPieces negated) ++ ' ' :: rest = ' ' :: (notWord negated ++ rest) := by
  cases negated <;> simp [notPieces, notWord, render_cons, Body.text]

theorem text_opBody (op : BinOp) : op.body.text = op.sql := by cases op <;> rfl

theorem args_cases {func : Func} {args : List Expr} (arity : args.length = func.arity) :
    (func = .coalesce ∧ ∃ a b, args = [a, b]) ∨ (func ≠ .coalesce ∧ ∃ a, args = [a]) := by
  by_cases coalesce : func = .coalesce
  · subst coalesce
    obtain ⟨a, b, rfl⟩ := List.length_eq_two.mp arity
    exact .inl ⟨rfl, a, b, rfl⟩
  · rw [Func.arity, if_neg coalesce] at arity
    obtain ⟨a, rfl⟩ := List.length_eq_one_iff.mp arity
    exact .inr ⟨coalesce, a, rfl⟩

theorem render_call {func : Func} {args : List Expr} (arity : args.length = func.arity)
    (items : ∀ e ∈ args, Renders e) : Renders (.call func args) := by
  intro space
  have inner := render_listPieces items
  obtain ⟨rfl, a, b, rfl⟩ | ⟨other, a, rfl⟩ := args_cases arity
  · have joined : joinComma [sql a, sql b] = sql a ++ (", ".toList ++ sql b) := by
      simp [joinComma_cons]
    simp only [sqlAll, joined] at inner
    simp [pieces, callPieces, sql, sqlCall, format, sqlAll, render_cons, render_piece, text_openParen,
      text_closeParen, inner, Body.text, leading]
  · have joined : joinComma [sql a] = sql a := by simp [joinComma_cons]
    simp only [sqlAll, joined] at inner
    cases func with
    | coalesce => exact absurd rfl other
    | jsonbArrayLength =>
      simp [pieces, callPieces, sql, sqlCall, format, sqlAll, render_cons, text_openParen, text_closeParen,
        inner, render_functionPieces, Body.text, leading, quoteLiteral, doubled]
    | _ =>
      simp [pieces, callPieces, sql, sqlCall, format, sqlAll, render_cons, text_closeParen, inner,
        render_functionPieces, joined]

theorem render_pieces {e : Expr} (resolved : Resolved e) : Renders e := by
  induction e with
  | field name => intro space; simp [pieces, render_cons, render_piece, sql, Body.text]
  | text value => intro space; simp [pieces, render_cons, render_piece, sql, Body.text]
  | number value => intro space; simp [pieces, render_cons, render_piece, sql, Body.text]
  | bool value => intro space; simp [pieces, render_cons, render_piece, sql, Body.text]
  | typed ty value =>
    intro space
    simp [pieces, render_cons, render_piece, sql, format, Body.text, render_castPieces]
  | interval amount unit =>
    intro space
    simp only [pieces, render_cons, render_piece, sql, format, Body.text, interval_quoted,
      render_castPieces]
    simp
  | not e ih =>
    intro space
    have inner := ih resolved true
    simp [pieces, render_cons, sql, format, text_openParen, text_closeParen, inner, Body.text, leading]
  | neg e ih =>
    intro space
    have inner := ih resolved true
    simp [pieces, render_cons, sql, format, text_openParen, text_closeParen, inner, Body.text, leading]
  | binary op l r left right =>
    intro space
    have left := left resolved.1 false
    have right := right resolved.2 true
    simp [pieces, render_cons, sql, format, text_openParen, text_closeParen, left, right, text_opBody,
      leading]
  | isNull e negated ih =>
    intro space
    have inner := ih resolved false
    simp [pieces, render_cons, sql, format, text_openParen, text_closeParen, inner, Body.text, leading,
      render_notPieces]
  | between e lo hi negated value low high =>
    intro space
    have value := value resolved.1 false
    have low := low resolved.2.1 true
    have high := high resolved.2.2 true
    simp [pieces, render_cons, sql, format, text_openParen, text_closeParen, value, low, high, Body.text,
      leading, render_notPieces]
  | inList e list negated value items =>
    intro space
    obtain ⟨resolved, -, resolvedItems⟩ := resolved
    have value := value resolved false
    have items := render_listPieces fun item mem =>
      items item mem ((resolvedAll_iff list).mp resolvedItems item mem)
    simp [pieces, render_cons, sql, format, text_openParen, text_closeParen, value, items, Body.text,
      leading, render_notPieces]
  | call func args items =>
    exact render_call resolved.1 fun item mem =>
      items item mem ((resolvedAll_iff args).mp resolved.2 item mem)
  | arrayWithin field values =>
    intro space
    simp [pieces, render_cons, sql, format, text_openParen, text_closeParen, Body.text, leading,
      render_literalList, render_castPieces]
  | finite e numeric ih =>
    intro space
    have glued := ih resolved false
    have spaced := ih resolved true
    simp [pieces, render_cons, sql, format, text_openParen, text_closeParen, glued, spaced, Body.text,
      leading, render_castPieces, quoteLiteral, doubled]

/-! ## The pieces are well formed -/

theorem BinOp.body_valid (op : BinOp) : op.body.Valid := by
  cases op <;> first | exact word_valid (by decide) | exact op_valid (by decide)

theorem cast_wellFormed {ty : Text} {rest : List Piece}
    (tail : WellFormed (glued (.word ty) :: rest)) : WellFormed (castPieces ty ++ rest) :=
  .cons_glued (punct_valid (by decide)) rfl (.cons_glued (word_valid (by decide)) rfl
    (.cons_glued (punct_valid (by decide)) rfl tail))

theorem function_wellFormed {space : Bool} {name : Text} (word : isWord name = true)
    {rest : List Piece} (tail : WellFormed rest) : WellFormed (functionPieces space name ++ rest) :=
  .cons_glued (word_valid (by decide)) rfl (.cons_glued (punct_valid (by decide)) rfl
    (.cons_glued (word_valid word) rfl tail.open_paren))

theorem append_not {space negated : Bool} {front rest : List Piece} {body : Body}
    (phrase : Phrase space front) (tail : WellFormed (spaced body :: rest)) :
    WellFormed (front ++ (notPieces negated ++ spaced body :: rest)) := by
  cases negated with
  | false => exact phrase.append_spaced tail
  | true => exact phrase.append_spaced (.cons_spaced (word_valid (by decide)) tail)

theorem morePieces_wellFormed {list : List Expr} {rest : List Piece}
    (items : ∀ e ∈ list, Phrase true (pieces true e)) {text : Text}
    (tail : WellFormed (glued (.punct text) :: rest))
    (closing : text ∈ [")".toList, ",".toList, "]".toList, "::".toList]) :
    ∃ mark, mark ∈ [")".toList, ",".toList, "]".toList, "::".toList] ∧ ∃ more,
      morePieces list ++ glued (.punct text) :: rest = glued (.punct mark) :: more ∧
        WellFormed (glued (.punct mark) :: more) := by
  induction list with
  | nil => exact ⟨text, closing, rest, by simp [morePieces], tail⟩
  | cons e list ih =>
    have phrase := items e (by simp)
    obtain ⟨mark, closing, more, shape, wellFormed⟩ :=
      ih fun e mem => items e (by simp [mem])
    refine ⟨",".toList, by decide, pieces true e ++ glued (.punct mark) :: more, ?_, ?_⟩
    · simp [morePieces, shape]
    · exact phrase.behind (punct_valid (by decide)) (phrase.append_closing wellFormed closing)

theorem listPieces_wellFormed {list : List Expr} {rest : List Piece} (nonempty : list ≠ [])
    (items : ∀ e ∈ list, ∀ space, Phrase space (pieces space e))
    (tail : WellFormed (closeParen :: rest)) : WellFormed (listPieces list ++ closeParen :: rest) := by
  cases list with
  | nil => exact absurd rfl nonempty
  | cons e list =>
    obtain ⟨mark, closing, more, shape, wellFormed⟩ :=
      morePieces_wellFormed (fun e mem => items e (List.mem_cons_of_mem _ mem) true) tail
        (by decide)
    rw [listPieces, List.append_assoc]
    show WellFormed (pieces false e ++ (morePieces list ++ glued (.punct ")".toList) :: rest))
    rw [shape]
    exact (items e (by simp) false).append_closing wellFormed closing

theorem literalPieces_wellFormed (values : List Text) {rest : List Piece}
    (tail : WellFormed (glued (.punct "]") :: rest)) :
    ∃ mark more, literalPieces values ++ glued (.punct "]") :: rest =
        glued (.punct mark) :: more ∧ WellFormed (glued (.punct mark) :: more) ∧
      ∀ value, (Body.lit value).meets (.punct mark) = true := by
  induction values with
  | nil => exact ⟨_, rest, rfl, tail, fun _ => rfl⟩
  | cons value values ih =>
    obtain ⟨mark, more, shape, wellFormed, meets⟩ := ih
    refine ⟨",", spaced (.lit value) :: glued (.punct mark) :: more, ?_, ?_, fun _ => rfl⟩
    · rw [literalPieces, List.cons_append, List.cons_append, shape]
    · exact .cons_spaced (punct_valid (by decide)) (.cons_glued trivial (meets value) wellFormed)

theorem literalList_wellFormed {values : List Text} {rest : List Piece}
    (tail : WellFormed (glued (.punct "]") :: rest)) :
    WellFormed (glued (.punct "[") :: (literalList values ++ glued (.punct "]") :: rest)) := by
  cases values with
  | nil => exact .cons_glued (punct_valid (by decide)) rfl tail
  | cons value values =>
    obtain ⟨mark, more, shape, wellFormed, meets⟩ := literalPieces_wellFormed values tail
    rw [literalList, List.cons_append, shape]
    exact .cons_glued (punct_valid (by decide)) rfl (.cons_glued trivial (meets value) wellFormed)

theorem LiteralType.sqlName_word (ty : LiteralType) : isWord ty.sqlName = true := by
  cases ty <;> decide

theorem numericName_word (numeric : Bool) : isWord (numericName numeric) = true := by
  cases numeric <;> decide

theorem Func.sqlName_word (func : Func) : isWord func.sqlName = true := by
  cases func <;> decide

theorem typed_phrase (space : Bool) (value : Text) {ty : Text} (word : isWord ty = true) :
    Phrase space (⟨space, .lit value⟩ :: castPieces ty) := by
  refine ⟨?_, ⟨_, _, rfl⟩, ?_⟩
  · refine .cons_glued trivial rfl ?_
    have cast : WellFormed (castPieces ty ++ []) := cast_wellFormed (.single (word_valid word))
    rwa [List.append_nil] at cast
  · intro piece last
    cases last
    rfl

theorem call_phrase {func : Func} {args : List Expr} (nonempty : args ≠ [])
    (items : ∀ e ∈ args, ∀ space, Phrase space (pieces space e)) (space : Bool) :
    Phrase space (pieces space (.call func args)) := by
  have closed : ∀ {rest}, WellFormed (closeParen :: rest) →
      WellFormed (listPieces args ++ closeParen :: rest) :=
    fun tail => listPieces_wellFormed nonempty items tail
  have function (name : Text) (word : isWord name = true) :
      Phrase space (functionPieces space name ++ (listPieces args ++ [closeParen])) := by
    have last : (functionPieces space name ++ (listPieces args ++ [closeParen])).getLast? =
        some closeParen := last_append (last_append rfl)
    exact .closed (function_wellFormed word (closed close_wellFormed)) last
  rw [pieces]
  cases func with
  | coalesce =>
    exact .closed (.cons_glued (word_valid (by decide)) rfl (closed close_wellFormed).open_paren)
      (last_cons (last_cons (last_append rfl)))
  | jsonbArrayLength =>
    refine Phrase.paren ?_ ?_
    · refine .cons_spaced (word_valid (by decide)) (.cons_spaced (word_valid (by decide)) ?_)
      refine function_wellFormed (by decide) (closed ?_)
      refine .cons_spaced (punct_valid (by decide)) (.cons_spaced (op_valid (by decide)) ?_)
      refine .cons_spaced trivial (.cons_spaced (word_valid (by decide)) ?_)
      refine function_wellFormed (by decide) (closed ?_)
      refine .cons_spaced (punct_valid (by decide)) ?_
      exact .cons_glued (word_valid (by decide)) rfl close_wellFormed
    · refine last_cons (last_cons (last_append (last_append ?_)))
      exact last_cons (last_cons (last_cons (last_cons (last_append (last_append rfl)))))
  | _ => exact function _ (Func.sqlName_word _)

theorem phrase_pieces {e : Expr} (resolved : Resolved e) (space : Bool) :
    Phrase space (pieces space e) := by
  induction e generalizing space with
  | field name => exact .single resolved rfl
  | text value => exact .single trivial rfl
  | number value => exact .single resolved rfl
  | bool value => cases value <;> exact .single (word_valid (by decide)) rfl
  | typed ty value => exact typed_phrase space value ty.sqlName_word
  | interval amount unit => exact typed_phrase space _ (by decide)
  | not e ih =>
    have phrase := ih resolved true
    exact .paren (phrase.behind (word_valid (by decide)) phrase.close) (last_cons (last_append rfl))
  | neg e ih =>
    have phrase := ih resolved true
    exact .paren (phrase.behind (op_valid (by decide)) phrase.close) (last_cons (last_append rfl))
  | binary op l r left right =>
    have left := left resolved.1 false
    have right := right resolved.2 true
    exact .paren (left.append_spaced (right.behind op.body_valid right.close))
      (last_append (last_cons (last_append rfl)))
  | isNull e negated ih =>
    have phrase := ih resolved false
    have null : WellFormed [spaced (.word "NULL"), closeParen] :=
      .cons_glued (word_valid (by decide)) rfl close_wellFormed
    refine .paren (phrase.append_spaced ?_) (last_append (last_cons (last_append rfl)))
    cases negated with
    | false => exact .cons_spaced (word_valid (by decide)) null
    | true =>
      exact .cons_spaced (word_valid (by decide)) (.cons_spaced (word_valid (by decide)) null)
  | between e lo hi negated value low high =>
    have value := value resolved.1 false
    have low := low resolved.2.1 true
    have high := high resolved.2.2 true
    have upper : WellFormed (spaced (.word "AND") :: (pieces true hi ++ [closeParen])) :=
      high.behind (word_valid (by decide)) high.close
    have bounds : WellFormed (spaced (.word "BETWEEN") :: (pieces true lo ++
        spaced (.word "AND") :: (pieces true hi ++ [closeParen]))) :=
      low.behind (word_valid (by decide)) (low.append_spaced upper)
    exact .paren (append_not value bounds)
      (last_append (last_append (last_cons (last_append (last_cons (last_append rfl))))))
  | inList e list negated value items =>
    obtain ⟨resolved, nonempty, resolvedItems⟩ := resolved
    have value := value resolved false
    have items : ∀ item ∈ list, ∀ space, Phrase space (pieces space item) := fun item mem =>
      items item mem ((resolvedAll_iff list).mp resolvedItems item mem)
    have closing : WellFormed [closeParen, closeParen] :=
      .cons_glued (punct_valid (by decide)) rfl close_wellFormed
    have inner : WellFormed (openParen true :: (listPieces list ++ [closeParen, closeParen])) :=
      (listPieces_wellFormed nonempty items closing).open_paren
    exact .paren (append_not value (.cons_spaced (word_valid (by decide)) inner))
      (last_append (last_append (last_cons (last_cons (last_append rfl)))))
  | call func args items =>
    have nonempty : args ≠ [] := by
      rintro rfl
      have arity := resolved.1
      cases func <;> cases arity
    exact call_phrase nonempty (fun item mem =>
      items item mem ((resolvedAll_iff args).mp resolved.2 item mem)) space
  | arrayWithin field values =>
    refine .paren ?_ (last_cons (last_cons (last_cons (last_cons (last_append rfl)))))
    refine .cons_spaced resolved (.cons_spaced (op_valid (by decide)) ?_)
    refine .cons_glued (word_valid (by decide)) rfl (literalList_wellFormed ?_)
    refine .cons_glued (punct_valid (by decide)) rfl (cast_wellFormed ?_)
    refine .cons_glued (word_valid (by decide)) rfl (.cons_glued (punct_valid (by decide)) rfl ?_)
    exact .cons_glued (punct_valid (by decide)) rfl close_wellFormed
  | finite e numeric ih =>
    have first := ih resolved false
    have second := ih resolved true
    have word := word_valid (numericName_word numeric)
    refine .paren (first.append_spaced ?_) (last_append (last_cons (last_cons
      (last_append (last_cons (last_append (last_cons (last_cons (last_append rfl)))))))))
    refine .cons_spaced (op_valid (by decide)) (.cons_glued trivial rfl (cast_wellFormed ?_))
    refine .cons_spaced word (second.behind (word_valid (by decide)) (second.append_spaced ?_))
    refine .cons_spaced (op_valid (by decide)) (.cons_glued trivial rfl (cast_wellFormed ?_))
    exact .cons_glued word rfl close_wellFormed

/-! ## No character is lost -/

theorem nul_not_mem_digits {text : Text} (digits : ∀ c ∈ text, c.isDigit = true) : '\x00' ∉ text :=
  fun mem => absurd (digits _ mem) (by decide)

theorem nul_not_mem_number {value : Text} (number : isNumber value = true) : '\x00' ∉ value := by
  obtain ⟨whole, -, digits, rfl | ⟨d, fraction, rest, rfl⟩⟩ := isNumber_cases number
  · exact nul_not_mem_digits digits
  · simp only [List.mem_append, List.mem_cons, not_or]
    have behind := nul_not_mem_digits rest
    rw [List.mem_cons, not_or] at behind
    exact ⟨nul_not_mem_digits digits, by decide, behind⟩

theorem nul_mem_quoteIdent {name : Text} : '\x00' ∈ quoteIdent name ↔ '\x00' ∈ name := by
  simp [quoteIdent, mem_doubled]

theorem nul_mem_quoteLiteral {value : Text} : '\x00' ∈ quoteLiteral value ↔ '\x00' ∈ value := by
  simp [quoteLiteral, mem_doubled]

theorem nul_mem_joinComma {parts : List Text} : '\x00' ∈ joinComma parts ↔ ∃ part ∈ parts, '\x00' ∈ part := by
  cases parts with
  | nil => simp [joinComma, join]
  | cons first rest => simp [joinComma_cons]

theorem texts_of_mem {list : List Expr} {e : Expr} (mem : e ∈ list) {text : Text} (inside : text ∈ texts e) :
    text ∈ textsAll list := by
  induction list with
  | nil => cases mem
  | cons first rest ih =>
    rw [textsAll, List.mem_append]
    rcases List.mem_cons.mp mem with rfl | mem
    · exact .inl inside
    · exact .inr (ih mem)

theorem nul_not_mem_sqlAll {list : List Expr} (items : ∀ e ∈ list, NulFree e → '\x00' ∉ sql e)
    (clean : ∀ text ∈ textsAll list, '\x00' ∉ text) : ∀ part ∈ sqlAll list, '\x00' ∉ part := by
  rw [sqlAll_eq]
  intro part mem
  obtain ⟨e, listed, rfl⟩ := List.mem_map.mp mem
  exact items e listed fun text inside => clean text (texts_of_mem listed inside)

theorem nul_not_mem_format {parts : List Text} (each : ∀ part ∈ parts, '\x00' ∉ part) : '\x00' ∉ format parts := by
  rw [format, List.mem_flatten]
  rintro ⟨text, mem, nul⟩
  exact each text mem nul

theorem nul_not_mem_sqlCall {func : Func} {args : List Text} (clean : ∀ part ∈ args, '\x00' ∉ part) :
    '\x00' ∉ sqlCall func args := by
  have part (index : Nat) : '\x00' ∉ args.getD index [] := by
    rw [List.getD_eq_getElem?_getD]
    cases found : args[index]? with
    | none => exact List.not_mem_nil
    | some text => exact clean text (List.mem_of_getElem? found)
  have joined : '\x00' ∉ joinComma args := by
    rw [nul_mem_joinComma]
    rintro ⟨text, mem, nul⟩
    exact clean text mem nul
  cases func with
  | coalesce =>
    refine nul_not_mem_format (List.forall_mem_cons.mpr ⟨by decide, List.forall_mem_cons.mpr ⟨part 0, ?_⟩⟩)
    exact List.forall_mem_cons.mpr ⟨by decide, List.forall_mem_cons.mpr ⟨part 1, by decide⟩⟩
  | jsonbArrayLength =>
    refine nul_not_mem_format (List.forall_mem_cons.mpr ⟨by decide, List.forall_mem_cons.mpr ⟨part 0, ?_⟩⟩)
    exact List.forall_mem_cons.mpr ⟨by decide, List.forall_mem_cons.mpr ⟨part 0, by decide⟩⟩
  | _ =>
    refine nul_not_mem_format (List.forall_mem_cons.mpr ⟨by decide, List.forall_mem_cons.mpr ⟨by decide, ?_⟩⟩)
    exact List.forall_mem_cons.mpr ⟨by decide, List.forall_mem_cons.mpr ⟨joined, by decide⟩⟩

theorem nul_not_mem_sql {e : Expr} (resolved : Resolved e) (clean : NulFree e) : '\x00' ∉ sql e := by
  unfold NulFree at clean
  induction e with
  | field name => simpa [sql, texts, nul_mem_quoteIdent] using clean
  | text value => simpa [sql, texts, nul_mem_quoteLiteral] using clean
  | number value => exact nul_not_mem_number resolved
  | bool value => cases value <;> decide
  | typed ty value =>
    have value := clean value (List.mem_singleton.mpr rfl)
    rw [sql, format, List.flatten_cons, List.mem_append, nul_mem_quoteLiteral, not_or]
    exact ⟨value, by cases ty <;> decide⟩
  | interval amount unit =>
    have amount := @nul_not_mem_digits (decimal amount) fun c mem => Nat.isDigit_of_mem_toDigits (by decide) (by decide) mem
    rw [sql, format, List.flatten_cons, List.flatten_cons, List.mem_append, List.mem_append, not_or, not_or]
    exact ⟨by decide, amount, by cases unit <;> decide⟩
  | not e ih | neg e ih =>
    have inner := ih resolved clean
    simp [sql, format, inner]
  | isNull e negated ih =>
    have inner := ih resolved clean
    cases negated <;> simp [sql, format, notWord, inner]
  | finite e numeric ih =>
    have inner := ih resolved clean
    cases numeric <;> simp [sql, format, numericName, inner]
  | binary op l r left right =>
    rw [texts, List.forall_mem_append] at clean
    have first := left resolved.1 clean.1
    have second := right resolved.2 clean.2
    have sign : '\x00' ∉ op.sql := by cases op <;> decide
    simp [sql, format, first, second, sign]
  | between e lo hi negated value low high =>
    rw [texts, List.forall_mem_append, List.forall_mem_append] at clean
    have first := value resolved.1 clean.1.1
    have second := low resolved.2.1 clean.1.2
    have third := high resolved.2.2 clean.2
    cases negated <;> simp [sql, format, notWord, first, second, third]
  | inList e list negated value items =>
    rw [texts, List.forall_mem_append] at clean
    have first := value resolved.1 clean.1
    have others := nul_not_mem_sqlAll (fun e mem => items e mem ((resolvedAll_iff list).mp resolved.2.2 e mem)) clean.2
    have joined : '\x00' ∉ joinComma (sqlAll list) := by
      rw [nul_mem_joinComma]
      rintro ⟨text, mem, nul⟩
      exact others text mem nul
    cases negated <;> simp [sql, format, notWord, first, joined]
  | call func args items =>
    exact nul_not_mem_sqlCall (nul_not_mem_sqlAll (fun e mem => items e mem ((resolvedAll_iff args).mp resolved.2 e mem)) clean)
  | arrayWithin field values =>
    rw [texts, List.forall_mem_cons] at clean
    have joined : '\x00' ∉ joinComma (values.map quoteLiteral) := by
      rw [nul_mem_joinComma]
      rintro ⟨text, mem, nul⟩
      obtain ⟨value, listed, rfl⟩ := List.mem_map.mp mem
      exact clean.2 value listed (nul_mem_quoteLiteral.mp nul)
    have name : '\x00' ∉ quoteIdent field := nul_mem_quoteIdent.not.mpr clean.1
    simp [sql, format, name, joined]

theorem lex_sql {e : Expr} (resolved : Resolved e) (clean : '\x00' ∉ sql e) :
    lex (sql e) = some (tokens (pieces false e)) := by
  have rendered : sql e = render (pieces false e) := (render_pieces resolved false).symm
  rw [rendered] at clean ⊢
  exact lex_render (phrase_pieces resolved false).wellFormed clean

end RootCx.Rules
