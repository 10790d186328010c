import Mathlib
import RootCx.Postgres.Lexer

/-! # Generated SQL as a list of pieces

Text that a program puts together for PostgreSQL is a list of pieces: words,
operators, punctuation, quoted names, literals, numbers and parameters, each with
or without a space before it.  When every piece is well formed and no piece can
run into the next one, lexing the rendered text gives the pieces back, whatever
characters the quoted names and literals hold.
-/

namespace RootCx.Postgres

open RootCx.Text List

/-! ## Quoting -/

/-- Write every `quote` in the text twice, as `str::replace` does. -/
def doubled (quote : Char) (text : Text) : Text :=
  text.flatMap fun c => if c = quote then [quote, quote] else [c]

@[simp] theorem doubled_nil (quote : Char) : doubled quote [] = [] := rfl

theorem doubled_quote (quote : Char) (text : Text) :
    doubled quote (quote :: text) = quote :: quote :: doubled quote text := by
  simp [doubled]

variable {quote : Char} {rest : Text} {toks : List Token}

theorem doubled_other {c : Char} (other : c ≠ quote) (text : Text) :
    doubled quote (c :: text) = c :: doubled quote text := by
  simp [doubled, other]

theorem doubled_of_not_mem {text : Text} (absent : quote ∉ text) : doubled quote text = text := by
  induction text with
  | nil => rfl
  | cons c text ih =>
    rw [mem_cons, not_or] at absent
    rw [doubled_other (fun equal => absent.1 equal.symm), ih absent.2]

theorem mem_doubled {c : Char} {text : Text} : c ∈ doubled quote text ↔ c ∈ text := by
  induction text with
  | nil => rfl
  | cons d text ih =>
    by_cases same : d = quote
    · subst same
      simp [doubled_quote, ih]
    · simp [doubled_other same, ih]

def quoteIdent (ident : Text) : Text := '"' :: doubled '"' ident ++ ['"']

def quoteLiteral (value : Text) : Text := '\'' :: doubled '\'' value ++ ['\'']

theorem scanQuoted_doubled (ident rest : Text) (stop : rest.head? ≠ some '"') :
    scanQuoted (doubled '"' ident ++ '"' :: rest) = some (ident, rest) := by
  induction ident with
  | nil =>
    cases rest with
    | nil => rfl
    | cons c rest =>
      have other : c ≠ '"' := by simpa using stop
      simp [scanQuoted, other]
  | cons c ident ih =>
    by_cases quote : c = '"'
    · subst quote
      rw [doubled_quote, cons_append, cons_append, scanQuoted, ih]
      rfl
    · rw [doubled_other quote, cons_append, scanQuoted, ih]
      · rfl
      · exact fun _ equal => absurd equal quote
      · exact fun equal => absurd equal quote

/-- No other literal continues the one that ended before `rest`. -/
def Ends (rest : Text) : Prop := scanString (.between rest false false) rest = some ([], rest)

theorem scanString_doubled (value rest : Text) (stop : rest.head? ≠ some '\'') (ends : Ends rest) :
    scanString .inside (doubled '\'' value ++ '\'' :: rest) = some (value, rest) := by
  induction value with
  | nil =>
    cases rest with
    | nil => rfl
    | cons c rest =>
      have other : c ≠ '\'' := by simpa using stop
      rw [doubled_nil, nil_append, scanString]
      · exact ends
      · exact fun _ equal => other (cons.inj equal).1
  | cons c value ih =>
    by_cases quote : c = '\''
    · subst quote
      rw [doubled_quote, cons_append, cons_append, scanString, ih]
      rfl
    · rw [doubled_other quote, cons_append, scanString, ih]
      · rfl
      · exact fun _ equal => absurd equal quote
      · exact fun equal => absurd equal quote

/-! ## Pieces -/

inductive Body where
  | word (text : Text)
  | op (text : Text)
  | punct (text : Text)
  | ident (name : Text)
  | lit (value : Text)
  | num (text : Text)
  | param (index : Text)

structure Piece where
  space : Bool
  body : Body

def Body.text : Body → Text
  | .word text | .op text | .punct text | .num text => text
  | .ident name => quoteIdent name
  | .lit value => quoteLiteral value
  | .param index => '$' :: index

def Body.token : Body → Token
  | .word text => .word (text.map Char.toLower)
  | .op text | .punct text => .sym text
  | .ident name => .quoted name
  | .lit value => .str value
  | .num text => .num text
  | .param index => .param index

def Piece.text (piece : Piece) : Text :=
  if piece.space then ' ' :: piece.body.text else piece.body.text

def render (pieces : List Piece) : Text := pieces.flatMap Piece.text

def tokens (pieces : List Piece) : List Token := pieces.map fun piece => piece.body.token

/-- Digits with an optional fraction. -/
def isNumber (text : Text) : Bool :=
  let whole := text.takeWhile Char.isDigit
  !whole.isEmpty &&
    match text.dropWhile Char.isDigit with
    | [] => true
    | '.' :: fraction => !fraction.isEmpty && fraction.all Char.isDigit
    | _ => false

theorem isNumber_cases {text : Text} (number : isNumber text = true) :
    ∃ whole, whole ≠ [] ∧ (∀ c ∈ whole, c.isDigit = true) ∧
      (text = whole ∨ ∃ d fraction, (∀ c ∈ d :: fraction, c.isDigit = true) ∧
        text = whole ++ '.' :: d :: fraction) := by
  simp only [isNumber, Bool.and_eq_true, Bool.not_eq_true', isEmpty_eq_false_iff] at number
  obtain ⟨nonempty, tail⟩ := number
  have parts := takeWhile_append_dropWhile (p := Char.isDigit) (l := text)
  refine ⟨text.takeWhile Char.isDigit, nonempty, fun c => mem_takeWhile_imp, ?_⟩
  split at tail
  next whole =>
    rw [whole, append_nil] at parts
    exact .inl parts.symm
  next fraction dropped =>
    rw [dropped] at parts
    cases fraction with
    | nil => exact absurd tail (by simp)
    | cons d fraction =>
      simp only [Bool.and_eq_true, all_eq_true] at tail
      exact .inr ⟨d, fraction, tail.2, parts.symm⟩
  next => cases tail

def PUNCTUATION : List Text :=
  ["(".toList, ")".toList, ",".toList, "[".toList, "]".toList, ".".toList, "::".toList]

/-- A word of more than one letter, so that no literal prefix is meant. -/
def isWord (text : Text) : Bool :=
  1 < text.length && text.head?.any isIdentStart && text.all isIdentCont &&
    byteLength (text.map Char.toLower) ≤ MAX_IDENT_BYTES

/-- An operator the scanner keeps in one piece. -/
def isOperator (text : Text) : Bool :=
  text != [] && text.all isOpChar && cutComment text == text && trimSigns text == text

def Body.Valid : Body → Prop
  | .word text => isWord text = true
  | .op text => isOperator text = true
  | .punct text => text ∈ PUNCTUATION
  | .ident name => name ≠ [] ∧ byteLength name ≤ MAX_IDENT_BYTES
  | .lit _ => True
  | .num text => isNumber text = true
  | .param index => index ≠ [] ∧ index.all Char.isDigit = true

/-- Whether `next` may stand directly behind `piece` without a space. -/
def Body.meets : Body → Body → Bool
  | .punct text, next =>
    if text = ".".toList || text = "::".toList then
      match next with
      | .word _ => true
      | _ => false
    else true
  | .op _, _ => false
  | .num _, .punct text => text != ".".toList
  | _, .punct _ => true
  | _, _ => false

def Piece.follows (piece next : Piece) : Prop := next.space = true ∨ piece.body.meets next.body = true

/-! ## One piece at a time -/

/-- What may stand behind a piece, as a condition on the text. -/
def Body.Stops (rest : Text) : Body → Prop
  | .word _ => rest.head?.any isIdentCont = false
  | .op _ => rest.head?.any isOpChar = false
  | .punct text => text = ".".toList → rest.head?.any (fun c => c.isDigit || c == '.') = false
  | .ident _ => rest.head? ≠ some '"'
  | .lit _ => rest.head? ≠ some '\'' ∧ Ends rest
  | .num _ => rest.head?.any (fun c => c.isDigit || c == '.' || isIdentStart c) = false
  | .param _ => rest.head?.any (fun c => c.isDigit || isIdentStart c) = false

theorem scan_ident {name : Text} (valid : (Body.ident name).Valid) (stops : (Body.ident name).Stops rest) :
    scan ((Body.ident name).text ++ rest) = some (.quoted name, rest) := by
  obtain ⟨nonempty, short⟩ := valid
  have scanned := scanQuoted_doubled name rest stops
  have shape : (Body.ident name).text ++ rest = '"' :: (doubled '"' name ++ '"' :: rest) := by
    simp [Body.text, quoteIdent]
  rw [shape, scan_quote scanned nonempty, truncateIdent, clip_eq_self short]

theorem scan_lit {value : Text} (stops : (Body.lit value).Stops rest) :
    scan ((Body.lit value).text ++ rest) = some (.str value, rest) := by
  have shape : (Body.lit value).text ++ rest = '\'' :: (doubled '\'' value ++ '\'' :: rest) := by
    simp [Body.text, quoteLiteral]
  rw [shape, scan_apostrophe, scanString_doubled value rest stops.1 stops.2]
  rfl

theorem scan_word {text : Text} (valid : (Body.word text).Valid) (stops : (Body.word text).Stops rest) :
    scan (text ++ rest) = some (.word (text.map Char.toLower), rest) := by
  simp only [Body.Valid, isWord, Bool.and_eq_true, decide_eq_true_eq] at valid
  obtain ⟨⟨⟨long, start⟩, names⟩, short⟩ := valid
  have names : ∀ c ∈ text, isIdentCont c = true := all_eq_true.mp names
  have plain : isPrefixed (text.map Char.toLower) rest = false := by
    have length : (text.map Char.toLower).length ≠ 1 := by
      rw [length_map]
      omega
    apply isPrefixed_eq_false
    intro letter
    have single : ∀ name ∈ ["b".toList, "x".toList, "n".toList, "e".toList, "u".toList],
        name.length = 1 := by decide
    exact length (single _ letter)
  cases text with
  | nil => exact absurd long (by decide)
  | cons c text =>
    rw [cons_append, scan_of_isIdentStart (by simpa using start), ← cons_append, scanWord,
      takeWhile_append_of_stop names stops, dropWhile_append_of_stop names stops, plain,
      truncateIdent, clip_eq_self short]
    rfl

theorem scan_op {text : Text} (valid : (Body.op text).Valid) (stops : (Body.op text).Stops rest) :
    scan (text ++ rest) = some (.sym text, rest) := by
  simp only [Body.Valid, isOperator, Bool.and_eq_true, bne_iff_ne, beq_iff_eq] at valid
  obtain ⟨⟨⟨nonempty, chars⟩, uncut⟩, untrimmed⟩ := valid
  have chars : ∀ c ∈ text, isOpChar c = true := all_eq_true.mp chars
  have scanned : scanOperator (text ++ rest) = some (.sym text, rest) := by
    rw [scanOperator, takeWhile_append_of_stop chars stops, uncut, untrimmed]
    cases text with
    | nil => exact absurd rfl nonempty
    | cons c text => simp
  cases text with
  | nil => exact absurd rfl nonempty
  | cons c text =>
    rw [← scanned]
    exact scan_of_isOpChar (chars c (by simp))

theorem scan_param {index : Text} (valid : (Body.param index).Valid) (stops : (Body.param index).Stops rest) :
    scan ((Body.param index).text ++ rest) = some (.param index, rest) := by
  obtain ⟨nonempty, digits⟩ := valid
  have digits : ∀ c ∈ index, c.isDigit = true := all_eq_true.mp digits
  have noDigit : rest.head?.any Char.isDigit = false := by
    cases rest <;> simp_all [Body.Stops]
  have noName : rest.head?.any isIdentStart = false := by
    cases rest <;> simp_all [Body.Stops]
  show scan ('$' :: (index ++ rest)) = _
  rw [scan_dollar (takeWhile_append_of_stop digits noDigit) (dropWhile_append_of_stop digits noDigit)
    nonempty, noJunk, noName]
  rfl

theorem scan_num {text : Text} (valid : (Body.num text).Valid) (stops : (Body.num text).Stops rest) :
    scan (text ++ rest) = some (.num text, rest) := by
  have noDigit : rest.head?.any Char.isDigit = false := by
    cases rest <;> simp_all [Body.Stops]
  have noDot : rest.head? ≠ some '.' := by
    cases rest <;> simp_all [Body.Stops]
  have noName : rest.head?.any isIdentStart = false := by
    cases rest <;> simp_all [Body.Stops]
  obtain ⟨whole, nonempty, digits, shape⟩ := isNumber_cases valid
  have number : ∀ tail, scan (whole ++ tail) = scanNumber (whole ++ tail) := by
    intro tail
    cases whole with
    | nil => exact absurd rfl nonempty
    | cons c whole => exact scan_of_isDigit (digits c (by simp))
  obtain rfl | ⟨d, fraction, more, rfl⟩ := shape
  · rw [number, scanNumber, takeWhile_append_of_stop digits noDigit,
      dropWhile_append_of_stop digits noDigit]
    split
    next => exact absurd rfl noDot
    next => exact absurd rfl noDot
    next => rw [noJunk, noName]; rfl
  · have dot : ('.' :: d :: fraction ++ rest).head?.any Char.isDigit = false := rfl
    have notDot : d ≠ '.' := by
      rintro rfl
      exact absurd (more '.' (by simp)) (by decide)
    rw [append_assoc, number, scanNumber, takeWhile_append_of_stop digits dot,
      dropWhile_append_of_stop digits dot]
    simp only [cons_append]
    split
    next equal =>
      obtain ⟨-, equal⟩ := cons.inj equal
      exact absurd (cons.inj equal).1 notDot
    next tail _ equal =>
      obtain ⟨-, rfl⟩ := cons.inj equal
      rw [← cons_append, takeWhile_append_of_stop more noDigit,
        dropWhile_append_of_stop more noDigit, noJunk, noName]
      rfl
    next _ other => exact absurd rfl (other (d :: (fraction ++ rest)))

theorem scan_punct {text : Text} (valid : (Body.punct text).Valid) (stops : (Body.punct text).Stops rest) :
    scan (text ++ rest) = some (.sym text, rest) := by
  have listed : text ∈ PUNCTUATION := valid
  simp only [PUNCTUATION, mem_cons, not_mem_nil, or_false] at listed
  obtain rfl | rfl | rfl | rfl | rfl | rfl | rfl := listed
  case inr.inr.inr.inr.inr.inl =>
    -- a dot starts a number or `..` when the wrong character follows
    have next := stops rfl
    cases rest with
    | nil => rfl
    | cons c rest =>
      simp only [head?_cons, Option.any_some, Bool.or_eq_false_iff, beq_eq_false_iff_ne] at next
      simp [scan, next.1, next.2, show isIdentStart '.' = false by rfl,
        show isOpChar '.' = false by rfl]
  all_goals rfl

variable {body : Body} {pieces front : List Piece}

theorem scan_body (valid : body.Valid) (stops : body.Stops rest) :
    scan (body.text ++ rest) = some (body.token, rest) := by
  cases body with
  | word text => exact scan_word valid stops
  | op text => exact scan_op valid stops
  | punct text => exact scan_punct valid stops
  | ident name => exact scan_ident valid stops
  | lit value => exact scan_lit stops
  | num text => exact scan_num valid stops
  | param index => exact scan_param valid stops

/-- A text whose first character starts neither space nor comment. -/
def Solid (text : Text) : Prop :=
  ∃ c rest, text = c :: rest ∧ isSpace c = false ∧ ¬(c = '-' ∧ rest.head? = some '-') ∧
    ¬(c = '/' ∧ rest.head? = some '*')

theorem Solid.of_char {c : Char} (space : isSpace c = false) (dash : c ≠ '-') (slash : c ≠ '/') :
    Solid (c :: rest) :=
  ⟨c, rest, rfl, space, fun both => dash both.1, fun both => slash both.1⟩

theorem solid_body (valid : body.Valid) (stops : body.Stops rest) : Solid (body.text ++ rest) := by
  cases body with
  | word text =>
    simp only [Body.Valid, isWord, Bool.and_eq_true] at valid
    have start := valid.1.1.2
    cases text with
    | nil => cases start
    | cons c text =>
      have start : isIdentStart c = true := by simpa using start
      apply Solid.of_char (isSpace_of_isIdentStart start)
      · rintro rfl
        exact absurd start (by decide)
      · rintro rfl
        exact absurd start (by decide)
  | op text =>
    simp only [Body.Valid, isOperator, Bool.and_eq_true, bne_iff_ne, beq_iff_eq] at valid
    obtain ⟨⟨⟨nonempty, chars⟩, uncut⟩, -⟩ := valid
    cases text with
    | nil => exact absurd rfl nonempty
    | cons c text =>
      have mem : isOpChar c = true := all_eq_true.mp chars c (by simp)
      refine ⟨c, text ++ rest, rfl, isSpace_eq_false mem (forall_mem_of_all rfl), ?_, ?_⟩
      -- a comment would have to start inside the operator or behind its end
      · rintro ⟨rfl, next⟩
        cases text with
        | nil =>
          cases rest with
          | nil => cases next
          | cons d rest =>
            cases next
            cases stops
        | cons d text =>
          cases next
          cases uncut
      · rintro ⟨rfl, next⟩
        cases text with
        | nil =>
          cases rest with
          | nil => cases next
          | cons d rest =>
            cases next
            cases stops
        | cons d text =>
          cases next
          cases uncut
  | punct text =>
    have listed : text ∈ PUNCTUATION := valid
    simp only [PUNCTUATION, mem_cons, not_mem_nil, or_false] at listed
    obtain rfl | rfl | rfl | rfl | rfl | rfl | rfl := listed <;>
      exact Solid.of_char (by decide) (by decide) (by decide)
  | ident name => exact Solid.of_char (by decide) (by decide) (by decide)
  | lit value => exact Solid.of_char (by decide) (by decide) (by decide)
  | num text =>
    obtain ⟨whole, nonempty, digits, shape⟩ := isNumber_cases valid
    have digitStart : ∀ tail, Solid (whole ++ tail) := by
      intro tail
      cases whole with
      | nil => exact absurd rfl nonempty
      | cons c whole =>
        have digit := digits c (by simp)
        apply Solid.of_char (isSpace_eq_false digit (forall_mem_of_all rfl))
        · rintro rfl
          exact absurd digit (by decide)
        · rintro rfl
          exact absurd digit (by decide)
    obtain rfl | ⟨d, fraction, more, rfl⟩ := shape
    · exact digitStart rest
    · rw [Body.text, append_assoc]
      exact digitStart _
  | param index => exact Solid.of_char (by decide) (by decide) (by decide)

theorem Solid.ends {text resume : Text} (solid : Solid text) :
    scanString (.between resume false false) text = some ([], resume) := by
  obtain ⟨c, rest, rfl, space, line, -⟩ := solid
  have dashes : (c == '-' && rest.head? == some '-') = false := by
    rw [Bool.eq_false_iff]
    intro both
    exact line (by simpa using both)
  rw [scanString, Bool.and_false, space, dashes]
  rfl

/-! ## The whole text -/

theorem render_cons (piece : Piece) (pieces : List Piece) :
    render (piece :: pieces) = piece.text ++ render pieces := rfl

@[simp] theorem render_nil : render [] = [] := rfl

@[simp] theorem render_append (front rest : List Piece) :
    render (front ++ rest) = render front ++ render rest :=
  flatMap_append

@[simp] theorem tokens_append (front rest : List Piece) :
    tokens (front ++ rest) = tokens front ++ tokens rest :=
  map_append

theorem stops_of_space {text : Text} (solid : Solid text) : body.Stops (' ' :: text) := by
  cases body with
  | word _ | op _ | num _ | param _ => rfl
  | punct _ => exact fun _ => rfl
  | ident _ => exact fun equal => absurd (Option.some.inj equal) (by decide)
  | lit _ =>
    refine ⟨fun equal => absurd (Option.some.inj equal) (by decide), ?_⟩
    show scanString (.between (' ' :: text) false false) (' ' :: text) = _
    rw [scanString]
    exact solid.ends

theorem punctuation_start {text : Text} (listed : text ∈ PUNCTUATION) :
    ∃ c more, text = c :: more ∧ c ∈ ['(', ')', ',', '[', ']', '.', ':'] ∧
      (c = '.' → text = ".".toList) := by
  simp only [PUNCTUATION, mem_cons, not_mem_nil, or_false] at listed
  obtain rfl | rfl | rfl | rfl | rfl | rfl | rfl := listed <;>
    exact ⟨_, _, rfl, by decide, by decide⟩

theorem stops_of_meets {next : Body} (valid : next.Valid) (stops : next.Stops rest)
    (meets : body.meets next = true) : body.Stops (next.text ++ rest) := by
  have solid := solid_body valid stops
  cases body with
  | punct text =>
    intro dot
    subst dot
    cases next with
    | word name =>
      simp only [Body.Valid, isWord, Bool.and_eq_true] at valid
      have start := valid.1.1.2
      cases name with
      | nil => cases start
      | cons c name =>
        have start : isIdentStart c = true := by simpa using start
        have dot : c ≠ '.' := by
          rintro rfl
          exact absurd start (by decide)
        simp [Body.text, isDigit_of_isIdentStart start, dot]
    | _ => cases meets
  | op text => cases meets
  | word text =>
    cases next with
    | punct mark =>
      obtain ⟨c, more, rfl, listed, -⟩ := punctuation_start valid
      have stop : ∀ c ∈ ['(', ')', ',', '[', ']', '.', ':'], isIdentCont c = false := forall_mem_of_all rfl
      exact stop c listed
    | _ => cases meets
  | ident name =>
    cases next with
    | punct mark =>
      obtain ⟨c, more, rfl, listed, -⟩ := punctuation_start valid
      have stop : ∀ c ∈ ['(', ')', ',', '[', ']', '.', ':'], c ≠ '"' := forall_mem_of_all rfl
      exact fun equal => stop c listed (Option.some.inj equal)
    | _ => cases meets
  | lit value =>
    cases next with
    | punct mark =>
      obtain ⟨c, more, rfl, listed, -⟩ := punctuation_start valid
      have stop : ∀ c ∈ ['(', ')', ',', '[', ']', '.', ':'], c ≠ '\'' := forall_mem_of_all rfl
      exact ⟨fun equal => stop c listed (Option.some.inj equal), solid.ends⟩
    | _ => cases meets
  | num text =>
    cases next with
    | punct mark =>
      obtain ⟨c, more, rfl, listed, dotted⟩ := punctuation_start valid
      have noDot : c ≠ '.' := by
        intro dot
        rw [Body.meets, dotted dot] at meets
        cases meets
      have stop : ∀ c ∈ ['(', ')', ',', '[', ']', '.', ':'], c ≠ '.' →
          (c.isDigit || c == '.' || isIdentStart c) = false := forall_mem_of_all rfl
      exact stop c listed noDot
    | _ => cases meets
  | param index =>
    cases next with
    | punct mark =>
      obtain ⟨c, more, rfl, listed, -⟩ := punctuation_start valid
      have stop : ∀ c ∈ ['(', ')', ',', '[', ']', '.', ':'],
          (c.isDigit || isIdentStart c) = false := forall_mem_of_all rfl
      exact stop c listed
    | _ => cases meets

theorem stops_end (body : Body) : body.Stops [] := by
  cases body with
  | word _ | op _ | num _ | param _ => rfl
  | punct _ => exact fun _ => rfl
  | ident _ => exact fun equal => nomatch equal
  | lit _ => exact ⟨fun equal => (nomatch equal), rfl⟩

/-- Well-formed pieces, no two of which run into each other. -/
structure WellFormed (pieces : List Piece) : Prop where
  valid : ∀ piece ∈ pieces, piece.body.Valid
  chain : pieces.IsChain Piece.follows

theorem WellFormed.tail {piece : Piece} {pieces : List Piece}
    (wellFormed : WellFormed (piece :: pieces)) : WellFormed pieces :=
  ⟨fun other mem => wellFormed.valid other (by simp [mem]), wellFormed.chain.tail⟩

theorem stops_render {piece : Piece} (wellFormed : WellFormed (piece :: pieces)) {tail : Text}
    (stops : ∀ last ∈ (piece :: pieces).getLast?, last.body.Stops tail) :
    piece.body.Stops (render pieces ++ tail) := by
  -- from the right: what a piece may meet depends on where the next one stops
  induction pieces generalizing piece with
  | nil => exact stops piece rfl
  | cons next pieces ih =>
    have follows : piece.follows next := (isChain_cons_cons.mp wellFormed.chain).1
    have valid : next.body.Valid := wellFormed.valid next (by simp)
    have stops : next.body.Stops (render pieces ++ tail) :=
      ih wellFormed.tail (by rwa [getLast?_cons_cons] at stops)
    rw [render_cons, Piece.text, append_assoc]
    split
    next space => exact stops_of_space (solid_body valid stops)
    next glued => exact stops_of_meets valid stops (follows.resolve_left glued)

/-- The pieces are scanned one by one, and lexing goes on behind the last. -/
theorem lexLoop_render (wellFormed : WellFormed pieces) {tail : Text}
    (stops : ∀ last ∈ pieces.getLast?, last.body.Stops tail) {fuel : Nat} {rest : List Token}
    (lexed : lexLoop fuel tail = some rest) :
    lexLoop (pieces.length + fuel) (render pieces ++ tail) = some (tokens pieces ++ rest) := by
  induction pieces with
  | nil =>
    rw [length_nil, Nat.zero_add]
    exact lexed
  | cons piece pieces ih =>
    have valid : piece.body.Valid := wellFormed.valid piece (by simp)
    have pieceStops := stops_render wellFormed stops
    have others : ∀ last ∈ pieces.getLast?, last.body.Stops tail := by
      cases pieces with
      | nil => exact fun last mem => nomatch mem
      | cons next pieces => rwa [getLast?_cons_cons] at stops
    obtain ⟨c, more, start, space, line, block⟩ := solid_body valid pieceStops
    have skipped : skipNoise .plain (render (piece :: pieces) ++ tail) = some (c :: more) := by
      rw [render_cons, Piece.text, append_assoc]
      split
      · rw [cons_append, skipNoise_space rfl, start, skipNoise_stop space line block]
      · rw [start, skipNoise_stop space line block]
    have scanned := scan_body valid pieceStops
    rw [start] at scanned
    rw [length_cons, Nat.add_right_comm, lexLoop]
    simp only [skipped, scanned, ih wellFormed.tail others]
    rfl

theorem length_le_render (wellFormed : WellFormed pieces) : pieces.length ≤ (render pieces).length := by
  induction pieces with
  | nil => exact Nat.zero_le _
  | cons piece pieces ih =>
    obtain ⟨c, rest, start, -⟩ := solid_body (wellFormed.valid piece (by simp)) (stops_end piece.body)
    have shorter := ih wellFormed.tail
    have visible : 0 < piece.body.text.length := by
      rw [append_nil] at start
      simp [start]
    rw [render_cons, length_append, length_cons, Piece.text]
    split
    · rw [length_cons]
      omega
    · omega

/-! ## Putting pieces together -/

def glued (body : Body) : Piece := ⟨false, body⟩

def spaced (body : Body) : Piece := ⟨true, body⟩

@[simp] theorem text_glued (body : Body) : (glued body).text = body.text := rfl

@[simp] theorem text_spaced (body : Body) : (spaced body).text = ' ' :: body.text := rfl

def leading (space : Bool) : Text := if space then [' '] else []

theorem render_piece (space : Bool) (body : Body) : Piece.text ⟨space, body⟩ = leading space ++ body.text := by
  cases space <;> rfl

def openParen (space : Bool) : Piece := ⟨space, .punct "(".toList⟩

def closeParen : Piece := glued (.punct ")".toList)

theorem text_openParen (space : Bool) : (openParen space).text = leading space ++ ['('] :=
  render_piece space _

theorem text_closeParen : closeParen.text = [')'] := rfl

/-- Closing punctuation may stand directly behind the body. -/
def Body.closes (body : Body) : Bool :=
  [")".toList, ",".toList, "]".toList, "::".toList].all fun text => body.meets (.punct text)

/-- A well-formed list of pieces that starts with a piece of the given spacing and
    that closing punctuation may follow. -/
structure Phrase (space : Bool) (pieces : List Piece) : Prop where
  wellFormed : WellFormed pieces
  start : ∃ body rest, pieces = ⟨space, body⟩ :: rest
  last : ∀ piece ∈ pieces.getLast?, piece.body.closes = true

theorem WellFormed.nil : WellFormed [] := ⟨by simp, .nil⟩

theorem WellFormed.cons {piece next : Piece} {pieces : List Piece} (valid : piece.body.Valid)
    (follows : piece.follows next) (wellFormed : WellFormed (next :: pieces)) :
    WellFormed (piece :: next :: pieces) :=
  ⟨fun other mem => (mem_cons.mp mem).elim (fun equal => equal ▸ valid)
      (wellFormed.valid other), .cons_cons follows wellFormed.chain⟩

theorem WellFormed.single {piece : Piece} (valid : piece.body.Valid) : WellFormed [piece] :=
  ⟨fun _ mem => mem_singleton.mp mem ▸ valid, .singleton _⟩

theorem WellFormed.cons_spaced {piece : Piece} {body : Body} {pieces : List Piece}
    (valid : piece.body.Valid) (wellFormed : WellFormed (⟨true, body⟩ :: pieces)) :
    WellFormed (piece :: ⟨true, body⟩ :: pieces) :=
  .cons valid (.inl rfl) wellFormed

theorem WellFormed.cons_glued {piece : Piece} {body : Body} {pieces : List Piece}
    (valid : piece.body.Valid) (meets : piece.body.meets body = true)
    (wellFormed : WellFormed (⟨false, body⟩ :: pieces)) :
    WellFormed (piece :: ⟨false, body⟩ :: pieces) :=
  .cons valid (.inr meets) wellFormed

theorem WellFormed.open_paren {space : Bool} {pieces : List Piece} (wellFormed : WellFormed pieces) :
    WellFormed (⟨space, .punct "(".toList⟩ :: pieces) := by
  have paren : (Body.punct "(".toList).Valid := by
    show _ ∈ PUNCTUATION
    decide
  cases pieces with
  | nil => exact .single paren
  | cons next pieces => exact .cons paren (.inr rfl) wellFormed

theorem WellFormed.append {front rest : List Piece} (left : WellFormed front)
    (right : WellFormed rest)
    (junction : ∀ piece ∈ front.getLast?, ∀ next ∈ rest.head?, piece.follows next) :
    WellFormed (front ++ rest) :=
  ⟨fun piece mem => (mem_append.mp mem).elim (left.valid piece) (right.valid piece),
    left.chain.append right.chain junction⟩

theorem Phrase.append_spaced {space : Bool} {rest : List Piece} (phrase : Phrase space front)
    (right : WellFormed (⟨true, body⟩ :: rest)) : WellFormed (front ++ ⟨true, body⟩ :: rest) :=
  phrase.wellFormed.append right fun piece _ next head => by
    cases head
    exact .inl rfl

theorem Phrase.append_closing {space : Bool} {front rest : List Piece} {text : Text}
    (phrase : Phrase space front) (right : WellFormed (⟨false, .punct text⟩ :: rest))
    (closing : text ∈ [")".toList, ",".toList, "]".toList, "::".toList]) :
    WellFormed (front ++ ⟨false, .punct text⟩ :: rest) :=
  phrase.wellFormed.append right fun piece last next head => by
    cases head
    exact .inr (all_eq_true.mp (phrase.last piece last) text closing)

theorem Phrase.single {space : Bool} {body : Body} (valid : body.Valid) (closes : body.closes = true) :
    Phrase space [⟨space, body⟩] :=
  ⟨.single valid, ⟨body, [], rfl⟩, fun piece last => by
    cases last
    exact closes⟩

theorem word_valid {text : Text} (word : isWord text = true) : (Body.word text).Valid := word

theorem punct_valid {text : Text} (listed : text ∈ PUNCTUATION) : (Body.punct text).Valid := listed

theorem op_valid {text : Text} (operator : isOperator text = true) : (Body.op text).Valid := operator

theorem close_wellFormed : WellFormed [closeParen] := .single (punct_valid (by decide))

theorem Phrase.closed {space : Bool} {rest : List Piece} (wellFormed : WellFormed (⟨space, body⟩ :: rest))
    (closed : (⟨space, body⟩ :: rest : List Piece).getLast? = some closeParen) :
    Phrase space (⟨space, body⟩ :: rest) := by
  refine ⟨wellFormed, ⟨_, _, rfl⟩, ?_⟩
  intro piece last
  rw [closed] at last
  cases last
  rfl

theorem last_cons {piece last : Piece} {rest : List Piece} (ends : rest.getLast? = some last) :
    (piece :: rest).getLast? = some last := by
  rw [getLast?_cons, ends, Option.getD_some]

theorem last_append {rest : List Piece} {last : Piece} (ends : rest.getLast? = some last) :
    (front ++ rest).getLast? = some last := by
  rw [getLast?_append, ends, Option.some_or]

theorem Phrase.paren {space : Bool} {inner : List Piece} (wellFormed : WellFormed inner)
    (closed : inner.getLast? = some closeParen) : Phrase space (openParen space :: inner) :=
  .closed wellFormed.open_paren (last_cons closed)

theorem Phrase.behind {piece : Piece} {front rest : List Piece} (phrase : Phrase true front)
    (valid : piece.body.Valid) (wellFormed : WellFormed (front ++ rest)) :
    WellFormed (piece :: (front ++ rest)) := by
  obtain ⟨body, more, rfl⟩ := phrase.start
  exact .cons_spaced valid wellFormed

theorem Phrase.close {space : Bool} (phrase : Phrase space front) : WellFormed (front ++ [closeParen]) :=
  phrase.append_closing close_wellFormed (by decide)

/-! ## Lexing text that is put together -/

/-- The text has these tokens, also with more rounds than `lex` allows. -/
def Lexes (text : Text) (toks : List Token) : Prop :=
  ∀ fuel, text.length < fuel → lexLoop fuel text = some toks

theorem Lexes.nil : Lexes [] [] := by
  intro fuel enough
  obtain ⟨fuel, rfl⟩ : ∃ n, fuel = n + 1 := ⟨fuel - 1, by simp only [length_nil] at enough; omega⟩
  rfl

theorem Lexes.space {text : Text} (lexes : Lexes text toks) : Lexes (' ' :: text) toks := by
  intro fuel enough
  rw [length_cons] at enough
  have inner := lexes fuel (by omega)
  obtain ⟨fuel, rfl⟩ : ∃ n, fuel = n + 1 := ⟨fuel - 1, by omega⟩
  rw [← inner, lexLoop, lexLoop, skipNoise_space rfl]

theorem Lexes.render {tail : Text} (lexes : Lexes tail toks) (wellFormed : WellFormed pieces)
    (stops : ∀ last ∈ pieces.getLast?, last.body.Stops tail) :
    Lexes (render pieces ++ tail) (tokens pieces ++ toks) := by
  intro fuel enough
  have visible := length_le_render wellFormed
  rw [length_append] at enough
  have rounds : fuel = pieces.length + (fuel - pieces.length) := by omega
  rw [rounds]
  exact lexLoop_render wellFormed stops (lexes _ (by omega))

theorem Lexes.lex {text : Text} (lexes : Lexes text toks) (clean : '\x00' ∉ text) : lex text = some toks := by
  rw [Postgres.lex, if_neg clean]
  exact lexes _ (Nat.lt_succ_self _)

theorem lex_render (wellFormed : WellFormed pieces) (clean : '\x00' ∉ render pieces) :
    lex (render pieces) = some (tokens pieces) := by
  have lexes := Lexes.nil.render wellFormed fun last _ => stops_end last.body
  rw [append_nil, append_nil] at lexes
  exact lexes.lex clean

end RootCx.Postgres
