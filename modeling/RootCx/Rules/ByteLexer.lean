import Mathlib
import RootCx.Lib.Utf8
import RootCx.Rules.Lexer
import RootCx.Lib.Except

/-! # The lexer, byte by byte

The first half of `rules/parser.rs` again, with the byte offsets it works on: every
slice and every index is taken, or is a fault.  It agrees with the lexer on
characters, so no fault is ever reached.
-/

namespace RootCx.Rules.ByteLexer

open RootCx.Text RootCx.Rules.Parser List

/-- How the lexer stops without a value. -/
inductive Fault where
  | refused (error : SyntaxError)
  -- a slice off a character boundary or outside the text
  | slice
  -- an index outside the bytes
  | index
  | expect (message : Text)
  -- a loop that has not ended after as many rounds as there are bytes
  | endless
  deriving DecidableEq, Repr

def orFault {α : Type} (fault : Fault) (value : Option α) : Except Fault α := value.elim (.error fault) .ok

/-! ## Errors -/

def error (src : Text) (offset : Nat) (message : Text) : Except Fault SyntaxError := do
  let before ← orFault .slice (sliceTo (min offset (byteLength src)) src)
  return { line := before.count '\n' + 1
           column := (before.reverse.takeWhile (· != '\n')).length + 1
           message := message }

def refuse {α : Type} (src : Text) (offset : Nat) (message : Text) : Except Fault α := do
  let failure ← error src offset message
  throw (.refused failure)

/-! ## One token -/

def stringLoop (src : Text) (start : Nat) : Nat → Nat → Text → Except Fault (Text × Nat)
  | 0, _, _ => .error .endless
  | rounds + 1, i, value =>
    match (bytes src)[i]? with
    | none => refuse src start "unterminated string literal"
    | some byte =>
      if asChar byte = '\'' then
        if (bytes src)[i + 1]?.map asChar = some '\'' then stringLoop src start rounds (i + 2) (value ++ ['\''])
        else .ok (value, i)
      else do
        let rest ← orFault .slice (sliceFrom i src)
        let ch ← orFault (.expect "in bounds") rest.head?
        if ch == '\x00' then refuse src i "NUL is not allowed in a string literal"
        else stringLoop src start rounds (i + ch.utf8Size) (value ++ [ch])

def string (src : Text) (start : Nat) : Except Fault (Tok × Nat) := do
  let (value, i) ← stringLoop src start (byteLength src + 1) (start + 1) []
  if byteLength value > MAX_STRING_BYTES then
    refuse src start
      ("string literals are limited to " ++ Nat.toDigits 10 MAX_STRING_BYTES ++ " bytes")
  else return (.str value, i + 1)

/-- The end of a number's digits. -/
def numberEnd (src : Text) (start : Nat) : Except Fault Nat :=
  let whole := scanWhile Char.isDigit (bytes src) start
  if (bytes src)[whole]?.map asChar = some '.' then
    let fraction := scanWhile Char.isDigit (bytes src) (whole + 1)
    if fraction = whole + 1 then refuse src start numberFormat else .ok fraction
  else .ok whole

def number (src : Text) (start : Nat) : Except Fault (Tok × Nat) := do
  let last ← numberEnd src start
  if ((bytes src)[last]?.map asChar).any fun c => isWordChar c || c == '.' then refuse src start numberFormat
  else if last - start > 40 then refuse src start "numeric literals are limited to 40 characters"
  else do
    let digits ← orFault .slice (slice start last src)
    return (.number digits, last)

def word (src : Text) (start : Nat) : Except Fault (Tok × Nat) := do
  let last := scanWhile isWordChar (bytes src) start
  let behind := (bytes src)[last]?.map asChar
  if behind = some '$' then refuse src last "'$' is not allowed in names"
  else do
    let name ← orFault .slice (slice start last src)
    match keyword name with
    | some kw =>
      if behind = some '\'' ∧ kw ≠ .interval then refuse src start prefixedString
      else return (.kw kw, last)
    | none =>
      if behind = some '\'' then refuse src start prefixedString
      else if name.map Char.toLower ∈ RESERVED then
        refuse src start ("'" ++ name ++ "' is not part of the rule language")
      else return (.ident name, last)

def isSign (c : Char) : Bool := c == '+' || c == '-'

def isSpecial (c : Char) : Bool := "~!@#^&|`?%".toList.contains c

/-- `while len > 1` and the last byte is a sign, leave it off. -/
def stripSigns (bytes : List UInt8) (start : Nat) : Nat → Except Fault Nat
  | 0 => .ok 0
  | 1 => .ok 1
  | len + 2 => do
    let byte ← orFault .index bytes[start + (len + 1)]?
    if isSign (asChar byte) then stripSigns bytes start (len + 1) else return len + 2

/-- How much of the run is the operator. -/
def operatorLength (src : Text) (start : Nat) (run : Text) : Except Fault Nat :=
  if byteLength run > 1 ∧ run.getLast?.any isSign = true ∧ run.any isSpecial = false then
    stripSigns (bytes src) start (byteLength run)
  else .ok (byteLength run)

def operator (src : Text) (start : Nat) : Except Fault (Tok × Nat) := do
  let last := scanWhile (OP_CHARS.contains ·) (bytes src) start
  let run ← orFault .slice (slice start last src)
  if run.tails.any fun tail => "--".toList.isPrefixOf tail || "/*".toList.isPrefixOf tail then
    refuse src start "comments are not allowed"
  else do
    let len ← operatorLength src start run
    let part ← orFault .slice (sliceTo len run)
    match operatorTok part with
    | some tok => return (tok, start + len)
    | none =>
      refuse src start ("operator '" ++ part ++
        "' is not allowed; allowed: = <> != < <= > >= + - * ~")

/-- The token that starts with the byte `c`. -/
def scanFrom (src : Text) (start : Nat) (c : Char) : Except Fault (Tok × Nat) :=
  if !isAscii c then refuse src start "only ASCII is allowed outside string literals"
  else if c == '(' then .ok (.lparen, start + 1)
  else if c == ')' then .ok (.rparen, start + 1)
  else if c == ',' then .ok (.comma, start + 1)
  else if c == '\'' then string src start
  else if c == '"' then refuse src start "quoted identifiers are not allowed; use the field name"
  else if c == '$' then refuse src start "'$' is not allowed (no parameters or dollar quoting)"
  else if c == ':' then refuse src start "casts are not allowed; Core types literals itself"
  else if c == '.' then refuse src start "qualified names and '.' are not allowed"
  else if c.isDigit then number src start
  else if c.isAlpha || c == '_' then word src start
  else if OP_CHARS.contains c then operator src start
  else refuse src start ("'" ++ c :: "' is not allowed")

def next (src : Text) (pos : Nat) : Except Fault (Tok × Nat × Nat) :=
  let start := scanWhile isSpace (bytes src) pos
  match (bytes src)[start]? with
  | none => .ok (.eof, start, start)
  | some byte => do
    let (tok, behind) ← scanFrom src start (asChar byte)
    return (tok, start, behind)

/-! ## All tokens -/

def tokensLoop (src : Text) : Nat → Nat → Except Fault (List (Tok × Nat))
  | 0, _ => .error .endless
  | rounds + 1, pos =>
    match next src pos with
    | .error (.refused failure) => .ok [(.bad failure, byteLength src)]
    | .error fault => .error fault
    | .ok (tok, start, behind) =>
      if tok.isLast then .ok [(tok, start)]
      else (tokensLoop src rounds behind).map fun more => (tok, start) :: more

def tokens (src : Text) : Except Fault (List (Tok × Nat)) := tokensLoop src (byteLength src + 1) 0

/-! ## Agreement -/

/-- What is read at an offset is what is read of the characters behind it. -/
def Agrees (src : Text) (ran : Except Fault (Tok × Nat)) : Except SyntaxError (Tok × Text) → Prop
  | .error failure => ran = .error (.refused failure)
  | .ok (tok, rest) => ∃ offset, ran = .ok (tok, offset) ∧ Cut src offset rest

variable {first : Nat} {tok : Tok} {behind : Text}

section Agreement

variable {src rest after : Text} {start : Nat} {c : Char}

theorem orFault_some {α : Type} (fault : Fault) (value : α) : orFault fault (some value) = .ok value := rfl

theorem error_of_cut (cut : Cut src start rest) (message : Text) :
    error src start message = .ok (errorAt src (position src rest) message) := by
  obtain ⟨front, rfl, rfl⟩ := cut
  have inside : min (byteLength front) (byteLength (front ++ rest)) = byteLength front := by
    rw [byteLength_append]
    omega
  have length : position (front ++ rest) rest = front.length := by
    rw [position, length_append]
    omega
  rw [error, inside, sliceTo_append, length, errorAt, take_left]
  rfl

theorem refuse_of_cut {α : Type} (cut : Cut src start rest) (message : Text) :
    (refuse src start message : Except Fault α) = .error (.refused (errorAt src (position src rest) message)) := by
  rw [refuse, error_of_cut cut]
  rfl

theorem isAscii_of_isDigit (c : Char) (digit : c.isDigit = true) : isAscii c = true := by
  by_contra foreign
  rw [isDigit_of_not_ascii (by simpa using foreign)] at digit
  cases digit

theorem isAscii_of_isWordChar (c : Char) (inside : isWordChar c = true) : isAscii c = true := by
  simp only [isWordChar, Char.isAlphanum, Bool.or_eq_true, beq_iff_eq] at inside
  rcases inside with (alpha | digit) | rfl
  · exact isAscii_of_isAlpha alpha
  · exact isAscii_of_isDigit c digit
  · rfl

theorem isAscii_of_eq {d : Char} (ascii : isAscii d = true) (c : Char) (same : (c == d) = true) : isAscii c = true := by
  rw [beq_iff_eq.mp same]
  exact ascii

theorem asChar_eq_iff {d : Char} (ascii : isAscii d = true) (cut : Cut src start rest) :
    (bytes src)[start]?.map asChar = some d ↔ rest.head? = some d := by
  cases rest with
  | nil => simp [cut.none_of_nil]
  | cons c rest =>
    obtain ⟨byte, found, starts⟩ := cut.starts
    have same := starts.property (P := (· == d)) (isAscii_of_eq ascii)
    rw [found, Option.map_some, Option.some.injEq, head?_cons, Option.some.injEq, ← beq_iff_eq, same, beq_iff_eq]

/-- The rest of a string, behind the `value` that is read already. -/
def Extends (src value : Text) (ran : Except Fault (Text × Nat)) : Except SyntaxError (Text × Text) → Prop
  | .error failure => ran = .error (.refused failure)
  | .ok (more, behind) => ∃ j, ran = .ok (value ++ more, j) ∧ Cut src (j + 1) behind

theorem Extends.push {value : Text} {ran : Except Fault (Text × Nat)} {read : Except SyntaxError (Text × Text)}
    (extends_ : Extends src (value ++ [c]) ran read) :
    Extends src value ran (read.map fun (more, behind) => (c :: more, behind)) := by
  cases read with
  | error failure => exact extends_
  | ok result =>
    obtain ⟨j, ran, cut⟩ := extends_
    exact ⟨j, by simpa using ran, cut⟩

theorem stringLoop_other (other : c ≠ '\'') (first : Nat) (rest : Text) :
    Parser.stringLoop src first (c :: rest) =
      if c == '\x00' then
        .error (errorAt src (position src (c :: rest)) "NUL is not allowed in a string literal")
      else (Parser.stringLoop src first rest).map fun (value, after) => (c :: value, after) := by
  rw [Parser.stringLoop]
  · exact fun _ same => absurd same other
  · exact other

theorem stringLoop_agrees (opening : Cut src start after) (rounds i : Nat) (rest value : Text) (cut : Cut src i rest)
    (enough : byteLength rest < rounds) :
    Extends src value (stringLoop src start rounds i value) (Parser.stringLoop src (position src after) rest) := by
  induction rounds generalizing i rest value with
  | zero => omega
  | succ rounds ih =>
    rw [stringLoop]
    cases rest with
    | nil =>
      rw [cut.none_of_nil]
      exact refuse_of_cut opening _
    | cons c rest =>
      obtain ⟨byte, found, starts⟩ := cut.starts
      have quote : asChar byte = '\'' ↔ c = '\'' := by
        have same := starts.property (P := (· == '\'')) (isAscii_of_eq rfl)
        rw [← beq_iff_eq, same, beq_iff_eq]
      have visible : 0 < c.utf8Size := c.utf8Size_pos
      rw [byteLength_cons] at enough
      simp only [found]
      by_cases closes : c = '\''
      · subst closes
        have behind : Cut src (i + 1) rest := cut.next
        rw [if_pos (quote.mpr rfl)]
        by_cases doubled : rest.head? = some '\''
        · obtain ⟨rest, rfl⟩ : ∃ more, rest = '\'' :: more := by
            cases rest with
            | nil => cases doubled
            | cons d more => exact ⟨more, by rw [Option.some.inj doubled]⟩
          rw [if_pos ((asChar_eq_iff rfl behind).mpr rfl), Parser.stringLoop]
          rw [byteLength_cons] at enough
          exact (ih (i + 2) rest (value ++ ['\'']) behind.next (by omega)).push
        · rw [if_neg (fun there => doubled ((asChar_eq_iff rfl behind).mp there))]
          have single : Parser.stringLoop src (position src after) ('\'' :: rest) = .ok ([], rest) := by
            cases rest with
            | nil => rfl
            | cons d more =>
              have other : d ≠ '\'' := fun same => doubled (by rw [same]; rfl)
              rw [Parser.stringLoop]
              simpa using other
          rw [single]
          exact ⟨i, by rw [append_nil], behind⟩
      · rw [if_neg (fun there => closes (quote.mp there)), cut.sliceFrom, stringLoop_other closes]
        show Extends src value (if c == '\x00' then _ else _) _
        split
        next => exact refuse_of_cut cut _
        next => exact (ih (i + c.utf8Size) rest (value ++ [c]) cut.next (by omega)).push

/-- The string behind a quote at `start`. -/
theorem string_agrees (opening : Cut src start ('\'' :: rest)) :
    Agrees src (string src start) (Parser.string src (position src ('\'' :: rest)) rest) := by
  have behind : Cut src (start + 1) rest := opening.next
  have enough : byteLength rest < byteLength src + 1 := by
    have length := behind.length
    omega
  have read := stringLoop_agrees opening (byteLength src + 1) (start + 1) rest [] behind enough
  unfold string Parser.string
  cases scanned : Parser.stringLoop src (position src ('\'' :: rest)) rest with
  | error failure =>
    rw [scanned] at read
    rw [show stringLoop src start (byteLength src + 1) (start + 1) [] = _ from read]
    rfl
  | ok result =>
    rw [scanned] at read
    obtain ⟨j, ran, cut⟩ := read
    rw [ran, nil_append]
    show Agrees src (if byteLength result.1 > MAX_STRING_BYTES then _ else _)
      (if byteLength result.1 > MAX_STRING_BYTES then _ else _)
    split
    next => exact refuse_of_cut opening _
    next => exact ⟨j + 1, rfl, cut⟩

/-! ### Numbers -/

theorem isAscii_of_mem_takeWhile {P : Char → Bool} (narrow : ∀ c, P c = true → isAscii c = true) (text : Text) :
    ∀ c ∈ text.takeWhile P, isAscii c = true :=
  fun c mem => narrow c (mem_takeWhile_imp mem)

theorem numberDigits_plain (plain : (rest.dropWhile Char.isDigit).head? ≠ some '.') :
    numberDigits rest = some (rest.takeWhile Char.isDigit, rest.dropWhile Char.isDigit) := by
  unfold numberDigits
  split
  next behind stops => exact absurd (by rw [stops]; rfl) plain
  next => rfl

theorem numberDigits_agrees (cut : Cut src start rest) :
    match numberDigits rest with
    | none => numberEnd src start = .error (.refused (errorAt src (position src rest) numberFormat))
    | some (digits, behind) => rest = digits ++ behind ∧ (∀ c ∈ digits, isAscii c = true) ∧
        numberEnd src start = .ok (start + byteLength digits) := by
  have ascii := isAscii_of_mem_takeWhile isAscii_of_isDigit
  have whole := takeWhile_append_dropWhile (p := Char.isDigit) (l := rest)
  have there := @Cut.dropWhile src rest start Char.isDigit cut
  have dot := @asChar_eq_iff src (rest.dropWhile Char.isDigit) _ '.' rfl there
  unfold numberEnd
  rw [cut.scanWhile isAscii_of_isDigit]
  by_cases point : (rest.dropWhile Char.isDigit).head? = some '.'
  · obtain ⟨behind, stops⟩ : ∃ behind, rest.dropWhile Char.isDigit = '.' :: behind := by
      cases stops : rest.dropWhile Char.isDigit with
      | nil => simp [stops] at point
      | cons c behind => exact ⟨behind, by simpa [stops] using point⟩
    rw [stops] at whole there
    have fraction : Cut src (start + byteLength (rest.takeWhile Char.isDigit) + 1) behind := there.next
    rw [numberDigits, stops]
    simp only [dot.mpr point, if_true, fraction.scanWhile isAscii_of_isDigit]
    have rejoined := takeWhile_append_dropWhile (p := Char.isDigit) (l := behind)
    cases digits : behind.takeWhile Char.isDigit with
    | nil =>
      rw [byteLength_nil, Nat.add_zero, if_pos rfl]
      exact refuse_of_cut cut _
    | cons digit more =>
      have visible : 0 < digit.utf8Size := digit.utf8Size_pos
      rw [digits] at rejoined
      refine ⟨?_, ?_, ?_⟩
      · conv_lhs => rw [← whole, ← rejoined]
        simp
      · intro c mem
        rcases mem_append.mp mem with mem | mem
        · exact ascii rest c mem
        rcases mem_cons.mp mem with rfl | mem
        · rfl
        · exact ascii behind c (digits ▸ mem)
      · have one : Char.utf8Size '.' = 1 := rfl
        rw [if_neg (by rw [byteLength_cons]; omega), byteLength_append, byteLength_cons, byteLength_cons, byteLength_cons, one]
        congr 1
        omega
  · rw [numberDigits_plain point]
    rw [if_neg (mt dot.mp point)]
    exact ⟨whole.symm, ascii rest, rfl⟩

theorem number_agrees (cut : Cut src start rest) :
    Agrees src (number src start) (Parser.number src (position src rest) rest) := by
  have read := numberDigits_agrees cut
  unfold number Parser.number
  cases scanned : numberDigits rest with
  | none =>
    rw [scanned] at read
    rw [show numberEnd src start = _ from read]
    rfl
  | some result =>
    obtain ⟨digits, behind⟩ := result
    rw [scanned] at read
    obtain ⟨rfl, ascii, ended⟩ := read
    have last : Cut src (start + byteLength digits) behind := cut.append
    have next : ((bytes src)[start + byteLength digits]?.map asChar).any (fun c => isWordChar c || c == '.') =
        behind.head?.any fun c => isWordChar c || c == '.' := by
      cases behind with
      | nil => simp [last.none_of_nil]
      | cons c behind =>
        obtain ⟨byte, found, starts⟩ := last.starts
        rw [found]
        refine starts.property (P := fun c => isWordChar c || c == '.') fun d inside => ?_
        rcases Bool.or_eq_true_iff.mp inside with inside | inside
        · exact isAscii_of_isWordChar d inside
        · exact isAscii_of_eq rfl d inside
    rw [ended]
    show Agrees src (if _ then _ else if _ then _ else _) _
    rw [next, Nat.add_sub_cancel_left, byteLength_of_isAscii ascii]
    show Agrees src _ (if _ then _ else if _ then _ else _)
    split
    next => exact refuse_of_cut cut _
    split
    next => exact refuse_of_cut cut _
    next =>
      rw [← byteLength_of_isAscii ascii, cut.slice]
      exact ⟨_, rfl, last⟩

/-! ### Words -/

theorem word_agrees (cut : Cut src start rest) :
    Agrees src (word src start) (Parser.word src (position src rest) rest) := by
  have behind := @Cut.dropWhile src rest start isWordChar cut
  have dollar := @asChar_eq_iff src (rest.dropWhile isWordChar) _ '$' rfl behind
  have quote := @asChar_eq_iff src (rest.dropWhile isWordChar) _ '\'' rfl behind
  have name := @Cut.slice_takeWhile src rest start isWordChar cut
  unfold word Parser.word
  simp only [cut.scanWhile isAscii_of_isWordChar, dollar, quote, name, orFault_some]
  split
  next => exact refuse_of_cut behind _
  show Agrees src (match keyword (rest.takeWhile isWordChar) with | some kw => _ | none => _) _
  cases keyword (rest.takeWhile isWordChar) with
  | some kw =>
    simp only
    split
    next => exact refuse_of_cut cut _
    next => exact ⟨_, rfl, behind⟩
  | none =>
    simp only
    split
    next => exact refuse_of_cut cut _
    split
    next => exact refuse_of_cut cut _
    next => exact ⟨_, rfl, behind⟩

/-! ### Operators -/

theorem isAscii_of_isOpChar (c : Char) (inside : OP_CHARS.contains c = true) : isAscii c = true :=
  have ascii : OP_CHARS.all isAscii = true := by decide
  all_eq_true.mp ascii c (by simpa using inside)

/-- From its end, a run of ASCII characters loses its signs. -/
theorem stripSigns_run (first : Char) (more after : Text) (cut : Cut src start (first :: more ++ after))
    (ascii : ∀ c ∈ first :: more, isAscii c = true) :
    stripSigns (bytes src) start (more.length + 1) = .ok ((more.reverse.dropWhile isSign).length + 1) := by
  induction more using reverseRecOn generalizing after with
  | nil => rfl
  | append_singleton front last ih =>
    have shorter : Cut src start (first :: front ++ last :: after) := by simpa using cut
    have there := shorter.append
    have front_ascii : ∀ c ∈ first :: front, isAscii c = true := fun c mem => ascii c (by
      rcases mem_cons.mp mem with rfl | mem
      · simp
      · simp [mem])
    rw [byteLength_of_isAscii front_ascii] at there
    obtain ⟨byte, found, starts⟩ := there.starts
    have same : asChar byte = last := by
      have lastAscii := ascii last (by simp)
      unfold Starts at starts
      rwa [if_pos lastAscii] at starts
    rw [length_append, length_singleton, stripSigns]
    rw [show start + (front.length + 1) = start + (first :: front).length from rfl, found]
    show (if isSign (asChar byte) = true then _ else _) = _
    rw [same, reverse_append, reverse_singleton, singleton_append, dropWhile_cons]
    cases isSign last with
    | true => exact ih _ shorter front_ascii
    | false => simp

theorem operatorPart_special {run : Text} (special : run.any isSpecial = true) : operatorPart run = run := by
  unfold operatorPart
  exact if_pos special

theorem operatorPart_plain {first : Char} {more : Text} (plain : (first :: more).any isSpecial = false) :
    operatorPart (first :: more) = first :: (more.reverse.dropWhile isSign).reverse := by
  unfold operatorPart
  exact if_neg (Bool.eq_false_iff.mp plain)

theorem operatorPart_starts (run : Text) : operatorPart run <+: run := by
  cases special : run.any isSpecial with
  | true => rw [operatorPart_special special]
  | false =>
    cases run with
    | nil => exact prefix_rfl
    | cons first more =>
      rw [operatorPart_plain special]
      apply (prefix_cons_inj first).mpr
      rw [← reverse_suffix, reverse_reverse]
      exact dropWhile_suffix _

theorem operatorLength_run {run after : Text} (cut : Cut src start (run ++ after)) (ascii : ∀ c ∈ run, isAscii c = true) :
    operatorLength src start run = .ok (byteLength (operatorPart run)) := by
  have partAscii : ∀ c ∈ operatorPart run, isAscii c = true := fun c mem => ascii c ((operatorPart_starts run).subset mem)
  rw [operatorLength, byteLength_of_isAscii ascii, byteLength_of_isAscii partAscii]
  cases special : run.any isSpecial with
  | true =>
    rw [if_neg (by simp), operatorPart_special special]
  | false =>
    cases run with
    | nil => rfl
    | cons first more =>
      rw [operatorPart_plain special]
      split
      next => simpa using stripSigns_run first more after cut ascii
      next keeps =>
        -- one character, or no sign at the end
        have whole : more.reverse.dropWhile isSign = more.reverse := by
          cases more using reverseRecOn with
          | nil => rfl
          | append_singleton front last =>
            have ends : isSign last = false := by simpa [getLast?_cons] using keeps
            simp [ends]
        rw [whole, reverse_reverse]

theorem operator_agrees (cut : Cut src start rest) :
    Agrees src (operator src start) (Parser.operator src (position src rest) rest) := by
  have rejoined := takeWhile_append_dropWhile (p := (OP_CHARS.contains ·)) (l := rest)
  have name := @Cut.slice_takeWhile src rest start (OP_CHARS.contains ·) cut
  have ascii := isAscii_of_mem_takeWhile isAscii_of_isOpChar rest
  unfold operator Parser.operator
  simp only [cut.scanWhile isAscii_of_isOpChar, name]
  generalize rest.takeWhile (OP_CHARS.contains ·) = run at rejoined ascii ⊢
  generalize rest.dropWhile (OP_CHARS.contains ·) = after at rejoined
  have length := @operatorLength_run src start run after (rejoined ▸ cut) ascii
  obtain ⟨tail, split⟩ := operatorPart_starts run
  have part : sliceTo (byteLength (operatorPart run)) run = some (operatorPart run) := by
    have cutRun := sliceTo_append (operatorPart run) tail
    rwa [split] at cutRun
  have whole : operatorPart run ++ (tail ++ after) = rest := by rw [← append_assoc, split, rejoined]
  have behind : Cut src (start + byteLength (operatorPart run)) (rest.drop (operatorPart run).length) := by
    rw [← whole, drop_left]
    exact (whole.symm ▸ cut : Cut src start (operatorPart run ++ (tail ++ after))).append
  show Agrees src (if _ then _ else _) _
  split
  next => exact refuse_of_cut cut _
  rw [length]
  show Agrees src (do
    let part ← orFault .slice (sliceTo (byteLength (operatorPart run)) run)
    _) _
  rw [part]
  show Agrees src (match operatorTok (operatorPart run) with | some tok => _ | none => _) _
  cases operatorTok (operatorPart run) with
  | some tok => exact ⟨_, rfl, behind⟩
  | none => exact refuse_of_cut cut _

/-! ### Tokens -/

theorem Agrees.ite {p : Prop} [Decidable p] {ran ran' : Except Fault (Tok × Nat)} {read read' : Except SyntaxError (Tok × Text)}
    (pos : p → Agrees src ran read) (neg : ¬p → Agrees src ran' read') :
    Agrees src (if p then ran else ran') (if p then read else read') := by
  by_cases holds : p
  · rw [if_pos holds, if_pos holds]
    exact pos holds
  · rw [if_neg holds, if_neg holds]
    exact neg holds

theorem scanFrom_agrees (cut : Cut src start (c :: rest)) :
    Agrees src (scanFrom src start c) (Parser.scanFrom src (position src (c :: rest)) c rest) := by
  have refused (message : Text) :
      Agrees src (refuse src start message) (.error (errorAt src (position src (c :: rest)) message)) :=
    refuse_of_cut cut message
  unfold scanFrom Parser.scanFrom
  refine .ite (fun _ => refused _) fun ascii => ?_
  have one : c.utf8Size = 1 := utf8Size_of_isAscii (by simpa using ascii)
  have behind : Cut src (start + 1) rest := one ▸ cut.next
  refine .ite (fun _ => ⟨_, rfl, behind⟩) fun _ => .ite (fun _ => ⟨_, rfl, behind⟩) fun _ =>
    .ite (fun _ => ⟨_, rfl, behind⟩) fun _ => .ite (fun quote => ?_) fun _ => ?_
  · obtain rfl := beq_iff_eq.mp quote
    exact string_agrees cut
  refine .ite (fun _ => refused _) fun _ => .ite (fun _ => refused _) fun _ =>
    .ite (fun _ => refused _) fun _ => .ite (fun _ => refused _) fun _ => ?_
  exact .ite (fun _ => number_agrees cut) fun _ => .ite (fun _ => word_agrees cut) fun _ =>
    .ite (fun _ => operator_agrees cut) fun _ => refused _

theorem isAscii_of_isSpace (c : Char) (space : isSpace c = true) : isAscii c = true := by
  simp only [isSpace, Bool.or_eq_true, beq_iff_eq] at space
  rcases space with ((rfl | rfl) | rfl) | rfl <;> rfl

theorem scanFrom_starts {byte : UInt8} (starts : Starts byte c) :
    scanFrom src start (asChar byte) = scanFrom src start c := by
  unfold Starts at starts
  split at starts
  next => rw [starts]
  next foreign => simp [scanFrom, starts, foreign]

/-- The byte offset of a character. -/
def offsetOf (src : Text) (at_ : Nat) : Nat := byteLength (src.take at_)

theorem offsetOf_position (cut : Cut src start rest) : offsetOf src (position src rest) = start := by
  obtain ⟨front, rfl, rfl⟩ := cut
  have length : position (front ++ rest) rest = front.length := by
    rw [position, length_append]
    omega
  rw [offsetOf, length, take_left]

theorem cut_offsetOf (src : Text) (at_ : Nat) : Cut src (offsetOf src at_) (src.drop at_) :=
  ⟨src.take at_, (take_append_drop at_ src).symm, rfl⟩

theorem error_at_offset (src : Text) (at_ : Nat) (message : Text) :
    error src (offsetOf src at_) message = .ok (errorAt src at_ message) := by
  rw [error_of_cut (cut_offsetOf src at_)]
  have same : src.take (position src (src.drop at_)) = src.take at_ := by
    rw [position, length_drop]
    rcases Nat.le_total at_ src.length with inside | outside
    · rw [Nat.sub_sub_self inside]
    · rw [Nat.sub_eq_zero_of_le outside, Nat.sub_zero, take_length, take_of_length_le outside]
  simp only [errorAt, same]

theorem next_agrees {pos : Nat} (cut : Cut src pos rest) :
    match Parser.next src rest with
    | .error failure => next src pos = .error (.refused failure)
    | .ok (tok, first, behind) => ∃ offset, next src pos = .ok (tok, offsetOf src first, offset) ∧ Cut src offset behind := by
  have there := @Cut.dropWhile src rest pos isSpace cut
  unfold next Parser.next
  rw [cut.scanWhile isAscii_of_isSpace]
  generalize pos + byteLength (rest.takeWhile isSpace) = first at there
  cases behind : rest.dropWhile isSpace with
  | nil =>
    rw [behind] at there
    have ended : offsetOf src src.length = first := by
      have length := there.length
      rw [offsetOf, take_length, ← length, byteLength_nil, Nat.add_zero]
    refine ⟨first, ?_, there⟩
    show (match (bytes src)[first]? with | none => _ | some byte => _) = _
    rw [there.none_of_nil, ended]
  | cons c after =>
    rw [behind] at there
    obtain ⟨byte, found, starts⟩ := there.starts
    have read := scanFrom_agrees there
    have ran : (match (bytes src)[first]? with
        | none => .ok (Tok.eof, first, first)
        | some byte => do
          let (tok, behind) ← scanFrom src first (asChar byte)
          return (tok, first, behind)) =
        (scanFrom src first c >>= fun (tok, behind) => .ok (tok, first, behind)) := by
      rw [found, ← scanFrom_starts starts]
      rfl
    simp only [ran]
    cases scanned : Parser.scanFrom src (position src (c :: after)) c after with
    | error failure =>
      rw [scanned] at read
      rw [show scanFrom src first c = _ from read]
      rfl
    | ok result =>
      rw [scanned] at read
      obtain ⟨offset, ran, left⟩ := read
      rw [ran]
      exact ⟨offset, by rw [offsetOf_position there]; rfl, left⟩

/-! ### Progress -/

theorem stringLoop_shorter {value : Text} (read : Parser.stringLoop src first rest = .ok (value, behind)) :
    behind.length < rest.length := by
  fun_induction Parser.stringLoop src first rest generalizing value with
  | case1 => cases read
  | case2 rest ih =>
    obtain ⟨⟨more, left⟩, ran, same⟩ := map_eq_ok.mp read
    cases same
    have shorter := ih ran
    simp only [length_cons]
    omega
  | case3 rest =>
    cases read
    exact Nat.lt_succ_self _
  | case4 => cases read
  | case5 c rest _ _ _ ih =>
    obtain ⟨⟨more, left⟩, ran, same⟩ := map_eq_ok.mp read
    cases same
    have shorter := ih ran
    simp only [length_cons]
    omega

theorem length_dropWhile_le (P : Char → Bool) (text : Text) : (text.dropWhile P).length ≤ text.length :=
  (dropWhile_suffix P).length_le

theorem numberDigits_shorter {digits : Text} (digit : c.isDigit = true)
    (read : numberDigits (c :: rest) = some (digits, behind)) : behind.length ≤ rest.length := by
  have whole := length_dropWhile_le Char.isDigit rest
  unfold numberDigits at read
  rw [dropWhile_cons_of_pos digit] at read
  split at read
  next fraction stops =>
    by_cases bare : (fraction.takeWhile Char.isDigit).isEmpty = true
    · simp [bare] at read
    · simp only [bare, Bool.false_eq_true, if_false, Option.some.injEq, Prod.mk.injEq] at read
      have part := length_dropWhile_le Char.isDigit fraction
      rw [stops, length_cons] at whole
      rw [← read.2]
      omega
  next =>
    cases read
    exact whole

theorem ok_of_ite {ε α : Type} {p : Prop} [Decidable p] {failure : ε} {x : Except ε α} {result : α}
    (passed : (if p then .error failure else x) = .ok result) : x = .ok result := by
  by_cases refused : p
  · rw [if_pos refused] at passed
    cases passed
  · rwa [if_neg refused] at passed

theorem number_shorter (digit : c.isDigit = true)
    (read : Parser.number src first (c :: rest) = .ok (tok, behind)) : behind.length ≤ rest.length := by
  unfold Parser.number at read
  cases scanned : numberDigits (c :: rest) with
  | none =>
    rw [scanned] at read
    cases read
  | some result =>
    rw [scanned] at read
    have passed := ok_of_ite (ok_of_ite read)
    cases passed
    exact numberDigits_shorter digit scanned

theorem word_shorter (inside : isWordChar c = true)
    (read : Parser.word src first (c :: rest) = .ok (tok, behind)) : behind.length ≤ rest.length := by
  have whole := length_dropWhile_le isWordChar rest
  unfold Parser.word at read
  simp only [dropWhile_cons_of_pos inside] at read
  have passed := ok_of_ite read
  cases key : keyword ((c :: rest).takeWhile isWordChar) with
  | some kw =>
    simp only [key] at passed
    have done := ok_of_ite passed
    cases done
    exact whole
  | none =>
    simp only [key] at passed
    have done := ok_of_ite (ok_of_ite passed)
    cases done
    exact whole

theorem operator_shorter (read : Parser.operator src first (c :: rest) = .ok (tok, behind)) :
    behind.length ≤ rest.length := by
  unfold Parser.operator at read
  have passed := ok_of_ite read
  cases part : operatorPart ((c :: rest).takeWhile (OP_CHARS.contains ·)) with
  | nil =>
    rw [part] at passed
    cases passed
  | cons start more =>
    rw [part] at passed
    cases named : operatorTok (start :: more) with
    | none =>
      simp only [named] at passed
      cases passed
    | some tok =>
      simp only [named, Except.ok.injEq, Prod.mk.injEq] at passed
      rw [← passed.2]
      simp

/-- What is read ends within `rest`. -/
def Ends (rest : Text) (read : Except SyntaxError (Tok × Text)) : Prop :=
  ∀ tok behind, read = .ok (tok, behind) → behind.length ≤ rest.length

theorem Ends.refused (failure : SyntaxError) : Ends rest (.error failure) := fun _ _ read => nomatch read

theorem Ends.single (tok : Tok) : Ends rest (.ok (tok, rest)) := by
  intro _ behind read
  cases read
  exact Nat.le_refl _

theorem Ends.ite {p : Prop} [Decidable p] {read read' : Except SyntaxError (Tok × Text)} (pos : p → Ends rest read)
    (neg : ¬p → Ends rest read') : Ends rest (if p then read else read') := by
  by_cases holds : p
  · rw [if_pos holds]
    exact pos holds
  · rw [if_neg holds]
    exact neg holds

theorem string_shorter : Ends rest (Parser.string src first rest) := by
  intro tok behind read
  unfold Parser.string at read
  obtain ⟨⟨value, after⟩, scanned, passed⟩ := bind_eq_ok.mp read
  have shorter := stringLoop_shorter scanned
  dsimp only at passed
  split at passed
  next => cases passed
  next =>
    cases passed
    exact Nat.le_of_lt shorter

theorem scanFrom_shorter : Ends rest (Parser.scanFrom src first c rest) := by
  unfold Parser.scanFrom
  refine .ite (fun _ => .refused _) fun _ => .ite (fun _ => .single _) fun _ => .ite (fun _ => .single _) fun _ =>
    .ite (fun _ => .single _) fun _ => .ite (fun _ => string_shorter) fun _ => ?_
  refine .ite (fun _ => .refused _) fun _ => .ite (fun _ => .refused _) fun _ => .ite (fun _ => .refused _) fun _ =>
    .ite (fun _ => .refused _) fun _ => ?_
  refine .ite (fun digit _ _ read => number_shorter digit read) fun _ => .ite (fun inside _ _ read => ?_) fun _ =>
    .ite (fun _ _ _ read => operator_shorter read) fun _ => .refused _
  have letter : isWordChar c = true := by
    simp only [isWordChar, Char.isAlphanum, Bool.or_eq_true] at inside ⊢
    exact inside.imp_left .inl
  exact word_shorter letter read

theorem next_shorter (read : Parser.next src rest = .ok (tok, first, behind)) (more : tok.isLast = false) :
    behind.length < rest.length := by
  have skipped := length_dropWhile_le isSpace rest
  unfold Parser.next at read
  cases ahead : rest.dropWhile isSpace with
  | nil =>
    rw [ahead] at read
    cases read
    cases more
  | cons c after =>
    rw [ahead] at read
    obtain ⟨⟨tok', behind'⟩, scanned, same⟩ := bind_eq_ok.mp read
    cases same
    have shorter := scanFrom_shorter _ _ scanned
    rw [ahead, length_cons] at skipped
    omega

/-! ### All tokens -/

/-- A token with the byte offset it starts at. -/
def atOffset (src : Text) (token : Tok × Nat) : Tok × Nat := (token.1, offsetOf src token.2)

theorem tokensLoop_agrees (rounds rounds' pos : Nat) (cut : Cut src pos rest) (enough : rest.length < rounds)
    (enough' : rest.length < rounds') :
    tokensLoop src rounds pos = .ok ((Parser.tokensLoop src rounds' rest).map (atOffset src)) := by
  induction rounds generalizing rounds' pos rest with
  | zero => omega
  | succ rounds ih =>
    cases rounds' with
    | zero => omega
    | succ rounds' =>
      have read := next_agrees cut
      rw [tokensLoop, Parser.tokensLoop]
      cases scanned : Parser.next src rest with
      | error failure =>
        rw [scanned] at read
        rw [show next src pos = _ from read]
        simp [atOffset, offsetOf]
      | ok result =>
        obtain ⟨tok, first, behind⟩ := result
        rw [scanned] at read
        obtain ⟨offset, ran, there⟩ := read
        simp only [ran]
        cases last : tok.isLast with
        | true => rfl
        | false =>
          have shorter := next_shorter scanned last
          have rest := ih rounds' offset there (by omega) (by omega)
          simp only [Bool.false_eq_true, if_false, rest]
          rfl

theorem length_le_byteLength (text : Text) : text.length ≤ byteLength text := by
  induction text with
  | nil => exact Nat.le_refl _
  | cons c text ih =>
    have visible := c.utf8Size_pos
    rw [byteLength_cons, length_cons]
    omega

theorem tokens_agree (src : Text) : tokens src = .ok ((Parser.tokens src).map (atOffset src)) := by
  have short := length_le_byteLength src
  exact tokensLoop_agrees _ _ 0 (Cut.first src) (by omega) (by omega)

end Agreement

end RootCx.Rules.ByteLexer
