import RootCx.Postgres.Lexer

/-! # The statement allowlist of the SQL proxy

`validate_sql` of `governance/enforcement/sql_proxy.rs` decides from the front of
a statement whether an app may send it.  It skips white space and comments with
a scanner of its own and compares what follows with a list of keywords.

The question is whether that scanner stops where PostgreSQL's does.  Both skip
the same comments; they differ in what counts as a space and in what continues a
word, and both differences need a character outside ASCII.  So PostgreSQL's first
token is an allowed keyword or `(`, unless a character outside ASCII belongs to
it, and in no case is it the keyword of another statement.
-/

namespace RootCx.Enforcement

open RootCx.Text RootCx.Postgres List

/-! ## The source functions -/

/-- The part of Rust's character tables that `validate_sql` looks at: on ASCII
    `char::is_alphanumeric` is the ASCII test, elsewhere it is any table. -/
structure CharTable where
  isAlphanumeric : Char → Bool
  ascii : ∀ c, isAscii c = true → isAlphanumeric c = c.isAlphanum

def trimStart (text : Text) : Text := text.dropWhile isWhitespace

def ALLOWED_PREFIXES : List Text :=
  ["SELECT", "INSERT", "UPDATE", "DELETE", "WITH",
    "VALUES", "TABLE"]

def unterminated : Text := "statement not allowed: unterminated block comment"

/-- The loop of `skip_block_comment`, on the text from index `i` on. -/
def skipBlockLoop : Nat → Text → Except Text Text
  | depth, '/' :: '*' :: rest => skipBlockLoop (depth + 1) rest
  | depth, '*' :: '/' :: rest => if depth - 1 = 0 then .ok rest else skipBlockLoop (depth - 1) rest
  | depth, _ :: next :: rest => skipBlockLoop depth (next :: rest)
  | _, _ => .error unterminated

def skipBlockComment (text : Text) : Except Text Text := skipBlockLoop 1 (text.drop 2)

/-- The text behind the end of a line comment. -/
def afterLine (text : Text) : Text :=
  (text.dropWhile fun c => !(c == '\n' || c == '\r')).drop 1

/-- The loop of `strip_leading_noise`; `none` when it has not ended after `fuel`
    rounds. -/
def stripLoop : Nat → Text → Option (Except Text Text)
  | 0, _ => none
  | fuel + 1, rest =>
    match rest with
    | '-' :: '-' :: after => stripLoop fuel (trimStart (afterLine after))
    | '/' :: '*' :: _ =>
      match skipBlockComment rest with
      | .error message => some (.error message)
      | .ok after => stripLoop fuel (trimStart after)
    | _ => some (.ok rest)

def stripLeadingNoise (sql : Text) : Option (Except Text Text) :=
  stripLoop (sql.length + 1) (trimStart sql)

/-- Whether the upper-cased head starts with `keyword` at a word boundary. -/
def startsWithKeyword (table : CharTable) (upper keyword : Text) : Bool :=
  match upper.dropPrefix? keyword with
  | some rest => rest.isEmpty ||
      !rest.head?.any fun c => table.isAlphanumeric c || c == '_' || c == '$'
  | none => false

/-- The first word of the refused statement, for its message. -/
def shown (head : Text) : Text :=
  match (trimStart head).takeWhile (fun c => !isWhitespace c) with
  | [] => "(empty)"
  | word => word.take 16

def validateSql (table : CharTable) (sql : Text) : Option (Except Text Unit) :=
  match stripLeadingNoise sql with
  | none => none
  | some (.error message) => some (.error message)
  | some (.ok head) =>
    if "(".toList.isPrefixOf head then some (.ok ())
    else
      let upper := head.map Char.toUpper
      if ALLOWED_PREFIXES.any (startsWithKeyword table upper) then some (.ok ())
      else some (.error ("statement not allowed: " ++ shown head ++
        "; apps may only send " ++ ", ".toList.intercalate ALLOWED_PREFIXES))

variable (text : Text) {c : Char} {keyword front : Text} {table : CharTable}

/-! ## The loop ends -/

theorem length_trimStart_le : (trimStart text).length ≤ text.length :=
  (dropWhile_sublist _).length_le

theorem length_afterLine_le : (afterLine text).length ≤ text.length := by
  rw [afterLine, length_drop]
  have shorter := (dropWhile_sublist (l := text) fun c => !(c == '\n' || c == '\r')).length_le
  omega

theorem length_skipBlockLoop_le {depth : Nat} {text rest : Text}
    (skipped : skipBlockLoop depth text = .ok rest) : rest.length ≤ text.length := by
  induction depth, text using skipBlockLoop.induct with
  | case1 depth tail ih =>
    rw [skipBlockLoop] at skipped
    have shorter := ih skipped
    simp only [length_cons]
    omega
  | case2 depth tail last =>
    rw [skipBlockLoop, if_pos last] at skipped
    cases skipped
    simp only [length_cons]
    omega
  | case3 depth tail more ih =>
    rw [skipBlockLoop, if_neg more] at skipped
    have shorter := ih skipped
    simp only [length_cons]
    omega
  | case4 depth c next tail opening closing ih =>
    rw [skipBlockLoop] at skipped
    · have shorter := ih skipped
      simp only [length_cons] at shorter ⊢
      omega
    · exact opening
    · exact closing
  | case5 text depth opening closing long =>
    rw [skipBlockLoop] at skipped
    · cases skipped
    all_goals assumption

/-- Every round of the loop drops at least the two characters of a comment. -/
theorem stripLoop_ends {fuel : Nat} {rest : Text} (enough : rest.length < fuel) :
    ∃ outcome, stripLoop fuel rest = some outcome := by
  induction fuel generalizing rest with
  | zero => omega
  | succ fuel ih =>
    unfold stripLoop
    split
    next after =>
      apply ih
      have trimmed := length_trimStart_le (afterLine after)
      have line := length_afterLine_le after
      simp only [length_cons] at enough
      omega
    next tail =>
      split
      next message => exact ⟨_, rfl⟩
      next after skipped =>
        apply ih
        have trimmed := length_trimStart_le after
        have block := length_skipBlockLoop_le skipped
        simp only [length_cons, drop_succ_cons, drop_zero] at enough block
        omega
    next => exact ⟨_, rfl⟩

/-! ## Where the two scanners stop -/

/-- PostgreSQL's scanner reaches `head`, or it stops earlier, at a character
    outside ASCII that starts a name. -/
def Reaches (outcome : Option Text) (head : Text) : Prop :=
  outcome = some head ∨ ∃ c rest, outcome = some (c :: rest) ∧ isAscii c = false

theorem isSpace_of_isWhitespace (ascii : isAscii c = true) (space : isWhitespace c = true) :
    isSpace c = true :=
  ascii_cases (P := fun c => isWhitespace c = true → isSpace c = true) (by decide) ascii space

theorem isWhitespace_of_isSpace (space : isSpace c = true) : isWhitespace c = true := by
  simp only [isSpace, Bool.or_eq_true, beq_iff_eq] at space
  obtain ((((rfl | rfl) | rfl) | rfl) | rfl) | rfl := space <;> rfl

theorem isIdentStart_of_not_ascii (foreign : isAscii c = false) : isIdentStart c = true := by
  simp [isIdentStart, foreign]

theorem skipNoise_trimStart :
    skipNoise .plain text = skipNoise .plain (trimStart text) ∨
      ∃ c rest, skipNoise .plain text = some (c :: rest) ∧ isAscii c = false := by
  induction text with
  | nil => exact .inl rfl
  | cons c rest ih =>
    by_cases space : isWhitespace c = true
    · cases ascii : isAscii c with
      | true =>
        rw [skipNoise_space (isSpace_of_isWhitespace ascii space), trimStart,
          dropWhile_cons_of_pos space]
        exact ih
      | false =>
        exact .inr ⟨c, rest, skipNoise_of_isIdentStart (isIdentStart_of_not_ascii ascii), ascii⟩
    · exact .inl (by rw [trimStart, dropWhile_cons_of_neg space])

theorem skipNoise_line : skipNoise .line text = skipNoise .plain (afterLine text) := by
  induction text with
  | nil => rfl
  | cons c rest ih =>
    rw [skipNoise, afterLine]
    by_cases newline : isNewline c = true
    · rw [if_pos newline, dropWhile_cons_of_neg (by rw [isNewline] at newline; simp [newline])]
      rfl
    · rw [if_neg newline, dropWhile_cons_of_pos (by rw [isNewline] at newline; simp [newline])]
      exact ih

/-- What PostgreSQL does inside a block comment whose end Core found, or missed. -/
def afterBlock : Except Text Text → Option Text
  | .ok rest => skipNoise .plain rest
  | .error _ => none

theorem skipNoise_block {depth : Nat} (positive : 0 < depth) :
    skipNoise (.block (depth - 1)) text = afterBlock (skipBlockLoop depth text) := by
  -- both loops read the same two characters; PostgreSQL does not count the open comment
  induction depth, text using skipBlockLoop.induct with
  | case1 depth rest ih =>
    rw [skipBlockLoop, ← ih (by omega)]
    obtain ⟨outer, rfl⟩ : ∃ outer, depth = outer + 1 := ⟨depth - 1, by omega⟩
    simp only [skipNoise, Nat.add_sub_cancel]
  | case2 depth rest last =>
    obtain rfl : depth = 1 := by omega
    simp [skipBlockLoop, skipNoise, afterBlock]
  | case3 depth rest more ih =>
    rw [skipBlockLoop, if_neg more, ← ih (by omega)]
    obtain ⟨outer, rfl⟩ : ∃ outer, depth = outer + 2 := ⟨depth - 2, by omega⟩
    simp only [skipNoise, Nat.add_sub_cancel, Nat.reduceSubDiff]
  | case4 depth c next rest opening closing ih =>
    rw [skipBlockLoop, ← ih positive]
    · rw [skipNoise]
      · intro _ slash tail
        exact opening slash (cons.inj tail).1
      · intro _ _ star tail
        exact closing star (cons.inj tail).1
      · intro _ _ _ star tail
        exact closing star (cons.inj tail).1
    · exact opening
    · exact closing
  | case5 text depth opening closing long =>
    obtain _ | ⟨c, _ | ⟨next, rest⟩⟩ := text
    · rfl
    · simp [skipBlockLoop, skipNoise, afterBlock]
    · exact absurd rfl (long c next rest)

/-- The loop of Core and the scanner of PostgreSQL stop at the same place, or
    PostgreSQL stopped before at a character outside ASCII. -/
theorem stripLoop_reaches {fuel : Nat} {text head : Text}
    (stripped : stripLoop fuel (trimStart text) = some (.ok head)) :
    Reaches (skipNoise .plain text) head := by
  induction fuel generalizing text with
  | zero => cases stripped
  | succ fuel ih =>
    obtain same | early := skipNoise_trimStart text
    · rw [same]
      unfold stripLoop at stripped
      split at stripped
      next after line =>
        rw [line, skipNoise, skipNoise_line]
        exact ih stripped
      next tail opened =>
        split at stripped
        next message => cases stripped
        next after skipped =>
          have block := skipNoise_block tail Nat.one_pos
          rw [opened, skipNoise, block]
          rw [opened, skipBlockComment, drop_succ_cons, drop_succ_cons, drop_zero]
            at skipped
          rw [skipped]
          exact ih stripped
      next noLine noBlock =>
        cases Option.some.inj stripped
        left
        cases trimmed : trimStart text with
        | nil => rfl
        | cons c rest =>
          have space : isSpace c = false := by
            rw [Bool.eq_false_iff]
            intro space
            have kept := head?_dropWhile_not isWhitespace text
            rw [trimStart] at trimmed
            simp only [trimmed, head?_cons, isWhitespace_of_isSpace space] at kept
            cases kept
          rw [skipNoise, if_neg (by simp [space])]
          · intro tail dash equal
            exact noLine tail (by rw [trimmed, dash, equal])
          · intro tail slash equal
            exact noBlock tail (by rw [trimmed, slash, equal])
    · exact .inr early

/-! ## The token at the head -/

theorem keyword_letters (allowed : keyword ∈ ALLOWED_PREFIXES) (spelled : front.map Char.toUpper = keyword) :
    ∀ c ∈ front, c.isAlpha = true := by
  intro c mem
  have upper : ∀ keyword ∈ ALLOWED_PREFIXES, keyword.all Char.isAlpha = true := by decide
  exact isAlpha_of_toUpper
    (all_eq_true.mp (upper keyword allowed) _ (spelled ▸ mem_map_of_mem mem))

theorem keyword_lower (spelled : front.map Char.toUpper = keyword) :
    front.map Char.toLower = keyword.map Char.toLower := by
  simp [← spelled, toLower_toUpper]

theorem keyword_start (allowed : keyword ∈ ALLOWED_PREFIXES) (spelled : front.map Char.toUpper = keyword) :
    (front ++ [c]).head?.any isIdentStart = true := by
  cases front with
  | nil =>
    subst spelled
    exact absurd allowed (by decide)
  | cons d front => simp [isIdentStart, keyword_letters allowed spelled d (by simp)]

theorem keyword_short (allowed : keyword ∈ ALLOWED_PREFIXES) (spelled : front.map Char.toUpper = keyword) :
    byteLength (front.map Char.toLower) + c.utf8Size ≤ MAX_IDENT_BYTES := by
  have small : ∀ keyword ∈ ALLOWED_PREFIXES, byteLength (keyword.map Char.toLower) ≤ 6 := by decide
  have size := c.utf8Size_le_four
  have bytes := small keyword allowed
  rw [keyword_lower spelled, MAX_IDENT_BYTES]
  omega

theorem scan_keyword {tail : Text} (allowed : keyword ∈ ALLOWED_PREFIXES)
    (spelled : front.map Char.toUpper = keyword) (ends : tail.head?.any isIdentCont = false) :
    scan (front ++ tail) = some (.word (keyword.map Char.toLower), tail) := by
  have names : ∀ c ∈ front, isIdentCont c = true := fun c mem => by
    simp [isIdentCont, isIdentStart, keyword_letters allowed spelled c mem]
  have word : scanWord (front ++ tail) = some (.word (keyword.map Char.toLower), tail) := by
    have plain : ∀ keyword ∈ ALLOWED_PREFIXES, keyword.map Char.toLower ∉
        ["b".toList, "x".toList, "n".toList, "e".toList, "u".toList] := by decide
    have short : ∀ keyword ∈ ALLOWED_PREFIXES,
        truncateIdent (keyword.map Char.toLower) = keyword.map Char.toLower := by decide
    simp only [scanWord, takeWhile_append_of_stop names ends, dropWhile_append_of_stop names ends,
      keyword_lower spelled, isPrefixed_eq_false (plain keyword allowed), short keyword allowed,
      Bool.false_eq_true, if_false]
  cases front with
  | nil =>
    subst spelled
    exact absurd allowed (by decide)
  | cons c rest =>
    rw [← word]
    exact scan_of_isIdentStart (by simp [isIdentStart, keyword_letters allowed spelled c (by simp)])

/-- A name with a character outside ASCII near its front. -/
theorem scan_foreign (front rest : Text) (foreign : isAscii c = false)
    (start : (front ++ [c]).head?.any isIdentStart = true) (names : ∀ d ∈ front, isIdentCont d = true)
    (short : byteLength (front.map Char.toLower) + c.utf8Size ≤ MAX_IDENT_BYTES) :
    ∃ name after, scan (front ++ c :: rest) = some (.word name, after) ∧ c ∈ name := by
  have whole : (front ++ c :: rest).takeWhile isIdentCont =
      front ++ c :: rest.takeWhile isIdentCont := by
    rw [takeWhile_append_of_pos names, takeWhile_cons_of_pos]
    simp [isIdentCont, isIdentStart, foreign]
  have scanned : scan (front ++ c :: rest) = scanWord (front ++ c :: rest) := by
    cases front with
    | nil => exact scan_of_isIdentStart (by simpa using start)
    | cons d front => exact scan_of_isIdentStart (by simpa using start)
  rw [scanned]
  have kept : c ∈ ((front ++ c :: rest).takeWhile isIdentCont).map Char.toLower := by
    rw [whole, map_append, map_cons, toLower_of_not_ascii foreign]
    simp
  have plain : isPrefixed (((front ++ c :: rest).takeWhile isIdentCont).map Char.toLower)
      ((front ++ c :: rest).dropWhile isIdentCont) = false := by
    apply isPrefixed_eq_false
    intro mem
    have ascii : ∀ name ∈ ["b".toList, "x".toList, "n".toList, "e".toList, "u".toList],
        name.all isAscii = true := by decide
    rw [all_eq_true.mp (ascii _ mem) c kept] at foreign
    cases foreign
  refine ⟨_, _, by rw [scanWord, plain]; rfl, ?_⟩
  rw [whole, map_append, map_cons, toLower_of_not_ascii foreign]
  exact mem_clip short

/-! ## What an accepted statement starts with -/

/-- PostgreSQL's first token is `(` or a keyword of the allowlist. -/
def AllowedFirst (sql : Text) : Prop :=
  firstToken sql = some (.sym "(") ∨
    ∃ keyword ∈ ALLOWED_PREFIXES, firstToken sql = some (.word (keyword.map Char.toLower))

/-- The keywords that start PostgreSQL's other statements: transaction control,
    session settings, utilities and definitions. -/
def OTHER_COMMANDS : List Text :=
  ["abort", "alter", "analyze", "begin", "call",
    "checkpoint", "close", "cluster", "comment", "commit",
    "copy", "create", "deallocate", "declare", "discard",
    "do", "drop", "end", "execute", "explain", "fetch",
    "grant", "import", "listen", "load", "lock",
    "merge", "move", "notify", "prepare", "reassign",
    "refresh", "reindex", "release", "reset", "revoke",
    "rollback", "savepoint", "security", "set", "show",
    "start", "truncate", "unlisten", "vacuum"]

/-- The name characters at the place where PostgreSQL's first token starts. -/
def headWord (sql : Text) : Text := ((skipNoise .plain sql).getD []).takeWhile isIdentCont

/-- No character outside ASCII belongs to the word at the head. -/
def asciiHead (sql : Text) : Bool := (headWord sql).all isAscii

theorem keyword_boundary (ascii : isAscii c = true)
    (boundary : ¬(table.isAlphanumeric c.toUpper = true ∨ c.toUpper = '_' ∨ c.toUpper = '$')) :
    isIdentCont c = false := by
  have upper : isAscii c.toUpper = true :=
    ascii_cases (P := fun c => isAscii c.toUpper = true) (by decide) ascii
  rw [table.ascii _ upper] at boundary
  exact ascii_cases (P := fun c => ¬(c.toUpper.isAlphanum = true ∨ c.toUpper = '_' ∨
    c.toUpper = '$') → isIdentCont c = false) (by decide) ascii boundary

/-- How a head that `validate_sql` accepts goes on: with `(`, with a keyword that
    PostgreSQL also ends there, or with one that it does not. -/
theorem accepted_head {sql : Text} (accepted : validateSql table sql = some (.ok ())) :
    ∃ head, stripLeadingNoise sql = some (.ok head) ∧
      ((∃ tail, head = '(' :: tail) ∨
        ∃ keyword ∈ ALLOWED_PREFIXES, ∃ front tail, front.map Char.toUpper = keyword ∧
          head = front ++ tail ∧ (tail.head?.any isIdentCont = false ∨
            ∃ c rest, tail = c :: rest ∧ isAscii c = false)) := by
  unfold validateSql at accepted
  split at accepted
  next => cases accepted
  next => cases accepted
  next head stripped =>
    refine ⟨head, stripped, ?_⟩
    split at accepted
    next paren =>
      obtain ⟨tail, rfl⟩ := isPrefixOf_iff_prefix.mp paren
      exact .inl ⟨tail, rfl⟩
    next =>
      simp only at accepted
      split at accepted
      next listed =>
        obtain ⟨keyword, allowed, starts⟩ := any_eq_true.mp listed
        rw [startsWithKeyword] at starts
        split at starts
        next rest cut =>
          obtain ⟨same, spelled, equal⟩ := dropPrefix?_eq_some_iff.mp cut
          rw [beq_iff_eq] at equal
          subst equal
          obtain ⟨front, tail, rfl, upperFront, upperTail⟩ := map_eq_append_iff.mp spelled
          refine .inr ⟨same, allowed, front, tail, upperFront, rfl, ?_⟩
          cases tail with
          | nil => exact .inl rfl
          | cons c more =>
            cases ascii : isAscii c with
            | false => exact .inr ⟨c, more, rfl, ascii⟩
            | true =>
              subst upperTail
              left
              have boundary : ¬(table.isAlphanumeric c.toUpper = true ∨ c.toUpper = '_' ∨
                  c.toUpper = '$') := by simpa [or_assoc, and_assoc] using starts
              exact keyword_boundary ascii boundary
        next => cases starts
      next => cases accepted

/-- The three kinds of first token an accepted statement can have. -/
theorem accepted_cases {sql : Text} (accepted : validateSql table sql = some (.ok ())) :
    (AllowedFirst sql ∧ asciiHead sql = true) ∨
      ∃ name c, firstToken sql = some (.word name) ∧ c ∈ name ∧ isAscii c = false ∧
        asciiHead sql = false := by
  obtain ⟨head, stripped, shape⟩ := accepted_head accepted
  obtain same | ⟨c, rest, early, foreign⟩ := stripLoop_reaches stripped
  · obtain ⟨tail, rfl⟩ | ⟨keyword, allowed, front, tail, spelled, rfl, ends⟩ := shape
    · left
      refine ⟨.inl ?_, ?_⟩
      · simp only [firstToken, same]
        rfl
      · simp only [asciiHead, headWord, same]
        rfl
    · have letters := keyword_letters allowed spelled
      have names : ∀ c ∈ front, isIdentCont c = true := fun c mem => by
        simp [isIdentCont, isIdentStart, letters c mem]
      obtain ends | ⟨c, rest, rfl, foreign⟩ := ends
      · left
        refine ⟨.inr ⟨keyword, allowed, ?_⟩, ?_⟩
        · simp only [firstToken, same, Option.bind_some, scan_keyword allowed spelled ends]
          rfl
        · rw [asciiHead, headWord, same, Option.getD_some, takeWhile_append_of_stop names ends,
            all_eq_true]
          exact fun c mem => isAscii_of_isAlpha (letters c mem)
      · right
        obtain ⟨name, after, scanned, mem⟩ := scan_foreign front rest foreign
          (keyword_start allowed spelled) names (keyword_short allowed spelled)
        refine ⟨name, c, ?_, mem, foreign, ?_⟩
        · simp only [firstToken, same, Option.bind_some, scanned]
          rfl
        · rw [asciiHead, headWord, same, Option.getD_some, takeWhile_append_of_pos names]
          simp [isIdentCont, isIdentStart, foreign]
  · right
    obtain ⟨name, after, scanned, mem⟩ := scan_foreign [] rest foreign
      (by simp [isIdentStart_of_not_ascii foreign]) (by simp) (by
        have small := c.utf8Size_le_four
        simp [MAX_IDENT_BYTES]
        omega)
    refine ⟨name, c, ?_, mem, foreign, ?_⟩
    · simp only [firstToken, early, Option.bind_some]
      rw [← nil_append (c :: rest), scanned]
      rfl
    · simp [asciiHead, headWord, early, isIdentCont, isIdentStart, foreign]

theorem validateSql_ends (table : CharTable) (sql : Text) :
    ∃ outcome, validateSql table sql = some outcome := by
  have enough : (trimStart sql).length < sql.length + 1 :=
    Nat.lt_succ_of_le (length_trimStart_le sql)
  obtain ⟨outcome, stripped⟩ := stripLoop_ends enough
  rw [validateSql, stripLeadingNoise, stripped]
  cases outcome with
  | error message => exact ⟨_, rfl⟩
  | ok head =>
    simp only
    split
    · exact ⟨_, rfl⟩
    · split
      · exact ⟨_, rfl⟩
      · exact ⟨_, rfl⟩

/-- `validate_sql` returns on every text and refuses an unterminated comment.  A
    text it accepts never starts with another command, and starts with an allowed
    token exactly when the word at its head is ASCII. -/
theorem first_token_allowed_iff_ascii (table : CharTable) (sql : Text) :
    (∃ outcome, validateSql table sql = some outcome) ∧
      (skipNoise .plain sql = none → ∃ message, validateSql table sql = some (.error message)) ∧
      (validateSql table sql = some (.ok ()) →
        (∀ command ∈ OTHER_COMMANDS, firstToken sql ≠ some (.word command)) ∧
          (AllowedFirst sql ↔ asciiHead sql = true)) := by
  refine ⟨validateSql_ends table sql, ?_, ?_⟩
  · intro open_
    obtain ⟨outcome, returned⟩ := validateSql_ends table sql
    cases outcome with
    | error message => exact ⟨message, returned⟩
    | ok _ =>
      -- an accepted text has a first token, so its comments are closed
      have noToken : firstToken sql = none := by simp [firstToken, open_]
      obtain ⟨first | ⟨keyword, -, first⟩, -⟩ | ⟨name, c, first, -⟩ := accepted_cases returned <;>
        exact absurd (noToken.symm.trans first) (by simp)
  · intro accepted
    obtain ⟨allowed, ascii⟩ | ⟨name, c, first, member, foreign, notAscii⟩ := accepted_cases accepted
    · refine ⟨?_, fun _ => ascii, fun _ => allowed⟩
      intro command listed equal
      obtain paren | ⟨keyword, kept, first⟩ := allowed
      · exact absurd (paren.symm.trans equal) (by simp)
      · have disjoint : ∀ keyword ∈ ALLOWED_PREFIXES,
            keyword.map Char.toLower ∉ OTHER_COMMANDS := by decide
        obtain rfl := Token.word.inj (Option.some.inj (first.symm.trans equal))
        exact disjoint keyword kept listed
    · -- the name holds a character that no keyword has
      have outside : ∀ keyword, keyword.all isAscii = true →
          firstToken sql ≠ some (.word keyword) := by
        intro keyword ascii equal
        obtain rfl := Token.word.inj (Option.some.inj (first.symm.trans equal))
        rw [List.all_eq_true.mp ascii c member] at foreign
        cases foreign
      refine ⟨?_, ?_⟩
      · have ascii : ∀ command ∈ OTHER_COMMANDS, command.all isAscii = true := by decide
        exact fun command listed => outside command (ascii command listed)
      · refine ⟨?_, fun head => absurd head (by simp [notAscii])⟩
        rintro (paren | ⟨keyword, kept, word⟩)
        · exact absurd (first.symm.trans paren) (by simp)
        · have ascii : ∀ keyword ∈ ALLOWED_PREFIXES,
              (keyword.map Char.toLower).all isAscii = true := by decide
          exact absurd word (outside _ (ascii keyword kept))

/-- ASCII letters and digits only. -/
def asciiTable : CharTable := ⟨Char.isAlphanum, fun _ _ => rfl⟩

/-- A no-break space is trimmed by Core and starts a name in PostgreSQL. -/
theorem no_break_space_accepted :
    validateSql asciiTable "\u00a0SELECT 1".toList = some (.ok ()) ∧
      firstToken "\u00a0SELECT 1".toList = some (.word "\u00a0select".toList) ∧
      ¬AllowedFirst "\u00a0SELECT 1".toList := by
  have first : firstToken "\u00a0SELECT 1".toList = some (.word "\u00a0select".toList) := by rfl
  refine ⟨by rfl, first, ?_⟩
  rw [AllowedFirst, first]
  decide

end RootCx.Enforcement
