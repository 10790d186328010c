import RootCx.Lib.Except
import RootCx.Rules.Lexer
import RootCx.Postgres.Lexer

/-! # Operator runs, in the rule lexer and in the server

The comment of `Lexer::operator` says that it mirrors `scan.l`.  The scanner of
the server is `Postgres.scanOperator`; what it calls the operator it has cut off
is `operatorToken`.  A run of operator characters is cut by both into the same
tokens at the same places, unless the rule lexer refuses it.

The two cut in different ways.  The server ends an operator at the first comment
opener of the run and then looks for special characters in front of the last
character that is left; the rule lexer refuses a run with a comment opener
anywhere, and looks for special characters in all of it.
-/

namespace RootCx.Postgres

open RootCx.Text

/-- The tokens `scan.l` makes of operators. -/
inductive OperatorToken where
  -- the characters of `self` that are operator characters
  | self (c : Char)
  | lessEquals
  | greaterEquals
  | notEquals
  | equalsGreater
  | op (name : Text)
  deriving DecidableEq, Repr

/-- The token for an operator that has been cut off; `none` for one of
    `NAMEDATALEN` characters or more, which the server refuses. -/
def operatorToken (text : Text) : Option OperatorToken :=
  match text with
  | [c] => if c ∈ "+-*/%^<>=".toList then some (.self c) else some (.op [c])
  | ['=', '>'] => some .equalsGreater
  | ['>', '='] => some .greaterEquals
  | ['<', '='] => some .lessEquals
  | ['<', '>'] => some .notEquals
  | ['!', '='] => some .notEquals
  | text => if text.length ≤ MAX_IDENT_BYTES then some (.op text) else none

/-- The operator at the front of a text; `none` in front of a comment as well. -/
def nextOperator (text : Text) : Option (OperatorToken × Text) :=
  match scanOperator text with
  | some (.sym operator, behind) => (operatorToken operator).map (·, behind)
  | _ => none

/-- The tokens cut off while an operator character comes next, each with the text
    it starts, and the text behind them. -/
def scanRun : Nat → Text → Option (List (OperatorToken × Text) × Text)
  | 0, text => some ([], text)
  | rounds + 1, text =>
    if text.head?.any isOpChar then do
      let (token, behind) ← nextOperator text
      let (more, after) ← scanRun rounds behind
      some ((token, text) :: more, after)
    else some ([], text)

end RootCx.Postgres

namespace RootCx.Rules.Parser

open RootCx.Text RootCx.Postgres

/-! ## One operator -/

/-- The token of the server that a token of the rule lexer stands for. -/
def Tok.scanned : Tok → Option OperatorToken
  | .op .eq => some (.self '=')
  | .op .ne => some .notEquals
  | .op .lt => some (.self '<')
  | .op .le => some .lessEquals
  | .op .gt => some (.self '>')
  | .op .ge => some .greaterEquals
  | .op .match => some (.op "~")
  | .op .add => some (.self '+')
  | .op .mul => some (.self '*')
  | .minus => some (.self '-')
  | _ => none

theorem isOpChar_iff (c : Char) : isOpChar c = OP_CHARS.contains c := by
  rw [Bool.eq_iff_iff, isOpChar, decide_eq_true_iff, List.contains_iff_mem]
  -- the two lists hold the same characters in another order
  have left : ∀ d ∈ "~!@#^&|`?+-*/%<>=".toList, d ∈ OP_CHARS := forall_mem_of_all (by decide)
  have right : ∀ d ∈ OP_CHARS, d ∈ "~!@#^&|`?+-*/%<>=".toList := forall_mem_of_all (by decide)
  exact ⟨left c, right c⟩

theorem cutComment_eq_self {run : Text}
    (plain : (run.tails.any fun tail => "--".toList.isPrefixOf tail || "/*".toList.isPrefixOf tail) = false) :
    cutComment run = run := by
  induction run with
  | nil => rfl
  | cons c rest ih =>
    simp only [List.tails_cons, List.any_cons, Bool.or_eq_false_iff] at plain
    obtain ⟨⟨dashes, block⟩, behind⟩ := plain
    rw [cutComment, ih behind]
    · rintro tail rfl rfl
      simp at dashes
    · rintro tail rfl rfl
      simp at block

/-- Looking for special characters in the whole run finds no more than looking in
    front of its last character: a special last character is no sign. -/
theorem operatorPart_eq_trimSigns (run : Text) : operatorPart run = trimSigns run := by
  rcases run with _ | ⟨first, more⟩
  · rfl
  rcases more.eq_nil_or_concat with rfl | ⟨middle, last, rfl⟩
  · simp [operatorPart, trimSigns]
  have front : (first :: (middle ++ [last])).dropLast = first :: middle := by
    rw [← List.cons_append, List.dropLast_concat]
  simp only [List.concat_eq_append, operatorPart, trimSigns, front]
  by_cases special : (first :: middle).any (· ∈ "~!@#^&|`?%".toList) = true
  · have whole : ((first :: (middle ++ [last])).any
        fun c => "~!@#^&|`?%".toList.contains c) = true := by
      simp only [List.any_cons, List.any_append, List.contains_eq_mem] at special ⊢
      simp only [← Bool.or_assoc, special, Bool.true_or]
    rw [if_pos whole, if_pos special]
  · rw [if_neg special]
    split
    · rename_i whole
      have lastSpecial : last ∈ "~!@#^&|`?%".toList := by
        simp only [List.any_cons, List.any_append, List.contains_eq_mem] at special whole
        simp only [← Bool.or_assoc, eq_false_of_ne_true special, Bool.false_or] at whole
        simpa using whole
      -- so that no sign ends the run
      have noSign : (last == '+' || last == '-') = false :=
        (forall_mem_of_all (by decide) : ∀ d ∈ "~!@#^&|`?%".toList, (d == '+' || d == '-') = false) last lastSpecial
      rw [List.rdropWhile_concat_neg _ _ _ (by rw [noSign]; exact Bool.false_ne_true)]
    · rfl

theorem trimSigns_prefix (run : Text) : trimSigns run <+: run := by
  cases run with
  | nil => exact List.prefix_rfl
  | cons first more =>
    rw [trimSigns]
    split
    · exact List.prefix_rfl
    · exact List.cons_prefix_cons.mpr ⟨rfl, List.rdropWhile_prefix _ _⟩

/-- The operators of the rule language. -/
def OPERATORS : List Text :=
  ["=", "<>", "!=", "<", "<=", ">", ">=", "~", "+", "-", "*"].map String.toList

theorem operatorTok_scanned {text : Text} {tok : Tok} (found : operatorTok text = some tok) :
    text ≠ [] ∧ tok.isLast = false ∧
      ∃ token, operatorToken text = some token ∧ tok.scanned = some token := by
  have listed : text ∈ OPERATORS := by
    by_contra unlisted
    simp only [OPERATORS, List.map_cons, List.map_nil, List.mem_cons, not_or] at unlisted
    simp only [operatorTok, unlisted, or_self, if_false] at found
    cases found
  have checked : ∀ text ∈ OPERATORS, text ≠ [] ∧ (operatorToken text).isSome ∧
      (operatorTok text).map (fun tok => (tok.isLast, tok.scanned)) =
        some (false, operatorToken text) := by decide
  obtain ⟨nonempty, isSome, same⟩ := checked text listed
  rw [found, Option.map_some, Option.some.injEq, Prod.mk.injEq] at same
  obtain ⟨token, named⟩ := Option.isSome_iff_exists.mp isSome
  exact ⟨nonempty, same.1, token, named, same.2.trans named⟩

/-- What the rule lexer cuts off a run, the server cuts off as well. -/
theorem operator_scanned {src behind : Text} {start : Nat} {rest : Text} {tok : Tok}
    (read : operator src start rest = .ok (tok, behind)) :
    tok.isLast = false ∧
      ∃ token, nextOperator rest = some (token, behind) ∧ tok.scanned = some token ∧
        ∃ part, part ≠ [] ∧ rest = part ++ behind ∧ part <+: rest.takeWhile isOpChar := by
  have chars : (fun c => OP_CHARS.contains c) = isOpChar := funext fun c => (isOpChar_iff c).symm
  simp only [operator, chars] at read
  split at read
  · cases read
  rename_i plain
  have uncut := cutComment_eq_self (eq_false_of_ne_true plain)
  cases part : operatorTok (operatorPart (rest.takeWhile isOpChar)) with
  | none =>
    rw [part] at read
    cases read
  | some found =>
    rw [part] at read
    cases read
    obtain ⟨nonempty, notLast, token, named, same⟩ := operatorTok_scanned part
    rw [operatorPart_eq_trimSigns] at nonempty named
    have front : trimSigns (rest.takeWhile isOpChar) <+: rest.takeWhile isOpChar := trimSigns_prefix _
    refine ⟨notLast, token, ?_, same, _, nonempty, ?_, front⟩
    · rw [nextOperator, scanOperator, uncut, operatorPart_eq_trimSigns]
      cases cut : trimSigns (rest.takeWhile isOpChar) with
      | nil => exact absurd cut nonempty
      | cons first more =>
        rw [cut] at named
        simp [named]
    · rw [operatorPart_eq_trimSigns]
      exact (List.prefix_iff_eq_append.mp (front.trans (List.takeWhile_prefix _))).symm

/-! ## A run -/

/-- An operator character is read by `Lexer::operator`. -/
theorem next_operator {c : Char} (opChar : isOpChar c = true) (src after : Text) :
    next src (c :: after) =
      (operator src (position src (c :: after)) (c :: after)).map fun (tok, behind) =>
        (tok, position src (c :: after), behind) := by
  have mem : c ∈ OP_CHARS := by rwa [isOpChar_iff, List.contains_iff_mem] at opChar
  have classes : ∀ d ∈ OP_CHARS, isSpace d = false ∧ isAscii d = true ∧ d.isDigit = false ∧
      d.isAlpha = false ∧ d ∉ "(),'\"$:._".toList := forall_mem_of_all (by decide)
  obtain ⟨space, ascii, digit, alpha, others⟩ := classes c mem
  have other : ∀ d ∈ "(),'\"$:._".toList, (c == d) = false := fun d listed =>
    beq_eq_false_iff_ne.mpr (ne_of_mem_of_not_mem listed others).symm
  have scanned : scanFrom src (position src (c :: after)) c after =
      operator src (position src (c :: after)) (c :: after) := by
    simp only [scanFrom, ascii, digit, alpha, Bool.not_true, Bool.false_or, Bool.false_eq_true,
      if_false, other '(' (by decide), other ')' (by decide), other ',' (by decide),
      other '\'' (by decide), other '"' (by decide), other '$' (by decide), other ':' (by decide),
      other '.' (by decide), other '_' (by decide), List.contains_iff_mem, mem, if_true]
  rw [next, List.dropWhile_cons_of_neg (by rw [space]; exact Bool.false_ne_true)]
  simp only [scanned]
  cases operator src (position src (c :: after)) (c :: after) <;> rfl

/-- The tokens the lexer reads while an operator character comes next, each with
    its position, and the text behind them. -/
def lexRun (src : Text) : Nat → Text → Except SyntaxError (List (Tok × Nat) × Text)
  | 0, rest => .ok ([], rest)
  | rounds + 1, rest =>
    if rest.head?.any isOpChar then do
      let (tok, start, behind) ← next src rest
      let (more, after) ← lexRun src rounds behind
      return ((tok, start) :: more, after)
    else .ok ([], rest)

/-- What one round of `lexRun` reads, with the token of the server. -/
theorem next_scanned {src rest behind : Text} {start : Nat} {tok : Tok}
    (opChar : rest.head?.any isOpChar = true) (read : next src rest = .ok (tok, start, behind)) :
    tok.isLast = false ∧ start = position src rest ∧
      ∃ token, nextOperator rest = some (token, behind) ∧ tok.scanned = some token ∧
        ∃ part, part ≠ [] ∧ rest = part ++ behind ∧ part <+: rest.takeWhile isOpChar := by
  cases rest with
  | nil => cases opChar
  | cons c after =>
    rw [next_operator opChar] at read
    cases cut : operator src (position src (c :: after)) (c :: after) with
    | error error =>
      rw [cut] at read
      cases read
    | ok found =>
      rw [cut] at read
      cases read
      obtain ⟨notLast, scanned⟩ := operator_scanned cut
      exact ⟨notLast, rfl, scanned⟩

/-- The lexer passes a run exactly as `lexRun` does, or stops in it for good. -/
theorem tokensLoop_lexRun (src : Text) : ∀ (n rounds : Nat) (rest : Text), rest.length < rounds →
    match lexRun src n rest with
    | .ok (toks, behind) => ∃ left, behind.length < left ∧
        tokensLoop src rounds rest = toks ++ tokensLoop src left behind
    | .error error => ∃ toks, tokensLoop src rounds rest = toks ++ [(.bad error, src.length)] := by
  intro n
  induction n with
  | zero => exact fun rounds rest enough => ⟨rounds, enough, rfl⟩
  | succ n ih =>
    intro rounds rest enough
    rw [lexRun]
    by_cases opChar : rest.head?.any isOpChar = true
    · obtain ⟨rounds, rfl⟩ := Nat.exists_eq_add_one.mpr (Nat.zero_lt_of_lt enough)
      rw [if_pos opChar, tokensLoop]
      cases read : next src rest with
      | error error => exact ⟨[], rfl⟩
      | ok found =>
        obtain ⟨tok, start, behind⟩ := found
        obtain ⟨notLast, -, -, -, -, part, nonempty, cut, -⟩ := next_scanned opChar read
        -- a round takes a character, so the rounds that are left are enough
        have shorter : behind.length < rounds := by
          have := List.length_pos_of_ne_nil nonempty
          have := congrArg List.length cut
          simp only [List.length_append] at this
          omega
        simp only [notLast, Bool.false_eq_true, if_false]
        have passed := ih rounds behind shorter
        simp only [bind, Except.bind]
        cases more : lexRun src n behind with
        | error error =>
          rw [more] at passed
          obtain ⟨toks, stopped⟩ := passed
          exact ⟨(tok, start) :: toks, congrArg _ stopped⟩
        | ok found =>
          rw [more] at passed
          obtain ⟨left, enough, through⟩ := passed
          exact ⟨left, enough, congrArg _ through⟩
    · rw [if_neg opChar]
      exact ⟨rounds, enough, rfl⟩

/-- Every token of a run that `lexRun` passes is the server's, at the same place. -/
theorem lexRun_scanRun (src : Text) : ∀ (n : Nat) {rest after : Text} {toks : List (Tok × Nat)},
    lexRun src n rest = .ok (toks, after) →
      ∃ pieces, scanRun n rest = some (pieces, after) ∧
        toks.map (fun (tok, start) => (tok.scanned, start)) =
          pieces.map fun (token, text) => (some token, position src text)
  | 0, rest, after, toks, read => by
    cases read
    exact ⟨[], rfl, rfl⟩
  | n + 1, rest, after, toks, read => by
    rw [lexRun] at read
    by_cases opChar : rest.head?.any isOpChar = true
    · rw [if_pos opChar] at read
      obtain ⟨⟨tok, start, behind⟩, first, read⟩ := bind_eq_ok.mp read
      obtain ⟨⟨more, last⟩, others, read⟩ := bind_eq_ok.mp read
      cases pure_eq_ok.mp read
      obtain ⟨-, rfl, token, scanned, same, -⟩ := next_scanned opChar first
      obtain ⟨pieces, cut, agree⟩ := lexRun_scanRun src n others
      refine ⟨(token, rest) :: pieces, ?_, ?_⟩
      · simp [scanRun, opChar, scanned, cut]
      · simp only [List.map_cons, same, agree]
    · rw [if_neg opChar] at read
      cases read
      exact ⟨[], by rw [scanRun, if_neg opChar], rfl⟩

/-- `lexRun` reads a run to its end. -/
theorem lexRun_behind (src : Text) {behind : Text} (ends : behind.head?.any isOpChar = false) :
    ∀ (n : Nat) {run after : Text} {toks : List (Tok × Nat)}, (∀ c ∈ run, isOpChar c = true) →
      run.length ≤ n → lexRun src n (run ++ behind) = .ok (toks, after) → after = behind
  | 0, run, after, toks, _, short, read => by
    obtain rfl := List.length_eq_zero_iff.mp (Nat.le_zero.mp short)
    cases read
    rfl
  | n + 1, [], after, toks, _, _, read => by
    rw [lexRun, List.nil_append, if_neg (by rw [ends]; exact Bool.false_ne_true)] at read
    cases read
    rfl
  | n + 1, c :: run, after, toks, chars, short, read => by
    have opChar : (c :: run ++ behind).head?.any isOpChar = true := chars c List.mem_cons_self
    rw [lexRun, if_pos opChar] at read
    obtain ⟨⟨tok, start, left⟩, first, read⟩ := bind_eq_ok.mp read
    obtain ⟨⟨more, last⟩, others, read⟩ := bind_eq_ok.mp read
    cases pure_eq_ok.mp read
    obtain ⟨-, -, token, -, -, part, nonempty, cut, inside⟩ := next_scanned opChar first
    rw [takeWhile_append_of_stop chars ends] at inside
    -- the token is a part of the run, so what it leaves of the run is a run
    obtain ⟨tail, split⟩ := inside
    rw [← split, List.append_assoc] at cut
    obtain rfl := List.append_cancel_left cut
    refine lexRun_behind src ends n (fun d mem => chars d ?_) ?_ others
    · exact split ▸ List.mem_append_right part mem
    · have := List.length_pos_of_ne_nil nonempty
      have := congrArg List.length split
      simp only [List.length_append, List.length_cons] at this short
      omega

/-- Wherever the lexer stands in front of a run of operator characters, it either
    refuses the rule in the run, or it passes the run with the tokens of the
    server, each at the place where the server has it. -/
theorem operator_run_agrees (src : Text) {run behind : Text} {rounds : Nat}
    (chars : ∀ c ∈ run, isOpChar c = true) (ends : behind.head?.any isOpChar = false)
    (enough : (run ++ behind).length < rounds) :
    (∃ toks error, lexRun src run.length (run ++ behind) = .error error ∧
      tokensLoop src rounds (run ++ behind) = toks ++ [(.bad error, src.length)]) ∨
    ∃ toks pieces left,
      tokensLoop src rounds (run ++ behind) = toks ++ tokensLoop src left behind ∧
      behind.length < left ∧
      scanRun run.length (run ++ behind) = some (pieces, behind) ∧
      toks.map (fun (tok, start) => (tok.scanned, start)) =
        pieces.map fun (token, text) => (some token, position src text) := by
  have passed := tokensLoop_lexRun src run.length rounds (run ++ behind) enough
  cases read : lexRun src run.length (run ++ behind) with
  | error error =>
    rw [read] at passed
    obtain ⟨toks, stopped⟩ := passed
    exact .inl ⟨toks, error, rfl, stopped⟩
  | ok found =>
    obtain ⟨toks, after⟩ := found
    rw [read] at passed
    obtain ⟨left, some_, through⟩ := passed
    obtain rfl := lexRun_behind src ends run.length chars le_rfl read
    obtain ⟨pieces, scanned, same⟩ := lexRun_scanRun src run.length read
    exact .inr ⟨toks, pieces, left, through, some_, scanned, same⟩

/-- `a<>-1`: the sign behind `<>` is a token of its own. -/
theorem operator_run_agrees_signs :
    tokens "a<>-1".toList =
        [(.ident "a".toList, 0), (.op .ne, 1), (.minus, 3), (.number "1".toList, 4), (.eof, 5)] ∧
      scanRun 3 "<>-1".toList =
        some ([(.notEquals, "<>-1".toList), (.self '-', "-1".toList)], "1".toList) ∧
      ((∃ toks error, lexRun "a<>-1".toList 3 "<>-1".toList = .error error ∧
          tokensLoop "a<>-1".toList 5 "<>-1".toList = toks ++ [(.bad error, 5)]) ∨
        ∃ toks pieces left,
          tokensLoop "a<>-1".toList 5 "<>-1".toList = toks ++ tokensLoop "a<>-1".toList left "1".toList ∧
          "1".toList.length < left ∧ scanRun 3 "<>-1".toList = some (pieces, "1".toList) ∧
          toks.map (fun (tok, start) => (tok.scanned, start)) =
            pieces.map fun (token, text) => (some token, position "a<>-1".toList text)) :=
  ⟨by decide +kernel, by decide +kernel,
    operator_run_agrees "a<>-1".toList (forall_mem_of_all (by decide) : ∀ c ∈ "<>-".toList, isOpChar c = true)
      (by decide : "1".toList.head?.any isOpChar = false) (by decide)⟩

end RootCx.Rules.Parser
