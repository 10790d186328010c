import RootCx.Rules.Grammar

/-! # What the parser accepts is derivable

Every level of the parser, when it succeeds, has read a phrase of its level: the
tokens it took derive the tree it returns, and the tree is within the limits.
The proof goes level by level; only the depth needs an induction.
-/

namespace RootCx.Rules.Parser

open List

variable {env : Env}

/-- The tokens that are still to be read. -/
def ahead (env : Env) (s : State) : List Tok := (env.tokens.map Prod.fst).drop s.cursor

def State.advance (s : State) (tokens nodes : Nat) : State := ⟨s.cursor + tokens, s.nodes + nodes⟩

@[simp] theorem advance_nodes (s : State) (tokens nodes : Nat) :
    (s.advance tokens nodes).nodes = s.nodes + nodes := rfl

@[simp] theorem advance_advance (s : State) (tokens nodes moreTokens moreNodes : Nat) :
    (s.advance tokens nodes).advance moreTokens moreNodes =
      s.advance (tokens + moreTokens) (nodes + moreNodes) := by
  simp [State.advance, Nat.add_assoc]

theorem ahead_advance {s : State} {ts rest : List Tok} (nodes : Nat) (text : ahead env s = ts ++ rest) :
    ahead env (s.advance ts.length nodes) = rest := by
  rw [ahead, State.advance, ← drop_drop]
  have drop := congrArg (drop ts.length) text
  rwa [drop_left] at drop

variable {s : State} {tok : Tok} {rest : List Tok} {s' : State} {e : Expr} {s₁ : State}

theorem ahead_advance_one (nodes : Nat) (text : ahead env s = tok :: rest) :
    ahead env (s.advance 1 nodes) = rest :=
  @ahead_advance env s [tok] rest nodes text

theorem getElem?_of_ahead (text : ahead env s = tok :: rest) :
    ∃ start, env.tokens[s.cursor]? = some (tok, start) := by
  have first : (env.tokens.map Prod.fst)[s.cursor]? = some tok := by
    rw [← head?_drop]
    exact congrArg head? text
  simp only [getElem?_map, Option.map_eq_some_iff, Prod.exists, exists_eq_right] at first
  obtain ⟨name, start, found, rfl⟩ := first
  exact ⟨start, found⟩

theorem ahead_of_getElem? {start : Nat} (found : env.tokens[s.cursor]? = some (tok, start)) :
    ahead env s = tok :: ahead env (s.advance 1 0) := by
  obtain ⟨inside, item⟩ := List.getElem?_eq_some_iff.mp found
  have inside' : s.cursor < (env.tokens.map Prod.fst).length := by simpa using inside
  rw [ahead, drop_eq_getElem_cons inside', getElem_map, item]
  rfl

/-! ## Single tokens, when they succeed -/

theorem peek_inv (ran : peek env s = .ok (tok, s')) :
    s = s' ∧ ahead env s = tok :: ahead env (s.advance 1 0) := by
  unfold peek at ran
  split at ran
  case h_1 found =>
    cases ran
    exact ⟨rfl, ahead_of_getElem? found⟩
  case h_2 => cases ran

theorem bump_inv (ran : bump env s = .ok (tok, s')) :
    ahead env s = tok :: ahead env (s.advance 1 0) ∧
      s' = if tok.isLast then s else s.advance 1 0 := by
  unfold bump at ran
  split at ran
  case h_1 found =>
    cases ran
    exact ⟨ahead_of_getElem? found, rfl⟩
  case h_2 => cases ran

theorem errorHere_inv {α : Type} {message : Text} {result : α × State} :
    errorHere env message s ≠ .ok result := by
  intro ran
  unfold errorHere at ran
  split at ran <;> cases ran

/-- `s'` is behind the token `tok`, which came next at `s`. -/
def Reads (env : Env) (tok : Tok) (s s' : State) : Prop :=
  ahead env s = tok :: ahead env s' ∧ s'.nodes = s.nodes

theorem bump_reads (ran : bump env s = .ok (tok, s')) (notLast : tok.isLast = false) :
    Reads env tok s s' := by
  obtain ⟨text, rfl⟩ := bump_inv ran
  rw [notLast]
  exact ⟨text, rfl⟩

theorem peek_bump_reads {first : Tok} (text : ahead env s = first :: rest) (notLast : first.isLast = false)
    (ran : bump env s = .ok (tok, s')) : Reads env first s s' := by
  obtain ⟨rfl, -⟩ := cons.inj ((bump_inv ran).1.symm.trans text)
  exact bump_reads ran notLast

theorem expect_reads {what : Text} {result : Unit} (notLast : tok.isLast = false)
    (ran : expect env tok what s = .ok (result, s')) : Reads env tok s s' := by
  obtain ⟨found, s₁, peeked, rest⟩ := stateT_bind_ok.mp ran
  obtain ⟨rfl, text⟩ := peek_inv peeked
  split at rest
  case isTrue same =>
    subst same
    obtain ⟨tok, s₂, bumped, done⟩ := stateT_bind_ok.mp rest
    obtain ⟨-, rfl⟩ := stateT_pure_ok.mp done
    exact peek_bump_reads text notLast bumped
  case isFalse => exact absurd rest errorHere_inv

/-- `s'` has one node more than `s`, and not too many. -/
def Counts (env : Env) (s s' : State) : Prop :=
  ahead env s' = ahead env s ∧ s'.nodes = s.nodes + 1 ∧ s'.nodes ≤ env.limits.nodes

theorem node_counts {e' : Expr} (ran : node env e s = .ok (e', s')) : e' = e ∧ Counts env s s' := by
  unfold node at ran
  split at ran
  case isTrue => exact absurd ran errorHere_inv
  case isFalse room =>
    cases ran
    exact ⟨rfl, rfl, rfl, by simp only; omega⟩

/-! ## Phrases -/

def Phrase.size : Phrase → Nat
  | .expr _ e => Parser.size e
  | .list _ es => sizeAll es

def Phrase.widest : Phrase → Nat
  | .expr _ e => Parser.widest e
  | .list _ es => widestAll es

/-- Between `s` and `s'` the parser has read a phrase that is nested less than
    `room` deep.  The check for long lists does not look at the first item. -/
structure Parsed (env : Env) (room : Nat) (phrase : Phrase) (s s' : State) : Prop where
  phrases : ∃ ts n, Derives phrase ts n ∧ n < room ∧ ahead env s = ts ++ ahead env s'
  nodes : s'.nodes = s.nodes + phrase.size
  bounded : s'.nodes ≤ env.limits.nodes
  lists : phrase.widest ≤ max 1 env.limits.items

def SoundAt (env : Env) (room : Nat) (level : Level) (parser : Parse Expr) : Prop :=
  ∀ ⦃s e s'⦄, parser s = .ok (e, s') → Parsed env room (.expr level e) s s'

theorem Parsed.climb {room : Nat} {level inner : Level} (next : level.tighter = some inner)
    (parsed : Parsed env room (.expr inner e) s s') : Parsed env room (.expr level e) s s' := by
  obtain ⟨⟨ts, n, derives, shallow, text⟩, nodes, bounded, lists⟩ := parsed
  exact ⟨⟨ts, n, .climb next derives, shallow, text⟩, nodes, bounded, lists⟩

theorem Parsed.binary {room : Nat} {op : BinOp} {tok : Tok} {level left right : Level} {l r : Expr}
    {s s₁ s₂ s₃ s' : State} (rule : Infix op tok level left right)
    (first : Parsed env room (.expr left l) s s₁) (operator : Reads env tok s₁ s₂)
    (second : Parsed env room (.expr right r) s₂ s₃) (counted : Counts env s₃ s') :
    Parsed env room (.expr level (.binary op l r)) s s' := by
  obtain ⟨⟨ts, m, derivesLeft, shallowLeft, textLeft⟩, nodesLeft, -, listsLeft⟩ := first
  obtain ⟨⟨us, n, derivesRight, shallowRight, textRight⟩, nodesRight, -, listsRight⟩ := second
  obtain ⟨textTok, nodesTok⟩ := operator
  obtain ⟨textEnd, nodesEnd, bounded⟩ := counted
  simp only [Phrase.size, Phrase.widest] at *
  refine ⟨⟨_, _, .binary rule derivesLeft derivesRight, by omega, ?_⟩, ?_, bounded, ?_⟩
  · rw [textLeft, textTok, textRight, textEnd, append_assoc, cons_append]
  · simp only [Phrase.size, size]
    omega
  · simp only [Phrase.widest, widest]
    omega

/-! ## Loops -/

section Chain

variable {room : Nat} {level inner : Level} {operator : Tok → Option BinOp} {operand : Parse Expr}

theorem chainLoop_sound
    (rules : ∀ tok op, operator tok = some op → tok.isLast = false ∧ Infix op tok level level inner)
    (operands : SoundAt env room inner operand) (rounds : Nat) {l : Expr}
    (start : Parsed env room (.expr level l) s s₁)
    (ran : chainLoop env operator operand rounds l s₁ = .ok (e, s')) :
    Parsed env room (.expr level e) s s' := by
  -- the phrase read so far grows to the right with each round
  induction rounds generalizing l s₁ with
  | zero => cases ran
  | succ rounds ih =>
    obtain ⟨tok, s₂, peeked, rest⟩ := stateT_bind_ok.mp ran
    obtain ⟨rfl, text⟩ := peek_inv peeked
    cases known : operator tok with
    | none =>
      simp only [known] at rest
      obtain ⟨rfl, rfl⟩ := stateT_pure_ok.mp rest
      exact start
    | some op =>
      simp only [known] at rest
      obtain ⟨notLast, rule⟩ := rules tok op known
      obtain ⟨_, s₃, bumped, rest⟩ := stateT_bind_ok.mp rest
      obtain ⟨r, s₄, second, rest⟩ := stateT_bind_ok.mp rest
      obtain ⟨e', s₅, made, rest⟩ := stateT_bind_ok.mp rest
      obtain ⟨rfl, counted⟩ := node_counts made
      have operator := peek_bump_reads text notLast bumped
      exact ih (start.binary rule operator (operands second) counted) rest

theorem leftChain_sound (next : level.tighter = some inner)
    (rules : ∀ tok op, operator tok = some op → tok.isLast = false ∧ Infix op tok level level inner)
    (operands : SoundAt env room inner operand) :
    SoundAt env room level (leftChain env operator operand) := by
  intro s e s' ran
  obtain ⟨l, s₁, first, rest⟩ := stateT_bind_ok.mp ran
  exact chainLoop_sound rules operands _ ((operands first).climb next) rest

end Chain

section Items

variable {room : Nat} {level : Level} {item : Parse Expr} {tooMany : List Expr → Option Text}

theorem itemsLoop_sound (sound : SoundAt env room level item) (rounds : Nat) {list es : List Expr}
    (start : Parsed env room (.list level list) s s₁) (short : tooMany list = none ∨ list.length = 1)
    (ran : itemsLoop env item tooMany rounds list s₁ = .ok (es, s')) :
    Parsed env room (.list level es) s s' ∧ (tooMany es = none ∨ es.length = 1) := by
  induction rounds generalizing list s₁ with
  | zero => cases ran
  | succ rounds ih =>
    obtain ⟨tok, s₂, peeked, rest⟩ := stateT_bind_ok.mp ran
    obtain ⟨rfl, text⟩ := peek_inv peeked
    split at rest
    case isTrue comma =>
      subst comma
      obtain ⟨_, s₃, bumped, rest⟩ := stateT_bind_ok.mp rest
      obtain ⟨e, s₄, parsed, rest⟩ := stateT_bind_ok.mp rest
      cases fits : tooMany (list ++ [e]) with
      | some message =>
        simp only [fits] at rest
        exact absurd rest errorHere_inv
      | none =>
        simp only [fits] at rest
        refine ih ?_ (Or.inl fits) rest
        obtain ⟨textTok, nodesTok⟩ := peek_bump_reads text rfl bumped
        obtain ⟨⟨ts, m, derives, shallow, textItems⟩, nodes, -, lists⟩ := start
        obtain ⟨⟨us, n, derivesItem, shallowItem, textItem⟩, nodesItem, bounded, listsItem⟩ :=
          sound parsed
        simp only [Phrase.size, Phrase.widest] at *
        refine ⟨⟨_, _, .more derives derivesItem, by omega, ?_⟩, ?_, bounded, ?_⟩
        · rw [textItems, textTok, textItem, append_assoc, cons_append]
        · simp only [Phrase.size, sizeAll_concat]
          omega
        · simp only [Phrase.widest, widestAll_concat]
          omega
    case isFalse =>
      obtain ⟨rfl, rfl⟩ := stateT_pure_ok.mp rest
      exact ⟨start, short⟩

theorem items_sound (sound : SoundAt env room level item) {es : List Expr}
    (ran : items env item tooMany s = .ok (es, s')) :
    Parsed env room (.list level es) s s' ∧ (tooMany es = none ∨ es.length = 1) := by
  obtain ⟨first, s₁, parsed, rest⟩ := stateT_bind_ok.mp ran
  refine itemsLoop_sound sound _ ?_ (Or.inr rfl) rest
  obtain ⟨⟨ts, n, derives, shallow, text⟩, nodes, bounded, lists⟩ := sound parsed
  refine ⟨⟨ts, n, .one derives, shallow, text⟩, ?_, bounded, ?_⟩
  · simpa [Phrase.size, sizeAll] using nodes
  · simpa [Phrase.widest, widestAll] using lists

end Items

/-! ## Atoms -/

section Levels

variable {room : Nat} {inner : Levels}

/-- A tree of one node, read from `ts`. -/
theorem Parsed.leaf {ts : List Tok} (derives : Derives (.expr .atom e) ts 0) (one : size e = 1)
    (flat : widest e = 0) (text : ahead env s = ts ++ ahead env s₁) (nodes : s₁.nodes = s.nodes)
    (counted : Counts env s₁ s') : Parsed env (room + 1) (.expr .atom e) s s' := by
  obtain ⟨textEnd, nodesEnd, bounded⟩ := counted
  refine ⟨⟨ts, 0, derives, Nat.succ_pos _, by rw [text, textEnd]⟩, ?_, bounded, ?_⟩
  · simp only [Phrase.size, one]
    omega
  · simp [Phrase.widest, flat]

theorem interval_sound (key : Reads env (.kw .interval) s s₁) (ran : interval env s₁ = .ok (e, s')) :
    Parsed env (room + 1) (.expr .atom e) s s' := by
  obtain ⟨tok, s₂, bumped, rest⟩ := stateT_bind_ok.mp ran
  cases tok with
  | str value =>
    cases written : intervalOf value with
    | none =>
      simp only [written] at rest
      obtain ⟨_, _, _, rest⟩ := stateT_bind_ok.mp rest
      exact absurd rest errorHere_inv
    | some interval =>
      simp only [written] at rest
      obtain ⟨rfl, counted⟩ := node_counts rest
      obtain ⟨textKey, nodesKey⟩ := key
      obtain ⟨textValue, nodesValue⟩ := bump_reads bumped rfl
      exact .leaf (.interval written) rfl rfl (by rw [textKey, textValue]; rfl) (by omega) counted
  | _ =>
    obtain ⟨_, _, _, rest⟩ := stateT_bind_ok.mp rest
    exact absurd rest errorHere_inv

theorem call_sound (sound : SoundAt env room .or inner.or) {name : Text}
    (text : ahead env s = .ident name :: .lparen :: rest) (ran : call env inner name s = .ok (e, s')) :
    Parsed env (room + 1) (.expr .atom e) s s' := by
  cases known : Func.fromName (name.map Char.toLower) with
  | none =>
    simp only [call, known] at ran
    exact absurd ran errorHere_inv
  | some func =>
    simp only [call, known] at ran
    obtain ⟨_, s₁, bumped, ran⟩ := stateT_bind_ok.mp ran
    obtain ⟨textName, nodesName⟩ := peek_bump_reads text rfl bumped
    rw [text, cons.injEq] at textName
    obtain ⟨_, s₂, bumped, ran⟩ := stateT_bind_ok.mp ran
    obtain ⟨textOpen, nodesOpen⟩ := peek_bump_reads textName.2.symm rfl bumped
    obtain ⟨args, s₃, parsed, ran⟩ := stateT_bind_ok.mp ran
    obtain ⟨⟨⟨ts, n, derives, shallow, textArgs⟩, nodesArgs, -, lists⟩, -⟩ := items_sound sound parsed
    obtain ⟨_, s₄, closed, ran⟩ := stateT_bind_ok.mp ran
    obtain ⟨textClose, nodesClose⟩ := expect_reads rfl closed
    split at ran
    case isTrue => exact absurd ran errorHere_inv
    case isFalse arity =>
      obtain ⟨rfl, textEnd, nodesEnd, bounded⟩ := node_counts ran
      simp only [Phrase.size, Phrase.widest] at nodesArgs lists
      refine ⟨⟨_, _, .call known (not_ne_iff.mp arity) derives, by omega, ?_⟩, ?_, bounded, ?_⟩
      · rw [text, textName.2, textOpen, textArgs, textClose, textEnd]
        simp
      · simp only [Phrase.size, size]
        omega
      · simpa only [Phrase.widest, widest] using lists

theorem atom_sound (sound : SoundAt env room .or inner.or) :
    SoundAt env (room + 1) .atom (atom env inner) := by
  intro s e s' ran
  obtain ⟨start, s₁, got, ran⟩ := stateT_bind_ok.mp ran
  cases got
  obtain ⟨tok, s₂, bumped, ran⟩ := stateT_bind_ok.mp ran
  -- every refusal goes back to the token first
  have refused {message : Text} (ran : (do seek s.cursor; errorHere env message) s₂ = .ok (e, s')) :
      False := by
    obtain ⟨_, _, _, ran⟩ := stateT_bind_ok.mp ran
    exact errorHere_inv ran
  cases tok with
  | number value =>
    obtain ⟨rfl, counted⟩ := node_counts ran
    obtain ⟨text, nodes⟩ := bump_reads bumped rfl
    exact .leaf (.number value) rfl rfl text nodes counted
  | str value =>
    obtain ⟨rfl, counted⟩ := node_counts ran
    obtain ⟨text, nodes⟩ := bump_reads bumped rfl
    exact .leaf (.text value) rfl rfl text nodes counted
  | kw key =>
    cases key with
    | true =>
      obtain ⟨rfl, counted⟩ := node_counts ran
      obtain ⟨text, nodes⟩ := bump_reads bumped rfl
      exact .leaf .isTrue rfl rfl text nodes counted
    | false =>
      obtain ⟨rfl, counted⟩ := node_counts ran
      obtain ⟨text, nodes⟩ := bump_reads bumped rfl
      exact .leaf .isFalse rfl rfl text nodes counted
    | interval => exact interval_sound (bump_reads bumped rfl) ran
    | _ => exact (refused ran).elim
  | lparen =>
    obtain ⟨inside, s₃, parsed, ran⟩ := stateT_bind_ok.mp ran
    obtain ⟨_, s₄, closed, ran⟩ := stateT_bind_ok.mp ran
    obtain ⟨rfl, rfl⟩ := stateT_pure_ok.mp ran
    obtain ⟨textOpen, nodesOpen⟩ := bump_reads bumped rfl
    obtain ⟨⟨ts, n, derives, shallow, text⟩, nodes, bounded, lists⟩ := sound parsed
    obtain ⟨textClose, nodesClose⟩ := expect_reads rfl closed
    refine ⟨⟨_, _, .paren derives, by omega, ?_⟩, ?_, by omega, lists⟩
    · rw [textOpen, text, textClose]
      simp
    · simp only [Phrase.size] at nodes ⊢
      omega
  | ident name =>
    obtain ⟨text, nodes⟩ := bump_reads bumped rfl
    obtain ⟨behind, s₃, peeked, ran⟩ := stateT_bind_ok.mp ran
    obtain ⟨rfl, textBehind⟩ := peek_inv peeked
    split at ran
    case isTrue opened =>
      subst opened
      obtain ⟨_, s₄, sought, called⟩ := stateT_bind_ok.mp ran
      cases sought
      -- `call` starts again at the name
      have back : (⟨s.cursor, s₂.nodes⟩ : State) = s := by rw [nodes]
      rw [back] at called
      rw [textBehind] at text
      exact call_sound sound text called
    case isFalse =>
      by_cases upper : name.any Char.isUpper = true
      · rw [if_pos upper] at ran
        exact (refused ran).elim
      · rw [if_neg upper] at ran
        obtain ⟨rfl, counted⟩ := node_counts ran
        exact .leaf (.field (Bool.eq_false_iff.mpr upper)) rfl rfl text nodes counted
  | _ => exact (refused ran).elim

/-! ## Precedence levels -/

theorem unary_sound (nested : SoundAt env room .unary inner.unary)
    (sound : SoundAt env room .or inner.or) : SoundAt env (room + 1) .unary (unary env inner) := by
  intro s e s' ran
  obtain ⟨tok, s₁, peeked, ran⟩ := stateT_bind_ok.mp ran
  obtain ⟨rfl, text⟩ := peek_inv peeked
  split at ran
  case h_1 =>
    obtain ⟨_, s₂, bumped, ran⟩ := stateT_bind_ok.mp ran
    obtain ⟨operand, s₃, parsed, ran⟩ := stateT_bind_ok.mp ran
    obtain ⟨rfl, textEnd, nodesEnd, bounded⟩ := node_counts ran
    obtain ⟨textMinus, nodesMinus⟩ := peek_bump_reads text rfl bumped
    obtain ⟨⟨ts, n, derives, shallow, textOperand⟩, nodes, -, lists⟩ := nested parsed
    refine ⟨⟨_, _, .neg derives, by omega, ?_⟩, ?_, bounded, ?_⟩
    · rw [textMinus, textOperand, textEnd]
      rfl
    · simp only [Phrase.size, size] at nodes ⊢
      omega
    · simpa only [Phrase.widest, widest] using lists
  case h_2 => exact absurd ran errorHere_inv
  case h_3 => exact (atom_sound sound ran).climb rfl

theorem multiplicative_sound (sound : SoundAt env (room + 1) .unary (unary env inner)) :
    SoundAt env (room + 1) .multiplicative (multiplicative env inner) := by
  refine leftChain_sound rfl ?_ sound
  intro tok op known
  split at known <;> cases known
  case isTrue same => exact same ▸ ⟨rfl, .mul⟩

theorem additive_sound (sound : SoundAt env (room + 1) .multiplicative (multiplicative env inner)) :
    SoundAt env (room + 1) .additive (additive env inner) := by
  refine leftChain_sound rfl ?_ sound
  intro tok op known
  split at known
  case isTrue same =>
    cases known
    exact same ▸ ⟨rfl, .add⟩
  case isFalse =>
    split at known <;> cases known
    case isTrue same => exact same ▸ ⟨rfl, .sub⟩

theorem other_sound (sound : SoundAt env (room + 1) .additive (additive env inner)) :
    SoundAt env (room + 1) .other (other env inner) := by
  refine leftChain_sound rfl ?_ sound
  intro tok op known
  split at known <;> cases known
  case isTrue same => exact same ▸ ⟨rfl, .pattern⟩

theorem peek2_inv {first : Tok} (ran : peek2 env s = .ok (tok, s')) (text : ahead env s = first :: rest)
    (different : tok ≠ first) : s = s' ∧ ∃ more, rest = tok :: more := by
  obtain ⟨start, found⟩ := getElem?_of_ahead text
  obtain ⟨inside, item⟩ := List.getElem?_eq_some_iff.mp found
  unfold peek2 at ran
  split at ran
  case h_1 foundSecond =>
    cases ran
    refine ⟨rfl, ?_⟩
    -- at the end of the list the look-ahead stays on the same token
    by_cases last : s.cursor + 1 ≤ env.tokens.length - 1
    · rw [Nat.min_eq_left last] at foundSecond
      have second := ahead_of_getElem? (s := s.advance 1 0) foundSecond
      rw [ahead_advance_one 0 text] at second
      exact ⟨_, second⟩
    · rw [Nat.min_eq_right (by omega), show env.tokens.length - 1 = s.cursor by omega, found] at foundSecond
      cases foundSecond
      exact absurd rfl different
  case h_2 => cases ran

/-- `NOT` is only looked for in front of `BETWEEN` and `IN`. -/
theorem rangeNot_inv {negated : Bool} (ran : rangeNot env s = .ok (negated, s')) :
    s = s' ∧ (negated = true → ∃ second rest, ahead env s = .kw .not :: second :: rest ∧
      (second = .kw .between ∨ second = .kw .in)) := by
  obtain ⟨tok, s₁, peeked, ran⟩ := stateT_bind_ok.mp ran
  obtain ⟨rfl, text⟩ := peek_inv peeked
  split at ran
  case isTrue key =>
    subst key
    obtain ⟨second, s₂, looked, ran⟩ := stateT_bind_ok.mp ran
    obtain ⟨rfl, rfl⟩ := stateT_pure_ok.mp ran
    by_cases kind : second = .kw .between ∨ second = .kw .in
    · have different : second ≠ .kw .not := by
        intro same
        subst same
        obtain absurdity | absurdity := kind <;> cases absurdity
      obtain ⟨rfl, more, behind⟩ := peek2_inv looked text different
      rw [behind] at text
      exact ⟨rfl, fun _ => ⟨second, more, text, kind⟩⟩
    · have unchanged : s = s₂ := by
        unfold peek2 at looked
        split at looked <;> cases looked
        rfl
      refine ⟨unchanged, fun negated => absurd ?_ kind⟩
      simpa using negated
  case isFalse =>
    obtain ⟨rfl, rfl⟩ := stateT_pure_ok.mp ran
    exact ⟨rfl, fun negated => by cases negated⟩

theorem rangeTail_sound (sound : SoundAt env (room + 1) .other (other env inner)) {s₂ : State} {value : Expr}
    {negated : Bool} (first : Parsed env (room + 1) (.expr .other value) s s₁)
    (word : ahead env s₁ = negation negated ++ ahead env s₂) (same : s₂.nodes = s₁.nodes)
    (test : negated = true → ∃ second rest, ahead env s₂ = second :: rest ∧
      (second = .kw .between ∨ second = .kw .in)) (ran : rangeTail env inner value negated s₂ = .ok (e, s')) :
    Parsed env (room + 1) (.expr .range e) s s' := by
  obtain ⟨tok, s₃, peeked, ran⟩ := stateT_bind_ok.mp ran
  obtain ⟨rfl, text⟩ := peek_inv peeked
  obtain ⟨⟨ts, m, derives, shallow, textValue⟩, nodesValue, bounded, listsValue⟩ := first
  simp only [Phrase.size, Phrase.widest] at nodesValue listsValue
  split at ran
  case h_1 =>
    obtain ⟨_, s₄, bumped, ran⟩ := stateT_bind_ok.mp ran
    obtain ⟨textKey, nodesKey⟩ := peek_bump_reads text rfl bumped
    obtain ⟨lo, s₅, parsed, ran⟩ := stateT_bind_ok.mp ran
    obtain ⟨⟨us, n, derivesLow, shallowLow, textLow⟩, nodesLow, -, listsLow⟩ := sound parsed
    obtain ⟨_, s₆, closed, ran⟩ := stateT_bind_ok.mp ran
    obtain ⟨textAnd, nodesAnd⟩ := expect_reads rfl closed
    obtain ⟨hi, s₇, parsed, ran⟩ := stateT_bind_ok.mp ran
    obtain ⟨⟨vs, k, derivesHigh, shallowHigh, textHigh⟩, nodesHigh, -, listsHigh⟩ := sound parsed
    obtain ⟨rfl, textEnd, nodesEnd, bounded⟩ := node_counts ran
    simp only [Phrase.size, Phrase.widest] at nodesLow listsLow nodesHigh listsHigh
    refine ⟨⟨_, _, .between derives derivesLow derivesHigh, by omega, ?_⟩, ?_, bounded, ?_⟩
    · rw [textValue, word, textKey, textLow, textAnd, textHigh, textEnd]
      simp
    · simp only [Phrase.size, size]
      omega
    · simp only [Phrase.widest, widest]
      omega
  case h_2 =>
    obtain ⟨_, s₄, bumped, ran⟩ := stateT_bind_ok.mp ran
    obtain ⟨textKey, nodesKey⟩ := peek_bump_reads text rfl bumped
    obtain ⟨_, s₅, opened, ran⟩ := stateT_bind_ok.mp ran
    obtain ⟨textOpen, nodesOpen⟩ := expect_reads rfl opened
    obtain ⟨list, s₆, parsed, ran⟩ := stateT_bind_ok.mp ran
    obtain ⟨⟨⟨us, n, derivesItems, shallowItems, textItems⟩, nodesItems, -, listsItems⟩, short⟩ :=
      items_sound sound parsed
    obtain ⟨_, s₇, closed, ran⟩ := stateT_bind_ok.mp ran
    obtain ⟨textClose, nodesClose⟩ := expect_reads rfl closed
    obtain ⟨rfl, textEnd, nodesEnd, bounded⟩ := node_counts ran
    simp only [Phrase.size, Phrase.widest] at nodesItems listsItems
    have length : list.length ≤ max 1 env.limits.items := by
      obtain fits | one := short
      · unfold tooManyItems at fits
        split at fits
        case isTrue => cases fits
        case isFalse => omega
      · omega
    refine ⟨⟨_, _, .inList derives derivesItems, by omega, ?_⟩, ?_, bounded, ?_⟩
    · rw [textValue, word, textKey, textOpen, textItems, textClose, textEnd]
      simp
    · simp only [Phrase.size, size]
      omega
    · simp only [Phrase.widest, widest]
      omega
  case h_3 noBetween noIn =>
    obtain ⟨rfl, rfl⟩ := stateT_pure_ok.mp ran
    cases negated with
    | true =>
      obtain ⟨second, rest, textSecond, kind⟩ := test rfl
      rw [text, cons.injEq] at textSecond
      obtain rfl | rfl := kind
      · exact absurd textSecond.1 noBetween
      · exact absurd textSecond.1 noIn
    | false =>
      refine ⟨⟨ts, m, .climb rfl derives, shallow, by rw [textValue, word]; rfl⟩, ?_, by omega, listsValue⟩
      simp only [Phrase.size]
      omega

theorem range_sound (sound : SoundAt env (room + 1) .other (other env inner)) :
    SoundAt env (room + 1) .range (range env inner) := by
  intro s e s' ran
  obtain ⟨value, s₁, parsed, ran⟩ := stateT_bind_ok.mp ran
  obtain ⟨negated, s₂, looked, ran⟩ := stateT_bind_ok.mp ran
  obtain ⟨rfl, test⟩ := rangeNot_inv looked
  cases negated with
  | true =>
    obtain ⟨_, s₃, bumped, ran⟩ := stateT_bind_ok.mp ran
    obtain ⟨second, rest, text, kind⟩ := test rfl
    obtain ⟨textNot, nodesNot⟩ := peek_bump_reads text rfl bumped
    rw [text, cons.injEq] at textNot
    refine rangeTail_sound sound (sound parsed) ?_ nodesNot (fun _ => ⟨second, rest, textNot.2.symm, kind⟩) ran
    rw [text, ← textNot.2]
    rfl
  | false =>
    exact rangeTail_sound sound (sound parsed) rfl rfl (fun negated => by cases negated) ran

theorem comparison_sound (sound : SoundAt env (room + 1) .range (range env inner)) :
    SoundAt env (room + 1) .comparison (comparison env inner) := by
  intro s e s' ran
  obtain ⟨l, s₁, first, ran⟩ := stateT_bind_ok.mp ran
  obtain ⟨tok, s₂, peeked, ran⟩ := stateT_bind_ok.mp ran
  obtain ⟨rfl, text⟩ := peek_inv peeked
  have alone (ran : (pure l : Parse Expr) s₁ = .ok (e, s')) :
      Parsed env (room + 1) (.expr .comparison e) s s' := by
    obtain ⟨rfl, rfl⟩ := stateT_pure_ok.mp ran
    exact (sound first).climb rfl
  cases tok with
  | op operator =>
    cases kind : operator.isComparison with
    | true =>
      simp only [kind] at ran
      obtain ⟨_, s₃, bumped, ran⟩ := stateT_bind_ok.mp ran
      obtain ⟨r, s₄, second, ran⟩ := stateT_bind_ok.mp ran
      obtain ⟨rfl, counted⟩ := node_counts ran
      exact (sound first).binary (.compare kind) (peek_bump_reads text rfl bumped) (sound second) counted
    | false =>
      simp only [kind] at ran
      exact alone ran
  | _ => exact alone ran

theorem Parsed.isNull (negated : Bool) {s₂ s₃ s₄ : State} (operand : Parsed env room (.expr .is e) s s₁)
    (key : Reads env (.kw .is) s₁ s₂) (word : ahead env s₂ = negation negated ++ ahead env s₃)
    (same : s₃.nodes = s₂.nodes) (null : Reads env (.kw .null) s₃ s₄) (counted : Counts env s₄ s') :
    Parsed env room (.expr .is (.isNull e negated)) s s' := by
  obtain ⟨⟨ts, n, derives, shallow, text⟩, nodes, -, lists⟩ := operand
  obtain ⟨textKey, nodesKey⟩ := key
  obtain ⟨textNull, nodesNull⟩ := null
  obtain ⟨textEnd, nodesEnd, bounded⟩ := counted
  refine ⟨⟨_, _, .isNull derives, shallow, ?_⟩, ?_, bounded, ?_⟩
  · rw [text, textKey, word, textNull, textEnd]
    simp
  · simp only [Phrase.size, size] at nodes ⊢
    omega
  · simpa only [Phrase.widest, widest] using lists

theorem isLoop_sound (rounds : Nat) {operand : Expr} (start : Parsed env room (.expr .is operand) s s₁)
    (ran : isLoop env rounds operand s₁ = .ok (e, s')) : Parsed env room (.expr .is e) s s' := by
  induction rounds generalizing operand s₁ with
  | zero => cases ran
  | succ rounds ih =>
    obtain ⟨tok, s₂, peeked, ran⟩ := stateT_bind_ok.mp ran
    obtain ⟨rfl, text⟩ := peek_inv peeked
    split at ran
    case isTrue key =>
      subst key
      obtain ⟨_, s₃, bumped, ran⟩ := stateT_bind_ok.mp ran
      have key := peek_bump_reads text rfl bumped
      obtain ⟨found, s₄, peeked, ran⟩ := stateT_bind_ok.mp ran
      obtain ⟨rfl, textFound⟩ := peek_inv peeked
      split at ran
      case isTrue negated =>
        subst negated
        obtain ⟨_, s₅, bumped, ran⟩ := stateT_bind_ok.mp ran
        obtain ⟨textNot, nodesNot⟩ := peek_bump_reads textFound rfl bumped
        obtain ⟨_, s₆, closed, ran⟩ := stateT_bind_ok.mp ran
        obtain ⟨e', s₇, made, ran⟩ := stateT_bind_ok.mp ran
        obtain ⟨rfl, counted⟩ := node_counts made
        have null := expect_reads rfl closed
        exact ih (.isNull true start key textNot nodesNot null counted) ran
      case isFalse =>
        obtain ⟨_, s₆, closed, ran⟩ := stateT_bind_ok.mp ran
        obtain ⟨e', s₇, made, ran⟩ := stateT_bind_ok.mp ran
        obtain ⟨rfl, counted⟩ := node_counts made
        have null := expect_reads rfl closed
        exact ih (.isNull false start key rfl rfl null counted) ran
    case isFalse =>
      obtain ⟨rfl, rfl⟩ := stateT_pure_ok.mp ran
      exact start

theorem is_sound (sound : SoundAt env (room + 1) .comparison (comparison env inner)) :
    SoundAt env (room + 1) .is (is env inner) := by
  intro s e s' ran
  obtain ⟨operand, s₁, parsed, ran⟩ := stateT_bind_ok.mp ran
  exact isLoop_sound _ ((sound parsed).climb rfl) ran

theorem not_sound (nested : SoundAt env room .not inner.not)
    (sound : SoundAt env (room + 1) .is (is env inner)) :
    SoundAt env (room + 1) .not (not env inner) := by
  intro s e s' ran
  obtain ⟨tok, s₁, peeked, ran⟩ := stateT_bind_ok.mp ran
  obtain ⟨rfl, text⟩ := peek_inv peeked
  split at ran
  case isTrue key =>
    subst key
    obtain ⟨_, s₂, bumped, ran⟩ := stateT_bind_ok.mp ran
    obtain ⟨operand, s₃, parsed, ran⟩ := stateT_bind_ok.mp ran
    obtain ⟨rfl, textEnd, nodesEnd, bounded⟩ := node_counts ran
    obtain ⟨textNot, nodesNot⟩ := peek_bump_reads text rfl bumped
    obtain ⟨⟨ts, n, derives, shallow, textOperand⟩, nodes, -, lists⟩ := nested parsed
    refine ⟨⟨_, _, .not derives, by omega, ?_⟩, ?_, bounded, ?_⟩
    · rw [textNot, textOperand, textEnd]
      rfl
    · simp only [Phrase.size, size] at nodes ⊢
      omega
    · simpa only [Phrase.widest, widest] using lists
  case isFalse => exact (sound ran).climb rfl

theorem and_sound (sound : SoundAt env (room + 1) .not (not env inner)) :
    SoundAt env (room + 1) .and (and env inner) := by
  refine leftChain_sound rfl ?_ sound
  intro tok op known
  split at known <;> cases known
  case isTrue same => exact same ▸ ⟨rfl, .and⟩

theorem or_sound (sound : SoundAt env (room + 1) .and (and env inner)) :
    SoundAt env (room + 1) .or (or env inner) := by
  refine leftChain_sound rfl ?_ sound
  intro tok op known
  split at known <;> cases known
  case isTrue same => exact same ▸ ⟨rfl, .or⟩

structure SoundLevels (env : Env) (room : Nat) (inner : Levels) : Prop where
  or : SoundAt env room .or inner.or
  not : SoundAt env room .not inner.not
  unary : SoundAt env room .unary inner.unary

theorem SoundLevels.deeper (sound : SoundLevels env room inner) :
    SoundLevels env (room + 1) ⟨Parser.or env inner, Parser.not env inner, Parser.unary env inner⟩ := by
  have unary := unary_sound sound.unary sound.or
  have other := other_sound (additive_sound (multiplicative_sound unary))
  have not := not_sound sound.not (is_sound (comparison_sound (range_sound other)))
  exact ⟨or_sound (and_sound not), not, unary⟩

end Levels

theorem levels_sound (room : Nat) : SoundLevels env room (levels env room) := by
  induction room with
  | zero =>
    have refused {level : Level} : SoundAt env 0 level (tooDeep env) :=
      fun _ _ _ ran => absurd ran errorHere_inv
    exact ⟨refused, refused, refused⟩
  | succ room ih => exact ih.deeper

end RootCx.Rules.Parser
