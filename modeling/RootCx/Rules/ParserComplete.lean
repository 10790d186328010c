import RootCx.Rules.ParserSound

/-! # What is derivable is accepted

Where a phrase of the grammar comes next and no token that could continue it
follows, the level's parser reads exactly that phrase, provided the limits allow
it.  With limits that are large enough this also makes derivations unique.
-/

namespace RootCx.Rules.Parser

open RootCx.Text List

variable {env : Env}

variable {s : State} {tok : Tok} {rest : List Tok} {e : Expr} {level : Level} {ts : List Tok} {n : Nat}
  {es : List Expr} {more : List Tok}

/-! ## Single tokens, run -/

theorem peek_ahead (text : ahead env s = tok :: rest) : peek env s = .ok (tok, s) := by
  obtain ⟨start, found⟩ := getElem?_of_ahead text
  rw [peek, found]

theorem bump_ahead (text : ahead env s = tok :: rest) (notLast : tok.isLast = false) :
    bump env s = .ok (tok, s.advance 1 0) := by
  obtain ⟨start, found⟩ := getElem?_of_ahead text
  rw [bump, found]
  simp only [notLast]
  rfl

theorem expect_ahead {what : Text} (text : ahead env s = tok :: rest) (notLast : tok.isLast = false) :
    expect env tok what s = .ok ((), s.advance 1 0) := by
  rw [expect, stateT_bind_of_ok (peek_ahead text), if_pos rfl,
    stateT_bind_of_ok (bump_ahead text notLast)]
  rfl

theorem node_within (room : s.nodes + 1 ≤ env.limits.nodes) : node env e s = .ok (e, s.advance 0 1) := by
  rw [node, if_neg (by omega)]
  rfl

theorem binary_within {op : BinOp} {l r : Expr} (room : s.nodes + 1 ≤ env.limits.nodes) :
    binary env op l r s = .ok (.binary op l r, s.advance 0 1) :=
  node_within room

/-- Every phrase of `level` that is nested less than `room` deep is read. -/
def CompleteAt (env : Env) (room : Nat) (level : Level) (parser : Parse Expr) : Prop :=
  ∀ ⦃s e ts n tok more⦄, Derives (.expr level e) ts n → n < room →
    ahead env s = ts ++ tok :: more → continues level tok = false →
    s.nodes + size e ≤ env.limits.nodes → widest e ≤ env.limits.items →
    parser s = .ok (e, s.advance ts.length (size e))

/-! ## Chains -/

def Level.isChain : Level → Bool
  | .or | .and | .other | .additive | .multiplicative => true
  | _ => false

theorem Derives.chain_cases {inner : Level} (chain : level.isChain = true) (next : level.tighter = some inner)
    (derives : Derives (.expr level e) ts n) :
    Derives (.expr inner e) ts n ∨
      ∃ op tok l r us vs m k, Infix op tok level level inner ∧ e = .binary op l r ∧
        ts = us ++ tok :: vs ∧ n = max m k ∧ Derives (.expr level l) us m ∧
        Derives (.expr inner r) vs k := by
  cases derives with
  | climb next' below =>
    rw [next] at next'
    cases next'
    exact .inl below
  | binary rule first second =>
    refine .inr ⟨_, _, _, _, _, _, _, _, ?_, rfl, rfl, rfl, ?_, ?_⟩
    all_goals cases rule <;> cases next <;> first | cases chain | skip
    all_goals first | assumption | constructor
  | _ => cases chain

theorem Infix.stops {op : BinOp} {left right : Level} (rule : Infix op tok level left right)
    (chain : level.isChain = true) : tok.isLast = false ∧ tok.level = some level := by
  cases rule with
  | compare => cases chain
  | _ => exact ⟨rfl, rfl⟩

theorem not_continues {inner : Level} (operator : tok.level = some level) (ranks : level.rank < inner.rank) :
    continues inner tok = false := by
  simp only [continues, operator, Option.any_some, decide_eq_false_iff_not]
  omega

section Chain

variable {room : Nat} {level inner : Level} {operator : Tok → Option BinOp} {operand : Parse Expr}

/-- The chain has read the phrase and is back at the head of its loop. -/
theorem leftChain_reaches (chain : level.isChain = true) (next : level.tighter = some inner)
    (rules : ∀ op tok, Infix op tok level level inner → operator tok = some op)
    (operands : CompleteAt env room inner operand) (derives : Derives (.expr level e) ts n) :
    ∀ ⦃s tok more⦄, n < room → ahead env s = ts ++ tok :: more → continues inner tok = false →
      s.nodes + size e ≤ env.limits.nodes → widest e ≤ env.limits.items →
      ∃ rounds, (tok :: more).length ≤ rounds ∧
        leftChain env operator operand s =
          chainLoop env operator operand rounds e (s.advance ts.length (size e)) := by
  -- the left operand is a shorter phrase of the same level
  induction length : ts.length using Nat.strong_induction_on generalizing e ts n with
  | _ length ih =>
    subst length
    intro s tok more shallow text stop nodes lists
    obtain below | ⟨op, optok, l, r, us, vs, m, k, rule, rfl, rfl, rfl, left, right⟩ :=
      derives.chain_cases chain next
    · refine ⟨env.tokens.length, ?_, ?_⟩
      · have whole := congrArg length text
        simp only [ahead, length_drop, length_map, length_append] at whole
        omega
      · rw [leftChain, stateT_bind_of_ok (operands below shallow text stop nodes lists)]
    · obtain ⟨notLast, operatorLevel⟩ := rule.stops chain
      have ranks := rank_tighter next
      simp only [size, widest] at nodes lists
      rw [append_assoc, cons_append] at text
      obtain ⟨rounds, enough, reached⟩ := ih us.length (by simp) left rfl
        (by omega) text (not_continues operatorLevel (by omega)) (by omega) (by omega)
      obtain ⟨rounds, rfl⟩ : ∃ n, rounds = n + 1 := ⟨rounds - 1, by simp at enough; omega⟩
      have textOp := ahead_advance (size l) text
      have textRight := ahead_advance_one 0 textOp
      refine ⟨rounds, by simp at enough ⊢; omega, ?_⟩
      rw [reached, chainLoop, stateT_bind_of_ok (peek_ahead textOp)]
      simp only [rules op optok rule]
      rw [stateT_bind_of_ok (bump_ahead textOp notLast),
        stateT_bind_of_ok (operands right (by omega) textRight stop (by simp; omega) (by omega)),
        stateT_bind_of_ok (binary_within (by simp only [advance_nodes]; omega))]
      congr 1
      simp [State.advance, size]
      omega

theorem leftChain_complete (chain : level.isChain = true) (next : level.tighter = some inner)
    (rules : ∀ op tok, Infix op tok level level inner → operator tok = some op)
    (stops : ∀ tok, continues level tok = false → operator tok = none)
    (operands : CompleteAt env room inner operand) :
    CompleteAt env room level (leftChain env operator operand) := by
  intro s e ts n tok more derives shallow text stop nodes lists
  obtain ⟨rounds, enough, reached⟩ := leftChain_reaches chain next rules operands derives shallow text
    (continues_tighter next stop) nodes lists
  obtain ⟨rounds, rfl⟩ : ∃ n, rounds = n + 1 := ⟨rounds - 1, by simp at enough; omega⟩
  have textEnd := ahead_advance (size e) text
  rw [reached, chainLoop, stateT_bind_of_ok (peek_ahead textEnd)]
  simp only [stops tok stop]
  rfl

end Chain

section Items

variable {room : Nat} {level : Level} {item : Parse Expr} {tooMany : List Expr → Option Text}

theorem Derives.list_cases (derives : Derives (.list level es) ts n) :
    (∃ e, es = [e] ∧ Derives (.expr level e) ts n) ∨
      ∃ front e us vs m k, es = front ++ [e] ∧ ts = us ++ .comma :: vs ∧ n = max m k ∧
        Derives (.list level front) us m ∧ Derives (.expr level e) vs k := by
  cases derives with
  | one item => exact .inl ⟨_, rfl, item⟩
  | more items item => exact .inr ⟨_, _, _, _, _, _, rfl, rfl, rfl, items, item⟩

theorem items_reaches (complete : CompleteAt env room level item) {bound : Nat}
    (fits : ∀ list, list.length ≤ bound → tooMany list = none) (derives : Derives (.list level es) ts n) :
    ∀ ⦃s tok more⦄, n < room → ahead env s = ts ++ tok :: more → continues level tok = false →
      s.nodes + sizeAll es ≤ env.limits.nodes → widestAll es ≤ env.limits.items →
      es.length ≤ bound →
      ∃ rounds, (tok :: more).length ≤ rounds ∧
        items env item tooMany s =
          itemsLoop env item tooMany rounds es (s.advance ts.length (sizeAll es)) := by
  induction length : ts.length using Nat.strong_induction_on generalizing es ts n with
  | _ length ih =>
    subst length
    intro s tok more shallow text stop nodes lists short
    obtain ⟨e, rfl, single⟩ | ⟨front, e, us, vs, m, k, rfl, rfl, rfl, left, right⟩ := derives.list_cases
    · simp only [sizeAll, widestAll, Nat.add_zero, Nat.max_zero] at nodes lists ⊢
      refine ⟨env.tokens.length, ?_, ?_⟩
      · have whole := congrArg length text
        simp only [ahead, length_drop, length_map, length_append] at whole
        omega
      · rw [items, stateT_bind_of_ok (complete single shallow text stop nodes lists)]
    · simp only [sizeAll_concat, widestAll_concat] at nodes lists
      rw [append_assoc, cons_append] at text
      have shorter : front.length ≤ bound := by
        simp only [length_append] at short
        omega
      obtain ⟨rounds, enough, reached⟩ := ih us.length (by simp) left rfl
        (by omega) text rfl (by omega) (by omega) shorter
      obtain ⟨rounds, rfl⟩ : ∃ n, rounds = n + 1 := ⟨rounds - 1, by simp at enough; omega⟩
      have textComma := ahead_advance (sizeAll front) text
      have textItem := ahead_advance_one 0 textComma
      refine ⟨rounds, by simp at enough ⊢; omega, ?_⟩
      rw [reached, itemsLoop, stateT_bind_of_ok (peek_ahead textComma), if_pos rfl,
        stateT_bind_of_ok (bump_ahead textComma rfl),
        stateT_bind_of_ok (complete right (by omega) textItem stop (by simp only [advance_nodes]; omega)
          (by omega))]
      simp only [fits (front ++ [e]) short]
      congr 1
      simp [State.advance, sizeAll_concat]
      omega

theorem items_complete (complete : CompleteAt env room level item) {bound : Nat}
    (fits : ∀ list, list.length ≤ bound → tooMany list = none) (derives : Derives (.list level es) ts n)
    (shallow : n < room) (text : ahead env s = ts ++ .rparen :: more)
    (nodes : s.nodes + sizeAll es ≤ env.limits.nodes) (lists : widestAll es ≤ env.limits.items)
    (short : es.length ≤ bound) : items env item tooMany s = .ok (es, s.advance ts.length (sizeAll es)) := by
  obtain ⟨rounds, enough, reached⟩ := items_reaches complete fits derives shallow text rfl nodes lists short
  obtain ⟨rounds, rfl⟩ : ∃ n, rounds = n + 1 := ⟨rounds - 1, by simp at enough; omega⟩
  have textEnd := ahead_advance (sizeAll es) text
  rw [reached, itemsLoop, stateT_bind_of_ok (peek_ahead textEnd), if_neg (by decide)]
  rfl

end Items

/-! ## Atoms -/

section Levels

variable {room : Nat} {inner : Levels}

theorem call_complete (complete : CompleteAt env room .or inner.or) {name : Text} {func : Func}
    {args : List Expr} (known : Func.fromName (name.map Char.toLower) = some func)
    (arity : args.length = func.arity) (inside : Derives (.list .or args) ts n) (shallow : n < room)
    (text : ahead env s = .ident name :: .lparen :: (ts ++ .rparen :: more))
    (nodes : s.nodes + (sizeAll args + 1) ≤ env.limits.nodes) (lists : widestAll args ≤ env.limits.items) :
    call env inner name s = .ok (.call func args, s.advance (ts.length + 3) (sizeAll args + 1)) := by
  have textOpen := ahead_advance_one 0 text
  have textArgs := ahead_advance_one 0 textOpen
  have textClose := ahead_advance (sizeAll args) textArgs
  simp only [call, known]
  rw [stateT_bind_of_ok (bump_ahead text rfl), stateT_bind_of_ok (bump_ahead textOpen rfl),
    stateT_bind_of_ok (items_complete complete (fun _ _ => rfl) inside shallow textArgs
      (by simp only [advance_nodes]; omega) lists (Nat.le_refl _)),
    stateT_bind_of_ok (expect_ahead textClose rfl), if_neg (not_not_intro arity),
    node_within (by simp only [advance_nodes]; omega)]
  simp [State.advance]
  omega

theorem atom_complete (complete : CompleteAt env room .or inner.or) :
    CompleteAt env (room + 1) .atom (atom env inner) := by
  intro s e ts n tok more derives shallow text stop nodes lists
  have start {parser : State → Parse Expr} : (get >>= parser) s = parser s s := rfl
  rw [atom, start]
  cases derives with
  | climb next => cases next
  | binary rule => cases rule
  | number value | text value | isTrue | isFalse =>
    rw [stateT_bind_of_ok (bump_ahead text rfl)]
    exact node_within nodes
  | interval written =>
    have textValue := ahead_advance_one 0 text
    rw [stateT_bind_of_ok (bump_ahead text rfl)]
    simp only [interval]
    rw [stateT_bind_of_ok (bump_ahead textValue rfl)]
    simp only [written]
    exact node_within nodes
  | paren inside =>
    simp only [cons_append, append_assoc, nil_append] at text
    have textInside := ahead_advance_one 0 text
    have textClose := ahead_advance (size e) textInside
    rw [stateT_bind_of_ok (bump_ahead text rfl)]
    simp only
    rw [stateT_bind_of_ok (complete inside (by omega) textInside rfl nodes lists),
      stateT_bind_of_ok (expect_ahead textClose rfl)]
    show Except.ok _ = _
    simp [State.advance]
    omega
  | call known arity inside =>
    simp only [cons_append, append_assoc, nil_append] at text
    simp only [size, widest] at nodes lists
    have textOpen := ahead_advance_one 0 text
    rw [stateT_bind_of_ok (bump_ahead text rfl)]
    simp only
    rw [stateT_bind_of_ok (peek_ahead textOpen), if_pos rfl]
    show call env inner _ s = _
    rw [call_complete complete known arity inside (by omega) text nodes lists]
    simp [State.advance, size]
  | field lower =>
    have textBehind := ahead_advance_one 0 text
    have noCall : tok ≠ .lparen := by
      intro same
      subst same
      cases stop
    rw [stateT_bind_of_ok (bump_ahead text rfl)]
    simp only
    rw [stateT_bind_of_ok (peek_ahead textBehind), if_neg noCall, if_neg (by simp [lower])]
    exact node_within nodes

/-! ## Precedence levels -/

theorem unary_complete (nested : CompleteAt env room .unary inner.unary)
    (complete : CompleteAt env room .or inner.or) :
    CompleteAt env (room + 1) .unary (unary env inner) := by
  intro s e ts n tok more derives shallow text stop nodes lists
  cases derives with
  | climb next below =>
    cases next
    obtain ⟨first, rest, rfl, opening⟩ := below.starts
    rw [unary, stateT_bind_of_ok (peek_ahead text)]
    -- an atom does not start with a sign
    have atomic := atom_complete complete below shallow text (continues_tighter rfl stop) nodes lists
    split
    case h_1 => cases opening
    case h_2 => cases opening
    case h_3 => exact atomic
  | binary rule => cases rule
  | neg operand =>
    simp only [size, widest] at nodes lists
    have textOperand := ahead_advance_one 0 text
    rw [unary, stateT_bind_of_ok (peek_ahead text)]
    simp only
    rw [stateT_bind_of_ok (bump_ahead text rfl),
      stateT_bind_of_ok (nested operand (by omega) textOperand stop (by simp only [advance_nodes]; omega) lists),
      node_within (by simp only [advance_nodes]; omega)]
    simp [State.advance, size]
    omega

theorem multiplicative_complete (complete : CompleteAt env room .unary (unary env inner)) :
    CompleteAt env room .multiplicative (multiplicative env inner) := by
  refine leftChain_complete rfl rfl ?_ ?_ complete
  · intro op tok rule
    cases rule
    rfl
  · intro tok stop
    rw [if_neg]
    rintro rfl
    cases stop

theorem additive_complete (complete : CompleteAt env room .multiplicative (multiplicative env inner)) :
    CompleteAt env room .additive (additive env inner) := by
  refine leftChain_complete rfl rfl ?_ ?_ complete
  · intro op tok rule
    cases rule <;> rfl
  · intro tok stop
    rw [if_neg, if_neg]
    all_goals
      rintro rfl
      cases stop

theorem other_complete (complete : CompleteAt env room .additive (additive env inner)) :
    CompleteAt env room .other (other env inner) := by
  refine leftChain_complete rfl rfl ?_ ?_ complete
  · intro op tok rule
    cases rule
    rfl
  · intro tok stop
    rw [if_neg]
    rintro rfl
    cases stop

theorem peek2_ahead {first second : Tok} (text : ahead env s = first :: second :: rest) :
    peek2 env s = .ok (second, s) := by
  obtain ⟨start, found⟩ := getElem?_of_ahead (ahead_advance_one 0 text)
  obtain ⟨inside, -⟩ := List.getElem?_eq_some_iff.mp found
  have clamp : min (s.cursor + 1) (env.tokens.length - 1) = s.cursor + 1 := by
    simp only [State.advance] at inside
    omega
  rw [peek2, clamp]
  simp only [State.advance] at found
  rw [found]

/-- Behind the first operand the optional `NOT` is read, in front of `key`. -/
theorem range_negation {value : Expr} {key : Tok} {negated : Bool} (kind : key = .kw .between ∨ key = .kw .in)
    (complete : CompleteAt env room .other (other env inner)) (derives : Derives (.expr .other value) ts n)
    (shallow : n < room) (text : ahead env s = ts ++ (negation negated ++ key :: more))
    (nodes : s.nodes + size value ≤ env.limits.nodes) (lists : widest value ≤ env.limits.items) :
    range env inner s =
      rangeTail env inner value negated (s.advance (ts.length + (negation negated).length) (size value)) := by
  cases negated with
  | true =>
    have first := complete derives shallow text rfl nodes lists
    have textNot := ahead_advance (size value) text
    have look : rangeNot env (s.advance ts.length (size value)) =
        .ok (true, s.advance ts.length (size value)) := by
      rw [rangeNot, stateT_bind_of_ok (peek_ahead textNot), if_pos rfl,
        stateT_bind_of_ok (peek2_ahead textNot)]
      obtain rfl | rfl := kind <;> rfl
    rw [range, stateT_bind_of_ok first, stateT_bind_of_ok look, if_pos rfl,
      stateT_bind_of_ok (bump_ahead textNot rfl), advance_advance]
    rfl
  | false =>
    have stop : continues .other key = false := by
      obtain rfl | rfl := kind <;> rfl
    have first := complete derives shallow text stop nodes lists
    have textKey := ahead_advance (size value) text
    have look : rangeNot env (s.advance ts.length (size value)) =
        .ok (false, s.advance ts.length (size value)) := by
      rw [rangeNot, stateT_bind_of_ok (peek_ahead textKey), if_neg]
      · rfl
      · obtain rfl | rfl := kind <;> decide
    rw [range, stateT_bind_of_ok first, stateT_bind_of_ok look, if_neg (by decide)]
    rfl

theorem range_complete (complete : CompleteAt env room .other (other env inner)) :
    CompleteAt env room .range (range env inner) := by
  intro s e ts n tok more derives shallow text stop nodes lists
  cases derives with
  | climb next below =>
    cases next
    have first := complete below shallow text (continues_tighter rfl stop) nodes lists
    have textEnd := ahead_advance (size e) text
    have noTest {key : Kw} (test : continues .range (.kw key) = true) : tok ≠ .kw key := by
      rintro rfl
      rw [test] at stop
      cases stop
    have look : rangeNot env (s.advance ts.length (size e)) = .ok (false, s.advance ts.length (size e)) := by
      rw [rangeNot, stateT_bind_of_ok (peek_ahead textEnd), if_neg (noTest rfl)]
      rfl
    rw [range, stateT_bind_of_ok first, stateT_bind_of_ok look, if_neg (by decide), rangeTail,
      stateT_bind_of_ok (peek_ahead textEnd)]
    split
    case h_1 => exact absurd rfl (noTest rfl)
    case h_2 => exact absurd rfl (noTest rfl)
    case h_3 => rfl
  | binary rule => cases rule
  | @between value lo hi ts us vs m n k negated first low high =>
    simp only [size, widest] at nodes lists
    simp only [append_assoc, cons_append] at text
    rw [range_negation (.inl rfl) complete first (by omega) text (by omega) (by omega)]
    rw [← append_assoc] at text
    have textKey := ahead_advance (size value) text
    rw [length_append] at textKey
    have textLow := ahead_advance_one 0 textKey
    have textAnd := ahead_advance (size lo) textLow
    have textHigh := ahead_advance_one 0 textAnd
    rw [rangeTail, stateT_bind_of_ok (peek_ahead textKey)]
    simp only
    rw [stateT_bind_of_ok (bump_ahead textKey rfl),
      stateT_bind_of_ok (complete low (by omega) textLow rfl (by simp only [advance_nodes]; omega) (by omega)),
      stateT_bind_of_ok (expect_ahead textAnd rfl),
      stateT_bind_of_ok (complete high (by omega) textHigh (continues_tighter rfl stop)
        (by simp only [advance_nodes]; omega) (by omega)),
      node_within (by simp only [advance_nodes]; omega)]
    simp [State.advance, size]
    omega
  | @inList value es ts us m n negated first items =>
    simp only [size, widest] at nodes lists
    simp only [append_assoc, cons_append, nil_append] at text
    rw [range_negation (.inr rfl) complete first (by omega) text (by omega) (by omega)]
    rw [← append_assoc] at text
    have textKey := ahead_advance (size value) text
    rw [length_append] at textKey
    have textOpen := ahead_advance_one 0 textKey
    have textItems := ahead_advance_one 0 textOpen
    have textClose := ahead_advance (sizeAll es) textItems
    have fits (list : List Expr) (short : list.length ≤ env.limits.items) :
        tooManyItems env list = none := by
      rw [tooManyItems, if_neg (by omega)]
    rw [rangeTail, stateT_bind_of_ok (peek_ahead textKey)]
    simp only
    rw [stateT_bind_of_ok (bump_ahead textKey rfl), stateT_bind_of_ok (expect_ahead textOpen rfl),
      stateT_bind_of_ok (items_complete complete fits items (by omega) textItems
        (by simp only [advance_nodes]; omega) (by omega) (by omega)),
      stateT_bind_of_ok (expect_ahead textClose rfl), node_within (by simp only [advance_nodes]; omega)]
    simp [State.advance, size]
    omega

theorem comparison_complete (complete : CompleteAt env room .range (range env inner)) :
    CompleteAt env room .comparison (comparison env inner) := by
  intro s e ts n tok more derives shallow text stop nodes lists
  cases derives with
  | climb next below =>
    cases next
    have first := complete below shallow text (continues_tighter rfl stop) nodes lists
    have textEnd := ahead_advance (size e) text
    rw [comparison, stateT_bind_of_ok first, stateT_bind_of_ok (peek_ahead textEnd)]
    split
    case h_1 op =>
      have noComparison : op.isComparison = false := by
        cases op <;> first | rfl | cases stop
      rw [noComparison]
      rfl
    case h_2 => rfl
  | @binary op optok _ _ _ l r us vs m k rule left right =>
    cases rule with
    | compare kind =>
      simp only [size, widest] at nodes lists
      rw [append_assoc, cons_append] at text
      have stopLeft : continues .range (.op op) = false := by
        cases op <;> first | rfl | cases kind
      have first := complete left (by omega) text stopLeft (by omega) (by omega)
      have textOp := ahead_advance (size l) text
      have textRight := ahead_advance_one 0 textOp
      rw [comparison, stateT_bind_of_ok first, stateT_bind_of_ok (peek_ahead textOp)]
      simp only
      rw [if_pos kind, stateT_bind_of_ok (bump_ahead textOp rfl),
        stateT_bind_of_ok (complete right (by omega) textRight (continues_tighter rfl stop)
          (by simp only [advance_nodes]; omega) (by omega)),
        binary_within (by simp only [advance_nodes]; omega)]
      simp [State.advance, size]
      omega

theorem is_cases (derives : Derives (.expr .is e) ts n) :
    Derives (.expr .comparison e) ts n ∨
      ∃ operand us negated, e = .isNull operand negated ∧
        ts = us ++ .kw .is :: (negation negated ++ [Tok.kw .null]) ∧ Derives (.expr .is operand) us n := by
  cases derives with
  | climb next below =>
    cases next
    exact .inl below
  | binary rule => cases rule
  | isNull operand => exact .inr ⟨_, _, _, rfl, rfl, operand⟩

theorem isLoop_test {operand : Expr} {negated : Bool} {rounds : Nat}
    (text : ahead env s = .kw .is :: (negation negated ++ .kw .null :: rest))
    (nodes : s.nodes + 1 ≤ env.limits.nodes) :
    isLoop env (rounds + 1) operand s =
      isLoop env rounds (.isNull operand negated) (s.advance ((negation negated).length + 2) 1) := by
  have textBehind := ahead_advance_one 0 text
  rw [isLoop, stateT_bind_of_ok (peek_ahead text), if_pos rfl, stateT_bind_of_ok (bump_ahead text rfl)]
  cases negated with
  | true =>
    have textNull := ahead_advance_one 0 textBehind
    rw [stateT_bind_of_ok (peek_ahead textBehind), if_pos rfl,
      stateT_bind_of_ok (bump_ahead textBehind rfl), stateT_bind_of_ok (expect_ahead textNull rfl),
      stateT_bind_of_ok (node_within (by simpa using nodes))]
    rfl
  | false =>
    rw [stateT_bind_of_ok (peek_ahead textBehind), if_neg (by decide),
      stateT_bind_of_ok (expect_ahead textBehind rfl),
      stateT_bind_of_ok (node_within (by simpa using nodes))]
    rfl

theorem is_reaches (complete : CompleteAt env room .comparison (comparison env inner))
    (derives : Derives (.expr .is e) ts n) :
    ∀ ⦃s tok more⦄, n < room → ahead env s = ts ++ tok :: more → continues .comparison tok = false →
      s.nodes + size e ≤ env.limits.nodes → widest e ≤ env.limits.items →
      ∃ rounds, (tok :: more).length ≤ rounds ∧
        is env inner s = isLoop env rounds e (s.advance ts.length (size e)) := by
  induction length : ts.length using Nat.strong_induction_on generalizing e ts n with
  | _ length ih =>
    subst length
    intro s tok more shallow text stop nodes lists
    obtain below | ⟨operand, us, negated, rfl, rfl, left⟩ := is_cases derives
    · refine ⟨env.tokens.length, ?_, ?_⟩
      · have whole := congrArg length text
        simp only [ahead, length_drop, length_map, length_append] at whole
        omega
      · rw [is, stateT_bind_of_ok (complete below shallow text stop nodes lists)]
    · simp only [size, widest] at nodes lists
      simp only [append_assoc, cons_append, nil_append] at text
      obtain ⟨rounds, enough, reached⟩ := ih us.length (by simp) left rfl
        shallow text rfl (by omega) lists
      obtain ⟨rounds, rfl⟩ : ∃ n, rounds = n + 1 := ⟨rounds - 1, by simp at enough; omega⟩
      refine ⟨rounds, by simp at enough ⊢; omega, ?_⟩
      rw [reached, isLoop_test (ahead_advance (size operand) text) (by simp only [advance_nodes]; omega)]
      congr 1
      simp [State.advance, size]
      omega

theorem is_complete (complete : CompleteAt env room .comparison (comparison env inner)) :
    CompleteAt env room .is (is env inner) := by
  intro s e ts n tok more derives shallow text stop nodes lists
  obtain ⟨rounds, enough, reached⟩ := is_reaches complete derives shallow text
    (continues_tighter rfl stop) nodes lists
  obtain ⟨rounds, rfl⟩ : ∃ n, rounds = n + 1 := ⟨rounds - 1, by simp at enough; omega⟩
  have textEnd := ahead_advance (size e) text
  have noTest : tok ≠ .kw .is := by
    rintro rfl
    cases stop
  rw [reached, isLoop, stateT_bind_of_ok (peek_ahead textEnd), if_neg noTest]
  rfl

theorem not_complete (nested : CompleteAt env room .not inner.not)
    (complete : CompleteAt env (room + 1) .is (is env inner)) :
    CompleteAt env (room + 1) .not (not env inner) := by
  intro s e ts n tok more derives shallow text stop nodes lists
  cases derives with
  | climb next below =>
    cases next
    obtain ⟨first, rest, rfl, opening⟩ := below.starts
    have noNot : first ≠ .kw .not := by
      rintro rfl
      cases opening
    rw [not, stateT_bind_of_ok (peek_ahead text), if_neg noNot]
    exact complete below shallow text (continues_tighter rfl stop) nodes lists
  | binary rule => cases rule
  | not operand =>
    simp only [size, widest] at nodes lists
    have textOperand := ahead_advance_one 0 text
    rw [not, stateT_bind_of_ok (peek_ahead text), if_pos rfl, stateT_bind_of_ok (bump_ahead text rfl),
      stateT_bind_of_ok (nested operand (by omega) textOperand stop (by simp only [advance_nodes]; omega) lists),
      node_within (by simp only [advance_nodes]; omega)]
    simp [State.advance, size]
    omega

theorem and_complete (complete : CompleteAt env room .not (not env inner)) :
    CompleteAt env room .and (and env inner) := by
  refine leftChain_complete rfl rfl ?_ ?_ complete
  · intro op tok rule
    cases rule
    rfl
  · intro tok stop
    rw [if_neg]
    rintro rfl
    cases stop

theorem or_complete (complete : CompleteAt env room .and (and env inner)) :
    CompleteAt env room .or (or env inner) := by
  refine leftChain_complete rfl rfl ?_ ?_ complete
  · intro op tok rule
    cases rule
    rfl
  · intro tok stop
    rw [if_neg]
    rintro rfl
    cases stop

structure CompleteLevels (env : Env) (room : Nat) (inner : Levels) : Prop where
  or : CompleteAt env room .or inner.or
  not : CompleteAt env room .not inner.not
  unary : CompleteAt env room .unary inner.unary

theorem CompleteLevels.deeper (complete : CompleteLevels env room inner) :
    CompleteLevels env (room + 1) ⟨Parser.or env inner, Parser.not env inner, Parser.unary env inner⟩ := by
  have unary := unary_complete complete.unary complete.or
  have other := other_complete (additive_complete (multiplicative_complete unary))
  have not := not_complete complete.not (is_complete (comparison_complete (range_complete other)))
  exact ⟨or_complete (and_complete not), not, unary⟩

end Levels

theorem levels_complete (room : Nat) : CompleteLevels env room (levels env room) := by
  induction room with
  | zero =>
    have refused {level : Level} : CompleteAt env 0 level (tooDeep env) :=
      fun _ _ _ _ _ _ _ deep => absurd deep (Nat.not_lt_zero _)
    exact ⟨refused, refused, refused⟩
  | succ room ih => exact ih.deeper

/-! ## Whole rules -/

theorem rule_of_derives {e : Expr} {ts : List Tok} {n : Nat}
    (whole : env.tokens.map Prod.fst = ts ++ [Tok.eof]) (derives : Derives (.expr .or e) ts n)
    (shallow : n ≤ env.limits.depth) (nodes : size e ≤ env.limits.nodes)
    (lists : widest e ≤ env.limits.items) : ∃ s, rule env ⟨0, 0⟩ = .ok (e, s) := by
  have text : ahead env ⟨0, 0⟩ = ts ++ [Tok.eof] := whole
  obtain ⟨first, rest, rfl, opening⟩ := derives.starts
  have notEmpty : first ≠ .eof := by
    rintro rfl
    cases opening
  have parsed := (levels_complete (env.limits.depth + 1)).or derives (by omega) text rfl (by simpa using nodes) lists
  have textEnd := ahead_advance (size e) text
  refine ⟨State.advance ⟨0, 0⟩ (first :: rest).length (size e), ?_⟩
  rw [rule, stateT_bind_of_ok (peek_ahead text), if_neg notEmpty]
  refine (stateT_bind_of_ok parsed).trans ?_
  rw [stateT_bind_of_ok (peek_ahead textEnd)]
  rfl

/-- A token list has one derivation: the parser, with limits that fit both
    trees, cannot return two. -/
theorem derives_unique {e' : Expr} {n' : Nat} (derives : Derives (.expr .or e) ts n)
    (derives' : Derives (.expr .or e') ts n') : e = e' := by
  let env : Env := ⟨[], (ts ++ [Tok.eof]).map (·, 0),
    ⟨max n n', max (size e) (size e'), max (widest e) (widest e')⟩⟩
  have whole : env.tokens.map Prod.fst = ts ++ [Tok.eof] := by
    simp [env, Function.comp_def]
  obtain ⟨s, first⟩ := @rule_of_derives env e ts n whole derives (Nat.le_max_left _ _)
    (Nat.le_max_left _ _) (Nat.le_max_left _ _)
  obtain ⟨s', second⟩ := @rule_of_derives env e' ts n' whole derives' (Nat.le_max_right _ _)
    (Nat.le_max_right _ _) (Nat.le_max_right _ _)
  rw [first] at second
  exact (Prod.ext_iff.mp (Except.ok.inj second)).1

theorem derives_of_rule (ran : rule env ⟨0, 0⟩ = .ok (e, s)) :
    ∃ ts more n, env.tokens.map Prod.fst = ts ++ .eof :: more ∧ Derives (.expr .or e) ts n ∧
      n ≤ env.limits.depth ∧ size e ≤ env.limits.nodes ∧ widest e ≤ max 1 env.limits.items := by
  obtain ⟨first, s₁, peeked, ran⟩ := stateT_bind_ok.mp ran
  obtain ⟨rfl, -⟩ := peek_inv peeked
  split at ran
  case isTrue => exact absurd ran errorHere_inv
  case isFalse =>
    obtain ⟨expr, s₂, parsed, ran⟩ := stateT_bind_ok.mp ran
    obtain ⟨last, s₃, peeked, ran⟩ := stateT_bind_ok.mp ran
    obtain ⟨rfl, textEnd⟩ := peek_inv peeked
    obtain ⟨⟨ts, n, derives, shallow, text⟩, nodes, bounded, lists⟩ :=
      (levels_sound (env.limits.depth + 1)).or parsed
    simp only [Phrase.size, Phrase.widest] at nodes lists
    -- only the end of the rule is accepted behind the expression
    cases last with
    | eof =>
      obtain ⟨rfl, rfl⟩ := stateT_pure_ok.mp ran
      refine ⟨ts, ahead env (s₂.advance 1 0), n, ?_, derives, by omega, by omega, lists⟩
      rw [← textEnd, ← text]
      rfl
    | op operator =>
      cases kind : operator.isComparison with
      | true =>
        simp only [kind] at ran
        exact absurd ran errorHere_inv
      | false =>
        simp only [kind] at ran
        exact absurd ran errorHere_inv
    | kw key => cases key <;> exact absurd ran errorHere_inv
    | _ => exact absurd ran errorHere_inv

/-- The lexer stops at the end of the rule. -/
theorem eof_last (src : Text) (rounds : Nat) {rest : Text}
    (lexed : (tokensLoop src rounds rest).map Prod.fst = ts ++ .eof :: more) : more = [] := by
  induction rounds generalizing rest ts with
  | zero => simp [tokensLoop] at lexed
  | succ rounds ih =>
    rw [tokensLoop] at lexed
    split at lexed
    case h_1 => simp [cons_eq_append_iff] at lexed
    case h_2 tok start behind found =>
      split at lexed
      case isTrue =>
        have length := congrArg length lexed
        simp at length
        exact eq_nil_of_length_eq_zero (by omega)
      case isFalse notLast =>
        cases ts with
        | nil =>
          simp only [map_cons, nil_append, cons.injEq] at lexed
          rw [lexed.1] at notLast
          exact absurd rfl notLast
        | cons first ts =>
          simp only [map_cons, cons_append, cons.injEq] at lexed
          exact ih lexed.2

theorem derives_of_parse {src : Text} (accepted : parse src = .ok e) :
    byteLength src ≤ MAX_SOURCE_BYTES ∧
      ∃ ts nesting, (tokens src).map Prod.fst = ts ++ [Tok.eof] ∧ Derives (.expr .or e) ts nesting ∧
        nesting ≤ MAX_DEPTH ∧ size e ≤ MAX_NODES ∧ widest e ≤ MAX_IN_ITEMS := by
  rw [parse, parseWithin] at accepted
  split at accepted
  case isTrue => cases accepted
  case isFalse short =>
    obtain ⟨s, ran⟩ : ∃ s, rule ⟨src, tokens src, declaredLimits⟩ ⟨0, 0⟩ = .ok (e, s) := by
      cases ran : rule ⟨src, tokens src, declaredLimits⟩ ⟨0, 0⟩ with
      | error stop =>
        rw [ran] at accepted
        cases accepted
      | ok result =>
        rw [ran] at accepted
        cases accepted
        exact ⟨result.2, rfl⟩
    obtain ⟨ts, more, n, lexed, derives, shallow, nodes, lists⟩ := derives_of_rule ran
    obtain rfl := eof_last src _ lexed
    exact ⟨Nat.le_of_not_lt short, ts, n, lexed, derives, shallow, nodes, lists⟩

/-- A rule is accepted exactly when its tokens are a phrase of the grammar within
    the limits, and then it has no other tree. -/
theorem parse_iff_derives (src : Text) (e : Expr) :
    (parse src = .ok e ↔ byteLength src ≤ MAX_SOURCE_BYTES ∧
      ∃ ts nesting, (tokens src).map Prod.fst = ts ++ [Tok.eof] ∧ Derives (.expr .or e) ts nesting ∧
        nesting ≤ MAX_DEPTH ∧ size e ≤ MAX_NODES ∧ widest e ≤ MAX_IN_ITEMS) ∧
      ∀ ts nesting other nesting', Derives (.expr .or e) ts nesting →
        Derives (.expr .or other) ts nesting' → other = e := by
  refine ⟨⟨derives_of_parse, ?_⟩, fun _ _ _ _ derives derives' => derives_unique derives' derives⟩
  rintro ⟨short, ts, n, lexed, derives, shallow, nodes, lists⟩
  obtain ⟨s, ran⟩ := @rule_of_derives ⟨src, tokens src, declaredLimits⟩ e ts n lexed derives shallow nodes lists
  rw [parse, parseWithin, if_neg (Nat.not_lt.mpr short), ran]
  rfl

end RootCx.Rules.Parser
