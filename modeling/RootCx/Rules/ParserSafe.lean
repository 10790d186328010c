import RootCx.Lib.Triples
import RootCx.Rules.ByteLexer
import RootCx.Rules.ParserComplete

/-! # The parser stays inside its tokens

No index of the parser is outside the token list, no step back goes below its
start, and no loop is endless: what is not accepted is refused.
-/

namespace RootCx.Rules.Parser

open RootCx.Text List

/-- The list ends with its last token, and only there. -/
structure Terminated (tokens : List (Tok × Nat)) : Prop where
  nonempty : 0 < tokens.length
  more : ∀ i token, tokens[i]? = some token → token.1.isLast = false → i + 1 < tokens.length

def Stop.isRefusal : Stop → Prop
  | .refused _ => True
  | .outOfRange | .endless => False

variable {α : Type} {s : State}

section Safe

variable {env : Env} {inner : Levels}

def Inside (env : Env) (s : State) : Prop := s.cursor < env.tokens.length

/-- The parser has not gone back, and is inside. -/
def Ahead (env : Env) (s s' : State) : Prop := s.cursor ≤ s'.cursor ∧ Inside env s'

def Safe (env : Env) {α : Type} (p : Parse α) : Prop :=
  ∀ s, Inside env s → Holds Stop.isRefusal p s fun _ s' => Ahead env s s'

theorem Safe.pure (value : α) : Safe env (pure value : Parse α) :=
  fun s inside => .pure ⟨Nat.le_refl s.cursor, inside⟩

theorem Safe.bind {β : Type} {p : Parse α} {f : α → Parse β} (first : Safe env p)
    (rest : ∀ value, Safe env (f value)) :
    Safe env (p >>= f) := fun s inside =>
  .bind <| (first s inside).mono fun value s₁ ahead =>
    (rest value s₁ ahead.2).mono fun _ _ further => ⟨Nat.le_trans ahead.1 further.1, further.2⟩

/-! ## Single tokens -/

theorem errorHere_refuses {α : Type} {s : State} (inside : Inside env s) (message : Text) :
    ∃ failure, (errorHere env message : Parse α) s = .error (.refused failure) := by
  unfold errorHere
  split
  next => exact ⟨_, rfl⟩
  next => exact ⟨_, rfl⟩
  next outside => exact absurd inside (Nat.not_lt.mpr (List.getElem?_eq_none_iff.mp outside))

theorem errorHere_holds (inside : Inside env s) (message : Text) (post : α → State → Prop) :
    Holds Stop.isRefusal (errorHere env message) s post := by
  obtain ⟨failure, failed⟩ := @errorHere_refuses env α s inside message
  exact .of_error failed trivial

theorem errorHere_safe (message : Text) : Safe env (errorHere env message : Parse α) :=
  fun _ inside => errorHere_holds inside message _

theorem peek_holds (inside : Inside env s) :
    Holds Stop.isRefusal (peek env) s fun tok s' => s' = s ∧ tok = env.tokens[s.cursor].1 := by
  have found : env.tokens[s.cursor]? = some env.tokens[s.cursor] := getElem?_eq_getElem inside
  refine @Holds.of_ok _ _ _ _ _ _ s _ env.tokens[s.cursor].1 ?_ ⟨rfl, rfl⟩
  unfold peek
  rw [found]

theorem peek_safe : Safe env (peek env) := by
  intro s inside
  refine (peek_holds inside).mono fun tok s' seen => ?_
  rw [seen.1]
  exact ⟨Nat.le_refl _, inside⟩

theorem peek2_safe : Safe env (peek2 env) := by
  intro s inside
  have bound : min (s.cursor + 1) (env.tokens.length - 1) < env.tokens.length := by
    unfold Inside at inside
    omega
  refine @Holds.of_ok _ _ _ _ _ _ s _ (env.tokens[min (s.cursor + 1) (env.tokens.length - 1)]).1 ?_ ⟨Nat.le_refl _, inside⟩
  unfold peek2
  rw [getElem?_eq_getElem bound]

theorem bump_holds (ended : Terminated env.tokens) {s : State} (inside : Inside env s) :
    Holds Stop.isRefusal (bump env) s fun tok s' => Ahead env s s' ∧ tok = env.tokens[s.cursor].1 ∧
      (tok.isLast = false → s'.cursor = s.cursor + 1) := by
  have found : env.tokens[s.cursor]? = some env.tokens[s.cursor] := getElem?_eq_getElem inside
  have ran : bump env s = .ok (env.tokens[s.cursor].1,
      if env.tokens[s.cursor].1.isLast then s else { s with cursor := s.cursor + 1 }) := by
    unfold bump
    rw [found]
  refine .of_ok ran ⟨?_, rfl, ?_⟩
  · cases last : env.tokens[s.cursor].1.isLast with
    | true => exact ⟨Nat.le_refl _, inside⟩
    | false => exact ⟨Nat.le_succ _, ended.more s.cursor _ found last⟩
  · intro more
    simp [more]

theorem bump_safe (ended : Terminated env.tokens) : Safe env (bump env) :=
  fun _ inside => (bump_holds ended inside).mono fun _ _ => And.left

theorem node_safe (e : Expr) : Safe env (node env e) := by
  intro s inside
  unfold node
  by_cases many : s.nodes + 1 > env.limits.nodes
  · have counted : Inside env { s with nodes := s.nodes + 1 } := inside
    obtain ⟨failure, failed⟩ := @errorHere_refuses env Expr _ counted
      ("rules are limited to " ++ Nat.toDigits 10 env.limits.nodes ++ " nodes")
    exact @Holds.of_error _ _ _ _ _ _ _ (.refused failure) (by simp only [many, if_true, failed]) trivial
  · refine @Holds.of_ok _ _ _ _ _ s { s with nodes := s.nodes + 1 } _ e ?_ ⟨Nat.le_refl _, inside⟩
    simp only [many, if_false]

theorem expect_safe (ended : Terminated env.tokens) (tok : Tok) (what : Text) : Safe env (expect env tok what) := by
  refine peek_safe.bind fun found => ?_
  by_cases same : found = tok
  · rw [if_pos same]
    exact (bump_safe ended).bind fun _ => .pure ()
  · rw [if_neg same]
    exact errorHere_safe _

/-! ## Loops -/

/-- Each round takes a token, and there are as many rounds as tokens. -/
theorem chainLoop_safe (ended : Terminated env.tokens) {operator : Tok → Option BinOp} {operand : Parse Expr}
    (notLast : ∀ tok op, operator tok = some op → tok.isLast = false) (safe : Safe env operand) (rounds : Nat) (l : Expr)
    {s : State} (inside : Inside env s) (enough : env.tokens.length ≤ rounds + s.cursor) :
    Holds Stop.isRefusal (chainLoop env operator operand rounds l) s fun _ s' => Ahead env s s' := by
  induction rounds generalizing l s with
  | zero =>
    unfold Inside at inside
    omega
  | succ rounds ih =>
    refine .bind ((peek_holds inside).mono fun tok s' seen => ?_)
    obtain ⟨rfl, seen⟩ := seen
    cases found : operator tok with
    | none => exact .pure ⟨Nat.le_refl _, inside⟩
    | some op =>
      refine .bind ((bump_holds ended inside).mono fun _ s₁ taken => ?_)
      obtain ⟨ahead₁, same, forward⟩ := taken
      have moved : s₁.cursor = s'.cursor + 1 := forward (by rw [same, ← seen]; exact notLast tok op found)
      refine .bind ((safe s₁ ahead₁.2).mono fun r s₂ ahead₂ => ?_)
      refine .bind ((node_safe _ s₂ ahead₂.2).mono fun e s₃ ahead₃ => ?_)
      have further : s'.cursor + 1 ≤ s₃.cursor := by
        have := ahead₂.1
        have := ahead₃.1
        omega
      refine (ih e ahead₃.2 (by omega)).mono fun _ s₄ ahead₄ => ⟨?_, ahead₄.2⟩
      have := ahead₄.1
      omega

theorem leftChain_safe (ended : Terminated env.tokens) {operator : Tok → Option BinOp} {operand : Parse Expr}
    (notLast : ∀ tok op, operator tok = some op → tok.isLast = false) (safe : Safe env operand) :
    Safe env (leftChain env operator operand) :=
  safe.bind fun l _ inside => chainLoop_safe ended notLast safe env.tokens.length l inside (Nat.le_add_right _ _)

theorem itemsLoop_safe (ended : Terminated env.tokens) {item : Parse Expr} (safe : Safe env item)
    (tooMany : List Expr → Option Text) (rounds : Nat) (list : List Expr)
    {s : State} (inside : Inside env s) (enough : env.tokens.length ≤ rounds + s.cursor) :
    Holds Stop.isRefusal (itemsLoop env item tooMany rounds list) s fun _ s' => Ahead env s s' := by
  induction rounds generalizing list s with
  | zero =>
    unfold Inside at inside
    omega
  | succ rounds ih =>
    refine .bind ((peek_holds inside).mono fun tok s' seen => ?_)
    obtain ⟨rfl, seen⟩ := seen
    by_cases comma : tok = .comma
    · rw [if_pos comma]
      refine .bind ((bump_holds ended inside).mono fun _ s₁ taken => ?_)
      obtain ⟨ahead₁, same, forward⟩ := taken
      have moved : s₁.cursor = s'.cursor + 1 := forward (by rw [same, ← seen, comma]; rfl)
      refine .bind ((safe s₁ ahead₁.2).mono fun e s₂ ahead₂ => ?_)
      have further : s'.cursor + 1 ≤ s₂.cursor := by
        have := ahead₂.1
        omega
      cases tooMany (list ++ [e]) with
      | some message => exact errorHere_holds ahead₂.2 message _
      | none =>
        refine (ih (list ++ [e]) ahead₂.2 (by omega)).mono fun _ s₃ ahead₃ => ⟨?_, ahead₃.2⟩
        have := ahead₃.1
        omega
    · rw [if_neg comma]
      exact .pure ⟨Nat.le_refl _, inside⟩

theorem items_safe (ended : Terminated env.tokens) {item : Parse Expr} (safe : Safe env item)
    (tooMany : List Expr → Option Text) : Safe env (items env item tooMany) :=
  safe.bind fun first _ inside =>
    itemsLoop_safe ended safe tooMany env.tokens.length [first] inside (Nat.le_add_right _ _)

/-! ## Atoms -/

theorem stepBack_refuses (inside : Inside env s) (behind : 0 < s.cursor) (message : Text)
    (post : α → State → Prop) :
    Holds Stop.isRefusal (stepBack >>= fun _ => errorHere env message) s post := by
  have stepped : stepBack s = .ok ((), { s with cursor := s.cursor - 1 }) := by
    unfold stepBack
    rw [if_neg (by omega)]
  exact .bind (.of_ok stepped (errorHere_holds (Nat.lt_of_le_of_lt (Nat.sub_le _ _) inside) message post))

/-- The word `interval` is behind it, so there is a token to step back to. -/
theorem interval_safe (ended : Terminated env.tokens) {s : State} (inside : Inside env s) (behind : 0 < s.cursor) :
    Holds Stop.isRefusal (interval env) s fun _ s' => Ahead env s s' := by
  refine .bind ((bump_holds ended inside).mono fun tok s₁ taken => ?_)
  have ahead := taken.1
  have behind₁ : 0 < s₁.cursor := Nat.lt_of_lt_of_le behind ahead.1
  cases tok with
  | str text =>
    cases written : intervalOf text with
    | none =>
      simp only [written]
      exact stepBack_refuses ahead.2 behind₁ _ _
    | some parts =>
      simp only [written]
      exact (node_safe _ s₁ ahead.2).mono fun _ _ further => ⟨Nat.le_trans ahead.1 further.1, further.2⟩
  | _ => exact stepBack_refuses ahead.2 behind₁ _ _

theorem call_safe (ended : Terminated env.tokens) (safe : Safe env inner.or) (name : Text) : Safe env (call env inner name) := by
  unfold call
  cases Func.fromName (name.map Char.toLower) with
  | none => exact errorHere_safe _
  | some func =>
    refine (bump_safe ended).bind fun _ => (bump_safe ended).bind fun _ => (items_safe ended safe _).bind fun args =>
      (expect_safe ended _ _).bind fun _ => ?_
    by_cases arity : args.length ≠ func.arity
    · simp only [if_pos arity]
      exact errorHere_safe _
    · simp only [if_neg arity]
      exact node_safe _

theorem seek_holds {start : State} (inside : Inside env start) {p : Parse α} (safe : Safe env p) :
    Holds Stop.isRefusal (seek start.cursor >>= fun _ => p) s fun _ s' => Ahead env start s' :=
  have there : Inside env { s with cursor := start.cursor } := inside
  have moved : seek start.cursor s = .ok ((), { s with cursor := start.cursor }) := rfl
  .bind (.of_ok moved (safe _ there))

theorem atom_safe (ended : Terminated env.tokens) (safe : Safe env inner.or) : Safe env (atom env inner) := by
  intro s inside
  have kept : (get : Parse State) s = .ok (s, s) := rfl
  refine .bind (.of_ok kept ?_)
  refine .bind ((bump_holds ended inside).mono fun tok s₁ taken => ?_)
  obtain ⟨ahead, -, forward⟩ := taken
  have go {p : Parse Expr} (safe : Safe env p) : Holds Stop.isRefusal p s₁ fun _ s' => Ahead env s s' :=
    (safe s₁ ahead.2).mono fun _ _ further => ⟨Nat.le_trans ahead.1 further.1, further.2⟩
  have back (message : Text) : Holds Stop.isRefusal (seek s.cursor >>= fun _ => (errorHere env message : Parse Expr)) s₁
      fun _ s' => Ahead env s s' := seek_holds inside (errorHere_safe message)
  cases tok with
  | number value | str value => exact go (node_safe _)
  | kw key =>
    cases key with
    | true | false => exact go (node_safe _)
    | interval =>
      have moved : s₁.cursor = s.cursor + 1 := forward rfl
      exact (interval_safe ended ahead.2 (by omega)).mono fun _ _ further => ⟨Nat.le_trans ahead.1 further.1, further.2⟩
    | _ => exact back _
  | lparen => exact go (safe.bind fun e => (expect_safe ended _ _).bind fun _ => .pure e)
  | ident name =>
    refine .bind ((peek_holds ahead.2).mono fun behind s₂ seen => ?_)
    obtain ⟨rfl, -⟩ := seen
    by_cases opens : behind = .lparen
    · rw [if_pos opens]
      exact seek_holds inside (call_safe ended safe name)
    · rw [if_neg opens]
      by_cases upper : name.any Char.isUpper = true
      · rw [if_pos upper]
        exact back _
      · rw [if_neg upper]
        exact go (node_safe _)
  | _ => exact back _

/-! ## Precedence levels -/

/-- The functions that are called one level deeper. -/
structure SafeLevels (env : Env) (inner : Levels) : Prop where
  or : Safe env inner.or
  not : Safe env inner.not
  unary : Safe env inner.unary

theorem unary_safe (ended : Terminated env.tokens) (safe : SafeLevels env inner) : Safe env (unary env inner) := by
  refine peek_safe.bind fun tok => ?_
  split
  next => exact (bump_safe ended).bind fun _ => safe.unary.bind fun e => node_safe _
  next => exact errorHere_safe _
  next => exact atom_safe ended safe.or

theorem multiplicative_safe (ended : Terminated env.tokens) (safe : SafeLevels env inner) :
    Safe env (multiplicative env inner) := by
  refine leftChain_safe ended (fun tok op found => ?_) (unary_safe ended safe)
  split at found
  next same => rw [same]; rfl
  next => cases found

theorem additive_safe (ended : Terminated env.tokens) (safe : SafeLevels env inner) : Safe env (additive env inner) := by
  refine leftChain_safe ended (fun tok op found => ?_) (multiplicative_safe ended safe)
  split at found
  next same => rw [same]; rfl
  next =>
    split at found
    next same => rw [same]; rfl
    next => cases found

theorem other_safe (ended : Terminated env.tokens) (safe : SafeLevels env inner) : Safe env (other env inner) := by
  refine leftChain_safe ended (fun tok op found => ?_) (additive_safe ended safe)
  split at found
  next same => rw [same]; rfl
  next => cases found

theorem rangeNot_safe : Safe env (rangeNot env) := by
  refine peek_safe.bind fun tok => ?_
  by_cases negated : tok = .kw .not
  · rw [if_pos negated]
    exact peek2_safe.bind fun _ => .pure _
  · rw [if_neg negated]
    exact .pure false

theorem rangeTail_safe (ended : Terminated env.tokens) (safe : SafeLevels env inner) (e : Expr) (negated : Bool) :
    Safe env (rangeTail env inner e negated) := by
  have operand := other_safe ended safe
  refine peek_safe.bind fun tok => ?_
  split
  next =>
    exact (bump_safe ended).bind fun _ => operand.bind fun lo => (expect_safe ended _ _).bind fun _ =>
      operand.bind fun hi => node_safe _
  next =>
    exact (bump_safe ended).bind fun _ => (expect_safe ended _ _).bind fun _ => (items_safe ended operand _).bind fun list =>
      (expect_safe ended _ _).bind fun _ => node_safe _
  next => exact .pure e

theorem range_safe (ended : Terminated env.tokens) (safe : SafeLevels env inner) : Safe env (range env inner) := by
  refine (other_safe ended safe).bind fun e => rangeNot_safe.bind fun negated => ?_
  split
  next => exact (bump_safe ended).bind fun _ => rangeTail_safe ended safe e true
  next => exact rangeTail_safe ended safe e false

theorem comparison_safe (ended : Terminated env.tokens) (safe : SafeLevels env inner) : Safe env (comparison env inner) := by
  refine (range_safe ended safe).bind fun l => peek_safe.bind fun tok => ?_
  split
  next op =>
    split
    next => exact (bump_safe ended).bind fun _ => (range_safe ended safe).bind fun r => node_safe _
    next => exact .pure l
  next => exact .pure l

theorem isLoop_safe (ended : Terminated env.tokens) (rounds : Nat) (e : Expr) {s : State} (inside : Inside env s)
    (enough : env.tokens.length ≤ rounds + s.cursor) :
    Holds Stop.isRefusal (isLoop env rounds e) s fun _ s' => Ahead env s s' := by
  induction rounds generalizing e s with
  | zero =>
    unfold Inside at inside
    omega
  | succ rounds ih =>
    refine .bind ((peek_holds inside).mono fun tok s' seen => ?_)
    obtain ⟨rfl, seen⟩ := seen
    by_cases key : tok = .kw .is
    · rw [if_pos key]
      refine .bind ((bump_holds ended inside).mono fun _ s₁ taken => ?_)
      obtain ⟨ahead₁, same, forward⟩ := taken
      have moved : s₁.cursor = s'.cursor + 1 := forward (by rw [same, ← seen, key]; rfl)
      -- with or without `NOT`, the test is read and the loop goes on
      have test (negated : Bool) {s₂ : State} (inside₂ : Inside env s₂) (further : s'.cursor + 1 ≤ s₂.cursor) :
          Holds Stop.isRefusal (expect env (.kw .null) "NULL (only IS [NOT] NULL is supported)" >>= fun _ =>
            node env (.isNull e negated) >>= fun e => isLoop env rounds e) s₂ fun _ s₃ => Ahead env s' s₃ := by
        refine .bind ((expect_safe ended _ _ s₂ inside₂).mono fun _ s₃ ahead₃ => ?_)
        refine .bind ((node_safe _ s₃ ahead₃.2).mono fun e s₄ ahead₄ => ?_)
        have := ahead₃.1
        have := ahead₄.1
        refine (ih e ahead₄.2 (by omega)).mono fun _ s₅ ahead₅ => ⟨?_, ahead₅.2⟩
        have := ahead₅.1
        omega
      refine .bind ((peek_holds ahead₁.2).mono fun found s₂ seen₂ => ?_)
      obtain ⟨rfl, -⟩ := seen₂
      by_cases negated : found = .kw .not
      · rw [if_pos negated]
        refine .bind ((bump_safe ended s₂ ahead₁.2).mono fun _ s₃ ahead₃ => ?_)
        have := ahead₃.1
        exact test true ahead₃.2 (by omega)
      · rw [if_neg negated]
        exact test false ahead₁.2 (by omega)
    · rw [if_neg key]
      exact .pure ⟨Nat.le_refl _, inside⟩

theorem is_safe (ended : Terminated env.tokens) (safe : SafeLevels env inner) : Safe env (is env inner) :=
  (comparison_safe ended safe).bind fun e _ inside =>
    isLoop_safe ended env.tokens.length e inside (Nat.le_add_right _ _)

theorem not_safe (ended : Terminated env.tokens) (safe : SafeLevels env inner) : Safe env (not env inner) := by
  refine peek_safe.bind fun tok => ?_
  by_cases key : tok = .kw .not
  · rw [if_pos key]
    exact (bump_safe ended).bind fun _ => safe.not.bind fun e => node_safe _
  · rw [if_neg key]
    exact is_safe ended safe

theorem and_safe (ended : Terminated env.tokens) (safe : SafeLevels env inner) : Safe env (and env inner) := by
  refine leftChain_safe ended (fun tok op found => ?_) (not_safe ended safe)
  split at found
  next same => rw [same]; rfl
  next => cases found

theorem or_safe (ended : Terminated env.tokens) (safe : SafeLevels env inner) : Safe env (or env inner) := by
  refine leftChain_safe ended (fun tok op found => ?_) (and_safe ended safe)
  split at found
  next same => rw [same]; rfl
  next => cases found

theorem levels_safe (ended : Terminated env.tokens) (room : Nat) : SafeLevels env (levels env room) := by
  induction room with
  | zero => exact ⟨errorHere_safe _, errorHere_safe _, errorHere_safe _⟩
  | succ room ih =>
    exact ⟨or_safe ended ih, not_safe ended ih, unary_safe ended ih⟩

/-! ## Whole rules -/

theorem rule_safe (ended : Terminated env.tokens) : Safe env (rule env) := by
  refine peek_safe.bind fun first => ?_
  by_cases empty : first = .eof
  · rw [if_pos empty]
    exact errorHere_safe _
  · rw [if_neg empty]
    refine (or_safe ended (levels_safe ended env.limits.depth)).bind fun expr => peek_safe.bind fun last => ?_
    split
    next => exact .pure expr
    next =>
      split
      next => exact errorHere_safe _
      next => exact errorHere_safe _
    next => exact errorHere_safe _
    next => exact errorHere_safe _

end Safe

theorem tokensLoop_terminated (src : Text) (rounds : Nat) {rest : Text} (enough : rest.length < rounds) :
    Terminated (tokensLoop src rounds rest) := by
  induction rounds generalizing rest with
  | zero => omega
  | succ rounds ih =>
    have single (token : Tok × Nat) (last : token.1.isLast = true) : Terminated [token] := by
      refine ⟨Nat.one_pos, fun i found here notLast => ?_⟩
      obtain ⟨inside, rfl⟩ := List.getElem?_eq_some_iff.mp here
      obtain rfl : i = 0 := by simpa using inside
      rw [getElem_cons_zero, last] at notLast
      cases notLast
    rw [tokensLoop]
    split
    next => exact single _ rfl
    next tok start behind read =>
      cases last : tok.isLast with
      | true => exact single _ last
      | false =>
        have shorter := ByteLexer.next_shorter read last
        have more := @ih behind (by omega)
        refine ⟨Nat.succ_pos _, fun i found here notLast => ?_⟩
        cases i with
        | zero => exact Nat.succ_lt_succ more.nonempty
        | succ i => exact Nat.succ_lt_succ (more.more i found here notLast)

theorem parse_refuses {src : Text} {stop : Stop} (failed : parse src = .error stop) : ∃ failure, stop = .refused failure := by
  have ended : Terminated (tokens src) := tokensLoop_terminated src _ (Nat.lt_succ_self _)
  have refusal : stop.isRefusal := by
    unfold parse parseWithin at failed
    split at failed
    next => cases failed; trivial
    next =>
      cases ran : rule ⟨src, tokens src, declaredLimits⟩ ⟨0, 0⟩ with
      | error failure =>
        rw [ran] at failed
        cases failed
        exact (@rule_safe ⟨src, tokens src, declaredLimits⟩ ended ⟨0, 0⟩ ended.nonempty).failure ran
      | ok result =>
        rw [ran] at failed
        cases failed
  cases stop with
  | refused failure => exact ⟨failure, rfl⟩
  | outOfRange | endless => exact refusal.elim

/-! ## Accepted trees -/

mutual

/-- The levels of a tree: what a walk over it has on its stack. -/
def height : Expr → Nat
  | .not e | .neg e | .isNull e _ | .finite e _ => height e + 1
  | .binary _ l r => max (height l) (height r) + 1
  | .between e lo hi _ => max (height e) (max (height lo) (height hi)) + 1
  | .inList e list _ => max (height e) (heightAll list) + 1
  | .call _ args => heightAll args + 1
  | .field _ | .text _ | .number _ | .bool _ | .typed _ _ | .interval _ _ | .arrayWithin _ _ => 1

def heightAll : List Expr → Nat
  | [] => 0
  | e :: rest => max (height e) (heightAll rest)

end

mutual

/-- The length of the longest list, of items or of arguments. -/
def longest : Expr → Nat
  | .not e | .neg e | .isNull e _ | .finite e _ => longest e
  | .binary _ l r => max (longest l) (longest r)
  | .between e lo hi _ => max (longest e) (max (longest lo) (longest hi))
  | .inList e list _ => max list.length (max (longest e) (longestAll list))
  | .call _ args => max args.length (longestAll args)
  | .field _ | .text _ | .number _ | .bool _ | .typed _ _ | .interval _ _ | .arrayWithin _ _ => 0

def longestAll : List Expr → Nat
  | [] => 0
  | e :: rest => max (longest e) (longestAll rest)

end

mutual

theorem height_le_size : ∀ e : Expr, height e ≤ size e
  | .not e | .neg e | .isNull e _ | .finite e _ => Nat.succ_le_succ (height_le_size e)
  | .binary _ l r => by
    have left := height_le_size l
    have right := height_le_size r
    simp only [height, size]
    omega
  | .between e lo hi _ => by
    have value := height_le_size e
    have low := height_le_size lo
    have high := height_le_size hi
    simp only [height, size]
    omega
  | .inList e list _ => by
    have value := height_le_size e
    have items := heightAll_le_sizeAll list
    simp only [height, size]
    omega
  | .call _ args => Nat.succ_le_succ (heightAll_le_sizeAll args)
  | .field _ | .text _ | .number _ | .bool _ | .typed _ _ | .interval _ _ | .arrayWithin _ _ => Nat.le_refl 1

theorem heightAll_le_sizeAll : ∀ list : List Expr, heightAll list ≤ sizeAll list
  | [] => Nat.le_refl 0
  | e :: rest => by
    have first := height_le_size e
    have others := heightAll_le_sizeAll rest
    simp only [heightAll, sizeAll]
    omega

end

theorem longestAll_concat (list : List Expr) (e : Expr) : longestAll (list ++ [e]) = max (longestAll list) (longest e) := by
  induction list with
  | nil => simp [longestAll]
  | cons first rest ih =>
    simp only [cons_append, longestAll, ih]
    omega

def Phrase.longest : Phrase → Nat
  | .expr _ e => Parser.longest e
  | .list _ es => longestAll es

theorem arity_le (func : Func) : func.arity ≤ 2 := by
  unfold Func.arity
  split <;> decide

theorem Derives.longest_le {phrase : Phrase} {ts : List Tok} {n : Nat} (derives : Derives phrase ts n) :
    phrase.longest ≤ max phrase.widest 2 := by
  induction derives with
  | @call _ func _ _ _ _ arity _ ih =>
    have := arity_le func
    simp only [Phrase.longest, Phrase.widest, longest, widest] at ih ⊢
    omega
  | more _ _ ih ih' =>
    simp only [Phrase.longest, Phrase.widest, longestAll_concat, widestAll_concat] at *
    omega
  | _ =>
    simp only [Phrase.longest, Phrase.widest, longest, widest, longestAll, widestAll] at *
    omega

/-- The lexer reads every text without a fault; an error can be reported wherever a
    character starts, and so at every token; the parser ends without leaving its tokens;
    and what it accepts is small: its nodes, its lists, the nesting that `nested` counts,
    and with the nodes its height. -/
theorem parser_safe (src : Text) :
    ByteLexer.tokens src = .ok ((tokens src).map (ByteLexer.atOffset src)) ∧
      (∀ at_ message, ByteLexer.error src (ByteLexer.offsetOf src at_) message = .ok (errorAt src at_ message)) ∧
      (∀ stop, parse src = .error stop → ∃ failure, stop = .refused failure) ∧
      ∀ e, parse src = .ok e → size e ≤ MAX_NODES ∧ longest e ≤ MAX_IN_ITEMS ∧ height e ≤ MAX_NODES ∧
        ∃ ts nesting, (tokens src).map Prod.fst = ts ++ [Tok.eof] ∧ Derives (.expr .or e) ts nesting ∧ nesting ≤ MAX_DEPTH := by
  refine ⟨ByteLexer.tokens_agree src, ByteLexer.error_at_offset src, fun stop failed => parse_refuses failed, ?_⟩
  intro e accepted
  obtain ⟨-, ts, nesting, lexed, derives, shallow, nodes, lists⟩ := derives_of_parse accepted
  have long : longest e ≤ max (widest e) 2 := derives.longest_le
  refine ⟨nodes, ?_, Nat.le_trans (height_le_size e) nodes, ts, nesting, lexed, derives, shallow⟩
  unfold MAX_IN_ITEMS at lists ⊢
  omega

/-- The loop of `is` makes the tree higher with every round, and opens no nesting. -/
theorem chain_higher_than_depth : ¬ ∀ src e, parse src = .ok e → height e ≤ MAX_DEPTH := by
  have accepted : (parse ('a' :: (List.replicate 30 " is null".toList).flatten)).toOption.map height = some 31 := by
    decide +kernel
  intro bounded
  cases parsed : parse ('a' :: (List.replicate 30 " is null".toList).flatten) with
  | error stop =>
    rw [parsed] at accepted
    cases accepted
  | ok e =>
    rw [parsed] at accepted
    have high : height e = 31 := Option.some.inj accepted
    have low := bounded _ e parsed
    rw [high] at low
    exact absurd low (by decide)

end RootCx.Rules.Parser
