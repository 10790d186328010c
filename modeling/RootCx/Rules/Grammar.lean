import RootCx.Rules.Parser

/-! # The grammar of the rule language

The stratified grammar the rules are written in, as derivations of token lists.
A derivation carries the nesting it needs: `NOT`, unary minus, parentheses and
the arguments of a call each go one deeper.  The other two limits are measures
of the tree.
-/

namespace RootCx.Rules.Parser

/-- The precedence levels, from the loosest to the tightest. -/
inductive Level where
  | or
  | and
  | not
  | is
  | comparison
  | range
  | other
  | additive
  | multiplicative
  | unary
  | atom
  deriving DecidableEq, Repr

def Level.tighter : Level → Option Level
  | .or => some .and
  | .and => some .not
  | .not => some .is
  | .is => some .comparison
  | .comparison => some .range
  | .range => some .other
  | .other => some .additive
  | .additive => some .multiplicative
  | .multiplicative => some .unary
  | .unary => some .atom
  | .atom => none

/-- `Infix op tok level left right`: the operator, its token, the level of the
    whole and of the two operands.  Comparisons do not chain, the others
    associate to the left. -/
inductive Infix : BinOp → Tok → Level → Level → Level → Prop
  | or : Infix .or (.kw .or) .or .or .and
  | and : Infix .and (.kw .and) .and .and .not
  | compare {op : BinOp} (comparison : op.isComparison = true) :
      Infix op (.op op) .comparison .range .range
  | pattern : Infix .match (.op .match) .other .other .additive
  | add : Infix .add (.op .add) .additive .additive .multiplicative
  | sub : Infix .sub .minus .additive .additive .multiplicative
  | mul : Infix .mul (.op .mul) .multiplicative .multiplicative .unary

inductive Phrase where
  | expr (level : Level) (e : Expr)
  | list (level : Level) (es : List Expr)

def Phrase.level : Phrase → Level
  | .expr level _ | .list level _ => level

/-- The `NOT` of a negated test. -/
def negation (negated : Bool) : List Tok := if negated then [.kw .not] else []

/-- `Derives phrase ts nesting`: the tokens `ts` are a phrase of the grammar. -/
inductive Derives : Phrase → List Tok → Nat → Prop
  | climb {level inner : Level} {e : Expr} {ts : List Tok} {n : Nat}
      (next : level.tighter = some inner) (below : Derives (.expr inner e) ts n) :
      Derives (.expr level e) ts n
  | binary {op : BinOp} {tok : Tok} {level left right : Level} {l r : Expr} {ts us : List Tok}
      {m n : Nat} (rule : Infix op tok level left right) (first : Derives (.expr left l) ts m)
      (second : Derives (.expr right r) us n) :
      Derives (.expr level (.binary op l r)) (ts ++ tok :: us) (max m n)
  | not {e : Expr} {ts : List Tok} {n : Nat} (operand : Derives (.expr .not e) ts n) :
      Derives (.expr .not (.not e)) (.kw .not :: ts) (n + 1)
  | isNull {e : Expr} {ts : List Tok} {n : Nat} {negated : Bool}
      (operand : Derives (.expr .is e) ts n) :
      Derives (.expr .is (.isNull e negated)) (ts ++ .kw .is :: (negation negated ++ [Tok.kw .null])) n
  | between {e lo hi : Expr} {ts us vs : List Tok} {m n k : Nat} {negated : Bool}
      (value : Derives (.expr .other e) ts m) (low : Derives (.expr .other lo) us n)
      (high : Derives (.expr .other hi) vs k) :
      Derives (.expr .range (.between e lo hi negated))
        (ts ++ (negation negated ++ .kw .between :: (us ++ .kw .and :: vs))) (max m (max n k))
  | inList {e : Expr} {es : List Expr} {ts us : List Tok} {m n : Nat} {negated : Bool}
      (value : Derives (.expr .other e) ts m) (items : Derives (.list .other es) us n) :
      Derives (.expr .range (.inList e es negated))
        (ts ++ (negation negated ++ .kw .in :: .lparen :: (us ++ [Tok.rparen]))) (max m n)
  | neg {e : Expr} {ts : List Tok} {n : Nat} (operand : Derives (.expr .unary e) ts n) :
      Derives (.expr .unary (.neg e)) (.minus :: ts) (n + 1)
  | number (value : Text) : Derives (.expr .atom (.number value)) [.number value] 0
  | text (value : Text) : Derives (.expr .atom (.text value)) [.str value] 0
  | isTrue : Derives (.expr .atom (.bool true)) [.kw .true] 0
  | isFalse : Derives (.expr .atom (.bool false)) [.kw .false] 0
  | interval {value : Text} {amount : Nat} {unit : IntervalUnit}
      (written : intervalOf value = some (amount, unit)) :
      Derives (.expr .atom (.interval amount unit)) [.kw .interval, .str value] 0
  | paren {e : Expr} {ts : List Tok} {n : Nat} (inside : Derives (.expr .or e) ts n) :
      Derives (.expr .atom e) (Tok.lparen :: (ts ++ [Tok.rparen])) (n + 1)
  | call {name : Text} {func : Func} {args : List Expr} {ts : List Tok} {n : Nat}
      (known : Func.fromName (name.map Char.toLower) = some func)
      (arity : args.length = func.arity) (inside : Derives (.list .or args) ts n) :
      Derives (.expr .atom (.call func args)) (.ident name :: .lparen :: (ts ++ [Tok.rparen])) (n + 1)
  | field {name : Text} (lower : name.any Char.isUpper = false) :
      Derives (.expr .atom (.field name)) [.ident name] 0
  | one {level : Level} {e : Expr} {ts : List Tok} {n : Nat} (item : Derives (.expr level e) ts n) :
      Derives (.list level [e]) ts n
  | more {level : Level} {es : List Expr} {e : Expr} {ts us : List Tok} {m n : Nat}
      (items : Derives (.list level es) ts m) (item : Derives (.expr level e) us n) :
      Derives (.list level (es ++ [e])) (ts ++ .comma :: us) (max m n)

/-! ## Measures of a tree -/

mutual

def size : Expr → Nat
  | .not e | .neg e | .isNull e _ | .finite e _ => size e + 1
  | .binary _ l r => size l + size r + 1
  | .between e lo hi _ => size e + size lo + size hi + 1
  | .inList e list _ => size e + sizeAll list + 1
  | .call _ args => sizeAll args + 1
  | .field _ | .text _ | .number _ | .bool _ | .typed _ _ | .interval _ _ | .arrayWithin _ _ => 1

def sizeAll : List Expr → Nat
  | [] => 0
  | e :: rest => size e + sizeAll rest

end

mutual

/-- The length of the longest `IN` list. -/
def widest : Expr → Nat
  | .not e | .neg e | .isNull e _ | .finite e _ => widest e
  | .binary _ l r => max (widest l) (widest r)
  | .between e lo hi _ => max (widest e) (max (widest lo) (widest hi))
  | .inList e list _ => max list.length (max (widest e) (widestAll list))
  | .call _ args => widestAll args
  | .field _ | .text _ | .number _ | .bool _ | .typed _ _ | .interval _ _ | .arrayWithin _ _ => 0

def widestAll : List Expr → Nat
  | [] => 0
  | e :: rest => max (widest e) (widestAll rest)

end

theorem sizeAll_concat (list : List Expr) (e : Expr) :
    sizeAll (list ++ [e]) = sizeAll list + size e := by
  induction list with
  | nil => simp [sizeAll]
  | cons first rest ih =>
    simp only [List.cons_append, sizeAll, ih]
    omega

theorem widestAll_concat (list : List Expr) (e : Expr) :
    widestAll (list ++ [e]) = max (widestAll list) (widest e) := by
  induction list with
  | nil => simp [widestAll]
  | cons first rest ih =>
    simp only [List.cons_append, widestAll, ih]
    omega

/-! ## The tokens at the ends of a phrase -/

def Level.rank : Level → Nat
  | .or => 0
  | .and => 1
  | .not => 2
  | .is => 3
  | .comparison => 4
  | .range => 5
  | .other => 6
  | .additive => 7
  | .multiplicative => 8
  | .unary => 9
  | .atom => 10

theorem rank_tighter {level inner : Level} (next : level.tighter = some inner) :
    inner.rank = level.rank + 1 := by
  cases level <;> cases next <;> rfl

/-- The level of the operator that a token belongs to.  An opening parenthesis
    goes on with the name before it. -/
def Tok.level : Tok → Option Level
  | .lparen => some .atom
  | .op .mul => some .multiplicative
  | .op .add | .minus => some .additive
  | .op .match => some .other
  | .kw .not | .kw .between | .kw .in => some .range
  | .op operator => if operator.isComparison then some .comparison else none
  | .kw .is => some .is
  | .kw .and => some .and
  | .kw .or => some .or
  | _ => none

/-- Whether a phrase of `level` could go on with the token. -/
def continues (level : Level) (tok : Tok) : Bool :=
  tok.level.any fun operator => level.rank ≤ operator.rank

theorem continues_tighter {level inner : Level} {tok : Tok} (next : level.tighter = some inner)
    (stop : continues level tok = false) : continues inner tok = false := by
  have ranks := rank_tighter next
  unfold continues at stop ⊢
  cases operator : tok.level with
  | none => rfl
  | some operator =>
    simp only [operator, Option.any_some, decide_eq_false_iff_not] at stop ⊢
    omega

/-- Whether a phrase of `level` could start with the token. -/
def opens (level : Level) : Tok → Bool
  | .ident _ | .number _ | .str _ | .kw .true | .kw .false | .kw .interval | .lparen => true
  | .minus => level.rank ≤ Level.rank .unary
  | .kw .not => level.rank ≤ Level.rank .not
  | _ => false

theorem opens_of_rank {level inner : Level} {tok : Tok} (ranks : level.rank ≤ inner.rank)
    (first : opens inner tok = true) : opens level tok = true := by
  unfold opens at first ⊢
  split at first
  case h_8 | h_9 =>
    simp only [decide_eq_true_eq] at first ⊢
    omega
  all_goals first | rfl | cases first

theorem Infix.left_rank {op : BinOp} {tok : Tok} {level left right : Level}
    (rule : Infix op tok level left right) : level.rank ≤ left.rank := by
  cases rule <;> decide

theorem Derives.starts {phrase : Phrase} {ts : List Tok} {n : Nat} (derives : Derives phrase ts n) :
    ∃ tok rest, ts = tok :: rest ∧ opens phrase.level tok = true := by
  induction derives with
  | climb next _ ih =>
    obtain ⟨tok, rest, rfl, first⟩ := ih
    exact ⟨tok, rest, rfl, opens_of_rank (Nat.le_of_lt (rank_tighter next ▸ Nat.lt_succ_self _)) first⟩
  | binary rule _ _ ih _ =>
    obtain ⟨tok, rest, rfl, first⟩ := ih
    exact ⟨tok, _, rfl, opens_of_rank rule.left_rank first⟩
  | isNull _ ih | more _ _ ih _ =>
    obtain ⟨tok, rest, rfl, first⟩ := ih
    exact ⟨tok, _, rfl, first⟩
  | between _ _ _ ih _ _ | inList _ _ ih _ =>
    obtain ⟨tok, rest, rfl, first⟩ := ih
    have ranks : Level.rank .range ≤ Level.rank .other := by decide
    exact ⟨tok, _, rfl, opens_of_rank ranks first⟩
  | one _ ih => exact ih
  | not | neg | number | text | isTrue | isFalse | interval | paren | call | field =>
    exact ⟨_, _, rfl, rfl⟩

end RootCx.Rules.Parser
