import RootCx.Rules.Meaning

/-! # Shorthands mean what is declared

Every tree that a field's shorthands are compiled to has the type of a condition,
is null on null, and is true on the values that meet the declared rule.
-/

namespace RootCx.Rules.Shorthand

open RootCx.Text RootCx.Postgres List Option

/-! ## Bounds, as they are written -/

theorem dropWhile_eq_drop (p : Char → Bool) (text : Text) : text.drop (text.takeWhile p).length = text.dropWhile p := by
  have rejoined := takeWhile_append_dropWhile (p := p) (l := text)
  conv_lhs => rw [← rejoined]
  rw [rejoined]
  have cut := congrArg (drop (text.takeWhile p).length) rejoined
  rwa [drop_left, eq_comm] at cut

variable {digits text : Text} {op : BinOp} {func : Func} {value : Value} (x : Number) {truth : Bool}
  {number : ℚ} {kind : String} {regex : Text → Text → Bool} {row : Text → Option Value} {condition : Expr}
  (limit : Nat)

theorem isBoundText_eq : isBoundText digits = (!(digits.takeWhile (· != '.')).isEmpty &&
    (digits.takeWhile (· != '.')).all Char.isDigit && (match digits.dropWhile (· != '.') with
      | [] => true
      | _ :: fraction => !fraction.isEmpty && fraction.all Char.isDigit) && decide (byteLength digits ≤ 40)) := rfl

theorem isBoundText_parts (written : isBoundText digits = true) :
    digits.takeWhile (· != '.') ≠ [] ∧ (digits.takeWhile (· != '.')).all Char.isDigit = true ∧
      ((digits.dropWhile (· != '.')).drop 1).all Char.isDigit = true := by
  rw [isBoundText_eq] at written
  simp only [Bool.and_eq_true, Bool.not_eq_true', isEmpty_eq_false_iff] at written
  obtain ⟨⟨⟨visible, whole⟩, formed⟩, -⟩ := written
  refine ⟨visible, whole, ?_⟩
  cases rest : digits.dropWhile (· != '.') with
  | nil => rfl
  | cons point fraction =>
    rw [rest] at formed
    exact (Bool.and_eq_true_iff.mp formed).2

theorem mantissaValue_of_isBoundText (written : isBoundText digits = true) :
    ∃ value, mantissaValue digits = some value := by
  obtain ⟨visible, whole, fraction⟩ := isBoundText_parts written
  have parts : digits.takeWhile (!isPoint ·) = digits.takeWhile (· != '.') := rfl
  unfold mantissaValue
  simp only [parts, dropWhile_eq_drop]
  rw [if_neg]
  · exact ⟨_, rfl⟩
  · rw [not_or]
    constructor
    · exact fun empty => visible (append_eq_nil_iff.mp empty).1
    · rw [all_append, whole, fraction]
      decide

theorem mem_bound (written : isBoundText digits = true) {c : Char} (mem : c ∈ digits) :
    c.isDigit = true ∨ c = '.' := by
  obtain ⟨-, whole, fraction⟩ := isBoundText_parts written
  rw [← takeWhile_append_dropWhile (p := (· != '.')) (l := digits)] at mem
  rcases mem_append.mp mem with inside | inside
  · exact .inl (all_eq_true.mp whole c inside)
  · cases rest : digits.dropWhile (· != '.') with
    | nil => simp [rest] at inside
    | cons point more =>
      rw [rest] at inside fraction
      rcases mem_cons.mp inside with rfl | inside
      · have stop := head?_dropWhile_not (p := (· != '.')) (l := digits)
        rw [rest] at stop
        right
        simpa using stop
      · exact .inl (all_eq_true.mp fraction c inside)

theorem splitSign_of_mem (plain : ∀ c ∈ text, c.isDigit = true ∨ c = '.') :
    splitSign text = (false, text) := by
  cases text with
  | nil => rfl
  | cons c rest =>
    have sign : c ≠ '-' ∧ c ≠ '+' := by
      rcases plain c (mem_cons_self ..) with digit | rfl
      · constructor <;> rintro rfl <;> exact absurd digit (by decide)
      · decide
    unfold splitSign
    split
    next heq => exact absurd (cons.inj heq).1 sign.1
    next heq => exact absurd (cons.inj heq).1 sign.2
    next => rfl

theorem decimalValue_of_isBoundText (written : isBoundText digits = true) :
    ∃ value, decimalValue digits = some value ∧ decimalValue ('-' :: digits) = some (-value) := by
  obtain ⟨value, read⟩ := mantissaValue_of_isBoundText written
  have plain : digits.takeWhile (!isExponentMark ·) = digits := by
    rw [takeWhile_eq_self_iff]
    intro c mem
    rcases mem_bound written mem with digit | rfl
    · rw [Bool.not_eq_true', isExponentMark, Bool.or_eq_false_iff, beq_eq_false_iff_ne, beq_eq_false_iff_ne]
      constructor <;> rintro rfl <;> exact absurd digit (by decide)
    · rfl
  have unsigned : splitSign digits = (false, digits) := splitSign_of_mem fun c mem => mem_bound written mem
  refine ⟨value, ?_, ?_⟩
  · unfold decimalValue
    simp [unsigned, plain, read, withSign]
  · unfold decimalValue
    have signed : splitSign ('-' :: digits) = (true, digits) := rfl
    simp [signed, plain, read, withSign]

/-! ## Types -/

section Check

variable {literals : Literals} {fields : Fields} {l r e : Expr} {lty rty ty : Ty}

theorem adopt_of_ne (ty : Ty) (side : Expr × Ty) (other : side.2 ≠ .textLit) : adopt literals ty side = .ok side := by
  unfold adopt
  split
  next => exact absurd rfl other
  next => rfl

theorem ne_textLit {ty : Ty} (numeric : ty.isNumeric = true) : ty ≠ .textLit := by
  rintro rfl
  cases numeric

theorem compareSides_numeric {op : BinOp} (left : lty.isNumeric = true) (right : rty.isNumeric = true) :
    compareSides literals op (l, lty) (r, rty) = .ok (.binary op l r, .bool) := by
  have unified : unify literals lty op.sql (r, rty) = .ok (r, rty) := by
    unfold unify
    rw [adopt_of_ne _ _ (ne_textLit right)]
    have fits : compatible lty rty = true := by
      unfold compatible
      simp [left, right, ne_textLit left]
    show (expectOk (compatible lty rty) _ >>= fun _ => _) = _
    rw [fits]
    rfl
  have sides : unifySides literals op (l, lty) (r, rty) = .ok ((l, lty), (r, rty)) := by
    unfold unifySides
    rw [if_neg (ne_textLit left), unified]
    rfl
  have ordered : (op ∈ [.eq, .ne] || (lty.isOrderable && rty.isOrderable)) = true := by
    simp [Ty.isOrderable, left, right]
  have scalar : (!(decide (lty ∈ [.json, .array]))) = true := by cases lty <;> first | rfl | cases left
  unfold compareSides
  rw [sides]
  show (expectOk (op ∈ [.eq, .ne] || (lty.isOrderable && rty.isOrderable)) _ >>= fun _ =>
    expectOk (!(decide (lty ∈ [.json, .array]))) _ >>= fun _ => _) = _
  rw [ordered, scalar]
  rfl

theorem check_binary (op : BinOp) (l r : Expr) : check literals fields (.binary op l r) =
    check literals fields l >>= fun left => binary literals op left r (check literals fields r) := rfl

theorem check_compare (comparison : op.isComparison = true) (left : check literals fields l = .ok (l, lty))
    (right : check literals fields r = .ok (r, rty)) (leftNumeric : lty.isNumeric = true)
    (rightNumeric : rty.isNumeric = true) :
    check literals fields (.binary op l r) = .ok (.binary op l r, .bool) := by
  rw [check_binary, left, right]
  have compared := @compareSides_numeric literals l r lty rty op leftNumeric rightNumeric
  cases op with
  | eq | ne | lt | le | gt | ge => exact compared
  | _ => cases comparison

theorem check_and (left : check literals fields l = .ok (l, .bool)) (right : check literals fields r = .ok (r, .bool)) :
    check literals fields (.binary .and l r) = .ok (.binary .and l r, .bool) := by
  rw [check_binary, left, right]
  rfl

theorem check_finite (operand : check literals fields e = .ok (e, ty)) (numeric : Bool) :
    check literals fields (.finite e numeric) = .ok (.finite e numeric, .bool) := by
  show (check literals fields e >>= fun checked => _) = _
  rw [operand]
  rfl

theorem check_call {result : Ty} (single : func ≠ .coalesce) (operand : check literals fields e = .ok (e, ty))
    (typed : unaryType func ty = .ok result) :
    check literals fields (.call func [e]) = .ok (.call func [e], result) := by
  have args : checkAll literals fields [e] = .ok [(e, ty)] := by
    show (check literals fields e >>= fun checked => _) = _
    rw [operand]
    rfl
  show (checkAll literals fields [e] >>= fun args => call literals func args) = _
  rw [args]
  show call literals func [(e, ty)] = _
  cases func with
  | coalesce => exact absurd rfl single
  | _ =>
    show (unaryType _ ty >>= fun ty => _) = _
    rw [typed]
    rfl

end Check

/-! ## Values -/

section Eval

variable {regex : Text → Text → Bool} {row : Text → Option Value} {l r e : Expr} {left right : Option Value}

theorem eval_compare {op : BinOp} (comparison : op.isComparison = true) (leftValue : eval regex row l = some left)
    (rightValue : eval regex row r = some right) :
    eval regex row (.binary op l r) = strict (fun left right => (compareValues op left right).map .bool) left right := by
  cases op with
  | eq | ne | lt | le | gt | ge =>
    show ((eval regex row l).bind fun left => (eval regex row r).bind fun right => _) = _
    rw [leftValue, rightValue]
    rfl
  | _ => cases comparison

theorem eval_and {first second : Truth} (leftValue : eval regex row l = some (ofTruth first))
    (rightValue : eval regex row r = some (ofTruth second)) :
    eval regex row (.binary .and l r) = some (ofTruth (Truth.and first second)) := by
  have truth (t : Truth) : toTruth (ofTruth t) = some t := by cases t <;> rfl
  show ((eval regex row l).bind fun left => (eval regex row r).bind fun right => _) = _
  rw [leftValue, rightValue]
  show ((toTruth (ofTruth first)).bind fun left => (toTruth (ofTruth second)).map fun right => _) = _
  rw [truth, truth]
  rfl

theorem eval_null (comparison : op.isComparison = true) (leftValue : eval regex row l = some none)
    (rightValue : eval regex row r = some right) : eval regex row (.binary op l r) = some (ofTruth none) := by
  rw [eval_compare comparison leftValue rightValue]
  rfl

theorem eval_compared {x y : Value} (comparison : op.isComparison = true)
    (leftValue : eval regex row l = some (some x)) (rightValue : eval regex row r = some (some y))
    (compared : compareValues op x y = some truth) :
    eval regex row (.binary op l r) = some (ofTruth (some truth)) := by
  rw [eval_compare comparison leftValue rightValue]
  show ((compareValues op x y).map Value.bool).map some = _
  rw [compared]
  rfl

theorem eval_guard_null (numeric : Bool) (operand : eval regex row e = some none) :
    eval regex row (.finite e numeric) = some (ofTruth none) := by
  show ((eval regex row e).bind fun value => _) = _
  rw [operand]
  rfl

theorem eval_guard {numeric : Bool} (operand : eval regex row e = some (some value))
    (guarded : guardValue numeric value = some truth) :
    eval regex row (.finite e numeric) = some (ofTruth (some truth)) := by
  show ((eval regex row e).bind fun value => _) = _
  rw [operand]
  show ((guardValue numeric value).map fun truth => some (Value.bool truth)) = _
  rw [guarded]
  rfl

theorem guardValue_float : guardValue false (.float x) = some x.isFinite :=
  congrArg some x.guard_eq_isFinite

theorem guardValue_numeric (scale : Nat) : guardValue true (.numeric x scale) = some x.isFinite :=
  congrArg some x.guard_eq_isFinite

theorem eval_call_null (func : Func) (operand : eval regex row e = some none) :
    eval regex row (.call func [e]) = some none := by
  show ((eval regex row e).bind fun value => _) = _
  rw [operand]
  rfl

theorem eval_call {result : Option Value} (operand : eval regex row e = some (some value))
    (called : callValue func value = some result) : eval regex row (.call func [e]) = some result := by
  show ((eval regex row e).bind fun value => _) = _
  rw [operand]
  exact called

end Eval

/-! ## Literals -/

/-- What the literal of a bound stands for.  The bound of a decimal is a string, and exact;
    the bound of a number is exact where it is an integer of 64 bits, and otherwise a decimal
    that reads as the double that is kept of it. -/
def Denotes (reader : NumberReader) (ty : Ty) (value : Json) (number : ℚ) : Prop :=
  match ty, value with
  | .numeric, .str text => decimalValue (trim text) = some number
  | .float, .number text => ∃ double, reader.asF64 text = some double ∧ binary64.nearest number = .finite double ∧
      ((asI64 text).isSome = true → decimalValue text = some number)
  | _, _ => False

/-- `f64::to_string` prints a decimal that reads as the same double. -/
def Prints (reader : NumberReader) (floatText : Text → Text) : Prop :=
  ∀ text double, reader.asF64 text = some double →
    ∃ number, decimalValue (floatText text) = some number ∧ binary64.nearest number = .finite double

/-- The literal of a bound. -/
structure Literal (literals : Literals) (fields : Fields) (literal : Expr) (number : ℚ) : Prop where
  typed : check literals fields literal = .ok (literal, .numLit)
  value : ∀ regex row, ∃ scale, eval regex row literal = some (some (.numeric (.finite number) scale))

theorem literal_number {literals : Literals} {fields : Fields} {digits : Text} {number : ℚ}
    (read : decimalValue digits = some number) : Literal literals fields (.number digits) number :=
  ⟨rfl, fun regex row => ⟨(digits.dropWhile (· != '.')).tail.length, by
    show (decimalValue digits).map _ = _
    rw [read]
    rfl⟩⟩

theorem literal_neg {literals : Literals} {fields : Fields} (read : decimalValue digits = some number) :
    Literal literals fields (.neg (.number digits)) (-number) :=
  ⟨rfl, fun regex row => ⟨(digits.dropWhile (· != '.')).tail.length, by
    show (((decimalValue digits).map _).bind fun value => _) = _
    rw [read]
    rfl⟩⟩

/-- The text of a bound and its literal are the same number. -/
theorem bound_literal {literals : Literals} {fields : Fields} {floatText : Text → Text} {name key : Text} {value : Json}
    {ty : Ty} {literal : Expr} (ran : bound floatText name key value ty = .ok literal) :
    ∃ text number, boundText floatText name key value ty = .ok text ∧ decimalValue text = some number ∧
      Literal literals fields literal number := by
  unfold bound at ran
  obtain ⟨text, written, rest⟩ := bind_eq_ok.mp ran
  by_cases negative : text.head? = some '-'
  · obtain ⟨digits, rfl⟩ : ∃ digits, text = '-' :: digits := by
      cases text with
      | nil => cases negative
      | cons c digits => exact ⟨digits, by rw [some.inj negative]⟩
    have branch : (if isBoundText digits then Except.ok (Expr.neg (.number digits)) else _) = .ok literal := rest
    split at branch
    next digitsOk =>
      obtain ⟨number, plain, signed⟩ := decimalValue_of_isBoundText digitsOk
      cases branch
      exact ⟨_, -number, written, signed, literal_neg plain⟩
    next => cases branch
  · simp only [negative, if_false] at rest
    split at rest
    next digitsOk =>
      obtain ⟨number, plain, -⟩ := decimalValue_of_isBoundText digitsOk
      cases rest
      exact ⟨_, number, written, plain, literal_number plain⟩
    next => cases rest

theorem asI64_eq {whole : Text} (read : asI64 text = some whole) : whole = text := by
  unfold asI64 at read
  simp only [ite_none_right_eq_some, some.injEq] at read
  exact read.2.symm

theorem signedValue_of_asI64 {whole : Text} (read : asI64 text = some whole) :
    ∃ int, signedValue text = some int ∧ -2 ^ 63 ≤ int ∧ int < 2 ^ 63 := by
  unfold asI64 at read
  simp only [ite_none_right_eq_some, Bool.and_eq_true, Bool.not_eq_true', isEmpty_eq_false_iff,
    decide_eq_true_eq, ← digitsValue_eq] at read
  obtain ⟨⟨⟨visible, digits⟩, bounded⟩, -⟩ := read
  by_cases negative : text.head? = some '-'
  · obtain ⟨rest, rfl⟩ : ∃ rest, text = '-' :: rest := head?_eq_some_iff.mp negative
    have plain : ¬ (rest = [] ∨ !rest.all Char.isDigit) := by simp_all
    have small : digitsValue rest ≤ 2 ^ 63 := bounded
    exact ⟨-(digitsValue rest : Int), if_neg plain, by omega, by omega⟩
  · simp only [if_neg negative] at visible digits bounded
    have unsigned := splitSign_of_mem fun c mem => .inl (all_eq_true.mp digits c mem)
    have plain : ¬ (text = [] ∨ !text.all Char.isDigit) := by simp [visible, digits]
    refine ⟨digitsValue text, ?_, by omega, by omega⟩
    unfold signedValue
    rw [unsigned]
    exact if_neg plain

theorem bound_denotes {reader : NumberReader} {literals : Literals} {fields : Fields} {floatText : Text → Text} {name key : Text} {value : Json}
    {ty : Ty} {literal : Expr} (prints : Prints reader floatText)
    (readable : ∀ text, value = .number text → ∃ double, reader.asF64 text = some double)
    (numeric : isNumeric ty = true) (ran : bound floatText name key value ty = .ok literal) :
    ∃ number, Literal literals fields literal number ∧ Denotes reader ty value number := by
  obtain ⟨text, number, written, read, made⟩ := @bound_literal literals fields _ _ _ _ _ _ ran
  refine ⟨number, made, ?_⟩
  have kinds : ty = .float ∨ ty = .numeric := by simpa [isNumeric] using numeric
  rcases kinds with rfl | rfl
  · cases value with
    | number declared =>
      obtain ⟨double, reads⟩ := readable declared rfl
      have same : (asI64 declared).getD (floatText declared) = text := Except.ok.inj written
      cases whole : asI64 declared with
      | none =>
        obtain ⟨printed, shown, rounded⟩ := prints declared double reads
        rw [whole, getD_none] at same
        rw [same, read] at shown
        cases shown
        exact ⟨double, reads, rounded, fun exactly => by rw [whole] at exactly; cases exactly⟩
      | some exactText =>
        obtain rfl := asI64_eq whole
        rw [whole, getD_some] at same
        subst same
        obtain ⟨int, signed, low, high⟩ := signedValue_of_asI64 whole
        cases (decimalValue_of_signed signed).symm.trans read
        exact ⟨double, reads, Json.nearest_of_whole reads signed low (by omega), fun _ => read⟩
    | _ => cases written
  · cases value with
    | str declared =>
      have same : trim declared = text := Except.ok.inj written
      show decimalValue (trim declared) = some number
      rw [same, read]
    | _ => cases written

/-! ## One rule -/

/-- A tree that means the rule it comes from. -/
structure Compiled (reader : NumberReader) (literals : Literals) (fields : Fields) (field : FieldContract) (ty : Ty) (rule : Rule)
    (shorthand : Shorthand) : Prop where
  kind : shorthand.kind = rule.kind
  typed : check literals fields shorthand.tree = .ok (shorthand.tree, .bool)
  unknown : ∀ regex row, row field.name = none → eval regex row shorthand.tree = some none
  value : ∀ regex row value, row field.name = some value → value.HasTy ty →
    eval regex row shorthand.tree = some (ofTruth (rule.meets reader regex value))
  literal : ∀ op value, rule = .bound op value → ∃ literal rest number,
    shorthand.tree = .binary .and (.binary op (this field) literal) rest ∧ Literal literals fields literal number ∧
      Denotes reader ty value number

section Rules

variable (reader : NumberReader) {literals : Literals} {floatText : Text → Text} {fields : Fields} {field : FieldContract} {scope : ScopeField}
  {out : List Shorthand}

theorem check_field (name : Text) :
    check literals fields (.field name) = match fields name with
      | some found => .ok (.field name, found.ty)
      | none => .error ("unknown field '" ++ name ++ "'") := rfl

theorem check_this (inScope : fields field.name = some scope) :
    check literals fields (this field) = .ok (this field, scope.ty) := by
  rw [this, check_field, inScope]

theorem needs_ok {ok : Bool} {key what : String} {result : Unit} (passed : needs field ok key what = .ok result) : ok = true := by
  unfold needs expectOk at passed
  split at passed
  next holds => exact holds
  next => cases passed

theorem push_ok {tree : Expr} (typed : check literals fields tree = .ok (tree, .bool))
    (pushed : push literals fields field kind tree = .ok out) : out = [⟨kind.toList, tree⟩] := by
  have condition : boolean literals fields tree = .ok tree := by
    unfold boolean
    rw [typed]
    rfl
  unfold push at pushed
  rw [condition] at pushed
  exact (Except.ok.inj pushed).symm

theorem float_or_numeric {ty : Ty} (numeric : isNumeric ty = true) : ty = .float ∨ ty = .numeric := by
  simpa [isNumeric] using numeric

theorem hasTy_float (typed : value.HasTy .float) : ∃ x, value = .float x := by
  cases value with
  | float x => exact ⟨x, rfl⟩
  | _ => exact typed.elim

theorem hasTy_numeric (typed : value.HasTy .numeric) : ∃ x scale, value = .numeric x scale := by
  cases value with
  | numeric x scale => exact ⟨x, scale, rfl⟩
  | _ => exact typed.elim

theorem hasTy_text (typed : value.HasTy .text) : ∃ text, value = .text text := by
  cases value with
  | text text => exact ⟨text, rfl⟩
  | _ => exact typed.elim

theorem hasTy_json (typed : value.HasTy .json) : ∃ json, value = .json json := by
  cases value with
  | json json => exact ⟨json, rfl⟩
  | _ => exact typed.elim

theorem guarded_null (ty : Ty) (missing : row field.name = none)
    (unknown : eval regex row condition = some (ofTruth none)) :
    eval regex row (.binary .and condition (finite field ty)) = some none := by
  have operand : eval regex row (this field) = some none := congrArg some missing
  exact eval_and unknown (eval_guard_null (ty == .numeric) operand)

theorem guarded_float {x : Number} {truth : Truth} (present : row field.name = some (.float x))
    (holds : eval regex row condition = some (ofTruth truth)) :
    eval regex row (.binary .and condition (finite field .float)) = some (ofTruth (Truth.and truth (some x.isFinite))) :=
  eval_and holds (eval_guard (congrArg some present) (guardValue_float x))

theorem guarded_numeric {x : Number} {scale : Nat} {truth : Truth}
    (present : row field.name = some (.numeric x scale))
    (holds : eval regex row condition = some (ofTruth truth)) :
    eval regex row (.binary .and condition (finite field .numeric)) = some (ofTruth (Truth.and truth (some x.isFinite))) :=
  eval_and holds (eval_guard (congrArg some present) (guardValue_numeric x scale))

theorem check_guarded (ty : Ty) (inScope : fields field.name = some scope)
    (typed : check literals fields condition = .ok (condition, .bool)) :
    check literals fields (.binary .and condition (finite field ty)) = .ok (.binary .and condition (finite field ty), .bool) :=
  check_and typed (check_finite (check_this inScope) (ty == .numeric))

theorem bound_compiled {value : Json} {literal : Expr} (comparison : op.isComparison = true)
    (inScope : fields field.name = some scope) (numeric : isNumeric scope.ty = true)
    (made : Literal literals fields literal number) (denotes : Denotes reader scope.ty value number) :
    Compiled reader literals fields field scope.ty (.bound op value)
      ⟨(Rule.bound op value).kind, .binary .and (.binary op (this field) literal) (finite field scope.ty)⟩ := by
  have numericTy : scope.ty.isNumeric = true := by rcases float_or_numeric numeric with same | same <;> rw [same] <;> rfl
  refine ⟨rfl, ?_, ?_, ?_, ?_⟩
  · exact check_guarded _ inScope (check_compare comparison (check_this inScope) made.typed numericTy rfl)
  · intro regex row missing
    obtain ⟨scale, literalValue⟩ := made.value regex row
    exact guarded_null _ missing (eval_null comparison (congrArg some missing) literalValue)
  · intro regex row present inside typed
    obtain ⟨scale, literalValue⟩ := made.value regex row
    have operand : eval regex row (this field) = some (some present) := congrArg some inside
    rcases float_or_numeric numeric with same | same
    · rw [same] at denotes typed ⊢
      obtain ⟨x, rfl⟩ := hasTy_float typed
      cases value with
      | number text =>
        obtain ⟨double, reads, rounded, -⟩ := denotes
        have compared : compareValues op (.float x) (.numeric (.finite number) scale) = some (holds op x (.finite double)) := by
          show some (holds op x (Number.finite number).toDouble) = _
          rw [Number.toDouble_of_nearest rounded]
        rw [guarded_float inside (eval_compared comparison operand literalValue compared), Truth.and_some]
        simp [Rule.meets, reads, Bool.and_comm]
      | _ => exact denotes.elim
    · rw [same] at denotes typed ⊢
      obtain ⟨x, places, rfl⟩ := hasTy_numeric typed
      cases value with
      | str text =>
        have compared : compareValues op (.numeric x places) (.numeric (.finite number) scale) =
            some (holds op x (.finite number)) := rfl
        have reads : decimalValue (trim text) = some number := denotes
        rw [guarded_numeric inside (eval_compared comparison operand literalValue compared), Truth.and_some]
        simp [Rule.meets, reads, Bool.and_comm]
      | _ => exact denotes.elim
  · intro op' value' same
    cases same
    exact ⟨literal, _, number, rfl, made, denotes⟩

theorem boundRule_compiled {key : String} {value : Option Json} (prints : Prints reader floatText)
    (readable : ∀ text, value = some (.number text) → ∃ double, reader.asF64 text = some double)
    (comparison : op.isComparison = true) (named : ∀ value, (Rule.bound op value).kind = kind.toList)
    (inScope : fields field.name = some scope)
    (ran : boundRule literals floatText fields field scope.ty key kind op value = .ok out) :
    List.Forall₂ (Compiled reader literals fields field scope.ty) (boundsOf op value) out := by
  cases value with
  | none =>
    cases ran
    exact .nil
  | some value =>
    obtain ⟨_, numeric, rest⟩ := bind_eq_ok.mp ran
    obtain ⟨literal, bounded, pushed⟩ := bind_eq_ok.mp rest
    have numeric : isNumeric scope.ty = true := needs_ok numeric
    obtain ⟨number, made, denotes⟩ := @bound_denotes reader literals fields _ _ _ value _ literal prints
      (fun text same => readable text (congrArg some same)) numeric bounded
    have compiled := bound_compiled reader comparison inScope numeric made denotes
    rw [push_ok compiled.typed pushed, ← named value]
    exact .cons compiled .nil

theorem integer_compiled (inScope : fields field.name = some scope) (numeric : isNumeric scope.ty = true) :
    Compiled reader literals fields field scope.ty .integer
      ⟨Rule.integer.kind, .binary .and (.binary .eq (this field) (.call .trunc [this field])) (finite field scope.ty)⟩ := by
  have numericTy : scope.ty.isNumeric = true := by rcases float_or_numeric numeric with same | same <;> rw [same] <;> rfl
  refine ⟨rfl, ?_, ?_, ?_, fun _ _ same => nomatch same⟩
  · have truncated : check literals fields (.call .trunc [this field]) = .ok (.call .trunc [this field], scope.ty) := by
      refine check_call (by decide) (check_this inScope) ?_
      rcases float_or_numeric numeric with same | same <;> rw [same] <;> rfl
    exact check_guarded _ inScope (check_compare rfl (check_this inScope) truncated numericTy numericTy)
  · intro regex row missing
    have operand : eval regex row (this field) = some none := congrArg some missing
    exact guarded_null _ missing (eval_null rfl operand (eval_call_null .trunc operand))
  · intro regex row present inside typed
    have operand : eval regex row (this field) = some (some present) := congrArg some inside
    rcases float_or_numeric numeric with same | same
    · rw [same] at typed ⊢
      obtain ⟨x, rfl⟩ := hasTy_float typed
      have truncated : eval regex row (.call .trunc [this field]) = some (some (.float x.trunc)) := eval_call operand rfl
      have compared : compareValues .eq (.float x) (.float x.trunc) = some (decide (x = x.trunc)) := rfl
      rw [guarded_float inside (eval_compared rfl operand truncated compared), Truth.and_some, Number.trunc_eq_self]
      rfl
    · rw [same] at typed ⊢
      obtain ⟨x, scale, rfl⟩ := hasTy_numeric typed
      have truncated : eval regex row (.call .trunc [this field]) = some (some (.numeric x.trunc 0)) := eval_call operand rfl
      have compared : compareValues .eq (.numeric x scale) (.numeric x.trunc 0) = some (decide (x = x.trunc)) := rfl
      rw [guarded_numeric inside (eval_compared rfl operand truncated compared), Truth.and_some, Number.trunc_eq_self]
      rfl

theorem integerRule_compiled (inScope : fields field.name = some scope)
    (ran : integerRule literals fields field scope.ty = .ok out) :
    List.Forall₂ (Compiled reader literals fields field scope.ty) (if field.rules.integer then [.integer] else []) out := by
  unfold integerRule at ran
  split at ran
  next set =>
    obtain ⟨_, numeric, pushed⟩ := bind_eq_ok.mp ran
    have compiled := @integer_compiled reader literals fields field scope inScope (needs_ok numeric)
    rw [if_pos set, push_ok compiled.typed pushed]
    exact .cons compiled .nil
  next unset =>
    cases ran
    rw [if_neg unset]
    exact .nil

/-! ## Counts -/

theorem decimalValue_toDigits (n : Nat) : decimalValue (Nat.toDigits 10 n) = some (n : ℚ) := by
  have whole : signedValue (Nat.toDigits 10 n) = some (n : Int) := signedValue_ofInt n
  rw [decimalValue_of_signed whole, Int.cast_natCast]

theorem literal_count (n : Nat) : Literal literals fields (.number (Nat.toDigits 10 n)) n := literal_number (decimalValue_toDigits n)

theorem holds_ge_count (a b : Nat) : holds .ge (.finite a) (.finite b) = decide (b ≤ a) := by
  show (!decide ((a : ℚ) < b)) = _
  rw [Bool.eq_iff_iff]
  simp

theorem holds_le_count (a b : Nat) : holds .le (.finite a) (.finite b) = decide (a ≤ b) := by
  show (!decide ((b : ℚ) < a)) = _
  rw [Bool.eq_iff_iff]
  simp

theorem check_count (comparison : op.isComparison = true) (single : func ≠ .coalesce)
    (inScope : fields field.name = some scope) (typed : unaryType func scope.ty = .ok .int) :
    check literals fields (.binary op (.call func [this field]) (.number (Nat.toDigits 10 limit))) =
      .ok (.binary op (.call func [this field]) (.number (Nat.toDigits 10 limit)), .bool) :=
  check_compare comparison (check_call single (check_this inScope) typed) (literal_count limit).typed rfl rfl

section CountValues

variable {regex : Text → Text → Bool} {row : Text → Option Value} {op : BinOp} {func : Func} {value : Value}

theorem eval_limit (limit : Nat) : ∃ scale,
    eval regex row (.number (Nat.toDigits 10 limit)) = some (some (.numeric (.finite limit) scale)) := by
  have read : eval regex row (.number (Nat.toDigits 10 limit)) =
      (decimalValue (Nat.toDigits 10 limit)).map fun value =>
        some (.numeric (.finite value) ((Nat.toDigits 10 limit).dropWhile (· != '.')).tail.length) := rfl
  rw [read, decimalValue_toDigits]
  exact ⟨_, rfl⟩

theorem count_null (comparison : op.isComparison = true) {measured : Expr}
    (unknown : eval regex row measured = some none) :
    eval regex row (.binary op measured (.number (Nat.toDigits 10 limit))) = some (ofTruth none) := by
  obtain ⟨scale, read⟩ := @eval_limit regex row limit
  exact eval_null comparison unknown read

theorem count_value {n : Nat} (comparison : op.isComparison = true) {measured : Expr}
    (counted : eval regex row measured = some (some (.count n)))
    (compared : holds op (.finite n) (.finite limit) = truth) :
    eval regex row (.binary op measured (.number (Nat.toDigits 10 limit))) = some (ofTruth (some truth)) := by
  obtain ⟨scale, read⟩ := @eval_limit regex row limit
  exact eval_compared comparison counted read (congrArg some compared)

end CountValues

theorem maxScale_compiled (inScope : fields field.name = some scope) (decimal : scope.ty = .numeric) :
    Compiled reader literals fields field scope.ty (.maxScale limit) ⟨(Rule.maxScale limit).kind,
      .binary .and (.binary .le (.call .scale [this field]) (.number (Nat.toDigits 10 limit))) (finite field scope.ty)⟩ := by
  refine ⟨rfl, ?_, ?_, ?_, fun _ _ same => nomatch same⟩
  · exact check_guarded _ inScope (check_count limit rfl (by decide) inScope (by rw [decimal]; rfl))
  · intro regex row missing
    exact guarded_null _ missing (count_null limit rfl (eval_call_null .scale (congrArg some missing)))
  · intro regex row present inside typed
    rw [decimal] at typed ⊢
    obtain ⟨x, places, rfl⟩ := hasTy_numeric typed
    have operand : eval regex row (this field) = some (some (.numeric x places)) := congrArg some inside
    cases x with
    | finite x =>
      have counted : eval regex row (.call .scale [this field]) = some (some (.count places)) := eval_call operand rfl
      rw [guarded_numeric inside (count_value limit rfl counted (holds_le_count places limit)), Truth.and_some, Bool.and_comm]
      rfl
    -- the scale of a value that is not finite is null, and the guard false
    | infinite | nan =>
      have uncounted : eval regex row (.call .scale [this field]) = some none := eval_call operand rfl
      rw [guarded_numeric inside (count_null limit rfl uncounted)]
      rfl

theorem length_compiled {rule : Rule} (comparison : op.isComparison = true)
    (counts : ∀ op value, rule ≠ .bound op value)
    (meets : ∀ regex (text : Text), rule.meets reader regex (.text text) = some (holds op (.finite text.length) (.finite limit)))
    (inScope : fields field.name = some scope) (texts : scope.ty = .text) :
    Compiled reader literals fields field scope.ty rule
      ⟨rule.kind, .binary op (.call .length [this field]) (.number (Nat.toDigits 10 limit))⟩ := by
  refine ⟨rfl, ?_, ?_, ?_, fun op value same => absurd same (counts op value)⟩
  · exact check_count limit comparison (by decide) inScope (by rw [texts]; rfl)
  · intro regex row missing
    exact count_null limit comparison (eval_call_null .length (congrArg some missing))
  · intro regex row present inside typed
    rw [texts] at typed
    obtain ⟨text, rfl⟩ := hasTy_text typed
    have counted : eval regex row (.call .length [this field]) = some (some (.count text.length)) :=
      eval_call (congrArg some inside) rfl
    rw [meets]
    exact count_value limit comparison counted rfl

theorem minLength_compiled (inScope : fields field.name = some scope) (texts : scope.ty = .text) :
    Compiled reader literals fields field scope.ty (.minLength limit)
      ⟨(Rule.minLength limit).kind, .binary .ge (.call .length [this field]) (.number (Nat.toDigits 10 limit))⟩ := by
  refine length_compiled limit reader rfl (fun _ _ same => nomatch same) (fun regex text => ?_) inScope texts
  rw [holds_ge_count]
  rfl

theorem maxLength_compiled (inScope : fields field.name = some scope) (texts : scope.ty = .text) :
    Compiled reader literals fields field scope.ty (.maxLength limit)
      ⟨(Rule.maxLength limit).kind, .binary .le (.call .length [this field]) (.number (Nat.toDigits 10 limit))⟩ := by
  refine length_compiled limit reader rfl (fun _ _ same => nomatch same) (fun regex text => ?_) inScope texts
  rw [holds_le_count]
  rfl

theorem maxItems_compiled (inScope : fields field.name = some scope) (documents : scope.ty = .json) :
    Compiled reader literals fields field scope.ty (.maxItems limit) ⟨(Rule.maxItems limit).kind,
      .binary .le (.call .jsonbArrayLength [this field]) (.number (Nat.toDigits 10 limit))⟩ := by
  refine ⟨rfl, ?_, ?_, ?_, fun _ _ same => nomatch same⟩
  · exact check_count limit rfl (by decide) inScope (by rw [documents]; rfl)
  · intro regex row missing
    exact count_null limit rfl (eval_call_null .jsonbArrayLength (congrArg some missing))
  · intro regex row present inside typed
    rw [documents] at typed
    obtain ⟨json, rfl⟩ := hasTy_json typed
    have operand : eval regex row (this field) = some (some (.json json)) := congrArg some inside
    cases json with
    | arr items =>
      have counted : eval regex row (.call .jsonbArrayLength [this field]) = some (some (.count items.length)) :=
        eval_call operand rfl
      exact count_value limit rfl counted (holds_le_count items.length limit)
    | _ => exact count_null limit rfl (eval_call operand rfl)

/-! ## Texts and documents -/

theorem btrim_ne_nil (text : Text) : 0 < (btrim text).length ↔ text.any (!isBlank ·) = true := by
  have blank : btrim text = [] ↔ ∀ c ∈ text, isBlank c = true := by
    unfold btrim
    rw [reverse_eq_nil_iff, dropWhile_eq_nil_iff]
    constructor
    · intro stripped c mem
      cases rest : text.dropWhile isBlank with
      | nil => exact dropWhile_eq_nil_iff.mp rest c mem
      | cons first more =>
        have stop := head?_dropWhile_not (p := isBlank) (l := text)
        rw [rest] at stop stripped
        have both := stripped first (by simp)
        simp [both] at stop
    · intro all c mem
      exact all c (dropWhile_subset _ (mem_reverse.mp mem))
  rw [length_pos_iff, Ne, blank]
  simp

theorem notBlank_compiled (inScope : fields field.name = some scope) (texts : scope.ty = .text) :
    Compiled reader literals fields field scope.ty .notBlank
      ⟨Rule.notBlank.kind, .binary .gt (.call .length [.call .btrim [this field]]) (.number (Nat.toDigits 10 0))⟩ := by
  refine ⟨rfl, ?_, ?_, ?_, fun _ _ same => nomatch same⟩
  · have stripped : check literals fields (.call .btrim [this field]) = .ok (.call .btrim [this field], .text) :=
      check_call (by decide) (check_this inScope) (by rw [texts]; rfl)
    exact check_compare rfl (check_call (by decide) stripped rfl) (literal_count 0).typed rfl rfl
  · intro regex row missing
    exact count_null 0 rfl (eval_call_null .length (eval_call_null .btrim (congrArg some missing)))
  · intro regex row present inside typed
    rw [texts] at typed
    obtain ⟨text, rfl⟩ := hasTy_text typed
    have stripped : eval regex row (.call .btrim [this field]) = some (some (.text (btrim text))) :=
      eval_call (congrArg some inside) rfl
    have counted : eval regex row (.call .length [.call .btrim [this field]]) = some (some (.count (btrim text).length)) :=
      eval_call stripped rfl
    refine count_value 0 rfl counted ?_
    rw [Bool.eq_iff_iff, ← btrim_ne_nil]
    simp [holds, Number.lt]

theorem match_pushed {pattern : Text} (inScope : fields field.name = some scope) (texts : scope.ty = .text)
    (pushed : push literals fields field kind (.binary .match (this field) (.text pattern)) = .ok out) :
    check literals fields (.binary .match (this field) (.text pattern)) =
      .ok (.binary .match (this field) (.text pattern), .bool) := by
  have checked : check literals fields (.binary .match (this field) (.text pattern)) =
      (literals.validatePattern pattern >>= fun _ => .ok (.binary .match (this field) (.text pattern), .bool)) := by
    rw [check_binary, check_this inScope, texts]
    rfl
  rw [checked]
  cases valid : literals.validatePattern pattern with
  | ok => rfl
  | error message =>
    have refused : boolean literals fields (.binary .match (this field) (.text pattern)) = .error message := by
      unfold boolean
      rw [checked, valid]
      rfl
    unfold push at pushed
    rw [refused] at pushed
    cases pushed

theorem eval_match (pattern : Text) (inside : row field.name = some (.text text)) :
    eval regex row (.binary .match (this field) (.text pattern)) = some (ofTruth (some (regex pattern text))) := by
  have operand : eval regex row (this field) = some (some (.text text)) := congrArg some inside
  show ((eval regex row (this field)).bind fun left => (eval regex row (.text pattern)).bind fun right => _) = _
  rw [operand]
  rfl

theorem eval_match_null (pattern : Text) (missing : row field.name = none) :
    eval regex row (.binary .match (this field) (.text pattern)) = some none := by
  have operand : eval regex row (this field) = some none := congrArg some missing
  show ((eval regex row (this field)).bind fun left => (eval regex row (.text pattern)).bind fun right => _) = _
  rw [operand]
  rfl

theorem jsonType_compiled (name : Text) (inScope : fields field.name = some scope) (documents : scope.ty = .json) :
    Compiled reader literals fields field scope.ty (.jsonType name)
      ⟨(Rule.jsonType name).kind, .binary .eq (.call .jsonbTypeof [this field]) (.text name)⟩ := by
  refine ⟨rfl, ?_, ?_, ?_, fun _ _ same => nomatch same⟩
  · have named : check literals fields (.call .jsonbTypeof [this field]) = .ok (.call .jsonbTypeof [this field], .text) :=
      check_call (by decide) (check_this inScope) (by rw [documents]; rfl)
    rw [check_binary, named]
    rfl
  · intro regex row missing
    exact eval_null rfl (eval_call_null .jsonbTypeof (congrArg some missing)) rfl
  · intro regex row present inside typed
    rw [documents] at typed
    obtain ⟨json, rfl⟩ := hasTy_json typed
    have named : eval regex row (.call .jsonbTypeof [this field]) = some (some (.text (jsonTypeof json))) :=
      eval_call (congrArg some inside) rfl
    exact eval_compared rfl named rfl rfl

theorem match_compiled {rule : Rule} {pattern : Text} (named : rule.kind = kind.toList)
    (counts : ∀ op value, rule ≠ .bound op value)
    (meets : ∀ regex text, rule.meets reader regex (.text text) = some (regex pattern text))
    (inScope : fields field.name = some scope) (texts : scope.ty = .text)
    (pushed : push literals fields field kind (.binary .match (this field) (.text pattern)) = .ok out) :
    List.Forall₂ (Compiled reader literals fields field scope.ty) [rule] out := by
  have typed := match_pushed inScope texts pushed
  rw [push_ok typed pushed, ← named]
  refine .cons ⟨rfl, typed, ?_, ?_, fun op value same => absurd same (counts op value)⟩ .nil
  · intro regex row missing
    exact eval_match_null pattern missing
  · intro regex row present inside typed
    rw [texts] at typed
    obtain ⟨text, rfl⟩ := hasTy_text typed
    rw [meets]
    exact eval_match pattern inside

/-! ## The rules of a field -/

theorem countRule_compiled {key what kind : String} {ok : Bool} {op : BinOp} {measured : Expr} {rest : Option Expr}
    {count : Option Nat} {rule : Nat → Rule} (named : ∀ limit, (rule limit).kind = kind.toList)
    (compiled : ok = true → ∀ limit, Compiled reader literals fields field scope.ty (rule limit) ⟨(rule limit).kind, match rest with
      | none => .binary op measured (.number (Nat.toDigits 10 limit))
      | some rest => .binary .and (.binary op measured (.number (Nat.toDigits 10 limit))) rest⟩)
    (ran : countRule literals fields field key what kind ok op measured rest count = .ok out) :
    List.Forall₂ (Compiled reader literals fields field scope.ty) (count.toList.map rule) out := by
  cases count with
  | none =>
    cases ran
    exact .nil
  | some limit =>
    obtain ⟨_, fits, pushed⟩ := bind_eq_ok.mp ran
    have means := compiled (needs_ok fits) limit
    rw [push_ok means.typed pushed, ← named limit]
    exact .cons means .nil

theorem notBlankRule_compiled (inScope : fields field.name = some scope)
    (ran : notBlankRule literals fields field scope.ty = .ok out) :
    List.Forall₂ (Compiled reader literals fields field scope.ty) (if field.rules.notBlank then [.notBlank] else []) out := by
  unfold notBlankRule at ran
  split at ran
  next set =>
    obtain ⟨_, texts, pushed⟩ := bind_eq_ok.mp ran
    have compiled := @notBlank_compiled reader literals fields field scope inScope (of_decide_eq_true (needs_ok texts))
    rw [if_pos set, push_ok compiled.typed pushed]
    exact .cons compiled .nil
  next unset =>
    cases ran
    rw [if_neg unset]
    exact .nil

theorem formatRule_compiled (inScope : fields field.name = some scope)
    (ran : formatRule literals fields field scope.ty = .ok out) :
    List.Forall₂ (Compiled reader literals fields field scope.ty) (field.rules.format.toList.map .format) out := by
  unfold formatRule at ran
  split at ran
  next unset =>
    cases ran
    rw [unset]
    exact .nil
  next format set =>
    obtain ⟨_, texts, rest⟩ := bind_eq_ok.mp ran
    obtain ⟨_, _, pushed⟩ := bind_eq_ok.mp rest
    rw [set]
    exact match_compiled reader rfl (fun _ _ same => nomatch same) (fun _ _ => rfl) inScope (of_decide_eq_true (needs_ok texts)) pushed

theorem patternRule_compiled (inScope : fields field.name = some scope)
    (ran : patternRule literals fields field scope.ty = .ok out) :
    List.Forall₂ (Compiled reader literals fields field scope.ty) (field.rules.pattern.toList.map .pattern) out := by
  unfold patternRule at ran
  split at ran
  next unset =>
    cases ran
    rw [unset]
    exact .nil
  next written set =>
    obtain ⟨_, texts, pushed⟩ := bind_eq_ok.mp ran
    rw [set]
    exact match_compiled reader rfl (fun _ _ same => nomatch same) (fun _ _ => rfl) inScope (of_decide_eq_true (needs_ok texts)) pushed

theorem jsonTypeRule_compiled (inScope : fields field.name = some scope)
    (ran : jsonTypeRule literals fields field scope.ty = .ok out) :
    List.Forall₂ (Compiled reader literals fields field scope.ty) (field.rules.jsonType.toList.map .jsonType) out := by
  unfold jsonTypeRule at ran
  split at ran
  next unset =>
    cases ran
    rw [unset]
    exact .nil
  next name set =>
    obtain ⟨_, documents, rest⟩ := bind_eq_ok.mp ran
    obtain ⟨_, _, pushed⟩ := bind_eq_ok.mp rest
    have compiled := @jsonType_compiled reader literals fields field scope name inScope (of_decide_eq_true (needs_ok documents))
    rw [set, push_ok compiled.typed pushed]
    exact .cons compiled .nil

/-- The bounds of a field, as they are declared. -/
def bounds (rules : FieldRules) : List (Option Json) :=
  [rules.minimum, rules.maximum, rules.exclusiveMinimum, rules.exclusiveMaximum]

/-- Every shorthand that is accepted means the rule it is declared as. -/
theorem compile_means (prints : Prints reader floatText) (inScope : fields field.name = some scope)
    (readable : ∀ text, some (.number text) ∈ bounds field.rules → ∃ double, reader.asF64 text = some double)
    (ran : compile literals floatText fields field scope.ty = .ok out) :
    List.Forall₂ (Compiled reader literals fields field scope.ty) (declared field.rules) out := by
  unfold compile at ran
  obtain ⟨minimum, minimumRan, ran⟩ := bind_eq_ok.mp ran
  obtain ⟨maximum, maximumRan, ran⟩ := bind_eq_ok.mp ran
  obtain ⟨xmin, xminRan, ran⟩ := bind_eq_ok.mp ran
  obtain ⟨xmax, xmaxRan, ran⟩ := bind_eq_ok.mp ran
  obtain ⟨integer, integerRan, ran⟩ := bind_eq_ok.mp ran
  obtain ⟨scale, scaleRan, ran⟩ := bind_eq_ok.mp ran
  obtain ⟨_, _, ran⟩ := bind_eq_ok.mp ran
  obtain ⟨minLength, minLengthRan, ran⟩ := bind_eq_ok.mp ran
  obtain ⟨maxLength, maxLengthRan, ran⟩ := bind_eq_ok.mp ran
  obtain ⟨notBlank, notBlankRan, ran⟩ := bind_eq_ok.mp ran
  obtain ⟨format, formatRan, ran⟩ := bind_eq_ok.mp ran
  obtain ⟨pattern, patternRan, ran⟩ := bind_eq_ok.mp ran
  obtain ⟨jsonType, jsonTypeRan, ran⟩ := bind_eq_ok.mp ran
  obtain ⟨maxItems, maxItemsRan, ran⟩ := bind_eq_ok.mp ran
  cases ran
  have lowest := boundRule_compiled reader prints (fun text same => readable text (by simp [bounds, same])) rfl (fun _ => rfl) inScope minimumRan
  have highest := boundRule_compiled reader prints (fun text same => readable text (by simp [bounds, same])) rfl (fun _ => rfl) inScope maximumRan
  have above := boundRule_compiled reader prints (fun text same => readable text (by simp [bounds, same])) rfl (fun _ => rfl) inScope xminRan
  have below := boundRule_compiled reader prints (fun text same => readable text (by simp [bounds, same])) rfl (fun _ => rfl) inScope xmaxRan
  have whole := integerRule_compiled reader inScope integerRan
  have places := countRule_compiled reader (fun _ => rfl)
    (fun decimal limit => maxScale_compiled limit reader inScope (of_decide_eq_true decimal)) scaleRan
  have long := countRule_compiled reader (fun _ => rfl)
    (fun texts limit => minLength_compiled limit reader inScope (of_decide_eq_true texts)) minLengthRan
  have short := countRule_compiled reader (fun _ => rfl)
    (fun texts limit => maxLength_compiled limit reader inScope (of_decide_eq_true texts)) maxLengthRan
  have visible := notBlankRule_compiled reader inScope notBlankRan
  have formatted := formatRule_compiled reader inScope formatRan
  have matched := patternRule_compiled reader inScope patternRan
  have documents := jsonTypeRule_compiled reader inScope jsonTypeRan
  have few := countRule_compiled reader (fun _ => rfl)
    (fun documents limit => maxItems_compiled limit reader inScope (of_decide_eq_true documents)) maxItemsRan
  have numbers := List.rel_append (List.rel_append (List.rel_append (List.rel_append (List.rel_append lowest highest) above) below) whole) places
  have texts := List.rel_append (List.rel_append (List.rel_append (List.rel_append numbers long) short) visible) formatted
  exact List.rel_append (List.rel_append (List.rel_append texts matched) documents) few

end Rules

/-! ## A field of numbers -/

def amountField (rules : FieldRules) : FieldContract := { name := "amount", fieldType := "number", rules }

def amountFields (ty : Ty) : Fields := fun _ => some ⟨ty, false, []⟩

def plainLiterals : Literals := ⟨fun _ => false, fun _ => none, fun _ => none, fun _ => .ok ()⟩

/-- The tree of a `minimum`. -/
def atLeast (digits : String) : Expr :=
  .binary .and (.binary .ge (.field "amount") (.number digits.toList)) (.finite (.field "amount") false)

theorem decimalValue_half : decimalValue "0.5" = some (1 / 2) := by
  have digits : decimalValue "0.5" = some (withSign false (((5 : Nat) : ℚ) / 10 ^ 1 * 10 ^ (0 : ℤ))) := rfl
  rw [digits]
  norm_num [withSign]

theorem finiteF64_half : Json.finiteF64 "0.5" = some (1 / 2) := by
  refine Json.finiteF64_eq_some.mpr ⟨1 / 2, decimalValue_half, BinaryFormat.nearest_of_represents ?_⟩
  exact ⟨1, -1, by norm_num [binary64], by decide, by decide, by norm_num⟩

/-- A reader that knows one half besides the integers. -/
def halves : NumberReader where
  read text := if text = "0.5" then some text else wholeNumbers.read text
  whole int low high := by
    rw [if_neg]
    · exact wholeNumbers.whole int low high
    · intro same
      have signed := signedValue_ofInt int
      rw [same] at signed
      cases signed
  double text printed read := by
    split at read
    next half =>
      cases read
      exact .inr ⟨half ▸ rfl, half ▸ isSome_iff_exists.mpr ⟨_, finiteF64_half⟩⟩
    next => exact wholeNumbers.double text printed read
  numeric text printed read := by
    split at read
    next half =>
      cases read
      exact half ▸ ⟨rfl, rfl⟩
    next => exact wholeNumbers.numeric text printed read
  grammar text printed int read signed := by
    split at read
    next half =>
      rw [half] at signed
      cases signed
    next => exact wholeNumbers.grammar text printed int read signed

theorem prints_id : Prints halves id := by
  intro text double reads
  obtain ⟨printed, read, finite⟩ := bind_eq_some_iff.mp reads
  have same : printed = text := by
    obtain ⟨-, -, -, -, kept⟩ | ⟨unsigned, -⟩ := Json.kept_cases read
    · exact kept
    · have half : (if text = "0.5" then some text else wholeNumbers.read text) = some printed := read
      split at half
      next => exact (some.inj half).symm
      next =>
        obtain ⟨int, signed, read⟩ := bind_eq_some_iff.mp half
        exact (some.inj (ite_none_right_eq_some.mp read).2).symm
  exact Json.finiteF64_eq_some.mp (same ▸ finite)

theorem compile_means_half : ∃ out, compile plainLiterals id (amountFields .float)
      (amountField { minimum := some (.number "0.5".toList), integer := true }) .float = .ok out ∧
    List.Forall₂ (Compiled halves plainLiterals (amountFields .float)
      (amountField { minimum := some (.number "0.5".toList), integer := true }) .float)
      [.bound .ge (.number "0.5".toList), .integer] out := by
  refine ⟨_, rfl, @compile_means halves plainLiterals id (amountFields .float) _ ⟨.float, false, []⟩ _ prints_id rfl ?_ rfl⟩
  intro text mem
  have among : some (Json.number text) = some (.number "0.5".toList) ∨ some (Json.number text) ∈ [none, none, none] :=
    List.mem_cons.mp mem
  obtain same | absent := among
  · rw [Json.number.inj (Option.some.inj same)]
    exact ⟨1 / 2, Option.bind_eq_some_iff.mpr ⟨_, rfl, finiteF64_half⟩⟩
  · simp at absent

theorem nearest_odd : binary64.nearest 9007199254740993 = .finite 9007199254740992 := by
  have magnitude : Int.log 2 |(9007199254740993 : ℚ)| = 53 := by
    have counted := Int.log_natCast (R := ℚ) 2 9007199254740993
    rw [Nat.log_eq_of_pow_le_of_lt_pow (m := 53) (by norm_num) (by norm_num)] at counted
    rw [abs_of_pos (by norm_num)]
    exact_mod_cast counted
  have place : binary64.lastPlace 9007199254740993 = 1 := by
    unfold BinaryFormat.lastPlace
    rw [magnitude]
    rfl
  have tie : roundHalfEven (9007199254740993 / 2) = 4503599627370496 := by
    have even := roundHalfEven_add_half 4503599627370496
    norm_num at even
    exact even
  have fits : binary64.Represents 9007199254740992 :=
    ⟨4503599627370496, 1, by norm_num [binary64], by decide, by decide, by norm_num⟩
  have rounded : ((4503599627370496 : ℤ) : ℚ) * 2 = 9007199254740992 := by norm_num
  unfold BinaryFormat.nearest
  simp only [place, zpow_one, tie, rounded, if_pos fits.lt_limit]

/-- What a `minimum` says of a double. -/
theorem eval_atLeast {digits : String} {double : ℚ} (read : decimalValue digits.toList = some number)
    (rounded : binary64.nearest number = .finite double) :
    eval (fun _ _ => false) (fun _ => some (.float x)) (atLeast digits) =
      some (some (.bool (holds .ge x (.finite double) && x.isFinite))) := by
  obtain ⟨scale, literal⟩ := (@literal_number plainLiterals (amountFields .float) _ _ read).value
    (fun _ _ => false) (fun _ => some (.float x))
  have compared : compareValues .ge (.float x) (.numeric (.finite number) scale) = some (holds .ge x (.finite double)) := by
    show some (holds .ge x (Number.finite number).toDouble) = _
    rw [Number.toDouble_of_nearest rounded]
  refine (eval_and (eval_compared rfl rfl literal compared) (eval_guard rfl (guardValue_float x))).trans ?_
  rw [Truth.and_some]
  rfl

/-- A literal can be another number than the declared one, a value below a bound can pass,
    infinity meets no bound, and items of an object are not counted. -/
theorem compile_approximates :
    (compile plainLiterals (fun _ => "0.1".toList) (amountFields .float)
        (amountField { minimum := some (.number "0.1000000000000000055".toList) }) .float = .ok [⟨"min".toList, atLeast "0.1"⟩] ∧
      decimalValue "0.1".toList ≠ decimalValue "0.1000000000000000055".toList) ∧
    (compile plainLiterals id (amountFields .float) (amountField { minimum := some (.number "9007199254740993".toList) }) .float =
        .ok [⟨"min".toList, atLeast "9007199254740993"⟩] ∧
      eval (fun _ _ => false) (fun _ => some (.float (.finite 9007199254740992))) (atLeast "9007199254740993") =
        some (some (.bool true)) ∧
      decimalValue "9007199254740993".toList = some 9007199254740993 ∧ ¬(9007199254740993 : ℚ) ≤ 9007199254740992) ∧
    (compile plainLiterals id (amountFields .float) (amountField { minimum := some (.number "0".toList) }) .float =
        .ok [⟨"min".toList, atLeast "0"⟩] ∧
      eval (fun _ _ => false) (fun _ => some (.float (.infinite false))) (atLeast "0") = some (some (.bool false)) ∧
      holds .ge (.infinite false) (.finite 0) = true) ∧
    ∃ tree, compile plainLiterals id (amountFields .json) (amountField { maxItems := some 2 }) .json =
        .ok [⟨"maxitems".toList, tree⟩] ∧
      eval (fun _ _ => false) (fun _ => some (.json (.obj []))) tree = some none := by
  have odd : decimalValue "9007199254740993".toList = some 9007199254740993 := decimalValue_toDigits 9007199254740993
  have zero : decimalValue "0".toList = some 0 := decimalValue_toDigits 0
  refine ⟨⟨rfl, ?_⟩, ⟨rfl, ?_, odd, by norm_num⟩, ⟨rfl, ?_, rfl⟩, ⟨_, rfl, ?_⟩⟩
  · have short : decimalValue "0.1".toList = some (withSign false (((1 : Nat) : ℚ) / 10 ^ 1 * 10 ^ (0 : ℤ))) := rfl
    have long : decimalValue "0.1000000000000000055".toList =
        some (withSign false (((1000000000000000055 : Nat) : ℚ) / 10 ^ 19 * 10 ^ (0 : ℤ))) := rfl
    rw [short, long]
    norm_num [withSign]
  · rw [eval_atLeast _ odd nearest_odd]
    simp [holds, Number.lt, Number.isFinite]
  · rw [eval_atLeast _ zero (BinaryFormat.nearest_of_represents BinaryFormat.represents_zero)]
    rfl
  · exact count_null 2 rfl (eval_call rfl rfl)

end RootCx.Rules.Shorthand
