import RootCx.Crud.Meaning

/-! # The compiler follows the meaning

For every accepted filter there is a conjunction whose text is the text the
compiler returns.  It means what the filter means once the placeholders are
supplied with the filter's operands, and it has a hole exactly where a field is
left without a condition.  The values the compiler binds are the operands, with
the empty string for a null.
-/

namespace RootCx.Crud

open RootCx.Text RootCx.Postgres List

/-- The placeholders behind `start` stand for the operands. -/
def Supplies (params : Nat → Option Text) (start : Nat) (operands : List (Option Text)) : Prop :=
  ∀ i operand, operands[i]? = some operand → params (start + 1 + i) = operand

theorem Supplies.left {params : Nat → Option Text} {start : Nat} {front rest : List (Option Text)}
    (supplies : Supplies params start (front ++ rest)) : Supplies params start front := by
  intro i operand found
  obtain ⟨inside, -⟩ := List.getElem?_eq_some_iff.mp found
  exact supplies i operand (by rw [getElem?_append_left inside, found])

theorem Supplies.right {params : Nat → Option Text} {start : Nat} {front rest : List (Option Text)}
    (supplies : Supplies params start (front ++ rest)) : Supplies params (start + front.length) rest := by
  intro i operand found
  have index : start + front.length + 1 + i = start + 1 + (front.length + i) := by omega
  rw [index]
  exact supplies (front.length + i) operand
    (by rw [getElem?_append_right (Nat.le_add_right _ _), Nat.add_sub_cancel_left, found])

/-- The state behind a step that bound `operands`. -/
def Binds.after (st : Binds) (operands : List (Option Text)) : Binds :=
  ⟨st.binds ++ operands.map (·.getD []), st.idx + operands.length⟩

@[simp] theorem after_nil (st : Binds) : st.after [] = st := by
  simp [Binds.after]

theorem after_append (st : Binds) (front rest : List (Option Text)) :
    st.after (front ++ rest) = (st.after front).after rest := by
  simp [Binds.after, Nat.add_assoc]

/-! ## Placeholders -/

def placeholder (cast : Option Cast) (index : Nat) : Scalar := ⟨.param index, cast⟩

theorem operandText_getD (operand : Json) : (operandText operand).getD [] = jsonValueToString operand := by
  cases operand <;> rfl

variable {text : Text} {value : Except Text Text} {st st' : Binds} (cast : Option Cast) (start count : Nat)
  (name : Text) (negated : Bool)

theorem filterBindValue_ok {value : Json} {fieldType : Option FieldType}
    (ok : filterBindValue value fieldType = .ok text) : text = (operandText value).getD [] := by
  unfold filterBindValue at ok
  split at ok <;> cases ok
  exact (operandText_getD value).symm

theorem plain_ok {value : Json} (ok : (.ok (jsonValueToString value) : Except Text Text) = .ok text) :
    text = (operandText value).getD [] := by
  cases ok
  exact (operandText_getD value).symm

theorem bindNext_ok (ran : bindNext value st = .ok (text, st')) :
    ∃ bound, value = .ok bound ∧ text = '$' :: Nat.toDigits 10 (st.idx + 1) ∧ st' = st.after [some bound] := by
  unfold bindNext at ran
  split at ran <;> cases ran
  exact ⟨_, rfl, rfl, rfl⟩

theorem bindNext_operand {operand : Option Text} (ran : bindNext value st = .ok (text, st'))
    (bound : ∀ text, value = .ok text → text = operand.getD []) :
    text = '$' :: Nat.toDigits 10 (st.idx + 1) ∧ st' = st.after [operand] := by
  obtain ⟨value, ok, rfl, rfl⟩ := bindNext_ok ran
  refine ⟨rfl, ?_⟩
  rw [bound value ok]
  rfl

/-- The placeholders of `count` operands. -/
def placeholders (cast : Option Cast) : Nat → Nat → List Scalar
  | _, 0 => []
  | start, count + 1 => placeholder cast (start + 1) :: placeholders cast (start + 1) count

theorem placeholders_columns : (placeholders cast start count).flatMap Scalar.columns = [] := by
  induction count generalizing start with
  | zero => rfl
  | succ count ih => rw [placeholders, flatMap_cons, ih]; rfl

/-- The text of a scalar without its cast. -/
def bareText (value : Scalar) : Text := value.source.body.text

theorem render_scalar (space : Bool) (value : Scalar) :
    render (scalarPieces space value) = leading space ++ bareText value ++ render (castPieces value.cast) := by
  rw [scalarPieces, render_cons, render_piece]
  rfl

theorem bindAll_ok {value : Json → Except Text Text}
    (bound : ∀ item text, value item = .ok text → text = (operandText item).getD []) {items : List Json}
    {texts : List Text} (cast : Option Cast) (ran : bindAll value items st = .ok (texts, st')) :
    texts = (placeholders cast st.idx items.length).map bareText ∧ st' = st.after (items.map operandText) := by
  induction items generalizing st st' texts with
  | nil =>
    obtain ⟨rfl, rfl⟩ := stateT_pure_ok.mp ran
    exact ⟨rfl, (after_nil st).symm⟩
  | cons item items ih =>
    obtain ⟨first, st₁, one, ran⟩ := stateT_bind_ok.mp ran
    obtain ⟨others, st₂, many, ran⟩ := stateT_bind_ok.mp ran
    obtain ⟨rfl, rfl⟩ := stateT_pure_ok.mp ran
    obtain ⟨rfl, rfl⟩ := bindNext_operand one (bound item)
    obtain ⟨rfl, rfl⟩ := ih many
    exact ⟨rfl, (after_append st [operandText item] (items.map operandText)).symm⟩

theorem render_list (values : List Scalar) (same : ∀ value ∈ values, value.cast = cast) :
    render (listPieces values) =
      join ", ".toList ((values.map bareText).map (· ++ render (castPieces cast))) := by
  cases values with
  | nil => rfl
  | cons value values =>
    have first := same value (by simp)
    have others (values : List Scalar) (same : ∀ value ∈ values, value.cast = cast) :
        render (itemPieces values) =
          ((values.map bareText).map (· ++ render (castPieces cast))).flatMap (", ".toList ++ ·) := by
      induction values with
      | nil => rfl
      | cons value values ih =>
        rw [itemPieces, render_cons, render_append, render_scalar, same value (by simp),
          ih fun value mem => same value (by simp [mem])]
        simp [glued, Piece.text, Body.text, leading]
    rw [listPieces, render_append, render_scalar, first, others values fun value mem =>
      same value (by simp [mem]), map_cons, map_cons, join_cons]
    rfl

theorem cast_placeholders : ∀ value ∈ placeholders cast start count, value.cast = cast := by
  induction count generalizing start with
  | zero => exact fun _ mem => nomatch mem
  | succ count ih =>
    intro value mem
    obtain rfl | older := mem_cons.mp mem
    · rfl
    · exact ih (start + 1) value older

theorem pgCastSuffix_eq (fieldType : Option FieldType) :
    pgCastSuffix fieldType = render (castPieces (castOf fieldType)) := by
  cases fieldType with
  | none => rfl
  | some fieldType => cases fieldType <;> rfl

/-! ## Evaluating placeholders -/

section Evaluation

variable {server : Server} {row : Text → Option server.Value} {params : Nat → Option Text} {start : Nat}

theorem eval_placeholder {operand : Option Text} {cast : Option Cast}
    (supplies : Supplies params start [operand]) :
    (placeholder cast (start + 1)).eval server row params = operandValue server cast operand := by
  have value : params (start + 1) = operand := supplies 0 operand rfl
  rw [← value]
  rfl

theorem eval_placeholders {items : List Json} {cast : Option Cast}
    (supplies : Supplies params start (items.map operandText)) :
    (placeholders cast start items.length).map (fun item => item.eval server row params) =
      items.map fun item => operandValue server cast (operandText item) := by
  induction items generalizing start with
  | nil => rfl
  | cons item items ih =>
    have first : Supplies params start [operandText item] :=
      @Supplies.left params start [operandText item] (items.map operandText) supplies
    have others : Supplies params (start + 1) (items.map operandText) :=
      @Supplies.right params start [operandText item] (items.map operandText) supplies
    rw [length_cons, placeholders, map_cons, eval_placeholder first, ih others,
      map_cons]

end Evaluation

/-! ## One operator -/

/-- The column of a field. -/
def columnOf (name : Text) : Scalar := ⟨.column name, none⟩

/-- The conditions an operator pushes. -/
def operatorAtoms (fieldType : Option FieldType) (name : Text) (start : Nat) : Operator → List Atom
  | .equality negated operand =>
    if operand.isNull then [.test (.isNull (columnOf name) negated)]
    else [.test (.compare (if negated then .ne else .eq) (columnOf name)
      (.scalar (placeholder (castOf fieldType) (start + 1))))]
  | .comparison op _ =>
    [.test (.compare op (columnOf name) (.scalar (placeholder (castOf fieldType) (start + 1))))]
  | .pattern op _ =>
    [.test (.compare op ⟨.column name, if isJsonbType fieldType then some .text else none⟩
      (.scalar (placeholder none (start + 1))))]
  | .membership negated items =>
    if items.isEmpty then [.const negated]
    else [.test (.inList (columnOf name) (placeholders (castOf fieldType) start items.length) negated)]
  | .contains items =>
    if items.isEmpty then []
    else if isJsonbType fieldType then
      [.test (.compare .contains (columnOf name) (.scalar (placeholder (some .jsonb) (start + 1))))]
    else [.test (.compare .contains (columnOf name)
      (.array (placeholders none start items.length) (castOf fieldType)))]
  | .isNull negated => [.test (.isNull (columnOf name) negated)]
  | .object _ =>
    [.test (.compare .eq (columnOf name) (.scalar (placeholder (some .jsonb) (start + 1))))]

/-- What the conditions of an operator have to do with it. -/
structure OperatorCompiled (fieldType : Option FieldType) (name : Text) (start : Nat) (operator : Operator)
    (atoms : List Atom) : Prop where
  full : ∀ atom ∈ atoms, atom.Full
  complete : ∀ atom ∈ atoms, atom.complete = true
  columns : conjColumns atoms = if operator.looks then [name] else []
  empty : atoms.isEmpty = operator.vanishes
  holds : ∀ (server : Server) (row : Text → Option server.Value) (params : Nat → Option Text),
    Supplies params start (operator.operands fieldType) →
    Truth.all (atoms.map (Atom.eval server row params)) = operator.holds server fieldType (row name)

theorem OperatorCompiled.test {fieldType : Option FieldType} {name : Text} {start : Nat} {operator : Operator}
    {test : Test} (full : test.Full) (columns : test.columns = [name]) (looks : operator.looks = true)
    (vanishes : operator.vanishes = false)
    (holds : ∀ (server : Server) (row : Text → Option server.Value) (params : Nat → Option Text),
      Supplies params start (operator.operands fieldType) →
      test.eval server row params = operator.holds server fieldType (row name)) :
    OperatorCompiled fieldType name start operator [.test test] where
  full := by simpa [Atom.Full, Atom.fold] using full
  complete := by simp [Atom.complete, Atom.fold]
  columns := by simp [conjColumns, Atom.columns, Atom.fold, columns, looks]
  empty := vanishes.symm
  holds server row params supplies := by
    rw [← holds server row params supplies, map_singleton, Truth.all_cons, Truth.all_nil, Truth.and_true]
    rfl

theorem eval_columnOf {server : Server} {row : Text → Option server.Value} {params : Nat → Option Text} :
    (columnOf name).eval server row params = row name := by
  show (row name).map (castValue server none) = row name
  cases row name <;> rfl

theorem eval_isNull {server : Server} {row : Text → Option server.Value} {params : Nat → Option Text} :
    (Test.isNull (columnOf name) negated).eval server row params = some ((row name).isNone != negated) := by
  rw [Test.eval, eval_columnOf]
  cases negated <;> cases row name <;> rfl

theorem operatorAtoms_compiled (fieldType : Option FieldType) (name : Text) (start : Nat) (operator : Operator) :
    OperatorCompiled fieldType name start operator (operatorAtoms fieldType name start operator) := by
  cases operator with
  | equality negated operand =>
    cases null : operand.isNull with
    | true =>
      rw [operatorAtoms, if_pos null]
      refine .test (by exact trivial) rfl rfl rfl ?_
      intro server row params supplies
      rw [eval_isNull, Operator.holds, if_pos null]
    | false =>
      rw [operatorAtoms, if_neg (by simp [null])]
      refine .test (by exact trivial) rfl rfl rfl ?_
      intro server row params supplies
      rw [Operator.operands, if_neg (by simp [null])] at supplies
      rw [Test.eval, eval_columnOf, Term.eval, eval_placeholder supplies, Operator.holds, null]
      rfl
  | comparison op operand =>
    refine .test (by exact trivial) rfl rfl rfl ?_
    intro server row params supplies
    rw [Test.eval, eval_columnOf, Term.eval, eval_placeholder supplies, Operator.holds]
  | pattern op operand =>
    refine .test (by exact trivial) rfl rfl rfl ?_
    intro server row params supplies
    rw [Test.eval, Term.eval, eval_placeholder supplies, Operator.holds]
    cases isJsonbType fieldType with
    | true => rfl
    | false => exact congrArg (compareValues server op · _) (eval_columnOf name)
  | membership negated items =>
    cases items with
    | nil =>
      constructor
      case full => simp [operatorAtoms, Atom.Full, Atom.fold]
      case complete => simp [operatorAtoms, Atom.complete, Atom.fold]
      case columns => rfl
      case empty => rfl
      case holds => intro server row params supplies; cases negated <;> rfl
    | cons item items =>
      have listed (server : Server) (row : Text → Option server.Value) (params : Nat → Option Text)
          (supplies : Supplies params start ((item :: items).map operandText)) :=
        congrArg (map (compareValues server .eq (row name)))
          (@eval_placeholders server row params start (item :: items) (castOf fieldType) supplies)
      refine .test (by exact cons_ne_nil _ _) ?_ rfl rfl ?_
      · rw [Test.columns, placeholders_columns]
        rfl
      · intro server row params supplies
        specialize listed server row params supplies
        rw [map_map, map_map] at listed
        rw [Test.eval, eval_columnOf]
        exact congrArg (fun truths => negateIf negated (Truth.any truths)) listed
  | contains items =>
    cases items with
    | nil =>
      constructor
      case full => exact fun _ mem => absurd mem not_mem_nil
      case complete => exact fun _ mem => absurd mem not_mem_nil
      case columns => rfl
      case empty => rfl
      case holds => intro server row params supplies; rfl
    | cons item items =>
      cases json : isJsonbType fieldType with
      | true =>
        rw [operatorAtoms, if_neg (by simp), if_pos json]
        refine .test (by exact trivial) rfl rfl rfl ?_
        intro server row params supplies
        rw [Operator.operands, if_neg (by simp), if_pos json] at supplies
        rw [Test.eval, eval_columnOf, Term.eval, eval_placeholder supplies, Operator.holds, if_neg (by simp),
          if_pos json]
      | false =>
        rw [operatorAtoms, if_neg (by simp), if_neg (by simp [json])]
        refine .test (by exact cons_ne_nil _ _) ?_ rfl rfl ?_
        · rw [Test.columns, placeholders_columns]
          rfl
        · intro server row params supplies
          rw [Operator.operands, if_neg (by simp), if_neg (by simp [json])] at supplies
          rw [Test.eval, eval_columnOf, Term.eval, eval_placeholders supplies, Operator.holds, if_neg (by simp),
            if_neg (by simp [json])]
  | isNull negated =>
    refine .test (by exact trivial) rfl rfl rfl ?_
    intro server row params supplies
    rw [eval_isNull, Operator.holds]
  | object value =>
    refine .test (by exact trivial) rfl rfl rfl ?_
    intro server row params supplies
    rw [Test.eval, eval_columnOf, Term.eval, eval_placeholder supplies, Operator.holds]

/-! ## The texts an operator pushes -/

theorem text_test (test : Test) : (Atom.test test).text = render (testPieces test) := rfl

theorem render_columnOf (cast : Option Cast) :
    render (scalarPieces false ⟨.column name, cast⟩) = quoteIdent name ++ render (castPieces cast) := by
  rw [render_scalar]
  rfl

theorem render_placeholder (index : Nat) :
    render (scalarPieces true (placeholder cast index)) =
      " " ++ ('$' :: Nat.toDigits 10 index) ++ render (castPieces cast) := by
  rw [render_scalar]
  rfl

theorem text_compare (op : CompareOp) (name : Text) (cast cast' : Option Cast) (index : Nat) :
    (Atom.test (.compare op ⟨.column name, cast⟩ (.scalar (placeholder cast' index)))).text =
      quoteIdent name ++ render (castPieces cast) ++ (" " ++ op.body.text ++ " ") ++
        ('$' :: Nat.toDigits 10 index) ++ render (castPieces cast') := by
  rw [text_test, testPieces, render_append, render_columnOf, render_cons, render_piece, termPieces,
    render_placeholder]
  simp [spaced, leading]

theorem text_isNull :
    (Atom.test (.isNull (columnOf name) negated)).text =
      quoteIdent name ++ (if negated then " IS NOT NULL" else " IS NULL").toList := by
  rw [text_test, testPieces, render_append, columnOf, render_columnOf]
  cases negated <;> simp [castPieces, notPieces, render, Piece.text, Body.text, spaced]

theorem text_inList (cast : Option Cast) (start count : Nat) (negated : Bool) :
    (Atom.test (.inList (columnOf name) (placeholders cast start count) negated)).text =
      quoteIdent name ++ (if negated then " NOT IN (" else " IN (").toList ++
        join ", " (((placeholders cast start count).map bareText).map (· ++ render (castPieces cast))) ++
        ")" := by
  rw [text_test, testPieces, render_append, columnOf, render_columnOf, render_append, render_cons, render_cons,
    render_append, render_list cast _ (cast_placeholders cast start count)]
  cases negated <;>
    simp [castPieces, notPieces, render, Piece.text, Body.text, spaced, glued, openParen, closeParen]

theorem text_containsArray (cast : Option Cast) (start count : Nat) :
    (Atom.test (.compare .contains (columnOf name) (.array (placeholders none start count) cast))).text =
      quoteIdent name ++ " @> ARRAY[" ++ join ", " ((placeholders none start count).map bareText) ++
        "]" ++ render (castPieces cast) := by
  have bare (texts : List Text) : texts.map (· ++ render (castPieces none)) = texts := by
    simp [castPieces, render]
  rw [text_test, testPieces, render_append, columnOf, render_columnOf, render_cons, termPieces, render_cons,
    render_cons, render_append, render_cons, render_list none _ (cast_placeholders none start count), bare]
  simp [castPieces, render, Piece.text, Body.text, spaced, glued, CompareOp.body]

/-! ## Running an operator -/

/-- What is to be shown of the run of an operator. -/
def OperatorRan (fieldType : Option FieldType) (name : Text) (st : Binds) (operator : Option Operator)
    (pushed : List Text) (st' : Binds) : Prop :=
  ∃ found, operator = some found ∧ pushed = (operatorAtoms fieldType name st.idx found).map Atom.text ∧
    st' = st.after (found.operands fieldType)

section OperatorRuns

variable {fieldType : Option FieldType} {name : Text} {operand : Json} {st st' : Binds} {pushed : List Text}

theorem compare_ran {op : CompareOp} {cast cast' : Option Cast} {bound : Option Text} {suffix left : Text}
    (ran : (bindNext value >>= fun placeholder => pure [left ++ placeholder ++ suffix] : Build (List Text)) st =
      .ok (pushed, st')) (binds : ∀ text, value = .ok text → text = bound.getD [])
    (leftText : left = quoteIdent name ++ render (castPieces cast) ++ (" " ++ op.body.text ++ " "))
    (suffixText : suffix = render (castPieces cast')) :
    pushed = [(Atom.test (.compare op ⟨.column name, cast⟩ (.scalar (placeholder cast' (st.idx + 1))))).text] ∧
      st' = st.after [bound] := by
  obtain ⟨text, next, bindRan, done⟩ := stateT_bind_ok.mp ran
  obtain ⟨rfl, rfl⟩ := stateT_pure_ok.mp done
  obtain ⟨rfl, rfl⟩ := bindNext_operand bindRan binds
  exact ⟨by rw [text_compare, leftText, suffixText], rfl⟩

theorem equality_ran {negated : Bool}
    (ran : (if operand.isNull then pure [quoteIdent name ++ (if negated then " IS NOT NULL" else " IS NULL").toList]
      else do
        let placeholder ← bindNext (filterBindValue operand fieldType)
        pure [quoteIdent name ++ (if negated then " != " else " = ").toList ++ placeholder ++
          pgCastSuffix fieldType] : Build (List Text)) st = .ok (pushed, st')) :
    OperatorRan fieldType name st (some (.equality negated operand)) pushed st' := by
  refine ⟨_, rfl, ?_⟩
  rw [operatorAtoms, Operator.operands]
  cases null : operand.isNull with
  | true =>
    rw [if_pos null] at ran
    obtain ⟨rfl, rfl⟩ := stateT_pure_ok.mp ran
    exact ⟨by rw [if_pos rfl, map_singleton, text_isNull], (after_nil _).symm⟩
  | false =>
    rw [if_neg (by simp [null])] at ran
    rw [if_neg Bool.false_ne_true, if_neg Bool.false_ne_true]
    refine compare_ran ran (fun _ ok => filterBindValue_ok ok) ?_ (pgCastSuffix_eq fieldType)
    cases negated <;> simp [castPieces, render, CompareOp.body, Body.text]

theorem comparison_ran {op : CompareOp} {sqlOp : String} (same : op.body.text = sqlOp.toList)
    (ran : (do
      let placeholder ← bindNext (filterBindValue operand fieldType)
      pure [quoteIdent name ++ " " ++ sqlOp.toList ++ " " ++ placeholder ++
        pgCastSuffix fieldType] : Build (List Text)) st = .ok (pushed, st')) :
    OperatorRan fieldType name st (some (.comparison op operand)) pushed st' := by
  refine ⟨_, rfl, ?_⟩
  refine compare_ran ran (fun _ ok => filterBindValue_ok ok) ?_ (pgCastSuffix_eq fieldType)
  simp [castPieces, render, same]

theorem pattern_ran {op : CompareOp} {keyword : String} (same : op.body.text = keyword.toList)
    (ran : (do
      let placeholder ← bindNext (.ok (jsonValueToString operand))
      pure [(if isJsonbType fieldType then quoteIdent name ++ "::text" else quoteIdent name) ++
        " " ++ keyword.toList ++ " " ++ placeholder] : Build (List Text)) st = .ok (pushed, st')) :
    OperatorRan fieldType name st (some (.pattern op operand)) pushed st' := by
  obtain ⟨text, next, bindRan, done⟩ := stateT_bind_ok.mp ran
  obtain ⟨rfl, rfl⟩ := stateT_pure_ok.mp done
  obtain ⟨rfl, rfl⟩ := bindNext_operand bindRan fun _ => plain_ok
  refine ⟨.pattern op operand, rfl, ?_, rfl⟩
  rw [operatorAtoms, map_singleton, text_compare, same]
  cases isJsonbType fieldType with
  | true =>
    have cast : render (castPieces (some .text)) = "::text" := rfl
    rw [if_pos rfl, if_pos rfl, cast, castPieces]
    simp only [render, flatMap_nil, append_nil, append_assoc]
  | false =>
    rw [if_neg Bool.false_ne_true, if_neg Bool.false_ne_true, castPieces]
    simp only [render, flatMap_nil, append_nil, append_assoc]

theorem membership_ran {negated : Bool} {items : List Json}
    (ran : (if items.isEmpty then pure [(if negated then "TRUE" else "FALSE").toList]
      else do
        let placeholders ← bindAll (filterBindValue · fieldType) items
        pure [quoteIdent name ++ " " ++ (if negated then "NOT IN" else "IN").toList ++ " (" ++
          join ", " (placeholders.map (· ++ pgCastSuffix fieldType)) ++ ")"] :
        Build (List Text)) st = .ok (pushed, st')) :
    OperatorRan fieldType name st (some (.membership negated items)) pushed st' := by
  refine ⟨.membership negated items, rfl, ?_⟩
  rw [operatorAtoms, Operator.operands]
  cases items with
  | nil =>
    obtain ⟨rfl, rfl⟩ := stateT_pure_ok.mp ran
    exact ⟨rfl, (after_nil _).symm⟩
  | cons item items =>
    obtain ⟨texts, next, bound, done⟩ := stateT_bind_ok.mp ran
    obtain ⟨rfl, rfl⟩ := stateT_pure_ok.mp done
    obtain ⟨rfl, rfl⟩ := bindAll_ok (fun _ _ => filterBindValue_ok) (castOf fieldType) bound
    refine ⟨?_, rfl⟩
    rw [isEmpty_cons, if_neg Bool.false_ne_true, map_singleton, text_inList, pgCastSuffix_eq]
    cases negated <;> simp only [append_assoc] <;> rfl

theorem contains_ran {items : List Json}
    (ran : (if items.isEmpty then pure []
      else if isJsonbType fieldType then do
        let placeholder ← bindNext (.ok (Json.arr items).compact)
        pure [quoteIdent name ++ " @> " ++ placeholder ++ "::jsonb"]
      else do
        let placeholders ← bindAll (fun item => .ok (jsonValueToString item)) items
        pure [quoteIdent name ++ " @> ARRAY[" ++ join ", " placeholders ++ "]" ++
          pgCastSuffix fieldType] : Build (List Text)) st = .ok (pushed, st')) :
    OperatorRan fieldType name st (some (.contains items)) pushed st' := by
  refine ⟨.contains items, rfl, ?_⟩
  rw [operatorAtoms, Operator.operands]
  cases items with
  | nil =>
    obtain ⟨rfl, rfl⟩ := stateT_pure_ok.mp ran
    exact ⟨rfl, (after_nil _).symm⟩
  | cons item items =>
    rw [isEmpty_cons, if_neg Bool.false_ne_true] at ran
    rw [isEmpty_cons, if_neg Bool.false_ne_true, if_neg Bool.false_ne_true]
    cases json : isJsonbType fieldType with
    | true =>
      rw [if_pos json] at ran
      rw [if_pos rfl, if_pos rfl]
      refine compare_ran ran (fun _ ok => ?_) ?_ rfl
      · cases ok
        rfl
      · simp only [castPieces, render, flatMap_nil, append_nil]
        rfl
    | false =>
      rw [if_neg (by simp [json])] at ran
      rw [if_neg Bool.false_ne_true, if_neg Bool.false_ne_true]
      obtain ⟨texts, next, bound, done⟩ := stateT_bind_ok.mp ran
      obtain ⟨rfl, rfl⟩ := stateT_pure_ok.mp done
      obtain ⟨rfl, rfl⟩ := bindAll_ok (fun _ _ => plain_ok) none bound
      exact ⟨by rw [map_singleton, text_containsArray, pgCastSuffix_eq], rfl⟩

theorem operatorCondition_ran {op : Text}
    (ran : operatorCondition (quoteIdent name) fieldType op operand st = .ok (pushed, st')) :
    OperatorRan fieldType name st (operatorOf op operand) pushed st' := by
  simp only [operatorCondition] at ran
  -- the names of the operators in the order in which the source tries them
  by_cases isEq : op = "$eq".toList
  · rw [if_pos isEq] at ran
    subst isEq
    exact @equality_ran _ _ _ _ _ _ false ran
  by_cases isNe : op = "$ne".toList
  · rw [if_neg isEq, if_pos isNe] at ran
    subst isNe
    exact @equality_ran _ _ _ _ _ _ true ran
  rw [if_neg isEq, if_neg isNe] at ran
  by_cases isComparison : op ∈ ["$gt".toList, "$gte".toList, "$lt".toList, "$lte".toList]
  · rw [if_pos isComparison] at ran
    simp only [mem_cons, not_mem_nil, or_false] at isComparison
    obtain rfl | rfl | rfl | rfl := isComparison
    · exact @comparison_ran _ _ _ _ _ _ .gt ">" rfl ran
    · exact @comparison_ran _ _ _ _ _ _ .gte ">=" rfl ran
    · exact @comparison_ran _ _ _ _ _ _ .lt "<" rfl ran
    · exact @comparison_ran _ _ _ _ _ _ .lte "<=" rfl ran
  by_cases isPattern : op = "$like".toList ∨ op = "$ilike".toList
  · rw [if_neg isComparison, if_pos isPattern] at ran
    obtain rfl | rfl := isPattern
    · exact @pattern_ran _ _ _ _ _ _ .like "LIKE" rfl ran
    · exact @pattern_ran _ _ _ _ _ _ .ilike "ILIKE" rfl ran
  rw [if_neg isComparison, if_neg isPattern] at ran
  by_cases isMembership : op = "$in".toList ∨ op = "$nin".toList
  · rw [if_pos isMembership] at ran
    cases operand with
    | arr items =>
      obtain rfl | rfl := isMembership
      · exact @membership_ran _ _ _ _ _ false items ran
      · exact @membership_ran _ _ _ _ _ true items ran
    | null => cases ran
    | bool value => cases ran
    | number text => cases ran
    | str value => cases ran
    | obj entries => cases ran
  by_cases isContains : op = "$contains".toList
  · rw [if_neg isMembership, if_pos isContains] at ran
    subst isContains
    cases operand with
    | arr items => exact contains_ran ran
    | null => cases ran
    | bool value => cases ran
    | number text => cases ran
    | str value => cases ran
    | obj entries => cases ran
  by_cases isIsNull : op = "$isNull".toList
  · rw [if_neg isMembership, if_neg isContains, if_pos isIsNull] at ran
    subst isIsNull
    obtain ⟨rfl, rfl⟩ := stateT_pure_ok.mp ran
    refine ⟨.isNull !(operand.asBool.getD true), rfl, ?_, (after_nil _).symm⟩
    rw [operatorAtoms, map_singleton, text_isNull]
    cases operand.asBool.getD true <;> rfl
  · rw [if_neg isMembership, if_neg isContains, if_neg isIsNull] at ran
    cases ran

end OperatorRuns

end RootCx.Crud
