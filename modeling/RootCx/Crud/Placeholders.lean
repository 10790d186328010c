import RootCx.Crud.Federated
import RootCx.Postgres.Placeholders

/-! # The placeholders of a filter

The text of a filter, the values it binds and the counter stay in step: its
placeholders are the numbers behind the counter, in order, one for each operand,
and so are those of the members of a federated query, which share one list of
values.
-/

namespace RootCx.Crud

open RootCx.Text RootCx.Postgres RootCx.RowAccess List

/-! ## One operator -/

/-- The texts have these placeholders, one after the other. -/
def NumbersAll (texts : List Text) (numbers : List Nat) : Prop :=
  ∃ each : List (List Nat), List.Forall₂ Numbers texts each ∧ each.flatten = numbers

theorem NumbersAll.nil : NumbersAll [] [] := ⟨[], .nil, rfl⟩

variable {text front : Text} (name : Text)

theorem NumbersAll.single {numbers : List Nat} (counted : Numbers text numbers) :
    NumbersAll [text] numbers := ⟨[numbers], .cons counted .nil, by simp⟩

theorem NumbersAll.cons {text : Text} {texts : List Text} {numbers others : List Nat} (counted : Numbers text numbers)
    (further : NumbersAll texts others) : NumbersAll (text :: texts) (numbers ++ others) := by
  obtain ⟨each, all, rfl⟩ := further
  exact ⟨numbers :: each, .cons counted all, rfl⟩

theorem NumbersAll.append {texts more : List Text} {numbers others : List Nat} (counted : NumbersAll texts numbers)
    (further : NumbersAll more others) : NumbersAll (texts ++ more) (numbers ++ others) := by
  obtain ⟨each, all, rfl⟩ := counted
  obtain ⟨rest, behind, rfl⟩ := further
  exact ⟨each ++ rest, rel_append all behind, flatten_append⟩

theorem NumbersAll.flatMap {separator : Text} (plain : Numbers separator []) {texts : List Text} {numbers : List Nat}
    (counted : NumbersAll texts numbers) : Numbers (texts.flatMap (separator ++ ·)) numbers := by
  obtain ⟨each, all, rfl⟩ := counted
  induction all with
  | nil => exact numbers_nil
  | cons first _ ih => exact (plain.append first).append ih

theorem NumbersAll.join {separator : Text} (plain : Numbers separator []) {texts : List Text} {numbers : List Nat}
    (counted : NumbersAll texts numbers) : Numbers (join separator texts) numbers := by
  obtain ⟨each, all, rfl⟩ := counted
  cases all with
  | nil => exact numbers_nil
  | cons first rest =>
    rw [join_cons]
    exact first.append (NumbersAll.flatMap plain ⟨_, rest, rfl⟩)

theorem numbers_cast (cast : Option Cast) : Numbers (render (castPieces cast)) [] := by
  cases cast with
  | none => exact numbers_nil
  | some cast => cases cast <;> exact numbers_plain (by decide) (by decide)

theorem numbers_bound (plain : Unmarked front) (calm : Calm front) (visible : front ≠ [])
    (apart : front.getLast?.any isIdentCont = false) (index : Nat) (cast : Option Cast) :
    Numbers (front ++ '$' :: Nat.toDigits 10 index ++ render (castPieces cast)) [index] :=
  (numbers_placeholder plain calm visible apart index).append (numbers_cast cast)

theorem numbers_list (plain : Unmarked front) (calm : Calm front) (visible : front ≠ [])
    (apart : front.getLast?.any isIdentCont = false) (start count : Nat) (cast : Option Cast) :
    Numbers (front ++ join ", " (((placeholders cast start count).map bareText).map (· ++ render (castPieces cast))))
      (range' (start + 1) count) := by
  have others (start count : Nat) :
      Numbers ((((placeholders cast start count).map bareText).map (· ++ render (castPieces cast))).flatMap
        (", " ++ ·)) (range' (start + 1) count) := by
    induction count generalizing start with
    | zero => exact numbers_nil
    | succ count ih =>
      rw [placeholders, map_cons, map_cons, flatMap_cons, ← append_assoc]
      exact (numbers_bound (by decide) (by decide) (by decide) (by decide) (start + 1) cast).append
        (ih (start + 1))
  cases count with
  | zero =>
    rw [placeholders, map_nil, map_nil, show join ", " [] = [] from rfl, append_nil]
    exact numbers_plain plain calm
  | succ count =>
    rw [placeholders, map_cons, map_cons, join_cons, ← append_assoc, ← append_assoc]
    exact (numbers_bound plain calm visible apart (start + 1) cast).append (others (start + 1) count)

theorem numbers_compare (op : CompareOp) (name : Text) (cast cast' : Option Cast) (index : Nat) :
    Numbers (Atom.test (.compare op ⟨.column name, cast⟩ (.scalar (placeholder cast' index)))).text [index] := by
  have front := (numbers_quoteIdent name).append (numbers_cast cast)
  rw [text_compare]
  have bound : Numbers (quoteIdent name ++ render (castPieces cast) ++ (" " ++ op.body.text ++ " ") ++
      '$' :: Nat.toDigits 10 index) [index] := by
    cases op <;> exact front.placeholder (by decide) (by decide) (by decide) (by decide) index
  exact bound.append (numbers_cast cast')

theorem numbers_isNull (negated : Bool) : Numbers (Atom.test (.isNull (columnOf name) negated)).text [] := by
  rw [text_isNull]
  exact (numbers_quoteIdent name).append (by cases negated <;> exact numbers_plain (by decide) (by decide))

theorem numbers_inList (cast : Option Cast) (start count : Nat) (negated : Bool) :
    Numbers (Atom.test (.inList (columnOf name) (placeholders cast start count) negated)).text
      (range' (start + 1) count) := by
  have closing : Numbers ")" [] := numbers_plain (by decide) (by decide)
  have listed : Numbers (quoteIdent name ++ (if negated then " NOT IN (" else " IN (").toList ++
      join ", " (((placeholders cast start count).map bareText).map (· ++ render (castPieces cast))))
      (range' (start + 1) count) := by
    rw [append_assoc]
    refine (numbers_quoteIdent name).append ?_
    cases negated <;> exact numbers_list (by decide) (by decide) (by decide) (by decide) start count cast
  have whole := listed.append closing
  rwa [append_nil, ← text_inList] at whole

theorem numbers_containsArray (cast : Option Cast) (start count : Nat) :
    Numbers (Atom.test (.compare .contains (columnOf name) (.array (placeholders none start count) cast))).text
      (range' (start + 1) count) := by
  have closing : Numbers "]" [] := numbers_plain (by decide) (by decide)
  have bare : ((placeholders none start count).map bareText).map (· ++ render (castPieces none)) =
      (placeholders none start count).map bareText := by
    simp [castPieces, render]
  have listed : Numbers (quoteIdent name ++ " @> ARRAY[" ++ join ", " ((placeholders none start count).map bareText))
      (range' (start + 1) count) := by
    rw [← bare, append_assoc]
    exact (numbers_quoteIdent name).append (numbers_list (by decide) (by decide) (by decide) (by decide) start count none)
  have whole := (listed.append closing).append (numbers_cast cast)
  rwa [append_nil, append_nil, ← text_containsArray] at whole

/-- The conditions of an operator have a placeholder for each of its operands. -/
theorem operatorAtoms_numbers (fieldType : Option FieldType) (name : Text) (start : Nat) (operator : Operator) :
    NumbersAll ((operatorAtoms fieldType name start operator).map Atom.text)
      (range' (start + 1) (operator.operands fieldType).length) := by
  cases operator with
  | equality negated operand =>
    rw [operatorAtoms, Operator.operands]
    split
    · exact .single (numbers_isNull name negated)
    · exact .single (numbers_compare _ name none _ _)
  | comparison op operand => exact .single (numbers_compare op name none _ _)
  | pattern op operand => exact .single (numbers_compare op name _ none _)
  | membership negated items =>
    rw [operatorAtoms, Operator.operands, length_map]
    split
    case isTrue empty =>
      rw [List.isEmpty_iff.mp empty]
      exact .single (numbers_plain (by cases negated <;> decide) (by cases negated <;> decide))
    case isFalse => exact .single (numbers_inList name _ start items.length negated)
  | contains items =>
    rw [operatorAtoms, Operator.operands]
    split
    · exact .nil
    · split
      · exact .single (numbers_compare .contains name none _ _)
      · rw [length_map]
        exact .single (numbers_containsArray name _ start items.length)
  | isNull negated => exact .single (numbers_isNull name negated)
  | object value => exact .single (numbers_compare .eq name none _ _)

theorem operatorsAtoms_numbers (fieldType : Option FieldType) (name : Text) (start : Nat) (operators : List Operator) :
    NumbersAll ((operatorsAtoms fieldType name start operators).map Atom.text)
      (range' (start + 1) (operators.flatMap (Operator.operands fieldType)).length) := by
  induction operators generalizing start with
  | nil => exact .nil
  | cons operator operators ih =>
    have behind := ih (start + (operator.operands fieldType).length)
    have whole := (operatorAtoms_numbers fieldType name start operator).append behind
    rw [Nat.add_right_comm, range'_append_1] at whole
    rw [operatorsAtoms, map_append, flatMap_cons, length_append]
    exact whole

/-! ## Filters -/

/-- The placeholders of a text are the numbers by which the counter went up. -/
def Counted (st : Binds) (text : Text) (st' : Binds) : Prop :=
  ∃ count, Numbers text (range' (st.idx + 1) count) ∧ st'.idx = st.idx + count

def CountedAll (st : Binds) (texts : List Text) (st' : Binds) : Prop :=
  ∃ count, NumbersAll texts (range' (st.idx + 1) count) ∧ st'.idx = st.idx + count

theorem CountedAll.nil (st : Binds) : CountedAll st [] st := ⟨0, .nil, rfl⟩

theorem CountedAll.cons {st st₁ st' : Binds} {text : Text} {texts : List Text} (first : Counted st text st₁)
    (rest : CountedAll st₁ texts st') : CountedAll st (text :: texts) st' := by
  obtain ⟨count, numbers, moved⟩ := first
  obtain ⟨more, others, moved'⟩ := rest
  refine ⟨count + more, ?_, by rw [moved', moved, Nat.add_assoc]⟩
  have whole := NumbersAll.cons numbers others
  rwa [moved, Nat.add_right_comm, range'_append_1] at whole

theorem Counted.wrap {st st' : Binds} {behind : Text} (before : Numbers front [])
    (counted : Counted st text st') (after : Numbers behind []) :
    Counted st (front ++ text ++ behind) st' := by
  obtain ⟨count, numbers, moved⟩ := counted
  have whole := (before.append numbers).append after
  rw [nil_append, append_nil] at whole
  exact ⟨count, whole, moved⟩

theorem CountedAll.join {st st' : Binds} {separator : Text} (plain : Numbers separator []) {wrap : Text → Text}
    (wraps : ∀ text, Counted st text st' → Counted st (wrap text) st') {texts : List Text}
    (counted : CountedAll st texts st') : Counted st (joinParts separator wrap texts) st' := by
  obtain ⟨count, numbers, moved⟩ := counted
  unfold joinParts
  split
  case isTrue empty =>
    obtain rfl := List.isEmpty_iff.mp empty
    obtain ⟨each, all, same⟩ := numbers
    cases all
    exact ⟨count, same ▸ numbers_plain (by decide) (by decide), moved⟩
  case isFalse => exact wraps _ ⟨count, numbers.join plain, moved⟩

theorem buildFieldCondition_counted {types : FieldTypes} {name : Text} {value : Json} {st st' : Binds}
    (ran : buildFieldCondition types name value st = .ok (text, st')) : Counted st text st' := by
  obtain ⟨rfl, rfl⟩ := buildFieldCondition_text ran
  refine ⟨_, ?_, rfl⟩
  rw [conjText_fieldAtoms]
  exact (operatorsAtoms_numbers _ name st.idx _).join (numbers_plain (by decide) (by decide))

theorem clause_counted (types : FieldTypes) (clause : Json) {st st' : Binds} {text : Text}
    (accepted : buildWhereClause types clause st = .ok (text, st')) : Counted st text st' := by
  have parens {st st' : Binds} (text : Text) (counted : Counted st text st') :
      Counted st ("(" ++ text ++ ")") st' :=
    .wrap (numbers_plain (by decide) (by decide)) counted (numbers_plain (by decide) (by decide))
  have closed : Closed types (fun _ => Counted) (fun _ => CountedAll) :=
    { nil := .nil
      cons := .cons
      field := buildFieldCondition_counted
      not := fun counted => .wrap (numbers_plain (by decide) (by decide)) counted (numbers_plain (by decide) (by decide))
      conj := fun counted => counted.join (numbers_plain (by decide) (by decide)) fun _ counted => counted
      parens := fun counted => counted.join (numbers_plain (by decide) (by decide)) parens
      disj := fun counted => counted.join (numbers_plain (by decide) (by decide)) parens }
  exact closed.clause clause accepted

theorem buildWhereClause_numbers {types : FieldTypes} {clause : Json} {st st' : Binds} {text : Text}
    (ran : buildWhereClause types clause st = .ok (text, st')) :
    Numbers text (range' (st.idx + 1) (clauseFacts types clause).operands.length) ∧
      st' = st.after (clauseFacts types clause).operands := by
  obtain ⟨count, numbers, moved⟩ := clause_counted types clause ran
  obtain ⟨-, -, -, rfl⟩ := buildWhereClause_ran types clause ran
  obtain rfl : (clauseFacts types clause).operands.length = count := Nat.add_left_cancel moved
  exact ⟨numbers, rfl⟩

/-! ## The federated reader -/

/-- The operands of a filter, where there may be none. -/
def filterOperands (types : FieldMap) (whereClause : Option Json) : List (Option Text) :=
  whereClause.elim [] fun clause => (clauseFacts types.get clause).operands

/-- The members of a union take the numbers behind `offset`: each first the operands
    of its filter, then the source it says its rows are from. -/
inductive Aligned (whereClause : Option Json) (value : Nat → Option Text) :
    Nat → List Target → List Branch → Nat → Prop where
  | nil (offset : Nat) : Aligned whereClause value offset [] [] offset
  | cons {offset last : Nat} {target : Target} {targets : List Target} {branch : Branch} {branches : List Branch}
      (operands : List (Option Text)) (same : operands = filterOperands target.types whereClause)
      (filter : Numbers (joinWhere branch.conditions) (range' (offset + 1) operands.length))
      (bound : ∀ i operand, operands[i]? = some operand → value (offset + 1 + i) = some (operand.getD []))
      (appBind : branch.appBind = offset + operands.length + 1) (app : value branch.appBind = some target.app)
      (entBind : branch.entBind = offset + operands.length + 2) (entity : value branch.entBind = some target.entity)
      (row : branch.row = rowJson "t" target.types)
      (rest : Aligned whereClause value (offset + operands.length + 2) targets branches last) :
      Aligned whereClause value offset (target :: targets) (branch :: branches) last

theorem toString_digits (index : Nat) : (toString index).toList = Nat.toDigits 10 index := Nat.toList_repr

theorem isDigit_unmarked {digits : Text} (numeric : ∀ c ∈ digits, c.isDigit = true) : Unmarked digits := by
  rw [Unmarked, all_eq_true]
  intro c mem
  have digit := numeric c mem
  simp only [Bool.and_eq_true, bne_iff_ne]
  exact ⟨⟨fun same => absurd (same ▸ digit) (by decide), fun same => absurd (same ▸ digit) (by decide)⟩,
    fun same => absurd (same ▸ digit) (by decide)⟩

theorem numbers_rowEntry (types : FieldMap) (name : Text) : Numbers (rowEntry "t" types name) [] := by
  have comma : Numbers ", " [] := numbers_plain (by decide) (by decide)
  have record : Numbers "t" [] := numbers_plain (by decide) (by decide)
  have dot : Numbers "." [] := numbers_plain (by decide) (by decide)
  have cast : Numbers (if (types.get name).any (·.fieldType.isDecimal) then "::text" else []) [] := by
    split
    · exact numbers_plain (by decide) (by decide)
    · exact numbers_nil
  exact ((((numbers_quoteLiteral name).append comma).append record).append dot |>.append (numbers_quoteIdent name)).append cast

theorem numbers_rowJson (types : FieldMap) : Numbers (rowJson "t" types) [] := by
  have comma : Numbers ", " [] := numbers_plain (by decide) (by decide)
  have opening : Numbers "jsonb_build_object(" [] := numbers_plain (by decide) (by decide)
  have closing : Numbers ")" [] := numbers_plain (by decide) (by decide)
  have merge : Numbers " || " [] := numbers_plain (by decide) (by decide)
  have call (chunk : List Text) :
      Numbers ("jsonb_build_object(" ++ join ", " (chunk.map (rowEntry "t" types)) ++ ")") [] :=
    (opening.append (comma.join_nil fun name _ => numbers_rowEntry types name)).append closing
  unfold rowJson
  dsimp only
  split
  · have empty : "'\x7b\x7d'::jsonb" = quoteLiteral "\x7b\x7d" ++ "::jsonb" := by decide
    rw [empty]
    exact (numbers_quoteLiteral _).append (numbers_plain (by decide) (by decide))
  · exact merge.join_nil fun chunk _ => call chunk

theorem numbers_joinWhere {types : FieldMap} {filter : Option Json} {conditions : List Text} {st st' : Binds}
    (built : queryConditions types filter st = .ok (conditions, st')) :
    Numbers (joinWhere conditions) (range' (st.idx + 1) (filterOperands types filter).length) ∧
      st' = st.after (filterOperands types filter) := by
  cases filter with
  | none =>
    obtain ⟨rfl, rfl⟩ := stateT_pure_ok.mp built
    exact ⟨numbers_nil, (after_nil _).symm⟩
  | some clause =>
    obtain ⟨text, next, compiled, done⟩ := stateT_bind_ok.mp built
    obtain ⟨rfl, rfl⟩ := stateT_pure_ok.mp done
    obtain ⟨numbers, bound⟩ := buildWhereClause_numbers compiled
    refine ⟨?_, bound⟩
    by_cases trivial : text = "TRUE"
    · -- the filter that always holds has no placeholder, so nothing was bound
      rw [if_pos trivial]
      rw [trivial] at numbers
      have none : range' (st.idx + 1) (filterOperands types (some clause)).length = [] :=
        numbers.unique (numbers_plain (by decide) (by decide))
      rw [none]
      exact numbers_nil
    · rw [if_neg trivial]
      have single : joinWhere [text] = " WHERE " ++ text := by
        rw [joinWhere, if_neg (by simp), join_cons, flatMap_nil, append_nil]
      rw [single]
      exact (numbers_plain (by decide) (by decide) : Numbers " WHERE " []).append numbers

theorem numbers_source (bind : Nat) {text : Text} (counted : Numbers text []) :
    Numbers (text ++ ", " ++ ("$" ++ (toString bind).toList ++ "::text")) [bind] := by
  have cast : Numbers "::text" [] := numbers_plain (by decide) (by decide)
  have bound := counted.placeholder (by decide : Unmarked ", ") (by decide) (by decide) (by decide) bind
  have whole := bound.append cast
  rw [append_nil, append_assoc] at whole
  rw [toString_digits]
  exact whole

/-- A member names its source first, and then comes its filter. -/
theorem numbers_branch {branch : Branch} {types : FieldMap} {numbers : List Nat}
    (row : branch.row = rowJson "t" types) (filter : Numbers (joinWhere branch.conditions) numbers) :
    Numbers branch.sql ([branch.appBind, branch.entBind] ++ numbers) := by
  have select : Numbers "SELECT " [] := numbers_plain (by decide) (by decide)
  have merge : Numbers " || jsonb_build_object(" [] := numbers_plain (by decide) (by decide)
  have build : Numbers ", jsonb_build_object(" [] := numbers_plain (by decide) (by decide)
  have comma : Numbers ", " [] := numbers_plain (by decide) (by decide)
  have from_ : Numbers ")) AS row FROM " [] := numbers_plain (by decide) (by decide)
  have record : Numbers " t" [] := numbers_plain (by decide) (by decide)
  have table : Numbers (CrossApp.Mutations.table branch.app branch.entity) [] :=
    ((numbers_quoteIdent _).append (numbers_plain (by decide) (by decide))).append (numbers_quoteIdent _)
  have app : " || jsonb_build_object('_source', jsonb_build_object('app', " =
      " || jsonb_build_object(" ++ quoteLiteral "_source" ++ ", jsonb_build_object(" ++
        quoteLiteral "app" ++ ", " := by decide
  have entity : ", 'entity', " = ", " ++ quoteLiteral "entity" ++ ", " := by decide
  have first := numbers_source branch.appBind
    (((merge.append (numbers_quoteLiteral "_source")).append build).append (numbers_quoteLiteral "app"))
  have second := numbers_source branch.entBind (comma.append (numbers_quoteLiteral "entity"))
  rw [← app] at first
  rw [← entity] at second
  have selected : Numbers ("SELECT " ++ branch.row) [] := select.append (row ▸ numbers_rowJson types)
  exact (((((selected.append_both first).append_both second).append from_).append table).append record).append filter

/-- The members of a union are compiled in step with the values they share. -/
theorem federatedUnions_aligned {filter : Option Json} {targets : List Target} {unions : List Branch}
    {front binds rest allBinds : List Text}
    (built : federatedUnions filter targets front.length = .ok (unions, binds)) (split : allBinds = front ++ binds ++ rest) :
    Aligned filter (boundValue allBinds) front.length targets unions (front.length + binds.length) := by
  induction targets generalizing front binds unions with
  | nil =>
    obtain ⟨rfl, rfl⟩ := Prod.mk.inj (Except.ok.inj built)
    exact .nil _
  | cons target targets ih =>
    obtain ⟨⟨conditions, st⟩, compiled, built⟩ := bind_eq_ok.mp built
    obtain ⟨⟨others, more⟩, further, done⟩ := bind_eq_ok.mp built
    obtain ⟨rfl, rfl⟩ := Prod.mk.inj (pure_eq_ok.mp done)
    obtain ⟨numbers, rfl⟩ := numbers_joinWhere compiled
    generalize same : filterOperands target.types filter = operands at *
    have values : (Binds.after ⟨[], front.length⟩ operands).binds = operands.map (·.getD []) := nil_append _
    have index : (Binds.after ⟨[], front.length⟩ operands).idx = front.length + operands.length := rfl
    rw [values] at split ⊢
    rw [index] at further
    have behind : front.length + operands.length + 2 = (front ++ operands.map (·.getD []) ++ [target.app, target.entity]).length := by
      simp [Nat.add_assoc]
    have last : front.length + (operands.map (·.getD []) ++ target.app :: target.entity :: more).length =
        (front ++ operands.map (·.getD []) ++ [target.app, target.entity]).length + more.length := by
      simp only [length_append, length_cons, length_map, length_nil]
      omega
    have place (i : Nat) : boundValue allBinds (front.length + 1 + i) =
        (operands.map (·.getD []) ++ target.app :: target.entity :: (more ++ rest))[i]? := by
      have moved : front.length + 1 + i - 1 = front.length + i := by omega
      rw [boundValue, if_neg (by omega), moved, split, append_assoc, getElem?_append_right (by omega),
        Nat.add_sub_cancel_left, append_assoc, cons_append, cons_append]
    refine .cons operands same.symm numbers ?_ rfl ?_ rfl ?_ rfl ?_
    · intro i operand found
      have inside : i < (operands.map (·.getD [])).length := by
        simpa using (List.getElem?_eq_some_iff.mp found).1
      rw [place, getElem?_append_left inside, getElem?_map, found]
      rfl
    · have shape : (Binds.after ⟨[], front.length⟩ operands).idx + 1 = front.length + 1 + operands.length := by
        rw [index]; omega
      show boundValue allBinds _ = _
      rw [shape, place, getElem?_append_right (by simp), length_map, Nat.sub_self]
      rfl
    · have shape : (Binds.after ⟨[], front.length⟩ operands).idx + 2 = front.length + 1 + (operands.length + 1) := by
        rw [index]; omega
      show boundValue allBinds _ = _
      rw [shape, place, getElem?_append_right (by simp), length_map, Nat.add_sub_cancel_left]
      rfl
    · rw [behind, last]
      rw [behind] at further
      exact ih further (by rw [split]; simp)

/-- The numbers of a union are those between its ends, each once. -/
theorem Aligned.numbers {filter : Option Json} {value : Nat → Option Text} {offset last : Nat} {targets : List Target}
    {unions : List Branch} (aligned : Aligned filter value offset targets unions last) :
    ∃ count numbers, last = offset + count ∧ NumbersAll (unions.map Branch.sql) numbers ∧
      numbers.Perm (range' (offset + 1) count) := by
  induction aligned with
  | nil offset => exact ⟨0, [], rfl, .nil, .refl _⟩
  | @cons offset last target targets branch branches operands same filter bound appBind app entBind entity row rest
      ih =>
    obtain ⟨count, numbers, rfl, counted, permuted⟩ := ih
    refine ⟨operands.length + 2 + count, _, by omega, .cons (numbers_branch row filter) counted, ?_⟩
    have sources : [branch.appBind, branch.entBind] = range' (offset + 1 + operands.length) 2 := by
      rw [appBind, entBind, range'_succ, range'_one]
      congr 1 <;> [omega; (congr 1; omega)]
    rw [sources]
    have front : (range' (offset + 1 + operands.length) 2 ++ range' (offset + 1) operands.length).Perm
        (range' (offset + 1) (operands.length + 2)) := by
      rw [← range'_append_1]
      exact perm_append_comm
    have together := front.append permuted
    have next : offset + operands.length + 2 + 1 = offset + 1 + (operands.length + 2) := by omega
    rwa [next, range'_append_1] at together


/-! ## The statements -/

theorem unmarked_append {front rest : Text} (left : Unmarked front) (right : Unmarked rest) : Unmarked (front ++ rest) := by
  rw [Unmarked, all_append, Bool.and_eq_true]
  exact ⟨left, right⟩

theorem unmarked_toString {value : Int} (positive : 0 ≤ value) : Unmarked (toString value).toList := by
  obtain ⟨index, rfl⟩ := Int.eq_ofNat_of_zero_le positive
  have digits : (toString (index : Int)).toList = Nat.toDigits 10 index := toString_digits index
  rw [digits]
  exact isDigit_unmarked fun c mem => Nat.isDigit_of_mem_toDigits (by decide) (by decide) mem

theorem numbers_sortField {sortField : Text} (accepted : sortField.all (fun c => c.isLower || c.isDigit || c = '_') = true) :
    Numbers ('\'' :: sortField ++ ['\'']) [] := by
  have absent : '\'' ∉ sortField := fun mem => absurd (all_eq_true.mp accepted _ mem) (by decide)
  have quoted := numbers_quoteLiteral sortField
  rwa [quoteLiteral, doubled_of_not_mem absent] at quoted

theorem numbers_federated {targets : List Target} {body : QueryRequest} {s : FederatedStatement}
    (accepted : federatedQuery targets body = .ok (some s)) {numbers : List Nat}
    (unions : NumbersAll (s.unions.map Branch.sql) numbers) : Numbers s.sql numbers := by
  obtain ⟨⟨branches, binds⟩, -, done⟩ := bind_eq_ok.mp accepted
  dsimp only at done
  split at done
  · cases done
  split at done
  · cases done
  next sorted =>
  cases done
  have count : Numbers "SELECT row, COUNT(*) OVER() AS total FROM (" [] := numbers_plain (by decide) (by decide)
  have union : Numbers " UNION ALL " [] := numbers_plain (by decide) (by decide)
  have closing : Numbers ") sub ORDER BY row->>" [] := numbers_plain (by decide) (by decide)
  have space : Numbers " " [] := numbers_plain (by decide) (by decide)
  have comma : Numbers ", row->>" [] := numbers_plain (by decide) (by decide)
  have direction : Numbers (validateOrder body.order) [] := by
    unfold validateOrder
    split <;> exact numbers_plain (by decide) (by decide)
  -- the quotes around the sort field stand at the ends of the texts around it
  have sort : Numbers (") sub ORDER BY row->>'" ++ body.orderBy.getD "created_at" ++ "' ") [] := by
    have quoted := (closing.append (numbers_sortField (Decidable.not_not.mp sorted))).append space
    have before : ") sub ORDER BY row->>'" = ") sub ORDER BY row->>" ++ ['\''] := by decide
    have behind : "' " = ['\''] ++ " " := by decide
    rw [before, behind]
    simpa only [append_assoc, cons_append, nil_append] using quoted
  have limit : Numbers (", row->>'id' ASC LIMIT " ++ (toString (max (min body.limit 1000) 1)).toList) [] := by
    have key : ", row->>'id' ASC LIMIT " = ", row->>" ++ quoteLiteral "id" ++ " ASC LIMIT " := by decide
    rw [key]
    have number := numbers_plain (unmarked_append (by decide : Unmarked " ASC LIMIT ")
      (unmarked_toString (by omega : 0 ≤ max (min body.limit 1000) 1))) (calm_front (by decide) (by decide) _)
    exact (comma.append (numbers_quoteLiteral _)).append_both number
  have offset : Numbers (" OFFSET " ++ (toString (max body.offset 0)).toList) [] :=
    numbers_plain (unmarked_append (by decide) (unmarked_toString (by omega))) (calm_front (by decide) (by decide) _)
  have whole := (((count.append (unions.join union)).append_three sort).append direction).append_both limit |>.append_both offset
  rwa [append_nil, append_nil, append_nil, append_nil] at whole

/-- The text of a condition has the numbers behind the counter as its placeholders,
    one for each operand, the operand is what is bound at its number, and with its
    operands at these numbers the text says what the filter says. -/
def InStep (facts : Facts) (st : Binds) (text : Text) (st' : Binds) : Prop :=
  placeholdersOf text = range' (st.idx + 1) facts.operands.length ∧
    st'.idx = st.idx + facts.operands.length ∧ st'.binds = st.binds ++ facts.operands.map (·.getD []) ∧
    ∃ atoms, text = conjText atoms ∧
      ∀ (server : Server) (row : Text → Option server.Value) (params : Nat → Option Text),
        Supplies params st.idx facts.operands → Truth.all (atoms.map (Atom.eval server row params)) = facts.holds server row

theorem inStep_of_ran {facts : Facts} {st st' : Binds} {text : Text} (ran : Ran facts st text st')
    (counted : Counted st text st') : InStep facts st text st' := by
  obtain ⟨atoms, spelled, compiled, rfl⟩ := ran
  obtain ⟨count, numbers, moved⟩ := counted
  obtain rfl : facts.operands.length = count := Nat.add_left_cancel moved
  exact ⟨numbers.placeholdersOf_eq, rfl, rfl, atoms, spelled, compiled.holds⟩

theorem placeholders_aligned :
    (∀ (types : FieldTypes) (clause : Json) (st st' : Binds) (text : Text),
      buildWhereClause types clause st = .ok (text, st') → InStep (clauseFacts types clause) st text st') ∧
    (∀ (types : FieldTypes) (field : Text) (value : Json) (st st' : Binds) (text : Text),
      buildFieldCondition types field value st = .ok (text, st') → InStep (fieldFacts types field value) st text st') ∧
    ∀ (targets : List Target) (body : QueryRequest) (s : FederatedStatement),
      federatedQuery targets body = .ok (some s) →
        Aligned body.whereClause (boundValue s.binds) 0 targets s.unions s.binds.length ∧
          (placeholdersOf s.sql).Perm (List.range' 1 s.binds.length) := by
  refine ⟨?_, ?_, ?_⟩
  · intro types clause st st' text ran
    exact inStep_of_ran (buildWhereClause_ran types clause ran) (clause_counted types clause ran)
  · intro types field value st st' text ran
    exact inStep_of_ran (buildFieldCondition_ran ran) (buildFieldCondition_counted ran)
  · intro targets body s accepted
    obtain ⟨⟨unions, binds⟩, built, done⟩ := bind_eq_ok.mp accepted
    have same : s.unions = unions ∧ s.binds = binds := by
      dsimp only at done
      split at done
      · cases done
      split at done
      · cases done
      cases done
      exact ⟨rfl, rfl⟩
    obtain ⟨rfl, rfl⟩ := same
    have aligned := @federatedUnions_aligned body.whereClause targets s.unions [] s.binds [] s.binds built (by simp)
    rw [List.length_nil, Nat.zero_add] at aligned
    refine ⟨aligned, ?_⟩
    obtain ⟨count, numbers, last, counted, permuted⟩ := aligned.numbers
    rw [(numbers_federated accepted counted).placeholdersOf_eq, last, Nat.zero_add]
    exact permuted

/-- Three values behind two that others bound. -/
def stockFilter : Json :=
  .obj [("$or", .arr [.obj [("color", .obj [("$in", .arr [.str "red", .str "blue"])])],
    .obj [("$not", .obj [("sold", .null)])]]), ("size", .number "3")]

theorem stockFilter_aligned :
    ∃ text st', buildWhereClause (fun _ => none) stockFilter ⟨["crm".toList, "items".toList], 2⟩ = .ok (text, st') ∧
      placeholdersOf text = [3, 4, 5] :=
  ⟨_, _, rfl, (placeholders_aligned.1 (fun _ => none) stockFilter _ _ _ rfl).1⟩

end RootCx.Crud
