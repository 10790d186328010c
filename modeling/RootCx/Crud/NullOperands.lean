import RootCx.Crud.Faithful

/-! # Null operands

A null among the operands of a comparison or of a list is bound as the empty text.  So a filter
compiles to the same text and the same values as the filter that has the empty text there, and
of that one the meaning is known wherever its placeholders start.
-/

namespace RootCx.Crud

open RootCx.Text RootCx.Postgres List

/-! ## The filter without null operands -/

def fillNull : Json → Json
  | .null => .str []
  | value => value

def comparing : List Text :=
  ["$gt", "$gte", "$lt", "$lte", "$like", "$ilike"]

def fillOperand (fieldType : Option FieldType) (op : Text) : Json → Json
  | .arr items =>
    if op = "$in" ∨ op = "$nin" ∨ (op = "$contains" ∧ isJsonbType fieldType = false) then
      .arr (items.map fillNull)
    else .arr items
  | operand => if op ∈ comparing then fillNull operand else operand

def fillField (fieldType : Option FieldType) : Json → Json
  | .obj ops =>
    if ops.any fun (key, _) => isOperatorKey key then .obj (ops.map fun (op, operand) => (op, fillOperand fieldType op operand))
    else .obj ops
  | value => value

mutual

def fillClause (types : FieldTypes) : Json → Json
  | .obj entries => .obj (fillEntries types entries)
  | value => value

def fillEntries (types : FieldTypes) : List (Text × Json) → List (Text × Json)
  | [] => []
  | (key, value) :: rest =>
    (key,
      if key = "$and" ∨ key = "$or" then fillItems types value
      else if key = "$not" then fillClause types value
      else fillField ((types key).map Field.fieldType) value) :: fillEntries types rest

def fillItems (types : FieldTypes) : Json → Json
  | .arr items => .arr (fillClauses types items)
  | value => value

def fillClauses (types : FieldTypes) : List Json → List Json
  | [] => []
  | item :: rest => fillClause types item :: fillClauses types rest

end

/-! ## It compiles to the same -/

section Operators

variable {fieldType : Option FieldType} {col op : Text} {operand : Json} {st : Binds}

@[simp] theorem jsonValueToString_fillNull : jsonValueToString (fillNull operand) = jsonValueToString operand := by
  cases operand <;> rfl

theorem bindNext_fillNull {result : Text × Binds} (ran : bindNext (filterBindValue operand fieldType) st = .ok result) :
    bindNext (filterBindValue (fillNull operand) fieldType) st = .ok result := by
  cases operand with
  | null =>
    simp only [filterBindValue, Json.isStr, Bool.not_false, Bool.and_true] at ran
    split at ran
    · cases ran
    · simp only [fillNull, filterBindValue, Json.isStr, Bool.not_true, Bool.and_false]
      exact ran
  | _ => exact ran

theorem bindAll_fillNull {value : Json → Except Text Text} {items : List Json} {result : List Text × Binds}
    (fills : ∀ operand st result, bindNext (value operand) st = .ok result → bindNext (value (fillNull operand)) st = .ok result)
    (ran : bindAll value items st = .ok result) : bindAll value (items.map fillNull) st = .ok result := by
  induction items generalizing st result with
  | nil => exact ran
  | cons item items ih =>
    obtain ⟨placeholder, next, one, ran⟩ := stateT_bind_ok.mp ran
    obtain ⟨others, last, many, done⟩ := stateT_bind_ok.mp ran
    exact stateT_bind_ok.mpr ⟨placeholder, next, fills _ _ _ one, stateT_bind_ok.mpr ⟨others, last, ih many, done⟩⟩

theorem bind_same {α β : Type} {x y : Build α} {f : α → Build β} {result : β × Binds}
    (same : ∀ middle, x st = .ok middle → y st = .ok middle) (ran : (x >>= f) st = .ok result) : (y >>= f) st = .ok result := by
  obtain ⟨value, next, one, rest⟩ := stateT_bind_ok.mp ran
  exact stateT_bind_ok.mpr ⟨value, next, same _ one, rest⟩

theorem fillOperand_comparing (compares : op ∈ comparing) : fillOperand fieldType op operand = fillNull operand := by
  simp only [comparing, mem_cons, not_mem_nil, or_false] at compares
  obtain rfl | rfl | rfl | rfl | rfl | rfl := compares <;> cases operand <;> simp +decide [fillOperand, fillNull]

theorem fillOperand_list {items : List Json} (lists : op = "$in" ∨ op = "$nin" ∨ (op = "$contains" ∧ isJsonbType fieldType = false)) :
    fillOperand fieldType op (.arr items) = .arr (items.map fillNull) := if_pos lists

theorem fillOperand_other (compares : op ∉ comparing) (lists : ∀ items, operand = .arr items →
    ¬(op = "$in" ∨ op = "$nin" ∨ (op = "$contains" ∧ isJsonbType fieldType = false))) :
    fillOperand fieldType op operand = operand := by
  cases operand with
  | arr items => exact if_neg (lists items rfl)
  | null | bool _ | number _ | str _ | obj _ => exact if_neg compares

theorem operatorCondition_fill {result : List Text × Binds} (ran : operatorCondition col fieldType op operand st = .ok result) :
    operatorCondition col fieldType op (fillOperand fieldType op operand) st = .ok result := by
  by_cases compares : op ∈ comparing
  · rw [fillOperand_comparing compares]
    simp only [comparing, mem_cons, not_mem_nil, or_false] at compares
    obtain rfl | rfl | rfl | rfl | rfl | rfl := compares
    -- The four comparisons look at the type of the field, the patterns do not.
    iterate 4 exact bind_same (fun _ => bindNext_fillNull) ran
    all_goals
      have same := bind_same (x := bindNext (.ok (jsonValueToString operand))) (y := bindNext (.ok (jsonValueToString (fillNull operand))))
        (fun _ one => by rw [jsonValueToString_fillNull]; exact one) ran
      exact same
  by_cases lists : op = "$in" ∨ op = "$nin" ∨ (op = "$contains" ∧ isJsonbType fieldType = false)
  · cases operand with
    | arr items =>
      rw [fillOperand_list lists]
      obtain rfl | rfl | ⟨rfl, plain⟩ := lists
      · cases items with
        | nil => exact ran
        | cons item items => exact bind_same (fun _ => bindAll_fillNull fun _ _ _ => bindNext_fillNull) ran
      · cases items with
        | nil => exact ran
        | cons item items => exact bind_same (fun _ => bindAll_fillNull fun _ _ _ => bindNext_fillNull) ran
      · cases items with
        | nil => exact ran
        | cons item items =>
          have step (first : Json) (rest : List Json) :
              operatorCondition col fieldType "$contains" (.arr (first :: rest)) = (do
                let placeholders ← bindAll (fun item => .ok (jsonValueToString item)) (first :: rest)
                pure [col ++ " @> ARRAY[" ++ join ", " placeholders ++ "]" ++ pgCastSuffix fieldType]) :=
            if_neg (by simp [plain])
          rw [step] at ran
          rw [map_cons, step]
          refine bind_same (fun middle all => ?_) ran
          exact bindAll_fillNull (fun _ _ _ one => by rw [jsonValueToString_fillNull]; exact one) all
    | null | bool _ | number _ | str _ | obj _ =>
      rw [fillOperand_other compares]
      · exact ran
      · intro items same
        cases same
  · rw [fillOperand_other compares fun _ _ => lists]
    exact ran

theorem operatorConditions_fill {ops : List (Text × Json)} {result : List Text × Binds}
    (ran : operatorConditions col fieldType ops st = .ok result) :
    operatorConditions col fieldType (ops.map fun (op, operand) => (op, fillOperand fieldType op operand)) st = .ok result := by
  induction ops generalizing st result with
  | nil => exact ran
  | cons entry ops ih =>
    obtain ⟨op, operand⟩ := entry
    obtain ⟨pushed, next, one, ran⟩ := stateT_bind_ok.mp ran
    obtain ⟨others, last, many, done⟩ := stateT_bind_ok.mp ran
    exact stateT_bind_ok.mpr ⟨pushed, next, operatorCondition_fill one,
      stateT_bind_ok.mpr ⟨others, last, ih many, done⟩⟩

theorem any_isOperatorKey (ops : List (Text × Json)) :
    ((ops.map fun (op, operand) => (op, fillOperand fieldType op operand)).any fun (key, _) => isOperatorKey key) =
      ops.any fun (key, _) => isOperatorKey key := by
  rw [any_map]
  rfl

end Operators

section Clauses

variable {types : FieldTypes} {st : Binds}

theorem buildFieldCondition_fill {name : Text} {value : Json} {result : Text × Binds}
    (ran : buildFieldCondition types name value st = .ok result) :
    buildFieldCondition types name (fillField ((types name).map Field.fieldType) value) st = .ok result := by
  cases value with
  | obj ops =>
    by_cases keyed : (ops.any fun (key, _) => isOperatorKey key) = true
    · simp only [fillField]
      rw [if_pos keyed]
      unfold buildFieldCondition at ran ⊢
      split at ran
      · cases ran
      · rename_i free
        rw [if_neg free]
        simp only [any_isOperatorKey, keyed, Bool.not_true, Bool.false_eq_true, if_false] at ran ⊢
        exact bind_same (fun _ => operatorConditions_fill) ran
    · simp only [fillField]
      rw [if_neg keyed]
      exact ran
  | _ => exact ran

mutual

theorem buildWhereClause_fill : ∀ (clause : Json) {st : Binds} {result : Text × Binds},
    buildWhereClause types clause st = .ok result → buildWhereClause types (fillClause types clause) st = .ok result
  | .obj entries, st, result, ran => by
    rw [buildWhereClause] at ran
    rw [fillClause, buildWhereClause]
    exact bind_same (fun _ => buildParts_fill entries) ran
  | .null, _, _, ran | .bool _, _, _, ran | .number _, _, _, ran | .str _, _, _, ran | .arr _, _, _, ran => ran

theorem buildParts_fill : ∀ (entries : List (Text × Json)) {st : Binds} {result : List Text × Binds},
    buildParts types entries st = .ok result → buildParts types (fillEntries types entries) st = .ok result
  | [], _, _, ran => ran
  | (key, value) :: rest, st, result, ran => by
    rw [buildParts] at ran
    rw [fillEntries, buildParts]
    by_cases logical : key = "$and" ∨ key = "$or"
    · rw [if_pos logical] at ran ⊢
      rw [if_pos logical]
      obtain ⟨part, next, one, more⟩ := stateT_bind_ok.mp ran
      exact stateT_bind_ok.mpr ⟨part, next, buildLogical_fill value one, bind_same (fun _ => buildParts_fill rest) more⟩
    · rw [if_neg logical] at ran ⊢
      rw [if_neg logical]
      by_cases isNot : key = "$not"
      · rw [if_pos isNot] at ran ⊢
        rw [if_pos isNot]
        obtain ⟨sub, next, one, more⟩ := stateT_bind_ok.mp ran
        obtain ⟨part, next', two, more⟩ := stateT_bind_ok.mp more
        exact stateT_bind_ok.mpr ⟨sub, next, buildWhereClause_fill value one,
          stateT_bind_ok.mpr ⟨part, next', two, bind_same (fun _ => buildParts_fill rest) more⟩⟩
      · rw [if_neg isNot] at ran ⊢
        rw [if_neg isNot]
        obtain ⟨part, next, one, more⟩ := stateT_bind_ok.mp ran
        exact stateT_bind_ok.mpr ⟨part, next, buildFieldCondition_fill one, bind_same (fun _ => buildParts_fill rest) more⟩

theorem buildLogical_fill : ∀ (value : Json) {op : Text} {st : Binds} {result : Text × Binds},
    buildLogical types op value st = .ok result → buildLogical types op (fillItems types value) st = .ok result
  | .arr items, op, st, result, ran => by
    rw [buildLogical] at ran
    rw [fillItems, buildLogical]
    exact bind_same (fun _ => buildClauses_fill items) ran
  | .null, _, _, _, ran | .bool _, _, _, _, ran | .number _, _, _, _, ran | .str _, _, _, _, ran | .obj _, _, _, _, ran => ran

theorem buildClauses_fill : ∀ (items : List Json) {st : Binds} {result : List Text × Binds},
    buildClauses types items st = .ok result → buildClauses types (fillClauses types items) st = .ok result
  | [], _, _, ran => ran
  | item :: rest, st, result, ran => by
    rw [buildClauses] at ran
    rw [fillClauses, buildClauses]
    obtain ⟨sub, next, one, more⟩ := stateT_bind_ok.mp ran
    exact stateT_bind_ok.mpr ⟨sub, next, buildWhereClause_fill item one, bind_same (fun _ => buildClauses_fill rest) more⟩

end

end Clauses

/-! ## It has no null operand -/

section Meanings

variable {fieldType : Option FieldType} {op : Text} {operand : Json}

theorem fillNull_visible (operand : Json) : (fillNull operand).isNull = false := by
  cases operand <;> rfl

/-- The two properties of an operator that filling is about. -/
def Operator.shape (fieldType : Option FieldType) (operator : Operator) : Bool × Bool := (operator.nullFree fieldType, operator.looks)

/-- The operators whose operands are not filled have no null operand. -/
theorem operatorOf_plain (compares : op ∉ comparing) (lists : ∀ items, operand = .arr items →
    ¬(op = "$in" ∨ op = "$nin" ∨ (op = "$contains" ∧ isJsonbType fieldType = false)))
    {operator : Operator} (found : operatorOf op operand = some operator) : operator.nullFree fieldType = true := by
  have noComparison : comparisonOf op = none := by
    simp only [comparing, mem_cons, not_mem_nil, or_false, not_or] at compares
    simp only [comparisonOf, compares, if_false]
  have noPattern : patternOf op = none := by
    simp only [comparing, mem_cons, not_mem_nil, or_false, not_or] at compares
    simp only [patternOf, compares, if_false]
  unfold operatorOf at found
  rw [noComparison, noPattern] at found
  split at found
  · cases found
    rfl
  split at found
  · cases found
    rfl
  dsimp only at found
  split at found
  · rename_i negated mem
    split at found
    · rename_i items
      have listed : op = "$in" ∨ op = "$nin" := by
        by_contra neither
        obtain ⟨isIn, isNin⟩ := not_or.mp neither
        cases mem.symm.trans ((if_neg isIn).trans (if_neg isNin))
      exact absurd (listed.imp id .inl) (lists items rfl)
    · cases found
  split at found
  · rename_i isContains
    split at found
    · rename_i items
      cases found
      have jsonb : isJsonbType fieldType = true := by
        by_contra plain
        exact lists items rfl (.inr (.inr ⟨isContains, by simpa using plain⟩))
      simp [Operator.nullFree, jsonb]
    · cases found
  split at found
  · cases found
    rfl
  · cases found

theorem operatorOf_fill : (operatorOf op (fillOperand fieldType op operand)).map (Operator.shape fieldType) =
    (operatorOf op operand).map fun operator => (true, operator.looks) := by
  have plain (compares : op ∉ comparing) (lists : ∀ items, operand = .arr items →
      ¬(op = "$in" ∨ op = "$nin" ∨ (op = "$contains" ∧ isJsonbType fieldType = false))) :
      (operatorOf op (fillOperand fieldType op operand)).map (Operator.shape fieldType) =
        (operatorOf op operand).map fun operator => (true, operator.looks) := by
    rw [fillOperand_other compares lists]
    cases found : operatorOf op operand with
    | none => rfl
    | some operator => exact congrArg (fun visible => some (visible, operator.looks)) (operatorOf_plain compares lists found)
  by_cases compares : op ∈ comparing
  · rw [fillOperand_comparing compares]
    simp only [comparing, mem_cons, not_mem_nil, or_false] at compares
    obtain rfl | rfl | rfl | rfl | rfl | rfl := compares
    all_goals exact congrArg (fun visible => some (!visible, true)) (fillNull_visible operand)
  by_cases lists : op = "$in" ∨ op = "$nin" ∨ (op = "$contains" ∧ isJsonbType fieldType = false)
  · cases operand with
    | arr items =>
      rw [fillOperand_list lists]
      have filled : (items.map fillNull).all (!·.isNull) = true := by
        simp [fillNull_visible]
      have either : (isJsonbType fieldType || (items.map fillNull).all (!·.isNull)) = true := by
        rw [filled, Bool.or_true]
      have size : (items.map fillNull).isEmpty = items.isEmpty := isEmpty_map
      obtain rfl | rfl | ⟨rfl, -⟩ := lists
      · exact congrArg₂ (fun visible empty => some (visible, !empty)) filled size
      · exact congrArg₂ (fun visible empty => some (visible, !empty)) filled size
      · exact congrArg₂ (fun visible empty => some (visible, !empty)) either size
    | null | bool _ | number _ | str _ | obj _ =>
      refine plain compares fun items same => ?_
      cases same
  · exact plain compares fun _ _ => lists

/-- The operators of a field, filled, look at the same columns. -/
theorem operatorsOf_fill (value : Json) :
    (operatorsOf (fillField fieldType value)).map (Operator.shape fieldType) =
      (operatorsOf value).map fun operator => (true, operator.looks) := by
  cases value with
  | obj ops =>
    by_cases keyed : (ops.any fun (key, _) => isOperatorKey key) = true
    · simp only [fillField]
      rw [if_pos keyed, operatorsOf, if_pos ((any_isOperatorKey ops).trans keyed), operatorsOf, if_pos keyed]
      clear keyed
      induction ops with
      | nil => rfl
      | cons entry ops ih =>
        obtain ⟨op, operand⟩ := entry
        have first : (operatorOf op (fillOperand fieldType op operand)).map (Operator.shape fieldType) = _ := operatorOf_fill
        simp only [map_cons, filterMap_cons]
        cases filled : operatorOf op (fillOperand fieldType op operand) <;> cases found : operatorOf op operand <;>
          rw [filled, found] at first
        · exact ih
        · cases first
        · cases first
        · exact congrArg₂ cons (Option.some.inj first) ih
    · simp only [fillField]
      rw [if_neg keyed, operatorsOf, if_neg keyed]
      rfl
  | _ => rfl

end Meanings

/-- A filter without null operands, and one that looks at the same columns. -/
structure Filled (facts original : Facts) : Prop where
  nullFree : facts.nullFree = true
  columns : facts.columns = original.columns

theorem Filled.all {parts originals : List Facts} (filled : List.Forall₂ Filled parts originals) :
    Filled (Facts.all parts) (Facts.all originals) := by
  induction filled with
  | nil => exact ⟨rfl, rfl⟩
  | cons first rest ih =>
    exact ⟨Bool.and_eq_true_iff.mpr ⟨first.nullFree, ih.nullFree⟩,
      congrArg₂ (· ++ ·) first.columns ih.columns⟩

theorem Filled.any {parts originals : List Facts} (filled : List.Forall₂ Filled parts originals) :
    Filled (Facts.any parts) (Facts.any originals) := ⟨(Filled.all filled).nullFree, (Filled.all filled).columns⟩

theorem Filled.not {facts original : Facts} (filled : Filled facts original) : Filled facts.not original.not :=
  ⟨filled.nullFree, filled.columns⟩

theorem fieldFacts_fill (types : FieldTypes) (name : Text) (value : Json) :
    Filled (fieldFacts types name (fillField ((types name).map Field.fieldType) value)) (fieldFacts types name value) := by
  let fieldType := (types name).map Field.fieldType
  have same : (operatorsOf (fillField fieldType value)).map (Operator.shape fieldType) = _ := operatorsOf_fill value
  constructor
  · have visible := congrArg (fun shapes => shapes.all (·.1)) same
    rw [all_map, all_map] at visible
    exact visible.trans (by simp)
  · have looks := congrArg (fun shapes => shapes.flatMap fun shape : Bool × Bool => if shape.2 then [name] else []) same
    rwa [flatMap_map, flatMap_map] at looks

section Clauses

variable (types : FieldTypes)

mutual

theorem clauseFacts_fill : ∀ clause : Json, Filled (clauseFacts types (fillClause types clause)) (clauseFacts types clause)
  | .obj entries => by
    rw [fillClause, clauseFacts, clauseFacts]
    exact .all (entriesFacts_fill entries)
  | .null | .bool _ | .number _ | .str _ | .arr _ => ⟨rfl, rfl⟩

theorem entriesFacts_fill : ∀ entries : List (Text × Json),
    List.Forall₂ Filled (entriesFacts types (fillEntries types entries)) (entriesFacts types entries)
  | [] => .nil
  | (key, value) :: rest => by
    rw [fillEntries, entriesFacts, entriesFacts]
    refine .cons ?_ (entriesFacts_fill rest)
    by_cases isAnd : key = "$and"
    · rw [if_pos isAnd, if_pos isAnd, if_pos (.inl isAnd)]
      exact .all (listFacts_fill value)
    rw [if_neg isAnd, if_neg isAnd]
    by_cases isOr : key = "$or"
    · rw [if_pos isOr, if_pos isOr, if_pos (.inr isOr)]
      exact .any (listFacts_fill value)
    rw [if_neg isOr, if_neg isOr, if_neg (not_or.mpr ⟨isAnd, isOr⟩)]
    by_cases isNot : key = "$not"
    · rw [if_pos isNot, if_pos isNot, if_pos isNot]
      exact (clauseFacts_fill value).not
    · rw [if_neg isNot, if_neg isNot, if_neg isNot]
      exact fieldFacts_fill types key value

theorem listFacts_fill : ∀ value : Json, List.Forall₂ Filled (listFacts types (fillItems types value)) (listFacts types value)
  | .arr items => by
    rw [fillItems, listFacts, listFacts]
    exact clausesFacts_fill items
  | .null | .bool _ | .number _ | .str _ | .obj _ => .nil

theorem clausesFacts_fill : ∀ items : List Json,
    List.Forall₂ Filled (clausesFacts types (fillClauses types items)) (clausesFacts types items)
  | [] => .nil
  | item :: rest => by
    rw [fillClauses, clausesFacts, clausesFacts]
    exact .cons (clauseFacts_fill item) (clausesFacts_fill rest)

end

end Clauses

/-! ## The meaning of what is bound -/

/-- What a filter says with the empty text for a null operand. -/
def boundFacts (types : FieldTypes) (clause : Json) : Facts := clauseFacts types (fillClause types clause)

/-- The text of a compiled filter says the same wherever its placeholders start. -/
theorem buildWhereClause_reads {types : FieldTypes} {clause : Json} {st st' : Binds} {text : Text}
    (accepted : buildWhereClause types clause st = .ok (text, st'))
    (named : ∀ name ∈ (clauseFacts types clause).columns, Named name) :
    st' = st.after (boundFacts types clause).operands ∧
      ∃ atoms, readCondition text = (if (boundFacts types clause).present then some [atoms] else none) ∧
        conjColumns atoms = (clauseFacts types clause).columns ∧
        ∀ (server : Server) (row : Text → Option server.Value) (params : Nat → Option Text),
          Supplies params st.idx ((boundFacts types clause).operands.map fun operand => some (operand.getD [])) →
            choicesEval [atoms.map (Atom.eval server row params)] = (boundFacts types clause).holds server row := by
  obtain ⟨atoms, rfl, compiled, bound⟩ := buildWhereClause_ran types _ (buildWhereClause_fill clause accepted)
  have filled := clauseFacts_fill types clause
  have noNull := compiled.nullFree.mp filled.nullFree
  have texts : ((boundFacts types clause).operands.map fun operand => some (operand.getD [])) = (boundFacts types clause).operands := by
    refine (map_congr_left fun operand mem => ?_).trans (map_id' _)
    cases operand with
    | none => exact absurd mem noNull
    | some text => rfl
  refine ⟨bound, atoms, ?_, compiled.columns.trans filled.columns, fun server row params supplies => ?_⟩
  · rw [readCondition_conj compiled.full fun atom mem name column => ?_]
    · rw [compiled.complete]
      rfl
    · apply named
      rw [← filled.columns, ← compiled.columns]
      exact mem_flatMap.mpr ⟨atom, mem, column⟩
  · rw [texts] at supplies
    rw [← show _ = (boundFacts types clause).holds server row from compiled.holds server row params supplies]
    exact Truth.or_false _

end RootCx.Crud
