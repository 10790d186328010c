import RootCx.Crud.Compile

/-! # The compiled filter is the filter

From one operator to a whole filter: what the fields of a clause and the clauses
of a list compile to is put together as the compiler puts their texts together.
-/

namespace RootCx.Crud

open RootCx.Text RootCx.Postgres List

/-- What the conjunction a filter compiles to has to do with the filter. -/
structure Compiled (facts : Facts) (start : Nat) (atoms : List Atom) : Prop where
  nonempty : atoms ≠ []
  full : ∀ atom ∈ atoms, atom.Full
  columns : conjColumns atoms = facts.columns
  complete : conjComplete atoms = facts.present
  nullFree : facts.nullFree = true ↔ none ∉ facts.operands
  holds : ∀ (server : Server) (row : Text → Option server.Value) (params : Nat → Option Text),
    Supplies params start facts.operands →
    Truth.all (atoms.map (Atom.eval server row params)) = facts.holds server row

/-- The same for the members of a list, each starting behind the one before. -/
inductive CompiledAll : List Facts → Nat → List (List Atom) → Prop where
  | nil (start : Nat) : CompiledAll [] start []
  | cons {facts : Facts} {start : Nat} {atoms : List Atom} {others : List Facts} {rest : List (List Atom)}
      (first : Compiled facts start atoms) (more : CompiledAll others (start + facts.operands.length) rest) :
      CompiledAll (facts :: others) start (atoms :: rest)

variable {parts : List Facts} {start : Nat} {groups : List (List Atom)} {facts : Facts}
  (fieldType : Option FieldType) {types : FieldTypes} {name : Text} {value : Json} {st st' : Binds}
  {text : Text}

/-! ## Lists of conjunctions -/

theorem CompiledAll.isEmpty (compiled : CompiledAll parts start groups) : groups.isEmpty = parts.isEmpty := by
  cases compiled <;> rfl

theorem CompiledAll.nonempty (compiled : CompiledAll parts start groups) : ∀ atoms ∈ groups, atoms ≠ [] := by
  induction compiled with
  | nil start => exact fun _ mem => nomatch mem
  | cons first more ih =>
    intro atoms mem
    obtain rfl | older := mem_cons.mp mem
    · exact first.nonempty
    · exact ih atoms older

theorem CompiledAll.full (compiled : CompiledAll parts start groups) :
    ∀ atoms ∈ groups, ∀ atom ∈ atoms, atom.Full := by
  induction compiled with
  | nil start => exact fun _ mem => nomatch mem
  | cons first more ih =>
    intro atoms mem
    obtain rfl | older := mem_cons.mp mem
    · exact first.full
    · exact ih atoms older

theorem CompiledAll.columns (compiled : CompiledAll parts start groups) :
    groups.flatMap conjColumns = (Facts.all parts).columns := by
  induction compiled with
  | nil start => rfl
  | cons first more ih =>
    rw [flatMap_cons, first.columns, ih]
    rfl

theorem CompiledAll.complete (compiled : CompiledAll parts start groups) :
    groups.all conjComplete = (Facts.all parts).present := by
  induction compiled with
  | nil start => rfl
  | cons first more ih =>
    rw [all_cons, first.complete, ih]
    rfl

theorem CompiledAll.nullFree (compiled : CompiledAll parts start groups) :
    (Facts.all parts).nullFree = true ↔ none ∉ (Facts.all parts).operands := by
  induction compiled with
  | nil start => simp [Facts.all]
  | cons first more ih =>
    have both := and_congr first.nullFree ih
    simp only [Facts.all, all_cons, flatMap_cons, Bool.and_eq_true, mem_append, not_or] at both ⊢
    exact both

theorem CompiledAll.truths {parts : List Facts} {start : Nat} {groups : List (List Atom)}
    (compiled : CompiledAll parts start groups) (server : Server) (row : Text → Option server.Value)
    (params : Nat → Option Text) (supplies : Supplies params start (Facts.all parts).operands) :
    groups.map (fun atoms => Truth.all (atoms.map (Atom.eval server row params))) =
      parts.map fun part => part.holds server row := by
  induction compiled with
  | nil start => rfl
  | cons first more ih =>
    rw [map_cons, map_cons, first.holds server row params supplies.left,
      ih supplies.right]

/-! ## Putting conjunctions together -/

theorem group_full (full : ∀ atoms ∈ groups, ∀ atom ∈ atoms, atom.Full) : (Atom.group groups).Full := by
  rw [full_group]
  intro fulls inside prop mem
  obtain ⟨atoms, listed, rfl⟩ := mem_map.mp inside
  obtain ⟨atom, inAtoms, rfl⟩ := mem_map.mp mem
  exact full atoms listed atom inAtoms

theorem group_columns (groups : List (List Atom)) :
    conjColumns [.group groups] = groups.flatMap conjColumns := by
  rw [conjColumns, flatMap_cons, flatMap_nil, append_nil, columns_group]
  induction groups with
  | nil => rfl
  | cons atoms rest ih =>
    rw [map_cons, flatten_cons, flatten_append, ih, flatMap_cons]
    rfl

theorem group_complete (groups : List (List Atom)) :
    conjComplete [.group groups] = (!groups.isEmpty && groups.all conjComplete) := by
  rw [← choicesComplete_eq, ← complete_group]
  simp [conjComplete]

theorem conjComplete_flatten (nonempty : groups ≠ []) (inhabited : ∀ atoms ∈ groups, atoms ≠ []) :
    conjComplete groups.flatten = groups.all conjComplete := by
  have visible : groups.flatten.isEmpty = false := by
    cases groups with
    | nil => exact absurd rfl nonempty
    | cons atoms rest =>
      have first := inhabited atoms (by simp)
      simp [first]
  rw [conjComplete, visible, Bool.not_false, Bool.true_and, all_flatten]
  rw [Bool.eq_iff_iff, all_eq_true, all_eq_true]
  refine forall₂_congr fun atoms mem => ?_
  simp [conjComplete, inhabited atoms mem]

theorem Truth.all_flatten (groups : List (List Truth)) :
    Truth.all groups.flatten = Truth.all (groups.map Truth.all) := by
  induction groups with
  | nil => rfl
  | cons truths rest ih =>
    rw [flatten_cons, Truth.all_append, ih, map_cons, Truth.all_cons]

theorem CompiledAll.conj (compiled : CompiledAll parts start groups) (nonempty : groups ≠ []) :
    Compiled (Facts.all parts) start groups.flatten where
  nonempty := by
    cases compiled with
    | nil => exact absurd rfl nonempty
    | cons first more => simp [first.nonempty]
  full := by
    intro atom mem
    obtain ⟨atoms, inside, mem⟩ := mem_flatten.mp mem
    exact compiled.full atoms inside atom mem
  columns := by
    rw [← compiled.columns, conjColumns, flatMap_def, map_flatten, flatten_flatten,
      map_map, flatMap_def]
    rfl
  complete := by
    rw [conjComplete_flatten nonempty compiled.nonempty, compiled.complete]
  nullFree := compiled.nullFree
  holds server row params supplies := by
    rw [map_flatten, Truth.all_flatten, map_map]
    exact congrArg Truth.all (compiled.truths server row params supplies)

theorem Compiled.nothing (start : Nat) : Compiled (Facts.all []) start [.const true] where
  nonempty := by simp
  full := by simp [Atom.Full, Atom.fold]
  columns := rfl
  complete := rfl
  nullFree := by simp [Facts.all]
  holds _ _ _ _ := rfl

theorem Compiled.parens {atoms : List Atom} (compiled : Compiled facts start atoms) :
    Compiled facts start [.group [atoms]] where
  nonempty := by simp
  full := by
    intro atom mem
    obtain rfl := mem_singleton.mp mem
    apply group_full
    intro atoms' same
    obtain rfl := mem_singleton.mp same
    exact compiled.full
  columns := by
    rw [group_columns, ← compiled.columns, flatMap_cons, flatMap_nil, append_nil]
  complete := by
    rw [group_complete, ← compiled.complete, all_cons, all_nil, Bool.and_true]
    rfl
  nullFree := compiled.nullFree
  holds server row params supplies := by
    rw [← compiled.holds server row params supplies, map_singleton, Truth.all_cons, Truth.all_nil,
      Truth.and_true]
    exact (fold_group [atoms]).trans (Truth.or_false _)

theorem Compiled.not {atoms : List Atom} (compiled : Compiled facts start atoms) :
    Compiled facts.not start [.not (.group [atoms])] where
  nonempty := by simp
  full := by
    intro atom mem
    obtain rfl := mem_singleton.mp mem
    exact compiled.parens.full (.group [atoms]) (by simp)
  columns := compiled.parens.columns
  complete := compiled.parens.complete
  nullFree := compiled.nullFree
  holds server row params supplies := by
    have inner := compiled.parens.holds server row params supplies
    rw [map_singleton, Truth.all_cons, Truth.all_nil, Truth.and_true] at inner ⊢
    exact congrArg Truth.not inner

theorem CompiledAll.disj (compiled : CompiledAll parts start groups) (nonempty : groups ≠ []) :
    Compiled (Facts.any parts) start [.group groups] where
  nonempty := by simp
  full := by
    intro atom mem
    obtain rfl := mem_singleton.mp mem
    exact group_full compiled.full
  columns := by
    rw [group_columns, compiled.columns]
    rfl
  complete := by
    have visible : groups.isEmpty = false := by simpa using nonempty
    rw [group_complete, visible, Bool.not_false, Bool.true_and, compiled.complete]
    rfl
  nullFree := compiled.nullFree
  holds server row params supplies := by
    have visible : parts.isEmpty = false := by rw [← compiled.isEmpty]; simpa using nonempty
    have truths := compiled.truths server row params supplies
    rw [map_singleton, Truth.all_cons, Truth.all_nil, Truth.and_true]
    show _ = if parts.isEmpty then some true else Truth.any (parts.map fun part => part.holds server row)
    rw [visible, if_neg Bool.false_ne_true, ← truths]
    refine (fold_group groups).trans ?_
    rw [choicesEval, map_map]
    rfl

/-! ## The texts of clauses -/

theorem join_append {separator : Text} {front rest : List Text} (left : front ≠ []) (right : rest ≠ []) :
    join separator (front ++ rest) = join separator front ++ separator ++ join separator rest := by
  obtain ⟨first, front, rfl⟩ := exists_cons_of_ne_nil left
  obtain ⟨next, rest, rfl⟩ := exists_cons_of_ne_nil right
  simp only [cons_append, join_cons, flatMap_append, flatMap_cons, append_assoc]

theorem conjText_flatten (inhabited : ∀ atoms ∈ groups, atoms ≠ []) :
    join " AND " (groups.map conjText) = conjText groups.flatten := by
  induction groups with
  | nil => rfl
  | cons atoms rest ih =>
    have others := ih fun atoms mem => inhabited atoms (by simp [mem])
    cases rest with
    | nil => simp [join, intercalate]
    | cons next rest =>
      have first : atoms.map Atom.text ≠ [] := by simpa using inhabited atoms (by simp)
      have more : ((next :: rest).flatten).map Atom.text ≠ [] := by
        have visible := inhabited next (by simp)
        simp [visible]
      rw [flatten_cons, conjText, map_append, join_append first more, map_cons]
      rw [show conjText atoms :: (next :: rest).map conjText = [conjText atoms] ++ (next :: rest).map conjText
        from rfl, join_append (by simp) (by simp), others]
      rw [conjText, conjText]
      simp [join, intercalate]

theorem conjText_singleton (atom : Atom) : conjText [atom] = atom.text := by
  simp [conjText, join, intercalate]

theorem conjText_parens (atoms : List Atom) :
    conjText [.group [atoms]] = "(" ++ conjText atoms ++ ")" := by
  rw [conjText_singleton, text_group, choicesText, map_singleton, map_singleton]
  exact congrArg (fun text => "(".toList ++ text ++ ")".toList) (append_nil _)

theorem conjText_disj (groups : List (List Atom)) :
    conjText [.group groups] = "(" ++ join " OR " (groups.map conjText) ++ ")" := by
  rw [conjText_singleton, text_group, choicesText, map_map]
  rfl

theorem conjText_not (atoms : List Atom) :
    conjText [.not (.group [atoms])] = "NOT (" ++ conjText atoms ++ ")" := by
  have inner := conjText_parens atoms
  rw [conjText_singleton] at inner ⊢
  exact congrArg ("NOT ".toList ++ ·) inner

/-! ## One field -/

/-- What is to be shown of the compilation of a filter. -/
def Ran (facts : Facts) (st : Binds) (text : Text) (st' : Binds) : Prop :=
  ∃ atoms, text = conjText atoms ∧ Compiled facts st.idx atoms ∧ st' = st.after facts.operands

/-- The conditions of several operators on one field. -/
def operatorsAtoms (fieldType : Option FieldType) (name : Text) : Nat → List Operator → List Atom
  | _, [] => []
  | start, operator :: rest => operatorAtoms fieldType name start operator ++
      operatorsAtoms fieldType name (start + (operator.operands fieldType).length) rest

/-- A field whose operators push nothing leaves a hole. -/
def fieldAtoms (fieldType : Option FieldType) (name : Text) (start : Nat) (operators : List Operator) : List Atom :=
  match operatorsAtoms fieldType name start operators with
  | [] => [.hole]
  | atoms => atoms

/-- What the conditions of several operators have to do with them. -/
structure OperatorsCompiled (fieldType : Option FieldType) (name : Text) (start : Nat) (operators : List Operator)
    (atoms : List Atom) : Prop where
  full : ∀ atom ∈ atoms, atom.Full
  complete : ∀ atom ∈ atoms, atom.complete = true
  columns : conjColumns atoms = operators.flatMap fun operator => if operator.looks then [name] else []
  empty : atoms.isEmpty = operators.all Operator.vanishes
  holds : ∀ (server : Server) (row : Text → Option server.Value) (params : Nat → Option Text),
    Supplies params start (operators.flatMap (Operator.operands fieldType)) →
    Truth.all (atoms.map (Atom.eval server row params)) =
      Truth.all (operators.map fun operator => operator.holds server fieldType (row name))

theorem operatorsAtoms_compiled (name : Text) (start : Nat) (operators : List Operator) :
    OperatorsCompiled fieldType name start operators (operatorsAtoms fieldType name start operators) := by
  induction operators generalizing start with
  | nil =>
    exact ⟨fun _ mem => (nomatch mem), fun _ mem => (nomatch mem), rfl, rfl, fun _ _ _ _ => rfl⟩
  | cons operator operators ih =>
    have first := operatorAtoms_compiled fieldType name start operator
    have others := ih (start + (operator.operands fieldType).length)
    constructor
    case full =>
      intro atom mem
      obtain front | rest := mem_append.mp mem
      · exact first.full atom front
      · exact others.full atom rest
    case complete =>
      intro atom mem
      obtain front | rest := mem_append.mp mem
      · exact first.complete atom front
      · exact others.complete atom rest
    case columns =>
      rw [operatorsAtoms, conjColumns, flatMap_append, flatMap_cons, ← first.columns, ← others.columns]
      rfl
    case empty =>
      rw [operatorsAtoms, all_cons, ← first.empty, ← others.empty]
      cases operatorAtoms fieldType name start operator <;> rfl
    case holds =>
      intro server row params supplies
      rw [flatMap_cons] at supplies
      rw [operatorsAtoms, map_append, Truth.all_append, first.holds server row params supplies.left,
        others.holds server row params supplies.right]
      rfl

theorem operandText_ne_none {operand : Json} : operandText operand ≠ none ↔ operand.isNull = false := by
  cases operand <;> simp [operandText, Json.isNull]

theorem none_notMem_operands {items : List Json} :
    none ∉ items.map operandText ↔ items.all (!·.isNull) = true := by
  induction items with
  | nil => simp
  | cons item items ih =>
    rw [map_cons, mem_cons, not_or, ih, all_cons, Bool.and_eq_true,
      Bool.not_eq_true', ← operandText_ne_none, ne_comm]

theorem nullFree_iff (operator : Operator) :
    operator.nullFree fieldType = true ↔ none ∉ operator.operands fieldType := by
  cases operator with
  | equality negated operand =>
    rw [Operator.nullFree, Operator.operands]
    cases null : operand.isNull with
    | true => simp
    | false => simpa using (operandText_ne_none.mpr null).symm
  | comparison op operand | pattern op operand =>
    rw [Operator.nullFree, Operator.operands, Bool.not_eq_true', ← operandText_ne_none, mem_singleton, ne_comm]
  | membership negated items =>
    rw [Operator.nullFree, Operator.operands, none_notMem_operands]
  | contains items =>
    rw [Operator.nullFree, Operator.operands]
    cases items with
    | nil => simp
    | cons item items =>
      cases isJsonbType fieldType with
      | true => simp
      | false => exact none_notMem_operands.symm
  | isNull negated => simp [Operator.nullFree, Operator.operands]
  | object value => simp [Operator.nullFree, Operator.operands]

theorem fieldAtoms_compiled (types : FieldTypes) (name : Text) (start : Nat) (value : Json) :
    Compiled (fieldFacts types name value) start
      (fieldAtoms ((types name).map Field.fieldType) name start (operatorsOf value)) := by
  have operators := operatorsAtoms_compiled ((types name).map Field.fieldType) name start (operatorsOf value)
  have nulls : (fieldFacts types name value).nullFree = true ↔ none ∉ (fieldFacts types name value).operands := by
    simp only [fieldFacts, all_eq_true, nullFree_iff, mem_flatMap, not_exists, not_and]
  have present : (fieldFacts types name value).present = !(operatorsOf value).all Operator.vanishes := by
    rw [fieldFacts, not_all_eq_any_not]
  rw [fieldAtoms]
  split
  case h_1 empty =>
    rw [empty] at operators
    exact {
      nonempty := by simp
      full := by simp [Atom.Full, Atom.fold]
      columns := operators.columns
      complete := by rw [present, ← operators.empty]; rfl
      nullFree := nulls
      holds := operators.holds }
  case h_2 visible =>
    have filled := operators.empty
    rw [isEmpty_eq_false_iff.mpr visible] at filled
    exact {
      nonempty := visible
      full := operators.full
      columns := operators.columns
      complete := by
        rw [present, ← filled, conjComplete, isEmpty_eq_false_iff.mpr visible,
          all_eq_true.mpr operators.complete]
        rfl
      nullFree := nulls
      holds := operators.holds }

theorem conjText_fieldAtoms (name : Text) (start : Nat) (operators : List Operator) :
    conjText (fieldAtoms fieldType name start operators) =
      join " AND " ((operatorsAtoms fieldType name start operators).map Atom.text) := by
  rw [fieldAtoms]
  split
  case h_1 empty => rw [empty]; rfl
  case h_2 => rfl

/-! ## Running the compiler -/

theorem operatorConditions_ran {fieldType : Option FieldType} {name : Text} {ops : List (Text × Json)}
    {st st' : Binds} {texts : List Text}
    (ran : operatorConditions (quoteIdent name) fieldType ops st = .ok (texts, st')) :
    texts = (operatorsAtoms fieldType name st.idx
        (ops.filterMap fun (op, operand) => operatorOf op operand)).map Atom.text ∧
      st' = st.after ((ops.filterMap fun (op, operand) => operatorOf op operand).flatMap
        (Operator.operands fieldType)) := by
  induction ops generalizing st st' texts with
  | nil =>
    obtain ⟨rfl, rfl⟩ := stateT_pure_ok.mp ran
    exact ⟨rfl, (after_nil _).symm⟩
  | cons entry ops ih =>
    obtain ⟨op, operand⟩ := entry
    obtain ⟨pushed, st₁, one, ran⟩ := stateT_bind_ok.mp ran
    obtain ⟨others, st₂, many, done⟩ := stateT_bind_ok.mp ran
    obtain ⟨rfl, rfl⟩ := stateT_pure_ok.mp done
    obtain ⟨operator, found, rfl, rfl⟩ := operatorCondition_ran one
    obtain ⟨rfl, rfl⟩ := ih many
    simp only [filterMap_cons, found]
    rw [operatorsAtoms, map_append, flatMap_cons, after_append]
    exact ⟨rfl, rfl⟩

/-- The text of a field, and the state behind it. -/
def FieldRan (types : FieldTypes) (name : Text) (value : Json) (st : Binds) (text : Text) (st' : Binds) : Prop :=
  text = conjText (fieldAtoms ((types name).map Field.fieldType) name st.idx (operatorsOf value)) ∧
    st' = st.after (fieldFacts types name value).operands

theorem single_ran {operator : Operator} {atom : Atom} (single : operatorsOf value = [operator])
    (atoms : operatorAtoms ((types name).map Field.fieldType) name st.idx operator = [atom])
    (same : text = atom.text) (next : st' = st.after (operator.operands ((types name).map Field.fieldType))) :
    FieldRan types name value st text st' := by
  constructor
  · rw [conjText_fieldAtoms, single, operatorsAtoms, operatorsAtoms, atoms, append_nil, same]
    exact (conjText_singleton atom).symm
  · rw [fieldFacts, single, flatMap_singleton, next]

theorem plain_ran (single : operatorsOf value = [.equality false value]) (visible : value.isNull = false)
    (ran : (do
      let placeholder ← bindNext (filterBindValue value ((types name).map Field.fieldType))
      pure (quoteIdent name ++ " = " ++ placeholder ++
        pgCastSuffix ((types name).map Field.fieldType)) : Build Text) st = .ok (text, st')) :
    FieldRan types name value st text st' := by
  obtain ⟨placeholder, next, bound, done⟩ := stateT_bind_ok.mp ran
  obtain ⟨rfl, rfl⟩ := stateT_pure_ok.mp done
  obtain ⟨rfl, rfl⟩ := bindNext_operand bound fun _ => filterBindValue_ok
  refine single_ran single (by rw [operatorAtoms, if_neg (by simp [visible])]) ?_ ?_
  · rw [if_neg Bool.false_ne_true, columnOf, text_compare, pgCastSuffix_eq]
    simp only [castPieces, render, flatMap_nil, append_nil]
    rfl
  · rw [Operator.operands, if_neg (by simp [visible])]

theorem buildFieldCondition_text (ran : buildFieldCondition types name value st = .ok (text, st')) :
    FieldRan types name value st text st' := by
  unfold buildFieldCondition at ran
  by_cases sensitive : (types name).any Field.sensitive = true
  · rw [if_pos sensitive] at ran
    cases ran
  rw [if_neg sensitive] at ran
  cases value with
  | null =>
    obtain ⟨rfl, rfl⟩ := stateT_pure_ok.mp ran
    exact single_ran rfl rfl (text_isNull name false).symm (after_nil _).symm
  | obj ops =>
    by_cases keyed : (ops.any fun (key, _) => isOperatorKey key) = true
    · have operators : operatorsOf (.obj ops) = ops.filterMap fun (op, operand) => operatorOf op operand := by
        rw [operatorsOf, if_pos keyed]
      simp only [keyed, Bool.not_true, Bool.false_eq_true, if_false] at ran
      obtain ⟨texts, next, conditions, done⟩ := stateT_bind_ok.mp ran
      obtain ⟨rfl, rfl⟩ := stateT_pure_ok.mp done
      obtain ⟨rfl, rfl⟩ := operatorConditions_ran conditions
      constructor
      · rw [conjText_fieldAtoms, operators]
      · rw [fieldFacts, operators]
    · simp only [keyed, Bool.not_false, if_true] at ran
      obtain ⟨placeholder, next, bound, done⟩ := stateT_bind_ok.mp ran
      obtain ⟨rfl, rfl⟩ := stateT_pure_ok.mp done
      obtain ⟨bound, ok, rfl, rfl⟩ := bindNext_ok bound
      cases ok
      refine single_ran (by rw [operatorsOf, if_neg keyed]) rfl ?_ rfl
      rw [columnOf, text_compare]
      simp only [castPieces, render, flatMap_nil, append_nil]
      rfl
  | bool value => exact plain_ran rfl rfl ran
  | number digits => exact plain_ran rfl rfl ran
  | str value => exact plain_ran rfl rfl ran
  | arr items => exact plain_ran rfl rfl ran

theorem buildFieldCondition_ran (ran : buildFieldCondition types name value st = .ok (text, st')) :
    Ran (fieldFacts types name value) st text st' := by
  obtain ⟨spelled, bound⟩ := buildFieldCondition_text ran
  exact ⟨_, spelled, fieldAtoms_compiled types name st.idx value, bound⟩

/-- The same for a list of clauses or entries. -/
def RanAll (parts : List Facts) (st : Binds) (texts : List Text) (st' : Binds) : Prop :=
  ∃ groups, texts = groups.map conjText ∧ CompiledAll parts st.idx groups ∧
    st' = st.after (Facts.all parts).operands

theorem RanAll.nil (st : Binds) : RanAll [] st [] st :=
  ⟨[], rfl, .nil st.idx, (after_nil st).symm⟩

theorem RanAll.cons {facts : Facts} {parts : List Facts} {st st₁ st' : Binds} {text : Text} {texts : List Text}
    (first : Ran facts st text st₁) (others : RanAll parts st₁ texts st') :
    RanAll (facts :: parts) st (text :: texts) st' := by
  obtain ⟨atoms, rfl, compiled, rfl⟩ := first
  obtain ⟨groups, rfl, more, rfl⟩ := others
  exact ⟨atoms :: groups, rfl, .cons compiled more, (after_append st _ _).symm⟩

/-- Texts joined by `AND` are the conjunction of what they say. -/
theorem RanAll.conj {texts : List Text} (ran : RanAll parts st texts st') :
    Ran (Facts.all parts) st (joinParts " AND " id texts) st' := by
  obtain ⟨groups, rfl, compiled, rfl⟩ := ran
  rw [joinParts, isEmpty_map]
  cases empty : groups.isEmpty with
  | true =>
    obtain rfl := List.isEmpty_iff.mp empty
    cases compiled
    exact ⟨[.const true], rfl, .nothing st.idx, rfl⟩
  | false =>
    have visible := isEmpty_eq_false_iff.mp empty
    exact ⟨groups.flatten, conjText_flatten compiled.nonempty, compiled.conj visible, rfl⟩

/-- The same in parentheses, as `$and` writes it. -/
theorem RanAll.parens {parts : List Facts} {st st' : Binds} {texts : List Text} (ran : RanAll parts st texts st') :
    Ran (Facts.all parts) st
      (joinParts " AND " (fun text => "(" ++ text ++ ")") texts) st' := by
  obtain ⟨groups, rfl, compiled, rfl⟩ := ran
  rw [joinParts, isEmpty_map]
  cases empty : groups.isEmpty with
  | true =>
    obtain rfl := List.isEmpty_iff.mp empty
    cases compiled
    exact ⟨[.const true], rfl, .nothing st.idx, rfl⟩
  | false =>
    have visible := isEmpty_eq_false_iff.mp empty
    refine ⟨[.group [groups.flatten]], ?_, (compiled.conj visible).parens, rfl⟩
    rw [if_neg Bool.false_ne_true, conjText_flatten compiled.nonempty, conjText_parens]

theorem RanAll.disj {parts : List Facts} {st st' : Binds} {texts : List Text} (ran : RanAll parts st texts st') :
    Ran (Facts.any parts) st
      (joinParts " OR " (fun text => "(" ++ text ++ ")") texts) st' := by
  obtain ⟨groups, rfl, compiled, rfl⟩ := ran
  rw [joinParts, isEmpty_map]
  cases empty : groups.isEmpty with
  | true =>
    obtain rfl := List.isEmpty_iff.mp empty
    cases compiled
    exact ⟨[.const true], rfl, .nothing st.idx, rfl⟩
  | false =>
    have visible := isEmpty_eq_false_iff.mp empty
    refine ⟨[.group groups], ?_, compiled.disj visible, rfl⟩
    rw [if_neg Bool.false_ne_true, conjText_disj]

theorem Ran.not (ran : Ran facts st text st') :
    Ran facts.not st ("NOT (" ++ text ++ ")") st' := by
  obtain ⟨atoms, rfl, compiled, rfl⟩ := ran
  exact ⟨[.not (.group [atoms])], (conjText_not atoms).symm, compiled.not, rfl⟩

theorem consRest_ran {rest : Build (List Text)} {part : Text} {parts : List Text}
    (ran : (rest >>= fun others => pure (part :: others)) st = .ok (parts, st')) :
    ∃ others, rest st = .ok (others, st') ∧ parts = part :: others := by
  obtain ⟨others, next, many, done⟩ := stateT_bind_ok.mp ran
  obtain ⟨rfl, rfl⟩ := stateT_pure_ok.mp done
  exact ⟨others, many, rfl⟩

/-- What holds of every text of a compilation, as it holds of the conditions on single
    fields and every way of joining texts keeps it. -/
structure Closed (types : FieldTypes) (one : Facts → Binds → Text → Binds → Prop)
    (all : List Facts → Binds → List Text → Binds → Prop) : Prop where
  nil : ∀ st, all [] st [] st
  cons : ∀ {facts parts st st₁ st' text texts}, one facts st text st₁ → all parts st₁ texts st' →
    all (facts :: parts) st (text :: texts) st'
  field : ∀ {name value st text st'}, buildFieldCondition types name value st = .ok (text, st') →
    one (fieldFacts types name value) st text st'
  not : ∀ {facts st text st'}, one facts st text st' → one facts.not st ("NOT (" ++ text ++ ")") st'
  conj : ∀ {parts st texts st'}, all parts st texts st' → one (Facts.all parts) st (joinParts " AND " id texts) st'
  parens : ∀ {parts st texts st'}, all parts st texts st' →
    one (Facts.all parts) st (joinParts " AND " (fun text => "(" ++ text ++ ")") texts) st'
  disj : ∀ {parts st texts st'}, all parts st texts st' →
    one (Facts.any parts) st (joinParts " OR " (fun text => "(" ++ text ++ ")") texts) st'

section Closed

variable {one : Facts → Binds → Text → Binds → Prop} {all : List Facts → Binds → List Text → Binds → Prop}

mutual

theorem Closed.clause (closed : Closed types one all) : ∀ (clause : Json) {st st' : Binds} {text : Text},
    buildWhereClause types clause st = .ok (text, st') → one (clauseFacts types clause) st text st'
  | .obj entries, st, st', text, ran => by
    rw [buildWhereClause] at ran
    obtain ⟨parts, next, loop, done⟩ := stateT_bind_ok.mp ran
    obtain ⟨rfl, rfl⟩ := stateT_pure_ok.mp done
    exact closed.conj (closed.entries entries loop)
  | .null, _, _, _, ran | .bool _, _, _, _, ran | .number _, _, _, _, ran | .str _, _, _, _, ran
  | .arr _, _, _, _, ran => by cases ran

theorem Closed.entries (closed : Closed types one all) : ∀ (entries : List (Text × Json)) {st st' : Binds}
    {parts : List Text}, buildParts types entries st = .ok (parts, st') → all (entriesFacts types entries) st parts st'
  | [], st, st', parts, ran => by
    obtain ⟨rfl, rfl⟩ := stateT_pure_ok.mp ran
    exact closed.nil st
  | (key, value) :: rest, st, st', parts, ran => by
    rw [buildParts] at ran
    rw [entriesFacts]
    by_cases isAnd : key = "$and"
    · rw [if_pos (.inl isAnd)] at ran
      rw [if_pos isAnd]
      obtain ⟨part, st₁, one, more⟩ := stateT_bind_ok.mp ran
      obtain ⟨others, many, rfl⟩ := consRest_ran more
      exact closed.cons ((closed.logical value one).1 isAnd) (closed.entries rest many)
    by_cases isOr : key = "$or"
    · rw [if_pos (.inr isOr)] at ran
      rw [if_neg isAnd, if_pos isOr]
      obtain ⟨part, st₁, one, more⟩ := stateT_bind_ok.mp ran
      obtain ⟨others, many, rfl⟩ := consRest_ran more
      exact closed.cons ((closed.logical value one).2 isAnd) (closed.entries rest many)
    rw [if_neg (not_or.mpr ⟨isAnd, isOr⟩)] at ran
    rw [if_neg isAnd, if_neg isOr]
    by_cases isNot : key = "$not"
    · rw [if_pos isNot] at ran
      rw [if_pos isNot]
      obtain ⟨sub, st₁, inner, more⟩ := stateT_bind_ok.mp ran
      obtain ⟨others, many, rfl⟩ := consRest_ran more
      exact closed.cons (closed.not (closed.clause value inner)) (closed.entries rest many)
    · rw [if_neg isNot] at ran
      rw [if_neg isNot]
      obtain ⟨part, st₁, one, more⟩ := stateT_bind_ok.mp ran
      obtain ⟨others, many, rfl⟩ := consRest_ran more
      exact closed.cons (closed.field one) (closed.entries rest many)

theorem Closed.logical (closed : Closed types one all) : ∀ (value : Json) {op : Text} {st st' : Binds} {text : Text},
    buildLogical types op value st = .ok (text, st') →
      (op = "$and" → one (Facts.all (listFacts types value)) st text st') ∧
      (op ≠ "$and" → one (Facts.any (listFacts types value)) st text st')
  | .arr items, op, st, st', text, ran => by
    rw [buildLogical] at ran
    obtain ⟨subs, next, clauses, done⟩ := stateT_bind_ok.mp ran
    obtain ⟨rfl, rfl⟩ := stateT_pure_ok.mp done
    have compiled := closed.clauses items clauses
    refine ⟨fun isAnd => ?_, fun isOr => ?_⟩
    · rw [if_pos isAnd]
      exact closed.parens compiled
    · rw [if_neg isOr]
      exact closed.disj compiled
  | .null, _, _, _, _, ran | .bool _, _, _, _, _, ran | .number _, _, _, _, _, ran | .str _, _, _, _, _, ran
  | .obj _, _, _, _, _, ran => by cases ran

theorem Closed.clauses (closed : Closed types one all) : ∀ (items : List Json) {st st' : Binds} {texts : List Text},
    buildClauses types items st = .ok (texts, st') → all (clausesFacts types items) st texts st'
  | [], st, st', texts, ran => by
    obtain ⟨rfl, rfl⟩ := stateT_pure_ok.mp ran
    exact closed.nil st
  | item :: rest, st, st', texts, ran => by
    rw [buildClauses] at ran
    obtain ⟨sub, st₁, one, more⟩ := stateT_bind_ok.mp ran
    obtain ⟨subs, many, rfl⟩ := consRest_ran more
    exact closed.cons (closed.clause item one) (closed.clauses rest many)

end

end Closed

theorem buildWhereClause_ran (types : FieldTypes) (clause : Json) {st st' : Binds} {text : Text}
    (ran : buildWhereClause types clause st = .ok (text, st')) : Ran (clauseFacts types clause) st text st' := by
  have closed : Closed types Ran RanAll :=
    ⟨.nil, .cons, buildFieldCondition_ran, .not, RanAll.conj, RanAll.parens, RanAll.disj⟩
  exact closed.clause clause ran

end RootCx.Crud
