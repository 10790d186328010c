import RootCx.Crud.Query
import RootCx.Postgres.Names

/-! # Sensitive fields stay hidden

The texts of a statement name no sensitive field, and the session reads no
sensitive column whatever its statement names, so an answer says nothing of them.
Row security is decided before: it may itself look at a sensitive column, when
that is the one that owns the row.
-/

namespace RootCx.Crud

open RootCx.Text RootCx.Postgres RootCx.RowAccess RootCx.RowSecurity RootCx.Runs List

/-! ## The names of a condition -/

theorem castPieces_quiet (cast : Option Cast) : Quiet (render (castPieces cast)) := by
  cases cast with
  | none => exact ⟨not_mem_nil, not_mem_nil⟩
  | some cast => cases cast <;> decide

theorem digits_quiet (index : Nat) : Quiet ('$' :: Nat.toDigits 10 index) := by
  have digit {c : Char} (mem : c ∈ Nat.toDigits 10 index) : c.isDigit = true :=
    Nat.isDigit_of_mem_toDigits (by decide) (by decide) mem
  simp only [Quiet, mem_cons, not_or]
  exact ⟨⟨by decide, fun mem => absurd (digit mem) (by decide)⟩,
    by decide, fun mem => absurd (digit mem) (by decide)⟩

theorem source_spells (source : Source) : Spells source.body.text (Scalar.columns ⟨source, none⟩) := by
  cases source with
  | column name => exact quoteIdent_spells name
  | param index => exact (digits_quiet index).spells

theorem scalar_spells (space : Bool) (value : Scalar) : Spells (render (scalarPieces space value)) value.columns := by
  have bare := (source_spells value.source).quiet (castPieces_quiet value.cast)
  cases space with
  | true =>
    have front : Quiet [' '] := by decide
    exact front.before bare
  | false => exact bare

theorem items_spell (items : List Scalar) : Spells (render (itemPieces items)) (items.flatMap Scalar.columns) := by
  induction items with
  | nil => exact fun rest _ => rfl
  | cons item items ih =>
    have start : (render (itemPieces items)).head? ≠ some '"' := by
      cases items with
      | nil => exact fun same => nomatch same
      | cons next items => exact fun same => absurd (Option.some.inj same) (by decide)
    have together := (scalar_spells true item).append ih start
    rw [itemPieces, render_cons, render_append]
    exact Quiet.before (by decide : Quiet ",") together

theorem list_spells (items : List Scalar) : Spells (render (listPieces items)) (items.flatMap Scalar.columns) := by
  cases items with
  | nil => exact fun rest _ => rfl
  | cons item items =>
    have start : (render (itemPieces items)).head? ≠ some '"' := by
      cases items with
      | nil => exact fun same => nomatch same
      | cons next items => exact fun same => absurd (Option.some.inj same) (by decide)
    rw [listPieces, render_append]
    exact (scalar_spells false item).append (items_spell items) start

theorem term_spells (term : Term) : Spells (render (termPieces term)) term.columns := by
  cases term with
  | scalar value => exact scalar_spells true value
  | array items cast =>
    have closing : Quiet (render (glued (.punct "]") :: castPieces cast)) :=
      Quiet.append (by decide : Quiet "]") (castPieces_quiet cast)
    have inner := (list_spells items).quiet closing
    rw [← render_append] at inner
    have front : Quiet (render [spaced (.word "ARRAY"), glued (.punct "[")]) := by decide
    exact front.before inner

theorem test_spells (test : Test) : Spells (render (testPieces test)) test.columns := by
  cases test with
  | isNull value negated =>
    have words : Quiet (render (spaced (.word "IS") :: (notPieces negated ++ [spaced (.word "NULL")]))) := by
      cases negated <;> decide
    rw [testPieces, render_append]
    exact (scalar_spells false value).quiet words
  | inList value items negated =>
    have words : Quiet (render (notPieces negated ++ [spaced (.word "IN"), openParen true])) := by
      cases negated <;> decide
    have closing : Quiet (render [closeParen]) := by decide
    have inner := (list_spells items).quiet closing
    have shape : testPieces (.inList value items negated) = scalarPieces false value ++
        ((notPieces negated ++ [spaced (.word "IN"), openParen true]) ++ (listPieces items ++ [closeParen])) := by
      simp [testPieces]
    rw [shape, render_append, render_append _ (listPieces items ++ _), render_append (listPieces items)]
    exact (scalar_spells false value).behind words (by cases negated <;> decide) inner
  | compare op value other =>
    have word : Quiet (render [spaced op.body]) := by cases op <;> decide
    have shape : testPieces (.compare op value other) = scalarPieces false value ++ ([spaced op.body] ++ termPieces other) :=
      rfl
    have both := (scalar_spells false value).behind word (by cases op <;> decide) (term_spells other)
    rw [shape, render_append, render_append]
    cases other with
    | scalar other => exact both
    | array items cast => exact both

theorem atom_spells (atom : Atom) : Spells atom.text atom.columns := by
  induction atom with
  | hole => exact fun rest _ => rfl
  | const value => exact Quiet.spells (by cases value <;> decide)
  | test test => exact test_spells test
  | not atom ih => exact Quiet.before (by decide : Quiet "NOT ") ih
  | group choices ih =>
    have conj (atoms : List Atom) (mem : atoms ∈ choices) :
        Spells (join " AND " (atoms.map Atom.text)) (atoms.flatMap Atom.columns) :=
      .join (by decide) (by decide) (ih atoms mem)
    have disj : Spells (join " OR " (choices.map fun atoms => join " AND " (atoms.map Atom.text)))
        (choices.flatMap conjColumns) := .join (by decide) (by decide) conj
    have columns : (Atom.group choices).columns = choices.flatMap conjColumns := by
      rw [← group_columns, conjColumns, flatMap_cons, flatMap_nil, append_nil]
    rw [text_group, columns, choicesText, map_map, append_assoc]
    exact Quiet.before (by decide : Quiet "(") (disj.quiet (by decide))

theorem conj_spells (atoms : List Atom) : Spells (conjText atoms) (conjColumns atoms) :=
  .join (by decide) (by decide) fun atom _ => atom_spells atom

/-! ## The texts of a statement -/

/-- The text names fields that are not sensitive. -/
def Spared (types : FieldMap) (text : Text) : Prop :=
  ∃ names, Spells text names ∧ ∀ name ∈ names, ¬types.Sensitive name

variable {types : FieldMap}

variable {text : Text}

theorem Spared.namesOf (spared : Spared types text) : ∀ name ∈ namesOf text, ¬types.Sensitive name := by
  obtain ⟨names, spells, plain⟩ := spared
  rwa [spells.namesOf_eq]

theorem Quiet.spared (quiet : Quiet text) : Spared types text := ⟨[], quiet.spells, by simp⟩

theorem Spared.wrap {front behind : Text} (left : Quiet front) (spared : Spared types text)
    (right : Quiet behind) : Spared types (front ++ text ++ behind) := by
  obtain ⟨names, spells, plain⟩ := spared
  exact ⟨names, (left.before spells).quiet right, plain⟩

theorem Spared.join {separator : Text} (quiet : Quiet separator) (visible : separator ≠ []) {texts : List Text}
    (spared : ∀ text ∈ texts, Spared types text) : Spared types (join separator texts) := by
  have spells : ∀ text ∈ texts, Spells text (Postgres.namesOf text) := by
    intro text mem
    obtain ⟨names, spells, -⟩ := spared text mem
    rwa [spells.namesOf_eq]
  have together := @Spells.join Text separator quiet visible id _ texts spells
  rw [map_id] at together
  refine ⟨_, together, fun name mem => ?_⟩
  obtain ⟨text, inside, found⟩ := mem_flatMap.mp mem
  exact (spared text inside).namesOf name found

theorem joinParts_spared {separator : Text} (quiet : Quiet separator) (visible : separator ≠ []) {wrap : Text → Text}
    (wraps : ∀ text, Spared types text → Spared types (wrap text)) {parts : List Text}
    (spared : ∀ part ∈ parts, Spared types part) : Spared types (joinParts separator wrap parts) := by
  unfold joinParts
  split
  · exact Quiet.spared (by decide)
  · exact wraps _ (.join quiet visible spared)

theorem parens_spared (spared : Spared types text) : Spared types ("(" ++ text ++ ")") :=
  .wrap (by decide) spared (by decide)

theorem field_spared {name : Text} {value : Json} {st st' : Binds}
    (accepted : buildFieldCondition types.get name value st = .ok (text, st')) : Spared types text := by
  obtain ⟨atoms, rfl, compiled, -⟩ := buildFieldCondition_ran accepted
  have plain : ¬types.Sensitive name := by
    intro sensitive
    rw [buildFieldCondition, if_pos (show (types.get name).any Field.sensitive = true from sensitive)] at accepted
    cases accepted
  refine ⟨conjColumns atoms, conj_spells atoms, fun column mem => ?_⟩
  rw [compiled.columns] at mem
  obtain ⟨operator, -, looked⟩ := mem_flatMap.mp mem
  split at looked
  · obtain rfl := mem_singleton.mp looked
    exact plain
  · exact absurd looked not_mem_nil

theorem clause_spared (clause : Json) {st st' : Binds} {text : Text}
    (accepted : buildWhereClause types.get clause st = .ok (text, st')) : Spared types text := by
  have closed : Closed types.get (fun _ _ text _ => Spared types text)
      (fun _ _ texts _ => ∀ text ∈ texts, Spared types text) :=
    { nil := fun _ _ mem => nomatch mem
      cons := fun first rest => forall_mem_cons.mpr ⟨first, rest⟩
      field := field_spared
      not := fun spared => .wrap (by decide) spared (by decide)
      conj := joinParts_spared (by decide) (by decide) fun _ spared => spared
      parens := joinParts_spared (by decide) (by decide) fun _ => parens_spared
      disj := joinParts_spared (by decide) (by decide) fun _ => parens_spared }
  exact closed.clause clause accepted

/-! ## Sort and projection -/

theorem not_sensitive_of_readable {name : Text} (readable : (types.get name).any (!·.sensitive) = true) :
    ¬types.Sensitive name := by
  unfold FieldMap.Sensitive
  cases found : types.get name with
  | none => exact fun sensitive => nomatch sensitive
  | some field =>
    rw [found] at readable
    simpa using readable

section Entity

variable {parseDecimal : Text → Option Text} {entity : EntityContract}

theorem fieldTypes_entries (typed : fieldTypes parseDecimal entity = .ok types) :
    ∃ declared : List (Text × Field), types.entries = declared ++ systemFieldTypes ∧
      ∀ entry ∈ declared, ∃ field ∈ entity.fields, entry.1 = field.name ∧ entry.2.sensitive = field.sensitive := by
  obtain ⟨declared, read, done⟩ := bind_eq_ok.mp typed
  cases done
  refine ⟨declared, rfl, fun entry mem => ?_⟩
  obtain ⟨field, inside, one⟩ := mem_of_mapM_ok read mem
  obtain ⟨fieldType, -, built⟩ := bind_eq_ok.mp one
  cases built
  exact ⟨field, inside, rfl, rfl⟩

theorem created_at_readable (typed : fieldTypes parseDecimal entity = .ok types) :
    ¬types.Sensitive "created_at" := by
  obtain ⟨declared, entries, -⟩ := fieldTypes_entries typed
  have found : types.get "created_at" = some ⟨.timestamp, false⟩ := by
    rw [FieldMap.get, entries, reverse_append]
    rfl
  rw [FieldMap.Sensitive, found]
  exact Bool.false_ne_true

theorem sort_spared (typed : fieldTypes parseDecimal entity = .ok types) (field : Option Text) :
    Spared types (validateSortField field types) := by
  have spared : Spared types (quoteIdent "created_at") := by
    refine ⟨["created_at"], quoteIdent_spells _, ?_⟩
    rw [forall_mem_singleton]
    exact created_at_readable typed
  have quoted : quoteIdent "created_at" = "\"created_at\"" := by decide
  rw [quoted] at spared
  cases field with
  | none => exact spared
  | some field =>
    show Spared types (if (types.get field).any (!·.sensitive) then quoteIdent field else "\"created_at\"")
    split
    case isTrue readable =>
      refine ⟨_, quoteIdent_spells field, fun name mem => ?_⟩
      obtain rfl := mem_singleton.mp mem
      exact not_sensitive_of_readable readable
    case isFalse => exact spared

end Entity

theorem mem_chunksFrom {α : Type} {size : Nat} {current rest chunk : List α} {x : α}
    (mem : chunk ∈ chunksFrom size current rest) (inside : x ∈ chunk) : x ∈ current ∨ x ∈ rest := by
  induction rest generalizing current with
  | nil =>
    rw [chunksFrom] at mem
    split at mem
    · exact absurd mem not_mem_nil
    · exact .inl (mem_singleton.mp mem ▸ inside)
  | cons y rest ih =>
    rw [chunksFrom] at mem
    split at mem
    · obtain rfl | later := mem_cons.mp mem
      · exact .inl inside
      · obtain here | there := ih later
        · exact .inr (mem_singleton.mp here ▸ mem_cons_self)
        · exact .inr (mem_cons_of_mem y there)
    · obtain here | there := ih mem
      · rw [mem_append, mem_singleton] at here
        obtain old | rfl := here
        · exact .inl old
        · exact .inr mem_cons_self
      · exact .inr (mem_cons_of_mem y there)

theorem rowEntry_spells (name : Text) : Spells (rowEntry "t" types name) [name] := by
  have cast : Quiet (if (types.get name).any (·.fieldType.isDecimal) then "::text" else []) := by
    split
    · decide
    · exact ⟨not_mem_nil, not_mem_nil⟩
  have separator : Quiet (", " ++ "t" ++ ".") := by decide
  have column := (quoteIdent_spells name).quiet cast
  have entry := (quoteLiteral_spells name).behind separator (by decide) column
  rw [rowEntry]
  simpa only [append_assoc, nil_append] using entry

theorem row_spared : Spared types (rowJson "t" types) := by
  rw [rowJson]
  split
  case isTrue => exact ⟨[], quoteLiteral_spells "\x7b\x7d" |>.quiet (by decide : Quiet "::jsonb"), by simp⟩
  case isFalse =>
    apply Spared.join (by decide) (by decide)
    intro text mem
    obtain ⟨chunk, inside, rfl⟩ := mem_map.mp mem
    apply Spared.wrap (by decide) _ (by decide)
    refine ⟨_, .join (by decide) (by decide) fun name _ => rowEntry_spells name, fun name listed => ?_⟩
    obtain ⟨other, here, same⟩ := mem_flatMap.mp listed
    obtain rfl := mem_singleton.mp same
    obtain nothing | readable := mem_chunksFrom inside here
    · exact absurd nothing not_mem_nil
    · rw [sortedNames, mem_insertionSort, mem_filter] at readable
      exact not_sensitive_of_readable readable.2

/-! ## The whole statement -/

/-- The statement of a request that was accepted. -/
def Asks (types : FieldMap) (query : Query) : Prop :=
  (∃ body, queryRecords types body = .ok query) ∨ ∃ params, listRecords types params = .ok query

theorem listConditions_spared {params : List (Text × Text)} {st st' : Binds} {conditions : List Text}
    (accepted : listConditions types params st = .ok (conditions, st')) :
    ∀ condition ∈ conditions, Spared types condition := by
  induction params generalizing st conditions with
  | nil =>
    obtain ⟨rfl, rfl⟩ := stateT_pure_ok.mp accepted
    exact fun _ mem => nomatch mem
  | cons entry params ih =>
    rw [listConditions] at accepted
    split at accepted
    · exact ih accepted
    · obtain ⟨condition, st₁, one, more⟩ := stateT_bind_ok.mp accepted
      obtain ⟨others, many, rfl⟩ := consRest_ran more
      intro text mem
      obtain rfl | older := mem_cons.mp mem
      · exact field_spared one
      · exact ih many text older

theorem queryConditions_spared {clause : Option Json} {st st' : Binds} {conditions : List Text}
    (accepted : queryConditions types clause st = .ok (conditions, st')) :
    ∀ condition ∈ conditions, Spared types condition := by
  cases clause with
  | none =>
    obtain ⟨rfl, rfl⟩ := stateT_pure_ok.mp accepted
    exact fun _ mem => nomatch mem
  | some clause =>
    obtain ⟨sql, st₁, built, done⟩ := stateT_bind_ok.mp accepted
    obtain ⟨rfl, rfl⟩ := stateT_pure_ok.mp done
    intro condition mem
    split at mem
    · exact absurd mem not_mem_nil
    · obtain rfl := mem_singleton.mp mem
      exact clause_spared clause built

theorem order_quiet (order : Option Text) : Quiet (validateOrder order) := by
  unfold validateOrder
  split
  · decide
  · decide

theorem Asks.spared {parseDecimal : Text → Option Text} {entity : EntityContract} {query : Query}
    (typed : fieldTypes parseDecimal entity = .ok types) (asks : Asks types query) :
    (∀ condition ∈ query.conditions, Spared types condition) ∧ Spared types query.sort ∧ Quiet query.order ∧
      Spared types query.row := by
  obtain ⟨body, accepted⟩ | ⟨params, accepted⟩ := asks
  · obtain ⟨⟨conditions, st⟩, compiled, done⟩ := bind_eq_ok.mp accepted
    cases done
    exact ⟨queryConditions_spared compiled, sort_spared typed _, order_quiet _, row_spared⟩
  · obtain ⟨⟨conditions, st⟩, compiled, done⟩ := bind_eq_ok.mp accepted
    cases done
    exact ⟨listConditions_spared compiled, sort_spared typed _, order_quiet _, row_spared⟩

/-! ## What an answer depends on -/

section Congruence

variable {server : Server} {row row' : Row server.Value} {params : Nat → Option Text}

theorem scalar_congr {value : Scalar} (agree : ∀ name ∈ value.columns, row name = row' name) :
    value.eval server row params = value.eval server row' params := by
  obtain ⟨source, cast⟩ := value
  cases source with
  | column name =>
    have same := agree name (mem_singleton.mpr rfl)
    simp only [Scalar.eval, same]
  | param index => rfl

theorem items_congr {items : List Scalar} (agree : ∀ name ∈ items.flatMap Scalar.columns, row name = row' name) :
    ∀ item ∈ items, item.eval server row params = item.eval server row' params := fun item mem =>
  scalar_congr fun name column => agree name (mem_flatMap.mpr ⟨item, mem, column⟩)

theorem test_congr {test : Test} (agree : ∀ name ∈ test.columns, row name = row' name) :
    test.eval server row params = test.eval server row' params := by
  cases test with
  | isNull value negated => rw [Test.eval, Test.eval, scalar_congr agree]
  | inList value items negated =>
    rw [Test.columns, forall_mem_append] at agree
    have listed : ∀ item ∈ items, item.eval server row params = item.eval server row' params := items_congr agree.2
    rw [Test.eval, Test.eval, scalar_congr agree.1]
    congr 2
    exact map_congr_left fun item mem => by rw [listed item mem]
  | compare op value other =>
    cases other with
    | scalar other =>
      rw [Test.columns, forall_mem_append] at agree
      rw [Test.eval, Test.eval, Term.eval, Term.eval, scalar_congr agree.1, scalar_congr agree.2]
    | array items cast =>
      rw [Test.columns, forall_mem_append] at agree
      have listed : items.map (Scalar.eval server row params) = items.map (Scalar.eval server row' params) :=
        map_congr_left (items_congr agree.2)
      rw [Test.eval, Test.eval, Term.eval, Term.eval, scalar_congr agree.1, listed]

theorem atom_congr {atom : Atom} (agree : ∀ name ∈ atom.columns, row name = row' name) :
    atom.eval server row params = atom.eval server row' params := by
  induction atom with
  | hole => rfl
  | const value => rfl
  | test test => exact test_congr agree
  | not atom ih => exact congrArg Truth.not (ih agree)
  | group choices ih =>
    have members : choices.map (·.map (Atom.eval server row params)) =
        choices.map (·.map (Atom.eval server row' params)) :=
      map_congr_left fun atoms inside => map_congr_left fun atom mem =>
        ih atoms inside atom mem fun name column =>
          agree name (mem_columns_group inside mem column)
    exact (fold_group choices).trans ((congrArg choicesEval members).trans (fold_group choices).symm)

theorem choices_congr {choices : List (List Atom)} (agree : ∀ name ∈ choices.flatMap conjColumns, row name = row' name) :
    choicesEval (choices.map (·.map (Atom.eval server row params))) =
      choicesEval (choices.map (·.map (Atom.eval server row' params))) := by
  refine congrArg choicesEval (map_congr_left fun atoms inside => map_congr_left fun atom mem => ?_)
  exact atom_congr fun name column =>
    agree name (mem_flatMap.mpr ⟨atoms, inside, mem_flatMap.mpr ⟨atom, mem, column⟩⟩)

end Congruence

/-- The row without its sensitive values. -/
def hide {Value : Type} (types : FieldMap) (row : Row Value) : Row Value := fun name =>
  if types.Sensitive name then none else row name

theorem hide_of_plain {Value : Type} {row : Row Value} {name : Text} (plain : ¬types.Sensitive name) :
    hide types row name = row name := if_neg plain

theorem map_hide {Value : Type} {row : Row Value} {names : List Text} (plain : ∀ name ∈ names, ¬types.Sensitive name) :
    names.map (hide types row) = names.map row :=
  map_congr_left fun name mem => hide_of_plain (plain name mem)

section Page

variable {server : Server} {rank : Text → List (Option server.Value) → List (Option server.Value) → Bool}
  {query : Query} {choices : List (List Atom)} {sort projected : List Text}

theorem meets_hide (plain : ∀ name ∈ choices.flatMap conjColumns, ¬types.Sensitive name) (row : Row server.Value) :
    meets server query choices (hide types row) = meets server query choices row := by
  have same := @choices_congr server (hide types row) row query.value choices fun name column =>
    hide_of_plain (plain name column)
  rw [meets, meets, same]

theorem sorted_hide (plain : ∀ name ∈ keyColumns query sort, ¬types.Sensitive name) (rows : List (Row server.Value)) :
    sorted server rank query sort (rows.map (hide types)) = (sorted server rank query sort rows).map (hide types) := by
  refine (map_mergeSort fun l _ r _ => ?_).symm
  rw [map_hide plain, map_hide plain]

theorem pageOf_hide (ranked : ∀ name ∈ keyColumns query sort, ¬types.Sensitive name)
    (shown : ∀ name ∈ projected, ¬types.Sensitive name) (kept : List (Row server.Value)) :
    pageOf server rank query sort projected (kept.map (hide types)) = pageOf server rank query sort projected kept := by
  have columns (row : Row server.Value) : projected.map (hide types row) = projected.map row := map_hide shown
  simp only [pageOf, sorted_hide ranked, ← map_drop, ← map_take, map_map, Function.comp_def, columns,
    isEmpty_map, length_map]

end Page

/-! ## The session -/

section Session

variable {parseDecimal : Text → Option Text} {entities : List EntityContract} {entity : EntityContract}
  {catalog : Catalog} {schema table guard : Text} {owners : OwnerMap} {facts : TableFacts} {shared : Option Predicate}
  {approvedRead : Bool} {statements : List Statement} {before access : Access}

/-- What is sensitive for a query is sensitive for the grants. -/
theorem sensitiveOf_of_sensitive (typed : fieldTypes parseDecimal entity = .ok types)
    (named : entityNamed entities table = some entity) {name : Text} (sensitive : types.Sensitive name) :
    name ∈ sensitiveOf entities table := by
  obtain ⟨declared, entries, fields⟩ := fieldTypes_entries typed
  obtain ⟨field, got, flagged⟩ : ∃ field, types.get name = some field ∧ field.sensitive = true := by
    unfold FieldMap.Sensitive at sensitive
    cases got : types.get name with
    | none =>
      rw [got] at sensitive
      cases sensitive
    | some field =>
      rw [got] at sensitive
      exact ⟨field, rfl, sensitive⟩
  obtain ⟨entry, found, rfl⟩ := Option.map_eq_some_iff.mp got
  have key : entry.1 = name := by simpa using find?_some found
  have mem := mem_reverse.mp (mem_of_find?_eq_some found)
  rw [entries, mem_append] at mem
  obtain inside | system := mem
  · obtain ⟨field, declaredField, same, flag⟩ := fields entry inside
    rw [sensitiveOf, named]
    refine mem_map.mpr ⟨field, mem_filter.mpr ⟨declaredField, flag ▸ flagged⟩, ?_⟩
    rw [← same, key]
  · have readable : ∀ entry ∈ systemFieldTypes, entry.2.sensitive = false := by decide
    rw [readable entry system] at flagged
    cases flagged

theorem not_sensitive_of_executorReads (typed : fieldTypes parseDecimal entity = .ok types)
    (named : entityNamed entities table = some entity) (described : tableFacts catalog schema table owners = .ok facts)
    (planned : tableRls schema table guard facts shared (sensitiveOf entities table) approvedRead = .ok statements)
    (same : before.columns = facts.columns) (ran : run step before statements = some access) {name : Text}
    (column : name ∈ access.columns) (reads : executorReads access name = true) : ¬types.Sensitive name := by
  obtain ⟨-, refused⟩ | ⟨-, done⟩ := run_tableRls (resolvers_once described) planned same
  · exact nomatch ran.symm.trans refused
  · cases ran.symm.trans done
    rw [executorReads_settled _ _ (show name ∈ before.columns from column)] at reads
    exact fun sensitive => of_decide_eq_true reads (sensitiveOf_of_sensitive typed named sensitive)

end Session

theorem map_filter_of_maps {α β : Type} {f : α → β} {p q : α → Bool} {xs ys : List α} (same : xs.map f = ys.map f)
    (agree : xs.map p = ys.map q) : (xs.filter p).map f = (ys.filter q).map f := by
  induction xs generalizing ys with
  | nil =>
    cases ys with
    | nil => rfl
    | cons y ys => cases same
  | cons x xs ih =>
    cases ys with
    | nil => cases same
    | cons y ys =>
      obtain ⟨head, tail⟩ := cons.inj same
      obtain ⟨kept, rest⟩ := cons.inj agree
      have others := ih tail rest
      rw [filter_cons, filter_cons, kept]
      split
      · rw [map_cons, map_cons, head, others]
      · exact others

/-- A session that reads no sensitive column gets an answer without them. -/
theorem answer_congr {server : Server} {rank : Text → List (Option server.Value) → List (Option server.Value) → Bool}
    {whole : Query → List (List (Option server.Value)) → Answer server.Value} {access : Access} {query : Query}
    (plain : ∀ name ∈ access.columns, executorReads access name = true → ¬types.Sensitive name)
    {st st' : State server.Value} (same : st.visible.map (hide types) = st'.visible.map (hide types)) :
    answer server rank whole access query st = answer server rank whole access query st' := by
  unfold answer
  cases readWhere query.conditions with
  | none => rfl
  | some choices =>
    cases columnsRead query.sort with
    | none => rfl
    | some sort =>
      cases columnsRead query.row with
      | none => rfl
      | some projected =>
        dsimp only
        generalize sortColumns query projected sort = sort
        split
        case isTrue known =>
          split
          case isTrue granted =>
            have asked : ∀ name ∈ choices.flatMap conjColumns ++ (keyColumns query sort ++ projected),
                ¬types.Sensitive name := by
              intro name mem
              apply plain name _ (all_eq_true.mp granted name mem)
              have here := filter_eq_nil_iff.mp (List.isEmpty_iff.mp known) name mem
              simpa using here
            rw [forall_mem_append, forall_mem_append] at asked
            obtain ⟨condition, ranked, shown⟩ := asked
            have hidden (rows : List (Row server.Value)) :
                pageOf server rank query sort projected (rows.filter (meets server query choices)) =
                  pageOf server rank query sort projected ((rows.map (hide types)).filter (meets server query choices)) := by
              rw [filter_map, show meets server query choices ∘ hide types = meets server query choices from
                funext (meets_hide condition), pageOf_hide ranked shown]
            rw [hidden, hidden st'.visible, same]
          case isFalse => rfl
        case isFalse =>
          split
          case isTrue aliased =>
            obtain ⟨-, granted⟩ := Bool.and_eq_true_iff.mp aliased
            have columns (row : Row server.Value) : access.columns.map row = access.columns.map (hide types row) :=
              (map_hide fun name mem => plain name mem (all_eq_true.mp granted name mem)).symm
            have hidden (rows : List (Row server.Value)) : rows.map (fun row => access.columns.map row) =
                (rows.map (hide types)).map fun row => access.columns.map row := by
              rw [map_map]
              exact map_congr_left fun row _ => columns row
            rw [hidden, hidden st'.visible, same]
          case isFalse => rfl

/-- No text of an accepted query names a sensitive field, and two databases that
    differ in sensitive values only, and in which row security shows the caller the
    same rows, answer it alike. -/
theorem queries_hide_sensitive {parseDecimal : Text → Option Text} {entity : EntityContract} (typed : fieldTypes parseDecimal entity = .ok types)
    {query : Query} (asks : Asks types query) :
    (∀ name ∈ namesOf (joinWhere query.conditions), ¬types.Sensitive name) ∧
    (∀ name ∈ namesOf query.orderBy, ¬types.Sensitive name) ∧
    (∀ name ∈ namesOf query.row, ¬types.Sensitive name) ∧
    ∀ {entities : List EntityContract} {catalog : Catalog} {schema table guard : Text} {owners : OwnerMap}
      {facts : TableFacts} {shared : Option Predicate} {approvedRead : Bool} {statements : List Statement} {before access : Access},
      entityNamed entities table = some entity →
      tableFacts catalog schema table owners = .ok facts →
      tableRls schema table guard facts shared (sensitiveOf entities table) approvedRead = .ok statements →
      before.columns = facts.columns → run step before statements = some access →
      ∀ (server : Server) (rank : Text → List (Option server.Value) → List (Option server.Value) → Bool)
        (whole : Query → List (List (Option server.Value)) → Answer server.Value) (st st' : State server.Value),
        st.rows.map (hide types) = st'.rows.map (hide types) → st.rows.map st.sees = st'.rows.map st'.sees →
        answer server rank whole access query st = answer server rank whole access query st' := by
  obtain ⟨conditions, sort, order, row⟩ := asks.spared typed
  refine ⟨?_, ?_, row.namesOf, ?_⟩
  · unfold joinWhere
    split
    case isTrue => exact fun _ member => nomatch member
    case isFalse =>
      have joined : Spared types (join " AND ".toList query.conditions) := .join (by decide) (by decide) conditions
      have spared := Spared.wrap (by decide : Quiet " WHERE ".toList) joined
        (⟨List.not_mem_nil, List.not_mem_nil⟩ : Quiet [])
      rw [List.append_nil] at spared
      exact spared.namesOf
  · have tie : Quiet (if query.withTotal then ", t.id ASC".toList else []) := by
      split
      · decide
      · exact ⟨List.not_mem_nil, List.not_mem_nil⟩
    have behind : Quiet (" ".toList ++ query.order ++ if query.withTotal then ", t.id ASC".toList else []) :=
      (Quiet.append (by decide) order).append tie
    exact (Spared.wrap (by decide : Quiet " ORDER BY ".toList) sort behind).namesOf
  · intro entities catalog schema table guard owners facts shared approvedRead statements before access named described planned
      same ran server rank whole st st' rows seen
    apply answer_congr _ (map_filter_of_maps rows seen)
    exact fun name column reads => not_sensitive_of_executorReads typed named described planned same ran column reads

/-! A diary whose owner is sensitive: the caller's own pages are all it shows. -/

def diaryEntity : EntityContract where
  entityName := "diary"
  fields := [{ name := "owner_id", fieldType := "uuid", owner := true, sensitive := true },
    { name := "body", fieldType := "text" }]

def diaryTypes : FieldMap :=
  ⟨[("owner_id".toList, ⟨.uuid, true⟩), ("body".toList, ⟨.text, false⟩)] ++ systemFieldTypes⟩

theorem diary_typed : fieldTypes (fun _ => none) diaryEntity = .ok diaryTypes := rfl

def diaryCatalog : Catalog where
  columns _ := [("id", "uuid"), ("owner_id", "uuid"), ("body", "text"),
    ("created_at", "timestamptz"), ("updated_at", "timestamptz")]
  primaryKey _ := some "id"

def diaryOwners : OwnerMap := ownerMap [diaryEntity]

def diaryFacts : TableFacts :=
  ⟨["id", "owner_id", "body", "created_at", "updated_at"],
    some ⟨"owner_id", "uuid", []⟩⟩

theorem diary_described : tableFacts diaryCatalog "hr" "diary" diaryOwners = .ok diaryFacts := rfl

def diaryStatements : List Statement :=
  [Statement.grantUsage] ++ privileges diaryFacts.columns ["owner_id"] ++ [Statement.enableRowSecurity, .forceRowSecurity] ++ [] ++
    policyStatements "hr" "diary" "diary" (mineOf diaryFacts) none false

theorem diary_planned : tableRls "hr" "diary" "diary" diaryFacts none
    (sensitiveOf [diaryEntity] "diary") false = .ok diaryStatements := rfl

/-- Before its plan nothing is granted on the table. -/
def diaryBefore : Access := { ungoverned.access "diary" with columns := diaryFacts.columns }

def diaryAccess : Access :=
  settled ["owner_id"] diaryFacts.owner
    (declaredPolicies "hr" "diary" "diary" (mineOf diaryFacts) none false) diaryBefore

theorem diary_run : run step diaryBefore diaryStatements = some diaryAccess := by
  obtain ⟨⟨_, inside, _⟩, -⟩ | ⟨-, ran⟩ := run_tableRls (resolvers_once diary_described) diary_planned
    (show diaryBefore.columns = diaryFacts.columns from rfl)
  · exact absurd inside not_mem_nil
  · exact ran

/-- User `u1` has one permission. -/
def diarySystem (permission : String) : System where
  active app := app = "hr"
  permissions user := if user = "u1" then [permission.toList] else []
  approvals := []
  grants := []
  publications := []

def diarySetting : Setting → Option Text
  | .userId => some "u1"
  | .humanDataRequest => some "1"
  | _ => none

def diaryWorld (permission : String) : World Text where
  setting := diarySetting
  gate := gates (diarySystem permission) diarySetting
  cast _ user := user
  tables _ := []
  resolvers _ := none
  sharedKeys _ := []
  other _ _ := none

def diaryPage (owner : String) : Row Text := fun column =>
  if column = "owner_id" then some owner.toList
  else if column = "id" then some "d1"
  else none

def diaryState (permission owner : String) : State Text where
  rows := [diaryPage owner]
  rules := coreRules (diaryWorld permission) (fun _ => []) diaryAccess

/-- A server on which values are texts, compared as they are. -/
abbrev plainServer : Server where
  Value := Text
  text value := value
  cast _ value := value
  array _ := []
  holds _ left right := left = right

theorem diary_seen :
    (diaryState "app:hr:diary.read.own" "u1").sees (diaryPage "u1") = true ∧
    (diaryState "app:hr:diary.read.own" "u2").sees (diaryPage "u2") = false ∧
    (diaryState "app:hr:diary.read" "u1").sees (diaryPage "u1") = true ∧
    (diaryState "app:hr:diary.read" "u2").sees (diaryPage "u2") = true := by
  have rules (permission : String) :=
    coreRules_eq (diaryWorld permission) (fun _ => []) diary_described diary_planned rfl diary_run
  unfold State.sees diaryState
  rw [rules, rules]
  exact ⟨rfl, rfl, rfl, rfl⟩

theorem diary_hidden (permission : String) : (diaryState permission "u1").rows.map (hide diaryTypes) =
    (diaryState permission "u2").rows.map (hide diaryTypes) := by
  refine congrArg (· :: []) (funext fun column => ?_)
  have owner : diaryTypes.Sensitive "owner_id".toList := by decide
  by_cases same : column = "owner_id"
  · subst same
    simp only [hide, if_pos owner]
  · simp only [hide, diaryPage, if_neg same]

def diaryQuery : Query where
  row := rowJson "t" diaryTypes
  conditions := []
  sort := "\"created_at\""
  order := "DESC"
  withTotal := true
  limit := some 100
  offset := some 0
  binds := []

theorem diary_asked : queryRecords diaryTypes {} = .ok diaryQuery := rfl

def diaryColumns : List Text := ["body", "created_at", "id", "updated_at"]

theorem diary_answer (rank : Text → List (Option Text) → List (Option Text) → Bool)
    (whole : Query → List (List (Option Text)) → Answer Text) (st : State Text) :
    answer plainServer rank whole diaryAccess diaryQuery st =
      pageOf plainServer rank diaryQuery ["created_at".toList] diaryColumns
        (st.visible.filter (meets plainServer diaryQuery [[]])) := by
  have sort : columnsRead diaryQuery.sort = some ["created_at".toList] := by decide +kernel
  have row : columnsRead diaryQuery.row = some diaryColumns := by decide +kernel
  have known : (([[]] : List (List Atom)).flatMap conjColumns ++ (keyColumns diaryQuery ["created_at".toList] ++
      diaryColumns)).all (executorReads diaryAccess) = true := by decide +kernel
  have granted : ((([[]] : List (List Atom)).flatMap conjColumns ++ (keyColumns diaryQuery ["created_at".toList] ++
      diaryColumns)).filter (· ∉ diaryAccess.columns)).isEmpty = true := by decide +kernel
  have kept : sortColumns diaryQuery diaryColumns ["created_at".toList] = ["created_at".toList] := by decide +kernel
  unfold answer
  rw [sort, row, show readWhere diaryQuery.conditions = some [[]] from rfl]
  dsimp only
  rw [kept, if_pos granted, if_pos known]

theorem sensitive_owner_shows :
    fieldTypes (fun _ => none) diaryEntity = .ok diaryTypes ∧ queryRecords diaryTypes {} = .ok diaryQuery ∧
      run step diaryBefore diaryStatements = some diaryAccess ∧
      (diaryState "app:hr:diary.read.own" "u1").rows.map (hide diaryTypes) =
        (diaryState "app:hr:diary.read.own" "u2").rows.map (hide diaryTypes) ∧
      (diaryState "app:hr:diary.read.own" "u1").rules = (diaryState "app:hr:diary.read.own" "u2").rules ∧
      ∀ rank whole, answer plainServer rank whole diaryAccess diaryQuery (diaryState "app:hr:diary.read.own" "u1") ≠
        answer plainServer rank whole diaryAccess diaryQuery (diaryState "app:hr:diary.read.own" "u2") := by
  refine ⟨diary_typed, diary_asked, diary_run, diary_hidden _, rfl, fun rank whole => ?_⟩
  obtain ⟨seen, unseen, -⟩ := diary_seen
  have first : (diaryState "app:hr:diary.read.own" "u1").visible = [diaryPage "u1"] := by
    rw [State.visible, show (diaryState _ "u1").rows = [diaryPage "u1"] from rfl, List.filter_singleton, seen]
    rfl
  have second : (diaryState "app:hr:diary.read.own" "u2").visible = [] := by
    rw [State.visible, show (diaryState _ "u2").rows = [diaryPage "u2"] from rfl, List.filter_singleton, unseen]
    rfl
  have kept : [diaryPage "u1"].filter (meets plainServer diaryQuery [[]]) = [diaryPage "u1"] := rfl
  rw [diary_answer, diary_answer, first, second, kept]
  intro same
  simp [pageOf, sorted, diaryQuery] at same

theorem diary_owner_hidden :
    (∀ name ∈ namesOf diaryQuery.row, ¬diaryTypes.Sensitive name) ∧
      ∀ rank whole, answer plainServer rank whole diaryAccess diaryQuery (diaryState "app:hr:diary.read" "u1") =
        answer plainServer rank whole diaryAccess diaryQuery (diaryState "app:hr:diary.read" "u2") := by
  obtain ⟨-, -, row, answers⟩ := queries_hide_sensitive diary_typed (.inl ⟨{}, diary_asked⟩)
  refine ⟨row, fun rank whole => ?_⟩
  obtain ⟨-, -, first, second⟩ := diary_seen
  refine answers (show entityNamed [diaryEntity] "diary".toList = some diaryEntity from rfl) diary_described diary_planned
    rfl diary_run plainServer rank whole _ _ (diary_hidden _) ?_
  show [State.sees _ (diaryPage "u1")] = [State.sees _ (diaryPage "u2")]
  rw [first, second]

end RootCx.Crud
