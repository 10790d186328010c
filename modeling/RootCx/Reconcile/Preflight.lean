import RootCx.Lib.Truth
import RootCx.Lib.UniqueKeys
import RootCx.Rules.Columns

/-! # Preflight and what it foretells

Before a check or a unique index is added, `preflight_table` counts the rows that
violate it.  PostgreSQL decides on its own, when it validates the constraint or
builds the index.  The two ask about the same rows, but not in the same way: the
query of a check also reads `id`, the query of an index tries its conditions in
the planner's order and knows nothing of what an index cannot hold.
-/

namespace RootCx.Reconcile

open RootCx.Text RootCx.Postgres RootCx.Rules List Except

/-! ## Queries -/

/-- A condition of the query that looks for duplicates. -/
inductive Conjunct where
  | notNull (key : Text)
  | holds (predicate : Text)
  deriving DecidableEq, Repr

def Conjunct.text : Conjunct → Text
  | .notNull key => key ++ " IS NOT NULL"
  | .holds predicate => predicate

inductive Query where
  -- the rows on which a condition is false
  | violations (condition : Text)
  -- the groups of rows with the same keys
  | duplicates (keys : List Text) (filter : List Conjunct)

def Query.text (table : Text) : Query → Text
  | .violations condition => "SELECT count(*), (array_agg(id::text ORDER BY id))[1:5] FROM " ++ table ++
      " WHERE (" ++ condition ++ ") IS FALSE"
  | .duplicates keys filter => "SELECT count(*) FROM (SELECT 1 FROM " ++ table ++ " WHERE " ++
      join " AND " (filter.map Conjunct.text) ++ " GROUP BY " ++ join ", " keys ++
      " HAVING count(*) > 1) duplicates"

def conjuncts (keys : List Text) (predicate : Option Text) : List Conjunct :=
  keys.map .notNull ++ (predicate.map .holds).toList

/-- The query of a check or a unique index; other indexes have none. -/
def query : Compiled → Option Query
  | .check object => some (.violations object.sql)
  | .index object =>
    if object.unique then some (.duplicates object.keyValues (conjuncts object.keyValues object.predicate)) else none

/-! ## PostgreSQL -/

/-- What PostgreSQL makes of the expressions of one table.  An error is the
    SQLSTATE of what was raised, unknown is null.  The functions and operators of
    rules are immutable, so a row determines what they give. -/
structure Engine (Row Value : Type) where
  columns : List Text
  -- whether an expression names columns and operators that exist
  analyze : Text → Except Text Unit
  truth : Text → Row → Except Text Truth
  value : Text → Row → Except Text (Option Value)
  -- the equality of the default operator class of a type
  same : Value → Value → Bool
  -- whether a tuple of keys is small enough for an entry of a btree
  fits : List (Option Value) → Bool
  -- the ids of rows in their order
  ids : List Row → List Text
  -- the order in which a query's conditions are tried
  arrange : List Conjunct → List Conjunct
  arranged : ∀ conjuncts, (arrange conjuncts).Perm conjuncts

def UNDEFINED_COLUMN : Text := "42703"
def CHECK_VIOLATION : Text := "23514"
def UNIQUE_VIOLATION : Text := "23505"
def FEATURE_NOT_SUPPORTED : Text := "0A000"
def TOO_MANY_COLUMNS : Text := "54011"
def PROGRAM_LIMIT_EXCEEDED : Text := "54000"

/-- `INDEX_MAX_KEYS`. -/
def MAX_KEYS : Nat := 32

/-- The rows to keep; an error on one of them is the result. -/
def select {Row : Type} (keep : Row → Except Text Bool) : List Row → Except Text (List Row)
  | [] => .ok []
  | row :: rest => do
    let kept ← keep row
    let others ← select keep rest
    .ok (if kept then row :: others else others)

section Engine

variable {Row Value : Type} (engine : Engine Row Value)

def Engine.holds (row : Row) : Conjunct → Except Text Bool
  | .notNull key => (engine.value key row).map Option.isSome
  | .holds predicate => (engine.truth predicate row).map fun truth => truth == some true

/-- Conditions are tried one after the other, until one does not hold. -/
def Engine.passes (row : Row) : List Conjunct → Except Text Bool
  | [] => .ok true
  | first :: rest => do
    let held ← engine.holds row first
    if held then Engine.passes row rest else .ok false

def Engine.analyzeAll (expressions : List Text) : Except Text Unit := expressions.forM engine.analyze

/-- The keys of a row, from left to right. -/
def Engine.tuple (keys : List Text) (row : Row) : Except Text (List (Option Value)) :=
  keys.mapM fun key => engine.value key row

/-- Nulls are grouped together. -/
def Engine.sameKey : Option Value → Option Value → Bool
  | some value, some other => engine.same value other
  | none, none => true
  | _, _ => false

def Engine.sameTuple : List (Option Value) → List (Option Value) → Bool
  | [], [] => true
  | key :: keys, other :: others => engine.sameKey key other && Engine.sameTuple keys others
  | _, _ => false

/-! ### What the queries return -/

def Engine.violations (condition : Text) (rows : List Row) : Except Text (List Row) := do
  engine.analyze condition
  if "id".toList ∈ engine.columns then
    select (fun row => (engine.truth condition row).map fun truth => truth == some false) rows
  else .error UNDEFINED_COLUMN

def Engine.duplicates (keys : List Text) (filter : List Conjunct) (rows : List Row) : Except Text Nat := do
  engine.analyzeAll (keys ++ filter.filterMap fun
    | .notNull _ => none
    | .holds predicate => some predicate)
  let kept ← select (fun row => engine.passes row (engine.arrange filter)) rows
  let tuples ← kept.mapM (engine.tuple keys)
  .ok (UniqueKeys.duplicates engine.sameTuple tuples)

/-- The number a query returns, over the rows of its table. -/
def Engine.count (rows : List Row) : Query → Except Text Nat
  | .violations condition => (engine.violations condition rows).map length
  | .duplicates keys filter => engine.duplicates keys filter rows

/-! ### What the statements do -/

/-- `VALIDATE CONSTRAINT`: null satisfies a check. -/
def Engine.validate (condition : Text) : List Row → Except Text Unit
  | [] => .ok ()
  | row :: rest => do
    let truth ← engine.truth condition row
    if truth = some false then .error CHECK_VIOLATION else Engine.validate condition rest

/-- The constraint is added as `NOT VALID`, which reads no row, then validated. -/
def Engine.addCheck (condition : Text) (rows : List Row) : Except Text Unit := do
  engine.analyze condition
  engine.validate condition rows

/-- Whether a row is inside a predicate. -/
def Engine.inside (predicate : Option Text) (row : Row) : Except Text Bool :=
  match predicate with
  | none => .ok true
  | some condition => (engine.truth condition row).map fun truth => truth == some true

/-- The entry of a row: none outside the predicate, and its keys inside it. -/
def Engine.entry (keys : List Text) (predicate : Option Text) (row : Row) :
    Except Text (Option (List (Option Value))) := do
  let inside ← engine.inside predicate row
  if inside then do
    let tuple ← engine.tuple keys row
    if engine.fits tuple then .ok (some tuple) else .error PROGRAM_LIMIT_EXCEEDED
  else .ok none

/-- `CREATE UNIQUE INDEX`: only a btree can be unique, and a tuple with a null is
    distinct from every other. -/
def Engine.buildUnique (method : Text) (keys : List Text) (predicate : Option Text) (rows : List Row) :
    Except Text Unit :=
  if method ≠ "btree" then .error FEATURE_NOT_SUPPORTED
  else if keys.length > MAX_KEYS then .error TOO_MANY_COLUMNS
  else do
    engine.analyzeAll (keys ++ predicate.toList)
    let entries ← rows.mapM (engine.entry keys predicate)
    let tuples := (entries.filterMap id).filter fun tuple => tuple.all Option.isSome
    if (UniqueKeys.insertAll engine.sameTuple [] tuples).isSome then .ok () else .error UNIQUE_VIOLATION

/-- Adding a check or a unique index to a table with these rows. -/
def Engine.add (rows : List Row) : Compiled → Except Text Unit
  | .check object => engine.addCheck object.sql rows
  | .index object => engine.buildUnique object.method object.keyValues object.predicate rows

end Engine

/-! ## Rows one by one -/

theorem select_ok {Row : Type} {keep : Row → Except Text Bool} {rows kept : List Row} :
    select keep rows = .ok kept ↔
      (∀ row ∈ rows, ∃ answer, keep row = .ok answer) ∧ kept = rows.filter fun row => keep row == .ok true := by
  induction rows generalizing kept with
  | nil => simp [select, eq_comm]
  | cons row rows ih =>
    simp only [select, bind_eq_ok, ih, forall_mem_cons, ok.injEq]
    constructor
    · rintro ⟨answer, first, _, ⟨others, rfl⟩, same⟩
      refine ⟨⟨⟨answer, first⟩, others⟩, ?_⟩
      cases answer <;> simp [first, ← same]
    · rintro ⟨⟨⟨answer, first⟩, others⟩, same⟩
      refine ⟨answer, first, _, ⟨others, rfl⟩, ?_⟩
      cases answer <;> simp [first, same]

theorem mapM_ok {α β : Type} {f : α → Except Text β} {items : List α} {results : List β} :
    items.mapM f = .ok results ↔ items.map f = results.map .ok := by
  induction items generalizing results with
  | nil => cases results <;> simp [pure, Except.pure]
  | cons item items ih =>
    simp only [mapM_cons, bind_eq_ok, pure_eq_ok, map_cons, ih]
    cases results with
    | nil => simp
    | cons result results => simp

theorem mapM_succeeds {α β : Type} {f : α → Except Text β} {items : List α} :
    (∃ results, items.mapM f = .ok results) ↔ ∀ item ∈ items, ∃ result, f item = .ok result := by
  induction items with
  | nil => simp [pure, Except.pure]
  | cons item items ih =>
    simp only [forall_mem_cons, ← ih, mapM_cons, bind_eq_ok, pure_eq_ok]
    grind

section Engine

variable {Row Value : Type} {engine : Engine Row Value}

theorem passes_true {row : Row} {filter : List Conjunct} :
    engine.passes row filter = .ok true ↔ ∀ conjunct ∈ filter, engine.holds row conjunct = .ok true := by
  induction filter with
  | nil => simp [Engine.passes]
  | cons first rest ih =>
    simp only [Engine.passes, bind_eq_ok, forall_mem_cons, ← ih]
    constructor
    · rintro ⟨held, first, rest⟩
      cases held with
      | true => exact ⟨first, rest⟩
      | false => simp at rest
    · rintro ⟨first, rest⟩
      exact ⟨true, first, rest⟩

theorem passes_arranged {row : Row} {filter : List Conjunct} :
    engine.passes row (engine.arrange filter) = .ok true ↔
      ∀ conjunct ∈ filter, engine.holds row conjunct = .ok true := by
  rw [passes_true]
  exact forall_congr' fun conjunct => by rw [(engine.arranged filter).mem_iff]

variable (engine) in
/-- A row inside a predicate. -/
def Engine.Inside (predicate : Option Text) (row : Row) : Prop :=
  ∀ condition ∈ predicate, engine.truth condition row = .ok (some true)

instance (predicate : Option Text) (row : Row) : Decidable (engine.Inside predicate row) :=
  decidable_of_iff (∀ condition ∈ predicate.toList, engine.truth condition row = .ok (some true)) (by
    cases predicate <;> simp [Engine.Inside])

variable (engine) in
/-- The keys that count against another row: those of a row inside the predicate,
    without a null. -/
def Engine.indexed (keys : List Text) (predicate : Option Text) (row : Row) : Option (List (Option Value)) :=
  match engine.tuple keys row with
  | .ok tuple => if engine.Inside predicate row ∧ tuple.all Option.isSome then some tuple else none
  | .error _ => none

theorem indexed_eq_some {keys : List Text} {predicate : Option Text} {row : Row} {tuple : List (Option Value)} :
    engine.indexed keys predicate row = some tuple ↔
      engine.tuple keys row = .ok tuple ∧ engine.Inside predicate row ∧ tuple.all Option.isSome = true := by
  rw [Engine.indexed]
  split
  next found read =>
    rw [read, ok.injEq]
    by_cases counts : engine.Inside predicate row ∧ found.all Option.isSome = true
    · rw [if_pos counts, Option.some.injEq]
      exact ⟨fun same => ⟨same, same ▸ counts⟩, And.left⟩
    · rw [if_neg counts]
      exact iff_of_false nofun fun ⟨same, rest⟩ => counts (same ▸ rest)
  next failed => simp [failed]

theorem tuple_full {keys : List Text} {row : Row} :
    (∃ tuple, engine.tuple keys row = .ok tuple ∧ tuple.all Option.isSome = true) ↔
      ∀ key ∈ keys, ∃ value, engine.value key row = .ok (some value) := by
  induction keys with
  | nil => simp [Engine.tuple, pure, Except.pure]
  | cons key keys ih =>
    rw [forall_mem_cons, ← ih]
    simp only [Engine.tuple, mapM_cons, bind_eq_ok, pure_eq_ok]
    constructor
    · rintro ⟨_, ⟨value, first, others, rest, rfl⟩, full⟩
      simp only [all_cons, Bool.and_eq_true, Option.isSome_iff_exists] at full
      obtain ⟨⟨value, rfl⟩, full⟩ := full
      exact ⟨⟨value, first⟩, others, rest, full⟩
    · rintro ⟨⟨value, first⟩, others, rest, full⟩
      exact ⟨_, ⟨some value, first, others, rest, rfl⟩, by simp [full]⟩

theorem passes_conjuncts {keys : List Text} {predicate : Option Text} {row : Row} :
    engine.passes row (engine.arrange (conjuncts keys predicate)) = .ok true ↔
      ∃ tuple, engine.indexed keys predicate row = some tuple := by
  have present {key : Text} : engine.holds row (.notNull key) = .ok true ↔ ∃ value, engine.value key row = .ok (some value) := by
    rw [Engine.holds]
    cases engine.value key row with
    | error code => simp [Except.map]
    | ok value => cases value <;> simp [Except.map]
  have inside : (∀ conjunct ∈ (predicate.map Conjunct.holds).toList, engine.holds row conjunct = .ok true) ↔
      engine.Inside predicate row := by
    cases predicate with
    | none => simp [Engine.Inside]
    | some condition =>
      simp only [Option.map_some, Option.toList_some, mem_singleton, forall_eq, Engine.holds, Engine.Inside,
        Option.mem_def, Option.some.injEq, forall_eq']
      cases engine.truth condition row <;> simp [Except.map]
  rw [passes_arranged, conjuncts, forall_mem_append, inside, forall_mem_map]
  simp only [present, ← tuple_full, indexed_eq_some]
  grind

/-! ## Both sides, in terms of rows -/

variable (engine) in
/-- The query of an index gets an answer: its expressions exist, and no row makes
    the conditions raise in the order they are tried. -/
def Engine.Scannable (keys : List Text) (predicate : Option Text) (rows : List Row) : Prop :=
  engine.analyzeAll (keys ++ predicate.toList) = .ok () ∧
    ∀ row ∈ rows, ∃ answer, engine.passes row (engine.arrange (conjuncts keys predicate)) = .ok answer

variable (engine) in
/-- An index can hold these rows, as far as each of them alone is concerned. -/
def Engine.Buildable (method : Text) (keys : List Text) (predicate : Option Text) (rows : List Row) : Prop :=
  method = "btree" ∧ keys.length ≤ MAX_KEYS ∧ engine.analyzeAll (keys ++ predicate.toList) = .ok () ∧
    ∀ row ∈ rows, ∃ entry, engine.entry keys predicate row = .ok entry

variable (engine) in
/-- No two rows inside the predicate have the same keys without a null. -/
def Engine.Apart (keys : List Text) (predicate : Option Text) (rows : List Row) : Prop :=
  UniqueKeys.Distinct engine.sameTuple (rows.filterMap (engine.indexed keys predicate))

theorem filter_predicates {keys : List Text} {predicate : Option Text} :
    ((conjuncts keys predicate).filterMap fun
      | .notNull _ => none
      | .holds condition => some condition) = predicate.toList := by
  rw [conjuncts, filterMap_append, filterMap_map]
  cases predicate <;> simp [Function.comp_def]

theorem kept_tuples {keys : List Text} {predicate : Option Text} {rows : List Row} :
    (rows.filter fun row => engine.passes row (engine.arrange (conjuncts keys predicate)) == .ok true).mapM
      (engine.tuple keys) = .ok (rows.filterMap (engine.indexed keys predicate)) := by
  rw [mapM_ok]
  induction rows with
  | nil => rfl
  | cons row rows ih =>
    by_cases kept : engine.passes row (engine.arrange (conjuncts keys predicate)) = .ok true
    · obtain ⟨tuple, found⟩ := passes_conjuncts.mp kept
      have read := (indexed_eq_some.mp found).1
      simp [kept, found, read, ih]
    · have missing : engine.indexed keys predicate row = none :=
        Option.eq_none_iff_forall_ne_some.mpr fun tuple found => kept (passes_conjuncts.mpr ⟨tuple, found⟩)
      simp [kept, missing, ih]

theorem duplicates_zero {keys : List Text} {predicate : Option Text} {rows : List Row} :
    engine.duplicates keys (conjuncts keys predicate) rows = .ok 0 ↔
      engine.Scannable keys predicate rows ∧ engine.Apart keys predicate rows := by
  simp only [Engine.duplicates, filter_predicates, bind_eq_ok, select_ok, Engine.Scannable, Engine.Apart]
  constructor
  · rintro ⟨_, analyzed, _, ⟨scanned, rfl⟩, tuples, read, counted⟩
    rw [kept_tuples] at read
    cases read
    exact ⟨⟨analyzed, scanned⟩, UniqueKeys.duplicates_eq_zero.mp (ok.inj counted)⟩
  · rintro ⟨⟨analyzed, scanned⟩, apart⟩
    exact ⟨(), analyzed, _, ⟨scanned, rfl⟩, _, kept_tuples, congrArg ok (UniqueKeys.duplicates_eq_zero.mpr apart)⟩

/-- The entry of a row inside the predicate has its keys. -/
theorem entry_indexed {keys : List Text} {predicate : Option Text} {row : Row} {entry : Option (List (Option Value))}
    (made : engine.entry keys predicate row = .ok entry) :
    entry.filter (fun tuple => tuple.all Option.isSome) = engine.indexed keys predicate row := by
  obtain ⟨inside, decided, made⟩ := bind_eq_ok.mp made
  have iff : inside = true ↔ engine.Inside predicate row := by
    cases predicate with
    | none =>
      cases decided
      simp [Engine.Inside]
    | some condition =>
      rw [Engine.inside] at decided
      cases known : engine.truth condition row with
      | error code => simp [known, Except.map] at decided
      | ok truth =>
        rw [known] at decided
        cases decided
        simp [Engine.Inside, known]
  by_cases holds : inside = true
  · rw [if_pos holds] at made
    obtain ⟨tuple, read, made⟩ := bind_eq_ok.mp made
    by_cases small : engine.fits tuple = true
    · rw [if_pos small] at made
      cases made
      simp [Engine.indexed, read, iff.mp holds, Option.filter]
    · rw [if_neg small] at made
      cases made
  · rw [if_neg holds] at made
    cases made
    have outside : ¬ engine.Inside predicate row := fun inside => holds (iff.mpr inside)
    rw [Option.filter_none, Engine.indexed]
    split <;> simp [outside]

theorem entries_indexed {keys : List Text} {predicate : Option Text} {rows : List Row}
    {entries : List (Option (List (Option Value)))} (made : rows.mapM (engine.entry keys predicate) = .ok entries) :
    (entries.filterMap id).filter (fun tuple => tuple.all Option.isSome) =
      rows.filterMap (engine.indexed keys predicate) := by
  rw [mapM_ok] at made
  induction rows generalizing entries with
  | nil =>
    obtain rfl := map_eq_nil_iff.mp made.symm
    rfl
  | cons row rows ih =>
    obtain ⟨entry, others, rfl, first, rest⟩ := map_eq_cons_iff.mp made.symm
    have own := entry_indexed first.symm
    rw [filterMap_cons (f := engine.indexed keys predicate), ← own, ← ih rest.symm]
    cases entry with
    | none => simp
    | some tuple => by_cases full : tuple.all Option.isSome = true <;> simp [full, Option.filter]

theorem buildUnique_ok {method : Text} {keys : List Text} {predicate : Option Text} {rows : List Row} :
    engine.buildUnique method keys predicate rows = .ok () ↔
      engine.Buildable method keys predicate rows ∧ engine.Apart keys predicate rows := by
  rw [Engine.buildUnique, Engine.Buildable, Engine.Apart]
  by_cases btree : method = "btree"
  case neg =>
    rw [if_pos btree]
    exact iff_of_false (by rintro ⟨⟩) fun built => btree built.1.1
  by_cases few : keys.length ≤ MAX_KEYS
  case neg =>
    rw [if_neg (not_not.mpr btree), if_pos (by omega)]
    exact iff_of_false (by rintro ⟨⟩) fun built => few built.1.2.1
  rw [if_neg (not_not.mpr btree), if_neg (by omega), ← mapM_succeeds]
  simp only [bind_eq_ok]
  constructor
  · rintro ⟨_, analyzed, entries, made, built⟩
    rw [entries_indexed made] at built
    by_cases distinct : (UniqueKeys.insertAll engine.sameTuple [] (rows.filterMap (engine.indexed keys predicate))).isSome = true
    · exact ⟨⟨btree, few, analyzed, entries, made⟩,
        UniqueKeys.duplicates_eq_zero.mp (UniqueKeys.insertAll_iff_duplicates.mp distinct)⟩
    · rw [if_neg distinct] at built
      cases built
  · rintro ⟨⟨_, _, analyzed, entries, made⟩, apart⟩
    have distinct := UniqueKeys.insertAll_iff_duplicates.mpr (UniqueKeys.duplicates_eq_zero.mpr apart)
    refine ⟨(), analyzed, entries, made, ?_⟩
    rw [entries_indexed made, if_pos distinct]

/-! ## Checks -/

variable (engine) in
/-- The condition can be asked of every row, and is false on none. -/
def Engine.Satisfied (condition : Text) (rows : List Row) : Prop :=
  engine.analyze condition = .ok () ∧
    ∀ row ∈ rows, ∃ truth, engine.truth condition row = .ok truth ∧ truth ≠ some false

theorem addCheck_ok {condition : Text} {rows : List Row} :
    engine.addCheck condition rows = .ok () ↔ engine.Satisfied condition rows := by
  have each : engine.validate condition rows = .ok () ↔
      ∀ row ∈ rows, ∃ truth, engine.truth condition row = .ok truth ∧ truth ≠ some false := by
    induction rows with
    | nil => simp [Engine.validate]
    | cons row rows ih =>
      rw [forall_mem_cons, ← ih]
      simp only [Engine.validate, bind_eq_ok]
      constructor
      · rintro ⟨truth, asked, rest⟩
        by_cases violated : truth = some false
        · simp [violated] at rest
        · exact ⟨⟨truth, asked, violated⟩, by simpa [violated] using rest⟩
      · rintro ⟨⟨truth, asked, satisfied⟩, rest⟩
        exact ⟨truth, asked, by simpa [satisfied] using rest⟩
  rw [Engine.addCheck, bind_eq_ok, Engine.Satisfied, ← each]
  constructor
  · rintro ⟨_, analyzed, valid⟩
    exact ⟨analyzed, valid⟩
  · rintro ⟨analyzed, valid⟩
    exact ⟨(), analyzed, valid⟩

theorem violations_zero {condition : Text} {rows : List Row} :
    (engine.violations condition rows).map length = .ok 0 ↔
      "id".toList ∈ engine.columns ∧ engine.Satisfied condition rows := by
  have mapped {found : Except Text (List Row)} : found.map length = .ok 0 ↔ found = .ok [] := by
    cases found <;> simp [Except.map]
  rw [mapped, Engine.violations, bind_eq_ok, Engine.Satisfied]
  by_cases reported : "id".toList ∈ engine.columns
  case neg =>
    rw [if_neg reported]
    exact iff_of_false nofun fun both => reported both.1
  have each {row : Row} :
      ((∃ answer, (engine.truth condition row).map (fun truth => truth == some false) = .ok answer) ∧
        ¬ ((engine.truth condition row).map (fun truth => truth == some false) == .ok true) = true) ↔
      ∃ truth, engine.truth condition row = .ok truth ∧ truth ≠ some false := by
    cases engine.truth condition row <;> simp [Except.map]
  rw [if_pos reported, select_ok, nil_eq, filter_eq_nil_iff, ← forall₂_and]
  simp only [each]
  exact ⟨fun ⟨_, analyzed, satisfied⟩ => ⟨reported, analyzed, satisfied⟩,
    fun ⟨_, analyzed, satisfied⟩ => ⟨(), analyzed, satisfied⟩⟩

/-! ## What preflight foretells -/

variable (engine) in
/-- The condition on the rows under which both sides agree.  The ids of a table
    without `id` cannot be reported.  Where no two rows are duplicates, everything
    the index refuses on its own has to be refused by the query, and conversely. -/
def Engine.Foretold (rows : List Row) : Compiled → Prop
  | .check object => engine.Satisfied object.sql rows → "id".toList ∈ engine.columns
  | .index object => engine.Apart object.keyValues object.predicate rows →
      (engine.Scannable object.keyValues object.predicate rows ↔
        engine.Buildable object.method object.keyValues object.predicate rows)

theorem count_iff_add {object : Compiled} {asked : Query} (asks : query object = some asked) (rows : List Row) :
    (engine.count rows asked = .ok 0 ↔ engine.add rows object = .ok ()) ↔ engine.Foretold rows object := by
  cases object with
  | check object =>
    cases asks
    rw [Engine.count, Engine.add, violations_zero, addCheck_ok, Engine.Foretold]
    exact ⟨fun same satisfied => (same.mpr satisfied).1, fun reported => ⟨And.right, fun satisfied => ⟨reported satisfied, satisfied⟩⟩⟩
  | index object =>
    obtain ⟨-, rfl⟩ : object.unique = true ∧ .duplicates object.keyValues (conjuncts object.keyValues object.predicate) = asked := by
      simpa [query] using asks
    rw [Engine.count, Engine.add, duplicates_zero, buildUnique_ok, Engine.Foretold]
    tauto

end Engine

/-! ## The texts of the queries -/

theorem join_snoc {separator last : Text} {front : List Text} (nonempty : front ≠ []) :
    join separator (front ++ [last]) = join separator front ++ separator ++ last := by
  cases front with
  | nil => exact absurd rfl nonempty
  | cons first rest => simp [join_cons]

theorem conjuncts_text {keys : List Text} (predicate : Option Text) (nonempty : keys ≠ []) :
    join " AND " ((conjuncts keys predicate).map Conjunct.text) =
      join " AND " (keys.map (· ++ " IS NOT NULL")) ++
        (predicate.map (" AND ".toList ++ ·)).getD [] := by
  have present : keys.map (· ++ " IS NOT NULL".toList) ≠ [] := map_eq_nil_iff.not.mpr nonempty
  have texts : keys.map (Conjunct.text ∘ Conjunct.notNull) = keys.map (· ++ " IS NOT NULL".toList) := rfl
  rw [conjuncts, map_append, map_map, texts]
  cases predicate with
  | none => rw [Option.map_none, Option.toList_none, map_nil, append_nil, Option.map_none, Option.getD_none,
      append_nil]
  | some predicate =>
    have last : ((some predicate).map Conjunct.holds).toList.map Conjunct.text = [predicate] := rfl
    rw [last, join_snoc present, Option.map_some, Option.getD_some, append_assoc]

theorem query_text {object : Compiled} (table : Text)
    (keys : ∀ index, object = .index index → index.keyValues ≠ []) :
    object.preflightQuery table = (query object).map (Query.text table) := by
  unfold Compiled.preflightQuery query
  cases object with
  | check object => exact congrArg some rfl
  | index object =>
    have filter := conjuncts_text object.predicate (keys object rfl)
    dsimp only
    by_cases unique : object.unique = true
    · rw [if_pos unique, if_pos unique, Option.map_some]
      unfold Query.text
      dsimp only
      rw [filter]
      cases object.predicate <;> rfl
    · rw [if_neg unique, if_neg unique, Option.map_none]

variable {crates : Crates} {fields : Fields} {entity : EntityContract}

theorem compileColumns_length {trigram : Bool} {columns : List IndexColumn} {keys : List Key}
    (made : compileColumns crates fields trigram columns = .ok keys) : keys.length = columns.length := by
  induction columns generalizing keys with
  | nil =>
    cases made
    rfl
  | cons column columns ih =>
    obtain ⟨key, -, made⟩ := bind_eq_ok.mp made
    obtain ⟨others, othersMade, made⟩ := bind_eq_ok.mp made
    cases made
    rw [length_cons, length_cons, ih othersMade]

/-- A compiled index has a key. -/
theorem compileIndex_keys {index : IndexContract} {compiled : CompiledIndex}
    (made : compileIndex crates entity index fields = .ok compiled) : compiled.keyValues ≠ [] := by
  unfold compileIndex at made
  split at made
  case isTrue => cases made
  case isFalse given =>
    split at made
    case isTrue => cases made
    case isFalse =>
      obtain ⟨_, -, made⟩ := bind_eq_ok.mp made
      obtain ⟨_, -, made⟩ := bind_eq_ok.mp made
      obtain ⟨keys, keysMade, made⟩ := bind_eq_ok.mp made
      obtain ⟨_, -, made⟩ := bind_eq_ok.mp made
      have length := compileColumns_length keysMade
      have values : compiled.keyValues = keys.map Key.value := by
        dsimp only at made
        split at made
        all_goals
          obtain ⟨_, -, made⟩ := bind_eq_ok.mp made
          cases made
          rfl
      rw [values]
      intro none
      rw [map_eq_nil_iff.mp none] at length
      exact given (isEmpty_iff_length_eq_zero.mpr length.symm)

theorem compileIndexes_keys {position : Nat} {seen : List Text} {list : List IndexContract}
    {indexes : List CompiledIndex}
    (made : compileIndexes crates entity fields position seen list = .ok indexes) :
    ∀ index ∈ indexes, index.keyValues ≠ [] := by
  induction list generalizing position seen indexes with
  | nil =>
    cases made
    simp
  | cons first rest ih =>
    obtain ⟨compiled, firstMade, made⟩ := bind_eq_ok.mp made
    split at made
    case isTrue => cases made
    case isFalse =>
      obtain ⟨others, othersMade, made⟩ := bind_eq_ok.mp made
      cases made
      exact forall_mem_cons.mpr ⟨compileIndex_keys (mapError_eq_ok.mp firstMade), ih othersMade⟩

theorem compileEntity_keys {rules : EntityRules} (compiled : compileEntity crates entity = .ok rules) :
    ∀ index ∈ rules.indexes, index.keyValues ≠ [] := by
  obtain ⟨fields, -, compiled⟩ := bind_eq_ok.mp compiled
  split at compiled
  case isTrue => cases compiled
  case isFalse =>
    split at compiled
    case isTrue => cases compiled
    case isFalse =>
      obtain ⟨_, -, compiled⟩ := bind_eq_ok.mp compiled
      obtain ⟨_, -, compiled⟩ := bind_eq_ok.mp compiled
      dsimp only at compiled
      split at compiled
      case h_1 => cases compiled
      case h_2 =>
        obtain ⟨indexes, indexesMade, compiled⟩ := bind_eq_ok.mp compiled
        cases compiled
        exact compileIndexes_keys indexesMade

end RootCx.Reconcile
