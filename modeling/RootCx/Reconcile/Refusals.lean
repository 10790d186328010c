import RootCx.Reconcile.Run

/-! # Refusals

A preflight that refuses an install says that nothing was changed.  It is right
for the preflight an install begins with, which only asks.  The one inside
`reconcile_on` comes after the columns, pg_trgm and the removal of leftovers.
-/

namespace RootCx.Reconcile

open RootCx.Text RootCx.Postgres RootCx.Rules List Except

/-! ## Runs that change nothing -/

/-- However it ends, the catalog is as before. -/
def Keeps {α : Type} (act : Run α) : Prop := ∀ s, (act s).2.catalog = s.catalog

variable {α : Type} {catalog : Catalog} (answer : Nat → Catalog → Except Text α) {statement : Statement α}
  {final : Catalog} {s s' : Session} {trigram : Option Text} {value : α}

theorem keeps_pure (value : α) : Keeps (pure value : Run α) := fun _ => rfl

theorem keeps_throw (failure : Failure) : Keeps (throw failure : Run α) := fun _ => rfl

theorem keeps_bind {β : Type} {act : Run α} {next : α → Run β} (first : Keeps act)
    (then_ : ∀ value, Keeps (next value)) : Keeps (act >>= next) := by
  intro s
  have kept := first s
  cases ran : act s with
  | mk result s' =>
    rw [ran] at kept
    cases result with
    | ok value =>
      rw [exceptT_bind_of_ok ran, then_ value s']
      exact kept
    | error failure =>
      rw [exceptT_bind_error ran]
      exact kept

theorem keeps_forEach {α : Type} {step : α → Run Unit} (each : ∀ item, Keeps (step item)) :
    ∀ items, Keeps (forEach step items)
  | [] => keeps_pure ()
  | item :: rest => keeps_bind (each item) fun _ => keeps_forEach each rest

section Session

variable {Row Value : Type} {env : Env Row Value}

theorem keeps_attempt_ask : Keeps (attempt env (ask answer)) := by
  intro s
  simp only [attempt, attempted]
  -- a query leaves nothing behind, whatever happens to it
  split <;> rfl

theorem keeps_perform_ask : Keeps (perform env (ask answer)) := by
  refine keeps_bind (keeps_attempt_ask answer) fun result => ?_
  cases result with
  | ok value => exact keeps_pure value
  | error code => exact keeps_throw _

theorem keeps_preflightAnswer (early : Bool) (answer : Nat → Catalog → Except Text α) :
    Keeps (preflightAnswer env early answer) := by
  refine keeps_bind (keeps_attempt_ask answer) fun result => ?_
  cases result with
  | ok found => exact keeps_pure _
  | error code =>
    dsimp only
    split
    · exact keeps_pure _
    · exact keeps_throw _

theorem keeps_preflightCheck (table : Table) (early : Bool) (check : CompiledCheck) :
    Keeps (preflightCheck env table early check) := by
  refine keeps_bind (keeps_preflightAnswer early _) fun found => ?_
  rcases found with _ | ⟨count, ids⟩
  · exact keeps_pure ()
  · dsimp only
    split
    · exact keeps_throw _
    · exact keeps_pure ()

theorem keeps_preflightIndex (table : Table) (early : Bool) (index : CompiledIndex) :
    Keeps (preflightIndex env table early index) := by
  refine keeps_bind (keeps_preflightAnswer early _) fun found => ?_
  cases found with
  | none => exact keeps_pure ()
  | some groups =>
    dsimp only
    split
    · exact keeps_throw _
    · exact keeps_pure ()

theorem keeps_preflightTable (table : Table) (early : Bool) : Keeps (preflightTable env table early) := by
  have checks : ∀ list, Keeps (preflightChecks env table early list) := by
    intro list
    induction list with
    | nil => exact keeps_pure ()
    | cons first rest ih =>
      obtain ⟨check, chosen⟩ := first
      by_cases builds : chosen.builds = true
      · rw [preflightChecks, if_pos builds]
        exact keeps_bind (keeps_preflightCheck table early check) fun _ => ih
      · rw [preflightChecks, if_neg builds]
        exact keeps_bind (keeps_pure ()) fun _ => ih
  have indexes : ∀ list, Keeps (preflightIndexes env table early list) := by
    intro list
    induction list with
    | nil => exact keeps_pure ()
    | cons first rest ih =>
      obtain ⟨index, chosen⟩ := first
      by_cases asked : (index.unique && chosen.builds) = true
      · rw [preflightIndexes, if_pos asked]
        exact keeps_bind (keeps_preflightIndex table early index) fun _ => ih
      · rw [preflightIndexes, if_neg asked]
        exact keeps_bind (keeps_pure ()) fun _ => ih
  exact keeps_bind (checks table.checks) fun _ => indexes table.indexes

theorem keeps_planned (result : Except Text Table) : Keeps (planned result) := by
  cases result with
  | ok table => exact keeps_pure table
  | error message => exact keeps_throw _

theorem keeps_plans (previous : List EntityContract) (trigram : Option Text) :
    ∀ entities, Keeps (plans env previous trigram entities)
  | [] => keeps_pure []
  | _ :: rest =>
    keeps_bind (keeps_perform_ask _) fun _ => keeps_bind (keeps_planned _) fun _ =>
      keeps_bind (keeps_plans previous trigram rest) fun _ => keeps_pure _

theorem keeps_preflight (entities previous : List EntityContract) : Keeps (preflight env entities previous) :=
  keeps_bind (keeps_perform_ask _) fun _ => keeps_bind (keeps_perform_ask _) fun trigram =>
    keeps_forEach (fun entity => keeps_bind (keeps_plans previous trigram [entity]) fun found =>
      keeps_forEach (fun table => keeps_preflightTable table true) found) _

/-! ## What comes before the preflight of a run -/

theorem attempted_ok (ran : attempted env statement s = (.ok value, s')) :
    env.fault s.clock = none ∧ statement.run s.clock s.catalog = (.ok value, s'.catalog) := by
  unfold attempted at ran
  cases fault : env.fault s.clock with
  | none =>
    simp only [fault, Prod.mk.injEq] at ran
    obtain ⟨result, rfl⟩ := ran
    exact ⟨rfl, Prod.ext result rfl⟩
  | some failed =>
    obtain ⟨code, aftermath⟩ := failed
    cases aftermath <;> simp [fault] at ran

theorem attempt_ok {result : Except Text α} (tried : attempt env statement s = (.ok result, s')) :
    attempted env statement s = (result, s') := by
  have ended : ((.ok (attempted env statement s).1, (attempted env statement s).2) :
      Except Failure (Except Text α) × Session) = (.ok result, s') := tried
  rw [Prod.mk.injEq, ok.injEq] at ended
  exact Prod.ext ended.1 ended.2

theorem perform_ok (ran : perform env statement s = (.ok value, s')) :
    env.fault s.clock = none ∧ statement.run s.clock s.catalog = (.ok value, s'.catalog) := by
  obtain ⟨result, mid, tried, ran⟩ := exceptT_bind_ok.mp ran
  have ended := attempt_ok tried
  cases result with
  | error code => cases ran
  | ok found =>
    obtain ⟨rfl, rfl⟩ := exceptT_pure_ok.mp ran
    exact attempted_ok ended

theorem perform_ask_ok {answer : Nat → Catalog → Except Text α}
    (ran : perform env (ask answer) s = (.ok value, s')) :
    answer s.clock s.catalog = .ok value ∧ s'.catalog = s.catalog := by
  obtain ⟨-, answered⟩ := perform_ok ran
  exact ⟨congrArg Prod.fst answered, (congrArg Prod.snd answered).symm⟩

theorem execute_ok {statements : List Ddl} (ran : execute env statements s = (.ok (), s')) :
    applyAll env s.catalog statements = .ok s'.catalog := by
  obtain ⟨-, ran⟩ := perform_ok ran
  dsimp only [transaction] at ran
  cases applied : applyAll env s.catalog statements with
  | ok next =>
    rw [applied] at ran
    cases ran
    rfl
  | error code =>
    rw [applied] at ran
    cases ran

/-- The catalog once a trigram index can be built. -/
def Catalog.withTrigram (catalog : Catalog) (entities : List EntityContract) : Catalog :=
  if declaresTrigram entities && catalog.trigram.isNone then { catalog with trigram := some EXTENSION_SCHEMA }
  else catalog

theorem trigramFor_ok {entities : List EntityContract} (ran : trigramFor env entities s = (.ok trigram, s')) :
    s'.catalog = s.catalog.withTrigram entities := by
  rw [trigramFor] at ran
  cases declared : declaresTrigram entities with
  | false =>
    rw [declared, if_neg Bool.false_ne_true] at ran
    obtain ⟨-, rfl⟩ := exceptT_pure_ok.mp ran
    rw [Catalog.withTrigram, declared, Bool.false_and, if_neg Bool.false_ne_true]
  | true =>
    rw [declared, if_pos rfl] at ran
    obtain ⟨schema, mid, ensured, ran⟩ := exceptT_bind_ok.mp ran
    obtain ⟨-, rfl⟩ := exceptT_pure_ok.mp ran
    obtain ⟨found, asked, read, ensured⟩ := exceptT_bind_ok.mp ensured
    obtain ⟨answer, kept⟩ := perform_ask_ok read
    cases answer
    cases installed : s.catalog.trigram with
    | some schema =>
      rw [installed] at ensured
      obtain ⟨-, rfl⟩ := exceptT_pure_ok.mp ensured
      simp [Catalog.withTrigram, declared, installed, kept]
    | none =>
      rw [installed] at ensured
      obtain ⟨_, made, executed, ensured⟩ := exceptT_bind_ok.mp ensured
      obtain ⟨-, rfl⟩ := exceptT_pure_ok.mp ensured
      have done := ok.inj (execute_ok executed)
      rw [← done, kept]
      simp [Catalog.withTrigram, declared, installed]

theorem plans_ok {previous : List EntityContract} {trigram : Option Text} {entities : List EntityContract}
    {tables : List Table} {s s' : Session} (ran : plans env previous trigram entities s = (.ok tables, s')) :
    s'.catalog = s.catalog ∧ List.Forall₂ (fun entity table => ∃ before,
      plan env.crates env.appId s.catalog entity before trigram = .ok table) entities tables := by
  induction entities generalizing tables s with
  | nil =>
    obtain ⟨rfl, rfl⟩ := exceptT_pure_ok.mp ran
    exact ⟨rfl, .nil⟩
  | cons entity rest ih =>
    obtain ⟨catalog, asked, read, ran⟩ := exceptT_bind_ok.mp ran
    obtain ⟨table, chosen, made, ran⟩ := exceptT_bind_ok.mp ran
    obtain ⟨others, last, more, ran⟩ := exceptT_bind_ok.mp ran
    obtain ⟨rfl, rfl⟩ := exceptT_pure_ok.mp ran
    obtain ⟨answer, kept⟩ := perform_ask_ok read
    cases answer
    cases decided : plan env.crates env.appId s.catalog entity
        (previous.find? fun declared => declared.entityName == entity.entityName) trigram with
    | error message =>
      rw [decided] at made
      cases made
    | ok first =>
      rw [decided] at made
      obtain ⟨rfl, rfl⟩ := exceptT_pure_ok.mp made
      obtain ⟨restKept, restPlanned⟩ := ih more
      rw [kept] at restKept restPlanned
      exact ⟨restKept, .cons ⟨_, decided⟩ restPlanned⟩

/-- Whether dropping these objects of a table leaves a constraint. -/
def Table.sparesCheck (table : Table) (object : Constraint) : Bool :=
  !(object.table == table.entity.entityName && table.leftoverChecks.contains object.name)

def Table.sparesIndex (table : Table) (object : Index) : Bool := !table.leftoverIndexes.contains object.name

/-- The catalog without the leftovers of some tables. -/
def Catalog.swept (catalog : Catalog) (tables : List Table) : Catalog :=
  { catalog with
    constraints := catalog.constraints.filter fun object => tables.all (·.sparesCheck object)
    indexes := catalog.indexes.filter fun object => tables.all (·.sparesIndex object) }

theorem applyAll_append {front rest : List Ddl} (applied : applyAll env catalog (front ++ rest) = .ok final) :
    ∃ middle, applyAll env catalog front = .ok middle ∧ applyAll env middle rest = .ok final := by
  induction front generalizing catalog with
  | nil => exact ⟨catalog, rfl, applied⟩
  | cons first front ih =>
    obtain ⟨next, step, applied⟩ := bind_eq_ok.mp applied
    obtain ⟨middle, walked, last⟩ := ih applied
    exact ⟨middle, bind_eq_ok.mpr ⟨next, step, walked⟩, last⟩

theorem applyAll_dropChecks {table : Text} {names : List Text}
    (applied : applyAll env catalog (names.map (Ddl.dropCheck table · true)) = .ok final) :
    final = { catalog with constraints := catalog.constraints.filter fun object =>
      !(object.table == table && names.contains object.name) } := by
  induction names generalizing catalog with
  | nil =>
    cases applied
    simp
  | cons name names ih =>
    obtain ⟨next, step, applied⟩ := bind_eq_ok.mp applied
    have dropped : next = catalog.dropCheck table name := by
      rw [Ddl.apply] at step
      by_cases present : catalog.hasCheck table name = true
      · rw [if_pos present] at step
        exact (ok.inj step).symm
      · rw [if_neg present, if_pos rfl] at step
        rw [← ok.inj step, Catalog.dropCheck, filter_eq_self.mpr]
        simpa [Catalog.hasCheck] using present
    rw [ih applied, dropped, Catalog.dropCheck, filter_filter]
    congr 2
    funext object
    simp only [Constraint.is, contains_cons]
    cases object.table == table <;> cases object.name == name <;> simp

theorem applyAll_dropIndexes {names : List Text}
    (applied : applyAll env catalog (names.map (Ddl.dropIndex · true)) = .ok final) :
    final = { catalog with indexes := catalog.indexes.filter fun object => !names.contains object.name } := by
  induction names generalizing catalog with
  | nil =>
    cases applied
    simp
  | cons name names ih =>
    obtain ⟨next, step, applied⟩ := bind_eq_ok.mp applied
    have dropped : next = catalog.dropIndex name := by
      rw [Ddl.apply] at step
      cases found : catalog.indexes.find? (·.name == name) with
      | some object =>
        rw [found] at step
        by_cases owned : object.owned = true
        · simp [owned] at step
        · simpa [owned, eq_comm] using step
      | none =>
        rw [found] at step
        rw [← ok.inj step, Catalog.dropIndex, filter_eq_self.mpr]
        simpa using find?_eq_none.mp found
    rw [ih applied, dropped, Catalog.dropIndex, filter_filter]
    congr 2
    funext object
    simp only [contains_cons, bne]
    cases object.name == name <;> simp

theorem dropLeftovers_ok {tables : List Table} {s s' : Session}
    (ran : forEach (fun table => dropObjects env table table.leftoverChecks table.leftoverIndexes) tables s = (.ok (), s')) :
    s'.catalog = s.catalog.swept tables := by
  induction tables generalizing s with
  | nil =>
    obtain ⟨-, rfl⟩ := exceptT_pure_ok.mp ran
    simp [Catalog.swept]
  | cons table tables ih =>
    obtain ⟨_, mid, first, ran⟩ := exceptT_bind_ok.mp ran
    have step : applyAll env s.catalog (table.leftoverChecks.map (Ddl.dropCheck table.entity.entityName · true) ++
        table.leftoverIndexes.map (Ddl.dropIndex · true)) = .ok mid.catalog := by
      dsimp only [dropObjects] at first
      split at first
      next empty =>
        obtain ⟨-, rfl⟩ := exceptT_pure_ok.mp first
        rw [List.isEmpty_iff.mp empty]
        rfl
      next => exact execute_ok first
    obtain ⟨checked, checks, indexes⟩ := applyAll_append step
    rw [ih ran, applyAll_dropIndexes indexes, applyAll_dropChecks checks]
    simp only [Catalog.swept, filter_filter, all_cons, Table.sparesCheck, Table.sparesIndex]
    congr 2 <;> funext object <;> exact Bool.and_comm _ _

/-- Nothing of an interrupted run is left on these tables. -/
def Catalog.NoLeftovers (crates : Crates) (catalog : Catalog) (entities : List EntityContract) : Prop :=
  ∀ entity ∈ entities, (∀ object ∈ catalog.checksOf entity.entityName, leftoverCheck object = false) ∧
    ∀ rules, compileEntity crates entity = .ok rules →
      ∀ object ∈ catalog.indexesOf entity.entityName, leftoverIndex rules object = false

theorem plan_leftovers {crates : Crates} {schema : Text} {entity : EntityContract}
    {previous : Option EntityContract} {table : Table}
    (made : plan crates schema catalog entity previous trigram = .ok table) :
    table.entity = entity ∧
      table.leftoverChecks = ((catalog.checksOf entity.entityName).filter leftoverCheck).map (·.name) ∧
      ∃ rules, compileEntity crates entity = .ok rules ∧
        table.leftoverIndexes = ((catalog.indexesOf entity.entityName).filter (leftoverIndex rules)).map (·.name) := by
  obtain ⟨rules, compiled, made⟩ := bind_eq_ok.mp made
  cases made
  exact ⟨rfl, rfl, rules, mapError_eq_ok.mp compiled, rfl⟩

/-- One table's leftovers are dropped without effect when there are none. -/
theorem spares_all_iff {crates : Crates} {schema : Text} {entity : EntityContract}
    {previous : Option EntityContract} {table : Table}
    (made : plan crates schema catalog entity previous trigram = .ok table) :
    ((∀ object ∈ catalog.constraints, table.sparesCheck object = true) ∧
        ∀ object ∈ catalog.indexes, table.sparesIndex object = true) ↔
      (∀ object ∈ catalog.checksOf entity.entityName, leftoverCheck object = false) ∧
        ∀ rules, compileEntity crates entity = .ok rules →
          ∀ object ∈ catalog.indexesOf entity.entityName, leftoverIndex rules object = false := by
  obtain ⟨same, checks, rules, compiled, indexes⟩ := plan_leftovers made
  have only {P : EntityRules → Prop} : (∀ other, compileEntity crates entity = .ok other → P other) ↔ P rules :=
    ⟨fun all => all rules compiled, fun holds other ok => Except.ok.inj (compiled.symm.trans ok) ▸ holds⟩
  rw [only]
  apply and_congr
  · -- an object that is dropped has the name of a leftover of this table
    simp only [Table.sparesCheck, same, checks, Catalog.checksOf]
    constructor
    · intro spared object mem
      obtain ⟨inside, own⟩ := mem_filter.mp mem
      by_contra leftover
      have dropped := spared object inside
      simp only [Bool.not_eq_eq_eq_not, Bool.not_true, Bool.and_eq_false_iff, contains_eq_mem,
        decide_eq_false_iff_not, mem_map, mem_filter, not_exists] at dropped
      rcases dropped with other | kept
      · simp [own] at other
      · exact kept object ⟨⟨⟨inside, own⟩, by simpa using leftover⟩, rfl⟩
    · intro none object inside
      by_contra dropped
      simp only [Bool.not_eq_eq_eq_not, Bool.not_true, Bool.not_eq_false, Bool.and_eq_true, contains_eq_mem,
        decide_eq_true_eq, mem_map, mem_filter] at dropped
      obtain ⟨-, found, ⟨⟨mem, own⟩, leftover⟩, -⟩ := dropped
      rw [none found (mem_filter.mpr ⟨mem, own⟩)] at leftover
      cases leftover
  · simp only [Table.sparesIndex, indexes, Catalog.indexesOf]
    constructor
    · intro spared object mem
      obtain ⟨inside, own⟩ := mem_filter.mp mem
      by_contra leftover
      have dropped := spared object inside
      simp only [Bool.not_eq_eq_eq_not, Bool.not_true, contains_eq_mem, decide_eq_false_iff_not, mem_map,
        mem_filter, not_exists] at dropped
      exact dropped object ⟨⟨⟨inside, own⟩, by simpa using leftover⟩, rfl⟩
    · intro none object inside
      by_contra dropped
      simp only [Bool.not_eq_eq_eq_not, Bool.not_true, Bool.not_eq_false, contains_eq_mem, decide_eq_true_eq,
        mem_map, mem_filter] at dropped
      obtain ⟨found, ⟨⟨mem, own⟩, leftover⟩, -⟩ := dropped
      rw [none found (mem_filter.mpr ⟨mem, own⟩)] at leftover
      cases leftover

theorem swept_eq_self_iff {crates : Crates} {schema : Text} {catalog : Catalog} {trigram : Option Text}
    {entities : List EntityContract} {tables : List Table}
    (made : List.Forall₂ (fun entity table => ∃ before, plan crates schema catalog entity before trigram = .ok table)
      entities tables) :
    catalog.swept tables = catalog ↔ catalog.NoLeftovers crates entities := by
  have fields : catalog.swept tables = catalog ↔ ∀ table ∈ tables,
      (∀ object ∈ catalog.constraints, table.sparesCheck object = true) ∧
        ∀ object ∈ catalog.indexes, table.sparesIndex object = true := by
    have parts : catalog.swept tables = catalog ↔
        catalog.constraints.filter (fun object => tables.all (·.sparesCheck object)) = catalog.constraints ∧
          catalog.indexes.filter (fun object => tables.all (·.sparesIndex object)) = catalog.indexes := by
      rw [Catalog.swept]
      cases catalog
      simp
    rw [parts, filter_eq_self, filter_eq_self]
    simp only [all_eq_true]
    exact ⟨fun ⟨checks, indexes⟩ table mem =>
        ⟨fun object inside => checks object inside table mem, fun object inside => indexes object inside table mem⟩,
      fun spared => ⟨fun object inside table mem => (spared table mem).1 object inside,
        fun object inside table mem => (spared table mem).2 object inside⟩⟩
  rw [fields, Catalog.NoLeftovers]
  clear fields
  induction made with
  | nil => simp
  | cons first rest ih =>
    obtain ⟨before, first⟩ := first
    rw [forall_mem_cons, forall_mem_cons]
    exact and_congr (spares_all_iff first) ih

/-- What comes before the preflight of a run changes nothing exactly when pg_trgm
    is there if it is needed, and nothing is left of an interrupted run. -/
theorem prepare_unchanged_iff {entities previous : List EntityContract} {tables : List Table}
    (ran : prepare env entities previous s = (.ok tables, s')) :
    s'.catalog.tables = s.catalog.tables ∧
      (s'.catalog = s.catalog ↔
        (declaresTrigram entities = true → s.catalog.trigram.isSome = true) ∧
          s.catalog.NoLeftovers env.crates entities) := by
  obtain ⟨trigram, ready, ensured, ran⟩ := exceptT_bind_ok.mp ran
  obtain ⟨found, drawn, planned, ran⟩ := exceptT_bind_ok.mp ran
  obtain ⟨_, last, dropped, ran⟩ := exceptT_bind_ok.mp ran
  obtain ⟨rfl, rfl⟩ := exceptT_pure_ok.mp ran
  have installed := trigramFor_ok ensured
  obtain ⟨kept, planned⟩ := plans_ok planned
  have swept := dropLeftovers_ok dropped
  rw [kept] at swept
  have same : ready.catalog.NoLeftovers env.crates entities ↔ s.catalog.NoLeftovers env.crates entities := by
    rw [installed, Catalog.withTrigram]
    split <;> rfl
  rw [swept]
  by_cases needed : declaresTrigram entities = true → s.catalog.trigram.isSome = true
  · have untouched : ready.catalog = s.catalog := by
      rw [installed, Catalog.withTrigram, if_neg]
      intro both
      rw [Bool.and_eq_true, Option.isNone_iff_eq_none] at both
      simp [both.2] at needed
      simp [needed] at both
    rw [untouched] at planned ⊢
    exact ⟨rfl, by rw [swept_eq_self_iff planned]; exact (and_iff_right needed).symm⟩
  · have added : ready.catalog.trigram ≠ s.catalog.trigram := by
      push Not at needed
      have absent : s.catalog.trigram = none := by simpa using needed.2
      simp [installed, Catalog.withTrigram, needed.1, absent]
    refine ⟨by rw [installed, Catalog.withTrigram]; split <;> rfl, ?_⟩
    have differs : ready.catalog.swept found ≠ s.catalog := fun equal =>
      added (show (ready.catalog.swept found).trigram = _ by rw [equal])
    exact iff_of_false differs fun both => needed both.1

end Session

/-! ## Preflight decides, and its refusals -/

/-- Tables of one text column, on which everything can be asked. -/
def sampleEngine (column : Text) : Engine Text Text where
  columns := [column]
  analyze := fun _ => .ok ()
  truth := fun _ _ => .ok (some true)
  value := fun _ row => .ok (some row)
  same := fun value other => value == other
  fits := fun _ => true
  ids := id
  arrange := id
  arranged := fun _ => .refl _

def sampleEnv : Env Text Text where
  crates := sampleCrates
  appId := "crm"
  engine := fun _ _ => sampleEngine "slug"
  rows := fun _ _ => []
  fault := fun _ => none
  buildPlain := fun _ _ => .ok ()
  opclasses := fun _ => []

def rulesOf (entity : EntityContract) : EntityRules :=
  match compileEntity sampleCrates entity with
  | .ok rules => rules
  | .error _ => ⟨[], []⟩

/-- An index that PostgreSQL never makes unique. -/
def pages : EntityContract where
  entityName := "pages"
  fields := [{ name := "slug", fieldType := "text" }]
  indexes := [{ columns := [.name "slug"], unique := true, using_ := some "hash" }]

theorem pages_compiled : compileEntity sampleCrates pages = .ok (rulesOf pages) := by
  decide +kernel

end RootCx.Reconcile
