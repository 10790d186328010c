import RootCx.RowAccess.Meaning

/-! # Installing the row-access contract

`governance/row_access/mod.rs`: the plan of every table of a schema is executed
in turn, and the resolvers of one entity are defined again by each of its
children.
-/

namespace RootCx.RowAccess

open RootCx.Text RootCx.Postgres RootCx.Runs List

/-! ## Reconciliation -/

/-- The access rules of the tables of a schema and the resolvers of the database. -/
structure Governed where
  access : Text → Access
  resolvers : Text → Option Resolver

/-- The entity whose keys guard a table. -/
def guardOf (entities : List EntityContract) (table : Text) : Text :=
  ((entityNamed entities table).map (·.keysEntity)).getD table

def sensitiveOf (entities : List EntityContract) (table : Text) : List Text :=
  ((entityNamed entities table).map fun entity => (entity.fields.filter (·.sensitive)).map (·.name)).getD []

/-- The schema and the entity a resolver is named for. -/
def resolverEntity (name : Text) : Option (Text × Text) :=
  if "rootcx_own." <+: name then splitOnce '.' (name.drop 11) else none

/-- `prune_owner_resolvers_tx`: the resolvers of entities nobody defers to any more
    are dropped. -/
def pruneOwnerResolvers (schema : Text) (keep : List Text) (resolvers : Text → Option Resolver) :
    Text → Option Resolver := fun name =>
  match resolverEntity name with
  | some (owner, entity) => if owner ≠ schema ∨ entity ∈ keep then resolvers name else none
  | none => resolvers name

def parentsOf (entities : List EntityContract) : List Text := entities.filterMap ownerParent

section Install

-- what is shared and which actions read a table is declared elsewhere in the manifest
variable (catalog : Catalog) (schema : Text) (entities : List EntityContract) (shared : Text → Option Predicate)
  (approvedRead : Text → Bool)

def applyTableRls (state : Governed) (table : Text) : Except Text Governed := do
  let facts ← tableFacts catalog schema table (ownerMap entities)
  let statements ← tableRls schema table (guardOf entities table) facts (shared table) (sensitiveOf entities table)
    (approvedRead table)
  match run step { state.access table with columns := facts.columns, resolvers := state.resolvers } statements with
  | none => .error "the database refused a statement"
  | some after => .ok ⟨Function.update state.access table after, after.resolvers⟩

def reconcile (tables : List Text) (state : Governed) : Except Text Governed :=
  match entities.find? (·.entityName ∉ tables) with
  | some entity => .error (governance ("declared table '" ++ schema ++ "." ++ entity.entityName ++
      "' is missing; redeploy its manifest"))
  | none => do
    let applied ← tables.foldlM (applyTableRls catalog schema entities shared approvedRead) state
    .ok { applied with resolvers := pruneOwnerResolvers schema (parentsOf entities) applied.resolvers }

def install (tables : List Text) (state : Governed) : Except Text Governed := do
  validate schema entities
  reconcile catalog schema entities shared approvedRead tables state

end Install

/-! ## Resolvers after an install -/

variable {catalog : Catalog} {schema : Text} {entities : List EntityContract} {shared : Text → Option Predicate}
  {approvedRead : Text → Bool}

variable {after : Governed} {parent : Text}

theorem applyTableRls_ok {state : Governed} {table : Text}
    (ok : applyTableRls catalog schema entities shared approvedRead state table = .ok after) :
    ∃ owner, ownerFacts catalog schema table (ownerMap entities) = .ok owner ∧
      after.resolvers = change state.resolvers (ownerChanges owner) := by
  obtain ⟨facts, described, ok⟩ := bind_eq_ok.mp ok
  obtain ⟨statements, planned, ok⟩ := bind_eq_ok.mp ok
  have once := resolvers_once described
  obtain ⟨-, refused⟩ | ⟨-, ran⟩ := run_tableRls once planned
    (show { state.access table with columns := facts.columns, resolvers := state.resolvers }.columns = facts.columns from rfl)
  · rw [refused] at ok
    cases ok
  · rw [ran] at ok
    cases ok
    obtain ⟨owner, read, made⟩ := bind_eq_ok.mp described
    cases made
    exact ⟨owner, read, rfl⟩

/-- Each table keeps what the tables before it resolved, and resolves what is
    above itself. -/
theorem foldlM_resolved {tables : List Text} {state : Governed}
    (ok : tables.foldlM (applyTableRls catalog schema entities shared approvedRead) state = .ok after) :
    (∀ parent, Resolved catalog schema (ownerMap entities) state.resolvers parent →
      Resolved catalog schema (ownerMap entities) after.resolvers parent) ∧
    ∀ table ∈ tables, ∃ owner, ownerFacts catalog schema table (ownerMap entities) = .ok owner ∧
      ∀ chain, ownerChain schema table (ownerMap entities) = .ok chain → owner.isSome = true →
        ∀ parent ∈ chain.tail.map (·.1), Resolved catalog schema (ownerMap entities) after.resolvers parent := by
  induction tables generalizing state with
  | nil =>
    cases ok
    exact ⟨fun _ resolved => resolved, fun _ inside => absurd inside not_mem_nil⟩
  | cons table tables ih =>
    rw [foldlM_cons] at ok
    obtain ⟨next, applied, ok⟩ := bind_eq_ok.mp ok
    obtain ⟨owner, read, changed⟩ := applyTableRls_ok applied
    obtain ⟨kept, others⟩ := ih ok
    refine ⟨fun parent resolved => kept parent (changed ▸ resolved.change read), ?_⟩
    rw [forall_mem_cons]
    refine ⟨⟨owner, read, fun chain walked declared parent above => kept parent ?_⟩, others⟩
    obtain ⟨facts, rfl⟩ := Option.isSome_iff_exists.mp declared
    rw [changed]
    exact resolved_of_above read state.resolvers walked above

theorem parent_kept {child column : Text} (defers : ownerMap entities child = some (column, some parent)) :
    parent ∈ parentsOf entities := by
  unfold ownerMap at defers
  obtain ⟨entity, inside, found⟩ := exists_of_findSome?_eq_some defers
  split at found
  case isTrue =>
    obtain ⟨_, -, same⟩ := Option.map_eq_some_iff.mp found
    exact mem_filterMap.mpr ⟨entity, mem_reverse.mp inside, (Prod.mk.inj same).2⟩
  case isFalse => cases found

theorem splitOnce_append {separator : Char} {front rest after : Text}
    (cut : splitOnce separator (front ++ separator :: rest) = some (front, after)) : after = rest := by
  have whole := takeWhile_append_dropWhile (p := (· != separator)) (l := front ++ separator :: rest)
  unfold splitOnce at cut
  split at cut
  case h_1 => cases cut
  case h_2 next others found =>
    obtain ⟨before, rfl⟩ := Prod.mk.inj (Option.some.inj cut)
    rw [found, before] at whole
    exact (cons.inj (append_cancel_left whole)).2

/-- Pruning leaves the resolvers of the entities that are deferred to. -/
theorem pruneOwnerResolvers_kept {keep : List Text} (kept : parent ∈ keep)
    (resolvers : Text → Option Resolver) :
    pruneOwnerResolvers schema keep resolvers (ownerResolverName schema parent) =
      resolvers (ownerResolverName schema parent) := by
  unfold pruneOwnerResolvers
  have rest : resolverEntity (ownerResolverName schema parent) = splitOnce '.' (schema ++ '.' :: parent) := by
    have named : ownerResolverName schema parent = "rootcx_own." ++ (schema ++ '.' :: parent) := by
      unfold ownerResolverName
      rw [append_assoc, append_assoc]
      rfl
    rw [named, resolverEntity, if_pos (prefix_append _ _)]
    rfl
  rw [rest]
  split
  case h_1 owner entity cut =>
    split
    case isTrue => rfl
    case isFalse other =>
      obtain ⟨here, gone⟩ := not_or.mp other
      obtain rfl := not_not.mp here
      exact absurd (splitOnce_append cut ▸ kept) gone
  case h_2 => rfl

theorem Resolved.pruned {resolvers : Text → Option Resolver} {keep : List Text} {owners : OwnerMap}
    (resolved : Resolved catalog schema owners resolvers parent) (kept : parent ∈ keep) :
    Resolved catalog schema owners (pruneOwnerResolvers schema keep resolvers) parent := by
  obtain ⟨resolver, found, rest⟩ := resolved
  exact ⟨resolver, (pruneOwnerResolvers_kept kept resolvers).trans found, rest⟩

/-- After an install every entity above an owned table is resolved. -/
theorem install_resolved {tables : List Text} {before : Governed}
    (installed : install catalog schema entities shared approvedRead tables before = .ok after)
    {entity : EntityContract} (mem : entity ∈ entities) {column : Text} {parent : Option Text}
    (owned : ownerMap entities entity.entityName = some (column, parent)) :
    ∃ facts chain, ownerFacts catalog schema entity.entityName (ownerMap entities) = .ok (some facts) ∧
      ownerChain schema entity.entityName (ownerMap entities) = .ok chain ∧
      ∀ above ∈ chain.tail.map (·.1), Resolved catalog schema (ownerMap entities) after.resolvers above := by
  obtain ⟨-, -, reconciled⟩ := bind_eq_ok.mp installed
  unfold reconcile at reconciled
  split at reconciled
  case h_1 => cases reconciled
  case h_2 present =>
    obtain ⟨applied, folded, done⟩ := bind_eq_ok.mp reconciled
    cases done
    have inside : entity.entityName ∈ tables := by
      have all := find?_eq_none.mp present entity mem
      simpa using all
    obtain ⟨owner, read, resolved⟩ := (foldlM_resolved folded).2 _ inside
    cases owner with
    | none => exact absurd (owned.symm.trans (ownerFacts_none read)) (by simp)
    | some facts =>
      obtain ⟨chain, root, walked, climbs, -⟩ := ownerFacts_some read
      refine ⟨facts, chain, read, walked, fun above inChain => ?_⟩
      obtain ⟨child, column, defers⟩ := climbs.parents above inChain
      exact (resolved chain walked rfl above inChain).pruned (parent_kept defers)

/-- A row is the caller's when its links lead to a row that holds the caller's id,
    in every session that may cross them, and a resolver returns the keys of the
    rows that are the caller's to each of the entities that defer to it. -/
theorem mine_iff_reaches {tables : List Text} {before after : Governed}
    (installed : install catalog schema entities shared approvedRead tables before = .ok after)
    {entity : EntityContract} (member : entity ∈ entities) {column : Text} {parent : Option Text}
    (owned : ownerMap entities entity.entityName = some (column, parent)) :
    ∃ facts chain, ownerFacts catalog schema entity.entityName (ownerMap entities) = .ok (some facts) ∧
      ownerChain schema entity.entityName (ownerMap entities) = .ok chain ∧
      ∀ (Value : Type) [DecidableEq Value] (world : World Value), world.resolvers = after.resolvers →
        ∀ depth, MAX_OWNER_CHAIN ≤ depth →
          (∀ row, (ownership facts).2.holds world (answers world schema depth) row = some true ↔
            Reaches catalog (ownerMap entities) world entity.entityName row ∧
              ∀ above ∈ chain.tail.map (·.1), crosses world schema above = true) ∧
          ((∀ above ∈ chain.tail.map (·.1), crosses world schema above = true) →
            ∀ above ∈ chain.tail.map (·.1), ∃ pk, catalog.primaryKey above = some pk ∧ ∀ key,
              key ∈ answers world schema depth (ownerResolverName schema above) ↔
                ∃ row ∈ world.tables above, row pk = key ∧ Reaches catalog (ownerMap entities) world above row) := by
  obtain ⟨facts, chain, read, walked, resolved⟩ := install_resolved installed member owned
  obtain ⟨chain', root, walked', climbs, last, typed, linked, rootColumn⟩ := ownerFacts_some read
  cases walked.symm.trans walked'
  have describes : Describes catalog schema (ownerMap entities) entity.entityName (ownership facts).2 :=
    ⟨chain, root, facts.rootType, facts.links, climbs, last, typed, linked, by rw [ownership, rootColumn]⟩
  have short := ownerChain_length walked
  refine ⟨facts, chain, read, walked, fun Value _ world same depth deep => ⟨fun row => ?_, fun crossed above inside => ?_⟩⟩
  · exact holds_iff_reaches climbs describes (fun parent inside => same ▸ resolved parent inside) (by omega) row
  · obtain ⟨resolver, found, named, keyed, resolverDescribes⟩ := resolved above inside
    obtain ⟨rest, higher, shorter, kept⟩ := climbs.above inside
    obtain ⟨depth, rfl⟩ : ∃ less, depth = less + 1 := ⟨depth - 1, by unfold MAX_OWNER_CHAIN at deep; omega⟩
    have holds (row : Row Value) := @holds_iff_reaches Value _ catalog schema (ownerMap entities) world above rest higher
      resolver.mine resolverDescribes (fun parent inRest => same ▸ resolved parent (kept parent inRest)) depth (by omega) row
    refine ⟨resolver.pk, keyed, fun key => ?_⟩
    rw [mem_answers (same ▸ found) named]
    constructor
    · rintro ⟨-, row, inTable, keyIs, mine⟩
      exact ⟨row, inTable, keyIs, ((holds row).mp mine).1⟩
    · rintro ⟨row, inTable, keyIs, reached⟩
      exact ⟨crossed above inside, row, inTable, keyIs,
        (holds row).mpr ⟨reached, fun parent inRest => crossed parent (kept parent inRest)⟩⟩

/-! A task of a project of the caller, seen from a session of another app. -/

def projectEntity : EntityContract where
  entityName := "project"
  fields := [{ name := "owner_id", fieldType := "uuid", owner := true }]

def projectLink : FieldContract where
  name := "project_id"
  fieldType := "entity_link"
  references := some ⟨"project", "id"⟩
  owner := true

def taskEntity : EntityContract where
  entityName := "task"
  fields := [projectLink]

def hrEntities : List EntityContract := [projectEntity, taskEntity]

/-- Nothing is granted and no policy is there. -/
def ungoverned : Governed where
  access _ := ⟨[], fun _ => none, fun _ _ => false, fun _ _ => false, fun _ => false, fun _ => false, false, false, fun _ => none⟩
  resolvers _ := none

theorem hr_installs : ∃ after, install hrCatalog "hr" hrEntities (fun _ => none) (fun _ => false)
    ["project", "task"] ungoverned = .ok after := by
  have accepted : (install hrCatalog "hr" hrEntities (fun _ => none) (fun _ => false)
    ["project", "task"] ungoverned).isOk = true := by decide +kernel
  match result : install hrCatalog "hr" hrEntities (fun _ => none) (fun _ => false)
    ["project", "task"] ungoverned with
  | .ok after => exact ⟨after, rfl⟩
  | .error _ =>
    rw [result] at accepted
    cases accepted

def taskRow : Row Text := fun column => if column = "project_id" then some "p1" else none

def projectRow : Row Text := fun column =>
  if column = "id" then some "p1" else if column = "owner_id" then some "u1" else none

/-- A session of user `u1` in `app`. -/
def hrWorld (app : Text) (resolvers : Text → Option Resolver) : World Text where
  setting
    | .userId => some "u1"
    | .appId => some app
    | _ => none
  gate _ _ := false
  cast _ user := user
  tables table :=
    if table = "task" then [taskRow] else if table = "project" then [projectRow] else []
  resolvers := resolvers
  sharedKeys _ := []
  other _ _ := none

theorem mine_stops_at_other_app :
    ∃ after, install hrCatalog "hr".toList hrEntities (fun _ => none) (fun _ => false)
        ["project".toList, "task".toList] ungoverned = .ok after ∧
      ownerFacts hrCatalog "hr".toList "task".toList (ownerMap hrEntities) = .ok (some taskOwner) ∧
      Reaches hrCatalog (ownerMap hrEntities) (hrWorld "crm".toList after.resolvers) "task".toList taskRow ∧
      ∀ depth, (ownership taskOwner).2.holds (hrWorld "crm".toList after.resolvers)
        (answers (hrWorld "crm".toList after.resolvers) "hr".toList depth) taskRow ≠ some true := by
  obtain ⟨after, installed⟩ := hr_installs
  refine ⟨after, installed, rfl, ?_, ?_⟩
  · have project : Reaches hrCatalog (ownerMap hrEntities) (hrWorld "crm".toList after.resolvers) "project".toList projectRow :=
      @Reaches.root _ _ _ _ _ "owner_id".toList "uuid".toList "u1".toList projectRow rfl rfl rfl rfl
    exact .link rfl rfl rfl List.mem_cons_self rfl project
  · intro depth holds
    obtain ⟨_, chain, -, walked, resolved⟩ := install_resolved installed (show taskEntity ∈ hrEntities by simp [hrEntities])
      (show ownerMap hrEntities taskEntity.entityName = some ("project_id".toList, some "project".toList) from rfl)
    obtain rfl : [("task".toList, "project_id".toList), ("project".toList, "owner_id".toList)] = chain :=
      Except.ok.inj walked
    obtain ⟨resolver, found, named, -, -⟩ := resolved "project".toList (by simp)
    obtain ⟨key, points, inside⟩ := among_eq_true.mp holds
    cases depth with
    | zero => exact absurd inside List.not_mem_nil
    | succ depth =>
      have crossed := ((mem_answers found named).mp inside).1
      exact Bool.false_ne_true crossed

theorem tasks_mine :
    ∃ after, install hrCatalog "hr".toList hrEntities (fun _ => none) (fun _ => false)
        ["project".toList, "task".toList] ungoverned = .ok after ∧
      ∃ facts chain, ownerFacts hrCatalog "hr".toList "task".toList (ownerMap hrEntities) = .ok (some facts) ∧
        ownerChain "hr".toList "task".toList (ownerMap hrEntities) = .ok chain ∧
        ∀ (Value : Type) [DecidableEq Value] (world : World Value), world.resolvers = after.resolvers →
          ∀ depth, MAX_OWNER_CHAIN ≤ depth →
            (∀ row, (ownership facts).2.holds world (answers world "hr".toList depth) row = some true ↔
              Reaches hrCatalog (ownerMap hrEntities) world "task".toList row ∧
                ∀ above ∈ chain.tail.map (·.1), crosses world "hr".toList above = true) ∧
            ((∀ above ∈ chain.tail.map (·.1), crosses world "hr".toList above = true) →
              ∀ above ∈ chain.tail.map (·.1), ∃ pk, hrCatalog.primaryKey above = some pk ∧ ∀ key,
                key ∈ answers world "hr".toList depth (ownerResolverName "hr".toList above) ↔
                  ∃ row ∈ world.tables above, row pk = key ∧ Reaches hrCatalog (ownerMap hrEntities) world above row) := by
  obtain ⟨after, installed⟩ := hr_installs
  exact ⟨after, installed, mine_iff_reaches installed (show taskEntity ∈ hrEntities by simp [hrEntities])
    (show ownerMap hrEntities taskEntity.entityName = some ("project_id".toList, some "project".toList) from rfl)⟩

end RootCx.RowAccess
