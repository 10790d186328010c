import RootCx.Lib.CheckedClosure
import RootCx.Lib.Except
import RootCx.Lib.Lookup
import RootCx.RowAccess.Gates

/-! # Referential effects of an approved action

`validate_fk_effects` of `governance/approved_actions/sql.rs`.  A referential action of
PostgreSQL bypasses the privileges and the row policies of the table that it writes, so an
authority is accepted only with everything that its deletes and updates may set off.
-/

namespace RootCx.ApprovedActions

open RootCx.Text RootCx.RowAccess List Except

/-! ## The check -/

/-- `confdeltype` and `confupdtype`: no action, restrict, cascade, set null, set default. -/
def referentialActions : List Text := ["a", "r", "c", "n", "d"]

/-- A row of `pg_constraint`. -/
structure ForeignKey where
  name : Text
  parentSchema : Text
  parent : Text
  childSchema : Text
  child : Text
  onDelete : Text
  onUpdate : Text
  onDelete_known : onDelete ∈ referentialActions
  onUpdate_known : onUpdate ∈ referentialActions

structure ActionAuthority where
  data : List (Text × List DataOperation)
  distinct : (data.map Prod.fst).Nodup

def ActionAuthority.allows (authority : ActionAuthority) (entity : Text) (operation : DataOperation) : Bool :=
  ((authority.data.find? (·.1 = entity)).map Prod.snd).any (·.contains operation)

/-- A delete or an update of the rows of a local entity. -/
abbrev Write := Text × DataOperation

def invalid (message : Text) : Text := "action authority: " ++ message

/-- What a write of the parent's rows does to the child's, if anything. -/
def ForeignKey.effect (fk : ForeignKey) (operation : DataOperation) : Except Text (Option DataOperation) :=
  let action := match operation with
    | .delete => some fk.onDelete
    | .update => some fk.onUpdate
    | _ => none
  match action with
  | none => .error "only delete and update have referential effects"
  | some action =>
    if action = "a" ∨ action = "r" then .ok none
    else if action = "c" then .ok (some operation)
    else if action = "n" ∨ action = "d" then .ok (some .update)
    else
      .error (invalid ("foreign key '" ++ fk.name ++ "' has unsupported referential action '" ++ action ++ "'"))

section Check

variable (appId : Text) (authority : ActionAuthority)

/-- The effects of a write along the foreign keys, each of them checked. -/
def effects (entity : Text) (operation : DataOperation) : List ForeignKey → Except Text (List Write)
  | [] => .ok []
  | fk :: rest => do
    match ← fk.effect operation with
    | none => effects entity operation rest
    | some effect =>
      let source := "'" ++ entity ++ "." ++ operation.asStr ++ "' via foreign key '" ++ fk.name ++ "' "
      if fk.childSchema ≠ appId then
        .error (invalid (source ++ "would " ++ effect.asStr ++ " '" ++ fk.childSchema ++ "." ++ fk.child
          ++ "'; cross-app referential effects cannot be approved"))
      else if !authority.allows fk.child effect then
        .error (invalid (source ++ "requires explicit '" ++ fk.child ++ "." ++ effect.asStr ++ "' authority"))
      else do
        return (fk.child, effect) :: (← effects entity operation rest)

variable (foreignKeys : List ForeignKey)

/-- The foreign keys whose parent is in the schema of the app, in the order of the query. -/
def constraints : List ForeignKey := foreignKeys.filter (·.parentSchema = appId)

def writeEffects (write : Write) : Except Text (List Write) :=
  effects appId authority write.1 write.2 ((constraints appId foreignKeys).filter (·.parent = write.1))

/-- The approved deletes and updates. -/
def approvedWrites : List Write :=
  authority.data.flatMap fun (entity, operations) =>
    (operations.filter fun operation => operation = .delete || operation = .update).map fun operation => (entity, operation)

/-- The verdict, if the work ends within a number of rounds. -/
def validateFkEffects (rounds : Nat) : Option (Except Text Unit) :=
  CheckedClosure.explore (writeEffects appId authority foreignKeys) rounds (approvedWrites authority).reverse []

end Check

/-! ## What a write can reach -/

/-- A delete cascades as a delete and an update as an update; a set null or a set default is
    an update. -/
inductive ForeignKey.SetsOff (fk : ForeignKey) : DataOperation → DataOperation → Prop where
  | deleteCascades (action : fk.onDelete = "c") : SetsOff fk .delete .delete
  | updateCascades (action : fk.onUpdate = "c") : SetsOff fk .update .update
  | deleteSets (action : fk.onDelete = "n" ∨ fk.onDelete = "d") : SetsOff fk .delete .update
  | updateSets (action : fk.onUpdate = "n" ∨ fk.onUpdate = "d") : SetsOff fk .update .update

/-- The writes of tables, by their schemas, that a chain of referential actions sets off,
    from an approved delete or update of a local entity. -/
inductive Reaches (appId : Text) (authority : ActionAuthority) (foreignKeys : List ForeignKey) :
    Text → Text → DataOperation → Prop where
  | approved {entity : Text} {operation : DataOperation} (allowed : authority.allows entity operation = true)
      (writes : operation = .delete ∨ operation = .update) : Reaches appId authority foreignKeys appId entity operation
  | chain {fk : ForeignKey} {operation effect : DataOperation} (member : fk ∈ foreignKeys)
      (reached : Reaches appId authority foreignKeys fk.parentSchema fk.parent operation) (setsOff : fk.SetsOff operation effect) :
      Reaches appId authority foreignKeys fk.childSchema fk.child effect

/-- Every delete and update that can be reached is an approved one of a local entity. -/
def Closed (appId : Text) (authority : ActionAuthority) (foreignKeys : List ForeignKey) : Prop :=
  ∀ schema table operation, Reaches appId authority foreignKeys schema table operation →
    schema = appId ∧ authority.allows table operation = true

/-! ## The check decides it -/

section Decides

variable {appId : Text} {authority : ActionAuthority} {foreignKeys : List ForeignKey} {fk : ForeignKey}
  {operation effect : DataOperation} {entity : Text} {write : Write}

theorem effect_some (found : fk.effect operation = .ok (some effect)) : fk.SetsOff operation effect := by
  cases operation with
  | read | create => cases found
  | delete =>
    unfold ForeignKey.effect at found
    dsimp only at found
    split at found
    · cases found
    split at found
    · rename_i cascade
      cases ok.inj found
      exact .deleteCascades cascade
    split at found
    · rename_i sets
      cases ok.inj found
      exact .deleteSets sets
    · cases found
  | update =>
    unfold ForeignKey.effect at found
    dsimp only at found
    split at found
    · cases found
    split at found
    · rename_i cascade
      cases ok.inj found
      exact .updateCascades cascade
    split at found
    · rename_i sets
      cases ok.inj found
      exact .updateSets sets
    · cases found

theorem effect_of_setsOff (setsOff : fk.SetsOff operation effect) : fk.effect operation = .ok (some effect) := by
  cases setsOff with
  | deleteCascades action | updateCascades action => simp [ForeignKey.effect, action]
  | deleteSets action | updateSets action => obtain action | action := action <;> simp [ForeignKey.effect, action]

theorem effect_ok (writes : operation = .delete ∨ operation = .update) : ∃ effect, fk.effect operation = .ok effect := by
  have known {action : Text} (mem : action ∈ referentialActions) :
      (action = "a" ∨ action = "r") ∨ action = "c" ∨ action = "n" ∨ action = "d" := by
    simpa [referentialActions, or_assoc] using mem
  obtain rfl | rfl := writes
  · obtain still | cascade | sets := known fk.onDelete_known
    · exact ⟨none, if_pos still⟩
    · exact ⟨_, effect_of_setsOff (.deleteCascades cascade)⟩
    · exact ⟨_, effect_of_setsOff (.deleteSets sets)⟩
  · obtain still | cascade | sets := known fk.onUpdate_known
    · exact ⟨none, if_pos still⟩
    · exact ⟨_, effect_of_setsOff (.updateCascades cascade)⟩
    · exact ⟨_, effect_of_setsOff (.updateSets sets)⟩

theorem setsOff_writes (setsOff : fk.SetsOff operation effect) :
    (operation = .delete ∨ operation = .update) ∧ (effect = .delete ∨ effect = .update) := by
  cases setsOff <;> simp

/-- What passes has checked each effect, and brings it. -/
theorem effects_ok {keys : List ForeignKey} {writes : List Write} (passed : effects appId authority entity operation keys = .ok writes) :
    (∀ fk ∈ keys, ∀ effect, fk.SetsOff operation effect →
      (fk.childSchema = appId ∧ authority.allows fk.child effect = true) ∧ (fk.child, effect) ∈ writes) ∧
    ∀ write ∈ writes, ∃ fk ∈ keys, fk.child = write.1 ∧ fk.SetsOff operation write.2 := by
  induction keys generalizing writes with
  | nil =>
    cases passed
    exact ⟨nofun, nofun⟩
  | cons fk keys ih =>
    obtain ⟨found, known, passed⟩ := bind_eq_ok.mp passed
    cases found with
    | none =>
      obtain ⟨checked, brought⟩ := ih passed
      refine ⟨forall_mem_cons.mpr ⟨fun effect setsOff => ?_, checked⟩, fun write mem => ?_⟩
      · exact nomatch ok.inj (known.symm.trans (effect_of_setsOff setsOff))
      · obtain ⟨fk, inside, rest⟩ := brought write mem
        exact ⟨fk, mem_cons_of_mem _ inside, rest⟩
    | some own =>
      dsimp only at passed
      split at passed
      · cases passed
      rename_i schema
      split at passed
      · cases passed
      rename_i allowed
      obtain ⟨others, rest, done⟩ := bind_eq_ok.mp passed
      obtain rfl := pure_eq_ok.mp done
      obtain ⟨checked, brought⟩ := ih rest
      refine ⟨forall_mem_cons.mpr ⟨fun effect setsOff => ?_, fun fk inside effect setsOff => ?_⟩, fun write mem => ?_⟩
      · cases ok.inj (known.symm.trans (effect_of_setsOff setsOff))
        exact ⟨⟨by simpa using schema, by simpa using allowed⟩, mem_cons_self⟩
      · obtain ⟨fine, mem⟩ := checked fk inside effect setsOff
        exact ⟨fine, mem_cons_of_mem _ mem⟩
      · obtain rfl | later := mem_cons.mp mem
        · exact ⟨fk, mem_cons_self, rfl, effect_some known⟩
        · obtain ⟨fk, inside, rest⟩ := brought write later
          exact ⟨fk, mem_cons_of_mem _ inside, rest⟩

theorem effects_of_allowed {keys : List ForeignKey} (writes : operation = .delete ∨ operation = .update)
    (allowed : ∀ fk ∈ keys, ∀ effect, fk.SetsOff operation effect →
      fk.childSchema = appId ∧ authority.allows fk.child effect = true) :
    ∃ brought, effects appId authority entity operation keys = .ok brought := by
  induction keys with
  | nil => exact ⟨[], rfl⟩
  | cons fk keys ih =>
    obtain ⟨own, rest⟩ := forall_mem_cons.mp allowed
    obtain ⟨brought, passed⟩ := ih rest
    obtain ⟨found, known⟩ : ∃ found, fk.effect operation = .ok found := effect_ok writes
    unfold effects
    rw [known]
    cases found with
    | none => exact ⟨brought, passed⟩
    | some effect =>
      obtain ⟨schema, granted⟩ := own effect (effect_some known)
      refine ⟨(fk.child, effect) :: brought, ?_⟩
      show (if fk.childSchema ≠ appId then _ else _) = _
      rw [if_neg (not_not_intro schema), if_neg (by simp [granted]), passed]
      rfl

theorem mem_approvedWrites : (entity, operation) ∈ approvedWrites authority ↔
    authority.allows entity operation = true ∧ (operation = .delete ∨ operation = .update) := by
  have held : authority.allows entity operation = true ↔ ∃ operations, (entity, operations) ∈ authority.data ∧ operation ∈ operations := by
    unfold ActionAuthority.allows
    cases found : authority.data.find? (·.1 = entity) with
    | none =>
      refine iff_of_false nofun ?_
      rintro ⟨operations, mem, -⟩
      exact find?_eq_none.mp found _ mem (decide_eq_true rfl)
    | some entry =>
      have named : entry.1 = entity := by simpa using find?_some found
      constructor
      · intro allowed
        exact ⟨entry.2, named ▸ mem_of_find?_eq_some found, by simpa using allowed⟩
      · rintro ⟨operations, mem, inside⟩
        obtain rfl : entry = (entity, operations) :=
          Option.some.inj (found.symm.trans ((find?_key_eq_some authority.distinct).mpr ⟨mem, rfl⟩))
        simpa using inside
  rw [held]
  unfold approvedWrites
  simp only [mem_flatMap, mem_map, mem_filter, Bool.or_eq_true, decide_eq_true_eq, Prod.exists]
  constructor
  · rintro ⟨name, operations, mem, other, ⟨inside, writes⟩, same⟩
    obtain ⟨rfl, rfl⟩ := Prod.mk.inj same
    exact ⟨⟨operations, mem, inside⟩, writes⟩
  · rintro ⟨⟨operations, mem, inside⟩, writes⟩
    exact ⟨entity, operations, mem, operation, ⟨inside, writes⟩, rfl⟩

/-- A node of the work is a delete or an update that can be reached. -/
theorem reaches_of_reach
    (reached : Worklist.Reach (CheckedClosure.successors (writeEffects appId authority foreignKeys)) (approvedWrites authority) write) :
    Reaches appId authority foreignKeys appId write.1 write.2 ∧ (write.2 = .delete ∨ write.2 = .update) := by
  obtain ⟨root, mem, path⟩ := reached
  induction path with
  | refl =>
    obtain ⟨allowed, writes⟩ := mem_approvedWrites.mp mem
    exact ⟨.approved allowed writes, writes⟩
  | @tail parent node _ edge ih =>
    unfold CheckedClosure.successors at edge
    split at edge
    · rename_i brought passed
      obtain ⟨checked, from_keys⟩ := effects_ok passed
      obtain ⟨fk, inside, child, setsOff⟩ := from_keys node edge
      obtain ⟨⟨schema, -⟩, -⟩ := checked fk inside node.2 setsOff
      obtain ⟨key, named⟩ := mem_filter.mp inside
      obtain ⟨key, local_parent⟩ := mem_filter.mp key
      have parent_schema : fk.parentSchema = appId := of_decide_eq_true local_parent
      have parent_name : fk.parent = parent.1 := of_decide_eq_true named
      have at_parent : Reaches appId authority foreignKeys fk.parentSchema fk.parent parent.2 := by
        rw [parent_schema, parent_name]
        exact ih.1
      have next := Reaches.chain key at_parent setsOff
      rw [schema, child] at next
      exact ⟨next, (setsOff_writes setsOff).2⟩
    · cases edge

theorem reach_of_reaches
    (passes : ∀ write, Worklist.Reach (CheckedClosure.successors (writeEffects appId authority foreignKeys)) (approvedWrites authority) write →
      ∃ brought, writeEffects appId authority foreignKeys write = .ok brought)
    {schema table : Text} (reached : Reaches appId authority foreignKeys schema table operation) :
    schema = appId ∧ authority.allows table operation = true ∧
      Worklist.Reach (CheckedClosure.successors (writeEffects appId authority foreignKeys)) (approvedWrites authority) (table, operation) := by
  induction reached with
  | approved allowed writes => exact ⟨rfl, allowed, _, mem_approvedWrites.mpr ⟨allowed, writes⟩, .refl⟩
  | @chain fk operation effect mem _ setsOff ih =>
    obtain ⟨schema, -, node⟩ := ih
    obtain ⟨brought, passed⟩ := passes _ node
    have inside : fk ∈ (constraints appId foreignKeys).filter (·.parent = fk.parent) :=
      mem_filter.mpr ⟨mem_filter.mpr ⟨mem, decide_eq_true schema⟩, decide_eq_true rfl⟩
    obtain ⟨⟨child_schema, allowed⟩, edge⟩ := (effects_ok passed).1 fk inside effect setsOff
    refine ⟨child_schema, allowed, node.step ?_⟩
    rw [CheckedClosure.successors, passed]
    exact edge

theorem passes_iff :
    (∀ write, Worklist.Reach (CheckedClosure.successors (writeEffects appId authority foreignKeys)) (approvedWrites authority) write →
      ∃ brought, writeEffects appId authority foreignKeys write = .ok brought) ↔ Closed appId authority foreignKeys := by
  constructor
  · intro passes schema table operation reached
    obtain ⟨same, allowed, -⟩ := reach_of_reaches passes reached
    exact ⟨same, allowed⟩
  · intro closed write node
    obtain ⟨reached, writes⟩ := reaches_of_reach node
    refine effects_of_allowed writes fun fk inside effect setsOff => ?_
    obtain ⟨key, named⟩ := mem_filter.mp inside
    obtain ⟨key, local_parent⟩ := mem_filter.mp key
    have parent_schema : fk.parentSchema = appId := of_decide_eq_true local_parent
    have parent_name : fk.parent = write.1 := of_decide_eq_true named
    have at_parent : Reaches appId authority foreignKeys fk.parentSchema fk.parent write.2 := by
      rw [parent_schema, parent_name]
      exact reached
    exact closed _ _ _ (.chain key at_parent setsOff)

/-- The writes that the work may meet. -/
def knownWrites (authority : ActionAuthority) (foreignKeys : List ForeignKey) : Finset Write :=
  (approvedWrites authority ++ foreignKeys.flatMap fun fk : ForeignKey =>
    [(fk.child, DataOperation.delete), (fk.child, DataOperation.update)]).toFinset

theorem reach_known
    (reached : Worklist.Reach (CheckedClosure.successors (writeEffects appId authority foreignKeys)) (approvedWrites authority) write) :
    write ∈ knownWrites authority foreignKeys := by
  obtain ⟨root, mem, path⟩ := reached
  rw [knownWrites, mem_toFinset, mem_append]
  cases path with
  | refl => exact .inl mem
  | tail _ edge =>
    unfold CheckedClosure.successors at edge
    split at edge
    · rename_i brought passed
      obtain ⟨fk, inside, child, setsOff⟩ := (effects_ok passed).2 write edge
      refine .inr (mem_flatMap.mpr ⟨fk, (mem_filter.mp (mem_filter.mp inside).1).1, ?_⟩)
      obtain ⟨table, operation⟩ := write
      obtain rfl : fk.child = table := child
      obtain rfl | rfl : operation = .delete ∨ operation = .update := (setsOff_writes setsOff).2
      · exact mem_cons_self
      · exact mem_cons_of_mem _ mem_cons_self
    · cases edge

theorem check_ends : ∃ bound, ∀ rounds ≥ bound, ∃ verdict, validateFkEffects appId authority foreignKeys rounds = some verdict ∧
    (verdict = .ok () ↔ ∀ write,
      Worklist.Reach (CheckedClosure.successors (writeEffects appId authority foreignKeys)) (approvedWrites authority) write →
        ∃ brought, writeEffects appId authority foreignKeys write = .ok brought) :=
  CheckedClosure.explore_iff fun _ => reach_known

end Decides

/-- The check ends, and accepts an authority exactly where it is closed under referential
    effects. -/
theorem validateFkEffects_iff (appId : Text) (authority : ActionAuthority) (foreignKeys : List ForeignKey) :
    ∃ bound, ∀ rounds ≥ bound, ∃ verdict, validateFkEffects appId authority foreignKeys rounds = some verdict ∧
      (verdict = .ok () ↔ Closed appId authority foreignKeys) := by
  obtain ⟨bound, ends⟩ := check_ends
  refine ⟨bound, fun rounds enough => ?_⟩
  obtain ⟨verdict, explored, decides⟩ := ends rounds enough
  exact ⟨verdict, explored, decides.trans passes_iff⟩

end RootCx.ApprovedActions
