import RootCx.PlatformStorage.Objects

/-! # The table of objects stays a forest

What each statement does to the parent pointers, and what of the forest it keeps: the
rows have distinct ids, every parent is a folder of the same bucket, and every object has
a path to a root.  A request that walks up from its target relies on that path between
its statements, so each statement also says whose paths it leaves alone.
-/

namespace RootCx.PlatformStorage

open RootCx.Text RootCx.Forest List Except

/-- The rows are a forest of folders, each within one bucket. -/
structure Sound (objects : List Object) : Prop where
  ids : (objects.map Object.id).Nodup
  parents : ∀ o ∈ objects, ∀ p, o.parentId = some p →
    ∃ q, find objects p = some q ∧ q.isFolder = true ∧ q.bucket = o.bucket
  rooted : ∀ x, ∃ path, Ascends (parentOf objects) x path

/-- A change of the rows leaves the path of an object alone, or the object is gone. -/
def Leaves (objects next : List Object) (x : Uuid) : Prop :=
  find next x = none ∨ (find objects x).isSome = true ∧
    ∀ path, Ascends (parentOf objects) x path → ∀ y ∈ path, parentOf next y = parentOf objects y

variable {objects next : List Object} {buckets : List Bucket} {object o : Object} {id x : Uuid}

theorem find_some (ids : (objects.map Object.id).Nodup) : find objects x = some o ↔ o ∈ objects ∧ o.id = x :=
  find?_key_eq_some ids

theorem find_none : find objects x = none ↔ ∀ o ∈ objects, o.id ≠ x := by
  simp [find]

theorem parentOf_of_none (absent : find objects x = none) : parentOf objects x = none := by
  simp [parentOf, absent]

theorem Leaves.same (found : (find objects x).isSome = true) (same : ∀ y, parentOf next y = parentOf objects y) :
    Leaves objects next x :=
  .inr ⟨found, fun _ _ y _ => same y⟩

/-! ## Inserting -/

theorem find_insert (absent : find objects object.id = none) (x : Uuid) :
    find (objects ++ [object]) x = if x = object.id then some object else find objects x := by
  by_cases same : x = object.id
  · subst same
    simp only [find] at absent ⊢
    simp [absent]
  · have other : object.id ≠ x := fun equal => same equal.symm
    simp [find, same, other]

theorem insertObject_ok (inserted : insertObject buckets objects object = .ok next) :
    next = objects ++ [object] ∧ refers objects object.parentId = true := by
  simp only [insertObject] at inserted
  split at inserted
  · exact absurd inserted (by simp)
  · split at inserted
    · rename_i refersHere
      simp only [ok.injEq] at inserted
      exact ⟨inserted.symm, (Bool.and_eq_true_iff.mp refersHere).2⟩
    · exact absurd inserted (by simp)

theorem Sound.notMem_path (sound : Sound objects) (absent : find objects id = none) {path : List Uuid}
    (ascends : Ascends (parentOf objects) x path) (other : x ≠ id) : id ∉ path := by
  induction ascends with
  | root ended => simpa using fun same : id = _ => other same.symm
  | @up x above rest stepped _ ih =>
    have present : above ≠ id := by
      intro same
      subst same
      obtain ⟨o, found, points⟩ := Option.bind_eq_some_iff.mp stepped
      obtain ⟨q, foundParent, _⟩ := sound.parents o ((find_some sound.ids).mp found).1 _ points
      simp [absent] at foundParent
    simp only [mem_cons, not_or]
    exact ⟨fun same => other same.symm, ih present⟩

theorem parentOf_insert_other (absent : find objects object.id = none) (other : x ≠ object.id) :
    parentOf (objects ++ [object]) x = parentOf objects x := by
  simp [parentOf, find_insert absent, other]

theorem Sound.insert (sound : Sound objects) (absent : find objects object.id = none)
    (inside : ∀ p q, object.parentId = some p → find objects p = some q →
      q.isFolder = true ∧ q.bucket = object.bucket)
    (refersHere : refers objects object.parentId = true) : Sound (objects ++ [object]) where
  ids := by
    rw [map_append, nodup_append]
    refine ⟨sound.ids, by simp, ?_⟩
    intro key mem last lastMember
    simp only [map_cons, map_nil, mem_singleton] at lastMember
    obtain ⟨o, present, rfl⟩ := mem_map.mp mem
    rw [lastMember]
    exact find_none.mp absent o present
  parents := by
    intro o mem p points
    have present : ∃ q, find objects p = some q ∧ q.isFolder = true ∧ q.bucket = o.bucket := by
      rcases mem_append.mp mem with mem | last
      · exact sound.parents o mem p points
      · obtain rfl := mem_singleton.mp last
        simp only [refers, points] at refersHere
        obtain ⟨q, found⟩ := Option.isSome_iff_exists.mp refersHere
        exact ⟨q, found, inside p q points found⟩
    obtain ⟨q, found, holds⟩ := present
    refine ⟨q, ?_, holds⟩
    rw [find_insert absent, if_neg, found]
    rintro rfl
    simp [absent] at found
  rooted := by
    intro x
    have old : ∀ y, y ≠ object.id → ∃ path, Ascends (parentOf (objects ++ [object])) y path := by
      intro y other
      obtain ⟨path, ascends⟩ := sound.rooted y
      refine ⟨path, ascends.congr fun z mem => parentOf_insert_other absent ?_⟩
      rintro rfl
      exact sound.notMem_path absent ascends other mem
    by_cases new : x = object.id
    · subst new
      have points : parentOf (objects ++ [object]) object.id = object.parentId := by
        simp [parentOf, find_insert absent]
      cases parent : object.parentId with
      | none => exact ⟨_, .root (points.trans parent)⟩
      | some p =>
        have other : p ≠ object.id := by
          rintro rfl
          simp [refers, parent, absent] at refersHere
        obtain ⟨path, ascends⟩ := old p other
        exact ⟨_, .up (points.trans parent) ascends⟩
    · exact old x new

theorem Sound.leaves_insert (sound : Sound objects) (absent : find objects object.id = none)
    (other : x ≠ object.id) : Leaves objects (objects ++ [object]) x := by
  cases found : find objects x with
  | none =>
    left
    rw [find_insert absent, if_neg other, found]
  | some o =>
    right
    refine ⟨by simp [found], fun path ascends y mem => parentOf_insert_other absent ?_⟩
    rintro rfl
    exact sound.notMem_path absent ascends other mem

variable (name : Text) {parent : Option Uuid} (rounds : Nat)

/-! ## Updating -/

@[simp] theorem Object.named_id (o : Object) (name : Text) : (o.named name).id = o.id := rfl

@[simp] theorem Object.under_parentId (o : Object) (parent : Option Uuid) : (o.under parent).parentId = parent := rfl

@[simp] theorem Object.under_id (o : Object) (parent : Option Uuid) : (o.under parent).id = o.id := rfl

theorem find_updateRow {change : Object → Object} (keeps : ∀ o, (change o).id = o.id) (x : Uuid) :
    find (updateRow objects id change) x = (find objects x).map fun o => if o.id = id then change o else o := by
  induction objects with
  | nil => rfl
  | cons first rest ih =>
    have sameId : (if first.id = id then change first else first).id = first.id := by
      split
      · exact keeps first
      · rfl
    simp only [find, updateRow, map_cons, find?_cons, sameId] at ih ⊢
    by_cases here : first.id = x
    · simp [here]
    · simp only [here, decide_false]
      exact ih

theorem updateRow_ids {change : Object → Object} (keeps : ∀ o, (change o).id = o.id) :
    (updateRow objects id change).map Object.id = objects.map Object.id := by
  rw [updateRow, map_map]
  apply map_congr_left
  intro o _
  simp only [Function.comp_apply]
  split
  · exact keeps o
  · rfl

theorem parentOf_rename (x : Uuid) :
    parentOf (updateRow objects id (.named name)) x = parentOf objects x := by
  simp only [parentOf]
  rw [find_updateRow (fun o => o.named_id name)]
  cases find objects x with
  | none => rfl
  | some o =>
    simp only [Option.map_some, Option.bind_some]
    split <;> rfl

theorem Sound.rename (sound : Sound objects) (name : Text) :
    Sound (updateRow objects id (.named name)) where
  ids := by
    rw [updateRow_ids fun o => o.named_id name]
    exact sound.ids
  parents := by
    intro o mem p points
    obtain ⟨old, present, rfl⟩ := mem_map.mp mem
    have pointed : old.parentId = some p := by
      split at points <;> exact points
    obtain ⟨q, found, folder, bucket⟩ := sound.parents old present p pointed
    refine ⟨if q.id = id then q.named name else q, ?_, ?_, ?_⟩
    · rw [find_updateRow (fun o => o.named_id name), found]
      rfl
    · split <;> exact folder
    · split <;> split <;> exact bucket
  rooted := by
    intro x
    obtain ⟨path, ascends⟩ := sound.rooted x
    exact ⟨path, ascends.congr fun y _ => parentOf_rename name y⟩

theorem find_updateRow_none {change : Object → Object} (keeps : ∀ o, (change o).id = o.id)
    (absent : find objects x = none) : find (updateRow objects id change) x = none := by
  rw [find_updateRow keeps, absent]
  rfl

theorem leaves_rename (x : Uuid) : Leaves objects (updateRow objects id (.named name)) x := by
  cases found : find objects x with
  | none => exact .inl (find_updateRow_none (fun o => o.named_id name) found)
  | some o => exact .same (by simp [found]) (parentOf_rename name)

theorem setName_ok {name : Text} (ran : setName objects id name = .ok next) :
    next = objects ∨ next = updateRow objects id (.named name) := by
  simp only [setName] at ran
  split at ran
  · exact .inl (ok.inj ran).symm
  · split at ran
    · exact absurd ran (by simp)
    · exact .inr (ok.inj ran).symm

theorem parentOf_move (found : find objects id = some o) (x : Uuid) :
    parentOf (updateRow objects id (.under parent)) x =
      if x = id then parent else parentOf objects x := by
  simp only [parentOf]
  rw [find_updateRow (fun o => o.under_id parent)]
  by_cases here : x = id
  · subst here
    have named : o.id = x := by simpa using find?_some found
    simp [found, named]
  · cases present : find objects x with
    | none => simp [here]
    | some other =>
      have named : other.id = x := by simpa using find?_some present
      simp [here, named]

/-- An object may be made a root, and may move to a folder of its bucket that is not
    beneath it. -/
theorem Sound.move (sound : Sound objects) (found : find objects id = some o)
    (refersHere : refers objects parent = true)
    (inside : ∀ p q, parent = some p → find objects p = some q → q.isFolder = true ∧ q.bucket = o.bucket)
    (clear : ∀ p path, parent = some p → Ascends (parentOf objects) p path → id ∉ path) :
    Sound (updateRow objects id (.under parent)) where
  ids := by
    rw [updateRow_ids fun o => o.under_id parent]
    exact sound.ids
  parents := by
    intro moved mem p points
    obtain ⟨old, present, rfl⟩ := mem_map.mp mem
    have kept : ∃ q, find objects p = some q ∧ q.isFolder = true ∧ q.bucket = old.bucket := by
      by_cases here : old.id = id
      · rw [if_pos here] at points
        have same : old = o := by
          have := (find_some sound.ids).mpr ⟨present, here⟩
          exact Option.some.inj (this.symm.trans found)
        subst same
        rw [Object.under_parentId] at points
        simp only [refers, points] at refersHere
        obtain ⟨q, foundParent⟩ := Option.isSome_iff_exists.mp refersHere
        exact ⟨q, foundParent, inside p q points foundParent⟩
      · rw [if_neg here] at points
        exact sound.parents old present p points
    obtain ⟨q, foundParent, folder, bucket⟩ := kept
    refine ⟨if q.id = id then q.under parent else q, ?_, ?_, ?_⟩
    · rw [find_updateRow (fun o => o.under_id parent), foundParent]
      rfl
    · split <;> exact folder
    · split <;> split <;> exact bucket
  rooted := by
    intro x
    obtain ⟨path, ascends⟩ := sound.rooted x
    have here : parentOf (updateRow objects id (.under parent)) id = parent := by
      rw [parentOf_move found, if_pos rfl]
    have elsewhere : ∀ y, y ≠ id →
        parentOf (updateRow objects id (.under parent)) y = parentOf objects y := by
      intro y other
      rw [parentOf_move found, if_neg other]
    cases parent with
    | none => exact uproot here elsewhere ascends
    | some target =>
      obtain ⟨above, high⟩ := sound.rooted target
      exact turn here elsewhere high (clear target above rfl high) ascends

theorem leaves_move (found : find objects id = some o)
    (clear : ∀ path, Ascends (parentOf objects) x path → id ∉ path) :
    Leaves objects (updateRow objects id (.under parent)) x := by
  cases present : find objects x with
  | none => exact .inl (find_updateRow_none (fun o => o.under_id parent) present)
  | some other =>
    refine .inr ⟨by simp [present], fun path ascends y mem => ?_⟩
    rw [parentOf_move found, if_neg]
    rintro rfl
    exact clear path ascends mem

theorem setParent_ok (ran : setParent objects id parent = .ok next) :
    next = objects ∨ ∃ o, find objects id = some o ∧ refers objects parent = true ∧
      next = updateRow objects id (.under parent) := by
  simp only [setParent] at ran
  split at ran
  · exact .inl (ok.inj ran).symm
  · rename_i o found
    split at ran
    · exact absurd ran (by simp)
    · split at ran
      · rename_i refersHere
        exact .inr ⟨o, found, refersHere, (ok.inj ran).symm⟩
      · exact absurd ran (by simp)

/-! ## Deleting -/

theorem sweep_sublist (objects : List Object) : (sweep objects).Sublist objects := filter_sublist

theorem cascade_sublist (objects : List Object) : (cascade rounds objects).Sublist objects := by
  induction rounds generalizing objects with
  | zero => exact List.Sublist.refl objects
  | succ rounds ih => exact (ih (sweep objects)).trans (sweep_sublist objects)

theorem cascade_of_swept (swept : sweep objects = objects) : cascade rounds objects = objects := by
  induction rounds with
  | zero => rfl
  | succ rounds ih => rw [cascade, swept, ih]

/-- As many rounds as there are rows are enough: a round that changes anything removes a
    row. -/
theorem cascade_swept (enough : objects.length ≤ rounds) :
    sweep (cascade rounds objects) = cascade rounds objects := by
  induction rounds generalizing objects with
  | zero =>
    obtain rfl : objects = [] := by simpa using enough
    rfl
  | succ rounds ih =>
    by_cases swept : sweep objects = objects
    · rw [cascade_of_swept _ swept, swept]
    · have shorter : (sweep objects).length < objects.length := by
        apply Nat.lt_of_le_of_ne (sweep_sublist objects).length_le
        exact fun same => swept ((sweep_sublist objects).eq_of_length same)
      exact ih (by omega)

theorem deleteRow_sublist (objects : List Object) (id : Uuid) : (deleteRow objects id).Sublist objects :=
  (cascade_sublist _ _).trans filter_sublist

theorem deleteRow_refers (objects : List Object) (id : Uuid) {o : Object} (mem : o ∈ deleteRow objects id) :
    refers (deleteRow objects id) o.parentId = true := by
  have swept : sweep (deleteRow objects id) = deleteRow objects id :=
    cascade_swept _ (length_filter_le _ _)
  rw [← swept, sweep, mem_filter] at mem
  exact mem.2

theorem find_of_deleted (sound : Sound objects) (found : find (deleteRow objects id) x = some o) :
    find objects x = some o := by
  have kept := deleteRow_sublist objects id
  have mem := (find_some (sound.ids.sublist (kept.map _))).mp found
  exact (find_some sound.ids).mpr ⟨kept.subset mem.1, mem.2⟩

/-- What is left has its whole path left. -/
theorem Sound.path_deleted (sound : Sound objects) {path : List Uuid}
    (ascends : Ascends (parentOf objects) x path) (left : (find (deleteRow objects id) x).isSome = true) :
    ∀ y ∈ path, parentOf (deleteRow objects id) y = parentOf objects y := by
  induction ascends with
  | @root x ended =>
    intro y mem
    obtain rfl := mem_singleton.mp mem
    obtain ⟨o, found⟩ := Option.isSome_iff_exists.mp left
    simp [parentOf, found, find_of_deleted sound found]
  | @up x above rest stepped rising ih =>
    obtain ⟨o, found⟩ := Option.isSome_iff_exists.mp left
    have same : parentOf (deleteRow objects id) x = parentOf objects x := by
      simp [parentOf, found, find_of_deleted sound found]
    have points : o.parentId = some above := by
      simpa [parentOf, find_of_deleted sound found] using stepped
    have mem := ((find_some (sound.ids.sublist ((deleteRow_sublist objects id).map _))).mp found).1
    have above := deleteRow_refers objects id mem
    simp only [refers, points] at above
    intro y onPath
    rcases mem_cons.mp onPath with rfl | higher
    · exact same
    · exact ih above y higher

theorem Sound.delete (sound : Sound objects) (id : Uuid) : Sound (deleteRow objects id) where
  ids := sound.ids.sublist ((deleteRow_sublist objects id).map _)
  parents := by
    intro o mem p points
    have left := deleteRow_refers objects id mem
    simp only [refers, points] at left
    obtain ⟨q, found⟩ := Option.isSome_iff_exists.mp left
    obtain ⟨other, foundBefore, holds⟩ := sound.parents o ((deleteRow_sublist objects id).subset mem) p points
    rw [find_of_deleted sound found] at foundBefore
    cases foundBefore
    exact ⟨q, found, holds⟩
  rooted := by
    intro x
    cases left : find (deleteRow objects id) x with
    | none => exact ⟨_, .root (parentOf_of_none left)⟩
    | some o =>
      obtain ⟨path, ascends⟩ := sound.rooted x
      exact ⟨path, ascends.congr (sound.path_deleted ascends (by simp [left]))⟩

theorem Sound.leaves_delete (sound : Sound objects) (id x : Uuid) : Leaves objects (deleteRow objects id) x := by
  cases left : find (deleteRow objects id) x with
  | none => exact .inl left
  | some o =>
    refine .inr ⟨by simp [find_of_deleted sound left], fun path ascends => ?_⟩
    exact sound.path_deleted ascends (by simp [left])

end RootCx.PlatformStorage
