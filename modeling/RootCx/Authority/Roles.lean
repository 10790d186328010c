import RootCx.Lib.Text
import RootCx.Lib.Worklist
import Mathlib

/-! # Role inheritance

`expand_roles` of `governance/authority/perms.rs` and the plpgsql function of
the same name from `extensions/rbac/bootstrap.rs` walk the inheritance graph
depth first.  Both count the entries they pop in a variable called `depth` and
stop at `MAX_ROLE_DEPTH`.  They return the same roles on every graph, and all
reachable roles where no more than 64 entries can come on the stack.
-/

namespace RootCx.Authority

open RootCx.Worklist List

def MAX_ROLE_DEPTH : Nat := 64

/-- The `rbac_roles` rows: each role with the roles it inherits. -/
abbrev RoleMap := AList fun _ : Text => List Text

/-- The roles a role inherits; an undeclared role inherits none. -/
def RoleMap.parents (roleMap : RoleMap) (role : Text) : List Text :=
  (roleMap.lookup role).getD []

/-! ## The Rust function -/

/-- The `while let Some(role) = stack.pop()` loop.  `budget` is
    `MAX_ROLE_DEPTH - depth`, so a pop with none left is the `break`; the stack
    is held top first. -/
def expandLoop (roleMap : RoleMap) : Nat → List Text → List Text → List Text
  | _, [], expanded => expanded
  | 0, _ :: _, expanded => expanded
  | budget + 1, role :: stack, expanded =>
    if role ∈ expanded then expandLoop roleMap budget stack expanded
    else
      match roleMap.lookup role with
      | some parents =>
        let pushed := parents.foldl
          (fun stack parent => if parent ∈ role :: expanded then stack else parent :: stack) stack
        expandLoop roleMap budget pushed (role :: expanded)
      | none => expandLoop roleMap budget stack (role :: expanded)

def expandRoles (assigned : List Text) (roleMap : RoleMap) : List Text :=
  expandLoop roleMap MAX_ROLE_DEPTH assigned.reverse []

/-! ## The SQL function -/

/-- The `WHILE` loop of `rootcx_system.expand_roles`.  Arrays grow at their end,
    so the current role is the last element of the stack. -/
def sqlExpandLoop (roleMap : RoleMap) : Nat → List Text → List Text → List Text
  | 0, _, expanded => expanded
  | budget + 1, stack, expanded =>
    match stack.getLast? with
    | none => expanded
    | some cur =>
      let stack := stack.dropLast
      if cur ∈ expanded then sqlExpandLoop roleMap budget stack expanded
      else
        let expanded := expanded ++ [cur]
        match roleMap.lookup cur with
        | some parents =>
          let pushed := parents.foldl
            (fun stack p => if p ∈ expanded then stack else stack ++ [p]) stack
          sqlExpandLoop roleMap budget pushed expanded
        | none => sqlExpandLoop roleMap budget stack expanded

/-- `assigned` may be `NULL`. -/
def sqlExpandRoles (assigned : Option (List Text)) (roleMap : RoleMap) : List Text :=
  sqlExpandLoop roleMap 64 (assigned.getD []) []

/-! ## Both are the same traversal -/

theorem foldl_push (seen parents stack : List Text) :
    parents.foldl (fun stack parent => if parent ∈ seen then stack else parent :: stack) stack =
      (parents.filter (· ∉ seen)).reverse ++ stack := by
  induction parents generalizing stack with
  | nil => rfl
  | cons parent parents ih => by_cases known : parent ∈ seen <;> simp [known, ih]

theorem foldl_append (seen parents stack : List Text) :
    parents.foldl (fun stack p => if p ∈ seen then stack else stack ++ [p]) stack =
      stack ++ parents.filter (· ∉ seen) := by
  induction parents generalizing stack with
  | nil => simp
  | cons parent parents ih => by_cases known : parent ∈ seen <;> simp [known, ih]

variable (roleMap : RoleMap) (assigned : List Text)

/-- The Rust loop is `budget` pops of the work list. -/
theorem expandLoop_eq_pops (budget : Nat) (stack expanded : List Text) :
    expandLoop roleMap budget stack expanded =
      ((pop roleMap.parents)^[budget] ⟨stack, expanded⟩).seen := by
  induction budget generalizing stack expanded with
  | zero => cases stack <;> rfl
  | succ budget ih =>
    rw [Function.iterate_succ_apply]
    cases stack with
    | nil =>
      rw [show pop roleMap.parents ⟨[], expanded⟩ = ⟨[], expanded⟩ from rfl, ← ih]
      simp [expandLoop]
    | cons role stack =>
      by_cases old : role ∈ expanded
      · simp only [expandLoop, pop, if_pos old, ih]
      · cases inherits : roleMap.lookup role with
        | none => simp [expandLoop, pop, old, inherits, ih, RoleMap.parents]
        | some parents =>
          simp only [expandLoop, pop, if_neg old, inherits, ih, RoleMap.parents, Option.getD_some,
            foldl_push]
          congr!

/-- The SQL loop is the Rust loop on mirrored lists. -/
theorem sqlExpandLoop_eq (budget : Nat) (stack expanded : List Text) :
    sqlExpandLoop roleMap budget stack.reverse expanded.reverse =
      (expandLoop roleMap budget stack expanded).reverse := by
  induction budget generalizing stack expanded with
  | zero => cases stack <;> rfl
  | succ budget ih =>
    cases stack with
    | nil => simp [sqlExpandLoop, expandLoop]
    | cons role stack =>
      have grown : expanded.reverse ++ [role] = (role :: expanded).reverse := by simp
      by_cases old : role ∈ expanded
      · simp [sqlExpandLoop, expandLoop, old, ih]
      · cases inherits : roleMap.lookup role with
        | none => simp [sqlExpandLoop, expandLoop, old, inherits, ← ih]
        | some parents =>
          have pushed : stack.reverse ++ parents.filter (· ∉ (role :: expanded).reverse) =
              ((parents.filter (· ∉ role :: expanded)).reverse ++ stack).reverse := by
            simp [and_comm]
          simp only [sqlExpandLoop, expandLoop, inherits, old, mem_reverse, if_false,
            reverse_cons, getLast?_concat, dropLast_concat, foldl_push,
            foldl_append]
          rw [grown, pushed, ih]

/-! ## What they return -/

/-- The roles reachable through inheritance from the assigned ones. -/
abbrev Inherited (assigned : List Text) (roleMap : RoleMap) (role : Text) : Prop :=
  Reach roleMap.parents assigned role

/-- The work list of a run after a number of pops, without any bound on them. -/
def worklistAfter (assigned : List Text) (roleMap : RoleMap) (pops : Nat) : State Text :=
  (pop roleMap.parents)^[pops] ⟨assigned.reverse, []⟩

theorem expandRoles_eq (roleMap : RoleMap) :
    expandRoles assigned roleMap = (worklistAfter assigned roleMap 64).seen :=
  expandLoop_eq_pops roleMap MAX_ROLE_DEPTH assigned.reverse []

theorem worklistAfter_invariant (roleMap : RoleMap) (pops : Nat) :
    Invariant roleMap.parents assigned (worklistAfter assigned roleMap pops) :=
  (invariant_start _ _ _ (by simp)).iterate pops

theorem sqlExpandRoles_eq (roleMap : RoleMap) :
    sqlExpandRoles (some assigned) roleMap = (expandRoles assigned roleMap).reverse := by
  have mirrored := sqlExpandLoop_eq roleMap 64 assigned.reverse []
  rwa [reverse_reverse] at mirrored

theorem inherited_of_mem_expandRoles {assigned : List Text} {roleMap : RoleMap} {role : Text}
    (mem : role ∈ expandRoles assigned roleMap) : Inherited assigned roleMap role := by
  rw [expandRoles_eq] at mem
  exact (worklistAfter_invariant assigned roleMap 64).sound role (.inl mem)

open Classical in
/-- What a traversal can put on its stack: the assigned roles, and what each
    inherited role inherits. -/
noncomputable def entries (assigned : List Text) (roleMap : RoleMap) : List Text :=
  assigned ++ (roleMap.keys.filter (Inherited assigned roleMap ·)).flatMap roleMap.parents

theorem mem_keys_of_parent {role parent : Text} (edge : parent ∈ roleMap.parents role) : role ∈ roleMap.keys := by
  rw [← AList.mem_keys, ← AList.lookup_isSome]
  cases found : roleMap.lookup role with
  | none =>
    rw [RoleMap.parents, found] at edge
    cases edge
  | some parents => rfl

variable {assigned roleMap} {role : Text}

theorem mem_entries : role ∈ entries assigned roleMap ↔ Inherited assigned roleMap role := by
  simp only [entries, mem_append, mem_flatMap, mem_filter, decide_eq_true_eq]
  constructor
  · rintro (mem | ⟨child, ⟨-, reached⟩, edge⟩)
    · exact ⟨role, mem, .refl⟩
    · exact reached.step edge
  · rintro ⟨root, mem, path⟩
    cases path with
    | refl => exact .inl mem
    | tail path edge => exact .inr ⟨_, ⟨mem_keys_of_parent roleMap edge, root, mem, path⟩, edge⟩

theorem pending_entries :
    pending roleMap.parents (entries assigned roleMap).toFinset ⟨assigned.reverse, []⟩ =
      (entries assigned roleMap).length := by
  classical
  have childless : ∀ role ∈ (entries assigned roleMap).toFinset,
      role ∉ (roleMap.keys.filter (Inherited assigned roleMap ·)).toFinset → (roleMap.parents role).length = 0 := by
    intro role mem undeclared
    rw [mem_toFinset, mem_entries] at mem
    rw [length_eq_zero_iff, eq_nil_iff_forall_not_mem]
    intro parent edge
    refine undeclared (mem_toFinset.mpr (mem_filter.mpr ⟨mem_keys_of_parent roleMap edge, ?_⟩))
    exact decide_eq_true mem
  have declared : (roleMap.keys.filter (Inherited assigned roleMap ·)).toFinset ⊆ (entries assigned roleMap).toFinset := by
    intro role mem
    rw [mem_toFinset, mem_filter, decide_eq_true_eq] at mem
    exact mem_toFinset.mpr (mem_entries.mpr mem.2)
  have total := Finset.sum_subset declared childless
  rw [sum_toFinset _ (roleMap.keys_nodup.filter _)] at total
  have count : (entries assigned roleMap).length =
      assigned.length + ∑ role ∈ (entries assigned roleMap).toFinset, (roleMap.parents role).length := by
    rw [← total, entries, length_append, length_flatMap]
  rw [count]
  simp [pending]

/-- Sixty-four pops empty the stack when there are no more entries than that. -/
theorem expandRoles_complete (few : (entries assigned roleMap).length ≤ 64) (role : Text) :
    role ∈ expandRoles assigned roleMap ↔ Inherited assigned roleMap role := by
  have start : Invariant roleMap.parents assigned ⟨assigned.reverse, []⟩ := invariant_start _ _ _ (by simp)
  have known (role : Text) (inherited : Inherited assigned roleMap role) : role ∈ (entries assigned roleMap).toFinset :=
    mem_toFinset.mpr (mem_entries.mpr inherited)
  rw [expandRoles_eq]
  exact (worklistAfter_invariant assigned roleMap 64).complete
    (stack_empty_of_pending known 64 start (pending_entries.le.trans few)) role

/-- One pop finds one role at most. -/
theorem dedup_entries_le (complete : ∀ role, Inherited assigned roleMap role → role ∈ expandRoles assigned roleMap) :
    (entries assigned roleMap).dedup.length ≤ 64 := by
  have found : (entries assigned roleMap).dedup ⊆ expandRoles assigned roleMap := fun role mem =>
    complete role (mem_entries.mp (mem_dedup.mp mem))
  have bound := length_seen_iterate roleMap.parents ⟨assigned.reverse, []⟩ 64
  rw [length_nil, Nat.zero_add, ← worklistAfter, ← expandRoles_eq] at bound
  exact ((nodup_dedup _).subperm found).length_le.trans bound

/-- Both functions return the roles reachable through inheritance, and no others. -/
def ExpandsExactly (assigned : List Text) (roleMap : RoleMap) : Prop :=
  (∀ role, role ∈ expandRoles assigned roleMap ↔ Inherited assigned roleMap role) ∧
    ∀ role, role ∈ sqlExpandRoles (some assigned) roleMap ↔ Inherited assigned roleMap role

end RootCx.Authority
