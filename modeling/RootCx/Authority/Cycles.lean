import RootCx.Authority.Roles
import RootCx.Lib.CycleSearch

/-! # Cycles of the inheritance graph

`detect_cycle` of `governance/authority/perms.rs` searches the graph depth first
from every declared role, in the order in which the map yields its keys.  It finds
a role exactly when some role inherits itself, and the role is one of these; which
one it is depends on the order.
-/

namespace RootCx.Authority

open RootCx.CycleSearch

/-! ## The function -/

/-- The roles that a search can meet: the declared ones and what they inherit. -/
def RoleMap.mentioned (roleMap : RoleMap) : List Text :=
  roleMap.keys ++ roleMap.entries.flatMap (·.2)

/-- `dfs_cycle` from each role in turn; no path is longer than the list of roles. -/
def searchRoles (roleMap : RoleMap) : Outcome Text :=
  search roleMap.parents roleMap.mentioned.length roleMap.keys ⟨[], []⟩

def detectCycle (roleMap : RoleMap) : Option Text :=
  match searchRoles roleMap with
  | .cycle role => some role
  | .done _ | .exhausted => none

/-! ## The graph -/

/-- A declared role inherits another declared role. -/
def Inherits (roleMap : RoleMap) (role parent : Text) : Prop :=
  parent ∈ roleMap.parents role ∧ parent ∈ roleMap

variable {roleMap : RoleMap} {role : Text}

theorem declared_of_parent {parent : Text} (edge : parent ∈ roleMap.parents role) : role ∈ roleMap := by
  rw [RoleMap.parents] at edge
  cases inherits : roleMap.lookup role with
  | none =>
    rw [inherits] at edge
    exact absurd edge List.not_mem_nil
  | some parents => exact AList.lookup_isSome.mp (by rw [inherits]; rfl)

theorem onCycle_iff : OnCycle roleMap.parents role ↔ Relation.TransGen (Inherits roleMap) role role := by
  constructor
  · intro cycle
    -- a role that is reached and goes on is declared; the last one is the first
    have declared : role ∈ roleMap := by
      obtain ⟨_, edge, -⟩ := Relation.TransGen.head'_iff.mp cycle
      exact declared_of_parent edge
    have lift : ∀ target, Relation.TransGen (Edge roleMap.parents) role target → target ∈ roleMap →
        Relation.TransGen (Inherits roleMap) role target := by
      intro target path
      induction path with
      | single edge => exact fun known => .single ⟨edge, known⟩
      | tail _ edge ih =>
        exact fun known => .tail (ih (declared_of_parent edge)) ⟨edge, known⟩
    exact lift role cycle declared
  · intro cycle
    exact Relation.TransGen.mono (fun _ _ (edge : Inherits roleMap _ _) => edge.1) role role cycle

theorem mentioned_closed (roleMap : RoleMap) :
    ∀ role ∈ roleMap.mentioned.toFinset, ∀ parent ∈ roleMap.parents role, parent ∈ roleMap.mentioned.toFinset := by
  intro role _ parent edge
  rw [RoleMap.parents] at edge
  cases inherits : roleMap.lookup role with
  | none =>
    rw [inherits] at edge
    exact absurd edge List.not_mem_nil
  | some parents =>
    rw [inherits, Option.getD_some] at edge
    have entry : ⟨role, parents⟩ ∈ roleMap.entries := AList.mem_lookup_iff.mp inherits
    exact List.mem_toFinset.mpr (List.mem_append_right _ (List.mem_flatMap.mpr ⟨_, entry, edge⟩))

theorem searchRoles_iff (roleMap : RoleMap) :
    searchRoles roleMap ≠ .exhausted ∧
      (∀ role, searchRoles roleMap = .cycle role → Relation.TransGen (Inherits roleMap) role role) ∧
      ((∃ role, searchRoles roleMap = .cycle role) ↔ ∃ role, Relation.TransGen (Inherits roleMap) role role) := by
  have roots : ∀ role ∈ roleMap.keys, role ∈ roleMap.mentioned.toFinset :=
    fun role mem => List.mem_toFinset.mpr (List.mem_append_left _ mem)
  obtain ⟨ends, found, exact_⟩ := search_iff (mentioned_closed roleMap) (List.toFinset_card_le _) roots
  refine ⟨ends, fun role cycle => onCycle_iff.mp (found role cycle), exact_.trans ?_⟩
  constructor
  · intro ⟨_, _, role, _, cycle⟩
    exact ⟨role, onCycle_iff.mp cycle⟩
  · intro ⟨role, cycle⟩
    obtain ⟨_, edge, -⟩ := Relation.TransGen.head'_iff.mp cycle
    exact ⟨role, AList.mem_keys.mpr (declared_of_parent edge.1), role, .refl, onCycle_iff.mpr cycle⟩

theorem detectCycle_eq_some : detectCycle roleMap = some role ↔ searchRoles roleMap = .cycle role := by
  unfold detectCycle
  cases searchRoles roleMap <;> simp

theorem inherits_perm {relisted : RoleMap} (same : roleMap.entries.Perm relisted.entries) :
    Inherits roleMap = Inherits relisted := by
  funext role parent
  have parents : roleMap.parents role = relisted.parents role := by
    rw [RoleMap.parents, RoleMap.parents, AList.perm_lookup same]
  have declared : parent ∈ roleMap ↔ parent ∈ relisted := AList.mem_of_perm same
  rw [Inherits, Inherits, parents, declared]

/-! ## The result -/

/-- The search ends; it finds a role if and only if some role inherits itself over
    declared roles, and the role does so; whether it finds one does not depend on
    the order of the roles. -/
theorem detectCycle_iff (roleMap : RoleMap) :
    searchRoles roleMap ≠ .exhausted ∧
      ((detectCycle roleMap).isSome = true ↔ ∃ role, Relation.TransGen (Inherits roleMap) role role) ∧
      (∀ role, detectCycle roleMap = some role → Relation.TransGen (Inherits roleMap) role role) ∧
      ∀ relisted : RoleMap, roleMap.entries.Perm relisted.entries →
        (detectCycle relisted).isSome = (detectCycle roleMap).isSome := by
  have found (map : RoleMap) : (detectCycle map).isSome = true ↔ ∃ role, Relation.TransGen (Inherits map) role role := by
    simp only [Option.isSome_iff_exists, detectCycle_eq_some]
    exact (searchRoles_iff map).2.2
  refine ⟨(searchRoles_iff roleMap).1, found roleMap, ?_, ?_⟩
  · exact fun role some => (searchRoles_iff roleMap).2.1 role (detectCycle_eq_some.mp some)
  · intro relisted same
    rw [Bool.eq_iff_iff, found, found, inherits_perm same]

/-- Two roles that inherit each other, in either order. -/
def mutualRoles : RoleMap :=
  ⟨[⟨"a", ["b"]⟩, ⟨"b", ["a"]⟩], by unfold List.NodupKeys; decide⟩

def mutualRolesRelisted : RoleMap :=
  ⟨[⟨"b", ["a"]⟩, ⟨"a", ["b"]⟩], by unfold List.NodupKeys; decide⟩

/-- Of two roles that inherit each other the one that is listed first is reported. -/
theorem detectCycle_reports_first :
    mutualRoles.entries.Perm mutualRolesRelisted.entries ∧
      detectCycle mutualRoles = some "a".toList ∧ detectCycle mutualRolesRelisted = some "b".toList :=
  ⟨.swap _ _ _, by decide, by decide⟩

end RootCx.Authority
