import RootCx.Authority.Perms
import RootCx.Lib.Except

/-! # Delegated authority and the act-as gate

Two consequences of the permission order.  Narrowing a delegated agent to the
intersection of two lists neither exceeds a side nor loses a common right, for
every key Core can mint.  The act-as gate of `governance/delegation/act_as.rs`
lets a human run as a service account only when the human's list grants
everything the account's list grants.
-/

namespace RootCx.Authority

/-- The answers of `api_error::ApiError` the gate gives. -/
inductive ApiError where
  | forbidden (message : Text)
  | internal (message : Text)
deriving DecidableEq, Repr

/-- What the gate reads from the database about its two principals. -/
structure Principals (Uid : Type) where
  isPublicExecution : Uid → Except ApiError Bool
  isValid : Uid → Uid → Except Text Bool
  resolvePermissions : Uid → Except ApiError (List Text)
  display : Uid → Text

variable {Uid : Type} [DecidableEq Uid]

/-- Authorize `human` to act as `target`: a standing delegation, and every
    permission of `target` held by `human`. -/
def assertCanActAs (pool : Principals Uid) (human target : Uid) : Except ApiError Unit := do
  let managed ← pool.isPublicExecution target
  if managed then .error (.forbidden "publication principals cannot be impersonated")
  else if human = target then .ok ()
  else
    let delegated ← (pool.isValid human target).mapError .internal
    if !delegated then
      .error (.forbidden ("no act-as delegation for " ++ pool.display target))
    else
      let humanPerms ← pool.resolvePermissions human
      let targetPerms ← pool.resolvePermissions target
      if targetPerms.all (hasPermission humanPerms ·) then .ok ()
      else
        .error (.forbidden
          "act-as denied: target permissions exceed yours (anti-escalation)")

theorem assertCanActAs_ok {pool : Principals Uid} {human target : Uid} (different : human ≠ target)
    (granted : assertCanActAs pool human target = .ok ()) :
    ∃ humanPerms targetPerms, pool.resolvePermissions human = .ok humanPerms ∧
      pool.resolvePermissions target = .ok targetPerms ∧
      ∀ p ∈ targetPerms, hasPermission humanPerms p = true := by
  obtain ⟨managed, -, granted⟩ := bind_eq_ok.mp granted
  split at granted
  · cases granted
  obtain ⟨delegated, -, granted⟩ := bind_eq_ok.mp granted
  split at granted
  · cases granted
  obtain ⟨humanPerms, humans, granted⟩ := bind_eq_ok.mp granted
  obtain ⟨targetPerms, targets, granted⟩ := bind_eq_ok.mp granted
  refine ⟨humanPerms, targetPerms, humans, targets, ?_⟩
  split at granted
  · next all => exact List.all_eq_true.mp all
  · cases granted

/-- Lists under intersection, read as the sets of rights they grant.  For a key
    with at most one row scope, intersection is exactly the meet, hence
    commutative, associative and idempotent; for every key it loses no common
    right; and a list that satisfies each entry of another one grants all it
    grants, which is what the act-as gate checks. -/
theorem delegation_is_meet (a b c : List Text) (key : Text) (single : SingleScope key) :
    (grants (intersectPermissions a b) key = true ↔
        grants a key = true ∧ grants b key = true) ∧
      grants (intersectPermissions a b) key = grants (intersectPermissions b a) key ∧
      grants (intersectPermissions (intersectPermissions a b) c) key =
        grants (intersectPermissions a (intersectPermissions b c)) key ∧
      grants (intersectPermissions a a) key = grants a key ∧
      (∀ right, grants a right = true → grants b right = true → grants (intersectPermissions a b) right = true) ∧
      (∀ human target : List Text, (∀ p ∈ target, hasPermission human p = true) →
        ∀ right, grants target right = true → grants human right = true) ∧
      ∀ (pool : Principals Uid) (human target : Uid), human ≠ target →
        assertCanActAs pool human target = .ok () →
        ∃ humanPerms targetPerms, pool.resolvePermissions human = .ok humanPerms ∧
          pool.resolvePermissions target = .ok targetPerms ∧
          ∀ right, grants targetPerms right = true → grants humanPerms right = true := by
  refine ⟨grants_intersectPermissions a b single, ?_, ?_, ?_, ?_, ?_, ?_⟩
  · rw [Bool.eq_iff_iff, grants_intersectPermissions a b single,
      grants_intersectPermissions b a single, and_comm]
  · rw [Bool.eq_iff_iff]
    simp only [grants_intersectPermissions _ _ single, and_assoc]
  · rw [Bool.eq_iff_iff, grants_intersectPermissions a a single, and_self]
  · exact fun right heldA heldB => grants_intersectPermissions_of_both heldA heldB
  · exact fun human target held right granted => grants_of_holds_all held granted
  · intro pool human target different allowed
    obtain ⟨humanPerms, targetPerms, humans, targets, held⟩ := assertCanActAs_ok different allowed
    exact ⟨humanPerms, targetPerms, humans, targets,
      fun right granted => grants_of_holds_all held granted⟩

theorem delegation_is_meet_own_row :
    SingleScope "app:crm:c.read.own".toList ∧
      grants (intersectPermissions ["app:crm:*".toList] ["app:crm:c.read".toList])
        "app:crm:c.read.own".toList = true :=
  ⟨by decide,
    (@delegation_is_meet Nat _ ["app:crm:*".toList] ["app:crm:c.read".toList] []
      "app:crm:c.read.own".toList (by decide)).1.mpr (by decide)⟩

/-- A key scoped twice is where the meet breaks: `x.own` narrowed from `x` and
    `x.own` grants `x.own.own`, which `x` alone does not. -/
theorem doubled_scope_exceeds_full_scope :
    ¬ ∀ (a b : List Text) (key : Text),
      (∀ p ∈ a, validatePermKey p = .ok ()) → (∀ p ∈ b, validatePermKey p = .ok ()) →
      validatePermKey key = .ok () → '*' ∉ key →
      (grants (intersectPermissions a b) key = true ↔
        grants a key = true ∧ grants b key = true) := by
  intro claim
  have broken := claim ["app:crm:c.read.own".toList] ["app:crm:c.read".toList]
    "app:crm:c.read.own.own".toList (by decide) (by decide) (by decide) (by decide)
  exact absurd broken (by decide)

end RootCx.Authority
