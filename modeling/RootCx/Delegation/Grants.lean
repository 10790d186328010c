import RootCx.Lib.Except
import RootCx.Lib.Text

/-! # Delegations

`governance/delegation/grants.rs`: a delegation lets a principal that is not a human run
under the authority of another one.  Each comes from a trigger or from a standing grant,
and each is looked up by its two principals alone.
-/

namespace RootCx.Delegation

open List

abbrev Uuid := Nat

abbrev Time := Nat

/-- `TRIGGER_TYPES` -/
inductive TriggerType where
  | cron
  | hook
  | webhook
  | manual
  | channel
  | actAs
  deriving DecidableEq, Repr

/-- A row of `rootcx_system.delegations`. -/
structure Delegation where
  id : Uuid
  delegator : Uuid
  delegatee : Uuid
  triggerType : TriggerType
  triggerRef : Option Uuid
  expiresAt : Option Time
  revoked : Bool
  deriving DecidableEq, Repr

inductive RuntimeError where
  | delegation (message : Text)
  deriving DecidableEq, Repr

/-- The `kind` of each row of `rootcx_system.users`. -/
abbrev Users := List (Uuid × Text)

def kindOf (users : Users) (id : Uuid) : Option Text :=
  (users.find? fun user => decide (user.1 = id)).map Prod.snd

def validateDelegationKinds (users : Users) (delegator delegatee : Uuid) (triggerType : TriggerType) :
    Except RuntimeError Unit :=
  if kindOf users delegatee = some "human".toList then
    .error (.delegation "delegatee must not be a human principal")
  else if kindOf users delegator = some "agent".toList ∧ triggerType = .actAs then
    .error (.delegation "agent principals cannot initiate act_as delegations")
  else .ok ()

def Delegation.current (now : Time) (row : Delegation) : Bool :=
  !row.revoked && (match row.expiresAt with
    | none => true
    | some expiry => decide (now < expiry))

def isValid (now : Time) (rows : List Delegation) (delegator delegatee : Uuid) : Bool :=
  rows.any fun row => row.delegator == delegator && row.delegatee == delegatee && row.current now

/-- An unrevoked row of that trigger: there is at most one, by `idx_delegations_trigger`. -/
def Delegation.standsFor (triggerType : TriggerType) (ref : Uuid) (row : Delegation) : Bool :=
  !row.revoked && row.triggerType == triggerType && row.triggerRef == some ref

/-- `INSERT … ON CONFLICT DO UPDATE`, where the database answers: the row of the trigger
    takes the delegator, and keeps the rest. -/
def upsert (rows : List Delegation) (delegator delegatee : Uuid) (triggerType : TriggerType)
    (triggerRef : Option Uuid) (id : Uuid) : List Delegation × Uuid :=
  match triggerRef.bind fun ref => rows.find? (Delegation.standsFor triggerType ref) with
  | some held =>
    (rows.map fun row => if row.standsFor triggerType (triggerRef.getD 0) then { row with delegator } else row, held.id)
  | none => (rows ++ [⟨id, delegator, delegatee, triggerType, triggerRef, none, false⟩], id)

/-- `delegation::create` -/
def create (users : Users) (rows : List Delegation) (delegator delegatee : Uuid) (triggerType : TriggerType)
    (triggerRef : Option Uuid) (id : Uuid) : Except RuntimeError (List Delegation × Uuid) := do
  validateDelegationKinds users delegator delegatee triggerType
  pure (upsert rows delegator delegatee triggerType triggerRef id)

def revokeByTrigger (rows : List Delegation) (triggerType : TriggerType) (ref : Uuid) : List Delegation :=
  rows.map fun row => if row.standsFor triggerType ref then { row with revoked := true } else row

/-! ## Standing grants -/

/-- `act_as::grant` -/
def grantActAs (users : Users) (now : Time) (rows : List Delegation) (human account : Uuid) (id : Uuid) :
    Except RuntimeError (List Delegation) :=
  if isValid now rows human account then .ok rows
  else (create users rows human account .actAs none id).map Prod.fst

/-- `act_as::revoke` -/
def revokeActAs (rows : List Delegation) (human account : Uuid) : List Delegation :=
  rows.map fun row =>
    if row.delegator = human ∧ row.delegatee = account ∧ row.triggerType = .actAs ∧ row.revoked = false then
      { row with revoked := true }
    else row

/-! ## What a creation gives -/

section Created

variable {users : Users} {now : Time} {rows next : List Delegation} {delegator delegatee id kept : Uuid}
  {triggerType : TriggerType} {triggerRef : Option Uuid}

theorem isValid_iff : isValid now rows delegator delegatee = true ↔
    ∃ row ∈ rows, row.delegator = delegator ∧ row.delegatee = delegatee ∧ row.current now = true := by
  simp [isValid, and_assoc]

theorem create_ok (created : create users rows delegator delegatee triggerType triggerRef id = .ok (next, kept)) :
    (next, kept) = upsert rows delegator delegatee triggerType triggerRef id := by
  simp only [create, bind_eq_ok, pure_eq_ok] at created
  obtain ⟨_, _, made⟩ := created
  exact made.symm

/-- An upsert adds a row, or turns the rows of the trigger over to the delegator. -/
theorem upsert_cases (made : (next, kept) = upsert rows delegator delegatee triggerType triggerRef id) :
    ((∀ ref, triggerRef = some ref → ∀ row ∈ rows, row.standsFor triggerType ref = false) ∧
        next = rows ++ [⟨id, delegator, delegatee, triggerType, triggerRef, none, false⟩]) ∨
      ∃ ref, triggerRef = some ref ∧ (∃ row ∈ rows, row.standsFor triggerType ref = true) ∧
        next = rows.map fun row => if row.standsFor triggerType ref then { row with delegator } else row := by
  simp only [upsert] at made
  cases triggerRef with
  | none =>
    simp only [Option.bind_none, Prod.mk.injEq] at made
    exact .inl ⟨by simp, made.1⟩
  | some ref =>
    simp only [Option.bind_some, Option.getD_some] at made
    cases found : rows.find? (Delegation.standsFor triggerType ref) with
    | none =>
      simp only [found, Prod.mk.injEq] at made
      refine .inl ⟨fun other same row mem => ?_, made.1⟩
      cases same
      simpa using find?_eq_none.mp found row mem
    | some held =>
      simp only [found, Prod.mk.injEq] at made
      exact .inr ⟨ref, rfl, ⟨held, mem_of_find?_eq_some found, find?_some found⟩, made.1⟩

/-- A creation is valid for its two principals exactly when its trigger had no row yet, or
    one for the same delegatee, or when the two had a delegation already. -/
theorem create_valid_iff (lasting : ∀ row ∈ rows, row.expiresAt = none)
    (created : create users rows delegator delegatee triggerType triggerRef id = .ok (next, kept)) :
    isValid now next delegator delegatee = true ↔
      (∀ ref, triggerRef = some ref → (∃ row ∈ rows, row.standsFor triggerType ref = true) →
        ∃ row ∈ rows, row.standsFor triggerType ref = true ∧ row.delegatee = delegatee) ∨
      isValid now rows delegator delegatee = true := by
  rcases upsert_cases (create_ok created) with ⟨alone, rfl⟩ | ⟨ref, rfl, held, rfl⟩
  · apply iff_of_true
    · rw [isValid_iff]
      exact ⟨_, mem_append_right _ (mem_singleton_self _), rfl, rfl, rfl⟩
    · left
      intro ref same ⟨row, mem, stands⟩
      rw [alone ref same row mem] at stands
      simp at stands
  · rw [isValid_iff]
    constructor
    · rintro ⟨changed, mem, owned, aimed, current⟩
      obtain ⟨row, present, rfl⟩ := mem_map.mp mem
      by_cases stands : row.standsFor triggerType ref = true
      · left
        intro other same _
        cases same
        rw [if_pos stands] at aimed
        exact ⟨row, present, stands, aimed⟩
      · rw [if_neg stands] at owned aimed current
        exact .inr (isValid_iff.mpr ⟨row, present, owned, aimed, current⟩)
    · rintro (aimed | before)
      · obtain ⟨row, present, stands, same⟩ := aimed ref rfl held
        have unrevoked : row.revoked = false := by
          simp only [Delegation.standsFor, Bool.and_eq_true, Bool.not_eq_true'] at stands
          exact stands.1.1
        refine ⟨{ row with delegator }, mem_map.mpr ⟨row, present, if_pos stands⟩, rfl, same, ?_⟩
        simp [Delegation.current, unrevoked, lasting row present]
      · obtain ⟨row, present, owned, same, current⟩ := isValid_iff.mp before
        refine ⟨_, mem_map_of_mem present, ?_, ?_, ?_⟩
        · split
          · rfl
          · exact owned
        · split <;> exact same
        · split <;> exact current

end Created

end RootCx.Delegation
