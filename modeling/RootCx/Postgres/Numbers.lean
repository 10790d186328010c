import RootCx.Lib.NumberText

/-! # Numbers of the server

`numeric` and `double precision` have infinities and NaN next to their finite
values.  Both order NaN above everything, and equal to itself.
-/

namespace RootCx.Postgres

inductive Number where
  | finite (value : ℚ)
  | infinite (negative : Bool)
  | nan
  deriving DecidableEq, Repr

namespace Number

/-- Where the values that are not finite stand. -/
def rank : Number → Nat
  | .infinite true => 0
  | .finite _ => 1
  | .infinite false => 2
  | .nan => 3

def lt : Number → Number → Bool
  | .finite x, .finite y => x < y
  | x, y => x.rank < y.rank

def isFinite : Number → Bool
  | .finite _ => true
  | _ => false

/-- Toward zero. -/
def trunc : Number → Number
  | .finite x => .finite (if 0 ≤ x then ⌊x⌋ else ⌈x⌉)
  | x => x

/-- A finite number without a fraction. -/
def isWhole : Number → Bool
  | .finite x => x.isInt
  | _ => false

/-- The cast to `double precision`. -/
def toDouble : Number → Number
  | .finite x => match binary64.nearest x with
    | .finite y => .finite y
    | .infinite negative => .infinite negative
  | x => x

theorem guard_eq_isFinite (x : Number) : (lt x (.infinite false) && lt (.infinite true) x) = x.isFinite := by
  cases x with
  | finite value => simp [lt, rank, isFinite]
  | infinite negative => cases negative <;> simp [lt, rank, isFinite]
  | nan => simp [lt, rank, isFinite]

theorem floor_eq_iff_isInt (x : ℚ) : ((⌊x⌋ : ℤ) : ℚ) = x ↔ x.isInt = true := by
  constructor
  · intro same
    rw [← same]
    simp [Rat.isInt]
  · intro whole
    obtain ⟨n, rfl⟩ : ∃ n : ℤ, x = n := ⟨x.num, (Rat.eq_num_of_isInt whole)⟩
    simp

theorem ceil_eq_iff_isInt (x : ℚ) : ((⌈x⌉ : ℤ) : ℚ) = x ↔ x.isInt = true := by
  constructor
  · intro same
    rw [← same]
    simp [Rat.isInt]
  · intro whole
    obtain ⟨n, rfl⟩ : ∃ n : ℤ, x = n := ⟨x.num, (Rat.eq_num_of_isInt whole)⟩
    simp

theorem trunc_eq_self (x : Number) : (decide (x = x.trunc) && x.isFinite) = x.isWhole := by
  cases x with
  | finite value =>
    have kept : (Number.finite value = (Number.finite value).trunc) ↔ value.isInt = true := by
      rw [trunc, Number.finite.injEq]
      split
      next => rw [eq_comm, floor_eq_iff_isInt]
      next => rw [eq_comm, ceil_eq_iff_isInt]
    simp [isFinite, isWhole, kept]
  | _ => simp [isFinite, isWhole]

theorem toDouble_of_nearest {value double : ℚ} (rounded : binary64.nearest value = .finite double) :
    (Number.finite value).toDouble = .finite double := by
  show (match binary64.nearest value with
    | .finite y => Number.finite y
    | .infinite negative => .infinite negative) = _
  rw [rounded]

end Number

end RootCx.Postgres
