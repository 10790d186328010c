import Mathlib

/-! # Binary floating point formats

The finite values of a format are the rationals `m * 2 ^ e` with a bounded
significand and a bounded exponent.  Rounding takes the nearest of them, at a tie
the one with the even significand; what is too large becomes infinite. -/

namespace RootCx

structure BinaryFormat where
  precision : Nat
  -- exponents of a significand that is an integer
  minExponent : Int
  maxExponent : Int
  ordered : minExponent ≤ maxExponent

def binary32 : BinaryFormat := ⟨24, -149, 104, by decide⟩

def binary64 : BinaryFormat := ⟨53, -1074, 971, by decide⟩

/-- A number that is not a NaN. -/
inductive Extended where
  | finite (value : ℚ)
  | infinite (negative : Bool)
  deriving DecidableEq, Repr

def roundHalfEven (x : ℚ) : ℤ :=
  let below := ⌊x⌋
  let rest := x - below
  if rest < 1 / 2 then below
  else if 1 / 2 < rest then below + 1
  else if below % 2 = 0 then below else below + 1

theorem roundHalfEven_intCast (n : ℤ) : roundHalfEven n = n := by
  simp [roundHalfEven]

/-- A tie goes to the even neighbour. -/
theorem roundHalfEven_add_half (n : ℤ) : roundHalfEven (n + 1 / 2) = if n % 2 = 0 then n else n + 1 := by
  have below : ⌊(n : ℚ) + 1 / 2⌋ = n := by
    rw [Int.floor_eq_iff]
    constructor <;> linarith
  simp only [roundHalfEven, below, add_sub_cancel_left, lt_irrefl, if_false]

variable {x : ℚ}

/-- Rounding does not cross an integer. -/
theorem le_roundHalfEven {n : ℤ} (below : n ≤ x) : n ≤ roundHalfEven x := by
  have floor : n ≤ ⌊x⌋ := Int.le_floor.mpr below
  simp only [roundHalfEven]
  split_ifs <;> omega

theorem roundHalfEven_le {n : ℤ} (above : x ≤ n) : roundHalfEven x ≤ n := by
  obtain same | less := eq_or_lt_of_le above
  · rw [same, roundHalfEven_intCast]
  · have floor : ⌊x⌋ < n := Int.floor_lt.mpr less
    simp only [roundHalfEven]
    split_ifs <;> omega

theorem abs_roundHalfEven_le {n : ℕ} (bounded : |x| ≤ n) : |roundHalfEven x| ≤ n := by
  obtain ⟨low, high⟩ := abs_le.mp bounded
  exact abs_le.mpr ⟨le_roundHalfEven (by push_cast; exact low), roundHalfEven_le high⟩

theorem le_abs_roundHalfEven {n : ℕ} (large : n ≤ |x|) : n ≤ |roundHalfEven x| := by
  obtain high | low := le_abs.mp large
  · exact le_abs.mpr (.inl (le_roundHalfEven high))
  · refine le_abs.mpr (.inr ?_)
    have : roundHalfEven x ≤ -(n : ℤ) := roundHalfEven_le (by push_cast; linarith)
    omega

namespace BinaryFormat

variable (format : BinaryFormat)

/-- `value` is a finite value of the format. -/
def Represents (value : ℚ) : Prop :=
  ∃ significand exponent : ℤ, |significand| < 2 ^ format.precision ∧ format.minExponent ≤ exponent ∧
    exponent ≤ format.maxExponent ∧ value = significand * 2 ^ exponent

/-- The exponent of the last place of a value. -/
def lastPlace (value : ℚ) : ℤ := max (Int.log 2 |value| + 1 - format.precision) format.minExponent

def limit : ℚ := 2 ^ (format.maxExponent + format.precision)

def nearest (value : ℚ) : Extended :=
  let place := format.lastPlace value
  let rounded : ℚ := roundHalfEven (value / 2 ^ place) * 2 ^ place
  if |rounded| < format.limit then .finite rounded else .infinite (value < 0)

variable {format} {value : ℚ}

theorem two_zpow_pos (exponent : ℤ) : (0 : ℚ) < 2 ^ exponent := zpow_pos (by norm_num) exponent

theorem represents_zero : format.Represents 0 :=
  ⟨0, format.minExponent, by simp, le_refl _, format.ordered, by simp⟩

/-- A represented value is below the limit. -/
theorem Represents.lt_limit (represented : format.Represents value) : |value| < format.limit := by
  obtain ⟨significand, exponent, small, -, bounded, rfl⟩ := represented
  have inner : (|significand| : ℚ) < 2 ^ format.precision := by exact_mod_cast small
  calc |(significand : ℚ) * 2 ^ exponent| = |(significand : ℚ)| * 2 ^ exponent := by
        rw [abs_mul, abs_of_pos (two_zpow_pos exponent)]
    _ < 2 ^ format.precision * 2 ^ exponent := by
        exact mul_lt_mul_of_pos_right inner (two_zpow_pos exponent)
    _ = 2 ^ (exponent + format.precision) := by
        rw [zpow_add₀ (by norm_num), zpow_natCast, mul_comm]
    _ ≤ format.limit := zpow_le_zpow_right₀ (by norm_num) (by omega)

/-- The last place of a represented value is not above its exponent. -/
theorem lastPlace_le {significand exponent : ℤ} (nonzero : significand ≠ 0) (small : |significand| < 2 ^ format.precision)
    (bounded : format.minExponent ≤ exponent) : format.lastPlace (significand * 2 ^ exponent) ≤ exponent := by
  have inner : (|significand| : ℚ) < 2 ^ format.precision := by exact_mod_cast small
  have positive : 0 < |(significand : ℚ) * 2 ^ exponent| :=
    abs_pos.mpr (mul_ne_zero (by exact_mod_cast nonzero) (two_zpow_pos exponent).ne')
  have below : |(significand : ℚ) * 2 ^ exponent| < (2 : ℕ) ^ (exponent + format.precision) := by
    rw [abs_mul, abs_of_pos (two_zpow_pos exponent), Nat.cast_ofNat, zpow_add₀ (by norm_num), zpow_natCast,
      mul_comm ((2 : ℚ) ^ exponent)]
    exact mul_lt_mul_of_pos_right inner (two_zpow_pos exponent)
  have magnitude : Int.log 2 |(significand : ℚ) * 2 ^ exponent| < exponent + format.precision :=
    (Int.lt_zpow_iff_log_lt (by norm_num) positive).mp below
  exact max_le (by omega) bounded

/-- Rounding keeps what the format represents. -/
theorem nearest_of_represents (represented : format.Represents value) : format.nearest value = .finite value := by
  have same : (roundHalfEven (value / 2 ^ format.lastPlace value) : ℚ) * 2 ^ format.lastPlace value = value := by
    obtain ⟨significand, exponent, small, bounded, -, rfl⟩ := represented
    obtain rfl | nonzero := eq_or_ne significand 0
    · simp [roundHalfEven]
    · generalize shape : format.lastPlace (significand * 2 ^ exponent) = place
      have above : place ≤ exponent := shape ▸ lastPlace_le nonzero small bounded
      obtain ⟨steps, rfl⟩ := Int.le.dest above
      have whole : (significand : ℚ) * 2 ^ (place + steps) / 2 ^ place = ((significand * 2 ^ steps : ℤ) : ℚ) := by
        rw [zpow_add₀ (by norm_num), zpow_natCast]
        push_cast
        field_simp
      rw [whole, roundHalfEven_intCast, ← whole, div_mul_cancel₀ _ (two_zpow_pos place).ne']
  rw [nearest]
  simp only [same, if_pos represented.lt_limit]

/-- A value over its last place has the precision of the format at most. -/
theorem abs_scaled_le : |value / 2 ^ format.lastPlace value| ≤ (2 ^ format.precision : ℕ) := by
  rw [abs_div, abs_of_pos (two_zpow_pos _), div_le_iff₀ (two_zpow_pos _)]
  refine (Int.lt_zpow_succ_log_self (by norm_num : 1 < 2) |value|).le.trans ?_
  have above : Int.log 2 |value| + 1 ≤ format.precision + format.lastPlace value := by
    have := le_max_left (Int.log 2 |value| + 1 - format.precision) format.minExponent
    rw [lastPlace]
    omega
  push_cast
  rw [← zpow_natCast, ← zpow_add₀ (by norm_num)]
  exact zpow_le_zpow_right₀ (by norm_num) above

/-- What lies well inside of the format is not rounded to infinity. -/
theorem exists_nearest (positive : 0 < format.precision) (ordered : format.minExponent < format.maxExponent)
    (small : |value| < 2 ^ format.maxExponent) : ∃ rounded, format.nearest value = .finite rounded := by
  obtain rfl | nonzero := eq_or_ne value 0
  · exact ⟨0, nearest_of_represents represents_zero⟩
  have place : format.lastPlace value < format.maxExponent := by
    have log := (Int.lt_zpow_iff_log_lt (by norm_num : 1 < 2) (abs_pos.mpr nonzero)).mp small
    refine max_lt ?_ ordered
    omega
  have scaled : |(roundHalfEven (value / 2 ^ format.lastPlace value) : ℚ)| ≤ 2 ^ format.precision := by
    exact_mod_cast abs_roundHalfEven_le abs_scaled_le
  refine ⟨_, if_pos ?_⟩
  calc |(roundHalfEven (value / 2 ^ format.lastPlace value) : ℚ) * 2 ^ format.lastPlace value|
      = |(roundHalfEven (value / 2 ^ format.lastPlace value) : ℚ)| * 2 ^ format.lastPlace value := by
        rw [abs_mul, abs_of_pos (two_zpow_pos _)]
    _ ≤ 2 ^ format.precision * 2 ^ format.lastPlace value := mul_le_mul_of_nonneg_right scaled (two_zpow_pos _).le
    _ < 2 ^ format.precision * 2 ^ format.maxExponent := by
        gcongr
        norm_num
    _ = format.limit := by rw [limit, zpow_add₀ (by norm_num), zpow_natCast, mul_comm]

/-- A value whose last place is above the least exponent has a full significand. -/
theorem le_abs_scaled (nonzero : value ≠ 0) (positive : 0 < format.precision)
    (normal : format.minExponent < format.lastPlace value) :
    (2 ^ (format.precision - 1) : ℕ) ≤ |value / 2 ^ format.lastPlace value| := by
  rw [abs_div, abs_of_pos (two_zpow_pos _), le_div_iff₀ (two_zpow_pos _)]
  have same : format.lastPlace value = Int.log 2 |value| + 1 - format.precision := by
    rw [lastPlace] at normal ⊢
    omega
  have whole : ((format.precision - 1 : ℕ) : ℤ) + format.lastPlace value = Int.log 2 |value| := by omega
  push_cast
  rw [← zpow_natCast, ← zpow_add₀ (by norm_num), whole]
  exact Int.zpow_log_le_self (by norm_num) (abs_pos.mpr nonzero)

/-- What comes out of rounding is represented: at worst the significand carries
    into the next exponent. -/
theorem represents_of_nearest {result : ℚ} (positive : 0 < format.precision)
    (ran : format.nearest value = .finite result) : format.Represents result := by
  rw [nearest] at ran
  split at ran
  next bounded =>
    obtain rfl := Extended.finite.inj ran
    obtain rfl | nonzero := eq_or_ne value 0
    · simpa [roundHalfEven] using represents_zero
    have high : |roundHalfEven (value / 2 ^ format.lastPlace value)| ≤ (2 ^ format.precision : ℕ) :=
      abs_roundHalfEven_le abs_scaled_le
    have least : format.minExponent ≤ format.lastPlace value := le_max_right _ _
    have full : format.minExponent < format.lastPlace value →
        (2 ^ (format.precision - 1) : ℕ) ≤ |value / 2 ^ format.lastPlace value| := le_abs_scaled nonzero positive
    generalize format.lastPlace value = place at bounded high least full ⊢
    generalize shape : roundHalfEven (value / 2 ^ place) = significand at bounded high ⊢
    rw [abs_mul, abs_of_pos (two_zpow_pos _), limit] at bounded
    have belowLimit {power : ℤ} (large : (2 : ℚ) ^ power ≤ |(significand : ℚ)| * 2 ^ place) :
        power < format.maxExponent + format.precision :=
      (zpow_lt_zpow_iff_right₀ (by norm_num : (1 : ℚ) < 2)).mp (lt_of_le_of_lt large bounded)
    obtain carried | short := eq_or_lt_of_le high
    · -- the carry
      have large : (2 : ℚ) ^ (place + format.precision) ≤ |(significand : ℚ)| * 2 ^ place := by
        have inner : |(significand : ℚ)| = 2 ^ format.precision := by exact_mod_cast carried
        rw [inner, zpow_add₀ (by norm_num), zpow_natCast, mul_comm]
      have room := belowLimit large
      have even : (2 : ℤ) ∣ significand := by
        rw [← dvd_abs, carried]
        exact_mod_cast dvd_pow_self 2 positive.ne'
      obtain ⟨half, rfl⟩ := even
      have doubled : 2 * |half| = 2 ^ format.precision := by
        rw [abs_mul] at carried
        exact_mod_cast carried
      have power : (0 : ℤ) < 2 ^ format.precision := by positivity
      refine ⟨half, place + 1, by omega, by omega, by omega, ?_⟩
      rw [zpow_add₀ (by norm_num), zpow_one]
      push_cast
      ring
    · refine ⟨significand, place, by exact_mod_cast short, least, ?_, rfl⟩
      obtain subnormal | normal := eq_or_lt_of_le least
      · exact subnormal ▸ format.ordered
      · have leading : ((2 ^ (format.precision - 1) : ℕ) : ℤ) ≤ |significand| := shape ▸ le_abs_roundHalfEven (full normal)
        have large : (2 : ℚ) ^ (place + (format.precision - 1 : ℕ)) ≤ |(significand : ℚ)| * 2 ^ place := by
          rw [zpow_add₀ (by norm_num), zpow_natCast, mul_comm]
          exact mul_le_mul_of_nonneg_right (by exact_mod_cast leading) (two_zpow_pos _).le
        have room := belowLimit large
        omega
  next => cases ran

end BinaryFormat

/-- Every single precision number is one of double precision. -/
theorem represents_widen {value : ℚ} (single : binary32.Represents value) : binary64.Represents value := by
  obtain ⟨significand, exponent, small, least, most, rfl⟩ := single
  refine ⟨significand, exponent, lt_trans small (by norm_num [binary32, binary64]), ?_, ?_, rfl⟩
  · simp only [binary32, binary64] at least ⊢
    omega
  · simp only [binary32, binary64] at most ⊢
    omega

end RootCx
