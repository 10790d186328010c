import Mathlib
import RootCx.Lib.Binary
import RootCx.Lib.JsonValue

/-! # Numbers as they are written

An integer literal stands for itself; a literal with a fraction or an exponent
stands for the number of double precision nearest to it. -/

namespace RootCx

open List

variable {text : Text} {value : ℚ}

namespace Text

/-- An optional sign and what follows it. -/
def splitSign : Text → Bool × Text
  | '-' :: rest => (true, rest)
  | '+' :: rest => (false, rest)
  | rest => (false, rest)

def withSign {α : Type} [Neg α] (negative : Bool) (value : α) : α := if negative then -value else value

/-- An optional sign and digits. -/
def signedValue (text : Text) : Option Int :=
  let (negative, digits) := splitSign text
  if digits = [] ∨ !digits.all Char.isDigit then none else some (withSign negative (digitsValue digits : Int))

def isPoint (c : Char) : Bool := c == '.'

def isExponentMark (c : Char) : Bool := c == 'e' || c == 'E'

/-- Digits with a point in, before or behind them. -/
def mantissaValue (text : Text) : Option ℚ :=
  let whole := text.takeWhile (!isPoint ·)
  let fraction := (text.drop whole.length).drop 1
  if whole ++ fraction = [] ∨ !(whole ++ fraction).all Char.isDigit then none
  else some (digitsValue (whole ++ fraction) / 10 ^ fraction.length)

/-- The number that `str::parse::<f64>` rounds, if it is not written as infinity. -/
def decimalValue (text : Text) : Option ℚ := do
  let (negative, body) := splitSign text
  let mantissa := body.takeWhile (!isExponentMark ·)
  let value ← mantissaValue mantissa
  let exponent ← match body.drop mantissa.length with
    | [] => some 0
    | _ :: exponent => signedValue exponent
  some (withSign negative (value * 10 ^ exponent))

theorem parseI64_eq_some {value : Int} :
    parseI64 text = some value ↔ signedValue text = some value ∧ -2 ^ 63 ≤ value ∧ value < 2 ^ 63 := by
  have signs : parseI64 text = if (splitSign text).2 = [] ∨ !(splitSign text).2.all Char.isDigit then none
      else if -2 ^ 63 ≤ withSign (splitSign text).1 (digitsValue (splitSign text).2 : Int) ∧
        withSign (splitSign text).1 (digitsValue (splitSign text).2 : Int) < 2 ^ 63
      then some (withSign (splitSign text).1 (digitsValue (splitSign text).2 : Int)) else none := rfl
  have shape : signedValue text = if (splitSign text).2 = [] ∨ !(splitSign text).2.all Char.isDigit then none
      else some (withSign (splitSign text).1 (digitsValue (splitSign text).2 : Int)) := rfl
  rw [signs, shape]
  generalize withSign (splitSign text).1 (digitsValue (splitSign text).2 : Int) = written
  by_cases odd : (splitSign text).2 = [] ∨ !(splitSign text).2.all Char.isDigit
  · rw [if_pos odd, if_pos odd]
    constructor
    · intro none_some
      cases none_some
    · rintro ⟨none_some, -⟩
      cases none_some
  · rw [if_neg odd, if_neg odd, Option.ite_none_right_eq_some, Option.some.injEq]
    constructor
    · rintro ⟨bounds, rfl⟩
      exact ⟨rfl, bounds⟩
    · rintro ⟨rfl, bounds⟩
      exact ⟨bounds, rfl⟩

/-- Nothing in a list of digits ends it early. -/
theorem takeWhile_digits {p : Char → Bool} (keeps : ∀ c, c.isDigit = true → p c = true) {digits : Text}
    (all : digits.all Char.isDigit = true) : digits.takeWhile p = digits := by
  rw [takeWhile_eq_self_iff]
  intro c mem
  exact keeps c (all_eq_true.mp all c mem)

theorem mantissaValue_digits {digits : Text} (visible : digits ≠ []) (all : digits.all Char.isDigit = true) :
    mantissaValue digits = some (digitsValue digits : ℚ) := by
  have whole : digits.takeWhile (!isPoint ·) = digits := by
    refine takeWhile_digits (fun c digit => ?_) all
    rw [Bool.not_eq_true', isPoint, beq_eq_false_iff_ne]
    rintro rfl
    exact absurd digit (by decide)
  have plain : ¬ (digits = [] ∨ !digits.all Char.isDigit) := by simp [visible, all]
  unfold mantissaValue
  simp only [whole, drop_length, drop_nil, append_nil, if_neg plain]
  simp

/-- An integer literal is read as the integer it stands for. -/
theorem decimalValue_of_signed {value : Int} (whole : signedValue text = some value) :
    decimalValue text = some (value : ℚ) := by
  unfold signedValue at whole
  unfold decimalValue
  generalize splitSign text = parts at whole ⊢
  obtain ⟨negative, digits⟩ := parts
  simp only at whole ⊢
  split at whole
  next => cases whole
  next plain =>
    rw [not_or, Bool.not_eq_true, Bool.not_eq_false'] at plain
    cases whole
    have mantissa : digits.takeWhile (!isExponentMark ·) = digits := by
      refine takeWhile_digits (fun c digit => ?_) plain.2
      rw [Bool.not_eq_true', isExponentMark, Bool.or_eq_false_iff, beq_eq_false_iff_ne, beq_eq_false_iff_ne]
      constructor <;> rintro rfl <;> exact absurd digit (by decide)
    rw [mantissa, mantissaValue_digits plain.1 plain.2, drop_length]
    cases negative <;> simp [withSign]

theorem digitsValue_eq (digits : Text) : digitsValue digits = Nat.ofDigitChars 10 digits 0 := by
  rw [Nat.ofDigitChars_eq_foldl]
  simp only [digitsValue, Nat.mul_comm]

theorem digitsValue_toDigits (n : Nat) : digitsValue (Nat.toDigits 10 n) = n := by
  rw [digitsValue_eq, Nat.ofDigitChars_ten_toDigits]

theorem isDigit_of_mem_toDigits {n : Nat} {c : Char} (mem : c ∈ Nat.toDigits 10 n) : c.isDigit = true :=
  Nat.isDigit_of_mem_toDigits (by decide) (by decide) mem

/-- An integer as it is printed. -/
def ofInt : Int → Text
  | .ofNat n => Nat.toDigits 10 n
  | .negSucc n => '-' :: Nat.toDigits 10 (n + 1)

theorem splitSign_toDigits (n : Nat) : splitSign (Nat.toDigits 10 n) = (false, Nat.toDigits 10 n) := by
  unfold splitSign
  split
  next rest same => exact absurd (isDigit_of_mem_toDigits (same ▸ mem_cons_self)) (by decide)
  next rest same => exact absurd (isDigit_of_mem_toDigits (same ▸ mem_cons_self)) (by decide)
  next => rfl

theorem splitSign_ofInt (int : Int) : splitSign (ofInt int) = (decide (int < 0), Nat.toDigits 10 int.natAbs) := by
  cases int with
  | ofNat n => exact splitSign_toDigits n
  | negSucc n =>
    rw [decide_eq_true (Int.negSucc_lt_zero n)]
    rfl

theorem signedValue_ofInt (int : Int) : signedValue (ofInt int) = some int := by
  have plain : ¬(Nat.toDigits 10 int.natAbs = [] ∨ !(Nat.toDigits 10 int.natAbs).all Char.isDigit) := by
    have digits := all_eq_true.mpr fun c mem => @isDigit_of_mem_toDigits int.natAbs c mem
    simp [digits, Nat.toDigits_ne_nil]
  unfold signedValue
  rw [splitSign_ofInt]
  dsimp only
  rw [if_neg plain, digitsValue_toDigits]
  by_cases negative : int < 0
  · simp only [withSign, negative, decide_true, if_true, Option.some.injEq]
    omega
  · simp only [withSign, negative, decide_false, Bool.false_eq_true, if_false, Option.some.injEq]
    omega

end Text

namespace Json

/-- `Value::as_f64` of a number that is printed so; it is always finite. -/
def finiteF64 (text : Text) : Option ℚ :=
  match (Text.decimalValue text).map binary64.nearest with
  | some (.finite value) => some value
  | _ => none

/-- What a literal stands for. -/
def literalValue (text : Text) : Option ℚ :=
  match Text.signedValue text with
  | some value => some value
  | none => finiteF64 text

theorem finiteF64_eq_some :
    finiteF64 text = some value ↔ ∃ written, Text.decimalValue text = some written ∧ binary64.nearest written = .finite value := by
  unfold finiteF64
  cases Text.decimalValue text with
  | none => simp
  | some written => cases rounded : binary64.nearest written <;> simp [rounded]

theorem represents_of_finiteF64 (read : finiteF64 text = some value) : binary64.Represents value := by
  obtain ⟨written, -, rounded⟩ := finiteF64_eq_some.mp read
  exact BinaryFormat.represents_of_nearest (by decide) rounded

/-- A literal is read as what it stands for, when double precision represents it. -/
theorem finiteF64_eq_literalValue (stands : literalValue text = some value)
    (represented : binary64.Represents value) : finiteF64 text = some value := by
  unfold literalValue at stands
  split at stands
  next whole =>
    cases stands
    exact finiteF64_eq_some.mpr ⟨_, Text.decimalValue_of_signed whole, BinaryFormat.nearest_of_represents represented⟩
  next => exact stands

/-- A literal that is read has a value. -/
theorem exists_literalValue {read : ℚ} (readable : finiteF64 text = some read) :
    ∃ value, literalValue text = some value := by
  unfold literalValue
  split
  next value whole => exact ⟨value, rfl⟩
  next => exact ⟨read, readable⟩

end Json

end RootCx
