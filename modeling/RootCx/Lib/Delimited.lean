import Mathlib
import RootCx.Lib.Json

/-! # Reading texts that are put together from parts

A part can be read off the front of a text when it holds no separator, when its length is
fixed, or when its characters are coded so that no code starts with the terminator.
-/

namespace RootCx.Text

open List

variable {first second rest rest' : Text} (n : Nat)

theorem upTo_unique {stop : Char} (free : stop ∉ first) (free' : stop ∉ second)
    (same : first ++ stop :: rest = second ++ stop :: rest') : first = second ∧ rest = rest' := by
  induction first generalizing second with
  | nil =>
    cases second with
    | nil => exact ⟨rfl, (cons.inj same).2⟩
    | cons c second =>
      obtain ⟨rfl, -⟩ := cons.inj same
      exact absurd mem_cons_self free'
  | cons c first ih =>
    cases second with
    | nil =>
      obtain ⟨rfl, -⟩ := cons.inj same
      exact absurd mem_cons_self free
    | cons d second =>
      obtain ⟨rfl, tails⟩ := cons.inj same
      obtain ⟨rfl, others⟩ := ih (fun mem => free (mem_cons_of_mem _ mem))
        (fun mem => free' (mem_cons_of_mem _ mem)) tails
      exact ⟨rfl, others⟩

/-! ## Coded characters -/

section Coded

variable {code : Char → Text} {decode : Text → Option (Char × Text)} {stop : Char}

/-- A text whose characters are coded one by one ends at the terminator. -/
theorem coded_unique (reads : ∀ c rest, decode (code c ++ rest) = some (c, rest)) (visible : ∀ c, code c ≠ [])
    (starts : ∀ c, (code c).head? ≠ some stop)
    (same : first.flatMap code ++ stop :: rest = second.flatMap code ++ stop :: rest') :
    first = second ∧ rest = rest' := by
  -- the terminator ends both texts or neither
  have ends (c : Char) (more tail : Text) : code c ++ more ≠ stop :: tail := by
    intro equal
    obtain ⟨head, others, shape⟩ := exists_cons_of_ne_nil (visible c)
    have different := starts c
    rw [shape] at equal different
    exact different (congrArg some (cons.inj equal).1)
  induction first generalizing second with
  | nil =>
    cases second with
    | nil => exact ⟨rfl, (cons.inj same).2⟩
    | cons d second =>
      rw [flatMap_cons, append_assoc] at same
      exact absurd same.symm (ends d _ _)
  | cons c first ih =>
    cases second with
    | nil =>
      rw [flatMap_cons, append_assoc] at same
      exact absurd same (ends c _ _)
    | cons d second =>
      rw [flatMap_cons, flatMap_cons, append_assoc, append_assoc] at same
      have read := congrArg decode same
      rw [reads, reads, Option.some.injEq, Prod.mk.injEq] at read
      obtain ⟨rfl, tails⟩ := read
      obtain ⟨rfl, others⟩ := ih tails
      exact ⟨rfl, others⟩

end Coded

/-! ## The `Debug` text of a string

`printable` says which characters the formatter prints as they are. -/

def hexCharValue (c : Char) : Nat := if c.isDigit then c.toNat - 48 else c.toNat - 87

/-- A positive number in hexadecimal. -/
def hexText (n : Nat) : Text := ((Nat.digits 16 n).map Json.hexDigit).reverse

def escapeDebug (printable : Char → Bool) (c : Char) : Text :=
  if c = '\x00' then ['\\', '0']
  else if c = '\t' then ['\\', 't']
  else if c = '\r' then ['\\', 'r']
  else if c = '\n' then ['\\', 'n']
  else if c = '\\' then ['\\', '\\']
  else if c = '"' then ['\\', '"']
  else if printable c then [c]
  else '\\' :: 'u' :: '\x7b' :: (hexText c.toNat ++ ['\x7d'])

def debugStr (printable : Char → Bool) (text : Text) : Text := '"' :: text.flatMap (escapeDebug printable) ++ ['"']

/-- The character at the front of an escaped text. -/
def unescapeDebug : Text → Option (Char × Text)
  | '\\' :: '0' :: rest => some ('\x00', rest)
  | '\\' :: 't' :: rest => some ('\t', rest)
  | '\\' :: 'r' :: rest => some ('\r', rest)
  | '\\' :: 'n' :: rest => some ('\n', rest)
  | '\\' :: 'u' :: '\x7b' :: rest =>
    let digits := rest.takeWhile fun c => c != '\x7d'
    some (Char.ofNat (Nat.ofDigits 16 (digits.reverse.map hexCharValue)),
      (rest.dropWhile fun c => c != '\x7d').tail)
  | '\\' :: c :: rest => some (c, rest)
  | c :: rest => some (c, rest)
  | [] => none

theorem hexCharValue_hexDigit : ∀ n < 16, hexCharValue (Json.hexDigit n) = n ∧ Json.hexDigit n ≠ '\x7d' := by
  decide

theorem hexText_value : Nat.ofDigits 16 ((hexText n).reverse.map hexCharValue) = n := by
  have digits : (Nat.digits 16 n).map (hexCharValue ∘ Json.hexDigit) = (Nat.digits 16 n).map id := by
    apply map_congr_left
    intro d mem
    exact (hexCharValue_hexDigit d (Nat.digits_lt_base (by decide) mem)).1
  rw [hexText, reverse_reverse, map_map, digits, map_id, Nat.ofDigits_digits]

theorem hexText_free : ∀ c ∈ hexText n, (c != '\x7d') = true := by
  intro c mem
  rw [hexText, mem_reverse, mem_map] at mem
  obtain ⟨d, inside, rfl⟩ := mem
  simpa using (hexCharValue_hexDigit d (Nat.digits_lt_base (by decide) inside)).2

variable (printable : Char → Bool)

theorem unescapeDebug_escapeDebug (c : Char) (rest : Text) :
    unescapeDebug (escapeDebug printable c ++ rest) = some (c, rest) := by
  unfold escapeDebug
  split
  case isTrue zero => subst zero; rfl
  split
  case isTrue tab => subst tab; rfl
  split
  case isTrue carriage => subst carriage; rfl
  split
  case isTrue newline => subst newline; rfl
  split
  case isTrue backslash => subst backslash; rfl
  split
  case isTrue quote => subst quote; rfl
  split
  case isTrue backslash _ _ =>
    rw [singleton_append]
    unfold unescapeDebug
    split <;> simp_all
  case isFalse =>
    simp only [cons_append, append_assoc, nil_append, unescapeDebug]
    rw [takeWhile_append_of_stop (hexText_free c.toNat) (by rfl), dropWhile_append_of_stop (hexText_free c.toNat) (by rfl),
      hexText_value, Char.ofNat_toNat, tail_cons]

theorem escapeDebug_ne_nil (c : Char) : escapeDebug printable c ≠ [] := by
  unfold escapeDebug
  repeat' split
  all_goals exact cons_ne_nil _ _

theorem escapeDebug_head (c : Char) : (escapeDebug printable c).head? ≠ some '"' := by
  unfold escapeDebug
  repeat' split
  all_goals simp_all

theorem debugStr_unique (same : debugStr printable first ++ rest = debugStr printable second ++ rest') :
    first = second ∧ rest = rest' := by
  simp only [debugStr, cons_append, append_assoc, cons.injEq, true_and] at same
  exact coded_unique (unescapeDebug_escapeDebug printable) (escapeDebug_ne_nil printable) (escapeDebug_head printable) same

/-! ## Hexadecimal numbers -/

/-- The number that digits spell in base 16. -/
def hexOf (digits : Text) : Nat := digits.foldl (fun value c => 16 * value + hexCharValue c) 0

theorem hexCharValue_digitChar : ∀ n < 16, hexCharValue n.digitChar = n := by
  decide

theorem hexOf_toDigits : hexOf (Nat.toDigits 16 n) = n := by
  induction n using Nat.strongRecOn with
  | _ n ih =>
    rw [Nat.toDigits_eq_if (by decide)]
    split
    case isTrue small =>
      show 16 * 0 + hexCharValue n.digitChar = n
      rw [hexCharValue_digitChar n small, Nat.mul_zero, Nat.zero_add]
    case isFalse large =>
      have higher : hexOf (Nat.toDigits 16 (n / 16)) = n / 16 := ih (n / 16) (by omega)
      have last := hexCharValue_digitChar (n % 16) (by omega)
      have spelled : hexOf (Nat.toDigits 16 (n / 16) ++ [(n % 16).digitChar]) =
          16 * hexOf (Nat.toDigits 16 (n / 16)) + hexCharValue (n % 16).digitChar := by
        rw [hexOf, foldl_append]
        rfl
      rw [spelled, higher, last]
      omega

/-- A class of characters that all hexadecimal digits are in. -/
theorem forall_mem_toDigits_hex {P : Char → Prop} (digits : ∀ d < 16, P d.digitChar) (n : Nat) :
    ∀ c ∈ Nat.toDigits 16 n, P c := by
  induction n using Nat.strongRecOn with
  | _ n ih =>
    intro c mem
    rw [Nat.toDigits_eq_if (by decide)] at mem
    split at mem
    case isTrue small =>
      obtain rfl := mem_singleton.mp mem
      exact digits n small
    case isFalse large =>
      obtain higher | last := mem_append.mp mem
      · exact ih (n / 16) (by omega) c higher
      · obtain rfl := mem_singleton.mp last
        exact digits (n % 16) (by omega)

/-! ## Integers -/

def showInt : Int → Text
  | .ofNat n => Nat.toDigits 10 n
  | .negSucc n => '-' :: Nat.toDigits 10 (n + 1)

theorem isDigit_of_mem_showInt {n : Int} {c : Char} (mem : c ∈ showInt n) : c.isDigit = true ∨ c = '-' := by
  cases n with
  | ofNat n => exact .inl (Nat.isDigit_of_mem_toDigits (by decide) (by decide) mem)
  | negSucc n =>
    rcases mem_cons.mp mem with rfl | digit
    · exact .inr rfl
    · exact .inl (Nat.isDigit_of_mem_toDigits (by decide) (by decide) digit)

theorem toDigits_inj {first second : Nat} (same : Nat.toDigits 10 first = Nat.toDigits 10 second) : first = second := by
  have values := congrArg (Nat.ofDigitChars 10 · 0) same
  simpa [Nat.ofDigitChars_ten_toDigits] using values

theorem showInt_inj {first second : Int} (same : showInt first = showInt second) : first = second := by
  -- no digit is a sign
  have signed {n m : Nat} (equal : Nat.toDigits 10 n = '-' :: Nat.toDigits 10 m) : False := by
    have digit : '-'.isDigit = true := Nat.isDigit_of_mem_toDigits (by decide) (by decide)
      (show '-' ∈ Nat.toDigits 10 n from equal ▸ mem_cons_self)
    exact absurd digit (by decide)
  cases first with
  | ofNat n =>
    cases second with
    | ofNat m => exact congrArg Int.ofNat (toDigits_inj same)
    | negSucc m => exact (signed same).elim
  | negSucc n =>
    cases second with
    | ofNat m => exact (signed same.symm).elim
    | negSucc m =>
      have equal := toDigits_inj (cons.inj same).2
      rw [Nat.add_right_cancel equal]

end RootCx.Text
