import Mathlib

/-! # Text as lists of characters

Strings are lists of Unicode scalar values.  A string literal `"ab"` stands for
`"ab".toList`, which reduces to `['a', 'b']`.  The lemmas here are about
prefixes, separators and adjacent duplicates; nothing in this module knows what
the text is used for.
-/

namespace RootCx

open List

/-- A string, as the list of its characters. -/
abbrev Text := List Char

instance : Coe String Text := ⟨String.toList⟩

instance : LawfulBEq Text := inferInstance

variable {c : Char}

namespace Text

variable {α : Type*}

/-! ## Prefixes -/

/-- A prefix that ends in a character the tail does not have lies inside the
    front part: the tail cannot contribute to it. -/
theorem snoc_prefix_of_append {stem front tail : List α} {c : α}
    (absent : c ∉ tail) (h : stem ++ [c] <+: front ++ tail) : stem ++ [c] <+: front := by
  rcases prefix_or_prefix_of_prefix h (prefix_append front tail) with inside | covers
  · exact inside
  · rcases prefix_concat_iff.mp covers with equal | ⟨more, rfl⟩
    · rw [equal]
    · rw [append_assoc, prefix_append_right_inj] at h
      exact absurd (h.subset (by simp)) absent

/-- A prefix of `front` that does not end in the last character is a prefix of
    what precedes it. -/
theorem snoc_prefix_of_snoc {stem front : List α} {c d : α} (different : c ≠ d)
    (h : stem ++ [c] <+: front ++ [d]) : stem ++ [c] <+: front :=
  snoc_prefix_of_append (by simpa using different) h

/-- `starts_with` followed by a look at the next character is one prefix test. -/
theorem isPrefixOf_and_next [DecidableEq α] (stem text : List α) (c : α) :
    (stem.isPrefixOf text && text[stem.length]? == some c) = true ↔ stem ++ [c] <+: text := by
  simp only [Bool.and_eq_true, isPrefixOf_iff_prefix, beq_iff_eq]
  constructor
  · rintro ⟨⟨rest, rfl⟩, next⟩
    simp only [getElem?_append_right (Nat.le_refl _), Nat.sub_self] at next
    cases rest with
    | nil => simp at next
    | cons head rest =>
      simp only [getElem?_cons_zero, Option.some.injEq] at next
      exact ⟨rest, by simp [next]⟩
  · rintro ⟨rest, rfl⟩
    exact ⟨⟨c :: rest, by simp⟩, by simp⟩

@[simp] theorem dropSuffix?_eq_some [DecidableEq α] {text stem suffix : List α} :
    text.dropSuffix? suffix = some stem ↔ text = stem ++ suffix := by
  simp [dropSuffix?_eq_some_iff]

theorem dropSuffix?_eq_none [DecidableEq α] {text suffix : List α} :
    text.dropSuffix? suffix = none ↔ ∀ stem, text ≠ stem ++ suffix := by
  simp only [Option.eq_none_iff_forall_ne_some, ne_eq, dropSuffix?_eq_some]

/-! ## Runs of characters -/

/-- A property checked on every character of a text. -/
theorem forall_mem_of_all {chars : Text} {P : Char → Prop} [DecidablePred P]
    (checked : chars.all (fun c => decide (P c)) = true) : ∀ c ∈ chars, P c := by
  intro c mem
  exact of_decide_eq_true (all_eq_true.mp checked c mem)

theorem takeWhile_append_of_stop {p : α → Bool} {front tail : List α} (run : ∀ a ∈ front, p a = true)
    (stop : tail.head?.any p = false) : (front ++ tail).takeWhile p = front := by
  rw [takeWhile_append_of_pos run]
  cases tail with
  | nil => simp
  | cons a rest => simp_all

theorem dropWhile_append_of_stop {p : α → Bool} {front tail : List α} (run : ∀ a ∈ front, p a = true)
    (stop : tail.head?.any p = false) : (front ++ tail).dropWhile p = tail := by
  rw [dropWhile_append_of_pos run]
  cases tail with
  | nil => rfl
  | cons a rest => simp_all

/-! ## Sizes in bytes

`String::len` counts the bytes of the UTF-8 encoding. -/

def byteLength (text : Text) : Nat := (text.map Char.utf8Size).sum

@[simp] theorem byteLength_nil : byteLength [] = 0 := rfl

@[simp] theorem byteLength_cons (c : Char) (text : Text) :
    byteLength (c :: text) = c.utf8Size + byteLength text := by
  simp [byteLength]

theorem byteLength_append (front rest : Text) : byteLength (front ++ rest) = byteLength front + byteLength rest := by
  simp [byteLength]

/-- The longest front of `text` that fits into `limit` bytes. -/
def clip : Nat → Text → Text
  | _, [] => []
  | limit, c :: rest => if c.utf8Size ≤ limit then c :: clip (limit - c.utf8Size) rest else []

theorem clip_eq_self {limit : Nat} {text : Text} (fits : byteLength text ≤ limit) :
    clip limit text = text := by
  induction text generalizing limit with
  | nil => rfl
  | cons c rest ih =>
    rw [byteLength_cons] at fits
    rw [clip, if_pos (by omega), ih (by omega)]

/-- A character that ends within the limit is kept. -/
theorem mem_clip {limit : Nat} {front rest : Text} (fits : byteLength front + c.utf8Size ≤ limit) :
    c ∈ clip limit (front ++ c :: rest) := by
  induction front generalizing limit with
  | nil =>
    rw [byteLength_nil, Nat.zero_add] at fits
    simp [clip, fits]
  | cons d front ih =>
    rw [byteLength_cons] at fits
    rw [cons_append, clip, if_pos (by omega)]
    exact mem_cons_of_mem _ (ih (by omega))

/-! ## ASCII -/

def isAscii (c : Char) : Bool := c.toNat < 128

/-- A decidable property of ASCII characters is checked on all of them. -/
theorem ascii_cases {P : Char → Prop} (all : ∀ n < 128, P (Char.ofNat n)) (ascii : isAscii c = true) :
    P c := by
  have code := all c.toNat (by simpa [isAscii] using ascii)
  rwa [Char.ofNat_toNat] at code

theorem byteLength_of_isAscii {text : Text} (ascii : ∀ c ∈ text, isAscii c = true) : byteLength text = text.length := by
  induction text with
  | nil => rfl
  | cons c text ih =>
    have small : c.val.toNat < 128 := by simpa [isAscii] using ascii c (by simp)
    have one : c.utf8Size = 1 := by
      rw [Char.utf8Size, if_pos]
      exact UInt32.le_iff_toNat_le.mpr (Nat.le_of_lt_succ small)
    rw [byteLength_cons, ih fun d mem => ascii d (by simp [mem]), one, length_cons, Nat.add_comm]

theorem toUpper_of_not_ascii (foreign : isAscii c = false) : c.toUpper = c := by
  simp only [isAscii, decide_eq_false_iff_not] at foreign
  simp only [Char.toUpper, UInt32.le_iff_toNat_le, Char.toNat_val, UInt32.reduceToNat,
    Char.reduceVal]
  split
  · omega
  · rfl

theorem toLower_of_not_ascii (foreign : isAscii c = false) : c.toLower = c := by
  simp only [isAscii, decide_eq_false_iff_not] at foreign
  simp only [Char.toLower, UInt32.le_iff_toNat_le, Char.toNat_val, UInt32.reduceToNat,
    Char.reduceVal]
  split
  · omega
  · rfl

theorem toLower_toUpper (c : Char) : c.toUpper.toLower = c.toLower := by
  cases ascii : isAscii c with
  | true => exact ascii_cases (P := fun c => c.toUpper.toLower = c.toLower) (by decide) ascii
  | false => rw [toUpper_of_not_ascii ascii]

theorem isAlpha_of_toUpper (alpha : c.toUpper.isAlpha = true) : c.isAlpha = true := by
  cases ascii : isAscii c with
  | true =>
    exact ascii_cases (P := fun c => c.toUpper.isAlpha = true → c.isAlpha = true) (by decide) ascii
      alpha
  | false => rwa [toUpper_of_not_ascii ascii] at alpha

theorem isAscii_of_isAlpha (alpha : c.isAlpha = true) : isAscii c = true := by
  simp only [Char.isAlpha, Char.isUpper, Char.isLower, UInt32.le_iff_toNat_le, Char.toNat_val,
    UInt32.reduceToNat, Char.reduceVal, Bool.or_eq_true, Bool.and_eq_true, decide_eq_true_eq] at alpha
  simp only [isAscii, decide_eq_true_eq]
  omega

theorem isDigit_of_not_ascii (foreign : isAscii c = false) : c.isDigit = false := by
  simp only [isAscii, decide_eq_false_iff_not] at foreign
  rw [Bool.eq_false_iff]
  intro digit
  have range : 48 ≤ c.toNat ∧ c.toNat ≤ 57 := by simpa using Char.isDigit_iff_toNat.mp digit
  omega

/-! ## White space -/

/-- `char::is_whitespace`, the Unicode property `White_Space`. -/
def isWhitespace (c : Char) : Bool :=
  let n := c.toNat
  (9 ≤ n && n ≤ 13) || n == 0x20 || n == 0x85 || n == 0xA0 || n == 0x1680 ||
    (0x2000 ≤ n && n ≤ 0x200A) || n == 0x2028 || n == 0x2029 || n == 0x202F || n == 0x205F ||
    n == 0x3000

/-- `str::split_whitespace`: the longest runs without white space. -/
def splitWhitespace (text : Text) : List Text :=
  (text.splitOnP isWhitespace).filter (!·.isEmpty)

/-- `str::trim`. -/
def trim (text : Text) : Text := ((text.dropWhile isWhitespace).reverse.dropWhile isWhitespace).reverse

/-! ## Adjacent duplicates -/

/-- `Vec::dedup`: drop every element equal to the one before it. -/
def dedup [DecidableEq α] : List α → List α
  | x :: y :: rest => if x = y then dedup (y :: rest) else x :: dedup (y :: rest)
  | short => short

@[simp] theorem mem_dedup [DecidableEq α] (a : α) (list : List α) : a ∈ dedup list ↔ a ∈ list := by
  fun_induction dedup list with
  | case1 x rest ih => simp [ih]
  | case2 x y rest different ih => simp [ih]
  | case3 short => rfl

/-! ## Joining and splitting on one separator -/

/-- `slice::join`. -/
def join (separator : Text) (parts : List Text) : Text := separator.intercalate parts

theorem join_cons (separator first : Text) (rest : List Text) :
    join separator (first :: rest) = first ++ rest.flatMap (separator ++ ·) := by
  induction rest generalizing first with
  | nil => simp [join, intercalate]
  | cons second rest ih =>
    have step : join separator (first :: second :: rest) =
        first ++ (separator ++ join separator (second :: rest)) := by
      simp [join, intercalate]
    rw [step, ih, flatMap_cons, append_assoc]

theorem mem_join {separator : Text} {parts : List Text} (mem : c ∈ join separator parts) :
    c ∈ separator ∨ ∃ part ∈ parts, c ∈ part := by
  cases parts with
  | nil => exact absurd mem not_mem_nil
  | cons first rest =>
    rw [join_cons, mem_append, mem_flatMap] at mem
    rcases mem with inside | ⟨part, listed, inside⟩
    · exact .inr ⟨first, mem_cons_self, inside⟩
    · rcases mem_append.mp inside with between | inside
      · exact .inl between
      · exact .inr ⟨part, mem_cons_of_mem _ listed, inside⟩

/-- Split at every occurrence of `separator`; the empty text has no pieces. -/
def split (separator : Char) : Text → List Text
  | [] => []
  | text@(_ :: _) => text.splitOn separator

/-- Joining pieces that hold no separator and splitting again gives the pieces
    back, unless the only piece is the empty text, which joins to nothing. -/
theorem split_intercalate (separator : Char) (pieces : List Text)
    (free : ∀ piece ∈ pieces, separator ∉ piece) (visible : pieces ≠ [[]]) :
    split separator ([separator].intercalate pieces) = pieces := by
  cases pieces with
  | nil => rfl
  | cons piece rest =>
    have joined : ([separator].intercalate (piece :: rest)).splitOn separator = piece :: rest :=
      splitOn_intercalate separator free (by simp)
    cases text : [separator].intercalate (piece :: rest) with
    | nil =>
      rw [text] at joined
      simp only [splitOn_nil, cons.injEq] at joined
      exact absurd (by rw [← joined.1, ← joined.2]) visible
    | cons head tail => rw [split, ← text, joined]

/-! ## Numbers -/

/-- The number that a text of digits spells. -/
def digitsValue (digits : Text) : Nat := digits.foldl (fun value c => value * 10 + (c.toNat - '0'.toNat)) 0

/-- `str::parse::<i64>`: an optional sign, digits, and a value that fits. -/
def parseI64 (text : Text) : Option Int :=
  let (negative, digits) := match text with
    | '-' :: digits => (true, digits)
    | '+' :: digits => (false, digits)
    | digits => (false, digits)
  if digits = [] ∨ !digits.all Char.isDigit then none
  else
    let value : Int := if negative then -(digitsValue digits : Int) else digitsValue digits
    if -2 ^ 63 ≤ value ∧ value < 2 ^ 63 then some value else none

end Text

end RootCx
