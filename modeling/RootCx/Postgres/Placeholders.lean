import Mathlib
import RootCx.Postgres.Names

/-! # Placeholders in generated text

The numbers of the placeholders of a text, found without asking whether the text
is a statement.  A text numbers a list when these are its placeholders whatever
calm text stands behind it, so that the placeholders of a text put together from
others can be read off its parts.
-/

namespace RootCx.Postgres

open RootCx.Text List

/-- The placeholders outside quotes.  A dollar sign behind a character of a name
    belongs to the name. -/
def placeholdersFrom : Option Char → Bool → Text → List Nat
  | _, _, [] => []
  | some mark, _, c :: rest => placeholdersFrom (if c = mark then none else some mark) false rest
  | none, named, c :: rest =>
    let numbers := placeholdersFrom (if c = '"' ∨ c = '\'' then some c else none) (isIdentCont c) rest
    match c == '$' && !named, rest.takeWhile Char.isDigit with
    | true, digit :: digits => Nat.ofDigitChars 10 (digit :: digits) 0 :: numbers
    | _, _ => numbers

def placeholdersOf (text : Text) : List Nat := placeholdersFrom none false text

/-- Text that neither continues the number of a placeholder nor starts one. -/
def Calm (text : Text) : Prop := text.head?.all (fun c => c != '$' && !c.isDigit) = true

instance (text : Text) : Decidable (Calm text) := inferInstanceAs (Decidable (_ = _))

variable {text rest : Text} {numbers others : List Nat}

theorem calm_append (calm : Calm text) (behind : Calm rest) : Calm (text ++ rest) := by
  cases text with
  | nil => exact behind
  | cons c text => exact calm

theorem calm_front (calm : Calm text) (visible : text ≠ []) (rest : Text) : Calm (text ++ rest) := by
  cases text with
  | nil => exact absurd rfl visible
  | cons c text => exact calm

theorem placeholdersFrom_calm (calm : Calm rest) (named : Bool) :
    placeholdersFrom none named rest = placeholdersOf rest := by
  cases rest with
  | nil => rfl
  | cons c rest =>
    have other : (c == '$') = false := by
      simp only [Calm, head?_cons, Option.all_some, Bool.and_eq_true, bne_iff_ne] at calm
      exact beq_eq_false_iff_ne.mpr calm.1
    simp only [placeholdersOf, placeholdersFrom, other, Bool.false_and]

/-- The placeholders of the text are these, also before calm text. -/
structure Numbers (text : Text) (numbers : List Nat) : Prop where
  calm : Calm text
  found : ∀ (named : Bool) (rest : Text), Calm rest →
    placeholdersFrom none named (text ++ rest) = numbers ++ placeholdersOf rest

theorem Numbers.placeholdersOf_eq (counted : Numbers text numbers) : placeholdersOf text = numbers := by
  have alone := counted.found false [] rfl
  rwa [append_nil, show placeholdersOf [] = [] from rfl, append_nil] at alone

theorem Numbers.unique (counted : Numbers text numbers) (again : Numbers text others) : numbers = others :=
  counted.placeholdersOf_eq.symm.trans again.placeholdersOf_eq

theorem Numbers.append {text more : Text} {numbers others : List Nat} (counted : Numbers text numbers)
    (further : Numbers more others) : Numbers (text ++ more) (numbers ++ others) where
  calm := calm_append counted.calm further.calm
  found named rest calm := by
    rw [append_assoc, counted.found named _ (calm_append further.calm calm), placeholdersOf,
      further.found false rest calm, append_assoc]

theorem Numbers.append_both {more last : Text} (counted : Numbers text numbers)
    (further : Numbers (more ++ last) others) : Numbers (text ++ more ++ last) (numbers ++ others) := by
  rw [append_assoc]
  exact counted.append further

theorem Numbers.append_three {more middle last : Text} (counted : Numbers text numbers)
    (further : Numbers (more ++ middle ++ last) others) :
    Numbers (text ++ more ++ middle ++ last) (numbers ++ others) := by
  rw [append_assoc] at further
  rw [append_assoc, append_assoc]
  exact counted.append further

theorem numbers_nil : Numbers [] [] where
  calm := rfl
  found named _ calm := placeholdersFrom_calm calm named

/-! ## Text without quotes and dollar signs -/

def Unmarked (text : Text) : Prop := text.all (fun c => c != '"' && c != '\'' && c != '$') = true

instance (text : Text) : Decidable (Unmarked text) := inferInstanceAs (Decidable (_ = _))

/-- Whether the text leaves the look for placeholders behind a name. -/
def leavesName (named : Bool) (text : Text) : Bool := text.getLast?.elim named isIdentCont

theorem placeholdersFrom_plain (plain : Unmarked text) (named : Bool) (rest : Text) :
    placeholdersFrom none named (text ++ rest) = placeholdersFrom none (leavesName named text) rest := by
  induction text generalizing named with
  | nil => rfl
  | cons c text ih =>
    simp only [Unmarked, all_cons, Bool.and_eq_true, bne_iff_ne] at plain
    obtain ⟨⟨⟨double, single⟩, dollar⟩, others⟩ := plain
    have quote : ¬ (c = '"' ∨ c = '\'') := not_or.mpr ⟨double, single⟩
    have skipped : placeholdersFrom none named (c :: (text ++ rest)) = placeholdersFrom none (isIdentCont c) (text ++ rest) := by
      simp only [placeholdersFrom, beq_eq_false_iff_ne.mpr dollar, Bool.false_and, if_neg quote]
    rw [cons_append, skipped, ih others]
    cases text with
    | nil => rfl
    | cons d text =>
      rw [leavesName, leavesName, getLast?_cons_cons, getLast?_cons]
      rfl

theorem numbers_plain (plain : Unmarked text) (calm : Calm text) : Numbers text [] where
  calm := calm
  found named rest behind := by
    rw [placeholdersFrom_plain plain, placeholdersFrom_calm behind]
    rfl

/-! ## Placeholders -/

theorem takeWhile_digits {digits : Text} (numeric : ∀ c ∈ digits, c.isDigit = true) (calm : Calm rest) :
    (digits ++ rest).takeWhile Char.isDigit = digits := by
  apply takeWhile_append_of_stop numeric
  cases rest with
  | nil => rfl
  | cons c rest =>
    simp only [Calm, head?_cons, Option.all_some, Bool.and_eq_true, Bool.not_eq_true'] at calm
    exact calm.2

/-- A placeholder behind text that ends no name. -/
theorem numbers_placeholder {front : Text} (plain : Unmarked front) (calm : Calm front) (visible : front ≠ [])
    (apart : front.getLast?.any isIdentCont = false) (index : Nat) :
    Numbers (front ++ '$' :: Nat.toDigits 10 index) [index] where
  calm := calm_front calm visible _
  found named rest behind := by
    have numeric : ∀ c ∈ Nat.toDigits 10 index, c.isDigit = true := fun c mem =>
      Nat.isDigit_of_mem_toDigits (by decide) (by decide) mem
    have unnamed : leavesName named front = false := by
      rw [leavesName, getLast?_eq_some_getLast visible] at *
      simpa using apart
    have digits : Unmarked (Nat.toDigits 10 index) := by
      rw [Unmarked, all_eq_true]
      intro c mem
      simp only [Bool.and_eq_true, bne_iff_ne]
      exact ⟨⟨fun same => absurd (same ▸ numeric c mem) (by decide), fun same => absurd (same ▸ numeric c mem) (by decide)⟩,
        fun same => absurd (same ▸ numeric c mem) (by decide)⟩
    have dollar : ¬ ('$' = '"' ∨ '$' = '\'') := by decide
    rw [append_assoc, placeholdersFrom_plain plain, unnamed, cons_append, placeholdersFrom,
      takeWhile_digits numeric behind, if_neg dollar, placeholdersFrom_plain digits, placeholdersFrom_calm behind]
    obtain ⟨digit, others, spelled⟩ := exists_cons_of_ne_nil (Nat.toDigits_ne_nil (n := index) (b := 10))
    have value : Nat.ofDigitChars 10 (digit :: others) 0 = index := by
      rw [← spelled]
      exact Nat.ofDigitChars_toDigits (by decide) (by decide)
    rw [spelled]
    show Nat.ofDigitChars 10 (digit :: others) 0 :: placeholdersOf rest = [index] ++ placeholdersOf rest
    rw [value]
    rfl

theorem Numbers.placeholder {front : Text} (counted : Numbers text numbers) (plain : Unmarked front)
    (calm : Calm front) (visible : front ≠ []) (apart : front.getLast?.any isIdentCont = false) (index : Nat) :
    Numbers (text ++ front ++ '$' :: Nat.toDigits 10 index) (numbers ++ [index]) := by
  rw [append_assoc]
  exact counted.append (numbers_placeholder plain calm visible apart index)

/-! ## Quoted text -/

theorem placeholdersFrom_doubled {mark : Char} (quote : mark = '"' ∨ mark = '\'') (text rest : Text) (named : Bool) :
    placeholdersFrom (some mark) named (doubled mark text ++ mark :: rest) = placeholdersOf rest := by
  induction text generalizing named with
  | nil => simp [placeholdersFrom, placeholdersOf]
  | cons c text ih =>
    by_cases same : c = mark
    · subst same
      have dollar : (c == '$') = false := by obtain rfl | rfl := quote <;> decide
      -- the doubled mark ends the quoted text and starts it again
      rw [doubled_quote, cons_append, cons_append, placeholdersFrom, if_pos rfl]
      simp only [placeholdersFrom, dollar, Bool.false_and, if_pos quote]
      exact ih _
    · rw [doubled_other same, cons_append, placeholdersFrom, if_neg same]
      exact ih _

theorem numbers_quoted {mark : Char} (quote : mark = '"' ∨ mark = '\'') (text : Text) :
    Numbers (mark :: doubled mark text ++ [mark]) [] where
  calm := by
    obtain rfl | rfl := quote
    · rfl
    · rfl
  found named rest _ := by
    have dollar : (mark == '$') = false := by obtain rfl | rfl := quote <;> decide
    rw [append_assoc, cons_append, singleton_append]
    simp only [placeholdersFrom, dollar, Bool.false_and, if_pos quote]
    exact placeholdersFrom_doubled quote text rest _

theorem numbers_quoteIdent (name : Text) : Numbers (quoteIdent name) [] := numbers_quoted (.inl rfl) name

theorem numbers_quoteLiteral (value : Text) : Numbers (quoteLiteral value) [] := numbers_quoted (.inr rfl) value

/-! ## Lists -/

theorem Numbers.flatMap {α : Type*} {text : α → Text} {numbers : α → List Nat} {items : List α}
    (counted : ∀ item ∈ items, Numbers (text item) (numbers item)) :
    Numbers (items.flatMap text) (items.flatMap numbers) := by
  induction items with
  | nil => exact numbers_nil
  | cons item items ih =>
    exact (counted item (by simp)).append (ih fun other mem => counted other (by simp [mem]))

theorem Numbers.join {α : Type*} {separator : Text} (plain : Numbers separator []) {text : α → Text}
    {numbers : α → List Nat} {items : List α} (counted : ∀ item ∈ items, Numbers (text item) (numbers item)) :
    Numbers (Text.join separator (items.map text)) (items.flatMap numbers) := by
  cases items with
  | nil => exact numbers_nil
  | cons item items =>
    rw [map_cons, join_cons, flatMap_cons, flatMap_map]
    exact (counted item (by simp)).append (.flatMap fun other mem =>
      plain.append (counted other (by simp [mem])))

theorem Numbers.join_nil {α : Type*} {separator : Text} (plain : Numbers separator []) {text : α → Text} {items : List α}
    (counted : ∀ item ∈ items, Numbers (text item) []) : Numbers (Text.join separator (items.map text)) [] := by
  have whole := @Numbers.join α separator plain text (fun _ => []) items counted
  rwa [flatMap_eq_nil_iff.mpr fun _ _ => rfl] at whole

end RootCx.Postgres
