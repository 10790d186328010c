import RootCx.Lib.Delimited

/-! # The compact text determines the value

A JSON value can be read off the front of its compact text: what follows it
inside a larger text starts with a delimiter.  So different values have
different texts, as long as the numbers among them are written as numbers.
-/

namespace RootCx.Json

open RootCx.Text List

/-! ## Characters of strings -/

def hexValue (c : Char) : Nat := if c.isDigit then c.toNat - 48 else c.toNat - 87

/-- The character at the front of the escaped text of a string. -/
def unescape : Text → Option (Char × Text)
  | '\\' :: 'u' :: _ :: _ :: high :: low :: rest =>
    some (Char.ofNat (16 * hexValue high + hexValue low), rest)
  | '\\' :: 'b' :: rest => some ('\x08', rest)
  | '\\' :: 'f' :: rest => some ('\x0c', rest)
  | '\\' :: 'n' :: rest => some ('\n', rest)
  | '\\' :: 'r' :: rest => some ('\r', rest)
  | '\\' :: 't' :: rest => some ('\t', rest)
  | '\\' :: c :: rest => some (c, rest)
  | c :: rest => some (c, rest)
  | [] => none

theorem hexValue_digits : ∀ n < 32, 16 * hexValue (hexDigit (n / 16)) + hexValue (hexDigit (n % 16)) = n := by
  decide

theorem unescape_escape (c : Char) (rest : Text) : unescape (escape c ++ rest) = some (c, rest) := by
  unfold escape
  split
  case isTrue quote => subst quote; rfl
  split
  case isTrue backslash => subst backslash; rfl
  split
  case isTrue backspace => subst backspace; rfl
  split
  case isTrue feed => subst feed; rfl
  split
  case isTrue newline => subst newline; rfl
  split
  case isTrue carriage => subst carriage; rfl
  split
  case isTrue tab => subst tab; rfl
  split
  case isTrue control =>
    show some (Char.ofNat (16 * hexValue (hexDigit (c.toNat / 16)) + hexValue (hexDigit (c.toNat % 16))), rest) = _
    rw [hexValue_digits c.toNat control, Char.ofNat_toNat]
  case isFalse _ backslash _ _ _ _ _ _ =>
    rw [singleton_append]
    unfold unescape
    split <;> simp_all

theorem escape_ne_nil (c : Char) : escape c ≠ [] := by
  unfold escape
  repeat' split
  all_goals exact cons_ne_nil _ _

/-- No escaped character starts with a quote. -/
theorem escape_head (c : Char) : (escape c).head? ≠ some '"' := by
  unfold escape
  repeat' split
  all_goals simp_all

theorem string_unique {first second rest rest' : Text}
    (same : first.flatMap escape ++ '"' :: rest = second.flatMap escape ++ '"' :: rest') :
    first = second ∧ rest = rest' :=
  coded_unique unescape_escape escape_ne_nil escape_head same

theorem quoted_unique {first second rest rest' : Text} (same : quoted first ++ rest = quoted second ++ rest') :
    first = second ∧ rest = rest' := by
  simp only [quoted, cons_append, append_assoc, cons.injEq, true_and] at same
  exact string_unique same

/-! ## Values -/

/-- Induction over a value, with one hypothesis for all its members. -/
@[induction_eliminator]
theorem induction {P : Json → Prop} (null : P .null) (bool : ∀ value, P (.bool value))
    (number : ∀ text, P (.number text)) (str : ∀ value, P (.str value))
    (arr : ∀ items, (∀ item ∈ items, P item) → P (.arr items))
    (obj : ∀ entries, (∀ entry ∈ entries, P entry.2) → P (.obj entries)) (value : Json) : P value := by
  refine @Json.rec P (fun items => ∀ item ∈ items, P item) (fun entries => ∀ entry ∈ entries, P entry.2)
    (fun entry => P entry.2) null bool number str arr obj ?_ ?_ ?_ ?_ ?_ value
  · exact fun _ mem => nomatch mem
  · intro head tail first others item mem
    obtain rfl | older := mem_cons.mp mem
    · exact first
    · exact others item older
  · exact fun _ mem => nomatch mem
  · intro head tail first others entry mem
    obtain rfl | older := mem_cons.mp mem
    · exact first
    · exact others entry older
  · exact fun _ _ holds => holds

def isNumberChar (c : Char) : Bool := c.isDigit || c ∈ ['-', '+', '.', 'e', 'E']

mutual

/-- The numbers of the value are written as numbers. -/
def Numeric : Json → Prop
  | .null | .bool _ | .str _ => True
  | .number text => text.head?.any (fun c => c.isDigit || c == '-') = true ∧ text.all isNumberChar = true
  | .arr items => NumericItems items
  | .obj entries => NumericEntries entries

def NumericItems : List Json → Prop
  | [] => True
  | item :: rest => Numeric item ∧ NumericItems rest

def NumericEntries : List (Text × Json) → Prop
  | [] => True
  | (_, value) :: rest => Numeric value ∧ NumericEntries rest

end

/-- A text that may follow a value. -/
def Delimited (rest : Text) : Prop := rest.head?.all (fun c => c ∈ [',', ']', '\x7d']) = true

/-- The first character of the text of a value. -/
def lead : Json → Char
  | .null => 'n'
  | .bool true => 't'
  | .bool false => 'f'
  | .number text => text.headD '-'
  | .str _ => '"'
  | .arr _ => '['
  | .obj _ => '\x7b'

/-- The constructor of a value, and the one a first character belongs to. -/
def kind : Json → Nat
  | .null => 0
  | .bool true => 1
  | .bool false => 2
  | .str _ => 3
  | .arr _ => 4
  | .obj _ => 5
  | .number _ => 6

def kindOf (c : Char) : Nat :=
  if c = 'n' then 0
  else if c = 't' then 1
  else if c = 'f' then 2
  else if c = '"' then 3
  else if c = '[' then 4
  else if c = '\x7b' then 5
  else 6

theorem kindOf_number {c : Char} (start : (c.isDigit || c == '-') = true) : kindOf c = 6 := by
  have different (d : Char) (other : (d.isDigit || d == '-') = false) : c ≠ d := by
    intro same
    rw [same, other] at start
    cases start
  simp only [kindOf, different 'n' rfl, different 't' rfl, different 'f' rfl, different '"' rfl,
    different '[' rfl, different '\x7b' rfl, if_false]

theorem compact_lead {value : Json} (numeric : Numeric value) :
    ∃ tail, compact value = lead value :: tail ∧ kindOf (lead value) = kind value := by
  cases value with
  | null => exact ⟨_, rfl, rfl⟩
  | bool value => cases value <;> exact ⟨_, rfl, rfl⟩
  | number text =>
    cases text with
    | nil => exact nomatch numeric.1
    | cons c text => exact ⟨text, rfl, kindOf_number numeric.1⟩
  | str value => exact ⟨_, rfl, rfl⟩
  | arr items => exact ⟨_, rfl, rfl⟩
  | obj entries => exact ⟨_, rfl, rfl⟩

theorem kind_unique {first second : Json} (numeric : Numeric first) (numeric' : Numeric second)
    {rest rest' : Text} (same : compact first ++ rest = compact second ++ rest') : kind first = kind second := by
  obtain ⟨tail, text, kinded⟩ := compact_lead numeric
  obtain ⟨tail', text', kinded'⟩ := compact_lead numeric'
  rw [text, text'] at same
  rw [← kinded, ← kinded', (cons.inj same).1]

/-- No value starts with the end of a list. -/
theorem compact_ne_close {value : Json} (numeric : Numeric value) {rest tail : Text} {close : Char}
    (closing : close = ']' ∨ close = '\x7d') : compact value ++ rest ≠ close :: tail := by
  intro equal
  obtain ⟨more, text, kinded⟩ := compact_lead numeric
  rw [text, cons_append] at equal
  have first := (cons.inj equal).1
  cases value with
  | number digits =>
    cases digits with
    | nil => exact nomatch numeric.1
    | cons c digits =>
      obtain rfl : c = close := first
      obtain rfl | rfl := closing <;> exact nomatch numeric.1
  | bool value => cases value <;> obtain rfl | rfl := closing <;> cases first
  | null => obtain rfl | rfl := closing <;> cases first
  | str value => obtain rfl | rfl := closing <;> cases first
  | arr items => obtain rfl | rfl := closing <;> cases first
  | obj entries => obtain rfl | rfl := closing <;> cases first

theorem number_unique {first second rest rest' : Text} (digits : first.all isNumberChar = true)
    (digits' : second.all isNumberChar = true) (delimited : Delimited rest) (delimited' : Delimited rest')
    (same : first ++ rest = second ++ rest') : first = second ∧ rest = rest' := by
  have stops {tail : Text} (delimited : Delimited tail) : tail.head?.any isNumberChar = false := by
    cases tail with
    | nil => rfl
    | cons c tail =>
      have listed : c ∈ [',', ']', '\x7d'] := of_decide_eq_true delimited
      have others : ∀ d ∈ [',', ']', '\x7d'], isNumberChar d = false := forall_mem_of_all rfl
      exact others c listed
  have taken := congrArg (takeWhile isNumberChar) same
  have dropped := congrArg (dropWhile isNumberChar) same
  rw [takeWhile_append_of_stop (all_eq_true.mp digits) (stops delimited),
    takeWhile_append_of_stop (all_eq_true.mp digits') (stops delimited')] at taken
  rw [dropWhile_append_of_stop (all_eq_true.mp digits) (stops delimited),
    dropWhile_append_of_stop (all_eq_true.mp digits') (stops delimited')] at dropped
  exact ⟨taken, dropped⟩

/-- What is to be shown of one value. -/
def Unique (first : Json) : Prop :=
  ∀ (second : Json) (rest rest' : Text), Numeric first → Numeric second → Delimited rest → Delimited rest' →
    compact first ++ rest = compact second ++ rest' → first = second ∧ rest = rest'

theorem compactItems_cons (item : Json) (items : List Json) (close : Char) (rest : Text) :
    compactItems (item :: items) ++ close :: rest =
      compact item ++ (if items.isEmpty then close :: rest else ',' :: (compactItems items ++ close :: rest)) := by
  cases items with
  | nil => simp [compactItems]
  | cons next items => simp [compactItems]

theorem items_unique {first second : List Json} (members : ∀ item ∈ first, Unique item)
    (numeric : NumericItems first) (numeric' : NumericItems second) {rest rest' : Text}
    (same : compactItems first ++ ']' :: rest = compactItems second ++ ']' :: rest') :
    first = second ∧ rest = rest' := by
  induction first generalizing second with
  | nil =>
    cases second with
    | nil => exact ⟨rfl, (cons.inj same).2⟩
    | cons item second =>
      rw [compactItems_cons] at same
      exact absurd same.symm (compact_ne_close numeric'.1 (.inl rfl))
  | cons item first ih =>
    cases second with
    | nil =>
      rw [compactItems_cons] at same
      exact absurd same (compact_ne_close numeric.1 (.inl rfl))
    | cons item' second =>
      rw [compactItems_cons, compactItems_cons] at same
      have delimited (items : List Json) (tail : Text) : Delimited
          (if items.isEmpty then ']' :: tail else ',' :: (compactItems items ++ ']' :: tail)) := by
        cases items <;> exact rfl
      obtain ⟨rfl, tails⟩ := members item (by simp) item' _ _ numeric.1 numeric'.1 (delimited first rest)
        (delimited second rest') same
      cases first with
      | nil =>
        cases second with
        | nil => exact ⟨rfl, (cons.inj tails).2⟩
        | cons next second => exact nomatch (cons.inj tails).1
      | cons next first =>
        cases second with
        | nil => exact nomatch (cons.inj tails).1
        | cons next' second =>
          obtain ⟨equal, behind⟩ := ih (fun item mem => members item (by simp [mem]))
            numeric.2 numeric'.2 (cons.inj tails).2
          exact ⟨by rw [equal], behind⟩

theorem compactEntries_cons (key : Text) (value : Json) (entries : List (Text × Json)) (rest : Text) :
    compactEntries ((key, value) :: entries) ++ '\x7d' :: rest =
      quoted key ++ ':' :: (compact value ++
        (if entries.isEmpty then '\x7d' :: rest else ',' :: (compactEntries entries ++ '\x7d' :: rest))) := by
  cases entries with
  | nil => simp [compactEntries]
  | cons next entries => simp [compactEntries]

theorem entries_unique {first second : List (Text × Json)} (members : ∀ entry ∈ first, Unique entry.2)
    (numeric : NumericEntries first) (numeric' : NumericEntries second) {rest rest' : Text}
    (same : compactEntries first ++ '\x7d' :: rest = compactEntries second ++ '\x7d' :: rest') :
    first = second ∧ rest = rest' := by
  induction first generalizing second with
  | nil =>
    cases second with
    | nil => exact ⟨rfl, (cons.inj same).2⟩
    | cons entry second =>
      obtain ⟨key, value⟩ := entry
      rw [compactEntries_cons] at same
      exact nomatch (cons.inj same).1
  | cons entry first ih =>
    obtain ⟨key, value⟩ := entry
    cases second with
    | nil =>
      rw [compactEntries_cons] at same
      exact nomatch (cons.inj same).1
    | cons entry' second =>
      obtain ⟨key', value'⟩ := entry'
      rw [compactEntries_cons, compactEntries_cons] at same
      obtain ⟨rfl, behindKey⟩ := quoted_unique same
      have delimited (entries : List (Text × Json)) (tail : Text) : Delimited
          (if entries.isEmpty then '\x7d' :: tail else ',' :: (compactEntries entries ++ '\x7d' :: tail)) := by
        cases entries <;> exact rfl
      obtain ⟨rfl, tails⟩ := members (key, value) (by simp) value' _ _ numeric.1 numeric'.1
        (delimited first rest) (delimited second rest') (cons.inj behindKey).2
      cases first with
      | nil =>
        cases second with
        | nil => exact ⟨rfl, (cons.inj tails).2⟩
        | cons next second => exact nomatch (cons.inj tails).1
      | cons next first =>
        cases second with
        | nil => exact nomatch (cons.inj tails).1
        | cons next' second =>
          obtain ⟨equal, behind⟩ := ih (fun entry mem => members entry (by simp [mem]))
            numeric.2 numeric'.2 (cons.inj tails).2
          exact ⟨by rw [equal], behind⟩

theorem compact_unique (first : Json) : Unique first := by
  induction first with
  | null =>
    intro second rest rest' numeric numeric' _ _ same
    have kinds := kind_unique numeric numeric' same
    cases second with
    | null => exact ⟨rfl, append_cancel_left same⟩
    | bool value => cases value <;> cases kinds
    | number text | str value | arr items | obj entries => cases kinds
  | bool value =>
    intro second rest rest' numeric numeric' _ _ same
    have kinds := kind_unique numeric numeric' same
    cases second with
    | bool value' =>
      obtain rfl : value = value' := by cases value <;> cases value' <;> first | rfl | cases kinds
      exact ⟨rfl, append_cancel_left same⟩
    | null | number _ | str _ | arr _ | obj _ => cases value <;> cases kinds
  | number text =>
    intro second rest rest' numeric numeric' delimited delimited' same
    have kinds := kind_unique numeric numeric' same
    cases second with
    | number text' =>
      obtain ⟨rfl, tails⟩ := number_unique numeric.2 numeric'.2 delimited delimited' same
      exact ⟨rfl, tails⟩
    | bool value => cases value <;> cases kinds
    | null | str value | arr items | obj entries => cases kinds
  | str value =>
    intro second rest rest' numeric numeric' _ _ same
    have kinds := kind_unique numeric numeric' same
    cases second with
    | str value' =>
      obtain ⟨rfl, tails⟩ := quoted_unique same
      exact ⟨rfl, tails⟩
    | bool value => cases value <;> cases kinds
    | null | number text | arr items | obj entries => cases kinds
  | arr items ih =>
    intro second rest rest' numeric numeric' _ _ same
    have kinds := kind_unique numeric numeric' same
    cases second with
    | arr items' =>
      simp only [compact, cons_append, append_assoc, cons.injEq, true_and] at same
      obtain ⟨rfl, tails⟩ := items_unique ih numeric numeric' same
      exact ⟨rfl, tails⟩
    | bool value => cases value <;> cases kinds
    | null | number text | str value | obj entries => cases kinds
  | obj entries ih =>
    intro second rest rest' numeric numeric' _ _ same
    have kinds := kind_unique numeric numeric' same
    cases second with
    | obj entries' =>
      simp only [compact, cons_append, append_assoc, cons.injEq, true_and] at same
      obtain ⟨rfl, tails⟩ := entries_unique ih numeric numeric' same
      exact ⟨rfl, tails⟩
    | bool value => cases value <;> cases kinds
    | null | number text | str value | arr items => cases kinds

/-- Values whose numbers are written as numbers have different texts. -/
theorem compact_injective {first second : Json} (numeric : Numeric first) (numeric' : Numeric second)
    (same : compact first = compact second) : first = second := by
  refine (compact_unique first second [] [] numeric numeric' rfl rfl ?_).1
  rw [same]

end RootCx.Json
