import RootCx.Postgres.Pieces

/-! # Names in generated text

The quoted names of a text, found without asking whether the text is a statement.
A text spells a list of names when these are its quoted names whatever stands
behind it, so that what a text put together from others spells can be read off
its parts.
-/

namespace RootCx.Postgres

open RootCx.Text List

/-- Where a look for names stands. -/
inductive Inside where
  | nothing
  | name (sofar : Text)
  | literal

/-- The quoted names of a text, as they are written. -/
def quotedNames : Inside → Text → List Text
  | .nothing, '"' :: rest => quotedNames (.name []) rest
  | .nothing, '\'' :: rest => quotedNames .literal rest
  | .nothing, _ :: rest => quotedNames .nothing rest
  | .name sofar, '"' :: '"' :: rest => quotedNames (.name (sofar ++ ['"'])) rest
  | .name sofar, '"' :: rest => sofar :: quotedNames .nothing rest
  | .name sofar, c :: rest => quotedNames (.name (sofar ++ [c])) rest
  -- a doubled quote leaves the literal and enters it again
  | .literal, '\'' :: rest => quotedNames .nothing rest
  | .literal, _ :: rest => quotedNames .literal rest
  | _, [] => []

def namesOf (text : Text) : List Text := quotedNames .nothing text

/-- The names of the text, also before text that does not start with a quote. -/
def Spells (text : Text) (names : List Text) : Prop :=
  ∀ rest : Text, rest.head? ≠ some '"' → namesOf (text ++ rest) = names ++ namesOf rest

variable {text : Text} {names : List Text}

theorem Spells.namesOf_eq (spells : Spells text names) : namesOf text = names := by
  have alone := spells [] (by simp)
  rwa [append_nil, show namesOf [] = [] from rfl, append_nil] at alone

/-! ## Text without quotes -/

def Quiet (text : Text) : Prop := '"' ∉ text ∧ '\'' ∉ text

instance (text : Text) : Decidable (Quiet text) := inferInstanceAs (Decidable (_ ∧ _))

theorem Quiet.append {front rest : Text} (left : Quiet front) (right : Quiet rest) : Quiet (front ++ rest) := by
  simp only [Quiet, mem_append, not_or]
  exact ⟨⟨left.1, right.1⟩, left.2, right.2⟩

theorem namesOf_quiet {front : Text} (quiet : Quiet front) (rest : Text) : namesOf (front ++ rest) = namesOf rest := by
  induction front with
  | nil => rfl
  | cons c front ih =>
    obtain ⟨double, single⟩ := quiet
    rw [mem_cons, not_or] at double single
    have behind := ih ⟨double.2, single.2⟩
    have skipped : namesOf (c :: (front ++ rest)) = namesOf (front ++ rest) := by
      rw [namesOf, quotedNames]
      · rfl
      · exact fun same => double.1 same.symm
      · exact fun same => single.1 same.symm
    exact skipped.trans behind

theorem Quiet.spells (quiet : Quiet text) : Spells text [] := fun rest _ => namesOf_quiet quiet rest

theorem Quiet.before {front : Text} (quiet : Quiet front) (spells : Spells text names) :
    Spells (front ++ text) names := by
  intro rest stop
  rw [append_assoc, namesOf_quiet quiet, spells rest stop]

/-! ## Quoted text -/

theorem namesOf_doubled (opened name rest : Text) (stop : rest.head? ≠ some '"') :
    quotedNames (.name opened) (doubled '"' name ++ '"' :: rest) = (opened ++ name) :: namesOf rest := by
  induction name generalizing opened with
  | nil =>
    rw [doubled_nil, nil_append, append_nil]
    cases rest with
    | nil => rfl
    | cons c rest =>
      have other : c ≠ '"' := by simpa using stop
      simp [quotedNames, namesOf, other]
  | cons c name ih =>
    by_cases quote : c = '"'
    · subst quote
      rw [doubled_quote, cons_append, cons_append, quotedNames, ih]
      simp
    · rw [doubled_other quote, cons_append, quotedNames, ih]
      · simp
      · exact fun _ equal => absurd equal quote
      · exact fun equal => absurd equal quote

theorem quoteIdent_spells (name : Text) : Spells (quoteIdent name) [name] := by
  intro rest stop
  have shape : quoteIdent name ++ rest = '"' :: (doubled '"' name ++ '"' :: rest) := by simp [quoteIdent]
  rw [shape]
  exact namesOf_doubled [] name rest stop

theorem literal_doubled (value rest : Text) :
    quotedNames .literal (doubled '\'' value ++ '\'' :: rest) = namesOf rest := by
  induction value with
  | nil => rfl
  | cons c value ih =>
    by_cases quote : c = '\''
    · subst quote
      rw [doubled_quote]
      exact ih
    · rw [doubled_other quote, cons_append, quotedNames, ih]
      exact fun equal => absurd equal quote

theorem quoteLiteral_spells (value : Text) : Spells (quoteLiteral value) [] := by
  intro rest _
  have shape : quoteLiteral value ++ rest = '\'' :: (doubled '\'' value ++ '\'' :: rest) := by simp [quoteLiteral]
  rw [shape]
  exact literal_doubled value rest

/-! ## Text that is put together -/

theorem Spells.append {text more : Text} {names others : List Text} (spells : Spells text names)
    (further : Spells more others) (start : more.head? ≠ some '"') : Spells (text ++ more) (names ++ others) := by
  intro rest stop
  have begins : (more ++ rest).head? ≠ some '"' := by
    cases more with
    | nil => exact stop
    | cons c more => exact start
  rw [append_assoc, spells _ begins, further rest stop, append_assoc]

theorem Quiet.start (quiet : Quiet text) : text.head? ≠ some '"' := fun same =>
  quiet.1 (mem_of_mem_head? same)

theorem Spells.quiet {more : Text} (spells : Spells text names) (quiet : Quiet more) :
    Spells (text ++ more) names := by
  have together := spells.append quiet.spells quiet.start
  rwa [append_nil] at together

theorem Spells.behind {separator more : Text} {others : List Text} (spells : Spells text names)
    (quiet : Quiet separator) (visible : separator ≠ []) (further : Spells more others) :
    Spells (text ++ (separator ++ more)) (names ++ others) := by
  apply spells.append (quiet.before further)
  obtain ⟨c, separator, rfl⟩ := exists_cons_of_ne_nil visible
  exact quiet.start

theorem Spells.join {α : Type} {separator : Text} (quiet : Quiet separator) (visible : separator ≠ [])
    {text : α → Text} {names : α → List Text} {items : List α} (spells : ∀ item ∈ items, Spells (text item) (names item)) :
    Spells (join separator (items.map text)) (items.flatMap names) := by
  cases items with
  | nil => exact fun rest _ => rfl
  | cons first rest =>
    rw [map_cons, join_cons, flatMap_cons]
    have head := spells first mem_cons_self
    have tail := fun item mem => spells item (mem_cons_of_mem first mem)
    clear spells
    generalize text first = front at head
    generalize names first = found at head
    -- what stands behind grows from the front, so the text before it is arbitrary
    induction rest generalizing front found with
    | nil =>
      rw [map_nil, flatMap_nil, flatMap_nil, append_nil, append_nil]
      exact head
    | cons next rest ih =>
      have two := head.behind quiet visible (tail next mem_cons_self)
      have all := ih (fun item mem => tail item (mem_cons_of_mem next mem)) _ _ two
      rw [append_assoc, append_assoc, append_assoc] at all
      rw [map_cons, flatMap_cons, flatMap_cons, append_assoc]
      exact all

end RootCx.Postgres
