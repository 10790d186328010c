import RootCx.Crud.Condition

/-! # Reading generated conditions back

The text of a condition is read as that condition when no operand is missing, and
is refused otherwise.  The names of its columns only have to be names PostgreSQL
can hold.
-/

namespace RootCx.Crud

open RootCx.Text RootCx.Postgres List

/-- A name that a column can have. -/
def Named (name : Text) : Prop :=
  name ≠ [] ∧ byteLength name ≤ MAX_IDENT_BYTES ∧ '\x00' ∉ name

/-! ## Lexing a test -/

def Scalar.Named (value : Scalar) : Prop := ∀ name ∈ value.columns, Crud.Named name

variable {value : Scalar} {space : Bool} {items : List Scalar} {test : Test} (choices : List (List Atom))
  {atoms : List Atom} {atom : Atom} {name : Text} {rest : List Token}

theorem source_valid (named : value.Named) : value.source.body.Valid := by
  obtain ⟨source, cast⟩ := value
  cases source with
  | column name =>
    obtain ⟨nonempty, short, -⟩ := named name (by simp [Scalar.columns])
    exact ⟨nonempty, short⟩
  | param index =>
    refine ⟨Nat.toDigits_ne_nil, all_eq_true.mpr fun c mem => ?_⟩
    exact Nat.isDigit_of_mem_toDigits (by decide) (by decide) mem

theorem cast_isWord (cast : Cast) : isWord cast.word = true := by
  cases cast <;> decide

theorem brackets_wellFormed : WellFormed [glued (.punct "["), glued (.punct "]")] :=
  .cons_glued (punct_valid (by decide)) rfl (.single (punct_valid (by decide)))

/-- A cast may stand behind anything that closing punctuation may stand behind. -/
theorem phrase_cast {pieces : List Piece} (phrase : Phrase space pieces) (cast : Option Cast) :
    Phrase space (pieces ++ castPieces cast) := by
  cases cast with
  | none =>
    rw [castPieces, append_nil]
    exact phrase
  | some cast =>
    obtain ⟨body, rest, start⟩ := phrase.start
    have word : (Body.word cast.word).Valid := word_valid (cast_isWord cast)
    rw [castPieces]
    cases array : cast.isArray with
    | true =>
      refine ⟨phrase.append_closing ?_ (by decide), ⟨body, _, by rw [start]; rfl⟩, ?_⟩
      · exact .cons_glued (punct_valid (by decide)) rfl (.cons_glued word rfl brackets_wellFormed)
      · intro last mem
        rw [getLast?_append] at mem
        cases mem
        rfl
    | false =>
      refine ⟨phrase.append_closing ?_ (by decide), ⟨body, _, by rw [start]; rfl⟩, ?_⟩
      · exact .cons_glued (punct_valid (by decide)) rfl (.single word)
      · intro last mem
        rw [getLast?_append] at mem
        cases mem
        rfl

theorem source_closes (source : Source) : source.body.closes = true := by
  cases source <;> rfl

theorem scalar_phrase {space : Bool} {value : Scalar} (named : value.Named) :
    Phrase space (scalarPieces space value) :=
  phrase_cast (.single (source_valid named) (source_closes value.source)) value.cast

theorem items_phrase {front : List Piece} (phrase : Phrase space front) (named : ∀ item ∈ items, item.Named) :
    Phrase space (front ++ itemPieces items) := by
  induction items generalizing front with
  | nil =>
    rw [itemPieces, append_nil]
    exact phrase
  | cons item items ih =>
    have first := @scalar_phrase true item (named item (by simp))
    have joined : Phrase space (front ++ glued (.punct ",") :: scalarPieces true item) := by
      obtain ⟨body, rest, start⟩ := phrase.start
      refine ⟨phrase.append_closing ?_ (by decide), ⟨body, _, by rw [start]; rfl⟩, ?_⟩
      · exact .cons_spaced (punct_valid (by decide)) first.wellFormed
      · intro last mem
        rw [getLast?_append, getLast?_cons] at mem
        cases ends : (scalarPieces true item).getLast? with
        | none => simp [scalarPieces] at ends
        | some piece =>
          rw [ends] at mem
          cases mem
          exact first.last piece ends
    have all := ih joined fun item mem => named item (by simp [mem])
    rwa [append_assoc, cons_append] at all

theorem list_phrase (nonempty : items ≠ []) (named : ∀ item ∈ items, item.Named) :
    Phrase false (listPieces items) := by
  cases items with
  | nil => exact absurd rfl nonempty
  | cons item items =>
    exact items_phrase (scalar_phrase (named item (by simp))) fun other mem => named other (by simp [mem])

/-- The lists of a test are not empty. -/
def Test.Full : Test → Prop
  | .inList _ items _ | .compare _ _ (.array items _) => items ≠ []
  | _ => True

def Atom.Full : Atom → Prop :=
  Atom.fold True (fun _ => True) Test.Full id fun choices => ∀ atoms ∈ choices, ∀ full ∈ atoms, full

theorem notPieces_wellFormed {negated : Bool} {body : Body} {rest : List Piece}
    (wellFormed : WellFormed (⟨true, body⟩ :: rest)) :
    WellFormed (notPieces negated ++ ⟨true, body⟩ :: rest) := by
  cases negated with
  | true => exact .cons_spaced (word_valid (by decide)) wellFormed
  | false => exact wellFormed

theorem phrase_then {front rest : List Piece} (phrase : Phrase space front) (wellFormed : WellFormed rest)
    (spaced : ∀ next ∈ rest.head?, next.space = true) : WellFormed (front ++ rest) :=
  phrase.wellFormed.append wellFormed fun _ _ next head => .inl (spaced next head)

theorem compareOp_valid (op : CompareOp) : op.body.Valid := by
  cases op with
  | like | ilike => exact word_valid (by decide)
  | _ => exact op_valid (by decide)

/-- The scalars of a test. -/
def Test.scalars : Test → List Scalar
  | .isNull value _ => [value]
  | .inList value items _ => value :: items
  | .compare _ value (.scalar other) => [value, other]
  | .compare _ value (.array items _) => value :: items

theorem columns_scalars (test : Test) : test.columns = test.scalars.flatMap Scalar.columns := by
  cases test with
  | compare op value other => cases other <;> simp [Test.columns, Test.scalars]
  | _ => simp [Test.columns, Test.scalars]

theorem test_wellFormed (full : test.Full) (named : ∀ value ∈ test.scalars, value.Named) :
    WellFormed (testPieces test) := by
  cases test with
  | isNull value negated =>
    have first := @scalar_phrase false value (named value (by simp [Test.scalars]))
    refine phrase_then first ?_ (by simp [spaced])
    have null : WellFormed [spaced (.word "NULL")] := .single (word_valid (by decide))
    have rest := @notPieces_wellFormed negated _ _ null
    cases negated with
    | true => exact .cons_spaced (word_valid (by decide)) rest
    | false => exact .cons_spaced (word_valid (by decide)) rest
  | inList value items negated =>
    have first := @scalar_phrase false value (named value (by simp [Test.scalars]))
    have list := list_phrase full fun item mem => named item (by simp [Test.scalars, mem])
    refine phrase_then first (notPieces_wellFormed (.cons_spaced (word_valid (by decide)) ?_)) ?_
    · exact list.close.open_paren
    · cases negated <;> simp [notPieces, spaced]
  | compare op value other =>
    have first := @scalar_phrase false value (named value (by cases other <;> simp [Test.scalars]))
    refine phrase_then first ?_ (by simp [spaced])
    cases other with
    | scalar other =>
      have second := @scalar_phrase true other (named other (by simp [Test.scalars]))
      exact .cons_spaced (compareOp_valid op) second.wellFormed
    | array items cast =>
      have list := list_phrase full fun item mem => named item (by simp [Test.scalars, mem])
      have close : Phrase false [glued (.punct "]")] := .single (punct_valid (by decide)) rfl
      have rest := (phrase_cast close cast).wellFormed
      have bracket : (Body.punct "[").Valid := punct_valid (by decide)
      refine .cons_spaced (compareOp_valid op) (.cons_glued (word_valid (by decide)) rfl ?_)
      have inside : WellFormed (listPieces items ++ glued (.punct "]") :: castPieces cast) :=
        list.append_closing rest (by decide)
      obtain ⟨body, more, start⟩ := list.start
      rw [start] at inside ⊢
      exact .cons_glued bracket rfl inside

/-! ## Names and NUL characters in pieces -/

/-- No literal, and no NUL outside a name. -/
def isPlain : Body → Bool
  | .lit _ => false
  | .ident _ => true
  | body => !body.text.contains '\x00'

def Plain (pieces : List Piece) : Prop := ∀ piece ∈ pieces, isPlain piece.body = true

theorem Plain.append {front rest : List Piece} (left : Plain front) (right : Plain rest) :
    Plain (front ++ rest) :=
  fun piece mem => (mem_append.mp mem).elim (left piece) (right piece)

theorem Plain.cons {piece : Piece} {rest : List Piece} (first : isPlain piece.body = true)
    (others : Plain rest) : Plain (piece :: rest) :=
  fun other mem => (mem_cons.mp mem).elim (fun same => same ▸ first) (others other)

theorem Plain.nil : Plain [] := fun _ mem => nomatch mem

theorem castPieces_plain (cast : Option Cast) : Plain (castPieces cast) := by
  cases cast with
  | none => exact .nil
  | some cast =>
    refine .cons rfl (.cons ?_ ?_)
    · cases cast <;> rfl
    · cases cast.isArray with
      | true => exact .cons rfl (.cons rfl .nil)
      | false => exact .nil

theorem source_plain (source : Source) : isPlain source.body = true := by
  cases source with
  | column name => rfl
  | param index =>
    show (!('$' :: Nat.toDigits 10 index).contains '\x00') = true
    rw [Bool.not_eq_true', Bool.eq_false_iff, ne_eq, contains_iff_mem, mem_cons, not_or]
    refine ⟨by decide, fun mem => ?_⟩
    exact absurd (Nat.isDigit_of_mem_toDigits (by decide) (by decide) mem) (by decide)

theorem scalarPieces_plain (space : Bool) (value : Scalar) : Plain (scalarPieces space value) :=
  .cons (source_plain value.source) (castPieces_plain value.cast)

theorem itemPieces_plain (items : List Scalar) : Plain (itemPieces items) := by
  induction items with
  | nil => exact .nil
  | cons item items ih =>
    exact .cons rfl ((scalarPieces_plain true item).append ih)

theorem listPieces_plain (items : List Scalar) : Plain (listPieces items) := by
  cases items with
  | nil => exact .nil
  | cons item items => exact (scalarPieces_plain false item).append (itemPieces_plain items)

theorem testPieces_plain (test : Test) : Plain (testPieces test) := by
  have negation (negated : Bool) : Plain (notPieces negated) := by
    cases negated with
    | true => exact .cons rfl .nil
    | false => exact .nil
  cases test with
  | isNull value negated =>
    exact (scalarPieces_plain false value).append
      (.cons rfl ((negation negated).append (.cons rfl .nil)))
  | inList value items negated =>
    exact (scalarPieces_plain false value).append ((negation negated).append
      (.cons rfl (.cons rfl ((listPieces_plain items).append (.cons rfl .nil)))))
  | compare op value other =>
    refine (scalarPieces_plain false value).append (.cons ?_ ?_)
    · cases op <;> rfl
    · cases other with
      | scalar other => exact scalarPieces_plain true other
      | array items cast =>
        exact .cons rfl (.cons rfl
          ((listPieces_plain items).append (.cons rfl (castPieces_plain cast))))

/-! ## Lexing a condition -/

/-- What may follow a condition in generated text. -/
def Boundary (tail : Text) : Prop := tail.head?.all (fun c => c == ' ' || c == ')') = true

theorem plain_stops {body : Body} {tail : Text} (plain : isPlain body = true) (boundary : Boundary tail) :
    body.Stops tail := by
  cases tail with
  | nil => exact stops_end body
  | cons c tail =>
    have closing : c = ' ' ∨ c = ')' := by simpa [Boundary] using boundary
    cases body with
    | lit value => cases plain
    | ident name =>
      obtain rfl | rfl := closing
      · exact fun same => absurd (Option.some.inj same) (by decide)
      · exact fun same => absurd (Option.some.inj same) (by decide)
    | punct text =>
      obtain rfl | rfl := closing
      · exact fun _ => rfl
      · exact fun _ => rfl
    | _ => obtain rfl | rfl := closing <;> rfl

/-- In front of a boundary the text has these tokens. -/
def LexesBefore (text : Text) (toks : List Token) : Prop :=
  ∀ tail rest, Boundary tail → Lexes tail rest → Lexes (text ++ tail) (toks ++ rest)

theorem LexesBefore.pieces {pieces : List Piece} (wellFormed : WellFormed pieces) (plain : Plain pieces) :
    LexesBefore (render pieces) (tokens pieces) := by
  intro tail rest boundary lexes
  refine lexes.render wellFormed fun last mem => ?_
  exact plain_stops (plain last (mem_of_getLast? mem)) boundary

theorem Lexes.word {text tail : Text} {rest : List Token} (word : isWord text = true)
    (lexes : Lexes tail rest) : Lexes (text ++ ' ' :: tail) (.word (text.map Char.toLower) :: rest) := by
  have wellFormed : WellFormed [glued (.word text)] := .single (word_valid word)
  have stops : ∀ last ∈ [glued (.word text)].getLast?, last.body.Stops (' ' :: tail) := by
    intro last mem
    cases mem
    rfl
  have lexed := lexes.space.render wellFormed stops
  simpa [render, tokens, Piece.text, glued, Body.text, Body.token] using lexed

section Join

variable {α : Type} {text : α → Text} {toks : α → List Token} {separator : Text} {token : Token}

theorem LexesBefore.join {items : List α} (items_lex : ∀ item ∈ items, LexesBefore (text item) (toks item))
    (separates : ∀ tail rest, Lexes tail rest → Lexes (separator ++ tail) (token :: rest))
    (starts : separator.head? = some ' ') :
    LexesBefore (join separator (items.map text)) (separated token (items.map toks)) := by
  induction items with
  | nil => exact fun tail rest _ lexes => lexes
  | cons item items ih =>
    have first := items_lex item (by simp)
    have others := ih fun other mem => items_lex other (by simp [mem])
    cases items with
    | nil => simpa [Text.join, intercalate, separated] using first
    | cons next items =>
      intro tail rest boundary lexes
      have behind := separates _ _ (others tail rest boundary lexes)
      obtain ⟨blank, rfl⟩ : ∃ more, separator = ' ' :: more := by
        cases separator with
        | nil => cases starts
        | cons c more =>
          cases starts
          exact ⟨more, rfl⟩
      have spaced (more : Text) : Boundary ((' ' :: blank) ++ more) := rfl
      have whole := first _ _ (spaced _) behind
      simpa [Text.join, intercalate, separated] using whole

end Join

theorem and_separates (tail : Text) (rest : List Token) (lexes : Lexes tail rest) :
    Lexes (" AND " ++ tail) (kw "and" :: rest) :=
  (@Lexes.word "AND" tail rest (by decide) lexes).space

theorem or_separates (tail : Text) (rest : List Token) (lexes : Lexes tail rest) :
    Lexes (" OR " ++ tail) (kw "or" :: rest) :=
  (@Lexes.word "OR" tail rest (by decide) lexes).space

theorem choices_lexesBefore {choices : List (List Atom)}
    (atoms_lex : ∀ atoms ∈ choices, ∀ atom ∈ atoms, LexesBefore atom.text atom.toks) :
    LexesBefore (choicesText (choices.map (·.map Atom.text))) (choicesToks (choices.map (·.map Atom.toks))) := by
  rw [choicesText, choicesToks, map_map, map_map]
  refine LexesBefore.join (fun atoms mem => ?_) or_separates rfl
  exact LexesBefore.join (atoms_lex atoms mem) and_separates rfl

theorem text_group : (Atom.group choices).text =
    "(" ++ choicesText (choices.map (·.map Atom.text)) ++ ")" :=
  fold_group choices

theorem toks_group : (Atom.group choices).toks =
    sym "(" :: (choicesToks (choices.map (·.map Atom.toks)) ++ [sym ")"]) :=
  fold_group choices

theorem columns_group : (Atom.group choices).columns = (choices.map (·.map Atom.columns)).flatten.flatten :=
  fold_group choices

theorem full_group :
    (Atom.group choices).Full = ∀ atoms ∈ choices.map (·.map Atom.Full), ∀ full ∈ atoms, full :=
  fold_group choices

theorem mem_columns_group {choices : List (List Atom)} (inside : atoms ∈ choices) (mem : atom ∈ atoms)
    (column : name ∈ atom.columns) : name ∈ (Atom.group choices).columns := by
  simp only [columns_group, mem_flatten, mem_map]
  exact ⟨atom.columns, ⟨atoms.map Atom.columns, ⟨atoms, inside, rfl⟩, mem_map_of_mem mem⟩, column⟩

theorem full_of_group {choices : List (List Atom)} (full : (Atom.group choices).Full)
    (inside : atoms ∈ choices) (mem : atom ∈ atoms) : atom.Full := by
  rw [full_group] at full
  exact full _ (mem_map_of_mem inside) _ (mem_map_of_mem mem)

/-- Every condition, complete or not, is lexed as its tokens. -/
theorem atom_lexesBefore (full : atom.Full) (named : ∀ name ∈ atom.columns, Named name) :
    LexesBefore atom.text atom.toks := by
  induction atom with
  | hole => exact fun tail rest _ lexes => lexes
  | const value =>
    have wellFormed : WellFormed [glued (.word (constText value))] :=
      .single (word_valid (by cases value <;> decide))
    have plain : Plain [glued (.word (constText value))] := .cons (by cases value <;> rfl) .nil
    have lexes := LexesBefore.pieces wellFormed plain
    cases value with
    | true => exact lexes
    | false => exact lexes
  | test test =>
    refine .pieces (test_wellFormed full ?_) (testPieces_plain test)
    intro value mem name column
    apply named
    show name ∈ test.columns
    rw [columns_scalars]
    exact mem_flatMap.mpr ⟨value, mem, column⟩
  | not atom ih =>
    intro tail rest boundary lexes
    have inside := ih full named tail rest boundary lexes
    exact @Lexes.word "NOT" _ _ (by decide) inside
  | group choices ih =>
    have inside := choices_lexesBefore fun atoms inside atom mem =>
      ih atoms inside atom mem (full_of_group full inside mem)
        fun name column => named name (mem_columns_group inside mem column)
    intro tail rest boundary lexes
    have paren : WellFormed [glued (.punct ")")] := .single (punct_valid (by decide))
    have close := lexes.render paren fun last mem => by
      cases mem
      exact plain_stops rfl boundary
    have boundary : Boundary (render [glued (.punct ")")] ++ tail) := rfl
    have closed := inside _ _ boundary close
    have opens : WellFormed [glued (.punct "(")] := .single (punct_valid (by decide))
    have whole := closed.render opens fun last mem => by
      cases mem
      exact fun dot => absurd dot (by decide)
    rw [text_group, toks_group]
    simpa [render, tokens, Piece.text, glued, Body.text, Body.token, sym] using whole

/-! ## Reading a test -/

/-- What follows `::` and a word. -/
theorem readCast_word (word : Text) (rest : List Token) :
    readCast (sym "::" :: .word word :: rest) = match rest with
      | .sym opened :: .sym closed :: more =>
        if opened = "[" ∧ closed = "]" then
          (castOfWord word true).map fun cast => (some cast, more)
        else (castOfWord word false).map fun cast => (some cast, rest)
      | _ => (castOfWord word false).map fun cast => (some cast, rest) := rfl

theorem readCast_toks (cast : Option Cast) {rest : List Token} (noCast : rest.head? ≠ some (sym "::"))
    (noBracket : rest.head? ≠ some (sym "[")) :
    readCast (tokens (castPieces cast) ++ rest) = some (cast, rest) := by
  cases cast with
  | none =>
    show readCast rest = some (none, rest)
    unfold readCast
    split
    case h_1 mark word more =>
      have other : mark ≠ "::" := by
        rintro rfl
        exact noCast rfl
      rw [if_neg other]
    case h_2 => rfl
  | some cast =>
    cases array : cast.isArray with
    | true =>
      have shape : tokens (castPieces (some cast)) ++ rest =
          sym "::" :: .word cast.word :: sym "[" :: sym "]" :: rest := by
        cases cast <;> first | rfl | cases array
      rw [shape]
      cases cast <;> first | rfl | cases array
    | false =>
      have shape : tokens (castPieces (some cast)) ++ rest = sym "::" :: .word cast.word :: rest := by
        cases cast <;> first | rfl | cases array
      have found : castOfWord cast.word false = some cast := by
        cases cast <;> first | rfl | cases array
      rw [shape, readCast_word]
      split
      case h_1 opened closed more =>
        rw [if_neg, found]
        · rfl
        · rintro ⟨rfl, -⟩
          exact noBracket rfl
      case h_2 => rw [found]; rfl

theorem readScalar_toks (space : Bool) (value : Scalar) {rest : List Token}
    (noCast : rest.head? ≠ some (sym "::")) (noBracket : rest.head? ≠ some (sym "[")) :
    readScalar (tokens (scalarPieces space value) ++ rest) = some (value, rest) := by
  obtain ⟨source, cast⟩ := value
  have read : readSource (tokens (scalarPieces space ⟨source, cast⟩) ++ rest) =
      some (source, tokens (castPieces cast) ++ rest) := by
    cases source with
    | column name => rfl
    | param index =>
      show some (Source.param (Nat.ofDigitChars 10 (Nat.toDigits 10 index) 0), _) = _
      rw [Nat.ofDigitChars_ten_toDigits]
      rfl
  simp only [readScalar, read, readCast_toks cast noCast noBracket, Option.bind_eq_bind, Option.bind_some]

section Separated

variable {α : Type} {item : Reader α} {separator : Token} {ok : α → Bool} {toks : α → List Token}
  {rest : List Token}

theorem readSep_separated {items : List α} (nonempty : items ≠ []) {fuel : Nat}
    (enough : items.length ≤ fuel) (stop : rest.head? ≠ some separator)
    (reads : ∀ x ∈ items, ∀ more, more = rest ∨ more.head? = some separator →
      item (toks x ++ more) = if ok x then some (x, more) else none) :
    readSep separator item fuel (separated separator (items.map toks) ++ rest) =
      if items.all ok then some (items, rest) else none := by
  induction items generalizing fuel with
  | nil => exact absurd rfl nonempty
  | cons x items ih =>
    rw [length_cons] at enough
    obtain ⟨fuel, rfl⟩ : ∃ n, fuel = n + 1 := ⟨fuel - 1, by omega⟩
    cases items with
    | nil =>
      have first := reads x (by simp) rest (.inl rfl)
      rw [map_cons, map_nil, separated, readSep, first]
      cases good : ok x with
      | false => simp [good]
      | true =>
        simp only [if_true, all_cons, good, all_nil, Bool.and_self, Option.bind_eq_bind,
          Option.bind_some]
        cases rest with
        | nil => rfl
        | cons tok more =>
          have other : tok ≠ separator := by simpa using stop
          simp only [other, if_false]
    | cons next items =>
      have first := reads x (by simp) (separator :: (separated separator ((next :: items).map toks) ++ rest))
        (.inr rfl)
      have others := ih (by simp) (show _ ≤ fuel by simp only [length_cons] at *; omega)
        fun y mem => reads y (by simp [mem])
      rw [map_cons, map_cons, separated, ← map_cons, append_assoc, cons_append,
        readSep, first]
      cases good : ok x with
      | false => simp [good]
      | true =>
        simp only [if_true, Option.bind_eq_bind, Option.bind_some, others, all_cons (a := x), good,
          Bool.true_and]
        split <;> rfl
      · simp

theorem length_separated (items : List α) :
    items.length ≤ (separated separator (items.map toks)).length + 1 := by
  induction items with
  | nil => simp
  | cons x items ih =>
    cases items with
    | nil => simp
    | cons next items =>
      rw [map_cons, map_cons, separated, ← map_cons]
      · simp only [length_append, length_cons] at *
        omega
      · simp

theorem readMany_separated {items : List α} (nonempty : items ≠ []) (stop : rest.head? ≠ some separator)
    (reads : ∀ x ∈ items, ∀ more, more = rest ∨ more.head? = some separator →
      item (toks x ++ more) = if ok x then some (x, more) else none) :
    readMany separator item (separated separator (items.map toks) ++ rest) =
      if items.all ok then some (items, rest) else none := by
  refine readSep_separated nonempty ?_ stop reads
  have := @length_separated α separator toks items
  rw [length_append]
  omega

theorem length_le_separated {items : List α} {x : α} (mem : x ∈ items) :
    (toks x).length ≤ (separated separator (items.map toks)).length := by
  induction items with
  | nil => cases mem
  | cons y items ih =>
    cases items with
    | nil =>
      obtain rfl := mem_singleton.mp mem
      exact Nat.le_refl _
    | cons next items =>
      rw [map_cons, map_cons, separated, ← map_cons]
      · rw [length_append, length_cons]
        obtain rfl | older := mem_cons.mp mem
        · omega
        · have := ih older
          omega
      · simp

theorem readMany_none (refused : item rest = none) : readMany separator item rest = none := by
  rw [readMany, readSep, refused]
  rfl

end Separated

def scalarToks (value : Scalar) : List Token := tokens (scalarPieces false value)

theorem tokens_list (items : List Scalar) :
    tokens (listPieces items) = separated (sym ",") (items.map scalarToks) := by
  cases items with
  | nil => rfl
  | cons item items =>
    rw [listPieces, tokens_append]
    induction items generalizing item with
    | nil => simp [itemPieces, separated, scalarToks, tokens]
    | cons next items ih =>
      rw [map_cons, map_cons, separated, ← map_cons, ← ih]
      · simp [itemPieces, tokens, scalarToks, scalarPieces, glued, Body.token, sym]
      · simp

theorem readList_toks {items : List Scalar} (nonempty : items ≠ []) {close : Token} {rest : List Token}
    (closing : close = sym ")" ∨ close = sym "]") :
    readList close (tokens (listPieces items) ++ close :: rest) = some (items, rest) := by
  have many : readMany (sym ",") readScalar
      (separated (sym ",") (items.map scalarToks) ++ close :: rest) = some (items, close :: rest) := by
    have reads : ∀ x ∈ items, ∀ more, more = close :: rest ∨ more.head? = some (sym ",") →
        readScalar (scalarToks x ++ more) = if (fun _ => true) x then some (x, more) else none := by
      intro value _ more next
      have head : more.head? = some close ∨ more.head? = some (sym ",") := by
        obtain rfl | comma := next
        · exact .inl rfl
        · exact .inr comma
      refine readScalar_toks false value ?_ ?_
      · obtain same | same := head
        · obtain rfl | rfl := closing <;> rw [same] <;> decide
        · rw [same]
          decide
      · obtain same | same := head
        · obtain rfl | rfl := closing <;> rw [same] <;> decide
        · rw [same]
          decide
    have stop : (close :: rest).head? ≠ some (sym ",") := by
      rw [head?_cons]
      obtain rfl | rfl := closing <;> decide
    have read := readMany_separated nonempty stop reads
    rwa [if_pos (all_eq_true.mpr fun _ _ => rfl)] at read
  simp only [readList, tokens_list, many, Option.bind_eq_bind, Option.bind_some, if_true]

/-- The tokens that may follow a condition. -/
def Ended (rest : List Token) : Prop := ∀ tok ∈ rest.head?, tok ∈ [kw "and", kw "or", sym ")"]

theorem Ended.head_ne (ended : Ended rest) {tok : Token} (other : tok ∉ [kw "and", kw "or", sym ")"] ) : rest.head? ≠ some tok :=
  fun same => other (ended tok same)

theorem readTerm_array (rest : List Token) :
    readTerm (kw "array" :: sym "[" :: rest) = (do
      let (items, rest) ← readList (sym "]") rest
      let (cast, rest) ← readCast rest
      some (Term.array items cast, rest)) := rfl

theorem readTerm_toks {term : Term} {rest : List Token} (ended : Ended rest)
    (full : ∀ op value, Test.Full (.compare op value term)) :
    readTerm (tokens (termPieces term) ++ rest) = some (term, rest) := by
  have noCast : rest.head? ≠ some (sym "::") := ended.head_ne (by decide)
  have noBracket : rest.head? ≠ some (sym "[") := ended.head_ne (by decide)
  cases term with
  | scalar value =>
    have read := readScalar_toks true value noCast noBracket
    obtain ⟨source, cast⟩ := value
    cases source with
    | column name => exact congrArg (Option.map _) read
    | param index => exact congrArg (Option.map _) read
  | array items cast =>
    have nonempty : items ≠ [] := full .eq ⟨.param 0, none⟩
    have list := @readList_toks items nonempty (sym "]") (tokens (castPieces cast) ++ rest) (.inr rfl)
    have shape : tokens (termPieces (.array items cast)) ++ rest =
        kw "array" :: sym "[" :: (tokens (listPieces items) ++ sym "]" :: (tokens (castPieces cast) ++ rest)) := by
      simp only [termPieces, tokens, map_cons, map_append, cons_append, append_assoc]
      rfl
    rw [shape, readTerm_array, list]
    simp only [Option.bind_eq_bind, Option.bind_some, readCast_toks cast noCast noBracket]

theorem readTest_toks (ended : Ended rest) (full : test.Full) :
    readTest (tokens (testPieces test) ++ rest) = some (test, rest) := by
  have scalar (value : Scalar) (tok : Token) (more : List Token)
      (other : tok ≠ sym "::" ∧ tok ≠ sym "[") :
      readScalar (tokens (scalarPieces false value) ++ tok :: more) = some (value, tok :: more) :=
    readScalar_toks false value (by simpa using other.1) (by simpa using other.2)
  cases test with
  | isNull value negated =>
    have shape : tokens (testPieces (.isNull value negated)) ++ rest =
        tokens (scalarPieces false value) ++
          kw "is" :: ((if negated then [kw "not"] else []) ++ kw "null" :: rest) := by
      cases negated <;>
        simp only [testPieces, notPieces, tokens, map_cons, map_append, cons_append,
          append_assoc] <;> rfl
    rw [shape, readTest, scalar value _ _ (by decide)]
    cases negated <;> rfl
  | inList value items negated =>
    have shape : tokens (testPieces (.inList value items negated)) ++ rest =
        tokens (scalarPieces false value) ++ ((if negated then [kw "not"] else []) ++
          kw "in" :: sym "(" :: (tokens (listPieces items) ++ sym ")" :: rest)) := by
      cases negated <;>
        simp only [testPieces, notPieces, tokens, map_cons, map_append, cons_append,
          append_assoc] <;> rfl
    have list := @readList_toks items full (sym ")") rest (.inl rfl)
    have inList (negated : Bool) : readIn value negated
        (kw "in" :: sym "(" :: (tokens (listPieces items) ++ sym ")" :: rest)) =
          some (.inList value items negated, rest) := by
      show (readList (sym ")") _).map _ = _
      rw [list]
      rfl
    rw [shape, readTest]
    cases negated with
    | true =>
      simp only [if_true, cons_append, nil_append]
      rw [scalar value _ _ (by decide)]
      exact inList true
    | false =>
      simp only [Bool.false_eq_true, if_false, nil_append]
      rw [scalar value _ _ (by decide)]
      exact inList false
  | compare op value other =>
    have shape : tokens (testPieces (.compare op value other)) ++ rest =
        tokens (scalarPieces false value) ++ op.body.token :: (tokens (termPieces other) ++ rest) := by
      simp only [testPieces, tokens, map_cons, map_append, cons_append, append_assoc]
      rfl
    have term := @readTerm_toks other rest ended (by cases other <;> exact fun _ _ => full)
    have words : op.body.token ∉ [sym "::", sym "[", kw "is", kw "not", kw "in"] ∧
        compareOpOf op.body.token = some op := by
      cases op <;> decide
    simp only [mem_cons, not_mem_nil, or_false, not_or] at words
    obtain ⟨⟨cast, bracket, isWord, notWord, inWord⟩, found⟩ := words
    rw [shape, readTest, scalar value _ _ ⟨cast, bracket⟩]
    simp only [Option.bind_eq_bind, Option.bind_some, isWord, notWord, inWord, if_false, found, term]

theorem testToks_start (test : Test) : ∃ tok more, tokens (testPieces test) = tok :: more ∧
    tok ∉ [kw "not", kw "true", kw "false", sym "("] := by
  have source (source : Source) : source.body.token ∉ [kw "not", kw "true", kw "false", sym "("] := by
    cases source <;> simp [Source.body, Body.token, kw, sym]
  cases test with
  | isNull value _ | inList value _ _ | compare _ value _ => exact ⟨_, _, rfl, source value.source⟩

/-! ## Reading a condition -/

theorem readAtom_ended (depth : Nat) (ended : Ended rest) : readAtom depth rest = none := by
  cases depth with
  | zero => rfl
  | succ depth =>
    cases rest with
    | nil => rfl
    | cons tok rest =>
      have closing := ended tok rfl
      simp only [mem_cons, not_mem_nil, or_false] at closing
      obtain rfl | rfl | rfl := closing <;> rfl

theorem complete_group :
    (Atom.group choices).complete = choicesComplete (choices.map (·.map Atom.complete)) :=
  fold_group choices

def conjComplete (atoms : List Atom) : Bool := !atoms.isEmpty && atoms.all Atom.complete

theorem choicesComplete_eq :
    choicesComplete (choices.map (·.map Atom.complete)) = (!choices.isEmpty && choices.all conjComplete) := by
  simp only [choicesComplete, isEmpty_map, all_map]
  congr 2
  funext atoms
  simp [conjComplete]

section Choices

variable {choices : List (List Atom)} {depth : Nat} {rest : List Token}

theorem readConj_toks (reads : ∀ atom ∈ atoms, ∀ more, Ended more →
      readAtom depth (atom.toks ++ more) = if atom.complete then some (atom, more) else none)
    (ended : Ended rest) (stop : rest.head? ≠ some (kw "and")) :
    readMany (kw "and") (readAtom depth) (separated (kw "and") (atoms.map Atom.toks) ++ rest) =
      if conjComplete atoms then some (atoms, rest) else none := by
  cases atoms with
  | nil =>
    have refused := readAtom_ended depth ended
    exact readMany_none refused
  | cons atom atoms =>
    have next (more : List Token) (behind : more = rest ∨ more.head? = some (kw "and")) : Ended more := by
      obtain rfl | head := behind
      · exact ended
      · intro tok mem
        rw [head] at mem
        cases mem
        decide
    have read := readMany_separated (by simp) stop fun atom mem more behind =>
      reads atom mem more (next more behind)
    rw [read]
    simp [conjComplete]

theorem readChoices_toks
    (reads : ∀ atoms ∈ choices, ∀ atom ∈ atoms, ∀ more, Ended more →
      readAtom depth (atom.toks ++ more) = if atom.complete then some (atom, more) else none)
    (ended : Ended rest) (closed : rest.head? ≠ some (kw "and") ∧ rest.head? ≠ some (kw "or")) :
    readChoices (readAtom depth) (choicesToks (choices.map (·.map Atom.toks)) ++ rest) =
      if choicesComplete (choices.map (·.map Atom.complete)) then some (choices, rest) else none := by
  rw [choicesComplete_eq, choicesToks, map_map]
  cases choices with
  | nil =>
    have refused := readAtom_ended depth ended
    exact readMany_none (readMany_none refused)
  | cons atoms choices =>
    have conj : ∀ atoms' ∈ atoms :: choices, ∀ more, more = rest ∨ more.head? = some (kw "or") →
        readMany (kw "and") (readAtom depth)
          (separated (kw "and") (atoms'.map Atom.toks) ++ more) =
            if conjComplete atoms' then some (atoms', more) else none := by
      intro atoms' mem more behind
      obtain rfl | head := behind
      · exact readConj_toks (reads atoms' mem) ended closed.1
      · refine readConj_toks (reads atoms' mem) ?_ ?_
        · intro tok mem
          rw [head] at mem
          cases mem
          decide
        · rw [head]
          decide
    have read := readMany_separated (by simp) closed.2 conj
    rw [readChoices]
    exact read.trans (by simp)

end Choices

/-- In front of what may follow it, a condition is read as itself if no operand is
    missing, and refused otherwise. -/
theorem readAtom_group (depth : Nat) (rest : List Token) :
    readAtom (depth + 1) (sym "(" :: rest) = (do
      let (choices, rest) ← readChoices (readAtom depth) rest
      match rest with
      | close :: rest => if close = sym ")" then some (Atom.group choices, rest) else none
      | [] => none) := rfl

theorem readAtom_toks (full : atom.Full) {depth : Nat} (enough : atom.toks.length ≤ depth)
    (ended : Ended rest) :
    readAtom depth (atom.toks ++ rest) = if atom.complete then some (atom, rest) else none := by
  induction atom generalizing depth rest with
  | hole => exact readAtom_ended depth ended
  | const value =>
    have one : 1 ≤ depth := enough
    obtain ⟨depth, rfl⟩ : ∃ n, depth = n + 1 := ⟨depth - 1, by omega⟩
    cases value <;> rfl
  | test test =>
    obtain ⟨tok, more, start, other⟩ := testToks_start test
    have shape : (Atom.test test).toks = tok :: more := start
    rw [shape, length_cons] at enough
    obtain ⟨depth, rfl⟩ : ∃ n, depth = n + 1 := ⟨depth - 1, by omega⟩
    have read := readTest_toks ended full
    rw [start] at read
    simp only [mem_cons, not_mem_nil, or_false, not_or] at other
    obtain ⟨notWord, trueWord, falseWord, paren⟩ := other
    rw [shape, cons_append, readAtom, if_neg notWord, if_neg trueWord, if_neg falseWord, if_neg paren,
      ← cons_append, read]
    rfl
  | not atom ih =>
    have longer : atom.toks.length + 1 ≤ depth := enough
    obtain ⟨depth, rfl⟩ : ∃ n, depth = n + 1 := ⟨depth - 1, by omega⟩
    have read := ih full (by omega : atom.toks.length ≤ depth) ended
    show (readAtom depth (atom.toks ++ rest)).map _ = if atom.complete then _ else none
    rw [read]
    split <;> rfl
  | group choices ih =>
    rw [toks_group] at enough ⊢
    simp only [length_cons, length_append, length_nil] at enough
    obtain ⟨depth, rfl⟩ : ∃ n, depth = n + 1 := ⟨depth - 1, by omega⟩
    have reads : ∀ atoms ∈ choices, ∀ atom ∈ atoms, ∀ more, Ended more →
        readAtom depth (atom.toks ++ more) = if atom.complete then some (atom, more) else none := by
      intro atoms inside atom mem more closing
      have inConj := @length_le_separated _ (kw "and") Atom.toks _ _ mem
      have inChoices := @length_le_separated _ (kw "or")
        (fun atoms => separated (kw "and") (atoms.map Atom.toks)) _ _ inside
      rw [choicesToks, map_map] at enough
      simp only [Function.comp_def] at enough
      exact ih atoms inside atom mem (full_of_group full inside mem)
        (by omega) closing
    have closing : Ended (sym ")" :: rest) := by
      intro tok mem
      cases mem
      decide
    have read := readChoices_toks reads closing
      ⟨by rw [head?_cons]; decide, by rw [head?_cons]; decide⟩
    rw [cons_append, append_assoc, complete_group]
    show readAtom (depth + 1) (sym "(" :: (choicesToks (choices.map (map Atom.toks)) ++ sym ")" :: rest)) = _
    rw [readAtom_group, read]
    split
    · simp
    · rfl

/-! ## Whole conditions -/

theorem nul_mem_render {pieces : List Piece} (plain : Plain pieces) :
    '\x00' ∈ render pieces ↔ ∃ name, .ident name ∈ pieces.map Piece.body ∧ '\x00' ∈ name := by
  have body {body : Body} (plain : isPlain body = true) :
      '\x00' ∈ body.text ↔ ∃ name, body = .ident name ∧ '\x00' ∈ name := by
    cases body with
    | lit value => cases plain
    | ident name => simp [Body.text, quoteIdent, mem_doubled]
    | _ => simpa [isPlain] using plain
  have piece (piece : Piece) : '\x00' ∈ piece.text ↔ '\x00' ∈ piece.body.text := by
    unfold Piece.text
    split <;> simp
  simp only [render, mem_flatMap, piece, mem_map]
  constructor
  · rintro ⟨found, mem, nul⟩
    obtain ⟨name, same, inside⟩ := (body (plain found mem)).mp nul
    exact ⟨name, ⟨found, mem, same⟩, inside⟩
  · rintro ⟨name, ⟨found, mem, same⟩, inside⟩
    exact ⟨found, mem, (body (plain found mem)).mpr ⟨name, same, inside⟩⟩

theorem ident_mem_scalar :
    .ident name ∈ (scalarPieces space value).map Piece.body ↔ name ∈ value.columns := by
  obtain ⟨source, cast⟩ := value
  have noIdent : .ident name ∉ (castPieces cast).map Piece.body := by
    cases cast with
    | none => simp [castPieces]
    | some cast => cases array : cast.isArray <;> simp [castPieces, array, glued]
  cases source with
  | column other => simp_all [scalarPieces, Source.body, Scalar.columns]
  | param index => simp_all [scalarPieces, Source.body, Scalar.columns]

theorem ident_mem_items :
    .ident name ∈ (itemPieces items).map Piece.body ↔ name ∈ items.flatMap Scalar.columns := by
  induction items with
  | nil => simp [itemPieces]
  | cons item items ih =>
    rw [itemPieces, map_cons, mem_cons, map_append, mem_append, ident_mem_scalar,
      ih, flatMap_cons, mem_append]
    simp [glued]

theorem ident_mem_list :
    .ident name ∈ (listPieces items).map Piece.body ↔ name ∈ items.flatMap Scalar.columns := by
  cases items with
  | nil => simp [listPieces]
  | cons item items =>
    rw [listPieces, map_append, mem_append, ident_mem_scalar, ident_mem_items,
      flatMap_cons, mem_append]

theorem ident_mem_test : .ident name ∈ (testPieces test).map Piece.body ↔ name ∈ test.columns := by
  cases test with
  | isNull value negated =>
    rw [testPieces, map_append, mem_append, ident_mem_scalar]
    cases negated <;> simp [notPieces, spaced, Test.columns]
  | inList value items negated =>
    simp only [testPieces, map_append, map_cons, mem_append, mem_cons, ident_mem_scalar,
      ident_mem_list]
    cases negated <;> simp [notPieces, spaced, openParen, closeParen, glued, Test.columns]
  | compare op value other =>
    have operator : Body.ident name ≠ op.body := by cases op <;> simp [CompareOp.body]
    cases other with
    | scalar other =>
      simp only [testPieces, termPieces, map_append, map_cons, mem_append, mem_cons,
        ident_mem_scalar]
      simp [spaced, operator, Test.columns]
    | array items cast =>
      have noIdent : .ident name ∉ (castPieces cast).map Piece.body := by
        cases cast with
        | none => simp [castPieces]
        | some cast => cases array : cast.isArray <;> simp [castPieces, array, glued]
      simp only [testPieces, termPieces, map_append, map_cons, mem_append, mem_cons,
        ident_mem_scalar, ident_mem_list, noIdent]
      simp [spaced, glued, operator, Test.columns]

theorem nul_mem_join {separator : Text} (clean : '\x00' ∉ separator) (parts : List Text) :
    '\x00' ∈ join separator parts ↔ ∃ part ∈ parts, '\x00' ∈ part := by
  induction parts with
  | nil => simp [join]
  | cons part parts ih =>
    cases parts with
    | nil => simp [join, intercalate]
    | cons next parts =>
      have step : join separator (part :: next :: parts) =
          part ++ (separator ++ join separator (next :: parts)) := by
        simp [join, intercalate]
      rw [step, mem_append, mem_append, ih]
      simp [clean]

/-- A NUL in the text is one in the name of a column. -/
theorem nul_mem_text : '\x00' ∈ atom.text ↔ ∃ name ∈ atom.columns, '\x00' ∈ name := by
  induction atom with
  | hole => simp [Atom.text, Atom.columns, Atom.fold]
  | const value => cases value <;> simp [Atom.text, Atom.columns, Atom.fold, constText]
  | test test =>
    show '\x00' ∈ render (testPieces test) ↔ ∃ name ∈ test.columns, '\x00' ∈ name
    simp only [nul_mem_render (testPieces_plain test), ident_mem_test]
  | not atom ih =>
    show '\x00' ∈ "NOT " ++ atom.text ↔ ∃ name ∈ atom.columns, '\x00' ∈ name
    rw [mem_append, ih]
    simp
  | group choices ih =>
    have inside : '\x00' ∈ choicesText (choices.map (·.map Atom.text)) ↔
        ∃ atoms ∈ choices, ∃ atom ∈ atoms, '\x00' ∈ atom.text := by
      simp [choicesText, nul_mem_join]
    rw [text_group, mem_append, mem_append, inside]
    constructor
    · rintro ((paren | ⟨atoms, inside, atom, mem, nul⟩) | paren)
      · exact absurd paren (by decide)
      · obtain ⟨name, column, nul⟩ := (ih atoms inside atom mem).mp nul
        exact ⟨name, mem_columns_group inside mem column, nul⟩
      · exact absurd paren (by decide)
    · rintro ⟨name, column, nul⟩
      simp only [columns_group, mem_flatten, mem_map] at column
      obtain ⟨_, ⟨_, ⟨atoms, inside, rfl⟩, listed⟩, column⟩ := column
      obtain ⟨atom, mem, rfl⟩ := mem_map.mp listed
      exact .inl (.inr ⟨atoms, inside, atom, mem,
        (ih atoms inside atom mem).mpr ⟨name, column, nul⟩⟩)

def conjText (atoms : List Atom) : Text := join " AND " (atoms.map Atom.text)

/-- The text of a conjunction is read as the conjunction, or refused when an
    operand is missing. -/
theorem readCondition_conj (full : ∀ atom ∈ atoms, atom.Full)
    (named : ∀ atom ∈ atoms, ∀ name ∈ atom.columns, Named name) :
    readCondition (conjText atoms) = if conjComplete atoms then some [atoms] else none := by
  have noNul : '\x00' ∉ conjText atoms := by
    rw [conjText, nul_mem_join (by decide)]
    rintro ⟨_, listed, nul⟩
    obtain ⟨atom, mem, rfl⟩ := mem_map.mp listed
    obtain ⟨name, column, nul⟩ := nul_mem_text.mp nul
    exact (named atom mem name column).2.2 nul
  have lexes : Lexes (conjText atoms) (separated (kw "and") (atoms.map Atom.toks)) := by
    have before : LexesBefore (conjText atoms) (separated (kw "and") (atoms.map Atom.toks)) :=
      .join (fun atom mem => atom_lexesBefore (full atom mem) (named atom mem)) and_separates rfl
    have whole := before [] [] rfl .nil
    rwa [append_nil, append_nil] at whole
  have ended : Ended [] := fun _ mem => nomatch mem
  have reads : ∀ atoms' ∈ [atoms], ∀ atom ∈ atoms', ∀ more, Ended more →
      readAtom (separated (kw "and") (atoms.map Atom.toks)).length (atom.toks ++ more) =
        if atom.complete then some (atom, more) else none := by
    intro atoms' same atom mem more closing
    obtain rfl := mem_singleton.mp same
    exact readAtom_toks (full atom mem) (length_le_separated mem) closing
  have read := readChoices_toks reads ended ⟨by simp, by simp⟩
  rw [append_nil] at read
  have one : choicesToks ([atoms].map (·.map Atom.toks)) = separated (kw "and") (atoms.map Atom.toks) := rfl
  rw [one, choicesComplete_eq] at read
  rw [readCondition, lexes.lex noNul]
  simp only [read, isEmpty_cons, all_cons, all_nil, Bool.not_false, Bool.true_and,
    Bool.and_true]
  cases conjComplete atoms <;> rfl

def Term.columns : Term → List Text
  | .scalar value => value.columns
  | .array items _ => items.flatMap Scalar.columns

def conjColumns (atoms : List Atom) : List Text := atoms.flatMap Atom.columns

end RootCx.Crud
