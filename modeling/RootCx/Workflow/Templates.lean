import RootCx.Workflow.Expr

/-! # Reading a template

A template is literal text and expression blocks in turn.  A block goes from the leftmost
opening braces to the leftmost closing ones behind them; braces that no closing follows are
literal text.  A string that is one block, up to the white space around it, stands for the
value of the block, and any other one for its text.
-/

namespace RootCx.Workflow.Expr

open RootCx.Text List

/-! ## Leftmost occurrences -/

/-- The leftmost occurrence of a pattern in a text is behind its front. -/
structure FirstAt (pattern text front rest : Text) : Prop where
  occurs : text = front ++ pattern ++ rest
  leftmost : ∀ front' rest', text = front' ++ pattern ++ rest' → front.length ≤ front'.length

variable {pattern text front rest expr : Text}

theorem FirstAt.unique {front' rest' : Text} (one : FirstAt pattern text front rest)
    (two : FirstAt pattern text front' rest') : front = front' ∧ rest = rest' := by
  have same_length : front.length = front'.length :=
    Nat.le_antisymm (one.leftmost front' rest' two.occurs) (two.leftmost front rest one.occurs)
  have same := one.occurs.symm.trans two.occurs
  rw [append_assoc, append_assoc] at same
  obtain ⟨fronts, behind⟩ := append_inj same same_length
  exact ⟨fronts, append_cancel_left behind⟩

theorem cut_none (nowhere : cut pattern text = none) : ¬pattern <:+: text := by
  induction text with
  | nil =>
    unfold cut at nowhere
    split at nowhere
    · cases nowhere
    · rename_i nonempty
      exact fun inside => nonempty (infix_nil.mp inside)
  | cons c rest ih =>
    unfold cut at nowhere
    split at nowhere
    · cases nowhere
    · rename_i elsewhere
      rw [Option.map_eq_none_iff] at nowhere
      intro inside
      obtain front | later := infix_cons_iff.mp inside
      · exact elsewhere (List.isPrefixOf_iff_prefix.mpr front)
      · exact ih nowhere later

theorem cut_some (found : cut pattern text = some (front, rest)) : FirstAt pattern text front rest := by
  induction text generalizing front with
  | nil =>
    unfold cut at found
    split at found
    · rename_i empty
      obtain ⟨rfl, rfl⟩ := Prod.mk.inj (Option.some.inj found)
      exact ⟨by rw [empty]; rfl, fun _ _ _ => Nat.zero_le _⟩
    · cases found
  | cons c text ih =>
    unfold cut at found
    split at found
    · rename_i here
      obtain ⟨rfl, rfl⟩ := Prod.mk.inj (Option.some.inj found)
      refine ⟨?_, fun _ _ _ => Nat.zero_le _⟩
      obtain ⟨behind, same⟩ := isPrefixOf_iff_prefix.mp here
      rw [← same, drop_left]
      rfl
    · rename_i elsewhere
      obtain ⟨⟨front', rest'⟩, later, same⟩ := Option.map_eq_some_iff.mp found
      obtain ⟨rfl, rfl⟩ := Prod.mk.inj same
      obtain ⟨occurs, leftmost⟩ := ih later
      refine ⟨by rw [occurs]; rfl, fun other behind there => ?_⟩
      cases other with
      | nil => exact absurd (List.isPrefixOf_iff_prefix.mpr ⟨behind, there.symm⟩) elsewhere
      | cons d other =>
        obtain ⟨-, there⟩ := cons.inj there
        exact Nat.succ_le_succ (leftmost other behind there)

theorem cut_eq_some_iff : cut pattern text = some (front, rest) ↔ FirstAt pattern text front rest := by
  constructor
  · exact cut_some
  · intro first
    cases found : cut pattern text with
    | none => exact absurd ⟨front, rest, first.occurs.symm⟩ (cut_none found)
    | some split =>
      obtain ⟨rfl, rfl⟩ := (cut_some found).unique first
      rfl

/-! ## Readings -/

/-- A text holds an expression block. -/
def HasBlock (text : Text) : Prop := ∃ front expr rest, text = front ++ opening ++ expr ++ closing ++ rest

/-- The blocks of a template, each with the literal text in front of it, and the literal
    text behind the last one. -/
inductive Reading : Text → List (Text × Text) → Text → Prop where
  | literal {text : Text} (plain : ¬HasBlock text) : Reading text [] text
  | block {text front after expr rest tail : Text} {blocks : List (Text × Text)} (opens : FirstAt opening text front after)
      (closes : FirstAt closing after expr rest) (reads : Reading rest blocks tail) :
      Reading text ((front, expr) :: blocks) tail

theorem hasBlock_of_first {after : Text} (opens : FirstAt opening text front after)
    (closes : FirstAt closing after expr rest) : HasBlock text :=
  ⟨front, expr, rest, by rw [opens.occurs, closes.occurs]; simp only [append_assoc]⟩

/-- In front of every block there is a leftmost opening, and a closing behind it. -/
theorem HasBlock.first (has : HasBlock text) :
    ∃ front after expr rest, FirstAt opening text front after ∧ FirstAt closing after expr rest := by
  obtain ⟨front, expr, rest, same⟩ := has
  cases opens : cut opening text with
  | none =>
    refine absurd ⟨front, expr ++ closing ++ rest, ?_⟩ (cut_none opens)
    rw [same]
    simp only [append_assoc]
  | some split =>
    obtain ⟨first, after⟩ := split
    have leftmost := cut_some opens
    refine ⟨first, after, ?_⟩
    cases closes : cut closing after with
    | some split => exact ⟨split.1, split.2, leftmost, cut_some closes⟩
    | none =>
      refine absurd ?_ (cut_none closes)
      -- the closing of the block is behind the leftmost opening
      have before := leftmost.leftmost front (expr ++ closing ++ rest) (by rw [same]; simp only [append_assoc])
      have behind : after = (text.drop (first.length + opening.length)) := by
        rw [leftmost.occurs, ← length_append, drop_left]
      have split : text = (front ++ opening) ++ (expr ++ closing ++ rest) := by rw [same]; simp only [append_assoc]
      refine ⟨(front ++ opening).drop (first.length + opening.length) ++ expr, rest, ?_⟩
      have dropped : ((front ++ opening) ++ (expr ++ closing ++ rest)).drop (first.length + opening.length) =
          (front ++ opening).drop (first.length + opening.length) ++ (expr ++ closing ++ rest) :=
        drop_append_of_le_length (by rw [length_append]; exact Nat.add_le_add_right before _)
      rw [behind, split, dropped]
      simp only [append_assoc]

theorem Reading.unique {tail tail' : Text} {blocks blocks' : List (Text × Text)}
    (one : Reading text blocks tail) (two : Reading text blocks' tail') :
    blocks = blocks' ∧ tail = tail' := by
  induction one generalizing blocks' tail' with
  | literal plain =>
    cases two with
    | literal => exact ⟨rfl, rfl⟩
    | block opens closes => exact absurd (hasBlock_of_first opens closes) plain
  | block opens closes _ ih =>
    cases two with
    | literal plain => exact absurd (hasBlock_of_first opens closes) plain
    | block opens' closes' reads' =>
      obtain ⟨rfl, rfl⟩ := opens.unique opens'
      obtain ⟨rfl, rfl⟩ := closes.unique closes'
      obtain ⟨rfl, rfl⟩ := ih reads'
      exact ⟨rfl, rfl⟩

theorem rest_length_lt {after : Text} (opens : FirstAt opening text front after)
    (closes : FirstAt closing after expr rest) : rest.length < text.length := by
  rw [opens.occurs, closes.occurs]
  simp [opening]
  omega

theorem Reading.exists (text : Text) : ∃ blocks tail, Reading text blocks tail := by
  induction length : text.length using Nat.strongRecOn generalizing text with
  | ind n ih =>
    by_cases has : HasBlock text
    · obtain ⟨front, after, expr, rest, opens, closes⟩ := has.first
      obtain ⟨blocks, tail, reads⟩ := ih rest.length (length ▸ rest_length_lt opens closes) rest rfl
      exact ⟨_, tail, .block opens closes reads⟩
    · exact ⟨[], text, .literal has⟩

/-! ## Meanings -/

section Meaning

variable (engine : Engine)

/-- The text of a reading: its blocks are evaluated in turn. -/
def renderBlocks : List (Text × Text) → Text → engine.Context → Text × engine.Context
  | [], tail, ctx => (tail, ctx)
  | (front, expr) :: blocks, tail, ctx =>
    let (value, ctx) := evalJs engine (Text.trim expr) ctx
    let (text, ctx) := renderBlocks blocks tail ctx
    (front ++ rendered value ++ text, ctx)

/-- What a template stands for. -/
inductive Meaning (template : Text) (ctx : engine.Context) : Json × engine.Context → Prop where
  | whole {expr : Text} (reads : Reading (Text.trim template) [([], expr)] []) :
      Meaning template ctx (evalJs engine (Text.trim expr) ctx)
  | mixed {blocks : List (Text × Text)} {tail : Text} (reads : Reading template blocks tail)
      (parts : ∀ expr, ¬Reading (Text.trim template) [([], expr)] []) :
      Meaning template ctx (.str (renderBlocks engine blocks tail ctx).1, (renderBlocks engine blocks tail ctx).2)

variable {engine} {template : Text} {ctx : engine.Context}

theorem Meaning.unique {result other : Json × engine.Context} (one : Meaning engine template ctx result)
    (two : Meaning engine template ctx other) : result = other := by
  cases one with
  | whole reads =>
    cases two with
    | whole reads' =>
      obtain ⟨same, -⟩ := reads.unique reads'
      obtain ⟨-, rfl⟩ := Prod.mk.inj (cons.inj same).1
      rfl
    | mixed _ parts => exact absurd reads (parts _)
  | mixed reads parts =>
    cases two with
    | whole reads' => exact absurd reads' (parts _)
    | mixed reads' _ =>
      obtain ⟨rfl, rfl⟩ := reads.unique reads'
      rfl

theorem Meaning.whole_or_text {result : Json × engine.Context} (meaning : Meaning engine template ctx result) :
    (∃ expr, Reading (Text.trim template) [([], expr)] []) ∨ ∃ text, result.1 = .str text := by
  cases meaning with
  | whole reads => exact .inl ⟨_, reads⟩
  | mixed => exact .inr ⟨_, rfl⟩

/-! ## The scan -/

theorem interpolate_plain {fuel : Nat} (plain : ¬HasBlock text) :
    interpolate engine fuel text ctx = (text, ctx) := by
  induction fuel generalizing text with
  | zero => rfl
  | succ fuel ih =>
    unfold interpolate
    split
    · rfl
    · rename_i literal after opens
      have leftmost := cut_some opens
      split
      · rename_i expr rest closes
        exact absurd (hasBlock_of_first leftmost (cut_some closes)) plain
      · have behind : ¬HasBlock after := by
          rintro ⟨front, expr, rest, same⟩
          refine plain ⟨literal ++ opening ++ front, expr, rest, ?_⟩
          rw [leftmost.occurs, same]
          simp only [append_assoc]
        rw [ih behind]
        show (literal ++ opening ++ after, ctx) = _
        rw [← leftmost.occurs]

theorem interpolate_reading {fuel : Nat} {tail : Text} {blocks : List (Text × Text)}
    (reads : Reading text blocks tail) (enough : text.length ≤ fuel) :
    interpolate engine fuel text ctx = renderBlocks engine blocks tail ctx := by
  induction reads generalizing fuel ctx with
  | literal plain => exact interpolate_plain plain
  | block opens closes _ ih =>
    have shorter := rest_length_lt opens closes
    cases fuel with
    | zero => omega
    | succ fuel =>
      have rest_enough := Nat.le_of_lt_succ (Nat.lt_of_lt_of_le shorter enough)
      unfold interpolate
      simp only [cut_eq_some_iff.mpr opens, cut_eq_some_iff.mpr closes, ih rest_enough]
      rfl

/-! ## White space around a template -/

theorem infix_dropWhile {space : Char → Bool} {c : Char} (visible : space c = false)
    (inside : c :: pattern <:+: text) : c :: pattern <:+: text.dropWhile space := by
  induction text with
  | nil => exact inside
  | cons d text ih =>
    by_cases blank : space d = true
    · rw [dropWhile_cons_of_pos blank]
      obtain front | later := infix_cons_iff.mp inside
      · obtain ⟨rest, same⟩ := front
        obtain ⟨rfl, -⟩ := cons.inj same
        exact nomatch blank.symm.trans visible
      · exact ih later
    · rw [dropWhile_cons_of_neg blank]
      exact inside

theorem infix_trim {c : Char} (visible : isWhitespace c = false) (inside : [c, c] <:+: text) :
    [c, c] <:+: Text.trim text := by
  have front := infix_dropWhile visible inside
  have back : [c, c] <:+: (text.dropWhile isWhitespace).reverse := reverse_infix.mp (by simpa using front)
  have both := infix_dropWhile visible back
  exact reverse_infix.mp (by simpa [Text.trim] using both)

theorem hasBlock_mono (has : HasBlock text) : opening <:+: text ∧ closing <:+: text := by
  obtain ⟨front, expr, rest, rfl⟩ := has
  refine ⟨⟨front, expr ++ closing ++ rest, ?_⟩, ⟨front ++ opening ++ expr, rest, rfl⟩⟩
  simp only [append_assoc]

/-! ## What the resolution does -/

/-- Where a template begins with opening and ends with closing braces, nothing closes its
    first block before its end. -/
def ClosesAtEnd (template : Text) : Prop :=
  ∀ expr, Text.trim template = opening ++ expr ++ closing → ¬closing <:+: expr ++ ['\x7d']

theorem firstAt_end : FirstAt closing (expr ++ closing) expr [] ↔ ¬closing <:+: expr ++ ['\x7d'] := by
  have one_more (expr : Text) : expr ++ closing = (expr ++ ['\x7d']) ++ ['\x7d'] := by simp [closing]
  constructor
  · rintro ⟨-, leftmost⟩ ⟨front, rest, same⟩
    have earlier := leftmost front (rest ++ ['\x7d']) (by rw [one_more, ← same, append_assoc])
    have short := congrArg length same
    simp [closing] at short
    omega
  · intro last
    refine ⟨(append_nil _).symm, fun front rest same => ?_⟩
    by_contra earlier
    have nonempty : rest ≠ [] := by
      rintro rfl
      have lengths := congrArg length same
      simp [closing] at lengths
      omega
    obtain ⟨before, c, rfl⟩ := (eq_nil_or_concat' rest).resolve_left nonempty
    rw [one_more, ← append_assoc] at same
    obtain ⟨inside, -⟩ := append_inj' same rfl
    exact last ⟨front, before, inside.symm⟩

theorem reading_whole :
    Reading text [([], expr)] [] ↔ text = opening ++ expr ++ closing ∧ ¬closing <:+: expr ++ ['\x7d'] := by
  rw [← firstAt_end]
  constructor
  · intro reads
    cases reads with
    | block opens closes rest =>
      cases rest
      have behind := closes.occurs
      rw [append_nil] at behind
      subst behind
      exact ⟨by rw [opens.occurs]; simp only [nil_append, append_assoc], closes⟩
  · rintro ⟨rfl, closes⟩
    have empty : ¬HasBlock ([] : Text) := by
      rintro ⟨front, expr, rest, same⟩
      simp [opening] at same
    refine .block ⟨?_, fun _ _ _ => Nat.zero_le _⟩ closes (.literal empty)
    simp only [nil_append, append_assoc]

/-- Without the shortcut the resolution is the reading. -/
theorem resolveString_mixed (parts : ∀ expr, Text.trim template ≠ opening ++ expr ++ closing) :
    Meaning engine template ctx (resolveString engine template ctx) := by
  have not_whole (expr : Text) : ¬Reading (Text.trim template) [([], expr)] [] :=
    fun reads => parts expr (reading_whole.mp reads).1
  have no_shortcut : (if opening.isPrefixOf (Text.trim template) then ((Text.trim template).drop 2).dropSuffix? closing
      else none) = none := by
    split
    · rename_i opens
      obtain ⟨rest, same⟩ := isPrefixOf_iff_prefix.mp opens
      rw [← same]
      refine Text.dropSuffix?_eq_none.mpr fun stem behind => parts stem ?_
      rw [← same, append_assoc]
      exact congrArg (opening ++ ·) behind
    · rfl
  obtain ⟨blocks, tail, reads⟩ := Reading.exists template
  unfold resolveString
  simp only [no_shortcut]
  split
  · rw [interpolate_reading reads (le_refl _)]
    exact .mixed reads not_whole
  · rename_i missing
    have plain : ¬HasBlock template := by
      intro has
      obtain ⟨opens, closes⟩ := hasBlock_mono has
      have found {pattern : Text} (inside : pattern <:+: Text.trim template) : (cut pattern (Text.trim template)).isSome = true := by
        cases cut_there : cut pattern (Text.trim template) with
        | none => exact absurd inside (cut_none cut_there)
        | some _ => rfl
      have opening_there : (cut opening (Text.trim template)).isSome = true := found (infix_trim (by decide) opens)
      have closing_there : (cut closing (Text.trim template)).isSome = true := found (infix_trim (by decide) closes)
      rw [opening_there, closing_there] at missing
      exact missing rfl
    exact .mixed (.literal plain) not_whole

theorem resolveString_whole (whole : Text.trim template = opening ++ expr ++ closing) :
    resolveString engine template ctx = evalJs engine (Text.trim expr) ctx := by
  have opens : opening.isPrefixOf (opening ++ expr ++ closing) = true := by
    rw [List.isPrefixOf_iff_prefix, append_assoc]
    exact prefix_append _ _
  have stripped : ((opening ++ expr ++ closing).drop 2).dropSuffix? closing = some expr :=
    Text.dropSuffix?_eq_some.mpr rfl
  unfold resolveString
  simp only [whole, opens, if_true, stripped]

end Meaning

/-- An engine to which every expression is null. -/
def nullEngine : Engine where
  Context := Unit
  context _ _ := ()
  eval _ _ := (.null, ())

/-- A template is resolved as it reads, whatever the engine, exactly where the first block of
    one that begins and ends with braces ends with it. -/
theorem resolves_iff (template : Text) :
    (∀ (engine : Engine) (ctx : engine.Context) (result : Json × engine.Context),
      Meaning engine template ctx result ↔ resolveString engine template ctx = result) ↔ ClosesAtEnd template := by
  constructor
  · intro resolves expr whole inside
    have value (ctx : nullEngine.Context) : resolveString nullEngine template ctx = (.null, ctx) := by
      rw [resolveString_whole whole]
      unfold evalJs
      split <;> rfl
    obtain ⟨other, reads⟩ | ⟨text, same⟩ := ((resolves nullEngine () _).mpr (value ())).whole_or_text
    · obtain ⟨same, closes⟩ := reading_whole.mp reads
      rw [whole, List.append_left_inj, List.append_right_inj] at same
      exact closes (same ▸ inside)
    · cases same
  · intro closes engine ctx result
    have meant : Meaning engine template ctx (resolveString engine template ctx) := by
      by_cases braced : ∃ expr, Text.trim template = opening ++ expr ++ closing
      · obtain ⟨expr, whole⟩ := braced
        rw [resolveString_whole whole]
        exact .whole (reading_whole.mpr ⟨whole, closes expr whole⟩)
      · exact resolveString_mixed fun expr whole => braced ⟨expr, whole⟩
    exact ⟨fun other => meant.unique other, fun same => same ▸ meant⟩

/-- An engine to which every expression is its own text. -/
def echoEngine : Engine where
  Context := Unit
  context _ _ := ()
  eval _ expr := (.str expr, ())

/-- A template that begins with one block and ends with another. -/
def twoBlocks : Text := opening ++ "a" ++ closing ++ "-" ++ opening ++ "b" ++ closing

theorem twoBlocks_reading : Reading twoBlocks [([], "a"), ("-", "b")] [] := by
  have empty : Reading [] [] [] := .literal fun has => absurd (infix_nil.mp (hasBlock_mono has).1) (cons_ne_nil _ _)
  exact .block (cut_some rfl) (cut_some rfl) (.block (cut_some rfl) (cut_some rfl) empty)

/-- The two blocks are evaluated as one expression. -/
theorem twoBlocks_misread : ¬∀ (engine : Engine) (ctx : engine.Context) (result : Json × engine.Context),
    Meaning engine twoBlocks ctx result ↔ resolveString engine twoBlocks ctx = result := by
  intro resolves
  have parts (expr : Text) : ¬Reading (Text.trim twoBlocks) [([], expr)] [] := by
    intro reads
    have trimmed : Text.trim twoBlocks = twoBlocks := by decide
    rw [trimmed] at reads
    exact nomatch (reads.unique twoBlocks_reading).1
  have meant : Meaning echoEngine twoBlocks () (.str "a-b".toList, ()) := .mixed twoBlocks_reading parts
  have resolved : (resolveString echoEngine twoBlocks ()).1 = .str ("a".toList ++ closing ++ "-".toList ++ opening ++ "b".toList) := rfl
  rw [(resolves echoEngine () _).mp meant] at resolved
  exact absurd (Json.str.inj resolved) (by decide)

end RootCx.Workflow.Expr
