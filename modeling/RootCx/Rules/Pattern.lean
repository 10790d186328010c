import RootCx.Lib.Except
import RootCx.Lib.Text

/-! # Patterns

`rules/pattern.rs`: the regular expressions that a rule may match with `~`.  The
tree is the one of `regex-syntax`, without its spans; the parser is a parameter.
PostgreSQL runs the pattern, so what is accepted is to have a reading among its
advanced regular expressions too.
-/

namespace RootCx.Rules.Pattern

open RootCx.Text List

/-! ## Trees -/

inductive SpecialLiteralKind where
  | bell
  | formFeed
  | tab
  | lineFeed
  | carriageReturn
  | verticalTab
  | space
  deriving DecidableEq, Repr

inductive HexLiteralKind where
  | x
  | unicodeShort
  | unicodeLong
  deriving DecidableEq, Repr

/-- How a character is written. -/
inductive LiteralKind where
  | verbatim
  | escapedMeta
  | superfluous
  | octal
  | hexFixed (kind : HexLiteralKind)
  | hexBrace (kind : HexLiteralKind)
  | special (kind : SpecialLiteralKind)
  deriving DecidableEq, Repr

structure Literal where
  kind : LiteralKind
  c : Char
  deriving DecidableEq, Repr

inductive AssertionKind where
  | startLine
  | endLine
  | startText
  | endText
  | wordBoundary
  | notWordBoundary
  | wordBoundaryStart
  | wordBoundaryEnd
  | wordBoundaryStartAngle
  | wordBoundaryEndAngle
  | wordBoundaryStartHalf
  | wordBoundaryEndHalf
  deriving DecidableEq, Repr

inductive ClassPerlKind where
  | digit
  | space
  | word
  deriving DecidableEq, Repr

inductive ClassAsciiKind where
  | alnum
  | alpha
  | ascii
  | blank
  | cntrl
  | digit
  | graph
  | lower
  | print
  | punct
  | space
  | upper
  | word
  | xdigit
  deriving DecidableEq, Repr

inductive ClassSetBinaryOpKind where
  | intersection
  | difference
  | symmetricDifference
  deriving DecidableEq, Repr

mutual

inductive ClassSet where
  | item (item : ClassSetItem)
  | binaryOp (kind : ClassSetBinaryOpKind) (lhs rhs : ClassSet)

inductive ClassSetItem where
  | empty
  | literal (literal : Literal)
  | range (first last : Literal)
  | ascii (kind : ClassAsciiKind) (negated : Bool)
  | unicode (negated : Bool) (name : Text)
  | perl (kind : ClassPerlKind) (negated : Bool)
  | bracketed (negated : Bool) (kind : ClassSet)
  | union (items : List ClassSetItem)

end

inductive RepetitionRange where
  | exactly (n : Nat)
  | atLeast (n : Nat)
  | bounded (m n : Nat)
  deriving DecidableEq, Repr

inductive RepetitionKind where
  | zeroOrOne
  | zeroOrMore
  | oneOrMore
  | range (range : RepetitionRange)
  deriving DecidableEq, Repr

/-- The items of a group's flags: a minus sign or a letter. -/
inductive FlagsItem where
  | negation
  | flag (letter : Char)
  deriving DecidableEq, Repr

inductive GroupKind where
  | captureIndex (index : Nat)
  | captureName (name : Text)
  | nonCapturing (flags : List FlagsItem)
  deriving DecidableEq, Repr

inductive Ast where
  | empty
  | flags (items : List FlagsItem)
  | literal (literal : Literal)
  | dot
  | assertion (kind : AssertionKind)
  | classUnicode (negated : Bool) (name : Text)
  | classPerl (kind : ClassPerlKind) (negated : Bool)
  | classBracketed (negated : Bool) (kind : ClassSet)
  | repetition (op : RepetitionKind) (greedy : Bool) (ast : Ast)
  | group (kind : GroupKind) (ast : Ast)
  | alternation (asts : List Ast)
  | concat (asts : List Ast)

/-! ## The validator -/

def MAX_PATTERN_CHARS : Nat := 128

def MAX_REPEAT : Nat := 100

def literalOk : LiteralKind → Except Text Unit
  | .verbatim | .escapedMeta => .ok ()
  | .special .tab | .special .lineFeed | .special .carriageReturn => .ok ()
  | _ => .error "only plain characters, escaped metacharacters and \\t \\n \\r are allowed"

mutual

def itemOk : ClassSetItem → Except Text Unit
  | .empty | .perl _ _ => .ok ()
  | .literal literal => literalOk literal.kind
  | .range first last => do
    literalOk first.kind
    literalOk last.kind
  | .ascii _ false => .ok ()
  | .ascii _ true => .error "negated POSIX classes are not allowed"
  | .unicode _ _ => .error "Unicode classes are not allowed"
  | .bracketed _ _ => .error "nested brackets are not allowed"
  | .union items => itemsOk items

def itemsOk : List ClassSetItem → Except Text Unit
  | [] => .ok ()
  | item :: items => do
    itemOk item
    itemsOk items

end

def classOk : ClassSet → Except Text Unit
  | .binaryOp _ _ _ => .error "class set operations are not allowed"
  | .item item => itemOk item

/-- The bound of a counted repetition that is looked at. -/
def RepetitionRange.last : RepetitionRange → Nat
  | .exactly n | .atLeast n | .bounded _ n => n

def opOk : RepetitionKind → Except Text Unit
  | .range range => if range.last > MAX_REPEAT then .error "counted repetition is limited to 100" else .ok ()
  | _ => .ok ()

mutual

def walk (repeated : Bool) : Ast → Except Text Unit
  | .empty | .dot | .classPerl _ _ => .ok ()
  | .flags _ => .error "inline flags are not allowed"
  | .literal literal => literalOk literal.kind
  | .assertion .startLine | .assertion .endLine => .ok ()
  | .assertion _ => .error "only the ^ and $ anchors are allowed"
  | .classUnicode _ _ => .error "Unicode classes are not allowed"
  | .classBracketed _ kind => classOk kind
  | .repetition op _ ast =>
    if repeated then .error "a quantifier cannot apply to an expression that already has one"
    else do
      opOk op
      walk true ast
  | .group (.captureIndex _) ast => walk repeated ast
  | .group (.nonCapturing []) ast => walk repeated ast
  | .group (.nonCapturing _) _ => .error "inline flags are not allowed"
  | .group (.captureName _) _ => .error "named groups are not allowed"
  | .alternation asts => walkAll repeated asts
  | .concat asts => walkAll repeated asts

def walkAll (repeated : Bool) : List Ast → Except Text Unit
  | [] => .ok ()
  | ast :: asts => do
    walk repeated ast
    walkAll repeated asts

end

/-- `validate`, with the parser and the kinds of its errors. -/
def validate (parse : Text → Except Text Ast) (pattern : Text) : Except Text Unit :=
  let refused (why : Text) : Text := "pattern '" ++ pattern ++ "': " ++ why
  if pattern = [] then .error (refused "the pattern is empty")
  else if pattern.length > MAX_PATTERN_CHARS then
    .error (refused ("patterns are limited to " ++ Nat.toDigits 10 MAX_PATTERN_CHARS ++ " characters"))
  else if "***" <+: pattern then .error (refused "'***' directors are not allowed")
  else do
    let ast ← (parse pattern).mapError refused
    (walk false ast).mapError refused

/-! ## Advanced regular expressions

PostgreSQL's documented constructs.  A bound goes from 0 to 255, the first not above
the second. -/

def DUPMAX : Nat := 255

structure Bounds where
  least : Nat
  most : Option Nat
  small : least ≤ DUPMAX
  ordered : ∀ bound ∈ most, least ≤ bound ∧ bound ≤ DUPMAX

inductive AreItem where
  | char (c : Char)
  | range (first last : Char)
  | named (kind : ClassAsciiKind)
  | escape (kind : ClassPerlKind) (negated : Bool)

inductive AreConstruct where
  | emptyBranch
  | anyCharacter
  | character (c : Char)
  | classEscape (kind : ClassPerlKind) (negated : Bool)
  | bracket (negated : Bool) (items : List AreItem)
  | startConstraint
  | endConstraint
  | quantifier (bounds : Bounds) (greedy : Bool)
  | capturing
  | nonCapturing
  | alternatives
  | sequence

/-- `least` to `most` times, where these bounds can be written. -/
def boundsOf (least : Nat) (most : Option Nat) : Option Bounds :=
  if fits : least ≤ DUPMAX ∧ ∀ bound ∈ most, least ≤ bound ∧ bound ≤ DUPMAX then some ⟨least, most, fits.1, fits.2⟩
  else none

def RepetitionKind.toAre : RepetitionKind → Option Bounds
  | .zeroOrOne => boundsOf 0 (some 1)
  | .zeroOrMore => boundsOf 0 none
  | .oneOrMore => boundsOf 1 none
  | .range (.exactly n) => boundsOf n (some n)
  | .range (.atLeast n) => boundsOf n none
  | .range (.bounded m n) => boundsOf m (some n)

/-- A character that both write alike: itself, behind a backslash where it would be
    an operator, or by one of three escapes. -/
def Literal.toAre (literal : Literal) : Option Char :=
  match literal.kind with
  | .verbatim | .escapedMeta => some literal.c
  | .special .tab | .special .lineFeed | .special .carriageReturn => some literal.c
  -- `\x41` is an escape of any number of digits there, and `\/` may be none at all.
  | _ => none

mutual

def ClassSetItem.toAre : ClassSetItem → Option (List AreItem)
  | .empty => some []
  | .literal literal => literal.toAre.map fun c => [.char c]
  | .range first last => first.toAre.bind fun first => last.toAre.map fun last => [.range first last]
  | .ascii kind false => some [.named kind]
  | .perl kind negated => some [.escape kind negated]
  | .union items => itemsToAre items
  | .ascii _ true | .unicode _ _ | .bracketed _ _ => none

def itemsToAre : List ClassSetItem → Option (List AreItem)
  | [] => some []
  | item :: items => item.toAre.bind fun first => (itemsToAre items).map fun rest => first ++ rest

end

/-- The construct with the meaning of a node, where there is one.  How nodes are put
    together is not asked: a quantifier behind an anchor, as in `^*`, is a node of the
    tree, and no regular expression of PostgreSQL. -/
def Ast.construct : Ast → Option AreConstruct
  | .empty => some .emptyBranch
  | .dot => some .anyCharacter
  | .literal written => written.toAre.map fun c => .character c
  | .assertion .startLine => some .startConstraint
  | .assertion .endLine => some .endConstraint
  | .classPerl kind negated => some (.classEscape kind negated)
  | .classBracketed negated (.item item) => item.toAre.map (.bracket negated)
  | .repetition op greedy _ => op.toAre.map fun bounds => .quantifier bounds greedy
  | .group (.captureIndex _) _ => some .capturing
  | .group (.nonCapturing []) _ => some .nonCapturing
  | .alternation _ => some .alternatives
  | .concat _ => some .sequence
  | _ => none

/-! ## The nodes of a tree -/

mutual

/-- A tree and every tree below it. -/
def Ast.nodes : Ast → List Ast
  | .repetition op greedy ast => .repetition op greedy ast :: ast.nodes
  | .group kind ast => .group kind ast :: ast.nodes
  | .alternation asts => .alternation asts :: allNodes asts
  | .concat asts => .concat asts :: allNodes asts
  | ast => [ast]

def allNodes : List Ast → List Ast
  | [] => []
  | ast :: asts => ast.nodes ++ allNodes asts

end

def Ast.isRepetition : Ast → Bool
  | .repetition _ _ _ => true
  | _ => false

def RepetitionRange.bounds : RepetitionRange → List Nat
  | .exactly n | .atLeast n => [n]
  | .bounded m n => [m, n]

/-- `{m,n}` with `m` above `n` is an error of the parser. -/
def RepetitionRange.Ordered : RepetitionRange → Prop
  | .exactly _ | .atLeast _ => True
  | .bounded m n => m ≤ n

/-! ## What the walk reaches -/

section Walk

variable {repeated : Bool}

theorem walk_repetition {op : RepetitionKind} {greedy : Bool} {ast : Ast}
    (walked : walk repeated (.repetition op greedy ast) = .ok ()) :
    repeated = false ∧ opOk op = .ok () ∧ walk true ast = .ok () := by
  unfold walk at walked
  split at walked
  · cases walked
  · next once =>
    obtain ⟨_, bounds, inner⟩ := bind_eq_ok.mp walked
    exact ⟨by simpa using once, bounds, inner⟩

theorem walk_group {kind : GroupKind} {ast : Ast} (walked : walk repeated (.group kind ast) = .ok ()) :
    walk repeated ast = .ok () := by
  unfold walk at walked
  split at walked
  all_goals first
    | (cases walked; done)
    | simp_all

theorem walkAll_cons {ast : Ast} {asts : List Ast} (walked : walkAll repeated (ast :: asts) = .ok ()) :
    walk repeated ast = .ok () ∧ walkAll repeated asts = .ok () := by
  unfold walkAll at walked
  obtain ⟨_, first, rest⟩ := bind_eq_ok.mp walked
  exact ⟨first, rest⟩

end Walk

mutual

/-- Every node below an accepted tree was walked to, with the flag of the quantifiers
    above it: a set flag stays set. -/
theorem walk_nodes {repeated : Bool} : ∀ {ast : Ast}, walk repeated ast = .ok () →
    ∀ node ∈ ast.nodes, ∃ below, (repeated = true → below = true) ∧ walk below node = .ok ()
  | .repetition op greedy ast, h, node, mem => by
    rcases mem_cons.mp mem with rfl | mem
    · exact ⟨repeated, id, h⟩
    · have inner := walk_repetition h
      have ⟨below, kept, walked⟩ := walk_nodes inner.2.2 node mem
      exact ⟨below, fun _ => kept rfl, walked⟩
  | .group kind ast, h, node, mem => by
    rcases mem_cons.mp mem with rfl | mem
    · exact ⟨repeated, id, h⟩
    · exact walk_nodes (walk_group h) node mem
  | .alternation asts, h, node, mem => by
    rcases mem_cons.mp mem with rfl | mem
    · exact ⟨repeated, id, h⟩
    · exact walkAll_nodes (by simpa [walk] using h) node mem
  | .concat asts, h, node, mem => by
    rcases mem_cons.mp mem with rfl | mem
    · exact ⟨repeated, id, h⟩
    · exact walkAll_nodes (by simpa [walk] using h) node mem
  | .empty, h, node, mem | .flags _, h, node, mem | .literal _, h, node, mem | .dot, h, node, mem
  | .assertion _, h, node, mem | .classUnicode _ _, h, node, mem | .classPerl _ _, h, node, mem
  | .classBracketed _ _, h, node, mem => by
    rcases mem_singleton.mp mem with rfl
    exact ⟨repeated, id, h⟩

theorem walkAll_nodes {repeated : Bool} : ∀ {asts : List Ast}, walkAll repeated asts = .ok () →
    ∀ node ∈ allNodes asts, ∃ below, (repeated = true → below = true) ∧ walk below node = .ok ()
  | [], _, _, mem => nomatch mem
  | ast :: asts, h, node, mem => by
    have ⟨first, rest⟩ := walkAll_cons h
    rcases mem_append.mp mem with mem | mem
    · exact walk_nodes first node mem
    · exact walkAll_nodes rest node mem

end

theorem walk_once {ast : Ast} (walked : walk true ast = .ok ()) : ∀ node ∈ ast.nodes, node.isRepetition = false := by
  intro node mem
  obtain ⟨below, kept, walked⟩ := walk_nodes walked node mem
  cases node with
  | repetition op greedy ast => exact absurd (walk_repetition walked).1 (by simp [kept rfl])
  | _ => rfl

theorem opOk_range {range : RepetitionRange} (fits : opOk (.range range) = .ok ()) : range.last ≤ MAX_REPEAT := by
  by_cases above : range.last > MAX_REPEAT
  · rw [show opOk (.range range) = .error _ from if_pos above] at fits
    cases fits
  · exact Nat.not_lt.mp above

theorem bounds_le {range : RepetitionRange} (fits : opOk (.range range) = .ok ()) (ordered : range.Ordered) :
    ∀ bound ∈ range.bounds, bound ≤ MAX_REPEAT := by
  have last := opOk_range fits
  cases range with
  | exactly n | atLeast n => simpa [RepetitionRange.bounds, RepetitionRange.last] using last
  | bounded m n =>
    have first : m ≤ MAX_REPEAT := Nat.le_trans ordered last
    simpa [RepetitionRange.bounds] using ⟨first, last⟩

/-! ## Constructs -/

theorem boundsOf_isSome {least : Nat} {most : Option Nat} (small : least ≤ DUPMAX)
    (ordered : ∀ bound ∈ most, least ≤ bound ∧ bound ≤ DUPMAX) : (boundsOf least most).isSome := by
  unfold boundsOf
  rw [dif_pos ⟨small, ordered⟩]
  rfl

theorem toAre_of_opOk {op : RepetitionKind} (fits : opOk op = .ok ()) (ordered : ∀ range, op = .range range → range.Ordered) :
    op.toAre.isSome := by
  have limit : MAX_REPEAT ≤ DUPMAX := by decide
  cases op with
  | zeroOrOne | zeroOrMore | oneOrMore => exact boundsOf_isSome (by decide) (by simp [DUPMAX])
  | range range =>
    have within := bounds_le fits (ordered range rfl)
    cases range with
    | exactly n | atLeast n =>
      have : n ≤ MAX_REPEAT := within n (by simp [RepetitionRange.bounds])
      exact boundsOf_isSome (by omega) (by simp; try omega)
    | bounded m n =>
      have : n ≤ MAX_REPEAT := within n (by simp [RepetitionRange.bounds])
      have : m ≤ n := ordered _ rfl
      exact boundsOf_isSome (by omega) (by simp; omega)

theorem toAre_of_literalOk {literal : Literal} (fits : literalOk literal.kind = .ok ()) : literal.toAre.isSome := by
  obtain ⟨kind, c⟩ := literal
  unfold literalOk at fits
  split at fits
  all_goals first
    | (cases fits; done)
    | simp_all [Literal.toAre]

mutual

theorem toAre_of_itemOk : ∀ {item : ClassSetItem}, itemOk item = .ok () → item.toAre.isSome
  | .empty, _ | .perl _ _, _ | .ascii _ false, _ => rfl
  | .literal literal, h => by
    have read := toAre_of_literalOk (by simpa [itemOk] using h)
    simpa [ClassSetItem.toAre] using read
  | .range first last, h => by
    obtain ⟨_, start, stop⟩ := bind_eq_ok.mp (show (do literalOk first.kind; literalOk last.kind) = _ from h)
    have ⟨c, low⟩ := Option.isSome_iff_exists.mp (toAre_of_literalOk start)
    have ⟨d, high⟩ := Option.isSome_iff_exists.mp (toAre_of_literalOk stop)
    simp [ClassSetItem.toAre, low, high]
  | .union items, h => by
    have read := itemsToAre_of_itemsOk (by simpa [itemOk] using h)
    simpa [ClassSetItem.toAre] using read

theorem itemsToAre_of_itemsOk : ∀ {items : List ClassSetItem}, itemsOk items = .ok () → (itemsToAre items).isSome
  | [], _ => rfl
  | item :: items, h => by
    obtain ⟨_, first, rest⟩ := bind_eq_ok.mp (show (do itemOk item; itemsOk items) = _ from h)
    have ⟨here, read⟩ := Option.isSome_iff_exists.mp (toAre_of_itemOk first)
    have ⟨there, readRest⟩ := Option.isSome_iff_exists.mp (itemsToAre_of_itemsOk rest)
    simp [itemsToAre, read, readRest]

end

/-- What the walk accepts of a node itself has a construct, whatever is below it. -/
theorem construct_of_walk {repeated : Bool} {node : Ast} (walked : walk repeated node = .ok ())
    (ordered : ∀ range greedy inner, node = .repetition (.range range) greedy inner → range.Ordered) :
    node.construct.isSome := by
  cases node with
  | empty | dot | classPerl | alternation | concat => rfl
  | flags | classUnicode => cases walked
  | literal literal =>
    have read := toAre_of_literalOk (by simpa [walk] using walked)
    simpa [Ast.construct] using read
  | assertion kind =>
    cases kind with
    | startLine | endLine => rfl
    | _ => cases walked
  | classBracketed negated kind =>
    cases kind with
    | binaryOp => cases walked
    | item item =>
      have read := toAre_of_itemOk (by simpa [walk, classOk] using walked)
      simpa [Ast.construct] using read
  | repetition op greedy ast =>
    have read := toAre_of_opOk (walk_repetition walked).2.1 fun range same => ordered range greedy ast (by rw [same])
    simpa [Ast.construct] using read
  | group kind ast =>
    cases kind with
    | captureIndex index => rfl
    | captureName name => cases walked
    | nonCapturing flags =>
      cases flags with
      | nil => rfl
      | cons => cases walked

/-! ## Accepted patterns -/

theorem validate_ok {parse : Text → Except Text Ast} {pattern : Text} (accepted : validate parse pattern = .ok ()) :
    ∃ ast, parse pattern = .ok ast ∧ walk false ast = .ok () := by
  unfold validate at accepted
  split at accepted
  · cases accepted
  split at accepted
  · cases accepted
  split at accepted
  · cases accepted
  · obtain ⟨ast, parsed, walked⟩ := bind_eq_ok.mp accepted
    exact ⟨ast, mapError_eq_ok.mp parsed, mapError_eq_ok.mp walked⟩

/-- What an accepted tree keeps to: star height one, bounds within the limit, and
    nodes that PostgreSQL has constructs for. -/
structure Accepted (ast : Ast) : Prop where
  once : ∀ op greedy inner, Ast.repetition op greedy inner ∈ ast.nodes → ∀ node ∈ inner.nodes, node.isRepetition = false
  limited : ∀ range greedy inner, Ast.repetition (.range range) greedy inner ∈ ast.nodes →
    ∀ bound ∈ range.bounds, bound ≤ MAX_REPEAT
  shared : ∀ node ∈ ast.nodes, node.construct.isSome

/-- The parser refuses a repetition whose first bound is above its second; nothing else
    of it is relied on. -/
theorem accepted_of_validate (parse : Text → Except Text Ast)
    (ordered : ∀ pattern ast, parse pattern = .ok ast → ∀ range greedy inner,
      Ast.repetition (.range range) greedy inner ∈ ast.nodes → range.Ordered)
    (pattern : Text) (accepted : validate parse pattern = .ok ()) :
    ∃ ast, parse pattern = .ok ast ∧ Accepted ast := by
  obtain ⟨ast, parsed, walked⟩ := validate_ok accepted
  refine ⟨ast, parsed, ?_, ?_, ?_⟩
  · intro op greedy inner mem
    obtain ⟨_, _, there⟩ := walk_nodes walked _ mem
    exact walk_once (walk_repetition there).2.2
  · intro range greedy inner mem
    obtain ⟨_, _, there⟩ := walk_nodes walked _ mem
    exact bounds_le (walk_repetition there).2.1 (ordered pattern ast parsed range greedy inner mem)
  · intro node mem
    obtain ⟨_, _, there⟩ := walk_nodes walked node mem
    exact construct_of_walk there fun range greedy inner same =>
      ordered pattern ast parsed range greedy inner (same ▸ mem)

/-- `^[A-Z]{1,2}$`, and nothing else. -/
def parseCode (pattern : Text) : Except Text Ast :=
  if pattern = "^[A-Z]{1,2}$" then
    .ok (.concat [.assertion .startLine,
      .repetition (.range (.bounded 1 2)) true
        (.classBracketed false (.item (.range ⟨.verbatim, 'A'⟩ ⟨.verbatim, 'Z'⟩))),
      .assertion .endLine])
  else .error "unsupported"

theorem parseCode_ordered (pattern : Text) (ast : Ast) (parsed : parseCode pattern = .ok ast) (range : RepetitionRange)
    (greedy : Bool) (inner : Ast) (mem : Ast.repetition (.range range) greedy inner ∈ ast.nodes) : range.Ordered := by
  unfold parseCode at parsed
  split at parsed
  · cases parsed
    simp [Ast.nodes, allNodes] at mem
    rw [mem.1]
    show 1 ≤ 2
    decide
  · cases parsed

theorem accepted_of_validate_code : ∃ ast, parseCode "^[A-Z]{1,2}$".toList = .ok ast ∧ Accepted ast :=
  accepted_of_validate parseCode parseCode_ordered _ (by rfl)

end RootCx.Rules.Pattern
