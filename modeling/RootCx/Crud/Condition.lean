import RootCx.Lib.Truth
import RootCx.Postgres.Pieces

/-! # SQL conditions

The conditions a filter can become, as PostgreSQL reads and evaluates them: tests
of one column, joined by `AND` below `OR`, with `NOT` and parentheses.  The values
and the operators on them are a parameter.

A `hole` is an operand that is not there.  The reader never returns one; it stands
for text that a generator has left out.
-/

namespace RootCx.Crud

open RootCx.Text RootCx.Postgres

/-! ## Syntax -/

inductive Cast where
  | float8
  | numeric
  | boolean
  | date
  | timestamptz
  | uuid
  | jsonb
  | text
  | textArray
  | float8Array
  deriving DecidableEq, Repr

inductive Source where
  | column (name : Text)
  | param (index : Nat)
  deriving DecidableEq, Repr

structure Scalar where
  source : Source
  cast : Option Cast
  deriving DecidableEq, Repr

inductive Term where
  | scalar (value : Scalar)
  | array (items : List Scalar) (cast : Option Cast)
  deriving DecidableEq, Repr

inductive CompareOp where
  | eq
  | ne
  | gt
  | gte
  | lt
  | lte
  | like
  | ilike
  | contains
  deriving DecidableEq, Repr

inductive Test where
  | isNull (value : Scalar) (negated : Bool)
  | inList (value : Scalar) (items : List Scalar) (negated : Bool)
  | compare (op : CompareOp) (value : Scalar) (other : Term)
  deriving DecidableEq, Repr

inductive Atom where
  | hole
  | const (value : Bool)
  | test (test : Test)
  | not (atom : Atom)
  -- conjunctions, joined by `OR`, in parentheses
  | group (choices : List (List Atom))

mutual

/-- Recursion over a condition, with the results for the members of a group. -/
def Atom.fold {β : Type} (hole : β) (const : Bool → β) (test : Test → β) (not : β → β)
    (group : List (List β) → β) : Atom → β
  | .hole => hole
  | .const value => const value
  | .test t => test t
  | .not atom => not (atom.fold hole const test not group)
  | .group choices => group (foldChoices hole const test not group choices)

def foldAtoms {β : Type} (hole : β) (const : Bool → β) (test : Test → β) (not : β → β)
    (group : List (List β) → β) : List Atom → List β
  | [] => []
  | atom :: rest => atom.fold hole const test not group :: foldAtoms hole const test not group rest

def foldChoices {β : Type} (hole : β) (const : Bool → β) (test : Test → β) (not : β → β)
    (group : List (List β) → β) : List (List Atom) → List (List β)
  | [] => []
  | atoms :: rest =>
    foldAtoms hole const test not group atoms :: foldChoices hole const test not group rest

end

section Fold

variable {β : Type} {hole : β} {const : Bool → β} {test : Test → β} {not : β → β}
  {group : List (List β) → β}

theorem foldAtoms_eq (atoms : List Atom) :
    foldAtoms hole const test not group atoms = atoms.map (Atom.fold hole const test not group) := by
  induction atoms with
  | nil => rfl
  | cons atom rest ih => rw [foldAtoms, ih, List.map_cons]

theorem fold_group (choices : List (List Atom)) :
    (Atom.group choices).fold hole const test not group =
      group (choices.map (·.map (Atom.fold hole const test not group))) := by
  have lists (choices : List (List Atom)) : foldChoices hole const test not group choices =
      choices.map (·.map (Atom.fold hole const test not group)) := by
    induction choices with
    | nil => rfl
    | cons atoms rest ih =>
      rw [foldChoices, ih, foldAtoms_eq, List.map_cons]
  rw [Atom.fold, lists]

end Fold

/-- Induction over a condition, with one hypothesis for all members of a group. -/
@[induction_eliminator]
theorem Atom.induction {P : Atom → Prop} (hole : P .hole) (const : ∀ value, P (.const value))
    (test : ∀ test, P (.test test)) (not : ∀ atom, P atom → P (.not atom))
    (group : ∀ choices, (∀ atoms ∈ choices, ∀ atom ∈ atoms, P atom) → P (.group choices))
    (atom : Atom) : P atom := by
  refine @Atom.rec P (fun choices => ∀ atoms ∈ choices, ∀ atom ∈ atoms, P atom)
    (fun atoms => ∀ atom ∈ atoms, P atom) hole const test not group ?_ ?_ ?_ ?_ atom
  · exact fun _ mem => nomatch mem
  · intro head tail first others atoms mem
    obtain rfl | older := List.mem_cons.mp mem
    · exact first
    · exact others atoms older
  · exact fun _ mem => nomatch mem
  · intro head tail first others atom mem
    obtain rfl | older := List.mem_cons.mp mem
    · exact first
    · exact others atom older

/-! ## Text and tokens -/

def Cast.word : Cast → Text
  | .float8 | .float8Array => "float8"
  | .numeric => "numeric"
  | .boolean => "boolean"
  | .date => "date"
  | .timestamptz => "timestamptz"
  | .uuid => "uuid"
  | .jsonb => "jsonb"
  | .text | .textArray => "text"

def Cast.isArray : Cast → Bool
  | .textArray | .float8Array => true
  | _ => false

def castPieces : Option Cast → List Piece
  | none => []
  | some cast => glued (.punct "::") :: glued (.word cast.word) ::
      if cast.isArray then [glued (.punct "["), glued (.punct "]")] else []

def Source.body : Source → Body
  | .column name => .ident name
  | .param index => .param (Nat.toDigits 10 index)

def scalarPieces (space : Bool) (value : Scalar) : List Piece :=
  ⟨space, value.source.body⟩ :: castPieces value.cast

def itemPieces : List Scalar → List Piece
  | [] => []
  | item :: rest => glued (.punct ",") :: (scalarPieces true item ++ itemPieces rest)

def listPieces : List Scalar → List Piece
  | [] => []
  | item :: rest => scalarPieces false item ++ itemPieces rest

def termPieces : Term → List Piece
  | .scalar value => scalarPieces true value
  | .array items cast => spaced (.word "ARRAY") :: glued (.punct "[") ::
      (listPieces items ++ glued (.punct "]") :: castPieces cast)

def CompareOp.body : CompareOp → Body
  | .eq => .op "="
  | .ne => .op "!="
  | .gt => .op ">"
  | .gte => .op ">="
  | .lt => .op "<"
  | .lte => .op "<="
  | .like => .word "LIKE"
  | .ilike => .word "ILIKE"
  | .contains => .op "@>"

/-- The word `NOT` of a negated test. -/
def notPieces (negated : Bool) : List Piece := if negated then [spaced (.word "NOT")] else []

def testPieces : Test → List Piece
  | .isNull value negated => scalarPieces false value ++
      spaced (.word "IS") :: (notPieces negated ++ [spaced (.word "NULL")])
  | .inList value items negated => scalarPieces false value ++ (notPieces negated ++
      spaced (.word "IN") :: openParen true :: (listPieces items ++ [closeParen]))
  | .compare op value other =>
      scalarPieces false value ++ spaced op.body :: termPieces other

def choicesText (choices : List (List Text)) : Text :=
  join " OR " (choices.map (join " AND "))

def constText (value : Bool) : Text := (if value then "TRUE" else "FALSE").toList

def Atom.text : Atom → Text :=
  Atom.fold [] constText (fun t => render (testPieces t)) ("NOT " ++ ·)
    fun choices => "(" ++ choicesText choices ++ ")"

/-- Parts with a separator between each two. -/
def separated (separator : Token) : List (List Token) → List Token
  | [] => []
  | [part] => part
  | part :: rest => part ++ separator :: separated separator rest

def kw (name : String) : Token := .word name.toList

def sym (text : String) : Token := .sym text.toList

def choicesToks (choices : List (List (List Token))) : List Token :=
  separated (kw "or") (choices.map (separated (kw "and")))

def Atom.toks : Atom → List Token :=
  Atom.fold [] (fun value => [kw (if value then "true" else "false")])
    (fun t => tokens (testPieces t)) (kw "not" :: ·)
    fun choices => sym "(" :: (choicesToks choices ++ [sym ")"])

/-! ## The reader -/

abbrev Reader (α : Type) := List Token → Option (α × List Token)

/-- Items with a separator between each two, `fuel` of them at most. -/
def readSep {α : Type} (separator : Token) (item : Reader α) : Nat → Reader (List α)
  | 0, _ => none
  | fuel + 1, toks => do
    let (first, rest) ← item toks
    match rest with
    | [] => some ([first], [])
    | tok :: more =>
      if tok = separator then (readSep separator item fuel more).map fun (items, rest) => (first :: items, rest)
      else some ([first], tok :: more)

def readMany {α : Type} (separator : Token) (item : Reader α) : Reader (List α) := fun toks =>
  readSep separator item (toks.length + 1) toks

def allCasts : List Cast :=
  [.float8, .numeric, .boolean, .date, .timestamptz, .uuid, .jsonb, .text, .textArray, .float8Array]

def castOfWord (word : Text) (array : Bool) : Option Cast :=
  allCasts.find? fun cast => cast.word == word && cast.isArray == array

def readCast : Reader (Option Cast)
  | .sym mark :: .word word :: rest =>
    if mark = "::" then
      match rest with
      | .sym opened :: .sym closed :: more =>
        if opened = "[" ∧ closed = "]" then
          (castOfWord word true).map fun cast => (some cast, more)
        else (castOfWord word false).map fun cast => (some cast, rest)
      | _ => (castOfWord word false).map fun cast => (some cast, rest)
    else some (none, .sym mark :: .word word :: rest)
  | toks => some (none, toks)

def readSource : Reader Source
  | .quoted name :: rest => some (.column name, rest)
  | .param index :: rest => some (.param (Nat.ofDigitChars 10 index 0), rest)
  | _ => none

def readScalar : Reader Scalar := fun toks => do
  let (source, rest) ← readSource toks
  let (cast, rest) ← readCast rest
  some (⟨source, cast⟩, rest)

/-- A list of scalars up to the closing token. -/
def readList (close : Token) : Reader (List Scalar) := fun toks => do
  let (items, rest) ← readMany (sym ",") readScalar toks
  match rest with
  | tok :: rest => if tok = close then some (items, rest) else none
  | [] => none

def readTerm : Reader Term
  | .word name :: .sym mark :: rest =>
    if name = "array" ∧ mark = "[" then do
      let (items, rest) ← readList (sym "]") rest
      let (cast, rest) ← readCast rest
      some (.array items cast, rest)
    else none
  | toks => (readScalar toks).map fun (value, rest) => (.scalar value, rest)

def allCompareOps : List CompareOp := [.eq, .ne, .gt, .gte, .lt, .lte, .like, .ilike, .contains]

def compareOpOf (tok : Token) : Option CompareOp := allCompareOps.find? fun op => op.body.token = tok

/-- `IN` and its list. -/
def readIn (value : Scalar) (negated : Bool) : Reader Test
  | tok :: opened :: rest =>
    if tok = kw "in" ∧ opened = sym "(" then
      (readList (sym ")") rest).map fun (items, rest) => (.inList value items negated, rest)
    else none
  | _ => none

def readTest : Reader Test := fun toks => do
  let (value, rest) ← readScalar toks
  match rest with
  | tok :: rest =>
    if tok = kw "is" then
      match rest with
      | null :: more =>
        if null = kw "null" then some (.isNull value false, more)
        else if null = kw "not" ∧ more.head? = some (kw "null") then some (.isNull value true, more.tail)
        else none
      | [] => none
    else if tok = kw "not" then readIn value true rest
    else if tok = kw "in" then readIn value false (tok :: rest)
    else do
      let op ← compareOpOf tok
      let (other, rest) ← readTerm rest
      some (.compare op value other, rest)
  | [] => none

/-- Conjunctions joined by `OR`. -/
def readChoices (atom : Reader Atom) : Reader (List (List Atom)) :=
  readMany (kw "or") (readMany (kw "and") atom)

def readAtom : Nat → Reader Atom
  | 0, _ => none
  | _ + 1, [] => none
  | depth + 1, tok :: rest =>
    if tok = kw "not" then (readAtom depth rest).map fun (atom, rest) => (.not atom, rest)
    else if tok = kw "true" then some (.const true, rest)
    else if tok = kw "false" then some (.const false, rest)
    else if tok = sym "(" then do
      let (choices, rest) ← readChoices (readAtom depth) rest
      match rest with
      | close :: rest => if close = sym ")" then some (.group choices, rest) else none
      | [] => none
    else (readTest (tok :: rest)).map fun (test, rest) => (.test test, rest)

/-- A whole condition. -/
def readCondition (text : Text) : Option (List (List Atom)) :=
  match lex text with
  | none => none
  | some toks =>
    match readChoices (readAtom toks.length) toks with
    | some (choices, []) => some choices
    | _ => none

/-! ## Evaluation -/

/-- What PostgreSQL makes of bound strings, casts and operators. -/
structure Server where
  Value : Type
  text : Text → Value
  cast : Cast → Value → Value
  array : List (Option Value) → Value
  holds : CompareOp → Value → Value → Bool

section Evaluation

variable (server : Server) (row : Text → Option server.Value) (params : Nat → Option Text)

def castValue (cast : Option Cast) (value : server.Value) : server.Value :=
  cast.elim value fun cast => server.cast cast value

def Scalar.eval (value : Scalar) : Option server.Value :=
  (match value.source with
    | .column name => row name
    | .param index => (params index).map server.text).map (castValue server value.cast)

def Term.eval : Term → Option server.Value
  | .scalar value => value.eval server row params
  | .array items cast =>
    some (castValue server cast (server.array (items.map fun item => item.eval server row params)))

def compareValues (op : CompareOp) : Option server.Value → Option server.Value → Truth :=
  Truth.compare (server.holds op)

/-- The negation of a negated test. -/
def negateIf (negated : Bool) (truth : Truth) : Truth := if negated then truth.not else truth

def Test.eval : Test → Truth
  | .isNull value negated => negateIf negated (some (value.eval server row params).isNone)
  | .inList value items negated =>
    negateIf negated (Truth.any (items.map fun item =>
      compareValues server .eq (value.eval server row params) (item.eval server row params)))
  | .compare op value other =>
    compareValues server op (value.eval server row params) (other.eval server row params)

def choicesEval (choices : List (List Truth)) : Truth := Truth.any (choices.map Truth.all)

def Atom.eval : Atom → Truth :=
  Atom.fold (some true) some (Test.eval server row params) Truth.not choicesEval

end Evaluation

/-! ## Columns and holes -/

def Scalar.columns (value : Scalar) : List Text :=
  match value.source with
  | .column name => [name]
  | .param _ => []

def Test.columns : Test → List Text
  | .isNull value _ => value.columns
  | .inList value items _ => value.columns ++ items.flatMap Scalar.columns
  | .compare _ value (.scalar other) => value.columns ++ other.columns
  | .compare _ value (.array items _) => value.columns ++ items.flatMap Scalar.columns

def Atom.columns : Atom → List Text :=
  Atom.fold [] (fun _ => []) Test.columns id fun choices => choices.flatten.flatten

def choicesComplete (choices : List (List Bool)) : Bool :=
  !choices.isEmpty && choices.all fun atoms => !atoms.isEmpty && atoms.all id

/-- Whether no operand is missing. -/
def Atom.complete : Atom → Bool :=
  Atom.fold false (fun _ => true) (fun _ => true) id choicesComplete

end RootCx.Crud
