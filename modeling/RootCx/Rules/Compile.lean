import Mathlib
import RootCx.Lib.JsonText
import RootCx.Rules.Emit
import RootCx.Rules.ParserComplete
import RootCx.Rules.Shorthand

/-! # Compiled rules

`rules/mod.rs`: the checks and indexes an entity declares, compiled to SQL with a
tag that identifies the compilation.  Hashes are parameters.
-/

namespace RootCx.Rules

open RootCx.Text RootCx.Postgres

/-- What crates and the standard library do for the compiler. -/
structure Crates extends Literals where
  parseDecimal : Text → Option Text
  -- `f64::to_string` of a JSON number
  floatText : Text → Text
  -- the first eight and the first four bytes of SHA-256, in hex
  digest8 : Text → Text
  digest4 : Text → Text
  -- what `Debug` prints as it is, outside ASCII
  printable : Char → Bool

def GRAMMAR_VERSION : Text := "r1"
def MAX_CHECKS : Nat := 64
def MAX_INDEXES : Nat := 64

/-! ## Hashes and names -/

def utf8Bytes (text : Text) : List UInt8 := text.flatMap String.utf8EncodeChar

def hexDigits (width n : Nat) : Text :=
  let digits := Nat.toDigits 16 n
  List.replicate (width - digits.length) '0' ++ digits

def fnv1aHex (text : Text) : Text :=
  let hash := (utf8Bytes text).foldl (fun (h : UInt64) b => (h ^^^ b.toUInt64) * 0x100000001b3) 0xcbf29ce484222325
  hexDigits 16 hash.toNat

/-- The tag an older Core wrote for a declared check. -/
def legacyCheckTag (expr : Text) : Text := fnv1aHex (join " " (splitWhitespace expr))

def optionText (text : Option Text) : Text := text.getD []

/-- The hash of an index's definition. -/
def indexSpecHash (index : IndexContract) : Text :=
  let column : IndexColumn → Text
    | .name name => name ++ ","
    | .spec spec =>
      [spec.column, spec.expr, spec.sort, spec.nulls, spec.ops].flatMap (fun part => optionText part ++ ":".toList) ++
        ","
  fnv1aHex ((if index.unique then "u|" else "_|").toList ++ index.using_.getD "btree".toList ++ "|".toList ++
    index.columns.flatMap column ++ "|" ++ optionText index.whereClause ++ "|" ++
    index.with_.flatMap fun (key, value) => key ++ "=".toList ++ value ++ ";".toList)

/-- A name within PostgreSQL's limit. -/
def fitIdent (digest4 : Text → Text) (name : Text) : Text :=
  if byteLength name ≤ MAX_IDENT_BYTES then name else clip 54 name ++ "_" ++ digest4 name

/-- `Debug` of a string. -/
def debugText (printable : Char → Bool) (text : Text) : Text :=
  let char (c : Char) : Text :=
    if c = '"' then ['\\', '"']
    else if c = '\\' then ['\\', '\\']
    else if c = '\n' then ['\\', 'n']
    else if c = '\r' then ['\\', 'r']
    else if c = '\t' then ['\\', 't']
    else if c = '\x00' then ['\\', '0']
    else if (isAscii c && decide (32 ≤ c.toNat) && c != '\x7f') || (!isAscii c && printable c) then [c]
    else "\\u\x7b" ++ Nat.toDigits 16 c.toNat ++ "\x7d"
  '"' :: text.flatMap char ++ ['"']

/-- The declared name of an index, or one made from its columns and a hash. -/
def resolveIndexName (printable : Char → Bool) (entity : Text) (index : IndexContract) : Text :=
  match index.name with
  | some name => name
  | none =>
    let parts : List Text := index.columns.map fun
      | .name name => name
      | .spec spec => spec.column.getD "expr"
    let shown := "[" ++ join ", " (parts.map (debugText printable)) ++ "]" ++
      (if index.unique then "true" else "false").toList ++
      (match index.whereClause with
        | none => "None"
        | some source => "Some(" ++ debugText printable source ++ ")")
    let hash := (utf8Bytes shown).foldl (fun (h : UInt64) b => h * 31 + b.toUInt64) 0
    let base := "ix_" ++ entity ++ "_" ++ join "_" parts ++
      (if index.unique then "_uq" else "").toList
    let suffix := "_" ++ Nat.toDigits 16 (hash &&& 0xffffff).toNat
    base.take (63 - byteLength suffix) ++ suffix

/-! ## Canonical trees -/

def IntervalUnit.key : IntervalUnit → Text := IntervalUnit.asStr

def LiteralType.key : LiteralType → Text
  | .date => "date"
  | .timestamp => "timestamp"
  | .uuid => "uuid"

def BinOp.key : BinOp → Text
  | .or => "or"
  | .and => "and"
  | .eq => "eq"
  | .ne => "ne"
  | .lt => "lt"
  | .le => "le"
  | .gt => "gt"
  | .ge => "ge"
  | .match => "match"
  | .add => "add"
  | .sub => "sub"
  | .mul => "mul"

/-- The `snake_case` names of the functions are their names in SQL. -/
def Func.key : Func → Text := Func.sqlName

mutual

/-- The serialization of a tree; the entries of an object are sorted. -/
def Expr.json : Expr → Json
  | .field name => .obj [("k", .str "field"), ("name", .str name)]
  | .text value => .obj [("k", .str "text"), ("value", .str value)]
  | .number value => .obj [("k", .str "number"), ("value", .str value)]
  | .bool value => .obj [("k", .str "bool"), ("value", .bool value)]
  | .typed ty value =>
    .obj [("k", .str "typed"), ("ty", .str ty.key), ("value", .str value)]
  | .interval amount unit =>
    .obj [("amount", .number (Nat.toDigits 10 amount)), ("k", .str "interval"),
      ("unit", .str unit.key)]
  | .not e => .obj [("e", e.json), ("k", .str "not")]
  | .neg e => .obj [("e", e.json), ("k", .str "neg")]
  | .binary op l r =>
    .obj [("k", .str "binary"), ("l", l.json), ("op", .str op.key),
      ("r", r.json)]
  | .isNull e negated =>
    .obj [("e", e.json), ("k", .str "is_null"), ("negated", .bool negated)]
  | .between e lo hi negated =>
    .obj [("e", e.json), ("hi", hi.json), ("k", .str "between"),
      ("lo", lo.json), ("negated", .bool negated)]
  | .inList e list negated =>
    .obj [("e", e.json), ("k", .str "in"), ("list", .arr (jsonAll list)),
      ("negated", .bool negated)]
  | .call func args =>
    .obj [("args", .arr (jsonAll args)), ("func", .str func.key), ("k", .str "call")]
  | .arrayWithin field values =>
    .obj [("field", .str field), ("k", .str "array_within"),
      ("values", .arr (values.map .str))]
  | .finite e numeric =>
    .obj [("e", e.json), ("k", .str "finite"), ("numeric", .bool numeric)]

def jsonAll : List Expr → List Json
  | [] => []
  | e :: rest => e.json :: jsonAll rest

end

/-- The order of names by their bytes. -/
def textLe : Text → Text → Bool
  | [], _ => true
  | _ :: _, [] => false
  | c :: first, d :: second => if c = d then textLe first second else c.toNat < d.toNat

def sortNames (names : List Text) : List Text := names.insertionSort fun a b => textLe a b = true

/-! ## Tags -/

def digestTag (digest8 : Text → Text) (canonical : Json) : Text :=
  GRAMMAR_VERSION ++ "-" ++ digest8 canonical.compact

def typesJson (fields : Fields) (used : List Text) : Json :=
  .arr (used.map fun name => .arr [.str name, .str (((fields name).map ScopeField.pg).getD [])])

def tag (digest8 : Text → Text) (kind : Text) (resolved : Expr) (fields : Fields) : Text :=
  digestTag digest8 (.arr [.str GRAMMAR_VERSION, .str kind, resolved.json,
    typesJson fields (sortNames (resolved.fields []))])

/-! ## Compiled objects -/

/-- Where a compiled check came from. -/
inductive Origin where
  | check (expr : Text)
  | enum (field : Text)
  | shorthand
  deriving DecidableEq, Repr

structure CompiledCheck where
  name : Text
  sql : Text
  tag : Text
  legacyTag : Option Text
  origin : Origin
  deriving DecidableEq, Repr

structure CompiledIndex where
  name : Text
  unique : Bool
  trigram : Bool
  method : Text
  keys : List Text
  -- the keys without their order
  keyValues : List Text
  predicate : Option Text
  tag : Text
  legacyTag : Text
  declared : IndexContract
  -- the plain columns of a trigram index
  columns : List Text
  deriving DecidableEq, Repr

structure EntityRules where
  checks : List CompiledCheck
  indexes : List CompiledIndex
  deriving DecidableEq, Repr

def CompiledIndex.createSql (index : CompiledIndex) (schema table name : Text) (concurrently : Bool)
    (trigram : Text) : Text :=
  let keys := if index.trigram then
      index.columns.map fun column => quoteIdent column ++ " " ++ quoteIdent trigram ++ ".gin_trgm_ops"
    else index.keys
  "CREATE " ++ (if index.unique then "UNIQUE " else "").toList ++ "INDEX " ++
    (if concurrently then "CONCURRENTLY " else "").toList ++ quoteIdent name ++ " ON " ++
    quoteIdent schema ++ "." ++ quoteIdent table ++ " USING " ++ index.method ++ " (" ++
    join ", " keys ++ ")" ++
    (match index.predicate with
      | none => []
      | some predicate => " WHERE " ++ predicate)

/-! ## The scope of an entity -/

/-- A field of the scope, from its type. -/
def scopeField (fieldType : FieldType) (sensitive : Bool) : ScopeField :=
  ⟨.of fieldType, sensitive, fieldType.postgresType⟩

/-- The types of Core's own columns. -/
def implicitType (name : Text) : Option FieldType :=
  if name = "id" then some .uuid
  else if name = "created_at" ∨ name = "updated_at" then some .timestamp
  else none

section Scope

variable (parseDecimal : Text → Option Text)

/-- The declared fields; a later one of the same name replaces an earlier one. -/
def declaredTypes : List FieldContract → Except Text Fields
  | [] => .ok fun _ => none
  | field :: rest => do
    let ty ← FieldType.fromField parseDecimal field
    let others ← declaredTypes rest
    .ok fun name => (others name).or (if name = field.name then some (scopeField ty field.sensitive) else none)

/-- Core's columns are in the scope of every entity, unless it declares its own. -/
def fieldTypes (entity : EntityContract) : Except Text Fields := do
  let declared ← declaredTypes parseDecimal entity.fields
  .ok fun name => (declared name).or ((implicitType name).map (scopeField · false))

end Scope

/-- A check on a sensitive field reads no other field; an index reads none. -/
def sensitiveScope (expr : Expr) (fields : Fields) (index : Bool) : Except Text Unit :=
  let used := expr.fields []
  match used.find? fun name => (fields name).any ScopeField.sensitive with
  | none => .ok ()
  | some name =>
    if index then .error ("field '" ++ name ++
      "' is sensitive; index predicates and expressions cannot use it")
    else if used.length > 1 then
      .error ("field '" ++ name ++ "' is sensitive; it can only appear in single-field rules")
    else .ok ()

/-! ## Checks -/

section Compile

variable (crates : Crates)

def enumCheck (entity : EntityContract) (field : FieldContract) (fields : Fields) :
    Except Text (Option CompiledCheck) :=
  match field.enumValues.filter (!·.isEmpty) with
  | none => .ok none
  | some values => do
    let fieldType ← FieldType.fromField crates.parseDecimal field
    let resolved := match fieldType with
      | .textArray => Expr.arrayWithin field.name values
      | _ => .inList (.field field.name) (values.map .text) false
    .ok (some {
      name := fitIdent crates.digest4 ("chk_" ++ entity.entityName ++ "_" ++ field.name)
      sql := sql resolved
      tag := tag crates.digest8 "chk" resolved fields
      legacyTag := (enumCheckExpr crates.parseDecimal field).map legacyCheckTag
      origin := .enum field.name })

def shorthandCheck (entity : EntityContract) (field : FieldContract) (fields : Fields)
    (rule : Shorthand.Shorthand) : CompiledCheck where
  name := fitIdent crates.digest4
    ("chk_" ++ entity.entityName ++ "_" ++ field.name ++ "_" ++ rule.kind)
  sql := sql rule.tree
  tag := tag crates.digest8 "chk" rule.tree fields
  legacyTag := none
  origin := .shorthand

/-- The checks that come with one field: its enum, then its shorthands. -/
def fieldChecks (entity : EntityContract) (fields : Fields) (field : FieldContract) :
    Except Text (List CompiledCheck) := do
  let enum ← enumCheck crates entity field fields
  let ty := ((fields field.name).map ScopeField.ty).getD .bool
  let rules ← Shorthand.compile crates.toLiterals crates.floatText fields field ty
  .ok (enum.toList ++ rules.map (shorthandCheck crates entity field fields))

def fieldsChecks (entity : EntityContract) (fields : Fields) : List FieldContract → Except Text (List CompiledCheck)
  | [] => .ok []
  | field :: rest => do
    let checks ← fieldChecks crates entity fields field
    let others ← fieldsChecks entity fields rest
    .ok (checks ++ others)

/-- The text of a parse error; the other ends have none. -/
def stopText : Parser.Stop → Text
  | .refused error => Nat.toDigits 10 error.line ++ ":" ++ Nat.toDigits 10 error.column ++ ": " ++
      error.message
  | .outOfRange | .endless => []

/-- A rule written in the manifest, parsed and resolved. -/
def resolve (resolved : Expr → Except Text Expr) (source : Text) : Except Text Expr := do
  let parsed ← (Parser.parse source).mapError stopText
  resolved parsed

def declaredCheck (fields : Fields) (position : Nat) (check : CheckContract) : Except Text CompiledCheck :=
  match check.name with
  | none => .error ("checks[" ++ Nat.toDigits 10 position ++ "]: every check needs a 'name'")
  | some name => do
    validateNewIdent name "check name"
    let resolved ← (do
      let resolved ← resolve (boolean crates.toLiterals fields) check.expr
      sensitiveScope resolved fields false
      .ok resolved).mapError fun message => "checks[" ++ name ++ "].expr " ++ message
    .ok {
      name := name
      sql := sql resolved
      tag := tag crates.digest8 "chk" resolved fields
      legacyTag := some (legacyCheckTag check.expr)
      origin := .check check.expr }

def declaredChecks (fields : Fields) : Nat → List CheckContract → Except Text (List CompiledCheck)
  | _, [] => .ok []
  | position, check :: rest => do
    let compiled ← declaredCheck crates fields position check
    let others ← declaredChecks fields (position + 1) rest
    .ok (compiled :: others)

/-- The first name that occurs again. -/
def duplicate (seen : List Text) : List Text → Option Text
  | [] => none
  | name :: rest => if name ∈ seen then some name else duplicate (name :: seen) rest

/-! ## Indexes -/

/-- The method of an index, by its lower-case name. -/
def indexMethod (using_ : Text) : Except Text Text :=
  if using_ ∈ ["btree".toList, "hash".toList, "gist".toList, "gin".toList, "spgist".toList, "brin".toList] then
    .ok using_
  else if using_ = "trigram" then .ok "gin"
  else .error ("unknown index method '" ++ using_ ++ "'")

def columnValue (name : Text) (fields : Fields) : Except Text Text :=
  if !isSystemField name && (fields name).isNone then
    .error ("column '" ++ name ++ "' is not a declared or system field")
  else .ok (quoteIdent name)

def sortSuffix : Option Text → Except Text Text
  | none => .ok []
  | some sort =>
    let lower := sort.map Char.toLower
    if lower = "asc" then .ok " ASC"
    else if lower = "desc" then .ok " DESC"
    else .error ("invalid sort '" ++ lower ++ "' (asc|desc)")

def nullsSuffix : Option Text → Except Text Text
  | none => .ok []
  | some nulls =>
    let lower := nulls.map Char.toLower
    if lower = "first" then .ok " NULLS FIRST"
    else if lower = "last" then .ok " NULLS LAST"
    else .error ("invalid nulls '" ++ lower ++ "' (first|last)")

/-- One compiled column of an index. -/
structure Key where
  key : Text
  value : Text
  tree : Json
  -- the name of a trigram column
  trigram : Option Text

/-- The value of a column and its tree. -/
def keyValue (fields : Fields) : IndexColumn → Except Text (Text × Json)
  | .name name => do .ok (← columnValue name fields, .str name)
  | .spec spec =>
    if spec.ops.isSome then
      .error "operator classes ('ops') are not allowed; use \"using\": \"trigram\" for trigram search"
    else
      match spec.column, spec.expr with
      | some name, none => do .ok (← columnValue name fields, .str name)
      | none, some expr => do
        let resolved ← (resolve (scalar crates.toLiterals fields) expr).mapError ("expr " ++ ·)
        sensitiveScope resolved fields true
        .ok ("(" ++ sql resolved ++ ")", resolved.json)
      | some _, some _ => .error "a column has both 'column' and 'expr'"
      | none, none => .error "a column has neither 'column' nor 'expr'"

def IndexColumn.sort : IndexColumn → Option Text
  | .name _ => none
  | .spec spec => spec.sort

def IndexColumn.nulls : IndexColumn → Option Text
  | .name _ => none
  | .spec spec => spec.nulls

/-- The plain column of an index column, if it is one without an order. -/
def trigramColumn : IndexColumn → Option Text
  | .name name => some name
  | .spec spec => if spec.expr.isNone && spec.sort.isNone && spec.nulls.isNone then spec.column else none

def trigramName (fields : Fields) (column : IndexColumn) : Except Text Text :=
  match trigramColumn column with
  | none => .error "trigram indexes take plain text columns"
  | some name =>
    if (fields name).map ScopeField.ty = some .text then .ok name
    else .error ("trigram index column '" ++ name ++ "' must be text")

def optionJson : Option Text → Json
  | none => .null
  | some text => .str (text.map Char.toLower)

def compileColumn (fields : Fields) (trigram : Bool) (column : IndexColumn) : Except Text Key := do
  let (value, tree) ← keyValue crates fields column
  let plain ← if trigram then (trigramName fields column).map some else .ok none
  let sort ← sortSuffix (IndexColumn.sort column)
  let nulls ← nullsSuffix (IndexColumn.nulls column)
  .ok ⟨value ++ sort ++ nulls, value,
    .arr [tree, optionJson (IndexColumn.sort column), optionJson (IndexColumn.nulls column)], plain⟩

def compileColumns (fields : Fields) (trigram : Bool) : List IndexColumn → Except Text (List Key)
  | [] => .ok []
  | column :: rest => do
    let key ← compileColumn crates fields trigram column
    let keys ← compileColumns fields trigram rest
    .ok (key :: keys)

def compilePredicate (fields : Fields) : Option Text → Except Text (Option Expr)
  | none => .ok none
  | some source => do
    let resolved ← (resolve (boolean crates.toLiterals fields) source).mapError ("where " ++ ·)
    sensitiveScope resolved fields true
    .ok (some resolved)

/-- The plain columns of an index; a column given by an expression is passed over. -/
def plainColumns (columns : List IndexColumn) : List Text :=
  columns.filterMap fun
    | .name name => some name
    | .spec spec => spec.column

def indexUsed (columns : List IndexColumn) (predicate : Option Expr) : List Text :=
  dedup (sortNames (plainColumns columns ++ ((predicate.map (Expr.fields [])).getD [])))

def compileIndex (entity : EntityContract) (index : IndexContract) (fields : Fields) :
    Except Text CompiledIndex := do
  if index.columns.isEmpty then .error "has no columns"
  else if !index.with_.isEmpty then .error "storage parameters ('with') are not allowed"
  else do
    let using_ := (index.using_.getD "btree").map Char.toLower
    let trigram : Bool := using_ = "trigram"
    let method ← indexMethod using_
    expectOk (!(trigram && index.unique)) "a trigram index cannot be unique"
    let keys ← compileColumns crates fields trigram index.columns
    let predicate ← compilePredicate crates fields index.whereClause
    match index.name with
    | none => .ok ()
    | some name => validateNewIdent name "index name"
    let used := indexUsed index.columns predicate
    .ok {
      name := resolveIndexName crates.printable entity.entityName index
      unique := index.unique
      trigram := trigram
      method := method
      keys := keys.map Key.key
      keyValues := keys.map Key.value
      predicate := predicate.map sql
      tag := digestTag crates.digest8 (.arr [.str GRAMMAR_VERSION, .str "idx", .bool index.unique,
        .str using_, .arr (keys.map Key.tree), (predicate.map Expr.json).getD .null,
        typesJson fields (used.filter fun name => (fields name).isSome)])
      legacyTag := indexSpecHash index
      declared := index
      columns := keys.filterMap Key.trigram }

def compileIndexes (entity : EntityContract) (fields : Fields) :
    Nat → List Text → List IndexContract → Except Text (List CompiledIndex)
  | _, _, [] => .ok []
  | position, seen, index :: rest => do
    let compiled ← (compileIndex crates entity index fields).mapError fun message =>
      "indexes[" ++ index.name.getD (Nat.toDigits 10 position) ++ "] " ++ message
    if compiled.name ∈ seen then .error ("duplicate index name '" ++ compiled.name ++ "'")
    else do
      let others ← compileIndexes entity fields (position + 1) (compiled.name :: seen) rest
      .ok (compiled :: others)

/-! ## Entities -/

def compileEntity (entity : EntityContract) : Except Text EntityRules := do
  let fields ← fieldTypes crates.parseDecimal entity
  if entity.checks.length > MAX_CHECKS then .error "entities are limited to 64 checks"
  else if entity.indexes.length > MAX_INDEXES then .error "entities are limited to 64 indexes"
  else do
    let generated ← fieldsChecks crates entity fields entity.fields
    let declared ← declaredChecks crates fields 0 entity.checks
    let checks := generated ++ declared
    match duplicate [] (checks.map CompiledCheck.name) with
    | some name => .error ("duplicate check name '" ++ name ++ "'")
    | none => do
      let indexes ← compileIndexes crates entity fields 0 [] entity.indexes
      .ok ⟨checks, indexes⟩

end Compile

/-- Crates that accept every literal, with a digest that loses nothing. -/
def sampleCrates : Crates where
  parseDate := fun _ => true
  parseTimestamp := some
  parseUuid := some
  validatePattern := fun _ => .ok ()
  parseDecimal := some
  floatText := id
  digest8 := id
  digest4 := id
  printable := fun _ => true

end RootCx.Rules
