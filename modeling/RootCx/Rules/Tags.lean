import RootCx.Rules.Sources

/-! # What a tag identifies

A tag is the digest of a canonical tree and of field types.  With an injective
digest it determines the rule, and the types of the fields that were put into it.
-/

namespace RootCx.Rules

open RootCx.Text RootCx.Postgres

/-! ## Canonical trees determine trees -/

/-- The tag of a node in its serialization. -/
def Expr.kind : Expr → Text
  | .field _ => "field"
  | .text _ => "text"
  | .number _ => "number"
  | .bool _ => "bool"
  | .typed _ _ => "typed"
  | .interval _ _ => "interval"
  | .not _ => "not"
  | .neg _ => "neg"
  | .binary _ _ _ => "binary"
  | .isNull _ _ => "is_null"
  | .between _ _ _ _ => "between"
  | .inList _ _ _ => "in"
  | .call _ _ => "call"
  | .arrayWithin _ _ => "array_within"
  | .finite _ _ => "finite"

def entry (key : Text) : Json → Option Json
  | .obj entries => (entries.find? fun pair => pair.1 = key).map Prod.snd
  | _ => none

variable (e : Expr) {fields : Fields} {source : Source}

theorem json_kind : entry "k" e.json = some (.str e.kind) := by
  cases e <;> rfl

def KINDS : List Text :=
  ["field", "text", "number", "bool", "typed", "interval", "not",
    "neg", "binary", "is_null", "between", "in", "call",
    "array_within", "finite"]

theorem kind_index : KINDS.idxOf e.kind = e.ctorIdx := by
  cases e <;> rfl

theorem ctorIdx_eq_of_json {e e' : Expr} (same : e.json = e'.json) : e.ctorIdx = e'.ctorIdx := by
  have kinds := congrArg (entry "k") same
  rw [json_kind, json_kind] at kinds
  rw [← kind_index, ← kind_index, Json.str.inj (Option.some.inj kinds)]

theorem LiteralType.key_injective {ty ty' : LiteralType} (same : ty.key = ty'.key) : ty = ty' := by
  cases ty <;> cases ty' <;> first | rfl | exact absurd same (by decide)

theorem IntervalUnit.key_injective {unit unit' : IntervalUnit} (same : unit.key = unit'.key) : unit = unit' := by
  cases unit <;> cases unit' <;> first | rfl | exact absurd same (by decide)

def OP_KEYS : List Text :=
  ["or", "and", "eq", "ne", "lt", "le", "gt", "ge",
    "match", "add", "sub", "mul"]

theorem BinOp.key_index (op : BinOp) : OP_KEYS.idxOf op.key = op.ctorIdx := by
  cases op <;> rfl

theorem BinOp.key_injective {op op' : BinOp} (same : op.key = op'.key) : op = op' := by
  have indices := congrArg OP_KEYS.idxOf same
  rw [BinOp.key_index, BinOp.key_index] at indices
  cases op <;> cases op' <;> first | rfl | cases indices

theorem Func.fromName_key (func : Func) : Func.fromName func.key = some func := by
  cases func <;> rfl

theorem Func.key_injective {func func' : Func} (same : func.key = func'.key) : func = func' := by
  have named := congrArg Func.fromName same
  rw [Func.fromName_key, Func.fromName_key] at named
  exact Option.some.inj named

theorem digits_injective {m n : Nat} (same : Nat.toDigits 10 m = Nat.toDigits 10 n) : m = n := by
  have values := congrArg (fun digits => Nat.ofDigitChars 10 digits 0) same
  simpa [Nat.ofDigitChars_toDigits] using values

theorem json_injective {e e' : Expr} (same : e.json = e'.json) : e = e' := by
  have lists {list list' : List Expr} (members : ∀ e ∈ list, ∀ {e' : Expr}, e.json = e'.json → e = e')
      (same : jsonAll list = jsonAll list') : list = list' := by
    induction list generalizing list' with
    | nil => cases list' with
      | nil => rfl
      | cons e' list' => cases same
    | cons e list ih => cases list' with
      | nil => cases same
      | cons e' list' =>
        rw [jsonAll, jsonAll, List.cons.injEq] at same
        obtain rfl := members e (by simp) same.1
        rw [ih (fun e mem => members e (by simp [mem])) same.2]
  induction e generalizing e' with
  | field name | text value | number value | bool value =>
    have roots := ctorIdx_eq_of_json same
    cases e' <;> cases roots
    simpa [Expr.json] using same
  | typed ty value =>
    have roots := ctorIdx_eq_of_json same
    cases e' <;> cases roots
    simp only [Expr.json, Json.obj.injEq, List.cons.injEq, Prod.mk.injEq, Json.str.injEq, true_and, and_true] at same
    rw [LiteralType.key_injective same.1, same.2]
  | interval amount unit =>
    have roots := ctorIdx_eq_of_json same
    cases e' <;> cases roots
    simp only [Expr.json, Json.obj.injEq, List.cons.injEq, Prod.mk.injEq, Json.number.injEq, Json.str.injEq,
      true_and, and_true] at same
    rw [digits_injective same.1, IntervalUnit.key_injective same.2]
  | not e ih | neg e ih =>
    have roots := ctorIdx_eq_of_json same
    cases e' <;> cases roots
    simp only [Expr.json, Json.obj.injEq, List.cons.injEq, Prod.mk.injEq, true_and, and_true] at same
    rw [ih same]
  | binary op l r left right =>
    have roots := ctorIdx_eq_of_json same
    cases e' <;> cases roots
    simp only [Expr.json, Json.obj.injEq, List.cons.injEq, Prod.mk.injEq, Json.str.injEq, true_and, and_true] at same
    rw [left same.1, BinOp.key_injective same.2.1, right same.2.2]
  | isNull e negated ih | finite e numeric ih =>
    have roots := ctorIdx_eq_of_json same
    cases e' <;> cases roots
    simp only [Expr.json, Json.obj.injEq, List.cons.injEq, Prod.mk.injEq, Json.bool.injEq, true_and, and_true] at same
    rw [ih same.1, same.2]
  | between e lo hi negated tested low high =>
    have roots := ctorIdx_eq_of_json same
    cases e' <;> cases roots
    simp only [Expr.json, Json.obj.injEq, List.cons.injEq, Prod.mk.injEq, Json.bool.injEq, true_and, and_true] at same
    rw [tested same.1, high same.2.1, low same.2.2.1, same.2.2.2]
  | inList e list negated tested members =>
    have roots := ctorIdx_eq_of_json same
    cases e' <;> cases roots
    simp only [Expr.json, Json.obj.injEq, Json.arr.injEq, List.cons.injEq, Prod.mk.injEq, Json.bool.injEq, true_and,
      and_true] at same
    rw [tested same.1, lists members same.2.1, same.2.2]
  | call func args members =>
    have roots := ctorIdx_eq_of_json same
    cases e' <;> cases roots
    simp only [Expr.json, Json.obj.injEq, Json.arr.injEq, Json.str.injEq, List.cons.injEq, Prod.mk.injEq, true_and,
      and_true] at same
    rw [lists members same.1, Func.key_injective same.2]
  | arrayWithin field values =>
    have roots := ctorIdx_eq_of_json same
    cases e' <;> cases roots
    simp only [Expr.json, Json.obj.injEq, Json.arr.injEq, Json.str.injEq, List.cons.injEq, Prod.mk.injEq, true_and,
      and_true] at same
    rw [same.1, (List.map_injective_iff.mpr fun _ _ => Json.str.inj) same.2]

/-! ## The numbers of a canonical tree -/

theorem numericItems_of_forall {items : List Json} (all : ∀ item ∈ items, Json.Numeric item) :
    Json.NumericItems items := by
  induction items with
  | nil => trivial
  | cons item items ih =>
    exact ⟨all item (by simp), ih fun item mem => all item (by simp [mem])⟩

theorem toDigits_numeric (n : Nat) : Json.Numeric (.number (Nat.toDigits 10 n)) := by
  have digits (c : Char) (mem : c ∈ Nat.toDigits 10 n) : c.isDigit = true :=
    Nat.isDigit_of_mem_toDigits (by decide) (by decide) mem
  constructor
  · cases written : Nat.toDigits 10 n with
    | nil => exact absurd written Nat.toDigits_ne_nil
    | cons c rest =>
      have digit := digits c (by simp [written])
      simp [digit]
  · rw [List.all_eq_true]
    intro c mem
    simp [Json.isNumberChar, digits c mem]

theorem json_numeric : Json.Numeric e.json := by
  have lists {list : List Expr} (members : ∀ e ∈ list, Json.Numeric e.json) : Json.NumericItems (jsonAll list) := by
    induction list with
    | nil => trivial
    | cons e list ih =>
      exact ⟨members e (by simp), ih fun e mem => members e (by simp [mem])⟩
  induction e with
  | field name | text value | number value | bool value | typed ty value => trivial
  | interval amount unit => exact ⟨toDigits_numeric amount, trivial, trivial, trivial⟩
  | not e ih | neg e ih => exact ⟨ih, trivial, trivial⟩
  | binary op l r left right => exact ⟨trivial, left, trivial, right, trivial⟩
  | isNull e negated ih | finite e numeric ih =>
    exact ⟨ih, trivial, trivial, trivial⟩
  | between e lo hi negated tested low high => exact ⟨tested, high, trivial, low, trivial, trivial⟩
  | inList e list negated tested members => exact ⟨tested, trivial, lists members, trivial, trivial⟩
  | call func args members => exact ⟨lists members, trivial, trivial, trivial⟩
  | arrayWithin field values =>
    refine ⟨trivial, trivial, numericItems_of_forall fun item mem => ?_, trivial⟩
    obtain ⟨value, -, rfl⟩ := List.mem_map.mp mem
    trivial

theorem typesJson_numeric (fields : Fields) (used : List Text) : Json.Numeric (typesJson fields used) := by
  apply numericItems_of_forall
  intro item mem
  obtain ⟨name, -, rfl⟩ := List.mem_map.mp mem
  exact ⟨trivial, trivial, trivial⟩

theorem textJson_numeric (text : Option Text) : Json.Numeric (textJson text) := by
  cases text <;> trivial

theorem keys_numeric (keys : List KeySource) : Json.NumericItems (keys.map KeySource.json) := by
  apply numericItems_of_forall
  intro item mem
  obtain ⟨key, -, rfl⟩ := List.mem_map.mp mem
  refine ⟨?_, textJson_numeric key.sort, textJson_numeric key.nulls, trivial⟩
  cases key.tree with
  | name column => trivial
  | expr tree => exact json_numeric tree

theorem predicate_numeric (predicate : Option Expr) : Json.Numeric ((predicate.map Expr.json).getD .null) := by
  cases predicate with
  | none => trivial
  | some tree => exact json_numeric tree

/-! ## Keys and predicates -/

theorem textJson_injective {first second : Option Text} (same : textJson first = textJson second) : first = second := by
  cases first with
  | none =>
    cases second with
    | none => rfl
    | some text => cases same
  | some text =>
    cases second with
    | none => cases same
    | some text' => rw [Json.str.inj same]

theorem json_ne_str (text : Text) : e.json ≠ .str text := by
  cases e <;> exact fun same => nomatch same

theorem json_ne_null : e.json ≠ .null := by
  cases e <;> exact fun same => nomatch same

theorem keyTree_injective {first second : KeyTree} (same : first.json = second.json) : first = second := by
  cases first with
  | name column =>
    cases second with
    | name column' => rw [Json.str.inj same]
    | expr tree => exact absurd same.symm (json_ne_str tree column)
  | expr tree =>
    cases second with
    | name column => exact absurd same (json_ne_str tree column)
    | expr tree' => rw [json_injective same]

theorem keySource_injective {first second : KeySource} (same : first.json = second.json) : first = second := by
  obtain ⟨tree, sort, nulls⟩ := first
  obtain ⟨tree', sort', nulls'⟩ := second
  simp only [KeySource.json, Json.arr.injEq, List.cons.injEq, and_true] at same
  rw [keyTree_injective same.1, textJson_injective same.2.1, textJson_injective same.2.2]

theorem predicate_injective {first second : Option Expr}
    (same : (first.map Expr.json).getD .null = (second.map Expr.json).getD .null) : first = second := by
  cases first with
  | none =>
    cases second with
    | none => rfl
    | some tree => exact absurd same.symm (json_ne_null tree)
  | some tree =>
    cases second with
    | none => exact absurd same (json_ne_null tree)
    | some tree' => rw [json_injective same]

/-! ## Tags determine sources -/

theorem digestTag_injective {digest8 : Text → Text} (injective : Function.Injective digest8) {first second : Json}
    (numeric : first.Numeric) (numeric' : second.Numeric) (same : digestTag digest8 first = digestTag digest8 second) :
    first = second := by
  rw [digestTag, digestTag] at same
  exact Json.compact_injective numeric numeric' (injective (List.append_cancel_left same))

theorem typesJson_pg {fields' : Fields} {names : List Text}
    (same : typesJson fields names = typesJson fields' names) :
    ∀ name ∈ names, ((fields name).map ScopeField.pg).getD [] = ((fields' name).map ScopeField.pg).getD [] := by
  intro name mem
  have items := (List.map_inj_left.mp (Json.arr.inj same)) name mem
  simp only [Json.arr.injEq, List.cons.injEq, Json.str.injEq, true_and, and_true] at items
  exact items

/-- The names whose types go into a tag. -/
def Source.inTag (fields : Fields) : Source → List Text
  | .check tree => sortNames (tree.fields [])
  | .index _ _ keys predicate => (taggedNames keys predicate).filter fun name => (fields name).isSome

/-- What a tag is the digest of. -/
def Source.canonical (fields : Fields) (source : Source) : Json :=
  let types := typesJson fields (source.inTag fields)
  match source with
  | .check tree => .arr [.str GRAMMAR_VERSION, .str "chk", tree.json, types]
  | .index unique using_ keys predicate => .arr [.str GRAMMAR_VERSION, .str "idx", .bool unique, .str using_,
      .arr (keys.map KeySource.json), (predicate.map Expr.json).getD .null, types]

theorem canonical_numeric (fields : Fields) (source : Source) : (source.canonical fields).Numeric := by
  have types := typesJson_numeric fields (source.inTag fields)
  cases source with
  | check tree => exact ⟨trivial, trivial, json_numeric tree, types, trivial⟩
  | index unique using_ keys predicate =>
    exact ⟨trivial, trivial, trivial, trivial, keys_numeric keys, predicate_numeric predicate, types, trivial⟩

theorem canonical_injective {fields' : Fields} {source' : Source}
    (same : source.canonical fields = source'.canonical fields') :
    source = source' ∧ typesJson fields (source.inTag fields) = typesJson fields' (source'.inTag fields') := by
  cases source with
  | check tree =>
    cases source' with
    | check tree' =>
      simp only [Source.canonical, Json.arr.injEq, List.cons.injEq, true_and, and_true] at same
      obtain rfl := json_injective same.1
      exact ⟨rfl, same.2⟩
    | index unique using_ keys predicate => simp [Source.canonical] at same
  | index unique using_ keys predicate =>
    cases source' with
    | check tree => simp [Source.canonical] at same
    | index unique' using_' keys' predicate' =>
      simp only [Source.canonical, Json.arr.injEq, List.cons.injEq, Json.bool.injEq, Json.str.injEq, true_and,
        and_true] at same
      obtain ⟨rfl, rfl, keysEqual, predicatesEqual, types⟩ := same
      obtain rfl := (List.map_injective_iff.mpr fun _ _ => keySource_injective) keysEqual
      obtain rfl := predicate_injective predicatesEqual
      exact ⟨rfl, types⟩

theorem Compiled.From.tag_eq {digest8 : Text → Text} {object : Compiled}
    (origin : object.From digest8 fields source) :
    object.tag = digestTag digest8 (source.canonical fields) := by
  cases object with
  | check check =>
    cases source with
    | check tree => exact origin.2
    | index => exact absurd origin id
  | index index =>
    cases source with
    | check => exact absurd origin id
    | index unique using_ keys predicate =>
      obtain ⟨-, -, -, -, -, -, -, tagged⟩ := origin
      exact tagged

section Tags

variable {digest8 : Text → Text} {fields fields' : Fields} {object object' : Compiled} {source source' : Source}

/-- Objects with the same tag come from the same source, and their tags hold the
    same types. -/
theorem source_of_tag (injective : Function.Injective digest8) (origin : object.From digest8 fields source)
    (origin' : object'.From digest8 fields' source') (same : object.tag = object'.tag) :
    source = source' ∧ typesJson fields (source.inTag fields) = typesJson fields' (source'.inTag fields') := by
  rw [origin.tag_eq, origin'.tag_eq] at same
  exact canonical_injective
    (digestTag_injective injective (canonical_numeric fields source) (canonical_numeric fields' source') same)

/-- The statements that put two objects in force are the same. -/
def Compiled.SameSql : Compiled → Compiled → Prop
  | .check object, .check object' => object.sql = object'.sql
  | .index object, .index object' => ∀ (schema table name : Text) (concurrently : Bool) (trigram : Text),
      object.createSql schema table name concurrently trigram = object'.createSql schema table name concurrently trigram
  | _, _ => False

theorem sameSql_of_source (origin : object.From digest8 fields source) (origin' : object'.From digest8 fields' source) :
    object.SameSql object' := by
  cases source with
  | check tree =>
    cases object with
    | index => exact absurd origin id
    | check check =>
      cases object' with
      | index => exact absurd origin' id
      | check check' => exact origin.1.trans origin'.1.symm
  | index unique using_ keys predicate =>
    cases object with
    | check => exact absurd origin id
    | index index =>
      cases object' with
      | check => exact absurd origin' id
      | index index' =>
        obtain ⟨uniqueEq, trigramEq, methodOk, keysEq, -, predicateEq, columnsEq, -⟩ := origin
        obtain ⟨uniqueEq', trigramEq', methodOk', keysEq', -, predicateEq', columnsEq', -⟩ := origin'
        have methods : index.method = index'.method := Except.ok.inj (methodOk.symm.trans methodOk')
        have trigrams : index.trigram = index'.trigram := trigramEq.trans trigramEq'.symm
        have columns : index.columns = index'.columns := by rw [columnsEq, columnsEq', trigrams]
        intro schema table name concurrently trigram
        unfold CompiledIndex.createSql
        rw [uniqueEq.trans uniqueEq'.symm, trigrams, methods, keysEq.trans keysEq'.symm, columns,
          predicateEq.trans predicateEq'.symm]

def pgType (fields : Fields) (name : Text) : Option Text := (fields name).map ScopeField.pg

/-- The fields have the same types in both scopes. -/
def SameTypes (fields fields' : Fields) (names : List Text) : Prop := ∀ name ∈ names, pgType fields name = pgType fields' name

/-- The types in equal tags are those of every field read outside an expression. -/
theorem tagged_types (known : source.Scoped fields) (known' : source.Scoped fields')
    (types : typesJson fields (source.inTag fields) = typesJson fields' (source.inTag fields')) {name : Text}
    (read : name ∈ source.reads) (outside : name ∉ source.expressionOnly) : pgType fields name = pgType fields' name := by
  have types_of_texts {name : Text} (read : name ∈ source.reads)
      (texts : ((fields name).map ScopeField.pg).getD [] = ((fields' name).map ScopeField.pg).getD []) :
      pgType fields name = pgType fields' name := by
    obtain ⟨field, found⟩ := Option.isSome_iff_exists.mp (known name read)
    obtain ⟨field', found'⟩ := Option.isSome_iff_exists.mp (known' name read)
    rw [found, found'] at texts
    rw [pgType, pgType, found, found']
    exact congrArg some texts
  cases source with
  | check tree =>
    have listed : name ∈ sortNames (tree.fields []) := by
      rw [sortNames, List.mem_insertionSort, mem_fields]
      exact .inr read
    exact types_of_texts read (typesJson_pg types name listed)
  | index unique using_ keys predicate =>
    have inPredicate {name : Text} : name ∈ (predicate.map (Expr.fields [])).getD [] ↔ name ∈ predicateNames predicate := by
      cases predicate with
      | none => rfl
      | some tree =>
        show name ∈ tree.fields [] ↔ name ∈ tree.names
        rw [mem_fields]
        simp
    have listed {name : Text} : name ∈ taggedNames keys predicate ↔ name ∈ plainOf keys ∨ name ∈ predicateNames predicate := by
      rw [taggedNames, mem_dedup, sortNames, List.mem_insertionSort, List.mem_append, inPredicate]
    have reads {name : Text} (mem : name ∈ taggedNames keys predicate) :
        name ∈ (Source.index unique using_ keys predicate).reads := by
      rw [Source.reads, List.mem_append, List.mem_append]
      obtain plain | inside := listed.mp mem
      · exact .inl (.inl plain)
      · exact .inr inside
    -- every listed name is in both scopes, so nothing is filtered out
    have kept : (taggedNames keys predicate).filter (fun name => (fields name).isSome) = taggedNames keys predicate :=
      List.filter_eq_self.mpr fun name mem => known name (reads mem)
    have kept' : (taggedNames keys predicate).filter (fun name => (fields' name).isSome) = taggedNames keys predicate :=
      List.filter_eq_self.mpr fun name mem => known' name (reads mem)
    have mem : name ∈ taggedNames keys predicate := by
      rw [listed]
      by_contra neither
      rw [not_or] at neither
      apply outside
      rw [Source.reads, List.mem_append, List.mem_append] at read
      obtain (plain | computed) | inside := read
      · exact absurd plain neither.1
      · simpa [Source.expressionOnly, neither] using computed
      · exact absurd inside neither.2
    rw [Source.inTag, Source.inTag, kept, kept'] at types
    exact types_of_texts read (typesJson_pg types name mem)

theorem expressionOnly_reads {name : Text} (mem : name ∈ source.expressionOnly) : name ∈ source.reads := by
  cases source with
  | check tree => cases mem
  | index unique using_ keys predicate =>
    rw [Source.reads, List.mem_append, List.mem_append]
    exact .inl (.inr (List.mem_filter.mp mem).1)

end Tags

/-! ## Equal tags -/

/-- What equal tags should say of two objects of two entities: the same SQL, and
    the same type for every field that is read. -/
def Agree (fields fields' : Fields) (object object' : Compiled) (source : Source) : Prop :=
  object.SameSql object' ∧ SameTypes fields fields' source.reads

/-- Equal tags agree on everything but the fields that only index expressions
    read. -/
theorem equal_tags_agree_iff {crates : Crates} (injective : Function.Injective crates.digest8)
    {entity entity' : EntityContract} {fields fields' : Fields} {rules rules' : EntityRules}
    (scope : fieldTypes crates.parseDecimal entity = .ok fields)
    (scope' : fieldTypes crates.parseDecimal entity' = .ok fields')
    (compiled : compileEntity crates entity = .ok rules) (compiled' : compileEntity crates entity' = .ok rules')
    {object object' : Compiled} (member : object ∈ rules.objects) (member' : object' ∈ rules'.objects)
    (same : object.tag = object'.tag) :
    ∃ source, object.From crates.digest8 fields source ∧ object'.From crates.digest8 fields' source ∧
      (Agree fields fields' object object' source ↔ SameTypes fields fields' source.expressionOnly) := by
  obtain ⟨source, origin, known⟩ := compileEntity_source scope compiled object member
  obtain ⟨source', origin', known'⟩ := compileEntity_source scope' compiled' object' member'
  obtain ⟨rfl, types⟩ := source_of_tag injective origin origin' same
  refine ⟨source, origin, origin', fun agree name inside => agree.2 name (expressionOnly_reads inside), ?_⟩
  intro expressions
  refine ⟨sameSql_of_source origin origin', fun name read => ?_⟩
  by_cases inside : name ∈ source.expressionOnly
  · exact expressions name inside
  · exact tagged_types known known' types read inside

/-! ## A type that is not in the tag -/

/-- Orders with a quantity of the given precision, and one index. -/
def ordersWith (precision : Nat) (columns : List IndexColumn) : EntityContract where
  entityName := "orders"
  fields := [{ name := "qty", fieldType := "decimal", precision := some precision, scale := some 2 }]
  indexes := [{ name := some "ix_qty", columns := columns }]

def absQty : List IndexColumn := [.spec { expr := some "abs(qty)" }]

def qtyFields (precision : Nat) : Fields := fun name =>
  ((none : Option ScopeField).or (if name = "qty" then
    some (scopeField (.decimal ⟨some precision, some 2⟩) false) else none)).or
    ((implicitType name).map (scopeField · false))

def absSource : Source := .index false "btree" [⟨.expr (.call .abs [.field "qty"]), none, none⟩] none

def tagsOf (entity : EntityContract) : List Text :=
  match compileEntity sampleCrates entity with
  | .ok rules => rules.objects.map Compiled.tag
  | .error _ => []

theorem compiled_of_tagsOf {entity : EntityContract} {tag : Text} (tags : tagsOf entity = [tag]) :
    ∃ rules object, compileEntity sampleCrates entity = .ok rules ∧ object ∈ rules.objects ∧ object.tag = tag := by
  unfold tagsOf at tags
  split at tags
  case h_1 rules compiled =>
    obtain ⟨object, mem, tagged⟩ := List.mem_map.mp (tags ▸ List.mem_singleton.mpr rfl : tag ∈ rules.objects.map Compiled.tag)
    exact ⟨rules, object, compiled, mem, tagged⟩
  case h_2 => cases tags

theorem object_of_tagsOf {entity : EntityContract}
    (scope : fieldTypes sampleCrates.parseDecimal entity = .ok fields)
    (tags : tagsOf entity = [digestTag id (source.canonical fields)]) :
    ∃ rules object, compileEntity sampleCrates entity = .ok rules ∧ object ∈ rules.objects ∧
      object.tag = digestTag id (source.canonical fields) ∧ object.From sampleCrates.digest8 fields source := by
  obtain ⟨rules, object, compiled, mem, tagged⟩ := compiled_of_tagsOf tags
  obtain ⟨found, origin, -⟩ := compileEntity_source scope compiled object mem
  have same : found = source := (canonical_injective (digestTag_injective (fun _ _ same => same)
    (canonical_numeric fields found) (canonical_numeric fields source) (origin.tag_eq.symm.trans tagged))).1
  exact ⟨rules, object, compiled, mem, tagged, same ▸ origin⟩

theorem absQty_object {precision : Nat} (either : precision = 10 ∨ precision = 12) :
    fieldTypes sampleCrates.parseDecimal (ordersWith precision absQty) = .ok (qtyFields precision) ∧
      ∃ rules object, compileEntity sampleCrates (ordersWith precision absQty) = .ok rules ∧ object ∈ rules.objects ∧
        object.tag = digestTag id (absSource.canonical (qtyFields 10)) ∧
        object.From sampleCrates.digest8 (qtyFields precision) absSource := by
  have tags : tagsOf (ordersWith precision absQty) = [digestTag id (absSource.canonical (qtyFields precision))] := by
    obtain rfl | rfl := either <;> decide +kernel
  have scope : fieldTypes sampleCrates.parseDecimal (ordersWith precision absQty) = .ok (qtyFields precision) := by
    obtain rfl | rfl := either <;> rfl
  obtain ⟨rules, object, compiled, member, tagged, origin⟩ := object_of_tagsOf scope tags
  refine ⟨scope, rules, object, compiled, member, tagged.trans ?_, origin⟩
  obtain rfl | rfl := either <;> decide +kernel

/-- With equal tags, the same is said of both precisions of the quantity. -/
theorem absQty_agree_iff :
    ∃ rules rules' object object', compileEntity sampleCrates (ordersWith 10 absQty) = .ok rules ∧
      compileEntity sampleCrates (ordersWith 12 absQty) = .ok rules' ∧ object ∈ rules.objects ∧ object' ∈ rules'.objects ∧
      ∃ source, object.From sampleCrates.digest8 (qtyFields 10) source ∧
        object'.From sampleCrates.digest8 (qtyFields 12) source ∧
        (Agree (qtyFields 10) (qtyFields 12) object object' source ↔
          SameTypes (qtyFields 10) (qtyFields 12) source.expressionOnly) := by
  obtain ⟨scope, rules, object, compiled, member, tagged, -⟩ := absQty_object (.inl rfl)
  obtain ⟨scope', rules', object', compiled', member', tagged', -⟩ := absQty_object (.inr rfl)
  exact ⟨rules, rules', object, object', compiled, compiled', member, member', equal_tags_agree_iff (fun _ _ same => same)
    scope scope' compiled compiled' member member' (tagged.trans tagged'.symm)⟩

/-- The index expression `abs(qty)` keeps its tag when the type of `qty` changes. -/
theorem expression_type_not_in_tag :
    ∃ rules rules' object object' source, compileEntity sampleCrates (ordersWith 10 absQty) = .ok rules ∧
      compileEntity sampleCrates (ordersWith 12 absQty) = .ok rules' ∧
      fieldTypes sampleCrates.parseDecimal (ordersWith 10 absQty) = .ok (qtyFields 10) ∧
      fieldTypes sampleCrates.parseDecimal (ordersWith 12 absQty) = .ok (qtyFields 12) ∧
      Function.Injective sampleCrates.digest8 ∧ object ∈ rules.objects ∧ object' ∈ rules'.objects ∧
      object.tag = object'.tag ∧ object.From sampleCrates.digest8 (qtyFields 10) source ∧
      ¬ Agree (qtyFields 10) (qtyFields 12) object object' source := by
  obtain ⟨scope, rules, object, compiled, member, tagged, origin⟩ := absQty_object (.inl rfl)
  obtain ⟨scope', rules', object', compiled', member', tagged', -⟩ := absQty_object (.inr rfl)
  refine ⟨rules, rules', object, object', absSource, compiled, compiled', scope, scope', fun _ _ same => same, member, member',
    tagged.trans tagged'.symm, origin, fun agree => ?_⟩
  exact absurd (agree.2 "qty".toList (by decide)) (by decide)

end RootCx.Rules
