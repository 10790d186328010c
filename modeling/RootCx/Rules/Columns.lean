import RootCx.Manifest.Ddl
import RootCx.Manifest.Validate
import RootCx.Rules.Tags

/-! # The columns of rules

Three places decide which columns an entity has: the scope rules are resolved
in, the preflight query and the DDL of the table.  Here they are compared.
-/

namespace RootCx.Rules

open RootCx.Text RootCx.Postgres List

/-! ## Preflight -/

/-- The query that looks for rows against a new rule, on a table given by its
    quoted name. -/
def Compiled.preflightQuery (table : Text) : Compiled → Option Text
  | .check object => some ("SELECT count(*), (array_agg(id::text ORDER BY id))[1:5] FROM " ++ table ++
      " WHERE (" ++ object.sql ++ ") IS FALSE")
  | .index object =>
    if object.unique then
      let filter := join " AND " (object.keyValues.map (· ++ " IS NOT NULL")) ++
        (match object.predicate with
          | none => []
          | some predicate => " AND " ++ predicate)
      some ("SELECT count(*) FROM (SELECT 1 FROM " ++ table ++ " WHERE " ++ filter ++
        " GROUP BY " ++ join ", " object.keyValues ++ " HAVING count(*) > 1) duplicates")
    else none

def Compiled.isCheck : Compiled → Bool
  | .check _ => true
  | .index _ => false

/-- The columns that the SQL of an object and its preflight query name: the
    query of a check reports the violating rows by `id`. -/
def Compiled.refers (object : Compiled) (source : Source) : List Text :=
  (if object.isCheck then ["id".toList] else []) ++ source.reads

/-- Every name is a column, and the checker's type is the column's. -/
structure Resolves (columns : List ColumnDef) (fields : Fields) (object : Compiled) (source : Source) : Prop where
  present : ∀ name ∈ object.refers source, ∃ column ∈ columns, column.name = name
  typed : ∀ name ∈ source.reads, ∀ column ∈ columns, column.name = name → pgType fields name = some column.pgType

/-- The columns on which the three places differ: Core's columns on a derived
    entity, declared time stamps of another type, and links to keys that are not
    uuids. -/
def Differs (parseDecimal : Text → Option Text) (pkTypes : PkTypes) (entity : EntityContract) (name : Text) : Prop :=
  (entity.isDerived = true ∧ isSystemField name = true) ∨
    ∃ field ∈ entity.fields, field.name = name ∧
      ((isStamp name ∧ ∃ ty, FieldType.fromField parseDecimal field = .ok ty ∧ ty.postgresType ≠ "TIMESTAMPTZ") ∨
        (¬ isStamp name ∧ field.isLink = true ∧ linkType pkTypes field ≠ "UUID"))

variable {name : Text} {field : FieldContract} {ty : FieldType}

/-! ## Scopes and columns -/

section Entity

variable {parseDecimal : Text → Option Text} {pkTypes : PkTypes}

theorem declaredTypes_absent {list : List FieldContract} {declared : Fields}
    (ok : declaredTypes parseDecimal list = .ok declared) (outside : name ∉ list.map (·.name)) :
    declared name = none := by
  induction list generalizing declared with
  | nil => cases ok; rfl
  | cons first list ih =>
    obtain ⟨_, -, ok⟩ := bind_eq_ok.mp ok
    obtain ⟨others, othersOk, ok⟩ := bind_eq_ok.mp ok
    cases ok
    rw [map_cons, mem_cons, not_or] at outside
    show (others name).or (if name = first.name then _ else none) = none
    rw [ih othersOk outside.2, if_neg outside.1]
    rfl

theorem declaredTypes_find {list : List FieldContract} {declared : Fields}
    (ok : declaredTypes parseDecimal list = .ok declared) (unique : (list.map (·.name)).Nodup)
    (mem : field ∈ list) (typed : FieldType.fromField parseDecimal field = .ok ty) :
    declared field.name = some (scopeField ty field.sensitive) := by
  induction list generalizing declared with
  | nil => cases mem
  | cons first list ih =>
    obtain ⟨firstTy, firstTyped, ok⟩ := bind_eq_ok.mp ok
    obtain ⟨others, othersOk, ok⟩ := bind_eq_ok.mp ok
    cases ok
    rw [map_cons, nodup_cons] at unique
    obtain rfl | older := mem_cons.mp mem
    · cases typed.symm.trans firstTyped
      show (others field.name).or (if field.name = field.name then _ else none) = _
      rw [declaredTypes_absent othersOk unique.1, if_pos rfl]
      rfl
    · show (others field.name).or _ = _
      rw [ih othersOk unique.2 older]
      rfl

theorem postgresType_of_link (typed : FieldType.fromField parseDecimal field = .ok ty)
    (link : field.isLink = true) : ty.postgresType = "UUID" := by
  have named : field.fieldType = "entity_link" := by simpa [FieldContract.isLink] using link
  obtain ⟨found, ok, rest⟩ := bind_eq_ok.mp typed
  rw [FieldType.named, named] at ok
  cases (show FieldType.named field = .ok .entityLink by rw [FieldType.named, named]; rfl).symm.trans
    (show FieldType.named field = .ok found by rw [FieldType.named, named]; exact ok)
  split at rest
  case isTrue => cases rest
  case isFalse =>
    split at rest
    case h_1 => cases rest; rfl
    case h_2 =>
      obtain ⟨_, -, rest⟩ := bind_eq_ok.mp rest
      cases rest
      rfl

variable {entity : EntityContract} {fields : Fields} {columns : List ColumnDef}

/-- Every column of the table, by where it comes from. -/
theorem mem_createColumns (made : createColumns parseDecimal pkTypes entity = .ok columns) {column : ColumnDef} :
    column ∈ columns ↔
      (column = idColumn ∧ entity.isDerived = false ∧ ∀ field ∈ entity.fields, field.name ≠ "id") ∨
      (∃ field ∈ entity.fields, ¬ isStamp field.name ∧ fieldToColumn parseDecimal pkTypes field = .ok column) ∨
      (entity.isDerived = false ∧ ∃ name, isStamp name ∧ column = stampColumn name) := by
  obtain ⟨declared, declaredMade, made⟩ := bind_eq_ok.mp made
  cases made
  rw [append_assoc, mem_append, mem_append, mem_fieldColumns declaredMade]
  apply or_congr
  · by_cases has : (entity.isDerived || entity.fields.any fun field => field.name == "id") = true
    · rw [if_pos has]
      constructor
      · exact fun mem => nomatch mem
      · rintro ⟨rfl, ordinary, without⟩
        rw [ordinary, Bool.false_or, any_eq_true] at has
        obtain ⟨field, mem, same⟩ := has
        exact absurd (by simpa using same) (without field mem)
    · rw [if_neg has, mem_singleton]
      rw [Bool.or_eq_true, not_or, Bool.not_eq_true, any_eq_true] at has
      constructor
      · rintro rfl
        refine ⟨rfl, has.1, fun field mem same => has.2 ⟨field, mem, by simp [same]⟩⟩
      · exact fun found => found.1
  · apply or_congr Iff.rfl
    by_cases derived : entity.isDerived = true
    · simp [derived]
    · rw [if_neg derived]
      simp [derived, isStamp]

/-- The columns of one name that reading it would find. -/
def Found (columns : List ColumnDef) (fields : Fields) (name : Text) : Prop :=
  (∃ column ∈ columns, column.name = name) ∧
    ∀ column ∈ columns, column.name = name → pgType fields name = some column.pgType

theorem isStamp_system (stamp : isStamp name) : isSystemField name = true := by
  obtain rfl | rfl := stamp <;> rfl

theorem id_not_stamp : ¬ isStamp "id" := by
  rintro (same | same) <;> exact absurd same (by decide)

theorem stamp_column (made : createColumns parseDecimal pkTypes entity = .ok columns)
    (ordinary : entity.isDerived = false) (stamp : isStamp name) :
    (∃ column ∈ columns, column.name = name) ∧ ∀ column ∈ columns, column.name = name → column.pgType = "TIMESTAMPTZ" := by
  refine ⟨⟨stampColumn name, (mem_createColumns made).mpr (.inr (.inr ⟨ordinary, name, stamp, rfl⟩)), rfl⟩, ?_⟩
  intro column mem named
  obtain ⟨rfl, -, -⟩ | ⟨field, -, plain, fieldMade⟩ | ⟨-, other, -, rfl⟩ := (mem_createColumns made).mp mem
  · have same : "id" = name := named
    exact absurd (same ▸ stamp) id_not_stamp
  · rw [fieldToColumn_name fieldMade] at named
    exact absurd (named ▸ stamp) plain
  · rfl

theorem field_column (made : createColumns parseDecimal pkTypes entity = .ok columns)
    (unique : (entity.fields.map (·.name)).Nodup) (mem : field ∈ entity.fields)
    (typed : FieldType.fromField parseDecimal field = .ok ty) (plain : ¬ isStamp field.name) :
    (∃ column ∈ columns, column.name = field.name) ∧ ∀ column ∈ columns, column.name = field.name →
      column.pgType = if field.isLink then linkType pkTypes field else ty.postgresType := by
  obtain ⟨column, columnMade, columnName, columnType⟩ := fieldToColumn_ok pkTypes typed
  refine ⟨⟨column, (mem_createColumns made).mpr (.inr (.inl ⟨field, mem, plain, columnMade⟩)), columnName⟩, ?_⟩
  intro other inside named
  obtain ⟨rfl, -, without⟩ | ⟨field', mem', -, fieldMade⟩ | ⟨-, stampName, stamp, rfl⟩ := (mem_createColumns made).mp inside
  · exact absurd named.symm (without field mem)
  · rw [fieldToColumn_name fieldMade] at named
    obtain rfl : field' = field := inj_on_of_nodup_map unique mem' mem named
    rw [← columnType, Except.ok.inj (fieldMade.symm.trans columnMade)]
  · exact absurd (named ▸ stamp : isStamp field.name) plain

/-- The column of an `id` that is not declared. -/
theorem id_column (made : createColumns parseDecimal pkTypes entity = .ok columns) (ordinary : entity.isDerived = false)
    (without : ∀ field ∈ entity.fields, field.name ≠ "id") :
    (∃ column ∈ columns, column.name = "id") ∧
      ∀ column ∈ columns, column.name = "id" → column.pgType = "UUID" := by
  refine ⟨⟨idColumn, (mem_createColumns made).mpr (.inl ⟨rfl, ordinary, without⟩), rfl⟩, ?_⟩
  intro column mem named
  obtain ⟨rfl, -, -⟩ | ⟨field, inside, -, fieldMade⟩ | ⟨-, other, stamp, rfl⟩ := (mem_createColumns made).mp mem
  · rfl
  · rw [fieldToColumn_name fieldMade] at named
    exact absurd named (without field inside)
  · exact absurd (named ▸ stamp : isStamp "id") id_not_stamp

theorem found_iff_type {ty : Text} {actual : Text} (scope : pgType fields name = some ty)
    (present : ∃ column ∈ columns, column.name = name)
    (typed : ∀ column ∈ columns, column.name = name → column.pgType = actual) :
    Found columns fields name ↔ actual = ty := by
  constructor
  · rintro ⟨⟨column, mem, named⟩, agrees⟩
    have same := agrees column mem named
    rw [scope, typed column mem named] at same
    exact (Option.some.inj same).symm
  · rintro rfl
    refine ⟨present, fun column mem named => ?_⟩
    rw [scope, typed column mem named]

/-- A name of the scope is found as typed, unless it is one on which the places
    differ. -/
theorem found_iff (made : createColumns parseDecimal pkTypes entity = .ok columns)
    (scope : fieldTypes parseDecimal entity = .ok fields) (unique : (entity.fields.map (·.name)).Nodup)
    (types : ∀ field ∈ entity.fields, ∃ ty, FieldType.fromField parseDecimal field = .ok ty)
    (noSystem : entity.isDerived = true → ∀ field ∈ entity.fields, isSystemField field.name = false)
    (known : (fields name).isSome = true) :
    Found columns fields name ↔ ¬ Differs parseDecimal pkTypes entity name := by
  obtain ⟨declared, declaredOk, scopeOk⟩ := bind_eq_ok.mp scope
  cases scopeOk
  by_cases given : name ∈ entity.fields.map (·.name)
  · obtain ⟨field, mem, rfl⟩ := mem_map.mp given
    obtain ⟨ty, typed⟩ := types field mem
    have inScope : pgType (fun name => (declared name).or ((implicitType name).map (scopeField · false))) field.name =
        some ty.postgresType := by
      rw [pgType, declaredTypes_find declaredOk unique mem typed]
      rfl
    have only {P : FieldContract → Prop} : (∃ other ∈ entity.fields, other.name = field.name ∧ P other) ↔ P field := by
      constructor
      · rintro ⟨other, inside, named, holds⟩
        exact inj_on_of_nodup_map unique inside mem named ▸ holds
      · exact fun holds => ⟨field, mem, rfl, holds⟩
    have differs : Differs parseDecimal pkTypes entity field.name ↔
        (isStamp field.name ∧ ty.postgresType ≠ "TIMESTAMPTZ") ∨
          (¬ isStamp field.name ∧ field.isLink = true ∧ linkType pkTypes field ≠ "UUID") := by
      rw [Differs, only, typed]
      constructor
      · rintro (⟨derived, system⟩ | ⟨stamp, other, same, different⟩ | link)
        · rw [noSystem derived field mem] at system
          cases system
        · cases same
          exact .inl ⟨stamp, different⟩
        · exact .inr link
      · rintro (⟨stamp, different⟩ | link)
        · exact .inr (.inl ⟨stamp, ty, rfl, different⟩)
        · exact .inr (.inr link)
    rw [differs]
    by_cases stamp : isStamp field.name
    · have ordinary : entity.isDerived = false := by
        cases derived : entity.isDerived with
        | false => rfl
        | true => exact absurd (isStamp_system stamp) (by simp [noSystem derived field mem])
      obtain ⟨present, typedColumns⟩ := stamp_column made ordinary stamp
      rw [found_iff_type inScope present typedColumns]
      constructor
      · rintro same (⟨-, different⟩ | ⟨plain, -⟩)
        · exact different same.symm
        · exact plain stamp
      · intro none
        by_contra different
        exact none (.inl ⟨stamp, fun same => different same.symm⟩)
    · obtain ⟨present, typedColumns⟩ := field_column made unique mem typed stamp
      rw [found_iff_type inScope present typedColumns]
      by_cases link : field.isLink = true
      · rw [if_pos link, postgresType_of_link typed link]
        simp [stamp, link]
      · rw [if_neg link]
        simp [stamp, link]
  · have undeclared := declaredTypes_absent declaredOk given
    have without {other : Text} (same : name = other) : ∀ field ∈ entity.fields, field.name ≠ other :=
      fun field mem named => given (mem_map.mpr ⟨field, mem, named.trans same.symm⟩)
    -- only Core's own columns are in the scope without being declared
    have core : (name = "id" ∧ implicitType name = some .uuid) ∨ (isStamp name ∧ implicitType name = some .timestamp) := by
      rw [Option.isSome_or, undeclared, Option.isSome_none, Bool.false_or, Option.isSome_map] at known
      by_cases isId : name = "id"
      · subst isId; exact .inl ⟨rfl, rfl⟩
      · by_cases stamp : isStamp name
        · exact .inr ⟨stamp, (if_neg isId).trans (if_pos stamp)⟩
        · have neither : implicitType name = none := (if_neg isId).trans (if_neg stamp)
          rw [neither] at known
          cases known
    have system : isSystemField name = true := by
      obtain ⟨rfl, -⟩ | ⟨stamp, -⟩ := core
      · rfl
      · exact isStamp_system stamp
    have differs : Differs parseDecimal pkTypes entity name ↔ entity.isDerived = true := by
      constructor
      · rintro (⟨derived, -⟩ | ⟨field, mem, named, -⟩)
        · exact derived
        · exact absurd named (without rfl field mem)
      · exact fun derived => .inl ⟨derived, system⟩
    rw [differs]
    by_cases derived : entity.isDerived = true
    · refine iff_of_false ?_ (not_not.mpr derived)
      rintro ⟨⟨column, mem, named⟩, -⟩
      obtain ⟨-, ordinary, -⟩ | ⟨field, inside, -, fieldMade⟩ | ⟨ordinary, -⟩ := (mem_createColumns made).mp mem
      · exact absurd derived (by simp [ordinary])
      · exact without rfl field inside ((fieldToColumn_name fieldMade).symm.trans named)
      · exact absurd derived (by simp [ordinary])
    · have ordinary : entity.isDerived = false := by simpa using derived
      refine iff_of_true ?_ derived
      obtain ⟨rfl, implicit⟩ | ⟨stamp, implicit⟩ := core
      · obtain ⟨present, typedColumns⟩ := id_column made ordinary (without rfl)
        refine (found_iff_type ?_ present typedColumns).mpr rfl
        rw [pgType, undeclared, implicit]
        rfl
      · obtain ⟨present, typedColumns⟩ := stamp_column made ordinary stamp
        refine (found_iff_type ?_ present typedColumns).mpr rfl
        rw [pgType, undeclared, implicit]
        rfl

/-- `id` is a column of every ordinary entity and of no derived one. -/
theorem id_found_iff (made : createColumns parseDecimal pkTypes entity = .ok columns)
    (types : ∀ field ∈ entity.fields, ∃ ty, FieldType.fromField parseDecimal field = .ok ty)
    (noSystem : entity.isDerived = true → ∀ field ∈ entity.fields, isSystemField field.name = false) :
    (∃ column ∈ columns, column.name = "id") ↔ entity.isDerived = false := by
  constructor
  · rintro ⟨column, mem, named⟩
    obtain ⟨-, ordinary, -⟩ | ⟨field, inside, -, fieldMade⟩ | ⟨ordinary, -⟩ := (mem_createColumns made).mp mem
    · exact ordinary
    · cases derived : entity.isDerived with
      | false => rfl
      | true =>
        have system := noSystem derived field inside
        rw [(fieldToColumn_name fieldMade).symm.trans named] at system
        cases system
    · exact ordinary
  · intro ordinary
    by_cases declared : ∃ field ∈ entity.fields, field.name = "id"
    · obtain ⟨field, mem, named⟩ := declared
      obtain ⟨ty, typed⟩ := types field mem
      obtain ⟨column, columnMade, columnName, -⟩ := fieldToColumn_ok pkTypes typed
      exact ⟨column, (mem_createColumns made).mpr (.inr (.inl ⟨field, mem, named ▸ id_not_stamp, columnMade⟩)),
        columnName.trans named⟩
    · exact (id_column made ordinary fun field mem named => declared ⟨field, mem, named⟩).1

end Entity

/-! ## The three places together -/

section Manifest

variable {crates : Crates} {manifest : AppManifest}

theorem createColumns_ok {parseDecimal : Text → Option Text} (pkTypes : PkTypes) {entity : EntityContract}
    (types : ∀ field ∈ entity.fields, ∃ ty, FieldType.fromField parseDecimal field = .ok ty) :
    ∃ columns, createColumns parseDecimal pkTypes entity = .ok columns := by
  obtain ⟨columns, made⟩ := fieldColumns_ok pkTypes types
  unfold createColumns
  rw [made]
  exact ⟨_, rfl⟩

theorem buildPkTypeMap_ok {parseDecimal : Text → Option Text} {entities : List EntityContract}
    (types : ∀ entity ∈ entities, ∀ field ∈ entity.fields, ∃ ty, FieldType.fromField parseDecimal field = .ok ty) :
    ∃ pkTypes, buildPkTypeMap parseDecimal entities = .ok pkTypes := by
  have keys : ∃ keys, entityKeys parseDecimal entities = .ok keys := by
    induction entities with
    | nil => exact ⟨_, rfl⟩
    | cons entity entities ih =>
      obtain ⟨others, othersOk⟩ := ih fun entity mem => types entity (by simp [mem])
      have key : ∃ ty, keyType parseDecimal entity = .ok ty := by
        unfold keyType
        split
        case h_1 field found =>
          obtain ⟨ty, typed⟩ := types entity (by simp) field (mem_of_find?_eq_some found)
          exact ⟨ty.postgresType, by rw [typed]; rfl⟩
        case h_2 => exact ⟨_, rfl⟩
      obtain ⟨ty, keyOk⟩ := key
      rw [entityKeys, keyOk, othersOk]
      exact ⟨_, rfl⟩
  obtain ⟨keys, keysOk⟩ := keys
  unfold buildPkTypeMap
  rw [keysOk]
  exact ⟨_, rfl⟩

/-- A rule of an admitted manifest, and its preflight query, name existing columns
    with the types the checker gave them, unless the rule is a check of a derived
    entity or reads a column on which the three places differ. -/
theorem rule_columns_iff (admitted : validateManifest crates manifest = .ok ()) {entity : EntityContract}
    (member : entity ∈ manifest.dataContract) :
    ∃ rules fields pkTypes columns, compileEntity crates entity = .ok rules ∧
      fieldTypes crates.parseDecimal entity = .ok fields ∧
      buildPkTypeMap crates.parseDecimal manifest.dataContract = .ok pkTypes ∧
      createColumns crates.parseDecimal pkTypes entity = .ok columns ∧
      ∀ object ∈ rules.objects, ∃ source, object.From crates.digest8 fields source ∧
        (Resolves columns fields object source ↔
          (object.isCheck = true → entity.isDerived = false) ∧
            ∀ name ∈ source.reads, ¬ Differs crates.parseDecimal pkTypes entity name) := by
  have facts := admitted_of_validateManifest admitted
  obtain ⟨rules, compiled⟩ := facts.compiled entity member
  obtain ⟨fields, scope⟩ := compileEntity_scope compiled
  obtain ⟨pkTypes, keys⟩ := buildPkTypeMap_ok facts.types
  obtain ⟨columns, made⟩ := createColumns_ok pkTypes (facts.types entity member)
  refine ⟨rules, fields, pkTypes, columns, compiled, scope, keys, made, fun object inside => ?_⟩
  obtain ⟨source, origin, known⟩ := compileEntity_source scope compiled object inside
  refine ⟨source, origin, ?_⟩
  have found {name : Text} (read : name ∈ source.reads) :
      Found columns fields name ↔ ¬ Differs crates.parseDecimal pkTypes entity name :=
    found_iff made scope (facts.fields entity member) (facts.types entity member) (facts.derived entity member)
      (known name read)
  have idFound := id_found_iff made (facts.types entity member) (facts.derived entity member)
  constructor
  · rintro ⟨present, typed⟩
    constructor
    · intro isCheck
      exact idFound.mp (present "id".toList (by simp [Compiled.refers, isCheck]))
    · intro name read
      exact (found read).mp ⟨present name (List.mem_append.mpr (.inr read)), typed name read⟩
  · rintro ⟨ordinary, agree⟩
    constructor
    · intro name named
      obtain own | read := List.mem_append.mp named
      · by_cases isCheck : object.isCheck = true
        · rw [if_pos isCheck, List.mem_singleton] at own
          exact own ▸ idFound.mpr (ordinary isCheck)
        · rw [if_neg isCheck] at own
          cases own
      · exact ((found read).mpr (agree name read)).1
    · intro name read
      exact ((found read).mpr (agree name read)).2

end Manifest

/-! ## Columns on which the places differ -/

/-- An admitted manifest with an entity whose one rule does not fit its table. -/
def Misfit (manifest : AppManifest) (entity : EntityContract) : Prop :=
  validateManifest sampleCrates manifest = .ok () ∧ entity ∈ manifest.dataContract ∧
    ∃ rules fields pkTypes columns object source, compileEntity sampleCrates entity = .ok rules ∧
      fieldTypes sampleCrates.parseDecimal entity = .ok fields ∧
      buildPkTypeMap sampleCrates.parseDecimal manifest.dataContract = .ok pkTypes ∧
      createColumns sampleCrates.parseDecimal pkTypes entity = .ok columns ∧ object ∈ rules.objects ∧
      object.From sampleCrates.digest8 fields source ∧ ¬ Resolves columns fields object source

def notNullCheck (field : Text) : List CheckContract :=
  [{ name := some "given", expr := field ++ " IS NOT NULL" }]

/-- Orders that link to accounts, whose key is a text. -/
def accounts : EntityContract where
  entityName := "accounts"
  fields := [{ name := "id", fieldType := "text" }]

def accountField : FieldContract where
  name := "account"
  fieldType := "entity_link"
  references := some ⟨"accounts", "id"⟩

def orders : EntityContract where
  entityName := "orders"
  fields := [accountField]
  checks := notNullCheck "account"

def ordersManifest : AppManifest := ⟨"crm", [accounts, orders]⟩

/-- Terms derived from documents, with a check of their own. -/
def documents : EntityContract where
  entityName := "documents"
  fields := [{ name := "body", fieldType := "text" }]

def terms : EntityContract where
  entityName := "terms"
  fields := [{ name := "term", fieldType := "text" }]
  checks := notNullCheck "term"
  derivedFrom := some "documents"

def termsManifest : AppManifest := ⟨"crm", [documents, terms]⟩

def scopeOf (entity : EntityContract) : Fields :=
  match fieldTypes sampleCrates.parseDecimal entity with
  | .ok fields => fields
  | .error _ => fun _ => none

def givenSource (field : Text) : Source := .check (.isNull (.field field) true)

theorem ordersManifest_valid : validateManifest sampleCrates ordersManifest = .ok () := by decide +kernel

theorem rule_columns_differ : Misfit ordersManifest orders ∧ Misfit termsManifest terms := by
  constructor
  · refine ⟨ordersManifest_valid, by simp [ordersManifest], ?_⟩
    have scope : fieldTypes sampleCrates.parseDecimal orders = .ok (scopeOf orders) := rfl
    have tags : tagsOf orders = [digestTag id ((givenSource "account".toList).canonical (scopeOf orders))] := by
      decide +kernel
    obtain ⟨rules, object, compiled, member, -, origin⟩ := object_of_tagsOf scope tags
    refine ⟨rules, scopeOf orders, _, [idColumn, { name := "account".toList, pgType := "TEXT".toList },
      stampColumn "created_at".toList, stampColumn "updated_at".toList], object, givenSource "account".toList, compiled,
      scope, rfl, by rfl, member, origin, fun resolves => ?_⟩
    have same := resolves.typed "account".toList (by decide) { name := "account".toList, pgType := "TEXT".toList }
      (by simp) rfl
    exact absurd same (by decide)
  · refine ⟨by decide +kernel, by simp [termsManifest], ?_⟩
    have scope : fieldTypes sampleCrates.parseDecimal terms = .ok (scopeOf terms) := rfl
    have tags : tagsOf terms = [digestTag id ((givenSource "term".toList).canonical (scopeOf terms))] := by
      decide +kernel
    obtain ⟨rules, object, compiled, member, -, origin⟩ := object_of_tagsOf scope tags
    refine ⟨rules, scopeOf terms, _, [{ name := "term".toList, pgType := "TEXT".toList }], object, givenSource "term".toList,
      compiled, scope, rfl, by rfl, member, origin, fun resolves => ?_⟩
    have isCheck : object.isCheck = true := by
      cases object with
      | check => rfl
      | index => exact absurd origin id
    obtain ⟨column, inside, named⟩ := resolves.present "id".toList (by simp [Compiled.refers, isCheck])
    obtain rfl := List.mem_singleton.mp inside
    exact absurd named (by decide)

/-- The check on a link is wrong exactly because the key it points at is a text. -/
theorem orders_columns :
    ∃ rules fields pkTypes columns, compileEntity sampleCrates orders = .ok rules ∧
      fieldTypes sampleCrates.parseDecimal orders = .ok fields ∧
      buildPkTypeMap sampleCrates.parseDecimal ordersManifest.dataContract = .ok pkTypes ∧
      createColumns sampleCrates.parseDecimal pkTypes orders = .ok columns ∧
      ∀ object ∈ rules.objects, ∃ source, object.From sampleCrates.digest8 fields source ∧
        (Resolves columns fields object source ↔
          (object.isCheck = true → orders.isDerived = false) ∧
            ∀ name ∈ source.reads, ¬ Differs sampleCrates.parseDecimal pkTypes orders name) :=
  rule_columns_iff ordersManifest_valid (by simp [ordersManifest])

end RootCx.Rules
