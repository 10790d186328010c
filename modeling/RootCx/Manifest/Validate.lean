import RootCx.RowAccess.Ownership
import RootCx.Rules.Compile

/-! # Admission of a manifest

`validate_manifest` of `manifest.rs`, as far as it looks at the data contract.
-/

namespace RootCx

open RootCx.Text RootCx.Postgres List

structure AppManifest where
  appId : Text
  dataContract : List EntityContract

def RESERVED_SCHEMAS : List Text :=
  ["rootcx_system", "rootcx_ext", "pgmq", "cron", "public",
    "information_schema"]

def validateNames (manifest : AppManifest) : Except Text Unit := do
  validateNewIdent manifest.appId "appId"
  if manifest.appId ∈ RESERVED_SCHEMAS ∨ "pg_" <+: manifest.appId then
    .error ("appId '" ++ manifest.appId ++ "' is reserved")
  else
    manifest.dataContract.forM fun entity => do
      validateNewIdent entity.entityName "entity name"
      entity.fields.forM fun field => validateNewIdent field.name "field name"

/-! ## Stored manifests -/

/-- A field, after those of the names seen before it. -/
def validateFields (entity : EntityContract) : List Text → List FieldContract → Except Text Unit
  | _, [] => .ok ()
  | seen, field :: rest => do
    validateIdent field.name "field name"
    if field.name ∈ seen then
      .error ("entity '" ++ entity.entityName ++ "': duplicate field '" ++ field.name ++ "'")
    else if isSystemField field.name && field.sensitive then
      .error ("entity '" ++ entity.entityName ++ "': system field '" ++ field.name ++
        "' cannot be sensitive")
    else validateFields entity (field.name :: seen) rest

def validateLink (names : List Text) (field : FieldContract) : Except Text Unit :=
  if !field.isLink then .ok ()
  else
    match field.references with
    | none => .ok ()
    | some reference =>
      match parseEntityRef reference.entity with
      | .core name =>
        if (resolveCoreEntity name).isNone then
          .error ("field '" ++ field.name ++ "' references 'core:" ++ name ++
            "' — unknown core entity")
        else .ok ()
      | .app app entity =>
        .error ("field '" ++ field.name ++ "' references '" ++ app ++ ":" ++ entity ++
          "' — cross-app references not yet supported")
      | .local target =>
        if !(target ∈ names) then
          .error ("field '" ++ field.name ++ "' references entity '" ++ target ++
            "' which is not defined in this manifest")
        else .ok ()

def entityNames (entities : List EntityContract) : List Text := entities.map (·.entityName)

def validateStoredManifest (manifest : AppManifest) : Except Text Unit := do
  validateIdent manifest.appId "appId"
  if ¬ (entityNames manifest.dataContract).Nodup then
    .error "dataContract contains duplicate entity names"
  else do
    manifest.dataContract.forM fun entity => do
      validateIdent entity.entityName "entity name"
      validateFields entity [] entity.fields
      entity.fields.forM (validateLink (entityNames manifest.dataContract))
    RowAccess.validate manifest.appId manifest.dataContract

/-! ## Derived entities -/

def refuseDerived (entity why : Text) : Except Text Unit :=
  .error ("derived entity '" ++ entity ++ "' " ++ why)

def validateDerived (entities : List EntityContract) (entity : EntityContract) : Except Text Unit :=
  if !entity.isDerived then .ok ()
  else if !(entities.any fun candidate => candidate.entityName == entity.keysEntity && !candidate.isDerived) then
    refuseDerived entity.entityName ("is derived from '" ++ entity.keysEntity ++
      "', which must be an ordinary entity of this app")
  else
    match entity.fields.find? (isSystemField ·.name) with
    | some field => refuseDerived entity.entityName ("cannot declare '" ++ field.name ++
        "': it has no system columns")
    | none =>
      if entity.fields.any (·.owner) then refuseDerived entity.entityName "cannot have an owner"
      else if entity.fields.any (·.sensitive) then
        refuseDerived entity.entityName "cannot have sensitive fields: only its own worker reads it"
      else .ok ()

/-- No link leads to a derived entity. -/
def validateNotDerived (entities : List EntityContract) (entity : EntityContract) (field : FieldContract) :
    Except Text Unit :=
  if !field.isLink then .ok ()
  else
    match field.references with
    | none => .ok ()
    | some reference =>
      match parseEntityRef reference.entity with
      | .local target =>
        if entities.any fun candidate => candidate.isDerived && candidate.entityName == target then
          refuseDerived target ("cannot be linked to: '" ++ entity.entityName ++ "." ++ field.name ++
            "' would need an id it does not have")
        else .ok ()
      | _ => .ok ()

def validateDerivedEntities (manifest : AppManifest) : Except Text Unit := do
  manifest.dataContract.forM (validateDerived manifest.dataContract)
  manifest.dataContract.forM fun entity => entity.fields.forM (validateNotDerived manifest.dataContract entity)

/-! ## The manifest -/

def validateTypes (parseDecimal : Text → Option Text) (manifest : AppManifest) : Except Text Unit :=
  manifest.dataContract.forM fun entity => entity.fields.forM fun field => do
    let _ ← FieldType.fromField parseDecimal field
    .ok ()

/-- `row_access::validate_sql_declarations`. -/
def validateSqlDeclarations (crates : Rules.Crates) (manifest : AppManifest) : Except Text Unit :=
  manifest.dataContract.forM fun entity => do
    let _ ← (Rules.compileEntity crates entity).mapError fun reason =>
      "SQL admission for '" ++ manifest.appId ++ "." ++ entity.entityName ++ "': " ++ reason
    .ok ()

def validateManifest (crates : Rules.Crates) (manifest : AppManifest) : Except Text Unit := do
  validateNames manifest
  validateStoredManifest manifest
  validateTypes crates.parseDecimal manifest
  validateDerivedEntities manifest
  validateSqlDeclarations crates manifest

/-! ## What admission promises -/

theorem forM_eq_ok {α : Type} {list : List α} {action : α → Except Text Unit} :
    list.forM action = .ok () ↔ ∀ x ∈ list, action x = .ok () := by
  induction list with
  | nil => simp [List.forM, pure, Except.pure]
  | cons x list ih =>
    show (action x >>= fun _ => list.forM action) = .ok () ↔ _
    rw [bind_eq_ok, forall_mem_cons, ← ih]
    constructor
    · rintro ⟨_, first, others⟩
      exact ⟨first, others⟩
    · rintro ⟨first, others⟩
      exact ⟨(), first, others⟩

theorem validateFields_nodup {entity : EntityContract} {seen : List Text} {list : List FieldContract}
    (ok : validateFields entity seen list = .ok ()) :
    (list.map (·.name)).Nodup ∧ ∀ field ∈ list, field.name ∉ seen := by
  induction list generalizing seen with
  | nil => exact ⟨nodup_nil, fun _ mem => nomatch mem⟩
  | cons field list ih =>
    obtain ⟨_, -, ok⟩ := bind_eq_ok.mp ok
    split at ok
    case isTrue => cases ok
    case isFalse new =>
      split at ok
      case isTrue => cases ok
      case isFalse =>
        obtain ⟨unique, unseen⟩ := ih ok
        constructor
        · rw [map_cons, nodup_cons]
          refine ⟨fun again => ?_, unique⟩
          obtain ⟨other, mem, same⟩ := mem_map.mp again
          exact unseen other mem (by simp [same])
        · intro other mem
          obtain rfl | older := mem_cons.mp mem
          · exact new
          · exact fun before => unseen other older (by simp [before])

/-- What an admitted manifest keeps: the facts the generators of DDL rely on. -/
structure AppManifest.Admitted (crates : Rules.Crates) (manifest : AppManifest) : Prop where
  entities : (entityNames manifest.dataContract).Nodup
  fields : ∀ entity ∈ manifest.dataContract, (entity.fields.map (·.name)).Nodup
  types : ∀ entity ∈ manifest.dataContract, ∀ field ∈ entity.fields,
    ∃ fieldType, FieldType.fromField crates.parseDecimal field = .ok fieldType
  derived : ∀ entity ∈ manifest.dataContract, entity.isDerived = true →
    ∀ field ∈ entity.fields, isSystemField field.name = false
  compiled : ∀ entity ∈ manifest.dataContract, ∃ rules, Rules.compileEntity crates entity = .ok rules
  links : ∀ entity ∈ manifest.dataContract, ∀ field ∈ entity.fields,
    validateLink (entityNames manifest.dataContract) field = .ok ()

theorem admitted_of_validateManifest {crates : Rules.Crates} {manifest : AppManifest}
    (ok : validateManifest crates manifest = .ok ()) : manifest.Admitted crates := by
  obtain ⟨_, -, ok⟩ := bind_eq_ok.mp ok
  obtain ⟨_, stored, ok⟩ := bind_eq_ok.mp ok
  obtain ⟨_, typed, ok⟩ := bind_eq_ok.mp ok
  obtain ⟨_, derived, declared⟩ := bind_eq_ok.mp ok
  obtain ⟨_, -, stored⟩ := bind_eq_ok.mp stored
  split at stored
  case isTrue => cases stored
  case isFalse unique =>
    obtain ⟨_, perEntity, -⟩ := bind_eq_ok.mp stored
    obtain ⟨_, derivedOk, -⟩ := bind_eq_ok.mp derived
    refine ⟨not_not.mp unique, ?_, ?_, ?_, ?_, ?_⟩
    · intro entity mem
      obtain ⟨_, -, rest⟩ := bind_eq_ok.mp (forM_eq_ok.mp perEntity entity mem)
      obtain ⟨_, fieldsOk, -⟩ := bind_eq_ok.mp rest
      exact (validateFields_nodup fieldsOk).1
    · intro entity mem field inside
      obtain ⟨fieldType, found, -⟩ := bind_eq_ok.mp (forM_eq_ok.mp (forM_eq_ok.mp typed entity mem) field inside)
      exact ⟨fieldType, found⟩
    · intro entity mem isDerived field inside
      have ok := forM_eq_ok.mp derivedOk entity mem
      unfold validateDerived at ok
      rw [isDerived, Bool.not_true, if_neg Bool.false_ne_true] at ok
      split at ok
      case isTrue => cases ok
      case isFalse =>
        split at ok
        case h_1 => cases ok
        case h_2 noSystem => simpa using find?_eq_none.mp noSystem field inside
    · intro entity mem
      obtain ⟨rules, compiled, -⟩ := bind_eq_ok.mp (forM_eq_ok.mp declared entity mem)
      exact ⟨rules, mapError_eq_ok.mp compiled⟩
    · intro entity mem field inside
      obtain ⟨_, -, rest⟩ := bind_eq_ok.mp (forM_eq_ok.mp perEntity entity mem)
      obtain ⟨_, -, linksOk⟩ := bind_eq_ok.mp rest
      exact forM_eq_ok.mp linksOk field inside

end RootCx
