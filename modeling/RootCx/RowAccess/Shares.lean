import Mathlib
import RootCx.RowAccess.Sharing

/-! # Shares

The declarations of `governance/row_access/sharing.rs`: their admission, the
entities they make readable to others, and the selects behind such an entity.
-/

namespace RootCx.RowAccess.Sharing

open RootCx.Text RootCx.Postgres List

/-! ## Declarations -/

inductive ShareScope where
  | identity
  | resource
  deriving DecidableEq, Repr

/-- The links from a readable entity to the subject of a share. -/
structure ShareTarget where
  entity : Text
  via : List Text
  deriving DecidableEq, Repr

structure ShareContract where
  grantee : Text
  subject : Text
  /-- `active_when.is_null` -/
  activeWhen : Text
  scope : ShareScope := .identity
  targets : List ShareTarget := []

structure SharedEntity extends EntityContract where
  share : Option ShareContract := none

structure SharedManifest where
  appId : Text
  dataContract : List SharedEntity

def SharedManifest.entities (manifest : SharedManifest) : List EntityContract :=
  manifest.dataContract.map (·.toEntityContract)

/-! ## Resource paths -/

def MAX_RESOURCE_ENTITIES : Nat := 4

def readableKey (entity : EntityContract) (name : Text) : Except Text Unit :=
  if entity.fields.any fun field => decide (field.name = name) && field.sensitive then
    .error ("resource share requires a nonsensitive key '" ++ entity.entityName ++ "." ++ name ++
      "'")
  else .ok ()

structure ResourcePath where
  tables : Text
  pk : Text
  resource : Text
  deriving DecidableEq, Repr

section Paths

variable (appId : Text) (entities : List EntityContract)

/-- The loop of `resource_path`: the joined tables, and the entity it ends at. -/
def resourceFrom : List Text → Nat → List Text → Text → EntityContract → Except Text (Text × EntityContract)
  | [], _, _, tables, current => .ok (tables, current)
  | field :: via, index, visited, tables, current => do
    readableKey current field
    let next ← link entities current field
    readableKey next (primary next)
    if next.entityName ∈ visited then .error "resource share path must not loop or repeat an entity"
    else
      resourceFrom via (index + 1) (next.entityName :: visited)
        (tables ++ joinAt appId "t" index field next.entityName (primary next)) next

def resourcePath (subject : EntityContract) (target : ShareTarget) : Except Text ResourcePath :=
  if target.via = [] ∨ target.via.length ≥ MAX_RESOURCE_ENTITIES then
    .error "resource share path must contain 1 to 3 local links"
  else do
    let current ← entity entities target.entity
    readableKey current (primary current)
    let walked ← resourceFrom appId entities target.via 0 [current.entityName]
      (tableAt appId "t" 0 current.entityName) current
    if walked.2.entityName ≠ subject.entityName then
      .error ("resource share path from '" ++ target.entity ++ "' must end at subject entity '" ++
        subject.entityName ++ "'")
    else
      .ok ⟨walked.1, columnAt "t" 0 (primary current),
        columnAt "t" target.via.length (primary subject)⟩

end Paths

/-! ## Targets -/

section Targets

variable (manifest : SharedManifest)

/-- Whether others may read rows of an entity. -/
def isTarget (target : EntityContract) : Bool :=
  manifest.dataContract.any fun source =>
    match source.share with
    | none => false
    | some share =>
      match share.scope with
      | .identity => (ownerField target).isSome
      | .resource =>
        ((source.fields.find? (·.name = share.subject)).bind (·.references)).any (·.entity = target.entityName) ||
          share.targets.any (·.entity = target.entityName)

def sharedEntities : List EntityContract := manifest.entities.filter (isTarget manifest)

/-! ## Admission -/

def validateTargets (subject : EntityContract) : List ShareTarget → List ShareTarget → Except Text Unit
  | _, [] => .ok ()
  | seen, target :: rest =>
    if target ∈ seen then .error ("duplicate resource share path for '" ++ target.entity ++ "'")
    else do
      let _ ← resourcePath manifest.appId manifest.entities subject target
      validateTargets subject (target :: seen) rest

def validateScope (source : EntityContract) (share : ShareContract) : Except Text Unit :=
  match share.scope with
  | .identity => do
    let _ ← ownedLink manifest.entities source share.subject
    if share.targets ≠ [] then .error "share targets require scope 'resource'" else .ok ()
  | .resource => do
    let subject ← link manifest.entities source share.subject
    readableKey subject (primary subject)
    if share.targets.length > 32 then .error "resource share supports at most 32 target paths"
    else validateTargets manifest subject [] share.targets

def validateActive (source : EntityContract) (share : ShareContract) : Except Text Unit :=
  let inEntity := "entity '" ++ source.entityName ++ "': share activeWhen.isNull "
  match source.fields.find? (·.name = share.activeWhen) with
  | none => .error (inEntity ++ "names missing field '" ++ share.activeWhen ++ "'")
  | some active =>
    if !(active.fieldType ∈ ["date".toList, "timestamp".toList]) || active.required then
      .error (inEntity ++ "field '" ++ active.name ++ "' must be a nullable date or timestamp")
    else .ok ()

def validateShare (source : EntityContract) (share : ShareContract) : Except Text Unit :=
  let index := "rootcx_share_" ++ manifest.appId ++ "_" ++ source.entityName
  if !fitsIdentLimit index then
    .error ("share index '" ++ index ++ "' exceeds PostgreSQL's 63-byte identifier limit")
  else if share.grantee = share.subject then
    .error ("entity '" ++ source.entityName ++ "': share grantee and subject must be different fields")
  else do
    let grantee ← ownedLink manifest.entities source share.grantee
    let _ ← path manifest.appId manifest.entities grantee.entityName "g"
    validateScope manifest source share
    validateActive source share

def validateOwnerReadable (owned : EntityContract) : Except Text Unit :=
  if owned.fields.any fun field => field.owner && field.sensitive then
    .error ("entity '" ++ owned.entityName ++
      "': shared access requires a nonsensitive owner field; its resolver returns ownership keys")
  else .ok ()

def sharedResolverName (table : Text) : Text :=
  "rootcx_shared." ++ manifest.appId ++ "." ++ table

def validateTarget (target : EntityContract) : Except Text Unit :=
  let resolver := sharedResolverName manifest target.entityName
  if !fitsIdentLimit resolver then
    .error ("share resolver '" ++ resolver ++ "' exceeds PostgreSQL's 63-byte identifier limit")
  else if (ownerField target).isNone then .ok ()
  else do
    let _ ← path manifest.appId manifest.entities target.entityName "v"
    .ok ()

/-- `sharing::validate` -/
def validateSharing : Except Text Unit := do
  manifest.dataContract.forM fun source =>
    match source.share with
    | none => .ok ()
    | some share => validateShare manifest source.toEntityContract share
  (if manifest.dataContract.any (·.share.isSome) then manifest.entities else []).forM validateOwnerReadable
  (sharedEntities manifest).forM (validateTarget manifest)

/-- `validate_stored_manifest` of a manifest with shares. -/
def validateStored : Except Text Unit := do
  validateStoredManifest ⟨manifest.appId, manifest.entities⟩
  validateSharing manifest

/-! ## Selects -/

/-- Who may read: a caller with the key of the entity, himself or through the app. -/
def guard (table : Text) : Text :=
  "(SELECT rootcx_system.check_access(" ++
    quoteLiteral ("app:" ++ manifest.appId ++ ":" ++ table ++ ".read.shared") ++
    ")) AND\n         (current_setting('rootcx.human_data_request', true) = '1' OR\n          nullif(current_setting('rootcx.app_id', true), '') = " ++
    quoteLiteral manifest.appId ++ ")"

/-- Rows of a share that is active and was granted to the caller. -/
def grantedTo (source : EntityContract) (share : ShareContract) (grantee : Path) (subject subjectKey break_ : Text) :
    Text :=
  " FROM " ++ quoteIdent manifest.appId ++ "." ++ quoteIdent source.entityName ++ " a, " ++
    grantee.tables ++ ", " ++ subject ++ break_ ++ "WHERE a." ++ quoteIdent share.grantee ++ " = " ++
    grantee.pk ++ " AND a." ++ quoteIdent share.subject ++ " = " ++ subjectKey ++ " AND a." ++
    quoteIdent share.activeWhen ++ " IS NULL AND " ++ grantee.identity ++ " =" ++ break_ ++
    "(SELECT nullif(current_setting('rootcx.user_id', true), ''))::" ++ grantee.identityType

def resourceSelect (table : Text) (source : EntityContract) (share : ShareContract) (grantee : Path)
    (target : ResourcePath) : Text :=
  "SELECT " ++ target.pk ++
    grantedTo manifest source share grantee target.tables target.resource "\n                 " ++
    "\n                 AND (" ++ guard manifest table ++ ")"

/-- The subject itself, for the selects of its own table. -/
def subjectPath (table : Text) (subject : EntityContract) : List ResourcePath :=
  if subject.entityName = table then
    let pk := columnAt "t" 0 (primary subject)
    [⟨tableAt manifest.appId "t" 0 table, pk, pk⟩]
  else []

/-- The selects that one entity's share contributes. -/
def sourceSelects (table : Text) (source : SharedEntity) : Except Text (List Text) :=
  match source.share.filter (·.scope = .resource) with
  | none => .ok []
  | some share => do
    let subject ← link manifest.entities source.toEntityContract share.subject
    let owned ← ownedLink manifest.entities source.toEntityContract share.grantee
    let grantee ← path manifest.appId manifest.entities owned.entityName "g"
    let paths ← (share.targets.filter (·.entity = table)).mapM
      (resourcePath manifest.appId manifest.entities subject)
    .ok ((subjectPath manifest table subject ++ paths).map (resourceSelect manifest table source.toEntityContract share grantee))

def resourceSelects (table : Text) : Except Text (List Text) := do
  let selects ← manifest.dataContract.mapM (sourceSelects manifest table)
  .ok selects.flatten

structure SharedSelect where
  column : Text
  ty : Text
  select : Text
  deriving DecidableEq, Repr

def IDENTITY_PATTERN : Text :=
  "'^[0-9a-f]\x7b8\x7d-[0-9a-f]\x7b4\x7d-[0-9a-f]\x7b4\x7d-[0-9a-f]\x7b4\x7d-[0-9a-f]\x7b12\x7d$'"

/-- A text column may hold values that are no user ids. -/
def identityText (subject : Path) : Text :=
  if subject.identityType = "text" then
    "CASE WHEN " ++ subject.identity ++ " ~ " ++ IDENTITY_PATTERN ++ " THEN " ++ subject.identity ++
      " END"
  else subject.identity ++ "::text"

def identitySubject (source : SharedEntity) : Except Text (Option Text) :=
  match source.share.filter (·.scope = .identity) with
  | none => .ok none
  | some share => do
    let owned ← ownedLink manifest.entities source.toEntityContract share.grantee
    let grantee ← path manifest.appId manifest.entities owned.entityName "g"
    let subjectEntity ← ownedLink manifest.entities source.toEntityContract share.subject
    let subject ← path manifest.appId manifest.entities subjectEntity.entityName "s"
    .ok (some ("SELECT " ++ identityText subject ++ " AS identity" ++
      grantedTo manifest source.toEntityContract share grantee subject.tables subject.pk "\n             "))

variable (catalog : Catalog)

def missing (what schema table column : Text) : Text :=
  "share: " ++ what ++ " '" ++ schema ++ "." ++ table ++ "." ++ column ++ "' is missing"

def identityRows (table ty : Text) : Option Text → Except Text Text
  | some parent => do
    let target ← path manifest.appId manifest.entities parent "t"
    .ok ("SELECT DISTINCT " ++ target.pk ++ " FROM " ++ target.tables ++ " WHERE " ++
      guard manifest table ++ " AND " ++ target.identity ++ " IN\n             (SELECT identity::" ++
      target.identityType ++ " FROM subjects WHERE identity IS NOT NULL)")
  | none =>
    .ok ("SELECT DISTINCT identity::" ++ ty ++ " FROM subjects WHERE " ++ guard manifest table ++
      " AND identity IS NOT NULL")

def identitySelect (owners : OwnerMap) (table : Text) : Except Text (Option SharedSelect) :=
  match owners table with
  | none => .ok none
  | some (column, parent) => do
    let subjects ← manifest.dataContract.mapM (identitySubject manifest)
    if subjects.reduceOption = [] then .ok none
    else
      match catalog.columnType table column with
      | none => .error (missing "column" manifest.appId table column)
      | some ty => do
        let rows ← identityRows manifest table ty parent
        .ok (some ⟨column, ty, "WITH subjects AS (" ++ join " UNION ALL " subjects.reduceOption ++
          ") " ++ rows⟩)

def noDeclaration (table : Text) : Text :=
  "share: entity '" ++ table ++ "' has no shared read declaration"

/-- The rows of an identity share among those of a table with resource shares. -/
def mixedSelect (table column : Text) (legacy : SharedSelect) : Text :=
  "SELECT " ++ quoteIdent column ++ " FROM " ++ quoteIdent manifest.appId ++ "." ++
    quoteIdent table ++ " WHERE " ++ quoteIdent legacy.column ++ " IN (" ++ legacy.select ++ ")"

/-- `declare`, up to the statements that create the resolver. -/
def declare (owners : OwnerMap) (table : Text) : Except Text SharedSelect := do
  let selects ← resourceSelects manifest table
  let legacy ← identitySelect manifest catalog owners table
  if selects = [] then
    match legacy with
    | none => .error (noDeclaration table)
    | some legacy => .ok legacy
  else do
    let target ← entity manifest.entities table
    match catalog.columnType table (primary target) with
    | none => .error (missing "primary key" manifest.appId table (primary target))
    | some ty =>
      .ok ⟨primary target, ty, join " UNION "
        (selects ++ (legacy.map (mixedSelect manifest table (primary target))).toList)⟩

end Targets

/-! ## Accepted paths -/

section Follow

variable {appId : Text} {entities : List EntityContract} {source target : EntityContract} {field : Text}

/-- A field of an entity is a local link to the key of another. -/
structure KeyLink (entities : List EntityContract) (source : EntityContract) (field : Text) (target : EntityContract) :
    Prop where
  member : target ∈ entities
  declared : ∃ declared reference, declared ∈ source.fields ∧ declared.name = field ∧ declared.isLink = true ∧
    declared.references = some reference ∧ RefTarget.isLocal (parseEntityRef reference.entity) = true ∧
    reference.entity = target.entityName ∧ reference.field = primary target

/-- The entities that a list of links visits, from the first to the last. -/
inductive LinkPath (entities : List EntityContract) : List Text → List EntityContract → EntityContract → Prop where
  | done (last : EntityContract) : LinkPath entities [] [last] last
  | link {field : Text} {via : List Text} {current next last : EntityContract} {visited : List EntityContract}
      (keyed : KeyLink entities current field next) (rest : LinkPath entities via (next :: visited) last) :
      LinkPath entities (field :: via) (current :: next :: visited) last

theorem entity_ok {name : Text} (found : entity entities name = .ok target) :
    target ∈ entities ∧ target.entityName = name := by
  unfold entity at found
  split at found
  case h_2 => cases found
  case h_1 other here =>
    cases found
    exact ⟨mem_of_find?_eq_some here, by simpa using find?_some here⟩

theorem link_ok (followed : link entities source field = .ok target) :
    ∃ declared reference, source.fields.find? (·.name = field) = some declared ∧ declared.isLink = true ∧
      declared.references = some reference ∧ RefTarget.isLocal (parseEntityRef reference.entity) = true ∧
      entity entities reference.entity = .ok target ∧ reference.field = primary target := by
  unfold link at followed
  dsimp only at followed
  split at followed
  case h_1 => cases followed
  case h_2 declared found =>
    split at followed
    case h_1 => cases followed
    case h_2 reference referenced =>
      obtain ⟨referenced, linked⟩ := Option.filter_eq_some_iff.mp referenced
      split at followed
      case isTrue => cases followed
      case isFalse isLocal =>
        obtain ⟨other, there, followed⟩ := bind_eq_ok.mp followed
        split at followed
        case isTrue => cases followed
        case isFalse keyed =>
          cases followed
          exact ⟨declared, reference, found, linked, referenced, by simpa using isLocal, there, not_not.mp keyed⟩

theorem keyLink_of_link (followed : link entities source field = .ok target) : KeyLink entities source field target := by
  obtain ⟨declared, reference, found, linked, referenced, isLocal, there, keyed⟩ := link_ok followed
  obtain ⟨mem, named⟩ := entity_ok there
  exact ⟨mem, declared, reference, mem_of_find?_eq_some found, by simpa using find?_some found, linked,
    referenced, isLocal, named.symm, keyed⟩

theorem resourceFrom_ok {via : List Text} {index : Nat} {visited : List Text} {tables : Text}
    {walked : Text × EntityContract} (ok : resourceFrom appId entities via index visited tables source = .ok walked) :
    ∃ others, LinkPath entities via (source :: others) walked.2 ∧ (others.map (·.entityName)).Nodup ∧
      ∀ other ∈ others, other.entityName ∉ visited := by
  induction via generalizing index visited tables source with
  | nil =>
    cases ok
    exact ⟨[], .done source, nodup_nil, fun _ mem => nomatch mem⟩
  | cons field via ih =>
    obtain ⟨_, -, ok⟩ := bind_eq_ok.mp ok
    obtain ⟨next, followed, ok⟩ := bind_eq_ok.mp ok
    obtain ⟨_, -, ok⟩ := bind_eq_ok.mp ok
    split at ok
    case isTrue => cases ok
    case isFalse fresh =>
      obtain ⟨others, walk, distinct, unseen⟩ := ih ok
      refine ⟨next :: others, .link (keyLink_of_link followed) walk, ?_, ?_⟩
      · rw [map_cons, nodup_cons]
        refine ⟨fun again => ?_, distinct⟩
        obtain ⟨other, mem, same⟩ := mem_map.mp again
        exact unseen other mem (by simp [same])
      · intro other mem
        obtain rfl | later := mem_cons.mp mem
        · exact fresh
        · exact fun before => unseen other later (mem_cons_of_mem _ before)

/-- An accepted resource path visits an entity once, by links to keys, and ends at
    the subject. -/
theorem resourcePath_ok {subject : EntityContract} {declared : ShareTarget} {walked : ResourcePath}
    (ok : resourcePath appId entities subject declared = .ok walked) :
    ∃ start others last, start ∈ entities ∧ start.entityName = declared.entity ∧
      LinkPath entities declared.via (start :: others) last ∧ ((start :: others).map (·.entityName)).Nodup ∧
      last.entityName = subject.entityName := by
  unfold resourcePath at ok
  split at ok
  case isTrue => cases ok
  case isFalse =>
    obtain ⟨start, there, ok⟩ := bind_eq_ok.mp ok
    obtain ⟨_, -, ok⟩ := bind_eq_ok.mp ok
    obtain ⟨walk, walks, ok⟩ := bind_eq_ok.mp ok
    split at ok
    case isTrue => cases ok
    case isFalse ends =>
      obtain ⟨mem, named⟩ := entity_ok there
      obtain ⟨others, path, distinct, unseen⟩ := resourceFrom_ok walks
      refine ⟨start, others, walk.2, mem, named, path, ?_, not_not.mp ends⟩
      rw [map_cons, nodup_cons]
      refine ⟨fun again => ?_, distinct⟩
      obtain ⟨other, inside, same⟩ := mem_map.mp again
      exact unseen other inside (by simp [same])

end Follow

variable {source : EntityContract} {share : ShareContract}

/-! ## What admission promises -/

section Admitted

variable {manifest : SharedManifest}

/-- What the selects need of an accepted manifest. -/
structure Shareable (manifest : SharedManifest) : Prop where
  names : (manifest.entities.map (·.entityName)).Nodup
  fields : ∀ entity ∈ manifest.entities, (entity.fields.map (·.name)).Nodup
  granted : ∀ source ∈ manifest.dataContract, ∀ share, source.share = some share →
    ∃ grantee walked, ownedLink manifest.entities source.toEntityContract share.grantee = .ok grantee ∧
      path manifest.appId manifest.entities grantee.entityName "g" = .ok walked
  identity : ∀ source ∈ manifest.dataContract, ∀ share, source.share = some share → share.scope = .identity →
    ∃ subject, ownedLink manifest.entities source.toEntityContract share.subject = .ok subject
  resource : ∀ source ∈ manifest.dataContract, ∀ share, source.share = some share → share.scope = .resource →
    ∃ subject, link manifest.entities source.toEntityContract share.subject = .ok subject ∧
      ∀ target ∈ share.targets, ∃ walked, resourcePath manifest.appId manifest.entities subject target = .ok walked
  owned : ∀ target ∈ manifest.entities, isTarget manifest target = true → (ownerField target).isSome →
    ∃ walked, path manifest.appId manifest.entities target.entityName "v" = .ok walked

theorem validateTargets_ok {subject : EntityContract} {seen targets : List ShareTarget}
    (ok : validateTargets manifest subject seen targets = .ok ()) :
    ∀ target ∈ targets, ∃ walked, resourcePath manifest.appId manifest.entities subject target = .ok walked := by
  induction targets generalizing seen with
  | nil => exact fun _ mem => nomatch mem
  | cons target targets ih =>
    rw [validateTargets] at ok
    split at ok
    case isTrue => cases ok
    case isFalse =>
      obtain ⟨walked, walks, ok⟩ := bind_eq_ok.mp ok
      rw [forall_mem_cons]
      exact ⟨⟨walked, walks⟩, ih ok⟩

theorem validateShare_ok (ok : validateShare manifest source share = .ok ()) :
    (∃ grantee walked, ownedLink manifest.entities source share.grantee = .ok grantee ∧
      path manifest.appId manifest.entities grantee.entityName "g" = .ok walked) ∧
      validateScope manifest source share = .ok () := by
  unfold validateShare at ok
  dsimp only at ok
  split at ok
  case isTrue => cases ok
  case isFalse =>
    split at ok
    case isTrue => cases ok
    case isFalse =>
      obtain ⟨grantee, follows, ok⟩ := bind_eq_ok.mp ok
      obtain ⟨walked, walks, ok⟩ := bind_eq_ok.mp ok
      obtain ⟨_, inScope, -⟩ := bind_eq_ok.mp ok
      exact ⟨⟨grantee, walked, follows, walks⟩, inScope⟩

theorem validateScope_identity (scope : share.scope = .identity)
    (ok : validateScope manifest source share = .ok ()) :
    ∃ subject, ownedLink manifest.entities source share.subject = .ok subject := by
  unfold validateScope at ok
  rw [scope] at ok
  obtain ⟨subject, follows, -⟩ := bind_eq_ok.mp ok
  exact ⟨subject, follows⟩

theorem validateScope_resource (scope : share.scope = .resource)
    (ok : validateScope manifest source share = .ok ()) :
    ∃ subject, link manifest.entities source share.subject = .ok subject ∧
      ∀ target ∈ share.targets, ∃ walked, resourcePath manifest.appId manifest.entities subject target = .ok walked := by
  unfold validateScope at ok
  rw [scope] at ok
  obtain ⟨subject, follows, ok⟩ := bind_eq_ok.mp ok
  obtain ⟨_, -, ok⟩ := bind_eq_ok.mp ok
  split at ok
  case isTrue => cases ok
  case isFalse => exact ⟨subject, follows, validateTargets_ok ok⟩

theorem validateTarget_ok {target : EntityContract} (ok : validateTarget manifest target = .ok ())
    (owned : (ownerField target).isSome) :
    ∃ walked, path manifest.appId manifest.entities target.entityName "v" = .ok walked := by
  unfold validateTarget at ok
  dsimp only at ok
  split at ok
  case isTrue => cases ok
  case isFalse =>
    split at ok
    case isTrue none =>
      rw [Option.isNone_iff_eq_none.mp none] at owned
      cases owned
    case isFalse =>
      obtain ⟨walked, walks, -⟩ := bind_eq_ok.mp ok
      exact ⟨walked, walks⟩

theorem names_of_validateStoredManifest {stored : AppManifest} (ok : validateStoredManifest stored = .ok ()) :
    (stored.dataContract.map (·.entityName)).Nodup ∧
      ∀ entity ∈ stored.dataContract, (entity.fields.map (·.name)).Nodup := by
  obtain ⟨_, -, ok⟩ := bind_eq_ok.mp ok
  split at ok
  case isTrue => cases ok
  case isFalse unique =>
    obtain ⟨_, perEntity, -⟩ := bind_eq_ok.mp ok
    refine ⟨not_not.mp unique, fun entity mem => ?_⟩
    obtain ⟨_, -, rest⟩ := bind_eq_ok.mp (forM_eq_ok.mp perEntity entity mem)
    obtain ⟨_, fieldsOk, -⟩ := bind_eq_ok.mp rest
    exact (validateFields_nodup fieldsOk).1

theorem shareable_of_validateStored (accepted : validateStored manifest = .ok ()) : Shareable manifest := by
  obtain ⟨_, stored, accepted⟩ := bind_eq_ok.mp accepted
  obtain ⟨_, shares, accepted⟩ := bind_eq_ok.mp accepted
  obtain ⟨_, -, targets⟩ := bind_eq_ok.mp accepted
  obtain ⟨names, fields⟩ := names_of_validateStoredManifest stored
  have declared (source) (mem : source ∈ manifest.dataContract) (share) (shares' : source.share = some share) :
      validateShare manifest source.toEntityContract share = .ok () := by
    have ok := forM_eq_ok.mp shares source mem
    rwa [shares'] at ok
  refine ⟨names, fields, ?_, ?_, ?_, ?_⟩
  · exact fun source mem share shares => (validateShare_ok (declared source mem share shares)).1
  · exact fun source mem share shares scope =>
      validateScope_identity scope (validateShare_ok (declared source mem share shares)).2
  · exact fun source mem share shares scope =>
      validateScope_resource scope (validateShare_ok (declared source mem share shares)).2
  · exact fun target mem isTarget owned =>
      validateTarget_ok (forM_eq_ok.mp targets target (mem_filter.mpr ⟨mem, isTarget⟩)) owned

end Admitted

/-! ## What there is to select -/

section Selects

variable {manifest : SharedManifest} {table : Text} {source : SharedEntity} {target : EntityContract}

/-- A resource share of an entity reaches a table: as its subject, or by a target. -/
def Reaches (source : SharedEntity) (table : Text) : Prop :=
  ∃ share, source.share = some share ∧ share.scope = .resource ∧
    (((source.fields.find? (·.name = share.subject)).bind (·.references)).any (·.entity = table) = true ∨
      ∃ target ∈ share.targets, target.entity = table)

def SharesIdentity (source : SharedEntity) : Prop := ∃ share, source.share = some share ∧ share.scope = .identity

theorem isTarget_iff : isTarget manifest target = true ↔
    (∃ source ∈ manifest.dataContract, Reaches source target.entityName) ∨
      (ownerField target).isSome ∧ ∃ source ∈ manifest.dataContract, SharesIdentity source := by
  unfold isTarget
  rw [any_eq_true]
  constructor
  · rintro ⟨source, mem, shared⟩
    split at shared
    case h_1 => cases shared
    case h_2 share declared =>
      split at shared
      case h_1 scope => exact .inr ⟨shared, source, mem, share, declared, scope⟩
      case h_2 scope =>
        refine .inl ⟨source, mem, share, declared, scope, ?_⟩
        simpa only [Bool.or_eq_true, any_eq_true, decide_eq_true_eq] using shared
  · rintro (⟨source, mem, share, declared, scope, reached⟩ | ⟨owned, source, mem, share, declared, scope⟩)
    · refine ⟨source, mem, ?_⟩
      rw [declared]
      dsimp only
      rw [scope]
      simpa only [Bool.or_eq_true, any_eq_true, decide_eq_true_eq] using reached
    · refine ⟨source, mem, ?_⟩
      rw [declared]
      dsimp only
      rw [scope]
      exact owned

theorem subject_iff {source subject : EntityContract} {field : Text}
    (followed : link manifest.entities source field = .ok subject) :
    ((source.fields.find? (·.name = field)).bind (·.references)).any (·.entity = table) = true ↔
      subject.entityName = table := by
  obtain ⟨declared, reference, found, -, referenced, -, there, -⟩ := link_ok followed
  rw [found, Option.bind_some, referenced, (entity_ok there).2]
  simp

theorem sourceSelects_ok (shareable : Shareable manifest) (mem : source ∈ manifest.dataContract) (table : Text) :
    ∃ selects, sourceSelects manifest table source = .ok selects ∧ (selects ≠ [] ↔ Reaches source table) := by
  unfold sourceSelects
  cases declared : source.share.filter (·.scope = .resource) with
  | none =>
    refine ⟨[], rfl, fun absent => absurd rfl absent, ?_⟩
    rintro ⟨share, shares, scope, -⟩
    rw [shares, Option.filter_some, if_pos (by simpa using scope)] at declared
    cases declared
  | some share =>
    obtain ⟨shares, scope⟩ := Option.filter_eq_some_iff.mp declared
    have scope : share.scope = .resource := by simpa using scope
    obtain ⟨subject, follows, paths⟩ := shareable.resource source mem share shares scope
    obtain ⟨grantee, walked, owned, walks⟩ := shareable.granted source mem share shares
    have filtered : ∀ target ∈ share.targets.filter (·.entity = table), ∃ walked,
        resourcePath manifest.appId manifest.entities subject target = .ok walked :=
      fun target inside => paths target (mem_filter.mp inside).1
    obtain ⟨found, ran, mem_iff⟩ := mapM_ok_of_forall filtered
    refine ⟨(subjectPath manifest table subject ++ found).map
      (resourceSelect manifest table source.toEntityContract share walked), ?_, ?_⟩
    · exact bind_eq_ok.mpr ⟨subject, follows, bind_eq_ok.mpr ⟨grantee, owned, bind_eq_ok.mpr
        ⟨walked, walks, bind_eq_ok.mpr ⟨found, ran, rfl⟩⟩⟩⟩
    · have some_path : found ≠ [] ↔ ∃ target ∈ share.targets, target.entity = table := by
        constructor
        · intro filled
          obtain ⟨path, inside⟩ := exists_mem_of_ne_nil found filled
          obtain ⟨target, kept, -⟩ := (mem_iff path).mp inside
          obtain ⟨mem, named⟩ := mem_filter.mp kept
          exact ⟨target, mem, by simpa using named⟩
        · rintro ⟨target, inside, named⟩
          obtain ⟨path, walks⟩ := paths target inside
          exact ne_nil_of_mem ((mem_iff path).mpr
            ⟨target, mem_filter.mpr ⟨inside, by simpa using named⟩, walks⟩)
      have own_path : subjectPath manifest table subject ≠ [] ↔ subject.entityName = table := by
        unfold subjectPath
        split <;> simp_all
      rw [ne_eq, map_eq_nil_iff, append_eq_nil_iff, not_and_or, ← ne_eq, ← ne_eq, own_path, some_path,
        ← subject_iff follows]
      constructor
      · exact fun reached => ⟨share, shares, scope, reached⟩
      · rintro ⟨other, shares', -, reached⟩
        cases shares.symm.trans shares'
        exact reached

theorem resourceSelects_ok (shareable : Shareable manifest) (table : Text) :
    ∃ selects, resourceSelects manifest table = .ok selects ∧
      (selects ≠ [] ↔ ∃ source ∈ manifest.dataContract, Reaches source table) := by
  have each (source) (mem : source ∈ manifest.dataContract) := sourceSelects_ok shareable mem table
  obtain ⟨selects, ran, mem_iff⟩ := mapM_ok_of_forall fun source mem => (each source mem).imp fun _ => And.left
  refine ⟨selects.flatten, bind_eq_ok.mpr ⟨selects, ran, rfl⟩, ?_⟩
  rw [ne_eq, flatten_eq_nil_iff]
  constructor
  · intro filled
    obtain ⟨found, inside, filled⟩ : ∃ found ∈ selects, found ≠ [] := by simpa using filled
    obtain ⟨source, mem, selected⟩ := (mem_iff found).mp inside
    obtain ⟨same, ok, reached⟩ := each source mem
    cases selected.symm.trans ok
    exact ⟨source, mem, reached.mp filled⟩
  · rintro ⟨source, mem, reaches⟩ empty
    obtain ⟨found, ok, reached⟩ := each source mem
    exact reached.mpr reaches (empty found ((mem_iff found).mpr ⟨source, mem, ok⟩))

/-! ## Identity selects -/

theorem path_letter (shareable : Shareable manifest) (mem : target ∈ manifest.entities) {letter : Text} {walked : Path}
    (walks : path manifest.appId manifest.entities target.entityName letter = .ok walked) (other : Text) :
    ∃ walked, path manifest.appId manifest.entities target.entityName other = .ok walked := by
  obtain ⟨chain, climbs, short, keyed, -⟩ := (path_iff shareable.names shareable.fields mem).mp walks
  exact ⟨_, (path_iff shareable.names shareable.fields mem).mpr ⟨chain, climbs, short, keyed, rfl⟩⟩

theorem identitySubject_ok (shareable : Shareable manifest) (mem : source ∈ manifest.dataContract) :
    ∃ found, identitySubject manifest source = .ok found ∧ (found.isSome ↔ SharesIdentity source) := by
  unfold identitySubject
  cases declared : source.share.filter (·.scope = .identity) with
  | none =>
    refine ⟨none, rfl, ⟨fun absent => (nomatch absent), ?_⟩⟩
    rintro ⟨share, shares, scope⟩
    rw [shares, Option.filter_some, if_pos (by simpa using scope)] at declared
    cases declared
  | some share =>
    obtain ⟨shares, scope⟩ := Option.filter_eq_some_iff.mp declared
    have scope : share.scope = .identity := by simpa using scope
    obtain ⟨grantee, walked, owned, walks⟩ := shareable.granted source mem share shares
    obtain ⟨subject, follows⟩ := shareable.identity source mem share shares scope
    -- Every owned entity is a target of an identity share, the subject among them.
    obtain ⟨inside, subjectOwned⟩ : subject ∈ manifest.entities ∧ (ownerField subject).isSome := by
      obtain ⟨other, link, ok⟩ := bind_eq_ok.mp follows
      split at ok
      case isTrue => cases ok
      case isFalse some =>
        cases ok
        exact ⟨(keyLink_of_link link).member, by simpa [Option.isSome_iff_ne_none] using some⟩
    have shared : isTarget manifest subject = true :=
      isTarget_iff.mpr (.inr ⟨subjectOwned, source, mem, share, shares, scope⟩)
    obtain ⟨climbed, climbs⟩ := shareable.owned subject inside shared subjectOwned
    obtain ⟨joined, climbs⟩ := path_letter shareable inside climbs "s"
    refine ⟨_, bind_eq_ok.mpr ⟨grantee, owned, bind_eq_ok.mpr ⟨walked, walks, bind_eq_ok.mpr
      ⟨subject, follows, bind_eq_ok.mpr ⟨_, climbs, rfl⟩⟩⟩⟩, fun _ => ⟨share, shares, scope⟩, fun _ => rfl⟩

theorem identitySubjects_ok (shareable : Shareable manifest) :
    ∃ subjects, manifest.dataContract.mapM (identitySubject manifest) = .ok subjects ∧
      (subjects.reduceOption ≠ [] ↔ ∃ source ∈ manifest.dataContract, SharesIdentity source) := by
  have each (source) (mem : source ∈ manifest.dataContract) := identitySubject_ok shareable mem
  obtain ⟨subjects, ran, mem_iff⟩ := mapM_ok_of_forall fun source mem => (each source mem).imp fun _ => And.left
  refine ⟨subjects, ran, ?_⟩
  constructor
  · intro filled
    obtain ⟨text, inside⟩ := exists_mem_of_ne_nil _ filled
    obtain ⟨source, mem, selected⟩ := (mem_iff (some text)).mp (reduceOption_mem_iff.mp inside)
    obtain ⟨found, ok, shares⟩ := each source mem
    cases selected.symm.trans ok
    exact ⟨source, mem, shares.mp rfl⟩
  · rintro ⟨source, mem, identity⟩
    obtain ⟨found, ok, shares⟩ := each source mem
    obtain ⟨text, rfl⟩ := Option.isSome_iff_exists.mp (shares.mpr identity)
    exact ne_nil_of_mem (reduceOption_mem_iff.mpr ((mem_iff (some text)).mpr ⟨source, mem, ok⟩))

/-- The chain of an owned entity goes on from the one above it. -/
theorem identityRows_ok (shareable : Shareable manifest) (mem : target ∈ manifest.entities)
    (shared : isTarget manifest target = true) (owned : (ownerField target).isSome) (table ty : Text) :
    ∃ rows, identityRows manifest table ty (ownerParent target) = .ok rows := by
  cases defers : ownerParent target with
  | none => exact ⟨_, rfl⟩
  | some parent =>
    obtain ⟨walked, walks⟩ := shareable.owned target mem shared owned
    obtain ⟨chain, climbs, short, keyed, -⟩ := (path_iff shareable.names shareable.fields mem).mp walks
    have named := (entityNamed_eq_some shareable.names).mpr ⟨mem, rfl⟩
    cases climbs with
    | root owns =>
      obtain ⟨found, here, -, stays⟩ := (ownerMap_eq_some shareable.names).mp owns
      cases named.symm.trans here
      rw [defers] at stays
      cases stays
    | @link _ column above rest links climbs =>
      obtain ⟨found, here, -, up⟩ := (ownerMap_eq_some shareable.names).mp links
      cases named.symm.trans here
      cases defers.symm.trans up
      obtain ⟨top, inside, rfl⟩ : ∃ top ∈ manifest.entities, top.entityName = parent := by
        obtain ⟨column, next, owns⟩ : ∃ column next, ownerMap manifest.entities parent = some (column, next) := by
          cases climbs with
          | root owns => exact ⟨_, _, owns⟩
          | link owns => exact ⟨_, _, owns⟩
        obtain ⟨top, there, -⟩ := (ownerMap_eq_some shareable.names).mp owns
        obtain ⟨inside, named⟩ := (entityNamed_eq_some shareable.names).mp there
        exact ⟨top, inside, named⟩
      rw [length_cons] at short
      have walks : path manifest.appId manifest.entities top.entityName "t" = .ok
          (pathAlong manifest.appId manifest.entities "t" top.entityName rest) :=
        (path_iff shareable.names shareable.fields inside).mpr
          ⟨rest, climbs, by omega, fun entry inside => keyed entry (mem_cons_of_mem _ inside), rfl⟩
      exact ⟨_, bind_eq_ok.mpr ⟨_, walks, rfl⟩⟩

theorem identitySelect_none (shareable : Shareable manifest) (catalog : Catalog) (mem : target ∈ manifest.entities)
    (free : ¬ ((ownerField target).isSome ∧ ∃ source ∈ manifest.dataContract, SharesIdentity source)) :
    identitySelect manifest catalog (ownerMap manifest.entities) target.entityName = .ok none := by
  unfold identitySelect
  split
  case h_1 => rfl
  case h_2 column parent owns =>
    obtain ⟨found, here, owned, -⟩ := (ownerMap_eq_some shareable.names).mp owns
    cases ((entityNamed_eq_some shareable.names).mpr ⟨mem, rfl⟩).symm.trans here
    obtain ⟨subjects, ran, filled⟩ := identitySubjects_ok shareable
    refine bind_eq_ok.mpr ⟨subjects, ran, if_pos ?_⟩
    by_contra some
    exact free ⟨by rw [owned]; rfl, filled.mp some⟩

theorem identitySelect_some (shareable : Shareable manifest) (catalog : Catalog) (mem : target ∈ manifest.entities)
    {column : Text} (owned : ownerField target = some column)
    (shared : ∃ source ∈ manifest.dataContract, SharesIdentity source) :
    match catalog.columnType target.entityName column with
    | none => identitySelect manifest catalog (ownerMap manifest.entities) target.entityName =
        .error (missing "column" manifest.appId target.entityName column)
    | some _ => ∃ select, identitySelect manifest catalog (ownerMap manifest.entities) target.entityName =
        .ok (some select) := by
  have owns : ownerMap manifest.entities target.entityName = some (column, ownerParent target) :=
    (ownerMap_eq_some shareable.names).mpr
      ⟨target, (entityNamed_eq_some shareable.names).mpr ⟨mem, rfl⟩, owned, rfl⟩
  have isOwned : (ownerField target).isSome := by rw [owned]; rfl
  have isTarget : isTarget manifest target = true := isTarget_iff.mpr (.inr ⟨isOwned, shared⟩)
  obtain ⟨subjects, ran, filled⟩ := identitySubjects_ok shareable
  unfold identitySelect
  rw [owns]
  dsimp only
  rw [ran]
  split
  case h_1 absent =>
    show (if subjects.reduceOption = [] then _ else _) = _
    rw [if_neg (filled.mpr shared)]
  case h_2 ty present =>
    obtain ⟨rows, selected⟩ := identityRows_ok shareable mem isTarget isOwned target.entityName ty
    refine ⟨⟨column, ty, "WITH subjects AS (" ++ join " UNION ALL " subjects.reduceOption ++
      ") " ++ rows⟩, ?_⟩
    show (if subjects.reduceOption = [] then _ else _) = _
    rw [if_neg (filled.mpr shared)]
    exact bind_eq_ok.mpr ⟨rows, selected, rfl⟩

theorem missing_ne_noDeclaration (first : Char) (what schema table column : Text) (different : first ≠ 'e') :
    missing (first :: what) schema table column ≠ noDeclaration table := by
  intro same
  have eighth := congrArg (·[7]?) same
  unfold missing noDeclaration at eighth
  simp at eighth
  exact different eighth

/-- A readable entity has a select, and no other one has. -/
theorem selects_iff (shareable : Shareable manifest) (catalog : Catalog) (mem : target ∈ manifest.entities)
    (present : ∀ column, ownerField target = some column → (catalog.columnType target.entityName column).isSome) :
    isTarget manifest target = true ↔
      (∃ select selects, resourceSelects manifest target.entityName = .ok (select :: selects)) ∨
        ∃ select, identitySelect manifest catalog (ownerMap manifest.entities) target.entityName = .ok (some select) := by
  obtain ⟨selects, ran, filled⟩ := resourceSelects_ok shareable target.entityName
  rw [isTarget_iff]
  apply or_congr
  · rw [← filled, ran]
    cases selects with
    | nil => simp
    | cons select selects => simp
  · constructor
    · rintro ⟨owned, shared⟩
      obtain ⟨column, owned⟩ := Option.isSome_iff_exists.mp owned
      obtain ⟨ty, typed⟩ := Option.isSome_iff_exists.mp (present column owned)
      have selected := identitySelect_some shareable catalog mem owned shared
      rw [typed] at selected
      exact selected
    · rintro ⟨select, selected⟩
      by_contra free
      have none := identitySelect_none shareable catalog mem free
      cases selected.symm.trans none

theorem declare_of_target (shareable : Shareable manifest) (catalog : Catalog) (mem : target ∈ manifest.entities)
    (shared : isTarget manifest target = true) :
    declare manifest catalog (ownerMap manifest.entities) target.entityName ≠ .error (noDeclaration target.entityName) := by
  obtain ⟨selects, ran, filled⟩ := resourceSelects_ok shareable target.entityName
  have found : entity manifest.entities target.entityName = .ok target :=
    (entity_eq_ok shareable.names).mpr ((entityNamed_eq_some shareable.names).mpr ⟨mem, rfl⟩)
  have legacy : (∃ legacy, identitySelect manifest catalog (ownerMap manifest.entities) target.entityName = .ok legacy ∧
        (selects = [] → legacy ≠ none)) ∨
      ∃ column, identitySelect manifest catalog (ownerMap manifest.entities) target.entityName =
        .error (missing "column" manifest.appId target.entityName column) := by
    by_cases declared : (ownerField target).isSome ∧ ∃ source ∈ manifest.dataContract, SharesIdentity source
    · obtain ⟨column, owned⟩ := Option.isSome_iff_exists.mp declared.1
      have selected := identitySelect_some shareable catalog mem owned declared.2
      split at selected
      case h_1 => exact .inr ⟨column, selected⟩
      case h_2 =>
        obtain ⟨select, selected⟩ := selected
        exact .inl ⟨some select, selected, fun _ absent => nomatch absent⟩
    · refine .inl ⟨none, identitySelect_none shareable catalog mem declared, fun empty => ?_⟩
      exact absurd empty (filled.mpr ((isTarget_iff.mp shared).resolve_right declared))
  unfold declare
  rw [ran]
  obtain ⟨legacy, selected, declared⟩ | ⟨column, selected⟩ := legacy
  · show (identitySelect manifest catalog (ownerMap manifest.entities) target.entityName >>= _) ≠ _
    rw [selected]
    show (if selects = [] then _ else _) ≠ _
    split
    case isTrue empty =>
      cases legacy with
      | none => exact absurd rfl (declared empty)
      | some legacy => exact fun failed => nomatch failed
    case isFalse =>
      rw [found]
      show (match catalog.columnType target.entityName (primary target) with | none => _ | some ty => _) ≠ _
      split
      case h_1 => exact fun failed => missing_ne_noDeclaration 'p' _ _ _ _ (by decide) (Except.error.inj failed)
      case h_2 => exact fun failed => nomatch failed
  · show (identitySelect manifest catalog (ownerMap manifest.entities) target.entityName >>= _) ≠ _
    rw [selected]
    exact fun failed => missing_ne_noDeclaration 'c' _ _ _ _ (by decide) (Except.error.inj failed)

/-- In an accepted manifest an entity is readable by a share exactly when it has a
    resource select or an identity select, and `declare` never finds it without
    one; the paths of resource shares visit entities once, by links to keys, up to
    the declared subject. -/
theorem targets_have_selects (manifest : SharedManifest) (catalog : Catalog) (accepted : validateStored manifest = .ok ()) :
    (∀ target ∈ manifest.entities,
      ((∀ column, ownerField target = some column → (catalog.columnType target.entityName column).isSome) →
        (isTarget manifest target = true ↔
          (∃ select selects, resourceSelects manifest target.entityName = .ok (select :: selects)) ∨
            ∃ select, identitySelect manifest catalog (ownerMap manifest.entities) target.entityName =
              .ok (some select))) ∧
      (isTarget manifest target = true → declare manifest catalog (ownerMap manifest.entities) target.entityName ≠
        .error (noDeclaration target.entityName))) ∧
    ∀ source ∈ manifest.dataContract, ∀ share, source.share = some share → share.scope = .resource →
      ∃ subject, link manifest.entities source.toEntityContract share.subject = .ok subject ∧
        ∀ target ∈ share.targets, ∃ start others last, start ∈ manifest.entities ∧ start.entityName = target.entity ∧
          LinkPath manifest.entities target.via (start :: others) last ∧
          ((start :: others).map (·.entityName)).Nodup ∧ last.entityName = subject.entityName := by
  have shareable := shareable_of_validateStored accepted
  refine ⟨fun target member => ⟨selects_iff shareable catalog member, declare_of_target shareable catalog member⟩, ?_⟩
  intro source member share shares scope
  obtain ⟨subject, follows, paths⟩ := shareable.resource source member share shares scope
  refine ⟨subject, follows, fun target inside => ?_⟩
  obtain ⟨walked, walks⟩ := paths target inside
  exact resourcePath_ok walks

end Selects

/-! ## A manifest with shares -/

def localLink (name entity : Text) : FieldContract where
  name := name
  fieldType := "entity_link"
  references := some ⟨entity, "id"⟩

/-- Projects that are shared with people, together with their tasks. -/
def sharedProjects : SharedManifest where
  appId := "hr"
  dataContract := [
    { entityName := "people", fields := [{ name := "account", fieldType := "uuid", owner := true }] },
    { entityName := "projects", fields := [] },
    { entityName := "tasks", fields := [localLink "project" "projects"] },
    { entityName := "members"
      fields := [localLink "person" "people", localLink "project" "projects",
        { name := "left_at", fieldType := "timestamp" }]
      share := some {
        grantee := "person"
        subject := "project"
        activeWhen := "left_at"
        scope := .resource
        targets := [⟨"tasks", ["project"]⟩] } }]

theorem sharedProjects_selects :
    isTarget sharedProjects ⟨"tasks".toList, [localLink "project".toList "projects".toList], [], [], none⟩ = true ∧
      ∃ select selects, resourceSelects sharedProjects "tasks".toList = .ok (select :: selects) := by
  have accepted : validateStored sharedProjects = .ok () := by decide +kernel
  have shared : isTarget sharedProjects ⟨"tasks".toList, [localLink "project".toList "projects".toList], [], [], none⟩ =
      true := by decide +kernel
  have selected := ((targets_have_selects sharedProjects ⟨fun _ => [], fun _ => none⟩ accepted).1
    ⟨"tasks".toList, [localLink "project".toList "projects".toList], [], [], none⟩
    (List.mem_cons_of_mem _ (List.mem_cons_of_mem _ List.mem_cons_self))).1
    (fun _ owned => nomatch owned) |>.mp shared
  refine ⟨shared, selected.resolve_right ?_⟩
  rintro ⟨select, identity⟩
  have none : identitySelect sharedProjects ⟨fun _ => [], fun _ => none⟩ (ownerMap sharedProjects.entities)
      "tasks".toList = .ok none := by decide +kernel
  cases identity.symm.trans none

end RootCx.RowAccess.Sharing
