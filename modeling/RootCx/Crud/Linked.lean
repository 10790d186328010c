import RootCx.Crud.Query
import RootCx.CrossApp.Mutations
import RootCx.Lib.Jsonb
import Mathlib

/-! # Linked records

`enrich_linked` of `routes/crud.rs` attaches to each row of a page the records of other
applications that share its identity.  The targets are read one after the other in one
transaction: a statement that fails is skipped, and with it every later one, for the
transaction is aborted.  A record is attached under the name of its application.
-/

namespace RootCx.Crud

open RootCx.Text RootCx.Postgres List Option

/-! ## Targets -/

inductive LinkedOption where
  | all (follow : Bool)
  | apps (listed : List Text)

/-- The parameter `linked` of a list. -/
def LinkedOption.ofParam (lp : Text) : LinkedOption :=
  if lp = "true" then .all true else .apps (lp.splitOn ',')

def LinkedOption.admits : LinkedOption → Text → Bool
  | .all follow, _ => follow
  | .apps listed, app => app ∈ listed

/-- The columns of a row, each as it is put into JSON. -/
abbrev Record := Text → Json

/-- What the caller may see of a table, and whether its column for the key is of type `TEXT`. -/
structure KeyTable (key : Text) where
  textual : Bool
  visible : List Record
  texts : textual = true → ∀ record ∈ visible, record key = .null ∨ ∃ value, record key = .str value

/-- An entity with the identity kind; there is no table where the database refuses to read it. -/
structure LinkTarget where
  app : Text
  entity : Text
  key : Text
  types : FieldMap
  table : Option (KeyTable key)

def LinkTarget.sql (target : LinkTarget) (keyValues : List Text) : Text :=
  let phs := (range keyValues.length).map fun i => "$" ++ (toString (i + 1)).toList
  "SELECT " ++ rowJson "t" target.types ++ " AS row FROM " ++
    CrossApp.Mutations.table target.app target.entity ++ " t WHERE t." ++ quoteIdent target.key ++ " IN (" ++
    join "," phs ++ ")"

/-- A row as `row_json` shows it. -/
def shown (types : FieldMap) (record : Record) : Json :=
  .obj ((sortedNames types fun field => !field.sensitive).map fun name => (name, record name))

/-- The keys are bound as texts, which are compared with nothing but a text column. -/
def LinkTarget.readable (target : LinkTarget) (keyValues : List Text) : Bool :=
  match target.table with
  | none => false
  | some table => table.textual && decide (keyValues.length ≤ PG_PARAM_LIMIT)

/-- The answer to the statement of a target, in any order. -/
inductive LinkTarget.Answers (target : LinkTarget) (keyValues : List Text) : List Json → Prop where
  | mk {table : KeyTable target.key} {records : List Record} (found : target.table = some table)
      (readable : target.readable keyValues = true)
      (perm : records.Perm (table.visible.filter fun record => (record target.key).asStr.any (· ∈ keyValues))) :
      Answers target keyValues (records.map (shown target.types))

/-! ## Rows -/

/-- A row that was fetched.  The names of its fields start with a letter. -/
structure Fetched where
  fields : List (Text × Json)
  named : ∀ field ∈ fields, field.1 ≠ "_linked"

/-- A row with what has been attached to it. -/
structure LinkRow extends Fetched where
  linked : Option (List (Text × Json))

def LinkRow.json (row : LinkRow) : Json :=
  .obj (match row.linked with
    | none => row.fields
    | some held => Json.insert "_linked" (.obj held) row.fields)

section Enrich

variable (identityKey : Text)

def Fetched.keyText (row : Fetched) : Option Text := (Json.get identityKey (.obj row.fields)).bind Json.asStr

def keyValues (rows : List Fetched) : List Text := rows.filterMap (·.keyText identityKey)

/-- The last record of a key, as the map that is collected from the answer has it. -/
def byKey (key : Text) (linkedRows : List Json) (value : Text) : Option Json :=
  (linkedRows.filter fun row => (row.get key).bind Json.asStr = some value).getLast?

def linkEntry (target : LinkTarget) (record : Json) : Json :=
  .obj [("data", record), ("entity", .str target.entity), ("recordId", (record.get "id").getD .null)]

def attach (target : LinkTarget) (linkedRows : List Json) (row : LinkRow) : LinkRow :=
  -- a row without a key is looked up under the empty text
  match byKey target.key linkedRows ((row.keyText identityKey).getD []) with
  | some record => { row with linked := some (Json.insert target.app (linkEntry target record) (row.linked.getD [])) }
  | none => row

/-- The loop over the targets; the flag says that the transaction is aborted. -/
inductive Enrich (keys : List Text) : Bool → List LinkTarget → List LinkRow → List LinkRow → Prop where
  | done {aborted : Bool} {rows : List LinkRow} : Enrich keys aborted [] rows rows
  | refused {aborted : Bool} {target : LinkTarget} {targets : List LinkTarget} {rows out : List LinkRow}
      (failed : aborted = true ∨ target.readable keys = false) (rest : Enrich keys true targets rows out) :
      Enrich keys aborted (target :: targets) rows out
  | read {target : LinkTarget} {targets : List LinkTarget} {linkedRows : List Json} {rows out : List LinkRow}
      (answer : target.Answers keys linkedRows)
      (rest : Enrich keys false targets (rows.map (attach identityKey target linkedRows)) out) :
      Enrich keys false (target :: targets) rows out

/-- `enrich_linked`, for an entity that has an identity. -/
inductive EnrichLinked (targets : List LinkTarget) (rows : List Fetched) : List LinkRow → Prop where
  | idle (nothing : targets = [] ∨ keyValues identityKey rows = []) : EnrichLinked targets rows (rows.map fun row => ⟨row, none⟩)
  | ran {out : List LinkRow} (keyed : keyValues identityKey rows ≠ [])
      (run : Enrich identityKey (keyValues identityKey rows) false targets (rows.map fun row => ⟨row, none⟩) out) :
      EnrichLinked targets rows out

end Enrich

/-! ## The record of a key -/

/-- A record of a target that the caller may see and that has the key of a row. -/
def LinkTarget.Keyed (identityKey : Text) (target : LinkTarget) (row : Fetched) (record : Json) : Prop :=
  ∃ value table, Json.get identityKey (.obj row.fields) = some value ∧ value ≠ .null ∧ target.table = some table ∧
    (∃ found ∈ table.visible, shown target.types found = record) ∧ record.get target.key = some value

/-- A record that the statement of a target finds for a text. -/
structure LinkTarget.Matches (target : LinkTarget) (keys : List Text) (value : Text) (record : Json) : Prop where
  bound : value ∈ keys
  visible : ∃ table, target.table = some table ∧ ∃ found ∈ table.visible, shown target.types found = record
  key : record.get target.key = some (.str value)

/-- The targets that are read before the transaction is aborted. -/
def reached (keys : List Text) (targets : List LinkTarget) : List LinkTarget := targets.takeWhile fun target => target.readable keys

section Records

variable {identityKey value : Text} {target : LinkTarget} {keys : List Text} {linkedRows : List Json} {row : Fetched} {record : Json}

theorem asStr_eq_some {json : Json} : json.asStr = some value ↔ json = .str value := by
  cases json <;> simp [Json.asStr]

theorem shown_get {types : FieldMap} {found : Record} {name : Text} {json : Json}
    (there : (shown types found).get name = some json) : found name = json := by
  obtain ⟨entry, first, rfl⟩ := map_eq_some_iff.mp there
  obtain ⟨name', -, rfl⟩ := mem_map.mp (mem_of_find?_eq_some first)
  have same : name' = name := by simpa using find?_some first
  rw [same]

theorem keyText_eq_some : row.keyText identityKey = some value ↔ Json.get identityKey (.obj row.fields) = some (.str value) := by
  simp [Fetched.keyText, bind_eq_some_iff, asStr_eq_some]

theorem byKey_some (answer : target.Answers keys linkedRows) (last : byKey target.key linkedRows value = some record) :
    target.Matches keys value record := by
  obtain ⟨found, readable, perm⟩ := answer
  obtain ⟨mem, keyed⟩ := mem_filter.mp (mem_of_getLast? last)
  obtain ⟨held, listed, rfl⟩ := mem_map.mp mem
  obtain ⟨visible, bound⟩ := mem_filter.mp (perm.mem_iff.mp listed)
  have key : (shown target.types held).get target.key = some (.str value) := by
    simpa [bind_eq_some_iff, asStr_eq_some] using keyed
  rw [shown_get key] at bound
  exact ⟨by simpa [Json.asStr] using bound, ⟨_, found, held, visible, rfl⟩, key⟩

theorem byKey_none (answer : target.Answers keys linkedRows) (none : byKey target.key linkedRows value = none) :
    ¬target.Matches keys value record := by
  rintro ⟨bound, ⟨table, there, held, visible, rfl⟩, key⟩
  obtain ⟨found, readable, perm⟩ := answer
  cases found.symm.trans there
  have listed : held ∈ _ := perm.mem_iff.mpr (mem_filter.mpr ⟨visible, by simpa [shown_get key, Json.asStr] using bound⟩)
  have missed := filter_eq_nil_iff.mp (getLast?_eq_none_iff.mp none) _ (mem_map_of_mem listed)
  simp [key, Json.asStr] at missed

theorem keyed_of_matches (text : row.keyText identityKey = some value) (found : target.Matches keys value record) :
    target.Keyed identityKey row record := by
  obtain ⟨table, there, visible⟩ := found.visible
  exact ⟨.str value, table, keyText_eq_some.mp text, nofun, there, visible, found.key⟩

theorem matches_of_keyed {rows : List Fetched} (mem : row ∈ rows) (readable : target.readable (keyValues identityKey rows) = true)
    (keyed : target.Keyed identityKey row record) :
    ∃ value, row.keyText identityKey = some value ∧ target.Matches (keyValues identityKey rows) value record := by
  obtain ⟨json, table, own, visible, there, ⟨found, listed, rfl⟩, key⟩ := keyed
  have textual : table.textual = true := by
    simp only [LinkTarget.readable, there, Bool.and_eq_true] at readable
    exact readable.1
  obtain null | ⟨value, text⟩ := table.texts textual found listed
  · exact absurd ((shown_get key).symm.trans null) visible
  · obtain rfl : json = .str value := (shown_get key).symm.trans text
    have own := keyText_eq_some.mpr own
    exact ⟨value, own, mem_filterMap.mpr ⟨row, mem, own⟩, ⟨table, there, found, listed, rfl⟩, key⟩

end Records

/-! ## What is attached -/

def LinkRow.linkedAt (row : LinkRow) (app : Text) : Option Json := Json.get app (.obj (row.linked.getD []))

/-- The record that a response attaches for a target. -/
def attachedTo (target : LinkTarget) (json : Json) : Option Json :=
  (json.get "_linked").bind fun linked => (linked.get target.app).bind fun entry =>
    if (entry.get "entity").bind Json.asStr = some target.entity then entry.get "data" else none

section Attached

variable {identityKey : Text} {keys : List Text} {target other : LinkTarget} {linkedRows : List Json} {row : LinkRow} {record : Json}

theorem attachedTo_json (target : LinkTarget) (row : LinkRow) : attachedTo target row.json =
    (row.linkedAt target.app).bind fun entry =>
      if (entry.get "entity").bind Json.asStr = some target.entity then entry.get "data" else none := by
  unfold attachedTo LinkRow.json LinkRow.linkedAt
  cases row.linked with
  | none =>
    have absent : Json.get "_linked" (.obj row.fields) = none := by
      simp only [Json.get, map_eq_none_iff, find?_eq_none, decide_eq_true_eq]
      exact row.named
    simp only [absent]
    rfl
  | some held =>
    simp only [Json.get_insert]
    rfl

theorem attachedTo_entry (there : row.linkedAt target.app = some (linkEntry other record)) {result : Json} :
    attachedTo target row.json = some result ↔ other.entity = target.entity ∧ record = result := by
  have data : (linkEntry other record).get "data" = some record := Json.get_cons_self _ _ _
  have entity : (linkEntry other record).get "entity" = some (.str other.entity) := by
    unfold linkEntry
    rw [Json.get_cons_other (by decide +kernel), Json.get_cons_self]
  rw [attachedTo_json, there, bind_some, data, entity, bind_some]
  show (if some other.entity = some target.entity then some record else none) = some result ↔ _
  rw [ite_none_right_eq_some, some.injEq, some.injEq]

theorem attach_fetched : (attach identityKey target linkedRows row).toFetched = row.toFetched := by
  unfold attach
  split <;> rfl

theorem attach_linkedAt (app : Text) : (attach identityKey target linkedRows row).linkedAt app =
    match byKey target.key linkedRows ((row.keyText identityKey).getD []) with
    | some record => if app = target.app then some (linkEntry target record) else row.linkedAt app
    | none => row.linkedAt app := by
  unfold attach
  cases byKey target.key linkedRows ((row.keyText identityKey).getD []) with
  | none => rfl
  | some record =>
    by_cases same : app = target.app
    · rw [same]
      simp [LinkRow.linkedAt, Json.get_insert]
    · simp [LinkRow.linkedAt, Json.get_insert_other same, same]

/-- What a run leaves under the name of an application: the record of a target that was read, or
    what was there before, where no such target has a record. -/
theorem enrich_linkedAt {aborted : Bool} {targets : List LinkTarget} {rows out : List LinkRow}
    (run : Enrich identityKey keys aborted targets rows out) {i : Nat} (place : rows[i]? = some row) :
    ∃ row', out[i]? = some row' ∧ ∀ app,
      (∃ target ∈ reached keys targets, aborted = false ∧ target.app = app ∧
        ∃ record, target.Matches keys ((row.keyText identityKey).getD []) record ∧ row'.linkedAt app = some (linkEntry target record)) ∨
      (row'.linkedAt app = row.linkedAt app ∧ (aborted = false → ∀ target ∈ reached keys targets, target.app = app →
        ∀ record, ¬target.Matches keys ((row.keyText identityKey).getD []) record)) := by
  induction run generalizing row with
  | done => exact ⟨row, place, fun app => .inr ⟨rfl, fun _ _ mem => nomatch mem⟩⟩
  | refused failed rest ih =>
    obtain ⟨row', place', entries⟩ := ih place
    refine ⟨row', place', fun app => ?_⟩
    obtain ⟨_, _, live, _⟩ | ⟨kept, -⟩ := entries app
    · cases live
    · refine .inr ⟨kept, fun live target mem => ?_⟩
      have unreadable := failed.resolve_left (by simp [live])
      simp [reached, unreadable] at mem
  | read answer rest ih =>
    rename_i head targets linkedRows rows out
    have placed : (rows.map (attach identityKey head linkedRows))[i]? = some (attach identityKey head linkedRows row) := by
      simp [place]
    obtain ⟨row', place', entries⟩ := ih placed
    rw [attach_fetched] at entries
    have readable : head.readable keys = true := by
      obtain ⟨-, readable, -⟩ := answer
      exact readable
    have first : reached keys (head :: targets) = head :: reached keys targets := takeWhile_cons_of_pos readable
    refine ⟨row', place', fun app => ?_⟩
    rw [first]
    obtain ⟨target, mem, live, named, found⟩ | ⟨kept, unmatched⟩ := entries app
    · exact .inl ⟨target, mem_cons_of_mem _ mem, live, named, found⟩
    · rw [attach_linkedAt] at kept
      cases last : byKey head.key linkedRows ((row.keyText identityKey).getD []) with
      | some record =>
        by_cases same : app = head.app
        · rw [last, same] at kept
          dsimp only at kept
          rw [if_pos rfl] at kept
          exact .inl ⟨head, mem_cons_self, rfl, same.symm, record, byKey_some answer last, same ▸ kept⟩
        · rw [last] at kept
          dsimp only at kept
          rw [if_neg same] at kept
          refine .inr ⟨kept, fun live target mem named => ?_⟩
          obtain rfl | mem := mem_cons.mp mem
          · exact absurd named.symm same
          · exact unmatched live target mem named
      | none =>
        rw [last] at kept
        refine .inr ⟨kept, fun live target mem named => ?_⟩
        obtain rfl | mem := mem_cons.mp mem
        · exact fun record => byKey_none answer last
        · exact unmatched live target mem named

theorem exists_enrich (aborted : Bool) (targets : List LinkTarget) (rows : List LinkRow) :
    ∃ out, Enrich identityKey keys aborted targets rows out := by
  induction targets generalizing aborted rows with
  | nil => exact ⟨rows, .done⟩
  | cons target targets ih =>
    by_cases live : aborted = false ∧ target.readable keys = true
    · obtain ⟨rfl, readable⟩ := live
      obtain ⟨table, there⟩ : ∃ table, target.table = some table := by
        cases there : target.table with
        | none => simp [LinkTarget.readable, there] at readable
        | some table => exact ⟨table, rfl⟩
      obtain ⟨out, rest⟩ := ih false (rows.map (attach identityKey target _))
      exact ⟨out, .read (.mk there readable (List.Perm.refl _)) rest⟩
    · obtain ⟨out, rest⟩ := ih true rows
      refine ⟨out, .refused ?_ rest⟩
      simpa [or_iff_not_imp_left] using live

end Attached

/-! ## A page of linked rows -/

/-- A page of an entity with an identity, and the other entities of its kind. -/
structure LinkPage where
  identityKey : Text
  found : List LinkTarget
  distinct : (found.map fun target => (target.app, target.entity)).Nodup
  linked : LinkedOption
  rows : List Fetched

variable {target : LinkTarget}

namespace LinkPage

variable (page : LinkPage)

def targets : List LinkTarget := page.found.filter fun target => page.linked.admits target.app

def keys : List Text := keyValues page.identityKey page.rows

/-- For every target, a row gets the record that has its key there. -/
def Right : Prop :=
  ∀ out, EnrichLinked page.identityKey page.targets page.rows out →
    ∀ (i : Nat) (row : Fetched) (row' : LinkRow), page.rows[i]? = some row → out[i]? = some row' → ∀ target ∈ page.targets, ∀ record,
      attachedTo target row'.json = some record ↔ target.Keyed page.identityKey row record

/-- What the targets have for the keys of the page. -/
structure Linkable : Prop where
  -- no target has two records of one key
  unique : ∀ row ∈ page.rows, ∀ target ∈ page.targets, ∀ record record', target.Keyed page.identityKey row record →
    target.Keyed page.identityKey row record' → record = record'
  -- a target that has a record, and every one before it, can be read
  read : ∀ row ∈ page.rows, ∀ target ∈ page.targets, ∀ record, target.Keyed page.identityKey row record →
    target ∈ reached page.keys page.targets
  -- no application has records of one key in two entities
  apart : ∀ row ∈ page.rows, ∀ target ∈ page.targets, ∀ target' ∈ page.targets, target.app = target'.app →
    ∀ record record', target.Keyed page.identityKey row record → target'.Keyed page.identityKey row record' →
      target.entity = target'.entity
  -- where the empty key has a record, every row has a key
  blank : ∀ row ∈ page.rows, ∀ target ∈ page.targets, ∀ record, target.Keyed page.identityKey row record →
    row.keyText page.identityKey = some [] → ∀ row' ∈ page.rows, (row'.keyText page.identityKey).isSome

variable {page}

theorem same_target {target' : LinkTarget} (mem : target ∈ page.targets) (mem' : target' ∈ page.targets)
    (app : target.app = target'.app) (entity : target.entity = target'.entity) : target = target' :=
  inj_on_of_nodup_map page.distinct (mem_filter.mp mem).1 (mem_filter.mp mem').1 (by rw [app, entity])

theorem mem_targets_of_reached (mem : target ∈ reached page.keys page.targets) : target ∈ page.targets :=
  takeWhile_sublist _ |>.mem mem

theorem readable_of_reached (mem : target ∈ reached page.keys page.targets) :
    target.readable page.keys = true :=
  mem_takeWhile_imp (p := fun other : LinkTarget => other.readable page.keys) mem

variable (page) in
/-- What a row has under the name of an application: the record of a target, or nothing where
    none of the application's targets has one. -/
inductive Entry (row : Fetched) (row' : LinkRow) (app : Text) : Prop where
  | record {target : LinkTarget} {record : Json} (read : target ∈ reached page.keys page.targets) (named : target.app = app)
      (found : target.Matches page.keys ((row.keyText page.identityKey).getD []) record)
      (there : row'.linkedAt app = some (linkEntry target record))
  | nothing (there : row'.linkedAt app = none)
      (unmatched : ∀ target ∈ reached page.keys page.targets, target.app = app →
        ∀ record, ¬target.Matches page.keys ((row.keyText page.identityKey).getD []) record)

theorem outcome {out : List LinkRow} (run : EnrichLinked page.identityKey page.targets page.rows out) {i : Nat} {row : Fetched}
    (place : page.rows[i]? = some row) :
    ∃ row', out[i]? = some row' ∧ ∀ app, page.Entry row row' app := by
  have start : (page.rows.map fun row => (⟨row, none⟩ : LinkRow))[i]? = some ⟨row, none⟩ := by simp [place]
  cases run with
  | idle nothing =>
    refine ⟨_, start, fun app => .nothing rfl fun target mem named record found => ?_⟩
    obtain none | none := nothing
    · rw [none] at mem
      cases mem
    · have bound := found.bound
      rw [keys, none] at bound
      cases bound
  | ran keyed run =>
    obtain ⟨row', place', entries⟩ := enrich_linkedAt run start
    refine ⟨row', place', fun app => ?_⟩
    obtain ⟨target, mem, -, named, record, found, there⟩ | ⟨kept, unmatched⟩ := entries app
    · exact .record mem named found there
    · exact .nothing kept (unmatched rfl)

theorem exists_outcome (page : LinkPage) : ∃ out, EnrichLinked page.identityKey page.targets page.rows out := by
  by_cases keyed : keyValues page.identityKey page.rows = []
  · exact ⟨_, .idle (.inr keyed)⟩
  · obtain ⟨out, run⟩ : ∃ out, Enrich page.identityKey (keyValues page.identityKey page.rows) false page.targets _ out :=
      exists_enrich false page.targets (page.rows.map fun row => ⟨row, none⟩)
    exact ⟨out, .ran keyed run⟩

theorem right_of_linkable (linkable : page.Linkable) : page.Right := by
  intro out run i row row' place place' target mem record
  have inside : row ∈ page.rows := mem_of_getElem? place
  obtain ⟨_, same, entries⟩ := outcome run place
  cases place'.symm.trans same
  cases entries target.app with
  | @record read held reached named found there =>
    have readMember := mem_targets_of_reached reached
    have text : row.keyText page.identityKey = some ((row.keyText page.identityKey).getD []) := by
      -- Without a key the record would be that of a row with the empty key.
      cases key : row.keyText page.identityKey with
      | some value => rfl
      | none =>
        rw [key, getD_none] at found
        obtain ⟨blank, blankMember, blankKey⟩ := mem_filterMap.mp found.bound
        have keyed := linkable.blank blank blankMember read readMember held (keyed_of_matches blankKey found) blankKey row inside
        simp [key] at keyed
    have keyed := keyed_of_matches text found
    rw [attachedTo_entry there]
    constructor
    · rintro ⟨entity, rfl⟩
      obtain rfl := same_target readMember mem named entity
      exact keyed
    · intro wanted
      have entity := linkable.apart row inside read readMember target mem named held record keyed wanted
      obtain rfl := same_target readMember mem named entity
      exact ⟨rfl, linkable.unique row inside read mem held record keyed wanted⟩
  | nothing there unmatched =>
    rw [attachedTo_json, there]
    refine ⟨nofun, fun wanted => ?_⟩
    have reached := linkable.read row inside target mem record wanted
    obtain ⟨value, text, found⟩ := matches_of_keyed inside (readable_of_reached reached) wanted
    exact absurd (by rw [text]; exact found) (unmatched target reached rfl record)

theorem entry_of_attached {row : Fetched} {row' : LinkRow} {record : Json}
    (entry : page.Entry row row' target.app) (attached : attachedTo target row'.json = some record) :
    ∃ read ∈ reached page.keys page.targets, read.app = target.app ∧ read.entity = target.entity ∧
      row'.linkedAt target.app = some (linkEntry read record) := by
  cases entry with
  | @record read held reached named found there =>
    obtain ⟨entity, rfl⟩ := (attachedTo_entry there).mp attached
    exact ⟨read, reached, named, entity, there⟩
  | nothing there unmatched =>
    rw [attachedTo_json, there] at attached
    cases attached

theorem linkable_of_right (right : page.Right) : page.Linkable := by
  obtain ⟨out, run⟩ := page.exists_outcome
  -- The record that a row gets is that of the target under the name of its application.
  have given {row : Fetched} (inside : row ∈ page.rows) : ∃ row' : LinkRow, (∀ app, page.Entry row row' app) ∧
      ∀ target ∈ page.targets, ∀ record, attachedTo target row'.json = some record ↔ target.Keyed page.identityKey row record := by
    obtain ⟨i, place⟩ := mem_iff_getElem?.mp inside
    obtain ⟨row', place', entries⟩ := outcome run place
    exact ⟨row', entries, right out run i row row' place place'⟩
  have read : ∀ row ∈ page.rows, ∀ target ∈ page.targets, ∀ record, target.Keyed page.identityKey row record →
      target ∈ reached page.keys page.targets := by
    intro row inside target mem record keyed
    obtain ⟨row', entries, attached⟩ := given inside
    obtain ⟨read, reached, named, entity, -⟩ := entry_of_attached (entries target.app) ((attached target mem record).mpr keyed)
    obtain rfl := same_target (mem_targets_of_reached reached) mem named entity
    exact reached
  refine ⟨?unique, read, ?apart, ?blank⟩
  case unique =>
    intro row inside target mem record record' keyed keyed'
    obtain ⟨row', -, attached⟩ := given inside
    have first := (attached target mem record).mpr keyed
    exact some.inj (first.symm.trans ((attached target mem record').mpr keyed'))
  case apart =>
    intro row inside target mem target' mem' app record record' keyed keyed'
    obtain ⟨row', entries, attached⟩ := given inside
    obtain ⟨read, -, -, entity, there⟩ := entry_of_attached (entries target.app) ((attached target mem record).mpr keyed)
    rw [app] at there
    exact entity.symm.trans ((attachedTo_entry there).mp ((attached target' mem' record').mpr keyed')).1
  case blank =>
    intro row inside target mem record keyed blank row₁ inside₁
    have reach := read row inside target mem record keyed
    obtain ⟨value, text, found⟩ := matches_of_keyed inside (readable_of_reached reach) keyed
    obtain rfl : [] = value := some.inj (blank.symm.trans text)
    cases key : row₁.keyText page.identityKey with
    | some value => rfl
    | none =>
      -- The row without a key gets a record for the empty text.
      obtain ⟨row', entries, attached⟩ := given inside₁
      cases entries target.app with
      | @record read' held reach' named found' there =>
        have entry := (attachedTo_entry (named.symm ▸ there)).mpr ⟨rfl, rfl⟩
        have keyed' := (attached read' (mem_targets_of_reached reach') held).mp entry
        obtain ⟨value, text', -⟩ := matches_of_keyed inside₁ (readable_of_reached reach') keyed'
        exact nomatch key.symm.trans text'
      | nothing there unmatched =>
        rw [key] at unmatched
        exact absurd found (unmatched target reach rfl record)

/-- **The linked record is that of the key.**  Every row gets, for every target, the record with
    its key that the caller may see there, if and only if each of these is the only one of its key
    in its application, all targets up to its own can be read, and the empty key is not looked up
    for rows without a key. -/
theorem right_iff (page : LinkPage) : page.Right ↔ page.Linkable := ⟨linkable_of_right, right_of_linkable⟩

end LinkPage

/-! A customer behind an entity of another application whose key is a number. -/

def annRow : Fetched where
  fields := [("email", .str "ann@example.com")]
  named := by
    intro field member
    obtain rfl := mem_singleton.mp member
    decide

def peopleTarget : LinkTarget where
  app := "hr"
  entity := "people"
  key := "number"
  types := ⟨systemFieldTypes⟩
  table := some ⟨false, [], nofun⟩

def annRecord : Record := fun _ => .str "ann@example.com"

def customersTarget : LinkTarget where
  app := "billing"
  entity := "customers"
  key := "email"
  types := ⟨[("email", ⟨.text, false⟩)]⟩
  table := some ⟨true, [annRecord], fun _ record member => .inr ⟨"ann@example.com", by rw [mem_singleton.mp member]; rfl⟩⟩

def annPage : LinkPage where
  identityKey := "email"
  found := [peopleTarget, customersTarget]
  distinct := by decide
  linked := .all true
  rows := [annRow]

/-- The customer is there, and is not attached. -/
theorem annPage_wrong : customersTarget.Keyed annPage.identityKey annRow (shown customersTarget.types annRecord) ∧ ¬annPage.Right := by
  have keyed : customersTarget.Keyed annPage.identityKey annRow (shown customersTarget.types annRecord) :=
    ⟨.str "ann@example.com".toList, _, rfl, nofun, rfl, ⟨annRecord, List.mem_singleton_self _, rfl⟩, rfl⟩
  refine ⟨keyed, fun right => ?_⟩
  have run : EnrichLinked annPage.identityKey annPage.targets annPage.rows [⟨annRow, none⟩] :=
    .ran (by decide) (.refused (.inr rfl) (.refused (.inl rfl) .done))
  have attached := (right _ run 0 annRow _ rfl rfl customersTarget (List.mem_cons_of_mem _ List.mem_cons_self) _).mpr keyed
  cases attached

end RootCx.Crud
