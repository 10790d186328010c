import RootCx.CrossApp.Grants
import RootCx.Lib.Except
import RootCx.Lib.JsonValue

/-! # The writes of an operation on another app

`governance/cross_app_mutations.rs`: the checks of a mutation before any statement is
sent, and the statements that it sends on the transaction of its caller.  What the
provider answers to a statement is a parameter, and so are the formats of identifiers
and of bound values.
-/

namespace RootCx.CrossApp.Mutations

open RootCx.Text RootCx.Postgres RootCx.Crud

def MAX_BULK_SIZE : Nat := 1000

abbrev Object := List (Text × Json)

/-- The conversions that a mutation relies on. -/
structure Codec where
  parseUuid : Text → Option Uuid
  /-- `Uuid::new_v5` in the OID namespace. -/
  newV5 : Text → Uuid
  bindTyped : Option FieldType → Json → Except Text (Option Text)

/-! ## Validation -/

inductive Mutation where
  | create (object : Object)
  | bulkCreate (objects : List Object)
  | update (id : Uuid) (object : Object)
  | delete (id : Uuid)

def writableField (types : FieldMap) (name : Text) : Except Text Unit :=
  if isSystemField name then
    .error ("field '" ++ name ++ "' is system-managed")
  else
    match types.get name with
    | none => .error ("unknown field '" ++ name ++ "'")
    | some field =>
      if field.sensitive then .error ("field '" ++ name ++ "' is sensitive and cannot be written") else .ok ()

def writableObject (types : FieldMap) (value : Json) : Except Text Object :=
  match value.asObject with
  | none => .error "data must be an object"
  | some object =>
    if object.isEmpty then .error "data must contain at least one writable field"
    else do
      object.forM fun entry => writableField types entry.1
      pure object

/-- The arguments of an update or a delete: an id and, for an update, the data. -/
def mutationArgument (op name : Text) : Except Text Unit :=
  if name ≠ "id" ∧ ¬(op = "update" ∧ name = "data") then
    .error ("unexpected mutation argument '" ++ name ++ "'")
  else .ok ()

variable (codec : Codec)

def mutationId (data : Json) : Except Text Uuid :=
  match (data.get "id").bind Json.asStr with
  | none => .error "id must be an explicit UUID string"
  | some text =>
    match codec.parseUuid text with
    | none => .error "id must be a valid UUID"
    | some id => .ok id

def bulkObjects (types : FieldMap) (data : Json) (idempotencyKey : Option Text) : Except Text (List Object) :=
  if idempotencyKey.isSome then
    .error "bulk_create is not allowed inside a workflow; use per-item create"
  else
    match data.asArray with
    | none => .error "bulk_create data must be an array of objects"
    | some rows =>
      if rows.isEmpty || rows.length > MAX_BULK_SIZE then .error "bulk_create requires 1..=1000 objects"
      else rows.mapM (writableObject types)

def updatePatch (types : FieldMap) (data : Json) : Except Text Object :=
  match data.get "data" with
  | none => .error "update requires a data object"
  | some patch => writableObject types patch

/-- The arguments of an update or a delete are checked before the id. -/
def addressed (op : Text) (data : Json) : Except Text Uuid :=
  match data.asObject with
  | none => .error "mutation data must be an object"
  | some object => do
    object.forM fun entry => mutationArgument op entry.1
    mutationId codec data

def validate (types : FieldMap) (op : Text) (data : Json) (idempotencyKey : Option Text) : Except Text Mutation :=
  if op = "create" then do
    return .create (← writableObject types data)
  else if op = "bulk_create" then do
    return .bulkCreate (← bulkObjects types data idempotencyKey)
  else if op = "delete" then do
    return .delete (← addressed codec op data)
  else if op = "update" then do
    return .update (← addressed codec op data) (← updatePatch types data)
  else .error ("unsupported mutation operation '" ++ op ++ "'")

/-! ## The statements -/

/-- The bound values of the columns of a record. -/
abbrev Values := List (Text × Option Text)

inductive Command where
  /-- Under an id an insert does nothing where there is a row of that id. -/
  | insert (values : Values) (id : Option Uuid)
  | select (id : Uuid)
  /-- An update sets `updated_at` as well. -/
  | update (values : Values) (id : Uuid)
  | delete (id : Uuid)
  deriving DecidableEq

structure Statement where
  table : Text
  command : Command
  deriving DecidableEq

def table (app entity : Text) : Text := quoteIdent app ++ "." ++ quoteIdent entity

/-- What the provider answers to a statement that is sent after others: the rows that it
    wrote, found or deleted, or why it fails. -/
abbrev Provider := List (Statement × List Json) → Statement → Except Text (List Json)

/-- The statements of a transaction with their answers, and whether one of them failed. -/
structure Work where
  sent : List (Statement × List Json)
  failed : Bool

abbrev Run := ExceptT Text (StateM Work)

variable (provider : Provider)

/-- A transaction with a failed statement takes no other. -/
def send (statement : Statement) : Run (List Json) := fun work =>
  if work.failed then
    (.error "current transaction is aborted, commands ignored until end of transaction block", work)
  else
    match provider work.sent statement with
    | .error failure => (.error failure, { work with failed := true })
    | .ok rows => (.ok rows, { work with sent := work.sent ++ [(statement, rows)] })

def fail {α : Type} (failure : Text) : Run α := fun work => (.error failure, work)

/-- What fails on this side sends nothing. -/
def locally {α : Type} (outcome : Except Text α) : Run α := fun work => (outcome, work)

def bindValues (types : FieldMap) (object : Object) : Except Text Values :=
  object.mapM fun (name, value) => do
    return (name, ← codec.bindTyped ((types.get name).map Field.fieldType) value)

def notFound (id : Uuid) : Text := "record '" ++ id ++ "' not found"

def firstRow (missing : Text) (rows : List Json) : Run Json :=
  match rows.head? with
  | some row => pure row
  | none => fail missing

/-- `insert`: a separate statement reads the row that was in the way. -/
def insert (types : FieldMap) (table : Text) (object : Object) (idempotencyKey : Option Text) : Run Json := do
  let id := idempotencyKey.map codec.newV5
  let values ← locally (bindValues codec types object)
  let rows ← send provider ⟨table, .insert values id⟩
  match rows.head?, id with
  | some row, _ => pure row
  | none, none => fail "create returned no row"
  | none, some id => do
    let found ← send provider ⟨table, .select id⟩
    firstRow (notFound id) found

def update (types : FieldMap) (table : Text) (id : Uuid) (object : Object) : Run Json := do
  let values ← locally (bindValues codec types object)
  let rows ← send provider ⟨table, .update values id⟩
  firstRow (notFound id) rows

def delete (table : Text) (id : Uuid) (idempotencyKey : Option Text) : Run Json := do
  let rows ← send provider ⟨table, .delete id⟩
  if rows.isEmpty && idempotencyKey.isNone then fail (notFound id)
  else pure (.obj [("deleted", .bool true), ("id", .str id)])

def perform (types : FieldMap) (table : Text) (idempotencyKey : Option Text) : Mutation → Run Json
  | .create object => insert codec provider types table object idempotencyKey
  | .bulkCreate objects => do
    return .arr (← objects.mapM fun object => insert codec provider types table object none)
  | .update id object => update codec provider types table id object
  | .delete id => delete provider table id idempotencyKey

def execute (types : FieldMap) (app entity op : Text) (data : Json) (idempotencyKey : Option Text) : Run Json := do
  let mutation ← locally (validate codec types op data idempotencyKey)
  perform codec provider types (table app entity) idempotencyKey mutation

/-! ## What a mutation leaves on its transaction -/

variable {codec provider} {types : FieldMap} {work work' : Work}

/-- Statements were sent and none of them failed. -/
structure Sent (work work' : Work) : Prop where
  whole : work'.failed = false
  more : work.sent.length < work'.sent.length

theorem Sent.trans {first second third : Work} (one : Sent first second) (two : Sent second third) : Sent first third :=
  ⟨two.whole, Nat.lt_trans one.more two.more⟩

theorem locally_ok {α : Type} {outcome : Except Text α} {value : α} :
    locally outcome work = (.ok value, work') ↔ outcome = .ok value ∧ work = work' :=
  Prod.mk.injEq .. ▸ Iff.rfl

theorem fail_ok {α : Type} {failure : Text} {value : α} : ¬fail failure work = (.ok value, work') :=
  fun ran => nomatch ran

theorem send_ok {statement : Statement} {rows : List Json} (ran : send provider statement work = (.ok rows, work')) :
    Sent work work' := by
  unfold send at ran
  cases failed : work.failed with
  | true =>
    rw [if_pos failed] at ran
    cases ran
  | false =>
    rw [if_neg (Bool.eq_false_iff.mp failed)] at ran
    cases answer : provider work.sent statement with
    | error failure =>
      rw [answer] at ran
      cases ran
    | ok reply =>
      rw [answer] at ran
      obtain ⟨-, rfl⟩ := Prod.mk.inj ran
      exact ⟨failed, by simp⟩

variable {row : Json} {table : Text} {key : Option Text} {data : Json}

theorem firstRow_ok {missing : Text} {rows : List Json} (ran : firstRow missing rows work = (.ok row, work')) :
    work' = work := by
  unfold firstRow at ran
  cases head : rows.head? with
  | none =>
    rw [head] at ran
    exact (fail_ok ran).elim
  | some first =>
    rw [head] at ran
    exact (exceptT_pure_ok.mp ran).2.symm

theorem insert_ok {object : Object}
    (ran : insert codec provider types table object key work = (.ok row, work')) : Sent work work' := by
  obtain ⟨values, bound, local', ran⟩ := exceptT_bind_ok.mp ran
  obtain ⟨-, rfl⟩ := locally_ok.mp local'
  obtain ⟨rows, mid, inserted, ran⟩ := exceptT_bind_ok.mp ran
  have first := send_ok inserted
  cases head : rows.head? with
  | some found =>
    simp only [head] at ran
    obtain ⟨-, rfl⟩ := exceptT_pure_ok.mp ran
    exact first
  | none =>
    cases key with
    | none =>
      simp only [head, Option.map_none] at ran
      exact (fail_ok ran).elim
    | some key =>
      simp only [head, Option.map_some] at ran
      obtain ⟨again, last, selected, ran⟩ := exceptT_bind_ok.mp ran
      rw [firstRow_ok ran]
      exact first.trans (send_ok selected)

theorem inserts_ok {table : Text} {objects : List Object} {rows : List Json} (some' : objects ≠ [])
    (ran : (objects.mapM fun object => insert codec provider types table object none) work = (.ok rows, work')) :
    Sent work work' := by
  induction objects generalizing work rows with
  | nil => exact absurd rfl some'
  | cons object rest ih =>
    rw [List.mapM_cons] at ran
    obtain ⟨row, mid, one, ran⟩ := exceptT_bind_ok.mp ran
    obtain ⟨others, last, many, ran⟩ := exceptT_bind_ok.mp ran
    obtain ⟨-, rfl⟩ := exceptT_pure_ok.mp ran
    cases rest with
    | nil =>
      obtain ⟨-, rfl⟩ := exceptT_pure_ok.mp many
      exact insert_ok one
    | cons next rest => exact (insert_ok one).trans (ih (List.cons_ne_nil _ _) many)

theorem delete_ok {id : Uuid} (ran : delete provider table id key work = (.ok row, work')) :
    Sent work work' := by
  obtain ⟨rows, mid, deleted, ran⟩ := exceptT_bind_ok.mp ran
  have first := send_ok deleted
  by_cases missing : (rows.isEmpty && key.isNone) = true
  · rw [if_pos missing] at ran
    exact (fail_ok ran).elim
  · rw [if_neg missing] at ran
    obtain ⟨-, rfl⟩ := exceptT_pure_ok.mp ran
    exact first

theorem update_ok {id : Uuid} {object : Object}
    (ran : update codec provider types table id object work = (.ok row, work')) : Sent work work' := by
  obtain ⟨values, bound, local', ran⟩ := exceptT_bind_ok.mp ran
  obtain ⟨-, rfl⟩ := locally_ok.mp local'
  obtain ⟨rows, mid, updated, ran⟩ := exceptT_bind_ok.mp ran
  rw [firstRow_ok ran]
  exact send_ok updated

/-- A bulk create has at least one object. -/
theorem bulkObjects_ok {objects : List Object} (valid : bulkObjects types data key = .ok objects) :
    objects ≠ [] := by
  unfold bulkObjects at valid
  cases key with
  | some key => simp at valid
  | none =>
    cases rows : data.asArray with
    | none => simp [rows] at valid
    | some rows' =>
      simp only [rows, Option.isSome_none, Bool.false_eq_true, if_false] at valid
      split at valid
      · simp at valid
      · next counted =>
        cases rows' with
        | nil => simp at counted
        | cons row rest =>
          rw [List.mapM_cons] at valid
          obtain ⟨first, -, valid⟩ := bind_eq_ok.mp valid
          obtain ⟨others, -, valid⟩ := bind_eq_ok.mp valid
          obtain rfl := pure_eq_ok.mp valid
          exact List.cons_ne_nil _ _

theorem validate_bulk {op : Text} {objects : List Object}
    (valid : validate codec types op data key = .ok (.bulkCreate objects)) : objects ≠ [] := by
  unfold validate at valid
  split at valid
  · obtain ⟨_, -, other⟩ := bind_eq_ok.mp valid
    exact nomatch pure_eq_ok.mp other
  split at valid
  · obtain ⟨found, bulk, same⟩ := bind_eq_ok.mp valid
    obtain rfl := Mutation.bulkCreate.inj (pure_eq_ok.mp same)
    exact bulkObjects_ok bulk
  split at valid
  · obtain ⟨_, -, other⟩ := bind_eq_ok.mp valid
    exact nomatch pure_eq_ok.mp other
  split at valid
  · obtain ⟨_, -, more⟩ := bind_eq_ok.mp valid
    obtain ⟨_, -, other⟩ := bind_eq_ok.mp more
    exact nomatch pure_eq_ok.mp other
  · cases valid

theorem execute_ok {app entity op : Text} {result : Json}
    (ran : execute codec provider types app entity op data key work = (.ok result, work')) :
    Sent work work' := by
  obtain ⟨mutation, checked, local', ran⟩ := exceptT_bind_ok.mp ran
  obtain ⟨valid, rfl⟩ := locally_ok.mp local'
  cases mutation with
  | create object => exact insert_ok ran
  | bulkCreate objects =>
    obtain ⟨rows, last, inserted, ran⟩ := exceptT_bind_ok.mp ran
    obtain ⟨-, rfl⟩ := exceptT_pure_ok.mp ran
    exact inserts_ok (validate_bulk valid) inserted
  | update id object => exact update_ok ran
  | delete id => exact delete_ok ran

end RootCx.CrossApp.Mutations
