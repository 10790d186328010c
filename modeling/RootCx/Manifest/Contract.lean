import RootCx.Lib.Json
import RootCx.Postgres.Pieces

/-! # The data contract of a manifest

The types of `shared-types` that describe an application's entities, and the
helpers of `manifest.rs` on names and references.  Keys the Core does not know
and the parts of a manifest without a table are left out.
-/

namespace RootCx

open RootCx.Text RootCx.Postgres

inductive OnDeletePolicy where
  | cascade
  | restrict
  | setNull
  deriving DecidableEq, Repr

structure FieldReference where
  entity : Text
  field : Text
  deriving DecidableEq, Repr

/-- Rules on a single field, declared next to it. -/
structure FieldRules where
  minimum : Option Json := none
  maximum : Option Json := none
  exclusiveMinimum : Option Json := none
  exclusiveMaximum : Option Json := none
  integer : Bool := false
  maxScale : Option Nat := none
  minLength : Option Nat := none
  maxLength : Option Nat := none
  notBlank : Bool := false
  format : Option Text := none
  pattern : Option Text := none
  jsonType : Option Text := none
  maxItems : Option Nat := none

structure FieldContract where
  name : Text
  fieldType : Text
  precision : Option Nat := none
  scale : Option Nat := none
  required : Bool := false
  defaultValue : Option Json := none
  enumValues : Option (List Text) := none
  references : Option FieldReference := none
  isPrimaryKey : Option Bool := none
  onDelete : Option OnDeletePolicy := none
  sensitive : Bool := false
  owner : Bool := false
  rules : FieldRules := {}

structure IndexColumnSpec where
  column : Option Text := none
  expr : Option Text := none
  sort : Option Text := none
  nulls : Option Text := none
  ops : Option Text := none
  deriving DecidableEq, Repr

inductive IndexColumn where
  | name (name : Text)
  | spec (spec : IndexColumnSpec)
  deriving DecidableEq, Repr

structure IndexContract where
  name : Option Text := none
  columns : List IndexColumn
  unique : Bool := false
  using_ : Option Text := none
  whereClause : Option Text := none
  with_ : List (Text × Text) := []
  deriving DecidableEq, Repr

structure CheckContract where
  name : Option Text := none
  expr : Text
  deriving DecidableEq, Repr

structure EntityContract where
  entityName : Text
  fields : List FieldContract
  indexes : List IndexContract := []
  checks : List CheckContract := []
  derivedFrom : Option Text := none

/-- A table its app recomputes from another entity. -/
def EntityContract.isDerived (entity : EntityContract) : Bool := entity.derivedFrom.isSome

/-- The entity whose permission keys guard this one. -/
def EntityContract.keysEntity (entity : EntityContract) : Text :=
  entity.derivedFrom.getD entity.entityName

/-! ## Names -/

def SYSTEM_FIELDS : List Text := ["id", "created_at", "updated_at"]

def isSystemField (name : Text) : Bool := name ∈ SYSTEM_FIELDS

def isAsciiLower (c : Char) : Bool := decide ('a' ≤ c) && decide (c ≤ 'z')

def validateIdent (value label : Text) : Except Text Unit :=
  if value.head?.any isAsciiLower && value.all (fun c => isAsciiLower c || c.isDigit || c == '_') then .ok ()
  else .error (label ++ " '" ++ value ++
    "' must be snake_case (lowercase letters, digits, underscores; start with a letter)")

def validateNewIdent (value label : Text) : Except Text Unit := do
  validateIdent value label
  if byteLength value > MAX_IDENT_BYTES then
    .error (label ++ " '" ++ value ++ "' is " ++ Nat.toDigits 10 (byteLength value) ++
      " bytes; PostgreSQL names are limited to " ++ Nat.toDigits 10 MAX_IDENT_BYTES)
  else .ok ()

/-! ## References -/

inductive RefTarget where
  | local (entity : Text)
  | core (name : Text)
  | app (app entity : Text)
  deriving DecidableEq, Repr

/-- `str::split_once`. -/
def splitOnce (separator : Char) (text : Text) : Option (Text × Text) :=
  match text.dropWhile (· != separator) with
  | [] => none
  | _ :: rest => some (text.takeWhile (· != separator), rest)

def parseEntityRef (raw : Text) : RefTarget :=
  match splitOnce ':' raw with
  | some (app, entity) => if app = "core" then .core entity else .app app entity
  | none => .local raw

/-- Schema, table, key column and key type of a Core entity. -/
structure CoreEntity where
  schema : Text
  table : Text
  pkColumn : Text
  pkType : Text
  deriving DecidableEq, Repr

def resolveCoreEntity (name : Text) : Option CoreEntity :=
  if name = "users" then
    some ⟨"rootcx_system", "users", "id", "UUID"⟩
  else none

def resolveOnDelete (field : FieldContract) : Text :=
  match field.onDelete with
  | some .cascade => "CASCADE"
  | some .restrict => "RESTRICT"
  | some .setNull => "SET NULL"
  | none => if field.required then "RESTRICT" else "SET NULL"

/-- The declared key, or the field named `id`. -/
def FieldContract.isPk (field : FieldContract) : Bool :=
  field.isPrimaryKey.getD false || field.name == "id"

def FieldContract.isLink (field : FieldContract) : Bool := field.fieldType == "entity_link"

end RootCx
