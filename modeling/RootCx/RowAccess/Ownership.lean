import RootCx.Lib.Except
import RootCx.Manifest.Contract

/-! # Ownership

`governance/row_access/ownership.rs`: the column that decides who a row belongs
to, and the admission of chains of entities that defer ownership to one another.
-/

namespace RootCx.RowAccess

open RootCx.Text RootCx.Postgres

/-- The column that owns a row. -/
def ownerField (entity : EntityContract) : Option Text := (entity.fields.find? (·.owner)).map (·.name)

def RefTarget.isLocal : RefTarget → Bool
  | .local _ => true
  | _ => false

/-- The entity this one defers ownership to. -/
def ownerParent (entity : EntityContract) : Option Text := do
  let field ← entity.fields.find? (·.owner)
  let reference ← field.references
  if field.isLink && RefTarget.isLocal (parseEntityRef reference.entity) then some reference.entity else none

/-- The owning column of each entity, and the sibling it defers to. -/
abbrev OwnerMap := Text → Option (Text × Option Text)

/-- A later entity of the same name replaces an earlier one. -/
def ownerMap (entities : List EntityContract) : OwnerMap := fun name =>
  entities.reverse.findSome? fun entity =>
    if entity.entityName = name then (ownerField entity).map (·, ownerParent entity) else none

def MAX_OWNER_CHAIN : Nat := 4

/-- The function that answers which rows of an entity are the caller's. -/
def ownerResolverName (schema entity : Text) : Text := "rootcx_own." ++ schema ++ "." ++ entity

def fitsIdentLimit (name : Text) : Bool := byteLength name ≤ 63

def entityNamed (entities : List EntityContract) (name : Text) : Option EntityContract :=
  entities.reverse.find? (·.entityName = name)

/-- The declared key of an entity, `id` by default. -/
def primary (entity : EntityContract) : Text :=
  ((entity.fields.find? fun field => field.isPrimaryKey == some true || field.name == "id".toList).map (·.name)).getD
    "id".toList

def validateOwnerField (entity : EntityContract) : Except Text Unit :=
  let inEntity := "entity '" ++ entity.entityName
  match entity.fields.filter (·.owner) with
  | [] => .ok ()
  | [owner] =>
    if !(owner.fieldType ∈ ["entity_link".toList, "uuid".toList, "text".toList]) then
      .error (inEntity ++ "': owner field '" ++ owner.name ++ "' is '" ++ owner.fieldType ++
        "'; must be entity_link, uuid or text to hold a user id")
    else if owner.isLink then
      match owner.references with
      | none => .error (inEntity ++ "': owner field '" ++ owner.name ++
          "' is an entity_link with no 'references'; point it at 'core:users' to hold a user id, " ++
          "or at the entity that owns the row")
      | some reference =>
        match parseEntityRef reference.entity with
        | .core _ =>
          if reference.entity ≠ "core:users" ∨ reference.field ≠ "id" then
            .error (inEntity ++ "': direct ownership must reference core:users.id")
          else .ok ()
        | _ => .ok ()
    else .ok ()
  | owners => .error (inEntity ++ "' marks " ++ Nat.toDigits 10 owners.length ++ " fields as owner (" ++
      join ", " (owners.map (·.name)) ++ "); exactly one column may own a row")

/-! ## Chains -/

section Chains

variable (appId : Text) (entities : List EntityContract) (entity : EntityContract)

def arrows (chain : List Text) : Text := join " -> " chain

/-- The walk from a parent to the entity that holds a user id.  The chain grows
    with every step and is refused when it is longer than the maximum, so the
    steps never run out. -/
def walkChain : Nat → List Text → Text → Except Text Unit
  | 0, _, _ => .error "the chain is longer than the maximum"
  | steps + 1, chain, parent =>
    if parent ∈ chain then
      .error ("entity '" ++ entity.entityName ++ "' delegates ownership in a loop (" ++
        arrows (chain ++ [parent]) ++ "); a chain must end on a column holding a user id")
    else if (chain ++ [parent]).length > MAX_OWNER_CHAIN then
      .error ("entity '" ++ entity.entityName ++ "' delegates ownership through " ++
        Nat.toDigits 10 (chain ++ [parent]).length ++ " entities (" ++ arrows (chain ++ [parent]) ++
        "); at most 4 are allowed")
    else if !fitsIdentLimit (ownerResolverName appId parent) then
      .error ("entity '" ++ parent ++ "' of app '" ++ appId ++
        "' needs an ownership resolver named '" ++ ownerResolverName appId parent ++
        "', which exceeds PostgreSQL's 63-byte identifier limit; shorten the app or entity name")
    else
      match entityNamed entities parent with
      | none => .error "no entry found for key"
      | some target =>
        if (ownerField target).isNone then
          .error ("entity '" ++ entity.entityName ++ "' delegates ownership to '" ++ parent ++
            "', which declares no owner field; mark the column that owns a '" ++ parent ++
            "' row with \"owner\": true")
        else
          match ownerParent target with
          | some next => walkChain steps (chain ++ [parent]) next
          | none => .ok ()

def validateOwnerChain : Except Text Unit :=
  match ownerParent entity with
  | none => .ok ()
  | some parent =>
    match entityNamed entities parent with
    | none => .error ("entity '".toList ++ entity.entityName ++ "' delegates ownership to unknown entity '".toList ++
        parent ++ "'".toList)
    | some target =>
      if ((entity.fields.find? (·.owner)).bind (·.references)).map (·.field) ≠ some (primary target) then
        .error ("entity '".toList ++ entity.entityName ++ "': ownership must reference primary key '".toList ++ parent ++
          ".".toList ++ primary target ++ "'".toList)
      else walkChain appId entities entity MAX_OWNER_CHAIN [entity.entityName] parent

end Chains

/-- `row_access::validate`, without the declarations of shares. -/
def validate (appId : Text) (entities : List EntityContract) : Except Text Unit := do
  entities.forM validateOwnerField
  entities.forM (validateOwnerChain appId entities)

end RootCx.RowAccess
