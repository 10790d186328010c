import RootCx.Lib.Lookup
import RootCx.Manifest.Validate
import RootCx.RowAccess.Chain

/-! # Sharing paths

`governance/row_access/sharing.rs`: an ownership chain resolved into joins.  The
admission of chains, the walk of the policies and the walk of the joins follow
the same graph, each with its own check for loops and its own bound.
-/

namespace RootCx.RowAccess.Sharing

open RootCx.Text RootCx.Postgres List Option

/-! ## Links -/

def entity (entities : List EntityContract) (name : Text) : Except Text EntityContract :=
  match entities.find? (·.entityName = name) with
  | some entity => .ok entity
  | none => .error ("share: unknown entity '" ++ name ++ "'")

/-- The entity a share field leads to, when it is a local link to its key. -/
def link (entities : List EntityContract) (source : EntityContract) (field : Text) : Except Text EntityContract :=
  let inEntity := "entity '" ++ source.entityName ++ "': share field '"
  match source.fields.find? (·.name = field) with
  | none => .error (inEntity ++ field ++ "' does not exist")
  | some field =>
    match field.references.filter fun _ => field.isLink with
    | none => .error (inEntity ++ field.name ++ "' must be a local entity_link")
    | some reference =>
      if !RefTarget.isLocal (parseEntityRef reference.entity) then
        .error (inEntity ++ field.name ++ "' must link to a local entity")
      else do
        let target ← entity entities reference.entity
        if reference.field ≠ primary target then
          .error (inEntity ++ field.name ++ "' must reference the primary key of '" ++ target.entityName ++
            "'")
        else .ok target

def ownedLink (entities : List EntityContract) (source : EntityContract) (field : Text) :
    Except Text EntityContract := do
  let target ← link entities source field
  if (ownerField target).isNone then
    .error ("entity '" ++ source.entityName ++ "': share field '" ++ field ++ "' targets '" ++
      target.entityName ++ "', which declares no owner field")
  else .ok target

/-! ## Paths -/

/-- The joined tables, and the column of the last one that holds a user id. -/
structure Path where
  tables : Text
  identity : Text
  identityType : Text
  pk : Text
  deriving DecidableEq, Repr

section Walk

variable (appId : Text) (entities : List EntityContract) (start letter : Text)

/-- The name of the table joined at an index. -/
def numbered (index : Nat) : Text := letter ++ Nat.toDigits 10 index

def columnAt (index : Nat) (column : Text) : Text := numbered letter index ++ "." ++ quoteIdent column

def tableAt (index : Nat) (table : Text) : Text :=
  quoteIdent appId ++ "." ++ quoteIdent table ++ " " ++ numbered letter index

def joinAt (index : Nat) (owner parent key : Text) : Text :=
  " JOIN " ++ tableAt appId letter (index + 1) parent ++ " ON " ++ columnAt letter index owner ++
    " = " ++ columnAt letter (index + 1) key

def loops : Text :=
  "share: ownership chain from '" ++ start ++ "' loops or exceeds MAX_OWNER_CHAIN"

def identityTypeOf (field : FieldContract) : Text :=
  if field.fieldType = "text" then "text" else "uuid"

/-- The loop of `path`.  Each step visits one more entity, and the steps run out
    when as many have been visited as a chain may have. -/
def pathFrom (pk : Text) : Nat → List Text → Text → EntityContract → Except Text Path
  | 0, _, _, _ => .error (loops start)
  | steps + 1, visited, tables, current =>
    if current.entityName ∈ visited then .error (loops start)
    else
      match ownerField current with
      | none => .error ("share: entity '" ++ current.entityName ++ "' has no owner")
      | some owner =>
        match ownerParent current with
        | none =>
          match current.fields.find? (·.name = owner) with
          | none => .error "called `Option::unwrap()` on a `None` value"
          | some field => .ok ⟨tables, columnAt letter visited.length owner, identityTypeOf field, pk⟩
        | some parent => do
          let target ← ownedLink entities current owner
          pathFrom pk steps (visited ++ [current.entityName])
            (tables ++ joinAt appId letter visited.length owner parent (primary target)) target

/-- The joins from an entity to the one that holds a user id. -/
def path : Except Text Path := do
  let current ← entity entities start
  pathFrom appId entities start letter (columnAt letter 0 (primary current)) MAX_OWNER_CHAIN []
    (tableAt appId letter 0 start) current

end Walk

/-! ## The path along a chain -/

section Along

variable (appId : Text) (entities : List EntityContract) (letter : Text)

def keyOf (name : Text) : Text := ((entityNamed entities name).map primary).getD []

def typeOf (name column : Text) : Text :=
  (((entityNamed entities name).bind fun entity => entity.fields.find? (·.name = column)).map identityTypeOf).getD []

/-- The joins along the links of a chain. -/
def joins : Nat → List (Text × Text) → Text
  | index, (_, owner) :: (parent, column) :: above =>
    joinAt appId letter index owner parent (keyOf entities parent) ++ joins (index + 1) ((parent, column) :: above)
  | _, _ => []

/-- The joins from an index on, and the column they end at. -/
def climbPath (pk : Text) (index : Nat) (tables : Text) (chain : List (Text × Text)) : Path :=
  let root := chain.getLast?.getD ([], [])
  ⟨tables ++ joins appId entities letter index chain, columnAt letter (index + chain.length - 1) root.2,
    typeOf entities root.1 root.2, pk⟩

/-- The path that visits the entities of a chain in turn. -/
def pathAlong (start : Text) (chain : List (Text × Text)) : Path :=
  climbPath appId entities letter (columnAt letter 0 (keyOf entities start)) 0 (tableAt appId letter 0 start) chain

end Along

variable {name : Text} {child : EntityContract} {parent : Text} {steps : Nat}

/-! ## Entities by name -/

section Named

variable {entities : List EntityContract} (names : (entities.map (·.entityName)).Nodup)

include names

theorem entityNamed_eq_some {found : EntityContract} :
    entityNamed entities name = some found ↔ found ∈ entities ∧ found.entityName = name := by
  unfold entityNamed
  rw [find?_key_reverse names, find?_key_eq_some names]

theorem entity_eq_ok {found : EntityContract} :
    entity entities name = .ok found ↔ entityNamed entities name = some found := by
  rw [entityNamed_eq_some names, ← find?_key_eq_some names]
  unfold entity
  split
  case h_1 other here => rw [here]; simp
  case h_2 missing => rw [missing]; simp

theorem ownerMap_eq_some {column : Text} {parent : Option Text} :
    ownerMap entities name = some (column, parent) ↔
      ∃ found, entityNamed entities name = some found ∧ ownerField found = some column ∧ ownerParent found = parent := by
  constructor
  · intro mapped
    obtain ⟨found, mem, here⟩ := exists_of_findSome?_eq_some mapped
    split at here
    case isFalse => cases here
    case isTrue named =>
      obtain ⟨owner, owned, pair⟩ := map_eq_some_iff.mp here
      obtain ⟨rfl, rfl⟩ : owner = column ∧ ownerParent found = parent := by simpa using pair
      exact ⟨found, (entityNamed_eq_some names).mpr ⟨mem_reverse.mp mem, named⟩, owned, rfl⟩
  · rintro ⟨found, named, owned, rfl⟩
    obtain ⟨mem, named⟩ := (entityNamed_eq_some names).mp named
    cases mapped : ownerMap entities name with
    | none =>
      have missing := findSome?_eq_none_iff.mp mapped found (mem_reverse.mpr mem)
      simp [named, owned] at missing
    | some entry =>
      -- the entry belongs to an entity of the same name, which is this one
      obtain ⟨other, inside, here⟩ := exists_of_findSome?_eq_some mapped
      split at here
      case isFalse => cases here
      case isTrue same =>
        obtain rfl := inj_on_of_nodup_map names (mem_reverse.mp inside) mem (same.trans named.symm)
        rw [owned] at here
        exact here.symm

end Named

/-! ## One link -/

/-- The owner column of an entity references the key of another. -/
def ReferencesKey (child target : EntityContract) : Prop :=
  ((child.fields.find? (·.owner)).bind (·.references)).map (·.field) = some (primary target)

theorem ownerParent_eq_some :
    ownerParent child = some parent ↔ ∃ field reference, child.fields.find? (·.owner) = some field ∧
      field.references = some reference ∧ field.isLink = true ∧
      RefTarget.isLocal (parseEntityRef reference.entity) = true ∧ reference.entity = parent := by
  unfold ownerParent
  cases found : child.fields.find? (·.owner) with
  | none => simp
  | some field =>
    cases referenced : field.references with
    | none => simp [referenced]
    | some reference => simp [referenced, and_assoc]

theorem ownedLink_eq_ok {entities : List EntityContract} (names : (entities.map (·.entityName)).Nodup)
    {target : EntityContract} (fields : (child.fields.map (·.name)).Nodup) {owner : Text}
    (owned : ownerField child = some owner) (defers : ownerParent child = some parent) :
    ownedLink entities child owner = .ok target ↔
      entityNamed entities parent = some target ∧ ReferencesKey child target ∧ (ownerField target).isSome := by
  obtain ⟨field, reference, found, referenced, linked, isLocal, rfl⟩ := ownerParent_eq_some.mp defers
  have named : field.name = owner := by simpa [ownerField, found] using owned
  have byName : child.fields.find? (fun candidate => decide (candidate.name = owner)) = some field :=
    (find?_key_eq_some fields).mpr ⟨mem_of_find?_eq_some found, named⟩
  have follows : link entities child owner = .ok target ↔
      entityNamed entities reference.entity = some target ∧ ReferencesKey child target := by
    unfold link ReferencesKey
    rw [byName]
    simp only [referenced, linked, isLocal, filter_some, if_true, Bool.not_true, Bool.false_eq_true, if_false,
      bind_eq_ok, entity_eq_ok names, found, bind_some, map_some, some.injEq]
    constructor
    · rintro ⟨other, there, ok⟩
      split at ok
      case isTrue => cases ok
      case isFalse keyed =>
        cases ok
        exact ⟨there, not_not.mp keyed⟩
    · rintro ⟨there, keyed⟩
      exact ⟨target, there, if_neg (not_not.mpr keyed)⟩
  unfold ownedLink
  rw [bind_eq_ok, ← and_assoc]
  constructor
  · rintro ⟨other, step, ok⟩
    split at ok
    case isTrue => cases ok
    case isFalse some =>
      cases ok
      exact ⟨follows.mp step, by simpa [isSome_iff_ne_none] using some⟩
  · rintro ⟨step, some⟩
    refine ⟨target, follows.mpr step, if_neg ?_⟩
    simpa [isSome_iff_ne_none] using some

/-! ## The joins follow the chain -/

section Follow

variable {appId : Text} {entities : List EntityContract} {start letter : Text}

theorem climbPath_root (pk : Text) (index : Nat) (tables name column : Text) :
    climbPath appId entities letter pk index tables [(name, column)] =
      ⟨tables, columnAt letter index column, typeOf entities name column, pk⟩ := by
  simp [climbPath, joins]

theorem climbPath_link (pk : Text) (index : Nat) (tables name owner parent column : Text)
    (above : List (Text × Text)) :
    climbPath appId entities letter pk index tables ((name, owner) :: (parent, column) :: above) =
      climbPath appId entities letter pk (index + 1)
        (tables ++ joinAt appId letter index owner parent (keyOf entities parent)) ((parent, column) :: above) := by
  have next : index + (above.length + 1 + 1) - 1 = index + 1 + (above.length + 1) - 1 := by omega
  simp [climbPath, joins, next]

/-- Every link of a chain references the key of the entity above it. -/
def KeyedAlong (entities : List EntityContract) (chain : List (Text × Text)) : Prop :=
  ∀ entry ∈ chain, ∀ child parent target, entityNamed entities entry.1 = some child →
    ownerParent child = some parent → entityNamed entities parent = some target → ReferencesKey child target

variable (names : (entities.map (·.entityName)).Nodup)
  (fields : ∀ entity ∈ entities, (entity.fields.map (·.name)).Nodup)

include names fields

/-- A walk that succeeds has climbed to the entity that holds a user id. -/
theorem pathFrom_ok {pk : Text} {visited : List Text} {tables : Text} {current : EntityContract}
    {walked : Path} (mem : current ∈ entities)
    (ok : pathFrom appId entities start letter pk steps visited tables current = .ok walked) :
    ∃ chain, Climbs (ownerMap entities) current.entityName chain ∧ chain.length ≤ steps ∧ KeyedAlong entities chain ∧
      walked = climbPath appId entities letter pk visited.length tables chain := by
  induction steps generalizing visited tables current with
  | zero => cases ok
  | succ steps ih =>
    have named := (entityNamed_eq_some names).mpr ⟨mem, rfl⟩
    unfold pathFrom at ok
    split at ok
    case isTrue => cases ok
    case isFalse =>
      cases owned : ownerField current with
      | none => rw [owned] at ok; cases ok
      | some owner =>
        rw [owned] at ok
        cases defers : ownerParent current with
        | none =>
          rw [defers] at ok
          dsimp only at ok
          have owns := (ownerMap_eq_some names).mpr ⟨current, named, owned, defers⟩
          refine ⟨_, .root owns, by simp, ?_, ?_⟩
          · intro entry inside child parent target here up
            obtain rfl := mem_singleton.mp inside
            cases named.symm.trans here
            rw [defers] at up
            cases up
          · split at ok
            case h_1 => cases ok
            case h_2 field found =>
              rw [climbPath_root, ← Except.ok.inj ok]
              simp [typeOf, named, found]
        | some parent =>
          rw [defers] at ok
          obtain ⟨target, step, ok⟩ := bind_eq_ok.mp ok
          obtain ⟨there, keyed, -⟩ := (ownedLink_eq_ok names (fields current mem) owned defers).mp step
          obtain ⟨inside, rfl⟩ := (entityNamed_eq_some names).mp there
          obtain ⟨chain, climbs, short, keyedAbove, rfl⟩ := ih inside ok
          have links := (ownerMap_eq_some names).mpr ⟨current, named, owned, defers⟩
          obtain ⟨column, above, rfl⟩ := climbs.head
          refine ⟨_, .link links climbs, by simpa using short, ?_, ?_⟩
          · intro entry mem child parent' target' here up above
            rcases mem_cons.mp mem with rfl | mem
            · cases named.symm.trans here
              cases defers.symm.trans up
              cases there.symm.trans above
              exact keyed
            · exact keyedAbove entry mem child parent' target' here up above
          · rw [climbPath_link, length_append, length_singleton]
            simp [keyOf, there]

/-- A chain that is short enough and keyed is walked to its end. -/
theorem pathFrom_of_climbs {pk : Text} {name : Text} {chain : List (Text × Text)}
    (climbs : Climbs (ownerMap entities) name chain) (keyed : KeyedAlong entities chain) {steps : Nat}
    {visited : List Text} {tables : Text} {current : EntityContract} (named : entityNamed entities name = some current)
    (fresh : ∀ name ∈ chain.map (·.1), name ∉ visited) (enough : chain.length ≤ steps) :
    pathFrom appId entities start letter pk steps visited tables current =
      .ok (climbPath appId entities letter pk visited.length tables chain) := by
  induction climbs generalizing steps visited tables current with
  | @root name column owns =>
    obtain ⟨mem, rfl⟩ := (entityNamed_eq_some names).mp named
    obtain ⟨found, here, owned, defers⟩ := (ownerMap_eq_some names).mp owns
    cases named.symm.trans here
    cases steps with
    | zero => simp at enough
    | succ steps =>
      obtain ⟨field, isOwner, rfl⟩ : ∃ field, current.fields.find? (·.owner) = some field ∧ field.name = column := by
        simpa [ownerField] using owned
      have byName : current.fields.find? (fun candidate => decide (candidate.name = field.name)) = some field :=
        (find?_key_eq_some (fields current mem)).mpr ⟨mem_of_find?_eq_some isOwner, rfl⟩
      rw [climbPath_root, pathFrom, if_neg (fresh _ (by simp)), owned]
      simp only [defers, byName]
      simp [typeOf, named, byName]
  | @link name column parent rest links above ih =>
    obtain ⟨mem, rfl⟩ := (entityNamed_eq_some names).mp named
    obtain ⟨found, here, owned, defers⟩ := (ownerMap_eq_some names).mp links
    cases named.symm.trans here
    cases steps with
    | zero => simp at enough
    | succ steps =>
      obtain ⟨parentColumn, others, rfl⟩ := above.head
      have owns : ∃ column parent', ownerMap entities parent = some (column, parent') := by
        cases above with
        | root owns => exact ⟨_, _, owns⟩
        | link owns => exact ⟨_, _, owns⟩
      obtain ⟨_, _, owns⟩ := owns
      obtain ⟨target, there, ownedAbove, -⟩ := (ownerMap_eq_some names).mp owns
      have references := keyed _ mem_cons_self current parent target named defers there
      have step : ownedLink entities current column = .ok target :=
        (ownedLink_eq_ok names (fields current mem) owned defers).mpr ⟨there, references, by simp [ownedAbove]⟩
      have further : ∀ name ∈ ((parent, parentColumn) :: others).map (·.1), name ∉ visited ++ [current.entityName] := by
        intro name inside
        rw [mem_append, not_or]
        refine ⟨fresh name (mem_cons_of_mem _ inside), ?_⟩
        have distinct := (Climbs.link links above).distinct
        rw [map_cons, nodup_cons] at distinct
        intro again
        obtain rfl := mem_singleton.mp again
        exact distinct.1 inside
      rw [climbPath_link, pathFrom, if_neg (fresh _ (by simp)), owned]
      simp only [defers]
      rw [step]
      have climbed := @ih (fun entry inside => keyed entry (mem_cons_of_mem _ inside)) steps
        (visited ++ [current.entityName])
        (tables ++ joinAt appId letter visited.length column parent (primary target)) target there further
        (by simpa using enough)
      rw [length_append, length_singleton] at climbed
      simpa [keyOf, there, bind, Except.bind] using climbed

/-- `path` succeeds exactly on the chains of the policies whose links reference
    keys, and visits the entities of the chain. -/
theorem path_iff (mem : child ∈ entities) {walked : Path} :
    path appId entities child.entityName letter = .ok walked ↔
      ∃ chain, Climbs (ownerMap entities) child.entityName chain ∧ chain.length ≤ MAX_OWNER_CHAIN ∧
        KeyedAlong entities chain ∧ walked = pathAlong appId entities letter child.entityName chain := by
  have named := (entityNamed_eq_some names).mpr ⟨mem, rfl⟩
  have key : keyOf entities child.entityName = primary child := by simp [keyOf, named]
  unfold path pathAlong
  rw [bind_eq_ok]
  constructor
  · rintro ⟨current, here, ok⟩
    cases named.symm.trans ((entity_eq_ok names).mp here)
    obtain ⟨chain, climbs, short, keyed, rfl⟩ := pathFrom_ok names fields mem ok
    exact ⟨chain, climbs, short, keyed, by rw [key]; rfl⟩
  · rintro ⟨chain, climbs, short, keyed, rfl⟩
    refine ⟨child, (entity_eq_ok names).mpr named, ?_⟩
    rw [pathFrom_of_climbs names fields climbs keyed named (by simp) short, key]
    rfl

end Follow

/-! ## The admission follows the chain -/

section Admission

variable {appId : Text} {entities : List EntityContract} (names : (entities.map (·.entityName)).Nodup)

include names

theorem walkChain_ok {below : List Text} (ok : walkChain appId entities child steps below parent = .ok ()) :
    ∃ above, Climbs (ownerMap entities) parent above ∧ below.length + above.length ≤ MAX_OWNER_CHAIN ∧
      ∀ name ∈ above.map (·.1), fitsIdentLimit (ownerResolverName appId name) = true := by
  induction steps generalizing below parent with
  | zero => cases ok
  | succ steps ih =>
    unfold walkChain at ok
    split at ok
    case isTrue => cases ok
    case isFalse =>
      split at ok
      case isTrue => cases ok
      case isFalse short =>
        rw [length_append, length_singleton] at short
        split at ok
        case isTrue => cases ok
        case isFalse fits =>
          have fits : fitsIdentLimit (ownerResolverName appId parent) = true := by simpa using fits
          split at ok
          case h_1 => cases ok
          case h_2 target there =>
            cases owned : ownerField target with
            | none => rw [owned] at ok; cases ok
            | some column =>
              rw [owned] at ok
              dsimp only [isNone_some] at ok
              rw [if_neg Bool.false_ne_true] at ok
              cases defers : ownerParent target with
              | none =>
                have owns := (ownerMap_eq_some names).mpr ⟨target, there, owned, defers⟩
                exact ⟨_, .root owns, by simpa using short, by simpa using fits⟩
              | some next =>
                rw [defers] at ok
                obtain ⟨above, climbs, bounded, fitsAbove⟩ := ih ok
                have links := (ownerMap_eq_some names).mpr ⟨target, there, owned, defers⟩
                refine ⟨_, .link links climbs, ?_, ?_⟩
                · rw [length_append, length_singleton] at bounded
                  rw [length_cons]
                  omega
                · rw [map_cons, forall_mem_cons]
                  exact ⟨fits, fitsAbove⟩

theorem walkChain_of_climbs {above : List (Text × Text)} (climbs : Climbs (ownerMap entities) parent above)
    {below : List Text} (fresh : ∀ name ∈ above.map (·.1), name ∉ below) (enough : above.length ≤ steps)
    (bounded : below.length + above.length ≤ MAX_OWNER_CHAIN)
    (fits : ∀ name ∈ above.map (·.1), fitsIdentLimit (ownerResolverName appId name) = true) :
    walkChain appId entities child steps below parent = .ok () := by
  induction climbs generalizing steps below with
  | @root parent column owns =>
    obtain ⟨target, there, owned, defers⟩ := (ownerMap_eq_some names).mp owns
    cases steps with
    | zero => simp at enough
    | succ steps =>
      have short : ¬ (below ++ [parent]).length > MAX_OWNER_CHAIN := by
        rw [length_append, length_singleton]
        rw [length_singleton] at bounded
        omega
      rw [walkChain, if_neg (fresh parent (by simp)), if_neg short, fits parent (by simp)]
      simp [there, owned, defers]
  | @link parent column next rest links above ih =>
    obtain ⟨target, there, owned, defers⟩ := (ownerMap_eq_some names).mp links
    cases steps with
    | zero => simp at enough
    | succ steps =>
      rw [length_cons] at enough bounded
      have short : ¬ (below ++ [parent]).length > MAX_OWNER_CHAIN := by
        rw [length_append, length_singleton]
        omega
      have further : ∀ name ∈ rest.map (·.1), name ∉ below ++ [parent] := by
        intro name inside
        rw [mem_append, not_or]
        refine ⟨fresh name (mem_cons_of_mem _ inside), ?_⟩
        have distinct := (Climbs.link links above).distinct
        rw [map_cons, nodup_cons] at distinct
        intro again
        obtain rfl := mem_singleton.mp again
        exact distinct.1 inside
      have room : (below ++ [parent]).length + rest.length ≤ MAX_OWNER_CHAIN := by
        rw [length_append, length_singleton]
        omega
      have climbed : walkChain appId entities child steps (below ++ [parent]) next = .ok () :=
        ih further (by omega) room fun name inside => fits name (mem_cons_of_mem _ inside)
      rw [walkChain, if_neg (fresh parent (by simp)), if_neg short, fits parent (by simp)]
      simp [there, owned, defers, climbed]

/-- What the admission asks of the link of an entity, apart from the chain above. -/
def SoundLink (appId : Text) (entities : List EntityContract) (child : EntityContract) : Prop :=
  ∀ parent, ownerParent child = some parent → fitsIdentLimit (ownerResolverName appId parent) = true ∧
    ∀ target, entityNamed entities parent = some target → ReferencesKey child target

omit names in
theorem ownerField_of_ownerParent (defers : ownerParent child = some parent) :
    ∃ column, ownerField child = some column := by
  obtain ⟨field, -, found, -⟩ := ownerParent_eq_some.mp defers
  exact ⟨field.name, by simp [ownerField, found]⟩

theorem validateOwnerChain_ok (mem : child ∈ entities) {column : Text}
    (owned : ownerField child = some column) (ok : validateOwnerChain appId entities child = .ok ()) :
    SoundLink appId entities child ∧
      ∃ chain, Climbs (ownerMap entities) child.entityName chain ∧ chain.length ≤ MAX_OWNER_CHAIN := by
  have named := (entityNamed_eq_some names).mpr ⟨mem, rfl⟩
  unfold validateOwnerChain at ok
  cases defers : ownerParent child with
  | none =>
    refine ⟨fun parent up => absurd (defers.symm.trans up) (by simp), ?_⟩
    exact ⟨_, .root ((ownerMap_eq_some names).mpr ⟨child, named, owned, defers⟩), Nat.le_add_left 1 3⟩
  | some parent =>
    rw [defers] at ok
    dsimp only at ok
    split at ok
    case h_1 => cases ok
    case h_2 target there =>
      split at ok
      case isTrue => cases ok
      case isFalse keyed =>
        obtain ⟨above, climbs, bounded, fits⟩ := walkChain_ok names ok
        refine ⟨?_, ?_⟩
        · intro parent' up
          cases defers.symm.trans up
          obtain ⟨parentColumn, others, rfl⟩ := climbs.head
          refine ⟨fits _ (by simp), ?_⟩
          intro target' there'
          cases there.symm.trans there'
          exact not_not.mp keyed
        · refine ⟨_, .link ((ownerMap_eq_some names).mpr ⟨child, named, owned, defers⟩) climbs, ?_⟩
          rw [length_cons]
          rw [length_singleton] at bounded
          omega

theorem validateOwnerChain_of_climbs (sound : ∀ entity ∈ entities, SoundLink appId entities entity)
    {chain : List (Text × Text)} (mem : child ∈ entities)
    (climbs : Climbs (ownerMap entities) child.entityName chain) (short : chain.length ≤ MAX_OWNER_CHAIN) :
    validateOwnerChain appId entities child = .ok () := by
  have named := (entityNamed_eq_some names).mpr ⟨mem, rfl⟩
  have parents := climbs.parents
  have distinct := climbs.distinct
  unfold validateOwnerChain
  cases climbs with
  | root owns =>
    obtain ⟨found, here, -, defers⟩ := (ownerMap_eq_some names).mp owns
    cases named.symm.trans here
    rw [defers]
  | @link _ column parent above links climbs =>
    obtain ⟨found, here, owned, defers⟩ := (ownerMap_eq_some names).mp links
    cases named.symm.trans here
    rw [defers]
    have owns : ∃ column next, ownerMap entities parent = some (column, next) := by
      cases climbs with
      | root owns => exact ⟨_, _, owns⟩
      | link owns => exact ⟨_, _, owns⟩
    obtain ⟨_, _, owns⟩ := owns
    obtain ⟨target, there, -, -⟩ := (ownerMap_eq_some names).mp owns
    have keyed := (sound child mem parent defers).2 target there
    unfold ReferencesKey at keyed
    dsimp only
    rw [there]
    dsimp only
    rw [if_neg (not_not.mpr keyed)]
    rw [map_cons, nodup_cons] at distinct
    rw [length_cons] at short
    apply walkChain_of_climbs names climbs
    · intro name inside again
      obtain rfl := mem_singleton.mp again
      exact distinct.1 inside
    · omega
    · rw [length_singleton]
      omega
    · intro name inside
      obtain ⟨below, _, defersHere⟩ := parents name inside
      obtain ⟨found, there, -, up⟩ := (ownerMap_eq_some names).mp defersHere
      exact (sound found ((entityNamed_eq_some names).mp there).1 name up).1

end Admission

/-! ## The three walks -/

/-- The admission accepts a contract exactly when its owner columns and links are
    sound and the walk of the policies succeeds on every owned entity.  The joins
    succeed on the same entities, as far as the links reference keys, and visit the
    entities of the same chain. -/
theorem walkers_agree (appId : Text) (entities : List EntityContract) (letter : Text)
    (names : (entities.map (·.entityName)).Nodup)
    (fields : ∀ entity ∈ entities, (entity.fields.map (·.name)).Nodup) :
    (validate appId entities = .ok () ↔
      (∀ child ∈ entities, validateOwnerField child = .ok () ∧ SoundLink appId entities child) ∧
      ∀ child ∈ entities, (ownerField child).isSome →
        ∃ chain, ownerChain appId child.entityName (ownerMap entities) = .ok chain ∧ chain.length ≤ MAX_OWNER_CHAIN) ∧
    (∀ child ∈ entities, (ownerField child).isSome → ∀ walked,
      path appId entities child.entityName letter = .ok walked ↔
        ∃ chain, ownerChain appId child.entityName (ownerMap entities) = .ok chain ∧ KeyedAlong entities chain ∧
          walked = pathAlong appId entities letter child.entityName chain) ∧
    (validate appId entities = .ok () → ∀ child ∈ entities, (ownerField child).isSome →
      ∃ chain, ownerChain appId child.entityName (ownerMap entities) = .ok chain ∧ chain.length ≤ MAX_OWNER_CHAIN ∧
        path appId entities child.entityName letter = .ok (pathAlong appId entities letter child.entityName chain)) := by
  have chains : ∀ child ∈ entities, (ownerField child).isSome → ∀ chain,
      ownerChain appId child.entityName (ownerMap entities) = .ok chain ↔
        Climbs (ownerMap entities) child.entityName chain ∧ chain.length ≤ MAX_OWNER_CHAIN := by
    intro child member owned chain
    obtain ⟨column, owned⟩ := Option.isSome_iff_exists.mp owned
    exact ownerChain_iff ((ownerMap_eq_some names).mpr
      ⟨child, (entityNamed_eq_some names).mpr ⟨member, rfl⟩, owned, rfl⟩)
  have admission : validate appId entities = .ok () ↔
      (∀ child ∈ entities, validateOwnerField child = .ok () ∧ SoundLink appId entities child) ∧
      ∀ child ∈ entities, (ownerField child).isSome →
        ∃ chain, ownerChain appId child.entityName (ownerMap entities) = .ok chain ∧
          chain.length ≤ MAX_OWNER_CHAIN := by
    unfold validate
    rw [bind_eq_ok]
    constructor
    · rintro ⟨done, declared, walked⟩
      cases done
      rw [forM_eq_ok] at declared walked
      refine ⟨fun child member => ⟨declared child member, ?_⟩, ?_⟩
      · intro parent defers
        obtain ⟨column, owned⟩ := ownerField_of_ownerParent defers
        exact (validateOwnerChain_ok names member owned (walked child member)).1 parent defers
      · intro child member owned
        obtain ⟨column, found⟩ := Option.isSome_iff_exists.mp owned
        obtain ⟨-, chain, climbs, short⟩ := validateOwnerChain_ok names member found (walked child member)
        exact ⟨chain, (chains child member owned chain).mpr ⟨climbs, short⟩, short⟩
    · rintro ⟨sound, walked⟩
      refine ⟨(), forM_eq_ok.mpr fun child member => (sound child member).1, forM_eq_ok.mpr ?_⟩
      intro child member
      cases owned : ownerField child with
      | none =>
        -- an entity that defers to another has an owner column
        have stays : ownerParent child = none := by
          cases defers : ownerParent child with
          | none => rfl
          | some parent =>
            obtain ⟨column, found⟩ := ownerField_of_ownerParent defers
            exact absurd (owned.symm.trans found) (by simp)
        rw [validateOwnerChain, stays]
      | some column =>
        have declared : (ownerField child).isSome := by rw [owned]; rfl
        obtain ⟨chain, ok, -⟩ := walked child member declared
        obtain ⟨climbs, short⟩ := (chains child member declared chain).mp ok
        exact validateOwnerChain_of_climbs names (fun child member => (sound child member).2) member climbs short
  have joined : ∀ child ∈ entities, (ownerField child).isSome → ∀ walked,
      path appId entities child.entityName letter = .ok walked ↔
        ∃ chain, ownerChain appId child.entityName (ownerMap entities) = .ok chain ∧ KeyedAlong entities chain ∧
          walked = pathAlong appId entities letter child.entityName chain := by
    intro child member owned walked
    rw [path_iff names fields member]
    simp only [chains child member owned, and_assoc]
  refine ⟨admission, joined, ?_⟩
  intro accepted child member owned
  obtain ⟨sound, walked⟩ := admission.mp accepted
  obtain ⟨chain, ok, short⟩ := walked child member owned
  refine ⟨chain, ok, short, (joined child member owned _).mpr ⟨chain, ok, ?_, rfl⟩⟩
  intro entry inside below parent target here defers there
  exact ((sound below ((entityNamed_eq_some names).mp here).1).2 parent defers).2 target there

/-! ## Two contracts -/

def ownedProjects : EntityContract where
  entityName := "projects"
  fields := [
    { name := "code", fieldType := "text" },
    { name := "lead", fieldType := "entity_link", owner := true,
      references := some ⟨"core:users", "id"⟩ }]

/-- Tasks that belong to whom their project does, linked by a column of it. -/
def ownedTasks (key : Text) : EntityContract where
  entityName := "tasks"
  fields := [
    { name := "project", fieldType := "entity_link", owner := true,
      references := some ⟨"projects", key⟩ }]

/-- Both walks accept the admitted contract, along the same chain. -/
theorem tasks_walkers_agree :
    validate "hr".toList [ownedProjects, ownedTasks "id".toList] = .ok () ∧
      ∃ chain, ownerChain "hr".toList (ownedTasks "id".toList).entityName
          (ownerMap [ownedProjects, ownedTasks "id".toList]) = .ok chain ∧ chain.length ≤ MAX_OWNER_CHAIN ∧
        path "hr".toList [ownedProjects, ownedTasks "id".toList] (ownedTasks "id".toList).entityName "v".toList =
          .ok (pathAlong "hr".toList [ownedProjects, ownedTasks "id".toList] "v".toList
            (ownedTasks "id".toList).entityName chain) := by
  have accepted : validate "hr".toList [ownedProjects, ownedTasks "id".toList] = .ok () := by decide +kernel
  refine ⟨accepted, ?_⟩
  exact (walkers_agree "hr".toList [ownedProjects, ownedTasks "id".toList] "v".toList (by decide +kernel)
    (by decide +kernel)).2.2 accepted (ownedTasks "id".toList) (by simp) rfl

/-- The walk of the policies does not ask whether a link references a key. -/
theorem tasks_by_code_refused :
    (∀ child ∈ [ownedProjects, ownedTasks "code".toList], ∃ chain,
      ownerChain "hr".toList child.entityName (ownerMap [ownedProjects, ownedTasks "code".toList]) = .ok chain ∧
        chain.length ≤ MAX_OWNER_CHAIN) ∧
    validate "hr".toList [ownedProjects, ownedTasks "code".toList] ≠ .ok () := by
  refine ⟨?_, by decide +kernel⟩
  rw [List.forall_mem_cons, List.forall_mem_singleton]
  exact ⟨⟨[("projects".toList, "lead".toList)], by decide +kernel, by decide⟩,
    ⟨[("tasks".toList, "project".toList), ("projects".toList, "lead".toList)], by decide +kernel, by decide⟩⟩

end RootCx.RowAccess.Sharing
