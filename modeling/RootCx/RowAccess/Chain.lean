import RootCx.RowAccess.Plan

/-! # Ownership chains

`governance/row_access/policies.rs`: the walk from a table to the entity that
holds a user id, and the catalog answers along it.
-/

namespace RootCx.RowAccess

open RootCx.Text RootCx.Postgres List

/-- What the catalog says of the tables of a schema: their live columns with
    their types, and their primary key when it is one column. -/
structure Catalog where
  columns : Text → List (Text × Text)
  primaryKey : Text → Option Text

def Catalog.columnNames (catalog : Catalog) (table : Text) : List Text := (catalog.columns table).map (·.1)

def Catalog.columnType (catalog : Catalog) (table column : Text) : Option Text :=
  ((catalog.columns table).find? (·.1 = column)).map (·.2)

section Chain

variable (schema table : Text) (owners : OwnerMap)

def governance (reason : Text) : Text := "governance: " ++ reason

/-- The loop of `owner_chain`.  A chain that has reached the maximum stops at its
    next link, so the steps never run out. -/
def ownerChainFrom : Nat → List (Text × Text) → Text → Except Text (List (Text × Text))
  | 0, _, _ => .error (governance ("ownership of '" ++ schema ++ "." ++ table ++
      "' exceeds MAX_OWNER_CHAIN"))
  | steps + 1, chain, current =>
    match owners current with
    | none =>
      if chain = [] then .ok chain
      else .error (governance ("'" ++ schema ++ "." ++ table ++ "' delegates to '" ++ current ++
        "' with no owner"))
    | some (column, parent) =>
      if chain.any (·.1 = current) then
        .error (governance ("ownership of '" ++ schema ++ "." ++ table ++ "' loops at '" ++ current ++
          "'"))
      else
        match parent with
        | none => .ok (chain ++ [(current, column)])
        | some parent =>
          if (chain ++ [(current, column)]).length ≥ MAX_OWNER_CHAIN then
            .error (governance ("ownership of '" ++ schema ++ "." ++ table ++
              "' exceeds MAX_OWNER_CHAIN"))
          else ownerChainFrom steps (chain ++ [(current, column)]) parent

/-- The entities from `table` to its root, each with its owning column. -/
def ownerChain : Except Text (List (Text × Text)) := ownerChainFrom schema table owners MAX_OWNER_CHAIN [] table

end Chain

section Facts

variable (catalog : Catalog) (schema : Text)

/-- The facts of the link from `entity` to the entity above it. -/
def linkFacts (entity parent : Text × Text) : Except Text LinkFacts :=
  match catalog.primaryKey parent.1, catalog.columnType entity.1 entity.2 with
  | some pk, some _ =>
    match catalog.columnType parent.1 pk with
    | none => .error (governance ("key '" ++ schema ++ "." ++ parent.1 ++ "." ++ pk ++
        "' is missing"))
    | some pkType =>
      if !fitsIdentLimit (ownerResolverName schema parent.1) then
        .error (governance ("resolver '" ++ ownerResolverName schema parent.1 ++
          "' exceeds PostgreSQL identifier limit"))
      else .ok ⟨parent.1, entity.2, ownerResolverName schema parent.1, pk, pkType⟩
  | _, _ => .error (governance ("link '" ++ schema ++ "." ++ entity.1 ++ "." ++ entity.2 ++
      "' or primary key of '" ++ parent.1 ++ "' is missing"))

/-- The links of a chain, from the one nearest the root down. -/
def chainLinks : List (Text × Text) → Except Text (List LinkFacts)
  | entity :: parent :: rest => do
    let above ← chainLinks (parent :: rest)
    let link ← linkFacts catalog schema entity parent
    .ok (above ++ [link])
  | _ => .ok []

def rootFacts (root : Text × Text) : Except Text Text :=
  match catalog.columnType root.1 root.2 with
  | none => .error (governance ("owner column '" ++ schema ++ "." ++ root.1 ++ "." ++ root.2 ++
      "' is missing"))
  | some rootType =>
    if rootType = "uuid" ∨ rootType = "text" then .ok rootType
    else .error (governance ("owner column '" ++ schema ++ "." ++ root.1 ++ "." ++ root.2 ++
      "' must be uuid or text, found " ++ rootType))

def ownerFacts (table : Text) (owners : OwnerMap) : Except Text (Option OwnerFacts) := do
  let chain ← ownerChain schema table owners
  match chain.getLast? with
  | none => .ok none
  | some root => do
    let rootType ← rootFacts catalog schema root
    let links ← chainLinks catalog schema chain
    .ok (some ⟨root.2, rootType, links⟩)

def tableFacts (table : Text) (owners : OwnerMap) : Except Text TableFacts := do
  let owner ← ownerFacts catalog schema table owners
  .ok ⟨catalog.columnNames table, owner⟩

end Facts

/-! ## The shape of a chain -/

/-- The entities of a chain defer to one another up to the last one. -/
inductive Climbs (owners : OwnerMap) : Text → List (Text × Text) → Prop where
  | root {entity column : Text} (owns : owners entity = some (column, none)) : Climbs owners entity [(entity, column)]
  | link {entity column parent : Text} {rest : List (Text × Text)} (defers : owners entity = some (column, some parent))
      (above : Climbs owners parent rest) : Climbs owners entity ((entity, column) :: rest)

variable {owners : OwnerMap} {schema table : Text}

variable {entity : Text} {chain : List (Text × Text)}

theorem Climbs.head (climbs : Climbs owners entity chain) :
    ∃ column rest, chain = (entity, column) :: rest := by
  cases climbs with
  | root => exact ⟨_, _, rfl⟩
  | link => exact ⟨_, _, rfl⟩

theorem Climbs.unique {chain' : List (Text × Text)} (climbs : Climbs owners entity chain)
    (climbs' : Climbs owners entity chain') : chain = chain' := by
  induction climbs generalizing chain' with
  | root owns =>
    cases climbs' with
    | root owns' => simp_all
    | link defers => simp_all
  | link defers above ih =>
    cases climbs' with
    | root owns => simp_all
    | link defers' above' =>
      obtain ⟨rfl, rfl⟩ : _ ∧ _ := by simpa using defers.symm.trans defers'
      rw [ih above']

/-- A walk that starts below `current` appends its climb. -/
theorem ownerChainFrom_ok {steps : Nat} {below : List (Text × Text)} {current : Text}
    (ok : ownerChainFrom schema table owners steps below current = .ok chain) :
    (below = [] ∧ owners current = none ∧ chain = []) ∨ ∃ above, Climbs owners current above ∧ chain = below ++ above := by
  induction steps generalizing below current with
  | zero => cases ok
  | succ steps ih =>
    unfold ownerChainFrom at ok
    cases owner : owners current with
    | none =>
      rw [owner] at ok
      dsimp only at ok
      split at ok
      case isTrue empty => exact .inl ⟨empty, rfl, (Except.ok.inj ok).symm.trans empty⟩
      case isFalse => cases ok
    | some entry =>
      obtain ⟨column, parent⟩ := entry
      rw [owner] at ok
      dsimp only at ok
      split at ok
      case isTrue => cases ok
      case isFalse =>
        cases parent with
        | none => exact .inr ⟨_, .root owner, (Except.ok.inj ok).symm⟩
        | some parent =>
          dsimp only at ok
          split at ok
          case isTrue => cases ok
          case isFalse =>
            obtain ⟨absurdity, -⟩ | ⟨above, climbs, rfl⟩ := ih ok
            · exact absurd absurdity (by simp)
            · exact .inr ⟨_, .link owner climbs, by simp⟩

theorem ownerChain_ok (ok : ownerChain schema table owners = .ok chain) :
    (owners table = none ∧ chain = []) ∨ Climbs owners table chain := by
  obtain ⟨-, undeclared, empty⟩ | ⟨above, climbs, rfl⟩ := ownerChainFrom_ok ok
  · exact .inl ⟨undeclared, empty⟩
  · exact .inr climbs

/-- The entities above an entity do not lead back to it. -/
theorem ownerChainFrom_distinct {steps : Nat} {below chain : List (Text × Text)} {current : Text}
    (distinct : (below.map (·.1)).Nodup) (ok : ownerChainFrom schema table owners steps below current = .ok chain) :
    (chain.map (·.1)).Nodup := by
  induction steps generalizing below current with
  | zero => cases ok
  | succ steps ih =>
    unfold ownerChainFrom at ok
    split at ok
    case h_1 =>
      split at ok
      case isTrue => exact Except.ok.inj ok ▸ distinct
      case isFalse => cases ok
    case h_2 column parent _ =>
      split at ok
      case isTrue => cases ok
      case isFalse fresh =>
        have longer : ((below ++ [(current, column)]).map (·.1)).Nodup := by
          rw [map_append, nodup_append]
          refine ⟨distinct, nodup_singleton _, ?_⟩
          intro name inside other here same
          obtain rfl : other = current := mem_singleton.mp here
          obtain ⟨entry, mem, rfl⟩ := mem_map.mp inside
          exact fresh (any_eq_true.mpr ⟨entry, mem, decide_eq_true same⟩)
        split at ok
        case h_1 => exact Except.ok.inj ok ▸ longer
        case h_2 =>
          split at ok
          case isTrue => cases ok
          case isFalse => exact ih longer ok

theorem ownerChain_distinct (ok : ownerChain schema table owners = .ok chain) : (chain.map (·.1)).Nodup :=
  @ownerChainFrom_distinct owners schema table _ [] _ _ nodup_nil ok

theorem ownerChainFrom_length {steps : Nat} {below chain : List (Text × Text)} {current : Text}
    (short : below.length < MAX_OWNER_CHAIN) (ok : ownerChainFrom schema table owners steps below current = .ok chain) :
    chain.length ≤ MAX_OWNER_CHAIN := by
  induction steps generalizing below current with
  | zero => cases ok
  | succ steps ih =>
    unfold ownerChainFrom at ok
    split at ok
    case h_1 =>
      split at ok
      case isTrue => exact Except.ok.inj ok ▸ short.le
      case isFalse => cases ok
    case h_2 =>
      split at ok
      case isTrue => cases ok
      case isFalse =>
        split at ok
        case h_1 =>
          cases ok
          rw [length_append]
          exact short
        case h_2 =>
          split at ok
          case isTrue => cases ok
          case isFalse more => exact ih (not_le.mp more) ok

theorem ownerChain_length (ok : ownerChain schema table owners = .ok chain) :
    chain.length ≤ MAX_OWNER_CHAIN :=
  @ownerChainFrom_length owners schema table _ [] _ _ (by decide) ok

theorem Climbs.suffix (climbs : Climbs owners entity chain) {name : Text} (inside : name ∈ chain.map (·.1)) :
    ∃ rest, Climbs owners name rest ∧ rest <:+ chain := by
  induction climbs with
  | root owns =>
    rw [map_singleton, mem_singleton] at inside
    exact ⟨_, inside ▸ .root owns, suffix_refl _⟩
  | link defers above ih =>
    rw [map_cons, mem_cons] at inside
    rcases inside with rfl | inside
    · exact ⟨_, .link defers above, suffix_refl _⟩
    · obtain ⟨rest, climbs, within⟩ := ih inside
      exact ⟨rest, climbs, within.trans (suffix_cons _ _)⟩

theorem Climbs.distinct (climbs : Climbs owners entity chain) : (chain.map (·.1)).Nodup := by
  induction climbs with
  | root => exact nodup_singleton _
  | @link entity column parent rest defers above ih =>
    rw [map_cons, nodup_cons]
    refine ⟨?_, ih⟩
    intro again
    obtain ⟨higher, climbs, within⟩ := above.suffix again
    have same := climbs.unique (.link defers above)
    have longer := within.length_le
    rw [same, length_cons] at longer
    omega

theorem any_name_eq_false {name : Text} (fresh : name ∉ chain.map (·.1)) :
    chain.any (·.1 = name) = false := by
  rw [any_eq_false]
  intro entry mem same
  exact fresh (of_decide_eq_true same ▸ mem_map_of_mem mem)

theorem ownerChainFrom_of_climbs {steps : Nat} {below : List (Text × Text)} {current : Text}
    (climbs : Climbs owners current chain) (fresh : ∀ name ∈ chain.map (·.1), name ∉ below.map (·.1))
    (enough : chain.length ≤ steps) (short : below.length + chain.length ≤ MAX_OWNER_CHAIN) :
    ownerChainFrom schema table owners steps below current = .ok (below ++ chain) := by
  induction climbs generalizing steps below with
  | @root entity column owns =>
    cases steps with
    | zero => simp at enough
    | succ steps =>
      have unseen := any_name_eq_false (fresh entity (by simp))
      simp [ownerChainFrom, owns, unseen]
  | @link entity column parent rest defers above ih =>
    cases steps with
    | zero => simp at enough
    | succ steps =>
      have unseen := any_name_eq_false (fresh entity (by simp))
      obtain ⟨parentColumn, others, rfl⟩ := above.head
      rw [length_cons] at enough short
      have more : ¬ (below ++ [(entity, column)]).length ≥ MAX_OWNER_CHAIN := by
        simp only [length_append, length_cons, length_nil] at short ⊢
        omega
      have further : ∀ name ∈ ((parent, parentColumn) :: others).map (·.1),
          name ∉ (below ++ [(entity, column)]).map (·.1) := by
        intro name inside
        rw [map_append, mem_append, not_or]
        refine ⟨fresh name (mem_cons_of_mem _ inside), ?_⟩
        have distinct := (Climbs.link defers above).distinct
        rw [map_cons, nodup_cons] at distinct
        intro here
        obtain rfl : name = entity := mem_singleton.mp here
        exact distinct.1 inside
      have room : (below ++ [(entity, column)]).length + ((parent, parentColumn) :: others).length ≤
          MAX_OWNER_CHAIN := by
        rw [length_append, length_singleton]
        omega
      have climbed : ownerChainFrom schema table owners steps (below ++ [(entity, column)]) parent =
          .ok (below ++ [(entity, column)] ++ (parent, parentColumn) :: others) :=
        ih further (by omega) room
      rw [ownerChainFrom, defers]
      simp only [unseen, Bool.false_eq_true, if_false, if_neg more, climbed]
      simp

theorem ownerChain_iff {column : Text} {parent : Option Text} (owned : owners table = some (column, parent)) :
    ownerChain schema table owners = .ok chain ↔ Climbs owners table chain ∧ chain.length ≤ MAX_OWNER_CHAIN := by
  constructor
  · intro ok
    obtain ⟨undeclared, -⟩ | climbs := ownerChain_ok ok
    · rw [owned] at undeclared
      cases undeclared
    · exact ⟨climbs, ownerChain_length ok⟩
  · rintro ⟨climbs, short⟩
    exact ownerChainFrom_of_climbs climbs (by simp) short (by simpa using short)

theorem Climbs.above (climbs : Climbs owners entity chain) {parent : Text}
    (inside : parent ∈ chain.tail.map (·.1)) :
    ∃ rest, Climbs owners parent rest ∧ rest.length ≤ chain.length ∧
      ∀ higher ∈ rest.tail.map (·.1), higher ∈ chain.tail.map (·.1) := by
  induction climbs with
  | root => exact absurd inside not_mem_nil
  | @link entity column next rest defers higher ih =>
    obtain ⟨nextColumn, others, rfl⟩ := higher.head
    rw [tail_cons, map_cons, mem_cons] at inside
    rcases inside with rfl | inside
    · exact ⟨_, higher, by simp, fun name mem => mem_cons_of_mem _ mem⟩
    · obtain ⟨rest, climbs, shorter, kept⟩ := ih inside
      exact ⟨rest, climbs, shorter.trans (by simp), fun name mem => mem_cons_of_mem _ (kept name mem)⟩

theorem Climbs.parents (climbs : Climbs owners entity chain) :
    ∀ parent ∈ chain.tail.map (·.1), ∃ child column, owners child = some (column, some parent) := by
  induction climbs with
  | root => simp
  | @link entity column next rest defers higher ih =>
    obtain ⟨nextColumn, others, rfl⟩ := higher.head
    rw [tail_cons, map_cons, forall_mem_cons]
    exact ⟨⟨entity, column, defers⟩, ih⟩

/-! ## The facts of a chain -/

variable {catalog : Catalog}

theorem linkFacts_ok {entity parent : Text × Text} {link : LinkFacts}
    (ok : linkFacts catalog schema entity parent = .ok link) :
    ∃ pk pkType, catalog.primaryKey parent.1 = some pk ∧ catalog.columnType parent.1 pk = some pkType ∧
      link = ⟨parent.1, entity.2, ownerResolverName schema parent.1, pk, pkType⟩ := by
  unfold linkFacts at ok
  split at ok
  case h_1 pk _ key _ =>
    split at ok
    case h_1 => cases ok
    case h_2 pkType typed =>
      split at ok
      case isTrue => cases ok
      case isFalse => exact ⟨pk, pkType, key, typed, (Except.ok.inj ok).symm⟩
  case h_2 => cases ok

theorem chainLinks_cons {entity parent : Text × Text} {rest : List (Text × Text)} {links : List LinkFacts}
    (ok : chainLinks catalog schema (entity :: parent :: rest) = .ok links) :
    ∃ above link, chainLinks catalog schema (parent :: rest) = .ok above ∧
      linkFacts catalog schema entity parent = .ok link ∧ links = above ++ [link] := by
  rw [chainLinks] at ok
  obtain ⟨above, ups, ok⟩ := bind_eq_ok.mp ok
  obtain ⟨link, here, ok⟩ := bind_eq_ok.mp ok
  exact ⟨above, link, ups, here, (Except.ok.inj ok).symm⟩

theorem chainLinks_resolvers {chain : List (Text × Text)} {links : List LinkFacts}
    (ok : chainLinks catalog schema chain = .ok links) :
    links.map (·.resolver) = (chain.tail.map fun entry => ownerResolverName schema entry.1).reverse := by
  induction chain generalizing links with
  | nil => rw [← Except.ok.inj ok]; rfl
  | cons entity rest ih =>
    cases rest with
    | nil => rw [← Except.ok.inj ok]; rfl
    | cons parent rest =>
      obtain ⟨above, link, ups, here, rfl⟩ := chainLinks_cons ok
      obtain ⟨pk, pkType, -, -, rfl⟩ := linkFacts_ok here
      rw [map_append, ih ups]
      simp

theorem ownerResolverName_injective (schema : Text) : Function.Injective (ownerResolverName schema) :=
  fun _ _ same => append_cancel_left same

theorem ownerFacts_some {facts : OwnerFacts} (ok : ownerFacts catalog schema table owners = .ok (some facts)) :
    ∃ chain root, ownerChain schema table owners = .ok chain ∧ Climbs owners table chain ∧ chain.getLast? = some root ∧
      rootFacts catalog schema root = .ok facts.rootType ∧ chainLinks catalog schema chain = .ok facts.links ∧
      facts.rootColumn = root.2 := by
  unfold ownerFacts at ok
  obtain ⟨chain, walked, ok⟩ := bind_eq_ok.mp ok
  cases last : chain.getLast? with
  | none => rw [last] at ok; cases ok
  | some root =>
    rw [last] at ok
    obtain ⟨rootType, typed, ok⟩ := bind_eq_ok.mp ok
    obtain ⟨links, linked, ok⟩ := bind_eq_ok.mp ok
    cases Except.ok.inj ok
    obtain ⟨-, rfl⟩ | climbs := ownerChain_ok walked
    · cases last
    · exact ⟨chain, root, walked, climbs, last, typed, linked, rfl⟩

theorem ownerFacts_none (ok : ownerFacts catalog schema table owners = .ok none) : owners table = none := by
  unfold ownerFacts at ok
  obtain ⟨chain, walked, ok⟩ := bind_eq_ok.mp ok
  obtain ⟨undeclared, -⟩ | climbs := ownerChain_ok walked
  · exact undeclared
  · obtain ⟨column, above, rfl⟩ := climbs.head
    rw [getLast?_cons] at ok
    obtain ⟨_, -, ok⟩ := bind_eq_ok.mp ok
    obtain ⟨_, -, ok⟩ := bind_eq_ok.mp ok
    cases ok

theorem ownerFacts_resolvers {facts : OwnerFacts} (ok : ownerFacts catalog schema table owners = .ok (some facts)) :
    (facts.links.map (·.resolver)).Nodup := by
  obtain ⟨chain, root, walked, -, -, -, linked, -⟩ := ownerFacts_some ok
  rw [chainLinks_resolvers linked, nodup_reverse, show (fun entry : Text × Text => ownerResolverName schema entry.1) =
    ownerResolverName schema ∘ (·.1) from rfl, ← map_map]
  apply List.Nodup.map (ownerResolverName_injective schema)
  rw [map_tail]
  exact (ownerChain_distinct walked).tail

end RootCx.RowAccess
