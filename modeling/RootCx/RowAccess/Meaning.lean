import RootCx.RowAccess.Apply

/-! # What is mine

The meaning of the conditions of policies, through the resolvers they name.  A
row is its caller's when its links lead, key by key, to a row whose owning column
holds the caller's id.
-/

namespace RootCx.RowAccess

open RootCx.Text RootCx.Postgres RootCx.Runs List

/-! ## Evaluation -/

abbrev Row (Value : Type) := Text → Option Value

/-- What a condition is evaluated against: the settings of the session, the
    answers of the gates, the rows of the tables of the schema and the functions
    of the database. -/
structure World (Value : Type) where
  setting : Setting → Option Text
  gate : Gate → Text → Bool
  cast : Text → Text → Value
  tables : Text → List (Row Value)
  resolvers : Text → Option Resolver
  sharedKeys : Text → List (Option Value)
  other : Text → Row Value → Truth

section Evaluation

variable {Value : Type} [DecidableEq Value] (world : World Value)

/-- `nullif(text, '')`. -/
def nullif (text : Option Text) : Option Text := text.filter (· ≠ [])

/-- The caller's id. -/
def World.user : Option Text := nullif (world.setting .userId)

/-- `value = ANY (keys)`. -/
def among (value : Option Value) (keys : List (Option Value)) : Truth :=
  Truth.any (keys.map (Truth.compare (fun l r => decide (l = r)) value))

def Predicate.holds (answers : Text → List (Option Value)) (row : Row Value) : Predicate → Truth
  | .gate function key => some (world.gate function key)
  | .owned column pgType =>
    Truth.compare (fun l r => decide (l = r)) (row column) (world.user.map (world.cast pgType))
  | .resolved column resolver => among (row column) (answers resolver)
  | .shared column resolver => among (row column) (world.sharedKeys resolver)
  | .noPublication => some ((world.setting .publicationId).getD [] = [])
  | .released => (world.setting .publicationReleaseOwnership).map (· = "1".toList)
  | .never => some false
  | .other text => world.other text row
  | .and left right => Truth.and (left.holds answers row) (right.holds answers row)
  | .or left right => Truth.or (left.holds answers row) (right.holds answers row)
  | .paren inner => inner.holds answers row

variable (schema : Text)

/-- The guard of the resolver of `parent`: a session of the app itself or a direct
    human request, and under an approved action one that may read the parent. -/
def crosses (parent : Text) : Bool :=
  (world.setting .humanDataRequest = some "1".toList ||
    (nullif (world.setting .appId)).getD schema = schema) &&
  ((world.setting .approvedActionId).getD [] = [] ||
    world.gate .approvedAction (entityKey schema parent "read"))

/-- The keys a resolver returns, when functions call one another up to `depth`. -/
def answers : Nat → Text → List (Option Value)
  | 0, _ => []
  | depth + 1, name =>
    match world.resolvers name with
    | none => []
    | some resolver =>
      ((world.tables resolver.parent).filter fun row =>
        crosses world schema resolver.parent && resolver.mine.holds world (answers depth) row = some true).map
          (· resolver.pk)

end Evaluation

section Among

variable {Value : Type} [DecidableEq Value]

theorem among_eq_true {value : Option Value} {keys : List (Option Value)} :
    among value keys = some true ↔ ∃ key, value = some key ∧ some key ∈ keys := by
  rw [among, Truth.any_eq_true, mem_map]
  constructor
  · rintro ⟨candidate, inside, equal⟩
    obtain ⟨left, right, rfl, rfl, same⟩ := Truth.compare_eq_true.mp equal
    obtain rfl := of_decide_eq_true same
    exact ⟨left, rfl, inside⟩
  · rintro ⟨key, rfl, inside⟩
    exact ⟨some key, inside, by simp [Truth.compare]⟩

end Among

/-! ## Ownership of the data alone -/

section Reaches

variable {Value : Type} (catalog : Catalog) (owners : OwnerMap) (world : World Value)

/-- The links of a row lead to a row that holds the caller's id. -/
inductive Reaches : Text → Row Value → Prop where
  | root {entity column pgType user : Text} {row : Row Value} (owns : owners entity = some (column, none))
      (typed : catalog.columnType entity column = some pgType) (caller : world.user = some user)
      (held : row column = some (world.cast pgType user)) : Reaches entity row
  | link {entity column parent pk : Text} {row above : Row Value} {key : Value}
      (defers : owners entity = some (column, some parent)) (keyed : catalog.primaryKey parent = some pk)
      (points : row column = some key) (member : above ∈ world.tables parent) (found : above pk = some key)
      (reached : Reaches parent above) : Reaches entity row

end Reaches

variable {parent : Text}

/-! ## The predicate of a chain -/

section Chains

variable {catalog : Catalog} {schema : Text} {owners : OwnerMap}

/-- `mine` is the predicate of `entity`. -/
def Describes (catalog : Catalog) (schema : Text) (owners : OwnerMap) (entity : Text) (mine : Predicate) : Prop :=
  ∃ chain root rootType links, Climbs owners entity chain ∧ chain.getLast? = some root ∧
    rootFacts catalog schema root = .ok rootType ∧ chainLinks catalog schema chain = .ok links ∧
    mine = (ownershipLinks (.owned root.2 rootType) links).2

theorem ownershipLinks_append (mine : Predicate) (above : List LinkFacts) (link : LinkFacts) :
    (ownershipLinks mine (above ++ [link])).2 = .resolved link.link link.resolver := by
  induction above generalizing mine with
  | nil => rfl
  | cons first above ih => exact ih _

theorem resolverChanges_append (mine : Predicate) (above : List LinkFacts) (link : LinkFacts) :
    resolverChanges mine (above ++ [link]) = resolverChanges mine above ++
      [(link.resolver, fun before => some (settledResolver link (ownershipLinks mine above).2 before))] := by
  induction above generalizing mine with
  | nil => rfl
  | cons first above ih =>
    rw [cons_append, resolverChanges, ih, resolverChanges, cons_append]
    rfl

theorem rootFacts_ok {root : Text × Text} {rootType : Text} (ok : rootFacts catalog schema root = .ok rootType) :
    catalog.columnType root.1 root.2 = some rootType := by
  unfold rootFacts at ok
  split at ok
  case h_1 => cases ok
  case h_2 typed =>
    split at ok
    case isTrue => exact Except.ok.inj ok ▸ typed
    case isFalse => cases ok

/-- The predicate of an entity that owns its rows compares its column with the
    caller, and the one of an entity that defers asks the resolver above. -/
theorem Describes.cases {entity : Text} {mine : Predicate} (describes : Describes catalog schema owners entity mine) :
    (∃ column pgType, owners entity = some (column, none) ∧ catalog.columnType entity column = some pgType ∧
      mine = .owned column pgType) ∨
    ∃ column parent above, owners entity = some (column, some parent) ∧ Describes catalog schema owners parent above ∧
      mine = .resolved column (ownerResolverName schema parent) := by
  obtain ⟨chain, root, rootType, links, climbs, last, typed, linked, rfl⟩ := describes
  cases climbs with
  | root owns =>
    cases last
    cases linked
    exact .inl ⟨_, rootType, owns, rootFacts_ok typed, rfl⟩
  | @link _ column parent rest defers above =>
    obtain ⟨parentColumn, others, rfl⟩ := above.head
    obtain ⟨ups, link, linkedAbove, here, rfl⟩ := chainLinks_cons linked
    obtain ⟨pk, pkType, -, -, rfl⟩ := linkFacts_ok here
    rw [getLast?_cons_cons] at last
    exact .inr ⟨column, parent, _, defers, ⟨_, root, rootType, ups, above, last, typed, linkedAbove, rfl⟩,
      ownershipLinks_append _ _ _⟩

/-- The resolver of `parent` is there and asks the predicate of `parent`. -/
def Resolved (catalog : Catalog) (schema : Text) (owners : OwnerMap) (resolvers : Text → Option Resolver) (parent : Text) :
    Prop :=
  ∃ resolver, resolvers (ownerResolverName schema parent) = some resolver ∧ resolver.parent = parent ∧
    catalog.primaryKey parent = some resolver.pk ∧ Describes catalog schema owners parent resolver.mine

/-- Every link of a chain is crossed through the predicate of the entity above. -/
theorem mem_changes_of_parent {entity : Text} {chain : List (Text × Text)} (climbs : Climbs owners entity chain)
    {root : Text × Text} {rootType : Text} (last : chain.getLast? = some root)
    (typed : rootFacts catalog schema root = .ok rootType) {links : List LinkFacts}
    (linked : chainLinks catalog schema chain = .ok links) {parent : Text} (above : parent ∈ chain.tail.map (·.1)) :
    ∃ link mine, (link.resolver, fun before => some (settledResolver link mine before)) ∈
        resolverChanges (.owned root.2 rootType) links ∧
      link.resolver = ownerResolverName schema parent ∧ link.parent = parent ∧
      catalog.primaryKey parent = some link.pk ∧ Describes catalog schema owners parent mine := by
  induction climbs generalizing links with
  | root => exact absurd above not_mem_nil
  | @link entity column next rest defers higher ih =>
    obtain ⟨nextColumn, others, rfl⟩ := higher.head
    obtain ⟨ups, link, linkedAbove, here, rfl⟩ := chainLinks_cons linked
    obtain ⟨pk, pkType, keyed, -, rfl⟩ := linkFacts_ok here
    rw [getLast?_cons_cons] at last
    rw [resolverChanges_append]
    rw [tail_cons, map_cons, mem_cons] at above
    rcases above with rfl | above
    · exact ⟨_, _, mem_append_right _ mem_cons_self, rfl, rfl, keyed,
        ⟨_, root, rootType, ups, higher, last, typed, linkedAbove, rfl⟩⟩
    · obtain ⟨link, mine, mem, found⟩ := ih last linkedAbove above
      exact ⟨link, mine, mem_append_left _ mem, found⟩

theorem resolved_of_above {table : Text} {facts : OwnerFacts}
    (read : ownerFacts catalog schema table owners = .ok (some facts)) (before : Text → Option Resolver)
    {chain : List (Text × Text)} (walked : ownerChain schema table owners = .ok chain)
    (above : parent ∈ chain.tail.map (·.1)) :
    Resolved catalog schema owners (change before (ownerChanges (some facts))) parent := by
  obtain ⟨chain', root, walked', climbs, last, typed, linked, column⟩ := ownerFacts_some read
  cases walked.symm.trans walked'
  obtain ⟨link, mine, mem, name, rfl, keyed, describes⟩ := mem_changes_of_parent climbs last typed linked above
  rw [← column] at mem
  have made := change_of_mem (by rw [resolverChanges_names]; exact ownerFacts_resolvers read) mem before
  exact ⟨_, name ▸ made, rfl, keyed, describes⟩

theorem Resolved.change {resolvers : Text → Option Resolver} {table : Text} {owner : Option OwnerFacts}
    (resolved : Resolved catalog schema owners resolvers parent)
    (read : ownerFacts catalog schema table owners = .ok owner) :
    Resolved catalog schema owners (RootCx.change resolvers (ownerChanges owner)) parent := by
  cases owner with
  | none => exact resolved
  | some facts =>
    obtain ⟨chain, root, walked, -, -, -, linked, -⟩ := ownerFacts_some read
    by_cases above : parent ∈ chain.tail.map (·.1)
    · exact resolved_of_above read resolvers walked above
    · obtain ⟨resolver, found, rest⟩ := resolved
      refine ⟨resolver, (change_of_notMem ?_ resolvers).trans found, rest⟩
      rw [ownerChanges, Option.map_some, Option.getD_some, resolverChanges_names, chainLinks_resolvers linked,
        mem_reverse]
      intro inside
      obtain ⟨entry, mem, same⟩ := mem_map.mp inside
      exact above (mem_map.mpr ⟨entry, mem, ownerResolverName_injective schema same⟩)

end Chains

/-! ## The predicate means the data -/

section Means

variable {Value : Type} [DecidableEq Value] {catalog : Catalog} {schema : Text} {owners : OwnerMap}
  {world : World Value}

theorem mem_answers {depth : Nat} {resolver : Resolver}
    (found : world.resolvers (ownerResolverName schema parent) = some resolver)
    (named : resolver.parent = parent) {key : Option Value} :
    key ∈ answers world schema (depth + 1) (ownerResolverName schema parent) ↔
      crosses world schema parent = true ∧ ∃ row ∈ world.tables parent, row resolver.pk = key ∧
        resolver.mine.holds world (answers world schema depth) row = some true := by
  obtain rfl := named
  rw [answers, found]
  constructor
  · intro inside
    obtain ⟨row, kept, rfl⟩ := mem_map.mp inside
    obtain ⟨mem, passed⟩ := mem_filter.mp kept
    obtain ⟨crossed, holds⟩ := Bool.and_eq_true_iff.mp passed
    exact ⟨crossed, row, mem, rfl, of_decide_eq_true holds⟩
  · rintro ⟨crossed, row, mem, rfl, holds⟩
    refine mem_map.mpr ⟨row, mem_filter.mpr ⟨mem, ?_⟩, rfl⟩
    rw [crossed, Bool.true_and]
    exact decide_eq_true holds

theorem holds_iff_reaches {entity : Text} {chain : List (Text × Text)} (climbs : Climbs owners entity chain)
    {mine : Predicate} (describes : Describes catalog schema owners entity mine)
    (resolved : ∀ parent ∈ chain.tail.map (·.1), Resolved catalog schema owners world.resolvers parent)
    {depth : Nat} (deep : chain.length ≤ depth + 1) (row : Row Value) :
    mine.holds world (answers world schema depth) row = some true ↔
      Reaches catalog owners world entity row ∧ ∀ parent ∈ chain.tail.map (·.1), crosses world schema parent = true := by
  induction climbs generalizing mine depth row with
  | @root entity column owns =>
    obtain ⟨column', pgType, owns', typed, rfl⟩ | ⟨_, _, _, defers, -, -⟩ := describes.cases
    · obtain rfl : column = column' := by simpa using owns.symm.trans owns'
      rw [Predicate.holds, Truth.compare_eq_true]
      constructor
      · rintro ⟨held, asked, holds, caller, same⟩
        obtain ⟨user, known, rfl⟩ := Option.map_eq_some_iff.mp caller
        obtain rfl := of_decide_eq_true same
        exact ⟨.root owns typed known holds, by simp⟩
      · rintro ⟨reached, -⟩
        cases reached with
        | root owns'' typed' caller held =>
          obtain rfl : column = _ := by simpa using owns.symm.trans owns''
          cases typed.symm.trans typed'
          exact ⟨_, _, held, by rw [caller]; rfl, decide_eq_true rfl⟩
        | link defers => exact absurd (owns.symm.trans defers) (by simp)
    · exact absurd (owns.symm.trans defers) (by simp)
  | @link entity column next rest defers higher ih =>
    obtain ⟨_, _, owns, -, -⟩ | ⟨column', next', above, defers', aboveDescribes, rfl⟩ := describes.cases
    · exact absurd (defers.symm.trans owns) (by simp)
    obtain ⟨rfl, rfl⟩ : column = column' ∧ next = next' := by simpa using defers.symm.trans defers'
    obtain ⟨nextColumn, others, rfl⟩ := higher.head
    obtain ⟨resolver, found, named, keyed, resolverDescribes⟩ := resolved next (by simp)
    obtain ⟨depth, rfl⟩ : ∃ less, depth = less + 1 := ⟨depth - 1, by simp only [length_cons] at deep; omega⟩
    -- a row above is mine when it reaches its root and the links above are crossed
    have step (up : Row Value) := ih resolverDescribes
      (fun parent inside => resolved parent (mem_cons_of_mem _ inside))
      (show _ ≤ depth + 1 by simp only [length_cons] at deep ⊢; omega) up
    rw [Predicate.holds, among_eq_true]
    simp only [tail_cons, map_cons, forall_mem_cons]
    constructor
    · rintro ⟨key, points, inside⟩
      obtain ⟨crossed, up, mem, keyIs, holds⟩ := (mem_answers found named).mp inside
      obtain ⟨reached, crossings⟩ := (step up).mp holds
      exact ⟨.link defers keyed points mem keyIs reached, crossed, crossings⟩
    · rintro ⟨reached, crossed, crossings⟩
      cases reached with
      | root owns => exact absurd (defers.symm.trans owns) (by simp)
      | @link _ _ _ pk _ up key defers'' keyed' points mem keyIs reached =>
        obtain ⟨rfl, rfl⟩ : column = _ ∧ next = _ := by simpa using defers.symm.trans defers''
        cases keyed.symm.trans keyed'
        exact ⟨key, points, (mem_answers found named).mpr ⟨crossed, up, mem, keyIs, (step up).mpr ⟨reached, crossings⟩⟩⟩

end Means

end RootCx.RowAccess
