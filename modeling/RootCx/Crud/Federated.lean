import RootCx.Crud.Totals
import RootCx.CrossApp.Mutations

/-! # The federated reader

`federated_query` reads a union over every entity that shares an identity kind.  The members of
the union number their placeholders over the whole statement, so a filter is compiled once for
each entity and says the same each time.
-/

namespace RootCx.Crud

open RootCx.Text RootCx.Postgres RootCx.RowAccess RootCx.Paging List

/-! ## The statement -/

structure Target where
  app : Text
  entity : Text
  types : FieldMap

/-- A member of the union; its source is bound by the two placeholders after those of its filter. -/
structure Branch where
  row : Text
  app : Text
  entity : Text
  conditions : List Text
  appBind : Nat
  entBind : Nat
  deriving DecidableEq, Repr

def Branch.sql (branch : Branch) : Text :=
  let placeholder (bind : Nat) := "$" ++ (toString bind).toList ++ "::text"
  "SELECT " ++ branch.row ++ " || jsonb_build_object('_source', jsonb_build_object('app', " ++
    placeholder branch.appBind ++ ", 'entity', " ++ placeholder branch.entBind ++ ")) AS row FROM " ++
    CrossApp.Mutations.table branch.app branch.entity ++ " t" ++ joinWhere branch.conditions

structure FederatedStatement where
  unions : List Branch
  sortField : Text
  order : Text
  limit : Int
  offset : Int
  binds : List Text
  deriving DecidableEq, Repr

def FederatedStatement.sql (s : FederatedStatement) : Text :=
  "SELECT row, COUNT(*) OVER() AS total FROM (" ++ join " UNION ALL " (s.unions.map Branch.sql) ++
    ") sub ORDER BY row->>'" ++ s.sortField ++ "' " ++ s.order ++ ", row->>'id' ASC LIMIT " ++
    (toString s.limit).toList ++ " OFFSET " ++ (toString s.offset).toList

/-- The loop over the targets. -/
def federatedUnions (whereClause : Option Json) : List Target → Nat → Except Text (List Branch × List Text)
  | [], _ => pure ([], [])
  | target :: targets, bindOffset => do
    let (conditions, st) ← queryConditions target.types whereClause ⟨[], bindOffset⟩
    let branch : Branch := ⟨rowJson "t" target.types, target.app, target.entity, conditions, st.idx + 1, st.idx + 2⟩
    let (unions, allBinds) ← federatedUnions whereClause targets (st.idx + 2)
    pure (branch :: unions, st.binds ++ target.app :: target.entity :: allBinds)

/-- Without a target there is nothing to ask the database. -/
def federatedQuery (targets : List Target) (body : QueryRequest) : Except Text (Option FederatedStatement) := do
  let (unions, allBinds) ← federatedUnions body.whereClause targets 0
  if unions.isEmpty then pure none
  else
    let sortField := body.orderBy.getD "created_at"
    if ¬sortField.all (fun c => c.isLower || c.isDigit || c = '_') then
      .error ("invalid sort field: '" ++ sortField ++ "'")
    else
      pure (some {
        unions
        sortField
        order := validateOrder body.order
        limit := max (min body.limit 1000) 1
        offset := max body.offset 0
        binds := allBinds })

/-! ## Its answer -/

section Answers

variable (server : Server)

def boundValue (binds : List Text) (index : Nat) : Option Text :=
  if index = 0 then none else binds[index - 1]?

/-- The rows of a member, or nothing where it is refused. -/
def Branch.kept (branch : Branch) (access : Access) (st : State server.Value) (value : Nat → Option Text) :
    Option (List (Row server.Value)) :=
  match readWhere branch.conditions, columnsRead branch.row with
  | some choices, some projected =>
    if (choices.flatMap conjColumns ++ projected).all fun column => column ∈ access.columns && executorReads access column then
      some (st.visible.filter fun row => choicesEval (choices.map (·.map (Atom.eval server row value))) = some true)
    else none
  | _, _ => none

/-- A row with the application and the entity that it says it is from. -/
structure Sourced (Value : Type) where
  app : Option Text
  entity : Option Text
  row : Row Value

def unionRows (value : Nat → Option Text) : List Branch → List (Access × State server.Value) → Option (List (Sourced server.Value))
  | [], [] => some []
  | branch :: branches, (access, st) :: tables => do
    let kept ← branch.kept server access st value
    let others ← unionRows value branches tables
    pure (kept.map (⟨value branch.appBind, value branch.entBind, ·⟩) ++ others)
  | _, _ => none

variable (rank : Text → Text → Ranking (Sourced server.Value))

/-- What the database may answer, with the ranking that the sort field and the order stand for. -/
inductive FederatedReads (tables : List (Access × State server.Value)) :
    Option FederatedStatement → List (Sourced server.Value) → Nat → Prop where
  | empty : FederatedReads tables none [] 0
  | asked {s : FederatedStatement} {rows ordered data : List (Sourced server.Value)}
      (found : unionRows server (boundValue s.binds) s.unions tables = some rows)
      (arranged : (rank s.sortField s.order).Arranges rows ordered)
      (shown : data.Perm (slice s.offset.toNat s.limit.toNat ordered)) :
      FederatedReads tables (some s) data (if data.isEmpty then 0 else rows.length)

end Answers

variable {binds front rest : List Text}

/-! ## A filter with its placeholders anywhere -/

section Filters

variable {types : FieldMap} {filter : Option Json} {conditions : List Text} {st : Binds}

/-- What a filter says, where there may be none. -/
def filterFacts (types : FieldMap) : Option Json → Facts
  | none => Facts.all []
  | some clause => boundFacts types.get clause

def filterColumns (types : FieldMap) (filter : Option Json) : List Text :=
  filter.elim [] fun clause => (clauseFacts types.get clause).columns

theorem supplies_boundValue (mine : List (Option Text))
    (split : binds = front ++ mine.map (·.getD []) ++ rest) :
    Supplies (boundValue binds) front.length (mine.map fun operand => some (operand.getD [])) := by
  intro i operand found
  obtain ⟨bound, inside, rfl⟩ : ∃ bound, mine[i]? = some bound ∧ some (bound.getD []) = operand := by
    simpa using found
  have place : front.length + 1 + i - 1 = front.length + i := by omega
  have size : i < (mine.map (·.getD [])).length := by
    simpa using (List.getElem?_eq_some_iff.mp inside).1
  rw [boundValue, if_neg (by omega), place, split, append_assoc, getElem?_append_right (by omega),
    Nat.add_sub_cancel_left, getElem?_append_left size, getElem?_map, inside]
  rfl

theorem readCondition_true : readCondition "TRUE" = some [[.const true]] := by rfl

/-- The conditions of a query mean what its filter says, wherever the placeholders start. -/
theorem queryConditions_reads {start : Nat} (built : queryConditions types filter ⟨[], start⟩ = .ok (conditions, st))
    (named : ∀ name ∈ filterColumns types filter, Named name) :
    st = (⟨[], start⟩ : Binds).after (filterFacts types filter).operands ∧
      ∃ atoms, readWhere conditions = (if (filterFacts types filter).present then some [atoms] else none) ∧
        conjColumns atoms = filterColumns types filter ∧
        ∀ {front rest binds : List Text} (server : Server) (row : Row server.Value), front.length = start →
          binds = front ++ st.binds ++ rest →
            choicesEval [atoms.map (Atom.eval server row (boundValue binds))] = (filterFacts types filter).holds server row := by
  cases filter with
  | none =>
    obtain ⟨rfl, rfl⟩ := Prod.mk.inj (Except.ok.inj built)
    exact ⟨rfl, [], rfl, rfl, fun _ _ _ _ => rfl⟩
  | some clause =>
    obtain ⟨text, next, compiled, done⟩ := stateT_bind_ok.mp built
    obtain ⟨same, rfl⟩ := stateT_pure_ok.mp done
    obtain ⟨bound, atoms, read, columns, holds⟩ := buildWhereClause_reads compiled named
    have means {front rest binds : List Text} (server : Server) (row : Row server.Value) (place : front.length = start)
        (split : binds = front ++ next.binds ++ rest) :
        choicesEval [atoms.map (Atom.eval server row (boundValue binds))] = (boundFacts types.get clause).holds server row := by
      apply holds
      rw [← place]
      apply supplies_boundValue
      rw [split, bound]
      rfl
    refine ⟨bound, ?_⟩
    by_cases trivial : text = "TRUE"
    · -- Of the filter that always holds no condition is left.
      rw [if_pos trivial] at same
      rw [trivial, readCondition_true] at read
      obtain ⟨present, one⟩ := Option.ite_none_right_eq_some.mp read.symm
      obtain rfl := (cons.inj (Option.some.inj one)).1
      refine ⟨[], ?_, columns, means⟩
      rw [← same, filterFacts, if_pos present]
      rfl
    · rw [if_neg trivial] at same
      refine ⟨atoms, ?_, columns, means⟩
      have single : join " AND " [text] = text := by simp [join]
      rw [← same, filterFacts, ← read, readWhere, single]
      rfl

end Filters

/-! ## Every member of the union reads the rows of its entity -/

section Members

variable {server : Server} {debug : Text → Text} {body : Json} {request : QueryRequest} (served : Served server debug body)

def Served.target : Target := ⟨served.app, served.entity, served.types⟩

def Served.table : Access × State server.Value := (served.access, served.stored.toState)

/-- The matching rows of an entity, under its own name. -/
def Served.sourced : List (Sourced server.Value) := served.scope.kept.map (⟨some served.app, some served.entity, ·⟩)

def Served.facts (request : QueryRequest) : Facts := filterFacts served.types request.whereClause

variable {served}

theorem read_whereClause (read : QueryRequest.read body = some request) :
    request.whereClause = (body.get "where").bind fun value => if value.isNull then none else some value := by
  unfold QueryRequest.read at read
  obtain ⟨orderBy, -, read⟩ := Option.bind_eq_some_iff.mp read
  obtain ⟨order, -, read⟩ := Option.bind_eq_some_iff.mp read
  obtain ⟨limit, -, read⟩ := Option.bind_eq_some_iff.mp read
  obtain ⟨offset, -, read⟩ := Option.bind_eq_some_iff.mp read
  cases read
  rfl

theorem Served.named_columns (read : QueryRequest.read body = some request) :
    ∀ name ∈ filterColumns served.types request.whereClause, Named name := by
  rw [read_whereClause read]
  intro name mem
  cases found : body.get "where" with
  | none =>
    rw [found] at mem
    cases mem
  | some value =>
    rw [found] at mem
    apply served.named name
    rw [found]
    by_cases null : value.isNull = true
    · rw [Option.bind_some, if_pos null] at mem
      cases mem
    · rwa [Option.bind_some, if_neg null] at mem

theorem Served.built (read : QueryRequest.read body = some request) :
    ∃ st, queryConditions served.types request.whereClause ⟨[], 0⟩ = .ok (served.statement.conditions, st) ∧
      st.binds = served.statement.binds ∧ served.statement.row = rowJson "t" served.types := by
  obtain ⟨-, request', query, read', asked, stated⟩ := statements_of_page served.accepted
  cases read.symm.trans read'
  unfold queryRecords at asked
  obtain ⟨⟨conditions, st⟩, built, done⟩ := bind_eq_ok.mp asked
  obtain rfl := pure_eq_ok.mp done
  obtain rfl : conditions = served.statement.conditions := congrArg PageStatement.conditions stated
  exact ⟨st, built, congrArg PageStatement.binds stated, (congrArg PageStatement.row stated).symm⟩

/-- What a page of an entity says of its filter. -/
structure Served.Filtered (served : Served server debug body) (request : QueryRequest) : Prop where
  present : (served.facts request).present = true
  readable : ∃ projected, columnsRead (rowJson "t" served.types) = some projected ∧
    ∀ column ∈ filterColumns served.types request.whereClause ++ projected,
      (column ∈ served.access.columns && executorReads served.access column) = true
  kept : served.scope.kept = served.stored.visible.filter fun row => (served.facts request).holds server row = some true

theorem Served.filtered (read : QueryRequest.read body = some request) : served.Filtered request := by
  obtain ⟨st, built, binds, row⟩ := served.built read
  obtain ⟨choices, sort, projected, conditions, -, rows, readable, same⟩ := scope_some.mp served.found
  obtain ⟨-, atoms, reads, columns, holds⟩ := queryConditions_reads built (served.named_columns read)
  obtain ⟨present, one⟩ := Option.ite_none_right_eq_some.mp (reads.symm.trans conditions)
  cases one
  refine ⟨present, ⟨projected, row ▸ rows, fun column mem => ?_⟩, ?_⟩
  · refine all_eq_true.mp readable column ?_
    rw [PageStatement.asked, flatMap_singleton, columns]
    obtain filtered | shown := mem_append.mp mem
    · exact mem_append_left _ filtered
    · exact mem_append_right _ (mem_append_right _ shown)
  · have evaluated (row : Row server.Value) := holds server row length_nil (show _ = [] ++ st.binds ++ [] by simpa using binds.symm)
    rw [same]
    refine filter_congr fun row mem => ?_
    rw [Served.facts, ← evaluated row]
    rfl

/-- The filter of a member is compiled behind those of the members before it. -/
theorem Served.branch_kept {conditions : List Text} {st : Binds} {branch : Branch}
    (read : QueryRequest.read body = some request)
    (built : queryConditions served.types request.whereClause ⟨[], front.length⟩ = .ok (conditions, st))
    (split : binds = front ++ st.binds ++ rest) (same : branch.conditions = conditions)
    (row : branch.row = rowJson "t" served.types) :
    branch.kept server served.access served.stored.toState (boundValue binds) = some served.scope.kept := by
  obtain ⟨present, ⟨projected, rows, readable⟩, kept⟩ := served.filtered read
  obtain ⟨-, atoms, reads, columns, holds⟩ := queryConditions_reads built (served.named_columns read)
  have present : (filterFacts served.types request.whereClause).present = true := present
  rw [if_pos present] at reads
  unfold Branch.kept
  rw [same, row, reads, rows]
  have all : ([atoms].flatMap conjColumns ++ projected).all
      (fun column => column ∈ served.access.columns && executorReads served.access column) = true := by
    rw [flatMap_singleton, columns]
    exact all_eq_true.mpr readable
  dsimp only
  rw [if_pos all, kept]
  refine congrArg some (filter_congr fun row _ => ?_)
  rw [Served.facts, ← holds server row rfl split]
  rfl

/-- Each member of the union reads the matching rows of its entity, and says that they are from
    there. -/
theorem unionRows_members {members : List (Served server debug body)}
    (read : QueryRequest.read body = some request) {allBinds : List Text} {unions : List Branch}
    (built : federatedUnions request.whereClause (members.map Served.target) front.length = .ok (unions, binds))
    (split : allBinds = front ++ binds ++ rest) :
    unionRows server (boundValue allBinds) unions (members.map Served.table) = some (members.flatMap Served.sourced) := by
  induction members generalizing front binds unions with
  | nil =>
    obtain ⟨rfl, rfl⟩ := Prod.mk.inj (Except.ok.inj built)
    rfl
  | cons served members ih =>
    obtain ⟨⟨conditions, st⟩, compiled, built⟩ := bind_eq_ok.mp built
    obtain ⟨⟨others, more⟩, further, done⟩ := bind_eq_ok.mp built
    obtain ⟨rfl, rfl⟩ := Prod.mk.inj (pure_eq_ok.mp done)
    obtain ⟨bound, -⟩ := queryConditions_reads compiled (served.named_columns read)
    have size : st.idx = front.length + st.binds.length := by
      rw [bound]
      simp [Binds.after]
    have kept : Branch.kept server ⟨rowJson "t" served.types, served.app, served.entity, conditions, st.idx + 1, st.idx + 2⟩
        served.access served.stored.toState (boundValue allBinds) = some served.scope.kept := by
      refine served.branch_kept read compiled (?_ : allBinds = front ++ st.binds ++ (served.app :: served.entity :: more ++ rest)) rfl rfl
      rw [split]
      simp [Served.target]
    -- The source stands right behind the operands of the filter.
    have app : boundValue allBinds (st.idx + 1) = some served.app := by
      rw [boundValue, if_neg (Nat.succ_ne_zero _), Nat.add_sub_cancel, size, split]
      simp [Served.target]
    have entity : boundValue allBinds (st.idx + 2) = some served.entity := by
      have place : st.idx + 2 - 1 = (front ++ st.binds ++ [served.app]).length := by simp [size]; omega
      rw [boundValue, if_neg (Nat.succ_ne_zero _), place, split]
      have shape : front ++ (st.binds ++ served.target.app :: served.target.entity :: more) ++ rest =
          (front ++ st.binds ++ [served.app]) ++ served.entity :: (more ++ rest) := by simp [Served.target]
      rw [shape, getElem?_append_right (Nat.le_refl _), Nat.sub_self]
      rfl
    have behind : st.idx + 2 = (front ++ st.binds ++ [served.app, served.entity]).length := by simp [size, Nat.add_assoc]
    have others_kept : unionRows server (boundValue allBinds) others (members.map Served.table) = some (members.flatMap Served.sourced) :=
      ih (behind ▸ further) (by rw [split]; simp [Served.target])
    rw [map_cons, flatMap_cons, unionRows]
    show (Branch.kept _ ⟨rowJson _ served.types, served.app, served.entity, _, _, _⟩ served.access served.stored.toState _ >>= _) = _
    rw [kept]
    show (unionRows _ _ _ _ >>= _) = _
    rw [others_kept]
    show some (served.scope.kept.map (Sourced.mk (boundValue allBinds (st.idx + 1)) (boundValue allBinds (st.idx + 2))) ++ _) = _
    rw [app, entity]
    rfl

end Members

/-! ## The readers agree -/

/-- A federated query that is answered over entities on which `findPage` answers the same request. -/
structure Federation (server : Server) (debug : Text → Text) (body : Json) where
  members : List (Served server debug body)
  request : QueryRequest
  read : QueryRequest.read body = some request
  statement : Option FederatedStatement
  accepted : federatedQuery (members.map Served.target) request = .ok statement

namespace Federation

variable {server : Server} {debug : Text → Text} {body : Json} (federation : Federation server debug body)
  (rank : Text → Text → Ranking (Sourced server.Value))

/-- The number of all rows that match in one of the entities. -/
def matching : Nat := (federation.members.map fun served => served.scope.kept.length).sum

def offset : Nat := federation.request.offset.toNat

/-- Whatever it answers, the total is the sum of those of the entities. -/
def Sums : Prop := ∀ data total,
  FederatedReads server rank (federation.members.map Served.table) federation.statement data total → total = federation.matching

def Reached : Prop := federation.matching = 0 ∨ federation.offset < federation.matching

variable {federation rank}

theorem sourced_length (members : List (Served server debug body)) :
    (members.flatMap Served.sourced).length = (members.map fun served => served.scope.kept.length).sum := by
  simp [length_flatMap, Served.sourced, Function.comp_def]

/-- The statement of a federated query, where there is a target. -/
theorem asked {s : FederatedStatement} (stated : federation.statement = some s) :
    unionRows server (boundValue s.binds) s.unions (federation.members.map Served.table) =
        some (federation.members.flatMap Served.sourced) ∧
      s.offset.toNat = federation.offset ∧ 0 < s.limit.toNat := by
  have accepted := federation.accepted
  unfold federatedQuery at accepted
  obtain ⟨⟨unions, binds⟩, built, accepted⟩ := bind_eq_ok.mp accepted
  dsimp only at accepted
  split at accepted
  · rw [stated] at accepted
    exact nomatch pure_eq_ok.mp accepted
  · split at accepted
    · cases accepted
    · cases stated.symm.trans (pure_eq_ok.mp accepted).symm
      have rows := unionRows_members federation.read (show federatedUnions _ _ ([] : List Text).length = _ from built)
        (show binds = [] ++ binds ++ [] by simp)
      refine ⟨rows, ?_, ?_⟩
      · show (max federation.request.offset 0).toNat = federation.request.offset.toNat
        omega
      · show 0 < (max (min federation.request.limit 1000) 1).toNat
        omega

theorem none_matching (stated : federation.statement = none) : federation.matching = 0 := by
  have accepted := federation.accepted
  unfold federatedQuery at accepted
  obtain ⟨⟨unions, binds⟩, built, accepted⟩ := bind_eq_ok.mp accepted
  dsimp only at accepted
  split at accepted
  · rename_i empty
    cases members : federation.members with
    | nil => simp [matching, members]
    | cons served others =>
      -- The first target has a mem in the union.
      rw [members] at built
      obtain ⟨⟨conditions, st⟩, -, built⟩ := bind_eq_ok.mp built
      obtain ⟨⟨rest, more⟩, -, done⟩ := bind_eq_ok.mp built
      obtain ⟨rfl, -⟩ := Prod.mk.inj (pure_eq_ok.mp done)
      cases empty
  · split at accepted
    · cases accepted
    · exact nomatch stated.symm.trans (pure_eq_ok.mp accepted).symm

theorem read_past {s : FederatedStatement} (stated : federation.statement = some s) (past : ¬federation.offset < federation.matching) :
    FederatedReads server rank (federation.members.map Served.table) federation.statement [] 0 := by
  obtain ⟨rows, start, -⟩ := asked stated
  have arranged := arranges_mergeSort (rank s.sortField s.order) (federation.members.flatMap Served.sourced)
  have answered := FederatedReads.asked rows arranged (List.Perm.refl _)
  have empty : slice s.offset.toNat s.limit.toNat
      ((federation.members.flatMap Served.sourced).mergeSort (rank s.sortField s.order).le) = [] := by
    rw [Paging.slice, drop_eq_nil_of_le, take_nil]
    rw [length_mergeSort, sourced_length, start]
    exact Nat.le_of_not_lt past
  rwa [empty, ← stated] at answered

theorem sums_iff : federation.Sums rank ↔ federation.Reached := by
  constructor
  · intro sums
    cases stated : federation.statement with
    | none => exact .inl (none_matching stated)
    | some s =>
      by_contra beyond
      obtain ⟨some_rows, past⟩ := not_or.mp beyond
      exact some_rows (sums _ _ (read_past stated past)).symm
  · intro reached data total answered
    generalize stated : federation.statement = statement at answered
    cases answered with
    | empty => exact (none_matching stated).symm
    | asked found arranged shown =>
      obtain ⟨rows, start, positive⟩ := asked stated
      cases found.symm.trans rows
      have all : (federation.members.flatMap Served.sourced).length = federation.matching := sourced_length _
      split
      · rename_i empty
        have size := shown.length_eq
        rw [List.isEmpty_iff.mp empty, Paging.slice, length_take, length_drop, arranged.perm.length_eq, all, start,
          length_nil] at size
        obtain none | inside := reached
        · exact none.symm
        · omega
      · exact all

end Federation

/-- **The page readers agree.**  The readers of one entity report its number of matching rows and
    show the same rows, and a federated query reports the sum over its entities, if and only if
    both offsets are in front of the end and the total is not taken for the sort column. -/
theorem readers_agree_iff {server : Server} {debug : Text → Text} {body body' : Json} (collation : Collation server.Value)
    (rank : Text → Text → Ranking (Sourced server.Value)) (served : Served server debug body)
    (federation : Federation server debug body') :
    (served.Agree collation ∧ federation.Sums rank) ↔ (served.Safe collation ∧ federation.Reached) :=
  ⟨fun ⟨agree, sums⟩ => ⟨Served.safe_of_agree agree, Federation.sums_iff.mp sums⟩,
    fun ⟨safe, reached⟩ => ⟨Served.agree_of_safe safe, Federation.sums_iff.mpr reached⟩⟩

/-! Two rows, their last page of one row, and the page behind them. -/

def offsetOf (past : Bool) : Nat := if past then 2 else 1

def onePage (past : Bool) : Json := .obj [("limit", .number "1"), ("offset", .number (Nat.toDigits 10 (offsetOf past)))]

def bulkServed (past : Bool) : Served plainServer id (onePage past) where
  app := "crm"
  entity := "contacts"
  types := bulkTypes
  access := bulkAccess
  stored := bulkStored
  statement := bulkPage.at (offsetOf past)
  accepted := by cases past <;> decide +kernel
  scope := ⟨[bulkRow "a", bulkRow "b"], ["created_at"]⟩
  found := bulkPage_scope
  named _ member := nomatch member

def bulkFederation (past : Bool) : Federation plainServer id (onePage past) where
  members := [bulkServed past]
  request := ⟨none, none, none, 1, offsetOf past⟩
  read := by cases past <;> rfl
  statement := some ⟨[⟨rowJson "t" bulkTypes, "crm", "contacts", [], 1, 2⟩], "created_at", "DESC",
    1, offsetOf past, ["crm", "contacts"]⟩
  accepted := by cases past <;> decide +kernel

def byCreation (_ order : Text) : Ranking (Sourced Text) := (firstColumn.by order ["created_at"]).on Sourced.row

theorem lastPage_agree : (bulkServed false).Agree firstColumn ∧ (bulkFederation false).Sums byCreation :=
  (readers_agree_iff firstColumn byCreation (bulkServed false) (bulkFederation false)).mpr
    ⟨⟨.inr (by decide), fun total => absurd total (by decide +kernel)⟩, .inr (by decide)⟩

/-- Behind the end the query tool and the federated query count no row, and `findPage` counts
    both. -/
theorem pastEnd_disagree :
    ((bulkServed true).Answers firstColumn [] 2 ∧ (bulkServed true).Answers firstColumn [] 0 ∧
      FederatedReads plainServer byCreation ((bulkFederation true).members.map Served.table) (bulkFederation true).statement [] 0) ∧
      ¬(bulkServed true).Agree firstColumn ∧ ¬(bulkFederation true).Sums byCreation := by
  have arranged : (firstColumn.by "DESC".toList ["created_at".toList]).Arranges [bulkRow "a", bulkRow "b"] [bulkRow "a", bulkRow "b"] :=
    bulkPage_arranged (List.Perm.refl _)
  have page : (bulkServed true).Answers firstColumn [] 2 := by
    have found : (bulkServed true).statement.scope plainServer (bulkServed true).access (bulkServed true).stored.toState = _ := bulkPage_scope
    have read := PageStatement.Reads.mk found arranged (List.Perm.refl _)
    exact .findPage read
  have tool : (bulkServed true).Answers firstColumn [] 0 := by
    have named : ¬(bulkServed true).statement.SortsByTotal := by decide +kernel
    have answers : (bulkServed true).Answers firstColumn _ _ := Served.tool_answers (by rw [if_neg named]; exact arranged)
    exact answers
  have federated : FederatedReads plainServer byCreation ((bulkFederation true).members.map Served.table) (bulkFederation true).statement [] 0 :=
    Federation.read_past rfl (by decide)
  refine ⟨⟨page, tool, federated⟩, fun agree => ?_, fun sums => ?_⟩
  · exact absurd (agree.totals _ _ tool) (by decide)
  · exact absurd (sums _ _ federated) (by decide)

end RootCx.Crud
