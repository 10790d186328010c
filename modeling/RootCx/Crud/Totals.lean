import RootCx.Crud.NullOperands
import RootCx.Crud.Walks

/-! # The readers of pages side by side

What `findPage` accepts is accepted by the query route and by the query tool, and the three
statements are about the same rows.  They differ in how the total is counted, in what breaks
ties, and in what the name `total` means in `ORDER BY`.
-/

namespace RootCx.Crud

open RootCx.Text RootCx.Postgres RootCx.RowAccess RootCx.Paging List

/-! ## The body of a request -/

def optionalText (body : Json) (key : Text) : Option (Option Text) :=
  match body.get key with
  | none => some none
  | some .null => some none
  | some (.str value) => some (some value)
  | some _ => none

def integerOr (body : Json) (key : Text) (default : Int) : Option Int :=
  match body.get key with
  | none => some default
  | some value => value.asI64

/-- `QueryRequest`, as an object is read; the links to follow are left out. -/
def QueryRequest.read (body : Json) : Option QueryRequest := do
  let orderBy ← optionalText body "orderBy"
  let order ← optionalText body "order"
  let limit ← integerOr body "limit" 100
  let offset ← integerOr body "offset" 0
  let whereClause := (body.get "where").bind fun value => if value.isNull then none else some value
  return { whereClause, orderBy, order, limit, offset }

section Body

variable {body : Json} {key : Text} {types : FieldMap} {debug : Text → Text} {s : PageStatement}

theorem optionText_ok {failure : Text} {value : Option Text} (parsed : optionText body key failure = .ok value) :
    optionalText body key = some value ∧ (body.get key).bind Json.asStr = value := by
  unfold optionText at parsed
  unfold optionalText
  cases found : body.get key with
  | none =>
    rw [found] at parsed
    cases parsed
    exact ⟨rfl, rfl⟩
  | some json =>
    rw [found] at parsed
    cases json with
    | str text =>
      cases parsed
      exact ⟨rfl, rfl⟩
    | null | bool _ | number _ | arr _ | obj _ => cases parsed

theorem optionInt_ok {failure : Text} {default value : Int} (parsed : optionInt body key default failure = .ok value) :
    integerOr body key default = some value ∧ ((body.get key).bind Json.asI64).getD default = value := by
  unfold optionInt at parsed
  unfold integerOr
  cases found : body.get key with
  | none =>
    rw [found] at parsed
    cases parsed
    exact ⟨rfl, rfl⟩
  | some json =>
    rw [found] at parsed
    cases number : json.asI64 with
    | none =>
      simp only [number] at parsed
      cases parsed
    | some n =>
      simp only [number] at parsed
      cases parsed
      exact ⟨number, by simp [number]⟩

theorem parseOrder_ok {order : Text} (parsed : parseOrder body = .ok order) :
    ∃ value, optionalText body "order" = some value ∧ (body.get "order").bind Json.asStr = value ∧
      validateOrder value = order := by
  unfold parseOrder at parsed
  unfold optionalText
  cases found : body.get "order" with
  | none =>
    rw [found] at parsed
    cases parsed
    exact ⟨none, rfl, rfl, rfl⟩
  | some json =>
    rw [found] at parsed
    cases json with
    | str text =>
      refine ⟨some text, rfl, rfl, ?_⟩
      show (if (Json.str text).asStr = some "asc".toList ∨ (Json.str text).asStr = some "ASC".toList then "ASC".toList
        else "DESC") = order
      dsimp only at parsed
      split at parsed
      · rename_i ascending
        rw [if_pos ascending]
        exact Except.ok.inj parsed
      · rename_i other
        rw [if_neg other]
        split at parsed
        · exact Except.ok.inj parsed
        · cases parsed
    | null | bool _ | number _ | arr _ | obj _ => simp [Json.asStr] at parsed

theorem queryConditions_default {whereClause : Json} {conditions : List Text} {st : Binds}
    (filter : whereClause = (body.get "where").getD (.obj []))
    (built : queryConditions types (some whereClause) ⟨[], 0⟩ = .ok (conditions, st)) :
    queryConditions types (body.get "where") ⟨[], 0⟩ = .ok (conditions, st) ∧
      ∀ value, body.get "where" = some value → value.isNull = false := by
  cases found : body.get "where" with
  | none =>
    rw [filter, found] at built
    exact ⟨built, fun value same => nomatch same⟩
  | some value =>
    rw [filter, found] at built
    refine ⟨built, fun other same => ?_⟩
    cases same
    cases value with
    | null => cases built
    | bool _ | number _ | str _ | arr _ | obj _ => rfl

/-- What `findPage` accepts, the other two accept, with statements that differ in how the total
    is counted and in what breaks ties. -/
theorem statements_of_page (accepted : page debug types body false = .ok s) :
    queryData debug types body = .ok { s with windowed := true } ∧
      ∃ request query, QueryRequest.read body = some request ∧ queryRecords types request = .ok query ∧
        query.statement = { s with tieBreak := true, windowed := true } := by
  obtain ⟨whereClause, st, options, -, built, parsed, -, filter, same⟩ := page_ok accepted
  have filter := filter.resolve_right Bool.false_ne_true
  obtain ⟨built, visible⟩ := queryConditions_default filter built
  obtain ⟨sorts, orders, limits, offsets, least, most, positive⟩ := parseQueryOptions_ok parsed
  obtain ⟨sorts, sortName⟩ := optionText_ok sorts
  obtain ⟨order, orders, orderName, direction⟩ := parseOrder_ok orders
  obtain ⟨limits, limit⟩ := optionInt_ok limits
  obtain ⟨offsets, offset⟩ := optionInt_ok offsets
  -- The bounds that the other two enforce are met.
  have clamped : max 1 (min options.limit 1000) = options.limit := by omega
  have clamped' : max (min options.limit 1000) 1 = options.limit := by omega
  have raised : max options.offset 0 = options.offset := by omega
  constructor
  · unfold queryData
    rw [built, sortName, orderName, limit, offset]
    show Except.ok (PageStatement.mk (rowJson "t" types) s.conditions (validateSortField options.orderBy types)
      (validateOrder order) false true (max 1 (min options.limit 1000)) (max options.offset 0) st.binds) = _
    rw [direction, clamped, raised, same]
  · let request : QueryRequest :=
      ⟨(body.get "where").bind fun value => if value.isNull then none else some value, options.orderBy, order, options.limit,
        options.offset⟩
    have read : QueryRequest.read body = some request := by
      unfold QueryRequest.read
      rw [sorts, orders, limits, offsets]
      rfl
    have asked : request.whereClause = body.get "where" := by
      show (body.get "where").bind _ = _
      cases found : body.get "where" with
      | none => rfl
      | some value => exact if_neg (by simp [visible value found])
    let query : Query := ⟨rowJson "t" types, s.conditions, validateSortField options.orderBy types, validateOrder order, true,
      some (max (min options.limit 1000) 1), some (max options.offset 0), st.binds⟩
    refine ⟨request, query, read, ?_, ?_⟩
    · unfold queryRecords
      rw [asked, built]
      rfl
    · show PageStatement.mk _ _ _ (validateOrder order) true true (max (min options.limit 1000) 1) (max options.offset 0) _ = _
      rw [direction, clamped', raised, same]

end Body

/-! ## The rows of the three statements -/

/-- The sort column is called as the output column of the total. -/
def PageStatement.SortsByTotal (s : PageStatement) : Prop := columnsRead s.sort = some ["total".toList]

instance (s : PageStatement) : Decidable s.SortsByTotal := inferInstanceAs (Decidable (_ = _))

section Scopes

variable {server : Server} {access : Access} {st : State server.Value} {s : PageStatement} {scope scope' : Scope server.Value}
  {tie : Bool}

theorem sortColumns_windowed (s : PageStatement) (projected sort : List Text) :
    ({ s with tieBreak := tie, windowed := true } : PageStatement).sortColumns projected sort =
      if sort = ["total".toList] then [] else ({ s with windowed := false } : PageStatement).sortColumns projected sort := by
  by_cases total : sort = ["total".toList]
  · subst total
    rfl
  · simp only [PageStatement.sortColumns, total, and_false, if_false]

/-- The statement of another reader is about the same rows, and ranks them by the same columns
    unless the total is taken for the sort column. -/
theorem scope_windowed (plain : s.windowed = false) (found : s.scope server access st = some scope)
    (found' : ({ s with tieBreak := tie, windowed := true } : PageStatement).scope server access st = some scope') :
    scope' = ⟨scope.kept, if s.SortsByTotal then [] else scope.keys⟩ := by
  obtain ⟨choices, sort, projected, conditions, sorts, rows, -, rfl⟩ := scope_some.mp found
  obtain ⟨choices', sort', projected', conditions', sorts', rows', -, rfl⟩ := scope_some.mp found'
  cases conditions.symm.trans conditions'
  cases sorts.symm.trans sorts'
  cases rows.symm.trans rows'
  have same : ({ s with windowed := false } : PageStatement) = s := by
    rw [← plain]
  rw [sortColumns_windowed, same]
  by_cases total : sort = ["total".toList]
  · have named : s.SortsByTotal := by rw [PageStatement.SortsByTotal, sorts, total]
    rw [if_pos total, if_pos named]
    rfl
  · have other : ¬s.SortsByTotal := by
      rw [PageStatement.SortsByTotal, sorts]
      exact fun same => total (Option.some.inj same)
    rw [if_neg total, if_neg other]
    rfl

theorem by_coarser {collation : Collation server.Value} {order : Text} {keys more : List Text} {x y : Row server.Value}
    (lower : (collation.by order (keys ++ more)).le x y = true) : (collation.by order keys).le x y = true := by
  have lower : (collation.rank order).le ((keys ++ more).map x) ((keys ++ more).map y) = true := lower
  rw [map_append, map_append] at lower
  exact collation.first (by simp) lower

theorem scope_tool (plain : s.tieBreak = false ∧ s.windowed = false) (found : s.scope server access st = some scope) :
    ({ s with windowed := true } : PageStatement).scope server access st =
      some ⟨scope.kept, if s.SortsByTotal then [] else scope.keys⟩ := by
  obtain ⟨choices, sort, projected, conditions, sorts, rows, readable, -⟩ := scope_some.mp found
  have there : ({ s with windowed := true } : PageStatement).scope server access st = some _ :=
    scope_some.mpr ⟨choices, sort, projected, conditions, sorts, rows, readable, rfl⟩
  rw [there, scope_windowed plain.2 found there]

end Scopes

/-! ## The answers of the three readers -/

/-- A collection on which `findPage` answers a request.  The names that the filter looks at can
    be those of columns. -/
structure Served (server : Server) (debug : Text → Text) (body : Json) where
  app : Text
  entity : Text
  types : FieldMap
  access : Access
  stored : Stored server.Value
  statement : PageStatement
  accepted : page debug types body false = .ok statement
  scope : Scope server.Value
  found : statement.scope server access stored.toState = some scope
  named : ∀ name ∈ (clauseFacts types.get ((body.get "where").getD (.obj []))).columns, Named name

namespace Served

variable {server : Server} {debug : Text → Text} {body : Json} (collation : Collation server.Value) (served : Served server debug body)

/-- What a reader may answer. -/
inductive Answers : List (Row server.Value) → Nat → Prop where
  | findPage {data : List (Row server.Value)} {total : Nat}
      (read : served.statement.Reads server collation served.access served.stored.toState data total) : Answers data total
  | tool {s : PageStatement} {data : List (Row server.Value)} {total : Nat} (accepted : queryData debug served.types body = .ok s)
      (read : s.Reads server collation served.access served.stored.toState data total) : Answers data total
  | route {request : QueryRequest} {query : Query} {data : List (Row server.Value)} {total : Nat}
      (body_read : QueryRequest.read body = some request) (accepted : queryRecords served.types request = .ok query)
      (read : query.statement.Reads server collation served.access served.stored.toState data total) : Answers data total

/-- The ranking by the sort column. -/
def ranking : Ranking (Row server.Value) := collation.by served.statement.order served.scope.keys

/-- The three readers report the number of all matching rows, and pages that are alike. -/
structure Agree : Prop where
  totals : ∀ data total, served.Answers collation data total → total = served.scope.kept.length
  rows : ∀ data data' total total', served.Answers collation data total → served.Answers collation data' total' →
    (served.ranking collation).Alike data data'

def offset : Nat := served.statement.offset.toNat

def limit : Nat := served.statement.limit.toNat

/-- The offset is in front of the end, and the total is not taken for the sort column, unless
    that makes no difference. -/
structure Safe : Prop where
  reached : served.scope.kept = [] ∨ served.offset < served.scope.kept.length
  sorted : served.statement.SortsByTotal →
    (∀ x ∈ served.scope.kept, ∀ y ∈ served.scope.kept, (served.ranking collation).Tied x y) ∨
      (served.offset = 0 ∧ served.scope.kept.length ≤ served.limit)

variable {collation served} {data : List (Row server.Value)} {total : Nat}

theorem plain : served.statement.tieBreak = false ∧ served.statement.windowed = false ∧ 1 ≤ served.statement.limit :=
  Pager.plain (.page served.accepted)

theorem limit_pos : 0 < served.limit := by
  have least := served.plain.2.2
  unfold limit
  omega

/-- What the readers know in common about a page: it is a slice of some order of the matching
    rows, which follows the sort column unless that is taken for the total. -/
structure Slice (collation : Collation server.Value) (served : Served server debug body) (data : List (Row server.Value))
    (ordered : List (Row server.Value)) : Prop where
  perm : ordered.Perm served.scope.kept
  arranged : ¬served.statement.SortsByTotal → (served.ranking collation).Arranges served.scope.kept ordered
  shown : data.Perm (slice served.offset served.limit ordered)

theorem windowed_slice {tie : Bool}
    (read : ({ served.statement with tieBreak := tie, windowed := true } : PageStatement).Reads server collation served.access
      served.stored.toState data total) :
    (∃ ordered, served.Slice collation data ordered) ∧ total = if data.isEmpty then 0 else served.scope.kept.length := by
  obtain ⟨found, arranged, shown⟩ := read
  obtain rfl := scope_windowed served.plain.2.1 served.found found
  refine ⟨⟨_, arranged.perm, fun other => ?_, shown⟩, by simp⟩
  rw [if_neg other] at arranged
  exact arranged.coarser fun _ _ lower => by_coarser lower

theorem answers_slice (answers : served.Answers collation data total) : (∃ ordered, served.Slice collation data ordered) ∧
    (total = served.scope.kept.length ∨ total = if data.isEmpty then 0 else served.scope.kept.length) := by
  obtain ⟨tool, request, query, read, asked, stated⟩ := statements_of_page served.accepted
  cases answers with
  | findPage read =>
    obtain ⟨found, arranged, shown⟩ := read
    cases served.found.symm.trans found
    rw [served.plain.1] at arranged
    refine ⟨⟨_, arranged.perm, fun _ => ?_, shown⟩, .inl (by simp [served.plain.2.1])⟩
    simpa [ranking] using arranged
  | tool accepted read =>
    cases tool.symm.trans accepted
    obtain ⟨sliced, counted⟩ := windowed_slice read
    exact ⟨sliced, .inr counted⟩
  | route body_read accepted answered =>
    cases read.symm.trans body_read
    cases asked.symm.trans accepted
    rw [stated] at answered
    obtain ⟨sliced, counted⟩ := windowed_slice answered
    exact ⟨sliced, .inr counted⟩

theorem tool_answers {ordered : List (Row server.Value)}
    (arranged : (collation.by served.statement.order (if served.statement.SortsByTotal then [] else served.scope.keys)).Arranges
      served.scope.kept ordered) :
    served.Answers collation (slice served.offset served.limit ordered)
      (if (slice served.offset served.limit ordered).isEmpty then 0 else served.scope.kept.length) := by
  refine .tool (statements_of_page served.accepted).1 ?_
  have found := scope_tool ⟨served.plain.1, served.plain.2.1⟩ served.found
  have read := PageStatement.Reads.mk found (by simpa [served.plain.1] using arranged) (List.Perm.refl _)
  exact read

theorem agree_of_safe (safe : served.Safe collation) : served.Agree collation where
  totals := by
    intro data total answers
    obtain ⟨⟨ordered, sliced⟩, rfl | rfl⟩ := answers_slice answers
    · rfl
    · split
      · rename_i empty
        obtain none | inside := safe.reached
        · rw [none]
          rfl
        · have size := sliced.shown.length_eq
          rw [List.isEmpty_iff.mp empty, Paging.slice, length_take, length_drop, sliced.perm.length_eq, length_nil] at size
          have positive := served.limit_pos
          omega
      · rfl
  rows := by
    intro data data' total total' answers answers'
    obtain ⟨⟨ordered, sliced⟩, -⟩ := answers_slice answers
    obtain ⟨⟨ordered', sliced'⟩, -⟩ := answers_slice answers'
    by_cases named : served.statement.SortsByTotal
    · obtain tied | ⟨start, all⟩ := safe.sorted named
      · have tied' := fun x mem y other => (tied x mem y other).1
        exact alike_slices (arranges_of_tied tied' sliced.perm) (arranges_of_tied tied' sliced'.perm) sliced.shown sliced'.shown
      · have whole {ordered : List (Row server.Value)} (perm : ordered.Perm served.scope.kept) :
            slice served.offset served.limit ordered = ordered := by
          rw [start]
          exact take_of_length_le (perm.length_eq ▸ all)
        have shown := sliced.shown
        have shown' := sliced'.shown
        rw [whole sliced.perm] at shown
        rw [whole sliced'.perm] at shown'
        exact alike_of_perm ((shown.trans sliced.perm).trans (shown'.trans sliced'.perm).symm)
    · exact alike_slices (sliced.arranged named) (sliced'.arranged named) sliced.shown sliced'.shown

theorem safe_of_agree (agree : served.Agree collation) : served.Safe collation := by
  have reached : served.scope.kept = [] ∨ served.offset < served.scope.kept.length := by
    by_contra beyond
    obtain ⟨some_rows, past⟩ := not_or.mp beyond
    have answers : served.Answers collation _ _ := tool_answers (arranges_mergeSort _ served.scope.kept)
    have empty : slice served.offset served.limit (served.scope.kept.mergeSort
        (collation.by served.statement.order (if served.statement.SortsByTotal then [] else served.scope.keys)).le) = [] := by
      rw [Paging.slice, drop_eq_nil_of_le, take_nil]
      rw [length_mergeSort]
      omega
    rw [empty] at answers
    have none := agree.totals _ _ answers
    exact some_rows (length_eq_zero_iff.mp none.symm)
  refine ⟨reached, fun named => ?_⟩
  by_contra exposed
  obtain ⟨some_untied, partly⟩ := not_or.mp exposed
  obtain ⟨x, mem, y, other, untied⟩ : ∃ x ∈ served.scope.kept, ∃ y ∈ served.scope.kept, ¬(served.ranking collation).Tied x y := by
    simpa using some_untied
  have inside : served.offset < served.scope.kept.length := reached.resolve_left (ne_nil_of_mem mem)
  obtain ⟨ordered, ordered', perm, perm', unlike⟩ := exists_unlike mem other untied served.limit_pos inside partly
  -- By the total all rows tie, so the tool may answer both.
  have any {ordered : List (Row server.Value)} (perm : ordered.Perm served.scope.kept) :
      (collation.by served.statement.order (if served.statement.SortsByTotal then [] else served.scope.keys)).Arranges
        served.scope.kept ordered := by
    rw [if_pos named]
    exact arranges_of_tied (fun _ _ _ _ => Ranking.refl _ _) perm
  exact unlike (agree.rows _ _ _ _ (tool_answers (any perm)) (tool_answers (any perm')))

end Served

end RootCx.Crud
