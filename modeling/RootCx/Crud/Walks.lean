import Mathlib
import RootCx.Crud.Pages
import RootCx.Crud.Sensitive

/-! # Paging through a collection

The readers of `governance/collection_reads.rs` order a page by one column.  Whoever reads all
pages reads every row once if no rows with one value of that column lie on both sides of a page
boundary, and cannot rely on it otherwise.
-/

namespace RootCx.Crud

open RootCx.Text RootCx.Postgres RootCx.RowAccess RootCx.Paging

/-! ## The statements of the readers -/

/-- A statement of `page` or of `published`. -/
inductive Pager (debug : Text → Text) (types : FieldMap) (s : PageStatement) : Prop where
  | page {data : Json} {legacy : Bool} (accepted : page debug types data legacy = .ok s)
  | published {fields : List Text} {predicate queryFilter options : Json}
      (accepted : published debug types fields predicate queryFilter options = .ok s)

theorem parseQueryOptions_ok {object : Json} {options : PageOptions} (parsed : parseQueryOptions object = .ok options) :
    optionText object "orderBy" "orderBy must be a string" = .ok options.orderBy ∧
      parseOrder object = .ok options.order ∧
      optionInt object "limit" 100 "limit must be an integer" = .ok options.limit ∧
      optionInt object "offset" 0 "offset must be an integer" = .ok options.offset ∧
      1 ≤ options.limit ∧ options.limit ≤ 1000 ∧ 0 ≤ options.offset := by
  obtain ⟨orderBy, sorts, parsed⟩ := bind_eq_ok.mp parsed
  obtain ⟨order, orders, parsed⟩ := bind_eq_ok.mp parsed
  obtain ⟨limit, limits, parsed⟩ := bind_eq_ok.mp parsed
  split at parsed
  · cases parsed
  · rename_i bounded
    obtain ⟨offset, offsets, parsed⟩ := bind_eq_ok.mp parsed
    split at parsed
    · cases parsed
    · rename_i positive
      obtain rfl := pure_eq_ok.mp parsed
      obtain ⟨least, most⟩ := not_not.mp bounded
      exact ⟨sorts, orders, limits, offsets, least, most, Int.not_lt.mp positive⟩

theorem page_ok {debug : Text → Text} {types : FieldMap} {data : Json} {legacy : Bool} {s : PageStatement}
    (accepted : page debug types data legacy = .ok s) :
    ∃ whereClause st options, (∃ object, data.asObject = some object) ∧
      queryConditions types (some whereClause) ⟨[], 0⟩ = .ok (s.conditions, st) ∧ parseQueryOptions data = .ok options ∧
      (CrossApp.queryFieldNames (some whereClause) ((data.get "orderBy").bind Json.asStr)).forM (validateField types) = .ok ⟨⟩ ∧
      (whereClause = (data.get "where").getD (.obj []) ∨ legacy = true) ∧
      s = ⟨rowJson "t" types, s.conditions, validateSortField options.orderBy types, options.order, false, false,
        options.limit, options.offset, st.binds⟩ := by
  unfold page at accepted
  split at accepted
  · cases accepted
  · rename_i object isObject
    dsimp only at accepted
    split at accepted
    · cases accepted
    · obtain ⟨⟨⟩, fields, accepted⟩ := bind_eq_ok.mp accepted
      obtain ⟨⟨conditions, st⟩, built, accepted⟩ := bind_eq_ok.mp accepted
      obtain ⟨options, parsed, accepted⟩ := bind_eq_ok.mp accepted
      obtain rfl := pure_eq_ok.mp accepted
      refine ⟨_, st, options, ⟨object, isObject⟩, mapError_eq_ok.mp built, parsed, fields, ?_, rfl⟩
      cases legacy <;> simp

theorem Pager.plain {debug : Text → Text} {types : FieldMap} {s : PageStatement} (pager : Pager debug types s) :
    s.tieBreak = false ∧ s.windowed = false ∧ 1 ≤ s.limit := by
  cases pager with
  | page accepted =>
    obtain ⟨whereClause, st, options, -, -, parsed, -, -, same⟩ := page_ok accepted
    rw [same]
    exact ⟨rfl, rfl, (parseQueryOptions_ok parsed).2.2.2.2.1⟩
  | published accepted =>
    obtain ⟨⟨fixed, st⟩, -, accepted⟩ := bind_eq_ok.mp accepted
    obtain ⟨⟨requested, st⟩, -, accepted⟩ := bind_eq_ok.mp accepted
    obtain ⟨options, parsed, accepted⟩ := bind_eq_ok.mp accepted
    dsimp only at accepted
    split at accepted
    · cases accepted
    · obtain rfl := pure_eq_ok.mp accepted
      exact ⟨rfl, rfl, (parseQueryOptions_ok parsed).2.2.2.2.1⟩

/-! ## All pages -/

section Walks

variable (server : Server) (collation : Collation server.Value) (access : Access) (s : PageStatement)
  (st : Stored server.Value)

/-- Who reads page after page until the total is reached reads every row once. -/
def Complete : Prop :=
  ∀ scope, s.scope server access st.toState = some scope → ∀ collected,
    Walk (fun offset => (s.at offset).Reads server collation access st.toState) s.limit.toNat 0 collected →
      collected.Perm scope.kept

/-- No rows with equal keys lie on both sides of a page boundary. -/
def Unsplit : Prop :=
  ∀ scope, s.scope server access st.toState = some scope →
    ∀ k, (collation.by s.order scope.keys).Whole scope.kept (k * s.limit.toNat)

variable {server collation access s st}

theorem scope_nodup {scope : Scope server.Value} (found : s.scope server access st.toState = some scope) : scope.kept.Nodup := by
  obtain ⟨choices, sort, projected, -, -, -, -, rfl⟩ := scope_some.mp found
  exact ((List.Nodup.of_map _ st.keyed).filter _).filter _

theorem reads_iff (plain : s.tieBreak = false ∧ s.windowed = false) {scope : Scope server.Value}
    (found : s.scope server access st.toState = some scope) {offset total : Nat} {data : List (Row server.Value)} :
    (s.at offset).Reads server collation access st.toState data total ↔
      Page (collation.by s.order scope.keys) scope.kept s.limit.toNat offset data total := by
  have keys (columns : List Text) : columns ++ (if (s.at offset).tieBreak then ["id".toList] else []) = columns := by
    simp [PageStatement.at, plain.1]
  have whole (data : List (Row server.Value)) (n : Nat) : (if (s.at offset).windowed && data.isEmpty then 0 else n) = n := by
    simp [PageStatement.at, plain.2]
  constructor
  · rintro ⟨found', arranged, shown⟩
    cases found.symm.trans found'
    rw [keys] at arranged
    rw [whole]
    exact .mk arranged shown
  · rintro ⟨arranged, shown⟩
    rw [← whole data scope.kept.length]
    refine .mk found ?_ shown
    rw [keys]
    exact arranged

end Walks

/-- **Paging by one column.**  Reading page after page is safe, whatever order the database gives
    equal rows at each request, if and only if no page boundary falls among equal rows. -/
theorem pages_complete_iff {server : Server} {collation : Collation server.Value} {access : Access} {st : Stored server.Value}
    {debug : Text → Text} {types : FieldMap} {s : PageStatement} (pager : Pager debug types s) :
    Complete server collation access s st ↔ Unsplit server collation access s st := by
  obtain ⟨tie, window, limit⟩ := pager.plain
  unfold Complete Unsplit
  refine forall_congr' fun scope => forall_congr' fun found => ?_
  have reads : (fun offset => (s.at offset).Reads server collation access st.toState) =
      Page (collation.by s.order scope.keys) scope.kept s.limit.toNat := by
    funext offset data total
    exact propext (reads_iff ⟨tie, window⟩ found)
  rw [reads]
  exact walks_complete_iff _ (scope_nodup found) (by omega)

/-! Two rows of one bulk insert, and pages of one row. -/

def firstKey (keys : List (Option Text)) : WithTop Text := keys.headD none

/-- The keys by their first column, with nulls as the largest. -/
def firstColumn : Collation Text where
  rank order :=
    if order = "ASC" then .of firstKey else (Ranking.of firstKey).reverse
  first := by
    intro order keys keys' more more' lengths lower
    cases keys with
    | nil =>
      obtain rfl := List.length_eq_zero_iff.mp lengths.symm
      exact Ranking.refl _ []
    | cons key keys =>
      cases keys' with
      | nil => exact nomatch lengths
      | cons key' keys' =>
        by_cases ascending : order = "ASC"
        · rw [if_pos ascending] at lower ⊢
          exact lower
        · rw [if_neg ascending] at lower ⊢
          exact lower

def bulkTypes : FieldMap := ⟨systemFieldTypes⟩

def bulkAccess : Access where
  columns := ["id", "created_at", "updated_at"]
  policies _ := none
  onTable _ _ := true
  onColumn _ _ := true
  usage _ := true
  defaults _ := true
  enabled := false
  forced := false
  resolvers _ := none

def bulkRow (id : String) : Row Text := fun column =>
  if column = "id" then some id.toList else some "2026-01-01"

def bulkStored : Stored Text where
  rows := [bulkRow "a", bulkRow "b"]
  rules := [⟨false, none, none, none⟩]
  keyed := by decide +kernel

def onePerPage : Json := .obj [("limit", .number "1")]

def bulkPage : PageStatement where
  row := rowJson "t" bulkTypes
  conditions := []
  sort := "\"created_at\""
  order := "DESC"
  tieBreak := false
  windowed := false
  limit := 1
  offset := 0
  binds := []

theorem bulkPage_scope : bulkPage.scope plainServer bulkAccess bulkStored.toState =
    some ⟨[bulkRow "a", bulkRow "b"], ["created_at"]⟩ := by
  refine scope_some.mpr ⟨[[]], ["created_at"], ["created_at", "id", "updated_at"], rfl,
    by decide +kernel, by decide +kernel, by decide +kernel, rfl⟩

theorem bulkPage_arranged {ordered : List (Row Text)} (perm : ordered.Perm [bulkRow "a", bulkRow "b"]) :
    (firstColumn.by bulkPage.order (["created_at"] ++ if bulkPage.tieBreak then ["id"] else [])).Arranges
      [bulkRow "a", bulkRow "b"] ordered where
  perm := perm
  sorted := by
    have keys (row : Row Text) (mem : row ∈ ordered) : row "created_at" = some "2026-01-01".toList := by
      obtain rfl | mem := List.mem_cons.mp (perm.mem_iff.mp mem)
      · rfl
      · obtain rfl := List.mem_singleton.mp mem
        rfl
    refine List.pairwise_of_forall_mem_list fun x inside y other => ?_
    show decide (firstKey [y "created_at"] ≤ firstKey [x "created_at"]) = true
    rw [keys x inside, keys y other]
    exact decide_eq_true le_rfl

/-- A page of two rows has both, and no boundary is between them. -/
theorem bulkPage_walks : Complete plainServer firstColumn bulkAccess { bulkPage with limit := 2 } bulkStored := by
  have asked : page id bulkTypes (.obj [("limit", .number "2")]) false = .ok { bulkPage with limit := 2 } := by decide +kernel
  refine (pages_complete_iff (.page asked)).mpr fun scope found k => ?_
  have both : ({ bulkPage with limit := 2 } : PageStatement).scope plainServer bulkAccess bulkStored.toState = _ := bulkPage_scope
  cases both.symm.trans found
  intro x _ below
  show _ ≤ k * 2
  have few : (firstColumn.by bulkPage.order ["created_at"]).upTo [bulkRow "a", bulkRow "b"] x ≤ 2 := List.countP_le_length
  have later : 0 < k * 2 := Nat.lt_of_le_of_lt (Nat.zero_le _) below
  exact few.trans (by omega)

/-- Both pages may show the same row. -/
theorem bulkPage_incomplete : page id bulkTypes onePerPage false = .ok bulkPage ∧
    ¬Complete plainServer firstColumn bulkAccess bulkPage bulkStored := by
  refine ⟨by decide +kernel, fun complete => ?_⟩
  have first : (bulkPage.at 0).Reads plainServer firstColumn bulkAccess bulkStored.toState [bulkRow "a"] 2 :=
    .mk bulkPage_scope (bulkPage_arranged (List.Perm.refl _)) (List.Perm.refl _)
  have second : (bulkPage.at 1).Reads plainServer firstColumn bulkAccess bulkStored.toState [bulkRow "a"] 2 :=
    have scope : (bulkPage.at 1).scope plainServer bulkAccess bulkStored.toState = _ := bulkPage_scope
    .mk scope (bulkPage_arranged (List.Perm.swap (bulkRow "a") (bulkRow "b") [])) (List.Perm.refl _)
  have read := complete _ bulkPage_scope _ (.more first (by decide) (.last second (by decide)))
  have other : bulkRow "b" ∈ [bulkRow "a"] ++ [bulkRow "a"] := read.mem_iff.mpr (by simp)
  have same : bulkRow "b" = bulkRow "a" := by simpa using other
  exact absurd (congrFun same "id".toList) (by decide)

end RootCx.Crud
