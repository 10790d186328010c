import Mathlib

/-! # Paging through an arrangement

Rows are ranked by a total preorder, and a page is a slice of rows in some order that follows
it.  Each request may see ties in another order.  A boundary between pages that no group of
ties reaches across is safe: then every order gives the same pages.
-/

namespace RootCx.Paging

open List

universe u

variable {α : Type u}

structure Ranking (α : Type u) where
  le : α → α → Bool
  total : ∀ x y, le x y = true ∨ le y x = true
  trans : ∀ {x y z}, le x y = true → le y z = true → le x z = true

namespace Ranking

variable (ranking : Ranking α)

def Tied (x y : α) : Prop := ranking.le x y = true ∧ ranking.le y x = true

/-- How many rows come before a row whatever the order. -/
def below (rows : List α) (x : α) : Nat := rows.countP fun y => !ranking.le x y

/-- How many rows come before a row or tie with it. -/
def upTo (rows : List α) (x : α) : Nat := rows.countP fun y => ranking.le y x

structure Arranges (rows ordered : List α) : Prop where
  perm : ordered.Perm rows
  sorted : ordered.Pairwise fun x y => ranking.le x y = true

/-- No group of ties reaches across a boundary. -/
def Whole (rows : List α) (boundary : Nat) : Prop :=
  ∀ x ∈ rows, ranking.below rows x < boundary → ranking.upTo rows x ≤ boundary

theorem refl (x : α) : ranking.le x x = true := (ranking.total x x).elim id id

/-- Rows ranked by a key. -/
def on {β : Type u} (key : β → α) : Ranking β where
  le x y := ranking.le (key x) (key y)
  total x y := ranking.total (key x) (key y)
  trans := ranking.trans

/-- Ranked by a value of a linear order. -/
def of {β : Type u} [LinearOrder β] (key : α → β) : Ranking α where
  le x y := decide (key x ≤ key y)
  total x y := by simpa using le_total (key x) (key y)
  trans first second := decide_eq_true (le_trans (of_decide_eq_true first) (of_decide_eq_true second))

def reverse : Ranking α where
  le x y := ranking.le y x
  total x y := ranking.total y x
  trans first second := ranking.trans second first

end Ranking

def slice (offset limit : Nat) (rows : List α) : List α := (rows.drop offset).take limit

/-! ## Places in an arrangement -/

section Places

variable {ranking : Ranking α} {rows ordered other : List α} {x y : α} {index : Nat}

theorem arranges_mergeSort (ranking : Ranking α) (rows : List α) : ranking.Arranges rows (rows.mergeSort ranking.le) where
  perm := mergeSort_perm rows ranking.le
  sorted := by
    apply pairwise_mergeSort
    · intro x y z first second
      exact ranking.trans first second
    · intro x y
      simpa using ranking.total x y

theorem countP_split (p : α → Bool) (ordered : List α) (index : Nat) :
    ordered.countP p = (ordered.take index).countP p + (ordered.drop index).countP p := by
  rw [← countP_append, take_append_drop]

theorem below_le_index (arranged : ranking.Arranges rows ordered) (found : ordered[index]? = some x) :
    ranking.below rows x ≤ index := by
  -- Behind its place no row comes before it.
  have behind : (ordered.drop index).countP (fun y => !ranking.le x y) = 0 := by
    obtain ⟨inside, rfl⟩ := List.getElem?_eq_some_iff.mp found
    rw [countP_eq_zero]
    have sorted := arranged.sorted.sublist (drop_sublist index ordered)
    rw [drop_eq_getElem_cons inside] at sorted ⊢
    intro y mem
    obtain rfl | later := mem_cons.mp mem
    · simp [ranking.refl]
    · simp [rel_of_pairwise_cons sorted later]
  unfold Ranking.below
  rw [← arranged.perm.countP_eq, countP_split _ ordered index, behind, Nat.add_zero]
  exact countP_le_length.trans (length_take_le index ordered)

theorem index_lt_upTo (arranged : ranking.Arranges rows ordered) (found : ordered[index]? = some x) :
    index < ranking.upTo rows x := by
  -- Up to its place every row comes before it or ties.
  have front : (ordered.take (index + 1)).countP (fun y => ranking.le y x) = index + 1 := by
    obtain ⟨inside, rfl⟩ := List.getElem?_eq_some_iff.mp found
    rw [countP_eq_length.mpr ?_, length_take, Nat.min_eq_left inside]
    intro y mem
    obtain ⟨place, before, rfl⟩ := mem_take_iff_getElem.mp mem
    obtain earlier | same := Nat.lt_or_eq_of_le (Nat.le_of_lt_succ (Nat.lt_of_lt_of_le before (Nat.min_le_left _ _)))
    · exact pairwise_iff_getElem.mp arranged.sorted place index _ inside earlier
    · simp [same, ranking.refl]
  unfold Ranking.upTo
  rw [← arranged.perm.countP_eq, countP_split _ ordered (index + 1), front]
  omega

/-- Rows of a group that comes before end before the other group starts. -/
theorem upTo_le_below (strict : ranking.le x y = false) : ranking.upTo rows y ≤ ranking.below rows x := by
  refine countP_mono_left fun z _ lower => ?_
  cases upper : ranking.le x z with
  | false => rfl
  | true => exact absurd (ranking.trans upper lower) (by simp [strict])

/-- The rows at one place of two arrangements tie. -/
theorem tied_at (arranged : ranking.Arranges rows ordered) (again : ranking.Arranges rows other)
    (found : ordered[index]? = some x) (found' : other[index]? = some y) : ranking.Tied x y := by
  have one {first second : List α} {x y : α} (arranged : ranking.Arranges rows first) (again : ranking.Arranges rows second)
      (found : first[index]? = some x) (found' : second[index]? = some y) : ranking.le x y = true := by
    cases rank : ranking.le x y with
    | true => rfl
    | false =>
      have ends : ranking.upTo rows _ ≤ ranking.below rows _ := upTo_le_below rank
      have first := below_le_index arranged found
      have second := index_lt_upTo again found'
      omega
  exact ⟨one arranged again found found', one again arranged found' found⟩

theorem tied_all (arranged : ranking.Arranges rows ordered) (again : ranking.Arranges rows other) :
    List.Forall₂ ranking.Tied ordered other := by
  rw [forall₂_iff_get]
  refine ⟨arranged.perm.length_eq.trans again.perm.length_eq.symm, fun index inside inside' => ?_⟩
  exact tied_at arranged again (getElem?_eq_getElem inside) (getElem?_eq_getElem inside')

theorem tied_slice (arranged : ranking.Arranges rows ordered) (again : ranking.Arranges rows other) (offset limit : Nat) :
    List.Forall₂ ranking.Tied (slice offset limit ordered) (slice offset limit other) :=
  forall₂_take limit (forall₂_drop offset (tied_all arranged again))

end Places

/-! ## Across a whole boundary -/

section Boundaries

variable {ranking : Ranking α} {rows ordered other : List α} {boundary : Nat}

/-- In front of a whole boundary stand the rows whose groups end there. -/
theorem take_perm_filter (arranged : ranking.Arranges rows ordered) (whole : ranking.Whole rows boundary) :
    (ordered.take boundary).Perm (rows.filter fun x => ranking.upTo rows x ≤ boundary) := by
  have front : (ordered.take boundary).filter (fun x => ranking.upTo rows x ≤ boundary) = ordered.take boundary := by
    rw [filter_eq_self]
    intro x mem
    obtain ⟨index, inside, rfl⟩ := mem_take_iff_getElem.mp mem
    have early := below_le_index arranged (getElem?_eq_getElem (Nat.lt_of_lt_of_le inside (Nat.min_le_right _ _)))
    have before : index < boundary := Nat.lt_of_lt_of_le inside (Nat.min_le_left _ _)
    simpa using whole _ (arranged.perm.mem_iff.mp (getElem_mem _)) (by omega)
  have behind : (ordered.drop boundary).filter (fun x => ranking.upTo rows x ≤ boundary) = [] := by
    rw [filter_eq_nil_iff]
    intro x mem
    obtain ⟨index, inside, same⟩ := mem_drop_iff_getElem.mp mem
    have late := index_lt_upTo arranged (List.getElem?_eq_some_iff.mpr ⟨_, same⟩)
    simp only [decide_eq_true_eq]
    omega
  rw [← front, ← append_nil (filter _ (ordered.take boundary)), ← behind, ← filter_append, take_append_drop]
  exact arranged.perm.filter _

theorem take_perm (arranged : ranking.Arranges rows ordered) (again : ranking.Arranges rows other)
    (whole : ranking.Whole rows boundary) : (ordered.take boundary).Perm (other.take boundary) :=
  (take_perm_filter arranged whole).trans (take_perm_filter again whole).symm

theorem take_add_slice (offset limit : Nat) : ordered.take (offset + limit) = ordered.take offset ++ slice offset limit ordered :=
  take_add

/-- Between whole boundaries every arrangement has the same rows. -/
theorem slice_perm (arranged : ranking.Arranges rows ordered) (again : ranking.Arranges rows other) {offset limit : Nat}
    (start : ranking.Whole rows offset) (finish : ranking.Whole rows (offset + limit)) :
    (slice offset limit ordered).Perm (slice offset limit other) := by
  have longer := take_perm arranged again finish
  rw [take_add_slice, take_add_slice] at longer
  have shorter := take_perm arranged again start
  exact (perm_append_left_iff _).mp ((shorter.symm.append_right _).trans longer)

end Boundaries

/-! ## Reading page after page -/

/-- What a request for a page may answer, with the number of all rows. -/
inductive Page (ranking : Ranking α) (rows : List α) (limit offset : Nat) : List α → Nat → Prop where
  | mk {ordered data : List α} (arranged : ranking.Arranges rows ordered) (shown : data.Perm (slice offset limit ordered)) :
      Page ranking rows limit offset data rows.length

/-- A reader asks for one page after the other until it has come to the total. -/
inductive Walk (page : Nat → List α → Nat → Prop) (limit : Nat) : Nat → List α → Prop where
  | last {offset total : Nat} {data : List α} (read : page offset data total) (done : total ≤ offset + limit) :
      Walk page limit offset data
  | more {offset total : Nat} {data later : List α} (read : page offset data total) (left : offset + limit < total)
      (rest : Walk page limit (offset + limit) later) : Walk page limit offset (data ++ later)

section Walks

variable {ranking : Ranking α} {rows ordered data collected : List α} {limit offset : Nat}

theorem page_slice (arranged : ranking.Arranges rows ordered) :
    Page ranking rows limit offset (slice offset limit ordered) rows.length :=
  .mk arranged (List.Perm.refl _)

/-- Where every boundary is whole, a walk reads what one arrangement has from there on. -/
theorem walk_perm (whole : ∀ k, ranking.Whole rows (k * limit)) (arranged : ranking.Arranges rows ordered)
    (walk : Walk (Page ranking rows limit) limit offset collected) {k : Nat} (place : offset = k * limit) :
    collected.Perm (ordered.drop offset) := by
  have here {offset k : Nat} {other data : List α} (place : offset = k * limit) (again : ranking.Arranges rows other)
      (shown : data.Perm (slice offset limit other)) : data.Perm (slice offset limit ordered) := by
    refine shown.trans (slice_perm again arranged (place ▸ whole k) ?_)
    rw [place, ← Nat.succ_mul]
    exact whole (k + 1)
  induction walk generalizing k with
  | last read done =>
    obtain ⟨again, shown⟩ := read
    have here := here place again shown
    rw [slice, take_of_length_le] at here
    · exact here
    · rw [length_drop, arranged.perm.length_eq]
      exact Nat.sub_le_iff_le_add'.mpr done
  | more read left rest ih =>
    obtain ⟨again, shown⟩ := read
    have further := ih (by rw [place, ← Nat.succ_mul])
    rw [← drop_drop] at further
    have joined := (here place again shown).append further
    rwa [slice, take_append_drop] at joined

/-- There is a walk from every place. -/
theorem exists_walk (ranking : Ranking α) (rows : List α) (positive : 0 < limit) (offset : Nat) :
    ∃ collected, Walk (Page ranking rows limit) limit offset collected := by
  have arranged := arranges_mergeSort ranking rows
  induction left : rows.length - offset using Nat.strong_induction_on generalizing offset with
  | _ left ih =>
    by_cases done : rows.length ≤ offset + limit
    · exact ⟨_, .last (page_slice arranged) done⟩
    · obtain ⟨later, rest⟩ := ih (rows.length - (offset + limit)) (by omega) (offset + limit) rfl
      exact ⟨_, .more (page_slice arranged) (by omega) rest⟩

/-- A page in the middle of a walk may be any that its request can answer. -/
theorem walk_through (ranking : Ranking α) (rows : List α) (positive : 0 < limit) (k offset : Nat)
    (inside : offset + k * limit < rows.length) :
    ∃ before after, ∀ data, Page ranking rows limit (offset + k * limit) data rows.length →
      Walk (Page ranking rows limit) limit offset (before ++ data ++ after) := by
  have arranged := arranges_mergeSort ranking rows
  induction k generalizing offset with
  | zero =>
    obtain ⟨after, rest⟩ := exists_walk ranking rows positive (offset + limit)
    by_cases done : rows.length ≤ offset + limit
    · refine ⟨[], [], fun data read => ?_⟩
      rw [nil_append, append_nil]
      exact .last (by simpa using read) done
    · refine ⟨[], after, fun data read => ?_⟩
      exact .more (by simpa using read) (by omega) rest
  | succ k ih =>
    have place : offset + (k + 1) * limit = offset + limit + k * limit := by rw [Nat.succ_mul]; omega
    rw [place] at inside ⊢
    obtain ⟨before, after, through⟩ := ih (offset + limit) inside
    refine ⟨slice offset limit (rows.mergeSort ranking.le) ++ before, after, fun data read => ?_⟩
    rw [append_assoc, append_assoc, ← append_assoc before]
    exact .more (page_slice arranged) (by omega) (through data read)

/-- The places of a group of ties. -/
theorem tied_of_index {x y : α} {index : Nat} (arranged : ranking.Arranges rows ordered) (found : ordered[index]? = some y)
    (first : ranking.below rows x ≤ index) (last : index < ranking.upTo rows x) : ranking.Tied x y := by
  constructor
  · cases rank : ranking.le x y with
    | true => rfl
    | false =>
      have ends : ranking.upTo rows _ ≤ ranking.below rows _ := upTo_le_below rank
      have behind := index_lt_upTo arranged found
      omega
  · cases rank : ranking.le y x with
    | true => rfl
    | false =>
      have ends : ranking.upTo rows _ ≤ ranking.below rows _ := upTo_le_below rank
      have before := below_le_index arranged found
      omega

/-- Two neighbours that tie may change places. -/
theorem arranges_swap {front rest : List α} {x y : α} (arranged : ranking.Arranges rows (front ++ x :: y :: rest))
    (tied : ranking.Tied x y) : ranking.Arranges rows (front ++ y :: x :: rest) where
  perm := ((List.Perm.swap x y rest).append_left front).trans arranged.perm
  sorted := by
    obtain ⟨fronts, backs, across⟩ := pairwise_append.mp arranged.sorted
    obtain ⟨xs, backs⟩ := pairwise_cons.mp backs
    obtain ⟨ys, backs⟩ := pairwise_cons.mp backs
    refine pairwise_append.mpr ⟨fronts, ?_, fun z mem other found => across z mem other ?_⟩
    · refine pairwise_cons.mpr ⟨?_, pairwise_cons.mpr ⟨fun z mem => xs z (mem_cons_of_mem y mem), backs⟩⟩
      intro z mem
      obtain rfl | mem := mem_cons.mp mem
      · exact tied.2
      · exact ys z mem
    · exact ((List.Perm.swap x y rest).mem_iff).mp found

/-- **Pages that lose and repeat nothing.**  Every walk reads every row once, if and only if no
    group of ties reaches across a boundary between pages. -/
theorem walks_complete_iff (ranking : Ranking α) (distinct : rows.Nodup) (positive : 0 < limit) :
    (∀ collected, Walk (Page ranking rows limit) limit 0 collected → collected.Perm rows) ↔
      ∀ k, ranking.Whole rows (k * limit) := by
  have arranged := arranges_mergeSort ranking rows
  constructor
  · intro complete k x mem before
    by_contra across
    have inside : k * limit < rows.length := Nat.lt_of_lt_of_le (Nat.lt_of_not_le across) countP_le_length
    -- The last row in front of the boundary and the first one behind it tie with `x`.
    obtain ⟨last, place⟩ : ∃ last, k * limit = last + 1 := Nat.exists_eq_add_one_of_ne_zero (by omega)
    have length := arranged.perm.length_eq
    generalize rows.mergeSort ranking.le = ordered at arranged length
    obtain ⟨front, u, v, rest, rfl, size⟩ : ∃ front u v rest, ordered = front ++ u :: v :: rest ∧ front.length = last := by
      refine ⟨ordered.take last, ordered[last], ordered[last + 1], ordered.drop (last + 2), ?_, ?_⟩
      · rw [← drop_eq_getElem_cons, ← drop_eq_getElem_cons, take_append_drop]
      · rw [length_take]
        omega
    have tied : ranking.Tied u v := by
      have first : (front ++ u :: v :: rest)[last]? = some u := by simp [← size]
      have second : (front ++ u :: v :: rest)[last + 1]? = some v := by simp [← size]
      have left : ranking.Tied x u := tied_of_index arranged first (by omega) (by omega)
      have right : ranking.Tied x v := tied_of_index arranged second (by omega) (by omega)
      exact ⟨ranking.trans left.2 right.1, ranking.trans right.2 left.1⟩
    have missing : v ∉ u :: rest := by
      have once := (nodup_append.mp (arranged.perm.nodup_iff.mpr distinct)).2.1
      simp only [nodup_cons, mem_cons, not_or] at once ⊢
      exact ⟨Ne.symm once.1.1, once.2.1⟩
    -- One request sees them in this order, and the next one in the other.
    obtain ⟨front', behind, through⟩ := walk_through ranking rows positive k 0 (by omega)
    rw [Nat.zero_add] at through
    have one := complete _ (through _ (page_slice arranged))
    have two := complete _ (through _ (page_slice (arranges_swap arranged tied)))
    have same := (perm_append_left_iff _).mp ((perm_append_right_iff _).mp (one.trans two.symm))
    have pages (x y : α) : slice (k * limit) limit (front ++ x :: y :: rest) = (y :: rest).take limit := by
      have split : front ++ x :: y :: rest = (front ++ [x]) ++ (y :: rest) := by simp
      have size : (front ++ [x]).length = k * limit := by simp [size, place]
      rw [slice, split, ← size, drop_left]
    have read : v ∈ ((u :: rest).take limit) := by
      rw [← pages v u, ← same.mem_iff, pages u v]
      obtain ⟨limit, rfl⟩ := Nat.exists_eq_add_one_of_ne_zero (Nat.pos_iff_ne_zero.mp positive)
      exact mem_cons_self
    exact missing (mem_of_mem_take read)
  · intro whole collected walk
    exact (walk_perm whole arranged walk (Nat.zero_mul limit).symm).trans arranged.perm

end Walks

/-! ## Pages that are alike -/

/-- The same rows up to the order of ties, and up to which of them a page has. -/
def Ranking.Alike (ranking : Ranking α) (data data' : List α) : Prop :=
  ∃ page page', data.Perm page ∧ data'.Perm page' ∧ List.Forall₂ ranking.Tied page page'

section Alike

variable {ranking finer : Ranking α} {rows ordered other data data' : List α} {offset limit : Nat}

theorem alike_of_perm (same : data.Perm data') : ranking.Alike data data' :=
  ⟨data', data', same, List.Perm.refl _, forall₂_same.mpr fun x _ => ⟨ranking.refl x, ranking.refl x⟩⟩

theorem alike_slices (arranged : ranking.Arranges rows ordered) (again : ranking.Arranges rows other)
    (shown : data.Perm (slice offset limit ordered)) (shown' : data'.Perm (slice offset limit other)) : ranking.Alike data data' :=
  ⟨_, _, shown, shown', tied_slice arranged again offset limit⟩

/-- An order that also breaks ties follows the ranking. -/
theorem Ranking.Arranges.coarser (arranged : finer.Arranges rows ordered)
    (refines : ∀ x y, finer.le x y = true → ranking.le x y = true) : ranking.Arranges rows ordered :=
  ⟨arranged.perm, arranged.sorted.imp fun {x y} => refines x y⟩

/-- Rows that tie with one another come in any order. -/
theorem arranges_of_tied (tied : ∀ x ∈ rows, ∀ y ∈ rows, ranking.le x y = true) (perm : ordered.Perm rows) :
    ranking.Arranges rows ordered :=
  ⟨perm, pairwise_of_forall_mem_list fun x mem y other => tied x (perm.mem_iff.mp mem) y (perm.mem_iff.mp other)⟩

theorem alike_countP (alike : ranking.Alike data data') (x : α) :
    data.countP (fun y => ranking.le x y && ranking.le y x) = data'.countP fun y => ranking.le x y && ranking.le y x := by
  obtain ⟨page, page', shown, shown', tied⟩ := alike
  rw [shown.countP_eq, shown'.countP_eq]
  clear shown shown'
  induction tied with
  | nil => rfl
  | cons pair rest ih =>
    rename_i y z _ _
    have same : (ranking.le x y && ranking.le y x) = (ranking.le x z && ranking.le z x) := by
      rw [Bool.eq_iff_iff, Bool.and_eq_true_iff, Bool.and_eq_true_iff]
      exact ⟨fun ⟨below, above⟩ => ⟨ranking.trans below pair.1, ranking.trans pair.2 above⟩,
        fun ⟨below, above⟩ => ⟨ranking.trans below pair.2, ranking.trans pair.1 above⟩⟩
    rw [countP_cons, countP_cons, ih, same]

/-- A page that leaves out some rows may leave out either of two that do not tie. -/
theorem exists_unlike {x y : α} (mem : x ∈ rows) (other : y ∈ rows) (untied : ¬ranking.Tied x y) (positive : 0 < limit)
    (inside : offset < rows.length) (partly : ¬(offset = 0 ∧ rows.length ≤ limit)) :
    ∃ ordered other, ordered.Perm rows ∧ other.Perm rows ∧ ¬ranking.Alike (slice offset limit ordered) (slice offset limit other) := by
  have different : y ≠ x := fun same => untied (same ▸ ⟨ranking.refl y, ranking.refl y⟩)
  obtain ⟨rest, perm⟩ : ∃ rest, rows.Perm (x :: y :: rest) := by
    obtain ⟨front, back, rfl⟩ := append_of_mem mem
    have left : y ∈ front ++ back := by simpa [different] using other
    obtain ⟨front', back', split⟩ := append_of_mem left
    refine ⟨front' ++ back', perm_middle.trans (List.Perm.cons x ?_)⟩
    rw [split]
    exact perm_middle
  have size : rows.length = rest.length + 2 := perm.length_eq
  -- The rows in the same places, but for the two.
  obtain ⟨place, tail, shape⟩ : ∃ (place : α → α → List α) (tail : List α), (∀ u v, (place u v).Perm (u :: v :: rest)) ∧
      ∀ u v, slice offset limit (place u v) = u :: tail := by
    obtain ⟨limit, rfl⟩ := Nat.exists_eq_add_one_of_ne_zero (Nat.pos_iff_ne_zero.mp positive)
    cases offset with
    | zero =>
      refine ⟨fun u v => u :: (rest.take limit ++ v :: rest.drop limit), rest.take limit, fun u v => ?_, fun u v => ?_⟩
      · refine (perm_middle.trans ?_).cons u
        rw [take_append_drop]
      · have fits : (rest.take limit).length = limit := by
          rw [length_take]
          omega
        show u :: (rest.take limit ++ v :: rest.drop limit).take limit = _
        rw [take_left' fits]
    | succ offset =>
      refine ⟨fun u v => v :: (rest.take offset ++ u :: rest.drop offset), (rest.drop offset).take limit, fun u v => ?_, fun u v => ?_⟩
      · have inner : (rest.take offset ++ u :: rest.drop offset).Perm (u :: rest) := by
          refine perm_middle.trans ?_
          rw [take_append_drop]
        exact (inner.cons v).trans (List.Perm.swap u v rest)
      · have fits : (rest.take offset).length = offset := by
          rw [length_take]
          omega
        show ((rest.take offset ++ u :: rest.drop offset).drop offset).take (limit + 1) = _
        rw [drop_left' fits]
        rfl
  obtain ⟨places, slices⟩ := shape
  refine ⟨place x y, place y x, (places x y).trans perm.symm, ((places y x).trans (List.Perm.swap x y rest)).trans perm.symm, ?_⟩
  rw [slices, slices]
  intro alike
  have counts := alike_countP alike x
  have own : (ranking.le x x && ranking.le x x) = true := by simp [ranking.refl]
  have apart : (ranking.le x y && ranking.le y x) = false := by
    rw [Bool.eq_false_iff, ne_eq, Bool.and_eq_true_iff]
    exact untied
  rw [countP_cons, countP_cons, own, apart] at counts
  simp at counts

end Alike

end RootCx.Paging
