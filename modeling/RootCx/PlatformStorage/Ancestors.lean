import Mathlib
import RootCx.PlatformStorage.Moves

/-! # The ancestors of an object -/

namespace RootCx.PlatformStorage

open RootCx.Text RootCx.Forest RootCx.Authority List

/-- No object is above itself, every parent is a folder of the bucket, and the ancestors
    of an object are the path to it from its root, where that is no longer than the walk
    goes. -/
structure Forested (objects : List Object) : Prop where
  acyclic : ∀ x, ¬Relation.TransGen (fun x y => parentOf objects x = some y) x x
  parents : ∀ o ∈ objects, ∀ p, o.parentId = some p →
    ∃ q ∈ objects, q.id = p ∧ q.isFolder = true ∧ q.bucket = o.bucket
  ends : ∀ permissions bucket id, ∃ rounds answer, getAncestors objects permissions bucket id rounds = some answer
  lists : ∀ permissions, ∀ o ∈ objects, checkStoragePerm permissions o.bucket "read" = .ok () →
    ∃ rounds path listed, Ascends (parentOf objects) o.id path ∧
      getAncestors objects permissions o.bucket o.id rounds = some (.ok listed) ∧
      (listed.map Prod.fst = path.reverse ↔ path.length ≤ 100)

variable {objects rows : List Object} {o : Object} {id x : Uuid}

/-! ## The query -/

/-- The rows of the query are those of the path. -/
theorem Sound.chain_eq (sound : Sound objects) {path : List Uuid}
    (ascends : Ascends (parentOf objects) x path) (found : find objects x = some o) :
    ∃ rows, chain objects path.length (some o) = some rows ∧ rows.map Object.id = path ∧
      rows.map Object.parentId = path.tail.map some ++ [none] ∧
      rows.IsChain fun low high => low.parentId = some high.id := by
  induction ascends generalizing o with
  | root ended =>
    have top : o.parentId = none := by simpa [parentOf, found] using ended
    have named := ((find_some sound.ids).mp found).2
    exact ⟨[o], by simp [chain, top], by simp [named], by simp [top], by simp⟩
  | @up x above rest stepped rising ih =>
    have points : o.parentId = some above := by simpa [parentOf, found] using stepped
    obtain ⟨mem, named⟩ := (find_some sound.ids).mp found
    obtain ⟨p, foundParent, _⟩ := sound.parents o mem above points
    obtain ⟨rows, read, ids, parents, linked⟩ := ih foundParent
    refine ⟨o :: rows, by simp [chain, points, foundParent, read], by simp [named, ids], ?_, ?_⟩
    · cases rising <;> simp_all
    · cases rows with
      | nil => simp
      | cons high rows =>
        refine isChain_cons_cons.mpr ⟨?_, linked⟩
        have head : high.id = above := by
          have := rising.head
          rw [← ids] at this
          simpa using this
        rw [points, head]

/-! ## The walk down -/

/-- From any row down to the object the walk lists the rows between, as far as it goes. -/
theorem descend_eq (distinct : (rows.map Object.parentId).Nodup) {below : List Object} {row : Object}
    (rounds : Nat) (present : ∀ r ∈ row :: below, r ∈ rows)
    (linked : (row :: below).IsChain fun high low => low.parentId = some high.id)
    (ids : ((row :: below).map Object.id).Nodup)
    (last : ((row :: below).getLast?).map Object.id = some id) :
    descend rows id rounds row.parentId = ((row :: below).take rounds).map fun r => (r.id, r.name) := by
  induction below generalizing row rounds with
  | nil =>
    cases rounds with
    | zero => rfl
    | succ rounds =>
      have found := (find?_key_eq_some distinct).mpr ⟨present row (by simp), rfl⟩
      have here : row.id = id := by simpa using last
      simp [descend, found, here]
  | cons low below ih =>
    cases rounds with
    | zero => rfl
    | succ rounds =>
      have found := (find?_key_eq_some distinct).mpr ⟨present row (by simp), rfl⟩
      obtain ⟨points, linked⟩ := isChain_cons_cons.mp linked
      have elsewhere : row.id ≠ id := by
        intro same
        rw [getLast?_cons_cons] at last
        obtain ⟨bottom, isLast, named⟩ := Option.map_eq_some_iff.mp last
        rw [map_cons, nodup_cons] at ids
        apply ids.1
        rw [same, ← named]
        exact mem_map_of_mem (mem_of_getLast? isLast)
      have tail := ih rounds (fun r mem => present r (by simp [mem])) linked
        (nodup_cons.mp ids).2 (by rwa [getLast?_cons_cons] at last)
      simp [descend, found, elsewhere, ← points, tail]

/-- The walk lists the path from the root, a hundred objects of it at most. -/
theorem Sound.descend_path (sound : Sound objects) {path : List Uuid} {rows : List Object}
    (ascends : Ascends (parentOf objects) id path) (ids : rows.map Object.id = path)
    (parents : rows.map Object.parentId = path.tail.map some ++ [none])
    (linked : rows.IsChain fun low high => low.parentId = some high.id) :
    (descend rows id 100 none).map Prod.fst = path.reverse.take 100 := by
  have nodup := ascends.nodup
  have distinct : (rows.map Object.parentId).Nodup := by
    rw [parents, nodup_append]
    refine ⟨(nodup.sublist path.tail_sublist).map (Option.some_injective _), by simp, ?_⟩
    intro parent mem last isLast
    obtain ⟨above, _, rfl⟩ := mem_map.mp mem
    rw [mem_singleton.mp isLast]
    simp
  cases turned : rows.reverse with
  | nil =>
    obtain rfl : rows = [] := by simpa using turned
    subst ids
    cases ascends
  | cons top below =>
    have whole : rows = (top :: below).reverse := by rw [← turned, reverse_reverse]
    have first : top.parentId = none := by
      have := congrArg getLast? parents
      rw [getLast?_map, ← head?_reverse, turned] at this
      simpa using this
    have bottom : ((top :: below).getLast?).map Object.id = some id := by
      rw [← turned, getLast?_reverse, ← head?_map, ids]
      exact ascends.head
    have walked : descend rows id 100 top.parentId = ((top :: below).take 100).map fun r => (r.id, r.name) := by
      apply descend_eq distinct 100 _ _ _ bottom
      · intro r mem
        rw [whole]
        exact mem_reverse.mpr mem
      · rw [← turned]
        exact isChain_reverse.mpr linked
      · rw [← turned, map_reverse, nodup_reverse, ids]
        exact nodup
    rw [first] at walked
    rw [walked, map_map, ← turned, ← ids, ← map_reverse, ← map_take]
    rfl

theorem getAncestors_ok {permissions : List Text} {bucket : Text}
    (allowed : checkStoragePerm permissions bucket "read" = .ok ()) (rounds : Nat) :
    getAncestors objects permissions bucket id rounds =
      (chain objects rounds (objects.find? fun o => decide (o.id = id ∧ o.bucket = bucket))).map fun rows =>
        .ok (descend rows id 100 none) := by
  rw [getAncestors, allowed]

theorem find_in_bucket (ids : (objects.map Object.id).Nodup) (bucket : Text) :
    objects.find? (fun o => decide (o.id = id ∧ o.bucket = bucket)) =
      (find objects id).filter fun o => decide (o.bucket = bucket) := by
  apply Option.ext
  intro o
  rw [Option.filter_eq_some_iff, find_some ids, decide_eq_true_eq]
  constructor
  · intro found
    have holds := find?_some found
    rw [decide_eq_true_eq] at holds
    exact ⟨⟨mem_of_find?_eq_some found, holds.1⟩, holds.2⟩
  · intro ⟨⟨mem, named⟩, housed⟩
    cases found : objects.find? (fun o => decide (o.id = id ∧ o.bucket = bucket)) with
    | none =>
      have missing := find?_eq_none.mp found o mem
      exact absurd (decide_eq_true (And.intro named housed)) missing
    | some other =>
      have holds := find?_some found
      rw [decide_eq_true_eq] at holds
      rw [inj_on_of_nodup_map ids (mem_of_find?_eq_some found) mem (holds.1.trans named.symm)]

theorem Sound.forested (sound : Sound objects) : Forested objects where
  acyclic x := by
    obtain ⟨path, ascends⟩ := sound.rooted x
    exact ascends.acyclic
  parents o mem p points := by
    obtain ⟨q, found, holds⟩ := sound.parents o mem p points
    obtain ⟨present, named⟩ := (find_some sound.ids).mp found
    exact ⟨q, present, named, holds⟩
  ends permissions bucket id := by
    cases allowed : checkStoragePerm permissions bucket "read" with
    | error e => exact ⟨0, .error e, by rw [getAncestors, allowed]⟩
    | ok _ =>
      simp only [getAncestors_ok allowed, find_in_bucket sound.ids]
      cases found : (find objects id).filter fun o => decide (o.bucket = bucket) with
      | none => exact ⟨0, _, rfl⟩
      | some o =>
        obtain ⟨path, ascends⟩ := sound.rooted id
        obtain ⟨rows, read, _⟩ := sound.chain_eq ascends (Option.filter_eq_some_iff.mp found).1
        exact ⟨path.length, _, by rw [read]; rfl⟩
  lists permissions o mem allowed := by
    obtain ⟨path, ascends⟩ := sound.rooted o.id
    have found := (find_some sound.ids).mpr ⟨mem, rfl⟩
    obtain ⟨rows, read, ids, parents, linked⟩ := sound.chain_eq ascends found
    refine ⟨path.length, path, descend rows o.id 100 none, ascends, ?_, ?_⟩
    · rw [getAncestors_ok allowed, find_in_bucket sound.ids, found]
      simp [Option.filter, read]
    · rw [sound.descend_path ascends ids parents linked, take_eq_self_iff, length_reverse]

/-! ## Every run of orderly requests -/

theorem forest_kept {parse : Text → Option Uuid} {storageLimit : Nat} {buckets : List Bucket}
    {actions : List Action} {s : State} (ran : run parse storageLimit (.start buckets) actions = some s)
    (met : Runs.Along (State.step parse storageLimit) (fun s action => orderly parse s action = true)
      (.start buckets) actions) :
    Forested s.objects := by
  have inv : Inv parse s :=
    Runs.run_along (fun inv stepped met => inv.step stepped met) (Inv.start buckets) ran met
  exact inv.sound.forested

section Runs

/-- Ids written with one digit. -/
private def digit : Text → Option Uuid
  | ['1'] => some 1
  | ['2'] => some 2
  | ['3'] => some 3
  | _ => none

private def files : Bucket := ⟨"default", none, none⟩

private def folder (name : String) (id : Uuid) : Action :=
  .createFolder ["*"] "default" ⟨name.toList, none⟩ id

private def move (id : Uuid) (target : String) : Action :=
  .rename ["*"] "default" id ⟨none, some target.toList⟩

private def sideBySide : List Action :=
  [folder "a" 1, folder "b" 2, folder "c" 3, move 1 "2", move 3 "2",
    .advance 0, .advance 1, .advance 0, .advance 0, .advance 1, .advance 1, .advance 1]

/-- Two folders move into a third one at the same time. -/
theorem side_by_side : ∃ s, run digit 1000 (.start [files]) sideBySide = some s ∧
    parentOf s.objects 1 = some 2 ∧ parentOf s.objects 3 = some 2 ∧ Forested s.objects := by
  have moved : (run digit 1000 (.start [files]) sideBySide).map (fun s => (parentOf s.objects 1, parentOf s.objects 3)) =
      some (some 2, some 2) := by
    decide +kernel
  obtain ⟨s, ran, moved⟩ := Option.map_eq_some_iff.mp moved
  obtain ⟨first, second⟩ := Prod.mk.inj moved
  exact ⟨s, ran, first, second, forest_kept ran (by decide +kernel)⟩

private def crossing : List Action :=
  [folder "a" 1, folder "b" 2, move 1 "2", move 2 "1",
    .advance 0, .advance 0, .advance 1, .advance 1, .advance 0, .advance 1]

/-- Two folders move into each other: both walks end before either parent is set, and the
    query for the ancestors of one of them does not end. -/
theorem crossing_moves : ∃ s, run digit 1000 (.start [files]) crossing = some s ∧
    Relation.TransGen (fun x y => parentOf s.objects x = some y) 1 1 ∧
    ∀ rounds, getAncestors s.objects ["*".toList] "default".toList 1 rounds = none := by
  have read : (run digit 1000 (.start [files]) crossing).map State.objects =
      some [⟨1, "default".toList, some 2, "a".toList, true⟩, ⟨2, "default".toList, some 1, "b".toList, true⟩] := by
    decide +kernel
  obtain ⟨s, ran, objects⟩ := Option.map_eq_some_iff.mp read
  refine ⟨s, ran, ?_, ?_⟩
  · have up : parentOf s.objects 1 = some 2 := by rw [objects]; rfl
    have down : parentOf s.objects 2 = some 1 := by rw [objects]; rfl
    exact .tail (.single up) down
  · intro rounds
    have endless : ∀ rounds,
        chain s.objects rounds (some ⟨1, "default".toList, some 2, "a".toList, true⟩) = none ∧
          chain s.objects rounds (some ⟨2, "default".toList, some 1, "b".toList, true⟩) = none := by
      intro rounds
      rw [objects]
      induction rounds with
      | zero => exact ⟨rfl, rfl⟩
      | succ rounds ih => simpa [chain, find] using ih.symm
    have allowed : checkStoragePerm ["*".toList] "default".toList "read".toList = .ok () := by decide +kernel
    rw [getAncestors_ok allowed]
    have start : (s.objects.find? fun o => decide (o.id = 1 ∧ o.bucket = "default".toList)) =
        some ⟨1, "default".toList, some 2, "a".toList, true⟩ := by
      rw [objects]
      decide +kernel
    rw [start, (endless rounds).1]
    rfl

end Runs

end RootCx.PlatformStorage
