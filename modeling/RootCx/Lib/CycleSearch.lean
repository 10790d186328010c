import Mathlib

/-! # Searching a graph for a cycle

A depth-first search with two marks: the nodes entered, and those of them that
are not left yet.  A successor that is entered and not left closes a cycle; one
that is left is not entered again.  The module proves that the search finds a
cycle exactly when a starting node reaches one, and that as many levels as there
are nodes are enough for it.
-/

namespace RootCx.CycleSearch

open List

variable {α : Type*}

structure Marks (α : Type*) where
  visited : List α
  -- the path to the current node, its end first
  inStack : List α

inductive Outcome (α : Type*) where
  | done (marks : Marks α)
  | cycle (node : α)
  -- the levels are used up
  | exhausted

def Edge (next : α → List α) (node successor : α) : Prop := successor ∈ next node

abbrev OnCycle (next : α → List α) (node : α) : Prop := Relation.TransGen (Edge next) node node

section Search

variable [DecidableEq α]

/-- The loop over the successors of a node; `enter` searches from one of them. -/
def scan (enter : α → Marks α → Outcome α) : List α → Marks α → Outcome α
  | [], marks => .done marks
  | successor :: rest, marks =>
    if successor ∈ marks.inStack then .cycle successor
    else if successor ∈ marks.visited then scan enter rest marks
    else
      match enter successor marks with
      | .done marks => scan enter rest marks
      | other => other

def leave (node : α) : Outcome α → Outcome α
  | .done marks => .done { marks with inStack := marks.inStack.erase node }
  | other => other

/-- The search from a node, on so many levels. -/
def visit (next : α → List α) : Nat → α → Marks α → Outcome α
  | 0, _, _ => .exhausted
  | levels + 1, node, marks =>
    leave node (scan (visit next levels) (next node) ⟨node :: marks.visited, node :: marks.inStack⟩)

/-- The search from each node of a list that is not entered by then. -/
def search (next : α → List α) (levels : Nat) : List α → Marks α → Outcome α
  | [], marks => .done marks
  | node :: rest, marks =>
    if node ∈ marks.visited then search next levels rest marks
    else
      match visit next levels node marks with
      | .done marks => search next levels rest marks
      | other => other

end Search

/-! ## Marks between two steps -/

def Marks.Left (marks : Marks α) (node : α) : Prop := node ∈ marks.visited ∧ node ∉ marks.inStack

/-- The successors of a node that is left are left, so it is on no cycle. -/
structure Marks.Sound (next : α → List α) (marks : Marks α) : Prop where
  entered : ∀ node ∈ marks.inStack, node ∈ marks.visited
  closed : ∀ node, marks.Left node → ∀ successor ∈ next node, marks.Left successor
  acyclic : ∀ node, marks.Left node → ¬ OnCycle next node

variable {next : α → List α} {marks : Marks α} {node : α} {levels : Nat}

theorem Marks.Sound.reach (sound : marks.Sound next) {target : α} (left : marks.Left node)
    (path : Relation.ReflTransGen (Edge next) node target) : marks.Left target := by
  induction path with
  | refl => exact left
  | tail _ edge ih => exact sound.closed _ ih _ edge

theorem Marks.Sound.start (next : α → List α) : (⟨[], []⟩ : Marks α).Sound next where
  entered := by simp
  closed := by simp [Marks.Left]
  acyclic := by simp [Marks.Left]

theorem Marks.Sound.enter (sound : marks.Sound next) (fresh : node ∉ marks.visited) :
    (⟨node :: marks.visited, node :: marks.inStack⟩ : Marks α).Sound next := by
  -- entering a node changes nothing about which nodes are left
  have same : ∀ other, (⟨node :: marks.visited, node :: marks.inStack⟩ : Marks α).Left other ↔ marks.Left other := by
    intro other
    simp only [Marks.Left, mem_cons, not_or]
    constructor
    · intro ⟨visited, apart, outside⟩
      exact ⟨visited.resolve_left apart, outside⟩
    · intro ⟨visited, outside⟩
      exact ⟨.inr visited, fun equal => fresh (equal ▸ visited), outside⟩
  constructor
  · intro other mem
    exact mem_cons.mpr ((mem_cons.mp mem).imp_right (sound.entered other))
  · intro other left successor edge
    exact (same successor).mpr (sound.closed other ((same other).mp left) successor edge)
  · intro other left
    exact sound.acyclic other ((same other).mp left)

/-- A node may be left when its successors are. -/
theorem Marks.Sound.leave {visited rest : List α} (sound : (⟨visited, node :: rest⟩ : Marks α).Sound next)
    (apart : node ∉ rest)
    (finished : ∀ successor ∈ next node, (⟨visited, node :: rest⟩ : Marks α).Left successor) :
    (⟨visited, rest⟩ : Marks α).Sound next := by
  have weaken : ∀ other, (⟨visited, node :: rest⟩ : Marks α).Left other → (⟨visited, rest⟩ : Marks α).Left other :=
    fun other left => ⟨left.1, fun mem => left.2 (by simp [mem])⟩
  have older : ∀ other, (⟨visited, rest⟩ : Marks α).Left other → other ≠ node →
      (⟨visited, node :: rest⟩ : Marks α).Left other :=
    fun other left different => ⟨left.1, by simpa [different] using left.2⟩
  constructor
  · exact fun other mem => sound.entered other (by simp [mem])
  · intro other left successor edge
    by_cases same : other = node
    · exact weaken _ (finished successor (same ▸ edge))
    · exact weaken _ (sound.closed other (older other left same) successor edge)
  · intro other left cycle
    by_cases same : other = node
    · subst same
      -- a successor on the cycle is left and reaches the node, which is not
      obtain ⟨successor, edge, back⟩ := Relation.TransGen.head'_iff.mp cycle
      exact (sound.reach (finished successor edge) back).2 (by simp)
    · exact sound.acyclic other (older other left same) cycle

/-! ## What a search ends with -/

/-- The end of a search below a node: the path is what it was and more nodes are
    entered, or a node on a cycle is found. -/
def Ends (next : α → List α) (node : α) (marks : Marks α) : Outcome α → Prop
  | .done marks' => marks'.inStack = marks.inStack ∧ marks.visited ⊆ marks'.visited ∧ marks'.Sound next
  | .cycle found => Relation.ReflTransGen (Edge next) node found ∧ OnCycle next found
  | .exhausted => False

theorem Ends.trans {marks' : Marks α} {outcome : Outcome α} (first : Ends next node marks (.done marks'))
    (second : Ends next node marks' outcome) : Ends next node marks outcome := by
  cases outcome with
  | done last => exact ⟨second.1.trans first.1, List.Subset.trans first.2.1 second.2.1, second.2.2⟩
  | cycle found => exact second
  | exhausted => exact second

variable [DecidableEq α]

/-- The nodes that are still to be entered. -/
def remaining (nodes : Finset α) (marks : Marks α) : Nat := (nodes.filter (· ∉ marks.visited)).card

theorem remaining_mono {nodes : Finset α} {marks' : Marks α} (more : marks.visited ⊆ marks'.visited) :
    remaining nodes marks' ≤ remaining nodes marks :=
  Finset.card_le_card fun node mem => by
    rw [Finset.mem_filter] at mem ⊢
    exact ⟨mem.1, fun visited => mem.2 (more visited)⟩

theorem remaining_enter {nodes : Finset α} (known : node ∈ nodes) (fresh : node ∉ marks.visited)
    (stack : List α) : remaining nodes ⟨node :: marks.visited, stack⟩ < remaining nodes marks := by
  apply Finset.card_lt_card
  rw [Finset.ssubset_iff_of_subset]
  · exact ⟨node, by simp [known, fresh], by simp⟩
  · intro other mem
    rw [Finset.mem_filter, mem_cons, not_or] at mem
    exact Finset.mem_filter.mpr ⟨mem.1, mem.2.2⟩

section Levels

variable {next : α → List α} {nodes : Finset α}

/-- What a search on so many levels does, from any node it may be started at. -/
def Searches (next : α → List α) (nodes : Finset α) (levels : Nat) : Prop :=
  ∀ node marks, node ∈ nodes → node ∉ marks.visited → marks.Sound next → remaining nodes marks ≤ levels →
    (∀ above ∈ marks.inStack, Relation.TransGen (Edge next) above node) →
      Ends next node marks (visit next levels node marks) ∧
        ∀ marks', visit next levels node marks = .done marks' → marks'.Left node

/-- The loop over successors: the induction is on those still to look at. -/
theorem scan_ends (searches : Searches next nodes levels) (known : ∀ successor ∈ next node, successor ∈ nodes)
    {successors : List α} (edges : successors ⊆ next node) (sound : marks.Sound next)
    (enough : remaining nodes marks ≤ levels)
    (path : ∀ above ∈ marks.inStack, Relation.ReflTransGen (Edge next) above node) :
    Ends next node marks (scan (visit next levels) successors marks) ∧
      ∀ marks', scan (visit next levels) successors marks = .done marks' →
        ∀ successor ∈ successors, marks'.Left successor := by
  induction successors generalizing marks with
  | nil => exact ⟨⟨rfl, List.Subset.refl _, sound⟩, by simp⟩
  | cons successor rest ih =>
    have edge : Edge next node successor := edges (by simp)
    have others : rest ⊆ next node := fun other mem => edges (by simp [mem])
    rw [scan]
    by_cases closes : successor ∈ marks.inStack
    · rw [if_pos closes]
      exact ⟨⟨.single edge, .tail' (path successor closes) edge⟩, nofun⟩
    · rw [if_neg closes]
      by_cases old : successor ∈ marks.visited
      · rw [if_pos old]
        obtain ⟨ends, finished⟩ := ih others sound enough path
        refine ⟨ends, fun marks' ended other mem => ?_⟩
        obtain rfl | later := mem_cons.mp mem
        · rw [ended] at ends
          exact ⟨ends.2.1 old, fun inside => closes (ends.1 ▸ inside)⟩
        · exact finished marks' ended other later
      · rw [if_neg old]
        obtain ⟨ends, entered⟩ := searches successor marks (known successor edge) old sound enough
          fun above mem => .tail' (path above mem) edge
        cases outcome : visit next levels successor marks with
        | exhausted => rw [outcome] at ends; exact ends.elim
        | cycle found =>
          rw [outcome] at ends
          exact ⟨⟨.head edge ends.1, ends.2⟩, nofun⟩
        | done marks' =>
          rw [outcome] at ends
          have left := entered marks' outcome
          obtain ⟨stack, more, sound'⟩ := ends
          obtain ⟨restEnds, finished⟩ := ih others sound'
            ((remaining_mono more).trans enough) (by rwa [stack])
          have here : Ends next node marks (.done marks') := ⟨stack, more, sound'⟩
          refine ⟨here.trans restEnds, fun last ended other mem => ?_⟩
          obtain rfl | later := mem_cons.mp mem
          · dsimp only at ended
            rw [ended] at restEnds
            exact ⟨restEnds.2.1 left.1, fun inside => left.2 (restEnds.1 ▸ inside)⟩
          · exact finished last ended other later

theorem searches_all (closed : ∀ node ∈ nodes, ∀ successor ∈ next node, successor ∈ nodes) (levels : Nat) :
    Searches next nodes levels := by
  induction levels with
  | zero =>
    intro node marks known fresh _ none _
    have some : node ∈ nodes.filter (· ∉ marks.visited) := by simp [known, fresh]
    exact absurd (Finset.card_eq_zero.mp (Nat.le_zero.mp none)) (Finset.ne_empty_of_mem some)
  | succ levels ih =>
    intro node marks known fresh sound enough path
    have fewer := remaining_enter known fresh (node :: marks.inStack)
    have below : ∀ above ∈ node :: marks.inStack, Relation.ReflTransGen (Edge next) above node := by
      intro above mem
      obtain rfl | older := mem_cons.mp mem
      · exact .refl
      · exact (path above older).to_reflTransGen
    obtain ⟨ends, finished⟩ := scan_ends ih (closed node known) (List.Subset.refl _)
      (sound.enter fresh) (by omega) below
    rw [visit]
    cases outcome : scan (visit next levels) (next node) ⟨node :: marks.visited, node :: marks.inStack⟩ with
    | exhausted => rw [outcome] at ends; exact ends.elim
    | cycle found => rw [outcome] at ends; exact ⟨ends, nofun⟩
    | done marks' =>
      rw [outcome] at ends
      obtain ⟨visited, stack⟩ := marks'
      obtain ⟨rfl, more, sound'⟩ := ends
      have apart : node ∉ marks.inStack := fun mem => fresh (sound.entered node mem)
      have after := sound'.leave apart (finished _ outcome)
      have inside : node ∈ visited := more (by simp)
      simp only [leave, erase_cons_head]
      refine ⟨⟨rfl, fun other mem => more (by simp [mem]), after⟩, ?_⟩
      rintro _ ⟨⟩
      exact ⟨inside, apart⟩

/-- Started with no marks, the search ends; what it finds is on a cycle, and if it
    finds nothing no starting node reaches one. -/
theorem search_ends (closed : ∀ node ∈ nodes, ∀ successor ∈ next node, successor ∈ nodes) {roots : List α}
    (known : ∀ root ∈ roots, root ∈ nodes) (sound : marks.Sound next) (outside : marks.inStack = [])
    (enough : remaining nodes marks ≤ levels) :
    (∃ found, search next levels roots marks = .cycle found ∧ OnCycle next found ∧
        ∃ root ∈ roots, Relation.ReflTransGen (Edge next) root found) ∨
      ∃ marks', search next levels roots marks = .done marks' ∧ marks'.Sound next ∧ marks'.inStack = [] ∧
        marks.visited ⊆ marks'.visited ∧ ∀ root ∈ roots, root ∈ marks'.visited := by
  induction roots generalizing marks with
  | nil => exact .inr ⟨marks, rfl, sound, outside, List.Subset.refl _, by simp⟩
  | cons root rest ih =>
    have others : ∀ other ∈ rest, other ∈ nodes := fun other mem => known other (by simp [mem])
    rw [search]
    by_cases old : root ∈ marks.visited
    · rw [if_pos old]
      obtain ⟨found, ended, cycle, start, mem, path⟩ | ⟨marks', ended, sound', empty, more, all⟩ :=
        ih others sound outside enough
      · exact .inl ⟨found, ended, cycle, start, by simp [mem], path⟩
      · exact .inr ⟨marks', ended, sound', empty, more, forall_mem_cons.mpr ⟨more old, all⟩⟩
    · rw [if_neg old]
      obtain ⟨ends, entered⟩ := searches_all closed levels root marks (known root (by simp)) old sound enough
        (by simp [outside])
      cases outcome : visit next levels root marks with
      | exhausted => rw [outcome] at ends; exact ends.elim
      | cycle found =>
        rw [outcome] at ends
        exact .inl ⟨found, rfl, ends.2, root, by simp, ends.1⟩
      | done middle =>
        rw [outcome] at ends
        obtain ⟨stack, more, sound'⟩ := ends
        obtain ⟨found, ended, cycle, start, mem, path⟩ | ⟨marks', ended, sound'', empty, more', all⟩ :=
          ih others sound' (stack.trans outside) ((remaining_mono more).trans enough)
        · exact .inl ⟨found, ended, cycle, start, by simp [mem], path⟩
        · exact .inr ⟨marks', ended, sound'', empty, List.Subset.trans more more',
            forall_mem_cons.mpr ⟨more' (entered middle outcome).1, all⟩⟩

/-- The whole search on a list of starting nodes. -/
theorem search_iff (closed : ∀ node ∈ nodes, ∀ successor ∈ next node, successor ∈ nodes)
    (enough : nodes.card ≤ levels) {roots : List α} (known : ∀ root ∈ roots, root ∈ nodes) :
    search next levels roots ⟨[], []⟩ ≠ .exhausted ∧
      (∀ found, search next levels roots ⟨[], []⟩ = .cycle found → OnCycle next found) ∧
      ((∃ found, search next levels roots ⟨[], []⟩ = .cycle found) ↔
        ∃ root ∈ roots, ∃ node, Relation.ReflTransGen (Edge next) root node ∧ OnCycle next node) := by
  have fits : remaining nodes (⟨[], []⟩ : Marks α) ≤ levels := (Finset.card_filter_le _ _).trans enough
  obtain ⟨found, ended, cycle, root, mem, path⟩ | ⟨marks, ended, sound, empty, -, all⟩ :=
    search_ends closed known (Marks.Sound.start next) rfl fits
  · rw [ended]
    refine ⟨nofun, ?_, fun _ => ⟨root, mem, found, path, cycle⟩, fun _ => ⟨found, rfl⟩⟩
    rintro _ ⟨⟩
    exact cycle
  · rw [ended]
    refine ⟨nofun, nofun, nofun, ?_⟩
    intro ⟨root, mem, node, path, cycle⟩
    have left : marks.Left root := ⟨all root mem, by simp [empty]⟩
    exact absurd cycle (sound.acyclic node (sound.reach left path))

end Levels

end RootCx.CycleSearch
