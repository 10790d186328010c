import RootCx.Lib.Text

/-! # Path texts and where they lead

Paths as programs on Unix handle them: a text, cut at `/`, that is joined to
another text without looking at a disk.  The system then walks it, name by name,
from the root or from the directory the process stands in.  A disk says where
entering a name really leads, so that symbolic links are there, and what the
files hold; the directories on the way are taken to exist.
-/

namespace RootCx.Paths

open RootCx.Text List

/-! ## Texts -/

def segments (path : Text) : List Text := path.splitOn '/'

def isAbsolute (path : Text) : Bool := path.head? == some '/'

/-- A joined path replaces the first one when it is absolute. -/
def pathJoin (base path : Text) : Text :=
  if isAbsolute path then path
  else if base = [] ∨ base.getLast? = some '/' then base ++ path
  else base ++ '/' :: path

inductive Component where
  | rootDir
  | curDir
  | parentDir
  | normal (name : Text)
  deriving DecidableEq, Repr

/-- A dot is a component at the front of a relative path only. -/
def component (segment : Text) : Option Component :=
  if segment = [] ∨ segment = ".".toList then none
  else if segment = "..".toList then some .parentDir
  else some (.normal segment)

def components (path : Text) : List Component :=
  (if isAbsolute path then [.rootDir]
    else if (segments path).head? = some ".".toList then [.curDir] else []) ++
    (segments path).filterMap component

def fileName (path : Text) : Option Text :=
  match (components path).getLast? with
  | some (.normal name) => some name
  | _ => none

/-- The text behind the last point of the file name, unless only that point is in
    front of it. -/
def extension (path : Text) : Option Text := do
  let name ← fileName path
  let behind := (name.reverse.takeWhile (· != '.')).reverse
  let front := (name.reverse.dropWhile (· != '.')).reverse
  if front = [] ∨ front = ['.'] then none else some behind

variable {path base : Text}

theorem parentDir_mem_components : Component.parentDir ∈ components path ↔ "..".toList ∈ segments path := by
  have first : Component.parentDir ∉ (if isAbsolute path then [Component.rootDir]
      else if (segments path).head? = some ".".toList then [.curDir] else []) := by
    split
    · simp
    · split <;> simp
  rw [components, mem_append, or_iff_right first, mem_filterMap]
  constructor
  · rintro ⟨segment, mem, parent⟩
    unfold component at parent
    split at parent
    · cases parent
    · split at parent
      · rename_i same
        exact same ▸ mem
      · cases parent
  · exact fun mem => ⟨_, mem, rfl⟩

/-- Segments hold no slash. -/
theorem not_slash_of_mem_segments {segment : Text} (mem : segment ∈ segments path) : '/' ∉ segment := by
  induction path generalizing segment with
  | nil =>
    obtain rfl : segment = [] := by simpa [segments] using mem
    exact not_mem_nil
  | cons c rest ih =>
    rw [segments, splitOn_cons_eq_if_modifyHead] at mem
    split at mem
    · obtain rfl | older := mem_cons.mp mem
      · exact not_mem_nil
      · exact ih older
    · rename_i other
      cases pieces : rest.splitOn '/' with
      | nil => exact absurd pieces (splitOn_ne_nil _ _)
      | cons first others =>
        have inside {piece : Text} (mem : piece ∈ first :: others) : '/' ∉ piece :=
          ih (by rw [segments, pieces]; exact mem)
        rw [pieces, modifyHead_cons] at mem
        obtain rfl | older := mem_cons.mp mem
        · rw [mem_cons, not_or]
          exact ⟨fun same => other (beq_iff_eq.mpr same.symm), inside mem_cons_self⟩
        · exact inside (mem_cons_of_mem _ older)

/-- A relative path that is joined gives the last segment. -/
theorem segments_join_last (base : Text) (relative : isAbsolute path = false) :
    (segments (pathJoin base path)).getLast? = (segments path).getLast? := by
  have last {front : List Text} : (front ++ segments path).getLast? = (segments path).getLast? := by
    have visible : segments path ≠ [] := splitOn_ne_nil '/' path
    rw [getLast?_append_of_ne_nil _ visible]
  rw [pathJoin, if_neg (by rw [relative]; exact Bool.false_ne_true)]
  split
  · rename_i ends
    obtain rfl | slash := ends
    · rfl
    · obtain ⟨front, rfl⟩ := getLast?_eq_some_iff.mp slash
      rw [segments, append_assoc, singleton_append, splitOn_append_cons_self]
      exact last
  · rw [segments, splitOn_append_cons_self]
    exact last

theorem mem_pathJoin {c : Char} (mem : c ∈ pathJoin base path) : c ∈ base ∨ c = '/' ∨ c ∈ path := by
  unfold pathJoin at mem
  split at mem
  · exact .inr (.inr mem)
  · split at mem
    · exact (mem_append.mp mem).imp_right .inr
    · obtain front | rest := mem_append.mp mem
      · exact .inl front
      · exact .inr (mem_cons.mp rest)

/-- What is joined is in the path, and so is what it is joined to, if it is
    relative. -/
theorem mem_pathJoin_right {c : Char} (mem : c ∈ path) : c ∈ pathJoin base path := by
  unfold pathJoin
  split
  · exact mem
  · split
    · exact mem_append_right base mem
    · exact mem_append_right base (mem_cons_of_mem _ mem)

theorem mem_pathJoin_left {c : Char} (relative : isAbsolute path = false) (mem : c ∈ base) :
    c ∈ pathJoin base path := by
  rw [pathJoin, if_neg (by rw [relative]; exact Bool.false_ne_true)]
  split
  · exact mem_append_left path mem
  · exact mem_append_left _ mem

/-! ## Locations -/

/-- The names from the root. -/
abbrev Location := List Text

/-- A name of a directory entry: neither a dot segment nor empty. -/
def isName (segment : Text) : Prop := segment ≠ [] ∧ segment ≠ ".".toList ∧ segment ≠ "..".toList

instance (segment : Text) : Decidable (isName segment) := inferInstanceAs (Decidable (_ ∧ _ ∧ _))

structure Disk (α : Type*) where
  -- where entering the last name of a location leads
  real : Location → Location
  content : Location → Option α

/-- One segment of a walk. -/
def enter (real : Location → Location) (at_ : Location) (segment : Text) : Location :=
  if segment = [] ∨ segment = ".".toList then at_
  else if segment = "..".toList then at_.dropLast
  else real (at_ ++ [segment])

def walk (real : Location → Location) (at_ : Location) (path : List Text) : Location := path.foldl (enter real) at_

/-- The location of a path text for a process that stands in `cwd`. -/
def locate (real : Location → Location) (cwd : Location) (path : Text) : Location :=
  walk real (if isAbsolute path then [] else cwd) (segments path)

variable {α : Type*}

/-- The file of a path text.  A text with a NUL in it names nothing, and one that
    ends in a slash or a dot segment names a directory. -/
def fileAt (disk : Disk α) (cwd : Location) (path : Text) : Option (Location × α) :=
  if '\x00' ∈ path ∨ ¬(segments path).getLast?.any (fun last => decide (isName last)) then none
  else
    let location := locate disk.real cwd path
    (disk.content location).map (location, ·)

theorem fileAt_eq_some {disk : Disk α} {cwd location : Location} {content : α} :
    fileAt disk cwd path = some (location, content) ↔
      '\x00' ∉ path ∧ (∃ last, (segments path).getLast? = some last ∧ isName last) ∧
        location = locate disk.real cwd path ∧ disk.content location = some content := by
  unfold fileAt
  cases (segments path).getLast? with
  | none => simp
  | some last =>
    by_cases null : '\x00' ∈ path
    · simp [null]
    by_cases named : isName last
    · simp only [null, named, Option.any_some, decide_true, not_true_eq_false, or_self, if_false,
        Option.map_eq_some_iff, Prod.mk.injEq, Option.some.injEq, exists_eq_left', not_false_eq_true, true_and]
      constructor
      · rintro ⟨found, held, rfl, rfl⟩
        exact ⟨rfl, held⟩
      · rintro ⟨rfl, held⟩
        exact ⟨content, held, rfl, rfl⟩
    · simp [named]

/-! ## Walks without links -/

/-- The location of a path text where there are no links. -/
def landing (cwd : Location) (path : Text) : Location := locate id cwd path

theorem walk_append (real : Location → Location) (at_ : Location) (front rest : List Text) :
    walk real at_ (front ++ rest) = walk real (walk real at_ front) rest := foldl_append ..

theorem walk_name {segment : Text} (named : isName segment) (at_ : Location) :
    walk id at_ [segment] = at_ ++ [segment] := by
  show enter id at_ segment = at_ ++ [segment]
  rw [enter, if_neg (not_or.mpr ⟨named.1, named.2.1⟩), if_neg named.2.2]
  rfl

/-- What a walk passes it keeps as a front of where it started, with names of the
    path behind it. -/
theorem walk_names (at_ : Location) (path : List Text) :
    ∃ kept entered, walk id at_ path = at_.take kept ++ entered ∧ ∀ name ∈ entered, name ∈ path ∧ isName name := by
  induction path using reverseRecOn with
  | nil => exact ⟨at_.length, [], by simp [walk], fun _ mem => nomatch mem⟩
  | append_singleton path segment ih =>
    obtain ⟨kept, entered, passed, names⟩ := ih
    have names' : ∀ name ∈ entered, name ∈ path ++ [segment] ∧ isName name := fun name mem =>
      ⟨mem_append_left _ (names name mem).1, (names name mem).2⟩
    rw [walk_append, passed]
    show ∃ kept' entered', enter id (at_.take kept ++ entered) segment = _ ∧ _
    unfold enter
    split
    · exact ⟨kept, entered, rfl, names'⟩
    · rename_i visible
      split
      · -- a parent segment takes the last name entered, or one of the start
        rcases entered.eq_nil_or_concat with rfl | ⟨before, last, rfl⟩
        · rw [append_nil, dropLast_eq_take, take_take]
          exact ⟨_, [], (append_nil _).symm, fun _ mem => nomatch mem⟩
        · rw [concat_eq_append, ← append_assoc, dropLast_concat]
          exact ⟨kept, before, rfl, fun name mem => names' name (by simp [mem])⟩
      · rename_i forward
        refine ⟨kept, entered ++ [segment], by rw [append_assoc]; rfl, ?_⟩
        intro name mem
        obtain older | here := mem_append.mp mem
        · exact names' name older
        · obtain rfl := mem_singleton.mp here
          exact ⟨by simp, fun empty => visible (.inl empty), fun dot => visible (.inr dot), forward⟩

/-- Entering one name after the other. -/
def descend (real : Location → Location) (at_ : Location) (names : List Text) : Location :=
  names.foldl (fun at_ name => real (at_ ++ [name])) at_

/-- Without parent segments a walk goes down only. -/
theorem walk_down (real : Location → Location) (at_ : Location) (path : List Text) (down : "..".toList ∉ path) :
    walk real at_ path = descend real at_ (path.filter fun segment => decide (isName segment)) := by
  induction path generalizing at_ with
  | nil => rfl
  | cons segment rest ih =>
    rw [mem_cons, not_or] at down
    obtain ⟨forward, down⟩ := down
    show walk real (enter real at_ segment) rest = _
    rw [ih _ down, filter_cons]
    by_cases skipped : segment = [] ∨ segment = ".".toList
    · have unnamed : ¬isName segment := fun name => skipped.elim name.1 name.2.1
      rw [enter, if_pos skipped, decide_eq_false unnamed]
      rfl
    · have named : isName segment := ⟨fun empty => skipped (.inl empty), fun dot => skipped (.inr dot), Ne.symm forward⟩
      rw [enter, if_neg skipped, if_neg (Ne.symm forward), decide_eq_true named, if_pos rfl]
      rfl

/-- A way without links leads where its names say. -/
theorem descend_straight {real : Location → Location} {at_ : Location} {names : List Text}
    (straight : ∀ front, front ≠ [] → front <+: names → real (at_ ++ front) = at_ ++ front) :
    descend real at_ names = at_ ++ names := by
  induction names using reverseRecOn with
  | nil => exact (append_nil at_).symm
  | append_singleton front name ih =>
    have before := ih fun other visible within => straight other visible (within.trans (prefix_append ..))
    rw [descend, foldl_append]
    show real (descend real at_ front ++ [name]) = _
    rw [before, append_assoc]
    exact straight _ (by simp) prefix_rfl

/-- A relative path that is joined starts where the first one leads. -/
theorem locate_join (real : Location → Location) (cwd : Location) (base : Text) (relative : isAbsolute path = false) :
    locate real cwd (pathJoin base path) = walk real (locate real cwd base) (segments path) := by
  have kept (tail : Text) (empty : base ≠ []) : isAbsolute (base ++ tail) = isAbsolute base := by
    cases base with
    | nil => exact absurd rfl empty
    | cons c rest => rfl
  rw [pathJoin, if_neg (by rw [relative]; exact Bool.false_ne_true)]
  by_cases empty : base = []
  · subst empty
    rw [if_pos (.inl rfl), nil_append, locate, locate, relative]
    rfl
  by_cases slash : base.getLast? = some '/'
  · -- the slash that ends the base separates the two
    obtain ⟨front, rfl⟩ := getLast?_eq_some_iff.mp slash
    rw [if_pos (.inr slash), locate, locate, kept _ empty]
    have joined : segments (front ++ ['/'] ++ path) = segments front ++ segments path := by
      rw [segments, append_assoc, singleton_append, splitOn_append_cons_self]
      rfl
    have ended : segments (front ++ ['/']) = segments front ++ [[]] := by
      rw [segments, splitOn_append_cons_self, splitOn_nil]
      rfl
    rw [joined, ended, walk_append, walk_append]
    rfl
  · rw [if_neg (by simp [empty, slash]), locate, locate, kept _ empty, segments,
      splitOn_append_cons_self, walk_append]
    rfl

theorem landing_join (cwd : Location) (base : Text) (relative : isAbsolute path = false) :
    landing cwd (pathJoin base path) = walk id (landing cwd base) (segments path) := locate_join id cwd base relative

end RootCx.Paths
