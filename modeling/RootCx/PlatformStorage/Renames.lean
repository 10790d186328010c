import RootCx.PlatformStorage.Forest

/-! # A renaming as a whole

One request of `rename_object`, while no other touches the table, and with a database that may
fail at any of its statements.  The name is set before the parent is looked at, so a parent that
is refused leaves the new name behind.
-/

namespace RootCx.PlatformStorage

open RootCx.Text List

/-! ## The run of a request -/

/-- The statements of a request, those of the walk by the rounds that are left. -/
inductive Statement where
  | permissions
  | present
  | setName
  | ancestor (left : Nat)
  | setParent
  deriving DecidableEq, Repr

/-- The statement of the next step, where it has one. -/
def Request.statement (request : Request) : Option Statement :=
  match request.stage with
  | .found => request.input.name.bind fun name => if name.isEmpty then none else some .setName
  | .walking _ _ 0 => some .setParent
  | .walking _ none _ => some .setParent
  | .walking _ (some cursor) (left + 1) => if cursor = request.id then none else some (.ancestor left)
  | .rooting => some .setParent
  | .answered _ => none
  | .brokenOff => none

/-- A bound on the steps to the answer. -/
def Stage.remaining : Stage → Nat
  | .found => 102
  | .walking _ _ left => left + 1
  | .rooting => 1
  | .answered _ => 0
  | .brokenOff => 0

/-- Answered with an error; a failure of the database is an internal one. -/
def Stage.Failed : Stage → Prop
  | .answered (.error _) => True
  | .brokenOff => True
  | _ => False

instance : DecidablePred Stage.Failed
  | .answered (.error _) => .isTrue trivial
  | .brokenOff => .isTrue trivial
  | .answered (.ok _) => .isFalse id
  | .found => .isFalse id
  | .walking .. => .isFalse id
  | .rooting => .isFalse id

section Run

variable (parse : Text → Option Uuid) (fails : Statement → Bool)

/-- A statement that fails breaks the request off, and is taken to have changed nothing. -/
def attempt (objects : List Object) (request : Request) : List Object × Stage :=
  if request.statement.any fails then (objects, .brokenOff) else advance parse objects request

def settle : Nat → List Object → Request → List Object × Stage
  | 0, objects, request => (objects, request.stage)
  | steps + 1, objects, request =>
    let (objects, stage) := attempt parse fails objects request
    settle steps objects { request with stage }

/-- `rename_object` from its first statement to its answer. -/
def rename (objects : List Object) (permissions : List Text) (bucket : Text) (id : Uuid) (input : RenameInput) :
    List Object × Stage :=
  if fails .permissions then (objects, .brokenOff)
  else match checkStoragePerm permissions bucket "write" with
    | .error e => (objects, .answered (.error e))
    | .ok () =>
      if fails .present then (objects, .brokenOff)
      else match renameObject objects permissions bucket id with
        | .error e => (objects, .answered (.error e))
        | .ok stage => settle parse fails stage.remaining objects ⟨bucket, id, input, stage⟩

end Run

/-! ## What is promised -/

/-- The name and the parent of an object. -/
def place (objects : List Object) (id : Uuid) : Option (Text × Option Uuid) :=
  (find objects id).map fun o => (o.name, o.parentId)

/-- The parent that a request asks for. -/
def RenameInput.target (parse : Text → Option Uuid) (text : Text) : Option Uuid :=
  if text.isEmpty || text == "null" then none else parse text

structure Whole (parse : Text → Option Uuid) (objects : List Object) (id : Uuid) (input : RenameInput)
    (run : List Object × Stage) : Prop where
  unchanged : run.2.Failed → place run.1 id = place objects id
  together : ∀ name text, input.name = some name → input.parentId = some text →
    place run.1 id = place objects id ∨ place run.1 id = some (name, RenameInput.target parse text)

/-- What the walk has come to after so many rounds. -/
def climb (objects : List Object) : Nat → Option Uuid → Option Uuid
  | 0, cursor => cursor
  | rounds + 1, cursor => climb objects rounds (cursor.bind (parentOf objects))

/-- A parent that the table does not take for an object under a name. -/
def Unwelcome (fails : Statement → Bool) (objects : List Object) (o : Object) (name : Text) (parent : Option Uuid) : Prop :=
  fails .setParent = true ∨ taken objects o.id o.bucket parent name = true ∨ refers objects parent = false

/-- The object, or a failing look-up, on the way up from the target. -/
def Stopped (fails : Statement → Bool) (objects : List Object) (id : Uuid) (cursor : Option Uuid) (left : Nat) : Prop :=
  ∃ round < left, ∃ above, climb objects round cursor = some above ∧
    (above = id ∨ fails (.ancestor (left - 1 - round)) = true)

/-- A request whose parent is refused, for an object under a name. -/
def MoveRefused (parse : Text → Option Uuid) (fails : Statement → Bool) (objects : List Object) (o : Object) (name : Text)
    (text : Text) : Prop :=
  if text.isEmpty || text == "null" then Unwelcome fails objects o name none
  else match parse text with
    | none => True
    | some target => Stopped fails objects o.id (some target) 100 ∨ Unwelcome fails objects o name (some target)

/-- A request that gives an object a name that it did not have. -/
structure Renamed (fails : Statement → Bool) (objects : List Object) (permissions : List Text) (bucket : Text) (id : Uuid)
    (o : Object) (name : Text) : Prop where
  answering : fails .permissions = false ∧ fails .present = false ∧ fails .setName = false
  allowed : checkStoragePerm permissions bucket "write" = .ok ()
  present : (objects.any fun o => o.id == id && o.bucket == bucket) = true
  nonempty : name ≠ []
  free : taken objects o.id o.bucket o.parentId name = false
  other : name ≠ o.name

section Run

variable {parse : Text → Option Uuid} {fails : Statement → Bool} {objects : List Object} {request : Request} {id : Uuid}
  {o : Object} {name text : Text} {parent : Option Uuid}

/-! ## The parent -/

/-- The last statement of a move. -/
def placing (fails : Statement → Bool) (objects : List Object) (id : Uuid) (parent : Option Uuid) : List Object × Stage :=
  if fails .setParent then (objects, .brokenOff) else finish objects (setParent objects id parent)

theorem placing_refused (found : find objects id = some o) (unwelcome : Unwelcome fails objects o o.name parent) :
    ∃ last, last.Failed ∧ placing fails objects id parent = (objects, last) := by
  obtain rfl : o.id = id := by simpa using find?_some found
  unfold placing
  split
  · exact ⟨.brokenOff, trivial, rfl⟩
  · rename_i answers
    simp only [setParent, found]
    split
    · exact ⟨.answered (.error _), trivial, rfl⟩
    · rename_i free
      -- What is left of the refusals is the foreign key.
      obtain fails | clash | missing := unwelcome
      · exact absurd fails answers
      · exact absurd clash free
      · rw [if_neg (by simp [missing])]
        exact ⟨.answered (.error _), trivial, rfl⟩

theorem placing_done (found : find objects id = some o) (welcome : ¬Unwelcome fails objects o o.name parent) :
    placing fails objects id parent = (updateRow objects id (.under parent), .answered (.ok ())) := by
  obtain rfl : o.id = id := by simpa using find?_some found
  simp only [Unwelcome, not_or, Bool.not_eq_true, Bool.not_eq_false] at welcome
  obtain ⟨answers, free, there⟩ := welcome
  simp [placing, answers, setParent, found, free, there, finish]

theorem settle_of_attempt {steps : Nat} {next : List Object} {stage : Stage}
    (step : attempt parse fails objects request = (next, stage)) :
    settle parse fails (steps + 1) objects request = settle parse fails steps next { request with stage } := by
  rw [settle, step]

theorem settle_ended (steps : Nat) (ended : request.stage.remaining = 0) :
    settle parse fails steps objects request = (objects, request.stage) := by
  obtain ⟨bucket, id, input, stage⟩ := request
  induction steps with
  | zero => rfl
  | succ steps ih =>
    cases stage with
    | answered result => exact ih
    | brokenOff => exact ih
    | found | rooting => simp [Stage.remaining] at ended
    | walking target cursor left => simp [Stage.remaining] at ended

theorem placing_ended (parent : Option Uuid) : (placing fails objects id parent).2.remaining = 0 := by
  unfold placing
  split
  · rfl
  · cases setParent objects id parent <;> rfl

theorem settle_rooting (steps : Nat) (stage : request.stage = .rooting) :
    settle parse fails (steps + 1) objects request = placing fails objects request.id none := by
  have step : attempt parse fails objects request = placing fails objects request.id none := by
    simp [attempt, Request.statement, advance, stage, placing]
  rw [settle_of_attempt step]
  exact settle_ended steps (placing_ended none)

/-! ## The walk -/

section Walk

variable {target : Uuid} {cursor : Option Uuid} {left : Nat}

theorem stopped_zero : ¬Stopped fails objects id cursor 0 := by
  rintro ⟨round, below, -⟩
  exact Nat.not_lt_zero round below

theorem stopped_none : ¬Stopped fails objects id none left := by
  rintro ⟨round, -, above, reached, -⟩
  have nowhere : climb objects round none = none := by
    clear reached
    induction round with
    | zero => rfl
    | succ round ih => exact ih
  exact nomatch nowhere.symm.trans reached

theorem stopped_succ {here : Uuid} :
    Stopped fails objects id (some here) (left + 1) ↔
      (here = id ∨ fails (.ancestor left) = true) ∨ Stopped fails objects id (parentOf objects here) left := by
  constructor
  · rintro ⟨round, below, above, reached, stops⟩
    cases round with
    | zero =>
      cases reached
      exact .inl (by simpa using stops)
    | succ round =>
      have same : left + 1 - 1 - (round + 1) = left - 1 - round := by omega
      exact .inr ⟨round, by omega, above, reached, same ▸ stops⟩
  · rintro (stops | ⟨round, below, above, reached, stops⟩)
    · exact ⟨0, by omega, here, rfl, by simpa using stops⟩
    · have same : left + 1 - 1 - (round + 1) = left - 1 - round := by omega
      exact ⟨round + 1, by omega, above, reached, same ▸ stops⟩

theorem settle_walking_stopped (stage : request.stage = .walking target cursor left)
    (stopped : Stopped fails objects request.id cursor left) :
    ∃ last, last.Failed ∧ settle parse fails (left + 1) objects request = (objects, last) := by
  induction left generalizing cursor request with
  | zero => exact absurd stopped stopped_zero
  | succ left ih =>
    cases cursor with
    | none => exact absurd stopped stopped_none
    | some here =>
      have round : attempt parse fails objects request =
          if here = request.id then (objects, .answered (.error (.badRequest "cannot move a folder into its own descendant")))
          else if fails (.ancestor left) then (objects, .brokenOff)
          else (objects, .walking target (parentOf objects here) left) := by
        by_cases same : here = request.id <;> simp [attempt, Request.statement, advance, stage, same]
      by_cases same : here = request.id
      · rw [if_pos same] at round
        exact ⟨.answered (.error _), trivial, (settle_of_attempt round).trans (settle_ended _ rfl)⟩
      · rw [if_neg same] at round
        by_cases broken : fails (.ancestor left) = true
        · rw [if_pos broken] at round
          exact ⟨.brokenOff, trivial, (settle_of_attempt round).trans (settle_ended _ rfl)⟩
        · rw [if_neg broken] at round
          obtain (first | broken') | further := stopped_succ.mp stopped
          · exact absurd first same
          · exact absurd broken' broken
          · rw [settle_of_attempt round]
            exact ih rfl further

theorem settle_walking_free (stage : request.stage = .walking target cursor left)
    (free : ¬Stopped fails objects request.id cursor left) :
    settle parse fails (left + 1) objects request = placing fails objects request.id (some target) := by
  induction left generalizing cursor request with
  | zero =>
    have step : attempt parse fails objects request = placing fails objects request.id (some target) := by
      cases cursor <;> simp [attempt, Request.statement, advance, stage, placing]
    rw [settle_of_attempt step]
    rfl
  | succ left ih =>
    cases cursor with
    | none =>
      have step : attempt parse fails objects request = placing fails objects request.id (some target) := by
        simp [attempt, Request.statement, advance, stage, placing]
      rw [settle_of_attempt step]
      exact settle_ended _ (placing_ended (some target))
    | some here =>
      rw [stopped_succ] at free
      obtain ⟨⟨same, answers⟩, further⟩ := not_or.mp free |>.imp not_or.mp id
      have step : attempt parse fails objects request = (objects, .walking target (parentOf objects here) left) := by
        simp [attempt, Request.statement, advance, stage, same, answers]
      rw [settle_of_attempt step]
      exact ih rfl further

end Walk

/-! ## The parent as a whole -/

section Parent

variable (asked : request.input.parentId = some text) (found : find objects request.id = some o)

include asked found

theorem settle_refused (refused : MoveRefused parse fails objects o o.name text) :
    ∃ last, last.Failed ∧ settle parse fails 101 objects { request with stage := request.afterName parse } = (objects, last) := by
  have same : o.id = request.id := by simpa using find?_some found
  unfold MoveRefused at refused
  unfold Request.afterName
  simp only [asked]
  split at refused
  · rename_i root
    rw [if_pos root, settle_rooting 100 rfl]
    exact placing_refused found refused
  · rename_i inner
    rw [if_neg inner]
    cases parsed : parse text with
    | none => exact ⟨.answered (.error _), trivial, settle_ended 101 rfl⟩
    | some target =>
      simp only [parsed] at refused ⊢
      split
      · exact ⟨.answered (.error _), trivial, settle_ended 101 rfl⟩
      · by_cases stops : Stopped fails objects o.id (some target) 100
        · exact settle_walking_stopped rfl (same ▸ stops)
        · rw [settle_walking_free rfl (same ▸ stops)]
          exact placing_refused found (refused.resolve_left stops)

theorem settle_moved (accepted : ¬MoveRefused parse fails objects o o.name text) :
    settle parse fails 101 objects { request with stage := request.afterName parse } =
      (updateRow objects request.id (.under (RenameInput.target parse text)), .answered (.ok ())) := by
  have same : o.id = request.id := by simpa using find?_some found
  unfold MoveRefused at accepted
  unfold Request.afterName RenameInput.target
  simp only [asked]
  split at accepted
  · rename_i root
    rw [if_pos root, if_pos root, settle_rooting 100 rfl]
    exact placing_done found accepted
  · rename_i inner
    rw [if_neg inner, if_neg inner]
    cases parsed : parse text with
    | none => simp [parsed] at accepted
    | some target =>
      simp only [parsed, not_or] at accepted ⊢
      obtain ⟨free, welcome⟩ := accepted
      -- The target itself is the first object of the walk.
      have other : target ≠ request.id := by
        rintro rfl
        exact free (stopped_succ.mpr (.inl (.inl same.symm)))
      rw [if_neg other, settle_walking_free rfl (same ▸ free)]
      exact placing_done found welcome

end Parent

/-! ## Under a new name -/

theorem taken_rename (self : Uuid) (bucket : Text) :
    taken (updateRow objects self (.named name)) self bucket parent text = taken objects self bucket parent text := by
  unfold taken updateRow
  rw [any_map]
  congr 1
  funext other
  by_cases same : other.id = self <;> simp [same]

theorem refers_rename : refers (updateRow objects id (.named name)) parent = refers objects parent := by
  cases parent with
  | none => rfl
  | some p => simp [refers, find_updateRow (fun o => o.named_id name)]

theorem climb_rename (rounds : Nat) (cursor : Option Uuid) :
    climb (updateRow objects id (.named name)) rounds cursor = climb objects rounds cursor := by
  induction rounds generalizing cursor with
  | zero => rfl
  | succ rounds ih =>
    have same : parentOf (updateRow objects id (.named name)) = parentOf objects := funext (parentOf_rename name)
    simp only [climb, same, ih]

theorem moveRefused_rename :
    MoveRefused parse fails (updateRow objects o.id (.named name)) (o.named name) name text ↔
      MoveRefused parse fails objects o name text := by
  have unwelcome (parent : Option Uuid) :
      Unwelcome fails (updateRow objects o.id (.named name)) (o.named name) name parent ↔ Unwelcome fails objects o name parent := by
    unfold Unwelcome
    rw [refers_rename, Object.named_id, taken_rename]
    rfl
  have stopped (cursor : Option Uuid) :
      Stopped fails (updateRow objects o.id (.named name)) o.id cursor 100 ↔ Stopped fails objects o.id cursor 100 := by
    simp only [Stopped, climb_rename]
  unfold MoveRefused
  simp only [unwelcome, Object.named_id, stopped]

/-! ## The whole request -/

variable {permissions : List Text} {bucket : Text} {input : RenameInput}

theorem present_find (present : (objects.any fun o => o.id == id && o.bucket == bucket) = true) :
    ∃ o, find objects id = some o := by
  obtain ⟨o, mem, same⟩ := any_eq_true.mp present
  have named : o.id = id := by simp at same; exact same.1
  refine Option.isSome_iff_exists.mp (find?_isSome.mpr ⟨o, mem, by simpa using named⟩)

theorem renameObject_eq (allowed : checkStoragePerm permissions bucket "write" = .ok ()) :
    renameObject objects permissions bucket id =
      if (objects.any fun o => o.id == id && o.bucket == bucket) = true then .ok .found
      else .error (.notFound ("object " ++ showUuid id)) := by
  unfold renameObject
  rw [allowed]
  rfl

theorem rename_found (answers : fails .permissions = false ∧ fails .present = false)
    (allowed : checkStoragePerm permissions bucket "write" = .ok ())
    (present : (objects.any fun o => o.id == id && o.bucket == bucket) = true) :
    rename parse fails objects permissions bucket id input = settle parse fails 102 objects ⟨bucket, id, input, .found⟩ := by
  unfold rename
  rw [renameObject_eq allowed, allowed, if_pos present, answers.1, answers.2]
  rfl

theorem rename_cases : (rename parse fails objects permissions bucket id input).1 = objects ∨
    ((fails .permissions = false ∧ fails .present = false) ∧ checkStoragePerm permissions bucket "write" = .ok () ∧
      (objects.any fun o => o.id == id && o.bucket == bucket) = true) := by
  unfold rename
  split
  · exact .inl rfl
  · rename_i permitted
    split
    · exact .inl rfl
    · rename_i allowed
      split
      · exact .inl rfl
      · rename_i answers
        by_cases present : (objects.any fun o => o.id == id && o.bucket == bucket) = true
        · exact .inr ⟨⟨by simpa using permitted, by simpa using answers⟩, allowed, present⟩
        · rw [renameObject_eq allowed, if_neg present]
          exact .inl rfl

theorem settle_named (named : input.name = some name) (nonempty : name ≠ []) (answers : fails .setName = false)
    (found : find objects id = some o) (free : taken objects id o.bucket o.parentId name = false) :
    settle parse fails 102 objects ⟨bucket, id, input, .found⟩ =
      settle parse fails 101 (updateRow objects id (.named name))
        ⟨bucket, id, input, Request.afterName parse ⟨bucket, id, input, .found⟩⟩ := by
  refine settle_of_attempt ?_
  simp [attempt, Request.statement, advance, named, nonempty, answers, setName, found, free]

theorem whole_of_same {run : List Object × Stage} (same : place run.1 id = place objects id) :
    Whole parse objects id input run where
  unchanged _ := same
  together _ _ _ _ := .inl same

theorem whole_of_done {next : List Object}
    (placed : ∀ name text, input.name = some name → input.parentId = some text →
      place next id = some (name, RenameInput.target parse text)) :
    Whole parse objects id input (next, .answered (.ok ())) where
  unchanged failed := failed.elim
  together name text named asked := .inr (placed name text named asked)

theorem place_eq (found : find objects id = some o) : place objects id = some (o.name, o.parentId) := by
  simp [place, found]

theorem find_renamed (found : find objects id = some o) :
    find (updateRow objects id (.named name)) id = some (o.named name) := by
  have same : o.id = id := by simpa using find?_some found
  simp [find_updateRow (fun o => o.named_id name), found, same]

theorem find_moved (found : find objects id = some o) :
    find (updateRow objects id (.under parent)) id = some (o.under parent) := by
  have same : o.id = id := by simpa using find?_some found
  simp [find_updateRow (fun o => o.under_id parent), found, same]

theorem settle_unnamed (unnamed : input.name = none) :
    settle parse fails 102 objects ⟨bucket, id, input, .found⟩ =
      settle parse fails 101 objects ⟨bucket, id, input, Request.afterName parse ⟨bucket, id, input, .found⟩⟩ := by
  refine settle_of_attempt ?_
  simp [attempt, Request.statement, advance, unnamed]

theorem settle_unwritten (named : input.name = some name) (found : find objects id = some o)
    (refused : ¬(name ≠ [] ∧ fails .setName = false ∧ taken objects id o.bucket o.parentId name = false)) :
    (settle parse fails 102 objects ⟨bucket, id, input, .found⟩).1 = objects := by
  have step : ∃ stage, stage.remaining = 0 ∧ attempt parse fails objects ⟨bucket, id, input, .found⟩ = (objects, stage) := by
    by_cases empty : name = []
    · exact ⟨.answered (.error _), rfl, by simp [attempt, Request.statement, advance, named, empty]; rfl⟩
    · by_cases broken : fails .setName = true
      · exact ⟨.brokenOff, rfl, by simp [attempt, Request.statement, named, empty, broken]⟩
      · have clash : taken objects id o.bucket o.parentId name = true := by
          by_contra free
          exact refused ⟨empty, by simpa using broken, by simpa using free⟩
        exact ⟨.answered (.error _), rfl, by simp [attempt, Request.statement, advance, named, empty, broken, setName, found, clash]; rfl⟩
  obtain ⟨stage, ended, step⟩ := step
  rw [settle_of_attempt step, settle_ended 101 ended]

/-- What follows the name, from the rows that it left. -/
theorem whole_after {rows : List Object} (found : find rows id = some o)
    (kept : ∀ text, input.parentId = some text → MoveRefused parse fails rows o o.name text → place rows id = place objects id)
    (named : ∀ name, input.name = some name → o.name = name) :
    Whole parse objects id input
      (settle parse fails 101 rows ⟨bucket, id, input, Request.afterName parse ⟨bucket, id, input, .found⟩⟩) := by
  let request : Request := ⟨bucket, id, input, .found⟩
  cases asked : input.parentId with
  | none =>
    have ended : Request.afterName parse ⟨bucket, id, input, .found⟩ = .answered (.ok ()) := by simp [Request.afterName, asked]
    rw [ended, settle_ended 101 rfl]
    exact whole_of_done fun name text _ stated => nomatch asked.symm.trans stated
  | some text =>
    by_cases refused : MoveRefused parse fails rows o o.name text
    · have here : request.input.parentId = some text := asked
      obtain ⟨last, -, ran⟩ := settle_refused here found refused
      rw [ran]
      exact whole_of_same (kept text asked refused)
    · have here : request.input.parentId = some text := asked
      rw [settle_moved here found refused]
      refine whole_of_done fun name target stated asked' => ?_
      cases asked.symm.trans asked'
      rw [place_eq (find_moved found), ← named name stated]
      rfl

/-- **When a request changes all that it names, or nothing.**  That fails if and only if the
    object gets a name that it did not have, and then a parent that is refused. -/
theorem rename_whole_iff (parse : Text → Option Uuid) (fails : Statement → Bool) (objects : List Object)
    (permissions : List Text) (bucket : Text) (id : Uuid) (input : RenameInput) :
    Whole parse objects id input (rename parse fails objects permissions bucket id input) ↔
      ∀ o name text, find objects id = some o → input.name = some name → input.parentId = some text →
        Renamed fails objects permissions bucket id o name → ¬MoveRefused parse fails objects o name text := by
  constructor
  · intro whole o name text found named asked renamed refused
    obtain ⟨⟨permitted, answers, sets⟩, allowed, present, nonempty, free, other⟩ := renamed
    have self : o.id = id := by simpa using List.find?_some found
    have refused' := moveRefused_rename.mpr refused
    rw [self] at free refused'
    let request : Request := ⟨bucket, id, input, .found⟩
    have asked' : request.input.parentId = some text := asked
    obtain ⟨last, failed, ran⟩ := settle_refused asked' (find_renamed found) refused'
    rw [rename_found ⟨permitted, answers⟩ allowed present, settle_named named nonempty sets found free, ran] at whole
    have kept := whole.unchanged failed
    rw [place_eq found, place_eq (find_renamed found)] at kept
    exact other (Prod.mk.inj (Option.some.inj kept)).1
  · intro clear
    obtain same | ⟨⟨permitted, answers⟩, allowed, present⟩ := rename_cases
    · exact whole_of_same (congrArg (place · id) same)
    obtain ⟨o, found⟩ := present_find present
    have self : o.id = id := by simpa using List.find?_some found
    rw [rename_found ⟨permitted, answers⟩ allowed present]
    cases named : input.name with
    | none =>
      rw [settle_unnamed named]
      exact whole_after found (fun _ _ _ => rfl) fun name stated => nomatch named.symm.trans stated
    | some name =>
      by_cases written : name ≠ [] ∧ fails .setName = false ∧ taken objects id o.bucket o.parentId name = false
      · obtain ⟨nonempty, sets, free⟩ := written
        rw [settle_named named nonempty sets found free]
        refine whole_after (find_renamed found) (fun text asked refused => ?_) fun stated same =>
          Option.some.inj (named.symm.trans same)
        -- Where the parent is refused, the name must be the one that the object had.
        have refused' : MoveRefused parse fails objects o name text := moveRefused_rename.mp (self ▸ refused)
        have same : name = o.name := by
          by_contra other
          exact clear o name text found named asked ⟨⟨permitted, answers, sets⟩, allowed, present, nonempty, self ▸ free, other⟩ refused'
        rw [place_eq (find_renamed found), place_eq found, same]
        rfl
      · exact whole_of_same (congrArg (place · id) (settle_unwritten named found written))

private def folderA : List Object := [⟨1, "default", none, "a", true⟩]

private def toMissing : RenameInput := ⟨some "b", some "00000000-0000-0000-0000-000000000007"⟩

/-- A new name, and a parent that is not there. -/
theorem renamed_astray : ¬Whole (fun _ => some 7) folderA 1 toMissing
    (rename (fun _ => some 7) (fun _ => false) folderA ["*".toList] "default".toList 1 toMissing) := by
  intro whole
  have failed : (rename (fun _ => some 7) (fun _ => false) folderA ["*".toList] "default".toList 1 toMissing).2.Failed := by
    decide +kernel
  exact absurd (whole.unchanged failed) (by decide +kernel)

end Run

end RootCx.PlatformStorage
