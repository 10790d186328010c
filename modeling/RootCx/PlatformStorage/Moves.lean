import RootCx.PlatformStorage.Forest

/-! # Moves, and where the ancestors end

`rename_object` keeps an object out of its own descendants by a walk of at most a hundred
rounds before it sets the parent, and it takes the parent by its id alone, as
`create_folder` and `upload_object` do.  So the forest is kept by the requests that name
folders of their bucket, do not move an object under what the walk does not reach, and do
not move a folder under another request's walk.  `get_ancestors` goes down a hundred
rounds as well.
-/

namespace RootCx.PlatformStorage

open RootCx.Text RootCx.Forest RootCx.Authority List

section Conditions

variable (parse : Text → Option Uuid) (storageLimit : Nat)

/-- A parent, where it is there, is a folder of the bucket. -/
def inside (objects : List Object) (bucket : Text) (parent : Option Uuid) : Bool :=
  match parent.bind (find objects) with
  | none => true
  | some q => q.isFolder && q.bucket == bucket

/-- An object is the other one or above it, at least so many steps. -/
def above (objects : List Object) (least : Nat) (x moved : Uuid) : Bool :=
  (range (objects.length + 1)).any fun steps =>
    decide (least ≤ steps) && climb (parentOf objects) steps x == some moved

/-- The parent behind a field of an upload. -/
def partParent (named : Option Uuid) : Part → Option Uuid
  | .parent text => if text.isEmpty then named else parse text
  | _ => named

/-- The parent that the fields of an upload name last. -/
def partsParent (parts : List Part) : Option Uuid := parts.foldl (partParent parse) none

/-- The target a request is walking up from. -/
def Request.pending (request : Request) : Option Uuid :=
  match request.stage with
  | .walking target _ _ => some target
  | _ => none

/-- No other request walks up from an object beneath the one that is moved. -/
def undisturbed (s : State) (index : Nat) (moved : Uuid) : Bool :=
  (s.requests.eraseIdx index).all fun other =>
    match other.pending with
    | none => true
    | some target => !above s.objects 0 target moved

/-- The new parent of an object is a folder of its bucket. -/
def welcome (objects : List Object) (id : Uuid) (parent : Option Uuid) : Bool :=
  match find objects id with
  | none => true
  | some o => inside objects o.bucket parent

/-- A statement that does not go past what the handlers check. -/
def orderly (s : State) : Action → Bool
  | .createFolder _ bucket input _ => inside s.objects bucket (input.parentId.bind parse)
  | .upload _ bucket parts _ => inside s.objects bucket (partsParent parse parts)
  | .advance index =>
    match s.requests[index]? with
    | none => true
    | some request =>
      match request.stage with
      | .found =>
        -- the walk of a move starts here, and looks at a hundred objects
        match request.target parse with
        | none => true
        | some target => !above s.objects 100 target request.id
      | .walking target none _ | .walking target (some _) 0 =>
        welcome s.objects request.id (some target) && undisturbed s index request.id
      | _ => true
  | _ => true

end Conditions

variable {id target : Uuid} {path : List Uuid} {left : Nat} {bucket : Text} {permissions : List Text}
  {parent : Option Uuid} {index : Nat} {request : Request}

/-! ## A walk in progress -/

section Walks

variable {parse : Text → Option Uuid} {objects next : List Object} {request : Request}

/-- Where the walk of a request stands on the path of its target: its object is not among
    what the walk has met, nor beyond the reach of its rounds.  When another request has
    made one of the objects it met a root, its object is not on the path at all. -/
def Standing (objects : List Object) (id target : Uuid) (cursor : Option Uuid) (left : Nat) : Prop :=
  (∃ seen rest, Ascends (parentOf objects) target (seen ++ rest) ∧ id ∉ seen ∧ cursor = rest.head? ∧
    id ∉ rest.drop left) ∨
  ∃ path, Ascends (parentOf objects) target path ∧ id ∉ path

/-- A request that walks up has a standing, or its target is not there, and will not be. -/
def Walked (parse : Text → Option Uuid) (objects : List Object) (request : Request) : Prop :=
  match request.stage with
  | .walking target cursor left =>
    request.target parse = some target ∧
      (find objects target = none ∨ Standing objects request.id target cursor left)
  | _ => True

theorem Walked.mono (walked : Walked parse objects request)
    (kept : ∀ target cursor left, request.pending = some target → (find objects target).isSome = true →
      Standing objects request.id target cursor left →
      find next target = none ∨ Standing next request.id target cursor left)
    (gone : ∀ target, request.pending = some target → find objects target = none → find next target = none) :
    Walked parse next request := by
  cases stage : request.stage with
  | walking target cursor left =>
    simp only [Walked, stage] at walked ⊢
    have pending : request.pending = some target := by simp [Request.pending, stage]
    refine ⟨walked.1, ?_⟩
    cases found : find objects target with
    | none => exact .inl (gone target pending found)
    | some o =>
      rcases walked.2 with absent | standing
      · simp [absent] at found
      · exact kept target cursor left pending (by simp [found]) standing
  | found => simp [Walked, stage]
  | rooting => simp [Walked, stage]
  | answered => simp [Walked, stage]
  | brokenOff => simp [Walked, stage]

theorem Walked.of_leaves (walked : Walked parse objects request)
    (leaves : ∀ target, request.pending = some target → Leaves objects next target) :
    Walked parse next request := by
  apply walked.mono
  · intro target cursor left pending present standing
    rcases leaves target pending with absent | ⟨_, same⟩
    · exact .inl absent
    · rcases standing with ⟨seen, rest, ascends, clear⟩ | ⟨path, ascends, clear⟩
      · exact .inr (.inl ⟨seen, rest, ascends.congr (same _ ascends), clear⟩)
      · exact .inr (.inr ⟨path, ascends.congr (same _ ascends), clear⟩)
  · intro target pending absent
    rcases leaves target pending with gone | ⟨present, _⟩
    · exact gone
    · simp [absent] at present

theorem Walked.pending_target (walked : Walked parse objects request)
    (pending : request.pending = some target) : request.target parse = some target := by
  cases stage : request.stage with
  | walking other cursor left =>
    simp only [Request.pending, stage, Option.some.injEq] at pending
    simp only [Walked, stage] at walked
    exact pending ▸ walked.1
  | found => simp [Request.pending, stage] at pending
  | rooting => simp [Request.pending, stage] at pending
  | answered => simp [Request.pending, stage] at pending
  | brokenOff => simp [Request.pending, stage] at pending

theorem Sound.path_length (sound : Sound objects) {x : Uuid} (ascends : Ascends (parentOf objects) x path) :
    path.length ≤ objects.length + 1 := by
  have within : path ⊆ x :: objects.map Object.id := by
    induction ascends with
    | root => simp
    | up stepped rising ih =>
      intro y mem
      rcases mem_cons.mp mem with rfl | higher
      · simp
      · obtain ⟨o, found, points⟩ := Option.bind_eq_some_iff.mp stepped
        obtain ⟨q, foundParent, _⟩ := sound.parents o ((find_some sound.ids).mp found).1 _ points
        obtain ⟨present, named⟩ := (find_some sound.ids).mp foundParent
        rcases mem_cons.mp (ih higher) with rfl | inside
        · rw [← named]
          exact mem_cons_of_mem _ (mem_map_of_mem present)
        · exact mem_cons_of_mem _ inside
  simpa using (subperm_of_subset ascends.nodup within).length_le

theorem Sound.mem_drop (sound : Sound objects) {x moved : Uuid} {least : Nat}
    (ascends : Ascends (parentOf objects) x path) (away : above objects least x moved = false) :
    moved ∉ path.drop least := by
  intro mem
  obtain ⟨place, found⟩ := mem_iff_getElem?.mp mem
  rw [getElem?_drop, ← ascends.climb_eq] at found
  have bound : least + place < objects.length + 1 := by
    rw [ascends.climb_eq] at found
    exact Nat.lt_of_lt_of_le (List.getElem?_eq_some_iff.mp found).1 (sound.path_length ascends)
  simp only [above, any_eq_false, mem_range, Bool.and_eq_true, decide_eq_true_eq, beq_iff_eq,
    not_and] at away
  exact away (least + place) bound (Nat.le_add_right least place) found

/-- An object that is made a root cuts the paths it is on. -/
theorem Standing.cut {moved : Uuid} {cursor : Option Uuid} (standing : Standing objects id target cursor left)
    (here : parentOf next moved = none) (elsewhere : ∀ y, y ≠ moved → parentOf next y = parentOf objects y) :
    Standing next id target cursor left := by
  rcases standing with ⟨seen, rest, ascends, unseen, head, unreached⟩ | ⟨path, ascends, clear⟩
  · by_cases low : moved ∈ seen
    · obtain ⟨before, after, rfl⟩ := append_of_mem low
      right
      rw [append_assoc, cons_append] at ascends
      refine ⟨before ++ [moved], ascends.cut here elsewhere, fun mem => unseen ?_⟩
      rcases mem_append.mp mem with front | last
      · exact mem_append_left _ front
      · simp [mem_singleton.mp last]
    · by_cases high : moved ∈ rest
      · obtain ⟨before, after, rfl⟩ := append_of_mem high
        left
        have cut : Ascends (parentOf next) target (seen ++ before ++ [moved]) := by
          rw [← append_assoc] at ascends
          exact ascends.cut here elsewhere
        refine ⟨seen, before ++ [moved], by rwa [append_assoc] at cut, unseen, ?_, fun mem => unreached ?_⟩
        · cases before <;> simpa using head
        · have front : before ++ [moved] <+: before ++ moved :: after := ⟨after, by simp⟩
          exact (front.drop left).subset mem
      · refine .inl ⟨seen, rest, ascends.congr ?_, unseen, head, unreached⟩
        intro y mem
        apply elsewhere
        rintro rfl
        exact (mem_append.mp mem).elim low high
  · right
    by_cases on : moved ∈ path
    · obtain ⟨before, after, rfl⟩ := append_of_mem on
      refine ⟨before ++ [moved], ascends.cut here elsewhere, fun mem => clear ?_⟩
      rcases mem_append.mp mem with front | last
      · exact mem_append_left _ front
      · simp [mem_singleton.mp last]
    · refine ⟨path, ascends.congr ?_, clear⟩
      intro y mem
      apply elsewhere
      rintro rfl
      exact on mem

end Walks

/-! ## What each statement keeps -/

structure Inv (parse : Text → Option Uuid) (s : State) : Prop where
  sound : Sound s.objects
  walked : ∀ request ∈ s.requests, Walked parse s.objects request

section Steps

variable {parse : Text → Option Uuid} {storageLimit : Nat} {s : State} {objects next : List Object}
  {buckets : List Bucket}

theorem inside_spec (holds : inside objects bucket parent = true) :
    ∀ p q, parent = some p → find objects p = some q → q.isFolder = true ∧ q.bucket = bucket := by
  rintro p q rfl found
  simpa [inside, found] using holds

theorem parseParent_ok {text : Option Text} (parsed : parseParent parse text = .ok parent) :
    parent = text.bind parse := by
  cases text with
  | none => simpa [parseParent] using parsed.symm
  | some text =>
    cases known : parse text with
    | none => simp [parseParent, known] at parsed
    | some target => simpa [parseParent, known] using parsed.symm

theorem createFolder_ok {input : CreateFolderInput}
    (ran : createFolder parse buckets objects permissions bucket input id = .ok next) :
    ∃ object : Object, object.id = id ∧ object.bucket = bucket ∧ object.parentId = input.parentId.bind parse ∧
      insertObject buckets objects object = .ok next := by
  simp only [createFolder, bind_eq_ok] at ran
  obtain ⟨_, _, ran⟩ := ran
  split at ran
  · simp at ran
  · simp only [bind_eq_ok] at ran
    obtain ⟨parent, parsed, inserted⟩ := ran
    exact ⟨_, rfl, rfl, parseParent_ok parsed, inserted⟩

theorem readPart_parent {row : Bucket} {upload result : Upload} {part : Part}
    (ran : readPart parse row storageLimit upload part = .ok result) :
    result.parent = partParent parse upload.parent part := by
  cases part with
  | parent text =>
    simp only [readPart] at ran
    by_cases empty : text.isEmpty
    · simp only [empty, if_true, Except.ok.injEq] at ran
      simp [partParent, empty, ran]
    · simp only [empty, Bool.false_eq_true, if_false] at ran
      cases parsed : parse text with
      | none => simp [parsed] at ran
      | some target =>
        simp only [parsed, Except.ok.injEq] at ran
        simp [partParent, empty, ← ran, parsed]
  | file fileName contentType chunks =>
    simp only [readPart] at ran
    split at ran
    · simp at ran
    · split at ran
      · cases read : readChunks storageLimit row.maxFileSize 0 chunks with
        | error e => simp [read, Except.map] at ran
        | ok size =>
          simp only [read, Except.map, Except.ok.injEq] at ran
          simp [partParent, ← ran]
      · simp at ran
  | other =>
    simp only [readPart, Except.ok.injEq] at ran
    simp [partParent, ran]

theorem readParts_parent {row : Bucket} {parts : List Part} {upload result : Upload}
    (ran : parts.foldlM (readPart parse row storageLimit) upload = .ok result) :
    result.parent = parts.foldl (partParent parse) upload.parent := by
  induction parts generalizing upload with
  | nil =>
    simp only [foldlM_nil, pure_eq_ok] at ran
    simp [ran]
  | cons part parts ih =>
    simp only [foldlM_cons, bind_eq_ok] at ran
    obtain ⟨middle, read, ran⟩ := ran
    rw [foldl_cons, ← readPart_parent read]
    exact ih ran

theorem uploadObject_ok {parts : List Part}
    (ran : uploadObject parse storageLimit buckets objects permissions bucket parts id = .ok next) :
    ∃ object : Object, object.id = id ∧ object.bucket = bucket ∧ object.parentId = partsParent parse parts ∧
      insertObject buckets objects object = .ok next := by
  simp only [uploadObject, bind_eq_ok] at ran
  obtain ⟨_, _, row, _, upload, read, ran⟩ := ran
  split at ran
  · simp at ran
  · split at ran
    · simp at ran
    · exact ⟨_, rfl, rfl, readParts_parent read, ran⟩

theorem fresh_spec (fresh : s.fresh parse id = true) :
    find s.objects id = none ∧ ∀ request ∈ s.requests, request.target parse ≠ some id := by
  simp only [State.fresh, Bool.and_eq_true, all_eq_true, bne_iff_ne] at fresh
  exact ⟨find_none.mpr fresh.1, fun request mem => (fresh.2 request mem).2⟩

theorem Inv.withRows (inv : Inv parse s) (sound : Sound next)
    (leaves : ∀ request ∈ s.requests, ∀ target, request.pending = some target → Leaves s.objects next target) :
    Inv parse { s with objects := next } :=
  ⟨sound, fun request mem => (inv.walked request mem).of_leaves (leaves request mem)⟩

theorem Inv.insert (inv : Inv parse s) {object : Object} (fresh : s.fresh parse object.id = true)
    (housed : object.bucket = bucket) (placed : object.parentId = parent)
    (welcomed : inside s.objects bucket parent = true)
    (inserted : insertObject s.buckets s.objects object = .ok next) :
    Inv parse { s with objects := next } := by
  obtain ⟨absent, unnamed⟩ := fresh_spec fresh
  obtain ⟨rfl, refersHere⟩ := insertObject_ok inserted
  subst housed placed
  apply inv.withRows (inv.sound.insert absent (inside_spec welcomed) refersHere)
  intro request mem target pending
  apply inv.sound.leaves_insert absent
  rintro rfl
  exact unnamed request mem ((inv.walked request mem).pending_target pending)

theorem Inv.delete (inv : Inv parse s) (ran : deleteObject s.objects permissions bucket id = .ok next) :
    Inv parse { s with objects := next } := by
  simp only [deleteObject, bind_eq_ok] at ran
  obtain ⟨_, _, ran⟩ := ran
  split at ran
  · rw [pure_eq_ok] at ran
    subst ran
    exact inv.withRows (inv.sound.delete id) fun _ _ target _ => inv.sound.leaves_delete id target
  · simp at ran

theorem Inv.withStage (inv : Inv parse s) {stage : Stage} (sound : Sound next)
    (others : ∀ other ∈ s.requests.eraseIdx index, Walked parse s.objects other → Walked parse next other)
    (walked : Walked parse next { request with stage }) :
    Inv parse { s with objects := next, requests := s.requests.set index { request with stage } } := by
  refine ⟨sound, fun other mem => ?_⟩
  obtain ⟨place, found⟩ := mem_iff_getElem?.mp mem
  rw [getElem?_set] at found
  split at found
  · split at found
    · cases found
      exact walked
    · simp at found
  · rename_i elsewhere
    have kept : other ∈ s.requests.eraseIdx index :=
      mem_eraseIdx_iff_getElem?.mpr ⟨place, fun same => elsewhere same.symm, found⟩
    exact others other kept (inv.walked other (mem_of_getElem? found))

theorem Sound.afterName (sound : Sound objects)
    (near : ∀ target, request.target parse = some target → above objects 100 target request.id = false) :
    Walked parse objects { request with stage := request.afterName parse } := by
  cases text : request.input.parentId with
  | none => simp [Walked, Request.afterName, text]
  | some text' =>
    by_cases nothing : (text'.isEmpty || text' == "null") = true
    · simp only [Walked, Request.afterName, text, nothing, if_true]
    · have something : (text'.isEmpty || text' == "null") = false := by simpa using nothing
      cases parsed : parse text' with
      | none => simp only [Walked, Request.afterName, text, something, Bool.false_eq_true, if_false, parsed]
      | some target =>
        have aimed : request.target parse = some target := by
          simp only [Request.target, text, Option.bind_some, something, Bool.false_eq_true, if_false, parsed]
        by_cases self : target = request.id
        · simp only [Walked, Request.afterName, text, something, Bool.false_eq_true, if_false, parsed, self, if_true]
        · simp only [Walked, Request.afterName, text, something, Bool.false_eq_true, if_false, parsed, self]
          refine ⟨aimed, .inr ?_⟩
          obtain ⟨path, ascends⟩ := sound.rooted target
          exact .inl ⟨[], path, ascends, by simp, ascends.head.symm, sound.mem_drop ascends (near target aimed)⟩

/-- An object moves to a folder, where its request has come to the end of its walk. -/
theorem Inv.move (inv : Inv parse s) (welcomed : welcome s.objects request.id (some target) = true)
    (apart : undisturbed s index request.id = true)
    (clear : ∀ path, refers s.objects (some target) = true → Ascends (parentOf s.objects) target path →
      request.id ∉ path) :
    Inv parse { s with
      objects := (finish s.objects (setParent s.objects request.id (some target))).1
      requests := s.requests.set index
        { request with stage := (finish s.objects (setParent s.objects request.id (some target))).2 } } := by
  cases ran : setParent s.objects request.id (some target) with
  | error e => exact inv.withStage inv.sound (fun _ _ => id) trivial
  | ok next =>
    rcases setParent_ok ran with rfl | ⟨o, found, refersHere, rfl⟩
    · exact inv.withStage inv.sound (fun _ _ => id) trivial
    · have welcomed : inside s.objects o.bucket (some target) = true := by simpa [welcome, found] using welcomed
      refine inv.withStage (inv.sound.move found refersHere (inside_spec welcomed) ?_) ?_ trivial
      · intro p path same ascends
        cases same
        exact clear path refersHere ascends
      · intro other mem walked
        apply walked.of_leaves
        intro start pending
        simp only [undisturbed, all_eq_true] at apart
        have away := apart other mem
        simp only [pending, Bool.not_eq_true'] at away
        exact leaves_move found fun path ascends => inv.sound.mem_drop ascends away

/-- An object becomes a root. -/
theorem Inv.uproot (inv : Inv parse s) :
    Inv parse { s with
      objects := (finish s.objects (setParent s.objects request.id none)).1
      requests := s.requests.set index
        { request with stage := (finish s.objects (setParent s.objects request.id none)).2 } } := by
  cases ran : setParent s.objects request.id none with
  | error e => exact inv.withStage inv.sound (fun _ _ => id) trivial
  | ok next =>
    rcases setParent_ok ran with rfl | ⟨o, found, refersHere, rfl⟩
    · exact inv.withStage inv.sound (fun _ _ => id) trivial
    · have here : parentOf (updateRow s.objects request.id (.under none)) request.id = none := by
        rw [parentOf_move found, if_pos rfl]
      have elsewhere : ∀ y, y ≠ request.id →
          parentOf (updateRow s.objects request.id (.under none)) y = parentOf s.objects y := by
        intro y other
        rw [parentOf_move found, if_neg other]
      refine inv.withStage (inv.sound.move found refersHere (by simp) (by simp)) ?_ trivial
      intro other _ walked
      apply walked.mono
      · intro target cursor left _ _ standing
        exact .inr (standing.cut here elsewhere)
      · intro target _ absent
        exact find_updateRow_none (fun o => o.under_id none) absent

theorem Walked.ended {cursor : Option Uuid} (walked : Walked parse objects request)
    (stage : request.stage = .walking target cursor left) (ended : cursor = none ∨ left = 0)
    (refersHere : refers objects (some target) = true) (ascends : Ascends (parentOf objects) target path) :
    request.id ∉ path := by
  simp only [Walked, stage] at walked
  rcases walked.2 with absent | ⟨seen, rest, other, unseen, head, unreached⟩ | ⟨other, rising, clear⟩
  · simp [refers, absent] at refersHere
  · rw [ascends.unique other, mem_append, not_or]
    refine ⟨unseen, ?_⟩
    rcases ended with rfl | rfl
    · obtain rfl : rest = [] := by simpa using head.symm
      simp
    · simpa using unreached
  · rw [ascends.unique rising]
    exact clear

theorem Walked.round {cursor : Uuid} (walked : Walked parse objects request)
    (stage : request.stage = .walking target (some cursor) (left + 1)) (other : cursor ≠ request.id) :
    Walked parse objects { request with stage := .walking target (parentOf objects cursor) left } := by
  simp only [Walked, stage] at walked ⊢
  refine ⟨walked.1, ?_⟩
  rcases walked.2 with absent | ⟨seen, rest, ascends, unseen, head, unreached⟩ | clear
  · exact .inl absent
  · cases rest with
    | nil => simp at head
    | cons first rest =>
      obtain rfl : cursor = first := by simpa using head
      refine .inr (.inl ⟨seen ++ [cursor], rest, by simpa using ascends, ?_, ascends.next, by simpa using unreached⟩)
      simpa using ⟨unseen, fun same => other same.symm⟩
  · exact .inr (.inr clear)

theorem Inv.advance (inv : Inv parse s) (present : s.requests[index]? = some request)
    (met : orderly parse s (.advance index) = true) :
    Inv parse { s with
      objects := (PlatformStorage.advance parse s.objects request).1
      requests := s.requests.set index
        { request with stage := (PlatformStorage.advance parse s.objects request).2 } } := by
  have walked := inv.walked request (mem_of_getElem? present)
  simp only [orderly, present] at met
  have idle : ∀ stage, (∀ target cursor left, stage ≠ .walking target cursor left) →
      Inv parse { s with requests := s.requests.set index { request with stage } } := by
    intro stage still
    apply inv.withStage inv.sound fun _ _ => id
    cases stage with
    | walking target cursor left => exact absurd rfl (still target cursor left)
    | found | rooting | answered _ | brokenOff => trivial
  cases stage : request.stage with
  | found =>
    simp only [stage] at met
    have near : ∀ target, request.target parse = some target → above s.objects 100 target request.id = false := by
      intro target aimed
      simpa [aimed] using met
    simp only [PlatformStorage.advance, stage]
    split
    · exact inv.withStage inv.sound (fun _ _ => id) (inv.sound.afterName near)
    · rename_i name _
      split
      · exact idle _ (by simp)
      · cases ran : setName s.objects request.id name with
        | error e => exact idle _ (by simp)
        | ok next =>
          rcases setName_ok ran with rfl | rfl
          · exact inv.withStage inv.sound (fun _ _ => id) (inv.sound.afterName near)
          · have sound : Sound (updateRow s.objects request.id (.named name)) := inv.sound.rename name
            apply inv.withStage sound fun _ _ walked => walked.of_leaves fun target _ => leaves_rename name target
            apply sound.afterName
            intro target aimed
            have same : parentOf (updateRow s.objects request.id (.named name)) = parentOf s.objects :=
              funext (parentOf_rename name)
            rw [above, same, updateRow, length_map]
            exact near target aimed
  | walking target cursor left =>
    cases left with
    | zero =>
      simp only [PlatformStorage.advance, stage]
      cases cursor with
      | none =>
        simp only [stage, Bool.and_eq_true] at met
        apply inv.move met.1 met.2
        intro path refersHere ascends
        exact walked.ended stage (.inl rfl) refersHere ascends
      | some cursor =>
        simp only [stage, Bool.and_eq_true] at met
        apply inv.move met.1 met.2
        intro path refersHere ascends
        exact walked.ended stage (.inr rfl) refersHere ascends
    | succ left =>
      cases cursor with
      | none =>
        simp only [PlatformStorage.advance, stage]
        simp only [stage, Bool.and_eq_true] at met
        apply inv.move met.1 met.2
        intro path refersHere ascends
        exact walked.ended stage (.inl rfl) refersHere ascends
      | some cursor =>
        simp only [PlatformStorage.advance, stage]
        by_cases here : cursor = request.id
        · rw [if_pos here]
          exact idle _ (by simp)
        · rw [if_neg here]
          exact inv.withStage inv.sound (fun _ _ => id) (walked.round stage here)
  | rooting =>
    simp only [PlatformStorage.advance, stage]
    exact inv.uproot
  | answered result =>
    simp only [PlatformStorage.advance, stage]
    exact idle _ (by simp)
  | brokenOff =>
    simp only [PlatformStorage.advance, stage]
    exact idle _ (by simp)

theorem Inv.step (inv : Inv parse s) {action : Action} {last : State}
    (stepped : s.step parse storageLimit action = some last) (met : orderly parse s action = true) :
    Inv parse last := by
  cases action with
  | createBucket permissions bucket =>
    simp only [State.step, Option.some.injEq] at stepped
    subst stepped
    cases PlatformStorage.createBucket s.buckets permissions bucket with
    | ok buckets => exact ⟨inv.sound, inv.walked⟩
    | error e => exact inv
  | deleteBucket permissions name =>
    simp only [State.step, Option.some.injEq] at stepped
    subst stepped
    cases PlatformStorage.deleteBucket s.buckets s.objects permissions name with
    | ok buckets => exact ⟨inv.sound, inv.walked⟩
    | error e => exact inv
  | createFolder permissions bucket input id =>
    simp only [State.step] at stepped
    split at stepped
    · rename_i fresh
      simp only [Option.some.injEq] at stepped
      subst stepped
      cases ran : PlatformStorage.createFolder parse s.buckets s.objects permissions bucket input id with
      | error e => exact inv
      | ok next =>
        obtain ⟨object, rfl, housed, placed, inserted⟩ := createFolder_ok ran
        exact inv.insert fresh housed placed met inserted
    · simp at stepped
  | upload permissions bucket parts id =>
    simp only [State.step] at stepped
    split at stepped
    · rename_i fresh
      simp only [Option.some.injEq] at stepped
      subst stepped
      cases ran : uploadObject parse storageLimit s.buckets s.objects permissions bucket parts id with
      | error e => exact inv
      | ok next =>
        obtain ⟨object, rfl, housed, placed, inserted⟩ := uploadObject_ok ran
        exact inv.insert fresh housed placed met inserted
    · simp at stepped
  | delete permissions bucket id =>
    simp only [State.step, Option.some.injEq] at stepped
    subst stepped
    cases ran : deleteObject s.objects permissions bucket id with
    | error e => exact inv
    | ok next => exact inv.delete ran
  | rename permissions bucket id input =>
    simp only [State.step, Option.some.injEq] at stepped
    subst stepped
    refine ⟨inv.sound, fun request mem => ?_⟩
    rcases mem_append.mp mem with old | new
    · exact inv.walked request old
    · obtain rfl := mem_singleton.mp new
      cases ran : renameObject s.objects permissions bucket id with
      | error e => trivial
      | ok stage =>
        simp only [renameObject, bind_eq_ok] at ran
        obtain ⟨_, _, ran⟩ := ran
        split at ran
        · rw [pure_eq_ok] at ran
          subst ran
          trivial
        · simp at ran
  | advance index =>
    simp only [State.step, Option.map_eq_some_iff] at stepped
    obtain ⟨request, present, rfl⟩ := stepped
    exact inv.advance present met
  | abandon index =>
    simp only [State.step, Option.map_eq_some_iff] at stepped
    obtain ⟨request, present, rfl⟩ := stepped
    exact inv.withStage inv.sound (fun _ _ => id) trivial

theorem Inv.start (buckets : List Bucket) : Inv parse (.start buckets) where
  sound :=
    { ids := by simp [State.start]
      parents := by simp [State.start]
      rooted := fun x => ⟨_, .root rfl⟩ }
  walked := by simp [State.start]

end Steps

end RootCx.PlatformStorage
