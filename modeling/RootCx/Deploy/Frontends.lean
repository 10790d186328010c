import RootCx.Lib.Paths

/-! # Serving frontends and unpacking archives

The file side of `routes/deploy.rs`.  A request names an application and a path,
both decoded from the URL, so each may hold any character.  What is served is read
from the disk; next to the response stands the location the content was read from.
-/

namespace RootCx.Deploy

open RootCx.Text RootCx.Paths List

abbrev Bytes := List UInt8

/-- The data directory, named by a text in a process that stands in `cwd`. -/
structure DataDir where
  cwd : Location
  path : Text
  -- there is such a directory
  sound : '\x00' ∉ path

structure Response where
  status : Nat
  headers : List (Text × Text)
  body : Bytes
  deriving DecidableEq, Repr

def notFoundBody : Bytes := "not found".toUTF8.toList

def notFound : Response :=
  ⟨404, [("content-type", "text/plain"), ("cache-control", "no-cache")], notFoundBody⟩

/-- `content_type`, by the extension. -/
def CONTENT_TYPES : List (Text × Text) :=
  [("html", "text/html; charset=utf-8"), ("js", "application/javascript; charset=utf-8"),
    ("mjs", "application/javascript; charset=utf-8"), ("css", "text/css; charset=utf-8"),
    ("json", "application/json; charset=utf-8"), ("svg", "image/svg+xml"), ("png", "image/png"),
    ("jpg", "image/jpeg"), ("jpeg", "image/jpeg"), ("gif", "image/gif"), ("webp", "image/webp"),
    ("woff2", "font/woff2"), ("woff", "font/woff"), ("ttf", "font/ttf"), ("ico", "image/x-icon"),
    ("wasm", "application/wasm"), ("map", "application/json")].map fun (ext, ty) => (ext.toList, ty.toList)

def contentType (path : Text) : Text :=
  ((extension path).bind fun ext => CONTENT_TYPES.lookup ext).getD "application/octet-stream"

def frontendDir (data : DataDir) (app : Text) : Text := pathJoin (pathJoin data.path "frontends") app

def indexPath (data : DataDir) (app : Text) : Text := pathJoin (frontendDir data app) "index.html"

section Serve

-- what the platform adds to a page
variable (configured : Bytes → Text → Bytes)

/-- `serve_frontend`; the root of an application is its empty path. -/
def serveFrontend (disk : Disk Bytes) (data : DataDir) (app path : Text) : Response × Option Location :=
  if Component.parentDir ∈ components path then (notFound, none)
  else
    let requested := pathJoin (frontendDir data app) path
    let isAsset := (fileAt disk data.cwd requested).isSome
    let filePath := if isAsset then requested else indexPath data app
    match fileAt disk data.cwd filePath with
    | none => (notFound, none)
    | some (location, bytes) =>
      -- paths are compared by their components
      let body := if components filePath = components (indexPath data app) then configured bytes app else bytes
      let cache := if extension filePath = some "html".toList then "no-store"
        else if isAsset then "public, max-age=31536000, immutable"
        else "no-cache"
      (⟨200, [("content-type", contentType filePath), ("cache-control", cache)], body⟩, some location)

-- the tokens of shares, and what is taken out of a page
variable (resolveAppId : Text → Option Text) (withoutLegacy : Bytes → Text → Bytes)

def robots : Text × Text := ("x-robots-tag", "noindex, nofollow")

def shareNotFound : Response := ⟨404, [robots, ("content-type", "text/plain")], notFoundBody⟩

/-- `serve_share_frontend`. -/
def serveShareFrontend (disk : Disk Bytes) (data : DataDir) (token : Text) : Response × Option Location :=
  match resolveAppId token with
  | none => (shareNotFound, none)
  | some app =>
    match fileAt disk data.cwd (indexPath data app) with
    | none => (shareNotFound, none)
    | some (location, bytes) =>
      (⟨200, [robots, ("content-type", "text/html; charset=utf-8"),
        ("cache-control", "private, no-store")], withoutLegacy bytes app⟩, some location)

end Serve

/-! ## Archives -/

inductive ApiError where
  | internal (message : Text)
  | badRequest (message : Text)
  deriving DecidableEq, Repr

section Unpack

-- the path of an entry, and what writing it under a directory does on the disk
variable {Entry : Type} (entryPath : Entry → Except Text Text)
  (unpackIn : Text → Entry → Except Text Unit × List Location)

def tarErr (message : Text) : ApiError := .internal ("extract archive: " ++ message)

/-- The loop of `safe_unpack`, with all the files that were written. -/
def unpackEntries (dest : Text) : List (Except Text Entry) → Except ApiError Unit × List Location
  | [] => (.ok (), [])
  | .error message :: _ => (.error (tarErr message), [])
  | .ok entry :: rest =>
    match entryPath entry with
    | .error message => (.error (tarErr message), [])
    | .ok path =>
      if isAbsolute path || decide (Component.parentDir ∈ components path) then
        (.error (.badRequest ("unsafe archive entry: " ++ path)), [])
      else
        match unpackIn dest entry with
        | (.error message, written) => (.error (tarErr message), written)
        | (.ok (), written) =>
          let (result, others) := unpackEntries dest rest
          (result, written ++ others)

def safeUnpack (dest : Text) : Except Text (List (Except Text Entry)) → Except ApiError Unit × List Location
  | .error message => (.error (tarErr message), [])
  | .ok entries => unpackEntries entryPath unpackIn dest entries

end Unpack

/-! ## Containment -/

/-- Strictly below a directory. -/
def Below (directory location : Location) : Prop := ∃ rest, rest ≠ [] ∧ location = directory ++ rest

/-- The entry of `frontends` that has the application's id as its name. -/
def home (data : DataDir) (app : Text) : Location := landing data.cwd data.path ++ ["frontends".toList, app]

/-- The id is one name, so that there can be an entry of this name. -/
def Plain (app : Text) : Prop := isName app ∧ '/' ∉ app

instance (app : Text) : Decidable (Plain app) := inferInstanceAs (Decidable (_ ∧ _))

/-- The text can name a file. -/
def Named (path : Text) : Prop := '\x00' ∉ path ∧ ∃ last, (segments path).getLast? = some last ∧ isName last

/-- Nothing can be read under the id, or it is one name; and the path is relative,
    unless what it names is a file of the application. -/
def Inside (data : DataDir) (app path : Text) : Prop :=
  ('\x00' ∈ app ∨ Plain app) ∧
    (isAbsolute path = true → Named path → Below (home data app) (landing data.cwd path))

variable {app : Text} {data : DataDir}

theorem isAbsolute_plain (plain : '/' ∉ app) : isAbsolute app = false := by
  cases app with
  | nil => rfl
  | cons c rest =>
    rw [mem_cons, not_or] at plain
    exact beq_eq_false_iff_ne.mpr fun same => plain.1 (Option.some.inj same).symm

theorem landing_indexPath (data : DataDir) (app : Text) :
    landing data.cwd (indexPath data app) = landing data.cwd (frontendDir data app) ++ ["index.html".toList] := by
  rw [indexPath, landing_join _ _ rfl]
  rfl

theorem indexPath_named (sound : '\x00' ∉ app) : Named (indexPath data app) := by
  constructor
  · intro null
    obtain inDir | slash | index := mem_pathJoin null
    · obtain inData | slash | inApp := mem_pathJoin inDir
      · obtain inBase | slash | frontends := mem_pathJoin inData
        · exact data.sound inBase
        · exact absurd slash (by decide)
        · exact absurd frontends (by decide)
      · exact absurd slash (by decide)
      · exact sound inApp
    · exact absurd slash (by decide)
    · exact absurd index (by decide)
  · refine ⟨"index.html", ?_, by decide⟩
    rw [indexPath, segments_join_last _ rfl]
    rfl

/-- A text with the application's id in it can be read only if the id holds no
    NUL. -/
theorem app_sound {path : Text} (relative : isAbsolute path = false)
    (sound : '\x00' ∉ pathJoin (frontendDir data app) path) : '\x00' ∉ app := fun null =>
  sound (mem_pathJoin_left relative (mem_pathJoin_right null))

/-! ### Links -/

/-- The directory of an application may be a link, and what it leads to may hold links that
    stay below it; there are no others. -/
structure Sheltered (disk : Disk Bytes) (data : DataDir) (app : Text) : Prop where
  straight : ∀ location, location ≠ home data app → ¬disk.real (home data app) <+: location → disk.real location = location
  inside : ∀ location name, disk.real (home data app) <+: location →
    Below (disk.real (home data app)) (disk.real (location ++ [name]))
  apart : ¬disk.real (home data app) <+: landing data.cwd data.path ++ ["frontends".toList]
  dataDir : locate disk.real data.cwd data.path = landing data.cwd data.path

/-- A disk without links. -/
theorem sheltered_id (data : DataDir) (app : Text) {disk : Disk Bytes} (noLinks : disk.real = id) : Sheltered disk data app := by
  rw [show disk = ⟨id, disk.content⟩ by rw [← noLinks]]
  refine ⟨fun _ _ _ => rfl, fun location name within => ?_, fun within => ?_, rfl⟩
  · obtain ⟨rest, rfl⟩ := within
    exact ⟨rest ++ [name], by simp, append_assoc ..⟩
  · have longer := within.length_le
    simp [home] at longer

namespace Sheltered

variable {disk : Disk Bytes} {path : Text} {names : List Text}

theorem below_descend (sheltered : Sheltered disk data app) (visible : names ≠ []) :
    Below (disk.real (home data app)) (descend disk.real (disk.real (home data app)) names) := by
  have step (front : List Text) (name : Text)
      (within : disk.real (home data app) <+: descend disk.real (disk.real (home data app)) front) :
      Below (disk.real (home data app)) (descend disk.real (disk.real (home data app)) (front ++ [name])) := by
    rw [descend, foldl_append]
    exact sheltered.inside _ name within
  have reached (front : List Text) : disk.real (home data app) <+: descend disk.real (disk.real (home data app)) front := by
    induction front using reverseRecOn with
    | nil => exact prefix_rfl
    | append_singleton front name ih =>
      obtain ⟨rest, -, same⟩ := step front name ih
      exact ⟨rest, same.symm⟩
  obtain ⟨front, name, rfl⟩ := eq_nil_or_concat names |>.resolve_left visible
  rw [concat_eq_append]
  exact step front name (reached front)

theorem real_before (sheltered : Sheltered disk data app) {front : Location}
    (within : front <+: landing data.cwd data.path ++ ["frontends".toList]) : disk.real front = front := by
  refine sheltered.straight front ?_ fun covered => sheltered.apart (covered.trans within)
  rintro rfl
  have longer := within.length_le
  simp [home] at longer

theorem locate_frontendDir (sheltered : Sheltered disk data app) (plain : Plain app) :
    locate disk.real data.cwd (frontendDir data app) = disk.real (home data app) := by
  have single : segments app = [app] := splitOn_eq_singleton plain.2
  have frontends : segments "frontends".toList = ["frontends".toList] := by decide
  have one {at_ : Location} {name : Text} (named : isName name) : walk disk.real at_ [name] = disk.real (at_ ++ [name]) := by
    show enter disk.real at_ name = _
    rw [enter, if_neg (not_or.mpr ⟨named.1, named.2.1⟩), if_neg named.2.2]
  rw [frontendDir, locate_join _ _ _ (isAbsolute_plain plain.2), locate_join _ _ _ rfl, single, frontends, sheltered.dataDir,
    one (by decide : isName "frontends".toList), sheltered.real_before prefix_rfl, one plain.1, append_assoc]
  rfl

theorem below_index (sheltered : Sheltered disk data app) (plain : Plain app) :
    Below (disk.real (home data app)) (locate disk.real data.cwd (indexPath data app)) := by
  have down : "..".toList ∉ segments "index.html".toList := by decide
  rw [indexPath, locate_join _ _ _ rfl, sheltered.locate_frontendDir plain, walk_down _ _ _ down]
  exact sheltered.below_descend (by decide)

/-- An absolute path goes down through the application's directory. -/
theorem below_absolute (sheltered : Sheltered disk data app) (absolute : isAbsolute path = true)
    (down : "..".toList ∉ segments path) (below : Below (home data app) (landing data.cwd path)) :
    Below (disk.real (home data app)) (locate disk.real data.cwd path) := by
  obtain ⟨rest, visible, same⟩ := below
  have flat (names : List Text) : descend id [] names = names := descend_straight fun _ _ _ => rfl
  rw [landing, locate, if_pos absolute, walk_down _ _ _ down, flat] at same
  have front : descend disk.real [] (landing data.cwd data.path ++ ["frontends".toList]) =
      landing data.cwd data.path ++ ["frontends".toList] := descend_straight fun front _ within => sheltered.real_before within
  have split : home data app ++ rest = (landing data.cwd data.path ++ ["frontends".toList]) ++ ([app] ++ rest) := by
    simp [home]
  rw [locate, if_pos absolute, walk_down _ _ _ down, same, split, descend, foldl_append]
  show Below _ (descend disk.real (descend disk.real [] (landing data.cwd data.path ++ ["frontends".toList])) ([app] ++ rest))
  rw [front, descend, foldl_append]
  have entered : landing data.cwd data.path ++ ["frontends".toList] ++ [app] = home data app := by simp [home]
  show Below _ (descend disk.real (disk.real (landing data.cwd data.path ++ ["frontends".toList] ++ [app])) rest)
  rw [entered]
  exact sheltered.below_descend visible

end Sheltered

section Serve

variable {configured : Bytes → Text → Bytes} {disk : Disk Bytes} {data : DataDir} {app path : Text}

theorem serveFrontend_location {location : Location}
    (served : (serveFrontend configured disk data app path).2 = some location) :
    Component.parentDir ∉ components path ∧
      ∃ text ∈ [pathJoin (frontendDir data app) path, indexPath data app],
        ∃ content, fileAt disk data.cwd text = some (location, content) := by
  unfold serveFrontend at served
  split at served
  · cases served
  rename_i accepted
  refine ⟨accepted, ?_⟩
  dsimp only at served
  split at served
  · cases served
  · rename_i found
    cases served
    refine ⟨_, ?_, _, found⟩
    split <;> simp

/-- A file that is there is served, in place of the index. -/
theorem serveFrontend_only {only : Location} (accepted : Component.parentDir ∉ components path)
    (alone : ∀ location content, disk.content location = some content → location = only)
    (found : ∃ text ∈ [pathJoin (frontendDir data app) path, indexPath data app],
      ∃ content, fileAt disk data.cwd text = some (only, content)) :
    (serveFrontend configured disk data app path).2 = some only := by
  have served {text : Text} {location : Location} {content : Bytes}
      (here : fileAt disk data.cwd text = some (location, content)) : location = only :=
    alone location content (fileAt_eq_some.mp here).2.2.2
  rw [serveFrontend, if_neg accepted]
  dsimp only
  cases requested : fileAt disk data.cwd (pathJoin (frontendDir data app) path) with
  | some found =>
    obtain ⟨location, content⟩ := found
    obtain rfl := served requested
    simp only [Option.isSome_some, if_true, requested]
  | none =>
    -- so it is the index that is there
    obtain ⟨text, mem, content, here⟩ := found
    rw [mem_pair] at mem
    obtain rfl | rfl := mem
    · exact nomatch requested.symm.trans here
    · simp only [Option.isSome_none, Bool.false_eq_true, if_false, here]

/-- Containment on every disk whose links stay inside, in one application: below where its
    directory leads. -/
def Contained (configured : Bytes → Text → Bytes) (data : DataDir) (app path : Text) : Prop :=
  ∀ disk : Disk Bytes, Sheltered disk data app → ∀ location,
    (serveFrontend configured disk data app path).2 = some location → Below (disk.real (home data app)) location

theorem contained_of_inside (inside : Inside data app path) : Contained configured data app path := by
  intro disk sheltered location served
  obtain ⟨accepted, text, mem, content, found⟩ := serveFrontend_location served
  obtain ⟨sound, last, rfl, -⟩ := fileAt_eq_some.mp found
  have down : "..".toList ∉ segments path := fun parent => accepted (parentDir_mem_components.mpr parent)
  have plain (relative : '\x00' ∉ app) : Plain app := inside.1.resolve_left relative
  rw [mem_pair] at mem
  obtain rfl | rfl := mem
  · by_cases absolute : isAbsolute path = true
    · rw [pathJoin, if_pos absolute] at sound last ⊢
      exact sheltered.below_absolute absolute down (inside.2 absolute ⟨sound, last⟩)
    · have relative := eq_false_of_ne_true absolute
      rw [locate_join _ _ _ relative, sheltered.locate_frontendDir (plain (app_sound relative sound)), walk_down _ _ _ down]
      obtain ⟨name, ends, named⟩ := last
      rw [segments_join_last _ relative] at ends
      exact sheltered.below_descend (ne_nil_of_mem (mem_filter.mpr ⟨mem_of_getLast? ends, decide_eq_true named⟩))
  · exact sheltered.below_index (plain (app_sound rfl sound))

/-- The disk that holds one file. -/
def lone (only : Location) : Disk Bytes := ⟨id, fun location => if location = only then some [] else none⟩

theorem lone_found {cwd : Location} {text : Text} (named : Named text) :
    fileAt (lone (landing cwd text)) cwd text = some (landing cwd text, []) :=
  fileAt_eq_some.mpr ⟨named.1, named.2, rfl, if_pos rfl⟩

theorem lone_alone {only location : Location} {content : Bytes}
    (held : (lone only).content location = some content) : location = only := by
  by_contra other
  rw [lone] at held
  simp only [if_neg other] at held
  cases held

theorem Contained.below (contained : Contained configured data app path)
    (accepted : Component.parentDir ∉ components path) {text : Text} (named : Named text)
    (mem : text ∈ [pathJoin (frontendDir data app) path, indexPath data app]) :
    Below (home data app) (landing data.cwd text) :=
  contained (lone (landing data.cwd text)) (sheltered_id data app rfl) _
    (serveFrontend_only accepted (fun _ _ => lone_alone) ⟨text, mem, [], lone_found named⟩)

/-- The directory of an id: a front of the data directory's `frontends`, with
    segments of the id behind it. -/
theorem landing_frontendDir_names (data : DataDir) (app : Text) :
    ∃ front entered, landing data.cwd (frontendDir data app) = front ++ entered ∧
      front.length ≤ (landing data.cwd data.path).length + 1 ∧ ∀ name ∈ entered, Plain name := by
  have plain {entered : List Text} (names : ∀ name ∈ entered, name ∈ segments app ∧ isName name) :
      ∀ name ∈ entered, Plain name := fun name mem =>
    ⟨(names name mem).2, not_slash_of_mem_segments (names name mem).1⟩
  by_cases absolute : isAbsolute app = true
  · obtain ⟨kept, entered, passed, names⟩ := walk_names [] (segments app)
    refine ⟨[], entered, ?_, Nat.zero_le _, plain names⟩
    rw [frontendDir, pathJoin, if_pos absolute, landing, locate, if_pos absolute, passed, take_nil]
  · have relative := eq_false_of_ne_true absolute
    have frontends : segments "frontends".toList = ["frontends".toList] := by decide
    obtain ⟨kept, entered, passed, names⟩ :=
      walk_names (landing data.cwd data.path ++ ["frontends".toList]) (segments app)
    refine ⟨(landing data.cwd data.path ++ ["frontends".toList]).take kept, entered, ?_, ?_, plain names⟩
    · rw [frontendDir, landing_join _ _ relative, landing_join _ _ rfl, frontends,
        walk_name (by decide : isName "frontends".toList), passed]
    · rw [length_take, length_append, length_singleton]
      omega

theorem plain_of_below (below : Below (home data app) (landing data.cwd (indexPath data app))) : Plain app := by
  obtain ⟨rest, -, same⟩ := below
  obtain ⟨front, entered, landed, short, plain⟩ := landing_frontendDir_names data app
  rw [landing_indexPath, landed, home] at same
  -- the id stands behind `frontends`, and all that is there was entered
  have named : (front ++ (entered ++ ["index.html".toList]))[(landing data.cwd data.path).length + 1]? = some app := by
    rw [← append_assoc, same]
    simp
  rw [getElem?_append_right short] at named
  obtain inside | index := mem_append.mp (mem_of_getElem? named)
  · exact plain app inside
  · obtain rfl := mem_singleton.mp index
    decide

theorem inside_of_contained (contained : Contained configured data app path)
    (accepted : Component.parentDir ∉ components path) : Inside data app path := by
  constructor
  · by_contra neither
    rw [not_or] at neither
    exact neither.2 (plain_of_below (contained.below accepted (indexPath_named neither.1) (by simp)))
  · intro absolute named
    have joined : pathJoin (frontendDir data app) path = path := if_pos absolute
    exact contained.below accepted named (by simp [joined])

/-! ## Shares -/

variable {resolveAppId : Text → Option Text} {withoutLegacy : Bytes → Text → Bytes}

/-- The same for what is served under the token of a share. -/
def ShareContained (resolveAppId : Text → Option Text) (withoutLegacy : Bytes → Text → Bytes) (data : DataDir)
    (token app : Text) : Prop :=
  ∀ disk : Disk Bytes, Sheltered disk data app → ∀ location,
    (serveShareFrontend resolveAppId withoutLegacy disk data token).2 = some location → Below (disk.real (home data app)) location

theorem shareContained_iff {token : Text} (resolved : resolveAppId token = some app) :
    ShareContained resolveAppId withoutLegacy data token app ↔ '\x00' ∈ app ∨ Plain app := by
  have served (disk : Disk Bytes) (location : Location) :
      (serveShareFrontend resolveAppId withoutLegacy disk data token).2 = some location ↔
        ∃ content, fileAt disk data.cwd (indexPath data app) = some (location, content) := by
    rw [serveShareFrontend, resolved]
    dsimp only
    cases fileAt disk data.cwd (indexPath data app) with
    | none => simp
    | some found => simp [eq_comm, Prod.ext_iff]
  constructor
  · intro contained
    by_contra neither
    rw [not_or] at neither
    exact neither.2 (plain_of_below (contained (lone _) (sheltered_id data app rfl) _
      ((served _ _).mpr ⟨[], lone_found (indexPath_named neither.1)⟩)))
  · intro inside disk sheltered location read
    obtain ⟨content, found⟩ := (served disk location).mp read
    obtain ⟨sound, -, rfl, -⟩ := fileAt_eq_some.mp found
    exact sheltered.below_index (inside.resolve_left (app_sound rfl sound))

end Serve

/-! ## Unpacking -/

section Unpack

variable {Entry : Type} {entryPath : Entry → Except Text Text}
  {unpackIn : Text → Entry → Except Text Unit × List Location} {dest : Text} {directory : Location}

/-- Where the library writes below the directory, so does the loop, whether it
    ends well or not. -/
theorem unpackEntries_below (inside : ∀ entry, ∀ location ∈ (unpackIn dest entry).2, Below directory location) :
    ∀ entries, ∀ location ∈ (unpackEntries entryPath unpackIn dest entries).2, Below directory location
  | [], _, mem => nomatch mem
  | .error message :: rest, location, mem => nomatch mem
  | .ok entry :: rest, location, mem => by
    rw [unpackEntries] at mem
    cases named : entryPath entry with
    | error message =>
      rw [named] at mem
      cases mem
    | ok path =>
      rw [named] at mem
      dsimp only at mem
      split at mem
      · cases mem
      · have written := inside entry
        cases unpacked : unpackIn dest entry with
        | mk result files =>
          rw [unpacked] at mem written
          cases result with
          | error message => exact written location mem
          | ok done =>
            obtain here | later := mem_append.mp mem
            · exact written location here
            · exact unpackEntries_below inside rest location later

end Unpack

/-- What is served is read where the application's own directory leads exactly for the
    requests that name a parent segment, which are refused, and for those inside;
    a share needs an id that is one name; and an archive is unpacked below its
    destination, as far as the library does so. -/
theorem frontends_contained (configured withoutLegacy : Bytes → Text → Bytes) (data : DataDir) :
    (∀ app path, Contained configured data app path ↔ "..".toList ∈ segments path ∨ Inside data app path) ∧
    (∀ resolveAppId token app, resolveAppId token = some app →
      (ShareContained resolveAppId withoutLegacy data token app ↔ '\x00' ∈ app ∨ Plain app)) ∧
    ∀ {Entry : Type} (entryPath : Entry → Except Text Text)
      (unpackIn : Text → Entry → Except Text Unit × List Location) (dest : Text),
      (∀ entry, ∀ location ∈ (unpackIn dest entry).2, Below (landing data.cwd dest) location) →
      ∀ archive, ∀ location ∈ (safeUnpack entryPath unpackIn dest archive).2, Below (landing data.cwd dest) location := by
  refine ⟨fun app path => ?_, fun _ _ _ => shareContained_iff, fun entryPath unpackIn dest inside archive => ?_⟩
  · rw [← parentDir_mem_components]
    constructor
    · intro contained
      by_cases refused : Component.parentDir ∈ components path
      · exact .inl refused
      · exact .inr (inside_of_contained contained refused)
    · rintro (refused | inside)
      · intro disk _ location served
        exact absurd refused (serveFrontend_location served).1
      · exact contained_of_inside inside
  · cases archive with
    | error message => exact fun _ member => nomatch member
    | ok entries => exact unpackEntries_below inside entries

def dataDir : DataDir := ⟨[], "/data", by decide⟩

theorem frontends_contained_demo :
    Contained (fun bytes _ => bytes) dataDir "demo".toList "assets/app.js".toList ∧
      ShareContained (fun _ => some "demo".toList) (fun bytes _ => bytes) dataDir "token".toList "demo".toList ∧
      ∀ location ∈ (safeUnpack Except.ok (fun dest path => (.ok (), [landing [] dest ++ [path]])) "/data/x".toList
        (.ok [.ok "a".toList, .ok "../b".toList])).2, Below (landing dataDir.cwd "/data/x".toList) location := by
  obtain ⟨serve, share, unpack⟩ := frontends_contained (fun bytes _ => bytes) (fun bytes _ => bytes) dataDir
  refine ⟨(serve _ _).mpr (.inr ⟨.inr (by decide), fun absolute => nomatch absolute⟩),
    (share _ _ _ rfl).mpr (.inr (by decide)), unpack Except.ok _ _ ?_ _⟩
  intro entry location written
  obtain rfl := List.mem_singleton.mp written
  exact ⟨_, List.cons_ne_nil _ _, rfl⟩

/-- An absolute path takes the place of the directory: with `/apps/demo/%2Fetc%2Fpasswd`
    a file outside is served. -/
theorem serve_absolute : ¬Contained (fun bytes _ => bytes) dataDir "demo".toList "/etc/passwd".toList := by
  intro contained
  obtain ⟨rest, -, same⟩ := contained (lone ["etc".toList, "passwd".toList]) (sheltered_id _ _ rfl)
    ["etc".toList, "passwd".toList] (by decide +kernel)
  exact absurd (List.cons.inj same).1 (by decide)

-- the id is joined without any test: `/apps/%2e%2e/config/master.key`
example : ¬Contained (fun bytes _ => bytes) dataDir "..".toList "config/master.key".toList := by
  intro contained
  obtain ⟨rest, -, same⟩ := contained (lone ["data".toList, "config".toList, "master.key".toList]) (sheltered_id _ _ rfl)
    ["data".toList, "config".toList, "master.key".toList] (by decide +kernel)
  exact absurd (cons.inj (cons.inj same).2).1 (by decide)

end RootCx.Deploy
