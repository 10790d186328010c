import RootCx.Authority.Perms
import RootCx.Lib.Except
import RootCx.Lib.Forest
import RootCx.Lib.Lookup
import RootCx.Lib.Runs

/-! # Folders and files of platform storage

`extensions/platform_storage/mod.rs` keeps folders and files in one table whose rows
point to their parent.  Creating, uploading and deleting are one statement each.
`rename_object` is several, outside of a transaction: it looks for the object, renames it,
walks up from the target of a move and then sets the parent, and the statements of other
requests may fall between any two of them.

Content, sizes and the other columns that no statement here reads are left out.
-/

namespace RootCx.PlatformStorage

open RootCx.Text RootCx.Authority

abbrev Uuid := Nat

/-- The answers of `api_error::ApiError` that the handlers give. -/
inductive ApiError where
  | badRequest (message : Text)
  | notFound (message : Text)
  | forbidden (message : Text)
  | conflict (message : Text)
  deriving DecidableEq, Repr

def checkStoragePerm (permissions : List Text) (bucket action : Text) : Except ApiError Unit :=
  let specific := "storage:" ++ bucket ++ ":" ++ action
  let everywhere := "storage:" ++ action
  if hasPermission permissions specific || hasPermission permissions everywhere then .ok ()
  else .error (.forbidden ("permission denied: " ++ everywhere))

/-- `str::trim_end_matches` for a pattern, in at most so many rounds. -/
def trimEndMatches (pattern : Text) : Nat → Text → Text
  | 0, text => text
  | rounds + 1, text =>
    match text.dropSuffix? pattern with
    | some front => trimEndMatches pattern rounds front
    | none => text

def contentTypeAllowed (allowedTypes : Option (List Text)) (contentType : Text) : Bool :=
  match allowedTypes with
  | none => true
  | some types =>
    types.isEmpty || types.any fun allowed =>
      if "/*".toList.isSuffixOf allowed then
        (trimEndMatches "/*" allowed.length allowed).isPrefixOf contentType
      else contentType == allowed

/-! ## The tables -/

structure Bucket where
  name : Text
  maxFileSize : Option Int
  allowedTypes : Option (List Text)
  deriving DecidableEq, Repr

structure Object where
  id : Uuid
  bucket : Text
  parentId : Option Uuid
  name : Text
  isFolder : Bool
  deriving DecidableEq, Repr

def find (objects : List Object) (id : Uuid) : Option Object := objects.find? fun o => decide (o.id = id)

def parentOf (objects : List Object) (id : Uuid) : Option Uuid := (find objects id).bind Object.parentId

/-- `UNIQUE(bucket, parent_id, name)`, with the index on the names without a parent. -/
def taken (objects : List Object) (self : Uuid) (bucket : Text) (parent : Option Uuid) (name : Text) : Bool :=
  objects.any fun o => o.id != self && o.bucket == bucket && o.parentId == parent && o.name == name

/-- The foreign key on the parent. -/
def refers (objects : List Object) (parent : Option Uuid) : Bool :=
  match parent with
  | none => true
  | some p => (find objects p).isSome

/-- `INSERT INTO storage_objects`; the uniqueness of the name is checked before the
    foreign keys. -/
def insertObject (buckets : List Bucket) (objects : List Object) (object : Object) :
    Except ApiError (List Object) :=
  if taken objects object.id object.bucket object.parentId object.name then
    .error (.badRequest ("'" ++ object.name ++ "' already exists in this folder"))
  else if buckets.any (·.name == object.bucket) && refers objects object.parentId then .ok (objects ++ [object])
  else .error (.notFound "parent folder not found")

/-- The rows whose parent is there. -/
def sweep (objects : List Object) : List Object := objects.filter fun o => refers objects o.parentId

/-- `ON DELETE CASCADE`: rows without their parent go, and then theirs. -/
def cascade : Nat → List Object → List Object
  | 0, objects => objects
  | rounds + 1, objects => cascade rounds (sweep objects)

def deleteRow (objects : List Object) (id : Uuid) : List Object :=
  cascade objects.length (objects.filter (·.id != id))

def updateRow (objects : List Object) (id : Uuid) (change : Object → Object) : List Object :=
  objects.map fun o => if o.id = id then change o else o

def Object.named (name : Text) (o : Object) : Object := { o with name }

def Object.under (parent : Option Uuid) (o : Object) : Object := { o with parentId := parent }

/-! ## Creating, uploading and deleting -/

section Handlers

-- `Uuid::parse_str`
variable (parse : Text → Option Uuid)

structure CreateFolderInput where
  name : Text
  parentId : Option Text

def parseParent : Option Text → Except ApiError (Option Uuid)
  | none => .ok none
  | some text =>
    match parse text with
    | none => .error (.badRequest "invalid parent_id")
    | some parent => .ok (some parent)

def createFolder (buckets : List Bucket) (objects : List Object) (permissions : List Text) (bucket : Text)
    (input : CreateFolderInput) (id : Uuid) : Except ApiError (List Object) := do
  checkStoragePerm permissions bucket "write"
  if input.name.isEmpty then throw (.badRequest "folder name required")
  let parent ← parseParent parse input.parentId
  insertObject buckets objects ⟨id, bucket, parent, input.name, true⟩

/-- One field of an upload: the parent, a file with the sizes of its chunks, or another
    one. -/
inductive Part where
  | parent (text : Text)
  | file (fileName contentType : Text) (chunks : List Nat)
  | other

structure Upload where
  file : Option (Text × Nat)
  parent : Option Uuid

/-- The chunks of a file against the two limits. -/
def readChunks (storageLimit : Nat) (maxSize : Option Int) : Nat → List Nat → Except ApiError Nat
  | size, [] => .ok size
  | size, chunk :: rest =>
    if size + chunk > storageLimit then
      .error (.badRequest ("file exceeds storage limit (" ++ (toString storageLimit).toList ++ " bytes)"))
    else match maxSize with
      | some max =>
        if (size + chunk : Int) > max then
          .error (.badRequest ("file exceeds bucket limit (" ++ (toString max).toList ++ " bytes)"))
        else readChunks storageLimit maxSize (size + chunk) rest
      | none => readChunks storageLimit maxSize (size + chunk) rest

def readPart (bucket : Bucket) (storageLimit : Nat) (upload : Upload) : Part → Except ApiError Upload
  | .parent text =>
    if text.isEmpty then .ok upload
    else match parse text with
      | none => .error (.badRequest "invalid parent_id")
      | some parent => .ok { upload with parent := some parent }
  | .file fileName contentType chunks =>
    if upload.file.isSome then .error (.badRequest "only one file field allowed")
    else if contentTypeAllowed bucket.allowedTypes contentType then
      (readChunks storageLimit bucket.maxFileSize 0 chunks).map fun size => { upload with file := some (fileName, size) }
    else .error (.badRequest
      ("content type '" ++ contentType ++ "' not allowed in bucket '" ++ bucket.name ++ "'"))
  | .other => .ok upload

def uploadObject (storageLimit : Nat) (buckets : List Bucket) (objects : List Object) (permissions : List Text)
    (bucket : Text) (parts : List Part) (id : Uuid) : Except ApiError (List Object) := do
  checkStoragePerm permissions bucket "write"
  let row ← ((buckets.find? (·.name == bucket)).elim
    (.error (.notFound ("bucket '" ++ bucket ++ "'"))) .ok : Except ApiError Bucket)
  let upload ← parts.foldlM (readPart parse row storageLimit) ⟨none, none⟩
  match upload.file with
  | none => throw (.badRequest "no file field")
  | some (fileName, size) =>
    if size = 0 then throw (.badRequest "empty file")
    insertObject buckets objects ⟨id, bucket, upload.parent, fileName, false⟩

def createBucket (buckets : List Bucket) (permissions : List Text) (input : Bucket) :
    Except ApiError (List Bucket) := do
  checkStoragePerm permissions "*" "admin"
  if input.name.isEmpty || input.name.length > 63 ||
      !input.name.all (fun c => c.isAlphanum || c == '-' || c == '_') then
    throw (.badRequest "bucket name must be 1-63 chars, alphanumeric/dash/underscore")
  if buckets.any (·.name == input.name) then
    throw (.badRequest ("bucket '" ++ input.name ++ "' already exists"))
  pure (buckets ++ [input])

def deleteBucket (buckets : List Bucket) (objects : List Object) (permissions : List Text) (name : Text) :
    Except ApiError (List Bucket) := do
  checkStoragePerm permissions "*" "admin"
  if name == "default" then throw (.badRequest "cannot delete the default bucket")
  let count := objects.countP (·.bucket == name)
  if count > 0 then
    throw (.conflict ("bucket '" ++ name ++ "' has " ++ (toString count).toList ++
      " objects — delete them first"))
  if buckets.any (·.name == name) then pure (buckets.filter (·.name != name))
  else throw (.notFound ("bucket '" ++ name ++ "'"))

def showUuid (id : Uuid) : Text := (toString id).toList

def deleteObject (objects : List Object) (permissions : List Text) (bucket : Text) (id : Uuid) :
    Except ApiError (List Object) := do
  checkStoragePerm permissions bucket "delete"
  if objects.any fun o => o.id == id && o.bucket == bucket then pure (deleteRow objects id)
  else throw (.notFound ("object " ++ showUuid id))

/-! ## Renaming and moving -/

structure RenameInput where
  name : Option Text
  parentId : Option Text

/-- Where a request of `rename_object` stands, before its next statement. -/
inductive Stage where
  /-- the object is there -/
  | found
  /-- it has its name, and the walk from the target has come to the cursor, with so many
      rounds left -/
  | walking (target : Uuid) (cursor : Option Uuid) (left : Nat)
  /-- it has its name, and is to become a root -/
  | rooting
  | answered (result : Except ApiError Unit)
  /-- the client is gone, or the database -/
  | brokenOff

structure Request where
  bucket : Text
  id : Uuid
  input : RenameInput
  stage : Stage

/-- The object a request moves its own to, if any. -/
def Request.target (request : Request) : Option Uuid :=
  request.input.parentId.bind fun text =>
    if text.isEmpty || text == "null" then none else parse text

/-- What follows the name. -/
def Request.afterName (request : Request) : Stage :=
  match request.input.parentId with
  | none => .answered (.ok ())
  | some text =>
    if text.isEmpty || text == "null" then .rooting
    else match parse text with
      | none => .answered (.error (.badRequest "invalid parent_id"))
      | some target =>
        if target = request.id then .answered (.error (.badRequest "cannot move into itself"))
        else .walking target (some target) 100

/-- `UPDATE storage_objects SET name` -/
def setName (objects : List Object) (id : Uuid) (name : Text) : Except ApiError (List Object) :=
  match find objects id with
  | none => .ok objects
  | some o =>
    if taken objects id o.bucket o.parentId name then
      .error (.badRequest ("'" ++ name ++ "' already exists in this folder"))
    else .ok (updateRow objects id (.named name))

/-- `UPDATE storage_objects SET parent_id` -/
def setParent (objects : List Object) (id : Uuid) (parent : Option Uuid) : Except ApiError (List Object) :=
  match find objects id with
  | none => .ok objects
  | some o =>
    if taken objects id o.bucket parent o.name then
      .error (.badRequest "an item with this name already exists in the target folder")
    else if refers objects parent then .ok (updateRow objects id (.under parent))
    else .error (.notFound "target folder not found")

/-- The end of a request whose last statement gave that. -/
def finish (objects : List Object) : Except ApiError (List Object) → List Object × Stage
  | .ok objects => (objects, .answered (.ok ()))
  | .error e => (objects, .answered (.error e))

/-- The next statement of a request. -/
def advance (objects : List Object) (request : Request) : List Object × Stage :=
  match request.stage with
  | .found =>
    match request.input.name with
    | none => (objects, request.afterName parse)
    | some name =>
      if name.isEmpty then (objects, .answered (.error (.badRequest "name cannot be empty")))
      else match setName objects request.id name with
        | .ok objects => (objects, request.afterName parse)
        | .error e => (objects, .answered (.error e))
  | .walking target _ 0 => finish objects (setParent objects request.id (some target))
  | .walking target none _ => finish objects (setParent objects request.id (some target))
  | .walking target (some cursor) (left + 1) =>
    if cursor = request.id then
      (objects, .answered (.error (.badRequest "cannot move a folder into its own descendant")))
    else (objects, .walking target (parentOf objects cursor) left)
  | .rooting => finish objects (setParent objects request.id none)
  | .answered result => (objects, .answered result)
  | .brokenOff => (objects, .brokenOff)

def renameObject (objects : List Object) (permissions : List Text) (bucket : Text) (id : Uuid) :
    Except ApiError Stage := do
  checkStoragePerm permissions bucket "write"
  if objects.any fun o => o.id == id && o.bucket == bucket then pure .found
  else throw (.notFound ("object " ++ showUuid id))

end Handlers

/-! ## Listing the ancestors -/

/-- `WITH RECURSIVE chain`: each round looks up the parents of the rows of the one before,
    until there are none.  Nothing when the rounds run out first. -/
def chain (objects : List Object) : Nat → Option Object → Option (List Object)
  | _, none => some []
  | 0, some _ => none
  | rounds + 1, some o => (chain objects rounds (o.parentId.bind (find objects))).map (o :: ·)

/-- The walk from the row without a parent down to the object. -/
def descend (rows : List Object) (id : Uuid) : Nat → Option Uuid → List (Uuid × Text)
  | 0, _ => []
  | rounds + 1, cursor =>
    match rows.find? fun row => decide (row.parentId = cursor) with
    | none => []
    | some row => (row.id, row.name) :: if row.id = id then [] else descend rows id rounds (some row.id)

/-- Nothing when the query has not ended after so many rounds. -/
def getAncestors (objects : List Object) (permissions : List Text) (bucket : Text) (id : Uuid) (rounds : Nat) :
    Option (Except ApiError (List (Uuid × Text))) :=
  match checkStoragePerm permissions bucket "read" with
  | .error e => some (.error e)
  | .ok () =>
    (chain objects rounds (objects.find? fun o => decide (o.id = id ∧ o.bucket = bucket))).map fun rows =>
      .ok (descend rows id 100 none)

/-! ## Any number of requests -/

structure State where
  buckets : List Bucket
  objects : List Object
  requests : List Request

def State.start (buckets : List Bucket) : State := ⟨buckets, [], []⟩

inductive Action where
  | createBucket (permissions : List Text) (bucket : Bucket)
  | deleteBucket (permissions : List Text) (name : Text)
  | createFolder (permissions : List Text) (bucket : Text) (input : CreateFolderInput) (id : Uuid)
  | upload (permissions : List Text) (bucket : Text) (parts : List Part) (id : Uuid)
  | delete (permissions : List Text) (bucket : Text) (id : Uuid)
  /-- a request of `rename_object` arrives -/
  | rename (permissions : List Text) (bucket : Text) (id : Uuid) (input : RenameInput)
  /-- a request takes its next statement -/
  | advance (index : Nat)
  /-- a request breaks off -/
  | abandon (index : Nat)

section Step

variable (parse : Text → Option Uuid) (storageLimit : Nat)

/-- `Uuid::new_v4` gives an id that no object has and no request names. -/
def State.fresh (s : State) (id : Uuid) : Bool :=
  s.objects.all (·.id != id) && s.requests.all fun r => r.id != id && r.target parse != some id

def State.withObjects (s : State) : Except ApiError (List Object) → State
  | .ok objects => { s with objects }
  | .error _ => s

def State.withBuckets (s : State) : Except ApiError (List Bucket) → State
  | .ok buckets => { s with buckets }
  | .error _ => s

def State.step (s : State) : Action → Option State
  | .createBucket permissions bucket =>
    some (s.withBuckets (PlatformStorage.createBucket s.buckets permissions bucket))
  | .deleteBucket permissions name =>
    some (s.withBuckets (PlatformStorage.deleteBucket s.buckets s.objects permissions name))
  | .createFolder permissions bucket input id =>
    if s.fresh parse id then
      some (s.withObjects (PlatformStorage.createFolder parse s.buckets s.objects permissions bucket input id))
    else none
  | .upload permissions bucket parts id =>
    if s.fresh parse id then
      some (s.withObjects (uploadObject parse storageLimit s.buckets s.objects permissions bucket parts id))
    else none
  | .delete permissions bucket id => some (s.withObjects (deleteObject s.objects permissions bucket id))
  | .rename permissions bucket id input =>
    let stage := match renameObject s.objects permissions bucket id with
      | .ok stage => stage
      | .error e => .answered (.error e)
    some { s with requests := s.requests ++ [⟨bucket, id, input, stage⟩] }
  | .advance index =>
    s.requests[index]?.map fun request =>
      let (objects, stage) := PlatformStorage.advance parse s.objects request
      { s with objects, requests := s.requests.set index { request with stage } }
  | .abandon index =>
    s.requests[index]?.map fun request =>
      { s with requests := s.requests.set index { request with stage := .brokenOff } }

def run : State → List Action → Option State := Runs.run (State.step parse storageLimit)

end Step

end RootCx.PlatformStorage
