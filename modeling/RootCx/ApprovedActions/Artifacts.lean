import RootCx.Lib.Except
import RootCx.Lib.FileTree
import RootCx.Lib.Json
import Mathlib

/-! # Sealed backends

`governance/approved_actions/artifacts.rs`: a deployed backend is approved by the digest of its
files.  One walk hashes the directory and, when the backend is sealed, copies it, with every link
replaced by what it resolves to.
-/

namespace RootCx.ApprovedActions

open RootCx.Text RootCx.FileTree

inductive RuntimeError where
  | invalid (message : Text)
  | worker (message : Text)
  deriving DecidableEq, Repr

/-! ## Directories -/

/-- The names that `read_dir` yields. -/
structure Entries where
  names : List Name
  distinct : names.Nodup
  proper : ∀ name ∈ names, Proper name

/-- Sorted by file name. -/
def Entries.sorted (entries : Entries) : List Name := entries.names.mergeSort fun first second => decide (first ≤ second)

inductive Node where
  | dir (entries : Entries)
  | file (bytes : List UInt8)
  | other

/-- What the file system answers: how a path resolves, what there is at a resolved one, and
    whether something can be written for a path of the copy. -/
structure Disk where
  canonicalize : Path → Except Text Path
  metadata : Path → Except Text Node
  writable : Path → Except Text Unit

/-- What a `Vec` can hold. -/
def MAX_LEN : Nat := 2 ^ 63

/-- `Path::to_str` -/
def toStr (path : Path) : Except Text (List UInt8) :=
  if MAX_LEN ≤ (spell path).length then .error "capacity overflow"
  else if (ByteArray.mk (spell path).toArray).validateUTF8 then .ok (spell path)
  else .error "backend paths must be UTF-8"

/-- `fs::read` -/
def readFile (bytes : List UInt8) : Except Text (List UInt8) :=
  if MAX_LEN ≤ bytes.length then .error "out of memory" else .ok bytes

/-! ## The copy -/

def createDir (staging : Listing) (path : Path) : Except Text Listing :=
  match staging.lookup path with
  | some .dir => .ok staging
  | some (.file _) => .error "Not a directory (os error 20)"
  | none => .ok (staging ++ [(path, .dir)])

/-- Makes every directory of the path that is not there. -/
def createDirAll (staging : Listing) (path : Path) : Except Text Listing := path.inits.foldlM createDir staging

def writeFile (staging : Listing) (path : Path) (bytes : List UInt8) : Except Text Listing :=
  if staging.lookup path.dropLast ≠ some .dir then .error "No such file or directory (os error 2)"
  else if staging.lookup path = some .dir then .error "Is a directory (os error 21)"
  else .ok (staging.filter (fun entry => entry.1 ≠ path) ++ [(path, .file bytes)])

/-- What has been hashed, and what has been copied if there is a destination. -/
structure Progress where
  hashed : List UInt8
  staging : Option Listing

def Progress.update (progress : Progress) (bytes : List UInt8) : Progress := { progress with hashed := progress.hashed ++ bytes }

def Progress.copy (progress : Progress) (step : Listing → Except Text Listing) : Except Text Progress :=
  match progress.staging with
  | none => .ok progress
  | some staging => do
    let staging ← step staging
    pure { progress with staging := some staging }

/-! ## The walk -/

-- how a path is displayed
variable (display : Path → Text)

def externalLink (relative : Path) : Text := "backend contains an external or cyclic link: " ++ display relative

/-- The walk of `visit`; its own limit on the parents ends it before the fuel does. -/
def visit (disk : Disk) (root : Path) : Nat → Path → Path → List Path → Progress → Except Text Progress
  | 0, _, relative, _, _ => .error (externalLink display relative)
  | fuel + 1, path, relative, parents, progress => do
    let resolved ← disk.canonicalize path
    if ¬root <+: resolved ∨ resolved ∈ parents ∨ parents.length > 64 then .error (externalLink display relative)
    else do
      let node ← disk.metadata resolved
      let name ← toStr relative
      let progress := progress.update (framed name)
      match node with
      | .dir entries => do
        let progress ← (progress.update [68]).copy fun staging => do
          disk.writable relative
          createDirAll staging relative
        entries.sorted.foldlM (fun progress name =>
          visit disk root fuel (resolved ++ [name]) (relative ++ [name]) (parents ++ [resolved]) progress) progress
      | .file bytes => do
        let bytes ← readFile bytes
        (progress.update (70 :: framed bytes)).copy fun staging => do
          disk.writable relative
          writeFile staging relative bytes
      | .other => .error ("backend contains a non-file artifact: " ++ display relative)

/-- SHA-256 in hexadecimal digits, taken as injective. -/
structure Digest where
  hex : List UInt8 → Text
  injective : Function.Injective hex

variable (digest : Digest)

def fingerprint (disk : Disk) (directory : Path) : Except RuntimeError Text :=
  Except.mapError .worker do
    let root ← disk.canonicalize directory
    let progress ← visit display disk root 66 root [] [] ⟨[], none⟩
    pure (digest.hex progress.hashed)

def verifyArtifact (disk : Disk) (directory : Path) (expected : Text) : Except RuntimeError Unit := do
  let found ← fingerprint display digest disk directory
  if found ≠ expected then .error (.worker "approved backend artifact digest changed") else pure ()

/-! ## Sealing -/

/-- A directory, and the path that it resolves to. -/
structure Location where
  place : Path
  real : Path
  outside : place = real ∨ ¬real <+: place

/-- The file system at a copy, which has no links. -/
def copyDisk (location : Location) (listing : Listing) : Disk where
  canonicalize path :=
    if path = location.place then .ok location.real
    else if location.real <+: path ∧ (listing.lookup (path.drop location.real.length)).isSome then .ok path
    else .error "No such file or directory (os error 2)"
  metadata path :=
    match listing.lookup (path.drop location.real.length) with
    | some .dir =>
      if proper : (listing.childNames (path.drop location.real.length)).Nodup ∧
          ∀ name ∈ listing.childNames (path.drop location.real.length), name ≠ [] ∧ separator ∉ name then
        .ok (.dir ⟨_, proper.1, proper.2⟩)
      else .error "Input/output error (os error 5)"
    | some (.file bytes) => .ok (.file bytes)
    | none => .error "No such file or directory (os error 2)"
  writable _ := .error "Read-only file system (os error 30)"

structure Artifact where
  disk : Disk
  directory : Path

/-- The directory `approved-backends`: the artifacts by their revisions, and the staging
    directories. -/
structure Approved (Revision : Type) where
  artifacts : Revision → Option Artifact
  staging : List Text

/-- What a seal meets: the backend, where its artifact goes, and what the file system answers. -/
structure Sealing where
  disk : Disk
  root : Path
  destination : Location
  staging : Text
  prepared : Except Text Unit
  renamed : Except Text Unit
  removed : Bool

/-- The copy, if it is the backend that was deployed. -/
def Sealing.snapshot (sealing : Sealing) (expected : Text) : Except Text Listing := do
  let root ← sealing.disk.canonicalize sealing.root
  let progress ← visit display sealing.disk root 66 root [] [] ⟨[], some [([], .dir)]⟩
  if digest.hex progress.hashed ≠ expected then
    .error "backend changed since deployment; deploy it again before approving"
  else do
    sealing.renamed
    pure (progress.staging.getD [])

/-- `seal` -/
def sealRevision {Revision : Type} [DecidableEq Revision] (sealing : Sealing) (approved : Approved Revision) (revision : Revision)
    (expected : Text) : Except RuntimeError Unit × Approved Revision :=
  match approved.artifacts revision with
  | some artifact =>
    match fingerprint display digest artifact.disk artifact.directory with
    | .error error => (.error error, approved)
    | .ok found =>
      (if found ≠ expected then .error (.invalid "approved backend artifact changed on disk") else .ok (), approved)
  | none =>
    match sealing.prepared with
    | .error message => (.error (.worker message), approved)
    | .ok () =>
      match sealing.snapshot display digest expected with
      | .error message =>
        (.error (.worker message), if sealing.removed then approved else { approved with staging := sealing.staging :: approved.staging })
      | .ok staging =>
        (.ok (), { approved with
          artifacts := Function.update approved.artifacts revision
            (some ⟨copyDisk sealing.destination staging, sealing.destination.place⟩) })

end RootCx.ApprovedActions
