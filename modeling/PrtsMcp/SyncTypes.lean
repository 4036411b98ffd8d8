import PrtsMcp.ZipValidation
import PrtsMcp.Process

/-!
# Types of the sync layer

Specs, results and errors, the replies of the environment, and the names of the file and network
steps that the sync state machines take.
-/
namespace PrtsMcp.SyncTypes

open ZipValidation (ZipArchive ZipValidator)

def dataContractVersion : String := "prts-mcp-data/v1"

def cacheTtlSeconds : ℕ := 3600

inductive SyncStatus where
  | updated
  | upToDate
  | offlineFallback
  | noData
  deriving DecidableEq, Repr

structure SyncResult where
  status : SyncStatus
  commitSha : Option String
  error : Option String
  deriving DecidableEq, Repr

inductive SyncError where
  | message (text : String)
  | io (text : String)
  | duplicateReleaseIdentity
  deriving DecidableEq, Repr

def SyncError.text : SyncError → String
  | message text | io text => text
  | duplicateReleaseIdentity => "duplicate data release identity"

inductive TransportError where
  | assetNotFound (url : String)
  | http (status : ℕ)
  | network (text : String)
  | invalidJson (text : String)
  deriving DecidableEq, Repr

def TransportError.text : TransportError → String
  | assetNotFound url => "HTTP 404: " ++ url
  | http status => "HTTP " ++ toString status
  | network text => text
  | invalidJson text => "invalid JSON: " ++ text

/-- `localZip` is the file name of the zip in its directory. -/
structure ReleaseSpec where
  owner : String
  repo : String
  assetName : String
  localZip : String
  verifyManifest : Bool
  validator : ZipValidator
  deriving DecidableEq, Repr

def ReleaseSpec.repoSlug (spec : ReleaseSpec) : String := spec.owner ++ "/" ++ spec.repo

structure DownloadStats where
  bytes : ℕ
  sha256 : String
  deriving DecidableEq, Repr

/-- A zip on disk. `release` is the tag of the release whose asset it is; no code reads it. -/
structure ZipFile where
  release : String
  archive : ZipArchive
  sha256 : String

/-- The two archives of the game data. -/
inductive Side where
  | excel
  | levels
  deriving DecidableEq, Repr

instance : Fintype Side where
  elems := {.excel, .levels}
  complete := by
    intro side
    cases side <;> simp

/-- The two formats of the image releases. -/
inductive Format where
  | v1
  | v2
  deriving DecidableEq, Repr

/-- An entry of the image generations: `<hash>-<generation>` or `v2-<generation>`, hidden and with
`.tmp` while staged. -/
structure ImageEntry where
  format : Format
  generation : ℕ
  staging : Bool
  deriving DecidableEq, Repr

/-- What stands at a path. -/
inductive Node (α : Type) where
  | absent
  | notFile
  | file (content : α)

def Node.isFile {α : Type} : Node α → Bool
  | .file _ => true
  | _ => false

def Node.isPresent {α : Type} : Node α → Bool
  | .absent => false
  | _ => true

/-- How the environment answers one step. `torn` is a failure that leaves a partial file. -/
inductive Reply where
  | ok
  | fail (text : String)
  | torn (text : String)
  | json (value : Json)
  | refused (e : TransportError)
  | body (release : String) (archive : ZipArchive) (stats : DownloadStats)

/-- A reply, and the time that passes before it. -/
structure Turn where
  elapsedMs : ℕ
  reply : Reply

def Reply.io : Reply → Except SyncError Unit
  | .fail text | .torn text => .error (.io text)
  | _ => .ok ()

def Reply.fetched : Reply → Except TransportError Json
  | .json value => .ok value
  | .refused e => .error e
  | _ => .error (.network "no response")

end PrtsMcp.SyncTypes
