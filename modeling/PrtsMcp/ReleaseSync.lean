import PrtsMcp.Discovery
import PrtsMcp.FileSteps
import PrtsMcp.IsoTime

/-!
# Release sync

The zip of one release asset and the metadata beside it: download, manifest check, and the
up-to-date, offline-fallback and anti-downgrade decisions of `sync_release_locked`.
-/
namespace PrtsMcp.ReleaseSync

open Process SyncTypes FileSteps ZipValidation ReleaseTags

structure ReleaseDir where
  zip : Node ZipFile
  releaseMeta : Option Json

structure ReleaseState where
  machine : Machine
  dir : ReleaseDir

instance : OnMachine ReleaseState where
  machine := ReleaseState.machine
  onMachine f s := { s with machine := f s.machine }
  onMachine_id _ := rfl
  machine_onMachine _ _ := rfl

structure CacheMeta where
  repo : String
  branch : String
  commitSha : String
  fetchedAt : String
  files : List String
  deriving DecidableEq, Repr

/-- The first of two keys that is present, read as a string. -/
def eitherKey (key legacy : String) (value : Json) : Option String :=
  ((value.get key).or (value.get legacy)).bind Json.asStr

/-- `load_release_meta`: any missing or invalid field rejects the whole cache. -/
def cacheOf (value : Json) : Option CacheMeta := do
  let repo ← value.getStr "repo"
  let branch ← value.getStr "branch"
  let commitSha ← eitherKey "commit_sha" "commitSha" value
  let fetchedAt ← eitherKey "fetched_at" "fetchedAt" value
  if repo = "" ∨ branch = "" ∨ commitSha = "" ∨ fetchedAt = "" then none
  else
    let files ← (value.get "files").bind Json.asArray
    return ⟨repo, branch, commitSha, fetchedAt, files.filterMap Json.asStr⟩

def CacheMeta.toJson (m : CacheMeta) : Json :=
  .obj [("repo", .str m.repo), ("branch", .str m.branch), ("commit_sha", .str m.commitSha),
    ("fetched_at", .str m.fetchedAt), ("files", .arr (m.files.map .str))]

def loadReleaseMeta : Step ReleaseState (Option CacheMeta) :=
  inspect .readReleaseMeta fun reply s =>
    match reply.io with
    | .ok () => .ok (s.dir.releaseMeta.bind cacheOf)
    | .error _ => .ok none

def saveReleaseMeta (m : CacheMeta) : Step ReleaseState Unit :=
  atomicWriteJson .placeReleaseMeta fun s => { s with dir.releaseMeta := some m.toJson }

/-- `.error ()` is a panic of the timestamp parser. -/
def cacheIsFresh (cache : CacheMeta) (now : ℕ) : Except Unit Bool := do
  match ← IsoTime.parseIsoMs cache.fetchedAt with
  | some fetched => return (now : ℤ) - fetched < cacheTtlSeconds * 1000
  | none => return false

/-- Equal or older upstream means up to date. -/
def releaseUpToDate (localSha upstreamSha : String) : Bool :=
  match parseReleaseSuffix localSha, parseReleaseSuffix upstreamSha with
  | some installed, some upstream =>
    if installed.versionId ≠ upstream.versionId then
      !(installed.versionId < upstream.versionId)
    else !(installed.revision < upstream.revision)
  | _, _ => localSha = upstreamSha

/-- Why the file is no valid zip; without a validator it is never opened. -/
def zipErrorOf (spec : ReleaseSpec) (z : ZipFile) (opened : Except SyncError Unit) :
    Option String :=
  match spec.validator, opened with
  | .none, _ => none
  | _, .error e => some (notAZip spec.localZip (notAZip spec.localZip e.text))
  | validator, .ok () =>
    match zipMissingEntries spec.localZip z.archive validator with
    | .ok [] => none
    | .ok missing => some (String.intercalate "; " (missing.take 10))
    | .error e => some (notAZip spec.localZip e)

def releaseZipError (spec : ReleaseSpec) : Step ReleaseState (Option String) :=
  inspect .checkZip fun reply s =>
    match s.dir.zip with
    | .file z => .ok (zipErrorOf spec z reply.io)
    | _ => .ok (some "zip file is missing")

def manifestUrl (spec : ReleaseSpec) (tag : String) : String :=
  if tag = "unknown" then
    "https://github.com/" ++ spec.owner ++ "/" ++ spec.repo ++
      "/releases/latest/download/manifest.json"
  else
    "https://github.com/" ++ spec.owner ++ "/" ++ spec.repo ++ "/releases/download/" ++ tag ++
      "/manifest.json"

/-- `String(value)`; a missing field prints `undefined`. -/
def jsDisplay : Option Json → String
  | none => "undefined"
  | some (.str s) => s
  | some value => value.shown

/-- The identity a manifest declares must be the one of its tag. -/
def checkManifestIdentity (tag : String) (response : Json) : Except SyncError Unit :=
  match parseDataTag tag with
  | none => .ok ()
  | some parsed => do
    match response.get "source" with
    | some source =>
      if source.getStr "versionId" ≠ some parsed.versionId then
        .error (.message ("manifest source version does not match release tag " ++ tag))
    | none => pure ()
    if 1 < parsed.revision ∧
        (response.get "publicationRevision").bind Json.asNum ≠ some (parsed.revision : ℚ) then
      .error (.message ("manifest for " ++ tag ++ " declares publicationRevision " ++
        jsDisplay (response.get "publicationRevision") ++ ", expected " ++
        toString parsed.revision))

def checkManifestAsset (spec : ReleaseSpec) (tag : String) (stats : DownloadStats)
    (response : Json) : Except SyncError Unit :=
  let expected := (response.get "assets").bind (Json.get spec.assetName)
  match (expected.bind (Json.get "size")).bind Json.asNum, expected.bind (Json.getStr "sha256") with
  | some size, some sha =>
    if size ≠ stats.bytes ∨ sha ≠ stats.sha256 then
      .error (.message ("manifest mismatch for " ++ spec.assetName ++ ": expected " ++
        toString size.floor.toNat ++ "/" ++ sha ++ ", got " ++ toString stats.bytes ++ "/" ++
        stats.sha256))
    else .ok ()
  | _, _ =>
    .error (.message ("manifest for " ++ tag ++ " has no valid entry for " ++ spec.assetName))

def checkManifest (spec : ReleaseSpec) (tag : String) (stats : DownloadStats) (response : Json) :
    Except SyncError Unit := do
  if ¬ response.isObject then
    .error (.message ("manifest for " ++ tag ++ " is invalid: manifest root must be an object"))
  if response.getStr "contractVersion" ≠ some dataContractVersion then
    .error (.message ("manifest for " ++ tag ++ " has unsupported contractVersion"))
  checkManifestIdentity tag response
  checkManifestAsset spec tag stats response

/-- A release without a manifest predates it; a `datarev` release must carry one. -/
def manifestVerdict (spec : ReleaseSpec) (tag : String) (stats : DownloadStats) :
    Except TransportError Json → Except SyncError Unit
  | .ok response => checkManifest spec tag stats response
  | .error (.assetNotFound url) =>
    if datarevTagPrefix.isPrefixOf tag.toList then
      .error (.message ("manifest unavailable for " ++ tag ++ ": HTTP 404: " ++ url))
    else .ok ()
  | .error e => .error (.message ("manifest unavailable for " ++ tag ++ ": " ++ e.text))

def orThrow {σ α : Type} : Except SyncError α → Step σ α
  | .ok a => pure a
  | .error e => .throw e

def verifyReleaseManifest (spec : ReleaseSpec) (tag : String) (stats : DownloadStats) :
    Step ReleaseState Unit := do
  let response ← fetchStep (.fetchManifest (manifestUrl spec tag))
  orThrow (manifestVerdict spec tag stats response)

/-- What lies behind a download URL: the asset of the tag's own release, or, behind a `latest`
URL, the asset of whichever release that is. -/
def servedRelease (tag latest : String) : String := if tag = "unknown" then latest else tag

/-- The stream into a new temporary file: its suffix, its content and the statistics. -/
def downloadTemp (spec : ReleaseSpec) (tag url : String) :
    Step ReleaseState (ℕ × ZipFile × DownloadStats) :=
  step (.download url) fun reply s =>
    let touched := OnMachine.onMachine Machine.addTemp s
    match reply with
    | .body latest archive stats =>
      (.ok (s.machine.fresh, ⟨servedRelease tag latest, archive, stats.sha256⟩, stats), touched)
    | .refused e => (.error (.message (e.text ++ " downloading " ++ spec.assetName)), s)
    | .torn text => (.error (.message (text ++ " downloading " ++ spec.assetName)), touched)
    | _ => (.error (.message ("no response downloading " ++ spec.assetName)), s)

/-- The validator on the temporary file. -/
def downloadVerdict (spec : ReleaseSpec) (suffix : ℕ) (z : ZipFile)
    (opened : Except SyncError Unit) : Except SyncError Unit :=
  let name := "." ++ spec.localZip ++ "." ++ toString suffix ++ ".tmp"
  match spec.validator, opened with
  | .none, _ => .ok ()
  | _, .error e => .error (.message (notAZip name e.text))
  | validator, .ok () =>
    match zipMissingEntries name z.archive validator with
    | .ok [] => .ok ()
    | .ok missing =>
      .error (.message ("Downloaded " ++ spec.assetName ++ " is missing required entries: " ++
        String.intercalate ", " missing))
    | .error e => .error (.message e)

def checkDownload (spec : ReleaseSpec) (suffix : ℕ) (z : ZipFile) : Step ReleaseState Unit :=
  inspect .checkDownload fun reply _ => downloadVerdict spec suffix z reply.io

def placeZip (tag : String) (suffix : ℕ) (z : ZipFile) : Step ReleaseState Unit :=
  ioStep (.placeZip tag) fun s =>
    { s with machine := s.machine.dropTemp suffix, dir.zip := .file z }

def downloadedMeta (spec : ReleaseSpec) (tag : String) (now : ℕ) : CacheMeta :=
  ⟨spec.repoSlug, "releases", tagSuffix tag, IsoTime.isoFromUnixMs now, [spec.assetName]⟩

def verifyIfDeclared (spec : ReleaseSpec) (tag : String) (stats : DownloadStats) :
    Step ReleaseState Unit :=
  if spec.verifyManifest then verifyReleaseManifest spec tag stats else pure ()

/-- Validate and publish a downloaded file, then record its release. -/
def publishDownload (spec : ReleaseSpec) (tag : String) (suffix : ℕ) (z : ZipFile)
    (stats : DownloadStats) : Step ReleaseState Unit := do
  checkDownload spec suffix z
  verifyIfDeclared spec tag stats
  placeZip tag suffix z
  let now ← nowMs
  saveReleaseMeta (downloadedMeta spec tag now)

def removeTemp (suffix : ℕ) : Step ReleaseState Unit :=
  ioStep .removeTemp fun s => { s with machine := s.machine.dropTemp suffix }

/-- Failures clean up the temporary file. -/
def downloadReleaseAsset (spec : ReleaseSpec) (tag url : String) : Step ReleaseState Unit := do
  ioStep .createDir id
  let suffix ← .read fun s => s.machine.fresh
  let result ← Prog.attempt (do
    let (suffix, z, stats) ← downloadTemp spec tag url
    publishDownload spec tag suffix z stats)
  match result with
  | .ok () => pure ()
  | .error e => do
    Prog.ignore (removeTemp suffix)
    .throw e

def checkLatestRelease (spec : ReleaseSpec) : Step ReleaseState (Option (String × String)) := do
  let data ← fetchStep (.fetchReleases (Discovery.releasesUrl spec.owner spec.repo))
  match data with
  | .error _ => pure none
  | .ok data => orThrow (Discovery.latestAsset spec.assetName data)

/-- No network: the local data, or the recorded release, or a blind download of the latest. -/
def syncWithoutRelease (mirrors : List String) (spec : ReleaseSpec) (cache : Option CacheMeta)
    (zipError : Option String) : Step ReleaseState SyncResult := do
  let zipExists ← .read fun s => s.dir.zip.isPresent
  if zipError = none then
    return ⟨.offlineFallback, cache.map CacheMeta.commitSha, some "Network unavailable"⟩
  else if (cache.bind fun c => parseReleaseSuffix c.commitSha).isSome then
    return ⟨.noData, cache.map CacheMeta.commitSha,
      some "Network unavailable; cannot verify replacement of recorded release"⟩
  else if mirrors ≠ [] then
    let blindUrl := "https://github.com/" ++ spec.owner ++ "/" ++ spec.repo ++
      "/releases/latest/download/" ++ spec.assetName
    match ← Prog.attempt (downloadReleaseAsset spec "unknown" blindUrl) with
    | .ok () => return ⟨.updated, some "unknown", none⟩
    | .error e => return ⟨.noData, none, some e.text⟩
  else
    return ⟨.noData, none, some (match zipExists, zipError with
      | true, some error =>
        "Network unavailable and no cached zip; cached zip invalid: " ++ error
      | _, _ => "Network unavailable and no cached zip")⟩

/-- The recorded release is newer than the one upstream. -/
def refusesDowngrade (localSha upstreamSha : String) : Bool :=
  match parseReleaseSuffix localSha, parseReleaseSuffix upstreamSha with
  | some installed, some upstream =>
    upstream.versionId < installed.versionId ||
      (installed.versionId = upstream.versionId && upstream.revision < installed.revision)
  | _, _ => false

def syncDownload (spec : ReleaseSpec) (cache : Option CacheMeta) (zipError : Option String)
    (tag url : String) : Step ReleaseState SyncResult := do
  match ← Prog.attempt (downloadReleaseAsset spec tag url) with
  | .ok () => return ⟨.updated, some (tagSuffix tag), none⟩
  | .error e =>
    if zipError = none then
      return ⟨.offlineFallback, cache.map CacheMeta.commitSha, some e.text⟩
    else return ⟨.noData, none, some e.text⟩

/-- A release is known: refuse a downgrade, refresh the record, or download. -/
def syncToRelease (spec : ReleaseSpec) (cache : Option CacheMeta) (zipError : Option String)
    (tag url : String) : Step ReleaseState SyncResult := do
  match cache with
  | none => syncDownload spec cache zipError tag url
  | some c =>
    if zipError ≠ none ∧ refusesDowngrade c.commitSha (tagSuffix tag) then
      return ⟨.noData, some c.commitSha,
        some "Refusing downgrade of recorded release while cached zip is unavailable"⟩
    else if zipError = none ∧ releaseUpToDate c.commitSha (tagSuffix tag) then
      let now ← nowMs
      saveReleaseMeta { c with fetchedAt := IsoTime.isoFromUnixMs now }
      return ⟨.upToDate, some c.commitSha, none⟩
    else syncDownload spec cache zipError tag url

/-- A fresh cache over a valid zip skips the discovery. -/
def freshHit (forceCheck : Bool) (cache : Option CacheMeta) (zipError : Option String)
    (now : ℕ) : Except Unit (Option String) :=
  match forceCheck, cache, zipError with
  | false, some c, none => (cacheIsFresh c now).map fun fresh => if fresh then some c.commitSha else none
  | _, _, _ => .ok none

def syncReleaseLocked (mirrors : List String) (spec : ReleaseSpec) (forceCheck : Bool) :
    Step ReleaseState SyncResult := do
  let cache ← loadReleaseMeta
  let zipError ← releaseZipError spec
  let now ← nowMs
  match freshHit forceCheck cache zipError now with
  | .error () => .halt
  | .ok (some sha) => return ⟨.upToDate, some sha, none⟩
  | .ok none =>
    match ← checkLatestRelease spec with
    | none => syncWithoutRelease mirrors spec cache zipError
    | some (tag, url) => syncToRelease spec cache zipError tag url

/-- The source check of the story zip, under its lock. -/
def ensureSource (sourced : Bool) : Step ReleaseState (Except String Unit) :=
  if sourced then
    inspect .guardSource fun reply _ => .ok (reply.io.mapError SyncError.text)
  else pure (.ok ())

/-- The body of `sync_release_guarded` under the directory lock. -/
def syncReleaseUnderLock (mirrors : List String) (spec : ReleaseSpec) (forceCheck sourced : Bool) :
    Step ReleaseState SyncResult := do
  ioStep .createDir id
  ioStep .lock id
  let inner ← Prog.attempt (do
    match ← ensureSource sourced with
    | .error e => return ⟨.noData, none, some e⟩
    | .ok () => syncReleaseLocked mirrors spec forceCheck)
  Prog.ignore (ioStep (σ := ReleaseState) .unlock id)
  orThrow inner

/-- `sync_release`; with `sourced`, `sync_release_with_source` after its first check. Errors fall
back to what is on disk. -/
def syncReleaseGuarded (mirrors : List String) (spec : ReleaseSpec) (forceCheck sourced : Bool) :
    Step ReleaseState SyncResult := do
  match ← Prog.attempt (syncReleaseUnderLock mirrors spec forceCheck sourced) with
  | .ok result => return result
  | .error e =>
    let cache ← loadReleaseMeta
    let zipError ← releaseZipError spec
    return ⟨if zipError = none then .offlineFallback else .noData, cache.map CacheMeta.commitSha,
      some e.text⟩

def syncRelease (mirrors : List String) (spec : ReleaseSpec) (forceCheck : Bool) :
    Step ReleaseState SyncResult :=
  syncReleaseGuarded mirrors spec forceCheck false

def syncReleaseWithSource (mirrors : List String) (spec : ReleaseSpec) (forceCheck : Bool) :
    Step ReleaseState SyncResult := do
  match ← ensureSource true with
  | .error e => return ⟨.noData, none, some e⟩
  | .ok () => syncReleaseGuarded mirrors spec forceCheck true

end PrtsMcp.ReleaseSync
