import PrtsMcp.DatabasePointer
import PrtsMcp.Discovery
import PrtsMcp.Process

/-!
# The SQLite generation store

The sync of the compiled game data: discovery of a release, verification, publication of immutable
generation files under their digest, the two pointers, and the clean-up of old generations.
-/
namespace PrtsMcp.DatabaseSync

open Process SyncTypes DatabasePointer Discovery ReleaseTags

/-! ## The artifact descriptor -/

/-- An integer that is written as one. -/
def asNat : Json → Option ℕ
  | .num value shown => if shown = value.num.toNat.repr then some value.num.toNat else none
  | _ => none

def asU64 (v : Json) : Option U64 :=
  (asNat v).bind fun n => if h : n < 2 ^ 64 then some ⟨n, h⟩ else none

structure DatabaseManifest where
  contractVersion : String
  schemaVersion : ℕ
  indexVersion : ℕ
  language : String
  compilerVersion : String
  sourceVersion : String
  publicationRevision : U64
  asset : String
  sha256 : String
  size : U64
  compressedSha256 : String
  compressedSize : U64
  deriving DecidableEq, Repr

def DatabaseManifest.generation (m : DatabaseManifest) : String ×ₗ U64 :=
  toLex (m.sourceVersion, m.publicationRevision)

/-- `from_value`: every field is required. A negative version is none that the checks accept. -/
def DatabaseManifest.ofJson (v : Json) : Option DatabaseManifest := do
  let contractVersion ← v.getStr "contractVersion"
  let schemaVersion ← (v.get "schemaVersion").bind asNat
  let indexVersion ← (v.get "indexVersion").bind asNat
  let language ← v.getStr "language"
  let compilerVersion ← v.getStr "compilerVersion"
  let sourceVersion ← v.getStr "sourceVersion"
  let publicationRevision ← (v.get "publicationRevision").bind asU64
  let asset ← v.getStr "asset"
  let sha256 ← v.getStr "sha256"
  let size ← (v.get "size").bind asU64
  let compressedSha256 ← v.getStr "compressedSha256"
  let compressedSize ← (v.get "compressedSize").bind asU64
  return ⟨contractVersion, schemaVersion, indexVersion, language, compilerVersion, sourceVersion,
    publicationRevision, asset, sha256, size, compressedSha256, compressedSize⟩

def contract : String := "prts-mcp-sqlite/v1"

def databaseAsset : String := "zh_CN.sqlite.gz"

def DatabaseManifest.accepted (m : DatabaseManifest) (source : String) (revision : ℕ) : Bool :=
  m.contractVersion = contract && m.schemaVersion = 1 && m.indexVersion = 1 &&
    m.language = "zh_CN" && m.sourceVersion = source && m.publicationRevision.val = revision &&
    revision ≠ 0 && m.compilerVersion ≠ "" && m.asset = databaseAsset && m.size ≠ 0 &&
    m.compressedSize ≠ 0 && isDigest m.sha256 && isDigest m.compressedSha256

/-- The revision of the release manifest, which may leave it out. -/
def manifestRevision (manifest : Json) : Except String ℕ :=
  match manifest.get "publicationRevision" with
  | none => .ok 1
  | some v =>
    match asU64 v with
    | some n => .ok n.val
    | none => .error "invalid manifest publicationRevision"

/-- The entry of the asset in the release manifest. -/
def DatabaseManifest.matchesAsset (m : DatabaseManifest) (manifest : Json) : Bool :=
  match (manifest.get "assets").bind (Json.get m.asset) with
  | some asset =>
    asset.getStr "sha256" = some m.compressedSha256 &&
      (asset.get "size").bind asU64 = some m.compressedSize
  | none => false

/-- `from_release`. -/
def DatabaseManifest.fromRelease (manifest : Json) (source : String) (revision : ℕ) :
    Except String DatabaseManifest :=
  match manifestRevision manifest with
  | .error e => .error e
  | .ok n =>
    if manifest.getStr "contractVersion" ≠ some dataContractVersion ∨
        (manifest.get "source").bind (Json.getStr "versionId") ≠ some source ∨ n ≠ revision then
      .error "SQLite release manifest source/revision mismatch"
    else match (manifest.get "sqlite").bind DatabaseManifest.ofJson with
      | none => .error "invalid SQLite artifact descriptor"
      | some m =>
        if !m.accepted source revision then
          .error "unsupported or invalid SQLite artifact descriptor"
        else if !m.matchesAsset manifest then .error "SQLite asset differs from its descriptor"
        else .ok m

/-! ## The directory -/

/-- A database file: its bytes count by their length and digest, its contents by the `meta` table
and by whether the full integrity check passes. -/
structure DatabaseFile where
  size : ℕ
  sha256 : String
  metadata : List (String × String)
  sound : Bool
  deriving DecidableEq, Repr

/-- The process-local proof that a file was verified; it pins the file. -/
structure Receipt where
  name : String
  file : DatabaseFile
  sha256 : String
  fullInProcess : Bool
  deriving DecidableEq, Repr

inductive Slot where
  | active
  | previous
  deriving DecidableEq, Repr

/-- The store directory, and the receipts of the process. `leases` and `stamps` go by the name of
their database. `hashed` keeps every digest computed of a file; no code reads it. -/
structure World where
  text : Slot → Option String
  files : List (String × DatabaseFile)
  leases : List String
  stamps : List (String × String × ℕ)
  receipts : List Receipt
  hashed : List (String × String)

def World.file? (w : World) (name : String) : Option DatabaseFile := w.files.lookup name

/-- `database::active`, and the same for the other pointer. -/
def World.pointer (w : World) (slot : Slot) : Except String (Option ActiveDatabase) :=
  match w.text slot with
  | none => .ok none
  | some text => (ActiveDatabase.parse text).map some

def World.named (w : World) (slot : Slot) : Option ActiveDatabase := (w.pointer slot).toOption.join

def World.setPointer (w : World) (slot : Slot) (text : String) : World :=
  { w with text := Function.update w.text slot (some text) }

def World.put (w : World) (name : String) (file : DatabaseFile) : World :=
  { w with files := (name, file) :: w.files.filter fun f => f.1 ≠ name }

def World.remove (w : World) (name : String) : World :=
  { w with files := w.files.filter fun f => f.1 ≠ name }

def World.removeLease (w : World) (name : String) : World :=
  { w with leases := w.leases.filter (· ≠ name) }

def World.removeStamp (w : World) (name : String) : World :=
  { w with stamps := w.stamps.filter fun s => s.1 ≠ name }

/-- A receipt holds as long as its file stands at its path. -/
def Receipt.current (w : World) (r : Receipt) : Bool := w.file? r.name = some r.file

/-- `verified_digest`. -/
def World.verifiedDigest (w : World) (name sha256 : String) (strict : Bool) : Bool :=
  w.receipts.any fun r => r.current w && r.name = name && r.sha256 = sha256 &&
    (!strict || r.fullInProcess)

/-- `forget`. -/
def World.forget (w : World) (name : String) : World :=
  { w with receipts := w.receipts.filter fun r => r.name ≠ name }

/-- `remember_proof`, for a file with a lease: at most eight receipts, the oldest dropped first. -/
def World.remember (w : World) (r : Receipt) : World :=
  let kept := w.receipts.filter fun k => k.name ≠ r.name && k.current w
  { w with receipts := kept.drop (kept.length - 7) ++ [r] }

/-! ## Steps -/

inductive Op where
  | guardSource
  | createRoot
  | lock
  | cleanStaging
  | fetchReleases (url : String)
  | fetchManifest (url : String)
  | read (slot : Slot)
  | list
  | observe (name : String)
  | hash (name : String)
  | openDatabase (name : String)
  | verifyContents (name : String)
  | writeStamp (name : String)
  | rememberProof (name : String)
  | createStage
  | download (url : String)
  | decode
  | drawName (sha256 : String)
  | createLease (name : String)
  | place (name : String)
  | remove (name : String)
  | removeLease (name : String)
  | removeStamp (name : String)
  | createTemp
  | writeTemp
  | placePointer (slot : Slot)
  | syncDirectory
  | openLease (name : String)
  | tryLock (name : String)
  | restart
  deriving DecidableEq, Repr

/-- How the environment answers a step. The content of a download is what it decodes to, if it
decodes. -/
inductive Reply where
  | ok
  | fail (text : String)
  | json (value : Json)
  | refused (e : TransportError)
  | body (stats : DownloadStats) (content : Option DatabaseFile)
  | uuid (text : String)

abbrev Step (α : Type) := Prog World Op Reply String α

def Reply.io : Reply → Except String Unit
  | .fail text => .error text
  | .refused e => .error e.text
  | _ => .ok ()

/-- A file operation: on success it changes the directory by `f`. -/
def ioStep (op : Op) (f : World → World) : Step Unit :=
  .perform op fun reply w =>
    match reply.io with
    | .ok () => (.ok (), f w)
    | .error e => (.error e, w)

/-- A step that leaves the directory as it is. -/
def inspect {α : Type} (op : Op) (f : Reply → World → Except String α) : Step α :=
  .perform op fun reply w => (f reply w, w)

def guardThat (ok : Bool) (e : String) : Step Unit := if ok then pure () else .throw e

def orThrow {α : Type} (e : String) : Option α → Step α
  | some a => pure a
  | none => .throw e

def fetchJson (op : Op) : Step Json :=
  inspect op fun reply _ =>
    match reply with
    | .json value => .ok value
    | .refused e => .error e.text
    | .fail text => .error text
    | _ => .error "no response"

/-! ## Verification -/

structure Expected where
  sha256 : String
  size : ℕ
  sourceVersion : String
  revision : U64
  compilerVersion : String
  deriving DecidableEq, Repr

/-- `Observation::begin`: the file that is looked at from here on. -/
def observe (name : String) : Step DatabaseFile :=
  inspect (.observe name) fun reply w =>
    match reply.io, w.file? name with
    | .ok (), some file => .ok file
    | .error e, _ => .error e
    | _, none => .error "No such file or directory"

def World.hash (name : String) (reply : Reply) (w : World) : Except String String × World :=
  match reply.io, w.file? name with
  | .ok (), some file => (.ok file.sha256, { w with hashed := (name, file.sha256) :: w.hashed })
  | .error e, _ => (.error e, w)
  | _, none => (.error "No such file or directory", w)

/-- `hash_file`. -/
def hashFile (name : String) : Step String := .perform (.hash name) (World.hash name)

/-- The bytes are read unless a receipt vouches for them. -/
def authenticate (name sha256 : String) : Bool → Step Unit
  | true => pure ()
  | false => do
    let digest ← hashFile name
    guardThat (digest = sha256) "SQLite file size/SHA-256 mismatch"

def checkMetadata (file : DatabaseFile) (key wanted : String) : Step Unit :=
  guardThat (file.metadata.lookup key = some wanted) ("SQLite metadata mismatch: " ++ key)

/-- `verify_contents`, skipped where a stamp of an earlier run covers the file. -/
def verifyContents (name : String) (file : DatabaseFile) : Bool → Step Unit
  | false => pure ()
  | true => inspect (.verifyContents name) fun reply _ =>
    reply.io.bind fun _ => if file.sound then .ok () else .error "integrity check failed"

/-- `stamp::remember`, best effort. -/
def rememberStamp (name : String) (expected : Expected) : Bool → Step Unit
  | false => pure ()
  | true => Prog.ignore (ioStep (.writeStamp name) fun w =>
    { w.removeStamp name with
      stamps := (name, expected.sha256, expected.size) :: (w.removeStamp name).stamps })

/-- `remember_proof`: without a lease nothing is remembered. -/
def rememberProof (name sha256 : String) (file : DatabaseFile) (full : Bool) : Step Unit :=
  ioStep (.rememberProof name) fun w =>
    if name ∈ w.leases then w.remember ⟨name, file, sha256, full⟩ else w

/-- What a file still has to pass that no receipt covers. -/
def proveContents (name : String) (file : DatabaseFile) (expected : Expected) (full : Bool) :
    Bool → Step Unit
  | true => pure ()
  | false => do
    verifyContents name file full
    rememberStamp name expected full
    rememberProof name expected.sha256 file full

/-- `admit`, for a managed file. -/
def admitFile (name : String) (expected : Expected) (strict fresh : Bool) : Step Unit := do
  let file ← observe name
  guardThat (file.size = expected.size) "SQLite file size/SHA-256 mismatch"
  let reused ← Prog.read fun w => !fresh && w.verifiedDigest name expected.sha256 strict
  authenticate name expected.sha256 reused
  ioStep (.openDatabase name) id
  guardThat (file.metadata.lookup "derived_complete" = some "1") "SQLite query data is incomplete"
  checkMetadata file "source_version" expected.sourceVersion
  checkMetadata file "publication_revision" expected.revision.val.repr
  checkMetadata file "compiler_version" expected.compilerVersion
  let stamped ← Prog.read fun w =>
    decide (w.stamps.lookup name = some (expected.sha256, expected.size))
  proveContents name file expected (fresh || strict || !stamped) reused

/-- `verify`. -/
def verify (name : String) (m : DatabaseManifest) (strict fresh : Bool) : Step Unit :=
  admitFile name ⟨m.sha256, m.size.val, m.sourceVersion, m.publicationRevision, m.compilerVersion⟩
    strict fresh

/-! ## Pointers -/

/-- `database::active`: its error is a value here. -/
def readPointer (slot : Slot) : Step (Except String (Option ActiveDatabase)) :=
  inspect (.read slot) fun reply w => .ok (reply.io.bind fun _ => w.pointer slot)

/-- The text of a pointer that may be written. -/
def encodeOrThrow (p : ActiveDatabase) : Step String :=
  match p.encode with
  | .ok text => pure text
  | .error e => .throw e

/-- `write_pointer`. -/
def writePointer (slot : Slot) (p : ActiveDatabase) : Step Unit := do
  ioStep .createTemp id
  let text ← encodeOrThrow p
  ioStep .writeTemp id
  ioStep (.placePointer slot) fun w => w.setPointer slot text
  ioStep .syncDirectory id

/-- The pointer that stood before, if another generation whose file is intact. -/
def keepPrevious (p old : ActiveDatabase) : Step Unit := do
  if old.fileName ≠ p.fileName ∧ old.sha256 ≠ p.sha256 then
    match ← Prog.attempt (δ := String) (hashFile old.fileName) with
    | .ok digest => if digest = old.sha256 then writePointer .previous old else pure ()
    | .error _ => pure ()
  else pure ()

def retireActive (p : ActiveDatabase) : Except String (Option ActiveDatabase) → Step Unit
  | .ok (some old) => keepPrevious p old
  | _ => pure ()

/-- `activate`. -/
def activate (p : ActiveDatabase) : Step Unit := do
  let current ← readPointer .active
  retireActive p current
  writePointer .active p

/-! ## Clean-up -/

/-- What a directory listing shows of the store. -/
inductive Entry where
  | database (name : String)
  | lease (name : String)
  | stamp (name : String)
  deriving DecidableEq, Repr

def World.entries (w : World) : List Entry :=
  w.files.map (fun f => .database f.1) ++ w.leases.map .lease ++ w.stamps.map fun s => .stamp s.1

def listEntries : Step (Except String (List Entry)) :=
  inspect .list fun reply w => .ok (reply.io.map fun _ => w.entries)

def uuidSuffix (s : List Char) : Bool := s.length = 32 && s.all isLowerHex

/-- `owned_database`: `<sha256>-<uuid>.sqlite`. -/
def ownedDatabase (name : String) : Bool :=
  let stem := name.toList.take (name.toList.length - 7)
  sqliteSuffix.isSuffixOf name.toList && stem.contains '-' &&
    isDigest (String.ofList (stem.takeWhile (· ≠ '-'))) &&
    uuidSuffix ((stem.dropWhile (· ≠ '-')).tail)

/-- The lease of a file is opened, our own receipt is dropped, and the lease is locked. -/
def pruneDatabase (name : String) : Step Unit := do
  ioStep (.openLease name) fun w => w.forget name
  ioStep (.tryLock name) id
  ioStep (.remove name) fun w => (w.remove name).forget name
  Prog.ignore (ioStep (.removeLease name) fun w => w.removeLease name)
  Prog.ignore (ioStep (.removeStamp name) fun w => w.removeStamp name)

/-- An orphaned lease goes unless another process holds it. -/
def pruneLease (name : String) : Step Unit := do
  ioStep (.openLease name) id
  ioStep (.tryLock name) id
  ioStep (.removeLease name) fun w => w.removeLease name

def fileExists (name : String) : Step Bool := .read fun w => (w.file? name).isSome

def hasLease (name : String) : Step Bool := .read fun w => decide (name ∈ w.leases)

/-- One entry of the loop of `prune`. -/
def pruneEntry (current : ActiveDatabase) (retained : Option ActiveDatabase) : Entry → Step Unit
  | .database name => do
    let leased ← hasLease name
    if name = current.fileName ∨ retained.any (fun p => name = p.fileName) ∨ !ownedDatabase name ∨
        !leased then pure ()
    else Prog.ignore (pruneDatabase name)
  | .lease name => do
    let found ← fileExists name
    if !ownedDatabase name ∨ found then pure () else Prog.ignore (pruneLease name)
  | .stamp name => do
    let found ← fileExists name
    if !ownedDatabase name ∨ found then pure ()
    else Prog.ignore (ioStep (.removeStamp name) fun w => w.removeStamp name)

/-- `prune`. -/
def prune (current : ActiveDatabase) : Step Unit := do
  let retained ← readPointer .previous
  match ← listEntries with
  | .ok entries => Prog.forEach (pruneEntry current retained.toOption.join) entries
  | .error _ => pure ()

/-! ## Publication -/

def generationName (sha256 uuid : String) : String := sha256 ++ "-" ++ uuid ++ ".sqlite"

def drawName (sha256 : String) : Step String :=
  inspect (.drawName sha256) fun reply _ =>
    match reply with
    | .uuid text => .ok (generationName sha256 text)
    | _ => .error "no random bytes"

/-- `create_new` on the lease. -/
def createLease (name : String) : Step Unit :=
  .perform (.createLease name) fun reply w =>
    match reply.io with
    | .error e => (.error e, w)
    | .ok () =>
      if name ∈ w.leases then (.error "File exists", w)
      else (.ok (), { w with leases := name :: w.leases })

def DatabaseManifest.pointer (m : DatabaseManifest) (name : String) : ActiveDatabase :=
  ⟨name, m.sourceVersion, m.publicationRevision, m.sha256⟩

/-- `publish`. -/
def publish (file : DatabaseFile) (m : DatabaseManifest) (strict : Bool) :
    Step ActiveDatabase := do
  let name ← drawName m.sha256
  createLease name
  ioStep (.place name) fun w => w.put name file
  match ← Prog.attempt (δ := String) (verify name m strict true) with
  | .error e => do
    Prog.ignore (ioStep (.remove name) fun w => w.remove name)
    Prog.ignore (ioStep (.removeLease name) fun w => w.removeLease name)
    .throw e
  | .ok () => do
    activate (m.pointer name)
    return m.pointer name

/-- The first of some files that verifies. -/
def firstVerified (m : DatabaseManifest) (strict : Bool) : List String → Step (Option String)
  | [] => pure none
  | name :: names => do
    match ← Prog.attempt (δ := String) (verify name m strict true) with
    | .ok () => return some name
    | .error _ => firstVerified m strict names

def Entry.cachedName (sha256 : String) : Entry → Option String
  | .database name =>
    if (sha256 ++ "-").toList.isPrefixOf name.toList && ownedDatabase name then some name else none
  | _ => none

/-- `cached`. -/
def cached (m : DatabaseManifest) (strict : Bool) : Step (Option String) := do
  match ← listEntries with
  | .ok entries =>
    firstVerified m strict ((entries.filterMap (Entry.cachedName m.sha256)).insertionSort (· ≤ ·))
  | .error _ => pure none

/-! ## The sync -/

def repair (p : ActiveDatabase) : Bool → Step Unit
  | true => activate p
  | false => pure ()

/-- The active generation is the one wanted; it is restored where its pointer was invalid. -/
def settle (p : ActiveDatabase) (repairActive : Bool) : Step (Option Bool) := do
  repair p repairActive
  prune p
  return some repairActive

/-- A cached file is activated; none is left to the download. -/
def prepareCached (m : DatabaseManifest) (strict : Bool) : Step (Option Bool) := do
  match ← cached m strict with
  | some name => do
    activate (m.pointer name)
    prune (m.pointer name)
    return some true
  | none => return none

def prepareFrom (m : DatabaseManifest) (strict repairActive : Bool) :
    Option ActiveDatabase → Step (Option Bool)
  | none => prepareCached m strict
  | some p =>
    if m.generation < p.generation then .throw "SQLite release downgrade rejected"
    else if p.generation = m.generation ∧ p.sha256 ≠ m.sha256 then
      .throw "same SQLite generation has a different digest; publish a new revision"
    else if p.sha256 = m.sha256 then do
      match ← Prog.attempt (δ := String) (verify p.fileName m strict false) with
      | .ok () => settle p repairActive
      | .error _ => prepareCached m strict
    else prepareCached m strict

/-- `prepare`: whether the store is updated, or `none` for a download. -/
def prepare (m : DatabaseManifest) (strict : Bool) : Step (Option Bool) := do
  match ← readPointer .active with
  | .ok pointer => prepareFrom m strict false pointer
  | .error _ => do
    let previous ← readPointer .previous
    prepareFrom m strict true previous.toOption.join

def newestRelease (releases : List Json) : Step Json :=
  match latestDataRelease releases with
  | .ok latest => orThrow "No data release" latest
  | .error e => .throw e.text

/-- The newest data release, its identity, and the descriptor of its database. -/
def discover (owner repo : String) : Step (Json × DatabaseManifest) := do
  let data ← fetchJson (.fetchReleases (releasesUrl owner repo))
  let releases ← orThrow "SQLite release discovery failed" data.asArray
  let latest ← newestRelease releases
  let tag ← orThrow "Missing data release tag" (latest.getStr "tag_name")
  let version ← orThrow "Invalid data release tag" (parseDataTag tag)
  let url ← orThrow "SQLite release has no manifest" (assetUrl latest "manifest.json")
  let value ← fetchJson (.fetchManifest url)
  match DatabaseManifest.fromRelease value version.versionId version.revision with
  | .ok m => return (latest, m)
  | .error e => .throw e

/-- `download_limited`, checked against the descriptor, and `decode`. -/
def transfer (release : Json) (m : DatabaseManifest) : Step DatabaseFile := do
  ioStep .createStage id
  let url ← orThrow "SQLite release asset missing" (assetUrl release m.asset)
  let content ← inspect (.download url) fun reply _ =>
    match reply with
    | .body stats content =>
      if stats.bytes = m.compressedSize.val ∧ stats.sha256 = m.compressedSha256 then .ok content
      else .error "SQLite compressed download size/SHA-256 mismatch"
    | .refused e => .error e.text
    | .fail text => .error text
    | _ => .error "no response"
  inspect .decode fun reply _ =>
    match reply.io, content with
    | .error e, _ => .error e
    | .ok (), none => .error "corrupt deflate stream"
    | .ok (), some file =>
      if file.size = m.size.val then .ok file
      else .error "decoded SQLite length mismatch"

/-- `sync_with_source`. -/
def syncWithSource (owner repo : String) (strict : Bool) : Step Bool := do
  ioStep .guardSource id
  ioStep .createRoot id
  ioStep .lock id
  ioStep .guardSource id
  Prog.ignore (ioStep .cleanStaging id)
  let (release, m) ← discover owner repo
  match ← prepare m strict with
  | some updated => return updated
  | none => do
    let file ← transfer release m
    let current ← publish file m strict
    prune current
    return true

/-- A sync of the process, or a new process without receipts. -/
inductive Call where
  | sync (owner repo : String) (strict : Bool)
  | restart
  deriving DecidableEq, Repr

def Call.prog : Call → Step Unit
  | .sync owner repo strict => Prog.void (syncWithSource owner repo strict)
  | .restart => ioStep .restart fun w => { w with receipts := [] }

def visits (calls : List (Call × List Reply)) (w : World) : List (Visit World Op Reply) :=
  session (calls.map fun c => (c.1.prog, c.2)) w

end PrtsMcp.DatabaseSync
