import PrtsMcp.GamedataStore

/-!
# Archive activation and the gamedata pair

One archive is downloaded by the release sync, extracted into a fresh generation tree and activated
by its extract record; the pair pointer switches once both archives stand at one commit sha.
-/
namespace PrtsMcp.PairSync

open Process SyncTypes FileSteps ReleaseSync GamedataStore ZipValidation

def releaseRetentionMs : ℕ := 24 * 60 * 60000

/-- `sync_release` on one of the two archives. -/
def syncReleaseOf (mirrors : List String) (spec : ReleaseArchiveSpec) (side : Side)
    (forceCheck : Bool) : Step World SyncResult :=
  (syncRelease mirrors spec.releaseSpec forceCheck).zoom
    (fun w => ⟨w.machine, w.release side⟩)
    (fun s w => { w with machine := s.machine, release := Function.update w.release side s.dir })
    (fun w => by simp)

/-! ## The extract record and the generation trees -/

def loadExtractMeta (spec : ReleaseArchiveSpec) (side : Side) : Step World (Option LoadedMeta) :=
  inspect (.readExtractMeta side) fun reply w =>
    match reply.io with
    | .ok () => .ok ((w.store.archive side).loadedMeta spec)
    | .error _ => .ok none

def archiveFilesPresent (spec : ReleaseArchiveSpec) (side : Side) (path : DirPath) :
    Step World Bool :=
  inspect (.checkFiles side) fun reply w =>
    .ok (reply.io.isOk && (w.store.archive side).filesPresent spec path.ref)

/-- The record's target, or else the local root. -/
def rootOf (spec : ReleaseArchiveSpec) (extractMeta : Option LoadedMeta) : DirPath :=
  extractMeta.elim spec.rootPath LoadedMeta.dataRoot

/-- `releases_path`: fails on a symbolic link or where the directory cannot be made. -/
def releasesPath (side : Side) : Step World Unit := ioStep (.createReleases side) id

/-- Remove an entry older than the cutoff; a removal that fails halfway takes its files. -/
def pruneEntry (side : Side) (cutoff : ℕ) (entry : ℕ × Bool) : Step World Unit :=
  step (.prune side entry.1 entry.2) fun reply w =>
    let expired := Tree.expired entry.1 entry.2 cutoff
    match reply with
    | .fail _ => (.ok (), w)
    | .torn _ => (.ok (), w.onTrees side (updateWhere expired Tree.emptied))
    | _ => (.ok (), w.onTrees side (dropWhere expired))

/-- `read_dir` of `.releases`; the answer is empty where it fails. -/
def listReleases (side : Side) : Step World (List (ℕ × Bool)) :=
  inspect (.listReleases side) fun reply w =>
    match reply.io with
    | .ok () => .ok ((w.store.archive side).trees.map fun t => (t.generation, t.staging))
    | .error _ => .ok []

/-- The name of an entry is among the kept paths; those never name a staging directory. -/
def keepsEntry (spec : ReleaseArchiveSpec) (keep : List DirPath) (entry : ℕ × Bool) : Bool :=
  !entry.2 && spec.generationPath entry.1 ∈ keep

/-- `prune_old_trees`, hidden entries included. -/
def pruneOldTrees (spec : ReleaseArchiveSpec) (side : Side) (keep : List DirPath) :
    Step World Unit := do
  let cutoff ← .read fun w => w.machine.now - releaseRetentionMs
  let entries ← listReleases side
  Prog.forEach (pruneEntry side cutoff) (entries.filter fun entry => !keepsEntry spec keep entry)

def pruneReleaseTrees (spec : ReleaseArchiveSpec) (side : Side) (keep : List DirPath) :
    Step World Unit := do
  match ← Prog.attempt (δ := SyncError) (releasesPath side) with
  | .ok () => pruneOldTrees spec side keep
  | .error _ => pure ()

/-! ## Extraction -/

/-- Follow the parts of a path from the parts passed so far; `none` once it leaves the start. -/
def resolveParts : List (List Char) → List (List Char) → Option (List (List Char))
  | passed, [] => some passed
  | passed, part :: parts =>
    if part = [] ∨ part = ['.'] then resolveParts passed parts
    else if part = ['.', '.'] then
      match passed with
      | [] => none
      | _ :: before => resolveParts before parts
    else resolveParts (part :: passed) parts

/-- `resolve_inside_lexical`, relative to the staging directory. A member that leaves that
directory, or is absolute, could come back only by its random name. -/
def resolveInside (name : String) : Option String :=
  let chars := name.toList.map fun c => if c = '\\' then '/' else c
  if chars.head? = some '/' then none
  else (resolveParts [] (chars.splitOn '/')).map fun parts =>
    String.ofList (['/'].intercalate parts.reverse)

def isDirEntry (e : ZipEntry) : Bool :=
  e.name.toList.getLast? = some '/' || e.name.toList.getLast? = some '\\'

def topOf (path : String) : List Char := path.toList.takeWhile (· ≠ '/')

/-- A file written through `<dest>.tmp`. -/
def Dir.addFile (dest : String) (d : Dir) : Dir :=
  { d with files := d.files.filter (fun f => f ≠ dest ++ ".tmp" ∧ f ≠ dest) ++ [dest] }

/-- The staging directory of a zip with one more file; the first file makes the directory. A new
entry of its top level changes its time. -/
def stageFile (generation now : ℕ) (release label dest : String) (trees : List Tree) : List Tree :=
  if trees.any (Tree.is generation true) then
    updateWhere (Tree.is generation true) (fun t =>
      { t with
        mtime := if topOf dest = dest.toList ∨ t.dir.files.all (topOf · ≠ topOf dest) then now
          else t.mtime
        dir := Dir.addFile dest t.dir }) trees
  else trees ++ [⟨generation, true, now, ⟨[dest], release, label⟩⟩]

/-- The staging directory, where it is missing. -/
def stageDir (generation now : ℕ) (release label : String) (trees : List Tree) : List Tree :=
  if trees.any (Tree.is generation true) then trees
  else trees ++ [⟨generation, true, now, ⟨[], release, label⟩⟩]

/-- One entry; a failure can leave the staging directory behind without the file. -/
def extractEntry (side : Side) (label : String) (generation : ℕ) (z : ZipFile) (e : ZipEntry) :
    Step World Unit :=
  if e.opens = false then .throw (.message "zip entry cannot be read")
  else if isDirEntry e then pure ()
  else match resolveInside e.name with
  | none => .throw (.message ("Unsafe zip member path: " ++ e.name))
  | some dest => step (.extractEntry side generation) fun reply w =>
    match reply with
    | .fail text => (.error (.io text), w)
    | .torn text =>
      (.error (.io text), w.onTrees side (stageDir generation w.machine.now z.release label))
    | _ => (.ok (), w.onTrees side (stageFile generation w.machine.now z.release label dest))

/-- Open the zip, under the next random suffix. -/
def openZip (side : Side) (label : String) : Step World (ZipFile × List ZipEntry) :=
  step (.extract side label) fun reply w =>
    let named := OnMachine.onMachine (fun m => { m with fresh := m.fresh + 1 }) w
    match reply.io, (w.release side).zip with
    | .error e, _ => (.error e, named)
    | .ok (), .file z =>
      match z.archive with
      | .ok entries => (.ok (z, entries), named)
      | .error text => (.error (.message text), named)
    | .ok (), _ => (.error (.io "No such file or directory"), named)

/-- `archive_missing_files` of the staging directory. -/
def missingFiles (spec : ReleaseArchiveSpec) (trees : List Tree) (generation : ℕ) : List String :=
  match trees.find? (Tree.is generation true) with
  | some t => spec.requiredFiles.filter (· ∉ t.dir.files)
  | none => spec.requiredFiles

def checkStaging (spec : ReleaseArchiveSpec) (side : Side) (generation : ℕ) : Step World Unit :=
  inspect (.checkStaging side) fun reply w =>
    let missing := match reply.io with
      | .ok () => missingFiles spec (w.store.archive side).trees generation
      | .error _ => spec.requiredFiles
    if missing = [] then .ok ()
    else .error (.message ("Archive extraction missing required files: " ++
      String.intercalate "; " (missing.take 10)))

/-- `remove_dir_all` of the staging directory. -/
def removeStaging (side : Side) (generation : ℕ) : Step World Unit :=
  step (.removeStaging side generation) fun reply w =>
    match reply with
    | .fail text => (.error (.io text), w)
    | .torn text =>
      (.error (.io text), w.onTrees side (updateWhere (Tree.is generation true) Tree.emptied))
    | _ => (.ok (), w.onTrees side (dropWhere (Tree.is generation true)))

/-- `safe_extract_zip` into the staging directory, and the check of the required files. -/
def extractTo (spec : ReleaseArchiveSpec) (side : Side) (label : String) (generation : ℕ) :
    Step World Unit := do
  let (z, entries) ← openZip side label
  Prog.forEach (extractEntry side label generation z) entries
  checkStaging spec side generation

/-- `stage_release_tree`. The answer is the generation. -/
def stageReleaseTree (spec : ReleaseArchiveSpec) (side : Side) (label : String) :
    Step World ℕ := do
  releasesPath side
  let generation ← .read fun w => w.machine.fresh
  match ← Prog.attempt (extractTo spec side label generation) with
  | .ok () => return generation
  | .error e => do
    Prog.ignore (removeStaging side generation)
    .throw e

/-- The release's commit sha, or else the digest of the zip, which panics where it cannot be
read. -/
def archiveActivationSha (side : Side) (releaseSha : Option String) : Step World String :=
  match releaseSha with
  | some sha => pure sha
  | none => do
    let digest ← Prog.attempt (δ := SyncError) (inspect (.hashZip side)
      fun reply w =>
        match reply.io, (w.release side).zip with
        | .ok (), .file z => .ok z.sha256
        | .ok (), _ => .error (.io "No such file or directory")
        | .error e, _ => .error e)
    match digest with
    | .ok sha => return "local-" ++ sha
    | .error _ => .halt

/-! ## Activation -/

/-- The rename of the staging directory. -/
def activate (side : Side) (generation : ℕ) : Step World Unit :=
  step (.activate side generation) fun reply w =>
    match reply.io with
    | .error e => (.error e, w)
    | .ok () =>
      if (w.store.archive side).trees.any (Tree.is generation true) then
        (.ok (), w.onTrees side (updateWhere (Tree.is generation true) Tree.activated))
      else (.error (.io "No such file or directory"), w)

/-- `touch`, which ignores its failure. Only trees of `.releases` are ever judged by their time. -/
def touch (side : Side) (path : DirPath) : Step World Unit :=
  match path.ref with
  | .tree generation => Prog.ignore (ioStep (.touch side generation) fun w =>
      w.onTrees side (updateWhere (Tree.is generation false) (Tree.touched w.machine.now)))
  | _ => pure ()

/-- The parent of a resolved path is `.releases` of the local root as it is spelled. -/
def inReleases (spec : ReleaseArchiveSpec) (path : DirPath) : Bool :=
  match path.ref with
  | .tree _ => path.base = spec.localRoot.spelled
  | _ => false

def touchIf (side : Side) (path : DirPath) (owned : Bool) : Step World Unit :=
  if owned then touch side path else pure ()

/-- Refresh the tree that is about to be retired. -/
def touchRetired (spec : ReleaseArchiveSpec) (side : Side) (path : DirPath) :
    Step World Unit := do
  match ← Prog.attempt (δ := SyncError) (releasesPath side) with
  | .ok () => touchIf side path (inReleases spec path)
  | .error _ => pure ()

def saveExtractMeta (side : Side) (label : String) (path : DirPath) : Step World Unit :=
  atomicWriteJson (.placeExtractMeta side) fun w =>
    { w with store := w.store.setExtractMeta side ⟨label, path.ref⟩ }

/-- The record stands at this commit sha already, with all its files. -/
def alreadyActive (spec : ReleaseArchiveSpec) (side : Side) (label : String)
    (current : Option LoadedMeta) : Step World Bool :=
  if current.map LoadedMeta.commitSha = some label then
    archiveFilesPresent spec side (rootOf spec current)
  else pure false

def switchTo (spec : ReleaseArchiveSpec) (side : Side) (label : String) (generation : ℕ)
    (currentRoot : DirPath) : Step World SyncResult := do
  activate side generation
  touchRetired spec side currentRoot
  saveExtractMeta side label (spec.generationPath generation)
  pruneReleaseTrees spec side [currentRoot, spec.generationPath generation]
  return ⟨.updated, some label, none⟩

def activateStaged (spec : ReleaseArchiveSpec) (side : Side) (label : String) (generation : ℕ) :
    Step World SyncResult := do
  let current ← loadExtractMeta spec side
  match ← alreadyActive spec side label current with
  | true => do
    Prog.ignore (removeStaging side generation)
    return ⟨.upToDate, some label, none⟩
  | false => switchTo spec side label generation (rootOf spec current)

def extractAndActivate (spec : ReleaseArchiveSpec) (side : Side) (releaseSha : Option String) :
    Step World SyncResult := do
  let label ← archiveActivationSha side releaseSha
  let generation ← stageReleaseTree spec side label
  match ← Prog.attempt (activateStaged spec side label generation) with
  | .ok result => return result
  | .error e => do
    Prog.ignore (removeStaging side generation)
    .throw e

/-! ## One archive -/

def shouldExtract (result : SyncResult) (filesOk : Bool) (extractedSha : Option String) : Bool :=
  result.status = .updated || !filesOk || extractedSha.isNone ||
    result.commitSha.any fun sha => extractedSha ≠ some sha

/-- The result where no new tree was activated. -/
def fallback (filesOk : Bool) (commitSha error : Option String) : SyncResult :=
  ⟨if filesOk then .offlineFallback else .noData, commitSha, error⟩

def extractOrFallBack (spec : ReleaseArchiveSpec) (side : Side) (activeRoot : DirPath)
    (released : SyncResult) : Step World SyncResult := do
  match ← Prog.attempt (extractAndActivate spec side released.commitSha) with
  | .ok result => return result
  | .error e =>
    let filesOk ← archiveFilesPresent spec side activeRoot
    return fallback filesOk released.commitSha (some e.text)

def syncReleaseArchiveLocked (mirrors : List String) (spec : ReleaseArchiveSpec) (side : Side)
    (forceCheck : Bool) : Step World SyncResult := do
  let released ← syncReleaseOf mirrors spec side forceCheck
  let extractMeta ← loadExtractMeta spec side
  let activeRoot := rootOf spec extractMeta
  pruneReleaseTrees spec side [activeRoot]
  let filesOk ← archiveFilesPresent spec side activeRoot
  if released.status = .noData then
    return fallback filesOk released.commitSha released.error
  else if shouldExtract released filesOk (extractMeta.map LoadedMeta.commitSha) then
    extractOrFallBack spec side activeRoot released
  else return released

/-- The source of the spec and the marker of its root. -/
def ensureSource : Step World (Except String Unit) :=
  inspect .guardSource fun reply _ => .ok (reply.io.mapError SyncError.text)

/-- The body of `sync_release_archive` under the activation lock. -/
def syncReleaseArchiveUnderLock (mirrors : List String) (spec : ReleaseArchiveSpec) (side : Side)
    (forceCheck : Bool) : Step World SyncResult := do
  ioStep .createDir id
  ioStep .lock id
  let inner ← Prog.attempt (do
    match ← ensureSource with
    | .error e => return ⟨.noData, none, some e⟩
    | .ok () => syncReleaseArchiveLocked mirrors spec side forceCheck)
  Prog.ignore (ioStep .unlock id)
  orThrow inner

def syncReleaseArchive (mirrors : List String) (spec : ReleaseArchiveSpec) (side : Side)
    (forceCheck : Bool) : Step World SyncResult := do
  match ← ensureSource with
  | .error e => return ⟨.noData, none, some e⟩
  | .ok () =>
    match ← Prog.attempt (syncReleaseArchiveUnderLock mirrors spec side forceCheck) with
    | .ok result => return result
    | .error e =>
      let extractMeta ← loadExtractMeta spec side
      let filesOk ← archiveFilesPresent spec side (rootOf spec extractMeta)
      return fallback filesOk none (some e.text)

/-! ## The pair -/

def loadGamedataPair (specs : Specs) : Step World (Option PairMeta) :=
  inspect .readPair fun reply w =>
    match reply.io with
    | .ok () => .ok (w.store.loadedPair specs)
    | .error _ => .ok none

/-- `save_gamedata_pair`: an unchanged pair is not rewritten. -/
def saveGamedataPair (specs : Specs) (m : PairMeta) : Step World Unit := do
  let current ← loadGamedataPair specs
  if current = some m then pure ()
  else atomicWriteJson .placePair fun w => { w with store := { w.store with pair := some m } }

/-- Publish a pair if both halves have their required files. -/
def savePairIfPresent (specs : Specs) (m : PairMeta) : Step World Unit := do
  match ← archiveFilesPresent specs.excel .excel ⟨specs.excel.localRoot.real, m.excelRoot⟩ with
  | false => pure ()
  | true =>
    match ← archiveFilesPresent specs.levels .levels ⟨specs.levels.localRoot.real, m.levelsRoot⟩ with
    | false => pure ()
    | true => saveGamedataPair specs m

/-- The pair of two extract records at one commit sha. -/
def pairOf (excel levels : LoadedMeta) : Option PairMeta :=
  if excel.commitSha = levels.commitSha then
    some ⟨excel.commitSha, excel.dataRoot.ref, levels.dataRoot.ref⟩
  else none

def legacyPair : PairMeta := ⟨"legacy", .root, .root⟩

def initialPair : Option LoadedMeta → Option LoadedMeta → Option PairMeta
  | none, none => some legacyPair
  | some excel, some levels => pairOf excel levels
  | _, _ => none

def initializeGamedataPair (specs : Specs) : Step World Unit := do
  match ← loadGamedataPair specs with
  | some _ => pure ()
  | none =>
    let excelMeta ← loadExtractMeta specs.excel .excel
    let levelsMeta ← loadExtractMeta specs.levels .levels
    match initialPair excelMeta levelsMeta with
    | none => pure ()
    | some m => savePairIfPresent specs m

/-- Refresh both halves of the current pair. -/
def touchPair (specs : Specs) : Step World Unit := do
  match ← loadGamedataPair specs with
  | none => pure ()
  | some current =>
    touch .excel ⟨specs.excel.localRoot.real, current.excelRoot⟩
    touch .levels ⟨specs.levels.localRoot.real, current.levelsRoot⟩

/-- Switch the pair if both archives stand at one commit sha. -/
def publishPair (specs : Specs) : Step World Unit := do
  let excelMeta ← loadExtractMeta specs.excel .excel
  let levelsMeta ← loadExtractMeta specs.levels .levels
  match excelMeta, levelsMeta with
  | some excel, some levels =>
    match pairOf excel levels with
    | some m => savePairIfPresent specs m
    | none => pure ()
  | _, _ => pure ()

def ensureSourceOrThrow : Step World Unit := do
  let source ← ensureSource
  orThrow (source.mapError SyncError.message)

/-- The body of `sync_release_archive_pair` under the pair lock. -/
def syncPairLocked (mirrors : List String) (specs : Specs) (forceCheck : Bool) :
    Step World (SyncResult × SyncResult) := do
  ensureSourceOrThrow
  ensureSourceOrThrow
  initializeGamedataPair specs
  touchPair specs
  let excelResult ← syncReleaseArchive mirrors specs.excel .excel forceCheck
  let levelsResult ← syncReleaseArchive mirrors specs.levels .levels forceCheck
  publishPair specs
  return (excelResult, levelsResult)

def syncPairUnderLock (mirrors : List String) (specs : Specs) (forceCheck : Bool) :
    Step World (SyncResult × SyncResult) := do
  ioStep .createDir id
  ioStep .lock id
  let inner ← Prog.attempt (syncPairLocked mirrors specs forceCheck)
  Prog.ignore (ioStep .unlock id)
  orThrow inner

def parent (root : RootPath) : List String := root.absolute.dropLast

/-- `sync_release_archive_pair`: the two roots must share one parent. -/
def syncReleaseArchivePair (mirrors : List String) (specs : Specs) (forceCheck : Bool) :
    Step World (SyncResult × SyncResult) :=
  if parent specs.excel.localRoot = parent specs.levels.localRoot then
    syncPairUnderLock mirrors specs forceCheck
  else .throw (.message "GameData excel and levels roots must share one parent")

end PrtsMcp.PairSync
