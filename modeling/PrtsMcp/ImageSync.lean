import PrtsMcp.PairRuns

/-!
# Image generations

Both image formats are rebuilt in a staging directory of `.releases`, which is renamed to a new
generation before the pointer in the image directory's meta file names it. The rebuild then prunes
the generations it no longer keeps. What a rebuild downloads and checks is up to the environment;
the model follows the directories.
-/
namespace PrtsMcp.ImageSync

open Process SyncTypes FileSteps GamedataStore PairSync

def retentionMs : ℕ := 24 * 60 * 60 * 1000

/-- A directory of `.releases`. -/
structure ImageTree where
  entry : ImageEntry
  mtime : ℕ
  files : List String
  deriving DecidableEq, Repr

/-- Where `generation_root` leads inside the image directory. -/
inductive ImageRef where
  | generation (format : Format) (number : ℕ)
  | elsewhere (name : String)
  deriving DecidableEq, Repr

def ImageRef.number : ImageRef → Option (Format × ℕ)
  | generation format number => some (format, number)
  | elsewhere _ => none

/-- `pointer` is the `generation_root` of the meta file, where it is a string that is not empty.
`served` holds every generation that the pointer has named; no code reads it. -/
structure ImagesDir where
  pointer : Option ImageRef
  trees : List ImageTree
  elsewhere : String → Option (List String)
  served : List (Format × ℕ)

/-- The generation data and the images. -/
structure Root where
  pair : World
  images : ImagesDir

instance : OnMachine Root where
  machine r := r.pair.machine
  onMachine f r := { r with pair := OnMachine.onMachine f r.pair }
  onMachine_id _ := rfl
  machine_onMachine _ _ := rfl

def Root.machine (r : Root) : Machine := r.pair.machine

/-- The files of the directory that a reference leads to. -/
def ImagesDir.files? (d : ImagesDir) : ImageRef → Option (List String)
  | .generation format number =>
    (d.trees.find? fun t => t.entry = ⟨format, number, false⟩).map ImageTree.files
  | .elsewhere name => d.elsewhere name

/-- `active_generation`: the target of the pointer, if it has an index. -/
def ImagesDir.activeGeneration (d : ImagesDir) : Option ImageRef :=
  d.pointer.filter fun ref => (d.files? ref).any ("index.json" ∈ ·)

def ImagesDir.onTrees (f : List ImageTree → List ImageTree) (d : ImagesDir) : ImagesDir :=
  { d with trees := f d.trees }

def ImagesDir.point (ref : ImageRef) (d : ImagesDir) : ImagesDir :=
  { d with pointer := some ref, served := ref.number.toList ++ d.served }

def Root.onImages (f : ImagesDir → ImagesDir) (r : Root) : Root := { r with images := f r.images }

/-- What a removal that stops halfway leaves. -/
def ImageTree.emptied (t : ImageTree) : ImageTree := { t with files := [] }

def updateTrees (p : ImageTree → Bool) (f : ImageTree → ImageTree) (trees : List ImageTree) :
    List ImageTree :=
  trees.map fun t => if p t then f t else t

def dropTrees (p : ImageTree → Bool) (trees : List ImageTree) : List ImageTree :=
  trees.filter fun t => !p t

def ImageTree.at (entry : ImageEntry) (t : ImageTree) : Bool := t.entry = entry

def ImageTree.expired (entry : ImageEntry) (cutoff : ℕ) (t : ImageTree) : Bool :=
  t.at entry && t.mtime < cutoff

/-! ## Reading -/

/-- `active_generation`; a failed read finds nothing. -/
def activeGeneration : Step Root (Option ImageRef) :=
  inspect .readImagesMeta fun reply r =>
    match reply.io with
    | .ok () => .ok r.images.activeGeneration
    | .error _ => .ok none

/-- `read_dir` of `.releases`. -/
def listImages : Step Root (List ImageEntry) :=
  inspect .listImages fun reply r =>
    match reply.io with
    | .ok () => .ok (r.images.trees.map ImageTree.entry)
    | .error e => .error e

/-- `offline_or_no_data`. -/
def offlineOrNoData : Step Root SyncStatus := do
  let active ← activeGeneration
  return if active.isSome then .offlineFallback else .noData

/-! ## Removing -/

/-- `remove_dir_all` of one entry. -/
def removeImages (entry : ImageEntry) : Step Root Unit :=
  step (.removeImages entry) fun reply r =>
    match reply with
    | .fail text => (.error (.io text), r)
    | .torn text =>
      (.error (.io text), r.onImages (.onTrees (updateTrees (ImageTree.at entry) .emptied)))
    | _ => (.ok (), r.onImages (.onTrees (dropTrees (ImageTree.at entry))))

/-- Remove an entry older than the cutoff; failures are ignored. -/
def pruneImages (cutoff : ℕ) (entry : ImageEntry) : Step Root Unit :=
  step (.pruneImages entry) fun reply r =>
    let expired := ImageTree.expired entry cutoff
    match reply with
    | .fail _ => (.ok (), r)
    | .torn _ => (.ok (), r.onImages (.onTrees (updateTrees expired .emptied)))
    | _ => (.ok (), r.onImages (.onTrees (dropTrees expired)))

/-- `prune_old_trees`: all but the hidden entries and the new generation. -/
def pruneOldImages (format : Format) (generation : ℕ) : Step Root Unit := do
  let cutoff ← .read fun r => r.machine.now - retentionMs
  match ← Prog.attempt (δ := SyncError) listImages with
  | .error _ => pure ()
  | .ok entries =>
    Prog.forEach (pruneImages cutoff)
      (entries.filter fun e => !e.staging && e ≠ ⟨format, generation, false⟩)

/-- `cleanup_staging`: what an earlier v2 run left behind. -/
def cleanupStaging : Step Root Unit := do
  let entries ← listImages
  Prog.forEach removeImages (entries.filter fun e => e.format = .v2 && e.staging)

/-- The old v2 generations but the active one. -/
def pruneOrphans (format : Format) (number : ℕ) (entries : List ImageEntry) : Step Root Unit := do
  let cutoff ← .read fun r => r.machine.now - retentionMs
  Prog.forEach (pruneImages cutoff)
    (entries.filter fun e => e.format = .v2 && !e.staging && e ≠ ⟨format, number, false⟩)

/-- `cleanup_old`: only where the active generation is known and stands in `.releases`. -/
def cleanupOld : Step Root Unit := do
  match ← activeGeneration with
  | some (.generation format number) =>
    match ← Prog.attempt (δ := SyncError) (ioStep .resolveImages id) with
    | .error _ => pure ()
    | .ok () =>
      match ← Prog.attempt (δ := SyncError) listImages with
      | .error _ => pure ()
      | .ok entries => pruneOrphans format number entries
  | _ => pure ()

/-! ## Building a generation -/

/-- Make the staging directory under the next random suffix. The answer is the suffix. -/
def stageImages (format : Format) : Step Root ℕ :=
  step (.stageImages format) fun reply r =>
    let generation := r.machine.fresh
    let named := OnMachine.onMachine (fun m => { m with fresh := m.fresh + 1 }) r
    match reply.io with
    | .error e => (.error e, named)
    | .ok () => (.ok generation, named.onImages (.onTrees fun ts =>
        ts ++ [⟨⟨format, generation, true⟩, r.machine.now, []⟩]))

/-- One file written to the staging directory. -/
def ImageTree.write (now : ℕ) (file : String) (t : ImageTree) : ImageTree :=
  { t with mtime := now, files := t.files.filter (· ≠ file) ++ [file] }

def fillImages (entry : ImageEntry) (file : String) : Step Root Unit :=
  step (.fillImages entry) fun reply r =>
    let written := r.onImages (.onTrees (updateTrees (ImageTree.at entry)
      (ImageTree.write r.machine.now file)))
    match reply with
    | .fail text => (.error (.io text), r)
    | .torn text => (.error (.io text), written)
    | _ => (.ok (), written)

def ImageTree.activated (t : ImageTree) : ImageTree := { t with entry.staging := false }

/-- The rename of the staging directory. -/
def activateImages (format : Format) (generation : ℕ) : Step Root Unit :=
  step (.activateImages format generation) fun reply r =>
    let staged := ImageTree.at ⟨format, generation, true⟩
    match reply.io with
    | .error e => (.error e, r)
    | .ok () =>
      if r.images.trees.any staged then
        (.ok (), r.onImages (.onTrees (updateTrees staged .activated)))
      else (.error (.io "No such file or directory"), r)

/-- The files of a rebuild, its index and its meta file last. -/
def buildFiles (entry : ImageEntry) (work : List String) : Step Root Unit :=
  Prog.forEach (fillImages entry) (work ++ ["index.json", ".images_meta.json"])

/-- `save_meta` on the image directory. -/
def saveMeta (ref : ImageRef) : Step Root Unit :=
  atomicWriteJson .placeImagesMeta fun r => r.onImages (.point ref)

/-- `pathdiff_rel`, or `.` where a path cannot be resolved. -/
def generationRoot (generation : ℕ) : Step Root ImageRef :=
  inspect .resolveImages fun reply _ =>
    match reply.io with
    | .ok () => .ok (.generation .v1 generation)
    | .error _ => .ok (.elsewhere ".")

/-- Fill the v1 staging directory and rename it. -/
def buildV1 (generation : ℕ) (work : List String) : Step Root Unit := do
  buildFiles ⟨.v1, generation, true⟩ work
  Prog.ignore (removeImages ⟨.v1, generation, false⟩)
  activateImages .v1 generation

def publishV1 (generation : ℕ) : Step Root SyncStatus := do
  let ref ← generationRoot generation
  saveMeta ref
  pruneOldImages .v1 generation
  return .updated

/-- The rebuild of `sync_images_locked`. -/
def rebuildV1 (work : List String) : Step Root SyncStatus := do
  let generation ← stageImages .v1
  match ← Prog.attempt (buildV1 generation work) with
  | .ok () => publishV1 generation
  | .error e => do
    Prog.ignore (removeImages ⟨.v1, generation, true⟩)
    .throw e

/-- Fill the v2 staging directory and rename it. -/
def buildV2 (generation : ℕ) (work : List String) : Step Root Unit := do
  buildFiles ⟨.v2, generation, true⟩ work
  activateImages .v2 generation

/-- The pointer names the candidate, or the candidate is removed. -/
def publishV2 (generation : ℕ) : Step Root SyncStatus := do
  match ← Prog.attempt (saveMeta (.generation .v2 generation)) with
  | .ok () => do
    Prog.ignore (ioStep .removeTemp id)
    pruneOldImages .v2 generation
    return .updated
  | .error e => do
    Prog.ignore (removeImages ⟨.v2, generation, false⟩)
    .throw e

/-- The rebuild of `run_selected`. -/
def rebuildV2 (work : List String) : Step Root SyncStatus := do
  let generation ← stageImages .v2
  match ← Prog.attempt (buildV2 generation work) with
  | .ok () => publishV2 generation
  | .error e => do
    Prog.ignore (removeImages ⟨.v2, generation, true⟩)
    .throw e

/-! ## One sync -/

/-- What the chosen release and its indexes ask for: nothing, or a rebuild with these files. -/
abbrev Plan := Option (List String)

/-- The rest of a sync once the release is chosen; reading and checking its indexes can fail. -/
def follow (plan : Plan) (rebuild : List String → Step Root SyncStatus) :
    Step Root SyncStatus := do
  ioStep .planImages id
  match plan with
  | none => return .upToDate
  | some work => do
    ioStep .createDir id
    rebuild work

def guardSource : Step Root Unit := ioStep .guardSource id

def runV1 (plan : Plan) : Step Root SyncStatus := follow plan rebuildV1

/-- `run_selected`. -/
def runV2 (plan : Plan) : Step Root SyncStatus := do
  guardSource
  cleanupStaging
  cleanupOld
  follow plan rebuildV2

/-- The release list decides the format. -/
def runChosen (format : Format) (plan : Plan) : Step Root SyncStatus := do
  ioStep .selectImages id
  match format with
  | .v1 => runV1 plan
  | .v2 => runV2 plan

def syncImagesLocked (format : Format) (plan : Plan) : Step Root SyncStatus := do
  match ← Prog.attempt (runChosen format plan) with
  | .ok status => return status
  | .error (_ : SyncError) => offlineOrNoData

/-- The body of `sync_images` under the writer lease. -/
def syncImagesUnderLock (format : Format) (plan : Plan) : Step Root SyncStatus := do
  ioStep .createDir id
  ioStep .lock id
  let inner ← Prog.attempt (do
    match ← Prog.attempt (δ := SyncError) guardSource with
    | .error _ => return .noData
    | .ok () => syncImagesLocked format plan)
  Prog.ignore (ioStep .unlock id)
  ReleaseSync.orThrow inner

/-- `sync_images_with_source`. -/
def syncImages (format : Format) (plan : Plan) : Step Root SyncStatus := do
  match ← Prog.attempt (δ := SyncError) guardSource with
  | .error _ => return .noData
  | .ok () =>
    match ← Prog.attempt (syncImagesUnderLock format plan) with
    | .ok status => return status
    | .error (_ : SyncError) => offlineOrNoData

end PrtsMcp.ImageSync
