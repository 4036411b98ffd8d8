import PrtsMcp.DatabaseSync
import PrtsMcp.JsonView
import PrtsMcp.Snapshot

/-!
# The data view

What a tool call reads: a database among the candidates or the JSON data, resolved again when the
signature of the activation files changes.
-/
namespace PrtsMcp.DataSnapshot

open Runs (EveryPrefix EveryStep)
open SyncTypes GamedataStore JsonView DatabasePointer Snapshot
open DatabaseSync (Slot DatabaseFile)

inductive DataBackend where
  | json
  | sqlite
  deriving DecidableEq, Repr

/-- `customDatabase` says that a database is configured by its path, `bundled` that there is a
bundle and `strict` how files are validated. -/
structure RuntimeConfig where
  view : ViewConfig
  dataBackend : DataBackend
  allowJsonFallback : Bool
  customDatabase : Bool
  bundled : Bool
  strict : Bool
  deriving DecidableEq, Repr

/-- Where a database may stand; `cached` is a name in the database directory. -/
inductive DatabasePath where
  | custom
  | cached (fileName : String)
  | bundled
  deriving DecidableEq, Repr

/-- A file with the token of its identity. -/
structure Tokened (α : Type*) where
  token : String
  content : α
  deriving DecidableEq, Repr

/-- A database as its readers find it. `schema` and `quick` are the checks of its tables and pages;
`proven` says that a receipt or a stamp stands for the full check, and `locked` that another process
holds its lease. -/
structure Dataset where
  file : DatabaseFile
  schema : Bool
  quick : Bool
  proven : Bool
  locked : Bool
  deriving DecidableEq, Repr

/-- All files that a resolution or a signature reads, with the tokens of those that a signature
reads. -/
structure Files where
  disk : Disk
  pairToken : Option String
  extractToken : Side → Option String
  pointer : Slot → Option (Tokened String)
  database : DatabasePath → Option (Tokened Dataset)
  databaseVerified : Bool

/-- An open database and the data it serves. -/
structure DatabaseView where
  path : DatabasePath
  database : Tokened Dataset
  excel : Bool
  levels : Bool
  story : Bool
  deriving DecidableEq, Repr

inductive View where
  | json (view : DataView)
  | database (view : DatabaseView)
  deriving DecidableEq, Repr

/-- `DataView::unavailable`. -/
def unavailable : View := .json ⟨none, none, none⟩

structure DatabaseCandidate where
  path : DatabasePath
  pointer : Option ActiveDatabase
  deriving DecidableEq, Repr

/-- A pointer that can be read and parsed. -/
def Files.named (files : Files) (slot : Slot) : Option ActiveDatabase :=
  (files.pointer slot).bind fun file => (ActiveDatabase.parse file.content).toOption

def managed (p : ActiveDatabase) : DatabaseCandidate := ⟨.cached p.fileName, some p⟩

def candidates (config : RuntimeConfig) (files : Files) : List DatabaseCandidate :=
  if config.customDatabase then [⟨.custom, none⟩]
  else (files.named .active).toList.map managed ++ (files.named .previous).toList.map managed ++
    ⟨.cached "zh_CN.sqlite", none⟩ :: if config.bundled then [⟨.bundled, none⟩] else []

def contract : String := "prts-mcp-sqlite/v1"

/-- `for_verification`: the lease, and what every dataset declares. -/
def Dataset.opens (d : Dataset) : Bool :=
  !d.locked && d.schema && d.file.metadata.lookup "sources_complete" = some "1" &&
    d.file.metadata.lookup "contract" = some contract &&
    d.file.metadata.lookup "index_version" = some "1" &&
    d.file.metadata.lookup "language" = some "zh_CN"

/-- The checks of a file that a pointer names. -/
def Dataset.matchesPointer (d : Dataset) (p : ActiveDatabase) : Bool :=
  d.file.sha256 = p.sha256 && d.file.metadata.lookup "source_version" = some p.sourceVersion &&
    d.file.metadata.lookup "publication_revision" = some p.revision.val.repr &&
    (d.proven || d.file.sound)

/-- `check_custom`. -/
def Dataset.checkCustom (d : Dataset) (strict : Bool) : Bool :=
  if strict then d.file.sound else d.quick

/-- `admit`, as `open_ready` calls it. -/
def Dataset.openReady (d : Dataset) (strict : Bool) (pointer : Option ActiveDatabase) : Bool :=
  d.opens && d.file.metadata.lookup "derived_complete" = some "1" &&
    pointer.elim (d.checkCustom strict) d.matchesPointer

def Dataset.has (d : Dataset) (key : String) : Bool := d.file.metadata.lookup key = some "1"

/-- `from_database`. -/
def fromDatabase (path : DatabasePath) (database : Tokened Dataset) : DatabaseView :=
  ⟨path, database, database.content.has "excel_available", database.content.has "levels_available",
    database.content.has "story_available"⟩

def DatabaseView.hasData (view : DatabaseView) : Bool := view.excel || view.levels || view.story

/-- The view that a candidate gives: without data, only one that was configured by its path. -/
def Files.view? (config : RuntimeConfig) (files : Files) (candidate : DatabaseCandidate) :
    Option DatabaseView :=
  ((files.database candidate.path).filter fun d =>
    d.content.openReady config.strict candidate.pointer).map (fromDatabase candidate.path)
    |>.filter fun view => config.customDatabase || view.hasData

def resolveDatabaseView (config : RuntimeConfig) (files : Files) : Option DatabaseView :=
  (candidates config files).findSome? (files.view? config)

def resolveView (config : RuntimeConfig) (files : Files) : View :=
  match config.dataBackend with
  | .json => .json (JsonView.resolveView config.view files.disk)
  | .sqlite =>
    match resolveDatabaseView config files with
    | some view => .database view
    | none =>
      if config.allowJsonFallback then .json (JsonView.resolveView config.view files.disk)
      else unavailable

/-- The files whose tokens a signature holds. -/
inductive Watched where
  | pair
  | extractMeta (side : Side)
  | pointer (slot : Slot)
  | database (path : DatabasePath)
  deriving DecidableEq, Repr

abbrev Signature := List (Watched × Option String)

def jsonSignature (files : Files) : Signature :=
  [(.pair, files.pairToken), (.extractMeta .excel, files.extractToken .excel),
    (.extractMeta .levels, files.extractToken .levels)]

def pointerToken (files : Files) (slot : Slot) : Watched × Option String :=
  (.pointer slot, (files.pointer slot).map Tokened.token)

def databaseToken (files : Files) (path : DatabasePath) : Watched × Option String :=
  (.database path, (files.database path).map Tokened.token)

def databaseSignature (config : RuntimeConfig) (files : Files) : Signature :=
  pointerToken files .active :: pointerToken files .previous ::
    (candidates config files).map fun candidate => databaseToken files candidate.path

def activationSignature (config : RuntimeConfig) (files : Files) : Signature :=
  match config.dataBackend with
  | .json => jsonSignature files
  | .sqlite =>
    databaseSignature config files ++ if config.allowJsonFallback then jsonSignature files else []

/-- The markers of all data roots belong to the configured source. -/
def verifyData (config : RuntimeConfig) (files : Files) : Bool :=
  match config.dataBackend with
  | .json =>
    (config.view.isCustomGamedata ||
      (files.disk.verified .excel && files.disk.verified .levels)) &&
      (!config.view.storySyncEnabled || files.disk.story.verified)
  | .sqlite => config.customDatabase || files.databaseVerified

def reader (config : RuntimeConfig) : Reader Files Signature View where
  verifyData := verifyData config
  activationSignature := activationSignature config
  resolveView := resolveView config
  unavailable := unavailable

/-- Every change of a watched file changes its token. -/
structure Retokened (old new : Files) : Prop where
  pair : new.pairToken = old.pairToken → new.disk.store.pair = old.disk.store.pair
  extract : ∀ side, new.extractToken side = old.extractToken side →
    (new.disk.store.archive side).extractMeta = (old.disk.store.archive side).extractMeta
  pointer : ∀ slot, (new.pointer slot).map Tokened.token = (old.pointer slot).map Tokened.token →
    new.pointer slot = old.pointer slot
  database : ∀ path, (new.database path).map Tokened.token = (old.database path).map Tokened.token →
    new.database path = old.database path

/-- What a publication leaves, if the event is one. -/
def Publishes (P : Files → Files → Prop) (old : Files) : Event ℕ Files → Prop
  | .publish new => P old new
  | _ => True

section Sqlite

variable {config : RuntimeConfig} {old new : Files}

theorem candidates_congr (h : ∀ slot, new.pointer slot = old.pointer slot) :
    candidates config new = candidates config old := by
  have hnamed : ∀ slot, new.named slot = old.named slot := by
    intro slot
    rw [Files.named, h slot]
    rfl
  rw [candidates, candidates, hnamed, hnamed]

/-- The signature of the database files covers all that a database is resolved from. -/
theorem resolveDatabaseView_congr (hr : Retokened old new)
    (h : databaseSignature config new = databaseSignature config old) :
    resolveDatabaseView config new = resolveDatabaseView config old := by
  obtain ⟨hactive, htail⟩ := List.cons.inj h
  obtain ⟨hprevious, hdatabases⟩ := List.cons.inj htail
  have hpointer : ∀ slot, new.pointer slot = old.pointer slot := by
    intro slot
    apply hr.pointer
    cases slot
    · exact congrArg Prod.snd hactive
    · exact congrArg Prod.snd hprevious
  have hcandidates : candidates config new = candidates config old := candidates_congr hpointer
  rw [hcandidates] at hdatabases
  rw [resolveDatabaseView, resolveDatabaseView, hcandidates, ← List.head?_filterMap,
    ← List.head?_filterMap]
  apply congrArg List.head?
  apply List.filterMap_congr
  intro candidate hcandidate
  have htoken := List.map_inj_left.mp hdatabases candidate hcandidate
  have hdatabase := hr.database candidate.path (congrArg Prod.snd htoken)
  rw [Files.view?, Files.view?, hdatabase]

/-- With databases alone, what a signature of the same tokens stands for is the same view. -/
theorem resolveView_congr (hbackend : config.dataBackend = .sqlite)
    (hfallback : config.allowJsonFallback = false) (hr : Retokened old new)
    (h : activationSignature config new = activationSignature config old) :
    resolveView config new = resolveView config old := by
  simp only [activationSignature, hbackend, hfallback, Bool.false_eq_true, if_false,
    List.append_nil] at h
  simp only [resolveView, hbackend, hfallback, resolveDatabaseView_congr hr h,
    Bool.false_eq_true, if_false]

/-- A view is kept under the signature of the files as they stand, or under no signature that they
come back to. -/
def NoReturn (config : RuntimeConfig) (s : DataState ℕ Files Signature View) :
    Event ℕ Files → Prop
  | .publish new => ∀ entry ∈ s.cache, entry.1 = activationSignature config new →
    entry.1 = activationSignature config s.files
  | _ => True

theorem covered_of_sqlite (hbackend : config.dataBackend = .sqlite)
    (hfallback : config.allowJsonFallback = false) {s : DataState ℕ Files Signature View}
    (hs : s.Sound (reader config)) {e : Event ℕ Files} (he : Publishes Retokened s.files e)
    (hreturn : NoReturn config s e) : Covered (reader config) s e := by
  cases e with
  | begin q => trivial
  | act q => trivial
  | publish new =>
    intro entry hentry hsig
    have hold := hreturn entry hentry hsig
    have hcurrent := hs.current entry hentry hold
    have hsame : activationSignature config new = activationSignature config s.files :=
      hsig.symm.trans hold
    exact hcurrent.trans (resolveView_congr hbackend hfallback he hsame).symm

/-- Snapshots of databases alone are fresh. -/
theorem run_fresh_of_sqlite (hbackend : config.dataBackend = .sqlite)
    (hfallback : config.allowJsonFallback = false) (files : Files) {es : List (Event ℕ Files)}
    (hpublished : EveryStep (fun pre e =>
      Publishes Retokened (run (reader config) files pre).files e ∧
        NoReturn config (run (reader config) files pre) e) es) :
    EveryPrefix (FreshSnapshots (reader config) files) es := by
  have hsound : EveryPrefix (fun pre => (run (reader config) files pre).Sound (reader config)) es :=
    hpublished.induction (start_sound (reader config) files) fun pre e h hc => by
      rw [run_snoc]
      exact h.next (covered_of_sqlite hbackend hfallback h hc.1 hc.2)
  apply run_fresh
  intro pre e hpre
  obtain ⟨hretokened, hreturn⟩ := hpublished pre e hpre
  exact covered_of_sqlite hbackend hfallback (hsound.before pre e hpre) hretokened hreturn

end Sqlite

/-- JSON data of the default source, with the story sync on. -/
def jsonConfig : RuntimeConfig where
  view := ⟨true, false, true, true⟩
  dataBackend := .json
  allowJsonFallback := false
  customDatabase := false
  bundled := false
  strict := false

def emptyArchive : ArchiveDir := ⟨none, ⟨[], "", ""⟩, fun _ => none, []⟩

/-- No data, and no marker. -/
def emptyFiles : Files where
  disk := ⟨⟨fun _ => emptyArchive, none⟩, fun _ => true, ⟨false, true⟩, ⟨false, true⟩, none⟩
  pairToken := none
  extractToken _ := none
  pointer _ := none
  database _ := none
  databaseVerified := true

/-- The story sync has placed its archive. -/
def storyFiles : Files := { emptyFiles with disk.story.archive := true }

/-- A call from its beginning to its end when the cache has no view for it. -/
def missedCall (q : ℕ) : List (Event ℕ Files) := .begin q :: List.replicate 6 (.act q)

/-- A call that is given the cached view. -/
def servedCall (q : ℕ) : List (Event ℕ Files) := .begin q :: List.replicate 4 (.act q)

/-- Two calls resolve at once, and the story archive is placed before the first view is cached. -/
def overlappingCalls : List (Event ℕ Files) :=
  [.begin 0, .act 0, .act 0, .begin 1, .publish storyFiles] ++ List.replicate 4 (.act 0) ++
    List.replicate 4 (.act 1)

end PrtsMcp.DataSnapshot
