import PrtsMcp.ImageManifest
import PrtsMcp.OrderedMap
import PrtsMcp.SourceGuard
import PrtsMcp.SyncTypes

/-!
# Image directories

The files of an image directory: the pointer to the active generation, the generations with their
files, and the archives kept for a download that is taken up again.
-/
namespace PrtsMcp.ImageFiles

open Fallible ImageManifest JsonValue
open SourceGuard (DataSource)

/-- The regular files under a directory. -/
abbrev Tree := String → Option Bytes

def Tree.empty : Tree := fun _ => none

/-- Length and digest of a file. -/
abbrev Target := ℕ × String

/-- `pointer` is what the meta file parses to, `releases` the directories of `.releases`. -/
structure ImageDir (φ : Type) where
  pointer : Option (JsonValue φ)
  releases : String → Option Tree
  elsewhere : String → Option Tree
  cache : Tree

/-- The local operations that may fail. -/
inductive Place where
  | guardSource
  | listStaging
  | createReleases
  | createStage
  | copy (name : String)
  | createCache
  | cleanCache
  | keepArchive (sha256 : String)
  | create (name : String)
  | writeIndex
  | writeStageMeta
  | publish
  | writeMeta
  deriving DecidableEq

/-- What one sync meets: the transport, the failures of local operations with their messages, the
entries of `.releases` that are older than the retention time before and after its work, and its
random suffix. A chain of predecessors without an end is cut after `patience` indexes. -/
structure Surroundings where
  downloadFile : String → Except String Bytes
  downloadFileLimited : String → UInt64 → Except String Bytes
  fails : Place → Option String
  orphaned : String → Bool
  expired : String → Bool
  suffix : String
  patience : ℕ

def Surroundings.attempt (run : Surroundings) (place : Place) : Except String Unit :=
  match run.fails place with
  | some message => .error message
  | none => .ok ()

def downloadUrl (source : DataSource) (tag asset : String) : String :=
  "https://github.com/" ++ source.owner ++ "/" ++ source.repo ++ "/releases/download/" ++ tag ++
    "/" ++ asset

/-- `str::strip_prefix`. -/
def stripPrefix (lead s : String) : Option String :=
  (lead.toList.isPrefixOf? s.toList).map String.ofList

theorem stripPrefix_append (lead s : String) : stripPrefix lead (lead ++ s) = some s := by
  have h : lead.toList.isPrefixOf? (lead ++ s).toList = some s.toList :=
    List.isPrefixOf?_eq_some_iff_append_eq.mpr String.toList_append.symm
  rw [stripPrefix, h, Option.map_some, String.ofList_toList]

theorem eq_append_of_stripPrefix {lead s rest : String} (h : stripPrefix lead s = some rest) :
    s = lead ++ rest := by
  obtain ⟨cs, hcs, rfl⟩ := Option.map_eq_some_iff.mp h
  apply String.toList_inj.mp
  rw [String.toList_append, String.toList_ofList]
  exact (List.append_eq_of_isPrefixOf?_eq_some hcs).symm

variable {φ : Type}

/-! ## The pointer -/

namespace ImageDir

variable (dir : ImageDir φ)

def withCache (cache : Tree) : ImageDir φ := { dir with cache := cache }

/-- `load_meta`. -/
def loadMeta : Option (JsonValue φ) := dir.pointer.filter isObject

/-- The directory at a path below the image directory. -/
def dir? (path : String) : Option Tree :=
  match stripPrefix ".releases/" path with
  | some name => dir.releases name
  | none => dir.elsewhere path

def generationRoot : Option String :=
  ((dir.loadMeta.bind (get "generation_root")).bind asStr).filter (· ≠ "")

/-- `active_generation`. -/
def activeGeneration : Option Tree :=
  (dir.generationRoot.bind dir.dir?).filter fun tree => (tree "index.json").isSome

/-- The entry of `.releases` that is active. -/
def activeEntry : Option String :=
  if dir.activeGeneration.isSome then dir.generationRoot.bind (stripPrefix ".releases/") else none

end ImageDir

def isStaging (name : String) : Bool :=
  ".v2-".toList.isPrefixOf name.toList && ".tmp".toList.isSuffixOf name.toList

/-- The removal of entries of `.releases`. -/
def dropReleases (gone : String → Bool) (dir : ImageDir φ) : ImageDir φ :=
  { dir with releases := fun name => if gone name then none else dir.releases name }

/-- `cleanup_staging`. -/
def cleanupStaging (dir : ImageDir φ) : ImageDir φ := dropReleases isStaging dir

/-- `cleanup_old`: nothing is removed unless the active entry is known. -/
def cleanupOld (run : Surroundings) (dir : ImageDir φ) : ImageDir φ :=
  match dir.activeEntry with
  | none => dir
  | some active =>
    dropReleases (fun name => "v2-".toList.isPrefixOf name.toList && name ≠ active &&
      run.orphaned name) dir

theorem loadMeta_cleanupOld (run : Surroundings) (dir : ImageDir φ) :
    (cleanupOld run dir).loadMeta = dir.loadMeta := by
  unfold cleanupOld
  split <;> rfl

theorem generationRoot_dropReleases (gone : String → Bool) (dir : ImageDir φ) :
    (dropReleases gone dir).generationRoot = dir.generationRoot := rfl

/-- Without its entry nothing is active. -/
theorem activeGeneration_of_gone {gone : String → Bool} {dir : ImageDir φ} {path name : String}
    (hpath : dir.generationRoot = some path) (hname : stripPrefix ".releases/" path = some name)
    (hgone : gone name = true) : (dropReleases gone dir).activeGeneration = none := by
  rw [ImageDir.activeGeneration, generationRoot_dropReleases, hpath, Option.bind_some, ImageDir.dir?,
    hname]
  dsimp only [dropReleases]
  rw [if_pos hgone]
  rfl

/-- The active generation stays if its entry does. -/
theorem activeGeneration_of_stays {gone : String → Bool} {dir : ImageDir φ}
    (h : ∀ name, dir.generationRoot.bind (stripPrefix ".releases/") = some name → gone name = false) :
    (dropReleases gone dir).activeGeneration = dir.activeGeneration := by
  unfold ImageDir.activeGeneration
  rw [generationRoot_dropReleases]
  cases hpath : dir.generationRoot with
  | none => rfl
  | some path =>
    rw [hpath, Option.bind_some] at h
    rw [Option.bind_some, Option.bind_some, ImageDir.dir?, ImageDir.dir?]
    cases hname : stripPrefix ".releases/" path with
    | none => rfl
    | some name =>
      dsimp only [dropReleases]
      rw [h name hname, if_neg Bool.false_ne_true]

/-- The removal of staging directories removes the active generation or keeps it. -/
theorem activeGeneration_cleanupStaging (dir : ImageDir φ) :
    (cleanupStaging dir).activeGeneration = dir.activeGeneration ∨
      (cleanupStaging dir).activeGeneration = none := by
  by_cases hstaging : ∃ name, dir.generationRoot.bind (stripPrefix ".releases/") = some name ∧
      isStaging name = true
  · obtain ⟨name, hroot, hname⟩ := hstaging
    obtain ⟨path, hpath, hstrip⟩ := Option.bind_eq_some_iff.mp hroot
    exact .inr (activeGeneration_of_gone hpath hstrip hname)
  · left
    apply activeGeneration_of_stays
    intro name hroot
    by_contra hname
    exact hstaging ⟨name, hroot, Bool.not_eq_false _ ▸ hname⟩

/-- The removal of old generations keeps the active one. -/
theorem activeGeneration_cleanupOld (run : Surroundings) (dir : ImageDir φ) :
    (cleanupOld run dir).activeGeneration = dir.activeGeneration := by
  unfold cleanupOld
  split
  · rfl
  · next active hactive =>
    apply activeGeneration_of_stays
    intro name hname
    unfold ImageDir.activeEntry at hactive
    split at hactive
    · rw [hname] at hactive
      cases hactive
      simp
    · cases hactive

/-- `prune_old_trees` on `.releases`, with hidden entries skipped. -/
def pruneOldTrees (run : Surroundings) (keep : String) (releases : String → Option Tree) :
    String → Option Tree :=
  fun name =>
    if ¬ ".".toList.isPrefixOf name.toList ∧ name ≠ keep ∧ run.expired name then none
    else releases name

/-! ## Contents -/

section Contents

variable (crates : Crates φ)

def fingerprint (bytes : Bytes) : Target := (bytes.length, crates.sha256 bytes)

/-- `checked` on what stands at a path. -/
def checked (file : Option Bytes) (target : Target) : Bool :=
  file.any fun bytes => fingerprint crates bytes = target

def memberTarget (member : Member) : Target := (member.bytes.toNat, member.sha256)

/-- What a member of the archive holds, if it is what the part declares. -/
def readMember (member : Member) (entry : ZipMember) : Except String Bytes :=
  if member.bytes.toNat < entry.data.length then .error "member exceeds declared length"
  else
    match entry.broken with
    | some message => .error message
    | none =>
      if fingerprint crates entry.data = memberTarget member then .ok entry.data
      else .error "member digest mismatch"

/-- Between two members: the names met, the stage, and the members written to it. -/
structure Extraction where
  seen : List String
  stage : Tree
  written : List (String × Target)

def selected (expected : List (String × Target)) (preserved : List String) (name : String) : Bool :=
  (expected.lookup name).isSome && name ∉ preserved

def extractMember (run : Surroundings) (part : Part) (expected : List (String × Target))
    (preserved : List String) (x : Extraction) (entry : Except String ZipMember) :
    Except String Extraction := do
  let entry ← entry
  let member ← okOr "unexpected ZIP member" (part.members.lookup entry.name)
  if entry.name ∈ x.seen then .error "duplicate ZIP member"
  else if selected expected preserved entry.name then do
    run.attempt (.create entry.name)
    let data ← readMember crates member entry
    return ⟨entry.name :: x.seen, Function.update x.stage entry.name (some data),
      (entry.name, memberTarget member) :: x.written⟩
  else do
    let _ ← readMember crates member entry
    return { x with seen := entry.name :: x.seen }

/-- `extract`. The second part of the result are the members written. -/
def extract (run : Surroundings) (archive : Bytes) (part : Part) (stage : Tree)
    (expected : List (String × Target)) (preserved : List String) :
    Except String (Tree × List (String × Target)) := do
  let entries ← crates.unzip archive
  let x ← entries.foldlM (extractMember crates run part expected preserved) ⟨[], stage, []⟩
  if x.seen.length ≠ part.members.length then .error "missing ZIP member"
  else return (x.stage, x.written)

end Contents

/-! ## The meta file -/

/-- The fields of `generation_meta`. -/
def generationMeta (baselineVersion currentVersion : String) (shardKeys : List String) :
    List (String × JsonValue φ) :=
  [("schemaVersion", .string schemaVersion), ("baselineVersion", .string baselineVersion),
    ("currentVersion", .string currentVersion),
    ("shardsSynced", .array (shardKeys.map JsonValue.string))]

end PrtsMcp.ImageFiles
