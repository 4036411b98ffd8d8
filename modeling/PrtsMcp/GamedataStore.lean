import PrtsMcp.ReleaseSync

/-!
# The game data on disk

Two local roots, each with its extract record and its generation trees under `.releases`, and the
pair pointer beside them. The readers of the pointers are here; the writers are the sync processes.
-/
namespace PrtsMcp.GamedataStore

open SyncTypes FileSteps ReleaseSync

/-- The files of a directory. `release` is the tag of the release they come from and `label` the
commit sha they were extracted under; no code reads either. -/
structure Dir where
  files : List String
  release : String
  label : String
  deriving DecidableEq, Repr

/-- An entry of `.releases`: `<key>-<generation>`, or `.<key>-<generation>.tmp` while staged. -/
structure Tree where
  generation : ℕ
  staging : Bool
  mtime : ℕ
  dir : Dir
  deriving DecidableEq, Repr

/-- Where a `data_root` leads inside its local root. -/
inductive DirRef where
  | root
  | tree (generation : ℕ)
  | elsewhere (name : String)
  deriving DecidableEq, Repr

def DirRef.number : DirRef → Option ℕ
  | tree generation => some generation
  | _ => none

/-- The record of the extracted archive; a `commit_sha` that is absent or no string is empty. -/
structure ExtractMeta where
  commitSha : String
  dataRoot : DirRef
  deriving DecidableEq, Repr

/-- The pair pointer. -/
structure PairMeta where
  commitSha : String
  excelRoot : DirRef
  levelsRoot : DirRef
  deriving DecidableEq, Repr

def PairMeta.root (m : PairMeta) : Side → DirRef
  | .excel => m.excelRoot
  | .levels => m.levelsRoot

/-- A local root; `extractMeta` is `none` where the record is absent or malformed. -/
structure ArchiveDir where
  extractMeta : Option ExtractMeta
  root : Dir
  elsewhere : String → Option Dir
  trees : List Tree

/-- What the readers see. -/
structure Store where
  archive : Side → ArchiveDir
  pair : Option PairMeta

structure World where
  machine : Machine
  release : Side → ReleaseDir
  store : Store

instance : OnMachine World where
  machine := World.machine
  onMachine f w := { w with machine := f w.machine }
  onMachine_id _ := rfl
  machine_onMachine _ _ := rfl

/-- A local root as it is spelled, made absolute, and with its links resolved. -/
structure RootPath where
  spelled : List String
  absolute : List String
  real : List String
  deriving DecidableEq, Repr

structure ReleaseArchiveSpec where
  owner : String
  repo : String
  assetName : String
  localZip : String
  localRoot : RootPath
  requiredFiles : List String
  verifyManifest : Bool
  deriving DecidableEq, Repr

def ReleaseArchiveSpec.releaseSpec (spec : ReleaseArchiveSpec) : ReleaseSpec :=
  ⟨spec.owner, spec.repo, spec.assetName, spec.localZip, spec.verifyManifest,
    .archive spec.requiredFiles⟩

/-- A path as the code holds it: a spelling of the local root, and what follows. -/
structure DirPath where
  base : List String
  ref : DirRef
  deriving DecidableEq, Repr

def ReleaseArchiveSpec.rootPath (spec : ReleaseArchiveSpec) : DirPath :=
  ⟨spec.localRoot.spelled, .root⟩

def ReleaseArchiveSpec.generationPath (spec : ReleaseArchiveSpec) (generation : ℕ) : DirPath :=
  ⟨spec.localRoot.spelled, .tree generation⟩

/-- The activated tree of a generation. -/
def ArchiveDir.tree? (a : ArchiveDir) (generation : ℕ) : Option Tree :=
  a.trees.find? fun t => t.generation = generation && !t.staging

/-- The directory a reference leads to. -/
def ArchiveDir.dir? (a : ArchiveDir) : DirRef → Option Dir
  | .root => some a.root
  | .tree generation => (a.tree? generation).map Tree.dir
  | .elsewhere name => a.elsewhere name

def Dir.hasAll (requiredFiles : List String) (d : Dir) : Bool := requiredFiles.all (· ∈ d.files)

/-- `archive_files_present`. -/
def ArchiveDir.filesPresent (a : ArchiveDir) (spec : ReleaseArchiveSpec) (ref : DirRef) : Bool :=
  (a.dir? ref).elim false (Dir.hasAll spec.requiredFiles)

/-- What `load_extract_meta` returns: the commit sha and a resolved path. -/
structure LoadedMeta where
  commitSha : String
  dataRoot : DirPath
  deriving DecidableEq, Repr

/-- `load_extract_meta`: the record with a nonempty sha and an existing target. -/
def ArchiveDir.loadedMeta (a : ArchiveDir) (spec : ReleaseArchiveSpec) : Option LoadedMeta :=
  a.extractMeta.bind fun m =>
    if m.commitSha ≠ "" ∧ (a.dir? m.dataRoot).isSome then
      some ⟨m.commitSha, ⟨spec.localRoot.real, m.dataRoot⟩⟩
    else none

structure Specs where
  excel : ReleaseArchiveSpec
  levels : ReleaseArchiveSpec
  deriving DecidableEq, Repr

def Specs.of (specs : Specs) : Side → ReleaseArchiveSpec
  | .excel => specs.excel
  | .levels => specs.levels

/-- Both halves of a pair exist with all their required files. -/
def Store.PairComplete (d : Store) (specs : Specs) (m : PairMeta) : Prop :=
  (d.archive .excel).filesPresent specs.excel m.excelRoot = true ∧
    (d.archive .levels).filesPresent specs.levels m.levelsRoot = true

instance (d : Store) (specs : Specs) (m : PairMeta) : Decidable (d.PairComplete specs m) :=
  inferInstanceAs (Decidable (_ ∧ _))

/-- `load_gamedata_pair`. -/
def Store.loadedPair (d : Store) (specs : Specs) : Option PairMeta :=
  d.pair.filter fun m => m.commitSha ≠ "" ∧ d.PairComplete specs m

/-- `activated_root`: the record's target, whatever its sha, or else the root itself. -/
def ArchiveDir.activatedRoot (a : ArchiveDir) : DirRef :=
  ((a.extractMeta.map ExtractMeta.dataRoot).filter fun ref => (a.dir? ref).isSome).getD .root

/-- `activated_pair`, for roots with one parent: both targets exist. -/
def Store.activatedPair (d : Store) : Option PairMeta :=
  d.pair.filter fun m => m.commitSha ≠ "" ∧
    ((d.archive .excel).dir? m.excelRoot).isSome ∧ ((d.archive .levels).dir? m.levelsRoot).isSome

/-- What the pointers name on one side. -/
def Store.namedRefs (d : Store) (side : Side) : List DirRef :=
  ((d.archive side).extractMeta.map ExtractMeta.dataRoot).toList ++
    (d.pair.map fun m => m.root side).toList

/-! ## Writing -/

def Store.setArchive (d : Store) (side : Side) (a : ArchiveDir) : Store :=
  { d with archive := Function.update d.archive side a }

def Store.onTrees (side : Side) (f : List Tree → List Tree) (d : Store) : Store :=
  d.setArchive side { d.archive side with trees := f (d.archive side).trees }

def World.onTrees (side : Side) (f : List Tree → List Tree) (w : World) : World :=
  { w with store := w.store.onTrees side f }

def Store.setExtractMeta (side : Side) (m : ExtractMeta) (d : Store) : Store :=
  d.setArchive side { d.archive side with extractMeta := some m }

/-- What a removal that stops halfway leaves. -/
def Tree.emptied (t : Tree) : Tree := { t with dir.files := [] }

def Tree.activated (t : Tree) : Tree := { t with staging := false }

def Tree.touched (now : ℕ) (t : Tree) : Tree := { t with mtime := now }

/-- The entry of one name. -/
def Tree.is (generation : ℕ) (staging : Bool) (t : Tree) : Bool :=
  t.generation = generation && t.staging = staging

def Tree.expired (generation : ℕ) (staging : Bool) (cutoff : ℕ) (t : Tree) : Bool :=
  t.is generation staging && t.mtime < cutoff

def updateWhere (p : Tree → Bool) (f : Tree → Tree) (trees : List Tree) : List Tree :=
  trees.map fun t => if p t then f t else t

def dropWhere (p : Tree → Bool) (trees : List Tree) : List Tree := trees.filter fun t => !p t

section Lemmas

variable {d : Store} {side other : Side} {f : List Tree → List Tree} {m : ExtractMeta}

@[simp] theorem archive_onTrees_self :
    (d.onTrees side f).archive side =
      { d.archive side with trees := f (d.archive side).trees } := by
  simp [Store.onTrees, Store.setArchive]

@[simp] theorem archive_onTrees_of_ne (h : other ≠ side) :
    (d.onTrees side f).archive other = d.archive other := by
  simp [Store.onTrees, Store.setArchive, h]

@[simp] theorem pair_onTrees : (d.onTrees side f).pair = d.pair := rfl

@[simp] theorem archive_setExtractMeta_self :
    (d.setExtractMeta side m).archive side = { d.archive side with extractMeta := some m } := by
  simp [Store.setExtractMeta, Store.setArchive]

@[simp] theorem archive_setExtractMeta_of_ne (h : other ≠ side) :
    (d.setExtractMeta side m).archive other = d.archive other := by
  simp [Store.setExtractMeta, Store.setArchive, h]

@[simp] theorem pair_setExtractMeta : (d.setExtractMeta side m).pair = d.pair := rfl

theorem is_iff {generation : ℕ} {staging : Bool} {t : Tree} :
    t.is generation staging = true ↔ t.generation = generation ∧ t.staging = staging := by
  simp [Tree.is]

theorem tree?_eq_some {a : ArchiveDir} {g : ℕ} {t : Tree} (h : a.tree? g = some t) :
    t ∈ a.trees ∧ t.generation = g ∧ t.staging = false := by
  have hp := List.find?_some h
  simp only [Bool.and_eq_true, decide_eq_true_eq, Bool.not_eq_true'] at hp
  exact ⟨List.mem_of_find?_eq_some h, hp⟩

theorem isSome_tree?_iff {a : ArchiveDir} {g : ℕ} :
    (a.tree? g).isSome = true ↔ ∃ t ∈ a.trees, t.generation = g ∧ t.staging = false := by
  rw [ArchiveDir.tree?, List.find?_isSome]
  simp

theorem loadedMeta_eq_some {a : ArchiveDir} {spec : ReleaseArchiveSpec} {l : LoadedMeta} :
    a.loadedMeta spec = some l ↔ ∃ m, a.extractMeta = some m ∧ m.commitSha ≠ "" ∧
      (a.dir? m.dataRoot).isSome = true ∧ l = ⟨m.commitSha, ⟨spec.localRoot.real, m.dataRoot⟩⟩ := by
  unfold ArchiveDir.loadedMeta
  rw [Option.bind_eq_some_iff]
  refine exists_congr fun m => and_congr_right fun _ => ?_
  split
  · next h => simp [h.1, h.2, eq_comm]
  · next h => simp only [reduceCtorEq, false_iff]; exact fun h' => h ⟨h'.1, h'.2.1⟩

theorem filesPresent_iff {a : ArchiveDir} {spec : ReleaseArchiveSpec} {ref : DirRef} :
    a.filesPresent spec ref = true ↔
      ∃ x, a.dir? ref = some x ∧ x.hasAll spec.requiredFiles = true := by
  unfold ArchiveDir.filesPresent
  cases a.dir? ref <;> simp

theorem pairComplete_iff {specs : Specs} {m : PairMeta} :
    d.PairComplete specs m ↔
      ∀ side, (d.archive side).filesPresent (specs.of side) (m.root side) = true :=
  ⟨fun h side => match side with
    | .excel => h.1
    | .levels => h.2, fun h => ⟨h .excel, h .levels⟩⟩

theorem activatedPair_eq_some {m : PairMeta} :
    d.activatedPair = some m ↔ d.pair = some m ∧ m.commitSha ≠ "" ∧
      ∀ side, ((d.archive side).dir? (m.root side)).isSome = true := by
  unfold Store.activatedPair
  rw [Option.filter_eq_some_iff, decide_eq_true_eq]
  refine and_congr_right fun _ => and_congr_right fun _ => ⟨fun h side => ?_, fun h => ?_⟩
  · cases side with
    | excel => exact h.1
    | levels => exact h.2
  · exact ⟨h .excel, h .levels⟩

theorem loadedPair_eq_some {specs : Specs} {m : PairMeta} :
    d.loadedPair specs = some m ↔
      d.pair = some m ∧ m.commitSha ≠ "" ∧ d.PairComplete specs m := by
  unfold Store.loadedPair
  rw [Option.filter_eq_some_iff, decide_eq_true_eq]

/-- A pair with all its files is one that readers resolve. -/
theorem activatedPair_of_complete {specs : Specs} {m : PairMeta} (hm : d.pair = some m)
    (hsha : m.commitSha ≠ "") (h : d.PairComplete specs m) : d.activatedPair = some m := by
  refine activatedPair_eq_some.mpr ⟨hm, hsha, fun side => ?_⟩
  obtain ⟨x, hx, -⟩ := filesPresent_iff.mp (pairComplete_iff.mp h side)
  exact hx ▸ rfl

/-- Stores where every reference leads to the same directory resolve the same pair. -/
theorem pairComplete_congr {d' : Store} {specs : Specs} {m : PairMeta}
    (h : ∀ side, (d'.archive side).dir? (m.root side) = (d.archive side).dir? (m.root side)) :
    d'.PairComplete specs m ↔ d.PairComplete specs m := by
  simp only [pairComplete_iff, ArchiveDir.filesPresent, h]

/-- Changing entries without their names changes what is found, not where. -/
theorem find?_updateWhere {p q : Tree → Bool} {g : Tree → Tree}
    (hg : ∀ t, p t = true → q (g t) = q t) (ts : List Tree) :
    (updateWhere p g ts).find? q = (ts.find? q).map fun t => if p t then g t else t := by
  rw [updateWhere, List.find?_map]
  congr 1
  refine List.find?_congr fun t _ => ?_
  simp only [Function.comp_apply]
  split
  · next hp => exact hg t hp
  · rfl

/-- Dropping entries that are not looked for changes nothing. -/
theorem find?_dropWhere {p q : Tree → Bool} {ts : List Tree}
    (h : ∀ t ∈ ts, q t = true → p t = false) : (dropWhere p ts).find? q = ts.find? q := by
  rw [dropWhere, List.find?_filter]
  refine List.find?_congr fun t ht => ?_
  cases hq : q t with
  | false => simp
  | true => simp [h t ht hq]

theorem mem_updateWhere {p : Tree → Bool} {g : Tree → Tree} {ts : List Tree} {t : Tree} :
    t ∈ updateWhere p g ts ↔ ∃ u ∈ ts, (if p u then g u else u) = t := List.mem_map

theorem mem_dropWhere {p : Tree → Bool} {ts : List Tree} {t : Tree} :
    t ∈ dropWhere p ts ↔ t ∈ ts ∧ p t = false := by simp [dropWhere]

end Lemmas

end PrtsMcp.GamedataStore
