import PrtsMcp.PairRelease

/-!
# The JSON view

Where queries read from while no database serves them. Each half of the game data is looked for in
the writable root first, by the pair pointer or its own extract record, and then in the bundle.
-/
namespace PrtsMcp.JsonView

open SyncTypes GamedataStore PairSync

def requiredOperatorFiles : List String :=
  ["character_table.json", "handbook_info_table.json", "charword_table.json",
    "story_review_table.json"]

/-- `files_complete` below the excel path, and `levels_complete`. -/
def requiredFiles : Side → List String
  | .excel => requiredOperatorFiles.map ("zh_CN/gamedata/excel/" ++ ·)
  | .levels => ["zh_CN/gamedata/levels/enemydata/enemy_database.json"]

/-- `sharedParent` says that the two writable roots have one parent. -/
structure ViewConfig where
  sharedParent : Bool
  isCustomGamedata : Bool
  storySyncEnabled : Bool
  defaultSource : Bool
  deriving DecidableEq, Repr

/-- The read-only data of the package; `story` says that it has a story archive. -/
structure Bundle where
  store : Store
  story : Bool

/-- A place where a story archive may stand: it does, as a file that is no database, and the marker
of its directory belongs to the configured source. -/
structure StoryPlace where
  archive : Bool
  verified : Bool
  deriving DecidableEq, Repr

/-- The files that the resolution reads. `verified` says that the marker of a root belongs to the
configured source. -/
structure Disk where
  store : Store
  verified : Side → Bool
  story : StoryPlace
  legacyStory : StoryPlace
  bundle : Option Bundle

inductive Source where
  | writable
  | bundled
  deriving DecidableEq, Repr

structure DataRoot where
  source : Source
  ref : DirRef
  deriving DecidableEq, Repr

inductive StorySource where
  | configured
  | legacy
  | bundled
  deriving DecidableEq, Repr

/-- The files that queries read; its database is another matter. -/
structure DataView where
  excelRoot : Option DataRoot
  levelsRoot : Option DataRoot
  storyZip : Option StorySource
  deriving DecidableEq, Repr

def DataView.root (view : DataView) : Side → Option DataRoot
  | .excel => view.excelRoot
  | .levels => view.levelsRoot

/-- The pair's half, or else the record's target. -/
def activeRef (pair : Option PairMeta) (d : Store) (side : Side) : DirRef :=
  pair.elim (d.archive side).activatedRoot fun m => m.root side

def complete (d : Store) (side : Side) (ref : DirRef) : Bool :=
  ((d.archive side).dir? ref).any (Dir.hasAll (requiredFiles side))

/-- One half of a store, if it has its required files. -/
def half (pair : Option PairMeta) (d : Store) (side : Side) : Option DirRef :=
  some (activeRef pair d side) |>.filter (complete d side)

/-- `activated_pair` of the writable roots. -/
def Disk.pair (config : ViewConfig) (disk : Disk) : Option PairMeta :=
  if config.sharedParent then disk.store.activatedPair else none

def Disk.writableHalf (config : ViewConfig) (disk : Disk) (side : Side) : Option DirRef :=
  (half (disk.pair config) disk.store side).filter
    fun _ => config.isCustomGamedata || disk.verified side

def Disk.bundledHalf (disk : Disk) (side : Side) : Option DirRef :=
  disk.bundle.bind fun bundle => half bundle.store.activatedPair bundle.store side

def resolveRoot (config : ViewConfig) (disk : Disk) (side : Side) : Option DataRoot :=
  match disk.writableHalf config side with
  | some ref => some ⟨.writable, ref⟩
  | none => (disk.bundledHalf side).map (DataRoot.mk .bundled)

def resolveStory (config : ViewConfig) (disk : Disk) : Option StorySource :=
  if disk.story.archive && (!config.storySyncEnabled || disk.story.verified) then some .configured
  else if config.defaultSource && disk.legacyStory.archive && disk.legacyStory.verified then
    some .legacy
  else if disk.bundle.any Bundle.story then some .bundled
  else none

/-- `resolve_view`, from the files as they stand. -/
def resolveView (config : ViewConfig) (disk : Disk) : DataView :=
  ⟨resolveRoot config disk .excel, resolveRoot config disk .levels, resolveStory config disk⟩

/-- The directory that a root of the view stands for. -/
def Disk.dir? (disk : Disk) (side : Side) (root : DataRoot) : Option Dir :=
  match root.source with
  | .writable => (disk.store.archive side).dir? root.ref
  | .bundled => disk.bundle.bind fun bundle => (bundle.store.archive side).dir? root.ref

section Lemmas

variable {config : ViewConfig} {disk : Disk} {side : Side} {root : DataRoot} {ref : DirRef}

theorem half_eq_some {pair : Option PairMeta} {d : Store} (h : half pair d side = some ref) :
    ref = activeRef pair d side ∧
      ∃ x, (d.archive side).dir? ref = some x ∧ x.hasAll (requiredFiles side) = true := by
  obtain ⟨heq, hcomplete⟩ := Option.filter_eq_some_iff.mp h
  obtain rfl := Option.some.inj heq
  exact ⟨rfl, (Option.any_eq_true _ _).mp hcomplete⟩

theorem writableHalf_eq_some (h : disk.writableHalf config side = some ref) :
    half (disk.pair config) disk.store side = some ref :=
  (Option.filter_eq_some_iff.mp h).1

theorem requiredFiles_ne_nil (side : Side) : requiredFiles side ≠ [] := by
  cases side <;> decide

/-- A directory without files is never complete. -/
theorem hasAll_empty {x : Dir} (hx : x.files = []) : x.hasAll (requiredFiles side) = false := by
  obtain ⟨f, hf⟩ := List.exists_mem_of_ne_nil _ (requiredFiles_ne_nil side)
  rw [Dir.hasAll, List.all_eq_false]
  exact ⟨f, hf, by simp [hx]⟩

theorem root_resolveView (side : Side) :
    (resolveView config disk).root side = resolveRoot config disk side := by
  cases side <;> rfl

/-- Where a root of the view comes from. -/
theorem resolveRoot_eq_some (h : resolveRoot config disk side = some root) :
    (root.source = .writable ∧ disk.writableHalf config side = some root.ref) ∨
      (root.source = .bundled ∧ disk.writableHalf config side = none ∧
        disk.bundledHalf side = some root.ref) := by
  unfold resolveRoot at h
  split at h
  · next ref hw =>
    obtain rfl := Option.some.inj h
    exact .inl ⟨rfl, hw⟩
  · next hw =>
    obtain ⟨ref, hb, rfl⟩ := Option.map_eq_some_iff.mp h
    exact .inr ⟨rfl, hw, hb⟩

end Lemmas

end PrtsMcp.JsonView
