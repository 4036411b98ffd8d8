import PrtsMcp.JsonView

/-!
# A view is one release

When the excel root and the levels root of a JSON view come from one release, over every run of
syncs from an empty writable root beside a bundle.
-/
namespace PrtsMcp.JsonView

open Process SyncTypes FileSteps ReleaseSync GamedataStore PairSync

/-- Both roots of the view come from the writable root or both from the bundle, and their trees
from one release. -/
def ViewOneRelease (config : ViewConfig) (disk : Disk) : Prop :=
  ∀ excel ∈ (resolveView config disk).excelRoot, ∀ levels ∈ (resolveView config disk).levelsRoot,
    excel.source = levels.source ∧
      (disk.dir? .excel excel).map Dir.release = (disk.dir? .levels levels).map Dir.release

instance (config : ViewConfig) : DecidablePred (ViewOneRelease config) := fun disk =>
  inferInstanceAs (Decidable (∀ excel ∈ (resolveView config disk).excelRoot,
    ∀ levels ∈ (resolveView config disk).levelsRoot, excel.source = levels.source ∧
      (disk.dir? .excel excel).map Dir.release = (disk.dir? .levels levels).map Dir.release))

/-- The bundle, if there is one, resolves to directories of one release. -/
def BundleOneRelease (bundle : Option Bundle) (release : String) : Prop :=
  ∀ b ∈ bundle, ∀ side,
    ∀ x ∈ (b.store.archive side).dir? (activeRef b.store.activatedPair b.store side),
      x.release = release

instance (bundle : Option Bundle) (release : String) :
    Decidable (BundleOneRelease bundle release) :=
  inferInstanceAs (Decidable (∀ b ∈ bundle, ∀ side,
    ∀ x ∈ (b.store.archive side).dir? (activeRef b.store.activatedPair b.store side),
      x.release = release))

/-- The writable root serves both halves or neither, unless the bundle lacks the half that is
missing; and two halves without a pair stand at one commit sha. -/
structure Unmixed (config : ViewConfig) (disk : Disk) : Prop where
  together : (disk.writableHalf config .excel).isSome = (disk.writableHalf config .levels).isSome ∨
    ∃ side, disk.writableHalf config side = none ∧ disk.bundledHalf side = none
  unpaired : disk.pair config = none → (disk.writableHalf config .excel).isSome = true →
    (disk.writableHalf config .levels).isSome = true →
    ((disk.store.archive .excel).extractMeta.map ExtractMeta.commitSha) =
      (disk.store.archive .levels).extractMeta.map ExtractMeta.commitSha

instance (config : ViewConfig) : DecidablePred (Unmixed config) := fun _ =>
  decidable_of_iff (_ ∧ _) ⟨fun h => ⟨h.1, h.2⟩, fun h => ⟨h.together, h.unpaired⟩⟩

/-- Nothing was ever put in the roots themselves, and the pair is the legacy one or names trees of
its own commit sha. -/
structure Grown (d : Store) : Prop where
  root : ∀ side, (d.archive side).root.files = []
  pair : ∀ m, d.pair = some m → m = legacyPair ∨
    ∀ side, NamesLabel d side (m.root side) m.commitSha

section Step

variable {specs : Specs} {reads : Prop} {L : Side → String → ZipFile → Prop} {op : Op}
  {now fresh : ℕ} {d d' : Store} {K : String → String → Prop} {side : Side}

theorem Grown.change (hc : Change specs reads L op now fresh d d') (h : Grown d) : Grown d' where
  root side := by
    rw [(hc.root side).1]
    exact h.root side
  pair m hm := by
    rw [hc.pair_eq] at hm
    rcases h.pair m hm with hlegacy | hnames
    · exact .inl hlegacy
    · exact .inr fun side => (hnames side).change hc fun g hg hun => hun.pair m hm hg

theorem Grown.publishes (hp : Publishes specs d d') (htold : Told K d) (h : Grown d) :
    Grown d' := by
  obtain ⟨m, rfl, hm, -⟩ := hp
  refine ⟨h.root, fun m' hm' => ?_⟩
  obtain rfl := Option.some.inj hm'
  rcases hm with hfrom | rfl
  · refine .inr fun side => ?_
    obtain ⟨r, hr, hroot, hsha, -⟩ := hfrom.root side
    obtain ⟨g, hg, hlabel⟩ := htold.records side r hr
    exact ⟨g, hroot ▸ hg, fun t ht => hsha ▸ hlabel t ht⟩
  · exact .inl rfl

theorem grown_emptyWorld (machine : Machine) : Grown (emptyWorld machine).store :=
  ⟨fun _ => rfl, fun _ hm => by simp [emptyWorld] at hm⟩

/-- A complete directory is not the root itself. -/
theorem Grown.ne_root (h : Grown d) {ref : DirRef} {x : Dir}
    (hx : (d.archive side).dir? ref = some x) (hfull : x.hasAll (requiredFiles side) = true) :
    ref ≠ .root := by
  rintro rfl
  obtain rfl := Option.some.inj hx
  rw [hasAll_empty (h.root side)] at hfull
  cases hfull

/-- A complete half of a pair has its release told by the pair's commit sha. -/
theorem release_of_pair (hgrown : Grown d) (htold : Told K d) {m : PairMeta} (hm : d.pair = some m)
    {x : Dir} (hx : (d.archive side).dir? (m.root side) = some x)
    (hfull : x.hasAll (requiredFiles side) = true) : K m.commitSha x.release := by
  rcases hgrown.pair m hm with rfl | hnames
  · exact absurd (by cases side <;> rfl) (hgrown.ne_root hx hfull)
  · exact (hnames side).release htold hx

/-- A complete half without a pair has its release told by the commit sha of its record. -/
theorem release_of_record (hgrown : Grown d) (htold : Told K d) {x : Dir}
    (hx : (d.archive side).dir? (d.archive side).activatedRoot = some x)
    (hfull : x.hasAll (requiredFiles side) = true) :
    ∃ sha, (d.archive side).extractMeta.map ExtractMeta.commitSha = some sha ∧ K sha x.release := by
  have hne := hgrown.ne_root hx hfull
  unfold ArchiveDir.activatedRoot at hx hne
  cases hfound : ((d.archive side).extractMeta.map ExtractMeta.dataRoot).filter
      fun ref => ((d.archive side).dir? ref).isSome with
  | none => simp [hfound] at hne
  | some ref =>
    rw [hfound, Option.getD_some] at hx
    obtain ⟨m, hm, rfl⟩ := Option.map_eq_some_iff.mp (Option.filter_eq_some_iff.mp hfound).1
    exact ⟨m.commitSha, by rw [hm]; rfl, (htold.records side m hm).release htold hx⟩

end Step

section View

variable {config : ViewConfig} {disk : Disk} {release : String} {K : String → String → Prop}
  {side : Side} {root : DataRoot}

/-- The directory of a root taken from the writable root. -/
theorem dir?_of_writable (hsource : root.source = .writable)
    (hhalf : disk.writableHalf config side = some root.ref) :
    ∃ x, disk.dir? side root = some x ∧
      (disk.store.archive side).dir? (activeRef (disk.pair config) disk.store side) = some x ∧
      x.hasAll (requiredFiles side) = true := by
  obtain ⟨heq, x, hx, hfull⟩ := half_eq_some (writableHalf_eq_some hhalf)
  refine ⟨x, ?_, heq ▸ hx, hfull⟩
  rw [Disk.dir?, hsource]
  exact hx

/-- The directory of a root taken from the bundle is of the bundle's release. -/
theorem release_of_bundled (hbundle : BundleOneRelease disk.bundle release)
    (hsource : root.source = .bundled) (hhalf : disk.bundledHalf side = some root.ref) :
    (disk.dir? side root).map Dir.release = some release := by
  obtain ⟨b, hb, hhalf⟩ := Option.bind_eq_some_iff.mp hhalf
  obtain ⟨heq, x, hx, -⟩ := half_eq_some hhalf
  have hrelease : x.release = release := hbundle b hb side x (heq ▸ hx)
  rw [Disk.dir?, hsource]
  simp [hb, hx, hrelease]

theorem pair_of_disk {m : PairMeta} (h : disk.pair config = some m) : disk.store.pair = some m := by
  unfold Disk.pair at h
  split at h
  · exact (activatedPair_eq_some.mp h).1
  · cases h

/-- Two writable halves come from one release. -/
theorem release_of_writable (hgrown : Grown disk.store) (htold : Told K disk.store)
    (hK : ∀ l r r', K l r → K l r' → r = r') (h : Unmixed config disk) {excel levels : DataRoot}
    (hexcel : excel.source = .writable)
    (hexcelHalf : disk.writableHalf config .excel = some excel.ref)
    (hlevels : levels.source = .writable)
    (hlevelsHalf : disk.writableHalf config .levels = some levels.ref) :
    (disk.dir? .excel excel).map Dir.release = (disk.dir? .levels levels).map Dir.release := by
  obtain ⟨x, hdirx, hx, hfullx⟩ := dir?_of_writable hexcel hexcelHalf
  obtain ⟨y, hdiry, hy, hfully⟩ := dir?_of_writable hlevels hlevelsHalf
  suffices hrelease : x.release = y.release by
    rw [hdirx, hdiry, Option.map_some, Option.map_some, hrelease]
  cases hpair : disk.pair config with
  | some m =>
    rw [hpair] at hx hy
    have hm := pair_of_disk hpair
    exact hK m.commitSha _ _ (release_of_pair hgrown htold hm hx hfullx)
      (release_of_pair hgrown htold hm hy hfully)
  | none =>
    rw [hpair] at hx hy
    obtain ⟨sha, hsha, hkx⟩ := release_of_record hgrown htold hx hfullx
    obtain ⟨sha', hsha', hky⟩ := release_of_record hgrown htold hy hfully
    have hsame := h.unpaired hpair (by simp [hexcelHalf]) (by simp [hlevelsHalf])
    rw [hsha, hsha'] at hsame
    obtain rfl := Option.some.inj hsame
    exact hK sha _ _ hkx hky

/-- Unmixed files never serve one half from each store. -/
theorem Unmixed.not_split (h : Unmixed config disk) {side other : Side} {ref ref' : DirRef}
    (hwritable : disk.writableHalf config side = some ref)
    (hmissing : disk.writableHalf config other = none) :
    disk.bundledHalf other ≠ some ref' := by
  intro hbundled
  rcases h.together with heq | ⟨lacking, hnone, hnone'⟩
  · cases side <;> cases other <;> simp_all
  · cases side <;> cases other <;> cases lacking <;> simp_all

/-- A view of unmixed files is one release. -/
theorem viewOneRelease_of_unmixed (hgrown : Grown disk.store) (htold : Told K disk.store)
    (hK : ∀ l r r', K l r → K l r' → r = r') (hbundle : BundleOneRelease disk.bundle release)
    (h : Unmixed config disk) : ViewOneRelease config disk := by
  intro excel hexcel levels hlevels
  rcases resolveRoot_eq_some hexcel with ⟨hes, heh⟩ | ⟨hes, hen, heb⟩ <;>
    rcases resolveRoot_eq_some hlevels with ⟨hls, hlh⟩ | ⟨hls, hln, hlb⟩
  · exact ⟨hes.trans hls.symm, release_of_writable hgrown htold hK h hes heh hls hlh⟩
  · exact absurd hlb (h.not_split heh hln)
  · exact absurd heb (h.not_split hlh hen)
  · refine ⟨hes.trans hls.symm, ?_⟩
    rw [release_of_bundled hbundle hes heb, release_of_bundled hbundle hls hlb]

end View

/-- The files of a state of the sync, beside those that no sync writes. -/
def Disk.at (disk : Disk) (w : World) : Disk := { disk with store := w.store }

/-! ## Inputs -/

/-- A zip with all that the view asks for. -/
def fullBody (side : Side) (digest : String) : Reply :=
  .body "" (.ok ((requiredFiles side).map fun file => ⟨file, true, none⟩)) ⟨0, digest⟩

def fullSpec (side : Side) (name : String) : ReleaseArchiveSpec :=
  ⟨"o", "r", name, name, ⟨["d", name], ["d", name], ["d", name]⟩, requiredFiles side, true⟩

def fullSpecs : Specs := ⟨fullSpec .excel "e.zip", fullSpec .levels "l.zip"⟩

def standardConfig : ViewConfig := ⟨true, false, true, true⟩

/-- The roots of the bundle hold one release. -/
def bundledDisk : Disk where
  store := (emptyWorld ⟨0, 0, []⟩).store
  verified _ := true
  story := ⟨false, false⟩
  legacyStory := ⟨false, false⟩
  bundle := some ⟨⟨fun side => ⟨none, ⟨requiredFiles side, "data-26-09-01-04-06-00_ed95a2", ""⟩,
    fun _ => none, []⟩, none⟩, false⟩

/-- Both archives of one release. -/
def pairedRun : List (PairSync.Call × List Turn) :=
  [(.pair ["m"] true, turnsWith 100 [(17, releaseList "data-26-09-03-04-06-00_ed95a2"),
    (19, fullBody .excel "1"), (21, noManifest), (55, releaseList "data-26-09-03-04-06-00_ed95a2"),
    (57, fullBody .levels "2"), (59, noManifest)])]

/-- The excel archive of a new release; the download of the levels archive fails. -/
def halfRun : List (PairSync.Call × List Turn) :=
  [(.pair ["m"] true, turnsWith 100 [(17, releaseList "data-26-09-03-04-06-00_ed95a2"),
    (19, fullBody .excel "1"), (21, noManifest), (55, .refused (.network "offline"))])]

end PrtsMcp.JsonView
