import PrtsMcp.ImageHistory
import PrtsMcp.ImagesV1

/-!
# Image formats

Runs of the image sync over one directory, which choose between the two formats by the releases they
see and by what is active. A directory that has a generation of the second format keeps one.
-/
namespace PrtsMcp.ImageFormats

open Fallible ImageFiles ImageManifest ImagesV2 JsonValue
open ImagesV1 (baselineLead deltaLead imagesTagVersion)
open SourceGuard (DataSource)
open SyncTypes (SyncResult SyncStatus)

variable {φ : Type} [Doubles φ]

/-! ## Source -/

/-- What a rebuild of the first format has staged from its downloads, and where it goes. `resolves` is
false where the path of the generation cannot be made relative. -/
structure StagedV1 where
  baselineVersion : String
  index : Bytes
  tree : Tree
  name : String
  resolves : Bool

/-- A rebuild of the first format that ends before its generation is staged. -/
inductive RebuildFailure where
  | offline (error : String)
  | unreadable (error : String)

/-- One run: the steps before the format is chosen that fail, the listed releases, the surroundings of
the second format, and what a rebuild of the first would stage, whatever that is. -/
structure Sync (φ : Type) where
  refused : Option String
  unlocked : Option String
  releases : Option (List Json)
  original : Bool
  surroundings : Surroundings
  rebuildV1 : ImageDir φ → Except RebuildFailure StagedV1

def offlineOrNoData (dir : ImageDir φ) (error : String) : SyncResult :=
  if dir.activeGeneration.isSome then ⟨.offlineFallback, currentVersion? dir, some error⟩
  else ⟨.noData, none, some error⟩

def isTrueAt (key : String) (release : Json) : Bool := (release.get key).any Json.isTrue

/-- A published release under a prefix, and not under the excluded one. -/
def isImagesRelease (lead exclude : String) (release : Json) : Bool :=
  !isTrueAt "draft" release && !isTrueAt "prerelease" release &&
    (release.getStr "tag_name").any fun tag =>
      lead.toList.isPrefixOf tag.toList && !exclude.toList.isPrefixOf tag.toList

def tagOf (release : Json) : String := (release.getStr "tag_name").getD ""

/-- `max_by_key` on the tags: the last of the greatest. -/
def latestImagesRelease (releases : List Json) (lead exclude : String) : Option Json :=
  (releases.filter (isImagesRelease lead exclude)).foldl (fun best release =>
    if best.all fun b => tagOf b ≤ tagOf release then some release else best) none

def activeV2 (dir : ImageDir φ) : Bool :=
  dir.loadMeta.any fun value => (value.get "schemaVersion").bind asStr = some schema

def sameShards (keys : List String) (dir : ImageDir φ) : Bool :=
  ((dir.loadMeta.bind (get "shardsSynced")).bind asArray).any fun groups =>
    keys.length = (groups.filterMap asStr).dedup.length && keys.all (· ∈ groups.filterMap asStr)

variable (crates : Crates φ) (source : DataSource)

/-- The tree and the pointer of a generation of the first format. -/
def treeV1 (keys : List String) (version : String) (staged : StagedV1) : Tree :=
  Function.update (Function.update staged.tree "index.json" (some staged.index)) imagesMeta
    (some (crates.toStringPretty (.object (generationMeta staged.baselineVersion version keys))))

def pointerV1 (keys : List String) (version : String) (staged : StagedV1) : JsonValue φ :=
  .object (OrderedMap.insert "generation_root"
    (.string (if staged.resolves then ".releases/" ++ staged.name else "."))
    (generationMeta staged.baselineVersion version keys))

/-- The staged generation of the first format takes its place and becomes the active one. -/
def publishV1 (run : Surroundings) (keys : List String) (version : String) (staged : StagedV1)
    (dir : ImageDir φ) : Except String Unit × ImageDir φ :=
  match (run.attempt .writeIndex).bind fun _ => run.attempt .writeStageMeta with
  | .error message => (.error message, dir)
  | .ok _ =>
    let emptied := dropReleases (· = staged.name) dir
    match run.attempt .publish with
    | .error message => (.error message, emptied)
    | .ok _ =>
      let placed := { emptied with
        releases := Function.update emptied.releases staged.name
          (some (treeV1 crates keys version staged)) }
      match run.attempt .writeMeta with
      | .error message => (.error message, placed)
      | .ok _ => (.ok (), { placed with
          pointer := some (pointerV1 keys version staged)
          releases := pruneOldTrees run staged.name placed.releases })

/-- The rest of `sync_images_locked` where the first format is chosen. -/
def syncV1 (r : Sync φ) (releases : List Json) (dir : ImageDir φ) : SyncResult × ImageDir φ :=
  let keys := neededShardKeys r.original
  match (latestImagesRelease releases deltaLead baselineLead).bind fun release =>
    imagesTagVersion (tagOf release) with
  | none => (offlineOrNoData dir "No images delta release found", dir)
  | some version =>
    if currentVersion? dir = some version ∧ dir.activeGeneration.isSome ∧ sameShards keys dir then
      (⟨.upToDate, some version, none⟩, dir)
    else
      match r.rebuildV1 dir with
      | .error (.offline message) => (offlineOrNoData dir message, dir)
      | .error (.unreadable message) => (⟨.noData, none, some message⟩, dir)
      | .ok staged =>
        match publishV1 crates r.surroundings keys version staged dir with
        | (.error message, dir) => (offlineOrNoData dir message, dir)
        | (.ok _, dir) => (⟨.updated, some version, none⟩, dir)

/-- The tag of the newest release of the second format. -/
def latestV2 (releases : List Json) : Option String :=
  (latestImagesRelease releases "images2-" "images2-baseline-").map tagOf

/-- The second format is taken if it is active or no release of the first is newer. -/
def choosesV2 (releases : List Json) (dir : ImageDir φ) (tag : String) : Bool :=
  activeV2 dir ||
    (((latestImagesRelease releases deltaLead baselineLead).bind fun release =>
      stripPrefix deltaLead (tagOf release)).all fun v1 =>
        v1 ≤ (stripPrefix "images2-" tag).getD "")

def syncV2 (r : Sync φ) (tag : String) (dir : ImageDir φ) : SyncResult × ImageDir φ :=
  match runSelected crates r.surroundings source r.original tag dir with
  | (.ok result, dir) => (result, dir)
  | (.error message, dir) => (offlineOrNoData dir message, dir)

def syncImagesLocked (r : Sync φ) (dir : ImageDir φ) : SyncResult × ImageDir φ :=
  match r.releases with
  | none => (offlineOrNoData dir "Network unavailable", dir)
  | some releases =>
    match (latestV2 releases).filter (choosesV2 releases dir) with
    | some tag => syncV2 crates source r tag dir
    | none =>
      if activeV2 dir then
        (offlineOrNoData dir "No v2 release available; keeping active v2 generation", dir)
      else syncV1 crates r releases dir

/-- `sync_images_with_source`: the source guard, and the directory and the lock around the rest. -/
def syncImages (r : Sync φ) (dir : ImageDir φ) : SyncResult × ImageDir φ :=
  match r.refused, r.unlocked with
  | some error, _ => (⟨.noData, none, some error⟩, dir)
  | none, some error => (offlineOrNoData dir error, dir)
  | none, none => syncImagesLocked crates source r dir

/-- The directory after runs. -/
def afterRuns (dir : ImageDir φ) (rs : List (Sync φ)) : ImageDir φ :=
  rs.foldl (fun dir r => (syncImages crates source r dir).2) dir

/-! ## What is kept -/

/-- A generation with its own index as it is read from its files, and the groups it was synced with. -/
structure Generation (φ : Type) where
  index : Manifest
  view : ImagesIndex φ
  original : Bool
  tree : Tree

def readOwnIndex (tree : Tree) : Option (Manifest × ImagesIndex φ) := do
  let bytes ← tree "index.json"
  let value ← (crates.fromSlice bytes).toOption
  (parse crates value).toOption

/-- The active pointer names a complete generation of the second format. -/
structure Names (dir : ImageDir φ) (g : Generation φ) : Prop where
  active : dir.activeGeneration = some g.tree
  index : readOwnIndex crates g.tree = some (g.index, g.view)
  complete : Complete crates g.original g.view [] g.tree
  v2 : activeV2 dir = true
  entry : ∃ suffix, dir.generationRoot = some (".releases/" ++ ("v2-" ++ suffix))
  source : sameSource source dir = true
  groups : sameGroups (neededShardKeys g.original) dir = true
  version : currentVersion? dir = some g.index.currentVersion

/-- A run of the list has activated a generation of the second format. -/
def Activated (dir : ImageDir φ) (rs : List (Sync φ)) : Prop :=
  ∃ before r after, rs = before ++ r :: after ∧
    (syncImages crates source r (afterRuns crates source dir before)).1.status = .updated ∧
    activeV2 (afterRuns crates source dir (before ++ [r])) = true

/-- What holds all along the runs: a failure leaves the pointer, and once a generation of the second
format was activated the pointer names a complete one whose version never falls. -/
structure Lasting (dir : ImageDir φ) (rs : List (Sync φ)) : Prop where
  failed : ∀ before r after, rs = before ++ r :: after →
    (syncImages crates source r (afterRuns crates source dir before)).1.status ≠ .updated →
    (afterRuns crates source dir (before ++ [r])).pointer = (afterRuns crates source dir before).pointer
  named : ∀ before after, rs = before ++ after → Activated crates source dir before →
    ∃ g, Names crates source (afterRuns crates source dir before) g
  rising : ∀ before between after, rs = before ++ between ++ after →
    Activated crates source dir before →
    ∃ u v, currentVersion? (afterRuns crates source dir before) = some u ∧
      currentVersion? (afterRuns crates source dir (before ++ between)) = some v ∧ u ≤ v

/-- The groups, names and targets of the files that an index declares. -/
def declared (view : ImagesIndex φ) : List (String × String × Target) :=
  view.variants.map fun v => (groupName v.1.shard v.2.1, v.2.2.file, variantTarget v.2.2)

/-- Written to a file and read again, an index has the same version and declares the same files. -/
def ReadsBack (value : JsonValue φ) (index : Manifest) (view : ImagesIndex φ) : Prop :=
  ∃ value' index' view', crates.fromSlice (crates.toVec value) = .ok value' ∧
    parse crates value' = .ok (index', view') ∧
    index'.currentVersion = index.currentVersion ∧ declared view' = declared view

/-- The index of the newest release of the second format, where the run can read it, reads back, and
none of its images goes by the name of a generated file. -/
def Clear (r : Sync φ) : Prop :=
  ∀ releases tag value index view, r.releases = some releases → latestV2 releases = some tag →
    readIndex crates r.surroundings source tag = .ok (value, index, view) →
    ReadsBack crates value index view ∧ Unclashed crates source r.original value index view

/-! ## A run of the second format -/

section SecondFormat

variable {crates source} {dir dir' : ImageDir φ} {g : Generation φ} {run : Surroundings} {original : Bool}
  {latest : String}

omit [Doubles φ] in
theorem pointer_cleaned (run : Surroundings) (dir : ImageDir φ) :
    (cleaned run dir).pointer = dir.pointer := by
  unfold cleaned cleanupOld
  split <;> rfl

/-- Where a run leaves the directory that it does not update. -/
inductive Leaves (run : Surroundings) (dir : ImageDir φ) : ImageDir φ → Prop where
  | same : Leaves run dir dir
  | cleaned : Leaves run dir (cleaned run dir)
  | cached (cache : Tree) : Leaves run dir ((ImagesV2.cleaned run dir).withCache cache)

omit [Doubles φ] in
theorem Leaves.pointer (h : Leaves run dir dir') : dir'.pointer = dir.pointer := by
  cases h with
  | same => rfl
  | cleaned => exact pointer_cleaned run dir
  | cached cache => exact pointer_cleaned run dir

theorem runSelected_leaves (h : ∀ result,
    (runSelected crates run source original latest dir).1 = .ok result → result.status ≠ .updated) :
    Leaves run dir (runSelected crates run source original latest dir).2 := by
  unfold runSelected at h ⊢
  split at h
  · exact .same
  · split at h
    · exact .cleaned
    · exact .cleaned
    · unfold build at h ⊢
      split at h
      · exact .cleaned
      · split at h
        · exact .cached _
        · split at h
          · exact .cached _
          · exact absurd rfl (h _ rfl)

/-- The removal of what earlier runs have left does not touch what the pointer names. -/
theorem Names.cleaned (h : Names crates source dir g) (run : Surroundings) :
    (ImagesV2.cleaned run dir).activeGeneration = dir.activeGeneration := by
  obtain ⟨suffix, hroot⟩ := h.entry
  have hstaging : isStaging ("v2-" ++ suffix) = false := by
    rw [isStaging, String.toList_append]
    rfl
  rw [ImagesV2.cleaned, activeGeneration_cleanupOld]
  apply activeGeneration_of_stays
  intro name hname
  rw [hroot, Option.bind_some, stripPrefix_append, Option.some_inj] at hname
  exact hname ▸ hstaging

/-- What is named depends on the pointer and the active generation only. -/
theorem Names.congr (h : Names crates source dir g) (hmeta : dir'.loadMeta = dir.loadMeta)
    (hactive : dir'.activeGeneration = dir.activeGeneration) : Names crates source dir' g where
  active := hactive.trans h.active
  index := h.index
  complete := h.complete
  v2 := by rw [activeV2, hmeta]; exact h.v2
  entry := by rw [ImageDir.generationRoot, hmeta]; exact h.entry
  source := by rw [sameSource, sourceRepo?, hmeta]; exact h.source
  groups := by rw [sameGroups, hmeta]; exact h.groups
  version := by rw [currentVersion?, hmeta]; exact h.version

theorem Names.leaves (h : Names crates source dir g) (hleaves : Leaves run dir dir') :
    Names crates source dir' g := by
  cases hleaves with
  | same => exact h
  | cleaned => exact h.congr (loadMeta_cleaned run dir) (h.cleaned run)
  | cached cache => exact h.congr (loadMeta_cleaned run dir) (h.cleaned run)

theorem priorManifest_eq (dir : ImageDir φ) : priorManifest crates dir =
    (dir.activeGeneration.bind (readOwnIndex crates)).map Prod.fst := by
  simp only [priorManifest, readOwnIndex, Option.bind_eq_bind, Option.map_bind, Function.comp_def]

/-- A release that is not refused is not older than what the pointer names. -/
theorem Names.le_of_notDowngrade (h : Names crates source dir g) {index : Manifest}
    (hdowngrade : isDowngrade crates source index dir = false) :
    g.index.currentVersion ≤ index.currentVersion := by
  rw [isDowngrade, h.source, Bool.true_and, priorManifest_eq, h.active, Option.bind_some, h.index,
    Option.map_some, Option.any_some, decide_eq_false_iff_not] at hdowngrade
  exact not_lt.mp hdowngrade

theorem complete_iff {view : ImagesIndex φ} {preserved : List String} {tree : Tree}
    (hkept : ∀ v ∈ view.variants, v.2.2.file ∈ preserved → Synced original v) :
    Complete crates original view preserved tree ↔ ∀ d ∈ declared view,
      d.1 ∈ neededShardKeys original → (tree d.2.1).map (fingerprint crates) = some d.2.2 := by
  rw [declared, List.forall_mem_map]
  constructor
  · intro h v hv hsynced
    exact h.synced v hv hsynced
  · intro h
    exact ⟨h, fun v hv hfile => h v hv (hkept v hv hfile)⟩

omit [Doubles φ] in
theorem get_stageFields (source : DataSource) (run : Surroundings) (index : Manifest) (keys : List String) :
    (rootMeta (φ := φ) run source index keys).get "schemaVersion" = some (.string schema) ∧
      (rootMeta (φ := φ) run source index keys).get "sourceRepo" = some (.string source.slug) ∧
      (rootMeta (φ := φ) run source index keys).get "currentVersion" =
        some (.string index.currentVersion) ∧
      (rootMeta (φ := φ) run source index keys).get "shardsSynced" =
        some (.array (keys.map JsonValue.string)) := by
  simp [rootMeta, stageMeta, generationMeta, OrderedMap.insert, JsonValue.get, List.lookup]

theorem activeV2_of_updated {result : SyncResult}
    (h : (runSelected crates run source original latest dir).1 = .ok result)
    (hupdated : result.status = .updated) :
    activeV2 (runSelected crates run source original latest dir).2 = true := by
  obtain ⟨job, stage, cache, -, -, hactivate⟩ := runSelected_updated h hupdated
  rw [activeV2, loadMeta_activated hactivate, Option.any_some, (get_stageFields source run job.index job.keys).1]
  rfl

/-- An update names the generation of the release that it read. -/
theorem runSelected_names {result : SyncResult}
    (hclear : ∀ value index view, readIndex crates run source latest = .ok (value, index, view) →
      ReadsBack crates value index view ∧ Unclashed crates source original value index view)
    (h : (runSelected crates run source original latest dir).1 = .ok result)
    (hupdated : result.status = .updated) :
    ∃ g, Names crates source (runSelected crates run source original latest dir).2 g ∧
      ∀ prior, Names crates source dir prior → prior.index.currentVersion ≤ g.index.currentVersion := by
  obtain ⟨value, index, view, tree, hread, htree, hcomplete⟩ :=
    runSelected_complete crates run source original latest dir h hupdated
  obtain ⟨⟨value', index', view', hslice, hparse, hversion, hdeclared⟩, hunclashed⟩ :=
    hclear value index view hread
  obtain ⟨job, stage, cache, hprepare, -, hactivate⟩ := runSelected_updated h hupdated
  obtain ⟨view₂, hjob⟩ := prepare_job hprepare
  have heq := hread.symm.trans hjob.indexed
  rw [Except.ok.injEq, Prod.mk.injEq, Prod.mk.injEq] at heq
  obtain ⟨rfl, rfl, rfl⟩ := heq
  have hview := (parse_wellFormed (readIndex_parse hread).1).2
  have hmeta := loadMeta_activated hactivate
  obtain ⟨-, hrepo, hcurrent, hshards⟩ :=
    get_stageFields (φ := φ) source run job.index job.keys
  have hindex : tree "index.json" = some (crates.toVec job.value) := by
    have hsame := htree.symm.trans (activate_active hactivate)
    rw [Option.some_inj] at hsame
    rw [hsame, completed_index]
  refine ⟨⟨index', view', original, tree⟩, ?_, ?_⟩
  · refine ⟨htree, ?_, ?_, ?_, ?_, ?_, ?_, ?_⟩
    · simp only [readOwnIndex, hindex, hslice, hparse, Option.bind_eq_bind, Option.bind_some,
        Except.toOption]
    · have hheld := (complete_iff fun v hv hfile => synced_of_preserved hview hv hfile).mp
        (hcomplete.mpr hunclashed)
      rw [complete_iff (fun _ _ hnone => absurd hnone List.not_mem_nil), hdeclared]
      exact hheld
    · exact activeV2_of_updated h hupdated
    · refine ⟨run.suffix, ?_⟩
      rw [ImageDir.generationRoot, hmeta, Option.bind_some, get_rootMeta, Option.bind_some, asStr,
        Option.filter_some, if_pos (by simp [String.append_eq_empty_iff])]
      rfl
    · rw [sameSource, sourceRepo?, hmeta, Option.bind_some, hrepo]
      exact decide_eq_true rfl
    · rw [sameGroups, hmeta, Option.bind_some, hshards, hjob.keys]
      cases original <;> rfl
    · rw [currentVersion?, hmeta, Option.bind_some, hcurrent, hversion]
      rfl
  · intro prior hprior
    have hcleaned := hprior.leaves (show Leaves run dir (ImagesV2.cleaned run dir) from .cleaned)
    exact (hcleaned.le_of_notDowngrade hjob.notDowngrade).trans_eq hversion.symm

end SecondFormat

/-! ## One run -/

section Run

variable {crates source} {dir : ImageDir φ} {g : Generation φ} {r : Sync φ}

omit [Doubles φ] in
theorem status_offlineOrNoData (dir : ImageDir φ) (error : String) :
    (offlineOrNoData dir error).status ≠ .updated := by
  unfold offlineOrNoData
  split <;> simp

/-- A run fails before it has chosen, or it is of the second format, or of the first where the second is
not active. -/
theorem syncImages_cases (crates : Crates φ) (source : DataSource) (r : Sync φ) (dir : ImageDir φ) :
    (∃ result, result.status ≠ .updated ∧ syncImages crates source r dir = (result, dir)) ∨
      (∃ releases tag, r.releases = some releases ∧ latestV2 releases = some tag ∧
        syncImages crates source r dir = syncV2 crates source r tag dir) ∨
      (activeV2 dir = false ∧ ∃ releases, r.releases = some releases ∧
        syncImages crates source r dir = syncV1 crates r releases dir) := by
  unfold syncImages
  split
  · exact .inl ⟨_, by simp, rfl⟩
  · exact .inl ⟨_, status_offlineOrNoData _ _, rfl⟩
  · unfold syncImagesLocked
    split
    · exact .inl ⟨_, status_offlineOrNoData _ _, rfl⟩
    · next releases hreleases =>
      split
      · next tag htag =>
        exact .inr (.inl ⟨releases, tag, hreleases, (Option.filter_eq_some_iff.mp htag).1, rfl⟩)
      · split
        · exact .inl ⟨_, status_offlineOrNoData _ _, rfl⟩
        · next hactive =>
          exact .inr (.inr ⟨Bool.not_eq_true _ ▸ hactive, releases, hreleases, rfl⟩)

omit [Doubles φ] in
theorem publishV1_error {run : Surroundings} {keys : List String} {version message : String}
    {staged : StagedV1} {dir' : ImageDir φ}
    (h : publishV1 crates run keys version staged dir = (.error message, dir')) :
    dir'.pointer = dir.pointer := by
  unfold publishV1 at h
  split at h
  · cases h
    rfl
  · dsimp only at h
    split at h
    · cases h
      rfl
    · split at h
      · cases h
        rfl
      · cases h

omit [Doubles φ] in
theorem publishV1_ok {run : Surroundings} {keys : List String} {version : String} {u : Unit}
    {staged : StagedV1} {dir' : ImageDir φ}
    (h : publishV1 crates run keys version staged dir = (.ok u, dir')) :
    dir'.pointer = some (pointerV1 keys version staged) := by
  unfold publishV1 at h
  split at h
  · cases h
  · dsimp only at h
    split at h
    · cases h
    · split at h
      · cases h
      · cases h
        rfl

omit [Doubles φ] in
/-- A run of the first format leaves the pointer or names a generation of the first format. -/
theorem syncV1_pointer (crates : Crates φ) (r : Sync φ) (releases : List Json) (dir : ImageDir φ) :
    (syncV1 crates r releases dir).1.status ≠ .updated ∧
        (syncV1 crates r releases dir).2.pointer = dir.pointer ∨
      (syncV1 crates r releases dir).1.status = .updated ∧
        activeV2 (syncV1 crates r releases dir).2 = false := by
  unfold syncV1
  dsimp only
  split
  · exact .inl ⟨status_offlineOrNoData _ _, rfl⟩
  · split
    · exact .inl ⟨by simp, rfl⟩
    · split
      · exact .inl ⟨status_offlineOrNoData _ _, rfl⟩
      · exact .inl ⟨by simp, rfl⟩
      · split
        · next hpublish => exact .inl ⟨status_offlineOrNoData _ _, publishV1_error hpublish⟩
        · next hpublish =>
          refine .inr ⟨rfl, ?_⟩
          rw [activeV2, ImageDir.loadMeta, publishV1_ok hpublish]
          simp [pointerV1, generationMeta, OrderedMap.insert, JsonValue.get, JsonValue.isObject,
            List.lookup, asStr, schema, schemaVersion]

theorem syncV2_leaves {tag : String}
    (h : (syncV2 crates source r tag dir).1.status ≠ .updated) :
    Leaves r.surroundings dir (syncV2 crates source r tag dir).2 := by
  have hrun : Leaves r.surroundings dir
      (runSelected crates r.surroundings source r.original tag dir).2 := by
    apply runSelected_leaves
    intro result hresult hupdated
    unfold syncV2 at h
    split at h
    · next hrun =>
      rw [hrun, Except.ok.injEq] at hresult
      exact h (hresult ▸ hupdated)
    · next hrun =>
      rw [hrun] at hresult
      cases hresult
  have hdir : (syncV2 crates source r tag dir).2 =
      (runSelected crates r.surroundings source r.original tag dir).2 := by
    unfold syncV2
    split
    · next hsame => rw [hsame]
    · next hsame => rw [hsame]
  exact hdir ▸ hrun

theorem syncV2_updated {tag : String} (h : (syncV2 crates source r tag dir).1.status = .updated) :
    ∃ result, (runSelected crates r.surroundings source r.original tag dir).1 = .ok result ∧
      result.status = .updated ∧ (syncV2 crates source r tag dir).2 =
        (runSelected crates r.surroundings source r.original tag dir).2 := by
  unfold syncV2 at h ⊢
  split at h
  · next result dir' hrun => exact ⟨result, by rw [hrun], h, by rw [hrun]⟩
  · exact absurd h (status_offlineOrNoData _ _)

/-- A run that fails leaves the pointer. -/
theorem syncImages_failed (h : (syncImages crates source r dir).1.status ≠ .updated) :
    (syncImages crates source r dir).2.pointer = dir.pointer := by
  rcases syncImages_cases crates source r dir with ⟨result, -, heq⟩ | ⟨releases, tag, -, -, heq⟩ |
    ⟨hactive, releases, -, heq⟩
  · rw [heq]
  · rw [heq] at h ⊢
    exact (syncV2_leaves h).pointer
  · rw [heq] at h ⊢
    rcases syncV1_pointer crates r releases dir with hleft | hnew
    · exact hleft.2
    · exact absurd hnew.1 h

/-- Where the second format is active, so it is after the run, and the version has not fallen. -/
theorem Names.after_run (h : Names crates source dir g) (hclear : Clear crates source r) :
    ∃ g', Names crates source (syncImages crates source r dir).2 g' ∧
      g.index.currentVersion ≤ g'.index.currentVersion := by
  rcases syncImages_cases crates source r dir with ⟨result, -, heq⟩ | ⟨releases, tag, hreleases, htag, heq⟩ |
    ⟨hactive, -⟩
  · exact ⟨g, heq ▸ h, le_refl _⟩
  · rw [heq]
    by_cases hupdated : (syncV2 crates source r tag dir).1.status = .updated
    · obtain ⟨result, hresult, hstatus, hdir⟩ := syncV2_updated hupdated
      obtain ⟨g', hg', hle⟩ := runSelected_names
        (fun value index view hread => hclear releases tag value index view hreleases htag hread)
        hresult hstatus
      exact ⟨g', hdir ▸ hg', hle g h⟩
    · exact ⟨g, h.leaves (syncV2_leaves hupdated), le_refl _⟩
  · rw [h.v2] at hactive
    cases hactive

/-- An update after which the second format is active names a complete generation. -/
theorem names_of_update (hclear : Clear crates source r)
    (hupdated : (syncImages crates source r dir).1.status = .updated)
    (hv2 : activeV2 (syncImages crates source r dir).2 = true) :
    ∃ g, Names crates source (syncImages crates source r dir).2 g := by
  rcases syncImages_cases crates source r dir with ⟨result, hstatus, heq⟩ |
    ⟨releases, tag, hreleases, htag, heq⟩ | ⟨-, releases, -, heq⟩
  · rw [heq] at hupdated
    exact absurd hupdated hstatus
  · rw [heq] at hupdated ⊢
    obtain ⟨result, hresult, hstatus, hdir⟩ := syncV2_updated hupdated
    obtain ⟨g, hg, -⟩ := runSelected_names
      (fun value index view hread => hclear releases tag value index view hreleases htag hread)
      hresult hstatus
    exact ⟨g, hdir ▸ hg⟩
  · rw [heq] at hupdated hv2
    rcases syncV1_pointer crates r releases dir with hleft | hnew
    · exact absurd hupdated hleft.1
    · rw [hnew.2] at hv2
      cases hv2

end Run

/-! ## Runs of any length -/

section Runs

variable {crates source} {dir : ImageDir φ} {g : Generation φ} {r : Sync φ} {rs before after : List (Sync φ)}

theorem afterRuns_append : afterRuns crates source dir (before ++ after) =
    afterRuns crates source (afterRuns crates source dir before) after := List.foldl_append

theorem afterRuns_concat : afterRuns crates source dir (before ++ [r]) =
    (syncImages crates source r (afterRuns crates source dir before)).2 := by
  rw [afterRuns_append]
  rfl

theorem Names.after_runs (h : Names crates source dir g) (rs : List (Sync φ))
    (hclear : ∀ r ∈ rs, Clear crates source r) :
    ∃ g', Names crates source (afterRuns crates source dir rs) g' ∧
      g.index.currentVersion ≤ g'.index.currentVersion := by
  induction rs generalizing dir g with
  | nil => exact ⟨g, h, le_refl _⟩
  | cons r rs ih =>
    obtain ⟨between, hbetween, hle⟩ := h.after_run (hclear r List.mem_cons_self)
    obtain ⟨g', hg', hle'⟩ := ih hbetween fun s hs => hclear s (List.mem_cons_of_mem r hs)
    exact ⟨g', hg', hle.trans hle'⟩

theorem names_of_activated (h : Activated crates source dir rs)
    (hclear : ∀ r ∈ rs, Clear crates source r) :
    ∃ g, Names crates source (afterRuns crates source dir rs) g := by
  obtain ⟨before, r, after, rfl, hupdated, hv2⟩ := h
  rw [afterRuns_concat] at hv2
  obtain ⟨g, hg⟩ := names_of_update (hclear r (by simp)) hupdated hv2
  obtain ⟨g', hg', -⟩ := hg.after_runs after fun s hs => hclear s (by simp [hs])
  refine ⟨g', ?_⟩
  rw [List.append_cons, afterRuns_append, afterRuns_concat]
  exact hg'

/-- Once a generation of the second format is active, every later state has a complete one. -/
theorem format_lasts (crates : Crates φ) (source : DataSource) (dir : ImageDir φ) (rs : List (Sync φ))
    (hclear : ∀ r ∈ rs, Clear crates source r) : Lasting crates source dir rs where
  failed before r after heq h := by
    rw [afterRuns_concat]
    exact syncImages_failed h
  named before after heq hactivated := by
    subst heq
    exact names_of_activated hactivated fun r hr => hclear r (List.mem_append_left _ hr)
  rising before between after heq hactivated := by
    subst heq
    obtain ⟨g, hg⟩ := names_of_activated hactivated fun r hr => hclear r (by simp [hr])
    obtain ⟨g', hg', hle⟩ := hg.after_runs between fun r hr => hclear r (by simp [hr])
    rw [← afterRuns_append] at hg'
    exact ⟨_, _, hg.version, hg'.version, hle⟩

end Runs

/-! ## An image under the name of the index -/

def releaseNamed (tag : String) : Json := .obj [("tag_name", .str tag)]

/-- A run over listed tags that nothing stands in the way of. A rebuild of the first format fails. -/
def listing (tags : List String) (run : Surroundings) : Sync UInt64 where
  refused := none
  unlocked := none
  releases := some (tags.map releaseNamed)
  original := false
  surroundings := run
  rebuildV1 _ := .error (.offline "Failed to download index.json")

theorem syncImages_listing {crates : Crates UInt64} {tags : List String} {run : Surroundings}
    {dir : ImageDir UInt64} {tag : String} (htag : (latestV2 (tags.map releaseNamed)).filter
      (choosesV2 (tags.map releaseNamed) dir) = some tag) :
    syncImages crates .default (listing tags run) dir =
      syncV2 crates .default (listing tags run) tag dir := by
  simp only [syncImages, listing, syncImagesLocked, htag]

/-- A run that updates by the second format activates it. -/
theorem activated_listing {crates : Crates UInt64} {tags : List String} {run : Surroundings}
    {dir : ImageDir UInt64} {tag : String} {result : SyncResult} (rs : List (Sync UInt64))
    (htag : (latestV2 (tags.map releaseNamed)).filter (choosesV2 (tags.map releaseNamed) dir) = some tag)
    (h : (runSelected crates run .default false tag dir).1 = .ok result)
    (hupdated : result.status = .updated) :
    Activated crates .default dir (listing tags run :: rs) := by
  have hrun : syncImages crates .default (listing tags run) dir =
      (result, (runSelected crates run .default false tag dir).2) := by
    rw [syncImages_listing htag, syncV2]
    dsimp only [listing]
    generalize runSelected crates run .default false tag dir = out at h ⊢
    obtain ⟨answer, left⟩ := out
    cases h
    rfl
  refine ⟨[], listing tags run, rs, rfl, ?_, ?_⟩
  · rw [afterRuns, List.foldl_nil, hrun]
    exact hupdated
  · rw [List.nil_append, afterRuns, List.foldl_cons, List.foldl_nil, hrun]
    exact activeV2_of_updated h hupdated

def clashSync : Sync UInt64 := listing ["images2-26-01"] clashRun

def afterClash : ImageDir UInt64 := afterRuns clashCrates .default emptyDir [clashSync]

theorem clash_activated : Activated clashCrates .default emptyDir [clashSync] :=
  activated_listing [] (by decide +kernel) clash_run.1 rfl

/-- The index that is active declares an image under its own name, which is not there. -/
theorem clash_missing : (afterClash.activeGeneration.any fun tree =>
    (readOwnIndex clashCrates tree).any (fun own =>
      ("chararts-large", "index.json", (4, clashImageDigest)) ∈ declared own.2) &&
    (tree "index.json").map (fingerprint clashCrates) ≠ some (4, clashImageDigest)) = true := by
  decide +kernel

theorem clash_not_lasting : ¬ Lasting clashCrates .default emptyDir [clashSync] := by
  intro h
  obtain ⟨g, hg⟩ := h.named [clashSync] [] rfl clash_activated
  have hmissing := clash_missing
  rw [afterClash, hg.active, Option.any_some, hg.index, Option.any_some, Bool.and_eq_true,
    decide_eq_true_eq, decide_eq_true_eq] at hmissing
  obtain ⟨hdeclared, hother⟩ := hmissing
  have hgroup : "chararts-large" ∈ neededShardKeys g.original := by cases g.original <;> decide
  have hholds := (complete_iff fun _ _ hnone => absurd hnone List.not_mem_nil).mp hg.complete
  exact hother (hholds _ hdeclared hgroup)

/-! ## A release and what is listed after it -/

/-- A release is installed, then only the first format is listed, then an older release. -/
def historyRuns : List (Sync UInt64) :=
  [listing ["images2-26-02", "images-26-01"] (historyRun "1"), listing ["images-26-03"] (historyRun "2"),
    listing ["images-26-03", "images2-26-01"] (historyRun "3")]

theorem twoReleases_names {r : Release UInt64} (hr : r ∈ [secondRelease, firstRelease])
    {v : ArtworkEntry UInt64 × String × VariantMeta UInt64} (hv : v ∈ r.view.variants) :
    v.2.2.file ∈ ["a.png", "b.png"] := by
  have hnames : (carriedFiles [imageA.part, imageB.part]).map Prod.fst = ["a.png", "b.png"] := rfl
  have hcarried : (v.2.2.file, groupName v.1.shard v.2.1, variantTarget v.2.2) ∈
      carriedFiles [imageA.part, imageB.part] := by
    have hdeclared := List.mem_map_of_mem
      (f := fun v => (v.2.2.file, groupName v.1.shard v.2.1, variantTarget v.2.2)) hv
    rcases List.mem_pair.mp hr with rfl | rfl
    · exact secondRelease_facts.2.2.2.2.2 ▸ hdeclared
    · rw [carriedFiles_cons]
      exact List.mem_append_left _ (firstRelease_facts.2.2.2.2 ▸ hdeclared)
  exact hnames ▸ List.mem_map_of_mem (f := Prod.fst) hcarried

theorem twoReleases_unclashed {r : Release UInt64} (hr : r ∈ [secondRelease, firstRelease]) :
    Unclashed historyCrates .default false r.value r.index r.view := by
  intro v hv _ bytes hbytes
  have hnone : ∀ name ∈ ["a.png", "b.png"],
      generatedFile historyCrates .default false r.value r.index name = none := by
    intro name hname
    unfold generatedFile
    rcases List.mem_pair.mp hname with rfl | rfl
    · rw [if_neg (by decide), if_neg (by decide)]
    · rw [if_neg (by decide), if_neg (by decide)]
  rw [hnone _ (twoReleases_names hr hv)] at hbytes
  cases hbytes

theorem twoReleases_readsBack {r : Release UInt64} (hr : r ∈ [secondRelease, firstRelease]) :
    ReadsBack historyCrates r.value r.index r.view := by
  rcases List.mem_pair.mp hr with rfl | rfl
  · refine ⟨_, _, _, ?_, secondRelease_parsed, rfl, rfl⟩
    rw [← fromSlice_second, secondRelease_value]
    rfl
  · refine ⟨_, _, _, ?_, firstRelease_parsed, rfl, rfl⟩
    rw [← fromSlice_first, firstRelease_value]
    rfl

theorem clear_listing {tags : List String} (suffix : String) {r : Release UInt64}
    (hr : r ∈ [secondRelease, firstRelease])
    (htag : latestV2 (tags.map releaseNamed) = some (releaseTag r.version)) :
    Clear historyCrates .default (listing tags (historyRun suffix)) := by
  intro releases tag value index view hreleases hlatest hread
  cases hreleases
  rw [htag, Option.some_inj] at hlatest
  rw [← hlatest, listing, readIndex_served twoReleases_consistent (twoReleases_served suffix) hr,
    Except.ok.injEq, Prod.mk.injEq, Prod.mk.injEq] at hread
  obtain ⟨rfl, rfl, rfl⟩ := hread
  exact ⟨twoReleases_readsBack hr, twoReleases_unclashed hr⟩

theorem historyRuns_clear : ∀ r ∈ historyRuns, Clear historyCrates .default r := by
  rw [historyRuns, List.forall_mem_cons, List.forall_mem_cons, List.forall_mem_singleton]
  refine ⟨?_, ?_, ?_⟩
  · apply clear_listing "1" (r := secondRelease) List.mem_cons_self
    rw [Release.version, secondRelease_facts.1]
    decide +kernel
  · intro releases tag value index view hreleases hlatest
    cases hreleases
    have hnone : latestV2 (["images-26-03"].map releaseNamed) = none := by decide +kernel
    rw [hnone] at hlatest
    cases hlatest
  · apply clear_listing "3" (r := firstRelease) (by simp)
    rw [Release.version, firstRelease_facts.1]
    decide +kernel

theorem historyRuns_activated : Activated historyCrates .default emptyDir historyRuns := by
  obtain ⟨tree, hresult, -⟩ := runSelected_served false twoReleases_consistent
    (twoReleases_served "1") (show Behind historyCrates [firstRelease] emptyDir from .inl rfl) rfl
  apply activated_listing _ ?_ hresult rfl
  rw [Release.version, secondRelease_facts.1]
  decide +kernel

theorem format_lasts_historyRuns : Activated historyCrates .default emptyDir historyRuns ∧
    Lasting historyCrates .default emptyDir historyRuns :=
  ⟨historyRuns_activated, format_lasts historyCrates .default emptyDir historyRuns historyRuns_clear⟩

end PrtsMcp.ImageFormats
