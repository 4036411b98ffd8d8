import PrtsMcp.Discovery
import PrtsMcp.ImageFiles
import PrtsMcp.ZipExtraction

/-!
# Image generations of the first format

A generation is built from the shards of its baseline and the deltas after it, or from the generation
before it and the newer deltas only. Which files the two ways build alike.
-/
namespace PrtsMcp.ImagesV1

open Discovery (assetUrl)
open Fallible ImageFiles ImageManifest Overlays Paths SyncTypes ZipExtraction
open SourceGuard (DataSource)

/-! ## The chain -/

def deltaLead : String := "images-"

def baselineLead : String := "images-baseline-"

def deltaAssetName (version : String) : String := "images-delta-" ++ version ++ ".zip"

def imagesTagVersion (tag : String) : Option String :=
  (stripPrefix baselineLead tag).or (stripPrefix deltaLead tag)

/-- The version of a delta that is newer than the baseline and not newer than the index. -/
def chainEntry (baselineVersion currentVersion : String) (release : Json) : Option (String × Json) := do
  let tag ← release.getStr "tag_name"
  if (stripPrefix baselineLead tag).isSome then none
  else
    let version ← imagesTagVersion tag
    if baselineVersion < version ∧ version ≤ currentVersion then some (version, release) else none

/-- All the deltas between the two versions, as they are listed. -/
def deltasBetween (releases : List Json) (baselineVersion currentVersion : String) :
    List (String × Json) :=
  releases.filterMap (chainEntry baselineVersion currentVersion)

def enumerateDeltaChain (releases : List Json) (baselineVersion currentVersion : String) :
    Option (List (String × Json)) :=
  let chain := deltasBetween releases baselineVersion currentVersion
  if (chain.map Prod.fst).dedup.length ≠ chain.length then none
  else some (chain.insertionSort fun a b => a.1 ≤ b.1)

/-! ## Building a tree -/

/-- The names of a path below the staging directory. A path that climbs above it would have to come
back by its random name. -/
def pathBelow (text : List Char) : Option Names :=
  if text.head? = some '/' then none
  else if (way (parts text)).up = 0 then some (way (parts text)).down
  else none

/-- Where a member of an archive goes. -/
def memberPath (name : String) : Option Names :=
  pathBelow (name.toList.map fun c => if c = '\\' then '/' else c)

/-- Where the file of a variant is. -/
def variantPath (file : String) : Option Names := pathBelow file.toList

/-- What stands at a URL, and how an archive opens. -/
structure Remote where
  bytes : String → Bytes
  unzip : Bytes → Except SyncError Archive

/-- What one run meets: the downloads that fail, and the local steps refused for each archive. -/
structure Run where
  lost : String → Option TransportError
  faults : String → ℕ → Faults

variable (remote : Remote) (source : DataSource)

def setFile (file : Names) (bytes : Option Bytes) (disk : Disk) : Disk :=
  { disk with files := Function.update disk.files file bytes }

/-- An archive is downloaded into the tree, extracted over it and removed. -/
def applyArchive (run : Run) (url asset : String) (file : Names) (disk : Disk) : Except SyncError Disk :=
  match run.lost url with
  | some e => .error (.message (e.text ++ " downloading " ++ asset))
  | none => do
    let archive ← remote.unzip (remote.bytes url)
    match extractAll memberPath (run.faults url) archive 0
        ⟨setFile file (some (remote.bytes url)) disk, [], [], fun _ => false⟩ with
    | (.error e, _) => .error e
    | (.ok (), s) => return setFile file none s.disk

def shardFile (key : String) : Names := ["." ++ key ++ ".zip"]

def deltaFile : Names := [".delta.zip"]

/-- The shards of a baseline, as an index names them. -/
structure Baseline where
  version : String
  shards : List (String × String)

variable (baseline : Baseline)

def shardUrl (file : String) : String := downloadUrl source (baselineLead ++ baseline.version) file

/-- A shard without a file is passed over. -/
def addShard (run : Run) (disk : Disk) (key : String) : Except SyncError Disk :=
  match (baseline.shards.lookup key).filter (· ≠ "") with
  | none => .ok disk
  | some file => applyArchive remote run (shardUrl source baseline file) file (shardFile key) disk

def missingAsset (version : String) : SyncError :=
  .message ("images delta asset missing: " ++ deltaAssetName version)

def addDelta (run : Run) (disk : Disk) (delta : String × Json) : Except SyncError Disk :=
  match assetUrl delta.2 (deltaAssetName delta.1) with
  | none => .error (missingAsset delta.1)
  | some url => applyArchive remote run url (deltaAssetName delta.1) deltaFile disk

def indexFile : Names := ["index.json"]

def metaFile : Names := [imagesMeta]

def noFiles : Disk := ⟨fun _ => none, fun p => p = []⟩

/-- A copied tree loses its index and its meta file. -/
def copied (prior : Disk) : Disk := setFile metaFile none (setFile indexFile none prior)

/-- The staged tree, before it is verified: from the generation before, or from the shards. -/
def buildTree (keys : List String) (run : Run) (prior : Option Disk) (pending : List (String × Json)) :
    Except SyncError Disk := do
  let disk ← match prior with
    | some prior => .ok (copied prior)
    | none => keys.foldlM (addShard remote source baseline run) noFiles
  pending.foldlM (addDelta remote run) disk

/-- The generation that is activated has the bytes of the index and its meta file. -/
def finished (index fileMeta : Bytes) (disk : Disk) : Disk :=
  setFile metaFile (some fileMeta) (setFile indexFile (some index) disk)

/-! ## A run -/

/-- What the pointer says, and the active generation. -/
structure Prior where
  pointer : Bool
  baselineVersion : Option String
  currentVersion : Option String
  shardsSynced : Option (List String)
  generation : Option Disk

def sameShards (keys : List String) (prior : Prior) : Bool :=
  prior.shardsSynced.any fun set => keys.length = set.dedup.length && keys.all (· ∈ set)

def baselineUnchanged (keys : List String) (currentVersion : String) (prior : Prior) : Bool :=
  prior.pointer && prior.generation.isSome && prior.baselineVersion = some baseline.version &&
    sameShards keys prior && prior.currentVersion.any (· ≤ currentVersion)

def applyAfter (keys : List String) (currentVersion : String) (prior : Prior) : String :=
  if baselineUnchanged baseline keys currentVersion prior then prior.currentVersion.getD baseline.version
  else baseline.version

def missingDelta (pending : List (String × Json)) : Option (String × Json) :=
  pending.find? fun delta => (assetUrl delta.2 (deltaAssetName delta.1)).isNone

/-- The rebuild up to the verification, with the releases that reach back far enough. -/
def stageGeneration (keys : List String) (currentVersion : String) (releases : List Json) (run : Run)
    (prior : Prior) : Except SyncError Disk := do
  let chain ← okOr (.message "images delta chain has duplicate versions")
    (enumerateDeltaChain releases baseline.version currentVersion)
  let pending := chain.filter fun delta => applyAfter baseline keys currentVersion prior < delta.1
  match missingDelta pending with
  | some delta => .error (missingAsset delta.1)
  | none =>
    buildTree remote source baseline keys run
      (if baselineUnchanged baseline keys currentVersion prior then prior.generation else none) pending

/-! ## Exactly once, in order -/

theorem length_dedup_ne_iff {xs : List String} : xs.dedup.length ≠ xs.length ↔ ¬ xs.Nodup := by
  rw [not_iff_not, ← List.dedup_eq_self]
  exact ⟨fun h => (List.dedup_sublist xs).eq_of_length h, fun h => congrArg List.length h⟩

/-- Two releases that claim one version leave no chain. -/
theorem enumerateDeltaChain_eq_none_iff {releases : List Json} {baselineVersion currentVersion : String} :
    enumerateDeltaChain releases baselineVersion currentVersion = none ↔
      ¬ ((deltasBetween releases baselineVersion currentVersion).map Prod.fst).Nodup := by
  rw [enumerateDeltaChain, ← length_dedup_ne_iff, List.length_map]
  split_ifs with h <;> simp [h]

/-- A chain has each delta between the versions once, and its versions ascend. -/
theorem enumerateDeltaChain_eq_some {releases : List Json} {baselineVersion currentVersion : String}
    {chain : List (String × Json)}
    (h : enumerateDeltaChain releases baselineVersion currentVersion = some chain) :
    chain.Perm (deltasBetween releases baselineVersion currentVersion) ∧
      chain.Pairwise fun a b => a.1 < b.1 := by
  have hnodup : ((deltasBetween releases baselineVersion currentVersion).map Prod.fst).Nodup := by
    by_contra hnot
    rw [enumerateDeltaChain_eq_none_iff.mpr hnot] at h
    cases h
  rw [enumerateDeltaChain] at h
  split_ifs at h with hlength
  obtain rfl := Option.some.inj h
  have hperm := List.perm_insertionSort (fun a b : String × Json => a.1 ≤ b.1)
    (deltasBetween releases baselineVersion currentVersion)
  refine ⟨hperm, ?_⟩
  have horder : Std.Total fun a b : String × Json => a.1 ≤ b.1 := ⟨fun a b => le_total a.1 b.1⟩
  have htrans : IsTrans (String × Json) fun a b => a.1 ≤ b.1 := ⟨fun _ _ _ => le_trans⟩
  have hsorted := List.pairwise_insertionSort (fun a b : String × Json => a.1 ≤ b.1)
    (deltasBetween releases baselineVersion currentVersion)
  have hdistinct := List.pairwise_map.mp ((hperm.map Prod.fst).nodup_iff.mpr hnodup)
  exact (hsorted.and hdistinct).imp fun h => lt_of_le_of_ne h.1 h.2

/-! ## Layers -/

def setLayer (file : Names) (value : Option Bytes) : Names → Option (Option Bytes) := fun p =>
  if p = file then some value else none

theorem files_setFile (file : Names) (value : Option Bytes) (disk : Disk) :
    (setFile file value disk).files = overlay disk.files (setLayer file value) := by
  funext p
  simp only [setFile, Function.update_apply, overlay, setLayer]
  split_ifs <;> rfl

/-- What an archive that opens does to the files. -/
def archiveLayers (url : String) (file : Names) : List (Names → Option (Option Bytes)) :=
  match remote.unzip (remote.bytes url) with
  | .ok archive => setLayer file (some (remote.bytes url)) ::
      ((plan memberPath archive).1.map Placement.layer ++ [setLayer file none])
  | .error _ => []

theorem applyArchive_ok {run : Run} {url asset : String} {file : Names} {disk disk' : Disk}
    (h : applyArchive remote run url asset file disk = .ok disk') :
    disk'.files = overlayAll disk.files (archiveLayers remote url file) := by
  unfold applyArchive at h
  cases hlost : run.lost url with
  | some e => simp [hlost] at h
  | none =>
    simp only [hlost] at h
    obtain ⟨archive, harchive, h⟩ := bind_eq_ok h
    rw [archiveLayers, harchive]
    split at h
    · cases h
    · next s hextract =>
      cases h
      obtain ⟨-, hfiles⟩ := extractAll_ok hextract
      rw [files_setFile, hfiles, files_setFile]
      simp only [overlayAll_cons, overlayAll_append, overlayAll_nil]

def shardLayers (key : String) : List (Names → Option (Option Bytes)) :=
  match (baseline.shards.lookup key).filter (· ≠ "") with
  | none => []
  | some file => archiveLayers remote (shardUrl source baseline file) (shardFile key)

def deltaLayers (delta : String × Json) : List (Names → Option (Option Bytes)) :=
  match assetUrl delta.2 (deltaAssetName delta.1) with
  | none => []
  | some url => archiveLayers remote url deltaFile

theorem addShard_ok {run : Run} {disk disk' : Disk} {key : String}
    (h : addShard remote source baseline run disk key = .ok disk') :
    disk'.files = overlayAll disk.files (shardLayers remote source baseline key) := by
  unfold addShard at h
  unfold shardLayers
  cases hfile : (baseline.shards.lookup key).filter (· ≠ "") with
  | none =>
    rw [hfile] at h
    cases h
    rfl
  | some file =>
    rw [hfile] at h
    exact applyArchive_ok remote h

theorem addDelta_ok {run : Run} {disk disk' : Disk} {delta : String × Json}
    (h : addDelta remote run disk delta = .ok disk') :
    disk'.files = overlayAll disk.files (deltaLayers remote delta) := by
  unfold addDelta at h
  unfold deltaLayers
  cases hurl : assetUrl delta.2 (deltaAssetName delta.1) with
  | none =>
    rw [hurl] at h
    cases h
  | some url =>
    rw [hurl] at h
    exact applyArchive_ok remote h

theorem foldlM_ok {β : Type} (step : Disk → β → Except SyncError Disk)
    (layers : β → List (Names → Option (Option Bytes)))
    (hstep : ∀ d b d', step d b = .ok d' → d'.files = overlayAll d.files (layers b)) {items : List β}
    {disk disk' : Disk} (h : items.foldlM step disk = .ok disk') :
    disk'.files = overlayAll disk.files (items.flatMap layers) := by
  induction items generalizing disk with
  | nil =>
    cases h
    rfl
  | cons item items ih =>
    rw [List.foldlM_cons] at h
    obtain ⟨between, hbetween, h⟩ := bind_eq_ok h
    rw [ih h, hstep _ _ _ hbetween, List.flatMap_cons, overlayAll_append]

theorem addDeltas_ok {run : Run} {disk disk' : Disk} {pending : List (String × Json)}
    (h : pending.foldlM (addDelta remote run) disk = .ok disk') :
    disk'.files = overlayAll disk.files (pending.flatMap (deltaLayers remote)) :=
  foldlM_ok (addDelta remote run) (deltaLayers remote) (fun _ _ _ => addDelta_ok remote) h

theorem addShards_ok {run : Run} {disk disk' : Disk} {keys : List String}
    (h : keys.foldlM (addShard remote source baseline run) disk = .ok disk') :
    disk'.files = overlayAll disk.files (keys.flatMap (shardLayers remote source baseline)) :=
  foldlM_ok (addShard remote source baseline run) (shardLayers remote source baseline)
    (fun _ _ _ => addShard_ok remote source baseline) h

/-- The files of the shards of the baseline and of deltas over them. -/
def builtFiles (keys : List String) (deltas : List (String × Json)) : Names → Option Bytes :=
  overlayAll (fun _ => none)
    (keys.flatMap (shardLayers remote source baseline) ++ deltas.flatMap (deltaLayers remote))

theorem buildTree_fresh {keys : List String} {run : Run} {pending : List (String × Json)} {disk : Disk}
    (h : buildTree remote source baseline keys run none pending = .ok disk) :
    disk.files = builtFiles remote source baseline keys pending := by
  obtain ⟨shards, hshards, h⟩ := bind_eq_ok h
  rw [addDeltas_ok remote h, addShards_ok remote source baseline hshards, builtFiles, overlayAll_append]
  rfl

theorem buildTree_copied {keys : List String} {run : Run} {prior : Disk} {pending : List (String × Json)}
    {disk : Disk} (h : buildTree remote source baseline keys run (some prior) pending = .ok disk) :
    disk.files = overlayAll (copied prior).files (pending.flatMap (deltaLayers remote)) := by
  obtain ⟨start, hstart, h⟩ := bind_eq_ok h
  cases hstart
  exact addDeltas_ok remote h

/-! ## Generations of one chain -/

def Reserved (p : Names) : Prop := p = indexFile ∨ p = metaFile

theorem copied_of_reserved {prior : Disk} {p : Names} (h : Reserved p) : (copied prior).files p = none := by
  simp only [copied, setFile, Function.update_apply]
  rcases h with rfl | rfl
  · rw [if_pos rfl, ite_self]
  · rw [if_pos rfl]

theorem copied_of_not_reserved {prior : Disk} {p : Names} (h : ¬ Reserved p) :
    (copied prior).files p = prior.files p := by
  rw [Reserved, not_or] at h
  simp only [copied, setFile, Function.update_apply]
  rw [if_neg h.2, if_neg h.1]

theorem finished_of_not_reserved {index fileMeta : Bytes} {disk : Disk} {p : Names} (h : ¬ Reserved p) :
    (finished index fileMeta disk).files p = disk.files p := by
  rw [Reserved, not_or] at h
  simp only [finished, setFile, Function.update_apply]
  rw [if_neg h.2, if_neg h.1]

/-- The generations that are activated on a chain: from the shards and all deltas up to a version, or
from one of them and the deltas from it to a version. -/
inductive Activated (keys : List String) (chain : List (String × Json)) : String → Disk → Prop
  | rebuilt {run : Run} {version : String} {disk : Disk} (index fileMeta : Bytes)
      (built : buildTree remote source baseline keys run none (chain.filter (·.1 ≤ version)) = .ok disk) :
      Activated keys chain version (finished index fileMeta disk)
  | advanced {run : Run} {before version : String} {prior disk : Disk} (index fileMeta : Bytes)
      (activated : Activated keys chain before prior) (older : before ≤ version)
      (built : buildTree remote source baseline keys run (some prior)
        (chain.filter fun delta => before < delta.1 ∧ delta.1 ≤ version) = .ok disk) :
      Activated keys chain version (finished index fileMeta disk)

section Cut

variable {κ β : Type} [LinearOrder κ] {chain : List (κ × β)}

/-- An ascending chain is cut at a version. -/
theorem filter_le_append_lt (h : chain.Pairwise fun a b => a.1 < b.1) (before : κ) :
    chain.filter (·.1 ≤ before) ++ chain.filter (before < ·.1) = chain := by
  induction chain with
  | nil => rfl
  | cons delta chain ih =>
    obtain ⟨hfirst, hrest⟩ := List.pairwise_cons.mp h
    have hih := ih hrest
    by_cases hbefore : delta.1 ≤ before
    · rw [List.filter_cons_of_pos (by simpa using hbefore), List.filter_cons_of_neg (by simpa using hbefore),
        List.cons_append, hih]
    · have hlater : chain.filter (·.1 ≤ before) = [] := by
        rw [List.filter_eq_nil_iff]
        intro other hother
        simpa using (lt_of_not_ge hbefore).trans (hfirst other hother)
      rw [hlater, List.nil_append] at hih
      rw [List.filter_cons_of_neg (by simpa using hbefore), List.filter_cons_of_pos (by simpa using hbefore),
        hlater, hih, List.nil_append]

theorem filter_le_append_between (h : chain.Pairwise fun a b => a.1 < b.1) {before version : κ}
    (hle : before ≤ version) :
    chain.filter (·.1 ≤ before) ++ chain.filter (fun delta => before < delta.1 ∧ delta.1 ≤ version) =
      chain.filter (·.1 ≤ version) := by
  have hcut := filter_le_append_lt (h.filter (·.1 ≤ version)) before
  rw [List.filter_filter, List.filter_filter] at hcut
  rw [← hcut]
  congr 1
  · refine List.filter_congr fun delta _ => ?_
    simpa using fun hbefore : delta.1 ≤ before => hbefore.trans hle
  · refine List.filter_congr fun delta _ => ?_
    simp

end Cut

/-- But for the index and the meta file, a generation has what its baseline and all deltas up to its
version build. -/
theorem Activated.files_eq {keys : List String} {chain : List (String × Json)}
    (hchain : chain.Pairwise fun a b => a.1 < b.1) {version : String} {disk : Disk}
    (h : Activated remote source baseline keys chain version disk) {p : Names} (hp : ¬ Reserved p) :
    disk.files p = builtFiles remote source baseline keys (chain.filter (·.1 ≤ version)) p := by
  induction h with
  | rebuilt index fileMeta built =>
    rw [finished_of_not_reserved hp, buildTree_fresh remote source baseline built]
  | @advanced run before version prior disk index fileMeta activated older built ih =>
    rw [finished_of_not_reserved hp, buildTree_copied remote source baseline built,
      ← filter_le_append_between hchain older, builtFiles, List.flatMap_append, ← List.append_assoc,
      overlayAll_append]
    exact overlayAll_eq_iff.mpr (.inr ((copied_of_not_reserved hp).trans ih))

/-! ## Both ways -/

/-- A file that both ways build alike: it is not one that is left out of the copy, a newer delta sets
it, or nothing had set it before. -/
def Alike (keys : List String) (chain : List (String × Json)) (version : String) (p : Names) : Prop :=
  ¬ Reserved p ∨ (∃ layer ∈ (chain.filter (version < ·.1)).flatMap (deltaLayers remote), (layer p).isSome) ∨
    builtFiles remote source baseline keys (chain.filter (·.1 ≤ version)) p = none

theorem copied_eq_rebuilt_iff {keys : List String} {chain : List (String × Json)}
    (hchain : chain.Pairwise fun a b => a.1 < b.1) {version : String} {prior : Disk}
    (hprior : Activated remote source baseline keys chain version prior) {run run' : Run}
    {incremental rebuilt : Disk}
    (hincremental : buildTree remote source baseline keys run (some prior)
      (chain.filter (version < ·.1)) = .ok incremental)
    (hrebuilt : buildTree remote source baseline keys run' none chain = .ok rebuilt) (p : Names) :
    incremental.files p = rebuilt.files p ↔ Alike remote source baseline keys chain version p := by
  have hsplit : builtFiles remote source baseline keys chain =
      overlayAll (builtFiles remote source baseline keys (chain.filter (·.1 ≤ version)))
        ((chain.filter (version < ·.1)).flatMap (deltaLayers remote)) := by
    conv_lhs => rw [← filter_le_append_lt hchain version]
    rw [builtFiles, List.flatMap_append, ← List.append_assoc, overlayAll_append]
    rfl
  rw [buildTree_copied remote source baseline hincremental, buildTree_fresh remote source baseline hrebuilt,
    hsplit, overlayAll_eq_iff, Alike]
  by_cases hp : Reserved p
  · rw [copied_of_reserved hp]
    simp only [hp, not_true_eq_false, false_or]
    exact or_congr_right eq_comm
  · rw [copied_of_not_reserved hp, hprior.files_eq remote source baseline hchain hp]
    simp [hp]

/-! ## The two runs -/

/-- A delta release and its version. -/
def IsDelta (release : Json) (version : String) : Prop :=
  ∃ tag, release.getStr "tag_name" = some tag ∧ tag = deltaLead ++ version ∧
    stripPrefix baselineLead tag = none

theorem chainEntry_eq_some_iff {baselineVersion currentVersion version : String} {release release' : Json} :
    chainEntry baselineVersion currentVersion release = some (version, release') ↔
      release = release' ∧ IsDelta release version ∧ baselineVersion < version ∧ version ≤ currentVersion := by
  constructor
  · intro h
    simp only [chainEntry, Option.bind_eq_bind, Option.bind_eq_some_iff] at h
    obtain ⟨tag, htag, h⟩ := h
    split_ifs at h with hbaseline
    have hnone : stripPrefix baselineLead tag = none := by simpa using hbaseline
    obtain ⟨found, hfound, h⟩ := Option.bind_eq_some_iff.mp h
    split_ifs at h with hbetween
    cases h
    rw [imagesTagVersion, hnone, Option.none_or] at hfound
    exact ⟨rfl, ⟨tag, htag, eq_append_of_stripPrefix hfound, hnone⟩, hbetween⟩
  · rintro ⟨rfl, ⟨tag, htag, rfl, hnone⟩, hbetween⟩
    have hversion : imagesTagVersion (deltaLead ++ version) = some version := by
      rw [imagesTagVersion, hnone, Option.none_or, stripPrefix_append]
    rw [chainEntry, htag]
    simp only [Option.bind_eq_bind, Option.bind_some, hnone, Option.isSome_none, Bool.false_eq_true,
      if_false, hversion]
    rw [if_pos hbetween]

/-- The deltas are the listed ones between the versions. -/
theorem mem_deltasBetween {releases : List Json} {baselineVersion currentVersion version : String}
    {release : Json} :
    (version, release) ∈ deltasBetween releases baselineVersion currentVersion ↔
      release ∈ releases ∧ IsDelta release version ∧ baselineVersion < version ∧ version ≤ currentVersion := by
  rw [deltasBetween, List.mem_filterMap]
  constructor
  · rintro ⟨entry, hentry, heq⟩
    obtain ⟨rfl, hdelta⟩ := chainEntry_eq_some_iff.mp heq
    exact ⟨hentry, hdelta⟩
  · rintro ⟨hrelease, hdelta⟩
    exact ⟨release, hrelease, chainEntry_eq_some_iff.mpr ⟨rfl, hdelta⟩⟩

/-- The state of a directory whose active generation is of a version. -/
def priorAt (keys : List String) (version : String) (disk : Disk) : Prior :=
  ⟨true, some baseline.version, some version, some keys, some disk⟩

/-- The state of a directory without any generation. -/
def noPrior : Prior := ⟨false, none, none, none, none⟩

theorem stageGeneration_ok {keys : List String} {currentVersion : String} {releases : List Json} {run : Run}
    {prior : Prior} {chain : List (String × Json)} {disk : Disk}
    (hchain : enumerateDeltaChain releases baseline.version currentVersion = some chain)
    (h : stageGeneration remote source baseline keys currentVersion releases run prior = .ok disk) :
    buildTree remote source baseline keys run
      (if baselineUnchanged baseline keys currentVersion prior then prior.generation else none)
      (chain.filter fun delta => applyAfter baseline keys currentVersion prior < delta.1) = .ok disk := by
  unfold stageGeneration at h
  rw [hchain] at h
  obtain ⟨chain', hok, h⟩ := bind_eq_ok h
  cases hok
  simp only at h
  split at h
  · cases h
  · exact h

theorem baselineUnchanged_priorAt {keys : List String} (hkeys : keys.Nodup) {version currentVersion : String}
    (hle : version ≤ currentVersion) (disk : Disk) :
    baselineUnchanged baseline keys currentVersion (priorAt baseline keys version disk) = true := by
  have hshards : sameShards keys (priorAt baseline keys version disk) = true := by
    simp [sameShards, priorAt, hkeys.dedup]
  rw [baselineUnchanged, hshards]
  simpa [priorAt] using hle

theorem baselineUnchanged_noPrior (keys : List String) (currentVersion : String) :
    baselineUnchanged baseline keys currentVersion noPrior = false := rfl

/-- The baseline of an index. -/
def baselineOf {φ : Type} (index : ImagesIndex φ) : Baseline := ⟨index.baselineVersion, index.shards⟩

theorem nodup_neededShardKeys (original : Bool) : (neededShardKeys original).Nodup := by
  cases original <;> decide

/-- The chain has each delta between the versions once and in order, and there is none if two releases
claim one version. From a generation that was activated on the chain and the newer deltas come the same
files of an index as from the baseline and the whole chain, exactly if each of them is no file that is
left out of the copy, or is set by a newer delta, or was not there before. -/
theorem stageGeneration_exact {φ : Type} (remote : Remote) (source : DataSource) (index : ImagesIndex φ)
    (original : Bool) (releases : List Json) :
    (enumerateDeltaChain releases index.baselineVersion index.currentVersion = none ↔
      ¬ ((deltasBetween releases index.baselineVersion index.currentVersion).map Prod.fst).Nodup) ∧
    ∀ chain, enumerateDeltaChain releases index.baselineVersion index.currentVersion = some chain →
      (chain.Pairwise fun a b => a.1 < b.1) ∧
      (∀ version release, (version, release) ∈ chain ↔ release ∈ releases ∧ IsDelta release version ∧
        index.baselineVersion < version ∧ version ≤ index.currentVersion) ∧
      ∀ version disk, Activated remote source (baselineOf index) (neededShardKeys original) chain version disk →
        version ≤ index.currentVersion → ∀ run run' incremental rebuilt,
          stageGeneration remote source (baselineOf index) (neededShardKeys original) index.currentVersion
            releases run (priorAt (baselineOf index) (neededShardKeys original) version disk) = .ok incremental →
          stageGeneration remote source (baselineOf index) (neededShardKeys original) index.currentVersion
            releases run' noPrior = .ok rebuilt →
          ((∀ variant ∈ index.variants, ∀ p, variantPath variant.2.2.file = some p →
              incremental.files p = rebuilt.files p) ↔
            ∀ variant ∈ index.variants, ∀ p, variantPath variant.2.2.file = some p →
              Alike remote source (baselineOf index) (neededShardKeys original) chain version p) := by
  refine ⟨enumerateDeltaChain_eq_none_iff, fun chain hchain => ?_⟩
  obtain ⟨hperm, hsorted⟩ := enumerateDeltaChain_eq_some hchain
  have hmem : ∀ version release, (version, release) ∈ chain ↔ release ∈ releases ∧ IsDelta release version ∧
      index.baselineVersion < version ∧ version ≤ index.currentVersion :=
    fun version release => hperm.mem_iff.trans mem_deltasBetween
  refine ⟨hsorted, hmem, fun version disk hactivated hle run run' incremental rebuilt hincremental hrebuilt => ?_⟩
  have hnewer := stageGeneration_ok remote source (baselineOf index) hchain hincremental
  have hall := stageGeneration_ok remote source (baselineOf index) hchain hrebuilt
  have hunchanged := baselineUnchanged_priorAt (baselineOf index) (nodup_neededShardKeys original) hle disk
  rw [applyAfter, hunchanged, if_pos rfl, if_pos rfl] at hnewer
  rw [applyAfter, baselineUnchanged_noPrior, if_neg Bool.false_ne_true, if_neg Bool.false_ne_true] at hall
  have hwhole : chain.filter (fun delta => (baselineOf index).version < delta.1) = chain := by
    rw [List.filter_eq_self]
    rintro ⟨newer, release⟩ hdelta
    exact decide_eq_true ((hmem newer release).mp hdelta).2.2.1
  rw [hwhole] at hall
  have heq := copied_eq_rebuilt_iff remote source (baselineOf index) hsorted hactivated hnewer hall
  exact forall₂_congr fun variant _ => forall₂_congr fun p _ => heq p

/-! ## An image in the place of the index -/

def release (version : String) : Json :=
  .obj [("tag_name", .str (deltaLead ++ version)),
    ("assets", .arr [.obj [("name", .str (deltaAssetName version)),
      ("browser_download_url", .str (deltaAssetName version))]])]

/-- The shard of the baseline holds an image named as the index is, the deltas hold nothing. -/
def clashRemote : Remote where
  bytes url := if url = "images-delta-26-02-01.zip" ∨ url = "images-delta-26-03-01.zip" then [0] else [1]
  unzip bytes := if bytes = [1] then .ok [.ok ⟨"index.json", false, [137, 80, 78, 71], none⟩] else .ok []

def clashIndex : ImagesIndex UInt64 where
  baselineVersion := "26-01-01"
  currentVersion := "26-03-01"
  shards := [("chararts-large", "chararts-large.zip")]
  artworks := [("char_a", ⟨"char_a", "base", "chararts", "26-01-01",
    [("large", ⟨"index.json", 1, 1, 4, "0f4636c78f65d3639ece5a064b5ae753e3408614a14fb18ab4d7540d2c248543"⟩)]⟩)]

def calmRun : Run := ⟨fun _ => none, fun _ _ => granted⟩

/-- The file a run builds in a place. -/
def fileOf (result : Except SyncError Disk) (p : Names) : Option (Option Bytes) :=
  result.toOption.map fun disk => disk.files p

def clashReleases : List Json := [release "26-02-01", release "26-03-01"]

def clashChain : List (String × Json) := [("26-02-01", release "26-02-01"), ("26-03-01", release "26-03-01")]

/-- The tree of the generation before. -/
def clashTree : Except SyncError Disk :=
  buildTree clashRemote .default (baselineOf clashIndex) (neededShardKeys false) calmRun none
    (clashChain.filter (·.1 ≤ "26-02-01"))

def clashDisk : Disk := finished [] [] (clashTree.toOption.getD noFiles)

theorem ok_of_isSome {ε α : Type} {x : Except ε α} (h : x.toOption.isSome = true) (a : α) :
    x = .ok (x.toOption.getD a) := by
  cases x with
  | error e => cases h
  | ok b => rfl

/-- The deltas over the generation before leave no image where the whole chain leaves one. -/
theorem stageGeneration_clash :
    enumerateDeltaChain clashReleases "26-01-01" "26-03-01" = some clashChain ∧
      Activated clashRemote .default (baselineOf clashIndex) (neededShardKeys false) clashChain "26-02-01" clashDisk ∧
      (clashIndex.variants.map fun v => variantPath v.2.2.file) = [some indexFile] ∧
      fileOf (stageGeneration clashRemote .default (baselineOf clashIndex) (neededShardKeys false) "26-03-01"
        clashReleases calmRun (priorAt (baselineOf clashIndex) (neededShardKeys false) "26-02-01" clashDisk))
        indexFile = some none ∧
      fileOf (stageGeneration clashRemote .default (baselineOf clashIndex) (neededShardKeys false) "26-03-01"
        clashReleases calmRun noPrior) indexFile = some (some [137, 80, 78, 71]) := by
  have hbuilt : clashTree = .ok (clashTree.toOption.getD noFiles) := ok_of_isSome (by decide +kernel) noFiles
  refine ⟨?_, .rebuilt [] [] hbuilt, by decide +kernel, by decide +kernel, by decide +kernel⟩
  rw [enumerateDeltaChain]
  rfl

end PrtsMcp.ImagesV1
