import PrtsMcp.ImageFiles
import PrtsMcp.JsonText

/-!
# Image sync, second format

A new generation is assembled from the files of the active one and from the parts of the releases
since, checked file by file against the index, and activated by the pointer.
-/
namespace PrtsMcp.ImagesV2

open Fallible ImageFiles ImageManifest JsonValue
open SourceGuard (DataSource)
open SyncTypes (SyncResult)

variable {φ : Type} [Doubles φ] (crates : Crates φ) (run : Surroundings) (source : DataSource)

/-- The index of a release: its JSON, its parts and its artworks. -/
abbrev Indexed (φ : Type) := JsonValue φ × Manifest × ImagesIndex φ

def releaseTag (version : String) : String := "images2-" ++ version

def baselineTag (version : String) : String := "images2-baseline-" ++ version

def readIndex (tag : String) : Except String (Indexed φ) := do
  flat tag
  let bytes ← run.downloadFile (downloadUrl source tag "index.json")
  let value ← crates.fromSlice bytes
  let (index, view) ← parse crates value
  if tag ≠ releaseTag index.currentVersion then .error "v2 index identity mismatch"
  else return (value, index, view)

/-! ## The chain of deltas -/

/-- The deltas from the target version back towards the baseline. -/
structure Chain where
  deltas : List (String × List Part)
  previous : Option String
  newer : String

def Chain.new (index : Manifest) : Chain :=
  ⟨[(index.currentVersion, index.deltaParts)], index.previousVersion, index.currentVersion⟩

/-- The predecessor whose index comes next, if the walk goes on. -/
def Chain.next (index : Manifest) (stop : Option String) (chain : Chain) :
    Except String (Option String) :=
  if chain.newer = index.baselineVersion then .ok none
  else do
    let version ← okOr "broken predecessor chain" chain.previous
    if chain.newer ≤ version ∨ version < index.baselineVersion then
      .error "invalid predecessor order"
    else if stop = some version then .ok none
    else .ok (some version)

def Chain.push (version : String) (prior : Manifest) (chain : Chain) : Chain :=
  ⟨chain.deltas ++ [(version, prior.deltaParts)], prior.previousVersion, version⟩

/-- `Chain::walk`, over at most so many indexes. -/
def Chain.walk (index : Manifest) (stop : Option String) : ℕ → Chain → Except String Chain
  | patience, chain => do
    match ← chain.next index stop with
    | none => return chain
    | some version =>
      match patience with
      | 0 => .error "interrupted"
      | patience + 1 => do
        let (_, prior, _) ← readIndex crates run source (releaseTag version)
        if prior.baselineVersion ≠ index.baselineVersion ∨
            prior.baselineParts ≠ index.baselineParts then .error "baseline drift"
        else Chain.walk index stop patience (chain.push version prior)

/-! ## The decision -/

def sourceRepo? (dir : ImageDir φ) : Option String :=
  (dir.loadMeta.bind (get "sourceRepo")).bind asStr

def sameSource (dir : ImageDir φ) : Bool := sourceRepo? dir = some source.slug

def sameGroups (keys : List String) (dir : ImageDir φ) : Bool :=
  ((dir.loadMeta.bind (get "shardsSynced")).bind asArray).any fun groups =>
    groups.length = keys.length && keys.all fun key => groups.any fun group => group.asStr = some key

/-- The active generation is the newest release. -/
def isCurrent (keys : List String) (latest : String) (dir : ImageDir φ) : Bool :=
  dir.activeGeneration.isSome && sameSource source dir && sameGroups keys dir &&
    dir.loadMeta.any fun value => (value.get "schemaVersion").bind asStr = some schema &&
      (value.get "currentVersion").bind asStr = stripPrefix "images2-" latest

def variantTarget (variant : VariantMeta φ) : Target :=
  ((Doubles.toUInt64 variant.bytes).toNat, variant.sha256)

/-- The files of the artworks that are synced. -/
def expectedFiles (original : Bool) (view : ImagesIndex φ) : List (String × Target) :=
  SortedMap.ofEntries ((view.variants.filter fun v => original || v.2.1 ≠ "original").map
    fun v => (v.2.2.file, variantTarget v.2.2))

/-- The manifest of the active generation. -/
def priorManifest (dir : ImageDir φ) : Option Manifest := do
  let tree ← dir.activeGeneration
  let bytes ← tree "index.json"
  let value ← (crates.fromSlice bytes).toOption
  ((parse crates value).toOption).map Prod.fst

/-- What a new generation is built from. -/
structure Job (φ : Type) where
  value : JsonValue φ
  index : Manifest
  keys : List String
  expected : List (String × Target)
  active : Option Tree
  incrementalFrom : Option String
  chain : Chain

/-- The version from which the deltas may suffice. -/
def incrementalFrom (keys : List String) (index : Manifest) (dir : ImageDir φ) : Option String :=
  ((priorManifest crates dir).filter fun prior =>
    sameSource source dir && sameGroups keys dir &&
      prior.baselineVersion = index.baselineVersion && prior.baselineParts = index.baselineParts &&
      prior.currentVersion < index.currentVersion).map Manifest.currentVersion

/-- The active generation is newer than the index. -/
def isDowngrade (index : Manifest) (dir : ImageDir φ) : Bool :=
  sameSource source dir &&
    (priorManifest crates dir).any fun prior => index.currentVersion < prior.currentVersion

/-- The deltas since the version that may suffice. -/
def startChain (index : Manifest) (stop : Option String) : Except String Chain :=
  match stop with
  | none => .ok (Chain.new index)
  | some _ => (Chain.new index).walk crates run source index stop run.patience

/-- The job for an index that was read. -/
def planJob (keys : List String) (original : Bool) (dir : ImageDir φ) (indexed : Indexed φ) :
    Except String (Job φ) :=
  let (value, index, view) := indexed
  if isDowngrade crates source index dir then .error "refusing image version downgrade"
  else
    (startChain crates run source index (incrementalFrom crates source keys index dir)).map
      fun chain => ⟨value, index, keys, expectedFiles original view, dir.activeGeneration,
        incrementalFrom crates source keys index dir, chain⟩

/-- The first half of `run_selected`; there is no job where nothing is to be done. -/
def prepare (original : Bool) (latest : String) (dir : ImageDir φ) :
    Except String (Option (Job φ)) :=
  if isCurrent source (neededShardKeys original) latest dir then .ok none
  else do
    let indexed ← readIndex crates run source latest
    some <$> planJob crates run source (neededShardKeys original) original dir indexed

/-! ## The assembly -/

/-- What the assembly has so far. A name may be written more than once; the last time counts. -/
structure Assembly where
  cache : Tree
  stage : Tree
  written : List (String × Target)

/-- A failure of the assembly leaves the cache as it is. -/
def leaving {α : Type} (cache : Tree) (x : Except String α) : Except (String × Tree) α :=
  x.mapError fun message => (message, cache)

/-- The files of the active generation that are copied to the stage. -/
def preservedFiles (expected : List (String × Target)) (active : Option Tree) : List String :=
  (expected.filter fun entry => active.any fun prior =>
    checked crates (prior entry.1) entry.2 && (run.fails (.copy entry.1)).isNone).map Prod.fst

def copiedStage (active : Option Tree) (preserved : List String) : Tree :=
  fun name => if name ∈ preserved then active.bind (· name) else none

/-- The deltas of the chain, and the files kept, are all that the target needs. -/
def isIncremental (job : Job φ) (preserved : List String) : Bool :=
  let produced := ((job.chain.deltas.flatMap Prod.snd).filter (·.group ∈ job.keys)).flatMap
    fun part => part.members.map Prod.fst
  job.incrementalFrom.isSome &&
    job.expected.all fun entry => entry.1 ∈ preserved || entry.1 ∈ produced

/-- The parts with the tags of their releases, in the order in which they are applied. -/
def workList (index : Manifest) (incremental : Bool) (chain : Chain) : List (String × Part) :=
  let deltas := chain.deltas.reverse.flatMap fun delta => delta.2.map (Prod.mk (releaseTag delta.1))
  if incremental then deltas
  else index.baselineParts.map (Prod.mk (baselineTag index.baselineVersion)) ++ deltas

/-- A part that holds a file which is not there yet. -/
def isNeeded (job : Job φ) (preserved : List String) (part : Part) : Bool :=
  part.group ∈ job.keys && part.members.any fun entry => selected job.expected preserved entry.1

def cleanedCache (job : Job φ) (preserved : List String) (work : List (String × Part))
    (cache : Tree) : Tree :=
  fun name =>
    if name ∈ (work.filter fun w => isNeeded job preserved w.2).map fun w => w.2.sha256 then
      cache name
    else none

def partTarget (part : Part) : Target := (part.bytes.toNat, part.sha256)

/-- The archive of a part, from the cache or from its release. -/
def fetchPart (cache : Tree) (tag : String) (part : Part) :
    Except (String × Tree) (Bytes × Tree) :=
  match (cache part.sha256).filter fun bytes => fingerprint crates bytes = partTarget part with
  | some archive => .ok (archive, cache)
  | none => leaving cache do
    let archive ← run.downloadFileLimited (downloadUrl source tag part.file) part.bytes
    if fingerprint crates archive ≠ partTarget part then .error "ZIP digest mismatch"
    else do
      run.attempt (.keepArchive part.sha256)
      return (archive, Function.update cache part.sha256 (some archive))

def addPart (job : Job φ) (preserved : List String) (a : Assembly) (work : String × Part) :
    Except (String × Tree) Assembly :=
  if isNeeded job preserved work.2 then do
    let (archive, cache) ← fetchPart crates run source a.cache work.1 work.2
    let (stage, written) ← leaving cache
      (extract crates run archive work.2 a.stage job.expected preserved)
    return ⟨cache, stage, written ++ a.written⟩
  else .ok a

/-- Every file that was not kept has been written as the target declares it. -/
def checkTargets (job : Job φ) (preserved : List String) (written : List (String × Target)) :
    Except String Unit :=
  match job.expected.find? fun entry =>
    entry.1 ∉ preserved && written.lookup entry.1 ≠ some entry.2 with
  | some entry => .error ("target mismatch: " ++ entry.1)
  | none => .ok ()

/-- The chain to apply, and whether it starts at the active version. -/
def settleChain (job : Job φ) (preserved : List String) : Except String (Bool × Chain) :=
  if isIncremental job preserved then .ok (true, job.chain)
  else (job.chain.walk crates run source job.index none run.patience).map (Prod.mk false)

/-- The stage before its index and meta file, and the cache. -/
def assemble (job : Job φ) (cache : Tree) : Except (String × Tree) (Tree × Tree) := do
  let preserved := preservedFiles crates run job.expected job.active
  let (incremental, chain) ← leaving cache (settleChain crates run source job preserved)
  leaving cache (run.attempt .createCache)
  let work := workList job.index incremental chain
  leaving cache (run.attempt .cleanCache)
  let a ← work.foldlM (addPart crates run source job preserved)
    ⟨cleanedCache job preserved work cache, copiedStage job.active preserved, []⟩
  leaving a.cache (checkTargets job preserved a.written)
  return (a.stage, a.cache)

/-! ## The activation -/

def entryName : String := "v2-" ++ run.suffix

/-- The meta file of the generation. -/
def stageMeta (index : Manifest) (keys : List String) : List (String × JsonValue φ) :=
  OrderedMap.insert "sourceRepo" (.string source.slug)
    (OrderedMap.insert "schemaVersion" (.string schema)
      (generationMeta index.baselineVersion index.currentVersion keys))

/-- The pointer. -/
def rootMeta (index : Manifest) (keys : List String) : JsonValue φ :=
  .object (OrderedMap.insert "generation_root" (.string (".releases/" ++ entryName run))
    (stageMeta source index keys))

/-- The stage with its index and its meta file. -/
def completed (value : JsonValue φ) (index : Manifest) (keys : List String) (stage : Tree) : Tree :=
  Function.update (Function.update stage "index.json" (some (crates.toVec value))) imagesMeta
    (some (crates.toStringPretty (.object (stageMeta source index keys))))

/-- Write the index and the meta files, and rename the stage between the two. -/
def activate (job : Job φ) (stage : Tree) (dir : ImageDir φ) : Except String (ImageDir φ) := do
  run.attempt .writeIndex
  run.attempt .writeStageMeta
  run.attempt .publish
  if (dir.releases (entryName run)).isSome then .error "Directory not empty"
  else do
    run.attempt .writeMeta
    let releases := Function.update dir.releases (entryName run)
      (some (completed crates source job.value job.index job.keys stage))
    return { dir with
      pointer := some (rootMeta run source job.index job.keys)
      releases := pruneOldTrees run (entryName run) releases
      cache := .empty }

/-- The second half of `run_selected`. -/
def build (job : Job φ) (dir : ImageDir φ) : Except String SyncResult × ImageDir φ :=
  match (run.attempt .createReleases).bind fun _ => run.attempt .createStage with
  | .error message => (.error message, dir)
  | .ok _ =>
    match assemble crates run source job dir.cache with
    | .error (message, cache) => (.error message, dir.withCache cache)
    | .ok (stage, cache) =>
      match activate crates run source job stage (dir.withCache cache) with
      | .error message => (.error message, dir.withCache cache)
      | .ok dir => (.ok ⟨.updated, some job.index.currentVersion, none⟩, dir)

/-- The directory after the removal of what earlier runs have left. -/
def cleaned (dir : ImageDir φ) : ImageDir φ := cleanupOld run (cleanupStaging dir)

def runSelected (original : Bool) (latest : String) (dir : ImageDir φ) :
    Except String SyncResult × ImageDir φ :=
  match (run.attempt .guardSource).bind fun _ => run.attempt .listStaging with
  | .error message => (.error message, dir)
  | .ok _ =>
    match prepare crates run source original latest (cleaned run dir) with
    | .error message => (.error message, cleaned run dir)
    | .ok none => (.ok ⟨.upToDate, stripPrefix "images2-" latest, none⟩, cleaned run dir)
    | .ok (some job) => build crates run source job (cleaned run dir)

/-! ## What the assembly holds -/

section Assembly

variable {crates run source} {job : Job φ} {preserved : List String}

/-- The kept files are as expected, any other file is the last one written, and nothing else is
there. -/
structure Staged (crates : Crates φ) (expected : List (String × Target)) (preserved : List String)
    (stage : Tree) (written : List (String × Target)) : Prop where
  kept : ∀ name ∈ preserved, (stage name).map (fingerprint crates) = expected.lookup name
  fresh : ∀ name, name ∉ preserved →
    (stage name).map (fingerprint crates) = written.lookup name
  wanted : ∀ name, (written.lookup name).isSome → (expected.lookup name).isSome

variable {expected : List (String × Target)} {stage : Tree} {written : List (String × Target)}

omit [Doubles φ] in
theorem readMember_ok {member : Member} {entry : ZipMember} {data : Bytes}
    (h : readMember crates member entry = .ok data) :
    fingerprint crates data = memberTarget member := by
  unfold readMember at h
  split at h
  · cases h
  · split at h
    · cases h
    · split at h
      · next hmatch =>
        cases h
        exact hmatch
      · cases h

omit [Doubles φ] in
theorem Staged.write (h : Staged crates expected preserved stage written) {name : String}
    (hname : selected expected preserved name = true) {data : Bytes} {target : Target}
    (hdata : fingerprint crates data = target) :
    Staged crates expected preserved (Function.update stage name (some data))
      ((name, target) :: written) := by
  obtain ⟨hexpected, hfresh⟩ := Bool.and_eq_true_iff.mp hname
  have hfresh : name ∉ preserved := of_decide_eq_true hfresh
  refine ⟨?_, ?_, ?_⟩
  · intro other hother
    have hne : other ≠ name := fun heq => hfresh (heq ▸ hother)
    rw [Function.update_of_ne hne]
    exact h.kept other hother
  · intro other hother
    by_cases heq : other = name
    · subst heq
      rw [Function.update_self, List.lookup_cons_self, Option.map_some, hdata]
    · rw [Function.update_of_ne heq, List.lookup_cons, beq_false_of_ne heq]
      exact h.fresh other hother
  · intro other hother
    by_cases heq : other = name
    · exact heq ▸ hexpected
    · rw [List.lookup_cons, beq_false_of_ne heq] at hother
      exact h.wanted other hother

omit [Doubles φ] in
theorem extractMember_staged {part : Part} {x x' : Extraction} {entry : Except String ZipMember}
    (h : extractMember crates run part expected preserved x entry = .ok x')
    (hx : Staged crates expected preserved x.stage (x.written ++ written)) :
    Staged crates expected preserved x'.stage (x'.written ++ written) := by
  obtain ⟨entry, -, h⟩ := bind_eq_ok h
  obtain ⟨member, -, h⟩ := bind_eq_ok h
  obtain ⟨-, h⟩ := ite_error_eq_ok h
  split at h
  · next hselected =>
    obtain ⟨u, -, h⟩ := bind_eq_ok h
    obtain ⟨data, hdata, h⟩ := bind_eq_ok h
    cases h
    exact hx.write hselected (readMember_ok hdata)
  · obtain ⟨data, -, h⟩ := bind_eq_ok h
    cases h
    exact hx

omit [Doubles φ] in
theorem extract_staged {archive : Bytes} {part : Part} {stage' : Tree}
    {written' : List (String × Target)}
    (h : extract crates run archive part stage expected preserved = .ok (stage', written'))
    (hstaged : Staged crates expected preserved stage written) :
    Staged crates expected preserved stage' (written' ++ written) := by
  obtain ⟨entries, -, h⟩ := bind_eq_ok h
  obtain ⟨x, hx, h⟩ := bind_eq_ok h
  obtain ⟨-, h⟩ := ite_error_eq_ok h
  cases h
  exact foldlM_keeps (P := fun x => Staged crates expected preserved x.stage (x.written ++ written))
    (fun _ _ _ hb hstep => extractMember_staged hstep hb) hx hstaged

omit [Doubles φ] in
theorem addPart_staged {a a' : Assembly} {work : String × Part}
    (h : addPart crates run source job preserved a work = .ok a')
    (ha : Staged crates job.expected preserved a.stage a.written) :
    Staged crates job.expected preserved a'.stage a'.written := by
  unfold addPart at h
  split at h
  · obtain ⟨⟨archive, cache⟩, -, h⟩ := bind_eq_ok h
    obtain ⟨⟨stage, written⟩, hextract, h⟩ := bind_eq_ok h
    cases h
    exact extract_staged (mapError_eq_ok.mp hextract) ha
  · cases h
    exact ha

omit [Doubles φ] in
/-- What is kept of the active generation. -/
theorem preserved_kept (hsorted : SortedMap.Sorted expected) {active : Option Tree} {name : String}
    (h : name ∈ preservedFiles crates run expected active) :
    ((active.bind (· name)).map (fingerprint crates)) = expected.lookup name := by
  obtain ⟨⟨name, target⟩, hentry, rfl⟩ := List.mem_map.mp h
  obtain ⟨hentry, hkept⟩ := List.mem_filter.mp hentry
  rw [hsorted.mem_iff.mp hentry]
  obtain ⟨tree, rfl, hkept⟩ := (Option.any_eq_true _ _).mp hkept
  obtain ⟨hchecked, -⟩ := Bool.and_eq_true_iff.mp hkept
  obtain ⟨bytes, hbytes, hprint⟩ := (Option.any_eq_true _ _).mp hchecked
  dsimp only at hbytes
  rw [Option.bind_some, hbytes, Option.map_some, of_decide_eq_true hprint]

omit [Doubles φ] in
theorem copied_staged (hsorted : SortedMap.Sorted expected) (active : Option Tree) :
    Staged crates expected (preservedFiles crates run expected active)
      (copiedStage active (preservedFiles crates run expected active)) [] := by
  refine ⟨?_, ?_, ?_⟩
  · intro name hname
    rw [copiedStage, if_pos hname]
    exact preserved_kept hsorted hname
  · intro name hname
    rw [copiedStage, if_neg hname]
    rfl
  · intro name hname
    simp at hname

omit [Doubles φ] in
theorem checkTargets_ok {u : Unit} (h : checkTargets job preserved written = .ok u) {name : String}
    {target : Target} (hentry : (name, target) ∈ job.expected) (hname : name ∉ preserved) :
    written.lookup name = some target := by
  unfold checkTargets at h
  split at h
  · cases h
  · next hnone =>
    by_contra hne
    have hfalse := List.find?_eq_none.mp hnone (name, target) hentry
    simp [hname, hne] at hfalse

/-- The stage holds the expected files and no others. -/
theorem assemble_files {cache cache' : Tree} (hsorted : SortedMap.Sorted job.expected)
    (h : assemble crates run source job cache = .ok (stage, cache')) (name : String) :
    (stage name).map (fingerprint crates) = job.expected.lookup name := by
  obtain ⟨⟨incremental, chain⟩, -, h⟩ := bind_eq_ok h
  obtain ⟨u, -, h⟩ := bind_eq_ok h
  obtain ⟨u, -, h⟩ := bind_eq_ok h
  obtain ⟨a, ha, h⟩ := bind_eq_ok h
  obtain ⟨u, htargets, h⟩ := bind_eq_ok h
  cases h
  have hstaged : Staged crates job.expected _ a.stage a.written :=
    foldlM_keeps (fun _ _ _ hb hstep => addPart_staged hstep hb) ha (copied_staged hsorted job.active)
  by_cases hkept : name ∈ preservedFiles crates run job.expected job.active
  · exact hstaged.kept name hkept
  · rw [hstaged.fresh name hkept]
    cases hlookup : job.expected.lookup name with
    | some target =>
      exact checkTargets_ok (mapError_eq_ok.mp htargets) (SortedMap.mem_of_lookup hlookup) hkept
    | none =>
      rw [← Option.not_isSome_iff_eq_none]
      intro hwritten
      have hsome := hstaged.wanted name hwritten
      rw [hlookup] at hsome
      cases hsome

end Assembly

/-! ## What an update leaves -/

section Update

variable {crates run source} {original : Bool} {latest : String} {dir dir' : ImageDir φ}
  {job : Job φ} {stage : Tree}

/-- What a job is made of. -/
structure Prepared (crates : Crates φ) (run : Surroundings) (source : DataSource) (original : Bool)
    (latest : String) (dir : ImageDir φ) (view : ImagesIndex φ) (job : Job φ) : Prop where
  notCurrent : isCurrent source (neededShardKeys original) latest dir = false
  indexed : readIndex crates run source latest = .ok (job.value, job.index, view)
  notDowngrade : isDowngrade crates source job.index dir = false
  keys : job.keys = neededShardKeys original
  expected : job.expected = expectedFiles original view
  active : job.active = dir.activeGeneration
  stop : job.incrementalFrom = incrementalFrom crates source job.keys job.index dir
  chain : startChain crates run source job.index job.incrementalFrom = .ok job.chain

theorem prepare_job (h : prepare crates run source original latest dir = .ok (some job)) :
    ∃ view, Prepared crates run source original latest dir view job := by
  unfold prepare at h
  split at h
  · cases h
  · next hcurrent =>
    obtain ⟨⟨value, index, view⟩, hindexed, h⟩ := bind_eq_ok h
    obtain ⟨planned, hplan, hjob⟩ := map_eq_ok h
    cases hjob
    obtain ⟨hdowngrade, hplan⟩ := ite_error_eq_ok hplan
    obtain ⟨chain, hchain, rfl⟩ := map_eq_ok hplan
    exact ⟨view, Bool.not_eq_true _ ▸ hcurrent, hindexed, Bool.not_eq_true _ ▸ hdowngrade, rfl, rfl,
      rfl, rfl, hchain⟩

/-- An update is an assembly that was activated. -/
theorem runSelected_updated {r : SyncResult}
    (h : (runSelected crates run source original latest dir).1 = .ok r)
    (hupdated : r.status = .updated) :
    ∃ job stage cache, prepare crates run source original latest (cleaned run dir) = .ok (some job) ∧
      assemble crates run source job (cleaned run dir).cache = .ok (stage, cache) ∧
      activate crates run source job stage ((cleaned run dir).withCache cache) =
        .ok (runSelected crates run source original latest dir).2 := by
  unfold runSelected at h ⊢
  split at h
  · cases h
  · split at h
    · cases h
    · cases h
      cases hupdated
    · next job hjob =>
      rw [hjob]
      unfold build at h ⊢
      split at h
      · cases h
      · split at h
        · cases h
        · next stage cache hassemble =>
          split at h
          · cases h
          · next dir' hactivate =>
            exact ⟨job, stage, cache, rfl, hassemble, hactivate⟩

omit [Doubles φ] in
theorem get_rootMeta (index : Manifest) (keys : List String) :
    (rootMeta (φ := φ) run source index keys).get "generation_root" =
      some (.string (".releases/" ++ entryName run)) := by
  simp [rootMeta, stageMeta, generationMeta, OrderedMap.insert, JsonValue.get, List.lookup]

omit [Doubles φ] in
theorem completed_index (value : JsonValue φ) (index : Manifest) (keys : List String) (stage : Tree) :
    completed crates source value index keys stage "index.json" = some (crates.toVec value) := by
  rw [completed, Function.update_of_ne (by decide), Function.update_self]

omit [Doubles φ] in
/-- The pointer names the completed stage. -/
theorem activate_ok (h : activate crates run source job stage dir = .ok dir') :
    dir'.pointer = some (rootMeta run source job.index job.keys) ∧
      dir'.releases (entryName run) =
        some (completed crates source job.value job.index job.keys stage) := by
  obtain ⟨u, -, h⟩ := bind_eq_ok h
  obtain ⟨u, -, h⟩ := bind_eq_ok h
  obtain ⟨u, -, h⟩ := bind_eq_ok h
  obtain ⟨-, h⟩ := ite_error_eq_ok h
  obtain ⟨u, -, h⟩ := bind_eq_ok h
  cases h
  refine ⟨rfl, ?_⟩
  dsimp only [pruneOldTrees]
  rw [if_neg (fun hpruned => hpruned.2.1 rfl), Function.update_self]

omit [Doubles φ] in
theorem loadMeta_activated (h : activate crates run source job stage dir = .ok dir') :
    dir'.loadMeta = some (rootMeta run source job.index job.keys) := by
  rw [ImageDir.loadMeta, (activate_ok h).1]
  rfl

omit [Doubles φ] in
theorem activate_active (h : activate crates run source job stage dir = .ok dir') :
    dir'.activeGeneration = some (completed crates source job.value job.index job.keys stage) := by
  obtain ⟨-, hentry⟩ := activate_ok h
  have hroot : dir'.generationRoot = some (".releases/" ++ entryName run) := by
    rw [ImageDir.generationRoot, loadMeta_activated h, Option.bind_some, get_rootMeta, Option.bind_some, asStr,
      Option.filter_some, if_pos]
    rw [decide_eq_true_eq]
    exact fun heq => by simp [String.append_eq_empty_iff] at heq
  rw [ImageDir.activeGeneration, hroot, Option.bind_some, ImageDir.dir?, stripPrefix_append]
  dsimp only
  rw [hentry, Option.filter_some, completed_index]
  rfl

end Update

/-! ## Completeness -/

section Completeness

variable {crates run source} {original : Bool} {view : ImagesIndex φ}

/-- A variant of a group that is synced. -/
def Synced (original : Bool) (v : ArtworkEntry φ × String × VariantMeta φ) : Prop :=
  groupName v.1.shard v.2.1 ∈ neededShardKeys original

/-- The file of a variant has the declared length and digest. -/
def Holds (crates : Crates φ) (tree : Tree) (variant : VariantMeta φ) : Prop :=
  (tree variant.file).map (fingerprint crates) = some (variantTarget variant)

/-- A generation holds every synced variant, and what it kept of another one. -/
structure Complete (crates : Crates φ) (original : Bool) (view : ImagesIndex φ)
    (preserved : List String) (tree : Tree) : Prop where
  synced : ∀ v ∈ view.variants, Synced original v → Holds crates tree v.2.2
  kept : ∀ v ∈ view.variants, v.2.2.file ∈ preserved → Holds crates tree v.2.2

/-- The files that a generation adds to its stage. -/
def generatedFile (crates : Crates φ) (source : DataSource) (original : Bool) (value : JsonValue φ)
    (index : Manifest) (name : String) : Option Bytes :=
  if name = imagesMeta then
    some (crates.toStringPretty (.object (stageMeta source index (neededShardKeys original))))
  else if name = "index.json" then some (crates.toVec value)
  else none

/-- A synced variant under the name of a generated file is declared with its length and digest. -/
def Unclashed (crates : Crates φ) (source : DataSource) (original : Bool) (value : JsonValue φ)
    (index : Manifest) (view : ImagesIndex φ) : Prop :=
  ∀ v ∈ view.variants, Synced original v →
    ∀ bytes ∈ generatedFile crates source original value index v.2.2.file,
      fingerprint crates bytes = variantTarget v.2.2

omit [Doubles φ] in
theorem completed_apply (value : JsonValue φ) (index : Manifest) (stage : Tree) (name : String) :
    completed crates source value index (neededShardKeys original) stage name =
      (generatedFile crates source original value index name).or (stage name) := by
  unfold completed generatedFile
  by_cases hmeta : name = imagesMeta
  · subst hmeta
    rw [Function.update_self, if_pos rfl]
    rfl
  · rw [Function.update_of_ne hmeta, if_neg hmeta]
    by_cases hindex : name = "index.json"
    · subst hindex
      rw [Function.update_self, if_pos rfl]
      rfl
    · rw [Function.update_of_ne hindex, if_neg hindex]
      rfl

omit [Doubles φ] in
theorem synced_iff (hview : view.WellFormed) {v : ArtworkEntry φ × String × VariantMeta φ}
    (hv : v ∈ view.variants) : Synced original v ↔ (original || v.2.1 ≠ "original") :=
  groupName_mem (hview.tiers v hv) (hview.groups v hv)

theorem lookup_expectedFiles (hview : view.WellFormed)
    {v : ArtworkEntry φ × String × VariantMeta φ} (hv : v ∈ view.variants)
    (hsynced : Synced original v) :
    (expectedFiles original view).lookup v.2.2.file = some (variantTarget v.2.2) := by
  apply SortedMap.lookup_ofEntries_of_mem
  · rw [List.map_map]
    exact hview.files.sublist (List.filter_sublist.map _)
  · apply List.mem_map.mpr
    exact ⟨v, List.mem_filter.mpr ⟨hv, (synced_iff hview hv).mp hsynced⟩, rfl⟩

theorem variant_of_expected (hview : view.WellFormed) {name : String} {target : Target}
    (h : (expectedFiles original view).lookup name = some target) :
    ∃ v ∈ view.variants, Synced original v ∧ v.2.2.file = name ∧ variantTarget v.2.2 = target := by
  obtain ⟨v, hv, heq⟩ := List.mem_map.mp (SortedMap.mem_of_lookup_ofEntries h)
  obtain ⟨hv, htier⟩ := List.mem_filter.mp hv
  cases heq
  exact ⟨v, hv, (synced_iff hview hv).mpr htier, rfl, rfl⟩

/-- A kept file is expected. -/
theorem synced_of_preserved (hview : view.WellFormed) {active : Option Tree}
    {v : ArtworkEntry φ × String × VariantMeta φ} (hv : v ∈ view.variants)
    (hkept : v.2.2.file ∈ preservedFiles crates run (expectedFiles original view) active) :
    Synced original v := by
  obtain ⟨⟨name, target⟩, hentry, hname⟩ := List.mem_map.mp hkept
  have hlookup := (SortedMap.sorted_ofEntries _).mem_iff.mp (List.mem_filter.mp hentry).1
  obtain ⟨u, hu, hsynced, hfile, -⟩ := variant_of_expected hview hlookup
  have heq : u = v := by
    apply List.inj_on_of_nodup_map hview.files hu hv
    exact hfile.trans hname
  exact heq ▸ hsynced

theorem readIndex_parse {tag : String} {value : JsonValue φ} {index : Manifest}
    (h : readIndex crates run source tag = .ok (value, index, view)) :
    parse crates value = .ok (index, view) ∧ tag = releaseTag index.currentVersion := by
  obtain ⟨u, -, h⟩ := bind_eq_ok h
  obtain ⟨bytes, -, h⟩ := bind_eq_ok h
  obtain ⟨value, -, h⟩ := bind_eq_ok h
  obtain ⟨⟨index, view⟩, hparse, h⟩ := bind_eq_ok h
  obtain ⟨htag, h⟩ := ite_error_eq_ok h
  cases h
  exact ⟨hparse, not_not.mp htag⟩

/-- The files of an activated generation. -/
theorem published_files {latest : String} {dir dir' : ImageDir φ} {job : Job φ} {stage cache : Tree}
    (hjob : Prepared crates run source original latest (cleaned run dir) view job)
    (hassemble : assemble crates run source job (cleaned run dir).cache = .ok (stage, cache))
    (hactivate : activate crates run source job stage ((cleaned run dir).withCache cache) = .ok dir') :
    ∃ tree, dir'.activeGeneration = some tree ∧ ∀ name, (tree name).map (fingerprint crates) =
      ((generatedFile crates source original job.value job.index name).map
        (fingerprint crates)).or ((expectedFiles original view).lookup name) := by
  refine ⟨_, activate_active hactivate, ?_⟩
  intro name
  have hsorted : SortedMap.Sorted job.expected := by
    rw [hjob.expected]
    exact SortedMap.sorted_ofEntries _
  rw [hjob.keys, completed_apply, Option.map_or, assemble_files hsorted hassemble, hjob.expected]

/-- An update activates a generation that is complete, exactly if no synced variant goes by the name
of a generated file. -/
theorem runSelected_complete (crates : Crates φ) (run : Surroundings) (source : DataSource)
    (original : Bool) (latest : String) (dir : ImageDir φ) {r : SyncResult}
    (h : (runSelected crates run source original latest dir).1 = .ok r)
    (hupdated : r.status = .updated) :
    ∃ value index view tree, readIndex crates run source latest = .ok (value, index, view) ∧
      (runSelected crates run source original latest dir).2.activeGeneration = some tree ∧
      (Complete crates original view (preservedFiles crates run (expectedFiles original view)
          (cleaned run dir).activeGeneration) tree ↔
        Unclashed crates source original value index view) := by
  obtain ⟨job, stage, cache, hprepare, hassemble, hactivate⟩ := runSelected_updated h hupdated
  obtain ⟨view, hjob⟩ := prepare_job hprepare
  obtain ⟨tree, htree, hfiles⟩ := published_files hjob hassemble hactivate
  have hview := (parse_wellFormed (readIndex_parse hjob.indexed).1).2
  refine ⟨job.value, job.index, view, tree, hjob.indexed, htree, ?_⟩
  -- The generated files stand over the expected ones, and nothing else does.
  have hholds : ∀ v ∈ view.variants, Synced original v → (Holds crates tree v.2.2 ↔
      ∀ bytes ∈ generatedFile crates source original job.value job.index v.2.2.file,
        fingerprint crates bytes = variantTarget v.2.2) := by
    intro v hv hsynced
    rw [Holds, hfiles, lookup_expectedFiles hview hv hsynced]
    cases generatedFile crates source original job.value job.index v.2.2.file <;> simp
  constructor
  · intro hcomplete v hv hsynced
    exact (hholds v hv hsynced).mp (hcomplete.synced v hv hsynced)
  · intro hclear
    have hsynced : ∀ v ∈ view.variants, Synced original v → Holds crates tree v.2.2 :=
      fun v hv hs => (hholds v hv hs).mpr (hclear v hv hs)
    exact ⟨hsynced, fun v hv hkept => hsynced v hv (synced_of_preserved hview hv hkept)⟩

end Completeness

/-! ## An image under the name of the index -/

section Clash

/-- Whole numbers in place of the doubles. -/
instance : Doubles UInt64 := ⟨id, Int64.toUInt64, fun _ => true, fun x => x = 0, fun _ => true, id⟩

def clashImage : Bytes := [137, 80, 78, 71]

def clashImageDigest : String := "0f4636c78f65d3639ece5a064b5ae753e3408614a14fb18ab4d7540d2c248543"

/-- The archive of the one image, which is named as the index. -/
def clashArchive : Bytes :=
  [80, 75, 3, 4, 20, 0, 0, 0, 0, 0, 0, 0, 33, 0, 165, 190, 235, 91, 4, 0, 0, 0, 4, 0, 0, 0, 10, 0,
   0, 0, 105, 110, 100, 101, 120, 46, 106, 115, 111, 110, 137, 80, 78, 71, 80, 75, 1, 2, 20, 3,
   20, 0, 0, 0, 0, 0, 0, 0, 33, 0, 165, 190, 235, 91, 4, 0, 0, 0, 4, 0, 0, 0, 10, 0, 0, 0, 0, 0,
   0, 0, 0, 0, 0, 0, 128, 1, 0, 0, 0, 0, 105, 110, 100, 101, 120, 46, 106, 115, 111, 110, 80, 75,
   5, 6, 0, 0, 0, 0, 1, 0, 1, 0, 56, 0, 0, 0, 44, 0, 0, 0, 0, 0]

def clashArchiveDigest : String :=
  "3ec4711f663916873fc93d9b62b0fee783428f26c6f8caed8a5d397e381b7883"

def clashIndex : JsonValue UInt64 :=
  .object [("schemaVersion", .string "akdp-images/v2"), ("baselineVersion", .string "26-01"),
    ("currentVersion", .string "26-01"), ("previousVersion", .null),
    ("baselineParts", .array [.object [("file", .string "p.zip"), ("bytes", .number (.posInt 122)),
      ("sha256", .string clashArchiveDigest), ("group", .string "chararts-large"),
      ("members", .object [("index.json", .object [("bytes", .number (.posInt 4)),
        ("sha256", .string clashImageDigest), ("group", .string "chararts-large")])])]]),
    ("deltaParts", .array []),
    ("artworks", .object [("char_a", .object [("shard", .string "chararts"),
      ("large", .object [("file", .string "index.json"), ("w", .number (.posInt 1)),
        ("h", .number (.posInt 1)), ("bytes", .number (.posInt 4)),
        ("sha256", .string clashImageDigest)])])])]

def compactText (value : JsonValue UInt64) : Bytes :=
  JsonText.encode (JsonText.chars (fun n => n.toNat.repr.toList) false 0 value)

def prettyText (value : JsonValue UInt64) : Bytes :=
  JsonText.encode (JsonText.chars (fun n => n.toNat.repr.toList) true 0 value)

def clashIndexDigest : String := "2e68fc3da27fc6f65c5e87e6cf20a2a51925c78a934f0c9a8161f7ed45dba7cc"

/-- The crates on recorded inputs. -/
def recordedCrates (digests : List (Bytes × String)) (texts : List (JsonValue UInt64))
    (archives : List (Bytes × List ZipMember)) : Crates UInt64 where
  sha256 bytes := (digests.lookup bytes).getD ""
  fromSlice bytes := okOr "expected value" (texts.find? fun value => compactText value = bytes)
  toVec := compactText
  toStringPretty := prettyText
  deserializeError _ := "invalid type"
  unzip bytes := okOr "invalid Zip archive" ((archives.lookup bytes).map (List.map .ok))

def clashCrates : Crates UInt64 :=
  recordedCrates [(clashImage, clashImageDigest), (clashArchive, clashArchiveDigest),
    (compactText clashIndex, clashIndexDigest)] [clashIndex]
    [(clashArchive, [⟨"index.json", false, clashImage, none⟩])]

/-- The release list names the tag; the release serves the index and its part. -/
def clashRun : Surroundings where
  downloadFile _ := .ok (compactText clashIndex)
  downloadFileLimited _ _ := .ok clashArchive
  fails _ := none
  orphaned _ := false
  expired _ := false
  suffix := "0"
  patience := 0

def emptyDir : ImageDir UInt64 := ⟨none, fun _ => none, fun _ => none, .empty⟩

/-- The run reports an update, and the image is overwritten by the index. -/
theorem clash_run : (runSelected clashCrates clashRun .default false "images2-26-01" emptyDir).1 =
      .ok ⟨.updated, some "26-01", none⟩ ∧
    (((runSelected clashCrates clashRun .default false "images2-26-01"
      emptyDir).2.activeGeneration).map fun tree =>
        (tree "index.json").map (fingerprint clashCrates)) = some (some (581, clashIndexDigest)) := by
  decide +kernel

/-- The index declares the image. -/
theorem clash_declared : ((readIndex clashCrates clashRun .default "images2-26-01").toOption.any
    fun indexed => indexed.2.2.variants.any fun v =>
      groupName v.1.shard v.2.1 ∈ neededShardKeys false ∧ v.2.2.file = "index.json" ∧
        variantTarget v.2.2 = (4, clashImageDigest)) = true := by decide +kernel

theorem runSelected_not_complete : ¬ ∀ (run : Surroundings) (source : DataSource) (original : Bool)
    (latest : String) (dir : ImageDir UInt64) (r : SyncResult),
    (runSelected clashCrates run source original latest dir).1 = .ok r → r.status = .updated →
      ∃ value index view tree, readIndex clashCrates run source latest = .ok (value, index, view) ∧
        (runSelected clashCrates run source original latest dir).2.activeGeneration = some tree ∧
        Complete clashCrates original view (preservedFiles clashCrates run
          (expectedFiles original view) (cleaned run dir).activeGeneration) tree := by
  intro h
  obtain ⟨value, index, view, tree, hindexed, htree, hcomplete⟩ :=
    h clashRun .default false "images2-26-01" emptyDir _ clash_run.1 rfl
  have hdeclared := clash_declared
  rw [hindexed] at hdeclared
  obtain ⟨v, hv, hdeclared⟩ := List.any_eq_true.mp hdeclared
  obtain ⟨hsynced, hfile, htarget⟩ := of_decide_eq_true hdeclared
  have hholds := hcomplete.synced v hv hsynced
  have hover := clash_run.2
  rw [htree, Option.map_some, Option.some_inj] at hover
  rw [Holds, hfile, htarget, hover] at hholds
  exact absurd hholds (by decide)

theorem runSelected_complete_clash : ∃ value index view tree,
    readIndex clashCrates clashRun .default "images2-26-01" = .ok (value, index, view) ∧
      (runSelected clashCrates clashRun .default false "images2-26-01" emptyDir).2.activeGeneration =
        some tree ∧
      (Complete clashCrates false view (preservedFiles clashCrates clashRun
          (expectedFiles false view) (cleaned clashRun emptyDir).activeGeneration) tree ↔
        Unclashed clashCrates .default false value index view) :=
  runSelected_complete clashCrates clashRun .default false "images2-26-01" emptyDir clash_run.1 rfl

end Clash

end PrtsMcp.ImagesV2
