import PrtsMcp.ReleaseSyncSteps

/-!
# No downgrade

Over whole sequences of release syncs, a recorded release that parses as a version id and a
revision is only ever replaced by one that is not older.
-/
namespace PrtsMcp.ReleaseSync

open Process SyncTypes FileSteps ReleaseTags

/-- The recorded release, where the record loads and its commit sha parses. -/
def recordedIn (dir : ReleaseDir) : Option DataTagVersion :=
  (dir.releaseMeta.bind cacheOf).bind fun c => parseReleaseSuffix c.commitSha

def recorded (s : ReleaseState) : Option DataTagVersion := recordedIn s.dir

/-- What is recorded in `a` is recorded in `b` as well, or replaced by a release not older. -/
def NoDowngrade (a b : ReleaseState) : Prop :=
  ∀ v, recorded a = some v → ∃ w, recorded b = some w ∧ v.identity ≤ w.identity

/-- A blind download replaces the zip only where no release is recorded. -/
def BlindOnlyUnrecorded (v : Visit ReleaseState Op Turn) : Prop :=
  v.op = .placeZip "unknown" → v.after.dir = v.before.dir ∨ recorded v.before = none

/-- Reads of the metadata do not fail, and upstream data tags carry well-formed version ids. -/
def WellBehaved (v : Visit ReleaseState Op Turn) : Prop :=
  (v.op = .readReleaseMeta → v.reply.reply.io.isOk = true) ∧
    (v.op.isDiscovery = true → ∀ data ∈ v.reply.reply.fetched.toOption,
      Discovery.TagsWellFormed data)

instance : DecidablePred WellBehaved := fun v =>
  inferInstanceAs (Decidable ((v.op = .readReleaseMeta → v.reply.reply.io.isOk = true) ∧
    (v.op.isDiscovery = true → ∀ data ∈ v.reply.reply.fetched.toOption,
      Discovery.TagsWellFormed data)))

def Keeps (v : Visit ReleaseState Op Turn) : Prop :=
  NoDowngrade v.before v.after ∧ BlindOnlyUnrecorded v

instance : IsTrans ReleaseState NoDowngrade where
  trans a b c hab hbc v hv := by
    obtain ⟨w, hw, hvw⟩ := hab v hv
    obtain ⟨x, hx, hwx⟩ := hbc w hw
    exact ⟨x, hx, hvw.trans hwx⟩

theorem noDowngrade_of_releaseMeta {a b : ReleaseState}
    (h : b.dir.releaseMeta = a.dir.releaseMeta) : NoDowngrade a b := fun v hv =>
  ⟨v, by rw [recorded, recordedIn, h]; exact hv, le_refl _⟩

theorem keeps_of_dir {v : Visit ReleaseState Op Turn} (h : v.after.dir = v.before.dir) :
    Keeps v :=
  ⟨noDowngrade_of_releaseMeta (by rw [h]), fun _ => .inl h⟩

/-- A release with this tag may replace the recorded one. -/
def Admissible (d : ReleaseDir) (tag : String) : Prop :=
  ∀ v, recordedIn d = some v →
    ∃ w, parseReleaseSuffix (tagSuffix tag) = some w ∧ v.identity ≤ w.identity

theorem parseReleaseSuffix_empty : parseReleaseSuffix "" = none := by decide

theorem parseReleaseSuffix_unknown : parseReleaseSuffix (tagSuffix "unknown") = none := by
  decide +kernel

theorem recordedIn_downloadedMeta {spec : ReleaseSpec} {tag : String} {v : DataTagVersion}
    (h : parseReleaseSuffix (tagSuffix tag) = some v) (zip : Node ZipFile) (now : ℕ) :
    recordedIn ⟨zip, some (downloadedMeta spec tag now).toJson⟩ = some v := by
  have hload : cacheOf (downloadedMeta spec tag now).toJson = some (downloadedMeta spec tag now) := by
    refine cacheOf_toJson (fun hempty => ?_) (show "releases" ≠ "" by decide) (fun hempty => ?_)
      (IsoTime.isoFromUnixMs_ne_empty _)
    · have := congrArg String.toList (show spec.owner ++ "/" ++ spec.repo = "" from hempty)
      simp at this
    · rw [show tagSuffix tag = "" from hempty, parseReleaseSuffix_empty] at h
      simp at h
  rw [recordedIn, Option.bind_some, hload]
  exact h

theorem releaseUpToDate_iff {localSha upstreamSha : String} {v w : DataTagVersion}
    (hv : parseReleaseSuffix localSha = some v) (hw : parseReleaseSuffix upstreamSha = some w) :
    releaseUpToDate localSha upstreamSha = true ↔ w.identity ≤ v.identity := by
  rw [← not_lt, ← isNewer_iff, releaseUpToDate, hv, hw, isNewer]
  by_cases h : v.versionId = w.versionId <;> simp [h]

theorem refusesDowngrade_iff {localSha upstreamSha : String} {v w : DataTagVersion}
    (hv : parseReleaseSuffix localSha = some v) (hw : parseReleaseSuffix upstreamSha = some w) :
    refusesDowngrade localSha upstreamSha = true ↔ w.identity < v.identity := by
  rw [← isNewer_iff, refusesDowngrade, hv, hw, isNewer]
  by_cases h : w.versionId = v.versionId
  · simp [h]
  · simp [h, Ne.symm h]

section Steps

variable {spec : ReleaseSpec} {d : ReleaseDir} {zipError : Option String}

/-- A process all of whose steps keep the recorded release. -/
abbrev KeepsRecord {α : Type} (P : ReleaseState → Prop) (p : Step ReleaseState α) : Prop :=
  Triple WellBehaved Keeps P p (fun _ _ => True) fun _ _ => True

theorem downloadReleaseAsset_keepsRecord {tag : String} (h : Admissible d tag) (url : String) :
    KeepsRecord (·.dir = d) (downloadReleaseAsset spec tag url) := by
  refine (downloadReleaseAsset_spec spec tag url (fun _ => keeps_of_dir)
    (fun v z hop hbefore hafter => ⟨noDowngrade_of_releaseMeta (by rw [hbefore, hafter]), ?_⟩)
    fun v z now hop hbefore hafter => ⟨fun w hw => ?_, fun hblind => ?_⟩).conseq
      (fun _ h => h) (fun _ h => h) (fun _ h => h) (fun _ _ _ => trivial) fun _ _ _ => trivial
  · intro hblind
    obtain rfl : tag = "unknown" := by simpa [hop] using hblind
    refine .inr (Option.eq_none_iff_forall_ne_some.mpr fun w hw => ?_)
    obtain ⟨x, hx, -⟩ := h w (by rw [← hbefore]; exact hw)
    simp [parseReleaseSuffix_unknown] at hx
  · obtain ⟨x, hx, hle⟩ := h w (by simpa [recorded, recordedIn, hbefore] using hw)
    exact ⟨x, by rw [recorded, hafter, recordedIn_downloadedMeta hx], hle⟩
  · simp [hop] at hblind

theorem syncWithoutRelease_keepsRecord (mirrors : List String) :
    KeepsRecord (·.dir = d)
      (syncWithoutRelease mirrors spec (d.releaseMeta.bind cacheOf) zipError) := by
  refine triple_bind (triple_read (Q := fun _ s => s.dir = d) fun _ hs => hs) fun zipExists => ?_
  split
  · exact triple_pure fun _ _ => trivial
  · split
    · exact triple_pure fun _ _ => trivial
    · next hunparsed =>
      split
      · have hnone : recordedIn d = none := Option.not_isSome_iff_eq_none.mp hunparsed
        exact triple_bind_attempt (downloadReleaseAsset_keepsRecord
          (fun v hv => by simp [hnone] at hv) _) (fun _ => triple_pure fun _ _ => trivial)
            fun _ => triple_pure fun _ _ => trivial
      · exact triple_pure fun _ _ => trivial

theorem syncDownload_keepsRecord {tag : String} (h : Admissible d tag) (cache : Option CacheMeta)
    (url : String) : KeepsRecord (·.dir = d) (syncDownload spec cache zipError tag url) := by
  refine triple_bind_attempt (downloadReleaseAsset_keepsRecord h url)
    (fun _ => triple_pure fun _ _ => trivial) fun _ => ?_
  dsimp only
  split <;> exact triple_pure fun _ _ => trivial

/-- Refreshing the time of a record keeps its release. -/
theorem saveReleaseMeta_keepsRecord {c : CacheMeta} (hc : d.releaseMeta.bind cacheOf = some c)
    (now : ℕ) : KeepsRecord (·.dir = d)
      (saveReleaseMeta { c with fetchedAt := IsoTime.isoFromUnixMs now }) := by
  refine (saveReleaseMeta_spec _ (fun _ => keeps_of_dir) (fun v hop hbefore hafter =>
    ⟨fun w hw => ⟨w, ?_, le_refl _⟩, fun hblind => by simp [hop] at hblind⟩)
      fun _ _ _ => trivial).post fun _ _ _ => trivial
  obtain ⟨value, -, hvalue⟩ := Option.bind_eq_some_iff.mp hc
  obtain ⟨hrepo, hbranch, hsha, -⟩ := cacheOf_ne_empty hvalue
  have hload := cacheOf_toJson (m := { c with fetchedAt := IsoTime.isoFromUnixMs now }) hrepo
    hbranch hsha (IsoTime.isoFromUnixMs_ne_empty _)
  have hw' : parseReleaseSuffix c.commitSha = some w := by
    simpa [recorded, recordedIn, hbefore, hc] using hw
  rw [recorded, recordedIn, hafter, Option.bind_some, hload]
  exact hw'

theorem syncToRelease_keepsRecord {tag : String} {w : DataTagVersion}
    (hw : parseReleaseSuffix (tagSuffix tag) = some w) (url : String) :
    KeepsRecord (·.dir = d)
      (syncToRelease spec (d.releaseMeta.bind cacheOf) zipError tag url) := by
  unfold syncToRelease
  cases hc : d.releaseMeta.bind cacheOf with
  | none => exact syncDownload_keepsRecord (fun v hv => by simp [recordedIn, hc] at hv) _ url
  | some c =>
    dsimp only
    split
    · exact triple_pure fun _ _ => trivial
    · next hrefuse =>
      split
      · exact triple_bind (triple_read (Q := fun _ s => s.dir = d) fun _ hs => hs) fun now =>
          triple_bind (saveReleaseMeta_keepsRecord hc now) fun _ => triple_pure fun _ _ => trivial
      · next hcurrent =>
        refine syncDownload_keepsRecord (fun v hv => ⟨w, hw, ?_⟩) _ url
        have hv' : parseReleaseSuffix c.commitSha = some v := by simpa [recordedIn, hc] using hv
        rw [refusesDowngrade_iff hv' hw] at hrefuse
        rw [releaseUpToDate_iff hv' hw] at hcurrent
        by_cases hzip : zipError = none
        · exact (not_le.mp fun hle => hcurrent ⟨hzip, hle⟩).le
        · exact not_lt.mp fun hlt => hrefuse ⟨hzip, hlt⟩

theorem checkLatestRelease_parses :
    Triple WellBehaved Keeps (·.dir = d) (checkLatestRelease spec)
      (fun latest s => s.dir = d ∧ ∀ found, latest = some found →
        ∃ w, parseReleaseSuffix (tagSuffix found.1) = some w) fun _ _ => True := by
  refine triple_bind (R := fun data s => s.dir = d ∧ ∀ value, data = .ok value →
    Discovery.TagsWellFormed value) (triple_inspect fun turn s hs hA => ⟨keeps_of_dir rfl, hs, ?_⟩)
      fun data => triple_fact fun hdata => ?_
  · intro value hvalue
    refine hA.2 rfl value ?_
    rw [hvalue]
    rfl
  · cases data with
    | error e => exact triple_pure fun s hs => ⟨hs, fun _ h => by simp at h⟩
    | ok value =>
      refine orThrow_spec _ (fun latest s hlatest hs => ⟨hs, fun found hfound => ?_⟩)
        fun _ _ _ => trivial
      subst hfound
      obtain ⟨releases, release, v, hreleases, hmem, htag, hv⟩ := Discovery.latestAsset_tag hlatest
      exact ⟨v, parseReleaseSuffix_tagSuffix
        (hdata value rfl releases hreleases release hmem found.1 htag) hv⟩

theorem syncReleaseLocked_keepsRecord (mirrors : List String) (forceCheck : Bool) :
    KeepsRecord (·.dir = d) (syncReleaseLocked mirrors spec forceCheck) := by
  refine triple_bind (loadReleaseMeta_spec_of_reads (fun _ => keeps_of_dir)
    fun v hv => hv.1) fun cache => triple_fact fun hcache => ?_
  subst hcache
  refine triple_bind ((releaseZipError_spec spec fun _ => keeps_of_dir).post
    fun _ _ h => h.1) fun zipError => ?_
  refine triple_bind (triple_read (Q := fun _ s => s.dir = d) fun _ hs => hs) fun now => ?_
  split
  · exact triple_halt
  · exact triple_pure fun _ _ => trivial
  · refine triple_bind checkLatestRelease_parses fun latest => triple_fact fun hlatest => ?_
    cases latest with
    | none => exact syncWithoutRelease_keepsRecord mirrors
    | some found =>
      obtain ⟨w, hw⟩ := hlatest found rfl
      exact syncToRelease_keepsRecord hw found.2

theorem syncReleaseUnderLock_keepsRecord (mirrors : List String) (forceCheck sourced : Bool) :
    KeepsRecord (·.dir = d) (syncReleaseUnderLock mirrors spec forceCheck sourced) := by
  have hio : ∀ op, Triple WellBehaved Keeps (·.dir = d) (ioStep op id : Step ReleaseState Unit)
      (fun _ s => s.dir = d) fun _ _ => True := fun op =>
    ioStep_id_spec op (fun _ => keeps_of_dir) fun _ _ _ => trivial
  have hunlock : Triple WellBehaved Keeps (fun _ => True)
      (Prog.ignore (ioStep (σ := ReleaseState) .unlock id) : Step ReleaseState Unit)
      (fun _ _ => True) fun _ _ => True := triple_ignore
    (triple_ioStep (fun _ _ _ _ => ⟨keeps_of_dir rfl, trivial⟩)
      fun _ _ _ _ _ => ⟨keeps_of_dir rfl, trivial⟩)
  refine triple_bind (hio _) fun _ => triple_bind (hio _) fun _ => ?_
  refine triple_bind_attempt (triple_bind (R := fun _ s => s.dir = d) ?_ fun guarded => ?_)
    (fun result => triple_bind hunlock fun _ => triple_pure fun _ _ => trivial)
    fun e => triple_bind hunlock fun _ => triple_throw fun _ _ => trivial
  · unfold ensureSource
    split
    · exact triple_inspect fun turn s hs _ => ⟨keeps_of_dir rfl, hs⟩
    · exact triple_pure fun _ hs => hs
  · cases guarded with
    | error e => exact triple_pure fun _ _ => trivial
    | ok _ => exact syncReleaseLocked_keepsRecord mirrors forceCheck

theorem syncReleaseGuarded_keepsRecord (mirrors : List String) (forceCheck sourced : Bool) :
    KeepsRecord (fun _ => True) (syncReleaseGuarded mirrors spec forceCheck sourced) := by
  refine triple_of_forall (f := ReleaseState.dir) fun d => Triple.pre ?_ fun s hs => hs.2
  refine triple_bind_attempt (syncReleaseUnderLock_keepsRecord mirrors forceCheck sourced)
    (fun _ => triple_pure fun _ _ => trivial) fun e => ?_
  refine triple_of_forall (f := ReleaseState.dir) fun d => ?_
  refine triple_bind (((loadReleaseMeta_spec (d := d) fun _ => keeps_of_dir).pre
    fun s hs => hs.2).post fun _ _ h => h.1) fun cache => ?_
  exact triple_bind (releaseZipError_spec spec fun _ => keeps_of_dir) fun _ =>
    triple_pure fun _ _ => trivial

end Steps

/-- What happens to one asset: a sync, or damage to its zip between two syncs. -/
inductive Call where
  | sync (mirrors : List String) (forceCheck : Bool)
  | damage (zip : Node ZipFile)

def Call.prog (spec : ReleaseSpec) : Call → Step ReleaseState Unit
  | .sync mirrors forceCheck => (syncRelease mirrors spec forceCheck).void
  | .damage zip => step .damage fun _ s => (.ok (), { s with dir.zip := zip })

def visits (spec : ReleaseSpec) (calls : List (Call × List Turn)) (s : ReleaseState) :
    List (Visit ReleaseState Op Turn) :=
  session (calls.map fun call => (call.1.prog spec, call.2)) s

theorem call_keepsRecord (spec : ReleaseSpec) (call : Call) :
    KeepsRecord (fun _ => True) (call.prog spec) := by
  cases call with
  | sync mirrors forceCheck =>
    exact triple_bind (syncReleaseGuarded_keepsRecord mirrors forceCheck false) fun _ =>
      triple_pure fun _ _ => trivial
  | damage zip =>
    unfold Call.prog
    exact triple_step (fun turn s _ _ => ⟨noDowngrade_of_releaseMeta rfl, fun h => by simp at h⟩)
      fun turn s _ _ => trivial

/-- Over any sequence of syncs and zip losses, each stopped anywhere, the recorded release never
decreases from one visited state to any later one, and no blind download replaces it. -/
theorem visits_noDowngrade (spec : ReleaseSpec) (calls : List (Call × List Turn))
    (s : ReleaseState) (h : ∀ v ∈ visits spec calls s, WellBehaved v) :
    (s :: (visits spec calls s).map Visit.after).Pairwise NoDowngrade ∧
      ∀ v ∈ visits spec calls s, BlindOnlyUnrecorded v := by
  have hcalls : ∀ call ∈ calls.map fun call => (call.1.prog spec, call.2),
      KeepsRecord (fun _ => True) call.1 := fun call hcall => by
    obtain ⟨c, -, rfl⟩ := List.mem_map.mp hcall
    exact call_keepsRecord spec c.1
  have hkeeps : ∀ v ∈ visits spec calls s, Keeps v :=
    session_steps hcalls (fun _ _ => trivial) trivial h
  exact ⟨(session_linked _ s).pairwise fun v hv => (hkeeps v hv).1, fun v hv => (hkeeps v hv).2⟩

def exampleSpec : ReleaseSpec := ⟨"o", "r", "a.zip", "a.zip", false, .none⟩

def listing (tag : String) : Json :=
  .arr [.obj [("tag_name", .str tag), ("assets", .arr [.obj [("name", .str "a.zip"),
    ("browser_download_url", .str "u")]])]]

def replied (replies : List Reply) : List Turn := replies.map fun reply => ⟨0, reply⟩

/-- A download of one release, the loss of its zip, and an older release upstream. -/
def lossThenOlder : List (Call × List Turn) :=
  [(.sync [] false, replied [.ok, .ok, .ok, .ok, .json (listing "data-26-09-03-04-06-00_ed95a2"),
      .ok, .body "" (.ok []) ⟨0, ""⟩, .ok, .ok, .ok, .ok, .ok, .ok]),
    (.damage .absent, replied [.ok]),
    (.sync ["m"] true, replied [.ok, .ok, .ok, .ok,
      .json (listing "data-26-09-02-04-06-00_ed95a2"), .ok])]

def emptyState : ReleaseState := ⟨⟨0, 0, []⟩, ⟨.absent, none⟩⟩

theorem visits_noDowngrade_lossThenOlder :
    (emptyState :: (visits exampleSpec lossThenOlder emptyState).map Visit.after).Pairwise
        NoDowngrade ∧
      ∀ v ∈ visits exampleSpec lossThenOlder emptyState, BlindOnlyUnrecorded v :=
  visits_noDowngrade exampleSpec lossThenOlder emptyState (by decide +kernel)

end PrtsMcp.ReleaseSync
