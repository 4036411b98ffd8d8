import PrtsMcp.ReleaseSync

/-!
# What the steps of a release sync do

One lemma for each process of the release sync: which directory states it can leave, whatever
the environment answers.
-/
namespace PrtsMcp.ReleaseSync

open Process SyncTypes FileSteps ZipValidation ReleaseTags

/-- The local validity check accepts the file. -/
def ZipAccepted (spec : ReleaseSpec) (z : ZipFile) : Prop :=
  zipErrorOf spec z (.ok ()) = none

def HasValidZip (spec : ReleaseSpec) (dir : ReleaseDir) : Prop :=
  ∃ z, dir.zip = .file z ∧ ZipAccepted spec z

/-- The `commit_sha` that `release_meta.json` stores. -/
def storedCommitSha (dir : ReleaseDir) : Option String :=
  dir.releaseMeta.bind (eitherKey "commit_sha" "commitSha")

/-- The directory a finished download leaves. -/
def Published (spec : ReleaseSpec) (tag : String) (dir : ReleaseDir) : Prop :=
  ∃ z now, ZipAccepted spec z ∧ dir = ⟨.file z, some (downloadedMeta spec tag now).toJson⟩

/-- The directory a failed download leaves: as it was, or with a valid zip and the old record. -/
def Abandoned (spec : ReleaseSpec) (d dir : ReleaseDir) : Prop :=
  dir = d ∨ ∃ z, ZipAccepted spec z ∧ dir = ⟨.file z, d.releaseMeta⟩

theorem storedCommitSha_of_cacheOf {dir : ReleaseDir} {c : CacheMeta}
    (h : dir.releaseMeta.bind cacheOf = some c) : storedCommitSha dir = some c.commitSha := by
  obtain ⟨value, hvalue, hc⟩ := Option.bind_eq_some_iff.mp h
  simp only [cacheOf, Option.bind_eq_bind, Option.bind_eq_some_iff] at hc
  obtain ⟨repo, -, branch, -, sha, hsha, fetched, -, hc⟩ := hc
  split at hc
  · simp at hc
  · obtain ⟨files, -, hc⟩ := Option.bind_eq_some_iff.mp hc
    obtain rfl := Option.some.inj hc
    simp [storedCommitSha, hvalue, hsha]

theorem cacheOf_ne_empty {value : Json} {c : CacheMeta} (h : cacheOf value = some c) :
    c.repo ≠ "" ∧ c.branch ≠ "" ∧ c.commitSha ≠ "" ∧ c.fetchedAt ≠ "" := by
  simp only [cacheOf, Option.bind_eq_bind, Option.bind_eq_some_iff] at h
  obtain ⟨repo, -, branch, -, sha, -, fetched, -, h⟩ := h
  split at h
  · simp at h
  · next hne =>
    obtain ⟨files, -, h⟩ := Option.bind_eq_some_iff.mp h
    obtain rfl := Option.some.inj h
    simpa only [not_or] using hne

theorem storedCommitSha_toJson (zip : Node ZipFile) (m : CacheMeta) :
    storedCommitSha ⟨zip, some m.toJson⟩ = some m.commitSha := rfl

/-- A saved record with no empty field loads back. -/
theorem cacheOf_toJson {m : CacheMeta} (hrepo : m.repo ≠ "") (hbranch : m.branch ≠ "")
    (hsha : m.commitSha ≠ "") (hfetched : m.fetchedAt ≠ "") : cacheOf m.toJson = some m := by
  have hfiles : (m.files.map Json.str).filterMap Json.asStr = m.files := by
    rw [List.filterMap_map]
    exact List.filterMap_some
  simp only [cacheOf, CacheMeta.toJson, Json.getStr, Json.get, eitherKey, List.lookup,
    Option.bind_eq_bind]
  simp [Json.asStr, Json.asArray, hrepo, hbranch, hsha, hfetched, hfiles]

theorem orThrow_spec {σ α : Type} {A G : Visit σ Op Turn → Prop} {P : σ → Prop}
    {Q : α → σ → Prop} {E : SyncError → σ → Prop} (r : Except SyncError α)
    (hQ : ∀ a s, r = .ok a → P s → Q a s) (hE : ∀ e s, P s → E e s) :
    Triple A G P (orThrow r) Q E := by
  cases r with
  | ok a => exact triple_pure fun s hs => hQ a s rfl hs
  | error e => exact triple_throw fun s hs => hE e s hs

section Steps

variable {A G : Visit ReleaseState Op Turn → Prop} {d : ReleaseDir}
  {E : SyncError → ReleaseState → Prop}

@[simp] theorem waited_dir (turn : Turn) (s : ReleaseState) : (waited turn s).dir = s.dir := rfl

@[simp] theorem onMachine_dir (f : Machine → Machine) (s : ReleaseState) :
    (OnMachine.onMachine f s).dir = s.dir := rfl

theorem loadReleaseMeta_spec (hkept : ∀ v, v.after.dir = v.before.dir → G v) :
    Triple A G (·.dir = d) loadReleaseMeta
      (fun cache s => s.dir = d ∧ ∀ c, cache = some c → d.releaseMeta.bind cacheOf = some c) E := by
  refine triple_inspect fun turn s hs _ => ⟨hkept _ rfl, ?_⟩
  cases turn.reply.io with
  | ok _ => exact ⟨hs, fun c hc => hs ▸ hc⟩
  | error e => exact ⟨hs, fun c hc => by simp at hc⟩

/-- A read that does not fail answers what is on disk. -/
theorem loadReleaseMeta_spec_of_reads (hkept : ∀ v, v.after.dir = v.before.dir → G v)
    (hreads : ∀ v, A v → v.op = .readReleaseMeta → v.reply.reply.io.isOk = true) :
    Triple A G (·.dir = d) loadReleaseMeta
      (fun cache s => s.dir = d ∧ cache = d.releaseMeta.bind cacheOf) E := by
  refine triple_inspect fun turn s hs hA => ⟨hkept _ rfl, ?_⟩
  have hio : turn.reply.io.isOk = true := hreads _ hA rfl
  cases hreply : turn.reply.io with
  | ok _ => exact ⟨hs, hs ▸ rfl⟩
  | error e => simp [hreply, Except.isOk, Except.toBool] at hio

theorem releaseZipError_spec (spec : ReleaseSpec) (hkept : ∀ v, v.after.dir = v.before.dir → G v) :
    Triple A G (·.dir = d) (releaseZipError spec)
      (fun error s => s.dir = d ∧ (error = none → HasValidZip spec d)) E := by
  refine triple_inspect fun turn s hs _ => ⟨hkept _ rfl, ?_⟩
  cases hzip : (waited turn s).dir.zip with
  | absent => exact ⟨hs, fun h => by simp at h⟩
  | notFile => exact ⟨hs, fun h => by simp at h⟩
  | file z =>
    refine ⟨hs, fun h => ⟨z, hs ▸ hzip, ?_⟩⟩
    unfold ZipAccepted
    revert h
    unfold zipErrorOf
    cases spec.validator <;> cases turn.reply.io <;> simp

theorem fetchStep_spec (op : Op) (hkept : ∀ v, v.after.dir = v.before.dir → G v) :
    Triple A G (·.dir = d) (fetchStep op : Step ReleaseState _) (fun _ s => s.dir = d) E :=
  triple_inspect fun _ _ hs _ => ⟨hkept _ rfl, hs⟩

theorem ioStep_id_spec (op : Op) (hkept : ∀ v, v.after.dir = v.before.dir → G v)
    (hE : ∀ e s, s.dir = d → E e s) :
    Triple A G (·.dir = d) (ioStep op id : Step ReleaseState Unit) (fun _ s => s.dir = d) E :=
  triple_ioStep (fun _ _ hs _ => ⟨hkept _ rfl, hs⟩) fun _ _ e hs _ => ⟨hkept _ rfl, hE e _ hs⟩

theorem saveReleaseMeta_spec (m : CacheMeta) (hkept : ∀ v, v.after.dir = v.before.dir → G v)
    (hsaved : ∀ v, v.op = .placeReleaseMeta → v.before.dir = d →
      v.after.dir = ⟨d.zip, some m.toJson⟩ → G v)
    (hE : ∀ e s, s.dir = d → E e s) :
    Triple A G (·.dir = d) (saveReleaseMeta m) (fun _ s => s.dir = ⟨d.zip, some m.toJson⟩) E := by
  have hput : ∀ s : ReleaseState, s.dir = d →
      ({ s with dir.releaseMeta := some m.toJson } : ReleaseState).dir = ⟨d.zip, some m.toJson⟩ :=
    fun s hs => hs ▸ rfl
  exact triple_atomicWriteJson (fun s f _ hs => hs) (fun op turn s f _ hs => hkept _ rfl)
    (fun turn s f _ hs _ => ⟨hsaved _ rfl hs (hput _ hs), hput _ hs⟩) fun s e hs => hE e s hs

theorem zipAccepted_of_downloadVerdict {spec : ReleaseSpec} {suffix : ℕ} {z : ZipFile}
    {opened : Except SyncError Unit} (h : downloadVerdict spec suffix z opened = .ok ()) :
    ZipAccepted spec z := by
  unfold ZipAccepted zipErrorOf
  unfold downloadVerdict at h
  cases hv : spec.validator with
  | none => rfl
  | storyJson | archive requiredFiles =>
    all_goals
      cases opened with
      | error e => simp [hv] at h
      | ok _ =>
        simp only [hv] at h
        split at h
        · next hmissing => simp only [zipMissingEntries_rename hmissing]
        · simp at h
        · simp at h

theorem checkDownload_spec (spec : ReleaseSpec) (suffix : ℕ) (z : ZipFile)
    (hkept : ∀ v, v.after.dir = v.before.dir → G v) (hE : ∀ e s, s.dir = d → E e s) :
    Triple A G (·.dir = d) (checkDownload spec suffix z)
      (fun _ s => s.dir = d ∧ ZipAccepted spec z) E := by
  refine triple_inspect fun turn s hs _ => ⟨hkept _ rfl, ?_⟩
  cases hverdict : downloadVerdict spec suffix z turn.reply.io with
  | ok _ => exact ⟨hs, zipAccepted_of_downloadVerdict hverdict⟩
  | error e => exact hE _ _ hs

theorem downloadTemp_spec (spec : ReleaseSpec) (tag url : String)
    (hkept : ∀ v, v.after.dir = v.before.dir → G v) (hE : ∀ e s, s.dir = d → E e s) :
    Triple A G (·.dir = d) (downloadTemp spec tag url) (fun _ s => s.dir = d) E := by
  refine triple_step (fun turn s hs _ => hkept _ ?_) fun turn s hs _ => ?_
  · dsimp only
    split <;> rfl
  · dsimp only
    cases turn.reply with
    | body latest archive stats => exact hs
    | ok | json | fail | torn | refused => exact hE _ _ hs

theorem verifyReleaseManifest_spec (spec : ReleaseSpec) (tag : String) (stats : DownloadStats)
    (hkept : ∀ v, v.after.dir = v.before.dir → G v) (hE : ∀ e s, s.dir = d → E e s) :
    Triple A G (·.dir = d) (verifyReleaseManifest spec tag stats) (fun _ s => s.dir = d) E :=
  triple_bind (fetchStep_spec _ hkept) fun _ =>
    orThrow_spec _ (fun _ _ _ hs => hs) hE

theorem verifyIfDeclared_spec (spec : ReleaseSpec) (tag : String) (stats : DownloadStats)
    (hkept : ∀ v, v.after.dir = v.before.dir → G v) (hE : ∀ e s, s.dir = d → E e s) :
    Triple A G (·.dir = d) (verifyIfDeclared spec tag stats) (fun _ s => s.dir = d) E := by
  unfold verifyIfDeclared
  split
  · exact verifyReleaseManifest_spec spec tag stats hkept hE
  · exact triple_pure fun _ hs => hs

/-- A download places a valid zip, then records its release. -/
theorem publishDownload_spec (spec : ReleaseSpec) (tag : String) (suffix : ℕ) (z : ZipFile)
    (stats : DownloadStats) (hkept : ∀ v, v.after.dir = v.before.dir → G v)
    (hplaced : ∀ v z, v.op = .placeZip tag → v.before.dir = d →
      v.after.dir = ⟨.file z, d.releaseMeta⟩ → G v)
    (hsaved : ∀ v z now, v.op = .placeReleaseMeta → v.before.dir = ⟨.file z, d.releaseMeta⟩ →
      v.after.dir = ⟨.file z, some (downloadedMeta spec tag now).toJson⟩ → G v) :
    Triple A G (·.dir = d) (publishDownload spec tag suffix z stats)
      (fun _ s => Published spec tag s.dir) (fun _ s => Abandoned spec d s.dir) := by
  have hkeptE : ∀ (e : SyncError) (s : ReleaseState), s.dir = d → Abandoned spec d s.dir :=
    fun _ _ hs => .inl hs
  refine triple_bind (checkDownload_spec spec suffix z hkept hkeptE) fun _ =>
    triple_fact fun hz => ?_
  refine triple_bind (verifyIfDeclared_spec spec tag stats hkept hkeptE) fun _ => ?_
  · refine triple_bind (R := fun _ s => s.dir = ⟨.file z, d.releaseMeta⟩)
      (triple_ioStep (fun turn s hs _ => ?_) fun turn s e hs _ => ⟨hkept _ rfl, .inl hs⟩) fun _ => ?_
    · have hafter : ({ waited turn s with
          machine := (waited turn s).machine.dropTemp suffix, dir.zip := .file z } :
            ReleaseState).dir = ⟨.file z, d.releaseMeta⟩ := by rw [← hs]; rfl
      exact ⟨hplaced _ z rfl hs hafter, hafter⟩
    · refine triple_bind (triple_read (Q := fun _ s => s.dir = ⟨.file z, d.releaseMeta⟩)
        fun s hs => hs) fun now => ?_
      exact (saveReleaseMeta_spec (downloadedMeta spec tag now) hkept
        (fun v ho hb ha => hsaved v z now ho hb ha) fun _ _ hs => .inr ⟨z, hz, hs⟩).post
          fun _ s h => ⟨z, now, hz, h⟩

theorem downloadReleaseAsset_spec (spec : ReleaseSpec) (tag url : String)
    (hkept : ∀ v, v.after.dir = v.before.dir → G v)
    (hplaced : ∀ v z, v.op = .placeZip tag → v.before.dir = d →
      v.after.dir = ⟨.file z, d.releaseMeta⟩ → G v)
    (hsaved : ∀ v z now, v.op = .placeReleaseMeta → v.before.dir = ⟨.file z, d.releaseMeta⟩ →
      v.after.dir = ⟨.file z, some (downloadedMeta spec tag now).toJson⟩ → G v) :
    Triple A G (·.dir = d) (downloadReleaseAsset spec tag url)
      (fun _ s => Published spec tag s.dir) (fun _ s => Abandoned spec d s.dir) := by
  refine triple_bind (ioStep_id_spec _ hkept fun _ _ hs => .inl hs) fun _ => ?_
  refine triple_bind (triple_read (Q := fun _ s => s.dir = d) fun _ hs => hs) fun suffix => ?_
  refine triple_bind_attempt (triple_bind
    (downloadTemp_spec spec tag url hkept fun _ _ hs => .inl hs) fun temp =>
      publishDownload_spec spec tag temp.1 temp.2.1 temp.2.2 hkept hplaced hsaved)
    (fun _ => triple_pure fun _ hs => hs) fun e => ?_
  refine triple_bind (triple_ignore (R := fun s => Abandoned spec d s.dir)
    (triple_ioStep (fun turn s hs _ => ⟨hkept _ rfl, hs⟩)
      fun turn s _ hs _ => ⟨hkept _ rfl, hs⟩)) fun _ => triple_throw fun _ hs => hs

end Steps

section Ticks

variable (spec : ReleaseSpec)

theorem orThrow_steady {σ α : Type} [OnMachine σ] (r : Except SyncError α) :
    Steady (orThrow r : Step σ α) := by
  cases r with
  | ok a => exact steady_pure a
  | error e => exact steady_throw e

theorem downloadTemp_steady (tag url : String) : Steady (downloadTemp spec tag url) := by
  refine steady_step fun reply s => ?_
  dsimp only
  cases reply with
  | body latest archive stats => exact ⟨_, grows_addTemp, rfl⟩
  | torn text => exact ⟨_, grows_addTemp, rfl⟩
  | ok | json | fail | refused => exact ⟨id, grows_id, rfl⟩

theorem downloadReleaseAsset_steady (tag url : String) :
    Steady (downloadReleaseAsset spec tag url) := by
  have hremove : ∀ suffix, Steady (removeTemp suffix) := fun suffix =>
    steady_ioStep (grows_dropTemp suffix) fun _ => rfl
  have hverify : ∀ stats, Steady (verifyIfDeclared spec tag stats) := fun stats => by
    unfold verifyIfDeclared
    split
    · exact steady_bind steady_inspect fun _ => orThrow_steady _
    · exact steady_pure ()
  refine steady_bind (steady_idle _) fun _ => steady_bind (steady_read _) fun suffix => ?_
  refine steady_bind (steady_attempt (steady_bind (downloadTemp_steady spec tag url) fun temp => ?_))
    fun result => ?_
  · refine steady_bind steady_inspect fun _ => steady_bind (hverify _) fun _ => ?_
    refine steady_bind (steady_ioStep (grows_dropTemp _) fun _ => rfl) fun _ => ?_
    exact steady_bind (steady_read _) fun _ => steady_atomicWriteJson fun _ => rfl
  · cases result with
    | ok _ => exact steady_pure ()
    | error e => exact steady_bind (steady_ignore (hremove suffix)) fun _ => steady_throw e

theorem syncWithoutRelease_steady (mirrors : List String) (cache : Option CacheMeta)
    (zipError : Option String) : Steady (syncWithoutRelease mirrors spec cache zipError) := by
  refine steady_bind (steady_read _) fun zipExists => ?_
  split
  · exact steady_pure _
  · split
    · exact steady_pure _
    · split
      · refine steady_bind (steady_attempt (downloadReleaseAsset_steady spec _ _)) fun result => ?_
        cases result <;> exact steady_pure _
      · exact steady_pure _

theorem syncDownload_steady (cache : Option CacheMeta) (zipError : Option String)
    (tag url : String) : Steady (syncDownload spec cache zipError tag url) := by
  refine steady_bind (steady_attempt (downloadReleaseAsset_steady spec tag url)) fun result => ?_
  cases result with
  | ok _ => exact steady_pure _
  | error e =>
    dsimp only
    split <;> exact steady_pure _

theorem syncToRelease_steady (cache : Option CacheMeta) (zipError : Option String)
    (tag url : String) : Steady (syncToRelease spec cache zipError tag url) := by
  unfold syncToRelease
  cases cache with
  | none => exact syncDownload_steady spec _ _ _ _
  | some c =>
    dsimp only
    split
    · exact steady_pure _
    · split
      · refine steady_bind (steady_read _) fun now => ?_
        exact steady_bind (steady_atomicWriteJson fun _ => rfl) fun _ => steady_pure _
      · exact syncDownload_steady spec _ _ _ _

theorem syncReleaseLocked_steady (mirrors : List String) (forceCheck : Bool) :
    Steady (syncReleaseLocked mirrors spec forceCheck) := by
  have hlatest : Steady (checkLatestRelease spec) := by
    refine steady_bind steady_inspect fun data => ?_
    cases data with
    | error e => exact steady_pure none
    | ok data => exact orThrow_steady _
  refine steady_bind steady_inspect fun cache => steady_bind steady_inspect fun zipError => ?_
  refine steady_bind (steady_read _) fun now => ?_
  split
  · exact triple_halt
  · exact steady_pure _
  · refine steady_bind hlatest fun latest => ?_
    cases latest with
    | none => exact syncWithoutRelease_steady spec mirrors _ _
    | some found => exact syncToRelease_steady spec _ _ found.1 found.2

/-- Every step of a release sync ticks. -/
theorem syncReleaseGuarded_steady (mirrors : List String) (forceCheck sourced : Bool) :
    Steady (syncReleaseGuarded mirrors spec forceCheck sourced) := by
  have hsource : Steady (ensureSource sourced) := by
    unfold ensureSource
    split
    · exact steady_inspect
    · exact steady_pure _
  have hlock : Steady (syncReleaseUnderLock mirrors spec forceCheck sourced) := by
    refine steady_bind (steady_idle _) fun _ => steady_bind (steady_idle _) fun _ => ?_
    refine steady_bind (steady_attempt (steady_bind hsource fun guarded => ?_)) fun inner =>
      steady_bind (steady_ignore (steady_idle _)) fun _ => orThrow_steady _
    cases guarded with
    | error e => exact steady_pure _
    | ok _ => exact syncReleaseLocked_steady spec mirrors forceCheck
  refine steady_bind (steady_attempt hlock) fun result => ?_
  cases result with
  | ok _ => exact steady_pure _
  | error e =>
    exact steady_bind steady_inspect fun _ => steady_bind steady_inspect fun _ => steady_pure _

end Ticks

end PrtsMcp.ReleaseSync
