import PrtsMcp.ReleaseSyncSteps

/-!
# Soundness of the reported status

Whatever the environment answers, a status other than `no_data` means that a valid zip is in
place, and `updated` or `up_to_date` reports the commit sha that is on disk.
-/
namespace PrtsMcp.ReleaseSync

open Process SyncTypes FileSteps ReleaseTags

structure StatusSound (spec : ReleaseSpec) (r : SyncResult) (dir : ReleaseDir) : Prop where
  zip : r.status ≠ .noData → HasValidZip spec dir
  sha : r.status = .updated ∨ r.status = .upToDate →
    ∃ sha, r.commitSha = some sha ∧ storedCommitSha dir = some sha

theorem statusSound_noData (spec : ReleaseSpec) (sha error : Option String) (dir : ReleaseDir) :
    StatusSound spec ⟨.noData, sha, error⟩ dir :=
  ⟨fun h => absurd rfl h, fun h => by simp at h⟩

theorem statusSound_offlineFallback {spec : ReleaseSpec} {dir : ReleaseDir}
    (h : HasValidZip spec dir) (sha error : Option String) :
    StatusSound spec ⟨.offlineFallback, sha, error⟩ dir :=
  ⟨fun _ => h, fun h => by simp at h⟩

theorem statusSound_updated {spec : ReleaseSpec} {tag : String} {dir : ReleaseDir}
    (h : Published spec tag dir) : StatusSound spec ⟨.updated, some (tagSuffix tag), none⟩ dir := by
  obtain ⟨z, now, hz, rfl⟩ := h
  exact ⟨fun _ => ⟨z, rfl, hz⟩, fun _ => ⟨_, rfl, storedCommitSha_toJson _ _⟩⟩

theorem statusSound_upToDate {spec : ReleaseSpec} {dir : ReleaseDir} {sha : String}
    (h : HasValidZip spec dir) (hsha : storedCommitSha dir = some sha) :
    StatusSound spec ⟨.upToDate, some sha, none⟩ dir :=
  ⟨fun _ => h, fun _ => ⟨sha, rfl, hsha⟩⟩

theorem HasValidZip.of_abandoned {spec : ReleaseSpec} {d dir : ReleaseDir}
    (h : HasValidZip spec d) (ha : Abandoned spec d dir) : HasValidZip spec dir := by
  rcases ha with rfl | ⟨z, hz, rfl⟩
  · exact h
  · exact ⟨z, rfl, hz⟩

/-- A process whose every answer is a sound status. -/
abbrev Sound (spec : ReleaseSpec) (P : ReleaseState → Prop) (p : Step ReleaseState SyncResult) :
    Prop :=
  Triple (fun _ => True) (fun _ => True) P p (fun r s => StatusSound spec r s.dir) fun _ _ => True

section Exits

variable {spec : ReleaseSpec} {d : ReleaseDir} {cache : Option CacheMeta}
  {zipError : Option String}

theorem downloadReleaseAsset_leaves (tag url : String) :
    Triple (fun _ => True) (fun _ => True) (·.dir = d) (downloadReleaseAsset spec tag url)
      (fun _ s => Published spec tag s.dir) fun _ s => Abandoned spec d s.dir :=
  downloadReleaseAsset_spec spec tag url (fun _ _ => trivial) (fun _ _ _ _ _ => trivial)
    fun _ _ _ _ _ _ => trivial

theorem syncWithoutRelease_sound (mirrors : List String)
    (hzip : zipError = none → HasValidZip spec d) :
    Sound spec (·.dir = d) (syncWithoutRelease mirrors spec cache zipError) := by
  refine triple_bind (triple_read (Q := fun _ s => s.dir = d) fun _ hs => hs) fun zipExists => ?_
  split
  · next hnone =>
    exact triple_pure fun s hs => statusSound_offlineFallback (hs ▸ hzip hnone) _ _
  · split
    · exact triple_pure fun s _ => statusSound_noData _ _ _ _
    · split
      · exact triple_bind_attempt (downloadReleaseAsset_leaves "unknown" _)
          (fun _ => triple_pure fun s hs => statusSound_updated hs)
          fun e => triple_pure fun s _ => statusSound_noData _ _ _ _
      · exact triple_pure fun s _ => statusSound_noData _ _ _ _

theorem syncDownload_sound (tag url : String) (hzip : zipError = none → HasValidZip spec d) :
    Sound spec (·.dir = d) (syncDownload spec cache zipError tag url) := by
  refine triple_bind_attempt (downloadReleaseAsset_leaves tag url)
    (fun _ => triple_pure fun s hs => statusSound_updated hs) fun e => ?_
  dsimp only
  split
  · next hnone =>
    exact triple_pure fun s hs => statusSound_offlineFallback ((hzip hnone).of_abandoned hs) _ _
  · exact triple_pure fun s _ => statusSound_noData _ _ _ _

theorem syncToRelease_sound (tag url : String) (hzip : zipError = none → HasValidZip spec d) :
    Sound spec (·.dir = d) (syncToRelease spec cache zipError tag url) := by
  unfold syncToRelease
  cases cache with
  | none => exact syncDownload_sound tag url hzip
  | some c =>
    dsimp only
    split
    · exact triple_pure fun s _ => statusSound_noData _ _ _ _
    · split
      · next hfresh =>
        refine triple_bind (triple_read (Q := fun _ s => s.dir = d) fun _ hs => hs) fun now => ?_
        refine triple_bind (saveReleaseMeta_spec _ (fun _ _ => trivial) (fun _ _ _ _ => trivial)
          fun _ _ _ => trivial) fun _ => triple_pure fun s hs => ?_
        obtain ⟨z, hz, haccepted⟩ := hzip hfresh.1
        exact statusSound_upToDate ⟨z, by rw [hs]; exact hz, haccepted⟩
          (by rw [hs]; exact storedCommitSha_toJson _ _)
      · exact syncDownload_sound tag url hzip

theorem checkLatestRelease_keeps :
    Triple (fun _ => True) (fun _ => True) (·.dir = d) (checkLatestRelease spec)
      (fun _ s => s.dir = d) fun _ _ => True := by
  refine triple_bind (fetchStep_spec _ fun _ _ => trivial) fun data => ?_
  cases data with
  | error e => exact triple_pure fun _ hs => hs
  | ok data => exact orThrow_spec _ (fun _ _ _ hs => hs) fun _ _ _ => trivial

theorem syncReleaseLocked_sound (mirrors : List String) (forceCheck : Bool) :
    Sound spec (·.dir = d) (syncReleaseLocked mirrors spec forceCheck) := by
  refine triple_bind (loadReleaseMeta_spec fun _ _ => trivial) fun cache =>
    triple_fact fun hcache => ?_
  refine triple_bind (releaseZipError_spec spec fun _ _ => trivial) fun zipError =>
    triple_fact fun hzip => ?_
  refine triple_bind (triple_read (Q := fun _ s => s.dir = d) fun _ hs => hs) fun now => ?_
  cases hfresh : freshHit forceCheck cache zipError now with
  | error _ => exact triple_halt
  | ok hit =>
    cases hit with
    | some sha =>
      refine triple_pure fun s hs => ?_
      unfold freshHit at hfresh
      split at hfresh
      · next c =>
        cases hc : cacheIsFresh c now <;> simp only [hc, Except.map] at hfresh
        · simp at hfresh
        · obtain ⟨-, hsha⟩ := Option.ite_none_right_eq_some.mp (Except.ok.inj hfresh)
          obtain rfl := Option.some.inj hsha
          exact statusSound_upToDate (hs ▸ hzip rfl)
            (hs ▸ storedCommitSha_of_cacheOf (hcache c rfl))
      · simp at hfresh
    | none =>
      refine triple_bind checkLatestRelease_keeps fun latest => ?_
      cases latest with
      | none => exact syncWithoutRelease_sound mirrors hzip
      | some found => exact syncToRelease_sound found.1 found.2 hzip

theorem syncReleaseUnderLock_sound (mirrors : List String) (forceCheck sourced : Bool) :
    Sound spec (fun _ => True) (syncReleaseUnderLock mirrors spec forceCheck sourced) := by
  refine triple_of_forall (f := ReleaseState.dir) fun d => ?_
  refine triple_bind ((ioStep_id_spec (d := d) _ (fun _ _ => trivial) fun _ _ _ => trivial).pre
    fun s hs => hs.2) fun _ => ?_
  refine triple_bind (ioStep_id_spec _ (fun _ _ => trivial) fun _ _ _ => trivial) fun _ => ?_
  refine triple_bind_attempt (Q := fun r s => StatusSound spec r s.dir) (E := fun _ _ => True)
    (triple_bind (R := fun _ s => s.dir = d) ?_ fun guarded => ?_) (fun result => ?_) fun e => ?_
  · unfold ensureSource
    split
    · exact triple_inspect fun turn s hs _ => ⟨trivial, hs⟩
    · exact triple_pure fun _ hs => hs
  · cases guarded with
    | error e => exact triple_pure fun s _ => statusSound_noData _ _ _ _
    | ok _ => exact syncReleaseLocked_sound mirrors forceCheck
  · exact triple_bind (triple_ignore (R := fun s => StatusSound spec result s.dir)
      (triple_ioStep (fun turn s hs _ => ⟨trivial, hs⟩) fun turn s e hs _ => ⟨trivial, hs⟩))
      fun _ => triple_pure fun _ hs => hs
  · exact triple_bind (triple_ignore (R := fun _ => True)
      (triple_ioStep (fun turn s hs _ => ⟨trivial, hs⟩) fun turn s e hs _ => ⟨trivial, hs⟩))
      fun _ => triple_throw fun _ _ => trivial

/-- Every exit of a release sync, its error path included, reports a sound status. -/
theorem syncReleaseGuarded_sound (spec : ReleaseSpec) (mirrors : List String) (forceCheck sourced : Bool) :
    Sound spec (fun _ => True) (syncReleaseGuarded mirrors spec forceCheck sourced) := by
  refine triple_bind_attempt (syncReleaseUnderLock_sound mirrors forceCheck sourced)
    (fun result => triple_pure fun _ hs => hs) fun e => triple_of_forall (f := ReleaseState.dir) fun d => ?_
  refine triple_bind (((loadReleaseMeta_spec (d := d) fun _ _ => trivial).pre
    fun s hs => hs.2).post fun _ _ h => h.1) fun cache => ?_
  refine triple_bind (releaseZipError_spec spec fun _ _ => trivial) fun zipError =>
    triple_pure fun s hs => ?_
  split
  · next hnone => exact statusSound_offlineFallback (hs.1 ▸ hs.2 hnone) _ _
  · exact statusSound_noData _ _ _ _

end Exits

/-- From any local state and for any replies, the status that a sync returns is sound. -/
theorem syncRelease_statusSound (mirrors : List String) (spec : ReleaseSpec) (forceCheck : Bool)
    (s : ReleaseState) (replies : List Turn) :
    match (syncRelease mirrors spec forceCheck).run s replies with
    | ⟨.done r, s', _, _⟩ => StatusSound spec r s'.dir
    | _ => True := by
  have h := (syncReleaseGuarded_sound spec mirrors forceCheck false s replies trivial
    fun _ _ => trivial).2
  change Outcome.Post _ _ ((syncRelease mirrors spec forceCheck).run s replies).world
    ((syncRelease mirrors spec forceCheck).run s replies).outcome at h
  split
  · next hrun =>
    rw [hrun] at h
    exact h
  · trivial

end PrtsMcp.ReleaseSync
