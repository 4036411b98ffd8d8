import PrtsMcp.ReleaseTags
import PrtsMcp.SyncTypes

/-!
# Release discovery

Data and image releases share one repository, so the newest data release is picked from the
release list by its tag.
-/
namespace PrtsMcp.Discovery

open ReleaseTags SyncTypes

/-- The newest release so far, and the identities met so far. -/
structure Scan where
  best : Option (DataTagVersion × Json)
  seen : List DataTagVersion

/-- The tag of a release that is neither a draft nor a prerelease. -/
def publishedTag (release : Json) : Option String :=
  if ((release.get "draft").elim false Json.isTrue) ||
      ((release.get "prerelease").elim false Json.isTrue) then none
  else release.getStr "tag_name"

/-- Two releases that claim one identity fail closed. -/
def Scan.consider (scan : Scan) (release : Json) : Except SyncError Scan :=
  match (publishedTag release).bind parseDataTag with
  | none => .ok scan
  | some parsed =>
    if parsed ∈ scan.seen then .error .duplicateReleaseIdentity
    else
      .ok ⟨if scan.best.elim true fun best => isNewer best.1 parsed then some (parsed, release)
        else scan.best, parsed :: scan.seen⟩

def latestDataRelease (releases : List Json) : Except SyncError (Option Json) :=
  (releases.foldlM Scan.consider ⟨none, []⟩).map fun scan => scan.best.map Prod.snd

def releasesUrl (owner repo : String) : String :=
  "https://api.github.com/repos/" ++ owner ++ "/" ++ repo ++ "/releases?per_page=100"

def assetUrl (release : Json) (assetName : String) : Option String :=
  ((release.get "assets").bind Json.asArray).bind fun assets =>
    assets.findSome? fun asset =>
      if asset.getStr "name" = some assetName then asset.getStr "browser_download_url" else none

/-- `check_latest_release` after the fetch: the tag and the asset of the newest data release. -/
def latestAsset (assetName : String) (data : Json) : Except SyncError (Option (String × String)) :=
  match data.asArray with
  | none => .ok none
  | some releases => do
    match ← latestDataRelease releases with
    | none => return none
    | some latest =>
      match latest.getStr "tag_name", assetUrl latest assetName with
      | some tag, some url => return some (tag, url)
      | _, _ => return none

/-- Every data tag of a release list is well formed. -/
def TagsWellFormed (data : Json) : Prop :=
  ∀ releases ∈ data.asArray, ∀ release ∈ releases, ∀ tag ∈ release.getStr "tag_name",
    WellFormed tag

instance : DecidablePred TagsWellFormed := fun data =>
  inferInstanceAs (Decidable (∀ releases ∈ data.asArray, ∀ release ∈ releases,
    ∀ tag ∈ release.getStr "tag_name", WellFormed tag))

/-- What the scan holds is a release of the list, with the identity of its own tag. -/
def Scan.Sound (releases : List Json) (scan : Scan) : Prop :=
  ∀ v release, scan.best = some (v, release) →
    release ∈ releases ∧ ∃ tag, release.getStr "tag_name" = some tag ∧ parseDataTag tag = some v

theorem getStr_of_publishedTag {release : Json} {tag : String}
    (h : publishedTag release = some tag) : release.getStr "tag_name" = some tag := by
  unfold publishedTag at h
  split at h
  · simp at h
  · exact h

theorem Scan.Sound.consider {releases : List Json} {scan scan' : Scan} {release : Json}
    (h : scan.Sound releases) (hmem : release ∈ releases)
    (hstep : scan.consider release = .ok scan') : scan'.Sound releases := by
  unfold Scan.consider at hstep
  split at hstep
  · obtain rfl := Except.ok.inj hstep
    exact h
  · next parsed hparsed =>
    split at hstep
    · simp at hstep
    · obtain rfl := Except.ok.inj hstep
      intro v r hbest
      dsimp only at hbest
      split at hbest
      · obtain ⟨rfl, rfl⟩ := Prod.mk.inj (Option.some.inj hbest)
        obtain ⟨tag, htag, hv⟩ := Option.bind_eq_some_iff.mp hparsed
        exact ⟨hmem, tag, getStr_of_publishedTag htag, hv⟩
      · exact h v r hbest

theorem Scan.Sound.foldlM {releases rest : List Json} {scan scan' : Scan}
    (h : scan.Sound releases) (hsub : rest ⊆ releases)
    (hfold : rest.foldlM Scan.consider scan = .ok scan') : scan'.Sound releases := by
  induction rest generalizing scan with
  | nil =>
    obtain rfl := Except.ok.inj hfold
    exact h
  | cons release rest ih =>
    rw [List.foldlM_cons] at hfold
    cases hstep : scan.consider release with
    | error e => simp [hstep, bind, Except.bind] at hfold
    | ok next =>
      rw [hstep] at hfold
      exact ih (h.consider (hsub List.mem_cons_self) hstep)
        (fun r hr => hsub (List.mem_cons_of_mem _ hr)) hfold

/-- The discovered tag is a data tag of the list. -/
theorem latestAsset_tag {assetName tag url : String} {data : Json}
    (h : latestAsset assetName data = .ok (some (tag, url))) :
    ∃ releases release v, data.asArray = some releases ∧ release ∈ releases ∧
      release.getStr "tag_name" = some tag ∧ parseDataTag tag = some v := by
  unfold latestAsset at h
  split at h
  · simp at h
  · next releases hreleases =>
    unfold latestDataRelease at h
    cases hscan : releases.foldlM Scan.consider ⟨none, []⟩ with
    | error e => simp [hscan, bind, Except.bind, Except.map] at h
    | ok scan =>
      have hstart : (⟨none, []⟩ : Scan).Sound releases := fun v r hbest => by simp at hbest
      have hsound : scan.Sound releases := hstart.foldlM (List.Subset.refl _) hscan
      cases hbest : scan.best with
      | none => simp [hscan, hbest, bind, Except.bind, Except.map, pure, Except.pure] at h
      | some best =>
        obtain ⟨v, release⟩ := best
        obtain ⟨hmem, tag', htag', hv⟩ := hsound v release hbest
        simp only [hscan, hbest, bind, Except.bind, Except.map, Option.map_some, htag'] at h
        split at h
        · next t u ht hu =>
          simp only [pure, Except.pure, Except.ok.injEq, Option.some.injEq, Prod.mk.injEq] at h
          obtain ⟨rfl, -⟩ := h
          obtain rfl := Option.some.inj ht
          exact ⟨releases, release, v, hreleases, hmem, htag', hv⟩
        · simp [pure, Except.pure] at h

end PrtsMcp.Discovery
