import PrtsMcp.ReleaseSyncOrder

/-!
# Data releases

The order of data releases, seen from both sides: the tags of a release list, of which the newest
is picked, and the suffixes that the sync records of these tags.
-/
namespace PrtsMcp.ReleaseTags

theorem length_of_splitRevisionAt {rest : List Char} {pos : ℕ} {split : List Char × ℕ}
    (h : splitRevisionAt rest pos = some split) : split.1.length < rest.length := by
  dsimp only [splitRevisionAt] at h
  split at h
  · next hsplit =>
    obtain rfl := Option.some.inj h
    have hrev : 0 < (rest.drop (pos + 2)).length := List.length_pos_iff.mpr hsplit.2.2.1
    rw [List.length_drop] at hrev
    rw [List.length_take]
    omega
  · simp at h

/-- A split revision takes at least `-r` and one digit off the version id. -/
theorem length_of_rsplitRevision {rest : List Char} {split : List Char × ℕ}
    (h : rsplitRevision rest = some split) : split.1.length < rest.length := by
  suffices hbelow : ∀ pos, rsplitRevisionBelow rest pos = some split →
      split.1.length < rest.length from hbelow _ h
  intro pos
  induction pos with
  | zero => simp [rsplitRevisionBelow]
  | succ pos ih =>
    rw [rsplitRevisionBelow]
    cases hsplit : splitRevisionAt rest pos with
    | none => exact ih
    | some found =>
      intro hfound
      obtain rfl := Option.some.inj hfound
      exact length_of_splitRevisionAt hsplit

/-- Tags of the documented forms: `data-` with a version id, or `datarev-` with a suffix that
begins like a version id. Their suffixes are told apart from the sentinels of the cache. -/
def isRecorded (tag : String) : Bool :=
  match datarevTagPrefix.isPrefixOf? tag.toList with
  | some rest => fixedWidthHead rest
  | none => (tagPrefix.isPrefixOf? tag.toList).any isVersionId

theorem parseReleaseSuffix_revised {rest : List Char} {split : List Char × ℕ}
    (h : rsplitRevision rest = some split) :
    parseReleaseSuffix (String.ofList rest) = some (versionOf split) ↔
      fixedWidthHead rest = true := by
  constructor
  · intro hparse
    have hhead := fixedWidthHead_of_parseReleaseSuffix hparse
    rwa [String.toList_ofList] at hhead
  · intro hhead
    simp only [parseReleaseSuffix, String.toList_ofList, hhead, if_true, h]

theorem parseReleaseSuffix_unrevised (vid : List Char) :
    parseReleaseSuffix (String.ofList vid) = some (versionOf (vid, 1)) ↔
      isVersionId vid = true := by
  constructor
  · intro hparse
    unfold parseReleaseSuffix at hparse
    simp only [String.toList_ofList] at hparse
    split at hparse
    · next split hsplit =>
      -- a suffix that splits reads back as a shorter version id than the one of the tag
      have hrevised : rsplitRevision vid = some split := by
        by_cases hhead : fixedWidthHead vid = true
        · simpa [hhead] using hsplit
        · simp [hhead] at hsplit
      have hlength := length_of_rsplitRevision hrevised
      have hvid : split.1 = vid := by
        have := congrArg (fun v => v.versionId.toList) (Option.some.inj hparse)
        simpa [versionOf] using this
      rw [hvid] at hlength
      exact absurd hlength (lt_irrefl _)
    · by_contra hid
      simp [hid] at hparse
  · intro hid
    have hnone : (if fixedWidthHead vid then rsplitRevision vid else none) = none := by
      rw [rsplitRevision_versionId hid, ite_self]
    simp only [parseReleaseSuffix, String.toList_ofList, hnone, hid, if_true]

/-- The recorded suffix of a tag parses as the tag does exactly for the documented forms. -/
theorem parseReleaseSuffix_tagSuffix_iff {tag : String} {v : DataTagVersion}
    (h : parseDataTag tag = some v) :
    parseReleaseSuffix (tagSuffix tag) = some v ↔ isRecorded tag = true := by
  unfold parseDataTag at h
  unfold tagSuffix isRecorded
  cases hrev : datarevTagPrefix.isPrefixOf? tag.toList with
  | some rest =>
    rw [hrev] at h
    obtain ⟨split, hsplit, rfl⟩ := Option.map_eq_some_iff.mp h
    exact parseReleaseSuffix_revised hsplit
  | none =>
    rw [hrev] at h
    obtain ⟨vid, hvid, rfl⟩ := Option.map_eq_some_iff.mp h
    simpa only [hvid, Option.any_some] using parseReleaseSuffix_unrevised vid

end PrtsMcp.ReleaseTags

namespace PrtsMcp.ReleaseSync

open ReleaseTags

/-- For tags of the documented forms, the suffix parses to the identity of the tag and the record
of `a` is up to date exactly when `b` is not newer; any other suffix loses its identity. -/
theorem releaseUpToDate_tagSuffix (a b : String) (v w : DataTagVersion)
    (hv : parseDataTag a = some v) (hw : parseDataTag b = some w) :
    (parseReleaseSuffix (tagSuffix a) = some v ↔ isRecorded a = true) ∧
      (isRecorded a = true → isRecorded b = true →
        (releaseUpToDate (tagSuffix a) (tagSuffix b) = true ↔ isNewer v w = false)) := by
  refine ⟨parseReleaseSuffix_tagSuffix_iff hv, fun ha hb => ?_⟩
  have hsuffixA := (parseReleaseSuffix_tagSuffix_iff hv).mpr ha
  have hsuffixB := (parseReleaseSuffix_tagSuffix_iff hw).mpr hb
  rw [releaseUpToDate_iff hsuffixA hsuffixB, ← Bool.not_eq_true, isNewer_iff, not_lt]

theorem releaseUpToDate_tagSuffix_revised :
    (parseReleaseSuffix (tagSuffix "datarev-26-09-03-04-06-00_ed95a2-r10") =
        some ⟨"26-09-03-04-06-00_ed95a2", 10⟩ ↔
      isRecorded "datarev-26-09-03-04-06-00_ed95a2-r10" = true) ∧
    (isRecorded "datarev-26-09-03-04-06-00_ed95a2-r10" = true →
      isRecorded "data-26-09-03-04-06-00_ed95a2" = true →
      (releaseUpToDate (tagSuffix "datarev-26-09-03-04-06-00_ed95a2-r10")
          (tagSuffix "data-26-09-03-04-06-00_ed95a2") = true ↔
        isNewer ⟨"26-09-03-04-06-00_ed95a2", 10⟩ ⟨"26-09-03-04-06-00_ed95a2", 1⟩ = false)) :=
  releaseUpToDate_tagSuffix _ _ _ _ (by decide +kernel) (by decide +kernel)

/-- `data-x` and `data-y` are data tags, but their suffixes are compared as plain strings. -/
theorem releaseUpToDate_unrecorded :
    parseDataTag "data-y" = some ⟨"y", 1⟩ ∧ parseDataTag "data-x" = some ⟨"x", 1⟩ ∧
      parseReleaseSuffix (tagSuffix "data-y") = none ∧ isNewer ⟨"y", 1⟩ ⟨"x", 1⟩ = false ∧
      releaseUpToDate (tagSuffix "data-y") (tagSuffix "data-x") = false := by
  decide +kernel

end PrtsMcp.ReleaseSync

namespace PrtsMcp.Discovery

open ReleaseTags SyncTypes

/-- The identity a published release claims, where its tag is one of a data release. -/
def candidateOf (release : Json) : Option (DataTagVersion × Json) :=
  ((publishedTag release).bind parseDataTag).map fun v => (v, release)

/-- The published data releases of a list, each with its identity. -/
def candidates (releases : List Json) : List (DataTagVersion × Json) :=
  releases.filterMap candidateOf

def identities (releases : List Json) : List DataTagVersion := (candidates releases).map Prod.fst

/-- A member none of the others is newer than. -/
def IsNewest (found : List (DataTagVersion × Json)) (best : DataTagVersion × Json) : Prop :=
  best ∈ found ∧ ∀ other ∈ found, other.1.identity ≤ best.1.identity

/-- What the scan holds after it met `found`, all of different identities. -/
structure Scan.Holds (found : List (DataTagVersion × Json)) (scan : Scan) : Prop where
  seen : ∀ v, v ∈ scan.seen ↔ v ∈ found.map Prod.fst
  nodup : (found.map Prod.fst).Nodup
  none : scan.best = none → found = []
  best : ∀ best, scan.best = some best → IsNewest found best

theorem Scan.Holds.start : (⟨Option.none, []⟩ : Scan).Holds [] where
  seen := by simp
  nodup := by simp
  none := fun _ => rfl
  best := by simp

theorem IsNewest.append {found : List (DataTagVersion × Json)} {best : DataTagVersion × Json}
    (h : IsNewest found best) (next : DataTagVersion × Json) :
    IsNewest (found ++ [next]) (if isNewer best.1 next.1 then next else best) := by
  obtain ⟨hmem, hmax⟩ := h
  by_cases hnewer : isNewer best.1 next.1 = true
  · have hlt := isNewer_iff.mp hnewer
    rw [if_pos hnewer]
    refine ⟨by simp, fun other hother => ?_⟩
    rcases List.mem_append.mp hother with hfound | hnext
    · exact (hmax other hfound).trans hlt.le
    · rw [List.mem_singleton.mp hnext]
  · have hle := not_lt.mp (mt isNewer_iff.mpr hnewer)
    rw [if_neg hnewer]
    refine ⟨List.mem_append_left _ hmem, fun other hother => ?_⟩
    rcases List.mem_append.mp hother with hfound | hnext
    · exact hmax other hfound
    · rw [List.mem_singleton.mp hnext]
      exact hle

/-- One release of the list: skipped, refused for its identity, or compared with the best. -/
theorem Scan.Holds.consider {found : List (DataTagVersion × Json)} {scan : Scan}
    (h : scan.Holds found) (release : Json) :
    (candidateOf release = Option.none ∧ scan.consider release = .ok scan) ∨
      ∃ next, candidateOf release = some next ∧
        ((next.1 ∈ found.map Prod.fst ∧
            scan.consider release = .error .duplicateReleaseIdentity) ∨
          ∃ scan', scan.consider release = .ok scan' ∧ scan'.Holds (found ++ [next])) := by
  unfold Scan.consider candidateOf
  cases hparsed : (publishedTag release).bind parseDataTag with
  | none => exact .inl ⟨rfl, rfl⟩
  | some parsed =>
    refine .inr ⟨(parsed, release), rfl, ?_⟩
    by_cases hseen : parsed ∈ scan.seen
    · exact .inl ⟨(h.seen parsed).mp hseen, if_pos hseen⟩
    · refine .inr ⟨_, if_neg hseen, ?_⟩
      have hfresh : parsed ∉ found.map Prod.fst := mt (h.seen parsed).mpr hseen
      constructor
      · intro v
        rw [List.mem_cons, h.seen v, List.map_append, List.mem_append, or_comm]
        simp
      · rw [List.map_append, List.nodup_append]
        exact ⟨h.nodup, by simp, fun v hv w hw hvw => hfresh (by simp_all)⟩
      · intro hnone
        cases hbest : scan.best with
        | none => simp [hbest] at hnone
        | some best => by_cases hnewer : isNewer best.1 parsed <;> simp [hbest, hnewer] at hnone
      · intro best hbest'
        cases hbest : scan.best with
        | none =>
          obtain rfl := h.none hbest
          obtain rfl : (parsed, release) = best := by simpa [hbest] using hbest'
          exact ⟨by simp, by simp⟩
        | some old =>
          have happend := (h.best old hbest).append (parsed, release)
          by_cases hnewer : isNewer old.1 parsed = true
          · obtain rfl : (parsed, release) = best := by simpa [hbest, hnewer] using hbest'
            simpa [hnewer] using happend
          · obtain rfl : old = best := by simpa [hbest, hnewer] using hbest'
            simpa [hnewer] using happend

/-- The rest of the list: the scan ends with all candidates, or refuses two of one identity. -/
theorem Scan.Holds.foldlM {found : List (DataTagVersion × Json)} {scan : Scan}
    (h : scan.Holds found) (rest : List Json) :
    (rest.foldlM Scan.consider scan = .error .duplicateReleaseIdentity ∧
        ¬((found ++ candidates rest).map Prod.fst).Nodup) ∨
      ∃ scan', rest.foldlM Scan.consider scan = .ok scan' ∧
        scan'.Holds (found ++ candidates rest) := by
  induction rest generalizing found scan with
  | nil => exact .inr ⟨scan, rfl, by simpa [candidates] using h⟩
  | cons release rest ih =>
    rw [List.foldlM_cons, candidates, List.filterMap_cons]
    rcases h.consider release with ⟨hskip, hstep⟩ | ⟨next, hnext, hmet | ⟨scan', hstep, hscan'⟩⟩
    · rw [hskip, hstep]
      exact ih h
    · rw [hnext, hmet.2]
      refine .inl ⟨rfl, fun hnodup => ?_⟩
      rw [List.map_append, List.nodup_append] at hnodup
      exact hnodup.2.2 _ hmet.1 _ (by simp) rfl
    · have hrest := ih hscan'
      rw [List.append_assoc] at hrest
      rw [hnext, hstep]
      exact hrest

theorem eq_of_isNewest {found : List (DataTagVersion × Json)} (h : (found.map Prod.fst).Nodup)
    {a b : DataTagVersion × Json} (ha : IsNewest found a) (hb : IsNewest found b) : a = b := by
  have hid : a.1.identity = b.1.identity := le_antisymm (hb.2 a ha.1) (ha.2 b hb.1)
  have hfst : a.1 = b.1 := by
    have hpair := Prod.mk.inj (toLex.injective hid)
    cases hav : a.1
    cases hbv : b.1
    simp_all
  exact List.inj_on_of_nodup_map h ha.1 hb.1 hfst

/-- The scan fails exactly on a shared identity, and else returns the newest candidate. -/
theorem latestDataRelease_iff (releases : List Json) :
    (∀ e, latestDataRelease releases = .error e ↔
        e = .duplicateReleaseIdentity ∧ ¬(identities releases).Nodup) ∧
      (latestDataRelease releases = .ok none ↔ candidates releases = []) ∧
      ∀ release, latestDataRelease releases = .ok (some release) ↔
        (identities releases).Nodup ∧ ∃ v, IsNewest (candidates releases) (v, release) := by
  unfold latestDataRelease identities
  rcases Scan.Holds.start.foldlM releases with ⟨hfold, hclash⟩ | ⟨scan, hfold, hscan⟩
  · rw [List.nil_append] at hclash
    rw [hfold]
    refine ⟨fun e => ?_, ?_, fun release => ?_⟩
    · simp [Except.map, hclash, eq_comm]
    · refine ⟨fun h => by simp [Except.map] at h, fun hnil => absurd ?_ hclash⟩
      simp [hnil]
    · simp [Except.map, hclash]
  · rw [List.nil_append] at hscan
    rw [hfold]
    refine ⟨fun e => ?_, ?_, fun release => ?_⟩
    · simp [Except.map, hscan.nodup]
    · simp only [Except.map, Except.ok.injEq, Option.map_eq_none_iff]
      refine ⟨hscan.none, fun hnil => Option.eq_none_iff_forall_ne_some.mpr fun best hbest => ?_⟩
      have hmem := (hscan.best best hbest).1
      simp [hnil] at hmem
    · simp only [Except.map, Except.ok.injEq, Option.map_eq_some_iff]
      constructor
      · rintro ⟨best, hbest, rfl⟩
        exact ⟨hscan.nodup, best.1, hscan.best best hbest⟩
      · rintro ⟨-, v, hv⟩
        cases hbest : scan.best with
        | none =>
          have hmem := hv.1
          simp [hscan.none hbest] at hmem
        | some best =>
          exact ⟨best, rfl, by rw [eq_of_isNewest hscan.nodup (hscan.best best hbest) hv]⟩

theorem isNewest_perm {found found' : List (DataTagVersion × Json)} (h : found.Perm found')
    (best : DataTagVersion × Json) : IsNewest found best ↔ IsNewest found' best := by
  simp only [IsNewest, h.mem_iff]

/-- The published data release of the greatest identity is returned; two of one identity are the
only failure; and the order of the list does not matter. -/
theorem latestDataRelease_newest (releases : List Json) :
    (∀ e, latestDataRelease releases = .error e ↔
        e = .duplicateReleaseIdentity ∧ ¬(identities releases).Nodup) ∧
      (latestDataRelease releases = .ok none ↔ candidates releases = []) ∧
      (∀ release, latestDataRelease releases = .ok (some release) ↔
        (identities releases).Nodup ∧ ∃ v, IsNewest (candidates releases) (v, release)) ∧
      ∀ others : List Json, others.Perm releases →
        latestDataRelease others = latestDataRelease releases := by
  obtain ⟨herror, hnone, hsome⟩ := latestDataRelease_iff releases
  refine ⟨herror, hnone, hsome, fun others hperm => ?_⟩
  obtain ⟨herror', hnone', hsome'⟩ := latestDataRelease_iff others
  have hcandidates : (candidates others).Perm (candidates releases) := hperm.filterMap _
  have hidentities : (identities others).Perm (identities releases) := hcandidates.map _
  cases hresult : latestDataRelease releases with
  | error e =>
    obtain ⟨rfl, hclash⟩ := (herror e).mp hresult
    exact (herror' _).mpr ⟨rfl, mt hidentities.nodup_iff.mp hclash⟩
  | ok latest =>
    cases latest with
    | none =>
      have hnil := hnone.mp hresult
      rw [hnil] at hcandidates
      exact hnone'.mpr hcandidates.eq_nil
    | some release =>
      obtain ⟨hnodup, v, hv⟩ := (hsome release).mp hresult
      exact (hsome' release).mpr ⟨hidentities.nodup_iff.mpr hnodup, v,
        (isNewest_perm hcandidates _).mpr hv⟩

/-- The data releases of a list that are no drafts. -/
def nonDrafts (releases : List Json) : List Json :=
  releases.filter fun release => !(release.get "draft").elim false Json.isTrue &&
    ((release.getStr "tag_name").bind parseDataTag).isSome

def onlyPrerelease : List Json :=
  [.obj [("tag_name", .str "data-26-09-03-04-06-00_ed95a2"), ("draft", .bool false),
    ("prerelease", .bool true)]]

/-- A prerelease that is no draft is passed over as well. -/
theorem latestDataRelease_onlyPrerelease :
    (nonDrafts onlyPrerelease).length = 1 ∧
      latestDataRelease onlyPrerelease = .ok none := by
  exact ⟨by decide +kernel, rfl⟩

end PrtsMcp.Discovery
