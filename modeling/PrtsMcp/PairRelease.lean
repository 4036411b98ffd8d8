import PrtsMcp.PairRuns

/-!
# A pair is one release

Where every extraction records a commit sha that tells the release of its zip, the two trees of a
pair come from one release, over every run.
-/
namespace PrtsMcp.PairSync

open Process SyncTypes FileSteps ReleaseSync GamedataStore ReleaseTags

/-- The two trees of a pair that is not the legacy one come from one release. -/
def OneRelease (d : Store) : Prop :=
  ∀ m ∈ d.activatedPair, m.commitSha ≠ "legacy" →
    ((d.archive .excel).dir? m.excelRoot).map Dir.release =
      ((d.archive .levels).dir? m.levelsRoot).map Dir.release

instance : DecidablePred OneRelease := fun d =>
  inferInstanceAs (Decidable (∀ m ∈ d.activatedPair, m.commitSha ≠ "legacy" →
    ((d.archive .excel).dir? m.excelRoot).map Dir.release =
      ((d.archive .levels).dir? m.levelsRoot).map Dir.release))

/-- The commit sha is that of the zip's own data release; or it is `unknown` and the zip is from
the one release `blind`; or it is the digest of a zip whose release is told by its digest. -/
def TellsRelease (blind : String) (owner : String → String) (label : String) (z : ZipFile) : Prop :=
  (isDataTag z.release = true ∧ label = tagSuffix z.release) ∨
    (label = "unknown" ∧ z.release = blind) ∨
    (label = "local-" ++ z.sha256 ∧ z.release = owner z.sha256)

instance (blind : String) (owner : String → String) (label : String) (z : ZipFile) :
    Decidable (TellsRelease blind owner label z) :=
  inferInstanceAs (Decidable (_ ∨ _ ∨ _))

/-- The condition on an extraction: its commit sha tells the release of the zip it opens. -/
def ExtractsTold (blind : String) (owner : String → String) (v : Visit World Op Turn) : Prop :=
  match v.op with
  | .extract side label =>
    match (v.before.release side).zip with
    | .file z => TellsRelease blind owner label z
    | _ => True
  | _ => True

instance (blind : String) (owner : String → String) : DecidablePred (ExtractsTold blind owner) :=
  fun v => by
    unfold ExtractsTold
    split
    · split <;> infer_instance
    · infer_instance

theorem extracts_of_told {blind : String} {owner : String → String} {v : Visit World Op Turn}
    (h : ExtractsTold blind owner v) :
    Extracts (fun _ label z => TellsRelease blind owner label z) v := by
  intro side label z hop hzip
  simpa [ExtractsTold, hop, hzip] using h

theorem parseReleaseSuffix_local (digest : String) :
    parseReleaseSuffix ("local-" ++ digest) = none := by
  refine Option.eq_none_iff_forall_ne_some.mpr fun v hv => ?_
  have hhead := fixedWidthHead_of_parseReleaseSuffix hv
  rw [String.toList_append, show "local-".toList = 'l' :: "ocal-".toList from by decide,
    List.cons_append] at hhead
  exact absurd (isDigit_of_fixedWidthHead hhead) (by decide)

theorem local_ne_unknown (digest : String) : "local-" ++ digest ≠ "unknown" := by
  intro h
  have := congrArg (fun s => s.toList.head?) h
  rw [String.toList_append, show "local-".toList = 'l' :: "ocal-".toList from by decide,
    List.cons_append, List.head?_cons] at this
  exact absurd this (by decide)

/-- One commit sha tells one release. -/
theorem TellsRelease.unique {blind : String} {owner : String → String} {label : String}
    {z z' : ZipFile} (h : TellsRelease blind owner label z)
    (h' : TellsRelease blind owner label z') : z.release = z'.release := by
  have hparse : ∀ {tag}, isDataTag tag = true → parseReleaseSuffix (tagSuffix tag) ≠ none :=
    fun htag hnone => by
      obtain ⟨v, hv⟩ := parseReleaseSuffix_of_isDataTag htag
      simp [hv] at hnone
  have hunknown : parseReleaseSuffix "unknown" = none := by decide +kernel
  rcases h with ⟨htag, hl⟩ | ⟨hl, hz⟩ | ⟨hl, hz⟩ <;>
    rcases h' with ⟨htag', hl'⟩ | ⟨hl', hz'⟩ | ⟨hl', hz'⟩
  · exact tagSuffix_injective htag htag' (hl.symm.trans hl')
  · exact (hparse htag (by rw [← hl, hl', hunknown])).elim
  · exact (hparse htag (by rw [← hl, hl', parseReleaseSuffix_local])).elim
  · exact (hparse htag' (by rw [← hl', hl, hunknown])).elim
  · exact hz.trans hz'.symm
  · exact (local_ne_unknown _ (hl'.symm.trans hl)).elim
  · exact (hparse htag' (by rw [← hl', hl, parseReleaseSuffix_local])).elim
  · exact (local_ne_unknown _ (hl.symm.trans hl')).elim
  · have hsha : z.sha256 = z'.sha256 := by
      have := congrArg String.toList (hl.symm.trans hl')
      rw [String.toList_append, String.toList_append] at this
      exact String.toList_inj.mp (List.append_cancel_left this)
    rw [hz, hz', hsha]

/-- The activated trees that a pointer names were extracted under its commit sha. -/
def NamesLabel (d : Store) (side : Side) (ref : DirRef) (sha : String) : Prop :=
  ∃ g, ref = .tree g ∧ ∀ t ∈ (d.archive side).trees, t.generation = g → t.staging = false →
    t.dir.label = sha

/-- Every tree has its release told by its label, and every pointer names trees of its label. -/
structure Told (K : String → String → Prop) (d : Store) : Prop where
  trees : ∀ side, ∀ t ∈ (d.archive side).trees, K t.dir.label t.dir.release
  records : ∀ side m, (d.archive side).extractMeta = some m →
    NamesLabel d side m.dataRoot m.commitSha
  pair : ∀ m, d.pair = some m → m.commitSha ≠ "legacy" → ∀ side,
    NamesLabel d side (m.root side) m.commitSha

section Step

variable {specs : Specs} {reads : Prop} {L : Side → String → ZipFile → Prop} {op : Op}
  {now fresh : ℕ} {d d' : Store} {K : String → String → Prop}

/-- A named tree keeps its label: nothing is activated under its number. -/
theorem NamesLabel.change (hc : Change specs reads L op now fresh d d') {side : Side} {ref : DirRef}
    {sha : String} (h : NamesLabel d side ref sha)
    (hnamed : ∀ g, ref = .tree g → ¬ Unnamed d side g) : NamesLabel d' side ref sha := by
  obtain ⟨g, rfl, hlabel⟩ := h
  refine ⟨g, rfl, fun t ht hg hs => ?_⟩
  rcases hc.descends side t ht with ⟨u, hu, hug, hul, -, hstaging, -⟩ | ⟨hs', -⟩
  · rcases hstaging with heq | ⟨-, hun⟩
    · exact hul ▸ hlabel u hu (hug.trans hg) (heq.trans hs)
    · exact (hun (hg ▸ .inl (hnamed g rfl))).elim
  · exact absurd (hs'.symm.trans hs) (by decide)

theorem Told.change (hc : Change specs reads L op now fresh d d')
    (hL : ∀ side label z, L side label z → K label z.release) (h : Told K d) : Told K d' where
  trees side t ht := by
    rcases hc.descends side t ht with ⟨u, hu, -, hul, hur, -⟩ | ⟨-, -, z, hz, hrelease⟩
    · exact hul ▸ hur ▸ h.trees side u hu
    · exact hrelease ▸ hL side _ z hz
  records side m hm := by
    rcases hc.extractMeta side with heq | ⟨m', g, hm', hg, htrees, hnew⟩
    · rw [heq] at hm
      exact (h.records side m hm).change hc fun g hg hun => hun.record m hm hg
    · obtain rfl := Option.some.inj (hm.symm.trans hm')
      exact ⟨g, hg, fun t ht htg _ => (hnew.trees t (htrees ▸ ht) htg).1⟩
  pair m hm hlegacy side := by
    rw [hc.pair_eq] at hm
    exact (h.pair m hm hlegacy side).change hc fun g hg hun => hun.pair m hm hg

theorem Told.publishes (hp : Publishes specs d d') (h : Told K d) : Told K d' := by
  obtain ⟨m, rfl, hm, -⟩ := hp
  refine ⟨h.trees, h.records, fun m' hm' hlegacy side => ?_⟩
  obtain rfl := Option.some.inj hm'
  rcases hm with hfrom | rfl
  · obtain ⟨r, hr, hroot, hsha, -⟩ := hfrom.root side
    obtain ⟨g, hg, hlabel⟩ := h.records side r hr
    exact ⟨g, hroot ▸ hg, fun t ht => hsha ▸ hlabel t ht⟩
  · exact absurd rfl hlegacy

theorem NamesLabel.release (hK : Told K d) {side : Side} {ref : DirRef} {sha : String} {x : Dir}
    (h : NamesLabel d side ref sha) (hx : (d.archive side).dir? ref = some x) :
    K sha x.release := by
  obtain ⟨g, rfl, hlabel⟩ := h
  obtain ⟨t, ht, hg, hs, rfl⟩ := tree_of_dir? hx
  exact hlabel t ht hg hs ▸ hK.trees side t ht

theorem Told.oneRelease (h : Told K d) (hK : ∀ l r r', K l r → K l r' → r = r') :
    OneRelease d := by
  intro m hm hlegacy
  obtain ⟨hpair, hresolves⟩ := Option.filter_eq_some_iff.mp hm
  simp only [decide_eq_true_eq] at hresolves
  obtain ⟨-, hexcel, hlevels⟩ := hresolves
  obtain ⟨x, hx⟩ := Option.isSome_iff_exists.mp hexcel
  obtain ⟨y, hy⟩ := Option.isSome_iff_exists.mp hlevels
  have hrelease := hK m.commitSha x.release y.release ((h.pair m hpair hlegacy .excel).release h hx)
    ((h.pair m hpair hlegacy .levels).release h hy)
  rw [hx, hy, Option.map_some, Option.map_some, hrelease]

end Step

theorem sound_emptyWorld (machine : Machine) : Sound (emptyWorld machine) :=
  ⟨fun _ _ ht => by simp [emptyWorld] at ht, fun _ _ _ hm => by simp [emptyWorld] at hm,
    fun _ _ _ hm => by simp [emptyWorld] at hm⟩

theorem told_emptyWorld (machine : Machine) (K : String → String → Prop) :
    Told K (emptyWorld machine).store :=
  ⟨fun _ _ ht => by simp [emptyWorld] at ht, fun _ _ hm => by simp [emptyWorld] at hm,
    fun _ hm => by simp [emptyWorld] at hm⟩

/-- In every run from an empty root in which each extraction records a commit sha that tells the
release of its zip, the pair is one release in every state. -/
theorem states_oneRelease (specs : Specs) (blind : String) (owner : String → String)
    (calls : List (Call × List Turn)) (machine : Machine)
    (h : ∀ v ∈ visits specs calls (emptyWorld machine), ExtractsTold blind owner v) :
    ∀ w ∈ states specs calls (emptyWorld machine), OneRelease w.store := by
  let K : String → String → Prop := fun label release =>
    ∃ z, TellsRelease blind owner label z ∧ z.release = release
  have htold : ∀ w ∈ states specs calls (emptyWorld machine), Told K w.store :=
    states_invariant False (fun _ label z => TellsRelease blind owner label z)
      (I := fun w => Told K w.store) (fun hf => hf.elim) (fun _ hv => extracts_of_told hv)
      (fun v _ hmoves _ hb => hmoves.elim
        (fun h => hb.change h.2 fun _ _ z hz => ⟨z, hz, rfl⟩) fun h => hb.publishes h.2)
      (sound_emptyWorld machine) (told_emptyWorld machine K) h
  intro w hw
  refine (htold w hw).oneRelease fun label r r' hr hr' => ?_
  obtain ⟨z, hz, rfl⟩ := hr
  obtain ⟨z', hz', rfl⟩ := hr'
  exact hz.unique hz'

def releaseList (tag : String) : Reply :=
  .json (.arr [.obj [("tag_name", .str tag), ("assets", .arr (["e.zip", "l.zip"].map fun name =>
    .obj [("name", .str name), ("browser_download_url", .str "u")]))]])

/-- Both archives of one discovered release. -/
def discoveredRun : List (Call × List Turn) :=
  [(.pair ["m"] true, turnsWith 90 [(17, releaseList "data-26-09-03-04-06-00_ed95a2"),
    (19, zipBody "" "e" "1"), (21, noManifest), (52, releaseList "data-26-09-03-04-06-00_ed95a2"),
    (54, zipBody "" "l" "2"), (56, noManifest)])]

theorem states_oneRelease_discoveredRun :
    (∀ v ∈ visits exampleSpecs discoveredRun (emptyWorld ⟨0, 0, []⟩), ExtractsTold "" id v) ∧
      ∀ w ∈ states exampleSpecs discoveredRun (emptyWorld ⟨0, 0, []⟩), OneRelease w.store := by
  have htold : ∀ v ∈ visits exampleSpecs discoveredRun (emptyWorld ⟨0, 0, []⟩),
      ExtractsTold "" id v := by
    decide +kernel
  exact ⟨htold, states_oneRelease exampleSpecs "" id discoveredRun ⟨0, 0, []⟩ htold⟩

/-- No discovery, and a release published between the two blind downloads. -/
def blindRun : List (Call × List Turn) :=
  [(.pair ["m"] true, turnsWith 90 [(19, zipBody "data-26-09-02-04-06-00_ed95a2" "e" "1"),
    (21, noManifest), (54, zipBody "data-26-09-03-04-06-00_ed95a2" "l" "2"), (56, noManifest)])]

theorem states_not_oneRelease :
    ¬ ∀ w ∈ states exampleSpecs blindRun (emptyWorld ⟨0, 0, []⟩), OneRelease w.store := by
  decide +kernel

end PrtsMcp.PairSync
