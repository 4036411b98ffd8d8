import PrtsMcp.PairSync

/-!
# What one step does to the game data

The steps of an archive sync change the store in six ways, and the pair sync publishes pairs. Each
change comes with the guard under which the code takes it, as far as it can be read off the store
at that moment.
-/
namespace PrtsMcp.PairSync

open SyncTypes FileSteps GamedataStore

/-- Every generation in use is below the next one. -/
structure Numbered (d : Store) (fresh : ℕ) : Prop where
  trees : ∀ side, ∀ t ∈ (d.archive side).trees, t.generation < fresh
  records : ∀ side m g, (d.archive side).extractMeta = some m → m.dataRoot = .tree g → g < fresh
  pair : ∀ side m g, d.pair = some m → m.root side = .tree g → g < fresh

instance (d : Store) (fresh : ℕ) : Decidable (Numbered d fresh) :=
  decidable_of_iff (∀ side ∈ [Side.excel, Side.levels],
      (∀ t ∈ (d.archive side).trees, t.generation < fresh) ∧
      (∀ m ∈ (d.archive side).extractMeta, ∀ g ∈ m.dataRoot.number, g < fresh) ∧
      ∀ m ∈ d.pair, ∀ g ∈ (m.root side).number, g < fresh) <| by
    have hside : ∀ side, side ∈ [Side.excel, Side.levels] := fun side => by cases side <;> simp
    constructor
    · intro h
      exact ⟨fun side => (h side (hside side)).1,
        fun side m g hm hg => (h side (hside side)).2.1 m hm g (hg ▸ rfl),
        fun side m g hm hg => (h side (hside side)).2.2 m hm g (hg ▸ rfl)⟩
    · intro h side _
      refine ⟨h.trees side, fun m hm g hg => ?_, fun m hm g hg => ?_⟩
      · cases hroot : m.dataRoot with
        | tree g' =>
          rw [hroot] at hg
          exact Option.some.inj hg ▸ h.records side m g' hm hroot
        | root | elsewhere => simp [hroot, DirRef.number] at hg
      · cases hroot : m.root side with
        | tree g' =>
          rw [hroot] at hg
          exact Option.some.inj hg ▸ h.pair side m g' hm hroot
        | root | elsewhere => simp [hroot, DirRef.number] at hg

/-- No pointer names the tree. -/
structure Unnamed (d : Store) (side : Side) (g : ℕ) : Prop where
  record : ∀ m, (d.archive side).extractMeta = some m → m.dataRoot ≠ .tree g
  pair : ∀ m, d.pair = some m → m.root side ≠ .tree g

/-- Nothing is activated under the number: a pointer names it, or its tree stands. -/
def Settled (d : Store) (side : Side) (g : ℕ) : Prop :=
  ¬ Unnamed d side g ∨ ∃ t ∈ (d.archive side).trees, t.generation = g ∧ t.staging = false

/-- The activated trees stay; a staging directory is an old one, or holds an extraction. -/
structure Restaged (L : String → ZipFile → Prop) (fresh : ℕ) (ts ts' : List Tree) : Prop where
  activated : ts'.filter (fun t => !t.staging) = ts.filter fun t => !t.staging
  staged : ∀ t ∈ ts', t.staging = true →
    (∃ u ∈ ts, u.staging = true ∧ u.generation = t.generation ∧ u.dir.label = t.dir.label ∧
      u.dir.release = t.dir.release) ∨
    (t.generation < fresh ∧ ∃ z, L t.dir.label z ∧ t.dir.release = z.release)

/-- The activated tree stands, with its label and all the required files. -/
structure Extracted (spec : ReleaseArchiveSpec) (side : Side) (g : ℕ) (label : String)
    (d : Store) : Prop where
  exists_tree : ((d.archive side).tree? g).isSome = true
  trees : ∀ t ∈ (d.archive side).trees, t.generation = g →
    t.dir.label = label ∧ t.dir.hasAll spec.requiredFiles = true

/-- The record of the tree is loaded, and the root is spelled as it resolves. -/
def Recorded (d : Store) (spec : ReleaseArchiveSpec) (side : Side) (g : ℕ) : Prop :=
  spec.localRoot.spelled = spec.localRoot.real ∧
    ∃ l, (d.archive side).loadedMeta spec = some l ∧ l.dataRoot.ref = .tree g

/-- The pair of the two records, which stand at one commit sha. -/
def FromRecords (specs : Specs) (d : Store) (m : PairMeta) : Prop :=
  ∃ a b, (d.archive .excel).loadedMeta specs.excel = some a ∧
    (d.archive .levels).loadedMeta specs.levels = some b ∧ pairOf a b = some m

instance (d : Store) (spec : ReleaseArchiveSpec) (side : Side) (g : ℕ) :
    Decidable (Recorded d spec side g) :=
  decidable_of_iff (spec.localRoot.spelled = spec.localRoot.real ∧
    ((d.archive side).loadedMeta spec).any fun l => l.dataRoot.ref = .tree g)
    (and_congr_right fun _ => by simp [Option.any_eq_true])

/-- A pair that is complete at that moment replaces the pair pointer. -/
def Publishes (specs : Specs) (d d' : Store) : Prop :=
  ∃ m, d' = { d with pair := some m } ∧ (FromRecords specs d m ∨ m = legacyPair) ∧
    d.PairComplete specs m

/-- One step of an archive sync at time `now`. `reads` says that reads of the records do not fail, and
`L` is what is known of every extraction. -/
inductive Change (specs : Specs) (reads : Prop) (L : Side → String → ZipFile → Prop) (op : Op)
    (now fresh : ℕ) : Store → Store → Prop
  | same (d : Store) : Change specs reads L op now fresh d d
  | stage (d : Store) (side : Side) (f : List Tree → List Tree)
      (h : Restaged (L side) fresh (d.archive side).trees (f (d.archive side).trees)) :
      Change specs reads L op now fresh d (d.onTrees side f)
  | activate (d : Store) (side : Side) (g : ℕ) (hnew : Unnamed d side g)
      (hfull : ∀ t ∈ (d.archive side).trees, t.generation = g →
        t.staging = true ∧ t.dir.hasAll (specs.of side).requiredFiles = true) :
      Change specs reads L op now fresh d
        (d.onTrees side (updateWhere (Tree.is g true) Tree.activated))
  | touch (d : Store) (side : Side) (g : ℕ) :
      Change specs reads L op now fresh d
        (d.onTrees side (updateWhere (Tree.is g false) (Tree.touched now)))
  | prune (d : Store) (side : Side) (g : ℕ) (staging : Bool) (cutoff : ℕ)
      (f : List Tree → List Tree) (hop : op = .prune side g staging)
      (hcutoff : cutoff ≤ now - releaseRetentionMs)
      (hkept : staging = false → reads → ¬ Recorded d (specs.of side) side g)
      (hf : f = dropWhere (Tree.expired g staging cutoff) ∨
        f = updateWhere (Tree.expired g staging cutoff) Tree.emptied) :
      Change specs reads L op now fresh d (d.onTrees side f)
  | record (d : Store) (side : Side) (m : ExtractMeta) (g : ℕ) (htree : m.dataRoot = .tree g)
      (hnew : Extracted (specs.of side) side g m.commitSha d) :
      Change specs reads L op now fresh d (d.setExtractMeta side m)

section Lemmas

variable {specs : Specs} {reads : Prop} {L : Side → String → ZipFile → Prop} {op : Op}
  {now fresh : ℕ} {d d' : Store} {side : Side}

theorem Restaged.tree? {L : String → ZipFile → Prop} {a : ArchiveDir} {ts : List Tree}
    (h : Restaged L fresh a.trees ts) (g : ℕ) :
    ({ a with trees := ts } : ArchiveDir).tree? g = a.tree? g := by
  have hfilter : ∀ us : List Tree, us.find? (fun t => t.generation = g && !t.staging) =
      (us.filter fun t => !t.staging).find? fun t => t.generation = g := fun us => by
    rw [List.find?_filter]
    exact List.find?_congr fun t _ => by simp [Bool.and_comm]
  rw [ArchiveDir.tree?, ArchiveDir.tree?, hfilter, hfilter, h.activated]

/-- An entry after a change was there before, with what it holds, or is a new staging directory.
It is activated only while its number is not settled, and its time is refreshed or kept. -/
def Descends (L : String → ZipFile → Prop) (now fresh : ℕ) (d : Store) (side : Side) (t : Tree) :
    Prop :=
  (∃ u ∈ (d.archive side).trees, u.generation = t.generation ∧ u.dir.label = t.dir.label ∧
    u.dir.release = t.dir.release ∧
    (u.staging = t.staging ∨ u.staging = true ∧ ¬ Settled d side t.generation) ∧
    (t.staging = false → t.mtime = u.mtime ∨ t.mtime = now)) ∨
  (t.staging = true ∧ t.generation < fresh ∧ ∃ z, L t.dir.label z ∧ t.dir.release = z.release)

theorem descends_self {L : String → ZipFile → Prop} {t : Tree}
    (h : t ∈ (d.archive side).trees) : Descends L now fresh d side t :=
  .inl ⟨t, h, rfl, rfl, rfl, .inl rfl, fun _ => .inl rfl⟩

theorem not_settled {g : ℕ} (hnew : Unnamed d side g)
    (hstaged : ∀ t ∈ (d.archive side).trees, t.generation = g → t.staging = true) :
    ¬ Settled d side g := by
  rintro (hnamed | ⟨t, ht, htg, hs⟩)
  · exact hnamed hnew
  · exact absurd (hs.symm.trans (hstaged t ht htg)) (by decide)

theorem Change.descends (h : Change specs reads L op now fresh d d') :
    ∀ side, ∀ t ∈ (d'.archive side).trees, Descends (L side) now fresh d side t := by
  intro other t ht
  cases h with
  | same => exact descends_self ht
  | record side m g htree =>
    by_cases hside : other = side
    · subst hside
      rw [archive_setExtractMeta_self] at ht
      exact descends_self ht
    · rw [archive_setExtractMeta_of_ne hside] at ht
      exact descends_self ht
  | stage side f hf =>
    by_cases hside : other = side
    · subst hside
      rw [archive_onTrees_self] at ht
      cases hs : t.staging with
      | true =>
        rcases hf.staged t ht hs with ⟨u, hu, hus, hug, hul, hur⟩ | ⟨hlt, hz⟩
        · exact .inl ⟨u, hu, hug, hul, hur, .inl (hus.trans hs.symm),
            fun hs' => absurd (hs.symm.trans hs') (by decide)⟩
        · exact .inr ⟨hs, hlt, hz⟩
      | false =>
        have hmem : t ∈ (f (d.archive other).trees).filter fun t => !t.staging :=
          List.mem_filter.mpr ⟨ht, by simp [hs]⟩
        rw [hf.activated] at hmem
        exact descends_self (List.mem_filter.mp hmem).1
    · rw [archive_onTrees_of_ne hside] at ht
      exact descends_self ht
  | activate side g hnew hfull =>
    by_cases hside : other = side
    · subst hside
      rw [archive_onTrees_self] at ht
      obtain ⟨u, hu, rfl⟩ := mem_updateWhere.mp ht
      split
      · next hp =>
        obtain ⟨rfl, hs⟩ := is_iff.mp hp
        refine .inl ⟨u, hu, rfl, rfl, rfl, .inr ⟨hs, ?_⟩, fun _ => .inl rfl⟩
        exact not_settled hnew fun t ht hg => (hfull t ht hg).1
      · exact descends_self hu
    · rw [archive_onTrees_of_ne hside] at ht
      exact descends_self ht
  | touch side g =>
    by_cases hside : other = side
    · subst hside
      rw [archive_onTrees_self] at ht
      obtain ⟨u, hu, rfl⟩ := mem_updateWhere.mp ht
      refine .inl ⟨u, hu, ?_⟩
      split
      · exact ⟨rfl, rfl, rfl, .inl rfl, fun _ => .inr rfl⟩
      · exact ⟨rfl, rfl, rfl, .inl rfl, fun _ => .inl rfl⟩
    · rw [archive_onTrees_of_ne hside] at ht
      exact descends_self ht
  | prune side g staging cutoff f hop hcutoff hkept hf =>
    by_cases hside : other = side
    · subst hside
      rw [archive_onTrees_self] at ht
      rcases hf with rfl | rfl
      · exact descends_self (mem_dropWhere.mp ht).1
      · obtain ⟨u, hu, rfl⟩ := mem_updateWhere.mp ht
        refine .inl ⟨u, hu, ?_⟩
        split <;> exact ⟨rfl, rfl, rfl, .inl rfl, fun _ => .inl rfl⟩
    · rw [archive_onTrees_of_ne hside] at ht
      exact descends_self ht

/-- The pointers of a store after a change. -/
theorem Change.extractMeta (h : Change specs reads L op now fresh d d') (side : Side) :
    (d'.archive side).extractMeta = (d.archive side).extractMeta ∨
      ∃ m g, (d'.archive side).extractMeta = some m ∧ m.dataRoot = .tree g ∧
        (d'.archive side).trees = (d.archive side).trees ∧
        Extracted (specs.of side) side g m.commitSha d := by
  cases h with
  | same => exact .inl rfl
  | record other m g htree hnew =>
    by_cases hside : side = other
    · subst hside
      refine .inr ⟨m, g, ?_, htree, ?_, hnew⟩ <;> rw [archive_setExtractMeta_self]
    · exact .inl (by rw [archive_setExtractMeta_of_ne hside])
  | stage other | activate other | touch other | prune other =>
    all_goals
      by_cases hside : side = other
      · subst hside
        exact .inl (by rw [archive_onTrees_self])
      · exact .inl (by rw [archive_onTrees_of_ne hside])

theorem Change.root (h : Change specs reads L op now fresh d d') (side : Side) :
    (d'.archive side).root = (d.archive side).root ∧
      (d'.archive side).elsewhere = (d.archive side).elsewhere := by
  cases h with
  | same => exact ⟨rfl, rfl⟩
  | record other =>
    by_cases hside : side = other
    · subst hside
      rw [archive_setExtractMeta_self]
      exact ⟨rfl, rfl⟩
    · rw [archive_setExtractMeta_of_ne hside]
      exact ⟨rfl, rfl⟩
  | stage other | activate other | touch other | prune other =>
    all_goals
      by_cases hside : side = other
      · subst hside
        rw [archive_onTrees_self]
        exact ⟨rfl, rfl⟩
      · rw [archive_onTrees_of_ne hside]
        exact ⟨rfl, rfl⟩

theorem Change.pair_eq (h : Change specs reads L op now fresh d d') : d'.pair = d.pair := by
  cases h <;> rfl

theorem tree_of_dir? {a : ArchiveDir} {g : ℕ} {x : Dir} (h : a.dir? (.tree g) = some x) :
    ∃ t ∈ a.trees, t.generation = g ∧ t.staging = false ∧ t.dir = x := by
  obtain ⟨t, ht, hx⟩ := Option.map_eq_some_iff.mp h
  obtain ⟨hmem, hg, hs⟩ := tree?_eq_some ht
  exact ⟨t, hmem, hg, hs, hx⟩

/-- The trees that a reference leads to were changed at `T` or later. -/
def Young (T : ℕ) (d : Store) (side : Side) (ref : DirRef) : Prop :=
  ∀ g, ref = .tree g → ∀ t ∈ (d.archive side).trees, t.generation = g → t.staging = false →
    T ≤ t.mtime

instance (T : ℕ) (d : Store) (side : Side) (ref : DirRef) : Decidable (Young T d side ref) :=
  decidable_of_iff (∀ g ∈ ref.number, ∀ t ∈ (d.archive side).trees, t.generation = g →
    t.staging = false → T ≤ t.mtime) <| by
    cases ref <;> simp [Young, DirRef.number]

/-- A pointer names the reference, so that nothing is activated under it. -/
def Named (d : Store) (side : Side) (ref : DirRef) : Prop :=
  ∀ g, ref = .tree g → ¬ Unnamed d side g

theorem named_of_pair {m : PairMeta} (h : d.pair = some m) (side : Side) :
    Named d side (m.root side) := fun _ hg hun => hun.pair m h hg

theorem Young.settled {T : ℕ} {ref : DirRef} (hc : Change specs reads L op now fresh d d')
    (hsettled : ∀ g, ref = .tree g → Settled d side g) (hT : T ≤ now) (h : Young T d side ref) :
    Young T d' side ref := by
  intro g hg t ht htg hs
  rcases hc.descends side t ht with ⟨u, hu, hug, -, -, hstaging, hmtime⟩ | ⟨hs', -⟩
  · rcases hstaging with heq | ⟨-, hun⟩
    · rcases hmtime hs with hm | hm
      · exact hm ▸ h g hg u hu (hug.trans htg) (heq.trans hs)
      · exact hm ▸ hT
    · exact (hun (htg ▸ hsettled g hg)).elim
  · exact absurd (hs'.symm.trans hs) (by decide)

theorem Young.change {T : ℕ} {ref : DirRef} (hc : Change specs reads L op now fresh d d')
    (hnamed : Named d side ref) (hT : T ≤ now) (h : Young T d side ref) : Young T d' side ref :=
  h.settled hc (fun g hg => .inl (hnamed g hg)) hT

/-- A named tree that is missing stays missing. -/
theorem Change.dir?_none {ref : DirRef} (hc : Change specs reads L op now fresh d d')
    (hnamed : Named d side ref) (h : (d.archive side).dir? ref = none) :
    (d'.archive side).dir? ref = none := by
  cases ref with
  | root => simp [ArchiveDir.dir?] at h
  | elsewhere name => exact (congrFun (hc.root side).2 name).trans h
  | tree g =>
    rw [ArchiveDir.dir?, Option.map_eq_none_iff] at h ⊢
    by_contra hsome
    obtain ⟨t, ht, htg, hs⟩ := isSome_tree?_iff.mp (Option.isSome_iff_ne_none.mpr hsome)
    rcases hc.descends side t ht with ⟨u, hu, hug, -, -, hstaging, -⟩ | ⟨hs', -⟩
    · rcases hstaging with heq | ⟨-, hun⟩
      · have := isSome_tree?_iff.mpr ⟨u, hu, hug.trans htg, heq.trans hs⟩
        simp [h] at this
      · exact hun (htg ▸ .inl (hnamed g rfl))
    · exact absurd (hs'.symm.trans hs) (by decide)

/-- The tree is kept by its record, or is too young to be pruned. -/
def Retained (specs : Specs) (reads : Prop) (now : ℕ) (d : Store) (side : Side) (ref : DirRef) :
    Prop :=
  (reads ∧ ∃ g, ref = .tree g ∧ Recorded d (specs.of side) side g) ∨
    Young (now - releaseRetentionMs) d side ref

/-- A settled tree stays as it is while the step that would prune it finds it retained. -/
theorem Change.dir?_settled {g : ℕ} (hc : Change specs reads L op now fresh d d')
    (hsettled : Settled d side g)
    (hretained : op = .prune side g false → Retained specs reads now d side (.tree g)) :
    (d'.archive side).dir? (.tree g) = (d.archive side).dir? (.tree g) := by
  cases hc with
  | same => rfl
  | record other m g' =>
    by_cases hside : side = other
    · subst hside
      rw [archive_setExtractMeta_self]
      rfl
    · rw [archive_setExtractMeta_of_ne hside]
  | stage other f hf =>
    by_cases hside : side = other
    · subst hside
      rw [archive_onTrees_self]
      exact congrArg (Option.map Tree.dir) (hf.tree? g)
    · rw [archive_onTrees_of_ne hside]
  | activate other g' hnew hfull =>
    by_cases hside : side = other
    · subst hside
      have hne : g' ≠ g := by
        rintro rfl
        exact not_settled hnew (fun t ht hg => (hfull t ht hg).1) hsettled
      rw [archive_onTrees_self]
      simp only [ArchiveDir.dir?, ArchiveDir.tree?]
      rw [find?_updateWhere fun t hp => by simp [Tree.activated, (is_iff.mp hp).1, hne],
        Option.map_map]
      congr 1
      funext t
      rw [Function.comp_apply]
      split <;> rfl
    · rw [archive_onTrees_of_ne hside]
  | touch other g' =>
    by_cases hside : side = other
    · subst hside
      rw [archive_onTrees_self]
      simp only [ArchiveDir.dir?, ArchiveDir.tree?]
      rw [find?_updateWhere (g := Tree.touched now) fun t _ => rfl, Option.map_map]
      congr 1
      funext t
      rw [Function.comp_apply]
      split <;> rfl
    · rw [archive_onTrees_of_ne hside]
  | prune other g' staging cutoff f hop hcutoff hkept hf =>
    by_cases hside : side = other
    · subst hside
      have hlive : ∀ t ∈ (d.archive side).trees,
          (t.generation = g && !t.staging) = true → t.expired g' staging cutoff = false := by
        intro t ht hq
        simp only [Bool.and_eq_true, decide_eq_true_eq, Bool.not_eq_true'] at hq
        simp only [Tree.expired, Bool.and_eq_false_iff, decide_eq_false_iff_not]
        by_cases hp : t.is g' staging = true
        · obtain ⟨hgen, hs⟩ := is_iff.mp hp
          obtain rfl : g = g' := hq.1.symm.trans hgen
          obtain rfl : false = staging := hq.2.symm.trans hs
          rcases hretained hop with ⟨hreads, g₁, hg₁, hrec⟩ | hyoung
          · obtain rfl := DirRef.tree.inj hg₁
            exact (hkept rfl hreads hrec).elim
          · have := hyoung g rfl t ht hq.1 hq.2
            exact .inr (by omega)
        · exact .inl (Bool.eq_false_iff.mpr hp)
      rw [archive_onTrees_self]
      simp only [ArchiveDir.dir?, ArchiveDir.tree?]
      rcases hf with rfl | rfl
      · rw [find?_dropWhere hlive]
      · rw [find?_updateWhere (g := Tree.emptied) fun t _ => rfl]
        cases hfound : (d.archive side).trees.find? fun t => t.generation = g && !t.staging with
        | none => rfl
        | some t =>
          have hq := List.find?_some hfound
          simp [hlive t (List.mem_of_find?_eq_some hfound) hq]
    · rw [archive_onTrees_of_ne hside]

/-- A named tree stays as it is while a prune step finds it retained. -/
theorem Change.dir?_eq {ref : DirRef} (hc : Change specs reads L op now fresh d d')
    (hnamed : Named d side ref)
    (hretained : ∀ g staging, op = .prune side g staging → Retained specs reads now d side ref) :
    (d'.archive side).dir? ref = (d.archive side).dir? ref := by
  cases ref with
  | root => exact congrArg some (hc.root side).1
  | elsewhere name => exact congrFun (hc.root side).2 name
  | tree g => exact hc.dir?_settled (.inl (hnamed g rfl)) (hretained g false)

theorem Numbered.mono {fresh' : ℕ} (h : Numbered d fresh) (hle : fresh ≤ fresh') :
    Numbered d fresh' :=
  ⟨fun side t ht => (h.trees side t ht).trans_le hle,
    fun side m g hm hg => (h.records side m g hm hg).trans_le hle,
    fun side m g hm hg => (h.pair side m g hm hg).trans_le hle⟩

theorem Numbered.onTrees {f : List GamedataStore.Tree → List GamedataStore.Tree}
    (h : Numbered d fresh) (hf : ∀ t ∈ f (d.archive side).trees, t.generation < fresh) :
    Numbered (d.onTrees side f) fresh where
  trees other t ht := by
    by_cases hside : other = side
    · subst hside
      rw [archive_onTrees_self] at ht
      exact hf t ht
    · rw [archive_onTrees_of_ne hside] at ht
      exact h.trees other t ht
  records other m g hm hg := by
    by_cases hside : other = side
    · subst hside
      rw [archive_onTrees_self] at hm
      exact h.records other m g hm hg
    · rw [archive_onTrees_of_ne hside] at hm
      exact h.records other m g hm hg
  pair := h.pair

theorem Numbered.updateWhere {p : GamedataStore.Tree → Bool}
    {f : GamedataStore.Tree → GamedataStore.Tree} (h : Numbered d fresh)
    (hf : ∀ t, (f t).generation = t.generation) :
    Numbered (d.onTrees side (updateWhere p f)) fresh := by
  refine h.onTrees fun t ht => ?_
  obtain ⟨u, hu, rfl⟩ := mem_updateWhere.mp ht
  have hlt := h.trees side u hu
  split
  · exact hf u ▸ hlt
  · exact hlt

theorem Numbered.dropWhere {p : GamedataStore.Tree → Bool} (h : Numbered d fresh) :
    Numbered (d.onTrees side (dropWhere p)) fresh :=
  h.onTrees fun t ht => h.trees side t (mem_dropWhere.mp ht).1

theorem numbered_pairOf {a b : LoadedMeta} {m : PairMeta} (h : pairOf a b = some m) :
    m.excelRoot = a.dataRoot.ref ∧ m.levelsRoot = b.dataRoot.ref ∧ m.commitSha = a.commitSha ∧
      m.commitSha = b.commitSha := by
  unfold pairOf at h
  split at h
  · next heq =>
    obtain rfl := Option.some.inj h
    exact ⟨rfl, rfl, rfl, heq⟩
  · simp at h

theorem FromRecords.root {m : PairMeta} (h : FromRecords specs d m) (side : Side) :
    ∃ r, (d.archive side).extractMeta = some r ∧ r.dataRoot = m.root side ∧
      r.commitSha = m.commitSha ∧ r.commitSha ≠ "" := by
  obtain ⟨a, b, ha, hb, hm⟩ := h
  obtain ⟨hexcel, hlevels, hsha, hsha'⟩ := numbered_pairOf hm
  cases side with
  | excel =>
    obtain ⟨r, hr, hne, -, rfl⟩ := loadedMeta_eq_some.mp ha
    exact ⟨r, hr, hexcel.symm, hsha.symm, hne⟩
  | levels =>
    obtain ⟨r, hr, hne, -, rfl⟩ := loadedMeta_eq_some.mp hb
    exact ⟨r, hr, hlevels.symm, hsha'.symm, hne⟩

theorem Numbered.root_lt {m : PairMeta} {g : ℕ} (hd : Numbered d fresh)
    (h : FromRecords specs d m ∨ m = legacyPair) (hg : m.root side = .tree g) : g < fresh := by
  rcases h with hfrom | rfl
  · obtain ⟨r, hr, hroot, -⟩ := hfrom.root side
    exact hd.records side r g hr (hroot.trans hg)
  · cases side <;> simp [PairMeta.root, legacyPair] at hg

/-- No generation number is used twice. -/
theorem Change.numbered (h : Change specs reads L op now fresh d d') (hd : Numbered d fresh) :
    Numbered d' fresh where
  trees side t ht := by
    rcases h.descends side t ht with ⟨u, hu, hug, -⟩ | ⟨-, hlt, -⟩
    · exact hug ▸ hd.trees side u hu
    · exact hlt
  records side m g hm hg := by
    rcases h.extractMeta side with heq | ⟨m', g', hm', hg', -, hx⟩
    · exact hd.records side m g (heq ▸ hm) hg
    · obtain rfl := Option.some.inj (hm.symm.trans hm')
      obtain rfl := DirRef.tree.inj (hg.symm.trans hg')
      obtain ⟨t, ht⟩ := Option.isSome_iff_exists.mp hx.exists_tree
      obtain ⟨hmem, rfl, -⟩ := tree?_eq_some ht
      exact hd.trees side t hmem
  pair side m g hm hg := hd.pair side m g (h.pair_eq ▸ hm) hg

theorem Publishes.numbered (h : Publishes specs d d') (hd : Numbered d fresh) :
    Numbered d' fresh := by
  obtain ⟨m, rfl, hm, -⟩ := h
  refine ⟨hd.trees, hd.records, fun side m' g hm' hg => ?_⟩
  obtain rfl := Option.some.inj hm'
  exact hd.root_lt hm hg

end Lemmas

end PrtsMcp.PairSync
