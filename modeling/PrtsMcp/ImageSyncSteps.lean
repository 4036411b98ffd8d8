import PrtsMcp.ImageSync

/-!
# What an image sync does

Every step of an image sync leaves the game data alone and is one of the changes below of the image
directory, whatever the environment answers.
-/
namespace PrtsMcp.ImageSync

open Process SyncTypes FileSteps GamedataStore PairSync

/-- One step at time `now`. Only pruning takes away a generation that the pointer has named. -/
inductive ImageChange (op : Op) (now fresh : ℕ) : ImagesDir → ImagesDir → Prop
  | same (d : ImagesDir) : ImageChange op now fresh d d
  | stage (d : ImagesDir) (t : ImageTree) (h : t.entry.staging = true) :
      ImageChange op now fresh d (d.onTrees (· ++ [t]))
  | fill (d : ImagesDir) (e : ImageEntry) (f : ImageTree → ImageTree) (h : e.staging = true)
      (hf : ∀ t, (f t).entry = t.entry) :
      ImageChange op now fresh d (d.onTrees (updateTrees (ImageTree.at e) f))
  | activate (d : ImagesDir) (format : Format) (g : ℕ) (hnew : (format, g) ∉ d.served) :
      ImageChange op now fresh d
        (d.onTrees (updateTrees (ImageTree.at ⟨format, g, true⟩) ImageTree.activated))
  | point (d : ImagesDir) (ref : ImageRef) (h : ∀ p ∈ ref.number, p.2 < fresh) :
      ImageChange op now fresh d (d.point ref)
  | remove (d : ImagesDir) (e : ImageEntry) (f : List ImageTree → List ImageTree)
      (h : e.staging = false → (e.format, e.generation) ∉ d.served)
      (hf : f = dropTrees (ImageTree.at e) ∨ f = updateTrees (ImageTree.at e) ImageTree.emptied) :
      ImageChange op now fresh d (d.onTrees f)
  | prune (d : ImagesDir) (e : ImageEntry) (cutoff : ℕ) (f : List ImageTree → List ImageTree)
      (hop : op = .pruneImages e) (hcutoff : cutoff ≤ now - retentionMs)
      (hkept : d.pointer ≠ some (.generation e.format e.generation))
      (hf : f = dropTrees (ImageTree.expired e cutoff) ∨
        f = updateTrees (ImageTree.expired e cutoff) ImageTree.emptied) :
      ImageChange op now fresh d (d.onTrees f)

/-- The pointer names a generation that was served, and those have numbers below the next one. -/
structure Served (d : ImagesDir) (fresh : ℕ) : Prop where
  lt : ∀ p ∈ d.served, p.2 < fresh
  pointer : ∀ format g, d.pointer = some (.generation format g) → (format, g) ∈ d.served

instance (d : ImagesDir) (fresh : ℕ) : Decidable (Served d fresh) :=
  decidable_of_iff ((∀ p ∈ d.served, p.2 < fresh) ∧
      ∀ ref ∈ d.pointer, ∀ p ∈ ref.number, p ∈ d.served) <| by
    constructor
    · intro h
      exact ⟨h.1, fun format g hp => h.2 _ hp (format, g) rfl⟩
    · intro h
      refine ⟨h.lt, fun ref href p hp => ?_⟩
      cases ref with
      | generation format g =>
        obtain rfl := Option.some.inj hp
        exact h.pointer format g href
      | elsewhere name => cases hp

theorem Served.mono {d : ImagesDir} {fresh fresh' : ℕ} (h : Served d fresh)
    (hle : fresh ≤ fresh') : Served d fresh' :=
  ⟨fun p hp => (h.lt p hp).trans_le hle, h.pointer⟩

theorem ImageChange.served {op : Op} {now fresh : ℕ} {d d' : ImagesDir}
    (hc : ImageChange op now fresh d d') (h : Served d fresh) : Served d' fresh := by
  cases hc with
  | same => exact h
  | stage | fill | activate | remove | prune => exact ⟨h.lt, h.pointer⟩
  | point ref hlt =>
    constructor
    · intro p hp
      rcases List.mem_append.mp hp with hp | hp
      · exact hlt p (Option.mem_toList.mp hp)
      · exact h.lt p hp
    · intro format g hg
      obtain rfl := Option.some.inj hg
      exact List.mem_append_left _ (by simp [ImageRef.number])

theorem ImageChange.served_mono {op : Op} {now fresh : ℕ} {d d' : ImagesDir}
    (hc : ImageChange op now fresh d d') : d.served ⊆ d'.served := by
  cases hc with
  | same | stage | fill | activate | remove | prune => exact List.Subset.refl _
  | point ref => exact List.subset_append_right _ _

/-- The trees of one name. -/
def named (e : ImageEntry) (ts : List ImageTree) : List ImageTree := ts.filter fun t => t.entry = e

theorem mem_named {e : ImageEntry} {ts : List ImageTree} {t : ImageTree} :
    t ∈ named e ts ↔ t ∈ ts ∧ t.entry = e := by
  simp [named]

theorem files?_eq_head? (d : ImagesDir) (format : Format) (g : ℕ) :
    d.files? (.generation format g) =
      (named ⟨format, g, false⟩ d.trees).head?.map ImageTree.files := by
  rw [named, List.head?_filter]
  rfl

theorem named_updateTrees {e : ImageEntry} {p : ImageTree → Bool} {h : ImageTree → ImageTree}
    {ts : List ImageTree} (hp : ∀ t ∈ ts, t.entry = e → p t = false)
    (hh : ∀ t ∈ ts, p t = true → (h t).entry ≠ e) : named e (updateTrees p h ts) = named e ts := by
  induction ts with
  | nil => rfl
  | cons t ts ih =>
    have htail : named e (updateTrees p h ts) = named e ts :=
      ih (fun u hu => hp u (by simp [hu])) fun u hu => hh u (by simp [hu])
    simp only [named, updateTrees] at htail ⊢
    rw [List.map_cons, List.filter_cons, List.filter_cons, htail]
    by_cases hpt : p t = true
    · have hother : t.entry ≠ e := fun he => by simp [hp t (by simp) he] at hpt
      simp [hpt, hh t (by simp) hpt, hother]
    · simp [hpt]

theorem named_dropTrees {e : ImageEntry} {p : ImageTree → Bool} {ts : List ImageTree}
    (hp : ∀ t ∈ ts, t.entry = e → p t = false) : named e (dropTrees p ts) = named e ts := by
  rw [named, named, dropTrees, List.filter_filter]
  apply List.filter_congr
  intro t ht
  by_cases he : t.entry = e
  · simp [he, hp t ht he]
  · simp [he]

/-- A generation that was served stays as it is while the step that would prune it spares it. -/
theorem ImageChange.named {op : Op} {now fresh : ℕ} {d d' : ImagesDir} {format : Format} {g : ℕ}
    (hc : ImageChange op now fresh d d') (hserved : (format, g) ∈ d.served)
    (hspared : op = .pruneImages ⟨format, g, false⟩ →
      d.pointer = some (.generation format g) ∨
        ∀ t ∈ d.trees, t.entry = ⟨format, g, false⟩ → now - retentionMs ≤ t.mtime) :
    named ⟨format, g, false⟩ d'.trees = named ⟨format, g, false⟩ d.trees := by
  have hat : ∀ e : ImageEntry, e ≠ ⟨format, g, false⟩ → ∀ t ∈ d.trees,
      t.entry = ⟨format, g, false⟩ → t.at e = false := by
    intro e hne t _ he
    rw [ImageTree.at, he]
    exact decide_eq_false hne.symm
  have hentry : ∀ e : ImageEntry, e ≠ ⟨format, g, false⟩ → ∀ t ∈ d.trees, t.at e = true →
      t.entry ≠ ⟨format, g, false⟩ := by
    intro e hne t ht hte he
    simp [hat e hne t ht he] at hte
  cases hc with
  | same => rfl
  | point => rfl
  | stage t hs =>
    have hother : t.entry ≠ ⟨format, g, false⟩ := by
      intro he
      simp [he] at hs
    simp [ImagesDir.onTrees, ImageSync.named, hother]
  | fill e f hs hf =>
    have hne : e ≠ ⟨format, g, false⟩ := by
      rintro rfl
      cases hs
    exact named_updateTrees (hat e hne) fun t ht hte => hf t ▸ hentry e hne t ht hte
  | activate format' g' hnew =>
    apply named_updateTrees (hat _ (by simp))
    rintro t ht hte he
    have hname : t.entry = ⟨format', g', true⟩ := of_decide_eq_true hte
    simp only [ImageTree.activated, hname, ImageEntry.mk.injEq] at he
    obtain ⟨rfl, rfl, -⟩ := he
    exact hnew hserved
  | remove e f hnew hf =>
    have hne : e ≠ ⟨format, g, false⟩ := by
      rintro rfl
      exact hnew rfl hserved
    rcases hf with rfl | rfl
    · exact named_dropTrees (hat e hne)
    · exact named_updateTrees (hat e hne) (hentry e hne)
  | prune e cutoff f hop hcutoff hkept hf =>
    have hlive : ∀ t ∈ d.trees, t.entry = ⟨format, g, false⟩ → t.expired e cutoff = false := by
      intro t ht he
      by_cases hne : e = ⟨format, g, false⟩
      · subst hne
        rcases hspared hop with hpointer | hdated
        · exact absurd hpointer hkept
        · have := hdated t ht he
          simp only [ImageTree.expired, Bool.and_eq_false_iff, decide_eq_false_iff_not]
          exact .inr (by omega)
      · simp [ImageTree.expired, hat e hne t ht he]
    rcases hf with rfl | rfl
    · exact named_dropTrees hlive
    · refine named_updateTrees hlive fun t ht hp he => ?_
      simp [hlive t ht he] at hp

/-- The visit ticks, leaves the game data as it is and changes the images in a known way. -/
def Moves (v : Visit Root Op Turn) : Prop :=
  Ticks v ∧ v.after.pair.store = v.before.pair.store ∧
    ImageChange v.op v.after.machine.now v.after.machine.fresh v.before.images v.after.images

def Sound (r : Root) : Prop := Served r.images r.machine.fresh

/-- Assertions on the images that the passing of time and numbers does not break. -/
def Steadfast (P : Root → Prop) : Prop :=
  ∀ r r' : Root, r'.images = r.images → r.machine.fresh ≤ r'.machine.fresh →
    r.machine.now ≤ r'.machine.now → P r → P r'

theorem steadfast_sound : Steadfast Sound := fun r r' himages hfresh _ h => by
  rw [Sound, himages]
  exact h.mono hfresh

/-- The pointer names what was just put there. -/
def Points (ref : ImageRef) (r : Root) : Prop := Sound r ∧ r.images.pointer = some ref

theorem steadfast_points (ref : ImageRef) : Steadfast (Points ref) :=
  fun r r' himages hfresh hnow h =>
    ⟨steadfast_sound r r' himages hfresh hnow h.1, himages ▸ h.2⟩

/-- The pointer is known, and the cutoff was taken at an earlier time. -/
def Pruning (ref : ImageRef) (cutoff : ℕ) (r : Root) : Prop :=
  Points ref r ∧ cutoff ≤ r.machine.now - retentionMs

theorem steadfast_pruning (ref : ImageRef) (cutoff : ℕ) : Steadfast (Pruning ref cutoff) :=
  fun r r' himages hfresh hnow h => ⟨steadfast_points ref r r' himages hfresh hnow h.1,
    h.2.trans (Nat.sub_le_sub_right hnow _)⟩

/-- A generation under construction, which the pointer has never named. -/
def Candidate (format : Format) (g : ℕ) (r : Root) : Prop :=
  Sound r ∧ g < r.machine.fresh ∧ (format, g) ∉ r.images.served

theorem steadfast_candidate (format : Format) (g : ℕ) : Steadfast (Candidate format g) :=
  fun r r' himages hfresh hnow h =>
    ⟨steadfast_sound r r' himages hfresh hnow h.1, h.2.1.trans_le hfresh, himages ▸ h.2.2⟩

@[simp] theorem onImages_machine (f : ImagesDir → ImagesDir) (r : Root) :
    (r.onImages f).machine = r.machine := rfl

@[simp] theorem onImages_images (f : ImagesDir → ImagesDir) (r : Root) :
    (r.onImages f).images = f r.images := rfl

@[simp] theorem onImages_store (f : ImagesDir → ImagesDir) (r : Root) :
    (r.onImages f).pair.store = r.pair.store := rfl

section Steps

variable {A : Visit Root Op Turn → Prop} {P : Root → Prop} {α : Type}

theorem Steadfast.waited (hP : Steadfast P) (turn : Turn) (r : Root) (h : P r) :
    P (waited turn r) := hP r _ rfl (le_refl _) (Nat.le_add_right _ _) h

theorem moves_of_machine {v : Visit Root Op Turn} (ht : Ticks v)
    (hstore : v.after.pair.store = v.before.pair.store) (himages : v.after.images = v.before.images) :
    Moves v := ⟨ht, hstore, himages ▸ .same _⟩

theorem moves_waited {op : Op} (turn : Turn) (r : Root) :
    Moves (⟨op, turn, r, waited turn r⟩ : Visit Root Op Turn) :=
  moves_of_machine (ticks_of_machine (f := id) grows_id rfl) rfl rfl

/-- A step that leaves the images as they are. -/
theorem inspect_spec {op : Op} {f : Reply → Root → Except SyncError α} {Q : α → Root → Prop}
    (hP : Steadfast P) (h : ∀ reply r a, P r → f reply r = .ok a → Q a r) :
    Triple A Moves P (inspect op f) Q fun _ => P := by
  refine triple_inspect fun turn r hr _ => ⟨moves_waited turn r, ?_⟩
  cases hf : f turn.reply (waited turn r) with
  | ok a => exact h turn.reply (waited turn r) a (hP.waited turn r hr) hf
  | error e => exact hP.waited turn r hr

theorem ioStep_idle {op : Op} (hP : Steadfast P) :
    Triple A Moves P (ioStep op id : Step Root Unit) (fun _ => P) fun _ => P :=
  triple_ioStep (fun turn r hr _ => ⟨moves_waited turn r, hP.waited turn r hr⟩)
    fun turn r _ hr _ => ⟨moves_waited turn r, hP.waited turn r hr⟩

/-- A step that makes one change of the images, or none. -/
theorem step_spec {op : Op} {f : Reply → Root → Except SyncError α × Root} {Q : α → Root → Prop}
    {E : SyncError → Root → Prop} (hP : Steadfast P)
    (hmachine : ∀ reply r, r.machine.now ≤ (f reply r).2.machine.now ∧
      r.machine.fresh ≤ (f reply r).2.machine.fresh)
    (hstore : ∀ reply r, (f reply r).2.pair.store = r.pair.store)
    (hchange : ∀ reply r, P r → ImageChange op (f reply r).2.machine.now
      (f reply r).2.machine.fresh r.images (f reply r).2.images)
    (hpost : ∀ reply r, P r → match f reply r with
      | (.ok a, r') => Q a r'
      | (.error e, r') => E e r') :
    Triple A Moves P (step op f) Q E := by
  refine triple_step (fun turn r hr _ => ⟨?_, ?_, ?_⟩) fun turn r hr _ => ?_
  · have h := hmachine turn.reply (waited turn r)
    exact ⟨(Nat.le_add_right _ _).trans h.1, h.2⟩
  · exact hstore turn.reply (waited turn r)
  · exact hchange turn.reply (waited turn r) (hP.waited turn r hr)
  · have h := hpost turn.reply (waited turn r) (hP.waited turn r hr)
    rcases hf : f turn.reply (waited turn r) with ⟨a | e, r'⟩ <;> simpa only [hf] using h

/-! ## Reading -/

theorem activeGeneration_spec (hP : Steadfast P) :
    Triple A Moves P activeGeneration
      (fun found r => P r ∧ ∀ ref, found = some ref → r.images.pointer = some ref)
      fun _ => P := by
  refine inspect_spec hP fun reply r found hr hf => ⟨hr, fun ref href => ?_⟩
  cases hio : reply.io with
  | error e =>
    rw [hio] at hf
    cases hf
    cases href
  | ok u =>
    rw [hio] at hf
    obtain rfl := Except.ok.inj hf
    exact (Option.filter_eq_some_iff.mp href).1

theorem listImages_spec (hP : Steadfast P) :
    Triple A Moves P listImages (fun _ => P) fun _ => P :=
  inspect_spec hP fun _ _ _ hr _ => hr

theorem offlineOrNoData_spec (hP : Steadfast P) :
    Triple A Moves P offlineOrNoData (fun _ => P) fun _ => P :=
  triple_bind (activeGeneration_spec hP) fun _ => triple_pure fun _ hr => hr.1

/-! ## Removing -/

theorem sound_onTrees {f : List ImageTree → List ImageTree} {r : Root} (h : Sound r) :
    Sound (r.onImages (.onTrees f)) := ⟨h.lt, h.pointer⟩

theorem candidate_onTrees {f : List ImageTree → List ImageTree} {format : Format} {g : ℕ}
    {r : Root} (h : Candidate format g r) : Candidate format g (r.onImages (.onTrees f)) :=
  ⟨sound_onTrees h.1, h.2⟩

theorem points_onTrees {f : List ImageTree → List ImageTree} {ref : ImageRef} {r : Root}
    (h : Points ref r) : Points ref (r.onImages (.onTrees f)) := ⟨sound_onTrees h.1, h.2⟩

theorem removeImages_spec {e : ImageEntry} (hP : Steadfast P)
    (hnew : ∀ r, P r → e.staging = false → (e.format, e.generation) ∉ r.images.served)
    (hkept : ∀ r f, P r → P (r.onImages (.onTrees f))) :
    Triple A Moves P (removeImages e) (fun _ => P) fun _ => P := by
  refine step_spec hP (fun reply r => ?_) (fun reply r => ?_) (fun reply r hr => ?_)
    fun reply r hr => ?_
  · cases reply <;> exact ⟨le_refl _, le_refl _⟩
  · cases reply <;> rfl
  · cases reply with
    | fail => exact .same _
    | torn => exact .remove _ e _ (hnew r hr) (.inr rfl)
    | ok | json | refused | body => exact .remove _ e _ (hnew r hr) (.inl rfl)
  · cases reply with
    | fail => exact hr
    | torn | ok | json | refused | body => exact hkept r _ hr

theorem removeStaging_spec {e : ImageEntry} (he : e.staging = true) :
    Triple A Moves Sound (removeImages e) (fun _ => Sound) fun _ => Sound :=
  removeImages_spec steadfast_sound (fun _ _ hs => absurd (he.symm.trans hs) (by decide))
    fun _ _ => sound_onTrees

theorem pruneImages_spec {e : ImageEntry} {cutoff : ℕ} {ref : ImageRef}
    (hne : ref ≠ .generation e.format e.generation) :
    Triple A Moves (Pruning ref cutoff) (pruneImages cutoff e) (fun _ => Pruning ref cutoff)
      fun _ => Sound := by
  have hkept : ∀ r, Points ref r → r.images.pointer ≠ some (.generation e.format e.generation) :=
    fun r hr => by simpa [hr.2] using hne
  refine step_spec (steadfast_pruning ref cutoff) (fun reply r => ?_) (fun reply r => ?_)
    (fun reply r hr => ?_) fun reply r hr => ?_
  · cases reply <;> exact ⟨le_refl _, le_refl _⟩
  · cases reply <;> rfl
  · cases reply with
    | fail => exact .same _
    | torn => exact .prune _ e cutoff _ rfl hr.2 (hkept r hr.1) (.inr rfl)
    | ok | json | refused | body => exact .prune _ e cutoff _ rfl hr.2 (hkept r hr.1) (.inl rfl)
  · cases reply with
    | fail => exact hr
    | torn | ok | json | refused | body => exact ⟨points_onTrees hr.1, hr.2⟩

theorem pruneEach_spec {ref : ImageRef} {cutoff : ℕ} {es : List ImageEntry}
    (hes : ∀ e ∈ es, ref ≠ .generation e.format e.generation) :
    Triple A Moves (Pruning ref cutoff) (Prog.forEach (pruneImages cutoff) es) (fun _ => Sound)
      fun _ => Sound := by
  apply (triple_forEach fun e he => pruneImages_spec (hes e he)).post
  exact fun _ _ hr => hr.1.1

theorem readCutoff_spec {ref : ImageRef} {E : SyncError → Root → Prop} :
    Triple A Moves (Points ref) (.read fun r => r.machine.now - retentionMs)
      (fun cutoff => Pruning ref cutoff) E :=
  triple_read fun _ hr => ⟨hr, le_refl _⟩

/-- What the pointer names is not among the candidates. -/
theorem pruneOldImages_spec {format : Format} {g : ℕ} {ref : ImageRef}
    (href : ref = .generation format g ∨ ref.number = none) :
    Triple A Moves (Points ref) (pruneOldImages format g) (fun _ => Sound) fun _ => Sound := by
  apply triple_bind readCutoff_spec
  intro cutoff
  apply triple_bind_attempt (listImages_spec (steadfast_pruning ref cutoff))
  · intro entries
    apply pruneEach_spec
    intro e he
    have hp := (List.mem_filter.mp he).2
    rcases href with rfl | hnone
    · rintro ⟨⟩
      obtain ⟨format, g, staging⟩ := e
      cases staging <;> simp at hp
    · rintro rfl
      cases hnone
  · exact fun _ => triple_pure fun _ hr => hr.1.1

theorem pruneOrphans_spec {format : Format} {g : ℕ} {entries : List ImageEntry} :
    Triple A Moves (Points (.generation format g)) (pruneOrphans format g entries)
      (fun _ => Sound) fun _ => Sound := by
  apply triple_bind readCutoff_spec
  intro cutoff
  apply pruneEach_spec
  intro e he
  have hp := (List.mem_filter.mp he).2
  rintro ⟨⟩
  obtain ⟨format, g, staging⟩ := e
  cases staging <;> simp at hp

theorem cleanupOld_spec :
    Triple A Moves Sound cleanupOld (fun _ => Sound) fun _ => Sound := by
  apply triple_bind (activeGeneration_spec steadfast_sound)
  intro found
  have hnothing : Triple A Moves (fun r => Sound r ∧ ∀ ref, found = some ref →
      r.images.pointer = some ref) (pure () : Step Root Unit) (fun _ => Sound) fun _ => Sound :=
    triple_pure fun _ hr => hr.1
  match found with
  | none => exact hnothing
  | some (.elsewhere name) => exact hnothing
  | some (.generation format g) =>
    have hpoints : ∀ r : Root, (Sound r ∧ ∀ ref, some (ImageRef.generation format g) = some ref →
        r.images.pointer = some ref) → Points (.generation format g) r :=
      fun r hr => ⟨hr.1, hr.2 _ rfl⟩
    apply Triple.pre _ hpoints
    apply triple_bind_attempt (ioStep_idle (steadfast_points _))
    · intro _
      apply triple_bind_attempt (listImages_spec (steadfast_points _))
      · exact fun entries => pruneOrphans_spec
      · exact fun _ => triple_pure fun _ hr => hr.1
    · exact fun _ => triple_pure fun _ hr => hr.1

theorem cleanupStaging_spec :
    Triple A Moves Sound cleanupStaging (fun _ => Sound) fun _ => Sound := by
  apply triple_bind (listImages_spec steadfast_sound)
  intro entries
  apply triple_forEach
  intro e he
  have hp := (List.mem_filter.mp he).2
  simp only [Bool.and_eq_true] at hp
  exact removeStaging_spec hp.2

/-! ## Building a generation -/

theorem stageImages_spec (format : Format) :
    Triple A Moves Sound (stageImages format) (fun g => Candidate format g) fun _ => Sound := by
  refine step_spec steadfast_sound (fun reply r => ?_) (fun reply r => ?_) (fun reply r hr => ?_)
    fun reply r hr => ?_
  · cases reply.io <;> exact ⟨le_refl _, Nat.le_succ _⟩
  · cases reply.io <;> rfl
  · cases reply.io with
    | error e => exact .same _
    | ok u => exact .stage _ ⟨⟨format, r.machine.fresh, true⟩, r.machine.now, []⟩ rfl
  · have hsound : Served r.images (r.machine.fresh + 1) := hr.mono (Nat.le_succ _)
    cases reply.io with
    | error e => exact hsound
    | ok u =>
      refine ⟨⟨hsound.lt, hsound.pointer⟩, Nat.lt_succ_self _, fun hmem => ?_⟩
      exact absurd (hr.lt _ hmem) (lt_irrefl _)

variable {format : Format} {g : ℕ}

theorem fillImages_spec (file : String) :
    Triple A Moves (Candidate format g) (fillImages ⟨format, g, true⟩ file)
      (fun _ => Candidate format g) fun _ => Candidate format g := by
  refine step_spec (steadfast_candidate format g) (fun reply r => ?_) (fun reply r => ?_)
    (fun reply r hr => ?_) fun reply r hr => ?_
  · cases reply <;> exact ⟨le_refl _, le_refl _⟩
  · cases reply <;> rfl
  · cases reply with
    | fail => exact .same _
    | torn | ok | json | refused | body => exact .fill _ _ _ rfl fun _ => rfl
  · cases reply with
    | fail => exact hr
    | torn | ok | json | refused | body => exact candidate_onTrees hr

theorem buildFiles_spec (work : List String) :
    Triple A Moves (Candidate format g) (buildFiles ⟨format, g, true⟩ work)
      (fun _ => Candidate format g) fun _ => Candidate format g :=
  triple_forEach fun file _ => fillImages_spec file

theorem activateImages_spec :
    Triple A Moves (Candidate format g) (activateImages format g) (fun _ => Candidate format g)
      fun _ => Candidate format g := by
  refine step_spec (steadfast_candidate format g) (fun reply r => ?_) (fun reply r => ?_)
    (fun reply r hr => ?_) fun reply r hr => ?_
  · cases reply.io with
    | error e => exact ⟨le_refl _, le_refl _⟩
    | ok u => dsimp only; split <;> exact ⟨le_refl _, le_refl _⟩
  · cases reply.io with
    | error e => rfl
    | ok u => dsimp only; split <;> rfl
  · cases reply.io with
    | error e => exact .same _
    | ok u =>
      dsimp only
      split
      · exact .activate _ format g hr.2.2
      · exact .same _
  · cases reply.io with
    | error e => exact hr
    | ok u =>
      dsimp only
      by_cases hany : r.images.trees.any (ImageTree.at ⟨format, g, true⟩) = true
      · rw [if_pos hany]
        exact candidate_onTrees hr
      · rw [if_neg hany]
        exact hr

theorem removeCandidate_spec :
    Triple A Moves (Candidate format g) (removeImages ⟨format, g, false⟩)
      (fun _ => Candidate format g) fun _ => Candidate format g :=
  removeImages_spec (steadfast_candidate format g) (fun _ hr _ => hr.2.2)
    fun _ _ => candidate_onTrees

/-- The pointer moves to the candidate, or stays where it was. -/
theorem saveMeta_spec {ref : ImageRef} (href : ∀ p ∈ ref.number, p = (format, g)) :
    Triple A Moves (Candidate format g) (saveMeta ref) (fun _ => Points ref)
      fun _ => Candidate format g := by
  have hgrown : ∀ (r : Root) (f : Machine → Machine), Machine.Grows f → Candidate format g r →
      Candidate format g (OnMachine.onMachine f r) := fun r f hf hr =>
    steadfast_candidate format g r _ rfl (hf r.machine).2 (hf r.machine).1 hr
  have hticks : ∀ (op : Op) (turn : Turn) (r r' : Root) (f : Machine → Machine), Machine.Grows f →
      r'.machine = f (waited turn r).machine → Ticks (⟨op, turn, r, r'⟩ : Visit Root Op Turn) :=
    fun op turn r r' f hf h => ticks_of_machine hf h
  refine triple_atomicWriteJson (P := Candidate format g) hgrown (fun op turn r f hf hr => ?_)
    (fun turn r f hf hr _ => ⟨⟨?_, rfl, ?_⟩, ?_⟩) fun r e hr => hr
  · exact moves_of_machine (hticks op turn r _ f hf rfl) rfl rfl
  · exact hticks _ turn r _ f hf rfl
  · refine .point _ ref fun p hp => ?_
    rw [href p hp]
    have hfresh : r.machine.fresh ≤ (f (waited turn r).machine).fresh :=
      (hf (waited turn r).machine).2
    exact hr.2.1.trans_le hfresh
  · have hr' : Candidate format g (OnMachine.onMachine f (waited turn r)) :=
      hgrown _ f hf ((steadfast_candidate format g).waited turn r hr)
    refine ⟨⟨fun p hp => ?_, fun format' g' hp => ?_⟩, rfl⟩
    · rcases List.mem_append.mp hp with hp | hp
      · rw [href p (Option.mem_toList.mp hp)]
        exact hr'.2.1
      · exact hr'.1.lt p hp
    · obtain rfl := Option.some.inj hp
      exact List.mem_append_left _ (by simp [ImageRef.number])

theorem generationRoot_spec :
    Triple A Moves (Candidate .v1 g) (generationRoot g)
      (fun ref r => Candidate .v1 g r ∧ (ref = .generation .v1 g ∨ ref.number = none))
      fun _ => Candidate .v1 g := by
  refine inspect_spec (steadfast_candidate .v1 g) fun reply r ref hr hf => ⟨hr, ?_⟩
  cases hio : reply.io with
  | error e =>
    rw [hio] at hf
    obtain rfl := Except.ok.inj hf
    exact .inr rfl
  | ok u =>
    rw [hio] at hf
    obtain rfl := Except.ok.inj hf
    exact .inl rfl

theorem buildV1_spec (work : List String) :
    Triple A Moves (Candidate .v1 g) (buildV1 g work) (fun _ => Candidate .v1 g)
      fun _ => Candidate .v1 g := by
  apply triple_bind (buildFiles_spec work)
  intro _
  apply triple_bind (triple_ignore (R := Candidate .v1 g) removeCandidate_spec)
  exact fun _ => activateImages_spec

theorem publishV1_spec :
    Triple A Moves (Candidate .v1 g) (publishV1 g) (fun _ => Sound) fun _ => Sound := by
  apply triple_bind (generationRoot_spec.onError fun _ _ hr => hr.1)
  intro ref
  apply triple_fact
  intro href
  have hnumber : ∀ p ∈ ref.number, p = (.v1, g) := by
    rcases href with rfl | hnone
    · intro p hp
      exact (Option.some.inj hp).symm
    · simp [hnone]
  apply triple_bind ((saveMeta_spec hnumber).onError fun _ _ hr => hr.1)
  intro _
  apply triple_bind (pruneOldImages_spec href)
  exact fun _ => triple_pure fun _ hr => hr

theorem rebuildV1_spec (work : List String) :
    Triple A Moves Sound (rebuildV1 work) (fun _ => Sound) fun _ => Sound := by
  apply triple_bind (stageImages_spec .v1)
  intro g
  apply triple_bind_attempt (buildV1_spec work)
  · exact fun _ => publishV1_spec
  · intro e
    apply Triple.pre _ fun r (hr : Candidate .v1 g r) => hr.1
    apply triple_bind (triple_ignore (R := Sound) (removeStaging_spec rfl))
    exact fun _ => triple_throw fun _ hr => hr

theorem buildV2_spec (work : List String) :
    Triple A Moves (Candidate .v2 g) (buildV2 g work) (fun _ => Candidate .v2 g)
      fun _ => Candidate .v2 g := by
  apply triple_bind (buildFiles_spec work)
  exact fun _ => activateImages_spec

theorem publishV2_spec :
    Triple A Moves (Candidate .v2 g) (publishV2 g) (fun _ => Sound) fun _ => Sound := by
  have hnumber : ∀ p ∈ (ImageRef.generation .v2 g).number, p = (.v2, g) :=
    fun p hp => (Option.some.inj hp).symm
  apply triple_bind_attempt (saveMeta_spec hnumber)
  · intro _
    apply triple_bind (triple_ignore (R := Points (.generation .v2 g))
      (ioStep_idle (steadfast_points _)))
    intro _
    apply triple_bind (pruneOldImages_spec (.inl rfl))
    exact fun _ => triple_pure fun _ hr => hr
  · intro e
    apply triple_bind (triple_ignore (R := Candidate .v2 g) removeCandidate_spec)
    exact fun _ => triple_throw fun _ hr => hr.1

theorem rebuildV2_spec (work : List String) :
    Triple A Moves Sound (rebuildV2 work) (fun _ => Sound) fun _ => Sound := by
  apply triple_bind (stageImages_spec .v2)
  intro g
  apply triple_bind_attempt (buildV2_spec work)
  · exact fun _ => publishV2_spec
  · intro e
    apply Triple.pre _ fun r (hr : Candidate .v2 g r) => hr.1
    apply triple_bind (triple_ignore (R := Sound) (removeStaging_spec rfl))
    exact fun _ => triple_throw fun _ hr => hr

/-! ## One sync -/

theorem follow_spec {rebuild : List String → Step Root SyncStatus} (plan : Plan)
    (hrebuild : ∀ work, Triple A Moves Sound (rebuild work) (fun _ => Sound) fun _ => Sound) :
    Triple A Moves Sound (follow plan rebuild) (fun _ => Sound) fun _ => Sound := by
  apply triple_bind (ioStep_idle steadfast_sound)
  intro _
  cases plan with
  | none => exact triple_pure fun _ hr => hr
  | some work =>
    apply triple_bind (ioStep_idle steadfast_sound)
    exact fun _ => hrebuild work

theorem guardSource_spec :
    Triple A Moves Sound guardSource (fun _ => Sound) fun _ => Sound :=
  ioStep_idle steadfast_sound

theorem runV2_spec (plan : Plan) :
    Triple A Moves Sound (runV2 plan) (fun _ => Sound) fun _ => Sound := by
  apply triple_bind guardSource_spec
  intro _
  apply triple_bind cleanupStaging_spec
  intro _
  apply triple_bind cleanupOld_spec
  exact fun _ => follow_spec plan rebuildV2_spec

theorem runChosen_spec (format : Format) (plan : Plan) :
    Triple A Moves Sound (runChosen format plan) (fun _ => Sound) fun _ => Sound := by
  apply triple_bind (ioStep_idle steadfast_sound)
  intro _
  cases format with
  | v1 => exact follow_spec plan rebuildV1_spec
  | v2 => exact runV2_spec plan

theorem syncImagesLocked_spec (format : Format) (plan : Plan) :
    Triple A Moves Sound (syncImagesLocked format plan) (fun _ => Sound) fun _ => Sound := by
  apply triple_bind_attempt (runChosen_spec format plan)
  · exact fun _ => triple_pure fun _ hr => hr
  · exact fun _ => offlineOrNoData_spec steadfast_sound

theorem syncImagesUnderLock_spec (format : Format) (plan : Plan) :
    Triple A Moves Sound (syncImagesUnderLock format plan) (fun _ => Sound) fun _ => Sound := by
  apply triple_bind (ioStep_idle steadfast_sound)
  intro _
  apply triple_bind (ioStep_idle steadfast_sound)
  intro _
  refine triple_bind (triple_attempt (Q := fun _ => Sound) (E := fun _ => Sound)
    (triple_bind_attempt guardSource_spec ?_ ?_)) fun inner => ?_
  · exact fun _ => syncImagesLocked_spec format plan
  · exact fun _ => triple_pure fun _ hr => hr
  have hsame : ∀ r, Attempted (fun _ => Sound) (fun _ => Sound) inner r → Sound r := by
    cases inner <;> exact fun r hr => hr
  apply Triple.pre _ hsame
  apply triple_bind (triple_ignore (R := Sound) (ioStep_idle steadfast_sound))
  intro _
  cases inner with
  | ok status => exact triple_pure fun _ hr => hr
  | error e => exact triple_throw fun _ hr => hr

/-- Whatever the environment answers, an image sync takes known steps only. -/
theorem syncImages_spec (format : Format) (plan : Plan) :
    Triple A Moves Sound (syncImages format plan) (fun _ => Sound) fun _ => Sound := by
  apply triple_bind_attempt guardSource_spec
  · intro _
    apply triple_bind_attempt (syncImagesUnderLock_spec format plan)
    · exact fun _ => triple_pure fun _ hr => hr
    · exact fun _ => offlineOrNoData_spec steadfast_sound
  · exact fun _ => triple_pure fun _ hr => hr

end Steps

end PrtsMcp.ImageSync
