import PrtsMcp.ReleaseSyncSteps
import PrtsMcp.StoreChanges

/-!
# What the steps of a pair sync do

One lemma for each process: all its steps are changes of the store, whatever the environment
answers.
-/
namespace PrtsMcp.PairSync

open Process SyncTypes FileSteps ReleaseSync GamedataStore ZipValidation

/-- The visit ticks and changes the store in one of the known ways. -/
def Moves (specs : Specs) (reads : Prop) (L : Side → String → ZipFile → Prop)
    (v : Visit World Op Turn) : Prop :=
  Ticks v ∧ Change specs reads L v.op v.after.machine.now v.after.machine.fresh v.before.store
    v.after.store

/-- The store is `d`, and its numbers are below the next one. -/
def At (d : Store) (w : World) : Prop := w.store = d ∧ Numbered d w.machine.fresh

/-- The numbers of the store are below the next one. -/
def Sound (w : World) : Prop := Numbered w.store w.machine.fresh

instance : DecidablePred Sound := fun w =>
  inferInstanceAs (Decidable (Numbered w.store w.machine.fresh))

/-- Reads of the extract records do not fail. -/
def ReadsRecord (v : Visit World Op Turn) : Prop :=
  ∀ side, v.op = .readExtractMeta side → v.reply.reply.io.isOk = true

instance : DecidablePred ReadsRecord := fun v =>
  inferInstanceAs (Decidable (∀ side, v.op = .readExtractMeta side →
    v.reply.reply.io.isOk = true))

@[simp] theorem waited_store (turn : Turn) (w : World) : (waited turn w).store = w.store := rfl

@[simp] theorem waited_fresh (turn : Turn) (w : World) :
    (waited turn w).machine.fresh = w.machine.fresh := rfl

@[simp] theorem waited_release (turn : Turn) (w : World) : (waited turn w).release = w.release :=
  rfl

@[simp] theorem onMachine_store (f : Machine → Machine) (w : World) :
    (OnMachine.onMachine f w).store = w.store := rfl

@[simp] theorem onTrees_store (side : Side) (f : List GamedataStore.Tree → List GamedataStore.Tree)
    (w : World) : (w.onTrees side f).store = w.store.onTrees side f := rfl

@[simp] theorem onTrees_machine (side : Side)
    (f : List GamedataStore.Tree → List GamedataStore.Tree) (w : World) :
    (w.onTrees side f).machine = w.machine := rfl

theorem At.sound {d : Store} {w : World} (h : At d w) : Sound w := by
  obtain ⟨rfl, hn⟩ := h
  exact hn

theorem At.of_store {d : Store} {w w' : World} (h : At d w) (hstore : w'.store = w.store)
    (hfresh : w.machine.fresh ≤ w'.machine.fresh) : At d w' :=
  ⟨hstore.trans h.1, h.2.mono hfresh⟩

section Steps

variable {specs : Specs} {reads : Prop} {L : Side → String → ZipFile → Prop}
  {A : Visit World Op Turn → Prop} {d : Store} {side : Side}

theorem moves_of_store {v : Visit World Op Turn} (ht : Ticks v)
    (h : v.after.store = v.before.store) : Moves specs reads L v :=
  ⟨ht, h ▸ .same _⟩

theorem ticks_waited {op : Op} {turn : Turn} {w w' : World} (h : w'.machine = (waited turn w).machine) :
    Ticks (⟨op, turn, w, w'⟩ : Visit World Op Turn) :=
  ticks_of_machine grows_id h

/-- Steps that leave the store as it is are in order. -/
def Idle (G : Visit World Op Turn → Prop) : Prop :=
  ∀ v : Visit World Op Turn, Ticks v → v.after.store = v.before.store → G v

theorem moves_idle : Idle (Moves specs reads L) := fun _ => moves_of_store

/-- A step that looks at the store. -/
theorem inspect_spec {G : Visit World Op Turn → Prop} (hG : Idle G) {α : Type} {op : Op}
    {f : Reply → World → Except SyncError α} {Q : α → Prop} {E : SyncError → World → Prop}
    {P : World → Prop} (hP : ∀ turn w, P w → P (waited turn w))
    (h : ∀ turn w, P w → A ⟨op, turn, w, waited turn w⟩ →
      match f turn.reply (waited turn w) with
      | .ok a => Q a
      | .error e => E e (waited turn w)) :
    Triple A G P (inspect op f) (fun a w => P w ∧ Q a) E := by
  refine triple_inspect fun turn w hw hA => ⟨hG _ (ticks_waited rfl) rfl, ?_⟩
  have := h turn w hw hA
  cases hf : f turn.reply (waited turn w) with
  | ok a => exact ⟨hP turn w hw, by simpa only [hf] using this⟩
  | error e => simpa only [hf] using this

theorem at_waited (turn : Turn) (w : World) (h : At d w) : At d (waited turn w) :=
  h.of_store rfl (le_refl _)

theorem sound_waited (turn : Turn) (w : World) (h : Sound w) : Sound (waited turn w) := h

theorem ioStep_idle {G : Visit World Op Turn → Prop} (hG : Idle G) (op : Op) {P : World → Prop}
    (hP : ∀ turn w, P w → P (waited turn w)) :
    Triple A G P (ioStep op id : Step World Unit) (fun _ => P) fun _ => P :=
  triple_ioStep (fun turn w hw _ => ⟨hG _ (ticks_waited rfl) rfl, hP turn w hw⟩)
    fun turn w _ hw _ => ⟨hG _ (ticks_waited rfl) rfl, hP turn w hw⟩

/-- A step that makes one change of the store, or none. -/
theorem step_spec {α : Type} {op : Op} {f : Reply → World → Except SyncError α × World}
    {P : World → Prop} {Q : α → World → Prop} {E : SyncError → World → Prop}
    (hmachine : ∀ reply w, w.machine.now ≤ (f reply w).2.machine.now ∧
      w.machine.fresh ≤ (f reply w).2.machine.fresh)
    (hP : ∀ turn w, P w → P (waited turn w))
    (hchange : ∀ reply w, P w → Change specs reads L op (f reply w).2.machine.now
      (f reply w).2.machine.fresh w.store (f reply w).2.store)
    (hpost : ∀ reply w, P w → match f reply w with
      | (.ok a, w') => Q a w'
      | (.error e, w') => E e w') :
    Triple A (Moves specs reads L) P (step op f) Q E := by
  refine triple_step (fun turn w hw _ => ⟨?_, ?_⟩) fun turn w hw _ => ?_
  · have h := hmachine turn.reply (waited turn w)
    exact ⟨(Nat.le_add_right _ _).trans h.1, h.2⟩
  · exact hchange turn.reply (waited turn w) (hP turn w hw)
  · have h := hpost turn.reply (waited turn w) (hP turn w hw)
    rcases hf : f turn.reply (waited turn w) with ⟨a | e, w'⟩ <;> simpa only [hf] using h

/-! ## Readers -/

/-- What a read may answer where `b` is on disk: nothing if it fails, and else `b`. -/
def Answers {α : Type} (reads : Prop) (b a : Option α) : Prop :=
  (a = none ∨ a = b) ∧ (reads → a = b)

theorem Answers.eq_some {α : Type} {b a : Option α} {x : α} (h : Answers reads b a)
    (ha : a = some x) : b = some x := by
  rcases h.1 with hnone | heq
  · simp [ha] at hnone
  · exact heq ▸ ha

theorem loadExtractMeta_spec {G : Visit World Op Turn → Prop} (hG : Idle G)
    (hreads : reads → ∀ v, A v → ReadsRecord v) (spec : ReleaseArchiveSpec) (side : Side)
    {E : SyncError → World → Prop} :
    Triple A G (At d) (loadExtractMeta spec side)
      (fun m w => At d w ∧ Answers reads ((d.archive side).loadedMeta spec) m) E := by
  refine inspect_spec hG at_waited fun turn w hw hA => ?_
  have hok : reads → turn.reply.io.isOk = true := fun hr => hreads hr _ hA side rfl
  cases hio : turn.reply.io with
  | ok _ => exact ⟨.inr (by rw [waited_store, hw.1]), fun _ => by rw [waited_store, hw.1]⟩
  | error e => exact ⟨.inl rfl, fun hr => by simp [hio, Except.isOk, Except.toBool] at hok; exact (hok hr).elim⟩

theorem archiveFilesPresent_spec {G : Visit World Op Turn → Prop} (hG : Idle G)
    (spec : ReleaseArchiveSpec) (side : Side) (path : DirPath) {E : SyncError → World → Prop} :
    Triple A G (At d) (archiveFilesPresent spec side path)
      (fun b w => At d w ∧ (b = true → (d.archive side).filesPresent spec path.ref = true)) E := by
  refine inspect_spec hG at_waited fun turn w hw _ => ?_
  intro hb
  rw [Bool.and_eq_true, waited_store, hw.1] at hb
  exact hb.2

theorem archiveFilesPresent_sound (spec : ReleaseArchiveSpec) (side : Side) (path : DirPath)
    {E : SyncError → World → Prop} :
    Triple A (Moves specs reads L) Sound (archiveFilesPresent spec side path)
      (fun _ => Sound) E :=
  (inspect_spec moves_idle (Q := fun _ => True) sound_waited fun _ _ _ _ => trivial).post fun _ _ h => h.1

theorem loadExtractMeta_sound (spec : ReleaseArchiveSpec) (side : Side)
    {E : SyncError → World → Prop} :
    Triple A (Moves specs reads L) Sound (loadExtractMeta spec side) (fun _ => Sound) E := by
  refine (inspect_spec moves_idle (Q := fun _ => True) sound_waited fun turn w _ _ => ?_).post
    fun _ _ h => h.1
  cases turn.reply.io <;> trivial

/-! ## Pruning -/

/-- A tree whose record is loaded is among the kept paths. -/
def Protects (keep : List DirPath) (spec : ReleaseArchiveSpec) (side : Side) (d : Store) : Prop :=
  ∀ g, Recorded d spec side g → spec.generationPath g ∈ keep

/-- Fewer entries load no other record. -/
theorem loadedMeta_of_subset {a : ArchiveDir} {ts : List GamedataStore.Tree}
    {spec : ReleaseArchiveSpec} {l : LoadedMeta}
    (hsub : ∀ t ∈ ts, ∃ u ∈ a.trees, u.generation = t.generation ∧ u.staging = t.staging)
    (h : ({ a with trees := ts } : ArchiveDir).loadedMeta spec = some l) :
    a.loadedMeta spec = some l := by
  obtain ⟨m, hm, hne, hdir, rfl⟩ := loadedMeta_eq_some.mp h
  refine loadedMeta_eq_some.mpr ⟨m, hm, hne, ?_, rfl⟩
  cases hroot : m.dataRoot with
  | root => rfl
  | elsewhere name =>
    rw [hroot] at hdir
    exact hdir
  | tree g =>
    rw [hroot] at hdir
    rw [ArchiveDir.dir?, Option.isSome_map] at hdir ⊢
    obtain ⟨t, ht, hg, hs⟩ := isSome_tree?_iff.mp hdir
    obtain ⟨u, hu, hug, hus⟩ := hsub t ht
    exact isSome_tree?_iff.mpr ⟨u, hu, hug.trans hg, hus.trans hs⟩

theorem Protects.of_subset {keep : List DirPath} {spec : ReleaseArchiveSpec}
    {f : List GamedataStore.Tree → List GamedataStore.Tree} (h : Protects keep spec side d)
    (hsub : ∀ t ∈ f (d.archive side).trees, ∃ u ∈ (d.archive side).trees,
      u.generation = t.generation ∧ u.staging = t.staging) :
    Protects keep spec side (d.onTrees side f) := by
  rintro g ⟨hreal, l, hl, hg⟩
  rw [archive_onTrees_self] at hl
  exact h g ⟨hreal, l, loadedMeta_of_subset hsub hl, hg⟩

theorem protects_rootOf {spec : ReleaseArchiveSpec} {m : Option LoadedMeta}
    (h : m = (d.archive side).loadedMeta spec) : Protects [rootOf spec m] spec side d := by
  rintro g ⟨hreal, l, hl, hg⟩
  obtain ⟨r, -, -, -, rfl⟩ := loadedMeta_eq_some.mp hl
  simp only [h, hl, rootOf, Option.elim_some, List.mem_singleton,
    ReleaseArchiveSpec.generationPath, hreal, ← hg]

theorem protects_generationPath {spec : ReleaseArchiveSpec} {m : ExtractMeta} {g : ℕ}
    {keep : List DirPath} (hm : (d.archive side).extractMeta = some m)
    (hg : m.dataRoot = .tree g) (hkeep : spec.generationPath g ∈ keep) :
    Protects keep spec side d := by
  rintro g' ⟨-, l, hl, hg'⟩
  obtain ⟨r, hr, -, -, rfl⟩ := loadedMeta_eq_some.mp hl
  obtain rfl := Option.some.inj (hm.symm.trans hr)
  obtain rfl := DirRef.tree.inj (hg.symm.trans hg')
  exact hkeep

/-- The invariant of a pruning loop. -/
def Pruning (reads : Prop) (keep : List DirPath) (spec : ReleaseArchiveSpec) (side : Side)
    (w : World) : Prop :=
  Sound w ∧ (reads → Protects keep spec side w.store)

theorem pruneEntry_spec (keep : List DirPath) (side : Side) {cutoff : ℕ} {entry : ℕ × Bool}
    (hentry : keepsEntry (specs.of side) keep entry = false) {E : SyncError → World → Prop} :
    Triple A (Moves specs reads L)
      (fun w => Pruning reads keep (specs.of side) side w ∧
        cutoff ≤ w.machine.now - releaseRetentionMs)
      (pruneEntry side cutoff entry)
      (fun _ w => Pruning reads keep (specs.of side) side w ∧
        cutoff ≤ w.machine.now - releaseRetentionMs) E := by
  have hdrop : ∀ ts, ∀ t ∈ dropWhere (Tree.expired entry.1 entry.2 cutoff) ts,
      ∃ u ∈ ts, u.generation = t.generation ∧ u.staging = t.staging := fun ts t ht =>
    ⟨t, (mem_dropWhere.mp ht).1, rfl, rfl⟩
  have hempty : ∀ ts, ∀ t ∈ updateWhere (Tree.expired entry.1 entry.2 cutoff) Tree.emptied ts,
      ∃ u ∈ ts, u.generation = t.generation ∧ u.staging = t.staging := fun ts t ht => by
    obtain ⟨u, hu, rfl⟩ := mem_updateWhere.mp ht
    refine ⟨u, hu, ?_⟩
    split <;> exact ⟨rfl, rfl⟩
  have hkept : ∀ w : World, Pruning reads keep (specs.of side) side w → entry.2 = false → reads →
      ¬ Recorded w.store (specs.of side) side entry.1 := fun w hw hs hr hrec => by
    have := hw.2 hr entry.1 hrec
    simp [keepsEntry, hs, this] at hentry
  have hchange : ∀ (w : World) f, (f = dropWhere (Tree.expired entry.1 entry.2 cutoff) ∨
      f = updateWhere (Tree.expired entry.1 entry.2 cutoff) Tree.emptied) →
      Pruning reads keep (specs.of side) side w ∧ cutoff ≤ w.machine.now - releaseRetentionMs →
      Change specs reads L (.prune side entry.1 entry.2) w.machine.now w.machine.fresh w.store
        (w.store.onTrees side f) :=
    fun w f hf hw => .prune _ side entry.1 entry.2 cutoff f rfl hw.2 (hkept w hw.1) hf
  have hnext : ∀ (w : World) f, (f = dropWhere (Tree.expired entry.1 entry.2 cutoff) ∨
      f = updateWhere (Tree.expired entry.1 entry.2 cutoff) Tree.emptied) →
      Pruning reads keep (specs.of side) side w ∧ cutoff ≤ w.machine.now - releaseRetentionMs →
      Pruning reads keep (specs.of side) side (w.onTrees side f) := fun w f hf hw =>
    ⟨(hchange w f hf hw).numbered hw.1.1, fun hr => (hw.1.2 hr).of_subset (by
      rcases hf with rfl | rfl
      · exact hdrop _
      · exact hempty _)⟩
  refine step_spec (fun reply w => ?_) (fun turn w hw => ⟨hw.1, hw.2.trans ?_⟩)
    (fun reply w hw => ?_) fun reply w hw => ?_
  · dsimp only
    split <;> exact ⟨le_refl _, le_refl _⟩
  · exact Nat.sub_le_sub_right (Nat.le_add_right _ _) _
  · dsimp only
    split
    · exact .same _
    · exact hchange w _ (.inr rfl) hw
    · exact hchange w _ (.inl rfl) hw
  · dsimp only
    cases reply with
    | fail text => exact hw
    | torn text => exact ⟨hnext w _ (.inr rfl) hw, hw.2⟩
    | ok | json | refused | body => exact ⟨hnext w _ (.inl rfl) hw, hw.2⟩

theorem pruneReleaseTrees_spec (keep : List DirPath) (side : Side)
    {E : SyncError → World → Prop} :
    Triple A (Moves specs reads L) (Pruning reads keep (specs.of side) side)
      (pruneReleaseTrees (specs.of side) side keep) (fun _ => Sound) E := by
  refine triple_bind_attempt (ioStep_idle moves_idle _ fun _ _ hw => hw) (fun _ => ?_)
    fun _ => triple_pure fun w hw => hw.1
  refine triple_bind (triple_read (Q := fun cutoff w => Pruning reads keep (specs.of side) side w ∧
    cutoff ≤ w.machine.now - releaseRetentionMs) fun w hw => ⟨hw, le_refl _⟩) fun cutoff => ?_
  have hwait : ∀ (turn : Turn) (w : World), Pruning reads keep (specs.of side) side w ∧
      cutoff ≤ w.machine.now - releaseRetentionMs →
      Pruning reads keep (specs.of side) side (waited turn w) ∧
        cutoff ≤ (waited turn w).machine.now - releaseRetentionMs := fun turn w hw =>
    ⟨hw.1, hw.2.trans (Nat.sub_le_sub_right (Nat.le_add_right _ _) _)⟩
  refine triple_bind ((inspect_spec moves_idle (Q := fun _ => True) hwait fun turn w _ _ => ?_).post
    fun _ _ h => h.1) fun entries => ?_
  · cases turn.reply.io <;> trivial
  · refine (triple_forEach fun entry hentry => ?_).post fun _ w hw => hw.1.1
    exact pruneEntry_spec keep side (by simpa using (List.mem_filter.mp hentry).2)

end Steps

end PrtsMcp.PairSync
