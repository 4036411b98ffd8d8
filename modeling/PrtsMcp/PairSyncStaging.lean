import PrtsMcp.PairSyncSteps

/-!
# What extraction and activation do

A staging directory under a fresh number is filled, checked and renamed before the extract record
names it.
-/
namespace PrtsMcp.PairSync

open Process SyncTypes FileSteps ReleaseSync GamedataStore ZipValidation

/-- Extraction under a fresh number is under way. -/
structure Staging (side : Side) (g : ℕ) (label release : String) (w : World) : Prop where
  sound : Sound w
  lt : g < w.machine.fresh
  unnamed : Unnamed w.store side g
  trees : ∀ t ∈ (w.store.archive side).trees, t.generation = g →
    t.staging = true ∧ t.dir.label = label ∧ t.dir.release = release
  unique : ∀ t ∈ (w.store.archive side).trees, ∀ u ∈ (w.store.archive side).trees,
    t.generation = g → u.generation = g → t = u

/-- The staging directory has all the required files. -/
def Staged (spec : ReleaseArchiveSpec) (side : Side) (g : ℕ) (label : String) (w : World) : Prop :=
  (∃ release, Staging side g label release w) ∧
    ∀ t ∈ (w.store.archive side).trees, t.generation = g →
      t.dir.hasAll spec.requiredFiles = true

/-- The new tree stands under its final name. -/
def Activated (spec : ReleaseArchiveSpec) (side : Side) (g : ℕ) (label : String) (w : World) :
    Prop :=
  Sound w ∧ Extracted spec side g label w.store

section Restaging

variable {L : String → ZipFile → Prop} {fresh g now : ℕ} {ts : List GamedataStore.Tree}
  {label dest : String} {z : ZipFile}

theorem filter_activated_updateWhere {f : GamedataStore.Tree → GamedataStore.Tree}
    (hf : ∀ t, (f t).staging = t.staging) :
    (updateWhere (Tree.is g true) f ts).filter (fun t => !t.staging) =
      ts.filter fun t => !t.staging := by
  induction ts with
  | nil => rfl
  | cons t ts ih =>
    rw [updateWhere, List.map_cons, List.filter_cons, List.filter_cons]
    have hhead : (if t.is g true then f t else t).staging = t.staging := by
      split
      · exact hf t
      · rfl
    rw [hhead]
    cases hs : t.staging with
    | true => exact ih
    | false =>
      have hp : t.is g true = false := by simp [Tree.is, hs]
      rw [hp]
      exact congrArg (t :: ·) ih

theorem filter_activated_dropWhere :
    (dropWhere (Tree.is g true) ts).filter (fun t => !t.staging) =
      ts.filter fun t => !t.staging := by
  rw [dropWhere, List.filter_filter]
  refine List.filter_congr fun t _ => ?_
  cases hs : t.staging <;> simp [Tree.is, hs]

theorem restaged_updateWhere {f : GamedataStore.Tree → GamedataStore.Tree}
    (hf : ∀ t, (f t).staging = t.staging ∧ (f t).generation = t.generation ∧
      (f t).dir.label = t.dir.label ∧ (f t).dir.release = t.dir.release) :
    Restaged L fresh ts (updateWhere (Tree.is g true) f ts) where
  activated := filter_activated_updateWhere fun t => (hf t).1
  staged t ht hs := by
    obtain ⟨u, hu, rfl⟩ := mem_updateWhere.mp ht
    obtain ⟨hus, hug, hul, hur⟩ := hf u
    refine .inl ⟨u, hu, ?_⟩
    cases hp : u.is g true with
    | true =>
      simp only [hp, if_true] at hs ⊢
      exact ⟨hus.symm.trans hs, hug.symm, hul.symm, hur.symm⟩
    | false => simpa [hp] using hs

theorem restaged_dropWhere : Restaged L fresh ts (dropWhere (Tree.is g true) ts) where
  activated := filter_activated_dropWhere
  staged t ht hs := .inl ⟨t, (mem_dropWhere.mp ht).1, hs, rfl, rfl, rfl⟩

theorem restaged_append {x : Dir} (hlt : g < fresh) (hL : L label z) (hlabel : x.label = label)
    (hrelease : x.release = z.release) : Restaged L fresh ts (ts ++ [⟨g, true, now, x⟩]) where
  activated := by simp [List.filter_append]
  staged t ht hs := by
    rcases List.mem_append.mp ht with ht | ht
    · exact .inl ⟨t, ht, hs, rfl, rfl, rfl⟩
    · obtain rfl := List.mem_singleton.mp ht
      exact .inr ⟨hlt, z, hlabel ▸ hL, hrelease⟩

theorem restaged_stageFile (hlt : g < fresh) (hL : L label z) :
    Restaged L fresh ts (stageFile g now z.release label dest ts) := by
  unfold stageFile
  split
  · exact restaged_updateWhere fun t => ⟨rfl, rfl, rfl, rfl⟩
  · exact restaged_append hlt hL rfl rfl

theorem restaged_stageDir (hlt : g < fresh) (hL : L label z) :
    Restaged L fresh ts (stageDir g now z.release label ts) := by
  unfold stageDir
  split
  · exact ⟨rfl, fun t ht hs => .inl ⟨t, ht, hs, rfl, rfl, rfl⟩⟩
  · exact restaged_append hlt hL rfl rfl

end Restaging

/-- The directory under a number, while it is staged: one at most, with its label and release. -/
def OneStaged (g : ℕ) (label release : String) (ts : List GamedataStore.Tree) : Prop :=
  (∀ t ∈ ts, t.generation = g →
    t.staging = true ∧ t.dir.label = label ∧ t.dir.release = release) ∧
  ∀ t ∈ ts, ∀ u ∈ ts, t.generation = g → u.generation = g → t = u

section Staging

variable {g now : ℕ} {label release dest : String} {ts : List GamedataStore.Tree}

theorem OneStaged.updateWhere {p : GamedataStore.Tree → Bool}
    {f : GamedataStore.Tree → GamedataStore.Tree} (h : OneStaged g label release ts)
    (hf : ∀ t, (f t).staging = t.staging ∧ (f t).generation = t.generation ∧
      (f t).dir.label = t.dir.label ∧ (f t).dir.release = t.dir.release) :
    OneStaged g label release (updateWhere p f ts) := by
  have hgen : ∀ t, (if p t then f t else t).generation = t.generation := fun t => by
    split
    · exact (hf t).2.1
    · rfl
  refine ⟨fun t ht hg => ?_, fun t ht u hu htg hug => ?_⟩
  · obtain ⟨t, hmem, rfl⟩ := mem_updateWhere.mp ht
    obtain ⟨hs, hl, hr⟩ := h.1 t hmem (hgen t ▸ hg)
    obtain ⟨hfs, -, hfl, hfr⟩ := hf t
    split
    · exact ⟨hfs.trans hs, hfl.trans hl, hfr.trans hr⟩
    · exact ⟨hs, hl, hr⟩
  · obtain ⟨t, htmem, rfl⟩ := mem_updateWhere.mp ht
    obtain ⟨u, humem, rfl⟩ := mem_updateWhere.mp hu
    rw [h.2 t htmem u humem (hgen t ▸ htg) (hgen u ▸ hug)]

theorem OneStaged.append {x : Dir} (h : OneStaged g label release ts)
    (hnone : ts.any (Tree.is g true) = false) (hlabel : x.label = label)
    (hrelease : x.release = release) :
    OneStaged g label release (ts ++ [⟨g, true, now, x⟩]) := by
  have habsent : ∀ t ∈ ts, t.generation ≠ g := fun t ht hg => by
    have := List.any_eq_false.mp hnone t ht
    simp [is_iff, hg, (h.1 t ht hg).1] at this
  have hnew : ∀ t ∈ ts ++ [⟨g, true, now, x⟩], t.generation = g → t = ⟨g, true, now, x⟩ :=
    fun t ht hg => by
      rcases List.mem_append.mp ht with ht | ht
      · exact (habsent t ht hg).elim
      · exact List.mem_singleton.mp ht
  refine ⟨fun t ht hg => ?_, fun t ht u hu htg hug => (hnew t ht htg).trans (hnew u hu hug).symm⟩
  obtain rfl := hnew t ht hg
  exact ⟨rfl, hlabel, hrelease⟩

theorem OneStaged.stageFile (h : OneStaged g label release ts) :
    OneStaged g label release (stageFile g now release label dest ts) := by
  unfold PairSync.stageFile
  split
  · exact h.updateWhere fun _ => ⟨rfl, rfl, rfl, rfl⟩
  · next hany => exact h.append (Bool.not_eq_true _ ▸ hany) rfl rfl

theorem OneStaged.stageDir (h : OneStaged g label release ts) :
    OneStaged g label release (stageDir g now release label ts) := by
  unfold PairSync.stageDir
  split
  · exact h
  · next hany => exact h.append (Bool.not_eq_true _ ▸ hany) rfl rfl

end Staging

section Steps

variable {specs : Specs} {reads : Prop} {L : Side → String → ZipFile → Prop}
  {A : Visit World Op Turn → Prop} {side : Side} {g : ℕ} {label : String}

theorem Staging.oneStaged {release : String} {w : World} (h : Staging side g label release w) :
    OneStaged g label release (w.store.archive side).trees := ⟨h.trees, h.unique⟩

theorem Staging.onTrees {release : String} {w : World} {op : Op}
    {f : List GamedataStore.Tree → List GamedataStore.Tree} (h : Staging side g label release w)
    (hchange : Change specs reads L op w.machine.now w.machine.fresh w.store (w.store.onTrees side f))
    (hf : OneStaged g label release (f (w.store.archive side).trees)) :
    Staging side g label release (w.onTrees side f) where
  sound := hchange.numbered h.sound
  lt := h.lt
  unnamed := ⟨fun m hm => h.unnamed.record m (by simpa using hm), h.unnamed.pair⟩
  trees := by simpa using hf.1
  unique := by simpa using hf.2

theorem openZip_spec (hL : ∀ v z, A v → v.op = .extract side label →
      (v.before.release side).zip = .file z → L side label z) :
    Triple A (Moves specs reads L) (fun w => Sound w ∧ w.machine.fresh = g) (openZip side label)
      (fun opened w => Staging side g label opened.1.release w ∧ L side label opened.1)
      fun _ => Sound := by
  have hsound : ∀ w : World, Sound w → Sound
      (OnMachine.onMachine (fun m => { m with fresh := m.fresh + 1 }) w) := fun w hw =>
    hw.mono (Nat.le_succ _)
  refine triple_step (fun turn w hw _ => ?_) fun turn w hw hA => ?_
  · have hticks : Ticks (⟨.extract side label, turn, w, OnMachine.onMachine
        (fun m => { m with fresh := m.fresh + 1 }) (waited turn w)⟩ : Visit World Op Turn) :=
      ticks_of_machine (f := fun m => { m with fresh := m.fresh + 1 })
        (fun m => ⟨le_refl _, Nat.le_succ _⟩) rfl
    refine moves_of_store ?_ ?_ <;> dsimp only <;> split <;>
      first | exact hticks | rfl | (split <;> first | exact hticks | rfl)
  · dsimp only
    cases turn.reply.io with
    | error e => exact hsound _ hw.1
    | ok _ =>
      cases hzip : ((waited turn w).release side).zip with
      | absent => exact hsound _ hw.1
      | notFile => exact hsound _ hw.1
      | file z =>
        dsimp only
        cases z.archive with
        | error text => exact hsound _ hw.1
        | ok entries =>
          obtain ⟨hnum, rfl⟩ := hw
          refine ⟨⟨hsound _ hnum, Nat.lt_succ_self _, ⟨fun m hm hg => ?_, fun m hm hg => ?_⟩,
            fun t ht hg => ?_, fun t ht u _ hg => ?_⟩, hL _ z hA rfl hzip⟩
          · exact (hnum.records side m _ hm hg).ne rfl
          · exact (hnum.pair side m _ hm hg).ne rfl
          · exact ((hnum.trees side t ht).ne hg).elim
          · exact ((hnum.trees side t ht).ne hg).elim

theorem extractEntry_spec {z : ZipFile} (hz : L side label z) (e : ZipEntry) :
    Triple A (Moves specs reads L) (Staging side g label z.release)
      (extractEntry side label g z e) (fun _ => Staging side g label z.release)
      fun _ => Sound := by
  unfold extractEntry
  split
  · exact triple_throw fun w hw => hw.sound
  · split
    · exact triple_pure fun w hw => hw
    · split
      · exact triple_throw fun w hw => hw.sound
      · next dest _ =>
        have hfile : ∀ w : World, Staging side g label z.release w →
            Change specs reads L (.extractEntry side g) w.machine.now w.machine.fresh w.store (w.store.onTrees side
              (stageFile g w.machine.now z.release label dest)) := fun w hw =>
          .stage _ side _ (restaged_stageFile hw.lt hz)
        have hdir : ∀ w : World, Staging side g label z.release w →
            Change specs reads L (.extractEntry side g) w.machine.now w.machine.fresh w.store (w.store.onTrees side
              (stageDir g w.machine.now z.release label)) := fun w hw =>
          .stage _ side _ (restaged_stageDir hw.lt hz)
        refine step_spec (fun reply w => ?_) (fun turn w hw => ⟨hw.1, hw.2, hw.3, hw.4, hw.5⟩)
          (fun reply w hw => ?_) fun reply w hw => ?_
        · split <;> exact ⟨le_refl _, le_refl _⟩
        · split
          · exact .same _
          · exact hdir w hw
          · exact hfile w hw
        · cases reply with
          | fail text => exact hw.sound
          | torn text => exact (hw.onTrees (hdir w hw) hw.oneStaged.stageDir).sound
          | ok | json | refused | body => exact hw.onTrees (hfile w hw) hw.oneStaged.stageFile

theorem checkStaging_spec {release : String} :
    Triple A (Moves specs reads L) (Staging side g label release)
      (checkStaging (specs.of side) side g) (fun _ => Staged (specs.of side) side g label)
      fun _ => Sound := by
  refine triple_inspect fun turn w hw _ => ⟨moves_of_store (ticks_waited rfl) rfl, ?_⟩
  have hwait : Staging side g label release (waited turn w) := ⟨hw.1, hw.2, hw.3, hw.4, hw.5⟩
  cases turn.reply.io with
  | error e =>
    dsimp only
    split
    · next h =>
      split at h
      · next hnone => exact ⟨⟨_, hwait⟩, fun t _ _ => by simp [Dir.hasAll, hnone]⟩
      · simp at h
    · exact hw.sound
  | ok _ =>
    dsimp only
    split
    · next h =>
      split at h
      · next hmissing =>
        refine ⟨⟨_, hwait⟩, fun t ht hg => ?_⟩
        have hfound : ((waited turn w).store.archive side).trees.find? (Tree.is g true) =
            some t := by
          have hsome : (((waited turn w).store.archive side).trees.find? (Tree.is g true)).isSome =
              true := List.find?_isSome.mpr ⟨t, ht, is_iff.mpr ⟨hg, (hwait.trees t ht hg).1⟩⟩
          obtain ⟨u, hu⟩ := Option.isSome_iff_exists.mp hsome
          have hug := (is_iff.mp (List.find?_some hu)).1
          rw [hu, hwait.unique t ht u (List.mem_of_find?_eq_some hu) hg hug]
        rw [missingFiles, hfound, List.filter_eq_nil_iff] at hmissing
        simpa [Dir.hasAll] using hmissing
      · simp at h
    · exact hw.sound

theorem change_removeStaging (w : World) (op : Op) (side : Side) (g : ℕ) :
    Change specs reads L op w.machine.now w.machine.fresh w.store
        (w.store.onTrees side (dropWhere (Tree.is g true))) ∧
      Change specs reads L op w.machine.now w.machine.fresh w.store
        (w.store.onTrees side (updateWhere (Tree.is g true) Tree.emptied)) :=
  ⟨.stage _ side _ restaged_dropWhere,
    .stage _ side _ (restaged_updateWhere fun _ => ⟨rfl, rfl, rfl, rfl⟩)⟩

theorem removeStaging_spec (side : Side) (g : ℕ) {E : SyncError → World → Prop} :
    Triple A (Moves specs reads L) Sound
      (Prog.ignore (removeStaging side g) : Step World Unit) (fun _ => Sound) E := by
  refine triple_ignore (R := Sound) (step_spec (fun reply w => ?_) sound_waited
    (fun reply w hw => ?_) fun reply w hw => ?_)
  · split <;> exact ⟨le_refl _, le_refl _⟩
  · split
    · exact .same _
    · exact (change_removeStaging w _ side g).2
    · exact (change_removeStaging w _ side g).1
  · cases reply with
    | fail text => exact hw
    | torn text => exact hw.updateWhere fun _ => rfl
    | ok | json | refused | body => exact hw.dropWhere

theorem extractTo_spec (hL : ∀ v z, A v → v.op = .extract side label →
      (v.before.release side).zip = .file z → L side label z) :
    Triple A (Moves specs reads L) (fun w => Sound w ∧ w.machine.fresh = g)
      (extractTo (specs.of side) side label g) (fun _ => Staged (specs.of side) side g label)
      fun _ => Sound := by
  refine triple_bind (openZip_spec hL) fun opened => triple_fact fun hz => ?_
  refine triple_bind (triple_forEach fun e _ => extractEntry_spec hz e) fun _ => ?_
  exact checkStaging_spec

theorem stageReleaseTree_spec (hL : ∀ v z, A v → v.op = .extract side label →
      (v.before.release side).zip = .file z → L side label z) :
    Triple A (Moves specs reads L) Sound (stageReleaseTree (specs.of side) side label)
      (fun g => Staged (specs.of side) side g label) fun _ => Sound := by
  refine triple_bind (ioStep_idle moves_idle _ sound_waited) fun _ => ?_
  refine triple_bind (triple_read (Q := fun g w => Sound w ∧ w.machine.fresh = g)
    fun w hw => ⟨hw, rfl⟩) fun g => ?_
  refine triple_bind_attempt (extractTo_spec hL) (fun _ => triple_pure fun w hw => hw) fun e => ?_
  exact triple_bind (removeStaging_spec side g) fun _ => triple_throw fun _ hw => hw

end Steps

end PrtsMcp.PairSync
