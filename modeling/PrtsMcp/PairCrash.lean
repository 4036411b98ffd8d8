import PrtsMcp.PairRuns

/-!
# Stopping a pair sync

Wherever a pair sync stops, a reader of the pair pointer finds the pair that stood before, or the
one the sync published, each with all its required files.
-/
namespace PrtsMcp.PairSync

open Process SyncTypes FileSteps ReleaseSync GamedataStore

/-- The pair that readers resolve has all its required files. -/
def WholePair (specs : Specs) (d : Store) : Prop :=
  ∀ m, d.activatedPair = some m → d.PairComplete specs m

instance (specs : Specs) : DecidablePred (WholePair specs) := fun d =>
  decidable_of_iff (∀ m ∈ d.activatedPair, d.PairComplete specs m) Iff.rfl

/-- The pair pointer is read, the halves of the pair are refreshed, and the sync takes less than
the retention window. -/
def Steadfast (start : ℕ) (v : Visit World Op Turn) : Prop :=
  (v.op = .readPair ∨ v.op.isTouch = true → v.reply.reply.io.isOk = true) ∧
    v.after.machine.now ≤ start + releaseRetentionMs

instance (start : ℕ) : DecidablePred (Steadfast start) := fun v =>
  inferInstanceAs (Decidable ((v.op = .readPair ∨ v.op.isTouch = true →
    v.reply.reply.io.isOk = true) ∧ v.after.machine.now ≤ start + releaseRetentionMs))

/-- The step keeps the pair that readers resolve, or publishes a complete one. -/
def Unbroken (specs : Specs) (v : Visit World Op Turn) : Prop :=
  Ticks v ∧ ((v.after.store.activatedPair = v.before.store.activatedPair ∧
      (WholePair specs v.before.store → WholePair specs v.after.store)) ∨
    Publishes specs v.before.store v.after.store)

/-- The readers' pair is whole, and is the one before the run or one that the run published. -/
def SeesWhole (specs : Specs) (w : World) (trail : List (Visit World Op Turn)) (s : World) :
    Prop :=
  WholePair specs s.store ∧ (s.store.activatedPair = w.store.activatedPair ∨
    ∃ v ∈ trail, Publishes specs v.before.store v.after.store ∧
      s.store.activatedPair = v.after.store.activatedPair)

/-- The readers' pair is whole and will not be pruned before `T` plus the window. -/
def Lasting (specs : Specs) (T : ℕ) (d : Store) : Prop :=
  ∀ m, d.activatedPair = some m → d.PairComplete specs m ∧ ∀ side, Young T d side (m.root side)

section Steps

variable {specs : Specs} {d d' : Store} {T now fresh : ℕ}

theorem Publishes.whole (h : Publishes specs d d') : WholePair specs d' := by
  obtain ⟨m, rfl, -, hfull⟩ := h
  intro m' hm'
  obtain rfl := Option.some.inj (activatedPair_eq_some.mp hm').1
  exact hfull

theorem Lasting.whole (h : Lasting specs T d) : WholePair specs d := fun m hm => (h m hm).1

/-- No step of an archive sync touches a lasting pair. -/
theorem Lasting.change {reads : Prop} {L : Side → String → ZipFile → Prop}
    {op : Op} (hc : Change specs reads L op now fresh d d') (hT : T ≤ now)
    (hnow : now ≤ T + releaseRetentionMs)
    (h : Lasting specs T d) :
    d'.activatedPair = d.activatedPair ∧ Lasting specs T d' := by
  have hsome : ∀ m, d.activatedPair = some m → ∀ side,
      (d'.archive side).dir? (m.root side) = (d.archive side).dir? (m.root side) :=
    fun m hm side => hc.dir?_eq (named_of_pair (activatedPair_eq_some.mp hm).1 side)
      fun _ _ _ => .inr fun g hg t ht htg hs =>
        (Nat.sub_le_of_le_add hnow).trans ((h m hm).2 side g hg t ht htg hs)
  have hback : ∀ m, d'.activatedPair = some m → d.activatedPair = some m := fun m hm => by
    obtain ⟨hpair, hsha, hdirs⟩ := activatedPair_eq_some.mp hm
    rw [hc.pair_eq] at hpair
    refine activatedPair_eq_some.mpr ⟨hpair, hsha, fun side => ?_⟩
    by_contra hnone
    have := hc.dir?_none (named_of_pair hpair side) (Option.not_isSome_iff_eq_none.mp hnone)
    exact absurd (hdirs side) (by simp [this])
  have heq : d'.activatedPair = d.activatedPair := by
    refine Option.ext fun m => ⟨hback m, fun hm => ?_⟩
    obtain ⟨hpair, hsha, hdirs⟩ := activatedPair_eq_some.mp hm
    refine activatedPair_eq_some.mpr ⟨hc.pair_eq.trans hpair, hsha, fun side => ?_⟩
    rw [hsome m hm side]
    exact hdirs side
  refine ⟨heq, fun m hm => ?_⟩
  have hm' := hback m hm
  refine ⟨(pairComplete_congr (hsome m hm')).mpr (h m hm').1, fun side => ?_⟩
  exact ((h m hm').2 side).change hc (named_of_pair (activatedPair_eq_some.mp hm').1 side) hT

theorem unbroken_idle : Idle (Unbroken specs) := fun _ ht h => ⟨ht, .inl (by rw [h]; exact ⟨rfl, id⟩)⟩

theorem unbroken_publishing : Publishing specs (Unbroken specs) := fun _ ht h => ⟨ht, .inr h⟩

theorem Unbroken.whole {v : Visit World Op Turn} (h : Unbroken specs v)
    (hb : WholePair specs v.before.store) : WholePair specs v.after.store := by
  rcases h.2 with ⟨-, hkept⟩ | hp
  · exact hkept hb
  · exact hp.whole

/-- Refreshing a tree moves no reference. -/
theorem dir?_touch (side other : Side) (g now : ℕ) (ref : DirRef) :
    ((d.onTrees side (updateWhere (Tree.is g false) (Tree.touched now))).archive other).dir? ref =
      (d.archive other).dir? ref := by
  by_cases h : other = side
  · subst h
    rw [archive_onTrees_self]
    cases ref with
    | root => rfl
    | elsewhere name => rfl
    | tree g' =>
      simp only [ArchiveDir.dir?, ArchiveDir.tree?]
      rw [find?_updateWhere (g := Tree.touched now) fun t _ => rfl, Option.map_map]
      congr 1
      funext t
      rw [Function.comp_apply]
      split <;> rfl
  · rw [archive_onTrees_of_ne h]

theorem activatedPair_touch (side : Side) (g now : ℕ) :
    (d.onTrees side (updateWhere (Tree.is g false) (Tree.touched now))).activatedPair =
      d.activatedPair := by
  refine Option.ext fun m => ?_
  simp only [activatedPair_eq_some, pair_onTrees, dir?_touch]

/-- The pair of the readers, with some of its halves refreshed. -/
structure Held (specs : Specs) (T : ℕ) (m : PairMeta) (sides : List Side) (w : World) : Prop where
  sound : Sound w
  le : T ≤ w.machine.now
  pair : w.store.activatedPair = some m
  full : w.store.PairComplete specs m
  young : ∀ side ∈ sides, Young T w.store side (m.root side)

theorem Held.lasting {m : PairMeta} {w : World} (h : Held specs T m [.levels, .excel] w) :
    Lasting specs T w.store := by
  intro m' hm'
  obtain rfl := Option.some.inj (h.pair.symm.trans hm')
  exact ⟨h.full, fun side => h.young side (by cases side <;> simp)⟩

theorem Held.wait {m : PairMeta} {sides : List Side} (turn : Turn) (w : World)
    (h : Held specs T m sides w) : Held specs T m sides (waited turn w) :=
  ⟨h.sound, h.le.trans (Nat.le_add_right _ _), h.pair, h.full, h.young⟩

theorem Held.touch {m : PairMeta} {sides : List Side} {w : World} {side : Side} {g : ℕ}
    (h : Held specs T m sides w) (hg : m.root side = .tree g) :
    Held specs T m (side :: sides)
      (w.onTrees side (updateWhere (Tree.is g false) (Tree.touched w.machine.now))) where
  sound := sound_touch w g h.sound
  le := h.le
  pair := (activatedPair_touch side g _).trans h.pair
  full := (pairComplete_congr fun other => dir?_touch side other g _ _).mpr h.full
  young other hother := by
    have hpair := (activatedPair_eq_some.mp h.pair).1
    rcases List.mem_cons.mp hother with rfl | hmem
    · intro g' hg' t ht htg hs
      obtain rfl := DirRef.tree.inj (hg.symm.trans hg')
      rw [onTrees_store, archive_onTrees_self] at ht
      obtain ⟨u, -, rfl⟩ := mem_updateWhere.mp ht
      split at htg
      · next hp =>
        rw [hp]
        exact h.le
      · next hp =>
        rw [if_neg hp] at hs
        exact absurd (is_iff.mpr ⟨htg, hs⟩) hp
    · have hc : Change specs False (fun _ _ _ => True) (.touch side g) w.machine.now
          w.machine.fresh w.store
          (w.store.onTrees side (updateWhere (Tree.is g false) (Tree.touched w.machine.now))) :=
        .touch _ side g
      exact (h.young other hmem).change hc (named_of_pair hpair other) h.le

end Steps

section Run

variable {specs : Specs} {T : ℕ} {E : SyncError → World → Prop}

theorem isOk_io {reply : Reply} (h : reply.io.isOk = true) : reply.io = .ok () := by
  cases hio : reply.io with
  | ok _ => rfl
  | error e => simp [hio, Except.isOk, Except.toBool] at h

theorem touch_held {m : PairMeta} {sides : List Side} (side : Side) (base : List String) :
    Triple (Steadfast T) (Unbroken specs) (Held specs T m sides)
      (touch side ⟨base, m.root side⟩) (fun _ => Held specs T m (side :: sides)) E := by
  cases hroot : m.root side with
  | tree g =>
    refine triple_ignore (R := Held specs T m (side :: sides)) (triple_ioStep_of_ok
      (fun turn s s' hA => isOk_io (hA.1 (.inr rfl))) fun turn w hw => ⟨⟨?_, .inl ⟨?_, ?_⟩⟩, ?_⟩)
    · exact ticks_waited rfl
    · exact activatedPair_touch side g _
    · intro hwhole m' hm'
      rw [onTrees_store, activatedPair_touch] at hm'
      exact (pairComplete_congr fun other => dir?_touch side other g _ _).mpr (hwhole m' hm')
    · exact (hw.wait turn w).touch hroot
  | root | elsewhere =>
    all_goals
      refine triple_pure fun w hw => ⟨hw.sound, hw.le, hw.pair, hw.full, fun other hother => ?_⟩
      rcases List.mem_cons.mp hother with rfl | hmem
      · exact fun g hg => by simp [hroot] at hg
      · exact hw.young other hmem

/-- Before the halves of the pair are refreshed. -/
def Entering (specs : Specs) (T : ℕ) (w : World) : Prop :=
  Sound w ∧ T ≤ w.machine.now ∧ WholePair specs w.store

/-- After they are refreshed. -/
def Working (specs : Specs) (T : ℕ) (w : World) : Prop :=
  Sound w ∧ T ≤ w.machine.now ∧ Lasting specs T w.store

theorem entering_waited (turn : Turn) (w : World) (h : Entering specs T w) :
    Entering specs T (waited turn w) := ⟨h.1, h.2.1.trans (Nat.le_add_right _ _), h.2.2⟩

theorem Working.entering {w : World} (h : Working specs T w) : Entering specs T w :=
  ⟨h.1, h.2.1, h.2.2.whole⟩

/-- A process whose steps keep or publish the pair leaves it whole. -/
theorem entering_spec {α : Type} {p : Step World α}
    (h : Triple (Steadfast T) (Unbroken specs) Sound p (fun _ => Sound) fun _ => Sound) :
    Triple (Steadfast T) (Unbroken specs) (Entering specs T) p (fun _ => Entering specs T)
      fun _ => Entering specs T :=
  (h.invariant (I := fun w : World => T ≤ w.machine.now ∧ WholePair specs w.store)
    fun _ _ hv hb => ⟨hb.1.trans hv.1.1, hv.whole hb.2⟩).conseq (fun _ h => h) (fun _ h => h)
      (fun _ h => h.2.1) (fun _ _ h => h) fun _ _ h => h

theorem touchPair_working :
    Triple (Steadfast T) (Unbroken specs) (Entering specs T) (touchPair specs)
      (fun _ => Working specs T) E := by
  refine triple_of_forall (f := World.store) fun d => ?_
  refine triple_bind (R := fun current w => (Entering specs T w ∧ w.store = d) ∧
    current = d.loadedPair specs) (triple_inspect fun turn w hw hA => ?_) fun current =>
      triple_fact fun hcurrent => ?_
  · refine ⟨unbroken_idle _ (ticks_waited rfl) rfl, ?_⟩
    rw [isOk_io (hA.1 (.inl rfl))]
    exact ⟨⟨entering_waited turn w hw.1, hw.2⟩, congrArg (Store.loadedPair · specs) hw.2⟩
  · cases current with
    | none =>
      refine triple_pure fun w hw => ⟨hw.1.1, hw.1.2.1, fun m hm => ?_⟩
      obtain ⟨⟨-, -, hwhole⟩, rfl⟩ := hw
      obtain ⟨hpair, hsha, -⟩ := activatedPair_eq_some.mp hm
      have := loadedPair_eq_some.mpr ⟨hpair, hsha, hwhole m hm⟩
      simp [← hcurrent] at this
    | some m =>
      obtain ⟨hpair, hsha, hfull⟩ := loadedPair_eq_some.mp hcurrent.symm
      refine triple_bind (R := fun _ => Held specs T m [.excel])
        ((touch_held .excel _).pre fun w hw => ?_) fun _ =>
          (touch_held .levels _).post fun _ w hw => ⟨hw.sound, hw.le, hw.lasting⟩
      obtain ⟨hent, rfl⟩ := hw
      exact ⟨hent.1, hent.2.1, activatedPair_of_complete hpair hsha hfull, hfull, by simp⟩

theorem syncReleaseArchive_working (side : Side) (mirrors : List String) (forceCheck : Bool) :
    Triple (Steadfast T) (Unbroken specs) (Working specs T)
      (syncReleaseArchive mirrors (specs.of side) side forceCheck) (fun _ => Working specs T)
      fun _ => Entering specs T := by
  have hmoves : Triple (Steadfast T) (Moves specs False fun _ _ _ => True) Sound
      (syncReleaseArchive mirrors (specs.of side) side forceCheck) (fun _ => Sound)
      fun _ => Sound :=
    syncReleaseArchive_spec (fun hf => hf.elim) (fun _ _ _ _ _ _ _ => trivial) side mirrors
      forceCheck
  have hstep : ∀ v, Steadfast T v → Moves specs False (fun _ _ _ => True) v →
      T ≤ v.before.machine.now ∧ Lasting specs T v.before.store →
      v.after.store.activatedPair = v.before.store.activatedPair ∧
        Lasting specs T v.after.store := fun v hA hv hb =>
    hb.2.change hv.2 (hb.1.trans hv.1.1) hA.2
  refine (hmoves.invariant (I := fun w : World => T ≤ w.machine.now ∧ Lasting specs T w.store)
    fun v hA hv hb => ⟨hb.1.trans hv.1.1, (hstep v hA hv hb).2⟩).conseq (fun _ h => h)
      (fun _ h => h) (fun v hv => ?_) (fun _ _ h => h) fun _ _ h => Working.entering h
  obtain ⟨hA, hmove, hb, ha⟩ := hv
  exact ⟨hmove.1, .inl ⟨(hstep v hA hmove hb).1, fun _ => ha.2.whole⟩⟩

theorem ensureSource_entering :
    Triple (Steadfast T) (Unbroken specs) (Entering specs T) ensureSourceOrThrow
      (fun _ => Entering specs T) fun _ => Entering specs T := by
  refine triple_bind ((inspect_spec unbroken_idle (Q := fun _ => True) entering_waited
    fun _ _ _ _ => trivial).post fun _ _ h => h.1) fun source => ?_
  exact orThrow_spec _ (fun _ _ _ hw => hw) fun _ _ hw => hw

/-- Every step of a pair sync keeps the readers' pair or publishes a complete one. -/
theorem syncReleaseArchivePair_unbroken (mirrors : List String) (forceCheck : Bool) :
    Triple (Steadfast T) (Unbroken specs) (Entering specs T)
      (syncReleaseArchivePair mirrors specs forceCheck) (fun _ => Entering specs T)
      fun _ => Entering specs T := by
  unfold syncReleaseArchivePair
  split
  · refine underLock_spec unbroken_idle entering_waited entering_waited ?_ fun w hw => hw
    refine triple_bind ensureSource_entering fun _ => triple_bind ensureSource_entering fun _ => ?_
    refine triple_bind (entering_spec (of_at fun d => initializeGamedataPair_spec unbroken_idle
      unbroken_publishing)) fun _ => ?_
    refine triple_bind touchPair_working fun _ => ?_
    refine triple_bind (syncReleaseArchive_working .excel mirrors forceCheck) fun _ => ?_
    refine triple_bind (syncReleaseArchive_working .levels mirrors forceCheck) fun _ => ?_
    refine triple_bind ((entering_spec (of_at fun d => publishPair_spec unbroken_idle
      unbroken_publishing)).pre fun w hw => hw.entering) fun _ => ?_
    exact triple_pure fun w hw => hw
  · exact triple_throw fun w hw => hw

/-- At every point of a pair sync, readers of the pair find the one from before the sync or one it
has published, whole. -/
theorem syncReleaseArchivePair_crashConsistent (specs : Specs) (mirrors : List String)
    (forceCheck : Bool) (w : World) (turns : List Turn) (hnumbered : Sound w)
    (hwhole : WholePair specs w.store)
    (h : ∀ v ∈ ((syncReleaseArchivePair mirrors specs forceCheck).run w turns).trail,
      Steadfast w.machine.now v) :
    let trail := ((syncReleaseArchivePair mirrors specs forceCheck).run w turns).trail
    ∀ s ∈ w :: trail.map Visit.after, SeesWhole specs w trail s := by
  intro trail
  have hsteps : ∀ v ∈ trail, Unbroken specs v :=
    (syncReleaseArchivePair_unbroken mirrors forceCheck w turns ⟨hnumbered, le_refl _, hwhole⟩ h).1
  have hstart : SeesWhole specs w trail w := ⟨hwhole, .inl rfl⟩
  have hsees := (((syncReleaseArchivePair mirrors specs forceCheck).linked w turns).invariant
    hstart fun v hv hb => by
      refine ⟨(hsteps v hv).whole hb.1, ?_⟩
      rcases (hsteps v hv).2 with ⟨heq, -⟩ | hp
      · rw [heq]
        exact hb.2
      · exact .inr ⟨v, hv, hp, rfl⟩).1
  intro s hs
  rcases List.mem_cons.mp hs with rfl | hs
  · exact hstart
  · obtain ⟨v, hv, rfl⟩ := List.mem_map.mp hs
    exact (hsees v hv).2

theorem Publishes.activatedPair_isSome {d d' : Store} (h : Publishes specs d d') :
    d'.activatedPair.isSome = true := by
  obtain ⟨m, rfl, hm, hfull⟩ := h
  refine Option.isSome_iff_exists.mpr ⟨m, activatedPair_of_complete rfl ?_ hfull⟩
  rcases hm with hfrom | rfl
  · obtain ⟨r, -, -, hsha, hne⟩ := hfrom.root .excel
    exact hsha ▸ hne
  · decide

end Run

/-- Excel is one release ahead of the pair, whose excel tree is a day old. -/
def aheadExcel : ArchiveDir :=
  ⟨some ⟨"b", .tree 2⟩, ⟨[], "", ""⟩, fun _ => none,
    [⟨1, false, 0, ⟨["e"], "a", "a"⟩⟩, ⟨2, false, 90000000, ⟨["e"], "b", "b"⟩⟩]⟩

def aheadWorld : World :=
  ⟨⟨90000000, 3, []⟩, fun _ => ⟨.absent, none⟩,
    ⟨fun
      | .excel => aheadExcel
      | .levels => ⟨some ⟨"a", .tree 1⟩, ⟨[], "", ""⟩, fun _ => none,
        [⟨1, false, 0, ⟨["l"], "a", "a"⟩⟩]⟩,
      some ⟨"a", .tree 1, .tree 1⟩⟩⟩

/-- Offline, with both halves of the pair refreshed. -/
theorem syncReleaseArchivePair_crashConsistent_aheadWorld :
    let trail := ((syncReleaseArchivePair [] exampleSpecs true).run aheadWorld
      (turnsWith 90 [])).trail
    ∀ s ∈ aheadWorld :: trail.map Visit.after, SeesWhole exampleSpecs aheadWorld trail s :=
  syncReleaseArchivePair_crashConsistent exampleSpecs [] true aheadWorld (turnsWith 90 [])
    (by decide +kernel) (by decide +kernel) (by decide +kernel)

/-- The excel half cannot be refreshed: it is pruned while the pair still names it. -/
theorem syncReleaseArchivePair_not_crashConsistent :
    ¬ (let trail := ((syncReleaseArchivePair [] exampleSpecs true).run aheadWorld
        (turnsWith 90 [(6, .fail "EPERM")])).trail
      ∀ s ∈ aheadWorld :: trail.map Visit.after, SeesWhole exampleSpecs aheadWorld trail s) := by
  intro h
  have hlost : ∃ s ∈ aheadWorld :: ((syncReleaseArchivePair [] exampleSpecs true).run aheadWorld
      (turnsWith 90 [(6, .fail "EPERM")])).trail.map Visit.after,
      s.store.activatedPair = none := by decide +kernel
  obtain ⟨s, hs, hnone⟩ := hlost
  rcases (h s hs).2 with heq | ⟨v, -, hp, heq⟩
  · exact absurd (heq.symm.trans hnone) (by decide +kernel)
  · have := hp.activatedPair_isSome
    rw [← heq, hnone] at this
    exact absurd this (by decide)

end PrtsMcp.PairSync
