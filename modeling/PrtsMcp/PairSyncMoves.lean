import PrtsMcp.PairSyncStaging

/-!
# What a pair sync does

Every step of the archive sync and of the pair sync is one of the changes of the store.
-/
namespace PrtsMcp.PairSync

open Process SyncTypes FileSteps ReleaseSync GamedataStore

section Activation

variable {specs : Specs} {reads : Prop} {L : Side → String → ZipFile → Prop}
  {A : Visit World Op Turn → Prop} {side : Side} {g : ℕ} {label : String}

theorem touch_spec {P : World → Prop} (hP : ∀ turn w, P w → P (waited turn w))
    (htouch : ∀ w g, P w →
      P (w.onTrees side (updateWhere (Tree.is g false) (Tree.touched w.machine.now))))
    (path : DirPath) {E : SyncError → World → Prop} :
    Triple A (Moves specs reads L) P (touch side path) (fun _ => P) E := by
  unfold touch
  split
  · next g _ =>
    refine triple_ignore (R := P) (triple_ioStep (fun turn w hw _ => ⟨⟨?_, ?_⟩, ?_⟩)
      fun turn w e hw _ => ⟨moves_of_store (ticks_waited rfl) rfl, hP turn w hw⟩)
    · exact ticks_waited rfl
    · exact .touch _ side g
    · exact htouch _ g (hP turn w hw)
  · exact triple_pure fun w hw => hw

theorem sound_touch (w : World) (g : ℕ) (h : Sound w) :
    Sound (w.onTrees side (updateWhere (Tree.is g false) (Tree.touched w.machine.now))) :=
  h.updateWhere fun _ => rfl

theorem activated_touch {spec : ReleaseArchiveSpec} (w : World) (g' : ℕ)
    (h : Activated spec side g label w) : Activated spec side g label
      (w.onTrees side (updateWhere (Tree.is g' false) (Tree.touched w.machine.now))) := by
  obtain ⟨hsound, hsome, htrees⟩ := h
  refine ⟨sound_touch w g' hsound, ?_, fun t ht hg => ?_⟩
  · rw [onTrees_store, archive_onTrees_self, isSome_tree?_iff]
    obtain ⟨t, ht, hg, hs⟩ := isSome_tree?_iff.mp hsome
    refine ⟨_, mem_updateWhere.mpr ⟨t, ht, rfl⟩, ?_⟩
    split <;> exact ⟨hg, hs⟩
  · rw [onTrees_store, archive_onTrees_self] at ht
    obtain ⟨u, hu, rfl⟩ := mem_updateWhere.mp ht
    split at hg <;> split <;> exact htrees u hu hg

theorem touchRetired_spec (spec : ReleaseArchiveSpec) (path : DirPath)
    {E : SyncError → World → Prop} :
    Triple A (Moves specs reads L) (Activated spec side g label)
      (touchRetired spec side path) (fun _ => Activated spec side g label) E := by
  refine triple_bind_attempt (ioStep_idle moves_idle _ fun _ _ hw => hw) (fun _ => ?_)
    fun _ => triple_pure fun w hw => hw
  change Triple _ _ _ (touchIf side path (inReleases spec path)) _ _
  unfold touchIf
  split
  · exact touch_spec (fun _ _ hw => hw) activated_touch path
  · exact triple_pure fun w hw => hw

/-- The tree a rename activates. -/
theorem extracted_activate {w : World} (h : Staged (specs.of side) side g label w)
    (hany : (w.store.archive side).trees.any (Tree.is g true) = true) :
    Extracted (specs.of side) side g label
      (w.store.onTrees side (updateWhere (Tree.is g true) Tree.activated)) := by
  obtain ⟨⟨release, hst⟩, hfull⟩ := h
  constructor
  · obtain ⟨t, ht, htg⟩ := List.any_eq_true.mp hany
    rw [archive_onTrees_self, isSome_tree?_iff]
    refine ⟨t.activated, mem_updateWhere.mpr ⟨t, ht, ?_⟩, (is_iff.mp htg).1, rfl⟩
    rw [htg]
    rfl
  · intro t ht hg
    rw [archive_onTrees_self] at ht
    obtain ⟨u, hu, rfl⟩ := mem_updateWhere.mp ht
    have hug : u.generation = g := by
      rw [← hg]
      split <;> rfl
    have hdir : (if u.is g true then u.activated else u).dir = u.dir := by
      split <;> rfl
    exact hdir ▸ ⟨(hst.trees u hu hug).2.1, hfull u hu hug⟩

theorem activate_spec :
    Triple A (Moves specs reads L) (Staged (specs.of side) side g label)
      (activate side g) (fun _ => Activated (specs.of side) side g label)
      fun _ => Sound := by
  have hchange : ∀ w : World, Staged (specs.of side) side g label w →
      Change specs reads L (.activate side g) w.machine.now w.machine.fresh w.store
        (w.store.onTrees side (updateWhere (Tree.is g true) Tree.activated)) := fun w hw => by
    obtain ⟨⟨release, hst⟩, hfull⟩ := hw
    exact .activate _ side g hst.unnamed fun t ht hg => ⟨(hst.trees t ht hg).1, hfull t ht hg⟩
  have hsound : ∀ w, Staged (specs.of side) side g label w → Sound w := fun w hw => by
    obtain ⟨⟨release, hst⟩, -⟩ := hw
    exact hst.sound
  refine step_spec (fun reply w => ?_) (fun turn w hw => ?_) (fun reply w hw => ?_)
    fun reply w hw => ?_
  · cases reply.io with
    | error e => exact ⟨le_refl _, le_refl _⟩
    | ok _ =>
      dsimp only
      split <;> exact ⟨le_refl _, le_refl _⟩
  · obtain ⟨⟨release, hst⟩, hfull⟩ := hw
    exact ⟨⟨release, hst.1, hst.2, hst.3, hst.4, hst.5⟩, hfull⟩
  · cases reply.io with
    | error e => exact .same _
    | ok _ =>
      dsimp only
      split
      · exact hchange w hw
      · exact .same _
  · cases reply.io with
    | error e => exact hsound w hw
    | ok _ =>
      dsimp only
      split
      · next a w' h =>
        split at h
        · next hany =>
          obtain ⟨-, rfl⟩ := Prod.mk.inj h
          exact ⟨(hchange w hw).numbered (hsound w hw), extracted_activate hw hany⟩
        · simp at h
      · next e w' h =>
        split at h
        · simp at h
        · obtain ⟨-, rfl⟩ := Prod.mk.inj h
          exact hsound w hw

theorem saveExtractMeta_spec :
    Triple A (Moves specs reads L) (Activated (specs.of side) side g label)
      (saveExtractMeta side label ((specs.of side).generationPath g))
      (fun _ w => Sound w ∧ (w.store.archive side).extractMeta = some ⟨label, .tree g⟩)
      fun _ => Sound := by
  have hchange : ∀ w : World, Activated (specs.of side) side g label w →
      Change specs reads L (.placeExtractMeta side) w.machine.now w.machine.fresh w.store
        (w.store.setExtractMeta side ⟨label, .tree g⟩) := fun w hw => by
    exact .record _ side ⟨label, .tree g⟩ g rfl hw.2
  refine triple_atomicWriteJson (fun w f hf hw => ⟨hw.1.mono (hf _).2, hw.2⟩)
    (fun op turn w f hf hw => moves_of_store (ticks_of_machine hf rfl) rfl)
    (fun turn w f hf hw _ => ?_) fun w e hw => hw.1
  have hw' : Activated (specs.of side) side g label (OnMachine.onMachine f (waited turn w)) :=
    ⟨hw.1.mono (hf (Machine.wait turn.elapsedMs w.machine)).2, hw.2⟩
  refine ⟨⟨ticks_of_machine hf rfl, hchange _ hw'⟩, (hchange _ hw').numbered hw'.1, ?_⟩
  exact congrArg ArchiveDir.extractMeta archive_setExtractMeta_self

theorem switchTo_spec (currentRoot : DirPath) :
    Triple A (Moves specs reads L) (Staged (specs.of side) side g label)
      (switchTo (specs.of side) side label g currentRoot) (fun _ => Sound) fun _ => Sound := by
  refine triple_bind activate_spec fun _ => triple_bind (touchRetired_spec _ _) fun _ => ?_
  refine triple_bind saveExtractMeta_spec fun _ => ?_
  refine triple_bind ((pruneReleaseTrees_spec [currentRoot, (specs.of side).generationPath g]
    side).pre fun w hw => ⟨hw.1, fun _ => ?_⟩) fun _ => triple_pure fun w hw => hw
  exact protects_generationPath hw.2 rfl (by simp)

theorem staged_waited {spec : ReleaseArchiveSpec} (turn : Turn) (w : World)
    (h : Staged spec side g label w) : Staged spec side g label (waited turn w) := by
  obtain ⟨⟨release, hst⟩, hfull⟩ := h
  exact ⟨⟨release, hst.1, hst.2, hst.3, hst.4, hst.5⟩, hfull⟩

theorem Staged.sound {spec : ReleaseArchiveSpec} {w : World} (h : Staged spec side g label w) :
    Sound w := by
  obtain ⟨⟨release, hst⟩, -⟩ := h
  exact hst.sound

theorem activateStaged_spec :
    Triple A (Moves specs reads L) (Staged (specs.of side) side g label)
      (activateStaged (specs.of side) side label g) (fun _ => Sound) fun _ => Sound := by
  refine triple_bind ((inspect_spec moves_idle (Q := fun _ => True) staged_waited fun turn w _ _ => ?_).post
    fun _ _ h => h.1) fun current => ?_
  · cases turn.reply.io <;> trivial
  · refine triple_bind (R := fun _ => Staged (specs.of side) side g label) ?_ fun active => ?_
    · unfold alreadyActive
      split
      · exact (inspect_spec moves_idle (Q := fun _ => True) staged_waited fun _ _ _ _ => trivial).post
          fun _ _ h => h.1
      · exact triple_pure fun w hw => hw
    · cases active with
      | true =>
        exact triple_bind ((removeStaging_spec side g).pre fun w hw => hw.sound) fun _ =>
          triple_pure fun w hw => hw
      | false => exact switchTo_spec _

end Activation

section Archive

variable {specs : Specs} {reads : Prop} {L : Side → String → ZipFile → Prop}
  {A : Visit World Op Turn → Prop} {side : Side} {E : SyncError → World → Prop}

/-- What is known of the zip at every extraction. -/
def Extracts (L : Side → String → ZipFile → Prop) (v : Visit World Op Turn) : Prop :=
  ∀ side label z, v.op = .extract side label → (v.before.release side).zip = .file z →
    L side label z

theorem archiveActivationSha_spec (releaseSha : Option String) :
    Triple A (Moves specs reads L) Sound (archiveActivationSha side releaseSha)
      (fun _ => Sound) E := by
  cases releaseSha with
  | some sha => exact triple_pure fun w hw => hw
  | none =>
    refine triple_bind_attempt (Q := fun _ => Sound) (E := fun _ => Sound)
      ((inspect_spec moves_idle (Q := fun _ => True) sound_waited fun turn w hw _ => ?_).post
        fun _ _ h => h.1) (fun sha => triple_pure fun w hw => hw) fun e => triple_halt
    cases turn.reply.io <;> cases ((waited turn w).release side).zip <;>
      first | exact trivial | exact sound_waited turn w hw

theorem extractAndActivate_spec (hL : ∀ v, A v → Extracts L v) (releaseSha : Option String) :
    Triple A (Moves specs reads L) Sound
      (extractAndActivate (specs.of side) side releaseSha) (fun _ => Sound) fun _ => Sound := by
  refine triple_bind (archiveActivationSha_spec releaseSha) fun label => ?_
  refine triple_bind (stageReleaseTree_spec fun v z hA hop hz => hL v hA side label z hop hz)
    fun g => ?_
  refine triple_bind_attempt activateStaged_spec (fun _ => triple_pure fun w hw => hw) fun e => ?_
  exact triple_bind (removeStaging_spec side g) fun _ => triple_throw fun _ hw => hw

/-- A release sync moves only the zip, its record and the machine. -/
theorem syncReleaseOf_spec (mirrors : List String) (spec : ReleaseArchiveSpec)
    (forceCheck : Bool) :
    Triple A (Moves specs reads L) Sound (syncReleaseOf mirrors spec side forceCheck)
      (fun _ => Sound) fun _ => Sound := by
  refine triple_zoom fun w hw => ?_
  have h := (syncReleaseGuarded_steady spec.releaseSpec mirrors forceCheck false).invariant
    (I := fun s => w.machine.fresh ≤ s.machine.fresh) fun v _ ht hle => hle.trans ht.2
  refine h.conseq (fun s hs => ⟨trivial, by rw [hs]⟩) (fun _ _ => trivial)
    (fun v hv => moves_of_store hv.2.1 rfl) (fun _ s hs => ?_) fun _ s hs => ?_
  · exact Numbered.mono (d := w.store) hw hs.2
  · exact Numbered.mono (d := w.store) hw hs.2

theorem syncReleaseArchiveLocked_spec (hreads : reads → ∀ v, A v → ReadsRecord v)
    (hL : ∀ v, A v → Extracts L v) (mirrors : List String) (forceCheck : Bool) :
    Triple A (Moves specs reads L) Sound
      (syncReleaseArchiveLocked mirrors (specs.of side) side forceCheck) (fun _ => Sound)
      fun _ => Sound := by
  refine triple_bind (syncReleaseOf_spec mirrors _ forceCheck) fun released => ?_
  refine triple_of_forall (f := World.store) fun d => ?_
  refine triple_bind ((loadExtractMeta_spec moves_idle hreads (specs.of side) side (d := d)).pre
    fun w hw => ⟨hw.2, hw.2 ▸ hw.1⟩) fun extractMeta => triple_fact fun hmeta => ?_
  refine triple_bind ((pruneReleaseTrees_spec [rootOf (specs.of side) extractMeta] side).pre
    fun w hw => ⟨hw.sound, fun hr => hw.1 ▸ protects_rootOf (hmeta.2 hr)⟩) fun _ => ?_
  refine triple_bind (archiveFilesPresent_sound _ side _) fun filesOk => ?_
  split
  · exact triple_pure fun w hw => hw
  · split
    · refine triple_bind_attempt (extractAndActivate_spec hL _) (fun _ => triple_pure fun w hw => hw)
        fun e => ?_
      exact triple_bind (archiveFilesPresent_sound _ side _) fun _ => triple_pure fun w hw => hw
    · exact triple_pure fun w hw => hw

theorem orThrow_sound {α : Type} (r : Except SyncError α) :
    Triple A (Moves specs reads L) Sound (orThrow r : Step World α) (fun _ => Sound)
      fun _ => Sound :=
  orThrow_spec r (fun _ _ _ hw => hw) fun _ _ hw => hw

theorem ensureSource_sound :
    Triple A (Moves specs reads L) Sound ensureSource (fun _ => Sound) E :=
  (inspect_spec moves_idle (Q := fun _ => True) sound_waited fun _ _ _ _ => trivial).post fun _ _ h => h.1

theorem underLock_spec {G : Visit World Op Turn → Prop} (hG : Idle G) {α : Type}
    {p : Step World α} {P R : World → Prop} (hP : ∀ turn w, P w → P (waited turn w))
    (hR : ∀ turn w, R w → R (waited turn w)) (hp : Triple A G P p (fun _ => R) fun _ => R)
    (hfail : ∀ w, P w → R w) :
    Triple A G P (do
      ioStep .createDir id
      ioStep .lock id
      let inner ← Prog.attempt p
      Prog.ignore (ioStep (σ := World) .unlock id)
      orThrow inner) (fun _ => R) fun _ => R := by
  have hunlock : Triple A G R (Prog.ignore (ioStep (σ := World) .unlock id) : Step World Unit)
      (fun _ => R) fun _ => R := triple_ignore (R := R) (ioStep_idle hG _ hR)
  have hio : ∀ op, Triple A G P (ioStep op id : Step World Unit) (fun _ => P) fun _ => R :=
    fun op => (ioStep_idle hG op hP).conseq (fun _ h => h) (fun _ h => h) (fun _ h => h)
      (fun _ _ h => h) fun _ w hw => hfail w hw
  have hend : ∀ r : Except SyncError α, Triple A G R (orThrow r : Step World α) (fun _ => R)
      fun _ => R := fun r => orThrow_spec r (fun _ _ _ hw => hw) fun _ _ hw => hw
  refine triple_bind (hio _) fun _ => triple_bind (hio _) fun _ => ?_
  exact triple_bind_attempt hp (fun a => triple_bind hunlock fun _ => hend _)
    fun e => triple_bind hunlock fun _ => hend _

theorem syncReleaseArchive_spec (hreads : reads → ∀ v, A v → ReadsRecord v)
    (hL : ∀ v, A v → Extracts L v) (side : Side) (mirrors : List String) (forceCheck : Bool) :
    Triple A (Moves specs reads L) Sound
      (syncReleaseArchive mirrors (specs.of side) side forceCheck) (fun _ => Sound) E := by
  refine triple_bind ensureSource_sound fun source => ?_
  cases source with
  | error e => exact triple_pure fun w hw => hw
  | ok _ =>
    refine triple_bind_attempt (underLock_spec moves_idle sound_waited sound_waited
      (triple_bind ensureSource_sound fun guarded => ?_) fun w hw => hw)
      (fun _ => triple_pure fun w hw => hw) fun e => ?_
    · cases guarded with
      | error e => exact triple_pure fun w hw => hw
      | ok _ => exact syncReleaseArchiveLocked_spec hreads hL mirrors forceCheck
    · refine triple_bind (loadExtractMeta_sound _ side) fun _ => ?_
      exact triple_bind (archiveFilesPresent_sound _ side _) fun _ => triple_pure fun w hw => hw

end Archive

section Pair

variable {specs : Specs} {reads : Prop} {L : Side → String → ZipFile → Prop}
  {A G : Visit World Op Turn → Prop} {d : Store} {E : SyncError → World → Prop}

/-- The visit is a step of an archive sync, or publishes a pair. -/
def PairMoves (specs : Specs) (reads : Prop) (L : Side → String → ZipFile → Prop)
    (v : Visit World Op Turn) : Prop :=
  Moves specs reads L v ∨ Ticks v ∧ Publishes specs v.before.store v.after.store

theorem pairMoves_idle : Idle (PairMoves specs reads L) := fun _ ht h => .inl (moves_of_store ht h)

/-- Publishing a pair that is complete at that moment is in order. -/
def Publishing (specs : Specs) (G : Visit World Op Turn → Prop) : Prop :=
  ∀ v : Visit World Op Turn, Ticks v → Publishes specs v.before.store v.after.store → G v

theorem pairMoves_publishing : Publishing specs (PairMoves specs reads L) :=
  fun _ ht h => .inr ⟨ht, h⟩

theorem pairMoves_of_moves {α : Type} {P : World → Prop} {Q : α → World → Prop} {p : Step World α}
    (h : Triple A (Moves specs reads L) P p Q E) : Triple A (PairMoves specs reads L) P p Q E :=
  h.conseq (fun _ h => h) (fun _ h => h) (fun _ h => .inl h) (fun _ _ h => h) fun _ _ h => h

theorem loadGamedataPair_spec (hG : Idle G) :
    Triple A G (At d) (loadGamedataPair specs)
      (fun a w => At d w ∧ ∀ m, a = some m → d.loadedPair specs = some m) E := by
  refine inspect_spec hG at_waited fun turn w hw _ => ?_
  cases turn.reply.io with
  | ok _ => exact fun m hm => by rw [← hm, waited_store, hw.1]
  | error e => exact fun m hm => by simp at hm

/-- A pair with all its files is published as a whole. -/
theorem saveGamedataPair_spec (hG : Idle G) (hpublish : Publishing specs G) {m : PairMeta}
    (hm : FromRecords specs d m ∨ m = legacyPair) (hfull : d.PairComplete specs m) :
    Triple A G (At d) (saveGamedataPair specs m) (fun _ => Sound) fun _ => Sound := by
  refine triple_bind (loadGamedataPair_spec hG) fun current => ?_
  split
  · exact triple_pure fun w hw => hw.1.sound
  · refine Triple.pre (triple_atomicWriteJson (P := At d)
      (fun w f hf hw => hw.of_store rfl (hf _).2)
      (fun op turn w f hf hw => hG _ (ticks_of_machine hf rfl) rfl)
      (fun turn w f hf hw _ => ?_) fun w e hw => hw.sound) fun w hw => hw.1
    have hw' : At d (OnMachine.onMachine f (waited turn w)) :=
      hw.of_store rfl (hf (Machine.wait turn.elapsedMs w.machine)).2
    have hchange : Publishes specs w.store { w.store with pair := some m } :=
      ⟨m, rfl, hw.1 ▸ hm, hw.1 ▸ hfull⟩
    exact ⟨hpublish _ (ticks_of_machine hf rfl) hchange, hchange.numbered hw'.sound⟩

theorem savePairIfPresent_spec (hG : Idle G) (hpublish : Publishing specs G) {m : PairMeta}
    (hm : FromRecords specs d m ∨ m = legacyPair) :
    Triple A G (At d) (savePairIfPresent specs m) (fun _ => Sound) fun _ => Sound := by
  refine triple_bind (archiveFilesPresent_spec hG specs.excel .excel _) fun excelOk =>
    triple_fact fun hexcel => ?_
  cases excelOk with
  | false => exact triple_pure fun w hw => hw.sound
  | true =>
    refine triple_bind (archiveFilesPresent_spec hG specs.levels .levels _) fun levelsOk =>
      triple_fact fun hlevels => ?_
    cases levelsOk with
    | false => exact triple_pure fun w hw => hw.sound
    | true => exact saveGamedataPair_spec hG hpublish hm ⟨hexcel rfl, hlevels rfl⟩

theorem loadRecord_spec (hG : Idle G) (spec : ReleaseArchiveSpec) (side : Side) :
    Triple A G (At d) (loadExtractMeta spec side)
      (fun m w => At d w ∧ ∀ l, m = some l → (d.archive side).loadedMeta spec = some l) E :=
  (loadExtractMeta_spec hG (False.elim : False → _) spec side).post
    fun _ _ h => ⟨h.1, fun _ hl => h.2.eq_some hl⟩

theorem initializeGamedataPair_spec (hG : Idle G) (hpublish : Publishing specs G) :
    Triple A G (At d) (initializeGamedataPair specs) (fun _ => Sound) fun _ => Sound := by
  refine triple_bind ((loadGamedataPair_spec hG).post fun _ _ h => h.1) fun current => ?_
  cases current with
  | some m => exact triple_pure fun w hw => hw.sound
  | none =>
    refine triple_bind (loadRecord_spec hG specs.excel .excel) fun excelMeta =>
      triple_fact fun hexcel => ?_
    refine triple_bind (loadRecord_spec hG specs.levels .levels) fun levelsMeta =>
      triple_fact fun hlevels => ?_
    cases hinit : initialPair excelMeta levelsMeta with
    | none => exact triple_pure fun w hw => hw.sound
    | some m =>
      refine savePairIfPresent_spec hG hpublish ?_
      cases excelMeta with
      | none =>
        cases levelsMeta with
        | none => exact .inr (Option.some.inj hinit).symm
        | some l => simp [initialPair] at hinit
      | some e =>
        cases levelsMeta with
        | none => simp [initialPair] at hinit
        | some l => exact .inl ⟨e, l, hexcel e rfl, hlevels l rfl, hinit⟩

theorem publishPair_spec (hG : Idle G) (hpublish : Publishing specs G) :
    Triple A G (At d) (publishPair specs) (fun _ => Sound) fun _ => Sound := by
  refine triple_bind (loadRecord_spec hG specs.excel .excel) fun excelMeta =>
    triple_fact fun hexcel => ?_
  refine triple_bind (loadRecord_spec hG specs.levels .levels) fun levelsMeta =>
    triple_fact fun hlevels => ?_
  cases excelMeta with
  | none => exact triple_pure fun w hw => hw.sound
  | some e =>
    cases levelsMeta with
    | none => exact triple_pure fun w hw => hw.sound
    | some l =>
      cases hpair : pairOf e l with
      | none =>
        simp only [hpair]
        exact triple_pure fun w hw => hw.sound
      | some m =>
        simp only [hpair]
        exact savePairIfPresent_spec hG hpublish
          (.inl ⟨e, l, hexcel e rfl, hlevels l rfl, hpair⟩)

theorem touchPair_spec :
    Triple A (Moves specs reads L) Sound (touchPair specs) (fun _ => Sound) E := by
  have htouch : ∀ side path, Triple A (Moves specs reads L) Sound (touch side path)
      (fun _ => Sound) E := fun side path => touch_spec sound_waited sound_touch path
  refine triple_bind ((inspect_spec moves_idle (Q := fun _ => True) sound_waited fun turn w _ _ => ?_).post
    fun _ _ h => h.1) fun current => ?_
  · cases turn.reply.io <;> trivial
  · cases current with
    | none => exact triple_pure fun w hw => hw
    | some m => exact triple_bind (htouch .excel _) fun _ => htouch .levels _

theorem of_at {α : Type} {p : Step World α} {Q : α → World → Prop}
    (h : ∀ d, Triple A G (At d) p Q E) : Triple A G Sound p Q E :=
  triple_of_forall (f := World.store) fun d => (h d).pre fun _ hw => ⟨hw.2, hw.2 ▸ hw.1⟩

theorem syncPairLocked_spec (hreads : reads → ∀ v, A v → ReadsRecord v)
    (hL : ∀ v, A v → Extracts L v) (mirrors : List String) (forceCheck : Bool) :
    Triple A (PairMoves specs reads L) Sound (syncPairLocked mirrors specs forceCheck)
      (fun _ => Sound) fun _ => Sound := by
  have hsource : Triple A (PairMoves specs reads L) Sound ensureSourceOrThrow (fun _ => Sound)
      fun _ => Sound :=
    pairMoves_of_moves (triple_bind ensureSource_sound fun _ => orThrow_sound _)
  refine triple_bind hsource fun _ => triple_bind hsource fun _ => ?_
  refine triple_bind (of_at fun d => initializeGamedataPair_spec pairMoves_idle
    pairMoves_publishing) fun _ => ?_
  refine triple_bind (pairMoves_of_moves touchPair_spec) fun _ => ?_
  refine triple_bind (pairMoves_of_moves
    (syncReleaseArchive_spec hreads hL .excel mirrors forceCheck)) fun _ => ?_
  refine triple_bind (pairMoves_of_moves
    (syncReleaseArchive_spec hreads hL .levels mirrors forceCheck)) fun _ => ?_
  exact triple_bind (of_at fun d => publishPair_spec pairMoves_idle pairMoves_publishing) fun _ => triple_pure fun w hw => hw

/-- Every step of a pair sync is a step of an archive sync, or publishes a pair. -/
theorem syncReleaseArchivePair_spec (hreads : reads → ∀ v, A v → ReadsRecord v)
    (hL : ∀ v, A v → Extracts L v) (mirrors : List String) (forceCheck : Bool) :
    Triple A (PairMoves specs reads L) Sound (syncReleaseArchivePair mirrors specs forceCheck)
      (fun _ => Sound) fun _ => Sound := by
  unfold syncReleaseArchivePair
  split
  · exact underLock_spec pairMoves_idle sound_waited sound_waited
      (syncPairLocked_spec hreads hL mirrors forceCheck) fun w hw => hw
  · exact triple_throw fun w hw => hw

end Pair

end PrtsMcp.PairSync
