import PrtsMcp.ImageSyncSteps
import PrtsMcp.Retention

/-!
# Retired generations and their readers

Pair syncs and image syncs on one root, in any order and each stopped anywhere: what keeps a
generation tree on disk for the calls that found it active.
-/
namespace PrtsMcp.DataRetention

open Process SyncTypes FileSteps GamedataStore PairSync ImageSync Retention

/-- What happens to the root: a call on the game data, or an image sync. -/
inductive DataCall where
  | pair (call : Call)
  | images (format : Format) (plan : Plan)

def DataCall.prog (specs : Specs) : DataCall → Step Root Unit
  | .pair call => (call.prog specs).zoom Root.pair (fun w r => { r with pair := w }) fun _ => rfl
  | .images format plan => (syncImages format plan).void

def visits (specs : Specs) (calls : List (DataCall × List Turn)) (r : Root) :
    List (Visit Root Op Turn) :=
  session (calls.map fun call => (call.1.prog specs, call.2)) r

/-- The state before the run and after each of its steps. -/
def states (specs : Specs) (calls : List (DataCall × List Turn)) (r : Root) : List Root :=
  r :: (visits specs calls r).map Visit.after

/-- A generation tree of the root. -/
inductive GenerationRef where
  | archive (side : Side) (generation : ℕ)
  | images (format : Format) (generation : ℕ)
  deriving DecidableEq, Repr

/-- The generation that a pruning step may remove. -/
def pruned : Op → Option GenerationRef
  | .prune side generation false => some (.archive side generation)
  | .pruneImages ⟨format, generation, false⟩ => some (.images format generation)
  | _ => none

/-- A pointer names the generation. -/
def Active (r : Root) : GenerationRef → Prop
  | .archive side g => .tree g ∈ r.pair.store.namedRefs side
  | .images format g => r.images.pointer = some (.generation format g)

instance (r : Root) : DecidablePred (Active r) := fun ref => by
  cases ref <;> unfold Active <;> infer_instance

/-- Pruning recognises the generation among the paths to keep. -/
def Kept (specs : Specs) (r : Root) : GenerationRef → Prop
  | .archive side g => Recorded r.pair.store (specs.of side) side g
  | .images format g => r.images.pointer = some (.generation format g)

instance (specs : Specs) (r : Root) : DecidablePred (Kept specs r) := fun ref => by
  cases ref <;> unfold Kept <;> infer_instance

/-- The tree of the generation was modified at `T` or later. -/
def Dated (T : ℕ) (r : Root) : GenerationRef → Prop
  | .archive side g => Young T r.pair.store side (.tree g)
  | .images format g => ∀ t ∈ r.images.trees, t.entry = ⟨format, g, false⟩ → T ≤ t.mtime

instance (T : ℕ) (r : Root) : DecidablePred (Dated T r) := fun ref => by
  cases ref <;> unfold Dated <;> infer_instance

/-- The files of the generation, if its tree stands. -/
def files (r : Root) : GenerationRef → Option (List String)
  | .archive side g => ((r.pair.store.archive side).dir? (.tree g)).map Dir.files
  | .images format g => r.images.files? (.generation format g)

/-- The generations as items of a shelf. -/
def shelf (specs : Specs) : Shelf Root GenerationRef (List String) where
  now r := r.machine.now
  active := Active
  served r
    | .archive _ _ => True
    | .images format g => (format, g) ∈ r.images.served
  kept := Kept specs
  content := files
  young := Dated

/-- The visit as the game data sees it. -/
def onPair (v : Visit Root Op Turn) : Visit World Op Turn :=
  ⟨v.op, v.reply, v.before.pair, v.after.pair⟩

/-- The numbers in use are below the next one. -/
def Sound (r : Root) : Prop := PairSync.Sound r.pair ∧ ImageSync.Sound r

/-- A step on the game data, or one on the images. -/
def Moves (specs : Specs) (v : Visit Root Op Turn) : Prop :=
  PairMoves specs True (fun _ _ _ => True) (onPair v) ∧ v.after.images = v.before.images ∨
    ImageSync.Moves v

section Steps

variable {specs : Specs} {v : Visit Root Op Turn}

theorem served_of_active (h : Sound v.before) (i : GenerationRef) (hi : Active v.before i) :
    (shelf specs).served v.before i := by
  cases i with
  | archive side g => trivial
  | images format g => exact h.2.pointer format g hi

/-- A step on the images. -/
theorem steps_of_images (h : ImageSync.Moves v) (hsound : Sound v.before) :
    (shelf specs).Steps retentionMs pruned v := by
  obtain ⟨hticks, hstore, hchange⟩ := h
  have hkept : ∀ format g, (format, g) ∈ v.before.images.served →
      (pruned v.op = some (.images format g) →
        (shelf specs).Spares retentionMs v (.images format g)) →
      named ⟨format, g, false⟩ v.after.images.trees =
        named ⟨format, g, false⟩ v.before.images.trees := by
    intro format g hi hspared
    exact hchange.named hi fun hop => hspared (by rw [hop]; rfl)
  refine ⟨hticks.1, served_of_active hsound, ?_, ?_, ?_⟩
  · rintro (⟨side, g⟩ | ⟨format, g⟩) hi
    · trivial
    · exact hchange.served_mono hi
  · rintro (⟨side, g⟩ | ⟨format, g⟩) x hi hx hspared
    · simpa only [shelf, files, hstore] using hx
    · simp only [shelf, files, files?_eq_head?, hkept format g hi hspared] at hx ⊢
      exact hx
  · rintro (⟨side, g⟩ | ⟨format, g⟩) x T hi hx hspared hT hdated
    · simpa only [shelf, Dated, hstore] using hdated
    · intro t ht he
      have hmem : t ∈ named ⟨format, g, false⟩ v.after.images.trees := mem_named.mpr ⟨ht, he⟩
      rw [hkept format g hi hspared] at hmem
      exact hdated t (mem_named.mp hmem).1 he

theorem settled_of_files {d : Store} {side : Side} {g : ℕ} {x : List String}
    (h : ((d.archive side).dir? (.tree g)).map Dir.files = some x) : Settled d side g := by
  obtain ⟨dir, hdir, -⟩ := Option.map_eq_some_iff.mp h
  obtain ⟨t, ht, htg, hs, -⟩ := tree_of_dir? hdir
  exact .inr ⟨t, ht, htg, hs⟩

/-- A step on the game data. -/
theorem steps_of_pair (h : PairMoves specs True (fun _ _ _ => True) (onPair v))
    (himages : v.after.images = v.before.images) (hsound : Sound v.before) :
    (shelf specs).Steps retentionMs pruned v := by
  have hticks : Ticks (onPair v) := by
    rcases h with ⟨ht, -⟩ | ⟨ht, -⟩
    · exact ht
    · exact ht
  refine ⟨hticks.1, served_of_active hsound, ?_, ?_, ?_⟩
  · rintro (⟨side, g⟩ | ⟨format, g⟩) hi
    · trivial
    · simpa only [shelf, himages] using hi
  · rintro (⟨side, g⟩ | ⟨format, g⟩) x hi hx hspared
    · have hdir : (v.after.pair.store.archive side).dir? (.tree g) =
          (v.before.pair.store.archive side).dir? (.tree g) := by
        rcases h with ⟨-, hchange⟩ | ⟨-, m, hm, -⟩
        · apply hchange.dir?_settled (settled_of_files hx)
          intro hop
          rcases hspared (by rw [show v.op = _ from hop]; rfl) with hrec | hyoung
          · exact .inl ⟨trivial, g, rfl, hrec⟩
          · exact .inr hyoung
        · rw [show v.after.pair.store = _ from hm]
          rfl
      simpa only [shelf, files, hdir] using hx
    · simpa only [shelf, files, himages] using hx
  · rintro (⟨side, g⟩ | ⟨format, g⟩) x T hi hx hspared hT hdated
    · rcases h with ⟨-, hchange⟩ | ⟨-, m, hm, -⟩
      · refine Young.settled hchange ?_ hT hdated
        intro g' hg'
        obtain rfl := DirRef.tree.inj hg'
        exact settled_of_files hx
      · change Young T v.after.pair.store side (.tree g)
        rw [show v.after.pair.store = _ from hm]
        exact hdated
    · simpa only [shelf, Dated, himages] using hdated

theorem sound_of_moves (h : Moves specs v) (hsound : Sound v.before) : Sound v.after := by
  rcases h with ⟨hpair, himages⟩ | ⟨hticks, hstore, hchange⟩
  · have hticks : Ticks (onPair v) := by
      rcases hpair with ⟨ht, -⟩ | ⟨ht, -⟩
      · exact ht
      · exact ht
    refine ⟨?_, ?_⟩
    · rcases hpair with ⟨-, hchange⟩ | ⟨-, hpublish⟩
      · exact hchange.numbered (hsound.1.mono hticks.2)
      · exact hpublish.numbered (hsound.1.mono hticks.2)
    · rw [ImageSync.Sound, himages]
      exact hsound.2.mono hticks.2
  · refine ⟨?_, hchange.served (hsound.2.mono hticks.2)⟩
    rw [PairSync.Sound, hstore]
    exact hsound.1.mono hticks.2

theorem steps_of_moves (h : Moves specs v) (hsound : Sound v.before) :
    (shelf specs).Steps retentionMs pruned v := by
  rcases h with ⟨hpair, himages⟩ | himages
  · exact steps_of_pair hpair himages hsound
  · exact steps_of_images himages hsound

theorem call_spec (call : DataCall) :
    Triple (fun v => ReadsRecord (onPair v)) (Moves specs) Sound (call.prog specs)
      (fun _ _ => True) fun _ _ => True := by
  cases call with
  | pair call =>
    unfold DataCall.prog
    apply triple_zoom
    intro r hr
    have hcall : Triple ReadsRecord (PairMoves specs True fun _ _ _ => True) PairSync.Sound
        (call.prog specs) (fun _ => PairSync.Sound) fun _ => PairSync.Sound :=
      PairSync.call_spec (fun _ _ hv => hv) (fun _ _ _ _ _ _ _ => trivial) call
    refine hcall.conseq ?_ (fun v hv => hv) (fun v hv => .inl ⟨hv, rfl⟩)
      (fun _ _ _ => trivial) fun _ _ _ => trivial
    rintro w rfl
    exact hr.1
  | images format plan =>
    have hcall : Triple (fun v => ReadsRecord (onPair v)) ImageSync.Moves ImageSync.Sound
        (syncImages format plan).void (fun _ => ImageSync.Sound) fun _ => ImageSync.Sound := by
      apply triple_bind (syncImages_spec format plan)
      exact fun _ => triple_pure fun _ hr => hr
    exact hcall.conseq (fun _ hr => hr.2) (fun v hv => hv) (fun v hv => .inr hv)
      (fun _ _ _ => trivial) fun _ _ _ => trivial

/-- Every step of a run moves the game data or the images, from a sound state. -/
theorem visits_moves {calls : List (DataCall × List Turn)} {r : Root} (hr : Sound r)
    (hreads : ∀ v ∈ visits specs calls r, ReadsRecord (onPair v)) :
    ∀ v ∈ visits specs calls r, Moves specs v ∧ Sound v.before := by
  have hcall : ∀ call ∈ calls.map fun call => (call.1.prog specs, call.2),
      Triple (fun v => ReadsRecord (onPair v)) (fun v => Moves specs v ∧ Sound v.before ∧
        Sound v.after) Sound call.1 (fun _ => Sound) fun _ => Sound := by
    intro call hmem
    obtain ⟨c, -, rfl⟩ := List.mem_map.mp hmem
    have hmoves : Triple (fun v => ReadsRecord (onPair v)) (Moves specs) Sound (c.1.prog specs)
        (fun _ _ => True) fun _ _ => True := call_spec c.1
    exact (hmoves.invariant (I := Sound) fun v _ hv hb => sound_of_moves hv hb).conseq
      (fun _ hs => ⟨hs, hs⟩) (fun _ h => h) (fun _ h => h.2) (fun _ _ h => h.2) fun _ _ h => h.2
  intro v hv
  have hsteps := session_steps hcall (fun v hv => hv.2.2) hr hreads v hv
  exact ⟨hsteps.1, hsteps.2.1⟩

end Steps

/-- Pruning finds the generations that a pointer names kept or dated within the window. -/
abbrev SparesActive (specs : Specs) (v : Visit Root Op Turn) : Prop :=
  (shelf specs).SparesActive retentionMs pruned v

/-- No pruning falls into the gap behind a retirement. -/
abbrev NoGap (specs : Specs) (u v : Visit Root Op Turn) : Prop :=
  (shelf specs).NoGap retentionMs pruned u v

/-- The generations that were active in the first state keep all their files in the second, if
that is within the window. -/
abbrev Outlives (specs : Specs) (a b : Root) : Prop := (shelf specs).Outlives retentionMs a b

instance (specs : Specs) : DecidablePred (SparesActive specs) := fun v =>
  inferInstanceAs (Decidable (∀ i ∈ pruned v.op, Active v.before i →
    Kept specs v.before i ∨ Dated (v.after.machine.now - retentionMs) v.before i))

instance (specs : Specs) : DecidableRel (NoGap specs) := fun u v =>
  inferInstanceAs (Decidable (∀ i ∈ pruned v.op, (Active u.before i ∧ ¬ Active u.after i) →
    Dated (v.after.machine.now - retentionMs) u.before i ∨
      u.after.machine.now + retentionMs ≤ v.after.machine.now))

/-- In every run whose reads of the records succeed, whose pruning steps spare the generations in
use and stay out of the gaps, a generation outlives the calls that found it active. -/
theorem states_outlive (specs : Specs) (calls : List (DataCall × List Turn)) (r : Root)
    (hsound : Sound r)
    (hspares : ∀ v ∈ visits specs calls r, ReadsRecord (onPair v) ∧ SparesActive specs v)
    (hgap : (visits specs calls r).Pairwise (NoGap specs)) :
    (states specs calls r).Pairwise (Outlives specs) := by
  have hmoves := visits_moves hsound fun v hv => (hspares v hv).1
  have hlinked : Linked r (visits specs calls r) _ := session_linked _ r
  apply Shelf.outlives_of_linked hlinked
  · intro v hv
    exact steps_of_moves (hmoves v hv).1 (hmoves v hv).2
  · exact fun v hv => (hspares v hv).2
  · exact hgap

/-! ## Inputs -/

instance : DecidablePred Sound := fun r =>
  inferInstanceAs (Decidable (PairSync.Sound r.pair ∧ Served r.images r.machine.fresh))

def hourMs : ℕ := 60 * 60 * 1000

/-- Two v2 releases, an hour apart. -/
def hourlyRun : List (DataCall × List Turn) :=
  [(.images .v2 (some ["a.png"]), turnsWith 30 []),
    (.images .v2 (some ["b.png"]), ⟨hourMs, .ok⟩ :: turnsWith 30 [])]

def emptyRoot : Root := ⟨emptyWorld ⟨0, 0, []⟩, ⟨none, [], fun _ => none, []⟩⟩

theorem states_outlive_hourlyRun :
    Sound emptyRoot ∧
      (states exampleSpecs hourlyRun emptyRoot).Pairwise (Outlives exampleSpecs) := by
  have hsound : Sound emptyRoot := by decide +kernel
  exact ⟨hsound, states_outlive exampleSpecs hourlyRun emptyRoot hsound (by decide +kernel)
    (by decide +kernel)⟩

/-- A v2 generation that has been active for two days. -/
def twoDaysOld : Root :=
  ⟨emptyWorld ⟨48 * hourMs, 1, []⟩, ⟨some (.generation .v2 0),
    [⟨⟨.v2, 0, false⟩, 0, ["a.png", "index.json"]⟩], fun _ => none, [(.v2, 0)]⟩⟩

/-- The next v2 release retires the generation without refreshing it and prunes it at once. -/
theorem states_not_outlive :
    ¬ ∀ calls : List (DataCall × List Turn),
      (∀ v ∈ visits exampleSpecs calls twoDaysOld, ReadsRecord (onPair v)) →
        (states exampleSpecs calls twoDaysOld).Pairwise (Outlives exampleSpecs) := by
  intro h
  have hrun := h [(.images .v2 (some ["b.png"]), turnsWith 30 [])] (by decide +kernel)
  obtain ⟨b, hb, hnow, hgone⟩ : ∃ b ∈ (visits exampleSpecs
      [(.images .v2 (some ["b.png"]), turnsWith 30 [])] twoDaysOld).map Visit.after,
      b.machine.now < twoDaysOld.machine.now + retentionMs ∧
        files b (.images .v2 0) = none := by
    decide +kernel
  have hkept := (List.pairwise_cons.mp hrun).1 b hb (.images .v2 0) ["a.png", "index.json"] rfl rfl
    hnow
  exact absurd (hgone.symm.trans hkept) (by decide)

end PrtsMcp.DataRetention
