import PrtsMcp.PairSyncMoves

/-!
# Runs of pair syncs

Sequences of pair syncs, archive syncs and damage to the zips between them, each stopped anywhere,
and the rule by which they keep an invariant.
-/
namespace PrtsMcp.PairSync

open Process SyncTypes FileSteps ReleaseSync GamedataStore

/-- What happens to the two roots: a sync of both, a sync of one, or damage to a zip. -/
inductive Call where
  | pair (mirrors : List String) (forceCheck : Bool)
  | archive (side : Side) (mirrors : List String) (forceCheck : Bool)
  | damage (side : Side) (zip : Node ZipFile)

def Call.prog (specs : Specs) : Call → Step World Unit
  | .pair mirrors forceCheck => (syncReleaseArchivePair mirrors specs forceCheck).void
  | .archive side mirrors forceCheck =>
    (syncReleaseArchive mirrors (specs.of side) side forceCheck).void
  | .damage side zip => step .damage fun _ w =>
    (.ok (), { w with release := Function.update w.release side ⟨zip, (w.release side).releaseMeta⟩ })

def visits (specs : Specs) (calls : List (Call × List Turn)) (w : World) :
    List (Visit World Op Turn) :=
  session (calls.map fun call => (call.1.prog specs, call.2)) w

/-- The state before the run and after each of its steps. -/
def states (specs : Specs) (calls : List (Call × List Turn)) (w : World) : List World :=
  w :: (visits specs calls w).map Visit.after

section Rules

variable {specs : Specs} {reads : Prop} {L : Side → String → ZipFile → Prop}
  {A : Visit World Op Turn → Prop} {I : World → Prop}

theorem call_spec (hreads : reads → ∀ v, A v → ReadsRecord v) (hL : ∀ v, A v → Extracts L v)
    (call : Call) :
    Triple A (PairMoves specs reads L) Sound (call.prog specs) (fun _ => Sound) fun _ => Sound := by
  cases call with
  | pair mirrors forceCheck =>
    exact triple_bind (syncReleaseArchivePair_spec hreads hL mirrors forceCheck) fun _ =>
      triple_pure fun w hw => hw
  | archive side mirrors forceCheck =>
    exact triple_bind (pairMoves_of_moves
      (syncReleaseArchive_spec hreads hL side mirrors forceCheck)) fun _ =>
        triple_pure fun w hw => hw
  | damage side zip =>
    unfold Call.prog
    exact pairMoves_of_moves (step_spec (fun reply w => ⟨le_refl _, le_refl _⟩) sound_waited
      (fun reply w hw => .same _) fun reply w hw => hw)

/-- What every change keeps, every run keeps. -/
theorem visits_moves (reads : Prop) (L : Side → String → ZipFile → Prop)
    (hreads : reads → ∀ v, A v → ReadsRecord v) (hL : ∀ v, A v → Extracts L v)
    (hI : ∀ v, A v → PairMoves specs reads L v → Sound v.before → I v.before → I v.after)
    {calls : List (Call × List Turn)} {w : World} (hw : Sound w) (hstart : I w)
    (hA : ∀ v ∈ visits specs calls w, A v) :
    ∀ v ∈ visits specs calls w, PairMoves specs reads L v ∧ I v.before ∧ I v.after := by
  have hsound : ∀ v, PairMoves specs reads L v → Sound v.before → Sound v.after :=
    fun v hv hb => by
      rcases hv with ⟨ht, hc⟩ | ⟨ht, hp⟩
      · exact hc.numbered (hb.mono ht.2)
      · exact hp.numbered (hb.mono ht.2)
  have hcall : ∀ call ∈ calls.map fun call => (call.1.prog specs, call.2),
      Triple A (fun v => PairMoves specs reads L v ∧ (Sound v.before ∧ I v.before) ∧
        Sound v.after ∧ I v.after) (fun w => Sound w ∧ I w) call.1
        (fun _ w => Sound w ∧ I w) fun _ w => Sound w ∧ I w := fun call hcall => by
    obtain ⟨c, -, rfl⟩ := List.mem_map.mp hcall
    have hmoves : Triple A (PairMoves specs reads L) Sound (c.1.prog specs) (fun _ => Sound)
        fun _ => Sound := call_spec hreads hL c.1
    exact (hmoves.invariant (I := fun w => Sound w ∧ I w) fun v hA hv hb =>
      ⟨hsound v hv hb.1, hI v hA hv hb.1 hb.2⟩).conseq (fun w hw => ⟨hw.1, hw⟩) (fun _ h => h)
        (fun _ h => h.2) (fun _ _ h => h.2) fun _ _ h => h.2
  intro v hv
  obtain ⟨hmoves, hb, ha⟩ := session_steps hcall (fun v hv => hv.2.2) ⟨hw, hstart⟩ hA v hv
  exact ⟨hmoves, hb.2, ha.2⟩

/-- An invariant holds in every state of a run. -/
theorem states_invariant (reads : Prop) (L : Side → String → ZipFile → Prop)
    (hreads : reads → ∀ v, A v → ReadsRecord v) (hL : ∀ v, A v → Extracts L v)
    (hI : ∀ v, A v → PairMoves specs reads L v → Sound v.before → I v.before → I v.after)
    {calls : List (Call × List Turn)} {w : World} (hw : Sound w) (hstart : I w)
    (hA : ∀ v ∈ visits specs calls w, A v) : ∀ s ∈ states specs calls w, I s := by
  intro s hs
  rcases List.mem_cons.mp hs with rfl | hs
  · exact hstart
  · obtain ⟨v, hv, rfl⟩ := List.mem_map.mp hs
    exact (visits_moves reads L hreads hL hI hw hstart hA v hv).2.2

end Rules

/-! ## Inputs -/

/-- Every step succeeds at once, but for some that are answered otherwise. -/
def turnsWith (n : ℕ) (special : List (ℕ × Reply)) : List Turn :=
  (List.range n).map fun i => ⟨0, (special.lookup i).getD .ok⟩

/-- Nothing on disk yet. -/
def emptyWorld (machine : Machine) : World :=
  ⟨machine, fun _ => ⟨.absent, none⟩, ⟨fun _ => ⟨none, ⟨[], "", ""⟩, fun _ => none, []⟩, none⟩⟩

def exampleArchive (name file : String) : ReleaseArchiveSpec :=
  ⟨"o", "r", name, name, ⟨["d", name], ["d", name], ["d", name]⟩, [file], true⟩

def exampleSpecs : Specs := ⟨exampleArchive "e.zip" "e", exampleArchive "l.zip" "l"⟩

def zipBody (release file digest : String) : Reply :=
  .body release (.ok [⟨file, true, none⟩]) ⟨0, digest⟩

def noManifest : Reply := .refused (.assetNotFound "manifest.json")

end PrtsMcp.PairSync
