import PrtsMcp.PairCrash

/-!
# Pruning and the pointers

What the pruning of generation trees leaves alone, over every run: the trees that the pair pointer
and the extract records name.
-/
namespace PrtsMcp.PairSync

open Process SyncTypes FileSteps ReleaseSync GamedataStore

/-- A prune step leaves every directory that a pointer names as it is. -/
def PruneKeepsNamed (v : Visit World Op Turn) : Prop :=
  v.op.isPrune = true → ∀ side, ∀ ref ∈ v.before.store.namedRefs side,
    (v.after.store.archive side).dir? ref = (v.before.store.archive side).dir? ref

instance : DecidablePred PruneKeepsNamed := fun v =>
  inferInstanceAs (Decidable (v.op.isPrune = true → ∀ side, ∀ ref ∈ v.before.store.namedRefs side,
    (v.after.store.archive side).dir? ref = (v.before.store.archive side).dir? ref))

/-- At a prune step, every tree that a pointer names is the one of a loaded record, under a root
spelled as it resolves, or was modified within the retention window. -/
def NamedRetained (specs : Specs) (v : Visit World Op Turn) : Prop :=
  v.op.isPrune = true → ∀ side, ∀ ref ∈ v.before.store.namedRefs side,
    (∃ g ∈ ref.number, Recorded v.before.store (specs.of side) side g) ∨
      Young (v.after.machine.now - releaseRetentionMs) v.before.store side ref

instance (specs : Specs) : DecidablePred (NamedRetained specs) := fun v =>
  inferInstanceAs (Decidable (v.op.isPrune = true → ∀ side, ∀ ref ∈ v.before.store.namedRefs side,
    (∃ g ∈ ref.number, Recorded v.before.store (specs.of side) side g) ∨
      Young (v.after.machine.now - releaseRetentionMs) v.before.store side ref))

theorem named_of_mem {d : Store} {side : Side} {ref : DirRef} (h : ref ∈ d.namedRefs side) :
    Named d side ref := by
  intro g hg hun
  simp only [Store.namedRefs, List.mem_append, Option.mem_toList,
    Option.map_eq_some_iff] at h
  rcases h with ⟨m, hm, rfl⟩ | ⟨m, hm, rfl⟩
  · exact hun.record m hm hg
  · exact hun.pair m hm hg

theorem number_eq_some {ref : DirRef} {g : ℕ} : ref.number = some g ↔ ref = .tree g := by
  cases ref <;> simp [DirRef.number]

/-- In every run whose reads of the records succeed and whose prune steps find the named trees
retained, no prune step deletes a tree that a pointer names. -/
theorem visits_pruneKeepsNamed (specs : Specs) (calls : List (Call × List Turn)) (w : World)
    (hnumbered : Sound w)
    (h : ∀ v ∈ visits specs calls w, ReadsRecord v ∧ NamedRetained specs v) :
    ∀ v ∈ visits specs calls w, PruneKeepsNamed v := by
  intro v hv hop side ref href
  have hmoves := visits_moves (A := fun v => ReadsRecord v ∧ NamedRetained specs v)
    (I := fun _ => True) True (fun _ _ _ => True) (fun _ _ hA => hA.1)
    (fun _ _ _ _ _ _ _ => trivial) (fun _ _ _ _ _ => trivial) hnumbered trivial h v hv
  rcases hmoves.1 with ⟨-, hchange⟩ | ⟨-, m, hm, -⟩
  · refine hchange.dir?_eq (named_of_mem href) fun _ _ _ => ?_
    rcases (h v hv).2 hop side ref href with ⟨g, hg, hrec⟩ | hyoung
    · exact .inl ⟨trivial, g, number_eq_some.mp hg, hrec⟩
    · exact .inr hyoung
  · rw [hm]

/-- A root reached through a symbolic link, its recorded tree a day old. -/
def linkedSpecs : Specs :=
  ⟨{ exampleArchive "e.zip" "e" with localRoot := ⟨["d", "e"], ["d", "e"], ["mnt", "e"]⟩ },
    exampleArchive "l.zip" "l"⟩

def linkedWorld : World :=
  ⟨⟨90000000, 3, []⟩, fun _ => ⟨.absent, none⟩,
    ⟨fun
      | .excel => ⟨some ⟨"a", .tree 1⟩, ⟨[], "", ""⟩, fun _ => none,
        [⟨1, false, 0, ⟨["e"], "a", "a"⟩⟩]⟩
      | .levels => ⟨none, ⟨[], "", ""⟩, fun _ => none, []⟩, none⟩⟩

/-- An offline pair sync where the excel record is ahead of the pair. -/
theorem visits_pruneKeepsNamed_aheadWorld :
    Sound aheadWorld ∧
      ∀ v ∈ visits exampleSpecs [(.pair [] true, turnsWith 90 [])] aheadWorld,
        PruneKeepsNamed v := by
  have hsound : Sound aheadWorld := by decide +kernel
  exact ⟨hsound, visits_pruneKeepsNamed exampleSpecs [(.pair [] true, turnsWith 90 [])] aheadWorld
    hsound (by decide +kernel)⟩

/-- Through a link the recorded tree is not recognised among the candidates. -/
theorem visits_not_pruneKeepsNamed :
    ¬ ∀ v ∈ visits linkedSpecs [(.pair [] true, turnsWith 90 [])] linkedWorld,
      PruneKeepsNamed v := by
  decide +kernel

end PrtsMcp.PairSync
