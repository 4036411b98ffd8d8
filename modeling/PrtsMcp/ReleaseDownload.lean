import PrtsMcp.Executions
import PrtsMcp.ReleaseSyncSteps

/-!
# A download that fails

What a failed download of a release asset leaves behind, for every reply of the environment.
-/
namespace PrtsMcp

namespace FileSteps

open Process SyncTypes

variable {σ : Type} [OnMachine σ] {s t : σ} {vs : List (Visit σ Op Turn)} {op : Op}

theorem exec_ioStep_done {f : σ → σ} {u : Unit} (h : Exec (ioStep op f) s vs (.done u) t) :
    ∃ turn, turn.reply.io = .ok () ∧ vs = [⟨op, turn, s, t⟩] ∧ t = f (waited turn s) := by
  rcases exec_perform h with ⟨-, ho⟩ | ⟨turn, hvs, ht, ho⟩
  · cases ho
  · refine ⟨turn, ?_, hvs, ?_⟩
    · cases hio : turn.reply.io with
      | ok _ => rfl
      | error e => simp [hio, Outcome.ofExcept] at ho
    · cases hio : turn.reply.io with
      | ok _ =>
        simp only [hio] at ht
        exact ht
      | error e => simp [hio, Outcome.ofExcept] at ho

theorem exec_ioStep_error {f : σ → σ} {e : SyncError}
    (h : Exec (ioStep op f) s vs (.error e) t) :
    ∃ turn, turn.reply.io = .error e ∧ vs = [⟨op, turn, s, t⟩] ∧ t = waited turn s := by
  rcases exec_perform h with ⟨-, ho⟩ | ⟨turn, hvs, ht, ho⟩
  · cases ho
  · refine ⟨turn, ?_, hvs, ?_⟩
    · cases hio : turn.reply.io with
      | ok _ => simp [hio, Outcome.ofExcept] at ho
      | error e' =>
        simp only [hio, Outcome.ofExcept, Outcome.error.injEq] at ho
        rw [ho]
    · cases hio : turn.reply.io with
      | ok _ => simp [hio, Outcome.ofExcept] at ho
      | error e' =>
        simp only [hio] at ht
        exact ht

end FileSteps

namespace ReleaseSync

open Process SyncTypes FileSteps ZipValidation ReleaseTags

/-- The temporary files are those there were, and no suffix was drawn. -/
def SameTemps (s t : ReleaseState) : Prop :=
  t.machine.temps = s.machine.temps ∧ t.machine.fresh = s.machine.fresh

/-- A new suffix was drawn, and its file is there. -/
def OneTemp (s t : ReleaseState) : Prop :=
  t.machine.temps = s.machine.fresh :: s.machine.temps ∧ t.machine.fresh = s.machine.fresh + 1

/-- A temporary file with a suffix drawn in between is still there. -/
def LeavesTemp (s t : ReleaseState) : Prop :=
  ∃ suffix ∈ t.machine.temps, s.machine.fresh ≤ suffix ∧ suffix < t.machine.fresh

abbrev Answers := List (Visit ReleaseState Op Turn)

/-- The zip was renamed into its place. -/
def Placed (tag : String) (vs : Answers) : Prop :=
  ∃ v ∈ vs, v.op = .placeZip tag ∧ v.reply.reply.io = .ok ()

/-- The stream made its temporary file. -/
def Streamed (url : String) (vs : Answers) : Prop :=
  ∃ v ∈ vs, v.op = .download url ∧
    ((∃ latest archive stats, v.reply.reply = .body latest archive stats) ∨
      ∃ text, v.reply.reply = .torn text)

def Removed (vs : Answers) : Prop := ∃ v ∈ vs, v.op = .removeTemp ∧ v.reply.reply.io = .ok ()

/-- The file that was streamed. -/
def Serves (tag url : String) (z : ZipFile) (vs : Answers) : Prop :=
  ∃ v ∈ vs, v.op = .download url ∧ ∃ latest archive stats,
    v.reply.reply = .body latest archive stats ∧
      z = ⟨servedRelease tag latest, archive, stats.sha256⟩

/-- The record got as far as its own temporary file. -/
def Littered (vs : Answers) : Prop :=
  ∃ v ∈ vs, v.op = .placeReleaseMeta ∨ v.op = .writeTemp ∧ ∃ text, v.reply.reply = .torn text

theorem exists_mem_append_iff {α : Type} {p : α → Prop} {vs ws : List α} :
    (∃ v ∈ vs ++ ws, p v) ↔ (∃ v ∈ vs, p v) ∨ ∃ v ∈ ws, p v := by
  simp only [List.mem_append, or_and_right, exists_or]

theorem sameTemps_waited (turn : Turn) (s : ReleaseState) : SameTemps s (waited turn s) :=
  ⟨rfl, rfl⟩

theorem exec_writeTemp_done {s t : ReleaseState} {vs : Answers} {suffix : ℕ}
    (h : Exec writeTemp s vs (.done suffix) t) :
    ∃ turn, vs = [⟨.writeTemp, turn, s, t⟩] ∧ (∀ text, turn.reply ≠ .torn text) ∧
      suffix = s.machine.fresh ∧ OneTemp s t ∧ t.dir = s.dir := by
  rcases exec_perform h with ⟨-, ho⟩ | ⟨turn, hvs, ht, ho⟩
  · cases ho
  · refine ⟨turn, hvs, ?_⟩
    cases hreply : turn.reply <;> simp only [hreply, Outcome.ofExcept] at ht ho <;> cases ho <;>
      exact ⟨by simp, rfl, ht ▸ ⟨rfl, rfl⟩, ht ▸ rfl⟩

theorem exec_writeTemp_error {s t : ReleaseState} {vs : Answers} {e : SyncError}
    (h : Exec writeTemp s vs (.error e) t) :
    ∃ turn, vs = [⟨.writeTemp, turn, s, t⟩] ∧ t.dir = s.dir ∧
      ((∀ text, turn.reply ≠ .torn text) ∧ SameTemps s t ∨
        (∃ text, turn.reply = .torn text) ∧ OneTemp s t) := by
  rcases exec_perform h with ⟨-, ho⟩ | ⟨turn, hvs, ht, ho⟩
  · cases ho
  · refine ⟨turn, hvs, ?_⟩
    cases hreply : turn.reply <;> simp only [hreply, Outcome.ofExcept] at ht ho <;> cases ho
    · exact ⟨ht ▸ rfl, .inl ⟨by simp, ht ▸ ⟨rfl, rfl⟩⟩⟩
    · exact ⟨ht ▸ rfl, .inr ⟨⟨_, rfl⟩, ht ▸ ⟨rfl, rfl⟩⟩⟩

/-- A record that fails leaves its own temporary file where it got so far. -/
theorem exec_saveReleaseMeta_error {m : CacheMeta} {s t : ReleaseState} {vs : Answers}
    {e : SyncError} (h : Exec (saveReleaseMeta m) s vs (.error e) t) :
    t.dir = s.dir ∧ (∀ v ∈ vs, v.op = .createDir ∨ v.op = .writeTemp ∨ v.op = .placeReleaseMeta) ∧
      (¬ Littered vs ∧ SameTemps s t ∨ Littered vs ∧ OneTemp s t) := by
  rcases exec_bind_error h with hdir | ⟨_, u, vs₁, vs₂, hdir, hrest, rfl⟩
  · obtain ⟨turn, -, rfl, rfl⟩ := exec_ioStep_error hdir
    exact ⟨rfl, by simp, .inl ⟨by simp [Littered], sameTemps_waited turn s⟩⟩
  · obtain ⟨turn, -, rfl, rfl⟩ := exec_ioStep_done hdir
    rcases exec_bind_error hrest with hwrite | ⟨suffix, w, vs₁, vs₃, hwrite, hput, rfl⟩
    · obtain ⟨turn', rfl, hsame, htemps⟩ := exec_writeTemp_error hwrite
      refine ⟨hsame, by simp, ?_⟩
      rcases htemps with ⟨hnot, htemps⟩ | ⟨htorn, htemps⟩
      · exact .inl ⟨by simp [Littered, hnot], htemps⟩
      · exact .inr ⟨by simpa [Littered] using htorn, htemps⟩
    · obtain ⟨turn', rfl, -, -, htemps, hsame⟩ := exec_writeTemp_done hwrite
      obtain ⟨turn'', -, rfl, rfl⟩ := exec_ioStep_error hput
      exact ⟨hsame, by simp, .inr ⟨by simp [Littered], htemps⟩⟩

/-- The temporary file is there no more, and no suffix was drawn. -/
def Dropped (suffix : ℕ) (s t : ReleaseState) : Prop :=
  t.machine.temps = s.machine.temps.filter (· ≠ suffix) ∧ t.machine.fresh = s.machine.fresh

/-- Nothing but looking and waiting. -/
def Quiet (v : Visit ReleaseState Op Turn) : Prop :=
  v.op = .checkDownload ∨ ∃ url, v.op = .fetchManifest url

def Still (s t : ReleaseState) : Prop := t.dir = s.dir ∧ SameTemps s t

theorem still_waited {s t : ReleaseState} (turn : Turn) (h : Still s t) :
    Still s (waited turn t) := h

theorem checkDownload_quiet (spec : ReleaseSpec) (suffix : ℕ) (z : ZipFile) (s : ReleaseState) :
    Triple (fun _ => True) Quiet (Still s) (checkDownload spec suffix z) (fun _ => Still s)
      fun _ => Still s := by
  refine triple_inspect fun turn t ht _ => ⟨.inl rfl, ?_⟩
  split
  · exact still_waited turn ht
  · exact still_waited turn ht

theorem verifyIfDeclared_quiet (spec : ReleaseSpec) (tag : String) (stats : DownloadStats)
    (s : ReleaseState) :
    Triple (fun _ => True) Quiet (Still s) (verifyIfDeclared spec tag stats) (fun _ => Still s)
      fun _ => Still s := by
  unfold verifyIfDeclared
  split
  · refine triple_bind (R := fun _ => Still s) ?_ fun response => ?_
    · exact triple_inspect fun turn t ht _ => ⟨.inr ⟨_, rfl⟩, still_waited turn ht⟩
    · exact orThrow_spec _ (fun _ _ _ ht => ht) fun _ _ ht => ht
  · exact triple_pure fun _ ht => ht

/-- What a publication that fails has done: the zip was not placed, or it was placed and its
release could not be recorded. -/
def Unpublished (tag : String) (suffix : ℕ) (z : ZipFile) (s : ReleaseState) (vs : Answers)
    (t : ReleaseState) : Prop :=
  ¬ Placed tag vs ∧ Still s t ∨
    Placed tag vs ∧ t.dir = { s.dir with zip := .file z } ∧
      ∃ u, Dropped suffix s u ∧ (¬ Littered vs ∧ SameTemps u t ∨ Littered vs ∧ OneTemp u t)

/-- Neither the stream nor the removal of its file. -/
def Inner (vs : Answers) : Prop := ∀ v ∈ vs, v.op ≠ .removeTemp ∧ ∀ url, v.op ≠ .download url

theorem placed_append_of_quiet {tag : String} {qs : Answers} (h : ∀ v ∈ qs, Quiet v)
    (vs : Answers) : Placed tag (qs ++ vs) ↔ Placed tag vs := by
  refine exists_mem_append_iff.trans (or_iff_right ?_)
  rintro ⟨v, hv, hop, -⟩
  rcases h v hv with hq | ⟨url, hq⟩ <;> cases hop.symm.trans hq

theorem littered_append_of_quiet {qs : Answers} (h : ∀ v ∈ qs, Quiet v) (vs : Answers) :
    Littered (qs ++ vs) ↔ Littered vs := by
  refine exists_mem_append_iff.trans (or_iff_right ?_)
  rintro ⟨v, hv, hop⟩
  rcases h v hv with hq | ⟨url, hq⟩ <;> simp [hq] at hop

theorem inner_append_of_quiet {qs vs : Answers} (h : ∀ v ∈ qs, Quiet v) (hvs : Inner vs) :
    Inner (qs ++ vs) := by
  intro v hv
  rcases List.mem_append.mp hv with hv | hv
  · rcases h v hv with hq | ⟨url, hq⟩ <;> simp [hq]
  · exact hvs v hv

theorem unpublished_append_of_quiet {tag : String} {suffix : ℕ} {z : ZipFile}
    {s u t : ReleaseState} {qs vs : Answers} (hqs : ∀ v ∈ qs, Quiet v) (hstill : Still s u)
    (h : Unpublished tag suffix z u vs t) : Unpublished tag suffix z s (qs ++ vs) t := by
  obtain ⟨hdir, htemps, hfresh⟩ := hstill
  unfold Unpublished at h ⊢
  rw [placed_append_of_quiet hqs, littered_append_of_quiet hqs]
  simpa only [Still, SameTemps, Dropped, hdir, htemps, hfresh] using h

theorem unpublished_of_quiet {tag : String} {suffix : ℕ} {z : ZipFile} {s t : ReleaseState}
    {qs : Answers} (hqs : ∀ v ∈ qs, Quiet v) (hstill : Still s t) :
    Unpublished tag suffix z s qs t := by
  refine .inl ⟨?_, hstill⟩
  rw [← List.append_nil qs, placed_append_of_quiet hqs]
  simp [Placed]

theorem exec_placeZip_error {tag : String} {suffix : ℕ} {z : ZipFile} {m : ℕ → CacheMeta}
    {s t : ReleaseState} {vs : Answers} {e : SyncError}
    (h : Exec (do placeZip tag suffix z; let now ← nowMs; saveReleaseMeta (m now)) s vs
      (.error e) t) : Inner vs ∧ Unpublished tag suffix z s vs t := by
  rcases exec_bind_error h with hplace | ⟨_, u, vs₁, vs₂, hplace, hrest, rfl⟩
  · obtain ⟨turn, hio, rfl, rfl⟩ := exec_ioStep_error hplace
    exact ⟨by simp [Inner], .inl ⟨by simp [Placed, hio], still_waited turn ⟨rfl, rfl, rfl⟩⟩⟩
  · obtain ⟨turn, hio, rfl, rfl⟩ := exec_ioStep_done hplace
    rcases exec_bind_error hrest with hnow | ⟨now, w, vs₁, vs₃, hnow, hsave, rfl⟩
    · obtain ⟨-, ho, -⟩ := exec_read hnow
      cases ho
    · obtain ⟨rfl, -, rfl⟩ := exec_read hnow
      obtain ⟨hdir, hops, htemps⟩ := exec_saveReleaseMeta_error hsave
      constructor
      · intro v hv
        rcases List.mem_cons.mp hv with rfl | hv
        · simp
        · rcases hops v hv with hop | hop | hop <;> simp [hop]
      · have hlittered (v : Visit ReleaseState Op Turn) (hv : v.op = .placeZip tag) :
            Littered ([v] ++ ([] ++ vs₃)) ↔ Littered vs₃ := by
          simp [Littered, hv]
        rw [← hlittered ⟨.placeZip tag, turn, s, _⟩ rfl] at htemps
        refine .inr ⟨⟨_, List.mem_cons_self, rfl, hio⟩, hdir, _, ?_, htemps⟩
        exact ⟨rfl, rfl⟩

/-- A publication that fails: the zip was not placed, or its release could not be recorded. -/
theorem exec_publishDownload_error {spec : ReleaseSpec} {tag : String} {suffix : ℕ} {z : ZipFile}
    {stats : DownloadStats} {s t : ReleaseState} {vs : Answers} {e : SyncError}
    (h : Exec (publishDownload spec tag suffix z stats) s vs (.error e) t) :
    Inner vs ∧ Unpublished tag suffix z s vs t := by
  have hstill : Still s s := ⟨rfl, rfl, rfl⟩
  rcases exec_bind_error h with hcheck | ⟨_, u, vs₁, vs₂, hcheck, hrest, rfl⟩
  · obtain ⟨hvs, hpost⟩ := (checkDownload_quiet spec suffix z s).exec hstill hcheck
    have hinner : Inner (vs ++ []) := inner_append_of_quiet hvs (by simp [Inner])
    rw [List.append_nil] at hinner
    exact ⟨hinner, unpublished_of_quiet hvs hpost⟩
  obtain ⟨hvs₁, hu⟩ := (checkDownload_quiet spec suffix z s).exec hstill hcheck
  rcases exec_bind_error hrest with hverify | ⟨_, w, vs₂, vs₃, hverify, hplace, rfl⟩
  · obtain ⟨hvs, hpost⟩ := (verifyIfDeclared_quiet spec tag stats s).exec hu hverify
    have hall : ∀ v ∈ vs₁ ++ vs₂, Quiet v := List.forall_mem_append.mpr ⟨hvs₁, hvs⟩
    have hinner : Inner (vs₁ ++ vs₂ ++ []) := inner_append_of_quiet hall (by simp [Inner])
    rw [List.append_nil] at hinner
    exact ⟨hinner, unpublished_of_quiet hall hpost⟩
  obtain ⟨hvs₂, hw⟩ := (verifyIfDeclared_quiet spec tag stats s).exec hu hverify
  obtain ⟨hinner, hplaced⟩ := exec_placeZip_error hplace
  have hall : ∀ v ∈ vs₁ ++ vs₂, Quiet v := List.forall_mem_append.mpr ⟨hvs₁, hvs₂⟩
  rw [← List.append_assoc]
  exact ⟨inner_append_of_quiet hall hinner, unpublished_append_of_quiet hall hw hplaced⟩

theorem exec_downloadTemp_error {spec : ReleaseSpec} {tag url : String} {s t : ReleaseState}
    {vs : Answers} {e : SyncError} (h : Exec (downloadTemp spec tag url) s vs (.error e) t) :
    t.dir = s.dir ∧ ¬ Placed tag vs ∧ ¬ Removed vs ∧
      (¬ Streamed url vs ∧ SameTemps s t ∨ Streamed url vs ∧ OneTemp s t) := by
  rcases exec_perform h with ⟨-, ho⟩ | ⟨turn, rfl, ht, ho⟩
  · cases ho
  · cases hreply : turn.reply <;> simp only [hreply, Outcome.ofExcept] at ht ho <;> cases ho
    all_goals
      subst ht
      simp [Placed, Removed, Streamed, hreply, SameTemps, OneTemp, OnMachine.onMachine,
        Machine.addTemp, Machine.wait]

theorem exec_downloadTemp_done {spec : ReleaseSpec} {tag url : String} {s t : ReleaseState}
    {vs : Answers} {x : ℕ × ZipFile × DownloadStats}
    (h : Exec (downloadTemp spec tag url) s vs (.done x) t) :
    t.dir = s.dir ∧ x.1 = s.machine.fresh ∧ OneTemp s t ∧ ¬ Placed tag vs ∧ ¬ Removed vs ∧
      ¬ Littered vs ∧ Streamed url vs ∧ ∀ z, Serves tag url z vs ↔ z = x.2.1 := by
  rcases exec_perform h with ⟨-, ho⟩ | ⟨turn, rfl, ht, ho⟩
  · cases ho
  · cases hreply : turn.reply <;> simp only [hreply, Outcome.ofExcept] at ht ho <;> cases ho
    subst ht
    simp [Placed, Removed, Streamed, Littered, Serves, hreply, OneTemp, OnMachine.onMachine,
      Machine.addTemp, Machine.wait]

theorem exec_removeTemp {suffix : ℕ} {s t : ReleaseState} {vs : Answers} {u : Unit}
    (h : Exec (Prog.ignore (removeTemp suffix) : Step ReleaseState Unit) s vs (.done u) t) :
    ∃ turn, vs = [⟨.removeTemp, turn, s, t⟩] ∧ t.dir = s.dir ∧
      (turn.reply.io = .ok () ∧ Dropped suffix s t ∨
        turn.reply.io ≠ .ok () ∧ SameTemps s t) := by
  obtain ⟨r, w, vs₁, vs₂, hremove, hpure, rfl⟩ := exec_bind_done h
  obtain ⟨rfl, -, rfl⟩ := exec_pure hpure
  have hremove := exec_attempt hremove
  cases r with
  | ok _ =>
    obtain ⟨turn, hio, rfl, rfl⟩ := exec_ioStep_done hremove
    exact ⟨turn, rfl, rfl, .inl ⟨hio, rfl, rfl⟩⟩
  | error e =>
    obtain ⟨turn, hio, rfl, rfl⟩ := exec_ioStep_error hremove
    exact ⟨turn, rfl, rfl, .inr ⟨by simp [hio], rfl, rfl⟩⟩

theorem exec_removeTemp_error {suffix : ℕ} {s t : ReleaseState} {vs : Answers} {e : SyncError}
    (h : Exec (Prog.ignore (removeTemp suffix) : Step ReleaseState Unit) s vs (.error e) t) :
    False := by
  rcases exec_bind_error h with hattempt | ⟨_, _, _, _, -, hpure, -⟩
  · exact exec_attempt_error hattempt
  · obtain ⟨-, ho, -⟩ := exec_pure hpure
    cases ho

section Temps

variable {s t u w : ReleaseState}

theorem not_leavesTemp_of_fresh (h : t.machine.fresh = s.machine.fresh) : ¬ LeavesTemp s t := by
  rintro ⟨suffix, -, hlow, hhigh⟩
  omega

theorem leavesTemp_of_oneTemp (h : OneTemp s u) (ht : SameTemps u t) : LeavesTemp s t := by
  refine ⟨s.machine.fresh, ?_, le_refl _, ?_⟩
  · rw [ht.1, h.1]
    exact List.mem_cons_self
  · rw [ht.2, h.2]
    omega

theorem not_leavesTemp_of_dropped (h : OneTemp s u) (ht : Dropped s.machine.fresh u t) :
    ¬ LeavesTemp s t := by
  rintro ⟨suffix, hmem, hlow, hhigh⟩
  rw [ht.2, h.2] at hhigh
  rw [ht.1, List.mem_filter] at hmem
  have hne : suffix ≠ s.machine.fresh := by simpa using hmem.2
  omega

/-- The suffix of the record is not the one of the zip. -/
theorem leavesTemp_of_record (h : OneTemp s u) (hu : Dropped s.machine.fresh u w)
    {x : ReleaseState} (hx : OneTemp w x)
    (ht : SameTemps x t ∨ Dropped s.machine.fresh x t) : LeavesTemp s t := by
  have hfresh : w.machine.fresh = s.machine.fresh + 1 := by rw [hu.2, h.2]
  refine ⟨w.machine.fresh, ?_, by omega, ?_⟩
  · rcases ht with ht | ht
    · rw [ht.1, hx.1]
      exact List.mem_cons_self
    · rw [ht.1, hx.1, List.mem_filter]
      refine ⟨List.mem_cons_self, ?_⟩
      have hne : w.machine.fresh ≠ s.machine.fresh := by omega
      simpa using hne
  · rcases ht with ht | ht <;> rw [ht.2, hx.2] <;> omega

theorem Dropped.again {suffix : ℕ} {x : ReleaseState} (hu : Dropped suffix u w)
    (hx : SameTemps w x) (ht : SameTemps x t ∨ Dropped suffix x t) : Dropped suffix u t := by
  rcases ht with ht | ht
  · exact ⟨by rw [ht.1, hx.1, hu.1], by rw [ht.2, hx.2, hu.2]⟩
  · refine ⟨?_, by rw [ht.2, hx.2, hu.2]⟩
    rw [ht.1, hx.1, hu.1, List.filter_filter]
    simp

end Temps

/-- A download that fails: no directory, or a failed stream or publication and the removal of the
temporary file. -/
theorem exec_downloadReleaseAsset_error {spec : ReleaseSpec} {tag url : String}
    {s t : ReleaseState} {vs : Answers} {e : SyncError}
    (h : Exec (downloadReleaseAsset spec tag url) s vs (.error e) t) :
    (∃ turn, vs = [⟨.createDir, turn, s, t⟩] ∧ Still s t) ∨
    ∃ turn u w vs₁ remove, Still s u ∧
      vs = ⟨.createDir, turn, s, u⟩ :: (vs₁ ++ [⟨.removeTemp, remove, w, t⟩]) ∧
      (∃ e', Exec (do
        let (suffix, z, stats) ← downloadTemp spec tag url
        publishDownload spec tag suffix z stats) u vs₁ (.error e') w) ∧ t.dir = w.dir ∧
      (remove.reply.io = .ok () ∧ Dropped s.machine.fresh w t ∨
        remove.reply.io ≠ .ok () ∧ SameTemps w t) := by
  rcases exec_bind_error h with hdir | ⟨_, u, vs₁, vs₂, hdir, hrest, rfl⟩
  · obtain ⟨turn, -, rfl, rfl⟩ := exec_ioStep_error hdir
    exact .inl ⟨turn, rfl, rfl, rfl, rfl⟩
  obtain ⟨turn, -, rfl, rfl⟩ := exec_ioStep_done hdir
  rcases exec_bind_error hrest with hread | ⟨suffix, u, vs₁, vs₂, hread, hrest, rfl⟩
  · obtain ⟨-, ho, -⟩ := exec_read hread
    cases ho
  obtain ⟨rfl, hsuffix, rfl⟩ := exec_read hread
  obtain rfl : _ = suffix := (Outcome.done.inj hsuffix).symm
  rcases exec_bind_error hrest with hattempt | ⟨r, w, vs₁, vs₂, hattempt, hrest, rfl⟩
  · exact (exec_attempt_error hattempt).elim
  have hinner := exec_attempt hattempt
  cases r with
  | ok _ =>
    obtain ⟨-, ho, -⟩ := exec_pure hrest
    cases ho
  | error e' =>
    rcases exec_bind_error hrest with hremove | ⟨_, x, vs₂, vs₃, hremove, hthrow, rfl⟩
    · exact (exec_removeTemp_error hremove).elim
    obtain ⟨rfl, -, rfl⟩ := exec_throw hthrow
    obtain ⟨remove, rfl, hdir', hremoved⟩ := exec_removeTemp hremove
    exact .inr ⟨turn, waited turn s, w, vs₁, remove, ⟨rfl, rfl, rfl⟩, by simp, ⟨e', hinner⟩,
      hdir', hremoved⟩

/-- What brings back the state before a failed call: the zip was not placed and the temporary file
that was made is removed, or the zip was already there and the record was never begun. -/
def Undone (s : ReleaseState) (tag url : String) (vs : Answers) : Prop :=
  ¬ Placed tag vs ∧ (Streamed url vs → Removed vs) ∨
    Placed tag vs ∧ ¬ Littered vs ∧ ∃ z, s.dir.zip = .file z ∧ Serves tag url z vs

/-- The answers to the stream and its publication decide, with the one to the removal. -/
theorem undone_inner {s : ReleaseState} {tag url : String} {vs : Answers}
    (make remove : Visit ReleaseState Op Turn) (hmake : make.op = .createDir)
    (hremove : remove.op = .removeTemp) :
    Undone s tag url (make :: (vs ++ [remove])) ↔
      ¬ Placed tag vs ∧ (Streamed url vs → Removed vs ∨ remove.reply.reply.io = .ok ()) ∨
        Placed tag vs ∧ ¬ Littered vs ∧ ∃ z, s.dir.zip = .file z ∧ Serves tag url z vs := by
  simp only [Undone, Placed, Streamed, Removed, Littered, Serves, List.mem_cons, List.mem_append,
    List.not_mem_nil, or_false, or_and_right, exists_or, exists_eq_left, hmake, hremove]
  simp

/-- A file that was made and not placed stays exactly when its removal fails. -/
theorem leavesTemp_iff_of_removal {s t w : ReleaseState} {ok : Prop} (hw : OneTemp s w)
    (h : ok ∧ Dropped s.machine.fresh w t ∨ ¬ ok ∧ SameTemps w t) : LeavesTemp s t ↔ ¬ ok := by
  rcases h with ⟨hok, ht⟩ | ⟨hok, ht⟩
  · exact iff_of_false (not_leavesTemp_of_dropped hw ht) (not_not.mpr hok)
  · exact iff_of_true (leavesTemp_of_oneTemp hw ht) hok

/-- A call that fails leaves the state before it exactly when the answers let it be undone. -/
theorem downloadReleaseAsset_undone_iff {spec : ReleaseSpec} {tag url : String}
    {s : ReleaseState} {turns : List Turn} {e : SyncError}
    (h : ((downloadReleaseAsset spec tag url).run s turns).outcome = .error e) :
    (((downloadReleaseAsset spec tag url).run s turns).world.dir = s.dir ∧
      ¬ LeavesTemp s ((downloadReleaseAsset spec tag url).run s turns).world) ↔
    Undone s tag url ((downloadReleaseAsset spec tag url).run s turns).trail := by
  have hexec := exec_run (downloadReleaseAsset spec tag url) s turns
  rw [h] at hexec
  generalize ((downloadReleaseAsset spec tag url).run s turns).world = t at hexec ⊢
  generalize ((downloadReleaseAsset spec tag url).run s turns).trail = vs at hexec ⊢
  rcases exec_downloadReleaseAsset_error hexec with ⟨turn, rfl, hstill⟩ |
      ⟨turn, u, w, vs, remove, hu, rfl, ⟨e', hinner⟩, hdir, hremoved⟩
  · refine iff_of_true ⟨hstill.1, not_leavesTemp_of_fresh hstill.2.2⟩ (.inl ⟨?_, ?_⟩)
    · simp [Placed]
    · simp [Streamed]
  rw [undone_inner _ _ rfl rfl]
  -- The state with the directory stands for the one before it.
  have hleaves : LeavesTemp s t ↔ LeavesTemp u t := by
    unfold LeavesTemp
    rw [hu.2.2]
  rw [hleaves, ← hu.1]
  rw [← hu.2.2] at hremoved
  dsimp only
  rcases exec_bind_error hinner with
      hstream | ⟨⟨suffix, z, stats⟩, x, vs₁, vs₂, hstream, hpublish, rfl⟩
  · obtain ⟨hw, hplaced, hnot, htemps⟩ := exec_downloadTemp_error hstream
    have hkept : t.dir = u.dir := hdir.trans hw
    rcases htemps with ⟨hstreamed, htemps⟩ | ⟨hstreamed, htemps⟩
    · have hfresh : t.machine.fresh = u.machine.fresh := by
        rcases hremoved with ⟨-, ht⟩ | ⟨-, ht⟩ <;> rw [ht.2, htemps.2]
      exact iff_of_true ⟨hkept, not_leavesTemp_of_fresh hfresh⟩
        (.inl ⟨hplaced, fun h => absurd h hstreamed⟩)
    · rw [leavesTemp_iff_of_removal htemps hremoved]
      simp [hkept, hplaced, hnot, hstreamed]
  · obtain ⟨hx, rfl, hone, hplaced, hnot, hlittered, hstreamed, hserves⟩ :=
      exec_downloadTemp_done hstream
    obtain ⟨hinner, hpublished⟩ := exec_publishDownload_error hpublish
    have hplaced' : Placed tag (vs₁ ++ vs₂) ↔ Placed tag vs₂ :=
      exists_mem_append_iff.trans (or_iff_right hplaced)
    have hlittered' : Littered (vs₁ ++ vs₂) ↔ Littered vs₂ :=
      exists_mem_append_iff.trans (or_iff_right hlittered)
    have hremoved' : ¬ Removed (vs₁ ++ vs₂) := by
      rintro ⟨v, hv, hop, hok⟩
      rcases List.mem_append.mp hv with hv | hv
      · exact hnot ⟨v, hv, hop, hok⟩
      · exact (hinner v hv).1 hop
    have hstreamed' : Streamed url (vs₁ ++ vs₂) := exists_mem_append_iff.mpr (.inl hstreamed)
    have hserves' (z' : ZipFile) : Serves tag url z' (vs₁ ++ vs₂) ↔ z' = z := by
      refine (exists_mem_append_iff.trans (or_iff_left ?_)).trans (hserves z')
      rintro ⟨v, hv, hop, -⟩
      exact (hinner v hv).2 url hop
    simp only [hplaced', hlittered', hremoved', hstreamed', hserves', false_or, true_imp_iff]
    rcases hpublished with ⟨hnone, hstill⟩ | ⟨hsome, hzip, y, hdropped, htemps⟩
    · have hkept : t.dir = u.dir := hdir.trans (hstill.1.trans hx)
      have hw : OneTemp u w := ⟨hstill.2.1.trans hone.1, hstill.2.2.trans hone.2⟩
      rw [leavesTemp_iff_of_removal hw hremoved]
      simp [hkept, hnone]
    · have hzip' : t.dir = u.dir ↔ u.dir.zip = .file z := by
        rw [hdir, hzip, hx]
        constructor
        · intro h
          rw [← h]
        · intro h
          rw [← h]
      have ht : SameTemps w t ∨ Dropped u.machine.fresh w t := by
        rcases hremoved with ⟨-, h⟩ | ⟨-, h⟩
        · exact .inr h
        · exact .inl h
      have hleaves' : LeavesTemp u t ↔ Littered vs₂ := by
        rcases htemps with ⟨hclean, hsame⟩ | ⟨hdirty, hrecord⟩
        · exact iff_of_false (not_leavesTemp_of_dropped hone (hdropped.again hsame ht)) hclean
        · exact iff_of_true (leavesTemp_of_record hone hdropped hrecord ht) hdirty
      rw [hzip', hleaves']
      simp [hsome, and_comm]

/-- A spec whose download only has to arrive. -/
def storySpec : ReleaseSpec :=
  ⟨"3aKHP", "ArknightsStoryJson", "zh_CN.zip", "zh_CN.zip", false, .none⟩

/-- No file yet, at the start of the clock. -/
def emptyDir : ReleaseState := ⟨⟨0, 0, []⟩, ⟨.absent, none⟩⟩

/-- The download succeeds, and the disk is full when its release is recorded. -/
def fullDisk : List Turn :=
  [⟨0, .ok⟩, ⟨0, .body "data-1" (.ok []) ⟨0, "00"⟩⟩, ⟨0, .ok⟩, ⟨0, .ok⟩, ⟨0, .ok⟩,
    ⟨0, .fail "no space left on device"⟩, ⟨0, .ok⟩]

theorem downloadReleaseAsset_undone_iff_refused :
    (((downloadReleaseAsset storySpec "data-1" "https://host/zh_CN.zip").run emptyDir
        [⟨0, .fail "read-only"⟩]).world.dir = emptyDir.dir ∧
      ¬ LeavesTemp emptyDir ((downloadReleaseAsset storySpec "data-1" "https://host/zh_CN.zip").run
        emptyDir [⟨0, .fail "read-only"⟩]).world) ↔
    Undone emptyDir "data-1" "https://host/zh_CN.zip"
      ((downloadReleaseAsset storySpec "data-1" "https://host/zh_CN.zip").run emptyDir
        [⟨0, .fail "read-only"⟩]).trail :=
  downloadReleaseAsset_undone_iff (e := .io "read-only") rfl

/-- The call fails, and the new zip stays. -/
theorem downloadReleaseAsset_not_undone :
    ¬ ((∃ e, ((downloadReleaseAsset storySpec "data-1" "https://host/zh_CN.zip").run emptyDir
        fullDisk).outcome = .error e) →
      ((downloadReleaseAsset storySpec "data-1" "https://host/zh_CN.zip").run emptyDir
        fullDisk).world.dir = emptyDir.dir ∧
      ¬ LeavesTemp emptyDir ((downloadReleaseAsset storySpec "data-1" "https://host/zh_CN.zip").run
        emptyDir fullDisk).world) := by
  intro h
  have hdir := (h ⟨.io "no space left on device", rfl⟩).1
  cases congrArg ReleaseDir.zip hdir

end ReleaseSync

end PrtsMcp
