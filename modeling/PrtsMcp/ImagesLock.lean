import PrtsMcp.ActivationLock

/-!
# The image writers' lock

`with_images_lease`: current writers hold a kernel lock on a file around the directory lock, and
mark the directory they make, so that the next one may remove what a killed one left. Legacy writers
take the directory lock alone.
-/
namespace PrtsMcp.ImagesLock

open Runs (EveryPrefix EveryStep)
open ActivationLock (LockTiming LockDir Io Event HoldersFresh MutualExclusion HoldsPath
  TakesOnlyStale)

variable {ι : Type*}

/-- What a current writer does next. -/
inductive Pc where
  | opening
  | locking
  | checkingDir
  | checkingMarker
  | recovering
  | acquiring
  | marking
  | running
  | leaving
  | ended
  | crashed
  deriving DecidableEq, Repr

/-- `lease` is the directory lock with all writers at it, `marked` says that the directory at its
path holds the marker file, and `kernel` has the lock of the lease file. -/
structure State (ι : Type*) where
  lease : ActivationLock.State ι
  marked : Bool
  kernel : Option ι
  pc : ι → Pc

def start (now : ℕ) : State ι := ⟨ActivationLock.start now, false, none, fun _ => .opening⟩

@[simps]
def State.setKernel (s : State ι) (kernel : Option ι) : State ι := { s with kernel }

@[simps]
def State.setDir (s : State ι) (path : Option (LockDir ι)) (marked : Bool) : State ι :=
  { s with lease := s.lease.setPath path, marked }

/-- A file is made or removed in the directory. -/
def touch (now : ℕ) (d : LockDir ι) : LockDir ι := { d with mtime := now }

/-- `std::fs::write` of the marker: a new file changes the directory. -/
def State.mark (s : State ι) : State ι :=
  s.setDir (s.lease.path.map fun d => if s.marked then d else touch s.lease.now d) true

/-- `remove_dir_all`. -/
def State.removeDir (s : State ι) : State ι := s.setDir none false

/-- A `remove_dir_all` that stops after the owner file. -/
def State.emptyDir (s : State ι) : State ι :=
  s.setDir (s.lease.path.map fun d => { touch s.lease.now d with owner := none }) s.marked

section Steps

variable [DecidableEq ι]

@[simps]
def State.goto (s : State ι) (p : ι) (pc : Pc) : State ι :=
  { s with pc := Function.update s.pc p pc }

/-- The kernel releases the lock with the last handle of its file. -/
def State.release (s : State ι) (p : ι) : State ι :=
  if s.kernel = some p then s.setKernel none else s

def State.finish (s : State ι) (p : ι) (pc : Pc) : State ι := (s.release p).goto p pc

/-- A step of the directory lock; a directory that leaves the path takes its marker along. -/
def State.inner (s : State ι) (timing : LockTiming) (e : Event ι) : State ι :=
  let lease := ActivationLock.next timing s.lease e
  { s with lease, marked := s.marked && lease.path.isSome }

/-- Where a current writer stands after a step of the directory lock. -/
def State.settle (s : State ι) (p : ι) : State ι :=
  match s.lease.pc p with
  | .done | .failed => s.finish p .ended
  | .holding _ => if s.pc p = .acquiring then s.goto p .marking else s
  | _ => s

/-- The next step of a current writer. -/
def writer (timing : LockTiming) (s : State ι) (p : ι) (io : Io) : State ι :=
  match s.pc p with
  | .opening => s.goto p (if io = .ok then .locking else .ended)
  | .locking =>
    if io ≠ .ok then s.goto p .ended
    else if s.kernel.isSome then s
    else (s.setKernel (some p)).goto p .checkingDir
  | .checkingDir =>
    s.goto p (if io = .ok ∧ s.lease.path.isSome then .checkingMarker else .acquiring)
  | .checkingMarker => s.goto p (if io = .ok ∧ s.marked then .recovering else .acquiring)
  | .recovering =>
    match s.lease.path, io with
    | some _, .ok => s.removeDir.goto p .acquiring
    | some _, .torn => s.emptyDir.finish p .ended
    | _, _ => s.finish p .ended
  | .acquiring => (s.inner timing (.act p io)).settle p
  | .marking =>
    if io = .ok ∧ s.lease.path.isSome then s.mark.goto p .running else s.goto p .leaving
  | .running => s.goto p .leaving
  | .leaving => (s.inner timing (.act p io)).settle p
  | .ended | .crashed => s

/-- Writers that are not `current` take the steps of the directory lock alone. -/
def next (current : ι → Bool) (timing : LockTiming) (s : State ι) : Event ι → State ι
  | .act p io => if current p then writer timing s p io else s.inner timing (.act p io)
  | .heartbeat p => s.inner timing (.heartbeat p)
  | .crash p => (s.inner timing (.crash p)).finish p .crashed
  | .tick ms => s.inner timing (.tick ms)

def run (current : ι → Bool) (timing : LockTiming) (now : ℕ) (es : List (Event ι)) : State ι :=
  es.foldl (next current timing) (start now)

theorem run_snoc (current : ι → Bool) (timing : LockTiming) (now : ℕ) (es : List (Event ι))
    (e : Event ι) :
    run current timing now (es ++ [e]) = next current timing (run current timing now es) e := by
  simp [run]

end Steps

/-- No step of another writer takes a freshly held directory off its path. -/
def SparesHolders [DecidableEq ι] (current : ι → Bool) (timing : LockTiming) (s : State ι)
    (e : Event ι) : Prop :=
  ∀ d ∈ s.lease.path, (s.lease.pc d.maker).Held → d.Fresh timing s.lease.now → ¬ e.By d.maker →
    (next current timing s e).lease.path.map LockDir.maker = some d.maker

/-- A recovery removes a directory that is still marked. -/
def RemovesMarked (current : ι → Bool) (s : State ι) : Event ι → Prop
  | .act p _ => current p = true → s.pc p = .recovering → s.lease.path.isSome → s.marked = true
  | _ => True

instance (current : ι → Bool) (s : State ι) (e : Event ι) :
    Decidable (RemovesMarked current s e) :=
  match e with
  | .act p _ =>
    inferInstanceAs (Decidable (current p = true → s.pc p = .recovering → s.lease.path.isSome →
      s.marked = true))
  | .heartbeat _ | .crash _ | .tick _ => isTrue trivial

/-- The steps of a current writer that has the kernel lock. -/
def Pc.Inside : Pc → Prop
  | .checkingDir | .checkingMarker | .recovering | .acquiring | .marking | .running
  | .leaving => True
  | _ => False

/-- The steps at which a current writer may have the directory lock. -/
def Pc.Leased : Pc → Prop
  | .acquiring | .marking | .running | .leaving => True
  | _ => False

theorem Pc.Leased.inside {pc : Pc} (h : pc.Leased) : pc.Inside := by
  cases pc with
  | acquiring | marking | running | leaving => trivial
  | _ => cases h

section Safety

variable [DecidableEq ι] {current : ι → Bool} {timing : LockTiming} {s s' : State ι} {p : ι}

/-- Every holder made the directory at the path, the current writers inside have the kernel lock,
and a marked directory was made by a current writer. -/
structure Sound (current : ι → Bool) (s : State ι) : Prop where
  path : HoldsPath s.lease
  kernel : ∀ p, current p = true → (s.pc p).Inside → s.kernel = some p
  leased : ∀ p, current p = true → (s.lease.pc p).Held → (s.pc p).Leased
  marking : ∀ p, current p = true → s.pc p = .marking → (s.lease.pc p).Held
  marked : s.marked = true → ∃ d ∈ s.lease.path, current d.maker = true

omit [DecidableEq ι] in
theorem start_sound (current : ι → Bool) (now : ℕ) : Sound current (start now) where
  path p h := by cases h
  kernel p _ h := by cases h
  leased p _ h := by cases h
  marking p _ h := by cases h
  marked h := by cases h

/-- The directory at the path stays, is taken away, or is new. -/
theorem lease_path (timing : LockTiming) (s : ActivationLock.State ι) (e : Event ι) :
    (ActivationLock.next timing s e).path = none ∨ s.path = none ∨
      (ActivationLock.next timing s e).path.map LockDir.maker = s.path.map LockDir.maker := by
  cases ActivationLock.next_effect timing s e with
  | keeps hpath _ => exact .inr (.inr hpath)
  | makes p hfree _ _ => exact .inr (.inl hfree)
  | takes p io hevent hpc _ _ =>
    subst hevent
    rcases hpc with hpc | hpc | hpc
    · cases hpath : s.path with
      | none => exact .inr (.inl rfl)
      | some d =>
        simp only [ActivationLock.next, ActivationLock.act, hpc, hpath]
        split
        · exact .inl rfl
        · exact .inr (.inr (congrArg _ hpath))
    · simp only [ActivationLock.next, ActivationLock.act, hpc]
      split
      · exact .inl rfl
      · exact .inr (.inr rfl)
    · simp only [ActivationLock.next, ActivationLock.act, hpc]
      split
      · exact .inl rfl
      · exact .inr (.inr rfl)

/-- A step moves no writer but its own. -/
theorem lease_pc_of_not_by {s : ActivationLock.State ι} {e : Event ι} {q : ι} (h : ¬ e.By q) :
    (ActivationLock.next timing s e).pc q = s.pc q := by
  cases e with
  | tick ms => rfl
  | crash p => simp [ActivationLock.next, show q ≠ p from fun heq => h heq.symm]
  | heartbeat p =>
    have hne : q ≠ p := fun heq => h heq.symm
    simp only [ActivationLock.next, ActivationLock.heartbeat]
    split <;> simp [hne]
  | act p io =>
    have hne : q ≠ p := fun heq => h heq.symm
    simp only [ActivationLock.next, ActivationLock.act]
    cases s.pc p <;> dsimp only <;> (repeat' split) <;> simp [hne]

omit [DecidableEq ι] in
theorem Sound.marked_path (h : Sound current s) (hmarked : s.marked = true) :
    s.lease.path.isSome = true := by
  obtain ⟨d, hd, -⟩ := h.marked hmarked
  exact Option.isSome_of_mem hd

/-- A step of the directory lock keeps the invariant. -/
theorem Sound.inner (h : Sound current s) (hfresh : HoldersFresh timing s.lease) {e : Event ι}
    (htakes : TakesOnlyStale timing s.lease e)
    (hby : ∀ q, e.By q → current q = true →
      ((ActivationLock.next timing s.lease e).pc q).Held → (s.pc q).Leased)
    (hmarking : ∀ q, e.By q → current q = true → s.pc q = .marking →
      ((ActivationLock.next timing s.lease e).pc q).Held) :
    Sound current (s.inner timing e) := by
  refine ⟨h.path.step hfresh htakes, h.kernel, fun q hq hheld => ?_, fun q hq hpc => ?_,
    fun hmarked => ?_⟩
  · by_cases hbyq : e.By q
    · exact hby q hbyq hq hheld
    · apply h.leased q hq
      rw [← lease_pc_of_not_by hbyq]
      exact hheld
  · by_cases hbyq : e.By q
    · exact hmarking q hbyq hq hpc
    · change ((ActivationLock.next timing s.lease e).pc q).Held
      rw [lease_pc_of_not_by hbyq]
      exact h.marking q hq hpc
  · obtain ⟨hbefore, hsome⟩ := (Bool.and_eq_true _ _).mp hmarked
    obtain ⟨d, hd, hcurrent⟩ := h.marked hbefore
    obtain ⟨d', hd'⟩ := Option.isSome_iff_exists.mp hsome
    refine ⟨d', hd', ?_⟩
    rcases lease_path timing s.lease e with hnone | hnone | hsame
    · simp [hd'] at hnone
    · simp [hnone] at hd
    · rw [hd', show s.lease.path = some d from hd] at hsame
      have hmaker : d'.maker = d.maker := by simpa using hsame
      rw [hmaker]
      exact hcurrent

theorem Sound.goto (h : Sound current s) {pc : Pc} (hin : pc.Inside → s.kernel = some p)
    (hleased : (s.lease.pc p).Held → pc.Leased) (hmarking : pc = .marking → (s.lease.pc p).Held) :
    Sound current (s.goto p pc) := by
  refine ⟨h.path, fun q hq hinside => ?_, fun q hq hheld => ?_, fun q hq hpc => ?_, h.marked⟩
  · by_cases hqp : q = p
    · subst hqp
      exact hin (by simpa using hinside)
    · exact h.kernel q hq (by simpa [hqp] using hinside)
  · by_cases hqp : q = p
    · subst hqp
      simpa using hleased hheld
    · simpa [hqp] using h.leased q hq hheld
  · by_cases hqp : q = p
    · subst hqp
      exact hmarking (by simpa using hpc)
    · exact h.marking q hq (by simpa [hqp] using hpc)

theorem Sound.release (h : Sound current s) (hp : current p = true → ¬ (s.pc p).Inside) :
    Sound current (s.release p) := by
  unfold State.release
  split
  · next hkernel =>
    refine ⟨h.path, fun q hq hinside => ?_, h.leased, h.marking, h.marked⟩
    obtain rfl : p = q := Option.some.inj (hkernel.symm.trans (h.kernel q hq hinside))
    exact absurd hinside (hp hq)
  · exact h

theorem finish_eq (s : State ι) (p : ι) (pc : Pc) : s.finish p pc = (s.goto p pc).release p := by
  unfold State.finish State.release
  by_cases hkernel : s.kernel = some p
  · rw [if_pos hkernel, if_pos (show (s.goto p pc).kernel = some p from hkernel)]
    rfl
  · rw [if_neg hkernel, if_neg (show ¬ (s.goto p pc).kernel = some p from hkernel)]

/-- A writer that has left the directory lock ends, and its kernel lock is released. -/
theorem Sound.finish (h : Sound current s) {pc : Pc} (hout : ¬ pc.Inside)
    (hfree : ¬ (s.lease.pc p).Held) : Sound current (s.finish p pc) := by
  rw [finish_eq]
  apply Sound.release
  · apply h.goto
    · exact fun hin => absurd hin hout
    · exact fun hheld => absurd hheld hfree
    · rintro rfl
      exact absurd trivial hout
  · intro _
    simpa using hout

theorem Sound.settle (h : Sound current s) (hp : current p = true) (hleased : (s.pc p).Leased) :
    Sound current (s.settle p) := by
  unfold State.settle
  split
  · next hpc => exact h.finish (by simp [Pc.Inside]) (by simp [hpc, ActivationLock.Pc.Held])
  · next hpc => exact h.finish (by simp [Pc.Inside]) (by simp [hpc, ActivationLock.Pc.Held])
  · next hholding =>
    split
    · apply h.goto
      · exact fun _ => h.kernel p hp hleased.inside
      · exact fun _ => trivial
      · exact fun _ => hholding ▸ trivial
    · exact h
  · exact h

omit [DecidableEq ι] in
/-- A change inside the directory at the path. -/
theorem Sound.setDir (h : Sound current s) {f : LockDir ι → LockDir ι} {marked : Bool}
    (hf : ∀ d, (f d).maker = d.maker)
    (hmarked : marked = true → ∃ d ∈ s.lease.path, current d.maker = true) :
    Sound current (s.setDir (s.lease.path.map f) marked) := by
  refine ⟨fun q hq => ?_, h.kernel, h.leased, h.marking, fun hm => ?_⟩
  · rw [← h.path q hq]
    cases hpath : s.lease.path with
    | none => simp
    | some d => simp [hf]
  · obtain ⟨d, hd, hcurrent⟩ := hmarked hm
    refine ⟨f d, ?_, (hf d).symm ▸ hcurrent⟩
    simp [show s.lease.path = some d from hd]

omit [DecidableEq ι] in
/-- A marked directory is held by no one while another writer has the kernel lock. -/
theorem Sound.not_held_of_marked (h : Sound current s) (hp : current p = true)
    (hinside : (s.pc p).Inside) (hnot : ¬ (s.pc p).Leased) (hmarked : s.marked = true) (q : ι) :
    ¬ (s.lease.pc q).Held := by
  intro hheld
  obtain ⟨d, hd, hcurrent⟩ := h.marked hmarked
  have hmaker := h.path q hheld
  rw [show s.lease.path = some d from hd] at hmaker
  obtain rfl : d.maker = q := Option.some.inj hmaker
  have hleased := h.leased _ hcurrent hheld
  have hkernel := h.kernel _ hcurrent hleased.inside
  obtain rfl : d.maker = p := Option.some.inj (hkernel.symm.trans (h.kernel p hp hinside))
  exact hnot hleased

omit [DecidableEq ι] in
/-- A writer outside the directory lock has nothing there. -/
theorem Sound.not_held (h : Sound current s) (hp : current p = true) (hnot : ¬ (s.pc p).Leased) :
    ¬ (s.lease.pc p).Held := fun hheld => hnot (h.leased p hp hheld)

/-- A writer outside the directory lock goes on. -/
theorem Sound.goto_outside (h : Sound current s) (hp : current p = true)
    (hnot : ¬ (s.pc p).Leased) {pc : Pc} (hin : pc.Inside → s.kernel = some p)
    (hne : pc ≠ .marking) : Sound current (s.goto p pc) := by
  apply h.goto hin
  · exact fun hheld => absurd hheld (h.not_held hp hnot)
  · exact fun heq => absurd heq hne

theorem Sound.writer (h : Sound current s) (hfresh : HoldersFresh timing s.lease) {io : Io}
    (htakes : TakesOnlyStale timing s.lease (.act p io)) (hp : current p = true)
    (hremoves : RemovesMarked current s (.act p io)) : Sound current (writer timing s p io) := by
  have hinner : (s.pc p).Leased → s.pc p ≠ .marking →
      Sound current (s.inner timing (.act p io)) := by
    intro hleased hne
    apply h.inner hfresh htakes
    · rintro q hq _ _
      obtain rfl : p = q := hq
      exact hleased
    · rintro q hq _ hpc
      obtain rfl : p = q := hq
      exact absurd hpc hne
  unfold ImagesLock.writer
  cases hpc : s.pc p with
  | ended | crashed => exact h
  | opening =>
    apply h.goto_outside hp (by simp [hpc, Pc.Leased])
    · split <;> exact fun hin => by cases hin
    · split <;> simp
  | locking =>
    have hnot : ¬ (s.pc p).Leased := by simp [hpc, Pc.Leased]
    dsimp only
    split
    · exact h.goto_outside hp hnot (fun hin => by cases hin) (by simp)
    · split
      · exact h
      · next hnone =>
        have hset : Sound current (s.setKernel (some p)) := by
          refine ⟨h.path, fun q hq hin => ?_, h.leased, h.marking, h.marked⟩
          have hkernel := h.kernel q hq hin
          simp [hkernel] at hnone
        exact hset.goto_outside hp hnot (fun _ => rfl) (by simp)
  | checkingDir =>
    have hkernel := h.kernel p hp (by simp [hpc, Pc.Inside])
    apply h.goto_outside hp (by simp [hpc, Pc.Leased]) (fun _ => hkernel)
    split <;> simp
  | checkingMarker =>
    have hkernel := h.kernel p hp (by simp [hpc, Pc.Inside])
    apply h.goto_outside hp (by simp [hpc, Pc.Leased]) (fun _ => hkernel)
    split <;> simp
  | recovering =>
    have hinside : (s.pc p).Inside := hpc ▸ trivial
    have hnot : ¬ (s.pc p).Leased := by simp [hpc, Pc.Leased]
    have hfree := h.not_held hp hnot
    dsimp only
    split
    · next d hd =>
      have hmarked := hremoves hp hpc (by simp [hd])
      have hremoved : Sound current s.removeDir := by
        refine ⟨fun q hq => ?_, h.kernel, h.leased, h.marking, fun hm => by cases hm⟩
        exact absurd hq (h.not_held_of_marked hp hinside hnot hmarked q)
      exact hremoved.goto_outside hp hnot (fun _ => h.kernel p hp hinside) (by simp)
    · have hemptied : Sound current s.emptyDir := h.setDir (fun d => rfl) h.marked
      exact hemptied.finish (by simp [Pc.Inside]) hfree
    · exact h.finish (by simp [Pc.Inside]) hfree
  | acquiring =>
    have hleased : (s.pc p).Leased := hpc ▸ trivial
    exact (hinner hleased (by simp [hpc])).settle hp hleased
  | marking =>
    have hkernel := h.kernel p hp (by simp [hpc, Pc.Inside])
    dsimp only
    split
    · have hmaker := h.path p (h.marking p hp hpc)
      obtain ⟨d, hd, rfl⟩ := Option.map_eq_some_iff.mp hmaker
      have hmarked : Sound current s.mark := by
        apply h.setDir
        · intro x
          split <;> rfl
        · exact fun _ => ⟨d, hd, hp⟩
      exact hmarked.goto (fun _ => hkernel) (fun _ => trivial) (by simp)
    · exact h.goto (fun _ => hkernel) (fun _ => trivial) (by simp)
  | running =>
    have hkernel := h.kernel p hp (by simp [hpc, Pc.Inside])
    exact h.goto (fun _ => hkernel) (fun _ => trivial) (by simp)
  | leaving =>
    have hleased : (s.pc p).Leased := hpc ▸ trivial
    exact (hinner hleased (by simp [hpc])).settle hp hleased

/-- A killed writer holds neither lock. -/
theorem Sound.crash (h : Sound current s) (hfresh : HoldersFresh timing s.lease) (p : ι) :
    Sound current ((s.inner timing (.crash p)).finish p .crashed) := by
  rw [finish_eq]
  apply Sound.release
  · refine ⟨h.path.step (e := .crash p) hfresh trivial, fun q hq hin => ?_, fun q hq hheld => ?_,
      fun q hq hpc => ?_, fun hm => ?_⟩
    · by_cases hqp : q = p
      · subst hqp
        simp [Pc.Inside] at hin
      · exact h.kernel q hq (by simpa [hqp, State.inner] using hin)
    · by_cases hqp : q = p
      · subst hqp
        simp [State.inner, ActivationLock.next, ActivationLock.Pc.Held] at hheld
      · have hbefore : (s.lease.pc q).Held := by
          simpa [State.inner, ActivationLock.next, hqp] using hheld
        simpa [hqp, State.inner] using h.leased q hq hbefore
    · by_cases hqp : q = p
      · subst hqp
        simp at hpc
      · have hbefore := h.marking q hq (by simpa [hqp, State.inner] using hpc)
        simpa [State.inner, ActivationLock.next, hqp] using hbefore
    · obtain ⟨hbefore, -⟩ := (Bool.and_eq_true _ _).mp hm
      exact h.marked hbefore
  · intro _
    simp [Pc.Inside]

/-- The heartbeat leaves a holder a holder. -/
theorem heartbeat_held (s : ActivationLock.State ι) (p : ι) :
    ((ActivationLock.next timing s (.heartbeat p)).pc p).Held ↔ (s.pc p).Held := by
  simp only [ActivationLock.next, ActivationLock.heartbeat]
  split
  · next hpc => simp [hpc, ActivationLock.Pc.Held]
  · next hpc => simp [hpc, ActivationLock.Pc.Held]
  · exact Iff.rfl

theorem Sound.next (h : Sound current s) (hfresh : HoldersFresh timing s.lease) {e : Event ι}
    (htakes : TakesOnlyStale timing s.lease e) (hremoves : RemovesMarked current s e) :
    Sound current (next current timing s e) := by
  cases e with
  | act p io =>
    simp only [ImagesLock.next]
    split
    · next hp => exact h.writer hfresh htakes hp hremoves
    · next hlegacy =>
      apply h.inner hfresh htakes
      · rintro q hq hcurrent
        obtain rfl : p = q := hq
        exact absurd hcurrent hlegacy
      · rintro q hq hcurrent
        obtain rfl : p = q := hq
        exact absurd hcurrent hlegacy
  | heartbeat p =>
    apply h.inner hfresh htakes
    · rintro q hq hcurrent hheld
      obtain rfl : p = q := hq
      exact h.leased p hcurrent ((heartbeat_held s.lease p).mp hheld)
    · rintro q hq hcurrent hpc
      obtain rfl : p = q := hq
      exact (heartbeat_held s.lease p).mpr (h.marking p hcurrent hpc)
  | crash p => exact h.crash hfresh p
  | tick ms =>
    apply h.inner hfresh htakes
    · exact fun q hq => absurd hq (by simp [ActivationLock.Event.By])
    · exact fun q hq => absurd hq (by simp [ActivationLock.Event.By])

@[simp] theorem release_lease (s : State ι) (p : ι) : (s.release p).lease = s.lease := by
  unfold State.release
  split <;> rfl

theorem finish_lease (s : State ι) (p : ι) (pc : Pc) : (s.finish p pc).lease = s.lease := by
  simp [State.finish]

theorem settle_lease (s : State ι) (p : ι) : (s.settle p).lease = s.lease := by
  unfold State.settle
  split
  · exact finish_lease s p _
  · exact finish_lease s p _
  · split <;> rfl
  · rfl

/-- What a step does to the directory lock: one of its own steps, a change that leaves the
directory, or a recovery. -/
theorem next_lease (current : ι → Bool) (timing : LockTiming) (s : State ι) (e : Event ι) :
    (next current timing s e).lease = ActivationLock.next timing s.lease e ∨
      (next current timing s e).lease.path.map LockDir.maker = s.lease.path.map LockDir.maker ∨
      ∃ p io, e = .act p io ∧ current p = true ∧ s.pc p = .recovering := by
  cases e with
  | heartbeat p => exact .inl rfl
  | crash p => exact .inl (finish_lease _ p _)
  | tick ms => exact .inl rfl
  | act p io =>
    simp only [ImagesLock.next]
    split
    · next hp =>
      unfold ImagesLock.writer
      cases hpc : s.pc p with
      | ended | crashed | opening | checkingDir | checkingMarker | running =>
        exact .inr (.inl rfl)
      | locking =>
        dsimp only
        split
        · exact .inr (.inl rfl)
        · split <;> exact .inr (.inl rfl)
      | recovering => exact .inr (.inr ⟨p, io, rfl, hp, hpc⟩)
      | acquiring => exact .inl (settle_lease _ p)
      | leaving => exact .inl (settle_lease _ p)
      | marking =>
        dsimp only
        split
        · refine .inr (.inl ?_)
          cases hpath : s.lease.path with
          | none => simp [State.mark, State.setDir, hpath]
          | some d =>
            simp only [State.mark, State.setDir, State.goto_lease,
              ActivationLock.State.setPath_path, hpath, Option.map_some]
            split <;> rfl
        · exact .inr (.inl rfl)
    · exact .inl rfl

theorem Sound.sparesHolders (h : Sound current s) (hfresh : HoldersFresh timing s.lease)
    {e : Event ι} (htakes : TakesOnlyStale timing s.lease e)
    (hremoves : RemovesMarked current s e) : SparesHolders current timing s e := by
  intro d hd hheld hdfresh hby
  rcases next_lease current timing s e with hlease | hsame | ⟨p, io, rfl, hp, hpc⟩
  · rw [hlease]
    exact h.path.sparesHolders hfresh htakes d hd hheld hdfresh hby
  · rw [hsame]
    exact congrArg (Option.map LockDir.maker) hd
  · have hmarked := hremoves hp hpc (Option.isSome_of_mem hd)
    have hnot : ¬ (s.pc p).Leased := by simp [hpc, Pc.Leased]
    exact absurd hheld (h.not_held_of_marked hp (hpc ▸ trivial) hnot hmarked d.maker)

end Safety

section Claims

/-- In every run of current and legacy writers in which holders keep their leases fresh, take-overs
rename only directories that are still stale, and recoveries remove only directories that are still
marked, at most one writer holds the lock and no writer takes the directory of a holder. -/
theorem run_imagesExclusion [DecidableEq ι] (current : ι → Bool) (timing : LockTiming) (now : ℕ)
    (es : List (Event ι))
    (hfresh : EveryPrefix (fun pre => HoldersFresh timing (run current timing now pre).lease) es)
    (htakes : EveryStep
      (fun pre e => TakesOnlyStale timing (run current timing now pre).lease e) es)
    (hremoves : EveryStep (fun pre e => RemovesMarked current (run current timing now pre) e) es) :
    EveryPrefix (fun pre => MutualExclusion (run current timing now pre).lease) es ∧
      EveryStep (fun pre e => SparesHolders current timing (run current timing now pre) e) es := by
  have hcond := hfresh.before.and (htakes.and hremoves)
  have hinv := hcond.induction (P := fun pre => Sound current (run current timing now pre))
    (start_sound current now) fun pre e h hc => by
      rw [run_snoc]
      exact h.next hc.1 hc.2.1 hc.2.2
  refine ⟨hinv.imp fun pre h => h.path.mutualExclusion, ?_⟩
  exact (hinv.before.and hcond).imp fun pre e h => h.1.sparesHolders h.2.1 h.2.2.1 h.2.2.2

/-- Writers 0 and 1 are current, writer 2 is a legacy one. -/
def mixed (p : ℕ) : Bool := p < 2

/-- Writer 0 takes both locks, marks its directory and is killed. -/
def killed : List (Event ℕ) := List.replicate 6 (.act 0 .ok) ++ [.crash 0]

/-- Writer 1 takes the kernel lock and finds the marked directory. -/
def findsMarked : List (Event ℕ) := List.replicate 4 (.act 1 .ok)

/-- Writer 1 removes the marked directory, and makes and marks its own. -/
def recovers : List (Event ℕ) := List.replicate 4 (.act 1 .ok)

theorem run_imagesExclusion_recovers :
    EveryPrefix (fun pre => MutualExclusion
        (run mixed ActivationLock.defaultTiming 0 pre).lease) (killed ++ findsMarked ++ recovers) ∧
      EveryStep (fun pre e => SparesHolders mixed ActivationLock.defaultTiming
        (run mixed ActivationLock.defaultTiming 0 pre) e) (killed ++ findsMarked ++ recovers) :=
  run_imagesExclusion mixed ActivationLock.defaultTiming 0 _ (by decide) (by decide) (by decide)

/-- A legacy writer takes over the directory of the killed writer as stale, after writer 1 has
found it marked; writer 1 then removes the legacy writer's directory and enters as well. -/
theorem run_not_imagesExclusion :
    ¬ ∀ (current : ℕ → Bool) (timing : LockTiming) (now : ℕ) (es : List (Event ℕ)),
      EveryPrefix (fun pre => HoldersFresh timing (run current timing now pre).lease) es →
        EveryPrefix (fun pre => MutualExclusion (run current timing now pre).lease) es ∧
          EveryStep (fun pre e =>
            SparesHolders current timing (run current timing now pre) e) es := by
  intro h
  have hrun := h mixed ActivationLock.defaultTiming 0
    (killed ++ findsMarked ++ [.tick 1800001] ++ List.replicate 9 (.act 2 .ok) ++ recovers)
    (by decide)
  have hboth := hrun.1.self 1 2
  exact absurd hboth (by decide)

end Claims

end PrtsMcp.ImagesLock
