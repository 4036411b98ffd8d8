import PrtsMcp.Runs

/-!
# The activation lock

`with_archive_activation_lock` as a state machine: every contender stands between two of its
file-system steps, and any contender may take the next one. The lock is a directory holding an
owner file whose modification time is the lease.
-/
namespace PrtsMcp.ActivationLock

open Runs (EveryPrefix EveryStep)

structure LockTiming where
  staleMs : ℕ
  ownerGraceMs : ℕ
  deriving DecidableEq, Repr

def defaultTiming : LockTiming := ⟨30 * 60000, 10000⟩

variable {ι : Type*}

/-- A failed write may leave a truncated file that names nobody. -/
structure OwnerFile (ι : Type*) where
  name : Option ι
  mtime : ℕ
  deriving DecidableEq, Repr

/-- `maker` is the contender whose `mkdir` made the directory; the code never reads it. -/
structure LockDir (ι : Type*) where
  maker : ι
  mtime : ℕ
  owner : Option (OwnerFile ι)
  deriving DecidableEq, Repr

/-- What a contender does next, with the values it has read. -/
inductive Pc where
  | trying
  | statting
  | checkingOwner
  | agingOwner (ownerless : Bool)
  | agingDir (ownerless : Bool)
  | clocking (ownerless : Bool) (age : ℕ)
  | quarantining
  | cleaning
  | waiting
  | writing
  | aborting
  | holding (ownerRead : Bool)
  | releasing
  | removing
  | done
  | failed
  | crashed
  deriving DecidableEq, Repr

structure State (ι : Type*) where
  now : ℕ
  path : Option (LockDir ι)
  pc : ι → Pc

def start (now : ℕ) : State ι := ⟨now, none, fun _ => .trying⟩

/-- The outcome of one file operation; `torn` is a failed write that has touched the file. -/
inductive Io where
  | ok
  | fail
  | torn
  deriving DecidableEq, Repr

inductive Event (ι : Type*) where
  | act (p : ι) (io : Io)
  | heartbeat (p : ι)
  | crash (p : ι)
  | tick (ms : ℕ)
  deriving DecidableEq, Repr

/-- The staleness test of the acquisition loop. -/
def reclaims (timing : LockTiming) (ownerless : Bool) (ageMs : ℕ) : Bool :=
  timing.staleMs < ageMs || (ownerless && timing.ownerGraceMs < ageMs)

def ownerFile (s : State ι) : Option (OwnerFile ι) := s.path.bind LockDir.owner

/-- `std::fs::write` of the owner file: a new file changes the directory, an old one does not. -/
def LockDir.writeOwner (d : LockDir ι) (name : Option ι) (now : ℕ) : LockDir ι :=
  { d with owner := some ⟨name, now⟩, mtime := if d.owner.isNone then now else d.mtime }

/-- `set_file_mtime` of the owner file. -/
def LockDir.renewOwner (d : LockDir ι) (now : ℕ) : LockDir ι :=
  { d with owner := d.owner.map fun owner => { owner with mtime := now } }

@[simps]
def State.setPath (s : State ι) (path : Option (LockDir ι)) : State ι := { s with path }

section Steps

variable [DecidableEq ι]

@[simps]
def State.goto (s : State ι) (p : ι) (pc : Pc) : State ι :=
  { s with pc := Function.update s.pc p pc }

/-- The next step of contender `p`. -/
def act (timing : LockTiming) (s : State ι) (p : ι) (io : Io) : State ι :=
  match s.pc p with
  | .trying =>
    if io = .ok then
      match s.path with
      | none => (s.setPath (some ⟨p, s.now, none⟩)).goto p .writing
      | some _ => s.goto p .statting
    else s.goto p .failed
  | .statting =>
    if io = .ok then s.goto p (if s.path.isSome then .checkingOwner else .trying)
    else s.goto p .failed
  | .checkingOwner => s.goto p (.agingOwner (io != .ok || (ownerFile s).isNone))
  | .agingOwner ownerless =>
    if io = .ok then
      match ownerFile s with
      | some owner => s.goto p (.clocking ownerless owner.mtime)
      | none => s.goto p (.agingDir ownerless)
    else s.goto p .failed
  | .agingDir ownerless =>
    match s.path with
    | some d => s.goto p (if io = .ok then .clocking ownerless d.mtime else .failed)
    | none => s.goto p .failed
  | .clocking ownerless age =>
    s.goto p (if reclaims timing ownerless (s.now - age) then .quarantining else .waiting)
  | .quarantining =>
    match s.path with
    | none => s.goto p .trying
    | some _ => if io = .ok then (s.setPath none).goto p .cleaning else s.goto p .failed
  | .cleaning => s.goto p .trying
  | .waiting => s.goto p (if io = .ok then .trying else .failed)
  | .writing =>
    match s.path, io with
    | some d, .ok => (s.setPath (some (d.writeOwner (some p) s.now))).goto p (.holding false)
    | some d, .torn => (s.setPath (some (d.writeOwner none s.now))).goto p .aborting
    | _, _ => s.goto p .aborting
  | .aborting => (s.setPath (if io = .ok then none else s.path)).goto p .failed
  | .holding _ => s.goto p .releasing
  | .releasing =>
    s.goto p (if io = .ok ∧ (ownerFile s).bind OwnerFile.name = some p then .removing else .done)
  | .removing => (s.setPath (if io = .ok then none else s.path)).goto p .done
  | .done | .failed | .crashed => s

/-- The heartbeat task of a holder: read the owner file, then renew its time. -/
def heartbeat (s : State ι) (p : ι) : State ι :=
  match s.pc p with
  | .holding false => s.goto p (.holding ((ownerFile s).bind OwnerFile.name = some p))
  | .holding true =>
    (s.setPath (s.path.map fun d => d.renewOwner s.now)).goto p (.holding false)
  | _ => s

def next (timing : LockTiming) (s : State ι) : Event ι → State ι
  | .act p io => act timing s p io
  | .heartbeat p => heartbeat s p
  | .crash p => s.goto p .crashed
  | .tick ms => { s with now := s.now + ms }

def run (timing : LockTiming) (now : ℕ) (es : List (Event ι)) : State ι :=
  es.foldl (next timing) (start now)

theorem run_snoc (timing : LockTiming) (now : ℕ) (es : List (Event ι)) (e : Event ι) :
    run timing now (es ++ [e]) = next timing (run timing now es) e := by
  simp [run]

end Steps

/-- Between a successful `mkdir` and the end of the release. -/
def Pc.Held : Pc → Prop
  | .writing | .holding _ | .releasing | .removing => True
  | _ => False

instance : DecidablePred Pc.Held := fun pc => by cases pc <;> unfold Pc.Held <;> infer_instance

/-- The time `lock_age_ms` reads: the owner file's when there is one, else the directory's. -/
def LockDir.lease (d : LockDir ι) : ℕ := d.owner.elim d.mtime OwnerFile.mtime

/-- The code's own staleness test, of the directory as it is now. -/
def LockDir.Stale (d : LockDir ι) (timing : LockTiming) (now : ℕ) : Prop :=
  reclaims timing d.owner.isNone (now - d.lease) = true

/-- A holder's lease is younger than the stale time, and its owner file is not overdue. -/
def LockDir.Fresh (d : LockDir ι) (timing : LockTiming) (now : ℕ) : Prop :=
  now - d.lease < timing.staleMs ∧ (d.owner = none → now - d.mtime ≤ timing.ownerGraceMs)

/-- Every holder keeps the directory it made fresh. -/
def HoldersFresh (timing : LockTiming) (s : State ι) : Prop :=
  ∀ d ∈ s.path, (s.pc d.maker).Held → d.Fresh timing s.now

def MutualExclusion (s : State ι) : Prop :=
  ∀ p q, (s.pc p).Held → (s.pc q).Held → p = q

def Event.By : Event ι → ι → Prop
  | .act p _, q | .heartbeat p, q | .crash p, q => p = q
  | .tick _, _ => False

/-- No step of another contender takes a freshly held directory off its path. -/
def SparesHolders [DecidableEq ι] (timing : LockTiming) (s : State ι) (e : Event ι) : Prop :=
  ∀ d ∈ s.path, (s.pc d.maker).Held → d.Fresh timing s.now → ¬ e.By d.maker →
    (next timing s e).path.map LockDir.maker = some d.maker

/-- The directory that a take-over renames still passes the staleness test when it is renamed,
and a failed owner write removes no directory but its own. -/
def TakesOnlyStale (timing : LockTiming) (s : State ι) : Event ι → Prop
  | .act p _ =>
    (s.pc p = .quarantining → ∀ d ∈ s.path, d.Stale timing s.now) ∧
      (s.pc p = .aborting → ∀ d ∈ s.path, d.maker = p)
  | _ => True

section Decidable

variable [DecidableEq ι]

instance (d : LockDir ι) (timing : LockTiming) (now : ℕ) : Decidable (d.Stale timing now) :=
  inferInstanceAs (Decidable (_ = true))

instance (d : LockDir ι) (timing : LockTiming) (now : ℕ) : Decidable (d.Fresh timing now) :=
  inferInstanceAs (Decidable (_ ∧ _))

instance (timing : LockTiming) (s : State ι) : Decidable (HoldersFresh timing s) :=
  inferInstanceAs (Decidable (∀ d ∈ s.path, (s.pc d.maker).Held → d.Fresh timing s.now))

instance (timing : LockTiming) (s : State ι) (e : Event ι) :
    Decidable (TakesOnlyStale timing s e) := by
  cases e <;> unfold TakesOnlyStale <;> infer_instance

end Decidable

section Safety

variable [DecidableEq ι] {timing : LockTiming} {s : State ι}

/-- The path is kept, or a contender makes the directory there, or one takes it away. -/
inductive Effect (s : State ι) (e : Event ι) (s' : State ι) : Prop
  | keeps (path : s'.path.map LockDir.maker = s.path.map LockDir.maker)
      (held : ∀ q, (s'.pc q).Held → (s.pc q).Held)
  | makes (p : ι) (free : s.path = none) (path : s'.path.map LockDir.maker = some p)
      (others : ∀ q, q ≠ p → s'.pc q = s.pc q)
  | takes (p : ι) (io : Io) (event : e = .act p io)
      (pc : s.pc p = .quarantining ∨ s.pc p = .aborting ∨ s.pc p = .removing)
      (left : ¬ (s'.pc p).Held) (others : ∀ q, q ≠ p → s'.pc q = s.pc q)

theorem Effect.goto {e : Event ι} {p : ι} {pc : Pc} (h : pc.Held → (s.pc p).Held) :
    Effect s e (s.goto p pc) := by
  refine .keeps rfl fun q hq => ?_
  by_cases hqp : q = p
  · subst hqp
    exact h (by simpa using hq)
  · simpa [hqp] using hq

theorem Effect.setPath_goto {e : Event ι} {p : ι} {pc : Pc} {path : Option (LockDir ι)}
    (hpath : path.map LockDir.maker = s.path.map LockDir.maker)
    (h : pc.Held → (s.pc p).Held) : Effect s e ((s.setPath path).goto p pc) := by
  refine .keeps hpath fun q hq => ?_
  by_cases hqp : q = p
  · subst hqp
    exact h (by simpa using hq)
  · simpa [hqp] using hq

theorem goto_pc_of_ne {p q : ι} {pc : Pc} (h : q ≠ p) : (s.goto p pc).pc q = s.pc q := by
  simp [h]

theorem act_effect (timing : LockTiming) (s : State ι) (p : ι) (io : Io) :
    Effect s (.act p io) (act timing s p io) := by
  unfold act
  cases hpc : s.pc p with
  | trying =>
    cases hpath : s.path with
    | none =>
      by_cases hio : io = .ok
      · simp only [if_pos hio]
        exact .makes p hpath rfl fun q hq => goto_pc_of_ne hq
      · simp only [if_neg hio]
        exact .goto (by simp [Pc.Held])
    | some d =>
      dsimp only
      split <;> exact .goto (by simp [Pc.Held])
  | statting =>
    dsimp only
    split
    · refine .goto ?_
      split <;> simp [Pc.Held]
    · exact .goto (by simp [Pc.Held])
  | checkingOwner => exact .goto (by simp [Pc.Held])
  | agingOwner ownerless =>
    dsimp only
    split
    · split <;> exact .goto (by simp [Pc.Held])
    · exact .goto (by simp [Pc.Held])
  | agingDir ownerless =>
    dsimp only
    split
    · refine .goto ?_
      split <;> simp [Pc.Held]
    · exact .goto (by simp [Pc.Held])
  | clocking ownerless age =>
    refine .goto ?_
    split <;> simp [Pc.Held]
  | quarantining =>
    dsimp only
    split
    · exact .goto (by simp [Pc.Held])
    · split
      · exact .takes p io rfl (.inl hpc) (by simp [Pc.Held]) fun q hq => goto_pc_of_ne hq
      · exact .goto (by simp [Pc.Held])
  | cleaning => exact .goto (by simp [Pc.Held])
  | waiting =>
    refine .goto ?_
    split <;> simp [Pc.Held]
  | writing =>
    have hheld : (s.pc p).Held := by simp [hpc, Pc.Held]
    dsimp only
    split
    · next d hpath => exact .setPath_goto (by simp [hpath, LockDir.writeOwner]) fun _ => hheld
    · next d hpath => exact .setPath_goto (by simp [hpath, LockDir.writeOwner]) fun _ => hheld
    · exact .goto fun _ => hheld
  | aborting =>
    exact .takes p io rfl (.inr (.inl hpc)) (by simp [Pc.Held]) fun q hq => goto_pc_of_ne hq
  | holding ownerRead => exact .goto fun _ => by simp [hpc, Pc.Held]
  | releasing => exact .goto fun _ => by simp [hpc, Pc.Held]
  | removing =>
    exact .takes p io rfl (.inr (.inr hpc)) (by simp [Pc.Held]) fun q hq => goto_pc_of_ne hq
  | done | failed | crashed => exact .keeps rfl fun q hq => hq

theorem next_effect (timing : LockTiming) (s : State ι) (e : Event ι) :
    Effect s e (next timing s e) := by
  cases e with
  | act p io => exact act_effect timing s p io
  | heartbeat p =>
    simp only [next, heartbeat]
    split
    · next hpc => exact .goto fun _ => by simp [hpc, Pc.Held]
    · next hpc =>
      refine .setPath_goto ?_ fun _ => by simp [hpc, Pc.Held]
      cases s.path <;> rfl
    · exact .keeps rfl fun q hq => hq
  | crash p => exact .goto (by simp [Pc.Held])
  | tick ms => exact .keeps rfl fun q hq => hq

/-- The directory at the path is the one every holder made. -/
def HoldsPath (s : State ι) : Prop :=
  ∀ p, (s.pc p).Held → s.path.map LockDir.maker = some p

omit [DecidableEq ι] in
theorem HoldsPath.mutualExclusion (h : HoldsPath s) : MutualExclusion s := fun p q hp hq =>
  Option.some.inj ((h p hp).symm.trans (h q hq))

omit [DecidableEq ι] in
theorem LockDir.Fresh.not_stale {d : LockDir ι} {now : ℕ} (h : d.Fresh timing now) :
    ¬ d.Stale timing now := by
  obtain ⟨hlease, howner⟩ := h
  simp only [LockDir.Stale, reclaims, Bool.or_eq_true, Bool.and_eq_true, decide_eq_true_eq,
    Option.isNone_iff_eq_none, not_or, not_and]
  refine ⟨by omega, fun hnone => ?_⟩
  have hlease' : d.lease = d.mtime := by simp [LockDir.lease, hnone]
  have := howner hnone
  omega

omit [DecidableEq ι] in
/-- A step that takes the directory away never takes another holder's. -/
theorem HoldsPath.not_takes (h : HoldsPath s) (hfresh : HoldersFresh timing s) {p : ι} {io : Io}
    (hstale : TakesOnlyStale timing s (.act p io))
    (hpc : s.pc p = .quarantining ∨ s.pc p = .aborting ∨ s.pc p = .removing) {d : LockDir ι}
    (hpath : s.path = some d) (hheld : (s.pc d.maker).Held) : d.maker = p := by
  rcases hpc with hpc | hpc | hpc
  · exact absurd (hstale.1 hpc d hpath) (hfresh d hpath hheld).not_stale
  · exact hstale.2 hpc d hpath
  · have := h p (by simp [hpc, Pc.Held])
    simpa [hpath] using this

theorem HoldsPath.step (h : HoldsPath s) (hfresh : HoldersFresh timing s) {e : Event ι}
    (hstale : TakesOnlyStale timing s e) : HoldsPath (next timing s e) := by
  intro q hq
  cases next_effect timing s e with
  | keeps hpath hheld => exact hpath.trans (h q (hheld q hq))
  | makes p hfree hpath hothers =>
    by_cases hqp : q = p
    · exact hqp ▸ hpath
    · have := h q (hothers q hqp ▸ hq)
      simp [hfree] at this
  | takes p io hevent hpc hleft hothers =>
    subst hevent
    have hqp : q ≠ p := fun heq => hleft (heq ▸ hq)
    have hheld : (s.pc q).Held := hothers q hqp ▸ hq
    obtain ⟨d, hd, hmaker⟩ := Option.map_eq_some_iff.mp (h q hheld)
    exact absurd (hmaker ▸ h.not_takes hfresh hstale hpc hd (hmaker ▸ hheld)) hqp

theorem HoldsPath.sparesHolders (h : HoldsPath s) (hfresh : HoldersFresh timing s) {e : Event ι}
    (hstale : TakesOnlyStale timing s e) : SparesHolders timing s e := by
  intro d hd hheld _ hby
  have hpath : s.path.map LockDir.maker = some d.maker := congrArg _ hd
  cases next_effect timing s e with
  | keeps hsame _ => exact hsame.trans hpath
  | makes p hfree _ _ => simp [hfree] at hpath
  | takes p io hevent hpc _ _ =>
    subst hevent
    exact absurd (h.not_takes hfresh hstale hpc hd hheld).symm hby

/-- In every run in which holders keep their leases fresh, and in which every take-over renames
a directory that is still stale at that moment, at most one contender holds the lock and no
holder loses its directory to another contender. -/
theorem run_mutualExclusion (timing : LockTiming) (now : ℕ) (es : List (Event ι))
    (hfresh : EveryPrefix (fun pre => HoldersFresh timing (run timing now pre)) es)
    (hstale : EveryStep (fun pre e => TakesOnlyStale timing (run timing now pre) e) es) :
    EveryPrefix (fun pre => MutualExclusion (run timing now pre)) es ∧
      EveryStep (fun pre e => SparesHolders timing (run timing now pre) e) es := by
  have hstart : HoldsPath (run timing now ([] : List (Event ι))) := fun p hp => by
    simp [run, start, Pc.Held] at hp
  have hcond := hfresh.before.and hstale
  have hinv := hcond.induction (P := fun pre => HoldsPath (run timing now pre)) hstart
    fun pre e h hc => by
      rw [run_snoc]
      exact h.step hc.1 hc.2
  exact ⟨hinv.imp fun pre h => h.mutualExclusion,
    (hinv.before.and hcond).imp fun pre e h => h.1.sparesHolders h.2.1 h.2.2⟩

end Safety

/-- The steps of one contender from its `mkdir` attempt to the decision to reclaim an ownerless
directory. -/
def decideReclaim (p : ℕ) : List (Event ℕ) := List.replicate 6 (.act p .ok)

/-- Quarantine, clean-up, `mkdir` and owner write. -/
def takeOver (p : ℕ) : List (Event ℕ) := List.replicate 4 (.act p .ok)

/-- A contender dies before it writes its owner file. -/
def abandon : List (Event ℕ) := [.act 0 .ok, .crash 0, .tick 10001]

theorem run_mutualExclusion_takeOver :
    EveryPrefix (fun pre => MutualExclusion (run defaultTiming 0 pre))
        (abandon ++ decideReclaim 1 ++ takeOver 1 ++ [.heartbeat 1, .heartbeat 1]) ∧
      EveryStep (fun pre e => SparesHolders defaultTiming (run defaultTiming 0 pre) e)
        (abandon ++ decideReclaim 1 ++ takeOver 1 ++ [.heartbeat 1, .heartbeat 1]) :=
  run_mutualExclusion defaultTiming 0 _ (by decide) (by decide)

/-- Two contenders read the same abandoned directory. The first takes over and holds the lock;
the second then renames the first one's live directory and holds it as well. -/
theorem run_not_mutualExclusion :
    ¬ ∀ (timing : LockTiming) (now : ℕ) (es : List (Event ℕ)),
      EveryPrefix (fun pre => HoldersFresh timing (run timing now pre)) es →
        EveryPrefix (fun pre => MutualExclusion (run timing now pre)) es ∧
          EveryStep (fun pre e => SparesHolders timing (run timing now pre) e) es := by
  intro h
  let es := abandon ++ decideReclaim 1 ++ decideReclaim 2 ++ takeOver 1 ++ takeOver 2
  have hfresh : EveryPrefix (fun pre => HoldersFresh defaultTiming (run defaultTiming 0 pre)) es :=
    by decide
  have hone : (run defaultTiming 0 es).pc 1 = .holding false := by decide
  have htwo : (run defaultTiming 0 es).pc 2 = .holding false := by decide
  have hexcl := (h defaultTiming 0 es hfresh).1.self 1 2 (by simp [hone, Pc.Held])
    (by simp [htwo, Pc.Held])
  exact absurd hexcl (by decide)

end PrtsMcp.ActivationLock
