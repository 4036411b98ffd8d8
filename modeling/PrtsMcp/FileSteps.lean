import PrtsMcp.SyncTypes

/-!
# File and network steps

The steps the sync processes take, on any state that carries the clock and the temporary files.
-/
namespace PrtsMcp.FileSteps

open Process SyncTypes

inductive Op where
  | createDir
  | lock
  | unlock
  | guardSource
  | readReleaseMeta
  | checkZip
  | fetchReleases (url : String)
  | fetchManifest (url : String)
  | download (url : String)
  | checkDownload
  | placeZip (tag : String)
  | writeTemp
  | removeTemp
  | placeReleaseMeta
  | damage
  | readExtractMeta (side : Side)
  | readPair
  | checkFiles (side : Side)
  | touch (side : Side) (generation : ℕ)
  | createReleases (side : Side)
  | hashZip (side : Side)
  | extract (side : Side) (label : String)
  | extractEntry (side : Side) (generation : ℕ)
  | checkStaging (side : Side)
  | activate (side : Side) (generation : ℕ)
  | removeStaging (side : Side) (generation : ℕ)
  | placeExtractMeta (side : Side)
  | placePair
  | listReleases (side : Side)
  | prune (side : Side) (generation : ℕ) (staging : Bool)
  | readImagesMeta
  | selectImages
  | planImages
  | listImages
  | stageImages (format : Format)
  | fillImages (entry : ImageEntry)
  | activateImages (format : Format) (generation : ℕ)
  | resolveImages
  | placeImagesMeta
  | removeImages (entry : ImageEntry)
  | pruneImages (entry : ImageEntry)
  deriving DecidableEq, Repr

def Op.isDiscovery : Op → Bool
  | fetchReleases _ => true
  | _ => false

def Op.isPrune : Op → Bool
  | prune _ _ _ => true
  | _ => false

def Op.isTouch : Op → Bool
  | touch _ _ => true
  | _ => false

/-- `fresh` is the next random suffix, `temps` the suffixes of the temporary files left behind. -/
structure Machine where
  now : ℕ
  fresh : ℕ
  temps : List ℕ
  deriving DecidableEq, Repr

class OnMachine (σ : Type) where
  machine : σ → Machine
  onMachine : (Machine → Machine) → σ → σ
  onMachine_id : ∀ s, onMachine id s = s
  machine_onMachine : ∀ f s, machine (onMachine f s) = f (machine s)

variable {σ α : Type} [OnMachine σ]

open OnMachine

abbrev Step (σ : Type) (α : Type) := Prog σ Op Turn SyncError α

def Machine.wait (ms : ℕ) (m : Machine) : Machine := { m with now := m.now + ms }

/-- A temporary file under the next suffix. -/
def Machine.addTemp (m : Machine) : Machine :=
  { m with fresh := m.fresh + 1, temps := m.fresh :: m.temps }

def Machine.dropTemp (suffix : ℕ) (m : Machine) : Machine :=
  { m with temps := m.temps.filter (· ≠ suffix) }

/-- The clock does not run backwards and no random suffix comes twice. -/
def Machine.Grows (f : Machine → Machine) : Prop :=
  ∀ m, m.now ≤ (f m).now ∧ m.fresh ≤ (f m).fresh

theorem grows_id : Machine.Grows id := fun _ => ⟨le_refl _, le_refl _⟩

theorem grows_wait (ms : ℕ) : Machine.Grows (Machine.wait ms) :=
  fun _ => ⟨Nat.le_add_right _ _, le_refl _⟩

theorem grows_addTemp : Machine.Grows Machine.addTemp := fun _ => ⟨le_refl _, Nat.le_succ _⟩

theorem grows_dropTemp (suffix : ℕ) : Machine.Grows (Machine.dropTemp suffix) :=
  fun _ => ⟨le_refl _, le_refl _⟩

/-- A step that reads its reply after the time the reply took. -/
def step (op : Op) (f : Reply → σ → Except SyncError α × σ) : Step σ α :=
  .perform op fun turn s => f turn.reply (onMachine (Machine.wait turn.elapsedMs) s)

/-- A file operation: on success it changes the state by `f`. -/
def ioStep (op : Op) (f : σ → σ) : Step σ Unit :=
  step op fun reply s =>
    match reply.io with
    | .ok () => (.ok (), f s)
    | .error e => (.error e, s)

/-- A step that leaves the state as it is. -/
def inspect (op : Op) (f : Reply → σ → Except SyncError α) : Step σ α :=
  step op fun reply s => (f reply s, s)

def fetchStep (op : Op) : Step σ (Except TransportError Json) :=
  inspect op fun reply _ => .ok reply.fetched

def nowMs : Step σ ℕ := .read fun s => (machine s).now

/-- Write a new temporary file. The answer is its suffix. -/
def writeTemp : Step σ ℕ :=
  step .writeTemp fun reply s =>
    match reply with
    | .fail text => (.error (.io text), s)
    | .torn text => (.error (.io text), onMachine Machine.addTemp s)
    | _ => (.ok (machine s).fresh, onMachine Machine.addTemp s)

/-- `atomic_write_json`: a temporary file, then a rename that changes the state by `put`. -/
def atomicWriteJson (op : Op) (put : σ → σ) : Step σ Unit := do
  ioStep .createDir id
  let suffix ← writeTemp
  ioStep op fun s => put (onMachine (Machine.dropTemp suffix) s)

section Rules

variable {A G : Visit σ Op Turn → Prop} {P : σ → Prop} {Q : α → σ → Prop}
  {E : SyncError → σ → Prop}

/-- The state after the time a reply took. -/
def waited (turn : Turn) (s : σ) : σ := onMachine (Machine.wait turn.elapsedMs) s

theorem triple_step {op : Op} {f : Reply → σ → Except SyncError α × σ}
    (hstep : ∀ turn s, P s → A ⟨op, turn, s, (f turn.reply (waited turn s)).2⟩ →
      G ⟨op, turn, s, (f turn.reply (waited turn s)).2⟩)
    (hpost : ∀ turn s, P s → A ⟨op, turn, s, (f turn.reply (waited turn s)).2⟩ →
      match f turn.reply (waited turn s) with
      | (.ok a, s') => Q a s'
      | (.error e, s') => E e s') :
    Triple A G P (step op f) Q E := by
  refine triple_perform hstep (fun turn s a hP hA ha => ?_) fun turn s e hP hA he => ?_
  · have h := hpost turn s hP hA
    rw [show f turn.reply (waited turn s) = (.ok a, (f turn.reply (waited turn s)).2) from
      Prod.ext ha rfl] at h
    exact h
  · have h := hpost turn s hP hA
    rw [show f turn.reply (waited turn s) = (.error e, (f turn.reply (waited turn s)).2) from
      Prod.ext he rfl] at h
    exact h

theorem triple_ioStep {op : Op} {f : σ → σ} {Q : Unit → σ → Prop}
    (hdone : ∀ turn s, P s → A ⟨op, turn, s, f (waited turn s)⟩ →
      G ⟨op, turn, s, f (waited turn s)⟩ ∧ Q () (f (waited turn s)))
    (hfail : ∀ turn s e, P s → A ⟨op, turn, s, waited turn s⟩ →
      G ⟨op, turn, s, waited turn s⟩ ∧ E e (waited turn s)) :
    Triple A G P (ioStep op f) Q E := by
  refine triple_step (fun turn s hP hA => ?_) fun turn s hP hA => ?_
  · split at hA
    · next h => simpa only [h] using (hdone turn s hP hA).1
    · next e h => simpa only [h] using (hfail turn s e hP hA).1
  · split at hA
    · next h => simpa only [h] using (hdone turn s hP hA).2
    · next e h => simpa only [h] using (hfail turn s e hP hA).2

/-- A file operation that is known to succeed. -/
theorem triple_ioStep_of_ok {op : Op} {f : σ → σ} {Q : Unit → σ → Prop}
    (hok : ∀ turn s s', A ⟨op, turn, s, s'⟩ → turn.reply.io = .ok ())
    (hdone : ∀ turn s, P s → G ⟨op, turn, s, f (waited turn s)⟩ ∧ Q () (f (waited turn s))) :
    Triple A G P (ioStep op f) Q E := by
  refine triple_step (fun turn s hP hA => ?_) fun turn s hP hA => ?_
  · simpa only [hok turn s _ hA] using (hdone turn s hP).1
  · simpa only [hok turn s _ hA] using (hdone turn s hP).2

theorem triple_inspect {op : Op} {f : Reply → σ → Except SyncError α}
    (h : ∀ turn s, P s → A ⟨op, turn, s, waited turn s⟩ → G ⟨op, turn, s, waited turn s⟩ ∧
      match f turn.reply (waited turn s) with
      | .ok a => Q a (waited turn s)
      | .error e => E e (waited turn s)) :
    Triple A G P (inspect op f) Q E := by
  refine triple_step (fun turn s hP hA => (h turn s hP hA).1) fun turn s hP hA => ?_
  have hpost := (h turn s hP hA).2
  cases hf : f turn.reply (waited turn s) <;> simpa only [hf] using hpost

/-- Only the last step of an atomic write changes what `P` speaks about. -/
theorem triple_atomicWriteJson {op : Op} {put : σ → σ} {Q : Unit → σ → Prop}
    (hP : ∀ s f, Machine.Grows f → P s → P (onMachine f s))
    (hkept : ∀ op' turn s f, Machine.Grows f → P s →
      G ⟨op', turn, s, onMachine f (waited turn s)⟩)
    (hput : ∀ turn s f, Machine.Grows f → P s →
      A ⟨op, turn, s, put (onMachine f (waited turn s))⟩ →
      G ⟨op, turn, s, put (onMachine f (waited turn s))⟩ ∧
        Q () (put (onMachine f (waited turn s))))
    (hfail : ∀ s e, P s → E e s) :
    Triple A G P (atomicWriteJson op put) Q E := by
  have hsame : ∀ op' turn s, P s → G ⟨op', turn, s, waited turn s⟩ := fun op' turn s hs => by
    simpa only [onMachine_id] using hkept op' turn s id grows_id hs
  have hwait : ∀ turn s, P s → P (waited turn s) := fun turn s hs => hP s _ (grows_wait _) hs
  refine triple_bind (R := fun _ => P) (triple_ioStep
    (fun turn s hs _ => ⟨hsame _ turn s hs, hwait turn s hs⟩)
    fun turn s e hs _ => ⟨hsame _ turn s hs, hfail _ e (hwait turn s hs)⟩) fun _ => ?_
  refine triple_bind (R := fun _ => P) (triple_step (fun turn s hs _ => ?_)
    fun turn s hs _ => ?_) fun suffix => triple_ioStep
      (fun turn s hs hA => hput turn s _ (grows_dropTemp suffix) hs hA)
      fun turn s e hs _ => ⟨hsame _ turn s hs, hfail _ e (hwait turn s hs)⟩
  · split
    · exact hsame _ turn s hs
    · exact hkept _ turn s _ grows_addTemp hs
    · exact hkept _ turn s _ grows_addTemp hs
  · split
    · next h =>
      split at h <;> obtain ⟨-, rfl⟩ := Prod.mk.inj h
      · exact hwait turn s hs
      · exact hP _ _ grows_addTemp (hwait turn s hs)
      · exact hP _ _ grows_addTemp (hwait turn s hs)
    · next h =>
      split at h <;> obtain ⟨-, rfl⟩ := Prod.mk.inj h
      · exact hfail _ _ (hwait turn s hs)
      · exact hfail _ _ (hP _ _ grows_addTemp (hwait turn s hs))
      · exact hfail _ _ (hP _ _ grows_addTemp (hwait turn s hs))

end Rules

section Ticks

/-- The step lets the machine grow. -/
def Ticks (v : Visit σ Op Turn) : Prop :=
  (machine v.before).now ≤ (machine v.after).now ∧
    (machine v.before).fresh ≤ (machine v.after).fresh

theorem ticks_of_machine {v : Visit σ Op Turn} {f : Machine → Machine} (hf : Machine.Grows f)
    (h : machine v.after = f (Machine.wait v.reply.elapsedMs (machine v.before))) : Ticks v := by
  have hgrow := hf (Machine.wait v.reply.elapsedMs (machine v.before))
  unfold Ticks
  rw [h]
  exact ⟨(Nat.le_add_right _ _).trans hgrow.1, hgrow.2⟩

theorem machine_waited (turn : Turn) (s : σ) :
    machine (waited turn s) = Machine.wait turn.elapsedMs (machine s) := machine_onMachine _ _

/-- A process all of whose steps tick. -/
abbrev Steady (p : Step σ α) : Prop :=
  Triple (fun _ => True) Ticks (fun _ => True) p (fun _ _ => True) fun _ _ => True

variable {β : Type}

theorem steady_pure (a : α) : Steady (pure a : Step σ α) := triple_pure fun _ _ => trivial

theorem steady_throw (e : SyncError) : Steady (Prog.throw e : Step σ α) :=
  triple_throw fun _ _ => trivial

theorem steady_read (f : σ → α) : Steady (Prog.read f : Step σ α) := triple_read fun _ _ => trivial

theorem steady_bind {p : Step σ α} {f : α → Step σ β} (hp : Steady p) (hf : ∀ a, Steady (f a)) :
    Steady (p >>= f) := triple_bind hp hf

theorem steady_attempt {p : Step σ α} (hp : Steady p) :
    Steady (Prog.attempt p : Step σ (Except SyncError α)) := by
  have h : Triple (fun _ => True) Ticks (fun _ => True)
      (Prog.attempt p : Step σ (Except SyncError α)) _ fun _ _ => True := triple_attempt hp
  exact h.post fun _ _ _ => trivial

theorem steady_ignore {p : Step σ α} (hp : Steady p) : Steady (Prog.ignore p : Step σ Unit) :=
  triple_ignore (R := fun _ => True) hp

theorem steady_step {op : Op} {f : Reply → σ → Except SyncError α × σ}
    (h : ∀ reply s, ∃ g, Machine.Grows g ∧ machine (f reply s).2 = g (machine s)) :
    Steady (step op f) := by
  refine triple_step (fun turn s _ _ => ?_) fun turn s _ _ => ?_
  · obtain ⟨g, hg, heq⟩ := h turn.reply (waited turn s)
    exact ticks_of_machine hg (heq.trans (congrArg g (machine_waited turn s)))
  · split <;> trivial

theorem steady_ioStep {op : Op} {f : σ → σ} {g : Machine → Machine} (hg : Machine.Grows g)
    (hf : ∀ s, machine (f s) = g (machine s)) : Steady (ioStep op f) := by
  refine steady_step fun reply s => ?_
  cases reply.io with
  | ok _ => exact ⟨g, hg, hf s⟩
  | error e => exact ⟨id, grows_id, rfl⟩

theorem steady_inspect {op : Op} {f : Reply → σ → Except SyncError α} :
    Steady (inspect op f) :=
  steady_step fun _ _ => ⟨id, grows_id, rfl⟩

theorem steady_idle (op : Op) : Steady (ioStep op id : Step σ Unit) :=
  steady_ioStep (g := id) grows_id fun _ => rfl

theorem steady_writeTemp : Steady (writeTemp : Step σ ℕ) := by
  refine steady_step fun reply s => ?_
  split
  · exact ⟨id, grows_id, rfl⟩
  · exact ⟨_, grows_addTemp, machine_onMachine _ _⟩
  · exact ⟨_, grows_addTemp, machine_onMachine _ _⟩

theorem steady_atomicWriteJson {op : Op} {put : σ → σ} (hput : ∀ s, machine (put s) = machine s) :
    Steady (atomicWriteJson op put) :=
  steady_bind (steady_idle _) fun _ => steady_bind steady_writeTemp fun suffix =>
    steady_ioStep (grows_dropTemp suffix) fun s => (hput _).trans (machine_onMachine _ s)

end Ticks

end PrtsMcp.FileSteps
