import PrtsMcp.Jobs

/-!
# Background workers

The workers that synchronise the datasets on timers and the chains of their retries, which run beside
each other and the jobs of operators in any order of their steps.
-/
namespace PrtsMcp.Workers

open Jobs (Dataset)

variable {τ : Type}

/-! ## Source -/

inductive DataBackend where
  | json
  | sqlite
  deriving DecidableEq, Repr

/-- What the workers read of the configuration. -/
structure RuntimeConfig where
  dataBackend : DataBackend
  isCustomGamedata : Bool
  storySyncEnabled : Bool
  customDatabase : Option String
  imagesEnabled : Bool
  localImage : Bool
  autoSyncIntervalMs : ℕ

deriving instance DecidableEq for Jobs.Dataset

def name : Dataset → String
  | .game => "game"
  | .story => "story"
  | .database => "database"
  | .images => "images"

def enabled (cfg : RuntimeConfig) : Dataset → Bool
  | .game => cfg.dataBackend = .json && !cfg.isCustomGamedata
  | .story => cfg.dataBackend = .json && cfg.storySyncEnabled
  | .database => cfg.dataBackend = .sqlite && cfg.customDatabase.isNone
  | .images => cfg.imagesEnabled && cfg.localImage

/-- What a run has come to. -/
inductive Outcome where
  | done
  | retry
  | busy
  | cancelled
  deriving DecidableEq, Repr

def Outcome.of (cancelled failed : Bool) : Outcome :=
  if cancelled then .cancelled else if failed then .retry else .done

def Outcome.status : Outcome → Jobs.Outcome
  | .cancelled => .cancelled
  | .retry => .failed
  | _ => .succeeded

def Outcome.result (outcome : Outcome) : Json :=
  .obj [("ok", .bool (outcome = .done)), ("message", .str
    (match outcome with
    | .cancelled => "任务已取消"
    | .retry => "后台同步失败；请查看服务器日志"
    | _ => "同步完成"))]

/-- The delays before retries, in milliseconds. -/
def delays : List ℕ := [30000, 120000, 600000]

/-- Where `run` is called. -/
inductive Caller where
  | worker (first : Bool) (attempt : ℕ)
  | retry (attempt : ℕ)
  deriving DecidableEq, Repr

def Caller.force : Caller → Bool
  | .worker first attempt => !first || 0 < attempt
  | .retry _ => true

/-- What a task does next. Workers stand up to `polling`, chains of retries from `chaining` on, and both
at a run in between. -/
inductive Place where
  | launching (base : Option ℕ)
  | cycle (first : Bool)
  | attempting (first : Bool) (attempt : ℕ)
  | overlapped (first : Bool) (attempt : ℕ) (due : ℕ)
  | delayed (first : Bool) (attempt : ℕ) (due : ℕ)
  | rechecking (first : Bool) (attempt : ℕ) (due : ℕ)
  | scheduling
  | reading
  | polling (due : Option ℕ)
  | beginning (caller : Caller)
  | running (caller : Caller) (job : ℕ)
  | reporting (caller : Caller) (job : ℕ) (outcome : Outcome)
  | returned (caller : Caller) (outcome : Outcome)
  | chaining (attempt base : ℕ)
  | checking (attempt due : ℕ)
  | sleeping (attempt due : ℕ)
  | starting (attempt : ℕ)
  | ended
  deriving DecidableEq, Repr

/-- A task, and the version of the configuration channel that its receiver has seen. -/
structure Task where
  dataset : Dataset
  chain : Bool
  seen : ℕ
  place : Place
  deriving DecidableEq

/-- `launches` are the datasets that `start` has not come to. The clock counts milliseconds. -/
structure State (τ : Type) where
  jobs : Jobs.System RuntimeConfig τ
  version : ℕ
  launches : List Dataset
  tasks : List Task
  now : ℕ

def start (config : RuntimeConfig) (transport : τ) : State τ where
  jobs := .new config transport
  version := 0
  launches := [.game, .story, .database, .images]
  tasks := []
  now := 0

/-- What a task sees of the others. -/
structure View where
  stopping : Bool
  interval : ℕ
  unseen : Bool
  now : ℕ

/-- What decides a step: the branch of a `select!` that is ready, or how a sync went. -/
inductive Signal where
  | go
  | timer
  | changed
  | synced (failed : Bool)

/-- The steps outside of runs, and whether the receiver sees the current version. -/
def Place.next (v : View) : Place → Signal → Option (Place × Bool)
  | .launching base, _ => some (base.elim (.cycle true) (.chaining 0), true)
  | .cycle first, _ => some (if v.stopping then .ended else .attempting first 0, false)
  | .attempting first attempt, _ =>
    some (if v.stopping then .ended else .beginning (.worker first attempt), false)
  | .overlapped first attempt due, .timer =>
    if due ≤ v.now then some (.attempting first attempt, false) else none
  | .overlapped first attempt _, .changed =>
    if v.unseen then some (.attempting first attempt, true) else none
  | .delayed first attempt due, .timer =>
    if due ≤ v.now then some (.attempting first attempt, false) else none
  | .delayed first attempt due, .changed =>
    if v.unseen then some (.rechecking first attempt due, true) else none
  | .rechecking first attempt due, _ =>
    some (if v.stopping then .ended else .delayed first attempt due, false)
  | .scheduling, _ => some (if v.stopping then .ended else .reading, false)
  | .reading, _ => some (.polling (if v.interval = 0 then none else some (v.now + v.interval)), false)
  | .polling due, .timer => if due.any (· ≤ v.now) then some (.cycle false, false) else none
  | .polling _, .changed => if v.unseen then some (.scheduling, true) else none
  | .chaining attempt base, _ =>
    some (delays[attempt]?.elim .ended fun delay => .checking attempt (base + delay), false)
  | .checking attempt due, _ => some (if v.stopping then .ended else .sleeping attempt due, false)
  | .sleeping attempt due, .timer => if due ≤ v.now then some (.starting attempt, false) else none
  | .sleeping attempt due, .changed => if v.unseen then some (.checking attempt due, true) else none
  | .starting attempt, _ => some (if v.stopping then .ended else .beginning (.retry attempt), false)
  | _, _ => none

/-- What follows a run, and whether a chain of retries is spawned. -/
def resume (d : Dataset) (now : ℕ) : Caller → Outcome → Place × Bool
  | .worker first attempt, .busy => (.overlapped first attempt (now + 30000), false)
  | .worker first attempt, .retry =>
    if first && d ≠ .database then (.scheduling, true)
    else if d = .database then
      (delays[attempt]?.elim .scheduling fun delay => .delayed first (attempt + 1) (now + delay), false)
    else (.scheduling, false)
  | .worker _ _, _ => (.scheduling, false)
  | .retry attempt, .busy => (.chaining attempt now, false)
  | .retry attempt, .retry => (.chaining (attempt + 1) now, false)
  | .retry _, _ => (.ended, false)

def State.view (s : State τ) (t : Task) : View where
  stopping := s.jobs.coordinator.stopping
  interval := s.jobs.coordinator.snapshot.config.autoSyncIntervalMs
  unseen := t.seen < s.version
  now := s.now

def State.cancelled (s : State τ) (job : ℕ) : Bool :=
  (s.jobs.coordinator.jobs.find? fun j => j.id = job).any fun j => j.control.cancelled ≠ 0

@[simps]
def State.onJobs (s : State τ) (e : Jobs.Event RuntimeConfig τ) : State τ := { s with jobs := s.jobs.step e }

@[simps]
def State.setTask (s : State τ) (i : ℕ) (t : Task) : State τ := { s with tasks := s.tasks.set i t }

@[simps]
def State.spawn (s : State τ) (t : Task) : State τ := { s with tasks := s.tasks ++ [t] }

def Task.goto (t : Task) (place : Place) : Task := { t with place }

/-- The job that a worker or a chain begins. -/
def request (d : Dataset) : Jobs.Event RuntimeConfig τ := .begin (name d) "background" d.mask 0

def State.begins (s : State τ) (d : Dataset) : Bool :=
  match s.jobs.coordinator.begin s.jobs.fresh (name d) "background" d.mask.1 0 with
  | .ok _ => true
  | .error _ => false

/-- A step of a task. -/
def State.act (s : State τ) (i : ℕ) (t : Task) (signal : Signal) : State τ :=
  match t.place, signal with
  | .beginning caller, _ =>
    if s.begins t.dataset then
      (s.onJobs (request t.dataset)).setTask i (t.goto (.running caller s.jobs.fresh))
    else s.setTask i (t.goto (.returned caller .busy))
  | .running caller job, .synced failed =>
    s.setTask i (t.goto (.reporting caller job (.of (s.cancelled job) failed)))
  | .reporting caller job outcome, _ =>
    (s.onJobs (.finish job outcome.status outcome.result)).setTask i (t.goto (.returned caller outcome))
  | .returned caller outcome, _ =>
    let resumed := resume t.dataset s.now caller outcome
    let s := s.setTask i (t.goto resumed.1)
    if resumed.2 then s.spawn ⟨t.dataset, true, 0, .launching (some s.now)⟩ else s
  | place, _ =>
    match place.next (s.view t) signal with
    | some (place, sees) => s.setTask i { t with place, seen := if sees then s.version else t.seen }
    | none => s

/-- The job that a task owns. -/
def Place.job : Place → Option ℕ
  | .running _ job => some job
  | .reporting _ job _ => some job
  | _ => none

inductive Event (τ : Type) where
  | launch
  | act (i : ℕ) (signal : Signal)
  | unwind (i : ℕ)
  | operate (e : Jobs.Event RuntimeConfig τ)
  | tick (ms : ℕ)

/-- The operations that wake the receivers. -/
def State.notifies (s : State τ) : Jobs.Event RuntimeConfig τ → Bool
  | .stop => true
  | .replace expected config transport => (s.jobs.coordinator.replace expected config transport).toOption.isSome
  | _ => false

/-- Operators do not end the jobs of others. -/
def State.owned (s : State τ) (e : Jobs.Event RuntimeConfig τ) : Bool :=
  e.ending.any fun f => s.tasks.any fun t => t.place.job = some f.id

def State.step (s : State τ) : Event τ → State τ
  | .launch =>
    match s.launches with
    | [] => s
    | d :: launches =>
      let s := { s with launches }
      if enabled s.jobs.coordinator.snapshot.config d then s.spawn ⟨d, false, 0, .launching none⟩ else s
  | .act i signal => s.tasks[i]?.elim s fun t => s.act i t signal
  | .unwind i =>
    s.tasks[i]?.elim s fun t =>
      (t.place.job.elim s fun job => s.onJobs (.drop job)).setTask i (t.goto .ended)
  | .operate e =>
    if s.owned e then s
    else { s.onJobs e with version := if s.notifies e then s.version + 1 else s.version }
  | .tick ms => { s with now := s.now + ms }

def State.run (s : State τ) (es : List (Event τ)) : State τ := es.foldl State.step s

/-! ## What a step does -/

/-- The steps outside of runs, with what they check. -/
inductive Next (v : View) : Place → Place → Bool → Prop
  | workerLaunched : Next v (.launching none) (.cycle true) true
  | chainLaunched (base : ℕ) : Next v (.launching (some base)) (.chaining 0 base) true
  | cycleStopped (first : Bool) (h : v.stopping = true) : Next v (.cycle first) .ended false
  | cycleStarted (first : Bool) (h : v.stopping = false) : Next v (.cycle first) (.attempting first 0) false
  | attemptStopped (first : Bool) (attempt : ℕ) (h : v.stopping = true) :
      Next v (.attempting first attempt) .ended false
  | attempted (first : Bool) (attempt : ℕ) (h : v.stopping = false) :
      Next v (.attempting first attempt) (.beginning (.worker first attempt)) false
  | overlapPassed (first : Bool) (attempt due : ℕ) (h : due ≤ v.now) :
      Next v (.overlapped first attempt due) (.attempting first attempt) false
  | overlapWoken (first : Bool) (attempt due : ℕ) (h : v.unseen = true) :
      Next v (.overlapped first attempt due) (.attempting first attempt) true
  | delayPassed (first : Bool) (attempt due : ℕ) (h : due ≤ v.now) :
      Next v (.delayed first attempt due) (.attempting first attempt) false
  | delayWoken (first : Bool) (attempt due : ℕ) (h : v.unseen = true) :
      Next v (.delayed first attempt due) (.rechecking first attempt due) true
  | recheckStopped (first : Bool) (attempt due : ℕ) (h : v.stopping = true) :
      Next v (.rechecking first attempt due) .ended false
  | rechecked (first : Bool) (attempt due : ℕ) (h : v.stopping = false) :
      Next v (.rechecking first attempt due) (.delayed first attempt due) false
  | scheduleStopped (h : v.stopping = true) : Next v .scheduling .ended false
  | scheduled (h : v.stopping = false) : Next v .scheduling .reading false
  | intervalRead (due : Option ℕ) : Next v .reading (.polling due) false
  | pollPassed (due : Option ℕ) (h : due.any (· ≤ v.now) = true) : Next v (.polling due) (.cycle false) false
  | pollWoken (due : Option ℕ) (h : v.unseen = true) : Next v (.polling due) .scheduling true
  | exhausted (attempt base : ℕ) (h : delays[attempt]? = none) : Next v (.chaining attempt base) .ended false
  | chained (attempt base delay : ℕ) (h : delays[attempt]? = some delay) :
      Next v (.chaining attempt base) (.checking attempt (base + delay)) false
  | checkStopped (attempt due : ℕ) (h : v.stopping = true) : Next v (.checking attempt due) .ended false
  | checked (attempt due : ℕ) (h : v.stopping = false) :
      Next v (.checking attempt due) (.sleeping attempt due) false
  | sleepPassed (attempt due : ℕ) (h : due ≤ v.now) : Next v (.sleeping attempt due) (.starting attempt) false
  | sleepWoken (attempt due : ℕ) (h : v.unseen = true) :
      Next v (.sleeping attempt due) (.checking attempt due) true
  | startStopped (attempt : ℕ) (h : v.stopping = true) : Next v (.starting attempt) .ended false
  | started (attempt : ℕ) (h : v.stopping = false) :
      Next v (.starting attempt) (.beginning (.retry attempt)) false

theorem next_of {v : View} {place place' : Place} {signal : Signal} {sees : Bool}
    (h : place.next v signal = some (place', sees)) : Next v place place' sees := by
  have hlaunch : ∀ base : Option ℕ, Next v (.launching base) (base.elim (.cycle true) (.chaining 0)) true
    | none => .workerLaunched
    | some base => .chainLaunched base
  have hchain : ∀ attempt base, Next v (.chaining attempt base)
      (delays[attempt]?.elim .ended fun delay => .checking attempt (base + delay)) false := by
    intro attempt base
    cases hdelay : delays[attempt]? with
    | none => exact .exhausted attempt base hdelay
    | some delay => exact .chained attempt base delay hdelay
  revert h
  fun_cases Place.next <;> simp only [reduceCtorEq, Option.some.injEq, Prod.mk.injEq, IsEmpty.forall_iff] <;>
    rintro ⟨rfl, rfl⟩
  case case1 => exact hlaunch _
  case case19 => exact hchain _ _
  all_goals cases hstop : v.stopping <;> constructor <;> assumption

/-- The places at which a task may have to wait. -/
def Place.waits : Place → Bool
  | .overlapped _ _ _ | .delayed _ _ _ | .polling _ | .sleeping _ _ | .running _ _ | .ended => true
  | _ => false

/-- The steps, with what they check. -/
inductive Change (s : State τ) : Event τ → State τ → Prop
  | idle (e : Event τ) (h : ∀ i signal, e ≠ .act i signal) : Change s e s
  | absent (i : ℕ) (signal : Signal) (ht : s.tasks[i]? = none) : Change s (.act i signal) s
  | waited (i : ℕ) (t : Task) (signal : Signal) (ht : s.tasks[i]? = some t) (hwaits : t.place.waits = true) :
      Change s (.act i signal) s
  | skipped (d : Dataset) (launches : List Dataset) (h : s.launches = d :: launches) :
      Change s .launch { s with launches }
  | launched (d : Dataset) (launches : List Dataset) (h : s.launches = d :: launches) :
      Change s .launch ({ s with launches }.spawn ⟨d, false, 0, .launching none⟩)
  | moved (i : ℕ) (t : Task) (signal : Signal) (place : Place) (sees : Bool) (ht : s.tasks[i]? = some t)
      (hnext : t.place.next (s.view t) signal = some (place, sees)) :
      Change s (.act i signal) (s.setTask i { t with place, seen := if sees then s.version else t.seen })
  | begun (i : ℕ) (t : Task) (signal : Signal) (caller : Caller) (ht : s.tasks[i]? = some t)
      (hplace : t.place = .beginning caller) (hbegins : s.begins t.dataset = true) :
      Change s (.act i signal)
        ((s.onJobs (request t.dataset)).setTask i (t.goto (.running caller s.jobs.fresh)))
  | refused (i : ℕ) (t : Task) (signal : Signal) (caller : Caller) (ht : s.tasks[i]? = some t)
      (hplace : t.place = .beginning caller) (hbegins : s.begins t.dataset = false) :
      Change s (.act i signal) (s.setTask i (t.goto (.returned caller .busy)))
  | synced (i : ℕ) (t : Task) (caller : Caller) (job : ℕ) (failed : Bool) (ht : s.tasks[i]? = some t)
      (hplace : t.place = .running caller job) :
      Change s (.act i (.synced failed))
        (s.setTask i (t.goto (.reporting caller job (.of (s.cancelled job) failed))))
  | reported (i : ℕ) (t : Task) (signal : Signal) (caller : Caller) (job : ℕ) (outcome : Outcome)
      (ht : s.tasks[i]? = some t) (hplace : t.place = .reporting caller job outcome) :
      Change s (.act i signal)
        ((s.onJobs (.finish job outcome.status outcome.result)).setTask i (t.goto (.returned caller outcome)))
  | resumed (i : ℕ) (t : Task) (signal : Signal) (caller : Caller) (outcome : Outcome) (place : Place)
      (ht : s.tasks[i]? = some t) (hplace : t.place = .returned caller outcome)
      (hresume : resume t.dataset s.now caller outcome = (place, false)) :
      Change s (.act i signal) (s.setTask i (t.goto place))
  | retried (i : ℕ) (t : Task) (signal : Signal) (caller : Caller) (outcome : Outcome) (place : Place)
      (ht : s.tasks[i]? = some t) (hplace : t.place = .returned caller outcome)
      (hresume : resume t.dataset s.now caller outcome = (place, true)) :
      Change s (.act i signal)
        ((s.setTask i (t.goto place)).spawn ⟨t.dataset, true, 0, .launching (some s.now)⟩)
  | unwound (i : ℕ) (t : Task) (ht : s.tasks[i]? = some t) (hjob : t.place.job = none) :
      Change s (.unwind i) (s.setTask i (t.goto .ended))
  | dropped (i : ℕ) (t : Task) (job : ℕ) (ht : s.tasks[i]? = some t) (hjob : t.place.job = some job) :
      Change s (.unwind i) ((s.onJobs (.drop job)).setTask i (t.goto .ended))
  | operated (e : Jobs.Event RuntimeConfig τ) (howned : s.owned e = false) :
      Change s (.operate e)
        { s.onJobs e with version := if s.notifies e then s.version + 1 else s.version }
  | ticked (ms : ℕ) : Change s (.tick ms) { s with now := s.now + ms }

theorem waits_of_next {v : View} {place : Place} {signal : Signal} (h : place.next v signal = none)
    (hbeginning : ∀ caller, place ≠ .beginning caller)
    (hreporting : ∀ caller job outcome, place ≠ .reporting caller job outcome)
    (hreturned : ∀ caller outcome, place ≠ .returned caller outcome) : place.waits = true := by
  cases place with
  | overlapped | delayed | polling | sleeping | running | ended => rfl
  | beginning caller => exact absurd rfl (hbeginning caller)
  | reporting caller job outcome => exact absurd rfl (hreporting caller job outcome)
  | returned caller outcome => exact absurd rfl (hreturned caller outcome)
  | _ => simp [Place.next] at h

theorem act_change {s : State τ} {i : ℕ} {t : Task} (ht : s.tasks[i]? = some t) (signal : Signal) :
    Change s (.act i signal) (s.act i t signal) := by
  unfold State.act
  split
  · next caller hplace =>
    split
    · next hbegins => exact .begun i t _ caller ht hplace hbegins
    · next hbegins => exact .refused i t _ caller ht hplace (by simpa using hbegins)
  · next caller job failed hplace => exact .synced i t caller job failed ht hplace
  · next caller job outcome hplace => exact .reported i t _ caller job outcome ht hplace
  · next caller outcome hplace =>
    cases hresume : resume t.dataset s.now caller outcome with
    | mk place spawns =>
      cases spawns with
      | false => exact .resumed i t _ caller outcome place ht hplace hresume
      | true => exact .retried i t _ caller outcome place ht hplace hresume
  · split
    · next place sees hnext => exact .moved i t _ place sees ht hnext
    · next hbeginning hreporting hreturned _ _ hnext =>
      exact .waited i t _ ht (waits_of_next hnext hbeginning hreporting hreturned)

theorem step_change (s : State τ) (e : Event τ) : Change s e (s.step e) := by
  cases e with
  | launch =>
    cases hlaunches : s.launches with
    | nil =>
      rw [State.step, hlaunches]
      exact .idle _ nofun
    | cons d launches =>
      simp only [State.step, hlaunches]
      split
      · exact .launched d launches hlaunches
      · exact .skipped d launches hlaunches
  | act i signal =>
    cases ht : s.tasks[i]? with
    | none =>
      rw [State.step, ht]
      exact .absent i signal ht
    | some t =>
      rw [State.step, ht]
      exact act_change ht signal
  | unwind i =>
    cases ht : s.tasks[i]? with
    | none =>
      rw [State.step, ht]
      exact .idle _ nofun
    | some t =>
      rw [State.step, ht]
      cases hjob : t.place.job with
      | none => simpa [hjob] using Change.unwound i t ht hjob
      | some job => simpa [hjob] using Change.dropped i t job ht hjob
  | operate e =>
    rw [State.step]
    split
    · exact .idle _ nofun
    · next howned => exact .operated e (by simpa using howned)
  | tick ms => exact .ticked ms

theorem run_concat (s : State τ) (es : List (Event τ)) (e : Event τ) :
    s.run (es ++ [e]) = (s.run es).step e := by
  simp [State.run]

/-! ## Tasks by their places in the list -/

section Tasks

variable {P : ℕ → Task → Prop} {tasks : List Task} {i : ℕ} {t : Task}

def Every (P : ℕ → Task → Prop) (tasks : List Task) : Prop := ∀ i t, tasks[i]? = some t → P i t

theorem every_set (h : ∀ k u, k ≠ i → tasks[k]? = some u → P k u) (ht : P i t) : Every P (tasks.set i t) := by
  intro k u hu
  rw [List.getElem?_set] at hu
  split at hu
  · next hik =>
    split at hu
    · cases hu
      exact hik ▸ ht
    · cases hu
  · next hik => exact h k u (Ne.symm hik) hu

theorem Every.set (h : Every P tasks) (ht : P i t) : Every P (tasks.set i t) :=
  every_set (fun k u _ => h k u) ht

theorem Every.spawn (h : Every P tasks) (ht : P tasks.length t) : Every P (tasks ++ [t]) := by
  intro k t' ht'
  rcases lt_trichotomy k tasks.length with hk | hk | hk
  · rw [List.getElem?_append_left hk] at ht'
    exact h k t' ht'
  · rw [hk, List.getElem?_concat_length] at ht'
    cases ht'
    exact hk ▸ ht
  · rw [List.getElem?_eq_none (by simp; omega)] at ht'
    cases ht'

theorem Every.imp {Q : ℕ → Task → Prop} (h : Every P tasks) (himp : ∀ i t, P i t → Q i t) : Every Q tasks :=
  fun i t ht => himp i t (h i t ht)

end Tasks

/-! ## Jobs of tasks -/

theorem onJobs_run (s : State τ) (e : Event τ) : ∃ es, (s.step e).jobs = s.jobs.run es := by
  have hstep : ∀ e, s.jobs.step e = s.jobs.run [e] := fun _ => rfl
  have hc := step_change s e
  generalize s.step e = s' at hc ⊢
  cases hc with
  | idle | absent | waited | skipped | launched | moved | refused | synced | resumed | retried | unwound | ticked =>
    exact ⟨[], rfl⟩
  | begun i t => exact ⟨_, hstep (request t.dataset)⟩
  | reported i t signal caller job outcome => exact ⟨_, hstep (.finish job outcome.status outcome.result)⟩
  | dropped i t job => exact ⟨_, hstep (.drop job)⟩
  | operated e => exact ⟨_, hstep e⟩

/-- A job that has not ended, with its reservation and its owner. -/
structure Reserves (s : Jobs.System RuntimeConfig τ) (job : ℕ) (mask : Jobs.Mask) : Prop where
  holds : s.holds job = true
  listed : ∃ j ∈ s.coordinator.jobs, j.id = job ∧ j.mask = mask.1

theorem Reserves.step {s : Jobs.System RuntimeConfig τ} {job : ℕ} {mask : Jobs.Mask} (hs : Jobs.Owned s)
    (h : Reserves s job mask) {e : Jobs.Event RuntimeConfig τ} (he : ∀ f ∈ e.ending, f.id ≠ job) :
    Reserves (s.step e) job mask := by
  obtain ⟨hholds, j, hj, hid, hmask⟩ := h
  obtain ⟨r, hr, hrid⟩ := Jobs.holds_iff.mp hholds
  have hc := Jobs.step_change s e
  generalize s.step e = s' at hc ⊢
  cases hc with
  | idle => exact ⟨hholds, j, hj, hid, hmask⟩
  | begun =>
    exact ⟨Jobs.holds_iff.mpr ⟨r, List.mem_append_left _ hr, hrid⟩, j, List.mem_append_left _ hj, hid, hmask⟩
  | ended e f hending =>
    have hother : job ≠ f.id := Ne.symm (he f (Jobs.ending_eq_some.mp hending).1)
    have hr' : r ∈ s.running.filter fun r => r.id ≠ f.id := List.mem_filter.mpr ⟨hr, by simpa [hrid] using hother⟩
    refine ⟨Jobs.holds_iff.mpr ⟨r, hr', hrid⟩, j, ?_, hid, hmask⟩
    rw [Jobs.jobs_finish hs]
    refine Jobs.mem_trimHistory (List.mem_map.mpr ⟨j, hj, Jobs.apply_of_ne (hid ▸ hother)⟩) ?_
    simp [Jobs.Job.isDone, hmask, mask.2]
  | asked id =>
    refine ⟨Jobs.holds_iff.mpr ⟨r, hr, hrid⟩, ?_⟩
    rw [Jobs.jobs_cancel hs]
    refine ⟨_, List.mem_map_of_mem hj, ?_, ?_⟩
    · split <;> simpa using hid
    · split <;> simpa using hmask
  | stopped =>
    exact ⟨Jobs.holds_iff.mpr ⟨r, hr, hrid⟩, _, List.mem_map_of_mem hj, (Jobs.id_cancel 143 j).trans hid,
      (Jobs.mask_cancel 143 j).trans hmask⟩
  | replaced => exact ⟨Jobs.holds_iff.mpr ⟨r, hr, hrid⟩, j, hj, hid, hmask⟩

/-- The tasks in runs own jobs of their datasets, each another one. -/
structure Holding (s : State τ) : Prop where
  owned : Jobs.Owned s.jobs
  held : Every (fun _ t => ∀ job ∈ t.place.job, Reserves s.jobs job t.dataset.mask) s.tasks
  apart : Every (fun i t => ∀ job ∈ t.place.job, Every (fun k t' => job ∈ t'.place.job → k = i) s.tasks) s.tasks

theorem begins_iff {s : State τ} {d : Dataset} : s.begins d = true ↔
    ∃ r c, s.jobs.coordinator.begin s.jobs.fresh (name d) "background" d.mask.1 0 = .ok (r, c) := by
  unfold State.begins
  cases s.jobs.coordinator.begin s.jobs.fresh (name d) "background" d.mask.1 0 with
  | ok begun => exact iff_of_true rfl ⟨begun.1, begun.2, rfl⟩
  | error error => simp

/-- A job that begins has a new id. -/
theorem reserves_request {s : State τ} {d : Dataset} (h : s.begins d = true) :
    Reserves (s.jobs.step (request d)) s.jobs.fresh d.mask := by
  obtain ⟨r, c, hbegin⟩ := begins_iff.mp h
  rw [request, Jobs.System.step, hbegin]
  simp only [Jobs.State.begin] at hbegin
  split at hbegin
  · cases hbegin
  · split at hbegin
    · cases hbegin
    · cases hbegin
      exact ⟨Jobs.holds_iff.mpr ⟨_, List.mem_append_right _ (List.mem_singleton_self _), rfl⟩,
        _, List.mem_append_right _ (List.mem_singleton_self _), rfl, rfl⟩

theorem Holding.below {s : State τ} (h : Holding s) :
    Every (fun _ t => ∀ job ∈ t.place.job, job < s.jobs.fresh) s.tasks := by
  refine h.held.imp fun _ t ht job hjob => ?_
  obtain ⟨j, hj, rfl, -⟩ := (ht job hjob).listed
  exact h.owned.below j hj

/-- A task may go where it owns no job, or the job that it owned. -/
theorem Holding.setTask {s : State τ} (h : Holding s) {i : ℕ} {t t' : Task} (ht : s.tasks[i]? = some t)
    (hdataset : t'.dataset = t.dataset) (hjob : ∀ job ∈ t'.place.job, job ∈ t.place.job) :
    Holding (s.setTask i t') where
  owned := h.owned
  held := h.held.set fun job hmem => hdataset ▸ h.held i t ht job (hjob job hmem)
  apart := by
    have hother : ∀ k u, s.tasks[k]? = some u → ∀ job ∈ u.place.job,
        Every (fun k' t' => job ∈ t'.place.job → k' = k) (s.tasks.set i t') := by
      intro k u hu job hmem
      exact (h.apart k u hu job hmem).set fun hmem' => h.apart k u hu job hmem i t ht (hjob job hmem')
    exact Every.set hother fun job hmem => hother i t ht job (hjob job hmem)

theorem Holding.spawn {s : State τ} (h : Holding s) {t : Task} (ht : t.place.job = none) :
    Holding (s.spawn t) where
  owned := h.owned
  held := h.held.spawn (by simp [ht])
  apart := by
    refine Every.spawn (fun k u hu job hmem => (h.apart k u hu job hmem).spawn (by simp [ht])) (by simp [ht])

/-- An event of the jobs that ends no task's job. -/
theorem Holding.onJobs {s : State τ} (h : Holding s) {e : Jobs.Event RuntimeConfig τ}
    (he : Every (fun _ t => ∀ job ∈ t.place.job, ∀ f ∈ e.ending, f.id ≠ job) s.tasks) :
    Holding (s.onJobs e) where
  owned := h.owned.change (Jobs.step_change s.jobs e)
  held i t ht job hjob := (h.held i t ht job hjob).step h.owned (he i t ht job hjob)
  apart := h.apart

theorem job_of_next {v : View} {place place' : Place} {sees : Bool} (h : Next v place place' sees) :
    place'.job = none := by
  cases h <;> rfl

theorem job_of_resume {d : Dataset} {now : ℕ} {caller : Caller} {outcome : Outcome} {place : Place} {spawns : Bool}
    (h : resume d now caller outcome = (place, spawns)) : place.job = none := by
  have hdelay : ∀ first attempt (delay : Option ℕ), (delay.elim Place.scheduling fun delay =>
      .delayed first (attempt + 1) (now + delay)).job = none := by
    intro first attempt delay
    cases delay <;> rfl
  revert h
  fun_cases resume <;> rintro ⟨rfl, rfl⟩ <;> first | rfl | exact hdelay _ _ _

/-- A task's step keeps what it does not end. -/
theorem Holding.change {s s' : State τ} {e : Event τ} (h : Holding s) (hc : Change s e s') : Holding s' := by
  have hset : ∀ {i : ℕ} {t : Task} {place : Place} (seen : ℕ), s.tasks[i]? = some t → place.job = none →
      Holding (s.setTask i { t with place, seen }) := by
    intro i t place seen ht hplace
    exact h.setTask ht rfl (by simp [hplace])
  have hend : ∀ {i : ℕ} {t : Task} {job : ℕ} {place : Place} (e : Jobs.Event RuntimeConfig τ),
      s.tasks[i]? = some t → job ∈ t.place.job → place.job = none →
      (∀ f ∈ e.ending, f.id = job) → Holding ((s.setTask i (t.goto place)).onJobs e) := by
    intro i t job place e ht hjob hplace he
    refine (hset t.seen ht hplace).onJobs (every_set (fun k u hk hu job' hmem f hf hid => ?_) (by simp [hplace]))
    rw [← hid, he f hf] at hmem
    exact hk (h.apart i t ht job hjob k u hu hmem)
  cases hc with
  | idle | absent | waited => exact h
  | skipped => exact ⟨h.owned, h.held, h.apart⟩
  | launched d launches =>
    have hlaunches : Holding { s with launches } := ⟨h.owned, h.held, h.apart⟩
    exact hlaunches.spawn rfl
  | moved i t signal place sees ht hnext => exact hset _ ht (job_of_next (next_of hnext))
  | begun i t signal caller ht hplace hbegins =>
    have honJobs : Holding (s.onJobs (request t.dataset)) := h.onJobs fun _ _ _ _ _ f hf => by cases hf
    have hnew := reserves_request hbegins
    have hapart : ∀ k u, k ≠ i → s.tasks[k]? = some u → s.jobs.fresh ∉ u.place.job := fun k u _ hu hmem =>
      lt_irrefl _ (h.below k u hu _ hmem)
    refine ⟨honJobs.owned, honJobs.held.set ?_, every_set (fun k u hk hu job hmem => ?_) ?_⟩
    · intro job hmem
      rw [← Option.some.inj hmem]
      exact hnew
    · refine (h.apart k u hu job hmem).set fun hmem' => ?_
      rw [← Option.some.inj hmem'] at hmem
      exact absurd hmem (hapart k u hk hu)
    · intro job hmem
      rw [← Option.some.inj hmem]
      exact every_set (fun k u hk hu hmem' => absurd hmem' (hapart k u hk hu)) fun _ => rfl
  | refused i t signal caller ht => exact hset _ ht rfl
  | synced i t caller job failed ht hplace => exact h.setTask ht rfl (by simp [Task.goto, Place.job, hplace])
  | reported i t signal caller job outcome ht hplace =>
    have hjob : job ∈ t.place.job := by simp [hplace, Place.job]
    exact hend (.finish job outcome.status outcome.result) ht hjob rfl (by simp [Jobs.Event.ending])
  | resumed i t signal caller outcome place ht hplace hresume => exact hset _ ht (job_of_resume hresume)
  | retried i t signal caller outcome place ht hplace hresume =>
    exact (hset _ ht (job_of_resume hresume)).spawn rfl
  | unwound i t ht => exact hset _ ht rfl
  | dropped i t job ht hjob => exact hend (.drop job) ht hjob rfl (by simp [Jobs.Event.ending])
  | operated e howned =>
    have honJobs : Holding (s.onJobs e) := by
      refine h.onJobs fun i t ht job hmem f hf hid => ?_
      simp only [State.owned, Option.any_eq_false, List.any_eq_false, decide_eq_true_eq] at howned
      exact howned f hf t (List.mem_of_getElem? ht) (hid ▸ hmem)
    exact ⟨honJobs.owned, honJobs.held, honJobs.apart⟩
  | ticked => exact ⟨h.owned, h.held, h.apart⟩

theorem holding_start (config : RuntimeConfig) (transport : τ) : Holding (start config transport) where
  owned := Jobs.owned_new config transport
  held i t ht := by cases ht
  apart i t ht := by cases ht

theorem holding_run {s : State τ} (h : Holding s) (es : List (Event τ)) : Holding (s.run es) := by
  induction es generalizing s with
  | nil => exact h
  | cons e es ih => exact ih (h.change (step_change s e))

/-- The job is the only one for the dataset that has not ended, and the task the only one that runs it. -/
structure OnlyRun (s : State τ) (i : ℕ) (d : Dataset) (job : ℕ) : Prop where
  listed : ∃ j ∈ s.jobs.coordinator.jobs, j.id = job ∧ j.status.isEnded = false ∧
    ∀ other ∈ s.jobs.coordinator.jobs, other.mask &&& d.mask.1 ≠ 0 → other = j
  task : ∀ k t, s.tasks[k]? = some t → t.dataset = d → t.place.job ≠ none → k = i

/-- At most one worker, chain or operator synchronises a dataset at a time. -/
theorem runs_exclusive (config : RuntimeConfig) (transport : τ) (es : List (Event τ)) (i : ℕ) (t : Task) (job : ℕ)
    (ht : ((start config transport).run es).tasks[i]? = some t) (hjob : t.place.job = some job) :
    OnlyRun ((start config transport).run es) i t.dataset job := by
  have h := holding_run (holding_start config transport) es
  obtain ⟨j, hj, hid, hmask⟩ := (h.held i t ht job hjob).listed
  have honly : ∀ other ∈ ((start config transport).run es).jobs.coordinator.jobs,
      other.mask &&& t.dataset.mask.1 ≠ 0 → other = j := by
    intro other hother hoverlap
    by_contra hne
    have hsymm : Std.Symm fun a b : Jobs.Job => a.mask &&& b.mask = 0 := ⟨fun a b hab => by rwa [UInt8.and_comm]⟩
    rw [← hmask] at hoverlap
    exact hoverlap (h.owned.disjoint.forall hother hj hne)
  refine ⟨⟨j, hj, hid, ?_, honly⟩, fun k u hu hdataset hbusy => ?_⟩
  · have hrunning : j.mask ≠ 0 := hmask ▸ t.dataset.mask.2
    simpa using mt (h.owned.reserved j hj).mpr hrunning
  · obtain ⟨job', hjob'⟩ := Option.ne_none_iff_exists'.mp hbusy
    obtain ⟨j', hj', hid', hmask'⟩ := (h.held k u hu job' hjob').listed
    have hsame : j' = j := honly j' hj' (by simp [hmask', hdataset, t.dataset.mask.2])
    subst hsame
    refine h.apart i t ht job hjob k u hu ?_
    rw [← hid, hid']
    exact hjob'

/-- Files, and no database. -/
def jsonConfig : RuntimeConfig := ⟨.json, false, false, none, false, false, 60000⟩

/-- The worker of the game data is launched and comes to its first run. -/
def firstSteps : List (Event Unit) := [.launch, .act 0 .go, .act 0 .go, .act 0 .go]

theorem runs_exclusive_first : OnlyRun ((start jsonConfig ()).run (firstSteps ++ [.act 0 .go])) 0 .game 0 :=
  runs_exclusive jsonConfig () (firstSteps ++ [.act 0 .go]) 0 ⟨.game, false, 0, .running (.worker true 0) 0⟩ 0
    (by decide +kernel) rfl

end PrtsMcp.Workers
