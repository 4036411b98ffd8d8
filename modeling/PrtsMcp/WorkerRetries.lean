import PrtsMcp.Workers

/-!
# Retries of background workers

What the workers and the chains report over a run: how many of their runs fail in a cycle, how long they
wait until they try again, and which run of a worker is not forced.
-/
namespace PrtsMcp.Workers

open Jobs (Dataset)

variable {τ : Type}

/-! ## Reports -/

inductive Report where
  | cycle
  | begun (force : Bool)
  | ended (outcome : Outcome)
  deriving DecidableEq, Repr

/-- What a step from a place reports. -/
def State.reportOf (s : State τ) (d : Dataset) : Place → Option Report
  | .cycle _ => if s.jobs.coordinator.stopping then none else some .cycle
  | .beginning caller => if s.begins d then some (.begun caller.force) else none
  | .reporting _ _ outcome => some (.ended outcome)
  | _ => none

/-- What a task reports with a step, and when. -/
def State.report (s : State τ) (i : ℕ) : Event τ → Option (ℕ × Report)
  | .act k _ =>
    if k = i then s.tasks[i]?.bind fun t => (s.reportOf t.dataset t.place).map (Prod.mk s.now) else none
  | _ => none

/-- The reports of a task over a run. -/
def history (s : State τ) (i : ℕ) : List (Event τ) → List (ℕ × Report)
  | [] => []
  | e :: es => (s.report i e).toList ++ history (s.step e) i es

theorem history_concat (s : State τ) (i : ℕ) (es : List (Event τ)) (e : Event τ) :
    history s i (es ++ [e]) = history s i es ++ ((s.run es).report i e).toList := by
  induction es generalizing s with
  | nil => simp [history, State.run]
  | cons e' es ih =>
    rw [List.cons_append, history, history, ih, List.append_assoc]
    rfl

theorem report_self {s : State τ} {i : ℕ} {t : Task} (ht : s.tasks[i]? = some t) (signal : Signal) :
    s.report i (.act i signal) = (s.reportOf t.dataset t.place).map (Prod.mk s.now) := by
  rw [State.report, if_pos rfl, ht]
  rfl

theorem report_ne {s : State τ} {i k : ℕ} (h : k ≠ i) (signal : Signal) : s.report k (.act i signal) = none :=
  if_neg (Ne.symm h)

theorem report_quiet {s : State τ} {i : ℕ} {t : Task} {signal : Signal} (ht : s.tasks[i]? = some t)
    (hreport : s.reportOf t.dataset t.place = none) (k : ℕ) : s.report k (.act i signal) = none := by
  by_cases hk : k = i
  · rw [hk, report_self ht, hreport]
    rfl
  · exact report_ne hk signal

theorem reportOf_of_waits {s : State τ} {d : Dataset} {place : Place} (h : place.waits = true) :
    s.reportOf d place = none := by
  cases place with
  | overlapped | delayed | polling | sleeping | running | ended => rfl
  | _ => cases h

/-! ## What places say of reports -/

/-- Where a step of a task leads. -/
inductive Goes (s : State τ) (d : Dataset) : Place → Place → Prop
  | moved (v : View) (place place' : Place) (sees : Bool) (hstop : v.stopping = s.jobs.coordinator.stopping)
      (hnow : v.now = s.now) (hnext : Next v place place' sees) : Goes s d place place'
  | begun (caller : Caller) (job : ℕ) (hbegins : s.begins d = true) :
      Goes s d (.beginning caller) (.running caller job)
  | refused (caller : Caller) (hbegins : s.begins d = false) :
      Goes s d (.beginning caller) (.returned caller .busy)
  | synced (caller : Caller) (job : ℕ) (cancelled failed : Bool) :
      Goes s d (.running caller job) (.reporting caller job (.of cancelled failed))
  | reported (caller : Caller) (job : ℕ) (outcome : Outcome) :
      Goes s d (.reporting caller job outcome) (.returned caller outcome)
  | resumed (caller : Caller) (outcome : Outcome) (place : Place) (spawns : Bool)
      (hresume : resume d s.now caller outcome = (place, spawns)) : Goes s d (.returned caller outcome) place

/-- What a task is, what it has reported and where it stands. -/
abbrev Account := Bool → Dataset → ℕ → List (ℕ × Report) → Place → Prop

/-- The steps of a task keep the account. -/
structure Kept (τ : Type) (account : Account) : Prop where
  later : ∀ {chain d now now' told place}, account chain d now told place → now ≤ now' →
    account chain d now' told place
  launched : ∀ d now base, account base.isSome d now [] (.launching base)
  ended : ∀ {chain d now told place}, account chain d now told place → account chain d now told .ended
  goes : ∀ {chain d told place place'} (s : State τ), account chain d s.now told place → Goes s d place place' →
    account chain d s.now (told ++ ((s.reportOf d place).map (Prod.mk s.now)).toList) place'

structure Told (account : Account) (s : State τ) (told : ℕ → List (ℕ × Report)) : Prop where
  each : Every (fun i t => account t.chain t.dataset s.now (told i) t.place) s.tasks
  unborn : ∀ i, s.tasks.length ≤ i → told i = []

section Account

variable {account : Account} {s s' : State τ} {told : ℕ → List (ℕ × Report)} {e : Event τ}

theorem Told.at_place (h : Told account s told) {i : ℕ} {t : Task} {place : Place} (ht : s.tasks[i]? = some t)
    (hplace : t.place = place) : account t.chain t.dataset s.now (told i) place :=
  hplace ▸ h.each i t ht

theorem told_quiet (told : ℕ → List (ℕ × Report)) (hreport : ∀ i, s.report i e = none) :
    (fun i => told i ++ (s.report i e).toList) = told := by
  funext i
  rw [hreport, Option.toList_none, List.append_nil]

/-- Only the task that acts reports. -/
theorem Told.act (hk : Kept τ account) (h : Told account s told) {i : ℕ} {t : Task} {place : Place} {seen : ℕ}
    (signal : Signal) (ht : s.tasks[i]? = some t) (hgoes : Goes s t.dataset t.place place) (s' : State τ)
    (hnow : s'.now = s.now) (htasks : s'.tasks = s.tasks.set i { t with place, seen }) :
    Told account s' fun k => told k ++ (s.report k (.act i signal)).toList := by
  have hother : ∀ k ≠ i, told k ++ (s.report k (.act i signal)).toList = told k := by
    intro k hne
    rw [report_ne hne, Option.toList_none, List.append_nil]
  refine ⟨?_, fun k hlength => ?_⟩
  · rw [htasks]
    refine every_set (fun k u hne hu => ?_) ?_
    · rw [hother k hne, hnow]
      exact h.each k u hu
    · rw [report_self ht, hnow]
      exact hk.goes s (h.each i t ht) hgoes
  · rw [htasks, List.length_set] at hlength
    have hne : k ≠ i := by
      rintro rfl
      rw [List.getElem?_eq_none hlength] at ht
      cases ht
    rw [hother k hne]
    exact h.unborn k hlength

theorem Told.spawn (hk : Kept τ account) (h : Told account s told) (d : Dataset) (base : Option ℕ) :
    Told account (s.spawn ⟨d, base.isSome, 0, .launching base⟩) told := by
  refine ⟨h.each.spawn ?_, fun i hi => h.unborn i ?_⟩
  · rw [h.unborn _ le_rfl]
    exact hk.launched d s.now base
  · rw [State.spawn_tasks, List.length_append] at hi
    omega

/-- A task that unwinds reports no more. -/
theorem Told.unwind (hk : Kept τ account) (h : Told account s told) {i : ℕ} {t : Task}
    (ht : s.tasks[i]? = some t) : Told account (s.setTask i (t.goto .ended)) told :=
  ⟨h.each.set (hk.ended (h.each i t ht)), fun k hlength => h.unborn k (by simpa using hlength)⟩

theorem Told.change (hk : Kept τ account) (h : Told account s told) (hc : Change s e s') :
    Told account s' fun i => told i ++ (s.report i e).toList := by
  cases hc with
  | idle e hact =>
    have hreport : ∀ i, s.report i e = none := by
      cases e with
      | act i signal => exact absurd rfl (hact i signal)
      | _ => exact fun _ => rfl
    rw [told_quiet told hreport]
    exact h
  | absent i signal ht =>
    have hreport : ∀ k, s.report k (.act i signal) = none := by
      intro k
      by_cases hk : k = i
      · rw [hk, State.report, if_pos rfl, ht]
        rfl
      · exact report_ne hk signal
    rw [told_quiet told hreport]
    exact h
  | waited i t signal ht hwaits =>
    rw [told_quiet told (report_quiet ht (reportOf_of_waits hwaits))]
    exact h
  | skipped d launches =>
    rw [told_quiet told fun _ => rfl]
    exact ⟨h.each, h.unborn⟩
  | launched d launches =>
    have hlaunches : Told account { s with launches } told := ⟨h.each, h.unborn⟩
    rw [told_quiet told fun _ => rfl]
    exact hlaunches.spawn hk d none
  | moved i t signal place sees ht hnext =>
    exact h.act hk signal ht (.moved (s.view t) _ _ sees rfl rfl (next_of hnext)) _ rfl rfl
  | begun i t signal caller ht hplace hbegins =>
    exact h.act hk signal ht (hplace ▸ .begun caller s.jobs.fresh hbegins) _ rfl rfl
  | refused i t signal caller ht hplace hbegins =>
    exact h.act hk signal ht (hplace ▸ .refused caller hbegins) _ rfl rfl
  | synced i t caller job failed ht hplace =>
    exact h.act hk _ ht (hplace ▸ .synced caller job (s.cancelled job) failed) _ rfl rfl
  | reported i t signal caller job outcome ht hplace =>
    exact h.act hk signal ht (hplace ▸ .reported caller job outcome) _ rfl rfl
  | resumed i t signal caller outcome place ht hplace hresume =>
    exact h.act hk signal ht (hplace ▸ .resumed caller outcome place false hresume) _ rfl rfl
  | retried i t signal caller outcome place ht hplace hresume =>
    have hact : Told account (s.setTask i (t.goto place)) fun k => told k ++ (s.report k (.act i signal)).toList :=
      h.act hk signal ht (hplace ▸ .resumed caller outcome place true hresume) _ rfl rfl
    exact hact.spawn hk t.dataset (some s.now)
  | unwound i t ht =>
    rw [told_quiet told fun _ => rfl]
    exact h.unwind hk ht
  | dropped i t job ht =>
    rw [told_quiet told fun _ => rfl]
    have hunwound := h.unwind hk ht
    exact ⟨hunwound.each, hunwound.unborn⟩
  | operated =>
    rw [told_quiet told fun _ => rfl]
    exact ⟨h.each, h.unborn⟩
  | ticked ms =>
    rw [told_quiet told fun _ => rfl]
    exact ⟨h.each.imp fun _ _ ht => hk.later ht (Nat.le_add_right _ _), h.unborn⟩

theorem told_run (hk : Kept τ account) (config : RuntimeConfig) (transport : τ) (es : List (Event τ)) :
    Told account ((start config transport).run es) fun i => history (start config transport) i es := by
  induction es using List.reverseRecOn with
  | nil => exact ⟨nofun, fun _ _ => rfl⟩
  | append_singleton es e ih =>
    rw [run_concat]
    simp only [history_concat]
    exact ih.change hk (step_change _ e)

end Account

/-! ## The pace of a task -/

/-- The failing runs of the last cycle, and when the last of them ended. -/
structure Tally where
  failures : ℕ
  last : Option ℕ
  deriving DecidableEq, Repr

def Tally.add (w : Tally) : ℕ × Report → Tally
  | (_, .cycle) => ⟨0, none⟩
  | (now, .ended .retry) => ⟨w.failures + 1, some now⟩
  | _ => w

def tally (reports : List (ℕ × Report)) : Tally := reports.foldl Tally.add ⟨0, none⟩

theorem tally_concat (reports : List (ℕ × Report)) (r : ℕ × Report) :
    tally (reports ++ [r]) = (tally reports).add r := by
  simp [tally]

def Caller.attempt : Caller → ℕ
  | .worker _ attempt => attempt
  | .retry attempt => attempt

/-- What is waited for between the last failing run and this one. -/
def Caller.delay : Caller → Option ℕ
  | .worker _ attempt => delays[attempt - 1]?
  | .retry attempt => delays[attempt]?

/-- How many runs of a cycle fail at most. -/
def limit (chain : Bool) (d : Dataset) : ℕ := if chain then 3 else if d = .database then 4 else 1

def Caller.Allowed (chain : Bool) (d : Dataset) : Caller → Prop
  | .worker _ attempt => chain = false ∧ attempt ≤ 3 ∧ (0 < attempt → d = .database)
  | .retry attempt => chain = true ∧ attempt < 3

/-- At the time, the task may run again. -/
structure Caller.Ready (caller : Caller) (chain : Bool) (d : Dataset) (time : ℕ) (w : Tally) : Prop where
  allowed : caller.Allowed chain d
  failures : w.failures = caller.attempt
  spaced : ∀ last ∈ w.last, ∀ delay ∈ caller.delay, last + delay ≤ time

structure Caller.Failed (caller : Caller) (chain : Bool) (d : Dataset) (now : ℕ) (w : Tally) : Prop where
  allowed : caller.Allowed chain d
  failures : w.failures = caller.attempt + 1
  last : ∀ last ∈ w.last, last ≤ now

/-- What the reports of a task have come to at its place. -/
def Paced (chain : Bool) (d : Dataset) (now : ℕ) (w : Tally) : Place → Prop
  | .launching base => chain = base.isSome ∧ w = ⟨0, none⟩
  | .cycle _ | .scheduling | .reading | .polling _ => chain = false
  | .attempting first attempt | .overlapped first attempt _ => (Caller.worker first attempt).Ready chain d now w
  | .delayed first attempt due | .rechecking first attempt due => (Caller.worker first attempt).Ready chain d due w
  | .beginning caller | .running caller _ | .reporting caller _ _ => caller.Ready chain d now w
  | .returned caller .busy => caller.Ready chain d now w
  | .returned caller .retry => caller.Failed chain d now w
  | .returned caller _ => caller.Allowed chain d
  | .chaining attempt base =>
    chain = true ∧ attempt ≤ 3 ∧ w.failures = attempt ∧ ∀ last ∈ w.last, last ≤ base
  | .checking attempt due | .sleeping attempt due => (Caller.retry attempt).Ready chain d due w
  | .starting attempt => (Caller.retry attempt).Ready chain d now w
  | .ended => True

theorem Caller.Ready.mono {caller : Caller} {chain : Bool} {d : Dataset} {time time' : ℕ} {w : Tally}
    (h : caller.Ready chain d time w) (htime : time ≤ time') : caller.Ready chain d time' w :=
  ⟨h.allowed, h.failures, fun last hlast delay hdelay => (h.spaced last hlast delay hdelay).trans htime⟩

theorem Paced.mono {chain : Bool} {d : Dataset} {now now' : ℕ} {w : Tally} {place : Place}
    (h : Paced chain d now w place) (hnow : now ≤ now') : Paced chain d now' w place := by
  cases place with
  | launching | cycle | scheduling | reading | polling | delayed | rechecking | chaining | checking | sleeping
  | ended =>
    exact h
  | attempting | overlapped | beginning | running | reporting | starting => exact Caller.Ready.mono h hnow
  | returned caller outcome =>
    cases outcome with
    | busy => exact Caller.Ready.mono h hnow
    | retry => exact ⟨h.allowed, h.failures, fun last hlast => (h.last last hlast).trans hnow⟩
    | done | cancelled => exact h

theorem Caller.Allowed.lt_limit {caller : Caller} {chain : Bool} {d : Dataset} (h : caller.Allowed chain d) :
    caller.attempt < limit chain d := by
  cases caller with
  | worker first attempt =>
    obtain ⟨hchain, hle, hdatabase⟩ := h
    simp only [limit, hchain, Bool.false_eq_true, if_false, Caller.attempt]
    split
    · omega
    · next hother =>
      have := mt hdatabase hother
      omega
  | retry attempt =>
    obtain ⟨hchain, hlt⟩ := h
    simpa [limit, hchain, Caller.attempt] using hlt

theorem delays_lt {attempt delay : ℕ} (h : delays[attempt]? = some delay) : attempt < 3 := by
  obtain ⟨hlt, -⟩ := List.getElem?_eq_some_iff.mp h
  exact hlt

/-- The tally after a report. -/
def Tally.after (w : Tally) (now : ℕ) : Option Report → Tally
  | none => w
  | some r => w.add (now, r)

theorem Paced.moved {chain : Bool} {d : Dataset} {s : State τ} {w : Tally} {v : View} {place place' : Place}
    {sees : Bool} (h : Paced chain d s.now w place) (hstopping : v.stopping = s.jobs.coordinator.stopping)
    (hnow : v.now = s.now) (hnext : Next v place place' sees) :
    Paced chain d s.now (w.after s.now (s.reportOf d place)) place' := by
  cases hnext with
  | workerLaunched => exact h.1
  | chainLaunched base =>
    obtain ⟨hchain, rfl⟩ := h
    exact ⟨hchain, Nat.zero_le 3, rfl, by simp [State.reportOf, Tally.after]⟩
  | cycleStopped | attemptStopped | recheckStopped | scheduleStopped | exhausted | checkStopped | startStopped =>
    trivial
  | cycleStarted first hstop =>
    have hstop' : s.jobs.coordinator.stopping = false := hstopping ▸ hstop
    simp only [State.reportOf, hstop', Bool.false_eq_true, if_false, Tally.after, Tally.add]
    exact ⟨⟨h, Nat.zero_le 3, fun hpos => absurd hpos (lt_irrefl 0)⟩, rfl, by simp⟩
  | attempted | rechecked | scheduled | checked | started | overlapPassed | overlapWoken | delayWoken
  | sleepWoken | intervalRead | pollPassed | pollWoken =>
    exact h
  | delayPassed first attempt due hdue => exact Caller.Ready.mono h (hnow ▸ hdue)
  | sleepPassed attempt due hdue => exact Caller.Ready.mono h (hnow ▸ hdue)
  | chained attempt base delay hdelay =>
    obtain ⟨hchain, -, hfailures, hlast⟩ := h
    refine ⟨⟨hchain, delays_lt hdelay⟩, hfailures, fun last hmem delay' hdelay' => ?_⟩
    have hsame : delay' = delay := Option.some.inj (hdelay'.symm.trans hdelay)
    have := hlast last hmem
    omega

theorem Paced.resumed {chain : Bool} {d : Dataset} {now : ℕ} {w : Tally} {caller : Caller} {outcome : Outcome}
    {place : Place} {spawns : Bool} (h : Paced chain d now w (.returned caller outcome))
    (hresume : resume d now caller outcome = (place, spawns)) : Paced chain d now w place := by
  cases caller with
  | worker first attempt =>
    cases outcome with
    | busy =>
      cases hresume
      exact h
    | done | cancelled =>
      cases hresume
      exact h.1
    | retry =>
      obtain ⟨⟨hchain, hle, hdatabase⟩, hfailures, hlast⟩ := h
      simp only [resume] at hresume
      split at hresume
      · cases hresume
        exact hchain
      · split at hresume
        · next hd =>
          cases hdelay : delays[attempt]? with
          | none =>
            rw [hdelay] at hresume
            cases hresume
            exact hchain
          | some delay =>
            rw [hdelay] at hresume
            cases hresume
            have hlt := delays_lt hdelay
            refine ⟨⟨hchain, by omega, fun _ => hd⟩, hfailures, fun last hmem delay' hdelay' => ?_⟩
            have hsame : delay' = delay := Option.some.inj (hdelay'.symm.trans hdelay)
            have := hlast last hmem
            omega
        · cases hresume
          exact hchain
  | retry attempt =>
    cases outcome with
    | busy =>
      cases hresume
      obtain ⟨⟨hchain, hlt⟩, hfailures, hspaced⟩ := h
      refine ⟨hchain, hlt.le, hfailures, fun last hmem => ?_⟩
      obtain ⟨delay, hdelay⟩ : ∃ delay, delays[attempt]? = some delay := ⟨_, List.getElem?_eq_getElem hlt⟩
      have := hspaced last hmem delay hdelay
      omega
    | retry =>
      cases hresume
      obtain ⟨⟨hchain, hlt⟩, hfailures, hlast⟩ := h
      exact ⟨hchain, hlt, hfailures, hlast⟩
    | done | cancelled =>
      cases hresume
      trivial

theorem tally_after (reports : List (ℕ × Report)) (now : ℕ) (r : Option Report) :
    tally (reports ++ (r.map (Prod.mk now)).toList) = (tally reports).after now r := by
  cases r with
  | none => simp [Tally.after]
  | some r => exact tally_concat reports (now, r)

theorem after_bounded {w : Tally} {chain : Bool} {d : Dataset} {now : ℕ} {r : Option Report}
    (h : w.failures ≤ limit chain d) (hr : r = some (.ended .retry) → w.failures < limit chain d) :
    (w.after now r).failures ≤ limit chain d := by
  cases r with
  | none => exact h
  | some r =>
    cases r with
    | cycle => exact Nat.zero_le _
    | begun => exact h
    | ended outcome =>
      cases outcome with
      | retry => exact hr rfl
      | done | busy | cancelled => exact h

theorem ready_of_failed {chain : Bool} {d : Dataset} {s : State τ} {w : Tally} {place : Place}
    (h : Paced chain d s.now w place) (hfailed : s.reportOf d place = some (.ended .retry)) :
    ∃ caller : Caller, caller.Ready chain d s.now w := by
  cases place with
  | reporting caller => exact ⟨caller, h⟩
  | cycle first =>
    simp only [State.reportOf] at hfailed
    split at hfailed <;> cases hfailed
  | beginning caller => exact ⟨caller, h⟩
  | _ => cases hfailed

/-- How many runs of a task fail, and when it runs again. -/
def Steady : Account := fun chain d now told place =>
  Paced chain d now (tally told) place ∧ (tally told).failures ≤ limit chain d

theorem Paced.goes {chain : Bool} {d : Dataset} {s : State τ} {w : Tally} {place place' : Place}
    (h : Paced chain d s.now w place) (hgoes : Goes s d place place') :
    Paced chain d s.now (w.after s.now (s.reportOf d place)) place' := by
  cases hgoes with
  | moved v _ _ sees hstop hnow hnext => exact h.moved hstop hnow hnext
  | begun caller job hbegins =>
    rw [State.reportOf, if_pos hbegins]
    exact h
  | refused caller hbegins =>
    rw [State.reportOf, if_neg (by simp [hbegins])]
    exact h
  | synced caller job cancelled failed => exact h
  | reported caller job outcome =>
    obtain ⟨hallowed, hfailures, hspaced⟩ : caller.Ready chain d s.now w := h
    cases outcome with
    | busy => exact ⟨hallowed, hfailures, hspaced⟩
    | retry => exact ⟨hallowed, congrArg (· + 1) hfailures, fun last hlast => (Option.some.inj hlast).ge⟩
    | done | cancelled => exact hallowed
  | resumed caller outcome place spawns hresume => exact h.resumed hresume

theorem kept_steady : Kept τ Steady where
  later h hnow := ⟨h.1.mono hnow, h.2⟩
  launched d now base := ⟨⟨rfl, rfl⟩, Nat.zero_le _⟩
  ended h := ⟨trivial, h.2⟩
  goes s h hgoes := by
    rw [Steady, tally_after]
    refine ⟨h.1.goes hgoes, after_bounded h.2 fun hfailed => ?_⟩
    obtain ⟨caller, hready⟩ := ready_of_failed h.1 hfailed
    rw [hready.failures]
    exact hready.allowed.lt_limit

theorem steady_run (config : RuntimeConfig) (transport : τ) (es : List (Event τ)) :
    Told Steady ((start config transport).run es) fun i => history (start config transport) i es :=
  told_run kept_steady config transport es

/-! ## Chains of retries -/

/-- A chain of retries is spawned by the first cycle of a worker of files. -/
theorem resume_spawns {d : Dataset} {now : ℕ} {caller : Caller} {outcome : Outcome} {place : Place}
    (h : resume d now caller outcome = (place, true)) :
    ∃ attempt, caller = .worker true attempt ∧ d ≠ .database ∧ place = .scheduling := by
  revert h
  fun_cases resume <;> intro h <;> cases h
  next first attempt hfirst =>
    simp only [Bool.and_eq_true, decide_eq_true_eq] at hfirst
    exact ⟨attempt, by rw [hfirst.1], hfirst.2, rfl⟩

def Caller.isFirst : Caller → Bool
  | .worker first _ => first
  | .retry _ => false

/-- Whether a worker is in its first cycle. -/
def Place.isFirst : Place → Bool
  | .launching none => true
  | .cycle first | .attempting first _ | .overlapped first _ _ | .delayed first _ _ | .rechecking first _ _ => first
  | .beginning caller | .running caller _ | .reporting caller _ _ | .returned caller _ => caller.isFirst
  | _ => false

/-- A chain of the dataset, or a worker that may still spawn one. -/
def chance (d : Dataset) (t : Task) : Bool := t.dataset = d && (t.chain || t.place.isFirst)

def works (d : Dataset) (t : Task) : Bool := t.dataset = d && !t.chain

theorem isFirst_of_next {v : View} {place place' : Place} {sees : Bool} (h : Next v place place' sees)
    (hfirst : place'.isFirst = true) : place.isFirst = true := by
  cases h with
  | workerLaunched => rfl
  | cycleStarted | attempted | overlapPassed | overlapWoken | delayPassed | delayWoken | rechecked => exact hfirst
  | _ => cases hfirst

theorem isFirst_of_resume {d : Dataset} {now : ℕ} {caller : Caller} {outcome : Outcome} {place : Place}
    {spawns : Bool}
    (h : resume d now caller outcome = (place, spawns)) (hfirst : place.isFirst = true) :
    (Place.returned caller outcome).isFirst = true := by
  have hdelay : ∀ first attempt (delay : Option ℕ), (delay.elim Place.scheduling fun delay =>
      .delayed first (attempt + 1) (now + delay)).isFirst = true → first = true := by
    intro first attempt delay
    cases delay with
    | none => exact nofun
    | some delay => exact id
  revert h
  fun_cases resume <;> intro h <;> cases h
  case case1 => exact hfirst
  case case3 => exact hdelay _ _ _ hfirst
  all_goals cases hfirst

section Counts

variable {p : Task → Bool} {tasks : List Task} {i : ℕ} {t t' : Task}

theorem countP_set_add (ht : tasks[i]? = some t) :
    (tasks.set i t').countP p + (if p t then 1 else 0) = tasks.countP p + (if p t' then 1 else 0) := by
  obtain ⟨hi, rfl⟩ := List.getElem?_eq_some_iff.mp ht
  have hpos : p tasks[i] = true → 0 < tasks.countP p := fun hp =>
    List.countP_pos_iff.mpr ⟨_, List.getElem_mem hi, hp⟩
  rw [List.countP_set hi]
  cases hp : p tasks[i] with
  | false => simp
  | true =>
    have := hpos hp
    simp only [if_true]
    omega

theorem countP_set_le (ht : tasks[i]? = some t) (h : p t' = true → p t = true) :
    (tasks.set i t').countP p ≤ tasks.countP p := by
  have hcount : (tasks.set i t').countP p + (if p t then 1 else 0) = tasks.countP p + (if p t' then 1 else 0) :=
    countP_set_add ht
  cases hp : p t' with
  | false =>
    simp only [hp, Bool.false_eq_true, if_false] at hcount
    omega
  | true =>
    simp only [hp, h hp, if_true] at hcount
    omega

end Counts

/-- A dataset has one worker, and one chain once the worker is past its first cycle. -/
structure Single (s : State τ) : Prop where
  worker : ∀ d, s.launches.count d + s.tasks.countP (works d) ≤ 1
  chain : ∀ d, s.launches.count d + s.tasks.countP (chance d) ≤ 1
  files : ∀ t ∈ s.tasks, t.chain = true → t.dataset ≠ .database

theorem Single.setTask {s : State τ} (h : Single s) {i : ℕ} {t : Task} (place : Place) (seen : ℕ)
    (ht : s.tasks[i]? = some t) (hfirst : place.isFirst = true → t.place.isFirst = true) :
    Single (s.setTask i { t with place, seen }) where
  worker d := by
    have := h.worker d
    have hle : (s.tasks.set i { t with place, seen }).countP (works d) ≤ s.tasks.countP (works d) :=
      countP_set_le ht id
    exact (Nat.add_le_add_left hle _).trans this
  chain d := by
    have hle : (s.tasks.set i { t with place, seen }).countP (chance d) ≤ s.tasks.countP (chance d) := by
      refine countP_set_le ht fun hchance => ?_
      simp only [chance, Bool.and_eq_true, Bool.or_eq_true] at hchance ⊢
      exact ⟨hchance.1, hchance.2.imp id hfirst⟩
    exact (Nat.add_le_add_left hle _).trans (h.chain d)
  files u hu hchain := by
    rcases List.mem_or_eq_of_mem_set hu with hu | rfl
    · exact h.files u hu hchain
    · exact h.files t (List.mem_of_getElem? ht) hchain

theorem allowed_of_returned {chain : Bool} {d : Dataset} {now : ℕ} {w : Tally} {caller : Caller} {outcome : Outcome}
    (h : Paced chain d now w (.returned caller outcome)) : caller.Allowed chain d := by
  cases outcome with
  | busy | retry => exact h.allowed
  | done | cancelled => exact h

theorem Single.change {s s' : State τ} {told : ℕ → List (ℕ × Report)} (h : Single s)
    (hsteady : Told Steady s told) {e : Event τ} (hc : Change s e s') : Single s' := by
  cases hc with
  | idle | absent | waited => exact h
  | skipped d launches hlaunches =>
    have hle : ∀ d', launches.count d' ≤ s.launches.count d' := fun d' => by
      rw [hlaunches]
      exact List.count_le_count_cons
    exact ⟨fun d' => (Nat.add_le_add_right (hle d') _).trans (h.worker d'),
      fun d' => (Nat.add_le_add_right (hle d') _).trans (h.chain d'), h.files⟩
  | launched d launches hlaunches =>
    have hnew : ∀ d' (p : Task → Bool), (p (Task.mk d false 0 (.launching none)) = true → d = d') →
        launches.count d' + (s.tasks ++ [Task.mk d false 0 (.launching none)]).countP p ≤
          s.launches.count d' + s.tasks.countP p := by
      intro d' p hp
      rw [hlaunches, List.count_cons, List.countP_append, List.countP_singleton]
      split
      · next hnew =>
        rw [if_pos (by simpa using hp hnew)]
        omega
      · omega
    refine ⟨fun d' => (hnew d' _ ?_).trans (h.worker d'), fun d' => (hnew d' _ ?_).trans (h.chain d'), ?_⟩
    · simp [works]
    · simpa [chance] using fun hsame _ => hsame
    · intro t ht hchain
      rcases List.mem_append.mp ht with ht | ht
      · exact h.files t ht hchain
      · rw [List.mem_singleton.mp ht] at hchain
        cases hchain
  | moved i t signal place sees ht hnext => exact h.setTask place _ ht (isFirst_of_next (next_of hnext))
  | begun i t signal caller ht hplace =>
    have hset := h.setTask (.running caller s.jobs.fresh) t.seen ht fun hfirst => by
      rw [hplace]
      exact hfirst
    exact ⟨hset.worker, hset.chain, hset.files⟩
  | refused i t signal caller ht hplace =>
    refine h.setTask _ t.seen ht fun hfirst => ?_
    rw [hplace]
    exact hfirst
  | synced i t caller job failed ht hplace =>
    refine h.setTask _ t.seen ht fun hfirst => ?_
    rw [hplace]
    exact hfirst
  | reported i t signal caller job outcome ht hplace =>
    have hset := h.setTask (.returned caller outcome) t.seen ht fun hfirst => by
      rw [hplace]
      exact hfirst
    exact ⟨hset.worker, hset.chain, hset.files⟩
  | resumed i t signal caller outcome place ht hplace hresume =>
    refine h.setTask _ t.seen ht fun hfirst => ?_
    rw [hplace]
    exact isFirst_of_resume hresume hfirst
  | retried i t signal caller outcome place ht hplace hresume =>
    obtain ⟨attempt, rfl, hfiles, rfl⟩ := resume_spawns hresume
    have hchain : t.chain = false := (allowed_of_returned (hsteady.at_place ht hplace).1).1
    have hset := h.setTask .scheduling t.seen ht fun hfirst => by cases hfirst
    refine ⟨fun d => ?_, fun d => ?_, fun u hu hchain => ?_⟩
    · rw [State.spawn_tasks, List.countP_append, List.countP_singleton, if_neg (by simp [works])]
      exact hset.worker d
    · have hsame : chance d t = chance d ⟨t.dataset, true, 0, .launching (some s.now)⟩ := by
        simp [chance, hplace, Place.isFirst, Caller.isFirst]
      have hpast : chance d (t.goto .scheduling) = false := by simp [chance, hchain, Task.goto, Place.isFirst]
      have hcount : (s.tasks.set i (t.goto .scheduling)).countP (chance d) + (if chance d t then 1 else 0) =
          s.tasks.countP (chance d) + (if chance d (t.goto .scheduling) then 1 else 0) := countP_set_add ht
      rw [hsame, hpast, if_neg Bool.false_ne_true, Nat.add_zero] at hcount
      rw [State.spawn_tasks, List.countP_append, List.countP_singleton, State.setTask_tasks, hcount]
      exact h.chain d
    · rcases List.mem_append.mp hu with hu | hu
      · exact hset.files u hu hchain
      · rw [List.mem_singleton.mp hu]
        exact hfiles
  | unwound i t ht => exact h.setTask .ended t.seen ht fun hfirst => by cases hfirst
  | dropped i t job ht hjob =>
    have hset := h.setTask .ended t.seen ht fun hfirst => by cases hfirst
    exact ⟨hset.worker, hset.chain, hset.files⟩
  | operated => exact ⟨h.worker, h.chain, h.files⟩
  | ticked => exact ⟨h.worker, h.chain, h.files⟩

theorem single_run (config : RuntimeConfig) (transport : τ) (es : List (Event τ)) :
    Single ((start config transport).run es) := by
  induction es using List.reverseRecOn with
  | nil =>
    have hcount : ∀ d, [Dataset.game, .story, .database, .images].count d ≤ 1 := by
      intro d
      cases d <;> decide
    exact ⟨hcount, hcount, nofun⟩
  | append_singleton es e ih =>
    rw [run_concat]
    exact ih.change (steady_run config transport es) (step_change _ e)

def chains (d : Dataset) (t : Task) : Bool := t.dataset = d && t.chain

theorem Single.chains_le {s : State τ} (h : Single s) (d : Dataset) : s.tasks.countP (chains d) ≤ 1 := by
  refine le_trans (List.countP_mono_left fun t _ ht => ?_) ((Nat.le_add_left _ _).trans (h.chain d))
  simp only [chains, Bool.and_eq_true] at ht
  simp [chance, ht.1, ht.2]

theorem Single.chains_database {s : State τ} (h : Single s) : s.tasks.countP (chains .database) = 0 := by
  rw [List.countP_eq_zero]
  intro t ht
  have hfiles := h.files t ht
  simp only [chains, Bool.and_eq_true, decide_eq_true_eq, not_and]
  exact fun hd hchain => hfiles hchain hd

/-- At any time a dataset has one worker, and a dataset of files one chain of retries; three runs of a chain
fail, four in a cycle of the database's worker and one in a cycle of another. -/
theorem retries_bounded (config : RuntimeConfig) (transport : τ) (es : List (Event τ)) :
    (∀ d, ((start config transport).run es).tasks.countP (works d) ≤ 1) ∧
      (∀ d, ((start config transport).run es).tasks.countP (chains d) ≤ if d = .database then 0 else 1) ∧
      Every (fun i t => (tally (history (start config transport) i es)).failures ≤
        if t.chain then 3 else if t.dataset = .database then 4 else 1) ((start config transport).run es).tasks := by
  have hsingle := single_run config transport es
  refine ⟨fun d => (Nat.le_add_left _ _).trans (hsingle.worker d), fun d => ?_,
    (steady_run config transport es).each.imp fun _ _ h => h.2⟩
  split
  · next hd => exact (hd ▸ hsingle.chains_database).le
  · exact hsingle.chains_le d

theorem exists_task_of_report {s : State τ} {i : ℕ} {e : Event τ} {r : ℕ × Report} (h : s.report i e = some r) :
    ∃ t signal, s.tasks[i]? = some t ∧ e = .act i signal ∧
      (s.reportOf t.dataset t.place).map (Prod.mk s.now) = some r := by
  cases e with
  | act k signal =>
    by_cases hk : k = i
    · rw [hk, State.report, if_pos rfl] at h
      obtain ⟨t, ht, hreport⟩ := Option.bind_eq_some_iff.mp h
      exact ⟨t, signal, ht, by rw [hk], hreport⟩
    · rw [report_ne (Ne.symm hk)] at h
      cases h
  | _ => cases h

theorem report_of_begun {s : State τ} {i : ℕ} {e : Event τ} {now : ℕ} {force : Bool}
    (h : s.report i e = some (now, .begun force)) :
    ∃ t caller, s.tasks[i]? = some t ∧ t.place = .beginning caller ∧ s.begins t.dataset = true ∧
      force = caller.force ∧ now = s.now := by
  obtain ⟨t, signal, ht, rfl, hreport⟩ := exists_task_of_report h
  obtain ⟨r, hr, heq⟩ := Option.map_eq_some_iff.mp hreport
  cases heq
  cases hplace : t.place with
  | beginning caller =>
    rw [hplace, State.reportOf] at hr
    split at hr
    · next hbegins =>
      cases hr
      exact ⟨t, caller, ht, hplace, hbegins, rfl, rfl⟩
    · cases hr
  | cycle first =>
    rw [hplace, State.reportOf] at hr
    split at hr <;> cases hr
  | _ =>
    rw [hplace] at hr
    cases hr

theorem Caller.Allowed.exists_delay {chain : Bool} {d : Dataset} {caller : Caller} (h : caller.Allowed chain d) :
    ∃ delay, caller.delay = some delay := by
  have hdelays : ∀ index < 3, ∃ delay, delays[index]? = some delay :=
    fun index hlt => ⟨_, List.getElem?_eq_getElem hlt⟩
  cases caller with
  | worker first attempt =>
    have := h.2.1
    exact hdelays (attempt - 1) (by omega)
  | retry attempt => exact hdelays attempt h.2

/-- After failing runs of a cycle, the delay that belongs to their number has passed. -/
def Spaced (chain : Bool) (w : Tally) (now : ℕ) : Prop :=
  ∀ last ∈ w.last, ∃ delay, delays[w.failures - if chain then 0 else 1]? = some delay ∧ last + delay ≤ now

/-- A task runs again only after the delay. -/
theorem retries_spaced (config : RuntimeConfig) (transport : τ) (es : List (Event τ)) (e : Event τ) (i : ℕ)
    (t : Task) (now : ℕ) (force : Bool) (ht : ((start config transport).run es).tasks[i]? = some t)
    (hbegun : ((start config transport).run es).report i e = some (now, .begun force)) :
    Spaced t.chain (tally (history (start config transport) i es)) now := by
  obtain ⟨t', caller, ht', hplace, -, -, rfl⟩ := report_of_begun hbegun
  cases ht.symm.trans ht'
  have hready : caller.Ready t.chain t.dataset _ _ := ((steady_run config transport es).at_place ht hplace).1
  intro last hlast
  obtain ⟨delay, hdelay⟩ := hready.allowed.exists_delay
  refine ⟨delay, ?_, hready.spaced last hlast delay hdelay⟩
  rw [hready.failures, ← hdelay]
  cases caller with
  | worker first attempt => simp [Caller.delay, Caller.attempt, hready.allowed.1]
  | retry attempt => simp [Caller.delay, Caller.attempt, hready.allowed.1]

/-- The first run fails, and so does its first retry; the chain comes to the second. -/
def failingSteps : List (Event Unit) :=
  firstSteps ++ [.act 0 .go, .act 0 (.synced true), .act 0 .go, .act 0 .go, .act 1 .go, .act 1 .go, .act 1 .go,
    .tick 30000, .act 1 .timer, .act 1 .go, .act 1 .go, .act 1 (.synced true), .act 1 .go, .act 1 .go, .act 1 .go,
    .act 1 .go, .tick 120000, .act 1 .timer, .act 1 .go]

theorem retries_spaced_failing : Spaced true (tally (history (start jsonConfig ()) 1 failingSteps)) 150000 :=
  retries_spaced jsonConfig () failingSteps (.act 1 .go) 1 ⟨.game, true, 0, .beginning (.retry 1)⟩ 150000 true
    (by decide +kernel) (by decide +kernel)

/-! ## Forced runs -/

def HasBegun (reports : List (ℕ × Report)) : Prop := ∃ r ∈ reports, ∃ force, r.2 = .begun force

/-- What the place of a worker says of the runs that it has begun: it has begun none exactly as long as the
next one is not forced. -/
def Tried (begun : Prop) : Place → Prop
  | .launching none => ¬ begun
  | .cycle first => begun ↔ first = false
  | .attempting first attempt | .overlapped first attempt _ | .delayed first attempt _ | .rechecking first attempt _ =>
    begun ↔ (Caller.worker first attempt).force = true
  | .beginning (.worker first attempt) | .returned (.worker first attempt) .busy =>
    begun ↔ (Caller.worker first attempt).force = true
  | .running (.worker _ _) _ | .returned (.worker _ _) _ | .scheduling | .reading | .polling _ => begun
  | .reporting (.worker _ _) _ outcome => begun ∧ outcome ≠ .busy
  | _ => True

/-- Whether a task has begun a run, as its place has it. -/
def Trying : Account := fun _ _ _ told place => Tried (HasBegun told) place

theorem hasBegun_append {told : List (ℕ × Report)} {now : ℕ} {r : Option Report}
    (hr : ∀ force, r ≠ some (.begun force)) :
    HasBegun (told ++ (r.map (Prod.mk now)).toList) ↔ HasBegun told := by
  cases r with
  | none => simp
  | some r =>
    have hnot : ∀ force, r ≠ .begun force := fun force h => hr force (congrArg some h)
    simp [HasBegun, or_and_right, exists_or, hnot]

theorem hasBegun_begun (told : List (ℕ × Report)) (now : ℕ) (force : Bool) :
    HasBegun (told ++ ((some (Report.begun force)).map (Prod.mk now)).toList) :=
  ⟨(now, .begun force), by simp, force, rfl⟩

theorem Outcome.of_ne_busy (cancelled failed : Bool) : Outcome.of cancelled failed ≠ .busy := by
  cases cancelled <;> cases failed <;> decide

theorem Tried.moved {begun : Prop} {v : View} {place place' : Place} {sees : Bool} (h : Tried begun place)
    (hnext : Next v place place' sees) : Tried begun place' := by
  cases hnext with
  | workerLaunched => exact iff_of_false h (by decide)
  | cycleStarted first => simpa [Tried, Caller.force] using h
  | pollPassed => exact iff_of_true h rfl
  | attempted | overlapPassed | overlapWoken | delayPassed | delayWoken | rechecked | scheduled | intervalRead
  | pollWoken =>
    exact h
  | _ => trivial

theorem Tried.resumed {begun : Prop} {d : Dataset} {now : ℕ} {caller : Caller} {outcome : Outcome} {place : Place}
    {spawns : Bool} (h : Tried begun (.returned caller outcome))
    (hresume : resume d now caller outcome = (place, spawns)) : Tried begun place := by
  cases caller with
  | retry attempt => cases outcome <;> cases hresume <;> trivial
  | worker first attempt =>
    cases outcome with
    | busy | done | cancelled =>
      cases hresume
      exact h
    | retry =>
      have hdelay : ∀ delay : Option ℕ, Tried begun (delay.elim .scheduling fun delay =>
          .delayed first (attempt + 1) (now + delay)) := by
        intro delay
        cases delay with
        | none => exact h
        | some delay => exact iff_of_true h (by simp [Caller.force])
      simp only [resume] at hresume
      split at hresume
      · cases hresume
        exact h
      · split at hresume <;> cases hresume
        · exact hdelay _
        · exact h

theorem kept_trying : Kept τ Trying where
  later h _ := h
  launched d now base := by
    cases base <;> simp [Trying, Tried, HasBegun]
  ended _ := trivial
  goes {_ d told place place'} s h hgoes := by
    have hquiet : (∀ force, s.reportOf d place ≠ some (.begun force)) → Tried (HasBegun told) place' →
        Trying false d s.now (told ++ ((s.reportOf d place).map (Prod.mk s.now)).toList) place' := by
      intro hreport htried
      rwa [Trying, propext (hasBegun_append hreport)]
    cases hgoes with
    | moved v _ _ sees hstop hnow hnext =>
      refine hquiet (fun force => ?_) (h.moved hnext)
      cases hnext with
      | cycleStarted | cycleStopped =>
        rw [State.reportOf]
        split <;> exact nofun
      | _ => exact nofun
    | begun caller job hbegins =>
      rw [State.reportOf, if_pos hbegins]
      cases caller with
      | worker first attempt => exact hasBegun_begun told s.now _
      | retry attempt => trivial
    | refused caller hbegins =>
      refine hquiet (fun force => ?_) ?_
      · rw [State.reportOf, if_neg (by simp [hbegins])]
        exact nofun
      · cases caller with
        | worker first attempt => exact h
        | retry attempt => trivial
    | synced caller job cancelled failed =>
      refine hquiet nofun ?_
      cases caller with
      | worker first attempt => exact ⟨h, Outcome.of_ne_busy cancelled failed⟩
      | retry attempt => trivial
    | reported caller job outcome =>
      refine hquiet nofun ?_
      cases caller with
      | worker first attempt =>
        obtain ⟨hbegun, hbusy⟩ := h
        cases outcome with
        | busy => exact absurd rfl hbusy
        | done | retry | cancelled => exact hbegun
      | retry attempt => trivial
    | resumed caller outcome place' spawns hresume => exact hquiet nofun (h.resumed hresume)

/-- A run is not forced exactly where it is the first of a worker. -/
theorem unforced_iff (config : RuntimeConfig) (transport : τ) (es : List (Event τ)) (e : Event τ) (i : ℕ)
    (t : Task) (now : ℕ) (force : Bool) (ht : ((start config transport).run es).tasks[i]? = some t)
    (hbegun : ((start config transport).run es).report i e = some (now, .begun force)) :
    force = false ↔
      t.chain = false ∧ ∀ r ∈ history (start config transport) i es, ∀ force, r.2 ≠ .begun force := by
  obtain ⟨t', caller, ht', hplace, -, rfl, -⟩ := report_of_begun hbegun
  cases ht.symm.trans ht'
  have hready : caller.Ready t.chain t.dataset _ _ := ((steady_run config transport es).at_place ht hplace).1
  have htried : Tried (HasBegun _) (.beginning caller) :=
    (told_run kept_trying config transport es).at_place ht hplace
  cases caller with
  | worker first attempt =>
    have hnone : (∀ r ∈ history (start config transport) i es, ∀ force, r.2 ≠ .begun force) ↔
        ¬ HasBegun (history (start config transport) i es) := by simp [HasBegun]
    have hforce : HasBegun (history (start config transport) i es) ↔ (Caller.worker first attempt).force = true :=
      htried
    rw [hnone, hforce]
    simp [hready.allowed.1]
  | retry attempt => simp [Caller.force, hready.allowed.1]

theorem unforced_iff_first : false = false ↔ false = false ∧
    ∀ r ∈ history (start jsonConfig ()) 0 firstSteps, ∀ force, r.2 ≠ .begun force :=
  unforced_iff jsonConfig () firstSteps (.act 0 .go) 0 ⟨.game, false, 0, .beginning (.worker true 0)⟩ 0 false
    (by decide +kernel) (by decide +kernel)

end PrtsMcp.Workers
