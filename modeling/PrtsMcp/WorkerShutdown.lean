import PrtsMcp.WorkerRetries

/-!
# Shutdown of background workers

Once the coordinator stops, no run begins, every task that is not in the middle of a sync goes on without
waiting for a timer, and a bounded number of steps ends them all.
-/
namespace PrtsMcp.Workers

open Jobs (Dataset)

variable {τ : Type}

/-! ## Wakes -/

/-- The places from which a task may come to wait without looking at `stopping` before. -/
def Place.exposed : Place → Bool
  | .overlapped _ _ _ | .delayed _ _ _ | .reading | .polling _ | .sleeping _ _ => true
  | .beginning _ | .running _ _ | .reporting _ _ _ | .returned _ _ => true
  | _ => false

/-- A task that may come to wait has yet to see that the coordinator stops. -/
structure Awake (s : State τ) : Prop where
  seen : Every (fun _ t => t.seen ≤ s.version) s.tasks
  unseen : s.jobs.coordinator.stopping = true →
    Every (fun _ t => t.place.exposed = true → t.seen < s.version) s.tasks

theorem exposed_of_next {v : View} {place place' : Place} {sees : Bool} (h : Next v place place' sees)
    (hstop : v.stopping = true) (hexposed : place'.exposed = true) : place.exposed = true ∧ sees = false := by
  cases h with
  | intervalRead => exact ⟨rfl, rfl⟩
  | attempted _ _ hopen | rechecked _ _ _ hopen | scheduled hopen | checked _ _ hopen | started _ hopen =>
    cases hstop.symm.trans hopen
  | _ => cases hexposed

theorem stopping_onJobs {s : State τ} {e : Jobs.Event RuntimeConfig τ} (h : s.jobs.coordinator.stopping = true) :
    (s.onJobs e).jobs.coordinator.stopping = true :=
  (Jobs.step_change s.jobs e).stopping h

theorem begins_of_stopping {s : State τ} (h : s.jobs.coordinator.stopping = true) (d : Dataset) :
    s.begins d = false := by
  rw [State.begins, Jobs.State.begin, if_pos h]

/-- The coordinator is stopped by an operator only, who wakes the receivers. -/
theorem stopping_of_step {s : Jobs.System RuntimeConfig τ} {e : Jobs.Event RuntimeConfig τ}
    (h : (s.step e).coordinator.stopping = true) : s.coordinator.stopping = true ∨ e = .stop := by
  have hc := Jobs.step_change s e
  generalize s.step e = s' at hc h
  cases hc with
  | stopped => exact .inr rfl
  | _ => exact .inl h

section Wakes

variable {s s' : State τ} {e : Event τ}

theorem Awake.setTask (h : Awake s) {i : ℕ} {t t' : Task} (ht : s.tasks[i]? = some t) (hseen : t'.seen ≤ s.version)
    (hexposed : s.jobs.coordinator.stopping = true → t'.place.exposed = true →
      t'.seen = t.seen ∧ t.place.exposed = true) :
    Awake (s.setTask i t') where
  seen := h.seen.set hseen
  unseen hstop := (h.unseen hstop).set fun hplace => by
    obtain ⟨hsame, hold⟩ := hexposed hstop hplace
    rw [hsame]
    exact h.unseen hstop i t ht hold

theorem Awake.goto (h : Awake s) {i : ℕ} {t : Task} (place : Place) (ht : s.tasks[i]? = some t)
    (hexposed : place.exposed = true → t.place.exposed = true) : Awake (s.setTask i (t.goto place)) :=
  h.setTask ht (h.seen i t ht) fun _ hplace => ⟨rfl, hexposed hplace⟩

theorem Awake.spawn (h : Awake s) (d : Dataset) (chain : Bool) (base : Option ℕ) :
    Awake (s.spawn ⟨d, chain, 0, .launching base⟩) where
  seen := h.seen.spawn (Nat.zero_le _)
  unseen hstop := (h.unseen hstop).spawn nofun

theorem Awake.onJobs (h : Awake s) (e : Jobs.Event RuntimeConfig τ) (he : e ≠ .stop) : Awake (s.onJobs e) where
  seen := h.seen
  unseen hstop := h.unseen ((stopping_of_step hstop).resolve_right he)

theorem Awake.change (h : Awake s) (hc : Change s e s') : Awake s' := by
  cases hc with
  | idle | absent | waited => exact h
  | skipped => exact ⟨h.seen, h.unseen⟩
  | launched d launches =>
    have hlaunches : Awake { s with launches } := ⟨h.seen, h.unseen⟩
    exact hlaunches.spawn d false none
  | moved i t signal place sees ht hnext =>
    refine h.setTask ht ?_ fun hstop hplace => ?_
    · have := h.seen i t ht
      dsimp only
      split <;> omega
    · obtain ⟨hold, rfl⟩ := exposed_of_next (next_of hnext) hstop hplace
      exact ⟨rfl, hold⟩
  | begun i t signal caller ht hplace =>
    exact (h.goto _ ht fun _ => by rw [hplace]; rfl).onJobs (request t.dataset) nofun
  | refused i t signal caller ht hplace => exact h.goto _ ht fun _ => by rw [hplace]; rfl
  | synced i t caller job failed ht hplace => exact h.goto _ ht fun _ => by rw [hplace]; rfl
  | reported i t signal caller job outcome ht hplace =>
    exact (h.goto _ ht fun _ => by rw [hplace]; rfl).onJobs (.finish job outcome.status outcome.result) nofun
  | resumed i t signal caller outcome place ht hplace => exact h.goto _ ht fun _ => by rw [hplace]; rfl
  | retried i t signal caller outcome place ht hplace =>
    exact (h.goto _ ht fun _ => by rw [hplace]; rfl).spawn t.dataset true _
  | unwound i t ht => exact h.goto .ended ht nofun
  | dropped i t job ht => exact (h.goto .ended ht nofun).onJobs (.drop job) nofun
  | operated e =>
    have hversion : s.version ≤ if s.notifies e then s.version + 1 else s.version := by split <;> omega
    refine ⟨h.seen.imp fun _ _ hseen => hseen.trans hversion, fun hstop => ?_⟩
    rcases stopping_of_step hstop with hold | rfl
    · exact (h.unseen hold).imp fun _ _ hseen hplace => (hseen hplace).trans_le hversion
    · exact h.seen.imp fun _ _ hseen _ => Nat.lt_succ_of_le hseen
  | ticked => exact ⟨h.seen, h.unseen⟩

theorem awake_run (config : RuntimeConfig) (transport : τ) (es : List (Event τ)) :
    Awake ((start config transport).run es) := by
  induction es using List.reverseRecOn with
  | nil => exact ⟨nofun, fun _ => nofun⟩
  | append_singleton es e ih =>
    rw [run_concat]
    exact ih.change (step_change _ e)

end Wakes

/-! ## Cancelled jobs -/

/-- Jobs that have not ended are told to stop. -/
def Cancelled (s : Jobs.System RuntimeConfig τ) : Prop :=
  s.coordinator.stopping = true → ∀ j ∈ s.coordinator.jobs, j.mask ≠ 0 → j.control.cancelled ≠ 0

theorem cancelled_cancel {code : ℕ} {j : Jobs.Job} (hcode : code ≠ 0) (hmask : j.mask ≠ 0) :
    (j.cancel code).control.cancelled ≠ 0 := by
  simpa [Jobs.Job.cancel, hmask, Jobs.Control.cancel] using hcode

theorem Cancelled.step {s : Jobs.System RuntimeConfig τ} (hs : Jobs.Owned s) (h : Cancelled s)
    (e : Jobs.Event RuntimeConfig τ) : Cancelled (s.step e) := by
  have hc := Jobs.step_change s e
  generalize s.step e = s' at hc ⊢
  intro hstop j' hj' hmask
  cases hc with
  | idle => exact h hstop j' hj' hmask
  | begun target origin mask wait hopen => cases hstop.symm.trans hopen
  | ended e f =>
    rw [Jobs.jobs_finish hs] at hj'
    obtain ⟨j, hj, rfl⟩ := List.mem_map.mp ((Jobs.trimHistory_sublist _).subset hj')
    unfold Jobs.Ending.apply at hmask ⊢
    split
    · next hid =>
      rw [if_pos hid] at hmask
      exact absurd rfl hmask
    · next hid =>
      rw [if_neg hid] at hmask
      exact h hstop j hj hmask
  | asked id =>
    rw [Jobs.jobs_cancel hs] at hj'
    obtain ⟨j, hj, rfl⟩ := List.mem_map.mp hj'
    split
    · next hid =>
      rw [if_pos hid, Jobs.mask_cancel] at hmask
      exact cancelled_cancel (by decide) hmask
    · next hid =>
      rw [if_neg hid] at hmask
      exact h hstop j hj hmask
  | stopped =>
    obtain ⟨j, hj, rfl⟩ := List.mem_map.mp hj'
    rw [Jobs.mask_cancel] at hmask
    exact cancelled_cancel (by decide) hmask
  | replaced => exact h hstop j' hj' hmask

theorem cancelled_jobs {s : Jobs.System RuntimeConfig τ} (hs : Jobs.Owned s) (h : Cancelled s)
    (es : List (Jobs.Event RuntimeConfig τ)) : Cancelled (s.run es) := by
  induction es generalizing s with
  | nil => exact h
  | cons e es ih => exact ih (hs.change (Jobs.step_change s e)) (h.step hs e)

theorem cancelled_run (config : RuntimeConfig) (transport : τ) (es : List (Event τ)) :
    Cancelled ((start config transport).run es).jobs := by
  induction es using List.reverseRecOn with
  | nil => exact nofun
  | append_singleton es e ih =>
    have hholding := holding_run (holding_start config transport) es
    rw [run_concat]
    obtain ⟨es', hjobs⟩ := onJobs_run ((start config transport).run es) e
    rw [hjobs]
    exact cancelled_jobs hholding.owned ih es'

/-- A sync that goes on when the coordinator stops is told so. -/
theorem cancelled_of_running {s : State τ} (hs : Holding s) (hcancelled : Cancelled s.jobs)
    (hstop : s.jobs.coordinator.stopping = true) {i : ℕ} {t : Task} {caller : Caller} {job : ℕ}
    (ht : s.tasks[i]? = some t) (hplace : t.place = .running caller job) : s.cancelled job = true := by
  obtain ⟨j, hj, hid, hmask⟩ := (hs.held i t ht job (by rw [hplace]; rfl)).listed
  have hrunning : j.mask ≠ 0 := hmask ▸ t.dataset.mask.2
  have hfind : s.jobs.coordinator.jobs.find? (fun j => j.id = job) = some j := by
    cases hfound : s.jobs.coordinator.jobs.find? fun j => j.id = job with
    | none => exact absurd hid (by simpa using List.find?_eq_none.mp hfound j hj)
    | some k =>
      have hk : k.id = job := by simpa using List.find?_some hfound
      rw [hs.owned.eq_of_id (List.mem_of_find?_eq_some hfound) hj (hk.trans hid.symm)]
  rw [State.cancelled, hfind]
  simpa using hcancelled hstop j hj hrunning

/-! ## Steps that are left -/

/-- More than the steps that a task still takes once the coordinator stops, and the chain that it spawns. -/
def Place.rank : Place → ℕ
  | .ended => 0
  | .cycle _ | .attempting _ _ | .rechecking _ _ _ | .scheduling | .checking _ _ | .starting _ => 1
  | .launching none | .overlapped _ _ _ | .delayed _ _ _ | .polling _ | .sleeping _ _ | .chaining _ _ => 2
  | .launching (some _) | .reading => 3
  | .returned _ _ => 6
  | .beginning _ | .reporting _ _ _ => 7
  | .running _ _ => 8

def ranks (tasks : List Task) : ℕ := (tasks.map fun t => t.place.rank).sum

def State.rank (s : State τ) : ℕ := ranks s.tasks + 3 * s.launches.length

/-- A step that launches a worker or takes a task further. -/
def State.stirs (s : State τ) (e : Event τ) : Bool :=
  (s.step e).tasks ≠ s.tasks || (s.step e).launches ≠ s.launches

/-- How many steps of a run do so. -/
def stirring (s : State τ) : List (Event τ) → ℕ
  | [] => 0
  | e :: es => (if s.stirs e then 1 else 0) + stirring (s.step e) es

theorem ranks_set {tasks : List Task} {i : ℕ} {t t' : Task} (ht : tasks[i]? = some t) :
    ranks (tasks.set i t') + t.place.rank = ranks tasks + t'.place.rank := by
  obtain ⟨hi, rfl⟩ := List.getElem?_eq_some_iff.mp ht
  induction tasks generalizing i with
  | nil => cases hi
  | cons u tasks ih =>
    cases i with
    | zero =>
      simp only [ranks, List.set_cons_zero, List.map_cons, List.sum_cons, List.getElem_cons_zero]
      omega
    | succ i =>
      have hi' : i < tasks.length := by simpa using hi
      have := ih hi' (List.getElem?_eq_getElem hi')
      simp only [ranks, List.set_cons_succ, List.map_cons, List.sum_cons, List.getElem_cons_succ] at this ⊢
      omega

theorem rank_of_next {v : View} {place place' : Place} {sees : Bool} (h : Next v place place' sees)
    (hstop : v.stopping = true) : place'.rank < place.rank := by
  cases h with
  | cycleStarted _ hopen | attempted _ _ hopen | rechecked _ _ _ hopen | scheduled hopen | checked _ _ hopen
  | started _ hopen =>
    cases hstop.symm.trans hopen
  | _ => simp [Place.rank]

theorem rank_of_resume {d : Dataset} {now : ℕ} {caller : Caller} {outcome : Outcome} {place : Place} {spawns : Bool}
    (h : resume d now caller outcome = (place, spawns)) : place.rank ≤ 2 := by
  have hdelay : ∀ first attempt (delay : Option ℕ), (delay.elim Place.scheduling fun delay =>
      .delayed first (attempt + 1) (now + delay)).rank ≤ 2 := by
    intro first attempt delay
    cases delay <;> simp [Place.rank]
  revert h
  fun_cases resume <;> rintro ⟨rfl, rfl⟩ <;> first | exact hdelay _ _ _ | simp [Place.rank]

theorem rank_setTask {s : State τ} {i : ℕ} {t t' : Task} (ht : s.tasks[i]? = some t) 
    (hrank : t'.place.rank < t.place.rank) : (s.setTask i t').rank < s.rank := by
  have hset : ranks (s.tasks.set i t') + t.place.rank = ranks s.tasks + t'.place.rank := ranks_set ht
  simp only [State.rank, State.setTask_tasks, State.setTask_launches]
  omega

theorem rank_spawn (s : State τ) (t : Task) : (s.spawn t).rank = s.rank + t.place.rank := by
  simp only [State.rank, ranks, State.spawn_tasks, State.spawn_launches, List.map_append, List.map_singleton,
    List.sum_append, List.sum_singleton]
  omega

theorem rank_pos {place : Place} (h : place ≠ .ended) : Place.ended.rank < place.rank := by
  cases place with
  | ended => exact absurd rfl h
  | launching base => cases base <;> simp [Place.rank]
  | _ => simp [Place.rank]

/-- Where the coordinator stops, a step leaves the tasks as they are or comes closer to the end. -/
theorem rank_of_change {s s' : State τ} {e : Event τ} (hc : Change s e s')
    (hstop : s.jobs.coordinator.stopping = true) :
    (s'.tasks = s.tasks ∧ s'.launches = s.launches ∧
        ∀ i signal t, e = .act i signal → s.tasks[i]? = some t → t.place.waits = true) ∨ s'.rank < s.rank := by
  cases hc with
  | idle e hact => exact .inl ⟨rfl, rfl, fun i signal t he _ => absurd he (hact i signal)⟩
  | absent i signal hnone =>
    refine .inl ⟨rfl, rfl, fun k signal' t he ht => ?_⟩
    cases he
    cases hnone.symm.trans ht
  | waited i t signal ht hwaits =>
    refine .inl ⟨rfl, rfl, fun k signal' u he hu => ?_⟩
    cases he
    cases ht.symm.trans hu
    exact hwaits
  | operated e => exact .inl ⟨rfl, rfl, fun _ _ _ he => by cases he⟩
  | ticked ms => exact .inl ⟨rfl, rfl, fun _ _ _ he => by cases he⟩
  | skipped d launches hlaunches =>
    refine .inr ?_
    simp only [State.rank, hlaunches, List.length_cons]
    omega
  | launched d launches hlaunches =>
    refine .inr ?_
    rw [rank_spawn]
    simp only [State.rank, hlaunches, List.length_cons, Place.rank]
    omega
  | moved i t signal place sees ht hnext => exact .inr (rank_setTask ht (rank_of_next (next_of hnext) hstop))
  | begun i t signal caller ht hplace hbegins =>
    rw [begins_of_stopping hstop] at hbegins
    cases hbegins
  | refused i t signal caller ht hplace =>
    refine .inr (rank_setTask ht ?_)
    simp [hplace, Place.rank, Task.goto]
  | synced i t caller job failed ht hplace =>
    refine .inr (rank_setTask ht ?_)
    simp [hplace, Place.rank, Task.goto]
  | reported i t signal caller job outcome ht hplace =>
    have hset : (s.setTask i (t.goto (.returned caller outcome))).rank < s.rank := by
      refine rank_setTask ht ?_
      simp [hplace, Place.rank, Task.goto]
    exact .inr hset
  | resumed i t signal caller outcome place ht hplace hresume =>
    have hle := rank_of_resume hresume
    refine .inr (rank_setTask ht ?_)
    rw [hplace]
    exact Nat.lt_of_le_of_lt hle (by simp [Place.rank])
  | retried i t signal caller outcome place ht hplace hresume =>
    have hle := rank_of_resume hresume
    have hset : ranks (s.tasks.set i (t.goto place)) + t.place.rank = ranks s.tasks + place.rank := ranks_set ht
    have hreturned : t.place.rank = 6 := by rw [hplace, Place.rank]
    have hlaunching : (Place.launching (some s.now)).rank = 3 := rfl
    refine .inr ?_
    rw [rank_spawn, hlaunching]
    simp only [State.rank, State.setTask_tasks, State.setTask_launches]
    omega
  | unwound i t ht =>
    by_cases hplace : t.place = .ended
    · refine .inl ⟨?_, rfl, fun _ _ _ he => by cases he⟩
      obtain ⟨hi, rfl⟩ := List.getElem?_eq_some_iff.mp ht
      have hsame : s.tasks[i].goto .ended = s.tasks[i] := by rw [← hplace]; rfl
      rw [State.setTask_tasks, hsame, List.set_getElem_self]
    · exact .inr (rank_setTask ht (rank_pos hplace))
  | dropped i t job ht hjob =>
    have hplace : t.place ≠ .ended := by
      intro hended
      rw [hended] at hjob
      cases hjob
    have hset : (s.setTask i (t.goto .ended)).rank < s.rank := rank_setTask ht (rank_pos hplace)
    exact .inr hset

/-! ## Every run -/

theorem stopping_of_change {s s' : State τ} {e : Event τ} (hc : Change s e s')
    (hstop : s.jobs.coordinator.stopping = true) : s'.jobs.coordinator.stopping = true := by
  cases hc with
  | begun | reported | dropped | operated => exact stopping_onJobs hstop
  | _ => exact hstop

theorem stirring_le {s : State τ} (hstop : s.jobs.coordinator.stopping = true) (es : List (Event τ)) :
    stirring s es + (s.run es).rank ≤ s.rank := by
  induction es generalizing s with
  | nil => exact (Nat.zero_add _).le
  | cons e es ih =>
    have hc := step_change s e
    have hrest := ih (stopping_of_change hc hstop)
    have hrun : (s.step e).run es = s.run (e :: es) := rfl
    rw [hrun] at hrest
    rw [stirring]
    rcases rank_of_change hc hstop with ⟨htasks, hlaunches, -⟩ | hlt
    · have hsame : (s.step e).rank = s.rank := by rw [State.rank, State.rank, htasks, hlaunches]
      have hquiet : s.stirs e = false := by simp [State.stirs, htasks, hlaunches]
      rw [hquiet]
      simp only [Bool.false_eq_true, if_false]
      omega
    · split <;> omega

theorem length_eq_counts (tasks : List Task) : tasks.length =
    (tasks.countP (works .game) + tasks.countP (works .story) + tasks.countP (works .database) +
      tasks.countP (works .images)) +
    (tasks.countP (chains .game) + tasks.countP (chains .story) + tasks.countP (chains .database) +
      tasks.countP (chains .images)) := by
  induction tasks with
  | nil => rfl
  | cons t tasks ih =>
    obtain ⟨d, chain, seen, place⟩ := t
    simp only [List.length_cons, List.countP_cons, ih, works, chains]
    cases d <;> cases chain <;> simp <;> omega

theorem length_launches (launches : List Dataset) : launches.length =
    launches.count .game + launches.count .story + launches.count .database + launches.count .images := by
  induction launches with
  | nil => rfl
  | cons d launches ih =>
    simp only [List.length_cons, List.count_cons, ih]
    cases d <;> simp <;> omega

theorem ranks_le (tasks : List Task) : ranks tasks ≤ 8 * tasks.length := by
  have hle : ∀ place : Place, place.rank ≤ 8 := by
    intro place
    cases place with
    | launching base => cases base <;> simp [Place.rank]
    | _ => simp [Place.rank]
  have hsum := List.sum_le_card_nsmul (tasks.map fun t => t.place.rank) 8 (by simp [hle])
  rw [List.length_map, smul_eq_mul, mul_comm] at hsum
  exact hsum

/-- There are four workers and three chains at most. -/
theorem rank_run_le (config : RuntimeConfig) (transport : τ) (es : List (Event τ)) :
    ((start config transport).run es).rank ≤ 56 := by
  have hsingle := single_run config transport es
  have hlength := length_eq_counts ((start config transport).run es).tasks
  have hlaunches := length_launches ((start config transport).run es).launches
  have hranks := ranks_le ((start config transport).run es).tasks
  have hgame := hsingle.worker .game
  have hstory := hsingle.worker .story
  have hdatabase := hsingle.worker .database
  have himages := hsingle.worker .images
  have hgame' := hsingle.chains_le .game
  have hstory' := hsingle.chains_le .story
  have hdatabase' := hsingle.chains_database
  have himages' := hsingle.chains_le .images
  rw [State.rank]
  omega

theorem stirs_of_rank {s : State τ} {e : Event τ} (h : (s.step e).rank < s.rank) : s.stirs e = true := by
  by_contra hquiet
  simp only [State.stirs, Bool.or_eq_true, decide_eq_true_eq, not_or, not_not] at hquiet
  rw [State.rank, State.rank, hquiet.1, hquiet.2] at h
  exact lt_irrefl _ h

theorem act_of_next {s : State τ} {i : ℕ} {t : Task} {signal : Signal} {place : Place} {sees : Bool}
    (h : t.place.next (s.view t) signal = some (place, sees)) :
    s.act i t signal = s.setTask i { t with place, seen := if sees then s.version else t.seen } := by
  unfold State.act
  split
  · next hplace =>
    rw [hplace] at h
    cases h
  · next hplace =>
    rw [hplace] at h
    cases h
  · next hplace =>
    rw [hplace] at h
    cases h
  · next hplace =>
    rw [hplace] at h
    cases h
  · rw [h]

/-- A task that waits goes on when it sees that the configuration or the coordinator has changed. -/
theorem rank_changed {s : State τ} {i : ℕ} {t : Task} (ht : s.tasks[i]? = some t) (hwaits : t.place.waits = true)
    (hunseen : t.seen < s.version) (hrunning : t.place.job = none) (hended : t.place ≠ .ended) :
    (s.step (.act i .changed)).rank < s.rank := by
  have hview : (s.view t).unseen = true := decide_eq_true hunseen
  have hmoves : ∀ place, t.place.next (s.view t) .changed = some (place, true) → place.rank < t.place.rank →
      (s.step (.act i .changed)).rank < s.rank := by
    intro place hnext hrank
    rw [State.step, ht, Option.elim_some, act_of_next hnext]
    exact rank_setTask ht hrank
  cases hplace : t.place with
  | overlapped first attempt due =>
    exact hmoves (.attempting first attempt) (by rw [hplace, Place.next, if_pos hview]) (by simp [hplace, Place.rank])
  | delayed first attempt due =>
    exact hmoves (.rechecking first attempt due) (by rw [hplace, Place.next, if_pos hview])
      (by simp [hplace, Place.rank])
  | polling due => exact hmoves .scheduling (by rw [hplace, Place.next, if_pos hview]) (by simp [hplace, Place.rank])
  | sleeping attempt due =>
    exact hmoves (.checking attempt due) (by rw [hplace, Place.next, if_pos hview]) (by simp [hplace, Place.rank])
  | running =>
    rw [hplace] at hrunning
    cases hrunning
  | ended => exact absurd hplace hended
  | _ =>
    rw [hplace] at hwaits
    cases hwaits

/-- Every task has ended, is in a sync that is told to stop, or goes on without a timer. -/
def Unblocked (s : State τ) : Prop :=
  Every (fun i t => t.place = .ended ∨ (∃ caller job, t.place = .running caller job ∧ s.cancelled job = true) ∨
    s.stirs (.act i .go) = true ∨ s.stirs (.act i .changed) = true) s.tasks

theorem unblocked_run (config : RuntimeConfig) (transport : τ) (es : List (Event τ))
    (hstop : ((start config transport).run es).jobs.coordinator.stopping = true) :
    Unblocked ((start config transport).run es) := by
  have hholding := holding_run (holding_start config transport) es
  have hawake := awake_run config transport es
  intro i t ht
  cases hwaits : t.place.waits with
  | false =>
    rcases rank_of_change (step_change _ (.act i .go)) hstop with ⟨-, -, hquiet⟩ | hlt
    · cases hwaits.symm.trans (hquiet i .go t rfl ht)
    · exact .inr (.inr (.inl (stirs_of_rank hlt)))
  | true =>
    by_cases hended : t.place = .ended
    · exact .inl hended
    cases hjob : t.place.job with
    | none =>
      have hexposed : t.place.exposed = true := by
        cases hplace : t.place with
        | overlapped | delayed | polling | sleeping | running => rfl
        | ended => exact absurd hplace hended
        | _ =>
          rw [hplace] at hwaits
          cases hwaits
      have hunseen := hawake.unseen hstop i t ht hexposed
      exact .inr (.inr (.inr (stirs_of_rank (rank_changed ht hwaits hunseen hjob hended))))
    | some job =>
      cases hplace : t.place with
      | running caller job =>
        have hcancelled := cancelled_of_running hholding (cancelled_run config transport es) hstop ht hplace
        exact .inr (.inl ⟨caller, job, rfl, hcancelled⟩)
      | reporting caller job outcome =>
        rw [hplace] at hwaits
        cases hwaits
      | _ =>
        rw [hplace] at hjob
        cases hjob

theorem stopping_run {s : State τ} (hstop : s.jobs.coordinator.stopping = true) (es : List (Event τ)) :
    (s.run es).jobs.coordinator.stopping = true := by
  induction es generalizing s with
  | nil => exact hstop
  | cons e es ih => exact ih (stopping_of_change (step_change s e) hstop)

theorem stopping_stop (s : State τ) : (s.step (.operate .stop)).jobs.coordinator.stopping = true := by
  rw [State.step, if_neg (by simp [State.owned, Jobs.Event.ending])]
  rfl

/-- After `stop` no run begins, no task waits for a timer, and 56 steps of the tasks end them all. -/
theorem stop_quiesces (config : RuntimeConfig) (transport : τ) (before after : List (Event τ)) :
    (∀ i e now force, ((start config transport).run (before ++ .operate .stop :: after)).report i e ≠
        some (now, .begun force)) ∧
      Unblocked ((start config transport).run (before ++ .operate .stop :: after)) ∧
      stirring ((start config transport).run (before ++ [.operate .stop])) after ≤ 56 := by
  have hstopped : ((start config transport).run (before ++ [.operate .stop])).jobs.coordinator.stopping = true := by
    rw [run_concat]
    exact stopping_stop _
  have hrun : (start config transport).run (before ++ .operate .stop :: after) =
      ((start config transport).run (before ++ [.operate .stop])).run after := by
    simp [State.run]
  have hstop : ((start config transport).run (before ++ .operate .stop :: after)).jobs.coordinator.stopping = true := by
    rw [hrun]
    exact stopping_run hstopped after
  refine ⟨fun i e now force hbegun => ?_, unblocked_run config transport _ hstop, ?_⟩
  · obtain ⟨t, caller, -, -, hbegins, -, -⟩ := report_of_begun hbegun
    rw [begins_of_stopping hstop] at hbegins
    cases hbegins
  · have hle := stirring_le hstopped after
    have hrank := rank_run_le config transport (before ++ [.operate .stop])
    omega

end PrtsMcp.Workers
