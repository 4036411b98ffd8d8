import PrtsMcp.Json
import PrtsMcp.Runs

/-!
# Sync jobs

The coordinator that owns the background and operator sync jobs of a server process, and the
invariant of its job list under every order of its operations.
-/
namespace PrtsMcp.Jobs

open Runs

variable {κ τ : Type}

/-- The configuration and the transport a job runs with. -/
structure Snapshot (κ τ : Type) where
  config : κ
  transport : τ
  revision : UInt64

/-- How a job can end. -/
inductive Outcome where
  | succeeded
  | failed
  | cancelled
  deriving DecidableEq, Repr

inductive Status where
  | running
  | cancelling
  | ended (outcome : Outcome)
  deriving DecidableEq, Repr

/-- The lock budget of a job, and the exit code it was cancelled with (0 for none). -/
structure Control where
  remaining : Option ℕ
  cancelled : ℕ
  deriving DecidableEq, Repr

def Control.new (wait : ℕ) : Control := ⟨some wait, 0⟩

def Control.background : Control := ⟨none, 0⟩

def Control.cancel (code : ℕ) (c : Control) : Control := { c with cancelled := code }

/-- The fields of the job's JSON value are fields here. -/
structure Job where
  id : ℕ
  target : String
  origin : String
  status : Status
  configRevision : UInt64
  result : Json
  mask : UInt8
  control : Control

/-- The masks that callers reserve: one bit for each dataset. -/
abbrev Mask := { mask : UInt8 // mask ≠ 0 }

/-- The datasets of the background workers. -/
inductive Dataset where
  | game
  | story
  | database
  | images

def Dataset.mask : Dataset → Mask
  | .game => ⟨1, by decide⟩
  | .story => ⟨2, by decide⟩
  | .database => ⟨4, by decide⟩
  | .images => ⟨8, by decide⟩

/-- The mask of an operator's target. -/
def submitMask : String → Except String Mask
  | "game" => .ok ⟨7, by decide⟩
  | "images" => .ok ⟨8, by decide⟩
  | "all" => .ok ⟨15, by decide⟩
  | _ => .error "未知同步目标"

structure State (κ τ : Type) where
  snapshot : Snapshot κ τ
  jobs : List Job
  stopping : Bool

/-- The handle of a job; its control is the one in the job list. -/
structure Running (κ τ : Type) where
  id : ℕ
  snapshot : Snapshot κ τ

def Coordinator.new (config : κ) (transport : τ) : State κ τ := ⟨⟨config, transport, 1⟩, [], false⟩

/-- `replace`: a new configuration, for a caller who has seen the current one. -/
def State.replace (s : State κ τ) (expected : UInt64) (config : κ) (transport : τ) :
    Except String (UInt64 × State κ τ) :=
  if s.stopping then .error "实例正在停止"
  else if s.snapshot.revision ≠ expected then .error "配置 revision 已变化，请重新 diff"
  else .ok (expected + 1, { s with snapshot := ⟨config, transport, expected + 1⟩ })

/-- The entry that `begin` adds. -/
def newJob (s : State κ τ) (id : ℕ) (target origin : String) (mask : UInt8) (wait : ℕ) : Job :=
  ⟨id, target, origin, .running, s.snapshot.revision, .null, mask,
    if origin = "background" then .background else .new wait⟩

/-- `begin`, with the id it draws. -/
def State.begin (s : State κ τ) (id : ℕ) (target origin : String) (mask : UInt8) (wait : ℕ) :
    Except String (Running κ τ × State κ τ) :=
  if s.stopping then .error "实例正在停止，不再接受同步任务"
  else match s.jobs.find? fun j => j.mask &&& mask ≠ 0 with
    | some job => .error ("同步目标正被任务 " ++ toString job.id ++ " 使用")
    | none => .ok (⟨id, s.snapshot⟩,
        { s with jobs := s.jobs ++ [newJob s id target origin mask wait] })

/-- A job that has ended holds no reservation. -/
def Job.isDone (j : Job) : Bool := j.mask = 0

/-- `iter_mut().find(..)`: change the first job of an id. -/
def onJob (id : ℕ) (f : Job → Job) : List Job → List Job
  | [] => []
  | j :: jobs => if j.id = id then f j :: jobs else j :: onJob id f jobs

/-- The loop of `finish`: drop the first completed job while more than 100 are kept. -/
def trimHistory : ℕ → List Job → List Job
  | 0, jobs => jobs
  | fuel + 1, jobs =>
    if jobs.countP Job.isDone > 100 then trimHistory fuel (jobs.eraseP Job.isDone) else jobs

def Job.end (status : Outcome) (result : Json) (j : Job) : Job :=
  { j with mask := 0, status := .ended status, result := result }

def State.finish (s : State κ τ) (id : ℕ) (status : Outcome) (result : Json) : State κ τ :=
  let jobs := onJob id (Job.end status result) s.jobs
  { s with jobs := trimHistory jobs.length jobs }

def State.show (s : State κ τ) (id : ℕ) : Except String Job :=
  match s.jobs.find? fun j => j.id = id with
  | some j => .ok j
  | none => .error "任务不存在，可能已过期或实例已重启"

/-- Ask a job that has not ended to stop. -/
def Job.cancel (code : ℕ) (j : Job) : Job :=
  if j.mask ≠ 0 then { j with control := j.control.cancel code, status := .cancelling } else j

def State.cancel (s : State κ τ) (id : ℕ) : Except String (Job × State κ τ) :=
  match s.jobs.find? fun j => j.id = id with
  | some j => .ok (j.cancel 130, { s with jobs := onJob id (Job.cancel 130) s.jobs })
  | none => .error "任务不存在，可能已过期或实例已重启"

def State.stop (s : State κ τ) : State κ τ :=
  { s with stopping := true, jobs := s.jobs.map (Job.cancel 143) }

/-! ## The process around it -/

/-- The coordinator, the handles that jobs hold, and the next id. -/
structure System (κ τ : Type) where
  coordinator : State κ τ
  running : List (Running κ τ)
  fresh : ℕ

def System.new (config : κ) (transport : τ) : System κ τ := ⟨Coordinator.new config transport, [], 0⟩

/-- What can happen. Only the owner of a handle finishes or drops it. -/
inductive Event (κ τ : Type) where
  | begin (target origin : String) (mask : Mask) (wait : ℕ)
  | finish (id : ℕ) (status : Outcome) (result : Json)
  | drop (id : ℕ)
  | cancel (id : ℕ)
  | stop
  | replace (expected : UInt64) (config : κ) (transport : τ)

structure Ending where
  id : ℕ
  status : Outcome
  result : Json

/-- `Running::finish` and `Running::drop`: what the owner of a handle reports. -/
def Event.ending : Event κ τ → Option Ending
  | .finish id status result => some ⟨id, status, result⟩
  | .drop id => some ⟨id, .failed, .obj [("message", .str "同步任务意外结束")]⟩
  | _ => none

def System.holds (s : System κ τ) (id : ℕ) : Bool := s.running.any fun r => r.id = id

/-- The report ends the job and gives the handle back. -/
def System.release (s : System κ τ) (f : Ending) : System κ τ :=
  if s.holds f.id then
    { s with
      coordinator := s.coordinator.finish f.id f.status f.result
      running := s.running.filter fun r => r.id ≠ f.id }
  else s

def System.step (s : System κ τ) : Event κ τ → System κ τ
  | .begin target origin mask wait =>
    match s.coordinator.begin s.fresh target origin mask wait with
    | .ok (r, c) => ⟨c, s.running ++ [r], s.fresh + 1⟩
    | .error _ => s
  | .finish id status result => s.release ⟨id, status, result⟩
  | .drop id => s.release ⟨id, .failed, .obj [("message", .str "同步任务意外结束")]⟩
  | .cancel id =>
    match s.coordinator.cancel id with
    | .ok (_, c) => { s with coordinator := c }
    | .error _ => s
  | .stop => { s with coordinator := s.coordinator.stop }
  | .replace expected config transport =>
    match s.coordinator.replace expected config transport with
    | .ok (_, c) => { s with coordinator := c }
    | .error _ => s

def System.run (s : System κ τ) (es : List (Event κ τ)) : System κ τ := es.foldl System.step s

/-- The report that a step delivers. -/
def System.ending (s : System κ τ) (e : Event κ τ) : Option Ending :=
  e.ending.filter fun f => s.holds f.id

/-! ## What a step does -/

/-- The steps of the system, with what they check. -/
inductive Change (s : System κ τ) : Event κ τ → System κ τ → Prop
  | idle (e : Event κ τ) : Change s e s
  | begun (target origin : String) (mask : Mask) (wait : ℕ)
      (hopen : s.coordinator.stopping = false)
      (hfree : ∀ j ∈ s.coordinator.jobs, j.mask &&& mask.1 = 0) :
      Change s (.begin target origin mask wait)
        ⟨{ s.coordinator with
            jobs := s.coordinator.jobs ++
              [newJob s.coordinator s.fresh target origin mask.1 wait] },
          s.running ++ [⟨s.fresh, s.coordinator.snapshot⟩], s.fresh + 1⟩
  | ended (e : Event κ τ) (f : Ending) (hending : s.ending e = some f) :
      Change s e ⟨s.coordinator.finish f.id f.status f.result,
        s.running.filter fun r => r.id ≠ f.id, s.fresh⟩
  | asked (id : ℕ) :
      Change s (.cancel id)
        { s with coordinator.jobs := onJob id (Job.cancel 130) s.coordinator.jobs }
  | stopped : Change s .stop { s with coordinator := s.coordinator.stop }
  | replaced (e : Event κ τ) (snapshot : Snapshot κ τ) :
      Change s e { s with coordinator.snapshot := snapshot }

theorem and_eq_zero_of_find?_eq_none {jobs : List Job} {mask : UInt8}
    (h : (jobs.find? fun j => j.mask &&& mask ≠ 0) = none) : ∀ j ∈ jobs, j.mask &&& mask = 0 := by
  intro j hj
  have := List.find?_eq_none.mp h j hj
  simpa using this

theorem holds_iff {s : System κ τ} {id : ℕ} : s.holds id = true ↔ ∃ r ∈ s.running, r.id = id := by
  simp [System.holds]

theorem ending_eq_some {s : System κ τ} {e : Event κ τ} {f : Ending} :
    s.ending e = some f ↔ e.ending = some f ∧ s.holds f.id = true := by
  rw [System.ending, Option.filter_eq_some_iff]

theorem release_change (s : System κ τ) {e : Event κ τ} {f : Ending} (he : e.ending = some f) :
    Change s e (s.release f) := by
  unfold System.release
  split
  · next hheld => exact .ended e f (ending_eq_some.mpr ⟨he, hheld⟩)
  · exact .idle e

theorem step_change (s : System κ τ) (e : Event κ τ) : Change s e (s.step e) := by
  cases e with
  | begin target origin mask wait =>
    simp only [System.step, State.begin]
    by_cases hstop : s.coordinator.stopping = true
    · rw [if_pos hstop]
      exact .idle _
    · rw [if_neg hstop]
      cases hfind : s.coordinator.jobs.find? fun j => j.mask &&& mask.1 ≠ 0 with
      | some job => exact .idle _
      | none =>
        exact .begun target origin mask wait (by simpa using hstop)
          (and_eq_zero_of_find?_eq_none hfind)
  | finish id status result => exact release_change s rfl
  | drop id => exact release_change s rfl
  | cancel id =>
    simp only [System.step, State.cancel]
    cases s.coordinator.jobs.find? fun j => j.id = id with
    | some j => exact .asked id
    | none => exact .idle _
  | stop => exact .stopped
  | replace expected config transport =>
    simp only [System.step, State.replace]
    by_cases hstop : s.coordinator.stopping = true
    · rw [if_pos hstop]
      exact .idle _
    · rw [if_neg hstop]
      by_cases hrev : s.coordinator.snapshot.revision ≠ expected
      · rw [if_pos hrev]
        exact .idle _
      · rw [if_neg hrev]
        exact .replaced _ _

/-! ## The job list -/

section Lists

variable {id : ℕ} {f : Job → Job} {jobs : List Job}

/-- With ids in increasing order, the first job of an id is the only one. -/
theorem onJob_eq_map (hsorted : jobs.Pairwise fun a b => a.id < b.id) :
    onJob id f jobs = jobs.map fun j => if j.id = id then f j else j := by
  induction jobs with
  | nil => rfl
  | cons j jobs ih =>
    obtain ⟨hlt, hsorted⟩ := List.pairwise_cons.mp hsorted
    rw [onJob, List.map_cons, ih hsorted]
    split
    · next hj =>
      have hother : ∀ k ∈ jobs, (if k.id = id then f k else k) = k := by
        intro k hk
        have := hlt k hk
        exact if_neg (by omega)
      rw [List.map_congr_left hother, List.map_id']
    · rfl

theorem trimHistory_sublist (fuel : ℕ) : (trimHistory fuel jobs).Sublist jobs := by
  induction fuel generalizing jobs with
  | zero => exact List.Sublist.refl jobs
  | succ fuel ih =>
    rw [trimHistory]
    split
    · exact ih.trans List.eraseP_sublist
    · exact List.Sublist.refl jobs

/-- Only completed jobs are trimmed. -/
theorem mem_trimHistory {fuel : ℕ} {j : Job} (hj : j ∈ jobs) (hrun : j.isDone = false) :
    j ∈ trimHistory fuel jobs := by
  induction fuel generalizing jobs with
  | zero => exact hj
  | succ fuel ih =>
    rw [trimHistory]
    split
    · exact ih ((List.mem_eraseP_of_neg (by simp [hrun])).mpr hj)
    · exact hj

/-- A round for each job is enough to trim the history. -/
theorem countP_trimHistory {fuel : ℕ} (h : jobs.length ≤ fuel) :
    (trimHistory fuel jobs).countP Job.isDone ≤ 100 := by
  induction fuel generalizing jobs with
  | zero =>
    have := jobs.countP_le_length (p := Job.isDone)
    rw [trimHistory]
    omega
  | succ fuel ih =>
    rw [trimHistory]
    split
    · next hmany =>
      obtain ⟨j, hj, hdone⟩ := List.countP_pos_iff.mp (lt_trans (by norm_num) hmany)
      refine ih ?_
      rw [List.length_eraseP_of_mem hj hdone]
      omega
    · next hfew => exact not_lt.mp hfew

end Lists

@[simp] theorem isDone_iff {j : Job} : j.isDone = true ↔ j.mask = 0 := by simp [Job.isDone]

@[simp] theorem id_cancel (code : ℕ) (j : Job) : (j.cancel code).id = j.id := by
  unfold Job.cancel
  split <;> rfl

@[simp] theorem mask_cancel (code : ℕ) (j : Job) : (j.cancel code).mask = j.mask := by
  unfold Job.cancel
  split <;> rfl

@[simp] theorem configRevision_cancel (code : ℕ) (j : Job) :
    (j.cancel code).configRevision = j.configRevision := by
  unfold Job.cancel
  split <;> rfl

theorem cancel_of_done {code : ℕ} {j : Job} (h : j.mask = 0) : j.cancel code = j := by
  simp [Job.cancel, h]

theorem status_cancel {code : ℕ} {j : Job} (h : j.mask ≠ 0) :
    (j.cancel code).status = .cancelling := by
  simp [Job.cancel, h]

/-! ## The invariant -/

def Status.isEnded : Status → Bool
  | .ended _ => true
  | _ => false

/-- Jobs stand in the order of their ids, hold disjoint reservations until they end, and every
handle belongs to a job that has not ended. -/
structure Owned (s : System κ τ) : Prop where
  sorted : s.coordinator.jobs.Pairwise fun a b => a.id < b.id
  below : ∀ j ∈ s.coordinator.jobs, j.id < s.fresh
  disjoint : s.coordinator.jobs.Pairwise fun a b => a.mask &&& b.mask = 0
  reserved : ∀ j ∈ s.coordinator.jobs, j.mask = 0 ↔ j.status.isEnded = true
  held : ∀ r ∈ s.running, ∃ j ∈ s.coordinator.jobs, j.id = r.id ∧ j.mask ≠ 0
  bounded : s.coordinator.jobs.countP Job.isDone ≤ 100

theorem Owned.eq_of_id {s : System κ τ} (h : Owned s) {a b : Job}
    (ha : a ∈ s.coordinator.jobs) (hb : b ∈ s.coordinator.jobs) (hid : a.id = b.id) : a = b := by
  by_contra hne
  rcases List.pairwise_iff_getElem.mp h.sorted with hlt
  obtain ⟨i, hi, rfl⟩ := List.getElem_of_mem ha
  obtain ⟨k, hk, rfl⟩ := List.getElem_of_mem hb
  rcases lt_trichotomy i k with hik | rfl | hik
  · have := hlt i k hi hk hik
    omega
  · exact hne rfl
  · have := hlt k i hk hi hik
    omega

theorem owned_new (config : κ) (transport : τ) : Owned (System.new config transport) where
  sorted := .nil
  below := by simp [System.new, Coordinator.new]
  disjoint := .nil
  reserved := by simp [System.new, Coordinator.new]
  held := by simp [System.new]
  bounded := by simp [System.new, Coordinator.new]

section Step

variable {s s' : System κ τ} {e : Event κ τ}

/-- Rewriting every job by a function that keeps ids and reservations. -/
theorem Owned.map (h : Owned s) {f : Job → Job} (hid : ∀ j, (f j).id = j.id)
    (hmask : ∀ j, (f j).mask = j.mask)
    (hstatus : ∀ j ∈ s.coordinator.jobs, (f j).mask = 0 ↔ (f j).status.isEnded = true)
    {c : State κ τ} (hc : c.jobs = s.coordinator.jobs.map f) :
    Owned { s with coordinator := c } where
  sorted := by
    rw [hc, List.pairwise_map]
    simpa only [hid] using h.sorted
  below := by
    intro j' hj'
    rw [hc] at hj'
    obtain ⟨j, hj, rfl⟩ := List.mem_map.mp hj'
    rw [hid]
    exact h.below j hj
  disjoint := by
    rw [hc, List.pairwise_map]
    simpa only [hmask] using h.disjoint
  reserved := by
    intro j' hj'
    rw [hc] at hj'
    obtain ⟨j, hj, rfl⟩ := List.mem_map.mp hj'
    exact hstatus j hj
  held := by
    intro r hr
    obtain ⟨j, hj, hjr, hrun⟩ := h.held r hr
    refine ⟨f j, ?_, ?_, ?_⟩
    · rw [hc]
      exact List.mem_map_of_mem hj
    · rw [hid, hjr]
    · rw [hmask]
      exact hrun
  bounded := by
    have hdone : Job.isDone ∘ f = Job.isDone := by
      funext j
      simp [Job.isDone, hmask]
    rw [hc, List.countP_map, hdone]
    exact h.bounded

theorem reserved_cancel {j : Job} (code : ℕ) (h : j.mask = 0 ↔ j.status.isEnded = true) :
    (j.cancel code).mask = 0 ↔ (j.cancel code).status.isEnded = true := by
  by_cases hm : j.mask = 0
  · rw [cancel_of_done hm]
    exact h
  · rw [mask_cancel, status_cancel hm]
    simp [hm, Status.isEnded]

theorem Owned.begun (h : Owned s) {target origin : String} {mask : Mask} {wait : ℕ}
    (hfree : ∀ j ∈ s.coordinator.jobs, j.mask &&& mask.1 = 0) :
    Owned ⟨{ s.coordinator with
        jobs := s.coordinator.jobs ++ [newJob s.coordinator s.fresh target origin mask.1 wait] },
      s.running ++ [⟨s.fresh, s.coordinator.snapshot⟩], s.fresh + 1⟩ where
  sorted := by
    refine List.pairwise_append.mpr ⟨h.sorted, List.pairwise_singleton _ _, ?_⟩
    intro j hj k hk
    rw [List.mem_singleton.mp hk]
    exact h.below j hj
  below := by
    intro j hj
    rcases List.mem_append.mp hj with hj | hj
    · exact Nat.lt_succ_of_lt (h.below j hj)
    · rw [List.mem_singleton.mp hj]
      exact Nat.lt_succ_self _
  disjoint := by
    refine List.pairwise_append.mpr ⟨h.disjoint, List.pairwise_singleton _ _, ?_⟩
    intro j hj k hk
    rw [List.mem_singleton.mp hk]
    exact hfree j hj
  reserved := by
    intro j hj
    rcases List.mem_append.mp hj with hj | hj
    · exact h.reserved j hj
    · rw [List.mem_singleton.mp hj]
      simp [newJob, mask.2, Status.isEnded]
  held := by
    intro r hr
    rcases List.mem_append.mp hr with hr | hr
    · obtain ⟨j, hj, hjr, hrun⟩ := h.held r hr
      exact ⟨j, List.mem_append_left _ hj, hjr, hrun⟩
    · rw [List.mem_singleton.mp hr]
      exact ⟨_, List.mem_append_right _ (List.mem_singleton_self _), rfl, mask.2⟩
  bounded := by
    have hnew : (newJob s.coordinator s.fresh target origin mask.1 wait).isDone = false := by
      simp [newJob, Job.isDone, mask.2]
    rw [List.countP_append, List.countP_singleton, hnew]
    exact h.bounded

/-- What an ending does to each job. -/
def Ending.apply (f : Ending) (j : Job) : Job :=
  if j.id = f.id then j.end f.status f.result else j

@[simp] theorem id_apply {f : Ending} (j : Job) : (f.apply j).id = j.id := by
  unfold Ending.apply
  split <;> rfl

@[simp] theorem configRevision_apply {f : Ending} (j : Job) :
    (f.apply j).configRevision = j.configRevision := by
  unfold Ending.apply
  split <;> rfl

theorem apply_of_ne {f : Ending} {j : Job} (h : j.id ≠ f.id) : f.apply j = j := if_neg h

theorem jobs_finish (h : Owned s) (f : Ending) :
    (s.coordinator.finish f.id f.status f.result).jobs =
      trimHistory s.coordinator.jobs.length (s.coordinator.jobs.map f.apply) := by
  have hmap : onJob f.id (Job.end f.status f.result) s.coordinator.jobs =
      s.coordinator.jobs.map f.apply := onJob_eq_map h.sorted
  simp only [State.finish, hmap, List.length_map]

theorem Owned.ended (h : Owned s) {f : Ending} :
    Owned ⟨s.coordinator.finish f.id f.status f.result, s.running.filter fun r => r.id ≠ f.id,
      s.fresh⟩ where
  sorted := by
    rw [jobs_finish h]
    refine List.Pairwise.sublist (trimHistory_sublist _) ?_
    rw [List.pairwise_map]
    simpa only [id_apply] using h.sorted
  below := by
    intro j' hj'
    rw [jobs_finish h] at hj'
    obtain ⟨j, hj, rfl⟩ := List.mem_map.mp ((trimHistory_sublist _).subset hj')
    rw [id_apply]
    exact h.below j hj
  disjoint := by
    rw [jobs_finish h]
    refine List.Pairwise.sublist (trimHistory_sublist _) ?_
    rw [List.pairwise_map]
    refine h.disjoint.imp fun {a b} hab => ?_
    unfold Ending.apply
    split <;> split <;> simp [Job.end, hab]
  reserved := by
    intro j' hj'
    rw [jobs_finish h] at hj'
    obtain ⟨j, hj, rfl⟩ := List.mem_map.mp ((trimHistory_sublist _).subset hj')
    unfold Ending.apply
    split
    · simp [Job.end, Status.isEnded]
    · exact h.reserved j hj
  held := by
    intro r hr
    obtain ⟨hr, hne⟩ := List.mem_filter.mp hr
    obtain ⟨j, hj, hjr, hrun⟩ := h.held r hr
    have hother : j.id ≠ f.id := by
      rw [hjr]
      simpa using hne
    refine ⟨j, ?_, hjr, hrun⟩
    rw [jobs_finish h]
    refine mem_trimHistory (List.mem_map.mpr ⟨j, hj, apply_of_ne hother⟩) ?_
    simp [Job.isDone, hrun]
  bounded := by
    rw [jobs_finish h]
    exact countP_trimHistory (by simp)

/-- A step that ends a job ends one that has not ended. -/
theorem Owned.mask_ne_zero (h : Owned s) {f : Ending} (hf : s.ending e = some f) {j : Job}
    (hj : j ∈ s.coordinator.jobs) (hid : j.id = f.id) : j.mask ≠ 0 := by
  obtain ⟨r, hr, hrf⟩ := holds_iff.mp (ending_eq_some.mp hf).2
  obtain ⟨k, hk, hkr, hrun⟩ := h.held r hr
  rw [h.eq_of_id hj hk (by omega)]
  exact hrun

theorem jobs_cancel (h : Owned s) (id : ℕ) :
    onJob id (Job.cancel 130) s.coordinator.jobs =
      s.coordinator.jobs.map fun j => if j.id = id then j.cancel 130 else j :=
  onJob_eq_map h.sorted

/-- Every step keeps the invariant. -/
theorem Owned.change (h : Owned s) (hc : Change s e s') : Owned s' := by
  cases hc with
  | idle => exact h
  | begun target origin mask wait hopen hfree => exact h.begun hfree
  | ended => exact h.ended
  | asked id =>
    refine h.map (f := fun j => if j.id = id then j.cancel 130 else j) ?_ ?_ ?_ (jobs_cancel h id)
    · intro j
      split <;> simp
    · intro j
      split <;> simp
    · intro j hj
      split
      · exact reserved_cancel 130 (h.reserved j hj)
      · exact h.reserved j hj
  | stopped =>
    exact h.map (id_cancel 143) (mask_cancel 143)
      (fun j hj => reserved_cancel 143 (h.reserved j hj)) rfl
  | replaced snapshot => exact ⟨h.sorted, h.below, h.disjoint, h.reserved, h.held, h.bounded⟩

theorem owned_run (h : Owned s) (es : List (Event κ τ)) : Owned (s.run es) := by
  induction es generalizing s with
  | nil => exact h
  | cons e es ih => exact ih (h.change (step_change s e))

/-- A job of the list after a step is one from before it, unchanged where it had ended, or the one
that the step began. -/
theorem Change.job (hs : Owned s) (h : Change s e s') {j' : Job} (hj' : j' ∈ s'.coordinator.jobs) :
    (∃ j ∈ s.coordinator.jobs, j'.id = j.id ∧ j'.configRevision = j.configRevision ∧
        (j.mask = 0 → j' = j)) ∨
      (j'.id = s.fresh ∧ j'.configRevision = s.coordinator.snapshot.revision ∧
        ∃ target origin mask wait, e = .begin target origin mask wait) := by
  cases h with
  | idle => exact .inl ⟨j', hj', rfl, rfl, fun _ => rfl⟩
  | begun target origin mask wait hopen hfree =>
    rcases List.mem_append.mp hj' with hj | hj
    · exact .inl ⟨j', hj, rfl, rfl, fun _ => rfl⟩
    · rw [List.mem_singleton.mp hj]
      exact .inr ⟨rfl, rfl, target, origin, mask, wait, rfl⟩
  | ended e f hending =>
    rw [jobs_finish hs] at hj'
    obtain ⟨j, hj, rfl⟩ := List.mem_map.mp ((trimHistory_sublist _).subset hj')
    refine .inl ⟨j, hj, id_apply j, configRevision_apply j, fun hdone => ?_⟩
    exact apply_of_ne fun hid => hs.mask_ne_zero hending hj hid hdone
  | asked id =>
    rw [jobs_cancel hs] at hj'
    obtain ⟨j, hj, rfl⟩ := List.mem_map.mp hj'
    refine .inl ⟨j, hj, ?_, ?_, fun hdone => ?_⟩
    · split <;> simp
    · split <;> simp
    · split
      · exact cancel_of_done hdone
      · rfl
  | stopped =>
    obtain ⟨j, hj, rfl⟩ := List.mem_map.mp hj'
    exact .inl ⟨j, hj, id_cancel 143 j, configRevision_cancel 143 j, cancel_of_done⟩
  | replaced snapshot => exact .inl ⟨j', hj', rfl, rfl, fun _ => rfl⟩

theorem Change.fresh_le (h : Change s e s') : s.fresh ≤ s'.fresh := by
  cases h with
  | begun => exact Nat.le_succ _
  | _ => exact Nat.le_refl _

theorem Change.stopping (h : Change s e s') (hs : s.coordinator.stopping = true) :
    s'.coordinator.stopping = true := by
  cases h with
  | stopped => rfl
  | _ => exact hs

/-- A job that has not ended leaves the list only through the step that ends it. -/
theorem Change.keeps (hs : Owned s) (h : Change s e s') {j : Job} (hj : j ∈ s.coordinator.jobs)
    (hrun : j.mask ≠ 0) (he : ∀ f ∈ e.ending, f.id ≠ j.id) :
    ∃ j' ∈ s'.coordinator.jobs, j'.id = j.id ∧ j'.mask ≠ 0 := by
  cases h with
  | idle => exact ⟨j, hj, rfl, hrun⟩
  | begun => exact ⟨j, List.mem_append_left _ hj, rfl, hrun⟩
  | ended e f hending =>
    have hother : j.id ≠ f.id := Ne.symm (he f (ending_eq_some.mp hending).1)
    refine ⟨j, ?_, rfl, hrun⟩
    rw [jobs_finish hs]
    refine mem_trimHistory (List.mem_map.mpr ⟨j, hj, apply_of_ne hother⟩) ?_
    simp [Job.isDone, hrun]
  | asked id =>
    rw [jobs_cancel hs]
    refine ⟨_, List.mem_map_of_mem hj, ?_, ?_⟩
    · split <;> simp
    · split <;> simpa using hrun
  | stopped =>
    refine ⟨_, List.mem_map_of_mem hj, id_cancel 143 j, ?_⟩
    rw [mask_cancel]
    exact hrun
  | replaced => exact ⟨j, hj, rfl, hrun⟩

end Step

/-! ## Every run -/

/-- What the coordinator promises after a run. -/
structure Coordinated (config : κ) (transport : τ) (es : List (Event κ τ)) : Prop where
  /-- Jobs that have not ended reserve different datasets. -/
  disjoint : (((System.new config transport).run es).coordinator.jobs.filter
    fun j => !j.status.isEnded).Pairwise fun a b => a.mask &&& b.mask = 0
  /-- They stay in the list whatever happens to other jobs. -/
  kept : ∀ e, ∀ j ∈ ((System.new config transport).run es).coordinator.jobs,
    j.status.isEnded = false → (∀ f ∈ e.ending, f.id ≠ j.id) →
      ∃ j' ∈ ((System.new config transport).run (es ++ [e])).coordinator.jobs,
        j'.id = j.id ∧ j'.status.isEnded = false
  /-- At most 100 others are kept. -/
  history : ((System.new config transport).run es).coordinator.jobs.countP
    (fun j => j.status.isEnded) ≤ 100
  /-- After `stop` nothing begins. -/
  stopped : .stop ∈ es → ∀ id target origin mask wait, ∃ error,
    ((System.new config transport).run es).coordinator.begin id target origin mask wait =
      .error error
  /-- An ended job keeps its status as long as it is listed. -/
  final : ∀ later, ∀ j ∈ ((System.new config transport).run es).coordinator.jobs,
    j.status.isEnded = true →
      ∀ j' ∈ ((System.new config transport).run (es ++ later)).coordinator.jobs,
        j'.id = j.id → j'.status = j.status
  /-- Every job began with the revision that the coordinator had then. -/
  revision : ∀ j ∈ ((System.new config transport).run es).coordinator.jobs,
    ∃ before target origin mask wait after, es = before ++ .begin target origin mask wait :: after ∧
      ((System.new config transport).run before).fresh = j.id ∧
      ((System.new config transport).run before).coordinator.snapshot.revision =
        j.configRevision

section Run

variable {s : System κ τ}

theorem run_append (s : System κ τ) (es later : List (Event κ τ)) :
    s.run (es ++ later) = (s.run es).run later := List.foldl_append

theorem run_concat (s : System κ τ) (es : List (Event κ τ)) (e : Event κ τ) :
    s.run (es ++ [e]) = (s.run es).step e := by
  rw [run_append]
  rfl

theorem stopping_run (h : s.coordinator.stopping = true) (es : List (Event κ τ)) :
    (s.run es).coordinator.stopping = true := by
  induction es generalizing s with
  | nil => exact h
  | cons e es ih => exact ih ((step_change s e).stopping h)

theorem stopping_of_mem {es : List (Event κ τ)} (h : .stop ∈ es) :
    (s.run es).coordinator.stopping = true := by
  induction es generalizing s with
  | nil => simp at h
  | cons e es ih =>
    rcases List.mem_cons.mp h with rfl | h
    · exact stopping_run rfl es
    · exact ih h

/-- Where every job of a used id is one ended record, it stays so: no new job takes the id. -/
theorem only_run (hs : Owned s) {j : Job} (hdone : j.mask = 0) (hlt : j.id < s.fresh)
    (honly : ∀ j' ∈ s.coordinator.jobs, j'.id = j.id → j' = j) (es : List (Event κ τ)) :
    ∀ j' ∈ (s.run es).coordinator.jobs, j'.id = j.id → j' = j := by
  induction es generalizing s with
  | nil => exact honly
  | cons e es ih =>
    have hc := step_change s e
    refine ih (hs.change hc) (hlt.trans_le hc.fresh_le) fun j' hj' hid => ?_
    rcases hc.job hs hj' with ⟨k, hk, hkid, -, hkeep⟩ | ⟨hfresh, -, -⟩
    · have hkj := honly k hk (by omega)
      exact (hkeep (hkj ▸ hdone)).trans hkj
    · omega

theorem ended_run (hs : Owned s) {j : Job} (hj : j ∈ s.coordinator.jobs) (hdone : j.mask = 0)
    (es : List (Event κ τ)) : ∀ j' ∈ (s.run es).coordinator.jobs, j'.id = j.id → j' = j :=
  only_run hs hdone (hs.below j hj) (fun _ hj' hid => hs.eq_of_id hj' hj hid) es

theorem begun_run (config : κ) (transport : τ) (es : List (Event κ τ)) :
    ∀ j ∈ ((System.new config transport).run es).coordinator.jobs,
      ∃ before target origin mask wait after,
        es = before ++ .begin target origin mask wait :: after ∧
          ((System.new config transport).run before).fresh = j.id ∧
          ((System.new config transport).run before).coordinator.snapshot.revision =
            j.configRevision := by
  induction es using List.reverseRecOn with
  | nil => simp [System.run, System.new, Coordinator.new]
  | append_singleton es e ih =>
    intro j hj
    rw [run_concat] at hj
    rcases (step_change _ e).job (owned_run (owned_new config transport) es) hj with
      ⟨k, hk, hid, hrev, -⟩ | ⟨hid, hrev, target, origin, mask, wait, rfl⟩
    · obtain ⟨before, target, origin, mask, wait, after, rfl, hfresh, hbefore⟩ := ih k hk
      exact ⟨before, target, origin, mask, wait, after ++ [e], by simp, hfresh.trans hid.symm,
        hbefore.trans hrev.symm⟩
    · exact ⟨es, target, origin, mask, wait, [], rfl, hid.symm, hrev.symm⟩

end Run

/-- The coordinator keeps its promises after every run. -/
theorem run_coordinated (config : κ) (transport : τ) (es : List (Event κ τ)) :
    Coordinated config transport es := by
  have hs : Owned ((System.new config transport).run es) := owned_run (owned_new config transport) es
  have hended : ∀ j ∈ ((System.new config transport).run es).coordinator.jobs,
      j.status.isEnded = j.isDone := by
    intro j hj
    have := hs.reserved j hj
    rw [Bool.eq_iff_iff, isDone_iff]
    exact this.symm
  constructor
  · exact hs.disjoint.sublist List.filter_sublist
  · intro e j hj hrun he
    rw [hended j hj] at hrun
    have hmask : j.mask ≠ 0 := by simpa [Job.isDone] using hrun
    rw [run_concat]
    have hc := step_change ((System.new config transport).run es) e
    obtain ⟨j', hj', hid, hmask'⟩ := hc.keeps hs hj hmask he
    refine ⟨j', hj', hid, ?_⟩
    have := (hs.change hc).reserved j' hj'
    simpa [hmask'] using this
  · rw [List.countP_congr fun j hj => by rw [hended j hj]]
    exact hs.bounded
  · intro hstop id target origin mask wait
    refine ⟨"实例正在停止，不再接受同步任务", ?_⟩
    rw [State.begin, if_pos (stopping_of_mem hstop)]
  · intro later j hj hdone j' hj' hid
    rw [hended j hj, isDone_iff] at hdone
    rw [run_append] at hj'
    rw [ended_run hs hj hdone later j' hj' hid]
  · exact begun_run config transport es

end PrtsMcp.Jobs
