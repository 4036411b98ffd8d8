import PrtsMcp.Jobs

/-!
# The history of ended jobs

How long the outcome of an ended job can be looked up: the history keeps the jobs that began last,
which are the ones that ended last only where jobs end in the order in which they began.
-/
namespace PrtsMcp.Jobs

open Runs

variable {κ τ : Type}

/-- The jobs that end in a run, in the order in which they end. -/
def endings (s : System κ τ) : List (Event κ τ) → List Ending
  | [] => []
  | e :: es => (s.ending e).toList ++ endings (s.step e) es

/-- The job that a step begins. -/
def System.beginning (s : System κ τ) : Event κ τ → Option ℕ
  | .begin target origin mask wait =>
    (s.coordinator.begin s.fresh target origin mask wait).toOption.map fun r => r.1.id
  | _ => none

/-- The jobs that begin in a run, in the order in which they begin. -/
def beginnings (s : System κ τ) : List (Event κ τ) → List ℕ
  | [] => []
  | e :: es => (s.beginning e).toList ++ beginnings (s.step e) es

/-- Every job that ended fewer than 100 others ago is found, with its status and result. -/
def Visible (config : κ) (transport : τ) (es : List (Event κ τ)) : Prop :=
  ∀ earlier f later, endings (System.new config transport) es = earlier ++ f :: later →
    later.length < 100 →
      ∃ j, ((System.new config transport).run es).coordinator.show f.id = .ok j ∧
        j.status = .ended f.status ∧ j.result = f.result

/-- Where the step ends a job, the first to end of the last 101 jobs to end began before the other
100. -/
def EndsInOrder (config : κ) (transport : τ) (es : List (Event κ τ)) (e : Event κ τ) : Prop :=
  ∀ f ∈ ((System.new config transport).run es).ending e, ∀ earlier x later,
    endings (System.new config transport) es ++ [f] = earlier ++ x :: later →
    later.length = 100 →
      ∀ g ∈ later, [x.id, g.id].Sublist (beginnings (System.new config transport) es)

/-! ## The kept history -/

def done (s : System κ τ) : List Job := s.coordinator.jobs.filter Job.isDone

section Trim

variable {jobs : List Job}

/-- Dropping the first completed job drops the head of the completed ones. -/
theorem filter_eraseP_isDone (jobs : List Job) :
    (jobs.eraseP Job.isDone).filter Job.isDone = (jobs.filter Job.isDone).tail := by
  induction jobs with
  | nil => rfl
  | cons j jobs ih =>
    by_cases hj : j.isDone = true
    · rw [List.eraseP_cons_of_pos hj, List.filter_cons_of_pos hj, List.tail_cons]
    · rw [List.eraseP_cons_of_neg hj, List.filter_cons_of_neg hj, List.filter_cons_of_neg hj, ih]

theorem trimHistory_of_le {fuel : ℕ} (h : jobs.countP Job.isDone ≤ 100) :
    trimHistory fuel jobs = jobs := by
  cases fuel with
  | zero => rfl
  | succ fuel => exact if_neg (by omega)

/-- One completed job too many costs the first one. -/
theorem filter_trimHistory (h : jobs.countP Job.isDone ≤ 101) :
    (trimHistory jobs.length jobs).filter Job.isDone =
      if 100 < (jobs.filter Job.isDone).length then (jobs.filter Job.isDone).tail
      else jobs.filter Job.isDone := by
  rw [List.countP_eq_length_filter] at h
  by_cases hmany : 100 < (jobs.filter Job.isDone).length
  · rw [if_pos hmany]
    cases hjobs : jobs with
    | nil => simp [hjobs] at hmany
    | cons j rest =>
      rw [← hjobs, hjobs, List.length_cons, trimHistory, ← hjobs, List.countP_eq_length_filter,
        if_pos hmany, trimHistory_of_le, filter_eraseP_isDone]
      rw [List.countP_eq_length_filter, filter_eraseP_isDone, List.length_tail]
      omega
  · rw [if_neg hmany, trimHistory_of_le]
    rw [List.countP_eq_length_filter]
    omega

/-- Rewriting jobs by a function that leaves ended jobs alone and ends none. -/
theorem filter_isDone_map {g : Job → Job} (hmask : ∀ j ∈ jobs, (g j).mask = j.mask)
    (hdone : ∀ j ∈ jobs, j.mask = 0 → g j = j) :
    (jobs.map g).filter Job.isDone = jobs.filter Job.isDone := by
  induction jobs with
  | nil => rfl
  | cons j jobs ih =>
    have ih := ih (fun k hk => hmask k (List.mem_cons_of_mem _ hk))
      fun k hk => hdone k (List.mem_cons_of_mem _ hk)
    have hg : (g j).isDone = j.isDone := by simp [Job.isDone, hmask j List.mem_cons_self]
    rw [List.map_cons, List.filter_cons, List.filter_cons, ih, hg]
    split
    · next hj => rw [hdone j List.mem_cons_self (isDone_iff.mp hj)]
    · rfl

end Trim

section Step

variable {s : System κ τ} {e : Event κ τ}

theorem done_of_ending_none (hs : Owned s) (h : s.ending e = none) : done (s.step e) = done s := by
  have hc := step_change s e
  generalize s.step e = s' at hc
  cases hc with
  | idle => rfl
  | begun target origin mask wait =>
    have hnew : (newJob s.coordinator s.fresh target origin mask.1 wait).isDone = false := by
      simp [newJob, Job.isDone, mask.2]
    rw [done, done, List.filter_append, List.filter_singleton, hnew]
    simp
  | ended e f hending => simp [h] at hending
  | asked id =>
    rw [done, done, jobs_cancel hs]
    refine filter_isDone_map (fun j _ => ?_) fun j _ hdone => ?_
    · split <;> simp
    · split
      · exact cancel_of_done hdone
      · rfl
  | stopped => exact filter_isDone_map (fun j _ => mask_cancel 143 j) fun j _ => cancel_of_done
  | replaced => rfl

/-- The completed jobs at an ending, before the history is trimmed. -/
def marked (f : Ending) (s : System κ τ) : List Job :=
  (s.coordinator.jobs.map f.apply).filter Job.isDone

/-- An ending adds the job that it ends. -/
theorem marked_perm {f : Ending} (hs : Owned s) (hf : s.ending e = some f) :
    ∃ j ∈ s.coordinator.jobs, j.id = f.id ∧
      (marked f s).Perm (j.end f.status f.result :: done s) := by
  obtain ⟨r, hr, hrf⟩ := holds_iff.mp (ending_eq_some.mp hf).2
  obtain ⟨j, hj, hjr, hrun⟩ := hs.held r hr
  obtain ⟨before, after, hsplit⟩ := List.append_of_mem hj
  have hid : j.id = f.id := hjr.trans hrf
  have hsorted := hs.sorted
  rw [hsplit, List.pairwise_append, List.pairwise_cons] at hsorted
  obtain ⟨-, ⟨hafter, -⟩, hbefore⟩ := hsorted
  have hmap : ∀ k ∈ before ++ after, f.apply k = k := by
    intro k hk
    apply apply_of_ne
    rcases List.mem_append.mp hk with hk | hk
    · have := hbefore k hk j List.mem_cons_self
      omega
    · have := hafter k hk
      omega
  have hjobs : s.coordinator.jobs.map f.apply = before ++ j.end f.status f.result :: after := by
    rw [hsplit, List.map_append, List.map_cons,
      List.map_congr_left fun k hk => hmap k (List.mem_append_left _ hk),
      List.map_congr_left fun k hk => hmap k (List.mem_append_right _ hk), Ending.apply, if_pos hid]
    simp
  refine ⟨j, hj, hid, ?_⟩
  have hdone : done s = before.filter Job.isDone ++ after.filter Job.isDone := by
    rw [done, hsplit, List.filter_append, List.filter_cons_of_neg (by simpa using hrun)]
  rw [marked, hjobs, hdone, List.filter_append, List.filter_cons_of_pos (by simp [Job.end])]
  exact List.perm_middle

theorem length_marked {f : Ending} (hs : Owned s) (hf : s.ending e = some f) :
    (marked f s).length = (done s).length + 1 := by
  obtain ⟨j, -, -, hperm⟩ := marked_perm hs hf
  rw [hperm.length_eq, List.length_cons]

theorem length_done_le (hs : Owned s) : (done s).length ≤ 100 := by
  rw [done, ← List.countP_eq_length_filter]
  exact hs.bounded

theorem step_of_ending {f : Ending} (hf : s.ending e = some f) :
    s.step e = ⟨s.coordinator.finish f.id f.status f.result,
      s.running.filter fun r => r.id ≠ f.id, s.fresh⟩ := by
  obtain ⟨he, hholds⟩ := ending_eq_some.mp hf
  cases e with
  | finish id status result =>
    obtain rfl := Option.some.inj he
    exact if_pos hholds
  | drop id =>
    obtain rfl := Option.some.inj he
    exact if_pos hholds
  | begin | cancel | stop | replace => simp [Event.ending] at he

/-- The history after an ending. -/
theorem done_of_ending {f : Ending} (hs : Owned s) (hf : s.ending e = some f) :
    done (s.step e) = if 100 < (marked f s).length then (marked f s).tail else marked f s := by
  have hlength := length_marked hs hf
  have hdone := length_done_le hs
  rw [step_of_ending hf, done, jobs_finish hs, ← List.length_map (f := f.apply), filter_trimHistory]
  · rfl
  · rw [List.countP_eq_length_filter]
    exact (show (marked f s).length ≤ 101 by omega)

end Step

/-! ## The history against the endings -/

/-- The history holds records of endings, each job ends once, and never leaves that state. -/
structure Recorded (s : System κ τ) (fs : List Ending) : Prop where
  done : ∀ j ∈ done s, ∃ f ∈ fs, f.id = j.id ∧ j.status = .ended f.status ∧ j.result = f.result
  below : ∀ f ∈ fs, f.id < s.fresh
  settled : ∀ f ∈ fs, ∀ j ∈ s.coordinator.jobs, j.id = f.id → j.mask = 0
  nodup : (fs.map Ending.id).Nodup

section Record

variable {s : System κ τ} {e : Event κ τ} {fs : List Ending}

theorem Recorded.below_step (h : Recorded s fs) : ∀ f ∈ fs, f.id < (s.step e).fresh :=
  fun f hf => (h.below f hf).trans_le (step_change s e).fresh_le

theorem Recorded.settled_step (hs : Owned s) (h : Recorded s fs) :
    ∀ f ∈ fs, ∀ j ∈ (s.step e).coordinator.jobs, j.id = f.id → j.mask = 0 := by
  intro f hf j' hj' hid
  rcases (step_change s e).job hs hj' with ⟨j, hj, hjid, -, hkeep⟩ | ⟨hfresh, -, -⟩
  · have hmask := h.settled f hf j hj (by omega)
    rw [hkeep hmask]
    exact hmask
  · have := h.below f hf
    omega

theorem Recorded.step_none (hs : Owned s) (h : Recorded s fs) (he : s.ending e = none) :
    Recorded (s.step e) fs where
  done := by
    rw [done_of_ending_none hs he]
    exact h.done
  below := h.below_step
  settled := h.settled_step hs
  nodup := h.nodup

theorem Recorded.step_some {f : Ending} (hs : Owned s) (h : Recorded s fs)
    (hf : s.ending e = some f) : Recorded (s.step e) (fs ++ [f]) := by
  obtain ⟨j, hj, hid, hperm⟩ := marked_perm hs hf
  have hlt : f.id < s.fresh := hid ▸ hs.below j hj
  constructor
  · intro k hk
    have hmarked : k ∈ marked f s := by
      rw [done_of_ending hs hf] at hk
      split at hk
      · exact List.mem_of_mem_tail hk
      · exact hk
    rcases List.mem_cons.mp (hperm.mem_iff.mp hmarked) with rfl | hold
    · exact ⟨f, List.mem_append_right _ (List.mem_singleton_self f), hid.symm, rfl, rfl⟩
    · obtain ⟨g, hg, hdata⟩ := h.done k hold
      exact ⟨g, List.mem_append_left _ hg, hdata⟩
  · intro g hg
    rcases List.mem_append.mp hg with hg | hg
    · exact h.below_step g hg
    · rw [List.mem_singleton.mp hg]
      exact hlt.trans_le (step_change s e).fresh_le
  · intro g hg k hk hkg
    rcases List.mem_append.mp hg with hg | hg
    · exact h.settled_step hs g hg k hk hkg
    · rw [List.mem_singleton.mp hg] at hkg
      rw [step_of_ending hf] at hk
      rw [jobs_finish hs] at hk
      obtain ⟨i, hi, rfl⟩ := List.mem_map.mp ((trimHistory_sublist _).subset hk)
      rw [id_apply] at hkg
      simp [Ending.apply, hkg, Job.end]
  · rw [List.map_append, List.nodup_append]
    refine ⟨h.nodup, by simp, ?_⟩
    intro a ha b hb
    obtain ⟨g, hg, rfl⟩ := List.mem_map.mp ha
    obtain rfl : b = f.id := by simpa using hb
    intro heq
    exact hs.mask_ne_zero hf hj hid (h.settled g hg j hj (by omega))

end Record

section Run

variable {s : System κ τ} {e : Event κ τ}

theorem endings_concat (s : System κ τ) (es : List (Event κ τ)) (e : Event κ τ) :
    endings s (es ++ [e]) = endings s es ++ ((s.run es).ending e).toList := by
  induction es generalizing s with
  | nil => simp [endings, System.run]
  | cons e' es ih =>
    rw [List.cons_append, endings, endings, ih, List.append_assoc]
    rfl

theorem beginnings_concat (s : System κ τ) (es : List (Event κ τ)) (e : Event κ τ) :
    beginnings s (es ++ [e]) = beginnings s es ++ ((s.run es).beginning e).toList := by
  induction es generalizing s with
  | nil => simp [beginnings, System.run]
  | cons e' es ih =>
    rw [List.cons_append, beginnings, beginnings, ih, List.append_assoc]
    rfl

theorem recorded_run (config : κ) (transport : τ) (es : List (Event κ τ)) :
    Recorded ((System.new config transport).run es) (endings (System.new config transport) es) := by
  induction es using List.reverseRecOn with
  | nil => constructor <;> simp [done, System.run, System.new, Coordinator.new, endings]
  | append_singleton es e ih =>
    have hs := owned_run (owned_new config transport) es
    rw [run_concat, endings_concat]
    cases hf : ((System.new config transport).run es).ending e with
    | none =>
      rw [Option.toList_none, List.append_nil]
      exact ih.step_none hs hf
    | some f => exact ih.step_some hs hf

/-- The ids are drawn in the order in which the jobs begin. -/
theorem beginnings_eq_range (config : κ) (transport : τ) (es : List (Event κ τ)) :
    beginnings (System.new config transport) es =
      List.range ((System.new config transport).run es).fresh := by
  induction es using List.reverseRecOn with
  | nil => rfl
  | append_singleton es e ih =>
    rw [beginnings_concat, run_concat, ih]
    generalize (System.new config transport).run es = s
    cases e with
    | begin target origin mask wait =>
      simp only [System.beginning, System.step]
      cases h : s.coordinator.begin s.fresh target origin mask wait with
      | error => simp [Except.toOption]
      | ok r =>
        have hid : r.1.id = s.fresh := by
          unfold State.begin at h
          split at h
          · cases h
          · split at h
            · cases h
            · cases h
              rfl
        simp [Except.toOption, hid, List.range_succ]
    | finish | drop =>
      simp only [System.beginning, System.step, System.release]
      split <;> simp
    | cancel | replace =>
      simp only [System.beginning, System.step]
      split <;> simp
    | stop => simp [System.beginning, System.step]

theorem pair_sublist_range {a b n : ℕ} (hb : b < n) : [a, b].Sublist (List.range n) ↔ a < b := by
  constructor
  · intro h
    have := List.Pairwise.sublist h List.pairwise_lt_range
    simpa using this
  · intro h
    have hsplit : List.range n = List.range b ++ (List.range (n - b)).map (b + ·) := by
      rw [← List.range_add, Nat.add_sub_cancel' hb.le]
    rw [hsplit]
    change List.Sublist ([a] ++ [b]) (List.range b ++ _)
    apply List.Sublist.append
    · exact List.singleton_sublist.mpr (List.mem_range.mpr h)
    · refine List.singleton_sublist.mpr (List.mem_map.mpr ⟨0, List.mem_range.mpr (by omega), rfl⟩)

/-- A lookup finds the outcome of an ending where the history still holds its job. -/
theorem show_iff {fs : List Ending} (hs : Owned s) (h : Recorded s fs) {f : Ending} (hf : f ∈ fs) :
    (∃ j, s.coordinator.show f.id = .ok j ∧ j.status = .ended f.status ∧ j.result = f.result) ↔
      f.id ∈ (done s).map Job.id := by
  rw [List.mem_map]
  constructor
  · rintro ⟨j, hshow, -⟩
    unfold State.show at hshow
    split at hshow
    · next k hfind =>
      obtain rfl := Except.ok.inj hshow
      have hk := List.mem_of_find?_eq_some hfind
      have hid : k.id = f.id := by simpa using List.find?_some hfind
      exact ⟨k, List.mem_filter.mpr ⟨hk, isDone_iff.mpr (h.settled f hf k hk hid)⟩, hid⟩
    · cases hshow
  · rintro ⟨j, hj, hid⟩
    obtain ⟨g, hg, hgid, hstatus, hresult⟩ := h.done j hj
    obtain rfl : g = f := List.inj_on_of_nodup_map h.nodup hg hf (hgid.trans hid)
    have hjobs : j ∈ s.coordinator.jobs := (List.mem_filter.mp hj).1
    refine ⟨j, ?_, hstatus, hresult⟩
    unfold State.show
    cases hfind : s.coordinator.jobs.find? fun j => j.id = g.id with
    | none => exact absurd (List.find?_eq_none.mp hfind j hjobs) (by simp [hid])
    | some k =>
      have hk := List.mem_of_find?_eq_some hfind
      have hkid : k.id = g.id := by simpa using List.find?_some hfind
      rw [hs.eq_of_id hk hjobs (by omega)]

/-- Dropping the least of some numbers keeps all but one given number where that one is it. -/
theorem tail_covers_iff {m x : ℕ} {t l : List ℕ} (hsorted : (m :: t).Pairwise (· < ·))
    (hperm : (m :: t).Perm (x :: l)) : (∀ y ∈ l, y ∈ t) ↔ ∀ y ∈ l, x < y := by
  obtain ⟨hlt, -⟩ := List.pairwise_cons.mp hsorted
  constructor
  · intro h y hy
    rcases List.mem_cons.mp (hperm.mem_iff.mp List.mem_cons_self) with rfl | hm
    · exact hlt y (h y hy)
    · exact absurd (hlt m (h m hm)) (lt_irrefl m)
  · intro h y hy
    rcases List.mem_cons.mp (hperm.mem_iff.mpr (List.mem_cons_of_mem x hy)) with rfl | ht
    · rcases List.mem_cons.mp (hperm.mem_iff.mpr (List.mem_cons_self (a := x))) with rfl | hx
      · exact absurd (h x hy) (lt_irrefl x)
      · exact absurd ((h y hy).trans (hlt x hx)) (lt_irrefl x)
    · exact ht

end Run

/-! ## How long an outcome stays visible -/

/-- The history covers what ended fewer than 100 endings ago. -/
def Covers (s : System κ τ) (fs : List Ending) : Prop :=
  ∀ earlier f later, fs = earlier ++ f :: later → later.length < 100 →
    f.id ∈ (done s).map Job.id

section Window

variable {s : System κ τ} {e : Event κ τ} {fs : List Ending} {f : Ending}

theorem visible_iff (config : κ) (transport : τ) (es : List (Event κ τ)) :
    Visible config transport es ↔ Covers ((System.new config transport).run es)
      (endings (System.new config transport) es) := by
  refine forall_congr' fun earlier => forall_congr' fun f => forall_congr' fun later =>
    imp_congr_right fun hsplit => imp_congr_right fun _ => ?_
  exact show_iff (owned_run (owned_new config transport) es) (recorded_run config transport es)
    (by rw [hsplit]; exact List.mem_append_right _ List.mem_cons_self)

theorem sorted_ids (hs : Owned s) : ((done s).map Job.id).Pairwise (· < ·) := by
  rw [List.pairwise_map]
  exact hs.sorted.filter _

theorem nodup_ids (hs : Owned s) : ((done s).map Job.id).Nodup :=
  (sorted_ids hs).imp fun {_ _} h => ne_of_lt h

theorem sorted_marked (hs : Owned s) : ((marked f s).map Job.id).Pairwise (· < ·) := by
  rw [List.pairwise_map]
  refine List.Pairwise.filter _ ?_
  rw [List.pairwise_map]
  simpa only [id_apply] using hs.sorted

theorem ids_marked (hs : Owned s) (hf : s.ending e = some f) :
    ((marked f s).map Job.id).Perm (f.id :: (done s).map Job.id) := by
  obtain ⟨j, -, hid, hperm⟩ := marked_perm hs hf
  have := hperm.map Job.id
  rwa [List.map_cons, show (j.end f.status f.result).id = f.id from hid] at this

/-- Before 100 jobs have ended nothing is trimmed. -/
theorem covers_of_few (hs : Owned s) (hr : Recorded s fs) (hc : Covers s fs)
    (hf : s.ending e = some f) (hfew : fs.length < 100) : Covers (s.step e) (fs ++ [f]) := by
  have hsubset : (done s).map Job.id ⊆ fs.map Ending.id := by
    intro i hi
    obtain ⟨j, hj, rfl⟩ := List.mem_map.mp hi
    obtain ⟨g, hg, hgj, -⟩ := hr.done j hj
    exact List.mem_map.mpr ⟨g, hg, hgj⟩
  have hlength := ((nodup_ids hs).subperm hsubset).length_le
  have hmarked := length_marked hs hf
  rw [List.length_map, List.length_map] at hlength
  intro earlier g later hsplit hlater
  rw [done_of_ending hs hf, if_neg (by omega), (ids_marked hs hf).mem_iff]
  have hg : g ∈ fs ++ [f] := by
    rw [hsplit]
    exact List.mem_append_right _ List.mem_cons_self
  rcases List.mem_append.mp hg with hg | hg
  · obtain ⟨before, after, hfs⟩ := List.append_of_mem hg
    refine List.mem_cons_of_mem _ (hc before g after hfs ?_)
    have := congrArg List.length hfs
    simp only [List.length_append, List.length_cons] at this
    omega
  · rw [List.mem_singleton.mp hg]
    exact List.mem_cons_self

/-- Of the last 101 jobs to end the history loses the one that began first. -/
theorem covers_iff_of_many {before R : List Ending} {x : Ending} (hs : Owned s)
    (hr : Recorded s fs) (hc : Covers s fs) (hf : s.ending e = some f)
    (hfs : fs = before ++ x :: R) (hR : R.length = 99) :
    Covers (s.step e) (fs ++ [f]) ↔ ∀ g ∈ R ++ [f], x.id < g.id := by
  have hrecent : (x :: R).map Ending.id ⊆ (done s).map Job.id := by
    intro i hi
    obtain ⟨g, hg, rfl⟩ := List.mem_map.mp hi
    obtain ⟨a, b, hab⟩ := List.append_of_mem hg
    refine hc (before ++ a) g b (by rw [hfs, hab, List.append_assoc]) ?_
    have := congrArg List.length hab
    simp only [List.length_append, List.length_cons] at this
    omega
  have hnodup : ((x :: R).map Ending.id).Nodup := by
    have := hr.nodup
    rw [hfs, List.map_append] at this
    exact (List.nodup_append.mp this).2.1
  -- the history is full: it holds the last 100 jobs to end and no other
  have hfull : ((x :: R).map Ending.id).Perm ((done s).map Job.id) := by
    refine (hnodup.subperm hrecent).perm_of_length_le ?_
    have := length_done_le hs
    simp only [List.length_map, List.length_cons]
    omega
  have hperm : ((marked f s).map Job.id).Perm (x.id :: (R ++ [f]).map Ending.id) := by
    refine (ids_marked hs hf).trans (((hfull.symm).cons f.id).trans ?_)
    rw [List.map_cons, List.map_append]
    exact (List.Perm.swap _ _ _).trans ((List.perm_append_singleton _ _).symm.cons _)
  have hlength : (marked f s).length = 101 := by
    have := hperm.length_eq
    simp only [List.length_map, List.length_cons, List.length_append, List.length_nil] at this
    omega
  obtain ⟨m, t, hm⟩ := List.exists_cons_of_length_eq_add_one hlength
  have hdone : (done (s.step e)).map Job.id = t.map Job.id := by
    rw [done_of_ending hs hf, if_pos (by omega), hm, List.tail_cons]
  have hsorted := sorted_marked (f := f) hs
  rw [hm, List.map_cons] at hperm hsorted
  have hcovers : Covers (s.step e) (fs ++ [f]) ↔ ∀ y ∈ (R ++ [f]).map Ending.id, y ∈ t.map Job.id := by
    rw [Covers, hdone]
    constructor
    · intro h y hy
      obtain ⟨g, hg, rfl⟩ := List.mem_map.mp hy
      obtain ⟨a, b, hab⟩ := List.append_of_mem hg
      refine h (before ++ x :: a) g b (by rw [hfs]; simp [hab]) ?_
      have := congrArg List.length hab
      simp only [List.length_append, List.length_cons, List.length_nil] at this
      omega
    · intro h earlier g later hsplit hlater
      refine h g.id (List.mem_map_of_mem ?_)
      have hsuffix : g :: later <:+ R ++ [f] := by
        have hshown : g :: later <:+ fs ++ [f] := ⟨earlier, hsplit.symm⟩
        have hrest : R ++ [f] <:+ fs ++ [f] := ⟨before ++ [x], by rw [hfs]; simp⟩
        apply List.suffix_of_suffix_length_le hshown hrest
        simp only [List.length_cons, List.length_append, List.length_nil]
        omega
      exact hsuffix.subset List.mem_cons_self
  rw [hcovers, tail_covers_iff hsorted hperm]
  exact List.forall_mem_map

/-- A step keeps the last 100 outcomes visible exactly where it ends jobs in order. -/
theorem visible_concat_iff (config : κ) (transport : τ) (es : List (Event κ τ)) (e : Event κ τ)
    (hv : Visible config transport es) :
    Visible config transport (es ++ [e]) ↔ EndsInOrder config transport es e := by
  have hs := owned_run (owned_new config transport) es
  have hr := recorded_run config transport es
  rw [visible_iff] at hv ⊢
  unfold EndsInOrder
  rw [run_concat, endings_concat, beginnings_eq_range]
  generalize (System.new config transport).run es = s at hs hr hv ⊢
  generalize endings (System.new config transport) es = fs at hr hv ⊢
  cases hf : s.ending e with
  | none =>
    rw [Option.toList_none, List.append_nil]
    refine iff_of_true ?_ (by simp)
    rw [Covers, done_of_ending_none hs hf]
    exact hv
  | some f =>
    rw [Option.toList_some]
    have hr' := hr.step_some hs hf
    have hlt : ∀ g ∈ fs ++ [f], g.id < s.fresh := by
      have := hr'.below
      rwa [step_of_ending hf] at this
    by_cases hfew : fs.length < 100
    · refine iff_of_true (covers_of_few hs hr hv hf hfew) ?_
      intro f' hf' earlier x later hsplit hlater
      have := congrArg List.length hsplit
      obtain rfl := Option.some.inj hf'
      simp only [List.length_append, List.length_cons, List.length_nil] at this
      omega
    · obtain ⟨x, R, hxR⟩ : ∃ x R, fs.drop (fs.length - 100) = x :: R :=
        List.exists_cons_of_length_eq_add_one (n := 99) (by rw [List.length_drop]; omega)
      have hfs : fs = fs.take (fs.length - 100) ++ x :: R := by
        rw [← hxR, List.take_append_drop]
      have hR : R.length = 99 := by
        have := congrArg List.length hxR
        rw [List.length_drop, List.length_cons] at this
        omega
      rw [covers_iff_of_many hs hr hv hf hfs hR]
      constructor
      · intro h f' hf' earlier y later hsplit hlater g hg
        obtain rfl := Option.some.inj hf'
        have hwhole : fs.take (fs.length - 100) ++ x :: (R ++ [f]) = earlier ++ y :: later := by
          rw [← hsplit]
          conv_rhs => rw [hfs]
          simp
        obtain ⟨-, hlast⟩ := List.append_inj' hwhole (by simp [hR, hlater])
        obtain ⟨rfl, rfl⟩ := List.cons.inj hlast
        refine (pair_sublist_range (hlt g ?_)).mpr (h g hg)
        rw [hsplit]
        exact List.mem_append_right _ (List.mem_cons_of_mem _ hg)
      · intro h g hg
        have hsplit : fs ++ [f] = fs.take (fs.length - 100) ++ x :: (R ++ [f]) := by
          conv_lhs => rw [hfs]
          simp
        refine (pair_sublist_range (hlt g ?_)).mp
          (h f rfl _ x (R ++ [f]) hsplit (by simp [hR]) g hg)
        rw [hsplit]
        exact List.mem_append_right _ (List.mem_cons_of_mem _ hg)

end Window

/-- Outcomes stay visible throughout a run exactly where, at every ending, the first to end of the
last 101 jobs began before the other 100. -/
theorem run_visible_iff (config : κ) (transport : τ) (es : List (Event κ τ)) :
    EveryPrefix (Visible config transport) es ↔ EveryStep (EndsInOrder config transport) es := by
  refine everyPrefix_iff_everyStep ?_ (fun pre e => visible_concat_iff config transport pre e) es
  intro earlier f later hsplit
  simp [endings] at hsplit

/-- An image sync that outlasts 100 game syncs: its outcome is gone as soon as it ends. -/
def longImageSync : List (Event Unit Unit) :=
  .begin "images" "manual" Dataset.images.mask 30 ::
    (List.range 100).flatMap (fun i =>
      [.begin "game" "background" Dataset.game.mask 0, .finish (i + 1) .succeeded .null]) ++
    [.finish 0 .succeeded .null]

/-- The job just ended is the first to begin of the 101 completed ones, so it is trimmed. -/
theorem run_not_visible : ¬ EveryPrefix (Visible () ()) longImageSync := by
  intro h
  have hlast : (endings (System.new () ()) longImageSync).getLast?.map Ending.id = some 0 := by
    decide +kernel
  have hlost : (((System.new () ()).run longImageSync).coordinator.show 0).toOption.isNone = true := by
    decide +kernel
  obtain ⟨f, hf, hid⟩ := Option.map_eq_some_iff.mp hlast
  obtain ⟨earlier, hsplit⟩ := List.getLast?_eq_some_iff.mp hf
  obtain ⟨j, hshow, -⟩ := h.self earlier f [] hsplit (by simp)
  rw [hid] at hshow
  simp [hshow, Except.toOption] at hlost

end PrtsMcp.Jobs
