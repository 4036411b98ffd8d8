import PrtsMcp.Runs

/-!
# Snapshots

The view that all callers share, kept under the signature of the files it was resolved from, while
the files change under them.
-/
namespace PrtsMcp.Snapshot

open Runs (EveryPrefix EveryStep)

variable {σ κ ν ι : Type*}

/-- What a snapshot makes of the files. -/
structure Reader (σ κ ν : Type*) where
  verifyData : σ → Bool
  activationSignature : σ → κ
  resolveView : σ → ν
  unavailable : ν

/-- The view from scratch. -/
def Reader.fresh (r : Reader σ κ ν) (files : σ) : ν :=
  if r.verifyData files then r.resolveView files else r.unavailable

/-- What a call does next, with the signature it read and the view it was given. -/
inductive Pc (κ ν : Type*) where
  | idle
  | verifying
  | signing
  | looking (signature : κ)
  | entering (signature : κ)
  | resolving (signature : κ)
  | rechecking (view : ν)
  | invalidating
  | done (view : ν)

def Pc.isRunning : Pc κ ν → Bool
  | .idle | .done _ => false
  | _ => true

/-- The files, and the process that reads them. `holder` has the write lock of the cache across
steps; `held` lists what the files have been since a call began, up to its end. -/
structure DataState (ι σ κ ν : Type*) where
  files : σ
  cache : Option (κ × ν)
  holder : Option ι
  pc : ι → Pc κ ν
  held : ι → List σ

def start (files : σ) : DataState ι σ κ ν := ⟨files, none, none, fun _ => .idle, fun _ => []⟩

inductive Event (ι σ : Type*) where
  | publish (files : σ)
  | begin (q : ι)
  | act (q : ι)

def Event.isPublish : Event ι σ → Bool
  | .publish _ => true
  | _ => false

@[simps]
def DataState.setHolder (s : DataState ι σ κ ν) (holder : Option ι) : DataState ι σ κ ν :=
  { s with holder }

@[simps]
def DataState.setCache (s : DataState ι σ κ ν) (cache : Option (κ × ν)) : DataState ι σ κ ν :=
  { s with cache }

/-- The calls under way see the new files. -/
def DataState.publish (s : DataState ι σ κ ν) (files : σ) : DataState ι σ κ ν :=
  { s with files, held := fun q => if (s.pc q).isRunning then files :: s.held q else s.held q }

/-- The view kept under the signature. -/
def DataState.hit [DecidableEq κ] (s : DataState ι σ κ ν) (signature : κ) : Option ν :=
  (s.cache.filter fun entry => entry.1 = signature).map Prod.snd

section Steps

variable [DecidableEq ι] [DecidableEq κ]

@[simps]
def DataState.goto (s : DataState ι σ κ ν) (q : ι) (pc : Pc κ ν) : DataState ι σ κ ν :=
  { s with pc := Function.update s.pc q pc }

def DataState.begin (s : DataState ι σ κ ν) (q : ι) : DataState ι σ κ ν :=
  match s.pc q with
  | .idle => { s.goto q .verifying with held := Function.update s.held q [s.files] }
  | _ => s

/-- The next step of a `snapshot` call. The signature is read before any lock is taken, and the
cache is looked at again under the write lock, which is held through the resolution. -/
def snapshot (r : Reader σ κ ν) (s : DataState ι σ κ ν) (q : ι) : DataState ι σ κ ν :=
  match s.pc q with
  | .verifying => s.goto q (if r.verifyData s.files then .signing else .invalidating)
  | .signing => s.goto q (.looking (r.activationSignature s.files))
  | .looking signature =>
    if s.holder.isSome then s
    else match s.hit signature with
      | some view => s.goto q (.rechecking view)
      | none => s.goto q (.entering signature)
  | .entering signature =>
    if s.holder.isSome then s
    else match s.hit signature with
      | some view => s.goto q (.rechecking view)
      | none => (s.setHolder (some q)).goto q (.resolving signature)
  | .resolving signature =>
    ((s.setCache (some (signature, r.resolveView s.files))).setHolder none).goto q
      (.rechecking (r.resolveView s.files))
  | .rechecking view => s.goto q (if r.verifyData s.files then .done view else .invalidating)
  | .invalidating =>
    if s.holder.isSome then s else (s.setCache none).goto q (.done r.unavailable)
  | .idle | .done _ => s

def next (r : Reader σ κ ν) (s : DataState ι σ κ ν) : Event ι σ → DataState ι σ κ ν
  | .publish files => s.publish files
  | .begin q => s.begin q
  | .act q => snapshot r s q

def run (r : Reader σ κ ν) (files : σ) (es : List (Event ι σ)) : DataState ι σ κ ν :=
  es.foldl (next r) (start files)

theorem run_snoc (r : Reader σ κ ν) (files : σ) (es : List (Event ι σ)) (e : Event ι σ) :
    run r files (es ++ [e]) = next r (run r files es) e := by
  simp [run]

theorem run_append (r : Reader σ κ ν) (files : σ) (es fs : List (Event ι σ)) :
    run r files (es ++ fs) = fs.foldl (next r) (run r files es) := by
  simp [run]

end Steps

/-- The view is the resolution of files that stood during a call, and it is served only while the
files belong to the configured source. -/
def Reader.Answers (r : Reader σ κ ν) (held : List σ) (view : ν) : Prop :=
  ((∃ f ∈ held, r.verifyData f = true) ∧ ∃ f ∈ held, view = r.resolveView f) ∨
    (∃ f ∈ held, r.verifyData f = false) ∧ view = r.unavailable

/-- While one state of the files was all that a call saw, its view is the one from scratch. -/
theorem Reader.Answers.eq_fresh {r : Reader σ κ ν} {files : σ} {view : ν}
    (h : r.Answers [files] view) : view = r.fresh files := by
  unfold Reader.fresh
  rcases h with ⟨⟨f, hf, hverify⟩, g, hg, hview⟩ | ⟨⟨f, hf, hverify⟩, hview⟩
  · obtain rfl := List.mem_singleton.mp hf
    obtain rfl := List.mem_singleton.mp hg
    rw [if_pos hverify, hview]
  · obtain rfl := List.mem_singleton.mp hf
    rw [hverify, hview]
    rfl

/-- Every view that a call has returned is that of files which stood during the call. -/
def DataState.Answered (r : Reader σ κ ν) (s : DataState ι σ κ ν) : Prop :=
  ∀ q view, s.pc q = .done view → r.Answers (s.held q) view

/-- The files are published only where the cached view is of another signature, or is theirs. -/
def Covered (r : Reader σ κ ν) (s : DataState ι σ κ ν) : Event ι σ → Prop
  | .publish files =>
    ∀ entry ∈ s.cache, entry.1 = r.activationSignature files → entry.2 = r.resolveView files
  | _ => True

section Soundness

variable {r : Reader σ κ ν} {s s' : DataState ι σ κ ν} {q : ι}

/-- Where a call stands. What it may still be given under its signature is the view of files that
stood since it began. -/
def DataState.CallSound (r : Reader σ κ ν) (s : DataState ι σ κ ν) (held : List σ) :
    Pc κ ν → Prop
  | .idle => True
  | .verifying => s.files ∈ held
  | .signing | .resolving _ => s.files ∈ held ∧ ∃ f ∈ held, r.verifyData f = true
  | .looking signature | .entering signature =>
    s.files ∈ held ∧ (∃ f ∈ held, r.verifyData f = true) ∧
      ∀ entry ∈ s.cache, entry.1 = signature → ∃ f ∈ held, entry.2 = r.resolveView f
  | .rechecking view =>
    s.files ∈ held ∧ (∃ f ∈ held, r.verifyData f = true) ∧ ∃ f ∈ held, view = r.resolveView f
  | .invalidating => ∃ f ∈ held, r.verifyData f = false
  | .done view => r.Answers held view

/-- A view kept under the signature of the files is theirs, and every call is sound. -/
structure DataState.Sound (r : Reader σ κ ν) (s : DataState ι σ κ ν) : Prop where
  current : ∀ entry ∈ s.cache, entry.1 = r.activationSignature s.files →
    entry.2 = r.resolveView s.files
  calls : ∀ q, s.CallSound r (s.held q) (s.pc q)

theorem DataState.Sound.answered (h : s.Sound r) : s.Answered r := by
  intro q view hq
  have hcall := h.calls q
  rwa [hq] at hcall

theorem start_sound (r : Reader σ κ ν) (files : σ) :
    (start files : DataState ι σ κ ν).Sound r where
  current entry hentry := by cases hentry
  calls _ := trivial

theorem DataState.publish_held_of_running (files : σ) (h : (s.pc q).isRunning = true) :
    (s.publish files).held q = files :: s.held q := if_pos h

theorem DataState.publish_held_of_not_running (files : σ) (h : ¬ (s.pc q).isRunning = true) :
    (s.publish files).held q = s.held q := if_neg h

theorem exists_mem_cons_of_exists {α : Type*} {P : α → Prop} {a : α} {l : List α}
    (h : ∃ x ∈ l, P x) : ∃ x ∈ a :: l, P x := by
  obtain ⟨x, hx, hp⟩ := h
  exact ⟨x, List.mem_cons_of_mem a hx, hp⟩

/-- A call stays sound while new files are published. -/
theorem DataState.CallSound.publish {held : List σ} {pc : Pc κ ν} (files : σ)
    (h : s.CallSound r held pc) (hrunning : pc.isRunning = true) :
    (s.publish files).CallSound r (files :: held) pc := by
  have hfiles : (s.publish files).files ∈ files :: held := List.mem_cons_self
  cases pc with
  | idle => trivial
  | verifying => exact hfiles
  | signing | resolving signature => exact ⟨hfiles, exists_mem_cons_of_exists h.2⟩
  | looking signature | entering signature =>
    obtain ⟨-, hverify, hcache⟩ := h
    refine ⟨hfiles, exists_mem_cons_of_exists hverify, fun entry hentry hsig => ?_⟩
    exact exists_mem_cons_of_exists (hcache entry hentry hsig)
  | rechecking view =>
    exact ⟨hfiles, exists_mem_cons_of_exists h.2.1, exists_mem_cons_of_exists h.2.2⟩
  | invalidating => exact exists_mem_cons_of_exists h
  | done view => cases hrunning

/-- A publication keeps the invariant when no other view is kept under the new signature. -/
theorem DataState.Sound.publish (h : s.Sound r) {files : σ}
    (hcovered : Covered r s (.publish files : Event ι σ)) : (s.publish files).Sound r := by
  refine ⟨hcovered, fun q => ?_⟩
  by_cases hrunning : (s.pc q).isRunning = true
  · rw [s.publish_held_of_running files hrunning]
    exact (h.calls q).publish files hrunning
  · rw [s.publish_held_of_not_running files hrunning]
    have hcall := h.calls q
    change (s.publish files).CallSound r (s.held q) (s.pc q)
    cases hpc : s.pc q with
    | idle => trivial
    | done view => rwa [hpc] at hcall
    | _ => simp [hpc, Pc.isRunning] at hrunning

/-- A call stays sound while nothing comes into the cache but the view of the files. -/
theorem DataState.CallSound.mono {held : List σ} {pc : Pc κ ν} (h : s.CallSound r held pc)
    (hfiles : s'.files = s.files)
    (hcache : ∀ entry ∈ s'.cache, entry ∈ s.cache ∨ entry.2 = r.resolveView s.files) :
    s'.CallSound r held pc := by
  cases pc with
  | looking signature | entering signature =>
    obtain ⟨hmem, hverify, hheld⟩ := h
    refine ⟨hfiles ▸ hmem, hverify, fun entry hentry hsig => ?_⟩
    rcases hcache entry hentry with hold | hnew
    · exact hheld entry hold hsig
    · exact ⟨s.files, hmem, hnew⟩
  | verifying =>
    change s'.files ∈ held
    rw [hfiles]
    exact h
  | signing | resolving signature | rechecking view => exact ⟨hfiles ▸ h.1, h.2⟩
  | idle | invalidating | done view => exact h

/-- A step of call `q` keeps the invariant when it puts nothing but the view of the files into
the cache, and leaves `q` itself sound. -/
theorem DataState.Sound.step (h : s.Sound r) (q : ι) (hfiles : s'.files = s.files)
    (others : ∀ p, p ≠ q → s'.pc p = s.pc p ∧ s'.held p = s.held p)
    (hcache : ∀ entry ∈ s'.cache, entry ∈ s.cache ∨ entry.2 = r.resolveView s.files)
    (hq : s'.CallSound r (s'.held q) (s'.pc q)) : s'.Sound r := by
  refine ⟨fun entry hentry hsig => ?_, fun p => ?_⟩
  · rw [hfiles] at hsig ⊢
    rcases hcache entry hentry with hold | hnew
    · exact h.current entry hold hsig
    · exact hnew
  · by_cases hp : p = q
    · exact hp ▸ hq
    · rw [(others p hp).1, (others p hp).2]
      exact (h.calls p).mono hfiles hcache

theorem DataState.hit_eq_some [DecidableEq κ] {signature : κ} {view : ν}
    (h : s.hit signature = some view) : (signature, view) ∈ s.cache := by
  obtain ⟨⟨sig, v⟩, hentry, rfl⟩ := Option.map_eq_some_iff.mp h
  obtain ⟨hmem, hsig⟩ := Option.filter_eq_some_iff.mp hentry
  obtain rfl := of_decide_eq_true hsig
  exact hmem

variable [DecidableEq ι]

/-- A step that only moves call `q`. -/
theorem DataState.Sound.goto (h : s.Sound r) {pc : Pc κ ν} (hq : s.CallSound r (s.held q) pc) :
    (s.goto q pc).Sound r := by
  apply h.step q
  · rfl
  · intro p hp
    exact ⟨by simp [hp], rfl⟩
  · intro entry hentry
    exact .inl hentry
  · have hpc : (s.goto q pc).pc q = pc := by simp
    rw [hpc]
    exact hq.mono rfl fun entry hentry => .inl hentry

theorem DataState.Sound.begin (h : s.Sound r) (q : ι) : (s.begin q).Sound r := by
  unfold DataState.begin
  split
  · apply h.step q
    · rfl
    · intro p hp
      simp [hp]
    · intro entry hentry
      exact .inl hentry
    · simp [CallSound]
  · exact h

variable [DecidableEq κ]

/-- One step of one call keeps the invariant. -/
theorem DataState.Sound.snapshot (h : s.Sound r) (q : ι) : (snapshot r s q).Sound r := by
  have hq := h.calls q
  unfold Snapshot.snapshot
  cases hpc : s.pc q with
  | idle | done view => exact h
  | verifying =>
    rw [hpc] at hq
    apply h.goto
    split
    · next hverify => exact ⟨hq, s.files, hq, hverify⟩
    · next hverify => exact ⟨s.files, hq, by simpa using hverify⟩
  | signing =>
    rw [hpc] at hq
    apply h.goto
    refine ⟨hq.1, hq.2, fun entry hentry hsig => ?_⟩
    exact ⟨s.files, hq.1, h.current entry hentry hsig⟩
  | looking signature =>
    rw [hpc] at hq
    dsimp only
    split
    · exact h
    · cases hhit : s.hit signature with
      | some view => exact h.goto ⟨hq.1, hq.2.1, hq.2.2 _ (s.hit_eq_some hhit) rfl⟩
      | none => exact h.goto hq
  | entering signature =>
    rw [hpc] at hq
    dsimp only
    split
    · exact h
    · cases hhit : s.hit signature with
      | some view => exact h.goto ⟨hq.1, hq.2.1, hq.2.2 _ (s.hit_eq_some hhit) rfl⟩
      | none =>
        apply h.step q
        · rfl
        · intro p hp
          simp [hp]
        · intro entry hentry
          exact .inl hentry
        · simpa [CallSound] using ⟨hq.1, hq.2.1⟩
  | resolving signature =>
    rw [hpc] at hq
    apply h.step q
    · rfl
    · intro p hp
      simp [hp]
    · intro entry hentry
      obtain rfl : (signature, r.resolveView s.files) = entry := by simpa using hentry
      exact .inr rfl
    · simpa [CallSound] using ⟨hq.1, hq.2, s.files, hq.1, rfl⟩
  | rechecking view =>
    rw [hpc] at hq
    apply h.goto
    split
    · exact .inl hq.2
    · next hverify => exact ⟨s.files, hq.1, by simpa using hverify⟩
  | invalidating =>
    rw [hpc] at hq
    dsimp only
    split
    · exact h
    · apply h.step q
      · rfl
      · intro p hp
        simp [hp]
      · intro entry hentry
        cases hentry
      · have hanswers : r.Answers (s.held q) r.unavailable := .inr ⟨hq, rfl⟩
        simpa only [goto_pc, goto_held, setCache_pc, setCache_held, Function.update_self]

theorem DataState.Sound.next (h : s.Sound r) {e : Event ι σ} (hcovered : Covered r s e) :
    (next r s e).Sound r := by
  cases e with
  | publish files => exact h.publish hcovered
  | begin q => exact h.begin q
  | act q => exact h.snapshot q

theorem run_sound (r : Reader σ κ ν) (files : σ) {es : List (Event ι σ)}
    (hcovered : EveryStep (fun pre e => Covered r (run r files pre) e) es) :
    EveryPrefix (fun pre => (run r files pre).Sound r) es :=
  hcovered.induction (P := fun pre => (run r files pre).Sound r) (start_sound r files)
    fun pre e h hc => by
      rw [run_snoc]
      exact h.next hc

end Soundness

section Calls

variable [DecidableEq ι] [DecidableEq κ] {r : Reader σ κ ν} {s : DataState ι σ κ ν} {q : ι}

/-- A call that has returned keeps its view. -/
theorem next_done {view : ν} (h : s.pc q = .done view) (e : Event ι σ) :
    (next r s e).pc q = .done view := by
  cases e with
  | publish files => exact h
  | begin p =>
    rw [next, DataState.begin]
    split
    · next hidle =>
      have hne : q ≠ p := fun heq => by simp [heq, hidle] at h
      simpa [hne] using h
    · exact h
  | act p =>
    by_cases hp : q = p
    · subst hp
      simp [next, snapshot, h]
    · simp only [next, snapshot]
      cases s.pc p with
      | idle | done _ => exact h
      | verifying | signing | resolving _ | rechecking _ => simpa [hp] using h
      | looking signature | entering signature =>
        dsimp only
        split
        · exact h
        · cases s.hit signature <;> simpa [hp] using h
      | invalidating =>
        dsimp only
        split
        · exact h
        · simpa [hp] using h

theorem foldl_next_done {view : ν} (h : s.pc q = .done view) (es : List (Event ι σ)) :
    (es.foldl (next r) s).pc q = .done view := by
  induction es generalizing s with
  | nil => exact h
  | cons e es ih => exact ih (next_done h e)

/-- A call that has seen one state of the files. -/
def DataState.SeesOnly (s : DataState ι σ κ ν) (q : ι) (files : σ) : Prop :=
  s.pc q ≠ .idle ∧ s.held q = [files]

omit [DecidableEq κ] in
theorem DataState.begin_of_ne_idle {p : ι} (h : s.pc q ≠ .idle) :
    (s.begin p).pc q ≠ .idle ∧ (s.begin p).held q = s.held q := by
  unfold DataState.begin
  split
  · next hidle =>
    have hne : q ≠ p := fun heq => h (heq ▸ hidle)
    simpa [hne] using h
  · exact ⟨h, rfl⟩

omit [DecidableEq κ] in
theorem DataState.goto_ne_idle {p : ι} {pc : Pc κ ν} (h : s.pc q ≠ .idle) (hpc : pc ≠ .idle) :
    (s.goto p pc).pc q ≠ .idle := by
  by_cases hq : q = p
  · subst hq
    simpa using hpc
  · simpa [hq] using h

/-- A step of a call leaves every call begun, and none with other files. -/
theorem snapshot_of_ne_idle {p : ι} (h : s.pc q ≠ .idle) :
    (snapshot r s p).pc q ≠ .idle ∧ (snapshot r s p).held q = s.held q := by
  unfold snapshot
  cases s.pc p with
  | idle | done _ => exact ⟨h, rfl⟩
  | verifying | rechecking _ =>
    refine ⟨DataState.goto_ne_idle h ?_, rfl⟩
    split <;> simp
  | signing => exact ⟨DataState.goto_ne_idle h (by simp), rfl⟩
  | looking signature | entering signature =>
    dsimp only
    split
    · exact ⟨h, rfl⟩
    · cases s.hit signature with
      | some view => exact ⟨DataState.goto_ne_idle h (by simp), rfl⟩
      | none => exact ⟨DataState.goto_ne_idle h (by simp), rfl⟩
  | resolving signature => exact ⟨DataState.goto_ne_idle h (by simp), rfl⟩
  | invalidating =>
    dsimp only
    split
    · exact ⟨h, rfl⟩
    · exact ⟨DataState.goto_ne_idle h (by simp), rfl⟩

theorem DataState.SeesOnly.next {files : σ} (h : s.SeesOnly q files) {e : Event ι σ}
    (he : e.isPublish = false) : (next r s e).SeesOnly q files := by
  obtain ⟨hidle, hheld⟩ := h
  cases e with
  | publish files => cases he
  | begin p =>
    obtain ⟨hbegun, hsame⟩ := s.begin_of_ne_idle (p := p) hidle
    exact ⟨hbegun, hsame.trans hheld⟩
  | act p =>
    obtain ⟨hbegun, hsame⟩ := snapshot_of_ne_idle (r := r) (p := p) hidle
    exact ⟨hbegun, hsame.trans hheld⟩

theorem DataState.SeesOnly.foldl {files : σ} (h : s.SeesOnly q files) {es : List (Event ι σ)}
    (hes : ∀ e ∈ es, e.isPublish = false) : (es.foldl (Snapshot.next r) s).SeesOnly q files := by
  induction es generalizing s with
  | nil => exact h
  | cons e es ih => exact ih (h.next (hes e (by simp))) fun e' he' => hes e' (by simp [he'])

theorem begin_seesOnly (h : s.pc q = .idle) :
    (next r s (.begin q : Event ι σ)).SeesOnly q s.files := by
  simp [next, DataState.begin, h, DataState.SeesOnly]

/-- A call during which nothing is published returns the view of the files from scratch. -/
def ServesCurrent (r : Reader σ κ ν) (files : σ) (es : List (Event ι σ)) : Prop :=
  ∀ pre q post, es = pre ++ .begin q :: post → (run r files pre).pc q = .idle →
    (∀ e ∈ post, e.isPublish = false) → ∀ view, (run r files es).pc q = .done view →
      view = r.fresh (run r files pre).files

/-- A call that has returned keeps its view, whatever is published after it. -/
def KeepsViews (r : Reader σ κ ν) (files : σ) (es : List (Event ι σ)) : Prop :=
  ∀ pre post q view, es = pre ++ post → (run r files pre).pc q = .done view →
    (run r files es).pc q = .done view

theorem run_keepsViews (r : Reader σ κ ν) (files : σ) (es : List (Event ι σ)) :
    KeepsViews r files es := by
  rintro pre post q view rfl h
  rw [run_append]
  exact foldl_next_done h post

theorem servesCurrent_of_answered {files : σ} {es : List (Event ι σ)}
    (h : (run r files es).Answered r) : ServesCurrent r files es := by
  rintro pre q post rfl hidle hpost view hview
  have hsees : (run r files (pre ++ .begin q :: post)).SeesOnly q (run r files pre).files := by
    rw [run_append]
    exact (begin_seesOnly hidle).foldl hpost
  have hanswers := h q view hview
  rw [hsees.2] at hanswers
  exact hanswers.eq_fresh

/-- What every run of covered publications gives. -/
structure FreshSnapshots (r : Reader σ κ ν) (files : σ) (es : List (Event ι σ)) : Prop where
  answered : (run r files es).Answered r
  current : ServesCurrent r files es
  kept : KeepsViews r files es

theorem run_fresh (r : Reader σ κ ν) (files : σ) {es : List (Event ι σ)}
    (hcovered : EveryStep (fun pre e => Covered r (run r files pre) e) es) :
    EveryPrefix (FreshSnapshots r files) es :=
  (run_sound r files hcovered).imp fun pre h =>
    ⟨h.answered, servesCurrent_of_answered h.answered, run_keepsViews r files pre⟩

end Calls

end PrtsMcp.Snapshot
