import Mathlib

/-!
# Interleavings

Tasks that act on a shared core, one atomic act after the other in any order, besides what happens
around them. Two rules carry properties over whole runs: assertions of tasks that the acts of the
others keep, and balances that every act keeps.
-/
namespace PrtsMcp.Interleaving

variable {γ τ ε : Type}

/-- `acts t c e ts c'`: the task `t` acts on the core `c`, which becomes `c'`, and goes on as the
tasks `ts`. `happens c e ts c'`: something else happens, from which the tasks `ts` come. -/
structure Machine (γ τ ε : Type) where
  acts : τ → γ → ε → List τ → γ → Prop
  happens : γ → ε → List τ → γ → Prop

structure Config (γ τ : Type) where
  core : γ
  tasks : List τ

inductive Step (m : Machine γ τ ε) : Config γ τ → ε → Config γ τ → Prop where
  | act {t : τ} {c c' : γ} {e : ε} {ts : List τ} (l r : List τ) :
    m.acts t c e ts c' → Step m ⟨c, l ++ t :: r⟩ e ⟨c', l ++ (ts ++ r)⟩
  | happen {c c' : γ} {e : ε} {ts : List τ} (l : List τ) :
    m.happens c e ts c' → Step m ⟨c, l⟩ e ⟨c', l ++ ts⟩

/-- A run with its events, the last of them last. -/
inductive Run (m : Machine γ τ ε) (start : Config γ τ) : List ε → Config γ τ → Prop where
  | nil : Run m start [] start
  | snoc {es : List ε} {e : ε} {x y : Config γ τ} :
    Run m start es x → Step m x e y → Run m start (es ++ [e]) y

variable {m : Machine γ τ ε} {start x y : Config γ τ} {es fs : List ε} {e : ε}

/-- The configurations around the first events of a run. -/
theorem Run.split (h : Run m start (es ++ fs) y) :
    ∃ x, Run m start es x ∧ Run m x fs y := by
  induction fs using List.reverseRecOn generalizing y with
  | nil => exact ⟨y, by simpa using h, .nil⟩
  | append_singleton fs e ih =>
    rw [← List.append_assoc] at h
    generalize hall : es ++ fs ++ [e] = all at h
    cases h with
    | nil => simp at hall
    | snoc hrun hstep =>
      obtain ⟨rfl, rfl⟩ := List.append_singleton_inj.mp hall
      obtain ⟨x, hx, hy⟩ := ih hrun
      exact ⟨x, hx, .snoc hy hstep⟩

/-- The configurations around one event of a run. -/
theorem Run.around (h : Run m start (es ++ e :: fs) y) :
    ∃ x z, Run m start es x ∧ Step m x e z ∧ Run m start (es ++ [e]) z ∧ Run m z fs y := by
  rw [show es ++ e :: fs = es ++ [e] ++ fs by simp] at h
  obtain ⟨z, hz, hy⟩ := h.split
  generalize hall : es ++ [e] = all at hz
  cases hz with
  | nil => simp at hall
  | snoc hrun hstep =>
    obtain ⟨rfl, rfl⟩ := List.append_singleton_inj.mp hall
    exact ⟨_, z, hrun, hstep, .snoc hrun hstep, hy⟩

/-! ## Assertions of tasks -/

/-- An invariant of the core and the events so far, with an assertion of every task. The acts of a
task keep the invariant, establish the assertions of the tasks it goes on as, and keep those of
all others. -/
structure Outline (m : Machine γ τ ε) (Inv : List ε → γ → Prop) (Holds : List ε → γ → τ → Prop) :
    Prop where
  act : ∀ {es t c e ts c'}, m.acts t c e ts c' → Inv es c → Holds es c t →
    Inv (es ++ [e]) c' ∧ ∀ u ∈ ts, Holds (es ++ [e]) c' u
  others : ∀ {es t c e ts c'}, m.acts t c e ts c' → Inv es c → Holds es c t →
    ∀ u, Holds es c u → Holds (es ++ [e]) c' u
  happen : ∀ {es c e ts c'}, m.happens c e ts c' → Inv es c →
    Inv (es ++ [e]) c' ∧ (∀ u ∈ ts, Holds (es ++ [e]) c' u) ∧
      ∀ u, Holds es c u → Holds (es ++ [e]) c' u

variable {Inv : List ε → γ → Prop} {Holds : List ε → γ → τ → Prop}

theorem Outline.step (h : Outline m Inv Holds) (hstep : Step m x e y) (hinv : Inv es x.core)
    (hx : ∀ t ∈ x.tasks, Holds es x.core t) :
    Inv (es ++ [e]) y.core ∧ ∀ t ∈ y.tasks, Holds (es ++ [e]) y.core t := by
  cases hstep with
  | act l r hact =>
    have ht := hx _ (List.mem_append_right l List.mem_cons_self)
    obtain ⟨hinv', hts⟩ := h.act hact hinv ht
    refine ⟨hinv', fun u hu => ?_⟩
    rcases List.mem_append.mp hu with hu | hu
    · exact h.others hact hinv ht u (hx u (List.mem_append_left _ hu))
    · rcases List.mem_append.mp hu with hu | hu
      · exact hts u hu
      · exact h.others hact hinv ht u (hx u (by simp [hu]))
  | happen l hhappen =>
    obtain ⟨hinv', hts, hkept⟩ := h.happen hhappen hinv
    refine ⟨hinv', fun u hu => ?_⟩
    rcases List.mem_append.mp hu with hu | hu
    · exact hkept u (hx u hu)
    · exact hts u hu

theorem Outline.run (h : Outline m Inv Holds) (hrun : Run m start es x) (hstart : Inv [] start.core)
    (htasks : ∀ t ∈ start.tasks, Holds [] start.core t) :
    Inv es x.core ∧ ∀ t ∈ x.tasks, Holds es x.core t := by
  induction hrun with
  | nil => exact ⟨hstart, htasks⟩
  | snoc _ hstep ih => exact h.step hstep ih.1 ih.2

/-! ## Balances -/

section Balances

/-- What one item counts. -/
def ind {α : Type} (q : α → Bool) (a : α) : ℤ := if q a then 1 else 0

theorem sum_ind {α : Type} (q : α → Bool) (l : List α) : (l.map (ind q)).sum = l.countP q := by
  induction l with
  | nil => rfl
  | cons a l ih =>
    rw [List.map_cons, List.sum_cons, ih, List.countP_cons, ind]
    split <;> push_cast <;> ring

theorem sum_ind_sub {α : Type} (q r : α → Bool) (l : List α) :
    (l.map fun a => ind q a - ind r a).sum = (l.countP q : ℤ) - l.countP r := by
  rw [← sum_ind, ← sum_ind]
  induction l with
  | nil => rfl
  | cons a l ih =>
    rw [List.map_cons, List.sum_cons, ih, List.map_cons, List.sum_cons, List.map_cons,
      List.sum_cons]
    ring

/-- What the core, the tasks and the events weigh together. -/
def total (pot : γ → ℤ) (weight : τ → ℤ) (score : ε → ℤ) (es : List ε) (x : Config γ τ) : ℤ :=
  pot x.core + (x.tasks.map weight).sum + (es.map score).sum

variable {Good : γ → Prop} {pot : γ → ℤ} {weight : τ → ℤ} {score : ε → ℤ}

/-- No step from a core that is `Good` adds weight. -/
structure Bounded (m : Machine γ τ ε) (Good : γ → Prop) (pot : γ → ℤ) (weight : τ → ℤ)
    (score : ε → ℤ) : Prop where
  act : ∀ {t c e ts c'}, m.acts t c e ts c' → Good c →
    pot c' + (ts.map weight).sum + score e ≤ pot c + weight t
  happen : ∀ {c e ts c'}, m.happens c e ts c' → Good c →
    pot c' + (ts.map weight).sum + score e ≤ pot c

/-- No step from a core that is `Good` changes the weight. -/
structure Balanced (m : Machine γ τ ε) (Good : γ → Prop) (pot : γ → ℤ) (weight : τ → ℤ)
    (score : ε → ℤ) : Prop where
  act : ∀ {t c e ts c'}, m.acts t c e ts c' → Good c →
    pot c' + (ts.map weight).sum + score e = pot c + weight t
  happen : ∀ {c e ts c'}, m.happens c e ts c' → Good c →
    pot c' + (ts.map weight).sum + score e = pot c

theorem Bounded.step (h : Bounded m Good pot weight score) (hx : Good x.core)
    (hstep : Step m x e y) :
    total pot weight score (es ++ [e]) y ≤ total pot weight score es x := by
  cases hstep with
  | act l r hact =>
    have hle := h.act hact hx
    simp only [total, List.map_append, List.map_cons, List.map_nil, List.sum_append, List.sum_cons,
      List.sum_nil]
    omega
  | happen l hhappen =>
    have hle := h.happen hhappen hx
    simp only [total, List.map_append, List.map_cons, List.map_nil, List.sum_append, List.sum_cons,
      List.sum_nil]
    omega

theorem Bounded.run (h : Bounded m Good pot weight score)
    (hgood : ∀ {es x}, Run m start es x → Good x.core) (hrun : Run m start es x) :
    total pot weight score es x ≤ total pot weight score [] start := by
  induction hrun with
  | nil => exact le_refl _
  | snoc hpre hstep ih => exact (h.step (hgood hpre) hstep).trans ih

theorem Balanced.step (h : Balanced m Good pot weight score) (hx : Good x.core)
    (hstep : Step m x e y) :
    total pot weight score (es ++ [e]) y = total pot weight score es x := by
  cases hstep with
  | act l r hact =>
    have heq := h.act hact hx
    simp only [total, List.map_append, List.map_cons, List.map_nil, List.sum_append, List.sum_cons,
      List.sum_nil]
    omega
  | happen l hhappen =>
    have heq := h.happen hhappen hx
    simp only [total, List.map_append, List.map_cons, List.map_nil, List.sum_append, List.sum_cons,
      List.sum_nil]
    omega

theorem Balanced.run (h : Balanced m Good pot weight score)
    (hgood : ∀ {es x}, Run m start es x → Good x.core) (hrun : Run m start es x) :
    total pot weight score es x = total pot weight score [] start := by
  induction hrun with
  | nil => rfl
  | snoc hpre hstep ih => exact (h.step (hgood hpre) hstep).trans ih

/-- What tasks of one kind do once: the events `up` and the tasks that have yet to do it are as
many as the events `down` that asked for it. -/
theorem Run.counted {w : τ → Bool} {up down : ε → Bool} {c : γ} (hrun : Run m ⟨c, []⟩ es x)
    (hact : ∀ {t c e ts c'}, m.acts t c e ts c' →
      (ts.map (ind w)).sum + (ind up e - ind down e) = ind w t)
    (hhappen : ∀ {c e ts c'}, m.happens c e ts c' →
      (ts.map (ind w)).sum + (ind up e - ind down e) = 0) :
    es.countP up + x.tasks.countP w = es.countP down := by
  have hbalanced : Balanced m (fun _ => True) (fun _ => 0) (ind w)
      fun e => ind up e - ind down e := by
    constructor
    · intro t c e ts c' h _
      have hcounted := hact h
      omega
    · intro c e ts c' h _
      have hcounted := hhappen h
      omega
  have htotal := hbalanced.run (fun _ => trivial) hrun
  simp only [total, sum_ind, sum_ind_sub, List.map_nil, List.sum_nil] at htotal
  omega

/-- What tasks of one kind do at most once. -/
theorem Run.counted_le {w : τ → Bool} {up down : ε → Bool} {c : γ} (hrun : Run m ⟨c, []⟩ es x)
    (hact : ∀ {t c e ts c'}, m.acts t c e ts c' →
      (ts.map (ind w)).sum + (ind up e - ind down e) ≤ ind w t)
    (hhappen : ∀ {c e ts c'}, m.happens c e ts c' →
      (ts.map (ind w)).sum + (ind up e - ind down e) ≤ 0) :
    es.countP up + x.tasks.countP w ≤ es.countP down := by
  have hbounded : Bounded m (fun _ => True) (fun _ => 0) (ind w)
      fun e => ind up e - ind down e := by
    constructor
    · intro t c e ts c' h _
      have hcounted := hact h
      omega
    · intro c e ts c' h _
      have hcounted := hhappen h
      omega
  have htotal := hbounded.run (fun _ => trivial) hrun
  simp only [total, sum_ind, sum_ind_sub, List.map_nil, List.sum_nil] at htotal
  omega

end Balances

end PrtsMcp.Interleaving
