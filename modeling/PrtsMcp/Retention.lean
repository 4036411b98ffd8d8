import PrtsMcp.Process

/-!
# Retention

Items with a date, of which some are in use. Pruning removes items that are out of use and out of
date. When an item goes out of use its date has to be that of the moment; the law below says which
steps of a run may come between without a reader of that moment losing the item.
-/
namespace PrtsMcp.Retention

open Process

variable {σ κ ω ι β : Type}

/-- `served` items have been in use at some time, and `young T` ones were dated at `T` or later.
Pruning skips a `kept` item. -/
structure Shelf (σ ι β : Type) where
  now : σ → ℕ
  active : σ → ι → Prop
  served : σ → ι → Prop
  kept : σ → ι → Prop
  content : σ → ι → Option β
  young : ℕ → σ → ι → Prop

namespace Shelf

variable (S : Shelf σ ι β) (window : ℕ) (pruned : κ → Option ι)

/-- A pruning step finds the item kept, or dated within the window. -/
def Spares (v : Visit σ κ ω) (i : ι) : Prop :=
  S.kept v.before i ∨ S.young (S.now v.after - window) v.before i

/-- One step: only a pruning step that does not spare an item changes it. -/
structure Steps (v : Visit σ κ ω) : Prop where
  clock : S.now v.before ≤ S.now v.after
  served_of_active : ∀ i, S.active v.before i → S.served v.before i
  served : ∀ i, S.served v.before i → S.served v.after i
  content : ∀ i x, S.served v.before i → S.content v.before i = some x →
    (pruned v.op = some i → S.Spares window v i) → S.content v.after i = some x
  young : ∀ i x T, S.served v.before i → S.content v.before i = some x →
    (pruned v.op = some i → S.Spares window v i) → T ≤ S.now v.after → S.young T v.before i →
    S.young T v.after i

/-- Pruning spares the items in use. -/
def SparesActive (v : Visit σ κ ω) : Prop :=
  ∀ i ∈ pruned v.op, S.active v.before i → S.Spares window v i

/-- The item goes out of use. -/
def Retires (v : Visit σ κ ω) (i : ι) : Prop := S.active v.before i ∧ ¬ S.active v.after i

/-- No pruning of an item that `u` retired falls behind its date plus the window and before its
retirement plus the window. -/
def NoGap (u v : Visit σ κ ω) : Prop :=
  ∀ i ∈ pruned v.op, S.Retires u i →
    S.young (S.now v.after - window) u.before i ∨ S.now u.after + window ≤ S.now v.after

/-- What was in use in the first state is unchanged in the second, within the window. -/
def Outlives (a b : σ) : Prop :=
  ∀ i x, S.active a i → S.content a i = some x → S.now b < S.now a + window →
    S.content b i = some x

variable {S window pruned} {s t : σ} {vs : List (Visit σ κ ω)} {a : σ} {i : ι} {x : β}

theorem now_le_of_linked (h : Linked s vs t) (hsteps : ∀ v ∈ vs, S.Steps window pruned v) :
    ∀ b ∈ vs.map Visit.after, S.now s ≤ S.now b := by
  have hordered : (s :: vs.map Visit.after).Pairwise fun b c => S.now b ≤ S.now c :=
    have : IsTrans σ fun b c => S.now b ≤ S.now c := ⟨fun _ _ _ => le_trans⟩
    h.pairwise fun v hv => (hsteps v hv).clock
  exact (List.pairwise_cons.mp hordered).1

/-- What a reader of state `a` relies on in state `s`: the item is in use, or a step `u` since `a`
retired it, and no later pruning falls into the gap of `u`. -/
structure Held (S : Shelf σ ι β) (window : ℕ) (pruned : κ → Option ι) (a : σ) (i : ι) (x : β)
    (rest : List (Visit σ κ ω)) (s : σ) : Prop where
  clock : S.now a ≤ S.now s
  served : S.served s i
  content : S.content s i = some x
  guarded : S.active s i ∨ ∃ u : Visit σ κ ω, S.Retires u i ∧ S.now a ≤ S.now u.after ∧
    (∀ T ≤ S.now a, S.young T u.before i → S.young T s i) ∧ ∀ v ∈ rest, S.NoGap window pruned u v

/-- One step within the window. -/
theorem Held.step {v : Visit σ κ ω} {rest : List (Visit σ κ ω)}
    (h : Held S window pruned a i x (v :: rest) v.before) (hv : S.Steps window pruned v)
    (hactive : S.SparesActive window pruned v) (hgap : ∀ w ∈ rest, S.NoGap window pruned v w)
    (hnow : S.now v.after < S.now a + window) : Held S window pruned a i x rest v.after := by
  have hcutoff : S.now v.after - window ≤ S.now a := by omega
  have hclock : S.now a ≤ S.now v.after := h.clock.trans hv.clock
  have hspares : pruned v.op = some i → S.Spares window v i := by
    intro hop
    rcases h.guarded with hact | ⟨u, hu, hua, hyoung, hrest⟩
    · exact hactive i hop hact
    · rcases hrest v (by simp) i hop hu with hold | hlate
      · exact .inr (hyoung _ hcutoff hold)
      · omega
  have hcontent : S.content v.after i = some x := hv.content i x h.served h.content hspares
  have hyounger : ∀ T ≤ S.now a, S.young T v.before i → S.young T v.after i :=
    fun T hT => hv.young i x T h.served h.content hspares (hT.trans hclock)
  refine ⟨hclock, hv.served i h.served, hcontent, ?_⟩
  by_cases hact : S.active v.after i
  · exact .inl hact
  · right
    rcases h.guarded with hbefore | ⟨u, hu, hua, hyoung, hrest⟩
    · exact ⟨v, ⟨hbefore, hact⟩, hclock, hyounger, hgap⟩
    · exact ⟨u, hu, hua, fun T hT hT' => hyounger T hT (hyoung T hT hT'),
        fun w hw => hrest w (by simp [hw])⟩

theorem Held.run (h : Held S window pruned a i x vs s) (hlinked : Linked s vs t)
    (hsteps : ∀ v ∈ vs, S.Steps window pruned v)
    (hactive : ∀ v ∈ vs, S.SparesActive window pruned v)
    (hgap : vs.Pairwise (S.NoGap window pruned)) :
    ∀ b ∈ vs.map Visit.after, S.now b < S.now a + window → S.content b i = some x := by
  induction vs generalizing s with
  | nil => simp
  | cons v vs ih =>
    obtain ⟨rfl, hrest⟩ := hlinked
    obtain ⟨hv, hsteps⟩ := List.forall_mem_cons.mp hsteps
    obtain ⟨hva, hactive⟩ := List.forall_mem_cons.mp hactive
    obtain ⟨hvgap, hgap⟩ := List.pairwise_cons.mp hgap
    intro b hb hnow
    rw [List.map_cons, List.mem_cons] at hb
    have hvnow : S.now v.after < S.now a + window := by
      rcases hb with rfl | hb
      · exact hnow
      · exact (now_le_of_linked hrest hsteps b hb).trans_lt hnow
    have hheld := h.step hv hva hvgap hvnow
    rcases hb with rfl | hb
    · exact hheld.content
    · exact ih hheld hrest hsteps hactive hgap b hb hnow

/-- Over a whole run: where pruning spares the items in use and stays out of the gaps, every item
outlives its readers. -/
theorem outlives_of_linked (hlinked : Linked s vs t)
    (hsteps : ∀ v ∈ vs, S.Steps window pruned v)
    (hactive : ∀ v ∈ vs, S.SparesActive window pruned v)
    (hgap : vs.Pairwise (S.NoGap window pruned)) :
    (s :: vs.map Visit.after).Pairwise (S.Outlives window) := by
  induction vs generalizing s with
  | nil => simp
  | cons v vs ih =>
    have hfirst : ∀ b ∈ (v :: vs).map Visit.after, S.Outlives window s b := by
      intro b hb i x hact hx hnow
      have hserved : S.served s i := by
        obtain ⟨rfl, -⟩ := hlinked
        exact (hsteps v (by simp)).served_of_active i hact
      have hheld : Held S window pruned s i x (v :: vs) s :=
        ⟨le_refl _, hserved, hx, .inl hact⟩
      exact hheld.run hlinked hsteps hactive hgap b hb hnow
    obtain ⟨-, hrest⟩ := hlinked
    have htail := ih hrest (fun w hw => hsteps w (by simp [hw]))
      (fun w hw => hactive w (by simp [hw])) (List.pairwise_cons.mp hgap).2
    rw [List.map_cons] at hfirst ⊢
    exact List.pairwise_cons.mpr ⟨hfirst, htail⟩

end Shelf

end PrtsMcp.Retention
