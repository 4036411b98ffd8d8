import Mathlib

/-!
# Patterns with assertions

Patterns that are matched between two places of a text, with assertions on what stands around a
place. A place is the number of characters before it.
-/
namespace PrtsMcp.Lookaround

variable {α : Type}

inductive Pattern (α : Type) where
  | one (p : α → Bool)
  | seq (first second : Pattern α)
  | times (n : ℕ) (body : Pattern α)
  | plus (body : Pattern α)
  | ahead (body : Pattern α)
  | notAhead (body : Pattern α)
  | notBoundary (word : α → Bool)

/-- `n` steps of a relation. -/
def Steps (R : ℕ → ℕ → Prop) : ℕ → ℕ → ℕ → Prop
  | 0, i, j => j = i
  | n + 1, i, j => ∃ k, R i k ∧ Steps R n k j

def before (s : List α) (i : ℕ) : Option α := (s.take i).getLast?

namespace Pattern

/-- The pattern matches from one place to another. -/
def Matches (s : List α) : Pattern α → ℕ → ℕ → Prop
  | one p, i, j => j = i + 1 ∧ s[i]?.any p = true
  | seq first second, i, j => ∃ k, first.Matches s i k ∧ second.Matches s k j
  | times n body, i, j => Steps (body.Matches s) n i j
  | plus body, i, j => ∃ n, 0 < n ∧ Steps (body.Matches s) n i j
  | ahead body, i, j => j = i ∧ ∃ k, body.Matches s i k
  | notAhead body, i, j => j = i ∧ ¬ ∃ k, body.Matches s i k
  | notBoundary word, i, j => j = i ∧ (before s i).any word = s[i]?.any word

def FoundAt (s : List α) (pattern : Pattern α) (i : ℕ) : Prop := ∃ j, pattern.Matches s i j

end Pattern

open Pattern

/-! ## Runs -/

section Runs

variable {p : α → Bool} {s : List α} {i j m n : ℕ}

/-- How many characters from a place on have a property. -/
def run (p : α → Bool) (s : List α) (i : ℕ) : ℕ := ((s.drop i).takeWhile p).length

theorem le_length_takeWhile_iff (s : List α) (m : ℕ) :
    m ≤ (s.takeWhile p).length ↔ ∀ k < m, s[k]?.any p = true := by
  induction s generalizing m with
  | nil =>
    cases m with
    | zero => simp
    | succ m => simpa using ⟨0, by omega⟩
  | cons c s ih =>
    cases m with
    | zero => simp
    | succ m =>
      by_cases hc : p c = true
      · rw [List.takeWhile_cons_of_pos hc, List.length_cons, Nat.succ_le_succ_iff, ih]
        constructor
        · intro h k hk
          cases k with
          | zero => simpa using hc
          | succ k => simpa using h k (by omega)
        · intro h k hk
          simpa using h (k + 1) (by omega)
      · rw [List.takeWhile_cons_of_neg hc]
        constructor
        · intro h
          simp at h
        · intro h
          exact absurd (by simpa using h 0 (by omega)) hc

theorem le_run_iff : m ≤ run p s i ↔ ∀ k < m, s[i + k]?.any p = true := by
  simp only [run, le_length_takeWhile_iff, List.getElem?_drop]

/-- A run ends where the property fails. -/
theorem not_any_run : s[i + run p s i]?.any p ≠ true := by
  intro hnext
  have hle : run p s i + 1 ≤ run p s i := by
    rw [le_run_iff]
    intro k hk
    rcases Nat.lt_succ_iff_lt_or_eq.mp hk with hlt | rfl
    · exact le_run_iff.mp le_rfl k hlt
    · exact hnext
  omega

theorem steps_one_iff : Steps ((one p).Matches s) m i j ↔ j = i + m ∧ m ≤ run p s i := by
  induction m generalizing i with
  | zero => simp [Steps]
  | succ m ih =>
    have hstep : Steps ((one p).Matches s) (m + 1) i j ↔
        s[i]?.any p = true ∧ Steps ((one p).Matches s) m (i + 1) j := by
      simp only [Steps, Matches]
      constructor
      · rintro ⟨k, ⟨rfl, hc⟩, hrest⟩
        exact ⟨hc, hrest⟩
      · rintro ⟨hc, hrest⟩
        exact ⟨i + 1, ⟨rfl, hc⟩, hrest⟩
    rw [hstep, ih, le_run_iff, le_run_iff]
    constructor
    · rintro ⟨hc, rfl, hrest⟩
      refine ⟨by omega, fun k hk => ?_⟩
      cases k with
      | zero => exact hc
      | succ k =>
        have hnext := hrest k (by omega)
        rwa [show i + 1 + k = i + (k + 1) by omega] at hnext
    · rintro ⟨rfl, hall⟩
      refine ⟨hall 0 (by omega), by omega, fun k hk => ?_⟩
      have hnext := hall (k + 1) (by omega)
      rwa [show i + (k + 1) = i + 1 + k by omega] at hnext

theorem steps_times_iff :
    Steps ((times n (one p)).Matches s) m i j ↔ j = i + n * m ∧ n * m ≤ run p s i := by
  induction m generalizing i with
  | zero => simp [Steps]
  | succ m ih =>
    have hstep : Steps ((times n (one p)).Matches s) (m + 1) i j ↔
        n ≤ run p s i ∧ Steps ((times n (one p)).Matches s) m (i + n) j := by
      rw [Steps]
      constructor
      · rintro ⟨k, hfirst, hrest⟩
        obtain ⟨rfl, hle⟩ := steps_one_iff.mp hfirst
        exact ⟨hle, hrest⟩
      · rintro ⟨hle, hrest⟩
        exact ⟨i + n, steps_one_iff.mpr ⟨rfl, hle⟩, hrest⟩
    rw [hstep, ih, le_run_iff, le_run_iff, le_run_iff, Nat.mul_succ]
    constructor
    · rintro ⟨hfirst, rfl, hrest⟩
      refine ⟨by omega, fun k hk => ?_⟩
      rcases Nat.lt_or_ge k n with hlt | hge
      · exact hfirst k hlt
      · have hnext := hrest (k - n) (by omega)
        rwa [show i + n + (k - n) = i + k by omega] at hnext
    · rintro ⟨rfl, hall⟩
      refine ⟨fun k hk => hall k (by omega), by omega, fun k hk => ?_⟩
      have hnext := hall (n + k) (by omega)
      rwa [show i + (n + k) = i + n + k by omega] at hnext

/-- Groups of `n` up to the end of a run: as many as there are is the whole run. -/
theorem foundAt_groups_iff :
    (seq (plus (times n (one p))) (notAhead (one p))).FoundAt s i ↔ n ∣ run p s i ∧ n ≤ run p s i := by
  constructor
  · rintro ⟨j, k, ⟨m, hm, hsteps⟩, hstop⟩
    obtain ⟨rfl, hle⟩ := steps_times_iff.mp hsteps
    have hlast : s[i + n * m]?.any p ≠ true := by
      intro hnext
      exact hstop.2 ⟨_, rfl, hnext⟩
    have hrun : run p s i = n * m := by
      by_contra hne
      exact hlast (le_run_iff.mp le_rfl (n * m) (by omega))
    rw [hrun]
    exact ⟨Dvd.intro m rfl, Nat.le_mul_of_pos_right n hm⟩
  · rintro ⟨⟨m, hm⟩, hle⟩
    rcases Nat.eq_zero_or_pos m with rfl | hpos
    · refine ⟨i, i, ⟨1, one_pos, steps_times_iff.mpr ⟨by omega, by omega⟩⟩, rfl, ?_⟩
      rintro ⟨k, hk⟩
      have hlast : s[i + run p s i]?.any p ≠ true := not_any_run
      rw [hm, Nat.mul_zero] at hlast
      exact hlast hk.2
    · refine ⟨i + n * m, i + n * m, ⟨m, hpos, steps_times_iff.mpr ⟨rfl, hm.ge⟩⟩, rfl, ?_⟩
      rintro ⟨k, hk⟩
      have hlast : s[i + run p s i]?.any p ≠ true := not_any_run
      rw [hm] at hlast
      exact hlast hk.2

end Runs

/-! ## Insertions -/

/-- `sep` before every place that `P` holds of. -/
def insertAt (sep : α) (P : ℕ → Prop) [DecidablePred P] (s : List α) : List α :=
  s.zipIdx.flatMap fun entry => if P entry.2 then [sep, entry.1] else [entry.1]

end PrtsMcp.Lookaround
