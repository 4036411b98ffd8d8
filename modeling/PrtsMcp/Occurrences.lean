import Mathlib

/-!
# Occurrences of words

The places where a word stands in a text, the first of them, and the number of pieces that
splitting a text at a word gives. Words that cannot overlap stand apart in every text.
-/
namespace PrtsMcp.Occurrences

variable {α : Type*}

/-- The word stands in the text at a place. -/
def OccursAt (word text : List α) (i : ℕ) : Prop := word <+: text.drop i

theorem OccursAt.getElem? {word text : List α} {i k : ℕ} (h : OccursAt word text i)
    (hk : k < word.length) : text[i + k]? = word[k]? := by
  obtain ⟨rest, hrest⟩ := h
  rw [← List.getElem?_drop, ← hrest, List.getElem?_append_left hk]

theorem OccursAt.le_length {word text : List α} {i : ℕ} (h : OccursAt word text i)
    (hne : word ≠ []) : i + word.length ≤ text.length := by
  have hlength := h.length_le
  have hpos := List.length_pos_iff.mpr hne
  rw [List.length_drop] at hlength
  omega

@[simp]
theorem occursAt_succ {word rest : List α} {c : α} {i : ℕ} :
    OccursAt word (c :: rest) (i + 1) ↔ OccursAt word rest i := by
  simp [OccursAt]

theorem OccursAt.of_segment {word part text : List α} {i start : ℕ} (h : OccursAt word part i)
    (hpart : OccursAt part text start) : OccursAt word text (start + i) := by
  obtain ⟨after, hafter⟩ := hpart
  obtain ⟨rest, hrest⟩ := h
  refine ⟨rest ++ after.drop (i - part.length), ?_⟩
  rw [← List.drop_drop, ← hafter, List.drop_append, ← hrest, List.append_assoc]

theorem exists_occursAt {word text : List α} (h : word <:+: text) : ∃ i, OccursAt word text i := by
  obtain ⟨before, after, rfl⟩ := h
  exact ⟨before.length, after, by simp⟩

/-- A word that begins with `p` and `a`, has no further `a` and does not end with `p`. -/
structure Anchored (p a : α) (word : List α) : Prop where
  head : ∃ tail, word = p :: a :: tail ∧ a ∉ tail
  ne : p ≠ a
  last : word.getLast? ≠ some p

theorem Anchored.ne_nil {p a : α} {word : List α} (h : Anchored p a word) : word ≠ [] := by
  obtain ⟨tail, rfl, -⟩ := h.head
  simp

/-- Anchored words do not overlap. -/
theorem Anchored.apart {p a : α} {first second text : List α} {i j : ℕ} (h : Anchored p a first)
    (h' : Anchored p a second) (hi : OccursAt first text i) (hj : OccursAt second text j)
    (hlt : i < j) : i + first.length ≤ j := by
  by_contra hover
  obtain ⟨tail, hfirst, hanchor⟩ := h.head
  obtain ⟨tail', hsecond, -⟩ := h'.head
  obtain ⟨k, rfl⟩ : ∃ k, j = i + (k + 1) := ⟨j - i - 1, by omega⟩
  have hk : k + 1 < first.length := by omega
  have hp : first[k + 1]? = some p := by
    have hhead := hj.getElem? (k := 0) (by simp [hsecond])
    rw [← hi.getElem? hk, ← Nat.add_zero (i + (k + 1)), hhead, hsecond]
    rfl
  by_cases hend : k + 2 < first.length
  · have ha : first[k + 2]? = some a := by
      have hnext := hj.getElem? (k := 1) (by simp [hsecond])
      rw [← hi.getElem? hend, show i + (k + 2) = i + (k + 1) + 1 by omega, hnext, hsecond]
      rfl
    rw [hfirst, List.getElem?_cons_succ, List.getElem?_cons_succ] at ha
    exact hanchor (List.mem_of_getElem? ha)
  · refine h.last ?_
    rw [List.getLast?_eq_getElem?, show first.length - 1 = k + 1 by omega]
    exact hp

variable [DecidableEq α]

instance (word text : List α) (i : ℕ) : Decidable (OccursAt word text i) :=
  inferInstanceAs (Decidable (word <+: text.drop i))

/-- `str::find`. -/
def find (word text : List α) : Option ℕ :=
  (List.range (text.length + 1)).find? fun i => decide (OccursAt word text i)

/-- The pieces of a split at a nonempty word, from a place on that lies `skip` behind. -/
def piecesFrom (word : List α) : ℕ → List α → ℕ
  | _, [] => 1
  | skip + 1, _ :: rest => piecesFrom word skip rest
  | 0, c :: rest =>
    if word <+: c :: rest then piecesFrom word (word.length - 1) rest + 1
    else piecesFrom word 0 rest

/-- `str::split(..).count()`. -/
def pieces (word text : List α) : ℕ := piecesFrom word 0 text

theorem occursAt_of_find {word text : List α} {i : ℕ} (h : find word text = some i) :
    OccursAt word text i := by
  simpa using List.find?_some h

theorem find_isSome {word text : List α} {i : ℕ} (h : OccursAt word text i) (hne : word ≠ []) :
    ∃ j, find word text = some j := by
  have hle := h.le_length hne
  cases hfind : find word text with
  | some j => exact ⟨j, rfl⟩
  | none =>
    have hnone := List.find?_eq_none.mp hfind i (List.mem_range.mpr (by omega))
    simp [h] at hnone

theorem one_le_piecesFrom (word : List α) (skip : ℕ) (text : List α) :
    1 ≤ piecesFrom word skip text := by
  induction text generalizing skip with
  | nil => exact le_rfl
  | cons c rest ih =>
    cases skip with
    | succ skip => exact ih skip
    | zero =>
      rw [piecesFrom]
      split
      · exact Nat.le_add_left _ _
      · exact ih 0

theorem not_occursAt_of_piecesFrom {word text : List α} {skip i : ℕ} (hne : word ≠ [])
    (h : piecesFrom word skip text = 1) (hi : skip ≤ i) : ¬ OccursAt word text i := by
  intro hoccurs
  induction text generalizing skip i with
  | nil =>
    have hle := hoccurs.le_length hne
    have hpos := List.length_pos_iff.mpr hne
    rw [List.length_nil] at hle
    omega
  | cons c rest ih =>
    cases skip with
    | succ skip =>
      obtain ⟨i, rfl⟩ : ∃ n, i = n + 1 := ⟨i - 1, by omega⟩
      exact ih h (by omega) (occursAt_succ.mp hoccurs)
    | zero =>
      rw [piecesFrom] at h
      split at h
      · have := one_le_piecesFrom word (word.length - 1) rest
        omega
      · next hprefix =>
        cases i with
        | zero => exact hprefix hoccurs
        | succ i => exact ih h (Nat.zero_le _) (occursAt_succ.mp hoccurs)

/-- Two pieces: one occurrence, and any other one overlaps it. -/
theorem exists_of_piecesFrom {word text : List α} {skip : ℕ} (hne : word ≠ [])
    (h : piecesFrom word skip text = 2) :
    ∃ i, skip ≤ i ∧ OccursAt word text i ∧
      ∀ j, skip ≤ j → OccursAt word text j → j = i ∨ i < j ∧ j < i + word.length := by
  induction text generalizing skip with
  | nil => simp [piecesFrom] at h
  | cons c rest ih =>
    cases skip with
    | succ skip =>
      obtain ⟨i, hi, hoccurs, hothers⟩ := ih h
      refine ⟨i + 1, by omega, occursAt_succ.mpr hoccurs, fun j hj hother => ?_⟩
      obtain ⟨j, rfl⟩ : ∃ n, j = n + 1 := ⟨j - 1, by omega⟩
      rcases hothers j (by omega) (occursAt_succ.mp hother) with rfl | hbetween
      · exact .inl rfl
      · exact .inr (by omega)
    | zero =>
      rw [piecesFrom] at h
      split at h
      · next hprefix =>
        have hrest : piecesFrom word (word.length - 1) rest = 1 := by omega
        refine ⟨0, le_rfl, hprefix, fun j _ hother => ?_⟩
        cases j with
        | zero => exact .inl rfl
        | succ j =>
          have hoverlap : ¬ word.length - 1 ≤ j := fun hj =>
            not_occursAt_of_piecesFrom hne hrest hj (occursAt_succ.mp hother)
          exact .inr (by omega)
      · next hprefix =>
        obtain ⟨i, -, hoccurs, hothers⟩ := ih h
        refine ⟨i + 1, Nat.zero_le _, occursAt_succ.mpr hoccurs, fun j _ hother => ?_⟩
        cases j with
        | zero => exact absurd hother hprefix
        | succ j =>
          rcases hothers j (Nat.zero_le _) (occursAt_succ.mp hother) with rfl | hbetween
          · exact .inl rfl
          · exact .inr (by omega)

/-- An anchored word at which a text splits in two stands in it once, where it is found. -/
theorem Anchored.unique {p a : α} {word text : List α} (h : Anchored p a word)
    (hpieces : pieces word text = 2) :
    ∃ i, find word text = some i ∧ ∀ j, OccursAt word text j ↔ j = i := by
  obtain ⟨i, -, hoccurs, hothers⟩ := exists_of_piecesFrom h.ne_nil hpieces
  have hunique : ∀ j, OccursAt word text j → j = i := by
    intro j hother
    rcases hothers j (Nat.zero_le _) hother with heq | ⟨hlt, hover⟩
    · exact heq
    · exact absurd (h.apart h hoccurs hother hlt) (by omega)
  obtain ⟨j, hfind⟩ := find_isSome hoccurs h.ne_nil
  obtain rfl := hunique j (occursAt_of_find hfind)
  exact ⟨j, hfind, fun k => ⟨hunique k, fun hk => hk ▸ hoccurs⟩⟩

end PrtsMcp.Occurrences
