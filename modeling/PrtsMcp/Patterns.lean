import Mathlib

/-!
# Patterns

Texts rewritten from left to right. A sweep replaces what a step recognises at a place and copies
what it does not; a pattern is a sequence of items, each of which takes as much of the text as it
can and gives it back item by item when the rest does not match.
-/
namespace PrtsMcp.Patterns

variable {α : Type*}

/-! ## Sweeps -/

/-- A step gives the replacement of a match at the head of the text, and how many places it takes
after the first one. The sweep skips that many places. -/
def sweep (step : List α → Option (List α × ℕ)) : ℕ → List α → List α
  | _, [] => []
  | skip + 1, _ :: rest => sweep step skip rest
  | 0, c :: rest =>
    match step (c :: rest) with
    | some (out, more) => out ++ sweep step more rest
    | none => c :: sweep step 0 rest

section Sweep

variable {step step' : List α → Option (List α × ℕ)}

@[simp]
theorem sweep_nil {skip : ℕ} : sweep step skip [] = [] := by
  cases skip <;> rfl

theorem sweep_skip (skip : ℕ) (s : List α) : sweep step skip s = sweep step 0 (s.drop skip) := by
  induction s generalizing skip with
  | nil => simp
  | cons c rest ih =>
    cases skip with
    | zero => rfl
    | succ skip => exact ih skip

theorem sweep_cons_none {c : α} {rest : List α} (h : step (c :: rest) = none) :
    sweep step 0 (c :: rest) = c :: sweep step 0 rest := by
  simp [sweep, h]

theorem sweep_cons_some {c : α} {rest out : List α} {more : ℕ}
    (h : step (c :: rest) = some (out, more)) :
    sweep step 0 (c :: rest) = out ++ sweep step 0 (rest.drop more) := by
  rw [sweep, h]
  exact congrArg _ (sweep_skip more rest)

/-- A step that recognises the first part of a text replaces just that part. -/
theorem sweep_append_some {c : α} {first rest out : List α}
    (h : step (c :: (first ++ rest)) = some (out, first.length)) :
    sweep step 0 (c :: (first ++ rest)) = out ++ sweep step 0 rest := by
  rw [sweep_cons_some h, List.drop_left]

/-- A part in which no match begins is copied. -/
theorem sweep_append_none {first rest : List α}
    (h : ∀ tail ≠ [], tail <:+ first → step (tail ++ rest) = none) :
    sweep step 0 (first ++ rest) = first ++ sweep step 0 rest := by
  induction first with
  | nil => rfl
  | cons c first ih =>
    have hc := h (c :: first) (by simp) (List.suffix_refl _)
    rw [List.cons_append] at hc ⊢
    rw [sweep_cons_none hc,
      ih fun tail hne htail => h tail hne (htail.trans (List.suffix_cons _ _)), List.cons_append]

theorem sweep_congr (h : ∀ s, step s = step' s) : sweep step = sweep step' := by
  rw [funext h]

end Sweep

/-! ## Matching -/

theorem take_takeWhile (allowed : α → Bool) (s : List α) :
    s.take (s.takeWhile allowed).length = s.takeWhile allowed :=
  (List.prefix_iff_eq_take.mp (List.takeWhile_prefix allowed)).symm

theorem drop_takeWhile (allowed : α → Bool) (s : List α) :
    s.drop (s.takeWhile allowed).length = s.dropWhile allowed := by
  nth_rewrite 2 [← List.takeWhile_append_dropWhile (p := allowed) (l := s)]
  rw [List.drop_left]

inductive Item (α : Type*) where
  | words (ws : List (List α))
  | run (allowed : α → Bool) (least : ℕ)

/-- One word, written out. -/
abbrev Item.word (w : List α) : Item α := .words [w]

variable [DecidableEq α]

/-- The beginnings of the text that an item takes, with what is left of the text, in the order in
which they are tried: words as they are listed, runs from the longest on. -/
def Item.splits (s : List α) : Item α → List (List α × List α)
  | .words ws => (ws.filter fun w => w <+: s).map fun w => (w, s.drop w.length)
  | .run allowed least =>
    ((List.range ((s.takeWhile allowed).length + 1)).reverse.filter fun n => least ≤ n).map
      fun n => s.splitAt n

/-- What each item takes in the first way of matching them all, and what is left. -/
def matchItems : List (Item α) → List α → Option (List (List α) × List α)
  | [], s => some ([], s)
  | item :: items, s => (item.splits s).findSome? fun split =>
    (matchItems items split.2).map fun found => (split.1 :: found.1, found.2)

/-- Every match is replaced, from left to right; no pattern here matches the empty text. -/
def replaceAll (items : List (Item α)) (subst : List (List α) → List α) (s : List α) : List α :=
  sweep (fun s => (matchItems items s).map fun found =>
    (subst found.1, s.length - found.2.length - 1)) 0 s

@[simp]
theorem matchItems_nil (s : List α) : matchItems [] s = some ([], s) := rfl

theorem matchItems_words (ws : List (List α)) (items : List (Item α)) (s : List α) :
    matchItems (.words ws :: items) s = (ws.filter fun w => w <+: s).findSome? fun w =>
      (matchItems items (s.drop w.length)).map fun found => (w :: found.1, found.2) := by
  rw [matchItems, Item.splits, List.findSome?_map]
  rfl

theorem matchItems_word (w : List α) (items : List (Item α)) (s : List α) :
    matchItems (.word w :: items) s = if w <+: s then
      (matchItems items (s.drop w.length)).map fun found => (w :: found.1, found.2) else none := by
  rw [matchItems_words]
  by_cases h : w <+: s <;> simp [h]

theorem matchItems_word_append (w : List α) (items : List (Item α)) (s : List α) :
    matchItems (.word w :: items) (w ++ s) =
      (matchItems items s).map fun found => (w :: found.1, found.2) := by
  rw [matchItems_word, if_pos (List.prefix_append w s), List.drop_left]

/-- A run at the end takes all it can. -/
theorem matchItems_run (allowed : α → Bool) (least : ℕ) (s : List α) :
    matchItems [.run allowed least] s = if least ≤ (s.takeWhile allowed).length then
      some ([s.takeWhile allowed], s.dropWhile allowed) else none := by
  rw [matchItems, Item.splits, List.findSome?_map, List.range_succ, List.reverse_append,
    List.reverse_singleton, List.singleton_append]
  by_cases hleast : least ≤ (s.takeWhile allowed).length
  · rw [List.filter_cons_of_pos (by simpa using hleast), List.findSome?_cons, if_pos hleast]
    simp [take_takeWhile, drop_takeWhile]
  · rw [if_neg hleast, List.findSome?_eq_none_iff]
    intro n hn
    rw [List.mem_filter, List.mem_cons, List.mem_reverse, List.mem_range] at hn
    have hn' := hn.2
    rw [decide_eq_true_eq] at hn'
    omega

/-- A word does not match inside a run that does not allow its first letter. -/
theorem matchItems_word_in_run {allowed : α → Bool} {a : α} (ha : allowed a = false) (w : List α)
    (items : List (Item α)) {s : List α} {n : ℕ} (hn : n < (s.takeWhile allowed).length) :
    matchItems (.word (a :: w) :: items) (s.drop n) = none := by
  rw [matchItems_word, if_neg]
  rintro ⟨rest, hrest⟩
  have hget : s[n]? = some a := by
    rw [← Nat.add_zero n, ← List.getElem?_drop, ← hrest]
    rfl
  have hmem : a ∈ s.takeWhile allowed := by
    have hbegins : s.takeWhile allowed <+: s := List.takeWhile_prefix allowed
    rw [List.prefix_iff_getElem?.mp hbegins n hn, Option.some_inj] at hget
    exact hget ▸ List.getElem_mem hn
  have hallowed := List.mem_takeWhile_imp hmem
  rw [ha] at hallowed
  contradiction

/-- A run before a word whose first letter it does not allow ends where it has to. -/
theorem matchItems_run_word {allowed : α → Bool} {a : α} (ha : allowed a = false) (least : ℕ)
    (w : List α) (items : List (Item α)) (s : List α) :
    matchItems (.run allowed least :: .word (a :: w) :: items) s =
      if least ≤ (s.takeWhile allowed).length then
        (matchItems (.word (a :: w) :: items) (s.dropWhile allowed)).map fun found =>
          (s.takeWhile allowed :: found.1, found.2)
      else none := by
  have hsplit : s.splitAt (s.takeWhile allowed).length =
      (s.takeWhile allowed, s.dropWhile allowed) := by
    rw [List.splitAt_eq, take_takeWhile, drop_takeWhile]
  rw [matchItems, Item.splits, List.findSome?_map, List.range_succ, List.reverse_append,
    List.reverse_singleton, List.singleton_append]
  by_cases hleast : least ≤ (s.takeWhile allowed).length
  · rw [List.filter_cons_of_pos (by simpa using hleast), List.findSome?_cons, if_pos hleast]
    simp only [Function.comp_apply, hsplit]
    cases hfound : matchItems (.word (a :: w) :: items) (s.dropWhile allowed) with
    | some found => rfl
    | none =>
      simp only [Option.map_none, List.findSome?_eq_none_iff]
      intro n hn
      have hlt : n < (s.takeWhile allowed).length := by
        simpa using (List.mem_filter.mp hn).1
      rw [Function.comp_apply, List.splitAt_eq, matchItems_word_in_run ha w items hlt,
        Option.map_none]
  · rw [if_neg hleast, List.findSome?_eq_none_iff]
    intro n hn
    rw [List.mem_filter, List.mem_cons, List.mem_reverse, List.mem_range] at hn
    have hn' := hn.2
    rw [decide_eq_true_eq] at hn'
    omega

end PrtsMcp.Patterns
