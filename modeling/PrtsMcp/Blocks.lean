import Mathlib

/-!
# Lists cut into blocks

A list of records is written out in blocks: the bytes of the records are collected, and the block
is closed when it reaches a limit or the list ends. Every cut is the layout of some division of
the list into nonempty groups.
-/
namespace PrtsMcp.Blocks

variable {α β : Type*}

/-- The number of a block, the places of its first and its last record, and its bytes. -/
structure Block (β : Type*) where
  block : ℕ
  first : ℕ
  last : ℕ
  payload : List β
  deriving DecidableEq, Repr

/-- The blocks of the rest of a list, from the record at place `place` on, with the bytes that are
collected since `first`. -/
def cutFrom (encode : α → List β) (limit : ℕ) (no first place : ℕ) (collected : List β) :
    List α → List (Block β)
  | [] => []
  | x :: rest =>
    let payload := collected ++ encode x
    if limit ≤ payload.length ∨ rest = [] then
      ⟨no, first, place, payload⟩ :: cutFrom encode limit (no + 1) (place + 1) (place + 1) [] rest
    else cutFrom encode limit no first (place + 1) payload rest

def cut (encode : α → List β) (limit : ℕ) (xs : List α) : List (Block β) :=
  cutFrom encode limit 0 0 0 [] xs

/-- One block for each group, numbered from `no`, with places from `first`. -/
def layout (encode : α → List β) : ℕ → ℕ → List (List α) → List (Block β)
  | _, _, [] => []
  | no, first, group :: groups =>
    ⟨no, first, first + group.length - 1, group.flatMap encode⟩ ::
      layout encode (no + 1) (first + group.length) groups

/-- The places of the records of a block. -/
def Block.places (b : Block β) : List ℕ := List.range' b.first (b.last + 1 - b.first)

/-- The records of a block, of all that were cut. -/
def Block.records (b : Block β) (xs : List α) : List α :=
  (xs.drop b.first).take (b.last + 1 - b.first)

variable {encode : α → List β} {limit : ℕ}

theorem cutFrom_eq_layout {no first : ℕ} {pending xs : List α} (h : xs = [] → pending = []) :
    ∃ groups : List (List α), groups.flatten = pending ++ xs ∧ (∀ group ∈ groups, group ≠ []) ∧
      cutFrom encode limit no first (first + pending.length) (pending.flatMap encode) xs =
        layout encode no first groups := by
  induction xs generalizing no first pending with
  | nil => exact ⟨[], by simp [h rfl], by simp, rfl⟩
  | cons x rest ih =>
    have hcollected : pending.flatMap encode ++ encode x = (pending ++ [x]).flatMap encode := by simp
    have hplace : first + pending.length + 1 = first + (pending ++ [x]).length := by
      rw [List.length_append, List.length_singleton]
      omega
    rw [cutFrom, hcollected, hplace]
    split
    · obtain ⟨groups, hflatten, hne, heq⟩ :=
        @ih (no + 1) (first + (pending ++ [x]).length) [] fun _ => rfl
      refine ⟨(pending ++ [x]) :: groups, by simp [hflatten], ?_, ?_⟩
      · intro group hgroup
        rcases List.mem_cons.mp hgroup with rfl | hgroup
        · simp
        · exact hne group hgroup
      · rw [layout, ← heq, ← hplace]
        rfl
    · next hopen =>
      obtain ⟨groups, hflatten, hne, heq⟩ :=
        @ih no first (pending ++ [x]) fun hrest =>
          absurd (.inr hrest) hopen
      exact ⟨groups, by simp [hflatten], hne, heq⟩

/-- What is cut are the bytes of nonempty groups of records, one after the other. -/
theorem exists_layout (encode : α → List β) (limit : ℕ) (xs : List α) :
    ∃ groups : List (List α), groups.flatten = xs ∧ (∀ group ∈ groups, group ≠ []) ∧
      cut encode limit xs = layout encode 0 0 groups :=
  cutFrom_eq_layout (fun _ => rfl : xs = [] → ([] : List α) = [])

theorem length_layout (encode : α → List β) (no first : ℕ) (groups : List (List α)) :
    (layout encode no first groups).length = groups.length := by
  induction groups generalizing no first with
  | nil => rfl
  | cons group groups ih => rw [layout, List.length_cons, ih, List.length_cons]

theorem map_block_layout (encode : α → List β) (no first : ℕ) (groups : List (List α)) :
    (layout encode no first groups).map Block.block = List.range' no groups.length := by
  induction groups generalizing no first with
  | nil => rfl
  | cons group groups ih => rw [layout, List.map_cons, ih, List.length_cons, List.range'_succ]

/-- The places of the blocks are those of the records, each once and in order. -/
theorem places_layout (encode : α → List β) (no first : ℕ) {groups : List (List α)}
    (h : ∀ group ∈ groups, group ≠ []) :
    (layout encode no first groups).flatMap Block.places =
      List.range' first groups.flatten.length := by
  induction groups generalizing no first with
  | nil => rfl
  | cons group groups ih =>
    have hpos : 0 < group.length := List.length_pos_iff.mpr (h group List.mem_cons_self)
    have hlength : first + group.length - 1 + 1 - first = group.length := by omega
    rw [layout, List.flatMap_cons, ih _ _ fun g hg => h g (List.mem_cons_of_mem _ hg),
      List.flatten_cons, List.length_append, Block.places, hlength, ← List.range'_append_1]

/-- A block has a record, and all its records are among those that were cut. -/
theorem bounds_layout {no first : ℕ} {groups : List (List α)} {b : Block β}
    (h : ∀ group ∈ groups, group ≠ []) (hb : b ∈ layout encode no first groups) :
    b.first ≤ b.last ∧ b.last < first + groups.flatten.length := by
  induction groups generalizing no first with
  | nil => simp [layout] at hb
  | cons group groups ih =>
    have hpos : 0 < group.length := List.length_pos_iff.mpr (h group List.mem_cons_self)
    rw [List.flatten_cons, List.length_append]
    rcases List.mem_cons.mp hb with rfl | hb
    · dsimp only
      omega
    · have hrest := ih (fun g hg => h g (List.mem_cons_of_mem _ hg)) hb
      omega

/-- A block of a layout holds the bytes of its own records. -/
theorem payload_layout {no : ℕ} (before : List α) {groups : List (List α)} {b : Block β}
    (h : ∀ group ∈ groups, group ≠ []) (hb : b ∈ layout encode no before.length groups) :
    b.payload = (b.records (before ++ groups.flatten)).flatMap encode := by
  induction groups generalizing no before with
  | nil => simp [layout] at hb
  | cons group groups ih =>
    have hpos : 0 < group.length := List.length_pos_iff.mpr (h group List.mem_cons_self)
    rw [layout] at hb
    rcases List.mem_cons.mp hb with rfl | hb
    · have hlength : before.length + group.length - 1 + 1 - before.length = group.length := by omega
      simp [Block.records, hlength]
    · rw [← List.length_append] at hb
      rw [List.flatten_cons, ← List.append_assoc]
      exact ih _ (fun g hg => h g (List.mem_cons_of_mem _ hg)) hb

/-- The records of the blocks, block after block, are all records in order. -/
theorem records_layout (encode : α → List β) (no : ℕ) (before : List α) {groups : List (List α)}
    (h : ∀ group ∈ groups, group ≠ []) :
    (layout encode no before.length groups).map (Block.records · (before ++ groups.flatten)) =
      groups := by
  induction groups generalizing no before with
  | nil => rfl
  | cons group groups ih =>
    have hpos : 0 < group.length := List.length_pos_iff.mpr (h group List.mem_cons_self)
    have hlength : before.length + group.length - 1 + 1 - before.length = group.length := by omega
    have hrest := ih (no + 1) (before ++ group) fun g hg => h g (List.mem_cons_of_mem _ hg)
    rw [List.length_append, List.append_assoc, ← List.flatten_cons] at hrest
    rw [layout, List.map_cons, hrest]
    simp [Block.records, hlength]

section Cut

variable (encode limit) (xs : List α)

theorem map_block_cut : (cut encode limit xs).map Block.block =
    List.range (cut encode limit xs).length := by
  obtain ⟨groups, -, -, heq⟩ := exists_layout encode limit xs
  rw [heq, map_block_layout, length_layout, List.range_eq_range']

theorem places_cut : (cut encode limit xs).flatMap Block.places = List.range xs.length := by
  obtain ⟨groups, hflatten, hne, heq⟩ := exists_layout encode limit xs
  rw [heq, places_layout encode 0 0 hne, hflatten, List.range_eq_range']

theorem records_cut : (cut encode limit xs).flatMap (Block.records · xs) = xs := by
  obtain ⟨groups, hflatten, hne, heq⟩ := exists_layout encode limit xs
  have hrecords := records_layout encode 0 [] hne
  rw [List.nil_append, hflatten, List.length_nil] at hrecords
  rw [List.flatMap_def, heq, hrecords, hflatten]

theorem bounds_cut {b : Block β} (hb : b ∈ cut encode limit xs) :
    b.first ≤ b.last ∧ b.last < xs.length := by
  obtain ⟨groups, hflatten, hne, heq⟩ := exists_layout encode limit xs
  rw [heq] at hb
  simpa [hflatten] using bounds_layout hne hb

theorem payload_cut {b : Block β} (hb : b ∈ cut encode limit xs) :
    b.payload = (b.records xs).flatMap encode := by
  obtain ⟨groups, hflatten, hne, heq⟩ := exists_layout encode limit xs
  rw [heq] at hb
  simpa [hflatten] using payload_layout [] hne hb

end Cut

end PrtsMcp.Blocks
