import PrtsMcp.OrderedMap

/-!
# Indexed maps

Maps in insertion order with a table of the places of their keys, and the sums of values that were
added up under keys, in the order in which the keys came first.
-/
namespace PrtsMcp

open OrderedMap (Locates)

/-- No key stands twice, and the table finds each key where it stands. -/
structure IndexedMap (κ α : Type*) [DecidableEq κ] where
  entries : List (κ × α)
  index : List (κ × ℕ)
  nodup : (entries.map Prod.fst).Nodup
  located : Locates index entries

namespace IndexedMap

variable {κ α : Type*} [DecidableEq κ]

def empty : IndexedMap κ α := ⟨[], [], List.nodup_nil, fun _ => rfl⟩

def get (m : IndexedMap κ α) (key : κ) : Option α :=
  (m.index.lookup key).bind fun pos => m.entries[pos]?.map Prod.snd

omit [DecidableEq κ] in
theorem keys_modify (entries : List (κ × α)) (pos : ℕ) (f : α → α) :
    (entries.modify pos fun entry => (entry.1, f entry.2)).map Prod.fst = entries.map Prod.fst := by
  induction entries generalizing pos with
  | nil => simp
  | cons entry rest ih =>
    cases pos with
    | zero => rfl
    | succ pos => simp [ih]

theorem findIdx?_eq_of_keys {a b : List (κ × α)} (h : a.map Prod.fst = b.map Prod.fst) (key : κ) :
    (a.findIdx? fun entry => entry.1 = key) = b.findIdx? fun entry => entry.1 = key := by
  have hkeys : ∀ l : List (κ × α), (l.findIdx? fun entry => entry.1 = key) =
      (l.map Prod.fst).findIdx? fun k => k = key := fun l => by
    rw [List.findIdx?_map]
    rfl
  rw [hkeys, hkeys, h]

/-- The value of a key that is there, changed in its place. -/
def modify (m : IndexedMap κ α) (key : κ) (f : α → α) : IndexedMap κ α where
  entries := ((m.index.lookup key).map fun pos =>
    m.entries.modify pos fun entry => (entry.1, f entry.2)).getD m.entries
  index := m.index
  nodup := by
    cases m.index.lookup key with
    | none => exact m.nodup
    | some pos => exact (keys_modify m.entries pos f).symm ▸ m.nodup
  located k := by
    cases m.index.lookup key with
    | none => exact m.located k
    | some pos => exact (m.located k).trans (findIdx?_eq_of_keys (keys_modify _ pos f).symm k)

theorem entries_modify (m : IndexedMap κ α) (key : κ) (f : α → α) :
    (m.modify key f).entries = ((m.index.lookup key).map fun pos =>
      m.entries.modify pos fun entry => (entry.1, f entry.2)).getD m.entries := rfl

/-- A value in the place of its key, or after all others. -/
def insert (m : IndexedMap κ α) (key : κ) (value : α) : IndexedMap κ α :=
  match h : m.index.lookup key with
  | some _ => m.modify key fun _ => value
  | none => ⟨m.entries ++ [(key, value)], (key, m.entries.length) :: m.index, by
      rw [← OrderedMap.insert_of_notMem
        (OrderedMap.findIdx?_eq_none_iff_notMem.mp ((m.located key).symm.trans h))]
      exact OrderedMap.nodup_insert m.nodup key value, by
      have hnot : key ∉ m.entries.map Prod.fst :=
        OrderedMap.findIdx?_eq_none_iff_notMem.mp ((m.located key).symm.trans h)
      rw [← OrderedMap.insert_of_notMem hnot]
      exact m.located.insert_of_notMem hnot value⟩

theorem lookup_eq_findIdx? (entries : List (κ × α)) (key : κ) :
    entries.lookup key = (entries.findIdx? fun entry => entry.1 = key).bind fun pos =>
      entries[pos]?.map Prod.snd := by
  induction entries with
  | nil => rfl
  | cons entry rest ih =>
    rw [List.findIdx?_cons]
    by_cases h : entry.1 = key
    · subst h
      rw [List.lookup_cons_self]
      simp
    · have hne : (key == entry.1) = false := beq_false_of_ne fun heq => h heq.symm
      rw [List.lookup_cons, hne, if_neg (by simpa using h), Option.bind_map, ih]
      rfl

/-- Through the table a key's first value is found. -/
theorem get_eq_lookup (m : IndexedMap κ α) (key : κ) : m.get key = m.entries.lookup key := by
  rw [get, m.located key, lookup_eq_findIdx?]

theorem entries_insert (m : IndexedMap κ α) (key : κ) (value : α) :
    (m.insert key value).entries = OrderedMap.insert key value m.entries := by
  unfold insert
  split
  · next pos h =>
    rw [entries_modify, h]
    exact OrderedMap.insert_of_findIdx? ((m.located key).symm.trans h)
  · next h =>
    exact (OrderedMap.insert_of_notMem
      (OrderedMap.findIdx?_eq_none_iff_notMem.mp ((m.located key).symm.trans h))).symm

theorem get_insert_self (m : IndexedMap κ α) (key : κ) (value : α) :
    (m.insert key value).get key = some value := by
  rw [get_eq_lookup, entries_insert, OrderedMap.lookup_insert_self]

theorem get_insert_of_ne (m : IndexedMap κ α) {key k : κ} (value : α) (h : k ≠ key) :
    (m.insert key value).get k = m.get k := by
  rw [get_eq_lookup, entries_insert, OrderedMap.lookup_insert_of_ne h, get_eq_lookup]

theorem modify_findIdx? {entries : List (κ × α)} {key : κ} {pos : ℕ} {old : α} (f : α → α)
    (h : (entries.findIdx? fun entry => entry.1 = key) = some pos)
    (hold : entries.lookup key = some old) :
    (entries.modify pos fun entry => (entry.1, f entry.2)) = OrderedMap.insert key (f old) entries := by
  induction entries generalizing pos with
  | nil => cases h
  | cons entry rest ih =>
    rw [List.findIdx?_cons] at h
    by_cases hkey : entry.1 = key
    · rw [if_pos (by simpa using hkey)] at h
      obtain rfl : 0 = pos := Option.some.inj h
      subst hkey
      rw [List.lookup_cons_self] at hold
      obtain rfl : entry.2 = old := Option.some.inj hold
      rw [OrderedMap.insert, if_pos rfl]
      rfl
    · rw [if_neg (by simpa using hkey)] at h
      obtain ⟨i, hi, rfl⟩ := Option.map_eq_some_iff.mp h
      have hne : (key == entry.1) = false := beq_false_of_ne fun heq => hkey heq.symm
      rw [List.lookup_cons, hne] at hold
      rw [OrderedMap.insert, if_neg hkey, ← ih hi hold]
      rfl

/-- A change of the value that is there is an insertion of the changed value. -/
theorem entries_modify_of_get (m : IndexedMap κ α) {key : κ} {old : α} (f : α → α)
    (h : m.get key = some old) :
    (m.modify key f).entries = OrderedMap.insert key (f old) m.entries := by
  rw [get_eq_lookup] at h
  have hplace : (m.entries.findIdx? fun entry => entry.1 = key) ≠ none := by
    intro hnone
    rw [lookup_eq_findIdx?, hnone] at h
    cases h
  obtain ⟨pos, hpos⟩ := Option.ne_none_iff_exists'.mp hplace
  rw [entries_modify, m.located key, hpos]
  exact modify_findIdx? f hpos h

theorem get_modify_self (m : IndexedMap κ α) {key : κ} {old : α} (f : α → α)
    (h : m.get key = some old) : (m.modify key f).get key = some (f old) := by
  rw [get_eq_lookup, entries_modify_of_get m f h, OrderedMap.lookup_insert_self]

theorem get_modify_of_ne (m : IndexedMap κ α) {key k : κ} {old : α} (f : α → α)
    (h : m.get key = some old) (hk : k ≠ key) : (m.modify key f).get k = m.get k := by
  rw [get_eq_lookup, entries_modify_of_get m f h, OrderedMap.lookup_insert_of_ne hk, get_eq_lookup]

/-! ## Sums -/

section Sums

variable {M : Type*} [AddMonoid M]

/-- The values under a key, added up. -/
def sumOf (xs : List (κ × M)) (key : κ) : M := ((xs.filter fun x => x.1 = key).map Prod.snd).sum

/-- The sums under all keys, in the order in which the keys came first. -/
def tally (xs : List (κ × M)) : List (κ × M) :=
  (xs.map Prod.fst).eraseDups.map fun key => (key, sumOf xs key)

theorem eraseDups_concat (keys : List κ) (key : κ) :
    (keys ++ [key]).eraseDups = if key ∈ keys then keys.eraseDups else keys.eraseDups ++ [key] := by
  rw [List.eraseDups_append]
  by_cases h : key ∈ keys
  · simp [List.removeAll, h]
  · simp [List.removeAll, h, List.eraseDups_cons]

theorem nodup_eraseDups (keys : List κ) : keys.eraseDups.Nodup := by
  induction keys using List.reverseRecOn with
  | nil => simp
  | append_singleton keys key ih =>
    rw [eraseDups_concat]
    split_ifs with h
    · exact ih
    · rw [← List.concat_eq_append]
      exact List.Nodup.concat (fun hmem => h (List.mem_eraseDups.mp hmem)) ih

theorem sumOf_concat (xs : List (κ × M)) (x : κ × M) (key : κ) :
    sumOf (xs ++ [x]) key = if key = x.1 then sumOf xs key + x.2 else sumOf xs key := by
  by_cases h : key = x.1
  · subst h
    simp [sumOf, List.filter_append, List.sum_append]
  · have hne : ¬ x.1 = key := fun heq => h heq.symm
    simp [sumOf, List.filter_append, h, hne]

theorem sumOf_of_notMem {xs : List (κ × M)} {key : κ} (h : key ∉ xs.map Prod.fst) :
    sumOf xs key = 0 := by
  have hnone : (xs.filter fun x => x.1 = key) = [] := by
    rw [List.filter_eq_nil_iff]
    intro x hx
    simpa using fun heq : x.1 = key => h (List.mem_map.mpr ⟨x, hx, heq⟩)
  rw [sumOf, hnone]
  rfl

theorem lookup_map_self (keys : List κ) (f : κ → α) (key : κ) :
    (keys.map fun k => (k, f k)).lookup key = if key ∈ keys then some (f key) else none := by
  induction keys with
  | nil => rfl
  | cons k keys ih =>
    by_cases h : key = k
    · subst h
      simp
    · have hne : (key == k) = false := beq_false_of_ne h
      rw [List.map_cons, List.lookup_cons, hne, ih]
      simp [h]

theorem insert_map_self {keys : List κ} (hkeys : keys.Nodup) (f : κ → α) {key : κ} (value : α)
    (h : key ∈ keys) :
    OrderedMap.insert key value (keys.map fun k => (k, f k)) =
      keys.map fun k => (k, if k = key then value else f k) := by
  induction keys with
  | nil => cases h
  | cons k keys ih =>
    obtain ⟨hnot, hrest⟩ := List.nodup_cons.mp hkeys
    rw [List.map_cons, List.map_cons, OrderedMap.insert]
    by_cases hk : k = key
    · subst hk
      rw [if_pos rfl, if_pos rfl]
      congr 1
      apply List.map_congr_left
      intro k' hk'
      rw [if_neg (ne_of_mem_of_not_mem hk' hnot)]
    · rw [if_neg hk, if_neg hk, ih hrest ((List.mem_cons.mp h).resolve_left fun heq => hk heq.symm)]

theorem lookup_tally (xs : List (κ × M)) (key : κ) :
    (tally xs).lookup key = if key ∈ xs.map Prod.fst then some (sumOf xs key) else none := by
  rw [tally, lookup_map_self]
  simp only [List.mem_eraseDups]

/-- One more value is added to the sum of its key. -/
theorem tally_concat (xs : List (κ × M)) (x : κ × M) :
    tally (xs ++ [x]) = OrderedMap.insert x.1 (((tally xs).lookup x.1).getD 0 + x.2) (tally xs) := by
  rw [lookup_tally, tally, List.map_append, List.map_singleton, eraseDups_concat]
  by_cases h : x.1 ∈ xs.map Prod.fst
  · have hmem : x.1 ∈ (xs.map Prod.fst).eraseDups := List.mem_eraseDups.mpr h
    rw [if_pos h, if_pos h, tally, insert_map_self (nodup_eraseDups _) _ _ hmem]
    apply List.map_congr_left
    intro key _
    rw [sumOf_concat, Option.getD_some]
    split_ifs with hkey
    · rw [hkey]
    · rfl
  · have hmem : x.1 ∉ (tally xs).map Prod.fst := by
      rw [tally, List.map_map]
      simpa [Function.comp_def, List.mem_eraseDups] using h
    rw [if_neg h, if_neg h, OrderedMap.insert_of_notMem hmem, List.map_append, tally]
    congr 1
    · apply List.map_congr_left
      intro key hkey
      rw [sumOf_concat, if_neg (ne_of_mem_of_not_mem (List.mem_eraseDups.mp hkey) h)]
    · rw [List.map_singleton, sumOf_concat, if_pos rfl, sumOf_of_notMem h]
      rfl

end Sums

end IndexedMap

end PrtsMcp
