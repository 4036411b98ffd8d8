import PrtsMcp.JsonValue
import PrtsMcp.LruList

/-!
# The object cache

The cache of parsed JSON objects with a budget for the heap they hold: charges of nested values,
eviction from the front of a queue, and what is resident after any sequence of calls.
-/
namespace PrtsMcp.Objects

def budget : ℕ := 8 * 1024 * 1024

/-- `usize` and the sizes of the types in bytes. The budget is a `usize` below the largest. -/
structure Platform where
  max : ℕ
  string : ℕ
  value : ℕ
  object : ℕ
  word : ℕ
  budget_lt : budget < max

/-- Parsed values with the capacities of their strings, keys and arrays. -/
inductive HeapValue (φ : Type) where
  | null
  | bool (b : Bool)
  | number (n : JsonNumber φ)
  | string (s : String) (capacity : ℕ)
  | array (items : List (HeapValue φ)) (capacity : ℕ)
  | object (fields : List (String × ℕ × HeapValue φ))

namespace HeapValue

variable {φ : Type}

mutual

/-- The keys of every map are distinct. -/
def Unique : HeapValue φ → Prop
  | null => True
  | bool _ => True
  | number _ => True
  | string _ _ => True
  | array items _ => UniqueItems items
  | object fields => (fields.map Prod.fst).Nodup ∧ UniqueFields fields

def UniqueItems : List (HeapValue φ) → Prop
  | [] => True
  | item :: items => item.Unique ∧ UniqueItems items

def UniqueFields : List (String × ℕ × HeapValue φ) → Prop
  | [] => True
  | (_, _, value) :: fields => value.Unique ∧ UniqueFields fields

end

mutual

/-- The maps are collected anew. -/
def compact : HeapValue φ → HeapValue φ
  | null => null
  | bool b => bool b
  | number n => number n
  | string s capacity => string s capacity
  | array items capacity => array (compactItems items) capacity
  | object fields => object (OrderedMap.ofEntries (compactFields fields))

def compactItems : List (HeapValue φ) → List (HeapValue φ)
  | [] => []
  | item :: items => item.compact :: compactItems items

def compactFields : List (String × ℕ × HeapValue φ) → List (String × ℕ × HeapValue φ)
  | [] => []
  | (key, capacity, value) :: fields => (key, capacity, value.compact) :: compactFields fields

end

mutual

theorem compact_of_unique : ∀ {v : HeapValue φ}, v.Unique → v.compact = v
  | null, _ => rfl
  | bool _, _ => rfl
  | number _, _ => rfl
  | string _ _, _ => rfl
  | array _ _, h => by rw [compact, compactItems_of_unique h]
  | object _, h => by rw [compact, compactFields_of_unique h.2, OrderedMap.ofEntries_of_nodup h.1]

theorem compactItems_of_unique : ∀ {items : List (HeapValue φ)}, UniqueItems items →
    compactItems items = items
  | [], _ => rfl
  | _ :: _, h => by rw [compactItems, compact_of_unique h.1, compactItems_of_unique h.2]

theorem compactFields_of_unique : ∀ {fields : List (String × ℕ × HeapValue φ)},
    UniqueFields fields → compactFields fields = fields
  | [], _ => rfl
  | (_, _, _) :: _, h => by
    rw [compactFields, compact_of_unique h.1, compactFields_of_unique h.2]

end

end HeapValue

open HeapValue (UniqueFields compactFields compactFields_of_unique)

variable {φ : Type}

/-- A map: its keys are distinct, and those of the maps inside it. -/
abbrev Object (φ : Type) :=
  {fields : List (String × ℕ × HeapValue φ) // (fields.map Prod.fst).Nodup ∧ UniqueFields fields}

/-! ## Charges -/

namespace Platform

def saturatingAdd (p : Platform) (a b : ℕ) : ℕ := min (a + b) p.max

def saturatingMul (p : Platform) (a b : ℕ) : ℕ := min (a * b) p.max

/-- The buckets of a map with `len` entries, and its control group. -/
def mapCharge (p : Platform) (len : ℕ) : ℕ :=
  let capacity := if len.nextPowerOfTwo ≤ p.max then len.nextPowerOfTwo else p.max
  p.saturatingAdd (p.saturatingMul capacity (p.string + p.value + 4 * p.word)) (4 * p.word)

end Platform

mutual

def valueCharge (p : Platform) : HeapValue φ → ℕ
  | .null => 0
  | .bool _ => 0
  | .number _ => 0
  | .string _ capacity => capacity
  | .array items capacity => itemsCharge p (p.saturatingMul capacity p.value) items
  | .object fields => fieldsCharge p (p.mapCharge fields.length) fields

def itemsCharge (p : Platform) : ℕ → List (HeapValue φ) → ℕ
  | sum, [] => sum
  | sum, item :: items => itemsCharge p (p.saturatingAdd sum (valueCharge p item)) items

def fieldsCharge (p : Platform) : ℕ → List (String × ℕ × HeapValue φ) → ℕ
  | sum, [] => sum
  | sum, (_, capacity, value) :: fields =>
    fieldsCharge p (p.saturatingAdd (p.saturatingAdd sum capacity) (valueCharge p value)) fields

end

def objectCharge (p : Platform) (object : Object φ) : ℕ :=
  fieldsCharge p (p.mapCharge object.1.length) object.1

theorem ofEntries_compactFields (object : Object φ) :
    OrderedMap.ofEntries (compactFields object.1) = object.1 := by
  rw [compactFields_of_unique object.2.2, OrderedMap.ofEntries_of_nodup object.2.1]

def compactObjects (object : Object φ) : Object φ :=
  ⟨OrderedMap.ofEntries (compactFields object.1), by
    rw [ofEntries_compactFields]
    exact object.2⟩

@[simp] theorem compactObjects_eq (object : Object φ) : compactObjects object = object :=
  Subtype.ext (ofEntries_compactFields object)

/-- The charge of an entry: the object with its own size and the counts of its owner. -/
def entryCharge (p : Platform) (object : Object φ) : ℕ :=
  p.saturatingAdd (objectCharge p object) (p.object + 2 * p.word)

/-! ## Calls -/

structure Resident (φ : Type) where
  value : Object φ
  charge : ℕ

/-- `poisoned`: a loader panicked under the lock. -/
structure Cache (φ : Type) where
  entries : List (String × Resident φ)
  poisoned : Bool

/-- How the arithmetic and the loop of an eviction can go wrong. -/
inductive Stuck where
  | overflows
  | underflows
  | spins
  deriving DecidableEq

inductive Load (φ : Type) where
  | ok (object : Object φ)
  | error (text : String)
  | panics

inductive Answer (φ : Type) where
  | value (object : Object φ)
  | error (text : String)
  | panics
  | stuck (s : Stuck)

/-- The loop that pops entries until `charge` fits. -/
def evict (p : Platform) (charge : ℕ) :
    ℕ → List (String × Resident φ) → Except Stuck (List (String × Resident φ))
  | used, [] => if p.saturatingAdd used charge ≤ budget then .ok [] else .error .spins
  | used, entry :: entries =>
    if p.saturatingAdd used charge ≤ budget then .ok (entry :: entries)
    else if entry.2.charge ≤ used then evict p charge (used - entry.2.charge) entries
    else .error .underflows

def store (p : Platform) (key : String) (value : Object φ) (entries : List (String × Resident φ)) :
    Except Stuck (List (String × Resident φ)) :=
  let charge := entryCharge p value
  if charge ≤ budget then
    let used := LruList.weight Resident.charge entries
    if used ≤ p.max then
      (evict p charge used entries).map fun kept => kept ++ [(key, ⟨value, charge⟩)]
    else .error .overflows
  else .ok entries

def getOrLoad (p : Platform) (c : Cache φ) (key : String) (load : Load φ) : Answer φ × Cache φ :=
  if c.poisoned then (.error "poisoned lock: another task failed inside", c)
  else
    match c.entries.lookup key, load with
    | some entry, _ => (.value entry.value, c)
    | none, .error text => (.error text, c)
    | none, .panics => (.panics, { c with poisoned := true })
    | none, .ok object =>
      match store p key (compactObjects object) c.entries with
      | .ok entries => (.value (compactObjects object), { c with entries })
      | .error s => (.stuck s, { c with poisoned := true })

/-! ## What a call keeps -/

section Eviction

variable {p : Platform} {entries : List (String × Resident φ)}

theorem saturatingAdd_le_budget {a b : ℕ} : p.saturatingAdd a b ≤ budget ↔ a + b ≤ budget := by
  have hmax := p.budget_lt
  unfold Platform.saturatingAdd
  omega

/-- With the sum of the charges in hand, the loop drops the shortest prefix that makes room. -/
theorem evict_weight {charge : ℕ} (h : charge ≤ budget) :
    evict p charge (LruList.weight Resident.charge entries) entries =
      .ok (LruList.trim Resident.charge (budget - charge) entries) := by
  induction entries with
  | nil =>
    rw [evict, if_pos]
    · rfl
    · rw [saturatingAdd_le_budget, LruList.weight_nil]
      omega
  | cons entry entries ih =>
    rw [evict, LruList.trim]
    by_cases hfits : LruList.weight Resident.charge (entry :: entries) ≤ budget - charge
    · rw [if_pos hfits, if_pos]
      rw [saturatingAdd_le_budget]
      omega
    · have hover : ¬ p.saturatingAdd (LruList.weight Resident.charge (entry :: entries)) charge ≤
          budget := by
        rw [saturatingAdd_le_budget]
        omega
      rw [if_neg hfits, if_neg hover, LruList.weight_cons, if_pos (Nat.le_add_right _ _),
        Nat.add_sub_cancel_left]
      exact ih

theorem store_eq {key : String} {value : Object φ}
    (h : LruList.weight Resident.charge entries ≤ budget) :
    store p key value entries = .ok (if entryCharge p value ≤ budget then
      LruList.trim Resident.charge (budget - entryCharge p value) entries ++
        [(key, ⟨value, entryCharge p value⟩)]
      else entries) := by
  unfold store
  dsimp only
  split
  · rename_i hcharge
    rw [if_pos (h.trans p.budget_lt.le), evict_weight hcharge]
    rfl
  · rfl

end Eviction

/-! ## Whole histories -/

structure Call (φ : Type) where
  key : String
  load : Load φ

/-- The load that succeeds in a call, which asks the loader only where the key is not resident. -/
def loaded (c : Cache φ) (call : Call φ) : Option (String × Object φ) :=
  if c.poisoned then none
  else
    match c.entries.lookup call.key, call.load with
    | none, .ok object => some (call.key, object)
    | _, _ => none

/-- The cache, with the successful loads so far. -/
structure History (φ : Type) where
  cache : Cache φ
  loads : List (String × Object φ)

def History.next (p : Platform) (r : History φ) (call : Call φ) : History φ :=
  ⟨(getOrLoad p r.cache call.key call.load).2, r.loads ++ (loaded r.cache call).toList⟩

/-- The history of a sequence of calls on a new cache. -/
def history (p : Platform) (calls : List (Call φ)) : History φ :=
  calls.foldl (History.next p) ⟨⟨[], false⟩, []⟩

def lastLoad (loads : List (String × Object φ)) (key : String) : Option (Object φ) :=
  loads.reverse.lookup key

structure Sound (p : Platform) (r : History φ) : Prop where
  nodup : (LruList.keys r.cache.entries).Nodup
  within : LruList.weight Resident.charge r.cache.entries ≤ budget
  charged : ∀ e ∈ r.cache.entries, e.2.charge = entryCharge p e.2.value
  latest : ∀ e ∈ r.cache.entries, lastLoad r.loads e.1 = some e.2.value
  /-- The entries stand in the order of their loads, the latest ones of those that fit. -/
  ordered : (r.cache.entries.map fun e => (e.1, e.2.value)) <:+
    r.loads.filter fun l => entryCharge p l.2 ≤ budget

/-- What one call does to the entries. -/
structure Served (p : Platform) (c : Cache φ) (call : Call φ) : Prop where
  finishes : ∀ s, (getOrLoad p c call.key call.load).1 ≠ .stuck s
  hit : ∀ entry, c.poisoned = false → c.entries.lookup call.key = some entry →
    getOrLoad p c call.key call.load = (.value entry.value, c)
  failed : (∀ object, call.load ≠ .ok object) →
    (getOrLoad p c call.key call.load).2.entries = c.entries
  oversized : ∀ object, call.load = .ok object → budget < entryCharge p object →
    (getOrLoad p c call.key call.load).2.entries = c.entries
  /-- The longest part of the queue that leaves room is kept, from the back. -/
  stores : ∀ object, loaded c call = some (call.key, object) → entryCharge p object ≤ budget →
    (getOrLoad p c call.key call.load).1 = .value object ∧
    ∃ kept, (getOrLoad p c call.key call.load).2.entries =
        kept ++ [(call.key, ⟨object, entryCharge p object⟩)] ∧
      kept <:+ c.entries ∧
      LruList.weight Resident.charge kept + entryCharge p object ≤ budget ∧
      ∀ longer, longer <:+ c.entries →
        LruList.weight Resident.charge longer + entryCharge p object ≤ budget → longer <:+ kept

theorem suffix_trim {w : Resident φ → ℕ} {bound : ℕ} {kept entries : List (String × Resident φ)}
    (h : kept <:+ entries) (hkept : LruList.weight w kept ≤ bound) :
    kept <:+ LruList.trim w bound entries := by
  induction entries with
  | nil =>
    obtain rfl := List.suffix_nil.mp h
    exact List.nil_suffix
  | cons entry entries ih =>
    rw [LruList.trim]
    split
    · exact h
    · rename_i hover
      rcases List.suffix_cons_iff.mp h with rfl | h
      · exact absurd hkept hover
      · exact ih h

section Step

variable {p : Platform} {c : Cache φ} {call : Call φ}

variable (p call) in
/-- A call loads nothing and keeps the entries, or it loads an object and stores it if it fits. -/
theorem getOrLoad_cases (h : LruList.weight Resident.charge c.entries ≤ budget) :
    (loaded c call = none ∧ (getOrLoad p c call.key call.load).2.entries = c.entries ∧
      ∀ s, (getOrLoad p c call.key call.load).1 ≠ .stuck s) ∨
    ∃ object, loaded c call = some (call.key, object) ∧ c.entries.lookup call.key = none ∧
      call.load = .ok object ∧
      getOrLoad p c call.key call.load = (.value object, { c with
        entries := if entryCharge p object ≤ budget then
          LruList.trim Resident.charge (budget - entryCharge p object) c.entries ++
            [(call.key, ⟨object, entryCharge p object⟩)]
          else c.entries }) := by
  unfold getOrLoad loaded
  cases hpoisoned : c.poisoned with
  | true => simp
  | false =>
    cases hlookup : c.entries.lookup call.key with
    | some entry => simp
    | none =>
      cases hload : call.load with
      | error text => simp
      | panics => simp
      | ok object =>
        refine .inr ⟨object, rfl, rfl, rfl, ?_⟩
        simp only [Bool.false_eq_true, if_false, compactObjects_eq, store_eq h]

theorem served (h : LruList.weight Resident.charge c.entries ≤ budget) : Served p c call := by
  rcases getOrLoad_cases p call h with ⟨hnone, hkept, hdone⟩ |
      ⟨object, hsome, hlookup, hload, hcall⟩
  · refine ⟨hdone, ?_, fun _ => hkept, fun _ _ _ => hkept, ?_⟩
    · intro entry hpoisoned hentry
      simp [getOrLoad, hpoisoned, hentry]
    · intro object hobject
      cases hnone.symm.trans hobject
  · refine ⟨?_, ?_, ?_, ?_, ?_⟩
    · simp [hcall]
    · intro entry _ hentry
      cases hlookup.symm.trans hentry
    · intro hfailed
      exact absurd hload (hfailed object)
    · intro other hother hover
      cases hload.symm.trans hother
      rw [hcall]
      exact if_neg (not_le.mpr hover)
    · intro other hother hfits
      cases hsome.symm.trans hother
      rw [hcall]
      refine ⟨rfl, _, if_pos hfits, LruList.trim_suffix _ _ _, ?_, ?_⟩
      · have hweight := LruList.weight_trim_le Resident.charge (budget - entryCharge p object)
          c.entries
        omega
      · intro longer hlonger hroom
        exact suffix_trim hlonger (by omega)

theorem lastLoad_append_of_ne {loads : List (String × Object φ)} {key k : String}
    {object : Object φ} (h : k ≠ key) :
    lastLoad (loads ++ [(key, object)]) k = lastLoad loads k := by
  have hbeq : (k == key) = false := by simpa using h
  simp [lastLoad, List.lookup, hbeq]

theorem Sound.next {r : History φ} (h : Sound p r) (call : Call φ) : Sound p (r.next p call) := by
  rcases getOrLoad_cases p call h.within with ⟨hnone, hkept, -⟩ |
      ⟨object, hsome, hlookup, -, hcall⟩
  · have hloads : (r.next p call).loads = r.loads := by simp [History.next, hnone]
    have hentries : (r.next p call).cache.entries = r.cache.entries := hkept
    constructor
    · exact hentries ▸ h.nodup
    · exact hentries ▸ h.within
    · exact hentries ▸ h.charged
    · rw [hentries, hloads]
      exact h.latest
    · rw [hentries, hloads]
      exact h.ordered
  · have habsent : call.key ∉ LruList.keys r.cache.entries := by
      intro hmem
      obtain ⟨entry, hentry⟩ := LruList.mem_keys.mp hmem
      have := List.lookup_eq_none_iff.mp hlookup _ hentry
      simp at this
    have hloads : (r.next p call).loads = r.loads ++ [(call.key, object)] := by
      simp [History.next, hsome]
    have hother : ∀ e ∈ r.cache.entries,
        lastLoad (r.loads ++ [(call.key, object)]) e.1 = some e.2.value := by
      intro e he
      have hne : e.1 ≠ call.key := by
        intro heq
        exact habsent (heq ▸ List.mem_map_of_mem he)
      rw [lastLoad_append_of_ne hne]
      exact h.latest e he
    by_cases hfits : entryCharge p object ≤ budget
    · have hentries : (r.next p call).cache.entries =
          LruList.trim Resident.charge (budget - entryCharge p object) r.cache.entries ++
            [(call.key, ⟨object, entryCharge p object⟩)] := by
        simp only [History.next, hcall, if_pos hfits]
      have hsuffix := LruList.trim_suffix Resident.charge (budget - entryCharge p object)
        r.cache.entries
      have hweight := LruList.weight_trim_le Resident.charge (budget - entryCharge p object)
        r.cache.entries
      generalize LruList.trim Resident.charge (budget - entryCharge p object) r.cache.entries =
        kept at hentries hsuffix hweight
      have hkeys : LruList.keys kept <:+ LruList.keys r.cache.entries := hsuffix.map Prod.fst
      constructor
      · rw [hentries, LruList.keys_append, LruList.keys_cons, LruList.keys_nil,
          ← List.concat_eq_append]
        apply List.Nodup.concat
        · exact fun hmem => habsent (hkeys.subset hmem)
        · exact h.nodup.sublist hkeys.sublist
      · rw [hentries, LruList.weight_append, LruList.weight_cons, LruList.weight_nil]
        dsimp only
        omega
      · intro e he
        rw [hentries] at he
        rcases List.mem_append.mp he with he | he
        · exact h.charged e (hsuffix.subset he)
        · rw [List.mem_singleton.mp he]
      · intro e he
        rw [hloads]
        rw [hentries] at he
        rcases List.mem_append.mp he with he | he
        · exact hother e (hsuffix.subset he)
        · rw [List.mem_singleton.mp he]
          simp [lastLoad]
      · rw [hloads, hentries, List.map_append, List.filter_append]
        simp only [List.map_cons, List.map_nil, List.filter_cons, List.filter_nil, hfits,
          decide_true, if_true]
        obtain ⟨front, hfront⟩ := (hsuffix.map fun e => (e.1, e.2.value)).trans h.ordered
        exact ⟨front, by rw [← hfront, List.append_assoc]⟩
    · have hentries : (r.next p call).cache.entries = r.cache.entries := by
        simp only [History.next, hcall, if_neg hfits]
      refine ⟨hentries ▸ h.nodup, hentries ▸ h.within, hentries ▸ h.charged, ?_, ?_⟩
      · rw [hentries, hloads]
        exact hother
      · rw [hentries, hloads, List.filter_append]
        simp only [List.filter_cons, List.filter_nil, hfits, decide_false, Bool.false_eq_true,
          if_false, List.append_nil]
        exact h.ordered

end Step

theorem history_sound (p : Platform) (calls : List (Call φ)) : Sound p (history p calls) := by
  have hempty : Sound p (⟨⟨[], false⟩, []⟩ : History φ) := by
    constructor <;> simp
  unfold history
  generalize (⟨⟨[], false⟩, []⟩ : History φ) = r at hempty
  induction calls generalizing r with
  | nil => exact hempty
  | cons call calls ih => exact ih _ (hempty.next call)

/-- After any calls the cache is sound, and the next call keeps to the budget as well. -/
theorem getOrLoad_sound (p : Platform) (calls : List (Call φ)) (call : Call φ) :
    Sound p (history p calls) ∧ Served p (history p calls).cache call :=
  ⟨history_sound p calls, served (history_sound p calls).within⟩

end PrtsMcp.Objects
