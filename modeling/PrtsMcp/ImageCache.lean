import PrtsMcp.LruList
import PrtsMcp.Runs

/-!
# The wiki image cache

`LruCache` keeps its entries in a queue and, beside it, a side index from keys to queue
positions. The queue refines a recency list as long as no `put` makes room by evicting older
entries: that loop pops the front without moving the stored positions.
-/
namespace PrtsMcp.ImageCache

open LruList (keys remove touch weight trim ByLastUse)
open Runs (EveryPrefix EveryStep)

abbrev Bytes := List UInt8

structure LruCache where
  entries : List (String × Bytes)
  index : String → Option ℕ
  total : ℕ
  maxBytes : ℕ

def withLimit (maxBytes : ℕ) : LruCache := ⟨[], fun _ => none, 0, maxBytes⟩

/-- Positions behind a removed one move up by one. -/
def shiftAfter (pos : ℕ) (index : String → Option ℕ) : String → Option ℕ := fun key =>
  (index key).map fun i => if pos < i then i - 1 else i

def LruCache.get (c : LruCache) (key : String) : Option Bytes × LruCache :=
  match c.index key with
  | none => (none, c)
  | some pos =>
    match c.entries[pos]? with
    | none => (none, c)
    | some (_, value) =>
      let entries := c.entries.eraseIdx pos ++ [(key, value)]
      let index := shiftAfter pos (Function.update c.index key none)
      (some value,
        { c with entries, index := Function.update index key (some (entries.length - 1)) })

/-- The first half of `put`: a resident entry of the key is taken out. -/
def LruCache.removeOld (c : LruCache) (key : String) : LruCache :=
  match c.index key with
  | none => c
  | some pos =>
    { c with
      entries := c.entries.eraseIdx pos
      index := shiftAfter pos (Function.update c.index key none)
      total := c.total - (c.entries[pos]?.elim 0 fun e => e.2.length) }

/-- The eviction loop of `put`. The positions of the remaining entries stay as they are. -/
def evict (maxBytes : ℕ) : List (String × Bytes) → (String → Option ℕ) → ℕ → LruCache
  | [], index, total => ⟨[], index, total, maxBytes⟩
  | (key, old) :: rest, index, total =>
    if maxBytes < total then
      evict maxBytes rest (Function.update index key none) (total - old.length)
    else ⟨(key, old) :: rest, index, total, maxBytes⟩

def LruCache.put (c : LruCache) (key : String) (data : Bytes) : LruCache :=
  let c := c.removeOld key
  let entries := c.entries ++ [(key, data)]
  let index := Function.update c.index key (some (entries.length - 1))
  evict c.maxBytes entries index (c.total + data.length)

inductive Op where
  | get (key : String)
  | put (key : String) (data : Bytes)
  deriving DecidableEq, Repr

def Op.key : Op → String
  | .get key => key
  | .put key _ => key

def step (c : LruCache) : Op → LruCache
  | .get key => (c.get key).2
  | .put key data => c.put key data

def run (maxBytes : ℕ) (ops : List Op) : LruCache := ops.foldl step (withLimit maxBytes)

/-- The bytes most recently put under a key. -/
def lastPut (ops : List Op) (key : String) : Option Bytes :=
  ops.foldl (fun last op =>
    match op with
    | .get _ => last
    | .put k data => if k = key then some data else last) none

/-- One more than the position of the last operation on a key. -/
def lastUse (ops : List Op) : String → ℕ :=
  (ops.zipIdx 1).foldl (fun stamp op => Function.update stamp op.1.key op.2) fun _ => 0

/-- The recency list that the queue is meant to be. -/
def recency (maxBytes : ℕ) (ops : List Op) : List (String × Bytes) :=
  ops.foldl (fun l op =>
    match op with
    | .get key => touch key l
    | .put key data => LruList.insert List.length maxBytes key data l) []

/-- The side index maps each resident key to the position of its own entry. -/
def Indexed (entries : List (String × Bytes)) (index : String → Option ℕ) : Prop :=
  ∀ key pos, index key = some pos ↔ ∃ data, entries[pos]? = some (key, data)

/-- The cache after `ops` is a correct least-recently-used cache. -/
structure Correct (maxBytes : ℕ) (ops : List Op) (c : LruCache) : Prop where
  indexed : Indexed c.entries c.index
  unique : (keys c.entries).Nodup
  total : c.total = weight List.length c.entries
  within : c.total ≤ maxBytes
  answers : ∀ key data, (c.get key).1 = some data → lastPut ops key = some data
  recency : c.entries = recency maxBytes ops
  oldestFirst : ByLastUse (lastUse ops) c.entries

/-- Every key an operation evicts was used before every key that stays. -/
def EvictsOldest (maxBytes : ℕ) (ops : List Op) (op : Op) : Prop :=
  ∀ old ∈ keys (run maxBytes ops).entries, old ∉ keys (run maxBytes (ops ++ [op])).entries →
    ∀ kept ∈ keys (run maxBytes (ops ++ [op])).entries,
      lastUse (ops ++ [op]) old < lastUse (ops ++ [op]) kept

/-- The operation leaves nothing to evict, or evicts everything. -/
def LeavesPositions (c : LruCache) : Op → Prop
  | .get _ => True
  | .put key data =>
    (c.removeOld key).total + data.length ≤ c.maxBytes ∨ c.maxBytes < data.length

theorem run_snoc (maxBytes : ℕ) (ops : List Op) (op : Op) :
    run maxBytes (ops ++ [op]) = step (run maxBytes ops) op := by
  simp [run]

theorem lastPut_snoc_put (ops : List Op) (key k : String) (data : Bytes) :
    lastPut (ops ++ [.put key data]) k = if key = k then some data else lastPut ops k := by
  simp [lastPut]

theorem lastPut_snoc_get (ops : List Op) (key k : String) :
    lastPut (ops ++ [.get key]) k = lastPut ops k := by
  simp [lastPut]

theorem lastUse_snoc (ops : List Op) (op : Op) :
    lastUse (ops ++ [op]) = Function.update (lastUse ops) op.key (ops.length + 1) := by
  simp [lastUse, List.zipIdx_append, Nat.add_comm]

theorem lastUse_le (ops : List Op) (key : String) : lastUse ops key ≤ ops.length := by
  induction ops using List.reverseRecOn with
  | nil => simp [lastUse]
  | append_singleton ops op ih =>
    rw [lastUse_snoc, List.length_append, List.length_singleton]
    by_cases h : key = op.key
    · simp [h]
    · rw [Function.update_of_ne h]
      omega

theorem Indexed.nodup {entries : List (String × Bytes)} {index : String → Option ℕ}
    (h : Indexed entries index) : (keys entries).Nodup := by
  refine List.nodup_iff_getElem?_ne_getElem?.mpr fun i j hij hj heq => ?_
  obtain ⟨⟨key, data⟩, he⟩ : ∃ e, entries[j]? = some e :=
    ⟨_, List.getElem?_eq_getElem (by simpa [keys] using hj)⟩
  have hi : (entries.map Prod.fst)[i]? = some key := by
    rw [← keys, heq]
    simp [keys, he]
  obtain ⟨e, hei, hkey⟩ := Option.map_eq_some_iff.mp (List.getElem?_map ▸ hi)
  have hposj := (h key j).mpr ⟨data, he⟩
  have hposi := (h key i).mpr ⟨e.2, by rw [hei, ← hkey]⟩
  rw [hposj, Option.some.injEq] at hposi
  omega

/-- Taking an entry out and moving the later positions up keeps the index right. -/
theorem Indexed.erase {entries : List (String × Bytes)} {index : String → Option ℕ}
    (h : Indexed entries index) {key : String} {pos : ℕ} (hpos : index key = some pos) :
    Indexed (entries.eraseIdx pos) (shiftAfter pos (Function.update index key none)) := by
  intro k i
  rw [List.getElem?_eraseIdx]
  by_cases hk : k = key
  · subst hk
    simp only [shiftAfter, Function.update_self, Option.map_none]
    refine iff_of_false (by simp) ?_
    rintro ⟨data, hdata⟩
    split at hdata
    · have := (h k i).mpr ⟨data, hdata⟩
      rw [hpos, Option.some.injEq] at this
      omega
    · have := (h k (i + 1)).mpr ⟨data, hdata⟩
      rw [hpos, Option.some.injEq] at this
      omega
  · have hne : index k ≠ some pos := fun heq => by
      obtain ⟨data, hdata⟩ := (h k pos).mp heq
      obtain ⟨data', hdata'⟩ := (h key pos).mp hpos
      exact hk (by simpa using congrArg (Option.map Prod.fst) (hdata.symm.trans hdata'))
    simp only [shiftAfter, Function.update_of_ne hk, Option.map_eq_some_iff]
    constructor
    · rintro ⟨j, hj, hji⟩
      obtain ⟨data, hdata⟩ := (h k j).mp hj
      have hjpos : j ≠ pos := fun heq => hne (heq ▸ hj)
      refine ⟨data, ?_⟩
      by_cases hlt : pos < j
      · rw [if_pos hlt] at hji
        rw [if_neg (by omega), show i + 1 = j by omega]
        exact hdata
      · rw [if_neg hlt] at hji
        rw [if_pos (by omega), ← hji]
        exact hdata
    · rintro ⟨data, hdata⟩
      split at hdata
      · exact ⟨i, (h k i).mpr ⟨data, hdata⟩, if_neg (by omega)⟩
      · exact ⟨i + 1, (h k (i + 1)).mpr ⟨data, hdata⟩, by rw [if_pos (by omega)]; omega⟩

theorem Indexed.snoc {entries : List (String × Bytes)} {index : String → Option ℕ}
    (h : Indexed entries index) {key : String} (hkey : index key = none) (data : Bytes) :
    Indexed (entries ++ [(key, data)])
      (Function.update index key (some ((entries ++ [(key, data)]).length - 1))) := by
  intro k i
  have habsent : ∀ j d, entries[j]? ≠ some (key, d) := fun j d hd => by
    have := (h key j).mpr ⟨d, hd⟩
    simp [hkey] at this
  rw [List.length_append, List.length_singleton, Nat.add_sub_cancel]
  by_cases hi : i < entries.length
  · rw [List.getElem?_append_left hi]
    by_cases hk : k = key
    · subst hk
      simp only [Function.update_self, Option.some.injEq]
      exact iff_of_false (by omega) (by simpa using habsent i)
    · rw [Function.update_of_ne hk]
      exact h k i
  · rw [List.getElem?_append_right (by omega)]
    by_cases hk : k = key
    · subst hk
      simp only [Function.update_self, Option.some.injEq, List.getElem?_singleton]
      constructor
      · rintro rfl
        exact ⟨data, by simp⟩
      · rintro ⟨d, hd⟩
        split at hd
        · omega
        · simp at hd
    · rw [Function.update_of_ne hk]
      refine iff_of_false (fun hsome => ?_) ?_
      · obtain ⟨d, hd⟩ := (h k i).mp hsome
        rw [List.getElem?_eq_none (by omega)] at hd
        simp at hd
      · rintro ⟨d, hd⟩
        rw [List.getElem?_singleton] at hd
        split at hd
        · exact hk (by simpa using (congrArg (Option.map Prod.fst) hd).symm)
        · simp at hd

section Steps

variable {c : LruCache}

theorem index_eq_none (h : Indexed c.entries c.index) {key : String}
    (hkey : key ∉ keys c.entries) : c.index key = none := by
  cases hi : c.index key with
  | none => rfl
  | some pos =>
    obtain ⟨data, hdata⟩ := (h key pos).mp hi
    exact absurd (LruList.mem_keys.mpr ⟨data, List.mem_of_getElem? hdata⟩) hkey

theorem not_mem_keys (h : Indexed c.entries c.index) {key : String}
    (hkey : c.index key = none) : key ∉ keys c.entries := fun hmem => by
  obtain ⟨data, hdata⟩ := LruList.mem_keys.mp hmem
  obtain ⟨pos, hpos⟩ := List.getElem?_of_mem hdata
  have := (h key pos).mpr ⟨data, hpos⟩
  simp [hkey] at this

theorem removeOld_maxBytes (key : String) : (c.removeOld key).maxBytes = c.maxBytes := by
  unfold LruCache.removeOld
  split <;> rfl

theorem removeOld_entries (h : Indexed c.entries c.index) (key : String) :
    (c.removeOld key).entries = remove key c.entries := by
  unfold LruCache.removeOld
  split
  · next hnone => exact (LruList.remove_eq_self (not_mem_keys h hnone)).symm
  · next pos hpos =>
    obtain ⟨data, hdata⟩ := (h key pos).mp hpos
    exact LruList.eraseIdx_eq_remove h.nodup hdata

theorem removeOld_indexed (h : Indexed c.entries c.index) (key : String) :
    Indexed (c.removeOld key).entries (c.removeOld key).index := by
  unfold LruCache.removeOld
  split
  · exact h
  · next pos hpos => exact h.erase hpos

theorem removeOld_index (h : Indexed c.entries c.index) (key : String) :
    (c.removeOld key).index key = none := by
  refine index_eq_none (removeOld_indexed h key) ?_
  rw [removeOld_entries h, LruList.keys_remove]
  simp

theorem weight_eraseIdx {l : List (String × Bytes)} {pos : ℕ} {e : String × Bytes}
    (h : l[pos]? = some e) :
    weight List.length (l.eraseIdx pos) + e.2.length = weight List.length l := by
  induction l generalizing pos with
  | nil => simp at h
  | cons x l ih =>
    cases pos with
    | zero =>
      obtain rfl : x = e := by simpa using h
      simp [Nat.add_comm]
    | succ pos =>
      have := @ih pos (by simpa using h)
      simp only [List.eraseIdx_cons_succ, LruList.weight_cons]
      omega

/-- The running total never underflows: it is the sum of the resident lengths throughout. -/
theorem removeOld_total (htotal : c.total = weight List.length c.entries) (key : String) :
    (c.removeOld key).total = weight List.length (c.removeOld key).entries := by
  unfold LruCache.removeOld
  split
  · exact htotal
  · next pos _ =>
    cases he : c.entries[pos]? with
    | none => simp [htotal, List.eraseIdx_of_length_le (List.getElem?_eq_none_iff.mp he)]
    | some e =>
      have := weight_eraseIdx he
      simp only [Option.elim_some, htotal]
      omega

/-- A hit answers the resident bytes and moves their entry to the back. -/
theorem get_spec (h : Indexed c.entries c.index)
    (htotal : c.total = weight List.length c.entries) (key : String) :
    (c.get key).1 = c.entries.lookup key ∧ (c.get key).2.entries = touch key c.entries ∧
      Indexed (c.get key).2.entries (c.get key).2.index ∧
      (c.get key).2.total = weight List.length (c.get key).2.entries ∧
      (c.get key).2.total = c.total ∧ (c.get key).2.maxBytes = c.maxBytes := by
  cases hi : c.index key with
  | none =>
    have hl := LruList.lookup_eq_none_of_not_mem (not_mem_keys h hi)
    simp only [LruCache.get, hi, touch, hl]
    exact ⟨trivial, trivial, h, htotal, trivial, trivial⟩
  | some pos =>
    obtain ⟨data, hdata⟩ := (h key pos).mp hi
    have hl := LruList.lookup_eq_of_getElem? h.nodup hdata
    have hnone : (shiftAfter pos (Function.update c.index key none)) key = none := by
      simp [shiftAfter]
    have hweight : weight List.length (c.entries.eraseIdx pos) + data.length =
        weight List.length c.entries := weight_eraseIdx hdata
    simp only [LruCache.get, hi, hdata, touch, hl]
    refine ⟨trivial, ?_, (h.erase hi).snoc hnone data, ?_, trivial, trivial⟩
    · rw [LruList.eraseIdx_eq_remove h.nodup hdata]
    · simp only [LruList.weight_append, LruList.weight_cons, LruList.weight_nil]
      omega

/-- The eviction loop pops the prefix that `trim` drops, and forgets exactly its keys. -/
theorem evict_spec (maxBytes : ℕ) (l : List (String × Bytes)) (index : String → Option ℕ) :
    ∃ p, p ++ trim List.length maxBytes l = l ∧
      evict maxBytes l index (weight List.length l) =
        ⟨trim List.length maxBytes l, fun key => if key ∈ keys p then none else index key,
          weight List.length (trim List.length maxBytes l), maxBytes⟩ := by
  induction l generalizing index with
  | nil => exact ⟨[], rfl, by simp [evict, trim, keys]⟩
  | cons e l ih =>
    by_cases hw : weight List.length (e :: l) ≤ maxBytes
    · refine ⟨[], by simp [LruList.trim_eq_self hw], ?_⟩
      rw [LruList.trim_eq_self hw, evict, if_neg (by omega)]
      simp [keys]
    · obtain ⟨p, hp, hev⟩ := ih (Function.update index e.1 none)
      have htrim : trim List.length maxBytes (e :: l) = trim List.length maxBytes l := by
        simp only [trim, if_neg hw]
      have hsub : weight List.length (e :: l) - e.2.length = weight List.length l := by simp
      refine ⟨e :: p, by simp [htrim, hp], ?_⟩
      rw [htrim, evict, if_pos (by omega), hsub, hev]
      congr 1
      funext key
      by_cases hk : key = e.1 <;> simp [hk]

/-- The queue that `put` hands to the eviction loop, and what the loop leaves of it. -/
theorem put_spec (h : Indexed c.entries c.index)
    (htotal : c.total = weight List.length c.entries) (key : String) (data : Bytes) :
    ∃ index p, Indexed (remove key c.entries ++ [(key, data)]) index ∧
      p ++ LruList.insert List.length c.maxBytes key data c.entries =
        remove key c.entries ++ [(key, data)] ∧
      c.put key data =
        ⟨LruList.insert List.length c.maxBytes key data c.entries,
          fun k => if k ∈ keys p then none else index k,
          weight List.length (LruList.insert List.length c.maxBytes key data c.entries),
          c.maxBytes⟩ := by
  have hindexed := (removeOld_indexed h key).snoc (removeOld_index h key) data
  have hweight : (c.removeOld key).total + data.length =
      weight List.length (remove key c.entries ++ [(key, data)]) := by
    rw [removeOld_total htotal, removeOld_entries h]
    simp
  rw [removeOld_entries h] at hindexed
  obtain ⟨p, hp, hev⟩ := evict_spec c.maxBytes (remove key c.entries ++ [(key, data)]) _
  refine ⟨_, p, hindexed, hp, ?_⟩
  simp only [LruCache.put, removeOld_entries h, removeOld_maxBytes, hweight]
  exact hev

end Steps

theorem run_maxBytes (maxBytes : ℕ) (ops : List Op) : (run maxBytes ops).maxBytes = maxBytes := by
  have hevict : ∀ (m : ℕ) l index total, (evict m l index total).maxBytes = m := by
    intro m l
    induction l with
    | nil => intro index total; rfl
    | cons e l ih =>
      intro index total
      unfold evict
      split
      · exact ih _ _
      · rfl
  induction ops using List.reverseRecOn with
  | nil => rfl
  | append_singleton ops op ih =>
    rw [run_snoc]
    cases op with
    | get key =>
      simp only [step, LruCache.get]
      split
      · exact ih
      · split <;> exact ih
    | put key data => simp only [step, LruCache.put, hevict, removeOld_maxBytes, ih]

theorem correct_nil (maxBytes : ℕ) : Correct maxBytes [] (run maxBytes []) where
  indexed := fun key pos => by simp [run, withLimit]
  unique := List.nodup_nil
  total := rfl
  within := Nat.zero_le _
  answers := fun key data h => by simp [run, withLimit, LruCache.get] at h
  recency := rfl
  oldestFirst := LruList.byLastUse_nil

theorem Correct.mem_lastPut {maxBytes : ℕ} {ops : List Op} {c : LruCache}
    (h : Correct maxBytes ops c) {key : String} {data : Bytes} (hmem : (key, data) ∈ c.entries) :
    lastPut ops key = some data := by
  obtain ⟨pos, hpos⟩ := List.getElem?_of_mem hmem
  refine h.answers key data ?_
  rw [(get_spec h.indexed h.total key).1]
  exact LruList.lookup_eq_of_getElem? h.unique hpos

/-- `answers` follows once every resident entry holds the bytes last put under its key. -/
theorem answers_of_mem {ops : List Op} {c : LruCache} (h : Indexed c.entries c.index)
    (htotal : c.total = weight List.length c.entries)
    (hmem : ∀ e ∈ c.entries, lastPut ops e.1 = some e.2) (key : String) (data : Bytes)
    (hget : (c.get key).1 = some data) : lastPut ops key = some data := by
  rw [(get_spec h htotal key).1] at hget
  obtain ⟨l₁, l₂, hl, -⟩ := List.lookup_eq_some_iff.mp hget
  exact hmem (key, data) (by simp [hl])

theorem recency_snoc (maxBytes : ℕ) (ops : List Op) (op : Op) :
    recency maxBytes (ops ++ [op]) =
      match op with
      | .get key => touch key (recency maxBytes ops)
      | .put key data => LruList.insert List.length maxBytes key data (recency maxBytes ops) := by
  simp [recency]

theorem Correct.byLastUse_touched {maxBytes : ℕ} {ops : List Op} {c : LruCache}
    (h : Correct maxBytes ops c) (op : Op) (data : Bytes) :
    ByLastUse (lastUse (ops ++ [op])) (remove op.key c.entries ++ [(op.key, data)]) := by
  rw [lastUse_snoc]
  refine (h.oldestFirst.remove op.key).snoc ?_ (fun a => ?_) data
  · simp [LruList.keys_remove]
  · exact Nat.lt_succ_of_le (lastUse_le ops a)

/-- A `get` keeps the cache correct, hit or miss. -/
theorem Correct.get {maxBytes : ℕ} {ops : List Op} {c : LruCache} (h : Correct maxBytes ops c)
    (key : String) : Correct maxBytes (ops ++ [.get key]) (c.get key).2 := by
  obtain ⟨-, hentries, hindexed, htotal, hsame, -⟩ := get_spec h.indexed h.total key
  refine ⟨hindexed, hindexed.nodup, htotal, hsame ▸ h.within,
    answers_of_mem hindexed htotal fun e he => ?_, ?_, ?_⟩
  · rw [lastPut_snoc_get]
    rw [hentries, touch] at he
    split at he
    · exact h.mem_lastPut he
    · next v hv =>
      obtain ⟨l₁, l₂, hl, -⟩ := List.lookup_eq_some_iff.mp hv
      rcases List.mem_append.mp he with hold | hnew
      · exact h.mem_lastPut (LruList.mem_remove.mp hold).1
      · obtain rfl := List.mem_singleton.mp hnew
        exact h.mem_lastPut (by simp [hl])
  · rw [hentries, recency_snoc, h.recency]
  · rw [hentries, touch]
    split
    · next hnone =>
      rw [lastUse_snoc]
      refine h.oldestFirst.update (fun hmem => ?_) _
      obtain ⟨v, hv⟩ := LruList.mem_keys.mp hmem
      simpa [Op.key] using List.lookup_eq_none_iff.mp hnone _ hv
    · exact h.byLastUse_touched (.get key) _

/-- A `put` that leaves nothing or everything to evict keeps the cache correct. -/
theorem Correct.put {maxBytes : ℕ} {ops : List Op} {c : LruCache} (h : Correct maxBytes ops c)
    (hmax : c.maxBytes = maxBytes) {key : String} {data : Bytes}
    (hleaves : LeavesPositions c (.put key data)) :
    Correct maxBytes (ops ++ [.put key data]) (c.put key data) := by
  obtain ⟨index, p, hindexed, hp, hput⟩ := put_spec h.indexed h.total key data
  have hsuffix : (c.put key data).entries <:+ remove key c.entries ++ [(key, data)] :=
    ⟨p, by rw [hput]; exact hp⟩
  have htotal : (c.put key data).total = weight List.length (c.put key data).entries := by
    rw [hput]
  have hindexed' : Indexed (c.put key data).entries (c.put key data).index := by
    rw [hput]
    rcases hleaves with hfits | hlarge
    · have hself : LruList.insert List.length c.maxBytes key data c.entries =
          remove key c.entries ++ [(key, data)] := by
        refine LruList.trim_eq_self ?_
        rw [removeOld_total h.total, removeOld_entries h.indexed] at hfits
        simpa using hfits
      obtain rfl : p = [] := by simpa [hself] using hp
      simpa [hself] using hindexed
    · have hnil : LruList.insert List.length c.maxBytes key data c.entries = [] :=
        LruList.trim_snoc_of_lt hlarge
      rw [hnil, List.append_nil] at hp
      intro k pos
      simp only [hnil, hp, List.getElem?_nil, reduceCtorEq, exists_false, iff_false]
      split
      · simp
      · next hk =>
        intro hsome
        obtain ⟨d, hd⟩ := (hindexed k pos).mp hsome
        exact hk (LruList.mem_keys.mpr ⟨d, List.mem_of_getElem? hd⟩)
  refine ⟨hindexed', hindexed'.nodup, htotal, ?_,
    answers_of_mem hindexed' htotal fun e he => ?_, ?_, ?_⟩
  · rw [hput, ← hmax]
    exact LruList.weight_trim_le _ _ _
  · rw [lastPut_snoc_put]
    rcases List.mem_append.mp (hsuffix.subset he) with hold | hnew
    · obtain ⟨hmem, hne⟩ := LruList.mem_remove.mp hold
      rw [if_neg (Ne.symm hne)]
      exact h.mem_lastPut hmem
    · obtain rfl := List.mem_singleton.mp hnew
      exact if_pos rfl
  · rw [hput, recency_snoc, ← h.recency, hmax]
  · exact (h.byLastUse_touched (.put key data) data).of_suffix hsuffix

/-- A `put` that evicts some entries and keeps its own records a position past its entry. -/
theorem not_indexed_put {c : LruCache} (h : Indexed c.entries c.index)
    (htotal : c.total = weight List.length c.entries) {key : String} {data : Bytes}
    (hmore : c.maxBytes < (c.removeOld key).total + data.length)
    (hfits : data.length ≤ c.maxBytes) :
    ¬ Indexed (c.put key data).entries (c.put key data).index := by
  obtain ⟨index, p, hindexed, hp, hput⟩ := put_spec h htotal key data
  obtain ⟨m, hm, htrim⟩ :
      ∃ m, m <:+ remove key c.entries ∧
        trim List.length c.maxBytes (remove key c.entries ++ [(key, data)]) =
          m ++ [(key, data)] := LruList.trim_snoc_of_le hfits
  rw [LruList.insert, htrim, ← List.append_assoc] at hp
  obtain ⟨hpm, -⟩ := List.append_inj' hp rfl
  have hstored : index key = some (remove key c.entries).length :=
    (hindexed key _).mpr ⟨data, by simp⟩
  have hkept : key ∉ keys p := fun hmem => by
    have : key ∈ keys (remove key c.entries) := by
      rw [← hpm, LruList.keys_append]
      exact List.mem_append_left _ hmem
    simp [LruList.keys_remove] at this
  have hdropped : p ≠ [] := by
    rintro rfl
    have hle := LruList.weight_trim_le List.length c.maxBytes
      (remove key c.entries ++ [(key, data)])
    rw [htrim, show m = remove key c.entries from hpm, ← removeOld_entries h key] at hle
    rw [removeOld_total htotal] at hmore
    simp at hle
    omega
  intro hcorrect
  rw [hput, LruList.insert, htrim] at hcorrect
  obtain ⟨d, hd⟩ := (hcorrect key (remove key c.entries).length).mp (by simp [hkept, hstored])
  have hlt := (List.getElem?_eq_some_iff.mp hd).1
  have hlen : (remove key c.entries).length = p.length + m.length := by
    rw [← hpm, List.length_append]
  have := List.length_pos_of_ne_nil hdropped
  simp at hlt
  omega

/-- One operation keeps the cache correct exactly when it leaves the stored positions right. -/
theorem correct_step_iff {maxBytes : ℕ} {ops : List Op}
    (h : Correct maxBytes ops (run maxBytes ops)) (op : Op) :
    Correct maxBytes (ops ++ [op]) (run maxBytes (ops ++ [op])) ↔
      LeavesPositions (run maxBytes ops) op := by
  rw [run_snoc]
  cases op with
  | get key => exact iff_of_true (h.get key) trivial
  | put key data =>
    refine ⟨fun hc => ?_, h.put (run_maxBytes maxBytes ops)⟩
    by_contra hleaves
    simp only [LeavesPositions, not_or, not_le, not_lt] at hleaves
    exact not_indexed_put h.indexed h.total hleaves.1 hleaves.2 hc.indexed

theorem Correct.evictsOldest {maxBytes : ℕ} {ops : List Op}
    (h : Correct maxBytes ops (run maxBytes ops)) (op : Op) : EvictsOldest maxBytes ops op := by
  intro old hold hdrop kept hkept
  rw [run_snoc] at hdrop hkept
  cases op with
  | get key =>
    refine absurd ?_ hdrop
    rw [step, (get_spec h.indexed h.total key).2.1, touch]
    split
    · exact hold
    · next v hv =>
      rw [LruList.keys_append, LruList.keys_remove]
      by_cases hk : old = key <;> simp [hk, hold]
  | put key data =>
    obtain ⟨index, p, -, -, hput⟩ := put_spec h.indexed h.total key data
    rw [step, hput] at hdrop hkept
    refine (h.byLastUse_touched (.put key data) data).trim_oldest List.length
      (run maxBytes ops).maxBytes ?_ hdrop hkept
    rw [LruList.keys_append, LruList.keys_remove]
    by_cases hk : old = key <;> simp [Op.key, hk, hold]

/-- The cache is a correct least-recently-used cache throughout a run exactly when every `put`
of the run fits beside the resident entries or is larger than the whole budget. -/
theorem run_correct_iff (maxBytes : ℕ) (ops : List Op) :
    EveryPrefix (fun pre => Correct maxBytes pre (run maxBytes pre)) ops ∧
        EveryStep (EvictsOldest maxBytes) ops ↔
      EveryStep (fun pre op => LeavesPositions (run maxBytes pre) op) ops := by
  have hiff := Runs.everyPrefix_iff_everyStep
    (P := fun pre => Correct maxBytes pre (run maxBytes pre)) (correct_nil maxBytes)
    (fun pre op h => correct_step_iff h op) ops
  rw [← hiff]
  exact and_iff_left_of_imp fun h => h.before.imp fun pre op hc => hc.evictsOldest op

/-- Two puts, a hit and an evicting put: the hit entry then answers the other key's bytes. -/
theorem run_not_correct :
    ¬ ∀ (maxBytes : ℕ) (ops : List Op),
      EveryPrefix (fun pre => Correct maxBytes pre (run maxBytes pre)) ops ∧
        EveryStep (EvictsOldest maxBytes) ops := by
  intro h
  let ops : List Op := [.put "a" [1], .put "b" [2], .get "a", .put "c" [3]]
  have hanswer : ((run 2 ops).get "a").1 = some [3] := by decide
  have hlast := (h 2 ops).1.self.answers "a" [3] hanswer
  exact absurd hlast (by decide)

end PrtsMcp.ImageCache
