import PrtsMcp.Fallible
import PrtsMcp.IndexedMap
import PrtsMcp.Listings
import PrtsMcp.Projection
import PrtsMcp.Tables

/-!
# Appearances of enemies

How often a level spawns each enemy, the index from enemies to the stages that spawn them, and the
rows that are derived from it.
-/
namespace PrtsMcp.EnemyAppearances

open ActivityPages (Build)
open I64 (InRange narrow narrow_of_inRange)
open IndexedMap (sumOf tally)
open StoryListing (Table itemsOf)
open Zodish (Value)

/-! ## Levels -/

/-- `level_path`. -/
def levelPath (levelId : String) : String :=
  String.ofList ((levelId.toList.map Char.toLower).map fun c => if c = '\\' then '/' else c) ++ ".json"

def isSpawn (action : Value) : Bool :=
  match action.get "actionType" with
  | some (.string s) => s = "SPAWN"
  | some (.number n) => n.asI64 = some 0
  | _ => false

/-- The key of an action, unless it is empty. -/
def actionKey (action : Value) : Option String :=
  ((action.get "key").bind JsonValue.asStr).filter fun key => key ≠ ""

/-- The count of an action as a double; a text that is none is not a number. -/
def countNumber (action : Value) : JsNumber :=
  match action.get "count" with
  | none => .finite 1
  | some .null => .finite 1
  | some (.number n) => n.asF64
  | some (.string s) => JsNumber.decimal s.toList
  | some _ => .nan

/-- `f64::trunc`. -/
def trunc (x : ℚ) : ℤ := if x < 0 then ⌈x⌉ else ⌊x⌋

/-- The integer part of the count, one at least. -/
def wholeCount (action : Value) : ℤ :=
  max 1 (match countNumber action with
    | .finite x => trunc x
    | _ => 1)

/-- `as i64` of a whole double. -/
def castI64 (n : ℤ) : ℤ := max (-2 ^ 63) (min n (2 ^ 63 - 1))

/-- One action; `none` is a panic. -/
def countAction (build : Build) (counts : IndexedMap String ℤ) (action : Value) :
    Option (IndexedMap String ℤ) :=
  if !isSpawn action then some counts
  else
    match actionKey action with
    | none => some counts
    | some key => do
      let next ← narrow build ((counts.get key).getD 0 + castI64 (wholeCount action))
      return counts.insert key next

def spawnCounts (build : Build) (level : Value) : Option (IndexedMap String ℤ) :=
  (itemsOf "waves" level).foldlM (fun counts wave =>
    (itemsOf "fragments" wave).foldlM (fun counts fragment =>
      (itemsOf "actions" fragment).foldlM (countAction build) counts) counts) IndexedMap.empty

/-! ## The index -/

/-- The store of the levels: the files that are there, and those of them that are JSON. -/
structure Levels where
  fileExists : String → Bool
  parsed : String → Option Value

/-- What is read of a level for the index. -/
def wavesOnly : Projected.Projection := .fields [("waves", .all)]

/-- The level of a stage as the index reads it; a stage without one is passed over. -/
def readLevel (levels : Levels) (stage : Value) : Option Value := do
  let levelId ← (stage.get "levelId").bind JsonValue.asStr
  if !levels.fileExists (levelPath levelId) then none
  let level ← (levels.parsed (levelPath levelId)).map wavesOnly.prune
  if level.isObject then some level else none

abbrev AppearanceIndex := IndexedMap String (List (String × ℤ))

def addAppearance (stageId : String) (index : AppearanceIndex) (entry : String × ℤ) :
    AppearanceIndex :=
  match index.get entry.1 with
  | some _ => index.modify entry.1 fun rows => rows ++ [(stageId, entry.2)]
  | none => index.insert entry.1 [(stageId, entry.2)]

def addStage (build : Build) (levels : Levels) (index : AppearanceIndex) (stage : String × Value) :
    Option AppearanceIndex :=
  match readLevel levels stage.2 with
  | none => some index
  | some level => do
    let counts ← spawnCounts build level
    return counts.entries.foldl (addAppearance stage.1) index

def enemyAppearanceIndex (build : Build) (stages : Except String Table) (levels : Option Levels) :
    Option (Except String AppearanceIndex) :=
  match stages with
  | .error message => some (.error message)
  | .ok stages =>
    match levels with
    | none => some (.ok IndexedMap.empty)
    | some levels => (stages.foldlM (addStage build levels) IndexedMap.empty).map .ok

/-! ## The rows -/

structure AppearanceRow where
  enemy : String
  ordinal : ℕ
  stage : String
  count : ℤ
  deriving DecidableEq

/-- `sqlite_export` -/
def sqliteExport (index : AppearanceIndex) : List (String × String × ℤ) :=
  index.entries.flatMap fun entry => entry.2.map fun row => (entry.1, row.1, row.2)

/-- The rows that the compiler inserts, numbered over all enemies. -/
def appearanceRows (index : AppearanceIndex) : List AppearanceRow :=
  (sqliteExport index).zipIdx.map fun row => ⟨row.1.1, row.2, row.1.2.1, row.1.2.2⟩

/-- `SELECT stage,count FROM enemy_appearances WHERE enemy=?1 ORDER BY ordinal` -/
def enemyAppearances (rows : List AppearanceRow) (enemy : String) : List (String × ℤ) :=
  ((rows.filter fun row => row.enemy = enemy).insertionSort fun a b => a.ordinal ≤ b.ordinal).map
    fun row => (row.stage, row.count)

/-- The rows of an enemy in the index. -/
def listed (index : AppearanceIndex) (enemy : String) : List (String × ℤ) :=
  (index.get enemy).getD []

/-! ## What should be counted -/

/-- The enemy and the count of a spawn. -/
def spawn? (action : Value) : Option (String × ℤ) :=
  if isSpawn action then (actionKey action).map fun key => (key, wholeCount action) else none

def spawns (level : Value) : List (String × ℤ) :=
  (itemsOf "waves" level).flatMap fun wave =>
    (itemsOf "fragments" wave).flatMap fun fragment =>
      (itemsOf "actions" fragment).filterMap spawn?

/-- The level of a stage, all of it. -/
def levelOf (levels : Levels) (stage : Value) : Option Value := do
  let levelId ← (stage.get "levelId").bind JsonValue.asStr
  if !levels.fileExists (levelPath levelId) then none
  let level ← levels.parsed (levelPath levelId)
  if level.isObject then some level else none

/-- The stages whose levels spawn an enemy, in the order of the table, with how many they spawn. -/
def stagesOf (levels : Levels) (stages : Table) (enemy : String) : List (String × ℤ) :=
  stages.filterMap fun stage => (levelOf levels stage.2).bind fun level =>
    ((tally (spawns level)).lookup enemy).map fun count => (stage.1, count)

/-- No enemy is spawned more often than an `i64` can say. -/
def Countable (level : Value) : Prop := ∀ key, sumOf (spawns level) key < 2 ^ 63

/-! ## Counting -/

/-- One spawn is added to the count of its enemy. -/
def addSpawn (build : Build) (counts : IndexedMap String ℤ) (spawn : String × ℤ) :
    Option (IndexedMap String ℤ) := do
  let next ← narrow build ((counts.get spawn.1).getD 0 + castI64 spawn.2)
  return counts.insert spawn.1 next

theorem countAction_eq (build : Build) (counts : IndexedMap String ℤ) (action : Value) :
    countAction build counts action =
      (spawn? action).elim (some counts) fun spawn => addSpawn build counts spawn := by
  rw [countAction, spawn?]
  cases isSpawn action with
  | false => rfl
  | true => cases actionKey action <;> rfl

theorem foldlM_countAction (build : Build) (actions : List Value) (counts : IndexedMap String ℤ) :
    actions.foldlM (countAction build) counts =
      (actions.filterMap spawn?).foldlM (addSpawn build) counts := by
  induction actions generalizing counts with
  | nil => rfl
  | cons action actions ih =>
    rw [List.foldlM_cons, countAction_eq]
    cases hspawn : spawn? action with
    | none =>
      rw [List.filterMap_cons_none hspawn, Option.elim_none]
      exact ih counts
    | some spawn =>
      rw [List.filterMap_cons_some hspawn, Option.elim_some, List.foldlM_cons]
      exact congrArg _ (funext ih)

/-- The nested loops are one loop over the spawns of the level. -/
theorem spawnCounts_eq (build : Build) (level : Value) :
    spawnCounts build level = (spawns level).foldlM (addSpawn build) IndexedMap.empty := by
  rw [spawnCounts, spawns, Fallible.foldlM_flatMap]
  congr 1
  funext counts wave
  rw [Fallible.foldlM_flatMap]
  congr 1
  funext counts fragment
  exact foldlM_countAction build _ counts

theorem one_le_of_mem_spawns {level : Value} {spawn : String × ℤ} (h : spawn ∈ spawns level) :
    1 ≤ spawn.2 := by
  simp only [spawns, List.mem_flatMap, List.mem_filterMap] at h
  obtain ⟨wave, -, fragment, -, action, -, haction⟩ := h
  rw [spawn?] at haction
  split_ifs at haction
  obtain ⟨key, -, rfl⟩ := Option.map_eq_some_iff.mp haction
  exact le_max_left _ _

theorem sumOf_nonneg {xs : List (String × ℤ)} (h : ∀ x ∈ xs, 1 ≤ x.2) (key : String) :
    0 ≤ sumOf xs key := by
  apply List.sum_nonneg
  intro n hn
  obtain ⟨x, hx, rfl⟩ := List.mem_map.mp hn
  have := h x (List.mem_of_mem_filter hx)
  omega

theorem castI64_of_lt {n : ℤ} (hpos : 1 ≤ n) (h : n < 2 ^ 63) : castI64 n = n := by
  rw [castI64]
  omega

/-- The count of an enemy after one more spawn, where it fits. -/
theorem addSpawn_tally (build : Build) {counts : IndexedMap String ℤ} {xs : List (String × ℤ)}
    {x : String × ℤ} (hentries : counts.entries = tally xs) (hxs : ∀ x ∈ xs, 1 ≤ x.2) (hx : 1 ≤ x.2)
    (hfits : sumOf (xs ++ [x]) x.1 < 2 ^ 63) :
    ∃ counts', addSpawn build counts x = some counts' ∧ counts'.entries = tally (xs ++ [x]) := by
  rw [IndexedMap.sumOf_concat, if_pos rfl] at hfits
  have hold : (counts.get x.1).getD 0 = sumOf xs x.1 := by
    rw [IndexedMap.get_eq_lookup, hentries, IndexedMap.lookup_tally]
    split_ifs with hmem
    · rfl
    · exact (IndexedMap.sumOf_of_notMem hmem).symm
  have hnonneg := sumOf_nonneg hxs x.1
  have hcast : castI64 x.2 = x.2 := castI64_of_lt hx (by omega)
  have hrange : InRange ((counts.get x.1).getD 0 + castI64 x.2) := by
    rw [hold, hcast]
    exact ⟨by omega, hfits⟩
  refine ⟨counts.insert x.1 ((counts.get x.1).getD 0 + castI64 x.2), ?_, ?_⟩
  · rw [addSpawn, narrow_of_inRange hrange]
    rfl
  · rw [IndexedMap.entries_insert, hentries, IndexedMap.tally_concat, hcast,
      IndexedMap.get_eq_lookup, hentries]

theorem foldlM_addSpawn (build : Build) {xs : List (String × ℤ)} (hxs : ∀ x ∈ xs, 1 ≤ x.2)
    (hfits : ∀ key, sumOf xs key < 2 ^ 63) :
    ∃ counts, xs.foldlM (addSpawn build) IndexedMap.empty = some counts ∧ counts.entries = tally xs := by
  induction xs using List.reverseRecOn with
  | nil => exact ⟨IndexedMap.empty, rfl, rfl⟩
  | append_singleton xs x ih =>
    have hx : 1 ≤ x.2 := hxs x (by simp)
    have hinit : ∀ x ∈ xs, 1 ≤ x.2 := fun x hx => hxs x (List.mem_append_left _ hx)
    have hfits' : ∀ key, sumOf xs key < 2 ^ 63 := by
      intro key
      have hkey := hfits key
      rw [IndexedMap.sumOf_concat] at hkey
      split_ifs at hkey <;> omega
    obtain ⟨counts, hcounts, hentries⟩ := ih hinit hfits'
    obtain ⟨counts', hcounts', hentries'⟩ := addSpawn_tally build hentries hinit hx (hfits x.1)
    refine ⟨counts', ?_, hentries'⟩
    rw [List.foldlM_append, hcounts]
    simp [hcounts']

/-- Every count that is kept is an `i64`. -/
def Ranged (counts : IndexedMap String ℤ) : Prop := ∀ entry ∈ counts.entries, InRange entry.2

theorem Ranged.addSpawn {build : Build} {counts counts' : IndexedMap String ℤ} {x : String × ℤ}
    (h : Ranged counts) (hstep : addSpawn build counts x = some counts') : Ranged counts' := by
  obtain ⟨next, hnext, hcounts'⟩ := Option.bind_eq_some_iff.mp hstep
  obtain rfl := Option.some.inj hcounts'
  intro entry hentry
  rw [IndexedMap.entries_insert] at hentry
  rcases OrderedMap.eq_or_mem_of_mem_insert hentry with rfl | hentry
  · exact I64.inRange_of_narrow hnext
  · exact h entry hentry

theorem ranged_foldlM {build : Build} {xs : List (String × ℤ)} {counts counts' : IndexedMap String ℤ}
    (h : Ranged counts) (hrun : xs.foldlM (EnemyAppearances.addSpawn build) counts = some counts') :
    Ranged counts' := by
  induction xs generalizing counts with
  | nil =>
    obtain rfl := Option.some.inj hrun
    exact h
  | cons x xs ih =>
    rw [List.foldlM_cons] at hrun
    obtain ⟨next, hnext, hrest⟩ := Option.bind_eq_some_iff.mp hrun
    exact ih (h.addSpawn hnext) hrest

theorem ranged_spawnCounts {build : Build} {level : Value} {counts : IndexedMap String ℤ}
    (h : spawnCounts build level = some counts) : Ranged counts := by
  rw [spawnCounts_eq] at h
  exact ranged_foldlM (fun entry hentry => absurd hentry List.not_mem_nil) h

/-- A level is counted exactly, in the order of its first spawns, exactly if every count fits. -/
theorem spawnCounts_iff (build : Build) (level : Value) :
    (spawnCounts build level).map IndexedMap.entries = some (tally (spawns level)) ↔
      Countable level := by
  constructor
  · intro h key
    obtain ⟨counts, hcounts, hentries⟩ := Option.map_eq_some_iff.mp h
    by_cases hkey : key ∈ (spawns level).map Prod.fst
    · have hmem : (key, sumOf (spawns level) key) ∈ counts.entries := by
        rw [hentries]
        exact List.mem_map.mpr ⟨key, List.mem_eraseDups.mpr hkey, rfl⟩
      exact (ranged_spawnCounts hcounts _ hmem).2
    · rw [IndexedMap.sumOf_of_notMem hkey]
      norm_num
  · intro h
    obtain ⟨counts, hcounts, hentries⟩ := foldlM_addSpawn build (fun x => one_le_of_mem_spawns) h
    rw [spawnCounts_eq, hcounts, Option.map_some, hentries]

/-! ## Reading levels -/

theorem itemsOf_wavesOnly (level : Value) :
    itemsOf "waves" (wavesOnly.prune level) = itemsOf "waves" level := by
  cases level with
  | object fields =>
    have hkept : ∀ value : Value, wavesOnly.pruneField "waves" value = some (id value) :=
      fun value => congrArg some (Projected.Projection.prune_all value)
    have hprune : wavesOnly.prune (.object fields) =
        JsonValue.object (OrderedMap.filterValues wavesOnly.pruneField fields) := by
      rw [Projected.Projection.prune, Projected.Projection.pruneFields_eq_filterValues]
      rfl
    rw [hprune, itemsOf, itemsOf, JsonValue.get, JsonValue.get, OrderedMap.lookup_filterValues hkept,
      Option.map_id]
    rfl
  | null => rw [Projected.Projection.prune]
  | bool _ | number _ | string _ | array _ =>
    rw [Projected.Projection.prune]
    rfl

theorem isObject_prune (level : Value) : (wavesOnly.prune level).isObject = level.isObject := by
  cases level <;> rw [Projected.Projection.prune] <;> rfl

theorem spawns_wavesOnly (level : Value) : spawns (wavesOnly.prune level) = spawns level := by
  rw [spawns, itemsOf_wavesOnly]
  rfl

theorem spawnCounts_wavesOnly (build : Build) (level : Value) :
    spawnCounts build (wavesOnly.prune level) = spawnCounts build level := by
  rw [spawnCounts_eq, spawns_wavesOnly, spawnCounts_eq]

/-- The index reads of each level what it needs of it. -/
theorem readLevel_eq (levels : Levels) (stage : Value) :
    readLevel levels stage = (levelOf levels stage).map wavesOnly.prune := by
  unfold readLevel levelOf
  cases (stage.get "levelId").bind JsonValue.asStr with
  | none => rfl
  | some levelId =>
    simp only [Option.bind_eq_bind, Option.bind_some]
    cases levels.fileExists (levelPath levelId) with
    | false => rfl
    | true =>
      cases levels.parsed (levelPath levelId) with
      | none => rfl
      | some level =>
        simp only [Option.map_some, Option.bind_some, isObject_prune]
        cases level.isObject <;> rfl

/-! ## The index of the stages -/

theorem listed_addAppearance (stageId : String) (index : AppearanceIndex) (entry : String × ℤ)
    (enemy : String) :
    listed (addAppearance stageId index entry) enemy =
      if entry.1 = enemy then listed index enemy ++ [(stageId, entry.2)] else listed index enemy := by
  rw [addAppearance]
  by_cases h : entry.1 = enemy
  · subst h
    rw [if_pos rfl]
    cases hrows : index.get entry.1 with
    | none => simp [listed, IndexedMap.get_insert_self, hrows]
    | some rows => simp [listed, IndexedMap.get_modify_self _ _ hrows, hrows]
  · have hne : enemy ≠ entry.1 := fun heq => h heq.symm
    rw [if_neg h]
    cases hrows : index.get entry.1 with
    | none => simp [listed, IndexedMap.get_insert_of_ne _ _ hne]
    | some rows => simp [listed, IndexedMap.get_modify_of_ne _ _ hrows hne]

theorem listed_foldl (stageId : String) (entries : List (String × ℤ)) (index : AppearanceIndex)
    (enemy : String) :
    listed (entries.foldl (addAppearance stageId) index) enemy =
      listed index enemy ++
        (entries.filter fun entry => entry.1 = enemy).map fun entry => (stageId, entry.2) := by
  induction entries generalizing index with
  | nil => simp
  | cons entry entries ih =>
    rw [List.foldl_cons, ih, listed_addAppearance]
    by_cases h : entry.1 = enemy
    · rw [if_pos h, List.filter_cons_of_pos (by simpa using h)]
      simp
    · rw [if_neg h, List.filter_cons_of_neg (by simpa using h)]

/-- The row of an enemy from a stage, as its level is counted. -/
def countedRow (build : Build) (levels : Levels) (enemy : String) (stage : String × Value) :
    Option (String × ℤ) :=
  (levelOf levels stage.2).bind fun level => (spawnCounts build level).bind fun counts =>
    (counts.get enemy).map fun count => (stage.1, count)

/-- One stage appends its row to the rows of each enemy that it spawns. -/
theorem listed_addStage {build : Build} {levels : Levels} {index index' : AppearanceIndex}
    {stage : String × Value} (h : addStage build levels index stage = some index') (enemy : String) :
    listed index' enemy = listed index enemy ++ (countedRow build levels enemy stage).toList := by
  rw [addStage, readLevel_eq] at h
  rw [countedRow]
  cases hlevel : levelOf levels stage.2 with
  | none =>
    rw [hlevel] at h
    obtain rfl : index = index' := Option.some.inj h
    simp
  | some level =>
    rw [hlevel, Option.map_some] at h
    simp only [spawnCounts_wavesOnly] at h
    obtain ⟨counts, hcounts, hindex'⟩ := Option.bind_eq_some_iff.mp h
    obtain rfl := Option.some.inj hindex'
    rw [listed_foldl, OrderedMap.filter_key_of_nodup counts.nodup, ← IndexedMap.get_eq_lookup]
    simp only [Option.bind_some, hcounts]
    cases counts.get enemy <;> rfl

/-- The stages append their rows in the order of the table. -/
theorem listed_foldlM {build : Build} {levels : Levels} {stages : Table} {index index' : AppearanceIndex}
    (h : stages.foldlM (addStage build levels) index = some index') (enemy : String) :
    listed index' enemy = listed index enemy ++ stages.filterMap (countedRow build levels enemy) := by
  induction stages generalizing index with
  | nil =>
    obtain rfl : index = index' := Option.some.inj h
    simp
  | cons stage stages ih =>
    rw [List.foldlM_cons] at h
    obtain ⟨next, hnext, hrest⟩ := Option.bind_eq_some_iff.mp h
    rw [ih hrest, listed_addStage hnext, List.append_assoc]
    cases hrow : countedRow build levels enemy stage with
    | none => simp [hrow]
    | some row => simp [hrow]

theorem addStage_isSome (build : Build) {levels : Levels} {stage : String × Value}
    (h : ∀ level, levelOf levels stage.2 = some level → Countable level) (index : AppearanceIndex) :
    ∃ index', addStage build levels index stage = some index' := by
  rw [addStage, readLevel_eq]
  cases hlevel : levelOf levels stage.2 with
  | none => exact ⟨index, rfl⟩
  | some level =>
    obtain ⟨counts, hcounts, -⟩ :=
      Option.map_eq_some_iff.mp ((spawnCounts_iff build level).mpr (h level hlevel))
    refine ⟨counts.entries.foldl (addAppearance stage.1) index, ?_⟩
    simp [spawnCounts_wavesOnly, hcounts]

theorem foldlM_addStage_isSome (build : Build) {levels : Levels} {stages : Table}
    (h : ∀ stage ∈ stages, ∀ level, levelOf levels stage.2 = some level → Countable level)
    (index : AppearanceIndex) :
    ∃ index', stages.foldlM (addStage build levels) index = some index' := by
  induction stages generalizing index with
  | nil => exact ⟨index, rfl⟩
  | cons stage stages ih =>
    obtain ⟨next, hnext⟩ := addStage_isSome build (h stage List.mem_cons_self) index
    obtain ⟨index', hindex'⟩ := ih (fun stage hstage => h stage (List.mem_cons_of_mem _ hstage)) next
    refine ⟨index', ?_⟩
    rw [List.foldlM_cons, hnext]
    exact hindex'

theorem countedRow_of_countable {build : Build} {levels : Levels} {stage : String × Value}
    (h : ∀ level, levelOf levels stage.2 = some level → Countable level) (enemy : String) :
    countedRow build levels enemy stage = (levelOf levels stage.2).bind fun level =>
      ((tally (spawns level)).lookup enemy).map fun count => (stage.1, count) := by
  rw [countedRow]
  cases hlevel : levelOf levels stage.2 with
  | none => rfl
  | some level =>
    obtain ⟨counts, hcounts, hentries⟩ :=
      Option.map_eq_some_iff.mp ((spawnCounts_iff build level).mpr (h level hlevel))
    simp only [Option.bind_some, hcounts, IndexedMap.get_eq_lookup, hentries]

theorem inRange_of_countedRow {build : Build} {levels : Levels} {stage : String × Value} {enemy : String}
    {row : String × ℤ} (h : countedRow build levels enemy stage = some row) : InRange row.2 := by
  rw [countedRow] at h
  obtain ⟨level, -, h⟩ := Option.bind_eq_some_iff.mp h
  obtain ⟨counts, hcounts, h⟩ := Option.bind_eq_some_iff.mp h
  obtain ⟨count, hcount, rfl⟩ := Option.map_eq_some_iff.mp h
  rw [IndexedMap.get_eq_lookup] at hcount
  obtain ⟨before, after, hentries, -⟩ := List.lookup_eq_some_iff.mp hcount
  exact ranged_spawnCounts hcounts (enemy, count) (by simp [hentries])

/-- No stage is listed twice, and none before its place in the table. -/
theorem stagesOf_sublist (levels : Levels) (stages : Table) (enemy : String) :
    ((stagesOf levels stages enemy).map Prod.fst).Sublist (stages.map Prod.fst) := by
  induction stages with
  | nil => exact List.Sublist.refl _
  | cons stage stages ih =>
    rw [stagesOf, List.filterMap_cons]
    split
    · exact ih.cons _
    · next row hrow =>
      obtain ⟨level, -, hrow⟩ := Option.bind_eq_some_iff.mp hrow
      obtain ⟨count, -, rfl⟩ := Option.map_eq_some_iff.mp hrow
      exact ih.cons_cons _

/-! ## The rows of the database -/

theorem pairwise_appearanceRows (index : AppearanceIndex) :
    (appearanceRows index).Pairwise fun a b => a.ordinal ≤ b.ordinal := by
  rw [appearanceRows, List.pairwise_map, List.pairwise_iff_getElem]
  intro i j hi hj hij
  simp only [List.getElem_zipIdx]
  omega

theorem flatMap_of_filter (entries : List (String × List (String × ℤ))) (enemy : String) :
    (((entries.flatMap fun entry => entry.2.map fun row => (entry.1, row.1, row.2)).filter
      fun row => row.1 = enemy).map fun row => (row.2.1, row.2.2)) =
      (entries.filter fun entry => entry.1 = enemy).flatMap Prod.snd := by
  induction entries with
  | nil => rfl
  | cons entry entries ih =>
    rw [List.flatMap_cons, List.filter_append, List.map_append, ih]
    by_cases h : entry.1 = enemy
    · rw [List.filter_cons_of_pos (by simpa using h), List.flatMap_cons]
      simp [List.filter_map, Function.comp_def, h]
    · rw [List.filter_cons_of_neg (by simpa using h)]
      simp [List.filter_map, Function.comp_def, h]

/-- The query returns the rows of the index in their order. -/
theorem enemyAppearances_appearanceRows (index : AppearanceIndex) (enemy : String) :
    enemyAppearances (appearanceRows index) enemy = listed index enemy := by
  have hsorted := (pairwise_appearanceRows index).filter fun row => row.enemy = enemy
  rw [enemyAppearances, hsorted.insertionSort_eq, appearanceRows, List.filter_map, List.map_map]
  have hrows := congrArg (List.map fun row : String × String × ℤ => (row.2.1, row.2.2))
    (Tables.filter_zipIdx_fst (sqliteExport index) fun row => row.1 = enemy)
  rw [List.map_map, sqliteExport, flatMap_of_filter, OrderedMap.filter_key_of_nodup index.nodup,
    ← IndexedMap.get_eq_lookup] at hrows
  refine hrows.trans ?_
  rw [listed]
  cases index.get enemy with
  | none => rfl
  | some rows => simp

/-! ## The index and the rows -/

/-- The index and the rows that are stored list of every enemy the stages that spawn it. -/
def Listed (build : Build) (levels : Levels) (stages : Table) : Prop :=
  ∃ index, enemyAppearanceIndex build (.ok stages) (some levels) = some (.ok index) ∧
    ∀ enemy, listed index enemy = stagesOf levels stages enemy ∧
      enemyAppearances (appearanceRows index) enemy = stagesOf levels stages enemy

theorem listed_of_countable (build : Build) {levels : Levels} {stages : Table}
    (h : ∀ stage ∈ stages, ∀ level, levelOf levels stage.2 = some level → Countable level) :
    Listed build levels stages := by
  obtain ⟨index, hindex⟩ := foldlM_addStage_isSome build h IndexedMap.empty
  have hlisted : ∀ enemy, listed index enemy = stagesOf levels stages enemy := by
    intro enemy
    rw [listed_foldlM hindex]
    exact List.filterMap_congr fun stage hstage => countedRow_of_countable (h stage hstage) enemy
  refine ⟨index, ?_, fun enemy => ⟨hlisted enemy, ?_⟩⟩
  · rw [enemyAppearanceIndex, hindex]
    rfl
  · rw [enemyAppearances_appearanceRows, hlisted]

/-- What is listed is an `i64`, so that a level with a larger count is not listed as it is. -/
theorem Listed.countable {build : Build} {levels : Levels} {stages : Table}
    (h : Listed build levels stages) {stage : String × Value} (hstage : stage ∈ stages) {level : Value}
    (hlevel : levelOf levels stage.2 = some level) : Countable level := by
  intro key
  by_cases hkey : key ∈ (spawns level).map Prod.fst
  · obtain ⟨index, hindex, hlisted⟩ := h
    obtain ⟨index', hrun, hok⟩ := Option.map_eq_some_iff.mp hindex
    obtain rfl := Except.ok.inj hok
    have hrow : (stage.1, sumOf (spawns level) key) ∈ stagesOf levels stages key := by
      refine List.mem_filterMap.mpr ⟨stage, hstage, ?_⟩
      rw [hlevel, Option.bind_some, IndexedMap.lookup_tally, if_pos hkey]
      rfl
    rw [← (hlisted key).1, listed_foldlM hrun] at hrow
    obtain ⟨counted, -, hcounted⟩ := List.mem_filterMap.mp hrow
    exact (inRange_of_countedRow hcounted).2
  · rw [IndexedMap.sumOf_of_notMem hkey]
    norm_num

def largeSpawn : Value :=
  .object [("actionType", .string "SPAWN"), ("key", .string "enemy_1007_slime"),
    ("count", .number (.float (.finite (2 ^ 62))))]

def largeLevel : Value :=
  .object [("waves", .array [.object [("fragments", .array [.object
    [("actions", .array [largeSpawn, largeSpawn])]])]])]

end PrtsMcp.EnemyAppearances
