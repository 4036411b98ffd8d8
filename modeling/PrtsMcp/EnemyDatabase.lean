import PrtsMcp.EnemyAppearances
import PrtsMcp.FrozenReads
import PrtsMcp.SortedMap

/-!
# The enemy database

The levels of every enemy, read from the whole table and from its frozen projection, and that both
hold the same levels but for the fields that are projected away.
-/
namespace PrtsMcp.EnemyDatabase

open EnemyAppearances (trunc castI64)
open OrderedMap (mapValues)
open Projected (Projection Parser fromStr freeze parseValue)
open Zodish (Value)

/-! ## The projection -/

def combatAttributes : Projection := .fields [
  ("maxHp", .all),
  ("atk", .all),
  ("def", .all),
  ("magicResistance", .all),
  ("moveSpeed", .all),
  ("baseAttackTime", .all),
  ("attackSpeed", .all),
  ("massLevel", .all),
  ("hpRecoveryPerSec", .all),
  ("lifePointReduce", .all),
  ("stunImmune", .all),
  ("silenceImmune", .all),
  ("sleepImmune", .all),
  ("frozenImmune", .all),
  ("levitateImmune", .all),
  ("disarmedCombatImmune", .all),
  ("fearedImmune", .all),
  ("palsyImmune", .all),
  ("attractImmune", .all)]

def enemyData : Projection := .fields [("attributes", combatAttributes), ("skills", .all)]

def levelRow : Projection := .fields [("level", .all), ("enemyData", enemyData)]

/-- A row of either format: the levels of the one, the enemies of the other. -/
def databaseRow : Projection := .fields [
  ("level", .all),
  ("enemyData", enemyData),
  ("Key", .all),
  ("Value", .elements levelRow)]

def databaseProjection : Projection := .values (.elements databaseRow)

/-! ## Levels -/

def levelNumber : Option Value → JsNumber
  | none => .finite 0
  | some .null => .finite 0
  | some (.number n) => n.asF64
  | some (.string s) => JsNumber.decimal s.toList
  | some (.bool b) => .finite (if b then 1 else 0)
  | some _ => .nan

def parseLevel (value : Option Value) : ℤ :=
  match levelNumber value with
  | .finite x => castI64 (trunc x)
  | _ => 0

/-- The data of an enemy by level. -/
abbrev LevelMap (α : Type) := List (ℤ × α)

abbrev Index (α : Type) := IndexedMap String (LevelMap α)

def notAnObject : String := "enemy_database.json 格式异常：根节点必须是对象。"

def noLevels : String := "enemy_database.json 格式异常：未找到敌人等级数据。"

/-! ## The whole table -/

def addLevel (levels : LevelMap Value) (value : Value) : LevelMap Value :=
  if !value.isObject then levels
  else
    match (value.get "enemyData").filter JsonValue.isObject with
    | some data => SortedMap.insert (parseLevel (value.get "level")) data levels
    | none => levels

def addRow (index : Index Value) (enemyId : String) (values : Option Value) : Index Value :=
  match values with
  | some (.array values) =>
    if values.foldl addLevel [] = [] then index else index.insert enemyId (values.foldl addLevel [])
  | _ => index

/-- A row of the legacy format; one without a key is passed over. -/
def addLegacy (index : Index Value) (row : Value) : Index Value :=
  match ((row.get "Key").bind JsonValue.asStr).filter (· ≠ "") with
  | some key => addRow index key (row.get "Value")
  | none => index

def normalizeEnemyDatabase : Value → Except String (Index Value)
  | .object root =>
    match root.lookup "enemies" with
    | some (.array rows) => .ok (rows.foldl addLegacy .empty)
    | _ =>
      let index := root.foldl (fun index row => addRow index row.1 (some row.2)) .empty
      if index.entries = [] then .error noLevels else .ok index
  | _ => .error notAnObject

/-! ## The frozen table -/

abbrev Frozen := FrozenValue JsNumber

def addFrozenLevel (levels : LevelMap Frozen) (value : Frozen) : LevelMap Frozen :=
  if (value.get "enemyData").any FrozenValue.isObject then
    SortedMap.insert (parseLevel ((value.get "level").map FrozenValue.toValue)) (value.take "enemyData") levels
  else levels

/-- `EnemyDatabase::add` -/
def add (db : Index Frozen) (id : String) : Frozen → Index Frozen
  | .array values =>
    if values.foldl addFrozenLevel [] = [] then db else db.insert id (values.foldl addFrozenLevel [])
  | _ => db

def addFrozenLegacy (db : Index Frozen) (row : Frozen) : Index Frozen :=
  match ((row.get "Key").bind FrozenValue.asStr).filter (· ≠ "") with
  | some key => add db key (row.take "Value")
  | none => db

/-- `EnemyDatabase::from_json` -/
def fromJson : Frozen → Except String (Index Frozen)
  | .object root =>
    match root.lookup "enemies" with
    | some (.array rows) => .ok (rows.foldl addFrozenLegacy .empty)
    | _ =>
      let db := root.foldl (fun db row => add db row.1 row.2) .empty
      if db.entries = [] then .error noLevels else .ok db
  | _ => .error notAnObject

/-- The data of a level, else of level 0. -/
def stageEntry {α : Type} (db : Index α) (id : String) (level : ℤ) : Option α :=
  (db.get id).bind fun levels => (levels.lookup level).or (levels.lookup 0)

/-! ## Reading -/

instance : Projected.Doubles JsNumber where
  isFinite
    | .finite _ => true
    | _ => false

/-- The database from the whole table. -/
def fullDatabase (parser : Parser JsNumber String) (text : String) : Except String (Index Value) := do
  normalizeEnemyDatabase (← fromStr parseValue parser text)

/-- The database of the cache. -/
def cachedDatabase (parser : Parser JsNumber String) (text : String) : Except String (Index Frozen) := do
  fromJson (← fromStr (freeze databaseProjection) parser text)

/-! ## Frozen values -/

section Related

variable {α β γ : Type} {r : α → β → Prop} {x : Option α} {y : Option β}

theorem map_eq_of_rel (h : Option.Rel r x y) {f : α → γ} {g : β → γ} (hfg : ∀ a b, r a b → f a = g b) :
    x.map f = y.map g := by
  cases h with
  | none => rfl
  | some hab => exact congrArg some (hfg _ _ hab)

theorem bind_eq_of_rel (h : Option.Rel r x y) {f : α → Option γ} {g : β → Option γ}
    (hfg : ∀ a b, r a b → f a = g b) : x.bind f = y.bind g := by
  cases h with
  | none => rfl
  | some hab => exact hfg _ _ hab

end Related

/-- The frozen tree is what the projection makes of the value. -/
structure Freezes (p : Projection) (v : Value) (w : Frozen) : Prop where
  unique : w.Unique
  toValue : w.toValue = p.prune v

namespace Freezes

variable {p : Projection} {v : Value} {w : Frozen}

theorem get (h : Freezes p v w) (hp : p.isDiscard = false) (key : String)
    (hfield : (p.field key).isDiscard = false) :
    Option.Rel (Freezes (p.field key)) (v.get key) (w.get key) := by
  have hget := FrozenValue.get_toValue h.unique key
  rw [h.toValue, Projection.get_prune hp hfield] at hget
  cases hv : v.get key with
  | none =>
    cases hw : w.get key with
    | none => exact .none
    | some b =>
      rw [hv, hw] at hget
      cases hget
  | some a =>
    cases hw : w.get key with
    | none =>
      rw [hv, hw] at hget
      cases hget
    | some b =>
      rw [hv, hw] at hget
      exact .some ⟨FrozenValue.unique_of_get h.unique hw, (Option.some.inj hget).symm⟩

theorem isObject (h : Freezes p v w) (hp : p.isDiscard = false) : w.isObject = v.isObject := by
  rw [← FrozenValue.isObject_toValue, h.toValue]
  exact Projection.prune_shape hp (fun _ _ => rfl) (fun _ _ => rfl) v

theorem asStr (h : Freezes p v w) (hp : p.isDiscard = false) : w.asStr = v.asStr := by
  rw [← FrozenValue.asStr_toValue, h.toValue]
  exact Projection.prune_shape hp (fun _ _ => rfl) (fun _ _ => rfl) v

theorem array {values : List Value} (h : Freezes p (.array values) w) (hp : p.isDiscard = false) :
    ∃ ws, w = .array ws ∧ List.Forall₂ (Freezes p.element) values ws := by
  have htoValue := h.toValue
  rw [Projection.prune_array hp] at htoValue
  cases w with
  | array ws =>
    refine ⟨ws, rfl, ?_⟩
    have hunique := FrozenValue.uniqueItems_iff.mp h.unique
    rw [FrozenValue.toValue, FrozenValue.toValues_eq_map, JsonValue.array.injEq] at htoValue
    rw [List.forall₂_iff_get]
    have hlength : ws.length = values.length := by simpa using congrArg List.length htoValue
    refine ⟨hlength.symm, fun i hi hi' => ⟨hunique _ (List.get_mem _ _), ?_⟩⟩
    have hget := List.getElem_of_eq htoValue (by simpa using hi')
    simpa using hget
  | null | bool | number | string =>
    rw [FrozenValue.toValue] at htoValue
    cases htoValue
  | object fields =>
    rw [FrozenValue.toValue] at htoValue
    cases htoValue

/-- The entries of an object all of whose fields are kept. -/
theorem object {child : Projection} (hchild : child.isDiscard = false) {fields : List (String × Value)}
    (h : Freezes (.values child) (.object fields) w) :
    ∃ ws, w = .object ws ∧ List.Forall₂ (fun a b => a.1 = b.1 ∧ Freezes child a.2 b.2) fields ws := by
  have htoValue := h.toValue
  rw [Projection.prune_object rfl] at htoValue
  have hfilter : OrderedMap.filterValues (Projection.values child).pruneField fields =
      mapValues child.prune fields := by
    have hfield : ∀ key, (Projection.values child).pruneField key = fun a : Value => some (child.prune a) := by
      intro key
      funext a
      rw [Projection.pruneField, Projection.field, hchild]
      rfl
    simp [OrderedMap.filterValues, mapValues, hfield]
  cases w with
  | object ws =>
    refine ⟨ws, rfl, ?_⟩
    have hunique := FrozenValue.uniqueFields_iff.mp h.unique.2
    rw [FrozenValue.toValue_object h.unique, hfilter, JsonValue.object.injEq] at htoValue
    rw [List.forall₂_iff_get]
    have hlength : ws.length = fields.length := by simpa [mapValues] using congrArg List.length htoValue
    refine ⟨hlength.symm, fun i hi hi' => ?_⟩
    have hget := List.getElem_of_eq htoValue (by simpa [mapValues] using hi')
    simp only [mapValues, List.getElem_map, Prod.mk.injEq] at hget
    exact ⟨hget.1.symm, hunique _ (List.get_mem _ _), hget.2⟩
  | null | bool | number | string =>
    rw [FrozenValue.toValue] at htoValue
    cases htoValue
  | array items =>
    rw [FrozenValue.toValue] at htoValue
    cases htoValue

theorem isArray (h : Freezes p v w) (hp : p.isDiscard = false) : w.isArray = v.isArray := by
  rw [← FrozenValue.isArray_toValue, h.toValue]
  exact Projection.prune_shape hp (fun _ _ => rfl) (fun _ _ => rfl) v

end Freezes

/-! ## Both databases -/

/-- The data of a level and the frozen data. -/
structure FreezesData (v : Value) (w : Frozen) : Prop extends Freezes enemyData v w where
  isRecord : v.isObject = true

/-- The same levels, with frozen data. -/
def SameLevels (levels : LevelMap Value) (frozen : LevelMap Frozen) : Prop :=
  List.Forall₂ (fun a b => a.1 = b.1 ∧ FreezesData a.2 b.2) levels frozen

/-- The same enemies with the same levels. -/
def SameEnemies (full : Index Value) (cached : Index Frozen) : Prop :=
  ∀ id, Option.Rel SameLevels (full.get id) (cached.get id)

theorem SameLevels.insert {levels : LevelMap Value} {frozen : LevelMap Frozen} (h : SameLevels levels frozen)
    (level : ℤ) {data : Value} {data' : Frozen} (hdata : FreezesData data data') :
    SameLevels (SortedMap.insert level data levels) (SortedMap.insert level data' frozen) := by
  induction h with
  | nil => exact .cons ⟨rfl, hdata⟩ .nil
  | @cons a b _ _ hab hrest ih =>
    rw [SortedMap.insert, SortedMap.insert, ← hab.1]
    split_ifs
    · exact .cons ⟨rfl, hdata⟩ (.cons hab hrest)
    · exact .cons ⟨rfl, hdata⟩ hrest
    · exact .cons hab ih

theorem SameLevels.lookup {levels : LevelMap Value} {frozen : LevelMap Frozen} (h : SameLevels levels frozen)
    (level : ℤ) : Option.Rel FreezesData (levels.lookup level) (frozen.lookup level) := by
  induction h with
  | nil => exact .none
  | cons hab hrest ih =>
    rw [List.lookup_cons, List.lookup_cons, ← hab.1]
    split
    · exact .some hab.2
    · exact ih

/-- A row of levels, in either format. -/
structure IsLevelRow (p : Projection) : Prop where
  kept : p.isDiscard = false
  level : p.field "level" = .all
  data : p.field "enemyData" = enemyData

theorem isLevelRow_levelRow : IsLevelRow levelRow := ⟨rfl, rfl, rfl⟩

theorem isLevelRow_databaseRow : IsLevelRow databaseRow := ⟨rfl, rfl, rfl⟩

/-- A level is read alike; what is no object has no data. -/
theorem SameLevels.add {p : Projection} (hp : IsLevelRow p) {levels : LevelMap Value}
    {frozen : LevelMap Frozen} (h : SameLevels levels frozen) {v : Value} {w : Frozen} (hv : Freezes p v w) :
    SameLevels (addLevel levels v) (addFrozenLevel frozen w) := by
  have hdata := hv.get hp.kept "enemyData" (by rw [hp.data]; rfl)
  have hlevel := hv.get hp.kept "level" (by rw [hp.level]; rfl)
  rw [hp.data] at hdata
  rw [hp.level] at hlevel
  have hnumber : v.get "level" = (w.get "level").map FrozenValue.toValue := by
    rw [← map_eq_of_rel hlevel fun a b hab => (Projection.prune_all a).symm.trans hab.toValue.symm]
    exact Option.map_id.symm ▸ rfl
  rw [addLevel, addFrozenLevel, ← hnumber, FrozenValue.take]
  generalize w.get "enemyData" = y at hdata ⊢
  cases hobject : v.isObject with
  | false =>
    have hnone : v.get "enemyData" = none := by
      cases v with
      | object fields => cases hobject
      | null | bool | number | string | array => rfl
    rw [hnone] at hdata
    cases hdata
    exact h
  | true =>
    simp only [Bool.not_true, Bool.false_eq_true, if_false]
    generalize v.get "enemyData" = x at hdata ⊢
    cases hdata with
    | none => exact h
    | @some a b hab =>
      have hshape := hab.isObject rfl
      simp only [Option.any_some, hshape, Option.getD_some, Option.filter_some]
      cases hrecord : a.isObject with
      | false => exact h
      | true => exact h.insert _ ⟨hab, hrecord⟩

theorem SameLevels.foldl {p : Projection} (hp : IsLevelRow p) {values : List Value} {ws : List Frozen}
    (h : List.Forall₂ (Freezes p) values ws) :
    SameLevels (values.foldl addLevel []) (ws.foldl addFrozenLevel []) := by
  have hstep : ∀ ⦃levels frozen⦄, SameLevels levels frozen → ∀ ⦃v w⦄, Freezes p v w →
      SameLevels (addLevel levels v) (addFrozenLevel frozen w) := fun _ _ hlevels _ _ hv => hlevels.add hp hv
  exact List.rel_foldl hstep .nil h

theorem SameEnemies.insert {full : Index Value} {cached : Index Frozen} (h : SameEnemies full cached)
    (key : String) {levels : LevelMap Value} {frozen : LevelMap Frozen} (hlevels : SameLevels levels frozen) :
    SameEnemies (full.insert key levels) (cached.insert key frozen) := by
  intro id
  by_cases hid : id = key
  · rw [hid, IndexedMap.get_insert_self, IndexedMap.get_insert_self]
    exact .some hlevels
  · rw [IndexedMap.get_insert_of_ne _ _ hid, IndexedMap.get_insert_of_ne _ _ hid]
    exact h id

/-- The levels of an enemy are read alike; only an array has any. -/
theorem SameEnemies.add {p : Projection} (hp : IsLevelRow p) {full : Index Value} {cached : Index Frozen}
    (h : SameEnemies full cached) (id : String) {v : Value} {w : Frozen} (hv : Freezes (.elements p) v w) :
    SameEnemies (addRow full id (some v)) (add cached id w) := by
  have hshape := hv.isArray rfl
  cases v with
  | array values =>
    obtain ⟨ws, rfl, hws⟩ := hv.array rfl
    have hlevels := SameLevels.foldl hp hws
    rw [addRow, EnemyDatabase.add]
    by_cases hnil : values.foldl addLevel [] = []
    · rw [hnil] at hlevels
      rw [if_pos hnil, if_pos (List.forall₂_nil_left_iff.mp hlevels)]
      exact h
    · have hnil' : ¬ ws.foldl addFrozenLevel [] = [] := by
        intro heq
        rw [heq] at hlevels
        exact hnil (List.forall₂_nil_right_iff.mp hlevels)
      rw [if_neg hnil, if_neg hnil']
      exact h.insert id hlevels
  | null | bool | number | string | object =>
    cases w with
    | array ws => cases hshape
    | null | bool | number | string | object => exact h

theorem SameEnemies.addLegacy {full : Index Value} {cached : Index Frozen} (h : SameEnemies full cached)
    {v : Value} {w : Frozen} (hv : Freezes databaseRow v w) :
    SameEnemies (addLegacy full v) (addFrozenLegacy cached w) := by
  have hkey := hv.get rfl "Key" rfl
  have hvalue := hv.get rfl "Value" rfl
  have hid := bind_eq_of_rel hkey fun a b hab => (hab.asStr rfl).symm
  rw [EnemyDatabase.addLegacy, addFrozenLegacy, hid, FrozenValue.take]
  generalize v.get "Value" = x, w.get "Value" = y at hvalue ⊢
  cases ((w.get "Key").bind FrozenValue.asStr).filter (· ≠ "") with
  | none => exact h
  | some key =>
    cases hvalue with
    | none => exact h
    | some hab => exact SameEnemies.add isLevelRow_levelRow h key hab

theorem entries_eq_nil_iff {α : Type} {m : Index α} : m.entries = [] ↔ ∀ id, m.get id = none := by
  constructor
  · intro h id
    rw [IndexedMap.get_eq_lookup, h]
    rfl
  · intro h
    cases hentries : m.entries with
    | nil => rfl
    | cons entry rest =>
      have hget := h entry.1
      rw [IndexedMap.get_eq_lookup, hentries, List.lookup_cons_self] at hget
      cases hget

theorem SameEnemies.entries_eq_nil_iff {full : Index Value} {cached : Index Frozen}
    (h : SameEnemies full cached) : full.entries = [] ↔ cached.entries = [] := by
  rw [EnemyDatabase.entries_eq_nil_iff, EnemyDatabase.entries_eq_nil_iff]
  refine forall_congr' fun id => ?_
  have hid := h id
  generalize full.get id = x, cached.get id = y at hid ⊢
  cases hid <;> simp

/-- Two databases, or one message. -/
def SameDatabase (full : Except String (Index Value)) (cached : Except String (Index Frozen)) : Prop :=
  (∃ message, full = .error message ∧ cached = .error message) ∨
    ∃ a b, full = .ok a ∧ cached = .ok b ∧ SameEnemies a b

/-- A direct database without any levels is refused. -/
theorem sameDatabase_of_direct {full : Index Value} {cached : Index Frozen} (h : SameEnemies full cached) :
    SameDatabase (if full.entries = [] then .error noLevels else .ok full)
      (if cached.entries = [] then .error noLevels else .ok cached) := by
  by_cases hnil : full.entries = []
  · rw [if_pos hnil, if_pos (h.entries_eq_nil_iff.mp hnil)]
    exact .inl ⟨noLevels, rfl, rfl⟩
  · rw [if_neg hnil, if_neg (mt h.entries_eq_nil_iff.mpr hnil)]
    exact .inr ⟨full, cached, rfl, rfl, h⟩

theorem sameDatabase_of_freezes {raw : Value} {frozen : Frozen} (h : Freezes databaseProjection raw frozen) :
    SameDatabase (normalizeEnemyDatabase raw) (fromJson frozen) := by
  have hempty : SameEnemies .empty .empty := fun _ => .none
  have hshape := h.isObject rfl
  cases raw with
  | object root =>
    obtain ⟨ws, rfl, hws⟩ := h.object rfl
    have henemies := h.get rfl "enemies" rfl
    have hdirect : SameEnemies (root.foldl (fun index row => addRow index row.1 (some row.2)) .empty)
        (ws.foldl (fun db row => add db row.1 row.2) .empty) := by
      refine List.rel_foldl (P := SameEnemies) (fun a b hab row row' hrow => ?_) hempty hws
      rw [← hrow.1]
      exact SameEnemies.add isLevelRow_databaseRow hab row.1 hrow.2
    have hchecked := sameDatabase_of_direct hdirect
    change Option.Rel _ (root.lookup "enemies") (ws.lookup "enemies") at henemies
    rw [normalizeEnemyDatabase, fromJson]
    generalize root.lookup "enemies" = x, ws.lookup "enemies" = y at henemies ⊢
    cases henemies with
    | none => exact hchecked
    | @some a b hab =>
      have hrows := hab.isArray rfl
      cases a with
      | array rows =>
        obtain ⟨frozenRows, rfl, hfrozenRows⟩ := hab.array rfl
        have hlegacy := List.rel_foldl (P := SameEnemies) (R := Freezes databaseRow)
          (fun a b hab row row' hrow => hab.addLegacy hrow) hempty hfrozenRows
        exact .inr ⟨_, _, rfl, rfl, hlegacy⟩
      | null | bool | number | string | object =>
        cases b with
        | array frozenRows => cases hrows
        | null | bool | number | string | object => exact hchecked
  | null | bool | number | string | array =>
    cases frozen with
    | object ws => cases hshape
    | null | bool | number | string | array => exact .inl ⟨_, rfl, rfl⟩

/-- The cache holds the levels of the whole table, and fails where that is refused. -/
theorem sameDatabase (parser : Parser JsNumber String) (text : String) :
    SameDatabase (fullDatabase parser text) (cachedDatabase parser text) := by
  obtain ⟨hfrozen, hread⟩ := Projected.fromStr_agree parser text databaseProjection
  rw [hread] at hfrozen
  rw [fullDatabase, cachedDatabase]
  cases hraw : fromStr parseValue parser text with
  | error e =>
    cases hcached : fromStr (freeze databaseProjection) parser text with
    | error e' =>
      rw [hraw, hcached] at hfrozen
      cases hfrozen
      exact .inl ⟨e, rfl, rfl⟩
    | ok frozen =>
      rw [hraw, hcached] at hfrozen
      cases hfrozen
  | ok raw =>
    cases hcached : fromStr (freeze databaseProjection) parser text with
    | error e' =>
      rw [hraw, hcached] at hfrozen
      cases hfrozen
    | ok frozen =>
      rw [hraw, hcached] at hfrozen
      exact sameDatabase_of_freezes ⟨Projected.unique_fromStr hcached, Except.ok.inj hfrozen⟩

/-- The data of a level is the same but for what is projected away. -/
theorem SameEnemies.stageEntry {full : Index Value} {cached : Index Frozen} (h : SameEnemies full cached)
    (id : String) (level : ℤ) :
    Option.Rel FreezesData (stageEntry full id level) (stageEntry cached id level) := by
  have hid := h id
  rw [EnemyDatabase.stageEntry, EnemyDatabase.stageEntry]
  generalize full.get id = x, cached.get id = y at hid ⊢
  cases hid with
  | none => exact .none
  | @some levels frozen hlevels =>
    have hlevel := hlevels.lookup level
    simp only [Option.bind_some]
    generalize levels.lookup level = a, frozen.lookup level = b at hlevel ⊢
    cases hlevel with
    | none => exact hlevels.lookup 0
    | some hab => exact .some hab

end PrtsMcp.EnemyDatabase
