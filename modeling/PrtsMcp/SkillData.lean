import PrtsMcp.FrozenReads
import PrtsMcp.SkillText

/-!
# The skill table

The levels of every skill, read off the text of the table without a tree of the whole of it.
-/
namespace PrtsMcp.SkillData

open OrderedMap (insert mapValues mapValues_insert lookup_insert_self lookup_insert_of_ne)
open Projected hiding Doubles
open SkillText (BlackboardValue)

variable {φ ε : Type}

/-! ## Levels -/

/-- Numeric fields keep whatever JSON stands there. -/
structure SkillLevel (φ : Type) where
  level : ℕ
  name : String
  skillType : String
  durationType : String
  spType : String
  spCost : JsonValue φ
  initSp : JsonValue φ
  maxChargeTime : JsonValue φ
  duration : JsonValue φ
  description : String
  blackboard : List (String × BlackboardValue φ)

/-- What is taken out of a value. No key is taken twice. -/
def take (raw : JsonValue φ) (key : String) : JsonValue φ := (raw.get key).getD .null

def text (raw : JsonValue φ) (key : String) : String := (take raw key).asStr.getD ""

section Levels

variable (asF64 : JsonNumber φ → φ)

/-- A `valueStr` that is present goes first even if it is no string. -/
def blackboardValue (entry : JsonValue φ) : BlackboardValue φ :=
  match take entry "valueStr" with
  | .string s => .text s.toList
  | .null =>
    match entry.get "value" with
    | some (.number n) => .number (asF64 n)
    | _ => .invalid
  | _ => .invalid

def addValue (values : List (String × BlackboardValue φ)) (entry : JsonValue φ) :
    List (String × BlackboardValue φ) :=
  match take entry "key" with
  | .string key => insert key (blackboardValue asF64 entry) values
  | _ => values

def blackboard (raw : JsonValue φ) : List (String × BlackboardValue φ) :=
  (raw.asArray.getD []).foldl (addValue asF64) []

/-- `SkillLevel::from_json`. -/
def fromJson (index : ℕ) (raw : JsonValue φ) : Option (SkillLevel φ) :=
  if raw.isObject then
    let sp := take raw "spData"
    some {
      level := index + 1
      name := text raw "name"
      skillType := text raw "skillType"
      durationType := text raw "durationType"
      spType := text sp "spType"
      spCost := take sp "spCost"
      initSp := take sp "initSp"
      maxChargeTime := take sp "maxChargeTime"
      duration := take raw "duration"
      description := text raw "description"
      blackboard := blackboard asF64 (take raw "blackboard")
    }
  else none

/-! ## The visitor -/

/-- The levels of each skill, unless the table is no object. -/
structure SkillTable (φ : Type) where
  entries : Option (List (String × List (SkillLevel φ)))

def SkillTable.get (table : SkillTable φ) (id : String) : Option (List (SkillLevel φ)) :=
  table.entries.bind fun entries => entries.lookup id

inductive Shape where
  | table
  | entry
  | levels
  deriving DecidableEq

inductive Parsed (φ : Type) where
  | table (table : SkillTable φ)
  | levels (levels : List (SkillLevel φ))

def Shape.empty : Shape → Parsed φ
  | table => .table ⟨none⟩
  | _ => .levels []

/-- The levels of what is read at an inner shape; there a table is never read. -/
def Parsed.asLevels : Parsed φ → List (SkillLevel φ)
  | .table _ => []
  | .levels found => found

variable [Projected.Doubles φ]

def visitLevels (index : ℕ) (levels : List (SkillLevel φ)) : Items φ ε → Except ε (List (SkillLevel φ))
  | .close => .ok levels
  | .stop e => .error e
  | .next item rest => do
    let raw ← parseValue item
    visitLevels (index + 1) (levels ++ (fromJson asF64 index raw).toList) rest

mutual

/-- The visitor of a shape. What it has no use for is parsed and discarded. -/
def visit (shape : Shape) : Document φ ε → Except ε (Parsed φ)
  | .seq items =>
    if shape = .levels then (visitLevels asF64 0 [] items).map .levels
    else (Projection.discard.read (.seq items)).map fun _ => shape.empty
  | .map entries =>
    match shape with
    | .table => (visitTable [] entries).map fun entries => .table ⟨some entries⟩
    | .entry => (visitEntry [] entries).map .levels
    | .levels => (Projection.discard.read (.map entries)).map fun _ => shape.empty
  | .fail e => .error e
  | .unit | .bool _ | .i64 _ | .u64 _ | .f64 _ | .str _ => .ok shape.empty

def visitTable (map : List (String × List (SkillLevel φ))) :
    Entries φ ε → Except ε (List (String × List (SkillLevel φ)))
  | .close => .ok map
  | .stop e => .error e
  | .next key value rest => do
    let parsed ← visit .entry value
    visitTable (insert key parsed.asLevels map) rest

def visitEntry (levels : List (SkillLevel φ)) : Entries φ ε → Except ε (List (SkillLevel φ))
  | .close => .ok levels
  | .stop e => .error e
  | .next key value rest =>
    if key = "levels" then do
      let parsed ← visit .levels value
      visitEntry parsed.asLevels rest
    else do
      let _ ← Projection.discard.read value
      visitEntry levels rest

end

/-- `SkillTable::deserialize`. -/
def deserialize (doc : Document φ ε) : Except ε (SkillTable φ) :=
  (visit asF64 .table doc).map fun
    | .table table => table
    | .levels _ => ⟨none⟩

/-! ## Extraction from the whole tree -/

/-- The levels of an array, numbered by their places in it. -/
def levelsIn (raw : JsonValue φ) : List (SkillLevel φ) :=
  (raw.asArray.getD []).zipIdx.filterMap fun entry => fromJson asF64 entry.2 entry.1

def levelsOf (entry : JsonValue φ) : List (SkillLevel φ) := ((entry.get "levels").map (levelsIn asF64)).getD []

/-- The fields of the table, extracted from its tree. -/
def extract (raw : JsonValue φ) : SkillTable φ := ⟨raw.asObject.map (mapValues (levelsOf asF64))⟩

/-- What a shape makes of a value. -/
def Shape.extract : Shape → JsonValue φ → Parsed φ
  | table, raw => .table (SkillData.extract asF64 raw)
  | entry, raw => .levels (levelsOf asF64 raw)
  | levels, raw => .levels (levelsIn asF64 raw)

theorem visitLevels_eq (index : ℕ) (levels : List (SkillLevel φ)) (items : Items φ ε) :
    visitLevels asF64 index levels items = (parseItems items).map fun values =>
      levels ++ (values.zipIdx index).filterMap fun entry => fromJson asF64 entry.2 entry.1 := by
  cases items with
  | close =>
    rw [visitLevels, parseItems]
    simp [Except.map]
  | stop e => rfl
  | next item rest =>
    rw [visitLevels, parseItems]
    cases parseValue item with
    | error e => rfl
    | ok raw =>
      have hrest := visitLevels_eq (index + 1) (levels ++ (fromJson asF64 index raw).toList) rest
      change visitLevels asF64 (index + 1) (levels ++ (fromJson asF64 index raw).toList) rest = _
      rw [hrest]
      change _ = Except.map _ ((parseItems rest).map (raw :: ·))
      cases parseItems rest with
      | error e => rfl
      | ok values =>
        simp only [Except.map, List.zipIdx_cons, List.filterMap_cons]
        cases fromJson asF64 index raw <;> simp

/-- What is discarded fails as it would if it were kept. -/
theorem map_discard {α : Type} (a : α) (doc : Document φ ε) :
    ((Projection.discard.read doc).map fun _ => a) = (parseValue doc).map fun _ => a := by
  rw [read_eq]
  cases parseValue doc <;> rfl

theorem bind_discard {α : Type} (x : Except ε α) (doc : Document φ ε) :
    (Projection.discard.read doc >>= fun _ => x) = (parseValue doc >>= fun _ => x) := by
  rw [read_eq]
  cases parseValue doc <;> rfl

mutual

/-- At every shape the visitor gives what is extracted from the tree. -/
theorem visit_eq (shape : Shape) : (doc : Document φ ε) →
    visit asF64 shape doc = (parseValue doc).map (shape.extract asF64)
  | .unit => by cases shape <;> rfl
  | .bool b => by cases shape <;> rfl
  | .i64 n => by cases shape <;> rfl
  | .u64 n => by cases shape <;> rfl
  | .f64 x => by
    change Except.ok shape.empty = Except.ok (shape.extract asF64 (floatValue x))
    unfold floatValue
    cases shape <;> split <;> rfl
  | .str s => by cases shape <;> rfl
  | .seq items => by
    rw [visit]
    cases shape with
    | levels =>
      rw [if_pos rfl, visitLevels_eq, parseValue]
      cases parseItems items <;> rfl
    | table =>
      rw [if_neg (by decide), map_discard, parseValue]
      cases parseItems items <;> rfl
    | entry =>
      rw [if_neg (by decide), map_discard, parseValue]
      cases parseItems items <;> rfl
  | .map entries => by
    cases shape with
    | table =>
      have htable := visitTable_eq [] entries
      change visitTable asF64 [] entries = _ at htable
      rw [visit, parseValue, htable]
      cases parseEntries [] entries <;> rfl
    | entry =>
      have hentry := visitEntry_eq [] entries
      change visitEntry asF64 [] entries = _ at hentry
      rw [visit, parseValue, hentry]
      cases parseEntries [] entries <;> rfl
    | levels =>
      rw [visit, map_discard, parseValue]
      cases parseEntries [] entries <;> rfl
  | .fail e => rfl

theorem visitTable_eq (map : List (String × JsonValue φ)) : (entries : Entries φ ε) →
    visitTable asF64 (mapValues (levelsOf asF64) map) entries =
      (parseEntries map entries).map (mapValues (levelsOf asF64))
  | .close => rfl
  | .stop e => rfl
  | .next key value rest => by
    rw [visitTable, parseEntries, visit_eq .entry value]
    cases parseValue value with
    | error e => rfl
    | ok v =>
      have hrest := visitTable_eq (insert key v map) rest
      rw [mapValues_insert] at hrest
      exact hrest

/-- The last `levels` count, whatever they are. -/
theorem visitEntry_eq (map : List (String × JsonValue φ)) : (entries : Entries φ ε) →
    visitEntry asF64 (levelsOf asF64 (.object map)) entries =
      (parseEntries map entries).map fun map => levelsOf asF64 (.object map)
  | .close => rfl
  | .stop e => rfl
  | .next key value rest => by
    rw [visitEntry, parseEntries]
    split
    · next hkey =>
      subst hkey
      rw [visit_eq .levels value]
      cases parseValue value with
      | error e => rfl
      | ok v =>
        have hrest := visitEntry_eq (insert "levels" v map) rest
        have hlevels : levelsOf asF64 (.object (insert "levels" v map)) = levelsIn asF64 v := by
          rw [levelsOf, JsonValue.get, lookup_insert_self]
          rfl
        rw [hlevels] at hrest
        exact hrest
    · next hkey =>
      rw [bind_discard]
      cases parseValue value with
      | error e => rfl
      | ok v =>
        have hrest := visitEntry_eq (insert key v map) rest
        have hlevels : levelsOf asF64 (.object (insert key v map)) = levelsOf asF64 (.object map) := by
          rw [levelsOf, JsonValue.get, lookup_insert_of_ne (fun h => hkey h.symm)]
          rfl
        rw [hlevels] at hrest
        exact hrest

end

theorem deserialize_eq (doc : Document φ ε) :
    deserialize asF64 doc = (parseValue doc).map (extract asF64) := by
  rw [deserialize, visit_eq]
  cases parseValue doc <;> rfl

omit [Projected.Doubles φ] in
theorem get_extract (raw : JsonValue φ) (id : String) :
    (extract asF64 raw).get id = (raw.get id).map (levelsOf asF64) := by
  cases raw with
  | object fields => exact OrderedMap.lookup_mapValues (levelsOf asF64) fields id
  | null | bool | number | string | array => rfl

/-- Read directly, a text gives a table exactly if it is JSON, and then that of its tree: the same
skills, each with the levels of the last array under `levels`. -/
theorem deserialize_agree (parser : Parser φ ε) (source : String) :
    fromStr (deserialize asF64) parser source = (fromStr parseValue parser source).map (extract asF64) ∧
      ∀ raw id, (extract asF64 raw).get id = (raw.get id).map (levelsOf asF64) := by
  refine ⟨?_, get_extract asF64⟩
  rw [fromStr, deserialize_eq, fromStr]
  cases parseValue (parser source).1 with
  | error e => rfl
  | ok raw => cases (parser source).2 <;> rfl

end Levels

end PrtsMcp.SkillData
