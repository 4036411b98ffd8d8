import PrtsMcp.EnemyDatabase

/-!
# Stats of enemies in a stage

The line of stats for an enemy of a stage with what the stage overwrites, once merged into the whole
record and once resolved field by field over the cached one, and that both give the same line.
-/
namespace PrtsMcp.StageStats

open EnemyDatabase
open StoryListing (asF64)
open Zodish (Value)

/-! ## Numbers as texts -/

/-- `js_number_to_string`, and JSON as `serde_json` writes it. -/
structure Texts where
  jsNumberToString : JsNumber → String
  toJson : Value → String

variable (texts : Texts)

def isJsInteger : JsNumber → Bool
  | .finite x => x.den = 1
  | _ => false

def jsonValueToString : Value → String
  | .string s => s
  | .bool b => toString b
  | .null => "null"
  | .number n => texts.jsNumberToString n.asF64
  | other => texts.toJson other

def pythonFloatString (value : Value) : String :=
  match asF64 value with
  | some n =>
    if isJsInteger n then texts.jsNumberToString n ++ ".0" else texts.jsNumberToString n
  | none =>
    match value with
    | .null => "0"
    | other => jsonValueToString texts other

/-- A comma between two digits, the second of which begins a run of digits of a length that three
divides. -/
def applyThousands : Option Char → List Char → List Char
  | _, [] => []
  | before, c :: rest =>
    let run := ((c :: rest).takeWhile Char.isDigit).length
    if before.any Char.isDigit && c.isDigit && 3 ≤ run && run % 3 = 0 &&
        (c :: rest)[run]?.all fun b => !b.isDigit then
      ',' :: c :: applyThousands (some c) rest
    else c :: applyThousands (some c) rest

def withThousands (n : JsNumber) : String :=
  String.ofList (applyThousands none (texts.jsNumberToString n).toList)

def formatNumber (value : Value) : String :=
  match asF64 value with
  | some n => if isJsInteger n then withThousands texts n else texts.jsNumberToString n
  | none =>
    match value with
    | .null => "0"
    | other => jsonValueToString texts other

def formatStatValues (hp atk defense res speed atkTime : Option Value) : String :=
  let asStr (value : Option Value) := formatNumber texts (value.getD .null)
  let isSet (value : Value) := (asF64 value).any (· ≠ .finite 0)
  let parts := ["HP " ++ asStr hp, "ATK " ++ asStr atk, "DEF " ++ asStr defense, "RES " ++ asStr res] ++
    ((speed.filter isSet).map fun speed => "移速 " ++ pythonFloatString texts speed).toList ++
    ((atkTime.filter isSet).map fun time => "攻击间隔 " ++ pythonFloatString texts time ++ "s").toList
  "；".intercalate parts

/-! ## The eager merge -/

def isTrue : Value → Bool
  | .bool b => b
  | _ => false

/-- `{m_defined: false}` -/
def isUndefined (value : Value) : Bool :=
  match value.get "m_defined" with
  | some (.bool false) => true
  | _ => false

mutual

def mergeDefined (base : Value) : Value → Value
  | .object fields =>
    match fields.lookup "m_defined", fields.lookup "m_value" with
    | some defined, some value => if isTrue defined then value else base
    | _, _ => .object (mergeFields (base.asObject.getD []) fields)
  | _ => base

/-- The fields of an override one after the other. -/
def mergeFields (merged : List (String × Value)) : List (String × Value) → List (String × Value)
  | [] => merged
  | (key, value) :: rest =>
    if isUndefined value then mergeFields merged rest
    else mergeFields (OrderedMap.insert key (mergeDefined ((merged.lookup key).getD .null) value) merged) rest

end

/-- A replacement that is no object is not taken. -/
def mergeSelectedEnemyData (base overwritten : Option Value) : Option Value :=
  match base with
  | none => overwritten.filter JsonValue.isObject
  | some base =>
    let merged := mergeDefined base (overwritten.getD .null)
    if merged.isObject then some merged else some base

def stageSpecificEnemyData (levels : Option (Index Value)) (enemyId : String) (level : ℤ)
    (overwritten : Option Value) : Option Value :=
  let base := (levels.bind fun levels => stageEntry levels enemyId level).filter JsonValue.isObject
  mergeSelectedEnemyData base overwritten

/-- What a wrapper holds; anything else is the value itself. -/
def mValue (obj : Option Value) : Option Value := obj.map fun obj => (obj.get "m_value").getD obj

def noRecord : String := "无数据库记录"

/-- The line for the values of the attributes. -/
def formatAttributes (value : String → Option Value) : String :=
  formatStatValues texts (value "maxHp") (value "atk") (value "def") (value "magicResistance")
    (value "moveSpeed") (value "baseAttackTime")

def attr (data : Value) (key : String) : Option Value :=
  (data.get "attributes").bind (JsonValue.get key)

def formatStats (enemyData : Option Value) : String :=
  match enemyData with
  | none => noRecord
  | some data => formatAttributes texts fun key => mValue (attr data key)

/-! ## The deferred merge -/

/-- A subtree as it is, or one that is still to be merged. -/
inductive Merged where
  | plain (v : View JsNumber)
  | object (base : View JsNumber) (overwritten : Value)

namespace Merged

def merge (base : View JsNumber) (overwritten : Value) : Merged :=
  match overwritten.asObject with
  | none => plain base
  | some map =>
    match map.lookup "m_defined", map.lookup "m_value" with
    | some defined, some value => plain (if isTrue defined then .value value else base)
    | _, _ => object base overwritten

def isObject : Merged → Bool
  | plain v => v.isObject
  | object _ _ => true

def get (key : String) : Merged → Option Merged
  | plain v => (v.get key).map plain
  | object base overwritten =>
    let original := base.get key
    match overwritten.get key with
    | some v =>
      if isUndefined v then original.map plain
      else some (merge (original.getD (.value .null)) v)
    | none => original.map plain

def toValue : Merged → Value
  | plain v => v.toValue
  | object base overwritten => mergeDefined base.toValue overwritten

/-- The value of an attribute, unwrapped before it is merged. -/
def statValue (data : Merged) (key : String) : Option Value :=
  ((data.get "attributes").bind (get key)).map fun v => ((v.get "m_value").getD v).toValue

end Merged

def formatCachedStageStats (levels : Option (Index Frozen)) (enemyId : String) (level : ℤ)
    (overwritten : Option Value) : String :=
  let base := (levels.bind fun db => stageEntry db enemyId level).map View.frozen
  let data : Option Merged :=
    match base with
    | some base =>
      let merged := Merged.merge base (overwritten.getD .null)
      some (if merged.isObject then merged else .plain base)
    | none => (overwritten.filter JsonValue.isObject).map fun v => .plain (.value v)
  match data with
  | none => noRecord
  | some data => formatAttributes texts data.statValue

/-! ## Fields of a merge -/

/-- The override of a field, and the rest of the record as it was. -/
theorem lookup_mergeFields {fields : List (String × Value)} (hnodup : (fields.map Prod.fst).Nodup)
    (merged : List (String × Value)) (key : String) :
    (mergeFields merged fields).lookup key =
      match (fields.lookup key).filter fun v => !isUndefined v with
      | some v => some (mergeDefined ((merged.lookup key).getD .null) v)
      | none => merged.lookup key := by
  induction fields generalizing merged with
  | nil => rfl
  | cons field rest ih =>
    obtain ⟨name, value⟩ := field
    obtain ⟨hnot, hrest⟩ := List.nodup_cons.mp hnodup
    rw [mergeFields, List.lookup_cons]
    by_cases hkey : key = name
    · subst hkey
      have hnone : rest.lookup key = none := by
        rw [List.lookup_eq_none_iff]
        intro entry hentry
        exact bne_iff_ne.mpr fun heq => hnot (List.mem_map.mpr ⟨entry, hentry, heq.symm⟩)
      rw [beq_self_eq_true]
      simp only [Option.filter_some]
      by_cases hundefined : isUndefined value
      · rw [if_pos hundefined, ih hrest, hnone, hundefined]
        rfl
      · rw [if_neg hundefined, ih hrest, hnone, OrderedMap.lookup_insert_self]
        simp [hundefined]
    · have hne : (key == name) = false := beq_false_of_ne hkey
      rw [hne]
      by_cases hundefined : isUndefined value
      · rw [if_pos hundefined, ih hrest]
      · rw [if_neg hundefined, ih hrest, OrderedMap.lookup_insert_of_ne hkey]

/-- An override that is no wrapper. -/
def IsRecord (fields : List (String × Value)) : Prop :=
  fields.lookup "m_defined" = none ∨ fields.lookup "m_value" = none

theorem mergeDefined_record {fields : List (String × Value)} (h : IsRecord fields) (base : Value) :
    mergeDefined base (.object fields) = .object (mergeFields (base.asObject.getD []) fields) := by
  rw [mergeDefined]
  rcases h with h | h
  · rw [h]
  · rw [h]
    cases fields.lookup "m_defined" <;> rfl

theorem lookup_asObject (base : Value) (key : String) : (base.asObject.getD []).lookup key = base.get key := by
  cases base <;> rfl

/-- A field of a merged record. -/
theorem get_mergeDefined {fields : List (String × Value)} (hrecord : IsRecord fields)
    (hnodup : (fields.map Prod.fst).Nodup) (base : Value) (key : String) :
    (mergeDefined base (.object fields)).get key =
      match (fields.lookup key).filter fun v => !isUndefined v with
      | some v => some (mergeDefined ((base.get key).getD .null) v)
      | none => base.get key := by
  rw [mergeDefined_record hrecord, ← lookup_asObject base]
  exact lookup_mergeFields hnodup _ key

theorem mergeDefined_of_not_object {overwritten : Value} (h : overwritten.isObject = false) (base : Value) :
    mergeDefined base overwritten = base := by
  cases overwritten with
  | object fields => cases h
  | null | bool | number | string | array => simp [mergeDefined]

/-- What a wrapper makes of a value. -/
theorem mergeDefined_wrapper {fields : List (String × Value)} {defined value : Value}
    (hdefined : fields.lookup "m_defined" = some defined) (hvalue : fields.lookup "m_value" = some value)
    (base : Value) :
    mergeDefined base (.object fields) = if isTrue defined then value else base := by
  rw [mergeDefined, hdefined, hvalue]

/-! ## The deferred merge is the eager one -/

namespace Merged

/-- No object of the view or of the override has a key twice, and the override is no wrapper. -/
def Sound : Merged → Prop
  | plain v => v.Unique
  | object base overwritten => base.Unique ∧ overwritten.Unique ∧
      ∃ fields, overwritten = .object fields ∧ IsRecord fields

/-- An override is no object, a wrapper or a record. -/
theorem merge_spec {base : View JsNumber} (hbase : base.Unique) {overwritten : Value}
    (hoverwritten : overwritten.Unique) :
    (merge base overwritten).Sound ∧
      (merge base overwritten).toValue = mergeDefined base.toValue overwritten := by
  cases overwritten with
  | object fields =>
    cases hdefined : fields.lookup "m_defined" with
    | none =>
      have hmerge : merge base (.object fields) = object base (.object fields) := by
        simp only [merge, JsonValue.asObject, hdefined]
      rw [hmerge]
      exact ⟨⟨hbase, hoverwritten, fields, rfl, .inl hdefined⟩, rfl⟩
    | some defined =>
      cases hvalue : fields.lookup "m_value" with
      | none =>
        have hmerge : merge base (.object fields) = object base (.object fields) := by
          simp only [merge, JsonValue.asObject, hdefined, hvalue]
        rw [hmerge]
        exact ⟨⟨hbase, hoverwritten, fields, rfl, .inr hvalue⟩, rfl⟩
      | some value =>
        have hmerge : merge base (.object fields) = plain (if isTrue defined then .value value else base) := by
          simp only [merge, JsonValue.asObject, hdefined, hvalue]
        rw [hmerge, mergeDefined_wrapper hdefined hvalue]
        split
        · exact ⟨trivial, rfl⟩
        · exact ⟨hbase, rfl⟩
  | null | bool | number | string | array =>
    rw [mergeDefined_of_not_object rfl]
    exact ⟨hbase, rfl⟩

theorem isObject_toValue {m : Merged} (h : m.Sound) : m.toValue.isObject = m.isObject := by
  cases m with
  | plain v => exact View.isObject_toValue v
  | object base overwritten =>
    obtain ⟨-, -, fields, rfl, hrecord⟩ := h
    rw [toValue, mergeDefined_record hrecord]
    rfl

theorem get_plain {v : View JsNumber} (h : v.Unique) (key : String) :
    (∀ field, (v.get key).map plain = some field → field.Sound) ∧
      v.toValue.get key = ((v.get key).map plain).map toValue := by
  refine ⟨fun field hfield => ?_, ?_⟩
  · obtain ⟨w, hw, rfl⟩ := Option.map_eq_some_iff.mp hfield
    exact View.unique_of_get h hw
  · rw [Option.map_map]
    exact View.get_toValue h key

/-- A field is resolved as in the merged record. -/
theorem get_spec {m : Merged} (h : m.Sound) (key : String) :
    (∀ field, m.get key = some field → field.Sound) ∧ m.toValue.get key = (m.get key).map toValue := by
  cases m with
  | plain v => exact get_plain h key
  | object base overwritten =>
    obtain ⟨hbase, hunique, fields, rfl, hrecord⟩ := h
    have hplain := get_plain hbase key
    rw [toValue, get_mergeDefined hrecord hunique.1, get]
    simp only [JsonValue.get]
    cases hfield : fields.lookup key with
    | none => exact hplain
    | some v =>
      simp only [Option.filter_some]
      cases isUndefined v with
      | true => exact hplain
      | false =>
        have horiginal : ((base.get key).getD (.value .null)).Unique ∧
            ((base.get key).getD (.value .null)).toValue = (base.toValue.get key).getD .null := by
          rw [View.get_toValue hbase]
          cases hget : base.get key with
          | none => exact ⟨trivial, rfl⟩
          | some w => exact ⟨View.unique_of_get hbase hget, rfl⟩
        obtain ⟨hsound, htoValue⟩ := merge_spec horiginal.1 (JsonValue.unique_of_lookup hunique.2 hfield)
        rw [horiginal.2] at htoValue
        refine ⟨fun field heq => ?_, ?_⟩
        · cases heq
          exact hsound
        · exact congrArg some htoValue.symm

end Merged

/-- The deferred value of an attribute is that of the merged record. -/
theorem mValue_attr_toValue {data : Merged} (h : data.Sound) (key : String) :
    mValue (attr data.toValue key) = data.statValue key := by
  obtain ⟨hattrs, hget⟩ := Merged.get_spec h "attributes"
  rw [attr, hget, Merged.statValue]
  cases hdata : data.get "attributes" with
  | none => rfl
  | some attrs =>
    obtain ⟨hfield, hattr⟩ := Merged.get_spec (hattrs attrs hdata) key
    rw [Option.map_some, Option.bind_some, Option.bind_some, hattr]
    cases hvalue : attrs.get key with
    | none => rfl
    | some v =>
      obtain ⟨-, hinner⟩ := Merged.get_spec (hfield v hvalue) "m_value"
      rw [mValue, Option.map_some, Option.map_some, Option.map_some, hinner]
      cases v.get "m_value" <;> rfl

/-! ## What is projected away does not show -/

def statKeys : List String := ["maxHp", "atk", "def", "magicResistance", "moveSpeed", "baseAttackTime"]

/-- The attributes of the line are the same. -/
def SameAttributes (a b : Value) : Prop := ∀ key ∈ statKeys, attr a key = attr b key

theorem field_of_mem_statKeys {key : String} (h : key ∈ statKeys) : combatAttributes.field key = .all := by
  revert key
  simp [statKeys, combatAttributes, Projected.Projection.field, Projected.Projection.fieldOf]

theorem sameAttributes_prune (data : Value) : SameAttributes data (enemyData.prune data) := by
  intro key hkey
  have hattributes : enemyData.field "attributes" = combatAttributes := rfl
  rw [attr, attr, Projected.Projection.get_prune rfl (by rw [hattributes]; rfl), hattributes]
  cases data.get "attributes" with
  | none => rfl
  | some attrs =>
    rw [Option.map_some, Option.bind_some, Option.bind_some,
      Projected.Projection.get_prune rfl (by rw [field_of_mem_statKeys hkey]; rfl), field_of_mem_statKeys hkey]
    have hall : (Projected.Projection.all.prune : Value → Value) = id :=
      funext fun v => Projected.Projection.prune_all v
    rw [hall, Option.map_id]
    rfl

/-- An override is no object, a wrapper or a record. -/
theorem override_cases (overwritten : Value) :
    (∀ base, mergeDefined base overwritten = base) ∨ (∃ value, ∀ base, mergeDefined base overwritten = value) ∨
      ∃ fields, overwritten = .object fields ∧ IsRecord fields := by
  cases overwritten with
  | object fields =>
    cases hdefined : fields.lookup "m_defined" with
    | none => exact .inr (.inr ⟨fields, rfl, .inl hdefined⟩)
    | some defined =>
      cases hvalue : fields.lookup "m_value" with
      | none => exact .inr (.inr ⟨fields, rfl, .inr hvalue⟩)
      | some value =>
        have hwrapper := mergeDefined_wrapper hdefined hvalue
        cases htrue : isTrue defined with
        | true => exact .inr (.inl ⟨value, fun base => by rw [hwrapper, htrue, if_pos rfl]⟩)
        | false => exact .inl fun base => by rw [hwrapper, htrue, if_neg Bool.false_ne_true]
  | null | bool | number | string | array => exact .inl (mergeDefined_of_not_object rfl)

/-- A field of a merge depends on no other field of the record. -/
theorem get_mergeDefined_congr {a b overwritten : Value} (hunique : overwritten.Unique) {key : String}
    (h : a.get key = b.get key) :
    (mergeDefined a overwritten).get key = (mergeDefined b overwritten).get key := by
  obtain hbase | ⟨value, hvalue⟩ | ⟨fields, rfl, hrecord⟩ := override_cases overwritten
  · rw [hbase, hbase, h]
  · rw [hvalue, hvalue]
  · rw [get_mergeDefined hrecord hunique.1, get_mergeDefined hrecord hunique.1, h]

theorem get_getD_null (x : Option Value) (key : String) :
    (x.getD .null).get key = x.bind (JsonValue.get key) := by
  cases x <;> rfl

/-- Records with the same attributes have them after a merge. -/
theorem SameAttributes.mergeDefined {a b overwritten : Value} (h : SameAttributes a b)
    (hunique : overwritten.Unique) :
    SameAttributes (mergeDefined a overwritten) (mergeDefined b overwritten) := by
  intro key hkey
  have hattr := h key hkey
  obtain hbase | ⟨value, hvalue⟩ | ⟨fields, rfl, hrecord⟩ := override_cases overwritten
  · rw [hbase, hbase, hattr]
  · rw [hvalue, hvalue]
  · rw [attr, attr, get_mergeDefined hrecord hunique.1, get_mergeDefined hrecord hunique.1]
    cases hfield : (fields.lookup "attributes").filter fun v => !isUndefined v with
    | none => exact hattr
    | some v =>
      have hlookup := (Option.filter_eq_some_iff.mp hfield).1
      refine get_mergeDefined_congr (JsonValue.unique_of_lookup hunique.2 hlookup) ?_
      rw [get_getD_null, get_getD_null]
      exact hattr

theorem isObject_mergeDefined {a b : Value} (ha : a.isObject = true) (hb : b.isObject = true)
    (overwritten : Value) :
    (StageStats.mergeDefined a overwritten).isObject = (StageStats.mergeDefined b overwritten).isObject := by
  obtain hbase | ⟨value, hvalue⟩ | ⟨fields, rfl, hrecord⟩ := override_cases overwritten
  · rw [hbase, hbase, ha, hb]
  · rw [hvalue, hvalue]
  · rw [mergeDefined_record hrecord, mergeDefined_record hrecord]
    rfl

/-! ## Both lines -/

theorem formatAttributes_congr {f g : String → Option Value} (h : ∀ key ∈ statKeys, f key = g key) :
    formatAttributes texts f = formatAttributes texts g := by
  rw [formatAttributes, formatAttributes]
  congr 1 <;> exact h _ (by simp [statKeys])

theorem formatStats_some (data : Value) :
    formatStats texts (some data) = formatAttributes texts fun key => mValue (attr data key) := by
  rw [formatStats]

theorem formatStats_of_sound (data : Merged) (h : data.Sound) {v : Value}
    (hsame : SameAttributes v data.toValue) :
    formatAttributes texts data.statValue = formatStats texts (some v) := by
  have hvalues : ∀ key ∈ statKeys, data.statValue key = mValue (attr v key) := by
    intro key hkey
    rw [← mValue_attr_toValue h, hsame key hkey]
  rw [formatStats_some]
  exact formatAttributes_congr texts hvalues

/-- The line of an enemy with a record in the database. -/
theorem formatStats_of_freezes {base : Value} {frozen : Frozen} (h : FreezesData base frozen)
    {overwritten : Value} (hunique : overwritten.Unique) :
    formatAttributes texts (if (Merged.merge (.frozen frozen) overwritten).isObject then
        Merged.merge (.frozen frozen) overwritten else .plain (.frozen frozen)).statValue =
      formatStats texts (mergeSelectedEnemyData (some base) overwritten) := by
  have hfrozen : (View.frozen frozen).Unique := h.unique
  have hpruned : (View.frozen frozen).toValue = enemyData.prune base := h.toValue
  have hobject : (enemyData.prune base).isObject = true := by
    rw [← hpruned, View.isObject_toValue]
    exact (h.toFreezes.isObject rfl).trans h.isRecord
  have hsame := sameAttributes_prune base
  obtain ⟨hsound, htoValue⟩ := Merged.merge_spec hfrozen hunique
  rw [hpruned] at htoValue
  have hshape : (Merged.merge (.frozen frozen) overwritten).isObject = (mergeDefined base overwritten).isObject := by
    rw [← Merged.isObject_toValue hsound, htoValue]
    exact isObject_mergeDefined hobject h.isRecord overwritten
  rw [mergeSelectedEnemyData, Option.getD_some, hshape]
  cases (mergeDefined base overwritten).isObject with
  | true =>
    refine formatStats_of_sound texts _ hsound ?_
    rw [htoValue]
    exact hsame.mergeDefined hunique
  | false =>
    refine formatStats_of_sound texts (.plain (.frozen frozen)) hfrozen ?_
    rw [Merged.toValue, hpruned]
    exact hsame

/-- From databases with the same enemies come the same lines. -/
theorem formatCachedStageStats_eq {full : Index Value} {cached : Index Frozen} (h : SameEnemies full cached)
    (enemyId : String) (level : ℤ) {overwritten : Option Value} (hunique : ∀ v ∈ overwritten, v.Unique) :
    formatCachedStageStats texts (some cached) enemyId level overwritten =
      formatStats texts (stageSpecificEnemyData (some full) enemyId level overwritten) := by
  have hentry := h.stageEntry enemyId level
  rw [formatCachedStageStats, stageSpecificEnemyData]
  simp only [Option.bind_some]
  generalize stageEntry full enemyId level = x, stageEntry cached enemyId level = y at hentry ⊢
  cases hentry with
  | none =>
    simp only [Option.map_none, Option.filter_none, mergeSelectedEnemyData]
    cases overwritten.filter JsonValue.isObject with
    | none => rfl
    | some v => exact formatStats_of_sound texts (.plain (.value v)) trivial fun _ _ => rfl
  | @some base frozen hbase =>
    have hnull : (overwritten.getD .null).Unique := by
      cases overwritten with
      | none => trivial
      | some v => exact hunique v rfl
    have hmerge : mergeSelectedEnemyData (some base) overwritten =
        mergeSelectedEnemyData (some base) (overwritten.getD .null) := rfl
    simp only [Option.map_some, Option.filter_some, hbase.isRecord, if_true, hmerge]
    exact formatStats_of_freezes texts hbase hnull

/-- The line of stats from the cache is that from the whole table, for every enemy, level and
override; and where the one table is refused the other is, with the same message. -/
theorem cachedStageStats_eq (parser : Projected.Parser JsNumber String) (text : String) (enemyId : String)
    (level : ℤ) (overwritten : Option {value : Value // value.Unique}) :
    (cachedDatabase parser text).map (fun db =>
        formatCachedStageStats texts (some db) enemyId level (overwritten.map Subtype.val)) =
      (fullDatabase parser text).map fun levels =>
        formatStats texts (stageSpecificEnemyData (some levels) enemyId level (overwritten.map Subtype.val)) := by
  obtain ⟨message, hfull, hcached⟩ | ⟨full, cached, hfull, hcached, hsame⟩ := sameDatabase parser text
  · rw [hfull, hcached]
    rfl
  · rw [hfull, hcached]
    refine congrArg Except.ok (formatCachedStageStats_eq texts hsame enemyId level fun v hv => ?_)
    obtain ⟨value, -, rfl⟩ := Option.mem_map.mp hv
    exact value.2

end PrtsMcp.StageStats
