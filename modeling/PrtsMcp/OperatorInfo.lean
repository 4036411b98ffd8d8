import PrtsMcp.OperatorBuilding
import PrtsMcp.Zodish

/-!
# Basic information of operators

What is shown of an operator: its talents with the conditions that unlock them, its skills in the
base, and the fields of its entry that are read.
-/
namespace PrtsMcp.OperatorInfo

open CompiledEntities CompiledSources OperatorData OperatorBuilding
open Projected (Projection floatValue)

variable {φ : Type}

def professionZh : List (String × String) :=
  [("CASTER", "术师"), ("MEDIC", "医疗"), ("PIONEER", "先锋"), ("SNIPER", "狙击"), ("SPECIAL", "特种"),
    ("SUPPORT", "辅助"), ("TANK", "重装"), ("WARRIOR", "近卫")]

def positionZh : List (String × String) :=
  [("RANGED", "远程"), ("MELEE", "近战"), ("ALL", "通用"), ("NONE", "-")]

/-- What is done with the doubles of an entry. -/
structure Floats (φ : Type) where
  ofNumber : JsonNumber φ → φ
  one : φ
  isZero : φ → Bool

def asNumber : JsonValue φ → Option (JsonNumber φ)
  | .number n => some n
  | _ => none

def asI64 (value : JsonValue φ) : Option Int64 :=
  (asNumber value).bind fun n =>
    match n with
    | .posInt n => if n.toNat < 2 ^ 63 then some n.toInt64 else none
    | .negInt n => some n
    | .float _ => none

def stripText (text : String) : String := String.ofList (Wikitext.stripWikitext text.toList)

def getS (info : JsonValue φ) (key : String) : String := (strOf info key).getD ""

section Payload

variable [Projected.Doubles φ] (floats : Floats φ)

def asF64 (value : JsonValue φ) : Option φ := (asNumber value).map floats.ofNumber

/-! ## Talents -/

/-- A level that is missing or zero counts as 1. -/
def unlockLevel (condition : Option (JsonValue φ)) : φ :=
  (((condition.bind (·.get "level")).bind (asF64 floats)).filter fun l => !floats.isZero l).getD floats.one

/-- A candidate of a talent; those without a name, and those that are hidden, are left out. -/
def talentCandidateOf (c : JsonValue φ) : Option (JsonValue φ) :=
  ((strOf c "name").filter fun name => name ≠ "" ∧ name ≠ "？？？").map fun name =>
    let condition := (c.get "unlockCondition").filter JsonValue.isObject
    .object [("name", .string name),
      ("description", .string (stripText (getS c "description"))),
      ("unlock", .string (phaseZh ((condition.bind fun u => strOf u "phase").getD ""))),
      ("unlock_level", floatValue (unlockLevel floats condition)),
      ("potential_rank", .number (.ofI64 (((c.get "requiredPotentialRank").bind asI64).getD 0)))]

def talentCandidates (slot : JsonValue φ) : List (JsonValue φ) :=
  (arrayOf slot "candidates").filterMap (talentCandidateOf floats)

/-- The last candidate stands for the talent. -/
def talentOf (slot : JsonValue φ) : Option (JsonValue φ) :=
  (talentCandidates floats slot).getLast?.map fun chosen =>
    .object [("name", (chosen.get "name").getD .null), ("description", (chosen.get "description").getD .null),
      ("candidates", .array (talentCandidates floats slot))]

/-! ## The payload -/

/-- What JavaScript takes for false is null. -/
def nonEmpty (value : Option (JsonValue φ)) : JsonValue φ :=
  (value.filter fun v =>
    match v with
    | .null => false
    | .bool b => b
    | .number n => !floats.isZero (floats.ofNumber n)
    | .string s => s ≠ ""
    | _ => true).getD .null

def rarityOf (raw : String) : String := ((stripPrefix "TIER_" raw).map (· ++ "★")).getD raw

def affiliationOf (info : JsonValue φ) : String :=
  let parts := (["nationId", "groupId", "teamId"].filterMap (strOf info)).filter (· ≠ "")
  if parts = [] then "-" else " / ".intercalate parts

def basicInfo (name : String) (info : JsonValue φ) : List (String × JsonValue φ) :=
  [("name", .string name),
    ("display_number", .string (getS info "displayNumber")),
    ("appellation", .string (getS info "appellation")),
    ("rarity", .string (rarityOf (getS info "rarity"))),
    ("rarity_raw", .string (getS info "rarity")),
    ("profession", .string (zhLookup professionZh (getS info "profession"))),
    ("profession_raw", .string (getS info "profession")),
    ("sub_profession_id", .string (getS info "subProfessionId")),
    ("position", .string (zhLookup positionZh (getS info "position"))),
    ("position_raw", .string (getS info "position")),
    ("affiliation", .string (affiliationOf info)),
    ("tag_list", .array (arrayOf info "tagList")),
    ("attack_attribute", ((strOf info "description").filter (· ≠ "")).elim .null fun desc => .string (stripText desc)),
    ("item_usage", nonEmpty floats (info.get "itemUsage")),
    ("item_desc", nonEmpty floats (info.get "itemDesc")),
    ("item_obtain", nonEmpty floats (info.get "itemObtainApproach")),
    ("talents", .array ((arrayOf info "talents").filterMap (talentOf floats)))]

variable (reader : Reader φ) (view : DataView)

/-- Skills in the base are left out if there is no data of them, or none that can be read. -/
def buildingField (id : String) : List (String × JsonValue φ) :=
  if hasBuildingData view then
    match buildingSkillsFor reader view id with
    | .ok skills => [("building_skills", .array skills)]
    | .error _ => []
  else []

def operatorBasicInfo (name id : String) : Except String (JsonValue φ) := do
  let table ← characterFor reader view (some id)
  match entryOf table id with
  | none => throw s!"干员 '{name}' 暂无基本信息。"
  | some info => return .object (basicInfo floats name info ++ buildingField reader view id)

def buildOperatorBasicInfo (excelPath name : String) : Except String (JsonValue φ) :=
  withOperator reader view excelPath name (operatorBasicInfo floats reader view name)

end Payload

/-! ## Pruned entries -/

section Pruned

variable [Projected.Doubles φ] (floats : Floats φ)

omit [Projected.Doubles φ] in
theorem getS_of_all {p : Projection} (hp : p.isDiscard = false) {key : String} (hfield : p.field key = .all)
    (v : JsonValue φ) : getS (p.prune v) key = getS v key := by
  rw [getS, getS, strOf_of_all hp hfield]

omit [Projected.Doubles φ] in
theorem arrayOf_of_all {p : Projection} (hp : p.isDiscard = false) {key : String} (hfield : p.field key = .all)
    (v : JsonValue φ) : arrayOf (p.prune v) key = arrayOf v key := by
  rw [arrayOf, arrayOf, get_of_all hp hfield]

def conditionFields : Projection := .fields [("phase", .all), ("level", .all)]

omit [Projected.Doubles φ] in
theorem condition_prune (c : JsonValue φ) :
    ((talentCandidate.prune c).get "unlockCondition").filter JsonValue.isObject =
      ((c.get "unlockCondition").filter JsonValue.isObject).map conditionFields.prune := by
  rw [Projection.get_prune rfl rfl]
  change ((c.get "unlockCondition").map conditionFields.prune).filter _ = _
  cases c.get "unlockCondition" with
  | none => rfl
  | some condition =>
    rw [Option.map_some, Option.filter_some, Option.filter_some, isObject_prune rfl]
    split <;> rfl

theorem talentCandidateOf_prune (c : JsonValue φ) :
    talentCandidateOf floats (talentCandidate.prune c) = talentCandidateOf floats c := by
  have hphase : ∀ condition : Option (JsonValue φ),
      ((condition.map conditionFields.prune).bind fun u => strOf u "phase") =
        condition.bind fun u => strOf u "phase" := by
    intro condition
    cases condition with
    | none => rfl
    | some u => exact strOf_of_all rfl rfl u
  have hlevel : ∀ condition : Option (JsonValue φ),
      unlockLevel floats (condition.map conditionFields.prune) = unlockLevel floats condition := by
    intro condition
    cases condition with
    | none => rfl
    | some u =>
      rw [unlockLevel, unlockLevel, Option.map_some, Option.bind_some, get_of_all rfl rfl]
      rfl
  have hrank : (talentCandidate.prune c).get "requiredPotentialRank" = c.get "requiredPotentialRank" :=
    get_of_all rfl rfl c
  simp only [talentCandidateOf, strOf_of_all rfl (show talentCandidate.field "name" = .all from rfl),
    getS_of_all rfl (show talentCandidate.field "description" = .all from rfl), condition_prune, hphase, hlevel,
    hrank]

theorem talentCandidates_prune (slot : JsonValue φ) :
    talentCandidates floats (talentSlot.prune slot) = talentCandidates floats slot := by
  rw [talentCandidates, talentCandidates, arrayOf_elements rfl rfl, List.filterMap_map]
  exact congrFun (congrArg _ (funext (talentCandidateOf_prune floats))) _

theorem talentOf_prune (slot : JsonValue φ) : talentOf floats (talentSlot.prune slot) = talentOf floats slot := by
  rw [talentOf, talentOf, talentCandidates_prune]

def shownWhole : List String :=
  ["displayNumber", "appellation", "rarity", "profession", "subProfessionId", "position", "nationId", "groupId",
    "teamId", "tagList", "description", "itemUsage", "itemDesc", "itemObtainApproach"]

omit [Projected.Doubles φ] in
theorem get_shownWhole {key : String} (hkey : key ∈ shownWhole) (info : JsonValue φ) :
    (characterEntry.prune info).get key = info.get key := by
  refine get_of_all rfl ?_ info
  fin_cases hkey <;> rfl

omit [Projected.Doubles φ] in
theorem affiliationOf_prune (info : JsonValue φ) : affiliationOf (characterEntry.prune info) = affiliationOf info := by
  have hparts : ["nationId", "groupId", "teamId"].filterMap (strOf (characterEntry.prune info)) =
      ["nationId", "groupId", "teamId"].filterMap (strOf info) := by
    refine List.filterMap_congr fun key hkey => ?_
    have hshown : key ∈ shownWhole := by
      fin_cases hkey <;> simp [shownWhole]
    rw [strOf, strOf, get_shownWhole hshown]
  rw [affiliationOf, affiliationOf, hparts]

/-- What is shown of an entry is the same after its projection. -/
theorem basicInfo_prune (name : String) (info : JsonValue φ) :
    basicInfo floats name (characterEntry.prune info) = basicInfo floats name info := by
  have htalents : (arrayOf (characterEntry.prune info) "talents").filterMap (talentOf floats) =
      (arrayOf info "talents").filterMap (talentOf floats) := by
    rw [arrayOf_elements rfl rfl, List.filterMap_map]
    exact congrFun (congrArg _ (funext (talentOf_prune floats))) _
  have hget : ∀ key ∈ shownWhole, (characterEntry.prune info).get key = info.get key :=
    fun key hkey => get_shownWhole hkey info
  have hgetS : ∀ key ∈ shownWhole, getS (characterEntry.prune info) key = getS info key := by
    intro key hkey
    rw [getS, getS, strOf, strOf, hget key hkey]
  have htags : arrayOf (characterEntry.prune info) "tagList" = arrayOf info "tagList" := by
    rw [arrayOf, arrayOf, hget "tagList" (by simp [shownWhole])]
  have hdescription : strOf (characterEntry.prune info) "description" = strOf info "description" := by
    rw [strOf, strOf, hget "description" (by simp [shownWhole])]
  simp only [basicInfo, htalents, htags, hdescription, affiliationOf_prune,
    hgetS "displayNumber" (by simp [shownWhole]), hgetS "appellation" (by simp [shownWhole]),
    hgetS "rarity" (by simp [shownWhole]), hgetS "profession" (by simp [shownWhole]),
    hgetS "subProfessionId" (by simp [shownWhole]), hgetS "position" (by simp [shownWhole]),
    hget "itemUsage" (by simp [shownWhole]), hget "itemDesc" (by simp [shownWhole]),
    hget "itemObtainApproach" (by simp [shownWhole])]

end Pruned

/-! ## Both views -/

section Agreement

variable [Projected.Doubles φ] {reader : Reader φ} {options : Options} {db : Database} {root : ExcelRoot}
variable {files : List SourceFile}

/-- Every slot of every operator in the base names its best buff, or there is no empty name to go by. -/
def NamedBuffs (reader : Reader φ) (root : ExcelRoot) : Prop :=
  ∀ raw entries, root.file "building_data.json" = some raw → reader.serde.fromSlice raw = .ok (.object entries) →
    ∀ id entry, baseEntry entries id = some entry → ¬ Unnamed entry (entriesIn entries "buffs")

theorem hasBuildingData_agree (h : Published reader options db root files) :
    hasBuildingData (DataView.ofDatabase root db) = hasBuildingData (DataView.ofFiles root) := by
  have hstores : ∀ excelRoot : Option ExcelRoot, (∀ r ∈ excelRoot, r = root) →
      hasBuildingData ⟨excelRoot, some db⟩ = hasBuildingData ⟨excelRoot, none⟩ := by
    intro excelRoot hroot
    cases excelRoot with
    | none => rfl
    | some r =>
      obtain rfl := hroot r rfl
      exact Bool.eq_iff_iff.mpr (h.has_iff "building_data.json")
  have hexcel := h.excelRoot
  rw [show DataView.ofDatabase root db = ⟨(DataView.ofFiles root).excelRoot, some db⟩ from hexcel ▸ rfl]
  refine hstores _ fun r hr => ?_
  simp only [DataView.ofFiles, Option.mem_def, Option.ite_none_right_eq_some, Option.some.injEq] at hr
  exact hr.2.symm

theorem buildingField_agree (h : Published reader options db root files) (hexcel : filesComplete root = true)
    (hnamed : NamedBuffs reader root) (id : String) :
    buildingField reader (DataView.ofDatabase root db) id = buildingField reader (DataView.ofFiles root) id := by
  unfold buildingField
  rw [hasBuildingData_agree h]
  cases hhas : hasBuildingData (DataView.ofFiles root) with
  | false => rfl
  | true =>
    rcases h.table isTable_building with ⟨hnone, -⟩ | ⟨entries, htable⟩
    · have hfile : root.file "building_data.json" = none := hnone
      simp [hasBuildingData, DataView.excelStore, DataView.ofFiles, hexcel, ExcelStore.has, hfile] at hhas
    · obtain ⟨raw, hraw, hread⟩ := htable.file
      rw [(sameSkills_iff htable hexcel id).mpr (hnamed raw entries hraw hread id)]

theorem namedBuffs_sample : NamedBuffs sampleReader sampleRoot := by
  intro raw entries hfile hraw id entry hentry hunnamed
  cases Option.some.inj hfile
  cases (fromSlice_sample mem_sampleBase).symm.trans hraw
  obtain ⟨-, -, hsome⟩ := hunnamed
  have hnone : (entriesIn sampleBase "buffs").lookup "" = none := by
    simp [sampleBase, sampleTables, entriesIn, JsonValue.asObject, List.lookup]
  rw [hnone] at hsome
  cases hsome

def sampleFloats : Floats JsNumber := ⟨JsonNumber.asF64, .finite 1, (· == .finite 0)⟩

end Agreement

end PrtsMcp.OperatorInfo
