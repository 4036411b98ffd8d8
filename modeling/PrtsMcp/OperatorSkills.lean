import PrtsMcp.OperatorStats
import PrtsMcp.SkillData

/-!
# Combat skills of operators

The skills that an operator's entry refers to, joined with the levels of the skill table, which is read
whole from a directory and by the rows that are referred to from a database.
-/
namespace PrtsMcp.OperatorSkills

open CompiledEntities CompiledSources OperatorData OperatorBuilding
open Projected (Projection parseValue)
open SkillData (SkillLevel SkillTable deserialize extract levelsOf)

variable {φ : Type}

def skillTypeZh : List (String × String) := [("MANUAL", "手动"), ("AUTO", "自动"), ("PASSIVE", "被动")]

def spTypeZh : List (String × String) :=
  [("INCREASE_WITH_TIME", "自动回复"), ("INCREASE_WHEN_ATTACK", "攻击回复"),
    ("INCREASE_WHEN_TAKEN_DAMAGE", "受击回复")]

/-- What is done with the doubles of skills. -/
structure Numbers (φ : Type) where
  ofNumber : JsonNumber φ → φ
  text : SkillText.Doubles φ

section Payload

variable (numbers : Numbers φ)

def describe (level : SkillLevel φ) : String :=
  String.ofList (SkillText.renderSkillDescription numbers.text
    (fun key => level.blackboard.lookup (String.ofList key)) level.description.toList)

def skillLevel (level : SkillLevel φ) : JsonValue φ :=
  .object [("level", .number (.posInt (UInt64.ofNat level.level))), ("name", .string level.name),
    ("skill_type", .string (zhLookup skillTypeZh level.skillType)), ("skill_type_raw", .string level.skillType),
    ("sp_type", .string (zhLookup spTypeZh level.spType)), ("sp_cost", level.spCost), ("init_sp", level.initSp),
    ("max_charge_time", level.maxChargeTime), ("duration", level.duration),
    ("duration_type", .string level.durationType), ("description", .string (describe numbers level))]

/-- The name of the last level, or else of the first. -/
def skillDisplayName (levels : List (SkillLevel φ)) : String :=
  let top := (levels.getLast?.map SkillLevel.name).getD ""
  if top = "" then (levels.head?.map SkillLevel.name).getD "" else top

def refsOf (info : JsonValue φ) : List (JsonValue φ) := arrayOf info "skills"

/-- The skills that there are, with levels. -/
def skillEntries (info : JsonValue φ) (table : SkillTable φ) : List (String × List (SkillLevel φ)) :=
  (refsOf info).filterMap fun entry => (strOf entry "skillId").bind fun id =>
    ((table.get id).filter fun levels => !levels.isEmpty).map (Prod.mk id)

def skillsOf (name id : String) (info : JsonValue φ) (table : SkillTable φ) : Except String (JsonValue φ) :=
  if table.entries.isNone then .error "skill_table.json 顶层不是 JSON 对象。"
  else
    let skills := (skillEntries info table).map fun entry => JsonValue.object
      [("skill_id", .string entry.1), ("name", .string (skillDisplayName entry.2)),
        ("levels", .array (entry.2.map (skillLevel numbers)))]
    if skills.isEmpty then .error s!"干员 '{name}' 暂无战斗技能数据。"
    else .ok (.object [("name", .string name), ("char_id", .string id), ("skills", .array skills)])

variable [Projected.Doubles φ] (reader : Reader φ) (view : DataView)

def skillFileError (store : ExcelStore) : String :=
  "战斗技能数据文件不存在：" ++ store.root.shown "skill_table.json" ++
    "。数据目录可能为空，或挂载路径有误（GAMEDATA_PATH 应指向游戏数据根目录）。"

def skillTable : Except String (SkillTable φ) :=
  match view.excelStore with
  | none => .error "__missing__战斗技能"
  | some store =>
    if store.has "skill_table.json" then do
      let text ← store.readText reader "skill_table.json"
      (Projected.fromStr (deserialize numbers.ofNumber) reader.serde.parser text).mapError fun e =>
        s!"JSON parse failure in skill_table.json: {e}"
    else .error (skillFileError store)

/-- The rows that the entry of an operator refers to. -/
def skillRows (db : Database) (id : Option String) : Except String (SkillTable φ) := do
  let info ← (id.mapM fun id => db.tables.entity reader.serde "character_table" "" id).map Option.join
  let rows ← (info.elim [] refsOf).foldlM (loadNamed reader db "skill_table" "" "skillId") []
  deserialize numbers.ofNumber (ofValue (.object rows))

def skillTableFor (id : Option String) : Except String (SkillTable φ) :=
  match view.database with
  | some db => skillRows numbers reader db id
  | none => skillTable numbers reader view

def buildOperatorSkills (excelPath name : String) : Except String (JsonValue φ) :=
  if view.excelRoot.isNone then .error (Listings.excelMissingMessage "战斗技能" excelPath)
  else do
    let id ← resolveCharId reader view name
    let table ← skillTableFor numbers reader view id
    let characters ← characterFor reader view id
    match id with
    | none => throw (operatorNotFound name)
    | some id => skillsOf numbers name id ((entryOf characters id).getD .null) table

end Payload

/-! ## Both views -/

section Agreement

variable [Projected.Doubles φ] {reader : Reader φ} {options : Options} {db : Database} {root : ExcelRoot}
variable {files : List SourceFile} (numbers : Numbers φ)

theorem isTable_skill : IsTable "skill_table" := ⟨by decide, by decide⟩

omit [Projected.Doubles φ] in
theorem strOf_refs_prune (info : JsonValue φ) :
    (refsOf (characterEntry.prune info)).map (fun entry => strOf entry "skillId") =
      (refsOf info).map fun entry => strOf entry "skillId" := by
  rw [refsOf, refsOf, arrayOf_elements rfl rfl, List.map_map]
  exact List.map_congr_left fun entry _ => strOf_of_all rfl (by rfl) entry

omit [Projected.Doubles φ] in
theorem skillEntries_eq (info : JsonValue φ) (table : SkillTable φ) :
    skillEntries info table = ((refsOf info).map fun entry => strOf entry "skillId").filterMap fun id =>
      id.bind fun id => ((table.get id).filter fun levels => !levels.isEmpty).map (Prod.mk id) := by
  rw [skillEntries, List.filterMap_map]
  rfl

omit [Projected.Doubles φ] in
/-- The join needs of the table only what the entry refers to. -/
theorem skillEntries_congr {info info' : JsonValue φ} {table table' : SkillTable φ}
    (hrefs : (refsOf info).map (fun entry => strOf entry "skillId") =
      (refsOf info').map fun entry => strOf entry "skillId")
    (hget : ∀ id ∈ idsOf "skillId" (refsOf info'), table.get id = table'.get id) :
    skillEntries info table = skillEntries info' table' := by
  rw [skillEntries_eq, skillEntries_eq, hrefs]
  refine List.filterMap_congr fun id hid => ?_
  cases id with
  | none => rfl
  | some id =>
    obtain ⟨entry, hentry, hid⟩ := List.mem_map.mp hid
    rw [Option.bind_some, Option.bind_some, hget id (List.mem_filterMap.mpr ⟨entry, hentry, hid⟩)]

theorem skillTable_files {entries : List (String × JsonValue φ)} (htable : Table reader db root "skill_table" entries)
    (hexcel : filesComplete root = true) :
    skillTable numbers reader (DataView.ofFiles root) = .ok (extract numbers.ofNumber (.object entries)) := by
  obtain ⟨raw, hraw, hread⟩ := htable.file
  obtain ⟨text, htext, hparsed⟩ := fromSlice_eq_ok hread
  have hfile : root.file "skill_table.json" = some raw := hraw
  have hskills := (SkillData.deserialize_agree numbers.ofNumber reader.serde.parser text).1
  rw [show Projected.fromStr parseValue reader.serde.parser text = .ok (.object entries) from hparsed] at hskills
  simp [skillTable, DataView.excelStore, DataView.ofFiles, hexcel, ExcelStore.has, ExcelStore.readText, hfile,
    htext, hskills, Fallible.okOr, bind, Except.bind, Except.mapError, Except.map]

theorem Loaded.parsed {source loaded : List (String × JsonValue φ)} {ids : List String}
    (h : Loaded source ids loaded) (hsource : (JsonValue.object source).Parsed) : (JsonValue.object loaded).Parsed := by
  refine ⟨h.nodup, JsonValue.parsedFields_iff.mpr fun row hrow => ?_⟩
  have hlookup := (Upserts.mem_iff_lookup h.nodup).mp hrow
  rw [h.lookup] at hlookup
  split at hlookup
  · exact JsonValue.parsed_of_get (v := .object source) hsource hlookup
  · cases hlookup

theorem skillRows_some {characters entries : List (String × JsonValue φ)}
    (hcharacters : Table reader db root "character_table" characters)
    (htable : Table reader db root "skill_table" entries) (id : String) :
    ∃ rows, Loaded entries (idsOf "skillId" ((characters.lookup id).elim [] refsOf)) rows ∧
      skillRows numbers reader db (some id) = .ok (extract numbers.ofNumber (.object rows)) := by
  obtain ⟨hholds, -, hread⟩ := hcharacters.bucket_direct (by decide)
  obtain ⟨hskills, -, hreadSkills⟩ := htable.bucket_direct (by decide)
  obtain ⟨rows, hrows, hloaded⟩ := foldlM_loadNamed "skillId" (fun key => hskills.entity hreadSkills key)
    ((characters.lookup id).elim [] refsOf) (loaded_nil entries)
  have hinfo : ((some id).mapM fun id => db.tables.entity reader.serde "character_table" "" id).map Option.join =
      .ok (characters.lookup id) := by
    rw [Option.mapM_some, hholds.entity hread id]
    rfl
  refine ⟨rows, hloaded, ?_⟩
  rw [skillRows, hinfo]
  change (((characters.lookup id).elim [] refsOf).foldlM (loadNamed reader db "skill_table" "" "skillId") [] >>=
    fun rows => deserialize numbers.ofNumber (ofValue (.object rows))) = _
  rw [hrows]
  change deserialize numbers.ofNumber (ofValue (.object rows)) = _
  rw [SkillData.deserialize_eq, parseValue_ofValue _ (Loaded.parsed hloaded htable.parsed)]
  rfl

theorem skillRows_none : skillRows numbers reader db none = .ok (extract numbers.ofNumber (.object [])) := by
  change deserialize numbers.ofNumber (ofValue (.object [])) = _
  rw [SkillData.deserialize_eq]
  rfl

omit [Projected.Doubles φ] in
/-- The table of the rows gives for an operator's entry what the whole table gives. -/
theorem skillsOf_rows {entries rows : List (String × JsonValue φ)} {info : JsonValue φ} {ids : List String}
    (hids : ids = idsOf "skillId" (refsOf info)) (hloaded : Loaded entries ids rows) (name id : String) :
    skillsOf numbers name id info (extract numbers.ofNumber (.object rows)) =
      skillsOf numbers name id (characterEntry.prune info) (extract numbers.ofNumber (.object entries)) := by
  have hget : ∀ key ∈ idsOf "skillId" (refsOf info), (extract numbers.ofNumber (.object rows)).get key =
      (extract numbers.ofNumber (.object entries)).get key := by
    intro key hkey
    rw [SkillData.get_extract, SkillData.get_extract]
    change (rows.lookup key).map _ = (entries.lookup key).map _
    rw [hloaded.lookup, if_pos (hids ▸ hkey)]
  have hentries : skillEntries info (extract numbers.ofNumber (.object rows)) =
      skillEntries (characterEntry.prune info) (extract numbers.ofNumber (.object entries)) := by
    refine (skillEntries_congr (strOf_refs_prune info) fun key hkey => ?_).symm
    exact (hget key hkey).symm
  rw [skillsOf, skillsOf, hentries]
  rfl

/-- The skill of the sample has no description to fill in. -/
def sampleNumbers : Numbers JsNumber where
  ofNumber := JsonNumber.asF64
  text := {
    neg := OperatorStats.lift (· - ·) (.finite 0)
    timesHundred := OperatorStats.lift (· * ·) (.finite 100)
    isJsInteger := OperatorStats.sampleArithmetic.isJsInteger
    jsNumberToString := fun x => (OperatorStats.sampleArithmetic.jsNumberToString x).toList
    jsToFixed := fun x digits =>
      (OperatorStats.sampleArithmetic.jsNumberToString (OperatorStats.roundHalfAway x digits)).toList
    roundHalfAway := OperatorStats.roundHalfAway }

end Agreement

end PrtsMcp.OperatorSkills
