import PrtsMcp.ConfigSchema
import PrtsMcp.OperatorData
import PrtsMcp.Wikitext

/-!
# Base skills of operators

The skills of an operator in the base, from the whole table of a directory or from the rows of a
database that its slots name.
-/
namespace PrtsMcp.OperatorBuilding

open CompiledEntities CompiledSources OperatorData
open Projected (Projection)

variable {φ : Type}

def roomZh : List (String × String) :=
  [("CONTROL", "控制中枢"), ("POWER", "发电站"), ("MANUFACTURE", "制造站"), ("TRADING", "贸易站"),
    ("WORKSHOP", "加工站"), ("TRAINING", "训练室"), ("DORMITORY", "宿舍"), ("HIRE", "人力办公室"),
    ("MEETING", "会客室")]

/-- `zh_lookup` -/
def zhLookup (table : List (String × String)) (raw : String) : String := (table.lookup raw).getD raw

def phaseZh (phase : String) : String :=
  match phase with
  | "PHASE_0" => "精英0"
  | "PHASE_1" => "精英1"
  | "PHASE_2" => "精英2"
  | other => other

/-! ## Slots -/

def slotsOf (entry : JsonValue φ) : List (JsonValue φ) := arrayOf entry "buffChar"

def dataOf (slot : JsonValue φ) : List (JsonValue φ) := arrayOf slot "buffData"

def phaseOf (data : JsonValue φ) : String := ((data.get "cond").bind fun cond => strOf cond "phase").getD ""

def phaseRank (data : JsonValue φ) : ℤ :=
  (((stripPrefix "PHASE_" (phaseOf data)).bind Config.parseInt64).map Int64.toInt).getD (-1)

/-- The data of the highest phase, the first of them. -/
def bestOf (datas : List (JsonValue φ)) : Option (JsonValue φ) :=
  datas.foldl (fun best data =>
    match best with
    | none => some data
    | some b => if phaseRank b < phaseRank data then some data else some b) none

def cleanDescription (desc : String) : String :=
  String.ofList (McpEndpoint.trimmed (Wikitext.stripHtmlTags desc.toList))

def buffIdOf (data : JsonValue φ) : String := (strOf data "buffId").getD ""

def buildingSkill (best buff : JsonValue φ) : JsonValue φ :=
  .object [("name", .string ((strOf buff "buffName").getD "")),
    ("room", .string (zhLookup roomZh ((strOf buff "roomType").getD ""))),
    ("description", .string (cleanDescription ((strOf buff "description").getD ""))),
    ("unlock", .string (phaseZh (phaseOf best)))]

def slotSkill (buffs : List (String × JsonValue φ)) (slot : JsonValue φ) : Option (JsonValue φ) :=
  (bestOf (dataOf slot)).bind fun best => (buffs.lookup (buffIdOf best)).map (buildingSkill best)

def skillsIn (table : JsonValue φ) (id : String) : Except String (List (JsonValue φ)) :=
  if !table.isObject then .error "building_data.json 顶层不是 JSON 对象"
  else
    let chars := ((table.get "chars").bind JsonValue.asObject).getD []
    let buffs := ((table.get "buffs").bind JsonValue.asObject).getD []
    .ok (((chars.lookup id).elim [] slotsOf).filterMap (slotSkill buffs))

/-! ## Tables -/

def buildingFields : Projection := .fields [("chars", .all), ("buffs", .all)]

def buildingFileError (store : ExcelStore) : String :=
  "基建技能数据文件不存在：" ++ store.root.shown "building_data.json" ++
    "。数据目录可能为空，或挂载路径有误（GAMEDATA_PATH 应指向游戏数据根目录）。"

section Views

variable [Projected.Doubles φ] (reader : Reader φ) (view : DataView)

def hasBuildingData : Bool :=
  match view.excelStore with
  | some store => store.has "building_data.json"
  | none => false

def buildingTable : Except String (JsonValue φ) :=
  match view.excelStore with
  | none => .error "__missing__基建技能"
  | some store =>
    if store.has "building_data.json" then store.readJsonProjected reader "building_data.json" buildingFields
    else .error (buildingFileError store)

/-- The buff that a slot's data names, if the database has it. -/
def loadBuff (db : Database) (buffs : List (String × JsonValue φ)) (data : JsonValue φ) :
    Except String (List (String × JsonValue φ)) :=
  loadNamed reader db "building_data" "buffs" "buffId" buffs data

/-- An operator's entry and the buffs that it names. -/
def buildingRows (db : Database) (id : String) : Except String (JsonValue φ) := do
  let chars ← db.tables.entityMap reader.serde "building_data" "chars" (some id) none
  let slots := (chars.lookup id).elim [] slotsOf
  let buffs ← slots.foldlM (fun buffs slot => (dataOf slot).foldlM (loadBuff reader db) buffs) []
  return .object [("chars", .object chars), ("buffs", .object buffs)]

def buildingSkillsFor (id : String) : Except String (List (JsonValue φ)) := do
  let table ← match view.database with
    | some db => buildingRows reader db id
    | none => buildingTable reader view
  skillsIn table id

end Views

/-! ## The buffs of an operator -/

theorem bestOf_mem {datas : List (JsonValue φ)} {best : JsonValue φ} (h : bestOf datas = some best) :
    best ∈ datas := by
  have hfold : ∀ (datas : List (JsonValue φ)) (start : Option (JsonValue φ)),
      datas.foldl (fun best data =>
        match best with
        | none => some data
        | some b => if phaseRank b < phaseRank data then some data else some b) start = some best →
          start = some best ∨ best ∈ datas := by
    intro datas
    induction datas with
    | nil => exact fun start h => .inl h
    | cons data datas ih =>
      intro start h
      rcases ih _ h with hstart | hmem
      · cases start with
        | none => exact .inr (by simp [← Option.some.inj hstart])
        | some b =>
          change (if phaseRank b < phaseRank data then some data else some b) = some best at hstart
          split at hstart
          · exact .inr (by simp [← Option.some.inj hstart])
          · exact .inl hstart
      · exact .inr (List.mem_cons_of_mem _ hmem)
  exact (hfold datas none h).resolve_left nofun

/-- The ids that an entry names. -/
def buffIds (entry : JsonValue φ) : List String := idsOf "buffId" ((slotsOf entry).flatMap dataOf)

/-! ## Both views -/

/-- Where one selection leaves out some of what the other has, they are equal only pointwise. -/
theorem filterMap_eq_iff {α β : Type*} {f g : α → Option β} {xs : List α}
    (h : ∀ x ∈ xs, f x = none ∨ f x = g x) : xs.filterMap f = xs.filterMap g ↔ ∀ x ∈ xs, f x = g x := by
  have hle : ∀ ys : List α, (∀ x ∈ ys, f x = none ∨ f x = g x) →
      (ys.filterMap f).length ≤ (ys.filterMap g).length := by
    intro ys
    induction ys with
    | nil => simp
    | cons y ys ih =>
      intro hys
      rw [List.forall_mem_cons] at hys
      have htail := ih hys.2
      cases hf : f y with
      | none =>
        rw [List.filterMap_cons_none hf]
        exact htail.trans (by cases hg : g y <;> simp [hg])
      | some b =>
        have hg : g y = some b := (hys.1.resolve_left (by simp [hf])).symm.trans hf
        simp [hf, hg, htail]
  constructor
  · intro heq
    induction xs with
    | nil => simp
    | cons x xs ih =>
      rw [List.forall_mem_cons] at h ⊢
      cases hf : f x with
      | some b =>
        have hg : g x = some b := (h.1.resolve_left (by simp [hf])).symm.trans hf
        rw [List.filterMap_cons_some hf, List.filterMap_cons_some hg] at heq
        exact ⟨hg.symm, ih h.2 (List.cons.inj heq).2⟩
      | none =>
        cases hg : g x with
        | none =>
          rw [List.filterMap_cons_none hf, List.filterMap_cons_none hg] at heq
          exact ⟨rfl, ih h.2 heq⟩
        | some b =>
          rw [List.filterMap_cons_none hf, List.filterMap_cons_some hg] at heq
          have hlength := hle xs h.2
          rw [heq, List.length_cons] at hlength
          omega
  · exact List.filterMap_congr

/-- A slot's best data names no buff, no other data names the empty one, and yet there is one. -/
def Unnamed (entry : JsonValue φ) (buffs : List (String × JsonValue φ)) : Prop :=
  (∃ slot ∈ slotsOf entry, ∃ best, bestOf (dataOf slot) = some best ∧ strOf best "buffId" = none) ∧
    "" ∉ buffIds entry ∧ (buffs.lookup "").isSome

theorem mem_buffIds {entry slot data : JsonValue φ} {id : String} (hslot : slot ∈ slotsOf entry)
    (hdata : data ∈ dataOf slot) (hid : strOf data "buffId" = some id) : id ∈ buffIds entry :=
  List.mem_filterMap.mpr ⟨data, List.mem_flatMap.mpr ⟨slot, hslot, hdata⟩, hid⟩

/-- The skills from the buffs that an entry names are those from all buffs unless one is unnamed. -/
theorem slotSkills_eq_iff {entry : JsonValue φ} {all buffs : List (String × JsonValue φ)}
    (hall : ∀ id, all.lookup id = if id ∈ buffIds entry then buffs.lookup id else none) :
    (slotsOf entry).filterMap (slotSkill all) = (slotsOf entry).filterMap (slotSkill buffs) ↔
      ¬ Unnamed entry buffs := by
  have hslot : ∀ slot best, bestOf (dataOf slot) = some best →
      slotSkill all slot = (all.lookup (buffIdOf best)).map (buildingSkill best) ∧
        slotSkill buffs slot = (buffs.lookup (buffIdOf best)).map (buildingSkill best) := by
    intro slot best hbest
    simp [slotSkill, hbest]
  have hnamed : ∀ slot ∈ slotsOf entry, ∀ best, bestOf (dataOf slot) = some best →
      buffIdOf best ∈ buffIds entry ∨ strOf best "buffId" = none := by
    intro slot hmem best hbest
    cases hid : strOf best "buffId" with
    | none => exact .inr rfl
    | some id =>
      rw [buffIdOf, hid]
      exact .inl (mem_buffIds hmem (bestOf_mem hbest) hid)
  rw [filterMap_eq_iff]
  · constructor
    · rintro heq ⟨⟨slot, hmem, best, hbest, hid⟩, hnot, hsome⟩
      obtain ⟨buff, hbuff⟩ := Option.isSome_iff_exists.mp hsome
      have hempty : buffIdOf best = "" := by rw [buffIdOf, hid]; rfl
      have hslots := heq slot hmem
      rw [(hslot slot best hbest).1, (hslot slot best hbest).2, hempty, hall, if_neg hnot, hbuff] at hslots
      cases hslots
    · intro hnot slot hmem
      cases hbest : bestOf (dataOf slot) with
      | none => simp [slotSkill, hbest]
      | some best =>
        rw [(hslot slot best hbest).1, (hslot slot best hbest).2, hall]
        split
        · rfl
        · next habsent =>
          have hid := (hnamed slot hmem best hbest).resolve_left habsent
          have hempty : buffIdOf best = "" := by rw [buffIdOf, hid]; rfl
          rw [hempty] at habsent ⊢
          have hnone : buffs.lookup "" = none := by
            by_contra hsome
            exact hnot ⟨⟨slot, hmem, best, hbest, hid⟩, habsent, Option.ne_none_iff_isSome.mp hsome⟩
          rw [hnone]
  · intro slot hmem
    cases hbest : bestOf (dataOf slot) with
    | none => exact .inl (by simp [slotSkill, hbest])
    | some best =>
      rw [(hslot slot best hbest).1, (hslot slot best hbest).2, hall]
      split
      · exact .inr rfl
      · exact .inl rfl

section Agreement

variable [Projected.Doubles φ] {reader : Reader φ} {options : Options} {db : Database} {root : ExcelRoot}
variable {files : List SourceFile} {entries : List (String × JsonValue φ)}

theorem isTable_building : IsTable "building_data" := ⟨by decide, by decide⟩

/-- The entry of an operator in the base. -/
def baseEntry (entries : List (String × JsonValue φ)) (id : String) : Option (JsonValue φ) :=
  (entriesIn entries "chars").lookup id

theorem buildingSkillsFor_files (htable : Table reader db root "building_data" entries)
    (hexcel : filesComplete root = true) (id : String) :
    buildingSkillsFor reader (DataView.ofFiles root) id =
      .ok (((baseEntry entries id).elim [] slotsOf).filterMap (slotSkill (entriesIn entries "buffs"))) := by
  obtain ⟨raw, hraw, hread⟩ := htable.file
  obtain ⟨text, htext, hparsed⟩ := fromSlice_eq_ok hread
  have hprune := (Projected.fromStr_agree reader.serde.parser text buildingFields).2
  rw [show Projected.fromStr Projected.parseValue reader.serde.parser text = .ok (.object entries) from hparsed]
    at hprune
  have hfile : root.file "building_data.json" = some raw := hraw
  have hload : buildingTable reader (DataView.ofFiles root) = .ok (buildingFields.prune (.object entries)) := by
    simp [buildingTable, DataView.excelStore, DataView.ofFiles, hexcel, ExcelStore.has, ExcelStore.readText,
      ExcelStore.readJsonProjected, hfile, htext, hprune, Fallible.okOr, bind, Except.bind, Except.mapError,
      Except.map]
  have hfield : ∀ key, buildingFields.field key = .all →
      (((buildingFields.prune (.object entries)).get key).bind JsonValue.asObject).getD [] =
        entriesIn entries key := by
    intro key hkey
    rw [get_of_all rfl hkey]
    rfl
  have hobject : (buildingFields.prune (.object entries)).isObject = true := by
    rw [Projection.prune_object rfl]
    rfl
  change (buildingTable reader (DataView.ofFiles root) >>= fun table => skillsIn table id) = _
  rw [hload]
  change skillsIn (buildingFields.prune (.object entries)) id = _
  rw [skillsIn, hobject, hfield "chars" rfl, hfield "buffs" rfl]
  rfl

theorem buildingSkillsFor_database (htable : Table reader db root "building_data" entries) (id : String) :
    ∃ all, (∀ key, all.lookup key =
        if key ∈ (baseEntry entries id).elim [] buffIds then (entriesIn entries "buffs").lookup key else none) ∧
      buildingSkillsFor reader (DataView.ofDatabase root db) id =
        .ok (((baseEntry entries id).elim [] slotsOf).filterMap (slotSkill all)) := by
  have hchars := htable.bucket (by decide) isTable_building "chars" (by decide)
  have hbuffs := htable.bucket (by decide) isTable_building "buffs" (by decide)
  have hentry : ∀ found : Option (JsonValue φ), ((found.map (Prod.mk id)).toList).lookup id = found := by
    intro found
    cases found <;> simp
  obtain ⟨all, hload, hloaded⟩ := foldlM_loadNamed "buffId" (fun key => hbuffs.holds.entity hbuffs.rereads key)
    (((baseEntry entries id).elim [] slotsOf).flatMap dataOf) (loaded_nil _)
  rw [Fallible.foldlM_flatMap] at hload
  have hids : idsOf "buffId" (((baseEntry entries id).elim [] slotsOf).flatMap dataOf) =
      (baseEntry entries id).elim [] buffIds := by
    cases baseEntry entries id <;> rfl
  refine ⟨all, fun key => ?_, ?_⟩
  · rw [hloaded.lookup, List.nil_append, hids]
  · have hrows : buildingRows reader db id = .ok (.object
        [("chars", .object ((baseEntry entries id).map (Prod.mk id)).toList), ("buffs", .object all)]) := by
      have hmap := hchars.holds.entityMap_key hchars.nodup hchars.rereads id
      rw [buildingRows, hmap]
      change (List.foldlM (fun buffs slot => (dataOf slot).foldlM (loadBuff reader db) buffs) []
        ((List.lookup id ((baseEntry entries id).map (Prod.mk id)).toList).elim [] slotsOf) >>= _) = _
      rw [hentry]
      exact congrArg (· >>= _) hload
    change (buildingRows reader db id >>= fun table => skillsIn table id) = _
    rw [hrows]
    change Except.ok (((List.lookup id ((baseEntry entries id).map (Prod.mk id)).toList).elim [] slotsOf).filterMap
      (slotSkill all)) = _
    rw [hentry]

theorem sameSkills_iff (htable : Table reader db root "building_data" entries) (hexcel : filesComplete root = true)
    (id : String) :
    buildingSkillsFor reader (DataView.ofDatabase root db) id =
        buildingSkillsFor reader (DataView.ofFiles root) id ↔
      ∀ entry, baseEntry entries id = some entry → ¬ Unnamed entry (entriesIn entries "buffs") := by
  obtain ⟨all, hall, hdb⟩ := buildingSkillsFor_database htable id
  rw [hdb, buildingSkillsFor_files htable hexcel]
  cases hentry : baseEntry entries id with
  | none => simp
  | some entry =>
    rw [hentry] at hall
    rw [Except.ok.injEq]
    refine (slotSkills_eq_iff hall).trans ?_
    simp

theorem table_of_file (h : Published reader options db root files) {raw : List UInt8}
    (hfile : root.file "building_data.json" = some raw) (hraw : reader.serde.fromSlice raw = .ok (.object entries)) :
    Table reader db root "building_data" entries := by
  rcases h.table isTable_building with ⟨hnone, -⟩ | ⟨found, htable⟩
  · cases hnone.symm.trans hfile
  · obtain ⟨raw', hraw', hfound⟩ := htable.file
    cases hraw'.symm.trans hfile
    cases hfound.symm.trans hraw
    exact htable

/-- The skills that are read from the rows of a database are those of the whole table, exactly unless a
slot of the operator has an unnamed buff. -/
theorem buildingSkillsFor_agree_iff (h : Published reader options db root files)
    (hexcel : filesComplete root = true) {raw : List UInt8} (hfile : root.file "building_data.json" = some raw)
    (hraw : reader.serde.fromSlice raw = .ok (.object entries)) (id : String) :
    buildingSkillsFor reader (DataView.ofDatabase root db) id =
        buildingSkillsFor reader (DataView.ofFiles root) id ↔
      ∀ entry, baseEntry entries id = some entry → ¬ Unnamed entry (entriesIn entries "buffs") :=
  sameSkills_iff (table_of_file h hfile hraw) hexcel id

/-- The entries of the base in the sample. -/
def sampleBase : List (String × JsonValue JsNumber) := (sampleTables.lookup "building_data").getD []

theorem mem_sampleBase : ("building_data", sampleBase) ∈ sampleTables := by
  simp [sampleBase, sampleTables, List.lookup]

theorem buildingSkillsFor_agree_iff_sample : ∃ db,
    buildingSkillsFor sampleReader (DataView.ofDatabase sampleRoot db) "char_1" =
        buildingSkillsFor sampleReader (DataView.ofFiles sampleRoot) "char_1" ↔
      ∀ entry, baseEntry sampleBase "char_1" = some entry → ¬ Unnamed entry (entriesIn sampleBase "buffs") := by
  obtain ⟨db, h⟩ := published_sample
  exact ⟨db, buildingSkillsFor_agree_iff h filesComplete_sample rfl (fromSlice_sample mem_sampleBase) "char_1"⟩

end Agreement

end PrtsMcp.OperatorBuilding
