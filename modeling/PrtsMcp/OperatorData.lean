import PrtsMcp.CompiledSources
import PrtsMcp.IndexedMap
import PrtsMcp.JsonText
import PrtsMcp.Listings
import PrtsMcp.ParsedValues

/-!
# Operator data

Views of the game data, over the files of a directory or over a compiled database, and the tables,
names, archives and voice lines of operators in either.
-/
namespace PrtsMcp.OperatorData

open CompiledEntities CompiledSources
open Listings (excelMissingMessage)
open Projected (Projection parseValue)

variable {φ : Type}

/-! ## Views -/

/-- The directory of the game data tables: where its files are shown, and what is in them. -/
structure ExcelRoot where
  shown : String → String
  file : String → Option (List UInt8)

structure DataView where
  excelRoot : Option ExcelRoot
  database : Option Database

/-- `DataView::from_database` -/
def DataView.ofDatabase (root : ExcelRoot) (db : Database) : DataView :=
  ⟨if db.metadata "excel_available" = some "1" then some root else none, some db⟩

/-- `files_complete` -/
def filesComplete (root : ExcelRoot) : Bool := operatorFiles.all fun path => (root.file path).isSome

/-- The view of a directory, as `json::resolve_view` finds it. -/
def DataView.ofFiles (root : ExcelRoot) : DataView := ⟨if filesComplete root then some root else none, none⟩

/-- What texts and blobs are read with, and the errors of texts that are no UTF-8. -/
structure Reader (φ : Type) where
  serde : Serde φ
  codec : Codec
  utf8Error : List UInt8 → String

/-- `DirectoryStore` -/
structure ExcelStore where
  root : ExcelRoot
  database : Option Database

def DataView.excelStore (view : DataView) : Option ExcelStore := view.excelRoot.map fun root => ⟨root, view.database⟩

namespace ExcelStore

variable (reader : Reader φ) (store : ExcelStore)

/-- `exists`, for a path that is safe as it stands. -/
def has (path : String) : Bool :=
  match store.database with
  | some db => db.has "excel" path
  | none => (store.root.file path).isSome

def readText (path : String) : Except String String :=
  match store.database with
  | some db => do
    let bytes ← db.raw reader.codec "excel" path
    Fallible.okOr (reader.utf8Error bytes) (StoryBlocks.fromUtf8 bytes)
  | none => do
    let bytes ← Fallible.okOr s!"Dataset file not found: {path}" (store.root.file path)
    Fallible.okOr "stream did not contain valid UTF-8" (StoryBlocks.fromUtf8 bytes)

variable [Projected.Doubles φ]

def readJsonProjected (path : String) (p : Projection) : Except String (JsonValue φ) := do
  let text ← store.readText reader path
  (Projected.fromStr p.read reader.serde.parser text).mapError fun e => s!"JSON parse failure in {path}: {e}"

end ExcelStore

/-! ## Tables -/

def panelData : Projection :=
  .fields [("maxHp", .all), ("atk", .all), ("def", .all), ("magicResistance", .all), ("cost", .all),
    ("blockCnt", .all), ("attackSpeed", .all), ("baseAttackTime", .all), ("respawnTime", .all)]

def attributeFrame : Projection := .fields [("level", .all), ("data", panelData)]

def phaseEntry : Projection := .fields [("maxLevel", .all), ("attributesKeyFrames", .elements attributeFrame)]

def talentCandidate : Projection :=
  .fields [("name", .all), ("description", .all), ("requiredPotentialRank", .all),
    ("unlockCondition", .fields [("phase", .all), ("level", .all)])]

def talentSlot : Projection := .fields [("candidates", .elements talentCandidate)]

def skillRef : Projection := .fields [("skillId", .all)]

def potentialRank : Projection := .fields [("description", .all)]

def characterEntry : Projection :=
  .fields [("name", .all), ("displayNumber", .all), ("appellation", .all), ("rarity", .all),
    ("profession", .all), ("subProfessionId", .all), ("position", .all), ("nationId", .all), ("groupId", .all),
    ("teamId", .all), ("tagList", .all), ("description", .all), ("itemUsage", .all), ("itemDesc", .all),
    ("itemObtainApproach", .all), ("talents", .elements talentSlot), ("skills", .elements skillRef),
    ("phases", .elements phaseEntry), ("favorKeyFrames", .elements attributeFrame),
    ("potentialRanks", .elements potentialRank)]

def operatorFileError (label : String) (store : ExcelStore) (file : String) : String :=
  label ++ "数据文件不存在：" ++ store.root.shown file ++
    "。数据目录可能为空，或挂载路径有误（GAMEDATA_PATH 应指向游戏数据根目录）。"

section Tables

variable [Projected.Doubles φ] (reader : Reader φ) (view : DataView)

/-- A table as it is read the first time; later reads of a view give the same. -/
def loadExcelTable (file label : String) (p : Projection) : Except String (JsonValue φ) :=
  match view.excelStore with
  | none => .error ("__missing__" ++ label)
  | some store =>
    if store.has file then store.readJsonProjected reader file p
    else .error (operatorFileError label store file)

def characterTable : Except String (JsonValue φ) :=
  loadExcelTable reader view "character_table.json" "干员" (.values characterEntry)

def handbookTable : Except String (JsonValue φ) :=
  loadExcelTable reader view "handbook_info_table.json" "干员" .all

def charwordTable : Except String (JsonValue φ) :=
  loadExcelTable reader view "charword_table.json" "干员" .all

def characterFor (id : Option String) : Except String (JsonValue φ) :=
  match view.database with
  | some db =>
    (db.tables.entityMap reader.serde "character_table" "" (some (id.getD "__absent__")) none).map .object
  | none => characterTable reader view

def handbookFor (id : String) : Except String (JsonValue φ) :=
  match view.database with
  | some db =>
    (db.tables.entityMap reader.serde "handbook_info_table" "handbookDict" (some id) none).map fun map =>
      .object [("handbookDict", .object map)]
  | none => handbookTable reader view

def charwordFor (id : String) : Except String (JsonValue φ) :=
  match view.database with
  | some db =>
    (db.tables.entityMap reader.serde "charword_table" "charWords" none (some id)).map fun map =>
      .object [("charWords", .object map)]
  | none => charwordTable reader view

/-- The row that a value names under a key, if there is one. -/
def loadNamed (db : Database) (dataset bucket idKey : String) (loaded : List (String × JsonValue φ))
    (value : JsonValue φ) : Except String (List (String × JsonValue φ)) :=
  match strOf value idKey with
  | none => .ok loaded
  | some id => (db.tables.entity reader.serde dataset bucket id).map fun found =>
    found.elim loaded fun row => OrderedMap.insert id row loaded

/-! ## Names -/

/-- The last id of each name, where the name came first. -/
def foldNames (names : List (String × String)) : List (String × String) :=
  (names.foldl (fun folded entry => folded.insert entry.1 entry.2) IndexedMap.empty).entries

def nameToCharId : Except String (List (String × String)) :=
  match view.database with
  | some db => .ok (db.tables.namesOf "character_table")
  | none => do
    let table ← characterTable reader view
    return foldNames ((table.asObject.getD []).filterMap operatorName)

def resolveCharId (name : String) : Except String (Option String) :=
  match view.database with
  | some db => .ok (db.tables.nameId "character_table" name)
  | none => do
    let names ← nameToCharId reader view
    return (names.find? fun entry => entry.1 = name).map Prod.snd

def operatorNotFound (name : String) : String := s!"未找到干员 '{name}'。请使用游戏内中文名称（如'阿米娅'）。"

/-- The operator of a name, for all that is shown of operators. -/
def withOperator {α : Type} (excelPath name : String) (build : String → Except String α) : Except String α :=
  if view.excelRoot.isNone then .error (excelMissingMessage "干员" excelPath)
  else do
    match ← resolveCharId reader view name with
    | some id => build id
    | none => throw (operatorNotFound name)

end Tables

/-! ## Archives and voice lines -/

/-- The answer of a tool is its text or the message of its error. -/
def answer (result : Except String String) : String :=
  match result with
  | .ok text => text
  | .error message => message

def arrayOf (value : JsonValue φ) (key : String) : List (JsonValue φ) :=
  ((value.get key).bind JsonValue.asArray).getD []

def archiveSection (story : JsonValue φ) : Option String :=
  let texts := ((arrayOf story "stories").filterMap fun s => strOf s "storyText").filter (· ≠ "")
  if texts = [] then none
  else some ("### " ++ (strOf story "storyTitle").getD "" ++ "\n" ++ "\n".intercalate texts)

def voiceLine (id : String) (entry : JsonValue φ) : Option String :=
  (strOf entry "voiceText").bind fun text =>
    if strOf entry "charId" = some id then
      some ("**" ++ (strOf entry "voiceTitle").getD "未知" ++ "**: " ++ text)
    else none

section Texts

variable [Projected.Doubles φ] (reader : Reader φ) (view : DataView)

def operatorArchives (name id : String) : Except String String := do
  let handbook ← handbookFor reader view id
  match ((handbook.get "handbookDict").bind JsonValue.asObject).bind fun d => d.lookup id with
  | none => throw s!"干员 '{name}' 暂无档案数据。"
  | some entry =>
    let sections := (arrayOf entry "storyTextAudio").filterMap archiveSection
    if sections = [] then throw s!"干员 '{name}' 档案内容为空。"
    return s!"# {name} - 干员档案\n\n" ++ "\n\n".intercalate sections

def getOperatorArchives (excelPath name : String) : String :=
  answer (withOperator reader view excelPath name (operatorArchives reader view name))

def operatorVoicelines (name id : String) : Except String String := do
  let charwords ← charwordFor reader view id
  let words := ((charwords.get "charWords").bind JsonValue.asObject).getD []
  let lines := words.filterMap fun entry => voiceLine id entry.2
  if lines = [] then throw s!"干员 '{name}' 暂无语音数据。"
  return s!"# {name} - 语音记录\n\n" ++ "\n".intercalate lines

def getOperatorVoicelines (excelPath name : String) : String :=
  answer (withOperator reader view excelPath name (operatorVoicelines reader view name))

end Texts

/-! ## A directory and what is compiled from it -/

/-- The directory holds the game data tables of the input. -/
def Mirrors (files : List SourceFile) (root : ExcelRoot) : Prop :=
  ∀ path raw, root.file path = some raw ↔ ∃ file ∈ files, file.key = ("excel", path) ∧ file.raw = raw

/-- The values that are kept in the rows of a table are read as themselves. -/
structure RereadsRows [Projected.Doubles φ] (serde : Serde φ) (dataset : String)
    (entries : List (String × JsonValue φ)) : Prop where
  entry : direct.contains dataset = true → ∀ entry ∈ entries, serde.Rereads entry.2
  bucket : direct.contains dataset = false → ∀ bucket, ∀ entry ∈ entriesIn entries bucket, serde.Rereads entry.2

/-- A database compiled from an input, and a directory with the tables of the input. -/
structure Published [Projected.Doubles φ] (reader : Reader φ) (options : Options) (db : Database)
    (root : ExcelRoot) (files : List SourceFile) : Prop where
  input : inputFiles options = .ok files
  compiled : ∃ version, captureSources reader.serde reader.codec version options = .ok db
  separates : reader.codec.Separates files
  mirrors : Mirrors files root
  rereads : ∀ file ∈ files, ∀ dataset, datasetOf file.ns file.path = some dataset → ∀ entries,
    rootOf reader.serde file.ns file.path file.raw = .ok entries → RereadsRows reader.serde dataset entries

/-- A table of the directory, its entries, and the rows compiled from them. -/
structure Table [Projected.Doubles φ] (reader : Reader φ) (db : Database) (root : ExcelRoot) (dataset : String)
    (entries : List (String × JsonValue φ)) : Prop where
  file : ∃ raw, root.file (dataset ++ ".json") = some raw ∧ reader.serde.fromSlice raw = .ok (.object entries)
  rows : db.tables.of dataset = CompiledEntities.compiled reader.serde dataset entries
  rereads : RereadsRows reader.serde dataset entries
  parsed : (JsonValue.object entries).Parsed

section Agreement

variable [Projected.Doubles φ] {reader : Reader φ} {options : Options} {db : Database} {root : ExcelRoot}
variable {files : List SourceFile} {dataset : String} {entries : List (String × JsonValue φ)}

theorem fromSlice_eq_ok {serde : Serde φ} {raw : List UInt8} {v : JsonValue φ} (h : serde.fromSlice raw = .ok v) :
    ∃ text, StoryBlocks.fromUtf8 raw = some text ∧ serde.fromStr text = .ok v := by
  unfold Serde.fromSlice at h
  cases htext : StoryBlocks.fromUtf8 raw with
  | none =>
    rw [htext] at h
    cases h
  | some text =>
    rw [htext] at h
    exact ⟨text, rfl, h⟩

theorem rootOf_eq_ok {serde : Serde φ} {ns path : String} {raw : List UInt8}
    (h : rootOf serde ns path raw = .ok entries) : serde.fromSlice raw = .ok (.object entries) := by
  obtain ⟨v, hv, h⟩ := Fallible.bind_eq_ok h
  rw [Fallible.mapError_eq_ok] at hv
  rw [Fallible.okOr_eq_ok] at h
  cases v with
  | object fields =>
    cases h
    exact hv
  | null | bool | number | string | array => cases h

/-- A table is in the directory and in the database, or in neither. -/
theorem Published.table (h : Published reader options db root files) (ht : IsTable dataset) :
    (root.file (dataset ++ ".json") = none ∧ db.tables.of dataset = .empty) ∨
      ∃ entries, Table reader db root dataset entries := by
  obtain ⟨version, hcompiled⟩ := h.compiled
  obtain ⟨files', kept, hfiles, hrun, -, rfl⟩ := captureSources_eq_ok.mp hcompiled
  obtain rfl : files' = files := Except.ok.inj (hfiles.symm.trans h.input)
  have htabled := tabled_of_addFiles ht hrun
  by_cases hhas : Has files' "excel" (dataset ++ ".json")
  · obtain ⟨first, hfirst, hkey, entries, hroot, hrows⟩ := htabled.present hhas
    obtain ⟨hns, hpath⟩ : first.ns = "excel" ∧ first.path = dataset ++ ".json" := by
      simpa [SourceFile.key] using hkey
    have hread := rootOf_eq_ok hroot
    obtain ⟨text, -, htext⟩ := fromSlice_eq_ok hread
    refine .inr ⟨entries, ⟨first.raw, (h.mirrors _ _).mpr ⟨first, hfirst, hkey, rfl⟩, hread⟩, hrows, ?_,
      parsed_fromStr htext⟩
    refine h.rereads first hfirst dataset ?_ entries ?_
    · rw [hns, hpath, datasetOf_table ht]
    · rwa [hns, hpath]
  · refine .inl ⟨?_, htabled.absent hhas⟩
    rw [Option.eq_none_iff_forall_ne_some]
    intro raw hraw
    obtain ⟨file, hfile, hkey, -⟩ := (h.mirrors _ _).mp hraw
    exact hhas ⟨file, hfile, hkey⟩

theorem Published.file_isSome (h : Published reader options db root files) (path : String) :
    (root.file path).isSome = true ↔ Has files "excel" path := by
  rw [Option.isSome_iff_exists]
  constructor
  · rintro ⟨raw, hraw⟩
    obtain ⟨file, hfile, hkey, -⟩ := (h.mirrors path raw).mp hraw
    exact ⟨file, hfile, hkey⟩
  · rintro ⟨file, hfile, hkey⟩
    exact ⟨file.raw, (h.mirrors path file.raw).mpr ⟨file, hfile, hkey, rfl⟩⟩

theorem Published.has_iff (h : Published reader options db root files) (path : String) :
    db.has "excel" path = true ↔ (root.file path).isSome = true := by
  obtain ⟨version, hcompiled⟩ := h.compiled
  obtain ⟨files', kept, hfiles, hrun, -, rfl⟩ := captureSources_eq_ok.mp hcompiled
  obtain rfl : files' = files := Except.ok.inj (hfiles.symm.trans h.input)
  have harchived := (archived_empty reader.serde reader.codec).addAll hrun
  rw [h.file_isSome]
  exact harchived.has_iff

/-- Both views have the game data, or neither. -/
theorem Published.excelRoot (h : Published reader options db root files) :
    (DataView.ofDatabase root db).excelRoot = (DataView.ofFiles root).excelRoot := by
  have hflag : db.metadata "excel_available" = some "1" ↔ filesComplete root = true := by
    obtain ⟨version, hcompiled⟩ := h.compiled
    obtain ⟨files', kept, hfiles, hrun, -, rfl⟩ := captureSources_eq_ok.mp hcompiled
    obtain rfl : files' = files := Except.ok.inj (hfiles.symm.trans h.input)
    have harchived := (archived_empty reader.serde reader.codec).addAll hrun
    have hdigit : ∀ b, some (digit b) = some "1" ↔ b = true := by decide
    have hmetadata : (kept.describe version options).metadata "excel_available" =
        some (digit (flag kept "excel" operatorFiles)) := rfl
    rw [hmetadata, hdigit, harchived.flag_iff, filesComplete, List.all_eq_true]
    exact forall₂_congr fun path _ => (h.file_isSome path).symm
  simp only [DataView.ofDatabase, DataView.ofFiles, hflag]

/-- The table as the directory gives it. -/
theorem Table.load (h : Table reader db root dataset entries) (hexcel : filesComplete root = true)
    (label : String) (p : Projection) :
    loadExcelTable reader (DataView.ofFiles root) (dataset ++ ".json") label p = .ok (p.prune (.object entries)) := by
  obtain ⟨raw, hraw, hread⟩ := h.file
  obtain ⟨text, htext, hparsed⟩ := fromSlice_eq_ok hread
  have hprune := (Projected.fromStr_agree reader.serde.parser text p).2
  rw [show Projected.fromStr parseValue reader.serde.parser text = .ok (.object entries) from hparsed] at hprune
  simp [loadExcelTable, DataView.excelStore, DataView.ofFiles, hexcel, ExcelStore.has, ExcelStore.readText,
    ExcelStore.readJsonProjected, hraw, htext, hprune, Fallible.okOr, bind, Except.bind, Except.mapError, Except.map]

/-! ## Names of both -/

theorem Published.exists_table (h : Published reader options db root files) (hexcel : filesComplete root = true)
    (ht : IsTable dataset) (hrequired : dataset ++ ".json" ∈ operatorFiles) :
    ∃ entries, Table reader db root dataset entries := by
  rcases h.table ht with ⟨hnone, -⟩ | htable
  · have hthere := List.all_eq_true.mp hexcel _ hrequired
    rw [hnone] at hthere
    cases hthere
  · exact htable

theorem isTable_character : IsTable "character_table" := ⟨by decide, by decide⟩

theorem isTable_handbook : IsTable "handbook_info_table" := ⟨by decide, by decide⟩

theorem isTable_charword : IsTable "charword_table" := ⟨by decide, by decide⟩

omit [Projected.Doubles φ] in
/-- A field that a projection keeps whole. -/
theorem get_of_all {p : Projection} (hp : p.isDiscard = false) {key : String} (hfield : p.field key = .all)
    (v : JsonValue φ) : (p.prune v).get key = v.get key := by
  rw [Projection.get_prune hp (by rw [hfield]; rfl), hfield]
  cases v.get key <;> simp [Projection.prune_all]

omit [Projected.Doubles φ] in
theorem prune_values {child : Projection} (hchild : child.isDiscard = false) (entries : List (String × JsonValue φ)) :
    (Projection.values child).prune (.object entries) = .object (OrderedMap.mapValues child.prune entries) := by
  have hfield : ∀ key, (Projection.values child).pruneField key = fun a : JsonValue φ => some (child.prune a) := by
    intro key
    funext a
    rw [Projection.pruneField, Projection.field, hchild]
    rfl
  rw [Projection.prune_object rfl]
  simp [OrderedMap.filterValues, OrderedMap.mapValues, hfield]

omit [Projected.Doubles φ] in
theorem operatorName_prune (entry : String × JsonValue φ) :
    operatorName (entry.1, characterEntry.prune entry.2) = operatorName entry := by
  simp only [operatorName, strOf]
  rw [get_of_all rfl (by rfl)]

theorem foldNames_eq (names : List (String × String)) : foldNames names = OrderedMap.ofEntries names := by
  have hfold : ∀ m : IndexedMap String String,
      (names.foldl (fun folded entry => folded.insert entry.1 entry.2) m).entries =
        names.foldl (fun map entry => OrderedMap.insert entry.1 entry.2 map) m.entries := by
    induction names with
    | nil => exact fun _ => rfl
    | cons entry names ih =>
      intro m
      rw [List.foldl_cons, List.foldl_cons, ih, IndexedMap.entries_insert]
  exact hfold .empty

theorem find?_key (map : List (String × String)) (name : String) :
    (map.find? fun entry => entry.1 = name).map Prod.snd = map.lookup name := by
  induction map with
  | nil => rfl
  | cons entry map ih =>
    rw [List.find?_cons, List.lookup_cons]
    by_cases hname : entry.1 = name
    · simp [hname]
    · rw [beq_false_of_ne fun heq => hname heq.symm, decide_eq_false hname]
      exact ih

theorem Table.load_character (h : Table reader db root "character_table" entries) (hexcel : filesComplete root = true) :
    characterTable reader (DataView.ofFiles root) = .ok (.object (OrderedMap.mapValues characterEntry.prune entries)) := by
  rw [← prune_values rfl]
  exact h.load hexcel _ _

theorem Table.names (h : Table reader db root "character_table" entries) (hexcel : filesComplete root = true) :
    nameToCharId reader (DataView.ofFiles root) = .ok (OrderedMap.ofEntries (entries.filterMap operatorName)) := by
  have hnames : (OrderedMap.mapValues characterEntry.prune entries).filterMap operatorName =
      entries.filterMap operatorName := by
    rw [OrderedMap.mapValues, List.filterMap_map]
    exact congrFun (congrArg _ (funext operatorName_prune)) entries
  have hnone : (DataView.ofFiles root).database = none := rfl
  rw [nameToCharId, hnone]
  simp only [h.load_character hexcel, bind, Except.bind, pure, Except.pure, JsonValue.asObject, Option.getD_some,
    hnames, foldNames_eq]

/-- Both views have the same names with the same ids, in the same order. -/
theorem Published.sameNames (h : Published reader options db root files) (hexcel : filesComplete root = true) :
    nameToCharId reader (DataView.ofDatabase root db) = nameToCharId reader (DataView.ofFiles root) := by
  obtain ⟨entries, htable⟩ := h.exists_table hexcel isTable_character (by decide)
  rw [htable.names hexcel, ← namesOf_compiled reader.serde, ← htable.rows, Tables.namesOf_of]
  rfl

theorem Published.sameId (h : Published reader options db root files) (hexcel : filesComplete root = true)
    (name : String) :
    resolveCharId reader (DataView.ofDatabase root db) name = resolveCharId reader (DataView.ofFiles root) name := by
  obtain ⟨entries, htable⟩ := h.exists_table hexcel isTable_character (by decide)
  have hfiles : resolveCharId reader (DataView.ofFiles root) name =
      .ok ((OrderedMap.ofEntries (entries.filterMap operatorName)).lookup name) := by
    have hnone : (DataView.ofFiles root).database = none := rfl
    rw [resolveCharId, hnone]
    simp only [htable.names hexcel, bind, Except.bind, pure, Except.pure, find?_key]
  rw [hfiles, ← nameId_compiled reader.serde, ← htable.rows, Tables.nameId_of]
  rfl

omit [Projected.Doubles φ] in
theorem arrayOf_elements {p child : Projection} (hp : p.isDiscard = false) {key : String}
    (hfield : p.field key = .elements child) (v : JsonValue φ) :
    arrayOf (p.prune v) key = (arrayOf v key).map child.prune := by
  rw [arrayOf, arrayOf, Projection.get_prune hp (by rw [hfield]; rfl), hfield]
  cases v.get key with
  | none => rfl
  | some value =>
    cases value with
    | array items =>
      rw [Option.map_some, Projection.prune_array rfl]
      rfl
    | null => rw [Option.map_some, Projection.prune]; rfl
    | bool | number | string => rw [Option.map_some, Projection.prune]; rfl
    | object fields =>
      rw [Option.map_some, Projection.prune_object rfl]
      rfl

omit [Projected.Doubles φ] in
theorem strOf_of_all {p : Projection} (hp : p.isDiscard = false) {key : String} (hfield : p.field key = .all)
    (v : JsonValue φ) : strOf (p.prune v) key = strOf v key := by
  rw [strOf, strOf, get_of_all hp hfield]

omit [Projected.Doubles φ] in
theorem isObject_prune {p : Projection} (hp : p.isDiscard = false) (v : JsonValue φ) :
    (p.prune v).isObject = v.isObject :=
  Projection.prune_shape hp (fun _ _ => rfl) (fun _ _ => rfl) v

/-! ## Rows by name -/

/-- The ids that values name under a key. -/
def idsOf (idKey : String) (values : List (JsonValue φ)) : List String := values.filterMap fun v => strOf v idKey

/-- A map of those of the ids that there are. -/
structure Loaded (source : List (String × JsonValue φ)) (ids : List String)
    (loaded : List (String × JsonValue φ)) : Prop where
  lookup : ∀ id, loaded.lookup id = if id ∈ ids then source.lookup id else none
  nodup : (loaded.map Prod.fst).Nodup

omit [Projected.Doubles φ] in
theorem loaded_nil (source : List (String × JsonValue φ)) : Loaded source [] [] := ⟨by simp, List.nodup_nil⟩

omit [Projected.Doubles φ] in
theorem Loaded.insert {source loaded : List (String × JsonValue φ)} {ids : List String} (h : Loaded source ids loaded)
    (key : String) :
    Loaded source (ids ++ [key]) ((source.lookup key).elim loaded fun row => OrderedMap.insert key row loaded) := by
  cases hfound : source.lookup key with
  | none =>
    refine ⟨fun id => ?_, h.nodup⟩
    by_cases hid : id = key
    · subst hid
      simp [h.lookup, hfound]
    · simp [h.lookup, hid]
  | some row =>
    refine ⟨fun id => ?_, OrderedMap.nodup_insert h.nodup key row⟩
    by_cases hid : id = key
    · subst hid
      simp [hfound, OrderedMap.lookup_insert_self]
    · simp [h.lookup, hid, OrderedMap.lookup_insert_of_ne hid]

theorem foldlM_loadNamed {bucket : String} {source : List (String × JsonValue φ)} (idKey : String)
    (hread : ∀ id, db.tables.entity reader.serde dataset bucket id = .ok (source.lookup id))
    (values : List (JsonValue φ)) {ids : List String} {loaded : List (String × JsonValue φ)}
    (h : Loaded source ids loaded) :
    ∃ all, values.foldlM (loadNamed reader db dataset bucket idKey) loaded = .ok all ∧
      Loaded source (ids ++ idsOf idKey values) all := by
  induction values generalizing ids loaded with
  | nil => exact ⟨loaded, rfl, by simpa [idsOf] using h⟩
  | cons value values ih =>
    rw [List.foldlM_cons]
    cases hid : strOf value idKey with
    | none =>
      have hids : idsOf idKey (value :: values) = idsOf idKey values := List.filterMap_cons_none hid
      obtain ⟨all, hall, hloaded⟩ := ih h
      refine ⟨all, ?_, hids ▸ hloaded⟩
      rw [loadNamed, hid]
      exact hall
    | some key =>
      have hids : idsOf idKey (value :: values) = key :: idsOf idKey values := List.filterMap_cons_some hid
      obtain ⟨all, hall, hloaded⟩ := ih (h.insert key)
      refine ⟨all, ?_, by simpa [hids] using hloaded⟩
      rw [loadNamed, hid]
      change ((db.tables.entity reader.serde dataset bucket key).map _ >>= _) = _
      rw [hread]
      exact hall

/-! ## Texts of both -/

/-- The entries of a field of a table are a bucket of the database. -/
structure Bucket (reader : Reader φ) (db : Database) (dataset bucket : String)
    (entries : List (String × JsonValue φ)) : Prop where
  holds : db.tables.Holds reader.serde dataset bucket nestedAux entries
  nodup : (entries.map Prod.fst).Nodup
  rereads : ∀ entry ∈ entries, reader.serde.Rereads entry.2

omit [Projected.Doubles φ] in
theorem object_of_entriesIn {bucket : String} {field : String × JsonValue φ}
    (hfield : field ∈ entriesIn entries bucket) :
    ∃ fields, (bucket, .object fields) ∈ entries ∧ entriesIn entries bucket = fields := by
  cases hlookup : entries.lookup bucket with
  | none =>
    rw [entriesIn, hlookup] at hfield
    cases hfield
  | some value =>
    obtain ⟨before, after, heq, -⟩ := List.lookup_eq_some_iff.mp hlookup
    cases value with
    | object fields => exact ⟨fields, by simp [heq], by simp [entriesIn, hlookup, JsonValue.asObject]⟩
    | null | bool | number | string | array =>
      rw [entriesIn, hlookup] at hfield
      cases hfield

theorem Table.bucket (h : Table reader db root dataset entries) (hdirect : direct.contains dataset = false)
    (ht : IsTable dataset) (bucket : String) (hbucket : bucket ≠ "") :
    Bucket reader db dataset bucket (entriesIn entries bucket) := by
  have hnodup : ((entriesIn entries bucket).map Prod.fst).Nodup := by
    cases hempty : entriesIn entries bucket with
    | nil => exact List.nodup_nil
    | cons field fields =>
      obtain ⟨inner, hmem, heq⟩ := object_of_entriesIn (hempty ▸ List.mem_cons_self)
      rw [← hempty, heq]
      exact (JsonValue.parsedFields_iff.mp h.parsed.2 _ hmem).1
  refine ⟨Tables.holds_of ?_, hnodup, h.rereads.bucket hdirect bucket⟩
  rw [h.rows]
  exact holds_bucket hdirect ht.single hbucket h.parsed.1 hnodup

omit [Projected.Doubles φ] in
theorem object_get (fields : List (String × JsonValue φ)) (key : String) :
    ((JsonValue.object fields).get key).bind JsonValue.asObject = (fields.lookup key).bind JsonValue.asObject := rfl

/-- Both views show the same archives. -/
theorem Published.sameArchives (h : Published reader options db root files) (hexcel : filesComplete root = true)
    (name id : String) :
    operatorArchives reader (DataView.ofDatabase root db) name id = operatorArchives reader (DataView.ofFiles root) name id := by
  obtain ⟨entries, htable⟩ := h.exists_table hexcel isTable_handbook (by decide)
  have hbucket := htable.bucket (by decide) isTable_handbook "handbookDict" (by decide)
  have hdb : handbookFor reader (DataView.ofDatabase root db) id = .ok (.object [("handbookDict",
      .object (((entriesIn entries "handbookDict").lookup id).map (Prod.mk id)).toList)]) := by
    have hmap := hbucket.holds.entityMap_key hbucket.nodup hbucket.rereads id
    change (db.tables.entityMap reader.serde "handbook_info_table" "handbookDict" (some id) none).map _ = _
    rw [hmap]
    rfl
  have hfiles : handbookFor reader (DataView.ofFiles root) id = .ok (.object entries) := by
    have hload := htable.load hexcel "干员" .all
    rw [Projection.prune_all] at hload
    exact hload
  have hentry : ∀ found : Option (JsonValue φ), ((found.map (Prod.mk id)).toList).lookup id = found := by
    intro found
    cases found <;> simp
  unfold operatorArchives
  simp only [hdb, hfiles, bind, Except.bind, JsonValue.get, List.lookup_cons_self, Option.bind_some,
    JsonValue.asObject, hentry]
  cases hlookup : (entries.lookup "handbookDict").bind JsonValue.asObject with
  | none => simp [entriesIn, hlookup]
  | some fields => simp [entriesIn, hlookup]

omit [Projected.Doubles φ] in
theorem nestedAux_of_voiceLine {id line : String} {entry : JsonValue φ} (h : voiceLine id entry = some line) :
    nestedAux entry = some id := by
  obtain ⟨text, -, h⟩ := Option.bind_eq_some_iff.mp h
  split at h
  · next hid =>
    obtain ⟨value, hvalue, hstr⟩ := Option.bind_eq_some_iff.mp hid
    rw [nestedAux, hvalue, Option.some_or]
    exact hstr
  · cases h

/-- Both views show the same voice lines: the rows selected by an operator have all of its lines. -/
theorem Published.sameVoicelines (h : Published reader options db root files) (hexcel : filesComplete root = true)
    (name id : String) :
    operatorVoicelines reader (DataView.ofDatabase root db) name id =
      operatorVoicelines reader (DataView.ofFiles root) name id := by
  obtain ⟨entries, htable⟩ := h.exists_table hexcel isTable_charword (by decide)
  have hbucket := htable.bucket (by decide) isTable_charword "charWords" (by decide)
  have hdb : charwordFor reader (DataView.ofDatabase root db) id = .ok (.object [("charWords",
      .object ((entriesIn entries "charWords").filter fun entry => nestedAux entry.2 = some id))]) := by
    have hmap := hbucket.holds.entityMap hbucket.nodup hbucket.rereads none (some id)
    change (db.tables.entityMap reader.serde "charword_table" "charWords" none (some id)).map _ = _
    rw [hmap]
    simp [Except.map]
  have hfiles : charwordFor reader (DataView.ofFiles root) id = .ok (.object entries) := by
    have hload := htable.load hexcel "干员" .all
    rw [Projection.prune_all] at hload
    exact hload
  have hlines : ((entriesIn entries "charWords").filter fun entry => nestedAux entry.2 = some id).filterMap
      (fun entry => voiceLine id entry.2) =
        (entriesIn entries "charWords").filterMap fun entry => voiceLine id entry.2 := by
    rw [List.filterMap_filter]
    congr 1
    funext entry
    cases hline : voiceLine id entry.2 with
    | none => simp
    | some line => simp [nestedAux_of_voiceLine hline]
  unfold operatorVoicelines
  simp only [hdb, hfiles, bind, Except.bind, JsonValue.get, List.lookup_cons_self, Option.bind_some,
    JsonValue.asObject, Option.getD_some, hlines]
  rfl

/-- The entry of an operator in a table of characters. -/
def entryOf (table : JsonValue φ) (id : String) : Option (JsonValue φ) := table.asObject.bind fun m => m.lookup id

theorem Table.bucket_direct (h : Table reader db root dataset entries) (hdirect : direct.contains dataset = true) :
    db.tables.Holds reader.serde dataset "" (strOf · "name") entries ∧ (entries.map Prod.fst).Nodup ∧
      ∀ entry ∈ entries, reader.serde.Rereads entry.2 := by
  refine ⟨Tables.holds_of ?_, h.parsed.1, h.rereads.entry hdirect⟩
  rw [h.rows]
  exact holds_direct hdirect h.parsed.1

/-- The entry of an operator is whole in the database, and pruned in the table of the directory. -/
theorem Published.character (h : Published reader options db root files) (hexcel : filesComplete root = true)
    (id : String) :
    ∃ info : Option (JsonValue φ), ∃ row table,
      characterFor reader (DataView.ofDatabase root db) (some id) = .ok row ∧ entryOf row id = info ∧
        characterFor reader (DataView.ofFiles root) (some id) = .ok table ∧
          entryOf table id = info.map characterEntry.prune := by
  obtain ⟨entries, htable⟩ := h.exists_table hexcel isTable_character (by decide)
  obtain ⟨hholds, hnodup, hread⟩ := htable.bucket_direct (by decide)
  refine ⟨entries.lookup id, .object ((entries.lookup id).map (Prod.mk id)).toList, _, ?_, ?_,
    htable.load_character hexcel, ?_⟩
  · change (db.tables.entityMap reader.serde "character_table" "" (some id) none).map _ = _
    rw [hholds.entityMap_key hnodup hread]
    rfl
  · change ((entries.lookup id).map (Prod.mk id)).toList.lookup id = entries.lookup id
    cases entries.lookup id <;> simp
  · change (OrderedMap.mapValues characterEntry.prune entries).lookup id = _
    exact Upserts.lookup_mapValues _ _ _

/-- What is built for the operator of a name is the same in both views if it is for every id. -/
theorem Published.withOperator_eq (h : Published reader options db root files) {α : Type}
    {build build' : String → Except String α} (hbuild : filesComplete root = true → ∀ id, build id = build' id)
    (excelPath name : String) :
    withOperator reader (DataView.ofDatabase root db) excelPath name build =
      withOperator reader (DataView.ofFiles root) excelPath name build' := by
  unfold withOperator
  rw [h.excelRoot]
  cases hexcel : filesComplete root with
  | false =>
    have hnone : (DataView.ofFiles root).excelRoot.isNone = true := by simp [DataView.ofFiles, hexcel]
    rw [hnone]
    rfl
  | true => rw [h.sameId hexcel, funext (hbuild hexcel)]

end Agreement

/-! ## A small release -/

open JsonValue in
/-- An operator, and the rows about it. -/
def sampleRows : List (String × JsonValue JsNumber) :=
  [("character", object [("name", string "甲"),
      ("phases", array [object [("maxLevel", number (.posInt 50)), ("attributesKeyFrames",
        array [object [("level", number (.posInt 1)), ("data", object [("maxHp", number (.posInt 100))])]])]]),
      ("skills", array [object [("skillId", string "s")]])]),
    ("handbook", object [("storyTextAudio", array [object [("storyTitle", string "履历"),
      ("stories", array [object [("storyText", string "文")]])]])]),
    ("charword", object [("charId", string "char_1"), ("voiceText", string "你好")]),
    ("base", object [("buffChar", array [object [("buffData",
      array [object [("buffId", string "e"), ("cond", object [("phase", string "PHASE_0")])]])]])]),
    ("buff", object [("buffName", string "贸易"), ("roomType", string "TRADING")]),
    ("skill", object [("levels", array [object [("name", string "击")]])])]

def sampleRow (row : String) : JsonValue JsNumber := (sampleRows.lookup row).getD .null

open JsonValue in
def sampleTables : List (String × List (String × JsonValue JsNumber)) :=
  [("character_table", [("char_1", sampleRow "character")]),
    ("handbook_info_table", [("handbookDict", object [("char_1", sampleRow "handbook")])]),
    ("charword_table", [("charWords", object [("w", sampleRow "charword")])]),
    ("story_review_table", []),
    ("building_data",
      [("chars", object [("char_1", sampleRow "base")]), ("buffs", object [("e", sampleRow "buff")])]),
    ("skill_table", [("s", sampleRow "skill")])]

/-- The compact text; there are no doubles in the sample. -/
def sampleText (v : JsonValue JsNumber) : String := String.ofList (JsonText.chars (fun _ => []) false 0 v)

def sampleValues : List (JsonValue JsNumber) :=
  sampleTables.map (.object ·.2) ++ sampleRows.map Prod.snd

def sampleParse (text : String) : Option (JsonValue JsNumber) :=
  (sampleValues.map fun v => (sampleText v, v)).lookup text

def sampleDigests : List String :=
  ["05f783974b7fe54a4e12f9a9b46dd934b5f0bdf75d92699b25c1bc700372363c",
    "d6c3554bc427892e096d0df1ba4ac04a9084dd42ef5af05aea4b93e66b67d996",
    "854901e725d3ebd42f9805225403fd0cb8104fce62ad8a46d39b0cf00379ce9b",
    "44136fa355b3678a1146ad16f7e8649e94fb4fc21fe77e8310c060f61caaff8a",
    "aefc28a4103626c67bb29f68d0b9b10da2e2b8aebdb1185983b228592a1ab1d7",
    "8c01c78120c9ee2a87d46573690b7709f340aefd020f56f7e6a9635c617ddca0"]

def tableText (entries : List (String × JsonValue JsNumber)) : String := sampleText (.object entries)

def sampleDigest (text : String) : String :=
  (((sampleTables.map fun table => tableText table.2).zip sampleDigests).lookup text).getD ""

/-- The parser, the printer and the digests on the texts of the sample. -/
def sampleReader : Reader JsNumber where
  serde := {
    parser := fun text => ((sampleParse text).elim (.fail "expected value") ofValue, .ok ())
    notUtf8 := fun _ => "invalid unicode code point"
    print := sampleText }
  codec := ⟨fun raw => (StoryBlocks.fromUtf8 raw).elim "" sampleDigest, id, .ok⟩
  utf8Error := fun _ => "invalid utf-8 sequence"

def samplePaths : List (String × List UInt8) :=
  sampleTables.map fun table => (table.1 ++ ".json", StoryBlocks.utf8Bytes (tableText table.2))

def sampleFiles : List SourceFile := samplePaths.map fun file => ⟨"excel", file.1, file.2⟩

def sampleOptions : Options where
  input := none
  excelZip := some (samplePaths.map fun file => ⟨excelPrefix ++ file.1, false, file.2⟩)
  levelsZip := none
  storyZip := none
  version := "v1"
  revision := 1
  allowIncomplete := true

def sampleRoot : ExcelRoot := ⟨id, fun path => samplePaths.lookup path⟩

theorem stripPrefix_append (pre s : String) : stripPrefix pre (pre ++ s) = some s := by
  rw [stripPrefix, String.toList_append, if_pos (List.isPrefixOf_iff_prefix.mpr (List.prefix_append _ _)),
    ← String.length_toList, List.drop_left, String.ofList_toList]

theorem inputFiles_sample : inputFiles sampleOptions = .ok sampleFiles := by
  have hexcel : (samplePaths.map fun file => ArchiveEntry.mk (excelPrefix ++ file.1) false file.2).mapM
      (archiveFile "excel" excelPrefix) = .ok sampleFiles := by
    refine Fallible.mapM_eq_ok_of_forall₂ ?_
    rw [sampleFiles, List.forall₂_map_left_iff, List.forall₂_map_right_iff, List.forall₂_same]
    intro file _
    rw [archiveFile, if_neg (by simp), stripPrefix_append]
    rfl
  have hrest : inputFiles sampleOptions = (samplePaths.map fun file =>
      ArchiveEntry.mk (excelPrefix ++ file.1) false file.2).mapM (archiveFile "excel" excelPrefix) >>= fun excel =>
        .ok (([] ++ excel) ++ [] ++ []) := rfl
  rw [hrest, hexcel]
  simp [bind, Except.bind]

/-- Each table of the sample with its file. -/
theorem mem_sampleFiles {file : SourceFile} : file ∈ sampleFiles ↔
    ∃ table ∈ sampleTables, file = ⟨"excel", table.1 ++ ".json", StoryBlocks.utf8Bytes (tableText table.2)⟩ := by
  simp [sampleFiles, samplePaths, eq_comm]

theorem separates_sample : sampleReader.codec.Separates sampleFiles := by
  have htexts : ∀ table ∈ sampleTables, ∀ other ∈ sampleTables,
      sampleDigest (tableText table.2) = sampleDigest (tableText other.2) →
        tableText table.2 = tableText other.2 := by decide +kernel
  have hsha256 : ∀ text, sampleReader.codec.sha256 (StoryBlocks.utf8Bytes text) = sampleDigest text := by
    intro text
    simp only [sampleReader, StoryBlocks.fromUtf8_utf8Bytes, Option.elim_some]
  intro file hfile other hother hsha
  obtain ⟨table, htable, rfl⟩ := mem_sampleFiles.mp hfile
  obtain ⟨table', htable', rfl⟩ := mem_sampleFiles.mp hother
  rw [hsha256, hsha256] at hsha
  rw [htexts table htable table' htable' hsha]

theorem parsed_sampleValues : ∀ v ∈ sampleValues, v.Parsed := by
  simp [sampleValues, sampleTables, sampleRow, sampleRows, JsonValue.Parsed, JsonValue.ParsedItems,
    JsonValue.ParsedFields, JsonNumber.Parsed, List.lookup]

theorem sampleParse_sampleText {v : JsonValue JsNumber} (h : v ∈ sampleValues) :
    sampleParse (sampleText v) = some v := by
  have hnodup : ((sampleValues.map fun v => (sampleText v, v)).map Prod.fst).Nodup := by
    decide +kernel
  have hmem : (sampleText v, v) ∈ sampleValues.map fun v => (sampleText v, v) := List.mem_map_of_mem h
  have hlookup := (Upserts.mem_iff_lookup hnodup).mp hmem
  rw [sampleParse]
  exact hlookup

/-- The values of the sample are read from their texts. -/
theorem rereads_sample {v : JsonValue JsNumber} (h : v ∈ sampleValues) : sampleReader.serde.Rereads v := by
  have hparse : parseValue (ofValue v : Projected.Document JsNumber String) = .ok v :=
    parseValue_ofValue v (parsed_sampleValues v h)
  simp only [Serde.Rereads, Serde.fromStr, Projected.fromStr, sampleReader, sampleParse_sampleText h,
    Option.elim_some, hparse, bind, Except.bind]
  rfl

theorem fromSlice_sample {table : String × List (String × JsonValue JsNumber)} (h : table ∈ sampleTables) :
    sampleReader.serde.fromSlice (StoryBlocks.utf8Bytes (tableText table.2)) = .ok (.object table.2) := by
  rw [Serde.fromSlice, StoryBlocks.fromUtf8_utf8Bytes]
  exact rereads_sample (List.mem_append_left _ (List.mem_map.mpr ⟨table, h, rfl⟩))

theorem rootOf_sample {table : String × List (String × JsonValue JsNumber)} (h : table ∈ sampleTables) (path : String) :
    rootOf sampleReader.serde "excel" path (StoryBlocks.utf8Bytes (tableText table.2)) = .ok table.2 := by
  rw [rootOf, fromSlice_sample h]
  rfl

theorem datasetOf_sample {table : String × List (String × JsonValue JsNumber)} (h : table ∈ sampleTables) :
    datasetOf "excel" (table.1 ++ ".json") = some table.1 := by
  have hall : ∀ dataset ∈ sampleTables.map Prod.fst, datasetOf "excel" (dataset ++ ".json") = some dataset := by
    decide
  exact hall _ (List.mem_map_of_mem h)

theorem consistent_sample : Consistent sampleReader.serde sampleFiles where
  safe file hfile := by
    obtain ⟨table, htable, rfl⟩ := mem_sampleFiles.mp hfile
    have hall : ∀ dataset ∈ sampleTables.map Prod.fst,
        normalize (dataset ++ ".json") = .ok (dataset ++ ".json") := by decide
    exact hall _ (List.mem_map_of_mem htable)
  captured file hfile := by
    obtain ⟨table, htable, rfl⟩ := mem_sampleFiles.mp hfile
    exact ⟨_, by rw [capture, datasetOf_sample htable, rootOf_sample htable]; rfl⟩
  agree file hfile other hother hkey := by
    obtain ⟨table, htable, rfl⟩ := mem_sampleFiles.mp hfile
    obtain ⟨table', htable', rfl⟩ := mem_sampleFiles.mp hother
    have hpath : table.1 ++ ".json" = table'.1 ++ ".json" := (key_eq hkey).2
    have hdataset := datasetOf_sample htable
    rw [hpath, datasetOf_sample htable'] at hdataset
    have hnodup : (sampleTables.map Prod.fst).Nodup := by decide
    rw [List.inj_on_of_nodup_map hnodup htable htable' (Option.some.inj hdataset).symm]

theorem mirrors_sample : Mirrors sampleFiles sampleRoot := by
  have hnodup : (samplePaths.map Prod.fst).Nodup := by
    rw [samplePaths, List.map_map]
    decide
  intro path raw
  change samplePaths.lookup path = some raw ↔ _
  rw [← show (path, raw) ∈ samplePaths ↔ samplePaths.lookup path = some raw from Upserts.mem_iff_lookup hnodup]
  simp [sampleFiles, SourceFile.key]

def IsSampleRow (v : JsonValue JsNumber) : Prop := v ∈ sampleRows.map Prod.snd

theorem isSampleRow (row : String) (h : row ∈ sampleRows.map Prod.fst) : IsSampleRow (sampleRow row) := by
  cases hlookup : sampleRows.lookup row with
  | none => exact absurd (hlookup ▸ Upserts.lookup_isSome_iff.mpr h) (by simp)
  | some v =>
    rw [sampleRow, hlookup]
    obtain ⟨before, after, heq, -⟩ := List.lookup_eq_some_iff.mp hlookup
    exact List.mem_map.mpr ⟨(row, v), by simp [heq], rfl⟩

theorem isSampleRow_direct : ∀ table ∈ sampleTables, direct.contains table.1 = true →
    ∀ entry ∈ table.2, IsSampleRow entry.2 := by
  have hcharacter : direct.contains "building_data" = false := by decide
  have hhandbook : direct.contains "handbook_info_table" = false := by decide
  have hcharword : direct.contains "charword_table" = false := by decide
  intro table htable hdirect entry hentry
  fin_cases htable
  · rw [List.mem_singleton.mp hentry]
    exact isSampleRow "character" (by decide)
  · cases hhandbook.symm.trans hdirect
  · cases hcharword.symm.trans hdirect
  · cases hentry
  · cases hcharacter.symm.trans hdirect
  · rw [List.mem_singleton.mp hentry]
    exact isSampleRow "skill" (by decide)

theorem isSampleRow_bucket : ∀ table ∈ sampleTables, direct.contains table.1 = false →
    ∀ bucket fields, (bucket, JsonValue.object fields) ∈ table.2 → ∀ field ∈ fields, IsSampleRow field.2 := by
  have hcharacter : direct.contains "character_table" = true := by decide
  have hskill : direct.contains "skill_table" = true := by decide
  intro table htable hdirect bucket fields hfields field hfield
  fin_cases htable
  · cases hcharacter.symm.trans hdirect
  · simp only [List.mem_singleton, Prod.mk.injEq, JsonValue.object.injEq] at hfields
    rw [hfields.2, List.mem_singleton] at hfield
    rw [hfield]
    exact isSampleRow "handbook" (by decide)
  · simp only [List.mem_singleton, Prod.mk.injEq, JsonValue.object.injEq] at hfields
    rw [hfields.2, List.mem_singleton] at hfield
    rw [hfield]
    exact isSampleRow "charword" (by decide)
  · cases hfields
  · simp only [List.mem_cons, Prod.mk.injEq, JsonValue.object.injEq, List.not_mem_nil, or_false] at hfields
    rcases hfields with ⟨-, rfl⟩ | ⟨-, rfl⟩
    · rw [List.mem_singleton.mp hfield]
      exact isSampleRow "base" (by decide)
    · rw [List.mem_singleton.mp hfield]
      exact isSampleRow "buff" (by decide)
  · cases hskill.symm.trans hdirect

theorem rereadsRows_sample {table : String × List (String × JsonValue JsNumber)} (h : table ∈ sampleTables) :
    RereadsRows sampleReader.serde table.1 table.2 := by
  have hrow : ∀ v, IsSampleRow v → sampleReader.serde.Rereads v :=
    fun v hv => rereads_sample (List.mem_append_right _ hv)
  refine ⟨fun hdirect entry hentry => hrow _ (isSampleRow_direct table h hdirect entry hentry), ?_⟩
  intro hdirect bucket entry hentry
  obtain ⟨fields, hmem, heq⟩ := object_of_entriesIn hentry
  exact hrow _ (isSampleRow_bucket table h hdirect bucket fields hmem entry (heq ▸ hentry))

/-- The sample is compiled, and its directory published with it. -/
theorem published_sample : ∃ db, Published sampleReader sampleOptions db sampleRoot sampleFiles := by
  obtain ⟨kept, hrun⟩ := (archived_empty sampleReader.serde sampleReader.codec).extends consistent_sample
  refine ⟨_, inputFiles_sample,
    ⟨"1.0.0", captureSources_eq_ok.mpr ⟨sampleFiles, kept, inputFiles_sample, hrun, nofun, rfl⟩⟩, separates_sample,
    mirrors_sample, ?_⟩
  intro file hfile dataset hdataset entries hroot
  obtain ⟨table, htable, rfl⟩ := mem_sampleFiles.mp hfile
  cases (rootOf_sample htable _).symm.trans hroot
  cases (datasetOf_sample htable).symm.trans hdataset
  exact rereadsRows_sample htable

theorem filesComplete_sample : filesComplete sampleRoot = true := by
  rw [filesComplete, List.all_eq_true]
  have hpaths : ∀ path ∈ operatorFiles, path ∈ samplePaths.map Prod.fst := by
    rw [samplePaths, List.map_map]
    decide
  exact fun path hpath => Upserts.lookup_isSome_iff.mpr (hpaths path hpath)

/-! ## Texts -/

section Texts

variable [Projected.Doubles φ] {reader : Reader φ} {options : Options} {db : Database} {root : ExcelRoot}
variable {files : List SourceFile}

/-- The archives and the voice lines of every operator read the same from a directory and from the
database compiled from it. -/
theorem texts_agree (h : Published reader options db root files) (excelPath name : String) :
    getOperatorArchives reader (DataView.ofDatabase root db) excelPath name =
        getOperatorArchives reader (DataView.ofFiles root) excelPath name ∧
      getOperatorVoicelines reader (DataView.ofDatabase root db) excelPath name =
        getOperatorVoicelines reader (DataView.ofFiles root) excelPath name :=
  ⟨congrArg answer (h.withOperator_eq (fun hexcel => h.sameArchives hexcel name) excelPath name),
    congrArg answer (h.withOperator_eq (fun hexcel => h.sameVoicelines hexcel name) excelPath name)⟩

theorem texts_agree_sample : ∃ db,
    getOperatorArchives sampleReader (DataView.ofDatabase sampleRoot db) "" "甲" =
        getOperatorArchives sampleReader (DataView.ofFiles sampleRoot) "" "甲" ∧
      getOperatorVoicelines sampleReader (DataView.ofDatabase sampleRoot db) "" "甲" =
        getOperatorVoicelines sampleReader (DataView.ofFiles sampleRoot) "" "甲" := by
  obtain ⟨db, h⟩ := published_sample
  exact ⟨db, texts_agree h "" "甲"⟩

end Texts

end PrtsMcp.OperatorData
