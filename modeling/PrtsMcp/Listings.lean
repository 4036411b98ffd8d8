import PrtsMcp.I64
import PrtsMcp.McpEndpoint
import PrtsMcp.StoryCharacter
import PrtsMcp.StoryListing

/-!
# Listings by offset

The stages, items, enemies and appearances of an enemy, filtered, sorted and cut at an offset.
-/
namespace PrtsMcp.Listings

open ActivityPages (Build)
open I64 (InRange narrow narrow_of_inRange)
open StoryCharacter (compareIds)
open StoryListing (Table)
open Zodish (Value Args)

/-! ## Messages -/

def excelMissingMessage (label excelPath : String) : String :=
  label ++ "数据暂不可用。容器启动时的 auto-sync 可能仍在进行中，请稍后重试；" ++
    "若持续出现此提示，请检查网络连接或提供 GITHUB_TOKEN 以降低限速风险。（当前同步目标路径：" ++ excelPath ++ "）"

def levelsMissingMessage (label levelsPath : String) : String :=
  label ++ "数据暂不可用。请等待服务器自动从 GitHub Release 同步 zh_CN-levels.zip 完成后重试。" ++
    "（当前同步目标路径：" ++ levelsPath ++ "）"

def validateBounds (name : String) (value : ℤ) (minimum maximum : Option ℤ) : Option String :=
  (minimum.bind fun low =>
    if value < low then some (name ++ " 必须 >= " ++ toString low ++ "。") else none).or
  (maximum.bind fun high =>
    if high < value then some (name ++ " 必须 <= " ++ toString high ++ "。") else none)

/-! ## The cut -/

/-- `&entries[start..end]` at the clamped places; `none` is a panic. -/
def slicePage {ε : Type} (build : Build) (entries : List ε) (offset limit : ℤ) :
    Option (List ε) := do
  let total := entries.length
  let start := min (max offset 0).toNat total
  let sum ← narrow build (offset + limit)
  let stop := (max 0 (min (max sum 0) total)).toNat
  if start ≤ stop ∧ stop ≤ total then return (entries.take stop).drop start
  none

structure Listing (ε : Type) where
  total : ℕ
  offset : ℤ
  limit : ℤ
  entries : List ε
  emptyReason : Option String
  deriving DecidableEq

/-- `empty_reason` of an empty page. -/
def emptyReason {ε : Type} (total : ℕ) (page : List ε) : Option String :=
  if page.isEmpty then some (if total = 0 then "no_match" else "offset_out_of_range") else none

def checkBounds (limit offset : ℤ) : Option String :=
  (validateBounds "limit" limit (some 1) (some 200)).or (validateBounds "offset" offset (some 0) none)

/-- One page of the entries that pass the filters; `none` is a panic. -/
def listed {ε : Type} (build : Build) (reason : ℕ → List ε → Option String)
    (entries : Except String (List ε)) (limit offset : ℤ) : Option (Except String (Listing ε)) :=
  match checkBounds limit offset with
  | some message => some (.error message)
  | none =>
    match entries with
    | .error message => some (.error message)
    | .ok entries =>
      (slicePage build entries offset limit).map fun page =>
        .ok ⟨entries.length, offset, limit, page, reason entries.length page⟩

/-! ## Stages -/

def stageTypeKeys : List String :=
  ["MAIN", "ACTIVITY", "SUB", "DAILY", "CAMPAIGN", "CLIMB_TOWER", "SPECIAL_STORY", "GUIDE"]

def getStr (entry : Value) (key : String) : Option String := (entry.get key).bind JsonValue.asStr

def jsToUpperAscii (s : String) : String := s.map Char.toUpper

/-- The stages that pass the filters, in the order of their ids. -/
def stagesSelected (excelPath : String) (stages : Except String Table)
    (chapter stageType : Option String) : Except String Table :=
  let typeFilter := stageType.map jsToUpperAscii
  match typeFilter.filter fun t => decide (t ∉ stageTypeKeys) with
  | some t => .error ("无效的 type：" ++ Json.quoted t ++ "。可选值：" ++
      String.intercalate "、" stageTypeKeys ++ "。")
  | none =>
    match stages with
    | .error message => .error (excelMissingMessage "关卡" excelPath ++ "（" ++ message ++ "）")
    | .ok stages =>
      .ok ((stages.insertionSort fun a b => compareIds a.1.toList b.1.toList ≠ .gt).filter fun entry =>
        (chapter.all fun chapter => getStr entry.2 "zoneId" = some chapter) &&
          (typeFilter.all fun t => getStr entry.2 "stageType" = some t))

/-- `list_stages`, before the rows are rendered. -/
def listStages (build : Build) (excelPath : String) (stages : Except String Table)
    (chapter stageType : Option String) (limit offset : ℤ) :
    Option (Except String (Listing (String × Value))) :=
  listed build (fun _ _ => none) (stagesSelected excelPath stages chapter stageType) limit offset

/-! ## Items -/

def isTrue : Option Value → Bool
  | some (.bool true) => true
  | _ => false

def hasName (info : Value) : Bool := (getStr info "name").any fun name => name ≠ ""

def visibleItems (items : Table) : Table :=
  items.filter fun entry => !isTrue (entry.2.get "hideInItemGet") && hasName entry.2

def asI64 : Option Value → Option ℤ
  | some (.number n) => n.asI64
  | _ => none

/-- `sortId` first, then the key. -/
def NotAfter (default : ℤ) (a b : String × Value) : Prop :=
  (compare ((asI64 (a.2.get "sortId")).getD default) ((asI64 (b.2.get "sortId")).getD default)).then
    (compareIds a.1.toList b.1.toList) ≠ .gt

instance decidableNotAfter (default : ℤ) : DecidableRel (NotAfter default) := fun a b =>
  inferInstanceAs (Decidable ((compare ((asI64 (a.2.get "sortId")).getD default)
    ((asI64 (b.2.get "sortId")).getD default)).then (compareIds a.1.toList b.1.toList) ≠ .gt))

def categoryAlias (raw : String) : Option String :=
  if raw ∈ ["MATERIALS", "材料", "物资"] then some "MATERIAL"
  else if raw ∈ ["NORMAL", "普通"] then some "NORMAL"
  else if raw ∈ ["CONSUME", "消耗品"] then some "CONSUME"
  else if raw ∈ ["NONE", "其他"] then some "NONE"
  else none

section Items

variable (toUppercase : String → String)

def normalizeCategory (category : String) : String :=
  let raw := String.ofList (McpEndpoint.trimmed category.toList)
  let upper := toUppercase raw
  ((categoryAlias upper).or (categoryAlias raw)).getD upper

def itemsSelected (excelPath : String) (items : Except String Table) (category : Option String) :
    Except String Table :=
  match items with
  | .error message => .error (excelMissingMessage "物品" excelPath ++ "（" ++ message ++ "）")
  | .ok items =>
    .ok (((visibleItems items).filter fun entry =>
      (category.map (normalizeCategory toUppercase)).all fun filter =>
        getStr entry.2 "classifyType" = some filter ||
          getStr entry.2 "itemType" = some filter).insertionSort (NotAfter 999999))

def buildItemsListing (build : Build) (excelPath : String) (items : Except String Table)
    (category : Option String) (limit offset : ℤ) :
    Option (Except String (Listing (String × Value))) :=
  listed build emptyReason (itemsSelected toUppercase excelPath items category) limit offset

/-! ## Enemies -/

def enemyLevels : List String := ["BOSS", "ELITE", "NORMAL"]

/-- The entries of `enemyData`; any other shape has none. -/
def enemyData (handbook : Value) : Table := ((handbook.get "enemyData").bind JsonValue.asObject).getD []

def enemiesSelected (handbook : Except String Value) (threatLevel : Option String) :
    Except String Table := do
  let raw ← handbook
  let entries := (enemyData raw).filter fun entry =>
    !isTrue (entry.2.get "hideInHandbook") && hasName entry.2
  match threatLevel with
  | none => return entries.insertionSort (NotAfter 9999)
  | some threatLevel =>
    let filter := toUppercase threatLevel
    if filter ∉ enemyLevels then
      throw ("无效的 threat_level 参数：" ++ Json.quoted threatLevel ++ "，可选值：boss、elite、normal。")
    return (entries.filter fun entry =>
      (getStr entry.2 "enemyLevel").any fun level => toUppercase level = filter).insertionSort
        (NotAfter 9999)

/-- The full listing is not cut, and a page past the end of some entries is found empty first. -/
def buildEnemiesListing (build : Build) (excelPath : String) (hasData : Bool)
    (handbook : Except String Value) (threatLevel : Option String) (limit offset : ℤ)
    (full : Bool) : Option (Except String (Listing (String × Value))) :=
  if !hasData then some (.error (excelMissingMessage "敌人图鉴" excelPath))
  else
    match checkBounds limit offset with
    | some message => some (.error message)
    | none =>
      match enemiesSelected toUppercase handbook threatLevel with
      | .error message => some (.error message)
      | .ok entries =>
        let total := entries.length
        if !full && total ≤ offset && 0 < total then
          some (.ok ⟨total, offset, limit, [], some "offset_out_of_range"⟩)
        else
          (if full then some entries else slicePage build entries offset limit).map fun displayed =>
            .ok ⟨total, offset, limit, displayed, none⟩

end Items

/-! ## Appearances of an enemy -/

/-- The enemy of a name; the last one of a name counts. -/
def nameToEnemyId (handbook : Value) : List (String × String) :=
  OrderedMap.ofEntries ((enemyData handbook).filterMap fun entry =>
    (getStr entry.2 "name").map fun name => (name, entry.1))

def resolveEnemyId (handbook : Except String Value) (name : String) :
    Except String (Option String) := do
  let raw ← handbook
  match (nameToEnemyId raw).lookup name with
  | some id => return some id
  | none => return if name ∈ (enemyData raw).map Prod.fst then some name else none

/-- The rows of the database, where it has them, or else of the index. -/
def readAppearances (database : Option (String → Except String (List (String × ℤ))))
    (index : Except String (List (String × List (String × ℤ)))) (enemyId : String) :
    Except String (List (String × ℤ)) :=
  match database with
  | some rows => rows enemyId
  | none => do
    let index ← index
    return (index.lookup enemyId).getD []

def appearancesSelected (levelsPath : String) (hasLevels : Bool) (handbook : Except String Value)
    (appearances : String → Except String (List (String × ℤ))) (stages : Except String Table)
    (name : String) : Except String (List (String × ℤ)) :=
  if !hasLevels then .error (levelsMissingMessage "关卡战斗" levelsPath)
  else
    match resolveEnemyId handbook name with
    | .error message => .error ("读取敌人出场关卡失败：" ++ message)
    | .ok none => .error ("未找到敌人：" ++ Json.quoted name ++ "。")
    | .ok (some enemyId) =>
      match appearances enemyId with
      | .error message => .error ("读取敌人出场关卡失败：" ++ message)
      | .ok rows =>
        match stages with
        | .error message => .error ("读取敌人出场关卡失败：" ++ message)
        | .ok _ => .ok rows

def buildEnemyAppearances (build : Build) (levelsPath : String) (hasLevels : Bool)
    (handbook : Except String Value) (appearances : String → Except String (List (String × ℤ)))
    (stages : Except String Table) (name : String) (limit offset : ℤ) :
    Option (Except String (Listing (String × ℤ))) :=
  listed build emptyReason
    (appearancesSelected levelsPath hasLevels handbook appearances stages name) limit offset

/-! ## Pages -/

section Pages

variable {ε : Type}

/-- The entries at the places from `offset` to before `offset + limit`. -/
def pageAt (entries : List ε) (offset limit : ℤ) : List ε :=
  (entries.drop offset.toNat).take limit.toNat

/-- The answer is the page at the offset, with the number of all entries. -/
def Answers (answer : Option (Except String (Listing ε))) (entries : List ε) (offset limit : ℤ) :
    Prop :=
  ∃ reason, answer = some (.ok ⟨entries.length, offset, limit, pageAt entries offset limit, reason⟩)

theorem slicePage_of_fits (build : Build) (entries : List ε) {offset limit : ℤ} (hoffset : 0 ≤ offset)
    (hlimit : 1 ≤ limit) (hfits : offset + limit < 2 ^ 63) :
    slicePage build entries offset limit = some (pageAt entries offset limit) := by
  have hrange : InRange (offset + limit) := ⟨by omega, hfits⟩
  have hstart : (max offset 0).toNat = offset.toNat := by omega
  have hstop : (max 0 (min (max (offset + limit) 0) (entries.length : ℤ))).toNat =
      min (offset.toNat + limit.toNat) entries.length := by omega
  have hle : min offset.toNat entries.length ≤ min (offset.toNat + limit.toNat) entries.length ∧
      min (offset.toNat + limit.toNat) entries.length ≤ entries.length := by omega
  have hpage : (entries.take (min (offset.toNat + limit.toNat) entries.length)).drop
      (min offset.toNat entries.length) = pageAt entries offset limit := by
    rw [← List.take_eq_take_min, pageAt]
    rcases le_or_gt offset.toNat entries.length with hin | hout
    · rw [min_eq_left hin, List.drop_take, Nat.add_sub_cancel_left]
    · rw [min_eq_right hout.le, List.drop_eq_nil_of_le hout.le, List.take_nil,
        List.take_of_length_le (by omega), List.drop_length]
  simp only [slicePage, narrow_of_inRange hrange, Option.bind_eq_bind, Option.bind_some, hstart, hstop,
    if_pos hle, hpage, Option.pure_def]

theorem slicePage_checked (entries : List ε) {offset limit : ℤ} (hfits : ¬ offset + limit < 2 ^ 63) :
    slicePage .checked entries offset limit = none := by
  have hrange : narrow .checked (offset + limit) = none := if_neg fun h => hfits h.2
  simp [slicePage, hrange]

/-- Pages after one another are the first entries. -/
theorem flatMap_pageAt (entries : List ε) {limit : ℤ} (hlimit : 0 ≤ limit) (count : ℕ) :
    (List.range count).flatMap (fun i : ℕ => pageAt entries (i * limit) limit) =
      entries.take (count * limit.toNat) := by
  induction count with
  | zero => simp
  | succ count ih =>
    have hoffset : ((count : ℤ) * limit).toNat = count * limit.toNat := by
      rw [Int.toNat_mul (by omega) hlimit, Int.toNat_natCast]
    rw [List.range_succ, List.flatMap_append, ih, List.flatMap_singleton, pageAt, hoffset,
      Nat.succ_mul, List.take_add]

end Pages

/-! ### The four listings -/

theorem checkBounds_eq_none {limit offset : ℤ} (hlimit : 1 ≤ limit) (hlimit' : limit ≤ 200)
    (hoffset : 0 ≤ offset) : checkBounds limit offset = none := by
  simp [checkBounds, validateBounds, not_lt.mpr hlimit, not_lt.mpr hlimit', not_lt.mpr hoffset]

section Listed

variable {ε : Type} {entries : List ε} {limit offset : ℤ} (hlimit : 1 ≤ limit) (hlimit' : limit ≤ 200)
  (hoffset : 0 ≤ offset)

include hlimit hlimit' hoffset

/-- A listing without a guard of its own. -/
theorem listed_answers_iff (reason : ℕ → List ε → Option String) :
    (∀ build, Answers (listed build reason (.ok entries) limit offset) entries offset limit) ↔
      offset + limit < 2 ^ 63 := by
  have hbounds := checkBounds_eq_none hlimit hlimit' hoffset
  constructor
  · intro h
    by_contra hfits
    obtain ⟨shown, hchecked⟩ := h .checked
    simp [listed, hbounds, slicePage_checked entries hfits] at hchecked
  · intro hfits build
    refine ⟨reason entries.length (pageAt entries offset limit), ?_⟩
    rw [listed, hbounds]
    dsimp only
    rw [slicePage_of_fits build entries hoffset hlimit hfits, Option.map_some]

theorem buildEnemiesListing_answers_iff {toUppercase : String → String} {excelPath : String}
    {handbook : Except String Value} {threatLevel : Option String} {entries : Table}
    (hentries : enemiesSelected toUppercase handbook threatLevel = .ok entries) :
    (∀ build, Answers (buildEnemiesListing toUppercase build excelPath true handbook threatLevel
        limit offset false) entries offset limit) ↔
      offset + limit < 2 ^ 63 ∨ 0 < entries.length ∧ (entries.length : ℤ) ≤ offset := by
  have hbounds := checkBounds_eq_none hlimit hlimit' hoffset
  have hanswer : ∀ build, buildEnemiesListing toUppercase build excelPath true handbook threatLevel
      limit offset false =
        if (entries.length : ℤ) ≤ offset ∧ 0 < entries.length then
          some (.ok ⟨entries.length, offset, limit, [], some "offset_out_of_range"⟩)
        else (slicePage build entries offset limit).map fun displayed =>
          .ok ⟨entries.length, offset, limit, displayed, none⟩ := by
    intro build
    simp [buildEnemiesListing, hbounds, hentries]
  by_cases hguard : (entries.length : ℤ) ≤ offset ∧ 0 < entries.length
  · have hempty : pageAt entries offset limit = [] := by
      rw [pageAt, List.drop_eq_nil_of_le (by omega), List.take_nil]
    have hright : offset + limit < 2 ^ 63 ∨ 0 < entries.length ∧ (entries.length : ℤ) ≤ offset :=
      .inr ⟨hguard.2, hguard.1⟩
    refine iff_of_true (fun build => ⟨some "offset_out_of_range", ?_⟩) hright
    rw [hanswer, if_pos hguard, hempty]
  · constructor
    · intro h
      by_contra hfits
      obtain ⟨shown, hchecked⟩ := h .checked
      rw [hanswer, if_neg hguard, slicePage_checked entries (fun hlt => hfits (.inl hlt))] at hchecked
      cases hchecked
    · intro h build
      have hfits : offset + limit < 2 ^ 63 := h.resolve_right fun hout => hguard ⟨hout.2, hout.1⟩
      refine ⟨none, ?_⟩
      rw [hanswer, if_neg hguard, slicePage_of_fits build entries hoffset hlimit hfits, Option.map_some]

end Listed

/-- In every build each listing is the page at the offset exactly where `offset + limit` fits an
`i64`, and for enemies also where a page past the end of some is asked for; and the pages at the
multiples of the limit divide the entries among them. -/
theorem listings_pages (toUppercase : String → String) (excelPath levelsPath : String)
    (stages items : Except String Table) (handbook : Except String Value)
    (appearances : String → Except String (List (String × ℤ)))
    (chapter stageType category threatLevel : Option String) (name : String)
    (stageEntries itemEntries enemyEntries : Table) (rows : List (String × ℤ)) (limit offset : ℤ)
    (hstages : stagesSelected excelPath stages chapter stageType = .ok stageEntries)
    (hitems : itemsSelected toUppercase excelPath items category = .ok itemEntries)
    (henemies : enemiesSelected toUppercase handbook threatLevel = .ok enemyEntries)
    (hrows : appearancesSelected levelsPath true handbook appearances stages name = .ok rows)
    (hlimit : 1 ≤ limit) (hlimit' : limit ≤ 200) (hoffset : 0 ≤ offset) :
    ((∀ build, Answers (listStages build excelPath stages chapter stageType limit offset)
        stageEntries offset limit) ↔ offset + limit < 2 ^ 63) ∧
    ((∀ build, Answers (buildItemsListing toUppercase build excelPath items category limit offset)
        itemEntries offset limit) ↔ offset + limit < 2 ^ 63) ∧
    ((∀ build, Answers (buildEnemiesListing toUppercase build excelPath true handbook threatLevel
        limit offset false) enemyEntries offset limit) ↔
      offset + limit < 2 ^ 63 ∨ 0 < enemyEntries.length ∧ (enemyEntries.length : ℤ) ≤ offset) ∧
    ((∀ build, Answers (buildEnemyAppearances build levelsPath true handbook appearances stages name
        limit offset) rows offset limit) ↔ offset + limit < 2 ^ 63) ∧
    ∀ (ε : Type) (entries : List ε) (count : ℕ),
      (List.range count).flatMap (fun i : ℕ => pageAt entries (i * limit) limit) =
        entries.take (count * limit.toNat) := by
  refine ⟨?_, ?_, ?_, ?_, fun ε entries count => flatMap_pageAt entries (by omega) count⟩
  · simp only [listStages, hstages]
    exact listed_answers_iff hlimit hlimit' hoffset _
  · simp only [buildItemsListing, hitems]
    exact listed_answers_iff hlimit hlimit' hoffset _
  · exact buildEnemiesListing_answers_iff hlimit hlimit' hoffset henemies
  · simp only [buildEnemyAppearances, hrows]
    exact listed_answers_iff hlimit hlimit' hoffset _

def oneStage : Table := [("s", .object [("zoneId", .string "z")])]

def oneItem : Table := [("i", .object [("name", .string "n")])]

def oneEnemy : Value := .object [("enemyData", .object [("e", .object [("name", .string "n")])])]

theorem listings_pages_oneEntry :
    ((∀ build, Answers (listStages build "p" (.ok oneStage) none none 1 0) oneStage 0 1) ↔
      (0 : ℤ) + 1 < 2 ^ 63) ∧
    ((∀ build, Answers (buildItemsListing id build "p" (.ok oneItem) none 1 0) oneItem 0 1) ↔
      (0 : ℤ) + 1 < 2 ^ 63) ∧
    ((∀ build, Answers (buildEnemiesListing id build "p" true (.ok oneEnemy) none 1 0 false)
        (enemyData oneEnemy) 0 1) ↔ (0 : ℤ) + 1 < 2 ^ 63 ∨ 0 < 1 ∧ ((1 : ℕ) : ℤ) ≤ 0) ∧
    ((∀ build, Answers (buildEnemyAppearances build "q" true (.ok oneEnemy) (fun _ => .ok [("s", 2)])
        (.ok oneStage) "n" 1 0) [("s", 2)] 0 1) ↔ (0 : ℤ) + 1 < 2 ^ 63) ∧
    ∀ (ε : Type) (entries : List ε) (count : ℕ),
      (List.range count).flatMap (fun i : ℕ => pageAt entries (i * 1) 1) =
        entries.take (count * (1 : ℤ).toNat) :=
  listings_pages id "p" "q" (.ok oneStage) (.ok oneItem) (.ok oneEnemy) (fun _ => .ok [("s", 2)])
    none none none none "n" oneStage oneItem (enemyData oneEnemy) [("s", 2)] 1 0 rfl rfl rfl rfl
    (by decide) (by decide) (by decide)

def hugeOffset : Value := .object [("offset", .number (.posInt 9223372036854775807))]

/-- The largest offset is accepted, and no build answers it with an empty page. -/
theorem buildItemsListing_hugeOffset :
    (Args.new hugeOffset).intDefault "offset" 0 none 0 = (2 ^ 63 - 1, Args.new hugeOffset) ∧
      buildItemsListing id .checked "p" (.ok oneItem) none 1 (2 ^ 63 - 1) = none ∧
      buildItemsListing id .wrapping "p" (.ok oneItem) none 1 (2 ^ 63 - 1) = none ∧
      pageAt oneItem (2 ^ 63 - 1) 1 = [] := by
  refine ⟨?_, ?_, ?_, ?_⟩
  · rfl
  · rfl
  · rfl
  · rw [pageAt, List.drop_eq_nil_of_le (by decide)]
    rfl

end PrtsMcp.Listings
