import PrtsMcp.OperatorInfo

/-!
# Panels of operators

The attributes of an operator at the ends of each elite phase, or at one level by interpolation, with
the bonuses of full trust and potential.
-/
namespace PrtsMcp.OperatorStats

open CompiledEntities CompiledSources OperatorData OperatorInfo
open Projected (Projection floatValue)

variable {φ : Type}

def panelFields : List String :=
  ["maxHp", "atk", "def", "magicResistance", "cost", "blockCnt", "attackSpeed", "baseAttackTime", "respawnTime"]

/-- The arithmetic of panels. -/
structure Arithmetic (φ : Type) extends Floats φ where
  zero : φ
  ofI64 : Int64 → φ
  toI64 : φ → Int64
  isJsInteger : φ → Bool
  /-- Below `9.007199254740992e15` in size. -/
  isSafe : φ → Bool
  isNaN : φ → Bool
  le : φ → φ → Bool
  lt : φ → φ → Bool
  add : φ → φ → φ
  sub : φ → φ → φ
  mul : φ → φ → φ
  div : φ → φ → φ
  trunc : φ → φ
  roundHalfAway : φ → ℕ → φ
  jsNumberToString : φ → String

section Panels

variable [Projected.Doubles φ] (a : Arithmetic φ)

def asF64At (v : JsonValue φ) (key : String) : Option φ := (v.get key).bind (asF64 a.toFloats)

/-- `is_number` -/
def numberAt (v : JsonValue φ) (key : String) : Option φ :=
  (asF64At a v key).filter fun f => Projected.Doubles.isFinite f

/-- An integer is written as one. -/
def numberValue (f : φ) : JsonValue φ :=
  if a.isJsInteger f && a.isSafe f then .number (.ofI64 (a.toI64 f)) else floatValue f

def projectPanel (frame : JsonValue φ) : JsonValue φ :=
  .object (panelFields.map fun key => (key, (asF64At a frame key).elim .null (numberValue a)))

/-- Between two values of a field that is interpolated. -/
def interpolate (lo hi level loLevel span : φ) : φ :=
  let ratio := a.div (a.sub level loLevel) span
  let raw := a.add lo (a.mul (a.sub hi lo) ratio)
  if a.isJsInteger lo && a.isJsInteger hi then a.trunc (a.roundHalfAway raw 0) else a.roundHalfAway raw 2

/-- A field that cannot be interpolated is that of the upper frame, else that of the lower one. -/
def interpolateField (lo hi : JsonValue φ) (level loLevel hiLevel : φ) (key : String) : Option φ :=
  let span := a.sub hiLevel loLevel
  match numberAt a lo key, numberAt a hi key with
  | some lo, some hi => some (if a.lt a.zero span then interpolate a lo hi level loLevel span else hi)
  | none, some hi => some hi
  | some lo, none => some lo
  | none, none => none

def interpolateAttributes (lo hi : JsonValue φ) (level loLevel hiLevel : φ) : JsonValue φ :=
  .object (panelFields.map fun key =>
    (key, (interpolateField a lo hi level loLevel hiLevel key).elim .null fun value =>
      if a.isNaN value then .null else numberValue a value))

/-! ## Entries -/

def objectsOf (v : JsonValue φ) (key : String) : List (JsonValue φ) := (arrayOf v key).filter JsonValue.isObject

def favorBonus (info : JsonValue φ) : JsonValue φ :=
  match (objectsOf info "favorKeyFrames").getLast?.bind (·.get "data") with
  | none => .object []
  | some data => .object (panelFields.filterMap fun key =>
      ((numberAt a data key).filter fun value => !a.isZero value).map fun value => (key, numberValue a value))

def potential (info : JsonValue φ) : List String :=
  (objectsOf info "potentialRanks").filterMap fun rank => strOf rank "description"

def framesOf (phase : JsonValue φ) : List (JsonValue φ) := objectsOf phase "attributesKeyFrames"

def maxLevelOf (phase : JsonValue φ) : φ := (asF64At a phase "maxLevel").getD a.zero

def phaseSummary (index : ℕ) (phase : JsonValue φ) : JsonValue φ :=
  let frames := framesOf phase
  let lv1 := (frames.head?.bind (·.get "data")).getD (.object [])
  let lvMax := (frames.getLast?.bind (·.get "data")).getD (.object [])
  .object [("phase", .number (.posInt (UInt64.ofNat index))), ("max_level", numberValue a (maxLevelOf a phase)),
    ("keyframes", .object [("lv1", projectPanel a lv1), ("lv_max", projectPanel a lvMax)])]

/-! ## Stats -/

def summaries (name id : String) (info : JsonValue φ) : JsonValue φ :=
  .object [("name", .string name), ("char_id", .string id),
    ("phases", .array ((objectsOf info "phases").zipIdx.map fun phase => phaseSummary a phase.2 phase.1)),
    ("favor_bonus", favorBonus a info), ("potential", .array ((potential info).map .string))]

def atLevel (name id : String) (info : JsonValue φ) (phase level : Int64) : Except String (JsonValue φ) := do
  let phases := objectsOf info "phases"
  let requested := phase.toUInt64.toNat
  match phases[requested]? with
  | none =>
    throw s!"phase 必须在 0..{phases.length - 1} 之间（该干员共 {phases.length} 个精英阶段）。"
  | some target =>
    let frames := framesOf target
    let maxLevel := maxLevelOf a target
    if !(a.le a.one (a.ofI64 level) && a.le (a.ofI64 level) maxLevel) then
      throw ("level 必须在 1.." ++ a.jsNumberToString maxLevel ++ " 之间（精英" ++ toString requested ++
        " 的等级上限为 " ++ a.jsNumberToString maxLevel ++ "）。")
    match frames.head?, frames.getLast? with
    | some lo, some hi =>
      return .object [("name", .string name), ("char_id", .string id),
        ("phase", .number (.posInt (UInt64.ofNat requested))), ("level", .number (.ofI64 level)),
        ("max_level", numberValue a maxLevel),
        ("attributes", interpolateAttributes a ((lo.get "data").getD .null) ((hi.get "data").getD .null)
          (a.ofI64 level) ((asF64At a lo "level").getD a.one) ((asF64At a hi "level").getD maxLevel)),
        ("favor_bonus", favorBonus a info), ("potential", .array ((potential info).map .string))]
    | _, _ => throw s!"干员 '{name}' 的精英{requested}面板关键帧缺失，数据可能损坏。"

def statsOf (name id : String) (info : JsonValue φ) (phase level : Option Int64) : Except String (JsonValue φ) :=
  if objectsOf info "phases" = [] then .error s!"干员 '{name}' 暂无面板数据。"
  else
    match phase, level with
    | none, none => .ok (summaries a name id info)
    | some phase, some level => atLevel a name id info phase level
    | _, _ => .error ("phase 与 level 必须同时提供（如 精英2 Lv40 → phase=2, level=40），" ++
        "或同时省略以查看各阶段关键帧。")

variable (reader : Reader φ) (view : DataView)

def buildOperatorStats (excelPath name : String) (phase level : Option Int64) : Except String (JsonValue φ) :=
  if view.excelRoot.isNone then .error (Listings.excelMissingMessage "干员" excelPath)
  else do
    let id ← resolveCharId reader view name
    let table ← characterFor reader view id
    match id with
    | none => throw (operatorNotFound name)
    | some id => statsOf a name id ((entryOf table id).getD (.object [])) phase level

end Panels

/-! ## Pruned entries -/

section Pruned

theorem objectsOf_elements {p child : Projection} (hp : p.isDiscard = false) (hchild : child.isDiscard = false)
    {key : String} (hfield : p.field key = .elements child) (v : JsonValue φ) :
    objectsOf (p.prune v) key = (objectsOf v key).map child.prune := by
  have hshape : JsonValue.isObject ∘ child.prune = (JsonValue.isObject : JsonValue φ → Bool) :=
    funext (isObject_prune hchild)
  rw [objectsOf, objectsOf, arrayOf_elements hp hfield, List.filter_map, hshape]

theorem framesOf_prune (phase : JsonValue φ) :
    framesOf (phaseEntry.prune phase) = (framesOf phase).map attributeFrame.prune :=
  objectsOf_elements rfl rfl rfl phase

theorem data_prune (frame : JsonValue φ) :
    (attributeFrame.prune frame).get "data" = (frame.get "data").map panelData.prune :=
  Projection.get_prune rfl rfl frame

theorem potential_prune (info : JsonValue φ) : potential (characterEntry.prune info) = potential info := by
  rw [potential, potential, objectsOf_elements rfl rfl rfl, List.filterMap_map]
  refine List.filterMap_congr fun rank _ => ?_
  exact strOf_of_all rfl (by rfl) rank

variable [Projected.Doubles φ] (a : Arithmetic φ)

omit [Projected.Doubles φ] in
theorem asF64At_prune {key : String} (hkey : key ∈ panelFields) (data : JsonValue φ) :
    asF64At a (panelData.prune data) key = asF64At a data key := by
  have hfield : panelData.field key = .all := by
    fin_cases hkey <;> rfl
  rw [asF64At, asF64At, get_of_all rfl hfield]

theorem numberAt_prune {key : String} (hkey : key ∈ panelFields) (data : JsonValue φ) :
    numberAt a (panelData.prune data) key = numberAt a data key := by
  rw [numberAt, numberAt, asF64At_prune a hkey]

theorem projectPanel_prune (data : JsonValue φ) : projectPanel a (panelData.prune data) = projectPanel a data := by
  rw [projectPanel, projectPanel]
  congr 1
  exact List.map_congr_left fun key hkey => by rw [asF64At_prune a hkey]

theorem interpolateAttributes_prune (lo hi : JsonValue φ) (level loLevel hiLevel : φ) :
    interpolateAttributes a (panelData.prune lo) (panelData.prune hi) level loLevel hiLevel =
      interpolateAttributes a lo hi level loLevel hiLevel := by
  rw [interpolateAttributes, interpolateAttributes]
  congr 1
  refine List.map_congr_left fun key hkey => ?_
  rw [interpolateField, interpolateField, numberAt_prune a hkey, numberAt_prune a hkey]

omit [Projected.Doubles φ] in
/-- The data of a frame, or what stands for it, after the projection. -/
theorem getD_data_prune {default : JsonValue φ} (hdefault : panelData.prune default = default)
    (frame : Option (JsonValue φ)) :
    ((frame.map attributeFrame.prune).bind (·.get "data")).getD default =
      panelData.prune ((frame.bind (·.get "data")).getD default) := by
  cases frame with
  | none => exact hdefault.symm
  | some frame =>
    rw [Option.map_some, Option.bind_some, Option.bind_some, data_prune]
    cases frame.get "data" with
    | none => exact hdefault.symm
    | some data => rfl

theorem favorBonus_prune (info : JsonValue φ) : favorBonus a (characterEntry.prune info) = favorBonus a info := by
  rw [favorBonus, favorBonus, objectsOf_elements rfl rfl rfl, List.getLast?_map]
  cases (objectsOf info "favorKeyFrames").getLast? with
  | none => rfl
  | some frame =>
    simp only [Option.map_some, Option.bind_some, data_prune]
    cases frame.get "data" with
    | none => rfl
    | some data =>
      simp only [Option.map_some]
      congr 1
      exact List.filterMap_congr fun key hkey => by rw [numberAt_prune a hkey]

omit [Projected.Doubles φ] in
theorem maxLevelOf_prune (phase : JsonValue φ) : maxLevelOf a (phaseEntry.prune phase) = maxLevelOf a phase := by
  rw [maxLevelOf, maxLevelOf, asF64At, asF64At, get_of_all rfl rfl]

theorem phaseSummary_prune (index : ℕ) (phase : JsonValue φ) :
    phaseSummary a index (phaseEntry.prune phase) = phaseSummary a index phase := by
  have hempty : panelData.prune (JsonValue.object [] : JsonValue φ) = .object [] := Projection.prune_object rfl []
  simp only [phaseSummary, framesOf_prune, maxLevelOf_prune, List.head?_map, List.getLast?_map,
    getD_data_prune hempty, projectPanel_prune]

theorem atLevel_prune (name id : String) (info : JsonValue φ) (phase level : Int64) :
    atLevel a name id (characterEntry.prune info) phase level = atLevel a name id info phase level := by
  have hnull : panelData.prune (JsonValue.null : JsonValue φ) = .null := by rw [Projection.prune]
  have hdata : ∀ frame : JsonValue φ, ((attributeFrame.prune frame).get "data").getD .null =
      panelData.prune ((frame.get "data").getD .null) := fun frame => getD_data_prune hnull (some frame)
  have hlevel : ∀ frame : JsonValue φ, asF64At a (attributeFrame.prune frame) "level" = asF64At a frame "level" := by
    intro frame
    rw [asF64At, asF64At, get_of_all rfl rfl]
  have hphases : objectsOf (characterEntry.prune info) "phases" = (objectsOf info "phases").map phaseEntry.prune :=
    objectsOf_elements rfl rfl rfl info
  unfold atLevel
  simp only [hphases, List.getElem?_map, List.length_map, favorBonus_prune, potential_prune]
  cases (objectsOf info "phases")[phase.toUInt64.toNat]? with
  | none => rfl
  | some target =>
    simp only [Option.map_some, framesOf_prune, maxLevelOf_prune, List.head?_map, List.getLast?_map]
    cases (framesOf target).head? with
    | none => rfl
    | some lo =>
      cases (framesOf target).getLast? with
      | none => rfl
      | some hi =>
        simp only [Option.map_some, hdata, hlevel, interpolateAttributes_prune]

/-- What is shown of an entry's panels is the same after its projection. -/
theorem statsOf_prune (name id : String) (info : JsonValue φ) (phase level : Option Int64) :
    statsOf a name id (characterEntry.prune info) phase level = statsOf a name id info phase level := by
  have hphases : objectsOf (characterEntry.prune info) "phases" = (objectsOf info "phases").map phaseEntry.prune :=
    objectsOf_elements rfl rfl rfl info
  have hsummaries : summaries a name id (characterEntry.prune info) = summaries a name id info := by
    rw [summaries, summaries, hphases, favorBonus_prune, potential_prune, List.zipIdx_map, List.map_map]
    have hphase : ((fun phase : JsonValue φ × ℕ => phaseSummary a phase.2 phase.1) ∘
        Prod.map phaseEntry.prune fun index => index) = fun phase => phaseSummary a phase.2 phase.1 :=
      funext fun phase => phaseSummary_prune a phase.2 phase.1
    exact congrArg (fun shown => JsonValue.object [("name", .string name), ("char_id", .string id),
      ("phases", .array (List.map shown (objectsOf info "phases").zipIdx)), ("favor_bonus", favorBonus a info),
      ("potential", .array ((potential info).map .string))]) hphase
  have hempty : objectsOf (characterEntry.prune info) "phases" = [] ↔ objectsOf info "phases" = [] := by
    rw [hphases, List.map_eq_nil_iff]
  unfold statsOf
  simp only [hempty, hsummaries, atLevel_prune]

end Pruned

/-! ## Both views -/

section Agreement

variable [Projected.Doubles φ] {reader : Reader φ} {options : Options} {db : Database} {root : ExcelRoot}
variable {files : List SourceFile}

/-! ## Doubles of the sample -/

def lift (op : ℚ → ℚ → ℚ) : JsNumber → JsNumber → JsNumber
  | .finite x, .finite y => .ofRat (op x y)
  | _, _ => .nan

def holds (relation : ℚ → ℚ → Bool) : JsNumber → JsNumber → Bool
  | .finite x, .finite y => relation x y
  | _, _ => false

def wholePart (x : ℚ) : ℤ := if x < 0 then ⌈x⌉ else ⌊x⌋

def roundHalfAway (x : JsNumber) (digits : ℕ) : JsNumber :=
  match x with
  | .finite x =>
    let rounded : ℚ := ⌊|x| * 10 ^ digits + 1 / 2⌋ / 10 ^ digits
    .ofRat (if x < 0 then -rounded else rounded)
  | x => x

/-- The arithmetic on finite doubles. -/
def sampleArithmetic : Arithmetic JsNumber where
  toFloats := sampleFloats
  zero := .finite 0
  ofI64 n := .ofRat n.toInt
  toI64
    | .finite x => .ofInt (wholePart x)
    | _ => 0
  isJsInteger
    | .finite x => x.den = 1
    | _ => false
  isSafe x := holds (fun x limit => |x| < limit) x (.finite 9007199254740992)
  isNaN x := x = .nan
  le := holds fun x y => x ≤ y
  lt := holds fun x y => x < y
  add := lift (· + ·)
  sub := lift (· - ·)
  mul := lift (· * ·)
  div := lift (· / ·)
  trunc
    | .finite x => .finite (wholePart x)
    | x => x
  roundHalfAway := roundHalfAway
  jsNumberToString
    | .finite x => toString x
    | _ => "NaN"

end Agreement

end PrtsMcp.OperatorStats
