import PrtsMcp.JsonValue
import PrtsMcp.McpEndpoint
import PrtsMcp.Reload

/-!
# The configuration file

The schema of the fields, their values in a TOML document, and what makes a document a valid
configuration.
-/
namespace PrtsMcp.Config

open DataSnapshot (DataBackend)
open McpEndpoint (trimmed)
open Reload (ValidationMode)
open SourceGuard (DataSource isOwnerChar)

/-! ## Sources -/

def asciiAlphanumericOr (others : List Char) (c : Char) : Bool := c.isAlphanum || others.contains c

/-- `str::trim`. -/
def trim (s : String) : String := String.ofList (trimmed s.toList)

def invalidSource : String := "PRTS_DATA_SOURCE_REPO must be owner/repo (not a URL or path)"

def validOwner (owner : List Char) : Bool :=
  0 < owner.length && owner.length ≤ 39 && owner.all isOwnerChar && owner.head? ≠ some '-' &&
    owner.getLast? ≠ some '-' && !(['-', '-'] <:+: owner : Bool)

def validRepo (repo : List Char) : Bool :=
  0 < repo.length && repo.length ≤ 100 && repo ≠ ['.'] && repo ≠ ['.', '.'] &&
    repo.all (asciiAlphanumericOr ['-', '_', '.'])

theorem toNat_lt_of_isOwnerChar {c : Char} (h : isOwnerChar c) : c.toNat < 128 := by
  simp only [isOwnerChar, Char.isAlphanum, Char.isAlpha, Char.isUpper, Char.isLower, Char.isDigit,
    Bool.or_eq_true, Bool.and_eq_true, decide_eq_true_eq, UInt32.le_iff_toNat_le] at h
  rcases h with ((h | h) | h) | h
  · exact lt_of_le_of_lt h.2 (by decide)
  · exact lt_of_le_of_lt h.2 (by decide)
  · exact lt_of_le_of_lt h.2 (by decide)
  · subst h
    decide

theorem isOwnerChar_toLower {c : Char} (h : isOwnerChar c) : isOwnerChar c.toLower := by
  have hall : ∀ n < 128, isOwnerChar (Char.ofNat n) → isOwnerChar (Char.ofNat n).toLower := by
    decide
  have hc := hall c.toNat (toNat_lt_of_isOwnerChar h)
  rw [Char.ofNat_toNat] at hc
  exact hc h

theorem validOwner_toLower {owner : List Char} (h : validOwner owner) :
    (owner.map Char.toLower).all isOwnerChar = true := by
  simp only [validOwner, Bool.and_eq_true, List.all_eq_true] at h
  rw [List.all_map, List.all_eq_true]
  exact fun c hc => isOwnerChar_toLower (h.1.1.1.2 c hc)

/-- `str::split_once` on a slash. -/
def splitSlash (cs : List Char) : Option (List Char × List Char) :=
  match cs.dropWhile (· ≠ '/') with
  | [] => none
  | _ :: rest => some (cs.takeWhile (· ≠ '/'), rest)

/-- `DataSource::parse`. -/
def parseSource (raw : Option String) : Except String DataSource :=
  let raw := trim (raw.getD "")
  if raw = "" then .ok .default
  else
    match splitSlash raw.toList with
    | none => .error invalidSource
    | some (owner, repo) =>
      if h : validOwner owner = true then
        if validRepo repo then
          if owner.map Char.toLower = "3akhp".toList ∧
              repo.map Char.toLower = "arknights-data-pipeline".toList then .ok .default
          else
            .ok ⟨String.ofList (owner.map Char.toLower), String.ofList (repo.map Char.toLower), by
              rw [String.toList_ofList]
              exact validOwner_toLower h⟩
        else .error invalidSource
      else .error invalidSource

/-! ## What a start accepts -/

/-- `DataBackend::resolve`. -/
def resolveBackend (explicit : Option String) (customDatabase customJson : Bool)
    (preferred : DataBackend) : Except String DataBackend :=
  match (explicit.map trim).filter (· ≠ "") with
  | some "json" =>
    if customDatabase then .error "PRTS_DATA_BACKEND=json conflicts with PRTS_DATA_DB"
    else .ok .json
  | some "sqlite" => .ok .sqlite
  | some _ => .error "PRTS_DATA_BACKEND must be json or sqlite"
  | none =>
    .ok (if customDatabase then .sqlite else if customJson then .json else preferred)

/-- `ValidationMode::parse`. -/
def parseValidationMode (value : Option String) : Except String ValidationMode :=
  match (value.map trim).getD "" with
  | "" | "normal" => .ok .normal
  | "strict" => .ok .strict
  | _ => .error "PRTS_VALIDATION_MODE must be normal or strict"

/-- The fields of `try_from_lookup` that it may refuse. -/
def tryFromLookup (lookup : String → Option String) :
    Except String (DataSource × DataBackend × ValidationMode) := do
  let source ← parseSource (lookup "PRTS_DATA_SOURCE_REPO")
  let customGamedata := (lookup "GAMEDATA_PATH").isSome
  let storySync := (lookup "STORYJSON_PATH").all (· = "")
  let customDatabase := (lookup "PRTS_DATA_DB").any fun s => trim s ≠ ""
  let backend ← resolveBackend (lookup "PRTS_DATA_BACKEND") customDatabase
    (customGamedata || !storySync) .sqlite
  let mode ← parseValidationMode (lookup "PRTS_VALIDATION_MODE")
  pure (source, backend, mode)

/-! ## The schema -/

/-- What the schema reads of an item of a table: `other` is a date, an array or a table. -/
inductive TomlValue (φ δ : Type) where
  | string (s : String)
  | integer (n : Int64)
  | float (x : φ)
  | boolean (b : Bool)
  | other (item : δ)
  deriving DecidableEq

/-- An item of a document. -/
inductive TomlItem (φ δ : Type) where
  | value (v : TomlValue φ δ)
  | table (entries : List (String × TomlValue φ δ))
  deriving DecidableEq

/-- Doubles with their texts. -/
class Floats (φ : Type) where
  isFinite : φ → Bool
  ofInt64 : Int64 → φ
  parse : String → Option φ
  print : φ → String

/-- The TOML library on documents `D`; `iter` gives the items of the root in their order. -/
structure Toml (D φ δ : Type) where
  parse : String → Option D
  print : D → String
  display : TomlValue φ δ → String
  iter : D → List (String × TomlItem φ δ)
  /-- `doc["runtime"][key] = value`. -/
  setRuntime : D → String → TomlValue φ δ → D
  /-- The removal of a key from the `runtime` table. -/
  removeRuntime : D → String → D

inductive Kind where
  | string
  | path
  | bool
  | port
  | interval
  | milliseconds
  | choice (options : List String)

structure Field where
  key : String
  kind : Kind
  exampleText : String
  description : String

def fields : List Field :=
  [⟨"HTTP_PROXY", .string, "", "网络代理与免代理配置"⟩,
    ⟨"HTTPS_PROXY", .string, "", "网络代理与免代理配置"⟩,
    ⟨"ALL_PROXY", .string, "", "网络代理与免代理配置"⟩,
    ⟨"NO_PROXY", .string, "", "网络代理与免代理配置"⟩,
    ⟨"NODE_EXTRA_CA_CERTS", .path, "ca.pem", "Wiki 请求的附加 CA 证书"⟩,
    ⟨"PRTS_CONTROL_ENDPOINT", .string, "/run/prts-mcp-main/control.sock",
      "本机管理端点；空值关闭，Unix 使用绝对 socket 路径"⟩,
    ⟨"PRTS_INSTANCE_NAME", .string, "main", "本机管理实例名称"⟩,
    ⟨"PRTS_TRANSPORT", .choice ["http", "stdio"], "http", "传输模式；旧兼容入口保留各自规则"⟩,
    ⟨"HOST", .string, "0.0.0.0", "HTTP 监听地址"⟩,
    ⟨"PORT", .port, "3000", "HTTP 监听端口；stdio 不使用"⟩,
    ⟨"PRTS_DATA_BACKEND", .choice ["json", "sqlite"], "sqlite",
      "不设置时默认偏好 SQLite，并允许 JSON 备用；显式 sqlite 不回落"⟩,
    ⟨"PRTS_VALIDATION_MODE", .choice ["normal", "strict"], "normal", "数据准入验证模式"⟩,
    ⟨"PRTS_DATA_DIR", .path, "database", "SQLite 可写同步目录"⟩,
    ⟨"PRTS_DATA_DB", .path, "data.sqlite", "自定义只读数据库；关闭游戏数据同步"⟩,
    ⟨"GAMEDATA_PATH", .path, "gamedata", "自定义 JSON 数据路径；关闭游戏表与关卡同步"⟩,
    ⟨"STORYJSON_PATH", .path, "storyjson/zh_CN.zip", "自定义剧情 ZIP；关闭剧情同步"⟩,
    ⟨"PRTS_IMAGE_DIR", .path, "images", "本地立绘同步目录"⟩,
    ⟨"PRTS_DATA_SOURCE_REPO", .string, "3aKHP/arknights-data-pipeline", "GitHub 数据源 owner/repo"⟩,
    ⟨"GITHUB_TOKEN", .string, "", "GitHub 令牌；优先通过环境变量设置"⟩,
    ⟨"GITHUB_MIRRORS", .string, "", "逗号分隔的下载镜像前缀"⟩,
    ⟨"PRTS_AUTO_SYNC_INTERVAL_SECONDS", .interval, "3600", "周期秒数 60..604800；0 仍执行启动同步"⟩,
    ⟨"IMAGES_ENABLED", .bool, "true", "启用立绘工具"⟩,
    ⟨"LOCAL_IMAGE", .bool, "false", "启用本地立绘同步；资产可能达到 GB 量级"⟩,
    ⟨"ORIGINAL_IMAGE", .bool, "false", "本地立绘额外下载原图"⟩,
    ⟨"PRTS_IMAGE_CACHE", .bool, "true", "Wiki 图片内存缓存"⟩,
    ⟨"PRTS_OUTPUT_CHANNEL", .choice ["content", "structured", "both"], "content",
      "MCP 工具输出通道，与 CLI -o 无关"⟩,
    ⟨"SESSION_IDLE_TIMEOUT_MS", .milliseconds, "86400000", "会话空闲毫秒数；非正值禁用清理"⟩,
    ⟨"PRTS_DEBUG_TOKEN", .string, "", "诊断端点令牌；优先通过环境变量设置"⟩,
    ⟨"PRTS_METRICS_ENABLED", .bool, "false", "启用指标；还需设置诊断令牌"⟩]

def field (key : String) : Except String Field :=
  match fields.find? (·.key = key) with
  | some f => .ok f
  | none => .error ("未知配置字段: runtime." ++ key)

/-- `str::ends_with`. -/
def endsWith (s suffix : String) : Bool := suffix.toList.isSuffixOf s.toList

def sensitive (key : String) : Bool := endsWith key "TOKEN"

def redacted (key : String) : Bool :=
  sensitive key || key = "GITHUB_MIRRORS" || endsWith key.toUpper "PROXY"

/-- `valid_name` of an instance. -/
def validName (name : String) : Bool :=
  name ≠ "" && name.utf8ByteSize ≤ 64 && name.toList.all (asciiAlphanumericOr ['-', '_'])

def isAbsolute (path : String) : Bool := path.toList.head? = some '/'

/-- `i64::from_str`: a sign, then digits, in range. -/
def parseInt64 (raw : String) : Option Int64 :=
  let (negative, digits) := JsNumber.takeSign raw.toList
  if digits = [] ∨ ¬ digits.all Char.isDigit then none
  else
    let n : ℤ := (digits.foldl (fun n d => n * 10 + (d.toNat - '0'.toNat)) 0 : ℕ)
    let n := if negative then -n else n
    if -2 ^ 63 ≤ n ∧ n < 2 ^ 63 then some (Int64.ofInt n) else none

/-- `bool::from_str`. -/
def parseBool (raw : String) : Option Bool :=
  if raw = "true" then some true else if raw = "false" then some false else none

section Values

variable {φ δ : Type} [Floats φ]

namespace TomlValue

def asStr : TomlValue φ δ → Option String
  | string s => some s
  | _ => none

def asInteger : TomlValue φ δ → Option Int64
  | integer n => some n
  | _ => none

def asFloat : TomlValue φ δ → Option φ
  | float x => some x
  | _ => none

def asBool : TomlValue φ δ → Option Bool
  | boolean b => some b
  | _ => none

end TomlValue

/-- The text of an integer that a test accepts. -/
def readInteger (accepts : ℤ → Bool) (item : TomlValue φ δ) : Option String :=
  (item.asInteger.filter fun n => accepts n.toInt).map fun n => toString n.toInt

/-- The text of a value of the right kind and range. -/
def Kind.readRaw (item : TomlValue φ δ) : Kind → Option String
  | string => item.asStr
  | path => item.asStr.filter fun v => trim v ≠ ""
  | choice options => item.asStr.filter (options.contains ·)
  | bool => item.asBool.map fun b => if b then "true" else "false"
  | port => readInteger (fun n => 0 ≤ n && n ≤ 65535) item
  | interval => readInteger (fun n => n = 0 || (60 ≤ n && n ≤ 604800)) item
  | milliseconds =>
    ((item.asFloat.or (item.asInteger.map Floats.ofInt64)).filter Floats.isFinite).map Floats.print

/-- The checks of single fields; `validProxy` is the HTTP library's. -/
def Field.accepts (validProxy : String → Bool) (f : Field) (raw : String) : Bool :=
  match f.key with
  | "PRTS_INSTANCE_NAME" => validName raw
  | "PRTS_CONTROL_ENDPOINT" => raw = "" || isAbsolute raw
  | "HTTP_PROXY" | "HTTPS_PROXY" | "ALL_PROXY" => raw = "" || validProxy raw
  | _ => true

def Field.invalidItem (f : Field) : String := "配置字段类型或取值无效: " ++ f.key

def Field.checkSource (f : Field) (raw : String) : Except String Unit :=
  if f.key = "PRTS_DATA_SOURCE_REPO" then (parseSource (some raw)).map fun _ => () else .ok ()

def Field.readText (validProxy : String → Bool) (f : Field) (raw : String) :
    Except String String := do
  f.checkSource raw
  if f.accepts validProxy raw then pure raw else throw f.invalidItem

def Field.read (validProxy : String → Bool) (f : Field) (item : TomlValue φ δ) :
    Except String String :=
  match f.kind.readRaw item with
  | none => .error f.invalidItem
  | some raw => f.readText validProxy raw

/-- The value that a text stands for. -/
def Kind.parseValue (raw : String) : Kind → Option (TomlValue φ δ)
  | string | path | choice _ => some (.string raw)
  | bool => (parseBool raw).map .boolean
  | port | interval => (parseInt64 raw).map .integer
  | milliseconds => (Floats.parse raw).map .float

def Field.parse (validProxy : String → Bool) (f : Field) (raw : String) :
    Except String (TomlValue φ δ) :=
  match (f.kind.parseValue raw : Option (TomlValue φ δ)) with
  | none => .error ("配置值无效: " ++ f.key)
  | some value => (f.read validProxy value).map fun _ => value

/-- `template`, where every example is valid. -/
def template {D : Type} (toml : Toml D φ δ) (validProxy : String → Bool) : Option String :=
  let head := "# PRTS-MCP 用户配置。显式参数 > 环境变量 > 本文件 > 默认值。\n" ++
    "# 取消注释即显式选择；路径相对于本文件。\nschema_version = 1\n\n[runtime]\n"
  fields.foldl (fun out f =>
    match out, f.parse validProxy f.exampleText with
    | some out, .ok value => some (out ++ "# " ++ f.description ++ "\n# " ++ f.key ++ " = " ++
        toml.display value ++ "\n\n")
    | _, _ => none) (some head)

/-- Every example of the schema is a valid value of its field. -/
theorem examples_parse (validProxy : String → Bool) {x : φ} (hx : Floats.parse "86400000" = some x)
    (hfinite : Floats.isFinite x = true) :
    ∀ f ∈ fields, ∃ v : TomlValue φ δ, f.parse validProxy f.exampleText = .ok v := by
  have htimeout : ∃ v : TomlValue φ δ, Field.parse validProxy ⟨"SESSION_IDLE_TIMEOUT_MS",
      .milliseconds, "86400000", "会话空闲毫秒数；非正值禁用清理"⟩ "86400000" = .ok v := by
    refine ⟨.float x, ?_⟩
    simp only [Field.parse, Kind.parseValue, hx, Option.map_some, Field.read, Kind.readRaw,
      TomlValue.asFloat, Option.some_or, Option.filter_some, hfinite, if_true]
    rfl
  intro f hf
  fin_cases hf
  all_goals first | exact htimeout | exact ⟨_, rfl⟩

theorem template_isSome {D : Type} (toml : Toml D φ δ) (validProxy : String → Bool) {x : φ}
    (hx : Floats.parse "86400000" = some x) (hfinite : Floats.isFinite x = true) :
    (template toml validProxy).isSome := by
  have hall : ∀ f ∈ fields, ∃ v : TomlValue φ δ, f.parse validProxy f.exampleText = .ok v :=
    examples_parse validProxy hx hfinite
  unfold template
  generalize fields = l at hall
  have hfold : ∀ out : String, (l.foldl (fun out f =>
      match out, (f.parse validProxy f.exampleText : Except String (TomlValue φ δ)) with
      | some out, .ok value => some (out ++ "# " ++ f.description ++ "\n# " ++ f.key ++ " = " ++
          toml.display value ++ "\n\n")
      | _, _ => none) (some out)).isSome := by
    induction l with
    | nil => exact fun _ => rfl
    | cons f l ih =>
      intro out
      obtain ⟨v, hv⟩ := hall f List.mem_cons_self
      rw [List.foldl_cons, hv]
      exact ih (fun g hg => hall g (List.mem_cons_of_mem f hg)) _
  exact hfold _
/-- The directory of a file, and a path in it. -/
def joinPath (parent name : String) : String :=
  if parent = "" then name
  else if endsWith parent "/" then parent ++ name
  else parent ++ "/" ++ name

/-- The text of a field of a file in the directory `parent`; relative paths start there. -/
def fileValue (validProxy : String → Bool) (parent : String)
    (entry : String × TomlValue φ δ) : Except String (String × String) := do
  let f ← field entry.1
  let value ← f.read validProxy entry.2
  match f.kind with
  | .path => pure (entry.1, if isAbsolute value then value else joinPath parent value)
  | _ => pure (entry.1, value)

/-- `values` of the items of a document in a directory. -/
def values (validProxy : String → Bool) (parent : String) (items : List (String × TomlItem φ δ)) :
    Except String (List (String × String)) :=
  match items.lookup "schema_version" with
  | some (.value (.integer 1)) =>
    if items.any fun item => item.1 ≠ "schema_version" && item.1 ≠ "runtime" then
      .error "未知配置表"
    else
      match items.lookup "runtime" with
      | none => .ok []
      | some (.value _) => .error "runtime 必须为表"
      | some (.table entries) => entries.mapM (fileValue validProxy parent)
  | _ => .error "schema_version 必须为 1"

/-- A document that a server can start with. -/
def check (validProxy : String → Bool) (parent : String) (items : List (String × TomlItem φ δ)) :
    Except String Unit := do
  let texts ← values validProxy parent items
  let _ ← tryFromLookup (texts.lookup ·)

/-- The document is a valid configuration. -/
def Valid (validProxy : String → Bool) (parent : String) (items : List (String × TomlItem φ δ)) :
    Prop := check validProxy parent items = .ok ()

end Values

end PrtsMcp.Config
