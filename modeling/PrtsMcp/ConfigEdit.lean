import PrtsMcp.ConfigSchema
import PrtsMcp.Runs

/-!
# Configuration edits

Processes that edit one configuration file, interleaved step by step: the checks of a request, the
lock beside the file, the draft of the new text in a temporary file and its publication.
-/
namespace PrtsMcp.Config

open Runs (EveryPrefix EveryStep)

inductive Change where
  | init (force : Bool)
  | set (key value : String)
  | unset (key : String)
  deriving DecidableEq, Repr

structure Failure where
  code : ℕ
  message : String
  deriving DecidableEq, Repr

def Failure.operation (message : String) : Failure := ⟨1, message⟩

def Failure.of (message : String) : Failure := ⟨2, message⟩

/-- A path that ends in a file name, with the spelling of its directory. -/
structure FilePath where
  parent : String
  name : String
  deriving DecidableEq, Repr

def FilePath.text (path : FilePath) : String := joinPath path.parent path.name

def FilePath.lockPath (path : FilePath) : String := path.text ++ ".lock"

/-- The arguments of a process, and whether a variable is in its environment. -/
structure Request where
  path : FilePath
  change : Change
  dryRun : Bool
  environment : String → Bool

/-- What stands at the target; a file has the identity that `path_token` reads. -/
inductive Target where
  | absent
  | file (text : String) (token : ℕ)
  | symlink
  | directory (token : ℕ)
  deriving DecidableEq, Repr

def Target.token : Target → Option ℕ
  | file _ token => some token
  | directory token => some token
  | absent | symlink => none

def Target.isFile : Target → Bool
  | file _ _ => true
  | _ => false

def Target.exists : Target → Bool
  | absent => false
  | _ => true

/-- The libraries, the file system's names and the requests of the processes `ι`. -/
structure Site (ι D φ δ : Type) where
  toml : Toml D φ δ
  validProxy : String → Bool
  canonicalize : String → String
  lockIsLink : String → Bool
  request : ι → Request

/-- The report of an edit. -/
structure Report (φ : Type) where
  path : String
  dryRun : Bool
  changedKey : Option String
  proposed : Option (JsonValue φ)
  template : Option String
  overriddenByEnvironment : Bool

/-- A prepared edit: where, over which file, and the new document. -/
structure Draft (D : Type) where
  path : FilePath
  original : Option ℕ
  doc : D

abbrev Answer (φ : Type) := Except Failure (Report φ)

/-- What a process does next. -/
inductive Pc (D φ : Type) where
  | starting
  | checking
  | creatingDir
  | canonicalizing
  | creatingLockDir (path : FilePath)
  | checkingLock (path : FilePath)
  | openingLock (path : FilePath)
  | locking (path : FilePath)
  | rechecking (path : FilePath)
  | stamping (path : FilePath)
  | reading (path : FilePath) (original : Option ℕ)
  | creatingTemp (draft : Draft D)
  | writing (draft : Draft D)
  | permitting (draft : Draft D)
  | syncing (draft : Draft D)
  | comparing (draft : Draft D)
  | replacing (draft : Draft D)
  | removing (path : FilePath) (failure : Failure)
  | returning (path : FilePath) (answer : Answer φ)
  | done (answer : Answer φ)
  | dead

/-- A replacement of the file by the process `editor`. -/
structure Publication (ι : Type) where
  editor : ι
  before : Target
  after : Target
  deriving DecidableEq, Repr

/-- `locks` gives the process that has the lock on a lock file and `temps` the temporary file of
each process. No step reads `history`, which collects the publications. -/
structure World (ι D φ : Type) where
  target : Target
  locks : String → Option ι
  temps : ι → Option String
  pc : ι → Pc D φ
  history : List (Publication ι)

def start {ι D φ : Type} (target : Target) : World ι D φ :=
  ⟨target, fun _ => none, fun _ => none, fun _ => .starting, []⟩

/-- The outcome of one operation: its error, what a failed write leaves, and the identity of a file
that is moved. -/
structure Io where
  error : Option String
  left : String
  token : ℕ
  deriving DecidableEq, Repr

def Io.ok : Io := ⟨none, "", 0⟩

inductive Event (ι : Type) where
  | act (p : ι) (io : Io)
  | kill (p : ι)
  deriving DecidableEq, Repr

variable {ι D φ δ : Type}

/-! ## The edit of a document -/

def stripRuntime (key : String) : String :=
  if "runtime.".toList.isPrefixOf key.toList then String.ofList (key.toList.drop 8) else key

def Change.key : Change → Option String
  | init _ => none
  | set key _ => some (stripRuntime key)
  | unset key => some (stripRuntime key)

def Change.isInit : Change → Bool
  | init _ => true
  | _ => false

/-- A message becomes a failure of the request. -/
def orFail {α : Type} (result : Except String α) : Except Failure α := result.mapError .of

section Amend

variable [Floats φ]

/-- The value that a `set` may store. -/
def settable (validProxy : String → Bool) (key value : String) :
    Except Failure (TomlValue φ δ) := do
  let f ← orFail (field key)
  if sensitive key then throw (.of "敏感配置请通过环境变量或手工编辑文件设置")
  else orFail (f.parse validProxy value)

/-- The checks of a request before anything is created. -/
def Site.checkRequest (site : Site ι D φ δ) : Change → Except Failure Unit
  | .init _ => .ok ()
  | .set key value =>
    (settable site.validProxy (stripRuntime key) value : Except Failure (TomlValue φ δ)).map
      fun _ => ()
  | .unset key => (orFail (field (stripRuntime key))).map fun _ => ()

/-- The changed document, unchecked. -/
def Site.change (site : Site ι D φ δ) (doc : D) : Change → Except Failure D
  | .init _ => .ok doc
  | .set key value =>
    (settable site.validProxy (stripRuntime key) value).map
      (site.toml.setRuntime doc (stripRuntime key))
  | .unset key => do
    let _ ← orFail (field (stripRuntime key))
    match (site.toml.iter doc).lookup "runtime" with
    | some (.table _) => pure (site.toml.removeRuntime doc (stripRuntime key))
    | _ => pure doc

/-- The edit of a document that has been read, and the checks of its result. -/
def Site.amend (site : Site ι D φ δ) (path : FilePath) (doc : D) (change : Change) :
    Except Failure D :=
  match (site.toml.iter doc).lookup "runtime" with
  | some (.value _) => .error (.of "runtime 必须为表")
  | _ => do
    let changed ← site.change doc change
    orFail (check site.validProxy path.parent (site.toml.iter changed))
    pure changed

/-- `read_to_string` of the target. -/
def readTarget (target : Target) (io : Io) : Except String String :=
  match io.error, target with
  | some e, _ => .error e
  | none, .file text _ => .ok text
  | none, .directory _ => .error "Is a directory (os error 21)"
  | none, _ => .error "No such file or directory (os error 2)"

/-- `settings::document`, required. -/
def Site.document (site : Site ι D φ δ) (path : FilePath) (target : Target) (io : Io) :
    Except Failure D :=
  match readTarget target io with
  | .error e => .error (.of ("无法读取配置 " ++ path.text ++ ": " ++ e))
  | .ok text =>
    match site.toml.parse text with
    | none => .error (.of "配置 TOML 语法无效")
    | some doc => .ok doc

/-- The document that an edit starts from; `none` if the template is broken. -/
def Site.base (site : Site ι D φ δ) (path : FilePath) (target : Target) (io : Io) :
    Change → Option (Except Failure D)
  | .init force =>
    if target.exists && !force then some (.error (.of "配置文件已存在；覆盖须使用 --force"))
    else ((template site.toml site.validProxy).bind site.toml.parse).map .ok
  | _ => some (site.document path target io)

def runtimeItem (toml : Toml D φ δ) (doc : D) (key : String) : Option (TomlValue φ δ) :=
  match (toml.iter doc).lookup "runtime" with
  | some (.table entries) => entries.lookup key
  | _ => none

/-- The new value of a key, redacted where it is a secret. -/
def proposedValue (toml : Toml D φ δ) (doc : D) (key : String) : JsonValue φ :=
  match runtimeItem toml doc key with
  | none => .null
  | some v =>
    if redacted key then .string "[redacted]"
    else
      match v with
      | .boolean b => .bool b
      | .integer n => .number (.ofI64 n)
      | .float x => if Floats.isFinite x then .number (.float x) else .null
      | .string s => .string s
      | .other _ => .null

def Site.report (site : Site ι D φ δ) (p : ι) (path : FilePath) (doc : D) : Report φ where
  path := path.text
  dryRun := (site.request p).dryRun
  changedKey := (site.request p).change.key
  proposed := (site.request p).change.key.map (proposedValue site.toml doc)
  template :=
    if (site.request p).dryRun && (site.request p).change.isInit then some (site.toml.print doc)
    else none
  overriddenByEnvironment := (site.request p).change.key.any (site.request p).environment

end Amend

/-! ## The steps of a process -/

section Steps

variable [DecidableEq ι] [Floats φ]

@[simps]
def World.goto (w : World ι D φ) (p : ι) (pc : Pc D φ) : World ι D φ :=
  { w with pc := Function.update w.pc p pc }

@[simps]
def World.setTemp (w : World ι D φ) (p : ι) (temp : Option String) : World ι D φ :=
  { w with temps := Function.update w.temps p temp }

@[simps]
def World.takeLock (w : World ι D φ) (p : ι) (lockPath : String) : World ι D φ :=
  { w with locks := Function.update w.locks lockPath (some p) }

/-- The locks of a process go when its handle is closed. -/
@[simps]
def World.release (w : World ι D φ) (p : ι) : World ι D φ :=
  { w with locks := fun lockPath => if w.locks lockPath = some p then none else w.locks lockPath }

/-- The rename of a temporary file to the target. -/
@[simps]
def World.publish (w : World ι D φ) (p : ι) (text : String) (token : ℕ) : World ι D φ :=
  { w with
    target := .file text token
    temps := Function.update w.temps p none
    history := w.history ++ [⟨p, w.target, .file text token⟩] }

/-- The process ends without the lock. -/
def World.fail (w : World ι D φ) (p : ι) (failure : Failure) : World ι D φ :=
  w.goto p (.done (.error failure))

/-- One operation that can fail, and what comes after it. -/
def World.attempt (w : World ι D φ) (p : ι) (io : Io) (next : World ι D φ) : World ι D φ :=
  match io.error with
  | none => next
  | some e => w.fail p (.operation e)

/-- An operation on the draft, which is removed where it fails. -/
def World.attemptDraft (w : World ι D φ) (p : ι) (io : Io) (path : FilePath)
    (next : World ι D φ) : World ι D φ :=
  match io.error with
  | none => next
  | some e => w.goto p (.removing path (.operation e))

/-- The request is checked at the spelled path. -/
def Site.begin (site : Site ι D φ δ) (w : World ι D φ) (p : ι) : World ι D φ :=
  if w.target = .symlink then w.fail p (.of "配置编辑不接受符号链接；请明确指定目标文件")
  else
    match site.checkRequest (site.request p).change with
    | .error failure => w.fail p failure
    | .ok () => w.goto p .checking

def Site.checkExists (site : Site ι D φ δ) (w : World ι D φ) (p : ι) : World ι D φ :=
  if !(site.request p).change.isInit && !w.target.isFile then
    w.fail p (.of "配置文件不存在或不是普通文件；请先 config init")
  else if (site.request p).dryRun then w.goto p (.rechecking (site.request p).path)
  else w.goto p .creatingDir

/-- The edit of what the target holds. -/
def Site.prepare (site : Site ι D φ δ) (w : World ι D φ) (p : ι) (io : Io) (path : FilePath)
    (original : Option ℕ) : World ι D φ :=
  match site.base path w.target io (site.request p).change with
  | none => (w.release p).goto p .dead
  | some base =>
    match base.bind fun doc => site.amend path doc (site.request p).change with
    | .error failure => w.goto p (.returning path (.error failure))
    | .ok doc =>
      if (site.request p).dryRun then
        w.goto p (.returning path (.ok (site.report p path doc)))
      else w.goto p (.creatingTemp ⟨path, original, doc⟩)

/-- The next step of a process. -/
def act (site : Site ι D φ δ) (w : World ι D φ) (p : ι) (io : Io) : World ι D φ :=
  match w.pc p with
  | .starting => site.begin w p
  | .checking => site.checkExists w p
  | .creatingDir => w.attempt p io (w.goto p .canonicalizing)
  | .canonicalizing =>
    let path := (site.request p).path
    w.attempt p io (w.goto p (.creatingLockDir ⟨site.canonicalize path.parent, path.name⟩))
  | .creatingLockDir path => w.attempt p io (w.goto p (.checkingLock path))
  | .checkingLock path =>
    if site.lockIsLink path.lockPath then w.fail p (.of "配置锁不能是符号链接")
    else w.goto p (.openingLock path)
  | .openingLock path => w.attempt p io (w.goto p (.locking path))
  | .locking path =>
    w.attempt p io
      (if (w.locks path.lockPath).isSome then w
      else (w.takeLock p path.lockPath).goto p (.rechecking path))
  | .rechecking path =>
    if w.target = .symlink then
      w.goto p (.returning path (.error (.of "配置目标已变为符号链接")))
    else w.goto p (.stamping path)
  | .stamping path => w.goto p (.reading path w.target.token)
  | .reading path original => site.prepare w p io path original
  | .creatingTemp draft =>
    w.attemptDraft p io draft.path ((w.setTemp p (some "")).goto p (.writing draft))
  | .writing draft =>
    (w.setTemp p (some io.left)).attemptDraft p io draft.path
      ((w.setTemp p (some (site.toml.print draft.doc))).goto p (.permitting draft))
  | .permitting draft =>
    if w.target.token.isSome then w.attemptDraft p io draft.path (w.goto p (.syncing draft))
    else w.goto p (.syncing draft)
  | .syncing draft => w.attemptDraft p io draft.path (w.goto p (.comparing draft))
  | .comparing draft =>
    if w.target.token ≠ draft.original then
      w.goto p (.removing draft.path (.operation "配置文件被其他编辑器修改，请重试"))
    else w.goto p (.replacing draft)
  | .replacing draft =>
    match io.error, w.target, w.temps p with
    | some e, _, _ => w.goto p (.removing draft.path (.operation e))
    | none, .directory _, _ =>
      w.goto p (.removing draft.path (.operation "Is a directory (os error 21)"))
    | none, _, none =>
      w.goto p (.removing draft.path (.operation "No such file or directory (os error 2)"))
    | none, _, some text =>
      (w.publish p text io.token).goto p
        (.returning draft.path (.ok (site.report p draft.path draft.doc)))
  | .removing path failure =>
    match io.error with
    | none => (w.setTemp p none).goto p (.returning path (.error failure))
    | some _ => w.goto p (.returning path (.error failure))
  | .returning _ answer => (w.release p).goto p (.done answer)
  | .done _ | .dead => w

/-- A killed process leaves its temporary file, and its lock goes. -/
def kill (w : World ι D φ) (p : ι) : World ι D φ :=
  match w.pc p with
  | .done _ => w
  | _ => (w.release p).goto p .dead

def next (site : Site ι D φ δ) (w : World ι D φ) : Event ι → World ι D φ
  | .act p io => act site w p io
  | .kill p => kill w p

def run (site : Site ι D φ δ) (w : World ι D φ) (es : List (Event ι)) : World ι D φ :=
  es.foldl (next site) w

theorem run_snoc (site : Site ι D φ δ) (w : World ι D φ) (es : List (Event ι)) (e : Event ι) :
    run site w (es ++ [e]) = next site (run site w es) e := by
  simp [run]

end Steps

/-! ## The library and what an edit does to a document -/

/-- What the TOML library documents: a document that is printed and parsed keeps its items, and
the edits change one key of the `runtime` table. A value set where that table is missing comes in an
inline table. -/
structure Toml.Lawful (toml : Toml D φ δ) : Prop where
  parse_print : ∀ doc, ∃ doc', toml.parse (toml.print doc) = some doc' ∧
    toml.iter doc' = toml.iter doc
  iter_setRuntime : ∀ doc key value entries, (toml.iter doc).lookup "runtime" =
    some (.table entries) → toml.iter (toml.setRuntime doc key value) =
      OrderedMap.insert "runtime" (.table (OrderedMap.insert key value entries)) (toml.iter doc)
  setRuntime_missing : ∀ doc key value, (toml.iter doc).lookup "runtime" = none →
    ∃ v, (toml.iter (toml.setRuntime doc key value)).lookup "runtime" = some (.value v)
  iter_removeRuntime : ∀ doc key entries, (toml.iter doc).lookup "runtime" =
    some (.table entries) → toml.iter (toml.removeRuntime doc key) =
      OrderedMap.insert "runtime" (.table (entries.filter (·.1 ≠ key))) (toml.iter doc)

/-- A key of the `runtime` table. -/
def runtimeKey (items : List (String × TomlItem φ δ)) (key : String) : Option (TomlValue φ δ) :=
  match items.lookup "runtime" with
  | some (.table entries) => entries.lookup key
  | _ => none

/-- The key has the value and everything else is as it was. -/
structure ChangedOnly (key : String) (value : Option (TomlValue φ δ))
    (old new : List (String × TomlItem φ δ)) : Prop where
  changed : runtimeKey new key = value
  others : ∀ k, k ≠ key → runtimeKey new k = runtimeKey old k
  items : ∀ k, k ≠ "runtime" → new.lookup k = old.lookup k

theorem changedOnly_insert {key : String} {value : TomlValue φ δ}
    {entries : List (String × TomlValue φ δ)} {old : List (String × TomlItem φ δ)}
    (h : old.lookup "runtime" = some (.table entries)) :
    ChangedOnly key (some value) old
      (OrderedMap.insert "runtime" (.table (OrderedMap.insert key value entries)) old) := by
  constructor
  · rw [runtimeKey, OrderedMap.lookup_insert_self]
    exact OrderedMap.lookup_insert_self
  · intro k hk
    rw [runtimeKey, OrderedMap.lookup_insert_self, runtimeKey, h]
    exact OrderedMap.lookup_insert_of_ne hk
  · intro k hk
    exact OrderedMap.lookup_insert_of_ne hk

theorem changedOnly_filter {key : String} {entries : List (String × TomlValue φ δ)}
    {old : List (String × TomlItem φ δ)} (h : old.lookup "runtime" = some (.table entries)) :
    ChangedOnly key none old
      (OrderedMap.insert "runtime" (.table (entries.filter (·.1 ≠ key))) old) := by
  constructor
  · rw [runtimeKey, OrderedMap.lookup_insert_self]
    exact OrderedMap.lookup_filter_self
  · intro k hk
    rw [runtimeKey, OrderedMap.lookup_insert_self, runtimeKey, h]
    exact OrderedMap.lookup_filter_of_ne hk
  · intro k hk
    exact OrderedMap.lookup_insert_of_ne hk

section Effects

variable [Floats φ]

/-- The items of a new document are those that the change makes of the state it replaces. -/
def Site.Effect (site : Site ι D φ δ) (before : Target) (new : List (String × TomlItem φ δ)) :
    Change → Prop
  | .init force => (force ∨ before = .absent) ∧ ∃ text doc,
      template site.toml site.validProxy = some text ∧ site.toml.parse text = some doc ∧
        new = site.toml.iter doc
  | .set key value => ∃ text token doc v, before = .file text token ∧
      site.toml.parse text = some doc ∧ settable site.validProxy (stripRuntime key) value = .ok v ∧
        ChangedOnly (stripRuntime key) (some v) (site.toml.iter doc) new
  | .unset key => ∃ text token doc, before = .file text token ∧
      site.toml.parse text = some doc ∧
        ChangedOnly (stripRuntime key) none (site.toml.iter doc) new

/-- A publication whose edit is in effect in a valid configuration. -/
def Site.Published (site : Site ι D φ δ) (parent : String) (pub : Publication ι) : Prop :=
  ∃ text token doc, pub.after = .file text token ∧ site.toml.parse text = some doc ∧
    site.Effect pub.before (site.toml.iter doc) (site.request pub.editor).change ∧
    Valid site.validProxy parent (site.toml.iter doc)

end Effects

end PrtsMcp.Config
