import PrtsMcp.DataSnapshot
import PrtsMcp.Fallible
import PrtsMcp.Jobs
import PrtsMcp.JsNumber
import PrtsMcp.SourceGuard

/-!
# Configuration reload

A candidate configuration is compared with the applied one, published to the coordinator of the sync
jobs and then applied, while other callers and the jobs go on.
-/
namespace PrtsMcp.Reload

open Fallible (bind_eq_ok)
open Runs (EveryPrefix EveryStep)
open DataSnapshot (DataBackend)
open SourceGuard (DataSource)

inductive ValidationMode where
  | normal
  | strict
  deriving DecidableEq, Repr

inductive OutputChannel where
  | content
  | structured
  | both
  deriving DecidableEq, Repr

structure NetworkConfig where
  values : List (String × String)
  extraCa : Option String
  systemDiscovery : Bool
  deriving DecidableEq, Repr

structure RuntimeConfig where
  network : NetworkConfig
  controlEndpoint : Option String
  instanceName : String
  dataSource : DataSource
  dataBackend : DataBackend
  allowJsonFallback : Bool
  validationMode : ValidationMode
  databaseDir : String
  customDatabase : Option String
  gamedataPath : String
  isCustomGamedata : Bool
  excelPath : String
  levelsPath : String
  storyjsonZip : String
  storySyncEnabled : Bool
  imagesEnabled : Bool
  localImage : Bool
  originalImage : Bool
  prtsImageCache : Bool
  imagesPath : String
  autoSyncIntervalMs : UInt64
  githubToken : Option String
  githubMirrors : List String
  sessionIdleTimeoutMs : Option ℚ
  outputChannel : OutputChannel
  host : String
  portRaw : Option String
  debugToken : Option String
  metricsEnabled : Bool
  bundleRoot : Option String
  deriving DecidableEq

/-- The port that is bound for a spelling of it. -/
def bindPort (portRaw : Option String) : ℕ :=
  (portRaw.elim (.finite 3000) JsNumber.jsParseNumber).tsBindPort

variable {ν γ ι : Type}

/-- A field of a configuration report, whose values are redacted where they are secrets. -/
structure Field (ν : Type) where
  key : Option String
  value : ν
  deriving DecidableEq, Repr

structure Report (ν : Type) where
  scope : String
  fields : Option (List (Field ν))
  deriving DecidableEq, Repr

/-- What reading the configuration file, with the arguments and the environment of the start,
gives. -/
structure Settings (ν : Type) where
  config : RuntimeConfig
  transport : String
  report : Report ν

structure Applied (ν : Type) where
  report : Report ν
  config : RuntimeConfig
  revision : UInt64

structure Transport (γ : Type) where
  client : γ
  mirrors : List String
  token : Option String

/-- What `Url::parse` gives. -/
structure Url where
  scheme : String
  hostStr : Option String
  deriving DecidableEq, Repr

/-- The HTTP library. -/
structure Http (γ : Type) where
  headerValue : String → Bool
  parseUrl : String → Option Url
  buildClient : NetworkConfig → Option γ

inductive Action where
  | reload
  | restart
  deriving DecidableEq, Repr

structure Change (ν : Type) where
  key : String
  values : Option (ν × ν)
  action : Action
  deriving DecidableEq, Repr

/-- The answer to a diff or a reload. -/
structure Evaluation (ν : Type) where
  revision : UInt64
  restartRequired : Bool
  changes : List (Change ν)
  applied : Bool
  deriving DecidableEq, Repr

def allowed : List String :=
  ["PRTS_AUTO_SYNC_INTERVAL_SECONDS", "GITHUB_TOKEN", "GITHUB_MIRRORS"]

def proxyKeys : List String := ["HTTP_PROXY", "HTTPS_PROXY", "ALL_PROXY", "NO_PROXY"]

/-- Values are redacted in the report, so secrets are compared in the configuration. -/
def hasChanged [DecidableEq ν] (old new : RuntimeConfig) (key : String) (before after : ν) : Bool :=
  if key = "GITHUB_TOKEN" then old.githubToken ≠ new.githubToken
  else if key = "GITHUB_MIRRORS" then old.githubMirrors ≠ new.githubMirrors
  else if key = "PRTS_DEBUG_TOKEN" then old.debugToken ≠ new.debugToken
  else if key ∈ proxyKeys then old.network.values.lookup key ≠ new.network.values.lookup key
  else before ≠ after

def fieldChange [DecidableEq ν] (old new : RuntimeConfig) (fields : Field ν × Field ν) :
    Except String (Option (Change ν)) :=
  match fields.1.key with
  | none => .error "配置字段缺少 key"
  | some key =>
    .ok (if hasChanged old new key fields.1.value fields.2.value then
      some ⟨key, some (fields.1.value, fields.2.value), if key ∈ allowed then .reload else .restart⟩
    else none)

def fieldChanges [DecidableEq ν] (applied : Applied ν) (candidate : Settings ν) :
    Except String (List (Change ν)) :=
  match applied.report.fields, candidate.report.fields with
  | none, _ => .error "配置快照缺少 fields"
  | _, none => .error "候选配置缺少 fields"
  | some before, some after =>
    ((before.zip after).mapM (fieldChange applied.config candidate.config)).map
      (List.filterMap id)

/-- The candidate with the fields of the applied configuration that a reload may change. -/
def immutable (old new : RuntimeConfig) : RuntimeConfig :=
  { new with
    autoSyncIntervalMs := old.autoSyncIntervalMs
    githubToken := old.githubToken
    githubMirrors := old.githubMirrors
    portRaw := if bindPort new.portRaw = bindPort old.portRaw then old.portRaw else new.portRaw }

def requiresRestart (transport : String) (old : RuntimeConfig) (candidate : Settings ν) : Bool :=
  immutable old candidate.config ≠ old || candidate.transport ≠ transport

def derivedChange (restart : Bool) (changes : List (Change ν)) : List (Change ν) :=
  if restart && !changes.any (·.action = .restart) then
    changes ++ [⟨"derived_configuration", none, .restart⟩]
  else changes

def Http.validMirror (http : Http γ) (mirror : String) : Bool :=
  (http.parseUrl mirror).any fun url => ["http", "https"].contains url.scheme && url.hostStr.isSome

/-- The checks of the token and the mirrors, which report no secret. -/
def Http.checkReloadable (http : Http γ) (config : RuntimeConfig) : Except String Unit :=
  if config.githubToken.any fun token => !http.headerValue ("Bearer " ++ token) then
    .error "GITHUB_TOKEN 不能用作 HTTP 请求头"
  else if config.githubMirrors.all http.validMirror then .ok ()
  else .error "GITHUB_MIRRORS 必须为有效 HTTP(S) URL"

/-- `ReqwestTransport::with_network`. -/
def Http.withNetwork (http : Http γ) (config : RuntimeConfig) : Except String (Transport γ) :=
  match http.buildClient config.network with
  | some client => .ok ⟨client, config.githubMirrors, config.githubToken⟩
  | none => .error "无法构建同步 HTTP 客户端"

/-- A candidate that may be published. -/
structure Prepared (ν γ : Type) where
  settings : Settings ν
  transport : Transport γ
  evaluation : Evaluation ν

/-- The candidate keeps the bundle it was started with. -/
def Settings.keepBundle (old : RuntimeConfig) (candidate : Settings ν) : Settings ν :=
  { candidate with config.bundleRoot := old.bundleRoot }

def refuseIf (refused : Bool) (message : String) : Except String Unit :=
  if refused then .error message else .ok ()

/-- `evaluate` up to the publication: an error, the answer to a diff, or a prepared candidate. -/
def assess [DecidableEq ν] (http : Http γ) (transport : String) (applied : Applied ν)
    (expected : Option UInt64) (read : Except String (Settings ν)) :
    Except String (Evaluation ν ⊕ Prepared ν γ) := do
  refuseIf (expected.any (· ≠ applied.revision)) "配置 revision 已变化，请重新 diff"
  let settings ← read
  let candidate := settings.keepBundle applied.config
  let changes ← fieldChanges applied candidate
  let restart := requiresRestart transport applied.config candidate
  http.checkReloadable candidate.config
  refuseIf (expected.isSome && restart)
    "候选配置包含需要重启的变更；整批未应用，请先运行 runtime config diff"
  let evaluation : Evaluation ν := ⟨applied.revision, restart, derivedChange restart changes, false⟩
  match expected with
  | none => pure (.inl evaluation)
  | some _ =>
    (http.withNetwork candidate.config).map fun client => .inr ⟨candidate, client, evaluation⟩

/-! ## The holders of the configuration -/

/-- What a call does next. -/
inductive Pc (ν γ : Type) where
  | idle
  | entering
  | reading
  | replacing (prepared : Prepared ν γ)
  | storing (prepared : Prepared ν γ) (revision : UInt64)
  | done (answer : Except String (Evaluation ν))

/-- `holder` has the lock of the applied configuration, and `expected` is the revision that a
call was made with. -/
structure World (ι ν γ : Type) where
  applied : Applied ν
  jobs : Jobs.System RuntimeConfig (Transport γ)
  holder : Option ι
  expected : ι → Option UInt64
  pc : ι → Pc ν γ

/-- Both holders start with one configuration. -/
def start (report : Report ν) (config : RuntimeConfig) (transport : Transport γ) : World ι ν γ :=
  ⟨⟨report, config, 1⟩, .new config transport, none, fun _ => none, fun _ => .idle⟩

/-- The events of the jobs but for `replace`, which only a reload calls. -/
abbrev JobEvent (γ : Type) :=
  { e : Jobs.Event RuntimeConfig (Transport γ) // ∀ r c t, e ≠ .replace r c t }

inductive Event (ι ν γ : Type) where
  | begin (q : ι) (expected : Option UInt64)
  | act (q : ι) (read : Except String (Settings ν))
  | job (e : JobEvent γ)

@[simps]
def World.setHolder (w : World ι ν γ) (holder : Option ι) : World ι ν γ := { w with holder }

@[simps]
def World.setJobs (w : World ι ν γ) (jobs : Jobs.System RuntimeConfig (Transport γ)) :
    World ι ν γ := { w with jobs }

@[simps]
def World.setApplied (w : World ι ν γ) (applied : Applied ν) : World ι ν γ := { w with applied }

section Steps

variable [DecidableEq ι] [DecidableEq ν]

@[simps]
def World.goto (w : World ι ν γ) (q : ι) (pc : Pc ν γ) : World ι ν γ :=
  { w with pc := Function.update w.pc q pc }

/-- The call returns, and its lock is released. -/
def World.answer (w : World ι ν γ) (q : ι) (answer : Except String (Evaluation ν)) : World ι ν γ :=
  (w.setHolder none).goto q (.done answer)

def World.begin (w : World ι ν γ) (q : ι) (expected : Option UInt64) : World ι ν γ :=
  match w.pc q with
  | .idle => { w.goto q .entering with expected := Function.update w.expected q expected }
  | _ => w

/-- What is applied after the coordinator has taken the candidate. -/
def Prepared.apply (p : Prepared ν γ) (revision : UInt64) : Applied ν :=
  ⟨{ p.settings.report with scope := "runtime" }, p.settings.config, revision⟩

/-- The next step of an `evaluate` call. -/
def evaluate (http : Http γ) (transport : String) (w : World ι ν γ) (q : ι)
    (read : Except String (Settings ν)) : World ι ν γ :=
  match w.pc q with
  | .entering => if w.holder.isSome then w else (w.setHolder (some q)).goto q .reading
  | .reading =>
    match assess http transport w.applied (w.expected q) read with
    | .error e => w.answer q (.error e)
    | .ok (.inl evaluation) => w.answer q (.ok evaluation)
    | .ok (.inr prepared) => w.goto q (.replacing prepared)
  | .replacing prepared =>
    match w.jobs.coordinator.replace w.applied.revision prepared.settings.config
      prepared.transport with
    | .error e => w.answer q (.error e)
    | .ok (revision, coordinator) =>
      (w.setJobs { w.jobs with coordinator }).goto q (.storing prepared revision)
  | .storing prepared revision =>
    (w.setApplied (prepared.apply revision)).answer q
      (.ok { prepared.evaluation with revision, applied := true })
  | .idle | .done _ => w

def next (http : Http γ) (transport : String) (w : World ι ν γ) : Event ι ν γ → World ι ν γ
  | .begin q expected => w.begin q expected
  | .act q read => evaluate http transport w q read
  | .job e => w.setJobs (w.jobs.step e)

def run (http : Http γ) (transport : String) (w : World ι ν γ) (es : List (Event ι ν γ)) :
    World ι ν γ := es.foldl (next http transport) w

theorem run_snoc (http : Http γ) (transport : String) (w : World ι ν γ) (es : List (Event ι ν γ))
    (e : Event ι ν γ) :
    run http transport w (es ++ [e]) = next http transport (run http transport w es) e := by
  simp [run]

end Steps

/-- The new configuration differs from the old one in the interval, the token, the mirrors and the
spelling of the port alone. -/
structure ReloadableOnly (old new : RuntimeConfig) : Prop where
  fields : { new with
    autoSyncIntervalMs := old.autoSyncIntervalMs
    githubToken := old.githubToken
    githubMirrors := old.githubMirrors
    portRaw := old.portRaw } = old
  port : bindPort new.portRaw = bindPort old.portRaw

/-- The coordinator has the applied configuration under its revision. -/
def World.Agrees (w : World ι ν γ) : Prop :=
  w.jobs.coordinator.snapshot.config = w.applied.config ∧
    w.jobs.coordinator.snapshot.revision = w.applied.revision

section Assessment

variable [DecidableEq ν] {http : Http γ} {transport : String} {applied : Applied ν}
  {expected : Option UInt64} {read : Except String (Settings ν)}

theorem refuseIf_eq_ok {refused : Bool} {message : String} {u : Unit}
    (h : refuseIf refused message = .ok u) : refused = false := by
  cases refused with
  | false => rfl
  | true => cases h

omit [DecidableEq ν] in
theorem reloadableOnly_of_not_restart {old : RuntimeConfig} {candidate : Settings ν}
    (h : requiresRestart transport old candidate = false) :
    ReloadableOnly old candidate.config := by
  have himmutable : immutable old candidate.config = old := by
    have hor := Bool.or_eq_false_iff.mp h
    simpa using hor.1
  have hport : bindPort candidate.config.portRaw = bindPort old.portRaw := by
    by_contra hne
    have hraw := congrArg RuntimeConfig.portRaw himmutable
    simp only [immutable, if_neg hne] at hraw
    exact hne (congrArg bindPort hraw)
  refine ⟨?_, hport⟩
  simpa only [immutable, if_pos hport] using himmutable

/-- A candidate that is prepared was asked for under the current revision, and changes no field
that needs a restart. -/
theorem assess_eq_prepared {prepared : Prepared ν γ}
    (h : assess http transport applied expected read = .ok (.inr prepared)) :
    expected = some applied.revision ∧ ReloadableOnly applied.config prepared.settings.config := by
  obtain ⟨_, hrevision, h⟩ := bind_eq_ok h
  obtain ⟨settings, -, h⟩ := bind_eq_ok h
  obtain ⟨changes, -, h⟩ := bind_eq_ok h
  obtain ⟨_, -, h⟩ := bind_eq_ok h
  obtain ⟨_, hrestart, h⟩ := bind_eq_ok h
  replace hrevision := refuseIf_eq_ok hrevision
  replace hrestart := refuseIf_eq_ok hrestart
  cases expected with
  | none => cases h
  | some revision =>
    dsimp only at h
    cases hclient : http.withNetwork (settings.keepBundle applied.config).config with
    | error e =>
      rw [hclient] at h
      cases h
    | ok client =>
      rw [hclient] at h
      cases h
      refine ⟨?_, reloadableOnly_of_not_restart (by simpa using hrestart)⟩
      simpa using hrevision

/-- The answer to a diff says that nothing was applied. -/
theorem assess_eq_evaluation {evaluation : Evaluation ν}
    (h : assess http transport applied expected read = .ok (.inl evaluation)) :
    evaluation.applied = false := by
  obtain ⟨_, -, h⟩ := bind_eq_ok h
  obtain ⟨settings, -, h⟩ := bind_eq_ok h
  obtain ⟨changes, -, h⟩ := bind_eq_ok h
  obtain ⟨_, -, h⟩ := bind_eq_ok h
  obtain ⟨_, -, h⟩ := bind_eq_ok h
  cases expected with
  | none =>
    cases h
    rfl
  | some revision =>
    dsimp only at h
    cases hclient : http.withNetwork (settings.keepBundle applied.config).config with
    | error e =>
      rw [hclient] at h
      cases h
    | ok client =>
      rw [hclient] at h
      cases h

end Assessment

section Safety

variable [DecidableEq ι] [DecidableEq ν] {http : Http γ} {transport : String} {w w' : World ι ν γ}
  {q : ι}

/-- The calls inside the lock of the applied configuration. -/
def Pc.Locked : Pc ν γ → Prop
  | .reading | .replacing _ | .storing _ _ => True
  | _ => False

/-- The two holders agree but while a call is between their updates, and such a call has a
candidate that may be applied. -/
structure Sound (w : World ι ν γ) : Prop where
  holder : ∀ q, (w.pc q).Locked → w.holder = some q
  agrees : (∀ q p r, w.pc q ≠ .storing p r) → w.Agrees
  replacing : ∀ q p, w.pc q = .replacing p → w.expected q = some w.applied.revision ∧
    ReloadableOnly w.applied.config p.settings.config
  storing : ∀ q p r, w.pc q = .storing p r → w.expected q = some w.applied.revision ∧
    ReloadableOnly w.applied.config p.settings.config ∧
    w.jobs.coordinator.snapshot.config = p.settings.config ∧
    w.jobs.coordinator.snapshot.revision = r ∧ r = w.applied.revision + 1

omit [DecidableEq ι] [DecidableEq ν] in
theorem start_sound (report : Report ν) (config : RuntimeConfig) (client : Transport γ) :
    Sound (start report config client : World ι ν γ) where
  holder q h := by cases h
  agrees _ := ⟨rfl, rfl⟩
  replacing q p h := by cases h
  storing q p r h := by cases h

omit [DecidableEq ι] [DecidableEq ν] in
theorem Sound.not_locked (h : Sound w) {p : ι} (hq : (w.pc q).Locked) (hp : p ≠ q) :
    ¬ (w.pc p).Locked := by
  intro hlocked
  exact hp (Option.some.inj ((h.holder p hlocked).symm.trans (h.holder q hq)))

omit [DecidableEq ν] in
/-- A step of call `q` that leaves both holders. -/
theorem Sound.move (h : Sound w) (q : ι) (pc : Pc ν γ) (hpcs : w'.pc = Function.update w.pc q pc)
    (happlied : w'.applied = w.applied)
    (hsnapshot : w'.jobs.coordinator.snapshot = w.jobs.coordinator.snapshot)
    (hexpected : ∀ p, w.pc p ≠ .idle → w'.expected p = w.expected p)
    (hothers : ∀ p, p ≠ q → w.holder = some p → w'.holder = some p)
    (hlocked : pc.Locked → w'.holder = some q) (hfrom : ∀ p r, w.pc q ≠ .storing p r)
    (hto : ∀ p r, pc ≠ .storing p r)
    (hreplacing : ∀ p, pc = .replacing p → w'.expected q = some w.applied.revision ∧
      ReloadableOnly w.applied.config p.settings.config) : Sound w' := by
  have hself : w'.pc q = pc := by rw [hpcs, Function.update_self]
  have hother : ∀ p, p ≠ q → w'.pc p = w.pc p := fun p hp => by
    rw [hpcs, Function.update_of_ne hp]
  refine ⟨fun p hp => ?_, fun hnone => ?_, fun p prepared hp => ?_, fun p prepared r hp => ?_⟩
  · by_cases hpq : p = q
    · subst hpq
      exact hlocked (hself ▸ hp)
    · exact hothers p hpq (h.holder p (hother p hpq ▸ hp))
  · have hbefore : w.Agrees := h.agrees fun p prepared r hp => by
      by_cases hpq : p = q
      · exact hfrom prepared r (hpq ▸ hp)
      · exact hnone p prepared r ((hother p hpq).trans hp)
    rw [World.Agrees, hsnapshot, happlied]
    exact hbefore
  · rw [happlied]
    by_cases hpq : p = q
    · subst hpq
      exact hreplacing prepared (hself.symm.trans hp)
    · rw [hother p hpq] at hp
      rw [hexpected p (by simp [hp])]
      exact h.replacing p prepared hp
  · rw [happlied, hsnapshot]
    by_cases hpq : p = q
    · subst hpq
      exact absurd (hself.symm.trans hp) (hto prepared r)
    · rw [hother p hpq] at hp
      rw [hexpected p (by simp [hp])]
      exact h.storing p prepared r hp

omit [DecidableEq ν] in
theorem answer_pc (w : World ι ν γ) (q : ι) (answer : Except String (Evaluation ν)) :
    (w.answer q answer).pc = Function.update w.pc q (.done answer) := rfl

omit [DecidableEq ν] in
/-- A call inside the lock that returns without having changed a holder. -/
theorem Sound.answer (h : Sound w) (hq : (w.pc q).Locked) (hfrom : ∀ p r, w.pc q ≠ .storing p r)
    (answer : Except String (Evaluation ν)) : Sound (w.answer q answer) := by
  apply h.move q (.done answer) (answer_pc w q answer)
  · rfl
  · rfl
  · exact fun _ _ => rfl
  · intro p hp hholder
    exact absurd (Option.some.inj (hholder.symm.trans (h.holder q hq))) hp
  · exact fun hlocked => by cases hlocked
  · exact hfrom
  · exact fun _ _ hto => by cases hto
  · exact fun _ hto => by cases hto

omit [DecidableEq ι] [DecidableEq ν] in
theorem replace_eq_ok {s : Jobs.State RuntimeConfig (Transport γ)} {expected revision : UInt64}
    {config : RuntimeConfig} {client : Transport γ} {s' : Jobs.State RuntimeConfig (Transport γ)}
    (h : s.replace expected config client = .ok (revision, s')) :
    s'.snapshot.config = config ∧ s'.snapshot.revision = revision ∧ revision = expected + 1 := by
  unfold Jobs.State.replace at h
  split at h
  · cases h
  · split at h
    · cases h
    · cases h
      exact ⟨rfl, rfl, rfl⟩

/-- One step of one call keeps the invariant. -/
theorem Sound.evaluate (h : Sound w) (q : ι) (read : Except String (Settings ν)) :
    Sound (evaluate http transport w q read) := by
  unfold Reload.evaluate
  cases hpc : w.pc q with
  | idle | done answer => exact h
  | entering =>
    dsimp only
    split
    · exact h
    · next hfree =>
      apply h.move q .reading
      · rfl
      · rfl
      · rfl
      · exact fun _ _ => rfl
      · intro p _ hp
        simp [hp] at hfree
      · exact fun _ => rfl
      · simp [hpc]
      · exact fun _ _ hto => by cases hto
      · exact fun _ hto => by cases hto
  | reading =>
    have hlocked : (w.pc q).Locked := hpc ▸ trivial
    have hfrom : ∀ p r, w.pc q ≠ .storing p r := by simp [hpc]
    dsimp only
    split
    · exact h.answer hlocked hfrom _
    · exact h.answer hlocked hfrom _
    · next prepared hassess =>
      apply h.move q (.replacing prepared)
      · rfl
      · rfl
      · rfl
      · exact fun _ _ => rfl
      · exact fun _ _ hp => hp
      · exact fun _ => h.holder q hlocked
      · exact hfrom
      · exact fun _ _ hto => by cases hto
      · intro p hp
        cases hp
        exact assess_eq_prepared hassess
  | replacing prepared =>
    have hlocked : (w.pc q).Locked := hpc ▸ trivial
    dsimp only
    split
    · exact h.answer hlocked (by simp [hpc]) _
    · next revision coordinator hreplace =>
      obtain ⟨hconfig, hrevision, hnew⟩ := replace_eq_ok hreplace
      obtain ⟨hexpected, honly⟩ := h.replacing q prepared hpc
      have hothers : ∀ p, p ≠ q → ¬ (w.pc p).Locked := fun p hp => h.not_locked hlocked hp
      refine ⟨fun p hp => ?_, fun hnone => ?_, fun p other hp => ?_, fun p other r hp => ?_⟩
      · by_cases hpq : p = q
        · exact hpq ▸ h.holder q hlocked
        · exact absurd (by simpa [hpq] using hp) (hothers p hpq)
      · exact absurd (by simp) (hnone q prepared revision)
      · by_cases hpq : p = q
        · subst hpq
          simp at hp
        · have hold : w.pc p = .replacing other := by simpa [hpq] using hp
          exact absurd (hold ▸ trivial) (hothers p hpq)
      · by_cases hpq : p = q
        · subst hpq
          obtain ⟨rfl, rfl⟩ : prepared = other ∧ revision = r := by simpa using hp
          exact ⟨hexpected, honly, hconfig, hrevision, hnew⟩
        · have hold : w.pc p = .storing other r := by simpa [hpq] using hp
          exact absurd (hold ▸ trivial) (hothers p hpq)
  | storing prepared revision =>
    have hlocked : (w.pc q).Locked := hpc ▸ trivial
    have hothers : ∀ p, p ≠ q → ¬ (w.pc p).Locked := fun p hp => h.not_locked hlocked hp
    obtain ⟨-, -, hconfig, hrevision, -⟩ := h.storing q prepared revision hpc
    have hnot : ∀ p, ¬ (Function.update w.pc q (.done (.ok { prepared.evaluation with
        revision, applied := true })) p).Locked := by
      intro p
      by_cases hpq : p = q
      · subst hpq
        simp [Pc.Locked]
      · rw [Function.update_of_ne hpq]
        exact hothers p hpq
    have hne : ∀ p pc, pc.Locked → Function.update w.pc q (.done (.ok { prepared.evaluation with
        revision, applied := true })) p ≠ pc := by
      rintro p pc hpc rfl
      exact hnot p hpc
    exact ⟨fun p hp => absurd hp (hnot p), fun _ => ⟨hconfig, hrevision⟩,
      fun p other hp => absurd hp (hne p _ trivial),
      fun p other r hp => absurd hp (hne p _ trivial)⟩

omit [DecidableEq ι] [DecidableEq ν] in
theorem release_snapshot (s : Jobs.System RuntimeConfig (Transport γ)) (f : Jobs.Ending) :
    (s.release f).coordinator.snapshot = s.coordinator.snapshot := by
  unfold Jobs.System.release
  split <;> rfl

omit [DecidableEq ι] [DecidableEq ν] in
/-- The jobs leave the configuration. -/
theorem step_snapshot (s : Jobs.System RuntimeConfig (Transport γ)) (e : JobEvent γ) :
    (s.step e).coordinator.snapshot = s.coordinator.snapshot := by
  obtain ⟨e, hne⟩ := e
  cases e with
  | begin target origin mask wait =>
    simp only [Jobs.System.step, Jobs.State.begin]
    split
    · next r c hbegin =>
      split at hbegin
      · cases hbegin
      · split at hbegin
        · cases hbegin
        · cases hbegin
          rfl
    · rfl
  | finish id status result => exact release_snapshot s _
  | drop id => exact release_snapshot s _
  | cancel id =>
    simp only [Jobs.System.step, Jobs.State.cancel]
    cases s.coordinator.jobs.find? fun j => j.id = id <;> rfl
  | stop => rfl
  | replace r c t => exact absurd rfl (hne r c t)

omit [DecidableEq ν] in
theorem Sound.begin (h : Sound w) (q : ι) (expected : Option UInt64) :
    Sound (w.begin q expected) := by
  unfold World.begin
  split
  · next hidle =>
    apply h.move q .entering
    · rfl
    · rfl
    · rfl
    · intro p hp
      have hne : p ≠ q := fun heq => hp (heq ▸ hidle)
      simp [hne]
    · exact fun _ _ hp => hp
    · exact fun hlocked => by cases hlocked
    · simp [hidle]
    · exact fun _ _ hto => by cases hto
    · exact fun _ hto => by cases hto
  · exact h

theorem Sound.next (h : Sound w) (e : Event ι ν γ) : Sound (next http transport w e) := by
  cases e with
  | begin q expected => exact h.begin q expected
  | act q read => exact h.evaluate q read
  | job e =>
    have hsnapshot := step_snapshot w.jobs e
    refine ⟨h.holder, fun hnone => ?_, h.replacing, fun q p r hp => ?_⟩
    · have hagrees := h.agrees hnone
      rw [World.Agrees, ← hsnapshot] at hagrees
      exact hagrees
    · have hstoring := h.storing q p r hp
      rw [← hsnapshot] at hstoring
      exact hstoring

theorem run_sound (http : Http γ) (transport : String) (report : Report ν) (config : RuntimeConfig)
    (client : Transport γ) (es : List (Event ι ν γ)) :
    Sound (run http transport (start report config client) es) := by
  induction es using List.reverseRecOn with
  | nil => exact start_sound report config client
  | append_singleton es e ih =>
    rw [run_snoc]
    exact ih.next e

end Safety

section Calls

variable [DecidableEq ι] [DecidableEq ν] {http : Http γ} {transport : String} {w : World ι ν γ}
  {q : ι}

/-- The answer of a reload that was applied. -/
def Applies (answer : Except String (Evaluation ν)) : Prop :=
  ∃ evaluation, answer = .ok evaluation ∧ evaluation.applied = true

/-- A call that has published its candidate. -/
def Pc.Published (pc : Pc ν γ) : Prop :=
  (∃ p r, pc = .storing p r) ∨ ∃ answer, pc = .done answer ∧ Applies answer

/-- A step of call `q`. -/
def Event.By (q : ι) : Event ι ν γ → Prop
  | .begin p _ | .act p _ => p = q
  | .job _ => False

omit [DecidableEq ν] in
theorem begin_pc_of_ne_idle (h : w.pc q ≠ .idle) (p : ι) (expected : Option UInt64) :
    (w.begin p expected).pc q = w.pc q := by
  unfold World.begin
  split
  · next hidle =>
    have hne : q ≠ p := fun heq => h (heq ▸ hidle)
    simp [hne]
  · rfl

theorem evaluate_pc_of_ne {p : ι} (h : q ≠ p) (read : Except String (Settings ν)) :
    (evaluate http transport w p read).pc q = w.pc q := by
  unfold evaluate
  cases w.pc p with
  | idle | done answer => rfl
  | entering =>
    dsimp only
    split
    · rfl
    · simp [h]
  | reading =>
    dsimp only
    split <;> simp [World.answer, h]
  | replacing prepared =>
    dsimp only
    split <;> simp [World.answer, h]
  | storing prepared revision => simp [World.answer, h]

/-- What a call has published it reports as applied. -/
theorem next_published (h : (w.pc q).Published) (e : Event ι ν γ) :
    ((next http transport w e).pc q).Published := by
  cases e with
  | job e => exact h
  | begin p expected =>
    have hne : w.pc q ≠ .idle := by
      intro hidle
      simp [Pc.Published, hidle] at h
    rw [next, begin_pc_of_ne_idle hne]
    exact h
  | act p read =>
    by_cases hp : q = p
    · subst hp
      rcases h with ⟨prepared, revision, hpc⟩ | ⟨answer, hpc, happlies⟩
      · refine .inr ⟨.ok { prepared.evaluation with revision, applied := true }, ?_, ?_⟩
        · simp [next, evaluate, hpc, World.answer]
        · exact ⟨_, rfl, rfl⟩
      · exact .inr ⟨answer, by simp [next, evaluate, hpc], happlies⟩
    · rw [next, evaluate_pc_of_ne hp]
      exact h

variable (http transport) in
theorem run_published {pre : List (Event ι ν γ)} {w₀ : World ι ν γ}
    (h : ((run http transport w₀ pre).pc q).Published) (post : List (Event ι ν γ)) :
    ((run http transport w₀ (pre ++ post)).pc q).Published := by
  induction post using List.reverseRecOn with
  | nil => simpa using h
  | append_singleton post e ih =>
    rw [← List.append_assoc, run_snoc]
    exact next_published ih e

variable (http transport) in
/-- A step changes a holder only if it publishes. -/
theorem evaluate_published (w : World ι ν γ) (q : ι) (read : Except String (Settings ν)) :
    ((evaluate http transport w q read).applied = w.applied ∧
      (evaluate http transport w q read).jobs = w.jobs) ∨
      ((evaluate http transport w q read).pc q).Published := by
  unfold evaluate
  cases w.pc q with
  | idle | done answer => exact .inl ⟨rfl, rfl⟩
  | entering =>
    dsimp only
    split <;> exact .inl ⟨rfl, rfl⟩
  | reading =>
    dsimp only
    split <;> exact .inl ⟨rfl, rfl⟩
  | replacing prepared =>
    dsimp only
    split
    · exact .inl ⟨rfl, rfl⟩
    · next revision coordinator _ => exact .inr (.inl ⟨prepared, revision, by simp⟩)
  | storing prepared revision =>
    refine .inr (.inr ⟨.ok { prepared.evaluation with revision, applied := true }, ?_, ?_⟩)
    · simp [World.answer]
    · exact ⟨_, rfl, rfl⟩

/-- The step with which a reload succeeds. -/
theorem evaluate_applies {read : Except String (Settings ν)}
    {evaluation : Evaluation ν} (hbefore : w.pc q ≠ .done (.ok evaluation))
    (hnow : (evaluate http transport w q read).pc q = .done (.ok evaluation))
    (happlied : evaluation.applied = true) :
    ∃ p r, w.pc q = .storing p r ∧
      (evaluate http transport w q read).applied = p.apply r ∧ evaluation.revision = r := by
  unfold evaluate at hnow ⊢
  cases hpc : w.pc q with
  | idle | done answer =>
    rw [hpc] at hnow
    exact absurd hnow hbefore
  | entering =>
    rw [hpc] at hnow
    dsimp only at hnow
    split at hnow
    · exact absurd hnow hbefore
    · simp at hnow
  | reading =>
    rw [hpc] at hnow
    dsimp only at hnow
    split at hnow
    · simp [World.answer] at hnow
    · next diff hassess =>
      have hdiff := assess_eq_evaluation hassess
      obtain rfl : diff = evaluation := by simpa [World.answer] using hnow
      simp [hdiff] at happlied
    · simp at hnow
  | replacing prepared =>
    rw [hpc] at hnow
    dsimp only at hnow
    split at hnow
    · simp [World.answer] at hnow
    · simp at hnow
  | storing prepared revision =>
    rw [hpc] at hnow
    refine ⟨prepared, revision, rfl, rfl, ?_⟩
    obtain rfl : _ = evaluation := by simpa [World.answer] using hnow
    rfl

end Calls

section Claims

variable [DecidableEq ι] [DecidableEq ν]

/-- What every run of diffs and reloads gives: the holders agree outside the publication, a call
that fails or only compares leaves both, and a reload that succeeds was asked for under the current
revision and has changed no other field. -/
structure Reloads (http : Http γ) (transport : String) (w₀ : World ι ν γ)
    (es : List (Event ι ν γ)) : Prop where
  agrees : (∀ q p r, (run http transport w₀ es).pc q ≠ .storing p r) →
    (run http transport w₀ es).Agrees
  unchanged : ∀ pre e post q answer, es = pre ++ e :: post → e.By q →
    (run http transport w₀ es).pc q = .done answer → ¬ Applies answer →
    (run http transport w₀ (pre ++ [e])).applied = (run http transport w₀ pre).applied ∧
      (run http transport w₀ (pre ++ [e])).jobs.coordinator.snapshot =
        (run http transport w₀ pre).jobs.coordinator.snapshot
  reloaded : ∀ pre e post q evaluation, es = pre ++ e :: post →
    (run http transport w₀ pre).pc q ≠ .done (.ok evaluation) →
    (run http transport w₀ (pre ++ [e])).pc q = .done (.ok evaluation) →
    evaluation.applied = true →
    (run http transport w₀ pre).expected q = some (run http transport w₀ pre).applied.revision ∧
      ReloadableOnly (run http transport w₀ pre).applied.config
        (run http transport w₀ (pre ++ [e])).applied.config ∧
      (run http transport w₀ (pre ++ [e])).applied.revision =
        (run http transport w₀ pre).applied.revision + 1

/-- Whatever the candidates are and however calls and jobs interleave, reloads are atomic and
change only what may be reloaded. -/
theorem run_reloads (http : Http γ) (transport : String) (report : Report ν)
    (config : RuntimeConfig) (client : Transport γ) (es : List (Event ι ν γ)) :
    Reloads http transport (start report config client) es where
  agrees hnone := (run_sound http transport report config client es).agrees hnone
  unchanged pre e post q answer heq he hdone hanswer := by
    subst heq
    rw [run_snoc]
    cases e with
    | job e => cases he
    | begin p expected =>
      simp only [next, World.begin]
      split <;> exact ⟨rfl, rfl⟩
    | act p read =>
      obtain rfl : p = q := he
      rcases evaluate_published http transport
        (run http transport (start report config client) pre) p read with hsame | hpublished
      · exact ⟨hsame.1, congrArg (fun jobs => jobs.coordinator.snapshot) hsame.2⟩
      · have hend : ((run http transport (start report config client)
            (pre ++ [.act p read])).pc p).Published := by
          rw [run_snoc]
          exact hpublished
        have hlater := run_published http transport hend post
        rw [List.append_assoc, List.singleton_append, hdone] at hlater
        rcases hlater with ⟨_, _, hstoring⟩ | ⟨a, ha, happlies⟩
        · cases hstoring
        · cases ha
          exact absurd happlies hanswer
  reloaded pre e post q evaluation heq hbefore hnow happlied := by
    have hsound := run_sound http transport report config client pre
    rw [run_snoc] at hnow ⊢
    cases e with
    | job e => exact absurd hnow hbefore
    | begin p expected =>
      simp only [next, World.begin] at hnow
      split at hnow
      · by_cases hq : q = p
        · subst hq
          simp at hnow
        · exact absurd (by simpa [hq] using hnow) hbefore
      · exact absurd hnow hbefore
    | act p read =>
      by_cases hq : q = p
      · subst hq
        obtain ⟨prepared, r, hpc, hresult, -⟩ := evaluate_applies hbefore hnow happlied
        obtain ⟨hexpected, honly, -, -, hrevision⟩ := hsound.storing q prepared r hpc
        change _ ∧ ReloadableOnly _ (evaluate http transport _ q read).applied.config ∧
          (evaluate http transport _ q read).applied.revision = _
        rw [hresult]
        exact ⟨hexpected, honly, hrevision⟩
      · exact absurd ((evaluate_pc_of_ne hq read).symm.trans hnow) hbefore

end Claims

end PrtsMcp.Reload
