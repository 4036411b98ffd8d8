import PrtsMcp.ControlWire
import PrtsMcp.JsonRpc

/-!
# The management protocol

Clients that administer servers over connections to a local endpoint, in any order of their steps, while
servers come and go: the handshake, the guards of the server and its permits.
-/
namespace PrtsMcp.ControlProtocol

open ControlWire
open Function (update update_self update_of_ne)

variable {κ π φ : Type}

/-! ## Server -/

structure DataView where
  database : Option String
  excelRoot : Option String
  levelsRoot : Option String
  storyZip : Option String

def DataView.effectiveBackend (view : DataView) : String :=
  if view.database.isSome then "sqlite"
  else if view.excelRoot.isSome || view.levelsRoot.isSome || view.storyZip.isSome then "json"
  else "unavailable"

/-- What the runtime configuration returns when it is called. -/
structure Configuration (φ : Type) where
  shown : JsonValue φ
  evaluate : Option UInt64 → Except String (JsonValue φ)

/-- What the coordinator of the jobs returns when it is called. -/
structure Coordinator (φ : Type) where
  submit : String → UInt64 → Except String (JsonValue φ)
  list : JsonValue φ
  shown : String → Except String (JsonValue φ)
  cancel : String → Except String (JsonValue φ)

/-- What a server has for its whole life. -/
structure Identity where
  instanceName : String
  startupId : String
  deriving DecidableEq, Repr

structure State (φ : Type) extends Identity where
  ready : Bool
  pid : UInt32
  serverVersion : String
  transport : String
  uptime : UInt64
  configuration : JsonValue φ
  data : DataView
  reload : Option (Configuration φ)
  jobs : Option (Coordinator φ)

/-- A call that changes the configuration or the jobs. -/
inductive Write where
  | reload (expectedRevision : UInt64)
  | sync (target : String) (waitTimeout : UInt64)
  | cancel (id : String)
  deriving DecidableEq, Repr

def text (s : Option String) : JsonValue φ := s.elim .null .string

def answer (kind : String) : Except String (JsonValue φ) → Response φ
  | .ok value => .success value
  | .error message => .failure kind message

def State.jobResult (s : State φ) (action : Coordinator φ → Except String (JsonValue φ)) : Response φ :=
  answer "job_operation" (match s.jobs with
    | none => .error "同步管理不可用"
    | some jobs => action jobs)

def State.evaluate (s : State φ) (expected : Option UInt64) : Response φ :=
  answer "configuration" (match s.reload with
    | none => .error "配置重载不可用"
    | some reload => reload.evaluate expected)

def Command.writes : Command → Bool
  | .dataSync _ _ | .jobCancel _ | .configReload _ => true
  | _ => false

/-- The guards, which come before every command. -/
def Identity.refusal (s : Identity) (r : Request) : Option (Response φ) :=
  if r.protocolVersion ≠ ControlWire.protocolVersion then some (.failure "protocol_version" "不兼容的管理协议版本")
  else if r.instanceName ≠ s.instanceName then some (.failure "instance_mismatch" "管理端点实例名称不匹配")
  else if r.expectedStartupId.any (· ≠ s.startupId) then
    some (.failure "instance_restarted" "实例已经重启，请重新连接")
  else if Command.writes r.command ∧ r.expectedStartupId ≠ some s.startupId then
    some (.failure "startup_id_required" "写操作必须提供握手取得的 startup_id")
  else none

def capabilities : List String :=
  ["status", "config_show", "data_status", "data_sync", "jobs_list", "job_show", "job_cancel", "config_diff",
    "config_reload"]

def State.hello (s : State φ) : JsonValue φ :=
  .object [("schema_version", integer 1), ("instance", .string s.instanceName), ("startup_id", .string s.startupId),
    ("pid", integer s.pid.toUInt64), ("server_version", .string s.serverVersion),
    ("capabilities", .array (capabilities.map .string))]

def State.status (s : State φ) : JsonValue φ :=
  .object [("schema_version", integer 1), ("instance", .string s.instanceName), ("startup_id", .string s.startupId),
    ("pid", integer s.pid.toUInt64), ("server_version", .string s.serverVersion), ("transport", .string s.transport),
    ("ready", .bool s.ready), ("uptime_ms", integer s.uptime),
    ("effective_backend", .string s.data.effectiveBackend)]

def State.dataStatus (s : State φ) : JsonValue φ :=
  .object [("schema_version", integer 1), ("scope", .string "runtime"),
    ("effective_backend", .string s.data.effectiveBackend), ("database", text s.data.database),
    ("excel", text s.data.excelRoot), ("levels", text s.data.levelsRoot), ("story", text s.data.storyZip)]

/-- The call that a command makes when the guards let it pass. -/
def State.write (s : State φ) : Command → Option Write
  | .configReload expectedRevision => s.reload.map fun _ => .reload expectedRevision
  | .dataSync target waitTimeout => s.jobs.map fun _ => .sync target waitTimeout
  | .jobCancel id => s.jobs.map fun _ => .cancel id
  | _ => none

/-- What `respond` writes, and its response. -/
def State.respond (s : State φ) (r : Request) : Option Write × Response φ :=
  match s.refusal r with
  | some refused => (none, refused)
  | none =>
    (s.write r.command,
      match r.command with
      | .hello => .success s.hello
      | .status => .success s.status
      | .configShow => .success ((s.reload.map Configuration.shown).getD s.configuration)
      | .configDiff => s.evaluate none
      | .configReload expectedRevision => s.evaluate (some expectedRevision)
      | .dataSync target waitTimeout => s.jobResult fun jobs => jobs.submit target waitTimeout
      | .jobsList => s.jobResult fun jobs => .ok jobs.list
      | .jobShow id => s.jobResult fun jobs => jobs.shown id
      | .jobCancel id => s.jobResult fun jobs => jobs.cancel id
      | .dataStatus => .success s.dataStatus)

/-! ## Client -/

structure Instance where
  name : String
  endpoint : String
  deriving DecidableEq, Repr

/-- Where there are sockets of files. -/
def Instance.validEndpoint (i : Instance) : Bool := i.endpoint.startsWith "/"

/-- The arguments of `request`. -/
structure Call where
  target : Instance
  command : Command
  deriving DecidableEq, Repr

/-- What `exchange` sends: first the handshake, then the command with the startup id from it. -/
def Call.sent (call : Call) (startup : Option String) : Request where
  protocolVersion := ControlWire.protocolVersion
  command := if startup.isSome then call.command else .hello
  instanceName := call.target.name
  expectedStartupId := startup

/-- What `exchange` makes of a response. -/
def result (r : Response φ) : Except String (JsonValue φ) :=
  if r.protocolVersion ≠ ControlWire.protocolVersion then .error "不兼容的管理协议版本"
  else
    match r.outcome with
    | .success result => .ok result
    | .failure error => .error (error.kind ++ ": " ++ error.message)

/-- What `request` takes from the handshake. -/
def Call.startup (call : Call) (hello : JsonValue φ) : Except String String :=
  if (hello.get "instance").bind JsonValue.asStr ≠ some call.target.name then .error "管理端点实例名称不匹配"
  else
    match (hello.get "startup_id").bind JsonValue.asStr with
    | none => .error "缺少实例启动标识"
    | some startup => .ok startup

/-- How an exchange fails before there is a response. -/
inductive Failure where
  | connect (error : String)
  | stream (error : String)
  | timeout

def Failure.message (startup : Option String) : Failure → String
  | connect error => "无法连接管理端点: " ++ error
  | stream error => error
  | timeout => if startup.isSome then "管理请求超时" else "管理握手超时"

/-- Where a call of `request` stands. The startup id is that of the handshake, once there is one. -/
inductive Pc (φ : Type) where
  | starting
  | dialing (startup : Option String)
  | waiting (startup : Option String) (conn : ℕ)
  | done (result : Except String (JsonValue φ))

/-- What a call does with a response. -/
def Call.next (call : Call) (startup : Option String) (r : Response φ) : Pc φ :=
  match result r, startup with
  | .error error, _ => .done (.error error)
  | .ok value, some _ => .done (.ok value)
  | .ok hello, none =>
    match call.startup hello with
    | .error error => .done (.error error)
    | .ok startup => .dialing (some startup)

/-! ## Connections -/

/-- Where the server is with a connection. `abandoned` is one whose stream is given up while the response is still
being made. -/
inductive Place (φ : Type) where
  | queued
  | reading
  | responding
  | abandoned
  | sending (response : Response φ)
  | closed

/-- The permits that the connection has. -/
def Place.permit : Place φ → ℕ
  | queued | closed => 0
  | _ => 1

/-- A connection that a call has made, or another program. `reply` is the response that has gone out. -/
structure Conn (κ π φ : Type) where
  client : Option κ
  server : π
  request : Request
  place : Place φ
  reply : Option (Response φ)

/-- A request that a server has responded to. -/
structure Entry (π φ : Type) where
  conn : ℕ
  server : π
  request : Request
  write : Option Write
  response : Response φ

structure World (κ π φ : Type) where
  listens : π → Bool
  permits : π → ℕ
  conns : List (Conn κ π φ)
  pc : κ → Pc φ
  log : List (Entry π φ)

def start : World κ π φ := ⟨fun _ => true, fun _ => 32, [], fun _ => .starting, []⟩

inductive Event (κ π φ : Type) where
  | begin (c : κ)
  | dial (c : κ) (p : π)
  | visit (p : π) (request : Request)
  | accept (i : ℕ)
  | hangUp (i : ℕ)
  | receive (i : ℕ)
  | respond (i : ℕ) (state : State φ)
  | expire (i : ℕ)
  | send (i : ℕ)
  | take (c : κ)
  | fail (c : κ) (failure : Failure)
  | listen (p : π) (listens : Bool)

section Steps

variable [DecidableEq κ] [DecidableEq π]

@[simps]
def World.goto (w : World κ π φ) (c : κ) (pc : Pc φ) : World κ π φ := { w with pc := update w.pc c pc }

@[simps]
def World.connect (w : World κ π φ) (client : Option κ) (server : π) (request : Request) : World κ π φ :=
  { w with conns := w.conns ++ [⟨client, server, request, .queued, none⟩] }

@[simps]
def World.record (w : World κ π φ) (entry : Entry π φ) : World κ π φ := { w with log := w.log ++ [entry] }

/-- The connection `i` goes to a place, and takes or gives back its permit on the way. -/
@[simps]
def World.move (w : World κ π φ) (i : ℕ) (conn : Conn κ π φ) (place : Place φ) : World κ π φ :=
  { w with
    conns := w.conns.set i { conn with place }
    permits := update w.permits conn.server (w.permits conn.server + conn.place.permit - place.permit) }

def World.step (identity : π → Identity) (calls : κ → Call) (w : World κ π φ) : Event κ π φ → World κ π φ
  | .begin c =>
    match w.pc c with
    | .starting =>
      w.goto c (if (calls c).target.validEndpoint then .dialing none else .done (.error "无效的本机管理端点"))
    | _ => w
  | .dial c p =>
    match w.pc c with
    | .dialing startup =>
      if w.listens p then
        (w.connect (some c) p ((calls c).sent startup)).goto c (.waiting startup w.conns.length)
      else w
    | _ => w
  | .visit p request => if w.listens p then w.connect none p request else w
  | .accept i =>
    match w.conns[i]? with
    | some conn =>
      match conn.place with
      | .queued =>
        if w.listens conn.server then w.move i conn (if w.permits conn.server = 0 then .closed else .reading) else w
      | _ => w
    | none => w
  | .hangUp i =>
    match w.conns[i]? with
    | some conn =>
      match conn.place with
      | .reading => w.move i conn .closed
      | _ => w
    | none => w
  | .receive i =>
    match w.conns[i]? with
    | some conn =>
      match conn.place with
      | .reading => w.move i conn .responding
      | _ => w
    | none => w
  | .respond i state =>
    match w.conns[i]? with
    | some conn =>
      if state.toIdentity = identity conn.server then
        let (write, response) := state.respond conn.request
        match conn.place with
        | .responding =>
          (w.record ⟨i, conn.server, conn.request, write, response⟩).move i conn (.sending response)
        | .abandoned => (w.record ⟨i, conn.server, conn.request, write, response⟩).move i conn .closed
        | _ => w
      else w
    | none => w
  | .expire i =>
    match w.conns[i]? with
    | some conn =>
      match conn.place with
      | .responding => w.move i conn .abandoned
      | .sending _ => w.move i conn .closed
      | _ => w
    | none => w
  | .send i =>
    match w.conns[i]? with
    | some conn =>
      match conn.place with
      | .sending response => w.move i { conn with reply := some response } .closed
      | _ => w
    | none => w
  | .take c =>
    match w.pc c with
    | .waiting startup i =>
      match (w.conns[i]?).bind Conn.reply with
      | some response => w.goto c ((calls c).next startup response)
      | none => w
    | _ => w
  | .fail c failure =>
    match w.pc c with
    | .dialing startup | .waiting startup _ => w.goto c (.done (.error (failure.message startup)))
    | _ => w
  | .listen p listens => { w with listens := update w.listens p listens }

def World.run (identity : π → Identity) (calls : κ → Call) (w : World κ π φ) (es : List (Event κ π φ)) :
    World κ π φ :=
  es.foldl (World.step identity calls) w

end Steps

section Inversion

variable [DecidableEq κ] [DecidableEq π] {identity : π → Identity} {calls : κ → Call} {w w' : World κ π φ}

/-- The ways of a connection without its request being responded to. -/
inductive Moves (permits : ℕ) : Place φ → Place φ → Prop where
  | refuse : Moves permits .queued .closed
  | accept : permits ≠ 0 → Moves permits .queued .reading
  | hangUp : Moves permits .reading .closed
  | receive : Moves permits .reading .responding
  | abandon : Moves permits .responding .abandoned
  | giveUp (response : Response φ) : Moves permits (.sending response) .closed

/-- The ways of a connection when its request is responded to. -/
inductive Responds (response : Response φ) : Place φ → Place φ → Prop where
  | inTime : Responds response .responding (.sending response)
  | late : Responds response .abandoned .closed

def Pc.IsOpen (startup : Option String) : Pc φ → Prop
  | dialing startup' => startup' = startup
  | waiting startup' _ => startup' = startup
  | _ => False

/-- What a step does. -/
inductive Change (identity : π → Identity) (calls : κ → Call) (w : World κ π φ) : World κ π φ → Prop where
  | stay : Change identity calls w w
  | listen (listens : π → Bool) : Change identity calls w { w with listens }
  | begin (c : κ) (pc : Pc φ) : w.pc c = .starting → (pc = .dialing none ∨ ∃ error, pc = .done (.error error)) →
    Change identity calls w (w.goto c pc)
  | dial (c : κ) (p : π) (startup : Option String) : w.pc c = .dialing startup →
    Change identity calls w
      ((w.connect (some c) p ((calls c).sent startup)).goto c (.waiting startup w.conns.length))
  | visit (p : π) (request : Request) : Change identity calls w (w.connect none p request)
  | move (i : ℕ) (conn : Conn κ π φ) (place : Place φ) : w.conns[i]? = some conn →
    Moves (w.permits conn.server) conn.place place → Change identity calls w (w.move i conn place)
  | respond (i : ℕ) (conn : Conn κ π φ) (state : State φ) (place : Place φ) : w.conns[i]? = some conn →
    state.toIdentity = identity conn.server → Responds (state.respond conn.request).2 conn.place place →
    Change identity calls w ((w.record ⟨i, conn.server, conn.request, (state.respond conn.request).1,
      (state.respond conn.request).2⟩).move i conn place)
  | send (i : ℕ) (conn : Conn κ π φ) (response : Response φ) : w.conns[i]? = some conn →
    conn.place = .sending response →
    Change identity calls w (w.move i { conn with reply := some response } .closed)
  | take (c : κ) (startup : Option String) (i : ℕ) (conn : Conn κ π φ) (response : Response φ) :
    w.pc c = .waiting startup i → w.conns[i]? = some conn → conn.reply = some response →
    Change identity calls w (w.goto c ((calls c).next startup response))
  | fail (c : κ) (startup : Option String) (error : String) : (w.pc c).IsOpen startup →
    Change identity calls w (w.goto c (.done (.error error)))

theorem step_change (identity : π → Identity) (calls : κ → Call) (w : World κ π φ) (e : Event κ π φ) :
    Change identity calls w (w.step identity calls e) := by
  cases e with
  | begin c =>
    simp only [World.step]
    split
    · next hpc =>
      refine .begin c _ hpc ?_
      split
      · exact .inl rfl
      · exact .inr ⟨_, rfl⟩
    · exact .stay
  | dial c p =>
    simp only [World.step]
    split
    · next startup hpc =>
      split
      · exact .dial c p startup hpc
      · exact .stay
    · exact .stay
  | visit p request =>
    simp only [World.step]
    split
    · exact .visit p request
    · exact .stay
  | accept i =>
    simp only [World.step]
    split
    · next conn hconn =>
      split
      · next hplace =>
        split
        · refine .move i conn _ hconn ?_
          rw [hplace]
          split
          · exact .refuse
          · next hpermits => exact .accept hpermits
        · exact .stay
      · exact .stay
    · exact .stay
  | hangUp i =>
    simp only [World.step]
    split
    · next conn hconn =>
      split
      · next hplace => exact .move i conn _ hconn (hplace ▸ .hangUp)
      · exact .stay
    · exact .stay
  | receive i =>
    simp only [World.step]
    split
    · next conn hconn =>
      split
      · next hplace => exact .move i conn _ hconn (hplace ▸ .receive)
      · exact .stay
    · exact .stay
  | respond i state =>
    simp only [World.step]
    split
    · next conn hconn =>
      split
      · next hid =>
        split
        · next hplace => exact .respond i conn state _ hconn hid (hplace ▸ .inTime)
        · next hplace => exact .respond i conn state _ hconn hid (hplace ▸ .late)
        · exact .stay
      · exact .stay
    · exact .stay
  | expire i =>
    simp only [World.step]
    split
    · next conn hconn =>
      split
      · next hplace => exact .move i conn _ hconn (hplace ▸ .abandon)
      · next response hplace => exact .move i conn _ hconn (hplace ▸ .giveUp response)
      · exact .stay
    · exact .stay
  | send i =>
    simp only [World.step]
    split
    · next conn hconn =>
      split
      · next response hplace => exact .send i conn response hconn hplace
      · exact .stay
    · exact .stay
  | take c =>
    simp only [World.step]
    split
    · next startup i hpc =>
      split
      · next response hreply =>
        obtain ⟨conn, hconn, hresponse⟩ := Option.bind_eq_some_iff.mp hreply
        exact .take c startup i conn response hpc hconn hresponse
      · exact .stay
    · exact .stay
  | fail c failure =>
    simp only [World.step]
    split
    · next startup hpc => exact .fail c startup _ (hpc ▸ rfl)
    · next startup i hpc => exact .fail c startup _ (hpc ▸ rfl)
    · exact .stay
  | listen p listens => exact .listen _

/-- What every step keeps holds in every run. -/
theorem run_induction {P : World κ π φ → Prop} (hstart : P start)
    (hstep : ∀ {w w' : World κ π φ}, P w → Change identity calls w w' → P w') (es : List (Event κ π φ)) :
    P (start.run identity calls es) := by
  induction es using List.reverseRecOn with
  | nil => exact hstart
  | append_singleton es e ih =>
    rw [World.run, List.foldl_append]
    exact hstep ih (step_change identity calls _ e)

end Inversion

end PrtsMcp.ControlProtocol
