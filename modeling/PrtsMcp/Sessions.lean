import PrtsMcp.Interleaving
import PrtsMcp.McpEndpoint

/-!
# The session table

The tasks that work on the table of sessions: posts that initialize a session or speak in one,
removals, and the watchdog of each session. A task holds the table for one act at a time, with
those of all others in between; time and requests come from outside.
-/
namespace PrtsMcp.Sessions

open Interleaving JsonRpc Dispatch McpEndpoint

structure Session where
  state : ConnectionState
  channel : OutputChannel
  lastActivity : ℕ

/-- What the table is made with. `timeout` is the idle time after which sessions are evicted. -/
structure Settings (φ α : Type) where
  shared : Shared φ α
  timeout : Option ℕ
  metrics : Bool

/-- `issued` are the ids of all sessions so far, `named` those that clients have sent, `returned`
those that they were given. -/
structure Core where
  now : ℕ
  table : List (String × Session)
  initialized : UInt64
  closed : UInt64
  evicted : UInt64
  issued : List String
  named : List String
  returned : List String

def Core.new : Core := ⟨0, [], 0, 0, 0, [], [], []⟩

def update (id : String) (f : Session → Session) (table : List (String × Session)) :
    List (String × Session) :=
  table.map fun e => if e.1 = id then (e.1, f e.2) else e

def erase (id : String) (table : List (String × Session)) : List (String × Session) :=
  table.filter (·.1 ≠ id)

/-- What a task does next. -/
inductive Task (φ : Type) where
  /-- `handle_legacy_post` -/
  | post (request : Request) (body : JsonValue φ)
  | touch (id : String) (body : JsonValue φ)
  | dispatch (id : String) (state : ConnectionState) (channel : OutputChannel)
    (body : JsonValue φ)
  | write (id : String) (state : ConnectionState)
  /-- `run_fresh_initialize` -/
  | create (channel : OutputChannel) (body : JsonValue φ)
  | countInitialized (id : String) (channel : OutputChannel) (body : JsonValue φ)
  | spawn (id : String) (channel : OutputChannel) (body : JsonValue φ)
  | answer (id : String) (channel : OutputChannel) (body : JsonValue φ)
  | save (id : String) (state : ConnectionState) (outcome : WireOutcome φ)
  | respond (id : String)
  /-- `handle_delete` -/
  | delete (id : String)
  | remove (id : String)
  | countClosed (id : String)
  /-- `idle_watchdog` -/
  | rest (id : String) (delay : ℕ)
  | asleep (id : String) (due : ℕ)
  | countEvicted (id : String)

/-- The tasks of requests that wait for a lock, a tool or the client; these are dropped with their
connection. -/
def Task.awaits {φ : Type} : Task φ → Bool
  | countInitialized _ _ _ | spawn _ _ _ | countClosed _ => false
  | rest _ _ | asleep _ _ | countEvicted _ => false
  | _ => true

inductive Event where
  | silent
  | created (id : String) (time : ℕ)
  | touched (id : String) (time : ℕ)
  | wrote (id : String)
  /-- A new session answers its initialization. -/
  | answered (id : String)
  /-- A session that is there accepts an initialization. -/
  | accepted (id : String)
  | removed (id : String)
  | evicted (id : String) (time : ℕ)
  | rearmed (id : String) (idle delay : ℕ)
  | stopped (id : String)
  | countedInitialized (id : String)
  | countedClosed (id : String)
  | countedEvicted (id : String)
  deriving DecidableEq

variable {φ α : Type}

def isInitialize (message : JsonValue φ) : Bool :=
  message.isObject && methodOf message = some "initialize"

/-- One of the messages is an initialization that the state does not refuse. -/
def accepts (state : ConnectionState) (body : JsonValue φ) : Bool :=
  !state.legacyInitialized && (messagesOf body).any isInitialize

def countOn (metrics : Bool) (n : UInt64) : UInt64 := if metrics then n + 1 else n

/-- One act of a task. -/
inductive Acts (cfg : Settings φ α) : Task φ → Core → Event → List (Task φ) → Core → Prop where
  | lookupFound {request : Request} {body : JsonValue φ} {id : String} {s : Session} {c : Core} :
    request.headers.sessionId = some id → c.table.lookup id = some s →
    Acts cfg (.post request body) c .silent [.touch id body] c
  | lookupInit {request : Request} {body : JsonValue φ} {c : Core} :
    (∀ id, request.headers.sessionId = some id → c.table.lookup id = none) → isInit body = true →
    Acts cfg (.post request body) c .silent [.create (cfg.shared.channelFor request) body] c
  | lookupRefused {request : Request} {body : JsonValue φ} {c : Core} :
    (∀ id, request.headers.sessionId = some id → c.table.lookup id = none) → isInit body = false →
    Acts cfg (.post request body) c .silent [] c
  | touchFound {id : String} {body : JsonValue φ} {s : Session} {c : Core} :
    c.table.lookup id = some s →
    Acts cfg (.touch id body) c (.touched id c.now) [.dispatch id s.state s.channel body]
      { c with table := update id (fun s => { s with lastActivity := c.now }) c.table }
  | touchLost {id : String} {body : JsonValue φ} {c : Core} : c.table.lookup id = none →
    Acts cfg (.touch id body) c .silent [] c
  | dispatched {id : String} {state after : ConnectionState} {channel : OutputChannel}
    {body : JsonValue φ} {app : ℕ → α} {responses : List (JsonValue φ)} {c : Core} :
    legacyLoop cfg.shared.server channel state (withApps app (messagesOf body)) =
      .ok (responses, after) →
    Acts cfg (.dispatch id state channel body) c
      (if accepts state body then .accepted id else .silent) [.write id after] c
  | dispatchRefused {id : String} {state : ConnectionState} {channel : OutputChannel}
    {body : JsonValue φ} {app : ℕ → α} {e : Response φ} {c : Core} :
    legacyLoop cfg.shared.server channel state (withApps app (messagesOf body)) = .error e →
    Acts cfg (.dispatch id state channel body) c
      (if accepts state body then .accepted id else .silent) [] c
  | write {id : String} {state : ConnectionState} {c : Core} :
    Acts cfg (.write id state) c (.wrote id) []
      { c with table := update id (fun s => { s with state }) c.table }
  | create {channel : OutputChannel} {body : JsonValue φ} {id : String} {c : Core} :
    id ∉ c.issued → id ∉ c.named →
    Acts cfg (.create channel body) c (.created id c.now) [.countInitialized id channel body]
      { c with
        table := OrderedMap.insert id ⟨.default, channel, c.now⟩ c.table
        issued := id :: c.issued }
  | countInitialized {id : String} {channel : OutputChannel} {body : JsonValue φ} {c : Core} :
    Acts cfg (.countInitialized id channel body) c (.countedInitialized id)
      [.spawn id channel body] { c with initialized := countOn cfg.metrics c.initialized }
  | spawn {id : String} {channel : OutputChannel} {body : JsonValue φ} {c : Core} :
    Acts cfg (.spawn id channel body) c .silent
      (.answer id channel body :: (cfg.timeout.map (Task.rest id)).toList) c
  | answer {id : String} {channel : OutputChannel} {body : JsonValue φ} {app : α} {c : Core} :
    Acts cfg (.answer id channel body) c
      (if accepts .default body then .answered id else .silent)
      [.save id (cfg.shared.server.handleLegacyMessage .default body channel app).2
        (cfg.shared.server.handleLegacyMessage .default body channel app).1.outcome] c
  | save {id : String} {state : ConnectionState} {outcome : WireOutcome φ} {c : Core} :
    Acts cfg (.save id state outcome) c (.wrote id)
      (match outcome with
        | .response _ => [.respond id]
        | .accepted => [])
      { c with table := update id (fun s => { s with state }) c.table }
  | respond {id : String} {c : Core} :
    Acts cfg (.respond id) c .silent [] { c with returned := id :: c.returned }
  | deleteFound {id : String} {s : Session} {c : Core} : c.table.lookup id = some s →
    Acts cfg (.delete id) c .silent [.remove id] c
  | deleteLost {id : String} {c : Core} : c.table.lookup id = none →
    Acts cfg (.delete id) c .silent [] c
  | removeFound {id : String} {s : Session} {c : Core} : c.table.lookup id = some s →
    Acts cfg (.remove id) c (.removed id) [.countClosed id] { c with table := erase id c.table }
  | removeLost {id : String} {c : Core} : c.table.lookup id = none →
    Acts cfg (.remove id) c .silent [] c
  | countClosed {id : String} {c : Core} :
    Acts cfg (.countClosed id) c (.countedClosed id) []
      { c with closed := countOn cfg.metrics c.closed }
  | rest {id : String} {delay : ℕ} {c : Core} :
    Acts cfg (.rest id delay) c .silent [.asleep id (c.now + delay)] c
  | wakeLost {id : String} {due : ℕ} {c : Core} : due ≤ c.now → c.table.lookup id = none →
    Acts cfg (.asleep id due) c (.stopped id) [] c
  | wakeIdle {id : String} {due timeout : ℕ} {s : Session} {c : Core} : due ≤ c.now →
    c.table.lookup id = some s → cfg.timeout = some timeout → timeout ≤ c.now - s.lastActivity →
    Acts cfg (.asleep id due) c (.evicted id c.now) [.countEvicted id]
      { c with table := erase id c.table }
  | wakeActive {id : String} {due timeout : ℕ} {s : Session} {c : Core} : due ≤ c.now →
    c.table.lookup id = some s → cfg.timeout = some timeout → c.now - s.lastActivity < timeout →
    Acts cfg (.asleep id due) c
      (.rearmed id (c.now - s.lastActivity) (timeout - (c.now - s.lastActivity)))
      [.rest id (timeout - (c.now - s.lastActivity))] c
  | countEvicted {id : String} {c : Core} :
    Acts cfg (.countEvicted id) c (.countedEvicted id) [.countClosed id]
      { c with evicted := countOn cfg.metrics c.evicted }
  | dropped {t : Task φ} {c : Core} : t.awaits = true → Acts cfg t c .silent [] c

/-- The id of a session that a client may send: one it was given, or one that is no session's. -/
def Core.Known (c : Core) (id : String) : Prop := id ∈ c.returned ∨ id ∉ c.issued

inductive Happens : Core → Event → List (Task φ) → Core → Prop where
  | tick {c : Core} {now : ℕ} : c.now ≤ now → Happens c .silent [] { c with now }
  | post {c : Core} {request : Request} {body : JsonValue φ} :
    (∀ id, request.headers.sessionId = some id → c.Known id) →
    Happens c .silent [.post request body]
      { c with named := request.headers.sessionId.toList ++ c.named }
  | delete {c : Core} {id : String} : c.Known id →
    Happens c .silent [.delete id] { c with named := id :: c.named }

def machine (cfg : Settings φ α) : Machine Core (Task φ) Event := ⟨Acts cfg, Happens⟩

/-- The runs of a server from its start. -/
abbrev Ran (cfg : Settings φ α) (es : List Event) (x : Config Core (Task φ)) : Prop :=
  Run (machine cfg) ⟨.new, []⟩ es x

end PrtsMcp.Sessions
