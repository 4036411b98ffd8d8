import PrtsMcp.Dispatch
import PrtsMcp.JsNumber

/-!
# The transports of the protocol

A connection over standard input and output, and the `/mcp` endpoint with its guards, its eras and
its sessions.
-/
namespace PrtsMcp.McpEndpoint

open JsonValue JsonRpc Dispatch

/-- `char::is_whitespace`. -/
def isWhitespace (c : Char) : Bool := JsNumber.isJsSpace c && c.toNat ≠ 0xFEFF

def trimmed (cs : List Char) : List Char := (cs.dropWhile isWhitespace).rdropWhile isWhitespace

/-- The headers that the endpoint reads, where they are text. -/
structure Headers where
  accept : Option String
  contentType : Option String
  sessionId : Option String
  protocolVersion : Option String
  mcpMethod : Option String
  outputChannel : Option String

inductive Method where
  | get
  | post
  | delete
  | other
  deriving DecidableEq, Repr

structure Request where
  method : Method
  /-- The first `output_channel` of the query. -/
  query : Option String
  headers : Headers
  body : List UInt8

inductive Body (φ : Type) where
  | json (value : JsonValue φ)
  /-- One event a message. -/
  | events (messages : List (JsonValue φ))
  | empty
  /-- A stream that stays open. -/
  | stream

structure Response (φ : Type) where
  status : ℕ
  body : Body φ
  sessionId : Option String

/-- A server with its parsers and the channel of its environment. -/
structure Shared (φ α : Type) where
  server : Server φ α
  envChannel : OutputChannel
  parseText : String → Option (JsonValue φ)
  parseBytes : List UInt8 → Except String (JsonValue φ)

variable {φ α : Type}

/-- The messages of a body; an array holds those of a batch. -/
def Body.messages : Body φ → List (JsonValue φ)
  | json (.array items) => items
  | json value => [value]
  | events messages => messages
  | empty | stream => []

/-! ## Standard input and output -/

/-- A line, what the application is like when it is handled, and whether an answer is written. -/
structure Line (α : Type) where
  text : String
  app : α
  written : Bool

/-- The message of a line; other lines are passed over. -/
def Shared.lineMessage (shared : Shared φ α) (text : String) : Option (JsonValue φ) :=
  let line := String.ofList (trimmed text.toList)
  if line = "" then none else (shared.parseText line).filter isObject

/-- The responses that are written and the exit code; `eof` is whether the input ends or fails. -/
def Shared.runStdio (shared : Shared φ α) (channel : OutputChannel) (eof : Bool)
    (state : ConnectionState) : List (Line α) → List (JsonValue φ) × ℕ
  | [] => ([], if eof then 0 else 1)
  | line :: lines =>
    match shared.lineMessage line.text with
    | none => shared.runStdio channel eof state lines
    | some message =>
      match shared.server.handleStdioMessage state message channel line.app with
      | ([], state) => shared.runStdio channel eof state lines
      | (response :: _, state) =>
        if line.written then
          let (responses, code) := shared.runStdio channel eof state lines
          (response :: responses, code)
        else ([], 1)

/-! ## The endpoint -/

def jsonResponse (status : ℕ) (value : JsonValue φ) : Response φ := ⟨status, .json value, none⟩

def transportError (status : ℕ) (code : Int64) (message : String) (id : JsonValue φ) :
    Response φ := jsonResponse status (error id code message none)

def sseResponse (messages : List (JsonValue φ)) (sessionId : Option String) : Response φ :=
  ⟨200, .events messages, sessionId⟩

/-- `202` without a body. -/
def acceptedResponse : Response φ := ⟨202, .empty, none⟩

/-- One of the media types of an `Accept` header starts so. -/
def acceptAllows (media : String) (accept : Option String) : Bool :=
  accept.any fun a => (a.toList.splitOn ',').any fun p => media.toList.isPrefixOf (trimmed p)

def acceptAllowsEventStream : Option String → Bool := acceptAllows "text/event-stream"

def acceptAllowsJson : Option String → Bool := acceptAllows "application/json"

def contentTypeIsJson (contentType : Option String) : Bool :=
  contentType.any fun ct =>
    (ct.toList.splitOn ';').head?.any fun media => trimmed media = "application/json".toList

/-- `parse_channel_with`. -/
def parseChannel (raw : String) : OutputChannel :=
  let value := (trimmed raw.toList).map Char.toLower
  if value = "structured".toList then .structured
  else if value = "both".toList then .both
  else .content

/-- The query comes before the header, and that before the environment. -/
def resolveChannel (query : Option String) (headers : Headers) (envChannel : OutputChannel) :
    OutputChannel :=
  match query, headers.outputChannel with
  | some value, _ => parseChannel value
  | none, some value => parseChannel value
  | none, none => envChannel

def bodyId (body : JsonValue φ) : JsonValue φ := (body.get "id").getD .null

/-- A message, or the messages of a batch. -/
def messagesOf : JsonValue φ → List (JsonValue φ)
  | .array items => items
  | other => [other]

def sessionLost : String :=
  "MCP session lost (server may have restarted for data sync). Please ask the user to disconnect " ++
    "and reconnect the MCP server in the client settings — typically by toggling the MCP " ++
    "connection off and on, or restarting the client application."

def notInitialized : Response φ :=
  transportError 400 (-32000) "Bad Request: Server not initialized" .null

/-- The answer to what is no object in a batch. -/
def invalidRequest : JsonValue φ := error .null (-32600) "Invalid Request" none

/-- What the table of sessions says of an id. -/
abbrev Sessions := String → Option (ConnectionState × OutputChannel)

/-- What a request finds: the sessions when its id is looked up and when it is touched, the id of a
session that it creates, and the application at each of its messages. -/
structure Environment (α : Type) where
  atContains : Sessions
  atTouch : Sessions
  freshId : String
  app : ℕ → α

/-- What a request does to the table. -/
inductive SessionChange where
  | keep
  | setState (id : String) (state : ConnectionState)
  | create (id : String) (channel : OutputChannel) (state : ConnectionState)
  | remove (id : String)

def StatusHint.rank : StatusHint → ℕ
  | .ok => 0
  | .badRequest => 1
  | .notFound => 2

def StatusHint.max (a b : StatusHint) : StatusHint := if rank a ≤ rank b then b else a

def StatusHint.status : StatusHint → ℕ
  | .ok => 200
  | .badRequest => 400
  | .notFound => 404

/-- The messages of a body, each with the application that it finds. -/
def withApps (app : ℕ → α) (messages : List (JsonValue φ)) : List (JsonValue φ × α) :=
  messages.zipIdx.map fun item => (item.1, app item.2)

def modernStep (server : Server φ α) (channel : OutputChannel)
    (acc : List (JsonValue φ) × StatusHint) (item : JsonValue φ × α) :
    List (JsonValue φ) × StatusHint :=
  if item.1.isObject then
    let dispatched := server.handleModernMessage item.1 channel item.2
    match dispatched.outcome with
    | .response v =>
      (acc.1 ++ [v],
        if dispatched.statusHint = .notFound then StatusHint.max acc.2 .notFound else acc.2)
    | .accepted => acc
  else (acc.1 ++ [invalidRequest], StatusHint.max acc.2 .badRequest)

def handleModern (server : Server φ α) (channel : OutputChannel) (items : List (JsonValue φ × α)) :
    Response φ :=
  match items.foldl (modernStep server channel) ([], .ok) with
  | ([], _) => acceptedResponse
  | ([v], worst) => jsonResponse (StatusHint.status worst) v
  | (responses, worst) => jsonResponse (StatusHint.status worst) (.array responses)

/-- The plain error of an initialization that comes twice. -/
def protocolError (id response : JsonValue φ) : Response φ :=
  jsonResponse 400 (.object (match response.get "error" with
    | some err => [("jsonrpc", .string "2.0"), ("error", err), ("id", id)]
    | none => []))

/-- The messages of a legacy request, up to the first one that is refused. -/
def legacyLoop (server : Server φ α) (channel : OutputChannel) (state : ConnectionState) :
    List (JsonValue φ × α) → Except (Response φ) (List (JsonValue φ) × ConnectionState)
  | [] => .ok ([], state)
  | (message, app) :: items =>
    if message.isObject then
      let (dispatched, state) := server.handleLegacyMessage state message channel app
      match dispatched.statusHint, dispatched.outcome with
      | .badRequest, .response v => .error (protocolError (requestId message) v)
      | .badRequest, .accepted => .ok ([], state)
      | _, .response v =>
        (legacyLoop server channel state items).map fun rest => (v :: rest.1, rest.2)
      | _, .accepted => legacyLoop server channel state items
    else
      (legacyLoop server channel state items).map fun rest => (invalidRequest :: rest.1, rest.2)

def isInit (body : JsonValue φ) : Bool := !body.isArray && methodOf body = some "initialize"

namespace Shared

variable (shared : Shared φ α)

def channelFor (request : Request) : OutputChannel :=
  resolveChannel request.query request.headers shared.envChannel

def runFreshInitialize (request : Request) (env : Environment α) (body : JsonValue φ) :
    Response φ × SessionChange :=
  let channel := shared.channelFor request
  let (dispatched, state) := shared.server.handleLegacyMessage .default body channel (env.app 0)
  (match dispatched.outcome with
    | .response v => sseResponse [v] (some env.freshId)
    | .accepted => acceptedResponse,
    .create env.freshId channel state)

/-- The messages of a live session. -/
def handleSession (env : Environment α) (sessionId : String) (body : JsonValue φ) :
    Response φ × SessionChange :=
  match env.atTouch sessionId with
  | none => (transportError 404 (-32002) sessionLost .null, .keep)
  | some (state, channel) =>
    match legacyLoop shared.server channel state (withApps env.app (messagesOf body)) with
    | .error e => (e, .keep)
    | .ok ([], state) => (acceptedResponse, .setState sessionId state)
    | .ok (responses, state) =>
      (sseResponse responses (some sessionId), .setState sessionId state)

def handleLegacyPost (request : Request) (env : Environment α) (body : JsonValue φ) :
    Response φ × SessionChange :=
  match request.headers.sessionId with
  | some sessionId =>
    if (env.atContains sessionId).isSome then shared.handleSession env sessionId body
    else if isInit body then shared.runFreshInitialize request env body
    else (transportError 404 (-32002) sessionLost (bodyId body), .keep)
  | none =>
    if isInit body then shared.runFreshInitialize request env body
    else (notInitialized, .keep)

/-- The guards of a posted body, and the body. -/
def postedBody (request : Request) : Except (Response φ) (JsonValue φ) :=
  if !contentTypeIsJson request.headers.contentType then
    .error (transportError 415 (-32000)
      "Unsupported Media Type: Content-Type must be application/json" .null)
  else if !acceptAllowsEventStream request.headers.accept ||
      !acceptAllowsJson request.headers.accept then
    .error (transportError 406 (-32000)
      "Not Acceptable: Client must accept both application/json and text/event-stream" .null)
  else
    match shared.parseBytes request.body with
    | .ok body => .ok body
    | .error e => .error (transportError 400 (-32700) ("Parse error: " ++ e) .null)

end Shared

def anyEnvelope (body : JsonValue φ) : Bool :=
  (messagesOf body).any fun m => m.isObject && hasModernEnvelope m

/-- The `MCP-Protocol-Version` header without blanks around it. -/
def versionHeader (headers : Headers) : Option String :=
  let blank := fun c : Char => c = ' ' || c = '\t'
  headers.protocolVersion.map fun v =>
    String.ofList ((v.toList.dropWhile blank).rdropWhile blank)

def methodMismatch (body : JsonValue φ) : Response φ :=
  let named := ((messagesOf body).head?.bind methodOf).getD ""
  jsonResponse 400 (error (bodyId body) (-32020)
    ("Bad Request: the request headers and body disagree: the body names method " ++ named ++
      " but the required Mcp-Method header is absent")
    (some (.object [("mismatch", .object [("header", .string "(missing)"),
      ("body", .string ("the body names method " ++ named))])])))

def missingEnvelope (body : JsonValue φ) (version : String) : Response φ :=
  jsonResponse 400 (error (bodyId body) (-32602)
    ("Invalid params: the MCP-Protocol-Version header names protocol revision " ++ version ++
      ", but the request is missing the required per-request envelope key(s): _meta")
    (some (.object [("envelope", .object [("missing", .array [.string "_meta"])])])))

/-- Whether a posted body is of the modern era; its headers must agree. -/
def isModern (headers : Headers) (body : JsonValue φ) : Except (Response φ) Bool :=
  if anyEnvelope body then
    if (versionHeader headers).isSome && headers.mcpMethod.isNone then .error (methodMismatch body)
    else .ok true
  else
    match (versionHeader headers).filter fun version => ¬ version < modernProtocolVersion with
    | some version => .error (missingEnvelope body version)
    | none => .ok false

/-- A live session's id opens the stream, on which nothing is sent, or is closed. -/
def handleSessionId (sessionId : Option String) (env : Environment α)
    (live : String → Response φ × SessionChange) : Response φ × SessionChange :=
  match sessionId with
  | none => (notInitialized, .keep)
  | some id =>
    if (env.atContains id).isSome then live id
    else (transportError 404 (-32002) sessionLost .null, .keep)

def handleGet (request : Request) (env : Environment α) : Response φ × SessionChange :=
  if !acceptAllowsEventStream request.headers.accept then
    (transportError 406 (-32000) "Not Acceptable: Client must accept text/event-stream" .null,
      .keep)
  else handleSessionId request.headers.sessionId env fun _ => (⟨200, .stream, none⟩, .keep)

def handleDelete (request : Request) (env : Environment α) : Response φ × SessionChange :=
  handleSessionId request.headers.sessionId env fun id => (⟨200, .empty, none⟩, .remove id)

/-- `mcp_endpoint_inner`. -/
def Shared.endpoint (shared : Shared φ α) (request : Request) (env : Environment α) :
    Response φ × SessionChange :=
  match request.method with
  | .get => handleGet request env
  | .delete => handleDelete request env
  | .other => (transportError 405 (-32000) "Method not allowed." .null, .keep)
  | .post =>
    match shared.postedBody request with
    | .error e => (e, .keep)
    | .ok body =>
      match isModern request.headers body with
      | .error e => (e, .keep)
      | .ok true => (handleModern shared.server (shared.channelFor request)
          (withApps env.app (messagesOf body)), .keep)
      | .ok false => shared.handleLegacyPost request env body

/-! ## The answers of the transports -/

/-- What an item of a request is owed in its era: what is no object is refused. -/
def ItemAnswers (owes : JsonValue φ → List (JsonValue φ) → Prop) (item : JsonValue φ)
    (responses : List (JsonValue φ)) : Prop :=
  if item.isObject then owes item responses else responses = [invalidRequest]

/-- Responses to a list of items that are, item by item, those owed to it. -/
def Answered (owes : JsonValue φ → List (JsonValue φ) → Prop) (items responses : List (JsonValue φ)) :
    Prop :=
  ∃ answers, List.Forall₂ (ItemAnswers owes) items answers ∧ responses = answers.flatten

section Answered

variable {owes : JsonValue φ → List (JsonValue φ) → Prop} {items responses : List (JsonValue φ)}

theorem answered_nil : Answered owes [] [] := ⟨[], .nil, rfl⟩

theorem Answered.cons {item : JsonValue φ} {answer : List (JsonValue φ)}
    (h : Answered owes items responses) (hitem : ItemAnswers owes item answer) :
    Answered owes (item :: items) (answer ++ responses) := by
  obtain ⟨answers, hall, rfl⟩ := h
  exact ⟨answer :: answers, .cons hitem hall, rfl⟩

theorem itemAnswers_object {item : JsonValue φ} {answer : List (JsonValue φ)}
    (hobject : item.isObject) (h : owes item answer) : ItemAnswers owes item answer := by
  rw [ItemAnswers, if_pos hobject]
  exact h

theorem itemAnswers_invalid {item : JsonValue φ} (hobject : ¬ item.isObject) :
    ItemAnswers owes item [invalidRequest] := by
  rw [ItemAnswers, if_neg hobject]

end Answered

theorem messages_json {value : JsonValue φ} (h : (responseId value).isSome) :
    (Body.json value).messages = [value] := by
  cases value with
  | array items => cases h
  | _ => rfl

theorem map_fst_withApps (app : ℕ → α) (messages : List (JsonValue φ)) :
    (withApps app messages).map Prod.fst = messages := by
  rw [withApps, List.map_map]
  exact List.zipIdx_map_fst 0 messages

theorem ModernAnswers.isSome {message r : JsonValue φ} {responses : List (JsonValue φ)}
    (h : ItemAnswers ModernAnswers message responses) (hr : r ∈ responses) :
    (responseId r).isSome := by
  unfold ItemAnswers at h
  split at h
  · rw [h.carries r hr]
    rfl
  · rw [h, List.mem_singleton] at hr
    rw [hr]
    rfl

theorem modernStep_fst (server : Server φ α) (channel : OutputChannel)
    (acc : List (JsonValue φ) × StatusHint) (item : JsonValue φ × α) :
    ∃ answer, ItemAnswers ModernAnswers item.1 answer ∧
      (modernStep server channel acc item).1 = acc.1 ++ answer := by
  unfold modernStep
  by_cases hobject : item.1.isObject
  · rw [if_pos hobject]
    have hitem := handleModernMessage_answers server item.1 channel item.2
    refine ⟨_, itemAnswers_object hobject hitem, ?_⟩
    cases houtcome : (server.handleModernMessage item.1 channel item.2).outcome with
    | response v => simp only [houtcome, WireOutcome.messages]
    | accepted => simp only [houtcome, WireOutcome.messages, List.append_nil]
  · rw [if_neg hobject]
    exact ⟨[invalidRequest], itemAnswers_invalid hobject, rfl⟩

/-- The loop over a modern request answers its messages one by one. -/
theorem foldl_modernStep (server : Server φ α) (channel : OutputChannel)
    (items : List (JsonValue φ × α)) (acc : List (JsonValue φ) × StatusHint) :
    ∃ answers, List.Forall₂ (ItemAnswers ModernAnswers) (items.map Prod.fst) answers ∧
      (items.foldl (modernStep server channel) acc).1 = acc.1 ++ answers.flatten := by
  induction items generalizing acc with
  | nil => exact ⟨[], .nil, by simp⟩
  | cons item items ih =>
    obtain ⟨answer, hitem, hstep⟩ := modernStep_fst server channel acc item
    obtain ⟨answers, hall, hfold⟩ := ih (modernStep server channel acc item)
    refine ⟨answer :: answers, .cons hitem hall, ?_⟩
    rw [List.foldl_cons, hfold, hstep, List.flatten_cons, List.append_assoc]

theorem mem_flatten_isSome {items : List (JsonValue φ)} {answers : List (List (JsonValue φ))}
    (h : List.Forall₂ (ItemAnswers ModernAnswers) items answers) {r : JsonValue φ}
    (hr : r ∈ answers.flatten) : (responseId r).isSome := by
  induction h with
  | nil => cases hr
  | cons hitem _ ih =>
    rw [List.flatten_cons, List.mem_append] at hr
    rcases hr with hr | hr
    · exact ModernAnswers.isSome hitem hr
    · exact ih hr

theorem handleModern_answered (server : Server φ α) (channel : OutputChannel)
    (items : List (JsonValue φ × α)) :
    Answered ModernAnswers (items.map Prod.fst) (handleModern server channel items).body.messages := by
  obtain ⟨answers, hall, hfold⟩ := foldl_modernStep server channel items ([], .ok)
  refine ⟨answers, hall, ?_⟩
  rw [List.nil_append] at hfold
  unfold handleModern
  rcases hresult : items.foldl (modernStep server channel) ([], .ok) with ⟨responses, worst⟩
  rw [hresult] at hfold
  change responses = _ at hfold
  subst hfold
  match hflat : answers.flatten with
  | [] => rfl
  | [v] =>
    have hv : v ∈ answers.flatten := by rw [hflat]; exact List.mem_singleton_self v
    exact messages_json (mem_flatten_isSome hall hv)
  | v :: w :: rest => rfl

/-- The request initializes again: its session is initialized already or by a message before. -/
def SecondInitialize (state : ConnectionState) (items : List (JsonValue φ))
    (message : JsonValue φ) : Prop :=
  ∃ before after, items = before ++ message :: after ∧ methodOf message = some "initialize" ∧
    (state.legacyInitialized ∨ ∃ m ∈ before, methodOf m = some "initialize")

theorem SecondInitialize.cons {state state' : ConnectionState} {items : List (JsonValue φ)}
    {item message : JsonValue φ} (h : SecondInitialize state' items message)
    (hstate : state'.legacyInitialized → state.legacyInitialized ∨ methodOf item = some "initialize") :
    SecondInitialize state (item :: items) message := by
  obtain ⟨before, after, rfl, hm, hinit⟩ := h
  refine ⟨item :: before, after, rfl, hm, ?_⟩
  rcases hinit with hinit | ⟨m, hmem, hinit⟩
  · rcases hstate hinit with hold | hitem
    · exact .inl hold
    · exact .inr ⟨item, List.mem_cons_self, hitem⟩
  · exact .inr ⟨m, List.mem_cons_of_mem _ hmem, hinit⟩

/-- The loop over a legacy request answers its messages one by one, or else refuses the request
for its second initialization. -/
theorem legacyLoop_answers (server : Server φ α) (channel : OutputChannel)
    (items : List (JsonValue φ × α)) (state : ConnectionState) :
    (∀ result, legacyLoop server channel state items = .ok result →
      Answered LegacyAnswers (items.map Prod.fst) result.1) ∧
    (∀ e, legacyLoop server channel state items = .error e →
      ∃ message, SecondInitialize state (items.map Prod.fst) message ∧
        ∃ r, e.body.messages = [r] ∧ responseId r = some (requestId message)) := by
  induction items generalizing state with
  | nil =>
    refine ⟨?_, fun e h => nomatch h⟩
    rintro result ⟨⟩
    exact answered_nil
  | cons item items ih =>
    obtain ⟨message, app⟩ := item
    rw [legacyLoop]
    by_cases hobject : message.isObject
    · rw [if_pos hobject]
      have hitem := itemAnswers_object hobject
        (handleLegacyMessage_answers server state message channel app)
      have hinit := handleLegacyMessage_initialized server state message channel app
      have hbad := handleLegacyMessage_badRequest server state message channel app
      generalize server.handleLegacyMessage state message channel app = call at hitem hinit hbad ⊢
      obtain ⟨⟨outcome, hint⟩, after⟩ := call
      simp only at hitem hinit hbad ⊢
      by_cases hhint : hint = .badRequest
      · subst hhint
        obtain ⟨hm, hs, rfl⟩ := hbad rfl
        refine ⟨fun _ h => (nomatch h), ?_⟩
        rintro e ⟨⟩
        exact ⟨message, ⟨[], _, rfl, hm, .inl hs⟩, _, rfl, rfl⟩
      · obtain ⟨hok, herror⟩ := ih after
        cases hrest : legacyLoop server channel after items with
        | error e =>
          obtain ⟨m, hm, hr⟩ := herror e hrest
          have hcons := hm.cons hinit
          cases hint <;> cases outcome <;> first | exact absurd rfl hhint | skip
          all_goals
            refine ⟨fun _ h => (nomatch h), ?_⟩
            rintro e' ⟨⟩
            exact ⟨m, hcons, hr⟩
        | ok rest =>
          have hcons := (hok rest hrest).cons hitem
          cases hint <;> cases outcome <;> first | exact absurd rfl hhint | skip
          all_goals
            refine ⟨?_, fun e h => nomatch h⟩
            rintro result ⟨⟩
            exact hcons
    · rw [if_neg hobject]
      obtain ⟨hok, herror⟩ := ih state
      cases hrest : legacyLoop server channel state items with
      | error e =>
        refine ⟨fun _ h => (nomatch h), ?_⟩
        rintro e' ⟨⟩
        obtain ⟨m, hm, hr⟩ := herror e hrest
        exact ⟨m, hm.cons .inl, hr⟩
      | ok rest =>
        refine ⟨?_, fun e h => nomatch h⟩
        rintro result ⟨⟩
        exact (hok rest hrest).cons (itemAnswers_invalid hobject)

/-- A legacy request that reaches the handler: its session lives, or it initializes a new one. -/
def legacyAdmitted (request : Request) (env : Environment α) (body : JsonValue φ) : Bool :=
  match request.headers.sessionId with
  | some id => if (env.atContains id).isSome then (env.atTouch id).isSome else isInit body
  | none => isInit body

/-- A single response, with no id or the one of the body. -/
def RefusedWith (body : JsonValue φ) (responses : List (JsonValue φ)) : Prop :=
  ∃ e, responses = [e] ∧ (responseId e = some .null ∨ responseId e = some (bodyId body))

/-- The request is refused for the second initialization of its session. -/
def RefusedTwice (request : Request) (env : Environment α) (body : JsonValue φ)
    (responses : List (JsonValue φ)) : Prop :=
  ∃ id state channel message, request.headers.sessionId = some id ∧
    env.atTouch id = some (state, channel) ∧ SecondInitialize state (messagesOf body) message ∧
    ∃ r, responses = [r] ∧ responseId r = some (requestId message)

/-- The responses to a posted request. -/
structure PostAnswers (shared : Shared φ α) (request : Request) (env : Environment α)
    (responses : List (JsonValue φ)) : Prop where
  unread : ∀ e, shared.postedBody request = .error e →
    ∃ r, responses = [r] ∧ responseId r = some .null
  mismatched : ∀ body e, shared.postedBody request = .ok body →
    isModern request.headers body = .error e → RefusedWith body responses
  modern : ∀ body, shared.postedBody request = .ok body →
    isModern request.headers body = .ok true → Answered ModernAnswers (messagesOf body) responses
  legacy : ∀ body, shared.postedBody request = .ok body →
    isModern request.headers body = .ok false → legacyAdmitted request env body →
    Answered LegacyAnswers (messagesOf body) responses ∨ RefusedTwice request env body responses
  sessionless : ∀ body, shared.postedBody request = .ok body →
    isModern request.headers body = .ok false → legacyAdmitted request env body = false →
    RefusedWith body responses

section Endpoint

variable (shared : Shared φ α) (request : Request) (env : Environment α)

theorem postedBody_error {e : Response φ} (h : shared.postedBody request = .error e) :
    ∃ r, e.body.messages = [r] ∧ responseId r = some .null := by
  unfold Shared.postedBody at h
  split at h
  · cases h
    exact ⟨_, rfl, rfl⟩
  · split at h
    · cases h
      exact ⟨_, rfl, rfl⟩
    · split at h
      · cases h
      · cases h
        exact ⟨_, rfl, rfl⟩

theorem isModern_error {headers : Headers} {body : JsonValue φ} {e : Response φ}
    (h : isModern headers body = .error e) : RefusedWith body e.body.messages := by
  unfold isModern at h
  split at h
  · split at h
    · cases h
      exact ⟨_, rfl, .inr rfl⟩
    · cases h
  · split at h
    · cases h
      exact ⟨_, rfl, .inr rfl⟩
    · cases h

theorem runFreshInitialize_answered {body : JsonValue φ} (h : isInit body) :
    Answered LegacyAnswers (messagesOf body)
      (shared.runFreshInitialize request env body).1.body.messages := by
  have hobject : body.isObject := by
    cases body with
    | object fields => rfl
    | _ => simp [isInit, methodOf, JsonValue.get, JsonValue.isArray] at h
  have hmessages : messagesOf body = [body] := by
    cases body with
    | object fields => rfl
    | _ => cases hobject
  have hitem := itemAnswers_object hobject (handleLegacyMessage_answers shared.server .default body
    (shared.channelFor request) (env.app 0))
  rw [hmessages]
  refine ⟨[_], .cons hitem .nil, ?_⟩
  rw [List.flatten_singleton]
  unfold Shared.runFreshInitialize
  simp only
  cases (shared.server.handleLegacyMessage .default body (shared.channelFor request)
    (env.app 0)).1.outcome <;> rfl

theorem handleSession_answered {id : String} {body : JsonValue φ} {state : ConnectionState}
    {channel : OutputChannel} (hid : request.headers.sessionId = some id)
    (htouch : env.atTouch id = some (state, channel)) :
    Answered LegacyAnswers (messagesOf body) (shared.handleSession env id body).1.body.messages ∨
      RefusedTwice request env body (shared.handleSession env id body).1.body.messages := by
  have hloop := legacyLoop_answers shared.server channel (withApps env.app (messagesOf body)) state
  rw [map_fst_withApps] at hloop
  unfold Shared.handleSession
  rw [htouch]
  simp only
  cases hresult : legacyLoop shared.server channel state (withApps env.app (messagesOf body)) with
  | error e =>
    obtain ⟨message, hm, hr⟩ := hloop.2 e hresult
    exact .inr ⟨id, state, channel, message, hid, htouch, hm, hr⟩
  | ok result =>
    have hok := hloop.1 result hresult
    left
    obtain ⟨responses, after⟩ := result
    cases responses <;> exact hok

theorem handleLegacyPost_admitted {body : JsonValue φ} (h : legacyAdmitted request env body) :
    Answered LegacyAnswers (messagesOf body)
        (shared.handleLegacyPost request env body).1.body.messages ∨
      RefusedTwice request env body
        (shared.handleLegacyPost request env body).1.body.messages := by
  unfold legacyAdmitted at h
  unfold Shared.handleLegacyPost
  cases hid : request.headers.sessionId with
  | none =>
    simp only [hid] at h
    simp only [h]
    exact .inl (runFreshInitialize_answered shared request env h)
  | some id =>
    simp only [hid] at h
    by_cases hlive : (env.atContains id).isSome
    · rw [if_pos hlive] at h
      simp only [if_pos hlive]
      obtain ⟨⟨state, channel⟩, htouch⟩ := Option.isSome_iff_exists.mp h
      exact handleSession_answered shared request env hid htouch
    · rw [if_neg hlive] at h
      simp only [if_neg hlive, if_pos h]
      exact .inl (runFreshInitialize_answered shared request env h)

theorem handleLegacyPost_refused {body : JsonValue φ}
    (h : legacyAdmitted request env body = false) :
    RefusedWith body (shared.handleLegacyPost request env body).1.body.messages := by
  unfold legacyAdmitted at h
  unfold Shared.handleLegacyPost
  cases hid : request.headers.sessionId with
  | none =>
    simp only [hid] at h
    simp only [h]
    exact ⟨_, rfl, .inl rfl⟩
  | some id =>
    simp only [hid] at h
    by_cases hlive : (env.atContains id).isSome
    · rw [if_pos hlive] at h
      simp only [if_pos hlive]
      unfold Shared.handleSession
      rw [Option.isSome_eq_false_iff, Option.isNone_iff_eq_none] at h
      rw [h]
      exact ⟨_, rfl, .inl rfl⟩
    · rw [if_neg hlive] at h
      simp only [if_neg hlive, h]
      exact ⟨_, rfl, .inr rfl⟩

theorem endpoint_answers (hpost : request.method = .post) :
    PostAnswers shared request env (shared.endpoint request env).1.body.messages := by
  unfold Shared.endpoint
  rw [hpost]
  constructor
  · intro e he
    simp only [he]
    exact postedBody_error shared request he
  · intro body e hbody he
    simp only [hbody, he]
    exact isModern_error he
  · intro body hbody hmodern
    simp only [hbody, hmodern]
    have hanswered := handleModern_answered shared.server (shared.channelFor request)
      (withApps env.app (messagesOf body))
    rw [map_fst_withApps] at hanswered
    exact hanswered
  · intro body hbody hmodern hadmitted
    simp only [hbody, hmodern]
    exact handleLegacyPost_admitted shared request env hadmitted
  · intro body hbody hmodern hadmitted
    simp only [hbody, hmodern]
    exact handleLegacyPost_refused shared request env hadmitted

end Endpoint

section Stdio

variable (shared : Shared φ α)

/-- What a line is owed; one that holds no message is passed over. -/
def LineAnswers (line : Line α) (responses : List (JsonValue φ)) : Prop :=
  match shared.lineMessage line.text with
  | none => responses = []
  | some message =>
    (hasModernEnvelope message → ModernAnswers message responses) ∧
      (hasModernEnvelope message = false → LegacyAnswers message responses)

/-- The responses to the lines of a connection, all of them unless a write fails. -/
def ConnectionAnswers (lines : List (Line α)) (responses : List (JsonValue φ)) : Prop :=
  ∃ answers, List.Forall₂ (LineAnswers shared) lines answers ∧ responses <+: answers.flatten ∧
    ((∀ line ∈ lines, line.written) → responses = answers.flatten)

variable {shared}

theorem ConnectionAnswers.cons {line : Line α} {lines : List (Line α)}
    {answer responses : List (JsonValue φ)} (h : ConnectionAnswers shared lines responses)
    (hline : LineAnswers shared line answer) :
    ConnectionAnswers shared (line :: lines) (answer ++ responses) := by
  obtain ⟨answers, hall, hprefix, heq⟩ := h
  refine ⟨answer :: answers, .cons hline hall, ?_, fun hw => ?_⟩
  · rw [List.flatten_cons]
    exact (List.prefix_append_right_inj answer).mpr hprefix
  · rw [List.flatten_cons, heq fun l hl => hw l (List.mem_cons_of_mem _ hl)]

/-- Where a write fails, nothing more is written. -/
theorem ConnectionAnswers.unwritten {line : Line α} {lines : List (Line α)}
    {answer responses : List (JsonValue φ)} (h : ConnectionAnswers shared lines responses)
    (hline : LineAnswers shared line answer) (hfail : ¬ line.written) :
    ConnectionAnswers shared (line :: lines) [] := by
  obtain ⟨answers, hall, -, -⟩ := h
  exact ⟨answer :: answers, .cons hline hall, List.nil_prefix,
    fun hw => absurd (hw line List.mem_cons_self) hfail⟩

theorem runStdio_answers (shared : Shared φ α) (channel : OutputChannel) (eof : Bool)
    (lines : List (Line α)) (state : ConnectionState) :
    ConnectionAnswers shared lines (shared.runStdio channel eof state lines).1 := by
  induction lines generalizing state with
  | nil => exact ⟨[], .nil, List.nil_prefix, fun _ => rfl⟩
  | cons line lines ih =>
    rw [Shared.runStdio]
    cases hmessage : shared.lineMessage line.text with
    | none =>
      have hline : LineAnswers shared line [] := by
        rw [LineAnswers, hmessage]
      exact (ih state).cons hline
    | some message =>
      have hline : LineAnswers shared line
          (shared.server.handleStdioMessage state message channel line.app).1 := by
        rw [LineAnswers, hmessage]
        exact handleStdioMessage_answers shared.server state message channel line.app
      have hsingle : (shared.server.handleStdioMessage state message channel line.app).1.length ≤ 1 := by
        have hanswers := handleStdioMessage_answers shared.server state message channel line.app
        cases henvelope : hasModernEnvelope message with
        | true => exact (hanswers.1 henvelope).single
        | false => exact (hanswers.2 henvelope).single
      simp only
      generalize shared.server.handleStdioMessage state message channel line.app = call
        at hline hsingle ⊢
      obtain ⟨responses, after⟩ := call
      match responses, hsingle, hline with
      | [], _, hline => exact (ih after).cons hline
      | [r], _, hline =>
        by_cases hw : line.written
        · simp only [if_pos hw]
          exact (ih after).cons hline
        · simp only [if_neg hw]
          exact (ih after).unwritten hline hw

end Stdio

def isRequest (message : JsonValue φ) : Bool := message.isObject && !isNotification message

/-- Every request has one response with its id, and nothing else is answered. -/
def OneToOne (messages responses : List (JsonValue φ)) : Prop :=
  (responses.map responseId).Perm ((messages.filter isRequest).map responseId)

def listTools : JsonValue Unit :=
  .object [("jsonrpc", .string "2.0"), ("id", .number (.ofI64 1)), ("method", .string "tools/list")]

/-- A posted `tools/list` that names no session. -/
def sessionlessPost : Request where
  method := .post
  query := none
  headers := ⟨some "application/json, text/event-stream", some "application/json", none, none, none,
    none⟩
  body := "\x7b\"jsonrpc\":\"2.0\",\"id\":1,\"method\":\"tools/list\"\x7d".toUTF8.toList

def noTools : Shared Unit Unit where
  server := ⟨"3.2.3", [], fun _ => ""⟩
  envChannel := .content
  parseText := fun _ => none
  parseBytes := fun bytes =>
    if bytes = sessionlessPost.body then .ok listTools else .error "expected value"

def noSessions : Environment Unit := ⟨fun _ => none, fun _ => none, "", fun _ => ()⟩

end PrtsMcp.McpEndpoint
