import PrtsMcp.JsonRpc

/-!
# Message dispatch

The handlers of a single message of either era, and what each owes to requests and notifications.
-/
namespace PrtsMcp.Dispatch

open JsonValue JsonRpc

inductive OutputChannel where
  | content
  | structured
  | both
  deriving DecidableEq, Repr

/-- What a tool gives: a result in every channel, or an error of the protocol. -/
inductive DispatchResult (φ : Type) where
  | outcome (render : OutputChannel → JsonValue φ)
  | rpcError (code : Int64) (message : String)

/-- A tool of an application in the states `α`. -/
structure ToolEntry (φ α : Type) where
  name : String
  declaration : JsonValue φ
  dispatch : α → JsonValue φ → DispatchResult φ

structure ConnectionState where
  legacyInitialized : Bool
  modernEstablished : Bool
  deriving DecidableEq, Repr

def ConnectionState.default : ConnectionState := ⟨false, false⟩

inductive WireOutcome (φ : Type) where
  | response (message : JsonValue φ)
  | accepted

inductive StatusHint where
  | ok
  | badRequest
  | notFound
  deriving DecidableEq, Repr

structure Dispatched (φ : Type) where
  outcome : WireOutcome φ
  statusHint : StatusHint

/-- What does not change while a server runs; `prettyPrint` is the JSON library's. -/
structure Server (φ α : Type) where
  version : String
  tools : List (ToolEntry φ α)
  prettyPrint : JsonValue φ → String

variable {φ α : Type}

def WireOutcome.messages : WireOutcome φ → List (JsonValue φ)
  | response message => [message]
  | accepted => []

def respond (message : JsonValue φ) : Dispatched φ := ⟨.response message, .ok⟩

def accepted : Dispatched φ := ⟨.accepted, .ok⟩

def methodNotFound (id : JsonValue φ) : Dispatched φ :=
  ⟨.response (error id (-32601) "Method not found" none), .notFound⟩

def unsupportedVersion (id : JsonValue φ) (requested : String) : JsonValue φ :=
  error id (-32022) ("Unsupported protocol version: " ++ requested)
    (some (.object [("supported", .array [.string modernProtocolVersion]),
      ("requested", .string requested)]))

def envelopeKeys : List String :=
  [envelopeProtocolVersion, envelopeClientInfo, envelopeClientCapabilities]

/-- The `_meta` of a message; an absent one is empty. -/
def metaOf (message : JsonValue φ) : JsonValue φ :=
  ((message.get "params").bind (get "_meta")).getD (.object [])

def missingKey (id : JsonValue φ) (key : String) : JsonValue φ :=
  error id (-32602) ("Invalid _meta envelope for protocol revision " ++ modernProtocolVersion ++
      ": " ++ key ++ ": missing")
    (some (.object [("envelope", .object [("key", .string key), ("problem", .string "missing")])]))

/-- The error of a message whose envelope is incomplete or of another version. -/
def validateModernEnvelope (message : JsonValue φ) : Except (JsonValue φ) Unit :=
  match envelopeKeys.find? fun key => ((metaOf message).get key).isNone with
  | some key => .error (missingKey (requestId message) key)
  | none =>
    if (envelopeVersion message).getD "" ≠ modernProtocolVersion then
      .error (unsupportedVersion (requestId message) ((envelopeVersion message).getD ""))
    else .ok ()

namespace Server

variable (server : Server φ α)

def serverInfo : JsonValue φ :=
  .object [("name", .string "PRTS_Wiki_Assistant"), ("version", .string server.version)]

def capabilities : JsonValue φ := .object [("tools", .object [("listChanged", .bool true)])]

def initializeResult (requested : String) : JsonValue φ :=
  let negotiated :=
    if requested ∈ legacyProtocolVersions then requested else legacyFallbackVersion
  .object [("protocolVersion", .string negotiated), ("capabilities", capabilities),
    ("serverInfo", server.serverInfo)]

def serverMeta : JsonValue φ :=
  .object [("io.modelcontextprotocol/serverInfo", server.serverInfo)]

def discoverResult : JsonValue φ :=
  .object [("supportedVersions", .array [.string modernProtocolVersion]),
    ("capabilities", capabilities), ("resultType", .string "complete"),
    ("ttlMs", .number (.ofI64 0)), ("cacheScope", .string "private"),
    ("_meta", server.serverMeta)]

def invalidToolsCallIssue (expected : String) (path : List String) (received : String) : String :=
  let issue : JsonValue φ := .object [("expected", .string expected),
    ("code", .string "invalid_type"), ("path", .array (path.map .string)),
    ("message", .string ("Invalid input: expected " ++ expected ++ ", received " ++ received))]
  "Invalid tools/call request: " ++ server.prettyPrint (.array [issue])

def jsReceived : Option (JsonValue φ) → String
  | none => "undefined"
  | some .null => "null"
  | some (.bool _) => "boolean"
  | some (.number _) => "number"
  | some (.string _) => "string"
  | some (.array _) => "array"
  | some (.object _) => "object"

def toolsListResult : JsonValue φ :=
  .object [("tools", .array (server.tools.map ToolEntry.declaration))]

/-- Responses of the modern era carry stateless metadata. -/
def modernizeResult (includeCacheFields : Bool) : JsonValue φ → JsonValue φ
  | .object fields =>
    let complete := OrderedMap.insert "resultType" (.string "complete") fields
    let cached :=
      if includeCacheFields then
        OrderedMap.insert "cacheScope" (.string "private")
          (OrderedMap.insert "ttlMs" (.number (.ofI64 0)) complete)
      else complete
    .object (OrderedMap.insert "_meta" server.serverMeta cached)
  | value => value

/-- A call that the schema of the protocol refuses. -/
def invalidCall (id : JsonValue φ) (expected : String) (path : List String)
    (received : Option (JsonValue φ)) : Dispatched φ :=
  respond (error id (-32602) (server.invalidToolsCallIssue expected path (jsReceived received))
    none)

/-- The arguments of a call; absent ones are empty. -/
def argumentsOf (params : JsonValue φ) : Except (JsonValue φ) (JsonValue φ) :=
  match params.get "arguments" with
  | none => .ok (.object [])
  | some v => if v.isObject then .ok v else .error v

def runTool (channel : OutputChannel) (app : α) (wrap : JsonValue φ → JsonValue φ)
    (id : JsonValue φ) (name : String) (arguments : JsonValue φ) : Dispatched φ :=
  match server.tools.find? (·.name = name) with
  | none => respond (error id (-32602) ("Tool " ++ name ++ " not found") none)
  | some tool =>
    match tool.dispatch app arguments with
    | .outcome render => respond (response id (wrap (render channel)))
    | .rpcError code message => respond (error id code message none)

/-- `tools/call`, whose result either era wraps in its own way. -/
def callTool (channel : OutputChannel) (app : α) (wrap : JsonValue φ → JsonValue φ)
    (id : JsonValue φ) (params : Option (JsonValue φ)) : Dispatched φ :=
  match params.filter isObject with
  | none => server.invalidCall id "object" ["params"] params
  | some params =>
    match (params.get "name").bind asStr with
    | none => server.invalidCall id "string" ["params", "name"] (params.get "name")
    | some name =>
      match argumentsOf params with
      | .error v => server.invalidCall id "record" ["params", "arguments"] (some v)
      | .ok arguments => server.runTool channel app wrap id name arguments

def requestedVersion (params : Option (JsonValue φ)) : String :=
  ((params.bind (get "protocolVersion")).bind asStr).getD ""

def handleLegacyMessage (state : ConnectionState) (message : JsonValue φ)
    (channel : OutputChannel) (app : α) : Dispatched φ × ConnectionState :=
  let id := requestId message
  let params := paramsOf message
  match (methodOf message).getD "" with
  | "initialize" =>
    if state.legacyInitialized then
      (⟨.response (error id (-32600) "Invalid Request: Server already initialized" none),
        .badRequest⟩, state)
    else
      (respond (response id (server.initializeResult (requestedVersion params))),
        { state with legacyInitialized := true })
  | "notifications/initialized" => (accepted, state)
  | "tools/list" => (respond (response id server.toolsListResult), state)
  | "tools/call" => (server.callTool channel app (fun result => result) id params, state)
  | _ => (if isNotification message then accepted else methodNotFound id, state)

def handleModernMessage (message : JsonValue φ) (channel : OutputChannel) (app : α) :
    Dispatched φ :=
  let id := requestId message
  match validateModernEnvelope message with
  | .error e => ⟨.response e, .badRequest⟩
  | .ok () =>
    match (methodOf message).getD "" with
    | "server/discover" => respond (response id server.discoverResult)
    | "initialize" => methodNotFound id
    | "tools/list" => respond (response id (server.modernizeResult true server.toolsListResult))
    | "tools/call" =>
      server.callTool channel app (server.modernizeResult false) id (paramsOf message)
    | _ => if isNotification message then accepted else methodNotFound id

/-- A message of a stdio connection, where both eras meet. -/
def handleStdioMessage (state : ConnectionState) (message : JsonValue φ)
    (channel : OutputChannel) (app : α) : List (JsonValue φ) × ConnectionState :=
  if hasModernEnvelope message then
    ((server.handleModernMessage message channel app).outcome.messages,
      { state with modernEstablished := true })
  else if methodOf message = some "initialize" ∧ state.modernEstablished then
    ([unsupportedVersion (requestId message) (requestedVersion (message.get "params"))], state)
  else
    let (dispatched, state) := server.handleLegacyMessage state message channel app
    (dispatched.outcome.messages, state)

end Server

/-! ## What a message is owed -/

/-- At most one response, which carries the id of the message: one if it is owed, none if the
message is to be passed over in silence. -/
structure Answers (owed silent : Prop) (message : JsonValue φ) (responses : List (JsonValue φ)) :
    Prop where
  single : responses.length ≤ 1
  carries : ∀ r ∈ responses, responseId r = some (requestId message)
  owed : owed → responses ≠ []
  silent : silent → responses = []

/-- In the legacy era `notifications/initialized` is never answered. -/
abbrev LegacyAnswers (message : JsonValue φ) : List (JsonValue φ) → Prop :=
  Answers (isNotification message = false ∧ methodOf message ≠ some "notifications/initialized")
    (isNotification message ∧ methodOf message ∉
      [some "initialize", some "tools/list", some "tools/call"]) message

abbrev ModernAnswers (message : JsonValue φ) : List (JsonValue φ) → Prop :=
  Answers (isNotification message = false)
    (isNotification message ∧ validateModernEnvelope message = .ok () ∧ methodOf message ∉
      [some "server/discover", some "initialize", some "tools/list", some "tools/call"]) message

/-- A single response with the id of the message. -/
def Carries (message : JsonValue φ) (dispatched : Dispatched φ) : Prop :=
  ∃ r, dispatched.outcome = .response r ∧ responseId r = some (requestId message)

theorem carries_respond {message r : JsonValue φ} (h : responseId r = some (requestId message)) :
    Carries message (respond r) := ⟨r, rfl, h⟩

theorem carries_methodNotFound (message : JsonValue φ) :
    Carries message (methodNotFound (requestId message)) := ⟨_, rfl, rfl⟩

theorem Carries.answers {message : JsonValue φ} {dispatched : Dispatched φ} {owed silent : Prop}
    (h : Carries message dispatched) (hsilent : ¬ silent) :
    Answers owed silent message dispatched.outcome.messages := by
  obtain ⟨r, hr, hid⟩ := h
  rw [hr]
  constructor
  · exact Nat.le_refl 1
  · intro r' hmem
    rw [List.mem_singleton.mp hmem]
    exact hid
  · exact fun _ => List.cons_ne_nil r []
  · exact fun hs => absurd hs hsilent

theorem answers_accepted {message : JsonValue φ} {owed silent : Prop} (howed : ¬ owed) :
    Answers owed silent message (accepted : Dispatched φ).outcome.messages :=
  ⟨Nat.zero_le 1, fun _ h => absurd h List.not_mem_nil, fun h => absurd h howed, fun _ => rfl⟩

section Handlers

variable (server : Server φ α)

theorem responds_runTool (channel : OutputChannel) (app : α) (wrap : JsonValue φ → JsonValue φ)
    (id : JsonValue φ) (name : String) (arguments : JsonValue φ) :
    ∃ r, server.runTool channel app wrap id name arguments = respond r ∧
      responseId r = some id := by
  unfold Server.runTool
  split
  · exact ⟨_, rfl, responseId_error _ _ _ _⟩
  · split
    · exact ⟨_, rfl, responseId_response _ _⟩
    · exact ⟨_, rfl, responseId_error _ _ _ _⟩

/-- A call is answered whether or not it can be made. -/
theorem responds_callTool (channel : OutputChannel) (app : α) (wrap : JsonValue φ → JsonValue φ)
    (id : JsonValue φ) (params : Option (JsonValue φ)) :
    ∃ r, server.callTool channel app wrap id params = respond r ∧ responseId r = some id := by
  unfold Server.callTool
  split
  · exact ⟨_, rfl, responseId_error _ _ _ _⟩
  · split
    · exact ⟨_, rfl, responseId_error _ _ _ _⟩
    · split
      · exact ⟨_, rfl, responseId_error _ _ _ _⟩
      · exact responds_runTool server channel app wrap id _ _

theorem carries_callTool (channel : OutputChannel) (app : α) (wrap : JsonValue φ → JsonValue φ)
    (message : JsonValue φ) (params : Option (JsonValue φ)) :
    Carries message (server.callTool channel app wrap (requestId message) params) := by
  obtain ⟨r, hr, hid⟩ := responds_callTool server channel app wrap (requestId message) params
  rw [hr]
  exact carries_respond hid

omit α in
theorem eq_some_of_getD {method : Option String} {name : String} (h : method.getD "" = name)
    (hname : name ≠ "") : method = some name := by
  cases method with
  | none => exact absurd h.symm hname
  | some m => exact congrArg some h

/-- A request is either passed over as a notification or refused. -/
theorem unknown_answers {owed silent : Prop} (message : JsonValue φ)
    (howed : owed → isNotification message = false) (hsilent : silent → isNotification message) :
    Answers owed silent message
      (if isNotification message then accepted
        else methodNotFound (requestId message) : Dispatched φ).outcome.messages := by
  cases hn : isNotification message with
  | true =>
    apply answers_accepted
    intro ho
    rw [howed ho] at hn
    cases hn
  | false =>
    apply (carries_methodNotFound message).answers
    intro hs
    rw [hsilent hs] at hn
    cases hn

theorem handleLegacyMessage_answers (state : ConnectionState) (message : JsonValue φ)
    (channel : OutputChannel) (app : α) :
    LegacyAnswers message
      (server.handleLegacyMessage state message channel app).1.outcome.messages := by
  -- a served method is answered, so a notification that names it may not be silent
  have hserved : ∀ name, methodOf message = some name →
      some name ∈ [some "initialize", some "tools/list", some "tools/call"] →
      ¬ (isNotification message ∧ methodOf message ∉
        [some "initialize", some "tools/list", some "tools/call"]) := by
    intro name hm hmem hs
    rw [hm] at hs
    exact hs.2 hmem
  unfold Server.handleLegacyMessage
  split
  · next h =>
    have hnot := hserved _ (eq_some_of_getD h (by decide)) (by decide)
    split
    · exact Carries.answers ⟨_, rfl, responseId_error _ _ _ _⟩ hnot
    · exact (carries_respond (responseId_response _ _)).answers hnot
  · next h =>
    apply answers_accepted
    exact fun ho => ho.2 (eq_some_of_getD h (by decide))
  · next h =>
    have hnot := hserved _ (eq_some_of_getD h (by decide)) (by decide)
    exact (carries_respond (responseId_response _ _)).answers hnot
  · next h =>
    have hnot := hserved _ (eq_some_of_getD h (by decide)) (by decide)
    exact (carries_callTool server channel app _ message _).answers hnot
  · exact unknown_answers message And.left And.left

/-- Only a second initialization is a bad request. -/
theorem handleLegacyMessage_badRequest (state : ConnectionState) (message : JsonValue φ)
    (channel : OutputChannel) (app : α)
    (h : (server.handleLegacyMessage state message channel app).1.statusHint = .badRequest) :
    methodOf message = some "initialize" ∧ state.legacyInitialized ∧
      (server.handleLegacyMessage state message channel app).1.outcome =
        .response (error (requestId message) (-32600)
          "Invalid Request: Server already initialized" none) := by
  unfold Server.handleLegacyMessage at h ⊢
  split at h
  · next hm =>
    split at h
    · next hinit =>
      refine ⟨eq_some_of_getD hm (by decide), hinit, ?_⟩
      simp only
      rw [if_pos hinit]
    · cases h
  · cases h
  · cases h
  · obtain ⟨r, hr, -⟩ := responds_callTool server channel app (fun result => result)
      (requestId message) (paramsOf message)
    simp only [hr] at h
    cases h
  · cases hn : isNotification message with
    | true =>
      rw [hn] at h
      cases h
    | false =>
      rw [hn] at h
      cases h

theorem handleLegacyMessage_initialized (state : ConnectionState) (message : JsonValue φ)
    (channel : OutputChannel) (app : α)
    (h : (server.handleLegacyMessage state message channel app).2.legacyInitialized) :
    state.legacyInitialized ∨ methodOf message = some "initialize" := by
  unfold Server.handleLegacyMessage at h
  split at h
  · next hm => exact .inr (eq_some_of_getD hm (by decide))
  all_goals exact .inl h

theorem responseId_of_validateModernEnvelope {message e : JsonValue φ}
    (h : validateModernEnvelope message = .error e) :
    responseId e = some (requestId message) := by
  unfold validateModernEnvelope at h
  split at h
  · cases h
    rfl
  · split at h
    · cases h
      rfl
    · cases h

theorem handleModernMessage_answers (message : JsonValue φ) (channel : OutputChannel) (app : α) :
    ModernAnswers message (server.handleModernMessage message channel app).outcome.messages := by
  have hserved : ∀ name, methodOf message = some name →
      some name ∈ [some "server/discover", some "initialize", some "tools/list",
        some "tools/call"] →
      ¬ (isNotification message ∧ validateModernEnvelope message = .ok () ∧ methodOf message ∉
        [some "server/discover", some "initialize", some "tools/list", some "tools/call"]) := by
    intro name hm hmem hs
    rw [hm] at hs
    exact hs.2.2 hmem
  unfold Server.handleModernMessage
  cases henvelope : validateModernEnvelope message with
  | error e =>
    apply Carries.answers ⟨e, rfl, responseId_of_validateModernEnvelope henvelope⟩
    intro hs
    rw [henvelope] at hs
    cases hs.2.1
  | ok u =>
    simp only
    split
    · next h =>
      have hnot := hserved _ (eq_some_of_getD h (by decide)) (by decide)
      exact (carries_respond (responseId_response _ _)).answers hnot
    · next h =>
      have hnot := hserved _ (eq_some_of_getD h (by decide)) (by decide)
      exact (carries_methodNotFound message).answers hnot
    · next h =>
      have hnot := hserved _ (eq_some_of_getD h (by decide)) (by decide)
      exact (carries_respond (responseId_response _ _)).answers hnot
    · next h =>
      have hnot := hserved _ (eq_some_of_getD h (by decide)) (by decide)
      exact (carries_callTool server channel app _ message _).answers hnot
    · exact unknown_answers message (fun ho => ho) And.left

/-- On a stdio connection the envelope of a message decides its era. -/
theorem handleStdioMessage_answers (state : ConnectionState) (message : JsonValue φ)
    (channel : OutputChannel) (app : α) :
    (hasModernEnvelope message → ModernAnswers message
      (server.handleStdioMessage state message channel app).1) ∧
    (hasModernEnvelope message = false → LegacyAnswers message
      (server.handleStdioMessage state message channel app).1) := by
  unfold Server.handleStdioMessage
  cases henvelope : hasModernEnvelope message with
  | true =>
    refine ⟨fun _ => ?_, fun h => by cases h⟩
    exact handleModernMessage_answers server message channel app
  | false =>
    refine ⟨fun h => by simp at h, fun _ => ?_⟩
    rw [if_neg (by simp)]
    by_cases hinit : methodOf message = some "initialize" ∧ state.modernEstablished
    · rw [if_pos hinit]
      refine (carries_respond (r := unsupportedVersion (requestId message) _) rfl).answers ?_
      rintro ⟨-, hs⟩
      rw [hinit.1] at hs
      exact hs (by decide)
    · rw [if_neg hinit]
      exact handleLegacyMessage_answers server state message channel app

end Handlers

end PrtsMcp.Dispatch
