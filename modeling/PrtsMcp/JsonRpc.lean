import PrtsMcp.JsonValue

/-!
# JSON-RPC messages

The accessors of parsed messages and the shapes of responses and errors.
-/
namespace PrtsMcp

variable {φ : Type}

namespace JsonValue

def get (key : String) : JsonValue φ → Option (JsonValue φ)
  | object fields => fields.lookup key
  | _ => none

def asStr : JsonValue φ → Option String
  | string s => some s
  | _ => none

def asObject : JsonValue φ → Option (List (String × JsonValue φ))
  | object fields => some fields
  | _ => none

def asArray : JsonValue φ → Option (List (JsonValue φ))
  | array items => some items
  | _ => none

def isObject : JsonValue φ → Bool
  | object _ => true
  | _ => false

def isArray : JsonValue φ → Bool
  | array _ => true
  | _ => false

end JsonValue

namespace JsonRpc

open JsonValue

def modernProtocolVersion : String := "2026-07-28"

def legacyProtocolVersions : List String :=
  ["2024-11-05", "2025-03-26", "2025-06-18", "2025-11-25"]

/-- The answer to a version that is not supported. -/
def legacyFallbackVersion : String := "2025-11-25"

def envelopeProtocolVersion : String := "io.modelcontextprotocol/protocolVersion"

def envelopeClientInfo : String := "io.modelcontextprotocol/clientInfo"

def envelopeClientCapabilities : String := "io.modelcontextprotocol/clientCapabilities"

def requestId (message : JsonValue φ) : JsonValue φ := (message.get "id").getD .null

def isNotification (message : JsonValue φ) : Bool := (message.get "id").isNone

def response (id result : JsonValue φ) : JsonValue φ :=
  .object [("jsonrpc", .string "2.0"), ("id", id), ("result", result)]

def error (id : JsonValue φ) (code : Int64) (message : String) (data : Option (JsonValue φ)) :
    JsonValue φ :=
  .object [("jsonrpc", .string "2.0"), ("id", id), ("error",
    .object ([("code", .number (.ofI64 code)), ("message", .string message)] ++
      (data.map (Prod.mk "data")).toList))]

def methodOf (message : JsonValue φ) : Option String := (message.get "method").bind asStr

def paramsOf (message : JsonValue φ) : Option (JsonValue φ) := message.get "params"

def envelopeKey (message : JsonValue φ) : Option (JsonValue φ) :=
  ((paramsOf message).bind (get "_meta")).bind (get envelopeProtocolVersion)

/-- An empty `_meta` is no envelope. -/
def hasModernEnvelope (message : JsonValue φ) : Bool := (envelopeKey message).isSome

def envelopeVersion (message : JsonValue φ) : Option String := (envelopeKey message).bind asStr

/-- The id that a response carries. -/
def responseId (message : JsonValue φ) : Option (JsonValue φ) := message.get "id"

@[simp]
theorem responseId_response (id result : JsonValue φ) :
    responseId (response id result) = some id := rfl

@[simp]
theorem responseId_error (id : JsonValue φ) (code : Int64) (message : String)
    (data : Option (JsonValue φ)) : responseId (error id code message data) = some id := rfl

end JsonRpc

end PrtsMcp
