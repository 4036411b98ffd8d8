import PrtsMcp.Frames
import PrtsMcp.JsonText

/-!
# Management messages

The request and the response of a connection to the management endpoint, their JSON, and how one of
them goes over a stream.
-/
namespace PrtsMcp.ControlWire

open Frames

variable {φ α : Type}

def protocolVersion : UInt32 := 1

def maxFrameBytes : ℕ := 1024 * 1024

/-- In seconds. -/
def handshakeTimeout : ℕ := 5

inductive Command where
  | hello
  | status
  | configShow
  | configDiff
  | configReload (expectedRevision : UInt64)
  | dataStatus
  | dataSync (target : String) (waitTimeout : UInt64)
  | jobsList
  | jobShow (id : String)
  | jobCancel (id : String)
  deriving DecidableEq, Repr

def Command.responseTimeout : Command → ℕ
  | status | dataStatus => 30
  | _ => handshakeTimeout

structure Request where
  protocolVersion : UInt32
  command : Command
  instanceName : String
  expectedStartupId : Option String
  deriving DecidableEq, Repr

structure Error where
  kind : String
  message : String
  deriving DecidableEq, Repr

inductive Outcome (φ : Type) where
  | success (result : JsonValue φ)
  | failure (error : Error)

structure Response (φ : Type) where
  protocolVersion : UInt32
  outcome : Outcome φ

def Response.success (result : JsonValue φ) : Response φ := ⟨ControlWire.protocolVersion, .success result⟩

def Response.failure (kind message : String) : Response φ :=
  ⟨ControlWire.protocolVersion, .failure ⟨kind, message⟩⟩

/-! ## JSON -/

def integer (n : UInt64) : JsonValue φ := .number (.posInt n)

/-- The method stands beside the fields of its variant. -/
def tagged (name : String) (fields : List (String × JsonValue φ)) : JsonValue φ :=
  .object (("method", .string name) :: fields)

def Command.toValue : Command → JsonValue φ
  | hello => tagged "hello" []
  | status => tagged "status" []
  | configShow => tagged "config_show" []
  | configDiff => tagged "config_diff" []
  | configReload expectedRevision => tagged "config_reload" [("expected_revision", integer expectedRevision)]
  | dataStatus => tagged "data_status" []
  | dataSync target waitTimeout =>
    tagged "data_sync" [("target", .string target), ("wait_timeout", integer waitTimeout)]
  | jobsList => tagged "jobs_list" []
  | jobShow id => tagged "job_show" [("id", .string id)]
  | jobCancel id => tagged "job_cancel" [("id", .string id)]

def Request.toValue (r : Request) : JsonValue φ :=
  .object [("protocol_version", integer r.protocolVersion.toUInt64), ("command", r.command.toValue),
    ("instance", .string r.instanceName), ("expected_startup_id", r.expectedStartupId.elim .null .string)]

/-- The outcome is flattened into the response and has no tag. -/
def Outcome.fields : Outcome φ → List (String × JsonValue φ)
  | success result => [("result", result)]
  | failure error => [("error", .object [("kind", .string error.kind), ("message", .string error.message)])]

def Response.toValue (r : Response φ) : JsonValue φ :=
  .object (("protocol_version", integer r.protocolVersion.toUInt64) :: r.outcome.fields)

/-- `serde_json::to_vec`, over how doubles are printed. -/
def toVec (print : φ → List Char) (v : JsonValue φ) : List UInt8 := JsonText.encode (JsonText.chars print false 0 v)

theorem toVec_object_ne_nil (print : φ → List Char) (fields : List (String × JsonValue φ)) :
    toVec print (.object fields) ≠ [] := by
  rw [toVec, JsonText.encode, JsonText.chars, JsonText.enclosed]
  split <;> simp

/-! ## Streams -/

inductive IoError where
  | unexpectedEof
  | invalidData (message : String)
  deriving DecidableEq, Repr

/-- What is written to the stream. -/
def send (bytes : List UInt8) : Except IoError (List UInt8) :=
  if maxFrameBytes < bytes.length then .error (.invalidData "management response too large")
  else .ok (frame bytes)

inductive Receiving (α : Type) where
  | waiting
  | failed (error : IoError)
  | received (value : α) (rest : List UInt8)
  deriving DecidableEq

/-- What has come of reading the bytes that have arrived, over `serde_json::from_slice`. The other end may have
closed the stream behind them. -/
def receive (fromSlice : List UInt8 → Option α) (stream : List UInt8) (closed : Bool) : Receiving α :=
  match readFrame maxFrameBytes stream with
  | .more => if closed then .failed .unexpectedEof else .waiting
  | .refused => .failed (.invalidData "invalid management frame length")
  | .got body rest =>
    match fromSlice body with
    | some value => .received value rest
    | none => .failed (.invalidData "invalid management JSON")

theorem maxFrameBytes_lt : maxFrameBytes < 4294967296 := by decide

theorem send_eq_ok_iff {bytes stream : List UInt8} :
    send bytes = .ok stream ↔ bytes.length ≤ maxFrameBytes ∧ stream = frame bytes := by
  rw [send]
  split
  · next h => simp [Nat.not_le.mpr h]
  · next h => simp [Nat.not_lt.mp h, eq_comm]

section Receive

variable {fromSlice : List UInt8 → Option α}

theorem receive_eq_received_iff {stream rest : List UInt8} {closed : Bool} {value : α} :
    receive fromSlice stream closed = .received value rest ↔
      ∃ body, stream = frame body ++ rest ∧ body ≠ [] ∧ body.length ≤ maxFrameBytes ∧ fromSlice body = some value := by
  constructor
  · intro h
    rw [receive] at h
    split at h
    · split at h <;> cases h
    · cases h
    · next body rest' hread =>
      obtain ⟨hstream, hne, hle⟩ := (readFrame_eq_got_iff maxFrameBytes_lt).mp hread
      split at h
      · next hvalue =>
        cases h
        exact ⟨body, hstream, hne, hle, hvalue⟩
      · cases h
  · rintro ⟨body, rfl, hne, hle, hvalue⟩
    rw [receive, readFrame_frame_append maxFrameBytes_lt hne hle]
    simp only [hvalue]

/-- As long as a byte of a frame is missing, the reader waits, and fails only when none can come. -/
theorem receive_of_append {body arrived missing : List UInt8} (hne : body ≠ []) (hle : body.length ≤ maxFrameBytes)
    (h : arrived ++ missing = frame body) (hmissing : missing ≠ []) :
    receive fromSlice arrived false = .waiting ∧ receive fromSlice arrived true = .failed .unexpectedEof := by
  simp [receive, readFrame_of_append maxFrameBytes_lt hne hle h hmissing]

end Receive

/-- A message arrives as it was sent, whatever follows it, and not before its last byte is there. -/
theorem receive_send (print : φ → List Char) (toValue : α → JsonValue φ) (fromSlice : List UInt8 → Option α)
    (value : α) (fields : List (String × JsonValue φ)) (stream : List UInt8) (hobject : toValue value = .object fields)
    (hread : fromSlice (toVec print (toValue value)) = some value)
    (hsend : send (toVec print (toValue value)) = .ok stream) :
    (∀ rest closed, receive fromSlice (stream ++ rest) closed = .received value rest) ∧
      ∀ arrived missing, arrived ++ missing = stream → missing ≠ [] →
        receive fromSlice arrived false = .waiting ∧ receive fromSlice arrived true = .failed .unexpectedEof := by
  obtain ⟨hle, rfl⟩ := send_eq_ok_iff.mp hsend
  have hne : toVec print (toValue value) ≠ [] := by
    rw [hobject]
    exact toVec_object_ne_nil print fields
  exact ⟨fun rest closed => receive_eq_received_iff.mpr ⟨_, rfl, hne, hle, hread⟩,
    fun arrived missing h hmissing => receive_of_append hne hle h hmissing⟩

/-- A request to reload, as a client sends it. -/
def reloadRequest : Request := ⟨1, .configReload 7, "main", some "b2"⟩

def noDoubles : Empty → List Char := Empty.elim

def reloadText : List UInt8 := toVec noDoubles reloadRequest.toValue

def readReload (body : List UInt8) : Option Request := if body = reloadText then some reloadRequest else none

theorem receive_send_reload :
    (∀ rest closed, receive readReload (frame reloadText ++ rest) closed = .received reloadRequest rest) ∧
      ∀ arrived missing, arrived ++ missing = frame reloadText → missing ≠ [] →
        receive readReload arrived false = .waiting ∧ receive readReload arrived true = .failed .unexpectedEof :=
  receive_send noDoubles Request.toValue readReload reloadRequest _ (frame reloadText) rfl (if_pos rfl)
    (send_eq_ok_iff.mpr ⟨by decide +kernel, rfl⟩)

end PrtsMcp.ControlWire
