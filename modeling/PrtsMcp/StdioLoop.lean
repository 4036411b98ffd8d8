import PrtsMcp.McpEndpoint

/-!
# The loop over standard input

The stdio transport on the bytes of its input: reading lines, decoding them, and handling what they
hold, up to the end of the input or the first failure.
-/
namespace PrtsMcp.StdioLoop

open JsonValue JsonRpc Dispatch McpEndpoint

/-! ## Lines -/

def newline : UInt8 := 10

/-- The bytes up to the first newline, with it, and what follows. -/
def readUntil : List UInt8 → List UInt8 × List UInt8
  | [] => ([], [])
  | b :: bytes =>
    if b = newline then ([b], bytes) else (b :: (readUntil bytes).1, (readUntil bytes).2)

theorem readUntil_append (bytes : List UInt8) : (readUntil bytes).1 ++ (readUntil bytes).2 = bytes := by
  induction bytes with
  | nil => rfl
  | cons b bytes ih =>
    rw [readUntil]
    split
    · rfl
    · rw [List.cons_append, ih]

theorem readUntil_ne_nil {bytes : List UInt8} (h : bytes ≠ []) : (readUntil bytes).1 ≠ [] := by
  cases bytes with
  | nil => exact absurd rfl h
  | cons b bytes =>
    rw [readUntil]
    split
    · exact List.cons_ne_nil _ _
    · exact List.cons_ne_nil _ _

/-- A line that is read leaves less to read. -/
theorem length_readUntil_lt {bytes : List UInt8} (h : bytes ≠ []) :
    (readUntil bytes).2.length < bytes.length := by
  have hlength := congrArg List.length (readUntil_append bytes)
  rw [List.length_append] at hlength
  have hpos := List.length_pos_of_ne_nil (readUntil_ne_nil h)
  omega

/-- The lines of the input, the last of them perhaps without a newline. -/
def lines (bytes : List UInt8) : List (List UInt8) :=
  if _h : bytes = [] then [] else (readUntil bytes).1 :: lines (readUntil bytes).2
termination_by bytes.length
decreasing_by exact length_readUntil_lt _h

theorem lines_nil : lines [] = [] := by
  rw [lines, dif_pos rfl]

theorem lines_of_ne_nil {bytes : List UInt8} (h : bytes ≠ []) :
    lines bytes = (readUntil bytes).1 :: lines (readUntil bytes).2 := by
  rw [lines, dif_neg h]

/-- Nothing of the input is lost between its lines. -/
theorem flatten_lines (bytes : List UInt8) : (lines bytes).flatten = bytes := by
  induction bytes using lines.induct with
  | case1 => rw [lines_nil, List.flatten_nil]
  | case2 bytes h ih => rw [lines_of_ne_nil h, List.flatten_cons, ih, readUntil_append]

/-- `read_line`; what is no UTF-8 is an error. -/
def decodeLine (line : List UInt8) : Option String := String.fromUTF8? ⟨line.toArray⟩

/-! ## Refusals -/

section Refusals

variable {φ α : Type}

def isError (response : JsonValue φ) : Bool := (response.get "error").isSome

/-- The methods that either era serves with a result. -/
def servedMethods : List (Option String) :=
  [some "server/discover", some "initialize", some "tools/list", some "tools/call"]

theorem getD_ne_of_unserved {message : JsonValue φ} (h : methodOf message ∉ servedMethods) {name : String}
    (hname : name ≠ "" ∧ some name ∈ servedMethods) : (methodOf message).getD "" ≠ name := by
  intro heq
  exact h (eq_some_of_getD heq hname.1 ▸ hname.2)

theorem isError_of_validateModernEnvelope {message e : JsonValue φ}
    (h : validateModernEnvelope message = .error e) : isError e := by
  unfold validateModernEnvelope at h
  split at h
  · cases h
    rfl
  · split at h
    · cases h
      rfl
    · cases h

/-- A request of a method that is not served is refused. -/
theorem isError_of_unknown {message r : JsonValue φ}
    (h : r ∈ (if isNotification message then accepted
      else methodNotFound (requestId message) : Dispatched φ).outcome.messages) : isError r := by
  split at h
  · cases h
  · rw [List.mem_singleton.mp h]
    rfl

variable (server : Server φ α)

theorem isError_handleModernMessage {message r : JsonValue φ} {channel : OutputChannel} {app : α}
    (hmethod : methodOf message ∉ servedMethods)
    (h : r ∈ (server.handleModernMessage message channel app).outcome.messages) : isError r := by
  unfold Server.handleModernMessage at h
  cases henvelope : validateModernEnvelope message with
  | error e =>
    rw [henvelope] at h
    rw [List.mem_singleton.mp h]
    exact isError_of_validateModernEnvelope henvelope
  | ok u =>
    simp only [henvelope] at h
    split at h
    · next heq => exact absurd heq (getD_ne_of_unserved hmethod (by decide))
    · next heq => exact absurd heq (getD_ne_of_unserved hmethod (by decide))
    · next heq => exact absurd heq (getD_ne_of_unserved hmethod (by decide))
    · next heq => exact absurd heq (getD_ne_of_unserved hmethod (by decide))
    · exact isError_of_unknown h

theorem isError_handleLegacyMessage {state : ConnectionState} {message r : JsonValue φ}
    {channel : OutputChannel} {app : α} (hmethod : methodOf message ∉ servedMethods)
    (h : r ∈ (server.handleLegacyMessage state message channel app).1.outcome.messages) : isError r := by
  unfold Server.handleLegacyMessage at h
  split at h
  · next heq => exact absurd heq (getD_ne_of_unserved hmethod (by decide))
  · cases h
  · next heq => exact absurd heq (getD_ne_of_unserved hmethod (by decide))
  · next heq => exact absurd heq (getD_ne_of_unserved hmethod (by decide))
  · exact isError_of_unknown h

/-- A message without a method that is served is answered with an error, if at all. -/
theorem isError_handleStdioMessage {state : ConnectionState} {message r : JsonValue φ}
    {channel : OutputChannel} {app : α} (hmethod : methodOf message ∉ servedMethods)
    (h : r ∈ (server.handleStdioMessage state message channel app).1) : isError r := by
  unfold Server.handleStdioMessage at h
  split at h
  · exact isError_handleModernMessage server hmethod h
  · split at h
    · rw [List.mem_singleton.mp h]
      rfl
    · exact isError_handleLegacyMessage server hmethod h

end Refusals

/-! ## The loop -/

section Loop

variable {φ α : Type}

/-- A line that was taken in: the message in it, and what was written for it. -/
structure Handled (φ : Type) where
  message : Option (JsonValue φ)
  response : Option (JsonValue φ)

structure Run (φ : Type) where
  handled : List (Handled φ)
  code : ℕ

def Run.cons (first : Handled φ) (run : Run φ) : Run φ := ⟨first :: run.handled, run.code⟩

def Run.responses (run : Run φ) : List (JsonValue φ) := run.handled.filterMap Handled.response

/-- `run_stdio` from its `n`-th line on. The application is as `app` says when a line is handled,
and an answer to it is written if `written` does. -/
def serve (shared : Shared φ α) (channel : OutputChannel) (app : ℕ → α) (written : ℕ → Bool) (n : ℕ)
    (state : ConnectionState) (bytes : List UInt8) : Run φ :=
  if _h : bytes = [] then ⟨[], 0⟩
  else
    match decodeLine (readUntil bytes).1 with
    | none => ⟨[], 1⟩
    | some text =>
      match shared.lineMessage text with
      | none => (serve shared channel app written (n + 1) state (readUntil bytes).2).cons ⟨none, none⟩
      | some message =>
        match shared.server.handleStdioMessage state message channel (app n) with
        | ([], state) =>
          (serve shared channel app written (n + 1) state (readUntil bytes).2).cons ⟨some message, none⟩
        | (response :: _, state) =>
          if written n then
            (serve shared channel app written (n + 1) state (readUntil bytes).2).cons
              ⟨some message, some response⟩
          else ⟨[⟨some message, none⟩], 1⟩
termination_by bytes.length
decreasing_by all_goals exact length_readUntil_lt _h

/-- The message of a line of the input. -/
def messageOf (shared : Shared φ α) (line : List UInt8) : Option (JsonValue φ) :=
  (decodeLine line).bind shared.lineMessage

/-- The lines as the connection handles them. -/
def textLines (app : ℕ → α) (written : ℕ → Bool) (n : ℕ) (lines : List (List UInt8)) : List (Line α) :=
  (lines.zipIdx n).map fun line => ⟨(decodeLine line.1).getD "", app line.2, written line.2⟩

/-- What a line may be answered: nothing if it holds no message, and no result if it holds one
without a method that is served. -/
def Handled.Fits (line : Handled φ) : Prop :=
  (line.message = none → line.response = none) ∧
    ∀ message, line.message = some message → methodOf message ∉ servedMethods →
      ∀ r, line.response = some r → isError r

/-- The loop ends with the input: every line was handled, what is no message was ignored or refused,
and the messages were answered. -/
structure Survives (shared : Shared φ α) (channel : OutputChannel) (app : ℕ → α) (written : ℕ → Bool)
    (state : ConnectionState) (bytes : List UInt8) : Prop where
  code : (serve shared channel app written 0 state bytes).code = 0
  messages : (serve shared channel app written 0 state bytes).handled.map Handled.message =
    (lines bytes).map (messageOf shared)
  fits : ∀ line ∈ (serve shared channel app written 0 state bytes).handled, line.Fits
  answers : ConnectionAnswers shared (textLines app written 0 (lines bytes))
    (serve shared channel app written 0 state bytes).responses

section Runs

variable (shared : Shared φ α) (channel : OutputChannel) (app : ℕ → α) {written : ℕ → Bool}

theorem serve_nil (n : ℕ) (state : ConnectionState) :
    serve shared channel app written n state [] = ⟨[], 0⟩ := by
  rw [serve, dif_pos rfl]

theorem serve_undecoded {bytes : List UInt8} (hne : bytes ≠ [])
    (h : decodeLine (readUntil bytes).1 = none) (n : ℕ) (state : ConnectionState) :
    serve shared channel app written n state bytes = ⟨[], 1⟩ := by
  rw [serve, dif_neg hne, h]

/-- A run that ends well has decoded every line. -/
theorem decoded_of_code {bytes : List UInt8} {n : ℕ} {state : ConnectionState}
    (h : (serve shared channel app written n state bytes).code = 0) :
    ∀ line ∈ lines bytes, (decodeLine line).isSome := by
  induction bytes using lines.induct generalizing n state with
  | case1 =>
    rw [lines_nil]
    exact fun line hline => absurd hline List.not_mem_nil
  | case2 bytes hne ih =>
    rw [lines_of_ne_nil hne, List.forall_mem_cons]
    cases hdecode : decodeLine (readUntil bytes).1 with
    | none =>
      rw [serve_undecoded shared channel app hne hdecode] at h
      cases h
    | some text =>
      refine ⟨rfl, ?_⟩
      rw [serve, dif_neg hne, hdecode] at h
      simp only at h
      split at h
      · exact ih h
      · split at h
        · exact ih h
        · split_ifs at h
          · exact ih h

/-- On lines that decode the loop is that of the connection. -/
theorem serve_eq_runStdio {bytes : List UInt8} (hdecoded : ∀ line ∈ lines bytes, (decodeLine line).isSome)
    (n : ℕ) (state : ConnectionState) :
    ((serve shared channel app written n state bytes).responses,
      (serve shared channel app written n state bytes).code) =
      shared.runStdio channel true state (textLines app written n (lines bytes)) := by
  induction bytes using lines.induct generalizing n state with
  | case1 =>
    rw [serve_nil, lines_nil]
    rfl
  | case2 bytes hne ih =>
    rw [lines_of_ne_nil hne, List.forall_mem_cons] at hdecoded
    obtain ⟨text, hdecode⟩ := Option.isSome_iff_exists.mp hdecoded.1
    have hrest := ih hdecoded.2 (n + 1)
    have hlines : textLines app written n (lines bytes) =
        ⟨text, app n, written n⟩ :: textLines app written (n + 1) (lines (readUntil bytes).2) := by
      rw [lines_of_ne_nil hne, textLines, List.zipIdx_cons, List.map_cons, hdecode]
      rfl
    rw [hlines, serve, dif_neg hne, hdecode, Shared.runStdio]
    simp only
    cases hmessage : shared.lineMessage text with
    | none => exact hrest state
    | some message =>
      simp only
      generalize shared.server.handleStdioMessage state message channel (app n) = call
      obtain ⟨responses, after⟩ := call
      cases responses with
      | nil => exact hrest after
      | cons response responses =>
        cases written n with
        | false => rfl
        | true =>
          simp only [if_pos, ← hrest after]
          rfl

/-- Every line is handled, if what is answered is also written. -/
theorem messages_serve {bytes : List UInt8} (hdecoded : ∀ line ∈ lines bytes, (decodeLine line).isSome)
    (hwritten : ∀ n, written n = true) (n : ℕ) (state : ConnectionState) :
    (serve shared channel app written n state bytes).code = 0 ∧
      (serve shared channel app written n state bytes).handled.map Handled.message =
        (lines bytes).map (messageOf shared) := by
  induction bytes using lines.induct generalizing n state with
  | case1 =>
    rw [serve_nil, lines_nil]
    exact ⟨rfl, rfl⟩
  | case2 bytes hne ih =>
    rw [lines_of_ne_nil hne, List.forall_mem_cons] at hdecoded
    obtain ⟨text, hdecode⟩ := Option.isSome_iff_exists.mp hdecoded.1
    have hcons : ∀ (run : Run φ) (first : Handled φ), first.message = shared.lineMessage text →
        run.code = 0 ∧
          run.handled.map Handled.message = (lines (readUntil bytes).2).map (messageOf shared) →
        (run.cons first).code = 0 ∧
          (run.cons first).handled.map Handled.message = (lines bytes).map (messageOf shared) := by
      rintro run first hfirst ⟨hcode, hmessages⟩
      refine ⟨hcode, ?_⟩
      rw [lines_of_ne_nil hne, List.map_cons, ← hmessages, messageOf, hdecode, Option.bind_some, ← hfirst]
      rfl
    rw [serve, dif_neg hne, hdecode]
    simp only
    cases hmessage : shared.lineMessage text with
    | none => exact hcons _ ⟨none, none⟩ hmessage.symm (ih hdecoded.2 _ _)
    | some message =>
      simp only
      split
      · exact hcons _ ⟨some message, none⟩ hmessage.symm (ih hdecoded.2 _ _)
      · next response _ after _ =>
        rw [if_pos (hwritten n)]
        exact hcons _ ⟨some message, some response⟩ hmessage.symm (ih hdecoded.2 _ _)

/-- Whatever the line, its answer fits. -/
theorem fits_serve (bytes : List UInt8) (n : ℕ) (state : ConnectionState) :
    ∀ line ∈ (serve shared channel app written n state bytes).handled, line.Fits := by
  have hnone : ∀ message : Option (JsonValue φ), Handled.Fits ⟨message, none⟩ :=
    fun message => ⟨fun _ => rfl, fun _ _ _ _ h => nomatch h⟩
  have hcons : ∀ (run : Run φ) (first : Handled φ), first.Fits → (∀ line ∈ run.handled, line.Fits) →
      ∀ line ∈ (run.cons first).handled, line.Fits :=
    fun run first hfirst hrun => List.forall_mem_cons.mpr ⟨hfirst, hrun⟩
  induction bytes using lines.induct generalizing n state with
  | case1 =>
    rw [serve_nil]
    exact fun line hline => absurd hline List.not_mem_nil
  | case2 bytes hne ih =>
    rw [serve, dif_neg hne]
    cases decodeLine (readUntil bytes).1 with
    | none => exact fun line hline => absurd hline List.not_mem_nil
    | some text =>
      simp only
      cases shared.lineMessage text with
      | none => exact hcons _ _ (hnone none) (ih _ _)
      | some message =>
        simp only
        split
        · exact hcons _ _ (hnone (some message)) (ih _ _)
        · next response responses after hcall =>
          have hfits : Handled.Fits ⟨some message, some response⟩ := by
            refine ⟨fun h => absurd h (Option.some_ne_none _), ?_⟩
            intro message' hmessage hmethod r hr
            obtain rfl := Option.some.inj hmessage
            obtain rfl := Option.some.inj hr
            apply isError_handleStdioMessage shared.server hmethod
            rw [hcall]
            exact List.mem_cons_self
          split
          · exact hcons _ _ hfits (ih _ _)
          · intro line hline
            rw [List.mem_singleton.mp hline]
            exact hnone _

end Runs

end Loop

end PrtsMcp.StdioLoop
