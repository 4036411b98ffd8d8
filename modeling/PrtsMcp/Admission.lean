import PrtsMcp.Interleaving
import PrtsMcp.OrderedMap

/-!
# Admission of a database

`admit` hashes, opens and checks a SQLite file that others may replace or rewrite at any time.
Receipts of this process and stamps on the disk let it skip parts of that work. A call is a task
that goes from stage to stage; what is put at a path or written to a file gives the file a new
change time, so that its token is one it never had.
-/
namespace PrtsMcp.Admission

open Interleaving

abbrev Bytes := List UInt8

/-- An inode, and how often it has changed. -/
abbrev Token := ℕ × ℕ

structure Expected where
  sha256 : String
  size : ℕ
  sourceVersion : String
  revision : ℕ
  compilerVersion : Option String

/-- What every file holds after each of its changes, and what the libraries say of such bytes:
their digest, the checks at a connection's opening, the rows of `meta`, the two checks of SQLite.
`descriptor` is the JSON text of an expectation. -/
structure World where
  bytes : Token → Bytes
  sha256 : Bytes → String
  descriptor : Expected → String
  openChecked : Bytes → Except String Unit
  metadata : Bytes → String → Option String
  quickCheck : Bytes → Except String Unit
  verifyContents : Bytes → Except String Unit

structure Observation where
  path : String
  token : Token

/-- The file that is kept open. -/
def Observation.file (o : Observation) : ℕ := o.token.1

structure Receipt where
  observed : Observation
  descriptor : String
  sha256 : Option String
  fullInProcess : Bool

def limit : ℕ := 8

structure GameDb where
  path : String
  identity : Token
  /-- The file that the connections read. -/
  connection : ℕ

/-- `strict` is `ValidationMode::Strict`. -/
structure Call where
  id : ℕ
  path : String
  expected : Option Expected
  strict : Bool
  fresh : Bool

/-- `stamps` are the digests and sizes in readable stamp files of this contract and SQLite version;
`handles` are all handles opened so far and `checked` their levels. -/
structure Core where
  changes : ℕ → ℕ
  paths : String → Option ℕ
  stamps : String → Option (String × ℕ)
  receipts : List Receipt
  handles : List GameDb
  checked : ℕ → ℕ
  databases : List ((String × Token) × ℕ)
  flights : List String
  calls : ℕ

def Core.new (paths : String → Option ℕ) (stamps : String → Option (String × ℕ)) : Core :=
  ⟨fun _ => 0, paths, stamps, [], [], fun _ => 0, [], [], 0⟩

namespace Core

variable (w : World) (c : Core)

/-- `file_token` -/
def token (file : ℕ) : Token := (file, c.changes file)

/-- `path_token` -/
def pathToken (path : String) : Option Token := (c.paths path).map c.token

def current (o : Observation) : Bool :=
  c.token o.file = o.token && c.pathToken o.path = some o.token

def read (file : ℕ) : Bytes := w.bytes (c.token file)

/-- The call gives its flight up. -/
def leave (call : Call) : Core := { c with flights := c.flights.erase call.path }

def liveReceipts : List Receipt := c.receipts.filter fun r => c.current r.observed

end Core

/-- A receipt that spares the call its hash. -/
def Receipt.covers (r : Receipt) (path sha256 : String) (strict : Bool) : Bool :=
  r.observed.path = path && r.sha256 = some sha256 && (!strict || r.fullInProcess)

/-- The table of `remember_proof`; the oldest receipts go while there are `limit`. -/
def remembered (current : Observation → Bool) (r : Receipt) (receipts : List Receipt) :
    List Receipt :=
  let kept := receipts.filter fun e => e.observed.path ≠ r.observed.path && current e.observed
  kept.drop (kept.length + 1 - limit) ++ [r]

def Expected.metadata (e : Expected) : List (String × String) :=
  [("source_version", e.sourceVersion), ("publication_revision", toString e.revision)] ++
    e.compilerVersion.toList.map fun version => ("compiler_version", version)

def Expected.stamped (e : Expected) (stamp : Option (String × ℕ)) : Bool :=
  stamp = some (e.sha256, e.size)

/-- What a call does next. `o` is its observation of the file, `reused` says that a receipt covers
it, `inner` is the observation of the handle that it opens. -/
inductive Stage where
  | flight
  | begin
  | observe (file : ℕ)
  | size (o : Observation)
  | receipt (o : Observation)
  | hash (o : Observation)
  | hashing (o : Observation) (file : ℕ) (read : Bytes)
  | authenticated (o : Observation) (reused : Bool)
  | cached (o : Observation) (reused : Bool)
  | opening (o : Observation) (reused : Bool)
  | opened (o : Observation) (reused : Bool) (file : ℕ)
  | connect (o : Observation) (reused : Bool) (inner : Observation)
  | connected (o : Observation) (reused : Bool) (inner : Observation) (file : ℕ)
  | publish (o : Observation) (reused : Bool) (inner : Observation) (file : ℕ)
  | ready (o : Observation) (reused : Bool) (db : ℕ)
  | custom (o : Observation) (db : ℕ)
  | customVerifying (o : Observation) (db : ℕ) (first : Token)
  | customLevel (o : Observation) (db : ℕ)
  | customDone (o : Observation) (db : ℕ)
  | metadata (o : Observation) (reused : Bool) (db : ℕ)
  | reuse (o : Observation) (db : ℕ)
  | choose (o : Observation) (db : ℕ)
  | verify (o : Observation) (db : ℕ)
  | verifying (o : Observation) (db : ℕ) (first : Token)
  | verified (o : Observation) (db : ℕ) (full : Bool)
  | stamp (o : Observation) (db : ℕ)
  | prove (o : Observation) (db : ℕ) (full : Bool)
  | lease (o : Observation) (db : ℕ) (full : Bool)
  | leased (o : Observation) (db : ℕ) (full : Bool)
  | push (o : Observation) (db : ℕ) (full : Bool)
  | retain (o : Observation) (db : ℕ)

/-- The stages whose act is `check`, which reads both tokens at once: one that is gone does not
come back between the two reads. -/
def Stage.checks : Stage → Option Observation
  | authenticated o _ | customDone o _ | reuse o _ | verified o _ _ | prove o _ _ | leased o _ _ =>
    some o
  | publish _ _ inner _ => some inner
  | _ => none

structure Task where
  call : Call
  stage : Stage

inductive Event where
  | silent
  | observed (call : ℕ) (token : Token)
  /-- The call has read a file to its end, which had this token then. -/
  | hashed (call : ℕ) (token : Token) (digest : String)
  | reused (call : ℕ) (receipt : Receipt)
  /-- The full structural check of a file has passed, with its tokens at the start and the end. -/
  | checked (first last : Token)
  | refused (call : ℕ) (message : Option String)
  | admitted (call : Call) (token : Token) (db : GameDb)

def mismatch : String := "SQLite file size/SHA-256 mismatch"

/-- One act of a call. -/
inductive Acts (w : World) : Task → Core → Event → List Task → Core → Prop where
  | flight {call : Call} {c : Core} : call.path ∉ c.flights →
    Acts w ⟨call, .flight⟩ c .silent [⟨call, .begin⟩] { c with flights := call.path :: c.flights }
  | flightFailed {call : Call} {c : Core} :
    Acts w ⟨call, .flight⟩ c (.refused call.id none) [] c
  | begin {call : Call} {file : ℕ} {c : Core} : c.paths call.path = some file →
    Acts w ⟨call, .begin⟩ c .silent [⟨call, .observe file⟩] c
  | observe {call : Call} {file : ℕ} {c : Core} : c.pathToken call.path = some (c.token file) →
    Acts w ⟨call, .observe file⟩ c (.observed call.id (c.token file))
      [⟨call, if call.expected.isSome then .size ⟨call.path, c.token file⟩
        else .cached ⟨call.path, c.token file⟩ false⟩] c
  | size {call : Call} {o : Observation} {e : Expected} {file : ℕ} {c : Core} :
    call.expected = some e → c.paths call.path = some file → (c.read w file).length = e.size →
    Acts w ⟨call, .size o⟩ c .silent [⟨call, if call.fresh then .hash o else .receipt o⟩] c
  | sizeWrong {call : Call} {o : Observation} {e : Expected} {file : ℕ} {c : Core} :
    call.expected = some e → c.paths call.path = some file → (c.read w file).length ≠ e.size →
    Acts w ⟨call, .size o⟩ c (.refused call.id mismatch) [] (c.leave call)
  /-- `verified_digest` -/
  | receipt {call : Call} {o : Observation} {e : Expected} {r : Receipt} {c : Core} :
    call.expected = some e → r ∈ c.liveReceipts → r.covers call.path e.sha256 call.strict →
    Acts w ⟨call, .receipt o⟩ c (.reused call.id r) [⟨call, .authenticated o true⟩]
      { c with receipts := c.liveReceipts }
  | noReceipt {call : Call} {o : Observation} {e : Expected} {c : Core} :
    call.expected = some e → (∀ r ∈ c.liveReceipts, ¬ r.covers call.path e.sha256 call.strict) →
    Acts w ⟨call, .receipt o⟩ c .silent [⟨call, .hash o⟩] { c with receipts := c.liveReceipts }
  /-- `hash_file` -/
  | hash {call : Call} {o : Observation} {file : ℕ} {c : Core} : c.paths call.path = some file →
    Acts w ⟨call, .hash o⟩ c .silent [⟨call, .hashing o file []⟩] c
  | hashRead {call : Call} {o : Observation} {file : ℕ} {read chunk : Bytes} {c : Core} :
    chunk ≠ [] → chunk.length ≤ 65536 → chunk <+: (c.read w file).drop read.length →
    Acts w ⟨call, .hashing o file read⟩ c .silent [⟨call, .hashing o file (read ++ chunk)⟩] c
  | hashed {call : Call} {o : Observation} {e : Expected} {file : ℕ} {read : Bytes} {c : Core} :
    (c.read w file).drop read.length = [] → call.expected = some e → w.sha256 read = e.sha256 →
    Acts w ⟨call, .hashing o file read⟩ c (.hashed call.id (c.token file) (w.sha256 read))
      [⟨call, .authenticated o false⟩] c
  | hashedOther {call : Call} {o : Observation} {e : Expected} {file : ℕ} {read : Bytes}
    {c : Core} : (c.read w file).drop read.length = [] → call.expected = some e →
    w.sha256 read ≠ e.sha256 →
    Acts w ⟨call, .hashing o file read⟩ c (.refused call.id mismatch) [] (c.leave call)
  | authenticated {call : Call} {o : Observation} {reused : Bool} {c : Core} : c.current o →
    Acts w ⟨call, .authenticated o reused⟩ c .silent [⟨call, .cached o reused⟩] c
  /-- `GameDb::cached` -/
  | cached {call : Call} {o : Observation} {reused : Bool} {token : Token} {db : ℕ} {c : Core} :
    c.pathToken call.path = some token → c.databases.lookup (call.path, token) = some db →
    Acts w ⟨call, .cached o reused⟩ c .silent [⟨call, .ready o reused db⟩] c
  | notCached {call : Call} {o : Observation} {reused : Bool} {token : Token} {c : Core} :
    c.pathToken call.path = some token → c.databases.lookup (call.path, token) = none →
    Acts w ⟨call, .cached o reused⟩ c .silent [⟨call, .opening o reused⟩] c
  /-- `GameDb::for_verification` -/
  | opening {call : Call} {o : Observation} {reused : Bool} {file : ℕ} {c : Core} :
    c.paths call.path = some file →
    Acts w ⟨call, .opening o reused⟩ c .silent [⟨call, .opened o reused file⟩] c
  | opened {call : Call} {o : Observation} {reused : Bool} {file : ℕ} {c : Core} :
    c.pathToken call.path = some (c.token file) →
    Acts w ⟨call, .opened o reused file⟩ c .silent
      [⟨call, .connect o reused ⟨call.path, c.token file⟩⟩] c
  | connect {call : Call} {o inner : Observation} {reused : Bool} {file : ℕ} {c : Core} :
    c.paths call.path = some file →
    Acts w ⟨call, .connect o reused inner⟩ c .silent [⟨call, .connected o reused inner file⟩] c
  | connected {call : Call} {o inner : Observation} {reused : Bool} {file : ℕ} {c : Core} :
    w.openChecked (c.read w file) = .ok () →
    Acts w ⟨call, .connected o reused inner file⟩ c .silent [⟨call, .publish o reused inner file⟩] c
  | connectedWrong {call : Call} {o inner : Observation} {reused : Bool} {file : ℕ}
    {message : String} {c : Core} : w.openChecked (c.read w file) = .error message →
    Acts w ⟨call, .connected o reused inner file⟩ c (.refused call.id message) [] (c.leave call)
  | publish {call : Call} {o inner : Observation} {reused : Bool} {file : ℕ} {c : Core} :
    c.current inner →
    Acts w ⟨call, .publish o reused inner file⟩ c .silent [⟨call, .ready o reused c.handles.length⟩]
      { c with
        handles := c.handles ++ [⟨call.path, inner.token, file⟩]
        checked := Function.update c.checked c.handles.length 0 }
  | ready {call : Call} {o : Observation} {reused : Bool} {db : ℕ} {g : GameDb} {c : Core} :
    c.handles[db]? = some g → w.metadata (c.read w g.connection) "derived_complete" = some "1" →
    Acts w ⟨call, .ready o reused db⟩ c .silent
      [⟨call, if call.expected.isSome then .metadata o reused db else .custom o db⟩] c
  | notReady {call : Call} {o : Observation} {reused : Bool} {db : ℕ} {g : GameDb} {c : Core} :
    c.handles[db]? = some g → w.metadata (c.read w g.connection) "derived_complete" ≠ some "1" →
    Acts w ⟨call, .ready o reused db⟩ c (.refused call.id "SQLite query data is incomplete") []
      (c.leave call)
  /-- `check_custom` -/
  | customKnown {call : Call} {o : Observation} {db : ℕ} {c : Core} :
    (if call.strict then 2 else 1) ≤ c.checked db →
    Acts w ⟨call, .custom o db⟩ c .silent [⟨call, .customDone o db⟩] c
  | customVerify {call : Call} {o : Observation} {db : ℕ} {g : GameDb} {c : Core} :
    call.strict = true → c.checked db < 2 → c.handles[db]? = some g →
    Acts w ⟨call, .custom o db⟩ c .silent
      [⟨call, .customVerifying o db (c.token g.connection)⟩] c
  | customVerified {call : Call} {o : Observation} {db : ℕ} {first : Token} {g : GameDb}
    {c : Core} : c.handles[db]? = some g →
    (first = c.token g.connection → w.verifyContents (c.read w g.connection) = .ok ()) →
    Acts w ⟨call, .customVerifying o db first⟩ c (.checked first (c.token g.connection))
      [⟨call, .customLevel o db⟩] c
  | customWrong {call : Call} {o : Observation} {db : ℕ} {first : Token} {g : GameDb}
    {message : String} {c : Core} : c.handles[db]? = some g →
    (first = c.token g.connection → w.verifyContents (c.read w g.connection) = .error message) →
    Acts w ⟨call, .customVerifying o db first⟩ c (.refused call.id message) [] (c.leave call)
  | customQuick {call : Call} {o : Observation} {db : ℕ} {g : GameDb} {c : Core} :
    call.strict = false → c.checked db < 1 → c.handles[db]? = some g →
    w.quickCheck (c.read w g.connection) = .ok () →
    Acts w ⟨call, .custom o db⟩ c .silent [⟨call, .customLevel o db⟩] c
  | customQuickWrong {call : Call} {o : Observation} {db : ℕ} {g : GameDb} {message : String}
    {c : Core} : call.strict = false → c.checked db < 1 → c.handles[db]? = some g →
    w.quickCheck (c.read w g.connection) = .error message →
    Acts w ⟨call, .custom o db⟩ c (.refused call.id message) [] (c.leave call)
  | customLevel {call : Call} {o : Observation} {db : ℕ} {c : Core} :
    Acts w ⟨call, .customLevel o db⟩ c .silent [⟨call, .customDone o db⟩]
      { c with
        checked := Function.update c.checked db (max (c.checked db) (if call.strict then 2 else 1)) }
  | customDone {call : Call} {o : Observation} {db : ℕ} {c : Core} : c.current o →
    Acts w ⟨call, .customDone o db⟩ c .silent [⟨call, .retain o db⟩] c
  | metadata {call : Call} {o : Observation} {reused : Bool} {db : ℕ} {e : Expected} {g : GameDb}
    {c : Core} : call.expected = some e → c.handles[db]? = some g →
    (∀ row ∈ e.metadata, w.metadata (c.read w g.connection) row.1 = some row.2) →
    Acts w ⟨call, .metadata o reused db⟩ c .silent
      [⟨call, if reused then .reuse o db else .choose o db⟩] c
  | metadataWrong {call : Call} {o : Observation} {reused : Bool} {db : ℕ} {e : Expected}
    {g : GameDb} {key wanted : String} {c : Core} : call.expected = some e →
    c.handles[db]? = some g → (key, wanted) ∈ e.metadata →
    w.metadata (c.read w g.connection) key ≠ some wanted →
    Acts w ⟨call, .metadata o reused db⟩ c
      (.refused call.id ("SQLite metadata mismatch: " ++ key)) [] (c.leave call)
  | reuse {call : Call} {o : Observation} {db : ℕ} {c : Core} : c.current o →
    Acts w ⟨call, .reuse o db⟩ c .silent [⟨call, .retain o db⟩] c
  | choose {call : Call} {o : Observation} {db : ℕ} {e : Expected} {c : Core} :
    call.expected = some e →
    Acts w ⟨call, .choose o db⟩ c .silent
      [⟨call, if call.fresh || call.strict || !e.stamped (c.stamps call.path) then .verify o db
        else .verified o db false⟩] c
  | verify {call : Call} {o : Observation} {db : ℕ} {g : GameDb} {c : Core} :
    c.handles[db]? = some g →
    Acts w ⟨call, .verify o db⟩ c .silent [⟨call, .verifying o db (c.token g.connection)⟩] c
  | verifying {call : Call} {o : Observation} {db : ℕ} {first : Token} {g : GameDb} {c : Core} :
    c.handles[db]? = some g →
    (first = c.token g.connection → w.verifyContents (c.read w g.connection) = .ok ()) →
    Acts w ⟨call, .verifying o db first⟩ c (.checked first (c.token g.connection))
      [⟨call, .verified o db true⟩] c
  | verifyingWrong {call : Call} {o : Observation} {db : ℕ} {first : Token} {g : GameDb}
    {message : String} {c : Core} : c.handles[db]? = some g →
    (first = c.token g.connection → w.verifyContents (c.read w g.connection) = .error message) →
    Acts w ⟨call, .verifying o db first⟩ c (.refused call.id message) [] (c.leave call)
  | verified {call : Call} {o : Observation} {db : ℕ} {full : Bool} {c : Core} : c.current o →
    Acts w ⟨call, .verified o db full⟩ c .silent
      [⟨call, if full then .stamp o db else .prove o db false⟩] c
  | stamp {call : Call} {o : Observation} {db : ℕ} {e : Expected} {c : Core} :
    call.expected = some e →
    Acts w ⟨call, .stamp o db⟩ c .silent [⟨call, .prove o db true⟩]
      { c with stamps := Function.update c.stamps call.path (some (e.sha256, e.size)) }
  | stampFailed {call : Call} {o : Observation} {db : ℕ} {c : Core} :
    Acts w ⟨call, .stamp o db⟩ c .silent [⟨call, .prove o db true⟩] c
  /-- `remember_proof` -/
  | prove {call : Call} {o : Observation} {db : ℕ} {full : Bool} {c : Core} : c.current o →
    Acts w ⟨call, .prove o db full⟩ c .silent [⟨call, .lease o db full⟩] c
  | leaseMissing {call : Call} {o : Observation} {db : ℕ} {full : Bool} {c : Core} :
    Acts w ⟨call, .lease o db full⟩ c .silent [⟨call, .retain o db⟩] c
  | lease {call : Call} {o : Observation} {db : ℕ} {full : Bool} {c : Core} :
    Acts w ⟨call, .lease o db full⟩ c .silent [⟨call, .leased o db full⟩] c
  | leased {call : Call} {o : Observation} {db : ℕ} {full : Bool} {c : Core} : c.current o →
    Acts w ⟨call, .leased o db full⟩ c .silent [⟨call, .push o db full⟩] c
  | push {call : Call} {o : Observation} {db : ℕ} {full : Bool} {e : Expected} {c : Core} :
    call.expected = some e →
    Acts w ⟨call, .push o db full⟩ c .silent [⟨call, .retain o db⟩]
      { c with
        receipts := remembered c.current ⟨o, w.descriptor e, some e.sha256, full⟩ c.receipts }
  | retain {call : Call} {o : Observation} {db : ℕ} {g : GameDb} {c : Core} :
    c.handles[db]? = some g →
    Acts w ⟨call, .retain o db⟩ c (.admitted call o.token g) []
      (Core.leave
        { c with databases := OrderedMap.insert (g.path, g.identity) db c.databases } call)
  | changed {call : Call} {stage : Stage} {o : Observation} {c : Core} : stage.checks = some o →
    ¬ c.current o →
    Acts w ⟨call, stage⟩ c (.refused call.id "SQLite file changed during validation") []
      (c.leave call)
  | changedAtOnce {call : Call} {stage : Stage} {file : ℕ} {c : Core} :
    (stage = .observe file ∨ ∃ o reused, stage = .opened o reused file) →
    c.pathToken call.path ≠ some (c.token file) →
    Acts w ⟨call, stage⟩ c (.refused call.id "SQLite file changed during validation") []
      (c.leave call)
  /-- The system or SQLite fails. -/
  | failed {call : Call} {stage : Stage} {c : Core} : stage ≠ .flight →
    Acts w ⟨call, stage⟩ c (.refused call.id none) [] (c.leave call)

/-- What goes on around the calls: new ones, changes of files, paths and stamps, and the other
uses of receipts and handles. -/
inductive Happens : Core → Event → List Task → Core → Prop where
  | called {c : Core} {call : Call} : call.id = c.calls →
    Happens c .silent [⟨call, .flight⟩] { c with calls := c.calls + 1 }
  | written {c : Core} (file : ℕ) :
    Happens c .silent [] { c with changes := Function.update c.changes file (c.changes file + 1) }
  | linked {c : Core} (path : String) (file : ℕ) :
    Happens c .silent []
      { c with
        paths := Function.update c.paths path (some file)
        changes := Function.update c.changes file (c.changes file + 1) }
  | unlinked {c : Core} (path : String) :
    Happens c .silent [] { c with paths := Function.update c.paths path none }
  | stamped {c : Core} (path : String) (stamp : Option (String × ℕ)) :
    Happens c .silent [] { c with stamps := Function.update c.stamps path stamp }
  /-- `forget` -/
  | forget {c : Core} (path : String) :
    Happens c .silent [] { c with receipts := c.receipts.filter fun r => r.observed.path ≠ path }
  /-- `contains` -/
  | contains {c : Core} : Happens c .silent [] { c with receipts := c.liveReceipts }
  /-- `GameDb::open` -/
  | opened {c : Core} {path : String} {token : Token} {level : ℕ} :
    c.pathToken path = some token → level ≤ 1 →
    Happens c .silent []
      { c with
        handles := c.handles ++ [⟨path, token, token.1⟩]
        checked := Function.update c.checked c.handles.length level
        databases := OrderedMap.insert (path, token) c.handles.length c.databases }
  /-- The last owner of a handle drops it. -/
  | dropped {c : Core} (key : String × Token) :
    Happens c .silent [] { c with databases := c.databases.filter fun e => e.1 ≠ key }

def machine (w : World) : Machine Core Task Event := ⟨Acts w, Happens⟩

/-- The runs of a process, from any files and stamps. -/
abbrev Ran (w : World) (paths : String → Option ℕ) (stamps : String → Option (String × ℕ))
    (es : List Event) (x : Config Core Task) : Prop :=
  Run (machine w) ⟨.new paths stamps, []⟩ es x

end PrtsMcp.Admission
