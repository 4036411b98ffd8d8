import PrtsMcp.Collect
import PrtsMcp.RegexShortcuts
import PrtsMcp.StoryTables

/-!
# Story search

The search through the lines of the corpus, and the search of the derived tables, which reads the
lines of a character row by row and all others from blocks. Blocks that cannot hold a match are
passed over, by a filter that is kept from an earlier visit or by their bytes.
-/
namespace PrtsMcp.StorySearch

open Blocks Collect JsRegex RegexBytecode StoryBlocks StoryLines StoryTables
open BlockFilter (Filter)

/-! ## Queries and hits -/

structure Query where
  pattern : String
  character : Option String
  lineType : Option String
  contextLines : ℤ
  maxResults : ℤ
  eventId : Option String
  deriving DecidableEq, Repr

structure Hit where
  eventId : String
  storyKey : String
  storyCode : String
  lineNumber : ℕ
  context : List (String × Bool)
  deriving DecidableEq, Repr

def hexDigit (n : ℕ) : Char := Nat.digitChar n

def escape (quote c : Char) : List Char :=
  if c = '\\' then ['\\', '\\']
  else if c = '\n' then ['\\', 'n']
  else if c = '\r' then ['\\', 'r']
  else if c = '\t' then ['\\', 't']
  else if c = quote then ['\\', quote]
  else if c.toNat < 32 ∨ c.toNat = 127 then
    ['\\', 'x', hexDigit (c.toNat / 16), hexDigit (c.toNat % 16)]
  else [c]

/-- The representation of a text in messages, in single quotes where it can be. -/
def pyRepr (value : String) : String :=
  let single := Char.ofNat 39
  let quote := if value.toList.contains single && !value.toList.contains '"' then '"' else single
  String.ofList (quote :: value.toList.flatMap (escape quote) ++ [quote])

def formatLineParts (lineType : String) (role : Option String) (text : String) : String :=
  if lineType = "dialog" then role.getD "（旁白）" ++ "：" ++ text
  else if lineType = "narration" then "*" ++ text ++ "*"
  else "【选项】" ++ text

def validLineTypes : List String := ["dialog", "narration", "choice"]

def unknownEvent (event : String) : Failure := .message ("未找到匹配的活动：" ++ pyRepr event ++ "。")

variable (e : Engine)

/-- The checks before either search. -/
def validate (q : Query) : Except Failure Regex :=
  if q.maxResults < 1 then .error (.message "max_results 必须 >= 1。")
  else if 100 < q.maxResults then .error (.message "max_results 必须 <= 100。")
  else if q.contextLines < 0 then .error (.message "context_lines 必须 >= 0。")
  else if 5 < q.contextLines then .error (.message "context_lines 必须 <= 5。")
  else do
    let re ← (JsRegex.compile e q.pattern).mapError fun error =>
      .message ("正则表达式无效：" ++ error)
    match q.lineType with
    | none => return re
    | some lineType =>
      if validLineTypes.contains lineType then return re
      else throw (.message ("无效的 line_type：" ++ pyRepr lineType ++
        "，可选值：choice, dialog, narration"))

def isMatch (re : Regex) (text : String) : Except Failure Bool :=
  (re.isMatch e false text.toList).mapError .message

/-! ## Search through the corpus -/

section Corpus

variable (lower : String → String)

/-- A line with its chapter and its place in it. -/
structure Record where
  chapter : Chapter
  line : LineRef
  place : ℕ

def chapterRecords (chapter : Chapter) : List Record :=
  chapter.lines.zipIdx.map fun entry => ⟨chapter, entry.1, entry.2⟩

def records (index : StorySearchIndex) : List Record := index.chapters.flatMap chapterRecords

def passes (q : Query) (r : Record) : Bool :=
  (q.eventId.all fun event => r.chapter.eventId = event) &&
    (q.character.all fun character => kindName r.line.lineType = "dialog" &&
      lower (r.line.role.getD "") = lower character) &&
    q.lineType.all fun lineType => kindName r.line.lineType = lineType

def context (lines : List LineRef) (place radius : ℕ) : List (String × Bool) :=
  let start := place - radius
  let stop := min (place + radius + 1) lines.length
  (List.range' start (stop - start)).filterMap fun j => lines[j]?.map fun line =>
    (formatLineParts (kindName line.lineType) line.role line.text, decide (j = place))

def Record.hit (r : Record) (radius : ℕ) : Hit :=
  ⟨r.chapter.eventId, r.chapter.storyKey, r.chapter.storyCode, r.place + 1,
    context r.chapter.lines r.place radius⟩

def step (re : Regex) (q : Query) (r : Record) : Except Failure (Option Hit) :=
  if passes lower q r then do
    if ← isMatch e re r.line.text then return some (r.hit q.contextLines.toNat) else return none
  else return none

def searchIndex (re : Regex) (index : StorySearchIndex) (q : Query) :
    Except Failure (List Hit) :=
  let scan := collectChecked (step e lower re q) q.maxResults [] (records index)
  match q.eventId with
  | none => scan
  | some event => if event ∈ index.eventIds then scan else .error (unknownEvent event)

def plainSearch (index : StorySearchIndex) (q : Query) : Except Failure (List Hit) := do
  searchIndex e lower (← validate e q) index q

end Corpus

/-! ## Search of the tables -/

/-- `SELECT line,kind,role,text FROM story_lines`, around a line. -/
def dbContext (db : StoryDb) (chapter line : ℕ) (radius : ℤ) : List (String × Bool) :=
  (((db.lines.filter fun row => row.chapter = chapter).filter fun row =>
    max ((line : ℤ) - radius) 0 ≤ row.line ∧ (row.line : ℤ) ≤ line + radius).insertionSort
      fun a b => a.line ≤ b.line).map fun row =>
        (formatLineParts row.kind row.role row.text, decide (row.line = line))

/-- A block without its bytes, and the chapter it belongs to. -/
structure StoryBlock where
  chapter : ℕ
  block : ℕ
  firstLine : ℕ
  event : String
  storyKey : String
  code : String
  deriving DecidableEq, Repr

structure BlockFilters where
  hints : List ((ℕ × ℕ) × Filter)
  catalog : Option (List StoryBlock)

def BlockFilters.empty : BlockFilters := ⟨[], none⟩

/-- `LIMIT` -/
def hintLimit : ℕ := 4096

def BlockFilters.remember (filters : BlockFilters) (key : ℕ × ℕ) (payload : List UInt8) :
    Except Failure BlockFilters :=
  if hintLimit ≤ filters.hints.length ∨ (filters.hints.lookup key).isSome then .ok filters
  else do
    let filter ← (BlockFilter.new (fun _ => false) payload).mapError .message
    return { filters with hints := (key, filter) :: filters.hints }

section Tables

variable (utf8Error : List UInt8 → String) (width : PointerWidth)

def storyBlock (row : ChapterRow) (b : Block UInt8) : StoryBlock :=
  ⟨row.ordinal, b.block, b.first, row.event, row.storyKey, row.code⟩

/-- The chapters and their blocks, of one event or of all. -/
def blockQuery (db : StoryDb) (event : Option String) : List (ChapterRow × Block UInt8) :=
  (db.chapterBlocks.filter fun row => event.all fun event => row.1.event = event).insertionSort
    fun a b => toLex (a.1.ordinal, a.2.block) ≤ toLex (b.1.ordinal, b.2.block)

def payloadOf (db : StoryDb) (chapter block : ℕ) : Except Failure (List UInt8) :=
  match db.blocks.find? fun row => row.chapter = chapter ∧ row.block.block = block with
  | some row => .ok row.block.payload
  | none => .error (.message "Query returned no rows")

def lineStep (db : StoryDb) (re : Regex) (q : Query) (b : StoryBlock) (entry : Line × ℕ) :
    Except Failure (Option Hit) :=
  if q.lineType.all fun lineType => lineType = kindName entry.1.kind then do
    if ← isMatch e re entry.1.text then
      let number := b.firstLine + entry.2
      return some ⟨b.event, b.storyKey, b.code, number + 1,
        dbContext db b.chapter number q.contextLines⟩
    else return none
  else return none

/-- The lines of a payload, unless its bytes rule out a match. -/
def scanPayload (db : StoryDb) (re : Regex) (q : Query) (b : StoryBlock) (payload : List UInt8)
    (found : List Hit) : Except Failure (List Hit × Bool) :=
  if re.mayMatchBytes payload then do
    let lines ← decode utf8Error width payload
    collect (lineStep e db re q b) q.maxResults found lines.zipIdx
  else return (found, false)

/-- One block, with the filters as they are afterwards. -/
def visit (db : StoryDb) (re : Regex) (q : Query) (filters : BlockFilters) (b : StoryBlock)
    (found : List Hit) : Except Failure (List Hit × Bool) × BlockFilters :=
  let cached := if re.blockFilterable then filters.hints.lookup (b.chapter, b.block) else none
  if cached.any fun filter => !re.mayMatchFilter filter then (.ok (found, false), filters)
  else
    match payloadOf db b.chapter b.block with
    | .error error => (.error error, filters)
    | .ok payload =>
      if cached.isNone && re.blockFilterable then
        match filters.remember (b.chapter, b.block) payload with
        | .error error => (.error error, filters)
        | .ok filters => (scanPayload e utf8Error width db re q b payload found, filters)
      else (scanPayload e utf8Error width db re q b payload found, filters)

def visitAll (db : StoryDb) (re : Regex) (q : Query) (filters : BlockFilters)
    (found : List Hit) : List StoryBlock → Except Failure (List Hit × Bool) × BlockFilters
  | [] => (.ok (found, false), filters)
  | b :: rest =>
    match visit e utf8Error width db re q filters b found with
    | (.ok (found, false), filters) => visitAll db re q filters found rest
    | done => done

/-- One more entry of a catalog; none are kept once they are too many or too long. -/
def catalogStep (state : Option (List StoryBlock) × ℕ) (b : StoryBlock) :
    Option (List StoryBlock) × ℕ :=
  match state.1 with
  | none => state
  | some entries =>
    let textBytes := state.2 + (utf8Bytes b.event).length + (utf8Bytes b.storyKey).length +
      (utf8Bytes b.code).length
    if entries.length < 4096 ∧ textBytes ≤ 512 * 1024 then (some (entries ++ [b]), textBytes)
    else (none, textBytes)

/-- The entries that a whole traversal keeps. -/
def catalogOf (blocks : List StoryBlock) : Option (List StoryBlock) :=
  (blocks.foldl catalogStep (some [], 0)).1

/-- `stream_blocks`, for patterns without a literal for the filters. -/
def streamBlocks (db : StoryDb) (re : Regex) (q : Query) (found : List Hit) :
    List (ChapterRow × Block UInt8) → Except Failure (List Hit × Bool)
  | [] => .ok (found, false)
  | row :: rest =>
    (scanPayload e utf8Error width db re q (storyBlock row.1 row.2) row.2.payload found).bind
      fun scanned =>
        if scanned.2 then .ok (scanned.1, true) else streamBlocks db re q scanned.1 rest

def searchBlocks (db : StoryDb) (re : Regex) (q : Query) (filters : BlockFilters) :
    Except Failure (List Hit) × BlockFilters :=
  if re.blockFilterable then
    match filters.catalog with
    | some catalog =>
      let done := visitAll e utf8Error width db re q filters []
        (catalog.filter fun b => q.eventId.all fun event => event = b.event)
      (done.1.map Prod.fst, done.2)
    | none =>
      let blocks := (blockQuery db q.eventId).map fun row => storyBlock row.1 row.2
      match visitAll e utf8Error width db re q filters [] blocks with
      | (.ok (found, false), filters) =>
        (.ok found, { filters with
          catalog := if q.eventId.isNone then catalogOf blocks else filters.catalog })
      | done => (done.1.map Prod.fst, done.2)
  else
    ((streamBlocks e utf8Error width db re q [] (blockQuery db q.eventId)).map Prod.fst, filters)

/-- The dialog lines of a character, one row each. -/
def roleQuery (lower : String → String) (db : StoryDb) (q : Query) (character : String) :
    List (ChapterRow × LineRow) :=
  (db.chapterLines.filter fun row =>
    (q.eventId.all fun event => row.1.event = event) &&
      (row.2.kind = "dialog" && row.2.roleFold = lower character) &&
      q.lineType.all fun lineType => row.2.kind = lineType).insertionSort
    fun a b => toLex (a.2.chapter, a.2.line) ≤ toLex (b.2.chapter, b.2.line)

def rowStep (db : StoryDb) (re : Regex) (q : Query) (row : ChapterRow × LineRow) :
    Except Failure (Option Hit) := do
  if ← isMatch e re row.2.text then
    return some ⟨row.1.event, row.1.storyKey, row.1.code, row.2.line + 1,
      dbContext db row.1.ordinal row.2.line q.contextLines⟩
  else return none

def databaseScan (lower : String → String) (db : StoryDb) (re : Regex) (q : Query)
    (filters : BlockFilters) : Except Failure (List Hit) × BlockFilters :=
  match q.character with
  | some character =>
    ((collect (rowStep e db re q) q.maxResults [] (roleQuery lower db q character)).map Prod.fst,
      filters)
  | none => searchBlocks e utf8Error width db re q filters

/-- A search of the tables, with the filters as they are afterwards. -/
def databaseSearch (lower : String → String) (db : StoryDb) (filters : BlockFilters) (q : Query) :
    Except Failure (List Hit) × BlockFilters :=
  match validate e q with
  | .error error => (.error error, filters)
  | .ok re =>
    match q.eventId with
    | none => databaseScan e utf8Error width lower db re q filters
    | some event =>
      if db.eventExists event then databaseScan e utf8Error width lower db re q filters
      else (.error (unknownEvent event), filters)

/-- Searches one after the other, with what they answer. -/
def searches (lower : String → String) (db : StoryDb) :
    BlockFilters → List Query → List (Except Failure (List Hit))
  | _, [] => []
  | filters, q :: rest =>
    let done := databaseSearch e utf8Error width lower db filters q
    done.1 :: searches lower db done.2 rest

end Tables

end PrtsMcp.StorySearch
