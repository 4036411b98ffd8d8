import PrtsMcp.Counts
import PrtsMcp.StoryBlocks
import PrtsMcp.Tables

/-!
# Story tables

The tables that the data compiler writes for the story corpus, and what the queries read of them.
-/
namespace PrtsMcp.StoryTables

open Blocks Counts Tables StoryLines StoryBlocks

/-- A chapter of the corpus, with its lines as they are unpacked. -/
structure Chapter where
  eventId : String
  storyKey : String
  storyCode : String
  storyName : String
  lines : List LineRef
  deriving DecidableEq, Repr

structure StorySearchIndex where
  eventIds : Finset String
  chapters : List Chapter

def kindName : Kind → String
  | .dialog => "dialog"
  | .narration => "narration"
  | .choice => "choice"

/-! ## Rows -/

structure ChapterRow where
  ordinal : ℕ
  event : String
  storyKey : String
  code : String
  name : String
  deriving DecidableEq, Repr

structure LineRow where
  chapter : ℕ
  line : ℕ
  kind : String
  role : Option String
  roleFold : String
  text : String
  textFold : String
  deriving DecidableEq, Repr

structure BlockRow where
  chapter : ℕ
  block : Block UInt8
  deriving DecidableEq, Repr

structure SpeakerRow where
  event : String
  role : String
  count : ℕ
  deriving DecidableEq, Repr

structure StoryDb where
  events : List String
  chapters : List ChapterRow
  lines : List LineRow
  blocks : List BlockRow
  speakers : List SpeakerRow
  deriving DecidableEq, Repr

/-! ## Derivation -/

/-- The speakers of the dialog lines. -/
def speakersOf (lines : List LineRef) : List String :=
  lines.filterMap fun line => if line.lineType = .dialog then line.role else none

def speakerRows (chapters : List Chapter) : List SpeakerRow :=
  let spoken := chapters.flatMap fun chapter =>
    (speakersOf chapter.lines).map fun role => (chapter.eventId, role)
  ((spoken.foldl bump []).insertionSort fun a b =>
    toLex a.1 ≤ toLex b.1).map fun entry => ⟨entry.1.1, entry.1.2, entry.2⟩

section Derive

variable (lower : String → String)

def chapterRow (chapter : Chapter) (ordinal : ℕ) : ChapterRow :=
  ⟨ordinal, chapter.eventId, chapter.storyKey, chapter.storyCode, chapter.storyName⟩

def lineRow (ordinal : ℕ) (line : LineRef) (no : ℕ) : LineRow :=
  ⟨ordinal, no, kindName line.lineType, line.role, lower (line.role.getD ""), line.text,
    lower line.text⟩

def lineRows (ordinal : ℕ) (lines : List LineRef) : List LineRow :=
  lines.zipIdx.map fun entry => lineRow lower ordinal entry.1 entry.2

def blockRows (ordinal : ℕ) (lines : List LineRef) : List BlockRow :=
  (storyBlocks lines).map (BlockRow.mk ordinal)

def tables (index : StorySearchIndex) : StoryDb where
  events := index.eventIds.sort (· ≤ ·)
  chapters := index.chapters.zipIdx.map fun entry => chapterRow entry.1 entry.2
  lines := index.chapters.zipIdx.flatMap fun entry => lineRows lower entry.2 entry.1.lines
  blocks := index.chapters.zipIdx.flatMap fun entry => blockRows entry.2 entry.1.lines
  speakers := speakerRows index.chapters

/-- The texts and the bytes of the rows, row by row. -/
def StoryDb.values (db : StoryDb) : List (List (List UInt8)) :=
  db.events.map (fun event => [utf8Bytes event]) ++
    db.chapters.map (fun row => [row.event, row.storyKey, row.code, row.name].map utf8Bytes) ++
    db.lines.map (fun row =>
      ([row.kind] ++ row.role.toList ++ [row.roleFold, row.text, row.textFold]).map utf8Bytes) ++
    db.blocks.map (fun row => [row.block.payload]) ++
    db.speakers.map fun row => [row.event, row.role].map utf8Bytes

/-- Which rows SQLite takes. -/
structure Sqlite where
  accepts : List (List UInt8) → Bool

/-- SQLite stores no string or BLOB of 2 GiB. -/
def Sqlite.Lawful (sqlite : Sqlite) : Prop :=
  ∀ values, sqlite.accepts values = true → ∀ value ∈ values, value.length < 2 ^ 31

/-- The derived tables, if every row could be inserted. -/
def derive (sqlite : Sqlite) (index : StorySearchIndex) : Option StoryDb :=
  let db := tables lower index
  if db.values.all sqlite.accepts then some db else none

end Derive

/-! ## Queries -/

def StoryDb.eventExists (db : StoryDb) (event : String) : Bool := db.events.contains event

/-- `story_chapters c JOIN story_lines l ON l.chapter=c.ordinal`. -/
def StoryDb.chapterLines (db : StoryDb) : List (ChapterRow × LineRow) :=
  db.chapters.flatMap fun c => (db.lines.filter fun l => l.chapter = c.ordinal).map fun l => (c, l)

/-- `story_chapters c JOIN story_blocks b ON b.chapter=c.ordinal`. -/
def StoryDb.chapterBlocks (db : StoryDb) : List (ChapterRow × Block UInt8) :=
  db.chapters.flatMap fun c =>
    (db.blocks.filter fun b => b.chapter = c.ordinal).map fun b => (c, b.block)

/-! ### What the queries read -/

section Read

variable {lower : String → String} {index : StorySearchIndex}

theorem eventExists_iff {event : String} :
    (tables lower index).eventExists event = true ↔ event ∈ index.eventIds := by
  rw [StoryDb.eventExists, tables, List.contains_iff_mem, Finset.mem_sort]

theorem lines_of {entry : Chapter × ℕ} (h : entry ∈ index.chapters.zipIdx) :
    (tables lower index).lines.filter (fun row => row.chapter = entry.2) =
      lineRows lower entry.2 entry.1.lines :=
  filter_key Prod.snd LineRow.chapter
    (f := fun entry : Chapter × ℕ => lineRows lower entry.2 entry.1.lines)
    (fun i row hrow => by
      obtain ⟨line, -, rfl⟩ := List.mem_map.mp hrow
      rfl) h (nodup_map_snd_zipIdx _)

theorem blocks_of {entry : Chapter × ℕ} (h : entry ∈ index.chapters.zipIdx) :
    (tables lower index).blocks.filter (fun row => row.chapter = entry.2) =
      blockRows entry.2 entry.1.lines :=
  filter_key Prod.snd BlockRow.chapter
    (f := fun entry : Chapter × ℕ => blockRows entry.2 entry.1.lines)
    (fun i row hrow => by
      obtain ⟨block, -, rfl⟩ := List.mem_map.mp hrow
      rfl) h (nodup_map_snd_zipIdx _)

theorem chapterLines_tables : (tables lower index).chapterLines =
    index.chapters.zipIdx.flatMap fun entry =>
      (lineRows lower entry.2 entry.1.lines).map fun row => (chapterRow entry.1 entry.2, row) := by
  rw [StoryDb.chapterLines]
  change (index.chapters.zipIdx.map _).flatMap _ = _
  rw [List.flatMap_map]
  refine List.flatMap_congr fun entry hentry => ?_
  change List.map _ (List.filter (fun row : LineRow => row.chapter = entry.2) _) = _
  rw [lines_of hentry]

theorem chapterBlocks_tables : (tables lower index).chapterBlocks =
    index.chapters.zipIdx.flatMap fun entry =>
      (storyBlocks entry.1.lines).map fun block => (chapterRow entry.1 entry.2, block) := by
  rw [StoryDb.chapterBlocks]
  change (index.chapters.zipIdx.map _).flatMap _ = _
  rw [List.flatMap_map]
  refine List.flatMap_congr fun entry hentry => ?_
  change List.map _ (List.filter (fun row : BlockRow => row.chapter = entry.2) _) = _
  rw [blocks_of hentry, blockRows, List.map_map]
  rfl

/-- What SQLite took is short enough for the lengths of a block. -/
theorem small_of_derive {sqlite : Sqlite} (hsqlite : sqlite.Lawful) {db : StoryDb}
    (h : derive lower sqlite index = some db) :
    db = tables lower index ∧ ∀ chapter ∈ index.chapters, ∀ line ∈ chapter.lines, Small line := by
  rw [derive] at h
  split_ifs at h with haccepts
  obtain rfl := Option.some.inj h
  refine ⟨rfl, fun chapter hchapter line hline => ?_⟩
  obtain ⟨i, hi⟩ := exists_mem_zipIdx hchapter
  obtain ⟨n, hn⟩ := exists_mem_zipIdx hline
  have hrow : lineRow lower i line n ∈ (tables lower index).lines :=
    List.mem_flatMap.mpr ⟨(chapter, i), hi, List.mem_map.mpr ⟨(line, n), hn, rfl⟩⟩
  have hvalues : ([kindName line.lineType] ++ line.role.toList ++
      [lower (line.role.getD ""), line.text, lower line.text]).map utf8Bytes ∈
        (tables lower index).values := by
    simp only [StoryDb.values, List.mem_append, List.mem_map]
    exact .inl (.inl (.inr ⟨_, hrow, rfl⟩))
  have hsmall := hsqlite _ (List.all_eq_true.mp haccepts _ hvalues)
  refine ⟨fun role hrole => hsmall _ ?_, hsmall _ ?_⟩
  · apply List.mem_map_of_mem
    simp [Option.mem_toList.mpr hrole]
  · apply List.mem_map_of_mem
    simp

end Read

end PrtsMcp.StoryTables
