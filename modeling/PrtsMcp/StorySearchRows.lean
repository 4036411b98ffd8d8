import PrtsMcp.StorySearch

/-!
# Rows of the story search

What a search reads of the derived tables are the lines of the corpus, row by row or block by block.
-/
namespace PrtsMcp.StorySearch

open Blocks Collect JsRegex RegexBytecode StoryBlocks StoryLines StoryTables Tables
open BlockFilter (Filter)

section Rows

variable {lower : String → String} {index : StorySearchIndex}

/-! ## Contexts -/

/-- A line of a context. -/
def shown (place : ℕ) (entry : LineRef × ℕ) : String × Bool :=
  (formatLineParts (kindName entry.1.lineType) entry.1.role entry.1.text, decide (entry.2 = place))

theorem context_eq (lines : List LineRef) (place radius : ℕ) : context lines place radius =
    ((lines.zipIdx.drop (place - radius)).take (place + radius + 1 - (place - radius))).map
      (shown place) := by
  have hpiece := congrArg (List.map (shown place)) (filterMap_range' lines (place - radius)
    (min (place + radius + 1) lines.length - (place - radius)))
  have htake : (lines.zipIdx.drop (place - radius)).take
      (min (place + radius + 1) lines.length - (place - radius)) =
      (lines.zipIdx.drop (place - radius)).take (place + radius + 1 - (place - radius)) := by
    rw [List.take_eq_take_iff, List.length_drop, List.length_zipIdx]
    omega
  rw [context, ← htake, ← hpiece, List.map_filterMap]
  simp only [Option.map_map]
  rfl

variable (lower) in
/-- The lines around a line are the same rows. -/
theorem dbContext_tables {entry : Chapter × ℕ} (h : entry ∈ index.chapters.zipIdx) {radius : ℤ}
    (hradius : 0 ≤ radius) (place : ℕ) :
    dbContext (tables lower index) entry.2 place radius =
      context entry.1.lines place radius.toNat := by
  obtain ⟨r, rfl⟩ := Int.eq_ofNat_of_zero_le hradius
  have hrange : ∀ row : LineRow,
      decide (max ((place : ℤ) - r) 0 ≤ row.line ∧ (row.line : ℤ) ≤ place + r) =
        decide (place - r ≤ row.line ∧ row.line ≤ place + r) := by
    intro row
    rw [decide_eq_decide]
    omega
  have hsorted : (lineRows lower entry.2 entry.1.lines).Pairwise fun a b => a.line ≤ b.line :=
    List.pairwise_map.mpr ((pairwise_place entry.1.lines).imp le_of_lt)
  have hpiece := filter_zipIdx entry.1.lines (place - r) (place + r) 0
  rw [Nat.sub_zero, Nat.max_zero] at hpiece
  rw [dbContext, lines_of h, context_eq, Int.toNat_natCast, ← hpiece]
  simp only [hrange]
  rw [(hsorted.filter _).insertionSort_eq, lineRows, List.filter_map, List.map_map]
  rfl

/-! ## Rows of a character -/

/-- The records of the corpus, with the numbers of their chapters. -/
def located (index : StorySearchIndex) : List (ℕ × Record) :=
  index.chapters.zipIdx.flatMap fun entry => (chapterRecords entry.1).map fun r => (entry.2, r)

theorem map_snd_located : (located index).map Prod.snd = records index := by
  rw [located, List.map_flatMap, records]
  conv_rhs => rw [← List.zipIdx_map_fst 0 index.chapters, List.flatMap_map]
  refine List.flatMap_congr fun entry _ => ?_
  rw [List.map_map]
  exact List.map_id _

/-- The joined rows of a record. -/
def rowOf (lower : String → String) (entry : ℕ × Record) : ChapterRow × LineRow :=
  (chapterRow entry.2.chapter entry.1, lineRow lower entry.1 entry.2.line entry.2.place)

theorem chapterLines_eq :
    (tables lower index).chapterLines = (located index).map (rowOf lower) := by
  rw [chapterLines_tables, located, List.map_flatMap]
  refine List.flatMap_congr fun entry _ => ?_
  rw [lineRows, chapterRecords, List.map_map, List.map_map, List.map_map]
  rfl

theorem pairwise_located : (located index).Pairwise fun a b =>
    toLex (a.1, a.2.place) ≤ toLex (b.1, b.2.place) := by
  rw [located, List.pairwise_flatMap]
  constructor
  · intro entry _
    have hplaces : entry.1.lines.zipIdx.Pairwise fun a b =>
        toLex (entry.2, a.2) ≤ toLex (entry.2, b.2) := by
      refine List.Pairwise.imp ?_ (pairwise_place entry.1.lines)
      intro a b hlt
      exact Prod.Lex.toLex_le_toLex.mpr (.inr ⟨rfl, le_of_lt hlt⟩)
    exact List.pairwise_map.mpr (List.pairwise_map.mpr hplaces)
  · refine (pairwise_place index.chapters).imp fun hlt a ha b hb => ?_
    obtain ⟨r, -, rfl⟩ := List.mem_map.mp ha
    obtain ⟨r', -, rfl⟩ := List.mem_map.mp hb
    exact Prod.Lex.toLex_le_toLex.mpr (.inl hlt)

theorem mem_located {entry : ℕ × Record} (h : entry ∈ located index) :
    (entry.2.chapter, entry.1) ∈ index.chapters.zipIdx := by
  obtain ⟨chapter, hchapter, hrecord⟩ := List.mem_flatMap.mp h
  obtain ⟨r, hr, rfl⟩ := List.mem_map.mp hrecord
  obtain ⟨line, -, rfl⟩ := List.mem_map.mp hr
  exact hchapter

variable {e : Engine} {re : Regex} {q : Query}

/-- The row of a record gives what the record gives. -/
theorem rowStep_rowOf (hradius : 0 ≤ q.contextLines) {entry : ℕ × Record}
    (h : entry ∈ located index) (hpasses : passes lower q entry.2 = true) :
    rowStep e (tables lower index) re q (rowOf lower entry) = step e lower re q entry.2 := by
  have hcontext := dbContext_tables lower (mem_located h) hradius entry.2.place
  rw [step, if_pos hpasses, rowStep]
  simp only [rowOf, chapterRow, lineRow] at hcontext ⊢
  rw [hcontext]
  rfl

theorem roleQuery_tables {character : String} (hcharacter : q.character = some character) :
    roleQuery lower (tables lower index) q character =
      ((located index).filter fun entry => passes lower q entry.2).map (rowOf lower) := by
  have hfilter : (((located index).map (rowOf lower)).filter fun row =>
      (q.eventId.all fun event => row.1.event = event) &&
        (row.2.kind = "dialog" && row.2.roleFold = lower character) &&
        q.lineType.all fun lineType => row.2.kind = lineType) =
      ((located index).filter fun entry => passes lower q entry.2).map (rowOf lower) := by
    rw [List.filter_map]
    congr 2
    funext entry
    simp only [Function.comp_apply, passes, hcharacter, Option.all_some]
    rfl
  have hsorted : (((located index).filter fun entry => passes lower q entry.2).map
      (rowOf lower)).Pairwise fun a b =>
        toLex (a.2.chapter, a.2.line) ≤ toLex (b.2.chapter, b.2.line) :=
    List.pairwise_map.mpr (pairwise_located.filter _)
  rw [roleQuery, chapterLines_eq, hfilter, hsorted.insertionSort_eq]

/-- The search by rows is the search through all records. -/
theorem collect_roleQuery (hradius : 0 ≤ q.contextLines) {character : String}
    (hcharacter : q.character = some character) :
    collect (rowStep e (tables lower index) re q) q.maxResults []
        (roleQuery lower (tables lower index) q character) =
      collect (step e lower re q) q.maxResults [] (records index) := by
  have hskip : ∀ entry ∈ located index, passes lower q entry.2 = false →
      (step e lower re q ∘ Prod.snd) entry = .ok none := by
    intro entry _ hpasses
    rw [Function.comp_apply, step, if_neg (by simp [hpasses])]
    rfl
  calc
    _ = collect (rowStep e (tables lower index) re q ∘ rowOf lower) q.maxResults []
        ((located index).filter fun entry => passes lower q entry.2) := by
      rw [roleQuery_tables hcharacter, collect_map]
    _ = collect (step e lower re q ∘ Prod.snd) q.maxResults []
        ((located index).filter fun entry => passes lower q entry.2) := by
      refine collect_congr (fun entry hentry => ?_) []
      rw [List.mem_filter] at hentry
      exact rowStep_rowOf hradius hentry.1 hentry.2
    _ = collect (step e lower re q ∘ Prod.snd) q.maxResults [] (located index) :=
      collect_filter hskip []
    _ = _ := by rw [← collect_map, map_snd_located]

/-! ## Blocks -/

/-- The blocks of the corpus, with the chapters they are cut from. -/
def blocksOf (index : StorySearchIndex) : List ((Chapter × ℕ) × Block UInt8) :=
  index.chapters.zipIdx.flatMap fun entry => (storyBlocks entry.1.lines).map fun b => (entry, b)

/-- The records of a block. -/
def blockRecords (eb : (Chapter × ℕ) × Block UInt8) : List Record :=
  ((eb.1.1.lines.zipIdx.drop eb.2.first).take (eb.2.last + 1 - eb.2.first)).map
    fun entry => ⟨eb.1.1, entry.1, entry.2⟩

/-- The joined rows of a block. -/
def blockRowOf (eb : (Chapter × ℕ) × Block UInt8) : ChapterRow × Block UInt8 :=
  (chapterRow eb.1.1 eb.1.2, eb.2)

def storyBlockOf (eb : (Chapter × ℕ) × Block UInt8) : StoryBlock :=
  storyBlock (blockRowOf eb).1 (blockRowOf eb).2

theorem mem_blocksOf {eb : (Chapter × ℕ) × Block UInt8} (h : eb ∈ blocksOf index) :
    eb.1 ∈ index.chapters.zipIdx ∧ eb.2 ∈ storyBlocks eb.1.1.lines := by
  obtain ⟨entry, hentry, hblock⟩ := List.mem_flatMap.mp h
  obtain ⟨b, hb, rfl⟩ := List.mem_map.mp hblock
  exact ⟨hentry, hb⟩

/-- The blocks of a chapter hold its records, each once and in order. -/
theorem flatMap_blockRecords (entry : Chapter × ℕ) :
    ((storyBlocks entry.1.lines).map fun b => (entry, b)).flatMap blockRecords =
      chapterRecords entry.1 := by
  have hpieces : ∀ b : Block UInt8,
      (entry.1.lines.zipIdx.drop b.first).take (b.last + 1 - b.first) =
        b.places.filterMap fun i => entry.1.lines[i]?.map fun line => (line, i) :=
    fun b => (filterMap_range' entry.1.lines b.first (b.last + 1 - b.first)).symm
  have hwhole := filterMap_range' entry.1.lines 0 entry.1.lines.length
  rw [List.drop_zero, List.take_of_length_le (by rw [List.length_zipIdx]),
    ← List.range_eq_range', ← places_cut encodeLine (128 * 1024), List.filterMap_flatMap] at hwhole
  rw [List.flatMap_map, chapterRecords, ← hwhole, List.map_flatMap]
  refine List.flatMap_congr fun b _ => ?_
  rw [blockRecords, hpieces]

theorem flatMap_blocksOf : (blocksOf index).flatMap blockRecords = records index := by
  rw [blocksOf, List.flatMap_assoc, records]
  conv_rhs => rw [← List.zipIdx_map_fst 0 index.chapters, List.flatMap_map]
  exact List.flatMap_congr fun entry _ => flatMap_blockRecords entry

theorem pairwise_blocksOf : (blocksOf index).Pairwise fun a b =>
    toLex (a.1.2, a.2.block) ≤ toLex (b.1.2, b.2.block) := by
  rw [blocksOf, List.pairwise_flatMap]
  constructor
  · intro entry _
    have hnumbers : ((storyBlocks entry.1.lines).map Block.block).Pairwise (· < ·) := by
      rw [storyBlocks, map_block_cut]
      exact List.pairwise_lt_range
    refine List.pairwise_map.mpr (List.Pairwise.imp ?_ (List.pairwise_map.mp hnumbers))
    intro a b hlt
    exact Prod.Lex.toLex_le_toLex.mpr (.inr ⟨rfl, le_of_lt hlt⟩)
  · refine (pairwise_place index.chapters).imp fun hlt a ha b hb => ?_
    obtain ⟨b, -, rfl⟩ := List.mem_map.mp ha
    obtain ⟨b', -, rfl⟩ := List.mem_map.mp hb
    exact Prod.Lex.toLex_le_toLex.mpr (.inl hlt)

/-- The blocks of an event are found in order. -/
theorem blockQuery_tables (event : Option String) :
    blockQuery (tables lower index) event =
      ((blocksOf index).filter fun eb => event.all fun event => eb.1.1.eventId = event).map
        blockRowOf := by
  have hrows : (tables lower index).chapterBlocks = (blocksOf index).map blockRowOf := by
    rw [chapterBlocks_tables, blocksOf, List.map_flatMap]
    refine List.flatMap_congr fun entry _ => ?_
    rw [List.map_map]
    rfl
  have hsorted : (((blocksOf index).filter fun eb =>
      event.all fun event => eb.1.1.eventId = event).map blockRowOf).Pairwise fun a b =>
        toLex (a.1.ordinal, a.2.block) ≤ toLex (b.1.ordinal, b.2.block) :=
    List.pairwise_map.mpr (pairwise_blocksOf.filter _)
  rw [blockQuery, hrows, List.filter_map]
  exact hsorted.insertionSort_eq

variable (lower) in
theorem payloadOf_tables {eb : (Chapter × ℕ) × Block UInt8} (h : eb ∈ blocksOf index) :
    payloadOf (tables lower index) eb.1.2 eb.2.block = .ok eb.2.payload := by
  obtain ⟨hentry, hblock⟩ := mem_blocksOf h
  have hnodup : ((storyBlocks eb.1.1.lines).map Block.block).Nodup := by
    rw [storyBlocks, map_block_cut]
    exact List.nodup_range
  have hfind : ((tables lower index).blocks.find? fun row =>
      row.chapter = eb.1.2 ∧ row.block.block = eb.2.block) = some ⟨eb.1.2, eb.2⟩ := by
    have hchapter : (((tables lower index).blocks.filter fun row => row.chapter = eb.1.2).find?
        fun row => row.block.block = eb.2.block) = (tables lower index).blocks.find? fun row =>
          row.chapter = eb.1.2 ∧ row.block.block = eb.2.block := by
      simp only [List.find?_filter, decide_eq_true_eq]
    rw [← hchapter, blocks_of hentry, blockRows, List.find?_map]
    change Option.map _ ((storyBlocks eb.1.1.lines).find? fun b => b.block = eb.2.block) = _
    rw [find?_key hnodup hblock]
    rfl
  rw [payloadOf, hfind]

end Rows

end PrtsMcp.StorySearch
