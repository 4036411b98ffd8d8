import PrtsMcp.StorySearchRows

/-!
# Agreement of the story searches

A search of the derived tables answers as the search through the corpus does, whatever its filters
keep from earlier searches.
-/
namespace PrtsMcp.StorySearch

open Blocks Collect JsRegex RegexBytecode StoryBlocks StoryLines StoryTables Tables
open BlockFilter (Filter)

variable {e : Engine} {finds : List UInt8 → Thread → Prop} {lower : String → String}
  {index : StorySearchIndex} {re : Regex} {q : Query} {eb : (Chapter × ℕ) × Block UInt8}

/-! ## Lines of a block -/

theorem utf8Bytes_eq (s : String) : utf8Bytes s = Utf8.encode s.toList := by
  rw [utf8Bytes, ← String.utf8Encode_toList]
  exact List.toList_data_toByteArray

theorem mem_blockRecords {r : Record} (h : r ∈ blockRecords eb) :
    r.chapter = eb.1.1 ∧ eb.2.first ≤ r.place ∧ r.line ∈ eb.2.records eb.1.1.lines := by
  obtain ⟨entry, hentry, rfl⟩ := List.mem_map.mp h
  refine ⟨rfl, ?_, ?_⟩
  · rw [← filterMap_range'] at hentry
    obtain ⟨i, hi, hline⟩ := List.mem_filterMap.mp hentry
    obtain ⟨line, -, rfl⟩ := Option.map_eq_some_iff.mp hline
    exact (List.mem_range'_1.mp hi).1
  · have hfst := List.mem_map_of_mem (f := Prod.fst) hentry
    rwa [List.map_take, List.map_drop, List.zipIdx_map_fst] at hfst

/-- The text of a line stands in the bytes of its block. -/
theorem exists_payload (heb : eb ∈ blocksOf index) {r : Record} (hr : r ∈ blockRecords eb) :
    ∃ before after, eb.2.payload = before ++ Utf8.encode r.line.text.toList ++ after := by
  obtain ⟨front, back, hsplit⟩ := List.append_of_mem (mem_blockRecords hr).2.2
  have hpayload := payload_cut encodeLine (128 * 1024) eb.1.1.lines (mem_blocksOf heb).2
  rw [hsplit, List.flatMap_append, List.flatMap_cons] at hpayload
  simp only [encodeLine, ← List.cons_append, ← List.append_assoc] at hpayload
  rw [← utf8Bytes_eq]
  exact ⟨_, _, hpayload⟩

/-- What is read of a block are its records. -/
theorem decode_blockRecords (utf8Error : List UInt8 → String) (width : PointerWidth)
    (heb : eb ∈ blocksOf index) (hsmall : ∀ line ∈ eb.1.1.lines, Small line) :
    ∃ lines, decode utf8Error width eb.2.payload = .ok lines ∧
      lines.zipIdx = (blockRecords eb).map fun r => (lineOf r.line, r.place - eb.2.first) := by
  refine ⟨_, decode_storyBlocks utf8Error width hsmall (mem_blocksOf heb).2, ?_⟩
  rw [List.zipIdx_map, Block.records, zipIdx_piece, blockRecords, List.map_map, List.map_map]
  rfl

/-- A line of a block gives what its record gives. -/
theorem lineStep_of_record (hradius : 0 ≤ q.contextLines) (hcharacter : q.character = none)
    (heb : eb ∈ blocksOf index)
    (hevent : (q.eventId.all fun event => eb.1.1.eventId = event) = true) {r : Record}
    (hr : r ∈ blockRecords eb) :
    lineStep e (tables lower index) re q (storyBlockOf eb) (lineOf r.line, r.place - eb.2.first) =
      step e lower re q r := by
  obtain ⟨hchapter, hfirst, -⟩ := mem_blockRecords hr
  have hplace : eb.2.first + (r.place - eb.2.first) = r.place := by omega
  have hcontext := dbContext_tables lower (mem_blocksOf heb).1 hradius r.place
  have hpasses : passes lower q r =
      q.lineType.all fun lineType => lineType = kindName r.line.lineType := by
    rw [passes, hchapter, hevent, hcharacter, Option.all_none, Bool.true_and, Bool.true_and]
    simp only [eq_comm]
  rw [lineStep, step, hpasses]
  simp only [storyBlockOf, storyBlock, blockRowOf, chapterRow, lineOf, hplace, hcontext,
    Record.hit, hchapter]
  rfl

/-- Where the engine finds nothing, a line gives nothing or fails. -/
theorem step_of_not_finds (h : e.Lawful finds) (hre : JsRegex.compile e q.pattern = .ok re)
    {r : Record} (hnot : ¬ finds re.bytecode (start r.line.text.toList)) :
    step e lower re q r = .ok none ∨ ∃ error, step e lower re q r = .error error := by
  rw [step]
  split_ifs
  · rw [isMatch]
    rcases isMatch_of_not_finds h hre hnot with hno | ⟨error, herror, -⟩
    · rw [hno]
      exact .inl rfl
    · rw [herror]
      exact .inr ⟨.message error, rfl⟩
  · exact .inl rfl

/-- A block that is ruled out by its bytes may be passed over. -/
theorem spares_of_bytes (h : e.Lawful finds) (hre : JsRegex.compile e q.pattern = .ok re)
    (heb : eb ∈ blocksOf index) (hskip : re.mayMatchBytes eb.2.payload = false) (found : List Hit) :
    Spares (step e lower re q) (blockRecords eb) (.ok (found, false))
      (collect (step e lower re q) q.maxResults found (blockRecords eb)) := by
  refine spares_passed found fun r hr => step_of_not_finds h hre fun hfinds => ?_
  obtain ⟨before, after, hpayload⟩ := exists_payload heb hr
  have hmay := (mayMatch_of_finds h hre hfinds before after).1
  rw [← hpayload, hskip] at hmay
  contradiction

/-- A block that is ruled out by a filter of its bytes may be passed over. -/
theorem spares_of_filter (h : e.Lawful finds) (hre : JsRegex.compile e q.pattern = .ok re)
    (heb : eb ∈ blocksOf index) {filter : Filter}
    (hnew : BlockFilter.new (fun _ => false) eb.2.payload = .ok filter)
    (hskip : re.mayMatchFilter filter = false) (found : List Hit) :
    Spares (step e lower re q) (blockRecords eb) (.ok (found, false))
      (collect (step e lower re q) q.maxResults found (blockRecords eb)) := by
  refine spares_passed found fun r hr => step_of_not_finds h hre fun hfinds => ?_
  obtain ⟨before, after, hpayload⟩ := exists_payload heb hr
  rw [hpayload] at hnew
  have hmay := (mayMatch_of_finds h hre hfinds before after).2 _ filter hnew
  rw [hskip] at hmay
  contradiction

/-! ## Filters -/

/-- The filters are made from the blocks they are kept for, and the catalog lists all blocks. -/
structure BlockFilters.Sound (index : StorySearchIndex) (filters : BlockFilters) : Prop where
  hints : ∀ eb ∈ blocksOf index, ∀ filter,
    filters.hints.lookup (eb.1.2, eb.2.block) = some filter →
      BlockFilter.new (fun _ => false) eb.2.payload = .ok filter
  catalog : ∀ catalog, filters.catalog = some catalog →
    catalog = (blocksOf index).map storyBlockOf

variable {filters : BlockFilters}

theorem BlockFilters.Sound.empty : BlockFilters.empty.Sound index where
  hints _ _ _ h := by cases h
  catalog _ h := by cases h

/-- A number of a block in a chapter stands for one payload. -/
theorem payload_of_key {other : (Chapter × ℕ) × Block UInt8} (heb : eb ∈ blocksOf index)
    (hother : other ∈ blocksOf index) (hkey : (other.1.2, other.2.block) = (eb.1.2, eb.2.block)) :
    other.2.payload = eb.2.payload := by
  obtain ⟨hchapter, hblock⟩ := Prod.mk.inj hkey
  have hpayload := payloadOf_tables id hother
  rw [hchapter, hblock, payloadOf_tables id heb] at hpayload
  exact (Except.ok.inj hpayload).symm

theorem BlockFilters.Sound.remember (hfilters : filters.Sound index) (heb : eb ∈ blocksOf index) :
    ∃ filters' : BlockFilters,
      filters.remember (eb.1.2, eb.2.block) eb.2.payload = .ok filters' ∧ filters'.Sound index := by
  unfold BlockFilters.remember
  split_ifs with hkept
  · exact ⟨filters, rfl, hfilters⟩
  · obtain ⟨filter, hnew⟩ := BlockFilter.exists_new eb.2.payload
    refine ⟨{ filters with hints := ((eb.1.2, eb.2.block), filter) :: filters.hints },
      by rw [hnew]; rfl, fun other hother found hlookup => ?_, hfilters.catalog⟩
    rw [List.lookup_cons] at hlookup
    cases hkey : (other.1.2, other.2.block) == (eb.1.2, eb.2.block) with
    | true =>
      rw [hkey] at hlookup
      obtain rfl := Option.some.inj hlookup
      rw [payload_of_key heb hother (beq_iff_eq.mp hkey)]
      exact hnew
    | false =>
      rw [hkey] at hlookup
      exact hfilters.hints other hother found hlookup

theorem foldl_catalogStep_none (blocks : List StoryBlock) (size : ℕ) :
    (blocks.foldl catalogStep (none, size)).1 = none := by
  induction blocks with
  | nil => rfl
  | cons b blocks ih => exact ih

theorem foldl_catalogStep {blocks entries catalog : List StoryBlock} {size : ℕ}
    (h : (blocks.foldl catalogStep (some entries, size)).1 = some catalog) :
    catalog = entries ++ blocks := by
  induction blocks generalizing entries size with
  | nil =>
    rw [List.append_nil]
    exact (Option.some.inj h).symm
  | cons b blocks ih =>
    rw [List.foldl_cons, catalogStep] at h
    dsimp only at h
    split_ifs at h
    · rw [ih h, List.append_assoc, List.singleton_append]
    · rw [foldl_catalogStep_none] at h
      cases h

/-- What a whole traversal keeps is what it went through. -/
theorem catalogOf_eq {blocks catalog : List StoryBlock} (h : catalogOf blocks = some catalog) :
    catalog = blocks := foldl_catalogStep h

/-! ## Blocks one after the other -/

/-- The blocks that a query asks for. -/
def askedBlocks (index : StorySearchIndex) (q : Query) : List ((Chapter × ℕ) × Block UInt8) :=
  (blocksOf index).filter fun eb => q.eventId.all fun event => eb.1.1.eventId = event

theorem mem_askedBlocks : eb ∈ askedBlocks index q ↔ eb ∈ blocksOf index ∧
    (q.eventId.all fun event => eb.1.1.eventId = event) = true := List.mem_filter

theorem flatMap_askedBlocks : (askedBlocks index q).flatMap blockRecords =
    (records index).filter fun r => q.eventId.all fun event => r.chapter.eventId = event := by
  have hrecords : ∀ eb, ∀ r ∈ blockRecords eb,
      (q.eventId.all fun event => r.chapter.eventId = event) =
        q.eventId.all fun event => eb.1.1.eventId = event := by
    intro eb r hr
    rw [(mem_blockRecords hr).1]
  rw [askedBlocks, flatMap_filter hrecords, flatMap_blocksOf]

/-- The lines of other events give nothing. -/
theorem collect_askedBlocks (found : List Hit) :
    collect (step e lower re q) q.maxResults found ((askedBlocks index q).flatMap blockRecords) =
      collect (step e lower re q) q.maxResults found (records index) := by
  rw [flatMap_askedBlocks]
  refine collect_filter (fun r _ hevent => ?_) found
  rw [step, passes, hevent]
  rfl

section Visits

variable (lower) (utf8Error : List UInt8 → String) (width : PointerWidth)

theorem scanPayload_spares (h : e.Lawful finds) (hre : JsRegex.compile e q.pattern = .ok re)
    (hradius : 0 ≤ q.contextLines) (hcharacter : q.character = none)
    (hsmall : ∀ chapter ∈ index.chapters, ∀ line ∈ chapter.lines, Small line)
    (heb : eb ∈ askedBlocks index q) (found : List Hit) :
    Spares (step e lower re q) (blockRecords eb)
      (scanPayload e utf8Error width (tables lower index) re q (storyBlockOf eb) eb.2.payload found)
      (collect (step e lower re q) q.maxResults found (blockRecords eb)) := by
  obtain ⟨heb, hevent⟩ := mem_askedBlocks.mp heb
  have hlines := hsmall eb.1.1 (List.fst_mem_of_mem_zipIdx (mem_blocksOf heb).1)
  rw [scanPayload]
  split_ifs with hmay
  · obtain ⟨lines, hdecode, hlines⟩ := decode_blockRecords utf8Error width heb hlines
    refine .inl ?_
    rw [hdecode]
    change collect _ _ found lines.zipIdx = _
    rw [hlines, collect_map]
    exact collect_congr (fun r hr => lineStep_of_record hradius hcharacter heb hevent hr) found
  · exact spares_of_bytes h hre heb (Bool.eq_false_iff.mpr hmay) found

/-- A visit passes over a block or reads it, and keeps the filters sound. -/
theorem visit_spares (h : e.Lawful finds) (hre : JsRegex.compile e q.pattern = .ok re)
    (hradius : 0 ≤ q.contextLines) (hcharacter : q.character = none)
    (hsmall : ∀ chapter ∈ index.chapters, ∀ line ∈ chapter.lines, Small line)
    (heb : eb ∈ askedBlocks index q) (hfilters : filters.Sound index) (found : List Hit) :
    (visit e utf8Error width (tables lower index) re q filters (storyBlockOf eb) found).2.Sound
        index ∧
      Spares (step e lower re q) (blockRecords eb)
        (visit e utf8Error width (tables lower index) re q filters (storyBlockOf eb) found).1
        (collect (step e lower re q) q.maxResults found (blockRecords eb)) := by
  have hscan := scanPayload_spares lower utf8Error width h hre hradius hcharacter hsmall
    heb found
  have heb := (mem_askedBlocks.mp heb).1
  have hpayload : payloadOf (tables lower index) (storyBlockOf eb).chapter (storyBlockOf eb).block =
      .ok eb.2.payload := payloadOf_tables lower heb
  obtain ⟨filters', hremember, hfilters'⟩ := hfilters.remember heb
  have hremember : filters.remember ((storyBlockOf eb).chapter, (storyBlockOf eb).block)
      eb.2.payload = .ok filters' := hremember
  obtain ⟨cached, hcached⟩ : ∃ cached, cached = if re.blockFilterable = true then
      filters.hints.lookup ((storyBlockOf eb).chapter, (storyBlockOf eb).block) else none :=
    ⟨_, rfl⟩
  rw [visit, ← hcached]
  split_ifs with hpass
  · obtain ⟨filter, rfl, hskip⟩ := (Option.any_eq_true _ _).mp hpass
    have hnew : BlockFilter.new (fun _ => false) eb.2.payload = .ok filter := by
      split_ifs at hcached
      exact hfilters.hints eb heb filter hcached.symm
    exact ⟨hfilters, spares_of_filter h hre heb hnew (by simpa using hskip) found⟩
  · rw [hpayload]
    dsimp only
    rw [hremember]
    exact ⟨hfilters', hscan⟩
  · rw [hpayload]
    exact ⟨hfilters, hscan⟩

/-- Visits one after the other, of blocks that the query asks for. -/
theorem visitAll_spares (h : e.Lawful finds) (hre : JsRegex.compile e q.pattern = .ok re)
    (hradius : 0 ≤ q.contextLines) (hcharacter : q.character = none)
    (hsmall : ∀ chapter ∈ index.chapters, ∀ line ∈ chapter.lines, Small line)
    {blocks : List ((Chapter × ℕ) × Block UInt8)} (hblocks : blocks ⊆ askedBlocks index q)
    (hfilters : filters.Sound index) (found : List Hit) :
    (visitAll e utf8Error width (tables lower index) re q filters found
        (blocks.map storyBlockOf)).2.Sound index ∧
      Spares (step e lower re q) (blocks.flatMap blockRecords)
        (visitAll e utf8Error width (tables lower index) re q filters found
          (blocks.map storyBlockOf)).1
        (collect (step e lower re q) q.maxResults found (blocks.flatMap blockRecords)) := by
  induction blocks generalizing filters found with
  | nil => exact ⟨hfilters, .inl rfl⟩
  | cons eb rest ih =>
    obtain ⟨heb, hrest⟩ := List.cons_subset.mp hblocks
    have hvisit := visit_spares lower utf8Error width h hre hradius hcharacter hsmall heb
      hfilters found
    rw [List.map_cons, visitAll]
    cases hdone : visit e utf8Error width (tables lower index) re q filters (storyBlockOf eb)
      found with
    | mk answer filters' =>
      rw [hdone] at hvisit
      have happend := hvisit.2.append (b := rest.flatMap blockRecords) fun found =>
        (ih hrest hvisit.1 found).2
      rw [List.flatMap_cons]
      cases answer with
      | error error => exact ⟨hvisit.1, happend⟩
      | ok scanned =>
        obtain ⟨found', full⟩ := scanned
        cases full with
        | true => exact ⟨hvisit.1, happend⟩
        | false => exact ⟨(ih hrest hvisit.1 found').1, happend⟩

theorem streamBlocks_spares (h : e.Lawful finds) (hre : JsRegex.compile e q.pattern = .ok re)
    (hradius : 0 ≤ q.contextLines) (hcharacter : q.character = none)
    (hsmall : ∀ chapter ∈ index.chapters, ∀ line ∈ chapter.lines, Small line)
    {blocks : List ((Chapter × ℕ) × Block UInt8)} (hblocks : blocks ⊆ askedBlocks index q)
    (found : List Hit) :
    Spares (step e lower re q) (blocks.flatMap blockRecords)
      (streamBlocks e utf8Error width (tables lower index) re q found (blocks.map blockRowOf))
      (collect (step e lower re q) q.maxResults found (blocks.flatMap blockRecords)) := by
  induction blocks generalizing found with
  | nil => exact .inl rfl
  | cons eb rest ih =>
    obtain ⟨heb, hrest⟩ := List.cons_subset.mp hblocks
    have hscan := scanPayload_spares lower utf8Error width h hre hradius hcharacter
      hsmall heb found
    exact hscan.append fun found => ih hrest found

theorem BlockFilters.Sound.keepCatalog (hfilters : filters.Sound index)
    (hevent : q.eventId = none) :
    BlockFilters.Sound index ⟨filters.hints, catalogOf ((askedBlocks index q).map storyBlockOf)⟩
    where
  hints := hfilters.hints
  catalog catalog h := by
    have hasked : askedBlocks index q = blocksOf index := by
      rw [askedBlocks, hevent]
      exact List.filter_eq_self.mpr fun _ _ => rfl
    rw [catalogOf_eq h, hasked]

/-- The search over blocks spares failures only, with a catalog or without one. -/
theorem searchBlocks_spares (h : e.Lawful finds) (hre : JsRegex.compile e q.pattern = .ok re)
    (hradius : 0 ≤ q.contextLines) (hcharacter : q.character = none)
    (hsmall : ∀ chapter ∈ index.chapters, ∀ line ∈ chapter.lines, Small line)
    (hfilters : filters.Sound index) :
    (searchBlocks e utf8Error width (tables lower index) re q filters).2.Sound index ∧
      Spares (step e lower re q) (records index)
        (searchBlocks e utf8Error width (tables lower index) re q filters).1
        ((collect (step e lower re q) q.maxResults [] (records index)).map Prod.fst) := by
  have hsubset : (askedBlocks index q).flatMap blockRecords ⊆ records index := by
    rw [flatMap_askedBlocks]
    exact List.filter_subset_self _
  have hvisits := visitAll_spares lower utf8Error width h hre hradius hcharacter hsmall
    (List.Subset.refl (askedBlocks index q)) hfilters []
  have hstream := streamBlocks_spares lower utf8Error width h hre hradius hcharacter
    hsmall (List.Subset.refl (askedBlocks index q)) []
  rw [collect_askedBlocks] at hvisits hstream
  have hanswer := (hvisits.2.mono hsubset).map Prod.fst
  have hquery : blockQuery (tables lower index) q.eventId = (askedBlocks index q).map blockRowOf :=
    blockQuery_tables q.eventId
  have hblocks : (blockQuery (tables lower index) q.eventId).map (fun row =>
      storyBlock row.1 row.2) = (askedBlocks index q).map storyBlockOf := by
    rw [hquery, List.map_map]
    rfl
  by_cases hfilterable : re.blockFilterable = true
  · rw [searchBlocks, if_pos hfilterable]
    cases hcatalog : filters.catalog with
    | some catalog =>
      have hasked : (catalog.filter fun b => q.eventId.all fun event => event = b.event) =
          (askedBlocks index q).map storyBlockOf := by
        rw [hfilters.catalog catalog hcatalog, List.filter_map, askedBlocks]
        simp only [eq_comm]
        rfl
      simp only [hasked]
      exact ⟨hvisits.1, hanswer⟩
    | none =>
      simp only [hblocks]
      cases hdone : visitAll e utf8Error width (tables lower index) re q filters []
        ((askedBlocks index q).map storyBlockOf) with
      | mk answer filters' =>
        rw [hdone] at hvisits hanswer
        cases answer with
        | error error => exact ⟨hvisits.1, hanswer⟩
        | ok scanned =>
          obtain ⟨found, full⟩ := scanned
          cases full with
          | true => exact ⟨hvisits.1, hanswer⟩
          | false =>
            refine ⟨?_, hanswer⟩
            dsimp only
            cases hevent : q.eventId with
            | none => exact hvisits.1.keepCatalog hevent
            | some event => exact hvisits.1
  · rw [searchBlocks, if_neg hfilterable, hquery]
    exact ⟨hfilters, (hstream.mono hsubset).map Prod.fst⟩

/-! ## Searches -/

theorem databaseScan_spares (h : e.Lawful finds) (hre : JsRegex.compile e q.pattern = .ok re)
    (hradius : 0 ≤ q.contextLines)
    (hsmall : ∀ chapter ∈ index.chapters, ∀ line ∈ chapter.lines, Small line)
    (hfilters : filters.Sound index) :
    (databaseScan e utf8Error width lower (tables lower index) re q filters).2.Sound index ∧
      Spares (step e lower re q) (records index)
        (databaseScan e utf8Error width lower (tables lower index) re q filters).1
        ((collect (step e lower re q) q.maxResults [] (records index)).map Prod.fst) := by
  rw [databaseScan]
  cases hcharacter : q.character with
  | none => exact searchBlocks_spares lower utf8Error width h hre hradius hcharacter hsmall hfilters
  | some character =>
    refine ⟨hfilters, .inl ?_⟩
    rw [← collect_roleQuery hradius hcharacter]

variable {lower}

/-- The checks that a search relies on. -/
theorem validate_eq_ok (h : validate e q = .ok re) :
    JsRegex.compile e q.pattern = .ok re ∧ 1 ≤ q.maxResults ∧ 0 ≤ q.contextLines := by
  rw [validate] at h
  split_ifs at h with hlow hhigh hnegative hmany
  cases hre : JsRegex.compile e q.pattern with
  | error error =>
    rw [hre] at h
    cases h
  | ok re' =>
    have heq : re' = re := by
      rw [hre] at h
      cases hlineType : q.lineType with
      | none =>
        rw [hlineType] at h
        exact Except.ok.inj h
      | some lineType =>
        rw [hlineType] at h
        simp only [bind, Except.bind, Except.mapError] at h
        split_ifs at h
        exact Except.ok.inj h
    exact ⟨by rw [heq], by omega, by omega⟩

/-- How an answer agrees with the one of the search through the corpus: every answer of that
search is given, every failure is one of both, and a failure that is spared is one of the
matcher. -/
def Agrees (e : Engine) (lower : String → String) (index : StorySearchIndex) (q : Query)
    (answer : Except Failure (List Hit)) : Prop :=
  (∀ hits, plainSearch e lower index q = .ok hits → answer = .ok hits) ∧
    (∀ error, answer = .error error → ∃ error', plainSearch e lower index q = .error error') ∧
    ((∀ re, JsRegex.compile e q.pattern = .ok re → ∀ chapter ∈ index.chapters,
        ∀ line ∈ chapter.lines, ∃ b, re.nativeMatch e line.text.toList = .ok b) →
      answer = plainSearch e lower index q)

theorem Agrees.of_eq {answer : Except Failure (List Hit)}
    (h : answer = plainSearch e lower index q) : Agrees e lower index q answer := by
  rw [h]
  exact ⟨fun hits hhits => hhits, fun error herror => ⟨error, herror⟩, fun _ => rfl⟩

/-- A line is tested with an answer where the matcher answers. -/
theorem exists_step (h : e.Lawful finds) (hre : JsRegex.compile e q.pattern = .ok re) {r : Record}
    (hanswers : ∃ b, re.nativeMatch e r.line.text.toList = .ok b) :
    ∃ hit, step e lower re q r = .ok hit := by
  obtain ⟨b, hb⟩ := hanswers
  have hmatch : ∃ b, re.isMatch e false r.line.text.toList = .ok b := by
    have hmatch := @Engine.Lawful.isMatch e finds re r.line.text.toList h q.pattern hre
    rcases hmatch with hnative | ⟨b', hb', -⟩
    · exact ⟨b, hnative.trans hb⟩
    · exact ⟨b', hb'⟩
  obtain ⟨matched, hmatched⟩ := hmatch
  rw [step, isMatch, hmatched]
  split_ifs with hpasses
  · cases matched <;> exact ⟨_, rfl⟩
  · exact ⟨none, rfl⟩

theorem Agrees.of_spares (h : e.Lawful finds) (hre : JsRegex.compile e q.pattern = .ok re)
    {answer : Except Failure (List Hit)}
    (hspares : Spares (step e lower re q) (records index) answer (plainSearch e lower index q)) :
    Agrees e lower index q answer := by
  obtain ⟨hok, herror, hsame⟩ := hspares.answers
  refine ⟨hok, herror, fun hanswers => hsame fun r hr => exists_step h hre ?_⟩
  obtain ⟨chapter, hchapter, hrecord⟩ := List.mem_flatMap.mp hr
  obtain ⟨entry, hentry, rfl⟩ := List.mem_map.mp hrecord
  exact hanswers re hre chapter hchapter entry.1 (List.fst_mem_of_mem_zipIdx hentry)

variable (lower) in
/-- One search agrees, and leaves sound filters behind. -/
theorem databaseSearch_agrees (h : e.Lawful finds)
    (hsmall : ∀ chapter ∈ index.chapters, ∀ line ∈ chapter.lines, Small line)
    (hfilters : filters.Sound index) (q : Query) :
    (databaseSearch e utf8Error width lower (tables lower index) filters q).2.Sound index ∧
      Agrees e lower index q
        (databaseSearch e utf8Error width lower (tables lower index) filters q).1 := by
  rw [databaseSearch]
  cases hvalid : validate e q with
  | error error => exact ⟨hfilters, .of_eq (by rw [plainSearch, hvalid]; rfl)⟩
  | ok re =>
    obtain ⟨hre, hmax, hradius⟩ := validate_eq_ok hvalid
    have hscan := databaseScan_spares lower utf8Error width h hre hradius hsmall hfilters
    have hchecked : (collect (step e lower re q) q.maxResults [] (records index)).map Prod.fst =
        collectChecked (step e lower re q) q.maxResults [] (records index) :=
      (collectChecked_eq (by simp; omega)).symm
    rw [hchecked] at hscan
    have hplain : plainSearch e lower index q = searchIndex e lower re index q := by
      rw [plainSearch, hvalid]
      rfl
    cases hevent : q.eventId with
    | none =>
      refine ⟨hscan.1, .of_spares h hre ?_⟩
      rw [hplain, searchIndex, hevent]
      exact hscan.2
    | some event =>
      dsimp only
      by_cases hknown : event ∈ index.eventIds
      · rw [if_pos (eventExists_iff.mpr hknown)]
        refine ⟨hscan.1, .of_spares h hre ?_⟩
        rw [hplain, searchIndex, hevent]
        dsimp only
        rw [if_pos hknown]
        exact hscan.2
      · rw [if_neg (mt eventExists_iff.mp hknown)]
        refine ⟨hfilters, .of_eq ?_⟩
        rw [hplain, searchIndex, hevent]
        dsimp only
        rw [if_neg hknown]

theorem searches_agrees (h : e.Lawful finds)
    (hsmall : ∀ chapter ∈ index.chapters, ∀ line ∈ chapter.lines, Small line)
    (hfilters : filters.Sound index) (qs : List Query) :
    List.Forall₂ (Agrees e lower index) qs
      (searches e utf8Error width lower (tables lower index) filters qs) := by
  induction qs generalizing filters with
  | nil => exact .nil
  | cons q qs ih =>
    have hone := databaseSearch_agrees lower utf8Error width h hsmall hfilters q
    exact .cons hone.2 (ih hone.1)

/-- Searches of the derived tables, one after the other, answer as searches through the corpus
would, whatever the filters and the catalog keep from one to the next. -/
theorem searches_derive (h : e.Lawful finds) (lower : String → String) {sqlite : Sqlite}
    (hsqlite : sqlite.Lawful) (index : StorySearchIndex) (db : StoryDb)
    (hdb : derive lower sqlite index = some db) (qs : List Query) :
    List.Forall₂ (Agrees e lower index) qs
      (searches e utf8Error width lower db BlockFilters.empty qs) := by
  obtain ⟨rfl, hsmall⟩ := small_of_derive hsqlite hdb
  exact searches_agrees utf8Error width h hsmall .empty qs

end Visits

def exampleIndex : StorySearchIndex where
  eventIds := {"main"}
  chapters := [⟨"main", "main/1", "0-1", "", [⟨.dialog, some "W", "task"⟩, ⟨.narration, none, "-"⟩]⟩]

/-- Every row is taken that is short enough. -/
def exampleSqlite : Sqlite := ⟨fun values => values.all fun value => value.length < 2 ^ 31⟩

theorem exampleSqlite_lawful : exampleSqlite.Lawful := fun _ haccepts value hvalue =>
  of_decide_eq_true (List.all_eq_true.mp haccepts value hvalue)

theorem searches_derive_exampleIndex :
    List.Forall₂ (Agrees askEngine id exampleIndex)
      [⟨"ask", none, none, 1, 5, none⟩, ⟨"ask", none, none, 0, 5, some "main"⟩]
      (searches askEngine (fun _ => "") .bits64 id (tables id exampleIndex) BlockFilters.empty
        [⟨"ask", none, none, 1, 5, none⟩, ⟨"ask", none, none, 0, 5, some "main"⟩]) :=
  searches_derive (fun _ => "") .bits64 askEngine_lawful id exampleSqlite_lawful
    exampleIndex (tables id exampleIndex) (by decide +kernel) _

end PrtsMcp.StorySearch
