import PrtsMcp.Json
import PrtsMcp.StorySearchRows

/-!
# Story characters

The chapters in which a character speaks or is mentioned, and the speakers of an event, by the lines
of the corpus and by the derived tables.
-/
namespace PrtsMcp.StoryCharacter

open Blocks Collect Counts StoryBlocks StoryLines StoryTables Tables

structure Appearance where
  eventId : String
  storyCode : String
  storyName : String
  storyKey : String
  speaks : Bool
  mentioned : Bool
  deriving DecidableEq, Repr

structure Appearances where
  name : String
  total : ℕ
  scope : Option String
  appearances : List Appearance
  deriving DecidableEq, Repr

structure Speakers where
  eventId : String
  total : ℕ
  speakers : List (String × ℕ)
  deriving DecidableEq, Repr

def unknownEvent (event : String) : Failure :=
  .message ("未找到匹配的活动：" ++ Json.quoted event ++ "。")

/-- The checks before either query. -/
def checkAppearances (name : String) (maxEvents : ℤ) : Except Failure Unit :=
  if name = "" then .error (.message "name 不能为空。")
  else if maxEvents < 1 then .error (.message "max_events 必须 >= 1。")
  else if 200 < maxEvents then .error (.message "max_events 必须 <= 200。")
  else .ok ()

def checkEvent (known : String → Bool) : Option String → Except Failure Unit
  | none => .ok ()
  | some event => if known event then .ok () else .error (unknownEvent event)

/-! ## The order of speakers -/

/-- The first code unit of a character in UTF-16. -/
def headUnit (c : Char) : ℕ :=
  if 0xffff < c.toNat then (c.toNat - 0x10000) / 0x400 + 0xd800 else c.toNat

/-- The last code unit of a character in UTF-16. -/
def tailUnit (c : Char) : ℕ :=
  if 0xffff < c.toNat then (c.toNat - 0x10000) % 0x400 + 0xdc00 else c.toNat

def compareIds : List Char → List Char → Ordering
  | [], [] => .eq
  | [], _ :: _ => .lt
  | _ :: _, [] => .gt
  | a :: as, b :: bs =>
    if headUnit a ≠ headUnit b then compare (headUnit a) (headUnit b)
    else if a.toNat ≤ 0xffff ∧ b.toNat ≤ 0xffff then compareIds as bs
    else if tailUnit a ≠ tailUnit b then compare (tailUnit a) (tailUnit b)
    else compareIds as bs

/-- Higher counts come first, and names in order under one count. -/
def speakerOrder (a b : String × ℕ) : Prop :=
  (compare b.2 a.2).then (compareIds a.1.toList b.1.toList) ≠ .gt

instance decidableSpeakerOrder : DecidableRel speakerOrder := fun a b =>
  inferInstanceAs (Decidable ((compare b.2 a.2).then (compareIds a.1.toList b.1.toList) ≠ .gt))

/-! ## Queries of the corpus -/

section Corpus

variable (lower : String → String)

/-- The loop over the lines of a chapter; it ends once both were found. -/
def classifyLines (nameLower : String) : Bool → Bool → List LineRef → Bool × Bool
  | speaks, mentioned, [] => (speaks, mentioned)
  | speaks, mentioned, line :: rest =>
    let speaks := speaks || (line.lineType = .dialog && lower (line.role.getD "") = nameLower)
    let mentioned := mentioned || Utf8.contains (lower line.text).toList nameLower.toList
    if speaks && mentioned then (speaks, mentioned) else classifyLines nameLower speaks mentioned rest

def classifyChapter (chapter : Chapter) (nameLower : String) : Bool × Bool :=
  classifyLines lower nameLower false false chapter.lines

def appearanceStep (nameLower : String) (scope : Option String) (chapter : Chapter) :
    Except Failure (Option Appearance) :=
  if scope.all fun scope => chapter.eventId = scope then
    let found := classifyChapter lower chapter nameLower
    if !found.1 && !found.2 then .ok none
    else .ok (some ⟨chapter.eventId, chapter.storyCode, chapter.storyName, chapter.storyKey,
      found.1, found.2⟩)
  else .ok none

def buildCharacterAppearances (index : StorySearchIndex) (name : String) (scope : Option String)
    (maxEvents : ℤ) : Except Failure Appearances := do
  checkAppearances name maxEvents
  checkEvent (fun event => decide (event ∈ index.eventIds)) scope
  let found ← collect (appearanceStep lower (lower name) scope) maxEvents [] index.chapters
  return ⟨name, found.1.length, scope, found.1⟩

def countLine (counts : List (String × ℕ)) (line : LineRef) : List (String × ℕ) :=
  if line.lineType = .dialog then
    match line.role with
    | some role => bump counts role
    | none => counts
  else counts

def countChapter (event : String) (counts : List (String × ℕ)) (chapter : Chapter) :
    List (String × ℕ) :=
  if chapter.eventId ≠ event then counts else chapter.lines.foldl countLine counts

def buildSpeakersInEvent (index : StorySearchIndex) (event : String) : Except Failure Speakers :=
  if event ∉ index.eventIds then .error (unknownEvent event)
  else
    let counts := (index.chapters.foldl (countChapter event) []).insertionSort speakerOrder
    .ok ⟨event, counts.length, counts⟩

end Corpus

/-! ## Queries of the tables -/

/-- The place of the first occurrence, counted from one; 0 stands for none. -/
def instr (text needle : List Char) : ℕ :=
  (text.tails.findIdx? fun tail => needle.isPrefixOf tail).elim 0 (· + 1)

/-- `EXISTS(SELECT 1 FROM story_lines l WHERE l.chapter=c.ordinal AND ..)` -/
def lineExists (db : StoryDb) (c : ChapterRow) (p : LineRow → Bool) : Bool :=
  (db.lines.filter fun l => l.chapter = c.ordinal).any p

def rowAppearance (db : StoryDb) (nameFold : String) (c : ChapterRow) :
    Except Failure (Option Appearance) :=
  let speaks := lineExists db c fun l => l.kind = "dialog" && l.roleFold = nameFold
  let mentioned := lineExists db c fun l => 0 < instr l.textFold.toList nameFold.toList
  if !speaks && !mentioned then .ok none
  else .ok (some ⟨c.event, c.code, c.name, c.storyKey, speaks, mentioned⟩)

def appearances (lower : String → String) (db : StoryDb) (name : String) (scope : Option String)
    (maximum : ℤ) : Except Failure Appearances := do
  checkEvent db.eventExists scope
  let rows := (db.chapters.filter fun c => scope.all fun scope => c.event = scope).insertionSort
    fun a b => a.ordinal ≤ b.ordinal
  let found ← collect (rowAppearance db (lower name)) maximum [] rows
  return ⟨name, found.1.length, scope, found.1⟩

def databaseAppearances (lower : String → String) (db : StoryDb) (name : String)
    (scope : Option String) (maxEvents : ℤ) : Except Failure Appearances := do
  checkAppearances name maxEvents
  appearances lower db name scope maxEvents

def speakers (db : StoryDb) (event : String) : Except Failure Speakers :=
  if !db.eventExists event then .error (unknownEvent event)
  else
    let result := ((db.speakers.filter fun row => row.event = event).map fun row =>
      (row.role, row.count)).insertionSort speakerOrder
    .ok ⟨event, result.length, result⟩

/-! ## Agreement -/

section Agreement

variable {lower : String → String} {index : StorySearchIndex}

theorem instr_pos {text needle : List Char} :
    decide (0 < instr text needle) = Utf8.contains text needle := by
  rw [instr, Utf8.contains, ← List.findIdx?_isSome]
  cases text.tails.findIdx? fun tail => needle.isPrefixOf tail <;> simp

/-- The loop answers for all lines, also where it ends early. -/
theorem classifyLines_eq (nameLower : String) (speaks mentioned : Bool) (lines : List LineRef) :
    classifyLines lower nameLower speaks mentioned lines =
      (speaks || lines.any fun line =>
          line.lineType = .dialog && lower (line.role.getD "") = nameLower,
        mentioned || lines.any fun line =>
          Utf8.contains (lower line.text).toList nameLower.toList) := by
  induction lines generalizing speaks mentioned with
  | nil => simp [classifyLines]
  | cons line rest ih =>
    rw [classifyLines]
    simp only [List.any_cons, ← Bool.or_assoc]
    split_ifs with hboth
    · rw [Bool.and_eq_true] at hboth
      rw [hboth.1, hboth.2, Bool.true_or, Bool.true_or]
    · exact ih _ _

theorem kindName_eq_dialog {kind : Kind} : kindName kind = "dialog" ↔ kind = .dialog := by
  cases kind <;> decide

variable (lower) in
theorem lineExists_tables {entry : Chapter × ℕ} (h : entry ∈ index.chapters.zipIdx)
    {p : LineRow → Bool} {q : LineRef → Bool}
    (hp : ∀ line no, p (lineRow lower entry.2 line no) = q line) :
    lineExists (tables lower index) (chapterRow entry.1 entry.2) p = entry.1.lines.any q := by
  have hrows : (tables lower index).lines.filter (fun row =>
      row.chapter = (chapterRow entry.1 entry.2).ordinal) = lineRows lower entry.2 entry.1.lines :=
    lines_of h
  rw [lineExists, hrows, lineRows, List.any_map]
  conv_rhs => rw [← List.zipIdx_map_fst 0 entry.1.lines, List.any_map]
  exact List.any_congr rfl fun line => hp line.1 line.2

/-- A row of the chapters gives what its chapter gives. -/
theorem rowAppearance_tables {nameLower : String} {scope : Option String} {entry : Chapter × ℕ}
    (h : entry ∈ index.chapters.zipIdx)
    (hscope : (scope.all fun scope => entry.1.eventId = scope) = true) :
    rowAppearance (tables lower index) nameLower (chapterRow entry.1 entry.2) =
      appearanceStep lower nameLower scope entry.1 := by
  have hspeaks := lineExists_tables lower h
    (p := fun l => l.kind = "dialog" && l.roleFold = nameLower)
    (q := fun line => line.lineType = .dialog && lower (line.role.getD "") = nameLower)
    fun line no => congrArg (· && _) (decide_eq_decide.mpr kindName_eq_dialog)
  have hmentioned := lineExists_tables lower h
    (p := fun l => 0 < instr l.textFold.toList nameLower.toList)
    (q := fun line => Utf8.contains (lower line.text).toList nameLower.toList)
    fun line no => instr_pos
  rw [appearanceStep, if_pos hscope, classifyChapter, classifyLines_eq, rowAppearance, hspeaks,
    hmentioned]
  simp only [Bool.false_or]
  rfl

theorem collect_rows (nameLower : String) (scope : Option String) (maximum : ℤ) :
    collect (rowAppearance (tables lower index) nameLower) maximum []
        (((tables lower index).chapters.filter fun c =>
          scope.all fun scope => c.event = scope).insertionSort fun a b => a.ordinal ≤ b.ordinal) =
      collect (appearanceStep lower nameLower scope) maximum [] index.chapters := by
  have hfilter : ((tables lower index).chapters.filter fun c =>
      scope.all fun scope => c.event = scope) =
      (index.chapters.zipIdx.filter fun entry =>
        scope.all fun scope => entry.1.eventId = scope).map fun entry =>
          chapterRow entry.1 entry.2 := by
    change (index.chapters.zipIdx.map _).filter _ = _
    rw [List.filter_map]
    rfl
  have hsorted : ((index.chapters.zipIdx.filter fun entry =>
      scope.all fun scope => entry.1.eventId = scope).map fun entry =>
        chapterRow entry.1 entry.2).Pairwise fun a b => a.ordinal ≤ b.ordinal :=
    List.pairwise_map.mpr (((pairwise_place index.chapters).imp le_of_lt).filter _)
  have hskip : ∀ entry ∈ index.chapters.zipIdx,
      (scope.all fun scope => entry.1.eventId = scope) = false →
        (appearanceStep lower nameLower scope ∘ Prod.fst) entry = .ok none := by
    intro entry _ hother
    rw [Function.comp_apply, appearanceStep, hother]
    rfl
  calc
    _ = collect (appearanceStep lower nameLower scope ∘ Prod.fst) maximum []
        (index.chapters.zipIdx.filter fun entry =>
          scope.all fun scope => entry.1.eventId = scope) := by
      rw [hfilter, hsorted.insertionSort_eq, collect_map]
      refine collect_congr (fun entry hentry => ?_) []
      rw [List.mem_filter] at hentry
      exact rowAppearance_tables hentry.1 hentry.2
    _ = collect (appearanceStep lower nameLower scope ∘ Prod.fst) maximum []
        index.chapters.zipIdx := collect_filter hskip []
    _ = _ := by rw [← collect_map, List.zipIdx_map_fst]

/-! ### Speakers -/

/-- The code units of a character. -/
def units (c : Char) : ℕ ×ₗ ℕ := toLex (headUnit c, tailUnit c)

theorem toNat_of_char (c : Char) : c.toNat < 0xd800 ∨ 0xdfff < c.toNat ∧ c.toNat < 0x110000 := c.valid

theorem units_injective : Function.Injective units := by
  intro a b h
  have hhead : headUnit a = headUnit b := congrArg (fun u => (ofLex u).1) h
  have htail : tailUnit a = tailUnit b := congrArg (fun u => (ofLex u).2) h
  have ha := toNat_of_char a
  have hb := toNat_of_char b
  have hnat : a.toNat = b.toNat := by
    simp only [headUnit, tailUnit] at hhead htail
    split_ifs at hhead htail <;> omega
  exact Char.toNat_inj.mp hnat

/-- Names are compared by their code units. -/
theorem compareIds_eq_gt (a b : List Char) :
    compareIds a b = .gt ↔ List.Lex (· < ·) (b.map units) (a.map units) := by
  induction a generalizing b with
  | nil => cases b <;> simp [compareIds]
  | cons x as ih =>
    cases b with
    | nil => simp [compareIds]
    | cons y bs =>
      have hlt : units y < units x ↔
          headUnit y < headUnit x ∨ headUnit y = headUnit x ∧ tailUnit y < tailUnit x :=
        Prod.Lex.toLex_lt_toLex
      rw [List.map_cons, List.map_cons, List.cons_lex_cons_iff, ← ih, compareIds, hlt]
      by_cases hhead : headUnit x = headUnit y
      · by_cases htail : tailUnit x = tailUnit y
        · have hunits : units y = units x := by rw [units, units, hhead, htail]
          simp [hhead, htail, hunits]
        · have hunits : units y ≠ units x := fun h => htail (congrArg (fun u => (ofLex u).2) h).symm
          have hwide : ¬ (x.toNat ≤ 0xffff ∧ y.toNat ≤ 0xffff) := by
            rintro ⟨hx, hy⟩
            apply htail
            rw [headUnit, headUnit, if_neg (not_lt.mpr hx), if_neg (not_lt.mpr hy)] at hhead
            rw [tailUnit, tailUnit, if_neg (not_lt.mpr hx), if_neg (not_lt.mpr hy), hhead]
          simp [hhead, htail, hunits, hwide, Nat.compare_eq_gt]
      · have hunits : units y ≠ units x := fun h => hhead (congrArg (fun u => (ofLex u).1) h).symm
        simp [hhead, hunits, Ne.symm hhead, Nat.compare_eq_gt]

/-- What the order of speakers compares. -/
def speakerKey (entry : String × ℕ) : ℕᵒᵈ ×ₗ List (ℕ ×ₗ ℕ) :=
  toLex (OrderDual.toDual entry.2, entry.1.toList.map units)

theorem speakerKey_injective : Function.Injective speakerKey := by
  rintro ⟨name, count⟩ ⟨name', count'⟩ h
  obtain ⟨hcount, hname⟩ := Prod.mk.inj (toLex.injective h)
  exact Prod.ext (String.toList_inj.mp (List.map_injective_iff.mpr units_injective hname))
    (OrderDual.toDual.injective hcount)

theorem speakerOrder_iff (a b : String × ℕ) : speakerOrder a b ↔ speakerKey a ≤ speakerKey b := by
  have hlt : speakerKey b < speakerKey a ↔
      a.2 < b.2 ∨ b.2 = a.2 ∧ List.Lex (· < ·) (b.1.toList.map units) (a.1.toList.map units) :=
    Prod.Lex.toLex_lt_toLex
  rw [← not_lt, hlt, ← compareIds_eq_gt, speakerOrder, Ne, Ordering.then_eq_gt,
    Nat.compare_eq_gt, Nat.compare_eq_eq]

/-- The loops over the lines of an event count its speakers. -/
theorem foldl_countLine (lines : List LineRef) (counts : List (String × ℕ)) :
    lines.foldl countLine counts = (speakersOf lines).foldl bump counts := by
  induction lines generalizing counts with
  | nil => rfl
  | cons line rest ih =>
    rw [List.foldl_cons, ih, countLine]
    by_cases hdialog : line.lineType = .dialog
    · cases hrole : line.role <;> simp [speakersOf, hdialog, hrole]
    · simp [speakersOf, hdialog]

theorem foldl_countChapter (event : String) (chapters : List Chapter)
    (counts : List (String × ℕ)) :
    chapters.foldl (countChapter event) counts =
      ((chapters.filter fun chapter => chapter.eventId = event).flatMap fun chapter =>
        speakersOf chapter.lines).foldl bump counts := by
  induction chapters generalizing counts with
  | nil => rfl
  | cons chapter rest ih =>
    rw [List.foldl_cons, ih, countChapter]
    by_cases hevent : chapter.eventId = event
    · rw [if_neg (not_not.mpr hevent), List.filter_cons_of_pos (by simpa using hevent),
        List.flatMap_cons, List.foldl_append, foldl_countLine]
    · rw [if_pos hevent, List.filter_cons_of_neg (by simpa using hevent)]

/-- The rows of an event are its speakers, in another order. -/
theorem perm_speakerRows (event : String) (chapters : List Chapter) :
    (((speakerRows chapters).filter fun row => row.event = event).map fun row =>
      (row.role, row.count)).Perm (chapters.foldl (countChapter event) []) := by
  have hspoken : (chapters.flatMap fun chapter => (speakersOf chapter.lines).map fun role =>
      (chapter.eventId, role)).filter (fun spoken => spoken.1 = event) =
      ((chapters.filter fun chapter => chapter.eventId = event).flatMap fun chapter =>
        speakersOf chapter.lines).map fun role => (event, role) := by
    have hrows : ∀ chapter : Chapter, ∀ spoken ∈ (speakersOf chapter.lines).map fun role =>
        (chapter.eventId, role), decide (spoken.1 = event) = decide (chapter.eventId = event) := by
      intro chapter spoken hspoken
      obtain ⟨role, -, rfl⟩ := List.mem_map.mp hspoken
      rfl
    rw [← flatMap_filter hrows, List.map_flatMap]
    refine List.flatMap_congr fun chapter hchapter => ?_
    have hevent : chapter.eventId = event := by simpa using (List.mem_filter.mp hchapter).2
    rw [hevent]
  have hcounts : ((chapters.flatMap fun chapter => (speakersOf chapter.lines).map fun role =>
      (chapter.eventId, role)).foldl bump []).filter (fun entry => entry.1.1 = event) =
      (chapters.foldl (countChapter event) []).map (Prod.map (event, ·) id) := by
    have hfilter := foldl_bump_filter (fun spoken : String × String => decide (spoken.1 = event))
      (chapters.flatMap fun chapter => (speakersOf chapter.lines).map fun role =>
        (chapter.eventId, role)) []
    rw [hfilter, hspoken, foldl_countChapter]
    exact foldl_bump_map (Prod.mk_right_injective event) _ []
  have hperm := ((List.perm_insertionSort (fun a b => toLex a.1 ≤ toLex b.1)
    ((chapters.flatMap fun chapter => (speakersOf chapter.lines).map fun role =>
      (chapter.eventId, role)).foldl bump [])).filter fun entry => entry.1.1 = event).map
        fun entry => (entry.1.2, entry.2)
  rw [hcounts, List.map_map] at hperm
  rw [speakerRows, List.filter_map, List.map_map]
  refine hperm.trans ?_
  rw [show (fun entry : (String × String) × ℕ => (entry.1.2, entry.2)) ∘ Prod.map (event, ·) id = id
    from rfl, List.map_id]

/-- The queries of the derived tables answer as the queries of the corpus: the same failures, and
the same chapters, flags and counts in the same order. -/
theorem queries_derive (lower : String → String) (sqlite : Sqlite) (index : StorySearchIndex)
    (db : StoryDb) (hdb : derive lower sqlite index = some db) :
    (∀ name scope maxEvents, databaseAppearances lower db name scope maxEvents =
      buildCharacterAppearances lower index name scope maxEvents) ∧
    ∀ event, speakers db event = buildSpeakersInEvent index event := by
  rw [derive] at hdb
  split_ifs at hdb
  obtain rfl := Option.some.inj hdb
  have hknown : (tables lower index).eventExists = fun event => decide (event ∈ index.eventIds) := by
    funext event
    rw [Bool.eq_iff_iff, eventExists_iff, decide_eq_true_eq]
  refine ⟨fun name scope maxEvents => ?_, fun event => ?_⟩
  · rw [databaseAppearances, appearances, buildCharacterAppearances, hknown, ← collect_rows]
  · have hperm := perm_speakerRows event index.chapters
    have hsorted := insertionSort_eq_of_perm speakerKey_injective speakerOrder_iff hperm
    rw [speakers, buildSpeakersInEvent, hknown, ← hsorted]
    by_cases hevent : event ∈ index.eventIds
    · rw [if_neg (by simpa using hevent), if_neg (not_not.mpr hevent)]
      rfl
    · rw [if_pos (by simpa using hevent), if_pos hevent]

end Agreement

def exampleIndex : StorySearchIndex where
  eventIds := {"a"}
  chapters := [⟨"a", "a/1", "A-1", "", [⟨.dialog, some "W", "x"⟩, ⟨.dialog, some "V", "W"⟩]⟩,
    ⟨"a", "a/2", "A-2", "", [⟨.dialog, some "W", ""⟩]⟩]

theorem queries_derive_exampleIndex :
    (∀ name scope maxEvents, databaseAppearances id (tables id exampleIndex) name scope maxEvents =
      buildCharacterAppearances id exampleIndex name scope maxEvents) ∧
    ∀ event, speakers (tables id exampleIndex) event = buildSpeakersInEvent exampleIndex event :=
  queries_derive id ⟨fun _ => true⟩ exampleIndex (tables id exampleIndex) (by decide +kernel)

end PrtsMcp.StoryCharacter
