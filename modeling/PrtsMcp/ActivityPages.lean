import PrtsMcp.StoryLines
import PrtsMcp.StoryListing
import PrtsMcp.Utf8

/-!
# Activity pages

The chapters of an activity, read page by page from its listing.
-/
namespace PrtsMcp.ActivityPages

open StoryLines StoryListing
open Zodish (Value Args)

/-! ## Reading a chapter -/

structure StoryChapter where
  storyKey : String
  storyCode : String
  storyName : String
  avgTag : Option String
  eventName : String
  storyInfo : String
  lines : List StoryLine
  deriving DecidableEq

def storyZipPath (storyKey : String) : String :=
  "zh_CN/gamedata/story/" ++ storyKey ++ ".json"

structure ActivityResult where
  eventId : String
  eventName : String
  totalChapters : ℕ
  hasMore : Bool
  pageOutOfRange : Bool
  chapters : List StoryChapter
  deriving DecidableEq

/-- The chapters of one page, and where the page lies. -/
structure Selection where
  selected : List ChapterSummary
  hasMore : Bool
  pageOutOfRange : Bool
  deriving DecidableEq

section Reading

variable (store : Store) (parseStoryList : Value → Bool → List StoryLine) (includeNarration : Bool)

def readStoryFromStore (storyKey : String) : Except String StoryChapter :=
  if store.fileExists (storyZipPath storyKey) then do
    let raw ← store.readJson (storyZipPath storyKey)
    return ⟨storyKey, getStrField raw "storyCode", getStrField raw "storyName",
      (raw.get "avgTag").bind JsonValue.asStr, getStrField raw "eventName",
      getStrField raw "storyInfo",
      parseStoryList ((raw.get "storyList").getD .null) includeNarration⟩
  else .error ("Story not found in store: \"" ++ storyKey ++ "\"")

/-- Missing chapters and chapters that are no JSON are passed over. -/
def isSkipped (message : String) : Bool :=
  Utf8.contains message.toList "not found".toList ||
    Utf8.contains message.toList "JSON parse failure".toList

/-- The name of the event is the first one that a chapter carries. -/
def readChapters (eventName : String) (chapters : List StoryChapter) :
    List ChapterSummary → Except String (String × List StoryChapter)
  | [] => .ok (eventName, chapters)
  | summary :: rest =>
    match readStoryFromStore store parseStoryList includeNarration summary.storyKey with
    | .ok chapter =>
      readChapters (if eventName = "" then chapter.eventName else eventName)
        (chapters ++ [chapter]) rest
    | .error message =>
      if isSkipped message then readChapters eventName chapters rest else .error message

def readSelection (eventId : String) (total : ℕ) (page : Selection) :
    Except String ActivityResult := do
  let read ← readChapters store parseStoryList includeNarration "" [] page.selected
  return ⟨eventId, read.1, total, page.hasMore, page.pageOutOfRange, read.2⟩

end Reading

/-! ## Pages -/

/-- What a build does with an overflow: development builds check, release builds wrap. -/
inductive Build where
  | checked
  | wrapping
  deriving DecidableEq, Repr

/-- The product of two `i64`; `none` is a panic. -/
def mulI64 (build : Build) (a b : ℤ) : Option ℤ :=
  if -2 ^ 63 ≤ a * b ∧ a * b < 2 ^ 63 then some (a * b)
  else
    match build with
    | .checked => none
    | .wrapping => some ((a * b).bmod (2 ^ 64))

/-- `slice::get` of a range, or nothing. -/
def rangeOrEmpty {α : Type} (xs : List α) (start stop : ℕ) : List α :=
  if start ≤ stop ∧ stop ≤ xs.length then (xs.take stop).drop start else []

def selectPage (build : Build) (summaries : List ChapterSummary) (page pageSize : ℤ) :
    Option Selection := do
  let start := (max (← mulI64 build (page - 1) pageSize) 0).toNat
  let stop := start + pageSize.toNat
  return ⟨rangeOrEmpty summaries start (min stop summaries.length),
    decide (stop < summaries.length), decide (0 < summaries.length ∧ summaries.length ≤ start)⟩

def listing (store : Store) (eventId : String) : Except String (List ChapterSummary) := do
  listStories (← loadEventTable store) eventId

/-- `read_activity_from_store`; `none` is a panic of an arithmetic operation. -/
def readActivityFromStore (build : Build) (store : Store)
    (parseStoryList : Value → Bool → List StoryLine) (eventId : String) (includeNarration : Bool)
    (page : Option ℤ) (pageSize : ℤ) : Option (Except String ActivityResult) :=
  match listing store eventId with
  | .error message => some (.error message)
  | .ok summaries =>
    if ¬ (1 ≤ pageSize ∧ pageSize ≤ 20) then some (.error "page_size 参数必须在 1 到 20 之间")
    else
      match page with
      | none =>
        some (readSelection store parseStoryList includeNarration eventId summaries.length
          ⟨summaries, false, false⟩)
      | some page =>
        if page < 1 then some (.error "page 参数必须 >= 1")
        else
          (selectPage build summaries page pageSize).map
            (readSelection store parseStoryList includeNarration eventId summaries.length)

/-- The integers that the tool hands to the reader. -/
def pageArguments (a : Args) : (Option ℤ × ℤ) × Args :=
  let page := a.nullishInt "page" 1 none
  let pageSize := page.2.intDefault "page_size" 1 (some 20) 5
  ((page.1, pageSize.1), pageSize.2)

/-! ## What a page should hold -/

/-- The chapters at the places from `(page - 1) * pageSize` to before `page * pageSize`. -/
def pageOf (summaries : List ChapterSummary) (page pageSize : ℤ) : Selection :=
  ⟨(summaries.take (page * pageSize).toNat).drop ((page - 1) * pageSize).toNat,
    decide (page * pageSize < summaries.length),
    decide (0 < summaries.length ∧ (summaries.length : ℤ) ≤ (page - 1) * pageSize)⟩

theorem rangeOrEmpty_min {α : Type} (xs : List α) (start stop : ℕ) :
    rangeOrEmpty xs start (min stop xs.length) = (xs.take stop).drop start := by
  have htake : xs.take (min stop xs.length) = xs.take stop := by
    rcases le_total stop xs.length with h | h
    · rw [min_eq_left h]
    · rw [min_eq_right h, List.take_length, List.take_of_length_le h]
  unfold rangeOrEmpty
  split
  · rw [htake]
  · next h =>
    have hshort : (xs.take stop).length ≤ start := by
      rw [List.length_take]
      omega
    rw [List.drop_eq_nil_of_le hshort]

theorem selectPage_eq {build : Build} {summaries : List ChapterSummary} {page pageSize product : ℤ}
    (h : mulI64 build (page - 1) pageSize = some product) (hproduct : product = (page - 1) * pageSize)
    (hpage : 1 ≤ page) (hsize : 1 ≤ pageSize) :
    selectPage build summaries page pageSize = some (pageOf summaries page pageSize) := by
  have hnonneg : 0 ≤ (page - 1) * pageSize := Int.mul_nonneg (by omega) (by omega)
  have hnext : page * pageSize = (page - 1) * pageSize + pageSize := by ring
  have hstart : (max product 0).toNat = ((page - 1) * pageSize).toNat := by
    rw [hproduct, max_eq_left hnonneg]
  have hstop : ((page - 1) * pageSize).toNat + pageSize.toNat = (page * pageSize).toNat := by
    rw [hnext, Int.toNat_add hnonneg (by omega)]
  simp only [selectPage, h, Option.bind_eq_bind, Option.bind_some, Option.pure_def, hstart, hstop,
    rangeOrEmpty_min]
  have hmore : (page * pageSize).toNat < summaries.length ↔
      page * pageSize < summaries.length := by omega
  have hout : summaries.length ≤ ((page - 1) * pageSize).toNat ↔
      (summaries.length : ℤ) ≤ (page - 1) * pageSize := by omega
  simp only [pageOf, hmore, hout]

theorem mulI64_checked {a b : ℤ} (hlarge : ¬ a * b < 2 ^ 63) :
    mulI64 .checked a b = none := if_neg fun hfits => hlarge hfits.2

/-- A page is the one asked for, in every build, exactly where the product fits an `i64`. -/
theorem selectPage_iff {summaries : List ChapterSummary} {page pageSize : ℤ} (hpage : 1 ≤ page)
    (hsize : 1 ≤ pageSize) :
    (∀ build, selectPage build summaries page pageSize = some (pageOf summaries page pageSize)) ↔
      (page - 1) * pageSize < 2 ^ 63 := by
  have hnonneg : 0 ≤ (page - 1) * pageSize := Int.mul_nonneg (by omega) (by omega)
  constructor
  · intro h
    by_contra hlarge
    have hchecked := h .checked
    rw [selectPage, mulI64_checked hlarge] at hchecked
    simp at hchecked
  · intro h build
    have hfits : mulI64 build (page - 1) pageSize = some ((page - 1) * pageSize) :=
      if_pos ⟨by omega, h⟩
    exact selectPage_eq hfits rfl hpage hsize

/-- The first pages, one after the other, are the first chapters. -/
theorem flatMap_pageOf (summaries : List ChapterSummary) {pageSize : ℤ} (hsize : 1 ≤ pageSize)
    (count : ℕ) :
    (List.range count).flatMap (fun i : ℕ => (pageOf summaries (i + 1) pageSize).selected) =
      summaries.take (count * pageSize.toNat) := by
  induction count with
  | zero => simp
  | succ count ih =>
    have hstop : (((count : ℤ) + 1) * pageSize).toNat = (count + 1) * pageSize.toNat := by
      rw [show (count : ℤ) + 1 = ((count + 1 : ℕ) : ℤ) by push_cast; rfl,
        Int.toNat_mul (by omega) (by omega), Int.toNat_natCast]
    have hstart : (((count : ℤ) + 1 - 1) * pageSize).toNat = count * pageSize.toNat := by
      rw [add_sub_cancel_right, Int.toNat_mul (by omega) (by omega), Int.toNat_natCast]
    have hle : count * pageSize.toNat ≤ (count + 1) * pageSize.toNat :=
      Nat.mul_le_mul_right _ (Nat.le_succ _)
    rw [List.range_succ, List.flatMap_append, ih, List.flatMap_singleton, pageOf, hstop, hstart]
    have hsplit := List.take_append_drop (count * pageSize.toNat)
      (summaries.take ((count + 1) * pageSize.toNat))
    rwa [List.take_take, min_eq_left hle] at hsplit

/-- The chapters that are read are chapters of the selection, in its order. -/
theorem readChapters_sublist {store : Store} {parseStoryList : Value → Bool → List StoryLine}
    {includeNarration : Bool} {eventName eventName' : String} {before chapters : List StoryChapter}
    {selected : List ChapterSummary}
    (h : readChapters store parseStoryList includeNarration eventName before selected =
      .ok (eventName', chapters)) :
    ∃ read, chapters = before ++ read ∧
      (read.map StoryChapter.storyKey).Sublist (selected.map ChapterSummary.storyKey) := by
  induction selected generalizing eventName before with
  | nil =>
    obtain ⟨-, rfl⟩ := Prod.mk.inj (Except.ok.inj h)
    exact ⟨[], by simp, by simp⟩
  | cons summary rest ih =>
    rw [readChapters] at h
    split at h
    · next chapter hchapter =>
      obtain ⟨read, hread, hsub⟩ := ih h
      have hkey : chapter.storyKey = summary.storyKey := by
        unfold readStoryFromStore at hchapter
        split at hchapter
        · cases hraw : store.readJson (storyZipPath summary.storyKey) with
          | error e => simp [hraw, bind, Except.bind] at hchapter
          | ok raw =>
            simp only [hraw, bind, Except.bind, pure, Except.pure, Except.ok.injEq] at hchapter
            rw [← hchapter]
        · simp at hchapter
      refine ⟨chapter :: read, by simp [hread], ?_⟩
      rw [List.map_cons, List.map_cons, hkey]
      exact hsub.cons_cons _
    · split at h
      · obtain ⟨read, hread, hsub⟩ := ih h
        exact ⟨read, hread, hsub.cons _⟩
      · simp at h

theorem readActivity_eq {store : Store} {eventId : String} {summaries : List ChapterSummary}
    (h : listing store eventId = .ok summaries)
    (parseStoryList : Value → Bool → List StoryLine) (includeNarration : Bool) (build : Build)
    {page pageSize : ℤ} (hpage : 1 ≤ page) (hsize : 1 ≤ pageSize) (hsize' : pageSize ≤ 20) :
    readActivityFromStore build store parseStoryList eventId includeNarration (some page) pageSize =
      (selectPage build summaries page pageSize).map
        (readSelection store parseStoryList includeNarration eventId summaries.length) := by
  have hbounds : ¬ ¬ (1 ≤ pageSize ∧ pageSize ≤ 20) := not_not.mpr ⟨hsize, hsize'⟩
  rw [readActivityFromStore, h]
  dsimp only
  rw [if_neg hbounds, if_neg (not_lt.mpr hpage)]

/-- Every page is the one asked for, in every build, exactly where `(page - 1) * pageSize` fits an
`i64`; and the pages from the first on divide the chapters among them. -/
theorem readActivity_pages (store : Store) (parseStoryList : Value → Bool → List StoryLine)
    (eventId : String) (includeNarration : Bool) (summaries : List ChapterSummary) (pageSize : ℤ)
    (hlisting : listing store eventId = .ok summaries) (hsize : 1 ≤ pageSize)
    (hsize' : pageSize ≤ 20) :
    (∀ page, 1 ≤ page → page < 2 ^ 63 →
      ((∀ build, readActivityFromStore build store parseStoryList eventId includeNarration
          (some page) pageSize =
            some (readSelection store parseStoryList includeNarration eventId summaries.length
              (pageOf summaries page pageSize))) ↔
        (page - 1) * pageSize < 2 ^ 63)) ∧
      ∀ count : ℕ,
        (List.range count).flatMap (fun i : ℕ => (pageOf summaries (i + 1) pageSize).selected) =
          summaries.take (count * pageSize.toNat) := by
  refine ⟨fun page hpage _ => ?_, flatMap_pageOf summaries hsize⟩
  have heq := fun build => readActivity_eq hlisting parseStoryList includeNarration build hpage hsize
    hsize'
  constructor
  · intro h
    by_contra hlarge
    have hchecked := (heq .checked).symm.trans (h .checked)
    rw [selectPage, mulI64_checked hlarge] at hchecked
    simp at hchecked
  · intro h build
    rw [heq build, (selectPage_iff hpage hsize).mpr h build]
    rfl

def oneChapter : Store :=
  ⟨false, fun path => decide (path = storyZipPath "a"), fun path =>
    .ok (if path = storyReviewTable then .object [("e", .object [("infoUnlockDatas",
      .array [.object [("storyTxt", .string "a")]])])] else .object [])⟩

def chapterA : StoryChapter := ⟨"a", "", "", none, "", "", []⟩

theorem readActivity_pages_oneChapter :
    (∀ page, 1 ≤ page → page < 2 ^ 63 →
      ((∀ build, readActivityFromStore build oneChapter (fun _ _ => []) "e" true (some page) 5 =
          some (readSelection oneChapter (fun _ _ => []) true "e" 1
            (pageOf [⟨"a", "", "", none, .finite 0⟩] page 5))) ↔
        (page - 1) * 5 < 2 ^ 63)) ∧
      ∀ count : ℕ,
        (List.range count).flatMap
            (fun i : ℕ => (pageOf [⟨"a", "", "", none, .finite 0⟩] (i + 1) 5).selected) =
          [(⟨"a", "", "", none, .finite 0⟩ : ChapterSummary)].take (count * (5 : ℤ).toNat) :=
  readActivity_pages oneChapter (fun _ _ => []) "e" true [⟨"a", "", "", none, .finite 0⟩] 5 rfl
    (by decide) (by decide)

def hugePage : Value :=
  .object [("page", .number (.posInt 4611686018427387905)), ("page_size", .number (.posInt 4))]

/-- A page far beyond the end is accepted, and is the first page again where overflows wrap. -/
theorem readActivity_hugePage :
    (pageArguments (Args.new hugePage)).1 = (some (2 ^ 62 + 1), 4) ∧
      (pageArguments (Args.new hugePage)).2.issues = [] ∧
      (pageOf [⟨"a", "", "", none, .finite 0⟩] (2 ^ 62 + 1) 4).selected = [] ∧
      (pageOf [⟨"a", "", "", none, .finite 0⟩] (2 ^ 62 + 1) 4).pageOutOfRange = true ∧
      readActivityFromStore .wrapping oneChapter (fun _ _ => []) "e" true (some (2 ^ 62 + 1)) 4 =
        some (.ok ⟨"e", "", 1, false, false, [chapterA]⟩) ∧
      readActivityFromStore .checked oneChapter (fun _ _ => []) "e" true (some (2 ^ 62 + 1)) 4 =
        none := by
  refine ⟨by decide +kernel, by decide +kernel, by decide +kernel, by decide +kernel, ?_, ?_⟩
  · rfl
  · rfl

end PrtsMcp.ActivityPages
