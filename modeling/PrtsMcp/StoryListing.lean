import PrtsMcp.Zodish

/-!
# Story listings

The event table, of the review table and its supplement, and the listings of events and chapters
that are read from it. A database store keeps the table without the fields no listing reads.
-/
namespace PrtsMcp

/-- `partial_cmp`. -/
def JsNumber.partialCmp : JsNumber → JsNumber → Option Ordering
  | nan, _ => none
  | _, nan => none
  | finite x, finite y => some (compare x y)
  | infinite a, infinite b => some (compare b a)
  | infinite a, finite _ => some (if a then .lt else .gt)
  | finite _, infinite b => some (if b then .gt else .lt)

namespace StoryListing

open Zodish (Value)

/-! ## Source -/

abbrev Table := List (String × Value)

/-- `as_f64` of a value. -/
def asF64 : Value → Option JsNumber
  | .number n => some n.asF64
  | _ => none

/-- What is read of the store of one data view. -/
structure Store where
  usesDatabase : Bool
  fileExists : String → Bool
  readJson : String → Except String Value

def storyReviewTable : String := "zh_CN/gamedata/excel/story_review_table.json"

def storySupplement : String := "zh_CN/story_supplement.json"

def categoryTypes (category : String) : Option (List String) :=
  if category = "main" then some ["MAINLINE"]
  else if category = "activities" then some ["ACTIVITY", "MINI_ACTIVITY"]
  else if category = "memoirs" then some ["NONE"]
  else if category = "roguelike" then some ["ROGUELIKE"]
  else none

/-- The last place where the needle begins. -/
def rfind (needle text : List Char) : Option ℕ :=
  (List.range (text.length + 1)).reverse.find? fun i => needle.isPrefixOf (text.drop i)

def isCodeChar (c : Char) : Bool := ('a' ≤ c && c ≤ 'z') || c.isDigit || c = '_'

/-- `^story_([a-z0-9_]+)_set_\d+$`. -/
def isMemoirEvent (eventId : String) : Bool :=
  match "story_".toList.isPrefixOf? eventId.toList with
  | none => false
  | some rest =>
    match rfind "_set_".toList rest with
    | none => false
    | some i =>
      let code := rest.take i
      let digits := rest.drop (i + 5)
      !code.isEmpty && code.all isCodeChar && !digits.isEmpty && digits.all Char.isDigit

/-- The string of a field, or the default. -/
def strOr (default key : String) (v : Value) : String :=
  ((v.get key).bind JsonValue.asStr).getD default

def getStrField (v : Value) (key : String) : String := strOr "" key v

/-- The items of an array field; anything else has none. -/
def itemsOf (key : String) (v : Value) : List Value :=
  ((v.get key).bind JsonValue.asArray).getD []

def f64Or (key : String) (v : Value) : JsNumber :=
  ((v.get key).bind asF64).getD (.finite 0)

/-- `retain` of the entries whose keys are listed. -/
def retained (keys : List String) (fields : Table) : Table :=
  fields.filter fun field => decide (field.1 ∈ keys)

def chapterKeys : List String := ["storyCode", "storyName", "storyTxt", "avgTag", "storySort"]

def eventKeys : List String := ["entryType", "name", "infoUnlockDatas"]

def compactChapter : Value → Value
  | .object fields => .object (retained chapterKeys fields)
  | v => v

def compactChapters : Value → Value
  | .array chapters => .array (chapters.map compactChapter)
  | v => v

def compactEntry : Value → Value
  | .object fields =>
    .object ((retained eventKeys fields).map fun field =>
      (field.1, if field.1 = "infoUnlockDatas" then compactChapters field.2 else field.2))
  | v => v

/-- Unlock conditions and interface data are left out, every malformed shape is kept. -/
def compactEventTable (table : Table) : Table := OrderedMap.mapValues compactEntry table

/-- A chapter of the supplement in the shape of the review table, unless it has no key. -/
def supplementChapter (chapter : Value) : Option Value := do
  let fields ← chapter.asObject
  let key ← (fields.lookup "key").bind JsonValue.asStr
  if key = "" then none
  else
    let avgTag := ((fields.lookup "avg_tag").bind JsonValue.asStr).elim JsonValue.null .string
    return .object [("storyTxt", .string key), ("storyCode", .string (strOr "" "code" chapter)),
      ("storyName", .string (strOr "" "name" chapter)), ("avgTag", avgTag),
      ("storySort", .number (.float (f64Or "sort" chapter)))]

/-- The review table wins where an event is in both. -/
def addSupplement (merged : Table) (event : Value) : Table :=
  match event.asObject with
  | none => merged
  | some _ =>
    let eventId := strOr "" "event_id" event
    if eventId = "" ∨ (merged.lookup eventId).isSome then merged
    else
      OrderedMap.insert eventId (.object [
        ("entryType", .string (strOr "ROGUELIKE" "entry_type" event)),
        ("name", .string (strOr eventId "name" event)),
        ("infoUnlockDatas", .array ((itemsOf "chapters" event).filterMap supplementChapter))]) merged

/-- The supplement is optional: only a strict load fails for one that cannot be read. -/
def loadEventTableUncached (store : Store) (strict : Bool) : Except String Table := do
  match (← store.readJson storyReviewTable).asObject with
  | none => return []
  | some merged =>
    if store.fileExists storySupplement then
      match store.readJson storySupplement with
      | .ok raw =>
        return ((raw.get "events").bind JsonValue.asArray).elim merged fun events =>
          events.foldl addSupplement merged
      | .error e => if strict then .error e else return merged
    else return merged

def loadEventTable (store : Store) : Except String Table :=
  if store.usesDatabase then
    match loadEventTableUncached store true with
    | .ok table => .ok (compactEventTable table)
    | .error _ => loadEventTableUncached store false
  else loadEventTableUncached store false

structure StoryEvent where
  eventId : String
  name : String
  entryType : String
  storyCount : ℕ
  deriving DecidableEq

/-- Whether an event is listed. `memoirs` goes by the id of the event alone. -/
def isListed (category : Option String) (eventId : String) (entry : Value) : Bool :=
  match category.bind categoryTypes with
  | none => true
  | some allowed =>
    if allowed = ["NONE"] then isMemoirEvent eventId
    else decide (strOr "NONE" "entryType" entry ∈ allowed)

def storyEvent (eventId : String) (entry : Value) : StoryEvent :=
  ⟨eventId, strOr eventId "name" entry, strOr "NONE" "entryType" entry,
    (itemsOf "infoUnlockDatas" entry).length⟩

def listStoryEvents (table : Table) (category : Option String) : List StoryEvent :=
  table.filterMap fun field =>
    if isListed category field.1 field.2 then some (storyEvent field.1 field.2) else none

structure ChapterSummary where
  storyKey : String
  storyCode : String
  storyName : String
  avgTag : Option String
  sortOrder : JsNumber
  deriving DecidableEq

/-- The order of `sort_by`, by the sort keys of two chapters. -/
def NotAfter (a b : Value) : Prop :=
  ((f64Or "storySort" a).partialCmp (f64Or "storySort" b)).getD .eq ≠ .gt

instance : DecidableRel NotAfter := fun a b =>
  inferInstanceAs (Decidable
    (((f64Or "storySort" a).partialCmp (f64Or "storySort" b)).getD .eq ≠ .gt))

/-- A chapter without a text is passed over. -/
def chapterSummary (d : Value) : Option ChapterSummary :=
  if getStrField d "storyTxt" = "" then none
  else some ⟨getStrField d "storyTxt", getStrField d "storyCode", getStrField d "storyName",
    (d.get "avgTag").bind JsonValue.asStr, f64Or "storySort" d⟩

def listStories (table : Table) (eventId : String) : Except String (List ChapterSummary) :=
  match table.lookup eventId with
  | none => .error ("Event not found: \"" ++ eventId ++ "\"")
  | some entry =>
    .ok (((itemsOf "infoUnlockDatas" entry).insertionSort NotAfter).filterMap chapterSummary)

/-! ## Compaction -/

theorem lookup_retained {keys : List String} {key : String} (h : key ∈ keys) (fields : Table) :
    (retained keys fields).lookup key = fields.lookup key := by
  induction fields with
  | nil => rfl
  | cons field fields ih =>
    obtain ⟨k, v⟩ := field
    by_cases hk : k ∈ keys
    · have hcons : retained keys ((k, v) :: fields) = (k, v) :: retained keys fields :=
        List.filter_cons_of_pos (by simpa using hk)
      rw [hcons, List.lookup_cons, List.lookup_cons, ih]
    · have hcons : retained keys ((k, v) :: fields) = retained keys fields :=
        List.filter_cons_of_neg (by simpa using hk)
      have hne : (key == k) = false := beq_false_of_ne fun heq => hk (heq ▸ h)
      rw [hcons, List.lookup_cons, hne, ih]

/-- A field that a chapter keeps. -/
theorem get_compactChapter {key : String} (h : key ∈ chapterKeys) (d : Value) :
    (compactChapter d).get key = d.get key := by
  cases d with
  | object fields => exact lookup_retained h fields
  | null | bool _ | number _ | string _ | array _ => rfl

theorem get_compactEntry {key : String} (h : key ∈ eventKeys) (entry : Value) :
    (compactEntry entry).get key =
      (entry.get key).map fun v => if key = "infoUnlockDatas" then compactChapters v else v := by
  cases entry with
  | object fields =>
    have hmap := OrderedMap.lookup_mapEntries
      (fun k v => if k = "infoUnlockDatas" then compactChapters v else v) (retained eventKeys fields)
      key
    rw [lookup_retained h] at hmap
    exact hmap
  | null | bool _ | number _ | string _ | array _ => rfl

theorem strOr_compactEntry {key : String} (h : key ∈ ["entryType", "name"]) (default : String)
    (entry : Value) : strOr default key (compactEntry entry) = strOr default key entry := by
  have hkey : key ∈ eventKeys ∧ key ≠ "infoUnlockDatas" := by
    rcases List.mem_cons.mp h with rfl | h
    · decide
    · rw [List.mem_singleton.mp h]
      decide
  rw [strOr, get_compactEntry hkey.1]
  simp [strOr, hkey.2]

theorem itemsOf_compactEntry (entry : Value) :
    itemsOf "infoUnlockDatas" (compactEntry entry) =
      (itemsOf "infoUnlockDatas" entry).map compactChapter := by
  rw [itemsOf, get_compactEntry (by decide), itemsOf]
  cases hfield : entry.get "infoUnlockDatas" with
  | none => rfl
  | some v =>
    cases v with
    | array chapters => rfl
    | null | bool _ | number _ | string _ | object _ => rfl

theorem storyEvent_compactEntry (eventId : String) (entry : Value) :
    storyEvent eventId (compactEntry entry) = storyEvent eventId entry := by
  simp only [storyEvent, strOr_compactEntry (show "name" ∈ _ by decide),
    strOr_compactEntry (show "entryType" ∈ _ by decide), itemsOf_compactEntry, List.length_map]

theorem isListed_compactEntry (category : Option String) (eventId : String) (entry : Value) :
    isListed category eventId (compactEntry entry) = isListed category eventId entry := by
  simp only [isListed, strOr_compactEntry (show "entryType" ∈ _ by decide)]

theorem getStrField_compactChapter {key : String} (h : key ∈ chapterKeys) (d : Value) :
    getStrField (compactChapter d) key = getStrField d key := by
  rw [getStrField, strOr, get_compactChapter h]
  rfl

theorem f64Or_compactChapter (d : Value) :
    f64Or "storySort" (compactChapter d) = f64Or "storySort" d := by
  rw [f64Or, get_compactChapter (by decide)]
  rfl

theorem notAfter_compactChapter (a b : Value) :
    NotAfter a b ↔ NotAfter (compactChapter a) (compactChapter b) := by
  rw [NotAfter, NotAfter, f64Or_compactChapter, f64Or_compactChapter]

theorem chapterSummary_compactChapter (d : Value) :
    chapterSummary (compactChapter d) = chapterSummary d := by
  simp only [chapterSummary, getStrField_compactChapter (show "storyTxt" ∈ chapterKeys by decide),
    getStrField_compactChapter (show "storyCode" ∈ chapterKeys by decide),
    getStrField_compactChapter (show "storyName" ∈ chapterKeys by decide), f64Or_compactChapter,
    get_compactChapter (show "avgTag" ∈ chapterKeys by decide)]

/-- Compaction keeps the place of a chapter in the sorted list. -/
theorem sorted_compactChapter (datas : List Value) :
    ((datas.map compactChapter).insertionSort NotAfter).filterMap chapterSummary =
      (datas.insertionSort NotAfter).filterMap chapterSummary := by
  have hsort := List.map_insertionSort NotAfter NotAfter compactChapter datas
    fun a _ b _ => notAfter_compactChapter a b
  rw [← hsort, List.filterMap_map]
  congr 1
  funext d
  exact chapterSummary_compactChapter d

theorem listStoryEvents_compact (table : Table) (category : Option String) :
    listStoryEvents (compactEventTable table) category = listStoryEvents table category := by
  rw [listStoryEvents, compactEventTable, OrderedMap.mapValues, List.filterMap_map]
  congr 1
  funext field
  exact congrArg₂ (fun listed event => if listed = true then some event else none)
    (isListed_compactEntry category field.1 field.2) (storyEvent_compactEntry field.1 field.2)

theorem listStories_compact (table : Table) (eventId : String) :
    listStories (compactEventTable table) eventId = listStories table eventId := by
  have hlookup : (compactEventTable table).lookup eventId =
      (table.lookup eventId).map compactEntry :=
    OrderedMap.lookup_mapEntries (fun _ => compactEntry) table eventId
  rw [listStories, hlookup, listStories]
  cases table.lookup eventId with
  | none => rfl
  | some entry =>
    dsimp only [Option.map_some]
    rw [itemsOf_compactEntry, sorted_compactChapter]

/-- Every listing of the compacted table is the listing of the full one. -/
theorem listings_compactEventTable (table : Table) :
    (∀ category, listStoryEvents (compactEventTable table) category =
        listStoryEvents table category) ∧
      ∀ eventId, listStories (compactEventTable table) eventId = listStories table eventId :=
  ⟨listStoryEvents_compact table, listStories_compact table⟩

/-- A database store lists what the same files list without one. -/
theorem listings_loadEventTable {store : Store} {table : Table}
    (h : loadEventTable store = .ok table) :
    ∃ strict full, loadEventTableUncached store strict = .ok full ∧
      (∀ category, listStoryEvents table category = listStoryEvents full category) ∧
      ∀ eventId, listStories table eventId = listStories full eventId := by
  unfold loadEventTable at h
  split at h
  · split at h
    · next full hfull =>
      obtain rfl := Except.ok.inj h
      exact ⟨true, full, hfull, listStoryEvents_compact full, listStories_compact full⟩
    · exact ⟨false, table, h, fun _ => rfl, fun _ => rfl⟩
  · exact ⟨false, table, h, fun _ => rfl, fun _ => rfl⟩

end StoryListing

end PrtsMcp
