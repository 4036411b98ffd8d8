import PrtsMcp.StoryListing
import PrtsMcp.Stores
import PrtsMcp.ZipValidation

/-!
# Story packs

Whether the chapters that the event table of a validated pack names are found in the pack. The
validator goes by the names of the entries, the store by normalised paths and by what opens.
-/
namespace PrtsMcp.StoryPacks

open StoryListing (Table itemsOf loadEventTable loadEventTableUncached addSupplement supplementChapter
  storyReviewTable storySupplement strOr)
open StorePaths (StoreError normalizePath folded collectParts)
open Stores (Env)
open Zodish (Value)
open ZipValidation

/-! ## Packs -/

structure PackEntry where
  name : String
  opens : Bool
  text : Except String String

/-- The archive of a zip that is no database. Its entries are kept by name. -/
structure StoryPack where
  entries : List PackEntry
  nodup : (entries.map PackEntry.name).Nodup

mutual

/-- A parsed value as the validator sees it, with the texts of its numbers. -/
def toJson (number : JsonNumber JsNumber → ℚ × String) : Value → Json
  | .null => .null
  | .bool b => .bool b
  | .number n => .num (number n).1 (number n).2
  | .string s => .str s
  | .array items => .arr (toJsons number items)
  | .object fields => .obj (toFields number fields)

def toJsons (number : JsonNumber JsNumber → ℚ × String) : List Value → List Json
  | [] => []
  | item :: items => toJson number item :: toJsons number items

def toFields (number : JsonNumber JsNumber → ℚ × String) : List (String × Value) → List (String × Json)
  | [] => []
  | (key, value) :: fields => (key, toJson number value) :: toFields number fields

end

def StoreError.text : StoreError → String
  | .unsafePath path => "Unsafe dataset path: " ++ path
  | .notFound path => "Dataset file not found: " ++ path
  | .zipEntryNotFound path => "Dataset zip entry not found: " ++ path
  | .fallbackNotFound path => "Dataset file not found in fallback chain: " ++ path
  | .io message => message
  | .badJson path message => "JSON parse failure in " ++ path ++ ": " ++ message

namespace StoryPack

variable (env : Env Value) (number : JsonNumber JsNumber → ℚ × String) (pack : StoryPack)

/-- The pack as it is validated. -/
def zip : List ZipEntry :=
  pack.entries.map fun e => ⟨e.name, e.opens, ((e.text.bind env.parse).toOption).map (toJson number)⟩

/-- The store of the pack. -/
def zipStore : Stores.ZipStore where
  database := none
  isFile := true
  isDatabase := false
  openDatabase := .error "file is not a database"
  archive := .ok fun name => (pack.entries.find? fun e => e.name = name).map fun e => ⟨e.opens, e.text⟩

/-- The store as the event table is loaded from it. -/
def store : StoryListing.Store where
  usesDatabase := false
  fileExists path := (pack.zipStore.fileExists path).toOption.getD false
  readJson path := (pack.zipStore.readJson env path).mapError StoreError.text

end StoryPack

/-- The texts of the chapters of an event. -/
def chapterKeys (entry : Value) : List String :=
  (itemsOf "infoUnlockDatas" entry).filterMap fun chapter =>
    ((chapter.get "storyTxt").bind JsonValue.asStr).filter (· ≠ "")

/-- The nonempty story keys of an event table. -/
def storyKeys (table : Table) : List String := table.flatMap fun field => chapterKeys field.2

/-- The keys of the chapters of an event of the supplement. -/
def supplementKeys (event : Value) : List String :=
  (itemsOf "chapters" event).filterMap fun chapter =>
    ((chapter.get "key").bind JsonValue.asStr).filter (· ≠ "")

/-- A path that the store takes as it stands: none of its segments is dropped or refused, and no
backslash in it is folded. -/
def Plain (path : String) : Prop :=
  '\\' ∉ path.toList ∧ ∀ part ∈ path.toList.splitOn '/', part ≠ [] ∧ part ≠ ['.'] ∧ part ≠ ['.', '.']

instance : DecidablePred Plain := fun _ => inferInstanceAs (Decidable (_ ∧ _))

/-- A plain path is served where its entries open, any other where an entry of its normalised path
does. -/
def StoryPack.Serves (pack : StoryPack) (path : String) : Prop :=
  if Plain path then ∀ e ∈ pack.entries, e.name = path → e.opens
  else ∃ inner, normalizePath path = .ok inner ∧ ∃ e ∈ pack.entries, e.name = inner ∧ e.opens

/-! ## One value, read twice -/

section Json

variable (number : JsonNumber JsNumber → ℚ × String)

theorem toJsons_eq_map (items : List Value) : toJsons number items = items.map (toJson number) := by
  induction items with
  | nil => rfl
  | cons item items ih => rw [toJsons, ih, List.map_cons]

theorem toFields_eq_map (fields : List (String × Value)) :
    toFields number fields = fields.map fun field => (field.1, toJson number field.2) := by
  induction fields with
  | nil => rfl
  | cons field fields ih => rw [toFields, ih, List.map_cons]

theorem lookup_toFields (fields : List (String × Value)) (key : String) :
    (toFields number fields).lookup key = (fields.lookup key).map (toJson number) := by
  rw [toFields_eq_map]
  exact OrderedMap.lookup_mapValues (toJson number) fields key

theorem get_toJson (v : Value) (key : String) : (toJson number v).get key = (v.get key).map (toJson number) := by
  cases v with
  | object fields => exact lookup_toFields number fields key
  | null | bool | number | string | array => rfl

theorem asStr_toJson (v : Value) : (toJson number v).asStr = v.asStr := by
  cases v <;> rfl

theorem asArray_toJson (v : Value) : (toJson number v).asArray = v.asArray.map (List.map (toJson number)) := by
  cases v with
  | array items => exact congrArg some (toJsons_eq_map number items)
  | null | bool | number | string | object => rfl

theorem keysUnder_toJson (key : String) (items : List Value) :
    keysUnder key (items.map (toJson number)) =
      items.filterMap fun item => ((item.get key).bind JsonValue.asStr).filter (· ≠ "") := by
  rw [keysUnder, List.filterMap_map]
  congr 1
  funext item
  rw [Function.comp_apply, Json.getStr, get_toJson]
  cases item.get key with
  | none => rfl
  | some v => rw [Option.map_some, Option.bind_some, Option.bind_some, asStr_toJson]

theorem arrayAt_toJson (key : String) (v : Value) :
    ((toJson number v).get key).bind Json.asArray =
      ((v.get key).bind JsonValue.asArray).map (List.map (toJson number)) := by
  rw [get_toJson]
  cases v.get key with
  | none => rfl
  | some w => exact asArray_toJson number w

/-- The keys under the items of a field are the same in both readings. -/
theorem keysIn_toJson (field key : String) (v : Value) :
    (((toJson number v).get field).bind Json.asArray).elim [] (keysUnder key) =
      (itemsOf field v).filterMap fun item => ((item.get key).bind JsonValue.asStr).filter (· ≠ "") := by
  rw [arrayAt_toJson, itemsOf]
  cases (v.get field).bind JsonValue.asArray with
  | none => rfl
  | some items => exact keysUnder_toJson number key items

theorem tableStoryPaths_toJson (table : Table) :
    tableStoryPaths (toJson number (.object table)) = (storyKeys table).map storyPath := by
  rw [toJson, toFields_eq_map, tableStoryPaths, List.flatMap_map, storyKeys, List.map_flatMap]
  exact List.flatMap_congr fun field _ =>
    congrArg (List.map storyPath) (keysIn_toJson number "infoUnlockDatas" "storyTxt" field.2)

theorem supplementStoryPaths_toJson (events : List Value) :
    supplementStoryPaths (events.map (toJson number)) = (events.flatMap supplementKeys).map storyPath := by
  rw [supplementStoryPaths, List.flatMap_map, List.map_flatMap]
  exact List.flatMap_congr fun event _ =>
    congrArg (List.map storyPath) (keysIn_toJson number "chapters" "key" event)

end Json

/-! ## Keys of a loaded table -/

/-- The text of a chapter that is taken from the supplement is the key it has there. -/
theorem chapterKey_of_supplementChapter {chapter shaped : Value} (h : supplementChapter chapter = some shaped) :
    (shaped.get "storyTxt").bind JsonValue.asStr = (chapter.get "key").bind JsonValue.asStr := by
  obtain ⟨fields, hfields, h⟩ := Option.bind_eq_some_iff.mp h
  obtain ⟨key, hkey, h⟩ := Option.bind_eq_some_iff.mp h
  have hget : (chapter.get "key").bind JsonValue.asStr = some key := by
    cases chapter with
    | object fields' =>
      obtain rfl : fields' = fields := Option.some.inj hfields
      exact hkey
    | null | bool | number | string | array => cases hfields
  rw [hget]
  split at h
  · cases h
  · cases h
    rfl

theorem mem_supplementKeys_of_added {event : Value} {entryType name : String} {key : String}
    (h : key ∈ chapterKeys (.object [("entryType", .string entryType), ("name", .string name),
      ("infoUnlockDatas", .array ((itemsOf "chapters" event).filterMap supplementChapter))])) :
    key ∈ supplementKeys event := by
  obtain ⟨shaped, hshaped, hkey⟩ := List.mem_filterMap.mp h
  obtain ⟨chapter, hchapter, htaken⟩ := List.mem_filterMap.mp hshaped
  rw [chapterKey_of_supplementChapter htaken] at hkey
  exact List.mem_filterMap.mpr ⟨chapter, hchapter, hkey⟩

theorem mem_storyKeys_addSupplement {merged : Table} {event : Value} {key : String}
    (h : key ∈ storyKeys (addSupplement merged event)) :
    key ∈ storyKeys merged ∨ key ∈ supplementKeys event := by
  rw [addSupplement] at h
  split at h
  · exact .inl h
  · dsimp only at h
    split at h
    · exact .inl h
    · obtain ⟨field, hfield, hkey⟩ := List.mem_flatMap.mp h
      rcases OrderedMap.eq_or_mem_of_mem_insert hfield with rfl | hfield
      · exact .inr (mem_supplementKeys_of_added hkey)
      · exact .inl (List.mem_flatMap.mpr ⟨field, hfield, hkey⟩)

theorem mem_storyKeys_foldl {merged : Table} {events : List Value} {key : String}
    (h : key ∈ storyKeys (events.foldl addSupplement merged)) :
    key ∈ storyKeys merged ∨ key ∈ events.flatMap supplementKeys := by
  induction events using List.reverseRecOn with
  | nil => exact .inl h
  | append_singleton events event ih =>
    rw [List.foldl_append] at h
    rw [List.flatMap_append, List.mem_append]
    rcases mem_storyKeys_addSupplement h with h | h
    · exact (ih h).imp_right .inl
    · exact .inr (.inr (by simpa using h))

/-! ## Paths -/

theorem folded_of_plain {path : String} (h : Plain path) : folded path = path.toList := by
  conv_rhs => rw [← List.map_id path.toList]
  refine List.map_congr_left fun c hc => if_neg ?_
  rintro rfl
  exact h.1 hc

theorem collectParts_of_kept {path : String} {pieces : List (List Char)}
    (h : ∀ piece ∈ pieces, piece ≠ [] ∧ piece ≠ ['.'] ∧ piece ≠ ['.', '.']) :
    collectParts path pieces = .ok pieces := by
  induction pieces with
  | nil => rfl
  | cons piece pieces ih =>
    obtain ⟨⟨hempty, hdot, hdots⟩, hrest⟩ := List.forall_mem_cons.mp h
    rw [collectParts, if_neg (by tauto), if_neg hdots, ih hrest]
    rfl

theorem normalizePath_of_plain {path : String} (h : Plain path) : normalizePath path = .ok path := by
  have hhead : path.toList.head? ≠ some '/' := by
    intro hhead
    obtain ⟨rest, hrest⟩ := List.head?_eq_some_iff.mp hhead
    have := h.2 [] (by rw [hrest, List.splitOn_cons_eq_if_modifyHead]; simp)
    exact this.1 rfl
  rw [normalizePath, folded_of_plain h, if_neg hhead, collectParts_of_kept h.2]
  change Except.ok (String.ofList (['/'].intercalate (path.toList.splitOn '/'))) = _
  rw [List.intercalate_splitOn, String.ofList_toList]

/-! ## Entries -/

namespace StoryPack

variable {env : Env Value} {number : JsonNumber JsNumber → ℚ × String} {pack : StoryPack}

theorem find_of_mem {e : PackEntry} (h : e ∈ pack.entries) :
    (pack.entries.find? fun e' => e'.name = e.name) = some e := by
  have hsome : (pack.entries.find? fun e' => e'.name = e.name).isSome :=
    List.find?_isSome.mpr ⟨e, h, by simp⟩
  obtain ⟨e', he'⟩ := Option.isSome_iff_exists.mp hsome
  have hname : e'.name = e.name := by simpa using List.find?_some he'
  rw [he', List.inj_on_of_nodup_map pack.nodup (List.mem_of_find?_eq_some he') h hname]

theorem fileExists_iff {path : String} :
    pack.zipStore.fileExists path = .ok true ↔
      ∃ inner, normalizePath path = .ok inner ∧ ∃ e ∈ pack.entries, e.name = inner ∧ e.opens := by
  have hexists : pack.zipStore.fileExists path = (normalizePath path).map fun inner =>
      ((pack.entries.find? fun e => e.name = inner).map fun e => ⟨e.opens, e.text⟩).any Stores.Entry.opens := by
    cases hpath : normalizePath path <;> simp [Stores.ZipStore.fileExists, zipStore, hpath,
      Stores.ZipStore.databaseHandle, Except.mapError, bind, Except.bind, pure, Except.pure, Except.map]
  rw [hexists]
  cases normalizePath path with
  | error e => simp [Except.map]
  | ok inner =>
    rw [Except.map, Except.ok.injEq, Option.any_map]
    constructor
    · intro h
      obtain ⟨e, he, hopens⟩ := (Option.any_eq_true _ _).mp h
      exact ⟨inner, rfl, e, List.mem_of_find?_eq_some he, by simpa using List.find?_some he, hopens⟩
    · rintro ⟨_, ⟨⟩, e, he, rfl, hopens⟩
      rw [find_of_mem he]
      exact hopens

/-- What the validator finds at a path is served there as far as its condition goes. -/
theorem fileExists_iff_serves {path : String} (h : path ∈ pack.entries.map PackEntry.name) :
    pack.zipStore.fileExists path = .ok true ↔ pack.Serves path := by
  rw [fileExists_iff, Serves]
  split_ifs with hplain
  · rw [normalizePath_of_plain hplain]
    constructor
    · rintro ⟨_, ⟨⟩, e, he, rfl, hopens⟩ e' he' hname
      rwa [List.inj_on_of_nodup_map pack.nodup he' he hname]
    · obtain ⟨e, he, hname⟩ := List.mem_map.mp h
      exact fun hall => ⟨path, rfl, e, he, hname, hall e he hname⟩
  · exact Iff.rfl

/-- An entry that opens with the text of a value. -/
def Reads (env : Env Value) (pack : StoryPack) (name : String) (v : Value) : Prop :=
  ∃ e ∈ pack.entries, e.name = name ∧ e.opens ∧ e.text.bind env.parse = .ok v

theorem reads_of_readEntry {name : String} {json : Json} (h : readEntry (pack.zip env number) name = some json) :
    ∃ v, pack.Reads env name v ∧ json = toJson number v := by
  obtain ⟨entry, hfind, hjson⟩ := Option.bind_eq_some_iff.mp h
  obtain ⟨e, he, rfl⟩ := List.mem_map.mp (List.mem_of_find?_eq_some hfind)
  obtain ⟨hopens, hname⟩ : e.opens = true ∧ e.name = name := by simpa using List.find?_some hfind
  obtain ⟨v, hv, rfl⟩ := Option.map_eq_some_iff.mp hjson
  refine ⟨v, ⟨e, he, hname, hopens, ?_⟩, rfl⟩
  cases hparse : e.text.bind env.parse with
  | error message => rw [hparse] at hv; cases hv
  | ok v' =>
    rw [hparse] at hv
    exact congrArg Except.ok (Option.some.inj hv)

theorem Reads.readJson {name : String} {v : Value} (h : pack.Reads env name v) (hplain : Plain name) :
    (pack.store env).readJson name = .ok v := by
  obtain ⟨e, he, rfl, hopens, hparse⟩ := h
  have hread : pack.zipStore.readJson env e.name = .ok v := by
    cases htext : e.text with
    | error message => rw [htext] at hparse; cases hparse
    | ok text =>
      rw [htext] at hparse
      have hvalue : env.parse text = .ok v := hparse
      simp [Stores.ZipStore.readJson, Stores.ZipStore.readEntry, normalizePath_of_plain hplain, zipStore,
        Stores.ZipStore.databaseHandle, Except.mapError, bind, Except.bind, find_of_mem he, hopens, htext, hvalue]
  exact congrArg (Except.mapError StoreError.text) hread

theorem Reads.fileExists {name : String} {v : Value} (h : pack.Reads env name v) (hplain : Plain name) :
    (pack.store env).fileExists name = true := by
  obtain ⟨e, he, hname, hopens, -⟩ := h
  have hexists := fileExists_iff.mpr ⟨name, normalizePath_of_plain hplain, e, he, hname, hopens⟩
  exact congrArg (fun answer => answer.toOption.getD false) hexists

theorem not_fileExists {name : String} (h : name ∉ pack.entries.map PackEntry.name) (hplain : Plain name) :
    (pack.store env).fileExists name = false := by
  have hnone : pack.zipStore.fileExists name ≠ .ok true := by
    rw [Ne, fileExists_iff]
    rintro ⟨inner, hinner, e, he, hname, -⟩
    obtain rfl : name = inner := Except.ok.inj ((normalizePath_of_plain hplain).symm.trans hinner)
    exact h (List.mem_map.mpr ⟨e, he, hname⟩)
  change (pack.zipStore.fileExists name).toOption.getD false = false
  cases hexists : pack.zipStore.fileExists name with
  | error e => rfl
  | ok found =>
    rw [hexists] at hnone
    simpa [Except.toOption] using hnone

theorem map_name_zip : (pack.zip env number).map ZipEntry.name = pack.entries.map PackEntry.name := by
  rw [zip, List.map_map]
  rfl

end StoryPack

/-! ## Validated packs -/

theorem missingStories_eq_nil {entries : List ZipEntry} {paths : List String} :
    missingStories entries paths = [] ↔ ∀ path ∈ paths, path ∈ entries.map ZipEntry.name := by
  simp only [missingStories, List.filter_eq_nil_iff, sortedSet, List.mem_dedup, List.mem_mergeSort,
    decide_eq_true_eq, not_not]

/-- What the validator has read where nothing is missing. -/
theorem read_of_validated {name : String} {entries : List ZipEntry}
    (h : validateStoryjsonZip name (.ok entries) = .ok []) :
    ∃ table, readEntry entries storyReviewTable = some table ∧
      (∀ path ∈ tableStoryPaths table, path ∈ entries.map ZipEntry.name) ∧
      (storySupplement ∉ entries.map ZipEntry.name ∨
        ∃ supplement events, readEntry entries storySupplement = some supplement ∧
          (supplement.get "events").bind Json.asArray = some events ∧
          ∀ path ∈ supplementStoryPaths events, path ∈ entries.map ZipEntry.name) := by
  change (if _ then Except.ok _ else _) = _ at h
  split_ifs at h with hreview hsupplement
  · rw [Except.ok.inj h] at hreview
    exact absurd hreview List.not_mem_nil
  · cases htable : readEntry entries storyjsonReviewTable with
    | none => simp [htable, pure, Except.pure] at h
    | some table =>
      cases hread : readEntry entries storyjsonSupplement with
      | none => simp [htable, hread, pure, Except.pure] at h
      | some supplement =>
        cases hevents : (supplement.get "events").bind Json.asArray with
        | none => simp [htable, hread, hevents, pure, Except.pure] at h
        | some events =>
          simp only [htable, hread, hevents] at h
          have hpaths : ∀ path ∈ tableStoryPaths table ++ supplementStoryPaths events,
              path ∈ entries.map ZipEntry.name :=
            missingStories_eq_nil.mp (List.append_eq_nil_iff.mp (Except.ok.inj h)).2
          exact ⟨table, htable, fun path hpath => hpaths path (List.mem_append_left _ hpath),
            .inr ⟨supplement, events, hread, hevents, fun path hpath => hpaths path (List.mem_append_right _ hpath)⟩⟩
  · cases htable : readEntry entries storyjsonReviewTable with
    | none => simp [htable, pure, Except.pure] at h
    | some table =>
      simp only [htable] at h
      exact ⟨table, htable, missingStories_eq_nil.mp (List.append_eq_nil_iff.mp (Except.ok.inj h)).2,
        .inl hsupplement⟩

def smallReview : String :=
  "\x7b\"e\":\x7b\"infoUnlockDatas\":[\x7b\"storyTxt\":\"a//b\"\x7d,\x7b\"storyTxt\":\"c\"\x7d]\x7d\x7d"

/-- It parses the texts of the pack below. -/
def smallEnv : Env Value where
  platform := .unix
  files := { isFile := fun _ => false, readToString := fun _ => .error .notFound }
  parse text :=
    if text = smallReview then
      .ok (.object [("e", .object [("infoUnlockDatas",
        .array [.object [("storyTxt", .string "a//b")], .object [("storyTxt", .string "c")]])])])
    else if text = "\x7b\x7d" then .ok (.object [])
    else .error "unexpected text"
  parseBytes _ := .error "unexpected bytes"
  utf8Error _ := "invalid utf-8"

def smallPack : StoryPack where
  entries := [⟨storyReviewTable, true, .ok smallReview⟩, ⟨storyinfo, true, .ok "\x7b\x7d"⟩,
    ⟨"zh_CN/gamedata/story/a//b.json", true, .ok "\x7b\x7d"⟩,
    ⟨"zh_CN/gamedata/story/c.json", false, .error "Password required to decrypt file"⟩]
  nodup := by decide

theorem smallPack_validated :
    validateStoryjsonZip "storyjson.zip" (.ok (smallPack.zip smallEnv fun _ => (0, "0"))) = .ok [] := by
  have hnil : missingStories (smallPack.zip smallEnv fun _ => (0, "0"))
      ["zh_CN/gamedata/story/a//b.json", "zh_CN/gamedata/story/c.json"] = [] :=
    missingStories_eq_nil.mpr (by decide +kernel)
  exact congrArg Except.ok hnil

section Loaded

variable {env : Env Value} {number : JsonNumber JsNumber → ℚ × String} {pack : StoryPack}

theorem plain_storyReviewTable : Plain storyReviewTable := by decide +kernel

theorem plain_storySupplement : Plain storySupplement := by decide +kernel

/-- The table of a validated pack can be loaded, and the pack has an entry of the name of each of its
chapters. -/
theorem loadEventTable_of_validated {name : String}
    (h : validateStoryjsonZip name (.ok (pack.zip env number)) = .ok []) :
    ∃ table, loadEventTable (pack.store env) = .ok table ∧
      ∀ key ∈ storyKeys table, storyPath key ∈ pack.entries.map PackEntry.name := by
  obtain ⟨json, hjson, hpaths, hsupplement⟩ := read_of_validated h
  rw [StoryPack.map_name_zip] at hpaths hsupplement
  obtain ⟨review, hreview, rfl⟩ := StoryPack.reads_of_readEntry hjson
  have hload : loadEventTable (pack.store env) = loadEventTableUncached (pack.store env) false := rfl
  rw [hload, loadEventTableUncached, hreview.readJson plain_storyReviewTable]
  cases hmerged : review.asObject with
  | none => exact ⟨[], by simp [bind, Except.bind, hmerged, pure, Except.pure], fun key hkey => absurd hkey List.not_mem_nil⟩
  | some merged =>
    obtain rfl : review = .object merged := by
      cases review with
      | object fields => exact congrArg _ (Option.some.inj hmerged)
      | null | bool | number | string | array => cases hmerged
    rw [tableStoryPaths_toJson] at hpaths
    have hkeys : ∀ key ∈ storyKeys merged, storyPath key ∈ pack.entries.map PackEntry.name :=
      fun key hkey => hpaths _ (List.mem_map_of_mem hkey)
    rcases hsupplement with habsent | ⟨json, events, hjson, hevents, hpaths⟩
    · refine ⟨merged, ?_, hkeys⟩
      simp [bind, Except.bind, hmerged, pure, Except.pure, StoryPack.not_fileExists habsent plain_storySupplement]
    · obtain ⟨supplement, hreads, rfl⟩ := StoryPack.reads_of_readEntry hjson
      rw [arrayAt_toJson] at hevents
      obtain ⟨events, hlist, rfl⟩ := Option.map_eq_some_iff.mp hevents
      rw [supplementStoryPaths_toJson] at hpaths
      refine ⟨events.foldl addSupplement merged, ?_, fun key hkey => ?_⟩
      · simp [bind, Except.bind, hmerged, pure, Except.pure, hreads.fileExists plain_storySupplement,
          hreads.readJson plain_storySupplement, hlist]
      · rcases mem_storyKeys_foldl hkey with hkey | hkey
        · exact hkeys key hkey
        · exact hpaths _ (List.mem_map_of_mem hkey)

/-- A pack that the validator passes has the table it names, and its chapters are all found where the
store serves the paths of each. -/
theorem validated_exists_iff (env : Env Value) (number : JsonNumber JsNumber → ℚ × String) (pack : StoryPack)
    (name : String) (h : validateStoryjsonZip name (.ok (pack.zip env number)) = .ok []) :
    ∃ table, loadEventTable (pack.store env) = .ok table ∧
      ((∀ key ∈ storyKeys table, pack.zipStore.fileExists (storyPath key) = .ok true) ↔
        ∀ key ∈ storyKeys table, pack.Serves (storyPath key)) := by
  obtain ⟨table, hload, hnames⟩ := loadEventTable_of_validated h
  exact ⟨table, hload, forall₂_congr fun key hkey => StoryPack.fileExists_iff_serves (hnames key hkey)⟩

theorem validated_exists_iff_smallPack : ∃ table, loadEventTable (smallPack.store smallEnv) = .ok table ∧
    ((∀ key ∈ storyKeys table, smallPack.zipStore.fileExists (storyPath key) = .ok true) ↔
      ∀ key ∈ storyKeys table, smallPack.Serves (storyPath key)) :=
  validated_exists_iff smallEnv (fun _ => (0, "0")) smallPack "storyjson.zip" smallPack_validated

/-- The pack is passed with a chapter whose path is not in normal form and one whose entry is
encrypted, and neither is found. -/
theorem validated_not_exists :
    validateStoryjsonZip "storyjson.zip" (.ok (smallPack.zip smallEnv fun _ => (0, "0"))) = .ok [] ∧
      ∃ table, loadEventTable (smallPack.store smallEnv) = .ok table ∧ storyKeys table = ["a//b", "c"] ∧
        smallPack.zipStore.fileExists (storyPath "a//b") = .ok false ∧
        smallPack.zipStore.fileExists (storyPath "c") = .ok false :=
  ⟨smallPack_validated, _, rfl, by rfl, by rfl, by rfl⟩

end Loaded

end PrtsMcp.StoryPacks
