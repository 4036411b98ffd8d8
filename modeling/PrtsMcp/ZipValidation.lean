import PrtsMcp.Json

/-!
# Zip validation

The validators a downloaded archive must pass, and must still pass before it counts as local data.
-/
namespace PrtsMcp.ZipValidation

/-- `json` is what the entry's bytes parse to; `opens` is false for an entry the reader rejects. -/
structure ZipEntry where
  name : String
  opens : Bool
  json : Option Json

/-- The entries of a zip, or the reader's error for a file that is none. -/
abbrev ZipArchive := Except String (List ZipEntry)

inductive ZipValidator where
  | none
  | storyJson
  | archive (requiredFiles : List String)
  deriving DecidableEq, Repr

def notAZip (name message : String) : String := name ++ " is not a valid zip: " ++ message

def openArchive (name : String) (zip : ZipArchive) : Except String (List ZipEntry) :=
  zip.mapError (notAZip name)

/-- Required entries must exist as file entries. -/
def validateArchiveZip (name : String) (zip : ZipArchive) (requiredFiles : List String) :
    Except String (List String) := do
  let entries ← openArchive name zip
  let names := ((entries.filter ZipEntry.opens).map ZipEntry.name).filter
    fun n => n.toList.getLast? ≠ some '/'
  return requiredFiles.filter fun f => f ∉ names

def storyjsonReviewTable : String := "zh_CN/gamedata/excel/story_review_table.json"

def storyinfo : String := "zh_CN/storyinfo.json"

def storyjsonSupplement : String := "zh_CN/story_supplement.json"

def storyPath (key : String) : String := "zh_CN/gamedata/story/" ++ key ++ ".json"

def readEntry (entries : List ZipEntry) (name : String) : Option Json :=
  (entries.find? fun e => e.opens && e.name == name).bind ZipEntry.json

/-- The nonempty strings under a key of the objects of an array. -/
def keysUnder (key : String) (items : List Json) : List String :=
  items.filterMap fun item => (item.getStr key).filter (· ≠ "")

def tableStoryPaths (table : Json) : List String :=
  match table with
  | .obj fields => fields.flatMap fun entry =>
    (((entry.2.get "infoUnlockDatas").bind Json.asArray).elim [] (keysUnder "storyTxt")).map storyPath
  | _ => []

def supplementStoryPaths (events : List Json) : List String :=
  events.flatMap fun event =>
    (((event.get "chapters").bind Json.asArray).elim [] (keysUnder "key")).map storyPath

/-- The order of a `BTreeSet`. -/
def sortedSet (names : List String) : List String :=
  (names.mergeSort fun a b => decide (a ≤ b)).dedup

def missingStories (entries : List ZipEntry) (paths : List String) : List String :=
  (sortedSet paths).filter fun path => path ∉ entries.map ZipEntry.name

/-- The base files, and every chapter that the review table and the supplement reference. -/
def validateStoryjsonZip (name : String) (zip : ZipArchive) : Except String (List String) := do
  let entries ← openArchive name zip
  let missing := [storyjsonReviewTable, storyinfo].filter
    fun required => required ∉ entries.map ZipEntry.name
  if storyjsonReviewTable ∈ missing then return missing
  match readEntry entries storyjsonReviewTable with
  | none => return missing ++ [storyjsonReviewTable ++ " is unreadable"]
  | some table =>
    if storyjsonSupplement ∉ entries.map ZipEntry.name then
      return missing ++ missingStories entries (tableStoryPaths table)
    match readEntry entries storyjsonSupplement with
    | none => return missing ++ [storyjsonSupplement ++ " is unreadable"]
    | some supplement =>
      match (supplement.get "events").bind Json.asArray with
      | none => return missing ++ [storyjsonSupplement ++ " is unreadable: events is not a list"]
      | some events =>
        return missing ++
          missingStories entries (tableStoryPaths table ++ supplementStoryPaths events)

/-- Without a validator the file is never opened. -/
def zipMissingEntries (name : String) (zip : ZipArchive) :
    ZipValidator → Except String (List String)
  | .none => .ok []
  | .storyJson => validateStoryjsonZip name zip
  | .archive requiredFiles => validateArchiveZip name zip requiredFiles

/-- The file name only shows in errors. -/
theorem zipMissingEntries_rename {name name' : String} {zip : ZipArchive}
    {validator : ZipValidator} {missing : List String}
    (h : zipMissingEntries name zip validator = .ok missing) :
    zipMissingEntries name' zip validator = .ok missing := by
  cases validator with
  | none => exact h
  | storyJson =>
    cases zip with
    | ok entries => exact h
    | error e => simp [zipMissingEntries, validateStoryjsonZip, openArchive, Except.mapError,
        bind, Except.bind] at h
  | archive requiredFiles =>
    cases zip with
    | ok entries => exact h
    | error e => simp [zipMissingEntries, validateArchiveZip, openArchive, Except.mapError,
        bind, Except.bind] at h

end PrtsMcp.ZipValidation
