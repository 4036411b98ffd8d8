import PrtsMcp.CompiledEntities
import PrtsMcp.EnemyDatabase
import PrtsMcp.Fallible

/-!
# Compiled sources

The data compiler keeps every file of its input in the database, equal contents once, and lets a
namespace have one content for a path. The tables of the game data are captured as they are kept.
-/
namespace PrtsMcp.CompiledSources

open CompiledEntities Upserts

variable {φ : Type}

/-! ## The archive -/

/-- The digest of the blobs, and the compression of their bodies. -/
structure Codec where
  sha256 : List UInt8 → String
  deflate : List UInt8 → List UInt8
  inflate : List UInt8 → Except String (List UInt8)

/-- What is inflated is what was deflated. -/
structure Codec.Lawful (codec : Codec) : Prop where
  inflate_deflate : ∀ raw, codec.inflate (codec.deflate raw) = .ok raw

structure Blob where
  rawLen : ℕ
  body : List UInt8
  deriving DecidableEq, Repr

/-- The database that the compiler writes. -/
structure Database where
  metas : List (String × String)
  blobs : List (String × Blob)
  sources : List ((String × String) × String)
  tables : Tables

def Database.empty : Database := ⟨[], [], [], .empty⟩

/-- A file under a path of a namespace. -/
structure SourceFile where
  ns : String
  path : String
  raw : List UInt8
  deriving DecidableEq, Repr

def SourceFile.key (file : SourceFile) : String × String := (file.ns, file.path)

def normalize (path : String) : Except String String :=
  if path.toList.head? = some '/' ∨ '\\' ∈ path.toList ∨
      ((path.toList.splitOn '/').any fun s => s = ['.', '.'] ∨ s = [] ∨ s = ['.']) then
    .error s!"Unsafe source path: {path}"
  else .ok path

namespace Database

/-- Contents that are there are not written again. -/
def addBlob (codec : Codec) (db : Database) (raw : List UInt8) : Database :=
  if (db.blobs.lookup (codec.sha256 raw)).isSome then db
  else { db with blobs := db.blobs ++ [(codec.sha256 raw, ⟨raw.length, codec.deflate raw⟩)] }

def addSource (codec : Codec) (db : Database) (file : SourceFile) : Database :=
  { db with sources := db.sources ++ [(file.key, codec.sha256 file.raw)] }

def execute (db : Database) (statements : List Statement) : Database :=
  { db with tables := statements.foldl Tables.execute db.tables }

/-- `GameDb::exists` -/
def has (db : Database) (ns path : String) : Bool := (db.sources.lookup (ns, path)).isSome

/-- `GameDb::raw` -/
def raw (codec : Codec) (db : Database) (ns path : String) : Except String (List UInt8) :=
  match (db.sources.lookup (ns, path)).bind fun sha => db.blobs.lookup sha with
  | some blob => codec.inflate blob.body
  | none => .error "Query returned no rows"

/-- One blob of `verify_sources`, with the number and the size of those before it. -/
def verifyBlob (codec : Codec) (counts : ℕ × ℕ) (row : String × Blob) : Except String (ℕ × ℕ) := do
  let decoded ← codec.inflate row.2.body
  if decoded.length ≠ row.2.rawLen ∨ codec.sha256 decoded ≠ row.1 then throw "Source roundtrip mismatch"
  return (counts.1 + 1, counts.2 + row.2.rawLen)

def verifySources (codec : Codec) (db : Database) : Except String (ℕ × ℕ) :=
  (db.blobs.insertionSort fun a b => a.1 ≤ b.1).foldlM (verifyBlob codec) (0, 0)

/-- `GameDb::metadata` -/
def metadata (db : Database) (key : String) : Option String := db.metas.lookup key

end Database

section Compiler

variable [Projected.Doubles φ] (serde : Serde φ) (codec : Codec)

/-- `source` -/
def addFile (db : Database) (file : SourceFile) : Except String Database := do
  let path ← normalize file.path
  let db := db.addBlob codec file.raw
  match db.sources.lookup file.key with
  | some previous =>
    if previous = codec.sha256 file.raw then return db
    else throw s!"Conflicting source: {file.ns}/{path}"
  | none =>
    let statements ← capture serde file.ns path file.raw
    return (db.addSource codec file).execute statements

def addFiles (db : Database) (files : List SourceFile) : Except String Database :=
  files.foldlM (addFile serde codec) db

/-! ## Input -/

def stripPrefix (pre s : String) : Option String :=
  if pre.toList.isPrefixOf s.toList then some (String.ofList (s.toList.drop pre.length)) else none

def excelPrefix : String := "zh_CN/gamedata/excel/"

def levelsPrefix : String := "zh_CN/gamedata/levels/"

/-- `candidate_file`: the names under which a file of the input directory is kept. -/
def candidateFile (storyExcel : Bool) (path : String) (raw : List UInt8) : List SourceFile :=
  ⟨"original", path, raw⟩ ::
    match stripPrefix excelPrefix path, stripPrefix levelsPrefix path with
    | some relative, _ => ⟨"excel", relative, raw⟩ :: if storyExcel then [⟨"story", path, raw⟩] else []
    | none, some relative => [⟨"levels", relative, raw⟩]
    | none, none => if (stripPrefix "zh_CN/" path).isSome then [⟨"story", path, raw⟩] else []

/-- An entry of an archive that is no directory. -/
structure ArchiveEntry where
  name : String
  isSymlink : Bool
  raw : List UInt8

def archiveFile (ns pre : String) (entry : ArchiveEntry) : Except String SourceFile :=
  if entry.isSymlink then .error "Source ZIP contains symlink"
  else (Fallible.okOr s!"Unexpected archive path: {entry.name}" (stripPrefix pre entry.name)).map
    fun path => ⟨ns, path, entry.raw⟩

def archive (ns pre : String) (db : Database) (entries : List ArchiveEntry) : Except String Database :=
  entries.foldlM (fun db entry => do addFile serde codec db (← archiveFile ns pre entry)) db

/-- The files of the input directory in the order of the walk, with the story archive in it. -/
structure InputRoot where
  files : List (String × List UInt8)
  story : Option (List ArchiveEntry)

structure Options where
  input : Option InputRoot
  excelZip : Option (List ArchiveEntry)
  levelsZip : Option (List ArchiveEntry)
  storyZip : Option (List ArchiveEntry)
  version : String
  revision : ℕ
  allowIncomplete : Bool

/-- The story archive of the directory takes the place of the story tables in it. -/
def captureRoot (options : Options) (root : InputRoot) (db : Database) : Except String Database := do
  let storyExcel := root.story.isNone && options.storyZip.isNone
  let db ← addFiles serde codec db (root.files.flatMap fun file => candidateFile storyExcel file.1 file.2)
  archive serde codec "story" "" db (root.story.getD [])

def captureInput (options : Options) (db : Database) : Except String Database := do
  let db ← options.input.elim (.ok db) fun root => captureRoot serde codec options root db
  let db ← archive serde codec "excel" excelPrefix db (options.excelZip.getD [])
  let db ← archive serde codec "levels" levelsPrefix db (options.levelsZip.getD [])
  archive serde codec "story" "" db (options.storyZip.getD [])

def requiredExcel : List String :=
  ["character_table.json", "handbook_info_table.json", "charword_table.json",
    "story_review_table.json", "enemy_handbook_table.json", "stage_table.json", "zone_table.json",
    "item_table.json", "building_data.json", "skin_table.json", "skill_table.json"]

def operatorFiles : List String :=
  ["character_table.json", "handbook_info_table.json", "charword_table.json", "story_review_table.json"]

def storyFiles : List String :=
  ["zh_CN/gamedata/excel/story_review_table.json", "zh_CN/storyinfo.json"]

def enemyDatabase : String := "enemydata/enemy_database.json"

def flag (db : Database) (ns : String) (paths : List String) : Bool := paths.all (db.has ns)

def digit (b : Bool) : String := if b then "1" else "0"

/-- The metadata of what was captured. -/
def Database.describe (compilerVersion : String) (options : Options) (db : Database) : Database :=
  { db with metas := [
    ("contract", "prts-mcp-sqlite/v1"),
    ("index_version", "1"),
    ("compiler_version", compilerVersion),
    ("source_version", options.version),
    ("publication_revision", toString options.revision),
    ("language", "zh_CN"),
    ("sources_complete", "1"),
    ("derived_complete", "0"),
    ("excel_available", digit (flag db "excel" operatorFiles)),
    ("levels_available", digit (db.has "levels" enemyDatabase)),
    ("story_available", digit (flag db "story" storyFiles))] }

/-- The sources that are required of a complete input. -/
def require (db : Database) : Except String Unit :=
  match requiredExcel.find? fun path => !db.has "excel" path with
  | some path => .error s!"Missing required Excel source: {path}"
  | none =>
    if !db.has "levels" enemyDatabase || !flag db "story" storyFiles then
      .error "Missing required levels/story source"
    else .ok ()

/-- `capture`, up to the commit of its transaction. -/
def captureSources (compilerVersion : String) (options : Options) : Except String Database := do
  let db ← captureInput serde codec options .empty
  if !options.allowIncomplete then require db
  return db.describe compilerVersion options

end Compiler

/-! ## What a file adds -/

section Archive

variable [Projected.Doubles φ] {serde : Serde φ} {codec : Codec} {db db' : Database} {file : SourceFile}

@[simp]
theorem sources_addBlob (codec : Codec) (db : Database) (raw : List UInt8) :
    (db.addBlob codec raw).sources = db.sources := by
  unfold Database.addBlob
  split <;> rfl

@[simp]
theorem tables_addBlob (codec : Codec) (db : Database) (raw : List UInt8) :
    (db.addBlob codec raw).tables = db.tables := by
  unfold Database.addBlob
  split <;> rfl

def blobRow (codec : Codec) (raw : List UInt8) : String × Blob :=
  (codec.sha256 raw, ⟨raw.length, codec.deflate raw⟩)

def sourceRow (codec : Codec) (file : SourceFile) : (String × String) × String :=
  (file.key, codec.sha256 file.raw)

theorem blobs_addBlob (codec : Codec) (db : Database) (raw : List UInt8) :
    (db.addBlob codec raw).blobs = upsert keep (blobRow codec raw) db.blobs := by
  unfold Database.addBlob
  split
  · next hthere => rw [upsert_keep_of_mem (lookup_isSome_iff.mp hthere)]
  · next hnew => rw [upsert_of_notMem fun hmem => hnew (lookup_isSome_iff.mpr hmem), blobRow]

theorem sources_addSource (hlookup : db.sources.lookup file.key = none) :
    (db.addSource codec file).sources = upsert keep (sourceRow codec file) db.sources := by
  have hnot : (sourceRow codec file).1 ∉ db.sources.map Prod.fst := fun hmem => by
    simpa [sourceRow, hlookup] using lookup_isSome_iff.mpr hmem
  exact (upsert_of_notMem hnot).symm

/-- A file is refused, is there already, or is kept and captured. -/
theorem addFile_eq_ok (h : addFile serde codec db file = .ok db') :
    normalize file.path = .ok file.path ∧
      ((db.sources.lookup file.key = some (codec.sha256 file.raw) ∧ db' = db.addBlob codec file.raw) ∨
        (db.sources.lookup file.key = none ∧ ∃ statements,
          capture serde file.ns file.path file.raw = .ok statements ∧
            db' = ((db.addBlob codec file.raw).addSource codec file).execute statements)) := by
  obtain ⟨path, hpath, h⟩ := Fallible.bind_eq_ok h
  obtain rfl : path = file.path := by
    unfold normalize at hpath
    split at hpath
    · cases hpath
    · exact (Except.ok.inj hpath).symm
  refine ⟨hpath, ?_⟩
  simp only [sources_addBlob] at h
  cases hlookup : db.sources.lookup file.key with
  | some previous =>
    rw [hlookup] at h
    change (if previous = codec.sha256 file.raw then _ else _) = _ at h
    split at h
    · next heq =>
      cases h
      exact .inl ⟨congrArg some heq, rfl⟩
    · cases h
  | none =>
    rw [hlookup] at h
    obtain ⟨statements, hstatements, h⟩ := Fallible.bind_eq_ok h
    cases h
    exact .inr ⟨rfl, statements, hstatements, rfl⟩

theorem addFile_known (hpath : normalize file.path = .ok file.path)
    (hlookup : db.sources.lookup file.key = some (codec.sha256 file.raw)) :
    addFile serde codec db file = .ok (db.addBlob codec file.raw) := by
  simp [addFile, hpath, hlookup, bind, Except.bind, pure, Except.pure]

theorem addFile_new {statements : List Statement} (hpath : normalize file.path = .ok file.path)
    (hlookup : db.sources.lookup file.key = none)
    (hcapture : capture serde file.ns file.path file.raw = .ok statements) :
    addFile serde codec db file =
      .ok (((db.addBlob codec file.raw).addSource codec file).execute statements) := by
  simp [addFile, hpath, hlookup, hcapture, bind, Except.bind, pure, Except.pure]

end Archive

/-! ## What is kept of all files -/

section Runs

variable [Projected.Doubles φ] {serde : Serde φ} {codec : Codec} {db db' : Database} {file : SourceFile}
variable {files others : List SourceFile}

/-- The archive of the files that were added. A file is captured when its path is new. -/
structure Archived (serde : Serde φ) (codec : Codec) (files : List SourceFile) (db : Database) : Prop where
  blobs : db.blobs = upsertAll keep [] (files.map fun file => blobRow codec file.raw)
  sources : db.sources = upsertAll keep [] (files.map (sourceRow codec))
  digest : ∀ file ∈ files, db.sources.lookup file.key = some (codec.sha256 file.raw)
  safe : ∀ file ∈ files, normalize file.path = .ok file.path
  captured : ∀ file ∈ files, ∃ first ∈ files, first.key = file.key ∧
    codec.sha256 first.raw = codec.sha256 file.raw ∧
      ∃ statements, capture serde first.ns first.path first.raw = .ok statements

theorem archived_empty (serde : Serde φ) (codec : Codec) : Archived serde codec [] .empty where
  blobs := rfl
  sources := rfl
  digest _ h := absurd h List.not_mem_nil
  safe _ h := absurd h List.not_mem_nil
  captured _ h := absurd h List.not_mem_nil

theorem lookup_sourceRows (files : List SourceFile) {key : String × String} {sha : String}
    (h : (files.map (sourceRow codec)).lookup key = some sha) :
    ∃ file ∈ files, file.key = key ∧ codec.sha256 file.raw = sha := by
  obtain ⟨before, after, heq, -⟩ := List.lookup_eq_some_iff.mp h
  have hmem : (key, sha) ∈ files.map (sourceRow codec) := by simp [heq]
  obtain ⟨file, hfile, hrow⟩ := List.mem_map.mp hmem
  exact ⟨file, hfile, congrArg Prod.fst hrow, congrArg Prod.snd hrow⟩

theorem Archived.add (h : Archived serde codec files db)
    (hfile : addFile serde codec db file = .ok db') : Archived serde codec (files ++ [file]) db' := by
  have hblobs : upsertAll keep [] ((files ++ [file]).map fun file => blobRow codec file.raw) =
      upsert keep (blobRow codec file.raw) db.blobs := by
    rw [List.map_append, upsertAll_append, h.blobs]
    rfl
  have hsources : upsertAll keep [] ((files ++ [file]).map (sourceRow codec)) =
      upsert keep (sourceRow codec file) db.sources := by
    rw [List.map_append, upsertAll_append, h.sources]
    rfl
  obtain ⟨hsafe, hcase⟩ := addFile_eq_ok hfile
  have hsafes : ∀ f ∈ files ++ [file], normalize f.path = .ok f.path := by
    intro f hf
    rcases List.mem_append.mp hf with hf | hf
    · exact h.safe f hf
    · rwa [List.mem_singleton.mp hf]
  have hkept : ∀ f ∈ files, ∃ first ∈ files ++ [file], first.key = f.key ∧
      codec.sha256 first.raw = codec.sha256 f.raw ∧
        ∃ statements, capture serde first.ns first.path first.raw = .ok statements := by
    intro f hf
    obtain ⟨first, hfirst, hcaptured⟩ := h.captured f hf
    exact ⟨first, List.mem_append_left _ hfirst, hcaptured⟩
  rcases hcase with ⟨hlookup, rfl⟩ | ⟨hlookup, statements, hstatements, rfl⟩
  · refine ⟨?_, ?_, fun f hf => ?_, hsafes, fun f hf => ?_⟩
    · rw [hblobs, blobs_addBlob]
    · rw [hsources, sources_addBlob, upsert_keep_of_mem]
      exact lookup_isSome_iff.mp (by simp [sourceRow, hlookup])
    · rw [sources_addBlob]
      rcases List.mem_append.mp hf with hf | hf
      · exact h.digest f hf
      · rwa [List.mem_singleton.mp hf]
    · rcases List.mem_append.mp hf with hf | hf
      · exact hkept f hf
      · rw [h.sources, lookup_upsertAll_keep, List.nil_append] at hlookup
        obtain ⟨earlier, hearlier, hkey, hsha⟩ := lookup_sourceRows files hlookup
        obtain ⟨first, hfirst, hfirstKey, hfirstSha, hcaptured⟩ := hkept earlier hearlier
        rw [List.mem_singleton.mp hf]
        exact ⟨first, hfirst, hfirstKey.trans hkey, hfirstSha.trans hsha, hcaptured⟩
  · have hadded : (((db.addBlob codec file.raw).addSource codec file).execute statements).sources =
        upsert keep (sourceRow codec file) db.sources := by
      have hnone : (db.addBlob codec file.raw).sources.lookup file.key = none := by
        rwa [sources_addBlob]
      exact (sources_addSource hnone).trans (by rw [sources_addBlob])
    refine ⟨?_, hadded.trans hsources.symm, fun f hf => ?_, hsafes, fun f hf => ?_⟩
    · rw [hblobs]
      exact blobs_addBlob codec db file.raw
    · rw [hadded, lookup_upsert_keep, List.lookup_append]
      rcases List.mem_append.mp hf with hf | hf
      · rw [h.digest f hf, Option.some_or]
      · rw [List.mem_singleton.mp hf, hlookup, Option.none_or]
        simp [sourceRow]
    · rcases List.mem_append.mp hf with hf | hf
      · exact hkept f hf
      · rw [List.mem_singleton.mp hf]
        exact ⟨file, by simp, rfl, rfl, statements, hstatements⟩

theorem addFiles_cons (db : Database) (file : SourceFile) (others : List SourceFile) :
    addFiles serde codec db (file :: others) =
      addFile serde codec db file >>= fun db => addFiles serde codec db others := List.foldlM_cons

theorem Archived.addAll (h : Archived serde codec files db)
    (hrun : addFiles serde codec db others = .ok db') : Archived serde codec (files ++ others) db' := by
  induction others generalizing files db with
  | nil =>
    cases hrun
    simpa using h
  | cons file others ih =>
    rw [addFiles_cons] at hrun
    obtain ⟨next, hfile, hrest⟩ := Fallible.bind_eq_ok hrun
    simpa using ih (h.add hfile) hrest

/-- Files that can be kept side by side. -/
structure Consistent (serde : Serde φ) (files : List SourceFile) : Prop where
  safe : ∀ file ∈ files, normalize file.path = .ok file.path
  captured : ∀ file ∈ files, ∃ statements, capture serde file.ns file.path file.raw = .ok statements
  agree : ∀ file ∈ files, ∀ other ∈ files, file.key = other.key → file.raw = other.raw

/-- The digest tells the contents of the files apart. -/
def Codec.Separates (codec : Codec) (files : List SourceFile) : Prop :=
  ∀ file ∈ files, ∀ other ∈ files, codec.sha256 file.raw = codec.sha256 other.raw → file.raw = other.raw

theorem key_eq {file other : SourceFile} (h : file.key = other.key) :
    file.ns = other.ns ∧ file.path = other.path := by
  simpa [SourceFile.key] using h

theorem Archived.consistent (h : Archived serde codec files db) (hseparates : codec.Separates files) :
    Consistent serde files where
  safe := h.safe
  captured file hfile := by
    obtain ⟨first, hfirst, hkey, hsha, hcaptured⟩ := h.captured file hfile
    rwa [(key_eq hkey).1, (key_eq hkey).2, hseparates first hfirst file hfile hsha] at hcaptured
  agree file hfile other hother hkey := by
    have hdigest := h.digest file hfile
    rw [hkey, h.digest other hother] at hdigest
    exact hseparates file hfile other hother (Option.some.inj hdigest).symm

theorem Archived.extends (h : Archived serde codec files db)
    (hconsistent : Consistent serde (files ++ others)) :
    ∃ db', addFiles serde codec db others = .ok db' := by
  induction others generalizing files db with
  | nil => exact ⟨db, rfl⟩
  | cons file others ih =>
    have hmem : file ∈ files ++ file :: others := by simp
    have hfile : ∃ next, addFile serde codec db file = .ok next := by
      cases hlookup : db.sources.lookup file.key with
      | none =>
        obtain ⟨statements, hstatements⟩ := hconsistent.captured file hmem
        exact ⟨_, addFile_new (hconsistent.safe file hmem) hlookup hstatements⟩
      | some previous =>
        have hrow := hlookup
        rw [h.sources, lookup_upsertAll_keep, List.nil_append] at hrow
        obtain ⟨earlier, hearlier, hkey, hsha⟩ := lookup_sourceRows files hrow
        have hraw := hconsistent.agree earlier (List.mem_append_left _ hearlier) file hmem hkey
        exact ⟨_, addFile_known (hconsistent.safe file hmem) (by rw [hlookup, ← hsha, hraw])⟩
    obtain ⟨next, hnext⟩ := hfile
    obtain ⟨db', hdb'⟩ := ih (h.add hnext) (by simpa using hconsistent)
    refine ⟨db', ?_⟩
    rw [addFiles_cons, hnext]
    exact hdb'

/-- Files are kept exactly if all are safe, can be captured, and agree where their paths do. -/
theorem addFiles_ok_iff (hseparates : codec.Separates files) :
    (∃ db, addFiles serde codec .empty files = .ok db) ↔ Consistent serde files := by
  constructor
  · rintro ⟨db, hrun⟩
    exact ((archived_empty serde codec).addAll hrun).consistent hseparates
  · exact (archived_empty serde codec).extends

/-! ## Reading what is kept -/

/-- The contents that are kept once. -/
def contents (files : List SourceFile) : List (List UInt8) := (files.map SourceFile.raw).dedup

theorem mem_contents {raw : List UInt8} : raw ∈ contents files ↔ ∃ file ∈ files, file.raw = raw := by
  simp [contents]

theorem Codec.Separates.agree (h : codec.Separates files) :
    ∀ row ∈ files.map (fun file => blobRow codec file.raw),
      ∀ other ∈ files.map fun file => blobRow codec file.raw, row.1 = other.1 → row = other := by
  intro row hrow other hother hsha
  obtain ⟨f, hf, rfl⟩ := List.mem_map.mp hrow
  obtain ⟨g, hg, rfl⟩ := List.mem_map.mp hother
  rw [h f hf g hg hsha]

theorem Archived.nodup_blobs (h : Archived serde codec files db) : (db.blobs.map Prod.fst).Nodup := by
  rw [h.blobs]
  exact nodup_upsertAll _ (by simp)

theorem Archived.mem_blobs (h : Archived serde codec files db) (hseparates : codec.Separates files)
    {row : String × Blob} : row ∈ db.blobs ↔ ∃ file ∈ files, blobRow codec file.raw = row := by
  rw [h.blobs, mem_upsertAll_keep hseparates.agree, List.mem_map]

theorem Archived.lookup_blob (h : Archived serde codec files db) (hseparates : codec.Separates files)
    (hfile : file ∈ files) :
    db.blobs.lookup (codec.sha256 file.raw) = some ⟨file.raw.length, codec.deflate file.raw⟩ :=
  (mem_iff_lookup h.nodup_blobs).mp ((h.mem_blobs hseparates).mpr ⟨file, hfile, rfl⟩)

/-- A path reads as the contents of the files under it. -/
theorem Archived.raw_iff (h : Archived serde codec files db) (hlawful : codec.Lawful)
    (hseparates : codec.Separates files) {ns path : String} {raw : List UInt8} :
    db.raw codec ns path = .ok raw ↔ ∃ file ∈ files, file.key = (ns, path) ∧ file.raw = raw := by
  have hread : ∀ file ∈ files, file.key = (ns, path) → db.raw codec ns path = .ok file.raw := by
    intro file hfile hkey
    rw [Database.raw, ← hkey, h.digest file hfile]
    change (match db.blobs.lookup (codec.sha256 file.raw) with
      | some blob => codec.inflate blob.body
      | none => .error "Query returned no rows") = .ok file.raw
    rw [h.lookup_blob hseparates hfile]
    exact hlawful.inflate_deflate file.raw
  constructor
  · intro hraw
    cases hlookup : db.sources.lookup (ns, path) with
    | none =>
      rw [Database.raw, hlookup] at hraw
      cases hraw
    | some sha =>
      rw [h.sources, lookup_upsertAll_keep, List.nil_append] at hlookup
      obtain ⟨file, hfile, hkey, -⟩ := lookup_sourceRows files hlookup
      exact ⟨file, hfile, hkey, Except.ok.inj ((hread file hfile hkey).symm.trans hraw)⟩
  · rintro ⟨file, hfile, hkey, rfl⟩
    exact hread file hfile hkey

theorem Archived.has_iff (h : Archived serde codec files db) {ns path : String} :
    db.has ns path = true ↔ ∃ file ∈ files, file.key = (ns, path) := by
  rw [Database.has]
  constructor
  · intro hsome
    obtain ⟨sha, hlookup⟩ := Option.isSome_iff_exists.mp hsome
    rw [h.sources, lookup_upsertAll_keep, List.nil_append] at hlookup
    obtain ⟨file, hfile, hkey, -⟩ := lookup_sourceRows files hlookup
    exact ⟨file, hfile, hkey⟩
  · rintro ⟨file, hfile, hkey⟩
    rw [← hkey, h.digest file hfile]
    rfl

theorem verify_blobRows (hlawful : codec.Lawful) {rows : List (String × Blob)}
    (h : ∀ row ∈ rows, ∃ raw, blobRow codec raw = row) (counts : ℕ × ℕ) :
    rows.foldlM (Database.verifyBlob codec) counts =
      .ok (counts.1 + rows.length, counts.2 + (rows.map fun row => row.2.rawLen).sum) := by
  induction rows generalizing counts with
  | nil => rfl
  | cons row rows ih =>
    rw [List.forall_mem_cons] at h
    obtain ⟨raw, rfl⟩ := h.1
    have hrow : Database.verifyBlob codec counts (blobRow codec raw) =
        .ok (counts.1 + 1, counts.2 + raw.length) := by
      simp [Database.verifyBlob, blobRow, hlawful.inflate_deflate, bind, Except.bind, pure, Except.pure]
    rw [List.foldlM_cons, hrow]
    refine (ih h.2 _).trans ?_
    simp [blobRow, Nat.add_assoc, Nat.add_comm 1]

/-- The blobs are the contents of the files, each kept once. -/
theorem Archived.perm_blobs (h : Archived serde codec files db) (hseparates : codec.Separates files) :
    db.blobs.Perm ((contents files).map (blobRow codec)) := by
  have hrows : ((contents files).map (blobRow codec)).Nodup := by
    refine List.Nodup.map_on (fun raw hraw other hother heq => ?_) (List.nodup_dedup _)
    obtain ⟨f, hf, rfl⟩ := mem_contents.mp hraw
    obtain ⟨g, hg, rfl⟩ := mem_contents.mp hother
    exact hseparates f hf g hg (congrArg Prod.fst heq)
  rw [List.perm_ext_iff_of_nodup (List.Nodup.of_map _ h.nodup_blobs) hrows]
  intro row
  rw [h.mem_blobs hseparates, List.mem_map]
  simp [mem_contents]

theorem Archived.verifySources (h : Archived serde codec files db) (hlawful : codec.Lawful)
    (hseparates : codec.Separates files) :
    db.verifySources codec = .ok ((contents files).length, ((contents files).map List.length).sum) := by
  have hperm := (List.perm_insertionSort (fun a b : String × Blob => a.1 ≤ b.1) db.blobs).trans
    (h.perm_blobs hseparates)
  have hsize := (hperm.map fun row : String × Blob => row.2.rawLen).sum_eq
  rw [List.map_map] at hsize
  rw [Database.verifySources, verify_blobRows hlawful, hperm.length_eq, hsize]
  · simp [Function.comp_def, blobRow]
  · intro row hrow
    obtain ⟨raw, -, hrow⟩ := List.mem_map.mp (hperm.subset hrow)
    exact ⟨raw, hrow⟩

/-! ## The input as a whole -/

def rootFiles (options : Options) (root : InputRoot) : Except String (List SourceFile) := do
  let storyExcel := root.story.isNone && options.storyZip.isNone
  let story ← (root.story.getD []).mapM (archiveFile "story" "")
  return root.files.flatMap (fun file => candidateFile storyExcel file.1 file.2) ++ story

/-- The files of the input in the order in which they are added. -/
def inputFiles (options : Options) : Except String (List SourceFile) := do
  let root ← options.input.elim (.ok []) (rootFiles options)
  let excel ← (options.excelZip.getD []).mapM (archiveFile "excel" excelPrefix)
  let levels ← (options.levelsZip.getD []).mapM (archiveFile "levels" levelsPrefix)
  let story ← (options.storyZip.getD []).mapM (archiveFile "story" "")
  return root ++ excel ++ levels ++ story

theorem addFiles_append :
    addFiles serde codec db (files ++ others) =
      addFiles serde codec db files >>= fun db => addFiles serde codec db others := List.foldlM_append

theorem archive_eq_ok {ns pre : String} {entries : List ArchiveEntry} :
    archive serde codec ns pre db entries = .ok db' ↔
      ∃ files, entries.mapM (archiveFile ns pre) = .ok files ∧ addFiles serde codec db files = .ok db' :=
  Fallible.foldlM_mapM_eq_ok

theorem bind_eq_ok_iff {ε α β : Type} {x : Except ε α} {f : α → Except ε β} {b : β} :
    x >>= f = .ok b ↔ ∃ a, x = .ok a ∧ f a = .ok b := by
  constructor
  · exact Fallible.bind_eq_ok
  · rintro ⟨a, rfl, h⟩
    exact h

theorem pure_eq_ok_iff {ε α : Type} {a b : α} : (pure a : Except ε α) = .ok b ↔ a = b := by
  simp [pure, Except.pure]

theorem captureRoot_eq_ok {options : Options} {root : InputRoot} :
    captureRoot serde codec options root db = .ok db' ↔
      ∃ files, rootFiles options root = .ok files ∧ addFiles serde codec db files = .ok db' := by
  simp only [captureRoot, rootFiles, bind_eq_ok_iff, archive_eq_ok, pure_eq_ok_iff]
  constructor
  · rintro ⟨next, hroot, story, hstory, hrun⟩
    refine ⟨_, ⟨story, hstory, rfl⟩, ?_⟩
    rw [addFiles_append, bind_eq_ok_iff]
    exact ⟨next, hroot, hrun⟩
  · rintro ⟨_, ⟨story, hstory, rfl⟩, hrun⟩
    rw [addFiles_append, bind_eq_ok_iff] at hrun
    obtain ⟨next, hroot, hrun⟩ := hrun
    exact ⟨next, hroot, story, hstory, hrun⟩

/-- Capturing the input adds its files. -/
theorem captureInput_eq_ok {options : Options} :
    captureInput serde codec options db = .ok db' ↔
      ∃ files, inputFiles options = .ok files ∧ addFiles serde codec db files = .ok db' := by
  have hroot : ∀ next, options.input.elim (.ok db) (fun root => captureRoot serde codec options root db) =
      .ok next ↔ ∃ files, options.input.elim (.ok []) (rootFiles options) = .ok files ∧
        addFiles serde codec db files = .ok next := by
    intro next
    cases options.input with
    | none => simp [addFiles, pure_eq_ok_iff]
    | some root => exact captureRoot_eq_ok
  unfold captureInput inputFiles
  simp only [bind_eq_ok_iff, archive_eq_ok, pure_eq_ok_iff]
  constructor
  · rintro ⟨r, hr, a, ⟨excel, hexcel, ha⟩, b, ⟨levels, hlevels, hb⟩, story, hstory, hc⟩
    obtain ⟨files, hfiles, hr⟩ := (hroot r).mp hr
    refine ⟨_, ⟨files, hfiles, excel, hexcel, levels, hlevels, story, hstory, rfl⟩, ?_⟩
    simp only [addFiles_append, bind_eq_ok_iff]
    exact ⟨b, ⟨a, ⟨r, hr, ha⟩, hb⟩, hc⟩
  · rintro ⟨_, ⟨files, hfiles, excel, hexcel, levels, hlevels, story, hstory, rfl⟩, hrun⟩
    simp only [addFiles_append, bind_eq_ok_iff] at hrun
    obtain ⟨b, ⟨a, ⟨r, hr, ha⟩, hb⟩, hc⟩ := hrun
    exact ⟨r, (hroot r).mpr ⟨files, hfiles, hr⟩, a, ⟨excel, hexcel, ha⟩, b, ⟨levels, hlevels, hb⟩, story,
      hstory, hc⟩

/-- A file of the input is kept under the path. -/
def Has (files : List SourceFile) (ns path : String) : Prop := ∃ file ∈ files, file.key = (ns, path)

/-- The sources of a complete input. -/
structure Complete (files : List SourceFile) : Prop where
  excel : ∀ path ∈ requiredExcel, Has files "excel" path
  levels : Has files "levels" enemyDatabase
  story : ∀ path ∈ storyFiles, Has files "story" path

theorem Archived.flag_iff (h : Archived serde codec files db) {ns : String} {paths : List String} :
    flag db ns paths = true ↔ ∀ path ∈ paths, Has files ns path := by
  rw [flag, List.all_eq_true]
  exact forall₂_congr fun _ _ => h.has_iff

theorem Archived.require_iff (h : Archived serde codec files db) : require db = .ok () ↔ Complete files := by
  rw [require]
  cases hfind : requiredExcel.find? fun path => !db.has "excel" path with
  | some path =>
    have hmissing : db.has "excel" path = false := by simpa using List.find?_some hfind
    have hnot : ¬ Complete files := fun hcomplete => by
      rw [h.has_iff.mpr (hcomplete.excel path (List.mem_of_find?_eq_some hfind))] at hmissing
      cases hmissing
    simp [hnot]
  | none =>
    have hexcel : ∀ path ∈ requiredExcel, Has files "excel" path := by
      intro path hpath
      have hhas := List.find?_eq_none.mp hfind path hpath
      exact h.has_iff.mp (by simpa using hhas)
    by_cases hrest : db.has "levels" enemyDatabase = true ∧ flag db "story" storyFiles = true
    · have hcomplete : Complete files := ⟨hexcel, h.has_iff.mp hrest.1, h.flag_iff.mp hrest.2⟩
      simp [hrest.1, hrest.2, hcomplete]
    · have hnot : ¬ Complete files := fun hcomplete =>
        hrest ⟨h.has_iff.mpr hcomplete.levels, h.flag_iff.mpr hcomplete.story⟩
      have hguard : (!db.has "levels" enemyDatabase || !flag db "story" storyFiles) = true := by
        simpa [Bool.or_eq_true, imp_iff_not_or] using hrest
      simp [hguard, hnot]

/-- What is compiled is the input, complete unless it need not be. -/
theorem captureSources_eq_ok {version : String} {options : Options} :
    captureSources serde codec version options = .ok db ↔
      ∃ files kept, inputFiles options = .ok files ∧ addFiles serde codec .empty files = .ok kept ∧
        (options.allowIncomplete = false → Complete files) ∧ db = kept.describe version options := by
  have hguard : ∀ kept, (do
      if !options.allowIncomplete then require kept
      return kept.describe version options : Except String Database) = .ok db ↔
        (options.allowIncomplete = false → require kept = .ok ()) ∧ db = kept.describe version options := by
    intro kept
    cases options.allowIncomplete with
    | true => simpa [pure_eq_ok_iff] using eq_comm
    | false =>
      cases hrequire : require kept with
      | error e => simp [bind, Except.bind]
      | ok u => simpa [hrequire, pure_eq_ok_iff] using eq_comm
  have hcapture : captureSources serde codec version options = .ok db ↔
      ∃ kept, captureInput serde codec options .empty = .ok kept ∧ (do
        if !options.allowIncomplete then require kept
        return kept.describe version options : Except String Database) = .ok db := bind_eq_ok_iff
  rw [hcapture]
  simp only [hguard, captureInput_eq_ok]
  constructor
  · rintro ⟨kept, ⟨files, hfiles, hrun⟩, hrequire, hdb⟩
    have harchived := (archived_empty serde codec).addAll hrun
    exact ⟨files, kept, hfiles, hrun, fun hno => harchived.require_iff.mp (hrequire hno), hdb⟩
  · rintro ⟨files, kept, hfiles, hrun, hcomplete, hdb⟩
    have harchived := (archived_empty serde codec).addAll hrun
    exact ⟨kept, ⟨files, hfiles, hrun⟩, fun hno => harchived.require_iff.mpr (hcomplete hno), hdb⟩

/-- Two namespaces with one content, and with it no complete input. -/
def twoFiles : Options where
  input := some ⟨[("zh_CN/a.txt", [7]), ("zh_CN/b.txt", [7])], none⟩
  excelZip := none
  levelsZip := none
  storyZip := none
  version := "v1"
  revision := 1
  allowIncomplete := true

/-- The codec, on the content of both. -/
def recordedCodec : Codec where
  sha256 raw := if raw = [7] then "ca358758f6d27e6cf45272937977a748fd88391db679ceda7dc7bf1f005ee879" else ""
  deflate raw := if raw = [7] then [120, 156, 99, 7, 0, 0, 8, 0, 8] else 0 :: raw
  inflate body := .ok (if body = [120, 156, 99, 7, 0, 0, 8, 0, 8] then [7] else body.tail)

theorem lawful_recordedCodec : recordedCodec.Lawful := by
  refine ⟨fun raw => ?_⟩
  by_cases hraw : raw = [7] <;> simp [recordedCodec, hraw]

def noJson : Serde JsNumber := ⟨fun _ => (.fail "no JSON", .ok ()), fun _ => "no text", fun _ => ""⟩

def twoSources : List SourceFile :=
  [⟨"original", "zh_CN/a.txt", [7]⟩, ⟨"story", "zh_CN/a.txt", [7]⟩, ⟨"original", "zh_CN/b.txt", [7]⟩,
    ⟨"story", "zh_CN/b.txt", [7]⟩]

theorem inputFiles_twoFiles : inputFiles twoFiles = .ok twoSources := by
  have hfiles : candidateFile true "zh_CN/a.txt" [7] ++ candidateFile true "zh_CN/b.txt" [7] = twoSources := by
    decide
  rw [← hfiles]
  rfl

theorem separates_twoFiles (files : List SourceFile) (h : inputFiles twoFiles = .ok files) :
    recordedCodec.Separates files := by
  rw [inputFiles_twoFiles] at h
  cases h
  unfold Codec.Separates
  decide

theorem consistent_twoSources : Consistent noJson twoSources := by
  refine ⟨by decide, ?_, by decide⟩
  have hcapture : ∀ file ∈ twoSources, datasetOf file.ns file.path = none := by decide
  intro file hfile
  exact ⟨[], by rw [capture, hcapture file hfile]⟩

end Runs

/-! ## The tables of a dataset -/

section Slices

variable [Projected.Doubles φ] {serde : Serde φ} {codec : Codec} {db db' : Database} {file : SourceFile}
variable {files others : List SourceFile} {dataset : String}

/-- A core table that only one source is captured as. -/
structure IsTable (dataset : String) : Prop where
  core : dataset ∈ core
  single : dataset ≠ "enemy_database"

theorem datasetOf_table (h : IsTable dataset) : datasetOf "excel" (dataset ++ ".json") = some dataset := by
  have hall : ∀ d ∈ core, datasetOf "excel" (d ++ ".json") = some d := by decide
  exact hall dataset h.core

theorem key_of_datasetOf (h : IsTable dataset) {ns path : String} (hdataset : datasetOf ns path = some dataset) :
    (ns, path) = ("excel", dataset ++ ".json") := by
  unfold datasetOf at hdataset
  simp only [Option.ite_none_right_eq_some, Option.some.injEq] at hdataset
  obtain ⟨⟨⟨rfl, hpath⟩ | ⟨-, rfl⟩, -⟩, hstem⟩ := hdataset
  · rw [← hstem, ← hpath]
  · have henemy : fileStem "enemydata/enemy_database.json" = "enemy_database" := by decide
    exact absurd (hstem.symm.trans henemy) h.single

/-- What the tables hold of a dataset: nothing, or what its source compiles to. -/
structure Tabled (serde : Serde φ) (codec : Codec) (dataset : String) (files : List SourceFile)
    (db : Database) : Prop where
  absent : ¬ Has files "excel" (dataset ++ ".json") → db.tables.of dataset = .empty
  present : Has files "excel" (dataset ++ ".json") → ∃ first ∈ files,
    first.key = ("excel", dataset ++ ".json") ∧ ∃ root,
      rootOf serde "excel" (dataset ++ ".json") first.raw = .ok root ∧
        db.tables.of dataset = compiled serde dataset root

theorem has_snoc {ns path : String} : Has (files ++ [file]) ns path ↔ Has files ns path ∨ file.key = (ns, path) := by
  simp [Has, or_and_right, exists_or]

theorem Tabled.add (ht : IsTable dataset) (harchived : Archived serde codec files db)
    (h : Tabled serde codec dataset files db) (hfile : addFile serde codec db file = .ok db') :
    Tabled serde codec dataset (files ++ [file]) db' := by
  have hold : ∀ tables : Tables, tables.of dataset = db.tables.of dataset →
      (file.key = ("excel", dataset ++ ".json") → Has files "excel" (dataset ++ ".json")) →
        db'.tables = tables → Tabled serde codec dataset (files ++ [file]) db' := by
    rintro tables hsame hknown rfl
    refine ⟨fun hnot => ?_, fun hhas => ?_⟩
    · rw [hsame]
      exact h.absent fun hhas => hnot (has_snoc.mpr (.inl hhas))
    · obtain ⟨first, hfirst, hkey, hroot⟩ := h.present ((has_snoc.mp hhas).elim id hknown)
      exact ⟨first, List.mem_append_left _ hfirst, hkey, hsame ▸ hroot⟩
  obtain ⟨-, ⟨hlookup, rfl⟩ | ⟨hlookup, statements, hstatements, rfl⟩⟩ := addFile_eq_ok hfile
  · refine hold db.tables rfl (fun hkey => ?_) (tables_addBlob codec db file.raw)
    rw [harchived.sources, lookup_upsertAll_keep, List.nil_append] at hlookup
    obtain ⟨earlier, hearlier, hearlierKey, -⟩ := lookup_sourceRows files hlookup
    exact ⟨earlier, hearlier, hearlierKey.trans hkey⟩
  · have htables : (((db.addBlob codec file.raw).addSource codec file).execute statements).tables =
        db.tables.run statements := by
      change Tables.run (db.addBlob codec file.raw).tables statements = _
      rw [tables_addBlob]
    have hfresh : ¬ Has files file.ns file.path := fun hhas => by
      have hhere : (db.sources.lookup file.key).isSome = true := harchived.has_iff.mpr hhas
      rw [hlookup] at hhere
      cases hhere
    by_cases hkey : file.key = ("excel", dataset ++ ".json")
    · obtain ⟨hns, hpath⟩ : file.ns = "excel" ∧ file.path = dataset ++ ".json" := by
        simpa [SourceFile.key] using hkey
      have hcapture := hstatements
      rw [hns, hpath, capture, datasetOf_table ht] at hcapture
      obtain ⟨root, hroot, rfl⟩ := Fallible.map_eq_ok hcapture
      refine ⟨fun hnot => absurd (has_snoc.mpr (.inr hkey)) hnot, fun _ => ?_⟩
      refine ⟨file, by simp, hkey, root, hroot, ?_⟩
      rw [htables, Tables.of_run_self fun _ => dataset_captureRoot,
        h.absent (by rwa [hns, hpath] at hfresh)]
      rfl
    · refine hold (db.tables.run statements) ?_ (fun heq => absurd heq hkey) htables
      refine Tables.of_run_other (fun statement hstatement heq => ?_) db.tables
      rw [capture] at hstatements
      cases hdataset : datasetOf file.ns file.path with
      | none =>
        rw [hdataset] at hstatements
        cases hstatements
        cases hstatement
      | some other =>
        rw [hdataset] at hstatements
        obtain ⟨root, -, rfl⟩ := Fallible.map_eq_ok hstatements
        rw [dataset_captureRoot hstatement] at heq
        exact hkey (key_of_datasetOf ht (heq ▸ hdataset))

theorem Tabled.addAll (ht : IsTable dataset) (harchived : Archived serde codec files db)
    (h : Tabled serde codec dataset files db) (hrun : addFiles serde codec db others = .ok db') :
    Tabled serde codec dataset (files ++ others) db' := by
  induction others generalizing files db with
  | nil =>
    cases hrun
    simpa using h
  | cons file others ih =>
    rw [addFiles_cons] at hrun
    obtain ⟨next, hfile, hrest⟩ := Fallible.bind_eq_ok hrun
    simpa using ih (harchived.add hfile) (h.add ht harchived hfile) hrest

theorem tabled_of_addFiles (ht : IsTable dataset) (hrun : addFiles serde codec .empty files = .ok db) :
    Tabled serde codec dataset files db := by
  have hempty : Tabled serde codec dataset [] .empty := by
    refine ⟨fun _ => rfl, ?_⟩
    rintro ⟨_, hmem, -⟩
    cases hmem
  simpa using hempty.addAll ht (archived_empty serde codec) hrun

end Slices

end PrtsMcp.CompiledSources
