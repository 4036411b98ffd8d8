import PrtsMcp.FrozenReads
import PrtsMcp.StoryBlocks
import PrtsMcp.Tables
import PrtsMcp.Upserts

/-!
# Compiled entities

The data compiler splits the core tables of the game data into rows, an entity to each, with the
names of the operators, enemies and items beside them. Queries of the database put single entries,
or all that belong to one operator, together again.
-/
namespace PrtsMcp.CompiledEntities

open Projected (Parser parseValue)
open Upserts

variable {φ : Type}

/-! ## JSON texts -/

/-- `serde_json`, with the messages of its errors. -/
structure Serde (φ : Type) where
  parser : Parser φ String
  notUtf8 : List UInt8 → String
  print : JsonValue φ → String

section

variable [Projected.Doubles φ]

def Serde.fromStr (serde : Serde φ) (text : String) : Except String (JsonValue φ) :=
  Projected.fromStr parseValue serde.parser text

/-- `from_slice`: bytes that are no text are no JSON. -/
def Serde.fromSlice (serde : Serde φ) (raw : List UInt8) : Except String (JsonValue φ) :=
  match StoryBlocks.fromUtf8 raw with
  | some text => serde.fromStr text
  | none => .error (serde.notUtf8 raw)

end

/-! ## Rows -/

/-- Dataset, bucket and key. -/
abbrev EntityKey := String × String × String

structure EntityRow where
  ordinal : ℕ
  payload : String
  aux : Option String
  deriving DecidableEq, Repr

structure NameRow where
  key : String
  ordinal : ℕ
  deriving DecidableEq, Repr

/-- An insertion of the compiler. Names are keyed by the dataset and the name. -/
inductive Statement where
  | entity (key : EntityKey) (row : EntityRow)
  | name (key : String × String) (row : NameRow)
  deriving DecidableEq, Repr

/-- `DO UPDATE SET payload=excluded.payload,aux=excluded.aux` -/
def updateEntity (old new : EntityRow) : EntityRow := { new with ordinal := old.ordinal }

/-- `DO UPDATE SET key=excluded.key` -/
def updateName (old new : NameRow) : NameRow := { new with ordinal := old.ordinal }

/-- The tables of a database that operator queries read. -/
structure Tables where
  entities : List (EntityKey × EntityRow)
  names : List ((String × String) × NameRow)

def Tables.empty : Tables := ⟨[], []⟩

def Tables.execute (tables : Tables) : Statement → Tables
  | .entity key row => { tables with entities := upsert updateEntity (key, row) tables.entities }
  | .name key row => { tables with names := upsert updateName (key, row) tables.names }

/-! ## The compiler -/

def core : List String :=
  ["character_table", "handbook_info_table", "charword_table", "story_review_table",
    "enemy_handbook_table", "stage_table", "zone_table", "item_table", "building_data", "skin_table",
    "skill_table", "enemy_database"]

def direct : List String := ["character_table", "skill_table", "story_review_table"]

/-- `Path::file_stem` of a normalised path: its last component up to the last dot, unless that is the
first character. -/
def fileStem (path : String) : String :=
  let name := (path.toList.splitOn '/').getLast?.getD []
  let stem := (name.rdropWhile (· ≠ '.')).dropLast
  String.ofList (if stem = [] then name else stem)

def strOf (value : JsonValue φ) (key : String) : Option String := (value.get key).bind JsonValue.asStr

def isOperator (key : String) : Bool := "char_".toList.isPrefixOf key.toList

section Compiler

variable (serde : Serde φ)

def entity (dataset bucket key : String) (ordinal : ℕ) (value : JsonValue φ) (aux : Option String) :
    Statement :=
  .entity (dataset, bucket, key) ⟨ordinal, serde.print value, aux⟩

def name (dataset key : String) (ordinal : ℕ) (value : JsonValue φ) : List Statement :=
  (strOf value "name").toList.map fun name => .name (dataset, name) ⟨key, ordinal⟩

/-- An entry of a bucket. -/
def captureNested (dataset bucket : String) (entry : (String × JsonValue φ) × ℕ) : List Statement :=
  let ((key, value), ordinal) := entry
  let aux := ((value.get "charId").or (value.get "zoneId")).bind JsonValue.asStr
  let named := (dataset = "enemy_handbook_table" ∧ bucket = "enemyData") ∨
    (dataset = "item_table" ∧ bucket = "items")
  entity serde dataset bucket key ordinal value aux :: (if named then name dataset key ordinal value else [])

/-- An entry of a table other than the enemy database. -/
def captureEntry (dataset : String) (entry : (String × JsonValue φ) × ℕ) : List Statement :=
  let ((key, value), ordinal) := entry
  if direct.contains dataset then
    let named := dataset = "character_table" ∧ isOperator key
    entity serde dataset "" key ordinal value (strOf value "name") ::
      (if named then name dataset key ordinal value else [])
  else
    match value with
    | .object entries => entries.zipIdx.flatMap (captureNested serde dataset key)
    | value => [entity serde dataset "" key ordinal value none]

/-- A row of the legacy enemy database; one without a key is passed over. -/
def captureLegacy (entry : JsonValue φ × ℕ) : List Statement :=
  match strOf entry.1 "Key", entry.1.get "Value" with
  | some key, some value =>
    if key = "" then [] else [entity serde "enemy_database" "" key entry.2 value none]
  | _, _ => []

def captureRoot (dataset : String) (root : List (String × JsonValue φ)) : List Statement :=
  if dataset = "enemy_database" then
    match (root.lookup "enemies").bind JsonValue.asArray with
    | some rows => rows.zipIdx.flatMap (captureLegacy serde)
    | none => root.zipIdx.map fun entry => entity serde dataset "" entry.1.1 entry.2 entry.1.2 none
  else root.zipIdx.flatMap (captureEntry serde dataset)

variable [Projected.Doubles φ]

/-- The root of a core table. -/
def rootOf (ns path : String) (raw : List UInt8) : Except String (List (String × JsonValue φ)) := do
  let root ← (serde.fromSlice raw).mapError fun e => s!"Invalid {ns}/{path}: {e}"
  Fallible.okOr s!"Expected object in {ns}/{path}" root.asObject

/-- The dataset that a source is captured as, if it is a core table. -/
def datasetOf (ns path : String) : Option String :=
  let dataset := fileStem path
  let selected := (ns = "excel" ∧ path = dataset ++ ".json") ∨
    (ns = "levels" ∧ path = "enemydata/enemy_database.json")
  if selected ∧ core.contains dataset then some dataset else none

/-- `entities::capture`, the statements in the order of their execution. -/
def capture (ns path : String) (raw : List UInt8) : Except String (List Statement) :=
  match datasetOf ns path with
  | none => .ok []
  | some dataset => (rootOf serde ns path raw).map (captureRoot serde dataset)

end Compiler

/-! ## Queries -/

namespace Tables

variable [Projected.Doubles φ] (serde : Serde φ) (tables : Tables)

/-- `GameDb::entity` -/
def entity (dataset bucket key : String) : Except String (Option (JsonValue φ)) :=
  (tables.entities.lookup (dataset, bucket, key)).mapM fun row => serde.fromStr row.payload

/-- The rows of `entity_map`. -/
def entityRows (dataset bucket : String) (key aux : Option String) : List (EntityKey × EntityRow) :=
  (tables.entities.filter fun entry =>
    entry.1.1 = dataset ∧ entry.1.2.1 = bucket ∧ (∀ k ∈ key, entry.1.2.2 = k) ∧
      ∀ a ∈ aux, entry.2.aux = some a).insertionSort fun a b => a.2.ordinal ≤ b.2.ordinal

/-- `GameDb::entity_map` -/
def entityMap (dataset bucket : String) (key aux : Option String) :
    Except String (List (String × JsonValue φ)) :=
  (tables.entityRows dataset bucket key aux).foldlM
    (fun map entry => do return OrderedMap.insert entry.1.2.2 (← serde.fromStr entry.2.payload) map) []

/-- `GameDb::names` -/
def namesOf (dataset : String) : List (String × String) :=
  ((tables.names.filter fun entry => entry.1.1 = dataset).insertionSort fun a b =>
    a.2.ordinal ≤ b.2.ordinal).map fun entry => (entry.1.2, entry.2.key)

/-- `GameDb::name_id` -/
def nameId (dataset name : String) : Option String :=
  (tables.names.lookup (dataset, name)).map NameRow.key

end Tables

/-! ## Statements by dataset -/

def Statement.dataset : Statement → String
  | .entity key _ => key.1
  | .name key _ => key.1

def Statement.entity? : Statement → Option (EntityKey × EntityRow)
  | .entity key row => some (key, row)
  | .name _ _ => none

def Statement.name? : Statement → Option ((String × String) × NameRow)
  | .entity _ _ => none
  | .name key row => some (key, row)

namespace Tables

def run (tables : Tables) (statements : List Statement) : Tables := statements.foldl execute tables

/-- The rows of a dataset. -/
def of (tables : Tables) (dataset : String) : Tables :=
  ⟨tables.entities.filter fun entry => entry.1.1 = dataset,
    tables.names.filter fun entry => entry.1.1 = dataset⟩

theorem of_empty (dataset : String) : empty.of dataset = empty := rfl

theorem run_append (tables : Tables) (statements others : List Statement) :
    tables.run (statements ++ others) = (tables.run statements).run others :=
  List.foldl_append

theorem entities_run (tables : Tables) (statements : List Statement) :
    (tables.run statements).entities =
      upsertAll updateEntity tables.entities (statements.filterMap Statement.entity?) := by
  induction statements generalizing tables with
  | nil => rfl
  | cons statement statements ih =>
    change ((tables.execute statement).run statements).entities = _
    rw [ih]
    cases statement <;> rfl

theorem names_run (tables : Tables) (statements : List Statement) :
    (tables.run statements).names =
      upsertAll updateName tables.names (statements.filterMap Statement.name?) := by
  induction statements generalizing tables with
  | nil => rfl
  | cons statement statements ih =>
    change ((tables.execute statement).run statements).names = _
    rw [ih]
    cases statement <;> rfl

/-- The rows of a dataset come from the statements about it. -/
theorem of_execute (tables : Tables) (statement : Statement) (dataset : String) :
    (tables.execute statement).of dataset =
      if statement.dataset = dataset then (tables.of dataset).execute statement else tables.of dataset := by
  cases statement with
  | entity key row =>
    have hfilter := filter_upsert updateEntity (key, row) tables.entities
      fun key => decide (key.1 = dataset)
    by_cases h : key.1 = dataset <;> simp [of, execute, Statement.dataset, hfilter, h]
  | name key row =>
    have hfilter := filter_upsert updateName (key, row) tables.names
      fun key => decide (key.1 = dataset)
    by_cases h : key.1 = dataset <;> simp [of, execute, Statement.dataset, hfilter, h]

theorem of_run_self {statements : List Statement} {dataset : String}
    (h : ∀ statement ∈ statements, statement.dataset = dataset) (tables : Tables) :
    (tables.run statements).of dataset = (tables.of dataset).run statements := by
  induction statements generalizing tables with
  | nil => rfl
  | cons statement statements ih =>
    rw [List.forall_mem_cons] at h
    change ((tables.execute statement).run statements).of dataset = _
    rw [ih h.2, of_execute, if_pos h.1]
    rfl

theorem of_run_other {statements : List Statement} {dataset : String}
    (h : ∀ statement ∈ statements, statement.dataset ≠ dataset) (tables : Tables) :
    (tables.run statements).of dataset = tables.of dataset := by
  induction statements generalizing tables with
  | nil => rfl
  | cons statement statements ih =>
    rw [List.forall_mem_cons] at h
    change ((tables.execute statement).run statements).of dataset = _
    rw [ih h.2, of_execute, if_neg h.1]

end Tables

theorem dataset_name {dataset key : String} {ordinal : ℕ} {value : JsonValue φ} {statement : Statement}
    (h : statement ∈ name dataset key ordinal value) : statement.dataset = dataset := by
  obtain ⟨_, _, rfl⟩ := List.mem_map.mp h
  rfl

theorem dataset_captureNested {serde : Serde φ} {dataset bucket : String}
    {entry : (String × JsonValue φ) × ℕ} {statement : Statement}
    (h : statement ∈ captureNested serde dataset bucket entry) : statement.dataset = dataset := by
  rcases List.mem_cons.mp h with rfl | h
  · rfl
  · split at h
    · exact dataset_name h
    · cases h

theorem dataset_captureEntry {serde : Serde φ} {dataset : String} {entry : (String × JsonValue φ) × ℕ}
    {statement : Statement} (h : statement ∈ captureEntry serde dataset entry) :
    statement.dataset = dataset := by
  obtain ⟨⟨key, value⟩, ordinal⟩ := entry
  simp only [captureEntry] at h
  split at h
  · rcases List.mem_cons.mp h with rfl | h
    · rfl
    · split at h
      · exact dataset_name h
      · cases h
  · split at h
    · obtain ⟨_, _, h⟩ := List.mem_flatMap.mp h
      exact dataset_captureNested h
    · rw [List.mem_singleton.mp h]
      rfl

/-- The statements of a table are about its dataset. -/
theorem dataset_captureRoot {serde : Serde φ} {dataset : String} {root : List (String × JsonValue φ)}
    {statement : Statement} (h : statement ∈ captureRoot serde dataset root) :
    statement.dataset = dataset := by
  simp only [captureRoot] at h
  split at h
  · next hdataset =>
    split at h
    · obtain ⟨⟨row, ordinal⟩, _, h⟩ := List.mem_flatMap.mp h
      simp only [captureLegacy] at h
      split at h
      · split at h
        · cases h
        · rw [List.mem_singleton.mp h, hdataset]
          rfl
      · cases h
    · obtain ⟨_, _, rfl⟩ := List.mem_map.mp h
      rfl
  · obtain ⟨_, _, h⟩ := List.mem_flatMap.mp h
    exact dataset_captureEntry h

/-! ## The rows of a table -/

/-- What a table compiles to. -/
def compiled (serde : Serde φ) (dataset : String) (root : List (String × JsonValue φ)) : Tables :=
  Tables.empty.run (captureRoot serde dataset root)

/-- The row of an entry of a bucket. -/
def bucketRow (serde : Serde φ) (dataset bucket : String) (aux : JsonValue φ → Option String)
    (entry : (String × JsonValue φ) × ℕ) : EntityKey × EntityRow :=
  ((dataset, bucket, entry.1.1), ⟨entry.2, serde.print entry.1.2, aux entry.1.2⟩)

/-- A bucket holds the entries, in their order. -/
def Tables.Holds (tables : Tables) (serde : Serde φ) (dataset bucket : String)
    (aux : JsonValue φ → Option String) (entries : List (String × JsonValue φ)) : Prop :=
  (tables.entities.filter fun entry => entry.1.1 = dataset ∧ entry.1.2.1 = bucket) =
    entries.zipIdx.map (bucketRow serde dataset bucket aux)

def nestedAux (value : JsonValue φ) : Option String :=
  ((value.get "charId").or (value.get "zoneId")).bind JsonValue.asStr

/-- The entries of a field of a table, if that is an object. -/
def entriesIn (root : List (String × JsonValue φ)) (bucket : String) : List (String × JsonValue φ) :=
  ((root.lookup bucket).bind JsonValue.asObject).getD []

section Rows

variable {serde : Serde φ} {dataset bucket : String} {root : List (String × JsonValue φ)}

theorem entity?_name (dataset key : String) (ordinal : ℕ) (value : JsonValue φ) :
    (name dataset key ordinal value).filterMap Statement.entity? = [] := by
  rw [List.filterMap_eq_nil_iff]
  intro statement h
  obtain ⟨_, _, rfl⟩ := List.mem_map.mp h
  rfl

theorem entity?_captureNested (entry : (String × JsonValue φ) × ℕ) :
    (captureNested serde dataset bucket entry).filterMap Statement.entity? =
      [bucketRow serde dataset bucket nestedAux entry] := by
  obtain ⟨⟨key, value⟩, ordinal⟩ := entry
  simp only [captureNested, List.filterMap_cons]
  split_ifs <;> simp [entity?_name, Statement.entity?, CompiledEntities.entity, bucketRow, nestedAux]

/-- The rows of an entry of a table with buckets. -/
def entryRows (serde : Serde φ) (dataset : String) (entry : (String × JsonValue φ) × ℕ) :
    List (EntityKey × EntityRow) :=
  match entry.1.2 with
  | .object entries => entries.zipIdx.map (bucketRow serde dataset entry.1.1 nestedAux)
  | value => [((dataset, "", entry.1.1), ⟨entry.2, serde.print value, none⟩)]

theorem entity?_captureEntry (hdirect : direct.contains dataset = false)
    (entry : (String × JsonValue φ) × ℕ) :
    (captureEntry serde dataset entry).filterMap Statement.entity? = entryRows serde dataset entry := by
  obtain ⟨⟨key, value⟩, ordinal⟩ := entry
  simp only [captureEntry, hdirect, Bool.false_eq_true, if_false, entryRows]
  cases value with
  | object entries =>
    rw [List.filterMap_flatMap]
    change _ = entries.zipIdx.map (bucketRow serde dataset key nestedAux)
    rw [List.map_eq_flatMap]
    congr 1
    funext entry
    exact entity?_captureNested entry
  | null | bool | number | string | array => rfl

theorem nodup_bucketRows {entries : List (String × JsonValue φ)} (h : (entries.map Prod.fst).Nodup)
    (aux : JsonValue φ → Option String) :
    ((entries.zipIdx.map (bucketRow serde dataset bucket aux)).map Prod.fst).Nodup := by
  have hkeys : (entries.zipIdx.map (bucketRow serde dataset bucket aux)).map Prod.fst =
      (entries.map Prod.fst).map fun key => (dataset, bucket, key) := by
    conv_rhs => rw [← List.zipIdx_map_fst 0 entries, List.map_map, List.map_map]
    rw [List.map_map]
    rfl
  rw [hkeys]
  exact h.map fun a b heq => by simpa using heq

/-- A direct table is one bucket. -/
theorem holds_direct (hdirect : direct.contains dataset) (h : (root.map Prod.fst).Nodup) :
    (compiled serde dataset root).Holds serde dataset "" (strOf · "name") root := by
  have hne : dataset ≠ "enemy_database" := by
    rintro rfl
    exact absurd hdirect (by decide)
  have hrows : (captureRoot serde dataset root).filterMap Statement.entity? =
      root.zipIdx.map (bucketRow serde dataset "" (strOf · "name")) := by
    rw [captureRoot, if_neg hne, List.filterMap_flatMap, List.map_eq_flatMap]
    congr 1
    funext entry
    obtain ⟨⟨key, value⟩, ordinal⟩ := entry
    simp only [captureEntry, hdirect, if_true, List.filterMap_cons]
    split_ifs <;> simp [entity?_name, Statement.entity?, CompiledEntities.entity, bucketRow]
  rw [Tables.Holds, compiled, Tables.entities_run, hrows]
  change List.filter _ (upsertAll updateEntity [] _) = _
  rw [upsertAll_of_nodup (nodup_bucketRows h _), List.nil_append, List.filter_eq_self]
  intro row hrow
  obtain ⟨_, _, rfl⟩ := List.mem_map.mp hrow
  simp [bucketRow]

theorem filter_entryRows (hbucket : bucket ≠ "") (h : (root.map Prod.fst).Nodup) (n : ℕ) :
    (((root.zipIdx n).flatMap (entryRows serde dataset)).filter fun row =>
        row.1.1 = dataset ∧ row.1.2.1 = bucket) =
      (entriesIn root bucket).zipIdx.map (bucketRow serde dataset bucket nestedAux) := by
  induction root generalizing n with
  | nil => rfl
  | cons entry root ih =>
    obtain ⟨key, value⟩ := entry
    obtain ⟨hnot, hnodup⟩ := List.nodup_cons.mp h
    rw [List.zipIdx_cons, List.flatMap_cons, List.filter_append, ih hnodup]
    by_cases hkey : key = bucket
    · subst hkey
      have hlookup : root.lookup key = none := by
        rw [List.lookup_eq_none_iff]
        intro entry hentry
        exact bne_iff_ne.mpr fun heq => hnot (List.mem_map.mpr ⟨entry, hentry, heq.symm⟩)
      cases value with
      | object entries =>
        simp [entryRows, hlookup, entriesIn, JsonValue.asObject, List.filter_map, Function.comp_def, bucketRow]
      | null | bool | number | string | array =>
        simp [entryRows, hlookup, entriesIn, JsonValue.asObject, hbucket.symm]
    · have hlookup : entriesIn ((key, value) :: root) bucket = entriesIn root bucket := by
        rw [entriesIn, List.lookup_cons, beq_false_of_ne fun heq => hkey heq.symm]
        rfl
      rw [hlookup]
      cases value with
      | object entries => simp [entryRows, List.filter_map, Function.comp_def, bucketRow, hkey]
      | null | bool | number | string | array => simp [entryRows, hbucket.symm]

/-- The field of a table is a bucket of it. -/
theorem holds_bucket (hdirect : direct.contains dataset = false) (hne : dataset ≠ "enemy_database")
    (hbucket : bucket ≠ "") (h : (root.map Prod.fst).Nodup)
    (hentries : ((entriesIn root bucket).map Prod.fst).Nodup) :
    (compiled serde dataset root).Holds serde dataset bucket nestedAux (entriesIn root bucket) := by
  have hrows : (captureRoot serde dataset root).filterMap Statement.entity? =
      root.zipIdx.flatMap (entryRows serde dataset) := by
    rw [captureRoot, if_neg hne, List.filterMap_flatMap]
    congr 1
    funext entry
    exact entity?_captureEntry hdirect entry
  have hfilter := filter_upsertAll updateEntity [] (root.zipIdx.flatMap (entryRows serde dataset))
    fun key => decide (key.1 = dataset ∧ key.2.1 = bucket)
  rw [filter_entryRows hbucket h] at hfilter
  rw [Tables.Holds, compiled, Tables.entities_run, hrows]
  refine hfilter.trans ?_
  exact upsertAll_of_nodup (nodup_bucketRows hentries _)

end Rows

/-! ## What queries read -/

section Queries

variable [Projected.Doubles φ] {serde : Serde φ} {tables : Tables} {dataset bucket : String}
variable {aux : JsonValue φ → Option String} {entries : List (String × JsonValue φ)}

/-- A value that is printed is read as itself. -/
def Serde.Rereads (serde : Serde φ) (value : JsonValue φ) : Prop :=
  serde.fromStr (serde.print value) = .ok value

theorem foldlM_bucketRows {rows : List ((String × JsonValue φ) × ℕ)}
    (hread : ∀ row ∈ rows, serde.Rereads row.1.2) (map : List (String × JsonValue φ)) :
    ((rows.map (bucketRow serde dataset bucket aux)).foldlM
      (fun map entry => do return OrderedMap.insert entry.1.2.2 (← serde.fromStr entry.2.payload) map) map) =
      .ok ((rows.map Prod.fst).foldl (fun map entry => OrderedMap.insert entry.1 entry.2 map) map) := by
  induction rows generalizing map with
  | nil => rfl
  | cons row rows ih =>
    rw [List.forall_mem_cons] at hread
    have hrow : serde.fromStr (serde.print row.1.2) = .ok row.1.2 := hread.1
    rw [List.map_cons, List.foldlM_cons]
    simp only [bucketRow, hrow, bind, Except.bind, pure, Except.pure]
    exact ih hread.2 _

/-- `entity_map` gives the selected entries of a bucket in their order. -/
theorem Tables.Holds.entityMap (h : tables.Holds serde dataset bucket aux entries)
    (hnodup : (entries.map Prod.fst).Nodup) (hread : ∀ entry ∈ entries, serde.Rereads entry.2)
    (key a : Option String) :
    tables.entityMap serde dataset bucket key a = .ok (entries.filter fun entry =>
      (∀ k ∈ key, entry.1 = k) ∧ ∀ x ∈ a, aux entry.2 = some x) := by
  let selects : String × JsonValue φ → Bool := fun entry =>
    (∀ k ∈ key, entry.1 = k) ∧ ∀ x ∈ a, aux entry.2 = some x
  let rows := entries.zipIdx.filter fun entry => selects entry.1
  have hrows : (tables.entities.filter fun entry => entry.1.1 = dataset ∧ entry.1.2.1 = bucket ∧
      (∀ k ∈ key, entry.1.2.2 = k) ∧ ∀ x ∈ a, entry.2.aux = some x) =
      rows.map (bucketRow serde dataset bucket aux) := by
    have hsplit : (tables.entities.filter fun entry => entry.1.1 = dataset ∧ entry.1.2.1 = bucket ∧
        (∀ k ∈ key, entry.1.2.2 = k) ∧ ∀ x ∈ a, entry.2.aux = some x) =
        (tables.entities.filter fun entry => entry.1.1 = dataset ∧ entry.1.2.1 = bucket).filter fun entry =>
          (∀ k ∈ key, entry.1.2.2 = k) ∧ ∀ x ∈ a, entry.2.aux = some x := by
      rw [List.filter_filter]
      congr 1
      funext entry
      simp only [← Bool.decide_and, decide_eq_decide]
      tauto
    rw [hsplit, h, List.filter_map]
    rfl
  have hsorted : (rows.map (bucketRow serde dataset bucket aux)).Pairwise fun a b =>
      a.2.ordinal ≤ b.2.ordinal := by
    rw [List.pairwise_map]
    exact ((Tables.pairwise_place entries).filter _).imp fun hlt => hlt.le
  have hfst : rows.map Prod.fst = entries.filter selects := Tables.filter_zipIdx_fst entries selects
  have hsub : (entries.filter selects).map Prod.fst |>.Nodup :=
    hnodup.sublist (List.filter_sublist.map Prod.fst)
  have hrereads : ∀ row ∈ rows, serde.Rereads row.1.2 := by
    intro row hrow
    have hmem : row.1 ∈ entries.filter selects := hfst ▸ List.mem_map_of_mem hrow
    exact hread _ (List.mem_of_mem_filter hmem)
  rw [CompiledEntities.Tables.entityMap, entityRows, hrows, hsorted.insertionSort_eq,
    foldlM_bucketRows hrereads, hfst, OrderedMap.foldl_insert_of_nodup _ [] (by simpa using hsub),
    List.nil_append]

/-- An entry by its key, if the bucket has it. -/
theorem Tables.Holds.entityMap_key (h : tables.Holds serde dataset bucket aux entries)
    (hnodup : (entries.map Prod.fst).Nodup) (hread : ∀ entry ∈ entries, serde.Rereads entry.2) (key : String) :
    tables.entityMap serde dataset bucket (some key) none =
      .ok ((entries.lookup key).map (Prod.mk key)).toList := by
  rw [h.entityMap hnodup hread, ← OrderedMap.filter_key_of_nodup hnodup]
  simp

omit [Projected.Doubles φ] in
theorem lookup_bucketRows (key : String) (n : ℕ) :
    (((entries.zipIdx n).map (bucketRow serde dataset bucket aux)).lookup (dataset, bucket, key)).map
      EntityRow.payload = (entries.lookup key).map serde.print := by
  induction entries generalizing n with
  | nil => rfl
  | cons entry entries ih =>
    rw [List.zipIdx_cons, List.map_cons, List.lookup_cons, List.lookup_cons]
    by_cases hkey : key = entry.1
    · simp [hkey, bucketRow]
    · have hne : ((dataset, bucket, key) == (bucketRow serde dataset bucket aux (entry, n)).1) = false :=
        beq_false_of_ne fun heq => hkey (by simpa [bucketRow] using heq)
      rw [hne, beq_false_of_ne hkey]
      exact ih (n + 1)

theorem Tables.Holds.entity (h : tables.Holds serde dataset bucket aux entries)
    (hread : ∀ entry ∈ entries, serde.Rereads entry.2) (key : String) :
    tables.entity serde dataset bucket key = .ok (entries.lookup key) := by
  have hlookup := Upserts.lookup_filter_keys (fun key : EntityKey => decide (key.1 = dataset ∧ key.2.1 = bucket))
    (dataset, bucket, key) (by simp) tables.entities
  have hrow : ((entries.zipIdx.map (bucketRow serde dataset bucket aux)).lookup (dataset, bucket, key)).map
      EntityRow.payload = (entries.lookup key).map serde.print := lookup_bucketRows key 0
  rw [← h, hlookup] at hrow
  rw [CompiledEntities.Tables.entity]
  cases hvalue : entries.lookup key with
  | none =>
    rw [hvalue, Option.map_none, Option.map_eq_none_iff] at hrow
    rw [hrow]
    rfl
  | some value =>
    obtain ⟨before, after, rfl, -⟩ := List.lookup_eq_some_iff.mp hvalue
    have hrereads : serde.fromStr (serde.print value) = .ok value := hread (key, value) (by simp)
    rw [hvalue, Option.map_some, Option.map_eq_some_iff] at hrow
    obtain ⟨row, hrow, hpayload⟩ := hrow
    rw [hrow, Option.mapM_some, hpayload, hrereads]
    rfl

end Queries

/-! ## Names -/

section Names

variable {serde : Serde φ} {root : List (String × JsonValue φ)}

/-- The name of an entry of the character table that is an operator, with its id. -/
def operatorName (entry : String × JsonValue φ) : Option (String × String) :=
  if isOperator entry.1 then
    (strOf entry.2 "name").map fun name => (name, entry.1)
  else none

def nameRow (entry : (String × JsonValue φ) × ℕ) : Option ((String × String) × NameRow) :=
  (operatorName entry.1).map fun named => (("character_table", named.1), ⟨named.2, entry.2⟩)

theorem names_compiled (serde : Serde φ) (root : List (String × JsonValue φ)) :
    (compiled serde "character_table" root).names =
      upsertAll updateName [] (root.zipIdx.filterMap nameRow) := by
  have hrows : (captureRoot serde "character_table" root).filterMap Statement.name? =
      root.zipIdx.filterMap nameRow := by
    have hdirect : direct.contains "character_table" = true := by decide
    rw [captureRoot, if_neg (by decide), List.filterMap_flatMap, List.filterMap_eq_flatMap_toList]
    congr 1
    funext entry
    obtain ⟨⟨key, value⟩, ordinal⟩ := entry
    simp only [captureEntry, hdirect, if_true, List.filterMap_cons, true_and, nameRow, operatorName, name]
    by_cases hkey : isOperator key
    · cases hname : strOf value "name" <;>
        simp [hkey, Statement.name?, CompiledEntities.entity]
    · simp [hkey, Statement.name?, CompiledEntities.entity]
  rw [compiled, Tables.names_run, hrows]
  rfl

theorem keys_names_compiled (serde : Serde φ) (root : List (String × JsonValue φ)) :
    OrderedMap.mapValues NameRow.key (compiled serde "character_table" root).names =
      (OrderedMap.ofEntries (root.filterMap operatorName)).map fun entry =>
        (("character_table", entry.1), entry.2) := by
  have hinjective : Function.Injective (Prod.mk "character_table" : String → String × String) :=
    fun a b heq => (Prod.mk.injEq _ _ _ _ ▸ heq).2
  have hrows : OrderedMap.mapValues NameRow.key (root.zipIdx.filterMap nameRow) =
      (root.filterMap operatorName).map fun entry => (("character_table", entry.1), entry.2) := by
    conv_rhs => rw [← List.zipIdx_map_fst 0 root, List.filterMap_map]
    rw [OrderedMap.mapValues, List.map_filterMap, List.map_filterMap]
    congr 1
    funext entry
    simp [nameRow, Option.map_map, Function.comp_def]
  have hkey : ∀ old new, NameRow.key (updateName old new) = new.key := fun _ _ => rfl
  rw [names_compiled, mapValues_upsertAll NameRow.key hkey, hrows, ← OrderedMap.ofEntries_mapKeys hinjective]
  rfl

theorem pairwise_names_compiled (serde : Serde φ) (root : List (String × JsonValue φ)) :
    (compiled serde "character_table" root).names.Pairwise fun a b => a.2.ordinal ≤ b.2.ordinal := by
  have hplace : ∀ old new, NameRow.ordinal (updateName old new) = old.ordinal := fun _ _ => rfl
  have hplaces := places_upsertAll NameRow.ordinal hplace [] (root.zipIdx.filterMap nameRow)
  have hsorted : ((root.zipIdx.filterMap nameRow).map fun row => row.2.ordinal).Pairwise (· ≤ ·) := by
    rw [List.pairwise_map, List.pairwise_filterMap]
    refine (Tables.pairwise_place root).imp fun hlt a ha b hb => ?_
    obtain ⟨_, _, rfl⟩ := Option.map_eq_some_iff.mp ha
    obtain ⟨_, _, rfl⟩ := Option.map_eq_some_iff.mp hb
    exact hlt.le
  rw [names_compiled]
  exact List.pairwise_map.mp (hsorted.sublist (by simpa using hplaces))

theorem of_compiled (serde : Serde φ) (dataset : String) (root : List (String × JsonValue φ)) :
    (compiled serde dataset root).of dataset = compiled serde dataset root :=
  Tables.of_run_self (fun _ => dataset_captureRoot) .empty

/-- The names of a compiled character table: the last id of a name, where the name came first. -/
theorem namesOf_compiled (serde : Serde φ) (root : List (String × JsonValue φ)) :
    (compiled serde "character_table" root).namesOf "character_table" =
      OrderedMap.ofEntries (root.filterMap operatorName) := by
  have hall : ((compiled serde "character_table" root).names.filter fun entry =>
      entry.1.1 = "character_table") = (compiled serde "character_table" root).names :=
    congrArg Tables.names (of_compiled serde "character_table" root)
  have hkeys := congrArg (List.map fun entry : (String × String) × String => (entry.1.2, entry.2))
    (keys_names_compiled serde root)
  rw [Tables.namesOf, hall, (pairwise_names_compiled serde root).insertionSort_eq]
  simpa [OrderedMap.mapValues, Function.comp_def] using hkeys

theorem nameId_compiled (serde : Serde φ) (root : List (String × JsonValue φ)) (name : String) :
    (compiled serde "character_table" root).nameId "character_table" name =
      (OrderedMap.ofEntries (root.filterMap operatorName)).lookup name := by
  have hlookup : ∀ map : List (String × String),
      (map.map fun entry => (("character_table", entry.1), entry.2)).lookup ("character_table", name) =
        map.lookup name := by
    intro map
    induction map with
    | nil => rfl
    | cons entry map ih =>
      obtain ⟨first, id⟩ := entry
      by_cases h : name = first
      · simp [h]
      · have hne : (("character_table", name) == ("character_table", first)) = false :=
          beq_false_of_ne fun heq => h (by simpa using heq)
        rw [List.map_cons, List.lookup_cons, hne, List.lookup_cons, beq_false_of_ne h]
        exact ih
  rw [Tables.nameId, ← hlookup, ← keys_names_compiled serde root]
  exact (Upserts.lookup_mapValues _ _ _).symm

end Names

/-! ## Rows of one dataset -/

namespace Tables

variable {tables : Tables} {dataset : String}

theorem namesOf_of : (tables.of dataset).namesOf dataset = tables.namesOf dataset := by
  simp [namesOf, of, List.filter_filter]

theorem nameId_of (name : String) : (tables.of dataset).nameId dataset name = tables.nameId dataset name :=
  congrArg (Option.map NameRow.key)
    (Upserts.lookup_filter_keys (fun key : String × String => decide (key.1 = dataset))
      (dataset, name) (by simp) tables.names)

theorem holds_of {serde : Serde φ} {bucket : String} {aux : JsonValue φ → Option String}
    {entries : List (String × JsonValue φ)} (h : (tables.of dataset).Holds serde dataset bucket aux entries) :
    tables.Holds serde dataset bucket aux entries := by
  refine Eq.trans ?_ h
  have hfilter : ((tables.of dataset).entities.filter fun entry =>
      entry.1.1 = dataset ∧ entry.1.2.1 = bucket) =
        tables.entities.filter fun entry => entry.1.1 = dataset ∧ entry.1.2.1 = bucket := by
    simp only [of, List.filter_filter]
    congr 1
    funext entry
    simp only [← Bool.decide_and, decide_eq_decide]
    tauto
  exact hfilter.symm

end Tables

end PrtsMcp.CompiledEntities
