import PrtsMcp.Blocks
import PrtsMcp.RegexShortcuts
import PrtsMcp.Tables

/-!
# Entity search over blocks

The search lists as the data compiler writes them, every record in a row of its own and the texts
once more in blocks, and the search that passes over the blocks which cannot hold a match.
-/
namespace PrtsMcp.SearchBlocks

open Blocks Tables JsRegex RegexBytecode

/-- A searchable text, with the JSON that is returned for it. -/
structure Record where
  text : String
  payload : String
  deriving DecidableEq, Repr

/-- A row of the table `searches`. -/
structure SearchRow where
  scope : String
  ordinal : ℕ
  record : Record
  deriving DecidableEq, Repr

/-- A row of the table `search_blocks`. -/
structure SearchBlock where
  scope : String
  block : Block UInt8
  deriving DecidableEq, Repr

structure SearchDb where
  searches : List SearchRow
  searchBlocks : List SearchBlock

/-! ## Derivation -/

/-- The scopes that are exported, in this order. -/
def scopes : List String :=
  ["operators", "enemies", "stages", "items", "skills", "building_skills"]

def textBytes (record : Record) : List UInt8 := Utf8.encode record.text.toList

/-- A text in a block ends with a zero byte. -/
def encodeRecord (record : Record) : List UInt8 := textBytes record ++ [0]

def searchBlocks (records : List Record) : List (Block UInt8) :=
  cut encodeRecord (128 * 1024) records

def searchRows (scope : String) (records : List Record) : List SearchRow :=
  records.zipIdx.map fun entry => ⟨scope, entry.2, entry.1⟩

def derive (records : String → List Record) : SearchDb where
  searches := scopes.flatMap fun scope => searchRows scope (records scope)
  searchBlocks := scopes.flatMap fun scope => (searchBlocks (records scope)).map (SearchBlock.mk scope)

/-! ## Queries -/

/-- The blocks of a scope, by their numbers. -/
def SearchDb.blocks (db : SearchDb) (scope : String) : List (Block UInt8) :=
  ((db.searchBlocks.filter fun row => row.scope = scope).insertionSort
    fun a b => a.block.block ≤ b.block.block).map SearchBlock.block

/-- The rows of a scope between two ordinals, by their ordinals. -/
def SearchDb.rows (db : SearchDb) (scope : String) (first last : ℕ) : List Record :=
  (((db.searches.filter fun row => row.scope = scope).filter fun row =>
    first ≤ row.ordinal ∧ row.ordinal ≤ last).insertionSort
      fun a b => a.ordinal ≤ b.ordinal).map SearchRow.record

section Search

variable {ν : Type} (e : Engine) (fromStr : String → Except String ν) (maxResults : ℤ)

/-- The rows one after the other; the flag tells that the limit is reached. -/
def scanRows (re : Regex) : List ν → List Record → Except String (List ν × Bool)
  | results, [] => .ok (results, false)
  | results, record :: rest => do
    if ← re.isMatch e false record.text.toList then
      let value ← fromStr record.payload
      let results := results ++ [value]
      if maxResults ≤ results.length then return (results, true) else scanRows re results rest
    else scanRows re results rest

/-- The blocks one after the other, of each the rows that `rowsOf` reads. -/
def scanBlocks (rowsOf : Block UInt8 → List Record) (re : Regex) :
    List ν → List (Block UInt8) → Except String (List ν)
  | results, [] => .ok results
  | results, block :: rest =>
    if re.mayMatchBytes block.payload then do
      let scanned ← scanRows e fromStr maxResults re results (rowsOf block)
      if scanned.2 then return scanned.1 else scanBlocks rowsOf re scanned.1 rest
    else scanBlocks rowsOf re results rest

variable (regexErrorMessage : String → String)

def databaseSearch (db : SearchDb) (scope pattern : String) : Except String (List ν) := do
  let re ← (JsRegex.compile e pattern).mapError regexErrorMessage
  scanBlocks e fromStr maxResults (fun block => db.rows scope block.first block.last) re []
    (db.blocks scope)

/-- The search that looks at every record. -/
def plainSearch (records : List Record) (pattern : String) : Except String (List ν) := do
  let re ← (JsRegex.compile e pattern).mapError regexErrorMessage
  let scanned ← scanRows e fromStr maxResults re [] records
  return scanned.1

end Search

/-! ## What the queries read -/

theorem nodup_scopes : (scopes.map id).Nodup := by decide

theorem blocks_derive {scope : String} (h : scope ∈ scopes) (records : String → List Record) :
    (derive records).blocks scope = searchBlocks (records scope) := by
  have hfilter := filter_key id SearchBlock.scope
    (f := fun scope => (searchBlocks (records scope)).map (SearchBlock.mk scope))
    (fun scope row hrow => by
      obtain ⟨block, -, rfl⟩ := List.mem_map.mp hrow
      rfl) h nodup_scopes
  rw [id_eq] at hfilter
  have hsorted : ((searchBlocks (records scope)).map (SearchBlock.mk scope)).Pairwise
      fun a b => a.block.block ≤ b.block.block := by
    have hnumbers : ((searchBlocks (records scope)).map Block.block).Pairwise (· < ·) := by
      rw [searchBlocks, map_block_cut]
      exact List.pairwise_lt_range
    exact List.pairwise_map.mpr ((List.pairwise_map.mp hnumbers).imp le_of_lt)
  rw [SearchDb.blocks, derive, hfilter, hsorted.insertionSort_eq, List.map_map]
  exact List.map_id _

theorem rows_derive {scope : String} (h : scope ∈ scopes) (records : String → List Record)
    (block : Block UInt8) :
    (derive records).rows scope block.first block.last = block.records (records scope) := by
  have hfilter := filter_key id SearchRow.scope
    (f := fun scope => searchRows scope (records scope))
    (fun scope row hrow => by
      obtain ⟨entry, -, rfl⟩ := List.mem_map.mp hrow
      rfl) h nodup_scopes
  rw [id_eq] at hfilter
  have hsorted : ((searchRows scope (records scope)).filter fun row =>
      decide (block.first ≤ row.ordinal ∧ row.ordinal ≤ block.last)).Pairwise
        fun a b => a.ordinal ≤ b.ordinal := by
    have hrows : (searchRows scope (records scope)).Pairwise fun a b => a.ordinal ≤ b.ordinal :=
      List.pairwise_map.mpr ((pairwise_place (records scope)).imp le_of_lt)
    exact hrows.filter _
  have hplaces := congrArg (List.map Prod.fst)
    (filter_zipIdx (records scope) block.first block.last 0)
  rw [Nat.sub_zero, Nat.max_zero, List.map_take, List.map_drop, List.zipIdx_map_fst] at hplaces
  rw [SearchDb.rows, derive, hfilter, hsorted.insertionSort_eq, searchRows, List.filter_map,
    List.map_map]
  exact hplaces

/-! ## Skipped blocks -/

section Skipped

variable {e : Engine} {finds : List UInt8 → Thread → Prop} {pattern : String} {re : Regex}

/-- No text of a block that is passed over matches: the answer is no, or the matcher fails. -/
theorem isMatch_of_skipped (h : e.Lawful finds) (hre : JsRegex.compile e pattern = .ok re)
    {before after : List UInt8} {text : List Char}
    (hskip : re.mayMatchBytes (before ++ Utf8.encode text ++ after) = false) :
    re.isMatch e false text = .ok false ∨
      ∃ error, re.isMatch e false text = .error error ∧ re.nativeMatch e text = .error error := by
  refine isMatch_of_not_finds h hre fun hfinds => ?_
  rw [(mayMatch_of_finds h hre hfinds before after).1] at hskip
  contradiction

variable {ν : Type} {fromStr : String → Except String ν} {maxResults : ℤ}

/-- The matcher fails on a record, and the rows end with its error. -/
def FailsOn (e : Engine) (re : Regex) (records : List Record) {α : Type} (x : Except String α) :
    Prop :=
  ∃ record ∈ records, ∃ error, re.nativeMatch e record.text.toList = .error error ∧ x = .error error

variable (fromStr maxResults) in
theorem scanRows_of_skipped (h : e.Lawful finds) (hre : JsRegex.compile e pattern = .ok re)
    (results : List ν) {before after : List UInt8} {records : List Record}
    (hskip : re.mayMatchBytes (before ++ records.flatMap encodeRecord ++ after) = false) :
    scanRows e fromStr maxResults re results records = .ok (results, false) ∨
      FailsOn e re records (scanRows e fromStr maxResults re results records) := by
  induction records generalizing before with
  | nil => exact .inl rfl
  | cons record rest ih =>
    have hfirst : before ++ (record :: rest).flatMap encodeRecord ++ after =
        before ++ Utf8.encode record.text.toList ++ ([0] ++ (rest.flatMap encodeRecord ++ after)) := by
      simp [encodeRecord, textBytes]
    have hlater : before ++ (record :: rest).flatMap encodeRecord ++ after =
        (before ++ encodeRecord record) ++ rest.flatMap encodeRecord ++ after := by
      simp
    rw [scanRows]
    rcases isMatch_of_skipped h hre (hfirst ▸ hskip) with hno | ⟨error, herror, hnative⟩
    · rw [hno]
      rcases ih (hlater ▸ hskip) with hrest | ⟨other, hother, error, hnative, hrest⟩
      · exact .inl hrest
      · exact .inr ⟨other, List.mem_cons_of_mem _ hother, error, hnative, hrest⟩
    · rw [herror]
      exact .inr ⟨record, List.mem_cons_self, error, hnative, rfl⟩

theorem scanRows_append (re : Regex) (results : List ν) (a b : List Record) :
    scanRows e fromStr maxResults re results (a ++ b) =
      (scanRows e fromStr maxResults re results a).bind fun scanned =>
        if scanned.2 then .ok (scanned.1, true)
        else scanRows e fromStr maxResults re scanned.1 b := by
  induction a generalizing results with
  | nil => rfl
  | cons record a ih =>
    rw [List.cons_append, scanRows, scanRows]
    cases re.isMatch e false record.text.toList with
    | error error => rfl
    | ok matched =>
      cases matched with
      | false => exact ih results
      | true =>
        cases fromStr record.payload with
        | error error => rfl
        | ok value =>
          by_cases hfull : maxResults ≤ (results ++ [value]).length
          · simp only [bind, Except.bind, if_pos hfull]
            rfl
          · simp only [bind, Except.bind, if_neg hfull]
            exact ih (results ++ [value])

variable (fromStr maxResults) in
/-- Passing over blocks changes no answer; it only spares failures of the matcher. -/
theorem scanBlocks_eq (h : e.Lawful finds) (hre : JsRegex.compile e pattern = .ok re)
    {rowsOf : Block UInt8 → List Record} (results : List ν) {blocks : List (Block UInt8)}
    (hpayload : ∀ block ∈ blocks, block.payload = (rowsOf block).flatMap encodeRecord) :
    scanBlocks e fromStr maxResults rowsOf re results blocks =
        (scanRows e fromStr maxResults re results (blocks.flatMap rowsOf)).map Prod.fst ∨
      FailsOn e re (blocks.flatMap rowsOf)
        ((scanRows e fromStr maxResults re results (blocks.flatMap rowsOf)).map Prod.fst) := by
  induction blocks generalizing results with
  | nil => exact .inl rfl
  | cons block rest ih =>
    have hrest := fun results => ih results fun other hother =>
      hpayload other (List.mem_cons_of_mem _ hother)
    have hblock := hpayload block List.mem_cons_self
    have hmono : ∀ {x : Except String (List ν)}, FailsOn e re (rest.flatMap rowsOf) x →
        FailsOn e re (rowsOf block ++ rest.flatMap rowsOf) x := by
      rintro x ⟨record, hrecord, hfails⟩
      exact ⟨record, List.mem_append_right _ hrecord, hfails⟩
    rw [List.flatMap_cons, scanRows_append, scanBlocks]
    by_cases hmay : re.mayMatchBytes block.payload = true
    · rw [if_pos hmay]
      cases hscan : scanRows e fromStr maxResults re results (rowsOf block) with
      | error error => exact .inl rfl
      | ok scanned =>
        obtain ⟨results', full⟩ := scanned
        cases full with
        | true => exact .inl rfl
        | false =>
          rcases hrest results' with heq | hfails
          · exact .inl heq
          · exact .inr (hmono hfails)
    · rw [if_neg hmay]
      have hskip : re.mayMatchBytes ([] ++ (rowsOf block).flatMap encodeRecord ++ []) = false := by
        rw [List.nil_append, List.append_nil, ← hblock]
        exact Bool.not_eq_true _ ▸ hmay
      rcases scanRows_of_skipped fromStr maxResults h hre results hskip
        with hnone | ⟨record, hrecord, error, hnative, hscan⟩
      · rw [hnone]
        rcases hrest results with heq | hfails
        · exact .inl heq
        · exact .inr (hmono hfails)
      · rw [hscan]
        exact .inr ⟨record, List.mem_append_left _ hrecord, error, hnative, rfl⟩

variable (fromStr maxResults pattern) in
/-- The search of the derived tables is the search through all records, unless the matcher fails
on one of them. -/
theorem databaseSearch_derive (h : e.Lawful finds) (regexErrorMessage : String → String)
    (records : String → List Record) {scope : String} (hscope : scope ∈ scopes) :
    databaseSearch e fromStr maxResults regexErrorMessage (derive records) scope pattern =
        plainSearch e fromStr maxResults regexErrorMessage (records scope) pattern ∨
      ∃ re, JsRegex.compile e pattern = .ok re ∧ FailsOn e re (records scope)
        (plainSearch e fromStr maxResults regexErrorMessage (records scope) pattern) := by
  unfold databaseSearch plainSearch
  cases hre : JsRegex.compile e pattern with
  | error error => exact .inl rfl
  | ok re =>
    have hpayload : ∀ block ∈ searchBlocks (records scope),
        block.payload = ((derive records).rows scope block.first block.last).flatMap encodeRecord :=
      fun block hblock => by
        rw [rows_derive hscope]
        exact payload_cut encodeRecord (128 * 1024) (records scope) hblock
    have hall : (searchBlocks (records scope)).flatMap
        (fun block => (derive records).rows scope block.first block.last) = records scope := by
      simp only [rows_derive hscope]
      exact records_cut encodeRecord (128 * 1024) (records scope)
    have hscan := scanBlocks_eq fromStr maxResults h hre [] hpayload
    rw [hall] at hscan
    simp only [bind, Except.bind, Except.mapError, blocks_derive hscope]
    rcases hscan with heq | hfails
    · exact .inl heq
    · exact .inr ⟨re, rfl, hfails⟩

/-- Where the search through all records answers, the search over the blocks gives the same
answer; it fails only where that search fails; and where the matcher answers on every record, the
two are the same. -/
theorem databaseSearch_eq_plainSearch (h : e.Lawful finds) (fromStr : String → Except String ν)
    (regexErrorMessage : String → String) (records : String → List Record) (scope : String)
    (hscope : scope ∈ scopes) (pattern : String) (maxResults : ℤ) :
    (∀ results, plainSearch e fromStr maxResults regexErrorMessage (records scope) pattern =
        .ok results →
      databaseSearch e fromStr maxResults regexErrorMessage (derive records) scope pattern =
        .ok results) ∧
    (∀ error, databaseSearch e fromStr maxResults regexErrorMessage (derive records) scope pattern =
        .error error →
      ∃ error', plainSearch e fromStr maxResults regexErrorMessage (records scope) pattern =
        .error error') ∧
    ((∀ re, JsRegex.compile e pattern = .ok re → ∀ record ∈ records scope,
        ∃ b, re.nativeMatch e record.text.toList = .ok b) →
      databaseSearch e fromStr maxResults regexErrorMessage (derive records) scope pattern =
        plainSearch e fromStr maxResults regexErrorMessage (records scope) pattern) := by
  rcases databaseSearch_derive pattern fromStr maxResults h
    regexErrorMessage records hscope with heq | ⟨re, hre, record, hrecord, error, hnative, hfails⟩
  · rw [heq]
    exact ⟨fun _ h => h, fun error h => ⟨error, h⟩, fun _ => rfl⟩
  · rw [hfails]
    refine ⟨fun _ h => (by cases h), fun _ _ => ⟨error, rfl⟩, fun hanswers => ?_⟩
    obtain ⟨b, hb⟩ := hanswers re hre record hrecord
    rw [hnative] at hb
    cases hb

end Skipped

def exampleRecords (scope : String) : List Record :=
  if scope = "items" then [⟨"task", "1"⟩, ⟨"aſK", "2"⟩, ⟨"other", "3"⟩] else []

theorem databaseSearch_eq_plainSearch_items :
    (∀ results, plainSearch askEngine .ok 100 id (exampleRecords "items") "ask" = .ok results →
      databaseSearch askEngine .ok 100 id (derive exampleRecords) "items" "ask" = .ok results) ∧
    (∀ error, databaseSearch askEngine .ok 100 id (derive exampleRecords) "items" "ask" =
        .error error →
      ∃ error', plainSearch askEngine .ok 100 id (exampleRecords "items") "ask" = .error error') ∧
    ((∀ re, JsRegex.compile askEngine "ask" = .ok re → ∀ record ∈ exampleRecords "items",
        ∃ b, re.nativeMatch askEngine record.text.toList = .ok b) →
      databaseSearch askEngine .ok 100 id (derive exampleRecords) "items" "ask" =
        plainSearch askEngine .ok 100 id (exampleRecords "items") "ask") :=
  databaseSearch_eq_plainSearch askEngine_lawful .ok id exampleRecords "items" (by decide) "ask" 100

end PrtsMcp.SearchBlocks
