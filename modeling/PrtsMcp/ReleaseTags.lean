import Mathlib

/-!
# Release identities

A data release is tagged `data-<vid>` or `datarev-<vid>-r<N>`; the tag without its namespace is
the commit sha that the sync records. Identities are ordered by version id, then by revision.
-/
namespace PrtsMcp.ReleaseTags

structure DataTagVersion where
  versionId : String
  revision : ℕ
  deriving DecidableEq, Repr

/-- The key releases are ordered by. -/
def DataTagVersion.identity (v : DataTagVersion) : String ×ₗ ℕ := toLex (v.versionId, v.revision)

def tagPrefix : List Char := "data-".toList

def datarevTagPrefix : List Char := "datarev-".toList

def headPattern : List Char := "dd-dd-dd-dd-dd-dd".toList

def matchesHead (expected c : Char) : Bool :=
  if expected = 'd' then c.isDigit else c = '-' || c = '_'

/-- The first 17 characters match `dd-dd-dd-dd-dd-dd`, joined by `-` or `_`. -/
def fixedWidthHead (s : List Char) : Bool :=
  17 ≤ s.length && (headPattern.zipWith matchesHead s).all id

def isLowerHex (c : Char) : Bool := c.isDigit || ('a' ≤ c && c ≤ 'f')

def isVersionId (s : List Char) : Bool :=
  fixedWidthHead s && (match s.drop 17 with
    | join :: hash => (join = '-' || join = '_') && !hash.isEmpty && hash.all isLowerHex
    | [] => false)

def digitsValue (s : List Char) : ℕ := s.foldl (fun n c => n * 10 + (c.toNat - '0'.toNat)) 0

/-- The split at one occurrence of `-r`; revisions beyond `u64` saturate. -/
def splitRevisionAt (rest : List Char) (pos : ℕ) : Option (List Char × ℕ) :=
  let rev := rest.drop (pos + 2)
  if (rest.drop pos).take 2 = ['-', 'r'] ∧ pos ≠ 0 ∧ rev ≠ [] ∧ rev.all Char.isDigit then
    some (rest.take pos, min (digitsValue rev) (2 ^ 64 - 1))
  else none

/-- The search for `-r` from the back, below a position. -/
def rsplitRevisionBelow (rest : List Char) : ℕ → Option (List Char × ℕ)
  | 0 => none
  | pos + 1 =>
    match splitRevisionAt rest pos with
    | some split => some split
    | none => rsplitRevisionBelow rest pos

def rsplitRevision (rest : List Char) : Option (List Char × ℕ) :=
  rsplitRevisionBelow rest rest.length

def versionOf (split : List Char × ℕ) : DataTagVersion := ⟨String.ofList split.1, split.2⟩

def parseDataTag (tag : String) : Option DataTagVersion :=
  match datarevTagPrefix.isPrefixOf? tag.toList with
  | some rest => (rsplitRevision rest).map versionOf
  | none => (tagPrefix.isPrefixOf? tag.toList).map fun vid => versionOf (vid, 1)

def tagSuffix (tag : String) : String :=
  match datarevTagPrefix.isPrefixOf? tag.toList with
  | some rest => String.ofList rest
  | none =>
    match tagPrefix.isPrefixOf? tag.toList with
    | some rest => String.ofList rest
    | none => tag

def parseReleaseSuffix (suffix : String) : Option DataTagVersion :=
  let revised := if fixedWidthHead suffix.toList then rsplitRevision suffix.toList else none
  match revised with
  | some split => some (versionOf split)
  | none => if isVersionId suffix.toList then some (versionOf (suffix.toList, 1)) else none

/-- `b` is strictly newer than `a`. -/
def isNewer (a b : DataTagVersion) : Bool :=
  if a.versionId ≠ b.versionId then a.versionId < b.versionId else a.revision < b.revision

/-- Every data tag carries a version id of the fixed-width shape. -/
def WellFormed (tag : String) : Prop :=
  ∀ v ∈ parseDataTag tag, isVersionId v.versionId.toList = true

instance : DecidablePred WellFormed := fun tag =>
  inferInstanceAs (Decidable (∀ v ∈ parseDataTag tag, isVersionId v.versionId.toList = true))

example : parseDataTag "datarev-26-09-03-04-06-00_ed95a2-r10" =
    some ⟨"26-09-03-04-06-00_ed95a2", 10⟩ := by decide +kernel

theorem isNewer_iff {a b : DataTagVersion} : isNewer a b = true ↔ a.identity < b.identity := by
  rw [isNewer, DataTagVersion.identity, DataTagVersion.identity, Prod.Lex.toLex_lt_toLex]
  by_cases h : a.versionId = b.versionId <;> simp [h]

theorem isPrefixOf?_eq_some {p s rest : List Char} :
    p.isPrefixOf? s = some rest ↔ s = p ++ rest := by
  induction p generalizing s with
  | nil => simp [List.isPrefixOf?]
  | cons c p ih =>
    cases s with
    | nil => simp [List.isPrefixOf?]
    | cons d s =>
      by_cases hcd : c = d
      · simp [List.isPrefixOf?, hcd, ih]
      · simp [List.isPrefixOf?, hcd, Ne.symm hcd]

theorem versionOf_versionId_toList (split : List Char × ℕ) :
    (versionOf split).versionId.toList = split.1 := String.toList_ofList

theorem ne_r_of_matchesHead {expected c : Char} (h : matchesHead expected c = true) :
    c ≠ 'r' := by
  rintro rfl
  unfold matchesHead at h
  split at h <;> simp at h

theorem not_mem_take_of_zipWith {pattern s : List Char}
    (h : (pattern.zipWith matchesHead s).all id = true) : 'r' ∉ s.take pattern.length := by
  induction pattern generalizing s with
  | nil => simp
  | cons expected pattern ih =>
    cases s with
    | nil => simp
    | cons c s =>
      simp only [List.zipWith_cons_cons, List.all_cons, Bool.and_eq_true] at h
      have hc := ne_r_of_matchesHead h.1
      simpa [Ne.symm hc] using ih h.2

theorem not_mem_versionId {vid : List Char} (h : isVersionId vid = true) : 'r' ∉ vid := by
  simp only [isVersionId, fixedWidthHead, Bool.and_eq_true] at h
  obtain ⟨⟨-, hhead⟩, htail⟩ := h
  rw [← List.take_append_drop 17 vid, List.mem_append, not_or]
  refine ⟨not_mem_take_of_zipWith hhead, ?_⟩
  split at htail
  · next join hash hdrop =>
    simp only [Bool.and_eq_true, List.all_eq_true] at htail
    obtain ⟨⟨hjoin, -⟩, hhash⟩ := htail
    rw [hdrop, List.mem_cons, not_or]
    refine ⟨?_, fun hr => absurd (hhash 'r' hr) (by decide)⟩
    rintro rfl
    simp at hjoin
  · simp at htail

theorem prefix_of_splitRevisionAt {rest : List Char} {pos : ℕ} {split : List Char × ℕ}
    (h : splitRevisionAt rest pos = some split) : split.1 <+: rest := by
  dsimp only [splitRevisionAt] at h
  split at h
  · obtain rfl := Option.some.inj h
    exact List.take_prefix pos rest
  · simp at h

theorem splitRevisionAt_eq_none {rest : List Char} (h : 'r' ∉ rest) (pos : ℕ) :
    splitRevisionAt rest pos = none := by
  refine if_neg fun hsplit => h ?_
  have hr : 'r' ∈ (rest.drop pos).take 2 := by simp [hsplit.1]
  exact List.mem_of_mem_drop (List.mem_of_mem_take hr)

theorem prefix_of_rsplitRevision {rest : List Char} {split : List Char × ℕ}
    (h : rsplitRevision rest = some split) : split.1 <+: rest := by
  suffices hbelow : ∀ pos, rsplitRevisionBelow rest pos = some split → split.1 <+: rest from
    hbelow _ h
  intro pos
  induction pos with
  | zero => simp [rsplitRevisionBelow]
  | succ pos ih =>
    rw [rsplitRevisionBelow]
    cases hsplit : splitRevisionAt rest pos with
    | none => exact ih
    | some found =>
      intro hfound
      obtain rfl := Option.some.inj hfound
      exact prefix_of_splitRevisionAt hsplit

/-- No revision can be split off a well-formed version id: it has no `r`. -/
theorem rsplitRevision_versionId {vid : List Char} (h : isVersionId vid = true) :
    rsplitRevision vid = none := by
  suffices hbelow : ∀ pos, rsplitRevisionBelow vid pos = none from hbelow _
  intro pos
  induction pos with
  | zero => rfl
  | succ pos ih => rw [rsplitRevisionBelow, splitRevisionAt_eq_none (not_mem_versionId h), ih]

theorem zipWith_append_of_le {f : Char → Char → Bool} {p s : List Char} (t : List Char)
    (h : p.length ≤ s.length) : p.zipWith f (s ++ t) = p.zipWith f s := by
  induction p generalizing s with
  | nil => simp
  | cons c p ih =>
    cases s with
    | nil => simp at h
    | cons d s => simp [ih (s := s) (by simpa using h)]

theorem fixedWidthHead_of_isPrefix {s t : List Char} (h : fixedWidthHead s = true)
    (hst : s <+: t) : fixedWidthHead t = true := by
  obtain ⟨rest, rfl⟩ := hst
  simp only [fixedWidthHead, Bool.and_eq_true, decide_eq_true_eq] at h ⊢
  refine ⟨by rw [List.length_append]; omega, ?_⟩
  rw [zipWith_append_of_le rest (show headPattern.length ≤ s.length from h.1)]
  exact h.2

/-- The recorded suffix of a well-formed tag parses back to the identity of the tag. -/
theorem parseReleaseSuffix_tagSuffix {tag : String} (hwf : WellFormed tag) {v : DataTagVersion}
    (h : parseDataTag tag = some v) : parseReleaseSuffix (tagSuffix tag) = some v := by
  have hvid := hwf v h
  unfold parseDataTag at h
  unfold tagSuffix
  split at h
  · next rest _ =>
    obtain ⟨split, hsplit, rfl⟩ := Option.map_eq_some_iff.mp h
    rw [versionOf_versionId_toList] at hvid
    have hhead : fixedWidthHead split.1 = true := by
      simp only [isVersionId, Bool.and_eq_true] at hvid
      exact hvid.1
    have hrest := fixedWidthHead_of_isPrefix hhead (prefix_of_rsplitRevision hsplit)
    simp only [parseReleaseSuffix, String.toList_ofList, hrest, if_true, hsplit]
  · obtain ⟨vid, hvid', rfl⟩ := Option.map_eq_some_iff.mp h
    rw [versionOf_versionId_toList] at hvid
    have hnone : (if fixedWidthHead vid then rsplitRevision vid else none) = none := by
      rw [rsplitRevision_versionId hvid, ite_self]
    simp only [hvid', parseReleaseSuffix, String.toList_ofList, hnone, hvid, if_true]

/-- A data tag with a version id of the fixed-width shape. -/
def isDataTag (tag : String) : Bool :=
  (parseDataTag tag).any fun v => isVersionId v.versionId.toList

theorem parseReleaseSuffix_of_isDataTag {tag : String} (h : isDataTag tag = true) :
    ∃ v, parseReleaseSuffix (tagSuffix tag) = some v := by
  obtain ⟨v, hv, hid⟩ := (Option.any_eq_true _ _).mp h
  refine ⟨v, parseReleaseSuffix_tagSuffix (fun w hw => ?_) hv⟩
  obtain rfl := Option.some.inj (hv.symm.trans hw)
  exact hid

theorem mem_of_rsplitRevision {rest : List Char} {split : List Char × ℕ}
    (h : rsplitRevision rest = some split) : 'r' ∈ rest := by
  by_contra hr
  have hbelow : ∀ pos, rsplitRevisionBelow rest pos = none := fun pos => by
    induction pos with
    | zero => rfl
    | succ pos ih => rw [rsplitRevisionBelow, splitRevisionAt_eq_none hr, ih]
  simp [rsplitRevision, hbelow] at h

/-- A commit sha tells the namespace of its tag: only a revision has an `r`. -/
theorem toList_of_isDataTag {tag : String} (h : isDataTag tag = true) :
    tag.toList = (if 'r' ∈ (tagSuffix tag).toList then datarevTagPrefix else tagPrefix) ++
      (tagSuffix tag).toList := by
  obtain ⟨v, hv, hid⟩ := (Option.any_eq_true _ _).mp h
  unfold parseDataTag at hv
  unfold tagSuffix
  split at hv
  · next rest hrest =>
    obtain ⟨split, hsplit, -⟩ := Option.map_eq_some_iff.mp hv
    rw [String.toList_ofList, if_pos (mem_of_rsplitRevision hsplit)]
    exact isPrefixOf?_eq_some.mp hrest
  · obtain ⟨vid, hvid, rfl⟩ := Option.map_eq_some_iff.mp hv
    rw [versionOf_versionId_toList] at hid
    simp only [hvid, String.toList_ofList, if_neg (not_mem_versionId hid)]
    exact isPrefixOf?_eq_some.mp hvid

/-- The commit sha of a data tag is the commit sha of no other. -/
theorem tagSuffix_injective {a b : String} (ha : isDataTag a = true) (hb : isDataTag b = true)
    (h : tagSuffix a = tagSuffix b) : a = b := by
  rw [← String.toList_inj, toList_of_isDataTag ha, toList_of_isDataTag hb, h]

theorem fixedWidthHead_of_parseReleaseSuffix {suffix : String} {v : DataTagVersion}
    (h : parseReleaseSuffix suffix = some v) : fixedWidthHead suffix.toList = true := by
  by_contra hhead
  simp [parseReleaseSuffix, isVersionId, hhead] at h

theorem isDigit_of_fixedWidthHead {c : Char} {s : List Char}
    (h : fixedWidthHead (c :: s) = true) : c.isDigit = true := by
  rw [fixedWidthHead, show headPattern = 'd' :: headPattern.tail from by decide,
    List.zipWith_cons_cons, List.all_cons] at h
  simp only [Bool.and_eq_true] at h
  simpa [matchesHead] using h.2.1

end PrtsMcp.ReleaseTags
