import PrtsMcp.Paths
import PrtsMcp.ReleaseTags

/-!
# The activation pointer of the SQLite store

The text of the `active` and `previous` files, with the round trip of its encoding.
-/
namespace PrtsMcp.DatabasePointer

open ReleaseTags (isLowerHex)
open Paths (Path)

abbrev U64 := Fin (2 ^ 64)

instance neZeroU64 : NeZero (2 ^ 64) := ⟨by norm_num⟩

structure ActiveDatabase where
  fileName : String
  sourceVersion : String
  revision : U64
  sha256 : String
  deriving DecidableEq, Repr

/-- Generations are ordered by source version, then by revision. -/
def ActiveDatabase.generation (p : ActiveDatabase) : String ×ₗ U64 :=
  toLex (p.sourceVersion, p.revision)

def pointerVersion : String := "prts-mcp-active/v1"

def isDigest (s : String) : Bool := s.length = 64 && s.toList.all isLowerHex

def isFileChar (c : Char) : Bool := c.isAlphanum || c = '.' || c = '_' || c = '-'

def isVersionChar (c : Char) : Bool := c.isAlphanum || c = '-' || c = '_'

def sqliteSuffix : List Char := ".sqlite".toList

def ActiveDatabase.isValid (p : ActiveDatabase) : Bool :=
  p.fileName.toList.head? ≠ some '.' && sqliteSuffix.isSuffixOf p.fileName.toList &&
    p.fileName.toList.all isFileChar && p.sourceVersion ≠ "" &&
    p.sourceVersion.toList.all isVersionChar && p.revision ≠ 0 && isDigest p.sha256

/-- `validate`. -/
def ActiveDatabase.validate (p : ActiveDatabase) : Except String Unit :=
  if p.isValid then .ok () else .error "invalid SQLite activation pointer"

def ActiveDatabase.text (p : ActiveDatabase) : List Char :=
  pointerVersion.toList ++ '\n' :: (p.fileName.toList ++ '\n' :: (p.sourceVersion.toList ++
    '\n' :: (p.revision.val.repr.toList ++ '\n' :: (p.sha256.toList ++ ['\n']))))

/-- `encode`. -/
def ActiveDatabase.encode (p : ActiveDatabase) : Except String String :=
  p.validate.map fun _ => String.ofList p.text

/-- The line read so far, backwards, without a carriage return at its end. -/
def finishLine : List Char → List Char
  | '\r' :: line => line.reverse
  | line => line.reverse

/-- `str::lines`, with the line read so far backwards. -/
def linesFrom (line : List Char) : List Char → List (List Char)
  | [] => if line = [] then [] else [line.reverse]
  | c :: cs => if c = '\n' then finishLine line :: linesFrom [] cs else linesFrom (c :: line) cs

/-- `parse::<u64>`, which takes a leading plus sign. -/
def parseU64 (s : List Char) : Option U64 :=
  let digits := if s.head? = some '+' then s.tail else s
  if digits ≠ [] ∧ digits.all Char.isDigit then
    let n := Nat.ofDigitChars 10 digits 0
    if h : n < 2 ^ 64 then some ⟨n, h⟩ else none
  else none

def ActiveDatabase.checked (p : ActiveDatabase) : Except String ActiveDatabase :=
  p.validate.map fun _ => p

/-- `parse`. -/
def ActiveDatabase.parse (text : String) : Except String ActiveDatabase :=
  match linesFrom [] text.toList with
  | [version, fileName, sourceVersion, revision, sha256] =>
    if version ≠ pointerVersion.toList then .error "unsupported SQLite activation pointer"
    else match parseU64 revision with
      | none => .error "invalid digit found in string"
      | some n =>
        ActiveDatabase.checked
          ⟨String.ofList fileName, String.ofList sourceVersion, n, String.ofList sha256⟩
  | _ => .error "unsupported SQLite activation pointer"

/-- `path` -/
def ActiveDatabase.path (root : Path) (p : ActiveDatabase) : Path :=
  Paths.join root p.fileName.toList

section Lines

/-- A line of other characters is read back as it is. -/
theorem linesFrom_line {line : List Char} (h : ∀ c ∈ line, c ≠ '\n' ∧ c ≠ '\r')
    (rest : List Char) : linesFrom [] (line ++ '\n' :: rest) = line :: linesFrom [] rest := by
  suffices hread : ∀ before : List Char, before.head? ≠ some '\r' →
      linesFrom before (line ++ '\n' :: rest) =
        (before.reverse ++ line) :: linesFrom [] rest from hread [] (by simp)
  induction line with
  | nil =>
    intro before hbefore
    have hfinish : finishLine before = before.reverse := by
      unfold finishLine
      split
      · simp at hbefore
      · rfl
    rw [List.nil_append, linesFrom, if_pos rfl, hfinish, List.append_nil]
  | cons c line ih =>
    intro before hbefore
    obtain ⟨hc, hline⟩ := List.forall_mem_cons.mp h
    rw [List.cons_append, linesFrom, if_neg hc.1, ih hline (c :: before) (by simp [hc.2])]
    simp

theorem linesFrom_last {line : List Char} (h : ∀ c ∈ line, c ≠ '\n' ∧ c ≠ '\r') :
    linesFrom [] (line ++ ['\n']) = [line] := by
  rw [linesFrom_line h]
  rfl

theorem ne_break_of_isAlphanum {c : Char} (h : c.isAlphanum = true) : c ≠ '\n' ∧ c ≠ '\r' := by
  constructor <;> rintro rfl <;> exact absurd h (by decide)

theorem ne_break_of_isFileChar {c : Char} (h : isFileChar c = true) : c ≠ '\n' ∧ c ≠ '\r' := by
  constructor <;> rintro rfl <;> exact absurd h (by decide)

theorem ne_break_of_isVersionChar {c : Char} (h : isVersionChar c = true) :
    c ≠ '\n' ∧ c ≠ '\r' := by
  constructor <;> rintro rfl <;> exact absurd h (by decide)

theorem ne_break_of_isLowerHex {c : Char} (h : isLowerHex c = true) : c ≠ '\n' ∧ c ≠ '\r' := by
  constructor <;> rintro rfl <;> exact absurd h (by decide)

theorem isDigit_of_mem_repr {n : ℕ} {c : Char} (h : c ∈ n.repr.toList) : c.isDigit = true := by
  rw [Nat.toList_repr] at h
  exact Nat.isDigit_of_mem_toDigits (by norm_num) (le_refl _) h

theorem parseU64_repr (n : U64) : parseU64 n.val.repr.toList = some n := by
  have hplus : n.val.repr.toList.head? ≠ some '+' := by
    intro h
    have := isDigit_of_mem_repr (List.mem_of_head? h)
    exact absurd this (by decide)
  have hne : n.val.repr.toList ≠ [] := by
    rw [Nat.toList_repr]
    exact Nat.toDigits_ne_nil
  have hall : n.val.repr.toList.all Char.isDigit = true :=
    List.all_eq_true.mpr fun c hc => isDigit_of_mem_repr hc
  have hvalue : Nat.ofDigitChars 10 n.val.repr.toList 0 = n.val := by
    rw [Nat.toList_repr, Nat.ofDigitChars_toDigits (by norm_num) (le_refl _)]
  have hdigits : n.val.repr.toList ≠ [] ∧ n.val.repr.toList.all Char.isDigit = true := ⟨hne, hall⟩
  simp only [parseU64, if_neg hplus, if_pos hdigits, hvalue]
  exact dif_pos n.isLt

end Lines

theorem validate_eq_ok {p : ActiveDatabase} : p.validate = .ok () ↔ p.isValid = true := by
  unfold ActiveDatabase.validate
  generalize p.isValid = b
  cases b <;> simp

theorem encode_eq_ok {p : ActiveDatabase} {text : String} :
    p.encode = .ok text ↔ p.isValid = true ∧ text = String.ofList p.text := by
  unfold ActiveDatabase.encode ActiveDatabase.validate
  generalize p.isValid = b
  cases b <;> simp [Except.map, eq_comm]

theorem valid_of_parse {p : ActiveDatabase} {text : String}
    (h : ActiveDatabase.parse text = .ok p) : p.isValid = true := by
  unfold ActiveDatabase.parse at h
  split at h
  · split at h
    · cases h
    · split at h
      · cases h
      · next q _ =>
        unfold ActiveDatabase.checked ActiveDatabase.validate at h
        split at h
        · next hvalid =>
          cases h
          exact hvalid
        · cases h
  · cases h

/-- A pointer that was written is read back. -/
theorem parse_encode {p : ActiveDatabase} {text : String} (h : p.encode = .ok text) :
    ActiveDatabase.parse text = .ok p := by
  obtain ⟨hvalid, rfl⟩ := encode_eq_ok.mp h
  have hchecks := hvalid
  simp only [ActiveDatabase.isValid, isDigest, Bool.and_eq_true, List.all_eq_true] at hchecks
  obtain ⟨⟨⟨⟨⟨⟨-, -⟩, hfile⟩, -⟩, hversion⟩, -⟩, -, hdigest⟩ := hchecks
  have hlines : linesFrom [] p.text = [pointerVersion.toList, p.fileName.toList,
      p.sourceVersion.toList, p.revision.val.repr.toList, p.sha256.toList] := by
    unfold ActiveDatabase.text
    rw [linesFrom_line (by simp [pointerVersion]), linesFrom_line fun c hc => ne_break_of_isFileChar (hfile c hc),
      linesFrom_line fun c hc => ne_break_of_isVersionChar (hversion c hc),
      linesFrom_line fun c hc => ne_break_of_isAlphanum
        (by simp [Char.isAlphanum, isDigit_of_mem_repr hc]),
      linesFrom_last fun c hc => ne_break_of_isLowerHex (hdigest c hc)]
  rw [ActiveDatabase.parse, String.toList_ofList, hlines]
  simp only [ne_eq, not_true_eq_false, if_false, parseU64_repr, String.ofList_toList]
  rw [ActiveDatabase.checked, validate_eq_ok.mpr hvalid]
  rfl

/-! ## The path of a pointer -/

/-- A text without slashes that does not start with a dot names an entry of a directory. -/
theorem join_of_name {name : List Char} (hslash : '/' ∉ name) (hne : name ≠ [])
    (hdot : name.head? ≠ some '.') (root : Path) :
    Paths.join root name = root ++ [.normal (String.ofList name)] := by
  have hsplit : name.splitOn '/' = [name] := List.splitOn_eq_singleton hslash
  have hsegment : Paths.segment name = some (.normal (String.ofList name)) := by
    unfold Paths.segment
    split
    · exact absurd rfl hne
    · exact absurd rfl hdot
    · exact absurd rfl hdot
    · rfl
  have hparts : Paths.parts name = [.normal (String.ofList name)] := by
    rw [Paths.parts, hsplit, List.filterMap_cons, hsegment]
    rfl
  have hroot : name.head? ≠ some '/' := fun h => hslash (List.mem_of_head? h)
  unfold Paths.join
  split
  · next h =>
    rcases h with h | rfl
    · exact absurd h hroot
    · have hcur : (name.splitOn '/').head? ≠ some ['.'] := by
        rw [hsplit]
        rintro ⟨⟩
        exact hdot rfl
      rw [Paths.components, if_neg hroot, if_neg hcur, hparts]
      rfl
  · rw [hparts]

/-- The file of a valid pointer lies in the directory of the pointers itself. -/
theorem path_of_isValid {p : ActiveDatabase} (h : p.isValid = true) (root : Path) :
    p.path root = root ++ [.normal p.fileName] := by
  simp only [ActiveDatabase.isValid, Bool.and_eq_true, List.all_eq_true, decide_eq_true_eq] at h
  obtain ⟨⟨⟨⟨⟨⟨hdot, hsuffix⟩, hfile⟩, -⟩, -⟩, -⟩, -⟩ := h
  have hslash : '/' ∉ p.fileName.toList := fun hmem => absurd (hfile '/' hmem) (by decide)
  have hne : p.fileName.toList ≠ [] := by
    intro hnil
    rw [hnil] at hsuffix
    exact absurd hsuffix (by decide)
  rw [ActiveDatabase.path, join_of_name hslash hne hdot, String.ofList_toList]

/-- What is valid is written and read back, and what is read is valid and names a file in the
directory of the pointers. -/
theorem pointer_codec :
    (∀ p : ActiveDatabase, p.validate = .ok () →
      ∃ text, p.encode = .ok text ∧ ActiveDatabase.parse text = .ok p) ∧
    ∀ text p, ActiveDatabase.parse text = .ok p →
      p.validate = .ok () ∧ ∀ root, p.path root = root ++ [.normal p.fileName] := by
  constructor
  · intro p hvalid
    have hencode : p.encode = .ok (String.ofList p.text) :=
      encode_eq_ok.mpr ⟨validate_eq_ok.mp hvalid, rfl⟩
    exact ⟨_, hencode, parse_encode hencode⟩
  · intro text p hparse
    have hvalid := valid_of_parse hparse
    exact ⟨validate_eq_ok.mpr hvalid, path_of_isValid hvalid⟩

end PrtsMcp.DatabasePointer
