import PrtsMcp.BlockFilter
import PrtsMcp.RegexBytecode

/-!
# Searches with a compiled pattern

`JsRegex` tests a literal that every match of the pattern contains before it runs the vendored
matcher, and tests blocks of bytes for that literal before their texts are decoded. The compiler
and the matcher are parameters, with what the code relies on.
-/
namespace PrtsMcp.JsRegex

open Utf8 RegexBytecode
open BlockFilter (toAsciiLowercase foldChar folded)

/-- `prts_re_compile`, `prts_re_exec` on a whole text, and the case-folding table. -/
structure Engine where
  compile : String → ℕ → Except String (List UInt8)
  exec : List UInt8 → List Char → Except String Bool
  fold : ℕ → ℕ

def ignoreCase : ℕ := 2

def unicode : ℕ := 16

inductive Prefix where
  | exact (text : List Char)
  | asciiFold (literal : List Char) (specialFolds : Bool)
  deriving DecidableEq, Repr

structure Regex where
  bytecode : List UInt8
  literal : Option Prefix
  completeLiteral : Bool
  blockFilterable : Bool
  deriving DecidableEq, Repr

def charFromU32 (val : ℕ) : Option Char :=
  if val.isValidChar then some (Char.ofNat val) else none

def isAscii (c : Char) : Bool := c.toNat < 128

def isAsciiAlphabetic (c : Char) : Bool :=
  (65 ≤ c.toNat && c.toNat ≤ 90) || (97 ≤ c.toNat && c.toNat ≤ 122)

/-- A character that nothing but itself folds to. -/
def isCaseless (c : Char) : Bool :=
  (0x4e00 ≤ c.toNat && c.toNat ≤ 0x9fff) || (isAscii c && !isAsciiAlphabetic c)

/-- How the literal is searched for, if the matcher's folding allows it at all. -/
def classify (insensitive : Bool) (text : List Char) : Option Prefix :=
  if !insensitive || text.all isCaseless then some (.exact text)
  else if text.all isAscii then
    some (.asciiFold text (text.contains 's' || text.contains 'k'))
  else none

def literalPrefix (bytecode : List UInt8) (flags : ℕ) : Option Prefix × Bool :=
  if flags = ignoreCase + unicode then
    let found := prtsRePrefix bytecode 32
    match found.points.mapM charFromU32 with
    | none | some [] => (none, false)
    | some text => (classify (found.mode == some true) text, found.complete)
  else (none, false)

def Prefix.text : Prefix → List Char
  | .exact text | .asciiFold text _ => text

def compileFlags (e : Engine) (pattern : String) (flags : ℕ) : Except String Regex := do
  let bytecode ← e.compile pattern flags
  let (literal, completeLiteral) := literalPrefix bytecode flags
  return ⟨bytecode, literal, completeLiteral,
    literal.any fun l => BlockFilter.supports (encode l.text)⟩

def compile (e : Engine) (pattern : String) : Except String Regex :=
  compileFlags e pattern (ignoreCase + unicode)

def longS : List UInt8 := [0xc5, 0xbf]

def kelvin : List UInt8 := [0xe2, 0x84, 0xaa]

def asciiByte (b : UInt8) : Bool := b.toNat < 128

/-- The literal stands at the head of the bytes, up to the folds of a Unicode pattern. -/
def matchesAt : List UInt8 → List UInt8 → Bool
  | _, [] => true
  | [], _ :: _ => false
  | actual :: text, expected :: literal =>
    if asciiByte actual && toAsciiLowercase actual == toAsciiLowercase expected then
      matchesAt text literal
    else if toAsciiLowercase expected == 115 && longS.isPrefixOf (actual :: text) then
      matchesAt (text.drop 1) literal
    else if toAsciiLowercase expected == 107 && kelvin.isPrefixOf (actual :: text) then
      matchesAt (text.drop 2) literal
    else false

/-- The bytes that `memchr` looks for: a fold of the literal's first byte may begin with them. -/
def isCandidate (first byte : UInt8) : Bool :=
  toAsciiLowercase byte == first || (first == 115 && byte == 0xc5) || (first == 107 && byte == 0xe2)

def asciiIuContains (text literal : List UInt8) : Bool :=
  text.tails.any fun tail =>
    (tail.head?.any fun byte =>
      isCandidate (toAsciiLowercase (literal.headD 0)) byte) && matchesAt tail literal

/-- The loop over the places of the literal's first byte; without an answer, a fold may be hidden
in the place it has come to. -/
def foldScan (literal : List UInt8) (specialFolds : Bool) : List UInt8 → Option Bool
  | [] => some false
  | byte :: rest =>
    let candidate := (byte :: rest).take literal.length
    if toAsciiLowercase byte == toAsciiLowercase (literal.headD 0) &&
        candidate.length == literal.length then
      if candidate.map toAsciiLowercase == literal.map toAsciiLowercase then some true
      else if specialFolds && !candidate.all asciiByte then none
      else foldScan literal specialFolds rest
    else foldScan literal specialFolds rest

def asciiFoldContains (text literal : List UInt8) (specialFolds : Bool) : Option Bool :=
  if (literal.head? == some 115 && contains text longS) ||
      (literal.head? == some 107 && contains text kelvin) then none
  else foldScan literal specialFolds text

def utf16Length (text : List Char) : ℕ :=
  (text.map fun c => if c.toNat < 0x10000 then 1 else 2).sum

def Regex.nativeMatch (e : Engine) (re : Regex) (text : List Char) : Except String Bool :=
  if utf16Length text < 2 ^ 31 then e.exec re.bytecode text
  else .error "Regular expression input too long"

/-- What is left to do once the literal was looked for. -/
def Regex.afterLiteral (e : Engine) (re : Regex) (text : List Char) (found : Bool) :
    Except String Bool :=
  if !found then .ok false
  else if re.completeLiteral then .ok true
  else re.nativeMatch e text

def Regex.isMatch (e : Engine) (cancelled : Bool) (re : Regex) (text : List Char) :
    Except String Bool :=
  if cancelled then .error "Query cancelled"
  else match re.literal with
    | none => re.nativeMatch e text
    | some (.exact literal) => re.afterLiteral e text (contains text literal)
    | some (.asciiFold literal specialFolds) =>
      match asciiFoldContains (encode text) (encode literal) specialFolds with
      | some found => re.afterLiteral e text found
      | none => re.nativeMatch e text

def Regex.mayMatchBytes (re : Regex) (bytes : List UInt8) : Bool :=
  match re.literal with
  | some (.exact text) => contains bytes (encode text)
  | some (.asciiFold literal _) => asciiIuContains bytes (encode literal)
  | none => true

def Regex.mayMatchFilter (re : Regex) (filter : BlockFilter.Filter) : Bool :=
  match re.literal with
  | some l => filter.mayContain (encode l.text)
  | none => true

/-- What the code relies on in the vendored compiler and matcher. `finds` is the matching that the
engine implements: it obeys the instructions, and a run that ends with an answer decides it. -/
structure Engine.Lawful (e : Engine) (finds : List UInt8 → Thread → Prop) : Prop where
  fold_ascii : ∀ c, 128 ≤ c → e.fold c < 128 →
    (c = 0x17f ∧ e.fold c = 115) ∨ (c = 0x212a ∧ e.fold c = 107)
  fold_cjk : ∀ c, 128 ≤ c → (0x4e00 ≤ c ∧ c ≤ 0x9fff) ∨ (0x4e00 ≤ e.fold c ∧ e.fold c ≤ 0x9fff) →
    e.fold c = c
  canonical : ∀ pattern bc, e.compile pattern (ignoreCase + unicode) = .ok bc →
    (prtsRePrefix bc 32).mode = some true →
      ∀ val ∈ (prtsRePrefix bc 32).points, canonicalize e.fold val = val
  obeys : ∀ pattern bc, e.compile pattern (ignoreCase + unicode) = .ok bc →
    Obeys e.fold bc (finds bc)
  exec : ∀ pattern bc, e.compile pattern (ignoreCase + unicode) = .ok bc →
    ∀ text b, e.exec bc text = .ok b → (b = true ↔ finds bc (start text))

section Folding

variable {e : Engine} {finds : List UInt8 → Thread → Prop}

theorem toNat_toAsciiLowercase {n : ℕ} (h : n < 128) (fold : ℕ → ℕ) :
    (toAsciiLowercase (UInt8.ofNat n)).toNat = canonicalize fold n := by
  have hn : n % 256 = n := Nat.mod_eq_of_lt (by omega)
  unfold toAsciiLowercase canonicalize
  simp only [UInt8.toNat_ofNat', Nat.reducePow, hn, h, if_true]
  split
  · simp only [UInt8.toNat_add, UInt8.toNat_ofNat', Nat.reducePow, hn]
    simp
    omega
  · simp [hn]

theorem toAsciiLowercase_eq_iff {m n : ℕ} (hm : m < 128) (hn : n < 128) (fold : ℕ → ℕ) :
    toAsciiLowercase (UInt8.ofNat m) = toAsciiLowercase (UInt8.ofNat n) ↔
      canonicalize fold m = canonicalize fold n := by
  rw [← UInt8.toNat_inj, toNat_toAsciiLowercase hm fold, toNat_toAsciiLowercase hn fold]

theorem utf8EncodeChar_of_ascii {c : Char} (h : c.toNat < 128) :
    String.utf8EncodeChar c = [UInt8.ofNat c.toNat] := by
  have hc : c.val.toNat = c.toNat := rfl
  unfold String.utf8EncodeChar
  simp only [hc]
  rw [if_pos (by omega)]

/-- Nothing but a caseless character itself fits it. -/
theorem Engine.Lawful.fits_caseless (h : e.Lawful finds) {insensitive : Bool} {l c : Char}
    (hl : insensitive = false ∨ isCaseless l = true) :
    fits e.fold insensitive l.toNat c = true ↔ c = l := by
  rw [fits, decide_eq_true_iff]
  cases insensitive with
  | false =>
    rw [if_neg Bool.false_ne_true, eq_comm, Char.toNat_inj]
  | true =>
    have hl : isCaseless l = true := by simpa using hl
    simp only [isCaseless, isAscii, isAsciiAlphabetic, Bool.or_eq_true, Bool.and_eq_true,
      Bool.not_eq_true', Bool.or_eq_false_iff, Bool.and_eq_false_iff, decide_eq_true_eq,
      decide_eq_false_iff_not] at hl
    rw [if_pos rfl, ← Char.toNat_inj]
    have hascii := h.fold_ascii c.toNat
    have hcjk := h.fold_cjk c.toNat
    unfold canonicalize
    constructor
    · intro heq
      split at heq
      · split at heq <;> omega
      · omega
    · intro heq
      split
      · split <;> omega
      · omega

/-- A character that matches an ASCII character of a literal, regardless of case. -/
inductive AsciiMatch (l c : Char) : Prop
  | ascii (small : c.toNat < 128)
    (same : toAsciiLowercase (UInt8.ofNat c.toNat) = toAsciiLowercase (UInt8.ofNat l.toNat))
  | longS (value : c.toNat = 0x17f) (letter : l.toNat = 115)
  | kelvin (value : c.toNat = 0x212a) (letter : l.toNat = 107)

theorem Engine.Lawful.asciiMatch (h : e.Lawful finds) {l c : Char} (hl : l.toNat < 128)
    (hfits : fits e.fold true l.toNat c = true) : AsciiMatch l c := by
  rw [fits, decide_eq_true_iff, if_pos rfl] at hfits
  by_cases hc : c.toNat < 128
  · refine .ascii hc ?_
    have hcanonical : canonicalize e.fold l.toNat = l.toNat := by
      rw [hfits]
      unfold canonicalize
      split_ifs <;> omega
    rw [toAsciiLowercase_eq_iff hc hl e.fold, hcanonical, hfits]
  · rw [canonicalize, if_neg hc] at hfits
    rcases h.fold_ascii c.toNat (by omega) (by omega) with ⟨hvalue, hfold⟩ | ⟨hvalue, hfold⟩
    · exact .longS hvalue (hfits.trans hfold)
    · exact .kelvin hvalue (hfits.trans hfold)

theorem fits_of_ascii {fold : ℕ → ℕ} {l c : Char} (hl : l.toNat < 128)
    (hcanonical : canonicalize fold l.toNat = l.toNat) (hc : c.toNat < 128)
    (same : toAsciiLowercase (UInt8.ofNat c.toNat) = toAsciiLowercase (UInt8.ofNat l.toNat)) :
    fits fold true l.toNat c = true := by
  rw [toAsciiLowercase_eq_iff hc hl fold, hcanonical] at same
  simpa [fits] using same.symm

/-- Both fold to the same bytes of a block. -/
theorem AsciiMatch.foldChar {l c : Char} (h : AsciiMatch l c) (hl : l.toNat < 128) :
    foldChar l = foldChar c := by
  have hsmall : ∀ c : Char, c.toNat < 128 →
      BlockFilter.foldChar c = [toAsciiLowercase (UInt8.ofNat c.toNat)] := by
    intro c hc
    rw [BlockFilter.foldChar, if_neg (by omega), if_neg (by omega), utf8EncodeChar_of_ascii hc]
    rfl
  rw [hsmall l hl]
  cases h with
  | ascii hc hsame => rw [hsmall c hc, hsame]
  | longS hc hletter =>
    rw [BlockFilter.foldChar, if_pos hc, hletter]
    rfl
  | kelvin hc hletter =>
    rw [BlockFilter.foldChar, if_neg (by omega), if_pos hc, hletter]
    rfl

end Folding

section Searches

variable {literal m text : List Char}

theorem utf8EncodeChar_longS {c : Char} (h : c.toNat = 0x17f) :
    String.utf8EncodeChar c = longS := by
  obtain rfl : c = Char.ofNat 0x17f := Char.toNat_inj.mp h
  rfl

theorem utf8EncodeChar_kelvin {c : Char} (h : c.toNat = 0x212a) :
    String.utf8EncodeChar c = kelvin := by
  obtain rfl : c = Char.ofNat 0x212a := Char.toNat_inj.mp h
  rfl

theorem encode_cons_of_ascii {c : Char} (h : c.toNat < 128) (text : List Char) :
    encode (c :: text) = UInt8.ofNat c.toNat :: encode text := by
  rw [encode_cons, utf8EncodeChar_of_ascii h]
  rfl

theorem asciiByte_ofNat {n : ℕ} (h : n < 128) : asciiByte (UInt8.ofNat n) = true := by
  simp [asciiByte]
  omega

theorem matchesAt_of_asciiMatch (h : List.Forall₂ AsciiMatch literal m)
    (hliteral : ∀ l ∈ literal, l.toNat < 128) (rest : List UInt8) :
    matchesAt (encode m ++ rest) (encode literal) = true := by
  induction h with
  | nil => rfl
  | @cons l c literal m hlc _ ih =>
    have hrest := ih fun l' hl' => hliteral l' (by simp [hl'])
    rw [encode_cons_of_ascii (hliteral l (by simp))]
    cases hlc with
    | ascii hc hsame =>
      rw [encode_cons_of_ascii hc, List.cons_append, matchesAt, if_pos]
      · exact hrest
      · simp [asciiByte_ofNat hc, hsame]
    | longS hc hletter =>
      rw [encode_cons, utf8EncodeChar_longS hc, hletter]
      exact hrest
    | kelvin hc hletter =>
      rw [encode_cons, utf8EncodeChar_kelvin hc, hletter]
      exact hrest

/-- The first byte of a place that matches is one that the search stops at. -/
theorem isCandidate_of_asciiMatch {l c : Char} (h : AsciiMatch l c) (rest : List UInt8) :
    (String.utf8EncodeChar c ++ rest).head?.any
      (isCandidate (toAsciiLowercase (UInt8.ofNat l.toNat))) = true := by
  cases h with
  | ascii hc hsame => simp [utf8EncodeChar_of_ascii hc, isCandidate, hsame]
  | longS hc hletter =>
    rw [utf8EncodeChar_longS hc, hletter]
    rfl
  | kelvin hc hletter =>
    rw [utf8EncodeChar_kelvin hc, hletter]
    rfl

theorem asciiIuContains_of_asciiMatch (h : List.Forall₂ AsciiMatch literal m)
    (hliteral : ∀ l ∈ literal, l.toNat < 128) (hne : literal ≠ []) (hm : m <:+: text)
    (before after : List UInt8) :
    asciiIuContains (before ++ encode text ++ after) (encode literal) = true := by
  obtain ⟨a, b, rfl⟩ := hm
  refine List.any_eq_true.mpr ⟨encode m ++ (encode b ++ after), ?_, ?_⟩
  · exact (List.mem_tails _ _).mpr ⟨before ++ encode a, by simp⟩
  · have hmatches := matchesAt_of_asciiMatch h hliteral (encode b ++ after)
    cases h with
    | nil => exact absurd rfl hne
    | @cons l c literal m hlc hrest =>
      have hcandidate := isCandidate_of_asciiMatch hlc (encode m ++ (encode b ++ after))
      have hfirst : (encode (l :: literal)).headD 0 = UInt8.ofNat l.toNat := by
        rw [encode_cons_of_ascii (hliteral l (by simp))]
        rfl
      rw [hmatches, hfirst, encode_cons, List.append_assoc, hcandidate]
      rfl

/-- Bytes before a place cannot make the scan miss it. -/
theorem foldScan_append {bytes : List UInt8} {specialFolds : Bool} (before : List UInt8)
    {rest : List UInt8} (h : foldScan bytes specialFolds rest ≠ some false) :
    foldScan bytes specialFolds (before ++ rest) ≠ some false := by
  induction before with
  | nil => exact h
  | cons byte before ih =>
    rw [List.cons_append, foldScan]
    split
    · split
      · simp
      · split
        · simp
        · exact ih
    · exact ih

/-- Where the scan finds the literal, its bytes stand there up to their case. -/
theorem exists_of_foldScan {bytes text : List UInt8} {specialFolds : Bool}
    (h : foldScan bytes specialFolds text = some true) :
    ∃ p q r, text = p ++ (q ++ r) ∧
      q.map toAsciiLowercase = bytes.map toAsciiLowercase := by
  induction text with
  | nil => simp [foldScan] at h
  | cons byte text ih =>
    rw [foldScan] at h
    have hrest : foldScan bytes specialFolds text = some true →
        ∃ p q r, byte :: text = p ++ (q ++ r) ∧
          q.map toAsciiLowercase = bytes.map toAsciiLowercase := by
      intro htext
      obtain ⟨p, q, r, rfl, hq⟩ := ih htext
      exact ⟨byte :: p, q, r, rfl, hq⟩
    split at h
    · split at h
      · next heq =>
        exact ⟨[], (byte :: text).take bytes.length, (byte :: text).drop bytes.length,
          (List.take_append_drop ..).symm, eq_of_beq heq⟩
      · split at h
        · cases h
        · exact hrest h
    · exact hrest h

/-- As many bytes as a text has characters are all ASCII only when the characters are. -/
theorem ascii_of_take (rest : List UInt8)
    (h : ∀ byte ∈ (encode m ++ rest).take m.length, byte.toNat < 128) :
    ∀ c ∈ m, c.toNat < 128 := by
  induction m with
  | nil => simp
  | cons c m ih =>
    have hc := encodedChar c
    rw [encode_cons] at h
    generalize hbytes : String.utf8EncodeChar c = bytes at h hc
    cases hc with
    | ascii b hvalue hsmall =>
      rintro c' (_ | ⟨_, hc'⟩)
      · exact hsmall
      · exact ih (fun byte hbyte => h byte (by simp [hbyte])) c' hc'
    | wide lead next tail hlarge hlead hnext htail =>
      have := h lead (by simp)
      omega

theorem encode_of_ascii (h : ∀ c ∈ m, c.toNat < 128) :
    encode m = m.map fun c => UInt8.ofNat c.toNat := by
  induction m with
  | nil => rfl
  | cons c m ih =>
    rw [encode_cons_of_ascii (h c (by simp)), ih fun c' hc' => h c' (by simp [hc'])]
    rfl

theorem map_toAsciiLowercase_of_asciiMatch (h : List.Forall₂ AsciiMatch literal m)
    (hliteral : ∀ l ∈ literal, l.toNat < 128) (hm : ∀ c ∈ m, c.toNat < 128) :
    (encode m).map toAsciiLowercase = (encode literal).map toAsciiLowercase := by
  rw [encode_of_ascii hm, encode_of_ascii hliteral]
  induction h with
  | nil => rfl
  | @cons l c literal m hlc _ ih =>
    have hsame : toAsciiLowercase (UInt8.ofNat c.toNat) = toAsciiLowercase (UInt8.ofNat l.toNat) := by
      cases hlc with
      | ascii _ hsame => exact hsame
      | longS hc _ | kelvin hc _ =>
        have := hm c (by simp)
        omega
    have hrest := ih (fun l' hl' => hliteral l' (by simp [hl'])) fun c' hc' => hm c' (by simp [hc'])
    simp only [List.map_cons, hsame, hrest]

/-- Only the letters s and k match a character outside ASCII. -/
theorem specialFolds_of_asciiMatch (h : List.Forall₂ AsciiMatch literal m) {c : Char} (hc : c ∈ m)
    (hlarge : ¬ c.toNat < 128) : (literal.contains 's' || literal.contains 'k') = true := by
  induction h with
  | nil => simp at hc
  | @cons l c' literal m hlc _ ih =>
    rcases List.mem_cons.mp hc with rfl | hc
    · cases hlc with
      | ascii hsmall _ => exact absurd hsmall hlarge
      | longS _ hletter =>
        obtain rfl : l = 's' := Char.toNat_inj.mp hletter
        simp
      | kelvin _ hletter =>
        obtain rfl : l = 'k' := Char.toNat_inj.mp hletter
        simp
    · have := ih hc
      simp only [List.contains_cons, Bool.or_eq_true] at this ⊢
      tauto

theorem length_le_length_encode (text : List Char) : text.length ≤ (encode text).length := by
  induction text with
  | nil => simp
  | cons c text ih =>
    have := List.length_pos_iff.mpr (encodedChar c).ne_nil
    rw [encode_cons, List.length_append, List.length_cons]
    omega

/-- The scan answers or gives up at a place where the literal matches, unless the match begins
with a fold. -/
theorem foldScan_of_asciiMatch (h : List.Forall₂ AsciiMatch literal m)
    (hliteral : ∀ l ∈ literal, l.toNat < 128) (hne : literal ≠ []) {specialFolds : Bool}
    (hspecial : specialFolds = (literal.contains 's' || literal.contains 'k'))
    (hfirst : ∀ c ∈ m.head?, c.toNat < 128) (rest : List UInt8) :
    foldScan (encode literal) specialFolds (encode m ++ rest) ≠ some false := by
  have hlength : (encode literal).length = m.length := by
    rw [encode_of_ascii hliteral, List.length_map, h.length_eq]
  set place := encode m ++ rest with hplace
  have hcandidate : (place.take m.length).map toAsciiLowercase =
      (encode literal).map toAsciiLowercase ∨
        (specialFolds && !(place.take m.length).all asciiByte) = true := by
    by_cases hascii : ∀ c ∈ m, c.toNat < 128
    · left
      have htake : place.take m.length = encode m := by
        have hm : (encode m).length = m.length := by rw [encode_of_ascii hascii, List.length_map]
        rw [hplace, ← hm, List.take_left]
      rw [htake, map_toAsciiLowercase_of_asciiMatch h hliteral hascii]
    · right
      push Not at hascii
      obtain ⟨c, hc, hlarge⟩ := hascii
      have hbytes : ¬ (place.take m.length).all asciiByte = true := by
        intro hall
        have hsmall := ascii_of_take rest
          (fun byte hbyte => by simpa [asciiByte] using List.all_eq_true.mp hall byte hbyte) c hc
        omega
      rw [hspecial, specialFolds_of_asciiMatch h hc (by omega)]
      simpa using hbytes
  cases h with
  | nil => exact absurd rfl hne
  | @cons l c literal m hlc hrest =>
    have hc : c.toNat < 128 := hfirst c rfl
    have hsame : toAsciiLowercase (UInt8.ofNat c.toNat) = toAsciiLowercase (UInt8.ofNat l.toNat) := by
      cases hlc with
      | ascii _ hsame => exact hsame
      | longS hc' _ | kelvin hc' _ => omega
    have hhead : (encode (l :: literal)).headD 0 = UInt8.ofNat l.toNat := by
      rw [encode_cons_of_ascii (hliteral l (by simp))]
      rfl
    have hcons : place = UInt8.ofNat c.toNat :: (encode m ++ rest) := by
      rw [hplace, encode_cons_of_ascii hc]
      rfl
    have hlong : (place.take (c :: m).length).length = (c :: m).length := by
      have := length_le_length_encode (c :: m)
      rw [List.length_take, hplace, List.length_append]
      omega
    rw [hcons] at hcandidate hlong ⊢
    rw [foldScan, hlength, hhead, hsame, hlong]
    simp only [beq_self_eq_true, Bool.and_self, if_true]
    rcases hcandidate with heq | hspecial'
    · rw [if_pos (by rw [heq, beq_self_eq_true])]
      exact fun h => by cases h
    · rw [if_pos hspecial']
      split <;> exact fun h => by cases h

/-- Without the literal in the text, up to the folds, the search answers no. -/
theorem asciiFoldContains_of_asciiMatch (h : List.Forall₂ AsciiMatch literal m)
    (hliteral : ∀ l ∈ literal, l.toNat < 128) (hne : literal ≠ []) {specialFolds : Bool}
    (hspecial : specialFolds = (literal.contains 's' || literal.contains 'k'))
    (hm : m <:+: text) :
    asciiFoldContains (encode text) (encode literal) specialFolds ≠ some false := by
  unfold asciiFoldContains
  split
  · exact fun h => by cases h
  · next hplain =>
    obtain ⟨a, b, rfl⟩ := hm
    have hencode : encode (a ++ m ++ b) = encode a ++ (encode m ++ encode b) := by simp
    rw [hencode]
    refine foldScan_append _ (foldScan_of_asciiMatch h hliteral hne hspecial (fun c hc => ?_) _)
    cases h with
    | nil => cases hc
    | @cons l c' literal m hlc hrest =>
      obtain rfl : c' = c := by simpa using hc
      have hhead : (encode (l :: literal)).head? = some (UInt8.ofNat l.toNat) := by
        rw [encode_cons_of_ascii (hliteral l (by simp))]
        rfl
      rw [hhead, hencode, encode_cons c'] at hplain
      cases hlc with
      | ascii hsmall _ => exact hsmall
      | longS hc' hletter =>
        refine absurd ?_ hplain
        have : longS <:+: encode a ++ (longS ++ (encode m ++ encode b)) :=
          ⟨encode a, encode m ++ encode b, by simp⟩
        simp [hletter, utf8EncodeChar_longS hc', contains_iff.mpr this]
      | kelvin hc' hletter =>
        refine absurd ?_ hplain
        have : kelvin <:+: encode a ++ (kelvin ++ (encode m ++ encode b)) :=
          ⟨encode a, encode m ++ encode b, by simp⟩
        simp [hletter, utf8EncodeChar_kelvin hc', contains_iff.mpr this]

theorem toNat_lt_of_toAsciiLowercase {b : UInt8} (h : (toAsciiLowercase b).toNat < 128) :
    b.toNat < 128 := by
  unfold toAsciiLowercase at h
  split at h
  · omega
  · exact h

/-- Bytes that agree with the literal up to case, read as characters. -/
theorem forall₂_of_map_toAsciiLowercase {bytes : List UInt8}
    (hm : List.Forall₂ (fun c byte => c.toNat = byte.toNat) m bytes)
    (hsmall : ∀ b ∈ bytes, b.toNat < 128)
    (h : bytes.map toAsciiLowercase =
      literal.map (toAsciiLowercase ∘ fun l => UInt8.ofNat l.toNat)) :
    List.Forall₂ (fun l c => c.toNat < 128 ∧
      toAsciiLowercase (UInt8.ofNat c.toNat) = toAsciiLowercase (UInt8.ofNat l.toNat)) literal m := by
  induction hm generalizing literal with
  | nil =>
    obtain rfl : literal = [] := by simpa using h
    exact .nil
  | @cons c byte m bytes hc _ ih =>
    cases literal with
    | nil => cases h
    | cons l literal =>
      obtain ⟨hhead, htail⟩ := List.cons.inj h
      have hbyte : UInt8.ofNat c.toNat = byte := by rw [hc, UInt8.ofNat_toNat]
      refine .cons ⟨hc ▸ hsmall byte (by simp), ?_⟩
        (ih (fun b hb => hsmall b (by simp [hb])) htail)
      rw [hbyte, hhead]
      rfl

/-- Where the search answers yes, the literal stands in the text up to the case of ASCII
letters. -/
theorem exists_of_asciiFoldContains {specialFolds : Bool}
    (hliteral : ∀ l ∈ literal, l.toNat < 128) (hne : literal ≠ [])
    (h : asciiFoldContains (encode text) (encode literal) specialFolds = some true) :
    ∃ m, m <:+: text ∧ List.Forall₂ (fun l c => c.toNat < 128 ∧
      toAsciiLowercase (UInt8.ofNat c.toNat) = toAsciiLowercase (UInt8.ofNat l.toNat)) literal m := by
  unfold asciiFoldContains at h
  split at h
  · cases h
  · obtain ⟨p, q, r, htext, hq⟩ := exists_of_foldScan h
    rw [encode_of_ascii hliteral, List.map_map] at hq
    have hsmall : ∀ b ∈ q, b.toNat < 128 := by
      intro b hb
      have hmem : toAsciiLowercase b ∈ q.map toAsciiLowercase := List.mem_map_of_mem hb
      rw [hq, List.mem_map] at hmem
      obtain ⟨l, hl, heq⟩ := hmem
      refine toNat_lt_of_toAsciiLowercase ?_
      rw [← heq, Function.comp_apply, toNat_toAsciiLowercase (hliteral l hl) id]
      have := hliteral l hl
      unfold canonicalize
      split_ifs <;> omega
    have hqne : q ≠ [] := by
      rintro rfl
      simp [hne] at hq
    obtain ⟨a, m, b, rfl, -, hm⟩ := ascii_segment htext hqne hsmall
    exact ⟨m, ⟨a, b, by simp⟩, forall₂_of_map_toAsciiLowercase hm hsmall hq⟩

end Searches

end PrtsMcp.JsRegex
