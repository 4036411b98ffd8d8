import PrtsMcp.McpEndpoint
import PrtsMcp.Patterns

/-!
# Wikitext

Markup is taken out of a page in passes, each a scan over the characters in place of a replacement
of a pattern. Most scans do what their pattern says; the scan for piped links also unwraps links
without a display text, and both scans for links drop the empty ones.
-/
namespace PrtsMcp.Wikitext

open Patterns
open McpEndpoint (trimmed)

/-! ## Scans -/

/-- How far off the first bracket is, if it is a double one. -/
def findClose (bracket : Char) : List Char → Option ℕ
  | [] => none
  | c :: rest =>
    if c = bracket then if rest.head? = some bracket then some 0 else none
    else (findClose bracket rest).map (· + 1)

def findDoubleClose : List Char → Option ℕ := findClose '}'

def findLinkClose : List Char → Option ℕ := findClose ']'

def templateStep : List Char → Option (List Char × ℕ)
  | '{' :: '{' :: rest => (findDoubleClose rest).map fun close => ([], close + 3)
  | _ => none

def removeTemplates (text : List Char) : List Char := sweep templateStep 0 text

def linkStep (prefixes : List (List Char)) (render : List Char → Bool → List Char) :
    List Char → Option (List Char × ℕ)
  | '[' :: '[' :: rest => (findLinkClose rest).bind fun close =>
    let inner := rest.take close
    if prefixes = [] then some (render inner false, close + 3)
    else if prefixes.any fun p => p.isPrefixOf inner && (inner.drop p.length).head? = some ':' then
      some (render inner true, close + 3)
    else none
  | _ => none

/-- The spans between double brackets, all of them where no prefixes are given. -/
def replacePrefixedLinks (text : List Char) (prefixes : List (List Char))
    (render : List Char → Bool → List Char) : List Char :=
  sweep (linkStep prefixes render) 0 text

def mediaPrefixes : List (List Char) :=
  [['F', 'i', 'l', 'e'], ['文', '件'], ['I', 'm', 'a', 'g', 'e'], ['图', '像']]

def categoryPrefixes : List (List Char) :=
  [['C', 'a', 't', 'e', 'g', 'o', 'r', 'y'], ['分', '类']]

def removeMediaLinks (text : List Char) : List Char :=
  replacePrefixedLinks text mediaPrefixes fun _ _ => []

/-- The text after the first bar, unless it is empty. -/
def display (inner : List Char) : Option (List Char) :=
  (inner.findIdx? (· = '|')).bind fun idx =>
    if idx + 1 < inner.length then some (inner.drop (idx + 1)) else none

def keepLinkDisplay (text : List Char) : List Char :=
  replacePrefixedLinks text [] fun inner _ => (display inner).getD inner

def unwrapLinks (text : List Char) : List Char := replacePrefixedLinks text [] fun inner _ => inner

def removeCategoryLinks (text : List Char) : List Char :=
  replacePrefixedLinks text categoryPrefixes fun _ _ => []

def tagStep : List Char → Option (List Char × ℕ)
  | '<' :: rest => (rest.findIdx? (· = '>')).bind fun close =>
    if 1 ≤ close then some ([], close + 1) else none
  | _ => none

def removeHtmlTags (text : List Char) : List Char := sweep tagStep 0 text

def stripHtmlTags (text : List Char) : List Char := removeHtmlTags text

/-- Of a run of line ends the first two are kept; `run` of them have been read. -/
def collapseFrom : ℕ → List Char → List Char
  | _, [] => []
  | run, ch :: rest =>
    if ch = '\n' then
      if run + 1 ≤ 2 then ch :: collapseFrom (run + 1) rest else collapseFrom (run + 1) rest
    else ch :: collapseFrom 0 rest

def collapseBlankLines (text : List Char) : List Char := collapseFrom 0 text

def stripWikitext (text : List Char) : List Char :=
  let text := removeTemplates text
  let text := removeMediaLinks text
  let text := keepLinkDisplay text
  let text := unwrapLinks text
  let text := removeHtmlTags text
  let text := removeCategoryLinks text
  trimmed (collapseBlankLines text)

/-! ## Documented patterns -/

def except (excluded : List Char) (c : Char) : Bool := !excluded.contains c

/-- `\{\{[^}]*\}\}` -/
def templatePattern : List (Item Char) :=
  [.word ['{', '{'], .run (except ['}']) 0, .word ['}', '}']]

/-- `\[\[(...):[^\]]*\]\]` -/
def prefixedPattern (prefixes : List (List Char)) : List (Item Char) :=
  [.word ['[', '['], .words prefixes, .word [':'], .run (except [']']) 0, .word [']', ']']]

/-- `\[\[[^|\]]*\|([^\]]+)\]\]` -/
def pipedPattern : List (Item Char) :=
  [.word ['[', '['], .run (except ['|', ']']) 0, .word ['|'], .run (except [']']) 1,
    .word [']', ']']]

/-- `\[\[([^\]]+)\]\]` -/
def linkPattern : List (Item Char) := [.word ['[', '['], .run (except [']']) 1, .word [']', ']']]

/-- `<[^>]+>` -/
def tagPattern : List (Item Char) := [.word ['<'], .run (except ['>']) 1, .word ['>']]

/-- `\n{3,}` -/
def blankPattern : List (Item Char) := [.run (· = '\n') 3]

def withoutTemplates : List Char → List Char := replaceAll templatePattern fun _ => []

def withoutMedia : List Char → List Char := replaceAll (prefixedPattern mediaPrefixes) fun _ => []

/-- `$1`, what the fourth item takes. -/
def withDisplays : List Char → List Char := replaceAll pipedPattern fun found => found.getD 3 []

/-- `$1`, what the second item takes. -/
def withoutLinks : List Char → List Char := replaceAll linkPattern fun found => found.getD 1 []

def withoutTags : List Char → List Char := replaceAll tagPattern fun _ => []

def withoutCategories : List Char → List Char :=
  replaceAll (prefixedPattern categoryPrefixes) fun _ => []

def withoutBlanks : List Char → List Char := replaceAll blankPattern fun _ => ['\n', '\n']

/-- The replacements that the comments of the passes document, in order. -/
def documented (text : List Char) : List Char :=
  let text := withoutTemplates text
  let text := withoutMedia text
  let text := withDisplays text
  let text := withoutLinks text
  let text := withoutTags text
  let text := withoutCategories text
  trimmed (withoutBlanks text)

/-! ## Scans and patterns -/

@[simp]
theorem except_self (b : Char) : except [b] b = false := by simp [except]

theorem except_iff {b c : Char} : except [b] c = true ↔ c ≠ b := by simp [except]

theorem findClose_eq (b : Char) (s : List Char) :
    findClose b s = if [b, b] <+: s.dropWhile (except [b]) then
      some (s.takeWhile (except [b])).length else none := by
  induction s with
  | nil => simp [findClose]
  | cons c rest ih =>
    rw [findClose]
    by_cases hc : c = b
    · subst hc
      rw [List.dropWhile_cons_of_neg (by simp), List.takeWhile_cons_of_neg (by simp), if_pos rfl]
      cases rest <;> simp [eq_comm]
    · have hexcept : except [b] c = true := except_iff.mpr hc
      rw [if_neg hc, List.dropWhile_cons_of_pos hexcept, List.takeWhile_cons_of_pos hexcept, ih]
      split_ifs <;> rfl

theorem findClose_le {b : Char} {s : List Char} {close : ℕ} (h : findClose b s = some close) :
    close + 2 ≤ s.length := by
  rw [findClose_eq] at h
  split_ifs at h with hclose
  obtain rfl := Option.some.inj h
  have hle := hclose.length_le
  rw [← drop_takeWhile, List.length_drop] at hle
  have htwo : [b, b].length = 2 := rfl
  omega

/-- A run up to a bracket and a double bracket match where the scan for it succeeds. -/
theorem matchItems_close (b : Char) (least : ℕ) (s : List Char) :
    matchItems [.run (except [b]) least, .word [b, b]] s = (findClose b s).bind fun close =>
      if least ≤ close then some ([s.take close, [b, b]], s.drop (close + 2)) else none := by
  rw [matchItems_run_word (except_self b), matchItems_word, findClose_eq]
  by_cases hclose : [b, b] <+: s.dropWhile (except [b])
  · rw [if_pos hclose, if_pos hclose, Option.bind_some, take_takeWhile, ← List.drop_drop,
      drop_takeWhile]
    rfl
  · simp [hclose]

theorem templateStep_eq (s : List Char) :
    templateStep s = (matchItems templatePattern s).map fun found =>
      ([], s.length - found.2.length - 1) := by
  by_cases hopen : ['{', '{'] <+: s
  · obtain ⟨rest, rfl⟩ := hopen
    rw [templatePattern, matchItems_word_append, matchItems_close]
    cases hclose : findClose '}' rest with
    | none => simp [templateStep, findDoubleClose, hclose]
    | some close =>
      have hle := findClose_le hclose
      simp [templateStep, findDoubleClose, hclose]
      omega
  · rw [templatePattern, matchItems_word, if_neg hopen]
    unfold templateStep
    split
    · exact absurd ⟨_, rfl⟩ hopen
    · rfl

theorem removeTemplates_eq (text : List Char) : removeTemplates text = withoutTemplates text := by
  rw [removeTemplates, sweep_congr templateStep_eq]
  rfl

/-- The inner text of a link that begins the text. -/
def linkAt : List Char → Option (List Char)
  | '[' :: '[' :: rest => (findLinkClose rest).map rest.take
  | _ => none

theorem linkAt_eq_none {s : List Char} (h : ¬ ['[', '['] <+: s) : linkAt s = none := by
  unfold linkAt
  split
  · exact absurd ⟨_, rfl⟩ h
  · rfl

theorem findClose_append {b : Char} {first : List Char} (h : b ∉ first) (s : List Char) :
    findClose b (first ++ s) = (findClose b s).map (· + first.length) := by
  induction first with
  | nil => simp
  | cons c first ih =>
    rw [List.mem_cons, not_or] at h
    rw [List.cons_append, findClose, if_neg (Ne.symm h.1), ih h.2, Option.map_map]
    congr 1

@[simp]
theorem findClose_pair (b : Char) (rest : List Char) : findClose b (b :: b :: rest) = some 0 := by
  simp [findClose]

theorem not_mem_take_of_findClose {b : Char} {s : List Char} {close : ℕ}
    (h : findClose b s = some close) : b ∉ s.take close := by
  rw [findClose_eq] at h
  split_ifs at h
  obtain rfl := Option.some.inj h
  rw [take_takeWhile]
  exact fun hb => except_iff.mp (List.mem_takeWhile_imp hb) rfl

theorem linkAt_link {inner : List Char} (h : ']' ∉ inner) (rest : List Char) :
    linkAt ('[' :: '[' :: (inner ++ ']' :: ']' :: rest)) = some inner := by
  simp [linkAt, findLinkClose, findClose_append h]

/-- The text that follows the name of a prefix is a colon. -/
def hasPrefix (prefixes : List (List Char)) (inner : List Char) : Bool :=
  prefixes.any fun p => p.isPrefixOf inner && (inner.drop p.length).head? = some ':'

theorem linkStep_eq (prefixes : List (List Char)) (render : List Char → Bool → List Char)
    (s : List Char) :
    linkStep prefixes render s = (linkAt s).bind fun inner =>
      if prefixes = [] then some (render inner false, inner.length + 3)
      else if hasPrefix prefixes inner then some (render inner true, inner.length + 3)
      else none := by
  unfold linkStep linkAt
  split
  · cases hclose : findLinkClose _ with
    | none => rfl
    | some close =>
      have hle := findClose_le hclose
      rw [Option.bind_some, Option.map_some, Option.bind_some, List.length_take,
        Nat.min_eq_left (by omega)]
      rfl
  · rfl

theorem findClose_split {b : Char} {s : List Char} {close : ℕ} (h : findClose b s = some close) :
    ∃ rest, s = s.take close ++ b :: b :: rest := by
  rw [findClose_eq] at h
  split_ifs at h with hclose
  obtain rfl := Option.some.inj h
  obtain ⟨rest, hrest⟩ := hclose
  refine ⟨rest, ?_⟩
  calc
    s = s.takeWhile (except [b]) ++ s.dropWhile (except [b]) :=
      List.takeWhile_append_dropWhile.symm
    _ = s.take (s.takeWhile (except [b])).length ++ b :: b :: rest := by
      rw [take_takeWhile, ← hrest]
      rfl

theorem length_take_findClose {b : Char} {s : List Char} {close : ℕ}
    (h : findClose b s = some close) : (s.take close).length = close := by
  have hle := findClose_le h
  rw [List.length_take]
  omega

theorem length_taken {s : List Char} {close : ℕ} (h : findClose ']' s = some close) :
    (['[', '['] ++ s).length - (s.drop (close + 2)).length - 1 = close + 3 := by
  have hle := findClose_le h
  simp only [List.length_append, List.length_cons, List.length_nil, List.length_drop]
  omega

theorem linkAt_of_findClose {rest : List Char} {close : ℕ}
    (h : findClose ']' rest = some close) :
    linkAt (['[', '['] ++ rest) = some (rest.take close) := by
  simp [linkAt, findLinkClose, h]

theorem linkPattern_eq (s : List Char) :
    ((matchItems linkPattern s).map fun found =>
      (found.1.getD 1 [], s.length - found.2.length - 1)) =
    (linkAt s).bind fun inner => if inner = [] then none else some (inner, inner.length + 3) := by
  by_cases hopen : ['[', '['] <+: s
  · obtain ⟨rest, rfl⟩ := hopen
    rw [linkPattern, matchItems_word_append, matchItems_close]
    cases hclose : findClose ']' rest with
    | none => simp [linkAt, findLinkClose, hclose]
    | some close =>
      have hlength := length_take_findClose hclose
      rw [linkAt_of_findClose hclose, Option.bind_some, Option.bind_some]
      by_cases hpos : 1 ≤ close
      · have hne : rest.take close ≠ [] := List.ne_nil_of_length_pos (by omega)
        simp only [if_pos hpos, if_neg hne, Option.map_some, length_taken hclose, hlength]
        rfl
      · obtain rfl : close = 0 := by omega
        simp
  · rw [linkPattern, matchItems_word, if_neg hopen, linkAt_eq_none hopen]
    rfl

theorem display_of_not_mem {inner : List Char} (h : '|' ∉ inner) : display inner = none := by
  have hnone : inner.findIdx? (· = '|') = none := by
    rw [List.findIdx?_eq_none_iff]
    intro c hc
    exact decide_eq_false fun heq => h (heq ▸ hc)
  rw [display, hnone]
  rfl

theorem display_bar {first shown : List Char} (h : '|' ∉ first) :
    display (first ++ '|' :: shown) = if shown = [] then none else some shown := by
  have hidx : (first ++ '|' :: shown).findIdx? (· = '|') = some first.length := by
    have hnone : first.findIdx? (· = '|') = none := by
      rw [List.findIdx?_eq_none_iff]
      exact fun c hc => decide_eq_false fun heq => h (heq ▸ hc)
    simp [List.findIdx?_append, hnone, List.findIdx?_cons]
  rw [display, hidx, Option.bind_some]
  cases shown <;> simp

/-- What the piped pattern takes after the opening brackets. -/
theorem matchItems_piped (rest : List Char) :
    matchItems (pipedPattern.drop 1) rest = (findClose ']' rest).bind fun close =>
      (display (rest.take close)).map fun shown =>
        ([rest.takeWhile (except ['|', ']']), ['|'], shown, [']', ']']],
          rest.drop (close + 2)) := by
  rw [pipedPattern, List.drop_one, List.tail_cons, matchItems_run_word (by decide),
    if_pos (Nat.zero_le _)]
  have hbar : '|' ∉ rest.takeWhile (except ['|', ']']) :=
    fun h => absurd (List.mem_takeWhile_imp h) (by decide)
  have hclosing : ']' ∉ rest.takeWhile (except ['|', ']']) :=
    fun h => absurd (List.mem_takeWhile_imp h) (by decide)
  have hsplit := List.takeWhile_append_dropWhile (p := except ['|', ']']) (l := rest)
  have hhead := List.head?_dropWhile_not (except ['|', ']']) rest
  generalize rest.takeWhile (except ['|', ']']) = target at *
  generalize rest.dropWhile (except ['|', ']']) = after at *
  subst hsplit
  rw [findClose_append hclosing]
  cases after with
  | nil => simp [matchItems_word, findClose]
  | cons c tail =>
    by_cases hc : c = '|'
    · subst hc
      rw [show '|' :: tail = ['|'] ++ tail from rfl, matchItems_word_append, matchItems_close,
        List.singleton_append, findClose, if_neg (by decide)]
      cases hclose : findClose ']' tail with
      | none => simp
      | some close =>
        have hlength := length_take_findClose hclose
        have htake : (target ++ '|' :: tail).take (close + 1 + target.length) =
            target ++ '|' :: tail.take close := by
          rw [Nat.add_comm, List.take_length_add_append, List.take_succ_cons]
        have hdrop : (target ++ '|' :: tail).drop (close + 1 + target.length + 2) =
            tail.drop (close + 2) := by
          rw [show close + 1 + target.length + 2 = target.length + (close + 2 + 1) by omega,
            List.drop_length_add_append, List.drop_succ_cons]
        simp only [Option.map_some, Option.bind_some, htake, hdrop, display_bar hbar]
        by_cases hpos : 1 ≤ close
        · have hne : tail.take close ≠ [] := List.ne_nil_of_length_pos (by omega)
          simp [hpos, hne]
        · obtain rfl : close = 0 := by omega
          simp
    · obtain rfl : c = ']' := by
        have hc' : ¬ (c ≠ '|' ∧ c ≠ ']') := by simpa [except] using hhead
        tauto
      rw [matchItems_word, if_neg (by simp), findClose, if_pos rfl]
      split_ifs <;> simp [display_of_not_mem hbar]

theorem pipedPattern_eq (s : List Char) :
    ((matchItems pipedPattern s).map fun found =>
      (found.1.getD 3 [], s.length - found.2.length - 1)) =
    (linkAt s).bind fun inner =>
      (display inner).map fun shown => (shown, inner.length + 3) := by
  by_cases hopen : ['[', '['] <+: s
  · obtain ⟨rest, rfl⟩ := hopen
    have hitems := matchItems_piped rest
    rw [pipedPattern, List.drop_one, List.tail_cons] at hitems
    rw [pipedPattern, matchItems_word_append, hitems]
    cases hclose : findClose ']' rest with
    | none => simp [linkAt, findLinkClose, hclose]
    | some close =>
      have hlength := length_take_findClose hclose
      rw [linkAt_of_findClose hclose, Option.bind_some, Option.bind_some]
      cases display (rest.take close) with
      | none => rfl
      | some shown =>
        simp only [Option.map_some, length_taken hclose, hlength]
        rfl
  · rw [pipedPattern, matchItems_word, if_neg hopen, linkAt_eq_none hopen]
    rfl

theorem getElem?_findClose {b : Char} {s : List Char} {close : ℕ}
    (h : findClose b s = some close) : s[close]? = some b := by
  rw [findClose_eq] at h
  split_ifs at h with hclose
  obtain rfl := Option.some.inj h
  obtain ⟨rest, hrest⟩ := hclose
  rw [← Nat.add_zero (List.length _), ← List.getElem?_drop, drop_takeWhile, ← hrest]
  rfl

theorem named_iff {p s : List Char} :
    (p.isPrefixOf s && (s.drop p.length).head? = some ':') = true ↔ p ++ [':'] <+: s := by
  rw [Bool.and_eq_true, decide_eq_true_eq, List.isPrefixOf_iff_prefix]
  constructor
  · rintro ⟨⟨rest, rfl⟩, hhead⟩
    rw [List.drop_left] at hhead
    obtain ⟨tail, rfl⟩ := List.head?_eq_some_iff.mp hhead
    exact ⟨tail, by simp⟩
  · rintro ⟨rest, rfl⟩
    refine ⟨⟨':' :: rest, by simp⟩, ?_⟩
    simp

/-- A name without a closing bracket that begins the text lies before the end of the link. -/
theorem prefix_take_findClose {name s : List Char} {close : ℕ} (h : findClose ']' s = some close)
    (hname : ']' ∉ name) : name <+: s.take close ↔ name <+: s := by
  rw [List.prefix_take_iff]
  refine ⟨And.left, fun hbegins => ⟨hbegins, ?_⟩⟩
  by_contra hlong
  have hlt : close < name.length := by omega
  have hget := List.prefix_iff_getElem?.mp hbegins close hlt
  rw [getElem?_findClose h, Option.some_inj] at hget
  exact hname (hget ▸ List.getElem_mem hlt)

theorem matchItems_named {name rest : List Char} (hname : ']' ∉ name) (hbegins : name <+: rest) :
    (matchItems [.word [':'], .run (except [']']) 0, .word [']', ']']]
      (rest.drop name.length)).map Prod.snd =
    if name ++ [':'] <+: rest then (findClose ']' rest).map fun close => rest.drop (close + 2)
    else none := by
  obtain ⟨tail, rfl⟩ := hbegins
  have hiff : name ++ [':'] <+: name ++ tail ↔ [':'] <+: tail := List.prefix_append_right_inj name
  rw [List.drop_left, matchItems_word]
  by_cases hcolon : [':'] <+: tail
  · rw [if_pos hcolon, if_pos (hiff.mpr hcolon)]
    obtain ⟨tail, rfl⟩ := hcolon
    rw [List.drop_left, matchItems_close, findClose_append hname, List.singleton_append, findClose,
      if_neg (by decide)]
    cases hclose : findClose ']' tail with
    | none => rfl
    | some close =>
      have hdrop : (name ++ ':' :: tail).drop (close + 1 + name.length + 2) =
          tail.drop (close + 2) := by
        rw [show close + 1 + name.length + 2 = name.length + (close + 2 + 1) by omega,
          List.drop_length_add_append, List.drop_succ_cons]
      simp [hdrop]
  · rw [if_neg hcolon, if_neg (mt hiff.mp hcolon)]
    rfl

/-- What is left after the prefixed pattern; the first of the prefixes that matches decides. -/
theorem matchItems_prefixed {prefixes : List (List Char)} (hprefixes : ∀ p ∈ prefixes, ']' ∉ p)
    (rest : List Char) :
    (matchItems ((prefixedPattern prefixes).drop 1) rest).map Prod.snd =
    if prefixes.any fun p => p ++ [':'] <+: rest then
      (findClose ']' rest).map fun close => rest.drop (close + 2)
    else none := by
  rw [prefixedPattern, List.drop_one, List.tail_cons, matchItems_words, List.map_findSome?]
  induction prefixes with
  | nil => rfl
  | cons name names ih =>
    rw [List.forall_mem_cons] at hprefixes
    rw [List.any_cons, List.filter_cons]
    by_cases hbegins : name <+: rest
    · have hnamed := matchItems_named hprefixes.1 hbegins
      rw [if_pos (decide_eq_true hbegins), List.findSome?_cons, ih hprefixes.2, Function.comp_apply]
      cases hmatch : matchItems [.word [':'], .run (except [']']) 0, .word [']', ']']]
          (rest.drop name.length) with
      | none =>
        rw [hmatch, Option.map_none] at hnamed
        by_cases hcolon : name ++ [':'] <+: rest
        · rw [if_pos hcolon] at hnamed
          simp [← hnamed]
        · simp [hcolon]
      | some found =>
        rw [hmatch, Option.map_some] at hnamed
        by_cases hcolon : name ++ [':'] <+: rest
        · rw [if_pos hcolon] at hnamed
          simp [hcolon, ← hnamed]
        · rw [if_neg hcolon] at hnamed
          contradiction
    · have hcolon : ¬ name ++ [':'] <+: rest := fun h => hbegins ((List.prefix_append _ _).trans h)
      rw [if_neg (by simpa using hbegins), ih hprefixes.2]
      simp [hcolon]

theorem prefixedPattern_eq {prefixes : List (List Char)} (hprefixes : ∀ p ∈ prefixes, ']' ∉ p)
    (s : List Char) :
    ((matchItems (prefixedPattern prefixes) s).map fun found =>
      (([] : List Char), s.length - found.2.length - 1)) =
    (linkAt s).bind fun inner =>
      if hasPrefix prefixes inner then some ([], inner.length + 3) else none := by
  by_cases hopen : ['[', '['] <+: s
  · obtain ⟨rest, rfl⟩ := hopen
    have hitems := matchItems_prefixed hprefixes rest
    rw [prefixedPattern, List.drop_one, List.tail_cons] at hitems
    rw [prefixedPattern, matchItems_word_append, Option.map_map]
    set items := [Item.words prefixes, .word [':'], .run (except [']']) 0, .word [']', ']']]
    have hcomp : (fun found : List (List Char) × List Char =>
        (([] : List Char), (['[', '['] ++ rest).length - found.2.length - 1)) ∘
        (fun found => (['[', '['] :: found.1, found.2)) =
        (fun left : List Char => ([], (['[', '['] ++ rest).length - left.length - 1)) ∘
          Prod.snd := rfl
    rw [hcomp, ← Option.map_map, hitems]
    cases hclose : findClose ']' rest with
    | none => simp [linkAt, findLinkClose, hclose]
    | some close =>
      have hlength := length_take_findClose hclose
      have hany : hasPrefix prefixes (rest.take close) =
          prefixes.any fun p => p ++ [':'] <+: rest := by
        rw [hasPrefix, Bool.eq_iff_iff, List.any_eq_true, List.any_eq_true]
        refine exists_congr fun p => and_congr_right fun hp => ?_
        rw [named_iff, decide_eq_true_eq]
        exact prefix_take_findClose hclose (by simp [hprefixes p hp])
      rw [linkAt_of_findClose hclose, Option.bind_some, hany, hlength]
      split_ifs
      · rw [Option.map_some, Option.map_some, length_taken hclose]
      · rfl
  · rw [prefixedPattern, matchItems_word, if_neg hopen, linkAt_eq_none hopen]
    rfl

theorem findIdx?_eq (b : Char) (s : List Char) :
    s.findIdx? (· = b) = if [b] <+: s.dropWhile (except [b]) then
      some (s.takeWhile (except [b])).length else none := by
  induction s with
  | nil => simp
  | cons c rest ih =>
    rw [List.findIdx?_cons]
    by_cases hc : c = b
    · subst hc
      simp
    · have hexcept : except [b] c = true := except_iff.mpr hc
      rw [if_neg (by simpa using hc), List.dropWhile_cons_of_pos hexcept,
        List.takeWhile_cons_of_pos hexcept, ih]
      split_ifs <;> rfl

theorem tagStep_eq (s : List Char) :
    tagStep s = (matchItems tagPattern s).map fun found =>
      ([], s.length - found.2.length - 1) := by
  by_cases hopen : ['<'] <+: s
  · obtain ⟨rest, rfl⟩ := hopen
    rw [tagPattern, matchItems_word_append, matchItems_run_word (by decide), matchItems_word]
    rw [List.singleton_append, tagStep, findIdx?_eq]
    have hlength := congrArg List.length
      (List.takeWhile_append_dropWhile (p := except ['>']) (l := rest))
    rw [List.length_append] at hlength
    by_cases hclose : ['>'] <+: rest.dropWhile (except ['>'])
    · have hpos := hclose.length_le
      rw [List.length_singleton] at hpos
      by_cases hleast : 1 ≤ (rest.takeWhile (except ['>'])).length
      · simp [hclose, hleast]
        omega
      · simp [hclose, hleast]
    · simp [hclose]
  · rw [tagPattern, matchItems_word, if_neg hopen]
    unfold tagStep
    split
    · exact absurd ⟨_, rfl⟩ hopen
    · rfl

/-! ### Blank lines -/

theorem collapseFrom_append (m run : ℕ) (rest : List Char) :
    collapseFrom run (List.replicate m '\n' ++ rest) =
      List.replicate (min m (2 - run)) '\n' ++ collapseFrom (run + m) rest := by
  induction m generalizing run with
  | zero => simp
  | succ m ih =>
    rw [List.replicate_succ, List.cons_append, collapseFrom, if_pos rfl, ih]
    split_ifs with hrun
    · rw [show min (m + 1) (2 - run) = min m (2 - (run + 1)) + 1 by omega, List.replicate_succ,
        List.cons_append, show run + 1 + m = run + (m + 1) by omega]
    · rw [show min (m + 1) (2 - run) = min m (2 - (run + 1)) by omega,
        show run + 1 + m = run + (m + 1) by omega]

theorem collapseFrom_of_head {rest : List Char} (h : rest.head? ≠ some '\n') (run : ℕ) :
    collapseFrom run rest = collapseFrom 0 rest := by
  cases rest with
  | nil => cases run <;> rfl
  | cons c rest =>
    have hc : c ≠ '\n' := fun heq => h (heq ▸ rfl)
    rw [collapseFrom, collapseFrom, if_neg hc, if_neg hc]

def blankStep (s : List Char) : Option (List Char × ℕ) :=
  (matchItems blankPattern s).map fun found => (['\n', '\n'], s.length - found.2.length - 1)

theorem blankStep_append {rest : List Char} (h : rest.head? ≠ some '\n') (m : ℕ) :
    blankStep (List.replicate m '\n' ++ rest) =
      if 3 ≤ m then some (['\n', '\n'], m - 1) else none := by
  have hrun : ∀ c ∈ List.replicate m '\n', decide (c = '\n') = true := by simp
  have htake : (List.replicate m '\n' ++ rest).takeWhile (· = '\n') = List.replicate m '\n' := by
    rw [List.takeWhile_append_of_pos hrun]
    cases rest <;> simp_all
  have hdrop : (List.replicate m '\n' ++ rest).dropWhile (· = '\n') = rest := by
    rw [List.dropWhile_append_of_pos hrun]
    cases rest <;> simp_all
  rw [blankStep, blankPattern, matchItems_run, htake, hdrop, List.length_replicate]
  split_ifs
  · simp
  · rfl

theorem sweep_blanks {rest : List Char} (h : rest.head? ≠ some '\n') (m : ℕ) :
    sweep blankStep 0 (List.replicate m '\n' ++ rest) =
      List.replicate (min m 2) '\n' ++ sweep blankStep 0 rest := by
  by_cases hm : 3 ≤ m
  · obtain ⟨k, rfl⟩ : ∃ k, m = k + 1 := ⟨m - 1, by omega⟩
    have hstep := blankStep_append h (k + 1)
    rw [if_pos hm, Nat.add_sub_cancel, List.replicate_succ, List.cons_append] at hstep
    rw [List.replicate_succ, List.cons_append, sweep_cons_some hstep, Nat.min_eq_right (by omega),
      List.drop_left' (List.length_replicate)]
    rfl
  · rw [Nat.min_eq_left (by omega), sweep_append_none]
    intro tail _ htail
    obtain ⟨hle, htail⟩ := List.suffix_replicate_iff.mp htail
    rw [htail, blankStep_append h, if_neg (by omega)]

theorem exists_replicate_append (text : List Char) :
    ∃ m rest, text = List.replicate m '\n' ++ rest ∧ rest.head? ≠ some '\n' := by
  induction text with
  | nil => exact ⟨0, [], rfl, by simp⟩
  | cons c text ih =>
    by_cases hc : c = '\n'
    · obtain ⟨m, rest, rfl, hrest⟩ := ih
      exact ⟨m + 1, rest, by rw [hc]; rfl, hrest⟩
    · exact ⟨0, c :: text, rfl, by simpa using hc⟩

/-- By induction on the length, from one run of line ends to the next. -/
theorem collapseBlankLines_eq (text : List Char) :
    collapseBlankLines text = withoutBlanks text := by
  suffices h : ∀ n (text : List Char), text.length ≤ n →
      collapseFrom 0 text = sweep blankStep 0 text from h _ text le_rfl
  intro n
  induction n with
  | zero =>
    intro text hlength
    obtain rfl : text = [] := List.eq_nil_of_length_eq_zero (by omega)
    rfl
  | succ n ih =>
    intro text hlength
    obtain ⟨m, rest, rfl, hrest⟩ := exists_replicate_append text
    rw [collapseFrom_append, sweep_blanks hrest, collapseFrom_of_head hrest]
    cases rest with
    | nil => simp [collapseFrom]
    | cons c rest =>
      have hnone : blankStep (c :: rest) = none := blankStep_append hrest 0
      have hc : c ≠ '\n' := fun heq => hrest (heq ▸ rfl)
      rw [List.length_append, List.length_cons] at hlength
      rw [collapseFrom, if_neg hc, sweep_cons_none hnone, ih rest (by omega)]

/-! ## Passes and patterns -/

theorem removeMediaLinks_eq (text : List Char) : removeMediaLinks text = withoutMedia text := by
  refine congrFun (congrFun (sweep_congr fun s => ?_) 0) text
  rw [prefixedPattern_eq (by decide), linkStep_eq]
  rfl

theorem removeCategoryLinks_eq (text : List Char) :
    removeCategoryLinks text = withoutCategories text := by
  refine congrFun (congrFun (sweep_congr fun s => ?_) 0) text
  rw [prefixedPattern_eq (by decide), linkStep_eq]
  rfl

theorem removeHtmlTags_eq (text : List Char) : removeHtmlTags text = withoutTags text := by
  rw [removeHtmlTags, sweep_congr tagStep_eq]
  rfl

/-- The pass for piped links replaces every link, the pattern only those with a display text. -/
def displayStep (s : List Char) : Option (List Char × ℕ) :=
  (linkAt s).bind fun inner => (display inner).map fun shown => (shown, inner.length + 3)

def keepStep (s : List Char) : Option (List Char × ℕ) :=
  (linkAt s).map fun inner => ((display inner).getD inner, inner.length + 3)

/-- The pass for the other links replaces every link, the pattern only the nonempty ones. -/
def innerStep (s : List Char) : Option (List Char × ℕ) :=
  (linkAt s).bind fun inner => if inner = [] then none else some (inner, inner.length + 3)

def unwrapStep (s : List Char) : Option (List Char × ℕ) :=
  (linkAt s).map fun inner => (inner, inner.length + 3)

theorem keepLinkDisplay_eq (text : List Char) : keepLinkDisplay text = sweep keepStep 0 text := by
  refine congrFun (congrFun (sweep_congr fun s => ?_) 0) text
  rw [linkStep_eq, keepStep]
  cases linkAt s <;> rfl

theorem unwrapLinks_eq (text : List Char) : unwrapLinks text = sweep unwrapStep 0 text := by
  refine congrFun (congrFun (sweep_congr fun s => ?_) 0) text
  rw [linkStep_eq, unwrapStep]
  cases linkAt s <;> rfl

theorem withDisplays_eq (text : List Char) : withDisplays text = sweep displayStep 0 text :=
  congrFun (congrFun (sweep_congr pipedPattern_eq) 0) text

theorem withoutLinks_eq (text : List Char) : withoutLinks text = sweep innerStep 0 text :=
  congrFun (congrFun (sweep_congr linkPattern_eq) 0) text

end PrtsMcp.Wikitext
