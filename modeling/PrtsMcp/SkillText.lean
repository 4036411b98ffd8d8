import PrtsMcp.Wikitext

/-!
# Skill descriptions

The placeholders of a skill description, replaced by the values of its blackboard.
-/
namespace PrtsMcp.SkillText

open Patterns
open Wikitext (except)

/-! ## Values -/

/-- What is done with doubles. -/
structure Doubles (φ : Type) where
  neg : φ → φ
  timesHundred : φ → φ
  isJsInteger : φ → Bool
  jsNumberToString : φ → List Char
  jsToFixed : φ → ℕ → List Char
  roundHalfAway : φ → ℕ → φ

inductive BlackboardValue (φ : Type) where
  | number (value : φ)
  | text (s : List Char)
  | invalid

def knownFormat (fmt : List Char) : Bool :=
  fmt ∈ [['0'], ['0', '.', '0'], ['0', '%'], ['0', '.', '0', '%'], []]

def splitOnce (sep : Char) (s : List Char) : Option (List Char × List Char) :=
  (s.findIdx? (· = sep)).map fun i => (s.take i, s.drop (i + 1))

/-- Whether a minus leads, and what is left without it. -/
def stripMinus : List Char → Bool × List Char
  | '-' :: rest => (true, rest)
  | key => (false, key)

section Render

variable {φ : Type} (ops : Doubles φ) (values : List Char → Option (BlackboardValue φ))

def formatPlaceholderValue (value : φ) (fmt : List Char) : Option (List Char) :=
  if fmt = [] then
    if ops.isJsInteger value then some (ops.jsNumberToString value)
    else
      let trimmed := (ops.jsToFixed value 6).rdropWhile (· = '0')
      some (if trimmed.getLast? = some '.' then trimmed.dropLast else trimmed)
  else if !knownFormat fmt then none
  else
    let percent := fmt.getLast? = some '%'
    let number := if percent then fmt.dropLast else fmt
    let v := if percent then ops.timesHundred value else value
    let decimals := ((splitOnce '.' number).map fun parts => parts.2.length).getD 0
    let rendered := ops.jsToFixed (ops.roundHalfAway v decimals) decimals
    some (if percent then rendered ++ ['%'] else rendered)

def substitute (key : List Char) (fmt : Option (List Char)) : Option (List Char) :=
  let fmt := fmt.getD []
  let (negated, lookupKey) := stripMinus key
  match values lookupKey with
  | some (.text s) => if negated then none else some s
  | some (.number value) => formatPlaceholderValue ops (if negated then ops.neg value else value) fmt
  | _ => none

/-- How far off the first brace is, if it is a closing one. -/
def findClose (rest : List Char) : Option ℕ :=
  (rest.findIdx? fun c => c = '}' || c = '{').filter fun j => rest[j]? = some '}'

def placeholderStep : List Char → Option (List Char × ℕ)
  | '{' :: rest => (findClose rest).bind fun close =>
    let inner := rest.take close
    (match splitOnce ':' inner with
    | some (key, fmt) => substitute ops values key (some fmt)
    | none => substitute ops values inner none).map fun text => (text, close + 1)
  | _ => none

/-- The text that is handed on to `strip_wikitext`. -/
def renderPlaceholders (description : List Char) : List Char :=
  sweep (placeholderStep ops values) 0 description

def renderSkillDescription (description : List Char) : List Char :=
  Wikitext.stripWikitext (renderPlaceholders ops values description)

end Render

/-! ## What the pattern says -/

def keyChar : Char → Bool := except ['{', '}', ':']

def formatChar : Char → Bool := except ['{', '}']

/-- `\{([^{}:]+):([^{}]*)\}` -/
def formattedPattern : List (Item Char) :=
  [.word ['{'], .run keyChar 1, .word [':'], .run formatChar 0, .word ['}']]

/-- `\{([^{}:]+)\}` -/
def plainPattern : List (Item Char) := [.word ['{'], .run keyChar 1, .word ['}']]

/-- The key, the format and what is left after a match of `\{([^{}:]+)(?::([^{}]*))?\}`. A key ends
at the first colon or brace, so at most one of the two forms matches. -/
def tokenAt (s : List Char) : Option ((List Char × List Char) × List Char) :=
  ((matchItems formattedPattern s).map fun found =>
    ((found.1.getD 1 [], found.1.getD 3 []), found.2)).or
  ((matchItems plainPattern s).map fun found => ((found.1.getD 1 [], []), found.2))

/-- A token is replaced by what it resolves to, or else by itself. -/
def tokenStep (resolve : List Char → List Char → Option (List Char)) (s : List Char) :
    Option (List Char × ℕ) :=
  (tokenAt s).map fun token =>
    let length := s.length - token.2.length
    ((resolve token.1.1 token.1.2).getD (s.take length), length - 1)

def replaceTokens (resolve : List Char → List Char → Option (List Char)) (s : List Char) : List Char :=
  sweep (tokenStep resolve) 0 s

section Resolve

variable {φ : Type} (ops : Doubles φ) (values : List Char → Option (BlackboardValue φ))

/-- The text under a key, which no minus may lead. -/
def textOf (key : List Char) : Option (List Char) :=
  match values (stripMinus key).2 with
  | some (.text s) => if (stripMinus key).1 then none else some s
  | _ => none

/-- The number under a key, or its negative after a minus. -/
def numberOf (key : List Char) : Option φ :=
  match values (stripMinus key).2 with
  | some (.number value) => some (if (stripMinus key).1 then ops.neg value else value)
  | _ => none

def shownNumber (key fmt : List Char) : Option (List Char) :=
  (numberOf ops values key).bind fun value =>
    if knownFormat fmt then formatPlaceholderValue ops value fmt else none

/-- Texts are shown in any format, numbers in the known ones. -/
def resolve (key fmt : List Char) : Option (List Char) :=
  (textOf values key).or (shownNumber ops values key fmt)

/-- Texts are shown in the known formats only. -/
def resolveKnown (key fmt : List Char) : Option (List Char) :=
  if knownFormat fmt then resolve ops values key fmt else none

end Resolve

/-! ## Tokens -/

section Tokens

variable {key fmt rest : List Char}

theorem keyChar_iff {c : Char} : keyChar c = true ↔ c ≠ '{' ∧ c ≠ '}' ∧ c ≠ ':' := by
  simp [keyChar, except]

theorem formatChar_iff {c : Char} : formatChar c = true ↔ c ≠ '{' ∧ c ≠ '}' := by
  simp [formatChar, except]

theorem takeWhile_append_stop {p : Char → Bool} {word : List Char} (hword : ∀ c ∈ word, p c = true)
    {stop : Char} (hstop : p stop = false) (rest : List Char) :
    (word ++ stop :: rest).takeWhile p = word ∧ (word ++ stop :: rest).dropWhile p = stop :: rest := by
  constructor
  · rw [List.takeWhile_append_of_pos hword, List.takeWhile_cons_of_neg (by simp [hstop]),
      List.append_nil]
  · rw [List.dropWhile_append_of_pos hword, List.dropWhile_cons_of_neg (by simp [hstop])]

theorem findClose_closed {inner : List Char} (h : ∀ c ∈ inner, formatChar c = true) (rest : List Char) :
    findClose (inner ++ '}' :: rest) = some inner.length := by
  have hnone : inner.findIdx? (fun c => c = '}' || c = '{') = none := by
    rw [List.findIdx?_eq_none_iff]
    intro c hc
    obtain ⟨hopen, hclose⟩ := formatChar_iff.mp (h c hc)
    simp [hopen, hclose]
  have hfound : (inner ++ '}' :: rest).findIdx? (fun c => c = '}' || c = '{') = some inner.length := by
    rw [List.findIdx?_append, hnone]
    simp [List.findIdx?_cons]
  rw [findClose, hfound]
  simp

theorem findClose_open {inner : List Char} (h : ∀ c ∈ inner, formatChar c = true)
    {after : List Char} (hafter : after = [] ∨ ∃ tail, after = '{' :: tail) :
    findClose (inner ++ after) = none := by
  have hnone : inner.findIdx? (fun c => c = '}' || c = '{') = none := by
    rw [List.findIdx?_eq_none_iff]
    intro c hc
    obtain ⟨hopen, hclose⟩ := formatChar_iff.mp (h c hc)
    simp [hopen, hclose]
  rcases hafter with rfl | ⟨tail, rfl⟩
  · rw [List.append_nil, findClose, hnone]
    rfl
  · have hfound : (inner ++ '{' :: tail).findIdx? (fun c => c = '}' || c = '{') = some inner.length := by
      rw [List.findIdx?_append, hnone]
      simp [List.findIdx?_cons]
    rw [findClose, hfound]
    simp

/-- No token begins where the key, or the format after a colon, does not end in a closing brace. -/
theorem tokenAt_open {rest : List Char}
    (hkey : rest.dropWhile keyChar = [] ∨ (∃ tail, rest.dropWhile keyChar = '{' :: tail) ∨
      ∃ tail, rest.dropWhile keyChar = ':' :: tail ∧
        (tail.dropWhile formatChar = [] ∨ ∃ more, tail.dropWhile formatChar = '{' :: more)) :
    tokenAt ('{' :: rest) = none := by
  have hformatted := matchItems_word_append ['{']
    [.run keyChar 1, .word [':'], .run formatChar 0, .word ['}']] rest
  have hplain := matchItems_word_append ['{'] [.run keyChar 1, .word ['}']] rest
  rw [List.singleton_append] at hformatted hplain
  rw [tokenAt, formattedPattern, plainPattern, hformatted, hplain, matchItems_run_word (by rfl),
    matchItems_run_word (by rfl)]
  rcases hkey with hdrop | ⟨tail, hdrop⟩ | ⟨tail, hdrop, hafter⟩
  · simp [hdrop, matchItems_word]
  · simp [hdrop, matchItems_word]
  · have hcolon := matchItems_word_append [':'] [.run formatChar 0, .word ['}']] tail
    rw [List.singleton_append] at hcolon
    rw [hdrop, hcolon, matchItems_run_word (by rfl)]
    rcases hafter with hclose | ⟨more, hclose⟩ <;> simp [hclose, matchItems_word]

theorem head_of_dropWhile {p : Char → Bool} {s : List Char} {c : Char} {tail : List Char}
    (h : s.dropWhile p = c :: tail) : p c = false := by
  have hnot := List.head?_dropWhile_not p s
  rw [h] at hnot
  simpa using hnot

/-- The pieces of a text after an opening brace: a plain or a formatted token, or none. -/
theorem token_cases (rest : List Char) :
    (∃ key after, (∀ c ∈ key, keyChar c = true) ∧ rest = key ++ '}' :: after) ∨
    (∃ key fmt after, (∀ c ∈ key, keyChar c = true) ∧ (∀ c ∈ fmt, formatChar c = true) ∧
      rest = key ++ ':' :: (fmt ++ '}' :: after)) ∨
    findClose rest = none ∧ tokenAt ('{' :: rest) = none := by
  have hsplit := List.takeWhile_append_dropWhile (p := keyChar) (l := rest)
  have hkey : ∀ c ∈ rest.takeWhile keyChar, keyChar c = true := fun c hc => List.mem_takeWhile_imp hc
  have hkey' : ∀ c ∈ rest.takeWhile keyChar, formatChar c = true := fun c hc =>
    formatChar_iff.mpr ⟨(keyChar_iff.mp (hkey c hc)).1, (keyChar_iff.mp (hkey c hc)).2.1⟩
  rcases hdrop : rest.dropWhile keyChar with _ | ⟨c, after⟩
  · rw [hdrop] at hsplit
    exact .inr (.inr ⟨hsplit ▸ findClose_open hkey' (.inl rfl), tokenAt_open (.inl hdrop)⟩)
  · rw [hdrop] at hsplit
    have hstop : c = '{' ∨ c = '}' ∨ c = ':' := by
      by_contra hne
      have hallowed : keyChar c = true := keyChar_iff.mpr (by tauto)
      rw [head_of_dropWhile hdrop] at hallowed
      cases hallowed
    rcases hstop with rfl | rfl | rfl
    · exact .inr (.inr ⟨hsplit ▸ findClose_open hkey' (.inr ⟨after, rfl⟩),
        tokenAt_open (.inr (.inl ⟨after, hdrop⟩))⟩)
    · exact .inl ⟨_, after, hkey, hsplit.symm⟩
    · have hsplit' := List.takeWhile_append_dropWhile (p := formatChar) (l := after)
      have hfmt : ∀ c ∈ after.takeWhile formatChar, formatChar c = true :=
        fun c hc => List.mem_takeWhile_imp hc
      have hinner : ∀ c ∈ rest.takeWhile keyChar ++ ':' :: after.takeWhile formatChar,
          formatChar c = true := by
        intro c hc
        rw [List.mem_append, List.mem_cons] at hc
        rcases hc with hc | rfl | hc
        · exact hkey' c hc
        · rfl
        · exact hfmt c hc
      have hwhole : rest = (rest.takeWhile keyChar ++ ':' :: after.takeWhile formatChar) ++
          after.dropWhile formatChar := by
        rw [List.append_assoc, List.cons_append, hsplit', hsplit]
      rcases hclose : after.dropWhile formatChar with _ | ⟨d, more⟩
      · refine .inr (.inr ⟨?_, tokenAt_open (.inr (.inr ⟨after, hdrop, .inl hclose⟩))⟩)
        rw [hwhole]
        exact findClose_open hinner (.inl hclose)
      · have hstop : d = '{' ∨ d = '}' := by
          by_contra hne
          have hallowed : formatChar d = true := formatChar_iff.mpr (by tauto)
          rw [head_of_dropWhile hclose] at hallowed
          cases hallowed
        rcases hstop with rfl | rfl
        · refine .inr (.inr ⟨?_, tokenAt_open (.inr (.inr ⟨after, hdrop, .inr ⟨more, hclose⟩⟩))⟩)
          rw [hwhole]
          exact findClose_open hinner (.inr ⟨more, hclose⟩)
        · refine .inr (.inl ⟨_, _, more, hkey, hfmt, ?_⟩)
          rw [← hclose, hsplit', hsplit]

theorem tokenAt_plain (hkey : ∀ c ∈ key, keyChar c = true) (after : List Char) :
    tokenAt ('{' :: (key ++ '}' :: after)) = if key = [] then none else some ((key, []), after) := by
  obtain ⟨htake, hdrop⟩ := takeWhile_append_stop hkey (show keyChar '}' = false by rfl) after
  have hformatted : matchItems formattedPattern ('{' :: (key ++ '}' :: after)) = none := by
    have hopen := matchItems_word_append ['{']
      [.run keyChar 1, .word [':'], .run formatChar 0, .word ['}']] (key ++ '}' :: after)
    rw [List.singleton_append] at hopen
    rw [formattedPattern, hopen, matchItems_run_word (by rfl), htake, hdrop, matchItems_word]
    simp
  have hplain : matchItems plainPattern ('{' :: (key ++ '}' :: after)) =
      if 1 ≤ key.length then some ([['{'], key, ['}']], after) else none := by
    have hopen := matchItems_word_append ['{'] [.run keyChar 1, .word ['}']] (key ++ '}' :: after)
    rw [List.singleton_append] at hopen
    rw [plainPattern, hopen, matchItems_run_word (by rfl), htake, hdrop, matchItems_word]
    split_ifs <;> simp_all
  rw [tokenAt, hformatted, hplain]
  cases key <;> simp

theorem tokenAt_formatted (hkey : ∀ c ∈ key, keyChar c = true) (hfmt : ∀ c ∈ fmt, formatChar c = true)
    (after : List Char) :
    tokenAt ('{' :: (key ++ ':' :: (fmt ++ '}' :: after))) =
      if key = [] then none else some ((key, fmt), after) := by
  obtain ⟨htake, hdrop⟩ := takeWhile_append_stop hkey (show keyChar ':' = false by rfl)
    (fmt ++ '}' :: after)
  obtain ⟨htake', hdrop'⟩ := takeWhile_append_stop hfmt (show formatChar '}' = false by rfl) after
  have hformatted : matchItems formattedPattern ('{' :: (key ++ ':' :: (fmt ++ '}' :: after))) =
      if 1 ≤ key.length then some ([['{'], key, [':'], fmt, ['}']], after) else none := by
    have hopen := matchItems_word_append ['{']
      [.run keyChar 1, .word [':'], .run formatChar 0, .word ['}']] (key ++ ':' :: (fmt ++ '}' :: after))
    have hcolon := matchItems_word_append [':'] [.run formatChar 0, .word ['}']] (fmt ++ '}' :: after)
    have hclose := matchItems_word_append ['}'] [] after
    rw [List.singleton_append] at hopen hcolon hclose
    rw [formattedPattern, hopen, matchItems_run_word (by rfl), htake, hdrop, hcolon,
      matchItems_run_word (by rfl), htake', hdrop', hclose]
    split_ifs <;> simp_all
  have hplain : matchItems plainPattern ('{' :: (key ++ ':' :: (fmt ++ '}' :: after))) = none := by
    have hopen := matchItems_word_append ['{'] [.run keyChar 1, .word ['}']]
      (key ++ ':' :: (fmt ++ '}' :: after))
    rw [List.singleton_append] at hopen
    rw [plainPattern, hopen, matchItems_run_word (by rfl), htake, hdrop, matchItems_word]
    simp
  rw [tokenAt, hformatted, hplain]
  cases key <;> simp

end Tokens

/-! ## The scan -/

section Scan

variable {φ : Type} (ops : Doubles φ) (values : List Char → Option (BlackboardValue φ))

theorem formatPlaceholderValue_of_unknown {fmt : List Char} (h : ¬ knownFormat fmt) (value : φ) :
    formatPlaceholderValue ops value fmt = none := by
  have hne : fmt ≠ [] := by
    rintro rfl
    exact h (by decide)
  rw [formatPlaceholderValue, if_neg hne, if_pos (by simpa using h)]

theorem substitute_eq (key : List Char) (fmt : Option (List Char)) :
    substitute ops values key fmt = resolve ops values key (fmt.getD []) := by
  have hknown : ∀ value : φ, (if knownFormat (fmt.getD []) then
      formatPlaceholderValue ops value (fmt.getD []) else none) =
        formatPlaceholderValue ops value (fmt.getD []) := by
    intro value
    split_ifs with h
    · rfl
    · exact (formatPlaceholderValue_of_unknown ops h value).symm
  unfold substitute resolve shownNumber textOf numberOf
  dsimp only
  cases hvalue : values (stripMinus key).2 with
  | none => rfl
  | some value =>
    cases value with
    | number value => simp [hknown]
    | text s => cases (stripMinus key).1 <;> rfl
    | invalid => rfl

/-- A placeholder with no key is not looked up, or there is nothing to find. -/
def Keyed (values : List Char → Option (BlackboardValue φ)) (text : List Char) : Prop :=
  values [] = none ∨ ¬ ['{', '}'] <:+: text ∧ ¬ ['{', ':'] <:+: text

theorem Keyed.suffix {text tail : List Char} (h : Keyed values text) (htail : tail <:+ text) :
    Keyed values tail :=
  h.imp_right fun hno => ⟨fun hin => hno.1 (hin.trans htail.isInfix),
    fun hin => hno.2 (hin.trans htail.isInfix)⟩

theorem resolve_nil (h : values [] = none) (fmt : List Char) : resolve ops values [] fmt = none := by
  simp [resolve, shownNumber, textOf, numberOf, stripMinus, h]

theorem splitOnce_of_notMem {sep : Char} {s : List Char} (h : sep ∉ s) : splitOnce sep s = none := by
  rw [splitOnce, Option.map_eq_none_iff, List.findIdx?_eq_none_iff]
  intro c hc
  simpa using fun heq : c = sep => h (heq ▸ hc)

theorem splitOnce_append {sep : Char} {s : List Char} (h : sep ∉ s) (rest : List Char) :
    splitOnce sep (s ++ sep :: rest) = some (s, rest) := by
  have hnone : s.findIdx? (· = sep) = none := by
    rw [List.findIdx?_eq_none_iff]
    intro c hc
    simpa using fun heq : c = sep => h (heq ▸ hc)
  have hfound : (s ++ sep :: rest).findIdx? (· = sep) = some s.length := by
    rw [List.findIdx?_append, hnone]
    simp [List.findIdx?_cons]
  rw [splitOnce, hfound]
  simp

/-- A span between braces, which is looked up as a key and a format. -/
structure Span (inner key fmt : List Char) : Prop where
  inner_chars : ∀ c ∈ inner, formatChar c = true
  rendered : ∀ after, placeholderStep ops values ('{' :: (inner ++ '}' :: after)) =
    (resolve ops values key fmt).map fun text => (text, inner.length + 1)
  token : ∀ after, tokenAt ('{' :: (inner ++ '}' :: after)) =
    if key = [] then none else some ((key, fmt), after)
  empty_key : key = [] → inner.head? = none ∨ inner.head? = some ':'

theorem span_plain {key : List Char} (hkey : ∀ c ∈ key, keyChar c = true) :
    Span ops values key key [] := by
  have hchars : ∀ c ∈ key, formatChar c = true := fun c hc =>
    formatChar_iff.mpr ⟨(keyChar_iff.mp (hkey c hc)).1, (keyChar_iff.mp (hkey c hc)).2.1⟩
  have hcolon : ':' ∉ key := fun hmem => (keyChar_iff.mp (hkey _ hmem)).2.2 rfl
  refine ⟨hchars, fun after => ?_, tokenAt_plain hkey, fun h => .inl (by rw [h]; rfl)⟩
  rw [placeholderStep, findClose_closed hchars, Option.bind_some]
  dsimp only
  rw [List.take_left, splitOnce_of_notMem hcolon]
  dsimp only
  rw [substitute_eq]
  rfl

theorem span_formatted {key fmt : List Char} (hkey : ∀ c ∈ key, keyChar c = true)
    (hfmt : ∀ c ∈ fmt, formatChar c = true) : Span ops values (key ++ ':' :: fmt) key fmt := by
  have hchars : ∀ c ∈ key ++ ':' :: fmt, formatChar c = true := by
    intro c hc
    rw [List.mem_append, List.mem_cons] at hc
    rcases hc with hc | rfl | hc
    · exact formatChar_iff.mpr ⟨(keyChar_iff.mp (hkey c hc)).1, (keyChar_iff.mp (hkey c hc)).2.1⟩
    · rfl
    · exact hfmt c hc
  have hcolon : ':' ∉ key := fun hmem => (keyChar_iff.mp (hkey _ hmem)).2.2 rfl
  refine ⟨hchars, fun after => ?_, fun after => ?_, fun h => .inr (by rw [h]; rfl)⟩
  · rw [placeholderStep, findClose_closed hchars, Option.bind_some]
    dsimp only
    rw [List.take_left, splitOnce_append hcolon]
    dsimp only
    rw [substitute_eq]
    rfl
  · rw [List.append_assoc, List.cons_append]
    exact tokenAt_formatted hkey hfmt after

/-- No placeholder begins inside of a span. -/
theorem sweep_inner {inner : List Char} (h : ∀ c ∈ inner, formatChar c = true) (after : List Char) :
    sweep (placeholderStep ops values) 0 (inner ++ '}' :: after) =
      inner ++ '}' :: sweep (placeholderStep ops values) 0 after := by
  have hnone : ∀ tail ≠ [], tail <:+ inner ++ ['}'] → placeholderStep ops values (tail ++ after) = none := by
    intro tail hne htail
    obtain ⟨c, tail, rfl⟩ := List.exists_cons_of_ne_nil hne
    have hmem : c ∈ inner ++ ['}'] := htail.subset List.mem_cons_self
    have hc : c ≠ '{' := by
      rcases List.mem_append.mp hmem with hmem | hmem
      · exact (formatChar_iff.mp (h c hmem)).1
      · rw [List.mem_singleton.mp hmem]
        decide
    rw [List.cons_append]
    unfold placeholderStep
    split
    · next heq => exact absurd (List.cons.inj heq).1 hc
    · rfl
  have hcopied := sweep_append_none hnone
  rwa [List.append_assoc, List.append_assoc, List.singleton_append, List.singleton_append] at hcopied

/-- One span: the scan replaces it, or copies it and goes on after it. -/
theorem sweep_span {inner key fmt after : List Char} (hspan : Span ops values inner key fmt)
    (hkey : key ≠ [])
    (hafter : sweep (placeholderStep ops values) 0 after = replaceTokens (resolve ops values) after) :
    sweep (placeholderStep ops values) 0 ('{' :: (inner ++ '}' :: after)) =
      replaceTokens (resolve ops values) ('{' :: (inner ++ '}' :: after)) := by
  have hdrop : (inner ++ '}' :: after).drop (inner.length + 1) = after := by
    rw [← List.drop_drop, List.drop_left]
    rfl
  have hlength : ('{' :: (inner ++ '}' :: after)).length - after.length = inner.length + 2 := by
    simp only [List.length_cons, List.length_append]
    omega
  have htaken : ('{' :: (inner ++ '}' :: after)).take (inner.length + 2) = '{' :: (inner ++ ['}']) := by
    rw [List.take_succ_cons, List.take_append]
    simp
  have htoken : tokenStep (resolve ops values) ('{' :: (inner ++ '}' :: after)) =
      some ((resolve ops values key fmt).getD ('{' :: (inner ++ ['}'])), inner.length + 1) := by
    rw [tokenStep, hspan.token, if_neg hkey, Option.map_some]
    dsimp only
    rw [hlength, htaken]
    rfl
  have hstep := hspan.rendered after
  rw [replaceTokens, sweep_cons_some htoken, hdrop]
  cases hresolve : resolve ops values key fmt with
  | some text =>
    rw [hresolve, Option.map_some] at hstep
    rw [sweep_cons_some hstep, hdrop, hafter]
    rfl
  | none =>
    rw [hresolve, Option.map_none] at hstep
    rw [sweep_cons_none hstep, sweep_inner ops values hspan.inner_chars, hafter]
    simp [replaceTokens]

/-- A span without a key is copied up to its first brace. -/
theorem placeholderStep_unkeyed {inner key fmt after : List Char}
    (hspan : Span ops values inner key fmt) (hkey : key = [])
    (hkeyed : Keyed values ('{' :: (inner ++ '}' :: after))) :
    placeholderStep ops values ('{' :: (inner ++ '}' :: after)) = none := by
  rw [hspan.rendered, hkey, Option.map_eq_none_iff]
  rcases hkeyed with hnone | ⟨hclose, hcolon⟩
  · exact resolve_nil ops values hnone fmt
  · rcases hspan.empty_key hkey with hhead | hhead
    · obtain rfl := List.head?_eq_none_iff.mp hhead
      exact absurd (show ['{', '}'] <+: '{' :: ([] ++ '}' :: after) from ⟨after, rfl⟩).isInfix hclose
    · obtain ⟨tail, rfl⟩ := List.head?_eq_some_iff.mp hhead
      exact absurd (show ['{', ':'] <+: '{' :: (':' :: tail ++ '}' :: after) from
        ⟨tail ++ '}' :: after, rfl⟩).isInfix hcolon

/-- What follows an opening brace. -/
theorem span_cases (rest : List Char) :
    (∃ inner key fmt after, rest = inner ++ '}' :: after ∧ Span ops values inner key fmt) ∨
      placeholderStep ops values ('{' :: rest) = none ∧ tokenAt ('{' :: rest) = none := by
  rcases token_cases rest with ⟨key, after, hkey, rfl⟩ | ⟨key, fmt, after, hkey, hfmt, rfl⟩ | ⟨hclose, htoken⟩
  · exact .inl ⟨key, key, [], after, rfl, span_plain ops values hkey⟩
  · exact .inl ⟨key ++ ':' :: fmt, key, fmt, after, by simp, span_formatted ops values hkey hfmt⟩
  · refine .inr ⟨?_, htoken⟩
    rw [placeholderStep, hclose]
    rfl

theorem steps_of_ne {c : Char} (hc : c ≠ '{') (rest : List Char) :
    placeholderStep ops values (c :: rest) = none ∧ tokenAt (c :: rest) = none := by
  constructor
  · unfold placeholderStep
    split
    · next heq => exact absurd (List.cons.inj heq).1 hc
    · rfl
  · have hopen : ¬ ['{'] <+: c :: rest := fun h => hc (List.cons_prefix_cons.mp h).1.symm
    rw [tokenAt, formattedPattern, plainPattern, matchItems_word, matchItems_word, if_neg hopen,
      if_neg hopen]
    rfl

/-- The scan over a description replaces the tokens of the pattern, one after the other; texts are
shown in any format. -/
theorem renderPlaceholders_eq (text : List Char) (hkeyed : Keyed values text) :
    renderPlaceholders ops values text = replaceTokens (resolve ops values) text := by
  match text with
  | [] => rfl
  | c :: rest =>
    have hcopy : placeholderStep ops values (c :: rest) = none → tokenAt (c :: rest) = none →
        renderPlaceholders ops values (c :: rest) = replaceTokens (resolve ops values) (c :: rest) := by
      intro hstep htoken
      have htokenStep : tokenStep (resolve ops values) (c :: rest) = none := by
        rw [tokenStep, htoken, Option.map_none]
      rw [renderPlaceholders, sweep_cons_none hstep, replaceTokens, sweep_cons_none htokenStep]
      exact congrArg (c :: ·)
        (renderPlaceholders_eq rest (hkeyed.suffix values (List.suffix_cons c rest)))
    by_cases hc : c = '{'
    · subst hc
      rcases span_cases ops values rest with ⟨inner, key, fmt, after, rfl, hspan⟩ | ⟨hstep, htoken⟩
      · by_cases hkey : key = []
        · refine hcopy (placeholderStep_unkeyed ops values hspan hkey hkeyed) ?_
          rw [hspan.token, if_pos hkey]
        · have hafter : Keyed values after :=
            hkeyed.suffix values ⟨'{' :: (inner ++ ['}']), by simp⟩
          exact sweep_span ops values hspan hkey (renderPlaceholders_eq after hafter)
      · exact hcopy hstep htoken
    · obtain ⟨hstep, htoken⟩ := steps_of_ne ops values hc rest
      exact hcopy hstep htoken
termination_by text.length

end Scan

/-! ## Examples of blackboards -/

/-- Doubles of which one is shown, as `1`. -/
def oneDouble : Doubles Unit where
  neg _ := ()
  timesHundred _ := ()
  isJsInteger _ := true
  jsNumberToString _ := ['1']
  jsToFixed _ _ := ['1']
  roundHalfAway _ _ := ()

def attackAndName (key : List Char) : Option (BlackboardValue Unit) :=
  if key = ['a'] then some (.number ()) else if key = ['n'] then some (.text ['w']) else none

theorem renderPlaceholders_eq_attack :
    renderPlaceholders oneDouble attackAndName ['{', '-', 'a', ':', '0', '%', '}', '{', 'b', '}'] =
      replaceTokens (resolve oneDouble attackAndName)
        ['{', '-', 'a', ':', '0', '%', '}', '{', 'b', '}'] :=
  renderPlaceholders_eq oneDouble attackAndName _ (.inl rfl)

/-- A text is shown in a format that no number is shown in. -/
theorem renderPlaceholders_unknownFormat :
    renderPlaceholders oneDouble attackAndName ['{', 'n', ':', 'x', '}'] ≠
      replaceTokens (resolveKnown oneDouble attackAndName) ['{', 'n', ':', 'x', '}'] := by
  decide

end PrtsMcp.SkillText
