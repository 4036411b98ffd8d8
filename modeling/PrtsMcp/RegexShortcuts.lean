import PrtsMcp.JsRegex

/-!
# The literal shortcuts agree with the matcher

The literal of a compiled pattern stands in every text that the matcher accepts, so that the
answers `is_match` gives without the matcher are the matcher's, and no block is skipped that holds
a matching text.
-/
namespace PrtsMcp.JsRegex

open Utf8 RegexBytecode
open BlockFilter (toAsciiLowercase foldChar)

variable {e : Engine} {finds : List UInt8 → Thread → Prop} {bc : List UInt8}

theorem toNat_charFromU32 {val : ℕ} {c : Char} (h : charFromU32 val = some c) : c.toNat = val := by
  unfold charFromU32 at h
  split at h
  · next hvalid =>
    obtain rfl := Option.some.inj h
    simp [Char.ofNat, hvalid]
  · cases h

theorem eq_map_of_mapM {points : List ℕ} {text : List Char}
    (h : points.mapM charFromU32 = some text) : points = text.map Char.toNat := by
  induction points generalizing text with
  | nil =>
    obtain rfl : text = [] := by simpa using h.symm
    rfl
  | cons val points ih =>
    rw [List.mapM_cons] at h
    obtain ⟨c, hc, h⟩ := Option.bind_eq_some_iff.mp h
    obtain ⟨rest, hrest, h⟩ := Option.bind_eq_some_iff.mp h
    obtain rfl : c :: rest = text := by simpa using h
    rw [ih hrest, List.map_cons, toNat_charFromU32 hc]

/-- The text that was classified, and where it comes from. -/
theorem literalPrefix_eq_some {l : Prefix} {complete : Bool}
    (h : literalPrefix bc (ignoreCase + unicode) = (some l, complete)) :
    ∃ text, text ≠ [] ∧ (prtsRePrefix bc 32).points = text.map Char.toNat ∧
      classify ((prtsRePrefix bc 32).mode == some true) text = some l ∧
        complete = (prtsRePrefix bc 32).complete := by
  rw [literalPrefix, if_pos rfl] at h
  dsimp only at h
  split at h
  · cases h
  · cases h
  · next text hne hpoints =>
    obtain ⟨hclass, hcomplete⟩ := Prod.mk.inj h
    exact ⟨text, fun hnil => hne (by rw [← hnil]), eq_map_of_mapM hpoints, hclass, hcomplete.symm⟩

/-- What a literal says of the texts that match. -/
def Prefix.Stands : Prefix → List Char → Prop
  | .exact literal, text => literal <:+: text
  | .asciiFold literal _, text => ∃ m, m <:+: text ∧ List.Forall₂ AsciiMatch literal m

/-- The part of that which the search finds without the matcher. -/
def Prefix.Found : Prefix → List Char → Prop
  | .exact literal, text => literal <:+: text
  | .asciiFold literal _, text => ∃ m, m <:+: text ∧ List.Forall₂ (fun l c => c.toNat < 128 ∧
      toAsciiLowercase (UInt8.ofNat c.toNat) = toAsciiLowercase (UInt8.ofNat l.toNat)) literal m

/-- What `classify` makes sure of. -/
def Prefix.WellFormed : Prefix → Prop
  | .exact literal => literal ≠ []
  | .asciiFold literal specialFolds => literal ≠ [] ∧ (∀ l ∈ literal, l.toNat < 128) ∧
      specialFolds = (literal.contains 's' || literal.contains 'k')

theorem forall₂_imp_of_mem {α β : Type*} {R S : α → β → Prop} {xs : List α} {ys : List β}
    (h : List.Forall₂ R xs ys) (himp : ∀ x ∈ xs, ∀ y, R x y → S x y) : List.Forall₂ S xs ys :=
  ((List.forall₂_and_left xs ys).mpr ⟨fun _ hx => hx, h⟩).imp fun x y hxy => himp x hxy.1 y hxy.2

theorem occurs_exact (h : e.Lawful finds) {insensitive : Bool} {literal text : List Char}
    (hl : insensitive = false ∨ ∀ l ∈ literal, isCaseless l = true) :
    Occurs e.fold insensitive (literal.map Char.toNat) text ↔ literal <:+: text := by
  have hfits : ∀ l ∈ literal, ∀ c, fits e.fold insensitive l.toNat c = true ↔ c = l :=
    fun l hmem c => h.fits_caseless (hl.imp_right fun hall => hall l hmem)
  constructor
  · rintro ⟨m, hinfix, hm⟩
    have heq : List.Forall₂ (fun l c => l = c) literal m :=
      forall₂_imp_of_mem (List.forall₂_map_left_iff.mp hm) fun l hmem c hc =>
        ((hfits l hmem c).mp hc).symm
    rw [List.forall₂_eq_eq_eq] at heq
    exact heq ▸ hinfix
  · intro hinfix
    exact ⟨literal, hinfix, List.forall₂_map_left_iff.mpr
      (List.forall₂_same.mpr fun l hmem => (hfits l hmem l).mpr rfl)⟩

/-- A literal stands in every text that the matcher accepts; when the code goes on to its end
behind the literal, finding it is enough. -/
theorem Engine.Lawful.literal (h : e.Lawful finds) {pattern : String}
    (hbc : e.compile pattern (ignoreCase + unicode) = .ok bc) {l : Prefix} {complete : Bool}
    (hl : literalPrefix bc (ignoreCase + unicode) = (some l, complete)) :
    l.WellFormed ∧ (∀ text, finds bc (start text) → l.Stands text) ∧
      (complete = true → ∀ text, l.Found text → finds bc (start text)) := by
  obtain ⟨literal, hne, hpoints, hclass, rfl⟩ := literalPrefix_eq_some hl
  have hpointed : (prtsRePrefix bc 32).points ≠ [] := by
    rw [hpoints]
    simpa using hne
  obtain ⟨insensitive, hmode⟩ := prtsRePrefix_mode hpointed
  have hequal : ((prtsRePrefix bc 32).mode == some true) = insensitive := by
    cases insensitive <;> simp [hmode]
  rw [hequal] at hclass
  have hobeys := h.obeys pattern bc hbc
  have hfinds : ∀ text, finds bc (start text) →
      Occurs e.fold insensitive (literal.map Char.toNat) text :=
    fun text hmatch => hpoints ▸ (finds_prtsRePrefix hobeys rfl hmode).1 hmatch
  have hcomplete : (prtsRePrefix bc 32).complete = true → ∀ text,
      Occurs e.fold insensitive (literal.map Char.toNat) text → finds bc (start text) :=
    fun hend text hoccurs => (finds_prtsRePrefix hobeys rfl hmode).2 hend (hpoints ▸ hoccurs)
  unfold classify at hclass
  split at hclass
  · next hexact =>
    obtain rfl := Option.some.inj hclass
    have hl : insensitive = false ∨ ∀ l ∈ literal, isCaseless l = true := by
      simpa using hexact
    exact ⟨hne, fun text hmatch => (occurs_exact h hl).mp (hfinds text hmatch),
      fun hend text hfound => hcomplete hend text ((occurs_exact h hl).mpr hfound)⟩
  · next hexact =>
    split at hclass
    · next hascii =>
      obtain rfl := Option.some.inj hclass
      obtain rfl : insensitive = true := by
        cases insensitive
        · simp at hexact
        · rfl
      have hsmall : ∀ l ∈ literal, l.toNat < 128 := by
        simpa [isAscii] using hascii
      have hcanonical : ∀ l ∈ literal, canonicalize e.fold l.toNat = l.toNat := fun l hmem =>
        h.canonical pattern bc hbc hmode _ (hpoints ▸ List.mem_map_of_mem hmem)
      refine ⟨⟨hne, hsmall, rfl⟩, fun text hmatch => ?_, fun hend text hfound => ?_⟩
      · obtain ⟨m, hinfix, hm⟩ := hfinds text hmatch
        exact ⟨m, hinfix, forall₂_imp_of_mem (List.forall₂_map_left_iff.mp hm)
          fun l hmem c hc => h.asciiMatch (hsmall l hmem) hc⟩
      · obtain ⟨m, hinfix, hm⟩ := hfound
        refine hcomplete hend text ⟨m, hinfix, List.forall₂_map_left_iff.mpr ?_⟩
        exact forall₂_imp_of_mem hm fun l hmem c hc =>
          fits_of_ascii (hsmall l hmem) (hcanonical l hmem) hc.1 hc.2
    · cases hclass

/-- A compiled pattern, with the code it was compiled to. -/
theorem compile_eq_ok {pattern : String} {re : Regex} (h : compile e pattern = .ok re) :
    e.compile pattern (ignoreCase + unicode) = .ok re.bytecode ∧
      literalPrefix re.bytecode (ignoreCase + unicode) = (re.literal, re.completeLiteral) := by
  unfold compile compileFlags at h
  cases hbc : e.compile pattern (ignoreCase + unicode) with
  | error message =>
    rw [hbc] at h
    cases h
  | ok bytecode =>
    rw [hbc] at h
    obtain rfl := Except.ok.inj h
    exact ⟨rfl, rfl⟩

/-- What the literal of a compiled pattern stands for. -/
theorem Engine.Lawful.regex (h : e.Lawful finds) {pattern : String} {re : Regex}
    (hre : JsRegex.compile e pattern = .ok re) {l : Prefix} (hl : re.literal = some l) :
    l.WellFormed ∧ (∀ text, finds re.bytecode (start text) → l.Stands text) ∧
      (re.completeLiteral = true → ∀ text, l.Found text → finds re.bytecode (start text)) := by
  obtain ⟨hbc, hliteral⟩ := compile_eq_ok hre
  exact h.literal hbc (hl ▸ hliteral)

section Search

variable {re : Regex} {text : List Char}

/-- What the literal search of `is_match` answers. -/
def Prefix.search : Prefix → List Char → Option Bool
  | .exact literal, text => some (contains text literal)
  | .asciiFold literal specialFolds, text =>
    asciiFoldContains (encode text) (encode literal) specialFolds

theorem isMatch_of_literal (e : Engine) {l : Prefix} (hl : re.literal = some l) :
    re.isMatch e false text = match l.search text with
      | some found => re.afterLiteral e text found
      | none => re.nativeMatch e text := by
  cases l with
  | exact literal => simp [Regex.isMatch, hl, Prefix.search]
  | asciiFold literal specialFolds =>
    cases hfound : asciiFoldContains (encode text) (encode literal) specialFolds with
    | none => simp [Regex.isMatch, hl, Prefix.search, hfound]
    | some found => simp [Regex.isMatch, hl, Prefix.search, hfound]

theorem Prefix.WellFormed.search_true {l : Prefix} (hl : l.WellFormed)
    (h : l.search text = some true) : l.Found text := by
  cases l with
  | exact literal => exact contains_iff.mp (Option.some.inj h)
  | asciiFold literal specialFolds => exact exists_of_asciiFoldContains hl.2.1 hl.1 h

theorem Prefix.WellFormed.search_false {l : Prefix} (hl : l.WellFormed)
    (h : l.search text = some false) : ¬ l.Stands text := by
  cases l with
  | exact literal =>
    intro hstands
    have := contains_iff.mpr hstands
    simp only [Prefix.search, this] at h
    cases h
  | asciiFold literal specialFolds =>
    rintro ⟨m, hinfix, hm⟩
    exact asciiFoldContains_of_asciiMatch hm hl.2.1 hl.1 hl.2.2 hinfix h

/-- An answer of the search decides the match, or leaves it to the matcher. -/
theorem Engine.Lawful.afterLiteral (h : e.Lawful finds) {pattern : String}
    (hre : JsRegex.compile e pattern = .ok re) {l : Prefix} (hl : re.literal = some l) {found : Bool}
    (hsearch : l.search text = some found) :
    re.afterLiteral e text found = re.nativeMatch e text ∨
      ∃ b, re.afterLiteral e text found = .ok b ∧ (b = true ↔ finds re.bytecode (start text)) := by
  obtain ⟨hwell, hstands, hcomplete⟩ := h.regex hre hl
  unfold Regex.afterLiteral
  cases found with
  | false =>
    refine .inr ⟨false, rfl, ?_⟩
    have hnot := hwell.search_false hsearch
    simpa using fun hmatch => hnot (hstands text hmatch)
  | true =>
    cases hend : re.completeLiteral with
    | true => exact .inr ⟨true, rfl, by simpa using hcomplete hend text (hwell.search_true hsearch)⟩
    | false => exact .inl rfl

theorem Engine.Lawful.nativeMatch (h : e.Lawful finds) {pattern : String}
    (hre : JsRegex.compile e pattern = .ok re) {b : Bool} (hb : re.nativeMatch e text = .ok b) :
    b = true ↔ finds re.bytecode (start text) := by
  unfold Regex.nativeMatch at hb
  split at hb
  · exact h.exec pattern re.bytecode (compile_eq_ok hre).1 text b hb
  · cases hb

theorem Engine.Lawful.isMatch (h : e.Lawful finds) {pattern : String}
    (hre : JsRegex.compile e pattern = .ok re) :
    re.isMatch e false text = re.nativeMatch e text ∨
      ∃ b, re.isMatch e false text = .ok b ∧ (b = true ↔ finds re.bytecode (start text)) := by
  cases hl : re.literal with
  | none => exact .inl (by simp [Regex.isMatch, hl])
  | some l =>
    rw [isMatch_of_literal e hl]
    cases hsearch : l.search text with
    | none => exact .inl rfl
    | some found => exact h.afterLiteral hre hl hsearch

end Search

section Instance

/-- The matching of a code that has no other instructions. -/
inductive Finds (fold : ℕ → ℕ) (bc : List UInt8) : Thread → Prop
  | found {t : Thread} : step fold bc t = .found → Finds fold bc t
  | go {t t' : Thread} : step fold bc t = .go t' → Finds fold bc t' → Finds fold bc t
  | first {t t₁ t₂ : Thread} : step fold bc t = .fork t₁ t₂ → Finds fold bc t₁ → Finds fold bc t
  | second {t t₁ t₂ : Thread} : step fold bc t = .fork t₁ t₂ → Finds fold bc t₂ → Finds fold bc t

theorem Finds.next {fold : ℕ → ℕ} (t : Thread) : FindsNext (Finds fold bc) t (step fold bc t) := by
  cases hstep : step fold bc t with
  | dead =>
    intro h
    cases h <;> simp_all
  | found => exact .found hstep
  | go t' =>
    refine ⟨fun h => ?_, .go hstep⟩
    cases h <;> simp_all
  | fork t₁ t₂ =>
    refine ⟨fun h => ?_, fun h => h.elim (.first hstep) (.second hstep)⟩
    cases h <;> simp_all
  | other => trivial

/-- A run of the matcher on such a code, with a bound on its steps. -/
def runMatcher (fold : ℕ → ℕ) (bc : List UInt8) : ℕ → Thread → Option Bool
  | 0, _ => none
  | fuel + 1, t =>
    match step fold bc t with
    | .dead => some false
    | .found => some true
    | .go t' => runMatcher fold bc fuel t'
    | .fork t₁ t₂ =>
      match runMatcher fold bc fuel t₁ with
      | some false => runMatcher fold bc fuel t₂
      | answer => answer
    | .other => none

theorem runMatcher_finds {fold : ℕ → ℕ} {fuel : ℕ} {t : Thread} {b : Bool}
    (h : runMatcher fold bc fuel t = some b) : b = true ↔ Finds fold bc t := by
  induction fuel generalizing t b with
  | zero => cases h
  | succ fuel ih =>
    have hnext : FindsNext (Finds fold bc) t (step fold bc t) := Finds.next t
    rw [runMatcher] at h
    cases hstep : step fold bc t with
    | dead =>
      rw [hstep] at h hnext
      obtain rfl : false = b := Option.some.inj h
      simpa [FindsNext] using hnext
    | found =>
      rw [hstep] at h hnext
      obtain rfl : true = b := Option.some.inj h
      simpa [FindsNext] using hnext
    | go t' =>
      rw [hstep] at h hnext
      exact (ih h).trans hnext.symm
    | fork t₁ t₂ =>
      rw [hstep] at h hnext
      simp only [FindsNext] at hnext
      rw [hnext]
      dsimp only at h
      cases hfirst : runMatcher fold bc fuel t₁ with
      | none => simp [hfirst] at h
      | some b₁ =>
        have hb₁ := ih hfirst
        cases b₁ with
        | true =>
          obtain rfl : true = b := by simpa [hfirst] using h
          simpa using .inl (hb₁.mp rfl)
        | false =>
          have hb := ih (t := t₂) (b := b) (by simpa [hfirst] using h)
          rw [hb]
          simpa using fun h₁ => absurd (hb₁.mpr h₁) Bool.false_ne_true
    | other =>
      rw [hstep] at h
      cases h

/-- What the compiler makes of `ask`. -/
def askCode : List UInt8 :=
  [18, 0, 1, 0, 25, 0, 0, 0] ++ [14, 6, 0, 0, 0] ++ [6] ++ [13, 0xf5, 0xff, 0xff, 0xff] ++
    [19, 0] ++ [2, 97, 0] ++ [2, 115, 0] ++ [2, 107, 0] ++ [20, 0] ++ [16]

def askFold (c : ℕ) : ℕ := if c = 0x17f then 115 else if c = 0x212a then 107 else c

def askEngine : Engine where
  compile pattern flags :=
    if pattern = "ask" ∧ flags = ignoreCase + unicode then .ok askCode
    else .error "unexpected pattern"
  exec bc text := ((runMatcher askFold bc 1000 (start text)).map .ok).getD (.error "timeout")
  fold := askFold

theorem askEngine_lawful : askEngine.Lawful (Finds askFold) where
  fold_ascii c hc hfold := by
    simp only [askEngine, askFold] at hfold ⊢
    split_ifs at hfold ⊢ <;> omega
  fold_cjk c hc hcjk := by
    simp only [askEngine, askFold] at hcjk ⊢
    split_ifs at hcjk ⊢ <;> omega
  canonical pattern bc hbc _ := by
    obtain rfl : askCode = bc := by
      simp only [askEngine] at hbc
      split at hbc
      · exact Except.ok.inj hbc
      · cases hbc
    decide
  obeys _ _ _ _ t _ := Finds.next t
  exec _ bc _ text b hb := by
    simp only [askEngine] at hb
    cases hrun : runMatcher askFold bc 1000 (start text) with
    | none =>
      rw [hrun] at hb
      cases hb
    | some b' =>
      rw [hrun] at hb
      obtain rfl : b' = b := Except.ok.inj hb
      exact runMatcher_finds hrun

def askRegex : Regex := ⟨askCode, some (.asciiFold ['a', 's', 'k'] true), true, true⟩

theorem compile_ask : compile askEngine "ask" = .ok askRegex := by
  decide +kernel

end Instance

/-- `is_match` answers what the matcher would: where the matcher answers it answers the same,
every answer it gives is the matcher's verdict, and it fails only as the matcher fails. -/
theorem isMatch_agrees (h : e.Lawful finds) (pattern : String) (re : Regex)
    (hre : JsRegex.compile e pattern = .ok re) (text : List Char) :
    (∀ b, re.nativeMatch e text = .ok b → re.isMatch e false text = .ok b) ∧
      (∀ b, re.isMatch e false text = .ok b → (b = true ↔ finds re.bytecode (start text))) ∧
      ∀ error, re.isMatch e false text = .error error → re.nativeMatch e text = .error error := by
  have hsearch : re.isMatch e false text = re.nativeMatch e text ∨
      ∃ b, re.isMatch e false text = .ok b ∧ (b = true ↔ finds re.bytecode (start text)) :=
    h.isMatch hre
  rcases hsearch with heq | ⟨b, hb, hfinds⟩
  · rw [heq]
    exact ⟨fun b hb => hb, fun b hb => h.nativeMatch hre hb, fun error herror => herror⟩
  · rw [hb]
    refine ⟨fun b' hb' => ?_, ?_, fun error herror => by cases herror⟩
    · have hb' := h.nativeMatch hre hb'
      rw [Bool.eq_iff_iff.mpr (hfinds.trans hb'.symm)]
    · rintro _ ⟨⟩
      exact hfinds

theorem isMatch_agrees_ask :
    (∀ b, askRegex.nativeMatch askEngine ['a', 'ſ', 'K'] = .ok b →
        askRegex.isMatch askEngine false ['a', 'ſ', 'K'] = .ok b) ∧
      (∀ b, askRegex.isMatch askEngine false ['a', 'ſ', 'K'] = .ok b →
        (b = true ↔ Finds askFold askCode (start ['a', 'ſ', 'K']))) ∧
      ∀ error, askRegex.isMatch askEngine false ['a', 'ſ', 'K'] = .error error →
        askRegex.nativeMatch askEngine ['a', 'ſ', 'K'] = .error error :=
  isMatch_agrees askEngine_lawful "ask" askRegex compile_ask ['a', 'ſ', 'K']

theorem Prefix.WellFormed.mayMatchBytes {re : Regex} {l : Prefix} (hl : l.WellFormed)
    (hre : re.literal = some l) {text : List Char} (h : l.Stands text) (before after : List UInt8) :
    re.mayMatchBytes (before ++ encode text ++ after) = true := by
  cases l with
  | exact literal =>
    simp only [Regex.mayMatchBytes, hre]
    exact contains_iff.mpr ((encode_segment h).trans ⟨before, after, rfl⟩)
  | asciiFold literal specialFolds =>
    obtain ⟨m, hinfix, hm⟩ := h
    simp only [Regex.mayMatchBytes, hre]
    exact asciiIuContains_of_asciiMatch hm hl.2.1 hl.1 hinfix before after

/-- The literal folds to bytes that the text folds to. -/
theorem Prefix.WellFormed.folded {l : Prefix} (hl : l.WellFormed) {text : List Char}
    (h : l.Stands text) :
    ∃ m, m <:+: text ∧ BlockFilter.folded (encode l.text) = m.flatMap foldChar := by
  cases l with
  | exact literal => exact ⟨literal, h, BlockFilter.folded_encode literal⟩
  | asciiFold literal specialFolds =>
    obtain ⟨m, hinfix, hm⟩ := h
    refine ⟨m, hinfix, (BlockFilter.folded_encode literal).trans ?_⟩
    have heq : List.Forall₂ (fun l c => foldChar l = foldChar c) literal m :=
      forall₂_imp_of_mem hm fun l hmem c hc => hc.foldChar (hl.2.1 l hmem)
    clear hm hinfix hl
    induction heq with
    | nil => rfl
    | cons hhead _ ih => rw [List.flatMap_cons, List.flatMap_cons, hhead, ih]

/-- What the engine finds in a text, it finds in no block that a prefilter rules out. -/
theorem mayMatch_of_finds (h : e.Lawful finds) {pattern : String} {re : Regex}
    (hre : JsRegex.compile e pattern = .ok re) {text : List Char}
    (hfinds : finds re.bytecode (start text)) (before after : List UInt8) :
    re.mayMatchBytes (before ++ encode text ++ after) = true ∧
      ∀ cancelled filter,
        BlockFilter.new cancelled (before ++ encode text ++ after) = .ok filter →
          re.mayMatchFilter filter = true := by
  cases hl : re.literal with
  | none => simp [Regex.mayMatchBytes, Regex.mayMatchFilter, hl]
  | some l =>
    obtain ⟨hwell, hstands, -⟩ := h.regex hre hl
    have htext := hstands text hfinds
    refine ⟨hwell.mayMatchBytes hl htext before after, fun cancelled filter hnew => ?_⟩
    obtain ⟨m, hinfix, hm⟩ := hwell.folded htext
    simp only [Regex.mayMatchFilter, hl]
    exact BlockFilter.mayContain_of_text hnew hinfix hm

/-- Where the engine finds nothing, the test says so or the matcher fails. -/
theorem isMatch_of_not_finds (h : e.Lawful finds) {pattern : String} {re : Regex}
    (hre : JsRegex.compile e pattern = .ok re) {text : List Char}
    (hnot : ¬ finds re.bytecode (start text)) :
    re.isMatch e false text = .ok false ∨
      ∃ error, re.isMatch e false text = .error error ∧ re.nativeMatch e text = .error error := by
  have hmatch : re.isMatch e false text = re.nativeMatch e text ∨
      ∃ b, re.isMatch e false text = .ok b ∧ (b = true ↔ finds re.bytecode (start text)) :=
    h.isMatch hre
  rcases hmatch with hnative | ⟨b, hb, hfinds⟩
  · cases hb : re.nativeMatch e text with
    | error error => exact .inr ⟨error, hnative.trans hb, rfl⟩
    | ok b =>
      cases b with
      | false => exact .inl (hnative.trans hb)
      | true => exact absurd ((h.nativeMatch hre hb).mp rfl) hnot
  · cases b with
    | false => exact .inl hb
    | true => exact absurd (hfinds.mp rfl) hnot

/-- The prefilters have no false negatives: a block that holds a text the matcher accepts passes
both, whatever bytes surround the text. -/
theorem mayMatch_of_nativeMatch (h : e.Lawful finds) (pattern : String) (re : Regex)
    (hre : JsRegex.compile e pattern = .ok re) (before after : List UInt8) (text : List Char)
    (hmatch : re.nativeMatch e text = .ok true) :
    re.mayMatchBytes (before ++ encode text ++ after) = true ∧
      ∀ cancelled filter,
        BlockFilter.new cancelled (before ++ encode text ++ after) = .ok filter →
          re.mayMatchFilter filter = true := by
  exact mayMatch_of_finds h hre ((h.nativeMatch hre hmatch).mp rfl) before after

theorem mayMatch_of_nativeMatch_ask :
    askRegex.mayMatchBytes ([0, 255] ++ encode ['a', 'ſ', 'K'] ++ [0xc5]) = true ∧
      ∀ cancelled filter,
        BlockFilter.new cancelled ([0, 255] ++ encode ['a', 'ſ', 'K'] ++ [0xc5]) = .ok filter →
          askRegex.mayMatchFilter filter = true :=
  mayMatch_of_nativeMatch askEngine_lawful "ask" askRegex compile_ask [0, 255] [0xc5] ['a', 'ſ', 'K']
    (by decide +kernel)

end PrtsMcp.JsRegex
