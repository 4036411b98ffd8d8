import PrtsMcp.Wikitext

/-!
# Links of a wikitext

How the two passes for links differ from their patterns. The pass for piped links unwraps every
link, so what surrounds an unpiped link is read together with its text by the next pass.
-/
namespace PrtsMcp.Wikitext

open Patterns

/-! ## Links met by a scan -/

def linksFrom : ℕ → List Char → List (List Char)
  | _, [] => []
  | skip + 1, _ :: rest => linksFrom skip rest
  | 0, c :: rest =>
    match linkAt (c :: rest) with
    | some inner => inner :: linksFrom (inner.length + 3) rest
    | none => linksFrom 0 rest

/-- The inner texts of the links that a scan meets. -/
def links (text : List Char) : List (List Char) := linksFrom 0 text

/-- A link before the rest of a text. -/
abbrev link (inner rest : List Char) : List Char := '[' :: '[' :: (inner ++ ']' :: ']' :: rest)

theorem linksFrom_skip (skip : ℕ) (s : List Char) : linksFrom skip s = links (s.drop skip) := by
  induction s generalizing skip with
  | nil => cases skip <;> rfl
  | cons c rest ih =>
    cases skip with
    | zero => rfl
    | succ skip => exact ih skip

theorem drop_link (inner rest : List Char) :
    ('[' :: (inner ++ ']' :: ']' :: rest)).drop (inner.length + 3) = rest := by
  rw [List.drop_succ_cons, List.drop_length_add_append]
  rfl

theorem links_link {inner : List Char} (h : ']' ∉ inner) (rest : List Char) :
    links (link inner rest) = inner :: links rest := by
  rw [links, linksFrom, linkAt_link h]
  exact congrArg _ ((linksFrom_skip _ _).trans (by rw [drop_link]))

theorem links_plain {c : Char} {rest : List Char} (h : linkAt (c :: rest) = none) :
    links (c :: rest) = links rest := by
  rw [links, linksFrom, h]
  rfl

theorem exists_of_linkAt {s inner : List Char} (h : linkAt s = some inner) :
    ∃ rest, s = link inner rest ∧ ']' ∉ inner := by
  by_cases hopen : ['[', '['] <+: s
  · obtain ⟨after, rfl⟩ := hopen
    cases hclose : findClose ']' after with
    | none => simp [linkAt, findLinkClose, hclose] at h
    | some close =>
      rw [linkAt_of_findClose hclose, Option.some_inj] at h
      subst h
      obtain ⟨rest, hrest⟩ := findClose_split hclose
      exact ⟨rest, congrArg (['[', '['] ++ ·) hrest, not_mem_take_of_findClose hclose⟩
  · rw [linkAt_eq_none hopen] at h
    contradiction

/-- A text is empty, begins with a link, or begins with a character that no link begins at. -/
theorem scan_induction {motive : List Char → Prop} (nil : motive [])
    (link : ∀ inner rest, ']' ∉ inner → motive rest → motive (link inner rest))
    (plain : ∀ c rest, linkAt (c :: rest) = none → motive rest → motive (c :: rest))
    (text : List Char) : motive text := by
  suffices h : ∀ n (text : List Char), text.length ≤ n → motive text from h _ text le_rfl
  intro n
  induction n with
  | zero =>
    intro text hlength
    obtain rfl : text = [] := List.eq_nil_of_length_eq_zero (by omega)
    exact nil
  | succ n ih =>
    intro text hlength
    cases text with
    | nil => exact nil
    | cons c rest =>
      cases hlink : linkAt (c :: rest) with
      | none => exact plain c rest hlink (ih rest (by simpa using hlength))
      | some inner =>
        obtain ⟨after, hafter, hinner⟩ := exists_of_linkAt hlink
        rw [hafter] at hlength ⊢
        simp only [List.length_cons, List.length_append] at hlength
        exact link inner after hinner (ih after (by omega))

section Steps

variable {inner rest : List Char}

theorem keep_link (h : ']' ∉ inner) :
    sweep keepStep 0 (link inner rest) = (display inner).getD inner ++ sweep keepStep 0 rest := by
  have hstep : keepStep (link inner rest) =
      some ((display inner).getD inner, inner.length + 3) := by
    rw [keepStep, linkAt_link h, Option.map_some]
  rw [sweep_cons_some hstep, drop_link]

theorem unwrap_link (h : ']' ∉ inner) :
    sweep unwrapStep 0 (link inner rest) = inner ++ sweep unwrapStep 0 rest := by
  have hstep : unwrapStep (link inner rest) = some (inner, inner.length + 3) := by
    rw [unwrapStep, linkAt_link h, Option.map_some]
  rw [sweep_cons_some hstep, drop_link]

theorem display_link {shown : List Char} (h : ']' ∉ inner) (hshown : display inner = some shown) :
    sweep displayStep 0 (link inner rest) = shown ++ sweep displayStep 0 rest := by
  have hstep : displayStep (link inner rest) = some (shown, inner.length + 3) := by
    rw [displayStep, linkAt_link h, Option.bind_some, hshown, Option.map_some]
  rw [sweep_cons_some hstep, drop_link]

theorem inner_link (h : ']' ∉ inner) (hne : inner ≠ []) :
    sweep innerStep 0 (link inner rest) = inner ++ sweep innerStep 0 rest := by
  have hstep : innerStep (link inner rest) = some (inner, inner.length + 3) := by
    rw [innerStep, linkAt_link h, Option.bind_some, if_neg hne]
  rw [sweep_cons_some hstep, drop_link]

variable {c : Char}

theorem keep_plain (h : linkAt (c :: rest) = none) :
    sweep keepStep 0 (c :: rest) = c :: sweep keepStep 0 rest :=
  sweep_cons_none (by rw [keepStep, h, Option.map_none])

theorem unwrap_plain (h : linkAt (c :: rest) = none) :
    sweep unwrapStep 0 (c :: rest) = c :: sweep unwrapStep 0 rest :=
  sweep_cons_none (by rw [unwrapStep, h, Option.map_none])

theorem display_plain (h : linkAt (c :: rest) = none) :
    sweep displayStep 0 (c :: rest) = c :: sweep displayStep 0 rest :=
  sweep_cons_none (by rw [displayStep, h, Option.bind_none])

theorem inner_plain (h : linkAt (c :: rest) = none) :
    sweep innerStep 0 (c :: rest) = c :: sweep innerStep 0 rest :=
  sweep_cons_none (by rw [innerStep, h, Option.bind_none])

end Steps

/-! ## Links that the patterns leave -/

theorem linkAt_cons_none {c : Char} {rest : List Char} (h : c ≠ '[' ∨ rest.head? ≠ some '[') :
    linkAt (c :: rest) = none := by
  apply linkAt_eq_none
  rintro ⟨after, hafter⟩
  rw [List.cons_append, List.singleton_append, List.cons.injEq] at hafter
  rcases h with h | h
  · exact h hafter.1.symm
  · rw [← hafter.2] at h
    exact h rfl

theorem linkAt_closing (rest : List Char) : linkAt (']' :: rest) = none :=
  linkAt_cons_none (.inl (by decide))

/-- A text up to a double bracket is copied if no link in it is replaced. -/
theorem copy_link {step : List Char → Option (List Char × ℕ)}
    (hstep : ∀ s, linkAt s = none → step s = none) {w rest : List Char}
    (hw : ∀ inner, '[' :: '[' :: inner <:+ w → step (link inner rest) = none) :
    sweep step 0 (w ++ ']' :: ']' :: rest) = w ++ ']' :: ']' :: sweep step 0 rest := by
  induction w with
  | nil =>
    have hfirst := hstep _ (linkAt_closing (']' :: rest))
    have hsecond := hstep _ (linkAt_closing rest)
    rw [List.nil_append, sweep_cons_none hfirst, sweep_cons_none hsecond]
    rfl
  | cons c w ih =>
    have hnone : step (c :: (w ++ ']' :: ']' :: rest)) = none := by
      by_cases hopen : c = '[' ∧ w.head? = some '['
      · obtain ⟨rfl, hhead⟩ := hopen
        obtain ⟨inner, rfl⟩ := List.head?_eq_some_iff.mp hhead
        exact hw inner (List.suffix_refl _)
      · apply hstep
        apply linkAt_cons_none
        rw [not_and_or] at hopen
        refine hopen.imp_right fun hhead => ?_
        cases w with
        | nil => simp
        | cons d w => exact hhead
    rw [List.cons_append, sweep_cons_none hnone,
      ih fun inner hinner => hw inner (hinner.trans (List.suffix_cons c w))]
    rfl

theorem suffix_of_open {inner tail : List Char}
    (h : '[' :: '[' :: tail <:+ '[' :: '[' :: inner) : tail <:+ inner := by
  have htail : tail <:+ '[' :: '[' :: inner :=
    ((List.suffix_cons _ _).trans (List.suffix_cons _ _)).trans h
  have hinner : inner <:+ '[' :: '[' :: inner := (List.suffix_cons _ _).trans (List.suffix_cons _ _)
  have hle := h.length_le
  simp only [List.length_cons] at hle
  exact List.suffix_of_suffix_length_le htail hinner (by omega)

/-- What is left of an unpiped link has no display text either. -/
theorem display_suffix {inner tail : List Char} (h : display inner = none)
    (htail : tail <:+ inner) : display tail = none := by
  by_cases hbar : '|' ∈ inner
  · obtain ⟨first, shown, rfl, hfirst⟩ := List.eq_append_cons_of_mem hbar
    rw [display_bar hfirst] at h
    split_ifs at h with hshown
    subst hshown
    rcases List.suffix_concat_iff.mp htail with rfl | ⟨short, rfl, hshort⟩
    · rfl
    · rw [display_bar fun hmem => hfirst (hshort.mem hmem), if_pos rfl]
  · exact display_of_not_mem fun hmem => hbar (htail.mem hmem)

theorem display_unpiped {inner rest : List Char} (h : ']' ∉ inner) (hnone : display inner = none) :
    sweep displayStep 0 (link inner rest) = link inner (sweep displayStep 0 rest) := by
  refine copy_link (w := '[' :: '[' :: inner) (fun s hs => by rw [displayStep, hs]; rfl) ?_
  intro tail htail
  have hsuffix := suffix_of_open htail
  rw [displayStep, linkAt_link fun hmem => h (hsuffix.mem hmem), Option.bind_some,
    display_suffix hnone hsuffix, Option.map_none]

theorem inner_empty {rest : List Char} :
    sweep innerStep 0 (link [] rest) = link [] (sweep innerStep 0 rest) := by
  refine copy_link (w := ['[', '[']) (fun s hs => by rw [innerStep, hs]; rfl) ?_
  intro tail htail
  obtain rfl := List.suffix_nil.mp (suffix_of_open htail)
  rw [innerStep, linkAt_link List.not_mem_nil, Option.bind_some, if_pos rfl]

/-! ## Where a pass is its pattern -/

theorem length_link (inner rest : List Char) :
    (link inner rest).length = inner.length + rest.length + 4 := by
  simp only [link, List.length_cons, List.length_append]
  omega

/-- Every unpiped link loses its brackets in the pass for piped links. -/
theorem length_withDisplays (text : List Char) : (withDisplays text).length =
    (keepLinkDisplay text).length + 4 * (links text).countP fun inner => display inner = none := by
  rw [withDisplays_eq, keepLinkDisplay_eq]
  induction text using scan_induction with
  | nil => rfl
  | link inner rest hinner ih =>
    rw [keep_link hinner, links_link hinner, List.countP_cons]
    cases hshown : display inner with
    | none =>
      rw [display_unpiped hinner hshown, length_link, ih, Option.getD_none, List.length_append]
      simp only [decide_true, if_true]
      omega
    | some shown =>
      rw [display_link hinner hshown, List.length_append, ih, Option.getD_some, List.length_append]
      simp only [reduceCtorEq, decide_false, Bool.false_eq_true, if_false]
      omega
  | plain c rest hlink ih =>
    rw [keep_plain hlink, display_plain hlink, links_plain hlink, List.length_cons, ih,
      List.length_cons]
    omega

theorem keepLinkDisplay_eq_iff (text : List Char) : keepLinkDisplay text = withDisplays text ↔
    ∀ inner ∈ links text, display inner ≠ none := by
  constructor
  · intro heq inner hmem hnone
    have hlength := length_withDisplays text
    have hpos : 0 < (links text).countP fun inner => display inner = none :=
      List.countP_pos_iff.mpr ⟨inner, hmem, by simpa using hnone⟩
    rw [heq] at hlength
    omega
  · rw [withDisplays_eq, keepLinkDisplay_eq]
    induction text using scan_induction with
    | nil => exact fun _ => rfl
    | link inner rest hinner ih =>
      rw [links_link hinner, List.forall_mem_cons]
      rintro ⟨hshown, hrest⟩
      obtain ⟨shown, hshown⟩ := Option.ne_none_iff_exists'.mp hshown
      rw [keep_link hinner, display_link hinner hshown, hshown, Option.getD_some, ih hrest]
    | plain c rest hlink ih =>
      rw [links_plain hlink, keep_plain hlink, display_plain hlink]
      exact fun h => congrArg _ (ih h)

/-- Every empty link is lost in the pass for the other links. -/
theorem length_withoutLinks (text : List Char) : (withoutLinks text).length =
    (unwrapLinks text).length + 4 * (links text).countP fun inner => inner = [] := by
  rw [withoutLinks_eq, unwrapLinks_eq]
  induction text using scan_induction with
  | nil => rfl
  | link inner rest hinner ih =>
    rw [unwrap_link hinner, links_link hinner, List.countP_cons]
    by_cases hempty : inner = []
    · subst hempty
      rw [inner_empty, length_link, ih, List.nil_append]
      simp only [decide_true, if_true, List.length_nil]
      omega
    · rw [inner_link hinner hempty, List.length_append, ih, List.length_append]
      simp only [hempty, decide_false, Bool.false_eq_true, if_false]
      omega
  | plain c rest hlink ih =>
    rw [unwrap_plain hlink, inner_plain hlink, links_plain hlink, List.length_cons, ih,
      List.length_cons]
    omega

theorem unwrapLinks_eq_iff (text : List Char) : unwrapLinks text = withoutLinks text ↔
    ∀ inner ∈ links text, inner ≠ [] := by
  constructor
  · intro heq inner hmem hempty
    have hlength := length_withoutLinks text
    have hpos : 0 < (links text).countP fun inner => inner = [] :=
      List.countP_pos_iff.mpr ⟨inner, hmem, by simpa using hempty⟩
    rw [heq] at hlength
    omega
  · rw [withoutLinks_eq, unwrapLinks_eq]
    induction text using scan_induction with
    | nil => exact fun _ => rfl
    | link inner rest hinner ih =>
      rw [links_link hinner, List.forall_mem_cons]
      rintro ⟨hne, hrest⟩
      rw [unwrap_link hinner, inner_link hinner hne, ih hrest]
    | plain c rest hlink ih =>
      rw [links_plain hlink, unwrap_plain hlink, inner_plain hlink]
      exact fun h => congrArg _ (ih h)

/-! ## Reading links that were unwrapped too early -/

/-- No link begins in the text, whatever follows it. -/
def Inert (text : List Char) : Prop := ¬ ['[', '['] <:+: text ++ ['[']

theorem inert_cons {c : Char} {text : List Char} :
    Inert (c :: text) ↔ Inert text ∧ (c = '[' → text ≠ [] ∧ text.head? ≠ some '[') := by
  rw [Inert, Inert, List.cons_append, List.infix_cons_iff, not_or, and_comm]
  refine and_congr_right fun _ => ?_
  cases text with
  | nil => simp [eq_comm]
  | cons d text => simp [eq_comm]

theorem Inert.tail {c : Char} {text : List Char} (h : Inert (c :: text)) : Inert text :=
  (inert_cons.mp h).1

theorem unwrap_inert {text : List Char} (h : Inert text) (rest : List Char) :
    sweep unwrapStep 0 (text ++ rest) = text ++ sweep unwrapStep 0 rest := by
  induction text with
  | nil => rfl
  | cons c text ih =>
    have hplain : linkAt (c :: (text ++ rest)) = none := by
      apply linkAt_cons_none
      by_cases hc : c = '['
      · obtain ⟨hne, hhead⟩ := (inert_cons.mp h).2 hc
        right
        rwa [List.head?_append_of_ne_nil _ hne]
      · exact .inl hc
    rw [List.cons_append, unwrap_plain hplain, ih h.tail, List.cons_append]

/-- What the pass for piped links makes of a text: characters, and the links that its pattern
would have kept. -/
inductive Piece where
  | char (c : Char)
  | kept (inner : List Char) (h : ']' ∉ inner)

/-- The text after the pattern. -/
def written : List Piece → List Char
  | [] => []
  | .char c :: ps => c :: written ps
  | .kept inner _ :: ps => link inner (written ps)

/-- The text after the pass. -/
def unwrapped : List Piece → List Char
  | [] => []
  | .char c :: ps => c :: unwrapped ps
  | .kept inner _ :: ps => inner ++ unwrapped ps

def chars (text : List Char) : List Piece := text.map .char

@[simp]
theorem written_chars (text : List Char) (ps : List Piece) :
    written (chars text ++ ps) = text ++ written ps := by
  induction text with
  | nil => rfl
  | cons c text ih => exact congrArg _ ih

@[simp]
theorem unwrapped_chars (text : List Char) (ps : List Piece) :
    unwrapped (chars text ++ ps) = text ++ unwrapped ps := by
  induction text with
  | nil => rfl
  | cons c text ih => exact congrArg _ ih

theorem exists_pieces (text : List Char) :
    ∃ ps, withDisplays text = written ps ∧ keepLinkDisplay text = unwrapped ps := by
  rw [withDisplays_eq, keepLinkDisplay_eq]
  induction text using scan_induction with
  | nil => exact ⟨[], rfl, rfl⟩
  | link inner rest hinner ih =>
    obtain ⟨ps, hwritten, hunwrapped⟩ := ih
    cases hshown : display inner with
    | none =>
      refine ⟨.kept inner hinner :: ps, ?_, ?_⟩
      · rw [display_unpiped hinner hshown, hwritten]
        rfl
      · rw [keep_link hinner, hshown, hunwrapped]
        rfl
    | some shown =>
      refine ⟨chars shown ++ ps, ?_, ?_⟩
      · rw [display_link hinner hshown, hwritten, written_chars]
      · rw [keep_link hinner, hshown, hunwrapped, unwrapped_chars, Option.getD_some]
  | plain c rest hlink ih =>
    obtain ⟨ps, hwritten, hunwrapped⟩ := ih
    refine ⟨.char c :: ps, ?_, ?_⟩
    · rw [display_plain hlink, hwritten]
      rfl
    · rw [keep_plain hlink, hunwrapped]
      rfl

/-- Pieces in which a scan meets inert links only: a kept one, a kept one after an opening bracket,
or one among the characters. -/
inductive Scanned : List Piece → Prop
  | nil : Scanned []
  | kept {inner : List Char} {ps : List Piece} (h : ']' ∉ inner) (hne : inner ≠ [])
      (hinert : Inert inner) (hps : Scanned ps) : Scanned (.kept inner h :: ps)
  | shifted {inner : List Char} {ps : List Piece} (h : ']' ∉ inner) (hinert : Inert ('[' :: inner))
      (hps : Scanned ps) : Scanned (.char '[' :: .kept inner h :: ps)
  | among {inner : List Char} {ps : List Piece} (h : ']' ∉ inner) (hne : inner ≠ [])
      (hps : Scanned ps) :
      Scanned (.char '[' :: .char '[' :: (chars inner ++ .char ']' :: .char ']' :: ps))
  | plain {c : Char} {ps : List Piece} (hlink : linkAt (c :: written ps) = none)
      (hps : Scanned ps) : Scanned (.char c :: ps)

theorem not_inert_bracket : ¬ Inert ['['] := fun h => h (List.infix_refl _)

theorem kept_mem_chars {text inner : List Char} {h : ']' ∉ inner} {ps : List Piece} :
    .kept inner h ∈ chars text ++ ps ↔ .kept inner h ∈ ps := by
  simp [chars]

theorem Scanned.ne_nil {ps : List Piece} (h : Scanned ps) :
    ∀ inner hinner, .kept inner hinner ∈ ps → inner ≠ [] := by
  induction h with
  | nil => simp
  | kept h hne hinert hps ih =>
    intro inner hinner hmem
    rcases List.mem_cons.mp hmem with heq | hmem
    · cases heq
      exact hne
    · exact ih inner hinner hmem
  | shifted h hinert hps ih =>
    intro inner hinner hmem
    simp only [List.mem_cons, reduceCtorEq, false_or] at hmem
    rcases hmem with heq | hmem
    · cases heq
      rintro rfl
      exact not_inert_bracket hinert
    · exact ih inner hinner hmem
  | among h hne hps ih =>
    intro inner hinner hmem
    simp only [List.mem_cons, reduceCtorEq, false_or, kept_mem_chars] at hmem
    exact ih inner hinner hmem
  | plain hlink hps ih =>
    intro inner hinner hmem
    simp only [List.mem_cons, reduceCtorEq, false_or] at hmem
    exact ih inner hinner hmem

/-- Where no bracket of the pattern's text closes a link, none of the pass's text does. -/
theorem findClose_unwrapped {ps : List Piece} (hne : ∀ inner h, .kept inner h ∈ ps → inner ≠ [])
    (hnone : findClose ']' (written ps) = none) : findClose ']' (unwrapped ps) = none := by
  induction ps with
  | nil => rfl
  | cons piece ps ih =>
    cases piece with
    | kept inner h =>
      rw [written, link, findClose, if_neg (by decide), findClose, if_neg (by decide),
        findClose_append h, findClose_pair] at hnone
      contradiction
    | char c =>
      rw [written, findClose] at hnone
      rw [unwrapped, findClose]
      by_cases hc : c = ']'
      · rw [if_pos hc] at hnone ⊢
        rw [if_neg]
        intro hhead
        cases ps with
        | nil => contradiction
        | cons piece ps =>
          cases piece with
          | char d =>
            rw [unwrapped, List.head?_cons] at hhead
            rw [written, List.head?_cons, if_pos hhead] at hnone
            contradiction
          | kept inner h =>
            rw [unwrapped, List.head?_append_of_ne_nil _ (hne inner h (by simp))] at hhead
            exact h (List.mem_of_mem_head? hhead)
      · rw [if_neg hc, Option.map_eq_none_iff] at hnone ⊢
        exact ih (fun inner h hmem => hne inner h (List.mem_cons_of_mem _ hmem)) hnone

/-- No link begins at a character of the pass's text that none begins at in the pattern's. -/
theorem linkAt_unwrapped {c : Char} {ps : List Piece}
    (hne : ∀ inner h, .kept inner h ∈ ps → inner ≠ []) (hlink : linkAt (c :: written ps) = none) :
    linkAt (c :: unwrapped ps) = none := by
  by_cases hc : c = '['
  · subst hc
    cases ps with
    | nil => rfl
    | cons piece ps =>
      cases piece with
      | kept inner h =>
        have hclosing : ']' ∉ '[' :: inner := by simp [h]
        have hsome : linkAt ('[' :: written (.kept inner h :: ps)) = some ('[' :: inner) :=
          linkAt_link hclosing (written ps)
        rw [hsome] at hlink
        contradiction
      | char d =>
        by_cases hd : d = '['
        · subst hd
          simp only [written, linkAt, Option.map_eq_none_iff] at hlink
          simp only [unwrapped, linkAt, Option.map_eq_none_iff]
          have hne' : ∀ inner h, .kept inner h ∈ ps → inner ≠ [] :=
            fun inner h hmem => hne inner h (List.mem_cons_of_mem _ hmem)
          exact findClose_unwrapped hne' hlink
        · exact linkAt_cons_none (.inr (by simpa [unwrapped] using hd))
  · exact linkAt_cons_none (.inl hc)

theorem Scanned.unwrap {ps : List Piece} (h : Scanned ps) :
    sweep unwrapStep 0 (unwrapped ps) = sweep innerStep 0 (written ps) := by
  induction h with
  | nil => rfl
  | kept h hne hinert hps ih =>
    rw [unwrapped, written, unwrap_inert hinert, inner_link h hne, ih]
  | @shifted inner ps h hinert hps ih =>
    have hwritten : written (.char '[' :: .kept inner h :: ps) = link ('[' :: inner) (written ps) :=
      rfl
    have hunwrapped : unwrapped (.char '[' :: .kept inner h :: ps) =
        ('[' :: inner) ++ unwrapped ps := rfl
    rw [hwritten, hunwrapped, unwrap_inert hinert, inner_link (by simp [h]) (by simp), ih]
  | @among inner ps h hne hps ih =>
    simp only [written, unwrapped, written_chars, unwrapped_chars]
    rw [unwrap_link h, inner_link h hne, ih]
  | plain hlink hps ih =>
    rw [unwrapped, written, unwrap_plain (linkAt_unwrapped hps.ne_nil hlink), inner_plain hlink, ih]

/-- The first closing bracket that closes a link is a character, or it belongs to a kept link. -/
theorem exists_of_findClose {ps : List Piece} {close : ℕ}
    (hclose : findClose ']' (written ps) = some close) :
    (∃ inner rest, ']' ∉ inner ∧ ps = chars inner ++ .char ']' :: .char ']' :: rest) ∨
    ∃ before inner h rest, ']' ∉ before ∧ ps = chars before ++ .kept inner h :: rest := by
  induction ps generalizing close with
  | nil => contradiction
  | cons piece ps ih =>
    cases piece with
    | kept inner h => exact .inr ⟨[], inner, h, ps, by simp, rfl⟩
    | char c =>
      rw [written, findClose] at hclose
      by_cases hc : c = ']'
      · subst hc
        rw [if_pos rfl] at hclose
        split_ifs at hclose with hhead
        cases ps with
        | nil => contradiction
        | cons piece ps =>
          cases piece with
          | kept inner h => simp [written] at hhead
          | char d =>
            obtain rfl : d = ']' := by simpa [written] using hhead
            exact .inl ⟨[], ps, by simp, rfl⟩
      · rw [if_neg hc, Option.map_eq_some_iff] at hclose
        obtain ⟨close', hclose', -⟩ := hclose
        rcases ih hclose' with ⟨inner, rest, hinner, rfl⟩ | ⟨before, inner, h, rest, hbefore, rfl⟩
        · exact .inl ⟨c :: inner, rest, by simp [hinner, Ne.symm hc], rfl⟩
        · exact .inr ⟨c :: before, inner, h, rest, by simp [hbefore, Ne.symm hc], rfl⟩

theorem not_inert_append (before inner : List Char) : ¬ Inert (before ++ '[' :: '[' :: inner) :=
  fun h => h ⟨before, inner ++ ['['], by simp⟩

/-- By induction on the number of pieces, from one link to the next. -/
theorem scanned_of_links {ps : List Piece}
    (hlinks : ∀ inner ∈ links (written ps), inner ≠ [] ∧ Inert inner) : Scanned ps := by
  suffices h : ∀ n (ps : List Piece), ps.length ≤ n →
      (∀ inner ∈ links (written ps), inner ≠ [] ∧ Inert inner) → Scanned ps from
    h _ ps le_rfl hlinks
  clear hlinks ps
  intro n
  induction n with
  | zero =>
    intro ps hlength _
    obtain rfl : ps = [] := List.eq_nil_of_length_eq_zero (by omega)
    exact .nil
  | succ n ih =>
    intro ps hlength hlinks
    cases ps with
    | nil => exact .nil
    | cons piece ps =>
      rw [List.length_cons] at hlength
      cases piece with
      | kept inner h =>
        rw [written, links_link h, List.forall_mem_cons] at hlinks
        exact .kept h hlinks.1.1 hlinks.1.2 (ih ps (by omega) hlinks.2)
      | char c =>
        cases hlink : linkAt (c :: written ps) with
        | none =>
          rw [written, links_plain hlink] at hlinks
          exact .plain hlink (ih ps (by omega) hlinks)
        | some z =>
          obtain ⟨after, hafter, -⟩ := exists_of_linkAt hlink
          rw [link, List.cons.injEq] at hafter
          obtain ⟨rfl, hafter⟩ := hafter
          cases ps with
          | nil => contradiction
          | cons piece ps =>
            rw [List.length_cons] at hlength
            cases piece with
            | kept inner h =>
              have hlink : written (.char '[' :: .kept inner h :: ps) =
                  link ('[' :: inner) (written ps) := rfl
              rw [hlink, links_link (by simp [h]), List.forall_mem_cons] at hlinks
              exact .shifted h hlinks.1.2 (ih ps (by omega) hlinks.2)
            | char d =>
              obtain rfl : d = '[' := by
                rw [written, List.cons.injEq] at hafter
                exact hafter.1
              simp only [written, linkAt, Option.map_eq_some_iff] at hlink
              obtain ⟨close, hclose, -⟩ := hlink
              rcases exists_of_findClose hclose with
                ⟨inner, rest, hinner, rfl⟩ | ⟨before, inner, h, rest, hbefore, rfl⟩
              · simp only [written, written_chars] at hlinks
                rw [links_link hinner, List.forall_mem_cons] at hlinks
                rw [List.length_append, List.length_cons, List.length_cons] at hlength
                exact .among hinner hlinks.1.1 (ih rest (by omega) hlinks.2)
              · -- a kept link inside another one is not inert
                have hlink : written
                    (.char '[' :: .char '[' :: (chars before ++ .kept inner h :: rest)) =
                    link (before ++ '[' :: '[' :: inner) (written rest) := by
                  simp [written]
                rw [hlink, links_link (by simp [hbefore, h]), List.forall_mem_cons] at hlinks
                exact absurd hlinks.1.2 (not_inert_append before inner)

/-! ## The whole of the passes -/

instance : DecidablePred Inert := fun text =>
  inferInstanceAs (Decidable ¬ ['[', '['] <:+: text ++ ['['])

/-- With the displays written out no link is empty, and either every link was a piped one or no
link holds the beginning of another. -/
def LinksInert (text : List Char) : Prop :=
  let text := withoutMedia (withoutTemplates text)
  (∀ inner ∈ links (withDisplays text), inner ≠ []) ∧
    ((∀ inner ∈ links text, display inner ≠ none) ∨
      ∀ inner ∈ links (withDisplays text), Inert inner)

instance : DecidablePred LinksInert := fun _ => inferInstanceAs (Decidable (_ ∧ _))

/-- The two passes for links do together what their patterns do. -/
theorem unwrapLinks_keepLinkDisplay {text : List Char}
    (hne : ∀ inner ∈ links (withDisplays text), inner ≠ [])
    (h : (∀ inner ∈ links text, display inner ≠ none) ∨
      ∀ inner ∈ links (withDisplays text), Inert inner) :
    unwrapLinks (keepLinkDisplay text) = withoutLinks (withDisplays text) := by
  rcases h with hshown | hinert
  · rw [(keepLinkDisplay_eq_iff text).mpr hshown, (unwrapLinks_eq_iff _).mpr hne]
  · obtain ⟨ps, hwritten, hunwrapped⟩ := exists_pieces text
    rw [hwritten] at hne hinert ⊢
    rw [hunwrapped, unwrapLinks_eq, withoutLinks_eq]
    exact (scanned_of_links fun inner hmem => ⟨hne inner hmem, hinert inner hmem⟩).unwrap

/-- Five of the passes are their patterns on every text, the pass for piped links is on the texts
whose links all have a display text, and the pass for the other links on the texts without an empty
link. All of them together give what the patterns give wherever no link is empty or holds the
beginning of another. -/
theorem stripWikitext_documented (text : List Char) :
    (removeTemplates text = withoutTemplates text ∧ removeMediaLinks text = withoutMedia text ∧
      removeHtmlTags text = withoutTags text ∧
      removeCategoryLinks text = withoutCategories text ∧
      collapseBlankLines text = withoutBlanks text) ∧
    (keepLinkDisplay text = withDisplays text ↔ ∀ inner ∈ links text, display inner ≠ none) ∧
    (unwrapLinks text = withoutLinks text ↔ ∀ inner ∈ links text, inner ≠ []) ∧
    (LinksInert text → stripWikitext text = documented text) := by
  refine ⟨⟨removeTemplates_eq text, removeMediaLinks_eq text, removeHtmlTags_eq text,
    removeCategoryLinks_eq text, collapseBlankLines_eq text⟩, keepLinkDisplay_eq_iff text,
    unwrapLinks_eq_iff text, fun h => ?_⟩
  rw [stripWikitext, documented, removeTemplates_eq, removeMediaLinks_eq,
    unwrapLinks_keepLinkDisplay h.1 h.2, removeHtmlTags_eq, removeCategoryLinks_eq,
    collapseBlankLines_eq]

/-- A piped link before one without a display text. -/
def twoLinks : List Char :=
  ['[', '[', '源', '石', '|', '源', '石', '晶', '体', ']', ']', '[', '[', '罗', '德', '岛', ']', ']']

theorem stripWikitext_documented_twoLinks : stripWikitext twoLinks = documented twoLinks :=
  (stripWikitext_documented twoLinks).2.2.2 (by decide +kernel)

theorem not_stripWikitext_documented : ¬ ∀ text, stripWikitext text = documented text := fun h =>
  absurd (h ['[', '[', '[', '[', 'a', ']', ']', ']', ']']) (by decide +kernel)

end PrtsMcp.Wikitext
