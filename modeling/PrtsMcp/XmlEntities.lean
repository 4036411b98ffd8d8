import PrtsMcp.JsNumber

/-!
# Character data

Entities in the texts of XML, and the runs of text and CDATA that are decoded together.
-/
namespace PrtsMcp.XmlEntities

/-! ## Cutting -/

/-- What stands before the first place of a pattern, and what after it. -/
def cut (pat : List Char) : List Char → Option (List Char × List Char)
  | [] => none
  | c :: s =>
    if pat.isPrefixOf (c :: s) then some ([], (c :: s).drop pat.length)
    else (cut pat s).map fun parts => (c :: parts.1, parts.2)

theorem eq_of_cut {pat s before after : List Char} (h : cut pat s = some (before, after)) :
    s = before ++ (pat ++ after) := by
  induction s generalizing before with
  | nil => cases h
  | cons c s ih =>
    rw [cut] at h
    split_ifs at h with hpat
    · obtain ⟨rest, hrest⟩ := List.isPrefixOf_iff_prefix.mp hpat
      cases h
      rw [← hrest, List.drop_left]
      rfl
    · obtain ⟨parts, hparts, heq⟩ := Option.map_eq_some_iff.mp h
      cases heq
      rw [ih hparts]
      rfl

/-- The first place of a pattern is where the text before it does not run into one. -/
theorem cut_append {pat before : List Char} (hpat : pat ≠ []) (after : List Char)
    (h : ∀ tail ≠ [], tail <:+ before → ¬ pat <+: tail ++ (pat ++ after)) :
    cut pat (before ++ (pat ++ after)) = some (before, after) := by
  induction before with
  | nil =>
    obtain ⟨p, rest, rfl⟩ := List.exists_cons_of_ne_nil hpat
    rw [List.nil_append, List.cons_append, cut, if_pos]
    · rw [← List.cons_append, List.drop_left]
    · exact List.isPrefixOf_iff_prefix.mpr (List.prefix_append (p :: rest) after)
  | cons c before ih =>
    have hhere : ¬ pat <+: c :: (before ++ (pat ++ after)) := h (c :: before) (by simp) (List.suffix_refl _)
    rw [List.cons_append, cut, if_neg (fun hpre => hhere (List.isPrefixOf_iff_prefix.mp hpre)),
      ih fun tail hne htail => h tail hne (htail.trans (List.suffix_cons c before))]
    rfl

/-! ## References -/

/-- `u32::from_str_radix`. -/
def parseU32 (radix : ℕ) (cs : List Char) : Option ℕ :=
  let digits := if cs.head? = some '+' then cs.tail else cs
  if digits = [] then none
  else
    (digits.mapM (JsNumber.digitOf radix)).bind fun ds =>
      let n := ds.foldl (fun n d => n * radix + d) 0
      if n < 2 ^ 32 then some n else none

/-- `char::from_u32`. -/
def charFromU32 (n : ℕ) : Option Char := if n.isValidChar then some (Char.ofNat n) else none

def namedEntities : List (List Char × Char) :=
  [(['a', 'm', 'p'], '&'), (['l', 't'], '<'), (['g', 't'], '>'), (['q', 'u', 'o', 't'], '"'),
    (['a', 'p', 'o', 's'], '\'')]

/-- The character that is named between `&` and `;`. -/
def decodeBody (body : List Char) : Option Char :=
  match namedEntities.lookup body with
  | some c => some c
  | none =>
    match body with
    | '#' :: 'x' :: hex => (parseU32 16 hex).bind charFromU32
    | '#' :: 'X' :: hex => (parseU32 16 hex).bind charFromU32
    | '#' :: dec => (parseU32 10 dec).bind charFromU32
    | _ => none

/-- The character of the reference that begins with an `&` before the text, and what follows it. -/
def reference? (rest : List Char) : Option (Char × List Char) :=
  (cut [';'] rest).bind fun parts => (decodeBody parts.1).map fun c => (c, parts.2)

theorem eq_of_reference? {rest after : List Char} {c : Char} (h : reference? rest = some (c, after)) :
    ∃ body, rest = body ++ (';' :: after) ∧ decodeBody body = some c := by
  obtain ⟨parts, hparts, h⟩ := Option.bind_eq_some_iff.mp h
  obtain ⟨c', hbody, heq⟩ := Option.map_eq_some_iff.mp h
  cases heq
  exact ⟨parts.1, eq_of_cut hparts, hbody⟩

def decodeLoop : List Char → List Char
  | [] => []
  | c :: rest =>
    if c = '&' then
      match _h : reference? rest with
      | some (decoded, after) => decoded :: decodeLoop after
      | none => c :: decodeLoop rest
    else c :: decodeLoop rest
termination_by text => text.length
decreasing_by
  · obtain ⟨body, hrest, -⟩ := eq_of_reference? _h
    simp only [hrest, List.length_cons, List.length_append]
    omega
  · exact Nat.lt_succ_self _
  · exact Nat.lt_succ_self _

def decodeEntities (text : List Char) : List Char :=
  if '&' ∈ text then decodeLoop text else text

theorem decodeLoop_nil : decodeLoop [] = [] := by
  rw [decodeLoop]

theorem decodeLoop_of_ne {c : Char} (hc : c ≠ '&') (rest : List Char) :
    decodeLoop (c :: rest) = c :: decodeLoop rest := by
  rw [decodeLoop, if_neg hc]

theorem decodeLoop_reference {rest after : List Char} {c : Char} (h : reference? rest = some (c, after)) :
    decodeLoop ('&' :: rest) = c :: decodeLoop after := by
  rw [decodeLoop, if_pos rfl]
  split
  · next decoded after' h' =>
    rw [h] at h'
    cases h'
    rfl
  · next h' =>
    rw [h] at h'
    cases h'

theorem decodeLoop_ampersand {rest : List Char} (h : reference? rest = none) :
    decodeLoop ('&' :: rest) = '&' :: decodeLoop rest := by
  rw [decodeLoop, if_pos rfl]
  split
  · next h' =>
    rw [h] at h'
    cases h'
  · rfl

/-- The look at the whole text first changes nothing. -/
theorem decodeEntities_eq (text : List Char) : decodeEntities text = decodeLoop text := by
  rw [decodeEntities]
  split_ifs with h
  · rfl
  · induction text with
    | nil => exact decodeLoop_nil.symm
    | cons c rest ih =>
      rw [List.mem_cons, not_or] at h
      rw [decodeLoop_of_ne (fun heq => h.1 heq.symm), ← ih h.2]

/-! ## The characters of references -/

def bodyChar (c : Char) : Bool := c.isAlphanum || c = '#' || c = '+'

theorem isAlphanum_of_digitOf {radix d : ℕ} {c : Char} (h : JsNumber.digitOf radix c = some d) :
    c.isAlphanum = true := by
  by_contra hc
  simp [JsNumber.digitOf, hc] at h

theorem isSome_of_mapM {α β : Type} {f : α → Option β} {xs : List α} {ys : List β}
    (h : xs.mapM f = some ys) : ∀ x ∈ xs, ∃ y, f x = some y := by
  induction xs generalizing ys with
  | nil => exact fun x hx => absurd hx List.not_mem_nil
  | cons x xs ih =>
    rw [List.mapM_cons] at h
    obtain ⟨y, hy, h⟩ := Option.bind_eq_some_iff.mp h
    obtain ⟨rest, hrest, -⟩ := Option.bind_eq_some_iff.mp h
    exact List.forall_mem_cons.mpr ⟨⟨y, hy⟩, ih hrest⟩

theorem bodyChar_of_parseU32 {radix n : ℕ} {cs : List Char} (h : parseU32 radix cs = some n) :
    ∀ c ∈ cs, bodyChar c = true := by
  have hdigits : ∀ digits : List Char, ∀ ds, digits.mapM (JsNumber.digitOf radix) = some ds →
      ∀ c ∈ digits, bodyChar c = true := by
    intro digits ds hds c hc
    obtain ⟨d, hd⟩ := isSome_of_mapM hds c hc
    rw [bodyChar, isAlphanum_of_digitOf hd]
    rfl
  rw [parseU32] at h
  simp only at h
  split_ifs at h with hsign hnil hnil
  · obtain ⟨ds, hds, -⟩ := Option.bind_eq_some_iff.mp h
    obtain ⟨rest, rfl⟩ := List.head?_eq_some_iff.mp hsign
    exact List.forall_mem_cons.mpr ⟨by decide, hdigits rest ds hds⟩
  · obtain ⟨ds, hds, -⟩ := Option.bind_eq_some_iff.mp h
    exact hdigits cs ds hds

theorem bodyChar_named : ∀ entry ∈ namedEntities, ∀ b ∈ entry.1, bodyChar b = true := by
  simp [namedEntities, bodyChar]

/-- Only letters, digits, `#` and `+` stand in a reference. -/
theorem bodyChar_of_decodeBody {body : List Char} {c : Char} (h : decodeBody body = some c) :
    ∀ b ∈ body, bodyChar b = true := by
  have hhead : bodyChar '#' = true ∧ bodyChar 'x' = true ∧ bodyChar 'X' = true := by decide +kernel
  unfold decodeBody at h
  split at h
  · next named hnamed =>
    obtain ⟨before, after, hentries, -⟩ := List.lookup_eq_some_iff.mp hnamed
    have hmem : (body, named) ∈ namedEntities := by
      rw [hentries]
      simp
    exact bodyChar_named _ hmem
  · split at h
    · obtain ⟨n, hn, -⟩ := Option.bind_eq_some_iff.mp h
      simpa [hhead] using bodyChar_of_parseU32 hn
    · obtain ⟨n, hn, -⟩ := Option.bind_eq_some_iff.mp h
      simpa [hhead] using bodyChar_of_parseU32 hn
    · obtain ⟨n, hn, -⟩ := Option.bind_eq_some_iff.mp h
      simpa [hhead] using bodyChar_of_parseU32 hn
    · cases h

theorem notMem_of_decodeBody {body : List Char} {c b : Char} (h : decodeBody body = some c)
    (hb : bodyChar b = false) : b ∉ body := by
  intro hmem
  rw [bodyChar_of_decodeBody h b hmem] at hb
  cases hb

/-- A reference is read up to its semicolon. -/
theorem reference?_append {body : List Char} {c : Char} (h : decodeBody body = some c) (after : List Char) :
    reference? (body ++ (';' :: after)) = some (c, after) := by
  have hcut : cut [';'] (body ++ ([';'] ++ after)) = some (body, after) := by
    refine cut_append (by simp) after fun tail hne htail hpre => ?_
    obtain ⟨b, rest, rfl⟩ := List.exists_cons_of_ne_nil hne
    have hb : ';' = b := (List.cons_prefix_cons.mp hpre).1
    exact notMem_of_decodeBody h (by decide) (hb ▸ htail.subset List.mem_cons_self)
  rw [reference?, show body ++ (';' :: after) = body ++ ([';'] ++ after) from rfl, hcut]
  simp [h]

/-! ## Runs -/

structure Reference where
  body : List Char
  char : Char
  decodes : decodeBody body = some char

/-- A character of a run: one that stands for itself in a text, one that is referred to, or one of a
CDATA section. -/
inductive Datum where
  | plain (c : Char)
  | ref (r : Reference)
  | literal (c : Char)

namespace Datum

/-- How it is written. -/
def raw : Datum → List Char
  | plain c => [c]
  | ref r => '&' :: (r.body ++ [';'])
  | literal c => [c]

/-- What it stands for. -/
def value : Datum → Char
  | plain c => c
  | ref r => r.char
  | literal c => c

/-- In a text, no ampersand stands for itself. -/
def Sound : Datum → Prop
  | plain c => c ≠ '&'
  | ref _ => True
  | literal _ => True

end Datum

def rawOf (run : List Datum) : List Char := run.flatMap Datum.raw

def valueOf (run : List Datum) : List Char := run.map Datum.value

/-- No ampersand of a CDATA section begins a reference. -/
def NoReference (run : List Datum) : Prop :=
  ∀ before after, run = before ++ (.literal '&' :: after) → reference? (rawOf after) = none

@[simp]
theorem rawOf_nil : rawOf [] = [] := rfl

@[simp]
theorem rawOf_cons (d : Datum) (run : List Datum) : rawOf (d :: run) = d.raw ++ rawOf run := rfl

theorem rawOf_append (front back : List Datum) : rawOf (front ++ back) = rawOf front ++ rawOf back :=
  List.flatMap_append

theorem rawOf_eq_nil {run : List Datum} : rawOf run = [] ↔ run = [] := by
  cases run with
  | nil => simp
  | cons d run => cases d <;> simp [Datum.raw]

theorem noReference_nil : NoReference [] := by
  intro before after h
  simp at h

theorem noReference_cons {d : Datum} {run : List Datum} :
    NoReference (d :: run) ↔ (d = .literal '&' → reference? (rawOf run) = none) ∧ NoReference run := by
  constructor
  · intro h
    refine ⟨fun hd => h [] run (by rw [hd]; rfl), fun before after heq => ?_⟩
    exact h (d :: before) after (by rw [heq]; rfl)
  · rintro ⟨hd, hrun⟩ before after heq
    cases before with
    | nil =>
      obtain ⟨rfl, rfl⟩ := List.cons.inj heq
      exact hd rfl
    | cons first before =>
      obtain ⟨-, rfl⟩ := List.cons.inj heq
      exact hrun before after rfl

/-- Characters that are read without an ampersand are as many of the run. -/
theorem exists_suffix {run : List Datum} {front after : List Char} (h : rawOf run = front ++ after)
    (hfront : '&' ∉ front) :
    ∃ swallowed rest, run = swallowed ++ rest ∧ swallowed.length = front.length ∧ rawOf rest = after := by
  induction front generalizing run with
  | nil => exact ⟨[], run, rfl, rfl, h⟩
  | cons c front ih =>
    rw [List.mem_cons, not_or] at hfront
    cases run with
    | nil => cases h
    | cons d run =>
      have hsingle : d.raw = [c] := by
        cases d with
        | plain b => exact congrArg (fun x => [x]) (List.cons.inj h).1
        | literal b => exact congrArg (fun x => [x]) (List.cons.inj h).1
        | ref r => exact absurd (List.cons.inj h).1 hfront.1
      rw [rawOf_cons, hsingle] at h
      obtain ⟨swallowed, rest, rfl, hlength, hrest⟩ := ih (List.cons.inj h).2 hfront.2
      exact ⟨d :: swallowed, rest, rfl, congrArg (· + 1) hlength, hrest⟩

theorem length_valueOf (run : List Datum) : (valueOf run).length = run.length := List.length_map ..

/-- A run is decoded to what it stands for, or to less where a CDATA section is read as a
reference. -/
theorem decodeLoop_rawOf (run : List Datum) (hsound : ∀ d ∈ run, d.Sound) :
    (NoReference run → decodeLoop (rawOf run) = valueOf run) ∧
      (¬ NoReference run → (decodeLoop (rawOf run)).length < run.length) := by
  induction hlength : run.length using Nat.strong_induction_on generalizing run with
  | _ n ih =>
    cases run with
    | nil => exact ⟨fun _ => decodeLoop_nil, fun h => absurd noReference_nil h⟩
    | cons d run =>
      obtain ⟨hd, hrun⟩ := List.forall_mem_cons.mp hsound
      rw [List.length_cons] at hlength
      have hrest := ih run.length (by omega) run hrun rfl
      -- where the head is read as itself, the rest of the run decides
      have hkeep : decodeLoop (rawOf (d :: run)) = d.value :: decodeLoop (rawOf run) →
          (NoReference (d :: run) ↔ NoReference run) →
          (NoReference (d :: run) → decodeLoop (rawOf (d :: run)) = valueOf (d :: run)) ∧
            (¬ NoReference (d :: run) → (decodeLoop (rawOf (d :: run))).length < n) := by
        intro hdecode hiff
        rw [hdecode, hiff]
        refine ⟨fun h => congrArg (d.value :: ·) (hrest.1 h), fun h => ?_⟩
        have hless := hrest.2 h
        rw [List.length_cons]
        omega
      have hother : d ≠ .literal '&' → (NoReference (d :: run) ↔ NoReference run) := fun hne =>
        noReference_cons.trans (and_iff_right fun heq => absurd heq hne)
      cases d with
      | plain c => exact hkeep (decodeLoop_of_ne hd _) (hother (by simp))
      | ref r =>
        refine hkeep ?_ (hother (by simp))
        rw [rawOf_cons, Datum.raw, List.cons_append, List.append_assoc]
        exact decodeLoop_reference (reference?_append r.decodes _)
      | literal c =>
        by_cases hc : c = '&'
        · subst hc
          cases href : reference? (rawOf run) with
          | none =>
            refine hkeep (decodeLoop_ampersand href) ?_
            rw [noReference_cons]
            exact and_iff_right fun _ => href
          | some found =>
            obtain ⟨body, hraw, hbody⟩ := eq_of_reference? href
            have hfront : '&' ∉ body ++ [';'] := by
              rw [List.mem_append, not_or]
              exact ⟨notMem_of_decodeBody hbody (by decide), by decide⟩
            obtain ⟨swallowed, rest, hsplit, hswallowed, hafter⟩ :=
              exists_suffix (by rw [hraw, List.append_assoc]; rfl) hfront
            have hshort : (decodeLoop (rawOf rest)).length ≤ rest.length := by
              have hlt : rest.length < n := by
                rw [hsplit, List.length_append] at hlength
                omega
              have hih := ih rest.length hlt rest
                (fun d hd => hrun d (hsplit ▸ List.mem_append_right swallowed hd)) rfl
              by_cases hno : NoReference rest
              · rw [hih.1 hno, length_valueOf]
              · exact (hih.2 hno).le
            constructor
            · intro hno
              have hnone := (noReference_cons.mp hno).1 rfl
              rw [href] at hnone
              cases hnone
            · intro _
              have hdecode : decodeLoop (rawOf (.literal '&' :: run)) = found.1 :: decodeLoop found.2 :=
                decodeLoop_reference href
              rw [hdecode, List.length_cons, ← hafter]
              rw [hsplit, List.length_append, hswallowed, List.length_append] at hlength
              simp only [List.length_singleton] at hlength
              omega
        · exact hkeep (decodeLoop_of_ne hc _) (hother (by simpa using hc))

/-- A run is decoded once, with its CDATA as it is, exactly if no CDATA begins a reference. -/
theorem decodeEntities_rawOf {run : List Datum} (hsound : ∀ d ∈ run, d.Sound) :
    decodeEntities (rawOf run) = valueOf run ↔ NoReference run := by
  rw [decodeEntities_eq]
  refine ⟨fun h => ?_, (decodeLoop_rawOf run hsound).1⟩
  by_contra hno
  have hless := (decodeLoop_rawOf run hsound).2 hno
  rw [h, length_valueOf] at hless
  exact lt_irrefl _ hless

end PrtsMcp.XmlEntities
