import PrtsMcp.Fallible
import PrtsMcp.McpEndpoint
import PrtsMcp.Occurrences

/-!
# Template rendering

The values of a page's templates are sent to the wiki in one text, each between two markers, and
the rendered text is cut apart at the markers again.
-/
namespace PrtsMcp.TemplateRender

open JsonValue Occurrences
open Fallible (forall₂_of_mapM_eq_ok mapM_ne_error)
open McpEndpoint (trimmed)

/-- A message to the caller, or a panic. -/
inductive Failure where
  | message (text : String)
  | panic
  deriving DecidableEq, Repr

def isHexChar (c : Char) : Bool := c.isDigit || ('a' ≤ c && c ≤ 'f')

/-- The simple form of a UUID. -/
abbrev Uuid := {s : List Char // s.length = 32 ∧ ∀ c ∈ s, isHexChar c = true}

inductive Kind where
  | begins
  | ends
  deriving DecidableEq, Repr

def Kind.word : Kind → List Char
  | begins => ['_', 'B', 'E', 'G', 'I', 'N', '_']
  | ends => ['_', 'E', 'N', 'D', '_']

def markerPrefix : List Char := ['P', 'R', 'T', 'S', 'M', 'C', 'P', '_']

/-- `PRTSMCP_<uuid>_BEGIN_<i>_` or `PRTSMCP_<uuid>_END_<i>_`. -/
def marker (uuid : Uuid) (kind : Kind) (index : ℕ) : List Char :=
  markerPrefix ++ (uuid.1 ++ (kind.word ++ (index.repr.toList ++ ['_'])))

/-! ## Batch -/

/-- The wiki's answer to a request, and the removal of tags from what it renders. -/
structure Wiki (φ : Type) where
  post : List (String × String) → Except String (JsonValue φ)
  stripHtml : String → Except String String

def requestFailed : Failure := .message "模板字段渲染请求失败。"

def invalidResponse : Failure := .message "模板字段渲染响应格式无效。"

def invalidBoundary : Failure := .message "模板字段渲染边界无效。"

section Batch

variable {φ : Type}

/-- The values between their markers. -/
def batchText (uuid : Uuid) (values : List String) : List Char :=
  List.intercalate ['\n', '\n'] (values.zipIdx.map fun entry =>
    marker uuid .begins entry.2 ++ ('\n' :: entry.1.toList) ++ ('\n' :: marker uuid .ends entry.2))

def postParams (uuid : Uuid) (title : String) (values : List String) : List (String × String) :=
  [("action", "parse"), ("title", title), ("text", String.ofList (batchText uuid values)),
    ("prop", "text"), ("format", "json")]

def renderedText (data : JsonValue φ) : Except Failure String :=
  match (((data.get "parse").bind (get "text")).bind (get "*")).bind asStr with
  | some raw => .ok raw
  | none => .error invalidResponse

/-- An error with an empty text is passed over. -/
def responseText (data : JsonValue φ) : Except Failure String :=
  match data.asObject with
  | none => .error invalidResponse
  | some response =>
    match response.lookup "error" with
    | none => renderedText data
    | some error =>
      match ((error.asObject.bind (List.lookup "info")).bind asStr) with
      | none => .error invalidResponse
      | some info => if info = "" then renderedText data else .error requestFailed

/-- The markers of a batch, in the order they should stand in. -/
def keys (count : ℕ) : List (Kind × ℕ) :=
  (List.range count).flatMap fun i => [(.begins, i), (.ends, i)]

/-- Where a marker is found, -1 for one that is missing. -/
def position (uuid : Uuid) (rendered : List Char) (key : Kind × ℕ) : ℤ :=
  (find (marker uuid key.1 key.2) rendered).elim (-1) Nat.cast

def sortedKeys (uuid : Uuid) (rendered : List Char) (count : ℕ) : List (Kind × ℕ) :=
  (((keys count).map fun key => (position uuid rendered key, key)).insertionSort
    fun a b => a.1 ≤ b.1).map Prod.snd

/-- The text between the two markers of a value. -/
def entryBetween (uuid : Uuid) (rendered : List Char) (index : ℕ) : Except Failure String :=
  let first := marker uuid .begins index
  let last := marker uuid .ends index
  if pieces first rendered ≠ 2 ∨ pieces last rendered ≠ 2 then .error invalidBoundary
  else
    match find first rendered, find last rendered with
    | some start, some finish =>
      if finish < start + first.length then .error invalidBoundary
      else .ok (String.ofList (trimmed ((rendered.take finish).drop (start + first.length))))
    | _, _ => .error .panic

/-- The rendered text cut apart. -/
def sliceBatch (uuid : Uuid) (rendered : String) (count : ℕ) : Except Failure (List String) :=
  if rendered = "" then .error (.message "模板字段渲染结果为空。")
  else if sortedKeys uuid rendered.toList count ≠ keys count then .error invalidBoundary
  else (List.range count).mapM (entryBetween uuid rendered.toList)

def renderTemplateBatch (wiki : Wiki φ) (uuid : Uuid) (title : String) (values : List String) :
    Except Failure (List String) :=
  if values = [] then .ok []
  else do
    let data ← (wiki.post (postParams uuid title values)).mapError fun _ => requestFailed
    let raw ← responseText data
    let rendered ← (wiki.stripHtml raw).mapError fun _ => invalidResponse
    sliceBatch uuid rendered values.length

end Batch

/-! ## Markers -/

theorem anchored_marker (uuid : Uuid) (kind : Kind) (index : ℕ) :
    Anchored 'P' 'R' (marker uuid kind index) where
  head := by
    refine ⟨['T', 'S', 'M', 'C', 'P', '_'] ++ (uuid.1 ++ (kind.word ++ (index.repr.toList ++ ['_']))),
      rfl, ?_⟩
    have huuid : 'R' ∉ uuid.1 := fun h => absurd (uuid.2.2 'R' h) (by decide)
    have hword : 'R' ∉ kind.word := by cases kind <;> decide
    have hindex : 'R' ∉ index.repr.toList := by
      intro h
      rw [Nat.repr, String.toList_ofList] at h
      exact absurd (Nat.isDigit_of_mem_toDigits (by norm_num) (le_refl _) h) (by decide)
    simp only [List.mem_append, not_or]
    exact ⟨by decide, huuid, hword, hindex, by decide⟩
  ne := by decide
  last := by
    rw [marker, ← List.append_assoc, ← List.append_assoc, ← List.append_assoc,
      List.getLast?_append]
    simp

theorem getElem?_marker (uuid : Uuid) (kind : Kind) (index : ℕ) :
    (marker uuid kind index)[41]? = kind.word[1]? := by
  have hlength : (markerPrefix ++ uuid.1).length = 40 := by
    rw [List.length_append, uuid.2.1]
    rfl
  have hword : 1 < kind.word.length := by cases kind <;> decide
  rw [marker, ← List.append_assoc, List.getElem?_append_right (by omega), hlength,
    List.getElem?_append_left hword]

/-- Markers of the two kinds stand at different places. -/
theorem ne_of_occursAt {uuid : Uuid} {text : List Char} {p i j : ℕ}
    (h : OccursAt (marker uuid .begins i) text p) (h' : OccursAt (marker uuid .ends j) text p) :
    False := by
  have hlength : ∀ kind k, 41 < (marker uuid kind k).length := by
    intro kind k
    have hword : 5 ≤ kind.word.length := by cases kind <;> decide
    have hprefix : markerPrefix.length = 8 := rfl
    simp only [marker, List.length_append, uuid.2.1, hprefix, List.length_singleton]
    omega
  have hbegins := h.getElem? (hlength .begins i)
  rw [h'.getElem? (hlength .ends j), getElem?_marker, getElem?_marker] at hbegins
  simp [Kind.word] at hbegins

/-! ## Order -/

theorem eq_of_perm_of_map {β γ : Type} {f : β → γ} {xs ys : List β} (h : xs.Perm ys)
    (hmap : xs.map f = ys.map f) (hnodup : (ys.map f).Nodup) : xs = ys := by
  have hlength : xs.length = ys.length := h.length_eq
  refine List.ext_getElem hlength fun i hi hi' => ?_
  have hf : f xs[i] = f ys[i] := by
    have := List.getElem_of_eq hmap (i := i) (by simpa using hi)
    simpa using this
  exact List.inj_on_of_nodup_map hnodup (h.mem_iff.mp (List.getElem_mem hi)) (List.getElem_mem hi') hf

theorem nodup_keys (count : ℕ) : (keys count).Nodup := by
  rw [keys, List.nodup_flatMap]
  refine ⟨fun i _ => by simp, List.nodup_range.imp fun hne => ?_⟩
  simpa [Function.onFun, List.disjoint_left] using hne

/-- In the expected order, no marker is found before one that should precede it. -/
theorem pairwise_position {uuid : Uuid} {rendered : List Char} {count : ℕ}
    (h : sortedKeys uuid rendered count = keys count) :
    (keys count).Pairwise fun a b => position uuid rendered a ≤ position uuid rendered b := by
  set entries := (keys count).map fun key => (position uuid rendered key, key) with hentries
  have hsnd : entries.map Prod.snd = keys count := by simp [hentries, Function.comp_def]
  have hsorted : entries.insertionSort (fun a b => a.1 ≤ b.1) = entries :=
    eq_of_perm_of_map (f := Prod.snd) (List.perm_insertionSort _ _) (h.trans hsnd.symm)
      (hsnd ▸ nodup_keys count)
  have hpairwise : entries.Pairwise fun a b => a.1 ≤ b.1 := by
    rw [← hsorted]
    exact List.pairwise_insertionSort _ _
  rw [hentries, List.pairwise_map] at hpairwise
  exact hpairwise

theorem position_le {uuid : Uuid} {rendered : List Char} {count : ℕ}
    (h : sortedKeys uuid rendered count = keys count) :
    (∀ i < count, position uuid rendered (.begins, i) ≤ position uuid rendered (.ends, i)) ∧
      ∀ i j, i < j → j < count → ∀ kind kind',
        position uuid rendered (kind, i) ≤ position uuid rendered (kind', j) := by
  have hpairwise := pairwise_position h
  rw [keys, List.pairwise_flatMap] at hpairwise
  refine ⟨fun i hi => ?_, fun i j hij hj kind kind' => ?_⟩
  · simpa using hpairwise.1 i (List.mem_range.mpr hi)
  · have hrange := List.pairwise_iff_getElem.mp hpairwise.2 i j (by simp; omega) (by simpa) hij
    rw [List.getElem_range, List.getElem_range] at hrange
    refine hrange (kind, i) ?_ (kind', j) ?_
    · cases kind <;> simp
    · cases kind' <;> simp

/-! ## Slices -/

/-- The part of the rendered text between two places. -/
def between (rendered : List Char) (start stop : ℕ) : List Char := (rendered.take stop).drop start

/-- Each marker stands once in the rendered text, in order, and the entries are what stands
between the markers of one value each, without any marker. -/
structure Sliced (uuid : Uuid) (rendered : List Char) (count : ℕ) (out : List String) : Prop where
  length : out.length = count
  places : ∃ place : Kind → ℕ → ℕ,
    (∀ kind, ∀ i < count, ∀ p, OccursAt (marker uuid kind i) rendered p ↔ p = place kind i) ∧
    (∀ i < count, place .begins i + (marker uuid .begins i).length ≤ place .ends i) ∧
    (∀ i, i + 1 < count → place .ends i + (marker uuid .ends i).length ≤ place .begins (i + 1)) ∧
    ∀ i < count, out[i]? = some (String.ofList (trimmed (between rendered
      (place .begins i + (marker uuid .begins i).length) (place .ends i))))
  clean : ∀ entry ∈ out, ∀ kind, ∀ i < count, ¬ marker uuid kind i <:+: entry.toList

/-- What is known of one entry that was cut out. -/
structure Cut (uuid : Uuid) (rendered : List Char) (i : ℕ) (entry : String) (start stop : ℕ) :
    Prop where
  begins : ∀ p, OccursAt (marker uuid .begins i) rendered p ↔ p = start
  ends : ∀ p, OccursAt (marker uuid .ends i) rendered p ↔ p = stop
  foundBegins : position uuid rendered (.begins, i) = start
  foundEnds : position uuid rendered (.ends, i) = stop
  apart : start + (marker uuid .begins i).length ≤ stop
  entry : entry = String.ofList (trimmed (between rendered
    (start + (marker uuid .begins i).length) stop))

theorem exists_cut {uuid : Uuid} {rendered : List Char} {i : ℕ} {entry : String}
    (h : entryBetween uuid rendered i = .ok entry) :
    ∃ start stop, Cut uuid rendered i entry start stop := by
  unfold entryBetween at h
  dsimp only at h
  split at h
  · cases h
  · next hpieces =>
    push Not at hpieces
    obtain ⟨start, hstart, hbegins⟩ := (anchored_marker uuid .begins i).unique hpieces.1
    obtain ⟨stop, hstop, hends⟩ := (anchored_marker uuid .ends i).unique hpieces.2
    rw [hstart, hstop] at h
    dsimp only at h
    split at h
    · cases h
    · next hapart =>
      refine ⟨start, stop, hbegins, hends, ?_, ?_, not_lt.mp hapart, (Except.ok.inj h).symm⟩
      · rw [position, hstart]
        rfl
      · rw [position, hstop]
        rfl

theorem isInfix_trimmed (cs : List Char) : trimmed cs <:+: cs :=
  (List.rdropWhile_prefix _ _).isInfix.trans (List.dropWhile_suffix _).isInfix

theorem occursAt_between (rendered : List Char) (start stop : ℕ) :
    OccursAt (between rendered start stop) rendered start := by
  rw [OccursAt, between, List.drop_take]
  exact List.take_prefix _ _

/-- A marker in an entry stands in the rendered text between the markers of the entry. -/
theorem exists_place_of_infix {uuid : Uuid} {rendered : List Char} {i start stop : ℕ} {kind : Kind}
    (h : marker uuid kind i <:+: trimmed (between rendered start stop)) :
    ∃ p, OccursAt (marker uuid kind i) rendered p ∧ start ≤ p ∧ p < stop := by
  obtain ⟨q, hq⟩ := exists_occursAt (h.trans (isInfix_trimmed _))
  have hne := (anchored_marker uuid kind i).ne_nil
  have hpos := List.length_pos_iff.mpr hne
  have hlength : (between rendered start stop).length ≤ stop - start := by
    rw [between, List.length_drop, List.length_take]
    omega
  have hle := hq.le_length hne
  exact ⟨start + q, hq.of_segment (occursAt_between rendered start stop), by omega, by omega⟩

theorem sliced_of_sliceBatch {uuid : Uuid} {rendered : String} {count : ℕ} {out : List String}
    (h : sliceBatch uuid rendered count = .ok out) : Sliced uuid rendered.toList count out := by
  unfold sliceBatch at h
  split at h
  · cases h
  split at h
  · cases h
  next horder =>
  obtain ⟨hlength, hentries⟩ := List.forall₂_iff_get.mp (forall₂_of_mapM_eq_ok h)
  rw [List.length_range] at hlength
  obtain ⟨hown, hacross⟩ := position_le (not_not.mp horder)
  have hcut : ∀ i, ∃ start stop, i < count → ∃ entry, out[i]? = some entry ∧
      Cut uuid rendered.toList i entry start stop := by
    intro i
    by_cases hi : i < count
    · have hout : i < out.length := hlength ▸ hi
      have hbetween := hentries i (by simpa using hi) hout
      rw [List.get_eq_getElem, List.getElem_range] at hbetween
      obtain ⟨start, stop, hcut⟩ := exists_cut hbetween
      exact ⟨start, stop, fun _ => ⟨_, List.getElem?_eq_getElem hout, hcut⟩⟩
    · exact ⟨0, 0, fun hlt => absurd hlt hi⟩
  choose start stop hcut using hcut
  obtain ⟨place, rfl, rfl⟩ : ∃ place : Kind → ℕ → ℕ, start = place .begins ∧ stop = place .ends :=
    ⟨fun kind => if kind = .begins then start else stop, rfl, rfl⟩
  have hplace : ∀ kind, ∀ i < count, ∀ p, OccursAt (marker uuid kind i) rendered.toList p ↔
      p = place kind i := by
    intro kind i hi p
    obtain ⟨entry, -, hcut⟩ := hcut i hi
    cases kind with
    | begins => exact hcut.begins p
    | ends => exact hcut.ends p
  have hposition : ∀ kind, ∀ i < count, position uuid rendered.toList (kind, i) = place kind i := by
    intro kind i hi
    obtain ⟨entry, -, hcut⟩ := hcut i hi
    cases kind with
    | begins => exact hcut.foundBegins
    | ends => exact hcut.foundEnds
  refine ⟨hlength.symm, ⟨place, hplace, ?_, ?_, ?_⟩, ?_⟩
  · intro i hi
    obtain ⟨entry, -, hcut⟩ := hcut i hi
    exact hcut.apart
  · intro i hi
    have hle := hacross i (i + 1) (Nat.lt_succ_self i) hi .ends .begins
    rw [hposition .ends i (by omega), hposition .begins (i + 1) hi] at hle
    have hends := (hplace .ends i (by omega) _).mpr rfl
    have hbegins := (hplace .begins (i + 1) hi _).mpr rfl
    refine (anchored_marker uuid .ends i).apart (anchored_marker uuid .begins (i + 1)) hends hbegins
      (lt_of_le_of_ne (by exact_mod_cast hle) fun heq => ?_)
    rw [heq] at hends
    exact ne_of_occursAt hbegins hends
  · intro i hi
    obtain ⟨entry, hentry, hcut⟩ := hcut i hi
    rw [hentry, hcut.entry]
  · intro entry hentry kind i hi hinfix
    obtain ⟨j, hj, rfl⟩ := List.getElem_of_mem hentry
    have hj' : j < count := hlength ▸ hj
    obtain ⟨entry, hentry, hcut⟩ := hcut j hj'
    rw [List.getElem?_eq_getElem hj] at hentry
    rw [Option.some.inj hentry, hcut.entry, String.toList_ofList] at hinfix
    obtain ⟨p, hp, hlow, hhigh⟩ := exists_place_of_infix hinfix
    have heq := (hplace kind i hi p).mp hp
    have hfound := hposition kind i hi
    rw [← heq] at hfound
    have hfirst := hcut.foundBegins
    have hlast := hcut.foundEnds
    have hpos := List.length_pos_iff.mpr (anchored_marker uuid .begins j).ne_nil
    rcases lt_trichotomy i j with hlt | rfl | hgt
    · -- a marker of an earlier value stands before the entry
      have hle := hacross i j hlt hj' kind .begins
      omega
    · cases kind with
      | begins => omega
      | ends => omega
    · -- a marker of a later value stands behind the entry
      have hle := hacross j i hgt hi .ends kind
      omega

/-! ## Answers -/

section Answers

variable {φ : Type}

/-- Both markers of a pair are found wherever the text splits in two at each. -/
theorem entryBetween_ne_panic (uuid : Uuid) (rendered : List Char) (i : ℕ) :
    entryBetween uuid rendered i ≠ .error .panic := by
  unfold entryBetween
  dsimp only
  split
  · simp [invalidBoundary]
  · next hpieces =>
    push Not at hpieces
    obtain ⟨start, hstart, -⟩ := (anchored_marker uuid .begins i).unique hpieces.1
    obtain ⟨stop, hstop, -⟩ := (anchored_marker uuid .ends i).unique hpieces.2
    rw [hstart, hstop]
    dsimp only
    split <;> simp [invalidBoundary]

theorem sliceBatch_ne_panic (uuid : Uuid) (rendered : String) (count : ℕ) :
    sliceBatch uuid rendered count ≠ .error .panic := by
  unfold sliceBatch
  split
  · simp
  · split
    · simp [invalidBoundary]
    · exact mapM_ne_error fun i _ => entryBetween_ne_panic uuid _ i

theorem responseText_ne_panic (data : JsonValue φ) : responseText data ≠ .error .panic := by
  have hrendered : renderedText data ≠ .error .panic := by
    unfold renderedText
    split <;> simp [invalidResponse]
  unfold responseText
  split
  · simp [invalidResponse]
  · split
    · exact hrendered
    · split
      · simp [invalidResponse]
      · split
        · exact hrendered
        · simp [requestFailed]

theorem renderTemplateBatch_ne_panic (wiki : Wiki φ) (uuid : Uuid) (title : String)
    (values : List String) : renderTemplateBatch wiki uuid title values ≠ .error .panic := by
  unfold renderTemplateBatch
  split
  · simp
  · cases hpost : wiki.post (postParams uuid title values) with
    | error e => simp [bind, Except.bind, Except.mapError, requestFailed]
    | ok data =>
      cases hraw : responseText data with
      | error e =>
        have hne := responseText_ne_panic data
        rw [hraw] at hne
        simpa [bind, Except.bind, Except.mapError, hraw] using hne
      | ok raw =>
        cases hstrip : wiki.stripHtml raw with
        | error e => simp [bind, Except.bind, Except.mapError, hraw, hstrip, invalidResponse]
        | ok rendered =>
          simpa [bind, Except.bind, Except.mapError, hraw, hstrip] using
            sliceBatch_ne_panic uuid rendered values.length

/-- The output of a batch: nothing for no values, and else the slices of the text that the wiki
rendered. -/
def BatchOf (wiki : Wiki φ) (uuid : Uuid) (title : String) (values out : List String) : Prop :=
  values = [] ∧ out = [] ∨
    ∃ data raw rendered, wiki.post (postParams uuid title values) = .ok data ∧
      responseText data = .ok raw ∧ wiki.stripHtml raw = .ok rendered ∧
        Sliced uuid rendered.toList values.length out

theorem BatchOf.length {wiki : Wiki φ} {uuid : Uuid} {title : String} {values out : List String}
    (h : BatchOf wiki uuid title values out) : out.length = values.length := by
  rcases h with ⟨rfl, rfl⟩ | ⟨_, _, _, -, -, -, hsliced⟩
  · rfl
  · exact hsliced.length

theorem batchOf_of_render {wiki : Wiki φ} {uuid : Uuid} {title : String} {values out : List String}
    (h : renderTemplateBatch wiki uuid title values = .ok out) :
    BatchOf wiki uuid title values out := by
  unfold renderTemplateBatch at h
  split at h
  · next hnil => exact .inl ⟨hnil, (Except.ok.inj h).symm⟩
  · cases hpost : wiki.post (postParams uuid title values) with
    | error e => simp [hpost, bind, Except.bind, Except.mapError] at h
    | ok data =>
      cases hraw : responseText data with
      | error e => simp [hpost, hraw, bind, Except.bind, Except.mapError] at h
      | ok raw =>
        cases hstrip : wiki.stripHtml raw with
        | error e => simp [hpost, hraw, hstrip, bind, Except.bind, Except.mapError] at h
        | ok rendered =>
          simp only [hpost, hraw, hstrip, bind, Except.bind, Except.mapError] at h
          exact .inr ⟨data, raw, rendered, hpost, hraw, hstrip, sliced_of_sliceBatch h⟩

end Answers

/-- A wiki that renders every text as itself. -/
def echo : Wiki Unit where
  post params := .ok (.object [("parse", .object [("text", .object [("*",
    .string ((params.lookup "text").getD ""))])])])
  stripHtml := .ok

def sampleUuid : Uuid :=
  ⟨List.replicate 32 'a', List.length_replicate, fun c hc => by
    rw [List.eq_of_mem_replicate hc]
    decide⟩

example : renderTemplateBatch echo sampleUuid "t" ["x", ""] = .ok ["x", ""] := by decide +kernel

/-! ## Fields -/

structure TemplatePart where
  name : Option String
  value : String
  needsRender : Bool
  deriving DecidableEq, Repr

structure TemplateEntry where
  name : String
  parts : List TemplatePart
  comment : String
  deriving DecidableEq, Repr

section Fields

variable {φ : Type}

/-- The parts with their values: what needs rendering takes the next one rendered. -/
def fillParts : List TemplatePart → List String → List (TemplatePart × String) × List String
  | [], rendered => ([], rendered)
  | part :: parts, rendered =>
    if part.needsRender then
      match rendered with
      | [] => fillParts parts []
      | value :: rendered =>
        ((part, value) :: (fillParts parts rendered).1, (fillParts parts rendered).2)
    else ((part, part.value) :: (fillParts parts rendered).1, (fillParts parts rendered).2)

/-- The object of a template: named values, positional values and the comment of the title. -/
def entryOf (template : TemplateEntry) (filled : List (TemplatePart × String)) :
    List (String × JsonValue φ) :=
  let named := filled.foldl (fun entry part =>
    part.1.name.elim entry fun name => OrderedMap.insert name (.string part.2) entry) []
  let positional := filled.filterMap fun part =>
    part.1.name.elim (some (.string part.2)) fun _ => none
  let entry := if positional.isEmpty then named
    else OrderedMap.insert "_positional" (.array positional) named
  if template.comment = "" then entry
  else OrderedMap.insert "_comment" (.string template.comment) entry

def addEntry (result : List (String × JsonValue φ)) (template : TemplateEntry)
    (filled : List (TemplatePart × String)) : List (String × JsonValue φ) :=
  let entry := entryOf template filled
  if entry.isEmpty then result else OrderedMap.insert template.name (.object entry) result

/-- The loop over the templates, with what is left of the rendered values. -/
def assemble : List TemplateEntry → List String → List (String × JsonValue φ) →
    List (String × JsonValue φ)
  | [], _, result => result
  | template :: templates, rendered, result =>
    let filled := fillParts template.parts rendered
    assemble templates filled.2 (addEntry result template filled.1)

/-- The values that are sent to the wiki. -/
def sources (templates : List TemplateEntry) : List String :=
  templates.flatMap fun template =>
    (template.parts.filter TemplatePart.needsRender).map TemplatePart.value

/-- Without a part that needs rendering, nothing is sent. -/
def renderSources (wiki : Wiki φ) (uuid : Uuid) (title : String) (values : List String) :
    Except Failure (List String) :=
  if values = [] then .ok [] else renderTemplateBatch wiki uuid title values

def renderTemplateData (wiki : Wiki φ) (uuid : Uuid)
    (parseTemplates : String → Except Failure (List TemplateEntry)) (title xml : String) :
    Except Failure (JsonValue φ) := do
  let templates ← parseTemplates xml
  let rendered ← renderSources wiki uuid title (sources templates)
  if rendered.length ≠ (sources templates).length then
    .error (.message "模板字段渲染结果数量不匹配。")
  else .ok (.object (assemble templates rendered []))

theorem batchOf_of_renderSources {wiki : Wiki φ} {uuid : Uuid} {title : String}
    {values out : List String} (h : renderSources wiki uuid title values = .ok out) :
    BatchOf wiki uuid title values out := by
  unfold renderSources at h
  split at h
  · next hnil => exact .inl ⟨hnil, (Except.ok.inj h).symm⟩
  · exact batchOf_of_render h

/-- Every part of the template once and in order, with a value: its own where it needs no
rendering. -/
structure Filled (parts : List TemplatePart) (filled : List (TemplatePart × String)) : Prop where
  parts : filled.map Prod.fst = parts
  plain : ∀ part ∈ filled, part.1.needsRender = false → part.2 = part.1.value

/-- The values of the parts that need rendering. -/
def renderedOf (filled : List (TemplatePart × String)) : List String :=
  (filled.filter fun part => part.1.needsRender).map Prod.snd

theorem fillParts_filled {parts : List TemplatePart} {rendered : List String}
    (h : (parts.filter TemplatePart.needsRender).length ≤ rendered.length) :
    Filled parts (fillParts parts rendered).1 ∧
      rendered = renderedOf (fillParts parts rendered).1 ++ (fillParts parts rendered).2 ∧
      (renderedOf (fillParts parts rendered).1).length =
        (parts.filter TemplatePart.needsRender).length := by
  induction parts generalizing rendered with
  | nil => exact ⟨⟨rfl, by simp [fillParts]⟩, rfl, rfl⟩
  | cons part parts ih =>
    by_cases hneeds : part.needsRender = true
    · rw [List.filter_cons_of_pos hneeds, List.length_cons] at h ⊢
      cases rendered with
      | nil => simp at h
      | cons value rendered =>
        obtain ⟨hfilled, hrendered, hlength⟩ := ih (Nat.le_of_succ_le_succ h)
        have hfill : fillParts (part :: parts) (value :: rendered) =
            ((part, value) :: (fillParts parts rendered).1, (fillParts parts rendered).2) := by
          rw [fillParts, if_pos hneeds]
        have hvalues : renderedOf ((part, value) :: (fillParts parts rendered).1) =
            value :: renderedOf (fillParts parts rendered).1 := by
          simp [renderedOf, hneeds]
        rw [hfill, hvalues]
        refine ⟨⟨by simp [hfilled.parts], fun p hp hplain => ?_⟩, by simp [← hrendered],
          by simp [hlength]⟩
        rcases List.mem_cons.mp hp with rfl | hp
        · rw [hneeds] at hplain
          cases hplain
        · exact hfilled.plain p hp hplain
    · rw [List.filter_cons_of_neg hneeds] at h ⊢
      obtain ⟨hfilled, hrendered, hlength⟩ := ih h
      have hfill : fillParts (part :: parts) rendered =
          ((part, part.value) :: (fillParts parts rendered).1, (fillParts parts rendered).2) := by
        cases rendered <;> simp [fillParts, hneeds]
      have hvalues : renderedOf ((part, part.value) :: (fillParts parts rendered).1) =
          renderedOf (fillParts parts rendered).1 := by
        simp [renderedOf, hneeds]
      rw [hfill, hvalues]
      refine ⟨⟨by simp [hfilled.parts], fun p hp hplain => ?_⟩, hrendered, hlength⟩
      rcases List.mem_cons.mp hp with rfl | hp
      · rfl
      · exact hfilled.plain p hp hplain

/-- The templates with their filled parts, built up in order. -/
def assembleFilled (filled : List (TemplateEntry × List (TemplatePart × String)))
    (result : List (String × JsonValue φ)) : List (String × JsonValue φ) :=
  filled.foldl (fun result entry => addEntry result entry.1 entry.2) result

theorem exists_filled {templates : List TemplateEntry} {rendered : List String}
    (h : rendered.length = (sources templates).length) :
    ∃ filled : List (TemplateEntry × List (TemplatePart × String)),
      filled.map Prod.fst = templates ∧ (∀ entry ∈ filled, Filled entry.1.parts entry.2) ∧
      filled.flatMap (fun entry => renderedOf entry.2) = rendered ∧
      ∀ result : List (String × JsonValue φ),
        assemble templates rendered result = assembleFilled filled result := by
  induction templates generalizing rendered with
  | nil =>
    obtain rfl := List.length_eq_zero_iff.mp h
    exact ⟨[], rfl, by simp, rfl, fun _ => rfl⟩
  | cons template templates ih =>
    have hsources : (sources (template :: templates)).length =
        (template.parts.filter TemplatePart.needsRender).length + (sources templates).length := by
      simp [sources]
    have hfits : (template.parts.filter TemplatePart.needsRender).length ≤ rendered.length := by
      omega
    obtain ⟨hparts, hrendered, hlength⟩ := fillParts_filled hfits
    have hrest : (fillParts template.parts rendered).2.length = (sources templates).length := by
      have := congrArg List.length hrendered
      rw [List.length_append] at this
      omega
    obtain ⟨filled, htemplates, hfilled, hvalues, hassemble⟩ := ih hrest
    refine ⟨(template, (fillParts template.parts rendered).1) :: filled, by simp [htemplates], ?_, ?_,
      fun result => hassemble _⟩
    · intro entry hentry
      rcases List.mem_cons.mp hentry with rfl | hentry
      · exact hparts
      · exact hfilled entry hentry
    · rw [List.flatMap_cons, hvalues]
      exact hrendered.symm

end Fields

end PrtsMcp.TemplateRender
