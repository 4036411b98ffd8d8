import PrtsMcp.ImagesV2
import PrtsMcp.Loops

/-!
# The chain of deltas

The walk over the predecessors of an index ends for any finite number of published indexes. What it
has collected goes down from the target, and a stopped walk is resumed as if it had not stopped.
-/
namespace PrtsMcp.ImageChain

open Fallible ImageFiles ImageManifest ImagesV2
open Loops (Ends)
open SourceGuard (DataSource)

variable {φ : Type} [Doubles φ] (crates : Crates φ) (run : Surroundings) (source : DataSource)

/-- One turn of the loop of `walk`. -/
def advance (index : Manifest) (stop : Option String) (chain : Chain) : Except String Chain ⊕ Chain :=
  match chain.next index stop with
  | .error e => .inl (.error e)
  | .ok none => .inl (.ok chain)
  | .ok (some version) =>
    match readIndex crates run source (releaseTag version) with
    | .error e => .inl (.error e)
    | .ok (_, prior, _) =>
      if prior.baselineVersion ≠ index.baselineVersion ∨ prior.baselineParts ≠ index.baselineParts then
        .inl (.error "baseline drift")
      else .inr (chain.push version prior)

section Steps

variable {crates : Crates φ} {run : Surroundings} {source : DataSource} {index : Manifest}
  {stop : Option String} {chain chain' : Chain} {version : String}

omit [Doubles φ] in
theorem next_eq_some_iff : chain.next index stop = .ok (some version) ↔
    chain.newer ≠ index.baselineVersion ∧ chain.previous = some version ∧ version < chain.newer ∧
      index.baselineVersion ≤ version ∧ stop ≠ some version := by
  rw [Chain.next]
  by_cases hend : chain.newer = index.baselineVersion
  · simp [hend]
  · rw [if_neg hend]
    cases hprevious : chain.previous with
    | none => simp [okOr, bind, Except.bind]
    | some prior =>
      simp only [okOr, bind, Except.bind]
      by_cases horder : chain.newer ≤ prior ∨ prior < index.baselineVersion
      · rw [if_pos horder]
        constructor
        · intro h
          cases h
        · rintro ⟨-, heq, hbelow, habove, -⟩
          cases heq
          exact absurd horder (not_or.mpr ⟨not_le.mpr hbelow, not_lt.mpr habove⟩)
      · rw [if_neg horder]
        obtain ⟨hbelow, habove⟩ := not_or.mp horder
        by_cases hstop : stop = some prior
        · rw [if_pos hstop]
          constructor
          · intro h
            cases h
          · rintro ⟨-, heq, -, -, hgoes⟩
            cases heq
            exact absurd hstop hgoes
        · rw [if_neg hstop]
          constructor
          · intro h
            cases h
            exact ⟨hend, rfl, not_le.mp hbelow, not_lt.mp habove, hstop⟩
          · rintro ⟨-, heq, -⟩
            cases heq
            rfl

omit [Doubles φ] in
theorem of_next_eq_none (h : chain.next index stop = .ok none) :
    chain.newer = index.baselineVersion ∨ ∃ version, stop = some version ∧ chain.previous = some version ∧
      version < chain.newer ∧ index.baselineVersion ≤ version := by
  rw [Chain.next] at h
  split at h
  · next hend => exact .inl hend
  · obtain ⟨version, hversion, h⟩ := bind_eq_ok h
    rw [okOr_eq_ok] at hversion
    split at h
    · cases h
    · next horder =>
      obtain ⟨hbelow, habove⟩ := not_or.mp horder
      split at h
      · next hstop => exact .inr ⟨version, hstop, hversion, not_le.mp hbelow, not_lt.mp habove⟩
      · cases h

omit [Doubles φ] in
/-- Without a stop the walk goes on wherever it goes on with one. -/
theorem next_none_of_next (h : chain.next index stop = .ok (some version)) :
    chain.next index none = .ok (some version) := by
  obtain ⟨hend, hprevious, hbelow, habove, -⟩ := next_eq_some_iff.mp h
  exact next_eq_some_iff.mpr ⟨hend, hprevious, hbelow, habove, Option.some_ne_none _ |>.symm⟩

/-- What a turn that goes on has read. -/
theorem advance_eq_inr (h : advance crates run source index stop chain = .inr chain') :
    ∃ version value prior view, chain.next index stop = .ok (some version) ∧
      readIndex crates run source (releaseTag version) = .ok (value, prior, view) ∧
      prior.baselineVersion = index.baselineVersion ∧ prior.baselineParts = index.baselineParts ∧
      chain' = chain.push version prior := by
  unfold advance at h
  split at h
  · cases h
  · cases h
  · next version hnext =>
    split at h
    · cases h
    · next value prior view hread =>
      split at h
      · cases h
      · next hdrift =>
        obtain ⟨hversion, hparts⟩ := not_or.mp hdrift
        cases h
        exact ⟨version, value, prior, view, hnext, hread, not_not.mp hversion, not_not.mp hparts, rfl⟩

theorem advance_none_of_advance (h : advance crates run source index stop chain = .inr chain') :
    advance crates run source index none chain = .inr chain' := by
  obtain ⟨version, value, prior, view, hnext, hread, hversion, hparts, rfl⟩ := advance_eq_inr h
  have hdrift : ¬ (prior.baselineVersion ≠ index.baselineVersion ∨ prior.baselineParts ≠ index.baselineParts) := by
    simp [hversion, hparts]
  simp only [advance, next_none_of_next hnext, hread, if_neg hdrift]

theorem advance_eq_ok (h : advance crates run source index stop chain = .inl (.ok chain')) :
    chain' = chain ∧ chain.next index stop = .ok none := by
  unfold advance at h
  split at h
  · cases h
  · next hnext =>
    cases h
    exact ⟨rfl, hnext⟩
  · split at h
    · cases h
    · split at h <;> cases h

end Steps

/-! ## Termination -/

/-- Every index that can be read is published. -/
def Published (published : Finset String) : Prop :=
  ∀ version indexed, readIndex crates run source (releaseTag version) = .ok indexed → version ∈ published

section Walk

variable {crates : Crates φ} {run : Surroundings} {source : DataSource} {index : Manifest}
  {stop : Option String} {chain chain' : Chain} {published : Finset String}

/-- How many published versions are still below the walk. -/
def belowCount (published : Finset String) (chain : Chain) : ℕ :=
  (published.filter fun version => version < chain.newer).card

omit [Doubles φ] in
theorem belowCount_push {version : String} (prior : Manifest) (hpublished : version ∈ published)
    (hbelow : version < chain.newer) :
    belowCount published (chain.push version prior) < belowCount published chain := by
  apply Finset.card_lt_card
  rw [Finset.ssubset_iff_of_subset]
  · refine ⟨version, Finset.mem_filter.mpr ⟨hpublished, hbelow⟩, ?_⟩
    intro hmem
    exact absurd (Finset.mem_filter.mp hmem).2 (lt_irrefl version)
  · intro v hv
    obtain ⟨hmem, hlt⟩ := Finset.mem_filter.mp hv
    exact Finset.mem_filter.mpr ⟨hmem, lt_trans hlt hbelow⟩

/-- With more patience than there are versions below, the walk comes to its end. -/
theorem ends_walk (hpublished : Published crates run source published) {patience : ℕ}
    (hpatience : belowCount published chain < patience) :
    Ends (advance crates run source index stop) chain (chain.walk crates run source index stop patience) := by
  induction patience generalizing chain with
  | zero => omega
  | succ patience ih =>
    unfold Chain.walk
    cases hnext : chain.next index stop with
    | error e =>
      refine .last ?_
      simp only [advance, hnext]
      rfl
    | ok version? =>
      cases version? with
      | none =>
        refine .last ?_
        simp only [advance, hnext]
        rfl
      | some version =>
        simp only [bind, Except.bind]
        cases hread : readIndex crates run source (releaseTag version) with
        | error e => exact .last (by simp only [advance, hnext, hread])
        | ok indexed =>
          obtain ⟨value, prior, view⟩ := indexed
          dsimp only
          split
          · next hdrift => exact .last (by simp only [advance, hnext, hread, if_pos hdrift])
          · next hdrift =>
            have hdown : belowCount published (chain.push version prior) < belowCount published chain :=
              belowCount_push prior (hpublished version _ hread) (next_eq_some_iff.mp hnext).2.2.1
            exact .step (by simp only [advance, hnext, hread, if_neg hdrift]) (ih (by omega))

/-! ## What is collected -/

omit [Doubles φ] in
theorem releaseTag_injective : Function.Injective releaseTag := by
  intro a b h
  have hchars := congrArg String.toList h
  rw [releaseTag, releaseTag, String.toList_append, String.toList_append] at hchars
  exact String.toList_inj.mp (List.append_cancel_left hchars)

/-- A collected delta is that of an index on the baseline of the target. -/
def Carries (crates : Crates φ) (index : Manifest) (previous : Option String) (delta : String × List Part) : Prop :=
  ∃ value prior view, parse crates value = .ok (prior, view) ∧ prior.currentVersion = delta.1 ∧
    prior.deltaParts = delta.2 ∧ prior.previousVersion = previous ∧
    prior.baselineVersion = index.baselineVersion ∧ prior.baselineParts = index.baselineParts

/-- The walk has gone down from the target, each delta named as predecessor by the one before it. -/
structure Collected (crates : Crates φ) (index : Manifest) (chain : Chain) : Prop where
  first : chain.deltas.head? = some (index.currentVersion, index.deltaParts)
  descending : (chain.deltas.map Prod.fst).Pairwise (· > ·)
  linked : ∀ front delta next back, chain.deltas = front ++ delta :: next :: back →
    Carries crates index (some next.1) delta
  last : ∃ front delta, chain.deltas = front ++ [delta] ∧ delta.1 = chain.newer ∧
    Carries crates index chain.previous delta

theorem collected_new {value : JsonValue φ} {view : ImagesIndex φ} (hindex : parse crates value = .ok (index, view)) :
    Collected crates index (Chain.new index) := by
  refine ⟨rfl, List.pairwise_singleton _ _, ?_, [], _, rfl, rfl, value, index, view, hindex, rfl, rfl, rfl, rfl, rfl⟩
  intro front delta next back h
  have hlength := congrArg List.length h
  simp [Chain.new] at hlength
  omega

theorem Collected.advance (h : Collected crates index chain)
    (hadvance : ImageChain.advance crates run source index stop chain = .inr chain') :
    Collected crates index chain' := by
  obtain ⟨version, value, prior, view, hnext, hread, hversion, hparts, rfl⟩ := advance_eq_inr hadvance
  obtain ⟨-, hprevious, hbelow, -, -⟩ := next_eq_some_iff.mp hnext
  obtain ⟨hparse, htag⟩ := readIndex_parse hread
  obtain ⟨front, delta, hdeltas, hnewer, hcarries⟩ := h.last
  have hcurrent : prior.currentVersion = version := releaseTag_injective htag.symm
  rw [hprevious] at hcarries
  refine ⟨?_, ?_, ?_, ?_⟩
  · rw [Chain.push, List.head?_append, h.first]
    rfl
  · have hdescending := h.descending
    rw [hdeltas, List.map_append, List.pairwise_append] at hdescending
    rw [Chain.push, hdeltas, List.map_append, List.map_append, List.append_assoc, List.pairwise_append]
    refine ⟨hdescending.1, List.pairwise_pair.mpr (hnewer ▸ hbelow), ?_⟩
    intro v hv w hw
    have habove := hdescending.2.2 v hv delta.1 (List.mem_singleton_self _)
    rcases List.mem_cons.mp hw with rfl | hw
    · exact habove
    · rw [List.mem_singleton.mp hw]
      exact lt_trans (hnewer ▸ hbelow) habove
  · intro before d next back heq
    change chain.deltas ++ [(version, prior.deltaParts)] = _ at heq
    rcases List.eq_nil_or_concat' back with rfl | ⟨back, b, rfl⟩
    · have hsplit : chain.deltas ++ [(version, prior.deltaParts)] = (before ++ [d]) ++ [next] := by
        rw [heq, List.append_assoc]
        rfl
      obtain ⟨hfront, hnext⟩ := List.append_inj' hsplit rfl
      rw [hdeltas] at hfront
      obtain ⟨-, hd⟩ := List.append_inj' hfront rfl
      rw [← List.singleton_inj.mp hd, ← List.singleton_inj.mp hnext]
      exact hcarries
    · have hsplit : chain.deltas ++ [(version, prior.deltaParts)] = (before ++ d :: next :: back) ++ [b] := by
        rw [heq]
        simp
      exact h.linked before d next back (List.append_inj' hsplit rfl).1
  · exact ⟨chain.deltas, (version, prior.deltaParts), rfl, rfl, value, prior, view, hparse, hcurrent, rfl, rfl,
      hversion, hparts⟩

/-- The walk ends at the baseline, whose delta has no parts, or just above its stop. -/
theorem Collected.last_of_next_none (h : Collected crates index chain) (hnext : chain.next index stop = .ok none) :
    (chain.deltas.getLast? = some (index.baselineVersion, [])) ∨
      ∃ version delta, stop = some version ∧ chain.deltas.getLast? = some delta ∧ version < delta.1 ∧
        Carries crates index (some version) delta := by
  obtain ⟨front, delta, hdeltas, hnewer, hcarries⟩ := h.last
  have hlast : chain.deltas.getLast? = some delta := by
    rw [hdeltas]
    exact List.getLast?_concat
  rcases of_next_eq_none hnext with hend | ⟨version, hstop, hprevious, hbelow, -⟩
  · left
    obtain ⟨value, prior, view, hparse, hcurrent, hparts, -, hversion, -⟩ := hcarries
    rcases (parse_wellFormed hparse).1.ordered with ⟨-, -, hempty⟩ | ⟨v, -, hbaseline, hprior⟩
    · rw [hlast]
      congr 1
      exact Prod.ext (hnewer.trans hend) (hparts.symm.trans hempty)
    · have habsurd := lt_of_le_of_lt hbaseline hprior
      rw [hversion, hcurrent, hnewer, hend] at habsurd
      exact absurd habsurd (lt_irrefl _)
  · right
    rw [hprevious] at hcarries
    exact ⟨version, delta, hstop, hlast, hnewer ▸ hbelow, hcarries⟩

theorem Collected.carries (h : Collected crates index chain) {delta : String × List Part}
    (hdelta : delta ∈ chain.deltas) : ∃ previous, Carries crates index previous delta := by
  obtain ⟨front, back, heq⟩ := List.append_of_mem hdelta
  cases back with
  | cons next back => exact ⟨_, h.linked front delta next back heq⟩
  | nil =>
    obtain ⟨front', delta', hdeltas, -, hcarries⟩ := h.last
    obtain ⟨-, hlast⟩ := List.append_inj' (heq.symm.trans hdeltas) rfl
    rw [List.singleton_inj.mp hlast]
    exact ⟨_, hcarries⟩

end Walk

/-- For any finite number of published indexes the walk ends, and its resumption after a stop as the
whole walk would. What it has collected goes down from the target to the baseline, whose delta has no
parts, or to the version above the stop. -/
theorem walk_wellFounded (published : Finset String) (hpublished : Published crates run source published)
    {value : JsonValue φ} {index : Manifest} {view : ImagesIndex φ} (hindex : parse crates value = .ok (index, view))
    (stop : Option String) {patience : ℕ} (hpatience : published.card < patience) :
    Ends (advance crates run source index stop) (Chain.new index)
        ((Chain.new index).walk crates run source index stop patience) ∧
      ∀ chain, (Chain.new index).walk crates run source index stop patience = .ok chain →
        chain.walk crates run source index none patience =
            (Chain.new index).walk crates run source index none patience ∧
          (chain.deltas.map Prod.fst).Pairwise (· > ·) ∧ (chain.deltas.map Prod.fst).Nodup ∧
          chain.deltas.head? = some (index.currentVersion, index.deltaParts) ∧
          (chain.deltas.getLast? = some (index.baselineVersion, []) ∨
            ∃ version delta, stop = some version ∧ chain.deltas.getLast? = some delta ∧ version < delta.1 ∧
              Carries crates index (some version) delta) ∧
          ∀ delta ∈ chain.deltas, ∃ previous, Carries crates index previous delta := by
  have hcount : ∀ chain, belowCount published chain < patience := fun chain =>
    lt_of_le_of_lt (Finset.card_filter_le _ _) hpatience
  have hends : ∀ stop chain, Ends (advance crates run source index stop) chain
      (chain.walk crates run source index stop patience) :=
    fun _ chain => ends_walk hpublished (hcount chain)
  refine ⟨hends stop _, fun chain hchain => ?_⟩
  have hwalk := hends stop (Chain.new index)
  rw [hchain] at hwalk
  obtain ⟨last, hcollected, hlast⟩ := hwalk.exists_last (collected_new hindex) fun _ _ hs h => hs.advance h
  obtain ⟨rfl, hnext⟩ := advance_eq_ok hlast
  obtain ⟨last, hlast', hresume⟩ := hwalk.resume fun _ _ h => advance_none_of_advance h
  obtain ⟨rfl, -⟩ := advance_eq_ok hlast'
  have hsame := (hends none chain).unique ((hresume _).mpr (hends none _))
  exact ⟨hsame, hcollected.descending, hcollected.descending.imp (fun h => ne_of_gt h), hcollected.first,
    hcollected.last_of_next_none hnext, fun _ => hcollected.carries⟩

/-! ## A baseline and its successor -/

section Two

def bareIndex (current : String) (previous : JsonValue UInt64) : JsonValue UInt64 :=
  .object [("schemaVersion", .string "akdp-images/v2"), ("baselineVersion", .string "26-01"),
    ("currentVersion", .string current), ("previousVersion", previous), ("baselineParts", .array []),
    ("deltaParts", .array []), ("artworks", .object [])]

def baselineIndex : JsonValue UInt64 := bareIndex "26-01" .null

def tipIndex : JsonValue UInt64 := bareIndex "26-02" (.string "26-01")

def twoCrates : Crates UInt64 := recordedCrates [] [baselineIndex, tipIndex] []

def twoRun : Surroundings := { clashRun with
  downloadFile := fun url =>
    .ok (compactText (if url = downloadUrl .default "images2-26-01" "index.json" then baselineIndex else tipIndex)) }

def tip : Manifest := ⟨"akdp-images/v2", "26-01", "26-02", some "26-01", [], []⟩

theorem parse_tip : (parse twoCrates tipIndex).toOption.map Prod.fst = some tip := by decide +kernel

theorem versions_two : ∀ value ∈ [baselineIndex, tipIndex],
    ((parse twoCrates value).toOption.all fun indexed => indexed.1.currentVersion ∈ ["26-01", "26-02"]) = true := by
  intro value hvalue
  rcases List.mem_cons.mp hvalue with rfl | hvalue
  · decide +kernel
  · rw [List.mem_singleton.mp hvalue]
    decide +kernel

theorem published_two : Published twoCrates twoRun .default {"26-01", "26-02"} := by
  intro version indexed h
  obtain ⟨value, index, view⟩ := indexed
  obtain ⟨hparse, htag⟩ := readIndex_parse h
  have hvalue : value ∈ [baselineIndex, tipIndex] := by
    obtain ⟨u, -, h⟩ := bind_eq_ok h
    obtain ⟨bytes, -, h⟩ := bind_eq_ok h
    obtain ⟨read, hread, h⟩ := bind_eq_ok h
    obtain ⟨⟨index, view⟩, -, h⟩ := bind_eq_ok h
    obtain ⟨-, h⟩ := ite_error_eq_ok h
    cases h
    exact List.mem_of_find?_eq_some (okOr_eq_ok.mp hread)
  have hversion := versions_two value hvalue
  rw [hparse] at hversion
  rw [releaseTag_injective htag]
  simpa [Except.toOption] using hversion

theorem walk_tip : ((Chain.new tip).walk twoCrates twoRun .default tip none 3).toOption.map Chain.deltas =
    some [("26-02", []), ("26-01", [])] := by decide +kernel

/-- The last delta is that of the baseline itself. -/
theorem walk_tip_at_baseline : (parse twoCrates tipIndex).toOption.map Prod.fst = some tip ∧
    Published twoCrates twoRun .default {"26-01", "26-02"} ∧
    ∃ chain, (Chain.new tip).walk twoCrates twoRun .default tip none 3 = .ok chain ∧
      ¬ ∃ delta, chain.deltas.getLast? = some delta ∧ tip.baselineVersion < delta.1 := by
  refine ⟨parse_tip, published_two, ?_⟩
  have hwalk := walk_tip
  cases hchain : (Chain.new tip).walk twoCrates twoRun .default tip none 3 with
  | error e =>
    rw [hchain] at hwalk
    cases hwalk
  | ok chain =>
    rw [hchain] at hwalk
    refine ⟨chain, rfl, ?_⟩
    rintro ⟨delta, hlast, habove⟩
    rw [Option.some.inj hwalk] at hlast
    cases hlast
    exact absurd habove (lt_irrefl _)

theorem walk_wellFounded_tip : ∃ view, parse twoCrates tipIndex = .ok (tip, view) ∧
    Ends (advance twoCrates twoRun .default tip none) (Chain.new tip)
      ((Chain.new tip).walk twoCrates twoRun .default tip none 3) := by
  have hparse := parse_tip
  cases hindex : parse twoCrates tipIndex with
  | error e =>
    rw [hindex] at hparse
    cases hparse
  | ok indexed =>
    obtain ⟨index, view⟩ := indexed
    rw [hindex] at hparse
    obtain rfl : index = tip := Option.some.inj hparse
    exact ⟨view, rfl, (walk_wellFounded twoCrates twoRun .default {"26-01", "26-02"} published_two hindex none
      (by decide)).1⟩

end Two

end PrtsMcp.ImageChain
