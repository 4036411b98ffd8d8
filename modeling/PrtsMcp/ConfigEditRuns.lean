import PrtsMcp.ConfigEdit
import PrtsMcp.Fallible

/-!
# Runs of configuration edits

No edit that has succeeded is lost, whatever the order of the steps of the processes.
-/
namespace PrtsMcp.Config

open Fallible (bind_eq_ok map_eq_ok)
open Runs (EveryPrefix EveryStep)

variable {ι D φ δ : Type} [Floats φ]

section Amend

variable {site : Site ι D φ δ}

theorem orFail_ok {α : Type} {x : Except String α} {a : α} (h : orFail x = .ok a) : x = .ok a := by
  cases x with
  | error e => cases h
  | ok b =>
    cases h
    rfl

/-- A valid document has no `runtime` but a table. -/
theorem runtime_of_valid {validProxy : String → Bool} {parent : String}
    {items : List (String × TomlItem φ δ)} (h : Valid validProxy parent items)
    (v : TomlValue φ δ) : items.lookup "runtime" ≠ some (.value v) := by
  intro hruntime
  unfold Valid check values at h
  rw [hruntime] at h
  split at h
  · split at h <;> cases h
  · cases h

theorem setRuntime_changedOnly (hlaws : site.toml.Lawful) {parent key : String} {doc : D}
    {v : TomlValue φ δ}
    (hruntime : ∀ w, (site.toml.iter doc).lookup "runtime" ≠ some (.value w))
    (hvalid : Valid site.validProxy parent (site.toml.iter (site.toml.setRuntime doc key v))) :
    ChangedOnly key (some v) (site.toml.iter doc)
      (site.toml.iter (site.toml.setRuntime doc key v)) := by
  cases hlookup : (site.toml.iter doc).lookup "runtime" with
  | none =>
    obtain ⟨w, hw⟩ := hlaws.setRuntime_missing doc key v hlookup
    exact absurd hw (runtime_of_valid hvalid w)
  | some item =>
    cases item with
    | value w => exact absurd hlookup (hruntime w)
    | table entries =>
      rw [hlaws.iter_setRuntime doc key v entries hlookup]
      exact changedOnly_insert hlookup

/-- A key is removed, where there is a table to remove it from. -/
theorem unset_changedOnly (hlaws : site.toml.Lawful) {key : String} {doc new : D}
    (h : site.change doc (.unset key) = .ok new) :
    ChangedOnly (stripRuntime key) none (site.toml.iter doc) (site.toml.iter new) := by
  obtain ⟨f, -, h⟩ := bind_eq_ok h
  split at h
  · next entries hlookup =>
    cases h
    rw [hlaws.iter_removeRuntime doc (stripRuntime key) entries hlookup]
    exact changedOnly_filter hlookup
  · next hlookup =>
    cases h
    refine ⟨?_, fun k _ => rfl, fun k _ => rfl⟩
    unfold runtimeKey
    split
    · next entries hentries => exact absurd hentries (hlookup entries)
    · rfl

/-- What an edit makes of a document that has been read. -/
theorem amend_ok (hlaws : site.toml.Lawful) {path : FilePath} {doc new : D} {change : Change}
    (h : site.amend path doc change = .ok new) :
    Valid site.validProxy path.parent (site.toml.iter new) ∧
      match change with
      | .init _ => new = doc
      | .set key value => ∃ v,
        settable site.validProxy (stripRuntime key) value = .ok v ∧
          ChangedOnly (stripRuntime key) (some v) (site.toml.iter doc) (site.toml.iter new)
      | .unset key => ChangedOnly (stripRuntime key) none (site.toml.iter doc) (site.toml.iter new) := by
  unfold Site.amend at h
  split at h
  · cases h
  · next hruntime =>
    obtain ⟨changed, hchange, h⟩ := bind_eq_ok h
    obtain ⟨u, hcheck, h⟩ := bind_eq_ok h
    obtain rfl : changed = new := Except.ok.inj h
    have hvalid : Valid site.validProxy path.parent (site.toml.iter changed) := orFail_ok hcheck
    refine ⟨hvalid, ?_⟩
    cases change with
    | init force => exact (Except.ok.inj hchange).symm
    | set key value =>
      obtain ⟨v, hv, rfl⟩ := map_eq_ok hchange
      exact ⟨v, hv, setRuntime_changedOnly hlaws hruntime hvalid⟩
    | unset key => exact unset_changedOnly hlaws hchange

omit [Floats φ] in
theorem document_ok {path : FilePath} {target : Target} {io : Io} {doc : D}
    (h : site.document path target io = .ok doc) :
    ∃ text token, target = .file text token ∧ site.toml.parse text = some doc := by
  unfold Site.document readTarget at h
  split at h
  · cases h
  · next text hread =>
    split at hread
    · cases hread
    · next text' token _ =>
      cases hread
      split at h
      · cases h
      · next doc' hparse =>
        cases h
        exact ⟨text, token, rfl, hparse⟩
    · cases hread
    · cases hread

/-- The prepared document has the effect of the edit on what the target held. -/
theorem prepared_effect (hlaws : site.toml.Lawful) {path : FilePath} {target : Target} {io : Io}
    {change : Change} {base : Except Failure D} {new : D}
    (hbase : site.base path target io change = some base)
    (hamend : (base.bind fun doc => site.amend path doc change) = .ok new) :
    site.Effect target (site.toml.iter new) change ∧
      Valid site.validProxy path.parent (site.toml.iter new) := by
  obtain ⟨doc, rfl, hamend⟩ := bind_eq_ok hamend
  obtain ⟨hvalid, heffect⟩ := amend_ok hlaws hamend
  refine ⟨?_, hvalid⟩
  cases change with
  | init force =>
    unfold Site.base at hbase
    simp only at hbase
    split at hbase
    · cases hbase
    · next hfree =>
      obtain ⟨doc', hdoc', heq⟩ := Option.map_eq_some_iff.mp hbase
      obtain ⟨text, htemplate, hparse⟩ := Option.bind_eq_some_iff.mp hdoc'
      cases heq
      refine ⟨?_, text, doc, htemplate, hparse, congrArg _ heffect⟩
      cases target <;> simp_all [Target.exists]
  | set key value =>
    obtain ⟨v, hv, hchanged⟩ := heffect
    obtain ⟨text, token, htarget, hparse⟩ := document_ok (Option.some.inj hbase)
    exact ⟨text, token, doc, v, htarget, hparse, hv, hchanged⟩
  | unset key =>
    obtain ⟨text, token, htarget, hparse⟩ := document_ok (Option.some.inj hbase)
    exact ⟨text, token, doc, htarget, hparse, heffect⟩

end Amend

/-! ## What a step may do -/

/-- A process may have a temporary file. -/
def Pc.hasTemp : Pc D φ → Bool
  | .writing _ | .permitting _ | .syncing _ | .comparing _ | .replacing _ | .removing _ _
  | .dead => true
  | _ => false

/-- Phases in which a process works on its temporary file. -/
def Pc.drafting : Pc D φ → Bool
  | .writing _ | .permitting _ | .syncing _ | .comparing _ | .replacing _ | .removing _ _ => true
  | _ => false

/-- How often a process has published, where its phase tells. -/
def Site.published (site : Site ι D φ δ) (p : ι) (pc : Pc D φ) : Option ℕ :=
  if (site.request p).dryRun then some 0
  else
    match pc with
    | .returning _ (.ok _) | .done (.ok _) => some 1
    | .dead => none
    | _ => some 0

/-- The draft is for the file `path` and an edit of what it holds. -/
structure Site.Prepared (site : Site ι D φ δ) (path : FilePath) (p : ι) (target : Target)
    (draft : Draft D) : Prop where
  file : draft.path = path
  effect : site.Effect target (site.toml.iter draft.doc) (site.request p).change
  valid : Valid site.validProxy path.parent (site.toml.iter draft.doc)

/-- The process works on the file `path` under its lock. -/
structure Site.Holds (site : Site ι D φ δ) (path : FilePath) (p : ι)
    (locks : String → Option ι) : Prop where
  wet : (site.request p).dryRun = false
  lock : locks path.lockPath = some p

/-- What a phase says of the process `p`: the path that it has found, the lock that it has, the
draft that it has prepared and the text in its temporary file. -/
def Site.Local (site : Site ι D φ δ) (path : FilePath) (p : ι) (locks : String → Option ι)
    (target : Target) (temp : Option String) : Pc D φ → Prop
  | .starting | .checking | .done _ | .dead => True
  | .creatingDir | .canonicalizing => (site.request p).dryRun = false
  | .creatingLockDir q | .checkingLock q | .openingLock q | .locking q =>
    (site.request p).dryRun = false ∧ q = path
  | .rechecking q | .stamping q | .reading q _ =>
    (site.request p).dryRun = true ∨ q = path ∧ site.Holds path p locks
  | .creatingTemp draft | .writing draft =>
    site.Holds path p locks ∧ site.Prepared path p target draft
  | .permitting draft | .syncing draft | .comparing draft | .replacing draft =>
    site.Holds path p locks ∧ site.Prepared path p target draft ∧
      temp = some (site.toml.print draft.doc)
  | .removing _ _ => site.Holds path p locks
  | .returning _ _ => (site.request p).dryRun = true ∨ site.Holds path p locks

/-- All requests name one file. -/
def Site.OneFile (site : Site ι D φ δ) (path : FilePath) : Prop :=
  ∀ p, site.canonicalize (site.request p).path.parent = path.parent ∧
    (site.request p).path.name = path.name

section Moves

variable [DecidableEq ι]

/-- What a process `p` that acts may do to the world. -/
inductive Site.Moved (site : Site ι D φ δ) (path : FilePath) (w : World ι D φ) (p : ι) (io : Io) :
    World ι D φ → Prop
  | stay : Moved site path w p io w
  | move (temp : Option String) (pc : Pc D φ)
      (here : site.Local path p w.locks w.target temp pc)
      (published : site.published p pc = site.published p (w.pc p) ∨ site.published p pc = none)
      (left : temp ≠ none → pc.hasTemp ∨ temp = w.temps p ∧
        ((w.pc p).hasTemp = false ∨ (∃ q f, w.pc p = .removing q f) ∧ io.error.isSome)) :
      Moved site path w p io ((w.setTemp p temp).goto p pc)
  | lock (free : w.locks path.lockPath = none) (wet : (site.request p).dryRun = false)
      (waiting : w.pc p = .locking path) :
      Moved site path w p io ((w.takeLock p path.lockPath).goto p (.rechecking path))
  | release (pc : Pc D φ) (ended : (∃ a, pc = .done a) ∨ pc = .dead)
      (published : site.published p pc = site.published p (w.pc p) ∨ site.published p pc = none)
      (left : (w.pc p).hasTemp → pc = .dead) :
      Moved site path w p io ((w.release p).goto p pc)
  | publish (draft : Draft D) (ready : w.pc p = .replacing draft)
      (text : w.temps p = some (site.toml.print draft.doc)) :
      Moved site path w p io ((w.publish p (site.toml.print draft.doc) io.token).goto p
        (.returning draft.path (.ok (site.report p draft.path draft.doc))))

variable {site : Site ι D φ δ} {path : FilePath} {w : World ι D φ} {p : ι} {io : Io}

/-- A step that changes the phase alone. -/
theorem Moved.goto {pc : Pc D φ} (here : site.Local path p w.locks w.target (w.temps p) pc)
    (published : site.published p pc = site.published p (w.pc p) ∨ site.published p pc = none)
    (left : pc.hasTemp ∨ (w.pc p).hasTemp = false ∨
      (∃ q f, w.pc p = .removing q f) ∧ io.error.isSome) :
    site.Moved path w p io (w.goto p pc) := by
  have hmove := Site.Moved.move (w.temps p) pc here published fun _ =>
    left.imp id fun h => ⟨rfl, h⟩
  have hsame : w.setTemp p (w.temps p) = w := by
    unfold World.setTemp
    rw [Function.update_eq_self]
  rwa [hsame] at hmove

/-- Phases in which a process has neither published nor made a file. -/
def Pc.early : Pc D φ → Bool
  | .writing _ | .permitting _ | .syncing _ | .comparing _ | .replacing _ | .removing _ _
  | .returning _ _ | .done _ | .dead => false
  | _ => true

omit [Floats φ] [DecidableEq ι] in
theorem published_of_early {pc : Pc D φ} (h : pc.early) : site.published p pc = some 0 := by
  unfold Site.published
  split
  · rfl
  · cases pc <;> first | rfl | cases h

omit [Floats φ] [DecidableEq ι] in
theorem published_of_drafting {pc : Pc D φ} (h : pc.drafting) : site.published p pc = some 0 := by
  unfold Site.published
  split
  · rfl
  · cases pc <;> first | rfl | cases h

omit [Floats φ] [DecidableEq ι] in
theorem hasTemp_of_drafting {pc : Pc D φ} (h : pc.drafting) : pc.hasTemp := by
  cases pc <;> first | rfl | cases h

omit [Floats φ] [DecidableEq ι] in
theorem published_done_error (f : Failure) :
    site.published p (.done (.error f) : Pc D φ) = some 0 := by
  unfold Site.published
  split <;> rfl

omit [Floats φ] [DecidableEq ι] in
theorem published_returning_error (q : FilePath) (f : Failure) :
    site.published p (.returning q (.error f) : Pc D φ) = some 0 := by
  unfold Site.published
  split <;> rfl

omit [Floats φ] [DecidableEq ι] in
theorem hasTemp_of_early {pc : Pc D φ} (h : pc.early) : pc.hasTemp = false := by
  cases pc <;> first | rfl | cases h

omit [Floats φ] [DecidableEq ι] in
theorem published_dead (pc : Pc D φ) :
    site.published p (.dead : Pc D φ) = site.published p pc ∨
      site.published p (.dead : Pc D φ) = none := by
  unfold Site.published
  split
  · exact .inl rfl
  · exact .inr rfl

theorem Moved.early {pc : Pc D φ} (hold : (w.pc p).early) (hnew : site.published p pc = some 0)
    (here : site.Local path p w.locks w.target (w.temps p) pc) :
    site.Moved path w p io (w.goto p pc) := by
  apply Moved.goto here
  · left
    rw [hnew, published_of_early hold]
  · right
    left
    exact hasTemp_of_early hold

theorem Moved.fail (hold : (w.pc p).early) (f : Failure) : site.Moved path w p io (w.fail p f) :=
  Moved.early hold (published_done_error f) trivial

theorem Moved.attempt (hold : (w.pc p).early) {w' : World ι D φ}
    (hnext : site.Moved path w p io w') : site.Moved path w p io (w.attempt p io w') := by
  unfold World.attempt
  split
  · exact hnext
  · exact Moved.fail hold _

/-- A step from a draft to a phase that still has the file. -/
theorem Moved.drafting {pc : Pc D φ} (hold : (w.pc p).drafting) (hnew : pc.drafting)
    (here : site.Local path p w.locks w.target (w.temps p) pc) :
    site.Moved path w p io (w.goto p pc) := by
  apply Moved.goto here
  · left
    rw [published_of_drafting hnew, published_of_drafting hold]
  · exact .inl (hasTemp_of_drafting hnew)

theorem Moved.attemptDraft (hold : (w.pc p).drafting) {q : FilePath} {w' : World ι D φ}
    (hholds : site.Holds path p w.locks) (hnext : site.Moved path w p io w') :
    site.Moved path w p io (w.attemptDraft p io q w') := by
  unfold World.attemptDraft
  split
  · exact hnext
  · apply Moved.drafting hold rfl
    exact hholds

theorem act_moved (hlaws : site.toml.Lawful) (hfile : site.OneFile path)
    (hlocal : site.Local path p w.locks w.target (w.temps p) (w.pc p)) :
    site.Moved path w p io (act site w p io) := by
  unfold act
  have hearly : ∀ pc : Pc D φ, w.pc p = pc → pc.early → (w.pc p).early := by
    rintro pc rfl h
    exact h
  cases hpc : w.pc p with
  | starting =>
    have hold := hearly _ hpc rfl
    simp only
    unfold Site.begin
    split
    · exact Moved.fail hold _
    · split
      · exact Moved.fail hold _
      · exact Moved.early hold (published_of_early rfl) trivial
  | checking =>
    have hold := hearly _ hpc rfl
    simp only
    unfold Site.checkExists
    split
    · exact Moved.fail hold _
    · split
      · next hdry => exact Moved.early hold (published_of_early rfl) (.inl hdry)
      · next hdry => exact Moved.early hold (published_of_early rfl) (Bool.eq_false_of_not_eq_true hdry)
  | creatingDir =>
    rw [hpc] at hlocal
    have hold := hearly _ hpc rfl
    exact Moved.attempt hold (Moved.early hold (published_of_early rfl) hlocal)
  | canonicalizing =>
    rw [hpc] at hlocal
    have hold := hearly _ hpc rfl
    have hpath : (⟨site.canonicalize (site.request p).path.parent, (site.request p).path.name⟩ :
        FilePath) = path := by
      rw [(hfile p).1, (hfile p).2]
    exact Moved.attempt hold (Moved.early hold (published_of_early rfl) ⟨hlocal, hpath⟩)
  | creatingLockDir q =>
    rw [hpc] at hlocal
    have hold := hearly _ hpc rfl
    exact Moved.attempt hold (Moved.early hold (published_of_early rfl) hlocal)
  | checkingLock q =>
    rw [hpc] at hlocal
    have hold := hearly _ hpc rfl
    simp only
    split
    · exact Moved.fail hold _
    · exact Moved.early hold (published_of_early rfl) hlocal
  | openingLock q =>
    rw [hpc] at hlocal
    have hold := hearly _ hpc rfl
    exact Moved.attempt hold (Moved.early hold (published_of_early rfl) hlocal)
  | locking q =>
    rw [hpc] at hlocal
    have hold := hearly _ hpc rfl
    obtain ⟨hwet, rfl⟩ := hlocal
    apply Moved.attempt hold
    split
    · exact .stay
    · next hfree => exact .lock (Option.not_isSome_iff_eq_none.mp hfree) hwet hpc
  | rechecking q =>
    rw [hpc] at hlocal
    have hold := hearly _ hpc rfl
    simp only
    split
    · exact Moved.early hold (published_returning_error _ _) (hlocal.imp id And.right)
    · exact Moved.early hold (published_of_early rfl) hlocal
  | stamping q =>
    rw [hpc] at hlocal
    exact Moved.early (hearly _ hpc rfl) (published_of_early rfl) hlocal
  | reading q original =>
    rw [hpc] at hlocal
    have hold := hearly _ hpc rfl
    simp only
    unfold Site.prepare
    cases hbase : site.base q w.target io (site.request p).change with
    | none =>
      apply Site.Moved.release _ (.inr rfl)
      · exact published_dead _
      · exact fun _ => rfl
    | some base =>
      simp only
      cases hamend : base.bind fun doc => site.amend q doc (site.request p).change with
      | error f =>
        exact Moved.early hold (published_returning_error _ _) (hlocal.imp id And.right)
      | ok doc =>
        simp only
        split
        · next hdry =>
          apply Moved.early hold
          · unfold Site.published
            rw [if_pos hdry]
          · exact .inl hdry
        · next hdry =>
          obtain ⟨rfl, hholds⟩ := hlocal.resolve_left hdry
          obtain ⟨heffect, hvalid⟩ := prepared_effect hlaws hbase hamend
          apply Moved.early hold (published_of_early rfl)
          exact ⟨hholds, rfl, heffect, hvalid⟩
  | creatingTemp draft =>
    rw [hpc] at hlocal
    have hold := hearly _ hpc rfl
    simp only
    unfold World.attemptDraft
    split
    · apply Site.Moved.move
      · exact hlocal
      · left
        rw [published_of_drafting rfl, published_of_early hold]
      · exact fun _ => .inl rfl
    · apply Moved.early hold (published_of_drafting rfl)
      exact hlocal.1
  | writing draft =>
    rw [hpc] at hlocal
    have hold : (w.pc p).drafting := by rw [hpc]; rfl
    simp only
    unfold World.attemptDraft
    split
    · apply Site.Moved.move
      · exact ⟨hlocal.1, hlocal.2, rfl⟩
      · left
        rw [published_of_drafting rfl, published_of_drafting hold]
      · exact fun _ => .inl rfl
    · apply Site.Moved.move
      · exact hlocal.1
      · left
        rw [published_of_drafting rfl, published_of_drafting hold]
      · exact fun _ => .inl rfl
  | permitting draft =>
    rw [hpc] at hlocal
    have hold : (w.pc p).drafting := by rw [hpc]; rfl
    have hnext : site.Moved path w p io (w.goto p (.syncing draft)) := by
      apply Moved.drafting hold rfl
      exact hlocal
    simp only
    split
    · exact Moved.attemptDraft hold hlocal.1 hnext
    · exact hnext
  | syncing draft =>
    rw [hpc] at hlocal
    have hold : (w.pc p).drafting := by rw [hpc]; rfl
    apply Moved.attemptDraft hold hlocal.1
    apply Moved.drafting hold rfl
    exact hlocal
  | comparing draft =>
    rw [hpc] at hlocal
    have hold : (w.pc p).drafting := by rw [hpc]; rfl
    simp only
    split
    · apply Moved.drafting hold rfl
      exact hlocal.1
    · apply Moved.drafting hold rfl
      exact hlocal
  | replacing draft =>
    rw [hpc] at hlocal
    have hold : (w.pc p).drafting := by rw [hpc]; rfl
    have hremove : ∀ f, site.Moved path w p io (w.goto p (.removing draft.path f)) := by
      intro f
      apply Moved.drafting hold rfl
      exact hlocal.1
    simp only
    split
    · exact hremove _
    · exact hremove _
    · exact hremove _
    · next text _ htemp _ =>
      obtain rfl : site.toml.print draft.doc = text := by
        rw [hlocal.2.2] at htemp
        exact Option.some.inj htemp
      exact .publish draft hpc htemp
  | removing q f =>
    rw [hpc] at hlocal
    have hold : (w.pc p).drafting := by rw [hpc]; rfl
    simp only
    split
    · apply Site.Moved.move
      · exact .inr hlocal
      · left
        rw [published_returning_error, published_of_drafting hold]
      · exact fun h => absurd rfl h
    · next e he =>
      apply Moved.goto
      · exact .inr hlocal
      · left
        rw [published_returning_error, published_of_drafting hold]
      · refine .inr (.inr ⟨⟨q, f, hpc⟩, ?_⟩)
        rw [he]
        rfl
  | returning q a =>
    apply Site.Moved.release _ (.inl ⟨a, rfl⟩)
    · left
      rw [hpc]
      cases a <;> rfl
    · intro h
      rw [hpc] at h
      cases h
  | done a => exact .stay
  | dead => exact .stay

theorem kill_moved (hdone : ∀ a, w.pc p ≠ .done a) : site.Moved path w p io (kill w p) := by
  unfold kill
  split
  · next a h => exact absurd h (hdone a)
  · exact .release _ (.inr rfl) (published_dead _) fun _ => rfl

/-- The process of an event. -/
def Event.process : Event ι → ι
  | .act p _ => p
  | .kill p => p

/-- The outcome that an event brings. -/
def Event.outcome : Event ι → Io
  | .act _ io => io
  | .kill _ => .ok

theorem next_moved (hlaws : site.toml.Lawful) (hfile : site.OneFile path) (e : Event ι)
    (hlocal : ∀ p, site.Local path p w.locks w.target (w.temps p) (w.pc p)) :
    site.Moved path w e.process e.outcome (next site w e) := by
  cases e with
  | act p io => exact act_moved hlaws hfile (hlocal p)
  | kill p =>
    by_cases hdone : ∃ a, w.pc p = .done a
    · obtain ⟨a, ha⟩ := hdone
      have hkill : kill w p = w := by
        unfold kill
        rw [ha]
      rw [next, hkill]
      exact .stay
    · exact kill_moved fun a ha => hdone ⟨a, ha⟩

/-! ## What holds in every world -/

/-- Each publication replaces what the one before has left. -/
def Chained (first : Target) : List (Publication ι) → Target → Prop
  | [], last => first = last
  | pub :: pubs, last => pub.before = first ∧ Chained pub.after pubs last

omit [DecidableEq ι] in
theorem Chained.snoc {first last : Target} {pubs : List (Publication ι)}
    (h : Chained first pubs last) {pub : Publication ι} (hpub : pub.before = last) :
    Chained first (pubs ++ [pub]) pub.after := by
  induction pubs generalizing first with
  | nil => exact ⟨hpub.trans (Eq.symm h), rfl⟩
  | cons head rest ih => exact ⟨h.1, ih h.2⟩

/-- The publications of a process. -/
def World.publications (w : World ι D φ) (p : ι) : ℕ := w.history.countP (·.editor = p)

structure Sound (site : Site ι D φ δ) (path : FilePath) (first : Target) (w : World ι D φ) :
    Prop where
  phases : ∀ p, site.Local path p w.locks w.target (w.temps p) (w.pc p)
  published : ∀ pub ∈ w.history, site.Published path.parent pub
  chained : Chained first w.history w.target
  counted : ∀ p n, site.published p (w.pc p) = some n → w.publications p = n

omit [DecidableEq ι] in
/-- What a phase says stays true while the process keeps its lock and, with it, the file. -/
theorem Local.frame {locks locks' : String → Option ι} {target target' : Target}
    {temp : Option String} {pc : Pc D φ} (h : site.Local path p locks target temp pc)
    (hkeep : site.Holds path p locks → site.Holds path p locks' ∧ target' = target) :
    site.Local path p locks' target' temp pc := by
  have hprepared : ∀ {draft : Draft D}, site.Holds path p locks →
      site.Prepared path p target draft → site.Prepared path p target' draft := by
    intro draft hholds hdraft
    rw [(hkeep hholds).2]
    exact hdraft
  cases pc with
  | starting | checking | done a | dead => trivial
  | creatingDir | canonicalizing => exact h
  | creatingLockDir q | checkingLock q | openingLock q | locking q => exact h
  | rechecking q | stamping q | reading q original =>
    exact h.imp id fun hq => ⟨hq.1, (hkeep hq.2).1⟩
  | creatingTemp draft | writing draft => exact ⟨(hkeep h.1).1, hprepared h.1 h.2⟩
  | permitting draft | syncing draft | comparing draft | replacing draft =>
    exact ⟨(hkeep h.1).1, hprepared h.1 h.2.1, h.2.2⟩
  | removing q f => exact (hkeep h).1
  | returning q a => exact h.imp id fun hq => (hkeep hq).1

/-- The worlds differ in what the process `p` does to itself and to the locks. -/
theorem phases_of_frame {w' : World ι D φ}
    (hphases : ∀ q, site.Local path q w.locks w.target (w.temps q) (w.pc q))
    (hpc : ∀ q, q ≠ p → w'.pc q = w.pc q) (htemps : ∀ q, q ≠ p → w'.temps q = w.temps q)
    (hkeep : ∀ q, q ≠ p → site.Holds path q w.locks →
      site.Holds path q w'.locks ∧ w'.target = w.target)
    (hself : site.Local path p w'.locks w'.target (w'.temps p) (w'.pc p)) (q : ι) :
    site.Local path q w'.locks w'.target (w'.temps q) (w'.pc q) := by
  by_cases hq : q = p
  · rw [hq]
    exact hself
  · rw [hpc q hq, htemps q hq]
    exact Local.frame (hphases q) (hkeep q hq)

theorem Sound.move {first : Target} (h : Sound site path first w) {temp : Option String}
    {pc : Pc D φ} (here : site.Local path p w.locks w.target temp pc)
    (hpublished : site.published p pc = site.published p (w.pc p) ∨ site.published p pc = none) :
    Sound site path first ((w.setTemp p temp).goto p pc) := by
  have hother : ∀ q, q ≠ p → ((w.setTemp p temp).goto p pc).pc q = w.pc q := fun q hq =>
    Function.update_of_ne hq _ _
  constructor
  · apply phases_of_frame (p := p) h.phases hother
    · exact fun q hq => Function.update_of_ne hq _ _
    · exact fun q _ hholds => ⟨hholds, rfl⟩
    · have hpc : ((w.setTemp p temp).goto p pc).pc p = pc := Function.update_self ..
      have htemp : ((w.setTemp p temp).goto p pc).temps p = temp := Function.update_self ..
      rw [hpc, htemp]
      exact here
  · exact h.published
  · exact h.chained
  · intro q n hn
    by_cases hq : q = p
    · subst hq
      simp only [World.goto_pc, Function.update_self] at hn
      rcases hpublished with heq | hnone
      · exact h.counted q n (heq ▸ hn)
      · rw [hnone] at hn
        cases hn
    · rw [hother q hq] at hn
      exact h.counted q n hn

theorem Sound.lock {first : Target} (h : Sound site path first w)
    (free : w.locks path.lockPath = none) (wet : (site.request p).dryRun = false)
    (waiting : w.pc p = .locking path) :
    Sound site path first ((w.takeLock p path.lockPath).goto p (.rechecking path)) := by
  have hother : ∀ q, q ≠ p →
      ((w.takeLock p path.lockPath).goto p (.rechecking path)).pc q = w.pc q := fun q hq =>
    Function.update_of_ne hq _ _
  constructor
  · apply phases_of_frame (p := p) h.phases hother
    · exact fun q _ => rfl
    · intro q _ hholds
      rw [hholds.lock] at free
      cases free
    · simp only [World.goto_pc, Function.update_self]
      refine .inr ⟨rfl, wet, ?_⟩
      simp
  · exact h.published
  · exact h.chained
  · intro q n hn
    by_cases hq : q = p
    · subst hq
      simp only [World.goto_pc, Function.update_self] at hn
      rw [published_of_early rfl] at hn
      apply h.counted q n
      rw [waiting, published_of_early rfl, hn]
    · rw [hother q hq] at hn
      exact h.counted q n hn

theorem Sound.release {first : Target} (h : Sound site path first w) {pc : Pc D φ}
    (ended : (∃ a, pc = .done a) ∨ pc = .dead)
    (hpublished : site.published p pc = site.published p (w.pc p) ∨ site.published p pc = none) :
    Sound site path first ((w.release p).goto p pc) := by
  have hother : ∀ q, q ≠ p → ((w.release p).goto p pc).pc q = w.pc q := fun q hq =>
    Function.update_of_ne hq _ _
  constructor
  · apply phases_of_frame (p := p) h.phases hother
    · exact fun q _ => rfl
    · intro q hq hholds
      refine ⟨⟨hholds.wet, ?_⟩, rfl⟩
      simp only [World.goto_locks, World.release_locks]
      rw [if_neg]
      · exact hholds.lock
      · rw [hholds.lock]
        exact fun heq => hq (Option.some.inj heq)
    · simp only [World.goto_pc, Function.update_self]
      rcases ended with ⟨a, rfl⟩ | rfl <;> trivial
  · exact h.published
  · exact h.chained
  · intro q n hn
    by_cases hq : q = p
    · subst hq
      simp only [World.goto_pc, Function.update_self] at hn
      rcases hpublished with heq | hnone
      · exact h.counted q n (heq ▸ hn)
      · rw [hnone] at hn
        cases hn
    · rw [hother q hq] at hn
      exact h.counted q n hn

/-- A process that publishes has the lock, and its draft is an edit of the file that it replaces. -/
theorem Sound.publish (hlaws : site.toml.Lawful) {first : Target} (h : Sound site path first w)
    {draft : Draft D} (ready : w.pc p = .replacing draft) (token : ℕ) :
    Sound site path first ((w.publish p (site.toml.print draft.doc) token).goto p
      (.returning draft.path (.ok (site.report p draft.path draft.doc)))) := by
  have hlocal := h.phases p
  rw [ready] at hlocal
  obtain ⟨hholds, hdraft, -⟩ := hlocal
  have hother : ∀ q, q ≠ p → ((w.publish p (site.toml.print draft.doc) token).goto p
      (.returning draft.path (.ok (site.report p draft.path draft.doc)))).pc q = w.pc q :=
    fun q hq => Function.update_of_ne hq _ _
  constructor
  · apply phases_of_frame (p := p) h.phases hother
    · exact fun q hq => Function.update_of_ne hq _ _
    · intro q hq hq'
      have heq := hq'.lock
      rw [hholds.lock] at heq
      exact absurd (Option.some.inj heq).symm hq
    · simp only [World.goto_pc, Function.update_self]
      exact .inr ⟨hholds.wet, hholds.lock⟩
  · intro pub hpub
    rcases List.mem_append.mp hpub with hold | hnew
    · exact h.published pub hold
    · obtain rfl := List.mem_singleton.mp hnew
      obtain ⟨doc, hparse, hiter⟩ := hlaws.parse_print draft.doc
      refine ⟨_, token, doc, rfl, hparse, ?_, ?_⟩
      · rw [hiter]
        exact hdraft.effect
      · rw [hiter]
        exact hdraft.valid
  · exact h.chained.snoc rfl
  · intro q n hn
    have hcount : ((w.publish p (site.toml.print draft.doc) token).goto p
        (.returning draft.path (.ok (site.report p draft.path draft.doc)))).publications q =
        w.publications q + if p = q then 1 else 0 := by
      simp [World.publications, List.countP_append, List.countP_singleton]
    rw [hcount]
    by_cases hq : q = p
    · subst hq
      simp only [World.goto_pc, Function.update_self] at hn
      have hzero : w.publications q = 0 := by
        apply h.counted q 0
        rw [ready]
        exact published_of_drafting rfl
      have hone : n = 1 := by
        unfold Site.published at hn
        rw [hholds.wet] at hn
        exact (Option.some.inj hn).symm
      rw [hzero, hone, if_pos rfl]
    · rw [hother q hq] at hn
      rw [h.counted q n hn, if_neg fun heq => hq heq.symm]
      rfl

theorem Sound.moved (hlaws : site.toml.Lawful) {first : Target} (h : Sound site path first w)
    {w' : World ι D φ} (hmoved : site.Moved path w p io w') : Sound site path first w' := by
  cases hmoved with
  | stay => exact h
  | move temp pc here published left => exact h.move here published
  | lock free wet waiting => exact h.lock free wet waiting
  | release pc ended published left => exact h.release ended published
  | publish draft ready text => exact h.publish hlaws ready io.token

theorem run_sound (hlaws : site.toml.Lawful) (hfile : site.OneFile path) (first : Target)
    (es : List (Event ι)) : Sound site path first (run site (start first) es) := by
  induction es using List.reverseRecOn with
  | nil =>
    refine ⟨fun _ => trivial, fun _ h => absurd h List.not_mem_nil, rfl, ?_⟩
    intro p n hn
    change site.published p .starting = some n at hn
    rw [published_of_early rfl] at hn
    exact Option.some.inj hn
  | append_singleton es e ih =>
    rw [run_snoc]
    exact ih.moved hlaws (next_moved hlaws hfile e ih.phases)

/-! ## Temporary files -/

/-- The removal of the temporary file of `p` has failed. -/
def RemovalFailed (site : Site ι D φ δ) (first : Target) (es : List (Event ι)) (p : ι) : Prop :=
  ∃ pre io q f, pre ++ [.act p io] <+: es ∧
    (run site (start first) pre).pc p = .removing q f ∧ io.error.isSome

theorem RemovalFailed.snoc {first : Target} {es : List (Event ι)}
    (h : RemovalFailed site first es p) (e : Event ι) :
    RemovalFailed site first (es ++ [e]) p := by
  obtain ⟨pre, io, q, f, hpre, hpc, hio⟩ := h
  exact ⟨pre, io, q, f, hpre.trans (List.prefix_append es [e]), hpc, hio⟩

/-- Temporary files belong to processes that still work on them, or were to be removed in vain. -/
def Accounted (site : Site ι D φ δ) (first : Target) (es : List (Event ι)) : Prop :=
  ∀ p, (run site (start first) es).temps p ≠ none →
    ((run site (start first) es).pc p).hasTemp ∨ RemovalFailed site first es p

theorem Accounted.snoc {first : Target} {es : List (Event ι)} (h : Accounted site first es)
    {e : Event ι} (hmoved : site.Moved path (run site (start first) es) e.process e.outcome
      (next site (run site (start first) es) e)) : Accounted site first (es ++ [e]) := by
  intro q hq
  rw [run_snoc] at hq ⊢
  have hkeep : ∀ p, (next site (run site (start first) es) e).temps p =
      (run site (start first) es).temps p →
      (next site (run site (start first) es) e).pc p = (run site (start first) es).pc p →
      (next site (run site (start first) es) e).temps p ≠ none →
      ((next site (run site (start first) es) e).pc p).hasTemp ∨
        RemovalFailed site first (es ++ [e]) p := by
    intro p htemp hpc hne
    rw [htemp] at hne
    rw [hpc]
    exact (h p hne).imp id fun hf => hf.snoc e
  generalize hw' : next site (run site (start first) es) e = w' at hmoved hkeep hq ⊢
  cases hmoved with
  | stay => exact hkeep q rfl rfl hq
  | move temp pc here published left =>
    by_cases hqp : q = e.process
    · subst hqp
      simp only [World.goto_temps, World.setTemp_temps, Function.update_self, World.goto_pc]
        at hq ⊢
      rcases left hq with hnew | ⟨rfl, hold | ⟨⟨path', f, hpc⟩, hio⟩⟩
      · exact .inl hnew
      · rcases h e.process hq with hhas | hf
        · rw [hold] at hhas
          cases hhas
        · exact .inr (hf.snoc e)
      · right
        cases e with
        | act p io => exact ⟨es, io, path', f, List.prefix_refl _, hpc, hio⟩
        | kill p => cases hio
    · exact hkeep q (Function.update_of_ne hqp _ _) (Function.update_of_ne hqp _ _) hq
  | lock free wet waiting =>
    by_cases hqp : q = e.process
    · subst hqp
      rcases h e.process hq with hhas | hf
      · rw [waiting] at hhas
        cases hhas
      · exact .inr (hf.snoc e)
    · exact hkeep q rfl (Function.update_of_ne hqp _ _) hq
  | release pc ended published left =>
    by_cases hqp : q = e.process
    · subst hqp
      rcases h e.process hq with hhas | hf
      · left
        simp only [World.goto_pc, Function.update_self]
        rw [left hhas]
        rfl
      · exact .inr (hf.snoc e)
    · exact hkeep q rfl (Function.update_of_ne hqp _ _) hq
  | publish draft ready text =>
    by_cases hqp : q = e.process
    · subst hqp
      simp at hq
    · exact hkeep q (Function.update_of_ne hqp _ _) (Function.update_of_ne hqp _ _) hq

theorem run_accounted (hlaws : site.toml.Lawful) (hfile : site.OneFile path) (first : Target)
    (es : List (Event ι)) : Accounted site first es := by
  induction es using List.reverseRecOn with
  | nil => exact fun p hp => absurd rfl hp
  | append_singleton es e ih =>
    exact ih.snoc (next_moved hlaws hfile e (run_sound hlaws hfile first es).phases)

/-! ## No edit is lost -/

/-- What a run of edits of one file guarantees. -/
structure EditsKept (site : Site ι D φ δ) (path : FilePath) (first : Target)
    (es : List (Event ι)) : Prop where
  /-- Every state that is published has its edit in effect and is valid. -/
  published : ∀ pub ∈ (run site (start first) es).history, site.Published path.parent pub
  /-- The publications follow one another from the first state of the file to its last. -/
  chained : Chained first (run site (start first) es).history (run site (start first) es).target
  /-- An edit that reports success has published once. -/
  success : ∀ p r, (run site (start first) es).pc p = .done (.ok r) →
    (site.request p).dryRun = false → (run site (start first) es).publications p = 1
  /-- A dry run, and an edit that fails, has not published. -/
  failure : ∀ p, (site.request p).dryRun ∨
    (∃ f, (run site (start first) es).pc p = .done (.error f)) →
      (run site (start first) es).publications p = 0
  /-- No process that has ended leaves a file, unless the removal of the file has failed. -/
  temps : ∀ p a, (run site (start first) es).pc p = .done a →
    (run site (start first) es).temps p = none ∨ RemovalFailed site first es p

theorem run_editsKept (hlaws : site.toml.Lawful) (hfile : site.OneFile path) (first : Target)
    (es : List (Event ι)) : EditsKept site path first es := by
  have hsound := run_sound hlaws hfile first es
  constructor
  · exact hsound.published
  · exact hsound.chained
  · intro p r hpc hwet
    apply hsound.counted p 1
    rw [hpc]
    unfold Site.published
    rw [hwet]
    rfl
  · rintro p (hdry | ⟨f, hpc⟩)
    · apply hsound.counted p 0
      unfold Site.published
      rw [if_pos hdry]
    · apply hsound.counted p 0
      rw [hpc]
      exact published_done_error f
  · intro p a hpc
    by_cases htemp : (run site (start first) es).temps p = none
    · exact .inl htemp
    · right
      rcases run_accounted hlaws hfile first es p htemp with hhas | hf
      · rw [hpc] at hhas
        cases hhas
      · exact hf

end Moves

/-! ## A directory with two editors -/

section Directory

/-- Documents without doubles, dates or arrays. -/
abbrev Items := List (String × TomlItem Unit Unit)

instance : Floats Unit := ⟨fun _ => true, fun _ => (), fun _ => none, fun _ => ""⟩

instance encodableString : Encodable String :=
  .ofLeftInverse (fun s => s.toList.map Char.toNat) (fun codes => String.ofList (codes.map Char.ofNat))
    fun s => by
      have hid : Char.ofNat ∘ Char.toNat = id := funext Char.ofNat_toNat
      rw [List.map_map, hid, List.map_id, String.ofList_toList]

instance encodableInt64 : Encodable Int64 := .ofLeftInverse Int64.toInt Int64.ofInt Int64.ofInt_toInt

deriving instance Encodable for TomlValue, TomlItem

def plainItems (entries : List (String × TomlValue Unit Unit)) : Items :=
  [("schema_version", .value (.integer 1)), ("runtime", .table entries)]

/-- Texts of documents. -/
def texts : List (String × Items) :=
  [("schema_version = 1\n[runtime]\n", plainItems []),
    ("schema_version = 1\n[runtime]\nHOST = \"127.0.0.1\"\n",
      plainItems [("HOST", .string "127.0.0.1")]),
    ("schema_version = 1\n[runtime]\nHOST = \"127.0.0.1\"\nPORT = 8080\n",
      plainItems [("HOST", .string "127.0.0.1"), ("PORT", .integer 8080)])]

/-- Other documents have their numbers. -/
def numeral (n : ℕ) : String := String.ofList (List.replicate n '#')

def printItems (items : Items) : String :=
  match texts.find? fun entry => entry.2 = items with
  | some entry => entry.1
  | none => numeral (Encodable.encode items)

def parseItems (text : String) : Option Items :=
  match texts.lookup text with
  | some items => some items
  | none => if text.toList.all (· = '#') then Encodable.decode text.toList.length else none

def plainToml : Toml Items Unit Unit where
  parse := parseItems
  print := printItems
  display := fun _ => ""
  iter := fun items => items
  setRuntime := fun items key value =>
    match items.lookup "runtime" with
    | some (.table entries) =>
      OrderedMap.insert "runtime" (.table (OrderedMap.insert key value entries)) items
    | _ => OrderedMap.insert "runtime" (.value (.other ())) items
  removeRuntime := fun items key =>
    match items.lookup "runtime" with
    | some (.table entries) =>
      OrderedMap.insert "runtime" (.table (entries.filter (·.1 ≠ key))) items
    | _ => items

theorem parse_printItems (items : Items) : parseItems (printItems items) = some items := by
  unfold printItems
  cases hfind : texts.find? fun entry => entry.2 = items with
  | some entry =>
    have hmem := List.mem_of_find?_eq_some hfind
    have hitems := List.find?_some hfind
    have hall : ∀ entry ∈ texts, parseItems entry.1 = some entry.2 := by decide +kernel
    simp only [decide_eq_true_eq] at hitems
    rw [← hitems]
    exact hall entry hmem
  | none =>
    have hlookup : texts.lookup (numeral (Encodable.encode items)) = none := by
      rw [List.lookup_eq_none_iff]
      intro entry hentry
      have hhead : ∀ entry ∈ texts, '#' ∉ entry.1.toList ∧ entry.1.toList ≠ [] := by decide
      apply bne_iff_ne.mpr
      intro heq
      obtain ⟨hnot, hne⟩ := hhead entry hentry
      rw [← heq, numeral, String.toList_ofList] at hnot hne
      cases hn : Encodable.encode items with
      | zero => simp [hn] at hne
      | succ n => simp [hn] at hnot
    simp only [parseItems]
    rw [hlookup]
    simp [numeral]

theorem plainToml_lawful : plainToml.Lawful where
  parse_print := fun doc => ⟨doc, parse_printItems doc, rfl⟩
  iter_setRuntime := fun doc key value entries h => by
    simp only [plainToml] at h ⊢
    rw [h]
  setRuntime_missing := fun doc key value h => by
    refine ⟨.other (), ?_⟩
    simp only [plainToml] at h ⊢
    rw [h]
    exact OrderedMap.lookup_insert_self
  iter_removeRuntime := fun doc key entries h => by
    simp only [plainToml] at h ⊢
    rw [h]

/-- Two editors with different spellings of one directory. -/
def directory : Site Bool Items Unit Unit where
  toml := plainToml
  validProxy := fun _ => true
  canonicalize := fun parent => if parent = "conf" ∨ parent = "./conf" then "/srv/conf" else parent
  lockIsLink := fun _ => false
  request := fun p =>
    if p then ⟨⟨"./conf", "config.toml"⟩, .set "runtime.PORT" "8080", false, fun _ => false⟩
    else ⟨⟨"conf", "config.toml"⟩, .set "HOST" "127.0.0.1", false, fun _ => false⟩

theorem directory_oneFile : directory.OneFile ⟨"/srv/conf", "config.toml"⟩ := by
  intro p
  cases p <;> decide

def emptyFile : Target := .file "schema_version = 1\n[runtime]\n" 7

/-- Both editors in turn, and then the one that has waited. -/
def bothEdits : List (Event Bool) :=
  (List.replicate 18 [.act false .ok, .act true .ok]).flatten ++ List.replicate 10 (.act true .ok)

theorem run_editsKept_both :
    EditsKept directory ⟨"/srv/conf", "config.toml"⟩ emptyFile bothEdits ∧
      (run directory (start emptyFile) bothEdits).target =
        .file "schema_version = 1\n[runtime]\nHOST = \"127.0.0.1\"\nPORT = 8080\n" 0 ∧
      (run directory (start emptyFile) bothEdits).history.map Publication.editor = [false, true] :=
  ⟨run_editsKept plainToml_lawful directory_oneFile emptyFile bothEdits, by decide +kernel,
    by decide +kernel⟩

def Pc.failed : Pc D φ → Bool
  | .done (.error _) => true
  | _ => false

/-- An edit that fails leaves no file behind. -/
def TempsRemoved (w : World ι D φ) : Prop := ∀ p, (w.pc p).failed → w.temps p = none

/-- One editor, whose file can be neither flushed nor removed. -/
def brokenDisk : List (Event Bool) :=
  List.replicate 14 (.act false .ok) ++
    List.replicate 3 (.act false ⟨some "Input/output error (os error 5)", "", 0⟩)

/-- The removal of the temporary file is tried once. -/
theorem run_not_tempsRemoved :
    ¬ TempsRemoved (run directory (start emptyFile) brokenDisk) := by
  intro h
  have hfailed : ((run directory (start emptyFile) brokenDisk).pc false).failed = true := by
    decide +kernel
  have htemp : (run directory (start emptyFile) brokenDisk).temps false ≠ none := by
    decide +kernel
  exact htemp (h false hfailed)

end Directory
end PrtsMcp.Config
