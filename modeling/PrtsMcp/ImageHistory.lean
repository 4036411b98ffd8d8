import PrtsMcp.ImagesV2
import PrtsMcp.Overlays

/-!
# Release histories of the second format

Over a consistent history the deltas since an earlier release and the full rebuild activate the same
files.
-/
namespace PrtsMcp.ImagesV2

open Fallible ImageFiles ImageManifest JsonValue Overlays
open SourceGuard (DataSource)
open SyncTypes (SyncResult)

variable {φ : Type} [Doubles φ]

/-- A release with what its index says. -/
structure Release (φ : Type) where
  value : JsonValue φ
  index : Manifest
  view : ImagesIndex φ

def Release.version (r : Release φ) : String := r.index.currentVersion

/-! ## Consistent histories -/

/-- The index declares a file in a group. -/
def Declares (view : ImagesIndex φ) (name group : String) (target : Target) : Prop :=
  ∃ v ∈ view.variants, v.2.2.file = name ∧ groupName v.1.shard v.2.1 = group ∧
    variantTarget v.2.2 = target

/-- A part of the list carries a file of a group. -/
def Carries (parts : List Part) (name group : String) (target : Target) : Prop :=
  ∃ member, (name, member) ∈ partMembers parts ∧ member.group = group ∧ memberTarget member = target

/-- The delta of a release carries what its index changes of the one before. -/
structure Follows (r prior : Release φ) : Prop where
  previous : r.index.previousVersion = some prior.version
  baselineVersion : r.index.baselineVersion = prior.index.baselineVersion
  baselineParts : r.index.baselineParts = prior.index.baselineParts
  changed : ∀ name group target, Declares r.view name group target →
    Declares prior.view name group target ∨ Carries r.index.deltaParts name group target

structure Founds (r : Release φ) : Prop where
  version : r.version = r.index.baselineVersion
  carried : ∀ name group target, Declares r.view name group target →
    Carries r.index.baselineParts name group target

/-- A member that holds what the part declares. -/
def Sealed (crates : Crates φ) (part : Part) (entry : ZipMember) : Prop :=
  entry.broken = none ∧ ∃ member, part.members.lookup entry.name = some member ∧
    fingerprint crates entry.data = memberTarget member

/-- The archive unpacks to the members of the part. -/
def Unpacks (crates : Crates φ) (part : Part) (archive : Bytes) : Prop :=
  ∃ entries : List ZipMember, crates.unzip archive = .ok (entries.map .ok) ∧
    (entries.map ZipMember.name).Perm (part.members.map Prod.fst) ∧
    ∀ entry ∈ entries, Sealed crates part entry

/-- The releases from the newest back to the baseline. A delta carries files of its own index only,
and the digest of a part tells its archive. -/
structure Consistent (crates : Crates φ) (history : List (Release φ)) : Prop where
  parsed : ∀ r ∈ history, parse crates r.value = .ok (r.index, r.view)
  follows : history.IsChain Follows
  founded : ∀ r, history.getLast? = some r → Founds r
  own : ∀ r ∈ history, ∀ entry ∈ partMembers r.index.deltaParts,
    Declares r.view entry.1 entry.2.group (memberTarget entry.2)
  archives : ∀ r ∈ history, ∀ part ∈ r.index.baselineParts ++ r.index.deltaParts, ∀ archive,
    fingerprint crates archive = partTarget part → Unpacks crates part archive

/-! ## What the deltas deliver -/

section Deliver

theorem Declares.unique {view : ImagesIndex φ} (hview : view.WellFormed) {name g g' : String}
    {t t' : Target} (h : Declares view name g t) (h' : Declares view name g' t') :
    g = g' ∧ t = t' := by
  obtain ⟨v, hv, hfile, rfl, rfl⟩ := h
  obtain ⟨u, hu, hfile', rfl, rfl⟩ := h'
  have heq : v = u := List.inj_on_of_nodup_map hview.files hv hu (hfile.trans hfile'.symm)
  exact heq ▸ ⟨rfl, rfl⟩

/-- What a part of the groups writes. -/
def partLayer (keys : List String) (part : Part) : String → Option (Option Target) :=
  fun name =>
    if part.group ∈ keys then (part.members.lookup name).map fun m => some (memberTarget m) else none

theorem partLayer_of_notMem {keys : List String} {part : Part} {name : String}
    (h : ∀ entry ∈ part.members, entry.1 ≠ name) : partLayer keys part name = none := by
  unfold partLayer
  split
  · rw [Option.map_eq_none_iff, List.lookup_eq_none_iff]
    intro entry hentry
    exact bne_iff_ne.mpr (h entry hentry).symm
  · rfl

theorem partsWellFormed_tail {part : Part} {parts : List Part}
    (h : PartsWellFormed (part :: parts)) : PartsWellFormed parts := by
  refine ⟨?_, fun p hp => h.groups p (List.mem_cons_of_mem _ hp)⟩
  have hnames := h.names
  rw [partMembers, List.flatMap_cons, List.map_append] at hnames
  exact hnames.of_append_right

/-- A list of parts writes each member of the groups once. -/
theorem overlay_parts {keys : List String} {parts : List Part} (hparts : PartsWellFormed parts)
    {name group : String} {target : Target} (h : Carries parts name group target)
    (hgroup : group ∈ keys) (base : String → Option Target) :
    overlayAll base (parts.map (partLayer keys)) name = some target := by
  induction parts generalizing base with
  | nil =>
    obtain ⟨member, hmem, -⟩ := h
    simp [partMembers] at hmem
  | cons part parts ih =>
    obtain ⟨member, hmem, rfl, rfl⟩ := h
    rw [List.map_cons, overlayAll_cons]
    rw [partMembers, List.flatMap_cons, List.mem_append] at hmem
    have hnames := hparts.names
    rw [partMembers, List.flatMap_cons, List.map_append] at hnames
    rcases hmem with hhead | htail
    · have hother : ∀ layer ∈ parts.map (partLayer keys), layer name = none := by
        intro layer hlayer
        obtain ⟨p, hp, rfl⟩ := List.mem_map.mp hlayer
        apply partLayer_of_notMem
        rintro entry hentry rfl
        apply List.disjoint_of_nodup_append hnames
          (List.mem_map_of_mem (f := Prod.fst) hhead)
        exact List.mem_map.mpr ⟨entry, List.mem_flatMap.mpr ⟨p, hp, hentry⟩, rfl⟩
      rw [overlayAll_of_untouched hother]
      apply overlay_of_some
      have hkey : part.group ∈ keys := by
        rw [← hparts.groups part List.mem_cons_self _ hhead]
        exact hgroup
      rw [partLayer, if_pos hkey, SortedMap.lookup_of_mem hnames.of_append_left hhead]
      rfl
    · exact ih (partsWellFormed_tail hparts) ⟨member, htail, rfl, rfl⟩ _

/-- The parts of the deltas of a history, from the oldest. -/
def deltaParts (history : List (Release φ)) : List Part :=
  history.reverse.flatMap fun r => r.index.deltaParts

omit [Doubles φ] in
theorem deltaParts_cons (r : Release φ) (older : List (Release φ)) :
    deltaParts (r :: older) = deltaParts older ++ r.index.deltaParts := by
  simp [deltaParts]

/-- No delta of the history carries a file of that name. -/
def Untouched (history : List (Release φ)) (name : String) : Prop :=
  ∀ part ∈ deltaParts history, ∀ entry ∈ part.members, entry.1 ≠ name

omit [Doubles φ] in
theorem untouched_cons {r : Release φ} {older : List (Release φ)} {name : String} :
    Untouched (r :: older) name ↔
      Untouched older name ∧ ∀ entry ∈ partMembers r.index.deltaParts, entry.1 ≠ name := by
  simp only [Untouched, deltaParts_cons, List.mem_append, partMembers, List.mem_flatMap]
  constructor
  · intro h
    refine ⟨fun part hpart => h part (.inl hpart), ?_⟩
    rintro entry ⟨part, hpart, hentry⟩
    exact h part (.inr hpart) entry hentry
  · rintro ⟨holder, hr⟩ part (hpart | hpart) entry hentry
    · exact holder part hpart entry hentry
    · exact hr entry ⟨part, hpart, hentry⟩

/-- What every release of a history is. -/
structure Sound (r : Release φ) : Prop where
  index : r.index.WellFormed
  view : r.view.WellFormed
  own : ∀ entry ∈ partMembers r.index.deltaParts,
    Declares r.view entry.1 entry.2.group (memberTarget entry.2)

/-- A delta delivers a declared file, or does not carry its name. -/
theorem Sound.delivers {r : Release φ} (hr : Sound r) {keys : List String} {name group : String}
    {target : Target} (hgroup : group ∈ keys) (hdeclares : Declares r.view name group target)
    (base : String → Option Target) :
    overlayAll base (r.index.deltaParts.map (partLayer keys)) name = some target ∨
      ∀ entry ∈ partMembers r.index.deltaParts, entry.1 ≠ name := by
  by_cases hcarried : ∃ entry ∈ partMembers r.index.deltaParts, entry.1 = name
  · left
    obtain ⟨⟨name, member⟩, hentry, rfl⟩ := hcarried
    obtain ⟨hg, ht⟩ := (hr.own _ hentry).unique hr.view hdeclares
    exact overlay_parts hr.index.deltaParts ⟨member, hentry, hg, ht⟩ hgroup base
  · right
    exact fun entry hentry heq => hcarried ⟨entry, hentry, heq⟩

theorem overlay_of_untouched {keys : List String} {parts : List Part} {name : String}
    (h : ∀ entry ∈ partMembers parts, entry.1 ≠ name) (base : String → Option Target) :
    overlayAll base (parts.map (partLayer keys)) name = base name := by
  apply overlayAll_of_untouched
  intro layer hlayer
  obtain ⟨part, hpart, rfl⟩ := List.mem_map.mp hlayer
  exact partLayer_of_notMem fun entry hentry => h entry (List.mem_flatMap.mpr ⟨part, hpart, hentry⟩)

/-- The deltas deliver a declared file, or it is the one of the oldest release. -/
theorem delivered {keys : List String} {r : Release φ} {older : List (Release φ)}
    (hchain : (r :: older).IsChain Follows) (hsound : ∀ q ∈ r :: older, Sound q)
    {name group : String} {target : Target} (hgroup : group ∈ keys)
    (hdeclares : Declares r.view name group target) (base : String → Option Target) :
    overlayAll base ((deltaParts (r :: older)).map (partLayer keys)) name = some target ∨
      (Untouched (r :: older) name ∧
        ∀ q, (r :: older).getLast? = some q → Declares q.view name group target) := by
  induction older generalizing r with
  | nil =>
    rw [deltaParts_cons, List.map_append, overlayAll_append]
    rcases (hsound r List.mem_cons_self).delivers hgroup hdeclares _ with hhere | hnot
    · exact .inl hhere
    · refine .inr ⟨untouched_cons.mpr ⟨fun part hpart => by simp [deltaParts] at hpart, hnot⟩, ?_⟩
      intro q hq
      cases hq
      exact hdeclares
  | cons prior rest ih =>
    obtain ⟨hfollows, hrest⟩ := List.isChain_cons_cons.mp hchain
    rw [deltaParts_cons, List.map_append, overlayAll_append]
    rcases (hsound r List.mem_cons_self).delivers hgroup hdeclares _ with hhere | hnot
    · exact .inl hhere
    · have hprior : Declares prior.view name group target := by
        rcases hfollows.changed _ _ _ hdeclares with hprior | ⟨member, hmember, -⟩
        · exact hprior
        · exact absurd rfl (hnot _ hmember)
      rw [overlay_of_untouched hnot]
      rcases ih hrest (fun q hq => hsound q (List.mem_cons_of_mem _ hq)) hprior with hold | ⟨hold, hlast⟩
      · exact .inl hold
      · refine .inr ⟨untouched_cons.mpr ⟨hold, hnot⟩, ?_⟩
        intro q hq
        exact hlast q (by rwa [List.getLast?_cons_cons] at hq)

end Deliver

/-! ## Serving a history -/

/-- The release serves an archive of the part. -/
def ServesPart (crates : Crates φ) (run : Surroundings) (source : DataSource) (tag : String)
    (part : Part) : Prop :=
  ∃ archive, run.downloadFileLimited (downloadUrl source tag part.file) part.bytes = .ok archive ∧
    fingerprint crates archive = partTarget part

/-- Every release of the history is served, and nothing fails on the way. -/
structure Served (crates : Crates φ) (run : Surroundings) (source : DataSource)
    (history : List (Release φ)) : Prop where
  fails : ∀ place, run.fails place = none
  patience : history.length ≤ run.patience
  index : ∀ r ∈ history, ∃ bytes,
    run.downloadFile (downloadUrl source (releaseTag r.version) "index.json") = .ok bytes ∧
      crates.fromSlice bytes = .ok r.value
  baselineParts : ∀ r ∈ history, ∀ part ∈ r.index.baselineParts,
    ServesPart crates run source (baselineTag r.index.baselineVersion) part
  deltaParts : ∀ r ∈ history, ∀ part ∈ r.index.deltaParts,
    ServesPart crates run source (releaseTag r.version) part

section Extract

variable {crates : Crates φ} {run : Surroundings} {part : Part} {expected : List (String × Target)}
  {preserved : List String}

theorem attempt_ok (hfails : ∀ place, run.fails place = none) (place : Place) :
    run.attempt place = .ok () := by
  rw [Surroundings.attempt, hfails]

omit [Doubles φ] in
theorem readMember_sealed {member : Member} {entry : ZipMember} (hbroken : entry.broken = none)
    (hprint : fingerprint crates entry.data = memberTarget member) :
    readMember crates member entry = .ok entry.data := by
  have hlength : entry.data.length = member.bytes.toNat := congrArg Prod.fst hprint
  rw [readMember, if_neg (by omega), hbroken]
  exact if_pos hprint

omit [Doubles φ] in
theorem extractMember_sealed (expected : List (String × Target)) (preserved : List String)
    (hfails : ∀ place, run.fails place = none) {x : Extraction}
    {entry : ZipMember} (hentry : Sealed crates part entry) (hseen : entry.name ∉ x.seen) :
    ∃ x', extractMember crates run part expected preserved x (.ok entry) = .ok x' ∧
      x'.seen = entry.name :: x.seen ∧
      ∀ name, selected expected preserved name = true → x'.written.lookup name =
        if name = entry.name then (part.members.lookup name).map memberTarget
        else x.written.lookup name := by
  obtain ⟨hbroken, member, hmember, hprint⟩ := hentry
  have hread := readMember_sealed hbroken hprint
  by_cases hselected : selected expected preserved entry.name = true
  · refine ⟨⟨entry.name :: x.seen, Function.update x.stage entry.name (some entry.data),
      (entry.name, memberTarget member) :: x.written⟩, ?_, rfl, ?_⟩
    · simp only [extractMember, hmember, okOr, hread, attempt_ok hfails, bind, Except.bind,
        if_neg hseen, if_pos hselected, pure, Except.pure]
    · intro name hname
      by_cases heq : name = entry.name
      · subst heq
        rw [List.lookup_cons_self, if_pos rfl, hmember, Option.map_some]
      · rw [List.lookup_cons, beq_false_of_ne heq, if_neg heq]
  · refine ⟨{ x with seen := entry.name :: x.seen }, ?_, rfl, ?_⟩
    · simp only [extractMember, hmember, okOr, hread, bind, Except.bind, if_neg hseen,
        if_neg hselected, pure, Except.pure]
    · intro name hname
      rw [if_neg]
      rintro rfl
      exact hselected hname

omit [Doubles φ] in
theorem extractMembers_sealed (expected : List (String × Target)) (preserved : List String)
    (hfails : ∀ place, run.fails place = none) {entries : List ZipMember}
    (hentries : ∀ entry ∈ entries, Sealed crates part entry)
    (hnodup : (entries.map ZipMember.name).Nodup) {x : Extraction}
    (hseen : ∀ entry ∈ entries, entry.name ∉ x.seen) :
    ∃ x', (entries.map Except.ok).foldlM (extractMember crates run part expected preserved) x = .ok x' ∧
      x'.seen = (entries.map ZipMember.name).reverse ++ x.seen ∧
      ∀ name, selected expected preserved name = true → x'.written.lookup name =
        if name ∈ entries.map ZipMember.name then (part.members.lookup name).map memberTarget
        else x.written.lookup name := by
  induction entries generalizing x with
  | nil => exact ⟨x, rfl, rfl, fun name _ => rfl⟩
  | cons entry rest ih =>
    rw [List.map_cons, List.nodup_cons] at hnodup
    obtain ⟨y, hy, hyseen, hywritten⟩ := extractMember_sealed expected preserved hfails (hentries entry List.mem_cons_self)
      (hseen entry List.mem_cons_self)
    have hrest : ∀ e ∈ rest, e.name ∉ y.seen := by
      intro e he
      rw [hyseen, List.mem_cons, not_or]
      refine ⟨?_, hseen e (List.mem_cons_of_mem _ he)⟩
      intro heq
      exact hnodup.1 (List.mem_map.mpr ⟨e, he, heq⟩)
    obtain ⟨z, hz, hzseen, hzwritten⟩ :=
      ih (fun e he => hentries e (List.mem_cons_of_mem _ he)) hnodup.2 hrest
    refine ⟨z, ?_, ?_, ?_⟩
    · rw [List.map_cons, List.foldlM_cons, hy]
      exact hz
    · rw [hzseen, hyseen]
      simp
    · intro name hname
      rw [hzwritten name hname, hywritten name hname, List.map_cons]
      by_cases hin : name ∈ rest.map ZipMember.name
      · rw [if_pos hin, if_pos (List.mem_cons_of_mem _ hin)]
      · rw [if_neg hin]
        by_cases heq : name = entry.name
        · rw [if_pos heq, if_pos (heq ▸ List.mem_cons_self)]
        · rw [if_neg heq, if_neg (by simp [heq, hin])]

omit [Doubles φ] in
/-- The extraction of a published archive writes the selected members. -/
theorem extract_published (expected : List (String × Target)) (preserved : List String)
    (hfails : ∀ place, run.fails place = none) {archive : Bytes} (hunpacks : Unpacks crates part archive) (hmembers : (part.members.map Prod.fst).Nodup)
    (stage : Tree) :
    ∃ stage' written, extract crates run archive part stage expected preserved =
        .ok (stage', written) ∧
      ∀ name, selected expected preserved name = true →
        written.lookup name = (part.members.lookup name).map memberTarget := by
  obtain ⟨entries, hunzip, hperm, hsealed⟩ := hunpacks
  obtain ⟨x, hx, hseen, hwritten⟩ := extractMembers_sealed expected preserved hfails
    hsealed (hperm.nodup_iff.mpr hmembers) (x := ⟨[], stage, []⟩) (fun _ _ => List.not_mem_nil)
  have hlength : x.seen.length = part.members.length := by
    rw [hseen, List.append_nil, List.length_reverse, hperm.length_eq, List.length_map]
  refine ⟨x.stage, x.written, ?_, ?_⟩
  · simp only [extract, hunzip, bind, Except.bind, hx, hlength, ne_eq, not_true_eq_false, if_false,
      pure, Except.pure]
  · intro name hname
    rw [hwritten name hname]
    split
    · rfl
    · next hnot =>
      symm
      rw [List.lookup_nil, Option.map_eq_none_iff, List.lookup_eq_none_iff]
      intro entry hentry
      apply bne_iff_ne.mpr
      rintro rfl
      exact hnot (hperm.mem_iff.mpr (List.mem_map.mpr ⟨entry, hentry, rfl⟩))

end Extract

section Parts

variable {crates : Crates φ} {run : Surroundings} {source : DataSource} {job : Job φ}
  {preserved : List String}

/-- A part of a release that is served. -/
structure Available (crates : Crates φ) (run : Surroundings) (source : DataSource)
    (work : String × Part) : Prop where
  served : ServesPart crates run source work.1 work.2
  unpacks : ∀ archive, fingerprint crates archive = partTarget work.2 →
    Unpacks crates work.2 archive
  members : (work.2.members.map Prod.fst).Nodup

omit [Doubles φ] in
theorem fetchPart_served (hfails : ∀ place, run.fails place = none) {tag : String} {part : Part}
    (hserves : ServesPart crates run source tag part) (cache : Tree) :
    ∃ archive cache', fetchPart crates run source cache tag part = .ok (archive, cache') ∧
      fingerprint crates archive = partTarget part := by
  unfold fetchPart
  split
  · next archive hcached =>
    obtain ⟨-, hprint⟩ := Option.filter_eq_some_iff.mp hcached
    exact ⟨archive, cache, rfl, of_decide_eq_true hprint⟩
  · obtain ⟨archive, hdownload, hprint⟩ := hserves
    refine ⟨archive, Function.update cache part.sha256 (some archive), ?_, hprint⟩
    simp only [leaving, hdownload, bind, Except.bind, hprint, ne_eq, not_true_eq_false, if_false,
      attempt_ok hfails, pure, Except.pure, Except.mapError]

omit [Doubles φ] in
/-- A part that is not needed writes no selected file. -/
theorem partLayer_of_notNeeded {part : Part} (h : isNeeded job preserved part = false) {name : String}
    (hname : selected job.expected preserved name = true) : partLayer job.keys part name = none := by
  unfold partLayer
  split
  · next hkey =>
    rw [isNeeded, decide_eq_true hkey, Bool.true_and, List.any_eq_false] at h
    rw [Option.map_eq_none_iff, List.lookup_eq_none_iff]
    intro entry hentry
    apply bne_iff_ne.mpr
    rintro rfl
    exact h entry hentry hname
  · rfl

omit [Doubles φ] in
theorem addPart_served (job : Job φ) (preserved : List String)
    (hfails : ∀ place, run.fails place = none) {work : String × Part}
    (hwork : Available crates run source work) (a : Assembly) :
    ∃ a', addPart crates run source job preserved a work = .ok a' ∧
      ∀ name, selected job.expected preserved name = true → a'.written.lookup name =
        overlay (fun n => a.written.lookup n) (partLayer job.keys work.2) name := by
  by_cases hneeded : isNeeded job preserved work.2 = true
  · obtain ⟨archive, cache, hfetch, hprint⟩ := fetchPart_served hfails hwork.served a.cache
    obtain ⟨stage, written, hextract, hwritten⟩ := extract_published job.expected preserved hfails (hwork.unpacks archive hprint) hwork.members a.stage
    refine ⟨⟨cache, stage, written ++ a.written⟩, ?_, ?_⟩
    · simp only [addPart, if_pos hneeded, hfetch, bind, Except.bind, leaving, hextract,
        Except.mapError, pure, Except.pure]
    · intro name hname
      have hkey : work.2.group ∈ job.keys := of_decide_eq_true (Bool.and_eq_true_iff.mp hneeded).1
      dsimp only
      rw [List.lookup_append, hwritten name hname, overlay, partLayer, if_pos hkey]
      cases work.2.members.lookup name <;> rfl
  · refine ⟨a, if_neg hneeded, ?_⟩
    intro name hname
    rw [overlay_of_none (partLayer_of_notNeeded (Bool.not_eq_true _ ▸ hneeded) hname)]

omit [Doubles φ] in
/-- The parts of a work list are laid one over the other. -/
theorem addParts_served (job : Job φ) (preserved : List String)
    (hfails : ∀ place, run.fails place = none) {work : List (String × Part)}
    (hwork : ∀ w ∈ work, Available crates run source w) (a : Assembly) :
    ∃ a', work.foldlM (addPart crates run source job preserved) a = .ok a' ∧
      ∀ name, selected job.expected preserved name = true → a'.written.lookup name =
        overlayAll (fun n => a.written.lookup n)
          ((work.map Prod.snd).map (partLayer job.keys)) name := by
  induction work generalizing a with
  | nil => exact ⟨a, rfl, fun _ _ => rfl⟩
  | cons w rest ih =>
    obtain ⟨b, hb, hbwritten⟩ := addPart_served job preserved hfails
      (hwork w List.mem_cons_self) a
    obtain ⟨c, hc, hcwritten⟩ := ih (fun w hw => hwork w (List.mem_cons_of_mem _ hw)) b
    refine ⟨c, ?_, ?_⟩
    · rw [List.foldlM_cons, hb]
      exact hc
    · intro name hname
      rw [hcwritten name hname, List.map_cons, List.map_cons, overlayAll_cons]
      exact overlayAll_eq_iff.mpr (.inr (hbwritten name hname))

end Parts

section Walk

variable {crates : Crates φ} {run : Surroundings} {source : DataSource}
  {history : List (Release φ)}

theorem flat_releaseTag {version : String} (h : flat version = .ok ()) :
    flat (releaseTag version) = .ok () := by
  unfold flat at h ⊢
  have hsafe := (ite_error_eq_ok h).1
  simp only [not_or] at hsafe
  apply if_neg
  have hlead : "images2-".toList.any (['/', '\\', '\x00', ':'].contains ·) = false := by decide
  have hlong : 8 ≤ (releaseTag version).toList.length := by
    simp [releaseTag, String.toList_append]
  have hshort : ∀ s : String, s.toList.length < 8 → releaseTag version ≠ s := by
    rintro s hs rfl
    omega
  rintro (heq | heq | heq | heq)
  · exact hshort _ (by decide) heq
  · exact hshort _ (by decide) heq
  · exact hshort _ (by decide) heq
  · rw [releaseTag, String.toList_append, List.any_append, hlead, Bool.false_or] at heq
    exact hsafe.2.2.2 heq

theorem Consistent.sound (h : Consistent crates history) {r : Release φ} (hr : r ∈ history) :
    Sound r := by
  obtain ⟨hindex, hview⟩ := parse_wellFormed (h.parsed r hr)
  exact ⟨hindex, hview, h.own r hr⟩

theorem readIndex_served (hconsistent : Consistent crates history)
    (hserved : Served crates run source history) {r : Release φ} (hr : r ∈ history) :
    readIndex crates run source (releaseTag r.version) = .ok (r.value, r.index, r.view) := by
  obtain ⟨bytes, hdownload, hvalue⟩ := hserved.index r hr
  have hflat := flat_releaseTag (hconsistent.sound hr).index.version
  unfold Release.version at hdownload ⊢
  simp only [readIndex, hflat, hdownload, hvalue, hconsistent.parsed r hr, bind, Except.bind, ne_eq,
    not_true_eq_false, if_false, pure, Except.pure]

/-- All releases of a history have one baseline. -/
theorem one_baseline {r : Release φ} {older : List (Release φ)}
    (hchain : (r :: older).IsChain Follows) : ∀ q ∈ older,
      q.index.baselineVersion = r.index.baselineVersion ∧
        q.index.baselineParts = r.index.baselineParts := by
  induction older generalizing r with
  | nil => simp
  | cons prior rest ih =>
    obtain ⟨hfollows, hrest⟩ := List.isChain_cons_cons.mp hchain
    intro q hq
    rcases List.mem_cons.mp hq with rfl | hq
    · exact ⟨hfollows.baselineVersion.symm, hfollows.baselineParts.symm⟩
    · obtain ⟨hversion, hparts⟩ := ih hrest q hq
      exact ⟨hversion.trans hfollows.baselineVersion.symm, hparts.trans hfollows.baselineParts.symm⟩

/-- A release is newer than the one before it, which is not before the baseline. -/
theorem Follows.order {r prior : Release φ} (h : Follows r prior) (hr : r.index.WellFormed) :
    r.index.baselineVersion ≤ prior.version ∧ prior.version < r.version := by
  rcases hr.ordered with ⟨-, hnone, -⟩ | ⟨version, hprevious, hbaseline, hprior⟩
  · rw [h.previous] at hnone
    cases hnone
  · rw [h.previous] at hprevious
    cases hprevious
    exact ⟨hbaseline, hprior⟩

def Release.delta (r : Release φ) : String × List Part := (r.version, r.index.deltaParts)

/-- The walk has come to `r`, past the newer releases. -/
structure Reached (chain : Chain) (newer : List (Release φ)) (r : Release φ) : Prop where
  deltas : chain.deltas = (newer ++ [r]).map Release.delta
  newer : chain.newer = r.version
  previous : chain.previous = r.index.previousVersion

omit [Doubles φ] in
theorem Reached.push {chain : Chain} {newer : List (Release φ)} {r : Release φ}
    (h : Reached chain newer r) (prior : Release φ) :
    Reached (chain.push prior.version prior.index) (newer ++ [r]) prior := by
  refine ⟨?_, rfl, rfl⟩
  rw [Chain.push, h.deltas, List.map_append, List.map_append, List.map_append]
  rfl

theorem walk_of_next_none {index : Manifest} {stop : Option String} {chain : Chain}
    (h : chain.next index stop = .ok none) (patience : ℕ) :
    chain.walk crates run source index stop patience = .ok chain := by
  cases patience <;> simp only [Chain.walk, h, bind, Except.bind, pure, Except.pure]

/-- A walk over a served history ends at the baseline or before its stop. -/
theorem walk_served (hconsistent : Consistent crates history)
    (hserved : Served crates run source history) {index : Manifest}
    (hindex : ∀ q ∈ history, q.index.baselineVersion = index.baselineVersion ∧
      q.index.baselineParts = index.baselineParts) (stop : Option String)
    {newer older : List (Release φ)} {r : Release φ} {chain : Chain} {patience : ℕ}
    (hsplit : history = newer ++ r :: older) (hreached : Reached chain newer r)
    (hpatience : older.length ≤ patience) :
    ∃ chain' newer' r' older', chain.walk crates run source index stop patience = .ok chain' ∧
      history = newer' ++ r' :: older' ∧ Reached chain' newer' r' ∧
      (stop = none → older' = []) ∧ (∀ q, older'.head? = some q → stop = some q.version) ∧
      ∃ passed, older = passed ++ older' ∧ ∀ q ∈ passed, stop ≠ some q.version := by
  have hr : r ∈ history := by simp [hsplit]
  induction older generalizing newer r chain patience with
  | nil =>
    have hfounds : Founds r := hconsistent.founded r (by simp [hsplit])
    have hnext : chain.next index stop = .ok none := by
      rw [Chain.next, if_pos]
      rw [hreached.newer, hfounds.version, (hindex r hr).1]
    exact ⟨chain, newer, r, [], walk_of_next_none hnext patience, hsplit, hreached, fun _ => rfl,
      by simp, [], rfl, by simp⟩
  | cons prior rest ih =>
    have hprior : prior ∈ history := by simp [hsplit]
    have hfollows : Follows r prior := by
      have hchain := hconsistent.follows
      rw [hsplit, List.isChain_append_cons_cons] at hchain
      exact hchain.2.1
    obtain ⟨hbaseline, horder⟩ := hfollows.order (hconsistent.sound hr).index
    rw [(hindex r hr).1] at hbaseline
    have hgoes : chain.next index stop =
        if stop = some prior.version then .ok none else .ok (some prior.version) := by
      rw [Chain.next, hreached.newer, hreached.previous, hfollows.previous,
        if_neg (hbaseline.trans_lt horder).ne']
      have hok : ¬ (r.version ≤ prior.version ∨ prior.version < index.baselineVersion) := by
        rw [not_or]
        exact ⟨not_le.mpr horder, not_lt.mpr hbaseline⟩
      simp only [okOr, bind, Except.bind, if_neg hok]
    by_cases hstop : stop = some prior.version
    · rw [if_pos hstop] at hgoes
      refine ⟨chain, newer, r, prior :: rest, walk_of_next_none hgoes patience, hsplit, hreached, ?_,
        ?_, [], rfl, by simp⟩
      · intro hnone
        rw [hnone] at hstop
        cases hstop
      · intro q hq
        cases hq
        exact hstop
    · rw [if_neg hstop] at hgoes
      obtain ⟨n, rfl⟩ : ∃ n, patience = n + 1 := ⟨patience - 1, by
        rw [List.length_cons] at hpatience
        omega⟩
      have hsplit' : history = (newer ++ [r]) ++ prior :: rest := by
        rw [hsplit]
        simp
      have hlength : rest.length ≤ n := Nat.le_of_succ_le_succ hpatience
      obtain ⟨chain', newer', r', older', hwalk, hsplit'', hreached', hend, hhead, passed, hpassed,
        hnot⟩ := ih hsplit' (hreached.push prior) hlength hprior
      refine ⟨chain', newer', r', older', ?_, hsplit'', hreached', hend, hhead, prior :: passed,
        by rw [hpassed, List.cons_append], List.forall_mem_cons.mpr ⟨hstop, hnot⟩⟩
      have hread := readIndex_served hconsistent hserved hprior
      have hdrift : ¬ (prior.index.baselineVersion ≠ index.baselineVersion ∨
          prior.index.baselineParts ≠ index.baselineParts) := by
        simp [hindex prior hprior]
      rw [Chain.walk]
      simp only [hgoes, bind, Except.bind, hread, if_neg hdrift]
      exact hwalk

end Walk

section Assemble

variable {crates : Crates φ} {run : Surroundings} {source : DataSource} {original : Bool}
  {target : Release φ} {older : List (Release φ)} {job : Job φ} {preserved : List String}

omit [Doubles φ] in
theorem mem_deltaParts {history : List (Release φ)} {part : Part} :
    part ∈ deltaParts history ↔ ∃ q ∈ history, part ∈ q.index.deltaParts := by
  simp [deltaParts]

theorem nodup_members {parts : List Part} (hparts : PartsWellFormed parts) {part : Part}
    (hpart : part ∈ parts) : (part.members.map Prod.fst).Nodup := by
  obtain ⟨before, after, rfl⟩ := List.append_of_mem hpart
  have hnames := hparts.names
  simp only [partMembers, List.flatMap_append, List.flatMap_cons, List.map_append] at hnames
  exact hnames.of_append_right.of_append_left

theorem available_delta {history : List (Release φ)} (hconsistent : Consistent crates history)
    (hserved : Served crates run source history) {q : Release φ} (hq : q ∈ history) {part : Part}
    (hpart : part ∈ q.index.deltaParts) :
    Available crates run source (releaseTag q.version, part) where
  served := hserved.deltaParts q hq part hpart
  unpacks := hconsistent.archives q hq part (List.mem_append_right _ hpart)
  members := nodup_members (hconsistent.sound hq).index.deltaParts hpart

theorem available_baseline {history : List (Release φ)} (hconsistent : Consistent crates history)
    (hserved : Served crates run source history) {q : Release φ} (hq : q ∈ history) {part : Part}
    (hpart : part ∈ q.index.baselineParts) :
    Available crates run source (baselineTag q.index.baselineVersion, part) where
  served := hserved.baselineParts q hq part hpart
  unpacks := hconsistent.archives q hq part (List.mem_append_left _ hpart)
  members := nodup_members (hconsistent.sound hq).index.baselineParts hpart

theorem baseline_of_history (hconsistent : Consistent crates (target :: older)) :
    ∀ q ∈ target :: older, q.index.baselineVersion = target.index.baselineVersion ∧
      q.index.baselineParts = target.index.baselineParts := by
  intro q hq
  rcases List.mem_cons.mp hq with rfl | hq
  · exact ⟨rfl, rfl⟩
  · exact one_baseline hconsistent.follows q hq

/-- The chain that is applied goes back to the baseline, unless it is incremental. -/
theorem settleChain_served (preserved : List String) (hconsistent : Consistent crates (target :: older))
    (hserved : Served crates run source (target :: older)) (hindex : job.index = target.index)
    {newer rest : List (Release φ)} {r : Release φ} (hsplit : target :: older = newer ++ r :: rest)
    (hreached : Reached job.chain newer r) :
    ∃ incremental chain newer r rest,
      settleChain crates run source job preserved = .ok (incremental, chain) ∧
      target :: older = newer ++ r :: rest ∧ Reached chain newer r ∧
      if incremental then isIncremental job preserved = true ∧ chain = job.chain else rest = [] := by
  unfold settleChain
  by_cases hincremental : isIncremental job preserved = true
  · exact ⟨true, job.chain, newer, r, rest, if_pos hincremental, hsplit, hreached, hincremental, rfl⟩
  · have hlength : rest.length ≤ run.patience := by
      have hlen := congrArg List.length hsplit
      have hpatience := hserved.patience
      simp only [List.length_append, List.length_cons] at hlen hpatience
      omega
    obtain ⟨chain', newer', r', rest', hwalk, hsplit', hreached', hend, -⟩ :=
      walk_served hconsistent hserved (baseline_of_history hconsistent) none hsplit hreached hlength
    refine ⟨false, chain', newer', r', rest', ?_, hsplit', hreached', hend rfl⟩
    rw [if_neg hincremental, hindex, hwalk]
    rfl

omit [Doubles φ] in
theorem workList_parts {index : Manifest} {incremental : Bool} {chain : Chain}
    {newer : List (Release φ)} {r : Release φ} (hreached : Reached chain newer r) :
    (workList index incremental chain).map Prod.snd =
      (if incremental then [] else index.baselineParts) ++ deltaParts (newer ++ [r]) := by
  have hdeltas : (chain.deltas.reverse.flatMap fun delta =>
      delta.2.map (Prod.mk (releaseTag delta.1))).map Prod.snd = deltaParts (newer ++ [r]) := by
    rw [hreached.deltas, deltaParts, ← List.map_reverse, List.map_flatMap, List.flatMap_map]
    simp [Release.delta, Function.comp_def]
  unfold workList
  cases incremental with
  | true => simpa using hdeltas
  | false => simp [hdeltas, Function.comp_def]

theorem workList_available (hconsistent : Consistent crates (target :: older))
    (hserved : Served crates run source (target :: older)) {incremental : Bool} {chain : Chain}
    {newer rest : List (Release φ)} {r : Release φ} (hsplit : target :: older = newer ++ r :: rest)
    (hreached : Reached chain newer r) :
    ∀ w ∈ workList target.index incremental chain, Available crates run source w := by
  have hdelta : ∀ w ∈ chain.deltas.reverse.flatMap fun delta =>
      delta.2.map (Prod.mk (releaseTag delta.1)), Available crates run source w := by
    intro w hw
    obtain ⟨delta, hdelta, hw⟩ := List.mem_flatMap.mp hw
    obtain ⟨part, hpart, rfl⟩ := List.mem_map.mp hw
    rw [List.mem_reverse, hreached.deltas] at hdelta
    obtain ⟨q, hq, rfl⟩ := List.mem_map.mp hdelta
    have hmem : q ∈ target :: older := by
      rw [hsplit]
      rcases List.mem_append.mp hq with hq | hq
      · exact List.mem_append_left _ hq
      · rw [List.mem_singleton.mp hq]
        simp
    exact available_delta hconsistent hserved hmem hpart
  intro w hw
  unfold workList at hw
  split at hw
  · exact hdelta w hw
  · rcases List.mem_append.mp hw with hw | hw
    · obtain ⟨part, hpart, rfl⟩ := List.mem_map.mp hw
      exact available_baseline hconsistent hserved List.mem_cons_self hpart
    · exact hdelta w hw

omit [Doubles φ] in
/-- A file that the chain produces is carried by one of its deltas. -/
theorem not_untouched_of_incremental {newer : List (Release φ)} {r : Release φ}
    (hreached : Reached job.chain newer r) (hincremental : isIncremental job preserved = true)
    {name : String} {t : Target} (hentry : (name, t) ∈ job.expected) (hname : name ∉ preserved) :
    ¬ Untouched (newer ++ [r]) name := by
  intro huntouched
  have hall := (Bool.and_eq_true_iff.mp hincremental).2
  have hor := List.all_eq_true.mp hall (name, t) hentry
  rw [Bool.or_eq_true, decide_eq_true_eq, decide_eq_true_eq] at hor
  obtain ⟨part, hpart, hin⟩ := List.mem_flatMap.mp (hor.resolve_left hname)
  obtain ⟨entry, hentry, heq⟩ := List.mem_map.mp hin
  obtain ⟨delta, hdelta, hpart⟩ := List.mem_flatMap.mp (List.mem_filter.mp hpart).1
  rw [hreached.deltas] at hdelta
  obtain ⟨q, hq, rfl⟩ := List.mem_map.mp hdelta
  exact huntouched part (mem_deltaParts.mpr ⟨q, hq, hpart⟩) entry hentry heq

/-- The releases from the target to `r` deliver a file of the target, or it is one of `r`. -/
theorem delivered_since (hconsistent : Consistent crates (target :: older))
    {newer rest : List (Release φ)} {r : Release φ} (hsplit : target :: older = newer ++ r :: rest)
    {keys : List String} {name group : String} {t : Target} (hgroup : group ∈ keys)
    (hdeclares : Declares target.view name group t) (base : String → Option Target) :
    overlayAll base ((deltaParts (newer ++ [r])).map (partLayer keys)) name = some t ∨
      (Untouched (newer ++ [r]) name ∧ Declares r.view name group t) := by
  obtain ⟨tail, htail⟩ : ∃ tail, newer ++ [r] = target :: tail := by
    cases newer with
    | nil =>
      cases hsplit
      exact ⟨[], rfl⟩
    | cons q newer =>
      cases hsplit
      exact ⟨newer ++ [r], rfl⟩
  have hbegins : target :: older = (target :: tail) ++ rest := by
    rw [hsplit, ← htail]
    simp
  have hsound : ∀ q ∈ target :: tail, Sound q := by
    intro q hq
    apply hconsistent.sound
    rw [hbegins]
    exact List.mem_append_left _ hq
  have hchain : (target :: tail).IsChain Follows := by
    have hwhole := hconsistent.follows
    rw [hbegins] at hwhole
    exact hwhole.left_of_append
  have hlast : (target :: tail).getLast? = some r := by
    rw [← htail]
    simp
  rw [htail]
  exact (delivered hchain hsound hgroup hdeclares base).imp id
    fun h => ⟨h.1, h.2 r hlast⟩

/-- The work list delivers every expected file that is not kept. -/
theorem workList_delivers (hconsistent : Consistent crates (target :: older))
    {incremental : Bool} {chain : Chain} {newer rest : List (Release φ)} {r : Release φ}
    (hsplit : target :: older = newer ++ r :: rest) (hreached : Reached chain newer r)
    (hkind : if incremental then isIncremental job preserved = true ∧ chain = job.chain else rest = [])
    {name : String} {t : Target} (hexpected : job.expected = expectedFiles original target.view)
    (hentry : (name, t) ∈ job.expected) (hname : name ∉ preserved)
    (base : String → Option Target) :
    overlayAll base (((workList target.index incremental chain).map Prod.snd).map
      (partLayer (neededShardKeys original))) name = some t := by
  obtain ⟨v, hv, hsynced, hfile, htarget⟩ :
      ∃ v ∈ target.view.variants, Synced original v ∧ v.2.2.file = name ∧ variantTarget v.2.2 = t := by
    apply variant_of_expected (hconsistent.sound List.mem_cons_self).view
    rw [← hexpected]
    rw [hexpected] at hentry ⊢
    exact (SortedMap.sorted_ofEntries _).mem_iff.mp hentry
  rw [workList_parts hreached, List.map_append, overlayAll_append]
  rcases delivered_since hconsistent hsplit hsynced ⟨v, hv, hfile, rfl, htarget⟩
    (overlayAll base ((if incremental then [] else target.index.baselineParts).map
      (partLayer (neededShardKeys original)))) with hdone | ⟨huntouched, hlast⟩
  · exact hdone
  · cases incremental with
    | true =>
      obtain ⟨hincremental, rfl⟩ := hkind
      exact absurd huntouched (not_untouched_of_incremental hreached hincremental hentry hname)
    | false =>
      obtain rfl : rest = [] := hkind
      have hr : (target :: older).getLast? = some r := by
        rw [hsplit]
        simp
      have hcarries := (hconsistent.founded r hr).carried _ _ _ hlast
      have hmem : r ∈ target :: older := List.mem_of_getLast? hr
      rw [(baseline_of_history hconsistent r hmem).2] at hcarries
      have hnot : ∀ entry ∈ partMembers (deltaParts (newer ++ [r])), entry.1 ≠ name := by
        intro entry hentry
        obtain ⟨part, hpart, hentry⟩ := List.mem_flatMap.mp hentry
        exact huntouched part hpart entry hentry
      rw [overlay_of_untouched hnot]
      exact overlay_parts (hconsistent.sound List.mem_cons_self).index.baselineParts hcarries hsynced _

end Assemble

/-! ## One update -/

section Update

variable {crates : Crates φ} {run : Surroundings} {source : DataSource} {original : Bool}
  {target : Release φ} {older : List (Release φ)} {dir : ImageDir φ}

/-- The version that the pointer tells. -/
def currentVersion? (dir : ImageDir φ) : Option String :=
  (dir.loadMeta.bind (get "currentVersion")).bind asStr

/-- Nothing is active, or an earlier release is. -/
def Behind (crates : Crates φ) (older : List (Release φ)) (dir : ImageDir φ) : Prop :=
  dir.activeGeneration = none ∨
    ∃ q ∈ older, priorManifest crates dir = some q.index ∧ currentVersion? dir = some q.version

theorem older_lt (hchain : (target :: older).IsChain Follows)
    (hsound : ∀ q ∈ target :: older, Sound q) : ∀ q ∈ older, q.version < target.version := by
  induction older generalizing target with
  | nil => simp
  | cons prior rest ih =>
    obtain ⟨hfollows, hrest⟩ := List.isChain_cons_cons.mp hchain
    have hprior := (hfollows.order (hsound target List.mem_cons_self).index).2
    intro q hq
    rcases List.mem_cons.mp hq with rfl | hq
    · exact hprior
    · exact (ih hrest (fun p hp => hsound p (List.mem_cons_of_mem _ hp)) q hq).trans hprior

omit [Doubles φ] in
theorem loadMeta_cleaned (run : Surroundings) (dir : ImageDir φ) : (cleaned run dir).loadMeta = dir.loadMeta := by
  rw [cleaned, loadMeta_cleanupOld]
  rfl

omit [Doubles φ] in
theorem activeGeneration_cleaned (run : Surroundings) (dir : ImageDir φ) :
    (cleaned run dir).activeGeneration = dir.activeGeneration ∨
      (cleaned run dir).activeGeneration = none := by
  rw [cleaned, activeGeneration_cleanupOld]
  exact activeGeneration_cleanupStaging dir

theorem Behind.cleaned (h : Behind crates older dir) (run : Surroundings) :
    Behind crates older (ImagesV2.cleaned run dir) := by
  rcases activeGeneration_cleaned run dir with hsame | hnone
  · rcases h with hnone | ⟨q, hq, hprior, hversion⟩
    · exact .inl (hsame.trans hnone)
    · refine .inr ⟨q, hq, ?_, ?_⟩
      · rw [priorManifest, hsame]
        exact hprior
      · rw [currentVersion?, loadMeta_cleaned]
        exact hversion
  · exact .inl hnone

theorem priorManifest_of_read {tree : Tree} {bytes : Bytes} {value : JsonValue φ}
    {index : Manifest} {view : ImagesIndex φ} (htree : dir.activeGeneration = some tree)
    (hbytes : tree "index.json" = some bytes) (hvalue : crates.fromSlice bytes = .ok value)
    (hparse : parse crates value = .ok (index, view)) : priorManifest crates dir = some index := by
  rw [priorManifest, htree, Option.bind_eq_bind, Option.bind_some, hbytes, Option.bind_eq_bind,
    Option.bind_some, hvalue, Except.toOption, Option.bind_eq_bind, Option.bind_some, hparse]
  rfl

theorem priorManifest_of_none (h : dir.activeGeneration = none) : priorManifest crates dir = none := by
  rw [priorManifest, h]
  rfl

theorem Behind.notCurrent (hconsistent : Consistent crates (target :: older))
    (h : Behind crates older dir) (keys : List String) :
    isCurrent source keys (releaseTag target.version) dir = false := by
  rcases h with hnone | ⟨q, hq, -, hversion⟩
  · rw [isCurrent, hnone]
    rfl
  · have hlt := older_lt hconsistent.follows (fun p hp => hconsistent.sound hp) q hq
    rw [currentVersion?] at hversion
    by_contra hcurrent
    rw [Bool.not_eq_false, isCurrent, Bool.and_eq_true] at hcurrent
    obtain ⟨value, hvalue, hboth⟩ := (Option.any_eq_true _ _).mp hcurrent.2
    rw [hvalue, Option.bind_some] at hversion
    have htag := of_decide_eq_true (Bool.and_eq_true_iff.mp hboth).2
    rw [hversion, releaseTag, stripPrefix_append, Option.some_inj] at htag
    exact hlt.ne htag

theorem Behind.notDowngrade (hconsistent : Consistent crates (target :: older))
    (h : Behind crates older dir) : isDowngrade crates source target.index dir = false := by
  rw [isDowngrade, Bool.and_eq_false_iff]
  right
  rcases h with hnone | ⟨q, hq, hprior, -⟩
  · rw [priorManifest_of_none hnone]
    rfl
  · have hlt := older_lt hconsistent.follows (fun p hp => hconsistent.sound hp) q hq
    rw [hprior]
    exact decide_eq_false hlt.not_gt

/-- A chain from the target goes to the baseline, or to the release after its stop. -/
theorem startChain_served (hconsistent : Consistent crates (target :: older))
    (hserved : Served crates run source (target :: older)) (stop : Option String) :
    ∃ chain newer r rest, startChain crates run source target.index stop = .ok chain ∧
      target :: older = newer ++ r :: rest ∧ Reached chain newer r ∧
      ∀ prior ∈ older, stop = some prior.version → rest.head? = some prior := by
  have hnew : Reached (Chain.new target.index) [] target := ⟨rfl, rfl, rfl⟩
  cases stop with
  | none =>
    exact ⟨Chain.new target.index, [], target, older, rfl, rfl, hnew, fun _ _ h => nomatch h⟩
  | some version =>
    have hlength : older.length ≤ run.patience := by
      have hpatience := hserved.patience
      rw [List.length_cons] at hpatience
      omega
    obtain ⟨chain, newer, r, rest, hwalk, hsplit, hreached, -, hhead, passed, hpassed, hnot⟩ :=
      walk_served hconsistent hserved (baseline_of_history hconsistent) (some version)
        (show target :: older = [] ++ target :: older from rfl) hnew hlength
    refine ⟨chain, newer, r, rest, hwalk, hsplit, hreached, ?_⟩
    intro prior hprior hstop
    have hrest : prior ∈ rest := by
      rw [hpassed] at hprior
      rcases List.mem_append.mp hprior with hin | hin
      · exact absurd hstop (hnot prior hin)
      · exact hin
    cases rest with
    | nil => cases hrest
    | cons q tail =>
      rcases List.mem_cons.mp hrest with rfl | htail
      · rfl
      · -- A later release is older, so its version is another one.
        have hq : some version = some q.version := hhead q rfl
        have hchain : (q :: tail).IsChain Follows := by
          have hwhole := hconsistent.follows
          rw [hpassed, ← List.cons_append] at hwhole
          exact hwhole.right_of_append
        have hlt := older_lt hchain (fun p hp => hconsistent.sound (by
          rw [hpassed]
          exact List.mem_cons_of_mem _ (List.mem_append_right _ hp))) prior htail
        rw [hq, Option.some_inj] at hstop
        exact absurd hstop hlt.ne'

/-- The job of a served update, with how far its chain goes. -/
theorem prepare_served (original : Bool) (hconsistent : Consistent crates (target :: older))
    (hserved : Served crates run source (target :: older)) (hbehind : Behind crates older dir) :
    ∃ job newer r rest,
      prepare crates run source original (releaseTag target.version) dir = .ok (some job) ∧
      target :: older = newer ++ r :: rest ∧ Reached job.chain newer r ∧
      ∀ prior ∈ older, job.incrementalFrom = some prior.version → rest.head? = some prior := by
  obtain ⟨chain, newer, r, rest, hchain, hsplit, hreached, hstop⟩ :=
    startChain_served hconsistent hserved
      (incrementalFrom crates source (neededShardKeys original) target.index dir)
  have hread := readIndex_served hconsistent hserved (List.mem_cons_self (a := target))
  refine ⟨⟨target.value, target.index, neededShardKeys original, expectedFiles original target.view,
    dir.activeGeneration, incrementalFrom crates source (neededShardKeys original) target.index dir,
    chain⟩, newer, r, rest, ?_, hsplit, hreached, hstop⟩
  rw [prepare, hbehind.notCurrent hconsistent, if_neg Bool.false_ne_true, hread]
  simp only [bind, Except.bind, planJob, hbehind.notDowngrade hconsistent, Bool.false_eq_true,
    if_false, hchain, Except.map, Functor.map]

/-- Every assembly over a served history succeeds. -/
theorem assemble_served (hconsistent : Consistent crates (target :: older))
    (hserved : Served crates run source (target :: older)) {job : Job φ}
    (hindex : job.index = target.index) (hkeys : job.keys = neededShardKeys original)
    (hexpected : job.expected = expectedFiles original target.view)
    {newer rest : List (Release φ)} {r : Release φ} (hsplit : target :: older = newer ++ r :: rest)
    (hreached : Reached job.chain newer r) (cache : Tree) :
    ∃ stage cache', assemble crates run source job cache = .ok (stage, cache') := by
  obtain ⟨incremental, chain, newer, r, rest, hsettle, hsplit, hreached, hkind⟩ :=
    settleChain_served (preservedFiles crates run job.expected job.active) hconsistent hserved hindex hsplit hreached
  have havailable : ∀ w ∈ workList job.index incremental chain, Available crates run source w := by
    rw [hindex]
    exact workList_available hconsistent hserved hsplit hreached
  obtain ⟨a, ha, hwritten⟩ := addParts_served job
    (preservedFiles crates run job.expected job.active) hserved.fails havailable
    ⟨cleanedCache job (preservedFiles crates run job.expected job.active)
      (workList job.index incremental chain) cache,
      copiedStage job.active (preservedFiles crates run job.expected job.active), []⟩
  have hsorted : SortedMap.Sorted job.expected := by
    rw [hexpected]
    exact SortedMap.sorted_ofEntries _
  have htargets : checkTargets job (preservedFiles crates run job.expected job.active) a.written =
      .ok () := by
    unfold checkTargets
    have hnone : (job.expected.find? fun entry =>
        entry.1 ∉ preservedFiles crates run job.expected job.active &&
          a.written.lookup entry.1 ≠ some entry.2) = none := by
      rw [List.find?_eq_none]
      rintro ⟨name, t⟩ hentry hbad
      rw [Bool.and_eq_true, decide_eq_true_eq, decide_eq_true_eq] at hbad
      apply hbad.2
      have hselected : selected job.expected
          (preservedFiles crates run job.expected job.active) name = true := by
        rw [selected, hsorted.mem_iff.mp hentry]
        simpa using hbad.1
      rw [hwritten name hselected, hkeys, hindex]
      exact workList_delivers hconsistent hsplit hreached hkind hexpected hentry hbad.1 _
    rw [hnone]
  refine ⟨a.stage, a.cache, ?_⟩
  simp only [assemble, hsettle, leaving, Except.mapError, attempt_ok hserved.fails, bind,
    Except.bind, ha, htargets, pure, Except.pure]

omit [Doubles φ] in
theorem releases_cleaned (run : Surroundings) {dir : ImageDir φ} {name : String}
    (h : dir.releases name = none) : (cleaned run dir).releases name = none := by
  have hdrop : ∀ (gone : String → Bool) (d : ImageDir φ), d.releases name = none →
      (dropReleases gone d).releases name = none := by
    intro gone d hd
    simp only [dropReleases, hd, ite_self]
  rw [cleaned, cleanupOld]
  split
  · exact hdrop _ _ h
  · exact hdrop _ _ (hdrop _ _ h)

omit [Doubles φ] in
theorem activate_served (crates : Crates φ) (source : DataSource)
    (hfails : ∀ place, run.fails place = none) (job : Job φ) (stage : Tree) (hfree : dir.releases (entryName run) = none) :
    ∃ dir', activate crates run source job stage dir = .ok dir' := by
  refine ⟨{ dir with
    pointer := some (rootMeta run source job.index job.keys)
    releases := pruneOldTrees run (entryName run) (Function.update dir.releases (entryName run)
      (some (completed crates source job.value job.index job.keys stage)))
    cache := .empty }, ?_⟩
  simp only [activate, attempt_ok hfails, bind, Except.bind, hfree, Option.isSome_none,
    Bool.false_eq_true, if_false, pure, Except.pure]

/-- The sync to a served release succeeds, and the files that it activates are those of the index. -/
theorem runSelected_served (original : Bool) (hconsistent : Consistent crates (target :: older))
    (hserved : Served crates run source (target :: older)) (hbehind : Behind crates older dir)
    (hfree : dir.releases (entryName run) = none) :
    ∃ tree, (runSelected crates run source original (releaseTag target.version) dir).1 =
        .ok ⟨.updated, some target.version, none⟩ ∧
      (runSelected crates run source original (releaseTag target.version) dir).2.activeGeneration =
        some tree ∧
      ∀ name, (tree name).map (fingerprint crates) =
        ((generatedFile crates source original target.value target.index name).map
          (fingerprint crates)).or ((expectedFiles original target.view).lookup name) := by
  obtain ⟨job, newer, r, rest, hprepare, hsplit, hreached, -⟩ :=
    prepare_served original hconsistent hserved (hbehind.cleaned run)
  obtain ⟨view, hjob⟩ := prepare_job hprepare
  have hread := readIndex_served hconsistent hserved (List.mem_cons_self (a := target))
  rw [hjob.indexed, Except.ok.injEq, Prod.mk.injEq, Prod.mk.injEq] at hread
  obtain ⟨hvalue, hindex, rfl⟩ := hread
  obtain ⟨stage, cache, hassemble⟩ := assemble_served hconsistent hserved hindex hjob.keys
    hjob.expected hsplit hreached (cleaned run dir).cache
  obtain ⟨dir', hactivate⟩ := activate_served crates source hserved.fails job stage
    (show ((cleaned run dir).withCache cache).releases (entryName run) = none from
      releases_cleaned run hfree)
  have hrun : runSelected crates run source original (releaseTag target.version) dir =
      (.ok ⟨.updated, some target.version, none⟩, dir') := by
    simp only [runSelected, attempt_ok hserved.fails, Except.bind, hprepare, build, hassemble,
      hactivate, hindex]
    rfl
  obtain ⟨tree, htree, hfiles⟩ := published_files hjob hassemble hactivate
  rw [hvalue, hindex] at hfiles
  exact ⟨tree, by rw [hrun], by rw [hrun]; exact htree, hfiles⟩

/-- The active generation is of an earlier release of the history and was synced from this source
with these groups. -/
structure ActiveRelease (crates : Crates φ) (source : DataSource) (original : Bool)
    (prior : Release φ) (dir : ImageDir φ) : Prop where
  manifest : priorManifest crates dir = some prior.index
  version : currentVersion? dir = some prior.version
  source : sameSource source dir = true
  groups : sameGroups (neededShardKeys original) dir = true

theorem ActiveRelease.incrementalFrom {prior : Release φ}
    (hconsistent : Consistent crates (target :: older)) (hprior : prior ∈ older)
    (h : ActiveRelease crates source original prior dir) :
    ImagesV2.incrementalFrom crates source (neededShardKeys original) target.index dir =
      some prior.version := by
  obtain ⟨hversion, hparts⟩ := one_baseline hconsistent.follows prior hprior
  have hlt : prior.index.currentVersion < target.index.currentVersion :=
    older_lt hconsistent.follows (fun p hp => hconsistent.sound hp) prior hprior
  rw [ImagesV2.incrementalFrom, h.manifest, Option.filter_some, h.source, h.groups, hversion, hparts]
  simp [hlt, Release.version]

/-- A layer that sets a name is a part of the groups that carries it. -/
theorem carried_of_overlay {keys : List String} {parts : List Part} {name : String} {t : Target}
    (h : overlayAll (fun _ => none) (parts.map (partLayer keys)) name = some t) :
    ∃ part ∈ parts, part.group ∈ keys ∧ name ∈ part.members.map Prod.fst := by
  by_contra hnot
  have hnone : overlayAll (fun _ => none) (parts.map (partLayer keys)) name = none := by
    apply overlayAll_of_untouched
    intro layer hlayer
    obtain ⟨part, hpart, rfl⟩ := List.mem_map.mp hlayer
    unfold partLayer
    split
    · next hkey =>
      rw [Option.map_eq_none_iff, List.lookup_eq_none_iff]
      intro entry hentry
      apply bne_iff_ne.mpr
      rintro rfl
      exact hnot ⟨part, hpart, hkey, List.mem_map.mpr ⟨entry, hentry, rfl⟩⟩
    · rfl
  rw [hnone] at h
  cases h

/-- A file of the target is carried by the deltas since an earlier release, or is one of its. -/
theorem produced_or_declared {keys : List String}
    (hconsistent : Consistent crates (target :: older)) {newer rest : List (Release φ)}
    {r prior : Release φ} (hsplit : target :: older = newer ++ r :: rest)
    (hrest : rest.head? = some prior) {name group : String} {t : Target} (hgroup : group ∈ keys)
    (hdeclares : Declares target.view name group t) :
    (∃ part ∈ deltaParts (newer ++ [r]), part.group ∈ keys ∧ name ∈ part.members.map Prod.fst) ∨
      Declares prior.view name group t := by
  rcases delivered_since hconsistent hsplit hgroup hdeclares (fun _ => none) with hdone |
    ⟨huntouched, hr⟩
  · exact .inl (carried_of_overlay hdone)
  · right
    obtain ⟨tail, rfl⟩ := List.head?_eq_some_iff.mp hrest
    have hfollows : Follows r prior := by
      have hchain := hconsistent.follows
      rw [hsplit, List.isChain_append_cons_cons] at hchain
      exact hchain.2.1
    rcases hfollows.changed _ _ _ hr with hprior | ⟨member, hmember, -⟩
    · exact hprior
    · obtain ⟨part, hpart, hentry⟩ := List.mem_flatMap.mp hmember
      have hin : part ∈ deltaParts (newer ++ [r]) := mem_deltaParts.mpr ⟨r, by simp, hpart⟩
      exact absurd rfl (huntouched part hin _ hentry)

/-- From a complete earlier release the deltas suffice. -/
theorem isIncremental_of_complete (hconsistent : Consistent crates (target :: older))
    (hserved : Served crates run source (target :: older)) {prior : Release φ}
    (hprior : prior ∈ older) (hactive : ActiveRelease crates source original prior dir) {tree : Tree}
    (htree : dir.activeGeneration = some tree)
    (hholds : ∀ v ∈ prior.view.variants, Synced original v → Holds crates tree v.2.2) :
    ∃ job, prepare crates run source original (releaseTag target.version) dir = .ok (some job) ∧
      isIncremental job (preservedFiles crates run job.expected job.active) = true := by
  obtain ⟨job, newer, r, rest, hprepare, hsplit, hreached, hstop⟩ := prepare_served original hconsistent
    hserved (.inr ⟨prior, hprior, hactive.manifest, hactive.version⟩)
  obtain ⟨view, hjob⟩ := prepare_job hprepare
  have hread := readIndex_served hconsistent hserved (List.mem_cons_self (a := target))
  rw [hjob.indexed, Except.ok.injEq, Prod.mk.injEq, Prod.mk.injEq] at hread
  obtain ⟨-, hindex, rfl⟩ := hread
  have hfrom : job.incrementalFrom = some prior.version := by
    rw [hjob.stop, hjob.keys, hindex]
    exact hactive.incrementalFrom hconsistent hprior
  refine ⟨job, hprepare, ?_⟩
  rw [isIncremental, hfrom, Option.isSome_some, Bool.true_and, List.all_eq_true]
  rintro ⟨name, t⟩ hentry
  rw [Bool.or_eq_true, decide_eq_true_eq, decide_eq_true_eq]
  have hlookup : (expectedFiles original target.view).lookup name = some t := by
    rw [hjob.expected] at hentry
    exact (SortedMap.sorted_ofEntries _).mem_iff.mp hentry
  obtain ⟨v, hv, hsynced, hfile, htarget⟩ :=
    variant_of_expected (hconsistent.sound List.mem_cons_self).view hlookup
  rcases produced_or_declared hconsistent hsplit (hstop prior hprior hfrom) hsynced
    ⟨v, hv, hfile, rfl, htarget⟩ with ⟨part, hpart, hkey, hin⟩ | ⟨u, hu, hname, hgroup, hprint⟩
  · right
    obtain ⟨q, hq, hpart⟩ := mem_deltaParts.mp hpart
    refine List.mem_flatMap.mpr ⟨part, List.mem_filter.mpr ⟨?_, ?_⟩, hin⟩
    · rw [hreached.deltas]
      exact List.mem_flatMap.mpr ⟨q.delta, List.mem_map.mpr ⟨q, hq, rfl⟩, hpart⟩
    · rw [hjob.keys]
      exact decide_eq_true hkey
  · left
    have hheld : Holds crates tree u.2.2 := by
      apply hholds u hu
      rw [Synced, hgroup]
      exact hsynced
    rw [Holds, hname, hprint] at hheld
    obtain ⟨bytes, hbytes, hsame⟩ := Option.map_eq_some_iff.mp hheld
    refine List.mem_map.mpr ⟨(name, t), List.mem_filter.mpr ⟨hentry, ?_⟩, rfl⟩
    rw [hjob.active, htree, Option.any_some, hserved.fails, checked, hbytes]
    simp [hsame]

/-- The sync from an earlier release and the sync into a directory without one activate the same
names with the same lengths and digests. The first takes the deltas since the earlier release, unless
files of it are missing, and the second rebuilds from the baseline. -/
theorem incremental_eq_rebuild (crates : Crates φ) (source : DataSource) (original : Bool)
    (hconsistent : Consistent crates (target :: older)) {run run' : Surroundings}
    (hserved : Served crates run source (target :: older))
    (hserved' : Served crates run' source (target :: older)) {dir dir' : ImageDir φ}
    {prior : Release φ} (hprior : prior ∈ older)
    (hactive : ActiveRelease crates source original prior (cleaned run dir))
    (hempty : dir'.activeGeneration = none) (hfree : dir.releases (entryName run) = none)
    (hfree' : dir'.releases (entryName run') = none) :
    incrementalFrom crates source (neededShardKeys original) target.index (cleaned run dir) =
        some prior.version ∧
      incrementalFrom crates source (neededShardKeys original) target.index (cleaned run' dir') =
        none ∧
      (∀ tree, (cleaned run dir).activeGeneration = some tree →
        (∀ v ∈ prior.view.variants, Synced original v → Holds crates tree v.2.2) →
        ∃ job, prepare crates run source original (releaseTag target.version) (cleaned run dir) =
            .ok (some job) ∧
          isIncremental job (preservedFiles crates run job.expected job.active) = true) ∧
      ∃ tree tree',
        (runSelected crates run source original (releaseTag target.version) dir).1 =
          .ok ⟨.updated, some target.version, none⟩ ∧
        (runSelected crates run' source original (releaseTag target.version) dir').1 =
          .ok ⟨.updated, some target.version, none⟩ ∧
        (runSelected crates run source original (releaseTag target.version) dir).2.activeGeneration =
          some tree ∧
        (runSelected crates run' source original (releaseTag target.version)
          dir').2.activeGeneration = some tree' ∧
        ∀ name, (tree name).map (fingerprint crates) = (tree' name).map (fingerprint crates) := by
  have hnone : (cleaned run' dir').activeGeneration = none := by
    rcases activeGeneration_cleaned run' dir' with hsame | hgone
    · exact hsame.trans hempty
    · exact hgone
  have hbehind : Behind crates older dir := by
    rcases activeGeneration_cleaned run dir with hsame | hgone
    · refine .inr ⟨prior, hprior, ?_, ?_⟩
      · rw [priorManifest, ← hsame]
        exact hactive.manifest
      · rw [currentVersion?, ← loadMeta_cleaned run]
        exact hactive.version
    · have hmanifest := hactive.manifest
      rw [priorManifest_of_none hgone] at hmanifest
      cases hmanifest
  obtain ⟨tree, hupdated, htree, hfiles⟩ :=
    runSelected_served original hconsistent hserved hbehind hfree
  obtain ⟨tree', hupdated', htree', hfiles'⟩ :=
    runSelected_served original hconsistent hserved' (.inl hempty) hfree'
  refine ⟨hactive.incrementalFrom hconsistent hprior, ?_, ?_, tree, tree', hupdated, hupdated', htree,
    htree', ?_⟩
  · rw [incrementalFrom, priorManifest_of_none hnone]
    rfl
  · exact fun old hold hholds =>
      isIncremental_of_complete hconsistent hserved hprior hactive hold hholds
  · intro name
    rw [hfiles, hfiles']

end Update

/-! ## A history of two releases -/

section TwoReleases

/-- A part of one image. -/
structure OneImage where
  file : String
  name : String
  image : Bytes
  imageDigest : String
  archive : Bytes
  archiveDigest : String

def imageA : OneImage where
  file := "p.zip"
  name := "a.png"
  image := [137, 80, 78, 71]
  imageDigest := "0f4636c78f65d3639ece5a064b5ae753e3408614a14fb18ab4d7540d2c248543"
  archiveDigest := "99ffdb3bf563a63f7ea57c67809b969902a347bf9f32aa655805285a9e49e011"
  archive :=
    [80, 75, 3, 4, 20, 0, 0, 0, 0, 0, 0, 0, 33, 0, 165, 190, 235, 91, 4, 0, 0, 0, 4, 0, 0, 0, 5, 0,
     0, 0, 97, 46, 112, 110, 103, 137, 80, 78, 71, 80, 75, 1, 2, 20, 3, 20, 0, 0, 0, 0, 0, 0, 0, 33,
     0, 165, 190, 235, 91, 4, 0, 0, 0, 4, 0, 0, 0, 5, 0, 0, 0, 0, 0, 0, 0, 0, 0, 0, 0, 128, 1, 0, 0,
     0, 0, 97, 46, 112, 110, 103, 80, 75, 5, 6, 0, 0, 0, 0, 1, 0, 1, 0, 51, 0, 0, 0, 39, 0, 0, 0, 0,
     0]

def imageB : OneImage where
  file := "d.zip"
  name := "b.png"
  image := [137, 80, 78, 71, 1]
  imageDigest := "871923f8e5535ef938edc1ea710d5cf9e18637ce5d39feccef23030823993e4e"
  archiveDigest := "8024fb677b7bb63207f6bd02b3902af289cdf9ffd977b7a676b0c38adf540fa1"
  archive :=
    [80, 75, 3, 4, 20, 0, 0, 0, 0, 0, 0, 0, 33, 0, 194, 99, 226, 3, 5, 0, 0, 0, 5, 0, 0, 0, 5, 0, 0,
     0, 98, 46, 112, 110, 103, 137, 80, 78, 71, 1, 80, 75, 1, 2, 20, 3, 20, 0, 0, 0, 0, 0, 0, 0, 33,
     0, 194, 99, 226, 3, 5, 0, 0, 0, 5, 0, 0, 0, 5, 0, 0, 0, 0, 0, 0, 0, 0, 0, 0, 0, 128, 1, 0, 0,
     0, 0, 98, 46, 112, 110, 103, 80, 75, 5, 6, 0, 0, 0, 0, 1, 0, 1, 0, 51, 0, 0, 0, 40, 0, 0, 0, 0,
     0]

def lengthValue (bytes : Bytes) : JsonValue UInt64 := .number (.posInt bytes.length.toUInt64)

def OneImage.partValue (x : OneImage) : JsonValue UInt64 :=
  .object [("file", .string x.file), ("bytes", lengthValue x.archive),
    ("sha256", .string x.archiveDigest), ("group", .string "chararts-large"),
    ("members", .object [(x.name, .object [("bytes", lengthValue x.image),
      ("sha256", .string x.imageDigest), ("group", .string "chararts-large")])])]

def OneImage.artworkValue (x : OneImage) : JsonValue UInt64 :=
  .object [("shard", .string "chararts"), ("large", .object [("file", .string x.name),
    ("w", .number (.posInt 1)), ("h", .number (.posInt 1)), ("bytes", lengthValue x.image),
    ("sha256", .string x.imageDigest)])]

def OneImage.part (x : OneImage) : Part :=
  ⟨x.file, x.archive.length.toUInt64, x.archiveDigest, "chararts-large",
    [(x.name, ⟨x.image.length.toUInt64, x.imageDigest, "chararts-large"⟩)]⟩

def firstIndex : JsonValue UInt64 :=
  .object [("schemaVersion", .string "akdp-images/v2"), ("baselineVersion", .string "26-01"),
    ("currentVersion", .string "26-01"), ("previousVersion", .null),
    ("baselineParts", .array [imageA.partValue]), ("deltaParts", .array []),
    ("artworks", .object [("char_a", imageA.artworkValue)])]

def secondIndex : JsonValue UInt64 :=
  .object [("schemaVersion", .string "akdp-images/v2"), ("baselineVersion", .string "26-01"),
    ("currentVersion", .string "26-02"), ("previousVersion", .string "26-01"),
    ("baselineParts", .array [imageA.partValue]), ("deltaParts", .array [imageB.partValue]),
    ("artworks", .object [("char_a", imageA.artworkValue), ("char_b", imageB.artworkValue)])]

def historyDigests : List (Bytes × String) :=
  [(imageA.image, imageA.imageDigest), (imageA.archive, imageA.archiveDigest),
    (imageB.image, imageB.imageDigest), (imageB.archive, imageB.archiveDigest),
    (compactText firstIndex, "4c6472d6917fb50fcb823bdfdb79fea84e6747ed0535f68687c01a72e070aa42"),
    (compactText secondIndex, "5f05c8074eb3e417ad762d29ae4a1a976bd4d4689ac124fbd1088800f60e857c")]

def historyCrates : Crates UInt64 :=
  recordedCrates historyDigests [firstIndex, secondIndex]
    [(imageA.archive, [⟨imageA.name, false, imageA.image, none⟩]),
      (imageB.archive, [⟨imageB.name, false, imageB.image, none⟩])]

def indexedRelease (value : JsonValue UInt64) : Option (Release UInt64) :=
  (parse historyCrates value).toOption.map fun read => ⟨value, read.1, read.2⟩

theorem parse_indexedRelease {value : JsonValue UInt64} {r : Release UInt64}
    (h : indexedRelease value = some r) : parse historyCrates r.value = .ok (r.index, r.view) := by
  obtain ⟨read, hread, rfl⟩ := Option.map_eq_some_iff.mp h
  cases hparse : parse historyCrates value with
  | error message =>
    rw [hparse] at hread
    cases hread
  | ok pair =>
    rw [hparse] at hread
    cases hread
    rfl

def declaredFiles (view : ImagesIndex UInt64) : List (String × String × Target) :=
  view.variants.map fun v => (v.2.2.file, groupName v.1.shard v.2.1, variantTarget v.2.2)

def carriedFiles (parts : List Part) : List (String × String × Target) :=
  (partMembers parts).map fun entry => (entry.1, entry.2.group, memberTarget entry.2)

def historyIndexes (url : String) : Except String Bytes :=
  if url = downloadUrl .default "images2-26-01" "index.json" then .ok (compactText firstIndex)
  else .ok (compactText secondIndex)

def historyParts (url : String) : Except String Bytes :=
  if url = downloadUrl .default "images2-baseline-26-01" "p.zip" then .ok imageA.archive
  else .ok imageB.archive

def historyRun (suffix : String) : Surroundings :=
  ⟨historyIndexes, fun url _ => historyParts url, fun _ => none, fun _ => false, fun _ => false, suffix, 2⟩

/-- The first release is active. -/
def firstTree : Tree := fun name =>
  if name = "index.json" then some (compactText firstIndex)
  else if name = "a.png" then some imageA.image
  else none

def firstDir : ImageDir UInt64 where
  pointer := some (rootMeta (historyRun "0") .default ⟨schema, "26-01", "26-01", none, [], []⟩
    (neededShardKeys false))
  releases name := if name = "v2-0" then some firstTree else none
  elsewhere _ := none
  cache := .empty

/-- What the crates answer on one image. -/
structure RecordedImage (x : OneImage) : Prop where
  digested : x.archiveDigest ≠ ""
  unzipped : historyCrates.unzip x.archive = .ok [.ok ⟨x.name, false, x.image, none⟩]
  image : fingerprint historyCrates x.image =
    memberTarget ⟨x.image.length.toUInt64, x.imageDigest, "chararts-large"⟩
  archive : fingerprint historyCrates x.archive = partTarget x.part

/-- What the two releases compute to. -/
structure RecordedHistory : Prop where
  first : ∃ r ∈ indexedRelease firstIndex, r.index.currentVersion = "26-01" ∧
    r.index.baselineVersion = "26-01" ∧ r.index.baselineParts = [imageA.part] ∧
    r.index.deltaParts = [] ∧ declaredFiles r.view = carriedFiles [imageA.part]
  second : ∃ r ∈ indexedRelease secondIndex, r.index.currentVersion = "26-02" ∧
    r.index.baselineVersion = "26-01" ∧ r.index.previousVersion = some "26-01" ∧
    r.index.baselineParts = [imageA.part] ∧ r.index.deltaParts = [imageB.part] ∧
    declaredFiles r.view = carriedFiles [imageA.part, imageB.part]
  texts : compactText firstIndex ≠ compactText secondIndex
  digests : (historyDigests.map Prod.snd).Nodup
  imageA : RecordedImage imageA
  imageB : RecordedImage imageB
  firstUrl : downloadUrl .default (releaseTag "26-01") "index.json" =
    downloadUrl .default "images2-26-01" "index.json"
  secondUrl : downloadUrl .default (releaseTag "26-02") "index.json" ≠
    downloadUrl .default "images2-26-01" "index.json"
  baseline : historyParts (downloadUrl .default (baselineTag "26-01") PrtsMcp.ImagesV2.imageA.part.file) =
    .ok PrtsMcp.ImagesV2.imageA.archive
  delta : historyParts (downloadUrl .default (releaseTag "26-02") PrtsMcp.ImagesV2.imageB.part.file) =
    .ok PrtsMcp.ImagesV2.imageB.archive
  root : firstDir.generationRoot = some (".releases/" ++ "v2-0")
  staging : isStaging "v2-0" = false
  version : (firstDir.loadMeta.bind (get "currentVersion")).bind asStr = some "26-01"
  source : sameSource .default firstDir = true
  groups : sameGroups (neededShardKeys false) firstDir = true
  free : firstDir.releases (entryName (historyRun "1")) = none

theorem recordedHistory : RecordedHistory where
  first := by decide +kernel
  second := by decide +kernel
  texts := by decide +kernel
  digests := by decide +kernel
  imageA := ⟨by decide +kernel, by decide +kernel, by decide +kernel, by decide +kernel⟩
  imageB := ⟨by decide +kernel, by decide +kernel, by decide +kernel, by decide +kernel⟩
  firstUrl := by decide +kernel
  secondUrl := by decide +kernel
  baseline := by decide +kernel
  delta := by decide +kernel
  root := by decide +kernel
  staging := by decide +kernel
  version := by decide +kernel
  source := by decide +kernel
  groups := by decide +kernel
  free := by decide +kernel

theorem carriedFiles_cons (part : Part) (parts : List Part) :
    carriedFiles (part :: parts) = carriedFiles [part] ++ carriedFiles parts := by
  simp only [carriedFiles, partMembers, List.flatMap_cons, List.flatMap_nil, List.append_nil,
    List.map_append]

theorem declares_iff {view : ImagesIndex UInt64} {name group : String} {target : Target} :
    Declares view name group target ↔ (name, group, target) ∈ declaredFiles view := by
  simp only [Declares, declaredFiles, List.mem_map, Prod.mk.injEq]

theorem carries_iff {parts : List Part} {name group : String} {target : Target} :
    Carries parts name group target ↔ (name, group, target) ∈ carriedFiles parts := by
  simp only [Carries, carriedFiles, List.mem_map, Prod.mk.injEq]
  constructor
  · rintro ⟨member, hmember, rfl, rfl⟩
    exact ⟨_, hmember, rfl, rfl, rfl⟩
  · rintro ⟨⟨name, member⟩, hmember, rfl, rfl, rfl⟩
    exact ⟨member, hmember, rfl, rfl⟩

theorem value_indexedRelease {value : JsonValue UInt64} {r : Release UInt64}
    (h : indexedRelease value = some r) : r.value = value := by
  obtain ⟨read, -, rfl⟩ := Option.map_eq_some_iff.mp h
  rfl

noncomputable def firstRelease : Release UInt64 := recordedHistory.first.choose

theorem firstRelease_value : firstRelease.value = firstIndex :=
  value_indexedRelease recordedHistory.first.choose_spec.1

theorem firstRelease_parsed :
    parse historyCrates firstRelease.value = .ok (firstRelease.index, firstRelease.view) :=
  parse_indexedRelease recordedHistory.first.choose_spec.1

theorem firstRelease_facts : firstRelease.index.currentVersion = "26-01" ∧
    firstRelease.index.baselineVersion = "26-01" ∧
    firstRelease.index.baselineParts = [imageA.part] ∧ firstRelease.index.deltaParts = [] ∧
    declaredFiles firstRelease.view = carriedFiles [imageA.part] :=
  recordedHistory.first.choose_spec.2

noncomputable def secondRelease : Release UInt64 := recordedHistory.second.choose

theorem secondRelease_value : secondRelease.value = secondIndex :=
  value_indexedRelease recordedHistory.second.choose_spec.1

theorem secondRelease_parsed :
    parse historyCrates secondRelease.value = .ok (secondRelease.index, secondRelease.view) :=
  parse_indexedRelease recordedHistory.second.choose_spec.1

theorem secondRelease_facts : secondRelease.index.currentVersion = "26-02" ∧
    secondRelease.index.baselineVersion = "26-01" ∧
    secondRelease.index.previousVersion = some "26-01" ∧
    secondRelease.index.baselineParts = [imageA.part] ∧
    secondRelease.index.deltaParts = [imageB.part] ∧
    declaredFiles secondRelease.view = carriedFiles [imageA.part, imageB.part] :=
  recordedHistory.second.choose_spec.2

theorem twoReleases_follows : Follows secondRelease firstRelease := by
  obtain ⟨hversion, hbaseline, hparts, hdelta, hfiles⟩ := firstRelease_facts
  obtain ⟨hversion', hbaseline', hprevious, hparts', hdelta', hfiles'⟩ := secondRelease_facts
  refine ⟨by rw [hprevious, Release.version, hversion], by rw [hbaseline', hbaseline],
    by rw [hparts', hparts], ?_⟩
  intro name group target hdeclares
  rw [declares_iff, hfiles', carriedFiles_cons, List.mem_append] at hdeclares
  rwa [declares_iff, carries_iff, hfiles, hdelta']

/-- Only one recorded archive has the digest of a part. -/
theorem historyCrates_archive {x : OneImage} (hx : (x.archive, x.archiveDigest) ∈ historyDigests)
    (hrecorded : RecordedImage x) {archive : Bytes}
    (h : fingerprint historyCrates archive = partTarget x.part) : archive = x.archive := by
  have hdigest : (historyDigests.lookup archive).getD "" = x.archiveDigest := congrArg Prod.snd h
  have hmem : (archive, x.archiveDigest) ∈ historyDigests := by
    cases hlookup : historyDigests.lookup archive with
    | none =>
      rw [hlookup] at hdigest
      exact absurd hdigest.symm hrecorded.digested
    | some digest =>
      rw [hlookup, Option.getD_some] at hdigest
      obtain ⟨before, after, hsplit, -⟩ := List.lookup_eq_some_iff.mp hlookup
      rw [hsplit, hdigest]
      simp
  exact congrArg Prod.fst (List.inj_on_of_nodup_map recordedHistory.digests hmem hx rfl)

theorem unpacks_historyCrates {x : OneImage} (hx : (x.archive, x.archiveDigest) ∈ historyDigests)
    (hrecorded : RecordedImage x) {archive : Bytes}
    (h : fingerprint historyCrates archive = partTarget x.part) :
    Unpacks historyCrates x.part archive := by
  rw [historyCrates_archive hx hrecorded h]
  refine ⟨[⟨x.name, false, x.image, none⟩], hrecorded.unzipped, List.Perm.refl _, ?_⟩
  intro entry hentry
  cases List.mem_singleton.mp hentry
  exact ⟨rfl, _, List.lookup_cons_self, hrecorded.image⟩

theorem twoReleases_archives {part : Part} (hpart : part ∈ [imageA.part, imageB.part])
    {archive : Bytes} (h : fingerprint historyCrates archive = partTarget part) :
    Unpacks historyCrates part archive := by
  rcases List.mem_pair.mp hpart with rfl | rfl
  · have hmem : (imageA.archive, imageA.archiveDigest) ∈ historyDigests :=
      List.mem_cons_of_mem _ List.mem_cons_self
    exact unpacks_historyCrates hmem recordedHistory.imageA h
  · have hmem : (imageB.archive, imageB.archiveDigest) ∈ historyDigests :=
      List.mem_cons_of_mem _ (List.mem_cons_of_mem _ (List.mem_cons_of_mem _ List.mem_cons_self))
    exact unpacks_historyCrates hmem recordedHistory.imageB h

theorem firstRelease_founds : Founds firstRelease := by
  obtain ⟨hversion, hbaseline, hparts, -, hfiles⟩ := firstRelease_facts
  refine ⟨by rw [Release.version, hversion, hbaseline], ?_⟩
  intro name group target hdeclares
  rwa [carries_iff, hparts, ← hfiles, ← declares_iff]

theorem twoReleases_own {r : Release UInt64} (hr : r ∈ [secondRelease, firstRelease]) :
    ∀ entry ∈ partMembers r.index.deltaParts,
      Declares r.view entry.1 entry.2.group (memberTarget entry.2) := by
  obtain ⟨-, -, -, hdelta, -⟩ := firstRelease_facts
  obtain ⟨-, -, -, -, hdelta', hfiles'⟩ := secondRelease_facts
  intro entry hentry
  rcases List.mem_pair.mp hr with h | h
  · rw [h, hdelta'] at hentry
    rw [h, declares_iff, hfiles', carriedFiles_cons, List.mem_append]
    exact .inr (List.mem_map_of_mem hentry)
  · rw [h, hdelta] at hentry
    cases hentry

theorem twoReleases_parts {r : Release UInt64} (hr : r ∈ [secondRelease, firstRelease]) :
    ∀ part ∈ r.index.baselineParts ++ r.index.deltaParts, part ∈ [imageA.part, imageB.part] := by
  obtain ⟨-, -, hparts, hdelta, -⟩ := firstRelease_facts
  obtain ⟨-, -, -, hparts', hdelta', -⟩ := secondRelease_facts
  intro part hpart
  rcases List.mem_pair.mp hr with h | h
  · rwa [h, hparts', hdelta'] at hpart
  · rw [h, hparts, hdelta] at hpart
    exact List.mem_append_left [imageB.part] hpart

theorem twoReleases_consistent : Consistent historyCrates [secondRelease, firstRelease] := by
  refine ⟨?_, List.isChain_pair.mpr twoReleases_follows, ?_, ?_, ?_⟩
  · intro r hr
    rcases List.mem_pair.mp hr with h | h
    · rw [h]
      exact secondRelease_parsed
    · rw [h]
      exact firstRelease_parsed
  · intro r hr
    have hlast : [secondRelease, firstRelease].getLast? = some firstRelease := rfl
    rw [hlast, Option.some_inj] at hr
    rw [← hr]
    exact firstRelease_founds
  · exact fun r hr => twoReleases_own hr
  · exact fun r hr part hpart archive hprint =>
      twoReleases_archives (twoReleases_parts hr part hpart) hprint

theorem historyIndexes_first :
    historyIndexes (downloadUrl .default (releaseTag "26-01") "index.json") =
      .ok (compactText firstIndex) := by
  rw [historyIndexes, if_pos recordedHistory.firstUrl]

theorem historyIndexes_second :
    historyIndexes (downloadUrl .default (releaseTag "26-02") "index.json") =
      .ok (compactText secondIndex) := by
  rw [historyIndexes, if_neg recordedHistory.secondUrl]

theorem fromSlice_historyCrates {bytes : Bytes} {value : JsonValue UInt64}
    (h : [firstIndex, secondIndex].find? (fun value => compactText value = bytes) = some value) :
    historyCrates.fromSlice bytes = .ok value := by
  unfold historyCrates recordedCrates
  dsimp only
  rw [h, okOr]

theorem fromSlice_first : historyCrates.fromSlice (compactText firstIndex) = .ok firstRelease.value := by
  rw [firstRelease_value]
  exact fromSlice_historyCrates (List.find?_cons_of_pos (decide_eq_true rfl))

theorem fromSlice_second :
    historyCrates.fromSlice (compactText secondIndex) = .ok secondRelease.value := by
  rw [secondRelease_value]
  apply fromSlice_historyCrates
  rw [List.find?_cons_of_neg (by simpa using recordedHistory.texts)]
  exact List.find?_cons_of_pos (decide_eq_true rfl)

theorem twoReleases_served (suffix : String) :
    Served historyCrates (historyRun suffix) .default [secondRelease, firstRelease] := by
  obtain ⟨hversion, hbaseline, hparts, hdelta, -⟩ := firstRelease_facts
  obtain ⟨hversion', hbaseline', -, hparts', hdelta', -⟩ := secondRelease_facts
  have hserves : ServesPart historyCrates (historyRun suffix) .default (baselineTag "26-01")
      imageA.part := ⟨imageA.archive, recordedHistory.baseline, recordedHistory.imageA.archive⟩
  refine ⟨fun _ => rfl, le_refl _, ?_, ?_, ?_⟩
  · intro r hr
    rcases List.mem_pair.mp hr with h | h
    · rw [h, Release.version, hversion']
      exact ⟨_, historyIndexes_second, fromSlice_second⟩
    · rw [h, Release.version, hversion]
      exact ⟨_, historyIndexes_first, fromSlice_first⟩
  · intro r hr part hpart
    rcases List.mem_pair.mp hr with h | h
    · rw [h, hparts'] at hpart
      rw [h, hbaseline', List.mem_singleton.mp hpart]
      exact hserves
    · rw [h, hparts] at hpart
      rw [h, hbaseline, List.mem_singleton.mp hpart]
      exact hserves
  · intro r hr part hpart
    rcases List.mem_pair.mp hr with h | h
    · rw [h, hdelta'] at hpart
      rw [h, Release.version, hversion', List.mem_singleton.mp hpart]
      exact ⟨imageB.archive, recordedHistory.delta, recordedHistory.imageB.archive⟩
    · rw [h, hdelta] at hpart
      cases hpart

theorem firstTree_index : firstTree "index.json" = some (compactText firstIndex) := if_pos rfl

theorem activeGeneration_firstDir : firstDir.activeGeneration = some firstTree := by
  have hentry : firstDir.releases "v2-0" = some firstTree := by
    unfold firstDir
    dsimp only
    rw [if_pos rfl]
  have htree : firstDir.dir? (".releases/" ++ "v2-0") = some firstTree := by
    rw [ImageDir.dir?, stripPrefix_append]
    exact hentry
  have hindex : (firstTree "index.json").isSome = true := by rw [firstTree_index, Option.isSome_some]
  rw [ImageDir.activeGeneration, recordedHistory.root, Option.bind_some, htree, Option.filter_some,
    if_pos hindex]

theorem activeGeneration_cleaned_firstDir :
    (cleaned (historyRun "1") firstDir).activeGeneration = some firstTree := by
  have hstaging : (cleanupStaging firstDir).activeGeneration = firstDir.activeGeneration := by
    apply activeGeneration_of_stays
    intro name hname
    rw [recordedHistory.root, Option.bind_some, stripPrefix_append] at hname
    rw [← Option.some_inj.mp hname]
    exact recordedHistory.staging
  rw [cleaned, activeGeneration_cleanupOld, hstaging, activeGeneration_firstDir]

theorem firstDir_active :
    ActiveRelease historyCrates .default false firstRelease (cleaned (historyRun "1") firstDir) := by
  refine ⟨?_, ?_, ?_, ?_⟩
  · exact priorManifest_of_read activeGeneration_cleaned_firstDir firstTree_index fromSlice_first
      firstRelease_parsed
  · rw [Release.version, firstRelease_facts.1, currentVersion?, loadMeta_cleaned]
    exact recordedHistory.version
  · rw [sameSource, sourceRepo?, loadMeta_cleaned]
    exact recordedHistory.source
  · rw [sameGroups, loadMeta_cleaned]
    exact recordedHistory.groups

/-- Both ways of installing the second release. -/
theorem incremental_eq_rebuild_twoReleases :
    ∃ tree tree',
      (runSelected historyCrates (historyRun "1") .default false (releaseTag secondRelease.version)
        firstDir).2.activeGeneration = some tree ∧
      (runSelected historyCrates (historyRun "2") .default false (releaseTag secondRelease.version)
        emptyDir).2.activeGeneration = some tree' ∧
      ∀ name, (tree name).map (fingerprint historyCrates) =
        (tree' name).map (fingerprint historyCrates) := by
  obtain ⟨-, -, -, tree, tree', -, -, htree, htree', hfiles⟩ :=
    incremental_eq_rebuild historyCrates .default false twoReleases_consistent
      (twoReleases_served "1") (twoReleases_served "2") (List.mem_singleton.mpr rfl) firstDir_active
      (show emptyDir.activeGeneration = none from rfl) recordedHistory.free rfl
  exact ⟨tree, tree', htree, htree', hfiles⟩

end TwoReleases

end PrtsMcp.ImagesV2
