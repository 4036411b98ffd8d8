import PrtsMcp.ImageManifest
import PrtsMcp.Overlays
import PrtsMcp.Paths
import PrtsMcp.SyncTypes

/-!
# Safe extraction of a zip

`safe_extract_zip` writes every member to a sibling temporary file and renames it into place. Which
steps the file system refuses, also because a file or a directory stands in the way, is up to the
environment.
-/
namespace PrtsMcp.ZipExtraction

open ImageManifest Overlays Paths SyncTypes

abbrev Names := List String

/-! ## Destinations -/

/-- One component of a path that must not climb above the root. -/
def follow (names : Names) : Component → Option Names
  | .rootDir => some []
  | .curDir => some names
  | .parentDir => if names = [] then none else some names.dropLast
  | .normal name => some (names ++ [name])

def resolveInsideLexical (currentDir : Names) (root : Path) (name : String) : Option Names := do
  let name := name.toList.map fun c => if c = '\\' then '/' else c
  let rootAbs ← absolute (rooted currentDir) root
  let joined := if name.head? = some '/' then components name else join rootAbs name
  let resolved ← joined.foldlM follow []
  if rootAbs.isPrefixOf (rooted resolved) then some resolved else none

/-- The destination with `.tmp` appended. -/
def tempOf (dest : Names) : Names := dest.dropLast ++ [dest.getLast?.getD "" ++ ".tmp"]

/-! ## Steps -/

structure Disk where
  files : Names → Option Bytes
  dirs : Names → Bool

/-- What an extraction has done: `tmpPaths` as the code keeps them, every path it has written,
renamed or removed, and the temporary files it has made and that are still there. -/
structure Extraction where
  disk : Disk
  tmpPaths : List Names
  touched : List Names
  temporaries : Names → Bool

/-- The steps refused in one member: after how many directories, at the creation of the file, after
how many bytes, or at the rename. -/
structure Faults where
  directory : Option (ℕ × String)
  create : Option String
  write : Option (ℕ × String)
  rename : Option String

namespace Extraction

def makeDirs (levels : List Names) (s : Extraction) : Extraction :=
  { s with
    disk.dirs := fun p => p ∈ levels || s.disk.dirs p
    touched := s.touched ++ levels.filter fun p => ! s.disk.dirs p }

/-- `File::create` and what was copied. -/
def write (tmp : Names) (bytes : Bytes) (s : Extraction) : Extraction :=
  { s with
    disk.files := Function.update s.disk.files tmp (some bytes)
    touched := s.touched ++ [tmp]
    temporaries := Function.update s.temporaries tmp true }

def rename (tmp dest : Names) (bytes : Bytes) (s : Extraction) : Extraction :=
  { s with
    disk.files := Function.update (Function.update s.disk.files tmp none) dest (some bytes)
    touched := s.touched ++ [tmp, dest]
    temporaries := Function.update (Function.update s.temporaries tmp false) dest false }

def remove (tmp : Names) (s : Extraction) : Extraction :=
  { s with
    disk.files := Function.update s.disk.files tmp none
    touched := s.touched ++ [tmp]
    temporaries := Function.update s.temporaries tmp false }

end Extraction

/-- `io::copy`: the bytes written and the error it ended in. -/
def copy (fault : Option (ℕ × String)) (m : ZipMember) : Bytes × Option String :=
  match fault with
  | some (written, e) => (m.data.take written, some e)
  | none => (m.data, m.broken)

/-- The directories that `create_dir_all` sees to for a destination. -/
def parents (dest : Names) : List Names := if dest = [] then [] else dest.dropLast.inits

def extractMember (dest : Names) (faults : Faults) (m : ZipMember) (s : Extraction) :
    Except SyncError Unit × Extraction :=
  match faults.directory with
  | some (made, e) => (.error (.io e), s.makeDirs ((parents dest).take made))
  | none =>
    match faults.create with
    | some e => (.error (.io e), s.makeDirs (parents dest))
    | none =>
      match copy faults.write m with
      | (bytes, some e) => (.error (.io e), (s.makeDirs (parents dest)).write (tempOf dest) bytes)
      | (bytes, none) =>
        match faults.rename with
        | some e => (.error (.io e),
            { (s.makeDirs (parents dest)).write (tempOf dest) bytes with
              tmpPaths := s.tmpPaths ++ [tempOf dest] })
        | none => (.ok (), ((s.makeDirs (parents dest)).write (tempOf dest) bytes).rename
            (tempOf dest) dest bytes)

abbrev Archive := List (Except String ZipMember)

/-- The loop over the members. -/
def extractAll (destination : String → Option Names) (faults : ℕ → Faults) :
    Archive → ℕ → Extraction → Except SyncError Unit × Extraction
  | [], _, s => (.ok (), s)
  | .error e :: _, _, s => (.error (.message e), s)
  | .ok m :: rest, i, s =>
    if m.isDir then extractAll destination faults rest (i + 1) s
    else
      match destination m.name with
      | none => (.error (.message ("Unsafe zip member path: " ++ m.name)), s)
      | some dest =>
        match extractMember dest (faults i) m s with
        | (.error e, s') => (.error e, s')
        | (.ok (), s') => extractAll destination faults rest (i + 1) s'

/-- The removal of the recorded temporary files; `kept` are those that cannot be removed. -/
def cleanup (kept : Names → Bool) (s : Extraction) : Extraction :=
  s.tmpPaths.foldl (fun s tmp => if kept tmp then s else s.remove tmp) s

/-- What an extraction meets: the archive, or why it does not open, and the steps refused. -/
structure Surroundings where
  currentDir : Names
  archive : Except SyncError Archive
  faults : ℕ → Faults
  kept : Names → Bool

/-- The destination of a member under a root. -/
def destination (currentDir : Names) (localRoot : Path) (name : String) : Option Names :=
  resolveInsideLexical currentDir ((absolute (rooted currentDir) localRoot).getD localRoot) name

def safeExtractZip (around : Surroundings) (localRoot : Path) (disk : Disk) :
    Except SyncError Unit × Extraction :=
  let start : Extraction := ⟨disk, [], [], fun _ => false⟩
  match around.archive with
  | .error e => (.error e, start)
  | .ok archive =>
    match extractAll (destination around.currentDir localRoot) around.faults archive 0 start with
    | (.ok (), s) => (.ok (), s)
    | (.error e, s) => (.error e, cleanup around.kept s)

/-! ## Temporary files -/

/-- Where an extraction fails. -/
inductive Failure where
  | unwritten
  | copying
  | renaming (tmp : Names)

def memberFailure (dest : Names) (faults : Faults) (m : ZipMember) : Option Failure :=
  if faults.directory.isSome ∨ faults.create.isSome then some .unwritten
  else if (copy faults.write m).2.isSome then some .copying
  else if faults.rename.isSome then some (.renaming (tempOf dest))
  else none

/-- The first failure among the members. -/
def firstFailure (destination : String → Option Names) (faults : ℕ → Faults) :
    Archive → ℕ → Option Failure
  | [], _ => none
  | .error _ :: _, _ => some .unwritten
  | .ok m :: rest, i =>
    if m.isDir then firstFailure destination faults rest (i + 1)
    else
      match destination m.name with
      | none => some .unwritten
      | some dest =>
        (memberFailure dest (faults i) m).or (firstFailure destination faults rest (i + 1))

/-- The cleanup undoes the failure: nothing is left half copied, and the temporary file of a rename
can be removed. -/
def Undone (kept : Names → Bool) : Option Failure → Prop
  | some .copying => False
  | some (.renaming tmp) => kept tmp = false
  | some .unwritten => True
  | none => True

/-- No temporary file is there, and none is recorded. -/
def Clean (s : Extraction) : Prop := s.tmpPaths = [] ∧ ∀ p, s.temporaries p = false

/-- What a failure leaves behind before the cleanup. -/
def Leaves : Option Failure → Except SyncError Unit × Extraction → Prop
  | none, r => r.1 = .ok () ∧ Clean r.2
  | some .unwritten, r => r.1.isOk = false ∧ Clean r.2
  | some .copying, r => r.1.isOk = false ∧ r.2.tmpPaths = [] ∧ ∃ p, r.2.temporaries p = true
  | some (.renaming tmp), r => r.1.isOk = false ∧ r.2.tmpPaths = [tmp] ∧
      r.2.temporaries = Function.update (fun _ => false) tmp true

theorem extractMember_leaves (dest : Names) (faults : Faults) (m : ZipMember) {s : Extraction}
    (hs : Clean s) : Leaves (memberFailure dest faults m) (extractMember dest faults m s) := by
  obtain ⟨hpaths, htemps⟩ := hs
  have hnone : s.temporaries = fun _ => false := funext htemps
  unfold memberFailure extractMember
  cases hdirectory : faults.directory with
  | some fault => exact ⟨rfl, hpaths, htemps⟩
  | none =>
    cases hcreate : faults.create with
    | some e => exact ⟨rfl, hpaths, htemps⟩
    | none =>
      rcases hcopy : copy faults.write m with ⟨bytes, _ | e⟩
      · cases hrename : faults.rename with
        | some e =>
          refine ⟨rfl, ?_, ?_⟩
          · exact congrArg (· ++ [tempOf dest]) hpaths
          · exact congrArg (Function.update · (tempOf dest) true) hnone
        | none =>
          refine ⟨rfl, hpaths, fun p => ?_⟩
          dsimp only [Extraction.rename, Extraction.write, Extraction.makeDirs]
          rw [hnone]
          simp only [Function.update_apply]
          split_ifs <;> rfl
      · exact ⟨rfl, hpaths, tempOf dest, Function.update_self ..⟩

theorem extractAll_leaves (destination : String → Option Names) (faults : ℕ → Faults)
    (archive : Archive) (i : ℕ) {s : Extraction} (hs : Clean s) :
    Leaves (firstFailure destination faults archive i) (extractAll destination faults archive i s) := by
  induction archive generalizing i s with
  | nil => exact ⟨rfl, hs⟩
  | cons entry rest ih =>
    cases entry with
    | error e => exact ⟨rfl, hs⟩
    | ok m =>
      unfold firstFailure extractAll
      split
      · exact ih (i + 1) hs
      · cases destination m.name with
        | none => exact ⟨rfl, hs⟩
        | some dest =>
          have hmember := extractMember_leaves dest (faults i) m hs
          dsimp only
          rcases hrun : extractMember dest (faults i) m s with ⟨outcome, s'⟩
          rw [hrun] at hmember
          cases hfailure : memberFailure dest (faults i) m with
          | none =>
            rw [hfailure] at hmember
            obtain ⟨rfl, hclean⟩ := hmember
            exact ih (i + 1) hclean
          | some failure =>
            rw [hfailure] at hmember
            cases outcome with
            | error e => exact hmember
            | ok u =>
              -- no failure ends well
              cases failure <;> cases hmember.1

theorem cleanup_leavesNone_iff {kept : Names → Bool} {e : SyncError} {t : Extraction}
    {failure : Option Failure} (h : Leaves failure (.error e, t)) :
    (∀ p, (cleanup kept t).temporaries p = false) ↔ Undone kept failure := by
  match failure with
  | none => cases h.1
  | some .unwritten =>
    obtain ⟨-, hpaths, htemps⟩ := h
    rw [cleanup, hpaths]
    exact iff_of_true htemps trivial
  | some .copying =>
    obtain ⟨-, hpaths, p, hp⟩ := h
    rw [cleanup, hpaths]
    exact iff_of_false (fun hnone => Bool.noConfusion (hp.symm.trans (hnone p))) not_false
  | some (.renaming tmp) =>
    obtain ⟨-, hpaths, htemps⟩ := h
    rw [cleanup, hpaths, List.foldl_cons, List.foldl_nil, Undone]
    cases kept tmp with
    | true =>
      refine iff_of_false (fun hnone => ?_) Bool.noConfusion
      have hgone := hnone tmp
      rw [if_pos rfl, htemps, Function.update_self] at hgone
      cases hgone
    | false =>
      refine iff_of_true (fun p => ?_) rfl
      rw [if_neg Bool.false_ne_true]
      dsimp only [Extraction.remove]
      rw [htemps, Function.update_idem]
      exact congrFun (Function.update_eq_self tmp fun _ => false) p

/-- A failed extraction leaves no temporary file exactly if no copy failed and the temporary file
of a failed rename can be removed. -/
theorem safeExtractZip_leavesNone_iff (around : Surroundings) (localRoot : Path) (disk : Disk) :
    (∀ e s, safeExtractZip around localRoot disk = (.error e, s) → ∀ p, s.temporaries p = false) ↔
      ∀ archive, around.archive = .ok archive → Undone around.kept
        (firstFailure (destination around.currentDir localRoot) around.faults archive 0) := by
  have hstart : Clean ⟨disk, [], [], fun _ => false⟩ := ⟨rfl, fun _ => rfl⟩
  cases harchive : around.archive with
  | error e =>
    refine iff_of_true (fun e' s h => ?_) fun archive h => nomatch h
    simp only [safeExtractZip, harchive, Prod.mk.injEq] at h
    rw [← h.2]
    exact hstart.2
  | ok archive =>
    have hleaves := extractAll_leaves (destination around.currentDir localRoot) around.faults archive 0
      hstart
    rcases hrun : extractAll (destination around.currentDir localRoot) around.faults archive 0
      ⟨disk, [], [], fun _ => false⟩ with ⟨outcome, t⟩
    rw [hrun] at hleaves
    simp only [safeExtractZip, harchive, hrun, Except.ok.injEq, forall_eq']
    cases outcome with
    | ok u =>
      refine iff_of_true (fun e s h => nomatch h) ?_
      match firstFailure (destination around.currentDir localRoot) around.faults archive 0, hleaves with
      | none, _ => trivial
    | error e =>
      simp only [Prod.mk.injEq, Except.error.injEq, and_imp, forall_eq', forall_apply_eq_imp_iff]
      exact cleanup_leavesNone_iff hleaves

/-- One member whose checksum does not match, on a file system that refuses nothing. -/
def brokenMember : Surroundings where
  currentDir := []
  archive := .ok [.ok ⟨"a.json", false, [123], some "Invalid checksum"⟩]
  faults _ := ⟨none, none, none, none⟩
  kept _ := false

def freshDisk : Disk := ⟨fun _ => none, fun p => p = [] ∨ p = ["srv"]⟩

theorem safeExtractZip_leavesTemp :
    ∃ e s, safeExtractZip brokenMember (components "/srv/tree".toList) freshDisk = (.error e, s) ∧
      s.temporaries ["srv", "tree", "a.json.tmp"] = true ∧
      s.disk.files ["srv", "tree", "a.json.tmp"] = some [123] :=
  ⟨_, _, rfl, by decide +kernel, by decide +kernel⟩

/-! ## What an archive asks for -/

/-- A member and where it goes. -/
structure Placement where
  member : ZipMember
  dest : Names

/-- The members that are reached when no step is refused, and whether all of them are extracted. -/
def plan (destination : String → Option Names) : Archive → List Placement × Bool
  | [] => ([], true)
  | .error _ :: _ => ([], false)
  | .ok m :: rest =>
    if m.isDir then plan destination rest
    else
      match destination m.name with
      | none => ([], false)
      | some dest =>
        if m.broken.isSome then ([⟨m, dest⟩], false)
        else (⟨m, dest⟩ :: (plan destination rest).1, (plan destination rest).2)

/-- What the extraction of a member does to the files. -/
def Placement.layer (x : Placement) : Names → Option (Option Bytes) := fun p =>
  if p = x.dest then some (some x.member.data) else if p = tempOf x.dest then some none else none

theorem tempOf_ne (dest : Names) : tempOf dest ≠ dest := by
  intro h
  rcases List.eq_nil_or_concat dest with rfl | ⟨front, last, rfl⟩
  · cases h
  · rw [tempOf, List.concat_eq_append, List.dropLast_concat, List.getLast?_concat,
      Option.getD_some] at h
    simp at h

/-- A member whose extraction succeeds. -/
theorem extractMember_ok {dest : Names} {faults : Faults} {m : ZipMember} {s s' : Extraction}
    (h : extractMember dest faults m s = (.ok (), s')) :
    m.broken = none ∧ s'.disk.files = overlay s.disk.files (Placement.layer ⟨m, dest⟩) := by
  unfold extractMember at h
  cases hdirectory : faults.directory with
  | some fault => simp [hdirectory] at h
  | none =>
    cases hcreate : faults.create with
    | some e => simp [hdirectory, hcreate] at h
    | none =>
      cases hwrite : faults.write with
      | some fault => simp [hdirectory, hcreate, copy, hwrite] at h
      | none =>
        cases hbroken : m.broken with
        | some e => simp [hdirectory, hcreate, copy, hwrite, hbroken] at h
        | none =>
          cases hrename : faults.rename with
          | some e => simp [hdirectory, hcreate, copy, hwrite, hbroken, hrename] at h
          | none =>
            simp only [hdirectory, hcreate, copy, hwrite, hbroken, hrename, Prod.mk.injEq, true_and] at h
            refine ⟨rfl, ?_⟩
            rw [← h]
            funext p
            simp only [Extraction.rename, Extraction.write, Extraction.makeDirs, Function.update_apply,
              overlay, Placement.layer]
            split_ifs <;> rfl

theorem extractAll_ok {destination : String → Option Names} {faults : ℕ → Faults} {archive : Archive}
    {i : ℕ} {s s' : Extraction} (h : extractAll destination faults archive i s = (.ok (), s')) :
    (plan destination archive).2 = true ∧
      s'.disk.files = overlayAll s.disk.files ((plan destination archive).1.map Placement.layer) := by
  induction archive generalizing i s with
  | nil =>
    cases h
    exact ⟨rfl, rfl⟩
  | cons entry rest ih =>
    cases entry with
    | error e => cases h
    | ok m =>
      unfold extractAll at h
      unfold plan
      split at h
      · next hdir =>
        rw [if_pos hdir]
        exact ih h
      · next hdir =>
        rw [if_neg hdir]
        cases hdest : destination m.name with
        | none => simp [hdest] at h
        | some dest =>
          simp only [hdest] at h
          rcases hrun : extractMember dest (faults i) m s with ⟨_ | _, t⟩
          · simp [hrun] at h
          · simp only [hrun] at h
            obtain ⟨hbroken, hfiles⟩ := extractMember_ok hrun
            obtain ⟨hall, hrest⟩ := ih h
            dsimp only
            rw [hbroken, if_neg (by decide)]
            exact ⟨hall, by rw [hrest, hfiles, List.map_cons, overlayAll_cons]⟩

/-! ## Containment -/

/-- Everything so far is in the root, and the directories above the root exist. -/
structure Contained (root : Names) (s : Extraction) : Prop where
  touched : ∀ p ∈ s.touched, root <+: p
  recorded : ∀ p ∈ s.tmpPaths, root <+: p
  above : ∀ p, p <+: root → p ≠ root → s.disk.dirs p = true

theorem isPrefix_dropLast {root dest : Names} (h : root <+: dest) (hne : dest ≠ root ∨ root = []) :
    root <+: dest.dropLast := by
  rcases hne with hne | rfl
  · rcases List.eq_nil_or_concat dest with rfl | ⟨front, last, rfl⟩
    · exact h
    · rw [List.concat_eq_append, List.dropLast_concat]
      rw [List.concat_eq_append] at h hne
      exact (List.prefix_concat_iff.mp h).resolve_left (Ne.symm hne)
  · exact List.nil_prefix

theorem isPrefix_tempOf {root dest : Names} (h : root <+: dest) (hne : dest ≠ root ∨ root = []) :
    root <+: tempOf dest := (isPrefix_dropLast h hne).trans (List.prefix_append _ _)

/-- The temporary file of the root itself is not in the root. -/
theorem not_isPrefix_tempOf {root : Names} (h : root ≠ []) : ¬ root <+: tempOf root := by
  intro hpre
  have hlength : (tempOf root).length = root.length := by
    rw [tempOf, List.length_append, List.length_dropLast, List.length_singleton]
    have := List.length_pos_iff.mpr h
    omega
  exact tempOf_ne root (hpre.eq_of_length hlength.symm).symm

theorem Contained.makeDirs {root dest : Names} {levels : List Names} {s : Extraction}
    (hs : Contained root s) (hroot : root <+: dest) (hlevels : ∀ p ∈ levels, p <+: dest) :
    Contained root (s.makeDirs levels) := by
  refine ⟨fun p hp => ?_, hs.recorded, fun p hp hne => ?_⟩
  · rcases List.mem_append.mp hp with hp | hp
    · exact hs.touched p hp
    · obtain ⟨hlevel, hnew⟩ := List.mem_filter.mp hp
      rcases List.prefix_or_prefix_of_prefix (hlevels p hlevel) hroot with habove | hbelow
      · by_cases hsame : p = root
        · exact hsame ▸ List.prefix_rfl
        · rw [hs.above p habove hsame] at hnew
          cases hnew
      · exact hbelow
  · exact Bool.or_eq_true_iff.mpr (.inr (hs.above p hp hne))

theorem mem_parents {dest p : Names} (h : p ∈ parents dest) : p <+: dest := by
  unfold parents at h
  split at h
  · cases h
  · exact ((List.mem_inits _ _).mp h).trans (List.dropLast_prefix dest)

theorem Contained.write {root tmp : Names} {s : Extraction} (hs : Contained root s)
    (htmp : root <+: tmp) (bytes : Bytes) : Contained root (s.write tmp bytes) := by
  refine ⟨fun p hp => ?_, hs.recorded, hs.above⟩
  rcases List.mem_append.mp hp with hp | hp
  · exact hs.touched p hp
  · exact List.mem_singleton.mp hp ▸ htmp

theorem extractMember_contained {root dest : Names} {faults : Faults} {m : ZipMember} {s : Extraction}
    (hs : Contained root s) (hroot : root <+: dest) (hne : dest ≠ root ∨ root = []) :
    Contained root (extractMember dest faults m s).2 := by
  have htmp := isPrefix_tempOf hroot hne
  have hdirs : Contained root (s.makeDirs (parents dest)) :=
    hs.makeDirs hroot fun p => mem_parents
  have hwrite := hdirs.write htmp
  unfold extractMember
  cases faults.directory with
  | some fault => exact hs.makeDirs hroot fun p hp => mem_parents (List.mem_of_mem_take hp)
  | none =>
    cases faults.create with
    | some e => exact hdirs
    | none =>
      rcases copy faults.write m with ⟨bytes, _ | e⟩
      · cases faults.rename with
        | some e =>
          refine ⟨(hwrite bytes).touched, fun p hp => ?_, (hwrite bytes).above⟩
          rcases List.mem_append.mp hp with hp | hp
          · exact hs.recorded p hp
          · exact List.mem_singleton.mp hp ▸ htmp
        | none =>
          refine ⟨fun p hp => ?_, (hwrite bytes).recorded, (hwrite bytes).above⟩
          rcases List.mem_append.mp hp with hp | hp
          · exact (hwrite bytes).touched p hp
          · rcases List.mem_pair.mp hp with rfl | rfl
            · exact htmp
            · exact hroot
      · exact hwrite bytes

theorem extractAll_contained {destination : String → Option Names} {faults : ℕ → Faults}
    {archive : Archive} {root : Names} {i : ℕ} {s : Extraction} (hs : Contained root s)
    (hplan : ∀ x ∈ (plan destination archive).1, root <+: x.dest ∧ (x.dest ≠ root ∨ root = [])) :
    Contained root (extractAll destination faults archive i s).2 := by
  induction archive generalizing i s with
  | nil => exact hs
  | cons entry rest ih =>
    cases entry with
    | error e => exact hs
    | ok m =>
      unfold extractAll
      unfold plan at hplan
      split
      · next hdir =>
        rw [if_pos hdir] at hplan
        exact ih hs hplan
      · next hdir =>
        rw [if_neg hdir] at hplan
        cases hdest : destination m.name with
        | none => exact hs
        | some dest =>
          simp only [hdest] at hplan
          have hfirst : root <+: dest ∧ (dest ≠ root ∨ root = []) :=
            hplan ⟨m, dest⟩ (by split_ifs <;> exact List.mem_cons_self)
          have hmember : Contained root (extractMember dest (faults i) m s).2 :=
            extractMember_contained hs hfirst.1 hfirst.2
          dsimp only
          rcases hrun : extractMember dest (faults i) m s with ⟨e | u, t⟩
          · rw [hrun] at hmember
            exact hmember
          · rw [hrun] at hmember
            apply ih hmember
            intro x hx
            apply hplan
            rw [(extractMember_ok hrun).1, if_neg (by decide)]
            exact List.mem_cons_of_mem _ hx

theorem cleanup_contained {root : Names} {kept : Names → Bool} {s : Extraction}
    (hs : Contained root s) : Contained root (cleanup kept s) := by
  have hall : ∀ tmps : List Names, (∀ p ∈ tmps, root <+: p) → ∀ t : Extraction, Contained root t →
      Contained root (tmps.foldl (fun s tmp => if kept tmp then s else s.remove tmp) t) := by
    intro tmps
    induction tmps with
    | nil => exact fun _ t ht => ht
    | cons tmp tmps ih =>
      intro htmps t ht
      apply ih fun p hp => htmps p (List.mem_cons_of_mem _ hp)
      dsimp only
      split
      · exact ht
      · refine ⟨fun p hp => ?_, ht.recorded, ht.above⟩
        rcases List.mem_append.mp hp with hp | hp
        · exact ht.touched p hp
        · exact List.mem_singleton.mp hp ▸ htmps tmp List.mem_cons_self
  exact hall s.tmpPaths hs.recorded s hs

/-! ## An extraction that nothing refuses -/

def granted : Faults := ⟨none, none, none, none⟩

theorem extractMember_granted (dest : Names) (m : ZipMember) (s : Extraction) :
    (m.broken = none → (extractMember dest granted m s).1 = .ok ()) ∧
      s.touched ⊆ (extractMember dest granted m s).2.touched ∧
      tempOf dest ∈ (extractMember dest granted m s).2.touched := by
  unfold extractMember granted copy
  dsimp only
  cases m.broken with
  | some e =>
    refine ⟨fun h => (nomatch h), fun p hp => ?_, List.mem_append_right _ List.mem_cons_self⟩
    exact List.mem_append_left _ (List.mem_append_left _ hp)
  | none =>
    refine ⟨fun _ => rfl, fun p hp => ?_, List.mem_append_right _ List.mem_cons_self⟩
    exact List.mem_append_left _ (List.mem_append_left _ (List.mem_append_left _ hp))

theorem extractAll_granted (destination : String → Option Names) (archive : Archive) (i : ℕ)
    (s : Extraction) :
    ((plan destination archive).2 = true →
        (extractAll destination (fun _ => granted) archive i s).1 = .ok ()) ∧
      s.touched ⊆ (extractAll destination (fun _ => granted) archive i s).2.touched ∧
      ∀ x ∈ (plan destination archive).1,
        tempOf x.dest ∈ (extractAll destination (fun _ => granted) archive i s).2.touched := by
  induction archive generalizing i s with
  | nil => exact ⟨fun _ => rfl, List.Subset.refl _, fun x hx => (nomatch hx)⟩
  | cons entry rest ih =>
    cases entry with
    | error e => exact ⟨fun h => (nomatch h), List.Subset.refl _, fun x hx => (nomatch hx)⟩
    | ok m =>
      unfold extractAll plan
      split
      · exact ih (i + 1) s
      · cases destination m.name with
        | none => exact ⟨fun h => (nomatch h), List.Subset.refl _, fun x hx => (nomatch hx)⟩
        | some dest =>
          obtain ⟨hok, hsub, htmp⟩ := extractMember_granted dest m s
          dsimp only
          rcases hrun : extractMember dest granted m s with ⟨e | u, t⟩
          · rw [hrun] at hok hsub htmp
            cases hbroken : m.broken with
            | none => cases hok hbroken
            | some why =>
              refine ⟨fun h => (nomatch h), hsub, fun x hx => ?_⟩
              obtain rfl := List.mem_singleton.mp hx
              exact htmp
          · rw [hrun] at hsub htmp
            obtain ⟨hrest, hmore, hothers⟩ := ih (i + 1) t
            rw [(extractMember_ok hrun).1, if_neg (by decide)]
            refine ⟨hrest, fun p hp => hmore (hsub hp), fun x hx => ?_⟩
            rcases List.mem_cons.mp hx with rfl | hx
            · exact hmore htmp
            · exact hothers x hx

/-! ## Correct extractions -/

/-- The members that are files. -/
def fileMembers (archive : Archive) : List ZipMember :=
  archive.filterMap fun entry => entry.toOption.filter fun m => ! m.isDir

/-- The bytes of the last member of a name. -/
def lastData (members : List ZipMember) (name : String) : Option Bytes :=
  (members.reverse.find? fun m => m.name = name).map ZipMember.data

/-- The names of the target root. -/
def rootNames (currentDir : Names) (localRoot : Path) : Names :=
  resolve ((absolute (rooted currentDir) localRoot).getD localRoot)

/-- A success leaves the bytes of every file member at its destination, and nothing outside the root
is touched. -/
structure Extracted (currentDir : Names) (localRoot : Path) (archive : Archive)
    (r : Except SyncError Unit × Extraction) : Prop where
  complete : r.1 = .ok () → ∀ m ∈ fileMembers archive,
    ∃ dest, destination currentDir localRoot m.name = some dest ∧
      r.2.disk.files dest = lastData (fileMembers archive) m.name
  contained : ∀ p ∈ r.2.touched, rootNames currentDir localRoot <+: p

/-- No member that is reached goes to the root itself, and if all are extracted, then what is done
last at the destination of a member is to place the bytes of the last member of its name. -/
structure Tidy (currentDir : Names) (localRoot : Path) (archive : Archive) : Prop where
  below : ∀ x ∈ (plan (destination currentDir localRoot) archive).1,
    x.dest ≠ rootNames currentDir localRoot ∨ rootNames currentDir localRoot = []
  last : (plan (destination currentDir localRoot) archive).2 = true →
    ∀ x ∈ (plan (destination currentDir localRoot) archive).1,
      ((plan (destination currentDir localRoot) archive).1.reverse.findSome? fun y => y.layer x.dest) =
        some (lastData (fileMembers archive) x.member.name)

theorem destination_isPrefix {currentDir : Names} {localRoot : Path} {name : String} {dest : Names}
    (h : destination currentDir localRoot name = some dest) : rootNames currentDir localRoot <+: dest := by
  unfold destination resolveInsideLexical at h
  rw [absolute_getD] at h
  simp only [Option.bind_eq_bind, Option.bind_eq_some_iff, Option.ite_none_right_eq_some,
    Option.some.injEq, List.isPrefixOf_iff_prefix] at h
  obtain ⟨base, hbase, resolved, -, hpre, rfl⟩ := h
  rw [rootNames, hbase, Option.getD_some]
  exact (eq_rooted_of_isPrefix (absolute_ne_nil hbase) hpre).2

theorem plan_dest {destination : String → Option Names} {archive : Archive} :
    ∀ x ∈ (plan destination archive).1, destination x.member.name = some x.dest := by
  induction archive with
  | nil => exact fun x hx => (nomatch hx)
  | cons entry rest ih =>
    cases entry with
    | error e => exact fun x hx => (nomatch hx)
    | ok m =>
      unfold plan
      split
      · exact ih
      · cases hdest : destination m.name with
        | none => exact fun x hx => (nomatch hx)
        | some dest =>
          dsimp only
          split
          · intro x hx
            rw [List.mem_singleton.mp hx]
            exact hdest
          · intro x hx
            rcases List.mem_cons.mp hx with rfl | hx
            · exact hdest
            · exact ih x hx

theorem fileMembers_cons (m : ZipMember) (rest : Archive) :
    fileMembers (.ok m :: rest) = if m.isDir then fileMembers rest else m :: fileMembers rest := by
  cases hdir : m.isDir <;> simp [fileMembers, Except.toOption, Option.filter, hdir]

/-- A plan that covers the archive has all its file members. -/
theorem plan_members {destination : String → Option Names} {archive : Archive}
    (h : (plan destination archive).2 = true) :
    (plan destination archive).1.map Placement.member = fileMembers archive := by
  induction archive with
  | nil => rfl
  | cons entry rest ih =>
    cases entry with
    | error e => cases h
    | ok m =>
      unfold plan at h ⊢
      rw [fileMembers_cons]
      split
      · next hdir =>
        rw [if_pos hdir] at h
        exact ih h
      · next hdir =>
        rw [if_neg hdir] at h
        cases hdest : destination m.name with
        | none => simp [hdest] at h
        | some dest =>
          simp only [hdest] at h ⊢
          split at h
          · cases h
          · next hbroken => rw [if_neg hbroken, List.map_cons, ih h]

/-- The directories above the root exist. -/
def Grounded (root : Names) (disk : Disk) : Prop := ∀ p, p <+: root → p ≠ root → disk.dirs p = true

theorem Tidy.extracted {currentDir : Names} {localRoot : Path} {archive : Archive}
    (h : Tidy currentDir localRoot archive) {faults : ℕ → Faults} {kept : Names → Bool} {disk : Disk}
    (hground : Grounded (rootNames currentDir localRoot) disk) :
    Extracted currentDir localRoot archive
      (safeExtractZip ⟨currentDir, .ok archive, faults, kept⟩ localRoot disk) := by
  have hplan : ∀ x ∈ (plan (destination currentDir localRoot) archive).1,
      rootNames currentDir localRoot <+: x.dest ∧
        (x.dest ≠ rootNames currentDir localRoot ∨ rootNames currentDir localRoot = []) :=
    fun x hx => ⟨destination_isPrefix (plan_dest x hx), h.below x hx⟩
  have hstart : Contained (rootNames currentDir localRoot) ⟨disk, [], [], fun _ => false⟩ :=
    ⟨fun p hp => (nomatch hp), fun p hp => (nomatch hp), hground⟩
  have hcontained : Contained (rootNames currentDir localRoot)
      (extractAll (destination currentDir localRoot) faults archive 0
        ⟨disk, [], [], fun _ => false⟩).2 := extractAll_contained hstart hplan
  unfold safeExtractZip
  dsimp only
  rcases hrun : extractAll (destination currentDir localRoot) faults archive 0
    ⟨disk, [], [], fun _ => false⟩ with ⟨e | u, s⟩
  · rw [hrun] at hcontained
    exact ⟨fun h => (nomatch h), (cleanup_contained hcontained).touched⟩
  · rw [hrun] at hcontained
    obtain ⟨hall, hfiles⟩ := extractAll_ok hrun
    refine ⟨fun _ m hm => ?_, hcontained.touched⟩
    rw [← plan_members hall] at hm
    obtain ⟨x, hx, rfl⟩ := List.mem_map.mp hm
    refine ⟨x.dest, plan_dest x hx, ?_⟩
    dsimp only
    rw [hfiles, overlayAll_eq_findSome?, ← List.map_reverse, List.findSome?_map]
    have hlast := h.last hall x hx
    unfold Function.comp
    rw [hlast, Option.getD_some]

theorem cleanup_kept (s : Extraction) : cleanup (fun _ => true) s = s := by
  unfold cleanup
  induction s.tmpPaths with
  | nil => rfl
  | cons tmp tmps ih => exact ih

/-- An extraction into an empty root shows what is wrong with an archive. -/
theorem Tidy.of_extracted {currentDir : Names} {localRoot : Path} {archive : Archive}
    (h : Extracted currentDir localRoot archive
      (safeExtractZip ⟨currentDir, .ok archive, fun _ => granted, fun _ => true⟩ localRoot
        ⟨fun _ => none, fun _ => true⟩)) :
    Tidy currentDir localRoot archive := by
  obtain ⟨hok, -, htmp⟩ := extractAll_granted (destination currentDir localRoot) archive 0
    ⟨⟨fun _ => none, fun _ => true⟩, [], [], fun _ => false⟩
  unfold safeExtractZip at h
  dsimp only at h
  rcases hrun : extractAll (destination currentDir localRoot) (fun _ => granted) archive 0
    ⟨⟨fun _ => none, fun _ => true⟩, [], [], fun _ => false⟩ with ⟨outcome, s⟩
  rw [hrun] at hok htmp h
  have hinside : ∀ p ∈ s.touched, rootNames currentDir localRoot <+: p := by
    cases outcome with
    | error e =>
      have hcontained := h.contained
      dsimp only at hcontained
      rwa [cleanup_kept] at hcontained
    | ok u => exact h.contained
  refine ⟨fun x hx => ?_, fun hall x hx => ?_⟩
  · by_contra hroot
    rw [not_or, not_not] at hroot
    have hpre := hinside _ (htmp x hx)
    rw [hroot.1] at hpre
    exact not_isPrefix_tempOf hroot.2 hpre
  · obtain rfl := hok hall
    have hmember : x.member ∈ fileMembers archive := by
      rw [← plan_members hall]
      exact List.mem_map_of_mem hx
    obtain ⟨dest, hdest, hfile⟩ := h.complete rfl x.member hmember
    obtain rfl := Option.some_inj.mp ((plan_dest x hx).symm.trans hdest)
    dsimp only at hfile
    rw [(extractAll_ok hrun).2, overlayAll_eq_findSome?, ← List.map_reverse, List.findSome?_map] at hfile
    unfold Function.comp at hfile
    cases hfind : (plan (destination currentDir localRoot) archive).1.reverse.findSome?
        fun y => y.layer x.dest with
    | none =>
      have hlayer := List.findSome?_eq_none_iff.mp hfind x (List.mem_reverse.mpr hx)
      rw [Placement.layer, if_pos rfl] at hlayer
      cases hlayer
    | some held =>
      rw [hfind, Option.getD_some] at hfile
      rw [hfile]

/-- An archive extracts correctly, whatever the file system holds and refuses, exactly if it is tidy
or does not open. -/
theorem safeExtractZip_extracted_iff (currentDir : Names) (localRoot : Path)
    (opened : Except SyncError Archive) :
    (∀ faults kept disk, Grounded (rootNames currentDir localRoot) disk →
        ∀ archive, opened = .ok archive → Extracted currentDir localRoot archive
          (safeExtractZip ⟨currentDir, opened, faults, kept⟩ localRoot disk)) ↔
      ∀ archive, opened = .ok archive → Tidy currentDir localRoot archive := by
  constructor
  · rintro h archive rfl
    exact Tidy.of_extracted (h _ _ _ (fun _ _ _ => rfl) archive rfl)
  · rintro h faults kept disk hground archive rfl
    exact (h archive rfl).extracted hground

/-- Two members of which the first is called like the temporary file of the second. -/
def clashingMembers : Archive :=
  [.ok ⟨"a.json.tmp", false, [1], none⟩, .ok ⟨"a.json", false, [2], none⟩]

theorem safeExtractZip_not_extracted :
    ¬ Extracted [] (components "/srv/tree".toList) clashingMembers
      (safeExtractZip ⟨[], .ok clashingMembers, fun _ => granted, fun _ => false⟩
        (components "/srv/tree".toList) freshDisk) := by
  intro h
  obtain ⟨dest, hdest, hfile⟩ := h.complete rfl ⟨"a.json.tmp", false, [1], none⟩ List.mem_cons_self
  have hexpected : destination [] (components "/srv/tree".toList) "a.json.tmp" =
      some ["srv", "tree", "a.json.tmp"] := by decide +kernel
  obtain rfl := Option.some_inj.mp (hexpected.symm.trans hdest)
  revert hfile
  decide +kernel

end PrtsMcp.ZipExtraction
