import PrtsMcp.Fallible

/-!
# Paths in stores

The normalisation of the paths that are requested of a store, and where they lead from the root of a
directory on either platform.
-/
namespace PrtsMcp.StorePaths

inductive StoreError where
  | unsafePath (path : String)
  | notFound (path : String)
  | zipEntryNotFound (path : String)
  | fallbackNotFound (path : String)
  | io (message : String)
  | badJson (path message : String)
  deriving DecidableEq, Repr

/-! ## Normalisation -/

/-- The characters of a path with one separator for both. -/
def folded (path : String) : List Char := path.toList.map fun c => if c = '\\' then '/' else c

/-- The parts that are kept of the segments. -/
def collectParts (path : String) : List (List Char) → Except StoreError (List (List Char))
  | [] => .ok []
  | part :: rest =>
    if part = [] ∨ part = ['.'] then collectParts path rest
    else if part = ['.', '.'] then .error (.unsafePath path)
    else (collectParts path rest).map (part :: ·)

def normalizePath (path : String) : Except StoreError String :=
  if (folded path).head? = some '/' then .error (.unsafePath path)
  else
    (collectParts path ((folded path).splitOn '/')).map fun parts =>
      String.ofList (['/'].intercalate parts)

/-- The parts of a normalised path. -/
def partsOf (normalized : String) : List (List Char) := normalized.toList.splitOn '/'

/-! ## Paths of either platform -/

inductive Platform where
  | unix
  | windows
  deriving DecidableEq, Repr

/-- The components of a path. On Windows it may begin with a drive, and be relative to the directory
that the drive is in. -/
inductive Component where
  | drive (letter : Char)
  | network (name : List Char)
  | rootDir
  | curDir
  | parentDir
  | normal (name : List Char)
  deriving DecidableEq, Repr

/-- A path buffer: its components, and whether a separator ends it. -/
structure Target where
  components : List Component
  trailing : Bool
  deriving DecidableEq, Repr

/-- A drive at the beginning of a part, and the rest of the part. -/
def driveOf : Platform → List Char → Option (Char × List Char)
  | .windows, letter :: ':' :: rest => if letter.isAlpha then some (letter.toUpper, rest) else none
  | _, _ => none

/-- The components of a text without separators and drives. -/
def nameComponents : List Char → List Component
  | [] => []
  | ['.'] => [.curDir]
  | ['.', '.'] => [.parentDir]
  | name => [.normal name]

/-- `PathBuf::push` of a part of a normalised path: what has a drive replaces the path. -/
def push (platform : Platform) (target : Target) (part : List Char) : Target :=
  match driveOf platform part with
  | some (letter, rest) => ⟨.drive letter :: nameComponents rest, false⟩
  | none =>
    if part = [] then ⟨target.components, true⟩
    else ⟨target.components ++ nameComponents part, false⟩

def pushAll (platform : Platform) (root : List Component) (parts : List (List Char)) : Target :=
  parts.foldl (push platform) ⟨root, false⟩

def resolve (platform : Platform) (root : List Component) (path : String) : Except StoreError Target := do
  let normalized ← normalizePath path
  let target := pushAll platform root (partsOf normalized)
  match target.components.getLast? with
  | some .parentDir => .error (.unsafePath path)
  | some .rootDir => .error (.unsafePath path)
  | _ => return target

/-- The target is the root, or below it. -/
def Contained (root : List Component) (target : Target) : Prop :=
  ∃ names : List (List Char), target.components = root ++ names.map .normal

/-! ## Normalised paths -/

theorem ne_of_mem_splitOn {α : Type} [DecidableEq α] {sep : α} {xs part : List α}
    (h : part ∈ xs.splitOn sep) : ∀ c ∈ part, c ∈ xs ∧ c ≠ sep := by
  induction xs generalizing part with
  | nil =>
    rw [List.splitOn_nil, List.mem_singleton] at h
    rw [h]
    exact fun c hc => absurd hc List.not_mem_nil
  | cons x xs ih =>
    rw [List.splitOn_cons_eq_if_modifyHead] at h
    split_ifs at h with hx
    · rcases List.mem_cons.mp h with rfl | h
      · exact fun c hc => absurd hc List.not_mem_nil
      · exact fun c hc => (ih h c hc).imp_left (List.mem_cons_of_mem x)
    · obtain ⟨first, rest, hsplit⟩ := List.exists_cons_of_ne_nil (List.splitOn_ne_nil sep xs)
      rw [hsplit, List.modifyHead_cons] at h
      rw [hsplit] at ih
      intro c hc
      rcases List.mem_cons.mp h with rfl | h
      · rcases List.mem_cons.mp hc with rfl | hc
        · exact ⟨List.mem_cons_self, by simpa using hx⟩
        · exact (ih List.mem_cons_self c hc).imp_left (List.mem_cons_of_mem x)
      · exact (ih (List.mem_cons_of_mem first h) c hc).imp_left (List.mem_cons_of_mem x)

/-- A part that is kept: a name without separators that is no dot and no pair of dots. -/
structure Clean (part : List Char) : Prop where
  ne_nil : part ≠ []
  ne_dot : part ≠ ['.']
  ne_dots : part ≠ ['.', '.']
  slash : '/' ∉ part
  backslash : '\\' ∉ part

theorem separators_of_mem_segments {path : String} {part : List Char}
    (h : part ∈ (folded path).splitOn '/') : '/' ∉ part ∧ '\\' ∉ part := by
  refine ⟨fun hmem => (ne_of_mem_splitOn h _ hmem).2 rfl, fun hmem => ?_⟩
  obtain ⟨c, -, hc⟩ := List.mem_map.mp (ne_of_mem_splitOn h _ hmem).1
  split_ifs at hc with hback
  · exact absurd hc (by decide)
  · exact hback hc

theorem collectParts_clean {path : String} {pieces parts : List (List Char)}
    (hpieces : ∀ piece ∈ pieces, '/' ∉ piece ∧ '\\' ∉ piece)
    (h : collectParts path pieces = .ok parts) : ∀ part ∈ parts, Clean part := by
  induction pieces generalizing parts with
  | nil =>
    obtain rfl : [] = parts := Except.ok.inj h
    exact fun part hpart => absurd hpart List.not_mem_nil
  | cons piece pieces ih =>
    obtain ⟨hpiece, hrest⟩ := List.forall_mem_cons.mp hpieces
    rw [collectParts] at h
    split_ifs at h with hdrop hdots
    · exact ih hrest h
    · obtain ⟨rest, hcollect, rfl⟩ := Fallible.map_eq_ok h
      rw [not_or] at hdrop
      exact List.forall_mem_cons.mpr ⟨⟨hdrop.1, hdrop.2, hdots, hpiece.1, hpiece.2⟩, ih hrest hcollect⟩

/-- The parts of a normalised path are clean; the empty path has an empty one. -/
theorem partsOf_normalizePath {path normalized : String} (h : normalizePath path = .ok normalized) :
    partsOf normalized = [[]] ∨ ∀ part ∈ partsOf normalized, Clean part := by
  rw [normalizePath] at h
  split_ifs at h
  obtain ⟨parts, hparts, rfl⟩ := Fallible.map_eq_ok h
  have hclean := collectParts_clean (fun piece => separators_of_mem_segments) hparts
  rw [partsOf, String.toList_ofList]
  by_cases hne : parts = []
  · rw [hne]
    exact .inl rfl
  · rw [List.splitOn_intercalate '/' (fun part hpart => (hclean part hpart).slash) hne]
    exact .inr hclean

/-- What is not rejected has no segment that leads to a parent. -/
theorem dots_notMem_partsOf {path normalized : String} (h : normalizePath path = .ok normalized) :
    ['.', '.'] ∉ partsOf normalized := by
  intro hmem
  rcases partsOf_normalizePath h with hempty | hclean
  · rw [hempty] at hmem
    exact absurd hmem (by decide)
  · exact (hclean _ hmem).ne_dots rfl

/-! ## Pushing -/

variable {platform : Platform} {root : List Component}

theorem Clean.nameComponents {part : List Char} (h : Clean part) : nameComponents part = [.normal part] := by
  unfold StorePaths.nameComponents
  split
  · exact absurd rfl h.ne_nil
  · exact absurd rfl h.ne_dot
  · exact absurd rfl h.ne_dots
  · rfl

theorem push_of_drive {target : Target} {part : List Char} {letter : Char} {rest : List Char}
    (h : driveOf platform part = some (letter, rest)) :
    push platform target part = ⟨.drive letter :: nameComponents rest, false⟩ := by
  rw [push, h]

theorem push_of_clean {target : Target} {part : List Char} (h : driveOf platform part = none)
    (hpart : Clean part) : push platform target part = ⟨target.components ++ [.normal part], false⟩ := by
  rw [push, h]
  simp only
  rw [if_neg hpart.ne_nil, hpart.nameComponents]

theorem pushAll_concat (parts : List (List Char)) (part : List Char) :
    pushAll platform root (parts ++ [part]) = push platform (pushAll platform root parts) part := by
  rw [pushAll, List.foldl_concat]
  rfl

/-- Without drives, the parts go down from the root. -/
theorem pushAll_of_clean {parts : List (List Char)} (hclean : ∀ part ∈ parts, Clean part)
    (hdrive : ∀ part ∈ parts, driveOf platform part = none) :
    (pushAll platform root parts).components = root ++ parts.map .normal := by
  induction parts using List.reverseRecOn with
  | nil => exact (List.append_nil root).symm
  | append_singleton parts part ih =>
    rw [List.forall_mem_append, List.forall_mem_singleton] at hclean hdrive
    rw [pushAll_concat, push_of_clean hdrive.2 hclean.2, ih hclean.1 hdrive.1, List.map_append,
      List.append_assoc]
    rfl

/-- A drive takes the place of the root. -/
theorem head?_pushAll (root : List Component) {parts : List (List Char)} (hclean : ∀ part ∈ parts, Clean part)
    (hdrive : ∃ part ∈ parts, driveOf platform part ≠ none) :
    ∃ letter, (pushAll platform root parts).components.head? = some (.drive letter) := by
  induction parts using List.reverseRecOn with
  | nil =>
    obtain ⟨part, hpart, -⟩ := hdrive
    cases hpart
  | append_singleton parts part ih =>
    rw [List.forall_mem_append, List.forall_mem_singleton] at hclean
    rw [pushAll_concat]
    cases hlast : driveOf platform part with
    | some drive =>
      rw [push_of_drive hlast]
      exact ⟨drive.1, rfl⟩
    | none =>
      obtain ⟨other, hother, hne⟩ := hdrive
      have hin : other ∈ parts := by
        rcases List.mem_append.mp hother with hin | hin
        · exact hin
        · rw [List.mem_singleton.mp hin] at hne
          exact absurd hlast hne
      obtain ⟨letter, hletter⟩ := ih hclean.1 ⟨other, hin, hne⟩
      refine ⟨letter, ?_⟩
      rw [push_of_clean hlast hclean.2, List.head?_append, hletter]
      rfl

/-! ## Resolving -/

theorem resolve_eq_ok {path : String} {target : Target} :
    resolve platform root path = .ok target ↔
      ∃ normalized, normalizePath path = .ok normalized ∧
        target = pushAll platform root (partsOf normalized) ∧
        target.components.getLast? ≠ some .parentDir ∧ target.components.getLast? ≠ some .rootDir := by
  unfold resolve
  cases normalizePath path with
  | error e =>
    constructor
    · intro h
      cases h
    · rintro ⟨normalized, h, -⟩
      cases h
  | ok normalized =>
    constructor
    · intro h
      refine ⟨normalized, rfl, ?_⟩
      simp only [bind, Except.bind] at h
      split at h
      · cases h
      · cases h
      · next hparent hroot =>
        obtain rfl := Except.ok.inj h
        exact ⟨rfl, hparent, hroot⟩
    · rintro ⟨normalized', hnormal, rfl, hparent, hroot⟩
      obtain rfl := Except.ok.inj hnormal
      simp only [bind, Except.bind]
      rfl

/-- The path names no drive, or it ends in one with a parent segment and is rejected for that. -/
def Anchored (platform : Platform) (path : String) : Prop :=
  ∀ normalized, normalizePath path = .ok normalized →
    (∀ part ∈ partsOf normalized, driveOf platform part = none) ∨
      ∃ letter, (partsOf normalized).getLast?.bind (driveOf platform) = some (letter, ['.', '.'])

theorem contained_of_anchored {path : String} {target : Target} (h : Anchored platform path)
    (htarget : resolve platform root path = .ok target) : Contained root target := by
  obtain ⟨normalized, hnormal, rfl, hparent, -⟩ := resolve_eq_ok.mp htarget
  rcases partsOf_normalizePath hnormal with hempty | hclean
  · rw [hempty]
    refine ⟨[], ?_⟩
    cases platform <;> exact (List.append_nil root).symm
  · rcases h normalized hnormal with hnone | ⟨letter, hlast⟩
    · exact ⟨partsOf normalized, pushAll_of_clean hclean hnone⟩
    · obtain ⟨part, hpart, hdrive⟩ := Option.bind_eq_some_iff.mp hlast
      obtain ⟨front, hfront⟩ := List.getLast?_eq_some_iff.mp hpart
      rw [hfront, pushAll_concat, push_of_drive hdrive] at hparent
      exact absurd rfl hparent

/-- After a part that goes to no parent, the path can be read. -/
theorem getLast?_push {target : Target} {part : List Char} (hpart : Clean part)
    (h : ∀ letter, driveOf platform part ≠ some (letter, ['.', '.'])) :
    (push platform target part).components.getLast? ≠ some .parentDir ∧
      (push platform target part).components.getLast? ≠ some .rootDir := by
  cases hdrive : driveOf platform part with
  | none =>
    rw [push_of_clean hdrive hpart, List.getLast?_concat]
    exact ⟨by simp, by simp⟩
  | some drive =>
    rw [push_of_drive hdrive]
    unfold nameComponents
    split
    · exact ⟨by simp, by simp⟩
    · exact ⟨by simp, by simp⟩
    · next hrest => exact absurd (hdrive.trans (congrArg (fun r => some (drive.1, r)) hrest)) (h drive.1)
    · exact ⟨by simp, by simp⟩

/-- Any other drive leads away from some root. -/
theorem exists_not_contained {path : String} (h : ¬ Anchored platform path) :
    ∃ root target, resolve platform root path = .ok target ∧ ¬ Contained root target := by
  rw [Anchored] at h
  push Not at h
  obtain ⟨normalized, hnormal, ⟨part, hmem, hdrive⟩, hlast⟩ := h
  have hclean : ∀ part ∈ partsOf normalized, Clean part := by
    refine (partsOf_normalizePath hnormal).resolve_left fun hempty => ?_
    rw [hempty, List.mem_singleton] at hmem
    rw [hmem] at hdrive
    cases platform <;> exact hdrive rfl
  obtain ⟨letter, hhead⟩ := head?_pushAll [.normal []] hclean ⟨part, hmem, hdrive⟩
  refine ⟨[.normal []], pushAll platform [.normal []] (partsOf normalized),
    resolve_eq_ok.mpr ⟨normalized, hnormal, rfl, ?_⟩, ?_⟩
  · obtain ⟨front, last, hfront⟩ := (List.eq_nil_or_concat (partsOf normalized)).resolve_left
      (List.ne_nil_of_mem hmem)
    rw [List.concat_eq_append] at hfront
    rw [hfront, List.getLast?_concat] at hlast
    rw [hfront] at hclean
    rw [hfront, pushAll_concat]
    exact getLast?_push (hclean last (by simp)) hlast
  · rintro ⟨names, hnames⟩
    rw [hnames] at hhead
    cases hhead

end PrtsMcp.StorePaths
