import Mathlib

/-!
# Unix paths

A path is the list of its components, with the operations of `std::path` on it. Resolving is
lexical: no link is followed, and the parent of the root is the root.
-/
namespace PrtsMcp.Paths

inductive Component where
  | rootDir
  | curDir
  | parentDir
  | normal (name : String)
  deriving DecidableEq, Repr

open Component

abbrev Path := List Component

/-- The components of the text between two slashes. -/
def segment : List Char → Option Component
  | [] => none
  | ['.'] => none
  | ['.', '.'] => some parentDir
  | name => some (normal (String.ofList name))

def parts (text : List Char) : Path := (text.splitOn '/').filterMap segment

/-- `Path::components`: a leading dot of a relative path is kept. -/
def components (text : List Char) : Path :=
  if text.head? = some '/' then rootDir :: parts text
  else if (text.splitOn '/').head? = some ['.'] then curDir :: parts text
  else parts text

/-- `Path::join`. -/
def join (base : Path) (text : List Char) : Path :=
  if text.head? = some '/' ∨ base = [] then components text else base ++ parts text

/-- `std::path::absolute` for a process that works in `cwd`. -/
def absolute (cwd path : Path) : Option Path :=
  match path with
  | [] => none
  | rootDir :: rest => some (rootDir :: rest)
  | curDir :: rest => some (cwd ++ rest)
  | path => some (cwd ++ path)

/-! ## Resolution -/

def enter (names : List String) : Component → List String
  | rootDir => []
  | curDir => names
  | parentDir => names.dropLast
  | normal name => names ++ [name]

/-- The names on the way from the root. -/
def resolve (path : Path) : List String := path.foldl enter []

/-- `path` is at or below `base` once both are resolved. -/
def Inside (path base : Path) : Prop := resolve base <+: resolve path

instance (path base : Path) : Decidable (Inside path base) :=
  inferInstanceAs (Decidable (resolve base <+: resolve path))

/-- The absolute path of a list of names. -/
def rooted (names : List String) : Path := rootDir :: names.map normal

theorem resolve_append (p q : Path) : resolve (p ++ q) = q.foldl enter (resolve p) :=
  List.foldl_append

theorem foldl_enter_normal (start names : List String) :
    (names.map normal).foldl enter start = start ++ names := by
  induction names generalizing start with
  | nil => exact (List.append_nil _).symm
  | cons name names ih =>
    rw [List.map_cons, List.foldl_cons, ih]
    exact List.append_assoc _ [name] _

@[simp]
theorem resolve_rooted (names : List String) : resolve (rooted names) = names := by
  rw [resolve, rooted, List.foldl_cons]
  exact foldl_enter_normal [] names

theorem absolute_ne_nil {names : List String} {path base : Path}
    (h : absolute (rooted names) path = some base) : base ≠ [] := by
  unfold absolute at h
  split at h
  · cases h
  all_goals
    cases h
    exact List.cons_ne_nil _ _

/-- An absolute path stays as it is. -/
theorem absolute_getD (names : List String) (path : Path) :
    absolute (rooted names) ((absolute (rooted names) path).getD path) =
      absolute (rooted names) path := by
  rcases path with _ | ⟨c, rest⟩
  · rfl
  · cases c <;> rfl

/-- A path in front of an absolute path without dots is one as well. -/
theorem eq_rooted_of_isPrefix {base : Path} {names : List String} (hbase : base ≠ [])
    (h : base <+: rooted names) : base = rooted (resolve base) ∧ resolve base <+: names := by
  obtain ⟨c, rest, rfl⟩ := List.exists_cons_of_ne_nil hbase
  obtain ⟨rfl, hrest⟩ := List.cons_prefix_cons.mp h
  obtain ⟨front, hfront, rfl⟩ := List.prefix_map_iff.mp hrest
  rw [show rootDir :: front.map normal = rooted front from rfl, resolve_rooted]
  exact ⟨rfl, hfront⟩

/-! ## The way of a path -/

/-- How far a path climbs above its start, and the names it then goes down. -/
structure Way where
  up : ℕ
  down : List String

def Way.step (w : Way) : Component → Way
  | rootDir => w
  | curDir => w
  | parentDir => if w.down = [] then ⟨w.up + 1, []⟩ else ⟨w.up, w.down.dropLast⟩
  | normal name => ⟨w.up, w.down ++ [name]⟩

def way (path : Path) : Way := path.foldl Way.step ⟨0, []⟩

/-- The names reached from a directory. -/
def Way.reach (w : Way) (names : List String) : List String := names.rdrop w.up ++ w.down

/-- The way leads into the directory it starts from: it does not climb, or it comes back through
the names it climbed over. -/
def Way.Returns (w : Way) (names : List String) : Prop := names.drop (names.length - w.up) <+: w.down

instance (w : Way) (names : List String) : Decidable (w.Returns names) :=
  inferInstanceAs (Decidable (names.drop (names.length - w.up) <+: w.down))

theorem enter_reach (w : Way) (names : List String) {c : Component} (hc : c ≠ rootDir) :
    enter (w.reach names) c = (w.step c).reach names := by
  cases c with
  | rootDir => exact absurd rfl hc
  | curDir => rfl
  | normal name => exact List.append_assoc _ _ _
  | parentDir =>
    unfold enter Way.step Way.reach
    dsimp only
    split
    · next hdown =>
      rw [hdown, List.append_nil, List.append_nil, List.dropLast_eq_take, List.rdrop, List.rdrop,
        List.take_take, List.length_take]
      dsimp only
      congr 1
      omega
    · next hdown => rw [List.dropLast_append_of_ne_nil hdown]

theorem foldl_enter_reach (names : List String) {path : Path} (hpath : rootDir ∉ path) (w : Way) :
    path.foldl enter (w.reach names) = (path.foldl Way.step w).reach names := by
  induction path generalizing w with
  | nil => rfl
  | cons c path ih =>
    rw [List.foldl_cons, List.foldl_cons, enter_reach w names (fun h => hpath (h ▸ List.mem_cons_self))]
    exact ih (fun h => hpath (List.mem_cons_of_mem _ h)) _

theorem foldl_enter (names : List String) {path : Path} (hpath : rootDir ∉ path) :
    path.foldl enter names = (way path).reach names := by
  have h := foldl_enter_reach names hpath ⟨0, []⟩
  rwa [Way.reach, List.rdrop_zero, List.append_nil] at h

theorem isPrefix_reach_iff (w : Way) (names : List String) : names <+: w.reach names ↔ w.Returns names := by
  have hsplit : names = names.rdrop w.up ++ names.drop (names.length - w.up) :=
    (List.take_append_drop _ names).symm
  unfold Way.reach Way.Returns
  conv_lhs => lhs; rw [hsplit]
  exact List.prefix_append_right_inj _

/-- A path below a directory leads into it when its way returns. -/
theorem inside_append_iff (base : Path) {path : Path} (hpath : rootDir ∉ path) :
    Inside (base ++ path) base ↔ (way path).Returns (resolve base) := by
  rw [Inside, resolve_append, foldl_enter _ hpath, isPrefix_reach_iff]

/-! ## Components of a text -/

theorem segment_ne_rootDir {text : List Char} {c : Component} (h : segment text = some c) :
    c ≠ rootDir := by
  rintro rfl
  unfold segment at h
  split at h <;> cases h

theorem rootDir_notMem_parts (text : List Char) : rootDir ∉ parts text := by
  intro h
  obtain ⟨piece, -, hpiece⟩ := List.mem_filterMap.mp h
  exact segment_ne_rootDir hpiece rfl

theorem rootDir_notMem_tail_components (text : List Char) : rootDir ∉ (components text).tail := by
  unfold components
  split
  · exact rootDir_notMem_parts text
  · split
    · exact rootDir_notMem_parts text
    · exact fun h => rootDir_notMem_parts text (List.mem_of_mem_tail h)

end PrtsMcp.Paths
