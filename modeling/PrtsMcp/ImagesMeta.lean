import PrtsMcp.JsonRpc
import PrtsMcp.Paths

/-!
# The active image generation

The pointer of an image directory is a text in a file, and `active_generation` follows it on any
file system. What the file and the `serde_json` parser hold is arbitrary.
-/
namespace PrtsMcp.ImagesMeta

open Paths JsonValue

/-- What the process sees of the file system. The current directory is a list of names. -/
structure FileSystem where
  currentDir : List String
  readToString : Path → Option String
  isDir : Path → Bool
  isFile : Path → Bool

def FileSystem.absolute (fs : FileSystem) (path : Path) : Option Path :=
  Paths.absolute (rooted fs.currentDir) path

variable {φ : Type}

section Source

variable (fromStr : String → Option (JsonValue φ)) (fs : FileSystem) (imageDir : Path)

/-- `meta_path`. -/
def metaPath : Path := join imageDir ".images_meta.json".toList

/-- `load_meta`. -/
def loadMeta : Option (JsonValue φ) := do
  let text ← fs.readToString (metaPath imageDir)
  (fromStr text).filter isObject

/-- The text of the pointer, if it is one. -/
def generationRoot : Option String :=
  (((loadMeta fromStr fs imageDir).bind (get "generation_root")).bind asStr).filter (· ≠ "")

/-- The directory carries an index. -/
def carriesIndex (generation : Path) : Bool :=
  fs.isDir generation && fs.isFile (join generation "index.json".toList)

def activeGeneration : Option Path := do
  let rel ← generationRoot fromStr fs imageDir
  let base ← fs.absolute imageDir
  let generation := join base rel.toList
  if ¬ base.isPrefixOf generation then none
  else if carriesIndex fs generation then some generation
  else none

end Source

/-! ## Containment -/

/-- The pointer passes the prefix check and yet climbs out of the directory, to come back, if at
all, under other names. -/
def Escapes (base : Path) (rel : String) : Prop :=
  base <+: join base rel.toList ∧
    ¬ (way ((join base rel.toList).drop base.length)).Returns (resolve base)

instance (base : Path) (rel : String) : Decidable (Escapes base rel) := by
  unfold Escapes
  infer_instance

theorem activeGeneration_eq_some {fromStr : String → Option (JsonValue φ)} {fs : FileSystem}
    {imageDir generation : Path} :
    activeGeneration fromStr fs imageDir = some generation ↔
      ∃ rel base, generationRoot fromStr fs imageDir = some rel ∧
        fs.absolute imageDir = some base ∧ generation = join base rel.toList ∧
        base <+: generation ∧ carriesIndex fs generation = true := by
  simp only [activeGeneration, Option.bind_eq_bind, Option.bind_eq_some_iff, List.isPrefixOf_iff_prefix,
    Option.ite_none_left_eq_some, not_not, Option.ite_none_right_eq_some, Option.some.injEq]
  constructor
  · rintro ⟨rel, hrel, base, hbase, hpre, hindex, rfl⟩
    exact ⟨rel, base, hrel, hbase, rfl, hpre, hindex⟩
  · rintro ⟨rel, base, hrel, hbase, rfl, hpre, hindex⟩
    exact ⟨rel, hrel, base, hbase, hpre, hindex, rfl⟩

/-- Below an absolute directory the components of a joined path hold no second root. -/
theorem rootDir_notMem_drop_join {base : Path} (hbase : base ≠ []) (text : List Char) :
    Component.rootDir ∉ (join base text).drop base.length := by
  intro h
  unfold join at h
  split at h
  · obtain ⟨c, rest, rfl⟩ := List.exists_cons_of_ne_nil hbase
    rw [List.length_cons, ← List.drop_tail] at h
    exact rootDir_notMem_tail_components text (List.mem_of_mem_drop h)
  · rw [List.drop_left] at h
    exact rootDir_notMem_parts text h

/-- A generation that passes the prefix check lies inside unless its pointer escapes. -/
theorem inside_join_iff {base : Path} (hbase : base ≠ []) {rel : String}
    (hpre : base <+: join base rel.toList) :
    Inside (join base rel.toList) base ↔ ¬ Escapes base rel := by
  have hsplit : join base rel.toList = base ++ (join base rel.toList).drop base.length :=
    (List.prefix_iff_eq_append.mp hpre).symm
  rw [Escapes, not_and_not_right]
  conv_lhs => rw [hsplit]
  rw [inside_append_iff base (rootDir_notMem_drop_join hbase rel.toList)]
  exact ⟨fun h _ => h, fun h => h hpre⟩

theorem activeGeneration_inside_iff (fromStr : String → Option (JsonValue φ)) (fs : FileSystem)
    (imageDir : Path) :
    (∀ base generation, fs.absolute imageDir = some base →
        activeGeneration fromStr fs imageDir = some generation → Inside generation base) ↔
      ∀ rel base, generationRoot fromStr fs imageDir = some rel → fs.absolute imageDir = some base →
        Escapes base rel → carriesIndex fs (join base rel.toList) = false := by
  constructor
  · intro h rel base hrel hbase hescapes
    by_contra hindex
    have hactive : activeGeneration fromStr fs imageDir = some (join base rel.toList) :=
      activeGeneration_eq_some.mpr
        ⟨rel, base, hrel, hbase, rfl, hescapes.1, Bool.not_eq_false _ ▸ hindex⟩
    have hinside := h base _ hbase hactive
    exact (inside_join_iff (absolute_ne_nil hbase) hescapes.1).mp hinside hescapes
  · intro h base generation hbase hactive
    obtain ⟨rel, base', hrel, hbase', rfl, hpre, hindex⟩ := activeGeneration_eq_some.mp hactive
    obtain rfl : base' = base := Option.some_inj.mp (hbase'.symm.trans hbase)
    apply (inside_join_iff (absolute_ne_nil hbase) hpre).mpr
    intro hescapes
    rw [h rel base' hrel hbase hescapes] at hindex
    cases hindex

/-- An image directory beside a directory that carries an index. -/
def neighbours : FileSystem where
  currentDir := []
  readToString path := if path = components "/srv/images/.images_meta.json".toList then some "meta" else none
  isDir path := path = components "/srv/images/../elsewhere".toList
  isFile path := path = components "/srv/images/../elsewhere/index.json".toList

def pointsElsewhere : String → Option (JsonValue Unit) :=
  fun _ => some (.object [("generation_root", .string "../elsewhere")])

theorem activeGeneration_not_inside :
    ∃ base generation, neighbours.absolute (components "/srv/images".toList) = some base ∧
      activeGeneration pointsElsewhere neighbours (components "/srv/images".toList) = some generation ∧
      ¬ Inside generation base := by
  refine ⟨components "/srv/images".toList, components "/srv/images/../elsewhere".toList, ?_, ?_, ?_⟩
  all_goals decide +kernel

end PrtsMcp.ImagesMeta
