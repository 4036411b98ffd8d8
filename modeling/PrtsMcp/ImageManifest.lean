import PrtsMcp.Fallible
import PrtsMcp.JsonRpc
import PrtsMcp.SortedMap

/-!
# Image manifests

The index of an image release: the artworks with the files of their variants and, in the second
format, the physical parts that carry these files.
-/
namespace PrtsMcp

/-- What the code asks of the doubles `φ`. -/
class Doubles (φ : Type) where
  ofUInt64 : UInt64 → φ
  ofInt64 : Int64 → φ
  isFinite : φ → Bool
  nonPositive : φ → Bool
  isWhole : φ → Bool
  toUInt64 : φ → UInt64

namespace JsonValue

variable {φ : Type}

def asU64 : JsonValue φ → Option UInt64
  | number (.posInt n) => some n
  | _ => none

def asF64 [Doubles φ] : JsonValue φ → Option φ
  | number (.posInt n) => some (Doubles.ofUInt64 n)
  | number (.negInt n) => some (Doubles.ofInt64 n)
  | number (.float x) => some x
  | _ => none

end JsonValue

namespace ImageManifest

open Fallible JsonValue

abbrev Bytes := List UInt8

/-- A member of a zip: what is read of it, and the error its reading ends in. -/
structure ZipMember where
  name : String
  isDir : Bool
  data : Bytes
  broken : Option String
  deriving DecidableEq

/-- The crates that the sync calls: digests in lowercase hexadecimal, JSON texts and zip archives. -/
structure Crates (φ : Type) where
  sha256 : Bytes → String
  fromSlice : Bytes → Except String (JsonValue φ)
  toVec : JsonValue φ → Bytes
  toStringPretty : JsonValue φ → Bytes
  deserializeError : JsonValue φ → String
  unzip : Bytes → Except String (List (Except String ZipMember))

/-! ## Shards -/

def defaultShardKeys : List String :=
  ["chararts-large", "chararts-preview", "skinpack-large", "skinpack-preview"]

def originalShardKeys : List String := ["chararts-original", "skinpack-original"]

def neededShardKeys (includeOriginal : Bool) : List String :=
  if includeOriginal then defaultShardKeys ++ originalShardKeys else defaultShardKeys

def variantOrder : List String := ["original", "large", "preview"]

/-- The group of a variant. -/
def groupName (shard tier : String) : String := shard ++ "-" ++ tier

theorem groupName_mem {shard tier : String} {original : Bool} (htier : tier ∈ variantOrder)
    (h : groupName shard tier ∈ neededShardKeys true) :
    groupName shard tier ∈ neededShardKeys original ↔ (original || tier ≠ "original") := by
  have hsplit : ∀ key ∈ neededShardKeys true, ∀ tier ∈ variantOrder,
      ("-" ++ tier).toList <:+ key.toList → (key ∈ neededShardKeys false ↔ tier ≠ "original") := by
    decide
  cases original with
  | true => simpa using h
  | false =>
    rw [hsplit _ h tier htier ⟨shard.toList, by simp [groupName, String.append_assoc]⟩]
    simp

/-! ## The artworks -/

def schemaVersion : String := "akdp-images/v1"

def schema : String := "akdp-images/v2"

def imagesMeta : String := ".images_meta.json"

structure VariantMeta (φ : Type) where
  file : String
  width : φ
  height : φ
  bytes : φ
  sha256 : String

structure ArtworkEntry (φ : Type) where
  skinId : String
  kind : String
  shard : String
  sinceVersion : String
  variants : List (String × VariantMeta φ)

structure ImagesIndex (φ : Type) where
  baselineVersion : String
  currentVersion : String
  shards : List (String × String)
  artworks : List (String × ArtworkEntry φ)

variable {φ : Type} [Doubles φ]

def parseVariant (raw : Option (JsonValue φ)) : Option (VariantMeta φ) := do
  let fields ← (← raw).asObject
  let w ← (← fields.lookup "w").asF64
  let h ← (← fields.lookup "h").asF64
  let bytes ← (← fields.lookup "bytes").asF64
  let file ← (← fields.lookup "file").asStr
  let sha256 ← (← fields.lookup "sha256").asStr
  return ⟨file, w, h, bytes, sha256⟩

def stringOr (key fallback : String) (fields : List (String × JsonValue φ)) : String :=
  ((fields.lookup key).bind asStr).getD fallback

/-- The variants of the known names. -/
def parseVariants (fields : List (String × JsonValue φ)) : List (String × VariantMeta φ) :=
  SortedMap.ofEntries (variantOrder.filterMap fun name =>
    (parseVariant (fields.lookup name)).map (Prod.mk name))

/-- An entry without variants is dropped. -/
def parseArtwork (entry : String × JsonValue φ) : Option (String × ArtworkEntry φ) := do
  let fields ← entry.2.asObject
  match parseVariants fields with
  | [] => none
  | variants => some (entry.1, ⟨entry.1, stringOr "kind" "base" fields, stringOr "shard" "" fields,
      stringOr "sinceVersion" "" fields, variants⟩)

/-- The entries of an object under a key, or none. -/
def objectAt (key : String) (data : JsonValue φ) : List (String × JsonValue φ) :=
  ((data.get key).bind asObject).getD []

def parseContents (data : JsonValue φ) : Option (ImagesIndex φ) :=
  data.asObject.map fun fields =>
    { baselineVersion := stringOr "baselineVersion" "" fields
      currentVersion := stringOr "currentVersion" "" fields
      shards := SortedMap.ofEntries ((objectAt "shards" data).filterMap fun entry =>
        entry.2.asStr.map (Prod.mk entry.1))
      artworks := SortedMap.ofEntries ((objectAt "artworks" data).filterMap parseArtwork) }

omit [Doubles φ] in
theorem map_fst_mem {α β : Type} {names : List α} {f : α → Option β} {entry : α × β}
    (h : entry ∈ names.filterMap fun name => (f name).map (Prod.mk name)) : entry.1 ∈ names := by
  obtain ⟨name, hname, hentry⟩ := List.mem_filterMap.mp h
  obtain ⟨value, -, rfl⟩ := Option.map_eq_some_iff.mp hentry
  exact hname

theorem tier_mem_of_parseVariants {fields : List (String × JsonValue φ)}
    {variant : String × VariantMeta φ} (h : variant ∈ parseVariants fields) :
    variant.1 ∈ variantOrder := by
  apply map_fst_mem
  apply SortedMap.mem_of_lookup_ofEntries
  exact (SortedMap.sorted_ofEntries _).mem_iff.mp h

theorem tier_mem_of_parseContents {data : JsonValue φ} {view : ImagesIndex φ}
    (h : parseContents data = some view) {entry : String × ArtworkEntry φ}
    (hentry : entry ∈ view.artworks) {variant : String × VariantMeta φ}
    (hvariant : variant ∈ entry.2.variants) : variant.1 ∈ variantOrder := by
  obtain ⟨fields, -, rfl⟩ := Option.map_eq_some_iff.mp h
  have hmem : entry ∈ (objectAt "artworks" data).filterMap parseArtwork :=
    SortedMap.mem_of_lookup_ofEntries ((SortedMap.sorted_ofEntries _).mem_iff.mp hentry)
  obtain ⟨raw, -, hparse⟩ := List.mem_filterMap.mp hmem
  obtain ⟨fields, -, hparse⟩ := Option.bind_eq_some_iff.mp hparse
  split at hparse
  · cases hparse
  · cases hparse
    exact tier_mem_of_parseVariants hvariant

/-! ## The parts -/

structure Member where
  bytes : UInt64
  sha256 : String
  group : String
  deriving DecidableEq

structure Part where
  file : String
  bytes : UInt64
  sha256 : String
  group : String
  members : List (String × Member)
  deriving DecidableEq

structure Manifest where
  schemaVersion : String
  baselineVersion : String
  currentVersion : String
  previousVersion : Option String
  baselineParts : List Part
  deltaParts : List Part
  deriving DecidableEq

section Deserialize

omit [Doubles φ]

/-- The fields of a derived struct: of an object, or of an array of all of them. -/
def structFields (names : List String) : JsonValue φ → Option (List (Option (JsonValue φ)))
  | .object fields => some (names.map (List.lookup · fields))
  | .array items => if items.length = names.length then some (items.map some) else none
  | _ => none

def Member.deserialize (value : JsonValue φ) : Option Member := do
  match ← structFields ["bytes", "sha256", "group"] value with
  | [bytes, sha256, group] =>
    return ⟨← bytes.bind asU64, ← sha256.bind asStr, ← group.bind asStr⟩
  | _ => none

def deserializeMembers (value : JsonValue φ) : Option (List (String × Member)) := do
  let entries ← (← value.asObject).mapM fun entry =>
    (Member.deserialize entry.2).map (Prod.mk entry.1)
  return SortedMap.ofEntries entries

def Part.deserialize (value : JsonValue φ) : Option Part := do
  match ← structFields ["file", "bytes", "sha256", "group", "members"] value with
  | [file, bytes, sha256, group, members] =>
    return ⟨← file.bind asStr, ← bytes.bind asU64, ← sha256.bind asStr, ← group.bind asStr,
      ← members.bind deserializeMembers⟩
  | _ => none

/-- A field of type `Option<String>` may be absent or null. -/
def optionalString : Option (JsonValue φ) → Option (Option String)
  | none => some none
  | some .null => some none
  | some (.string s) => some (some s)
  | _ => none

def deserializeParts (value : JsonValue φ) : Option (List Part) := do
  (← value.asArray).mapM Part.deserialize

def Manifest.deserialize (value : JsonValue φ) : Option Manifest := do
  match ← structFields ["schemaVersion", "baselineVersion", "currentVersion", "previousVersion",
    "baselineParts", "deltaParts"] value with
  | [schemaVersion, baselineVersion, currentVersion, previousVersion, baselineParts, deltaParts] =>
    return ⟨← schemaVersion.bind asStr, ← baselineVersion.bind asStr, ← currentVersion.bind asStr,
      ← optionalString previousVersion, ← baselineParts.bind deserializeParts,
      ← deltaParts.bind deserializeParts⟩
  | _ => none

end Deserialize

/-! ## Validation -/

/-- A name that stays in its directory. -/
def flat (name : String) : Except String Unit :=
  if name = "" ∨ name = "." ∨ name = ".." ∨ name.toList.any (['/', '\\', '\x00', ':'].contains ·) then
    .error "unsafe v2 filename"
  else .ok ()

def isHexDigit (c : Char) : Bool :=
  c.isDigit || (97 ≤ c.toNat && c.toNat ≤ 102) || (65 ≤ c.toNat && c.toNat ≤ 70)

def digest (value : String) : Bool := value.toList.length = 64 && value.toList.all isHexDigit

/-- `make_ascii_lowercase`. -/
def lowercase (s : String) : String := String.ofList (s.toList.map Char.toLower)

/-- The members of one part, after the names met before. -/
def checkMembers (group : String) :
    List String → List (String × Member) → Except String (List String × List (String × Member))
  | seen, [] => .ok (seen, [])
  | seen, (name, member) :: rest => do
    flat name
    let member := { member with sha256 := lowercase member.sha256 }
    if name ∈ seen ∨ digest member.sha256 = false ∨ member.bytes = 0 ∨ member.group ≠ group then
      .error "invalid or duplicate part member"
    else do
      let (seen, checked) ← checkMembers group (name :: seen) rest
      return (seen, (name, member) :: checked)

/-- The parts of one list, after the files and member names met before. -/
def checkParts : List String → List String → List Part → Except String (List Part)
  | _, _, [] => .ok []
  | files, names, part :: rest => do
    flat part.file
    if part.file ∈ files ∨ part.bytes = 0 ∨ 2 * 1024 ^ 3 ≤ part.bytes.toNat ∨
        digest part.sha256 = false ∨ part.members = [] then
      .error "invalid or duplicate physical part"
    else do
      let (names, members) ← checkMembers part.group names part.members
      let checked ← checkParts (part.file :: files) names rest
      return { part with sha256 := lowercase part.sha256, members := members } :: checked

def checkPartList (parts : List Part) : Except String (List Part) :=
  if 997 < parts.length then .error "too many release parts" else checkParts [] [] parts

/-- A baseline stands alone; any other version follows its predecessor. -/
def checkPredecessor (index : Manifest) : Except String Unit :=
  if index.currentVersion = index.baselineVersion then
    if index.previousVersion.isSome ∨ index.deltaParts ≠ [] then
      .error "baseline must not carry a predecessor or delta parts"
    else .ok ()
  else do
    let prior ← okOr "missing predecessor" index.previousVersion
    flat prior
    if prior < index.baselineVersion ∨ index.currentVersion ≤ prior then
      .error "invalid predecessor order"
    else .ok ()

def checkManifest (index : Manifest) : Except String Manifest := do
  if index.schemaVersion ≠ schema then .error "unsupported image schema"
  else do
    flat index.currentVersion
    flat index.baselineVersion
    if index.currentVersion < index.baselineVersion then .error "baseline after current version"
    else do
      checkPredecessor index
      let baselineParts ← checkPartList index.baselineParts
      let deltaParts ← checkPartList index.deltaParts
      return { index with baselineParts := baselineParts, deltaParts := deltaParts }

/-- The variants of one artwork, after the file names met before. -/
def checkVariants (shard : String) : List String → List (String × VariantMeta φ) →
    Except String (List String × List (String × VariantMeta φ))
  | names, [] => .ok (names, [])
  | names, (tier, variant) :: rest => do
    flat variant.file
    let variant := { variant with sha256 := lowercase variant.sha256 }
    if variant.file ∈ names ∨ digest variant.sha256 = false ∨
        Doubles.isFinite variant.bytes = false ∨ Doubles.nonPositive variant.bytes ∨
        Doubles.isWhole variant.bytes = false ∨ Doubles.nonPositive variant.width ∨
        Doubles.nonPositive variant.height then
      .error "invalid artwork variant"
    else if groupName shard tier ∉ neededShardKeys true then .error "unsupported artwork group"
    else do
      let (names, checked) ← checkVariants shard (variant.file :: names) rest
      return (names, (tier, variant) :: checked)

def checkArtworks (raw : List (String × JsonValue φ)) : List String →
    List (String × ArtworkEntry φ) → Except String (List (String × ArtworkEntry φ))
  | _, [] => .ok []
  | names, (key, entry) :: rest => do
    if variantOrder.any fun tier => ((raw.lookup entry.skinId).bind (get tier)).isSome &&
        (entry.variants.lookup tier).isNone then
      .error "invalid declared artwork variant"
    else do
      let (names, variants) ← checkVariants entry.shard names entry.variants
      let checked ← checkArtworks raw names rest
      return (key, { entry with variants := variants }) :: checked

/-- The artworks of the second format. -/
def checkView (value : JsonValue φ) : Except String (ImagesIndex φ) := do
  let view ← okOr "missing artwork projection" (parseContents value)
  let raw ← okOr "missing artworks" ((value.get "artworks").bind asObject)
  if raw.length ≠ view.artworks.length then .error "invalid artwork entries"
  else do
    let artworks ← checkArtworks raw [] view.artworks
    return { view with artworks := artworks }

/-- `images_v2::parse`. -/
def parse (crates : Crates φ) (value : JsonValue φ) : Except String (Manifest × ImagesIndex φ) := do
  let index ← okOr (crates.deserializeError value) (Manifest.deserialize value)
  let index ← checkManifest index
  let view ← checkView value
  return (index, view)

def parseIndex (crates : Crates φ) (data : JsonValue φ) : Option (ImagesIndex φ) :=
  match (data.get "schemaVersion").bind asStr with
  | some "akdp-images/v1" => parseContents data
  | some "akdp-images/v2" => (parse crates data).toOption.map Prod.snd
  | _ => none

/-! ## What is accepted is well formed -/

/-- Every variant of an index, with its artwork and its tier. -/
def ImagesIndex.variants (view : ImagesIndex φ) :
    List (ArtworkEntry φ × String × VariantMeta φ) :=
  view.artworks.flatMap fun entry => entry.2.variants.map (Prod.mk entry.2)

/-- No two variants share a file, and every variant belongs to a known group. -/
structure ImagesIndex.WellFormed (view : ImagesIndex φ) : Prop where
  files : (view.variants.map fun v => v.2.2.file).Nodup
  tiers : ∀ v ∈ view.variants, v.2.1 ∈ variantOrder
  groups : ∀ v ∈ view.variants, groupName v.1.shard v.2.1 ∈ neededShardKeys true

/-- The members of the parts. -/
def partMembers (parts : List Part) : List (String × Member) := parts.flatMap Part.members

/-- No two parts share a member, and a member is of the group of its part. -/
structure PartsWellFormed (parts : List Part) : Prop where
  names : ((partMembers parts).map Prod.fst).Nodup
  groups : ∀ part ∈ parts, ∀ entry ∈ part.members, entry.2.group = part.group

/-- The versions of a release stand in the order of their texts. -/
inductive Manifest.Ordered (index : Manifest) : Prop where
  | baseline (hversion : index.currentVersion = index.baselineVersion)
      (hprevious : index.previousVersion = none) (hdelta : index.deltaParts = [])
  | follows (prior : String) (hprevious : index.previousVersion = some prior)
      (hbaseline : index.baselineVersion ≤ prior) (hprior : prior < index.currentVersion)

structure Manifest.WellFormed (index : Manifest) : Prop where
  version : flat index.currentVersion = .ok ()
  ordered : index.Ordered
  baselineParts : PartsWellFormed index.baselineParts
  deltaParts : PartsWellFormed index.deltaParts

omit [Doubles φ] in
theorem ite_error_eq_ok {c : Prop} [Decidable c] {α : Type} {message : String}
    {x : Except String α} {a : α} (h : (if c then .error message else x) = .ok a) :
    ¬ c ∧ x = .ok a := by
  split at h
  · cases h
  · next hc => exact ⟨hc, h⟩

theorem checkMembers_ok {group : String} {seen seen' : List String}
    {members checked : List (String × Member)}
    (h : checkMembers group seen members = .ok (seen', checked)) :
    seen' = (checked.map Prod.fst).reverse ++ seen ∧ (∀ entry ∈ checked, entry.2.group = group) ∧
      (seen.Nodup → seen'.Nodup) := by
  induction members generalizing seen checked with
  | nil =>
    cases h
    simp
  | cons entry rest ih =>
    obtain ⟨u, -, h⟩ := bind_eq_ok h
    obtain ⟨hvalid, h⟩ := ite_error_eq_ok h
    obtain ⟨⟨seen'', checked'⟩, hrest, h⟩ := bind_eq_ok h
    cases h
    simp only [not_or, not_not] at hvalid
    obtain ⟨rfl, hgroups, hnodup⟩ := ih hrest
    refine ⟨by simp, ?_, ?_⟩
    · intro e he
      rcases List.mem_cons.mp he with rfl | he
      · exact hvalid.2.2.2
      · exact hgroups e he
    · intro hseen
      exact hnodup (List.nodup_cons.mpr ⟨hvalid.1, hseen⟩)

theorem checkParts_ok {files names : List String} {parts checked : List Part}
    (h : checkParts files names parts = .ok checked) (hnames : names.Nodup) :
    (((partMembers checked).map Prod.fst).reverse ++ names).Nodup ∧
      ∀ part ∈ checked, ∀ entry ∈ part.members, entry.2.group = part.group := by
  induction parts generalizing files names checked with
  | nil =>
    cases h
    simpa [partMembers] using hnames
  | cons part rest ih =>
    obtain ⟨u, -, h⟩ := bind_eq_ok h
    obtain ⟨-, h⟩ := ite_error_eq_ok h
    obtain ⟨⟨names', members⟩, hmembers, h⟩ := bind_eq_ok h
    obtain ⟨checked', hrest, h⟩ := bind_eq_ok h
    cases h
    obtain ⟨rfl, hgroups, hnodup⟩ := checkMembers_ok hmembers
    obtain ⟨hrestNodup, hrestGroups⟩ := ih hrest (hnodup hnames)
    constructor
    · simpa [partMembers] using hrestNodup
    · intro p hp
      rcases List.mem_cons.mp hp with rfl | hp
      · exact hgroups
      · exact hrestGroups p hp

theorem checkPartList_ok {parts checked : List Part} (h : checkPartList parts = .ok checked) :
    PartsWellFormed checked := by
  obtain ⟨-, h⟩ := ite_error_eq_ok h
  obtain ⟨hnames, hgroups⟩ := checkParts_ok h List.nodup_nil
  rw [List.append_nil, List.nodup_reverse] at hnames
  exact ⟨hnames, hgroups⟩

theorem checkPredecessor_ok {index : Manifest} {u : Unit} (h : checkPredecessor index = .ok u) :
    index.Ordered := by
  unfold checkPredecessor at h
  split at h
  · next hversion =>
    obtain ⟨hnone, -⟩ := ite_error_eq_ok h
    rw [not_or, not_not, Option.not_isSome_iff_eq_none] at hnone
    exact .baseline hversion hnone.1 hnone.2
  · obtain ⟨prior, hprior, h⟩ := bind_eq_ok h
    obtain ⟨v, -, h⟩ := bind_eq_ok h
    obtain ⟨horder, -⟩ := ite_error_eq_ok h
    rw [not_or, not_lt, not_le] at horder
    exact .follows prior (okOr_eq_ok.mp hprior) horder.1 horder.2

theorem checkManifest_ok {index checked : Manifest} (h : checkManifest index = .ok checked) :
    checked.WellFormed := by
  obtain ⟨-, h⟩ := ite_error_eq_ok h
  obtain ⟨u, hflat, h⟩ := bind_eq_ok h
  obtain ⟨u, -, h⟩ := bind_eq_ok h
  obtain ⟨-, h⟩ := ite_error_eq_ok h
  obtain ⟨u, hpredecessor, h⟩ := bind_eq_ok h
  obtain ⟨baselineParts, hbaseline, h⟩ := bind_eq_ok h
  obtain ⟨deltaParts, hdelta, h⟩ := bind_eq_ok h
  cases h
  refine ⟨hflat, ?_, checkPartList_ok hbaseline, checkPartList_ok hdelta⟩
  rcases checkPredecessor_ok hpredecessor with ⟨hversion, hprevious, hempty⟩ |
    ⟨prior, hprevious, hbase, hprior⟩
  · refine .baseline hversion hprevious ?_
    rw [hempty] at hdelta
    cases hdelta
    rfl
  · exact .follows prior hprevious hbase hprior

theorem checkVariants_ok {shard : String} {names names' : List String}
    {variants checked : List (String × VariantMeta φ)}
    (h : checkVariants shard names variants = .ok (names', checked)) :
    names' = (checked.map fun v => v.2.file).reverse ++ names ∧
      checked.map Prod.fst = variants.map Prod.fst ∧
      (∀ v ∈ checked, groupName shard v.1 ∈ neededShardKeys true) ∧
      (names.Nodup → names'.Nodup) := by
  induction variants generalizing names checked with
  | nil =>
    cases h
    simp
  | cons entry rest ih =>
    obtain ⟨u, -, h⟩ := bind_eq_ok h
    obtain ⟨hvalid, h⟩ := ite_error_eq_ok h
    obtain ⟨hgroup, h⟩ := ite_error_eq_ok h
    obtain ⟨⟨names'', checked'⟩, hrest, h⟩ := bind_eq_ok h
    cases h
    obtain ⟨rfl, htiers, hgroups, hnodup⟩ := ih hrest
    refine ⟨by simp, by simp [htiers], ?_, ?_⟩
    · intro v hv
      rcases List.mem_cons.mp hv with rfl | hv
      · exact not_not.mp hgroup
      · exact hgroups v hv
    · intro hnames
      exact hnodup (List.nodup_cons.mpr ⟨fun hmem => hvalid (.inl hmem), hnames⟩)

theorem checkArtworks_ok {raw : List (String × JsonValue φ)} {names : List String}
    {artworks checked : List (String × ArtworkEntry φ)}
    (h : checkArtworks raw names artworks = .ok checked) (hnames : names.Nodup) :
    ((checked.flatMap fun e => e.2.variants.map fun v => v.2.file).reverse ++ names).Nodup ∧
      checked.map (fun e => e.2.variants.map Prod.fst) =
        artworks.map (fun e => e.2.variants.map Prod.fst) ∧
      ∀ e ∈ checked, ∀ v ∈ e.2.variants, groupName e.2.shard v.1 ∈ neededShardKeys true := by
  induction artworks generalizing names checked with
  | nil =>
    cases h
    simpa using hnames
  | cons entry rest ih =>
    obtain ⟨-, h⟩ := ite_error_eq_ok h
    obtain ⟨⟨names', variants⟩, hvariants, h⟩ := bind_eq_ok h
    obtain ⟨checked', hrest, h⟩ := bind_eq_ok h
    cases h
    obtain ⟨rfl, htiers, hgroups, hnodup⟩ := checkVariants_ok hvariants
    obtain ⟨hrestNodup, hrestTiers, hrestGroups⟩ := ih hrest (hnodup hnames)
    refine ⟨by simpa using hrestNodup, by simp [htiers, hrestTiers], ?_⟩
    intro e he
    rcases List.mem_cons.mp he with rfl | he
    · exact hgroups
    · exact hrestGroups e he

theorem checkView_ok {value : JsonValue φ} {view : ImagesIndex φ} (h : checkView value = .ok view) :
    view.WellFormed := by
  obtain ⟨read, hread, h⟩ := bind_eq_ok h
  obtain ⟨raw, -, h⟩ := bind_eq_ok h
  obtain ⟨-, h⟩ := ite_error_eq_ok h
  obtain ⟨artworks, hartworks, h⟩ := bind_eq_ok h
  cases h
  obtain ⟨hnodup, htiers, hgroups⟩ := checkArtworks_ok hartworks List.nodup_nil
  rw [List.append_nil, List.nodup_reverse] at hnodup
  refine ⟨?_, ?_, ?_⟩
  · simpa [ImagesIndex.variants, List.map_flatMap, Function.comp_def] using hnodup
  · intro v hv
    obtain ⟨entry, hentry, hv⟩ := List.mem_flatMap.mp hv
    obtain ⟨variant, hvariant, rfl⟩ := List.mem_map.mp hv
    have hlist : entry.2.variants.map Prod.fst ∈
        read.artworks.map (fun e => e.2.variants.map Prod.fst) := by
      rw [← htiers]
      exact List.mem_map.mpr ⟨entry, hentry, rfl⟩
    obtain ⟨old, hold, heq⟩ := List.mem_map.mp hlist
    have htier : variant.1 ∈ old.2.variants.map Prod.fst := by
      rw [heq]
      exact List.mem_map.mpr ⟨variant, hvariant, rfl⟩
    obtain ⟨known, hknown, hname⟩ := List.mem_map.mp htier
    rw [← hname]
    exact tier_mem_of_parseContents (okOr_eq_ok.mp hread) hold hknown
  · intro v hv
    obtain ⟨entry, hentry, hv⟩ := List.mem_flatMap.mp hv
    obtain ⟨variant, hvariant, rfl⟩ := List.mem_map.mp hv
    exact hgroups entry hentry variant hvariant

/-- What the parser accepts is well formed. -/
theorem parse_wellFormed {crates : Crates φ} {value : JsonValue φ} {index : Manifest}
    {view : ImagesIndex φ} (h : parse crates value = .ok (index, view)) :
    index.WellFormed ∧ view.WellFormed := by
  obtain ⟨raw, -, h⟩ := bind_eq_ok h
  obtain ⟨checked, hindex, h⟩ := bind_eq_ok h
  obtain ⟨read, hview, h⟩ := bind_eq_ok h
  cases h
  exact ⟨checkManifest_ok hindex, checkView_ok hview⟩

end ImageManifest

end PrtsMcp
