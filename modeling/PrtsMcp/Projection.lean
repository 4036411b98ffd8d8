import PrtsMcp.JsonValue

/-!
# Projected reading

The readers of JSON text that keep only the fields of a projection: the one that builds values, the
one that builds frozen trees, and the pruning of a fully parsed value.
-/
namespace PrtsMcp.Projected

variable {φ ε : Type}

mutual

/-- What the parser hands to a visitor, in the order of the text, down to its first error. The
numbers are those of `visit_i64`, `visit_u64` and `visit_f64`. -/
inductive Document (φ ε : Type) where
  | unit
  | bool (b : Bool)
  | i64 (n : Int64)
  | u64 (n : UInt64)
  | f64 (x : φ)
  | str (s : String)
  | seq (items : Items φ ε)
  | map (entries : Entries φ ε)
  | fail (error : ε)

/-- The elements that a sequence still has. -/
inductive Items (φ ε : Type) where
  | close
  | stop (error : ε)
  | next (item : Document φ ε) (rest : Items φ ε)

/-- The entries that a map still has. -/
inductive Entries (φ ε : Type) where
  | close
  | stop (error : ε)
  | next (key : String) (value : Document φ ε) (rest : Entries φ ε)

end

/-- The parser on a text: the document, and what follows it if that is an error. -/
abbrev Parser (φ ε : Type) := String → Document φ ε × Except ε Unit

/-- `Number::from_f64` keeps finite doubles. -/
class Doubles (φ : Type) where
  isFinite : φ → Bool

inductive Projection where
  | all
  | fields (names : List (String × Projection))
  | values (child : Projection)
  | elements (child : Projection)
  | discard

namespace Projection

def isDiscard : Projection → Bool
  | discard => true
  | _ => false

def isAll : Projection → Bool
  | all => true
  | _ => false

theorem isDiscard_iff {p : Projection} : p.isDiscard = true ↔ p = discard := by
  cases p <;> simp [isDiscard]

theorem isAll_iff {p : Projection} : p.isAll = true ↔ p = all := by
  cases p <;> simp [isAll]

/-- The projection of a field that is kept. -/
def fieldOf (names : List (String × Projection)) (key : String) : Projection :=
  ((names.find? fun entry => entry.1 = key).map Prod.snd).getD discard

end Projection

open Projection OrderedMap

section Readers

variable [Doubles φ]

/-- `Value` from a double. -/
def floatValue (x : φ) : JsonValue φ := if Doubles.isFinite x then .number (.float x) else .null

mutual

/-- `Value::deserialize`. -/
def parseValue : Document φ ε → Except ε (JsonValue φ)
  | .unit => .ok .null
  | .bool b => .ok (.bool b)
  | .i64 n => .ok (.number (.ofI64 n))
  | .u64 n => .ok (.number (.posInt n))
  | .f64 x => .ok (floatValue x)
  | .str s => .ok (.string s)
  | .seq items => (parseItems items).map .array
  | .map entries => (parseEntries [] entries).map .object
  | .fail e => .error e

def parseItems : Items φ ε → Except ε (List (JsonValue φ))
  | .close => .ok []
  | .stop e => .error e
  | .next item rest => do
    let value ← parseValue item
    let values ← parseItems rest
    pure (value :: values)

def parseEntries (map : List (String × JsonValue φ)) :
    Entries φ ε → Except ε (List (String × JsonValue φ))
  | .close => .ok map
  | .stop e => .error e
  | .next key value rest => do
    let value ← parseValue value
    parseEntries (insert key value map) rest

end

namespace Projection

/-- `keep`. -/
def keep (p : Projection) (value : JsonValue φ) : JsonValue φ :=
  if p.isDiscard then .null else value

/-- The projection of an element, in `visit_seq`. -/
def element : Projection → Projection
  | discard => discard
  | elements child => child
  | _ => all

/-- The projection of a field, in `visit_map`. -/
def field (p : Projection) (key : String) : Projection :=
  match p with
  | fields names => fieldOf names key
  | values child => child
  | elements _ => all
  | other => other

mutual

/-- The visitor of `projection::from_str`. -/
def read (p : Projection) : Document φ ε → Except ε (JsonValue φ)
  | .unit => .ok .null
  | .bool b => .ok (p.keep (.bool b))
  | .i64 n => .ok (p.keep (.number (.ofI64 n)))
  | .u64 n => .ok (p.keep (.number (.posInt n)))
  | .f64 x => .ok (p.keep (floatValue x))
  | .str s => .ok (p.keep (.string s))
  | .seq items =>
    if p.isAll then (parseItems items).map .array
    else (readItems p.element p.isDiscard items).map fun values => p.keep (.array values)
  | .map entries =>
    if p.isAll then (parseEntries [] entries).map .object
    else (readEntries p [] entries).map fun values => p.keep (.object values)
  | .fail e => .error e

def readItems (child : Projection) (discards : Bool) : Items φ ε → Except ε (List (JsonValue φ))
  | .close => .ok []
  | .stop e => .error e
  | .next item rest => do
    let value ← child.read item
    let values ← readItems child discards rest
    pure (if discards then values else value :: values)

def readEntries (p : Projection) (map : List (String × JsonValue φ)) :
    Entries φ ε → Except ε (List (String × JsonValue φ))
  | .close => .ok map
  | .stop e => .error e
  | .next key value rest => do
    let value ← (p.field key).read value
    readEntries p (if (p.field key).isDiscard then map else insert key value map) rest

end

end Projection

/-- The fields of a frozen object as they are read: wide ones have a table of the places of their
keys. -/
structure FrozenFields (φ : Type) where
  values : List (String × FrozenValue φ)
  positions : Option (List (String × ℕ))

def FrozenFields.existing (s : FrozenFields φ) (key : String) : Option ℕ :=
  match s.positions with
  | some positions => positions.lookup key
  | none => s.values.findIdx? fun entry => entry.1 = key

/-- The table is made with the sixteenth key. -/
def FrozenFields.push (s : FrozenFields φ) (key : String) (value : FrozenValue φ) :
    FrozenFields φ :=
  let values := s.values ++ [(key, value)]
  match s.positions with
  | some positions => ⟨values, some ((key, s.values.length) :: positions)⟩
  | none => ⟨values, if values.length = 16 then some (placesFrom 0 values) else none⟩

def FrozenFields.put (s : FrozenFields φ) (key : String) (value : FrozenValue φ) :
    FrozenFields φ :=
  match s.existing key with
  | some i => { s with values := s.values.modify i fun entry => (entry.1, value) }
  | none => s.push key value

/-- `FrozenValue` from a double. -/
def frozenFloat (x : φ) : FrozenValue φ := if Doubles.isFinite x then .number (.float x) else .null

/-- The projection of an element, in the `visit_seq` of the frozen reader. -/
def frozenElement : Projection → Projection
  | .elements child => child
  | _ => .all

/-- The projection of a field, in the `visit_map` of the frozen reader. -/
def frozenField (p : Projection) (key : String) : Projection :=
  match p with
  | .fields names => fieldOf names key
  | .values child => child
  | _ => .all

mutual

/-- The visitor of `frozen::from_str`; what it discards it reads as the other one does. -/
def freeze (p : Projection) : Document φ ε → Except ε (FrozenValue φ)
  | .unit => .ok .null
  | .bool b => .ok (if p.isDiscard then .null else .bool b)
  | .i64 n => .ok (if p.isDiscard then .null else .number (.ofI64 n))
  | .u64 n => .ok (if p.isDiscard then .null else .number (.posInt n))
  | .f64 x => .ok (if p.isDiscard then .null else frozenFloat x)
  | .str s => .ok (if p.isDiscard then .null else .string s)
  | .seq items =>
    if p.isDiscard then (discard.read (.seq items)).map fun _ => .null
    else (freezeItems (frozenElement p) items).map .array
  | .map entries =>
    if p.isDiscard then (discard.read (.map entries)).map fun _ => .null
    else (freezeEntries p ⟨[], none⟩ entries).map fun s => .object s.values
  | .fail e => .error e

def freezeItems (child : Projection) : Items φ ε → Except ε (List (FrozenValue φ))
  | .close => .ok []
  | .stop e => .error e
  | .next item rest => do
    let value ← freeze child item
    let values ← freezeItems child rest
    pure (value :: values)

def freezeEntries (p : Projection) (s : FrozenFields φ) :
    Entries φ ε → Except ε (FrozenFields φ)
  | .close => .ok s
  | .stop e => .error e
  | .next key value rest => do
    let value ← freeze (frozenField p key) value
    freezeEntries p (if (frozenField p key).isDiscard then s else s.put key value) rest

end

/-- A reader of a whole text: what follows the document must be blank. -/
def fromStr {α : Type} (visit : Document φ ε → Except ε α) (parser : Parser φ ε) (text : String) :
    Except ε α := do
  let value ← visit (parser text).1
  (parser text).2
  pure value

end Readers

section Pruning

namespace Projection

mutual

/-- A parsed value without what the projection leaves out. -/
def prune (p : Projection) : JsonValue φ → JsonValue φ
  | .null => .null
  | .bool b => p.keep (.bool b)
  | .number n => p.keep (.number n)
  | .string s => p.keep (.string s)
  | .array items => p.keep (.array (pruneItems p.element items))
  | .object entries => p.keep (.object (pruneFields p entries))

def pruneItems (child : Projection) : List (JsonValue φ) → List (JsonValue φ)
  | [] => []
  | item :: items => child.prune item :: pruneItems child items

def pruneFields (p : Projection) : List (String × JsonValue φ) → List (String × JsonValue φ)
  | [] => []
  | (key, value) :: entries =>
    if (p.field key).isDiscard then pruneFields p entries
    else (key, (p.field key).prune value) :: pruneFields p entries

end

/-- What a projection makes of a field. -/
def pruneField (p : Projection) (key : String) (value : JsonValue φ) : Option (JsonValue φ) :=
  if (p.field key).isDiscard then none else some ((p.field key).prune value)

theorem pruneItems_eq_map (child : Projection) (items : List (JsonValue φ)) :
    pruneItems child items = items.map child.prune := by
  induction items with
  | nil => rfl
  | cons item items ih => rw [pruneItems, ih, List.map_cons]

theorem pruneFields_eq_filterValues (p : Projection) (entries : List (String × JsonValue φ)) :
    pruneFields p entries = filterValues p.pruneField entries := by
  induction entries with
  | nil => rfl
  | cons entry entries ih =>
    rw [pruneFields, ih]
    by_cases h : (p.field entry.1).isDiscard
    · simp [filterValues, pruneField, h]
    · simp [filterValues, pruneField, h]

theorem prune_discard (value : JsonValue φ) : discard.prune value = .null := by
  cases value <;> rw [prune] <;> rfl

mutual

theorem prune_all : (value : JsonValue φ) → all.prune value = value
  | .null => by rw [prune]
  | .bool b => by rw [prune]; rfl
  | .number n => by rw [prune]; rfl
  | .string s => by rw [prune]; rfl
  | .array items => by
    rw [prune]
    change JsonValue.array (pruneItems all items) = .array items
    rw [pruneItems_all items]
  | .object entries => by
    rw [prune]
    change JsonValue.object (pruneFields all entries) = .object entries
    rw [pruneFields_all entries]

theorem pruneItems_all : (items : List (JsonValue φ)) → pruneItems all items = items
  | [] => rfl
  | item :: items => by rw [pruneItems, prune_all item, pruneItems_all items]

theorem pruneFields_all : (entries : List (String × JsonValue φ)) → pruneFields all entries = entries
  | [] => rfl
  | (key, value) :: entries => by
    have hall : all.field key = all := rfl
    have hkept : ¬ (isDiscard all : Prop) := by decide
    rw [pruneFields, hall, if_neg hkept, prune_all value, pruneFields_all entries]

end

section Shape

variable {p : Projection} (hp : p.isDiscard = false)

include hp

theorem prune_object (fields : List (String × JsonValue φ)) :
    p.prune (.object fields) = .object (filterValues p.pruneField fields) := by
  rw [prune, keep, hp, pruneFields_eq_filterValues]
  rfl

theorem prune_array (items : List (JsonValue φ)) :
    p.prune (.array items) = .array (items.map p.element.prune) := by
  rw [prune, keep, hp, pruneItems_eq_map]
  rfl

/-- A projection keeps what does not depend on the contents of objects and arrays. -/
theorem prune_shape {γ : Type*} {f : JsonValue φ → γ} (hobject : ∀ a b, f (.object a) = f (.object b))
    (harray : ∀ a b, f (.array a) = f (.array b)) (v : JsonValue φ) : f (p.prune v) = f v := by
  cases v with
  | object fields =>
    rw [prune_object hp]
    exact hobject _ _
  | array items =>
    rw [prune_array hp]
    exact harray _ _
  | null => rw [prune]
  | bool | number | string => rw [prune, keep, hp]; rfl

end Shape

/-- An insertion into the parsed map shows in the pruned one unless the field is left out. -/
theorem filterValues_insert (p : Projection) (key : String) (value : JsonValue φ)
    (map : List (String × JsonValue φ)) :
    filterValues p.pruneField (insert key value map) =
      if (p.field key).isDiscard then filterValues p.pruneField map
      else insert key ((p.field key).prune value) (filterValues p.pruneField map) := by
  by_cases h : (p.field key).isDiscard
  · rw [if_pos h]
    apply filterValues_insert_none
    intro a
    simp [pruneField, h]
  · rw [if_neg h]
    apply filterValues_insert_some
    · intro a
      simp [pruneField, h]
    · simp [pruneField, h]

end Projection

end Pruning

section Results

variable {α β γ α' β' γ' : Type} {f : α → γ} {g : β → γ} {f' : α' → γ'} {g' : β' → γ'}

/-- Two readings that agree, continued in ways that agree. -/
theorem bind_agree {x : Except ε α} {y : Except ε β} (h : x.map f = y.map g)
    {k : α → Except ε α'} {l : β → Except ε β'}
    (hcont : ∀ a b, f a = g b → (k a).map f' = (l b).map g') :
    (x >>= k).map f' = (y >>= l).map g' := by
  cases x with
  | error e =>
    cases y with
    | error e' =>
      cases h
      rfl
    | ok b => cases h
  | ok a =>
    cases y with
    | error e' => cases h
    | ok b => exact hcont a b (Except.ok.inj h)

theorem map_agree {x : Except ε α} {y : Except ε β} (h : x.map f = y.map g)
    {k : α → α'} {l : β → β'} (hcont : ∀ a b, f a = g b → f' (k a) = g' (l b)) :
    (x.map k).map f' = (y.map l).map g' :=
  bind_agree h (k := fun a => .ok (k a)) (l := fun b => .ok (l b)) fun a b hab =>
    congrArg Except.ok (hcont a b hab)

end Results

section Indexed

/-- The keys of the frozen fields are different and the table, if any, is that of their places. -/
structure FrozenFields.Indexed (s : FrozenFields φ) : Prop where
  keys : (s.values.map Prod.fst).Nodup
  places : ∀ positions, s.positions = some positions → Locates positions s.values

theorem FrozenFields.Indexed.existing {s : FrozenFields φ} (hs : s.Indexed) (key : String) :
    s.existing key = s.values.findIdx? fun entry => entry.1 = key := by
  unfold FrozenFields.existing
  cases hp : s.positions with
  | none => rfl
  | some positions => exact hs.places positions hp key

/-- The frozen reader inserts as a map does. -/
theorem FrozenFields.Indexed.values_put {s : FrozenFields φ} (hs : s.Indexed) (key : String)
    (value : FrozenValue φ) : (s.put key value).values = insert key value s.values := by
  unfold FrozenFields.put
  rw [hs.existing]
  cases hfind : s.values.findIdx? fun entry => entry.1 = key with
  | some i => exact insert_of_findIdx? hfind
  | none =>
    rw [insert_of_notMem (findIdx?_eq_none_iff_notMem.mp hfind)]
    unfold FrozenFields.push
    cases s.positions <;> rfl

theorem FrozenFields.Indexed.put {s : FrozenFields φ} (hs : s.Indexed) (key : String)
    (value : FrozenValue φ) : (s.put key value).Indexed := by
  constructor
  · rw [hs.values_put]
    exact nodup_insert hs.keys key value
  · rw [hs.values_put]
    intro positions
    unfold FrozenFields.put
    rw [hs.existing]
    cases hfind : s.values.findIdx? fun entry => entry.1 = key with
    | some i =>
      intro hp
      apply (hs.places positions hp).insert_of_mem
      by_contra hnot
      rw [findIdx?_eq_none_iff_notMem.mpr hnot] at hfind
      cases hfind
    | none =>
      have hnot := findIdx?_eq_none_iff_notMem.mp hfind
      unfold FrozenFields.push
      cases hold : s.positions with
      | some table =>
        rintro ⟨⟩
        exact (hs.places table hold).insert_of_notMem hnot value
      | none =>
        intro hp
        rw [insert_of_notMem hnot]
        by_cases hwide : (s.values ++ [(key, value)]).length = 16
        · simp only [hwide, if_true, Option.some.injEq] at hp
          rw [← hp]
          exact locates_places _
        · simp only [hwide, if_false] at hp
          cases hp

end Indexed

section Agreement

variable [Doubles φ]

theorem prune_floatValue (p : Projection) (x : φ) :
    p.prune (floatValue x) = p.keep (floatValue x) := by
  unfold floatValue
  split
  · rw [prune]
  · rw [prune, keep, ite_self]

mutual

/-- The projected reading is the pruning of the full one. -/
theorem read_eq (p : Projection) : (doc : Document φ ε) →
    p.read doc = (parseValue doc).map p.prune
  | .unit => by rw [Projection.read, parseValue, Except.map, prune]
  | .bool b => by rw [Projection.read, parseValue, Except.map, prune]
  | .i64 n => by rw [Projection.read, parseValue, Except.map, prune]
  | .u64 n => by rw [Projection.read, parseValue, Except.map, prune]
  | .f64 x => by rw [Projection.read, parseValue, Except.map, prune_floatValue]
  | .str s => by rw [Projection.read, parseValue, Except.map, prune]
  | .seq items => by
    rw [Projection.read, parseValue]
    by_cases hall : p = all
    · subst hall
      change (parseItems items).map JsonValue.array = _
      cases parseItems items with
      | error e => rfl
      | ok values =>
        simp only [Except.map]
        rw [prune_all]
    · rw [if_neg (mt isAll_iff.mp hall), readItems_eq p.element p.isDiscard items]
      cases parseItems items with
      | error e => rfl
      | ok values =>
        simp only [Except.map]
        rw [prune, pruneItems_eq_map]
        by_cases hd : p.isDiscard
        · simp [keep, hd]
        · simp [hd]
  | .map entries => by
    rw [Projection.read, parseValue]
    by_cases hall : p = all
    · subst hall
      change (parseEntries [] entries).map JsonValue.object = _
      cases parseEntries [] entries with
      | error e => rfl
      | ok values =>
        simp only [Except.map]
        rw [prune_all]
    · rw [if_neg (mt isAll_iff.mp hall)]
      have hentries := readEntries_eq p [] entries
      change readEntries p [] entries = _ at hentries
      rw [hentries]
      cases parseEntries [] entries with
      | error e => rfl
      | ok values =>
        simp only [Except.map]
        rw [prune, pruneFields_eq_filterValues]
  | .fail e => rfl

theorem readItems_eq (child : Projection) (discards : Bool) : (items : Items φ ε) →
    readItems child discards items =
      (parseItems items).map fun values => if discards then [] else values.map child.prune
  | .close => by
    rw [readItems, parseItems]
    cases discards <;> rfl
  | .stop e => rfl
  | .next item rest => by
    rw [readItems, parseItems, read_eq child item, readItems_eq child discards rest]
    cases parseValue item with
    | error e => rfl
    | ok value =>
      cases parseItems rest with
      | error e => rfl
      | ok values => cases discards <;> rfl

/-- The projected map is the pruned one after every entry. -/
theorem readEntries_eq (p : Projection) (map : List (String × JsonValue φ)) :
    (entries : Entries φ ε) →
    readEntries p (filterValues p.pruneField map) entries =
      (parseEntries map entries).map (filterValues p.pruneField)
  | .close => rfl
  | .stop e => rfl
  | .next key value rest => by
    rw [readEntries, parseEntries, read_eq (p.field key) value]
    cases parseValue value with
    | error e => rfl
    | ok v =>
      have hrest := readEntries_eq p (insert key v map) rest
      rw [filterValues_insert] at hrest
      exact hrest

end

theorem toValue_frozenFloat (x : φ) : (frozenFloat x).toValue = floatValue x := by
  unfold frozenFloat floatValue
  split <;> rw [FrozenValue.toValue]

omit [Doubles φ] in
theorem frozenElement_eq {p : Projection} (hp : ¬ (p.isDiscard : Prop)) :
    frozenElement p = p.element := by
  cases p <;> first | rfl | exact absurd rfl hp

omit [Doubles φ] in
theorem frozenField_eq {p : Projection} (hp : ¬ (p.isDiscard : Prop)) (key : String) :
    frozenField p key = p.field key := by
  cases p <;> first | rfl | exact absurd rfl hp

/-- What is discarded is still parsed. -/
theorem read_discard (doc : Document φ ε) :
    (discard.read doc).map (fun _ => JsonValue.null) = (parseValue doc).map discard.prune := by
  rw [read_eq]
  cases parseValue doc with
  | error e => rfl
  | ok value =>
    simp only [Except.map]
    rw [prune_discard]

mutual

/-- Thawed, the frozen reading is the pruning of the full one. -/
theorem freeze_eq (p : Projection) : (doc : Document φ ε) →
    (freeze p doc).map FrozenValue.toValue = (parseValue doc).map p.prune
  | .unit => by rw [freeze, parseValue, Except.map, Except.map, FrozenValue.toValue, prune]
  | .bool b => by
    rw [freeze, parseValue, Except.map, Except.map, prune, keep]
    split <;> rw [FrozenValue.toValue]
  | .i64 n => by
    rw [freeze, parseValue, Except.map, Except.map, prune, keep]
    split <;> rw [FrozenValue.toValue]
  | .u64 n => by
    rw [freeze, parseValue, Except.map, Except.map, prune, keep]
    split <;> rw [FrozenValue.toValue]
  | .f64 x => by
    rw [freeze, parseValue, Except.map, Except.map, prune_floatValue, keep]
    split
    · rw [FrozenValue.toValue]
    · exact congrArg Except.ok (toValue_frozenFloat x)
  | .str s => by
    rw [freeze, parseValue, Except.map, Except.map, prune, keep]
    split <;> rw [FrozenValue.toValue]
  | .seq items => by
    rw [freeze]
    by_cases hd : p.isDiscard
    · have hp : p = discard := isDiscard_iff.mp hd
      subst hp
      rw [if_pos hd, ← read_discard]
      cases discard.read (Document.seq items) <;> rfl
    · rw [if_neg hd, parseValue, frozenElement_eq hd]
      apply map_agree (freezeItems_eq p.element items)
      intro frozen values heq
      rw [FrozenValue.toValue, prune, pruneItems_eq_map, keep, if_neg hd, heq]
  | .map entries => by
    rw [freeze]
    by_cases hd : p.isDiscard
    · have hp : p = discard := isDiscard_iff.mp hd
      subst hp
      rw [if_pos hd, ← read_discard]
      cases discard.read (Document.map entries) <;> rfl
    · rw [if_neg hd, parseValue]
      have hempty : FrozenFields.Indexed (⟨[], none⟩ : FrozenFields φ) :=
        ⟨List.nodup_nil, fun _ h => nomatch h⟩
      apply map_agree (freezeEntries_eq p hd ⟨[], none⟩ hempty [] rfl entries)
      intro s map heq
      rw [FrozenValue.toValue, prune, pruneFields_eq_filterValues, keep, if_neg hd, heq]
  | .fail e => rfl

theorem freezeItems_eq (child : Projection) : (items : Items φ ε) →
    (freezeItems child items).map FrozenValue.toValues =
      (parseItems items).map (List.map child.prune)
  | .close => rfl
  | .stop e => rfl
  | .next item rest => by
    rw [freezeItems, parseItems]
    apply bind_agree (freeze_eq child item)
    intro frozen value hitem
    apply bind_agree (freezeItems_eq child rest)
    intro frozens values hrest
    change Except.ok _ = Except.ok _
    rw [FrozenValue.toValues, hitem, hrest, List.map_cons]

/-- The frozen fields hold the pruned map after every entry. -/
theorem freezeEntries_eq (p : Projection) (hp : ¬ (p.isDiscard : Prop)) (s : FrozenFields φ)
    (hs : s.Indexed) (map : List (String × JsonValue φ))
    (hmap : FrozenValue.toFields s.values = filterValues p.pruneField map) :
    (entries : Entries φ ε) →
    (freezeEntries p s entries).map (fun s => ofEntries (FrozenValue.toFields s.values)) =
      (parseEntries map entries).map (filterValues p.pruneField)
  | .close => by
    have hkeys : ((FrozenValue.toFields s.values).map Prod.fst).Nodup := by
      rw [FrozenValue.toFields_eq_mapValues, keys_mapValues]
      exact hs.keys
    change Except.ok (ofEntries (FrozenValue.toFields s.values)) = Except.ok _
    rw [ofEntries_of_nodup hkeys, hmap]
  | .stop e => rfl
  | .next key value rest => by
    rw [freezeEntries, parseEntries, frozenField_eq hp]
    apply bind_agree (freeze_eq (p.field key) value)
    intro frozen parsed hvalue
    by_cases hd : (p.field key).isDiscard
    · rw [if_pos hd]
      apply freezeEntries_eq p hp s hs
      rw [filterValues_insert, if_pos hd, hmap]
    · rw [if_neg hd]
      apply freezeEntries_eq p hp _ (hs.put key frozen)
      rw [hs.values_put, filterValues_insert, if_neg hd, ← hvalue, ← hmap,
        FrozenValue.toFields_eq_mapValues, FrozenValue.toFields_eq_mapValues, mapValues_insert]

end

/-- The three readings of a text agree, in what they give and in where they fail. -/
theorem fromStr_agree (parser : Parser φ ε) (text : String) (p : Projection) :
    (fromStr (freeze p) parser text).map FrozenValue.toValue = fromStr p.read parser text ∧
      fromStr p.read parser text = (fromStr parseValue parser text).map p.prune := by
  have hfreeze := freeze_eq p (parser text).1
  have hread := read_eq p (parser text).1
  have hend : fromStr p.read parser text = (fromStr parseValue parser text).map p.prune := by
    unfold fromStr
    rw [hread]
    cases parseValue (parser text).1 with
    | error e => rfl
    | ok value => cases (parser text).2 <;> rfl
  refine ⟨?_, hend⟩
  rw [hend]
  unfold fromStr
  apply bind_agree hfreeze
  intro frozen value hvalue
  cases (parser text).2 with
  | error e => rfl
  | ok u => exact congrArg Except.ok hvalue

end Agreement

end PrtsMcp.Projected
