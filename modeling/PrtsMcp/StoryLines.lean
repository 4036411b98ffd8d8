import PrtsMcp.Fallible

/-!
# Packed story lines

The lines of a chapter are kept in one text with a byte range for each line, and with the speakers
of the chapter, each once.
-/
namespace PrtsMcp

/-! ## Texts by bytes -/

namespace ByteText

/-- What lies before and after a byte offset; `none` inside a character and beyond the end. -/
def splitBytes : ℕ → List Char → Option (List Char × List Char)
  | 0, text => some ([], text)
  | _ + 1, [] => none
  | n + 1, c :: text =>
    if c.utf8Size ≤ n + 1 then
      (splitBytes (n + 1 - c.utf8Size) text).map fun parts => (c :: parts.1, parts.2)
    else none

def byteLength (text : List Char) : ℕ := (text.map Char.utf8Size).sum

@[simp]
theorem byteLength_append (a b : List Char) :
    byteLength (a ++ b) = byteLength a + byteLength b := by
  simp [byteLength]

/-- The text of a byte range, both ends between characters. -/
def slice (text : List Char) (start stop : ℕ) : Option (List Char) :=
  if start ≤ stop then
    (splitBytes start text).bind fun parts => (splitBytes (stop - start) parts.2).map Prod.fst
  else none

@[simp]
theorem splitBytes_append (a b : List Char) : splitBytes (byteLength a) (a ++ b) = some (a, b) := by
  induction a with
  | nil => rw [show byteLength [] = 0 from rfl, splitBytes, List.nil_append]
  | cons c a ih =>
    have hlength : byteLength (c :: a) = c.utf8Size + byteLength a := rfl
    have hpos : 0 < c.utf8Size := c.utf8Size_pos
    obtain ⟨n, hn⟩ : ∃ n, byteLength (c :: a) = n + 1 := ⟨byteLength (c :: a) - 1, by omega⟩
    have hrest : n + 1 - c.utf8Size = byteLength a := by omega
    have hle : c.utf8Size ≤ n + 1 := by omega
    rw [hn, List.cons_append, splitBytes, if_pos hle, hrest, ih]
    rfl

/-- The range that was taken by a text is the range of this text, whatever lies around it. -/
theorem slice_append (before text after : List Char) :
    slice (before ++ (text ++ after)) (byteLength before)
      (byteLength before + byteLength text) = some text := by
  rw [slice, if_pos (Nat.le_add_right _ _), splitBytes_append, Option.bind_some,
    Nat.add_sub_cancel_left, splitBytes_append]
  rfl

end ByteText

namespace StoryLines

open ByteText

/-- What a line is: `dialog`, `narration` or `choice`. -/
inductive Kind where
  | dialog
  | narration
  | choice
  deriving DecidableEq, Repr

structure StoryLine where
  lineType : Kind
  role : Option String
  text : String
  deriving DecidableEq, Repr

/-- A borrowed line has the parts of an owned one. -/
abbrev LineRef := StoryLine

/-- Speakers are counted from one. -/
structure PackedLine where
  start : ℕ
  stop : ℕ
  role : Option ℕ
  kind : Kind
  deriving DecidableEq, Repr

structure PackedLines where
  text : String
  roles : List String
  lines : List PackedLine
  deriving DecidableEq, Repr

/-- What is packed so far, with the ids of its speakers. -/
structure Packing where
  packed : PackedLines
  roleIds : List (String × ℕ)

/-- The id of a speaker, a new one for a new name. -/
def Packing.intern (p : Packing) (name : String) : ℕ × Packing :=
  match p.roleIds.lookup name with
  | some id => (id, p)
  | none =>
    let roles := p.packed.roles ++ [name]
    (roles.length, ⟨{ p.packed with roles }, (name, roles.length) :: p.roleIds⟩)

def Packing.internRole (p : Packing) : Option String → Option ℕ × Packing
  | none => (none, p)
  | some name => (some (p.intern name).1, (p.intern name).2)

def Packing.push (p : Packing) (line : StoryLine) : Packing :=
  let start := byteLength p.packed.text.toList
  let text := p.packed.text ++ line.text
  let role := p.internRole line.role
  ⟨⟨text, role.2.packed.roles,
    role.2.packed.lines ++ [⟨start, byteLength text.toList, role.1, line.lineType⟩]⟩,
    role.2.roleIds⟩

namespace PackedLines

def new (source : List StoryLine) : PackedLines :=
  (source.foldl Packing.push ⟨⟨"", [], []⟩, []⟩).packed

def len (p : PackedLines) : ℕ := p.lines.length

/-- `roles[id - 1]`; `.error ()` is a panic. -/
def roleOf (p : PackedLines) (id : ℕ) : Except Unit String :=
  match id with
  | 0 => .error ()
  | i + 1 => (p.roles[i]?).elim (.error ()) .ok

def view (p : PackedLines) (line : PackedLine) : Except Unit LineRef := do
  let role ← line.role.mapM p.roleOf
  let text ← (slice p.text.toList line.start line.stop).elim (.error ()) .ok
  return ⟨line.kind, role, String.ofList text⟩

def get (p : PackedLines) (index : ℕ) : Except Unit (Option LineRef) :=
  match p.lines[index]? with
  | none => .ok none
  | some line => (p.view line).map some

def iter (p : PackedLines) : Except Unit (List LineRef) := p.lines.mapM p.view

/-- The speaker of an id, counted from one. -/
def HasRole (roles : List String) : Option ℕ → Option String → Prop
  | none, none => True
  | some id, some name => ∃ i, id = i + 1 ∧ roles[i]? = some name
  | _, _ => False

/-- The range of a line holds its text, and its id stands for its speaker. -/
structure Shows (p : PackedLines) (line : PackedLine) (ref : LineRef) : Prop where
  kind : line.kind = ref.lineType
  role : HasRole p.roles line.role ref.role
  text : ∃ before after, p.text.toList = before ++ (ref.text.toList ++ after) ∧
    line.start = byteLength before ∧ line.stop = byteLength before + byteLength ref.text.toList

theorem Shows.view {p : PackedLines} {line : PackedLine} {ref : LineRef} (h : p.Shows line ref) :
    p.view line = .ok ref := by
  have hrole : line.role.mapM p.roleOf = .ok ref.role := by
    have hshown := h.role
    cases hid : line.role with
    | none =>
      cases hname : ref.role with
      | none => rfl
      | some name => simp [hid, hname, HasRole] at hshown
    | some id =>
      cases hname : ref.role with
      | none => simp [hid, hname, HasRole] at hshown
      | some name =>
        rw [hid, hname] at hshown
        obtain ⟨i, rfl, hi⟩ := hshown
        simp [Option.mapM, roleOf, hi, Functor.map, Except.map]
  obtain ⟨before, after, htext, hstart, hstop⟩ := h.text
  have hslice : slice p.text.toList line.start line.stop = some ref.text.toList := by
    rw [htext, hstart, hstop]
    exact slice_append before ref.text.toList after
  rw [PackedLines.view, hrole, hslice]
  simp [bind, Except.bind, pure, Except.pure, h.kind]

theorem HasRole.append {roles : List String} {id : Option ℕ} {name : Option String}
    (h : HasRole roles id name) (more : List String) : HasRole (roles ++ more) id name := by
  cases id with
  | none => cases name <;> exact h
  | some id =>
    cases name with
    | none => exact h
    | some name =>
      obtain ⟨i, rfl, hi⟩ := h
      exact ⟨i, rfl, by rw [List.getElem?_append_left (List.getElem?_eq_some_iff.mp hi).1, hi]⟩

/-- More text and more speakers change nothing about a packed line. -/
theorem Shows.append {p q : PackedLines} {line : PackedLine} {ref : LineRef} (h : p.Shows line ref)
    {moreText : List Char} {moreRoles : List String} (htext : q.text.toList = p.text.toList ++ moreText)
    (hroles : q.roles = p.roles ++ moreRoles) : q.Shows line ref where
  kind := h.kind
  role := by
    rw [hroles]
    exact h.role.append moreRoles
  text := by
    obtain ⟨before, after, hp, hstart, hstop⟩ := h.text
    exact ⟨before, after ++ moreText, by simp [htext, hp], hstart, hstop⟩

end PackedLines

/-- The packed lines show the source lines, and every id was given to the name it stands for. -/
structure Packing.Holds (p : Packing) (source : List StoryLine) : Prop where
  lines : List.Forall₂ p.packed.Shows p.packed.lines source
  ids : ∀ name id, p.roleIds.lookup name = some id →
    PackedLines.HasRole p.packed.roles (some id) (some name)

/-- Interning keeps the speakers before, and its id stands for the name. -/
theorem Packing.Holds.internRole {p : Packing} {source : List StoryLine} (h : p.Holds source)
    (role : Option String) :
    ∃ more, (p.internRole role).2.packed = { p.packed with roles := p.packed.roles ++ more } ∧
      PackedLines.HasRole (p.packed.roles ++ more) (p.internRole role).1 role ∧
      ∀ name id, (p.internRole role).2.roleIds.lookup name = some id →
        PackedLines.HasRole (p.packed.roles ++ more) (some id) (some name) := by
  cases role with
  | none => exact ⟨[], by simp [Packing.internRole], trivial, by simpa [Packing.internRole] using h.ids⟩
  | some role =>
    cases hid : p.roleIds.lookup role with
    | some id =>
      have hintern : p.internRole (some role) = (some id, p) := by
        simp [Packing.internRole, Packing.intern, hid]
      rw [hintern]
      exact ⟨[], by simp, by simpa using h.ids role id hid, by simpa using h.ids⟩
    | none =>
      have hintern : p.internRole (some role) = (some (p.packed.roles ++ [role]).length,
          ⟨{ p.packed with roles := p.packed.roles ++ [role] },
            (role, (p.packed.roles ++ [role]).length) :: p.roleIds⟩) := by
        simp [Packing.internRole, Packing.intern, hid]
      have hnew : PackedLines.HasRole (p.packed.roles ++ [role])
          (some (p.packed.roles ++ [role]).length) (some role) :=
        ⟨p.packed.roles.length, by simp, by simp⟩
      rw [hintern]
      refine ⟨[role], rfl, hnew, fun name id hname => ?_⟩
      rw [List.lookup_cons] at hname
      by_cases heq : name = role
      · obtain rfl : (p.packed.roles ++ [role]).length = id := by simpa [heq] using hname
        rw [heq]
        exact hnew
      · have hold : p.roleIds.lookup name = some id := by simpa [beq_false_of_ne heq] using hname
        exact (h.ids name id hold).append [role]

theorem Packing.Holds.push {p : Packing} {source : List StoryLine} (h : p.Holds source)
    (line : StoryLine) : (p.push line).Holds (source ++ [line]) := by
  obtain ⟨more, hpacked, hrole, hids⟩ := h.internRole line.role
  have hroles : (p.push line).packed.roles = p.packed.roles ++ more := by
    rw [Packing.push, hpacked]
  have htext : (p.push line).packed.text.toList = p.packed.text.toList ++ line.text.toList := by
    simp [Packing.push]
  have hlines : (p.push line).packed.lines = p.packed.lines ++
      [⟨byteLength p.packed.text.toList, byteLength (p.packed.text ++ line.text).toList,
        (p.internRole line.role).1, line.lineType⟩] := by
    simp [Packing.push, hpacked]
  constructor
  · rw [hlines]
    refine List.rel_append (h.lines.imp fun packed ref hshows => hshows.append htext hroles)
      (.cons ⟨rfl, ?_, ?_⟩ .nil)
    · rw [hroles]
      exact hrole
    · exact ⟨p.packed.text.toList, [], by simp [htext], rfl, by simp⟩
  · intro name id hname
    rw [hroles]
    exact hids name id hname

theorem Packing.Holds.foldl {p : Packing} {source : List StoryLine} (h : p.Holds source)
    (rest : List StoryLine) : (rest.foldl Packing.push p).Holds (source ++ rest) := by
  induction rest generalizing p source with
  | nil => simpa using h
  | cons line rest ih => simpa using ih (h.push line)

theorem PackedLines.shows_new (source : List StoryLine) :
    List.Forall₂ (PackedLines.new source).Shows (PackedLines.new source).lines source := by
  have hstart : (⟨⟨"", [], []⟩, []⟩ : Packing).Holds [] := ⟨.nil, by simp⟩
  exact (hstart.foldl source).lines

/-- The packed form of any lines shows these lines, one after the other and one by one, and
nothing beyond them. -/
theorem PackedLines.new_faithful (source : List StoryLine) :
    (PackedLines.new source).iter = .ok source ∧
      (PackedLines.new source).len = source.length ∧
      ∀ index, (PackedLines.new source).get index = .ok source[index]? := by
  have hshows := PackedLines.shows_new source
  refine ⟨?_, hshows.length_eq, fun index => ?_⟩
  · exact Fallible.mapM_eq_ok_of_forall₂ (hshows.imp fun line ref h => h.view)
  · rw [PackedLines.get]
    by_cases hindex : index < source.length
    · have hpacked : index < (PackedLines.new source).lines.length := by
        rwa [hshows.length_eq]
      have hline := hshows.get hpacked hindex
      rw [List.getElem?_eq_getElem hpacked, List.getElem?_eq_getElem hindex]
      dsimp only
      rw [show (PackedLines.new source).view (PackedLines.new source).lines[index] =
        .ok source[index] from hline.view]
      rfl
    · have hpacked : (PackedLines.new source).lines.length ≤ index := by
        rw [hshows.length_eq]
        exact not_lt.mp hindex
      rw [List.getElem?_eq_none hpacked, List.getElem?_eq_none (not_lt.mp hindex)]

example : (PackedLines.new [⟨.dialog, some "é", "a"⟩, ⟨.choice, some "é", "é"⟩]).lines =
    [⟨0, 1, some 1, .dialog⟩, ⟨1, 3, some 1, .choice⟩] := by decide +kernel

end StoryLines

end PrtsMcp
