import Mathlib

/-!
# Compiled regular expressions

The instructions of the vendored matcher that a literal prefix is read from, what they do to a
thread of the backtracking search, and the prefix that `prts_re_prefix` proves from them.
-/
namespace PrtsMcp.RegexBytecode

namespace Op

def char : UInt8 := 1
def charI : UInt8 := 2
def char32 : UInt8 := 3
def char32I : UInt8 := 4
def any : UInt8 := 6
def goto : UInt8 := 13
def splitGotoFirst : UInt8 := 14
def splitNextFirst : UInt8 := 15
def accept : UInt8 := 16
def saveStart : UInt8 := 19
def saveEnd : UInt8 := 20

end Op

/-- An instruction with its operands; `other` stands for every opcode not listed. -/
inductive Instr where
  | char (insensitive : Bool) (size val : ℕ)
  | any
  | goto (offset : ℤ)
  | split (gotoFirst : Bool) (offset : ℤ)
  | accept
  | save (index : ℕ)
  | other
  deriving DecidableEq, Repr

def getU8 : List UInt8 → Option ℕ
  | b :: _ => some b.toNat
  | [] => none

def getU16 : List UInt8 → Option ℕ
  | b₀ :: b₁ :: _ => some (b₀.toNat + 2 ^ 8 * b₁.toNat)
  | _ => none

def getU32 : List UInt8 → Option ℕ
  | b₀ :: b₁ :: b₂ :: b₃ :: _ =>
    some (b₀.toNat + 2 ^ 8 * b₁.toNat + 2 ^ 16 * b₂.toNat + 2 ^ 24 * b₃.toNat)
  | _ => none

def toI32 (val : ℕ) : ℤ := if val < 2 ^ 31 then val else val - 2 ^ 32

/-- The instruction at the head of the code. -/
def fetch : List UInt8 → Instr
  | [] => .other
  | op :: operands =>
    if op = Op.any then .any
    else if op = Op.accept then .accept
    else if op = Op.char ∨ op = Op.charI then
      (getU16 operands).elim .other (.char (op = Op.charI) 3)
    else if op = Op.char32 ∨ op = Op.char32I then
      (getU32 operands).elim .other (.char (op = Op.char32I) 5)
    else if op = Op.goto then (getU32 operands).elim .other fun val => .goto (toI32 val)
    else if op = Op.splitGotoFirst ∨ op = Op.splitNextFirst then
      (getU32 operands).elim .other fun val => .split (op = Op.splitGotoFirst) (toI32 val)
    else if op = Op.saveStart then (getU8 operands).elim .other fun val => .save (2 * val)
    else if op = Op.saveEnd then (getU8 operands).elim .other fun val => .save (2 * val + 1)
    else .other

/-- `lre_canonicalize` of a Unicode pattern; `fold` is the case-folding table it reads. -/
def canonicalize (fold : ℕ → ℕ) (c : ℕ) : ℕ :=
  if c < 128 then if 65 ≤ c ∧ c ≤ 90 then c + 32 else c else fold c

/-- A thread of the search: where it is in the code and in the text. The text before it is
listed backwards. -/
structure Thread where
  pc : ℕ
  before : List Char
  after : List Char
  captures : ℕ → Option ℕ

/-- The bytecode follows a header of eight bytes. -/
def start (text : List Char) : Thread := ⟨8, [], text, fun _ => none⟩

inductive Next where
  | dead
  | found
  | go (t : Thread)
  | fork (first second : Thread)
  | other

def Thread.jump (t : Thread) (size : ℕ) (offset : ℤ) : Thread :=
  { t with pc := (t.pc + size + offset).toNat }

def Thread.skip (t : Thread) (size : ℕ) : Thread := { t with pc := t.pc + size }

/-- Reads the next character, if there is one that passes the test. -/
def Thread.read (t : Thread) (size : ℕ) (test : Char → Bool) : Next :=
  match t.after with
  | c :: after =>
    if test c then .go { t with pc := t.pc + size, before := c :: t.before, after } else .dead
  | [] => .dead

/-- The character test of `OP_char` and its variants. -/
def fits (fold : ℕ → ℕ) (insensitive : Bool) (val : ℕ) (c : Char) : Bool :=
  val = if insensitive then canonicalize fold c.toNat else c.toNat

/-- One turn of the loop of `lre_exec_backtrack`. The compiler numbers its captures below
`capture_count`, so that check is left out. -/
def step (fold : ℕ → ℕ) (bc : List UInt8) (t : Thread) : Next :=
  match fetch (bc.drop t.pc) with
  | .char insensitive size val => t.read size (fits fold insensitive val)
  | .any => t.read 1 fun _ => true
  | .goto offset => .go (t.jump 5 offset)
  | .split true offset => .fork (t.jump 5 offset) (t.skip 5)
  | .split false offset => .fork (t.skip 5) (t.jump 5 offset)
  | .accept => .found
  | .save index =>
    .go { t.skip 2 with captures := Function.update t.captures index (some t.before.length) }
  | .other => .other

/-- The threads that these instructions alone lead to. -/
inductive Reached (fold : ℕ → ℕ) (bc : List UInt8) (text : List Char) : Thread → Prop
  | start : Reached fold bc text (start text)
  | go {t t' : Thread} : Reached fold bc text t → step fold bc t = .go t' → Reached fold bc text t'
  | first {t t₁ t₂ : Thread} :
    Reached fold bc text t → step fold bc t = .fork t₁ t₂ → Reached fold bc text t₁
  | second {t t₁ t₂ : Thread} :
    Reached fold bc text t → step fold bc t = .fork t₁ t₂ → Reached fold bc text t₂

/-- What it means for a thread to find a match, in terms of the threads its next step leads to. -/
def FindsNext (finds : Thread → Prop) (t : Thread) : Next → Prop
  | .dead => ¬ finds t
  | .found => finds t
  | .go t' => finds t ↔ finds t'
  | .fork first second => finds t ↔ finds first ∨ finds second
  | .other => True

/-- A search that obeys the instructions. -/
def Obeys (fold : ℕ → ℕ) (bc : List UInt8) (finds : Thread → Prop) : Prop :=
  ∀ text t, Reached fold bc text t → FindsNext finds t (step fold bc t)

/-- What the prefix loop has collected; `mode` is unset before the first character. -/
structure Scan where
  points : List ℕ
  mode : Option Bool
  complete : Bool
  deriving DecidableEq, Repr

/-- The loop of `prts_re_prefix`: every turn skips at least two bytes. -/
def scan (bc : List UInt8) (capacity : ℕ) : ℕ → ℕ → Option Bool → List ℕ → Scan
  | 0, _, mode, points => ⟨points, mode, false⟩
  | fuel + 1, p, mode, points =>
    match fetch (bc.drop p) with
    | .save _ => scan bc capacity fuel (p + 2) mode points
    | .accept => ⟨points, mode, true⟩
    | .char insensitive size val =>
      if points.length = capacity ∨ (mode ≠ none ∧ mode ≠ some insensitive) then
        ⟨points, mode, false⟩
      else scan bc capacity fuel (p + size) (some insensitive) (points ++ [val])
    | _ => ⟨points, mode, false⟩

/-- The unanchored search loop that the compiler puts before every pattern. -/
def HasPrologue (bc : List UInt8) : Prop :=
  21 ≤ bc.length ∧ fetch (bc.drop 8) = .split true 6 ∧ fetch (bc.drop 13) = .any ∧
    fetch (bc.drop 14) = .goto (-11) ∧ fetch (bc.drop 19) = .save 0

instance (bc : List UInt8) : Decidable (HasPrologue bc) := inferInstanceAs (Decidable (_ ∧ _))

def prtsRePrefix (bc : List UInt8) (capacity : ℕ) : Scan :=
  if HasPrologue bc then scan bc capacity bc.length 21 none [] else ⟨[], none, false⟩

section Soundness

variable {fold : ℕ → ℕ} {bc : List UInt8} {text : List Char} {finds : Thread → Prop}

theorem Thread.read_of_cons {t : Thread} {c : Char} {after : List Char} (h : t.after = c :: after)
    (size : ℕ) (test : Char → Bool) :
    t.read size test =
      if test c then .go { t with pc := t.pc + size, before := c :: t.before, after } else .dead := by
  simp [Thread.read, h]

theorem Thread.read_of_nil {t : Thread} (h : t.after = []) (size : ℕ) (test : Char → Bool) :
    t.read size test = .dead := by
  simp [Thread.read, h]

/-- A character instruction finds a match from a thread when the next character fits and the
thread behind it finds one. -/
theorem Obeys.finds_read (h : Obeys fold bc finds) {t : Thread} (ht : Reached fold bc text t)
    {size : ℕ} {test : Char → Bool} (hstep : step fold bc t = t.read size test) :
    finds t ↔ ∃ c after, t.after = c :: after ∧ test c = true ∧
      finds { t with pc := t.pc + size, before := c :: t.before, after } := by
  have hnext := h text t ht
  rw [hstep] at hnext
  cases hafter : t.after with
  | nil =>
    rw [Thread.read_of_nil hafter] at hnext
    simpa [FindsNext] using hnext
  | cons c after =>
    rw [Thread.read_of_cons hafter] at hnext
    by_cases hc : test c = true
    · rw [if_pos hc] at hnext
      simpa [FindsNext, hc] using hnext
    · rw [if_neg hc] at hnext
      simpa [FindsNext, hc] using hnext

theorem Reached.read {t : Thread} (ht : Reached fold bc text t) {size : ℕ} {test : Char → Bool}
    (hstep : step fold bc t = t.read size test) {c : Char} {after : List Char}
    (hafter : t.after = c :: after) (hc : test c = true) :
    Reached fold bc text { t with pc := t.pc + size, before := c :: t.before, after } := by
  apply ht.go
  rw [hstep, Thread.read_of_cons hafter, if_pos hc]

theorem scan_mode {capacity fuel p : ℕ} {insensitive : Bool} {points : List ℕ} :
    (scan bc capacity fuel p (some insensitive) points).mode = some insensitive := by
  induction fuel generalizing p points with
  | zero => rfl
  | succ fuel ih =>
    cases hfetch : fetch (bc.drop p) with
    | save index =>
      simp only [scan, hfetch]
      exact ih
    | char insensitive' size val =>
      simp only [scan, hfetch]
      split
      · rfl
      · next hstop =>
        obtain rfl : insensitive = insensitive' := by
          by_contra hne
          exact hstop (.inr ⟨by simp, by simpa using hne⟩)
        exact ih
    | accept | any | goto offset | split gotoFirst offset | other => simp only [scan, hfetch]

/-- A character that is collected sets the mode. -/
theorem scan_mode_ne_none {capacity fuel p : ℕ} {mode : Option Bool} {points : List ℕ}
    (h : (scan bc capacity fuel p mode points).points ≠ points) :
    (scan bc capacity fuel p mode points).mode ≠ none := by
  induction fuel generalizing p with
  | zero => exact absurd rfl h
  | succ fuel ih =>
    cases hfetch : fetch (bc.drop p) with
    | save index =>
      simp only [scan, hfetch] at h ⊢
      exact ih h
    | char insensitive size val =>
      simp only [scan, hfetch] at h ⊢
      split at h
      · exact absurd rfl h
      · next hgoes =>
        rw [if_neg hgoes, scan_mode]
        exact Option.some_ne_none insensitive
    | accept | any | goto offset | split gotoFirst offset | other =>
      simp only [scan, hfetch] at h
      exact absurd rfl h

/-- The characters of `points` stand next in the text. -/
def Reads (fold : ℕ → ℕ) (insensitive : Bool) (points : List ℕ) (after : List Char) : Prop :=
  ∃ m rest, after = m ++ rest ∧
    List.Forall₂ (fun val c => fits fold insensitive val c = true) points m

theorem reads_nil {insensitive : Bool} {after : List Char} : Reads fold insensitive [] after :=
  ⟨[], after, rfl, .nil⟩

theorem reads_cons {insensitive : Bool} {val : ℕ} {points : List ℕ} {after : List Char} :
    Reads fold insensitive (val :: points) after ↔
      ∃ c rest, after = c :: rest ∧ fits fold insensitive val c = true ∧
        Reads fold insensitive points rest := by
  constructor
  · rintro ⟨m, rest, rfl, hm⟩
    cases hm with
    | cons hc hm => exact ⟨_, _, rfl, hc, _, rest, rfl, hm⟩
  · rintro ⟨c, rest, rfl, hc, m, rest, rfl, hm⟩
    exact ⟨c :: m, rest, rfl, .cons hc hm⟩

theorem scan_points (bc : List UInt8) (capacity fuel p : ℕ) (mode : Option Bool)
    (points : List ℕ) : ∃ new, (scan bc capacity fuel p mode points).points = points ++ new := by
  induction fuel generalizing p mode points with
  | zero => exact ⟨[], by simp [scan]⟩
  | succ fuel ih =>
    cases hfetch : fetch (bc.drop p) with
    | save index =>
      simp only [scan, hfetch]
      exact ih ..
    | char insensitive size val =>
      simp only [scan, hfetch]
      split
      · exact ⟨[], by simp⟩
      · obtain ⟨new, hnew⟩ := ih (p + size) (some insensitive) (points ++ [val])
        exact ⟨val :: new, by simp [hnew]⟩
    | accept | any | goto offset | split gotoFirst offset | other =>
      exact ⟨[], by simp [scan, hfetch]⟩

/-- Whatever the loop collects from a thread's code stands next in the text when the thread
finds a match, and suffices for one when the loop has come to the end of the code. -/
theorem finds_scan (h : Obeys fold bc finds) {capacity fuel : ℕ} {mode : Option Bool}
    {points new : List ℕ} {insensitive : Bool} {t : Thread} (ht : Reached fold bc text t)
    (hnew : (scan bc capacity fuel t.pc mode points).points = points ++ new)
    (hmode : new = [] ∨ (scan bc capacity fuel t.pc mode points).mode = some insensitive) :
    (finds t → Reads fold insensitive new t.after) ∧
      ((scan bc capacity fuel t.pc mode points).complete = true →
        Reads fold insensitive new t.after → finds t) := by
  induction fuel generalizing mode points new t with
  | zero =>
    obtain rfl : new = [] := by simpa [scan] using hnew
    exact ⟨fun _ => reads_nil, by simp [scan]⟩
  | succ fuel ih =>
    have hnext := h text t ht
    cases hfetch : fetch (bc.drop t.pc) with
    | save index =>
      simp only [scan, hfetch] at hnew hmode ⊢
      simp only [step, hfetch, FindsNext] at hnext
      rw [hnext]
      exact ih (t := { t.skip 2 with captures := _ }) (ht.go (by simp only [step, hfetch])) hnew
        hmode
    | accept =>
      simp only [scan, hfetch] at hnew
      simp only [step, hfetch, FindsNext] at hnext
      obtain rfl : new = [] := by simpa using hnew
      exact ⟨fun _ => reads_nil, fun _ _ => hnext⟩
    | char insensitive' size val =>
      have hstep : step fold bc t = t.read size (fits fold insensitive' val) := by
        simp only [step, hfetch]
      simp only [scan, hfetch] at hnew hmode ⊢
      split at hnew
      · next hstop =>
        obtain rfl : new = [] := by simpa using hnew
        simp only [if_pos hstop]
        exact ⟨fun _ => reads_nil, by simp⟩
      · next hgoes =>
        simp only [if_neg hgoes] at hmode ⊢
        obtain ⟨new', hnew'⟩ := scan_points bc capacity fuel (t.pc + size) (some insensitive')
          (points ++ [val])
        obtain rfl : new = val :: new' := by simpa using hnew.symm.trans hnew'
        obtain rfl : insensitive = insensitive' := by simpa [scan_mode, eq_comm] using hmode
        have hrest : ∀ c after, t.after = c :: after → fits fold insensitive val c = true →
            (finds { t with pc := t.pc + size, before := c :: t.before, after } →
              Reads fold insensitive new' after) ∧
            ((scan bc capacity fuel (t.pc + size) (some insensitive) (points ++ [val])).complete
                = true → Reads fold insensitive new' after →
              finds { t with pc := t.pc + size, before := c :: t.before, after }) :=
          fun c after hafter hc => ih (ht.read hstep hafter hc) hnew' (.inr scan_mode)
        rw [h.finds_read ht hstep, reads_cons]
        constructor
        · rintro ⟨c, after, hafter, hc, hfinds⟩
          exact ⟨c, after, hafter, hc, (hrest c after hafter hc).1 hfinds⟩
        · rintro hcomplete ⟨c, after, hafter, hc, hreads⟩
          exact ⟨c, after, hafter, hc, (hrest c after hafter hc).2 hcomplete hreads⟩
    | any | goto offset | split gotoFirst offset | other =>
      simp only [scan, hfetch] at hnew ⊢
      obtain rfl : new = [] := by simpa using hnew
      exact ⟨fun _ => reads_nil, by simp⟩

/-- The search loop before the pattern: a match is found from some position of the text. -/
theorem finds_prologue (h : Obeys fold bc finds) (hbc : HasPrologue bc) {before after : List Char}
    {captures : ℕ → Option ℕ} (ht : Reached fold bc text ⟨8, before, after, captures⟩) :
    (finds ⟨8, before, after, captures⟩ ↔ ∃ skipped rest, after = skipped ++ rest ∧
      finds ⟨19, skipped.reverse ++ before, rest, captures⟩) ∧
    ∀ skipped rest, after = skipped ++ rest →
      Reached fold bc text ⟨19, skipped.reverse ++ before, rest, captures⟩ := by
  obtain ⟨-, hsplit, hany, hgoto, -⟩ := hbc
  have hstep : ∀ before after, step fold bc ⟨8, before, after, captures⟩ =
      .fork ⟨19, before, after, captures⟩ ⟨13, before, after, captures⟩ := by
    intro before after
    simp only [step, hsplit]
    rfl
  have hread : ∀ before after, step fold bc ⟨13, before, after, captures⟩ =
      Thread.read ⟨13, before, after, captures⟩ 1 fun _ => true := by
    intro before after
    simp only [step, hany]
  induction after generalizing before with
  | nil =>
    have hfork := h text _ ht
    have hskip := h.finds_read (ht.second (hstep before [])) (hread before [])
    rw [hstep] at hfork
    simp only [FindsNext] at hfork
    refine ⟨?_, ?_⟩
    · rw [hfork, hskip]
      simp
    · intro skipped rest hsplit'
      obtain ⟨rfl, rfl⟩ : skipped = [] ∧ rest = [] := by simpa using hsplit'
      exact ht.first (hstep before [])
  | cons c after ih =>
    have hfork := h text _ ht
    rw [hstep] at hfork
    have hsecond := ht.second (hstep before (c :: after))
    have hskip := h.finds_read hsecond (hread before (c :: after))
    have hreached := hsecond.read (hread before (c :: after)) rfl rfl
    have hback : step fold bc ⟨14, c :: before, after, captures⟩ =
        .go ⟨8, c :: before, after, captures⟩ := by
      simp only [step, hgoto]
      rfl
    have hgo := h text _ hreached
    rw [hback] at hgo
    simp only [FindsNext] at hgo hfork
    obtain ⟨ihfinds, ihreached⟩ := ih (hreached.go hback)
    have hwhole : finds ⟨8, before, c :: after, captures⟩ ↔
        finds ⟨19, before, c :: after, captures⟩ ∨ finds ⟨8, c :: before, after, captures⟩ := by
      rw [hfork, hskip, ← hgo]
      simp
    refine ⟨?_, ?_⟩
    · rw [hwhole, ihfinds]
      constructor
      · rintro (hhere | ⟨skipped, rest, rfl, hlater⟩)
        · exact ⟨[], c :: after, rfl, hhere⟩
        · exact ⟨c :: skipped, rest, rfl, by simpa using hlater⟩
      · rintro ⟨skipped, rest, hsplit', hfinds⟩
        rcases List.cons_eq_append_iff.mp hsplit' with ⟨rfl, rfl⟩ | ⟨skipped, rfl, rfl⟩
        · exact .inl hfinds
        · exact .inr ⟨skipped, rest, rfl, by simpa using hfinds⟩
    · intro skipped rest hsplit'
      rcases List.cons_eq_append_iff.mp hsplit' with ⟨rfl, rfl⟩ | ⟨skipped, rfl, rfl⟩
      · exact ht.first (hstep before _)
      · simpa using ihreached skipped rest rfl

/-- The characters of `points` stand somewhere in the text. -/
def Occurs (fold : ℕ → ℕ) (insensitive : Bool) (points : List ℕ) (text : List Char) : Prop :=
  ∃ m, m <:+: text ∧ List.Forall₂ (fun val c => fits fold insensitive val c = true) points m

theorem occurs_iff {insensitive : Bool} {points : List ℕ} :
    Occurs fold insensitive points text ↔
      ∃ skipped rest, text = skipped ++ rest ∧ Reads fold insensitive points rest := by
  constructor
  · rintro ⟨m, ⟨skipped, rest, rfl⟩, hm⟩
    exact ⟨skipped, m ++ rest, by simp, m, rest, rfl, hm⟩
  · rintro ⟨skipped, _, rfl, m, rest, rfl, hm⟩
    exact ⟨m, ⟨skipped, rest, by simp⟩, hm⟩

theorem prtsRePrefix_mode {capacity : ℕ} (h : (prtsRePrefix bc capacity).points ≠ []) :
    ∃ insensitive, (prtsRePrefix bc capacity).mode = some insensitive := by
  unfold prtsRePrefix at h ⊢
  split at h
  · next hbc =>
    rw [if_pos hbc]
    exact Option.ne_none_iff_exists'.mp (scan_mode_ne_none h)
  · exact absurd rfl h

/-- A prefix is mandatory: a match contains it, and a complete one is all that a match needs. -/
theorem finds_prtsRePrefix (h : Obeys fold bc finds) {capacity : ℕ} {found : Scan}
    (hfound : prtsRePrefix bc capacity = found) {insensitive : Bool}
    (hmode : found.mode = some insensitive) :
    (finds (start text) → Occurs fold insensitive found.points text) ∧
      (found.complete = true → Occurs fold insensitive found.points text →
        finds (start text)) := by
  unfold prtsRePrefix at hfound
  split at hfound
  · next hbc =>
    obtain ⟨hfinds, hreached⟩ := finds_prologue h hbc Reached.start
    have hsave : ∀ t : Thread, t.pc = 19 → step fold bc t =
        .go { t.skip 2 with captures := Function.update t.captures 0 (some t.before.length) } := by
      intro t ht
      simp only [step, ht, hbc.2.2.2.2]
    have hscan : ∀ t : Thread, Reached fold bc text t → t.pc = 21 →
        (finds t → Reads fold insensitive found.points t.after) ∧
          (found.complete = true → Reads fold insensitive found.points t.after → finds t) := by
      intro t ht hpc
      rw [← hpc] at hfound
      subst hfound
      exact finds_scan h ht rfl (.inr hmode)
    have hrest : ∀ skipped rest, text = skipped ++ rest →
        (finds ⟨19, skipped.reverse ++ [], rest, fun _ => none⟩ →
          Reads fold insensitive found.points rest) ∧
        (found.complete = true → Reads fold insensitive found.points rest →
          finds ⟨19, skipped.reverse ++ [], rest, fun _ => none⟩) := by
      intro skipped rest hsplit
      have ht := hreached skipped rest hsplit
      have hgo := h text _ ht
      rw [hsave _ rfl] at hgo
      simp only [FindsNext] at hgo
      rw [hgo]
      exact hscan _ (ht.go (hsave _ rfl)) rfl
    rw [occurs_iff]
    constructor
    · intro hfound'
      obtain ⟨skipped, rest, hsplit, hthread⟩ := hfinds.mp hfound'
      exact ⟨skipped, rest, hsplit, (hrest skipped rest hsplit).1 hthread⟩
    · rintro hcomplete ⟨skipped, rest, hsplit, hreads⟩
      exact hfinds.mpr ⟨skipped, rest, hsplit, (hrest skipped rest hsplit).2 hcomplete hreads⟩
  · rw [← hfound] at hmode
    cases hmode

end Soundness

end PrtsMcp.RegexBytecode
