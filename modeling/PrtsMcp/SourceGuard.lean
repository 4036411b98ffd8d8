import PrtsMcp.Runs

/-!
# The source guard

`ensure` calls of differently configured processes on one data directory, interleaved step by step.
A custom source binds the directory by a marker file, under a kernel lock on a lock file.
-/
namespace PrtsMcp.SourceGuard

open Runs (EveryPrefix EveryStep)

def isOwnerChar (c : Char) : Bool := c.isAlphanum || c = '-'

/-- A parsed source: its owner has no slash. -/
structure DataSource where
  owner : String
  repo : String
  ownerChars : owner.toList.all isOwnerChar = true
  deriving DecidableEq

def DataSource.default : DataSource := ⟨"3aKHP", "arknights-data-pipeline", by decide⟩

def DataSource.slug (source : DataSource) : String := source.owner ++ "/" ++ source.repo

/-- What stands at the marker's path. `value` is a JSON text: `some slug` where it is the object of
schema version 1 with that `repo` and nothing else. -/
inductive Marker where
  | value (repo : Option String)
  | malformed (message : String)
  | notRegular
  deriving DecidableEq, Repr

/-- The directory, without the temporary files of the calls under way. -/
structure Dir where
  lockFile : Bool
  marker : Option Marker
  files : List (String × String)
  deriving DecidableEq, Repr

/-- What a call does next, or how it has ended. -/
inductive Pc where
  | starting
  | creatingDir
  | openingLock
  | locking
  | statting
  | readingMarker
  | listing
  | writingTemp
  | renaming
  | accepted
  | failed (message : String)
  | crashed
  deriving DecidableEq, Repr

variable {ι : Type*}

/-- `temps` lists the calls whose temporary file is in the directory, and `holder` has the kernel
lock on the lock file. -/
structure World (ι : Type*) where
  dir : Option Dir
  temps : List ι
  holder : Option ι
  pc : ι → Pc

def start (dir : Option Dir) : World ι := ⟨dir, [], none, fun _ => .starting⟩

/-- The outcome of one operation; `torn` is a failed write that has touched the file. -/
inductive Io where
  | ok
  | fail (message : String)
  | torn (message : String)
  deriving DecidableEq, Repr

/-- `store` is a data file that another program writes. -/
inductive Event (ι : Type*) where
  | act (p : ι) (io : Io)
  | crash (p : ι)
  | store (name content : String)
  deriving DecidableEq, Repr

def World.marker (w : World ι) : Option Marker := w.dir.bind Dir.marker

@[simps]
def World.setDir (w : World ι) (dir : Option Dir) : World ι := { w with dir }

@[simps]
def World.setTemps (w : World ι) (temps : List ι) : World ι := { w with temps }

@[simps]
def World.setHolder (w : World ι) (holder : Option ι) : World ι := { w with holder }

def emptyDir : Dir := ⟨false, none, []⟩

/-- `File::open` with `create`, without truncation. -/
def Dir.createLock (d : Dir) : Dir := { d with lockFile := true }

def Dir.setMarker (slug : String) (d : Dir) : Dir := { d with marker := some (.value (some slug)) }

/-- The directory holds nothing but the lock file. -/
def World.isVacant (w : World ι) : Bool :=
  w.temps.isEmpty && w.dir.all fun d => d.marker.isNone && d.files.isEmpty

/-- A data file is written anew or in place of the old one. -/
def Dir.store (name content : String) (d : Dir) : Dir :=
  { d with files := (name, content) :: d.files.filter fun f => f.1 ≠ name }

def foreignMarker : String :=
  "data directory belongs to another source or has an invalid source marker"

def notVacant : String := "custom source requires an empty directory or a matching source marker"

/-- The path of the directory, and the source that each call is configured for. -/
structure Callers (ι : Type*) where
  root : String
  source : ι → DataSource

def Callers.describe (c : Callers ι) (p : ι) (error : String) : String :=
  c.root ++ ": " ++ error ++ "; use a separate data directory for " ++ (c.source p).slug

section Steps

variable [DecidableEq ι]

@[simps]
def World.goto (w : World ι) (p : ι) (pc : Pc) : World ι :=
  { w with pc := Function.update w.pc p pc }

/-- The lock is released when its file is closed. -/
def World.release (w : World ι) (p : ι) : World ι :=
  if w.holder = some p then w.setHolder none else w

def World.finish (w : World ι) (p : ι) (pc : Pc) : World ι := (w.release p).goto p pc

def World.fails (w : World ι) (c : Callers ι) (p : ι) (error : String) : World ι :=
  w.finish p (.failed (c.describe p error))

/-- What a regular file at the marker's path means for a source. -/
def checkMarker (source : DataSource) : Option Marker → Except String Unit
  | some (.value repo) => if repo = some source.slug then .ok () else .error foreignMarker
  | some (.malformed message) => .error ("invalid source marker: " ++ message)
  | some .notRegular => .error "Is a directory (os error 21)"
  | none => .error "No such file or directory (os error 2)"

/-- The `symlink_metadata` of `check_marker`, and what follows without a marker. -/
def World.statMarker (w : World ι) (c : Callers ι) (p : ι) : World ι :=
  match w.marker with
  | none =>
    if c.source p = .default then w.finish p .accepted else w.goto p .listing
  | some .notRegular => w.fails c p "source marker is not a regular file"
  | some _ => w.goto p .readingMarker

/-- The next step of an `ensure` call. -/
def ensure (c : Callers ι) (w : World ι) (p : ι) (io : Io) : World ι :=
  match w.pc p, io with
  | .starting, .ok => w.goto p (if c.source p = .default then .statting else .creatingDir)
  | .creatingDir, .ok => (w.setDir (some (w.dir.getD emptyDir))).goto p .openingLock
  | .openingLock, .ok =>
    match w.dir with
    | some d => (w.setDir (some d.createLock)).goto p .locking
    | none => w.fails c p "No such file or directory (os error 2)"
  | .locking, .ok =>
    if w.holder.isSome then w else (w.setHolder (some p)).goto p .statting
  | .statting, .ok => w.statMarker c p
  | .readingMarker, .ok =>
    match checkMarker (c.source p) w.marker with
    | .ok () => w.finish p .accepted
    | .error e => w.fails c p e
  | .listing, .ok => if w.isVacant then w.goto p .writingTemp else w.fails c p notVacant
  | .writingTemp, .ok => (w.setTemps (p :: w.temps)).goto p .renaming
  | .writingTemp, .torn message => (w.setTemps (p :: w.temps)).fails c p message
  | .renaming, .ok =>
    match w.dir with
    | some d =>
      ((w.setDir (some (d.setMarker (c.source p).slug))).setTemps (w.temps.erase p)).finish p
        .accepted
    | none => w.fails c p "No such file or directory (os error 2)"
  | .starting, .fail message | .starting, .torn message => w.goto p (.failed message)
  | .accepted, _ | .failed _, _ | .crashed, _ => w
  | _, .fail message | _, .torn message => w.fails c p message

/-- The process of a call that has not returned is killed. -/
def World.crash (w : World ι) (p : ι) : World ι :=
  match w.pc p with
  | .accepted | .failed _ => w
  | _ => w.finish p .crashed

def next (c : Callers ι) (w : World ι) : Event ι → World ι
  | .act p io => ensure c w p io
  | .crash p => w.crash p
  | .store name content => w.setDir (w.dir.map (Dir.store name content))

def run (c : Callers ι) (dir : Option Dir) (es : List (Event ι)) : World ι :=
  es.foldl (next c) (start dir)

theorem run_snoc (c : Callers ι) (dir : Option Dir) (es : List (Event ι)) (e : Event ι) :
    run c dir (es ++ [e]) = next c (run c dir es) e := by
  simp [run]

end Steps

/-- Between the check of an absent marker and the writing of one. -/
def Pc.Binding : Pc → Prop
  | .listing | .writingTemp | .renaming => True
  | _ => False

/-- A call of a custom source that has the lock. -/
def Callers.Inside (c : Callers ι) (p : ι) (pc : Pc) : Prop :=
  pc.Binding ∨ (c.source p ≠ .default ∧ (pc = .statting ∨ pc = .readingMarker))

/-- The marker of a custom source. -/
def Marker.Custom (m : Marker) : Prop :=
  ∃ source : DataSource, source ≠ .default ∧ m = .value (some source.slug)

/-- All that was in the directory is there as it was. -/
structure KeepsFiles (w w' : World ι) : Prop where
  entries : ∀ d, w.dir = some d → ∃ d', w'.dir = some d' ∧ (d.lockFile = true → d'.lockFile = true) ∧
    d'.marker = d.marker ∧ d'.files = d.files
  temps : w.temps ⊆ w'.temps

section Sources

theorem slash_notMem_owner (source : DataSource) : '/' ∉ source.owner.toList := by
  intro hmem
  have hall := List.all_eq_true.mp source.ownerChars '/' hmem
  exact absurd hall (by decide)

theorem takeWhile_append_slash {l r : List Char} (h : '/' ∉ l) :
    (l ++ '/' :: r).takeWhile (· ≠ '/') = l := by
  rw [List.takeWhile_append_of_pos]
  · simp
  · intro a ha
    simpa using fun heq : a = '/' => h (heq ▸ ha)

/-- Sources of one slug are one source. -/
theorem slug_injective : Function.Injective DataSource.slug := by
  intro a b h
  have hlist : a.owner.toList ++ '/' :: a.repo.toList = b.owner.toList ++ '/' :: b.repo.toList := by
    simpa [DataSource.slug] using congrArg String.toList h
  have howner : a.owner.toList = b.owner.toList := by
    have htake := congrArg (List.takeWhile (· ≠ '/')) hlist
    rwa [takeWhile_append_slash (slash_notMem_owner a),
      takeWhile_append_slash (slash_notMem_owner b)] at htake
  have hrepo : a.repo.toList = b.repo.toList := by
    rw [howner] at hlist
    simpa using hlist
  cases a
  cases b
  simp_all [String.toList_inj]

end Sources

section Safety

variable [DecidableEq ι] {c : Callers ι} {w w' : World ι} {p : ι}

/-- What a step of call `p` does: it goes on, and may take or release the lock, or it puts its
marker in place. -/
inductive Effect (c : Callers ι) (w : World ι) (p : ι) (w' : World ι) : Prop
  | goes (pc : Pc) (pcs : w'.pc = Function.update w.pc p pc) (keeps : KeepsFiles w w')
      (marker : w'.marker = w.marker)
      (others : ∀ q, q ≠ p → w.holder = some q → w'.holder = some q)
      (inside : c.Inside p pc →
        w'.holder = some p ∨ (c.Inside p (w.pc p) ∧ w'.holder = w.holder))
      (binding : pc.Binding → (w.pc p).Binding ∨ w.marker = none)
      (accepted : pc = .accepted → w.pc p ≠ .accepted →
        (c.source p = .default ∧ w.marker = none) ∨ w.marker = some (.value (some (c.source p).slug)))
  | binds (stage : w.pc p = .renaming) (pcs : w'.pc = Function.update w.pc p .accepted)
      (marker : w'.marker = some (.value (some (c.source p).slug)))
      (others : ∀ q, q ≠ p → w.holder = some q → w'.holder = some q)

omit [DecidableEq ι] in
theorem keepsFiles_of_eq (hdir : w'.dir = w.dir) (htemps : w.temps ⊆ w'.temps) :
    KeepsFiles w w' := by
  refine ⟨fun d hd => ⟨d, hdir.trans hd, ?_⟩, htemps⟩
  exact ⟨fun h => h, rfl, rfl⟩

@[simp] theorem release_dir (w : World ι) (p : ι) : (w.release p).dir = w.dir := by
  unfold World.release
  split <;> rfl

@[simp] theorem release_temps (w : World ι) (p : ι) : (w.release p).temps = w.temps := by
  unfold World.release
  split <;> rfl

@[simp] theorem release_pc (w : World ι) (p : ι) : (w.release p).pc = w.pc := by
  unfold World.release
  split <;> rfl

theorem finish_pc (w : World ι) (p : ι) (pc : Pc) :
    (w.finish p pc).pc = Function.update w.pc p pc := by
  change Function.update (w.release p).pc p pc = _
  rw [release_pc]

theorem release_holder_of_ne {q : ι} (hq : q ≠ p) (h : w.holder = some q) :
    (w.release p).holder = some q := by
  have hne : w.holder ≠ some p := fun heq => hq (Option.some.inj (h.symm.trans heq))
  rw [World.release, if_neg hne]
  exact h

/-- A call that ends without a marker of its own. -/
theorem Effect.finish {pc : Pc} (w₀ : World ι) (hpcs : w₀.pc = w.pc) (hdir : w₀.dir = w.dir)
    (htemps : w.temps ⊆ w₀.temps) (hholder : w₀.holder = w.holder) (hout : ¬ c.Inside p pc)
    (haccepted : pc = .accepted → w.pc p ≠ .accepted →
      (c.source p = .default ∧ w.marker = none) ∨
        w.marker = some (.value (some (c.source p).slug))) :
    Effect c w p (w₀.finish p pc) := by
  apply Effect.goes pc
  · rw [finish_pc, hpcs]
  · exact keepsFiles_of_eq (by simp [World.finish, hdir]) (by simpa [World.finish] using htemps)
  · simp [World.finish, World.marker, hdir]
  · intro q hq h
    exact release_holder_of_ne hq (hholder.trans h)
  · exact fun h => absurd h hout
  · exact fun h => absurd (.inl h) hout
  · exact haccepted

theorem Effect.fails (w₀ : World ι) (hpcs : w₀.pc = w.pc) (hdir : w₀.dir = w.dir)
    (htemps : w.temps ⊆ w₀.temps) (hholder : w₀.holder = w.holder) (error : String) :
    Effect c w p (w₀.fails c p error) :=
  Effect.finish w₀ hpcs hdir htemps hholder (by simp [Callers.Inside, Pc.Binding])
    fun h => by cases h

/-- A call that goes on, as it holds the lock or does not. -/
theorem Effect.goto {pc : Pc} (hinside : c.Inside p pc → c.Inside p (w.pc p))
    (hbinding : pc.Binding → (w.pc p).Binding ∨ w.marker = none) (hne : pc ≠ .accepted) :
    Effect c w p (w.goto p pc) := by
  apply Effect.goes pc
  · rfl
  · exact keepsFiles_of_eq rfl (fun _ h => h)
  · rfl
  · exact fun q _ h => h
  · exact fun h => .inr ⟨hinside h, rfl⟩
  · exact hbinding
  · exact fun h => absurd h hne

theorem Effect.stays (w : World ι) : Effect c w p w := by
  apply Effect.goes (w.pc p)
  · simp
  · exact keepsFiles_of_eq rfl (fun _ h => h)
  · rfl
  · exact fun q _ h => h
  · exact fun h => .inr ⟨h, rfl⟩
  · exact fun h => .inl h
  · exact fun h hne => absurd h hne

theorem statMarker_effect (hpc : w.pc p = .statting) : Effect c w p (w.statMarker c p) := by
  unfold World.statMarker
  split
  · next hmarker =>
    split
    · next hdefault =>
      apply Effect.finish w rfl rfl (fun _ h => h) rfl (by simp [Callers.Inside, Pc.Binding])
      exact fun _ _ => .inl ⟨hdefault, hmarker⟩
    · next hcustom =>
      apply Effect.goto
      · exact fun _ => .inr ⟨hcustom, .inl hpc⟩
      · exact fun _ => .inr hmarker
      · simp
  · exact .fails w rfl rfl (fun _ h => h) rfl _
  · apply Effect.goto
    · rintro (hbinding | ⟨hcustom, -⟩)
      · cases hbinding
      · exact .inr ⟨hcustom, .inl hpc⟩
    · exact fun h => by cases h
    · simp

theorem checkMarker_ok {source : DataSource} {m : Option Marker}
    (h : checkMarker source m = .ok ()) : m = some (.value (some source.slug)) := by
  unfold checkMarker at h
  split at h
  · split at h
    · next heq => rw [heq]
    · cases h
  all_goals cases h

/-- What a call that goes on without the lock may do. -/
theorem Effect.goto_outside {pc : Pc} (h : ¬ c.Inside p pc) (hne : pc ≠ .accepted) :
    Effect c w p (w.goto p pc) :=
  Effect.goto (fun hin => absurd hin h) (fun hbinding => absurd (.inl hbinding) h) hne

theorem ensure_effect (c : Callers ι) (w : World ι) (p : ι) (io : Io) :
    Effect c w p (ensure c w p io) := by
  unfold ensure
  split
  · apply Effect.goto_outside
    · split
      · next hdefault => simp [Callers.Inside, Pc.Binding, hdefault]
      · simp [Callers.Inside, Pc.Binding]
    · split <;> simp
  · apply Effect.goes .openingLock
    · rfl
    · refine ⟨fun d hd => ⟨d, by simp [hd], ?_⟩, fun _ h => h⟩
      exact ⟨fun h => h, rfl, rfl⟩
    · cases hd : w.dir <;> simp [World.marker, hd, emptyDir]
    · exact fun q _ h => h
    · simp [Callers.Inside, Pc.Binding]
    · exact fun h => by cases h
    · exact fun h => by cases h
  · split
    · next d hd =>
      apply Effect.goes .locking
      · rfl
      · refine ⟨fun d' hd' => ⟨d.createLock, rfl, ?_⟩, fun _ h => h⟩
        obtain rfl : d = d' := by simpa [hd] using hd'
        exact ⟨fun _ => rfl, rfl, rfl⟩
      · simp [World.marker, hd, Dir.createLock]
      · exact fun q _ h => h
      · simp [Callers.Inside, Pc.Binding]
      · exact fun h => by cases h
      · exact fun h => by cases h
    · exact .fails w rfl rfl (fun _ h => h) rfl _
  · split
    · exact .stays w
    · next hfree =>
      apply Effect.goes .statting
      · rfl
      · exact keepsFiles_of_eq rfl (fun _ h => h)
      · rfl
      · intro q _ hq
        simp [hq] at hfree
      · exact fun _ => .inl rfl
      · exact fun h => by cases h
      · exact fun h => by cases h
  · next hpc => exact statMarker_effect hpc
  · split
    · next hok =>
      apply Effect.finish w rfl rfl (fun _ h => h) rfl (by simp [Callers.Inside, Pc.Binding])
      exact fun _ _ => .inr (checkMarker_ok hok)
    · exact .fails w rfl rfl (fun _ h => h) rfl _
  · next hpc =>
    split
    · apply Effect.goto
      · exact fun _ => .inl (hpc ▸ trivial)
      · exact fun _ => .inl (hpc ▸ trivial)
      · simp
    · exact .fails w rfl rfl (fun _ h => h) rfl _
  · next hpc =>
    apply Effect.goes .renaming
    · rfl
    · exact keepsFiles_of_eq rfl (fun _ h => List.mem_cons_of_mem _ h)
    · rfl
    · exact fun q _ h => h
    · exact fun _ => .inr ⟨.inl (hpc ▸ trivial), rfl⟩
    · exact fun _ => .inl (hpc ▸ trivial)
    · exact fun h => by cases h
  · apply Effect.fails (w := w) (w.setTemps (p :: w.temps)) rfl rfl
    · exact fun _ h => List.mem_cons_of_mem _ h
    · rfl
  · next hpc =>
    split
    · next d hd =>
      apply Effect.binds hpc
      · rw [finish_pc]
        rfl
      · simp [World.finish, World.marker, Dir.setMarker]
      · intro q hq h
        exact release_holder_of_ne hq h
    · exact .fails w rfl rfl (fun _ h => h) rfl _
  · exact .goto_outside (by simp [Callers.Inside, Pc.Binding]) (by simp)
  · exact .goto_outside (by simp [Callers.Inside, Pc.Binding]) (by simp)
  · exact .stays w
  · exact .stays w
  · exact .stays w
  · exact .fails w rfl rfl (fun _ h => h) rfl _
  · exact .fails w rfl rfl (fun _ h => h) rfl _

theorem crash_effect (c : Callers ι) (w : World ι) (p : ι) : Effect c w p (w.crash p) := by
  unfold World.crash
  split
  · exact .stays w
  · exact .stays w
  · apply Effect.finish w rfl rfl (fun _ h => h) rfl (by simp [Callers.Inside, Pc.Binding])
    exact fun h => by cases h

/-- The custom calls that have the lock have it alone, none of those about to write a marker has
one before it, and those accepted have bound the directory. -/
structure Sound (c : Callers ι) (w : World ι) : Prop where
  holder : ∀ p, c.Inside p (w.pc p) → w.holder = some p
  unmarked : ∀ p, (w.pc p).Binding → w.marker = none
  owned : ∀ p, c.source p ≠ .default → w.pc p = .accepted →
    w.marker = some (.value (some (c.source p).slug))

omit [DecidableEq ι] in
theorem start_sound (c : Callers ι) (dir : Option Dir) : Sound c (start dir) where
  holder p h := by simp [start, Callers.Inside, Pc.Binding] at h
  unmarked p h := by cases h
  owned p _ h := by cases h

/-- A step leaves a marker that is there, and adds one only where a call binds. -/
theorem Effect.marker_eq (he : Effect c w p w') (h : Sound c w) {m : Marker}
    (hm : w.marker = some m) : w'.marker = some m := by
  cases he with
  | goes pc _ _ hmarker _ _ _ _ => exact hmarker.trans hm
  | binds hstage _ _ _ =>
    have hnone := h.unmarked p (hstage ▸ trivial)
    simp [hnone] at hm

theorem Effect.sound (he : Effect c w p w') (h : Sound c w) : Sound c w' := by
  have hkept : ∀ m, w.marker = some m → w'.marker = some m := fun m => he.marker_eq h
  cases he with
  | goes pc hpcs _ hmarker hothers hinside hbinding haccepted =>
    refine ⟨fun q hq => ?_, fun q hq => ?_, fun q hcustom hq => ?_⟩
    · by_cases hqp : q = p
      · subst hqp
        rw [hpcs, Function.update_self] at hq
        rcases hinside hq with hnow | ⟨hbefore, hsame⟩
        · exact hnow
        · exact hsame.trans (h.holder q hbefore)
      · rw [hpcs, Function.update_of_ne hqp] at hq
        exact hothers q hqp (h.holder q hq)
    · rw [hmarker]
      by_cases hqp : q = p
      · subst hqp
        rw [hpcs, Function.update_self] at hq
        rcases hbinding hq with hbefore | hnone
        · exact h.unmarked q hbefore
        · exact hnone
      · rw [hpcs, Function.update_of_ne hqp] at hq
        exact h.unmarked q hq
    · by_cases hqp : q = p
      · subst hqp
        rw [hpcs, Function.update_self] at hq
        by_cases hbefore : w.pc q = .accepted
        · exact hkept _ (h.owned q hcustom hbefore)
        · rcases haccepted hq hbefore with ⟨hdefault, -⟩ | hbound
          · exact absurd hdefault hcustom
          · exact hkept _ hbound
      · rw [hpcs, Function.update_of_ne hqp] at hq
        exact hkept _ (h.owned q hcustom hq)
  | binds hstage hpcs hmarker hothers =>
    have hbinding : (w.pc p).Binding := hstage ▸ trivial
    refine ⟨fun q hq => ?_, fun q hq => ?_, fun q hcustom hq => ?_⟩
    · by_cases hqp : q = p
      · subst hqp
        simp [hpcs, Callers.Inside, Pc.Binding] at hq
      · rw [hpcs, Function.update_of_ne hqp] at hq
        exact hothers q hqp (h.holder q hq)
    · by_cases hqp : q = p
      · subst hqp
        simp [hpcs, Pc.Binding] at hq
      · rw [hpcs, Function.update_of_ne hqp] at hq
        have hq' := h.holder q (.inl hq)
        have hp' := h.holder p (.inl hbinding)
        exact absurd (Option.some.inj (hq'.symm.trans hp')) hqp
    · by_cases hqp : q = p
      · exact hqp ▸ hmarker
      · rw [hpcs, Function.update_of_ne hqp] at hq
        exact hkept _ (h.owned q hcustom hq)

omit [DecidableEq ι] in
theorem store_marker (w : World ι) (name content : String) :
    (w.setDir (w.dir.map (Dir.store name content))).marker = w.marker := by
  cases hd : w.dir <;> simp [World.marker, hd, Dir.store]

theorem Sound.next (h : Sound c w) (e : Event ι) : Sound c (next c w e) := by
  cases e with
  | act p io => exact (ensure_effect c w p io).sound h
  | crash p => exact (crash_effect c w p).sound h
  | store name content =>
    have hmarker := store_marker w name content
    exact ⟨h.holder, fun p hp => hmarker.trans (h.unmarked p hp),
      fun p hcustom hp => hmarker.trans (h.owned p hcustom hp)⟩

theorem run_sound (c : Callers ι) (dir : Option Dir) (es : List (Event ι)) :
    Sound c (run c dir es) := by
  induction es using List.reverseRecOn with
  | nil => exact start_sound c dir
  | append_singleton es e ih =>
    rw [run_snoc]
    exact ih.next e

theorem next_marker_eq (h : Sound c w) {m : Marker} (hm : w.marker = some m) (e : Event ι) :
    (next c w e).marker = some m := by
  cases e with
  | act p io => exact (ensure_effect c w p io).marker_eq h hm
  | crash p => exact (crash_effect c w p).marker_eq h hm
  | store name content => exact (store_marker w name content).trans hm

theorem run_marker_eq {dir : Option Dir} {pre : List (Event ι)} {m : Marker}
    (hm : (run c dir pre).marker = some m) (post : List (Event ι)) :
    (run c dir (pre ++ post)).marker = some m := by
  induction post using List.reverseRecOn with
  | nil => simpa using hm
  | append_singleton post e ih =>
    rw [← List.append_assoc, run_snoc]
    exact next_marker_eq (run_sound c dir _) ih e

theorem Effect.pc_of_ne (he : Effect c w p w') {q : ι} (hq : q ≠ p) : w'.pc q = w.pc q := by
  cases he with
  | goes pc hpcs => rw [hpcs, Function.update_of_ne hq]
  | binds _ hpcs => rw [hpcs, Function.update_of_ne hq]

theorem next_accepted {q : ι} (h : w.pc q = .accepted) (e : Event ι) :
    (next c w e).pc q = .accepted := by
  cases e with
  | store name content => exact h
  | act p io =>
    by_cases hq : q = p
    · subst hq
      simp [next, ensure, h]
    · exact ((ensure_effect c w p io).pc_of_ne hq).trans h
  | crash p =>
    by_cases hq : q = p
    · subst hq
      simp [next, World.crash, h]
    · exact ((crash_effect c w p).pc_of_ne hq).trans h

theorem run_accepted {dir : Option Dir} {pre : List (Event ι)} {q : ι}
    (h : (run c dir pre).pc q = .accepted) (post : List (Event ι)) :
    (run c dir (pre ++ post)).pc q = .accepted := by
  induction post using List.reverseRecOn with
  | nil => simpa using h
  | append_singleton post e ih =>
    rw [← List.append_assoc, run_snoc]
    exact next_accepted ih e

/-- A step of call `p`. -/
def Event.By (p : ι) : Event ι → Prop
  | .act q _ | .crash q => q = p
  | .store _ _ => False

theorem next_effect {e : Event ι} (he : e.By p) : Effect c w p (next c w e) := by
  cases e with
  | act q io =>
    obtain rfl : q = p := he
    exact ensure_effect c w q io
  | crash q =>
    obtain rfl : q = p := he
    exact crash_effect c w q
  | store name content => cases he

/-- A step after which its call is not accepted leaves every file. -/
theorem Effect.keepsFiles (he : Effect c w p w') (hp : w'.pc p ≠ .accepted) : KeepsFiles w w' := by
  cases he with
  | goes pc _ hkeeps => exact hkeeps
  | binds _ hpcs =>
    rw [hpcs, Function.update_self] at hp
    exact absurd rfl hp

omit [DecidableEq ι] in
theorem not_custom_default : ¬ Marker.Custom (.value (some DataSource.default.slug)) := by
  rintro ⟨source, hne, heq⟩
  have hslug : DataSource.default.slug = source.slug := by simpa using heq
  exact hne (slug_injective hslug).symm

/-- The default source is accepted without a marker or with its own. -/
theorem Effect.not_custom (he : Effect c w p w') (h : Sound c w) (hdefault : c.source p = .default)
    (hbefore : w.pc p ≠ .accepted) (hnow : w'.pc p = .accepted) {m : Marker}
    (hm : w.marker = some m) : ¬ m.Custom := by
  cases he with
  | goes pc hpcs _ _ _ _ _ haccepted =>
    rw [hpcs, Function.update_self] at hnow
    rcases haccepted hnow hbefore with ⟨-, hnone⟩ | hown
    · simp [hm] at hnone
    · obtain rfl : m = _ := Option.some.inj (hm.symm.trans hown)
      rw [hdefault]
      exact not_custom_default
  | binds hstage =>
    have hnone := h.unmarked p (hstage ▸ trivial)
    simp [hm] at hnone

end Safety

section Claims

variable [DecidableEq ι]

/-- What the guard gives over a run: a custom source that is accepted has bound the directory, the
custom sources accepted are one, a marker stays as it was written, a call that has failed has left
every file, and the default source is not accepted under a custom marker. -/
structure SingleOwner (c : Callers ι) (dir : Option Dir) (es : List (Event ι)) : Prop where
  bound : ∀ p, c.source p ≠ .default → (run c dir es).pc p = .accepted →
    (run c dir es).marker = some (.value (some (c.source p).slug))
  single : ∀ p q, c.source p ≠ .default → c.source q ≠ .default →
    (run c dir es).pc p = .accepted → (run c dir es).pc q = .accepted → c.source p = c.source q
  marker : ∀ pre post m, es = pre ++ post → (run c dir pre).marker = some m →
    (run c dir es).marker = some m
  failed : ∀ pre e post p message, es = pre ++ e :: post → e.By p →
    (run c dir es).pc p = .failed message → KeepsFiles (run c dir pre) (run c dir (pre ++ [e]))
  refused : ∀ pre e post p, es = pre ++ e :: post → c.source p = .default →
    (run c dir pre).pc p ≠ .accepted → (run c dir (pre ++ [e])).pc p = .accepted →
    ∀ m, (run c dir pre).marker = some m → ¬ m.Custom

/-- Whatever the directory holds at first and however the calls interleave, it has one owner. -/
theorem run_singleOwner (c : Callers ι) (dir : Option Dir) (es : List (Event ι)) :
    SingleOwner c dir es where
  bound p hcustom hp := (run_sound c dir es).owned p hcustom hp
  single p q hp hq hacceptedP hacceptedQ := by
    have hmarkerP := (run_sound c dir es).owned p hp hacceptedP
    have hmarkerQ := (run_sound c dir es).owned q hq hacceptedQ
    have hslug : (c.source p).slug = (c.source q).slug := by
      simpa using hmarkerP.symm.trans hmarkerQ
    exact slug_injective hslug
  marker pre post m heq hm := by
    subst heq
    exact run_marker_eq hm post
  failed pre e post p message heq he hfailed := by
    subst heq
    rw [run_snoc]
    apply (next_effect he).keepsFiles
    intro haccepted
    have hend : (run c dir (pre ++ [e])).pc p = .accepted := by rwa [run_snoc]
    have hlater := run_accepted hend post
    rw [List.append_assoc, List.singleton_append, hfailed] at hlater
    cases hlater
  refused pre e post p heq hdefault hbefore hnow m hm := by
    rw [run_snoc] at hnow
    cases e with
    | store name content => exact absurd hnow hbefore
    | act q io =>
      by_cases hq : p = q
      · subst hq
        exact (ensure_effect c _ p io).not_custom (run_sound c dir pre) hdefault hbefore hnow hm
      · exact absurd (((ensure_effect c _ q io).pc_of_ne hq).symm.trans hnow) hbefore
    | crash q =>
      by_cases hq : p = q
      · subst hq
        exact (crash_effect c _ p).not_custom (run_sound c dir pre) hdefault hbefore hnow hm
      · exact absurd (((crash_effect c _ q).pc_of_ne hq).symm.trans hnow) hbefore

/-- Two custom sources race for an empty directory. -/
example :
    let c : Callers (Fin 2) := ⟨"data", fun p => ⟨if p = 0 then "a" else "b", "data", by
      revert p
      decide⟩⟩
    let es := (List.replicate 10 [0, 1]).flatten.map fun p => Event.act p .ok
    (run c none es).pc 0 = .accepted ∧
      (run c none es).pc 1 = .failed (c.describe 1 foreignMarker) := by
  decide

end Claims

end PrtsMcp.SourceGuard
