import Mathlib

/-!
# The management endpoint

Servers that bind one socket path in any order of their steps, drop their listeners and die. The lock
of a file next to the path is held from before a stale socket is looked for until after the listener
has removed its own.
-/
namespace PrtsMcp.ControlEndpoint

open Function (update update_self update_of_ne)

variable {ι π : Type*}

/-! ## Source -/

inductive BindError where
  | invalidInput (message : String)
  | denied (message : String)
  | inUse (message : String)
  | os
  deriving DecidableEq, Repr

/-- What an attempt to bind does next. Listeners know the inode of their socket. `dead` are those of a
process that has died, whose descriptors the kernel still has to close. -/
inductive Pc where
  | starting
  | makingParent
  | closingParent
  | checkingParent
  | checkingLock
  | openingLock
  | locking
  | inspecting
  | probing
  | reclaiming
  | binding
  | identifying
  | securing (identity : ℕ)
  | serving (identity : ℕ)
  | dropping (identity : ℕ) (error : Option BindError)
  | unlinking (error : Option BindError)
  | closing (error : Option BindError)
  | releasing (error : Option BindError)
  | ended (error : Option BindError)
  | dead
  deriving DecidableEq, Repr

/-- Who made a file: an attempt that bound a socket, or somebody else, who may be listening. -/
inductive Maker (ι : Type*) where
  | server (p : ι)
  | outsider (listening : Bool)

/-- A file at the endpoint. It is `owned` where its user is the servers'. -/
structure Node (ι : Type*) where
  ino : ℕ
  socket : Bool
  owned : Bool
  maker : Maker ι

/-- `ours` is a directory of the servers' user, `closed` one of mode 0700. -/
structure Parent where
  ours : Bool
  closed : Bool
  deriving DecidableEq

/-- The lock file is there as a regular file of the user (`true`) or as anything else. `lock` has the
attempt with the lock on it, `listens` the attempts whose sockets are open. -/
structure State (ι : Type*) where
  parent : Option Parent
  lockFile : Option Bool
  lock : Option ι
  path : Option (Node ι)
  listens : ι → Bool
  pc : ι → Pc

/-- The checks of the path itself. -/
structure Endpoint where
  absolute : Bool
  hasParent : Bool

/-- The outcome of a system call; a file that it makes has the inode. -/
inductive Io where
  | ok (ino : ℕ)
  | failed
  deriving DecidableEq, Repr

inductive Event (ι π : Type*) where
  | act (p : ι) (io : Io)
  | drop (p : ι)
  | die (process : π)
  | close (p : ι)
  | unlock (p : ι)
  | place (ino : ℕ) (socket owned listening : Bool)

/-- A state in which nobody has started. -/
def start (parent : Option Parent) (lockFile : Option Bool) (path : Option (ℕ × Bool × Bool × Bool)) :
    State ι where
  parent := parent
  lockFile := lockFile
  lock := none
  path := path.map fun (ino, socket, owned, listening) => ⟨ino, socket, owned, .outsider listening⟩
  listens := fun _ => false
  pc := fun _ => .starting

def State.isLive (s : State ι) (n : Node ι) : Bool :=
  match n.maker with
  | .server p => s.listens p
  | .outsider listening => listening

@[simps]
def State.setPath (s : State ι) (path : Option (Node ι)) : State ι := { s with path }

@[simps]
def State.setLock (s : State ι) (lock : Option ι) : State ι := { s with lock }

section Steps

variable [DecidableEq ι] [DecidableEq π]

@[simps]
def State.goto (s : State ι) (p : ι) (pc : Pc) : State ι := { s with pc := update s.pc p pc }

@[simps]
def State.setListens (s : State ι) (p : ι) (listens : Bool) : State ι :=
  { s with listens := update s.listens p listens }

def State.release (s : State ι) (p : ι) : State ι := if s.lock = some p then s.setLock none else s

/-- The next step of `bind`, of the `Drop` of a listener or of the drops of their fields. -/
def act (endpoint : Endpoint) (s : State ι) (p : ι) (io : Io) : State ι :=
  match s.pc p with
  | .starting =>
    if !endpoint.absolute then
      s.goto p (.ended (some (.invalidInput "control endpoint must be absolute")))
    else if io = .failed then s.goto p (.ended (some .os))
    else if !endpoint.hasParent then
      s.goto p (.ended (some (.denied "control endpoint needs parent directory")))
    else s.goto p (if s.parent.isSome then .checkingParent else .makingParent)
  | .makingParent =>
    if io = .failed then s.goto p (.ended (some .os))
    else { s with parent := s.parent.or (some ⟨true, false⟩) }.goto p .closingParent
  | .closingParent =>
    match s.parent, io with
    | some ⟨true, _⟩, .ok _ => { s with parent := some ⟨true, true⟩ }.goto p .checkingParent
    | _, _ => s.goto p (.ended (some .os))
  | .checkingParent =>
    match s.parent, io with
    | some parent, .ok _ =>
      s.goto p (if parent.ours && parent.closed then .checkingLock else .ended (some
        (.denied "control directory must be owned by server user with mode 0700")))
    | _, _ => s.goto p (.ended (some .os))
  | .checkingLock =>
    s.goto p (if io ≠ .failed ∧ s.lockFile = some false then
      .ended (some (.denied "invalid control ownership lock")) else .openingLock)
  | .openingLock =>
    if io = .failed then s.goto p (.ended (some .os))
    else { s with lockFile := s.lockFile.or (some true) }.goto p .locking
  | .locking =>
    if io = .failed ∨ s.lock.isSome then
      s.goto p (.ended (some (.inUse "control endpoint already owned")))
    else (s.setLock (some p)).goto p .inspecting
  | .inspecting =>
    match s.path, io with
    | _, .failed => s.goto p (.releasing (some .os))
    | none, .ok _ => s.goto p .binding
    | some n, .ok _ =>
      s.goto p (if n.socket && n.owned then .probing
        else .releasing (some (.denied "existing endpoint is not an owned socket")))
  | .probing =>
    match s.path, io with
    | some n, .ok _ =>
      s.goto p (if s.isLive n then .releasing (some (.inUse "control endpoint already active"))
        else .reclaiming)
    | _, _ => s.goto p (.releasing (some .os))
  | .reclaiming =>
    match s.path, io with
    | some _, .ok _ => (s.setPath none).goto p .binding
    | _, _ => s.goto p (.releasing (some .os))
  | .binding =>
    match s.path, io with
    | none, .ok ino =>
      ((s.setPath (some ⟨ino, true, true, .server p⟩)).setListens p true).goto p .identifying
    | _, _ => s.goto p (.releasing (some .os))
  | .identifying =>
    match s.path, io with
    | some n, .ok _ => s.goto p (.securing n.ino)
    | _, _ => s.goto p (.closing (some .os))
  | .securing identity =>
    s.goto p (if io ≠ .failed ∧ s.path.isSome then .serving identity
      else .dropping identity (some .os))
  | .serving _ => s
  | .dropping identity error =>
    s.goto p (if io ≠ .failed ∧ s.path.map Node.ino = some identity then .unlinking error
      else .closing error)
  | .unlinking error => (if io = .failed then s else s.setPath none).goto p (.closing error)
  | .closing error => (s.setListens p false).goto p (.releasing error)
  | .releasing error => (s.release p).goto p (.ended error)
  | .ended _ | .dead => s

/-- A process that dies takes all its attempts along, and the kernel closes their descriptors in any
order. Outsiders only put files where there is none. -/
def next (endpoint : Endpoint) (process : ι → π) (s : State ι) : Event ι π → State ι
  | .act p io => act endpoint s p io
  | .drop p =>
    match s.pc p with
    | .serving identity => s.goto p (.dropping identity none)
    | _ => s
  | .die q => { s with pc := fun p => if process p = q then .dead else s.pc p }
  | .close p => if s.pc p = .dead then s.setListens p false else s
  | .unlock p => if s.pc p = .dead then s.release p else s
  | .place ino socket owned listening =>
    if s.path.isNone ∧ s.parent.isSome then
      s.setPath (some ⟨ino, socket, owned, .outsider listening⟩)
    else s

def run (endpoint : Endpoint) (process : ι → π) (s : State ι) (es : List (Event ι π)) : State ι :=
  es.foldl (next endpoint process) s

end Steps

/-! ## Ownership -/

/-- The steps between taking the lock and releasing it. -/
def Pc.Inside : Pc → Prop
  | .inspecting | .probing | .reclaiming | .binding | .identifying | .securing _ | .serving _
  | .dropping _ _ | .unlinking _ | .closing _ | .releasing _ => True
  | _ => False

/-- The steps after the check of the directory that may still lead to a socket in it. -/
def Pc.Checked : Pc → Prop
  | .checkingLock | .openingLock | .locking | .inspecting | .probing | .reclaiming | .binding => True
  | _ => False

def securedParent : Parent := ⟨true, true⟩

/-- The file is the socket of the attempt, which is open. -/
def State.Has (s : State ι) (p : ι) (n : Node ι) : Prop := n.maker = .server p ∧ s.listens p = true

/-- A socket of the user that nobody listens on. -/
def State.Stale (s : State ι) (n : Node ι) : Prop :=
  n.socket = true ∧ n.owned = true ∧ s.isLive n = false

/-- What is at the path while an attempt is at a step. -/
def Local (s : State ι) (p : ι) : Pc → Prop
  | .probing => ∃ n ∈ s.path, n.socket = true ∧ n.owned = true
  | .reclaiming => ∃ n ∈ s.path, s.Stale n
  | .identifying | .unlinking _ => ∃ n ∈ s.path, s.Has p n
  | .securing identity | .serving identity | .dropping identity _ =>
    ∃ n ∈ s.path, s.Has p n ∧ n.ino = identity
  | _ => True

/-- The sockets that servers make are their own, in a directory of their own. -/
def Made (s : State ι) : Prop :=
  ∀ n ∈ s.path, ∀ p, n.maker = .server p →
    n.socket = true ∧ n.owned = true ∧ s.parent = some securedParent

structure Sound (s : State ι) : Prop where
  lock : ∀ p, (s.pc p).Inside → s.lock = some p
  here : ∀ p, Local s p (s.pc p)
  checked : ∀ p, (s.pc p).Checked → s.parent = some securedParent
  made : Made s

theorem start_sound (parent : Option Parent) (lockFile : Option Bool)
    (path : Option (ℕ × Bool × Bool × Bool)) : Sound (start parent lockFile path : State ι) where
  lock p h := by cases h
  here p := trivial
  checked p h := by cases h
  made n hn p hp := by
    obtain ⟨⟨ino, socket, owned, listening⟩, -, rfl⟩ := Option.map_eq_some_iff.mp hn
    cases hp

section Safety

variable {s s' : State ι} {p q : ι}

theorem Local.of_not_inside {pc : Pc} (h : ¬ pc.Inside) : Local s p pc := by
  cases pc <;> first | trivial | exact absurd trivial h

/-- Where the path is vacant nobody is at a step that says otherwise. -/
theorem Local.of_vacant {pc : Pc} (h : Local s p pc) (hpath : s.path = none) : Local s' p pc := by
  cases pc <;> first | trivial | (obtain ⟨n, hn, -⟩ := h; rw [hpath] at hn; cases hn)

theorem State.Stale.of_closed {n : Node ι} (h : s.Stale n)
    (hlistens : ∀ q, s'.listens q = true → s.listens q = true) : s'.Stale n := by
  obtain ⟨hsocket, howned, hlive⟩ := h
  refine ⟨hsocket, howned, Bool.eq_false_iff.mpr fun hlive' => ?_⟩
  rw [State.isLive] at hlive hlive'
  cases hmaker : n.maker with
  | outsider listening =>
    rw [hmaker] at hlive hlive'
    exact Bool.eq_false_iff.mp hlive hlive'
  | server q =>
    rw [hmaker] at hlive hlive'
    exact Bool.eq_false_iff.mp hlive (hlistens q hlive')

/-- Sockets of others may be closed. -/
theorem Local.of_closed {pc : Pc} (h : Local s p pc) (hpath : s'.path = s.path)
    (hself : s'.listens p = s.listens p) (hlistens : ∀ q, s'.listens q = true → s.listens q = true) :
    Local s' p pc := by
  have hhas : ∀ n, s.Has p n → s'.Has p n := fun n hn => ⟨hn.1, hself.trans hn.2⟩
  cases pc with
  | probing =>
    obtain ⟨n, hn, h⟩ := h
    exact ⟨n, hpath ▸ hn, h⟩
  | reclaiming =>
    obtain ⟨n, hn, h⟩ := h
    exact ⟨n, hpath ▸ hn, h.of_closed hlistens⟩
  | identifying | unlinking =>
    obtain ⟨n, hn, h⟩ := h
    exact ⟨n, hpath ▸ hn, hhas n h⟩
  | securing | serving | dropping =>
    obtain ⟨n, hn, h, hino⟩ := h
    exact ⟨n, hpath ▸ hn, hhas n h, hino⟩
  | _ => trivial

/-- A step of one attempt, which changes the lock, the path and the sockets only where no other attempt
has the lock. -/
theorem Sound.moved (h : Sound s) (hpc : ∀ q ≠ p, s'.pc q = s.pc q)
    (hshared : (s.lock = some p ∨ s.lock = none) ∨
      (s'.lock = s.lock ∧ s'.path = s.path ∧ s'.listens = s.listens))
    (hparent : s.parent = some securedParent → s'.parent = some securedParent)
    (hlock : (s'.pc p).Inside → s'.lock = some p) (hhere : Local s' p (s'.pc p))
    (hchecked : (s'.pc p).Checked → s'.parent = some securedParent) (hmade : Made s') : Sound s' where
  lock q hq := by
    by_cases hqp : q = p
    · subst hqp
      exact hlock hq
    · rw [hpc q hqp] at hq
      rcases hshared with hfree | ⟨hsame, -⟩
      · rw [h.lock q hq] at hfree
        simp [hqp] at hfree
      · rw [hsame, h.lock q hq]
  here q := by
    by_cases hqp : q = p
    · rw [hqp]
      exact hhere
    · rw [hpc q hqp]
      rcases hshared with hfree | ⟨-, hpath, hlistens⟩
      · refine Local.of_not_inside fun hq => ?_
        rw [h.lock q hq] at hfree
        simp [hqp] at hfree
      · exact (h.here q).of_closed hpath (by rw [hlistens]) (by simp [hlistens])
  checked q hq := by
    by_cases hqp : q = p
    · subst hqp
      exact hchecked hq
    · rw [hpc q hqp] at hq
      exact hparent (h.checked q hq)
  made := hmade

variable [DecidableEq ι]

theorem Sound.goto (h : Sound s) {pc : Pc} (hlock : pc.Inside → s.lock = some p) (hhere : Local s p pc)
    (hchecked : pc.Checked → s.parent = some securedParent) : Sound (s.goto p pc) := by
  have hself : (s.goto p pc).pc p = pc := update_self ..
  refine h.moved (fun q hq => update_of_ne hq ..) (.inr ⟨rfl, rfl, rfl⟩) id ?_ ?_ ?_ h.made
  · rw [hself]
    exact hlock
  · rw [hself]
    exact hhere.of_closed rfl rfl fun _ => id
  · rw [hself]
    exact hchecked

/-- The attempt with the lock changes the rest before it goes on. -/
theorem Sound.changed (h : Sound s) (hp : s.lock = some p) {pc : Pc} (hpc : s'.pc = s.pc)
    (hparent : s'.parent = s.parent) (hlock : pc.Inside → s'.lock = some p) (hhere : Local s' p pc)
    (hchecked : pc.Checked → s.parent = some securedParent) (hmade : Made s') :
    Sound (s'.goto p pc) := by
  have hself : (s'.goto p pc).pc p = pc := update_self ..
  refine h.moved (fun q hq => (update_of_ne hq ..).trans (congrFun hpc q)) (.inl (.inl hp))
    hparent.trans ?_ ?_ ?_ hmade
  · rw [hself]
    exact hlock
  · rw [hself]
    exact hhere.of_closed rfl rfl fun _ => id
  · rw [hself]
    exact fun hpast => hparent.trans (hchecked hpast)

theorem Sound.ended (h : Sound s) (error : Option BindError) : Sound (s.goto p (.ended error)) :=
  h.goto False.elim trivial False.elim

theorem Sound.leaving (h : Sound s) (hin : (s.pc p).Inside) (error : Option BindError) :
    Sound (s.goto p (.releasing error)) :=
  h.goto (fun _ => h.lock p hin) trivial False.elim

theorem Sound.closing (h : Sound s) (hin : (s.pc p).Inside) (error : Option BindError) :
    Sound (s.goto p (.closing error)) :=
  h.goto (fun _ => h.lock p hin) trivial False.elim

omit [DecidableEq ι] in
/-- The directory and the lock file are made. -/
theorem Sound.withFiles (h : Sound s) {parent : Option Parent} (lockFile : Option Bool)
    (hparent : s.parent = some securedParent → parent = some securedParent) :
    Sound { s with parent := parent, lockFile := lockFile } where
  lock := h.lock
  here p := (h.here p).of_closed rfl rfl fun _ => id
  checked p hp := hparent (h.checked p hp)
  made n hn p hp :=
    have hmade := h.made n hn p hp
    ⟨hmade.1, hmade.2.1, hparent hmade.2.2⟩

/-- The steps before the lock is taken. -/
theorem Sound.act_outside (h : Sound s) (endpoint : Endpoint) (io : Io) (hout : ¬ (s.pc p).Inside) :
    Sound (act endpoint s p io) := by
  have hchecked := h.checked p
  cases hpc : s.pc p with
  | starting =>
    simp only [act, hpc]
    split_ifs
    · exact h.ended _
    · exact h.ended _
    · exact h.ended _
    · exact h.goto False.elim trivial False.elim
    · exact h.goto False.elim trivial False.elim
  | makingParent =>
    simp only [act, hpc]
    split_ifs
    · exact h.ended _
    · exact (h.withFiles s.lockFile (by simp +contextual)).goto False.elim trivial False.elim
  | closingParent =>
    simp only [act, hpc]
    split
    · exact (h.withFiles s.lockFile fun _ => rfl).goto False.elim trivial False.elim
    · exact h.ended _
  | checkingParent =>
    simp only [act, hpc]
    split
    · next parent ino hparent =>
      split_ifs with hown
      · refine h.goto False.elim trivial fun _ => hparent.trans ?_
        obtain ⟨ours, closed⟩ := parent
        obtain ⟨rfl, rfl⟩ : ours = true ∧ closed = true := by simpa using hown
        rfl
      · exact h.ended _
    · exact h.ended _
  | checkingLock =>
    simp only [act, hpc]
    split_ifs
    · exact h.ended _
    · exact h.goto False.elim trivial fun _ => hchecked (hpc ▸ trivial)
  | openingLock =>
    simp only [act, hpc]
    split_ifs
    · exact h.ended _
    · exact (h.withFiles _ id).goto False.elim trivial fun _ => hchecked (hpc ▸ trivial)
  | locking =>
    simp only [act, hpc]
    split_ifs with hlocked
    · exact h.ended _
    · have hfree : s.lock = none := by simpa using (not_or.mp hlocked).2
      exact h.moved (fun q hq => update_of_ne hq ..) (.inl (.inr hfree)) id (fun _ => rfl)
        (by simp [State.goto, Local]) (fun _ => hchecked (hpc ▸ trivial)) h.made
  | ended | dead => simpa only [act, hpc] using h
  | inspecting | probing | reclaiming | binding | identifying | securing | serving | dropping
  | unlinking | closing | releasing =>
    rw [hpc] at hout
    exact absurd trivial hout

/-- The steps with the lock. -/
theorem Sound.act_inside (h : Sound s) (endpoint : Endpoint) (io : Io) (hin : (s.pc p).Inside) :
    Sound (act endpoint s p io) := by
  have hlock := h.lock p hin
  have hhere := h.here p
  have hchecked := h.checked p
  cases hpc : s.pc p with
  | starting | makingParent | closingParent | checkingParent | checkingLock | openingLock | locking
  | ended | dead =>
    rw [hpc] at hin
    exact hin.elim
  | inspecting =>
    simp only [act, hpc]
    split
    · exact h.leaving hin _
    · exact h.goto (fun _ => hlock) trivial fun _ => hchecked (hpc ▸ trivial)
    · next n ino hpath =>
      split_ifs with hown
      · have hboth : n.socket = true ∧ n.owned = true := by simpa using hown
        exact h.goto (fun _ => hlock) ⟨n, hpath, hboth⟩ fun _ => hchecked (hpc ▸ trivial)
      · exact h.leaving hin _
  | probing =>
    rw [hpc] at hhere
    obtain ⟨n, hpath, hsocket, howned⟩ := hhere
    simp only [act, hpc]
    split
    · next n' ino hpath' =>
      obtain rfl : n = n' := Option.some.inj (hpath.symm.trans hpath')
      split_ifs with hlive
      · exact h.leaving hin _
      · exact h.goto (fun _ => hlock) ⟨n, hpath, hsocket, howned, by simpa using hlive⟩
          fun _ => hchecked (hpc ▸ trivial)
    · exact h.leaving hin _
  | reclaiming =>
    simp only [act, hpc]
    split
    · exact h.changed hlock rfl rfl (fun _ => hlock) trivial (fun _ => hchecked (hpc ▸ trivial))
        fun n hn => by cases hn
    · exact h.leaving hin _
  | binding =>
    simp only [act, hpc]
    split
    · next ino hvacant =>
      have hdir := hchecked (hpc ▸ trivial)
      refine h.changed hlock rfl rfl (fun _ => hlock) ⟨_, rfl, rfl, update_self ..⟩ False.elim ?_
      rintro n ⟨⟩ q hq
      exact ⟨rfl, rfl, hdir⟩
    · exact h.leaving hin _
  | identifying =>
    rw [hpc] at hhere
    obtain ⟨n, hpath, hhas⟩ := hhere
    simp only [act, hpc]
    split
    · next n' ino hpath' =>
      obtain rfl : n = n' := Option.some.inj (hpath.symm.trans hpath')
      exact h.goto (fun _ => hlock) ⟨n, hpath, hhas, rfl⟩ False.elim
    · exact h.closing hin _
  | securing identity =>
    rw [hpc] at hhere
    simp only [act, hpc]
    split_ifs
    · exact h.goto (fun _ => hlock) hhere False.elim
    · exact h.goto (fun _ => hlock) hhere False.elim
  | serving identity => simpa only [act, hpc] using h
  | dropping identity error =>
    rw [hpc] at hhere
    obtain ⟨n, hpath, hhas, -⟩ := hhere
    simp only [act, hpc]
    split_ifs
    · exact h.goto (fun _ => hlock) ⟨n, hpath, hhas⟩ False.elim
    · exact h.closing hin _
  | unlinking error =>
    simp only [act, hpc]
    split_ifs
    · exact h.closing hin _
    · exact h.changed hlock rfl rfl (fun _ => hlock) trivial False.elim fun n hn => by cases hn
  | closing error =>
    simp only [act, hpc]
    exact h.changed hlock rfl rfl (fun _ => hlock) trivial False.elim h.made
  | releasing error =>
    simp only [act, hpc, State.release, if_pos hlock]
    exact h.changed hlock rfl rfl False.elim trivial False.elim h.made

theorem Sound.act (h : Sound s) (endpoint : Endpoint) (p : ι) (io : Io) :
    Sound (act endpoint s p io) := by
  by_cases hin : (s.pc p).Inside
  · exact h.act_inside endpoint io hin
  · exact h.act_outside endpoint io hin

variable [DecidableEq π]

theorem Sound.next (h : Sound s) (endpoint : Endpoint) (process : ι → π) (e : Event ι π) :
    Sound (next endpoint process s e) := by
  cases e with
  | act p io => exact h.act endpoint p io
  | drop p =>
    rw [ControlEndpoint.next]
    split
    · next identity hpc =>
      have hhere := h.here p
      rw [hpc] at hhere
      exact h.goto (fun _ => h.lock p (hpc ▸ trivial)) hhere False.elim
    · exact h
  | die q =>
    have hpc : ∀ p, (ControlEndpoint.next endpoint process s (.die q)).pc p = .dead ∨
        (ControlEndpoint.next endpoint process s (.die q)).pc p = s.pc p := by
      intro p
      rw [ControlEndpoint.next]
      dsimp only
      split_ifs
      · exact .inl rfl
      · exact .inr rfl
    refine ⟨fun p hp => ?_, fun p => ?_, fun p hp => ?_, h.made⟩
    · rcases hpc p with hdead | hsame
      · rw [hdead] at hp
        exact hp.elim
      · exact h.lock p (hsame ▸ hp)
    · rcases hpc p with hdead | hsame
      · rw [hdead]
        trivial
      · rw [hsame]
        exact (h.here p).of_closed rfl rfl fun _ => id
    · rcases hpc p with hdead | hsame
      · rw [hdead] at hp
        exact hp.elim
      · exact h.checked p (hsame ▸ hp)
  | close p =>
    rw [ControlEndpoint.next]
    split_ifs with hdead
    · refine ⟨h.lock, fun q => ?_, h.checked, h.made⟩
      by_cases hq : q = p
      · subst hq
        exact Local.of_not_inside fun hin => by rw [State.setListens_pc, hdead] at hin; exact hin
      · refine (h.here q).of_closed rfl (update_of_ne hq ..) fun r hr => ?_
        by_cases hrp : r = p
        · simp [hrp] at hr
        · rwa [State.setListens_listens, update_of_ne hrp] at hr
    · exact h
  | unlock p =>
    rw [ControlEndpoint.next]
    split_ifs with hdead
    · rw [State.release]
      split_ifs with hlock
      · refine ⟨fun q hq => ?_, fun q => (h.here q).of_closed rfl rfl fun _ => id, h.checked, h.made⟩
        obtain rfl : p = q := Option.some.inj (hlock.symm.trans (h.lock q hq))
        rw [State.setLock_pc, hdead] at hq
        exact hq.elim
      · exact h
    · exact h
  | place ino socket owned listening =>
    rw [ControlEndpoint.next]
    split_ifs with hvacant
    · refine ⟨h.lock, fun q => (h.here q).of_vacant (by simpa using hvacant.1), h.checked, ?_⟩
      rintro n ⟨⟩ q hq
      cases hq
    · exact h

theorem run_snoc (endpoint : Endpoint) (process : ι → π) (s : State ι) (es : List (Event ι π))
    (e : Event ι π) :
    run endpoint process s (es ++ [e]) =
      ControlEndpoint.next endpoint process (run endpoint process s es) e := by
  simp [run]

theorem Sound.run (h : Sound s) (endpoint : Endpoint) (process : ι → π) (es : List (Event ι π)) :
    Sound (run endpoint process s es) := by
  induction es using List.reverseRecOn with
  | nil => exact h
  | append_singleton es e ih =>
    rw [run_snoc]
    exact ih.next endpoint process e

/-! ## Removals -/

omit [DecidableEq π] in
/-- Only two steps take a file off the path. -/
theorem act_path (endpoint : Endpoint) (io : Io) {n : Node ι} (hn : s.path = some n)
    (hreclaiming : s.pc p ≠ .reclaiming) (hunlinking : ∀ error, s.pc p ≠ .unlinking error) :
    (ControlEndpoint.act endpoint s p io).path = some n := by
  cases hpc : s.pc p with
  | reclaiming => exact absurd hpc hreclaiming
  | unlinking error => exact absurd hpc (hunlinking error)
  | binding =>
    simp only [ControlEndpoint.act, hpc, hn]
    exact hn
  | releasing error =>
    simp only [ControlEndpoint.act, hpc, State.release]
    split_ifs
    · exact hn
    · exact hn
  | _ =>
    simp only [ControlEndpoint.act, hpc]
    repeat' split
    all_goals exact hn

/-- What a step takes off the path is a socket of the user that is the attempt's own or that nobody
listens on. -/
theorem Sound.removed (h : Sound s) (endpoint : Endpoint) (process : ι → π) (e : Event ι π)
    {n : Node ι} (hn : s.path = some n)
    (hremoved : (ControlEndpoint.next endpoint process s e).path ≠ some n) :
    n.socket = true ∧ n.owned = true ∧ (s.isLive n = false ∨
      ∃ p error, s.pc p = .unlinking error ∧ n.maker = .server p) := by
  cases e with
  | act p io =>
    have hhere := h.here p
    by_cases hreclaiming : s.pc p = .reclaiming
    · rw [hreclaiming] at hhere
      obtain ⟨n', hn', hsocket, howned, hstale⟩ := hhere
      obtain rfl : n = n' := Option.some.inj (hn.symm.trans hn')
      exact ⟨hsocket, howned, .inl hstale⟩
    · by_cases hunlinking : ∃ error, s.pc p = .unlinking error
      · obtain ⟨error, hpc⟩ := hunlinking
        rw [hpc] at hhere
        obtain ⟨n', hn', hmaker, -⟩ := hhere
        obtain rfl : n = n' := Option.some.inj (hn.symm.trans hn')
        obtain ⟨hsocket, howned, -⟩ := h.made n hn p hmaker
        exact ⟨hsocket, howned, .inr ⟨p, error, hpc, hmaker⟩⟩
      · exact absurd (act_path endpoint io hn hreclaiming (not_exists.mp hunlinking)) hremoved
  | drop p =>
    rw [ControlEndpoint.next] at hremoved
    split at hremoved
    · exact absurd hn hremoved
    · exact absurd hn hremoved
  | die q => exact absurd hn hremoved
  | close p =>
    rw [ControlEndpoint.next] at hremoved
    split_ifs at hremoved
    · exact absurd hn hremoved
    · exact absurd hn hremoved
  | unlock p =>
    rw [ControlEndpoint.next, State.release] at hremoved
    split_ifs at hremoved
    · exact absurd hn hremoved
    · exact absurd hn hremoved
    · exact absurd hn hremoved
  | place ino socket owned listening =>
    rw [ControlEndpoint.next, if_neg (by simp [hn])] at hremoved
    exact absurd hn hremoved

/-! ## Recovery -/

/-- No fault, and nobody else touches the endpoint: attempts take their steps, and the kernel closes
what the dead had open. -/
def Event.Undisturbed : Event ι π → Prop
  | .act _ (.ok _) | .close _ | .unlock _ => True
  | _ => False

/-- The steps that an event lets an attempt take. -/
def Event.turn (p : ι) : Event ι π → ℕ
  | .act q _ => if q = p then 1 else 0
  | _ => 0

def turns (p : ι) (es : List (Event ι π)) : ℕ := (es.map (Event.turn p)).sum

/-- The owner of the socket at the path has died, and nobody has the lock. -/
def Abandoned (endpoint : Endpoint) (s : State ι) : Prop :=
  endpoint.absolute = true ∧ endpoint.hasParent = true ∧ s.lockFile ≠ some false ∧ s.lock = none ∧
    ∃ n ∈ s.path, ∃ p, n.maker = .server p ∧ s.pc p = .dead ∧ s.listens p = false

/-- What the attempt with the lock finds on its way to serving. -/
def OnWay (s : State ι) : Pc → Prop
  | .inspecting => ∀ n ∈ s.path, s.Stale n
  | .probing => ∃ n ∈ s.path, s.Stale n
  | .reclaiming | .identifying | .securing _ | .serving _ => s.path.isSome = true
  | .binding => s.path = none
  | _ => False

/-- How far an attempt is on its way to serving. -/
def Pc.stage : Pc → ℕ
  | .inspecting => 0
  | .probing => 1
  | .reclaiming => 2
  | .binding => 3
  | .identifying => 4
  | .securing _ => 5
  | _ => 6

omit [DecidableEq ι] in
theorem OnWay.inside {pc : Pc} (h : OnWay s pc) : pc.Inside := by
  cases pc <;> trivial

omit [DecidableEq ι] in
theorem OnWay.serving {pc : Pc} (h : OnWay s pc) (hstage : 6 ≤ pc.stage) :
    ∃ identity, pc = .serving identity := by
  cases pc with
  | serving identity => exact ⟨identity, rfl⟩
  | inspecting | probing | reclaiming | binding | identifying | securing => simp [Pc.stage] at hstage
  | _ => exact h.elim

omit [DecidableEq ι] in
theorem OnWay.of_closed {pc : Pc} (h : OnWay s pc) (hpath : s'.path = s.path)
    (hlistens : ∀ q, s'.listens q = true → s.listens q = true) : OnWay s' pc := by
  cases pc with
  | inspecting => exact fun n hn => (h n (hpath ▸ hn)).of_closed hlistens
  | probing =>
    obtain ⟨n, hn, hstale⟩ := h
    exact ⟨n, hpath ▸ hn, hstale.of_closed hlistens⟩
  | reclaiming | identifying | securing | serving => exact (congrArg Option.isSome hpath).trans h
  | binding => exact hpath.trans h
  | _ => exact h.elim

/-- The attempt with the lock goes on. -/
theorem OnWay.act (h : OnWay s (s.pc p)) (hlock : s.lock = some p) (endpoint : Endpoint) (ino : ℕ) :
    (ControlEndpoint.act endpoint s p (.ok ino)).lock = some p ∧
      OnWay (ControlEndpoint.act endpoint s p (.ok ino))
        ((ControlEndpoint.act endpoint s p (.ok ino)).pc p) ∧
      min 6 ((s.pc p).stage + 1) ≤ ((ControlEndpoint.act endpoint s p (.ok ino)).pc p).stage := by
  cases hpc : s.pc p with
  | inspecting =>
    rw [hpc] at h
    cases hpath : s.path with
    | none => simp [ControlEndpoint.act, hpc, hpath, hlock, OnWay, Pc.stage]
    | some n =>
      obtain ⟨hsocket, howned, hlive⟩ := h n hpath
      have hact : ControlEndpoint.act endpoint s p (.ok ino) = s.goto p .probing := by
        simp [ControlEndpoint.act, hpc, hpath, hsocket, howned]
      rw [hact, State.goto_pc, update_self]
      exact ⟨hlock, ⟨n, hpath, hsocket, howned, hlive⟩, by decide⟩
  | probing =>
    rw [hpc] at h
    obtain ⟨n, hpath, hsocket, howned, hlive⟩ := h
    have hact : ControlEndpoint.act endpoint s p (.ok ino) = s.goto p .reclaiming := by
      simp only [ControlEndpoint.act, hpc, Option.mem_def.mp hpath, hlive]
      rfl
    rw [hact, State.goto_pc, update_self]
    exact ⟨hlock, Option.isSome_of_mem hpath, by decide⟩
  | reclaiming =>
    rw [hpc] at h
    obtain ⟨n, hpath⟩ := Option.isSome_iff_exists.mp h
    simp [ControlEndpoint.act, hpc, hpath, hlock, OnWay, Pc.stage]
  | binding =>
    rw [hpc] at h
    have hpath : s.path = none := h
    simp [ControlEndpoint.act, hpc, hpath, hlock, OnWay, Pc.stage]
  | identifying =>
    rw [hpc] at h
    obtain ⟨n, hpath⟩ := Option.isSome_iff_exists.mp h
    simp [ControlEndpoint.act, hpc, hpath, hlock, OnWay, Pc.stage]
  | securing identity =>
    rw [hpc] at h
    have hpath : s.path.isSome = true := h
    simp [ControlEndpoint.act, hpc, hpath, hlock, OnWay, Pc.stage]
  | serving identity =>
    rw [hpc] at h
    simpa [ControlEndpoint.act, hpc, hlock, Pc.stage] using h
  | _ =>
    rw [hpc] at h
    exact h.elim

/-- Other attempts have to wait for the lock. -/
theorem act_apart (endpoint : Endpoint) (io : Io) (hout : ¬ (s.pc p).Inside) :
    (ControlEndpoint.act endpoint s p io).path = s.path ∧
      (ControlEndpoint.act endpoint s p io).listens = s.listens ∧
      ((ControlEndpoint.act endpoint s p io).lock = s.lock ∨
        s.lock = none ∧ (ControlEndpoint.act endpoint s p io).lock = some p ∧
          (ControlEndpoint.act endpoint s p io).pc p = .inspecting) := by
  cases hpc : s.pc p with
  | inspecting | probing | reclaiming | binding | identifying | securing | serving | dropping
  | unlinking | closing | releasing =>
    rw [hpc] at hout
    exact absurd trivial hout
  | locking =>
    simp only [ControlEndpoint.act, hpc]
    split_ifs with hlocked
    · exact ⟨rfl, rfl, .inl rfl⟩
    · exact ⟨rfl, rfl, .inr ⟨by simpa using (not_or.mp hlocked).2, rfl, update_self ..⟩⟩
  | ended | dead => simp [ControlEndpoint.act, hpc]
  | _ =>
    simp only [ControlEndpoint.act, hpc]
    repeat' split
    all_goals exact ⟨rfl, rfl, .inl rfl⟩

theorem act_others (endpoint : Endpoint) (io : Io) (hq : q ≠ p) :
    (ControlEndpoint.act endpoint s p io).pc q = s.pc q := by
  cases hpc : s.pc p with
  | releasing error =>
    simp only [ControlEndpoint.act, hpc, State.release]
    split_ifs
    · exact update_of_ne hq ..
    · exact update_of_ne hq ..
  | serving | ended | dead => simp only [ControlEndpoint.act, hpc]
  | _ =>
    simp only [ControlEndpoint.act, hpc]
    repeat' split
    all_goals exact update_of_ne hq ..

/-- The directory stays closed and the lock file valid. -/
theorem act_files (endpoint : Endpoint) (io : Io) (hparent : s.parent = some securedParent)
    (hfile : s.lockFile ≠ some false) :
    (ControlEndpoint.act endpoint s p io).parent = some securedParent ∧
      (ControlEndpoint.act endpoint s p io).lockFile ≠ some false := by
  cases hpc : s.pc p with
  | makingParent =>
    simp only [ControlEndpoint.act, hpc]
    split_ifs
    · exact ⟨hparent, hfile⟩
    · exact ⟨by simp [hparent], hfile⟩
  | closingParent =>
    simp only [ControlEndpoint.act, hpc]
    split
    · exact ⟨rfl, hfile⟩
    · exact ⟨hparent, hfile⟩
  | openingLock =>
    simp only [ControlEndpoint.act, hpc]
    split_ifs
    · exact ⟨hparent, hfile⟩
    · refine ⟨hparent, ?_⟩
      cases hlockFile : s.lockFile with
      | none => simp
      | some valid => simpa [hlockFile] using hfile
  | releasing error =>
    simp only [ControlEndpoint.act, hpc, State.release]
    split_ifs
    · exact ⟨hparent, hfile⟩
    · exact ⟨hparent, hfile⟩
  | _ =>
    simp only [ControlEndpoint.act, hpc]
    repeat' split
    all_goals exact ⟨hparent, hfile⟩

/-- Where the lock is free its taker will find nothing or a stale socket, and where it is taken its
owner is on its way to serving. -/
structure Recovering (s : State ι) : Prop where
  parent : s.parent = some securedParent
  lockFile : s.lockFile ≠ some false
  free : s.lock = none → ∀ n ∈ s.path, s.Stale n
  taken : ∀ w, s.lock = some w → OnWay s (s.pc w)

theorem Recovering.act (h : Recovering s) (hsound : Sound s) (endpoint : Endpoint) (q : ι) (ino : ℕ) :
    Recovering (ControlEndpoint.act endpoint s q (.ok ino)) := by
  obtain ⟨hparent, hfile⟩ := act_files (p := q) endpoint (.ok ino) h.parent h.lockFile
  by_cases hin : (s.pc q).Inside
  · have hlock := hsound.lock q hin
    obtain ⟨hlock', hway, -⟩ := (h.taken q hlock).act hlock endpoint ino
    refine ⟨hparent, hfile, fun hfree => ?_, fun w hw => ?_⟩
    · rw [hlock'] at hfree
      cases hfree
    · obtain rfl : q = w := Option.some.inj (hlock'.symm.trans hw)
      exact hway
  · obtain ⟨hpath, hlistens, hlock⟩ := act_apart endpoint (.ok ino) hin
    have hstale : ∀ n, s.Stale n → (ControlEndpoint.act endpoint s q (.ok ino)).Stale n :=
      fun n hn => hn.of_closed fun r hr => by rwa [hlistens] at hr
    rcases hlock with hlock | ⟨hfree, hlock, hpc⟩
    · refine ⟨hparent, hfile, fun hfree n hn => hstale n ?_, fun w hw => ?_⟩
      · exact h.free (hlock ▸ hfree) n (hpath ▸ hn)
      · rw [hlock] at hw
        have hway := h.taken w hw
        have hne : w ≠ q := by
          rintro rfl
          exact hin hway.inside
        rw [act_others endpoint (.ok ino) hne]
        exact hway.of_closed hpath fun r hr => by rwa [hlistens] at hr
    · refine ⟨hparent, hfile, fun hnone => ?_, fun w hw => ?_⟩
      · rw [hlock] at hnone
        cases hnone
      · obtain rfl : q = w := Option.some.inj (hlock.symm.trans hw)
        rw [hpc]
        exact fun n hn => hstale n (h.free hfree n (hpath ▸ hn))

theorem Recovering.next (h : Recovering s) (hsound : Sound s) (endpoint : Endpoint) (process : ι → π)
    {e : Event ι π} (he : e.Undisturbed) : Recovering (ControlEndpoint.next endpoint process s e) := by
  cases e with
  | act q io =>
    cases io with
    | ok ino => exact h.act hsound endpoint q ino
    | failed => exact he.elim
  | close q =>
    rw [ControlEndpoint.next]
    split_ifs with hdead
    · have hlistens : ∀ r, (s.setListens q false).listens r = true → s.listens r = true := by
        intro r hr
        by_cases hrq : r = q
        · simp [hrq] at hr
        · rwa [State.setListens_listens, update_of_ne hrq] at hr
      exact ⟨h.parent, h.lockFile, fun hfree n hn => (h.free hfree n hn).of_closed hlistens,
        fun w hw => (h.taken w hw).of_closed rfl hlistens⟩
    · exact h
  | unlock q =>
    rw [ControlEndpoint.next, State.release]
    split_ifs with hdead hlock
    · have hway := h.taken q hlock
      rw [hdead] at hway
      exact hway.elim
    · exact h
    · exact h
  | drop | die | place => exact he.elim

/-- The attempt with the lock keeps it and every step of it counts. -/
theorem Recovering.goes_on (h : Recovering s) (hsound : Sound s) (endpoint : Endpoint)
    (process : ι → π) {e : Event ι π} (he : e.Undisturbed) (hp : s.lock = some p) :
    (ControlEndpoint.next endpoint process s e).lock = some p ∧
      min 6 ((s.pc p).stage + e.turn p) ≤
        ((ControlEndpoint.next endpoint process s e).pc p).stage := by
  have hway := h.taken p hp
  cases e with
  | act q io =>
    cases io with
    | failed => exact he.elim
    | ok ino =>
      by_cases hq : q = p
      · subst hq
        obtain ⟨hlock, -, hstage⟩ := hway.act hp endpoint ino
        rw [Event.turn, if_pos rfl]
        exact ⟨hlock, hstage⟩
      · have hout : ¬ (s.pc q).Inside := by
          intro hin
          rw [hsound.lock q hin] at hp
          exact hq (Option.some.inj hp)
        obtain ⟨-, -, hlock | ⟨hfree, -⟩⟩ := act_apart endpoint (.ok ino) hout
        · rw [Event.turn, if_neg hq, ControlEndpoint.next, act_others endpoint (.ok ino) (Ne.symm hq)]
          exact ⟨hlock.trans hp, min_le_right ..⟩
        · rw [hp] at hfree
          cases hfree
  | close q =>
    rw [ControlEndpoint.next]
    split_ifs
    · exact ⟨hp, min_le_right ..⟩
    · exact ⟨hp, min_le_right ..⟩
  | unlock q =>
    rw [ControlEndpoint.next, State.release]
    split_ifs with hdead hlock
    · obtain rfl : p = q := Option.some.inj (hp.symm.trans hlock)
      rw [hdead] at hway
      exact hway.elim
    · exact ⟨hp, min_le_right ..⟩
    · exact ⟨hp, min_le_right ..⟩
  | drop | die | place => exact he.elim

/-- The steps of an attempt up to the lock. -/
def approach : List Pc := [.starting, .checkingParent, .checkingLock, .openingLock, .locking]

theorem Recovering.approaches (h : Recovering s) {endpoint : Endpoint} (hpath : endpoint.absolute = true)
    (hdir : endpoint.hasParent = true) (process : ι → π) {e : Event ι π} (he : e.Undisturbed)
    (hfree : s.lock = none) {k : ℕ} (hq : approach[k]? = some (s.pc q)) :
    (ControlEndpoint.next endpoint process s e).lock.isSome = true ∨
      approach[k + e.turn q]? =
        some ((ControlEndpoint.next endpoint process s e).pc q) := by
  cases e with
  | act r io =>
    cases io with
    | failed => exact he.elim
    | ok ino =>
      by_cases hr : r = q
      · subst hr
        rw [Event.turn, if_pos rfl, ControlEndpoint.next]
        match k, hq with
        | 0, hq =>
          have hpc : s.pc r = .starting := (Option.some.inj hq).symm
          exact .inr (by simp [ControlEndpoint.act, hpc, hpath, hdir, h.parent, approach])
        | 1, hq =>
          have hpc : s.pc r = .checkingParent := (Option.some.inj hq).symm
          exact .inr (by simp [ControlEndpoint.act, hpc, h.parent, securedParent, approach])
        | 2, hq =>
          have hpc : s.pc r = .checkingLock := (Option.some.inj hq).symm
          exact .inr (by simp [ControlEndpoint.act, hpc, h.lockFile, approach])
        | 3, hq =>
          have hpc : s.pc r = .openingLock := (Option.some.inj hq).symm
          exact .inr (by simp [ControlEndpoint.act, hpc, approach])
        | 4, hq =>
          have hpc : s.pc r = .locking := (Option.some.inj hq).symm
          exact .inl (by simp [ControlEndpoint.act, hpc, hfree])
      · rw [Event.turn, if_neg hr, ControlEndpoint.next, act_others endpoint (.ok ino) (Ne.symm hr)]
        exact .inr hq
  | close r =>
    rw [ControlEndpoint.next]
    split_ifs <;> exact .inr hq
  | unlock r =>
    rw [ControlEndpoint.next, State.release]
    split_ifs <;> exact .inr hq
  | drop | die | place => exact he.elim

omit [DecidableEq π] in
theorem turns_concat (p : ι) (es : List (Event ι π)) (e : Event ι π) :
    turns p (es ++ [e]) = turns p es + e.turn p := by
  simp [turns]

variable {endpoint : Endpoint} {process : ι → π} {es : List (Event ι π)}

theorem Recovering.run (h : Recovering s) (hsound : Sound s) (hes : ∀ e ∈ es, e.Undisturbed) :
    Recovering (run endpoint process s es) := by
  induction es using List.reverseRecOn with
  | nil => exact h
  | append_singleton es e ih =>
    obtain ⟨hes, he⟩ := List.forall_mem_append.mp hes
    rw [run_snoc]
    exact (ih hes).next (hsound.run endpoint process es) endpoint process (he e (by simp))

/-- The attempt with the lock is serving as soon as it has taken the rest of its steps. -/
theorem Recovering.serves (h : Recovering s) (hsound : Sound s) (hp : s.lock = some p)
    (hes : ∀ e ∈ es, e.Undisturbed) (hturns : 6 ≤ turns p es) :
    ∃ identity, (ControlEndpoint.run endpoint process s es).pc p = .serving identity := by
  have hstage : (ControlEndpoint.run endpoint process s es).lock = some p ∧
      min 6 ((s.pc p).stage + turns p es) ≤
        ((ControlEndpoint.run endpoint process s es).pc p).stage := by
    clear hturns
    induction es using List.reverseRecOn with
    | nil => exact ⟨hp, min_le_right ..⟩
    | append_singleton es e ih =>
      obtain ⟨hes, he⟩ := List.forall_mem_append.mp hes
      obtain ⟨hlock, hstage⟩ := ih hes
      obtain ⟨hlock', hstep⟩ := (h.run hsound hes).goes_on (hsound.run endpoint process es) endpoint
        process (he e (by simp)) hlock
      rw [run_snoc, turns_concat]
      exact ⟨hlock', by omega⟩
  obtain ⟨hlock, hstage⟩ := hstage
  exact ((h.run hsound hes).taken p hlock).serving (by omega)

/-- An attempt that has taken the steps up to the lock has it, unless another has. -/
theorem Recovering.locks (h : Recovering s) (hsound : Sound s) (hpath : endpoint.absolute = true)
    (hdir : endpoint.hasParent = true) (hq : s.pc q = .starting)
    (hes : ∀ e ∈ es, e.Undisturbed) (hturns : 5 ≤ turns q es) :
    ∃ w, (ControlEndpoint.run endpoint process s es).lock = some w := by
  have hway : (ControlEndpoint.run endpoint process s es).lock.isSome = true ∨
      approach[turns q es]? = some ((ControlEndpoint.run endpoint process s es).pc q) := by
    clear hturns
    induction es using List.reverseRecOn with
    | nil => exact .inr (congrArg some hq.symm)
    | append_singleton es e ih =>
      obtain ⟨hes, he⟩ := List.forall_mem_append.mp hes
      have hbefore : Recovering (ControlEndpoint.run endpoint process s es) := h.run hsound hes
      rw [run_snoc, turns_concat]
      cases hlock : (ControlEndpoint.run endpoint process s es).lock with
      | some w =>
        obtain ⟨hkept, -⟩ := hbefore.goes_on (hsound.run endpoint process es) endpoint process
          (he e (by simp)) hlock
        exact .inl (by rw [hkept]; rfl)
      | none =>
        rcases ih hes with hsome | hat
        · simp [hlock] at hsome
        · exact hbefore.approaches hpath hdir process (he e (by simp)) hlock hat
  rcases hway with hsome | hat
  · exact Option.isSome_iff_exists.mp hsome
  · rw [List.getElem?_eq_none (by simpa [approach] using hturns)] at hat
    cases hat

omit [DecidableEq ι] in
theorem Abandoned.recovering (h : Abandoned endpoint s) (hsound : Sound s) : Recovering s := by
  obtain ⟨-, -, hfile, hfree, n, hn, p, hmaker, -, hlistens⟩ := h
  obtain ⟨hsocket, howned, hparent⟩ := hsound.made n hn p hmaker
  refine ⟨hparent, hfile, fun _ n' hn' => ?_, fun w hw => ?_⟩
  · obtain rfl : n = n' := Option.some.inj (Eq.trans (Eq.symm hn) hn')
    exact ⟨hsocket, howned, by rw [State.isLive, hmaker]; exact hlistens⟩
  · rw [hfree] at hw
    cases hw

/-! ## The endpoint -/

/-- What servers can rely on in a state that they have reached. -/
structure Guarded (endpoint : Endpoint) (process : ι → π) (s : State ι) : Prop where
  unique : ∀ p q i j, s.pc p = .serving i → s.pc q = .serving j → p = q
  owner : ∀ p i, s.pc p = .serving i →
    s.lock = some p ∧ ∃ n, s.path = some n ∧ n.maker = .server p ∧ n.ino = i ∧ s.listens p = true
  spared : ∀ p i e, s.pc p = .serving i → (ControlEndpoint.next endpoint process s e).path = s.path
  kept : ∀ n e, s.path = some n → (ControlEndpoint.next endpoint process s e).path ≠ some n →
    n.socket = true ∧ n.owned = true
  reclaimed : Abandoned endpoint s → ∀ q, s.pc q = .starting → ∀ es, (∀ e ∈ es, e.Undisturbed) →
    5 ≤ turns q es → ∃ w, (ControlEndpoint.run endpoint process s es).lock = some w ∧
      ∀ fs, (∀ e ∈ fs, e.Undisturbed) → 6 ≤ turns w fs →
        ∃ i, (ControlEndpoint.run endpoint process s (es ++ fs)).pc w = .serving i

omit [DecidableEq ι] in
theorem Sound.owner (h : Sound s) {i : ℕ} (hp : s.pc p = .serving i) :
    s.lock = some p ∧
      ∃ n, s.path = some n ∧ n.maker = .server p ∧ n.ino = i ∧ s.listens p = true := by
  have hhere := h.here p
  rw [hp] at hhere
  obtain ⟨n, hn, ⟨hmaker, hlistens⟩, hino⟩ := hhere
  exact ⟨h.lock p (hp ▸ trivial), n, hn, hmaker, hino, hlistens⟩

/-- The socket of a live listener stays at the path. -/
theorem Sound.spared (h : Sound s) {i : ℕ} (hp : s.pc p = .serving i) (e : Event ι π) :
    (ControlEndpoint.next endpoint process s e).path = s.path := by
  obtain ⟨hlock, n, hn, hmaker, -, hlistens⟩ := h.owner hp
  by_contra hchanged
  rw [hn] at hchanged
  obtain ⟨-, -, hlive | ⟨q, error, hq, hmaker'⟩⟩ := h.removed endpoint process e hn hchanged
  · rw [State.isLive, hmaker] at hlive
    exact Bool.eq_false_iff.mp hlive hlistens
  · obtain rfl : p = q := by
      rw [hmaker] at hmaker'
      exact Maker.server.inj hmaker'
    rw [hp] at hq
    cases hq

theorem Sound.guarded (h : Sound s) : Guarded endpoint process s where
  unique p q i j hp hq := Option.some.inj ((h.owner hp).1.symm.trans (h.owner hq).1)
  owner p i hp := h.owner hp
  spared p i e hp := h.spared hp e
  kept n e hn hremoved :=
    have hnode := h.removed endpoint process e hn hremoved
    ⟨hnode.1, hnode.2.1⟩
  reclaimed habandoned q hq es hes hturns := by
    have hrecovering := habandoned.recovering h
    obtain ⟨w, hw⟩ := hrecovering.locks h habandoned.1 habandoned.2.1 hq hes hturns
    refine ⟨w, hw, fun fs hfs hfturns => ?_⟩
    rw [ControlEndpoint.run, List.foldl_append]
    exact (hrecovering.run h hes).serves (h.run endpoint process es) hw hfs hfturns

/-- Servers can rely on the endpoint whatever was at its path when they started, and in whatever order
they take their steps, drop their listeners and die. -/
theorem endpoint_guarded (endpoint : Endpoint) (process : ι → π) (parent : Option Parent)
    (lockFile : Option Bool) (path : Option (ℕ × Bool × Bool × Bool)) (es : List (Event ι π)) :
    Guarded endpoint process (ControlEndpoint.run endpoint process (start parent lockFile path) es) :=
  ((start_sound parent lockFile path).run endpoint process es).guarded

/-- A server is killed and the next one takes its endpoint over. -/
example : (ControlEndpoint.run ⟨true, true⟩ id (start none none none : State ℕ)
    (List.replicate 11 (.act 0 (.ok 7)) ++ [.die 0, .unlock 0, .close 0] ++
      List.replicate 11 (.act 1 (.ok 8)))).pc 1 = .serving 8 := by decide

end Safety

end PrtsMcp.ControlEndpoint
