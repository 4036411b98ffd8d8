import Mathlib

/-!
# Dataset slots

The parsed datasets of one generation, under any order of the steps of their callers. One lock guards
the collection of the slots and one lock each slot, which is held while the loader of the slot runs.
A loader may load other slots.
-/
namespace PrtsMcp.DatasetSlots

open Function (update update_self update_of_ne)
open Relation (TransGen ReflTransGen)

variable {ι κ τ ν ε : Type}

/-! ## Source -/

/-- A shared value, which knows its type. -/
structure Arc (τ ν : Type) where
  id : ℕ
  kind : τ
  value : ν
  deriving DecidableEq

/-- The code of a caller or a loader, as far as it loads slots. -/
inductive Prog (κ τ ν ε : Type) where
  | ret (result : Except ε ν)
  | call (name : κ) (kind : τ) (load : Prog κ τ ν ε) (next : Except ε (Arc τ ν) → Prog κ τ ν ε)

/-- A call of `get_or_load` for a value of a type, and how the code around it goes on. -/
structure Call (κ τ ν ε : Type) where
  name : κ
  kind : τ
  load : Prog κ τ ν ε
  next : Except ε (Arc τ ν) → Prog κ τ ν ε

/-- Where a caller is: in its own code, with the collection locked, about to lock the slot, or with
the slot locked. -/
inductive Control (κ τ ν ε : Type) where
  | run (prog : Prog κ τ ν ε)
  | collecting (call : Call κ τ ν ε)
  | waiting (call : Call κ τ ν ε)
  | checking (call : Call κ τ ν ε)

/-- A caller and the calls whose loaders it is in, the innermost first. -/
structure Caller (κ τ ν ε : Type) where
  control : Control κ τ ν ε
  opens : List (Call κ τ ν ε)

structure Slot (ι τ ν : Type) where
  owner : Option ι
  cached : Option (Arc τ ν)

/-- The next `Arc` that is allocated has the number `arcs`. -/
structure State (ι κ τ ν ε : Type) where
  collection : Option ι
  slots : κ → Option (Slot ι τ ν)
  callers : ι → Caller κ τ ν ε
  arcs : ℕ

inductive Event (ι κ τ ν ε : Type) where
  | missed (caller : ι) (name : κ)
  | loaded (caller : ι) (name : κ) (arc : Arc τ ν)
  | failed (caller : ι) (name : κ) (error : ε)
  | returned (caller : ι) (name : κ) (result : Except ε (Arc τ ν))

/-- `downcast` of what is cached. -/
def Slot.hit [DecidableEq τ] (slot : Slot ι τ ν) (kind : τ) : Option (Arc τ ν) :=
  slot.cached.filter fun arc => arc.kind = kind

namespace State

def start (programs : ι → Prog κ τ ν ε) : State ι κ τ ν ε where
  collection := none
  slots := fun _ => none
  callers := fun i => ⟨.run (programs i), []⟩
  arcs := 0

/-- The slot of a name, `or_default`. -/
def slot (s : State ι κ τ ν ε) (name : κ) : Slot ι τ ν := (s.slots name).getD ⟨none, none⟩

variable [DecidableEq ι] [DecidableEq κ]

def setSlot (s : State ι κ τ ν ε) (name : κ) (slot : Slot ι τ ν) : State ι κ τ ν ε :=
  { s with slots := update s.slots name (some slot) }

def go (s : State ι κ τ ν ε) (i : ι) (control : Control κ τ ν ε) (opens : List (Call κ τ ν ε)) :
    State ι κ τ ν ε :=
  { s with callers := update s.callers i ⟨control, opens⟩ }

/-- The slot is unlocked and the call returns. -/
def finish (s : State ι κ τ ν ε) (i : ι) (call : Call κ τ ν ε) (cached : Option (Arc τ ν))
    (result : Except ε (Arc τ ν)) (opens : List (Call κ τ ν ε)) : State ι κ τ ν ε :=
  (s.setSlot call.name ⟨none, cached⟩).go i (.run (call.next result)) opens

end State

section Steps

variable [DecidableEq ι] [DecidableEq κ] [DecidableEq τ]

/-- The next step of a caller, unless it waits for a lock or has finished. A loader runs in the caller
that has missed, with the slot locked. -/
def step (s : State ι κ τ ν ε) (i : ι) : Option (List (Event ι κ τ ν ε) × State ι κ τ ν ε) :=
  let opens := (s.callers i).opens
  match (s.callers i).control with
  | .run (.call name kind load next) =>
    if s.collection.isNone then
      some ([], { s.go i (.collecting ⟨name, kind, load, next⟩) opens with collection := some i })
    else none
  | .collecting call =>
    some ([], { (s.setSlot call.name (s.slot call.name)).go i (.waiting call) opens with
      collection := none })
  | .waiting call =>
    if (s.slot call.name).owner.isNone then
      some ([], (s.setSlot call.name ⟨some i, (s.slot call.name).cached⟩).go i (.checking call) opens)
    else none
  | .checking call =>
    match (s.slot call.name).hit call.kind with
    | some arc =>
      some ([.returned i call.name (.ok arc)],
        s.finish i call (s.slot call.name).cached (.ok arc) opens)
    | none => some ([.missed i call.name], s.go i (.run call.load) (call :: opens))
  | .run (.ret result) =>
    match opens, result with
    | [], _ => none
    | call :: opens, .error e =>
      some ([.failed i call.name e, .returned i call.name (.error e)],
        s.finish i call (s.slot call.name).cached (.error e) opens)
    | call :: opens, .ok value =>
      let arc : Arc τ ν := ⟨s.arcs, call.kind, value⟩
      some ([.loaded i call.name arc, .returned i call.name (.ok arc)],
        { s.finish i call (some arc) (.ok arc) opens with arcs := s.arcs + 1 })

/-- The events and the end of the steps that a schedule lets the callers take. -/
def exec (s : State ι κ τ ν ε) (schedule : List ι) :
    Option (List (Event ι κ τ ν ε) × State ι κ τ ν ε) :=
  schedule.foldlM (fun x i => (step x.2 i).map fun y => (x.1 ++ y.1, y.2)) ([], s)

/-- A caller waits for another that has the lock it needs. -/
def Waits (s : State ι κ τ ν ε) (i j : ι) : Prop :=
  match (s.callers i).control with
  | .run (.call _ _ _ _) => s.collection = some j
  | .waiting call => (s.slot call.name).owner = some j
  | _ => False

def Finished (s : State ι κ τ ν ε) (i : ι) : Prop :=
  ∃ result, s.callers i = ⟨.run (.ret result), []⟩

/-! ## Events -/

/-- The values that were loaded for a slot. -/
def loads (name : κ) (events : List (Event ι κ τ ν ε)) : List (Arc τ ν) :=
  events.filterMap fun
    | .loaded _ n arc => if n = name then some arc else none
    | _ => none

def failures (events : List (Event ι κ τ ν ε)) : List (ι × κ × ε) :=
  events.filterMap fun
    | .failed i name e => some (i, name, e)
    | _ => none

/-- The errors that were returned. -/
def reports (events : List (Event ι κ τ ν ε)) : List (ι × κ × ε) :=
  events.filterMap fun
    | .returned i name (.error e) => some (i, name, e)
    | _ => none

end Steps

/-! ## Programs without cycles -/

/-- The program loads only slots that are allowed, each for the one type of its name, and every loader
in it loads only slots that its own slot depends on. -/
def Prog.Fine (R : κ → κ → Prop) (kindOf : κ → τ) (allowed : κ → Prop) : Prog κ τ ν ε → Prop
  | .ret _ => True
  | .call name kind load next =>
    allowed name ∧ kind = kindOf name ∧ load.Fine R kindOf (R name) ∧
      ∀ result, (next result).Fine R kindOf allowed

def Call.Fine (R : κ → κ → Prop) (kindOf : κ → τ) (allowed : κ → Prop) (call : Call κ τ ν ε) : Prop :=
  allowed call.name ∧ call.kind = kindOf call.name ∧ call.load.Fine R kindOf (R call.name) ∧
    ∀ result, (call.next result).Fine R kindOf allowed

def Control.Fine (R : κ → κ → Prop) (kindOf : κ → τ) (allowed : κ → Prop) : Control κ τ ν ε → Prop
  | .run prog => prog.Fine R kindOf allowed
  | .collecting call | .waiting call | .checking call => call.Fine R kindOf allowed

/-- The slots that may be loaded inside the open calls. -/
def below (R : κ → κ → Prop) : List (Call κ τ ν ε) → κ → Prop
  | [] => fun _ => True
  | call :: _ => R call.name

def OpensFine (R : κ → κ → Prop) (kindOf : κ → τ) : List (Call κ τ ν ε) → Prop
  | [] => True
  | call :: opens => call.Fine R kindOf (below R opens) ∧ OpensFine R kindOf opens

structure Caller.Fine (R : κ → κ → Prop) (kindOf : κ → τ) (caller : Caller κ τ ν ε) : Prop where
  control : caller.control.Fine R kindOf (below R caller.opens)
  opens : OpensFine R kindOf caller.opens

/-- The slots that a caller has locked, the last first. -/
def Caller.held (caller : Caller κ τ ν ε) : List κ :=
  match caller.control with
  | .checking call => call.name :: caller.opens.map Call.name
  | _ => caller.opens.map Call.name

section Fine

variable {R : κ → κ → Prop} {kindOf : κ → τ}

/-- What may be loaded inside open calls depends on none of them in a cycle. -/
theorem transGen_of_below {opens : List (Call κ τ ν ε)} (h : OpensFine R kindOf opens) {name : κ}
    (hname : below R opens name) {call : Call κ τ ν ε} (hcall : call ∈ opens) :
    TransGen R call.name name := by
  induction opens generalizing name with
  | nil => exact absurd hcall List.not_mem_nil
  | cons top opens ih =>
    rcases List.mem_cons.mp hcall with rfl | hcall
    · exact .single hname
    · exact (ih h.2 h.1.1 hcall).tail hname

theorem notMem_of_below (hacyclic : ∀ name, ¬ TransGen R name name) {opens : List (Call κ τ ν ε)}
    (h : OpensFine R kindOf opens) {name : κ} (hname : below R opens name) :
    name ∉ opens.map Call.name := by
  intro hmem
  obtain ⟨call, hcall, rfl⟩ := List.mem_map.mp hmem
  exact hacyclic _ (transGen_of_below h hname hcall)

theorem Caller.Fine.updated [DecidableEq ι] {callers : ι → Caller κ τ ν ε} {i : ι}
    {caller : Caller κ τ ν ε} (h : caller.Fine R kindOf) : (update callers i caller i).Fine R kindOf := by
  rwa [update_self]

theorem held_of_control (caller : Caller κ τ ν ε) (h : ∀ call, caller.control ≠ .checking call) :
    caller.held = caller.opens.map Call.name := by
  rw [Caller.held]
  split
  · next call hcall => exact absurd hcall (h call)
  · rfl

theorem held_of_checking {caller : Caller κ τ ν ε} {call : Call κ τ ν ε}
    (h : caller.control = .checking call) : caller.held = call.name :: caller.opens.map Call.name := by
  rw [Caller.held, h]

theorem mem_held_of_open {caller : Caller κ τ ν ε} {call : Call κ τ ν ε} (h : call ∈ caller.opens) :
    call.name ∈ caller.held := by
  rw [Caller.held]
  split
  · exact List.mem_cons_of_mem _ (List.mem_map_of_mem h)
  · exact List.mem_map_of_mem h

end Fine

/-! ## Parts of a state -/

namespace State

variable {s : State ι κ τ ν ε} {i j : ι} {name other : κ} {slot : Slot ι τ ν}
  {control : Control κ τ ν ε} {opens : List (Call κ τ ν ε)}

theorem callers_go [DecidableEq ι] : (s.go i control opens).callers i = ⟨control, opens⟩ :=
  update_self ..

theorem callers_go_of_ne [DecidableEq ι] (h : j ≠ i) :
    (s.go i control opens).callers j = s.callers j :=
  update_of_ne h ..

variable [DecidableEq κ]

theorem slot_setSlot : (s.setSlot name slot).slot name = slot := by
  simp [State.slot, setSlot]

theorem slot_setSlot_of_ne (h : other ≠ name) : (s.setSlot name slot).slot other = s.slot other := by
  simp [State.slot, setSlot, h]

theorem slot_setSlot_self : (s.setSlot name (s.slot name)).slot other = s.slot other := by
  by_cases h : other = name
  · rw [h, slot_setSlot]
  · exact slot_setSlot_of_ne h

theorem cached_setSlot (h : slot.cached = (s.slot name).cached) :
    ((s.setSlot name slot).slot other).cached = (s.slot other).cached := by
  by_cases hother : other = name
  · rw [hother, slot_setSlot, h]
  · rw [slot_setSlot_of_ne hother]

end State

variable [DecidableEq ι] [DecidableEq κ] [DecidableEq τ]

/-! ## Steps -/

/-- What one step of a caller can be. -/
inductive Act (s : State ι κ τ ν ε) (i : ι) : List (Event ι κ τ ν ε) → State ι κ τ ν ε → Prop where
  | enter (name kind load next) :
    (s.callers i).control = .run (.call name kind load next) → s.collection = none →
    Act s i [] { s.go i (.collecting ⟨name, kind, load, next⟩) (s.callers i).opens with
      collection := some i }
  | collect (call) :
    (s.callers i).control = .collecting call →
    Act s i [] { (s.setSlot call.name (s.slot call.name)).go i (.waiting call) (s.callers i).opens with
      collection := none }
  | lock (call) :
    (s.callers i).control = .waiting call → (s.slot call.name).owner = none →
    Act s i [] ((s.setSlot call.name ⟨some i, (s.slot call.name).cached⟩).go i (.checking call)
      (s.callers i).opens)
  | hit (call arc) :
    (s.callers i).control = .checking call → (s.slot call.name).hit call.kind = some arc →
    Act s i [.returned i call.name (.ok arc)]
      (s.finish i call (s.slot call.name).cached (.ok arc) (s.callers i).opens)
  | miss (call) :
    (s.callers i).control = .checking call → (s.slot call.name).hit call.kind = none →
    Act s i [.missed i call.name] (s.go i (.run call.load) (call :: (s.callers i).opens))
  | fail (call opens e) :
    (s.callers i).control = .run (.ret (.error e)) → (s.callers i).opens = call :: opens →
    Act s i [.failed i call.name e, .returned i call.name (.error e)]
      (s.finish i call (s.slot call.name).cached (.error e) opens)
  | load (call opens value) :
    (s.callers i).control = .run (.ret (.ok value)) → (s.callers i).opens = call :: opens →
    Act s i [.loaded i call.name ⟨s.arcs, call.kind, value⟩,
        .returned i call.name (.ok ⟨s.arcs, call.kind, value⟩)]
      { s.finish i call (some ⟨s.arcs, call.kind, value⟩) (.ok ⟨s.arcs, call.kind, value⟩) opens with
        arcs := s.arcs + 1 }

theorem step_act {s s' : State ι κ τ ν ε} {i : ι} {events : List (Event ι κ τ ν ε)}
    (h : step s i = some (events, s')) : Act s i events s' := by
  rw [step] at h
  cases hcontrol : (s.callers i).control with
  | run prog =>
    cases prog with
    | call name kind load next =>
      simp only [hcontrol, Option.ite_none_right_eq_some, Option.isNone_iff_eq_none] at h
      obtain ⟨hfree, h⟩ := h
      cases h
      exact .enter name kind load next hcontrol hfree
    | ret result =>
      cases hopens : (s.callers i).opens with
      | nil => simp [hcontrol, hopens] at h
      | cons call opens =>
        cases result with
        | error e =>
          simp only [hcontrol, hopens] at h
          cases h
          exact .fail call opens e hcontrol hopens
        | ok value =>
          simp only [hcontrol, hopens] at h
          cases h
          exact .load call opens value hcontrol hopens
  | collecting call =>
    simp only [hcontrol] at h
    cases h
    exact .collect call hcontrol
  | waiting call =>
    simp only [hcontrol, Option.ite_none_right_eq_some, Option.isNone_iff_eq_none] at h
    obtain ⟨hfree, h⟩ := h
    cases h
    exact .lock call hcontrol hfree
  | checking call =>
    cases hhit : (s.slot call.name).hit call.kind with
    | some arc =>
      simp only [hcontrol, hhit] at h
      cases h
      exact .hit call arc hcontrol hhit
    | none =>
      simp only [hcontrol, hhit] at h
      cases h
      exact .miss call hcontrol hhit

variable {R : κ → κ → Prop} {kindOf : κ → τ}

theorem Caller.Fine.act {s s' : State ι κ τ ν ε} {i : ι} {events : List (Event ι κ τ ν ε)}
    (hact : Act s i events s') (h : ∀ j, (s.callers j).Fine R kindOf) (j : ι) :
    (s'.callers j).Fine R kindOf := by
  have hi := h i
  by_cases hj : j = i
  · subst hj
    obtain ⟨hcontrol, hopens⟩ := hi
    cases hact with
    | enter name kind load next hat hfree =>
      rw [hat] at hcontrol
      exact Caller.Fine.updated ⟨hcontrol, hopens⟩
    | collect call hat =>
      rw [hat] at hcontrol
      exact Caller.Fine.updated ⟨hcontrol, hopens⟩
    | lock call hat hfree =>
      rw [hat] at hcontrol
      exact Caller.Fine.updated ⟨hcontrol, hopens⟩
    | hit call arc hat hhit =>
      rw [hat] at hcontrol
      exact Caller.Fine.updated ⟨hcontrol.2.2.2 _, hopens⟩
    | miss call hat hhit =>
      rw [hat] at hcontrol
      exact Caller.Fine.updated ⟨hcontrol.2.2.1, hcontrol, hopens⟩
    | fail call opens e hat hat' =>
      rw [hat'] at hopens
      exact Caller.Fine.updated ⟨hopens.1.2.2.2 _, hopens.2⟩
    | load call opens value hat hat' =>
      rw [hat'] at hopens
      exact Caller.Fine.updated ⟨hopens.1.2.2.2 _, hopens.2⟩
  · have hsame : s'.callers j = s.callers j := by
      cases hact <;> exact State.callers_go_of_ne hj
    rw [hsame]
    exact h j

/-! ## Locks -/

section Act

variable {s s' : State ι κ τ ν ε} {i : ι} {events : List (Event ι κ τ ν ε)}

/-- The lock of the collection has the caller that looks the slot up. -/
def CollectionLock (s : State ι κ τ ν ε) : Prop :=
  ∀ i, s.collection = some i ↔ ∃ call, (s.callers i).control = .collecting call

theorem CollectionLock.act (hact : Act s i events s') (h : CollectionLock s) : CollectionLock s' := by
  intro j
  by_cases hj : j = i
  · subst hj
    have hj := h j
    cases hact <;> simp_all [State.go, State.finish, State.setSlot]
  · have hj' := h j
    have hi := h i
    cases hact <;> simp_all [State.go, State.finish, State.setSlot, Ne.symm hj]

/-- The lock of a slot has the caller that looks at the slot or runs its loader. -/
def SlotLocks (s : State ι κ τ ν ε) : Prop :=
  ∀ i name, (s.slot name).owner = some i ↔ name ∈ (s.callers i).held

omit [DecidableEq κ] [DecidableEq τ] in
theorem SlotLocks.kept {held : List κ} (h : SlotLocks s) (hslot : ∀ name, s'.slot name = s.slot name)
    (hothers : ∀ j ≠ i, s'.callers j = s.callers j) (hbefore : (s.callers i).held = held)
    (hafter : (s'.callers i).held = held) : SlotLocks s' := by
  intro j name
  rw [hslot, h j name]
  by_cases hj : j = i
  · rw [hj, hbefore, hafter]
  · rw [hothers j hj]

omit [DecidableEq τ] in
theorem SlotLocks.taken {name : κ} {held : List κ} (h : SlotLocks s)
    (hfree : (s.slot name).owner = none) (howner : (s'.slot name).owner = some i)
    (hslot : ∀ other ≠ name, s'.slot other = s.slot other)
    (hothers : ∀ j ≠ i, s'.callers j = s.callers j) (hbefore : (s.callers i).held = held)
    (hafter : (s'.callers i).held = name :: held) : SlotLocks s' := by
  intro j other
  by_cases hother : other = name
  · subst hother
    by_cases hj : j = i
    · rw [hj, howner, hafter]
      simp
    · have hnot := h j other
      rw [hfree] at hnot
      rw [howner, hothers j hj, ← hnot]
      simp [Ne.symm hj]
  · rw [hslot other hother, h j other]
    by_cases hj : j = i
    · rw [hj, hbefore, hafter, List.mem_cons, or_iff_right hother]
    · rw [hothers j hj]

omit [DecidableEq τ] in
theorem SlotLocks.released {name : κ} {held : List κ} (h : SlotLocks s)
    (howner : (s'.slot name).owner = none) (hslot : ∀ other ≠ name, s'.slot other = s.slot other)
    (hothers : ∀ j ≠ i, s'.callers j = s.callers j) (hbefore : (s.callers i).held = name :: held)
    (hafter : (s'.callers i).held = held) (hnot : name ∉ held) : SlotLocks s' := by
  have hi : (s.slot name).owner = some i := (h i name).mpr (by rw [hbefore]; exact List.mem_cons_self)
  intro j other
  by_cases hother : other = name
  · subst hother
    rw [howner]
    by_cases hj : j = i
    · rw [hj, hafter]
      simpa using hnot
    · rw [hothers j hj, ← h j other, hi]
      simp [Ne.symm hj]
  · rw [hslot other hother, h j other]
    by_cases hj : j = i
    · rw [hj, hbefore, hafter, List.mem_cons, or_iff_right hother]
    · rw [hothers j hj]

theorem Act.others (hact : Act s i events s') {j : ι} (hj : j ≠ i) : s'.callers j = s.callers j := by
  cases hact <;> exact State.callers_go_of_ne hj

theorem SlotLocks.act (hacyclic : ∀ name, ¬ TransGen R name name) (hact : Act s i events s')
    (hfine : (s.callers i).Fine R kindOf) (h : SlotLocks s) : SlotLocks s' := by
  have hothers : ∀ j ≠ i, s'.callers j = s.callers j := fun j => hact.others
  have hheld := held_of_control (s.callers i)
  obtain ⟨hcontrol, hopens⟩ := hfine
  cases hact with
  | enter name kind load next hat hfree =>
    exact h.kept (fun _ => rfl) hothers (hheld (by simp [hat])) (congrArg Caller.held State.callers_go)
  | collect call hat =>
    exact h.kept (fun _ => State.slot_setSlot_self) hothers (hheld (by simp [hat]))
      (congrArg Caller.held State.callers_go)
  | lock call hat hfree =>
    exact h.taken hfree (congrArg Slot.owner State.slot_setSlot)
      (fun other => State.slot_setSlot_of_ne) hothers (hheld (by simp [hat]))
      (congrArg Caller.held State.callers_go)
  | hit call arc hat hhit =>
    rw [hat] at hcontrol
    exact h.released (congrArg Slot.owner State.slot_setSlot)
      (fun other => State.slot_setSlot_of_ne) hothers (held_of_checking hat)
      (congrArg Caller.held State.callers_go) (notMem_of_below hacyclic hopens hcontrol.1)
  | miss call hat hhit =>
    exact h.kept (fun _ => rfl) hothers (held_of_checking hat) (congrArg Caller.held State.callers_go)
  | fail call opens e hat hat' =>
    rw [hat'] at hopens hheld
    exact h.released (congrArg Slot.owner State.slot_setSlot)
      (fun other => State.slot_setSlot_of_ne) hothers (hheld (by simp [hat]))
      (congrArg Caller.held State.callers_go) (notMem_of_below hacyclic hopens.2 hopens.1.1)
  | load call opens value hat hat' =>
    rw [hat'] at hopens hheld
    exact h.released (congrArg Slot.owner State.slot_setSlot)
      (fun other => State.slot_setSlot_of_ne) hothers (hheld (by simp [hat]))
      (congrArg Caller.held State.callers_go) (notMem_of_below hacyclic hopens.2 hopens.1.1)

/-! ## Contents -/

/-- What is cached is what was loaded and what was returned, of the type of its name; a slot whose
loader runs is empty. -/
structure Contents (kindOf : κ → τ) (es : List (Event ι κ τ ν ε)) (s : State ι κ τ ν ε) : Prop where
  empty : ∀ i, ∀ call ∈ (s.callers i).opens, (s.slot call.name).cached = none
  kind : ∀ name arc, (s.slot name).cached = some arc → arc.kind = kindOf name
  loads : ∀ name, loads name es = (s.slot name).cached.toList
  returned : ∀ i name arc, .returned i name (.ok arc) ∈ es → (s.slot name).cached = some arc

variable {es : List (Event ι κ τ ν ε)}

omit [DecidableEq ι] [DecidableEq τ] in
theorem loads_append (name : κ) (es fs : List (Event ι κ τ ν ε)) :
    loads name (es ++ fs) = loads name es ++ loads name fs := List.filterMap_append ..

omit [DecidableEq τ] in
theorem Contents.kept {opens : List (Call κ τ ν ε)} (h : Contents kindOf es s)
    (hcached : ∀ name, (s'.slot name).cached = (s.slot name).cached)
    (hothers : ∀ j ≠ i, s'.callers j = s.callers j) (hafter : (s'.callers i).opens = opens)
    (hopens : ∀ call ∈ opens, (s.slot call.name).cached = none)
    (hloads : ∀ name, DatasetSlots.loads name events = [])
    (hreturned : ∀ j name arc, .returned j name (.ok arc) ∈ events → (s.slot name).cached = some arc) :
    Contents kindOf (es ++ events) s' where
  empty j call hcall := by
    rw [hcached]
    by_cases hj : j = i
    · rw [hj, hafter] at hcall
      exact hopens call hcall
    · rw [hothers j hj] at hcall
      exact h.empty j call hcall
  kind name arc harc := h.kind name arc (by rwa [← hcached])
  loads name := by rw [loads_append, hloads, List.append_nil, hcached, h.loads]
  returned j name arc hmem := by
    rw [hcached]
    rcases List.mem_append.mp hmem with hmem | hmem
    · exact h.returned j name arc hmem
    · exact hreturned j name arc hmem

omit [DecidableEq ι] in
/-- Where a value of the right type cannot be found there is none. -/
theorem Contents.cached_of_miss (h : Contents kindOf es s) {name : κ}
    (hmiss : (s.slot name).hit (kindOf name) = none) : (s.slot name).cached = none := by
  cases hcached : (s.slot name).cached with
  | none => rfl
  | some arc => simp [Slot.hit, hcached, h.kind name arc hcached] at hmiss

omit [DecidableEq τ] in
/-- A value is put into an empty slot whose loader runs nowhere else. -/
theorem Contents.filled {name : κ} {arc : Arc τ ν} {opens : List (Call κ τ ν ε)}
    (h : Contents kindOf es s) (hempty : (s.slot name).cached = none)
    (hname : (s'.slot name).cached = some arc)
    (hslot : ∀ other ≠ name, (s'.slot other).cached = (s.slot other).cached)
    (hkind : arc.kind = kindOf name) (hothers : ∀ j ≠ i, s'.callers j = s.callers j)
    (hafter : (s'.callers i).opens = opens)
    (hopens : ∀ call ∈ opens, call.name ≠ name ∧ (s.slot call.name).cached = none)
    (hapart : ∀ j ≠ i, ∀ call ∈ (s.callers j).opens, call.name ≠ name) :
    Contents kindOf (es ++ [.loaded i name arc, .returned i name (.ok arc)]) s' where
  empty j call hcall := by
    by_cases hj : j = i
    · rw [hj, hafter] at hcall
      obtain ⟨hne, hcached⟩ := hopens call hcall
      rw [hslot _ hne, hcached]
    · rw [hothers j hj] at hcall
      rw [hslot _ (hapart j hj call hcall)]
      exact h.empty j call hcall
  kind other arc' harc := by
    by_cases hother : other = name
    · subst hother
      rw [hname] at harc
      rw [← Option.some.inj harc, hkind]
    · rw [hslot other hother] at harc
      exact h.kind other arc' harc
  loads other := by
    rw [loads_append, h.loads]
    by_cases hother : other = name
    · subst hother
      rw [hempty, hname]
      simp [DatasetSlots.loads]
    · rw [hslot other hother]
      simp [DatasetSlots.loads, Ne.symm hother]
  returned j other arc' hmem := by
    rcases List.mem_append.mp hmem with hmem | hmem
    · have hcached := h.returned j other arc' hmem
      have hne : other ≠ name := by
        rintro rfl
        rw [hempty] at hcached
        cases hcached
      rw [hslot other hne, hcached]
    · obtain ⟨rfl, rfl, ⟨⟩⟩ : j = i ∧ other = name ∧ (.ok arc' : Except ε (Arc τ ν)) = .ok arc := by
        simpa using hmem
      exact hname

theorem Contents.act (hacyclic : ∀ name, ¬ TransGen R name name) (hact : Act s i events s')
    (hfine : (s.callers i).Fine R kindOf) (hlocks : SlotLocks s) (h : Contents kindOf es s) :
    Contents kindOf (es ++ events) s' := by
  have hothers : ∀ j ≠ i, s'.callers j = s.callers j := fun j => hact.others
  obtain ⟨hcontrol, hopens⟩ := hfine
  cases hact with
  | enter name kind load next hat hfree =>
    exact h.kept (fun _ => rfl) hothers (congrArg Caller.opens State.callers_go) (h.empty i)
      (fun _ => rfl) (by simp)
  | collect call hat =>
    exact h.kept (fun _ => State.cached_setSlot rfl) hothers (congrArg Caller.opens State.callers_go)
      (h.empty i) (fun _ => rfl) (by simp)
  | lock call hat hfree =>
    exact h.kept (fun _ => State.cached_setSlot rfl) hothers (congrArg Caller.opens State.callers_go)
      (h.empty i) (fun _ => rfl) (by simp)
  | hit call arc hat hhit =>
    refine h.kept (fun _ => State.cached_setSlot rfl) hothers (congrArg Caller.opens State.callers_go)
      (h.empty i) (fun _ => rfl) ?_
    intro j name arc' hmem
    obtain ⟨rfl, rfl, ⟨⟩⟩ : j = i ∧ name = call.name ∧ (.ok arc' : Except ε (Arc τ ν)) = .ok arc := by
      simpa using hmem
    exact (Option.filter_eq_some_iff.mp hhit).1
  | miss call hat hhit =>
    rw [hat] at hcontrol
    have hempty : (s.slot call.name).cached = none := h.cached_of_miss (hcontrol.2.1 ▸ hhit)
    exact h.kept (fun _ => rfl) hothers (congrArg Caller.opens State.callers_go)
      (List.forall_mem_cons.mpr ⟨hempty, h.empty i⟩) (fun _ => rfl) (by simp)
  | fail call opens e hat hat' =>
    have hempty := h.empty i
    rw [hat'] at hempty
    exact h.kept (fun _ => State.cached_setSlot rfl) hothers (congrArg Caller.opens State.callers_go)
      (List.forall_mem_cons.mp hempty).2 (fun _ => rfl) (by simp)
  | load call opens value hat hat' =>
    have hcall : call ∈ (s.callers i).opens := hat' ▸ List.mem_cons_self
    have hempty := h.empty i
    rw [hat'] at hopens hempty
    obtain ⟨hcallEmpty, hempty⟩ := List.forall_mem_cons.mp hempty
    refine h.filled hcallEmpty (congrArg Slot.cached State.slot_setSlot)
      (fun other hother => congrArg Slot.cached (State.slot_setSlot_of_ne hother)) hopens.1.2.1 hothers
      (congrArg Caller.opens State.callers_go) ?_ ?_
    · intro other hother
      refine ⟨fun heq => ?_, hempty other hother⟩
      exact notMem_of_below hacyclic hopens.2 hopens.1.1 (heq ▸ List.mem_map_of_mem hother)
    · intro j hj other hother heq
      have hheld := (hlocks j other.name).mpr (mem_held_of_open hother)
      rw [heq, (hlocks i call.name).mpr (mem_held_of_open hcall)] at hheld
      exact hj (Option.some.inj hheld).symm

/-! ## Runs -/

/-- A step touches one slot at most. -/
theorem Act.touches (hact : Act s i events s') : ∃ name, ∀ other ≠ name, s'.slot other = s.slot other := by
  cases hact with
  | enter name kind load next hat hfree => exact ⟨name, fun _ _ => rfl⟩
  | miss call hat hhit => exact ⟨call.name, fun _ _ => rfl⟩
  | collect call hat => exact ⟨call.name, fun _ => State.slot_setSlot_of_ne⟩
  | lock call hat hfree => exact ⟨call.name, fun _ => State.slot_setSlot_of_ne⟩
  | hit call arc hat hhit => exact ⟨call.name, fun _ => State.slot_setSlot_of_ne⟩
  | fail call opens e hat hat' => exact ⟨call.name, fun _ => State.slot_setSlot_of_ne⟩
  | load call opens value hat hat' => exact ⟨call.name, fun _ => State.slot_setSlot_of_ne⟩

/-- The loader that fails is the one of the call that the error is returned to. -/
theorem Act.failures_eq_reports (hact : Act s i events s') : failures events = reports events := by
  cases hact <;> rfl

/-- What holds in every state that is reached by callers without cycles. -/
structure Sound (R : κ → κ → Prop) (kindOf : κ → τ) (es : List (Event ι κ τ ν ε))
    (s : State ι κ τ ν ε) : Prop where
  fine : ∀ i, (s.callers i).Fine R kindOf
  collectionLock : CollectionLock s
  slotLocks : SlotLocks s
  contents : Contents kindOf es s
  failures : failures es = reports es
  finite : {name | (s.slot name).owner ≠ none}.Finite

theorem Sound.act (hacyclic : ∀ name, ¬ TransGen R name name) (hact : Act s i events s')
    (h : Sound R kindOf es s) : Sound R kindOf (es ++ events) s' where
  fine := Caller.Fine.act hact h.fine
  collectionLock := h.collectionLock.act hact
  slotLocks := h.slotLocks.act hacyclic hact (h.fine i)
  contents := h.contents.act hacyclic hact (h.fine i) h.slotLocks
  failures := by
    have hevents := hact.failures_eq_reports
    rw [DatasetSlots.failures, reports] at hevents ⊢
    rw [List.filterMap_append, List.filterMap_append, hevents]
    exact congrArg (· ++ _) h.failures
  finite := by
    obtain ⟨name, hname⟩ := hact.touches
    refine (h.finite.insert name).subset fun other hother => ?_
    by_cases heq : other = name
    · exact .inl heq
    · exact .inr (by rwa [Set.mem_ofPred_eq, ← hname other heq])

omit [DecidableEq ι] [DecidableEq τ] in
theorem sound_start {programs : ι → Prog κ τ ν ε}
    (hfine : ∀ i, (programs i).Fine R kindOf fun _ => True) :
    Sound R kindOf [] (State.start programs) where
  fine i := ⟨hfine i, trivial⟩
  collectionLock i := by simp [State.start]
  slotLocks i name := by simp [State.start, State.slot, Caller.held]
  contents :=
    { empty := fun i call hcall => rfl
      kind := fun name arc harc => by cases harc
      loads := fun name => rfl
      returned := fun i name arc hmem => absurd hmem List.not_mem_nil }
  failures := rfl
  finite := by simp [State.start, State.slot]

theorem exec_concat (s : State ι κ τ ν ε) (schedule : List ι) (i : ι) :
    exec s (schedule ++ [i]) =
      (exec s schedule).bind fun x => (step x.2 i).map fun y => (x.1 ++ y.1, y.2) := by
  rw [exec, List.foldlM_append]
  simp only [List.foldlM_cons, List.foldlM_nil, bind_pure]
  rfl

theorem exec_sound (hacyclic : ∀ name, ¬ TransGen R name name) {programs : ι → Prog κ τ ν ε}
    (hfine : ∀ i, (programs i).Fine R kindOf fun _ => True) {schedule : List ι}
    (h : exec (State.start programs) schedule = some (es, s)) : Sound R kindOf es s := by
  induction schedule using List.reverseRecOn generalizing es s with
  | nil =>
    cases h
    exact sound_start hfine
  | append_singleton schedule i ih =>
    rw [exec_concat] at h
    obtain ⟨⟨before, x⟩, hbefore, h⟩ := Option.bind_eq_some_iff.mp h
    obtain ⟨⟨events, y⟩, hstep, h⟩ := Option.map_eq_some_iff.mp h
    cases h
    exact (ih hbefore).act hacyclic (step_act hstep)

/-! ## Progress -/

/-- A caller has finished, can take a step, or waits for the owner of a lock. -/
theorem moves_or_waits (s : State ι κ τ ν ε) (i : ι) :
    Finished s i ∨ (step s i).isSome ∨ (∃ j, s.collection = some j ∧ Waits s i j) ∨
      ∃ call j, (s.callers i).control = .waiting call ∧ (s.slot call.name).owner = some j ∧
        Waits s i j := by
  cases hcontrol : (s.callers i).control with
  | run prog =>
    cases prog with
    | call name kind load next =>
      cases hcollection : s.collection with
      | none => exact .inr (.inl (by simp [step, hcontrol, hcollection]))
      | some j => exact .inr (.inr (.inl ⟨j, rfl, by rw [Waits, hcontrol]; exact hcollection⟩))
    | ret result =>
      cases hopens : (s.callers i).opens with
      | nil => exact .inl ⟨result, by rw [← hcontrol, ← hopens]⟩
      | cons call opens => cases result <;> exact .inr (.inl (by simp [step, hcontrol, hopens]))
  | collecting call => exact .inr (.inl (by simp [step, hcontrol]))
  | waiting call =>
    cases howner : (s.slot call.name).owner with
    | none => exact .inr (.inl (by simp [step, hcontrol, howner]))
    | some j => exact .inr (.inr (.inr ⟨call, j, rfl, howner, by rw [Waits, hcontrol]; exact howner⟩))
  | checking call =>
    cases hhit : (s.slot call.name).hit call.kind <;>
      exact .inr (.inl (by simp [step, hcontrol, hhit]))

theorem CollectionLock.moves (h : CollectionLock s) (hi : s.collection = some i) : (step s i).isSome := by
  obtain ⟨call, hcall⟩ := (h i).mp hi
  simp [step, hcall]

/-- Behind the owner of a slot there is a caller that can take a step. -/
theorem Sound.owner_progress (hacyclic : ∀ name, ¬ TransGen R name name) (h : Sound R kindOf es s)
    {name : κ} (howner : (s.slot name).owner = some i) :
    ∃ j, ReflTransGen (Waits s) i j ∧ (step s j).isSome := by
  -- a chain of owners goes down along the dependencies of the slots, of which finitely many are locked
  have hfinite : Finite {name | (s.slot name).owner ≠ none} := h.finite
  let deeper : {name | (s.slot name).owner ≠ none} → {name | (s.slot name).owner ≠ none} → Prop :=
    fun a b => TransGen R b.1 a.1
  have htrans : IsTrans _ deeper := ⟨fun _ _ _ hab hbc => hbc.trans hab⟩
  have hirrefl : Std.Irrefl deeper := ⟨fun a => hacyclic a.1⟩
  have hwf : WellFounded deeper := Finite.wellFounded_of_trans_of_irrefl deeper
  have hall : ∀ owned : {name | (s.slot name).owner ≠ none}, ∀ i, (s.slot owned.1).owner = some i →
      ∃ j, ReflTransGen (Waits s) i j ∧ (step s j).isSome := by
    intro owned
    induction owned using hwf.induction with
    | _ owned ih =>
      intro i howner
      have hheld := (h.slotLocks i owned.1).mp howner
      rcases moves_or_waits s i with ⟨result, hdone⟩ | hmoves | ⟨j, hj, hwaits⟩ | ⟨call, j, hat, hj, hwaits⟩
      · rw [hdone] at hheld
        exact absurd hheld List.not_mem_nil
      · exact ⟨i, .refl, hmoves⟩
      · exact ⟨j, .single hwaits, h.collectionLock.moves hj⟩
      · obtain ⟨hcontrol, hopens⟩ := h.fine i
        rw [hat] at hcontrol
        rw [held_of_control _ (by simp [hat])] at hheld
        obtain ⟨outer, houter, hname⟩ := List.mem_map.mp hheld
        have hdeeper : TransGen R owned.1 call.name := hname ▸ transGen_of_below hopens hcontrol.1 houter
        obtain ⟨k, hk, hmoves⟩ := ih ⟨call.name, by simp [hj]⟩ hdeeper j hj
        exact ⟨k, .head hwaits hk, hmoves⟩
  exact hall ⟨name, by simp [howner]⟩ i howner

/-- A caller that has not finished can take a step or waits, through the owners of locks, for one that
can. -/
theorem Sound.progress (hacyclic : ∀ name, ¬ TransGen R name name) (h : Sound R kindOf es s)
    (hi : ¬ Finished s i) : ∃ j, ReflTransGen (Waits s) i j ∧ (step s j).isSome := by
  rcases moves_or_waits s i with hdone | hmoves | ⟨j, hj, hwaits⟩ | ⟨call, j, -, hj, hwaits⟩
  · exact absurd hdone hi
  · exact ⟨i, .refl, hmoves⟩
  · exact ⟨j, .single hwaits, h.collectionLock.moves hj⟩
  · obtain ⟨k, hk, hmoves⟩ := h.owner_progress hacyclic hj
    exact ⟨k, .head hwaits hk, hmoves⟩

/-! ## Slots -/

/-- What callers can rely on in a state and the events before it. -/
structure Reliable (es : List (Event ι κ τ ν ε)) (s : State ι κ τ ν ε) : Prop where
  once : ∀ name, (loads name es).length ≤ 1
  shared : ∀ i name arc, .returned i name (.ok arc) ∈ es → loads name es = [arc]
  ownErrors : failures es = reports es
  failed : ∀ i events t, step s i = some (events, t) → ∀ j name e, .failed j name e ∈ events →
    j = i ∧ events = [.failed i name e, .returned i name (.error e)] ∧ t.slot name = ⟨none, none⟩ ∧
      ∀ other ≠ name, t.slot other = s.slot other
  retries : ∀ i call, (s.callers i).control = .checking call → loads call.name es = [] →
    ∃ t, step s i = some ([.missed i call.name], t) ∧
      t.callers i = ⟨.run call.load, call :: (s.callers i).opens⟩
  progress : ∀ i, ¬ Finished s i → ∃ j, ReflTransGen (Waits s) i j ∧ (step s j).isSome

theorem Act.failed {j : ι} {name : κ} {e : ε} (hact : Act s i events s') (h : Contents kindOf es s)
    (hmem : .failed j name e ∈ events) :
    j = i ∧ events = [.failed i name e, .returned i name (.error e)] ∧ s'.slot name = ⟨none, none⟩ ∧
      ∀ other ≠ name, s'.slot other = s.slot other := by
  cases hact with
  | enter | collect | lock | hit | miss | load => simp at hmem
  | fail call opens e' hat hat' =>
    obtain ⟨rfl, rfl, rfl⟩ : j = i ∧ name = call.name ∧ e = e' := by simpa using hmem
    have hempty := h.empty j call (hat' ▸ List.mem_cons_self)
    refine ⟨rfl, rfl, ?_, fun other => State.slot_setSlot_of_ne⟩
    exact State.slot_setSlot.trans (by rw [hempty])

theorem Sound.retries (h : Sound R kindOf es s) {call : Call κ τ ν ε}
    (hat : (s.callers i).control = .checking call) (hloads : loads call.name es = []) :
    ∃ t, step s i = some ([.missed i call.name], t) ∧
      t.callers i = ⟨.run call.load, call :: (s.callers i).opens⟩ := by
  rw [h.contents.loads, Option.toList_eq_nil_iff] at hloads
  refine ⟨s.go i (.run call.load) (call :: (s.callers i).opens), ?_, State.callers_go⟩
  simp [step, hat, Slot.hit, hloads]

theorem Sound.reliable (hacyclic : ∀ name, ¬ TransGen R name name) (h : Sound R kindOf es s) :
    Reliable es s where
  once name := by
    rw [h.contents.loads]
    cases (s.slot name).cached <;> simp
  shared i name arc hmem := by
    rw [h.contents.loads, h.contents.returned i name arc hmem]
    rfl
  ownErrors := h.failures
  failed i events t hstep j name e := (step_act hstep).failed h.contents
  retries i call := h.retries
  progress i := h.progress hacyclic

/-- Callers whose loaders depend on each other without a cycle can rely on the slots, whatever the
order of their steps. -/
theorem slots_reliable (hacyclic : ∀ name, ¬ TransGen R name name) {programs : ι → Prog κ τ ν ε}
    (hfine : ∀ i, (programs i).Fine R kindOf fun _ => True) {schedule : List ι}
    (h : exec (State.start programs) schedule = some (es, s)) : Reliable es s :=
  (exec_sound hacyclic hfine h).reliable hacyclic

end Act

/-- Two callers of a dataset that is derived from another. -/
def derivedCaller (_ : Bool) : Prog String Unit ℕ String :=
  .call "derived" ()
    (.call "source" () (.ret (.ok 3)) fun source => .ret (source.map fun arc => arc.value + 1))
    fun derived => .ret (derived.map Arc.value)

theorem derived_acyclic (name : String) :
    ¬ TransGen (fun a b => a = "derived" ∧ b = "source") name name := by
  have hends : ∀ {a b}, TransGen (fun a b => a = "derived" ∧ b = "source") a b →
      a = "derived" ∧ b = "source" := by
    intro a b h
    induction h with
    | single h => exact h
    | tail _ h ih => exact ⟨ih.1, h.2⟩
  intro h
  exact absurd ((hends h).1.symm.trans (hends h).2) (by decide)

theorem derivedCaller_fine (i : Bool) : (derivedCaller i).Fine
    (fun a b => a = "derived" ∧ b = "source") (fun _ => ()) fun _ => True :=
  ⟨trivial, rfl, ⟨⟨rfl, rfl⟩, rfl, trivial, fun _ => trivial⟩, fun _ => trivial⟩

/-- The second caller waits for the lock while the first loads both datasets. -/
def derivedSchedule : List Bool :=
  [false, false, true, true, false, false, false, false, false, false, false, false, true, true]

theorem slots_reliable_derived : ∃ es s,
    exec (State.start derivedCaller) derivedSchedule = some (es, s) ∧ Reliable es s := by
  have hsome : (exec (State.start derivedCaller) derivedSchedule).isSome := by decide +kernel
  obtain ⟨⟨es, s⟩, h⟩ := Option.isSome_iff_exists.mp hsome
  exact ⟨es, s, h, slots_reliable derived_acyclic derivedCaller_fine h⟩

end PrtsMcp.DatasetSlots
