import Mathlib

/-!
# Processes over a store

A process is a sequence of steps on a state `σ`. Every step consumes one reply `ω` of its
environment, so the end of the replies is a point at which the process stops. The trail keeps
every step with the states around it, and `Triple` is the program logic over such trails.
-/
namespace PrtsMcp.Process

variable {σ τ κ ω ε δ α β : Type}

/-- One step: what it does, the reply it got, and the states around it. -/
structure Visit (σ κ ω : Type) where
  op : κ
  reply : ω
  before : σ
  after : σ

inductive Outcome (ε α : Type) where
  | done (value : α)
  | error (e : ε)
  | stopped
  deriving DecidableEq, Repr

/-- Each visit starts in the state the one before it left. -/
def Linked : σ → List (Visit σ κ ω) → σ → Prop
  | s, [], t => s = t
  | s, v :: vs, t => v.before = s ∧ Linked v.after vs t

structure Ran (σ κ ω ε α : Type) where
  outcome : Outcome ε α
  world : σ
  rest : List ω
  trail : List (Visit σ κ ω)

theorem Linked.append {s t u : σ} {vs ws : List (Visit σ κ ω)} (h : Linked s vs t)
    (h' : Linked t ws u) : Linked s (vs ++ ws) u := by
  induction vs generalizing s with
  | nil => exact (show s = t from h) ▸ h'
  | cons v vs ih => exact ⟨h.1, ih h.2⟩

/-- A relation that every visit respects relates all visited states in their order. -/
theorem Linked.pairwise {R : σ → σ → Prop} [IsTrans σ R] {s t : σ} {vs : List (Visit σ κ ω)}
    (h : Linked s vs t) (hR : ∀ v ∈ vs, R v.before v.after) :
    (s :: vs.map Visit.after).Pairwise R := by
  rw [← List.isChain_iff_pairwise]
  induction vs generalizing s with
  | nil => simp
  | cons v vs ih =>
    rw [List.map_cons, List.isChain_cons_cons]
    exact ⟨h.1 ▸ hR v (by simp), ih h.2 fun w hw => hR w (by simp [hw])⟩

structure Prog (σ κ ω ε α : Type) where
  run : σ → List ω → Ran σ κ ω ε α
  linked : ∀ s ws, Linked s (run s ws).trail (run s ws).world

namespace Prog

def pure (a : α) : Prog σ κ ω ε α := ⟨fun s ws => ⟨.done a, s, ws, []⟩, fun _ _ => rfl⟩

def throw (e : ε) : Prog σ κ ω ε α := ⟨fun s ws => ⟨.error e, s, ws, []⟩, fun _ _ => rfl⟩

/-- The process dies. -/
def halt : Prog σ κ ω ε α := ⟨fun s ws => ⟨.stopped, s, ws, []⟩, fun _ _ => rfl⟩

/-- Look at the state. -/
def read (f : σ → α) : Prog σ κ ω ε α := ⟨fun s ws => ⟨.done (f s), s, ws, []⟩, fun _ _ => rfl⟩

/-- One step; the process stops here when no reply is left. -/
def perform (op : κ) (f : ω → σ → Except ε α × σ) : Prog σ κ ω ε α where
  run s
    | [] => ⟨.stopped, s, [], []⟩
    | w :: ws =>
      ⟨match (f w s).1 with
        | .ok a => .done a
        | .error e => .error e,
        (f w s).2, ws, [⟨op, w, s, (f w s).2⟩]⟩
  linked s ws := by cases ws <;> simp [Linked]

def bind (p : Prog σ κ ω ε α) (f : α → Prog σ κ ω ε β) : Prog σ κ ω ε β where
  run s ws :=
    let r := p.run s ws
    match r.outcome with
    | .done a =>
      let r' := (f a).run r.world r.rest
      ⟨r'.outcome, r'.world, r'.rest, r.trail ++ r'.trail⟩
    | .error e => ⟨.error e, r.world, r.rest, r.trail⟩
    | .stopped => ⟨.stopped, r.world, r.rest, r.trail⟩
  linked s ws := by
    dsimp only
    split
    · exact (p.linked s ws).append ((f _).linked _ _)
    · exact p.linked s ws
    · exact p.linked s ws

/-- Errors become values. -/
def attempt (p : Prog σ κ ω ε α) : Prog σ κ ω δ (Except ε α) where
  run s ws :=
    let r := p.run s ws
    ⟨match r.outcome with
      | .done a => .done (.ok a)
      | .error e => .done (.error e)
      | .stopped => .stopped,
      r.world, r.rest, r.trail⟩
  linked s ws := p.linked s ws

/-- Run a process on a part of the state. -/
def zoom (get : σ → τ) (set : τ → σ → σ) (hset : ∀ s, set (get s) s = s)
    (p : Prog τ κ ω ε α) : Prog σ κ ω ε α where
  run s ws :=
    let r := p.run (get s) ws
    ⟨r.outcome, set r.world s, r.rest,
      r.trail.map fun v => ⟨v.op, v.reply, set v.before s, set v.after s⟩⟩
  linked s ws := by
    suffices h : ∀ (vs : List (Visit τ κ ω)) (a b : τ), Linked a vs b →
        Linked (set a s) (vs.map fun v => ⟨v.op, v.reply, set v.before s, set v.after s⟩)
          (set b s) by
      have := h _ _ _ (p.linked (get s) ws)
      rwa [hset] at this
    intro vs
    induction vs with
    | nil => exact fun a b hab => congrArg (set · s) hab
    | cons v vs ih => exact fun a b hab => ⟨congrArg (set · s) hab.1, ih _ _ hab.2⟩

instance : Monad (Prog σ κ ω ε) where
  pure := Prog.pure
  bind := Prog.bind

/-- `let _ = …`: the outcome does not matter. -/
def ignore (p : Prog σ κ ω ε α) : Prog σ κ ω δ Unit := p.attempt.bind fun _ => .pure ()

def void (p : Prog σ κ ω ε α) : Prog σ κ ω ε Unit := p.bind fun _ => .pure ()

def forEach (f : β → Prog σ κ ω ε Unit) : List β → Prog σ κ ω ε Unit
  | [] => .pure ()
  | b :: bs => (f b).bind fun _ => forEach f bs

end Prog

def Outcome.Post (Q : α → σ → Prop) (E : ε → σ → Prop) (s : σ) : Outcome ε α → Prop
  | .done a => Q a s
  | .error e => E e s
  | .stopped => True

/-- From a state in `P`, as long as every step meets `A`, every step meets `G`, and the process
ends in `Q` or in `E`, if it is not stopped before. -/
def Triple (A G : Visit σ κ ω → Prop) (P : σ → Prop) (p : Prog σ κ ω ε α) (Q : α → σ → Prop)
    (E : ε → σ → Prop) : Prop :=
  ∀ s ws, P s → (∀ v ∈ (p.run s ws).trail, A v) →
    (∀ v ∈ (p.run s ws).trail, G v) ∧ (p.run s ws).outcome.Post Q E (p.run s ws).world

/-- The postconditions of an attempt. -/
def Attempted (Q : α → σ → Prop) (E : ε → σ → Prop) : Except ε α → σ → Prop
  | .ok a => Q a
  | .error e => E e

section Rules

variable {A G : Visit σ κ ω → Prop} {P : σ → Prop} {Q : α → σ → Prop} {E : ε → σ → Prop}

theorem Outcome.Post.imp {Q' : α → σ → Prop} {E' : ε → σ → Prop} {s : σ} {o : Outcome ε α}
    (h : o.Post Q E s) (hQ : ∀ a, Q a s → Q' a s) (hE : ∀ e, E e s → E' e s) :
    o.Post Q' E' s := by
  cases o with
  | done a => exact hQ a h
  | error e => exact hE e h
  | stopped => trivial

theorem triple_pure {a : α} (h : ∀ s, P s → Q a s) :
    Triple A G P (pure a : Prog σ κ ω ε α) Q E :=
  fun s _ hP _ => ⟨by simp [Pure.pure, Prog.pure], h s hP⟩

theorem triple_throw {e : ε} (h : ∀ s, P s → E e s) :
    Triple A G P (Prog.throw e : Prog σ κ ω ε α) Q E :=
  fun s _ hP _ => ⟨by simp [Prog.throw], h s hP⟩

theorem triple_halt : Triple A G P (Prog.halt : Prog σ κ ω ε α) Q E :=
  fun _ _ _ _ => ⟨by simp [Prog.halt], trivial⟩

theorem triple_read {f : σ → α} (h : ∀ s, P s → Q (f s) s) :
    Triple A G P (Prog.read f : Prog σ κ ω ε α) Q E :=
  fun s _ hP _ => ⟨by simp [Prog.read], h s hP⟩

theorem triple_perform {op : κ} {f : ω → σ → Except ε α × σ}
    (hstep : ∀ w s, P s → A ⟨op, w, s, (f w s).2⟩ → G ⟨op, w, s, (f w s).2⟩)
    (hdone : ∀ w s a, P s → A ⟨op, w, s, (f w s).2⟩ → (f w s).1 = .ok a → Q a (f w s).2)
    (herr : ∀ w s e, P s → A ⟨op, w, s, (f w s).2⟩ → (f w s).1 = .error e → E e (f w s).2) :
    Triple A G P (Prog.perform op f) Q E := by
  intro s ws hP hA
  cases ws with
  | nil => exact ⟨by simp [Prog.perform], trivial⟩
  | cons w ws =>
    have hw : A ⟨op, w, s, (f w s).2⟩ := hA _ (by simp [Prog.perform])
    refine ⟨by simpa [Prog.perform] using hstep w s hP hw, ?_⟩
    simp only [Prog.perform]
    split
    · next a ha => exact hdone w s a hP hw ha
    · next e he => exact herr w s e hP hw he

theorem triple_bind {p : Prog σ κ ω ε α} {f : α → Prog σ κ ω ε β} {R : α → σ → Prop}
    {S : β → σ → Prop} (hp : Triple A G P p R E) (hf : ∀ a, Triple A G (R a) (f a) S E) :
    Triple A G P (p >>= f) S E := by
  intro s ws hP
  simp only [Bind.bind, Prog.bind]
  have h := hp s ws hP
  cases hr : (p.run s ws).outcome with
  | done a =>
    intro hA
    simp only [List.forall_mem_append] at hA ⊢
    obtain ⟨hG, hpost⟩ := h hA.1
    rw [hr] at hpost
    obtain ⟨hG', hpost'⟩ := hf a _ _ hpost hA.2
    exact ⟨⟨hG, hG'⟩, hpost'⟩
  | error e =>
    intro hA
    obtain ⟨hG, hpost⟩ := h hA
    rw [hr] at hpost
    exact ⟨hG, hpost⟩
  | stopped => exact fun hA => ⟨(h hA).1, trivial⟩

theorem triple_attempt {p : Prog σ κ ω ε α} {E' : δ → σ → Prop}
    (hp : Triple A G P p Q E) :
    Triple A G P (p.attempt : Prog σ κ ω δ (Except ε α)) (Attempted Q E) E' := by
  intro s ws hP hA
  obtain ⟨hG, hpost⟩ := hp s ws hP hA
  refine ⟨hG, ?_⟩
  simp only [Prog.attempt]
  cases hr : (p.run s ws).outcome <;> rw [hr] at hpost <;> exact hpost

/-- Go on from either outcome of a process. -/
theorem triple_bind_attempt {p : Prog σ κ ω ε α} {f : Except ε α → Prog σ κ ω δ β}
    {S : β → σ → Prop} {E' : δ → σ → Prop} (hp : Triple A G P p Q E)
    (hok : ∀ a, Triple A G (Q a) (f (.ok a)) S E')
    (herr : ∀ e, Triple A G (E e) (f (.error e)) S E') :
    Triple A G P (p.attempt >>= f) S E' :=
  triple_bind (triple_attempt hp) fun r => match r with
    | .ok a => hok a
    | .error e => herr e

theorem triple_ignore {p : Prog σ κ ω ε α} {R : σ → Prop} {E' : δ → σ → Prop}
    (hp : Triple A G P p (fun _ => R) fun _ => R) :
    Triple A G P (p.ignore : Prog σ κ ω δ Unit) (fun _ => R) E' := by
  refine triple_bind (triple_attempt hp) fun r => triple_pure fun s hs => ?_
  cases r <;> exact hs

theorem triple_forEach {f : β → Prog σ κ ω ε Unit} {bs : List β}
    (h : ∀ b ∈ bs, Triple A G P (f b) (fun _ => P) E) :
    Triple A G P (Prog.forEach f bs) (fun _ => P) E := by
  induction bs with
  | nil => exact triple_pure fun _ hs => hs
  | cons b bs ih =>
    exact triple_bind (h b (by simp)) fun _ => ih fun b' hb' => h b' (by simp [hb'])

theorem Triple.conseq {A' G' : Visit σ κ ω → Prop} {P' : σ → Prop} {Q' : α → σ → Prop}
    {E' : ε → σ → Prop} {p : Prog σ κ ω ε α} (h : Triple A G P p Q E) (hP : ∀ s, P' s → P s)
    (hA : ∀ v, A' v → A v) (hG : ∀ v, G v → G' v) (hQ : ∀ a s, Q a s → Q' a s)
    (hE : ∀ e s, E e s → E' e s) : Triple A' G' P' p Q' E' := by
  intro s ws hs htrail
  obtain ⟨hsteps, hpost⟩ := h s ws (hP s hs) fun v hv => hA v (htrail v hv)
  exact ⟨fun v hv => hG v (hsteps v hv), hpost.imp (fun a => hQ a _) fun e => hE e _⟩

theorem Triple.pre {P' : σ → Prop} {p : Prog σ κ ω ε α} (h : Triple A G P p Q E)
    (hP : ∀ s, P' s → P s) : Triple A G P' p Q E :=
  fun s ws hs => h s ws (hP s hs)

theorem Triple.post {Q' : α → σ → Prop} {p : Prog σ κ ω ε α} (h : Triple A G P p Q E)
    (hQ : ∀ a s, Q a s → Q' a s) : Triple A G P p Q' E :=
  fun s ws hs hA => ⟨(h s ws hs hA).1, (h s ws hs hA).2.imp (fun a => hQ a _) fun _ he => he⟩

theorem Triple.onError {E' : ε → σ → Prop} {p : Prog σ κ ω ε α} (h : Triple A G P p Q E)
    (hE : ∀ e s, E e s → E' e s) : Triple A G P p Q E' :=
  fun s ws hs hA => ⟨(h s ws hs hA).1, (h s ws hs hA).2.imp (fun _ hq => hq) fun e => hE e _⟩

theorem Linked.invariant {I : σ → Prop} {s t : σ} {vs : List (Visit σ κ ω)} (h : Linked s vs t)
    (hs : I s) (hvs : ∀ v ∈ vs, I v.before → I v.after) :
    (∀ v ∈ vs, I v.before ∧ I v.after) ∧ I t := by
  induction vs generalizing s with
  | nil => exact ⟨by simp, (show s = t from h) ▸ hs⟩
  | cons v vs ih =>
    have hbefore : I v.before := h.1 ▸ hs
    have hafter : I v.after := hvs v (by simp) hbefore
    obtain ⟨hrest, ht⟩ := ih h.2 hafter fun w hw => hvs w (by simp [hw])
    exact ⟨List.forall_mem_cons.mpr ⟨⟨hbefore, hafter⟩, hrest⟩, ht⟩

/-- What the steps keep, the process keeps. -/
theorem Triple.invariant {I : σ → Prop} {p : Prog σ κ ω ε α} (h : Triple A G P p Q E)
    (hinv : ∀ v, A v → G v → I v.before → I v.after) :
    Triple A (fun v => A v ∧ G v ∧ I v.before ∧ I v.after) (fun s => P s ∧ I s) p
      (fun a s => Q a s ∧ I s) fun e s => E e s ∧ I s := by
  intro s ws hs hA
  obtain ⟨hG, hpost⟩ := h s ws hs.1 hA
  obtain ⟨hvs, hend⟩ := (p.linked s ws).invariant hs.2 fun v hv => hinv v (hA v hv) (hG v hv)
  exact ⟨fun v hv => ⟨hA v hv, hG v hv, hvs v hv⟩,
    hpost.imp (fun _ hq => ⟨hq, hend⟩) fun _ he => ⟨he, hend⟩⟩

/-- A fact that does not depend on the state. -/
theorem triple_fact {φ : Prop} {p : Prog σ κ ω ε α} (h : φ → Triple A G P p Q E) :
    Triple A G (fun s => P s ∧ φ) p Q E :=
  fun s ws hs => h hs.2 s ws hs.1

/-- Fix what a function of the start state is. -/
theorem triple_of_forall {f : σ → τ} {p : Prog σ κ ω ε α}
    (h : ∀ t, Triple A G (fun s => P s ∧ f s = t) p Q E) : Triple A G P p Q E :=
  fun s ws hs hA => h (f s) s ws ⟨hs, rfl⟩ hA

/-- A process on a part of the state, seen from the whole. -/
theorem triple_zoom {get : σ → τ} {set : τ → σ → σ} {hset : ∀ s, set (get s) s = s}
    {p : Prog τ κ ω ε α}
    (h : ∀ s, P s → Triple (fun v => A ⟨v.op, v.reply, set v.before s, set v.after s⟩)
      (fun v => G ⟨v.op, v.reply, set v.before s, set v.after s⟩) (· = get s) p
      (fun a t => Q a (set t s)) fun e t => E e (set t s)) :
    Triple A G P (p.zoom get set hset) Q E := by
  intro s ws hP hA
  simp only [Prog.zoom, List.forall_mem_map] at hA ⊢
  obtain ⟨hG, hpost⟩ := h s hP (get s) ws rfl hA
  refine ⟨hG, ?_⟩
  cases hr : (p.run (get s) ws).outcome <;> rw [hr] at hpost <;> exact hpost

end Rules

section Session

/-- All visits of a sequence of processes; each starts where the last one ended or stopped. -/
def session : List (Prog σ κ ω ε α × List ω) → σ → List (Visit σ κ ω)
  | [], _ => []
  | (p, ws) :: calls, s => (p.run s ws).trail ++ session calls (p.run s ws).world

/-- The state after a sequence of processes. -/
def sessionEnd : List (Prog σ κ ω ε α × List ω) → σ → σ
  | [], s => s
  | (p, ws) :: calls, s => sessionEnd calls (p.run s ws).world

variable {A G : Visit σ κ ω → Prop} {Inv : σ → Prop}

theorem session_linked (calls : List (Prog σ κ ω ε α × List ω)) (s : σ) :
    Linked s (session calls s) (sessionEnd calls s) := by
  induction calls generalizing s with
  | nil => rfl
  | cons call calls ih => exact (call.1.linked s call.2).append (ih _)

theorem Linked.final {s t : σ} {vs : List (Visit σ κ ω)} (h : Linked s vs t) (hs : Inv s)
    (hvs : ∀ v ∈ vs, Inv v.after) : Inv t := by
  induction vs generalizing s with
  | nil => exact (show s = t from h) ▸ hs
  | cons v vs ih => exact ih h.2 (hvs v (by simp)) fun w hw => hvs w (by simp [hw])

/-- Processes that keep an invariant at every step keep it over every sequence of them, wherever
each of them stops. -/
theorem session_steps {calls : List (Prog σ κ ω ε α × List ω)} {s : σ}
    (h : ∀ call ∈ calls, Triple A G Inv call.1 (fun _ => Inv) fun _ => Inv)
    (hinv : ∀ v, G v → Inv v.after) (hs : Inv s) (hA : ∀ v ∈ session calls s, A v) :
    ∀ v ∈ session calls s, G v := by
  induction calls generalizing s with
  | nil => simp [session]
  | cons call calls ih =>
    simp only [session, List.forall_mem_append] at hA ⊢
    have hG := (h call (by simp) s call.2 hs hA.1).1
    have hnext : Inv (call.1.run s call.2).world :=
      (call.1.linked s call.2).final hs fun v hv => hinv v (hG v hv)
    exact ⟨hG, ih (fun c hc => h c (by simp [hc])) hnext hA.2⟩

end Session

end PrtsMcp.Process
