import PrtsMcp.Process

/-!
# Executions

What a process can do, whatever replies it got: a trail, an outcome, and the state in the end.
-/
namespace PrtsMcp.Process

variable {σ κ ω ε δ α β : Type}

def Exec (p : Prog σ κ ω ε α) (s : σ) (vs : List (Visit σ κ ω)) (o : Outcome ε α) (t : σ) : Prop :=
  ∃ ws, (p.run s ws).trail = vs ∧ (p.run s ws).outcome = o ∧ (p.run s ws).world = t

/-- A process that is not stopped. -/
def Outcome.ofExcept : Except ε α → Outcome ε α
  | .ok a => .done a
  | .error e => .error e

theorem exec_run (p : Prog σ κ ω ε α) (s : σ) (ws : List ω) :
    Exec p s (p.run s ws).trail (p.run s ws).outcome (p.run s ws).world := ⟨ws, rfl, rfl, rfl⟩

section Inversions

variable {s t : σ} {vs : List (Visit σ κ ω)} {e : ε} {a : α} {b : β}

theorem exec_pure {o : Outcome ε α} (h : Exec (pure a : Prog σ κ ω ε α) s vs o t) :
    vs = [] ∧ o = .done a ∧ t = s := by
  obtain ⟨ws, rfl, rfl, rfl⟩ := h
  exact ⟨rfl, rfl, rfl⟩

theorem exec_throw {o : Outcome ε α} (h : Exec (Prog.throw e : Prog σ κ ω ε α) s vs o t) :
    vs = [] ∧ o = .error e ∧ t = s := by
  obtain ⟨ws, rfl, rfl, rfl⟩ := h
  exact ⟨rfl, rfl, rfl⟩

theorem exec_read {f : σ → α} {o : Outcome ε α}
    (h : Exec (Prog.read f : Prog σ κ ω ε α) s vs o t) : vs = [] ∧ o = .done (f s) ∧ t = s := by
  obtain ⟨ws, rfl, rfl, rfl⟩ := h
  exact ⟨rfl, rfl, rfl⟩

theorem exec_perform {op : κ} {f : ω → σ → Except ε α × σ} {o : Outcome ε α}
    (h : Exec (Prog.perform op f) s vs o t) :
    (vs = [] ∧ o = .stopped) ∨
      ∃ w, vs = [⟨op, w, s, t⟩] ∧ t = (f w s).2 ∧ o = .ofExcept (f w s).1 := by
  obtain ⟨ws, rfl, rfl, rfl⟩ := h
  cases ws with
  | nil => exact .inl ⟨rfl, rfl⟩
  | cons w ws =>
    refine .inr ⟨w, rfl, rfl, ?_⟩
    cases hf : (f w s).1 <;> simp [Prog.perform, Outcome.ofExcept, hf]

/-- A sequence fails in its first part or in its second. -/
theorem exec_bind_error {p : Prog σ κ ω ε α} {f : α → Prog σ κ ω ε β}
    (h : Exec (p >>= f) s vs (.error e) t) :
    Exec p s vs (.error e) t ∨
      ∃ a u vs₁ vs₂, Exec p s vs₁ (.done a) u ∧ Exec (f a) u vs₂ (.error e) t ∧
        vs = vs₁ ++ vs₂ := by
  obtain ⟨ws, hvs, ho, ht⟩ := h
  simp only [Bind.bind, Prog.bind] at hvs ho ht
  cases hr : (p.run s ws).outcome with
  | done a =>
    simp only [hr] at hvs ho ht
    exact .inr ⟨a, _, _, _, ⟨ws, rfl, hr, rfl⟩, ⟨_, rfl, ho, ht⟩, hvs.symm⟩
  | error e' =>
    simp only [hr] at hvs ho ht
    cases ho
    exact .inl ⟨ws, hvs, hr, ht⟩
  | stopped =>
    simp only [hr] at ho
    cases ho

theorem exec_bind_done {p : Prog σ κ ω ε α} {f : α → Prog σ κ ω ε β}
    (h : Exec (p >>= f) s vs (.done b) t) :
    ∃ a u vs₁ vs₂, Exec p s vs₁ (.done a) u ∧ Exec (f a) u vs₂ (.done b) t ∧
      vs = vs₁ ++ vs₂ := by
  obtain ⟨ws, hvs, ho, ht⟩ := h
  simp only [Bind.bind, Prog.bind] at hvs ho ht
  cases hr : (p.run s ws).outcome with
  | done a =>
    simp only [hr] at hvs ho ht
    exact ⟨a, _, _, _, ⟨ws, rfl, hr, rfl⟩, ⟨_, rfl, ho, ht⟩, hvs.symm⟩
  | error e' =>
    simp only [hr] at ho
    cases ho
  | stopped =>
    simp only [hr] at ho
    cases ho

theorem exec_attempt {p : Prog σ κ ω ε α} {r : Except ε α}
    (h : Exec (p.attempt : Prog σ κ ω δ (Except ε α)) s vs (.done r) t) :
    Exec p s vs (.ofExcept r) t := by
  obtain ⟨ws, hvs, ho, ht⟩ := h
  refine ⟨ws, hvs, ?_, ht⟩
  simp only [Prog.attempt] at ho
  cases hr : (p.run s ws).outcome <;> rw [hr] at ho <;> cases ho <;> rfl

theorem exec_attempt_error {p : Prog σ κ ω ε α} {e : δ}
    (h : Exec (p.attempt : Prog σ κ ω δ (Except ε α)) s vs (.error e) t) : False := by
  obtain ⟨ws, -, ho, -⟩ := h
  simp only [Prog.attempt] at ho
  cases hr : (p.run s ws).outcome <;> rw [hr] at ho <;> cases ho

/-- What a triple without assumptions says of an execution. -/
theorem Triple.exec {G : Visit σ κ ω → Prop} {P : σ → Prop} {p : Prog σ κ ω ε α}
    {Q : α → σ → Prop} {E : ε → σ → Prop} {o : Outcome ε α}
    (h : Triple (fun _ => True) G P p Q E) (hs : P s) (hp : Exec p s vs o t) :
    (∀ v ∈ vs, G v) ∧ o.Post Q E t := by
  obtain ⟨ws, rfl, rfl, rfl⟩ := hp
  exact h s ws hs fun _ _ => trivial

end Inversions

end PrtsMcp.Process
