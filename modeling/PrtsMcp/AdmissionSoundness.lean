import PrtsMcp.AdmissionRuns

/-!
# Soundness of admission

A managed call that is admitted has its file's bytes authenticated under the token it observed,
whatever becomes of the files, the stamps and the receipts in the course of a run.
-/
namespace PrtsMcp.Admission

open Interleaving

variable {w : World} {paths : String → Option ℕ} {stamps : String → Option (String × ℕ)}
  {es : List Event} {x : Config Core Task}

theorem outline (w : World) : Outline (machine w) (Sane w) (Holds w) where
  act h hs ht := ⟨⟨h.receipts hs ht, h.handles hs ht⟩, h.holds hs ht⟩
  others h _ _ _ hu := hu.later h.later _
  happen h hs := by
    refine ⟨h.sane hs, ?_, fun _ hu => hu.later h.later _⟩
    cases h with
    | called => simp [Holds]
    | _ => simp

theorem sane_new : Sane w [] (.new paths stamps) where
  receipts := ⟨by simp [Core.new], by simp [Core.new], by simp [Core.new]⟩
  handles := ⟨by simp [Core.new], by simp [Core.new], by simp [Core.new]⟩

theorem Ran.sane (h : Ran w paths stamps es x) :
    Sane w es x.core ∧ ∀ t ∈ x.tasks, Holds w es x.core t :=
  (outline w).run h sane_new (by simp)

/-! ## The observation of a call -/

/-- The observation that a call carries. -/
def Stage.observation : Stage → Option Observation
  | .flight | .begin | .observe _ => none
  | .size o | .receipt o | .hash o | .hashing o _ _ | .authenticated o _ | .cached o _
  | .opening o _ | .opened o _ _ | .connect o _ _ | .connected o _ _ _ | .publish o _ _ _
  | .ready o _ _ | .custom o _ | .customVerifying o _ _ | .customLevel o _ | .customDone o _
  | .metadata o _ _ | .reuse o _ | .choose o _ | .verify o _ | .verifying o _ _ | .verified o _ _
  | .stamp o _ | .prove o _ _ | .lease o _ _ | .leased o _ _ | .push o _ _ | .retain o _ => some o

/-- What a call carries it has observed itself. -/
def Logged (es : List Event) (t : Task) : Prop :=
  ∀ o, t.stage.observation = some o → Event.observed t.call.id o.token ∈ es

theorem Acts.logged {t : Task} {c c' : Core} {e : Event} {ts : List Task}
    (h : Acts w t c e ts c') (ht : Logged es t) : ∀ u ∈ ts, Logged (es ++ [e]) u := by
  have hkept {call : Call} {o : Observation} (ho : Event.observed call.id o.token ∈ es)
      {stage : Stage} (hstage : stage.observation = some o) : Logged (es ++ [e]) ⟨call, stage⟩ := by
    intro o' ho'
    obtain rfl := Option.some.inj (hstage.symm.trans ho')
    exact List.mem_append_left _ ho
  cases h
  all_goals try exact fun u hu => absurd hu List.not_mem_nil
  all_goals rw [List.forall_mem_singleton]
  case flight | begin => exact fun o ho => by cases ho
  case observe call file hpath =>
    intro o ho
    have hmem : Event.observed call.id (c.token file) ∈
        es ++ [Event.observed call.id (c.token file)] :=
      List.mem_append_right _ List.mem_cons_self
    split at ho <;> (obtain rfl := Option.some.inj ho; exact hmem)
  case size | ready | metadata | choose | verified =>
    exact hkept (ht _ rfl) (by split <;> rfl)
  all_goals exact hkept (ht _ rfl) rfl

theorem Ran.logged (h : Ran w paths stamps es x) : ∀ t ∈ x.tasks, Logged es t := by
  have houtline : Outline (machine w) (fun _ _ => True) fun es _ t => Logged es t := by
    constructor
    · exact fun h _ ht => ⟨trivial, h.logged ht⟩
    · exact fun _ _ _ u hu o ho => List.mem_append_left _ (hu o ho)
    · intro es c e ts c' h _
      refine ⟨trivial, ?_, fun u hu o ho => List.mem_append_left _ (hu o ho)⟩
      cases h with
      | called => simp [Logged, Stage.observation]
      | _ => simp
  exact (houtline.run h trivial (by simp)).2

/-! ## The calls of a run -/

/-- The call has returned. -/
def ended (id : ℕ) : Event → Bool
  | .refused call _ => call = id
  | .admitted call _ _ => call.id = id
  | _ => false

/-- What ends a call leaves no task of it. -/
theorem Acts.ended {t : Task} {c c' : Core} {e : Event} {ts : List Task}
    (h : Acts w t c e ts c') (id : ℕ) :
    (ts.map (ind fun u => decide (u.call.id = id))).sum + ind (Admission.ended id) e =
      ind (fun u => decide (u.call.id = id)) t := by
  cases h <;> simp [ind, Admission.ended]

theorem Ran.calls (h : Ran w paths stamps es x) (id : ℕ) :
    es.countP (ended id) + x.tasks.countP (fun t => decide (t.call.id = id)) ≤ 1 := by
  have hbalanced : Balanced (machine w) (fun _ => True)
      (fun c => -ind (fun n => decide (id < n)) c.calls)
      (ind fun t => decide (t.call.id = id)) (ind (ended id)) := by
    constructor
    · intro t c e ts c' hact _
      have hended := hact.ended id
      have hcalls : c'.calls = c.calls := by cases hact <;> rfl
      rw [hcalls]
      omega
    · intro c e ts c' hhappens _
      cases hhappens with
      | @called call hid =>
        simp only [ind, ended, hid, List.map_cons, List.map_nil, List.sum_cons, List.sum_nil]
        grind
      | _ => simp [ind, ended]
  have htotal := hbalanced.run (fun _ => trivial) h
  simp only [total, sum_ind, List.map_nil, List.sum_nil, Core.new] at htotal
  have hone : ind (fun n => decide (id < n)) x.core.calls ≤ 1 := by
    unfold ind
    split <;> decide
  have hzero : ind (fun n => decide (id < n)) 0 = 0 := by simp [ind]
  omega

/-! ## Every run -/

theorem Ran.event {e : Event} (h : Ran w paths stamps es x) (he : e ∈ es) :
    ∃ pre post y z, es = pre ++ e :: post ∧ Ran w paths stamps pre y ∧ Step (machine w) y e z := by
  obtain ⟨pre, post, rfl⟩ := List.append_of_mem he
  obtain ⟨y, z, hy, hstep, -, -⟩ := h.around
  exact ⟨pre, post, y, z, rfl, hy, hstep⟩

/-- A full check is logged once it has passed on what the file holds. -/
theorem Checked.passed {a : Token} (hc : Checked es a) (h : Ran w paths stamps es x) :
    w.verifyContents (w.bytes a) = .ok () := by
  obtain ⟨pre, post, y, z, -, -, hstep⟩ := Ran.event h hc
  generalize he : Event.checked a a = e at hstep
  cases hstep with
  | act l r hact =>
    cases hact
    case customVerified hpassed =>
      cases he
      exact hpassed rfl
    case verifying hpassed =>
      cases he
      exact hpassed rfl
    all_goals cases he
  | happen l hhappens => cases hhappens <;> cases he

/-- What it means that a call was admitted with this handle. -/
structure Admitted (w : World) (es : List Event) (call : Call) (a : Token) (db : GameDb) :
    Prop where
  observed : Event.observed call.id a ∈ es
  handle : db.path = call.path ∧ db.identity = a
  sized : Sized w call a
  hashed : Hashed w es call a
  checked : call.strict = true → Checked es a ∧ w.verifyContents (w.bytes a) = .ok ()

theorem Established.mono {fs : List Event} {call : Call} {e : Expected} {a : Token}
    (h : Established es call e a) (hsub : es ⊆ fs) : Established fs call e a := by
  rcases h with h | ⟨r, hr, hcovers⟩
  · exact .inl (hsub h)
  · exact .inr ⟨r, hsub hr, hcovers⟩

theorem Ran.admitted {call : Call} {a : Token} {db : GameDb} (h : Ran w paths stamps es x)
    (he : Event.admitted call a db ∈ es) : Admitted w es call a db := by
  obtain ⟨pre, post, y, z, hes, hy, hstep⟩ := Ran.event h he
  have hsub : pre ⊆ es := by
    rw [hes]
    exact List.subset_append_left _ _
  obtain ⟨-, hholds⟩ := Ran.sane hy
  have hlogged := Ran.logged hy
  generalize he : Event.admitted call a db = e at hstep
  cases hstep with
  | @act t c c' e ts l r hact =>
    have hmem : t ∈ l ++ t :: r := List.mem_append_right l List.mem_cons_self
    have ht := hholds t hmem
    have hobserved := hlogged t hmem
    cases hact
    case retain db' o hdb =>
      cases he
      obtain ⟨-, hauthentic, ⟨g, hg, hpath, hidentity⟩, hchecked⟩ := ht
      obtain rfl := Option.some.inj (hdb.symm.trans hg)
      refine ⟨hsub (hobserved _ rfl), ⟨hpath, hidentity⟩, hauthentic.sized, ?_, ?_⟩
      · exact fun e he => ⟨(hauthentic.hashed e he).1, (hauthentic.hashed e he).2.mono hsub⟩
      · intro hstrict
        have hlogged := hsub (hchecked hstrict)
        exact ⟨hlogged, Checked.passed hlogged h⟩
    all_goals cases he
  | happen l hhappens => cases hhappens <;> cases he

/-- A receipt that serves a call is in the table then, for the file that its path names. -/
theorem Ran.reused {id : ℕ} {r : Receipt} (h : Ran w paths stamps es x)
    (he : Event.reused id r ∈ es) : ∃ pre post y, es = pre ++ .reused id r :: post ∧
      Ran w paths stamps pre y ∧ r ∈ y.core.receipts ∧ y.core.current r.observed = true := by
  obtain ⟨pre, post, y, z, hes, hy, hstep⟩ := Ran.event h he
  refine ⟨pre, post, y, hes, hy, ?_⟩
  generalize he : Event.reused id r = e at hstep
  cases hstep with
  | act l r hact =>
    cases hact
    case receipt hr =>
      cases he
      exact List.mem_filter.mp hr
    all_goals cases he
  | happen l hhappens => cases hhappens <;> cases he

/-- What holds of admissions and receipts. -/
structure Sound (w : World) (paths : String → Option ℕ) (stamps : String → Option (String × ℕ))
    (es : List Event) (x : Config Core Task) : Prop where
  admitted : ∀ call a db, Event.admitted call a db ∈ es → Admitted w es call a db
  /-- A receipt that serves a call is live. -/
  reused : ∀ id r, Event.reused id r ∈ es → ∃ pre post y, es = pre ++ .reused id r :: post ∧
    Ran w paths stamps pre y ∧ r ∈ y.core.receipts ∧ y.core.current r.observed = true
  /-- An id stands for one call, which ends once. -/
  calls : ∀ id, es.countP (ended id) + x.tasks.countP (fun t => decide (t.call.id = id)) ≤ 1
  limit : x.core.receipts.length ≤ limit
  paths : (x.core.receipts.map fun r => r.observed.path).Nodup

theorem admit_sound (h : Ran w paths stamps es x) : Sound w paths stamps es x where
  admitted _ _ _ he := h.admitted he
  reused _ _ he := h.reused he
  calls id := h.calls id
  limit := h.sane.1.receipts.length
  paths := h.sane.1.receipts.paths

theorem Ran.act {t : Task} {c c' : Core} {e : Event} {ts : List Task} (l r : List Task)
    (h : Ran w paths stamps es ⟨c, l ++ t :: r⟩) (hact : Acts w t c e ts c') :
    Ran w paths stamps (es ++ [e]) ⟨c', l ++ (ts ++ r)⟩ :=
  h.snoc (.act l r hact)

/-- The first admission of a managed file, in strict mode: it is hashed, opened and checked. -/
theorem admit_sound_strict :
    let w : World :=
      ⟨fun _ => [], fun _ => "e3b0", fun _ => "", fun _ => .ok (),
        fun _ key => if key = "source_version" then some "fixture" else some "1",
        fun _ => .ok (), fun _ => .ok ()⟩
    let call : Call := ⟨0, "zh_CN.sqlite", some ⟨"e3b0", 0, "fixture", 1, none⟩, true, false⟩
    ∃ es x, Event.admitted call (0, 0) ⟨"zh_CN.sqlite", (0, 0), 0⟩ ∈ es ∧
      Sound w (fun _ => some 0) (fun _ => none) es x := by
  intro w call
  let c (receipts : List Receipt) (handles : List GameDb) (checked : ℕ → ℕ)
      (stamps : String → Option (String × ℕ)) : Core :=
    ⟨fun _ => 0, fun _ => some 0, stamps, receipts, handles, checked, [], ["zh_CN.sqlite"], 1⟩
  let o : Observation := ⟨"zh_CN.sqlite", (0, 0)⟩
  let db : GameDb := ⟨"zh_CN.sqlite", (0, 0), 0⟩
  let checked : ℕ → ℕ := Function.update (fun _ => 0) 0 0
  have hadmit : Happens (.new (fun _ => some 0) fun _ => none) .silent [⟨call, .flight⟩]
      { Core.new (fun _ => some 0) (fun _ => none) with calls := 1 } := .called rfl
  have hstart : Ran w (fun _ => some 0) (fun _ => none) [.silent] ⟨_, [⟨call, .flight⟩]⟩ :=
    Run.nil.snoc (.happen [] hadmit)
  have hflight : Ran w _ _ [.silent, .silent]
      ⟨c [] [] (fun _ => 0) fun _ => none, [⟨call, .begin⟩]⟩ :=
    hstart.act [] [] (.flight (by simp [Core.new]))
  obtain ⟨es, hhashed⟩ : ∃ es, Ran w (fun _ => some 0) (fun _ => none) es
      ⟨c [] [] (fun _ => 0) fun _ => none, [⟨call, .authenticated o false⟩]⟩ :=
    ⟨_, ((((((hflight.act [] [] (.begin rfl)).act [] [] (.observe rfl)).act [] []
      (.size rfl rfl rfl)).act [] [] (.noReceipt rfl fun r hr => by cases hr)).act [] []
        (.hash rfl)).act [] [] (.hashed rfl rfl rfl))⟩
  obtain ⟨es, hready⟩ : ∃ es, Ran w (fun _ => some 0) (fun _ => none) es
      ⟨c [] [db] checked fun _ => none, [⟨call, .metadata o false 0⟩]⟩ :=
    ⟨_, (((((((hhashed.act [] [] (.authenticated rfl)).act [] [] (.notCached rfl rfl)).act [] []
      (.opening rfl)).act [] [] (.opened rfl)).act [] [] (.connect rfl)).act [] []
        (.connected rfl)).act [] [] (.publish rfl)).act [] [] (.ready rfl rfl)⟩
  have hrows : ∀ row ∈ Expected.metadata ⟨"e3b0", 0, "fixture", 1, none⟩,
      w.metadata [] row.1 = some row.2 := by
    simp [Expected.metadata, w]
    rfl
  obtain ⟨es, hstamped⟩ : ∃ es, Ran w (fun _ => some 0) (fun _ => none) es
      ⟨c [] [db] checked fun _ => none, [⟨call, .stamp o 0⟩]⟩ :=
    ⟨_, (((((hready.act [] [] (.metadata rfl rfl hrows)).act [] [] (.choose rfl)).act [] []
      (.verify rfl)).act [] [] (.verifying rfl fun _ => rfl)).act [] [] (.verified rfl))⟩
  obtain ⟨es, hpushed⟩ : ∃ es, Ran w (fun _ => some 0) (fun _ => none) es
      ⟨c [⟨o, "", some "e3b0", true⟩] [db] checked
        (Function.update (fun _ => none) "zh_CN.sqlite" (some ("e3b0", 0))),
        [⟨call, .retain o 0⟩]⟩ :=
    ⟨_, (((((hstamped.act [] [] (.stamp rfl)).act [] [] (.prove rfl)).act [] [] .lease).act [] []
      (.leased rfl)).act [] [] (.push rfl))⟩
  have hadmitted := hpushed.act [] [] (.retain rfl)
  exact ⟨_, _, List.mem_append_right _ List.mem_cons_self, admit_sound hadmitted⟩

end PrtsMcp.Admission
