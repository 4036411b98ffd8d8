import PrtsMcp.SessionCounts

/-!
# The life of a session

From its creation to its removal or eviction: when it was last touched, what its watchdog does, and
what the table and the counters say of it in every run.
-/
namespace PrtsMcp.Sessions

open Interleaving JsonRpc Dispatch McpEndpoint

variable {φ α : Type} {cfg : Settings φ α} {es : List Event} {x : Config Core (Task φ)}

/-! ## Touches -/

def touchTime (id : String) : Event → Option ℕ
  | .created id' time => if id' = id then some time else none
  | .touched id' time => if id' = id then some time else none
  | _ => none

/-- When the session was touched last; its creation counts. -/
def lastTouch (es : List Event) (id : String) : Option ℕ := es.reverse.findSome? (touchTime id)

theorem lastTouch_snoc (es : List Event) (e : Event) (id : String) :
    lastTouch (es ++ [e]) id = (touchTime id e).or (lastTouch es id) := by
  unfold lastTouch
  rw [List.reverse_append, List.reverse_singleton, List.singleton_append, List.findSome?_cons]
  cases touchTime id e <;> rfl

/-- The table's times are those of the last touches. -/
def Stamped (es : List Event) (c : Core) : Prop :=
  ∀ entry ∈ c.table,
    lastTouch es entry.1 = some entry.2.lastActivity ∧ entry.2.lastActivity ≤ c.now

theorem Stamped.keep {e : Event} {c c' : Core} (h : Stamped es c) (hnow : c.now ≤ c'.now)
    (he : ∀ id, touchTime id e = none)
    (htable : ∀ entry ∈ c'.table, ∃ s, (entry.1, s) ∈ c.table ∧
      s.lastActivity = entry.2.lastActivity) : Stamped (es ++ [e]) c' := by
  intro entry hentry
  obtain ⟨s, hs, hsame⟩ := htable entry hentry
  obtain ⟨hlast, hle⟩ := h _ hs
  rw [lastTouch_snoc, he, ← hsame]
  exact ⟨hlast, hle.trans hnow⟩

theorem Stamped.written {id : String} {c : Core} (h : Stamped es c) (state : ConnectionState) :
    Stamped (es ++ [.wrote id])
      { c with table := update id (fun s => { s with state }) c.table } := by
  refine h.keep (le_refl c.now) (fun _ => rfl) fun entry hentry => ?_
  have hmem : entry ∈ update id (fun s => { s with state }) c.table := hentry
  rcases mem_update hmem with ⟨hold, -⟩ | ⟨s, hs, rfl⟩
  · exact ⟨_, hold, rfl⟩
  · exact ⟨s, hs, rfl⟩

theorem acts_stamped {t : Task φ} {c c' : Core} {e : Event} {ts : List (Task φ)}
    (h : Acts cfg t c e ts c') (hg : Good c) (hc : Stamped es c) : Stamped (es ++ [e]) c' := by
  cases h
  case touchFound id body s hs =>
    intro entry hentry
    have hmem : entry ∈ update id (fun s => { s with lastActivity := c.now }) c.table := hentry
    rw [lastTouch_snoc]
    rcases mem_update hmem with ⟨hold, hne⟩ | ⟨s, -, rfl⟩
    · rw [touchTime, if_neg fun h => hne h.symm]
      exact hc _ hold
    · simp [touchTime]
  case create channel body id hissued hnamed =>
    have hkeys : id ∉ keys c.table := fun h => hissued (hg.issued id h)
    intro entry hentry
    dsimp only at hentry ⊢
    rw [OrderedMap.insert_of_notMem hkeys] at hentry
    rw [lastTouch_snoc]
    rcases List.mem_append.mp hentry with hold | hnew
    · have hne : id ≠ entry.1 := by
        rintro rfl
        exact hkeys (List.mem_map_of_mem hold)
      rw [touchTime, if_neg hne]
      exact hc _ hold
    · rw [List.mem_singleton.mp hnew]
      simp [touchTime]
  case write id state => exact hc.written state
  case save id state outcome => exact hc.written state
  case removeFound | wakeIdle =>
    exact hc.keep le_rfl (fun _ => rfl) fun entry hentry => ⟨_, (mem_erase.mp hentry).1, rfl⟩
  case dispatched | dispatchRefused | answer =>
    apply hc.keep le_rfl (fun _ => by split <;> rfl)
    exact fun entry hentry => ⟨_, hentry, rfl⟩
  all_goals exact hc.keep le_rfl (fun _ => rfl) fun entry hentry => ⟨_, hentry, rfl⟩

theorem happens_stamped {c c' : Core} {e : Event} {ts : List (Task φ)} (h : Happens c e ts c')
    (hc : Stamped es c) : Stamped (es ++ [e]) c' := by
  cases h with
  | tick hnow => exact hc.keep hnow (fun _ => rfl) fun entry hentry => ⟨_, hentry, rfl⟩
  | post => exact hc.keep le_rfl (fun _ => rfl) fun entry hentry => ⟨_, hentry, rfl⟩
  | delete => exact hc.keep le_rfl (fun _ => rfl) fun entry hentry => ⟨_, hentry, rfl⟩

theorem Ran.stamped (h : Ran cfg es x) : Stamped es x.core := by
  induction h with
  | nil => simp [Stamped, Core.new]
  | snoc hrun hstep ih =>
    have hgood := (Ran.good hrun).1
    cases hstep with
    | act l r hact => exact acts_stamped hact hgood ih
    | happen l hhappens => exact happens_stamped hhappens ih

/-! ## After the end -/

/-- A session that was there and is not. -/
def Dead (id : String) (c : Core) : Prop := id ∈ c.issued ∧ id ∉ keys c.table

/-- What says that a session is there. -/
def speaks (id : String) : Event → Prop
  | .created id' _ => id' = id
  | .touched id' _ => id' = id
  | .removed id' => id' = id
  | .evicted id' _ => id' = id
  | .rearmed id' _ _ => id' = id
  | _ => False

theorem Dead.lookup {id : String} {c : Core} (h : Dead id c) : c.table.lookup id = none :=
  lookup_eq_none_iff.mpr h.2

theorem acts_dead {t : Task φ} {c c' : Core} {e : Event} {ts : List (Task φ)} {id : String}
    (h : Acts cfg t c e ts c') (hg : Good c) (hd : Dead id c) : Dead id c' ∧ ¬ speaks id e := by
  have hfound {id' : String} {s : Session} (hs : c.table.lookup id' = some s) : id' ≠ id := by
    rintro rfl
    rw [hd.lookup] at hs
    cases hs
  have herase (id' : String) : id ∉ keys (erase id' c.table) := by
    rw [keys_erase]
    exact fun h => hd.2 (List.mem_of_mem_filter h)
  cases h
  case create channel body id' hissued hnamed =>
    have hne : id' ≠ id := fun h => hissued (h ▸ hd.1)
    have hkeys : id' ∉ keys c.table := fun h => hissued (hg.issued id' h)
    refine ⟨⟨List.mem_cons_of_mem _ hd.1, ?_⟩, hne⟩
    dsimp only
    rw [OrderedMap.insert_of_notMem hkeys, keys, List.map_append, List.mem_append]
    rintro (h | h)
    · exact hd.2 h
    · exact hne (List.mem_singleton.mp h).symm
  case touchFound hs => exact ⟨⟨hd.1, by simpa using hd.2⟩, hfound hs⟩
  case write | save => exact ⟨⟨hd.1, by simpa using hd.2⟩, fun h => h⟩
  case removeFound hs => exact ⟨⟨hd.1, herase _⟩, hfound hs⟩
  case wakeIdle hs _ => exact ⟨⟨hd.1, herase _⟩, hfound hs⟩
  case wakeActive hs _ => exact ⟨hd, hfound hs⟩
  case dispatched | dispatchRefused | answer =>
    refine ⟨hd, ?_⟩
    split <;> exact fun h => h
  all_goals exact ⟨hd, fun h => h⟩

theorem happens_dead {c c' : Core} {e : Event} {ts : List (Task φ)} {id : String}
    (h : Happens c e ts c') (hd : Dead id c) : Dead id c' ∧ ¬ speaks id e := by
  cases h <;> exact ⟨hd, fun h => h⟩

/-- A session that is gone does not come back, and nothing more is heard of it. -/
theorem Dead.run {id : String} {y : Config Core (Task φ)} {fs : List Event} (hd : Dead id x.core)
    (h : Ran cfg es x) (hrun : Run (machine cfg) x fs y) :
    Dead id y.core ∧ ∀ e ∈ fs, ¬ speaks id e := by
  have hboth : Ran cfg (es ++ fs) y ∧ Dead id y.core ∧ ∀ e ∈ fs, ¬ speaks id e := by
    induction hrun with
    | nil => exact ⟨by simpa using h, hd, by simp⟩
    | @snoc fs e _ next hpre hstep ih =>
      obtain ⟨hran, hdead, hquiet⟩ := ih
      refine ⟨by simpa using hran.snoc hstep, ?_⟩
      have hgood := hran.good.1
      have hnext : Dead id next.core ∧ ¬ speaks id e := by
        cases hstep with
        | act l r hact => exact acts_dead hact hgood hdead
        | happen l hhappens => exact happens_dead hhappens hdead
      refine ⟨hnext.1, fun e' he' => ?_⟩
      rcases List.mem_append.mp he' with he' | he'
      · exact hquiet e' he'
      · rw [List.mem_singleton.mp he']
        exact hnext.2
  exact hboth.2

/-- An act that takes a session out of the table leaves it dead. -/
theorem acts_gone {t : Task φ} {c c' : Core} {e : Event} {ts : List (Task φ)} {id : String}
    (h : Acts cfg t c e ts c') (hg : Good c) (he : gone (· == id) e = true) : Dead id c' := by
  have herase {id' : String} {s : Session} (hs : c.table.lookup id' = some s)
      (hid : (id' == id) = true) : Dead id { c with table := erase id' c.table } := by
    obtain rfl := eq_of_beq hid
    refine ⟨hg.issued _ (List.mem_map_of_mem (mem_keys_of_lookup hs)), ?_⟩
    dsimp only
    rw [keys_erase]
    simp
  cases h
  case removeFound hs => exact herase hs he
  case wakeIdle hs _ => exact herase hs he
  case dispatched | dispatchRefused | answer =>
    split at he <;> cases he
  all_goals cases he

theorem Ran.dead {e : Event} {pre post : List Event} {id : String}
    (h : Ran cfg (pre ++ e :: post) x) (he : gone (· == id) e = true) :
    Dead id x.core ∧ ∀ e' ∈ post, ¬ speaks id e' := by
  obtain ⟨y, z, hy, hstep, hz, hrest⟩ := h.around
  have hdead : Dead id z.core := by
    cases hstep with
    | act l r hact => exact acts_gone hact (Ran.good hy).1 he
    | happen l hhappens => cases hhappens <;> cases he
  exact hdead.run hz hrest

/-! ## The watchdog -/

theorem Ran.event {e : Event} (h : Ran cfg es x) (he : e ∈ es) :
    ∃ pre post y z, es = pre ++ e :: post ∧ Ran cfg pre y ∧ Step (machine cfg) y e z := by
  obtain ⟨pre, post, rfl⟩ := List.append_of_mem he
  obtain ⟨y, z, hy, hstep, -, -⟩ := h.around
  exact ⟨pre, post, y, z, rfl, hy, hstep⟩

/-- Nothing is evicted before the timeout has passed since its last touch. -/
theorem Ran.idle {pre post : List Event} {id : String} {time : ℕ}
    (h : Ran cfg (pre ++ .evicted id time :: post) x) :
    ∃ last timeout, lastTouch pre id = some last ∧ cfg.timeout = some timeout ∧
      last + timeout ≤ time := by
  obtain ⟨y, z, hy, hstep, -, -⟩ := h.around
  have hstamped := Ran.stamped hy
  generalize he : Event.evicted id time = e at hstep
  cases hstep with
  | act l r hact =>
    cases hact
    case wakeIdle id' due timeout s hcfg hdue hs hidle =>
      cases he
      obtain ⟨hlast, hle⟩ := hstamped _ (mem_keys_of_lookup hs)
      refine ⟨s.lastActivity, timeout, hlast, hcfg, ?_⟩
      dsimp only at hle hidle ⊢
      omega
    case dispatched | dispatchRefused | answer => split at he <;> cases he
    all_goals cases he
  | happen l hhappens => cases hhappens <;> cases he

/-- A watchdog that goes on sleeps for what is left of the timeout. -/
theorem Ran.rearm {id : String} {idle delay : ℕ} (h : Ran cfg es x)
    (he : Event.rearmed id idle delay ∈ es) :
    ∃ timeout, cfg.timeout = some timeout ∧ idle < timeout ∧ idle + delay = timeout := by
  obtain ⟨pre, post, y, z, -, -, hstep⟩ := h.event he
  generalize he : Event.rearmed id idle delay = e at hstep
  cases hstep with
  | act l r hact =>
    cases hact
    case wakeActive id' due timeout s hcfg hdue hs hidle =>
      cases he
      exact ⟨timeout, hcfg, hidle, by omega⟩
    case dispatched | dispatchRefused | answer => split at he <;> cases he
    all_goals cases he
  | happen l hhappens => cases hhappens <;> cases he

/-- No session accepts an initialization after its own. -/
theorem Ran.accepted_notMem {id : String} (h : Ran cfg es x) : Event.accepted id ∉ es := by
  intro he
  obtain ⟨pre, post, y, z, -, hy, hstep⟩ := h.event he
  have htasks := (Ran.good hy).2
  generalize he : Event.accepted id = e at hstep
  cases hstep with
  | @act t c c' e ts l r hact =>
    have ht := htasks t (List.mem_append_right l List.mem_cons_self)
    cases hact
    case dispatched | dispatchRefused =>
      have hrefuses : ∀ (state : ConnectionState) (body : JsonValue φ),
          state.legacyInitialized = true → accepts state body = false := by
        intro state body hflag
        simp [accepts, hflag]
      rw [hrefuses _ _ ht] at he
      cases he
    case answer => split at he <;> cases he
    all_goals cases he
  | happen l hhappens => cases hhappens <;> cases he

/-! ## The counters -/

theorem countOn_ofNat (n : ℕ) : countOn true (UInt64.ofNat n) = UInt64.ofNat (n + 1) := by
  rw [countOn, if_pos rfl, UInt64.ofNat_add]
  rfl

/-- What the counters say of the events. -/
structure Counters (es : List Event) (c : Core) : Prop where
  initialized : c.initialized = UInt64.ofNat (es.countP (countedInitialized fun _ => true))
  closed : c.closed = UInt64.ofNat (es.countP (countedClosed fun _ => true))
  evicted : c.evicted = UInt64.ofNat (es.countP (countedEvicted fun _ => true))

theorem Counters.keep {e : Event} {c c' : Core} (h : Counters es c)
    (hi : countedInitialized (fun _ => true) e = false)
    (hc : countedClosed (fun _ => true) e = false) (he : countedEvicted (fun _ => true) e = false)
    (hinitialized : c'.initialized = c.initialized) (hclosed : c'.closed = c.closed)
    (hevicted : c'.evicted = c.evicted) : Counters (es ++ [e]) c' := by
  constructor
  · simp [List.countP_append, hi, hinitialized, h.initialized]
  · simp [List.countP_append, hc, hclosed, h.closed]
  · simp [List.countP_append, he, hevicted, h.evicted]

theorem acts_counters (hmetrics : cfg.metrics = true) {t : Task φ} {c c' : Core} {e : Event}
    {ts : List (Task φ)} (h : Acts cfg t c e ts c') (hc : Counters es c) :
    Counters (es ++ [e]) c' := by
  cases h
  case countInitialized =>
    refine ⟨?_, by simp [countedClosed, hc.closed], by simp [countedEvicted, hc.evicted]⟩
    dsimp only
    rw [hmetrics, hc.initialized, countOn_ofNat, List.countP_append]
    rfl
  case countClosed =>
    refine ⟨by simp [countedInitialized, hc.initialized], ?_, by simp [countedEvicted, hc.evicted]⟩
    dsimp only
    rw [hmetrics, hc.closed, countOn_ofNat, List.countP_append]
    rfl
  case countEvicted =>
    refine ⟨by simp [countedInitialized, hc.initialized], by simp [countedClosed, hc.closed], ?_⟩
    dsimp only
    rw [hmetrics, hc.evicted, countOn_ofNat, List.countP_append]
    rfl
  case dispatched | dispatchRefused | answer =>
    apply hc.keep _ _ _ rfl rfl rfl <;> split <;> rfl
  all_goals exact hc.keep rfl rfl rfl rfl rfl rfl

theorem Ran.counters (hmetrics : cfg.metrics = true) (h : Ran cfg es x) :
    Counters es x.core := by
  induction h with
  | nil => exact ⟨rfl, rfl, rfl⟩
  | snoc hrun hstep ih =>
    cases hstep with
    | act l r hact => exact acts_counters hmetrics hact ih
    | happen l hhappens => cases hhappens <;> exact ih.keep rfl rfl rfl rfl rfl rfl

/-! ## Every run -/

/-- No session is between its entry into the table, or its end there, and its count. -/
def Settled (x : Config Core (Task φ)) : Prop :=
  ∀ t ∈ x.tasks, initializing (fun _ => true) t = false ∧ closing (fun _ => true) t = false

theorem Ran.length_table (h : Ran cfg es x) (hsettled : Settled x) :
    es.countP (countedInitialized fun _ => true) =
      es.countP (countedClosed fun _ => true) + x.core.table.length := by
  have hinitializing : x.tasks.countP (initializing fun _ => true) = 0 :=
    List.countP_eq_zero.mpr fun t ht => by simp [(hsettled t ht).1]
  have hclosing : x.tasks.countP (closing fun _ => true) = 0 :=
    List.countP_eq_zero.mpr fun t ht => by simp [(hsettled t ht).2]
  have hlive := h.live fun _ => true
  have hinitialized := h.initialized fun _ => true
  have hclosed := h.closed fun _ => true
  rw [List.countP_true, List.length_map] at hlive
  omega

theorem Ran.gone_once (h : Ran cfg es x) (id : String) : es.countP (gone (· == id)) ≤ 1 := by
  have hlive := h.live (· == id)
  have honce := h.created_once id
  omega

theorem countP_evictedOnly_le (p : String → Bool) (es : List Event) :
    es.countP (evictedOnly p) ≤ es.countP (gone p) := by
  apply List.countP_mono_left
  intro e _ he
  cases e <;> first | exact he | cases he

/-- What holds of the table, its counters and its watchdogs. -/
structure Kept (cfg : Settings φ α) (es : List Event) (x : Config Core (Task φ)) : Prop where
  /-- The initialized count less the closed count is the number of live sessions. -/
  live : cfg.metrics = true → Settled x →
    x.core.initialized - x.core.closed = UInt64.ofNat x.core.table.length
  counters : cfg.metrics = true → Counters es x.core
  length : Settled x → es.countP (countedInitialized fun _ => true) =
    es.countP (countedClosed fun _ => true) + x.core.table.length
  closedOnce : ∀ id, es.countP (countedClosed (· == id)) ≤ 1
  evictedOnce : ∀ id, es.countP (countedEvicted (· == id)) ≤ 1
  /-- Nothing is evicted before the timeout has passed since its last touch. -/
  idle : ∀ id time pre post, es = pre ++ .evicted id time :: post →
    ∃ last timeout, lastTouch pre id = some last ∧ cfg.timeout = some timeout ∧
      last + timeout ≤ time
  /-- What was removed or evicted does not come back, whatever is written. -/
  ended : ∀ id e pre post, es = pre ++ e :: post → gone (· == id) e = true →
    id ∉ keys x.core.table ∧ ∀ e' ∈ post, ¬ speaks id e'
  rearms : ∀ id idle delay, Event.rearmed id idle delay ∈ es →
    ∃ timeout, cfg.timeout = some timeout ∧ idle < timeout ∧ idle + delay = timeout
  /-- A watchdog that wakes after the end of its session stops. -/
  wakes : ∀ id due e ts c, Dead id x.core → Acts cfg (.asleep id due) x.core e ts c →
    e = .stopped id ∧ ts = []
  /-- No watchdog is left of a session whose watchdog has stopped. -/
  stops : ∀ id, 0 < es.countP (unwatched (· == id)) → x.tasks.countP (watching (· == id)) = 0
  answersOnce : ∀ id, es.countP (answered (· == id)) ≤ 1
  refuses : ∀ id, Event.accepted id ∉ es

theorem sessions_kept (h : Ran cfg es x) : Kept cfg es x where
  live hmetrics hsettled := by
    have hcounters := h.counters hmetrics
    rw [hcounters.initialized, hcounters.closed, h.length_table hsettled, UInt64.ofNat_add,
      UInt64.add_comm, UInt64.add_sub_cancel]
  counters hmetrics := h.counters hmetrics
  length hsettled := h.length_table hsettled
  closedOnce id := by
    have hclosed := h.closed (· == id)
    have honce := h.gone_once id
    omega
  evictedOnce id := by
    have hevicted := h.evicted (· == id)
    have honce := h.gone_once id
    have hle := countP_evictedOnly_le (· == id) es
    omega
  idle id time pre post heq := by
    subst heq
    exact h.idle
  ended id e pre post heq he := by
    subst heq
    obtain ⟨hdead, hquiet⟩ := h.dead he
    exact ⟨hdead.2, hquiet⟩
  rearms id idle delay he := h.rearm he
  wakes id due e ts c hdead hact := by
    cases hact
    case wakeLost => exact ⟨rfl, rfl⟩
    case wakeIdle hs _ => rw [hdead.lookup] at hs; cases hs
    case wakeActive hs _ => rw [hdead.lookup] at hs; cases hs
    case dropped ha => cases ha
  stops id hpos := by
    have hwatched := h.watched (· == id)
    have honce := h.created_once id
    omega
  answersOnce id := by
    have hanswered := h.answered (· == id)
    have honce := h.created_once id
    omega
  refuses id := h.accepted_notMem

theorem Ran.act {t : Task φ} {c c' : Core} {e : Event} {ts : List (Task φ)} (l r : List (Task φ))
    (h : Ran cfg es ⟨c, l ++ t :: r⟩) (hact : Acts cfg t c e ts c') :
    Ran cfg (es ++ [e]) ⟨c', l ++ (ts ++ r)⟩ :=
  h.snoc (.act l r hact)

theorem Ran.happen {c c' : Core} {e : Event} {l ts : List (Task φ)} (h : Ran cfg es ⟨c, l⟩)
    (hhappens : Happens c e ts c') : Ran cfg (es ++ [e]) ⟨c', l ++ ts⟩ :=
  h.snoc (.happen l hhappens)

/-- A session that is initialized, left alone for seven seconds and evicted. -/
theorem sessions_kept_evicted :
    let shared : Shared ℕ Unit :=
      ⟨⟨"1.0.0", [], fun _ => ""⟩, .content, fun _ => none, fun _ => .error "EOF"⟩
    let body : JsonValue ℕ := .object [("method", .string "initialize")]
    Kept ⟨shared, some 5, true⟩
      [.silent, .silent, .created "a" 0, .countedInitialized "a", .silent, .silent, .silent,
        .evicted "a" 7, .countedEvicted "a", .countedClosed "a"]
      ⟨⟨7, [], 1, 1, 1, ["a"], [], []⟩, [.answer "a" .content body]⟩ := by
  intro shared body
  have hinit : isInit body = true := rfl
  let request : Request := ⟨.post, none, ⟨none, none, none, none, none, none⟩, []⟩
  have hnone : ∀ id, request.headers.sessionId ≠ some id := fun _ h => by cases h
  have hpost : Happens .new .silent [.post request body] .new :=
    .post fun id hid => absurd hid (hnone id)
  have htick (c : Core) (h : c.now ≤ 7) :
      Happens c .silent ([] : List (Task ℕ)) { c with now := 7 } := .tick h
  have hstart : Ran ⟨shared, some 5, true⟩ [] ⟨.new, []⟩ := .nil
  have hcreated : Ran _ [.silent, .silent, .created "a" 0] ⟨_, [.countInitialized "a" _ body]⟩ :=
    ((hstart.happen hpost).act [] []
      (.lookupInit (fun id hid => absurd hid (hnone id)) hinit)).act [] []
        (.create (fun h => by cases h) fun h => by cases h)
  have hslept := (((hcreated.act [] [] .countInitialized).act [] [] .spawn).act
    [.answer "a" .content body] [] .rest).happen (htick _ (Nat.zero_le 7))
  have hevicted := hslept.act [.answer "a" .content body] []
    (.wakeIdle (by decide) rfl rfl (by decide : 5 ≤ 7 - 0))
  exact sessions_kept ((hevicted.act [.answer "a" .content body] [] .countEvicted).act
    [.answer "a" .content body] [] .countClosed)

end PrtsMcp.Sessions
