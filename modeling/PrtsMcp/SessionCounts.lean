import PrtsMcp.SessionRuns

/-!
# Counting sessions

Events and unfinished tasks of a run over the session table, counted session by session.
-/
namespace PrtsMcp.Sessions

open Interleaving JsonRpc Dispatch McpEndpoint

variable {φ α : Type}

variable (p : String → Bool)

def created : Event → Bool
  | .created id _ => p id
  | _ => false

/-- A session leaves the table. -/
def gone : Event → Bool
  | .removed id => p id
  | .evicted id _ => p id
  | _ => false

def evictedOnly : Event → Bool
  | .evicted id _ => p id
  | _ => false

def answered : Event → Bool
  | .answered id => p id
  | _ => false

def countedInitialized : Event → Bool
  | .countedInitialized id => p id
  | _ => false

def countedClosed : Event → Bool
  | .countedClosed id => p id
  | _ => false

def countedEvicted : Event → Bool
  | .countedEvicted id => p id
  | _ => false

/-- The session is in the table and not counted yet. -/
def initializing : Task φ → Bool
  | .countInitialized id _ _ => p id
  | _ => false

/-- The session has left the table and is not counted yet. -/
def closing : Task φ → Bool
  | .countClosed id => p id
  | .countEvicted id => p id
  | _ => false

def evicting : Task φ → Bool
  | .countEvicted id => p id
  | _ => false

/-- The watchdog of the session has stopped. -/
def unwatched : Event → Bool
  | .evicted id _ => p id
  | .stopped id => p id
  | _ => false

/-- The watchdog of the session, or what starts it. -/
def watching : Task φ → Bool
  | .countInitialized id _ _ => p id
  | .spawn id _ _ => p id
  | .rest id _ => p id
  | .asleep id _ => p id
  | _ => false

/-- The session's own initialization has still to be answered. -/
def answering : Task φ → Bool
  | .countInitialized id _ _ => p id
  | .spawn id _ _ => p id
  | .answer id _ _ => p id
  | _ => false

/-- Sessions are counted once for their creation, their end and their eviction. -/
structure Counted (e : Event) (before after : List (Task φ)) : Prop where
  initialized : (after.map (ind (initializing p))).sum +
    (ind (countedInitialized p) e - ind (created p) e) = (before.map (ind (initializing p))).sum
  closed : (after.map (ind (closing p))).sum +
    (ind (countedClosed p) e - ind (gone p) e) = (before.map (ind (closing p))).sum
  evicted : (after.map (ind (evicting p))).sum +
    (ind (countedEvicted p) e - ind (evictedOnly p) e) = (before.map (ind (evicting p))).sum
  answered : (after.map (ind (answering p))).sum +
    (ind (answered p) e - ind (created p) e) ≤ (before.map (ind (answering p))).sum
  watched : (after.map (ind (watching p))).sum +
    (ind (unwatched p) e - ind (created p) e) ≤ (before.map (ind (watching p))).sum

theorem counted_silent {before after : List (Task φ)}
    (hi : (after.map (ind (initializing p))).sum = (before.map (ind (initializing p))).sum)
    (hc : (after.map (ind (closing p))).sum = (before.map (ind (closing p))).sum)
    (he : (after.map (ind (evicting p))).sum = (before.map (ind (evicting p))).sum)
    (ha : (after.map (ind (answering p))).sum ≤ (before.map (ind (answering p))).sum)
    (hw : (after.map (ind (watching p))).sum ≤ (before.map (ind (watching p))).sum) :
    Counted p .silent before after := by
  constructor <;> simp [ind, countedInitialized, created, countedClosed, gone, countedEvicted,
    evictedOnly, answered, unwatched] <;> assumption

theorem acts_counted {cfg : Settings φ α} {t : Task φ} {c c' : Core} {e : Event}
    {ts : List (Task φ)} (h : Acts cfg t c e ts c') : Counted p e [t] ts := by
  cases h
  case dropped ha =>
    cases t
    case countInitialized | spawn | countClosed | rest | asleep | countEvicted =>
      simp [Task.awaits] at ha
    case answer =>
      apply counted_silent p <;> simp [ind, initializing, closing, evicting, answering, watching]
      grind
    all_goals apply counted_silent p <;> simp [ind, initializing, closing, evicting, answering, watching]
  case spawn =>
    cases cfg.timeout <;> apply counted_silent p <;>
      simp [ind, initializing, closing, evicting, answering, watching] <;> grind
  case save outcome =>
    cases outcome <;> constructor <;> simp [ind, initializing, closing, evicting, answering, watching,
      countedInitialized, created, countedClosed, gone, countedEvicted, evictedOnly, answered,
      unwatched]
  case dispatched | dispatchRefused | answer =>
    constructor <;> split <;> simp [ind, initializing, closing, evicting, answering, watching,
      countedInitialized, created, countedClosed, gone, countedEvicted, evictedOnly, answered,
      unwatched] <;>
      grind
  all_goals
    constructor <;> simp [ind, initializing, closing, evicting, answering, watching,
      countedInitialized, created, countedClosed, gone, countedEvicted, evictedOnly, answered,
      unwatched] <;>
      grind

theorem happens_counted {c c' : Core} {e : Event} {ts : List (Task φ)} (h : Happens c e ts c') :
    Counted p e [] ts := by
  cases h <;> apply counted_silent p <;> simp [ind, initializing, closing, evicting, answering, watching]

section Runs

variable {cfg : Settings φ α} {es : List Event} {x : Config Core (Task φ)}

/-- Every session created is counted, or about to be. -/
theorem Ran.initialized (h : Ran cfg es x) : es.countP (countedInitialized p) +
    x.tasks.countP (initializing p) = es.countP (created p) :=
  Run.counted h (fun h => by simpa using (acts_counted p h).initialized)
    fun h => by simpa using (happens_counted p h).initialized

/-- Every session that left the table is counted as closed, or about to be. -/
theorem Ran.closed (h : Ran cfg es x) : es.countP (countedClosed p) +
    x.tasks.countP (closing p) = es.countP (gone p) :=
  Run.counted h (fun h => by simpa using (acts_counted p h).closed)
    fun h => by simpa using (happens_counted p h).closed

/-- Every session evicted is counted as such, or about to be. -/
theorem Ran.evicted (h : Ran cfg es x) : es.countP (countedEvicted p) +
    x.tasks.countP (evicting p) = es.countP (evictedOnly p) :=
  Run.counted h (fun h => by simpa using (acts_counted p h).evicted)
    fun h => by simpa using (happens_counted p h).evicted

theorem Ran.answered (h : Ran cfg es x) : es.countP (Sessions.answered p) +
    x.tasks.countP (answering p) ≤ es.countP (created p) :=
  Run.counted_le h (fun h => by simpa using (acts_counted p h).answered)
    fun h => by simpa using (happens_counted p h).answered

theorem Ran.watched (h : Ran cfg es x) : es.countP (unwatched p) +
    x.tasks.countP (watching p) ≤ es.countP (created p) :=
  Run.counted_le h (fun h => by simpa using (acts_counted p h).watched)
    fun h => by simpa using (happens_counted p h).watched

/-- A session enters the table once and leaves it once. -/
theorem countP_keys_erase {table : List (String × Session)} (hnodup : (keys table).Nodup)
    {id : String} {s : Session} (hs : table.lookup id = some s) :
    ((keys (erase id table)).countP p : ℤ) + ind p id = (keys table).countP p := by
  have hmem : id ∈ keys table := List.mem_map_of_mem (mem_keys_of_lookup hs)
  have heq : keys (erase id table) = (keys table).erase id := by
    rw [keys_erase, hnodup.erase_eq_filter]
    apply List.filter_congr
    intro a _
    by_cases h : a = id <;> simp [h]
  have hcount := List.countP_erase p (keys table) id
  rw [heq, hcount]
  unfold ind
  by_cases hp : p id = true
  · have hpos : 0 < (keys table).countP p := List.countP_pos_iff.mpr ⟨id, hmem, hp⟩
    rw [if_pos ⟨hmem, hp⟩, if_pos hp]
    omega
  · rw [if_neg fun h => hp h.2, if_neg hp]
    omega

/-- What an act leaves of the table's ids. -/
structure Tabled (e : Event) (c c' : Core) : Prop where
  keys : ((keys c'.table).countP p : ℤ) + (ind (gone p) e - ind (created p) e) =
    (keys c.table).countP p
  issued : ((c'.issued.countP p : ℤ)) = c.issued.countP p + ind (created p) e
  once : c.issued.Nodup → c'.issued.Nodup

theorem tabled_silent {e : Event} {c c' : Core}
    (hkeys : Sessions.keys c'.table = Sessions.keys c.table) (hissued : c'.issued = c.issued)
    (hgone : gone p e = false) (hcreated : created p e = false) :
    Tabled p e c c' := by
  constructor
  · rw [hkeys, ind, ind, hgone, hcreated]
    simp
  · rw [hissued, ind, hcreated]
    simp
  · rw [hissued]
    exact fun h => h

theorem acts_tabled {t : Task φ} {c c' : Core} {e : Event} {ts : List (Task φ)}
    (h : Acts cfg t c e ts c') (hg : Good c) : Tabled p e c c' := by
  cases h
  case create id hissued hnamed =>
    have hkeys : id ∉ Sessions.keys c.table := fun h => hissued (hg.issued id h)
    refine ⟨?_, ?_, fun h => List.nodup_cons.mpr ⟨hissued, h⟩⟩
    · dsimp only
      rw [OrderedMap.insert_of_notMem hkeys, Sessions.keys, List.map_append, List.countP_append]
      by_cases hp : p id <;> simp [ind, gone, created, hp]
    · by_cases hp : p id <;> simp [ind, created, hp]
  case removeFound id s hs =>
    refine ⟨?_, by simp [ind, created], fun h => h⟩
    have hcount := countP_keys_erase p hg.nodup hs
    by_cases hp : p id <;> simpa [ind, gone, created, hp] using hcount
  case wakeIdle id due timeout s hcfg hdue hs hidle =>
    refine ⟨?_, by simp [ind, created], fun h => h⟩
    have hcount := countP_keys_erase p hg.nodup hs
    by_cases hp : p id <;> simpa [ind, gone, created, hp] using hcount
  case dispatched | dispatchRefused | answer =>
    apply tabled_silent p rfl rfl <;> split <;> rfl
  all_goals exact tabled_silent p (by simp) rfl rfl rfl

theorem happens_tabled {c c' : Core} {e : Event} {ts : List (Task φ)} (h : Happens c e ts c') :
    Tabled p e c c' := by
  cases h <;> exact tabled_silent p rfl rfl rfl rfl

/-- The sessions in the table are those created that have not left it. -/
theorem Ran.live (h : Ran cfg es x) :
    (keys x.core.table).countP p + es.countP (gone p) = es.countP (created p) := by
  have hbalanced : Balanced (machine cfg) Good (fun c => ((keys c.table).countP p : ℤ)) (fun _ => 0)
      fun e => ind (gone p) e - ind (created p) e := by
    constructor
    · intro t c e ts c' hact hg
      have htabled := (acts_tabled p hact hg).keys
      simp only [List.map_const', List.sum_replicate, smul_zero]
      omega
    · intro c e ts c' hhappens hg
      have htabled := (happens_tabled p hhappens).keys
      simp only [List.map_const', List.sum_replicate, smul_zero]
      omega
  have htotal := hbalanced.run (fun hrun => (Ran.good hrun).1) h
  simp only [total, sum_ind_sub, List.map_const', List.sum_replicate, smul_zero, List.map_nil,
    List.sum_nil, Core.new, List.countP_nil] at htotal
  omega

theorem Ran.issued (h : Ran cfg es x) : es.countP (created p) = x.core.issued.countP p := by
  have hbalanced : Balanced (machine cfg) Good (fun c => (c.issued.countP p : ℤ)) (fun _ => 0)
      fun e => -ind (created p) e := by
    constructor
    · intro t c e ts c' hact hg
      have htabled := (acts_tabled p hact hg).issued
      simp only [List.map_const', List.sum_replicate, smul_zero]
      omega
    · intro c e ts c' hhappens hg
      have htabled := (happens_tabled p hhappens).issued
      simp only [List.map_const', List.sum_replicate, smul_zero]
      omega
  have htotal := hbalanced.run (fun hrun => (Ran.good hrun).1) h
  have hsum : (es.map fun e => -ind (created p) e).sum = -(es.countP (created p) : ℤ) := by
    rw [← sum_ind, List.sum_neg, List.map_map]
    rfl
  simp only [total, hsum, List.map_const', List.sum_replicate, smul_zero, List.map_nil,
    List.sum_nil, Core.new, List.countP_nil] at htotal
  omega

theorem Ran.issued_nodup (h : Ran cfg es x) : x.core.issued.Nodup := by
  induction h with
  | nil => exact List.nodup_nil
  | snoc hrun hstep ih =>
    have hgood := (Ran.good hrun).1
    cases hstep with
    | act l r hact => exact (acts_tabled (fun _ => true) hact hgood).once ih
    | happen l hhappens => exact (happens_tabled (fun _ => true) hhappens).once ih

theorem Ran.created_once (h : Ran cfg es x) (id : String) :
    es.countP (created (· == id)) ≤ 1 := by
  rw [h.issued]
  exact List.nodup_iff_count_le_one.mp h.issued_nodup id

end Runs

end PrtsMcp.Sessions
