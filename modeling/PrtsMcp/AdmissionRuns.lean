import PrtsMcp.Admission

/-!
# Runs of admissions

What a call knows of the file under the token it observed, at every stage and whatever becomes of
the files meanwhile.
-/
namespace PrtsMcp.Admission

open Interleaving

variable {w : World}

/-! ## Tokens in time -/

/-- The token has been its file's. -/
def Seen (c : Core) (a : Token) : Prop := a.2 ≤ c.changes a.1

/-- A later core of the process. A path that shows a token of before has shown it all along. -/
structure Later (c c' : Core) : Prop where
  changes : ∀ file, c.changes file ≤ c'.changes file
  back : ∀ path a, c'.pathToken path = some a → Seen c a → c.pathToken path = some a
  handles : c.handles <+: c'.handles

/-- What holds if the path still shows the observed token. -/
def AtPath (c : Core) (o : Observation) (P : Prop) : Prop :=
  c.pathToken o.path = some o.token → P

/-- What holds if the token is still its file's. -/
def Live (c : Core) (a : Token) (P : Prop) : Prop := c.changes a.1 = a.2 → P

section Tokens

variable {c c' : Core} {a : Token} {path : String} {P Q : Prop}

theorem changes_of_pathToken (h : c.pathToken path = some a) : c.changes a.1 = a.2 := by
  obtain ⟨file, -, rfl⟩ := Option.map_eq_some_iff.mp h
  rfl

theorem seen_of_pathToken (h : c.pathToken path = some a) : Seen c a :=
  (changes_of_pathToken h).ge

theorem seen_token (c : Core) (file : ℕ) : Seen c (c.token file) := le_rfl

theorem file_of_pathToken {file : ℕ} (h : c.pathToken path = some a)
    (hfile : c.paths path = some file) : file = a.1 := by
  rw [Core.pathToken, hfile] at h
  obtain rfl := Option.some.inj h
  rfl

theorem token_of_changes (h : c.changes a.1 = a.2) : c.token a.1 = a := by
  rw [Core.token, h]

theorem Later.refl (c : Core) : Later c c := ⟨fun _ => le_rfl, fun _ _ h _ => h, List.prefix_rfl⟩

theorem Seen.later (h : Seen c a) (hl : Later c c') : Seen c' a := h.trans (hl.changes _)

theorem AtPath.later {o : Observation} (h : AtPath c o P) (hl : Later c c')
    (ho : Seen c o.token) (hpq : P → Q) : AtPath c' o Q :=
  fun hpath => hpq (h (hl.back _ _ hpath ho))

theorem Live.later (h : Live c a P) (hl : Later c c') (ha : Seen c a) (hpq : P → Q) :
    Live c' a Q :=
  fun hchanges => hpq (h (le_antisymm ((hl.changes _).trans hchanges.le) ha))

theorem AtPath.of_current {o : Observation} (h : AtPath c o P) (hc : c.current o = true) : P := by
  simp only [Core.current, Bool.and_eq_true, decide_eq_true_eq] at hc
  exact h hc.2

theorem pathToken_of_current {o : Observation} (hc : c.current o = true) :
    c.pathToken o.path = some o.token := by
  simp only [Core.current, Bool.and_eq_true, decide_eq_true_eq] at hc
  exact hc.2

theorem getElem?_later {db : ℕ} {g : GameDb} (h : c.handles[db]? = some g) (hl : Later c c') :
    c'.handles[db]? = some g := by
  obtain ⟨rest, hrest⟩ := hl.handles
  rw [← hrest, List.getElem?_append_left (List.getElem?_eq_some_iff.mp h).1]
  exact h

end Tokens

/-! ## What is known of a call's file -/

/-- The full structural check of the file under this token has been carried out. -/
def Checked (es : List Event) (a : Token) : Prop := Event.checked a a ∈ es

/-- The call has hashed the file, or a receipt covers it. -/
def Established (es : List Event) (call : Call) (e : Expected) (a : Token) : Prop :=
  Event.hashed call.id a e.sha256 ∈ es ∨
    ∃ r, Event.reused call.id r ∈ es ∧ r.observed.token = a ∧
      r.covers call.path e.sha256 call.strict = true

def Sized (w : World) (call : Call) (a : Token) : Prop :=
  ∀ e, call.expected = some e → (w.bytes a).length = e.size

def Hashed (w : World) (es : List Event) (call : Call) (a : Token) : Prop :=
  ∀ e, call.expected = some e → w.sha256 (w.bytes a) = e.sha256 ∧ Established es call e a

/-- The observation of a call. -/
def Observed (c : Core) (call : Call) (o : Observation) : Prop :=
  o.path = call.path ∧ Seen c o.token

/-- What authentication says of the file. -/
structure Authentic (w : World) (es : List Event) (call : Call) (reused : Bool) (a : Token) :
    Prop where
  sized : Sized w call a
  hashed : Hashed w es call a
  checked : reused = true → call.strict = true → Checked es a

/-- The handle is that of the observed file, if the path still shows it. -/
def Handle (c : Core) (call : Call) (o : Observation) (db : ℕ) : Prop :=
  ∃ g, c.handles[db]? = some g ∧ g.path = call.path ∧ AtPath c o (g.identity = o.token)

/-- The check of the handle has found its file as it was opened, or the file has changed since. -/
def Passed (es : List Event) (c : Core) (db : ℕ) : Prop :=
  ∃ g, c.handles[db]? = some g ∧ Seen c g.identity ∧ Live c g.identity (Checked es g.identity)

/-- The check of the handle has started from the file as it was opened. -/
def Started (c : Core) (db : ℕ) (first : Token) : Prop :=
  ∃ g, c.handles[db]? = some g ∧ Seen c g.identity ∧ Live c g.identity (first = g.identity)

def Own (c : Core) (call : Call) (o : Observation) (db : ℕ) : Prop :=
  ∃ g, c.handles[db]? = some g ∧ g.path = call.path ∧ g.identity = o.token

/-- What a call relies on. -/
def Holds (w : World) (es : List Event) (c : Core) (t : Task) : Prop :=
  match t.stage with
  | .flight | .begin | .observe _ => True
  | .size o => Observed c t.call o
  | .receipt o | .hash o => Observed c t.call o ∧ AtPath c o (Sized w t.call o.token)
  | .hashing o file read => Observed c t.call o ∧
    AtPath c o (Sized w t.call o.token ∧ file = o.token.1 ∧ read <+: w.bytes o.token)
  | .authenticated o reused => Observed c t.call o ∧
    AtPath c o (Authentic w es t.call reused o.token)
  | .cached o reused | .opening o reused | .opened o reused _ =>
    Observed c t.call o ∧ Authentic w es t.call reused o.token
  | .connect o reused inner => Observed c t.call o ∧ Authentic w es t.call reused o.token ∧
    Observed c t.call inner
  | .connected o reused inner file | .publish o reused inner file => Observed c t.call o ∧
    Authentic w es t.call reused o.token ∧ Observed c t.call inner ∧
      AtPath c inner (file = inner.token.1)
  | .ready o reused db | .metadata o reused db => Observed c t.call o ∧
    Authentic w es t.call reused o.token ∧ Handle c t.call o db
  | .reuse o db => Observed c t.call o ∧ Authentic w es t.call true o.token ∧ Handle c t.call o db
  | .choose o db | .verify o db | .custom o db => Observed c t.call o ∧
    Authentic w es t.call false o.token ∧ Handle c t.call o db
  | .verifying o db first | .customVerifying o db first => Observed c t.call o ∧
    Authentic w es t.call false o.token ∧ Handle c t.call o db ∧ Started c db first
  | .verified o db full => Observed c t.call o ∧ Authentic w es t.call false o.token ∧
    Handle c t.call o db ∧ (t.call.strict = true → full = true) ∧ (full = true → Passed es c db)
  | .customLevel o db | .customDone o db => Observed c t.call o ∧
    Authentic w es t.call false o.token ∧ Handle c t.call o db ∧
      (t.call.strict = true → Passed es c db)
  | .stamp o db => Observed c t.call o ∧ Authentic w es t.call false o.token ∧
    Own c t.call o db ∧ Checked es o.token
  | .prove o db full | .lease o db full | .leased o db full | .push o db full =>
    Observed c t.call o ∧ Authentic w es t.call false o.token ∧ Own c t.call o db ∧
      (t.call.strict = true → full = true) ∧ (full = true → Checked es o.token)
  | .retain o db => Observed c t.call o ∧ Authentic w es t.call false o.token ∧
    Own c t.call o db ∧ (t.call.strict = true → Checked es o.token)

section Holding

variable {es : List Event} {e : Event} {c c' : Core} {call : Call} {o : Observation} {db : ℕ}
  {reused : Bool} {a : Token}

theorem Checked.snoc (h : Checked es a) (e : Event) : Checked (es ++ [e]) a :=
  List.mem_append_left _ h

theorem Established.snoc {x : Expected} (h : Established es call x a) (e : Event) :
    Established (es ++ [e]) call x a := by
  rcases h with h | ⟨r, hr, htoken, hcovers⟩
  · exact .inl (List.mem_append_left _ h)
  · exact .inr ⟨r, List.mem_append_left _ hr, htoken, hcovers⟩

theorem Hashed.snoc (h : Hashed w es call a) (e : Event) : Hashed w (es ++ [e]) call a :=
  fun x hx => ⟨(h x hx).1, (h x hx).2.snoc e⟩

theorem Authentic.snoc (h : Authentic w es call reused a) (e : Event) :
    Authentic w (es ++ [e]) call reused a :=
  ⟨h.sized, h.hashed.snoc e, fun hr hs => (h.checked hr hs).snoc e⟩

theorem Observed.later (h : Observed c call o) (hl : Later c c') : Observed c' call o :=
  ⟨h.1, h.2.later hl⟩

theorem Handle.later (h : Handle c call o db) (ho : Observed c call o) (hl : Later c c') :
    Handle c' call o db := by
  obtain ⟨g, hg, hpath, hidentity⟩ := h
  exact ⟨g, getElem?_later hg hl, hpath, hidentity.later hl ho.2 fun h => h⟩

theorem Own.later (h : Own c call o db) (hl : Later c c') : Own c' call o db := by
  obtain ⟨g, hg, hpath, hidentity⟩ := h
  exact ⟨g, getElem?_later hg hl, hpath, hidentity⟩

theorem Passed.later (h : Passed es c db) (hl : Later c c') (e : Event) :
    Passed (es ++ [e]) c' db := by
  obtain ⟨g, hg, hseen, hlive⟩ := h
  exact ⟨g, getElem?_later hg hl, hseen.later hl, hlive.later hl hseen fun h => h.snoc e⟩

theorem Started.later {first : Token} (h : Started c db first) (hl : Later c c') :
    Started c' db first := by
  obtain ⟨g, hg, hseen, hlive⟩ := h
  exact ⟨g, getElem?_later hg hl, hseen.later hl, hlive.later hl hseen fun h => h⟩

/-- What a call relies on outlasts the acts of others and the changes of files. -/
theorem Holds.later {t : Task} (h : Holds w es c t) (hl : Later c c') (e : Event) :
    Holds w (es ++ [e]) c' t := by
  obtain ⟨call, stage⟩ := t
  cases stage with
  | flight | begin | observe => trivial
  | size => exact Observed.later h hl
  | receipt | hash => exact ⟨h.1.later hl, h.2.later hl h.1.2 fun h => h⟩
  | hashing => exact ⟨h.1.later hl, h.2.later hl h.1.2 fun h => h⟩
  | authenticated => exact ⟨h.1.later hl, h.2.later hl h.1.2 fun h => h.snoc e⟩
  | cached | opening | opened => exact ⟨h.1.later hl, h.2.snoc e⟩
  | connect => exact ⟨h.1.later hl, h.2.1.snoc e, h.2.2.later hl⟩
  | connected | publish =>
    obtain ⟨ho, ha, hi, hfile⟩ := h
    exact ⟨ho.later hl, ha.snoc e, hi.later hl, hfile.later hl hi.2 fun h => h⟩
  | ready | metadata | reuse | choose | verify | custom =>
    exact ⟨h.1.later hl, h.2.1.snoc e, h.2.2.later h.1 hl⟩
  | verifying | customVerifying =>
    obtain ⟨ho, ha, hh, hstarted⟩ := h
    exact ⟨ho.later hl, ha.snoc e, hh.later ho hl, hstarted.later hl⟩
  | verified =>
    obtain ⟨ho, ha, hh, hstrict, hpassed⟩ := h
    exact ⟨ho.later hl, ha.snoc e, hh.later ho hl, hstrict, fun hf => (hpassed hf).later hl e⟩
  | customLevel | customDone =>
    obtain ⟨ho, ha, hh, hpassed⟩ := h
    exact ⟨ho.later hl, ha.snoc e, hh.later ho hl, fun hs => (hpassed hs).later hl e⟩
  | stamp =>
    obtain ⟨ho, ha, hown, hchecked⟩ := h
    exact ⟨ho.later hl, ha.snoc e, hown.later hl, hchecked.snoc e⟩
  | prove | lease | leased | push =>
    obtain ⟨ho, ha, hown, hstrict, hchecked⟩ := h
    exact ⟨ho.later hl, ha.snoc e, hown.later hl, hstrict, fun hf => (hchecked hf).snoc e⟩
  | retain =>
    obtain ⟨ho, ha, hown, hchecked⟩ := h
    exact ⟨ho.later hl, ha.snoc e, hown.later hl, fun hs => (hchecked hs).snoc e⟩

end Holding

/-! ## Receipts and handles -/

/-- What a receipt says is so. -/
def Receipt.Sound (w : World) (es : List Event) (c : Core) (r : Receipt) : Prop :=
  Seen c r.observed.token ∧
    (∀ digest, r.sha256 = some digest → w.sha256 (w.bytes r.observed.token) = digest) ∧
      (r.fullInProcess = true → Checked es r.observed.token)

/-- The table of receipts. -/
structure Receipts (w : World) (es : List Event) (c : Core) : Prop where
  sound : ∀ r ∈ c.receipts, r.Sound w es c
  paths : (c.receipts.map fun r => r.observed.path).Nodup
  length : c.receipts.length ≤ limit

/-- The handles, and the table that finds them by path and token. -/
structure Handles (es : List Event) (c : Core) : Prop where
  opened : ∀ g ∈ c.handles, Seen c g.identity ∧ g.connection = g.identity.1
  found : ∀ entry ∈ c.databases,
    ∃ g, c.handles[entry.2]? = some g ∧ g.path = entry.1.1 ∧ g.identity = entry.1.2
  levels : ∀ db, 2 ≤ c.checked db → db < c.handles.length → Passed es c db

structure Sane (w : World) (es : List Event) (c : Core) : Prop where
  receipts : Receipts w es c
  handles : Handles es c

section Saneness

variable {es : List Event} {e : Event} {c c' : Core}

theorem Receipt.Sound.later {r : Receipt} (h : r.Sound w es c) (hl : Later c c') (e : Event) :
    r.Sound w (es ++ [e]) c' :=
  ⟨h.1.later hl, h.2.1, fun hfull => (h.2.2 hfull).snoc e⟩

/-- Receipts that are dropped do no harm. -/
theorem Receipts.sublist (h : Receipts w es c) (hl : Later c c') (e : Event)
    (hs : c'.receipts.Sublist c.receipts) : Receipts w (es ++ [e]) c' where
  sound r hr := (h.sound r (hs.subset hr)).later hl e
  paths := h.paths.sublist (hs.map _)
  length := hs.length_le.trans h.length

theorem Receipts.remember (h : Receipts w es c) (hl : Later c c') (e : Event) {r : Receipt}
    (hr : r.Sound w es c) {current : Observation → Bool}
    (hreceipts : c'.receipts = remembered current r c.receipts) : Receipts w (es ++ [e]) c' := by
  unfold remembered at hreceipts
  dsimp only at hreceipts
  generalize hkept : (c.receipts.filter fun e =>
    decide (e.observed.path ≠ r.observed.path) && current e.observed) = kept at hreceipts
  have hsub : (kept.drop (kept.length + 1 - limit)).Sublist c.receipts := by
    rw [← hkept]
    exact (List.drop_sublist _ _).trans List.filter_sublist
  constructor
  · intro r' hr'
    rw [hreceipts] at hr'
    rcases List.mem_append.mp hr' with hr' | hr'
    · exact (h.sound r' (hsub.subset hr')).later hl e
    · rw [List.mem_singleton.mp hr']
      exact hr.later hl e
  · rw [hreceipts, List.map_append, List.nodup_append]
    refine ⟨h.paths.sublist (hsub.map _), by simp, ?_⟩
    intro path hpath path' hpath'
    obtain ⟨r', hr', rfl⟩ := List.mem_map.mp hpath
    rw [List.map_singleton, List.mem_singleton] at hpath'
    have hmem : r' ∈ kept := List.mem_of_mem_drop hr'
    rw [← hkept, List.mem_filter] at hmem
    rw [hpath']
    simp only [ne_eq, Bool.and_eq_true, decide_eq_true_eq] at hmem
    exact hmem.2.1
  · rw [hreceipts, List.length_append, List.length_drop, List.length_singleton]
    unfold limit
    omega

/-- Acts that open no handle and file none. -/
theorem Handles.keep (h : Handles es c) (hl : Later c c') (e : Event)
    (hhandles : c'.handles = c.handles) (hfound : c'.databases ⊆ c.databases)
    (hchecked : c'.checked = c.checked) : Handles (es ++ [e]) c' where
  opened g hg := by
    rw [hhandles] at hg
    exact ⟨(h.opened g hg).1.later hl, (h.opened g hg).2⟩
  found entry hentry := by
    rw [hhandles]
    exact h.found entry (hfound hentry)
  levels db hlevel hdb := by
    rw [hchecked] at hlevel
    rw [hhandles] at hdb
    exact (h.levels db hlevel hdb).later hl e

/-- A new handle, at a level below that of the full check. -/
theorem Handles.push (h : Handles es c) (hl : Later c c') (e : Event) {g : GameDb} {level : ℕ}
    (hg : Seen c g.identity ∧ g.connection = g.identity.1) (hlevel : level < 2)
    (hhandles : c'.handles = c.handles ++ [g])
    (hchecked : c'.checked = Function.update c.checked c.handles.length level)
    (hfound : ∀ entry ∈ c'.databases, entry ∈ c.databases ∨
      entry = ((g.path, g.identity), c.handles.length)) : Handles (es ++ [e]) c' where
  opened g' hg' := by
    rw [hhandles] at hg'
    rcases List.mem_append.mp hg' with hg' | hg'
    · exact ⟨(h.opened g' hg').1.later hl, (h.opened g' hg').2⟩
    · rw [List.mem_singleton.mp hg']
      exact ⟨hg.1.later hl, hg.2⟩
  found entry hentry := by
    rcases hfound entry hentry with hold | rfl
    · obtain ⟨g', hg', hsame⟩ := h.found entry hold
      exact ⟨g', getElem?_later hg' hl, hsame⟩
    · refine ⟨g, ?_, rfl, rfl⟩
      rw [hhandles]
      simp
  levels db hdb hlt := by
    rw [hchecked, Function.update_apply] at hdb
    split at hdb
    · omega
    · rw [hhandles, List.length_append, List.length_singleton] at hlt
      exact (h.levels db hdb (by omega)).later hl e

/-- A handle that is filed under its own path and token. -/
theorem Handles.file (h : Handles es c) (hl : Later c c') (e : Event) {g : GameDb} {db : ℕ}
    (hg : c.handles[db]? = some g) (hhandles : c'.handles = c.handles)
    (hdatabases : c'.databases = OrderedMap.insert (g.path, g.identity) db c.databases)
    (hchecked : c'.checked = c.checked) : Handles (es ++ [e]) c' where
  opened g' hg' := by
    rw [hhandles] at hg'
    exact ⟨(h.opened g' hg').1.later hl, (h.opened g' hg').2⟩
  found entry hentry := by
    rw [hdatabases] at hentry
    rw [hhandles]
    rcases OrderedMap.eq_or_mem_of_mem_insert hentry with rfl | hold
    · exact ⟨g, hg, rfl, rfl⟩
    · exact h.found entry hold
  levels db' hlevel hdb := by
    rw [hchecked] at hlevel
    rw [hhandles] at hdb
    exact (h.levels db' hlevel hdb).later hl e

/-- A level that is raised after the check that it stands for. -/
theorem Handles.raise (h : Handles es c) (hl : Later c c') (e : Event) {db level : ℕ}
    (hpassed : 2 ≤ level → Passed es c db) (hhandles : c'.handles = c.handles)
    (hdatabases : c'.databases = c.databases)
    (hchecked : c'.checked = Function.update c.checked db (max (c.checked db) level)) :
    Handles (es ++ [e]) c' where
  opened g' hg' := by
    rw [hhandles] at hg'
    exact ⟨(h.opened g' hg').1.later hl, (h.opened g' hg').2⟩
  found entry hentry := by
    rw [hdatabases] at hentry
    rw [hhandles]
    exact h.found entry hentry
  levels db' hdb' hlt := by
    rw [hhandles] at hlt
    rw [hchecked, Function.update_apply] at hdb'
    split at hdb'
    · next heq =>
      subst heq
      rcases le_max_iff.mp hdb' with hold | hnew
      · exact (h.levels _ hold hlt).later hl e
      · exact (hpassed hnew).later hl e
    · exact (h.levels db' hdb' hlt).later hl e

end Saneness

/-! ## The acts -/

section Acts

variable {es : List Event} {e : Event} {c c' : Core} {t : Task} {ts : List Task}

/-- The files stay as they are in an act of a call. -/
theorem later_of_same (hchanges : c'.changes = c.changes) (hpaths : c'.paths = c.paths)
    (hhandles : c.handles <+: c'.handles) : Later c c' := by
  refine ⟨fun file => by rw [hchanges], fun path a h _ => ?_, hhandles⟩
  unfold Core.pathToken Core.token at h ⊢
  rw [hchanges, hpaths] at h
  exact h

theorem Acts.later (h : Acts w t c e ts c') : Later c c' := by
  cases h
  case publish => exact later_of_same rfl rfl (List.prefix_append _ _)
  all_goals exact later_of_same rfl rfl List.prefix_rfl

theorem Happens.later (h : Happens c e ts c') : Later c c' := by
  have hupdate (file file' : ℕ) :
      c.changes file' ≤ Function.update c.changes file (c.changes file + 1) file' := by
    rw [Function.update_apply]
    split
    · next heq => rw [heq]; omega
    · exact le_rfl
  -- A file that changed shows a token that was never seen before.
  have hback (file file' : ℕ) {a : Token} (ha : Seen c a)
      (heq : (file', Function.update c.changes file (c.changes file + 1) file') = a) :
      file' ≠ file ∧ c.token file' = a := by
    obtain rfl := heq
    by_cases hfile : file' = file
    · subst hfile
      simp [Seen] at ha
    · refine ⟨hfile, ?_⟩
      rw [Function.update_of_ne hfile]
      rfl
  cases h with
  | written file =>
    refine ⟨hupdate file, fun path a h ha => ?_, List.prefix_rfl⟩
    obtain ⟨file', hfile', heq⟩ := Option.map_eq_some_iff.mp h
    rw [Core.pathToken, show c.paths path = some file' from hfile', Option.map_some,
      (hback file file' ha heq).2]
  | linked path file =>
    refine ⟨hupdate file, fun path' a h ha => ?_, List.prefix_rfl⟩
    obtain ⟨file', hfile', heq⟩ := Option.map_eq_some_iff.mp h
    obtain ⟨hne, htoken⟩ := hback file file' ha heq
    have hpath : c.paths path' = some file' := by
      dsimp only at hfile'
      rw [Function.update_apply] at hfile'
      split at hfile'
      · exact absurd (Option.some.inj hfile').symm hne
      · exact hfile'
    rw [Core.pathToken, hpath, Option.map_some, htoken]
  | unlinked path =>
    refine ⟨fun _ => le_rfl, fun path' a h _ => ?_, List.prefix_rfl⟩
    obtain ⟨file', hfile', heq⟩ := Option.map_eq_some_iff.mp h
    have hpath : c.paths path' = some file' := by
      dsimp only at hfile'
      rw [Function.update_apply] at hfile'
      split at hfile'
      · cases hfile'
      · exact hfile'
    rw [Core.pathToken, hpath, Option.map_some]
    exact congrArg some heq
  | opened => exact later_of_same rfl rfl (List.prefix_append _ _)
  | called | stamped | forget | contains | dropped => exact later_of_same rfl rfl List.prefix_rfl

theorem Acts.receipts (h : Acts w t c e ts c') (hs : Sane w es c) (ht : Holds w es c t) :
    Receipts w (es ++ [e]) c' := by
  have hl := h.later
  cases h
  case receipt | noReceipt => exact hs.receipts.sublist hl _ List.filter_sublist
  case push call o db full x hx =>
    obtain ⟨ho, ha, -, -, hchecked⟩ := ht
    refine hs.receipts.remember hl _ ⟨ho.2, ?_, hchecked⟩ rfl
    rintro digest ⟨⟩
    exact (ha.hashed x hx).1
  all_goals exact hs.receipts.sublist hl _ (List.Sublist.refl _)

theorem Acts.handles (h : Acts w t c e ts c') (hs : Sane w es c) (ht : Holds w es c t) :
    Handles (es ++ [e]) c' := by
  have hl := h.later
  cases h
  case publish call o inner reused file hcurrent =>
    obtain ⟨-, -, hi, hfile⟩ := ht
    refine hs.handles.push hl _ (g := ⟨call.path, inner.token, file⟩)
      ⟨hi.2, hfile.of_current hcurrent⟩ (by decide) rfl rfl fun entry hentry => .inl hentry
  case customLevel call o db =>
    obtain ⟨-, -, -, hpassed⟩ := ht
    refine hs.handles.raise hl _ (fun hlevel => hpassed ?_) rfl rfl rfl
    split at hlevel
    · assumption
    · omega
  case retain call o db g hg => exact hs.handles.file hl _ hg rfl rfl rfl
  all_goals exact hs.handles.keep hl _ rfl (List.Subset.refl _) rfl

theorem Happens.sane (h : Happens c e ts c') (hs : Sane w es c) : Sane w (es ++ [e]) c' := by
  have hl := h.later
  constructor
  · cases h with
    | forget | contains => exact hs.receipts.sublist hl _ List.filter_sublist
    | called | written | linked | unlinked | stamped | opened | dropped =>
      exact hs.receipts.sublist hl _ (List.Sublist.refl _)
  · cases h with
    | @opened path token level htoken hlevel =>
      refine hs.handles.push hl _ (g := ⟨path, token, token.1⟩) ⟨seen_of_pathToken htoken, rfl⟩
        (Nat.lt_succ_of_le hlevel) rfl rfl fun entry hentry => ?_
      exact (OrderedMap.eq_or_mem_of_mem_insert hentry).symm
    | dropped => exact hs.handles.keep hl _ rfl List.filter_sublist.subset rfl
    | called | written | linked | unlinked | stamped | forget | contains =>
      exact hs.handles.keep hl _ rfl (List.Subset.refl _) rfl

theorem mem_of_lookup {table : List ((String × Token) × ℕ)} {key : String × Token} {db : ℕ}
    (h : table.lookup key = some db) : (key, db) ∈ table := by
  obtain ⟨before, after, rfl, -⟩ := List.lookup_eq_some_iff.mp h
  exact List.mem_append_right _ List.mem_cons_self

/-- A file that is read without a change of its token is read as it was observed. -/
theorem read_of_atPath {o : Observation} {file : ℕ} (h : c.pathToken o.path = some o.token)
    (hfile : c.paths o.path = some file) : c.read w file = w.bytes o.token := by
  obtain rfl := file_of_pathToken h hfile
  rw [Core.read, token_of_changes (changes_of_pathToken h)]

theorem Handle.own {call : Call} {o : Observation} {db : ℕ} (h : Handle c call o db)
    (hcurrent : c.current o = true) : Own c call o db := by
  obtain ⟨g, hg, hpath, hidentity⟩ := h
  exact ⟨g, hg, hpath, hidentity.of_current hcurrent⟩

theorem Passed.checked {call : Call} {o : Observation} {db : ℕ} (h : Passed es c db)
    (hown : Own c call o db) (hcurrent : c.current o = true) : Checked es o.token := by
  obtain ⟨g, hg, -, hlive⟩ := h
  obtain ⟨g', hg', -, hidentity⟩ := hown
  obtain rfl := Option.some.inj (hg.symm.trans hg')
  rw [← hidentity]
  apply hlive
  rw [hidentity]
  exact changes_of_pathToken (pathToken_of_current hcurrent)

/-- The full check starts from the token of the handle's file. -/
theorem Handles.started (h : Handles es c) {db : ℕ} {g : GameDb} (hg : c.handles[db]? = some g) :
    Started c db (c.token g.connection) := by
  obtain ⟨hseen, hconnection⟩ := h.opened g (List.mem_of_getElem? hg)
  refine ⟨g, hg, hseen, fun hchanges => ?_⟩
  rw [hconnection]
  exact token_of_changes hchanges

theorem Started.passed {db : ℕ} {first : Token} {g : GameDb} (h : Started c db first)
    (hs : Handles es c) (hg : c.handles[db]? = some g) (hl : Later c c')
    (hsame : c'.changes = c.changes) :
    Passed (es ++ [.checked first (c.token g.connection)]) c' db := by
  obtain ⟨g', hg', hseen, hlive⟩ := h
  obtain rfl := Option.some.inj (hg.symm.trans hg')
  refine ⟨g, getElem?_later hg hl, hseen.later hl, fun hchanges => ?_⟩
  rw [hsame] at hchanges
  have htoken : c.token g.connection = g.identity := by
    rw [(hs.opened g (List.mem_of_getElem? hg)).2]
    exact token_of_changes hchanges
  rw [hlive hchanges, htoken]
  exact List.mem_append_right _ List.mem_cons_self

/-- A call that is served from a receipt. -/
theorem Receipts.authentic (h : Receipts w es c) {call : Call} {o : Observation} {x : Expected}
    {r : Receipt} (hx : call.expected = some x) (hr : r ∈ c.liveReceipts)
    (hcovers : r.covers call.path x.sha256 call.strict = true) (ho : o.path = call.path)
    (hsized : Sized w call o.token) (hpath : c.pathToken o.path = some o.token) :
    Authentic w (es ++ [.reused call.id r]) call true o.token := by
  obtain ⟨hmem, hcurrent⟩ := List.mem_filter.mp hr
  have hcovers' := hcovers
  simp only [Receipt.covers, Bool.and_eq_true, decide_eq_true_eq] at hcovers'
  obtain ⟨⟨hrpath, hdigest⟩, hfull⟩ := hcovers'
  -- The receipt is current at the path of the call, so it is one for the observed token.
  have htoken : r.observed.token = o.token := by
    have hreceipt := pathToken_of_current hcurrent
    rw [hrpath, ← ho, hpath] at hreceipt
    exact (Option.some.inj hreceipt).symm
  obtain ⟨-, hsound, hchecked⟩ := h.sound r hmem
  refine ⟨hsized, fun x' hx' => ?_, fun _ hstrict => ?_⟩
  · obtain rfl := Option.some.inj (hx.symm.trans hx')
    refine ⟨htoken ▸ hsound _ hdigest, .inr ⟨r, ?_, htoken, hcovers⟩⟩
    exact List.mem_append_right _ List.mem_cons_self
  · rw [hstrict] at hfull
    rw [← htoken]
    exact (hchecked (by simpa using hfull)).snoc _

/-- A call that has read the file to its end. -/
theorem authentic_of_read {call : Call} {o : Observation} {x : Expected} {file : ℕ} {read : Bytes}
    (hx : call.expected = some x) (hend : (c.read w file).drop read.length = [])
    (hdigest : w.sha256 read = x.sha256) (hfile : file = o.token.1)
    (hread : read <+: w.bytes o.token) (hsized : Sized w call o.token)
    (hpath : c.pathToken o.path = some o.token) :
    Authentic w (es ++ [.hashed call.id (c.token file) (w.sha256 read)]) call false o.token := by
  have htoken : c.token file = o.token := by
    rw [hfile]
    exact token_of_changes (changes_of_pathToken hpath)
  have hall : read = w.bytes o.token := by
    rw [Core.read, htoken, List.drop_eq_nil_iff] at hend
    exact hread.eq_of_length_le hend
  refine ⟨hsized, fun x' hx' => ?_, fun hfalse => by cases hfalse⟩
  obtain rfl := Option.some.inj (hx.symm.trans hx')
  refine ⟨hall ▸ hdigest, .inl ?_⟩
  rw [htoken, hdigest]
  exact List.mem_append_right _ List.mem_cons_self

theorem Acts.holds (h : Acts w t c e ts c') (hs : Sane w es c) (ht : Holds w es c t) :
    ∀ u ∈ ts, Holds w (es ++ [e]) c' u := by
  have hl := h.later
  -- Where the next stage relies on the same, that has outlasted the act.
  have hkept := ht.later hl e
  cases h
  all_goals try exact fun u hu => absurd hu List.not_mem_nil
  all_goals rw [List.forall_mem_singleton]
  case flight | begin => trivial
  case lease | opening | connected => exact hkept
  case observe call file hpath =>
    have ho : Observed c call ⟨call.path, c.token file⟩ := ⟨rfl, seen_token c file⟩
    split
    · exact ho
    · next hnone =>
      have hexpected (x : Expected) : call.expected ≠ some x := fun hx => hnone (by simp [hx])
      exact ⟨ho, fun x hx => absurd hx (hexpected x), fun x hx => absurd hx (hexpected x),
        fun hfalse => by cases hfalse⟩
  case size call o x file hx hfile hsize =>
    have hsized : AtPath c o (Sized w call o.token) := by
      intro hpath x' hx'
      obtain rfl := Option.some.inj (hx.symm.trans hx')
      rw [← ht.1] at hfile
      rw [← hsize, read_of_atPath hpath hfile]
    split <;> exact ⟨ht, hsized⟩
  case receipt call o x r hx hcovers hr =>
    obtain ⟨ho, hsized⟩ := ht
    refine ⟨ho, fun hpath => ?_⟩
    exact hs.receipts.authentic hx hr hcovers ho.1 (hsized hpath) hpath
  case noReceipt => exact ht
  case hash call o file hfile =>
    obtain ⟨ho, hsized⟩ := ht
    refine ⟨ho, fun hpath => ⟨hsized hpath, ?_, List.nil_prefix⟩⟩
    rw [← ho.1] at hfile
    exact file_of_pathToken hpath hfile
  case hashRead call o file read chunk hne hlength hchunk =>
    obtain ⟨ho, hread⟩ := ht
    refine ⟨ho, fun hpath => ?_⟩
    obtain ⟨hsized, hfile, hprefix⟩ := hread hpath
    refine ⟨hsized, hfile, ?_⟩
    rw [Core.read, hfile, token_of_changes (changes_of_pathToken hpath)] at hchunk
    obtain ⟨rest, hrest⟩ := hprefix
    rw [← hrest, List.drop_left] at hchunk
    rw [← hrest]
    exact (List.prefix_append_right_inj read).mpr hchunk
  case hashed call o x file read hx hdigest hend =>
    obtain ⟨ho, hread⟩ := ht
    refine ⟨ho, fun hpath => ?_⟩
    obtain ⟨hsized, hfile, hprefix⟩ := hread hpath
    exact authentic_of_read hx hend hdigest hfile hprefix hsized hpath
  case authenticated call o reused hcurrent =>
    exact ⟨hkept.1, hkept.2.of_current hcurrent⟩
  case cached call o reused token db htoken hdb =>
    obtain ⟨g, hg, hpath, hidentity⟩ := hs.handles.found _ (mem_of_lookup hdb)
    refine ⟨hkept.1, hkept.2, g, hg, hpath, fun hshown => ?_⟩
    rw [hkept.1.1, htoken] at hshown
    rw [hidentity]
    exact Option.some.inj hshown
  case notCached => exact hkept
  case opened call o reused file hpath => exact ⟨hkept.1, hkept.2, rfl, seen_token c file⟩
  case connect call o inner reused file hfile =>
    obtain ⟨ho, ha, hi⟩ := hkept
    refine ⟨ho, ha, hi, fun hpath => ?_⟩
    rw [← hi.1] at hfile
    exact file_of_pathToken hpath hfile
  case publish call o inner reused file hcurrent =>
    obtain ⟨ho, ha, hi, -⟩ := hkept
    refine ⟨ho, ha, ⟨call.path, inner.token, file⟩, by simp, rfl, fun hpath => ?_⟩
    have hinner := pathToken_of_current hcurrent
    rw [hi.1, ← ho.1] at hinner
    exact Option.some.inj (hinner.symm.trans hpath)
  case ready call o reused db g hg hderived =>
    obtain ⟨ho, ha, hh⟩ := hkept
    split
    · exact ⟨ho, ha, hh⟩
    · exact ⟨ho, ⟨ha.sized, ha.hashed, fun hfalse => by cases hfalse⟩, hh⟩
  case customKnown call o db hlevel =>
    obtain ⟨ho, ha, hh⟩ := hkept
    obtain ⟨g, hg, -⟩ := id hh
    refine ⟨ho, ha, hh, fun hstrict => ?_⟩
    rw [if_pos hstrict] at hlevel
    exact (hs.handles.levels db hlevel (List.getElem?_eq_some_iff.mp hg).1).later hl _
  case customVerify call o db g hstrict hlevel hg =>
    exact ⟨hkept.1, hkept.2.1, hkept.2.2, hs.handles.started hg⟩
  case customVerified call o db first g hg hpassed =>
    exact ⟨hkept.1, hkept.2.1, hkept.2.2.1, fun _ => ht.2.2.2.passed hs.handles hg hl rfl⟩
  case customQuick call o db g hstrict hlevel hg hquick =>
    refine ⟨hkept.1, hkept.2.1, hkept.2.2, fun hfalse => ?_⟩
    rw [hstrict] at hfalse
    cases hfalse
  case customLevel => exact hkept
  case customDone call o db hcurrent =>
    obtain ⟨ho, ha, hh, hpassed⟩ := hkept
    have hown := hh.own hcurrent
    exact ⟨ho, ha, hown, fun hstrict => (hpassed hstrict).checked hown hcurrent⟩
  case metadata call o reused db x g hx hg hrows =>
    obtain ⟨ho, ha, hh⟩ := hkept
    split
    · next hreused =>
      rw [hreused] at ha
      exact ⟨ho, ha, hh⟩
    · exact ⟨ho, ⟨ha.sized, ha.hashed, fun hfalse => by cases hfalse⟩, hh⟩
  case reuse call o db hcurrent =>
    obtain ⟨ho, ha, hh⟩ := hkept
    exact ⟨ho, ⟨ha.sized, ha.hashed, fun hfalse => by cases hfalse⟩, hh.own hcurrent,
      ha.checked rfl⟩
  case choose call o db x hx =>
    obtain ⟨ho, ha, hh⟩ := hkept
    split
    · exact ⟨ho, ha, hh⟩
    · next hskip =>
      simp only [Bool.or_eq_true, not_or] at hskip
      exact ⟨ho, ha, hh, fun hstrict => absurd hstrict hskip.1.2, fun hfalse => by cases hfalse⟩
  case verify call o db g hg =>
    exact ⟨hkept.1, hkept.2.1, hkept.2.2, hs.handles.started hg⟩
  case verifying call o db first g hg hpassed =>
    exact ⟨hkept.1, hkept.2.1, hkept.2.2.1, fun _ => rfl,
      fun _ => ht.2.2.2.passed hs.handles hg hl rfl⟩
  case verified call o db full hcurrent =>
    obtain ⟨ho, ha, hh, hstrict, hpassed⟩ := hkept
    have hown := hh.own hcurrent
    cases full with
    | true => exact ⟨ho, ha, hown, (hpassed rfl).checked hown hcurrent⟩
    | false => exact ⟨ho, ha, hown, hstrict, fun hfalse => by cases hfalse⟩
  case stamp | stampFailed =>
    obtain ⟨ho, ha, hown, hchecked⟩ := hkept
    exact ⟨ho, ha, hown, fun _ => rfl, fun _ => hchecked⟩
  case prove | leased => exact hkept
  case leaseMissing =>
    obtain ⟨ho, ha, hown, hstrict, hchecked⟩ := hkept
    exact ⟨ho, ha, hown, fun h => hchecked (hstrict h)⟩
  case push =>
    obtain ⟨ho, ha, hown, hstrict, hchecked⟩ := hkept
    exact ⟨ho, ha, hown, fun h => hchecked (hstrict h)⟩

end Acts

end PrtsMcp.Admission
