import PrtsMcp.Runs

/-!
# The story package caches

The search index and the character dictionary that queries share, each kept under the stat
descriptor of the story zip it was read from, while the zip is replaced under them.
-/
namespace PrtsMcp.StoryCaches

open Runs (EveryPrefix EveryStep)

variable {κ ρ δ ι : Type*}

/-- What `stat` tells of the story zip, and what opening it gives. -/
structure Package (κ : Type*) where
  size : ℕ
  mtime : ℤ
  mtimeNsec : Fin 1000000000
  content : κ
  deriving DecidableEq

/-- Seconds and nanoseconds stand one after the other, without a separator or padding. -/
def zipDescriptor (path : String) (zip : Option (Package κ)) : Option String :=
  zip.map fun p => s!"zip:{path}:{p.size}:{p.mtime}{p.mtimeNsec}"

/-- The code keeps the descriptor and the value; `origin` is what the value was read from. -/
structure Shared (κ ρ : Type*) where
  descriptor : String
  value : ρ
  origin : Option κ
  deriving DecidableEq

/-- What a query does next, with the descriptor it read and the archive it opened. -/
inductive Pc (κ ρ : Type*) where
  | idle
  | statting
  | looking (descriptor : Option String)
  | opening (descriptor : Option String)
  | reading (descriptor : Option String) (archive : Option κ)
  | done (answer : Except String ρ)

def Pc.isRunning : Pc κ ρ → Bool
  | .idle | .done _ => false
  | _ => true

/-- One process-wide cache and its queries. `holder` has the mutex across steps; `held` lists
what the path has held since a query began, up to its end. -/
structure Cache (ι κ ρ : Type*) where
  shared : Option (Shared κ ρ)
  holder : Option ι
  pc : ι → Pc κ ρ
  held : ι → List (Option κ)

def Cache.empty : Cache ι κ ρ := ⟨none, none, fun _ => .idle, fun _ => []⟩

/-- The entry kept under the descriptor. -/
def Cache.hit (c : Cache ι κ ρ) (descriptor : Option String) : Option (Shared κ ρ) :=
  c.shared.filter fun s => some s.descriptor = descriptor

@[simps]
def Cache.put (c : Cache ι κ ρ) (s : Shared κ ρ) : Cache ι κ ρ := { c with shared := some s }

@[simps]
def Cache.setHolder (c : Cache ι κ ρ) (holder : Option ι) : Cache ι κ ρ := { c with holder }

/-- The queries under way see the new package at the path. -/
def Cache.see (c : Cache ι κ ρ) (content : κ) : Cache ι κ ρ :=
  { c with held := fun q => if (c.pc q).isRunning then some content :: c.held q else c.held q }

structure World (ι κ ρ δ : Type*) where
  zip : Option (Package κ)
  index : Cache ι κ ρ
  charDict : Cache ι κ δ

def World.content (w : World ι κ ρ δ) : Option κ := w.zip.map Package.content

def start (zip : Option (Package κ)) : World ι κ ρ δ := ⟨zip, .empty, .empty⟩

inductive Kind where
  | index
  | charDict
  deriving DecidableEq, Repr

inductive Event (ι κ : Type*) where
  | replace (p : Package κ)
  | begin (kind : Kind) (q : ι)
  | act (kind : Kind) (q : ι)

/-- Where the package is, and what its readers make of an opened archive, or of a path at
which there was none. -/
structure Readers (κ ρ δ : Type*) where
  path : String
  buildStorySearchIndex : Option κ → Except String ρ
  readCharDict : Option κ → δ

section Steps

variable [DecidableEq ι]

@[simps]
def Cache.goto (c : Cache ι κ ρ) (q : ι) (pc : Pc κ ρ) : Cache ι κ ρ :=
  { c with pc := Function.update c.pc q pc }

def Cache.begin (c : Cache ι κ ρ) (q : ι) (content : Option κ) : Cache ι κ ρ :=
  match c.pc q with
  | .idle => { c.goto q .statting with held := Function.update c.held q [content] }
  | _ => c

/-- The next step of a `story_search_index` call: the mutex is taken after the `stat` and held
through the build. -/
def storySearchIndex (path : String) (build : Option κ → Except String ρ)
    (zip : Option (Package κ)) (c : Cache ι κ ρ) (q : ι) : Cache ι κ ρ :=
  match c.pc q with
  | .statting => c.goto q (.looking (zipDescriptor path zip))
  | .looking descriptor =>
    if c.holder.isSome then c
    else match c.hit descriptor with
      | some s => c.goto q (.done (.ok s.value))
      | none => (c.setHolder (some q)).goto q (.opening descriptor)
  | .opening descriptor => c.goto q (.reading descriptor (zip.map Package.content))
  | .reading descriptor archive =>
    match build archive with
    | .ok value =>
      ((c.put ⟨descriptor.getD "", value, archive⟩).setHolder none).goto q (.done (.ok value))
    | .error message => (c.setHolder none).goto q (.done (.error message))
  | .idle | .done _ => c

/-- The second locked section of `load_char_dict`: an entry of the same descriptor stays. -/
def Cache.offer (c : Cache ι κ ρ) (descriptor : Option String) (data : ρ) (archive : Option κ) :
    Cache ι κ ρ :=
  match descriptor with
  | some d => if (c.hit (some d)).isSome then c else c.put ⟨d, data, archive⟩
  | none => c

/-- The next step of a `load_char_dict` call: the dictionary is read outside the mutex. -/
def loadCharDict (path : String) (read : Option κ → ρ) (zip : Option (Package κ))
    (c : Cache ι κ ρ) (q : ι) : Cache ι κ ρ :=
  match c.pc q with
  | .statting => c.goto q (.looking (zipDescriptor path zip))
  | .looking descriptor =>
    match c.hit descriptor with
    | some s => c.goto q (.done (.ok s.value))
    | none => c.goto q (.opening descriptor)
  | .opening descriptor => c.goto q (.reading descriptor (zip.map Package.content))
  | .reading descriptor archive =>
    (c.offer descriptor (read archive) archive).goto q (.done (.ok (read archive)))
  | .idle | .done _ => c

def next (r : Readers κ ρ δ) (w : World ι κ ρ δ) : Event ι κ → World ι κ ρ δ
  | .replace p =>
    { zip := some p, index := w.index.see p.content, charDict := w.charDict.see p.content }
  | .begin .index q => { w with index := w.index.begin q w.content }
  | .begin .charDict q => { w with charDict := w.charDict.begin q w.content }
  | .act .index q =>
    { w with index := storySearchIndex r.path r.buildStorySearchIndex w.zip w.index q }
  | .act .charDict q =>
    { w with charDict := loadCharDict r.path r.readCharDict w.zip w.charDict q }

def run (r : Readers κ ρ δ) (zip : Option (Package κ)) (es : List (Event ι κ)) :
    World ι κ ρ δ :=
  es.foldl (next r) (start zip)

theorem run_snoc (r : Readers κ ρ δ) (zip : Option (Package κ)) (es : List (Event ι κ))
    (e : Event ι κ) : run r zip (es ++ [e]) = next r (run r zip es) e := by
  simp [run]

end Steps

/-- Every answer is what one of the packages at the path during the query gives. -/
def Cache.AnswersHeld (build : Option κ → Except String ρ) (c : Cache ι κ ρ) : Prop :=
  ∀ q answer, c.pc q = .done answer → ∃ content ∈ c.held q, answer = build content

/-- What may be served under the descriptor: the entry, or a build whose archive is open. -/
def Cache.Source (c : Cache ι κ ρ) (descriptor : Option String) (archive : Option κ) : Prop :=
  (∃ s ∈ c.shared, some s.descriptor = descriptor ∧ s.origin = archive) ∨
    ∃ q, c.pc q = .reading descriptor archive

/-- Nothing is served under the descriptor of `p` but what `p` holds. -/
def Cache.Clear (path : String) (p : Package κ) (c : Cache ι κ ρ) : Prop :=
  ∀ archive, c.Source (zipDescriptor path (some p)) archive → archive = some p.content

/-- A package is put in place only while its descriptor stands for no other package. -/
def FreshDescriptor (path : String) (w : World ι κ ρ δ) : Event ι κ → Prop
  | .replace p => w.index.Clear path p ∧ w.charDict.Clear path p
  | _ => True

/-- A replacement changes the size or the modification time. -/
def Changes (w : World ι κ ρ δ) : Event ι κ → Prop
  | .replace p => ∀ old ∈ w.zip,
    (p.size, p.mtime, p.mtimeNsec) ≠ (old.size, old.mtime, old.mtimeNsec)
  | _ => True

def Event.isReplace : Event ι κ → Bool
  | .replace _ => true
  | _ => false

section Soundness

variable {path : String} {build : Option κ → Except String ρ} {zip : Option (Package κ)}
  {c : Cache ι κ ρ}

theorem zipDescriptor_ne_empty (path : String) (zip : Option (Package κ)) :
    zipDescriptor path zip ≠ some "" := by
  intro h
  obtain ⟨p, -, hp⟩ := Option.map_eq_some_iff.mp h
  have := congrArg String.length hp
  simp [String.length_append] at this

/-- Where a query stands, and what the path has held since it began: whatever a waiting query
may still be given is among it. -/
def Cache.QuerySound (build : Option κ → Except String ρ) (content : Option κ) (c : Cache ι κ ρ)
    (held : List (Option κ)) : Pc κ ρ → Prop
  | .idle => True
  | .statting | .opening _ => content ∈ held
  | .looking d => content ∈ held ∧ d ≠ some "" ∧ ∀ a, c.Source d a → a ∈ held
  | .reading _ archive => content ∈ held ∧ archive ∈ held
  | .done answer => ∃ a ∈ held, answer = build a

/-- Whatever is served under the descriptor of the package at the path was read from it. -/
structure Cache.Sound (path : String) (build : Option κ → Except String ρ)
    (zip : Option (Package κ)) (c : Cache ι κ ρ) : Prop where
  value : ∀ s ∈ c.shared, build s.origin = .ok s.value
  current : ∀ a, c.Source (zipDescriptor path zip) a → a = zip.map Package.content
  queries : ∀ q, c.QuerySound build (zip.map Package.content) (c.held q) (c.pc q)

theorem Cache.Sound.answersHeld (h : c.Sound path build zip) : c.AnswersHeld build := by
  intro q answer hq
  have := h.queries q
  rwa [hq] at this

theorem Cache.empty_sound : (Cache.empty : Cache ι κ ρ).Sound path build zip where
  value s hs := by simp [Cache.empty] at hs
  current a ha := by simp [Cache.empty, Cache.Source] at ha
  queries _ := trivial

theorem Cache.see_held_of_running {q : ι} (content : κ) (h : (c.pc q).isRunning = true) :
    (c.see content).held q = some content :: c.held q := if_pos h

theorem Cache.see_held_of_not_running {q : ι} (content : κ) (h : ¬ (c.pc q).isRunning = true) :
    (c.see content).held q = c.held q := if_neg h

/-- A replacement keeps the invariant when nothing else is served under the new descriptor. -/
theorem Cache.Sound.see (h : c.Sound path build zip) {p : Package κ} (hclear : c.Clear path p) :
    (c.see p.content).Sound path build (some p) := by
  refine ⟨h.value, hclear, fun q => ?_⟩
  have hq := h.queries q
  cases hpc : c.pc q with
  | idle => simp [Cache.see, hpc, QuerySound]
  | statting | opening d => simp [Cache.see, hpc, QuerySound, Pc.isRunning]
  | looking d =>
    have hheld := c.see_held_of_running p.content (q := q) (by simp [hpc, Pc.isRunning])
    rw [hpc] at hq
    rw [hheld, show (c.see p.content).pc q = .looking d from hpc]
    exact ⟨List.mem_cons_self, hq.2.1, fun a ha => List.mem_cons_of_mem _ (hq.2.2 a ha)⟩
  | reading d archive =>
    have hheld := c.see_held_of_running p.content (q := q) (by simp [hpc, Pc.isRunning])
    rw [hpc] at hq
    rw [hheld, show (c.see p.content).pc q = .reading d archive from hpc]
    exact ⟨List.mem_cons_self, List.mem_cons_of_mem _ hq.2⟩
  | done answer =>
    have hheld := c.see_held_of_not_running p.content (q := q) (by simp [hpc, Pc.isRunning])
    rw [hpc] at hq
    rw [hheld, show (c.see p.content).pc q = .done answer from hpc]
    exact hq

/-- A query stays sound while nothing comes to be served but what is at the path. -/
theorem Cache.QuerySound.mono {c' : Cache ι κ ρ} {content : Option κ} {held : List (Option κ)}
    {pc : Pc κ ρ} (h : c.QuerySound build content held pc)
    (hsource : ∀ d a, d ≠ some "" → c'.Source d a → c.Source d a ∨ a = content) :
    c'.QuerySound build content held pc := by
  cases pc with
  | looking d =>
    obtain ⟨hcontent, hd, hheld⟩ := h
    refine ⟨hcontent, hd, fun a ha => ?_⟩
    rcases hsource d a hd ha with hold | rfl
    · exact hheld a hold
    · exact hcontent
  | idle | statting | opening d | reading d archive | done answer => exact h

/-- A step of query `q` keeps the invariant when it puts nothing but what is at the path under a
descriptor, and leaves `q` itself sound. -/
theorem Cache.Sound.step {c' : Cache ι κ ρ} (h : c.Sound path build zip) (q : ι)
    (others : ∀ r, r ≠ q → c'.pc r = c.pc r ∧ c'.held r = c.held r)
    (hvalue : ∀ s ∈ c'.shared, build s.origin = .ok s.value)
    (hsource : ∀ d a, d ≠ some "" → c'.Source d a → c.Source d a ∨ a = zip.map Package.content)
    (hq : c'.QuerySound build (zip.map Package.content) (c'.held q) (c'.pc q)) :
    c'.Sound path build zip := by
  refine ⟨hvalue, fun a ha => ?_, fun r => ?_⟩
  · rcases hsource _ a (zipDescriptor_ne_empty path zip) ha with hold | hold
    · exact h.current a hold
    · exact hold
  · by_cases hr : r = q
    · exact hr ▸ hq
    · rw [(others r hr).1, (others r hr).2]
      exact (h.queries r).mono hsource

theorem Cache.hit_eq_some {d : Option String} {s : Shared κ ρ} (h : c.hit d = some s) :
    s ∈ c.shared ∧ d = some s.descriptor := by
  obtain ⟨hmem, hd⟩ := Option.filter_eq_some_iff.mp h
  exact ⟨hmem, (of_decide_eq_true hd).symm⟩

theorem Cache.offer_shared (c : Cache ι κ ρ) (d : Option String) (data : ρ) (archive : Option κ) :
    (c.offer d data archive).shared = c.shared ∨
      (c.offer d data archive).shared = some ⟨d.getD "", data, archive⟩ := by
  unfold Cache.offer
  cases d with
  | none => exact .inl rfl
  | some d =>
    dsimp only
    split
    · exact .inl rfl
    · exact .inr rfl

@[simp]
theorem Cache.offer_pc (c : Cache ι κ ρ) (d : Option String) (data : ρ) (archive : Option κ) :
    (c.offer d data archive).pc = c.pc := by
  unfold Cache.offer
  split
  · split <;> rfl
  · rfl

@[simp]
theorem Cache.offer_held (c : Cache ι κ ρ) (d : Option String) (data : ρ) (archive : Option κ) :
    (c.offer d data archive).held = c.held := by
  unfold Cache.offer
  split
  · split <;> rfl
  · rfl

variable [DecidableEq ι]

/-- Where a query goes, everything but a build it opens was served before. -/
theorem Cache.Source.of_update {c' : Cache ι κ ρ} {q : ι} {pc : Pc κ ρ} {d : Option String}
    {a : Option κ} (hc : c'.Source d a) (hpc : c'.pc = Function.update c.pc q pc)
    (hshared : c'.shared = c.shared) : c.Source d a ∨ pc = .reading d a := by
  rcases hc with ⟨s, hs, hd⟩ | ⟨r, hr⟩
  · exact .inl (.inl ⟨s, hshared ▸ hs, hd⟩)
  · rw [hpc] at hr
    by_cases hrq : r = q
    · subst hrq
      exact .inr (by simpa using hr)
    · exact .inl (.inr ⟨r, by simpa [hrq] using hr⟩)

theorem Cache.Sound.begin (h : c.Sound path build zip) (q : ι) :
    (c.begin q (zip.map Package.content)).Sound path build zip := by
  unfold Cache.begin
  split
  · refine h.step q (fun r hr => by simp [hr]) h.value (fun d a _ ha => ?_)
      (by simp [QuerySound])
    rcases ha.of_update (c := c) rfl rfl with hold | hnew
    · exact .inl hold
    · cases hnew
  · exact h

/-- The moves of a query that leave the entry alone. -/
inductive Move (path : String) (zip : Option (Package κ)) (shared : Option (Shared κ ρ)) :
    Pc κ ρ → Pc κ ρ → Prop
  | stat : Move path zip shared .statting (.looking (zipDescriptor path zip))
  | hit (s : Shared κ ρ) (mem : s ∈ shared) :
    Move path zip shared (.looking (some s.descriptor)) (.done (.ok s.value))
  | miss (d : Option String) : Move path zip shared (.looking d) (.opening d)
  | opens (d : Option String) :
    Move path zip shared (.opening d) (.reading d (zip.map Package.content))

theorem Move.ne_idle {shared : Option (Shared κ ρ)} {pc pc' : Pc κ ρ}
    (h : Move path zip shared pc pc') : pc' ≠ .idle := by
  rintro rfl
  cases h

/-- What one step of query `q` does: nothing, a move, or an answer from the archive it opened,
which it may have put into the cache under the descriptor it had read. -/
inductive Effect (path : String) (build : Option κ → Except String ρ) (zip : Option (Package κ))
    (c : Cache ι κ ρ) (q : ι) (c' : Cache ι κ ρ) : Prop
  | stays (pc : c'.pc = c.pc) (held : c'.held = c.held) (shared : c'.shared = c.shared)
  | moves (pc : Pc κ ρ) (move : Move path zip c.shared (c.pc q) pc)
    (goes : c'.pc = Function.update c.pc q pc) (held : c'.held = c.held)
    (shared : c'.shared = c.shared)
  | answers (d : Option String) (archive : Option κ) (reading : c.pc q = .reading d archive)
    (goes : c'.pc = Function.update c.pc q (.done (build archive))) (held : c'.held = c.held)
    (shared : c'.shared = c.shared ∨ ∃ value, build archive = .ok value ∧
      c'.shared = some ⟨d.getD "", value, archive⟩)

omit [DecidableEq ι] in
theorem Move.of_hit {d : Option String} {s : Shared κ ρ} (h : c.hit d = some s) :
    Move path zip c.shared (.looking d) (.done (.ok s.value)) := by
  obtain ⟨hmem, rfl⟩ := Cache.hit_eq_some h
  exact .hit s hmem

theorem storySearchIndex_effect (path : String) (build : Option κ → Except String ρ)
    (zip : Option (Package κ)) (c : Cache ι κ ρ) (q : ι) :
    Effect path build zip c q (storySearchIndex path build zip c q) := by
  unfold storySearchIndex
  cases hpc : c.pc q with
  | idle | done answer => exact .stays rfl rfl rfl
  | statting => exact .moves _ (hpc ▸ .stat) rfl rfl rfl
  | looking d =>
    dsimp only
    split
    · exact .stays rfl rfl rfl
    · cases hhit : c.hit d with
      | some s => exact .moves _ (hpc ▸ .of_hit hhit) rfl rfl rfl
      | none => exact .moves _ (hpc ▸ .miss d) rfl rfl rfl
  | opening d => exact .moves _ (hpc ▸ .opens d) rfl rfl rfl
  | reading d archive =>
    dsimp only
    cases hbuild : build archive with
    | ok value =>
      exact .answers d archive hpc (by rw [hbuild]; rfl) rfl (.inr ⟨value, hbuild, rfl⟩)
    | error message => exact .answers d archive hpc (by rw [hbuild]; rfl) rfl (.inl rfl)

theorem loadCharDict_effect (path : String) (read : Option κ → ρ) (zip : Option (Package κ))
    (c : Cache ι κ ρ) (q : ι) :
    Effect path (fun archive => .ok (read archive)) zip c q (loadCharDict path read zip c q) := by
  unfold loadCharDict
  cases hpc : c.pc q with
  | idle | done answer => exact .stays rfl rfl rfl
  | statting => exact .moves _ (hpc ▸ .stat) rfl rfl rfl
  | looking d =>
    dsimp only
    cases hhit : c.hit d with
    | some s => exact .moves _ (hpc ▸ .of_hit hhit) rfl rfl rfl
    | none => exact .moves _ (hpc ▸ .miss d) rfl rfl rfl
  | opening d => exact .moves _ (hpc ▸ .opens d) rfl rfl rfl
  | reading d archive =>
    refine .answers d archive hpc (by simp [Cache.goto]) (by simp [Cache.goto]) ?_
    rcases c.offer_shared d (read archive) archive with h | h
    · exact .inl h
    · exact .inr ⟨_, rfl, h⟩

/-- One step of one query keeps the invariant. -/
theorem Effect.sound {q : ι} {c' : Cache ι κ ρ} (he : Effect path build zip c q c')
    (h : c.Sound path build zip) : c'.Sound path build zip := by
  have hq := h.queries q
  cases he with
  | stays hpc hheld hshared =>
    refine h.step q (fun r _ => ⟨congrFun hpc r, congrFun hheld r⟩) (hshared ▸ h.value)
      (fun d a _ ha => .inl ?_) ?_
    · simpa [Cache.Source, hpc, hshared] using ha
    · rw [hpc, hheld]
      exact hq.mono fun d a _ ha => .inl (by simpa [Cache.Source, hpc, hshared] using ha)
  | moves pc hmove hpc hheld hshared =>
    have hsource : ∀ d a, d ≠ some "" → c'.Source d a →
        c.Source d a ∨ a = zip.map Package.content := by
      intro d a _ ha
      rcases ha.of_update hpc hshared with hold | hnew
      · exact .inl hold
      · subst hnew
        generalize hfrom : c.pc q = from_ at hmove
        cases hmove
        exact .inr rfl
    have hpcq : c'.pc q = pc := by simp [hpc]
    refine h.step q (fun r hr => ⟨by simp [hpc, hr], congrFun hheld r⟩) (hshared ▸ h.value)
      hsource ?_
    rw [hpcq, hheld]
    generalize hfrom : c.pc q = from_ at hmove hq
    cases hmove with
    | stat =>
      refine ⟨hq, zipDescriptor_ne_empty path zip, fun a ha => ?_⟩
      rcases hsource _ a (zipDescriptor_ne_empty path zip) ha with hold | rfl
      · exact h.current a hold ▸ hq
      · exact hq
    | hit s hs =>
      refine ⟨s.origin, hq.2.2 _ (.inl ⟨s, hs, rfl, rfl⟩), ?_⟩
      exact (h.value s hs).symm
    | miss d => exact hq.1
    | opens d => exact ⟨hq, hq⟩
  | answers d archive hreading hpc hheld hshared =>
    have hpcq : c'.pc q = .done (build archive) := by simp [hpc]
    rw [hreading] at hq
    refine h.step q (fun r hr => ⟨by simp [hpc, hr], congrFun hheld r⟩) ?_ ?_ ?_
    · intro s hs
      rcases hshared with hsame | ⟨value, hvalue, hnew⟩
      · exact h.value s (hsame ▸ hs)
      · obtain rfl : (⟨d.getD "", value, archive⟩ : Shared κ ρ) = s := by simpa [hnew] using hs
        exact hvalue
    · rintro d' a hd' (⟨s, hs, rfl, rfl⟩ | ⟨r, hr⟩)
      · rcases hshared with hsame | ⟨value, hvalue, hnew⟩
        · exact .inl (.inl ⟨s, hsame ▸ hs, rfl, rfl⟩)
        · obtain rfl : (⟨d.getD "", value, archive⟩ : Shared κ ρ) = s := by simpa [hnew] using hs
          cases d with
          | none => exact absurd rfl hd'
          | some d => exact .inl (.inr ⟨q, hreading⟩)
      · by_cases hrq : r = q
        · subst hrq
          rw [hpcq] at hr
          cases hr
        · exact .inl (.inr ⟨r, by simpa [hpc, hrq] using hr⟩)
    · rw [hpcq, hheld]
      exact ⟨archive, hq.2, rfl⟩

/-- Both caches are sound. -/
structure World.Sound (r : Readers κ ρ δ) (w : World ι κ ρ δ) : Prop where
  index : w.index.Sound r.path r.buildStorySearchIndex w.zip
  charDict : w.charDict.Sound r.path (fun archive => .ok (r.readCharDict archive)) w.zip

theorem World.Sound.next {r : Readers κ ρ δ} {w : World ι κ ρ δ} (h : w.Sound r) {e : Event ι κ}
    (hfresh : FreshDescriptor r.path w e) : (next r w e).Sound r := by
  cases e with
  | replace p => exact ⟨h.index.see hfresh.1, h.charDict.see hfresh.2⟩
  | begin kind q =>
    cases kind with
    | index => exact ⟨h.index.begin q, h.charDict⟩
    | charDict => exact ⟨h.index, h.charDict.begin q⟩
  | act kind q =>
    cases kind with
    | index => exact ⟨(storySearchIndex_effect ..).sound h.index, h.charDict⟩
    | charDict => exact ⟨h.index, (loadCharDict_effect ..).sound h.charDict⟩

theorem run_sound (r : Readers κ ρ δ) (zip : Option (Package κ)) {es : List (Event ι κ)}
    (hfresh : EveryStep (fun pre e => FreshDescriptor r.path (run r zip pre) e) es) :
    EveryPrefix (fun pre => (run r zip pre).Sound r) es :=
  hfresh.induction (P := fun pre => (run r zip pre).Sound r)
    ⟨Cache.empty_sound, Cache.empty_sound⟩ fun pre e h hc => by
      rw [run_snoc]
      exact h.next hc

end Soundness

section LastPackage

variable [DecidableEq ι] {r : Readers κ ρ δ}

/-- Query `q` began while `content` was at the path, and has seen nothing else there. -/
def Cache.SeesOnly (c : Cache ι κ ρ) (q : ι) (content : Option κ) : Prop :=
  c.pc q ≠ .idle ∧ c.held q = [content]

theorem Cache.SeesOnly.begin {c : Cache ι κ ρ} {q : ι} {content : Option κ}
    (h : c.SeesOnly q content) (q' : ι) (now : Option κ) : (c.begin q' now).SeesOnly q content := by
  unfold Cache.begin
  split
  · next hidle =>
    have hne : q ≠ q' := fun heq => h.1 (heq ▸ hidle)
    simpa [SeesOnly, hne] using h
  · exact h

theorem Effect.seesOnly {path : String} {build : Option κ → Except String ρ}
    {zip : Option (Package κ)} {c c' : Cache ι κ ρ} {q q' : ι} {content : Option κ}
    (he : Effect path build zip c q' c') (h : c.SeesOnly q content) : c'.SeesOnly q content := by
  obtain ⟨hidle, hheld⟩ := h
  cases he with
  | stays hpc hheld' _ => exact ⟨hpc ▸ hidle, hheld' ▸ hheld⟩
  | moves pc hmove hpc hheld' _ =>
    refine ⟨?_, hheld' ▸ hheld⟩
    by_cases hq : q = q'
    · subst hq
      simpa [hpc] using hmove.ne_idle
    · simpa [hpc, hq] using hidle
  | answers d archive _ hpc hheld' _ =>
    refine ⟨?_, hheld' ▸ hheld⟩
    by_cases hq : q = q'
    · subst hq
      simp [hpc]
    · simpa [hpc, hq] using hidle

def World.SeesOnly (w : World ι κ ρ δ) (content : Option κ) (q : ι) : Kind → Prop
  | .index => w.index.SeesOnly q content
  | .charDict => w.charDict.SeesOnly q content

theorem World.SeesOnly.next {w : World ι κ ρ δ} {content : Option κ} {kind : Kind} {q : ι}
    (h : w.SeesOnly content q kind) {e : Event ι κ} (he : e.isReplace = false) :
    (next r w e).SeesOnly content q kind := by
  cases e with
  | replace p => cases he
  | begin kind' q' =>
    cases kind <;> cases kind'
    · exact Cache.SeesOnly.begin h q' _
    · exact h
    · exact h
    · exact Cache.SeesOnly.begin h q' _
  | act kind' q' =>
    cases kind <;> cases kind'
    · exact (storySearchIndex_effect ..).seesOnly h
    · exact h
    · exact h
    · exact (loadCharDict_effect ..).seesOnly h

def World.Idle (w : World ι κ ρ δ) (q : ι) : Kind → Prop
  | .index => w.index.pc q = .idle
  | .charDict => w.charDict.pc q = .idle

theorem World.Idle.begin {w : World ι κ ρ δ} {kind : Kind} {q : ι} (h : w.Idle q kind) :
    (next r w (.begin kind q)).SeesOnly w.content q kind := by
  cases kind
  · have hidle : w.index.pc q = .idle := h
    simp [next, Cache.begin, hidle, SeesOnly, Cache.SeesOnly]
  · have hidle : w.charDict.pc q = .idle := h
    simp [next, Cache.begin, hidle, SeesOnly, Cache.SeesOnly]

theorem run_seesOnly {zip : Option (Package κ)} {pre post : List (Event ι κ)} {kind : Kind} {q : ι}
    (hidle : (run r zip pre).Idle q kind) (hpost : ∀ e ∈ post, e.isReplace = false) :
    (run r zip (pre ++ .begin kind q :: post)).SeesOnly (run r zip pre).content q kind := by
  induction post using List.reverseRecOn with
  | nil =>
    rw [run_snoc]
    exact hidle.begin
  | append_singleton post e ih =>
    rw [show pre ++ .begin kind q :: (post ++ [e]) = (pre ++ .begin kind q :: post) ++ [e] by simp,
      run_snoc]
    exact (ih fun e' he' => hpost e' (by simp [he'])).next (hpost e (by simp))

end LastPackage

section Claims

variable [DecidableEq ι]

/-- Every answer a query has received is what a package gives that was at the path during it. -/
def World.AnswersHeld (r : Readers κ ρ δ) (w : World ι κ ρ δ) : Prop :=
  w.index.AnswersHeld r.buildStorySearchIndex ∧
    w.charDict.AnswersHeld fun archive => .ok (r.readCharDict archive)

/-- If query `q` has its answer, it is what `content` gives. -/
def World.AnswersFrom (r : Readers κ ρ δ) (w : World ι κ ρ δ) (content : Option κ) (q : ι) :
    Kind → Prop
  | .index => ∀ answer, w.index.pc q = .done answer → answer = r.buildStorySearchIndex content
  | .charDict => ∀ answer, w.charDict.pc q = .done answer → answer = .ok (r.readCharDict content)

/-- A query that begins after the last replacement is answered from the final package. -/
def ServesFinal (r : Readers κ ρ δ) (zip : Option (Package κ)) (es : List (Event ι κ)) : Prop :=
  ∀ pre kind q post, es = pre ++ .begin kind q :: post → (run r zip pre).Idle q kind →
    (∀ e ∈ post, e.isReplace = false) → (run r zip es).AnswersFrom r (run r zip pre).content q kind

omit [DecidableEq ι] in
theorem Cache.AnswersHeld.of_seesOnly {build : Option κ → Except String ρ} {c : Cache ι κ ρ}
    {q : ι} {content : Option κ} (h : c.AnswersHeld build) (hsees : c.SeesOnly q content)
    {answer : Except String ρ} (hq : c.pc q = .done answer) : answer = build content := by
  obtain ⟨a, ha, hanswer⟩ := h q answer hq
  rw [hsees.2, List.mem_singleton] at ha
  exact ha ▸ hanswer

/-- In every run whose replacements bring descriptors under which no other package is cached or
being read, no query is given a superseded package. -/
theorem run_servesCurrent (r : Readers κ ρ δ) (zip : Option (Package κ)) (es : List (Event ι κ))
    (hfresh : EveryStep (fun pre e => FreshDescriptor r.path (run r zip pre) e) es) :
    EveryPrefix (fun pre => (run r zip pre).AnswersHeld r) es ∧
      EveryPrefix (ServesFinal r zip) es := by
  have hheld : EveryPrefix (fun pre => (run r zip pre).AnswersHeld r) es :=
    (run_sound r zip hfresh).imp fun pre h => ⟨h.index.answersHeld, h.charDict.answersHeld⟩
  refine ⟨hheld, fun es' hes' pre kind q post heq hidle hpost => ?_⟩
  have hanswers := hheld es' hes'
  subst heq
  have hsees := run_seesOnly hidle hpost
  cases kind
  · exact fun answer hq => hanswers.1.of_seesOnly hsees hq
  · exact fun answer hq => hanswers.2.of_seesOnly hsees hq

/-- A package holds a number, which is its index and its dictionary. -/
def numbers : Readers ℕ ℕ ℕ where
  path := "zh_CN.zip"
  buildStorySearchIndex := fun archive => archive.elim (.error "No such file or directory") .ok
  readCharDict := fun archive => archive.getD 0

/-- A query from its beginning to its answer when the cache has no entry for it. -/
def miss (kind : Kind) (q : ℕ) : List (Event ℕ ℕ) := .begin kind q :: List.replicate 4 (.act kind q)

/-- A query that finds the entry under its descriptor. -/
def hit (kind : Kind) (q : ℕ) : List (Event ℕ ℕ) := .begin kind q :: List.replicate 2 (.act kind q)

def firstPackage : Package ℕ := ⟨4096, 100000000, 1234, 1⟩

/-- Of the same size as the first package, with the digits of its modification time split
elsewhere. -/
def secondPackage : Package ℕ := ⟨4096, 1000000001, 234, 2⟩

/-- A query stands between its `stat` and its look-up while the package is replaced. -/
def replacedInQuery : List (Event ℕ ℕ) :=
  [.begin .charDict 0, .act .charDict 0, .replace ⟨4096, 1700000000, 5, 2⟩] ++
    List.replicate 3 (.act .charDict 0) ++ miss .charDict 1

theorem run_servesCurrent_replacedInQuery :
    EveryPrefix (fun pre => (run numbers (some firstPackage) pre).AnswersHeld numbers)
        replacedInQuery ∧
      EveryPrefix (ServesFinal numbers (some firstPackage)) replacedInQuery := by
  have hquery : EveryStep (fun pre e => FreshDescriptor numbers.path
      (run numbers (some firstPackage) pre) e) [.begin .charDict 0, .act .charDict 0] :=
    EveryStep.nil.append (by simp [FreshDescriptor])
  have hfresh : FreshDescriptor numbers.path (run numbers (some firstPackage)
      [.begin .charDict 0, .act .charDict 0]) (.replace ⟨4096, 1700000000, 5, 2⟩) := by
    refine ⟨?_, ?_⟩
    · rintro archive (⟨s, hs, -⟩ | ⟨q, hq⟩)
      · cases hs
      · cases hq
    · rintro archive (⟨s, hs, -⟩ | ⟨q, hq⟩)
      · cases hs
      · by_cases hq0 : q = 0
        · subst hq0
          cases hq
        · simp [run, next, Cache.begin, loadCharDict, start, Cache.empty, hq0] at hq
  have hrest : ∀ e ∈ List.replicate 3 (Event.act .charDict 0) ++ miss .charDict 1, ∀ pre,
      FreshDescriptor numbers.path (run numbers (some firstPackage) pre) e := by
    simp [miss, FreshDescriptor]
  have hall := (hquery.snoc hfresh).append hrest
  exact run_servesCurrent numbers (some firstPackage) replacedInQuery (by
    simpa [replacedInQuery] using hall)

/-- The second package has the descriptor of the first, so a query that begins after it was put
in place is given the index of the first. -/
theorem run_not_servesCurrent :
    ¬ ∀ (zip : Option (Package ℕ)) (es : List (Event ℕ ℕ)),
      EveryStep (fun pre e => Changes (run numbers zip pre) e) es →
        EveryPrefix (fun pre => (run numbers zip pre).AnswersHeld numbers) es ∧
          EveryPrefix (ServesFinal numbers zip) es := by
  intro h
  have hquery : EveryStep (fun pre e => Changes (run numbers (some firstPackage) pre) e)
      (miss .index 0) := EveryStep.nil.append (by simp [Changes])
  have hchanges : EveryStep (fun pre e => Changes (run numbers (some firstPackage) pre) e)
      (miss .index 0 ++ [.replace secondPackage] ++ hit .index 1) :=
    (hquery.snoc fun old hold => by cases hold; decide).append (by simp [hit, Changes])
  have hfinal := (h (some firstPackage) _ hchanges).2.self _ .index 1 _ rfl rfl (by decide)
  exact absurd (hfinal (.ok 1) rfl) (by decide)

end Claims

end PrtsMcp.StoryCaches
