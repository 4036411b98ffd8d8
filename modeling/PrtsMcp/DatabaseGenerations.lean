import PrtsMcp.DatabaseSync

/-!
# Generations of the SQLite store

Over every sequence of syncs, each stopped anywhere: the active generation never decreases, its
digest is fixed by it, its file was verified before it was published, and the files that the
pointers name stay.
-/
namespace PrtsMcp.DatabaseSync

open Process SyncTypes DatabasePointer

/-- `q` may be active after `p`. -/
def Follows (p q : ActiveDatabase) : Prop :=
  p.generation ≤ q.generation ∧ (p.generation = q.generation → p.sha256 = q.sha256)

/-- The active pointer stays or moves on. -/
def World.Advances (w w' : World) : Prop :=
  ∀ p, w.named .active = some p → ∃ q, w'.named .active = some q ∧ Follows p q

/-- The files that the pointers name. -/
def World.names (w : World) : List String :=
  (w.named .active).toList.map ActiveDatabase.fileName ++
    (w.named .previous).toList.map ActiveDatabase.fileName

/-- The file stands there with a digest that was computed of it. -/
def World.Authentic (w : World) (name sha256 : String) : Prop :=
  (name, sha256) ∈ w.hashed ∧ ∃ file, w.file? name = some file ∧ file.sha256 = sha256

/-- The environment of a step: a pointer can be read, and a random name is not in use. -/
def Reliable (v : Visit World Op Reply) : Prop :=
  match v.op, v.reply with
  | .read _, .fail _ => False
  | .read _, .refused _ => False
  | .drawName sha256, .uuid text => generationName sha256 text ∉ v.before.names
  | _, _ => True

instance : DecidablePred Reliable := fun v => by
  unfold Reliable
  split <;> infer_instance

/-- The active pointer can be read. -/
def World.Legible (w : World) : Prop := ∃ o, w.pointer .active = .ok o

/-- What a step may do to the pointers and to the files they name. -/
structure SafeStep (v : Visit World Op Reply) : Prop where
  advances : v.before.Advances v.after
  kept : ∀ name ∈ v.before.names, v.after.file? name = v.before.file? name
  published : v.after.named .active = v.before.named .active ∨
    ∃ p, v.after.named .active = some p ∧ v.before.Authentic p.fileName p.sha256 ∧
      v.after.Authentic p.fileName p.sha256
  hashed : v.before.hashed ⊆ v.after.hashed
  legible : v.before.Legible → v.after.Legible

theorem follows_refl (p : ActiveDatabase) : Follows p p := ⟨le_refl _, fun _ => rfl⟩

theorem Follows.trans {p q r : ActiveDatabase} (h : Follows p q) (h' : Follows q r) :
    Follows p r := by
  refine ⟨h.1.trans h'.1, fun heq => ?_⟩
  have hpq : p.generation = q.generation := le_antisymm h.1 (h'.1.trans heq.ge)
  have hqr : q.generation = r.generation := hpq.symm.trans heq
  exact (h.2 hpq).trans (h'.2 hqr)

theorem advances_of_eq {w w' : World} (h : w'.named .active = w.named .active) : w.Advances w' :=
  fun p hp => ⟨p, h.trans hp, follows_refl p⟩

instance : IsTrans World World.Advances where
  trans a b c hab hbc := by
    intro p hp
    obtain ⟨q, hq, hpq⟩ := hab p hp
    obtain ⟨r, hr, hqr⟩ := hbc q hq
    exact ⟨r, hr, hpq.trans hqr⟩

section Frames

variable {w w' : World} {slot : Slot} {name : String}

theorem named_of_text (h : w'.text slot = w.text slot) : w'.named slot = w.named slot := by
  simp only [World.named, World.pointer, h]

theorem legible_of_text (ht : w'.text .active = w.text .active) (h : w.Legible) : w'.Legible := by
  obtain ⟨o, ho⟩ := h
  exact ⟨o, by rw [World.pointer, ht]; exact ho⟩

theorem names_of_text (h : w'.text = w.text) : w'.names = w.names := by
  rw [World.names, World.names, named_of_text (congrFun h _), named_of_text (congrFun h _)]

theorem mem_names_of_active {p : ActiveDatabase} (h : w.named .active = some p) :
    p.fileName ∈ w.names := by
  simp [World.names, h]

theorem file?_of_files (h : w'.files = w.files) : w'.file? name = w.file? name := by
  rw [World.file?, World.file?, h]

theorem lookup_filter_ne {files : List (String × DatabaseFile)} {other : String}
    (h : name ≠ other) : (files.filter fun f => f.1 ≠ other).lookup name = files.lookup name := by
  induction files with
  | nil => rfl
  | cons f files ih =>
    obtain ⟨key, file⟩ := f
    by_cases hkey : key = other
    · have hne : (name == key) = false := by
        rw [hkey]
        exact beq_false_of_ne h
      rw [List.filter_cons_of_neg (by simpa using hkey), ih, List.lookup_cons, hne]
    · rw [List.filter_cons_of_pos (by simpa using hkey), List.lookup_cons, List.lookup_cons, ih]

theorem file?_remove {other : String} (h : name ≠ other) : (w.remove other).file? name = w.file? name :=
  lookup_filter_ne h

theorem file?_put {other : String} {file : DatabaseFile} (h : name ≠ other) :
    (w.put other file).file? name = w.file? name := by
  have hne : (name == other) = false := beq_false_of_ne h
  rw [World.file?, World.put, List.lookup_cons, hne]
  exact lookup_filter_ne h

theorem World.Authentic.mono {sha256 : String} (h : w.Authentic name sha256) (hfiles : w'.files = w.files)
    (hhashed : w.hashed ⊆ w'.hashed) : w'.Authentic name sha256 := by
  obtain ⟨hmem, file, hfile, hsha⟩ := h
  exact ⟨hhashed hmem, file, (file?_of_files hfiles).trans hfile, hsha⟩

/-- A step that leaves the pointers and the files alone. -/
theorem safe_of_same {v : Visit World Op Reply} (htext : v.after.text = v.before.text)
    (hfiles : v.after.files = v.before.files) (hhashed : v.before.hashed ⊆ v.after.hashed) :
    SafeStep v where
  advances := advances_of_eq (named_of_text (congrFun htext _))
  kept _ _ := file?_of_files hfiles
  published := .inl (named_of_text (congrFun htext _))
  hashed := hhashed
  legible := legible_of_text (congrFun htext _)

/-- A step that changes no named file. -/
theorem safe_of_files {v : Visit World Op Reply} (htext : v.after.text = v.before.text)
    (hfiles : ∀ name ∈ v.before.names, v.after.file? name = v.before.file? name)
    (hhashed : v.after.hashed = v.before.hashed) : SafeStep v where
  advances := advances_of_eq (named_of_text (congrFun htext _))
  kept := hfiles
  published := .inl (named_of_text (congrFun htext _))
  hashed := fun _ h => hhashed ▸ h
  legible := legible_of_text (congrFun htext _)

end Frames

/-! ## Rules for the steps -/

/-- What a predicate speaks about: the pointers, the files, and the digests computed so far. -/
def Stable (P : World → Prop) : Prop :=
  ∀ w w' : World, w'.text = w.text → w'.files = w.files → w.hashed ⊆ w'.hashed → P w → P w'

theorem Stable.and {P Q : World → Prop} (hP : Stable P) (hQ : Stable Q) :
    Stable fun w => P w ∧ Q w :=
  fun w w' ht hf hh h => ⟨hP w w' ht hf hh h.1, hQ w w' ht hf hh h.2⟩

theorem stable_authentic (name sha256 : String) : Stable fun w => w.Authentic name sha256 :=
  fun _ _ _ hf hh h => h.mono hf hh

section Rules

variable {α : Type} {P : World → Prop} {Q : α → World → Prop} {E : String → World → Prop}

abbrev Safe (P : World → Prop) (p : Step α) (Q : α → World → Prop)
    (E : String → World → Prop) : Prop := Triple Reliable SafeStep P p Q E

theorem safe_perform {op : Op} {f : Reply → World → Except String α × World} (hP : Stable P)
    (htext : ∀ reply w, (f reply w).2.text = w.text)
    (hfiles : ∀ reply w, (f reply w).2.files = w.files)
    (hhashed : ∀ reply w, w.hashed ⊆ (f reply w).2.hashed) :
    Safe P (.perform op f) (fun _ => P) fun _ => P :=
  triple_perform (fun reply w _ _ => safe_of_same (htext reply w) (hfiles reply w)
    (hhashed reply w))
    (fun reply w _ hw _ _ => hP w _ (htext reply w) (hfiles reply w) (hhashed reply w) hw)
    fun reply w _ hw _ _ => hP w _ (htext reply w) (hfiles reply w) (hhashed reply w) hw

/-- A file operation that keeps a predicate where it takes effect. -/
theorem safe_ioStep {op : Op} {f : World → World} (hstep : ∀ reply w, P w →
      SafeStep ⟨op, reply, w, f w⟩) (hP : ∀ w, P w → P (f w)) :
    Safe P (ioStep op f) (fun _ => P) fun _ => P := by
  refine triple_perform (fun reply w hw _ => ?_) (fun reply w a hw _ _ => ?_)
    fun reply w e hw _ _ => ?_
  · cases reply.io with
    | ok _ => exact hstep reply w hw
    | error e => exact safe_of_same rfl rfl fun _ h => h
  · cases reply.io with
    | ok _ => exact hP w hw
    | error e => exact hw
  · cases reply.io with
    | ok _ => exact hP w hw
    | error e => exact hw

theorem safe_quiet {op : Op} {f : World → World} (hP : Stable P)
    (htext : ∀ w, (f w).text = w.text) (hfiles : ∀ w, (f w).files = w.files)
    (hhashed : ∀ w, w.hashed ⊆ (f w).hashed) :
    Safe P (ioStep op f) (fun _ => P) fun _ => P :=
  safe_ioStep (fun _ w _ => safe_of_same (htext w) (hfiles w) (hhashed w))
    fun w hw => hP w (f w) (htext w) (hfiles w) (hhashed w) hw

theorem safe_id {op : Op} (hP : Stable P) : Safe P (ioStep op id) (fun _ => P) fun _ => P :=
  safe_quiet hP (fun _ => rfl) (fun _ => rfl) fun _ _ h => h

theorem safe_inspect {op : Op} {f : Reply → World → Except String α}
    (h : ∀ reply w a, P w → Reliable ⟨op, reply, w, w⟩ → f reply w = .ok a → Q a w) :
    Safe P (inspect op f) Q fun _ => P :=
  triple_perform (fun _ _ _ _ => safe_of_same rfl rfl fun _ h => h)
    (fun reply w a hw hA ha => h reply w a hw hA ha) fun _ _ _ hw _ _ => hw

theorem safe_inspect' {op : Op} {f : Reply → World → Except String α} :
    Safe P (inspect op f) (fun _ => P) fun _ => P := safe_inspect fun _ _ _ hw _ _ => hw

theorem safe_guardThat {ok : Bool} {e : String} :
    Safe P (guardThat ok e) (fun _ w => P w ∧ ok = true) fun _ => P := by
  unfold guardThat
  cases ok with
  | true => exact triple_pure fun w hw => ⟨hw, rfl⟩
  | false => exact triple_throw fun w hw => hw

theorem safe_orThrow {e : String} {o : Option α} :
    Safe P (orThrow e o) (fun _ => P) fun _ => P := by
  cases o with
  | some a => exact triple_pure fun w hw => hw
  | none => exact triple_throw fun w hw => hw

theorem safe_ignore {p : Step α} (h : Safe P p (fun _ => P) fun _ => P) :
    Safe P (Prog.ignore p : Step Unit) (fun _ => P) E := triple_ignore (R := P) h

theorem safe_read {f : World → α} : Safe P (Prog.read f : Step α) (fun _ => P) E :=
  triple_read fun _ hw => hw

end Rules

section Verification

variable {P : World → Prop} {E : String → World → Prop}

theorem hash_cases (name : String) (reply : Reply) (w : World) :
    (∃ file, w.file? name = some file ∧ w.hash name reply =
      (.ok file.sha256, { w with hashed := (name, file.sha256) :: w.hashed })) ∨
    ∃ e, w.hash name reply = (.error e, w) := by
  unfold World.hash
  split
  · next file _ hfile => exact .inl ⟨file, hfile, rfl⟩
  · exact .inr ⟨_, rfl⟩
  · exact .inr ⟨_, rfl⟩

theorem hashFile_spec (hP : Stable P) (name : String) :
    Safe P (hashFile name) (fun digest w => P w ∧ w.Authentic name digest) fun _ => P := by
  refine triple_perform (fun reply w hw _ => ?_) (fun reply w a hw _ ha => ?_)
    fun reply w e hw _ he => ?_
  · rcases hash_cases name reply w with ⟨file, -, h⟩ | ⟨e, h⟩
    · rw [h]
      exact safe_of_same rfl rfl (List.subset_cons_self _ _)
    · rw [h]
      exact safe_of_same rfl rfl fun _ h => h
  · rcases hash_cases name reply w with ⟨file, hfile, h⟩ | ⟨e, h⟩
    · rw [h] at ha ⊢
      obtain rfl := Except.ok.inj ha
      exact ⟨hP w _ rfl rfl (List.subset_cons_self _ _) hw, List.mem_cons_self, file, hfile, rfl⟩
    · simp [h] at ha
  · rcases hash_cases name reply w with ⟨file, -, h⟩ | ⟨e', h⟩
    · simp [h] at he
    · rw [h]
      exact hw

/-- A digest that matches authenticates the file. -/
theorem authenticate_spec (hP : Stable P) (name sha256 : String) :
    Safe P (authenticate name sha256 false) (fun _ w => P w ∧ w.Authentic name sha256)
      fun _ => P := by
  refine triple_bind (hashFile_spec hP name) fun digest => ?_
  refine safe_guardThat.conseq (fun _ h => h) (fun _ h => h) (fun _ h => h) (fun _ w h => ?_)
    fun _ _ h => h.1
  obtain ⟨⟨hw, hauth⟩, heq⟩ := h
  rw [decide_eq_true_eq] at heq
  exact ⟨hw, heq ▸ hauth⟩

theorem verifyContents_spec {name : String} {file : DatabaseFile} (full : Bool) :
    Safe P (verifyContents name file full) (fun _ => P) fun _ => P := by
  cases full with
  | false => exact triple_pure fun _ hw => hw
  | true => exact safe_inspect'

theorem proveContents_spec (hP : Stable P) {name : String} {file : DatabaseFile}
    {expected : Expected} {full : Bool} (reused : Bool) :
    Safe P (proveContents name file expected full reused) (fun _ => P) fun _ => P := by
  cases reused with
  | true => exact triple_pure fun _ hw => hw
  | false =>
    refine triple_bind (verifyContents_spec full) fun _ => ?_
    refine triple_bind (R := fun _ => P) ?_ fun _ => ?_
    · cases full with
      | false => exact triple_pure fun _ hw => hw
      | true => exact safe_ignore (safe_quiet hP (fun _ => rfl) (fun _ => rfl) fun _ _ h => h)
    · refine safe_quiet hP (fun w => ?_) (fun w => ?_) fun w _ h => ?_
      · split <;> rfl
      · split <;> rfl
      · split <;> exact h

/-- `admit` changes nothing that the pointers depend on; a fresh admission reads the bytes. -/
theorem admitFile_spec (hP : Stable P) (name : String) (expected : Expected) (strict fresh : Bool) :
    Safe P (admitFile name expected strict fresh)
      (fun _ w => P w ∧ (fresh = true → w.Authentic name expected.sha256)) fun _ => P := by
  refine triple_bind safe_inspect' fun file => ?_
  have hdone : Stable fun w => P w ∧ (fresh = true → w.Authentic name expected.sha256) :=
    fun w w' ht hf hh h => ⟨hP w w' ht hf hh h.1, fun hfresh => (h.2 hfresh).mono hf hh⟩
  have hguard : ∀ {ok : Bool} {e : String},
      Safe (fun w => P w ∧ (fresh = true → w.Authentic name expected.sha256)) (guardThat ok e)
        (fun _ w => P w ∧ (fresh = true → w.Authentic name expected.sha256)) fun _ => P :=
    safe_guardThat.conseq (fun _ h => h) (fun _ h => h) (fun _ h => h) (fun _ _ h => h.1)
      fun _ _ h => h.1
  refine triple_bind (R := fun _ => P) (safe_guardThat.post fun _ _ h => h.1) fun _ => ?_
  refine triple_bind (R := fun reused w => P w ∧ (reused = true → fresh = false))
    (triple_read fun w hw => ⟨hw, ?_⟩) fun reused => ?_
  · cases fresh <;> simp
  refine triple_fact fun hreused => ?_
  refine triple_bind (R := fun _ w => P w ∧ (fresh = true → w.Authentic name expected.sha256))
    ?_ fun _ => ?_
  · cases reused with
    | true => exact triple_pure fun w hw => ⟨hw, fun hfresh => by simp [hreused] at hfresh⟩
    | false => exact (authenticate_spec hP name expected.sha256).post fun _ w h => ⟨h.1, fun _ => h.2⟩
  refine triple_bind ((safe_id hdone).conseq (fun _ h => h) (fun _ h => h) (fun _ h => h)
    (fun _ _ h => h) fun _ _ h => h.1) fun _ => ?_
  refine triple_bind hguard fun _ => ?_
  refine triple_bind hguard fun _ => ?_
  refine triple_bind hguard fun _ => ?_
  refine triple_bind hguard fun _ => ?_
  refine triple_bind safe_read fun stamped => ?_
  exact (proveContents_spec hdone reused).conseq (fun _ h => h) (fun _ h => h) (fun _ h => h)
    (fun _ _ h => h) fun _ _ h => h.1

theorem verify_spec (hP : Stable P) (name : String) (m : DatabaseManifest) (strict fresh : Bool) :
    Safe P (verify name m strict fresh)
      (fun _ w => P w ∧ (fresh = true → w.Authentic name m.sha256)) fun _ => P :=
  admitFile_spec hP name _ strict fresh

end Verification

/-! ## Rules for the pointers -/

/-- The manifest may follow the active generation. -/
def World.Allows (w : World) (p : ActiveDatabase) : Prop :=
  ∀ q, w.named .active = some q → Follows q p

/-- A pointer that may be published. -/
structure World.Ready (w : World) (p : ActiveDatabase) : Prop where
  legible : w.Legible
  allows : w.Allows p
  authentic : w.Authentic p.fileName p.sha256

theorem named_eq {w : World} {slot : Slot} {o : Option ActiveDatabase}
    (h : w.pointer slot = .ok o) : w.named slot = o := by
  rw [World.named, h]
  rfl

/-- What does not depend on the previous pointer. -/
def ActiveStable (P : World → Prop) : Prop :=
  ∀ w w' : World, w'.text .active = w.text .active → w'.files = w.files → w.hashed ⊆ w'.hashed →
    P w → P w'

theorem ActiveStable.stable {P : World → Prop} (h : ActiveStable P) : Stable P :=
  fun w w' ht => h w w' (congrFun ht _)

theorem ActiveStable.and {P Q : World → Prop} (hP : ActiveStable P) (hQ : ActiveStable Q) :
    ActiveStable fun w => P w ∧ Q w :=
  fun w w' ht hf hh h => ⟨hP w w' ht hf hh h.1, hQ w w' ht hf hh h.2⟩

theorem activeStable_legible : ActiveStable World.Legible := fun _ _ ht _ _ => legible_of_text ht

theorem activeStable_allows (p : ActiveDatabase) : ActiveStable fun w => w.Allows p := by
  intro w w' ht _ _ h q hq
  rw [named_of_text ht] at hq
  exact h q hq

theorem activeStable_ready (p : ActiveDatabase) : ActiveStable fun w => w.Ready p :=
  fun w w' ht hf hh h => ⟨activeStable_legible w w' ht hf hh h.legible,
    activeStable_allows p w w' ht hf hh h.allows, h.authentic.mono hf hh⟩

theorem activeStable_named (o : Option ActiveDatabase) :
    ActiveStable fun w => w.named .active = o :=
  fun _ _ ht _ _ h => (named_of_text ht).trans h

theorem pointer_setPointer {w : World} {slot : Slot} {p : ActiveDatabase} {text : String}
    (h : p.encode = .ok text) : (w.setPointer slot text).pointer slot = .ok (some p) := by
  simp only [World.pointer, World.setPointer, Function.update_self, parse_encode h]
  rfl

theorem text_setPointer_previous {w : World} {text : String} :
    (w.setPointer .previous text).text .active = w.text .active := by
  simp [World.setPointer]

theorem encode_of_encodeOrThrow {P : World → Prop} (p : ActiveDatabase) :
    Safe P (encodeOrThrow p) (fun text w => P w ∧ p.encode = .ok text) fun _ => P := by
  unfold encodeOrThrow
  cases h : p.encode with
  | ok text => exact triple_pure fun w hw => ⟨hw, rfl⟩
  | error e => exact triple_throw fun w hw => hw

section Pointers

variable {P : World → Prop} {E : String → World → Prop}

/-- Writing the previous pointer changes what neither the active generation nor any file. -/
theorem writePointer_previous_spec (hP : ActiveStable P) (p : ActiveDatabase) :
    Safe P (writePointer .previous p) (fun _ => P) fun _ => P := by
  refine triple_bind (safe_id hP.stable) fun _ => ?_
  refine triple_bind (R := fun _ => P) ((encode_of_encodeOrThrow p).post fun _ _ h => h.1)
    fun text => ?_
  refine triple_bind (safe_id hP.stable) fun _ => ?_
  refine triple_bind (R := fun _ => P) ?_ fun _ => safe_id hP.stable
  have hput : ∀ w, P w → P (w.setPointer .previous text) := fun w hw =>
    hP w _ text_setPointer_previous rfl (fun _ h => h) hw
  exact safe_ioStep (fun reply w _ => ⟨advances_of_eq (named_of_text text_setPointer_previous),
    fun _ _ => rfl, .inl (named_of_text text_setPointer_previous), fun _ h => h,
    legible_of_text text_setPointer_previous⟩) hput

/-- What holds after an activation. -/
def Activated (p : ActiveDatabase) (w : World) : Prop := w.Legible ∧ w.named .active = some p

theorem activeStable_activated (p : ActiveDatabase) : ActiveStable (Activated p) :=
  activeStable_legible.and (activeStable_named _)

theorem writePointer_active_spec (p : ActiveDatabase) :
    Safe (fun w => w.Ready p) (writePointer .active p) (fun _ => Activated p)
      fun _ => World.Legible := by
  have hready := (activeStable_ready p).stable
  have hlegible : ∀ w : World, w.Ready p → w.Legible := fun _ h => h.legible
  refine triple_bind ((safe_id hready).conseq (fun _ h => h) (fun _ h => h) (fun _ h => h)
    (fun _ _ h => h) fun _ w h => hlegible w h) fun _ => ?_
  refine triple_bind ((encode_of_encodeOrThrow p).conseq (fun _ h => h) (fun _ h => h)
    (fun _ h => h) (fun _ _ h => h) fun _ w h => hlegible w h) fun text => ?_
  refine triple_fact fun hencode => ?_
  refine triple_bind ((safe_id hready).conseq (fun _ h => h) (fun _ h => h) (fun _ h => h)
    (fun _ _ h => h) fun _ w h => hlegible w h) fun _ => ?_
  have hset : ∀ w : World, Activated p (w.setPointer .active text) := fun w =>
    ⟨⟨_, pointer_setPointer hencode⟩, named_eq (pointer_setPointer hencode)⟩
  refine triple_bind (R := fun _ => Activated p) ?_ fun _ =>
    (safe_id (activeStable_activated p).stable).conseq (fun _ h => h) (fun _ h => h)
      (fun _ h => h) (fun _ _ h => h) fun _ w h => h.1
  refine triple_perform (fun reply w hw _ => ?_) (fun reply w a hw _ ha => ?_)
    fun reply w e hw _ he => ?_
  · cases reply.io with
    | ok _ =>
      refine ⟨fun q hq => ⟨p, (hset w).2, hw.allows q hq⟩, fun _ _ => rfl,
        .inr ⟨p, (hset w).2, hw.authentic, hw.authentic.mono rfl fun _ h => h⟩, fun _ h => h,
        fun _ => (hset w).1⟩
    | error e => exact safe_of_same rfl rfl fun _ h => h
  · cases hio : reply.io with
    | ok _ =>
      simp only [hio] at ha ⊢
      exact hset w
    | error e => simp [hio] at ha
  · cases hio : reply.io with
    | ok _ => simp [hio] at he
    | error e => exact hw.legible

theorem keepPrevious_spec (hP : ActiveStable P) (p old : ActiveDatabase) :
    Safe P (keepPrevious p old) (fun _ => P) fun _ => P := by
  unfold keepPrevious
  split
  · refine triple_bind_attempt (Q := fun _ => P) (E := fun _ => P)
      ((hashFile_spec hP.stable old.fileName).post fun _ _ h => h.1) (fun digest => ?_) fun e => ?_
    · dsimp only
      split
      · exact writePointer_previous_spec hP old
      · exact triple_pure fun _ hw => hw
    · exact triple_pure fun _ hw => hw
  · exact triple_pure fun _ hw => hw

theorem activate_spec (p : ActiveDatabase) :
    Safe (fun w => w.Ready p) (activate p) (fun _ => Activated p) fun _ => World.Legible := by
  have hready := activeStable_ready p
  have hlegible : ∀ (_ : String) (w : World), w.Ready p → w.Legible := fun _ _ h => h.legible
  refine triple_bind (safe_inspect'.onError hlegible) fun current => ?_
  refine triple_bind (R := fun _ w => World.Ready w p) ?_ fun _ => writePointer_active_spec p
  unfold retireActive
  split
  · exact (keepPrevious_spec hready p _).onError hlegible
  · exact triple_pure fun _ hw => hw

theorem readPointer_spec (slot : Slot) :
    Safe P (readPointer slot) (fun read w => P w ∧ read = w.pointer slot) fun _ => P := by
  refine safe_inspect fun reply w a hw hA ha => ⟨hw, ?_⟩
  have hio : reply.io = .ok () := by
    cases reply with
    | fail text => exact hA.elim
    | refused e => exact hA.elim
    | _ => rfl
  rw [hio] at ha
  exact (Except.ok.inj ha).symm

theorem drawName_spec (sha256 : String) :
    Safe P (drawName sha256) (fun name w => P w ∧ name ∉ w.names) fun _ => P := by
  refine safe_inspect fun reply w a hw hA ha => ⟨hw, ?_⟩
  split at ha
  · next text =>
    obtain rfl := Except.ok.inj ha
    exact hA
  · cases ha

end Pointers

/-! ## Rules for the sync -/

section Prune

variable {current : ActiveDatabase} {retained : Option ActiveDatabase} {name : String}

/-- Before the entries are gone through: both pointers are known. -/
def Pruning (current : ActiveDatabase) (retained : Option ActiveDatabase) (w : World) : Prop :=
  Activated current w ∧ w.named .previous = retained

theorem stable_pruning : Stable (Pruning current retained) := fun w w' ht hf hh h =>
  ⟨activeStable_activated current w w' (congrFun ht _) hf hh h.1,
    (named_of_text (congrFun ht _)).trans h.2⟩

theorem Pruning.names {w : World} (h : Pruning current retained w) (hname : name ∈ w.names) :
    name = current.fileName ∨ retained.any (fun p => name = p.fileName) = true := by
  rw [World.names, h.1.2, h.2] at hname
  cases retained <;> simpa using hname

/-- A step that changes one file, which no pointer names. -/
theorem safe_file {P : World → Prop} {op : Op} {f : World → World} (name : String)
    (hP : ∀ w w' : World, w'.text = w.text → P w → P w') (hother : ∀ w, P w → name ∉ w.names)
    (htext : ∀ w, (f w).text = w.text) (hfiles : ∀ w n, n ≠ name → (f w).file? n = w.file? n)
    (hhashed : ∀ w, (f w).hashed = w.hashed) :
    Safe P (ioStep op f) (fun _ => P) fun _ => P := by
  refine safe_ioStep (fun reply w hw => ?_) fun w hw => hP w _ (htext w) hw
  refine safe_of_files (htext w) (fun n hn => ?_) (hhashed w)
  exact hfiles w n fun h => hother w hw (h ▸ hn)

theorem pruneDatabase_spec (hcurrent : name ≠ current.fileName)
    (hretained : retained.any (fun p => name = p.fileName) = false) :
    Safe (Pruning current retained) (pruneDatabase name) (fun _ => Pruning current retained)
      fun _ => Pruning current retained := by
  have hquiet : ∀ {op : Op} {f : World → World}, (∀ w, (f w).text = w.text) →
      (∀ w, (f w).files = w.files) → (∀ w, w.hashed ⊆ (f w).hashed) →
      Safe (Pruning current retained) (ioStep op f) (fun _ => Pruning current retained)
        fun _ => Pruning current retained := safe_quiet stable_pruning
  refine triple_bind (hquiet (fun _ => rfl) (fun _ => rfl) fun _ _ h => h) fun _ => ?_
  refine triple_bind (safe_id stable_pruning) fun _ => ?_
  refine triple_bind (safe_file name (fun w w' ht h => ?_) (fun w hw hn => ?_) (fun _ => rfl)
    (fun w n hn => file?_remove hn) fun _ => rfl) fun _ => ?_
  · exact ⟨⟨legible_of_text (congrFun ht _) h.1.1, (named_of_text (congrFun ht _)).trans h.1.2⟩,
      (named_of_text (congrFun ht _)).trans h.2⟩
  · rcases hw.names hn with h | h
    · exact hcurrent h
    · simp [hretained] at h
  refine triple_bind (safe_ignore (hquiet (fun _ => rfl) (fun _ => rfl) fun _ _ h => h))
    fun _ => ?_
  exact safe_ignore (hquiet (fun _ => rfl) (fun _ => rfl) fun _ _ h => h)

theorem pruneEntry_spec (entry : Entry) :
    Safe (Pruning current retained) (pruneEntry current retained entry)
      (fun _ => Pruning current retained) fun _ => Pruning current retained := by
  cases entry with
  | database name =>
    refine triple_bind safe_read fun leased => ?_
    split
    · exact triple_pure fun _ hw => hw
    · next h =>
      simp only [not_or] at h
      exact safe_ignore (pruneDatabase_spec h.1 (by simpa using h.2.1))
  | lease name =>
    refine triple_bind safe_read fun found => ?_
    split
    · exact triple_pure fun _ hw => hw
    · refine safe_ignore (triple_bind (safe_id stable_pruning) fun _ =>
        triple_bind (safe_id stable_pruning) fun _ => ?_)
      exact safe_quiet stable_pruning (fun _ => rfl) (fun _ => rfl) fun _ _ h => h
  | stamp name =>
    refine triple_bind safe_read fun found => ?_
    split
    · exact triple_pure fun _ hw => hw
    · exact safe_ignore (safe_quiet stable_pruning (fun _ => rfl) (fun _ => rfl) fun _ _ h => h)

/-- `prune` spares what the two pointers name. -/
theorem prune_spec (current : ActiveDatabase) :
    Safe (Activated current) (prune current) (fun _ => World.Legible) fun _ => World.Legible := by
  have hlegible : ∀ (_ : String) (w : World), Activated current w → w.Legible := fun _ _ h => h.1
  refine triple_bind (R := fun retained => Pruning current retained.toOption.join)
    (((readPointer_spec .previous).post fun retained w h => ?_).onError hlegible)
    fun retained => ?_
  · obtain ⟨hw, rfl⟩ := h
    exact ⟨hw, rfl⟩
  have hdone : ∀ w, Pruning current retained.toOption.join w → w.Legible := fun w h => h.1.1
  refine triple_bind (R := fun _ => Pruning current retained.toOption.join)
    (safe_inspect'.onError fun _ w h => hdone w h) fun listed => ?_
  split
  · exact ((triple_forEach (E := fun _ => Pruning current retained.toOption.join)
      fun entry _ => pruneEntry_spec entry).post fun _ w h => hdone w h).onError
        fun _ w h => hdone w h
  · exact triple_pure hdone

end Prune

section Sync

variable {m : DatabaseManifest}

/-- Nothing active forbids the manifest. -/
def Admissible (m : DatabaseManifest) (w : World) : Prop :=
  w.Legible ∧ ∀ name, w.Allows (m.pointer name)

theorem activeStable_admissible : ActiveStable (Admissible m) := fun w w' ht hf hh h =>
  ⟨activeStable_legible w w' ht hf hh h.1,
    fun name => activeStable_allows _ w w' ht hf hh (h.2 name)⟩

theorem Admissible.ready {w : World} {name : String} (h : Admissible m w)
    (hauth : w.Authentic name m.sha256) : w.Ready (m.pointer name) :=
  ⟨h.1, h.2 name, hauth⟩

theorem firstVerified_spec (strict : Bool) (names : List String) :
    Safe (Admissible m) (firstVerified m strict names)
      (fun found w => Admissible m w ∧ ∀ name ∈ found, w.Authentic name m.sha256)
      fun _ => World.Legible := by
  induction names with
  | nil => exact triple_pure fun w hw => ⟨hw, by simp⟩
  | cons name names ih =>
    refine triple_bind_attempt (verify_spec activeStable_admissible.stable name m strict true)
      (fun _ => ?_) fun _ => ih
    refine triple_pure fun w hw => ⟨hw.1, fun n hn => ?_⟩
    obtain rfl := Option.some.inj hn
    exact hw.2 rfl

theorem prepareCached_spec (strict : Bool) :
    Safe (Admissible m) (prepareCached m strict)
      (fun updated w => w.Legible ∧ (updated = none → Admissible m w)) fun _ => World.Legible := by
  refine triple_bind (R := fun found w => Admissible m w ∧
    ∀ name ∈ found, w.Authentic name m.sha256) ?_ fun found => ?_
  · refine triple_bind (safe_inspect'.onError fun _ _ h => h.1) fun listed => ?_
    split
    · exact firstVerified_spec strict _
    · exact triple_pure fun w hw => ⟨hw, by simp⟩
  · cases found with
    | none => exact triple_pure fun w hw => ⟨hw.1.1, fun _ => hw.1⟩
    | some name =>
      refine (triple_bind (activate_spec (m.pointer name)) fun _ =>
        triple_bind (prune_spec _) fun _ => triple_pure fun w hw => ?_).pre fun w hw => ?_
      · exact ⟨hw, by simp⟩
      · exact hw.1.ready (hw.2 name rfl)

/-- The check of `prepare` lets only a later generation, or the same one, pass. -/
theorem prepareFrom_spec (strict : Bool) (pointer : Option ActiveDatabase) :
    Safe (fun w => w.Legible ∧ w.named .active = pointer) (prepareFrom m strict false pointer)
      (fun updated w => w.Legible ∧ (updated = none → Admissible m w)) fun _ => World.Legible := by
  cases pointer with
  | none =>
    refine (prepareCached_spec strict).pre fun w hw => ⟨hw.1, fun name q hq => ?_⟩
    simp [hw.2] at hq
  | some p =>
    rw [prepareFrom]
    split_ifs with hnewer hdigest hsame
    · exact triple_throw fun w hw => hw.1
    · exact triple_throw fun w hw => hw.1
    all_goals
      have hfollows : ∀ name, Follows p (m.pointer name) := fun name =>
        ⟨not_lt.mp hnewer, fun heq => by
          by_contra hne
          exact hdigest ⟨heq, hne⟩⟩
      have hadmissible : ∀ w : World, w.Legible ∧ w.named .active = some p → Admissible m w :=
        fun w hw => ⟨hw.1, fun name q hq => by
          obtain rfl := Option.some.inj (hq.symm.trans hw.2)
          exact hfollows name⟩
    · have hP := activeStable_legible.and (activeStable_named (some p))
      refine triple_bind_attempt (verify_spec hP.stable p.fileName m strict false)
        (fun _ => ?_) fun _ => (prepareCached_spec strict).pre hadmissible
      refine (triple_bind (R := fun _ => Activated p) (triple_pure fun w hw => hw) fun _ =>
        triple_bind (prune_spec p) fun _ => triple_pure fun w hw => ?_).pre fun w hw => hw.1
      exact ⟨hw, by simp⟩
    · exact (prepareCached_spec strict).pre hadmissible

theorem prepare_spec (strict : Bool) :
    Safe World.Legible (prepare m strict)
      (fun updated w => w.Legible ∧ (updated = none → Admissible m w)) fun _ => World.Legible := by
  refine triple_bind (readPointer_spec .active) fun read => ?_
  cases read with
  | ok pointer =>
    exact (prepareFrom_spec strict pointer).pre fun w hw => ⟨hw.1, named_eq hw.2.symm⟩
  | error e =>
    -- the pointer is legible and its read succeeds
    intro w _ hw
    obtain ⟨⟨o, ho⟩, herror⟩ := hw
    exact absurd (herror.trans ho) (by simp)

theorem createLease_spec {P : World → Prop} (hP : Stable P) (name : String) :
    Safe P (createLease name) (fun _ => P) fun _ => P := by
  refine safe_perform hP (fun reply w => ?_) (fun reply w => ?_) fun reply w _ h => ?_
  all_goals
    split
    · first
      | rfl
      | exact h
    · split
      · first
        | rfl
        | exact h
      · first
        | rfl
        | exact h

/-- A name for the manifest's file that no pointer uses. -/
def Vacant (m : DatabaseManifest) (name : String) (w : World) : Prop :=
  Admissible m w ∧ name ∉ w.names

theorem vacant_of_text {name : String} {w w' : World} (ht : w'.text = w.text)
    (h : Vacant m name w) : Vacant m name w' := by
  refine ⟨⟨legible_of_text (congrFun ht _) h.1.1, fun n q hq => ?_⟩, names_of_text ht ▸ h.2⟩
  rw [named_of_text (congrFun ht _)] at hq
  exact h.1.2 n q hq

/-- The new file takes a name that no pointer uses, and goes again unless it verifies. -/
theorem publish_spec (file : DatabaseFile) (strict : Bool) :
    Safe (Admissible m) (publish file m strict) (fun p => Activated p) fun _ => World.Legible := by
  refine triple_bind ((drawName_spec m.sha256).onError fun _ _ h => h.1) fun name => ?_
  have hstable : Stable (Vacant m name) := fun w w' ht _ _ h => vacant_of_text ht h
  have hlegible : ∀ (_ : String) (w : World), Vacant m name w → w.Legible := fun _ _ h => h.1.1
  have hfile : ∀ {op : Op} {f : World → World}, (∀ w, (f w).text = w.text) →
      (∀ w n, n ≠ name → (f w).file? n = w.file? n) → (∀ w, (f w).hashed = w.hashed) →
      Safe (Vacant m name) (ioStep op f) (fun _ => Vacant m name) fun _ => Vacant m name :=
    safe_file name (fun _ _ => vacant_of_text) fun _ h => h.2
  refine triple_bind ((createLease_spec hstable name).onError hlegible) fun _ => ?_
  refine triple_bind ((hfile (f := fun w => w.put name file) (fun _ => rfl) (fun w n hn => file?_put hn) fun _ => rfl).onError
    hlegible) fun _ => ?_
  refine triple_bind_attempt (verify_spec hstable name m strict true) (fun _ => ?_) fun e => ?_
  · refine (triple_bind (activate_spec (m.pointer name)) fun _ =>
      triple_pure fun w hw => hw).pre fun w hw => ?_
    exact hw.1.1.ready (hw.2 rfl)
  · refine triple_bind (safe_ignore (hfile (fun _ => rfl) (fun w n hn => file?_remove hn)
      fun _ => rfl)) fun _ => ?_
    refine triple_bind (safe_ignore (safe_quiet hstable (fun _ => rfl) (fun _ => rfl)
      fun _ _ h => h)) fun _ => ?_
    exact triple_throw fun w hw => hlegible "" w hw

theorem discover_spec {P : World → Prop} (owner repo : String) :
    Safe P (discover owner repo) (fun _ => P) fun _ => P := by
  refine triple_bind safe_inspect' fun data => triple_bind safe_orThrow fun releases => ?_
  refine triple_bind (R := fun _ => P) ?_ fun latest => ?_
  · unfold newestRelease
    split
    · exact safe_orThrow
    · exact triple_throw fun _ hw => hw
  refine triple_bind safe_orThrow fun tag => triple_bind safe_orThrow fun version => ?_
  refine triple_bind safe_orThrow fun url => triple_bind safe_inspect' fun value => ?_
  split
  · exact triple_pure fun _ hw => hw
  · exact triple_throw fun _ hw => hw

theorem transfer_spec {P : World → Prop} (hP : Stable P) (release : Json) (m : DatabaseManifest) :
    Safe P (transfer release m) (fun _ => P) fun _ => P :=
  triple_bind (safe_id hP) fun _ => triple_bind safe_orThrow fun _ =>
    triple_bind safe_inspect' fun _ => safe_inspect'

/-- One sync. -/
theorem syncWithSource_spec (owner repo : String) (strict : Bool) :
    Safe World.Legible (syncWithSource owner repo strict) (fun _ => World.Legible)
      fun _ => World.Legible := by
  have hstable : Stable World.Legible := activeStable_legible.stable
  refine triple_bind (safe_id hstable) fun _ => triple_bind (safe_id hstable) fun _ => ?_
  refine triple_bind (safe_id hstable) fun _ => triple_bind (safe_id hstable) fun _ => ?_
  refine triple_bind (safe_ignore (safe_id hstable)) fun _ => ?_
  refine triple_bind (discover_spec owner repo) fun found => ?_
  refine triple_bind (prepare_spec strict) fun updated => ?_
  cases updated with
  | some updated => exact triple_pure fun w hw => hw.1
  | none =>
    have hadmissible := activeStable_admissible (m := found.2)
    refine triple_bind (((transfer_spec hadmissible.stable found.1 found.2).onError
      fun _ _ h => h.1).pre fun w hw => hw.2 rfl) fun file => ?_
    refine triple_bind (publish_spec file strict) fun current => ?_
    exact triple_bind (prune_spec current) fun _ => triple_pure fun _ hw => hw

theorem call_spec (call : Call) :
    Safe World.Legible call.prog (fun _ => World.Legible) fun _ => World.Legible := by
  cases call with
  | sync owner repo strict =>
    exact triple_bind (syncWithSource_spec owner repo strict) fun _ => triple_pure fun _ hw => hw
  | restart =>
    exact safe_quiet activeStable_legible.stable (fun _ => rfl) (fun _ => rfl) fun _ _ h => h

end Sync

/-! ## Every sequence of syncs -/

/-- What the states of a run promise. -/
structure GenerationsKept (w : World) (vs : List (Visit World Op Reply)) : Prop where
  /-- The active generation never decreases, and fixes the digest. -/
  monotone : (w :: vs.map Visit.after).Pairwise World.Advances
  /-- A pointer names a file with a computed digest when it is published, -/
  published : ∀ v ∈ vs, v.after.named .active = v.before.named .active ∨
    ∃ p, v.after.named .active = some p ∧ v.before.Authentic p.fileName p.sha256
  /-- and as long as it is active. -/
  standing : ∀ s ∈ w :: vs.map Visit.after, s.named .active = w.named .active ∨
    ∃ p, s.named .active = some p ∧ s.Authentic p.fileName p.sha256
  /-- No step changes a file that a pointer names. -/
  retained : ∀ v ∈ vs, ∀ name ∈ v.before.names, v.after.file? name = v.before.file? name

/-- An authentic active file stays so, whatever a step does. -/
theorem SafeStep.standing {v : Visit World Op Reply} (h : SafeStep v)
    {start : Option ActiveDatabase} (hb : v.before.named .active = start ∨
      ∃ p, v.before.named .active = some p ∧ v.before.Authentic p.fileName p.sha256) :
    v.after.named .active = start ∨
      ∃ p, v.after.named .active = some p ∧ v.after.Authentic p.fileName p.sha256 := by
  rcases h.published with hsame | ⟨p, hp, -, hauth⟩
  · rw [hsame]
    refine hb.imp id ?_
    rintro ⟨p, hp, hmem, file, hfile, hsha⟩
    refine ⟨p, hp, h.hashed hmem, file, ?_, hsha⟩
    rw [h.kept p.fileName (mem_names_of_active hp)]
    exact hfile
  · exact .inr ⟨p, hp, hauth⟩

theorem visits_safe (calls : List (Call × List Reply)) (w : World) (hlegible : w.Legible)
    (hreliable : ∀ v ∈ visits calls w, Reliable v) : ∀ v ∈ visits calls w, SafeStep v := by
  have hcalls : ∀ call ∈ calls.map fun c => (c.1.prog, c.2), Triple Reliable
      (fun v => Reliable v ∧ SafeStep v ∧ v.before.Legible ∧ v.after.Legible) World.Legible call.1
      (fun _ => World.Legible) fun _ => World.Legible := by
    intro c hc
    obtain ⟨call, -, rfl⟩ := List.mem_map.mp hc
    exact ((call_spec call.1).invariant fun v _ hv => hv.legible).conseq (fun _ h => ⟨h, h⟩)
      (fun _ h => h) (fun _ h => h) (fun _ _ h => h.1) fun _ _ h => h.1
  intro v hv
  exact (session_steps hcalls (fun v hv => hv.2.2.2) hlegible hreliable v hv).2.1

/-- Over every sequence of syncs, whatever fails and wherever each of them stops. -/
theorem visits_generationsKept (calls : List (Call × List Reply)) (w : World)
    (hlegible : w.Legible) (hreliable : ∀ v ∈ visits calls w, Reliable v) :
    GenerationsKept w (visits calls w) := by
  have hsafe := visits_safe calls w hlegible hreliable
  have hlinked := session_linked (calls.map fun c => (c.1.prog, c.2)) w
  have hstanding := (hlinked.invariant (I := fun s => s.named .active = w.named .active ∨
    ∃ p, s.named .active = some p ∧ s.Authentic p.fileName p.sha256) (.inl rfl)
      fun v hv hb => (hsafe v hv).standing hb).1
  constructor
  · exact hlinked.pairwise fun v hv => (hsafe v hv).advances
  · intro v hv
    exact (hsafe v hv).published.imp id fun ⟨p, hp, hauth, _⟩ => ⟨p, hp, hauth⟩
  · intro s hs
    rcases List.mem_cons.mp hs with rfl | hs
    · exact .inl rfl
    · obtain ⟨v, hv, rfl⟩ := List.mem_map.mp hs
      exact (hstanding v hv).2
  · exact fun v hv => (hsafe v hv).kept

/-! ## A run -/

def digestOf (c : Char) : String := String.ofList (List.replicate 64 c)

def exampleFile (version digest : String) : DatabaseFile :=
  ⟨5, digest, [("derived_complete", "1"), ("source_version", version), ("publication_revision", "1"),
    ("compiler_version", "c")], true⟩

def exampleRelease (version : String) : Json :=
  .arr [.obj [("tag_name", .str ("data-" ++ version)), ("assets", .arr
    [.obj [("name", .str "manifest.json"), ("browser_download_url", .str "m")],
      .obj [("name", .str databaseAsset), ("browser_download_url", .str "z")]])]]

def exampleManifest (version digest : String) : Json :=
  .obj [("contractVersion", .str dataContractVersion),
    ("source", .obj [("versionId", .str version)]),
    ("sqlite", .obj [("contractVersion", .str contract), ("schemaVersion", .num 1 "1"),
      ("indexVersion", .num 1 "1"), ("language", .str "zh_CN"), ("compilerVersion", .str "c"),
      ("sourceVersion", .str version), ("publicationRevision", .num 1 "1"),
      ("asset", .str databaseAsset), ("sha256", .str digest), ("size", .num 5 "5"),
      ("compressedSha256", .str (digestOf 'f')), ("compressedSize", .num 3 "3")]),
    ("assets", .obj [(databaseAsset, .obj [("sha256", .str (digestOf 'f')),
      ("size", .num 3 "3")])])]

/-- The answers of a sync that downloads: the steps before and after the release's own. -/
def exampleReplies (version digest uuid : String) : List Reply :=
  List.replicate 5 .ok ++ [.json (exampleRelease version), .json (exampleManifest version digest)] ++
    [.ok, .ok, .ok, .body ⟨3, digestOf 'f'⟩ (some (exampleFile version digest)), .ok, .uuid uuid] ++
    List.replicate 40 .ok

def uuidOf (c : Char) : String := String.ofList (List.replicate 32 c)

/-- A first download, into a new directory, by a process that then ends. -/
def exampleCalls : List (Call × List Reply) :=
  [(.sync "o" "r" false, exampleReplies "26-09-02-04-06-00_ed95a2" (digestOf 'a') (uuidOf '1')),
    (.restart, [.ok])]

def emptyWorld : World := ⟨fun _ => none, [], [], [], [], []⟩

theorem visits_generationsKept_firstDownload :
    GenerationsKept emptyWorld (visits exampleCalls emptyWorld) :=
  visits_generationsKept exampleCalls emptyWorld ⟨none, rfl⟩ (by decide +kernel)

end PrtsMcp.DatabaseSync
