import PrtsMcp.StorePaths

/-!
# JSON stores

The stores that datasets are read from: a directory and a zip archive, either of which may be kept in
a database, and a store with another one to fall back on.
-/
namespace PrtsMcp.Stores

open StorePaths

/-! ## Sources -/

/-- The rows of a database with their decoded bodies, and the queries that fail. -/
structure Database where
  body : String → String → Option (Except String (List UInt8))
  failure : String → String → Option String

/-- `GameDb::exists`. -/
def Database.rowExists (db : Database) (ns path : String) : Except String Bool :=
  match db.failure ns path with
  | some message => .error message
  | none => .ok (db.body ns path).isSome

def Database.raw (db : Database) (ns path : String) : Except String (List UInt8) :=
  match db.failure ns path with
  | some message => .error message
  | none => (db.body ns path).getD (.error "Query returned no rows")

inductive ReadError where
  | notFound
  | other (message : String)

structure Files where
  isFile : Target → Bool
  readToString : Target → Except ReadError String

/-- An entry of an archive: whether the archive opens it, and what it then reads. -/
structure Entry where
  opens : Bool
  text : Except String String

abbrev Archive := String → Option Entry

/-- What the stores run on: the platform with its files, and the readers of texts. -/
structure Env (ν : Type) where
  platform : Platform
  files : Files
  parse : String → Except String ν
  parseBytes : List UInt8 → Except String ν
  utf8Error : List UInt8 → String

structure DirectoryStore where
  root : List Component
  database : Option (Database × String)

/-- The store of a zip archive, with what is found at its path. -/
structure ZipStore where
  database : Option Database
  isFile : Bool
  isDatabase : Bool
  openDatabase : Except String Database
  archive : Except String Archive

inductive Store where
  | directory (store : DirectoryStore)
  | zip (store : ZipStore)
  | fallback (primary fallback : Store)

variable {ν : Type}

/-! ## Directories -/

namespace DirectoryStore

def sqliteRead (env : Env ν) (store : DirectoryStore) (path : String) :
    Option (Except StoreError String) :=
  store.database.map fun source => do
    let path ← normalizePath path
    let bytes ← (source.1.raw source.2 path).mapError .io
    match String.fromUTF8? ⟨bytes.toArray⟩ with
    | some text => return text
    | none => throw (.io (env.utf8Error bytes))

def fileExists (env : Env ν) (store : DirectoryStore) (path : String) : Except StoreError Bool :=
  match store.database with
  | some (db, ns) => do
    let path ← normalizePath path
    (db.rowExists ns path).mapError .io
  | none => (resolve env.platform store.root path).map env.files.isFile

def readFile (env : Env ν) (store : DirectoryStore) (path : String) : Except StoreError String := do
  let target ← resolve env.platform store.root path
  (env.files.readToString target).mapError fun
    | .notFound => .notFound path
    | .other message => .io message

def readJson (env : Env ν) (store : DirectoryStore) (path : String) : Except StoreError ν := do
  let text ← (store.sqliteRead env path).getD (store.readFile env path)
  (env.parse text).mapError (.badJson path)

end DirectoryStore

/-! ## Archives -/

namespace ZipStore

def databaseHandle (store : ZipStore) : Except String (Option Database) :=
  match store.database with
  | some db => .ok (some db)
  | none => if store.isDatabase then store.openDatabase.map some else .ok none

def fileExists (store : ZipStore) (path : String) : Except StoreError Bool :=
  if store.database.isNone && !store.isFile then .ok false
  else do
    let inner ← normalizePath path
    match ← store.databaseHandle.mapError .io with
    | some db => (db.rowExists "story" inner).mapError .io
    | none =>
      let archive ← store.archive.mapError .io
      return (archive inner).any Entry.opens

/-- `by_name`, and the text of the entry. -/
def readEntry (archive : Archive) (path inner : String) : Except StoreError String :=
  match archive inner with
  | none => .error (.zipEntryNotFound path)
  | some entry => if entry.opens then entry.text.mapError .io else .error (.zipEntryNotFound path)

def readJson (env : Env ν) (store : ZipStore) (path : String) : Except StoreError ν := do
  let inner ← normalizePath path
  match ← store.databaseHandle.mapError .io with
  | some db =>
    let bytes ← (db.raw "story" inner).mapError fun _ => .zipEntryNotFound path
    (env.parseBytes bytes).mapError (.badJson path)
  | none =>
    let archive ← store.archive.mapError .io
    let text ← readEntry archive path inner
    (env.parse text).mapError (.badJson path)

end ZipStore

/-! ## Fallbacks -/

inductive Side where
  | primary
  | fallback
  deriving DecidableEq, Repr

namespace Store

def fileExists (env : Env ν) : Store → String → Except StoreError Bool
  | directory store, path => store.fileExists env path
  | zip store, path => store.fileExists path
  | fallback primary other, path => do
    if ← primary.fileExists env path then return true
    other.fileExists env path

/-- `store_for`. -/
def storeFor (env : Env ν) (primary other : Store) (path : String) : Except StoreError Side := do
  if ← primary.fileExists env path then return .primary
  if ← other.fileExists env path then return .fallback
  throw (.fallbackNotFound path)

def readJson (env : Env ν) : Store → String → Except StoreError ν
  | directory store, path => store.readJson env path
  | zip store, path => store.readJson env path
  | fallback primary other, path => do
    match ← storeFor env primary other path with
    | .primary => primary.readJson env path
    | .fallback => other.readJson env path

end Store

/-! ## Containment -/

/-- The same files at and below the root. -/
def SameBelow (root : List Component) (files files' : Files) : Prop :=
  ∀ target, Contained root target →
    files.isFile target = files'.isFile target ∧ files.readToString target = files'.readToString target

/-- Whatever lies outside of the root of a directory, reading the path gives the same. -/
def ReadsBelow (ν : Type) (platform : Platform) (path : String) : Prop :=
  ∀ (env : Env ν) (files : Files) (store : DirectoryStore), env.platform = platform →
    SameBelow store.root env.files files →
    store.fileExists env path = store.fileExists { env with files } path ∧
      store.readJson env path = store.readJson { env with files } path

theorem readsBelow_of_anchored {platform : Platform} {path : String} (h : Anchored platform path) :
    ReadsBelow ν platform path := by
  rintro env files store rfl hsame
  cases hdb : store.database with
  | some source =>
    constructor
    · simp only [DirectoryStore.fileExists, hdb]
    · simp only [DirectoryStore.readJson, DirectoryStore.sqliteRead, hdb, Option.map_some, Option.getD_some]
  | none =>
    simp only [DirectoryStore.fileExists, DirectoryStore.readJson, DirectoryStore.sqliteRead,
      DirectoryStore.readFile, hdb, Option.map_none, Option.getD_none]
    cases htarget : resolve env.platform store.root path with
    | error e => exact ⟨rfl, rfl⟩
    | ok target =>
      obtain ⟨hisFile, hread⟩ := hsame target (contained_of_anchored h htarget)
      simp only [Except.map, bind, Except.bind]
      rw [hisFile, hread]
      exact ⟨rfl, rfl⟩

/-- A target outside of the root is read. -/
theorem anchored_of_readsBelow {platform : Platform} {path : String} (h : ReadsBelow ν platform path) :
    Anchored platform path := by
  by_contra hnot
  obtain ⟨root, target, htarget, houtside⟩ := exists_not_contained hnot
  let absent : Files := ⟨fun _ => false, fun _ => .error .notFound⟩
  let broken : Files := ⟨fun _ => false, fun t => if t = target then .error (.other "") else .error .notFound⟩
  have hsame : SameBelow root broken absent := by
    intro t ht
    have hne : t ≠ target := fun heq => houtside (heq ▸ ht)
    exact ⟨rfl, if_neg hne⟩
  have hread := (h ⟨platform, broken, fun _ => .error "", fun _ => .error "", fun _ => ""⟩ absent
    ⟨root, none⟩ rfl hsame).2
  simp only [DirectoryStore.readJson, DirectoryStore.sqliteRead, DirectoryStore.readFile, Option.map_none,
    Option.getD_none, htarget] at hread
  simp [broken, absent, bind, Except.bind, Except.mapError] at hread

/-! ## Lookups -/

/-- What a look for a path comes to: it is there, it is there in an entry that cannot be opened, it
is not there, or the look fails. -/
inductive Finding where
  | seen
  | hidden
  | absent
  | failed
  deriving DecidableEq, Repr

/-- The answer to whether a path exists, after a look for it. -/
def Finding.Answers (finding : Finding) (answer : Except StoreError Bool) : Prop :=
  match finding with
  | seen => answer = .ok true
  | hidden => answer = .ok false
  | absent => answer = .ok false
  | failed => ∃ e, answer = .error e

def Database.find (db : Database) (ns inner : String) : Finding :=
  if (db.failure ns inner).isSome then .failed
  else if (db.body ns inner).isSome then .seen else .absent

namespace DirectoryStore

def find (env : Env ν) (store : DirectoryStore) (path : String) : Finding :=
  match store.database with
  | some (db, ns) =>
    match normalizePath path with
    | .error _ => .failed
    | .ok inner => db.find ns inner
  | none =>
    match resolve env.platform store.root path with
    | .error _ => .failed
    | .ok target => if env.files.isFile target then .seen else .absent

/-- The path is a file of the directory, or a row of its database. -/
def Contains (env : Env ν) (store : DirectoryStore) (path : String) : Prop :=
  match store.database with
  | some (db, ns) => ∃ inner, normalizePath path = .ok inner ∧ (db.body ns inner).isSome
  | none => ∃ target, resolve env.platform store.root path = .ok target ∧ env.files.isFile target

end DirectoryStore

namespace ZipStore

/-- What the store reads from. -/
inductive Source where
  | database (db : Database)
  | archive (archive : Archive)

def source (store : ZipStore) : Except String Source := do
  match ← store.databaseHandle with
  | some db => return .database db
  | none => store.archive.map .archive

def Source.find : Source → String → Finding
  | database db, inner => db.find "story" inner
  | archive entries, inner =>
    match entries inner with
    | none => .absent
    | some entry => if entry.opens then .seen else .hidden

def Source.Contains : Source → String → Prop
  | database db, inner => (db.body "story" inner).isSome
  | archive entries, inner => (entries inner).isSome

def find (store : ZipStore) (path : String) : Finding :=
  if store.database.isNone && !store.isFile then .absent
  else
    match normalizePath path with
    | .error _ => .failed
    | .ok inner =>
      match store.source with
      | .error _ => .failed
      | .ok source => source.find inner

/-- The archive is there and has an entry at the path, whether or not it can be opened; or the
database has a row. -/
def Contains (store : ZipStore) (path : String) : Prop :=
  (store.database.isSome ∨ store.isFile) ∧ ∃ inner source,
    normalizePath path = .ok inner ∧ store.source = .ok source ∧ source.Contains inner

end ZipStore

namespace Store

def find (env : Env ν) : Store → String → Finding
  | directory store, path => store.find env path
  | zip store, path => store.find path
  | fallback primary other, path =>
    match primary.find env path with
    | .seen => .seen
    | .failed => .failed
    | .absent => other.find env path
    | .hidden =>
      match other.find env path with
      | .seen => .seen
      | .failed => .failed
      | .hidden => .hidden
      | .absent => .hidden

def Contains (env : Env ν) : Store → String → Prop
  | directory store, path => store.Contains env path
  | zip store, path => store.Contains path
  | fallback primary other, path => primary.Contains env path ∨ other.Contains env path

end Store

/-! ## Looks and answers -/

theorem Database.find_answers (db : Database) (ns inner : String) :
    (db.find ns inner).Answers ((db.rowExists ns inner).mapError .io) := by
  rw [Database.find, Database.rowExists]
  cases db.failure ns inner with
  | some message => exact ⟨.io message, rfl⟩
  | none => cases (db.body ns inner).isSome <;> rfl

theorem Database.find_contains {db : Database} {ns inner : String} (h : db.find ns inner ≠ .failed) :
    (db.body ns inner).isSome ↔ db.find ns inner = .seen ∨ db.find ns inner = .hidden := by
  rw [Database.find] at h ⊢
  cases hfailure : (db.failure ns inner).isSome with
  | true => exact absurd (if_pos hfailure) h
  | false => cases (db.body ns inner).isSome <;> simp

theorem DirectoryStore.find_answers (env : Env ν) (store : DirectoryStore) (path : String) :
    (store.find env path).Answers (store.fileExists env path) := by
  rw [DirectoryStore.find, DirectoryStore.fileExists]
  cases store.database with
  | some source =>
    simp only
    cases normalizePath path with
    | error e => exact ⟨e, rfl⟩
    | ok inner => exact source.1.find_answers source.2 inner
  | none =>
    simp only
    cases resolve env.platform store.root path with
    | error e => exact ⟨e, rfl⟩
    | ok target =>
      simp only [Except.map]
      cases env.files.isFile target <;> rfl

theorem DirectoryStore.find_contains {env : Env ν} {store : DirectoryStore} {path : String}
    (h : store.find env path ≠ .failed) :
    store.Contains env path ↔ store.find env path = .seen ∨ store.find env path = .hidden := by
  rw [DirectoryStore.find] at h ⊢
  rw [DirectoryStore.Contains]
  cases hdb : store.database with
  | some source =>
    simp only [hdb] at h ⊢
    cases hinner : normalizePath path with
    | error e =>
      rw [hinner] at h
      exact absurd rfl h
    | ok inner =>
      simp only [hinner] at h ⊢
      rw [← Database.find_contains h]
      exact ⟨fun ⟨_, heq, hbody⟩ => Except.ok.inj heq ▸ hbody, fun hbody => ⟨inner, rfl, hbody⟩⟩
  | none =>
    simp only [hdb] at h ⊢
    cases htarget : resolve env.platform store.root path with
    | error e =>
      rw [htarget] at h
      exact absurd rfl h
    | ok target =>
      cases hfile : env.files.isFile target with
      | true => simp [hfile]
      | false => simp [hfile]

theorem ZipStore.Source.find_contains {source : Source} {inner : String}
    (h : source.find inner ≠ .failed) :
    source.Contains inner ↔ source.find inner = .seen ∨ source.find inner = .hidden := by
  cases source with
  | database db => exact Database.find_contains h
  | archive entries =>
    rw [ZipStore.Source.Contains, ZipStore.Source.find]
    cases entries inner with
    | none => simp
    | some entry => cases entry.opens <;> simp

theorem ZipStore.find_answers (store : ZipStore) (path : String) :
    (store.find path).Answers (store.fileExists path) := by
  rw [ZipStore.find, ZipStore.fileExists]
  split
  · rfl
  · cases normalizePath path with
    | error e => exact ⟨e, rfl⟩
    | ok inner =>
      rw [ZipStore.source]
      cases store.databaseHandle with
      | error message => exact ⟨.io message, rfl⟩
      | ok handle =>
        cases handle with
        | some db => exact db.find_answers "story" inner
        | none =>
          cases store.archive with
          | error message => exact ⟨.io message, rfl⟩
          | ok entries =>
            change Finding.Answers (ZipStore.Source.find (.archive entries) inner)
              (.ok ((entries inner).any Entry.opens))
            rw [ZipStore.Source.find]
            cases entries inner with
            | none => rfl
            | some entry =>
              change Finding.Answers (if entry.opens then .seen else .hidden) (.ok entry.opens)
              cases entry.opens <;> rfl

theorem ZipStore.find_contains {store : ZipStore} {path : String} (h : store.find path ≠ .failed) :
    store.Contains path ↔ store.find path = .seen ∨ store.find path = .hidden := by
  rw [ZipStore.find] at h ⊢
  rw [ZipStore.Contains]
  by_cases hnone : store.database.isNone && !store.isFile
  · rw [if_pos hnone]
    simp only [Bool.and_eq_true, Option.isNone_iff_eq_none, Bool.not_eq_true'] at hnone
    simp [hnone.1, hnone.2]
  · rw [if_neg hnone] at h ⊢
    have hthere : store.database.isSome ∨ store.isFile := by
      cases hdb : store.database with
      | some db => exact .inl rfl
      | none =>
        rw [hdb] at hnone
        exact .inr (by simpa using hnone)
    cases hinner : normalizePath path with
    | error e =>
      rw [hinner] at h
      exact absurd rfl h
    | ok inner =>
      cases hsource : store.source with
      | error e =>
        rw [hinner, hsource] at h
        exact absurd rfl h
      | ok source =>
        simp only [hinner, hsource] at h ⊢
        rw [← ZipStore.Source.find_contains h]
        constructor
        · rintro ⟨-, inner', source', hinner', hsource', hcontains⟩
          rw [Except.ok.inj hinner', Except.ok.inj hsource']
          exact hcontains
        · exact fun hcontains => ⟨hthere, inner, source, rfl, rfl, hcontains⟩

theorem Store.find_answers (env : Env ν) (store : Store) (path : String) :
    (store.find env path).Answers (store.fileExists env path) := by
  induction store with
  | directory store => exact store.find_answers env path
  | zip store => exact store.find_answers path
  | fallback primary other ihprimary ihother =>
    rw [Store.find, Store.fileExists]
    cases hprimary : primary.find env path with
    | seen =>
      rw [hprimary] at ihprimary
      rw [show primary.fileExists env path = .ok true from ihprimary]
      rfl
    | failed =>
      rw [hprimary] at ihprimary
      obtain ⟨e, he⟩ := ihprimary
      rw [he]
      exact ⟨e, rfl⟩
    | absent =>
      rw [hprimary] at ihprimary
      rw [show primary.fileExists env path = .ok false from ihprimary]
      exact ihother
    | hidden =>
      rw [hprimary] at ihprimary
      rw [show primary.fileExists env path = .ok false from ihprimary]
      simp only
      cases hother : other.find env path <;> rw [hother] at ihother <;> exact ihother

theorem Store.find_contains {env : Env ν} {store : Store} {path : String}
    (h : store.find env path ≠ .failed) :
    store.Contains env path ↔ store.find env path = .seen ∨ store.find env path = .hidden := by
  induction store with
  | directory store => exact DirectoryStore.find_contains h
  | zip store => exact ZipStore.find_contains h
  | fallback primary other ihprimary ihother =>
    rw [Store.find] at h ⊢
    rw [Store.Contains]
    cases hprimary : primary.find env path with
    | failed =>
      rw [hprimary] at h
      exact absurd rfl h
    | seen =>
      rw [hprimary] at ihprimary
      simp [ihprimary]
    | absent =>
      rw [hprimary] at h ihprimary
      rw [← ihother h]
      simp [ihprimary]
    | hidden =>
      rw [hprimary] at h ihprimary
      have hcontains : primary.Contains env path := (ihprimary (by decide)).mpr (.inr rfl)
      cases hother : other.find env path with
      | failed =>
        rw [hother] at h
        exact absurd rfl h
      | seen | hidden | absent => simp [hcontains]

/-! ## Falling back -/

/-- The fallback serves only what the primary store does not have, and an answer to whether a path
exists is the right one. -/
structure FallsBack (env : Env ν) (primary other : Store) (path : String) : Prop where
  served : Store.storeFor env primary other path = .ok .fallback → ¬ primary.Contains env path
  exact : ∀ answer, (Store.fallback primary other).fileExists env path = .ok answer →
    (answer = true ↔ primary.Contains env path ∨ other.Contains env path)

/-- Neither store has the path in an entry that it cannot open, unless the look fails. -/
def Told (env : Env ν) (primary other : Store) (path : String) : Prop :=
  (primary.find env path = .hidden → other.find env path = .failed) ∧
    (primary.find env path = .absent → other.find env path ≠ .hidden)

/-- The fallback is taken when the primary store answers that the path is not there, and it is. -/
theorem storeFor_eq_fallback {env : Env ν} {primary other : Store} {path : String} :
    Store.storeFor env primary other path = .ok .fallback ↔
      primary.fileExists env path = .ok false ∧ other.fileExists env path = .ok true := by
  rw [Store.storeFor]
  cases primary.fileExists env path with
  | error e => simp [bind, Except.bind]
  | ok answer =>
    cases answer with
    | true => simp [bind, Except.bind, pure, Except.pure]
    | false =>
      cases other.fileExists env path with
      | error e => simp [bind, Except.bind]
      | ok answer => cases answer <;> simp [bind, Except.bind, pure, Except.pure, throw, throwThe,
          MonadExceptOf.throw]

theorem Finding.Answers.eq_false_iff {finding : Finding} {answer : Except StoreError Bool}
    (h : finding.Answers answer) : answer = .ok false ↔ finding = .hidden ∨ finding = .absent := by
  cases finding with
  | seen => simp [show answer = .ok true from h]
  | hidden => simp [show answer = .ok false from h]
  | absent => simp [show answer = .ok false from h]
  | failed =>
    obtain ⟨e, rfl⟩ := h
    simp

theorem Finding.Answers.eq_true_iff {finding : Finding} {answer : Except StoreError Bool}
    (h : finding.Answers answer) : answer = .ok true ↔ finding = .seen := by
  cases finding with
  | seen => simp [show answer = .ok true from h]
  | hidden => simp [show answer = .ok false from h]
  | absent => simp [show answer = .ok false from h]
  | failed =>
    obtain ⟨e, rfl⟩ := h
    simp

theorem Finding.Answers.error_iff {finding : Finding} {answer : Except StoreError Bool}
    (h : finding.Answers answer) : (∃ e, answer = .error e) ↔ finding = .failed := by
  cases finding with
  | seen => simp [show answer = .ok true from h]
  | hidden => simp [show answer = .ok false from h]
  | absent => simp [show answer = .ok false from h]
  | failed => exact iff_of_true h rfl

/-- An answer is wrong exactly if what is there cannot be opened. -/
theorem exact_iff (env : Env ν) (store : Store) (path : String) :
    (∀ answer, store.fileExists env path = .ok answer → (answer = true ↔ store.Contains env path)) ↔
      store.find env path ≠ .hidden := by
  have hanswers := store.find_answers env path
  constructor
  · intro h hhidden
    have hcontains : store.Contains env path :=
      (Store.find_contains (by rw [hhidden]; decide)).mpr (.inr hhidden)
    have hfalse := hanswers.eq_false_iff.mpr (.inl hhidden)
    exact Bool.false_ne_true ((h false hfalse).mpr hcontains)
  · intro hnot answer hanswer
    cases answer with
    | true =>
      have hseen := hanswers.eq_true_iff.mp hanswer
      exact iff_of_true rfl ((Store.find_contains (by rw [hseen]; decide)).mpr (.inl hseen))
    | false =>
      have habsent := (hanswers.eq_false_iff.mp hanswer).resolve_left hnot
      refine iff_of_false Bool.false_ne_true fun hcontains => ?_
      have hfound := (Store.find_contains (by rw [habsent]; decide)).mp hcontains
      rw [habsent] at hfound
      simp at hfound

/-- The wrong store serves a path that the primary one has in an entry that it cannot open. -/
theorem served_iff (env : Env ν) (primary other : Store) (path : String) :
    (Store.storeFor env primary other path = .ok .fallback → ¬ primary.Contains env path) ↔
      ¬ (primary.find env path = .hidden ∧ other.find env path = .seen) := by
  rw [storeFor_eq_fallback, (primary.find_answers env path).eq_false_iff,
    (other.find_answers env path).eq_true_iff]
  constructor
  · rintro h ⟨hhidden, hseen⟩
    exact h ⟨.inl hhidden, hseen⟩ ((Store.find_contains (by rw [hhidden]; decide)).mpr (.inr hhidden))
  · rintro h ⟨hhidden | habsent, hseen⟩ hcontains
    · exact h ⟨hhidden, hseen⟩
    · have hfound := (Store.find_contains (by rw [habsent]; decide)).mp hcontains
      rw [habsent] at hfound
      simp at hfound

theorem fallsBack_iff (env : Env ν) (primary other : Store) (path : String) :
    FallsBack env primary other path ↔ Told env primary other path := by
  have hboth : FallsBack env primary other path ↔
      ¬ (primary.find env path = .hidden ∧ other.find env path = .seen) ∧
        (Store.fallback primary other).find env path ≠ .hidden :=
    ⟨fun h => ⟨(served_iff env primary other path).mp h.served, (exact_iff env _ path).mp h.exact⟩,
      fun h => ⟨(served_iff env primary other path).mpr h.1, (exact_iff env _ path).mpr h.2⟩⟩
  rw [hboth, Told, Store.find]
  cases primary.find env path <;> cases other.find env path <;> simp

def dataRoot : List Component := [.drive 'D', .rootDir, .normal "data".toList]

def noFiles : Env Unit where
  platform := .unix
  files := ⟨fun _ => false, fun _ => .error .notFound⟩
  parse := fun _ => .ok ()
  parseBytes := fun _ => .ok ()
  utf8Error := fun _ => ""

/-- An archive whose entries are all there, and are opened or not. -/
def archiveStore (opens : Bool) : Store :=
  .zip ⟨none, true, false, .error "", .ok fun _ => some ⟨opens, .ok "\x7b\x7d"⟩⟩

end PrtsMcp.Stores
