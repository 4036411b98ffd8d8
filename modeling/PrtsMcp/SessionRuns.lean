import PrtsMcp.Sessions

/-!
# Runs over the session table

What holds of the table, its counters and its watchdogs in every interleaving.
-/
namespace PrtsMcp.Sessions

open Interleaving JsonRpc Dispatch McpEndpoint

variable {φ α : Type}

abbrev keys (table : List (String × Session)) : List String := table.map Prod.fst

section Tables

variable {table : List (String × Session)} {id : String}

@[simp] theorem keys_update (id : String) (f : Session → Session)
    (table : List (String × Session)) : keys (update id f table) = keys table := by
  unfold keys update
  rw [List.map_map]
  apply List.map_congr_left
  intro e _
  by_cases h : e.1 = id <;> simp [h]

theorem keys_erase (id : String) (table : List (String × Session)) :
    keys (erase id table) = (keys table).filter (· ≠ id) := by
  unfold keys erase
  rw [List.filter_map]
  rfl

theorem mem_keys_of_lookup {s : Session} (h : table.lookup id = some s) : (id, s) ∈ table := by
  induction table with
  | nil => cases h
  | cons e table ih =>
    rw [List.lookup_cons] at h
    split at h
    · next heq =>
      cases h
      rw [eq_of_beq heq]
      exact List.mem_cons_self
    · exact List.mem_cons_of_mem _ (ih h)

theorem lookup_eq_none_iff : table.lookup id = none ↔ id ∉ keys table := by
  rw [List.lookup_eq_none_iff]
  constructor
  · intro h hmem
    obtain ⟨e, he, rfl⟩ := List.mem_map.mp hmem
    exact absurd (h e he) (by simp)
  · intro h e he
    have hne : id ≠ e.1 := by
      rintro rfl
      exact h (List.mem_map_of_mem he)
    simpa using hne

theorem mem_update {f : Session → Session} {e : String × Session} (h : e ∈ update id f table) :
    (e ∈ table ∧ e.1 ≠ id) ∨ ∃ s, (id, s) ∈ table ∧ e = (id, f s) := by
  obtain ⟨e', he', rfl⟩ := List.mem_map.mp h
  by_cases hid : e'.1 = id
  · refine .inr ⟨e'.2, ?_, by simp [hid]⟩
    rw [← hid]
    exact he'
  · exact .inl ⟨by simpa [hid] using he', by simp [hid]⟩

theorem mem_erase {e : String × Session} : e ∈ erase id table ↔ e ∈ table ∧ e.1 ≠ id := by
  simp [erase]

end Tables

/-! ## The state of initialization -/

/-- The session of this id, while it is there, has answered its initialization. -/
def Marked (c : Core) (id : String) : Prop :=
  id ∈ c.issued ∧ ∀ e ∈ c.table, e.1 = id → e.2.state.legacyInitialized = true

structure Good (c : Core) : Prop where
  nodup : (keys c.table).Nodup
  issued : ∀ id ∈ keys c.table, id ∈ c.issued
  known : ∀ id ∈ c.named, c.Known id
  returned : ∀ id ∈ c.returned, Marked c id

/-- What a task relies on. -/
def Holds (c : Core) : Task φ → Prop
  | .post request _ => ∀ id, request.headers.sessionId = some id → id ∈ c.named
  | .touch id _ => id ∈ c.named
  | .dispatch _ state _ _ => state.legacyInitialized = true
  | .write _ state => state.legacyInitialized = true
  | .create _ body => isInit body = true
  | .countInitialized id _ body => id ∈ c.issued ∧ isInit body = true
  | .spawn id _ body => id ∈ c.issued ∧ isInit body = true
  | .answer id _ body => id ∈ c.issued ∧ isInit body = true
  | .save id state _ => id ∈ c.issued ∧ state.legacyInitialized = true
  | .respond id => Marked c id
  | _ => True

/-- What the acts of others and the world around leave of a core. -/
structure Grows (c c' : Core) : Prop where
  named : c.named ⊆ c'.named
  issued : c.issued ⊆ c'.issued
  marked : ∀ id, Marked c id → Marked c' id

theorem Holds.grows {c c' : Core} {t : Task φ} (h : Holds c t) (hg : Grows c c') : Holds c' t := by
  cases t with
  | post request body => exact fun id hid => hg.named (h id hid)
  | touch id body => exact hg.named h
  | countInitialized id channel body => exact ⟨hg.issued h.1, h.2⟩
  | spawn id channel body => exact ⟨hg.issued h.1, h.2⟩
  | answer id channel body => exact ⟨hg.issued h.1, h.2⟩
  | save id state outcome => exact ⟨hg.issued h.1, h.2⟩
  | respond id => exact hg.marked id h
  | _ => exact h

/-- A core that differs in nothing but its clock and its counters. -/
structure Same (c c' : Core) : Prop where
  table : c'.table = c.table
  issued : c'.issued = c.issued
  named : c'.named = c.named
  returned : c'.returned = c.returned

theorem Same.refl (c : Core) : Same c c := ⟨rfl, rfl, rfl, rfl⟩

theorem Same.marked {c c' : Core} (h : Same c c') {id : String} : Marked c' id ↔ Marked c id := by
  unfold Marked
  rw [h.table, h.issued]

theorem Same.grows {c c' : Core} (h : Same c c') : Grows c c' :=
  ⟨by rw [h.named]; exact List.Subset.refl _, by rw [h.issued]; exact List.Subset.refl _,
    fun _ hm => h.marked.mpr hm⟩

theorem Same.good {c c' : Core} (h : Same c c') (hg : Good c) : Good c' := by
  constructor
  · rw [h.table]
    exact hg.nodup
  · rw [h.table, h.issued]
    exact hg.issued
  · unfold Core.Known
    rw [h.named, h.returned, h.issued]
    exact hg.known
  · rw [h.returned]
    exact fun id hid => h.marked.mpr (hg.returned id hid)

/-- A core with another table, of sessions that were there or are initialized. -/
structure Rewritten (c c' : Core) : Prop where
  keys : (keys c'.table).Sublist (keys c.table)
  sessions : ∀ e ∈ c'.table, e.2.state.legacyInitialized = true ∨
    ∃ s, (e.1, s) ∈ c.table ∧ s.state.legacyInitialized = e.2.state.legacyInitialized
  issued : c'.issued = c.issued
  named : c'.named = c.named
  returned : c'.returned = c.returned

theorem Rewritten.marked {c c' : Core} (h : Rewritten c c') {id : String} (hm : Marked c id) :
    Marked c' id := by
  refine ⟨h.issued ▸ hm.1, fun e he hid => ?_⟩
  rcases h.sessions e he with hflag | ⟨s, hs, hsame⟩
  · exact hflag
  · rw [← hsame]
    exact hm.2 _ hs hid

theorem Rewritten.grows {c c' : Core} (h : Rewritten c c') : Grows c c' :=
  ⟨by rw [h.named]; exact List.Subset.refl _, by rw [h.issued]; exact List.Subset.refl _,
    fun _ => h.marked⟩

theorem Rewritten.good {c c' : Core} (h : Rewritten c c') (hg : Good c) : Good c' := by
  constructor
  · exact hg.nodup.sublist h.keys
  · rw [h.issued]
    exact fun id hid => hg.issued id (h.keys.subset hid)
  · unfold Core.Known
    rw [h.named, h.returned, h.issued]
    exact hg.known
  · rw [h.returned]
    exact fun id hid => h.marked (hg.returned id hid)

theorem rewritten_update {c : Core} {id : String} {f : Session → Session}
    (hf : ∀ s, (f s).state.legacyInitialized = true ∨ (f s).state = s.state) :
    Rewritten c { c with table := update id f c.table } := by
  refine ⟨by rw [keys_update], fun e he => ?_, rfl, rfl, rfl⟩
  rcases mem_update he with ⟨he, -⟩ | ⟨s, hs, rfl⟩
  · exact .inr ⟨e.2, he, rfl⟩
  · rcases hf s with h | h
    · exact .inl h
    · exact .inr ⟨s, hs, by rw [h]⟩

theorem rewritten_erase {c : Core} {id : String} :
    Rewritten c { c with table := erase id c.table } := by
  refine ⟨?_, fun e he => .inr ⟨e.2, (mem_erase.mp he).1, rfl⟩, rfl, rfl, rfl⟩
  dsimp only
  rw [keys_erase]
  exact List.filter_sublist

section Acts

variable {cfg : Settings φ α} {t : Task φ} {c c' : Core} {e : Event} {ts : List (Task φ)}

theorem handleLegacyMessage_keeps (server : Server φ α) {state : ConnectionState}
    (h : state.legacyInitialized = true) (message : JsonValue φ) (channel : OutputChannel)
    (app : α) :
    (server.handleLegacyMessage state message channel app).2.legacyInitialized = true := by
  unfold Server.handleLegacyMessage
  dsimp only
  split
  · rw [if_pos h]
    exact h
  all_goals exact h

theorem handleLegacyMessage_isInit (server : Server φ α) {body : JsonValue φ}
    (h : isInit body = true) (channel : OutputChannel) (app : α) :
    (server.handleLegacyMessage .default body channel app).2.legacyInitialized = true := by
  have hmethod : methodOf body = some "initialize" := by
    simp only [isInit, Bool.and_eq_true, decide_eq_true_eq] at h
    exact h.2
  unfold Server.handleLegacyMessage
  rw [hmethod]
  rfl

/-- The messages of a session leave it initialized. -/
theorem legacyLoop_keeps (server : Server φ α) (channel : OutputChannel)
    {items : List (JsonValue φ × α)} {state : ConnectionState}
    (h : state.legacyInitialized = true) {result : List (JsonValue φ) × ConnectionState}
    (hloop : legacyLoop server channel state items = .ok result) :
    result.2.legacyInitialized = true := by
  induction items generalizing state result with
  | nil =>
    cases hloop
    exact h
  | cons item items ih =>
    obtain ⟨message, app⟩ := item
    rw [legacyLoop] at hloop
    by_cases hobject : message.isObject
    · rw [if_pos hobject] at hloop
      have hnext := handleLegacyMessage_keeps server h message channel app
      generalize server.handleLegacyMessage state message channel app = call at hnext hloop
      obtain ⟨⟨outcome, hint⟩, after⟩ := call
      simp only at hnext hloop
      cases hrest : legacyLoop server channel after items with
      | error e =>
        rw [hrest] at hloop
        cases hint <;> cases outcome <;> cases hloop
        exact hnext
      | ok rest =>
        have hkept := ih hnext hrest
        rw [hrest] at hloop
        cases hint <;> cases outcome <;> cases hloop
        all_goals first | exact hnext | exact hkept
    · rw [if_neg hobject] at hloop
      cases hrest : legacyLoop server channel state items with
      | error e =>
        rw [hrest] at hloop
        cases hloop
      | ok rest =>
        have hkept := ih h hrest
        rw [hrest] at hloop
        cases hloop
        exact hkept

theorem good_insert {id : String} {channel : OutputChannel} (hg : Good c) (hid : id ∉ c.issued)
    (hnamed : id ∉ c.named) :
    Good { c with
      table := OrderedMap.insert id ⟨.default, channel, c.now⟩ c.table
      issued := id :: c.issued } ∧
    Grows c { c with
      table := OrderedMap.insert id ⟨.default, channel, c.now⟩ c.table
      issued := id :: c.issued } := by
  have hkeys : id ∉ keys c.table := fun h => hid (hg.issued id h)
  have htable : OrderedMap.insert id (⟨.default, channel, c.now⟩ : Session) c.table =
      c.table ++ [(id, ⟨.default, channel, c.now⟩)] := OrderedMap.insert_of_notMem hkeys
  have hmarked : ∀ id', Marked c id' → Marked { c with
      table := OrderedMap.insert id ⟨.default, channel, c.now⟩ c.table
      issued := id :: c.issued } id' := by
    rintro id' ⟨hissued, hflag⟩
    refine ⟨List.mem_cons_of_mem _ hissued, fun e he heq => ?_⟩
    rw [htable] at he
    rcases List.mem_append.mp he with he | he
    · exact hflag e he heq
    · rw [List.mem_singleton.mp he] at heq
      rw [show id = id' from heq] at hid
      exact absurd hissued hid
  refine ⟨⟨?_, ?_, ?_, fun id' hid' => hmarked id' (hg.returned id' hid')⟩, List.Subset.refl _,
    List.subset_cons_self _ _, hmarked⟩
  · exact OrderedMap.nodup_insert hg.nodup _ _
  · intro id' hid'
    dsimp only at hid' ⊢
    rw [htable, keys, List.map_append, List.mem_append] at hid'
    rcases hid' with hid' | hid'
    · exact List.mem_cons_of_mem _ (hg.issued id' hid')
    · rw [List.mem_singleton.mp hid']
      exact List.mem_cons_self
  · intro id' hid'
    rcases hg.known id' hid' with h | h
    · exact .inl h
    · refine .inr fun hmem => ?_
      rcases List.mem_cons.mp hmem with rfl | hmem
      · exact hnamed hid'
      · exact h hmem

theorem good_respond {id : String} (hg : Good c) (h : Marked c id) :
    Good { c with returned := id :: c.returned } ∧
      Grows c { c with returned := id :: c.returned } := by
  refine ⟨⟨hg.nodup, hg.issued, ?_, ?_⟩, List.Subset.refl _, List.Subset.refl _, fun _ h => h⟩
  · intro id' hid'
    exact (hg.known id' hid').imp (List.mem_cons_of_mem _) (fun h => h)
  · intro id' hid'
    rcases List.mem_cons.mp hid' with rfl | hid'
    · exact h
    · exact hg.returned id' hid'

theorem Good.flag {id : String} {s : Session} (hg : Good c) (hid : id ∈ c.named)
    (hs : c.table.lookup id = some s) : s.state.legacyInitialized = true := by
  have hmem := mem_keys_of_lookup hs
  have hissued := hg.issued id (List.mem_map_of_mem hmem)
  have hreturned := (hg.known id hid).resolve_right fun h => h hissued
  exact (hg.returned id hreturned).2 _ hmem rfl

/-- An act keeps the core good and establishes what the tasks after it rely on. -/
theorem acts_good (h : Acts cfg t c e ts c') (hg : Good c) (ht : Holds c t) :
    Good c' ∧ Grows c c' ∧ ∀ u ∈ ts, Holds c' u := by
  have hsame : Good c ∧ Grows c c := ⟨hg, (Same.refl c).grows⟩
  have hwrite (id : String) {f : Session → Session}
      (hf : ∀ s, (f s).state.legacyInitialized = true ∨ (f s).state = s.state) :
      Good { c with table := update id f c.table } ∧
        Grows c { c with table := update id f c.table } :=
    ⟨(rewritten_update hf).good hg, (rewritten_update hf).grows⟩
  have herase (id : String) : Good { c with table := erase id c.table } ∧
      Grows c { c with table := erase id c.table } :=
    ⟨rewritten_erase.good hg, rewritten_erase.grows⟩
  cases h with
  | lookupFound hid hs => exact ⟨hsame.1, hsame.2, by simpa [Holds] using ht _ hid⟩
  | lookupInit hnone hinit => exact ⟨hsame.1, hsame.2, by simpa [Holds] using hinit⟩
  | lookupRefused => exact ⟨hsame.1, hsame.2, by simp⟩
  | @touchFound id _ _ _ hs =>
    have htouched := hwrite id (f := fun s => { s with lastActivity := c.now }) fun s => .inr rfl
    exact ⟨htouched.1, htouched.2, by simpa [Holds] using hg.flag ht hs⟩
  | touchLost => exact ⟨hsame.1, hsame.2, by simp⟩
  | dispatched hloop =>
    exact ⟨hsame.1, hsame.2, by simpa [Holds] using legacyLoop_keeps _ _ ht hloop⟩
  | dispatchRefused => exact ⟨hsame.1, hsame.2, by simp⟩
  | @write id state =>
    have hwritten := hwrite id (f := fun s => { s with state }) fun s => .inl ht
    exact ⟨hwritten.1, hwritten.2, by simp⟩
  | create hissued hnamed =>
    obtain ⟨hgood, hgrows⟩ := good_insert hg hissued hnamed
    exact ⟨hgood, hgrows, by simpa [Holds] using ht⟩
  | countInitialized =>
    have hcounted : Same c { c with initialized := countOn cfg.metrics c.initialized } :=
      ⟨rfl, rfl, rfl, rfl⟩
    exact ⟨hcounted.good hg, hcounted.grows, by simpa [Holds] using ht⟩
  | spawn =>
    refine ⟨hsame.1, hsame.2, ?_⟩
    intro u hu
    rcases List.mem_cons.mp hu with rfl | hu
    · exact ht
    · obtain ⟨timeout, -, rfl⟩ := Option.map_eq_some_iff.mp (Option.mem_toList.mp hu)
      trivial
  | answer =>
    refine ⟨hsame.1, hsame.2, ?_⟩
    intro u hu
    rw [List.mem_singleton.mp hu]
    exact ⟨ht.1, handleLegacyMessage_isInit _ ht.2 _ _⟩
  | @save id state outcome =>
    have hwritten := hwrite id (f := fun s => { s with state }) fun s => .inl ht.2
    refine ⟨hwritten.1, hwritten.2, ?_⟩
    cases outcome with
    | accepted => simp
    | response message =>
      intro u hu
      rw [List.mem_singleton.mp hu]
      refine ⟨ht.1, fun e he hid => ?_⟩
      have hmem : e ∈ update id (fun s => { s with state }) c.table := he
      rcases mem_update hmem with ⟨-, hne⟩ | ⟨s, -, rfl⟩
      · exact absurd hid hne
      · exact ht.2
  | respond =>
    obtain ⟨hgood, hgrows⟩ := good_respond hg ht
    exact ⟨hgood, hgrows, by simp⟩
  | deleteFound => exact ⟨hsame.1, hsame.2, by simp [Holds]⟩
  | deleteLost => exact ⟨hsame.1, hsame.2, by simp⟩
  | removeFound => exact ⟨(herase _).1, (herase _).2, by simp [Holds]⟩
  | removeLost => exact ⟨hsame.1, hsame.2, by simp⟩
  | countClosed =>
    have hcounted : Same c { c with closed := countOn cfg.metrics c.closed } :=
      ⟨rfl, rfl, rfl, rfl⟩
    exact ⟨hcounted.good hg, hcounted.grows, by simp⟩
  | rest => exact ⟨hsame.1, hsame.2, by simp [Holds]⟩
  | wakeLost => exact ⟨hsame.1, hsame.2, by simp⟩
  | wakeIdle => exact ⟨(herase _).1, (herase _).2, by simp [Holds]⟩
  | wakeActive => exact ⟨hsame.1, hsame.2, by simp [Holds]⟩
  | countEvicted =>
    have hcounted : Same c { c with evicted := countOn cfg.metrics c.evicted } :=
      ⟨rfl, rfl, rfl, rfl⟩
    exact ⟨hcounted.good hg, hcounted.grows, by simp [Holds]⟩
  | dropped => exact ⟨hsame.1, hsame.2, by simp⟩

theorem happens_good (h : Happens c e ts c') (hg : Good c) :
    Good c' ∧ Grows c c' ∧ ∀ u ∈ ts, Holds c' u := by
  have hnamed (names : List String) (hnames : ∀ id ∈ names, c.Known id) :
      Good { c with named := names ++ c.named } ∧ Grows c { c with named := names ++ c.named } := by
    refine ⟨⟨hg.nodup, hg.issued, ?_, hg.returned⟩, List.subset_append_right _ _,
      List.Subset.refl _, fun _ h => h⟩
    intro id hid
    rcases List.mem_append.mp hid with hid | hid
    · exact hnames id hid
    · exact hg.known id hid
  cases h with
  | @tick now hnow =>
    have hticked : Same c { c with now } := ⟨rfl, rfl, rfl, rfl⟩
    exact ⟨hticked.good hg, hticked.grows, by simp⟩
  | @post request body hknown =>
    have hposted := hnamed request.headers.sessionId.toList
      fun id hid => hknown id (Option.mem_toList.mp hid)
    refine ⟨hposted.1, hposted.2, ?_⟩
    intro u hu
    rw [List.mem_singleton.mp hu]
    exact fun id hid => List.mem_append_left _ (Option.mem_toList.mpr hid)
  | @delete id hknown =>
    have hdeleted := hnamed [id] (by simpa using hknown)
    exact ⟨hdeleted.1, hdeleted.2, by simp [Holds]⟩

theorem outline (cfg : Settings φ α) :
    Outline (machine cfg) (fun _ => Good) fun _ c t => Holds c t where
  act h hg ht := ⟨(acts_good h hg ht).1, (acts_good h hg ht).2.2⟩
  others h hg ht _ hu := hu.grows (acts_good h hg ht).2.1
  happen h hg := ⟨(happens_good h hg).1, (happens_good h hg).2.2,
    fun _ hu => hu.grows (happens_good h hg).2.1⟩

theorem good_new : Good .new := by
  constructor <;> simp [Core.new]

theorem Ran.good {es : List Event} {x : Config Core (Task φ)} (h : Ran cfg es x) :
    Good x.core ∧ ∀ t ∈ x.tasks, Holds x.core t :=
  (outline cfg).run h good_new (by simp)

end Acts

end PrtsMcp.Sessions
