import PrtsMcp.Utf8

/-!
# Block filters

The pairs of neighbouring folded bytes of a story block, kept as a hashed set, and the literals
that the set cannot rule out.
-/
namespace PrtsMcp.BlockFilter

open Utf8

def toAsciiLowercase (b : UInt8) : UInt8 := if 65 ≤ b.toNat ∧ b.toNat ≤ 90 then b + 32 else b

/-- The bytes that the `Folded` iterator yields: long s and the Kelvin sign are folded, and ASCII
letters are put into lower case. -/
def folded : List UInt8 → List UInt8
  | 0xc5 :: 0xbf :: rest => 115 :: folded rest
  | 0xe2 :: 0x84 :: 0xaa :: rest => 107 :: folded rest
  | first :: rest => toAsciiLowercase first :: folded rest
  | [] => []

structure Filter where
  words : Fin 64 → UInt64

def bit (first second : UInt8) : Fin 64 × UInt64 :=
  let pair : UInt32 := first.toUInt32 <<< 8 ||| second.toUInt32
  let index := ((pair * 0x9e3779b1) >>> 20).toNat
  (Fin.ofNat 64 (index / 64), 1 <<< UInt64.ofNat (index % 64))

def Filter.empty : Filter := ⟨fun _ => 0⟩

def Filter.insert (filter : Filter) (first second : UInt8) : Filter :=
  let (word, mask) := bit first second
  ⟨Function.update filter.words word (filter.words word ||| mask)⟩

def Filter.has (filter : Filter) (first second : UInt8) : Bool :=
  let (word, mask) := bit first second
  filter.words word &&& mask != 0

/-- The bit of the previous byte and this one. -/
def Filter.advance (filter : Filter) (previous : Option UInt8) (byte : UInt8) : Filter :=
  match previous with
  | some previous => filter.insert previous byte
  | none => filter

/-- The loop of `BlockFilter::new` from byte `n` on; `cancelled n` is what a cancellation check
at that byte answers. -/
def addAll (cancelled : ℕ → Bool) :
    ℕ → Option UInt8 → Filter → List UInt8 → Except String Filter
  | _, _, filter, [] => .ok filter
  | n, previous, filter, byte :: rest =>
    if n &&& 65535 = 0 ∧ cancelled n then .error "Query cancelled"
    else addAll cancelled (n + 1) (some byte) (filter.advance previous byte) rest

def new (cancelled : ℕ → Bool) (bytes : List UInt8) : Except String Filter :=
  addAll cancelled 0 none .empty (folded bytes)

/-- Without a cancellation every filter is built. -/
theorem exists_new (bytes : List UInt8) : ∃ filter, new (fun _ => false) bytes = .ok filter := by
  have hall : ∀ (rest : List UInt8) (n : ℕ) (previous : Option UInt8) (filter : Filter),
      ∃ full, addAll (fun _ => false) n previous filter rest = .ok full := by
    intro rest
    induction rest with
    | nil => exact fun n previous filter => ⟨filter, rfl⟩
    | cons byte rest ih =>
      intro n previous filter
      rw [addAll, if_neg (by simp)]
      exact ih _ _ _
  exact hall _ _ _ _

def Filter.hasPairs (filter : Filter) : UInt8 → List UInt8 → Bool
  | _, [] => true
  | previous, byte :: rest => filter.has previous byte && filter.hasPairs byte rest

def Filter.mayContain (filter : Filter) (literal : List UInt8) : Bool :=
  match folded literal with
  | [] => true
  | previous :: bytes => filter.hasPairs previous bytes

/-- A literal of one folded byte has no pair to look for. -/
def supports (literal : List UInt8) : Bool := 1 < (folded literal).length

theorem bit_mask_ne_zero (first second : UInt8) : (bit first second).2 ≠ 0 := by
  have hlt : ∀ n < 64, (1 : UInt64) <<< UInt64.ofNat n ≠ 0 := by decide
  exact hlt _ (Nat.mod_lt _ (by norm_num))

theorem Filter.has_iff {filter : Filter} {first second : UInt8} :
    filter.has first second = true ↔
      filter.words (bit first second).1 &&& (bit first second).2 ≠ 0 := by
  simp [Filter.has]

/-- Setting more bits keeps those that a mask has met. -/
theorem or_and_ne_zero {word mask : UInt64} (h : word &&& mask ≠ 0) (more : UInt64) :
    (word ||| more) &&& mask ≠ 0 := by
  intro hzero
  have hbits := congrArg UInt64.toBitVec hzero
  simp only [UInt64.toBitVec_and, UInt64.toBitVec_or, BitVec.and_or_distrib_right] at hbits
  exact h (UInt64.toBitVec_inj.mp (BitVec.or_eq_zero_iff.mp hbits).1)

theorem Filter.has_insert_self (filter : Filter) (first second : UInt8) :
    (filter.insert first second).has first second = true := by
  rw [has_iff]
  simp only [insert, Function.update_self]
  rw [UInt64.or_comm]
  exact or_and_ne_zero (by simpa using bit_mask_ne_zero first second) _

theorem Filter.has_insert_of_has {filter : Filter} {a b : UInt8} (h : filter.has a b = true)
    (first second : UInt8) : (filter.insert first second).has a b = true := by
  rw [has_iff] at h ⊢
  simp only [insert]
  by_cases hword : (bit a b).1 = (bit first second).1
  · rw [hword] at h ⊢
    rw [Function.update_self]
    exact or_and_ne_zero h _
  · rwa [Function.update_of_ne hword]

theorem Filter.has_advance_of_has {filter : Filter} {a b : UInt8} (h : filter.has a b = true)
    (previous : Option UInt8) (byte : UInt8) : (filter.advance previous byte).has a b = true := by
  cases previous with
  | none => exact h
  | some previous => exact has_insert_of_has h previous byte

/-- The filter keeps every pair that it had, and has every pair of neighbours that it was shown. -/
theorem addAll_has {cancelled : ℕ → Bool} {n : ℕ} {previous : Option UInt8} {filter full : Filter}
    {bytes : List UInt8} (h : addAll cancelled n previous filter bytes = .ok full) {a b : UInt8} :
    (filter.has a b = true → full.has a b = true) ∧
      ([a, b] <:+: previous.toList ++ bytes → full.has a b = true) := by
  induction bytes generalizing n previous filter with
  | nil =>
    obtain rfl : filter = full := by simpa [addAll] using h
    refine ⟨id, fun hpair => ?_⟩
    have := hpair.length_le
    cases previous <;> simp at this
  | cons byte bytes ih =>
    rw [addAll] at h
    split at h
    · cases h
    · obtain ⟨hkeeps, hpairs⟩ := ih h
      refine ⟨fun hhas => hkeeps (Filter.has_advance_of_has hhas previous byte), fun hpair => ?_⟩
      cases previous with
      | none => exact hpairs hpair
      | some previous =>
        rcases List.infix_cons_iff.mp hpair with hprefix | hinfix
        · obtain ⟨rfl, rest⟩ := List.cons_prefix_cons.mp hprefix
          obtain ⟨rfl, -⟩ := List.cons_prefix_cons.mp rest
          exact hkeeps (Filter.has_insert_self filter a b)
        · exact hpairs hinfix

theorem Filter.hasPairs_of_has {filter : Filter} {previous : UInt8} {bytes : List UInt8}
    (h : ∀ a b, [a, b] <:+: previous :: bytes → filter.has a b = true) :
    filter.hasPairs previous bytes = true := by
  induction bytes generalizing previous with
  | nil => rfl
  | cons byte bytes ih =>
    have hfirst : [previous, byte] <:+: previous :: byte :: bytes :=
      (List.prefix_append [previous, byte] bytes).isInfix
    have hrest : filter.hasPairs byte bytes = true :=
      ih fun a b hpair => h a b (hpair.trans (List.suffix_cons previous _).isInfix)
    simp [hasPairs, h _ _ hfirst, hrest]

/-- A filter never rules out a literal whose folded bytes stand among those of the block. -/
theorem mayContain_of_infix {cancelled : ℕ → Bool} {bytes literal : List UInt8} {filter : Filter}
    (hnew : new cancelled bytes = .ok filter) (h : folded literal <:+: folded bytes) :
    filter.mayContain literal = true := by
  have hhas : ∀ a b, [a, b] <:+: folded literal → filter.has a b = true :=
    fun a b hpair => (addAll_has hnew).2 (by simpa using hpair.trans h)
  unfold Filter.mayContain
  split
  · rfl
  · next previous rest heq =>
    rw [heq] at hhas
    exact Filter.hasPairs_of_has hhas

/-- The folded bytes of one character. -/
def foldChar (c : Char) : List UInt8 :=
  if c.toNat = 0x17f then [115]
  else if c.toNat = 0x212a then [107]
  else (String.utf8EncodeChar c).map toAsciiLowercase

theorem folded_cons {first : UInt8} {rest : List UInt8}
    (hs : ∀ rest', first = 0xc5 → rest = 0xbf :: rest' → False)
    (hk : ∀ rest', first = 0xe2 → rest = 0x84 :: 0xaa :: rest' → False) :
    folded (first :: rest) = toAsciiLowercase first :: folded rest := by
  rw [folded]
  · exact hs
  · exact hk

/-- Bytes that begin no fold are folded one by one. -/
theorem folded_append_of_small {bytes : List UInt8}
    (h : ∀ b ∈ bytes, b.toNat < 192) (rest : List UInt8) :
    folded (bytes ++ rest) = bytes.map toAsciiLowercase ++ folded rest := by
  induction bytes with
  | nil => rfl
  | cons b bytes ih =>
    have hb : b.toNat < 192 := h b (by simp)
    rw [List.cons_append, folded_cons (by rintro _ rfl; simp at hb) (by rintro _ rfl; simp at hb),
      ih fun b' hb' => h b' (by simp [hb'])]
    rfl

theorem folded_cons_append {lead : UInt8} {tail rest : List UInt8}
    (htail : ∀ b ∈ tail, b.toNat < 192)
    (hs : ∀ rest', lead = 0xc5 → tail ++ rest = 0xbf :: rest' → False)
    (hk : ∀ rest', lead = 0xe2 → tail ++ rest = 0x84 :: 0xaa :: rest' → False) :
    folded (lead :: tail ++ rest) = (lead :: tail).map toAsciiLowercase ++ folded rest := by
  rw [List.cons_append, folded_cons hs hk, folded_append_of_small htail]
  rfl

/-- A character is folded by itself, whatever bytes come after it. -/
theorem folded_utf8EncodeChar_append (c : Char) (rest : List UInt8) :
    folded (String.utf8EncodeChar c ++ rest) = foldChar c ++ folded rest := by
  have hmax : c.toNat < 1114112 := by
    rcases c.valid with h | ⟨-, h⟩
    · exact (show c.toNat < 55296 from h).trans (by norm_num)
    · exact h
  unfold foldChar
  split
  · next hs =>
    obtain rfl : c = 'ſ' := Char.toNat_inj.mp hs
    rfl
  · next hs =>
    split
    · next hk =>
      obtain rfl : c = Char.ofNat 0x212a := Char.toNat_inj.mp hk
      rfl
    · next hk =>
      have hval : c.val.toNat = c.toNat := rfl
      unfold String.utf8EncodeChar
      simp only [hval]
      split
      · refine folded_cons_append (by simp) (fun rest' hlead _ => ?_) (fun rest' hlead _ => ?_)
        · have := congrArg UInt8.toNat hlead
          simp at this
          omega
        · have := congrArg UInt8.toNat hlead
          simp at this
          omega
      · split
        · refine folded_cons_append ?_ (fun rest' hlead hnext => ?_) (fun rest' hlead _ => ?_)
          · simp
            omega
          · have hlead := congrArg UInt8.toNat hlead
            have hnext := congrArg UInt8.toNat (List.cons.inj hnext).1
            simp at hlead hnext
            omega
          · have := congrArg UInt8.toNat hlead
            simp at this
            omega
        · split
          · refine folded_cons_append ?_ (fun rest' hlead hnext => ?_)
              (fun rest' hlead hnext => ?_)
            · simp
              omega
            · have hlead := congrArg UInt8.toNat hlead
              simp at hlead
              omega
            · have hlead := congrArg UInt8.toNat hlead
              obtain ⟨hnext, hlast⟩ := List.cons.inj hnext
              have hnext := congrArg UInt8.toNat hnext
              have hlast := congrArg UInt8.toNat (List.cons.inj hlast).1
              simp at hlead hnext hlast
              omega
          · refine folded_cons_append ?_ (fun rest' hlead _ => ?_) (fun rest' hlead _ => ?_)
            · simp
              omega
            · have := congrArg UInt8.toNat hlead
              simp at this
              omega
            · have := congrArg UInt8.toNat hlead
              simp at this
              omega

/-- A text is folded character by character. -/
theorem folded_encode_append (text : List Char) (rest : List UInt8) :
    folded (encode text ++ rest) = text.flatMap foldChar ++ folded rest := by
  induction text with
  | nil => rfl
  | cons c text ih =>
    rw [encode_cons, List.append_assoc, folded_utf8EncodeChar_append, ih, List.flatMap_cons,
      List.append_assoc]

theorem folded_encode (text : List Char) : folded (encode text) = text.flatMap foldChar := by
  have h := folded_encode_append text []
  rwa [List.append_nil, folded, List.append_nil] at h

/-- Bytes before a character are folded by themselves: no fold goes on with a lead byte. -/
theorem folded_append {bytes rest : List UInt8}
    (h : ∀ b ∈ rest.head?, ¬ IsContinuation b) :
    folded (bytes ++ rest) = folded bytes ++ folded rest := by
  induction bytes using folded.induct with
  | case1 bytes ih =>
    rw [folded]
    exact congrArg (115 :: ·) ih
  | case2 bytes ih =>
    rw [folded]
    exact congrArg (107 :: ·) ih
  | case3 first bytes hs hk ih =>
    have hs' : ∀ rest', first = 0xc5 → bytes ++ rest = 0xbf :: rest' → False := by
      intro rest' hfirst hbytes
      rcases List.append_eq_cons_iff.mp hbytes with ⟨rfl, rfl⟩ | ⟨bytes', rfl, -⟩
      · exact h 0xbf rfl (by decide)
      · exact hs bytes' hfirst rfl
    have hk' : ∀ rest', first = 0xe2 → bytes ++ rest = 0x84 :: 0xaa :: rest' → False := by
      intro rest' hfirst hbytes
      rcases List.append_eq_cons_iff.mp hbytes with ⟨rfl, rfl⟩ | ⟨bytes', rfl, hlast⟩
      · exact h 0x84 rfl (by decide)
      · rcases List.append_eq_cons_iff.mp hlast.symm with ⟨rfl, rfl⟩ | ⟨bytes'', rfl, -⟩
        · exact h 0xaa rfl (by decide)
        · exact hk bytes'' hfirst rfl
    rw [folded_cons hs hk, List.cons_append, folded_cons hs' hk', ih]
    rfl
  | case4 => rfl

/-- A literal that folds like a part of a text in the block passes the block's filter. -/
theorem mayContain_of_text {cancelled : ℕ → Bool} {before after : List UInt8}
    {text m : List Char} {literal : List UInt8} {filter : Filter}
    (hnew : new cancelled (before ++ encode text ++ after) = .ok filter) (hm : m <:+: text)
    (hliteral : folded literal = m.flatMap foldChar) : filter.mayContain literal = true := by
  refine mayContain_of_infix hnew ?_
  obtain ⟨a, b, rfl⟩ := hm
  have hsplit : before ++ encode (a ++ m ++ b) ++ after =
      (before ++ encode a) ++ (encode m ++ (encode b ++ after)) := by simp
  cases m with
  | nil =>
    rw [hliteral]
    exact List.nil_infix
  | cons c m =>
    have hhead : ∀ b' ∈ (encode (c :: m) ++ (encode b ++ after)).head?, ¬ IsContinuation b' := by
      have hne : encode (c :: m) ≠ [] := fun h => by simpa using eq_nil_of_encode_eq_nil h
      rw [List.head?_append_of_ne_nil _ hne]
      exact encode_head (c :: m)
    rw [hsplit, folded_append hhead, folded_encode_append, hliteral]
    exact ⟨folded (before ++ encode a), folded (encode b ++ after), by simp⟩

end PrtsMcp.BlockFilter
