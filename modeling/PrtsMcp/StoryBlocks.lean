import PrtsMcp.Blocks
import PrtsMcp.StoryLines

/-!
# Story blocks

The lines of a chapter as the data compiler writes them into blocks of bytes, and the decoder that
the story search runs over these blocks.
-/
namespace PrtsMcp.StoryBlocks

open StoryLines Blocks

/-! ## Bytes -/

/-- The four little-endian bytes of a number, as it is cast to 32 bits. -/
def leBytes (n : ℕ) : List UInt8 :=
  [UInt8.ofNat n, UInt8.ofNat (n / 256), UInt8.ofNat (n / 65536), UInt8.ofNat (n / 16777216)]

def ofLeBytes (bytes : List UInt8) : ℕ := bytes.foldr (fun b n => b.toNat + 256 * n) 0

/-- A 32-bit number read with its sign. -/
def asI32 (n : ℕ) : ℤ := if n < 2 ^ 31 then n else n - 2 ^ 32

def utf8Bytes (s : String) : List UInt8 := s.toByteArray.data.toList

def fromUtf8 (bytes : List UInt8) : Option String := String.fromUTF8? ⟨bytes.toArray⟩

theorem ofLeBytes_leBytes {n : ℕ} (h : n < 2 ^ 32) : ofLeBytes (leBytes n) = n := by
  simp only [leBytes, ofLeBytes, List.foldr_cons, List.foldr_nil, UInt8.toNat_ofNat']
  omega

theorem fromUtf8_utf8Bytes (s : String) : fromUtf8 (utf8Bytes s) = some s := by
  have hbytes : (⟨(utf8Bytes s).toArray⟩ : ByteArray) = s.toByteArray := rfl
  rw [fromUtf8, hbytes, String.fromUTF8?, dif_pos s.isValidUTF8]
  rfl

/-! ## Encoder -/

def kindByte : Kind → UInt8
  | .dialog => 0
  | .narration => 1
  | .choice => 2

/-- One line of a block: a role length of -1 stands for no role. -/
def encodeLine (line : LineRef) : List UInt8 :=
  kindByte line.lineType :: (leBytes (line.role.elim (2 ^ 32 - 1) fun role => (utf8Bytes role).length) ++
    (leBytes (utf8Bytes line.text).length ++
      (line.role.elim [] utf8Bytes ++ utf8Bytes line.text)))

/-- The blocks that are written for a chapter. -/
def storyBlocks (lines : List LineRef) : List (Block UInt8) := cut encodeLine (128 * 1024) lines

/-! ## Decoder -/

/-- A message to the caller, or a slice out of range. -/
inductive Failure where
  | message (text : String)
  | panic
  deriving DecidableEq, Repr

/-- The width of `usize`. -/
inductive PointerWidth where
  | bits32
  | bits64

def PointerWidth.usizeMax : PointerWidth → ℕ
  | bits32 => 2 ^ 32 - 1
  | bits64 => 2 ^ 64 - 1

def PointerWidth.checkedAdd (width : PointerWidth) (a b : ℕ) : Option ℕ :=
  if a + b ≤ width.usizeMax then some (a + b) else none

structure Line where
  kind : Kind
  text : String
  deriving DecidableEq, Repr

def byteAt (bytes : List UInt8) (i : ℕ) : Except Failure UInt8 :=
  match bytes[i]? with
  | some b => .ok b
  | none => .error .panic

def sub (bytes : List UInt8) (start stop : ℕ) : Except Failure (List UInt8) :=
  if start ≤ stop ∧ stop ≤ bytes.length then .ok ((bytes.take stop).drop start)
  else .error .panic

def kindOf (b : UInt8) : Except Failure Kind :=
  if b = 0 then .ok .dialog
  else if b = 1 then .ok .narration
  else if b = 2 then .ok .choice
  else .error (.message "invalid story block kind")

section Decoder

variable (utf8Error : List UInt8 → String) (width : PointerWidth)

def readText (bytes : List UInt8) : Except Failure String :=
  match fromUtf8 bytes with
  | some s => .ok s
  | none => .error (.message (utf8Error bytes))

/-- The first line of a payload that is not empty, and what follows it. -/
def decodeOne (payload : List UInt8) : Except Failure (Line × List UInt8) :=
  if payload.length < 9 then .error (.message "truncated story block header")
  else do
    let kind ← kindOf (← byteAt payload 0)
    let roleLen := asI32 (ofLeBytes (← sub payload 1 5))
    let textLen := ofLeBytes (← sub payload 5 9)
    if roleLen < -1 then .error (.message "invalid story block role")
    else do
      let rest ← sub payload 9 payload.length
      let roleBytes := (max roleLen 0).toNat
      match width.checkedAdd roleBytes textLen with
      | none => .error (.message "story block overflow")
      | some stop =>
        if rest.length < stop then .error (.message "truncated story block text")
        else do
          let _ ← readText utf8Error (← sub rest 0 roleBytes)
          let text ← readText utf8Error (← sub rest roleBytes stop)
          return (⟨kind, text⟩, ← sub rest stop rest.length)

/-! ## No panic -/

/-- A result with the property, or a message. -/
def Safe {α : Type} (P : α → Prop) : Except Failure α → Prop
  | .ok a => P a
  | .error (.message _) => True
  | .error .panic => False

theorem Safe.bind {α β : Type} {P : α → Prop} {Q : β → Prop} {x : Except Failure α}
    {f : α → Except Failure β} (hx : Safe P x) (hf : ∀ a, P a → Safe Q (f a)) : Safe Q (x >>= f) := by
  cases x with
  | ok a => exact hf a hx
  | error e => cases e with
    | message text => exact trivial
    | panic => exact hx

theorem safe_sub {bytes : List UInt8} {start stop : ℕ} (h : start ≤ stop)
    (hstop : stop ≤ bytes.length) : Safe (·.length = stop - start) (sub bytes start stop) := by
  rw [sub, if_pos ⟨h, hstop⟩]
  change ((bytes.take stop).drop start).length = stop - start
  rw [List.length_drop, List.length_take, min_eq_left hstop]

theorem safe_kindOf (b : UInt8) : Safe (fun _ => True) (kindOf b) := by
  unfold kindOf
  split_ifs <;> trivial

theorem safe_readText (bytes : List UInt8) : Safe (fun _ => True) (readText utf8Error bytes) := by
  unfold readText
  split <;> trivial

theorem safe_byteAt {bytes : List UInt8} {i : ℕ} (h : i < bytes.length) :
    Safe (fun _ => True) (byteAt bytes i) := by
  rw [byteAt, List.getElem?_eq_getElem h]
  trivial

/-- No index and no slice is out of range, and a line that is read leaves less to read. -/
theorem safe_decodeOne (payload : List UInt8) :
    Safe (fun read => read.2.length < payload.length) (decodeOne utf8Error width payload) := by
  unfold decodeOne
  split
  · trivial
  · next hheader =>
    have hlength : 9 ≤ payload.length := not_lt.mp hheader
    refine (safe_byteAt (by omega)).bind fun b _ => (safe_kindOf b).bind fun kind _ => ?_
    refine (safe_sub (by omega) (by omega)).bind fun roleLen _ => ?_
    refine (safe_sub (by omega) (by omega)).bind fun textLen _ => ?_
    dsimp only
    split
    · trivial
    · refine (safe_sub hlength le_rfl).bind fun rest hrest => ?_
      split
      · trivial
      · next stop hadd =>
        have hrole : (max (asI32 (ofLeBytes roleLen)) 0).toNat ≤ stop := by
          unfold PointerWidth.checkedAdd at hadd
          split at hadd
          · rw [← Option.some.inj hadd]
            exact Nat.le_add_right _ _
          · simp at hadd
        split
        · trivial
        · next hshort =>
          have hstop : stop ≤ rest.length := not_lt.mp hshort
          refine (safe_sub (Nat.zero_le _) (by omega)).bind fun role _ => ?_
          refine (safe_readText utf8Error role).bind fun _ _ => ?_
          refine (safe_sub hrole hstop).bind fun text _ => ?_
          refine (safe_readText utf8Error text).bind fun _ _ => ?_
          refine (safe_sub hstop le_rfl).bind fun after hafter => ?_
          change after.length < payload.length
          omega

theorem length_of_decodeOne {payload rest : List UInt8} {line : Line}
    (h : decodeOne utf8Error width payload = .ok (line, rest)) : rest.length < payload.length := by
  have hsafe := safe_decodeOne utf8Error width payload
  rw [h] at hsafe
  exact hsafe

def decode (payload : List UInt8) : Except Failure (List Line) :=
  if payload = [] then .ok []
  else
    match _h : decodeOne utf8Error width payload with
    | .error e => .error e
    | .ok (line, rest) => (decode rest).map (line :: ·)
termination_by payload.length
decreasing_by exact length_of_decodeOne utf8Error width _h

theorem decode_cons {payload rest : List UInt8} {line : Line} (hne : payload ≠ [])
    (h : decodeOne utf8Error width payload = .ok (line, rest)) :
    decode utf8Error width payload = (decode utf8Error width rest).map (line :: ·) := by
  rw [decode, if_neg hne]
  split
  · next e he => simp [h] at he
  · next line' rest' hline =>
    obtain ⟨rfl, rfl⟩ := Prod.mk.inj (Except.ok.inj (h.symm.trans hline))
    rfl

/-- Whatever the bytes are, decoding ends with lines or a message. -/
theorem safe_decode (payload : List UInt8) :
    Safe (fun _ => True) (decode utf8Error width payload) := by
  induction hn : payload.length using Nat.strong_induction_on generalizing payload with
  | h n ih =>
    by_cases hnil : payload = []
    · rw [decode, if_pos hnil]
      trivial
    · have hone := safe_decodeOne utf8Error width payload
      cases hread : decodeOne utf8Error width payload with
      | error e =>
        rw [decode, if_neg hnil]
        split
        · next e' he' =>
          obtain rfl := Except.error.inj (hread.symm.trans he')
          rw [hread] at hone
          cases e with
          | message text => trivial
          | panic => exact hone
        · next line rest hline => simp [hread] at hline
      | ok read =>
        obtain ⟨line, rest⟩ := read
        rw [decode_cons utf8Error width hnil hread]
        have hrest := ih rest.length (hn ▸ length_of_decodeOne utf8Error width hread) rest rfl
        cases hdecode : decode utf8Error width rest with
        | ok lines => trivial
        | error e =>
          rw [hdecode] at hrest
          cases e with
          | message text => trivial
          | panic => exact hrest

/-! ## Round trip -/

/-- The bytes of a part between two others. -/
theorem sub_append {bytes part : List UInt8} (before after : List UInt8) {start stop : ℕ}
    (h : bytes = before ++ (part ++ after)) (hstart : start = before.length)
    (hstop : stop = before.length + part.length) : sub bytes start stop = .ok part := by
  subst h hstart hstop
  rw [sub, if_pos]
  · rw [List.take_length_add_append, List.take_left', List.drop_left]
    rfl
  · simp only [List.length_append]
    omega

theorem kindOf_kindByte (kind : Kind) : kindOf (kindByte kind) = .ok kind := by
  cases kind <;> rfl

theorem readText_utf8Bytes (s : String) : readText utf8Error (utf8Bytes s) = .ok s := by
  rw [readText, fromUtf8_utf8Bytes]

/-- The role and the text of a line are shorter than 2 GiB. -/
def Small (line : LineRef) : Prop :=
  (∀ role ∈ line.role, (utf8Bytes role).length < 2 ^ 31) ∧ (utf8Bytes line.text).length < 2 ^ 31

instance : DecidablePred Small := fun line =>
  inferInstanceAs (Decidable ((∀ role ∈ line.role, (utf8Bytes role).length < 2 ^ 31) ∧
    (utf8Bytes line.text).length < 2 ^ 31))

/-- What the decoder keeps of a line. -/
def lineOf (line : LineRef) : Line := ⟨line.lineType, line.text⟩

theorem roleLen_encoded {line : LineRef} (h : Small line) :
    asI32 (ofLeBytes (leBytes (line.role.elim (2 ^ 32 - 1) fun role => (utf8Bytes role).length))) =
        line.role.elim (-1) fun role => ((utf8Bytes role).length : ℤ) := by
  cases hrole : line.role with
  | none =>
    rw [Option.elim_none, Option.elim_none, ofLeBytes_leBytes (by norm_num), asI32]
    norm_num
  | some role =>
    have hsmall := h.1 role hrole
    rw [Option.elim_some, Option.elim_some, ofLeBytes_leBytes (by omega), asI32, if_pos hsmall]

/-- One frame is read, whatever its lengths were encoded from. -/
theorem decodeOne_frame {kind : Kind} {roleLen textLen role text rest : List UInt8} {name s : String}
    (hroleLen : roleLen.length = 4) (htextLen : textLen.length = 4)
    (hrole : asI32 (ofLeBytes roleLen) = role.length ∨ role = [] ∧ asI32 (ofLeBytes roleLen) = -1)
    (htext : ofLeBytes textLen = text.length)
    (hadd : width.checkedAdd role.length text.length = some (role.length + text.length))
    (hname : readText utf8Error role = .ok name) (hs : readText utf8Error text = .ok s) :
    decodeOne utf8Error width (kindByte kind :: (roleLen ++ (textLen ++ (role ++ (text ++ rest))))) =
      .ok (⟨kind, s⟩, rest) := by
  have hnegative : ¬ asI32 (ofLeBytes roleLen) < -1 := by
    rcases hrole with h | ⟨-, h⟩ <;> omega
  have hbytes : (max (asI32 (ofLeBytes roleLen)) 0).toNat = role.length := by
    rcases hrole with h | ⟨rfl, h⟩
    · omega
    · rw [h]
      rfl
  obtain ⟨payload, hpayload⟩ : ∃ payload, payload =
    kindByte kind :: (roleLen ++ (textLen ++ (role ++ (text ++ rest)))) := ⟨_, rfl⟩
  have hlength : payload.length = 9 + (role ++ (text ++ rest)).length := by
    simp only [hpayload, List.length_cons, List.length_append]
    omega
  have hkind : byteAt payload 0 = .ok (kindByte kind) := by rw [hpayload]; rfl
  have hfirst : sub payload 1 5 = .ok roleLen :=
    sub_append [kindByte kind] _ hpayload rfl (by simp [hroleLen])
  have hsecond : sub payload 5 9 = .ok textLen :=
    sub_append (kindByte kind :: roleLen) (role ++ (text ++ rest))
      (by simp [hpayload]) (by simp [hroleLen]) (by simp [hroleLen, htextLen])
  have hafter : sub payload 9 payload.length = .ok (role ++ (text ++ rest)) :=
    sub_append (kindByte kind :: (roleLen ++ textLen)) []
      (by simp [hpayload]) (by simp [hroleLen, htextLen])
      (by rw [hlength]; simp [hroleLen, htextLen])
  have hroleBytes : sub (role ++ (text ++ rest)) 0 role.length = .ok role :=
    sub_append [] _ rfl rfl (by simp)
  have htextBytes : sub (role ++ (text ++ rest)) role.length (role.length + text.length) = .ok text :=
    sub_append _ _ rfl rfl rfl
  have hrest : sub (role ++ (text ++ rest)) (role.length + text.length)
      (role ++ (text ++ rest)).length = .ok rest :=
    sub_append (role ++ text) [] (by simp) (by simp) (by simp; omega)
  rw [← hpayload, decodeOne, if_neg (by omega), hkind, hfirst, hsecond, hafter]
  simp only [bind, Except.bind, kindOf_kindByte]
  rw [if_neg hnegative, hbytes, htext, hadd]
  dsimp only
  rw [if_neg (by simp only [List.length_append]; omega), hroleBytes, htextBytes, hrest]
  simp only [hname, hs]
  rfl

theorem checkedAdd_of_small {a b : ℕ} (ha : a < 2 ^ 31) (hb : b < 2 ^ 31) :
    width.checkedAdd a b = some (a + b) := by
  refine if_pos ?_
  cases width <;> simp only [PointerWidth.usizeMax] <;> omega

theorem decodeOne_encodeLine {line : LineRef} (h : Small line) (rest : List UInt8) :
    decodeOne utf8Error width (encodeLine line ++ rest) = .ok (lineOf line, rest) := by
  have htext : ofLeBytes (leBytes (utf8Bytes line.text).length) = (utf8Bytes line.text).length :=
    ofLeBytes_leBytes (by have := h.2; omega)
  have hs := readText_utf8Bytes utf8Error line.text
  have hroleLen := roleLen_encoded h
  rw [encodeLine, List.cons_append, List.append_assoc, List.append_assoc, List.append_assoc]
  cases hrole : line.role with
  | none =>
    rw [hrole] at hroleLen
    exact decodeOne_frame utf8Error width rfl rfl (.inr ⟨rfl, hroleLen⟩) htext
      (checkedAdd_of_small width (by simp) h.2) (readText_utf8Bytes utf8Error "") hs
  | some role =>
    rw [hrole] at hroleLen
    exact decodeOne_frame utf8Error width rfl rfl (.inl hroleLen) htext
      (checkedAdd_of_small width (h.1 role hrole) h.2) (readText_utf8Bytes utf8Error role) hs

theorem encodeLine_ne_nil (line : LineRef) : encodeLine line ≠ [] := by simp [encodeLine]

theorem decode_flatMap_encodeLine {lines : List LineRef} (h : ∀ line ∈ lines, Small line) :
    decode utf8Error width (lines.flatMap encodeLine) = .ok (lines.map lineOf) := by
  induction lines with
  | nil =>
    rw [List.flatMap_nil, decode, if_pos rfl]
    rfl
  | cons line lines ih =>
    have hne : encodeLine line ++ lines.flatMap encodeLine ≠ [] := by
      simp [encodeLine_ne_nil line]
    have hone := decodeOne_encodeLine utf8Error width (h line List.mem_cons_self)
      (lines.flatMap encodeLine)
    rw [List.flatMap_cons, decode_cons utf8Error width hne hone,
      ih fun l hl => h l (List.mem_cons_of_mem _ hl)]
    rfl

/-- Every block of a chapter decodes to its own lines. -/
theorem decode_storyBlocks {lines : List LineRef} (h : ∀ line ∈ lines, Small line)
    {b : Block UInt8} (hb : b ∈ storyBlocks lines) :
    decode utf8Error width b.payload = .ok ((b.records lines).map lineOf) := by
  rw [payload_cut encodeLine (128 * 1024) lines hb]
  exact decode_flatMap_encodeLine utf8Error width fun line hline =>
    h line (List.mem_of_mem_drop (List.mem_of_mem_take hline))

/-- The lines of all blocks, in order. -/
def decodeBlocks (blocks : List (Block UInt8)) : Except Failure (List Line) :=
  (blocks.mapM fun b => decode utf8Error width b.payload).map List.flatten

theorem decodeBlocks_storyBlocks {lines : List LineRef} (h : ∀ line ∈ lines, Small line) :
    decodeBlocks utf8Error width (storyBlocks lines) = .ok (lines.map lineOf) := by
  have hall := Fallible.mapM_ok (f := fun b => decode utf8Error width b.payload)
    fun b hb => decode_storyBlocks utf8Error width h hb
  rw [decodeBlocks, hall]
  change Except.ok ((storyBlocks lines).map fun b => (b.records lines).map lineOf).flatten = _
  rw [← List.flatMap_def, ← List.map_flatMap, storyBlocks, records_cut]

/-- A line of a block is the line of the chapter that many places after the first of the block. -/
theorem lineOf_storyBlocks {lines : List LineRef} (h : ∀ line ∈ lines, Small line)
    {b : Block UInt8} (hb : b ∈ storyBlocks lines) :
    ∃ part, decode utf8Error width b.payload = .ok part ∧ b.first + part.length = b.last + 1 ∧
      ∀ offset < part.length, part[offset]? = lines[b.first + offset]?.map lineOf := by
  obtain ⟨hfirst, hlast⟩ := bounds_cut encodeLine (128 * 1024) lines hb
  have hlength : (b.records lines).length = b.last + 1 - b.first := by
    rw [Block.records, List.length_take, List.length_drop]
    omega
  refine ⟨_, decode_storyBlocks utf8Error width h hb, ?_, fun offset hoffset => ?_⟩
  · rw [List.length_map, hlength]
    omega
  · rw [List.length_map, hlength] at hoffset
    rw [List.getElem?_map, Block.records, List.getElem?_take, if_pos hoffset, List.getElem?_drop]

/-- The blocks of a chapter decode to its lines, each under its own number; they are numbered in
order and divide the lines among them; and no bytes at all make the decoder panic. -/
theorem storyBlocks_codec (lines : List LineRef) (h : ∀ line ∈ lines, Small line) :
    decodeBlocks utf8Error width (storyBlocks lines) = .ok (lines.map lineOf) ∧
      (∀ b ∈ storyBlocks lines, ∃ part, decode utf8Error width b.payload = .ok part ∧
        b.first + part.length = b.last + 1 ∧
        ∀ offset < part.length, part[offset]? = lines[b.first + offset]?.map lineOf) ∧
      (storyBlocks lines).map Block.block = List.range (storyBlocks lines).length ∧
      (storyBlocks lines).flatMap Block.places = List.range lines.length ∧
      ∀ bytes, decode utf8Error width bytes ≠ .error .panic := by
  refine ⟨decodeBlocks_storyBlocks utf8Error width h,
    fun b hb => lineOf_storyBlocks utf8Error width h hb, map_block_cut _ _ _, places_cut _ _ _,
    fun bytes hpanic => ?_⟩
  have hsafe := safe_decode utf8Error width bytes
  rw [hpanic] at hsafe
  exact hsafe

end Decoder

def exampleLines : List LineRef :=
  [⟨.dialog, some "é", "a"⟩, ⟨.narration, none, ""⟩, ⟨.choice, some "", "é"⟩]

theorem storyBlocks_codec_exampleLines :
    decodeBlocks (fun _ => "") .bits32 (storyBlocks exampleLines) =
        .ok (exampleLines.map lineOf) ∧
      (∀ b ∈ storyBlocks exampleLines, ∃ part, decode (fun _ => "") .bits32 b.payload = .ok part ∧
        b.first + part.length = b.last + 1 ∧
        ∀ offset < part.length, part[offset]? = exampleLines[b.first + offset]?.map lineOf) ∧
      (storyBlocks exampleLines).map Block.block = List.range (storyBlocks exampleLines).length ∧
      (storyBlocks exampleLines).flatMap Block.places = List.range exampleLines.length ∧
      ∀ bytes, decode (fun _ => "") .bits32 bytes ≠ .error .panic :=
  storyBlocks_codec (fun _ => "") .bits32 exampleLines (by decide +kernel)

end PrtsMcp.StoryBlocks
