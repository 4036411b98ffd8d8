import PrtsMcp.TemplateXml

/-!
# Well-formed parse trees

The well-formed documents with all the ways of writing them, the tree of a document, and that the
lenient parser returns it as long as no CDATA section holds what would be a reference.
-/
namespace PrtsMcp.TemplateXml

open XmlEntities
open McpEndpoint (isWhitespace)

/-! ## Documents -/

/-- The blanks inside of a tag. -/
structure Blank where
  chars : List Char
  blank : ∀ c ∈ chars, isWhitespace c = true

structure TagName where
  chars : List Char
  ne_nil : chars ≠ []
  clean : ∀ c ∈ chars, isTagChar c = true ∧ c ≠ '<'
  head : chars.head? ≠ some '!' ∧ chars.head? ≠ some '?'

structure AttrName where
  chars : List Char
  ne_nil : chars ≠ []
  clean : ∀ c ∈ chars, isAttrChar c = true

/-- A character of a text: markup and ampersands are escaped. -/
def IsText : Datum → Prop
  | .plain c => c ≠ '<' ∧ c ≠ '&'
  | .ref _ => True
  | .literal _ => False

structure Attribute where
  lead : Blank
  separated : lead.chars ≠ []
  name : AttrName
  before : Blank
  after : Blank
  quote : Char
  quoted : quote = '"' ∨ quote = '\''
  value : List Datum
  isText : ∀ d ∈ value, IsText d
  unquoted : Datum.plain quote ∉ value

def Attribute.render (a : Attribute) : List Char :=
  a.lead.chars ++ (a.name.chars ++ (a.before.chars ++ ('=' :: (a.after.chars ++
    (a.quote :: (rawOf a.value ++ [a.quote]))))))

/-- The name of an attribute with what its value stands for. -/
def Attribute.pair (a : Attribute) : List Char × List Char := (a.name.chars, valueOf a.value)

/-- A sequence of nodes, with what follows them. -/
inductive Doc where
  | nil
  | text (data : List Datum) (isText : ∀ d ∈ data, IsText d) (rest : Doc)
  | cdata (content : List Char) (closed : ¬ [']', ']', '>'] <:+: content) (rest : Doc)
  | comment (content : List Char) (closed : ¬ ['-', '-'] <:+: content ++ ['-']) (rest : Doc)
  | element (tag : TagName) (attrs : List Attribute) (gap : Blank) (children : Doc) (closeGap : Blank)
      (rest : Doc)
  | leaf (tag : TagName) (attrs : List Attribute) (gap : Blank) (rest : Doc)

def renderAttrs (attrs : List Attribute) : List Char := attrs.flatMap Attribute.render

/-- How a document is written. -/
def Doc.render : Doc → List Char
  | nil => []
  | text data _ rest => rawOf data ++ rest.render
  | cdata content _ rest =>
    ['<', '!', '[', 'C', 'D', 'A', 'T', 'A', '['] ++ (content ++ ([']', ']', '>'] ++ rest.render))
  | comment content _ rest => ['<', '!', '-', '-'] ++ (content ++ (['-', '-', '>'] ++ rest.render))
  | element tag attrs gap children closeGap rest =>
    '<' :: (tag.chars ++ (renderAttrs attrs ++ (gap.chars ++ ('>' :: (children.render ++
      ('<' :: '/' :: (tag.chars ++ (closeGap.chars ++ ('>' :: rest.render)))))))))
  | leaf tag attrs gap rest =>
    '<' :: (tag.chars ++ (renderAttrs attrs ++ (gap.chars ++ ('/' :: '>' :: rest.render))))

/-! ## Trees -/

def literals (content : List Char) : List Datum := content.map .literal

/-- The node of a run, if there is anything in it. -/
def textNode (f : List Datum → List Char) (run : List Datum) : List XmlNode :=
  if run = [] then [] else [.text (f run)]

/-- The nodes of a document after a run, where `f` reads runs. Texts and CDATA sections that follow
each other are one run. -/
def treeWith (f : List Datum → List Char) : List Datum → Doc → List XmlNode
  | run, .nil => textNode f run
  | run, .text data _ rest => treeWith f (run ++ data) rest
  | run, .cdata content _ rest => treeWith f (run ++ literals content) rest
  | run, .comment content _ rest => textNode f run ++ (.comment content :: treeWith f [] rest)
  | run, .element tag attrs _ children _ rest =>
    textNode f run ++
      (.element tag.chars (attrs.map Attribute.pair) (treeWith f [] children) :: treeWith f [] rest)
  | run, .leaf tag attrs _ rest =>
    textNode f run ++ (.element tag.chars (attrs.map Attribute.pair) [] :: treeWith f [] rest)

/-- The tree of a document: references are decoded, CDATA is taken as it is. -/
def tree (doc : Doc) : List XmlNode := treeWith valueOf [] doc

/-- The runs of character data, after one that is under way. -/
def runsFrom : List Datum → Doc → List (List Datum)
  | run, .nil => [run]
  | run, .text data _ rest => runsFrom (run ++ data) rest
  | run, .cdata content _ rest => runsFrom (run ++ literals content) rest
  | run, .comment _ _ rest => run :: runsFrom [] rest
  | run, .element _ _ _ children _ rest => run :: (runsFrom [] children ++ runsFrom [] rest)
  | run, .leaf _ _ _ rest => run :: runsFrom [] rest

def runs (doc : Doc) : List (List Datum) := runsFrom [] doc

theorem textNode_eq_iff {f g : List Datum → List Char} (hnil : f [] = g []) (run : List Datum) :
    textNode f run = textNode g run ↔ f run = g run := by
  rw [textNode, textNode]
  split_ifs with h
  · rw [h]
    exact iff_of_true rfl hnil
  · simp

theorem length_textNode (f g : List Datum → List Char) (run : List Datum) :
    (textNode f run).length = (textNode g run).length := by
  rw [textNode, textNode]
  split_ifs <;> rfl

theorem textNode_append_inj {f g : List Datum → List Char} (hnil : f [] = g []) (run : List Datum)
    {a b : XmlNode} {as bs : List XmlNode} :
    textNode f run ++ (a :: as) = textNode g run ++ (b :: bs) ↔ f run = g run ∧ a = b ∧ as = bs := by
  rw [← textNode_eq_iff hnil run]
  constructor
  · intro h
    obtain ⟨hrun, hrest⟩ := List.append_inj h (length_textNode f g run)
    exact ⟨hrun, List.cons.inj hrest⟩
  · rintro ⟨hrun, rfl, rfl⟩
    rw [hrun]

/-- Two ways of reading runs give the same tree exactly if they read its runs in the same way. -/
theorem treeWith_eq_iff {f g : List Datum → List Char} (hnil : f [] = g []) (doc : Doc) (run : List Datum) :
    treeWith f run doc = treeWith g run doc ↔ ∀ r ∈ runsFrom run doc, f r = g r := by
  induction doc generalizing run with
  | nil =>
    rw [treeWith, treeWith, runsFrom, List.forall_mem_singleton]
    exact textNode_eq_iff hnil run
  | text data _ rest ih => exact ih _
  | cdata content _ rest ih => exact ih _
  | comment content _ rest ih =>
    rw [treeWith, treeWith, textNode_append_inj hnil, ih, runsFrom, List.forall_mem_cons]
    simp
  | element tag attrs _ children _ rest ihchildren ihrest =>
    rw [treeWith, treeWith, textNode_append_inj hnil, ihrest, runsFrom, List.forall_mem_cons,
      List.forall_mem_append, ← ihchildren]
    simp
  | leaf tag attrs _ rest ih =>
    rw [treeWith, treeWith, textNode_append_inj hnil, ih, runsFrom, List.forall_mem_cons]
    simp

theorem sound_of_isText {d : Datum} (h : IsText d) : d.Sound := by
  cases d with
  | plain c => exact h.2
  | ref r => trivial
  | literal c => trivial

/-- Every run is made of escaped texts and of CDATA sections. -/
theorem sound_of_mem_runsFrom (doc : Doc) {run : List Datum} (hrun : ∀ d ∈ run, d.Sound) :
    ∀ r ∈ runsFrom run doc, ∀ d ∈ r, d.Sound := by
  have hnil : ∀ d ∈ ([] : List Datum), d.Sound := fun d hd => absurd hd List.not_mem_nil
  induction doc generalizing run with
  | nil => exact List.forall_mem_singleton.mpr hrun
  | text data isText rest ih =>
    exact ih (List.forall_mem_append.mpr ⟨hrun, fun d hd => sound_of_isText (isText d hd)⟩)
  | cdata content _ rest ih =>
    refine ih (List.forall_mem_append.mpr ⟨hrun, fun d hd => ?_⟩)
    obtain ⟨c, -, rfl⟩ := List.mem_map.mp hd
    trivial
  | comment content _ rest ih => exact List.forall_mem_cons.mpr ⟨hrun, ih hnil⟩
  | element tag attrs _ children _ rest ihchildren ihrest =>
    exact List.forall_mem_cons.mpr ⟨hrun, List.forall_mem_append.mpr ⟨ihchildren hnil, ihrest hnil⟩⟩
  | leaf tag attrs _ rest ih => exact List.forall_mem_cons.mpr ⟨hrun, ih hnil⟩

/-! ## Scanning -/

/-- The text begins with a character that ends what is read. -/
def Stops (p : Char → Bool) (s : List Char) : Prop := ∃ c rest, s = c :: rest ∧ p c = false

theorem takeWhile_of_stops {p : Char → Bool} {front s : List Char} (hfront : ∀ c ∈ front, p c = true)
    (hs : Stops p s) : (front ++ s).takeWhile p = front ∧ (front ++ s).dropWhile p = s := by
  obtain ⟨c, rest, rfl, hc⟩ := hs
  rw [List.takeWhile_append_of_pos hfront, List.dropWhile_append_of_pos hfront]
  simp [hc]

theorem stops_blank {p : Char → Bool} (hp : ∀ c, isWhitespace c = true → p c = false) (b : Blank)
    {s : List Char} (hs : Stops p s) : Stops p (b.chars ++ s) := by
  cases hchars : b.chars with
  | nil => exact hs
  | cons c rest => exact ⟨c, rest ++ s, rfl, hp c (b.blank c (by rw [hchars]; exact List.mem_cons_self))⟩

theorem skipWs_append (b : Blank) {s : List Char} (hs : Stops isWhitespace s) : skipWs (b.chars ++ s) = s :=
  (takeWhile_of_stops b.blank hs).2

theorem not_isTagChar_of_blank {c : Char} (h : isWhitespace c = true) : isTagChar c = false := by
  rw [isTagChar, h]
  rfl

theorem not_isAttrChar_of_blank {c : Char} (h : isWhitespace c = true) : isAttrChar c = false := by
  rw [isAttrChar, h]
  rfl

theorem readTagName_append (tag : TagName) {s : List Char} (hs : Stops isTagChar s) :
    readTagName (tag.chars ++ s) = some (tag.chars, s) := by
  obtain ⟨htake, hdrop⟩ := takeWhile_of_stops (fun c hc => (tag.clean c hc).1) hs
  have hclean : ¬ ('<' ∈ tag.chars ∨ tag.chars = []) := by
    rintro (hmem | hnil)
    · exact (tag.clean '<' hmem).2 rfl
    · exact tag.ne_nil hnil
  rw [readTagName, htake, hdrop, if_neg hclean]

theorem readAttrName_append (name : AttrName) {s : List Char} (hs : Stops isAttrChar s) :
    readAttrName (name.chars ++ s) = some (name.chars, s) := by
  obtain ⟨htake, hdrop⟩ := takeWhile_of_stops name.clean hs
  rw [readAttrName, htake, hdrop, if_neg name.ne_nil]

theorem noReference_of_isText {data : List Datum} (h : ∀ d ∈ data, IsText d) : NoReference data := by
  intro before after heq
  have hmem : Datum.literal '&' ∈ data := by simp [heq]
  exact absurd (h _ hmem) id

/-- The text of a value is read once. -/
theorem decodeEntities_of_isText {data : List Datum} (h : ∀ d ∈ data, IsText d) :
    decodeEntities (rawOf data) = valueOf data :=
  (decodeEntities_rawOf fun d hd => sound_of_isText (h d hd)).mpr (noReference_of_isText h)

theorem notMem_rawOf {data : List Datum} {c : Char} (htext : ∀ d ∈ data, IsText d)
    (hplain : Datum.plain c ∉ data) (hbody : bodyChar c = false) (hamp : c ≠ '&') (hsemi : c ≠ ';') :
    c ∉ rawOf data := by
  intro hmem
  obtain ⟨d, hd, hc⟩ := List.mem_flatMap.mp hmem
  cases d with
  | plain b =>
    rw [Datum.raw, List.mem_singleton] at hc
    exact hplain (hc ▸ hd)
  | ref r =>
    rw [Datum.raw, List.mem_cons, List.mem_append, List.mem_singleton] at hc
    rcases hc with hc | hc | hc
    · exact hamp hc
    · exact notMem_of_decodeBody r.decodes hbody hc
    · exact hsemi hc
  | literal b => exact htext _ hd

theorem readAttrValue_quoted (a : Attribute) (s : List Char) :
    readAttrValue (a.quote :: (rawOf a.value ++ ([a.quote] ++ s))) = some (rawOf a.value, s) := by
  have hquote : bodyChar a.quote = false ∧ a.quote ≠ '&' ∧ a.quote ≠ ';' := by
    rcases a.quoted with h | h <;> rw [h] <;> decide +kernel
  have hnot := notMem_rawOf a.isText a.unquoted hquote.1 hquote.2.1 hquote.2.2
  rw [readAttrValue, if_pos a.quoted]
  refine cut_append (by simp) s fun tail hne htail hpre => ?_
  obtain ⟨b, rest, rfl⟩ := List.exists_cons_of_ne_nil hne
  have hb : a.quote = b := (List.cons_prefix_cons.mp hpre).1
  exact hnot (hb ▸ htail.subset List.mem_cons_self)

/-- The end of a tag, and how it closes. -/
def tagEnd (closing : Bool) : List Char := if closing then ['/', '>'] else ['>']

theorem stops_tagEnd (closing : Bool) (s : List Char) :
    Stops isTagChar (tagEnd closing ++ s) ∧ Stops isWhitespace (tagEnd closing ++ s) := by
  cases closing with
  | false => exact ⟨⟨'>', s, rfl, by decide +kernel⟩, ⟨'>', s, rfl, by decide +kernel⟩⟩
  | true => exact ⟨⟨'/', '>' :: s, rfl, by decide +kernel⟩, ⟨'/', '>' :: s, rfl, by decide +kernel⟩⟩

theorem isWhitespace_of_isAttrChar {c : Char} (h : isAttrChar c = true) : isWhitespace c = false := by
  by_contra hc
  rw [not_isAttrChar_of_blank (by simpa using hc)] at h
  cases h

/-- One attribute is read, with what its value stands for. -/
theorem readAttrs_render (a : Attribute) (attrs : List (List Char × List Char)) (s : List Char) :
    readAttrs attrs (a.render ++ s) = readAttrs (attrs ++ [a.pair]) s := by
  obtain ⟨c, name, hname⟩ := List.exists_cons_of_ne_nil a.name.ne_nil
  have hequals : Stops isWhitespace ('=' :: (a.after.chars ++ (a.quote :: (rawOf a.value ++ ([a.quote] ++ s))))) :=
    ⟨'=', _, rfl, by decide +kernel⟩
  have hquote : Stops isWhitespace (a.quote :: (rawOf a.value ++ ([a.quote] ++ s))) := by
    refine ⟨a.quote, _, rfl, ?_⟩
    rcases a.quoted with h | h <;> rw [h] <;> decide +kernel
  have hstart : Stops isWhitespace (a.name.chars ++ (a.before.chars ++ ('=' :: (a.after.chars ++
      (a.quote :: (rawOf a.value ++ ([a.quote] ++ s))))))) := by
    rw [hname]
    exact ⟨c, _, rfl, isWhitespace_of_isAttrChar (a.name.clean c (by rw [hname]; exact List.mem_cons_self))⟩
  have hafter : Stops isAttrChar (a.before.chars ++ ('=' :: (a.after.chars ++
      (a.quote :: (rawOf a.value ++ ([a.quote] ++ s)))))) :=
    stops_blank (fun _ => not_isAttrChar_of_blank) a.before ⟨'=', _, rfl, by decide +kernel⟩
  have hrender : a.render ++ s = a.lead.chars ++ (a.name.chars ++ (a.before.chars ++ ('=' :: (a.after.chars ++
      (a.quote :: (rawOf a.value ++ ([a.quote] ++ s))))))) := by
    simp [Attribute.render]
  have hread := readAttrName_append a.name hafter
  rw [← skipWs_append a.lead hstart] at hread
  have hvalue : readValue (a.before.chars ++ ('=' :: (a.after.chars ++
      (a.quote :: (rawOf a.value ++ ([a.quote] ++ s)))))) = some (rawOf a.value, s) := by
    rw [readValue, skipWs_append a.before hequals]
    simp only
    rw [skipWs_append a.after hquote]
    exact readAttrValue_quoted a s
  rw [hrender, readAttrs_cons hread hvalue, decodeEntities_of_isText a.isText, Attribute.pair]

/-- All attributes are read, up to the end of the tag. -/
theorem readAttrs_renderAttrs (as : List Attribute) (gap : Blank) (closing : Bool) (s : List Char)
    (attrs : List (List Char × List Char)) :
    readAttrs attrs (renderAttrs as ++ (gap.chars ++ (tagEnd closing ++ s))) =
      some (attrs ++ as.map Attribute.pair, closing, s) := by
  induction as generalizing attrs with
  | nil =>
    have hskip := skipWs_append gap (stops_tagEnd closing s).2
    rw [List.map_nil, List.append_nil]
    cases closing with
    | false => exact readAttrs_end hskip attrs
    | true => exact readAttrs_closing hskip attrs
  | cons a as ih =>
    rw [renderAttrs, List.flatMap_cons, List.append_assoc, readAttrs_render, List.map_cons]
    rw [renderAttrs] at ih
    rw [ih, List.append_assoc]
    rfl

/-- The name of a tag ends where its attributes begin. -/
theorem stops_renderAttrs (as : List Attribute) (gap : Blank) (closing : Bool) (s : List Char) :
    Stops isTagChar (renderAttrs as ++ (gap.chars ++ (tagEnd closing ++ s))) := by
  cases as with
  | nil => exact stops_blank (fun _ => not_isTagChar_of_blank) gap (stops_tagEnd closing s).1
  | cons a as =>
    obtain ⟨c, lead, hlead⟩ := List.exists_cons_of_ne_nil a.separated
    rw [renderAttrs, List.flatMap_cons, Attribute.render, hlead]
    exact ⟨c, _, rfl, not_isTagChar_of_blank (a.lead.blank c (by rw [hlead]; exact List.mem_cons_self))⟩

/-! ## Steps -/

/-- The nodes come after the children of the innermost element, or after the finished nodes. -/
def appendNodes (s : State) (nodes : List XmlNode) : State :=
  match s.stack with
  | top :: below => { s with stack := { top with children := top.children ++ nodes } :: below }
  | [] => { s with root := s.root ++ nodes }

theorem appendNodes_nil (s : State) : appendNodes s [] = s := by
  obtain ⟨rest, root, stack, text⟩ := s
  cases stack <;> simp [appendNodes]

theorem appendNodes_append (s : State) (nodes more : List XmlNode) :
    appendNodes (appendNodes s nodes) more = appendNodes s (nodes ++ more) := by
  obtain ⟨rest, root, stack, text⟩ := s
  cases stack <;> simp [appendNodes]

theorem pushNode_eq (s : State) (node : XmlNode) : pushNode s node = appendNodes s [node] := by
  obtain ⟨rest, root, stack, text⟩ := s
  cases stack <;> rfl

/-- The same nodes with other input and another text. -/
def State.reading (s : State) (rest text : List Char) : State := ⟨rest, s.root, s.stack, text⟩

/-- The nodes go to their place whatever is read. -/
theorem appendNodes_reading (s : State) (nodes : List XmlNode) (rest text : List Char) :
    appendNodes (s.reading rest text) nodes = (appendNodes s nodes).reading rest text := by
  obtain ⟨rest, root, stack, text⟩ := s
  cases stack <;> rfl

/-- How the parser reads a run. -/
def decodeRun (run : List Datum) : List Char := decodeEntities (rawOf run)

theorem flushText_eq {s : State} {run : List Datum} (h : s.text = rawOf run) :
    flushText s = (appendNodes s (textNode decodeRun run)).reading s.rest [] := by
  obtain ⟨rest, root, stack, text⟩ := s
  simp only at h
  subst h
  by_cases hrun : run = []
  · subst hrun
    rw [textNode, if_pos rfl, appendNodes_nil]
    rfl
  · have hraw : ¬ rawOf run = [] := fun hnil => hrun (rawOf_eq_nil.mp hnil)
    rw [flushText, textNode, if_neg hrun]
    simp only [if_neg hraw, pushNode_eq]
    cases stack <;> rfl

/-- Characters of a text are taken as they are. -/
theorem loop_text {cs tail : List Char} (hcs : '<' ∉ cs) {s : State} (h : s.rest = cs ++ tail) :
    loop s = loop (s.reading tail (s.text ++ cs)) := by
  induction cs generalizing s with
  | nil =>
    obtain ⟨rest, root, stack, text⟩ := s
    simp only [List.nil_append] at h
    rw [h, List.append_nil]
    rfl
  | cons c cs ih =>
    rw [List.mem_cons, not_or] at hcs
    have hstep : step s c (cs ++ tail) = .ok (s.reading (cs ++ tail) (s.text ++ [c])) := by
      rw [step, if_pos (fun heq => hcs.1 heq.symm)]
      rfl
    rw [loop_of_step h hstep, ih hcs.2 rfl]
    simp [State.reading]

/-- No earlier place of `]]>` runs into the end of a section. -/
theorem cut_cdata {content : List Char} (hclosed : ¬ [']', ']', '>'] <:+: content) (tail : List Char) :
    cut [']', ']', '>'] (content ++ ([']', ']', '>'] ++ tail)) = some (content, tail) := by
  refine cut_append (by simp) tail fun back hne hback hpre => ?_
  match back with
  | [] => exact hne rfl
  | [x] => simp at hpre
  | [x, y] => simp at hpre
  | x :: y :: z :: back =>
    have hpre' : [']', ']', '>'] <+: x :: y :: z :: back := by simpa using hpre
    exact hclosed (hpre'.isInfix.trans hback.isInfix)

/-- No earlier place of `-->` runs into the end of a comment. -/
theorem cut_comment {content : List Char} (hclosed : ¬ ['-', '-'] <:+: content ++ ['-']) (tail : List Char) :
    cut ['-', '-', '>'] (content ++ (['-', '-', '>'] ++ tail)) = some (content, tail) := by
  refine cut_append (by simp) tail fun back hne hback hpre => ?_
  match back with
  | [] => exact hne rfl
  | [x] =>
    obtain ⟨front, rfl⟩ := hback
    have hx : '-' = x := (List.cons_prefix_cons.mp hpre).1
    exact hclosed ⟨front, [], by simp [← hx]⟩
  | x :: y :: back =>
    have hpre' : ['-', '-'] <+: x :: y :: back := by
      obtain ⟨hx, hrest⟩ := List.cons_prefix_cons.mp hpre
      obtain ⟨hy, -⟩ := List.cons_prefix_cons.mp hrest
      rw [← hx, ← hy]
      exact ⟨back, rfl⟩
    exact hclosed ((hpre'.isInfix.trans hback.isInfix).trans (List.prefix_append content ['-']).isInfix)

theorem loop_cdata {content tail : List Char} (hclosed : ¬ [']', ']', '>'] <:+: content) {s : State}
    (h : s.rest = ['<', '!', '[', 'C', 'D', 'A', 'T', 'A', '['] ++ (content ++ ([']', ']', '>'] ++ tail))) :
    loop s = loop (s.reading tail (s.text ++ content)) := by
  have hcut : cut [']', ']', '>'] (s.rest.drop 9) = some (content, tail) := by
    rw [h]
    exact cut_cdata hclosed tail
  have hstep : step s '<' (['!', '[', 'C', 'D', 'A', 'T', 'A', '['] ++ (content ++ ([']', ']', '>'] ++ tail))) =
      .ok (s.reading tail (s.text ++ content)) := by
    rw [step, if_neg (by simp), if_neg (by simp [List.isPrefixOf]), if_pos (by simp [List.isPrefixOf]),
      cdataStep, hcut]
    rfl
  exact loop_of_step h hstep

theorem loop_comment {content tail : List Char} (hclosed : ¬ ['-', '-'] <:+: content ++ ['-']) {s : State}
    {run : List Datum} (hrun : s.text = rawOf run)
    (h : s.rest = ['<', '!', '-', '-'] ++ (content ++ (['-', '-', '>'] ++ tail))) :
    loop s = loop ((appendNodes s (textNode decodeRun run ++ [.comment content])).reading tail []) := by
  have hcut : cut ['-', '-', '>'] (s.rest.drop 4) = some (content, tail) := by
    rw [h]
    exact cut_comment hclosed tail
  have hstep : step s '<' (['!', '-', '-'] ++ (content ++ (['-', '-', '>'] ++ tail))) =
      .ok ((appendNodes s (textNode decodeRun run ++ [.comment content])).reading tail []) := by
    rw [step, if_neg (by simp), if_pos (by simp [List.isPrefixOf]), commentStep, hcut]
    simp only
    rw [flushText_eq hrun, pushNode_eq, appendNodes_reading, appendNodes_append]
    rfl
  exact loop_of_step h hstep

/-- A tag is opened by `<` and its name. -/
theorem step_tag (tag : TagName) (s : State) (after : List Char) :
    step s '<' (tag.chars ++ after) = openStep s := by
  obtain ⟨c, name, hname⟩ := List.exists_cons_of_ne_nil tag.ne_nil
  have hbang : c ≠ '!' := fun h => tag.head.1 (by rw [hname, h]; rfl)
  have hquery : c ≠ '?' := fun h => tag.head.2 (by rw [hname, h]; rfl)
  have hslash : c ≠ '/' := by
    rintro rfl
    have hclean := (tag.clean '/' (by rw [hname]; exact List.mem_cons_self)).1
    simp [isTagChar] at hclean
  rw [hname, step, if_neg (by simp)]
  simp [List.isPrefixOf, hbang.symm, hquery.symm, hslash.symm]

theorem loop_open {tag : TagName} {as : List Attribute} {gap : Blank} {tail : List Char} {s : State}
    {run : List Datum} (hrun : s.text = rawOf run)
    (h : s.rest = '<' :: (tag.chars ++ (renderAttrs as ++ (gap.chars ++ (tagEnd false ++ tail))))) :
    loop s = loop ⟨tail, (appendNodes s (textNode decodeRun run)).root,
      ⟨tag.chars, as.map Attribute.pair, []⟩ :: (appendNodes s (textNode decodeRun run)).stack, []⟩ := by
  refine loop_of_step h ?_
  rw [step_tag, openStep, h, List.drop_one, List.tail_cons,
    readTagName_append tag (stops_renderAttrs as gap false tail)]
  simp only
  rw [readAttrs_renderAttrs, flushText_eq hrun]
  rfl

theorem loop_leaf {tag : TagName} {as : List Attribute} {gap : Blank} {tail : List Char} {s : State}
    {run : List Datum} (hrun : s.text = rawOf run)
    (h : s.rest = '<' :: (tag.chars ++ (renderAttrs as ++ (gap.chars ++ (tagEnd true ++ tail))))) :
    loop s = loop ((appendNodes s (textNode decodeRun run ++
      [.element tag.chars (as.map Attribute.pair) []])).reading tail []) := by
  refine loop_of_step h ?_
  rw [step_tag, openStep, h, List.drop_one, List.tail_cons,
    readTagName_append tag (stops_renderAttrs as gap true tail)]
  simp only
  rw [readAttrs_renderAttrs]
  simp only
  rw [flushText_eq hrun, pushNode_eq, appendNodes_reading, appendNodes_append, List.nil_append]
  rfl

/-- A closing tag with what follows it. -/
def closeTag (tag : TagName) (gap : Blank) (tail : List Char) : List Char :=
  '<' :: '/' :: (tag.chars ++ (gap.chars ++ ('>' :: tail)))

/-- The closing tag of the innermost element closes that one. -/
theorem loop_close (tag : TagName) (gap : Blank) (attrs : List (List Char × List Char))
    (children : List XmlNode) (tail : List Char) (root : List XmlNode) (below : List OpenElement)
    (run : List Datum) :
    loop ⟨closeTag tag gap tail, root, ⟨tag.chars, attrs, children⟩ :: below, rawOf run⟩ =
      loop (appendNodes ⟨tail, root, below, []⟩
        [.element tag.chars attrs (children ++ textNode decodeRun run)]) := by
  refine loop_of_step rfl ?_
  have hstop : Stops isWhitespace ('>' :: tail) := ⟨'>', tail, rfl, by decide +kernel⟩
  have hname : readTagName (tag.chars ++ (gap.chars ++ ('>' :: tail))) = some (tag.chars, gap.chars ++ ('>' :: tail)) :=
    readTagName_append tag (stops_blank (fun _ => not_isTagChar_of_blank) gap ⟨'>', tail, rfl, by decide +kernel⟩)
  have hend : closeEnd (gap.chars ++ ('>' :: tail)) = some tail := by
    rw [closeEnd, skipWs_append gap hstop]
    rfl
  have hstep : ∀ s : State, step s '<' ('/' :: (tag.chars ++ (gap.chars ++ ('>' :: tail)))) = closeStep s := by
    intro s
    rw [step, if_neg (by simp)]
    simp [List.isPrefixOf]
  rw [hstep, closeStep]
  simp only [closeTag, List.drop_succ_cons, List.drop_zero]
  rw [hname]
  simp only
  rw [hend, flushText_eq rfl]
  simp only [State.reading, appendNodes, List.findIdx?_cons, decide_true, if_pos, closeElements, pushNode_eq]
  cases below <;> rfl

/-! ## Documents that are read -/

theorem rawOf_literals (content : List Char) : rawOf (literals content) = content := by
  induction content with
  | nil => rfl
  | cons c content ih => exact congrArg (c :: ·) ih

theorem notMem_rawOf_isText {data : List Datum} (h : ∀ d ∈ data, IsText d) : '<' ∉ rawOf data :=
  notMem_rawOf h (fun hmem => (h _ hmem).1 rfl) (by decide +kernel) (by decide) (by decide)

/-- What is written of a document after a run is read: its nodes are appended, but for the run that is
then under way. -/
def Reads (run : List Datum) (doc : Doc) : Prop :=
  ∀ (s : State) (tail : List Char), s.rest = doc.render ++ tail → s.text = rawOf run →
    ∃ nodes run', loop s = loop ((appendNodes s nodes).reading tail (rawOf run')) ∧
      nodes ++ textNode decodeRun run' = treeWith decodeRun run doc

/-- A node that ends a run is followed by the nodes of the rest. -/
theorem Reads.after {rest : Doc} (h : Reads [] rest) (s : State) (before : List XmlNode) (node : XmlNode)
    (tail : List Char) :
    ∃ nodes run', loop ((appendNodes s (before ++ [node])).reading (rest.render ++ tail) []) =
        loop ((appendNodes s nodes).reading tail (rawOf run')) ∧
      nodes ++ textNode decodeRun run' = before ++ (node :: treeWith decodeRun [] rest) := by
  obtain ⟨nodes, run', hloop, htree⟩ :=
    h ((appendNodes s (before ++ [node])).reading (rest.render ++ tail) []) tail rfl rfl
  refine ⟨before ++ [node] ++ nodes, run', ?_, ?_⟩
  · rw [hloop, appendNodes_reading, appendNodes_append]
    rfl
  · rw [← htree]
    simp

theorem reads (run : List Datum) (doc : Doc) : Reads run doc := by
  induction doc generalizing run with
  | nil =>
    intro s tail hrest hrun
    refine ⟨[], run, ?_, rfl⟩
    rw [appendNodes_nil, ← hrun, show tail = s.rest from hrest.symm]
    rfl
  | text data isText rest ih =>
    intro s tail hrest hrun
    rw [Doc.render, List.append_assoc] at hrest
    rw [loop_text (notMem_rawOf_isText isText) hrest]
    obtain ⟨nodes, run', hloop, htree⟩ :=
      ih (run ++ data) (s.reading (rest.render ++ tail) (s.text ++ rawOf data)) tail rfl
        (by rw [rawOf_append, ← hrun]; rfl)
    refine ⟨nodes, run', ?_, htree⟩
    rw [hloop, appendNodes_reading]
    rfl
  | cdata content closed rest ih =>
    intro s tail hrest hrun
    rw [Doc.render, List.append_assoc, List.append_assoc, List.append_assoc] at hrest
    rw [loop_cdata closed hrest]
    obtain ⟨nodes, run', hloop, htree⟩ :=
      ih (run ++ literals content) (s.reading (rest.render ++ tail) (s.text ++ content)) tail rfl
        (by rw [rawOf_append, rawOf_literals, ← hrun]; rfl)
    refine ⟨nodes, run', ?_, htree⟩
    rw [hloop, appendNodes_reading]
    rfl
  | comment content closed rest ih =>
    intro s tail hrest hrun
    rw [Doc.render, List.append_assoc, List.append_assoc, List.append_assoc] at hrest
    rw [loop_comment closed hrun hrest]
    exact (ih []).after s _ _ tail
  | leaf tag attrs gap rest ih =>
    intro s tail hrest hrun
    have hleaf : s.rest = '<' :: (tag.chars ++ (renderAttrs attrs ++ (gap.chars ++
        (tagEnd true ++ (rest.render ++ tail))))) := by
      rw [hrest]
      simp [Doc.render, tagEnd]
    rw [loop_leaf hrun hleaf]
    exact (ih []).after s _ _ tail
  | element tag attrs gap children closeGap rest ihchildren ihrest =>
    intro s tail hrest hrun
    have hopen : s.rest = '<' :: (tag.chars ++ (renderAttrs attrs ++ (gap.chars ++ (tagEnd false ++
        (children.render ++ closeTag tag closeGap (rest.render ++ tail)))))) := by
      rw [hrest]
      simp [Doc.render, tagEnd, closeTag]
    rw [loop_open hrun hopen]
    -- the children are read into the element that is open, and its closing tag ends their last run
    obtain ⟨inner, innerRun, hinner, hinnerTree⟩ := ihchildren []
      ⟨children.render ++ closeTag tag closeGap (rest.render ++ tail),
        (appendNodes s (textNode decodeRun run)).root,
        ⟨tag.chars, attrs.map Attribute.pair, []⟩ :: (appendNodes s (textNode decodeRun run)).stack, []⟩
      (closeTag tag closeGap (rest.render ++ tail)) rfl rfl
    have hclose := loop_close tag closeGap (attrs.map Attribute.pair) inner (rest.render ++ tail)
      (appendNodes s (textNode decodeRun run)).root (appendNodes s (textNode decodeRun run)).stack innerRun
    rw [hinnerTree] at hclose
    have hafter := (ihrest []).after s (textNode decodeRun run)
      (.element tag.chars (attrs.map Attribute.pair) (treeWith decodeRun [] children)) tail
    rw [← appendNodes_append, ← appendNodes_reading] at hafter
    rw [hinner]
    exact hclose ▸ hafter

/-- The parser gives the tree in which every run is decoded as a whole. -/
theorem parseLenient_render (doc : Doc) : parseLenient doc.render = .ok (treeWith decodeRun [] doc) := by
  obtain ⟨nodes, run, hloop, htree⟩ := reads [] doc (start doc.render) [] (by simp [start]) rfl
  rw [parseLenient, hloop, loop_of_nil rfl, ← htree]
  have hflush := flushText_eq (s := (appendNodes (start doc.render) nodes).reading [] (rawOf run)) rfl
  rw [appendNodes_reading, appendNodes_append] at hflush
  simp only [Except.map, finish]
  rw [hflush]
  simp [appendNodes, start, State.reading, closeElements]

/-! ## Exactness -/

/-- The parser ends on every input, every round of its loop taking something off the input; and of a
well-formed document it gives the tree exactly if no CDATA section begins what would be a reference. -/
theorem parseLenient_exact (doc : Doc) :
    (∀ xml : List Char, rounds xml.length (start xml) = some (loop (start xml))) ∧
      (parseLenient doc.render = .ok (tree doc) ↔ ∀ run ∈ runs doc, NoReference run) := by
  refine ⟨fun xml => rounds_eq_loop (Nat.le_refl _), ?_⟩
  have hnil : decodeRun [] = valueOf [] := decodeEntities_of_isText fun d hd => absurd hd List.not_mem_nil
  have hsound := sound_of_mem_runsFrom doc fun d (hd : d ∈ []) => absurd hd List.not_mem_nil
  rw [parseLenient_render, Except.ok.injEq, tree, treeWith_eq_iff hnil]
  exact forall₂_congr fun run hrun => decodeEntities_rawOf (hsound run hrun)

/-- `<a><![CDATA[&amp;]]></a>` -/
def escapedSection : Doc :=
  .element ⟨['a'], by decide, by simp [isTagChar, isWhitespace, JsNumber.isJsSpace], by decide⟩ [] ⟨[], by simp⟩
    (.cdata ['&', 'a', 'm', 'p', ';'] (by decide) .nil) ⟨[], by simp⟩ .nil

/-- The ampersand of a section is taken for the one of a reference. -/
theorem parseLenient_cdata : escapedSection.render = "<a><![CDATA[&amp;]]></a>".toList ∧
    parseLenient escapedSection.render = .ok [.element ['a'] [] [.text ['&']]] ∧
    tree escapedSection = [.element ['a'] [] [.text ['&', 'a', 'm', 'p', ';']]] ∧
    parseLenient escapedSection.render ≠ .ok (tree escapedSection) := by
  have hraw : rawOf (literals ['&', 'a', 'm', 'p', ';']) = ['&', 'a', 'm', 'p', ';'] := rawOf_literals _
  have hdecode : decodeRun (literals ['&', 'a', 'm', 'p', ';']) = ['&'] := by
    rw [decodeRun, hraw]
    decide +kernel
  have hparse : parseLenient escapedSection.render = .ok [.element ['a'] [] [.text ['&']]] := by
    rw [parseLenient_render, escapedSection]
    simp [treeWith, textNode, literals]
    exact hdecode
  have htree : tree escapedSection = [.element ['a'] [] [.text ['&', 'a', 'm', 'p', ';']]] := by
    rfl
  refine ⟨rfl, hparse, htree, ?_⟩
  rw [hparse, htree]
  simp

end PrtsMcp.TemplateXml
