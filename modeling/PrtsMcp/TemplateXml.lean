import PrtsMcp.McpEndpoint
import PrtsMcp.XmlEntities

/-!
# The lenient parser of parse trees

The scanner for the XML of template parse trees with its stack of open elements, and that every step
of it takes something off the input.
-/
namespace PrtsMcp.TemplateXml

open XmlEntities
open McpEndpoint (isWhitespace)

/-! ## The parser -/

inductive XmlNode where
  | text (text : List Char)
  | comment (text : List Char)
  | element (tag : List Char) (attrs : List (List Char × List Char)) (children : List XmlNode)

structure OpenElement where
  tag : List Char
  attrs : List (List Char × List Char)
  children : List XmlNode

inductive XmlParseError where
  | xmlParseError
  deriving DecidableEq, Repr

/-- The input from the place on that is looked at, the finished nodes, the open elements, the
innermost first, and the text that was not yet flushed. -/
structure State where
  rest : List Char
  root : List XmlNode
  stack : List OpenElement
  text : List Char

def pushNode (s : State) (node : XmlNode) : State :=
  match s.stack with
  | top :: below => { s with stack := { top with children := top.children ++ [node] } :: below }
  | [] => { s with root := s.root ++ [node] }

def flushText (s : State) : State :=
  if s.text = [] then s else { pushNode s (.text (decodeEntities s.text)) with text := [] }

def skipWs (rest : List Char) : List Char := rest.dropWhile isWhitespace

def isTagChar (c : Char) : Bool := !isWhitespace c && c ≠ '>' && c ≠ '/'

def readTagName (rest : List Char) : Option (List Char × List Char) :=
  if '<' ∈ rest.takeWhile isTagChar ∨ rest.takeWhile isTagChar = [] then none
  else some (rest.takeWhile isTagChar, rest.dropWhile isTagChar)

def isAttrChar (c : Char) : Bool := !isWhitespace c && c ≠ '=' && c ≠ '>' && c ≠ '/'

def readAttrName (rest : List Char) : Option (List Char × List Char) :=
  if rest.takeWhile isAttrChar = [] then none
  else some (rest.takeWhile isAttrChar, rest.dropWhile isAttrChar)

def isBareChar (c : Char) : Bool := !isWhitespace c && c ≠ '>'

/-- A value in quotes, or all up to the next blank or the end of the tag. -/
def readAttrValue : List Char → Option (List Char × List Char)
  | [] => none
  | quote :: rest =>
    if quote = '"' ∨ quote = '\'' then cut [quote] rest
    else some ((quote :: rest).takeWhile isBareChar, (quote :: rest).dropWhile isBareChar)

/-- The value after the name of an attribute, if there is one. -/
def readValue (rest : List Char) : Option (List Char × List Char) :=
  match skipWs rest with
  | '=' :: after => readAttrValue (skipWs after)
  | after => some ([], after)

theorem length_dropWhile_le (p : Char → Bool) (s : List Char) : (s.dropWhile p).length ≤ s.length :=
  (List.dropWhile_suffix p).length_le

theorem length_skipWs_le (s : List Char) : (skipWs s).length ≤ s.length := length_dropWhile_le _ s

theorem length_of_readAttrName {rest name after : List Char} (h : readAttrName rest = some (name, after)) :
    after.length < rest.length := by
  rw [readAttrName] at h
  split_ifs at h with hname
  cases h
  have hpos := List.length_pos_of_ne_nil hname
  have hsplit := congrArg List.length (List.takeWhile_append_dropWhile (p := isAttrChar) (l := rest))
  rw [List.length_append] at hsplit
  omega

theorem length_of_readAttrValue {rest value after : List Char}
    (h : readAttrValue rest = some (value, after)) : after.length ≤ rest.length := by
  cases rest with
  | nil => cases h
  | cons quote rest =>
    rw [readAttrValue] at h
    split_ifs at h
    · rw [eq_of_cut h]
      simp only [List.length_cons, List.length_append]
      omega
    · cases h
      exact length_dropWhile_le _ _

theorem length_of_readValue {rest value after : List Char} (h : readValue rest = some (value, after)) :
    after.length ≤ rest.length := by
  have hskip := length_skipWs_le rest
  unfold readValue at h
  split at h
  · next after' heq =>
    have hvalue := length_of_readAttrValue h
    have hskip' := length_skipWs_le after'
    rw [heq, List.length_cons] at hskip
    omega
  · cases h
    exact hskip

/-- The attributes of a tag up to its end: whether it closes itself, and what follows. -/
def readAttrs (attrs : List (List Char × List Char)) (rest : List Char) :
    Option (List (List Char × List Char) × Bool × List Char) :=
  match skipWs rest with
  | [] => none
  | '>' :: after => some (attrs, false, after)
  | '/' :: '>' :: after => some (attrs, true, after)
  | _ =>
    match _hname : readAttrName (skipWs rest) with
    | none => none
    | some (name, after) =>
      match _hvalue : readValue after with
      | none => none
      | some (value, after) => readAttrs (attrs ++ [(name, decodeEntities value)]) after
termination_by rest.length
decreasing_by
  have hskip := length_skipWs_le rest
  have hname := length_of_readAttrName _hname
  have hvalue := length_of_readValue _hvalue
  omega

/-- The innermost elements are closed, as many as are said. -/
def closeElements : ℕ → State → State
  | 0, s => s
  | n + 1, s =>
    match s.stack with
    | top :: below =>
      closeElements n (pushNode { s with stack := below } (.element top.tag top.attrs top.children))
    | [] => s

def commentStep (s : State) : State :=
  match cut ['-', '-', '>'] (s.rest.drop 4) with
  | some (text, after) => { pushNode (flushText s) (.comment text) with rest := after }
  | none => { pushNode (flushText s) (.comment (s.rest.drop 4)) with rest := [] }

def cdataStep (s : State) : State :=
  match cut [']', ']', '>'] (s.rest.drop 9) with
  | some (content, after) => { s with text := s.text ++ content, rest := after }
  | none => { s with text := s.text ++ s.rest.drop 9, rest := [] }

/-- A processing instruction or a document type is dropped. -/
def instructionStep (s : State) : State :=
  match cut ['>'] (s.rest.drop 2) with
  | some (_, after) => { flushText s with rest := after }
  | none => { s with rest := [] }

/-- The end of a closing tag. -/
def closeEnd (rest : List Char) : Option (List Char) :=
  match skipWs rest with
  | '>' :: after => some after
  | '/' :: '>' :: after => some after
  | _ => none

/-- A closing tag closes the innermost element of its name and what was opened in it; without such
an element it is ignored. -/
def closeStep (s : State) : Except XmlParseError State :=
  match readTagName (s.rest.drop 2) with
  | none => .error .xmlParseError
  | some (name, after) =>
    match closeEnd after with
    | none => .error .xmlParseError
    | some after =>
      let s := flushText s
      match s.stack.findIdx? fun element => element.tag = name with
      | some pos => .ok { closeElements (pos + 1) s with rest := after }
      | none => .ok { s with rest := after }

def openStep (s : State) : Except XmlParseError State :=
  match readTagName (s.rest.drop 1) with
  | none => .error .xmlParseError
  | some (name, after) =>
    match readAttrs [] after with
    | none => .error .xmlParseError
    | some (attrs, true, after) => .ok { pushNode (flushText s) (.element name attrs []) with rest := after }
    | some (attrs, false, after) =>
      .ok { flushText s with stack := ⟨name, attrs, []⟩ :: (flushText s).stack, rest := after }

/-- One round of the loop, at `c` with `rest` after it. -/
def step (s : State) (c : Char) (rest : List Char) : Except XmlParseError State :=
  if c ≠ '<' then .ok { s with text := s.text ++ [c], rest }
  else if ['!', '-', '-'].isPrefixOf rest then .ok (commentStep s)
  else if ['!', '[', 'C', 'D', 'A', 'T', 'A', '['].isPrefixOf rest then .ok (cdataStep s)
  else if ['?'].isPrefixOf rest || ['!'].isPrefixOf rest then .ok (instructionStep s)
  else if ['/'].isPrefixOf rest then closeStep s
  else openStep s

/-! ## Progress -/

@[simp]
theorem rest_pushNode (s : State) (node : XmlNode) : (pushNode s node).rest = s.rest := by
  unfold pushNode
  split <;> rfl

@[simp]
theorem text_pushNode (s : State) (node : XmlNode) : (pushNode s node).text = s.text := by
  unfold pushNode
  split <;> rfl

theorem length_of_cut {pat s before after : List Char} (h : cut pat s = some (before, after)) :
    after.length ≤ s.length := by
  rw [eq_of_cut h]
  simp only [List.length_append]
  omega

theorem length_of_readTagName {rest name after : List Char} (h : readTagName rest = some (name, after)) :
    after.length ≤ rest.length := by
  rw [readTagName] at h
  split_ifs at h
  cases h
  exact length_dropWhile_le _ _

theorem length_of_closeEnd {rest after : List Char} (h : closeEnd rest = some after) :
    after.length ≤ rest.length := by
  have hskip := length_skipWs_le rest
  unfold closeEnd at h
  split at h
  · next heq =>
    cases h
    rw [heq, List.length_cons] at hskip
    omega
  · next heq =>
    cases h
    rw [heq, List.length_cons, List.length_cons] at hskip
    omega
  · cases h

theorem readAttrs_end {rest after : List Char} (h : skipWs rest = '>' :: after)
    (attrs : List (List Char × List Char)) : readAttrs attrs rest = some (attrs, false, after) := by
  rw [readAttrs]
  simp only [h]

theorem readAttrs_closing {rest after : List Char} (h : skipWs rest = '/' :: '>' :: after)
    (attrs : List (List Char × List Char)) : readAttrs attrs rest = some (attrs, true, after) := by
  rw [readAttrs]
  simp only [h]

theorem isAttrChar_of_readAttrName {c : Char} {rest name after : List Char}
    (h : readAttrName (c :: rest) = some (name, after)) : isAttrChar c = true := by
  rw [readAttrName] at h
  split_ifs at h with hname
  by_contra hc
  exact hname (List.takeWhile_cons_of_neg hc)

/-- An attribute is read where its name and its value are. -/
theorem readAttrs_cons {rest name value after after' : List Char}
    (hname : readAttrName (skipWs rest) = some (name, after)) (hvalue : readValue after = some (value, after'))
    (attrs : List (List Char × List Char)) :
    readAttrs attrs rest = readAttrs (attrs ++ [(name, decodeEntities value)]) after' := by
  rw [readAttrs]
  split
  · next h =>
    rw [h] at hname
    cases hname
  · next h =>
    rw [h] at hname
    exact absurd (isAttrChar_of_readAttrName hname) (by decide)
  · next h =>
    rw [h] at hname
    exact absurd (isAttrChar_of_readAttrName hname) (by decide)
  · split
    · next h =>
      rw [hname] at h
      cases h
    · next h =>
      rw [hname] at h
      cases h
      split
      · next h' =>
        rw [hvalue] at h'
        cases h'
      · next h' =>
        rw [hvalue] at h'
        cases h'
        rfl

theorem length_of_readAttrs {attrs all : List (List Char × List Char)} {rest after : List Char}
    {closing : Bool} (h : readAttrs attrs rest = some (all, closing, after)) :
    after.length ≤ rest.length := by
  induction attrs, rest using readAttrs.induct with
  | case1 attrs rest hskip =>
    rw [readAttrs] at h
    simp only [hskip] at h
    cases h
  | case2 attrs rest after' hskip =>
    rw [readAttrs_end hskip] at h
    cases h
    have hlength := length_skipWs_le rest
    rw [hskip, List.length_cons] at hlength
    omega
  | case3 attrs rest after' hskip =>
    rw [readAttrs_closing hskip] at h
    cases h
    have hlength := length_skipWs_le rest
    rw [hskip, List.length_cons, List.length_cons] at hlength
    omega
  | case4 attrs rest hname h1 h2 h3 =>
    rw [readAttrs] at h
    split at h
    · next h' => exact absurd h' h1
    · next h' => exact absurd h' (h2 _)
    · next h' => exact absurd h' (h3 _)
    · split at h
      · cases h
      · next h' =>
        rw [hname] at h'
        cases h'
  | case5 attrs rest name after' hname hvalue h1 h2 h3 =>
    rw [readAttrs] at h
    split at h
    · next h' => exact absurd h' h1
    · next h' => exact absurd h' (h2 _)
    · next h' => exact absurd h' (h3 _)
    · split at h
      · cases h
      · next h' =>
        rw [hname] at h'
        cases h'
        split at h
        · cases h
        · next h' =>
          rw [hvalue] at h'
          cases h'
  | case6 attrs rest name after' hname value after'' hvalue h1 h2 h3 ih =>
    rw [readAttrs_cons hname hvalue] at h
    have hrest := ih h
    have hlength := length_skipWs_le rest
    have hless := length_of_readAttrName hname
    have hle := length_of_readValue hvalue
    omega

@[simp]
theorem rest_flushText (s : State) : (flushText s).rest = s.rest := by
  unfold flushText
  split_ifs
  · rfl
  · exact rest_pushNode s _

/-- What is dropped at a step, at least one character. -/
theorem length_drop_lt {s : List Char} {n : ℕ} (hs : s ≠ []) (hn : 0 < n) : (s.drop n).length < s.length := by
  rw [List.length_drop]
  have hpos := List.length_pos_of_ne_nil hs
  omega

theorem length_commentStep {s : State} (h : s.rest ≠ []) :
    (commentStep s).rest.length < s.rest.length := by
  unfold commentStep
  split
  · next hcut => exact (length_of_cut hcut).trans_lt (length_drop_lt h (by decide))
  · exact List.length_pos_of_ne_nil h

theorem length_cdataStep {s : State} (h : s.rest ≠ []) : (cdataStep s).rest.length < s.rest.length := by
  unfold cdataStep
  split
  · next hcut => exact (length_of_cut hcut).trans_lt (length_drop_lt h (by decide))
  · exact List.length_pos_of_ne_nil h

theorem length_instructionStep {s : State} (h : s.rest ≠ []) :
    (instructionStep s).rest.length < s.rest.length := by
  unfold instructionStep
  split
  · next hcut => exact (length_of_cut hcut).trans_lt (length_drop_lt h (by decide))
  · exact List.length_pos_of_ne_nil h

theorem length_closeStep {s s' : State} (h : s.rest ≠ []) (hstep : closeStep s = .ok s') :
    s'.rest.length < s.rest.length := by
  unfold closeStep at hstep
  split at hstep
  · cases hstep
  · next hname =>
    split at hstep
    · cases hstep
    · next hend =>
      have hlength := ((length_of_closeEnd hend).trans (length_of_readTagName hname)).trans_lt
        (length_drop_lt h (by decide))
      simp only at hstep
      split at hstep
      · cases hstep
        exact hlength
      · cases hstep
        exact hlength

theorem length_openStep {s s' : State} (h : s.rest ≠ []) (hstep : openStep s = .ok s') :
    s'.rest.length < s.rest.length := by
  unfold openStep at hstep
  split at hstep
  · cases hstep
  · next hname =>
    have hlength := fun {after : List Char} (hafter : after.length ≤ _) =>
      (Nat.le_trans hafter (length_of_readTagName hname)).trans_lt (length_drop_lt h (by decide : 0 < 1))
    split at hstep
    · cases hstep
    · next hattrs =>
      cases hstep
      exact hlength (length_of_readAttrs hattrs)
    · next hattrs =>
      cases hstep
      exact hlength (length_of_readAttrs hattrs)

/-- Every round of the loop takes something off the input. -/
theorem length_step {s s' : State} {c : Char} {rest : List Char} (h : s.rest = c :: rest)
    (hstep : step s c rest = .ok s') : s'.rest.length < s.rest.length := by
  have hne : s.rest ≠ [] := by
    rw [h]
    exact List.cons_ne_nil c rest
  unfold step at hstep
  split_ifs at hstep
  · cases hstep
    rw [h]
    exact Nat.lt_succ_self _
  · cases hstep
    exact length_commentStep hne
  · cases hstep
    exact length_cdataStep hne
  · cases hstep
    exact length_instructionStep hne
  · exact length_closeStep hne hstep
  · exact length_openStep hne hstep

/-! ## The run -/

def loop (s : State) : Except XmlParseError State :=
  match _h : s.rest with
  | [] => .ok s
  | c :: rest =>
    match _hstep : step s c rest with
    | .error e => .error e
    | .ok s' => loop s'
termination_by s.rest.length
decreasing_by exact length_step _h _hstep

def start (xml : List Char) : State := ⟨xml, [], [], []⟩

/-- The text is flushed and all elements are closed. -/
def finish (s : State) : List XmlNode :=
  (closeElements (flushText s).stack.length (flushText s)).root

def parseLenient (xml : List Char) : Except XmlParseError (List XmlNode) :=
  (loop (start xml)).map finish

theorem loop_of_nil {s : State} (h : s.rest = []) : loop s = .ok s := by
  rw [loop]
  split
  · rfl
  · next heq =>
    rw [h] at heq
    cases heq

theorem loop_of_cons {s : State} {c : Char} {rest : List Char} (h : s.rest = c :: rest) :
    loop s = (step s c rest).bind loop := by
  rw [loop]
  split
  · next heq =>
    rw [h] at heq
    cases heq
  · next c' rest' heq =>
    rw [h] at heq
    cases heq
    split
    · next he =>
      rw [he]
      rfl
    · next hs =>
      rw [hs]
      rfl

theorem loop_of_step {s s' : State} {c : Char} {rest : List Char} (h : s.rest = c :: rest)
    (hstep : step s c rest = .ok s') : loop s = loop s' := by
  rw [loop_of_cons h, hstep]
  rfl

/-- The loop for a number of rounds; `none` where they are not enough. -/
def rounds : ℕ → State → Option (Except XmlParseError State)
  | 0, s => if s.rest = [] then some (.ok s) else none
  | n + 1, s =>
    match s.rest with
    | [] => some (.ok s)
    | c :: rest =>
      match step s c rest with
      | .error e => some (.error e)
      | .ok s' => rounds n s'

/-- The loop ends within as many rounds as there are characters. -/
theorem rounds_eq_loop {n : ℕ} {s : State} (h : s.rest.length ≤ n) : rounds n s = some (loop s) := by
  induction n generalizing s with
  | zero =>
    have hnil := List.eq_nil_of_length_eq_zero (Nat.le_zero.mp h)
    rw [rounds, if_pos hnil, loop_of_nil hnil]
  | succ n ih =>
    rw [rounds]
    cases hrest : s.rest with
    | nil => rw [loop_of_nil hrest]
    | cons c rest =>
      rw [loop_of_cons hrest]
      cases hstep : step s c rest with
      | error e =>
        simp only [hstep]
        rfl
      | ok s' =>
        have hless := length_step hrest hstep
        simp only [hstep]
        exact ih (by omega)

end PrtsMcp.TemplateXml
