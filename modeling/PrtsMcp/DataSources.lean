import PrtsMcp.ConfigSchema
import PrtsMcp.Paths

/-!
# Data sources

The spellings of a data source and the directory that its data are kept in.
-/
namespace PrtsMcp.DataSources

open Config (asciiAlphanumericOr invalidSource parseSource splitSlash trim validOwner validRepo)
open McpEndpoint (isWhitespace trimmed)
open Paths (Path join Inside)
open SourceGuard (DataSource isOwnerChar)

/-! ## Source -/

def devices : List (List Char) := ["con".toList, "prn".toList, "aux".toList, "nul".toList]

/-- The names of devices: a fourth character of four bytes is one byte. -/
def isDevice (stem : List Char) : Bool :=
  devices.contains stem ||
    (stem.length = 4 && ("com".toList.isPrefixOf stem || "lpt".toList.isPrefixOf stem) &&
      (stem.drop 3).all fun d => '1' ≤ d && d ≤ '9')

def stem (name : List Char) : List Char := name.takeWhile (· ≠ '.')

/-- `{b:02x}`. -/
def hexByte (b : UInt8) : List Char := [Nat.digitChar (b.toNat / 16), Nat.digitChar (b.toNat % 16)]

def escaped (name : String) : List Char := '~' :: name.toByteArray.data.toList.flatMap hexByte

def pathComponent (name : String) : List Char :=
  if isDevice (stem name.toList) || name.toList.getLast? = some '.' then escaped name else name.toList

def dataRoot (root : Path) (source : DataSource) : Path :=
  if source = .default then root
  else join (join (join root "sources".toList) (pathComponent source.owner)) (pathComponent source.repo)

/-! ## Letter case -/

/-- Only the capital letters change. -/
theorem upper_or_same (c : Char) : (∃ n < 26, c = Char.ofNat (65 + n)) ∨ c.toLower = c := by
  by_cases hup : c.val ≥ 'A'.val ∧ c.val ≤ 'Z'.val
  · have hlow : 65 ≤ c.toNat := hup.1
    have hhigh : c.toNat ≤ 90 := hup.2
    refine .inl ⟨c.toNat - 65, by omega, ?_⟩
    rw [Nat.add_sub_cancel' hlow, Char.ofNat_toNat]
  · right
    rw [Char.toLower, dif_neg hup]

/-- What is no letter comes from itself alone. -/
theorem toLower_eq_iff {c d : Char} (hd : d.isAlpha = false) : c.toLower = d ↔ c = d := by
  have hupper : ∀ n < 26, (Char.ofNat (65 + n)).isAlpha = true ∧
      (Char.ofNat (65 + n)).toLower.isAlpha = true := by decide
  rcases upper_or_same c with ⟨n, hn, rfl⟩ | hsame
  · obtain ⟨hself, hlower⟩ := hupper n hn
    constructor
    · rintro rfl
      rw [hlower] at hd
      cases hd
    · rintro rfl
      rw [hself] at hd
      cases hd
  · rw [hsame]

theorem toLower_toLower (c : Char) : c.toLower.toLower = c.toLower := by
  have hupper : ∀ n < 26, (Char.ofNat (65 + n)).toLower.toLower = (Char.ofNat (65 + n)).toLower := by decide
  rcases upper_or_same c with ⟨n, hn, rfl⟩ | hsame
  · exact hupper n hn
  · rw [hsame, hsame]

theorem isOwnerChar_toLower (c : Char) : isOwnerChar c.toLower = isOwnerChar c := by
  have hupper : ∀ n < 26, isOwnerChar (Char.ofNat (65 + n)).toLower = isOwnerChar (Char.ofNat (65 + n)) := by
    decide
  rcases upper_or_same c with ⟨n, hn, rfl⟩ | hsame
  · exact hupper n hn
  · rw [hsame]

def isRepoChar (c : Char) : Bool := asciiAlphanumericOr ['-', '_', '.'] c

theorem isRepoChar_toLower (c : Char) : isRepoChar c.toLower = isRepoChar c := by
  have hupper : ∀ n < 26, isRepoChar (Char.ofNat (65 + n)).toLower = isRepoChar (Char.ofNat (65 + n)) := by
    decide
  rcases upper_or_same c with ⟨n, hn, rfl⟩ | hsame
  · exact hupper n hn
  · rw [hsame]

theorem isWhitespace_toLower (c : Char) : isWhitespace c.toLower = isWhitespace c := by
  have hupper : ∀ n < 26, isWhitespace (Char.ofNat (65 + n)).toLower = isWhitespace (Char.ofNat (65 + n)) := by
    decide
  rcases upper_or_same c with ⟨n, hn, rfl⟩ | hsame
  · exact hupper n hn
  · rw [hsame]

def lower (cs : List Char) : List Char := cs.map Char.toLower

theorem lower_lower (cs : List Char) : lower (lower cs) = lower cs := by
  rw [lower, lower, List.map_map]
  congr 1
  funext c
  exact toLower_toLower c

theorem length_lower (cs : List Char) : (lower cs).length = cs.length := List.length_map _

theorem all_lower {p : Char → Bool} (hp : ∀ c, p c.toLower = p c) (cs : List Char) :
    (lower cs).all p = cs.all p := by
  rw [lower, List.all_map]
  congr 1
  funext c
  exact hp c

theorem map_toLower_eq_some_iff {d : Char} (hd : d.isAlpha = false) (c : Option Char) :
    c.map Char.toLower = some d ↔ c = some d := by
  cases c with
  | none => simp
  | some c => simp [toLower_eq_iff hd]

/-- A word without letters is spelled in one way only. -/
theorem lower_eq_iff {word : List Char} (hword : ∀ c ∈ word, c.isAlpha = false) (cs : List Char) :
    lower cs = word ↔ cs = word := by
  induction word generalizing cs with
  | nil => simp [lower]
  | cons d word ih =>
    cases cs with
    | nil => simp [lower]
    | cons c cs =>
      have hrest := ih (fun c hc => hword c (List.mem_cons_of_mem d hc)) cs
      rw [lower, List.map_cons, List.cons.injEq, List.cons.injEq,
        toLower_eq_iff (hword d List.mem_cons_self), ← hrest]
      rfl

theorem dash_not_alpha : '-'.isAlpha = false := by decide

theorem dot_not_alpha : '.'.isAlpha = false := by decide

theorem validOwner_lower (owner : List Char) : validOwner (lower owner) = validOwner owner := by
  have hhead : (lower owner).head? = some '-' ↔ owner.head? = some '-' := by
    rw [lower, List.head?_map, map_toLower_eq_some_iff dash_not_alpha]
  have hlast : (lower owner).getLast? = some '-' ↔ owner.getLast? = some '-' := by
    rw [lower, List.getLast?_map, map_toLower_eq_some_iff dash_not_alpha]
  have hdashes : ['-', '-'] <:+: lower owner ↔ ['-', '-'] <:+: owner := by
    rw [lower, List.infix_map_iff]
    constructor
    · rintro ⟨word, hword, heq⟩
      rwa [(lower_eq_iff (by simp [dash_not_alpha]) word).mp heq.symm] at hword
    · exact fun h => ⟨_, h, rfl⟩
  simp only [validOwner, length_lower, all_lower isOwnerChar_toLower, ne_eq, hhead, hlast, hdashes]

theorem validRepo_lower (repo : List Char) : validRepo (lower repo) = validRepo repo := by
  have hall : (lower repo).all (asciiAlphanumericOr ['-', '_', '.']) =
      repo.all (asciiAlphanumericOr ['-', '_', '.']) := all_lower isRepoChar_toLower repo
  have hdot : lower repo = ['.'] ↔ repo = ['.'] := lower_eq_iff (by simp [dot_not_alpha]) repo
  have hdots : lower repo = ['.', '.'] ↔ repo = ['.', '.'] := lower_eq_iff (by simp [dot_not_alpha]) repo
  simp only [validRepo, length_lower, hall, ne_eq, hdot, hdots]

theorem splitSlash_lower (cs : List Char) :
    splitSlash (lower cs) = (splitSlash cs).map (Prod.map lower lower) := by
  have hslash : (fun c => decide (c ≠ '/')) ∘ Char.toLower = fun c => decide (c ≠ '/') := by
    funext c
    simp only [Function.comp_apply, ne_eq, toLower_eq_iff (show '/'.isAlpha = false by decide)]
  rw [splitSlash, lower, List.dropWhile_map, List.takeWhile_map, hslash, splitSlash]
  cases cs.dropWhile fun c => decide (c ≠ '/') with
  | nil => rfl
  | cons c rest => rfl

theorem trimmed_lower (cs : List Char) : trimmed (lower cs) = lower (trimmed cs) := by
  have hspace : isWhitespace ∘ Char.toLower = isWhitespace := funext isWhitespace_toLower
  rw [trimmed, trimmed, lower, List.dropWhile_map, hspace, List.rdropWhile, List.rdropWhile,
    ← List.map_reverse, List.dropWhile_map, hspace, ← List.map_reverse, lower]

/-- Letter case plays no part in what a spelling means. -/
theorem parseSource_lower (raw : String) :
    parseSource (some (String.ofList (lower raw.toList))) = parseSource (some raw) := by
  have htrim : trim (String.ofList (lower raw.toList)) = String.ofList (lower (trim raw).toList) := by
    rw [trim, trim, String.toList_ofList, String.toList_ofList, trimmed_lower]
  have hempty : String.ofList (lower (trim raw).toList) = "" ↔ trim raw = "" := by
    have hnil : ∀ s : String, s = "" ↔ s.toList = [] := fun s => by
      rw [← String.toList_inj]
      rfl
    rw [hnil, hnil (trim raw), String.toList_ofList, lower]
    exact List.map_eq_nil_iff
  simp only [parseSource, Option.getD_some, htrim, hempty, String.toList_ofList, splitSlash_lower]
  cases splitSlash (trim raw).toList with
  | none => rfl
  | some parts =>
    simp only [Option.map_some, Prod.map, validOwner_lower, validRepo_lower, ← lower.eq_def, lower_lower]

/-! ## Parsed sources -/

/-- A parsed source that is not the default one. -/
structure Custom (source : DataSource) : Prop where
  owner : validOwner source.owner.toList = true
  repo : validRepo source.repo.toList = true
  ownerLower : lower source.owner.toList = source.owner.toList
  repoLower : lower source.repo.toList = source.repo.toList
  other : ¬ (source.owner.toList = "3akhp".toList ∧ source.repo.toList = "arknights-data-pipeline".toList)

theorem parseSource_ok {raw : Option String} {source : DataSource} (h : parseSource raw = .ok source) :
    source = .default ∨ Custom source := by
  simp only [parseSource] at h
  split at h
  · cases h
    exact .inl rfl
  · split at h
    · cases h
    · next owner repo hsplit =>
      split at h
      · next howner =>
        split at h
        · next hrepo =>
          split at h
          · cases h
            exact .inl rfl
          · next hother =>
            cases h
            refine .inr ⟨?_, ?_, ?_, ?_, ?_⟩
            · rw [String.toList_ofList]
              exact (validOwner_lower owner).trans howner
            · rw [String.toList_ofList]
              exact (validRepo_lower repo).trans hrepo
            · rw [String.toList_ofList]
              exact lower_lower owner
            · rw [String.toList_ofList]
              exact lower_lower repo
            · simpa only [String.toList_ofList] using hother
        · cases h
      · cases h

theorem Custom.ne_default {source : DataSource} (h : Custom source) : source ≠ .default := by
  rintro rfl
  have hlower := h.ownerLower
  revert hlower
  decide

theorem isRepoChar_of_isOwnerChar {c : Char} (h : isOwnerChar c = true) : isRepoChar c = true := by
  simp only [isOwnerChar, Bool.or_eq_true, decide_eq_true_eq] at h
  simp only [isRepoChar, asciiAlphanumericOr, Bool.or_eq_true]
  rcases h with halnum | rfl
  · exact .inl halnum
  · exact .inr (by decide)

theorem toNat_lt_of_isRepoChar {c : Char} (h : isRepoChar c = true) : c.toNat < 128 := by
  simp only [isRepoChar, asciiAlphanumericOr, Bool.or_eq_true, List.contains_iff_mem, List.mem_cons,
    List.not_mem_nil, or_false] at h
  rcases h with halnum | rfl | rfl | rfl
  · exact Config.toNat_lt_of_isOwnerChar (by simp [isOwnerChar, halnum])
  · decide
  · decide
  · decide

/-- A property of the characters of names, decided one by one. -/
theorem of_isRepoChar {P : Char → Prop} (h : ∀ n < 128, isRepoChar (Char.ofNat n) = true → P (Char.ofNat n))
    {c : Char} (hc : isRepoChar c = true) : P c := by
  have hchar := h c.toNat (toNat_lt_of_isRepoChar hc)
  rw [Char.ofNat_toNat] at hchar
  exact hchar hc

theorem isWhitespace_of_isRepoChar {c : Char} (h : isRepoChar c = true) : isWhitespace c = false :=
  of_isRepoChar (P := fun c => isWhitespace c = false) (by decide) h

theorem repoChars_of_validOwner {owner : List Char} (h : validOwner owner = true) :
    ∀ c ∈ owner, isRepoChar c = true := by
  simp only [validOwner, Bool.and_eq_true, List.all_eq_true] at h
  exact fun c hc => isRepoChar_of_isOwnerChar (h.1.1.1.2 c hc)

theorem repoChars_of_validRepo {repo : List Char} (h : validRepo repo = true) :
    ∀ c ∈ repo, isRepoChar c = true := by
  simp only [validRepo, Bool.and_eq_true, List.all_eq_true] at h
  exact h.2

theorem ne_nil_of_validOwner {owner : List Char} (h : validOwner owner = true) : owner ≠ [] := by
  rintro rfl
  revert h
  decide

theorem ne_nil_of_validRepo {repo : List Char} (h : validRepo repo = true) : repo ≠ [] := by
  rintro rfl
  revert h
  decide

/-- Nothing is trimmed between two characters of names. -/
theorem trimmed_of_chars {front back : List Char} (hfront : front ≠ []) (hback : back ≠ [])
    (hchars : ∀ c ∈ front ++ back, isRepoChar c = true) (mid : List Char) :
    trimmed (front ++ mid ++ back) = front ++ mid ++ back := by
  obtain ⟨first, front, rfl⟩ := List.exists_cons_of_ne_nil hfront
  obtain ⟨back, last, rfl⟩ := List.eq_nil_or_concat'  back |>.resolve_left hback
  have hfirst : isWhitespace first = false := isWhitespace_of_isRepoChar (hchars first (by simp))
  have hlast : isWhitespace last = false := isWhitespace_of_isRepoChar (hchars last (by simp))
  rw [trimmed, List.cons_append, List.cons_append, List.dropWhile_cons_of_neg (by simp [hfirst]),
    ← List.cons_append, ← List.cons_append, ← List.append_assoc, List.rdropWhile_concat_neg _ _ _ (by simp [hlast])]

theorem splitSlash_append {owner : List Char} (howner : '/' ∉ owner) (repo : List Char) :
    splitSlash (owner ++ '/' :: repo) = some (owner, repo) := by
  have hword : ∀ c ∈ owner, decide (c ≠ '/') = true := fun c hc =>
    decide_eq_true fun heq => howner (heq ▸ hc)
  rw [splitSlash, List.dropWhile_append_of_pos hword, List.takeWhile_append_of_pos hword]
  simp

theorem slash_notMem_of_validOwner {owner : List Char} (h : validOwner owner = true) : '/' ∉ owner := by
  intro hmem
  have hslash := repoChars_of_validOwner h '/' hmem
  revert hslash
  decide

/-- Valid names are read off a spelling as they are. -/
theorem parseSource_of_valid {owner repo : String} (howner : validOwner owner.toList = true)
    (hrepo : validRepo repo.toList = true) :
    parseSource (some (owner ++ "/" ++ repo)) =
      if lower owner.toList = "3akhp".toList ∧ lower repo.toList = "arknights-data-pipeline".toList then
        .ok .default
      else .ok ⟨String.ofList (lower owner.toList), String.ofList (lower repo.toList), by
        rw [String.toList_ofList]
        exact Config.validOwner_toLower howner⟩ := by
  have hchars : ∀ c ∈ owner.toList ++ repo.toList, isRepoChar c = true := by
    intro c hc
    rcases List.mem_append.mp hc with hc | hc
    · exact repoChars_of_validOwner howner c hc
    · exact repoChars_of_validRepo hrepo c hc
  have hspelled : (owner ++ "/" ++ repo).toList = owner.toList ++ ['/'] ++ repo.toList := by
    rw [String.toList_append, String.toList_append]
    rfl
  have htrim : (trim (owner ++ "/" ++ repo)).toList = owner.toList ++ '/' :: repo.toList := by
    rw [trim, String.toList_ofList, hspelled, trimmed_of_chars (ne_nil_of_validOwner howner)
      (ne_nil_of_validRepo hrepo) hchars, List.append_assoc, List.singleton_append]
  have hne : trim (owner ++ "/" ++ repo) ≠ "" := by
    intro hnil
    rw [hnil] at htrim
    exact List.append_ne_nil_of_right_ne_nil _ (List.cons_ne_nil _ _) htrim.symm
  rw [parseSource, Option.getD_some, if_neg hne, htrim, splitSlash_append (slash_notMem_of_validOwner howner)]
  simp only [howner, hrepo, dif_pos, if_true]
  rfl

theorem Custom.parseSource_slug {source : DataSource} (h : Custom source) :
    parseSource (some source.slug) = .ok source := by
  have hother : ¬ (lower source.owner.toList = "3akhp".toList ∧
      lower source.repo.toList = "arknights-data-pipeline".toList) := by
    rw [h.ownerLower, h.repoLower]
    exact h.other
  rw [DataSource.slug, parseSource_of_valid h.owner h.repo, if_neg hother]
  simp only [h.ownerLower, h.repoLower, String.ofList_toList]

theorem parseSource_slug {raw : Option String} {source : DataSource} (h : parseSource raw = .ok source) :
    parseSource (some source.slug) = .ok source := by
  rcases parseSource_ok h with rfl | hcustom
  · have howner : validOwner DataSource.default.owner.toList = true := by decide
    have hrepo : validRepo DataSource.default.repo.toList = true := by decide
    have hlower : lower DataSource.default.owner.toList = "3akhp".toList ∧
        lower DataSource.default.repo.toList = "arknights-data-pipeline".toList := by decide
    rw [DataSource.slug, parseSource_of_valid howner hrepo, if_pos hlower]
  · exact hcustom.parseSource_slug

/-! ## Path components -/

/-- The names that Windows keeps for devices, whatever their extension. -/
def deviceNames : List (List Char) :=
  devices ++ ["com".toList, "lpt".toList].flatMap fun base =>
    "123456789".toList.map fun digit => base ++ [digit]

/-- A name that is one directory on every platform. -/
structure SafeName (name : List Char) : Prop where
  nonempty : name ≠ []
  notDots : name ≠ ['.'] ∧ name ≠ ['.', '.']
  notDevice : lower (stem name) ∉ deviceNames
  noDotAtEnd : name.getLast? ≠ some '.'
  noSeparator : ∀ c ∈ name, c ≠ '/' ∧ c ≠ '\\' ∧ c ≠ ':'
  lowerCase : lower name = name

theorem isDevice_of_mem {stem : List Char} (h : stem ∈ deviceNames) : isDevice stem = true := by
  have hall : ∀ stem ∈ deviceNames, isDevice stem = true := by decide
  exact hall stem h

theorem mem_escaped {name : String} {c : Char} (h : c ∈ escaped name) :
    c = '~' ∨ ∃ n < 16, c = Nat.digitChar n := by
  rcases List.mem_cons.mp h with rfl | h
  · exact .inl rfl
  · obtain ⟨b, -, hb⟩ := List.mem_flatMap.mp h
    have hlt := b.toNat_lt
    rcases List.mem_cons.mp hb with rfl | hb
    · exact .inr ⟨_, by omega, rfl⟩
    · exact .inr ⟨_, by omega, List.mem_singleton.mp hb⟩

theorem safe_escaped (name : String) : SafeName (escaped name) := by
  have hdigits : ∀ n < 16, Nat.digitChar n ≠ '.' ∧ Nat.digitChar n ≠ '/' ∧ Nat.digitChar n ≠ '\\' ∧
      Nat.digitChar n ≠ ':' ∧ (Nat.digitChar n).toLower = Nat.digitChar n := by decide
  have hchars : ∀ c ∈ escaped name, c ≠ '.' ∧ c ≠ '/' ∧ c ≠ '\\' ∧ c ≠ ':' ∧ c.toLower = c := by
    intro c hc
    rcases mem_escaped hc with rfl | ⟨n, hn, rfl⟩
    · decide
    · exact hdigits n hn
  refine ⟨List.cons_ne_nil _ _, ⟨?_, ?_⟩, ?_, ?_, ?_, ?_⟩
  · intro h
    exact absurd (List.cons.inj h).1 (by decide)
  · intro h
    exact absurd (List.cons.inj h).1 (by decide)
  · have htilde : ∀ stem ∈ deviceNames, stem.head? ≠ some '~' := by decide
    intro h
    refine htilde _ h ?_
    rw [lower, stem, escaped, List.takeWhile_cons_of_pos (by decide)]
    rfl
  · intro h
    exact (hchars '.' (List.mem_of_getLast? h)).1 rfl
  · exact fun c hc => ⟨(hchars c hc).2.1, (hchars c hc).2.2.1, (hchars c hc).2.2.2.1⟩
  · exact (List.map_congr_left fun c hc => (hchars c hc).2.2.2.2).trans (List.map_id _)

theorem stem_lower (name : List Char) : stem (lower name) = lower (stem name) := by
  have hdot : (fun c => decide (c ≠ '.')) ∘ Char.toLower = fun c => decide (c ≠ '.') := by
    funext c
    simp only [Function.comp_apply, ne_eq, toLower_eq_iff dot_not_alpha]
  rw [stem, lower, List.takeWhile_map, hdot]
  rfl

/-- What a valid name that is not escaped has to be like. -/
theorem safe_plain {name : List Char} (hname : name ≠ []) (hdots : name ≠ ['.'] ∧ name ≠ ['.', '.'])
    (hchars : ∀ c ∈ name, isRepoChar c = true) (hlower : lower name = name)
    (hdevice : isDevice (stem name) = false) (hend : name.getLast? ≠ some '.') : SafeName name := by
  refine ⟨hname, hdots, ?_, hend, ?_, hlower⟩
  · intro h
    rw [← stem_lower, hlower] at h
    rw [isDevice_of_mem h] at hdevice
    cases hdevice
  · exact fun c hc => of_isRepoChar (P := fun c => c ≠ '/' ∧ c ≠ '\\' ∧ c ≠ ':') (by decide) (hchars c hc)

theorem safe_pathComponent {name : String} (hname : name.toList ≠ [])
    (hdots : name.toList ≠ ['.'] ∧ name.toList ≠ ['.', '.'])
    (hchars : ∀ c ∈ name.toList, isRepoChar c = true) (hlower : lower name.toList = name.toList) :
    SafeName (pathComponent name) := by
  rw [pathComponent]
  split
  · exact safe_escaped name
  · next hplain =>
    simp only [Bool.or_eq_true, decide_eq_true_eq, not_or, Bool.not_eq_true] at hplain
    exact safe_plain hname hdots hchars hlower hplain.1 hplain.2

theorem hexByte_injective : Function.Injective hexByte := by
  have hdigit : ∀ m < 16, ∀ n < 16, Nat.digitChar m = Nat.digitChar n → m = n := by decide
  intro a b h
  obtain ⟨hhigh, hlow⟩ := List.cons.inj h
  have ha := a.toNat_lt
  have hb := b.toNat_lt
  have hdiv := hdigit _ (by omega) _ (by omega) hhigh
  have hmod := hdigit _ (Nat.mod_lt _ (by decide)) _ (Nat.mod_lt _ (by decide)) (List.cons.inj hlow).1
  apply UInt8.toNat_inj.mp
  omega

theorem flatMap_hexByte_injective : Function.Injective (List.flatMap hexByte) := by
  intro a b h
  induction a generalizing b with
  | nil =>
    cases b with
    | nil => rfl
    | cons y b => cases h
  | cons x a ih =>
    cases b with
    | nil => cases h
    | cons y b =>
      rw [List.flatMap_cons, List.flatMap_cons] at h
      obtain ⟨hxy, hrest⟩ := List.append_inj h rfl
      rw [hexByte_injective hxy, ih hrest]

theorem escaped_injective : Function.Injective escaped := by
  intro a b h
  have hbytes := flatMap_hexByte_injective (List.cons.inj h).2
  exact String.toByteArray_inj.mp (ByteArray.ext (Array.toList_inj.mp hbytes))

/-- Names of valid characters do not begin as escaped ones do. -/
theorem escaped_ne {name other : String} (hchars : ∀ c ∈ name.toList, isRepoChar c = true) :
    escaped other ≠ name.toList := by
  intro h
  have htilde := hchars '~' (h ▸ List.mem_cons_self)
  revert htilde
  decide

theorem pathComponent_injective {a b : String} (ha : ∀ c ∈ a.toList, isRepoChar c = true)
    (hb : ∀ c ∈ b.toList, isRepoChar c = true) (h : pathComponent a = pathComponent b) : a = b := by
  rw [pathComponent, pathComponent] at h
  split at h
  · split at h
    · exact escaped_injective h
    · exact absurd h (escaped_ne hb)
  · split at h
    · exact absurd h.symm (escaped_ne ha)
    · exact String.toList_inj.mp h

theorem Custom.ownerChars {source : DataSource} (h : Custom source) :
    ∀ c ∈ source.owner.toList, isRepoChar c = true := repoChars_of_validOwner h.owner

theorem Custom.repoChars {source : DataSource} (h : Custom source) :
    ∀ c ∈ source.repo.toList, isRepoChar c = true := repoChars_of_validRepo h.repo

theorem Custom.safeOwner {source : DataSource} (h : Custom source) : SafeName (pathComponent source.owner) := by
  have hdot : '.' ∉ source.owner.toList := by
    intro hmem
    have howner := h.owner
    simp only [validOwner, Bool.and_eq_true, List.all_eq_true] at howner
    have hchar := howner.1.1.1.2 '.' hmem
    revert hchar
    decide
  refine safe_pathComponent (ne_nil_of_validOwner h.owner) ⟨?_, ?_⟩ h.ownerChars h.ownerLower
  · intro heq
    exact hdot (heq ▸ List.mem_cons_self)
  · intro heq
    exact hdot (heq ▸ List.mem_cons_self)

theorem Custom.safeRepo {source : DataSource} (h : Custom source) : SafeName (pathComponent source.repo) := by
  have hrepo := h.repo
  simp only [validRepo, Bool.and_eq_true, decide_eq_true_eq] at hrepo
  exact safe_pathComponent (ne_nil_of_validRepo h.repo) ⟨hrepo.1.1.2, hrepo.1.2⟩ h.repoChars h.repoLower

/-! ## Data roots -/

theorem join_safe (base : Path) {name : List Char} (h : SafeName name) :
    join base name = base ++ [.normal (String.ofList name)] := by
  have hsplit : name.splitOn '/' = [name] :=
    List.splitOn_eq_singleton fun hmem => (h.noSeparator '/' hmem).1 rfl
  have hparts : Paths.parts name = [.normal (String.ofList name)] := by
    have hsegment : Paths.segment name = some (.normal (String.ofList name)) := by
      unfold Paths.segment
      split
      · exact absurd rfl h.nonempty
      · exact absurd rfl h.notDots.1
      · exact absurd rfl h.notDots.2
      · rfl
    rw [Paths.parts, hsplit, List.filterMap_cons, hsegment]
    rfl
  have habsolute : name.head? ≠ some '/' := fun hhead =>
    (h.noSeparator '/' (List.mem_of_head? hhead)).1 rfl
  have hcurrent : ([name].head? : Option (List Char)) ≠ some ['.'] := by
    simpa using h.notDots.1
  rw [join]
  split
  · next hbase =>
    obtain rfl := hbase.resolve_left habsolute
    rw [Paths.components, if_neg habsolute, hsplit, if_neg hcurrent, hparts, List.nil_append]
  · rw [hparts]

/-- The directories of a source below the plain root. -/
def below (source : DataSource) : List String :=
  ["sources", String.ofList (pathComponent source.owner), String.ofList (pathComponent source.repo)]

theorem Custom.dataRoot_eq {source : DataSource} (h : Custom source) (root : Path) :
    dataRoot root source = root ++ (below source).map .normal := by
  have hsources : SafeName "sources".toList := by
    refine ⟨by decide, by decide, by decide, by decide, ?_, by decide⟩
    simp
  rw [dataRoot, if_neg h.ne_default, join_safe root hsources, join_safe _ h.safeOwner, join_safe _ h.safeRepo,
    List.append_assoc, List.append_assoc, String.ofList_toList]
  rfl

theorem below_injective {a b : DataSource} (ha : Custom a) (hb : Custom b) (h : below a = below b) : a = b := by
  simp only [below, List.cons.injEq, String.ofList_inj, and_true, true_and] at h
  have howner := pathComponent_injective ha.ownerChars hb.ownerChars h.1
  have hrepo := pathComponent_injective ha.repoChars hb.repoChars h.2
  cases a
  cases b
  cases howner
  cases hrepo
  rfl

/-- A path at or below another one. -/
theorem not_inside_of_ne {a b : DataSource} (ha : Custom a) (hb : Custom b) (hne : a ≠ b) (root : Path) :
    ¬ Inside (dataRoot root a) (dataRoot root b) := by
  intro h
  rw [Inside, ha.dataRoot_eq, hb.dataRoot_eq, Paths.resolve_append, Paths.resolve_append,
    Paths.foldl_enter_normal, Paths.foldl_enter_normal, List.prefix_append_right_inj] at h
  exact hne (below_injective ha hb (h.eq_of_length rfl).symm)

theorem dataRoot_eq_root_iff {raw : Option String} {source : DataSource} (h : parseSource raw = .ok source)
    (root : Path) : dataRoot root source = root ↔ source = .default := by
  rcases parseSource_ok h with rfl | hcustom
  · simp [dataRoot]
  · have hlong : root ++ (below source).map .normal ≠ root := by
      intro heq
      have hlength := congrArg List.length heq
      simp [below] at hlength
    rw [hcustom.dataRoot_eq]
    exact ⟨fun heq => absurd heq hlong, fun heq => absurd heq hcustom.ne_default⟩

/-- Parsed sources read their slugs back, differ in their directories if they differ, none inside the
other, and are the same for spellings that differ in letter case. -/
theorem sources_isolated (root : Path) (a b : Option String) (sa sb : DataSource)
    (ha : parseSource a = .ok sa) (hb : parseSource b = .ok sb) :
    parseSource (some sa.slug) = .ok sa ∧
      (dataRoot root sa = root ↔ sa = .default) ∧
      (sa ≠ sb → dataRoot root sa ≠ dataRoot root sb ∧
        (sa ≠ .default → sb ≠ .default → ¬ Inside (dataRoot root sa) (dataRoot root sb))) ∧
      (lower (a.getD "").toList = lower (b.getD "").toList → sa = sb ∧ dataRoot root sa = dataRoot root sb) ∧
      (sa ≠ .default → ∃ owner repo, SafeName owner ∧ SafeName repo ∧ dataRoot root sa =
        root ++ [.normal "sources", .normal (String.ofList owner), .normal (String.ofList repo)]) := by
  have hroota := dataRoot_eq_root_iff ha root
  have hrootb := dataRoot_eq_root_iff hb root
  refine ⟨parseSource_slug ha, hroota, ?_, ?_, ?_⟩
  · intro hne
    have hinside : sa ≠ .default → sb ≠ .default → ¬ Inside (dataRoot root sa) (dataRoot root sb) :=
      fun hna hnb => not_inside_of_ne ((parseSource_ok ha).resolve_left hna)
        ((parseSource_ok hb).resolve_left hnb) hne root
    refine ⟨fun heq => ?_, hinside⟩
    by_cases hna : sa = .default
    · exact hne (hna.trans (hrootb.mp (heq.symm.trans (hroota.mpr hna))).symm)
    · by_cases hnb : sb = .default
      · exact hna (hroota.mp (heq.trans (hrootb.mpr hnb)))
      · exact hinside hna hnb (heq ▸ List.prefix_rfl)
  · intro hspelled
    have hparse : parseSource a = parseSource b := by
      have hsome : ∀ raw : Option String, parseSource raw = parseSource (some (raw.getD "")) := fun raw => by
        cases raw <;> rfl
      rw [hsome a, hsome b, ← parseSource_lower, hspelled, parseSource_lower]
    rw [ha, hb] at hparse
    cases hparse
    exact ⟨rfl, rfl⟩
  · intro hna
    have hcustom := (parseSource_ok ha).resolve_left hna
    exact ⟨_, _, hcustom.safeOwner, hcustom.safeRepo, hcustom.dataRoot_eq root⟩

def team (repo : String) : DataSource := ⟨"team", repo, by decide⟩

theorem sources_isolated_team :
    dataRoot [.rootDir, .normal "data"] (team "com1.zip") ≠ dataRoot [.rootDir, .normal "data"] (team "repo.") :=
  ((sources_isolated [.rootDir, .normal "data"] (some " Team/COM1.zip ") (some "team/repo.") (team "com1.zip")
    (team "repo.") (by rfl) (by rfl)).2.2.1 (by decide)).1

/-- Names that a platform would not keep as they are. -/
example : pathComponent "com1.zip" = "~636f6d312e7a6970".toList ∧ pathComponent "repo." = "~7265706f2e".toList ∧
    pathComponent "normal-repo" = "normal-repo".toList := by decide +kernel

end PrtsMcp.DataSources
