import PrtsMcp.Lookaround
import PrtsMcp.StageStats

/-!
# Thousands separators

That the commas of `apply_thousands` are those that its pattern puts between two digits.
-/
namespace PrtsMcp.Thousands

open Lookaround
open StageStats (applyThousands)

def isWord (c : Char) : Bool := c.isAlphanum || c = '_'

/-- `\B(?=(\d{3})+(?!\d))` -/
def thousands : Pattern Char :=
  .seq (.notBoundary isWord)
    (.ahead (.seq (.plus (.times 3 (.one Char.isDigit))) (.notAhead (.one Char.isDigit))))

/-- The pattern is found at a place between two digits. -/
def Separated (s : List Char) (i : ℕ) : Prop :=
  (before s i).any Char.isDigit = true ∧ s[i]?.any Char.isDigit = true ∧ thousands.FoundAt s i

theorem isWord_of_isDigit {c : Char} (h : c.isDigit = true) : isWord c = true := by
  simp [isWord, Char.isAlphanum, h]

theorem any_isWord {c : Option Char} (h : c.any Char.isDigit = true) : c.any isWord = true := by
  obtain ⟨c, rfl, hc⟩ := (Option.any_eq_true _ _).mp h
  exact isWord_of_isDigit hc

theorem separated_iff {s : List Char} {i : ℕ} :
    Separated s i ↔ (before s i).any Char.isDigit = true ∧ s[i]?.any Char.isDigit = true ∧
      3 ∣ run Char.isDigit s i ∧ 3 ≤ run Char.isDigit s i := by
  rw [← foundAt_groups_iff]
  constructor
  · rintro ⟨hbefore, hafter, j, k, ⟨rfl, -⟩, hahead⟩
    exact ⟨hbefore, hafter, hahead.2⟩
  · rintro ⟨hbefore, hafter, hahead⟩
    exact ⟨hbefore, hafter, i, i, ⟨rfl, (any_isWord hbefore).trans (any_isWord hafter).symm⟩, rfl, hahead⟩

instance (s : List Char) : DecidablePred (Separated s) := fun _ => decidable_of_iff' _ separated_iff

theorem before_append (front rest : List Char) : before (front ++ rest) front.length = front.getLast? := by
  rw [before, List.take_left]

theorem run_append (front rest : List Char) :
    run Char.isDigit (front ++ rest) front.length = (rest.takeWhile Char.isDigit).length := by
  rw [run, List.drop_left]

/-- A run of digits has no digit after it. -/
theorem all_after_run (s : List Char) :
    (s[(s.takeWhile Char.isDigit).length]?.all fun b => !b.isDigit) = true := by
  have hend : s[0 + run Char.isDigit s 0]?.any Char.isDigit ≠ true := not_any_run
  rw [Nat.zero_add, run, List.drop_zero] at hend
  cases hc : s[(s.takeWhile Char.isDigit).length]? with
  | none => rfl
  | some c =>
    rw [hc] at hend
    simpa using hend

/-- Whether a comma is put goes by the character before and the run of digits that begins here. -/
theorem applyThousands_cons (front : List Char) (c : Char) (rest : List Char) :
    applyThousands front.getLast? (c :: rest) =
      (if Separated (front ++ c :: rest) front.length then [',', c] else [c]) ++
        applyThousands (front ++ [c]).getLast? rest := by
  have hlast : (front ++ [c]).getLast? = some c := List.getLast?_concat
  have hchar : (front ++ c :: rest)[front.length]? = some c := by simp
  have hiff : (((front.getLast?.any Char.isDigit = true ∧ c.isDigit = true) ∧
        3 ≤ ((c :: rest).takeWhile Char.isDigit).length) ∧
        ((c :: rest).takeWhile Char.isDigit).length % 3 = 0) ↔
      Separated (front ++ c :: rest) front.length := by
    rw [separated_iff, before_append, run_append, hchar, Nat.dvd_iff_mod_eq_zero]
    tauto
  rw [applyThousands, all_after_run, hlast]
  simp only [Bool.and_true, Bool.and_eq_true, decide_eq_true_eq, hiff]
  by_cases hsep : Separated (front ++ c :: rest) front.length
  · rw [if_pos hsep, if_pos hsep]
    rfl
  · rw [if_neg hsep, if_neg hsep]
    rfl

theorem applyThousands_eq (front rest : List Char) :
    applyThousands front.getLast? rest = (rest.zipIdx front.length).flatMap fun entry =>
      if Separated (front ++ rest) entry.2 then [',', entry.1] else [entry.1] := by
  induction rest generalizing front with
  | nil => rfl
  | cons c rest ih =>
    have hrest := ih (front ++ [c])
    rw [List.append_assoc, List.singleton_append, List.length_append, List.length_singleton] at hrest
    rw [applyThousands_cons, hrest, List.zipIdx_cons, List.flatMap_cons]

/-- Only commas are put in. -/
theorem filter_applyThousands (last : Option Char) (s : List Char) :
    (applyThousands last s).filter (· ≠ ',') = s.filter (· ≠ ',') := by
  induction s generalizing last with
  | nil => rfl
  | cons c s ih =>
    rw [applyThousands]
    split
    · rw [List.filter_cons_of_neg (by simp), List.filter_cons, List.filter_cons, ih]
    · rw [List.filter_cons, List.filter_cons, ih]

/-- The commas stand at the places of the pattern that are between two digits, and nothing else is
changed. -/
theorem commas_eq (s : List Char) :
    applyThousands none s = insertAt ',' (Separated s) s ∧
      ((applyThousands none s).filter (· ≠ ',') = s ↔ ',' ∉ s) := by
  constructor
  · exact applyThousands_eq [] s
  · rw [filter_applyThousands, List.filter_eq_self]
    constructor
    · intro h hmem
      simpa using h _ hmem
    · intro h c hc
      simpa using fun heq : c = ',' => h (heq ▸ hc)

/-- The digits of a fraction are separated like any others. -/
example : applyThousands none "-1234567.1234e+100".toList = "-1,234,567.1,234e+100".toList := by
  decide +kernel

end PrtsMcp.Thousands
