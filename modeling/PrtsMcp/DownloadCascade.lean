import PrtsMcp.SyncTypes

/-!
# The download cascade

A URL is asked for directly and then of every mirror, until one answers it or the direct answer
settles that no mirror can.
-/
namespace PrtsMcp.DownloadCascade

open SyncTypes (TransportError)

variable {ρ : Type}

/-! ## Source -/

/-- How a request ends within its time. -/
inductive Outcome (ρ : Type) where
  | timeout
  | failed (text : String)
  | response (status : ℕ) (body : ρ)

def candidates (mirrors : List String) (url : String) : List String :=
  url :: mirrors.map fun mirror => mirror ++ "/" ++ url

def attempt (timeoutMs : ℕ) (url : String) : Outcome ρ → Except TransportError (ℕ × ρ)
  | .timeout => .error (.network ("timeout after " ++ toString timeoutMs ++ "ms: " ++ url))
  | .failed text => .error (.network text)
  | .response status body => .ok (status, body)

/-- The loop from the candidate `index` on: what it returns, and whom it asks. -/
def consumeFrom (timeoutMs : ℕ) (outcome : ℕ → Outcome ρ) (index : ℕ) (lastError : TransportError) :
    List String → Except TransportError ρ × List String
  | [] => (.error lastError, [])
  | candidate :: rest =>
    let (result, asked) : Except TransportError ρ × List String :=
      match attempt timeoutMs candidate (outcome index) with
      | .ok (status, body) =>
        if 200 ≤ status ∧ status < 300 then (.ok body, [])
        else if index = 0 ∧ status = 404 then (.error (.assetNotFound candidate), [])
        else if index = 0 ∧ 400 ≤ status ∧ status < 500 then (.error (.http status), [])
        else consumeFrom timeoutMs outcome (index + 1) (.http status) rest
      | .error e => consumeFrom timeoutMs outcome (index + 1) e rest
    (result, candidate :: asked)

/-- The outcomes are those of the candidates in their order. -/
def consume (mirrors : List String) (url : String) (timeoutMs : ℕ) (outcome : ℕ → Outcome ρ) :
    Except TransportError ρ × List String :=
  consumeFrom timeoutMs outcome 0 (.network "All URL candidates failed") (candidates mirrors url)

/-! ## What an outcome means -/

namespace Outcome

/-- The body of a 2xx response. -/
def success : Outcome ρ → Option ρ
  | response status body => if 200 ≤ status ∧ status < 300 then some body else none
  | _ => none

def isClientError : Outcome ρ → Bool
  | response status _ => 400 ≤ status && status < 500
  | _ => false

def isNotFound : Outcome ρ → Bool
  | response status _ => status = 404
  | _ => false

/-- The error of a candidate that did not answer with success. -/
def error (timeoutMs : ℕ) (candidate : String) : Outcome ρ → TransportError
  | timeout => .network ("timeout after " ++ toString timeoutMs ++ "ms: " ++ candidate)
  | failed text => .network text
  | response status _ => .http status

/-- Nobody is asked after this outcome. -/
def Settles (index : ℕ) (o : Outcome ρ) : Prop :=
  o.success.isSome = true ∨ (index = 0 ∧ o.isClientError = true)

instance (index : ℕ) (o : Outcome ρ) : Decidable (o.Settles index) :=
  inferInstanceAs (Decidable (o.success.isSome = true ∨ (index = 0 ∧ o.isClientError = true)))

/-- What the loop returns if it ends with this candidate. -/
def verdict (timeoutMs index : ℕ) (candidate : String) (o : Outcome ρ) : Except TransportError ρ :=
  match o.success with
  | some body => .ok body
  | none =>
    if index = 0 ∧ o.isNotFound = true then .error (.assetNotFound candidate)
    else .error (o.error timeoutMs candidate)

theorem isClientError_of_isNotFound {o : Outcome ρ} (h : o.isNotFound = true) : o.isClientError = true := by
  cases o with
  | timeout => cases h
  | failed text => cases h
  | response status body =>
    have hstatus : status = 404 := of_decide_eq_true h
    subst hstatus
    rfl

theorem success_of_isClientError {o : Outcome ρ} (h : o.isClientError = true) : o.success = none := by
  cases o with
  | timeout => rfl
  | failed text => rfl
  | response status body =>
    simp only [isClientError, Bool.and_eq_true, decide_eq_true_eq] at h
    exact if_neg (by omega)

theorem success_eq_none_of_not_settles {index : ℕ} {o : Outcome ρ} (h : ¬ o.Settles index) :
    o.success = none :=
  Option.not_isSome_iff_eq_none.mp fun hsome => h (.inl hsome)

theorem verdict_of_not_settles {index : ℕ} {o : Outcome ρ} (h : ¬ o.Settles index) (timeoutMs : ℕ)
    (candidate : String) : o.verdict timeoutMs index candidate = .error (o.error timeoutMs candidate) := by
  have hfound : ¬ (index = 0 ∧ o.isNotFound = true) := fun hboth =>
    h (.inr ⟨hboth.1, isClientError_of_isNotFound hboth.2⟩)
  rw [verdict, success_eq_none_of_not_settles h]
  exact if_neg hfound

theorem verdict_eq_ok_iff {index timeoutMs : ℕ} {candidate : String} {o : Outcome ρ} {body : ρ} :
    o.verdict timeoutMs index candidate = .ok body ↔ o.success = some body := by
  rw [verdict]
  cases o.success with
  | some found => simp
  | none =>
    dsimp only
    split <;> simp

/-- Only the direct answer can say that there is no such asset. -/
theorem verdict_eq_assetNotFound_iff {index timeoutMs : ℕ} {candidate url : String} {o : Outcome ρ} :
    o.verdict timeoutMs index candidate = .error (.assetNotFound url) ↔
      index = 0 ∧ o.isNotFound = true ∧ url = candidate := by
  rw [verdict]
  cases hsuccess : o.success with
  | some found =>
    have hnot : o.isNotFound ≠ true := by
      intro h
      rw [success_of_isClientError (isClientError_of_isNotFound h)] at hsuccess
      cases hsuccess
    simp [hnot]
  | none =>
    by_cases h : index = 0 ∧ o.isNotFound = true
    · simp [h, eq_comm]
    · have herror : o.error timeoutMs candidate ≠ .assetNotFound url := by
        cases o <;> simp [error]
      simp only [h, if_false, Except.error.injEq, herror, false_iff]
      exact fun hall => h ⟨hall.1, hall.2.1⟩

theorem eq_error_of_verdict {index timeoutMs : ℕ} {candidate : String} {o : Outcome ρ} {e : TransportError}
    (h : o.verdict timeoutMs index candidate = .error e) (hfound : ¬ (index = 0 ∧ o.isNotFound = true)) :
    e = o.error timeoutMs candidate := by
  rw [verdict] at h
  cases hsuccess : o.success with
  | some found =>
    rw [hsuccess] at h
    cases h
  | none =>
    rw [hsuccess] at h
    simp only [hfound, if_false, Except.error.injEq] at h
    exact h.symm

end Outcome

/-! ## Runs of the loop -/

section Loop

variable (timeoutMs : ℕ) (outcome : ℕ → Outcome ρ)

theorem consumeFrom_cons (index : ℕ) (lastError : TransportError) (candidate : String) (rest : List String) :
    consumeFrom timeoutMs outcome index lastError (candidate :: rest) =
      if (outcome index).Settles index then
        ((outcome index).verdict timeoutMs index candidate, [candidate])
      else
        ((consumeFrom timeoutMs outcome (index + 1) ((outcome index).error timeoutMs candidate) rest).1,
          candidate :: (consumeFrom timeoutMs outcome (index + 1)
            ((outcome index).error timeoutMs candidate) rest).2) := by
  rw [consumeFrom]
  cases ho : outcome index with
  | timeout => simp [attempt, Outcome.Settles, Outcome.success, Outcome.isClientError, Outcome.error]
  | failed text => simp [attempt, Outcome.Settles, Outcome.success, Outcome.isClientError, Outcome.error]
  | response status body =>
    simp only [attempt, Outcome.Settles, Outcome.success, Outcome.isClientError, Outcome.error,
      Outcome.verdict, Outcome.isNotFound, Bool.and_eq_true, decide_eq_true_eq]
    by_cases hok : 200 ≤ status ∧ status < 300
    · simp [hok]
    · by_cases hfound : index = 0 ∧ status = 404
      · obtain ⟨rfl, rfl⟩ := hfound
        simp
      · by_cases hclient : index = 0 ∧ 400 ≤ status ∧ status < 500
        · obtain ⟨rfl, hlow, hhigh⟩ := hclient
          have hne : status ≠ 404 := fun h => hfound ⟨rfl, h⟩
          simp [hok, hne, hlow, hhigh]
        · simp [hok, hfound, hclient]

/-- The loop ends with the first candidate whose outcome settles it, or else with the last one. -/
theorem consumeFrom_run (index : ℕ) (lastError : TransportError) (candidate : String) (rest : List String) :
    ∃ k, ∃ hk : k < (candidate :: rest).length,
      consumeFrom timeoutMs outcome index lastError (candidate :: rest) =
        ((outcome (index + k)).verdict timeoutMs (index + k) (candidate :: rest)[k],
          (candidate :: rest).take (k + 1)) ∧
      (∀ i < k, ¬ (outcome (index + i)).Settles (index + i)) ∧
      ((outcome (index + k)).Settles (index + k) ∨ k = rest.length) := by
  induction rest generalizing index lastError candidate with
  | nil =>
    refine ⟨0, Nat.one_pos, ?_, fun i hi => absurd hi (Nat.not_lt_zero i), .inr rfl⟩
    rw [consumeFrom_cons]
    split
    · rfl
    · next hgoes =>
      rw [consumeFrom]
      have hverdict := Outcome.verdict_of_not_settles hgoes timeoutMs candidate
      rw [Nat.add_zero, List.getElem_cons_zero, hverdict]
      rfl
  | cons next rest ih =>
    by_cases hends : (outcome index).Settles index
    · refine ⟨0, Nat.succ_pos _, ?_, fun i hi => absurd hi (Nat.not_lt_zero i), .inl hends⟩
      rw [consumeFrom_cons, if_pos hends]
      rfl
    · obtain ⟨k, hk, hrun, hbefore, hlast⟩ :=
        ih (index + 1) ((outcome index).error timeoutMs candidate) next
      have hplace : index + 1 + k = index + (k + 1) := by omega
      rw [hplace] at hrun hlast
      refine ⟨k + 1, Nat.succ_lt_succ hk, ?_, ?_, hlast.imp_right (congrArg Nat.succ)⟩
      · rw [consumeFrom_cons, if_neg hends, hrun]
        rfl
      · intro i hi
        cases i with
        | zero => exact hends
        | succ i =>
          have hnot := hbefore i (Nat.lt_of_succ_lt_succ hi)
          rwa [show index + 1 + i = index + (i + 1) by omega] at hnot

end Loop

/-! ## The cascade -/

/-- The first 2xx response among the candidates. -/
def firstSuccess (mirrors : List String) (outcome : ℕ → Outcome ρ) : Option ρ :=
  (List.range (mirrors.length + 1)).findSome? fun i => (outcome i).success

theorem firstSuccess_eq_some {mirrors : List String} {outcome : ℕ → Outcome ρ} {k : ℕ} {body : ρ}
    (hk : k < mirrors.length + 1) (hbefore : ∀ i < k, (outcome i).success = none)
    (hbody : (outcome k).success = some body) : firstSuccess mirrors outcome = some body := by
  obtain ⟨d, hd⟩ := Nat.exists_eq_add_of_lt hk
  have hnone : (List.range k).findSome? (fun i => (outcome i).success) = none := by
    rw [List.findSome?_eq_none_iff]
    exact fun i hi => hbefore i (List.mem_range.mp hi)
  rw [firstSuccess, hd, Nat.add_assoc, List.range_add, List.findSome?_append, hnone, Nat.add_comm d 1,
    List.range_add]
  simp [hbody]

theorem firstSuccess_eq_none {mirrors : List String} {outcome : ℕ → Outcome ρ}
    (h : ∀ i ≤ mirrors.length, (outcome i).success = none) : firstSuccess mirrors outcome = none := by
  rw [firstSuccess, List.findSome?_eq_none_iff]
  exact fun i hi => h i (Nat.lt_succ_iff.mp (List.mem_range.mp hi))

/-- The URL is asked first and the mirrors in their order, up to the first success or to a direct 4xx.
The first success is returned; the asset is absent exactly if the direct answer was 404; any other
failure is that of the last candidate that was asked. -/
theorem consume_cascade (mirrors : List String) (url : String) (timeoutMs : ℕ) (outcome : ℕ → Outcome ρ) :
    (consume mirrors url timeoutMs outcome).1.toOption =
        (if (outcome 0).isClientError then none else firstSuccess mirrors outcome) ∧
      (∀ absent, (consume mirrors url timeoutMs outcome).1 = .error (.assetNotFound absent) ↔
        (outcome 0).isNotFound = true ∧ absent = url) ∧
      ∃ k, ∃ hk : k < (candidates mirrors url).length,
        (consume mirrors url timeoutMs outcome).2 = (candidates mirrors url).take (k + 1) ∧
        (∀ i < k, (outcome i).success = none) ∧
        ((outcome 0).isClientError = true → k = 0) ∧
        ∀ e, (consume mirrors url timeoutMs outcome).1 = .error e → (outcome 0).isNotFound = false →
          e = (outcome k).error timeoutMs (candidates mirrors url)[k] := by
  obtain ⟨k, hk, hrun, hbefore, hlast⟩ := consumeFrom_run timeoutMs outcome 0
    (.network "All URL candidates failed") url (mirrors.map fun mirror => mirror ++ "/" ++ url)
  simp only [Nat.zero_add] at hrun hbefore hlast
  have hconsume : consume mirrors url timeoutMs outcome =
      ((outcome k).verdict timeoutMs k (candidates mirrors url)[k], (candidates mirrors url).take (k + 1)) :=
    hrun
  have hlength : (candidates mirrors url).length = mirrors.length + 1 := by
    rw [candidates, List.length_cons, List.length_map]
  have hnone : ∀ i < k, (outcome i).success = none := fun i hi =>
    Outcome.success_eq_none_of_not_settles (hbefore i hi)
  have hdirect : (outcome 0).isClientError = true → k = 0 := by
    intro hclient
    by_contra hne
    exact hbefore 0 (Nat.pos_of_ne_zero hne) (.inr ⟨rfl, hclient⟩)
  rw [hconsume]
  refine ⟨?_, ?_, k, hk, rfl, hnone, hdirect, ?_⟩
  · cases hbody : (outcome k).success with
    | some body =>
      have hclient : (outcome 0).isClientError ≠ true := by
        intro hclient
        rw [hdirect hclient, Outcome.success_of_isClientError hclient] at hbody
        cases hbody
      rw [if_neg hclient, firstSuccess_eq_some (hlength ▸ hk) hnone hbody,
        Outcome.verdict_eq_ok_iff.mpr hbody]
      rfl
    | none =>
      have hfails : ((outcome k).verdict timeoutMs k (candidates mirrors url)[k]).toOption = none := by
        cases hverdict : (outcome k).verdict timeoutMs k (candidates mirrors url)[k] with
        | ok body =>
          rw [Outcome.verdict_eq_ok_iff.mp hverdict] at hbody
          cases hbody
        | error e => rfl
      rw [hfails]
      split
      · rfl
      · next hclient =>
        have hend : k = mirrors.length := by
          rcases hlast with (hsome | ⟨rfl, hclient'⟩) | hend
          · rw [hbody] at hsome
            cases hsome
          · exact absurd hclient' hclient
          · rwa [List.length_map] at hend
        refine (firstSuccess_eq_none fun i hi => ?_).symm
        rcases Nat.lt_or_eq_of_le hi with hlt | rfl
        · exact hnone i (hend ▸ hlt)
        · exact hend ▸ hbody
  · intro absent
    rw [Outcome.verdict_eq_assetNotFound_iff]
    constructor
    · rintro ⟨rfl, hfound, rfl⟩
      exact ⟨hfound, rfl⟩
    · rintro ⟨hfound, rfl⟩
      obtain rfl := hdirect (Outcome.isClientError_of_isNotFound hfound)
      exact ⟨rfl, hfound, rfl⟩
  · intro e he hfound
    apply Outcome.eq_error_of_verdict he
    rintro ⟨rfl, hk⟩
    rw [hfound] at hk
    cases hk

end PrtsMcp.DownloadCascade
