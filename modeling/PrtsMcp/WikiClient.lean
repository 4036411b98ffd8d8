import PrtsMcp.I64

/-!
# The rate limiter of the wiki client

Slots that requests reserve one after the other, at the times of a clock that may go back.
-/
namespace PrtsMcp.WikiClient

open ActivityPages (Build)
open I64 (InRange narrow narrow_of_inRange)

structure RateLimiter where
  nextAllowedMs : ℤ
  intervalMs : ℤ
  deriving DecidableEq, Repr

def RateLimiter.new (intervalMs : ℤ) : RateLimiter := ⟨0, intervalMs⟩

/-- The slot that the next request gets. -/
def RateLimiter.slot (limiter : RateLimiter) (nowMs : ℤ) : ℤ := max nowMs limiter.nextAllowedMs

/-- The limiter once the slot is taken, in unbounded integers. -/
def RateLimiter.after (limiter : RateLimiter) (nowMs : ℤ) : RateLimiter :=
  { limiter with nextAllowedMs := limiter.slot nowMs + limiter.intervalMs }

def reserve (build : Build) (limiter : RateLimiter) (nowMs : ℤ) : Option (ℤ × RateLimiter) := do
  let slot := limiter.slot nowMs
  let next ← narrow build (slot + limiter.intervalMs)
  let wait ← narrow build (slot - nowMs)
  return (wait, { limiter with nextAllowedMs := next })

/-- The waits of requests in the order in which they take the lock; a panic leaves it poisoned. -/
def reserveAll (build : Build) : RateLimiter → List ℤ → Option (List ℤ)
  | _, [] => some []
  | limiter, nowMs :: rest => do
    let (wait, limiter) ← reserve build limiter nowMs
    let waits ← reserveAll build limiter rest
    return wait :: waits

/-! ## What the slots keep -/

def slots (arrivals waits : List ℤ) : List ℤ := List.zipWith (· + ·) arrivals waits

/-- Each request waits until the interval has passed since the slot before it, and no longer. -/
def WaitsFor (interval : ℤ) : Option ℤ → List ℤ → List ℤ → Prop
  | _, [], [] => True
  | before, nowMs :: arrivals, wait :: waits =>
    wait = max 0 (before.elim 0 fun slot => slot + interval - nowMs) ∧
      WaitsFor interval (some (nowMs + wait)) arrivals waits
  | _, _, _ => False

structure Spaced (interval : ℤ) (arrivals waits : List ℤ) : Prop where
  apart : (slots arrivals waits).Pairwise fun s t => interval ≤ |t - s|
  waits_for : WaitsFor interval none arrivals waits

/-- No operation of the reservations leaves the range of `i64`. -/
def Fits : RateLimiter → List ℤ → Prop
  | _, [] => True
  | limiter, nowMs :: rest =>
    InRange (limiter.slot nowMs + limiter.intervalMs) ∧ InRange (limiter.slot nowMs - nowMs) ∧
      Fits (limiter.after nowMs) rest

theorem reserve_of_inRange {limiter : RateLimiter} {nowMs : ℤ}
    (hnext : InRange (limiter.slot nowMs + limiter.intervalMs))
    (hwait : InRange (limiter.slot nowMs - nowMs)) (build : Build) :
    reserve build limiter nowMs = some (limiter.slot nowMs - nowMs, limiter.after nowMs) := by
  simp [reserve, narrow_of_inRange hnext, narrow_of_inRange hwait, RateLimiter.after]

/-- What the reservations keep from a limiter on: no slot comes before its next allowed time. -/
structure Kept (limiter : RateLimiter) (arrivals waits : List ℤ) : Prop where
  from_next : 0 ≤ limiter.intervalMs → ∀ slot ∈ slots arrivals waits, limiter.nextAllowedMs ≤ slot
  apart : (slots arrivals waits).Pairwise fun s t => limiter.intervalMs ≤ |t - s|
  waits_for : WaitsFor limiter.intervalMs (some (limiter.nextAllowedMs - limiter.intervalMs))
    arrivals waits

theorem Kept.cons {limiter : RateLimiter} {nowMs : ℤ} {arrivals waits : List ℤ}
    (h : Kept (limiter.after nowMs) arrivals waits) :
    Kept limiter (nowMs :: arrivals) ((limiter.slot nowMs - nowMs) :: waits) := by
  have hslot : nowMs + (limiter.slot nowMs - nowMs) = limiter.slot nowMs := by omega
  have hle : limiter.nextAllowedMs ≤ limiter.slot nowMs := le_max_right _ _
  have hlater := h.from_next
  simp only [RateLimiter.after] at hlater
  refine ⟨fun hinterval => ?_, ?_, ?_, ?_⟩
  · rw [slots, List.zipWith_cons_cons, hslot, List.forall_mem_cons]
    refine ⟨hle, fun slot hmem => ?_⟩
    have := hlater hinterval slot hmem
    omega
  · rw [slots, List.zipWith_cons_cons, hslot, List.pairwise_cons]
    refine ⟨fun slot hmem => ?_, h.apart⟩
    rcases le_or_gt 0 limiter.intervalMs with hinterval | hinterval
    · have := hlater hinterval slot hmem
      exact (by omega : limiter.intervalMs ≤ slot - limiter.slot nowMs).trans (le_abs_self _)
    · exact hinterval.le.trans (abs_nonneg _)
  · simp only [RateLimiter.slot, Option.elim_some]
    omega
  · have hwaits := h.waits_for
    simp only [RateLimiter.after, add_sub_cancel_right] at hwaits
    rwa [hslot]

/-- The run over all requests, by one reservation after the other. -/
theorem reserveAll_kept {limiter : RateLimiter} {arrivals : List ℤ} (hfits : Fits limiter arrivals)
    (build : Build) : ∃ waits, reserveAll build limiter arrivals = some waits ∧
      Kept limiter arrivals waits := by
  induction arrivals generalizing limiter with
  | nil => exact ⟨[], rfl, by simp [slots], by simp [slots], trivial⟩
  | cons nowMs arrivals ih =>
    obtain ⟨hnext, hwait, hrest⟩ := hfits
    obtain ⟨waits, hwaits, hkept⟩ := ih hrest
    refine ⟨(limiter.slot nowMs - nowMs) :: waits, ?_, hkept.cons⟩
    simp [reserveAll, reserve_of_inRange hnext hwait, hwaits]

/-- A first request at or after the start of the clock's epoch does not wait. -/
theorem Kept.spaced {interval : ℤ} {arrivals waits : List ℤ}
    (h : Kept (RateLimiter.new interval) arrivals waits) (hfirst : ∀ t ∈ arrivals.head?, 0 ≤ t) :
    Spaced interval arrivals waits := by
  refine ⟨h.apart, ?_⟩
  have hwaits := h.waits_for
  cases arrivals with
  | nil => cases waits <;> exact hwaits
  | cons nowMs arrivals =>
    have hnow : 0 ≤ nowMs := hfirst nowMs rfl
    cases waits with
    | nil => exact hwaits
    | cons wait waits =>
      obtain ⟨hwait, hrest⟩ := hwaits
      refine ⟨?_, hrest⟩
      simp only [RateLimiter.new, Option.elim_some, Option.elim_none] at hwait ⊢
      omega

/-- Slots are an interval apart and no request waits longer than for that, whatever the clock does,
while no time leaves the range of `i64`. -/
theorem reserveAll_spaced (build : Build) (interval : ℤ) (arrivals : List ℤ)
    (hfirst : ∀ t ∈ arrivals.head?, 0 ≤ t) (hfits : Fits (RateLimiter.new interval) arrivals) :
    ∃ waits, reserveAll build (RateLimiter.new interval) arrivals = some waits ∧
      Spaced interval arrivals waits := by
  obtain ⟨waits, hwaits, hkept⟩ := reserveAll_kept hfits build
  exact ⟨waits, hwaits, hkept.spaced hfirst⟩

theorem reserveAll_spaced_clockBack :
    ∃ waits, reserveAll .wrapping (RateLimiter.new 1500) [2000, 1200, 9000] = some waits ∧
      Spaced 1500 [2000, 1200, 9000] waits :=
  reserveAll_spaced .wrapping 1500 [2000, 1200, 9000] (by simp)
    ⟨by decide, by decide, by decide, by decide, by decide, by decide, trivial⟩

/-- At the last time of `i64` the next one is lost. -/
theorem reserveAll_lastTime :
    (¬ ∃ waits, reserveAll .checked (RateLimiter.new 1500) [2 ^ 63 - 1, 2 ^ 63 - 1] = some waits ∧
      Spaced 1500 [2 ^ 63 - 1, 2 ^ 63 - 1] waits) ∧
    (¬ ∃ waits, reserveAll .wrapping (RateLimiter.new 1500) [2 ^ 63 - 1, 2 ^ 63 - 1] = some waits ∧
      Spaced 1500 [2 ^ 63 - 1, 2 ^ 63 - 1] waits) := by
  constructor
  · rintro ⟨waits, hwaits, -⟩
    have hrun : reserveAll .checked (RateLimiter.new 1500) [2 ^ 63 - 1, 2 ^ 63 - 1] = none := by decide
    cases hrun.symm.trans hwaits
  · rintro ⟨waits, hwaits, hspaced⟩
    have hrun : reserveAll .wrapping (RateLimiter.new 1500) [2 ^ 63 - 1, 2 ^ 63 - 1] = some [0, 0] := by
      decide
    obtain rfl : [0, 0] = waits := Option.some.inj (hrun.symm.trans hwaits)
    have hapart := hspaced.apart
    simp [slots] at hapart

end PrtsMcp.WikiClient
