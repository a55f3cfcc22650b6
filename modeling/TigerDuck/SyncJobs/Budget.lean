import Mathlib.Algebra.Order.Ring.Rat
import Mathlib.Data.Nat.Cast.Order.Ring
import Mathlib.Data.PNat.Basic
import Mathlib.Logic.Function.Basic
import Mathlib.Order.WithBot
import Mathlib.Tactic.FieldSimp
import Mathlib.Tactic.Positivity
import TigerDuck.Timing.Windows
import TigerDuck.Transition.Run

/-!
# The request budget

`RequestBudget` of `server/syncjobs/budget.py`: every Moodle request of the sync worker waits here
for its turn. A waiter reads the clock, and takes its turn or sleeps until one may be ready; it
looks again on waking, early or late, for others have gone meanwhile or a pause has begun. Nothing
is awaited between the look and the turn, so one label is one look.

Times are those of any ordered field: the arithmetic is exact.

- `BudgetInv`: what the budget says of the turns taken and the pauses asked for.
- `budget_holds`: the spacing, the pauses and the rate.
-/

namespace TigerDuck.SyncJobs

open Timing Transition

universe u

/-- A coroutine in `acquire`. -/
abbrev WaiterId := ℕ

/-- The budget, and what went on at it. -/
structure RequestBudget (K : Type u) where
  spacing : K
  /-- When the last request went. -/
  lastAt : WithBot K
  resumeAt : WithBot K

namespace RequestBudget

variable {K : Type u} [Field K] [LinearOrder K]

def init (perMinute : ℕ+) : RequestBudget K := ⟨60 / (perMinute : ℕ), ⊥, ⊥⟩

/-- `pause`. -/
def pause (b : RequestBudget K) (now seconds : K) : RequestBudget K :=
  { b with resumeAt := max b.resumeAt ↑(now + seconds) }

/-- When `acquire` finds the next turn ready. -/
def readyAt (b : RequestBudget K) : WithBot K := max b.resumeAt (b.lastAt.map (· + b.spacing))

end RequestBudget

/-- What happened at the budget. -/
inductive BudgetEvent (K : Type u)
  | paused (now seconds : K)
  | granted (w : WaiterId) (now : K)
  deriving DecidableEq, Repr

/-- When the turn was that an event is. -/
def BudgetEvent.turn {K : Type u} : BudgetEvent K → Option K
  | .paused _ _ => none
  | .granted _ now => some now

/-- The budget with its waiters: until when each sleeps, and the events so far. -/
structure Waiters (K : Type u) where
  budget : RequestBudget K
  clock : WithBot K
  asleep : WaiterId → Option (WithBot K)
  events : List (BudgetEvent K)

/-- A call of `pause`, of `acquire`, or a waiter's waking, at a reading of the clock. -/
inductive BudgetLabel (K : Type u)
  | pause (now seconds : K)
  | acquire (w : WaiterId) (now : K)
  | wake (w : WaiterId) (now : K)

namespace Waiters

variable {K : Type u} [Field K] [LinearOrder K]

def init (perMinute : ℕ+) : Waiters K := ⟨.init perMinute, ⊥, fun _ => none, []⟩

/-- One look of `acquire`: the waiter's turn, or a sleep until the next may be ready. -/
def look (s : Waiters K) (w : WaiterId) (now : K) : Waiters K :=
  if s.budget.readyAt ≤ now then
    { s with
      budget := { s.budget with lastAt := now }
      clock := now
      asleep := Function.update s.asleep w none
      events := s.events ++ [.granted w now] }
  else { s with clock := now, asleep := Function.update s.asleep w (some s.budget.readyAt) }

/-- One step; the clock never goes back, and a pause is not negative. -/
def step (s : Waiters K) : BudgetLabel K → Option (Waiters K)
  | .pause now seconds =>
    if s.clock ≤ now ∧ 0 ≤ seconds then
      some { s with
        budget := s.budget.pause now seconds
        clock := now
        events := s.events ++ [.paused now seconds] }
    else none
  | .acquire w now =>
    if s.clock ≤ now ∧ s.asleep w = none then some (s.look w now) else none
  | .wake w now =>
    if s.clock ≤ now ∧ s.asleep w ≠ none then some (s.look w now) else none

/-- The turns that were taken, oldest first. -/
def grants (s : Waiters K) : List K := s.events.filterMap BudgetEvent.turn

end Waiters

/-- A turn after a pause was asked for comes after the pause's end. -/
def BudgetEvent.Respects {K : Type u} [Add K] [LE K] : BudgetEvent K → BudgetEvent K → Prop
  | .paused start seconds, .granted _ now => start + seconds ≤ now
  | _, _ => True

section Invariant

variable {K : Type u} [Field K] [LinearOrder K] {perMinute : ℕ+} {s s' : Waiters K}

/-- What the budget says of what went on at it. -/
structure BudgetInv (perMinute : ℕ+) (s : Waiters K) : Prop where
  spacing : s.budget.spacing = 60 / (perMinute : ℕ)
  lastAt : ∀ t ∈ s.grants, (t : WithBot K) ≤ s.budget.lastAt
  resumeAt : ∀ start seconds, .paused start seconds ∈ s.events →
    ((start + seconds : K) : WithBot K) ≤ s.budget.resumeAt
  spaced : Spaced s.budget.spacing s.grants
  pauses : s.events.Pairwise BudgetEvent.Respects

theorem budgetInv_init (perMinute : ℕ+) : BudgetInv perMinute (Waiters.init perMinute : Waiters K) where
  spacing := rfl
  lastAt := fun _ ht => absurd ht List.not_mem_nil
  resumeAt := fun _ _ hpaused => absurd hpaused List.not_mem_nil
  spaced := List.Pairwise.nil
  pauses := List.Pairwise.nil

theorem BudgetInv.pause (h : BudgetInv perMinute s) (now seconds : K) :
    BudgetInv perMinute { s with
      budget := s.budget.pause now seconds
      clock := now
      events := s.events ++ [.paused now seconds] } := by
  have hgrants : (s.events ++ [BudgetEvent.paused now seconds]).filterMap BudgetEvent.turn = s.grants := by
    rw [List.filterMap_append]
    exact List.append_nil _
  constructor
  case spacing => exact h.spacing
  case lastAt =>
    intro t ht
    exact h.lastAt t (hgrants ▸ ht)
  case resumeAt =>
    intro start sec hpaused
    rcases List.mem_append.mp hpaused with hold | hnew
    · exact (h.resumeAt start sec hold).trans (le_max_left _ _)
    · cases List.mem_singleton.mp hnew
      exact le_max_right _ _
  case spaced =>
    show Spaced _ (List.filterMap _ _)
    rw [hgrants]
    exact h.spaced
  case pauses =>
    refine List.pairwise_append.mpr ⟨h.pauses, List.pairwise_singleton _ _, fun e _ e' he' => ?_⟩
    rw [List.mem_singleton.mp he']
    cases e <;> trivial

variable [IsStrictOrderedRing K]

/-- A look takes a turn only when it is ready. -/
theorem BudgetInv.look (h : BudgetInv perMinute s) (w : WaiterId) (now : K) :
    BudgetInv perMinute (s.look w now) := by
  unfold Waiters.look
  split
  next hready =>
    obtain ⟨hresumed, hspaced⟩ := max_le_iff.mp hready
    have hgrants : (s.events ++ [BudgetEvent.granted w now]).filterMap BudgetEvent.turn =
        s.grants ++ [now] := by
      rw [List.filterMap_append]
      rfl
    have hafter : ∀ t ∈ s.grants, t + s.budget.spacing ≤ now := by
      intro t ht
      obtain ⟨last, hlast, hle⟩ := WithBot.coe_le_iff.mp (h.lastAt t ht)
      rw [hlast, WithBot.map_coe, WithBot.coe_le_coe] at hspaced
      linarith
    have hpositive : 0 ≤ s.budget.spacing := by
      rw [h.spacing]
      positivity
    constructor
    case spacing => exact h.spacing
    case lastAt =>
      intro t ht
      have ht : t ∈ s.grants ++ [now] := by
        rw [← hgrants]
        exact ht
      rcases List.mem_append.mp ht with hold | hnew
      · exact WithBot.coe_le_coe.mpr (by linarith [hafter t hold])
      · rw [List.mem_singleton.mp hnew]
    case resumeAt =>
      intro start seconds hpaused
      rcases List.mem_append.mp hpaused with hold | hnew
      · exact h.resumeAt start seconds hold
      · cases List.mem_singleton.mp hnew
    case spaced =>
      show Spaced _ (List.filterMap _ _)
      rw [hgrants]
      exact h.spaced.snoc hafter
    case pauses =>
      refine List.pairwise_append.mpr ⟨h.pauses, List.pairwise_singleton _ _, fun e he e' he' => ?_⟩
      rw [List.mem_singleton.mp he']
      cases e with
      | granted => trivial
      | paused start seconds =>
        -- The budget resumes no earlier than any pause ends.
        exact WithBot.coe_le_coe.mp ((h.resumeAt start seconds he).trans hresumed)
  next => exact ⟨h.spacing, h.lastAt, h.resumeAt, h.spaced, h.pauses⟩

theorem budgetInv_step (h : BudgetInv perMinute s) {l : BudgetLabel K} (hstep : s.step l = some s') :
    BudgetInv perMinute s' := by
  cases l with
  | pause now seconds =>
    simp only [Waiters.step] at hstep
    split at hstep <;> cases hstep
    exact h.pause now seconds
  | acquire w now =>
    simp only [Waiters.step] at hstep
    split at hstep <;> cases hstep
    exact h.look w now
  | wake w now =>
    simp only [Waiters.step] at hstep
    split at hstep <;> cases hstep
    exact h.look w now

end Invariant

/-- What a budget promises. -/
structure BudgetHolds {K : Type u} [Field K] [LinearOrder K] (perMinute : ℕ+) (s : Waiters K) :
    Prop where
  /-- Any two turns are `60 / per_minute` seconds apart. -/
  spaced : s.grants.Pairwise fun t u => t + 60 / ((perMinute : ℕ) : K) ≤ u
  /-- No turn after a pause was asked for comes before the pause's end. -/
  pauses : ∀ before start seconds after w t,
    s.events = before ++ .paused start seconds :: after → .granted w t ∈ after →
      start + seconds ≤ t
  /-- At most `per_minute` turns come in 60 seconds, whichever end of them counts. -/
  rate : ∀ a : K, s.grants.countP (fun t => decide (a ≤ t ∧ t < a + 60)) ≤ perMinute ∧
    s.grants.countP (fun t => decide (a < t ∧ t ≤ a + 60)) ≤ perMinute

/-- **The request budget holds**, for any waiters, pauses and wake-ups. -/
theorem budget_holds {K : Type u} [Field K] [LinearOrder K] [IsStrictOrderedRing K]
    {perMinute : ℕ+} {ls : List (BudgetLabel K)} {s : Waiters K}
    (hrun : FreeRun Waiters.step (Waiters.init perMinute) ls s) : BudgetHolds perMinute s := by
  have h : BudgetInv perMinute s := hrun.invariant (BudgetInv perMinute) (budgetInv_init perMinute)
    fun _ _ _ h _ hstep => budgetInv_step h hstep
  have hspaced : Spaced (60 / (perMinute : ℕ) : K) s.grants := h.spacing ▸ h.spaced
  have hpositive : (0 : K) < (perMinute : ℕ) := Nat.cast_pos.mpr perMinute.pos
  have hminute : ((perMinute : ℕ) : K) * (60 / (perMinute : ℕ)) = 60 := by field_simp
  have hrate (p : K → Bool) (hp : ∀ t u, p t = true → p u = true → u - t < 60) :
      s.grants.countP p ≤ perMinute := by
    rw [List.countP_eq_length_filter]
    refine (hspaced.sublist List.filter_sublist).length_le_of_window (by positivity) ?_
    intro t ht u hu
    rw [hminute]
    exact hp t u (List.mem_filter.mp ht).2 (List.mem_filter.mp hu).2
  constructor
  case spaced => exact hspaced
  case pauses =>
    intro before start seconds after w t hevents hgranted
    have hpauses := h.pauses
    rw [hevents, List.pairwise_append] at hpauses
    exact (List.pairwise_cons.mp hpauses.2.1).1 _ hgranted
  case rate =>
    intro a
    constructor
    · refine hrate _ fun t u ht hu => ?_
      have ht := of_decide_eq_true ht
      have hu := of_decide_eq_true hu
      linarith
    · refine hrate _ fun t u ht hu => ?_
      have ht := of_decide_eq_true ht
      have hu := of_decide_eq_true hu
      linarith

/-- Two waiters and a pause at ten requests a minute: the second sleeps six seconds, wakes early,
finds a pause, and goes after it. -/
theorem budget_holds_of_pause :
    ∃ s : Waiters ℚ, exec Waiters.step (Waiters.init 10)
        [.acquire 1 0, .acquire 2 1, .pause 2 20, .wake 2 5, .wake 2 22] = some s ∧
      s.grants = [0, 22] ∧ BudgetHolds 10 s := by
  have hgrants : (exec Waiters.step (Waiters.init 10 : Waiters ℚ)
      [.acquire 1 0, .acquire 2 1, .pause 2 20, .wake 2 5, .wake 2 22]).map Waiters.grants =
        some [0, 22] := by
    decide +kernel
  obtain ⟨s, hs, hgrants⟩ := Option.map_eq_some_iff.mp hgrants
  exact ⟨s, hs, hgrants, budget_holds (run_of_exec hs)⟩

end TigerDuck.SyncJobs
