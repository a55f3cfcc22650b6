import Mathlib.Data.Fintype.Basic
import Mathlib.Data.Fintype.Card
import Mathlib.Logic.Function.Basic
import TigerDuck.Transition.RowLock
import TigerDuck.Transition.Run

/-!
# Task groups

Tasks that run side by side until all have ended. Once one has raised, the group cancels the others;
a task that is being cancelled may still come to an end of its own before it notices.

`outcome` says what becomes of each task that is not cancelled, so a statement about every run of
every outcome is one about every order the tasks can end in.

- `returned_of_ended`: a group in which no task raises has what all of them return.
- `errors_ne_nil_of_ended`: a group in which a task would raise has an error.
-/

namespace Transition

universe u v w

variable {ι : Type u} {α : Type v} {ε : Type w}

/-- How far a task has come. -/
inductive TaskState
  | running
  | returned
  | raised
  | cancelled
  deriving DecidableEq, Repr

/-- A task group: its tasks, and what they have returned and raised so far, in order. -/
structure TaskGroup (ι : Type u) (α : Type v) (ε : Type w) where
  state : ι → TaskState
  returned : List (ι × α)
  errors : List (ι × ε)

/-- A task comes to its end, or ends cancelled. -/
inductive TaskLabel (ι : Type u)
  | finish (i : ι)
  | cancel (i : ι)

namespace TaskGroup

/-- A group with its tasks created. -/
def start : TaskGroup ι α ε := ⟨fun _ => .running, [], []⟩

variable [DecidableEq ι] (outcome : ι → Except ε α)

/-- One step of a group. -/
def step (g : TaskGroup ι α ε) : TaskLabel ι → Option (TaskGroup ι α ε)
  | .finish i =>
    if g.state i = .running then
      match outcome i with
      | .ok value =>
        some { g with
          state := Function.update g.state i .returned
          returned := g.returned ++ [(i, value)] }
      | .error error =>
        some { g with
          state := Function.update g.state i .raised
          errors := g.errors ++ [(i, error)] }
    else none
  | .cancel i =>
    if g.state i = .running ∧ g.errors.isEmpty = false then
      some { g with state := Function.update g.state i .cancelled }
    else none

/-- All tasks have ended. -/
def Ended (g : TaskGroup ι α ε) : Prop := ∀ i, g.state i ≠ .running

instance [Fintype ι] (g : TaskGroup ι α ε) : Decidable g.Ended :=
  inferInstanceAs (Decidable (∀ i, g.state i ≠ .running))

/-- The steps of a group. -/
inductive Steps (g : TaskGroup ι α ε) : TaskLabel ι → TaskGroup ι α ε → Prop
  | returns (i : ι) (value : α) (hrunning : g.state i = .running) (hvalue : outcome i = .ok value) :
      Steps g (.finish i)
        ⟨Function.update g.state i .returned, g.returned ++ [(i, value)], g.errors⟩
  | raises (i : ι) (error : ε) (hrunning : g.state i = .running)
      (herror : outcome i = .error error) :
      Steps g (.finish i)
        ⟨Function.update g.state i .raised, g.returned, g.errors ++ [(i, error)]⟩
  | cancels (i : ι) (hrunning : g.state i = .running) (herrors : g.errors ≠ []) :
      Steps g (.cancel i) ⟨Function.update g.state i .cancelled, g.returned, g.errors⟩

variable {outcome} {g g' : TaskGroup ι α ε} {l : TaskLabel ι}

theorem step_steps (h : step outcome g l = some g') : Steps outcome g l g' := by
  cases l with
  | finish i =>
    rw [step] at h
    split at h
    next hrunning =>
      cases hout : outcome i with
      | ok value =>
        rw [hout] at h
        obtain rfl := Option.some.inj h
        exact .returns i value hrunning hout
      | error error =>
        rw [hout] at h
        obtain rfl := Option.some.inj h
        exact .raises i error hrunning hout
    next => cases h
  | cancel i =>
    rw [step] at h
    split at h
    next hcancel =>
      obtain rfl := Option.some.inj h
      refine .cancels i hcancel.1 fun hnil => ?_
      rw [hnil] at hcancel
      simp at hcancel
    next => cases h

/-- A running task can come to its end. -/
theorem exists_finish {i : ι} (h : g.state i = .running) :
    ∃ g', step outcome g (.finish i) = some g' := by
  rw [step, if_pos h]
  cases outcome i with
  | ok value => exact ⟨_, rfl⟩
  | error error => exact ⟨_, rfl⟩

/-- What a group knows of its tasks. -/
structure GroupInv (outcome : ι → Except ε α) (g : TaskGroup ι α ε) : Prop where
  returned : ∀ i value, (i, value) ∈ g.returned → outcome i = .ok value
  errors : ∀ i error, (i, error) ∈ g.errors → outcome i = .error error
  hasReturned : ∀ i, g.state i = .returned → ∃ value, (i, value) ∈ g.returned
  hasRaised : ∀ i, g.state i = .raised → g.errors ≠ []
  wasCancelled : ∀ i, g.state i = .cancelled → g.errors ≠ []

omit [DecidableEq ι] in
theorem groupInv_start : GroupInv outcome start where
  returned := by simp [start]
  errors := by simp [start]
  hasReturned := by simp [start]
  hasRaised := by simp [start]
  wasCancelled := by simp [start]

theorem groupInv_step (hinv : GroupInv outcome g) (h : step outcome g l = some g') :
    GroupInv outcome g' := by
  cases step_steps h with
  | returns i value hrunning hvalue =>
    refine ⟨?_, hinv.errors, ?_, ?_, ?_⟩
    · intro j v hj
      rcases List.mem_append.mp hj with hj | hj
      · exact hinv.returned j v hj
      · obtain ⟨rfl, rfl⟩ := Prod.mk.inj (List.mem_singleton.mp hj)
        exact hvalue
    · intro j hj
      rcases update_cases hj with ⟨rfl, -⟩ | ⟨-, hj⟩
      · exact ⟨value, by simp⟩
      · obtain ⟨v, hv⟩ := hinv.hasReturned j hj
        exact ⟨v, List.mem_append_left _ hv⟩
    · intro j hj
      rcases update_cases hj with ⟨-, hne⟩ | ⟨-, hj⟩
      · cases hne
      · exact hinv.hasRaised j hj
    · intro j hj
      rcases update_cases hj with ⟨-, hne⟩ | ⟨-, hj⟩
      · cases hne
      · exact hinv.wasCancelled j hj
  | raises i error hrunning herror =>
    have hne : g.errors ++ [(i, error)] ≠ [] := by simp
    refine ⟨hinv.returned, ?_, ?_, fun _ _ => hne, fun _ _ => hne⟩
    · intro j e hj
      rcases List.mem_append.mp hj with hj | hj
      · exact hinv.errors j e hj
      · obtain ⟨rfl, rfl⟩ := Prod.mk.inj (List.mem_singleton.mp hj)
        exact herror
    · intro j hj
      rcases update_cases hj with ⟨-, hne⟩ | ⟨-, hj⟩
      · cases hne
      · exact hinv.hasReturned j hj
  | cancels i hrunning herrors =>
    refine ⟨hinv.returned, hinv.errors, ?_, fun _ _ => herrors, fun _ _ => herrors⟩
    intro j hj
    rcases update_cases hj with ⟨-, hne⟩ | ⟨-, hj⟩
    · cases hne
    · exact hinv.hasReturned j hj

/-- The tasks that raise come to their end in the order of their errors. -/
theorem mem_errors_step (h : step outcome g l = some g') {i : ι} {error : ε} :
    (i, error) ∈ g'.errors ↔ (i, error) ∈ g.errors ∨ l = .finish i ∧ outcome i = .error error := by
  cases step_steps h with
  | returns j value hrunning hvalue =>
    have hno : ¬(TaskLabel.finish j = .finish i ∧ outcome i = .error error) := by
      rintro ⟨hj, herror⟩
      obtain rfl := TaskLabel.finish.inj hj
      rw [hvalue] at herror
      cases herror
    exact ⟨Or.inl, fun hor => hor.resolve_right hno⟩
  | raises j e hrunning herror =>
    rw [List.mem_append, List.mem_singleton, Prod.mk.injEq]
    refine or_congr_right ⟨?_, ?_⟩
    · rintro ⟨rfl, rfl⟩
      exact ⟨rfl, herror⟩
    · rintro ⟨hj, hi⟩
      obtain rfl := TaskLabel.finish.inj hj
      rw [herror] at hi
      exact ⟨rfl, (Except.error.inj hi).symm⟩
  | cancels j hrunning herrors => simp

section Runs

variable {labels : List (TaskLabel ι)}

theorem groupInv (hrun : FreeRun (step outcome) start labels g) : GroupInv outcome g :=
  hrun.invariant (GroupInv outcome) groupInv_start fun _ _ _ hinv _ h => groupInv_step hinv h

/-- The errors are those of the tasks that came to their end. -/
theorem mem_errors_iff (hrun : FreeRun (step outcome) start labels g) {i : ι} {error : ε} :
    (i, error) ∈ g.errors ↔ .finish i ∈ labels ∧ outcome i = .error error := by
  induction hrun with
  | nil => simp [start]
  | snoc _ _ h ih =>
    rw [mem_errors_step h, ih, List.mem_append, List.mem_singleton, or_and_right]
    simp only [eq_comm]

omit [DecidableEq ι] in
/-- A group in which no task raises has what all of them return. -/
theorem returned_of_ended (hinv : GroupInv outcome g) (hended : g.Ended)
    (hnone : ∀ i error, outcome i ≠ .error error) :
    g.errors = [] ∧ ∀ i value, (i, value) ∈ g.returned ↔ outcome i = .ok value := by
  have herrors : g.errors = [] :=
    List.eq_nil_iff_forall_not_mem.mpr fun e he => hnone e.1 e.2 (hinv.errors e.1 e.2 he)
  refine ⟨herrors, fun i value => ⟨hinv.returned i value, fun hvalue => ?_⟩⟩
  cases hstate : g.state i with
  | running => exact absurd hstate (hended i)
  | raised => exact absurd herrors (hinv.hasRaised i hstate)
  | cancelled => exact absurd herrors (hinv.wasCancelled i hstate)
  | returned =>
    obtain ⟨v, hv⟩ := hinv.hasReturned i hstate
    have hsame := (hinv.returned i v hv).symm.trans hvalue
    rwa [← Except.ok.inj hsame]

omit [DecidableEq ι] in
/-- A group in which a task would raise has an error: if the task was cancelled, another's. -/
theorem errors_ne_nil_of_ended (hinv : GroupInv outcome g) (hended : g.Ended) {i : ι} {error : ε}
    (herror : outcome i = .error error) : g.errors ≠ [] := by
  cases hstate : g.state i with
  | running => exact absurd hstate (hended i)
  | raised => exact hinv.hasRaised i hstate
  | cancelled => exact hinv.wasCancelled i hstate
  | returned =>
    obtain ⟨v, hv⟩ := hinv.hasReturned i hstate
    rw [hinv.returned i v hv] at herror
    cases herror

/-- Each task ends once. -/
theorem length_add_running [Fintype ι] (hrun : FreeRun (step outcome) start labels g) :
    labels.length + (Finset.univ.filter fun i => g.state i = .running).card =
      Fintype.card ι := by
  induction hrun with
  | nil => simp [start]
  | @snoc labels g l g' _ _ h ih =>
    have hends : ∃ i state, g.state i = .running ∧ state ≠ .running ∧
        g'.state = Function.update g.state i state := by
      cases step_steps h with
      | returns i _ hrunning _ => exact ⟨i, .returned, hrunning, by decide, rfl⟩
      | raises i _ hrunning _ => exact ⟨i, .raised, hrunning, by decide, rfl⟩
      | cancels i hrunning _ => exact ⟨i, .cancelled, hrunning, by decide, rfl⟩
    obtain ⟨i, state, hrunning, hne, hstate⟩ := hends
    have herase : (Finset.univ.filter fun j => g'.state j = .running) =
        (Finset.univ.filter fun j => g.state j = .running).erase i := by
      ext j
      by_cases hj : j = i
      · subst hj
        simp [hstate, hne]
      · simp [hstate, hj]
    rw [herase, Finset.card_erase_of_mem (by simp [hrunning]), List.length_append,
      List.length_singleton, ← ih]
    have hpos : 0 < (Finset.univ.filter fun j => g.state j = .running).card :=
      Finset.card_pos.mpr ⟨i, by simp [hrunning]⟩
    omega

end Runs

end TaskGroup

end Transition
