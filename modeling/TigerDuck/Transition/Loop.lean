import Mathlib.Data.Nat.Notation
import Mathlib.Order.WellFounded

/-!
# Loops fed from outside

A loop is a total function `next : σ → α → σ` that reads one answer from outside in each round. It
runs on a sequence of answers, so a statement about every sequence is one about everything the
outside can do.

- `loop_invariant`: what every round keeps holds after every number of rounds.
- `loop_add`: a run goes on from any of its states.
- `loop_stops`: rounds that lower a well-founded measure until a last state reach one.
-/

namespace Transition

universe u v w

variable {σ : Type u} {α : Type v} {next : σ → α → σ}

/-- The state after some rounds. -/
def loop (next : σ → α → σ) (s : σ) (answers : ℕ → α) : ℕ → σ
  | 0 => s
  | n + 1 => next (loop next s answers n) (answers n)

@[simp]
theorem loop_zero (s : σ) (answers : ℕ → α) : loop next s answers 0 = s := rfl

theorem loop_succ (s : σ) (answers : ℕ → α) (n : ℕ) :
    loop next s answers (n + 1) = next (loop next s answers n) (answers n) := rfl

/-- What every round keeps. -/
theorem loop_invariant {s : σ} (answers : ℕ → α) (Inv : σ → Prop) (hinit : Inv s)
    (hnext : ∀ s a, Inv s → Inv (next s a)) (n : ℕ) : Inv (loop next s answers n) := by
  induction n with
  | zero => exact hinit
  | succ n ih => exact hnext _ _ ih

/-- Some rounds after some rounds. -/
theorem loop_add (s : σ) (answers : ℕ → α) (m n : ℕ) :
    loop next s answers (m + n) =
      loop next (loop next s answers m) (fun k => answers (m + k)) n := by
  induction n with
  | zero => rfl
  | succ n ih => rw [← Nat.add_assoc, loop_succ, loop_succ, ih]

/-- A loop whose rounds lower a measure until a last state comes to one. -/
theorem loop_stops {β : Type w} {rel : β → β → Prop} (hwf : WellFounded rel) (measure : σ → β)
    (Inv last : σ → Prop) (ok : α → Prop) (hnext : ∀ s a, Inv s → Inv (next s a))
    (hlower : ∀ s a, Inv s → ¬last s → ok a → rel (measure (next s a)) (measure s))
    {s : σ} (hinit : Inv s) {answers : ℕ → α} (hok : ∀ n, ok (answers n)) :
    ∃ n, last (loop next s answers n) := by
  induction h : measure s using hwf.induction generalizing s answers with
  | _ b ih =>
    subst h
    by_cases hlast : last s
    · exact ⟨0, hlast⟩
    · obtain ⟨n, hn⟩ := ih _ (hlower s (answers 0) hinit hlast (hok 0)) (hnext s _ hinit)
        (fun k => hok (1 + k)) rfl
      refine ⟨1 + n, ?_⟩
      rw [loop_add]
      exact hn

end Transition
