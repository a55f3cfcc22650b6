import Mathlib.Logic.Function.Basic

/-!
# Row locks

The exclusive row locks transactions hold until they end, as a map from each row to its
holder. A statement that needs a row another transaction holds waits, so its step is not
enabled; an ending transaction gives back every row it holds.
-/

namespace Transition

universe u v

variable {κ : Type u} {τ : Type v}

/-- What an updated map holds at a key is the new value, or what it held. -/
theorem update_cases {κ : Type u} {β : Type v} [DecidableEq κ] {f : κ → β} {k k' : κ} {v b : β}
    (h : Function.update f k v k' = b) : (k' = k ∧ v = b) ∨ (k' ≠ k ∧ f k' = b) := by
  by_cases hk : k' = k
  · subst hk
    rw [Function.update_self] at h
    exact Or.inl ⟨rfl, h⟩
  · rw [Function.update_of_ne hk] at h
    exact Or.inr ⟨hk, h⟩

/-- The holder of each row, if it has one. -/
abbrev RowLocks (κ : Type u) (τ : Type v) := κ → Option τ

namespace RowLocks

/-- No row is held. -/
def free : RowLocks κ τ := fun _ => none

/-- A transaction can lock a row nobody else holds. -/
def Available (l : RowLocks κ τ) (t : τ) (k : κ) : Prop := l k = none ∨ l k = some t

instance [DecidableEq τ] (l : RowLocks κ τ) (t : τ) (k : κ) : Decidable (l.Available t k) :=
  inferInstanceAs (Decidable (_ ∨ _))

/-- `SELECT … FOR UPDATE` of an available row. -/
def lock [DecidableEq κ] (l : RowLocks κ τ) (t : τ) (k : κ) : RowLocks κ τ :=
  Function.update l k (some t)

/-- The end of a transaction. -/
def release [DecidableEq τ] (l : RowLocks κ τ) (t : τ) : RowLocks κ τ :=
  fun k => if l k = some t then none else l k

variable {l : RowLocks κ τ} {t t' : τ} {k k' : κ}

@[simp]
theorem lock_self [DecidableEq κ] : l.lock t k k = some t := Function.update_self ..

/-- Locking an available row takes nothing from its holder. -/
theorem lock_of_held [DecidableEq κ] (h : l k = some t) (hk : l.Available t' k') :
    l.lock t' k' k = some t := by
  by_cases hkk : k = k'
  · subst hkk
    rcases hk with hnone | hown
    · rw [h] at hnone
      cases hnone
    · rw [lock_self, ← hown, h]
  · rw [lock, Function.update_of_ne hkk, h]

/-- The end of one transaction takes nothing from the others. -/
theorem release_of_held [DecidableEq τ] (h : l k = some t) (hne : t ≠ t') :
    l.release t' k = some t := by
  have hother : ¬ some t = some t' := fun heq => hne (Option.some.inj heq)
  rw [release, h, if_neg hother]

/-- The end of a transaction locks no row. -/
theorem held_of_release [DecidableEq τ] (h : l.release t' k = some t) : l k = some t := by
  unfold release at h
  split at h
  · cases h
  · exact h

/-- After its end a transaction holds no row. -/
theorem release_ne [DecidableEq τ] : l.release t k ≠ some t := by
  unfold release
  split
  · exact Option.some_ne_none t ∘ Eq.symm
  · assumption

end RowLocks

end Transition
