import Mathlib.Algebra.Order.Field.Basic
import Mathlib.Data.List.Pairwise
import Mathlib.Tactic.GCongr
import Mathlib.Tactic.Linarith
import Mathlib.Tactic.Ring

/-!
# Times and windows

Lists of times, oldest first, over any linear order or linearly ordered field.

- `dropWhile_le_eq_filter`: of times in order, dropping the old ones from the front leaves exactly
  the new ones.
- `Spaced`: times that keep a distance.
- `Spaced.length_le_of_window`: a window of `n` distances holds at most `n` such times.
-/

namespace Timing

universe u

/-! ### Old and new times -/

section Order

variable {K : Type u} [LinearOrder K]

/-- Of times in order, the ones after a bound are left when the ones up to it are dropped. -/
theorem dropWhile_le_eq_filter {ts : List K} (h : ts.Pairwise (· ≤ ·)) (bound : K) :
    (ts.dropWhile fun t => decide (t ≤ bound)) = ts.filter fun t => decide (bound < t) := by
  induction ts with
  | nil => rfl
  | cons t rest ih =>
    rw [List.pairwise_cons] at h
    by_cases ht : t ≤ bound
    · rw [List.dropWhile_cons, if_pos (decide_eq_true ht), ih h.2,
        List.filter_cons_of_neg (by simpa using ht)]
    · -- From the first new time on, all are new.
      have hnew : ∀ s ∈ t :: rest, decide (bound < s) = true := by
        intro s hs
        rcases List.mem_cons.mp hs with rfl | hs
        · exact decide_eq_true (not_le.mp ht)
        · exact decide_eq_true ((not_le.mp ht).trans_le (h.1 s hs))
      rw [List.dropWhile_cons, if_neg (by simpa using ht), List.filter_eq_self.mpr hnew]

/-- Times in order, the newest of which is old, are all old. -/
theorem filter_eq_nil_of_getLast {ts : List K} (h : ts.Pairwise (· ≤ ·)) {bound : K}
    (hlast : ∀ t ∈ ts.getLast?, t ≤ bound) : (ts.filter fun t => decide (bound < t)) = [] := by
  rw [List.filter_eq_nil_iff]
  intro t ht
  have hne : ts ≠ [] := List.ne_nil_of_mem ht
  have hold : ts.getLast hne ≤ bound := hlast _ (List.getLast?_eq_some_getLast hne)
  have hle : t ≤ ts.getLast hne := by
    rw [← List.dropLast_concat_getLast hne] at h ht
    rcases List.mem_append.mp ht with hinit | hself
    · exact (List.pairwise_append.mp h).2.2 t hinit _ (List.mem_singleton_self _)
    · exact (List.mem_singleton.mp hself).le
  simpa using hle.trans hold

/-- A later bound after an earlier one is the later one. -/
theorem filter_filter_of_le (ts : List K) {bound bound' : K} (h : bound ≤ bound') :
    ((ts.filter fun t => decide (bound < t)).filter fun t => decide (bound' < t)) =
      ts.filter fun t => decide (bound' < t) := by
  rw [List.filter_filter]
  refine List.filter_congr fun t _ => ?_
  by_cases ht : bound' < t
  · simp [ht, h.trans_lt ht]
  · simp [ht]

end Order

/-! ### Times that keep a distance -/

section Distance

variable {K : Type u} [Field K] [LinearOrder K] {d : K} {ts : List K}

/-- Any two of the times are at least `d` apart. -/
def Spaced (d : K) (ts : List K) : Prop := ts.Pairwise fun s t => s + d ≤ t

theorem Spaced.sublist {ts' : List K} (h : Spaced d ts) (hsub : ts'.Sublist ts) : Spaced d ts' :=
  List.Pairwise.sublist hsub h

theorem Spaced.snoc (h : Spaced d ts) {t : K} (ht : ∀ s ∈ ts, s + d ≤ t) :
    Spaced d (ts ++ [t]) := by
  refine List.pairwise_append.mpr ⟨h, List.pairwise_singleton _ t, ?_⟩
  intro s hs t' ht'
  rw [List.mem_singleton.mp ht']
  exact ht s hs

variable [IsStrictOrderedRing K]

/-- The last of some spaced times comes so many distances after the first. -/
theorem Spaced.add_length_mul_le {t : K} (h : Spaced d (t :: ts)) :
    t + ts.length * d ≤ (t :: ts).getLast (List.cons_ne_nil t ts) := by
  induction ts generalizing t with
  | nil => simp
  | cons s rest ih =>
    have hnext : t + d ≤ s := (List.pairwise_cons.mp h).1 s List.mem_cons_self
    have hrest : s + rest.length * d ≤ (s :: rest).getLast (List.cons_ne_nil s rest) :=
      ih (List.pairwise_cons.mp h).2
    rw [List.getLast_cons (List.cons_ne_nil s rest), List.length_cons]
    calc t + ((rest.length + 1 : ℕ) : K) * d = t + d + rest.length * d := by push_cast; ring
      _ ≤ s + rest.length * d := by gcongr
      _ ≤ _ := hrest

/-- Spaced times that all lie within less than `n` distances are at most `n`. -/
theorem Spaced.length_le_of_window (h : Spaced d ts) (hd : 0 < d) {n : ℕ}
    (hwithin : ∀ s ∈ ts, ∀ t ∈ ts, t - s < n * d) : ts.length ≤ n := by
  cases ts with
  | nil => exact Nat.zero_le n
  | cons t rest =>
    have hlast := hwithin t List.mem_cons_self _ (List.getLast_mem (List.cons_ne_nil t rest))
    have hlong := h.add_length_mul_le
    have hless : (rest.length : K) * d < n * d := by linarith
    exact Nat.cast_lt.mp (lt_of_mul_lt_mul_right hless hd.le)

end Distance

end Timing
