import Mathlib.Data.List.Nodup
import Mathlib.Data.List.Sort
import Mathlib.Order.WithBot

/-!
# Keyset pages

`SELECT … ORDER BY key LIMIT n` over rows with pairwise distinct keys, and what a page says of the
rows it leaves out.

- `firstBy_perm_of_lt`: a page that is not full has every row.
- `firstBy_perm_filter`: any page has exactly the rows up to its last one.
-/

namespace Relational

universe u v

variable {α : Type u} {κ : Type v} [LinearOrder κ] {key : α → κ} {n : ℕ} {rows : List α}

/-- `ORDER BY key LIMIT n`. -/
def firstBy (key : α → κ) (n : ℕ) (rows : List α) : List α :=
  (rows.insertionSort fun a b => key a ≤ key b).take n

theorem mem_of_mem_firstBy {a : α} (h : a ∈ firstBy key n rows) : a ∈ rows :=
  (List.mem_insertionSort _).mp (List.mem_of_mem_take h)

/-- Rows in the order of their keys, all of which differ. -/
theorem insertionSort_strict (hnodup : (rows.map key).Nodup) :
    (rows.insertionSort fun a b => key a ≤ key b).Pairwise fun a b => key a < key b := by
  have hperm := List.perm_insertionSort (fun a b => key a ≤ key b) rows
  have hsorted : (rows.insertionSort fun a b => key a ≤ key b).Pairwise
      fun a b => key a ≤ key b := by
    have htotal : Std.Total fun a b : α => key a ≤ key b := ⟨fun a b => le_total (key a) (key b)⟩
    have htrans : IsTrans α fun a b => key a ≤ key b := ⟨fun _ _ _ => le_trans⟩
    exact List.pairwise_insertionSort _ rows
  have hdistinct : (rows.insertionSort fun a b => key a ≤ key b).Pairwise
      fun a b => key a ≠ key b :=
    List.pairwise_map.mp ((hperm.map key).nodup_iff.mpr hnodup)
  exact (hsorted.and hdistinct).imp fun h => lt_of_le_of_ne h.1 h.2

theorem firstBy_sorted (hnodup : (rows.map key).Nodup) :
    (firstBy key n rows).Pairwise fun a b => key a < key b :=
  (insertionSort_strict hnodup).sublist (List.take_sublist n _)

/-- A page that is not full has every row. -/
theorem firstBy_perm_of_lt (h : (firstBy key n rows).length < n) :
    (firstBy key n rows).Perm rows := by
  have hall : rows.length ≤ n := by
    rw [firstBy, List.length_take, List.length_insertionSort] at h
    omega
  rw [firstBy, List.take_of_length_le (by rwa [List.length_insertionSort])]
  exact List.perm_insertionSort _ rows

/-- A page has exactly the rows up to its last one. -/
theorem firstBy_perm_filter (hnodup : (rows.map key).Nodup) {last : α}
    (hlast : (firstBy key n rows).getLast? = some last) :
    (firstBy key n rows).Perm (rows.filter fun a => decide (key a ≤ key last)) := by
  have hsorted := insertionSort_strict hnodup
  have hsplit := List.take_append_drop n (rows.insertionSort fun a b => key a ≤ key b)
  rw [← hsplit, List.pairwise_append] at hsorted
  have hmem : last ∈ firstBy key n rows := List.mem_of_getLast? hlast
  have hupto : ∀ a ∈ firstBy key n rows, key a ≤ key last := by
    intro a ha
    have hne : firstBy key n rows ≠ [] := List.ne_nil_of_mem ha
    have hget : (firstBy key n rows).getLast hne = last := by
      rw [List.getLast?_eq_some_getLast hne] at hlast
      exact Option.some.inj hlast
    have hpage := firstBy_sorted (n := n) hnodup
    rw [← List.dropLast_concat_getLast hne, hget] at ha hpage
    rcases List.mem_append.mp ha with hinit | hself
    · exact ((List.pairwise_append.mp hpage).2.2 a hinit last (List.mem_singleton_self last)).le
    · rw [List.mem_singleton.mp hself]
  have hpast : ∀ a ∈ (rows.insertionSort fun a b => key a ≤ key b).drop n, ¬key a ≤ key last :=
    fun a ha => not_le.mpr (hsorted.2.2 last hmem a ha)
  have htake : ((rows.insertionSort fun a b => key a ≤ key b).take n).filter
      (fun a => decide (key a ≤ key last)) = firstBy key n rows :=
    List.filter_eq_self.mpr fun a ha => decide_eq_true (hupto a ha)
  have hdrop : ((rows.insertionSort fun a b => key a ≤ key b).drop n).filter
      (fun a => decide (key a ≤ key last)) = [] :=
    List.filter_eq_nil_iff.mpr fun a ha => by simpa using hpast a ha
  have hwhole : (rows.insertionSort fun a b => key a ≤ key b).filter
      (fun a => decide (key a ≤ key last)) = firstBy key n rows := by
    rw [← hsplit, List.filter_append, htake, hdrop, List.append_nil]
  rw [← hwhole]
  exact (List.perm_insertionSort (fun a b => key a ≤ key b) rows).filter _

end Relational
