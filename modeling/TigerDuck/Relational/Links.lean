import Mathlib.Data.List.Chain
import Mathlib.Data.List.Nodup
import Mathlib.Data.Finset.Card
import Mathlib.Logic.Relation

/-!
# Following a link column

A column that names another row of its table is a partial successor function. `follow`
collects what the links lead to from a row, as a recursive query does that drops the rows it
has, and `mem_follow` says that these are exactly the rows the links lead to. Links that run
through a list and from its last row back to its first make it a ring (`IsRing`), which is
what they lead to from any of its rows.
-/

namespace Relational

universe u

variable {α : Type u} {f f' : α → Option α} {a b : α} {l seen ks : List α}

/-- The links lead from one row to another in some number of steps. -/
abbrev Leads (f : α → Option α) : α → α → Prop := Relation.ReflTransGen fun a b => f a = some b

/-- The rows the links lead to from `a`, each once, after those already seen. -/
def follow [DecidableEq α] (f : α → Option α) : Nat → α → List α → List α
  | 0, _, seen => seen
  | n + 1, a, seen =>
    if a ∈ seen then seen
    else
      match f a with
      | none => seen ++ [a]
      | some b => follow f n b (seen ++ [a])

section Follow

variable [DecidableEq α]

theorem follow_nodup (n : Nat) (h : seen.Nodup) : (follow f n a seen).Nodup := by
  induction n generalizing a seen with
  | zero => exact h
  | succ n ih =>
    unfold follow
    split
    · exact h
    next hnew =>
      have hsnoc : (seen ++ [a]).Nodup := List.nodup_append.mpr
        ⟨h, List.nodup_singleton a, fun x hx y hy hxy => hnew (by simp_all)⟩
      split
      · exact hsnoc
      · exact ih hsnoc

omit [DecidableEq α] in
/-- Rows the links do not leave hold all they lead to. -/
theorem leads_of_closed (hclosed : ∀ x ∈ seen, ∀ y, f x = some y → y ∈ seen) (ha : a ∈ seen)
    (h : Leads f a b) : b ∈ seen := by
  induction h with
  | refl => exact ha
  | tail _ hstep ih => exact hclosed _ ih _ hstep

omit [DecidableEq α] in
/-- Once `a` has been seen, so has all it leads to. -/
theorem mem_seen_iff (hclosed : ∀ x ∈ seen, ∀ y, f x = some y → y ∈ seen ∨ y = a) (ha : a ∈ seen) :
    b ∈ seen ↔ b ∈ seen ∨ Leads f a b := by
  refine ⟨Or.inl, fun h => h.elim id (leads_of_closed (fun x hx y hxy => ?_) ha)⟩
  rcases hclosed x hx y hxy with hy | rfl
  · exact hy
  · exact ha

/-- **Following the links** collects what they lead to, given a step for every row there is. -/
theorem mem_follow (n : Nat) (hks : ∀ x ∈ ks, ∀ y, f x = some y → y ∈ ks) (ha : a ∈ ks)
    (hseen : seen.Nodup) (hsub : seen ⊆ ks) (hfuel : ks.length ≤ seen.length + n)
    (hclosed : ∀ x ∈ seen, ∀ y, f x = some y → y ∈ seen ∨ y = a) :
    b ∈ follow f n a seen ↔ b ∈ seen ∨ Leads f a b := by
  induction n generalizing a seen with
  | zero =>
    -- Every row has been seen.
    have hall : ks ⊆ seen := (List.subperm_of_subset hseen hsub).perm_of_length_le
      (by simpa using hfuel) |>.symm.subset
    exact mem_seen_iff hclosed (hall ha)
  | succ n ih =>
    unfold follow
    split
    next hmem => exact mem_seen_iff hclosed hmem
    next hnew =>
      have hsnoc : (seen ++ [a]).Nodup := List.nodup_append.mpr
        ⟨hseen, List.nodup_singleton a, fun x hx y hy hxy => hnew (by simp_all)⟩
      have hsub' : seen ++ [a] ⊆ ks :=
        List.append_subset.mpr ⟨hsub, (by simpa using ha)⟩
      split
      next hlast =>
        have hself : Leads f a b ↔ b = a := by
          refine ⟨fun h => ?_, fun h => h ▸ Relation.ReflTransGen.refl⟩
          rcases Relation.ReflTransGen.cases_head h with heq | ⟨c, hc, _⟩
          · exact heq.symm
          · rw [hlast] at hc
            cases hc
        rw [hself, List.mem_append, List.mem_singleton]
      next c hc =>
        have hclosed' : ∀ x ∈ seen ++ [a], ∀ y, f x = some y → y ∈ seen ++ [a] ∨ y = c := by
          intro x hx y hxy
          rcases List.mem_append.mp hx with hx | hx
          · rcases hclosed x hx y hxy with hy | rfl
            · exact Or.inl (List.mem_append_left _ hy)
            · exact Or.inl (by simp)
          · obtain rfl := List.mem_singleton.mp hx
            exact Or.inr (Option.some.inj (hxy.symm.trans hc))
        have hnext : Leads f a b ↔ b = a ∨ Leads f c b := by
          rw [Leads, Relation.ReflTransGen.cases_head_iff]
          refine or_congr eq_comm ⟨fun ⟨d, hd, h⟩ => ?_, fun h => ⟨c, hc, h⟩⟩
          exact Option.some.inj (hc.symm.trans hd) ▸ h
        rw [ih (hks a ha c hc) hsnoc hsub' (by simp; omega) hclosed', hnext, List.mem_append,
          List.mem_singleton, or_assoc]

end Follow

/-! ### Rings -/

/-- The links run through the list and from its last row back to its first. -/
structure IsRing (f : α → Option α) (l : List α) : Prop where
  chain : l.IsChain fun a b => f a = some b
  closes : ∀ a ∈ l.getLast?, ∀ b ∈ l.head?, f a = some b

/-- A chain leads from its first row to all of its rows. -/
theorem leads_of_chain (h : (a :: l).IsChain fun a b => f a = some b) (hb : b ∈ a :: l) :
    Leads f a b := by
  induction l generalizing a with
  | nil =>
    obtain rfl := List.mem_singleton.mp hb
    exact Relation.ReflTransGen.refl
  | cons c l ih =>
    obtain ⟨hstep, hrest⟩ := List.isChain_cons_cons.mp h
    rcases List.mem_cons.mp hb with rfl | hb
    · exact Relation.ReflTransGen.refl
    · exact Relation.ReflTransGen.head hstep (ih hrest hb)

/-- A chain stays within its list but for what its last row points at. -/
theorem next_mem_of_chain (h : l.IsChain fun a b => f a = some b) (ha : a ∈ l)
    (hlast : l.getLast? ≠ some a) (hnext : f a = some b) : b ∈ l := by
  obtain ⟨pre, post, rfl⟩ := List.append_of_mem ha
  cases post with
  | nil => simp at hlast
  | cons c post =>
    have hstep := (List.isChain_cons_cons.mp (List.isChain_append.mp h).2.1).1
    obtain rfl := Option.some.inj (hnext.symm.trans hstep)
    simp

namespace IsRing

/-- The links of a ring stay within it. -/
theorem next_mem (h : IsRing f l) (ha : a ∈ l) (hnext : f a = some b) : b ∈ l := by
  by_cases hlast : l.getLast? = some a
  · cases l with
    | nil => cases ha
    | cons c l =>
      obtain rfl := Option.some.inj (hnext.symm.trans (h.closes a hlast c rfl))
      exact List.mem_cons_self
  · exact next_mem_of_chain h.chain ha hlast hnext

/-- **A ring** is what its links lead to from any of its rows. -/
theorem leads_iff (h : IsRing f l) (ha : a ∈ l) : Leads f a b ↔ b ∈ l := by
  refine ⟨fun hab => leads_of_closed (fun x hx y hxy => h.next_mem hx hxy) ha hab, fun hb => ?_⟩
  obtain ⟨pre, post, rfl⟩ := List.append_of_mem ha
  obtain ⟨c, hc⟩ : ∃ c, (pre ++ a :: post).getLast? = some c :=
    Option.isSome_iff_exists.mp (by simp)
  have hac : Leads f a c := by
    refine leads_of_chain (List.isChain_append.mp h.chain).2.1 ?_
    rw [List.getLast?_append_of_ne_nil _ (List.cons_ne_nil a post)] at hc
    exact List.mem_of_getLast? hc
  -- On from the last row over the first.
  cases hl : pre ++ a :: post with
  | nil => simp at hl
  | cons d rest =>
    have hcd : f c = some d := h.closes c hc d (by rw [hl]; rfl)
    have hdb : Leads f d b := leads_of_chain (hl ▸ h.chain) (hl ▸ hb)
    exact (hac.tail hcd).trans hdb

/-- A ring of at least one row leaves none of them without a link. -/
theorem next_ne_none (h : IsRing f l) (ha : a ∈ l) : f a ≠ none := by
  obtain ⟨pre, post, rfl⟩ := List.append_of_mem ha
  cases post with
  | nil =>
    cases hl : pre ++ [a] with
    | nil => simp at hl
    | cons d rest =>
      rw [h.closes a (by simp) d (by rw [hl]; rfl)]
      exact Option.some_ne_none d
  | cons c post =>
    have hstep := (List.isChain_cons_cons.mp (List.isChain_append.mp h.chain).2.1).1
    rw [hstep]
    exact Option.some_ne_none c

/-- Links that agree on its rows make the same ring. -/
theorem congr (h : IsRing f l) (heq : ∀ a ∈ l, f' a = f a) : IsRing f' l where
  chain := by
    refine (List.IsChain.iff_mem.mp h.chain).imp fun a b hab => ?_
    rw [heq a hab.1]
    exact hab.2.2
  closes := fun a ha b hb => by
    rw [heq a (List.mem_of_getLast? ha)]
    exact h.closes a ha b hb

end IsRing

/-- A chain whose last row is linked to a new row, and the new row to the first one kept,
closes to a ring of what is kept. -/
theorem isRing_concat_drop {c d : α} {k : Nat} (hchain : l.IsChain fun a b => f a = some b)
    (hlast : l.getLast? = some c) (hnodup : l.Nodup) (hk : k < l.length)
    (hnew : f' c = some d) (hkeep : ∀ a ∈ l.drop k, a ≠ c → f' a = f a)
    (hcloses : ∀ b ∈ (l.drop k).head?, f' d = some b) : IsRing f' (l.drop k ++ [d]) := by
  have hdrop : l.drop k ≠ [] := by simpa using hk
  have hlast' : (l.drop k).getLast? = some c := by
    rw [List.getLast?_drop, if_neg (by omega), hlast]
  refine ⟨List.isChain_append.mpr ⟨?_, List.isChain_singleton d, ?_⟩, ?_⟩
  · -- Inside what is kept, only the last row's link has changed.
    obtain ⟨init, hinit⟩ : ∃ init, l.drop k = init ++ [c] :=
      ⟨(l.drop k).dropLast, by
        rw [List.getLast?_eq_some_getLast hdrop, Option.some.injEq] at hlast'
        rw [← hlast', List.dropLast_append_getLast]⟩
    have hsub : (l.drop k).Sublist l := List.drop_sublist k l
    have hnot : c ∉ init := by
      have hnd := hnodup.sublist hsub
      rw [hinit, List.nodup_append] at hnd
      exact fun hmem => hnd.2.2 c hmem c (by simp) rfl
    have hold := hchain.drop k
    rw [hinit] at hold ⊢
    obtain ⟨hchain₁, _, hlink⟩ := List.isChain_append.mp hold
    have heq : ∀ a ∈ init, f' a = f a := fun a ha =>
      hkeep a (by rw [hinit]; simp [ha]) fun hac => hnot (hac ▸ ha)
    refine List.isChain_append.mpr ⟨?_, List.isChain_singleton c, fun a ha b hb => ?_⟩
    · refine (List.IsChain.iff_mem.mp hchain₁).imp fun a b hab => ?_
      rw [heq a hab.1]
      exact hab.2.2
    · rw [heq a (List.mem_of_getLast? ha)]
      exact hlink a ha b hb
  · intro a ha b hb
    obtain rfl : a = c := Option.some.inj (ha.symm.trans hlast')
    obtain rfl : b = d := by simpa using hb.symm
    exact hnew
  · intro a ha b hb
    obtain rfl : a = d := by simpa using ha.symm
    rw [List.head?_append_of_ne_nil _ hdrop] at hb
    exact hcloses b hb

end Relational
