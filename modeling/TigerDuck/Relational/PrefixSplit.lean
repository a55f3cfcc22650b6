import Mathlib.Data.List.Basic
import Mathlib.Data.List.Count
import Mathlib.Data.List.Perm.Basic

/-!
# Queries by prefix

Rows asked for by the words they start with. A prefix with too many rows is split: asked for one
letter longer, once for each letter.

- `splitPrefix_apart`: no word starts with two of the prefixes a split leads to.
- `exists_splitPrefix`: a word longer than all that is split starts with one of them.
- `perm_flatMap_filter`: the answers to prefixes that are apart are the rows with any of them.
-/

namespace Relational

universe u v

variable {α : Type u} {β : Type v}

/-! ### Splitting -/

section Split

variable [DecidableEq α]

/-- Fewer of the prefixes to split start with a longer one. -/
theorem countP_longer_lt {split : List (List α)} {p : List α} (hp : p ∈ split) (c : α) :
    split.countP (p ++ [c]).isPrefixOf < split.countP p.isPrefixOf := by
  have hle : ∀ q ∈ split, (p ++ [c]).isPrefixOf q = true → p.isPrefixOf q = true := by
    intro q _ hq
    rw [List.isPrefixOf_iff_prefix] at hq ⊢
    exact (List.prefix_append p [c]).trans hq
  -- `p` itself is the one that drops out.
  obtain ⟨before, after, rfl⟩ := List.append_of_mem hp
  have hbefore : before.countP (p ++ [c]).isPrefixOf ≤ before.countP p.isPrefixOf :=
    List.countP_mono_left fun q hq => hle q (List.mem_append_left _ hq)
  have hafter : after.countP (p ++ [c]).isPrefixOf ≤ after.countP p.isPrefixOf :=
    List.countP_mono_left fun q hq => hle q (List.mem_append_right _ (List.mem_cons_of_mem p hq))
  have hlonger : ¬(p ++ [c]).isPrefixOf p = true := by
    rw [List.isPrefixOf_iff_prefix]
    intro h
    have hlen := h.length_le
    rw [List.length_append, List.length_singleton] at hlen
    omega
  have hself : p.isPrefixOf p = true := List.isPrefixOf_iff_prefix.mpr (List.prefix_refl p)
  rw [List.countP_append, List.countP_append, List.countP_cons_of_neg hlonger,
    List.countP_cons_of_pos hself]
  omega

variable (letters : List α) (split : List (List α))

/-- The prefixes to ask for in place of one. -/
def splitPrefix (p : List α) : List (List α) :=
  if _h : p ∈ split then letters.flatMap fun c => splitPrefix (p ++ [c]) else [p]
termination_by split.countP p.isPrefixOf
decreasing_by exact countP_longer_lt _h c

/-- No word starts with both. -/
def Apart (p q : List α) : Prop := ∀ word, p <+: word → ¬q <+: word

variable {letters split} {p q word : List α}

theorem mem_splitPrefix (hq : q ∈ splitPrefix letters split p) : p <+: q := by
  induction p using splitPrefix.induct split with
  | case1 p hp ih =>
    rw [splitPrefix, dif_pos hp, List.mem_flatMap] at hq
    obtain ⟨c, _, hq⟩ := hq
    exact (List.prefix_append p [c]).trans (ih c hq)
  | case2 p hp =>
    rw [splitPrefix, dif_neg hp, List.mem_singleton] at hq
    exact hq ▸ List.prefix_refl p

omit [DecidableEq α] in
/-- Prefixes one letter longer that both begin a word have the same letter. -/
theorem eq_of_longer {c d : α} (hc : p ++ [c] <+: word) (hd : p ++ [d] <+: word) : c = d := by
  have hlen : (p ++ [c]).length = (p ++ [d]).length := by simp
  have heq := (List.prefix_of_prefix_length_le hc hd (Nat.le_of_eq hlen)).eq_of_length hlen
  simpa using heq

/-- Prefixes split from different letters are apart. -/
theorem flatMap_splitPrefix_apart (hletters : letters.Nodup)
    (hin : ∀ c ∈ letters, (splitPrefix letters split (p ++ [c])).Pairwise Apart) :
    (letters.flatMap fun c => splitPrefix letters split (p ++ [c])).Pairwise Apart := by
  rw [List.pairwise_flatMap]
  refine ⟨hin, hletters.imp fun {c d} hne q hq r hr word hqw hrw => hne ?_⟩
  exact eq_of_longer ((mem_splitPrefix hq).trans hqw) ((mem_splitPrefix hr).trans hrw)

/-- No word starts with two of the prefixes a split leads to. -/
theorem splitPrefix_apart (hletters : letters.Nodup) (p : List α) :
    (splitPrefix letters split p).Pairwise Apart := by
  induction p using splitPrefix.induct split with
  | case1 p hp ih =>
    rw [splitPrefix, dif_pos hp]
    exact flatMap_splitPrefix_apart hletters fun c _ => ih c
  | case2 p hp =>
    rw [splitPrefix, dif_neg hp]
    exact List.pairwise_singleton Apart p

omit [DecidableEq α] in
/-- A word longer than its prefix goes on with one of its letters. -/
theorem exists_longer (hp : p <+: word) (hlt : p.length < word.length) :
    ∃ c ∈ word, p ++ [c] <+: word := by
  obtain ⟨rest, rfl⟩ := hp
  cases rest with
  | nil => simp at hlt
  | cons c rest =>
    refine ⟨c, by simp, rest, ?_⟩
    rw [List.append_assoc, List.singleton_append]

/-- A word longer than all that is split starts with one of the prefixes a split leads to. -/
theorem exists_splitPrefix (hword : ∀ c ∈ word, c ∈ letters)
    (hlong : ∀ q ∈ split, q.length < word.length) (hp : p <+: word) :
    ∃ q ∈ splitPrefix letters split p, q <+: word := by
  induction p using splitPrefix.induct split with
  | case1 p hsplit ih =>
    obtain ⟨c, hc, hlonger⟩ := exists_longer hp (hlong p hsplit)
    obtain ⟨q, hq, hqw⟩ := ih c hlonger
    rw [splitPrefix, dif_pos hsplit]
    exact ⟨q, List.mem_flatMap.mpr ⟨c, hword c hc, hq⟩, hqw⟩
  | case2 p hsplit =>
    rw [splitPrefix, dif_neg hsplit]
    exact ⟨p, List.mem_singleton_self p, hp⟩

end Split

/-! ### Answers -/

/-- Rows that satisfy one of two conditions no row satisfies both of. -/
theorem perm_filter_or {f g : β → Bool} {rows : List β}
    (h : ∀ b ∈ rows, f b = true → ¬g b = true) :
    (rows.filter f ++ rows.filter g).Perm (rows.filter fun b => f b || g b) := by
  induction rows with
  | nil => exact List.Perm.refl _
  | cons b rows ih =>
    have ih := ih fun b hb => h b (List.mem_cons_of_mem _ hb)
    by_cases hf : f b = true
    · have hg := h b List.mem_cons_self hf
      rw [List.filter_cons_of_pos hf, List.filter_cons_of_neg hg,
        List.filter_cons_of_pos (by rw [hf, Bool.true_or]), List.cons_append]
      exact ih.cons b
    · by_cases hg : g b = true
      · rw [List.filter_cons_of_neg hf, List.filter_cons_of_pos hg,
          List.filter_cons_of_pos (by rw [hg, Bool.or_true])]
        exact List.perm_middle.trans (ih.cons b)
      · rwa [List.filter_cons_of_neg hf, List.filter_cons_of_neg hg,
          List.filter_cons_of_neg (by simp [hf, hg])]

/-- The answers to prefixes that are apart are the rows that start with any of them, each once. -/
theorem perm_flatMap_filter [DecidableEq α] {word : β → List α} {prefixes : List (List α)}
    (hapart : prefixes.Pairwise Apart) (rows : List β) :
    (prefixes.flatMap fun p => rows.filter fun b => p.isPrefixOf (word b)).Perm
      (rows.filter fun b => prefixes.any fun p => p.isPrefixOf (word b)) := by
  induction hapart with
  | nil => simp
  | @cons p prefixes hp _ ih =>
    simp only [List.flatMap_cons, List.any_cons]
    refine (ih.append_left _).trans (perm_filter_or fun b _ hpb hany => ?_)
    obtain ⟨q, hq, hqb⟩ := List.any_eq_true.mp hany
    rw [List.isPrefixOf_iff_prefix] at hpb hqb
    exact hp q hq (word b) hpb hqb

end Relational
