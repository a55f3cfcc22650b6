import Mathlib.Data.List.SplitBy
import Mathlib.Order.Interval.Set.Basic

/-!
# Maximal runs

A list is split into the longest stretches of neighbours that a relation joins (`List.splitBy`).
A loop that builds the stretches one element at a time computes the same, and where the elements
have ranks that increase along the list, the stretches of consecutive ranks are the maximal runs of
the set of ranks (`mem_splitBy_succ_iff`).
-/

namespace Relational

universe u

variable {α : Type u}

/-! ### Splitting in a loop -/

/-- The stretches with one more element: it joins the last stretch or starts its own. -/
def extend (r : α → α → Bool) (runs : List (List α)) (x : α) : List (List α) :=
  match runs.getLast? with
  | some run => if run.getLast?.any (r · x) then runs.dropLast ++ [run ++ [x]] else runs ++ [[x]]
  | none => [[x]]

/-- A joined element makes the last stretch longer. -/
theorem splitBy_concat_of_joined {r : α → α → Bool} {l run : List α} {runs : List (List α)} {x y : α}
    (hsplit : l.splitBy r = runs ++ [run]) (hlast : run.getLast? = some y) (hr : r y x = true) :
    (l ++ [x]).splitBy r = runs ++ [run ++ [x]] := by
  obtain ⟨hflat, hnil, hchains, hapart⟩ := List.splitBy_eq_iff.mp hsplit
  have hne : run ≠ [] := by rintro rfl; simp at hlast
  rw [List.splitBy_eq_iff]
  refine ⟨by simp [hflat], by simpa using fun h => hnil (by simp [h]), ?_, ?_⟩
  · intro m hm
    rcases List.mem_append.mp hm with hm | hm
    · exact hchains m (by simp [hm])
    · obtain rfl := List.mem_singleton.mp hm
      rw [List.isChain_append]
      refine ⟨hchains run (by simp), by simp, fun a ha b hb => ?_⟩
      obtain rfl : y = a := Option.some.inj (hlast.symm.trans ha)
      obtain rfl : x = b := by simpa using hb
      exact hr
  · rw [List.isChain_append] at hapart ⊢
    refine ⟨hapart.1, by simp, fun a ha b hb => ?_⟩
    obtain rfl : run ++ [x] = b := by simpa using hb
    obtain ⟨ha', hb', h⟩ := hapart.2.2 a ha run (by simp)
    exact ⟨ha', by simp, by rwa [List.head_append_of_ne_nil hb']⟩

/-- The last stretch ends where the list ends. -/
theorem getLast?_of_splitBy {r : α → α → Bool} {l run : List α} {runs : List (List α)}
    (hsplit : l.splitBy r = runs ++ [run]) : run.getLast? = l.getLast? := by
  have hl : l ≠ [] := by rintro rfl; simp at hsplit
  have h := List.getLast_getLast_splitBy r hl
  simp only [hsplit, List.getLast_append_singleton] at h
  rw [List.getLast?_eq_some_getLast hl, ← h, List.getLast?_eq_some_getLast]

/-- Splitting one more element is extending the split. -/
theorem splitBy_concat (r : α → α → Bool) (l : List α) (x : α) :
    (l ++ [x]).splitBy r = extend r (l.splitBy r) x := by
  obtain hnil | ⟨runs, run, hsplit⟩ := List.eq_nil_or_concat (l.splitBy r)
  · obtain rfl : l = [] := List.splitBy_eq_nil.mp hnil
    rfl
  · rw [List.concat_eq_append] at hsplit
    have hl : l ≠ [] := by rintro rfl; simp at hsplit
    have hlast := getLast?_of_splitBy hsplit
    have hlast' := List.getLast?_eq_some_getLast hl
    by_cases hr : r (l.getLast hl) x = true
    · rw [splitBy_concat_of_joined (by simpa using hsplit) (hlast.trans hlast') hr]
      simp [extend, hsplit, hlast, hlast', hr]
    · rw [List.splitBy_append_cons [] (by simpa [hlast'] using hr)]
      have hsingle : [x].splitBy r = [[x]] := rfl
      simp [extend, hsplit, hsingle, hlast, hlast', hr]

/-- The loop that extends its stretches element by element. -/
theorem foldl_extend (r : α → α → Bool) (l : List α) : l.foldl (extend r) [] = l.splitBy r := by
  induction l using List.reverseRecOn with
  | nil => rfl
  | append_singleton l x ih => rw [List.foldl_append, ih, splitBy_concat]; rfl

/-- The loop that keeps the stretch it is in apart from the ones it is done with. -/
def extendOpen (r : α → α → Bool) (s : List (List α) × List α) (x : α) : List (List α) × List α :=
  if s.2.getLast?.any (!r · x) then (s.1 ++ [s.2], [x]) else (s.1, s.2 ++ [x])

/-- The stretches done with and the one the loop is in, unless it is in none. -/
def closed (s : List (List α) × List α) : List (List α) := if s.2 = [] then s.1 else s.1 ++ [s.2]

/-- What the loop is done with before its first element of a stretch is nothing. -/
theorem foldl_extendOpen (r : α → α → Bool) (l : List α) :
    closed (l.foldl (extendOpen r) ([], [])) = l.splitBy r ∧
      (l ≠ [] → (l.foldl (extendOpen r) ([], [])).2 ≠ []) := by
  induction l using List.reverseRecOn with
  | nil => simp [closed]
  | append_singleton l x ih =>
    rw [List.foldl_append, splitBy_concat]
    obtain ⟨ih, hopen⟩ := ih
    rw [← ih]
    rcases hs : l.foldl (extendOpen r) ([], []) with ⟨done, run⟩
    rw [hs] at hopen
    simp only [List.foldl_cons, List.foldl_nil]
    rcases eq_or_ne l [] with rfl | hl
    · obtain ⟨rfl, rfl⟩ : done = [] ∧ run = [] := by simpa [eq_comm] using hs
      simp [extendOpen, closed, extend]
    · have hrun : run ≠ [] := hopen hl
      have hlast := List.getLast?_eq_some_getLast hrun
      by_cases hr : r (run.getLast hrun) x = true
      · simp [extendOpen, closed, extend, hrun, hlast, hr]
      · simp [extendOpen, closed, extend, hrun, hlast, hr]

/-- A filter that keeps the last element ends in it. -/
theorem getLast?_filter_of_last {k : α → Bool} {l : List α} {y : α} (hlast : l.getLast? = some y)
    (hy : k y = true) : (l.filter k).getLast? = some y := by
  obtain ⟨l', rfl⟩ := List.getLast?_eq_some_iff.mp hlast
  simp [hy]

/-- Dropping elements that join nothing leaves the split of the others, unless one of them stands
between two that would join without it. -/
theorem splitBy_filter {r r' : α → α → Bool} {k : α → Bool}
    (hknown : ∀ x y, r x y = true → k x = true ∧ k y = true)
    (hr : ∀ x y, k x = true → k y = true → r x y = r' x y) {l : List α}
    (hapart : ∀ x u y, List.Sublist [x, u, y] l → k x = true → k u = false → k y = true →
      r' x y = false) :
    ((l.splitBy r).map (·.filter k)).filter (· ≠ []) = (l.filter k).splitBy r' := by
  induction l using List.reverseRecOn with
  | nil => rfl
  | append_singleton l x ih =>
    have ih := ih fun y u z hsub => hapart y u z (hsub.trans (List.sublist_append_left l [x]))
    rw [List.filter_append]
    by_cases hjoined : ∃ y, l.getLast? = some y ∧ r y x = true
    · obtain ⟨y, hlast, hyx⟩ := hjoined
      obtain ⟨hy, hx⟩ := hknown y x hyx
      obtain hnil | ⟨runs, run, hsplit⟩ := List.eq_nil_or_concat (l.splitBy r)
      · obtain rfl : l = [] := List.splitBy_eq_nil.mp hnil
        simp at hlast
      rw [List.concat_eq_append] at hsplit
      have hrun := (getLast?_of_splitBy hsplit).trans hlast
      have hrun' : (run.filter k).getLast? = some y := getLast?_filter_of_last hrun hy
      have hne : run.filter k ≠ [] := by rintro h; simp [h] at hrun'
      have ih' : (l.filter k).splitBy r' =
          (runs.map (·.filter k)).filter (· ≠ []) ++ [run.filter k] := by
        rw [← ih, hsplit]
        simp [hne]
      rw [splitBy_concat_of_joined hsplit hrun hyx]
      have hright := splitBy_concat_of_joined ih' hrun' ((hr y x hy hx).symm.trans hyx)
      simp only [List.filter_singleton, hx, cond_true, hright]
      simp [hx]
    · have hleft : ∀ y ∈ l.getLast?, r y x = false := fun y hy =>
        Bool.eq_false_iff.mpr fun h => hjoined ⟨y, hy, h⟩
      rw [List.splitBy_append_cons [] hleft]
      have hsingle : [x].splitBy r = [[x]] := rfl
      by_cases hx : k x = true
      · have hright : ∀ z ∈ (l.filter k).getLast?, r' z x = false := by
          intro z hz
          obtain ⟨hzmem, hzk⟩ := List.mem_filter.mp (List.mem_of_mem_getLast? hz)
          have hl : l ≠ [] := List.ne_nil_of_mem hzmem
          have hlast := List.getLast?_eq_some_getLast hl
          by_cases hy : k (l.getLast hl) = true
          · obtain rfl : l.getLast hl = z :=
              Option.some.inj ((getLast?_filter_of_last hlast hy).symm.trans hz)
            exact (hr _ _ hy hx).symm.trans (hleft _ hlast)
          · have hne : z ≠ l.getLast hl := by rintro rfl; exact hy hzk
            refine hapart z (l.getLast hl) x ?_ hzk (Bool.eq_false_iff.mpr hy) hx
            have hz' : z ∈ l.dropLast := by
              rw [← List.dropLast_append_getLast hl] at hzmem
              simpa [hne] using hzmem
            have hsub : List.Sublist [z, l.getLast hl] l := by
              conv_rhs => rw [← List.dropLast_append_getLast hl]
              exact (List.singleton_sublist.mpr hz').append (List.Sublist.refl _)
            exact hsub.append (List.Sublist.refl [x])
        simp only [List.filter_singleton, hx, cond_true]
        rw [List.splitBy_append_cons [] hright, ← ih]
        have hsingle' : [x].splitBy r' = [[x]] := rfl
        simp [hsingle, hsingle', hx]
      · simp [hsingle, hx, ← ih]

/-! ### Runs of ranks -/

/-- The numbers from `first` to `last` are a maximal run of a set's. -/
structure IsRun (S : Set ℕ) (first last : ℕ) : Prop where
  /-- A run is not empty. -/
  le : first ≤ last
  /-- It has no gap. -/
  mem : ∀ n, first ≤ n → n ≤ last → n ∈ S
  /-- Nothing of the set comes right before it. -/
  before : ∀ n, n + 1 = first → n ∉ S
  /-- Nothing of the set comes right after it. -/
  after : last + 1 ∉ S

namespace IsRun

variable {S : Set ℕ} {first last first' last' n : ℕ}

/-- Two maximal runs with a number in common start alike. -/
theorem first_le (h : IsRun S first last) (h' : IsRun S first' last') (hn : first ≤ n ∧ n ≤ last)
    (hn' : first' ≤ n ∧ n ≤ last') : first ≤ first' := by
  by_contra hlt
  exact h.before (first - 1) (by omega) (h'.mem _ (by omega) (by omega))

/-- Two maximal runs with a number in common end alike. -/
theorem le_last (h : IsRun S first last) (h' : IsRun S first' last') (hn : first ≤ n ∧ n ≤ last)
    (hn' : first' ≤ n ∧ n ≤ last') : last' ≤ last := by
  by_contra hlt
  exact h.after (h'.mem _ (by omega) (by omega))

/-- Two maximal runs with a number in common are the same. -/
theorem eq (h : IsRun S first last) (h' : IsRun S first' last') (hn : first ≤ n ∧ n ≤ last)
    (hn' : first' ≤ n ∧ n ≤ last') : first = first' ∧ last = last' :=
  ⟨le_antisymm (h.first_le h' hn hn') (h'.first_le h hn' hn),
    le_antisymm (h'.le_last h hn' hn) (h.le_last h' hn hn')⟩

end IsRun

section Ranks

variable {f : α → ℕ}

/-- Whether an element follows another. -/
def follows (f : α → ℕ) (a b : α) : Bool := f b == f a + 1

/-- A stretch of consecutive ranks has every rank from its first to its last. -/
theorem ranks_of_follows {m : List α} (hne : m ≠ []) (h : m.IsChain (follows f · · = true)) :
    (∀ n, f (m.head hne) ≤ n → n ≤ f (m.getLast hne) → ∃ a ∈ m, f a = n) ∧
      ∀ a ∈ m, f (m.head hne) ≤ f a ∧ f a ≤ f (m.getLast hne) := by
  induction m with
  | nil => exact absurd rfl hne
  | cons x m ih =>
    rcases m with _ | ⟨y, m⟩
    · exact ⟨fun n h₁ h₂ => ⟨x, by simp, le_antisymm h₁ h₂⟩, by simp⟩
    · obtain ⟨hxy, hchain⟩ := List.isChain_cons_cons.mp h
      have hxy : f y = f x + 1 := by simpa [follows] using hxy
      obtain ⟨hall, hbounds⟩ := ih (by simp) hchain
      rw [List.getLast_cons (by simp)]
      simp only [List.head_cons] at hall hbounds ⊢
      refine ⟨fun n h₁ h₂ => ?_, fun a ha => ?_⟩
      · rcases Nat.eq_or_lt_of_le h₁ with rfl | hlt
        · exact ⟨x, by simp, rfl⟩
        · obtain ⟨a, ha, rfl⟩ := hall n (by omega) h₂
          exact ⟨a, by simp [ha], rfl⟩
      · have hy := hbounds y (by simp)
        rcases List.mem_cons.mp ha with rfl | ha
        · exact ⟨le_rfl, by omega⟩
        · have h := hbounds a ha
          exact ⟨by omega, h.2⟩

/-- Of an increasing list no element ranks above the last. -/
theorem le_getLast {l : List α} (hl : l.Pairwise (f · < f ·)) (hne : l ≠ []) {a : α} (ha : a ∈ l) :
    f a ≤ f (l.getLast hne) := by
  rw [← List.dropLast_append_getLast hne] at hl ha
  rcases List.mem_append.mp ha with ha | ha
  · exact ((List.pairwise_append.mp hl).2.2 a ha _ (by simp)).le
  · rw [List.mem_singleton.mp ha]

/-- Of an increasing list no element ranks below the first. -/
theorem head_le {l : List α} (hl : l.Pairwise (f · < f ·)) (hne : l ≠ []) {a : α} (ha : a ∈ l) :
    f (l.head hne) ≤ f a := by
  obtain ⟨x, l, rfl⟩ := List.exists_cons_of_ne_nil hne
  rcases List.mem_cons.mp ha with rfl | ha
  · exact le_rfl
  · exact ((List.pairwise_cons.mp hl).1 a ha).le

section Apart

variable {l m : List α} {before after : List (List α)}

/-- Where a stretch begins, what comes before it ends more than one below. -/
theorem lt_head_of_mem_before (hl : l.Pairwise (f · < f ·))
    (hsplit : l.splitBy (follows f) = before ++ m :: after) (hne : m ≠ []) {a : α}
    (ha : a ∈ before.flatten) : f a + 1 < f (m.head hne) := by
  have hflat := List.flatten_splitBy (follows f) l
  rw [hsplit, List.flatten_append, List.flatten_cons] at hflat
  rw [← hflat, List.pairwise_append] at hl
  have happart := List.isChain_getLast_head_splitBy (follows f) l
  rw [hsplit, List.isChain_append] at happart
  have hbne : before.flatten ≠ [] := List.ne_nil_of_mem ha
  have hb : before ≠ [] := by rintro rfl; simp at hbne
  obtain ⟨h₁, h₂, hnot⟩ := happart.2.2 (before.getLast hb)
    (by simp [List.getLast?_eq_some_getLast hb]) m (by simp)
  have hnot : f (m.head h₂) ≠ f ((before.getLast hb).getLast h₁) + 1 := by
    simpa [follows] using hnot
  have hlast : f a ≤ f ((before.getLast hb).getLast h₁) := by
    rw [List.getLast_getLast_eq_getLast_flatten hb h₁]
    exact le_getLast hl.1 hbne ha
  have hlt := hl.2.2 ((before.getLast hb).getLast h₁)
    (List.mem_flatten.mpr ⟨_, List.getLast_mem hb, List.getLast_mem h₁⟩) (m.head h₂)
    (List.mem_append_left _ (List.head_mem h₂))
  omega

/-- Where a stretch ends, what comes after it starts more than one above. -/
theorem getLast_lt_of_mem_after (hl : l.Pairwise (f · < f ·))
    (hsplit : l.splitBy (follows f) = before ++ m :: after) (hne : m ≠ []) {a : α}
    (ha : a ∈ after.flatten) : f (m.getLast hne) + 1 < f a := by
  have hflat := List.flatten_splitBy (follows f) l
  rw [hsplit, List.flatten_append, List.flatten_cons] at hflat
  rw [← hflat, List.pairwise_append, List.pairwise_append] at hl
  have happart := List.isChain_getLast_head_splitBy (follows f) l
  rw [hsplit, List.isChain_append] at happart
  rcases after with _ | ⟨m', after⟩
  · simp at ha
  · obtain ⟨⟨h₁, h₂, hnot⟩, -⟩ := List.isChain_cons_cons.mp happart.2.1
    have hnot : f (m'.head h₂) ≠ f (m.getLast h₁) + 1 := by simpa [follows] using hnot
    have hlt := hl.2.1.2.2 (m.getLast h₁) (List.getLast_mem h₁) (m'.head h₂)
      (List.mem_append_left _ (List.head_mem h₂))
    have hane : (m' :: after).flatten ≠ [] := List.ne_nil_of_mem ha
    have hfirst : f (m'.head h₂) ≤ f a := by
      have h := head_le hl.2.1.2.1 hane ha
      rwa [List.head_flatten_eq_head_head hane (by simpa using h₂)] at h
    omega

end Apart

/-- A stretch of an increasing list is what the list has of a maximal run of its ranks. -/
theorem isRun_of_mem_splitBy {l m : List α} (hl : l.Pairwise (f · < f ·))
    (hm : m ∈ l.splitBy (follows f)) :
    ∃ first last, IsRun {n | ∃ a ∈ l, f a = n} first last ∧
      m = l.filter fun a => first ≤ f a ∧ f a ≤ last := by
  obtain ⟨before, after, hsplit⟩ := List.append_of_mem hm
  have hne := List.ne_nil_of_mem_splitBy hm
  obtain ⟨hall, hbounds⟩ := ranks_of_follows hne (List.isChain_of_mem_splitBy hm)
  have hle := (hbounds _ (List.getLast_mem hne)).1
  have hflat : l = before.flatten ++ (m ++ after.flatten) := by
    have h := List.flatten_splitBy (follows f) l
    rw [hsplit] at h
    simpa using h.symm
  have hside : ∀ a ∈ l, f a + 1 < f (m.head hne) ∨ a ∈ m ∨ f (m.getLast hne) + 1 < f a := by
    intro a ha
    rw [hflat] at ha
    rcases List.mem_append.mp ha with ha | ha
    · exact Or.inl (lt_head_of_mem_before hl hsplit hne ha)
    rcases List.mem_append.mp ha with ha | ha
    · exact Or.inr (Or.inl ha)
    · exact Or.inr (Or.inr (getLast_lt_of_mem_after hl hsplit hne ha))
  refine ⟨f (m.head hne), f (m.getLast hne), ⟨hle, ?_, ?_, ?_⟩, ?_⟩
  · intro n h₁ h₂
    obtain ⟨a, ha, rfl⟩ := hall n h₁ h₂
    exact ⟨a, by rw [hflat]; simp [ha], rfl⟩
  · rintro n hn ⟨a, ha, rfl⟩
    rcases hside a ha with h | h | h
    · omega
    · have := hbounds a h
      omega
    · omega
  · rintro ⟨a, ha, hn⟩
    rcases hside a ha with h | h | h
    · omega
    · have := hbounds a h
      omega
    · omega
  · have hbefore : before.flatten.filter
        (fun a => f (m.head hne) ≤ f a ∧ f a ≤ f (m.getLast hne)) = [] := by
      rw [List.filter_eq_nil_iff]
      intro a ha
      have := lt_head_of_mem_before hl hsplit hne ha
      rw [decide_eq_true_eq]
      omega
    have hafter : after.flatten.filter
        (fun a => f (m.head hne) ≤ f a ∧ f a ≤ f (m.getLast hne)) = [] := by
      rw [List.filter_eq_nil_iff]
      intro a ha
      have := getLast_lt_of_mem_after hl hsplit hne ha
      rw [decide_eq_true_eq]
      omega
    have hin : m.filter (fun a => f (m.head hne) ≤ f a ∧ f a ≤ f (m.getLast hne)) = m :=
      List.filter_eq_self.mpr fun a ha => decide_eq_true (hbounds a ha)
    calc m = before.flatten.filter (fun a => f (m.head hne) ≤ f a ∧ f a ≤ f (m.getLast hne)) ++
          (m.filter (fun a => f (m.head hne) ≤ f a ∧ f a ≤ f (m.getLast hne)) ++
            after.flatten.filter fun a => f (m.head hne) ≤ f a ∧ f a ≤ f (m.getLast hne)) := by
          rw [hbefore, hafter, hin]; simp
      _ = l.filter fun a => f (m.head hne) ≤ f a ∧ f a ≤ f (m.getLast hne) := by
          rw [← List.filter_append, ← List.filter_append, ← hflat]

/-- The stretches of consecutive ranks are the maximal runs. -/
theorem mem_splitBy_succ_iff {l m : List α} (hl : l.Pairwise (f · < f ·)) :
    m ∈ l.splitBy (follows f) ↔
      ∃ first last, IsRun {n | ∃ a ∈ l, f a = n} first last ∧
        m = l.filter fun a => first ≤ f a ∧ f a ≤ last := by
  refine ⟨isRun_of_mem_splitBy hl, ?_⟩
  rintro ⟨first, last, hrun, rfl⟩
  obtain ⟨a, ha, rfl⟩ := hrun.mem first le_rfl hrun.le
  -- The stretch that holds the run's first element is the run.
  rw [← List.flatten_splitBy (follows f) l] at ha
  obtain ⟨m, hm, ham⟩ := List.mem_flatten.mp ha
  obtain ⟨first', last', hrun', rfl⟩ := isRun_of_mem_splitBy hl hm
  have hbounds : first' ≤ f a ∧ f a ≤ last' := by simpa using (List.mem_filter.mp ham).2
  obtain ⟨rfl, rfl⟩ := hrun.eq hrun' ⟨le_rfl, hrun.le⟩ hbounds
  exact hm

end Ranks

end Relational
