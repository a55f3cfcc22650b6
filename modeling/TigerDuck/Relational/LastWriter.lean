import Mathlib.Data.List.Induction
import Mathlib.Order.WithBot

/-!
# Last-writer-wins registers

A register holds at most one stamped value. A write replaces a value stamped before it;
at equal stamps it replaces only when its value `ties`, so that a register can order two
kinds of write made at one instant.

- `rank_record`: a register's stamp only moves forward, and never falls behind a write it
  was offered.
- `foldl_record_of_greatest`: whatever the order and the repetitions, a list of writes
  leaves the one with the greatest stamp, provided no other write carries that stamp.
- `Latest`: the last of the greatest writes of a list, which a register that takes ties holds.
-/

namespace LastWriter

universe u v

variable {τ : Type u} {ω : Type v}

/-- At most one stamped value. -/
abbrev Register (τ : Type u) (ω : Type v) := Option (τ × ω)

namespace Register

/-- The stamp a register holds, below every stamp when it is empty. -/
def rank (r : Register τ ω) : WithBot τ := r.map Prod.fst

@[simp]
theorem rank_none : rank (none : Register τ ω) = ⊥ := rfl

@[simp]
theorem rank_some (w : τ × ω) : rank (some w : Register τ ω) = w.1 := rfl

variable [LinearOrder τ]

/-- Whether the write `w` replaces what the register holds. -/
def Yields (ties : ω → Bool) (r : Register τ ω) (w : τ × ω) : Prop :=
  r.rank < w.1 ∨ (ties w.2 = true ∧ r.rank ≤ w.1)

instance (ties : ω → Bool) (r : Register τ ω) (w : τ × ω) : Decidable (r.Yields ties w) :=
  inferInstanceAs (Decidable (_ ∨ _))

/-- Offer the write `w` to the register. -/
def record (ties : ω → Bool) (r : Register τ ω) (w : τ × ω) : Register τ ω :=
  if r.Yields ties w then some w else r

/-- A write that does not win is not later than what the register holds. -/
theorem le_rank_of_not_yields {ties : ω → Bool} {r : Register τ ω} {w : τ × ω}
    (h : ¬r.Yields ties w) : (w.1 : WithBot τ) ≤ r.rank := by
  simp only [Yields, not_or, not_lt] at h
  exact h.1

/-- The stamp after a write is the later of the stored one and the write's. -/
theorem rank_record (ties : ω → Bool) (r : Register τ ω) (w : τ × ω) :
    (r.record ties w).rank = max r.rank w.1 := by
  unfold record
  split
  next h =>
    have hle : r.rank ≤ w.1 := by
      rcases h with hlt | ⟨_, hle⟩
      · exact hlt.le
      · exact hle
    rw [rank_some, max_eq_right hle]
  next h => rw [max_eq_left (le_rank_of_not_yields h)]

/-- Writing the same value again at the same stamp changes nothing. -/
theorem record_of_eq (ties : ω → Bool) (w : τ × ω) :
    record ties (some w) w = some w := by
  unfold record
  split <;> rfl

/-- A register below the stamp of `w` takes `w`. -/
theorem record_of_rank_lt {ties : ω → Bool} {r : Register τ ω} {w : τ × ω}
    (h : r.rank < w.1) : r.record ties w = some w :=
  if_pos (Or.inl h)

/-- A register above the stamp of `w` keeps what it holds. -/
theorem record_of_lt_rank {ties : ω → Bool} {r : Register τ ω} {w : τ × ω}
    (h : (w.1 : WithBot τ) < r.rank) : r.record ties w = r := by
  apply if_neg
  rintro (hlt | ⟨_, hle⟩)
  · exact absurd hlt h.not_gt
  · exact absurd hle h.not_ge

/-- In any order and with any repetitions, a list of writes leaves its greatest one. -/
theorem foldl_record_of_greatest (ties : ω → Bool) {ws : List (τ × ω)} {w : τ × ω}
    (hmem : w ∈ ws) (hmax : ∀ w' ∈ ws, w'.1 ≤ w.1)
    (huniq : ∀ w' ∈ ws, w'.1 = w.1 → w' = w) :
    ws.foldl (record ties) none = some w := by
  -- Below the greatest stamp until `w` arrives, and `w` ever after.
  have hlisted : ∀ (l : List (τ × ω)), (∀ w' ∈ l, w' ∈ ws) →
      (w ∈ l → l.foldl (record ties) none = some w) ∧
        (w ∉ l → (l.foldl (record ties) none).rank < w.1) := by
    intro l
    induction l using List.reverseRecOn with
    | nil => intro _; exact ⟨fun h => absurd h List.not_mem_nil, fun _ => WithBot.bot_lt_coe w.1⟩
    | append_singleton l x ih =>
      intro hsub
      obtain ⟨hin, hout⟩ := ih fun w' hw' => hsub w' (by simp [hw'])
      have hx : x ∈ ws := hsub x (by simp)
      rw [List.foldl_append, List.foldl_cons, List.foldl_nil]
      by_cases hxw : x = w
      · refine ⟨fun _ => ?_, fun h => absurd (by simp [hxw]) h⟩
        by_cases hwl : w ∈ l
        · rw [hin hwl, hxw, record_of_eq]
        · rw [hxw, record_of_rank_lt (hout hwl)]
      · have hlt : x.1 < w.1 := lt_of_le_of_ne (hmax x hx) fun h => hxw (huniq x hx h)
        have hlt' : (x.1 : WithBot τ) < w.1 := WithBot.coe_lt_coe.mpr hlt
        constructor
        · intro h
          have hwl : w ∈ l := by simpa [Ne.symm hxw] using h
          rw [hin hwl, record_of_lt_rank hlt']
        · intro h
          have hwl : w ∉ l := fun hwl => h (by simp [hwl])
          rw [rank_record]
          exact max_lt (hout hwl) hlt'
  exact (hlisted ws fun _ h => h).1 hmem

end Register

/-- The write `w` is the last of the greatest ones of a list. -/
def Latest [LinearOrder τ] (ws : List (τ × ω)) (w : τ × ω) : Prop :=
  ∃ before after, ws = before ++ w :: after ∧ (∀ w' ∈ before, w'.1 ≤ w.1) ∧ ∀ w' ∈ after, w'.1 < w.1

namespace Latest

variable [LinearOrder τ] {ws : List (τ × ω)} {w w' : τ × ω}

theorem mem (h : Latest ws w) : w ∈ ws := by
  obtain ⟨before, after, rfl, _, _⟩ := h
  exact List.mem_append_right _ List.mem_cons_self

/-- No write is greater than the latest. -/
theorem le (h : Latest ws w) (hmem : w' ∈ ws) : w'.1 ≤ w.1 := by
  obtain ⟨before, after, rfl, hbefore, hafter⟩ := h
  rcases List.mem_append.mp hmem with hmem | hmem
  · exact hbefore w' hmem
  · rcases List.mem_cons.mp hmem with rfl | hmem
    · exact le_rfl
    · exact (hafter w' hmem).le

theorem single (w : τ × ω) : Latest [w] w :=
  ⟨[], [], rfl, fun _ hmem => absurd hmem List.not_mem_nil, fun _ hmem => absurd hmem List.not_mem_nil⟩

/-- A write that is not smaller is the latest from then on. -/
theorem snoc_of_le (h : Latest ws w) (hle : w.1 ≤ w'.1) : Latest (ws ++ [w']) w' :=
  ⟨ws, [], rfl, fun _ hmem => (h.le hmem).trans hle, fun _ hmem => absurd hmem List.not_mem_nil⟩

/-- A smaller write changes nothing. -/
theorem snoc_of_lt (h : Latest ws w) (hlt : w'.1 < w.1) : Latest (ws ++ [w']) w := by
  obtain ⟨before, after, rfl, hbefore, hafter⟩ := h
  refine ⟨before, after ++ [w'], by rw [List.append_assoc, List.cons_append], hbefore, fun v hmem => ?_⟩
  rcases List.mem_append.mp hmem with hmem | hmem
  · exact hafter v hmem
  · rwa [List.mem_singleton.mp hmem]

end Latest

end LastWriter
