import Mathlib.Algebra.Order.Group.Defs
import Mathlib.Algebra.Order.Group.Int
import Mathlib.Data.List.Induction
import Mathlib.Logic.Function.Basic
import TigerDuck.Timing.Windows

/-!
# The sliding-window limiter

`SlidingWindowLimiter` of `server/auth/rate_limit.py`: the counters behind the login, refresh and
device endpoints. It keeps a queue of attempts for each key, which it prunes only when the key is
asked about, and drops whole queues in a sweep once a window. Every call reads the clock, or
happens at some reading of it.

- `LimiterInv`: what the queues say of the attempts there have been.
- `limiter_exact`: the answers are those of the full history.
-/

namespace TigerDuck.Auth

open Timing

universe u

/-- A limiter, with the attempts it keeps. -/
structure SlidingWindowLimiter (K : Type u) where
  maxAttempts : ℤ
  window : K
  attempts : String → Option (List K)
  nextSweep : K

/-- A call on a limiter. -/
inductive LimiterCall
  /-- `allow`. -/
  | check (key : String)
  | record (key : String)
  | reset (key : String)
  /-- `_prune`. -/
  | prune (key : String)
  deriving DecidableEq, Repr

namespace SlidingWindowLimiter

variable {K : Type u} [AddCommGroup K] [LinearOrder K]

/-- A new limiter. -/
def init (maxAttempts : ℤ) (window : K) : SlidingWindowLimiter K :=
  ⟨maxAttempts, window, fun _ => none, 0⟩

/-- The attempts kept for a key. -/
def bucket (l : SlidingWindowLimiter K) (key : String) : List K := (l.attempts key).getD []

/-- `_prune`: the key's queue without the attempts that have left the window; an empty queue is
not kept. -/
def prune (l : SlidingWindowLimiter K) (now : K) (key : String) :
    SlidingWindowLimiter K × List K :=
  let cutoff := now - l.window
  let bucket := (l.bucket key).dropWhile fun t => decide (t ≤ cutoff)
  ({ l with
      attempts := Function.update l.attempts key (if bucket = [] then none else some bucket) },
    bucket)

def allow (l : SlidingWindowLimiter K) (now : K) (key : String) : SlidingWindowLimiter K × Bool :=
  let (l, bucket) := l.prune now key
  (l, decide ((bucket.length : ℤ) < l.maxAttempts))

/-- `_sweep`: once a window, every key whose last attempt has left it is dropped. -/
def sweep (l : SlidingWindowLimiter K) (now : K) : SlidingWindowLimiter K :=
  if now < l.nextSweep then l
  else
    let cutoff := now - l.window
    { l with
      nextSweep := now + l.window
      attempts := fun key => (l.attempts key).filter fun b =>
        b.getLast?.any fun t => decide (cutoff < t) }

def record (l : SlidingWindowLimiter K) (now : K) (key : String) : SlidingWindowLimiter K :=
  let l := l.sweep now
  { l with attempts := Function.update l.attempts key (some (l.bucket key ++ [now])) }

def reset (l : SlidingWindowLimiter K) (key : String) : SlidingWindowLimiter K :=
  { l with attempts := Function.update l.attempts key none }

/-- The limiter after a call at a reading of the clock. -/
def call (l : SlidingWindowLimiter K) : LimiterCall × K → SlidingWindowLimiter K
  | (.check key, now) => (l.allow now key).1
  | (.record key, now) => l.record now key
  | (.reset key, _) => l.reset key
  | (.prune key, now) => (l.prune now key).1

/-- A new limiter after some calls. -/
def run (maxAttempts : ℤ) (window : K) (calls : List (LimiterCall × K)) :
    SlidingWindowLimiter K :=
  calls.foldl call (init maxAttempts window)

end SlidingWindowLimiter

/-! ### The reference -/

section Reference

variable {K : Type u}

/-- A call's part in the history of a key. -/
def recordsAfter (key : String) (ts : List K) : LimiterCall × K → List K
  | (.record k, now) => if k = key then ts ++ [now] else ts
  | (.reset k, _) => if k = key then [] else ts
  | _ => ts

/-- The key's records since its last reset. -/
def recordsOf (key : String) (calls : List (LimiterCall × K)) : List K :=
  calls.foldl (recordsAfter key) []

/-- Whether the call is one of the key's records and resets. -/
def LimiterCall.touches (key : String) : LimiterCall → Bool
  | .record k => k = key
  | .reset k => k = key
  | _ => false

theorem recordsOf_snoc (key : String) (calls : List (LimiterCall × K)) (c : LimiterCall × K) :
    recordsOf key (calls ++ [c]) = recordsAfter key (recordsOf key calls) c := by
  rw [recordsOf, List.foldl_append]
  rfl

/-- Other calls have no part in a key's history. -/
theorem recordsAfter_of_not_touches {key : String} {c : LimiterCall × K}
    (h : ¬c.1.touches key = true) (ts : List K) : recordsAfter key ts c = ts := by
  obtain ⟨call, now⟩ := c
  cases call with
  | check k => rfl
  | prune k => rfl
  | record k => exact if_neg fun hk => h (decide_eq_true hk)
  | reset k => exact if_neg fun hk => h (decide_eq_true hk)

theorem recordsOf_filter (key : String) (calls : List (LimiterCall × K)) :
    recordsOf key (calls.filter fun c => c.1.touches key) = recordsOf key calls := by
  induction calls using List.reverseRecOn with
  | nil => rfl
  | append_singleton calls c ih =>
    rw [List.filter_append, recordsOf_snoc, List.filter_cons, List.filter_nil]
    by_cases hc : c.1.touches key = true
    · rw [if_pos hc, recordsOf_snoc, ih]
    · rw [if_neg hc, List.append_nil, ih, recordsAfter_of_not_touches hc]

/-- A key's records are readings of the clock. -/
theorem mem_times_of_mem_recordsOf {key : String} {calls : List (LimiterCall × K)} {t : K}
    (h : t ∈ recordsOf key calls) : t ∈ calls.map Prod.snd := by
  induction calls using List.reverseRecOn with
  | nil => exact h
  | append_singleton calls c ih =>
    obtain ⟨call, now⟩ := c
    rw [List.map_append, List.mem_append]
    rw [recordsOf_snoc] at h
    cases call with
    | check k => exact .inl (ih h)
    | prune k => exact .inl (ih h)
    | record k =>
      rw [recordsAfter] at h
      split at h
      · rcases List.mem_append.mp h with h | h
        · exact .inl (ih h)
        · exact .inr h
      · exact .inl (ih h)
    | reset k =>
      rw [recordsAfter] at h
      split at h
      · exact absurd h List.not_mem_nil
      · exact .inl (ih h)

end Reference

/-! ### What a call makes of the queues -/

namespace SlidingWindowLimiter

variable {K : Type u} [AddCommGroup K] [LinearOrder K] {l : SlidingWindowLimiter K} {now : K}
  {key : String}

omit [AddCommGroup K] [LinearOrder K] in
/-- A call that writes one key's queue. -/
theorem bucket_update (queue : Option (List K)) (k : String) :
    ({ l with attempts := Function.update l.attempts key queue } :
      SlidingWindowLimiter K).bucket k = if k = key then queue.getD [] else l.bucket k := by
  show (Function.update l.attempts key queue k).getD [] = _
  by_cases hk : k = key
  · subst hk
    rw [Function.update_self, if_pos rfl]
  · rw [Function.update_of_ne hk, if_neg hk, bucket]

theorem bucket_prune (k : String) :
    (l.prune now key).1.bucket k =
      if k = key then (l.bucket k).dropWhile fun t => decide (t ≤ now - l.window)
      else l.bucket k := by
  unfold prune
  dsimp only
  rw [bucket_update]
  by_cases hk : k = key
  · subst hk
    rw [if_pos rfl, if_pos rfl]
    split
    next hempty => rw [hempty, Option.getD_none]
    next => rw [Option.getD_some]
  · rw [if_neg hk, if_neg hk]

/-- A sweep drops a queue whose newest attempt is old, and no other. -/
theorem bucket_sweep (k : String) :
    (l.sweep now).bucket k = l.bucket k ∨
      (l.sweep now).bucket k = [] ∧ ∀ t ∈ (l.bucket k).getLast?, t ≤ now - l.window := by
  unfold sweep
  split
  next => exact .inl rfl
  next =>
    simp only [bucket]
    cases hqueue : l.attempts k with
    | none => exact .inl rfl
    | some ts =>
      rw [Option.filter_some, Option.getD_some]
      split
      next => exact .inl rfl
      next hdropped =>
        refine .inr ⟨rfl, fun t ht => ?_⟩
        by_contra hnew
        rw [Option.mem_def.mp ht] at hdropped
        exact hdropped (decide_eq_true (not_le.mp hnew))

theorem bucket_record (k : String) :
    (l.record now key).bucket k =
      if k = key then (l.sweep now).bucket k ++ [now] else (l.sweep now).bucket k := by
  unfold record
  dsimp only
  rw [bucket_update, Option.getD_some]
  by_cases hk : k = key
  · rw [if_pos hk, if_pos hk, hk]
  · rw [if_neg hk, if_neg hk]

omit [AddCommGroup K] [LinearOrder K] in
theorem bucket_reset (k : String) :
    (l.reset key).bucket k = if k = key then [] else l.bucket k := by
  unfold reset
  rw [bucket_update, Option.getD_none]

@[simp]
theorem window_sweep : (l.sweep now).window = l.window := by
  unfold sweep
  split <;> rfl

@[simp]
theorem maxAttempts_sweep : (l.sweep now).maxAttempts = l.maxAttempts := by
  unfold sweep
  split <;> rfl

/-- No call changes what the limiter was made with. -/
theorem call_config (c : LimiterCall × K) :
    (l.call c).maxAttempts = l.maxAttempts ∧ (l.call c).window = l.window := by
  obtain ⟨call, now⟩ := c
  cases call with
  | check key => exact ⟨rfl, rfl⟩
  | record key => exact ⟨maxAttempts_sweep, window_sweep⟩
  | reset key => exact ⟨rfl, rfl⟩
  | prune key => exact ⟨rfl, rfl⟩

end SlidingWindowLimiter

/-! ### The queues and the history -/

section Queues

open SlidingWindowLimiter

variable {K : Type u} [AddCommGroup K] [LinearOrder K] {l : SlidingWindowLimiter K}
  {calls : List (LimiterCall × K)}

/-- What the queues say of the calls there have been: each is in order, its attempts are readings
of the clock, and from now on no attempt counts that it does not have. -/
structure LimiterInv (l : SlidingWindowLimiter K) (calls : List (LimiterCall × K)) : Prop where
  sorted : ∀ key, (l.bucket key).Pairwise (· ≤ ·)
  times : ∀ key, ∀ t ∈ l.bucket key, t ∈ calls.map Prod.snd
  kept : ∀ key now, (∀ c ∈ calls, c.2 ≤ now) → ∀ bound, now - l.window ≤ bound →
    ((l.bucket key).filter fun t => decide (bound < t)) =
      (recordsOf key calls).filter fun t => decide (bound < t)

theorem limiterInv_init (maxAttempts : ℤ) (window : K) :
    LimiterInv (init maxAttempts window) [] where
  sorted := fun _ => List.Pairwise.nil
  times := fun _ _ ht => ht
  kept := fun _ _ _ _ _ => rfl

variable {now : K}

/-- A sweep on the way to a record. -/
theorem LimiterInv.sweep (h : LimiterInv l calls) (now : K) (k : String) :
    ((l.sweep now).bucket k).Sublist (l.bucket k) ∧
      ∀ bound, now - l.window ≤ bound →
        (((l.sweep now).bucket k).filter fun t => decide (bound < t)) =
          (l.bucket k).filter fun t => decide (bound < t) := by
  rcases bucket_sweep (l := l) k with hkept | ⟨hdropped, hold⟩
  · rw [hkept]
    exact ⟨List.Sublist.refl _, fun _ _ => rfl⟩
  · rw [hdropped]
    refine ⟨List.nil_sublist _, fun bound hbound => ?_⟩
    rw [filter_eq_nil_of_getLast (h.sorted k) fun t ht => (hold t ht).trans hbound]
    rfl

theorem LimiterInv.reset (h : LimiterInv l calls) (key : String) :
    LimiterInv (l.reset key) (calls ++ [(.reset key, now)]) := by
  constructor
  case sorted =>
    intro k
    rw [bucket_reset]
    split
    · exact List.Pairwise.nil
    · exact h.sorted k
  case times =>
    intro k t ht
    rw [bucket_reset] at ht
    split at ht
    · exact absurd ht List.not_mem_nil
    · rw [List.map_append]
      exact List.mem_append_left _ (h.times k t ht)
  case kept =>
    intro k later hlater bound hbound
    rw [bucket_reset, recordsOf_snoc, recordsAfter]
    by_cases hk : k = key
    · rw [if_pos hk, if_pos hk.symm]
    · rw [if_neg hk, if_neg fun heq => hk heq.symm]
      exact h.kept k later (fun c hc => hlater c (List.mem_append_left _ hc)) bound hbound

variable [IsOrderedAddMonoid K]

/-- Queues that keep what is new, under a call that adds nothing to a history. -/
theorem LimiterInv.of_subset (h : LimiterInv l calls) {l' : SlidingWindowLimiter K}
    {c : LimiterCall × K} (hwindow : l'.window = l.window)
    (hrecords : ∀ key, recordsAfter key (recordsOf key calls) c = recordsOf key calls)
    (hsub : ∀ key, (l'.bucket key).Sublist (l.bucket key))
    (hnew : ∀ key bound, c.2 - l.window ≤ bound →
      ((l'.bucket key).filter fun t => decide (bound < t)) =
        (l.bucket key).filter fun t => decide (bound < t)) :
    LimiterInv l' (calls ++ [c]) where
  sorted := fun key => (h.sorted key).sublist (hsub key)
  times := fun key t ht => by
    rw [List.map_append]
    exact List.mem_append_left _ (h.times key t ((hsub key).subset ht))
  kept := fun key now hnow bound hbound => by
    rw [hwindow] at hbound
    have hc : c.2 ≤ now := hnow c (List.mem_append_right _ (List.mem_singleton_self c))
    rw [recordsOf_snoc, hrecords, hnew key bound ((sub_le_sub_right hc _).trans hbound)]
    exact h.kept key now (fun c' hc' => hnow c' (List.mem_append_left _ hc')) bound hbound

theorem LimiterInv.prune (h : LimiterInv l calls) (key : String) {c : LimiterCall × K}
    (hc : c = (.check key, now) ∨ c = (.prune key, now)) :
    LimiterInv (l.prune now key).1 (calls ++ [c]) := by
  have htime : c.2 = now := by rcases hc with rfl | rfl <;> rfl
  refine h.of_subset rfl (fun k => ?_) (fun k => ?_) fun k bound hbound => ?_
  · rcases hc with rfl | rfl <;> rfl
  · rw [bucket_prune]
    split
    · exact List.dropWhile_sublist _
    · exact List.Sublist.refl _
  · rw [bucket_prune]
    split
    · rw [dropWhile_le_eq_filter (h.sorted k)]
      exact filter_filter_of_le _ (htime ▸ hbound)
    · rfl

theorem LimiterInv.record (h : LimiterInv l calls) (key : String) (hnow : ∀ c ∈ calls, c.2 ≤ now) :
    LimiterInv (l.record now key) (calls ++ [(.record key, now)]) := by
  have hold (k : String) : ∀ t ∈ (l.sweep now).bucket k, t ≤ now := fun t ht => by
    obtain ⟨c, hc, rfl⟩ := List.mem_map.mp (h.times k t ((h.sweep now k).1.subset ht))
    exact hnow c hc
  constructor
  case sorted =>
    intro k
    have hsorted := (h.sorted k).sublist (h.sweep now k).1
    rw [bucket_record]
    split
    · refine List.pairwise_append.mpr ⟨hsorted, List.pairwise_singleton _ _, fun t ht u hu => ?_⟩
      exact List.mem_singleton.mp hu ▸ hold k t ht
    · exact hsorted
  case times =>
    intro k t ht
    rw [List.map_append]
    rw [bucket_record] at ht
    have hswept : t ∈ (l.sweep now).bucket k → t ∈ calls.map Prod.snd := fun ht =>
      h.times k t ((h.sweep now k).1.subset ht)
    split at ht
    · rcases List.mem_append.mp ht with ht | ht
      · exact List.mem_append_left _ (hswept ht)
      · exact List.mem_append_right _ ht
    · exact List.mem_append_left _ (hswept ht)
  case kept =>
    intro k later hlater bound hbound
    have hwindow : (l.record now key).window = l.window := window_sweep
    rw [hwindow] at hbound
    have hle : now ≤ later :=
      hlater _ (List.mem_append_right _ (List.mem_singleton_self (LimiterCall.record key, now)))
    have hswept := (h.sweep now k).2 bound ((sub_le_sub_right hle l.window).trans hbound)
    have hkept := h.kept k later (fun c hc => hlater c (List.mem_append_left _ hc)) bound hbound
    rw [bucket_record, recordsOf_snoc, recordsAfter]
    by_cases hk : k = key
    · rw [if_pos hk, if_pos hk.symm, List.filter_append, List.filter_append, hswept, hkept]
    · rw [if_neg hk, if_neg fun heq => hk heq.symm, hswept, hkept]

/-- Every call keeps the invariant, at a reading of the clock that is no earlier than the last. -/
theorem limiterInv_call (h : LimiterInv l calls) (c : LimiterCall × K)
    (hnow : ∀ c' ∈ calls, c'.2 ≤ c.2) : LimiterInv (l.call c) (calls ++ [c]) := by
  obtain ⟨call, now⟩ := c
  cases call with
  | check key => exact h.prune key (.inl rfl)
  | record key => exact h.record key hnow
  | reset key => exact h.reset key
  | prune key => exact h.prune key (.inr rfl)

/-- The invariant after any calls under a monotone clock. -/
theorem limiterInv_run (maxAttempts : ℤ) (window : K)
    (hmono : (calls.map Prod.snd).Pairwise (· ≤ ·)) :
    LimiterInv (run maxAttempts window calls) calls := by
  induction calls using List.reverseRecOn with
  | nil => exact limiterInv_init maxAttempts window
  | append_singleton calls c ih =>
    rw [List.map_append, List.pairwise_append] at hmono
    have hlast : ∀ c' ∈ calls, c'.2 ≤ c.2 := fun c' hc' =>
      hmono.2.2 _ (List.mem_map_of_mem hc') _ (List.mem_singleton_self c.2)
    have hrun : run maxAttempts window (calls ++ [c]) = (run maxAttempts window calls).call c := by
      rw [run, List.foldl_append]
      rfl
    rw [hrun]
    exact limiterInv_call (ih hmono.1) c hlast

omit [IsOrderedAddMonoid K] in
theorem run_config (maxAttempts : ℤ) (window : K) (calls : List (LimiterCall × K)) :
    (run maxAttempts window calls).maxAttempts = maxAttempts ∧
      (run maxAttempts window calls).window = window := by
  induction calls using List.reverseRecOn with
  | nil => exact ⟨rfl, rfl⟩
  | append_singleton calls c ih =>
    rw [run, List.foldl_append]
    obtain ⟨hmax, hwindow⟩ := call_config (l := run maxAttempts window calls) c
    exact ⟨hmax.trans ih.1, hwindow.trans ih.2⟩

/-- The attempts an answer counts are the key's records in the window. -/
theorem length_prune_run (maxAttempts : ℤ) (window : K) (key : String)
    (hmono : (calls.map Prod.snd ++ [now]).Pairwise (· ≤ ·)) :
    ((run maxAttempts window calls).prune now key).2.length =
      (recordsOf key calls).countP fun t => decide (now - window < t ∧ t ≤ now) := by
  obtain ⟨hmono, -, hnow⟩ := List.pairwise_append.mp hmono
  have hlast {t : K} (ht : t ∈ calls.map Prod.snd) : t ≤ now :=
    hnow t ht now (List.mem_singleton_self now)
  have hinv := limiterInv_run maxAttempts window hmono
  have hwindow := (run_config maxAttempts window calls).2
  have hkept := hinv.kept key now (fun c hc => hlast (List.mem_map_of_mem hc)) _ le_rfl
  rw [hwindow] at hkept
  unfold prune
  dsimp only
  rw [dropWhile_le_eq_filter (hinv.sorted key), hwindow, hkept, List.countP_eq_length_filter]
  -- No record is later than the answer.
  refine congrArg List.length (List.filter_congr fun t ht => ?_)
  simp [hlast (mem_times_of_mem_recordsOf ht)]

/-- **The limiter answers as the full history does.** It allows a key that has fewer than
`maxAttempts` records in the window since its last reset, and no other call has a part in it. -/
theorem limiter_exact (maxAttempts : ℤ) (window : K) (calls : List (LimiterCall × K))
    (key : String) (now : K) (hmono : (calls.map Prod.snd ++ [now]).Pairwise (· ≤ ·)) :
    ((run maxAttempts window calls).allow now key).2 =
        decide ((((recordsOf key calls).countP fun t =>
          decide (now - window < t ∧ t ≤ now) : ℕ) : ℤ) < maxAttempts) ∧
      ∀ calls' : List (LimiterCall × K), (calls'.map Prod.snd ++ [now]).Pairwise (· ≤ ·) →
        (calls'.filter fun c => c.1.touches key) = (calls.filter fun c => c.1.touches key) →
          ((run maxAttempts window calls').allow now key).2 =
            ((run maxAttempts window calls).allow now key).2 := by
  have hanswer : ∀ calls : List (LimiterCall × K),
      (calls.map Prod.snd ++ [now]).Pairwise (· ≤ ·) →
        ((run maxAttempts window calls).allow now key).2 =
          decide ((((recordsOf key calls).countP fun t =>
            decide (now - window < t ∧ t ≤ now) : ℕ) : ℤ) < maxAttempts) := by
    intro calls hmono
    have hmax : ((run maxAttempts window calls).prune now key).1.maxAttempts = maxAttempts :=
      (run_config maxAttempts window calls).1
    unfold allow
    dsimp only
    rw [length_prune_run maxAttempts window key hmono, hmax]
  refine ⟨hanswer calls hmono, fun calls' hmono' hsame => ?_⟩
  rw [hanswer calls' hmono', hanswer calls hmono, ← recordsOf_filter key calls', hsame,
    recordsOf_filter]

/-- Of three records of a key, one has left the window and one is another's. -/
theorem limiter_exact_of_three :
    ((run 2 60 [(.record "a", 0), (.record "b", 30), (.record "a", 50), (.prune "a", (61 : ℤ))]).allow
      70 "a").2 = true := by
  rw [(limiter_exact 2 60 _ "a" 70 (by decide)).1]
  decide

end Queues

end TigerDuck.Auth
