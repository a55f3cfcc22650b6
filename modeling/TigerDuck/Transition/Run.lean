import Mathlib.Data.List.Basic
import Mathlib.Data.List.Induction
import Mathlib.Data.Option.Basic

/-!
# Runs of a labelled machine

A machine is a partial step function `step : σ → ι → Option σ`: in state `s` the label
`l` is either not enabled or leads to one state. `Run step ok s ls t` says that the
labels `ls` lead from `s` to `t` with every step taken in a state that satisfies `ok`.

- `Run.invariant`: what every step keeps holds at the end of every run.
- `Run.mono`: a run under a strong condition is one under a weaker condition.
- `Run.congr`: conditions that agree wherever an invariant holds allow the same runs.
- `Run.append`, `Run.split`: runs compose and can be taken apart.
- `always_iff`: the runs in which what a step keeps exactly under a condition always holds.
- `Run.ever_iff`: what holds from the first step of a kind on tells whether one was taken.
- `count_snoc`: how many steps of a run are of a kind.
- `run_of_exec`, `run_of_execWhere`: a run found by executing the labels.
-/

namespace Transition

universe u v

variable {σ : Type u} {ι : Type v}

/-- Execute the labels in order, as long as each is enabled. -/
def exec (step : σ → ι → Option σ) : σ → List ι → Option σ
  | s, [] => some s
  | s, l :: ls => (step s l).bind fun t => exec step t ls

/-- Execute the labels in order, as long as each is enabled where `ok` holds. -/
def execWhere (step : σ → ι → Option σ) (ok : σ → ι → Prop) [∀ s l, Decidable (ok s l)] :
    σ → List ι → Option σ
  | s, [] => some s
  | s, l :: ls => if ok s l then (step s l).bind fun t => execWhere step ok t ls else none

/-- `ls` leads from `s` to `t`, every step taken where `ok` holds. -/
inductive Run (step : σ → ι → Option σ) (ok : σ → ι → Prop) (s : σ) : List ι → σ → Prop
  | nil : Run step ok s [] s
  | snoc {ls : List ι} {t : σ} {l : ι} {u : σ} :
      Run step ok s ls t → ok t l → step t l = some u → Run step ok s (ls ++ [l]) u

/-- A run that puts no condition on its steps. -/
abbrev FreeRun (step : σ → ι → Option σ) : σ → List ι → σ → Prop :=
  Run step fun _ _ => True

namespace Run

variable {step : σ → ι → Option σ} {ok ok' : σ → ι → Prop} {s t u : σ} {ls ls' : List ι}

/-- An invariant of every step holds at the end of every run from a state it holds in. -/
theorem invariant (hrun : Run step ok s ls t) (Inv : σ → Prop) (hinit : Inv s)
    (hstep : ∀ t l u, Inv t → ok t l → step t l = some u → Inv u) : Inv t := by
  induction hrun with
  | nil => exact hinit
  | snoc _ hok hnext ih => exact hstep _ _ _ ih hok hnext

/-- A run under a condition is a run under any weaker one. -/
theorem mono (hrun : Run step ok s ls t) (himp : ∀ t l, ok t l → ok' t l) :
    Run step ok' s ls t := by
  induction hrun with
  | nil => exact Run.nil
  | snoc _ hok hnext ih => exact Run.snoc ih (himp _ _ hok) hnext

/-- A condition that an invariant turns into another at every enabled step. -/
theorem strengthen (hrun : Run step ok s ls t) (Inv : σ → Prop) (hinit : Inv s)
    (hstep : ∀ t l u, Inv t → step t l = some u → Inv u)
    (himp : ∀ t l u, Inv t → step t l = some u → ok t l → ok' t l) : Run step ok' s ls t := by
  have hboth : Inv t ∧ Run step ok' s ls t := by
    induction hrun with
    | nil => exact ⟨hinit, Run.nil⟩
    | snoc _ hok hnext ih =>
      obtain ⟨hinv, hrun'⟩ := ih
      exact ⟨hstep _ _ _ hinv hnext, Run.snoc hrun' (himp _ _ _ hinv hnext hok) hnext⟩
  exact hboth.2

/-- Two conditions that agree at every enabled step allow the same runs. -/
theorem congr (Inv : σ → Prop) (hinit : Inv s)
    (hstep : ∀ t l u, Inv t → step t l = some u → Inv u)
    (hiff : ∀ t l u, Inv t → step t l = some u → (ok t l ↔ ok' t l)) :
    Run step ok s ls t ↔ Run step ok' s ls t :=
  ⟨fun hrun => hrun.strengthen Inv hinit hstep fun t l u hinv hnext => (hiff t l u hinv hnext).mp,
    fun hrun => hrun.strengthen Inv hinit hstep fun t l u hinv hnext => (hiff t l u hinv hnext).mpr⟩

/-- Every run is a free run. -/
theorem free (hrun : Run step ok s ls t) : FreeRun step s ls t :=
  hrun.mono fun _ _ _ => trivial

/-- Runs compose. -/
theorem append (hrun : Run step ok s ls t) (hrun' : Run step ok t ls' u) :
    Run step ok s (ls ++ ls') u := by
  induction hrun' with
  | nil => simpa using hrun
  | snoc _ hok hnext ih =>
    rw [← List.append_assoc]
    exact Run.snoc ih hok hnext

/-- A run can be taken apart where its labels can. -/
theorem split (hrun : Run step ok s (ls ++ ls') t) :
    ∃ u, Run step ok s ls u ∧ Run step ok u ls' t := by
  induction ls' using List.reverseRecOn generalizing t with
  | nil => exact ⟨t, by simpa using hrun, Run.nil⟩
  | append_singleton ls' l ih =>
    rw [← List.append_assoc] at hrun
    generalize hall : ls ++ ls' ++ [l] = all at hrun
    cases hrun with
    | nil => simp at hall
    | snoc hrun hok hnext =>
      obtain ⟨rfl, hl⟩ := List.append_inj' hall rfl
      obtain rfl := List.singleton_inj.mp hl
      obtain ⟨u, hfirst, hlast⟩ := ih hrun
      exact ⟨u, hfirst, hlast.snoc hok hnext⟩

/-- A run of no labels stays where it is. -/
theorem eq_of_nil (hrun : Run step ok s ls t) (hnil : ls = []) : t = s := by
  cases hrun with
  | nil => rfl
  | snoc => simp at hnil

/-- The first step of a run is taken where its condition holds. -/
theorem ok_head {l : ι} {rest : List ι} (hrun : Run step ok s ls t) (hcons : ls = l :: rest) :
    ok s l := by
  induction hrun generalizing rest with
  | nil => cases hcons
  | @snoc ls t l' _ hrun hok _ ih =>
    cases ls with
    | nil =>
      obtain rfl := hrun.eq_of_nil rfl
      obtain ⟨rfl, _⟩ := List.cons_eq_cons.mp hcons
      exact hok
    | cons l₀ ls =>
      obtain ⟨rfl, _⟩ := List.cons_eq_cons.mp hcons
      exact ih rfl

/-- A run of one label is that step. -/
theorem single {l : ι} (hok : ok s l) (hnext : step s l = some t) : Run step ok s [l] t :=
  Run.nil.snoc hok hnext

end Run

/-- Executing labels that are all enabled where `ok` holds is a run. -/
theorem run_of_execWhere {step : σ → ι → Option σ} {ok : σ → ι → Prop}
    [∀ s l, Decidable (ok s l)] {s t : σ} {ls : List ι}
    (h : execWhere step ok s ls = some t) : Run step ok s ls t := by
  induction ls generalizing s with
  | nil =>
    obtain rfl : s = t := by simpa [execWhere] using h
    exact Run.nil
  | cons l ls ih =>
    rw [execWhere] at h
    split at h
    next hok =>
      obtain ⟨s', hstep, hrest⟩ := Option.bind_eq_some_iff.mp h
      exact (Run.single hok hstep).append (ih hrest)
    next => cases h

/-- Executing labels goes on where it has come to. -/
theorem exec_append (step : σ → ι → Option σ) (s : σ) (ls ls' : List ι) :
    exec step s (ls ++ ls') = (exec step s ls).bind fun t => exec step t ls' := by
  induction ls generalizing s with
  | nil => rfl
  | cons l ls ih =>
    rw [List.cons_append, exec, exec, Option.bind_assoc]
    exact congrArg _ (funext fun t => ih t)

/-- The state a run ends in is the one its labels execute to. -/
theorem Run.exec_eq {step : σ → ι → Option σ} {ok : σ → ι → Prop} {s t : σ} {ls : List ι}
    (hrun : Run step ok s ls t) : exec step s ls = some t := by
  induction hrun with
  | nil => rfl
  | snoc _ _ hnext ih => simp [exec_append, ih, exec, hnext]

/-- The states before the last step of a run are those of its prefixes. -/
theorem Run.of_prefix {step : σ → ι → Option σ} {ok : σ → ι → Prop} {s t u : σ} {ls ls₁ : List ι}
    (hrun : Run step ok s ls t) (hle : ls₁ <+: ls) (hu : exec step s ls₁ = some u) :
    Run step ok s ls₁ u := by
  obtain ⟨rest, rfl⟩ := hle
  obtain ⟨v, hfirst, _⟩ := hrun.split
  obtain rfl : v = u := Option.some.inj (hfirst.exec_eq.symm.trans hu)
  exact hfirst

/-- What a step keeps exactly where `ok` holds, is true in every state of exactly the runs whose
steps are all taken where `ok` holds. `Inv` is what every step keeps. -/
theorem always_iff {step : σ → ι → Option σ} {ok : σ → ι → Prop} {s t : σ} {ls : List ι}
    (Inv P : σ → Prop) (hInv : Inv s) (hP : P s)
    (hkeeps : ∀ t l u, Inv t → step t l = some u → Inv u)
    (hiff : ∀ t l u, Inv t → P t → step t l = some u → (P u ↔ ok t l)) :
    (FreeRun step s ls t ∧ ∀ ls₁, ls₁ <+: ls → ∀ u, exec step s ls₁ = some u → P u) ↔
      Run step ok s ls t := by
  constructor
  · rintro ⟨hrun, halways⟩
    induction hrun with
    | nil => exact Run.nil
    | @snoc ls before l after hrun _ hstep ih =>
      have hle : ls <+: ls ++ [l] := List.prefix_append ls [l]
      have hbefore := hrun.invariant Inv hInv fun _ _ _ hinv _ hnext => hkeeps _ _ _ hinv hnext
      have hok := hiff before l after hbefore (halways ls hle before hrun.exec_eq) hstep
      refine (ih fun ls₁ h => halways ls₁ (h.trans hle)).snoc (hok.mp ?_) hstep
      exact halways _ (List.prefix_refl _) after (hrun.snoc trivial hstep).exec_eq
  · intro hrun
    refine ⟨hrun.free, fun ls₁ hle u hu => ?_⟩
    refine ((hrun.of_prefix hle hu).invariant (fun t => Inv t ∧ P t) ⟨hInv, hP⟩ ?_).2
    rintro t l v ⟨hinv, hp⟩ hok hnext
    exact ⟨hkeeps t l v hinv hnext, (hiff t l v hinv hp hnext).mpr hok⟩

/-- Some step of the labels is taken as `event` says. -/
def Ever (step : σ → ι → Option σ) (event : σ → ι → Prop) (s : σ) (ls : List ι) : Prop :=
  ∃ before l after u, ls = before ++ l :: after ∧ exec step s before = some u ∧ event u l

namespace Ever

variable {step : σ → ι → Option σ} {event event' : σ → ι → Prop} {s u : σ} {ls : List ι} {l : ι}

/-- A step that was taken stays taken. -/
theorem snoc (h : Ever step event s ls) (l : ι) : Ever step event s (ls ++ [l]) := by
  obtain ⟨before, l', after, u, rfl, hexec, hevent⟩ := h
  exact ⟨before, l', after ++ [l], u, by simp, hexec, hevent⟩

/-- The last step is one that was taken. -/
theorem last (hexec : exec step s ls = some u) (hevent : event u l) :
    Ever step event s (ls ++ [l]) :=
  ⟨ls, l, [], u, rfl, hexec, hevent⟩

theorem imp (h : Ever step event s ls) (himp : ∀ u l, event u l → event' u l) :
    Ever step event' s ls := by
  obtain ⟨before, l, after, u, hls, hexec, hevent⟩ := h
  exact ⟨before, l, after, u, hls, hexec, himp u l hevent⟩

end Ever

/-- What holds from the first step of a kind on tells whether a step of the kind was taken. -/
theorem Run.ever_iff {step : σ → ι → Option σ} {ok : σ → ι → Prop} {s t : σ} {ls : List ι}
    (hrun : Run step ok s ls t) (event : σ → ι → Prop) (P : σ → Prop) (hinit : ¬P s)
    (hiff : ∀ t l u, step t l = some u → (P u ↔ P t ∨ event t l)) :
    P t ↔ Ever step event s ls := by
  induction hrun with
  | nil =>
    refine ⟨fun h => absurd h hinit, ?_⟩
    rintro ⟨before, l, after, u, hls, -⟩
    simp at hls
  | @snoc ls t l u hrun _ hstep ih =>
    rw [hiff t l u hstep]
    constructor
    · rintro (hp | hevent)
      · exact (ih.mp hp).snoc l
      · exact Ever.last hrun.exec_eq hevent
    · rintro ⟨before, l', after, v, hls, hexec, hevent⟩
      rcases List.eq_nil_or_concat after with rfl | ⟨after, l'', rfl⟩
      · obtain ⟨rfl, hl⟩ := List.append_inj' hls rfl
        obtain rfl := List.singleton_inj.mp hl
        obtain rfl := Option.some.inj (hrun.exec_eq.symm.trans hexec)
        exact Or.inr hevent
      · rw [List.concat_eq_append, ← List.cons_append, ← List.append_assoc] at hls
        obtain ⟨rfl, -⟩ := List.append_inj' hls rfl
        exact Or.inl (ih.mpr ⟨before, l', after, v, rfl, hexec, hevent⟩)

/-- How many steps of the labels are taken as `event` says. -/
def count (step : σ → ι → Option σ) (event : σ → ι → Bool) : σ → List ι → ℕ
  | _, [] => 0
  | s, l :: ls => (event s l).toNat + (step s l).elim 0 fun t => count step event t ls

/-- The last step counts where it is taken. -/
theorem count_snoc {step : σ → ι → Option σ} {event : σ → ι → Bool} {s t : σ} {ls : List ι}
    (h : exec step s ls = some t) (l : ι) :
    count step event s (ls ++ [l]) = count step event s ls + (event t l).toNat := by
  induction ls generalizing s with
  | nil =>
    obtain rfl : s = t := by simpa [exec] using h
    show (event s l).toNat + (step s l).elim 0 (fun _ => 0) = 0 + (event s l).toNat
    cases step s l <;> exact Nat.add_comm ..
  | cons l' ls ih =>
    obtain ⟨s', hstep, hrest⟩ := Option.bind_eq_some_iff.mp h
    rw [List.cons_append, count, count, hstep, Option.elim_some, Option.elim_some, ih hrest]
    omega

/-- Executing labels that are enabled is a run under a condition that each meets everywhere. -/
theorem run_of_exec_of_forall {step : σ → ι → Option σ} {ok : σ → ι → Prop} {s t : σ}
    {ls : List ι} (h : exec step s ls = some t) (hok : ∀ l ∈ ls, ∀ s, ok s l) :
    Run step ok s ls t := by
  induction ls generalizing s with
  | nil =>
    obtain rfl : s = t := by simpa [exec] using h
    exact Run.nil
  | cons l ls ih =>
    obtain ⟨s', hstep, hrest⟩ := Option.bind_eq_some_iff.mp h
    refine (Run.single (hok l List.mem_cons_self s) hstep).append (ih hrest ?_)
    exact fun l' hl' => hok l' (List.mem_cons_of_mem l hl')

/-- Executing labels that are all enabled is a free run. -/
theorem run_of_exec {step : σ → ι → Option σ} {s t : σ} {ls : List ι}
    (h : exec step s ls = some t) : FreeRun step s ls t :=
  run_of_exec_of_forall h fun _ _ _ => trivial

end Transition
