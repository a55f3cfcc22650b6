import TigerDuck.Push.Jobs

/-!
# Held jobs

What `_materialize` and the pre-send check leave of a job that gets no round: it is given up, or
put back for later.

- `PushJob.materialize_cases`: a job is held so, or goes on with some more deliveries.
- `PushJob.heldBack_held`: what the check holds back.
-/

namespace TigerDuck.Push

namespace PushJob

/-- A job as it is held back. -/
inductive Held (job : PushJob) (now : Time) : PushJob → Prop
  | cancelled (error : String) : Held job now (job.settleCancelled now error)
  /-- With what has not gone out. -/
  | skipped (code error : String) :
      Held job now
        ({ job with deliveries := job.deliveries.map (skipPending code) }.settleCancelled now error)
  | failed (error : String) : Held job now (job.settleFailed error)
  | putBack (availableAt : Time) : Held job now (job.putBack availableAt)

variable {cfg : Settings} {job job' : PushJob} {now : Time} {round : Round}

theorem heldByCourseChanges_held {recheck : CourseRecheck}
    (h : job.heldByCourseChanges now recheck = some job') : job.Held now job' := by
  cases recheck with
  | unconfirmed => exact Option.some.inj h ▸ .cancelled _
  | changed => exact Option.some.inj h ▸ .cancelled _
  | begins delay =>
    simp only [heldByCourseChanges] at h
    split at h
    · exact Option.some.inj h ▸ .putBack _
    · cases h

theorem holdSessionReauth_held (h : job.holdSessionReauth now round = some job') :
    job.Held now job' := by
  unfold holdSessionReauth at h
  split at h
  · split at h
    · exact Option.some.inj h ▸ .skipped _ _
    · obtain ⟨wait, -, rfl⟩ := Option.map_eq_some_iff.mp h
      exact .putBack wait
  · cases h

theorem holdActivity_held (h : job.holdActivity now round = some job') : job.Held now job' := by
  unfold holdActivity at h
  split at h
  · cases h
  split at h
  · exact Option.some.inj h ▸ .failed _
  split at h
  · cases h
  dsimp only at h
  rcases Option.or_eq_some_iff.mp h with hclass | ⟨-, hregistered⟩
  · split at hclass
    · split at hclass
      · exact Option.some.inj hclass ▸ .cancelled _
      · exact heldByCourseChanges_held hclass
    · cases hclass
  · split at hregistered
    · exact Option.some.inj hregistered ▸ .cancelled _
    · cases hregistered

theorem holdCourse_held (h : job.holdCourse now round = some job') : job.Held now job' := by
  unfold holdCourse at h
  split at h
  · exact heldByCourseChanges_held h
  · cases h

theorem holdSyncTrigger_held (h : job.holdSyncTrigger round = some job') : job.Held now job' := by
  unfold holdSyncTrigger at h
  split at h
  · obtain ⟨last, -, rfl⟩ := Option.map_eq_some_iff.mp h
    exact .putBack _
  · cases h

theorem holdForCountdown_held (h : job.holdForCountdown cfg now round = some job') :
    job.Held now job' := by
  unfold holdForCountdown at h
  dsimp only at h
  split at h
  · exact Option.some.inj h ▸ .putBack _
  · cases h

/-- **What `_materialize` makes of a job**: it is held, or its round goes on with what was filed. -/
theorem materialize_cases (cfg : Settings) (job : PushJob) (now : Time) (round : Round) :
    (∃ job', job.Held now job' ∧ job.materialize cfg now round = (job', false)) ∨
      ∃ rows, job.materialize cfg now round = (job.insertDeliveries now rows, true) := by
  unfold materialize
  split
  · split
    · exact .inr ⟨[], rfl⟩
    · exact .inl ⟨_, .cancelled _, rfl⟩
  dsimp only
  split
  next job' hheld =>
    refine .inl ⟨job', ?_, rfl⟩
    rcases Option.or_eq_some_iff.mp hheld with h | ⟨-, h⟩
    · exact holdSessionReauth_held h
    rcases Option.or_eq_some_iff.mp h with h | ⟨-, h⟩
    · exact holdActivity_held h
    rcases Option.or_eq_some_iff.mp h with h | ⟨-, h⟩
    · exact holdCourse_held h
    rcases Option.or_eq_some_iff.mp h with h | ⟨-, h⟩
    · exact holdSyncTrigger_held h
    · split at h
      · cases h
      · exact holdForCountdown_held h
  next =>
    unfold fileDeliveries
    split
    · split
      · exact .inl ⟨_, .cancelled _, rfl⟩
      · exact .inr ⟨[], rfl⟩
    next rows _ => exact .inr ⟨_, rfl⟩

theorem heldBack_held (cfg : Settings) (job : PushJob) (now : Time) {verdict : Verdict}
    (h : verdict ≠ .send) : job.Held now (job.heldBack cfg now verdict) := by
  cases verdict with
  | send => exact absurd rfl h
  | submitted => exact .cancelled _
  | gone => exact .cancelled _
  | unverified =>
    unfold heldBack
    dsimp only
    split
    · exact .putBack _
    · exact .cancelled _

end PushJob

end TigerDuck.Push
