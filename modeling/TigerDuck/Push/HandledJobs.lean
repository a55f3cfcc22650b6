import TigerDuck.Push.HeldJobs
import TigerDuck.Push.PushTick
import TigerDuck.Push.TriggerCoverage
import TigerDuck.Push.Writes

/-!
# Handled jobs

What the transaction of one job of a tick makes of `push_jobs`. Its own row is not left claimed,
and no other row becomes claimed. Only a job that a pre-send check guards leaves new ones behind,
the ends of the activities of a submitted assignment, and no check guards these.

- `PushJob.process_handled`: a handled job is not left claimed.
- `PushTick.handle_handles`: the whole transaction.
-/

namespace TigerDuck.Push

open Relational Transition
open SyncJobs (MoodleId)

/-! ### A job's transaction -/

namespace PushJob

variable {cfg : Settings} {job job' job'' : PushJob} {now : Time} {round : Round}

/-- A row that is still guarded by the same check. -/
structure SameKind (job job' : PushJob) : Prop extends job.Carries job' where
  dedupeKey : job'.dedupeKey = job.dedupeKey

theorem SameKind.refl (job : PushJob) : job.SameKind job := ⟨⟨rfl, rfl, rfl, rfl⟩, rfl⟩

theorem SameKind.trans (h : job.SameKind job') (h' : job'.SameKind job'') : job.SameKind job'' where
  toCarries := h.toCarries.trans h'.toCarries
  dedupeKey := h'.dedupeKey.trans h.dedupeKey

theorem SameKind.needsCheck (h : job.SameKind job') : job'.needsCheck = job.needsCheck := by
  unfold PushJob.needsCheck
  rw [h.channel, h.scenario, h.payload, h.deviceId, h.dedupeKey]

/-- A row that is not left claimed. -/
structure Handled (job job' : PushJob) : Prop extends job.SameKind job' where
  status : job'.status ≠ .processing

theorem Handled.of_sameKind (h : job.SameKind job') (h' : job'.Handled job'') : job.Handled job'' where
  toSameKind := h.trans h'.toSameKind
  status := h'.status

theorem release_handled (job : PushJob) : job.Handled job.release :=
  ⟨⟨⟨rfl, rfl, rfl, rfl⟩, rfl⟩, PushJobStatus.noConfusion⟩

theorem Held.handled (h : job.Held now job') : job.Handled job' := by
  cases h <;> exact ⟨⟨⟨rfl, rfl, rfl, rfl⟩, rfl⟩, PushJobStatus.noConfusion⟩

theorem crash_handled (cfg : Settings) (job : PushJob) (now : Time) :
    job.Handled (job.crash cfg now) := by
  unfold crash
  dsimp only
  split <;> exact ⟨⟨⟨rfl, rfl, rfl, rfl⟩, rfl⟩, PushJobStatus.noConfusion⟩

/-- A round that does not go on has handled its job. -/
theorem materialize_handled (cfg : Settings) (job : PushJob) (now : Time) (round : Round) :
    job.SameKind (job.materialize cfg now round).1 ∧
      ((job.materialize cfg now round).2 = false → job.Handled (job.materialize cfg now round).1) := by
  rcases materialize_cases cfg job now round with ⟨job', hheld, heq⟩ | ⟨rows, heq⟩
  · rw [heq]
    exact ⟨hheld.handled.toSameKind, fun _ => hheld.handled⟩
  · rw [heq]
    exact ⟨⟨⟨rfl, rfl, rfl, rfl⟩, rfl⟩, Bool.noConfusion⟩

theorem aggregate_handled (ds : List PushDelivery) : job.Handled (job.aggregate now ds) := by
  unfold aggregate
  dsimp only
  split
  · exact ⟨⟨⟨rfl, rfl, rfl, rfl⟩, rfl⟩, PushJobStatus.noConfusion⟩
  · split <;> exact ⟨⟨⟨rfl, rfl, rfl, rfl⟩, rfl⟩, PushJobStatus.noConfusion⟩

theorem deliverRound_handled (cfg : Settings) (job : PushJob) (now : Time) (round : Round) :
    job.Handled (job.deliverRound cfg now round) := by
  unfold deliverRound
  split
  · have hheld : job.Held now (job.settleFailed "no_active_tokens") := .failed _
    exact hheld.handled
  dsimp only
  split
  · split
    · exact ⟨⟨⟨rfl, rfl, rfl, rfl⟩, rfl⟩, PushJobStatus.noConfusion⟩
    · split
      · exact ⟨⟨⟨rfl, rfl, rfl, rfl⟩, rfl⟩, PushJobStatus.noConfusion⟩
      · exact aggregate_handled _
  · exact aggregate_handled _

/-- Whatever comes of a job, its transaction does not leave it claimed. -/
theorem process_handled (cfg : Settings) (job : PushJob) (workerId : String) (now : Time)
    (check : Option PresendCheck) (round : Round)
    (hclaimed : job.status = .processing → job.lockedBy = some workerId) :
    job.Handled (job.process cfg workerId now check round).1 := by
  have hgo : job.Handled (if (job.materialize cfg now round).2 = true then
      (job.materialize cfg now round).1.deliverRound cfg now round
      else (job.materialize cfg now round).1) := by
    obtain ⟨hsame, hhandled⟩ := materialize_handled cfg job now round
    split
    · exact .of_sameKind hsame (deliverRound_handled cfg _ now round)
    next hgoes => exact hhandled (by simpa using hgoes)
  unfold process
  split
  next =>
    dsimp only
    split
    · split
      · exact hgo
      · have hheld : job.Held now (job.heldBack cfg now .submitted) := heldBack_held cfg job now nofun
        exact hheld.handled
      next hsend _ => exact (heldBack_held cfg job now hsend).handled
    · split
      · exact release_handled job
      · exact hgo
  next hnot =>
    refine ⟨.refl job, fun h => hnot ⟨h, hclaimed h⟩⟩

end PushJob

/-! ### The other jobs' rows -/

/-- Filing changes no row. -/
theorem Db.kept_fileJob {db : Db} {now : Time} (hbelow : JobsBelow db) (new : NewJob) {k : JobId}
    {job : PushJob} (hjob : db.jobs.get k = some job) :
    (db.fileJob now new).jobs.get k = some job := by
  unfold fileJob
  dsimp only
  split
  · have hold : k < db.nextJob := hbelow k (by rw [hjob]; exact Option.some_ne_none _)
    rw [Table.get_set, if_neg (Nat.ne_of_lt hold), hjob]
  · exact hjob

theorem Db.kept_fileJobs {db : Db} {now : Time} (hbelow : JobsBelow db) (rows : List NewJob)
    {k : JobId} {job : PushJob} (hjob : db.jobs.get k = some job) :
    (db.fileJobs now rows).jobs.get k = some job := by
  unfold fileJobs
  induction rows generalizing db with
  | nil => exact hjob
  | cons new rest ih => exact ih (jobsBelow_fileJob hbelow new) (kept_fileJob hbelow new hjob)

/-- What a transaction makes of the jobs it does not handle: none becomes claimed, a claimed one
stays as it is or is no longer claimed, and no check guards a new one. -/
structure Db.Aside (db db' : Db) : Prop where
  kept : ∀ k job, db.jobs.get k = some job → ∃ job', db'.jobs.get k = some job' ∧
    job'.needsCheck = job.needsCheck ∧ (job'.status = .processing → job' = job)
  new : ∀ k job', db'.jobs.get k = some job' → db.jobs.get k = none →
    job'.status ≠ .processing ∧ job'.needsCheck = false

namespace Db.Aside

variable {db db' db'' : Db} {now : Time}

theorem refl (db : Db) : db.Aside db where
  kept := fun _ job hjob => ⟨job, hjob, rfl, fun _ => rfl⟩
  new := fun _ _ hjob hnone => by
    rw [hjob] at hnone
    cases hnone

theorem trans (h : db.Aside db') (h' : db'.Aside db'') : db.Aside db'' where
  kept := fun k job hjob => by
    obtain ⟨job', hjob', hneeds, hsame⟩ := h.kept k job hjob
    obtain ⟨job'', hjob'', hneeds', hsame'⟩ := h'.kept k job' hjob'
    refine ⟨job'', hjob'', hneeds'.trans hneeds, fun hstatus => ?_⟩
    obtain rfl := hsame' hstatus
    exact hsame hstatus
  new := fun k job'' hjob'' hnone => by
    cases hjob' : db'.jobs.get k with
    | none => exact h'.new k job'' hjob'' hjob'
    | some job' =>
      obtain ⟨hstatus, hunguarded⟩ := h.new k job' hjob' hnone
      obtain ⟨job₂, hjob₂, hneeds, hsame⟩ := h'.kept k job' hjob'
      obtain rfl : job'' = job₂ := Option.some.inj (hjob''.symm.trans hjob₂)
      exact ⟨fun hclaimed => hstatus (hsame hclaimed ▸ hclaimed), hneeds.trans hunguarded⟩

theorem modifyJobs {f : JobId → PushJob → PushJob}
    (hf : ∀ k job, (f k job).needsCheck = job.needsCheck ∧
      ((f k job).status = .processing → f k job = job)) : db.Aside (db.modifyJobs f) where
  kept := fun k job hjob =>
    ⟨f k job, by rw [Db.modifyJobs, Table.get_modify, hjob, Option.map_some], hf k job⟩
  new := fun k job' hjob' hnone => by
    rw [Db.modifyJobs, Table.get_modify, hnone] at hjob'
    cases hjob'

theorem cancelPending (p : JobId → PushJob → Bool) : db.Aside (db.cancelPending now p) := by
  refine modifyJobs fun k job => ?_
  unfold cancelRow
  split
  · exact ⟨rfl, fun h => nomatch h⟩
  · exact ⟨rfl, fun _ => rfl⟩

/-- An end that is moved to now waits. -/
theorem accelerateEnd (new : NewJob) :
    db.Aside (db.modifyJobs fun _ => Db.accelerateEnd now new) := by
  refine modifyJobs fun k job => ?_
  unfold Db.accelerateEnd
  split
  · exact ⟨rfl, fun h => nomatch h⟩
  · exact ⟨rfl, fun _ => rfl⟩

theorem fileJob (hbelow : JobsBelow db) {new : NewJob}
    (hnew : (new.row now).needsCheck = false) : db.Aside (db.fileJob now new) where
  kept := fun _ job hjob => ⟨job, kept_fileJob hbelow new hjob, rfl, fun _ => rfl⟩
  new := fun k job' hjob' hnone => by
    unfold Db.fileJob at hjob'
    dsimp only at hjob'
    split at hjob'
    · rw [Table.get_set] at hjob'
      split at hjob'
      · obtain rfl := Option.some.inj hjob'
        exact ⟨PushJobStatus.noConfusion, hnew⟩
      · rw [hnone] at hjob'
        cases hjob'
    · rw [hnone] at hjob'
      cases hjob'

/-- No check guards an end. -/
theorem endRunningActivities (hbelow : JobsBelow db) (userId : UserId)
    (ends : List RunningActivity) :
    db.Aside (db.endRunningActivities now (ends.map (endJob userId now))) := by
  unfold Db.endRunningActivities
  induction ends generalizing db with
  | nil => exact refl db
  | cons activity rest ih =>
    have hmoved := jobsBelow_modifyJobs hbelow fun _ => Db.accelerateEnd now (endJob userId now activity)
    exact ((accelerateEnd _).trans (fileJob hmoved rfl)).trans
      (ih (jobsBelow_fileJob hmoved _))

theorem cancelForSubmitted (hbelow : JobsBelow db) (userId : UserId) (ids : List MoodleId)
    (skip : JobId → Bool) (userId' : UserId) (ends : List RunningActivity) :
    db.Aside (db.cancelForSubmitted userId ids skip now (ends.map (endJob userId' now))) :=
  (cancelPending _).trans (endRunningActivities (jobsBelow_cancelPending hbelow _) userId' ends)

end Db.Aside

/-- What the transaction of one job makes of the jobs. -/
structure Db.Handles (j : JobId) (db db' : Db) : Prop where
  others : ∀ k job, k ≠ j → db.jobs.get k = some job → ∃ job', db'.jobs.get k = some job' ∧
    job'.needsCheck = job.needsCheck ∧ (job'.status = .processing → job' = job)
  own : ∀ job, db.jobs.get j = some job → ∃ job', db'.jobs.get j = some job' ∧
    job'.needsCheck = job.needsCheck ∧ job'.status ≠ .processing
  /-- Only a job that a check guards leaves new ones behind, and no check guards these. -/
  new : ∀ k job', db'.jobs.get k = some job' → db.jobs.get k = none →
    job'.status ≠ .processing ∧ job'.needsCheck = false ∧
      ∃ job, db.jobs.get j = some job ∧ job.needsCheck = true

namespace Db.Handles

variable {db db' db'' : Db} {j : JobId}

/-- The row itself, then what goes with it. -/
theorem of_updateJob {f : PushJob → PushJob} (hf : ∀ job, db.jobs.get j = some job →
      job.Handled (f job)) (haside : (db.updateJob j f).Aside db')
    (hnew : db' = db.updateJob j f ∨ ∃ job, db.jobs.get j = some job ∧ job.needsCheck = true) :
    db.Handles j db' where
  others := fun k job hk hjob => haside.kept k job (by
    rw [Db.updateJob, Db.modifyJobs, Table.get_modify, hjob, Option.map_some, if_neg hk])
  own := fun job hjob => by
    obtain ⟨job', hjob', hneeds, hsame⟩ := haside.kept j (f job) (by
      rw [Db.updateJob, Db.modifyJobs, Table.get_modify, hjob, Option.map_some, if_pos rfl])
    refine ⟨job', hjob', hneeds.trans (hf job hjob).needsCheck, fun hclaimed => ?_⟩
    exact (hf job hjob).status (hsame hclaimed ▸ hclaimed)
  new := fun k job' hjob' hnone => by
    have hbefore : (db.updateJob j f).jobs.get k = none := by
      rw [Db.updateJob, Db.modifyJobs, Table.get_modify, hnone, Option.map_none]
    obtain ⟨hstatus, hneeds⟩ := haside.new k job' hjob' hbefore
    refine ⟨hstatus, hneeds, hnew.resolve_left ?_⟩
    rintro rfl
    rw [hbefore] at hjob'
    cases hjob'

theorem crashJob (cfg : Settings) (now : Time) : db.Handles j (db.crashJob cfg j now) := by
  refine of_updateJob (fun job _ => ?_) (.refl _) (.inl rfl)
  by_cases hclaimed : job.status = .processing
  · rw [if_pos hclaimed]
    exact PushJob.crash_handled cfg job now
  · rw [if_neg hclaimed]
    exact ⟨.refl job, hclaimed⟩

/-- Only a check's verdict finds an assignment submitted. -/
theorem processJob {cfg : Settings} {tick : Tick} {check : Option PresendCheck} {now : Time}
    {round : Round} {skip : JobId → Bool} {userId : UserId} {ends : List RunningActivity}
    (hbelow : JobsBelow db)
    (hclaimed : ∀ job, db.jobs.get j = some job → job.status = .processing →
      job.lockedBy = some tick.workerId)
    (hcheck : check ≠ none → ∀ job, db.jobs.get j = some job → job.needsCheck = true) :
    db.Handles j (db.processJob cfg tick j check now round skip
      (ends.map (endJob userId now))) := by
  unfold Db.processJob
  cases hjob : db.jobs.get j with
  | none =>
    -- No row, no write.
    refine ⟨fun k job _ hk => ⟨job, hk, rfl, fun _ => rfl⟩, fun job hj => ?_, fun k job' hk hnone => ?_⟩
    · rw [hjob] at hj
      cases hj
    · rw [hnone] at hk
      cases hk
  | some job =>
    have hrow : ∀ job', db.jobs.get j = some job' →
        job'.Handled (job.process cfg tick.workerId now check round).1 := by
      intro job' hjob'
      obtain rfl : job = job' := Option.some.inj (hjob.symm.trans hjob')
      exact PushJob.process_handled cfg job tick.workerId now check round (hclaimed job hjob)
    dsimp only
    split
    next id hsubmitted =>
      have hverdict : check ≠ none := by
        rintro rfl
        simp only [PushJob.process] at hsubmitted
        split at hsubmitted <;> try cases hsubmitted
        split at hsubmitted <;> cases hsubmitted
      refine of_updateJob hrow ?_ (.inr ⟨job, hjob, hcheck hverdict job hjob⟩)
      exact .cancelForSubmitted (jobsBelow_modifyJobs hbelow _) _ _ _ _ _
    next => exact of_updateJob hrow (.refl _) (.inl rfl)

end Db.Handles

namespace PushTick

variable {cfg : Settings} {s : PushTick} {a : Answer} {c : Claimed}

/-- The transaction of a claimed job. -/
theorem handle_handles (hbelow : JobsBelow s.db)
    (hclaimed : ∀ job, s.db.jobs.get c.jobId = some job → job.status = .processing →
      job.lockedBy = some s.tick.workerId)
    (hcheck : c.check = .asked → ∀ job, s.db.jobs.get c.jobId = some job → job.needsCheck = true) :
    s.db.Handles c.jobId (s.handle cfg a c) := by
  unfold handle
  split
  · exact .crashJob cfg a.now
  · refine .processJob hbelow hclaimed fun hverdict => hcheck ?_
    by_contra hnot
    exact hverdict (if_neg hnot)

theorem handle_below (hbelow : JobsBelow s.db) : JobsBelow (s.handle cfg a c) := by
  unfold handle
  split
  · exact Db.jobsBelow_modifyJobs hbelow _
  · have hleads : s.db.Leads cfg (s.db.processJob cfg s.tick c.jobId
        (if c.check = .asked then a.check else none) a.now a.round a.locked
        (a.ends.map (endJob (((s.db.jobs.get c.jobId).map (·.userId)).getD 0) a.now))) :=
      .processJob
    exact hleads.below hbelow

end PushTick

end TigerDuck.Push
