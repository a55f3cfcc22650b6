import TigerDuck.Push.EndJobRows

/-!
# The keys of end jobs

What holds of the jobs at all times, and what a register makes of them: a finished end job gives
the activity's key up for one of its own, a waiting one takes the new time, and where there is none
one is filed.

- `EndKeys`: what holds of the jobs.
- `Db.upsertEndJob_eq`: the statements of a register and the pipeline's one transaction.
- `EndKeys.registerLiveActivity`: a register keeps the invariant.
-/

namespace TigerDuck.Push

open Relational

/-! ### What holds of the jobs -/

/-- What holds of the jobs: end jobs go to their activities, and the keys of the finished ones are
their own. -/
structure EndKeys (db : Db) : Prop where
  below : JobsBelow db
  unique : db.KeysUnique
  shape : ∀ j job, db.jobs.get j = some job → job.EndShape
  retired : ∀ j job, db.jobs.get j = some job → ∀ deviceId activityId k,
    job.dedupeKey = .finished deviceId activityId k → k = j

namespace EndKeys

variable {db db' : Db} {now : Time}

theorem initial : EndKeys Db.initial where
  below := fun _ hsome => absurd rfl hsome
  unique := fun _ _ _ _ hjob => nomatch hjob
  shape := fun _ _ hjob => nomatch hjob
  retired := fun _ _ hjob => nomatch hjob

theorem sides (h : EndKeys db) (hsides : db.Sides db') : EndKeys db' where
  below := hsides.below
  unique := hsides.unique h.unique
  shape := fun j job' hjob' => by
    rcases hsides.rows j job' hjob' with ⟨job, hjob, hside⟩ | ⟨-, hfresh⟩
    · exact hside.endShape (h.shape j job hjob)
    · exact hfresh.shape
  retired := fun j job' hjob' deviceId activityId k hkey => by
    rcases hsides.rows j job' hjob' with ⟨job, hjob, hside⟩ | ⟨-, hfresh⟩
    · exact h.retired j job hjob deviceId activityId k (hside.dedupeKey ▸ hkey)
    · exact absurd hkey (hfresh.notRetired deviceId activityId k)

/-- Rows rewritten under their keys. -/
theorem modifyJobs (h : EndKeys db) {f : JobId → PushJob → PushJob}
    (hf : ∀ k job, db.jobs.get k = some job →
      (f k job).userId = job.userId ∧ (f k job).dedupeKey = job.dedupeKey ∧
        ((f k job).status.dedupeActive = true → job.status.dedupeActive = true) ∧
          (job.EndShape → (f k job).EndShape)) : EndKeys (db.modifyJobs f) := by
  have hget (j : JobId) (job' : PushJob) (hjob' : (db.modifyJobs f).jobs.get j = some job') :
      ∃ job, db.jobs.get j = some job ∧ job' = f j job := by
    rw [Db.modifyJobs, Table.get_modify] at hjob'
    obtain ⟨job, hjob, heq⟩ := Option.map_eq_some_iff.mp hjob'
    exact ⟨job, hjob, heq.symm⟩
  refine ⟨Db.jobsBelow_modifyJobs h.below f, ?_, ?_, ?_⟩
  · intro j j' job job' hjob hjob' huser hkey hactive hactive'
    obtain ⟨old, hold, rfl⟩ := hget j job hjob
    obtain ⟨old', hold', rfl⟩ := hget j' job' hjob'
    obtain ⟨huser₁, hkey₁, hactive₁, -⟩ := hf j old hold
    obtain ⟨huser₂, hkey₂, hactive₂, -⟩ := hf j' old' hold'
    exact h.unique j j' old old' hold hold' (huser₁ ▸ huser₂ ▸ huser) (hkey₁ ▸ hkey₂ ▸ hkey)
      (hactive₁ hactive) (hactive₂ hactive')
  · intro j job hjob
    obtain ⟨old, hold, rfl⟩ := hget j job hjob
    exact (hf j old hold).2.2.2 (h.shape j old hold)
  · intro j job hjob deviceId activityId k hkey
    obtain ⟨old, hold, rfl⟩ := hget j job hjob
    exact h.retired j old hold deviceId activityId k ((hf j old hold).2.1 ▸ hkey)

/-- The job a round has processed. -/
theorem updateProcessed (h : EndKeys db) {cfg : Settings} {j : JobId} {job : PushJob}
    (hjob : db.jobs.get j = some job) (workerId : String) (check : Option PresendCheck)
    (round : Round) :
    EndKeys (db.updateJob j fun _ => (job.process cfg workerId now check round).1) := by
  refine h.modifyJobs fun k row hrow => ?_
  by_cases hk : k = j
  · obtain rfl : row = job := Option.some.inj (hrow.symm.trans (hk ▸ hjob))
    have hsame := PushJob.process_sameRow cfg row workerId now check round
    rw [if_pos hk]
    exact ⟨hsame.userId, hsame.dedupeKey, PushJob.process_active, hsame.endShape⟩
  · rw [if_neg hk]
    exact ⟨rfl, rfl, id, id⟩

theorem deleteDevice (h : EndKeys db) (deviceId : DeviceId) :
    EndKeys (db.modifyJobs fun _ => Db.withoutDevice deviceId) :=
  h.modifyJobs fun _ _ _ => ⟨rfl, rfl, id, id⟩

end EndKeys

theorem RegisterRequest.isHolder_iff (request : RegisterRequest) {job : PushJob} :
    request.isHolder job = true ↔ job.userId = request.userId ∧ job.dedupeKey = request.endKey ∧
      job.status.dedupeActive = true := by
  simp only [isHolder, Bool.and_eq_true, decide_eq_true_eq, and_assoc]

theorem RegisterRequest.endJob_fits (request : RegisterRequest) : request.endJob.Fits where
  shape := fun deviceId activityId hkey => by
    obtain ⟨rfl, rfl⟩ := DedupeKey.activityEnd.inj hkey
    exact ⟨rfl, rfl, rfl, rfl⟩
  notRetired := fun _ _ _ hkey => nomatch hkey

/-- A job as a register leaves it: another one, one that gives the key up, or one that takes the
new time. -/
inductive Registered (request : RegisterRequest) (j : JobId) (job : PushJob) : PushJob → Prop
  | other (h : request.isHolder job = false) : Registered request j job job
  | retired (h : request.isHolder job = true) (hfinished : job.Finished) :
      Registered request j job
        { job with dedupeKey := .finished request.deviceId request.activityId j }
  | moved (h : request.isHolder job = true) (hwaiting : job.Waiting) :
      Registered request j job
        { job with
          fireAt := request.countdownTarget
          priority := LIVE_ACTIVITY_JOB_PRIORITY
          payload := request.endJob.payload
          status := .pending }

namespace Db

variable {db : Db} {now : Time} {request : RegisterRequest}

theorem registered (request : RegisterRequest) (k : JobId) (job : PushJob) :
    Registered request k job (registeredRow request.endJob k job) := by
  unfold registeredRow
  split
  next hother =>
    refine .other (Bool.eq_false_iff.mpr fun hholder => ?_)
    obtain ⟨huser, hkey, -⟩ := request.isHolder_iff.mp hholder
    exact hother.elim (absurd huser) (absurd hkey)
  next hkey =>
    obtain ⟨huser, hkey⟩ := not_or.mp hkey
    have hholder (hactive : job.Waiting ∨ job.Finished) : request.isHolder job = true :=
      request.isHolder_iff.mpr
        ⟨not_not.mp huser, not_not.mp hkey, PushJob.active_iff.mpr hactive⟩
    split
    next hfinished =>
      rw [not_not.mp hkey]
      exact .retired (hholder (.inr hfinished)) hfinished
    next hunfinished =>
      split
      next hwaiting => exact .moved (hholder (.inl hwaiting)) hwaiting
      next hended =>
        refine .other (Bool.eq_false_iff.mpr fun hholder => ?_)
        rcases PushJob.active_iff.mp (request.isHolder_iff.mp hholder).2.2 with hwaiting | hfinished
        · exact hended hwaiting
        · exact hunfinished hfinished

theorem registeredRow_of_not_holder {k : JobId} {job : PushJob}
    (h : request.isHolder job = false) : registeredRow request.endJob k job = job := by
  have hregistered := registered request k job
  generalize registeredRow request.endJob k job = row at hregistered ⊢
  cases hregistered with
  | other => rfl
  | retired hholder => rw [h] at hholder; cases hholder
  | moved hholder => rw [h] at hholder; cases hholder

theorem retiredRow_of_unfinished {held : List JobId} {k : JobId} {job : PushJob}
    (h : k ∈ held → ¬ job.Finished) : retiredRow held k job = job := by
  unfold retiredRow
  rw [if_neg fun hrenamed => h (List.contains_iff_mem.mp hrenamed.1) hrenamed.2]

theorem movedRow_of_not_holder {job : PushJob} (h : request.isHolder job = false) :
    movedRow request.endJob job = job := by
  unfold movedRow
  rw [if_neg]
  rintro ⟨huser, hkey, hwaiting⟩
  refine absurd (request.isHolder_iff.mpr ⟨huser, hkey, ?_⟩) (by rw [h]; exact Bool.false_ne_true)
  exact PushJob.active_iff.mpr (.inl hwaiting)

/-- Where a register holds each finished job of the key, and no other job, its statements come to
the one transaction of the pipeline's machine. -/
theorem upsertEndJob_eq {held : List JobId}
    (hheld : ∀ k ∈ held, ∀ job, db.jobs.get k = some job → request.isHolder job = true)
    (hfinished : ∀ k job, db.jobs.get k = some job → request.isHolder job = true →
      job.Finished → k ∈ held) :
    db.upsertEndJob held now request.endJob = db.registerLiveActivity now request.endJob := by
  have hrow : ((db.modifyJobs (retiredRow held)).modifyJobs fun _ => movedRow request.endJob) =
      db.modifyJobs (registeredRow request.endJob) := by
    unfold modifyJobs
    dsimp only
    rw [Table.modify_modify]
    refine congrArg (fun jobs => { db with jobs }) (Table.modify_congr fun k job hjob => ?_)
    have hregistered := registered request k job
    generalize registeredRow request.endJob k job = row at hregistered ⊢
    cases hregistered with
    | other hother =>
      have hkept : retiredRow held k job = job := by
        refine retiredRow_of_unfinished fun hmem _ => ?_
        rw [hheld k hmem job hjob] at hother
        cases hother
      rw [hkept, movedRow_of_not_holder hother]
    | retired hholder hended =>
      have hkey := (request.isHolder_iff.mp hholder).2.1
      have hrenamed : retiredRow held k job =
          { job with dedupeKey := .finished request.deviceId request.activityId k } := by
        unfold retiredRow
        rw [if_pos ⟨List.contains_iff_mem.mpr (hfinished k job hjob hholder hended), hended⟩, hkey]
        rfl
      rw [hrenamed]
      refine movedRow_of_not_holder (Bool.eq_false_iff.mpr fun hsame => ?_)
      exact DedupeKey.noConfusion (request.isHolder_iff.mp hsame).2.1
    | moved hholder hwaiting =>
      obtain ⟨huser, hkey, -⟩ := request.isHolder_iff.mp hholder
      rw [retiredRow_of_unfinished fun _ => hwaiting.not_finished, movedRow,
        if_pos ⟨huser, hkey, hwaiting⟩]
      rfl
  rw [upsertEndJob, hrow]
  rfl

theorem get_registered {j : JobId} {job' : PushJob}
    (h : (db.modifyJobs (registeredRow request.endJob)).jobs.get j = some job') :
    ∃ job, db.jobs.get j = some job ∧ Registered request j job job' := by
  rw [modifyJobs, Table.get_modify] at h
  obtain ⟨job, hjob, rfl⟩ := Option.map_eq_some_iff.mp h
  exact ⟨job, hjob, registered request j job⟩

/-- The rows after `register_live_activity`. -/
theorem registered_rows {j : JobId} {job' : PushJob}
    (h : (db.registerLiveActivity now request.endJob).jobs.get j = some job') :
    (∃ job, db.jobs.get j = some job ∧ Registered request j job job') ∨
      j = db.nextJob ∧ job' = request.endJob.row now := by
  unfold registerLiveActivity at h
  by_cases hholds : (db.modifyJobs (registeredRow request.endJob)).Holds request.endJob.userId
      request.endJob.dedupeKey
  · rw [fileJob_of_holds hholds] at h
    exact .inl (get_registered h)
  · rw [fileJob_of_not_holds hholds, Table.get_set] at h
    split at h
    next hj => exact .inr ⟨hj, (Option.some.inj h).symm⟩
    next => exact .inl (get_registered h)

/-- A job that is there stays. -/
theorem registered_kept (hbelow : JobsBelow db) {j : JobId} {job : PushJob}
    (hjob : db.jobs.get j = some job) :
    (db.registerLiveActivity now request.endJob).jobs.get j =
      some (registeredRow request.endJob j job) := by
  refine kept_fileJob (jobsBelow_modifyJobs hbelow _) _ ?_
  rw [modifyJobs, Table.get_modify, hjob, Option.map_some]

end Db

theorem EndKeys.registerLiveActivity {db : Db} (h : EndKeys db) (request : RegisterRequest)
    (now : Time) : EndKeys (db.registerLiveActivity now request.endJob) := by
  have hmodified : EndKeys (db.modifyJobs (Db.registeredRow request.endJob)) := by
    refine ⟨Db.jobsBelow_modifyJobs h.below _, ?_, ?_, ?_⟩
    · intro j j' job job' hjob hjob' huser hkey hactive hactive'
      obtain ⟨old, hold, hrow⟩ := Db.get_registered hjob
      obtain ⟨old', hold', hrow'⟩ := Db.get_registered hjob'
      -- A key given up is of the row alone, and the others are as they were.
      cases hrow with
      | retired hholder hfinished =>
        cases hrow' with
        | retired => exact (DedupeKey.finished.inj hkey).2.2
        | other =>
          exact h.retired j' _ hold' _ _ j hkey.symm
        | moved hholder' =>
          rw [(request.isHolder_iff.mp hholder').2.1] at hkey
          cases hkey
      | other hother =>
        cases hrow' with
        | retired hholder hfinished => exact (h.retired j _ hold _ _ j' hkey).symm
        | other => exact h.unique j j' _ _ hold hold' huser hkey hactive hactive'
        | moved hholder' =>
          exact h.unique j j' _ _ hold hold' huser hkey hactive
            (request.isHolder_iff.mp hholder').2.2
      | moved hholder =>
        have hactive₀ := (request.isHolder_iff.mp hholder).2.2
        cases hrow' with
        | retired =>
          rw [(request.isHolder_iff.mp hholder).2.1] at hkey
          cases hkey
        | other => exact h.unique j j' _ _ hold hold' huser hkey hactive₀ hactive'
        | moved hholder' =>
          exact h.unique j j' _ _ hold hold' huser hkey hactive₀
            (request.isHolder_iff.mp hholder').2.2
    · intro j job hjob
      obtain ⟨old, hold, hrow⟩ := Db.get_registered hjob
      cases hrow with
      | other => exact h.shape j _ hold
      | retired => exact fun _ _ hkey => DedupeKey.noConfusion hkey
      | moved hholder =>
        intro deviceId activityId hkey
        have hend := (h.shape j _ hold deviceId activityId hkey).1
        have hsame : request.endKey = .activityEnd deviceId activityId :=
          (request.isHolder_iff.mp hholder).2.1.symm.trans hkey
        simp only [PushJob.isEnd, Bool.and_eq_true] at hend ⊢
        obtain ⟨-, rfl⟩ := DedupeKey.activityEnd.inj hsame
        exact ⟨⟨hend.1, rfl⟩, rfl⟩
    · intro j job hjob deviceId activityId k hkey
      obtain ⟨old, hold, hrow⟩ := Db.get_registered hjob
      cases hrow with
      | retired => exact (DedupeKey.finished.inj hkey).2.2.symm
      | other => exact h.retired j _ hold deviceId activityId k hkey
      | moved => exact h.retired j _ hold deviceId activityId k hkey
  exact hmodified.sides (.fileJob hmodified.below request.endJob_fits)

end TigerDuck.Push
