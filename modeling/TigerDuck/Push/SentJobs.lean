import TigerDuck.Push.Writes

/-!
# Cancelled jobs and sent deliveries

Whether a job that was cancelled had reached a device. `_materialize` cancels only before the
first delivery; the scans, a submission, a schedule sync, the pre-send check and the session
reauth take any waiting or claimed job, also one between two rounds.

## Main results

- `cancelled_never_sent`: the runs in which no cancelled job has a sent delivery are exactly
  those in which none of these takes a job with a sent delivery.
- `submission_cancels_sent`: a reminder sent to one of two devices is cancelled between its
  rounds.
-/

namespace TigerDuck.Push

open Relational Transition
open SyncJobs (MoodleId)

/-- A cancelled job has no delivery committed as sent. -/
def PushJob.Sound (job : PushJob) : Prop := job.status = .cancelled → ¬ job.HasSent

instance (job : PushJob) : Decidable job.Sound := inferInstanceAs (Decidable (_ → _))

/-- No cancelled job was sent. -/
def NoneSentCancelled (db : Db) : Prop := ∀ j, ∀ job ∈ db.jobs.get j, job.Sound

/-- Whether the pre-send check cancels the job it was asked about. -/
def PushJob.checkCancels (cfg : Settings) (job : PushJob) (now : Time) (check : PresendCheck)
    (round : Round) : Bool :=
  match (job.finalCheck cfg now check round.rowsVerdict).verdict with
  | .send => false
  | .submitted | .gone => true
  | .unverified => decide (job.graceEnd cfg ≤ now)

/-- Whether the round asks one device to sign in that no longer needs to. -/
def PushJob.staleReauth (job : PushJob) (round : Round) : Bool :=
  job.isSessionReauth && (job.deviceId.bind fun _ => round.announcedAt).isNone &&
    !(decide (job.deviceId = none) && (decide (job.channel = .schedule) || decide (job.channel = .custom)))

/-- Whether the pre-send check lets the round begin. -/
def PushJob.goesOn (cfg : Settings) (job : PushJob) (now : Time) (round : Round) :
    Option PresendCheck → Bool
  | some check => decide ((job.finalCheck cfg now check round.rowsVerdict).verdict = .send)
  | none => !(job.needsCheck && !job.hasDeliveries)

/-- Whether a claimed job is cancelled whatever its deliveries are. -/
def PushJob.cancelsClaimed (cfg : Settings) (job : PushJob) (now : Time)
    (check : Option PresendCheck) (round : Round) : Bool :=
  (check.any fun check => job.checkCancels cfg now check round) ||
    (job.goesOn cfg now round check && job.staleReauth round)

/-- The job a tick processes next, while its claim is still the worker's, with its check. -/
def Db.processed (db : Db) (t : TickId) : Option (JobId × PushJob × Option PresendCheck) :=
  (db.ticks t).bind fun tick => tick.batch.head?.bind fun c => c.check.result.bind fun check =>
    (db.jobs.get c.jobId).bind fun job =>
      if job.status = .processing ∧ job.lockedBy = some tick.workerId then
        some (c.jobId, job, check)
      else none

/-- The assignment a processed job's check found submitted, with the job's user. -/
def Db.foundSubmitted (cfg : Settings) (db : Db) (t : TickId) (now : Time) (round : Round) :
    Option (UserId × MoodleId) :=
  (db.processed t).bind fun (_, job, check) => check.bind fun check =>
    let final := job.finalCheck cfg now check round.rowsVerdict
    if final.verdict = .submitted then final.moodleAssignmentId.map (job.userId, ·) else none

/-- The waiting jobs a transaction cancels whatever their deliveries are. -/
def Db.takes (cfg : Settings) (db : Db) : Label → JobId → PushJob → Bool
  | .scanAssignmentReminders validKeys _ skip _ => Db.isUnwanted .assignment validKeys skip
  | .scanCourseReminders validKeys _ skip _ => Db.isUnwanted .course validKeys skip
  | .cancelForSubmitted userId ids skip _ _ => Db.isReminderOf userId ids skip
  | .syncSchedule userId deviceId events skip now =>
    Db.isReplaced userId deviceId events skip now
  | .cancelSchedule userId deviceId sourceId skip _ =>
    Db.isCancelled userId deviceId sourceId skip
  | .process t now round skip _ => fun k job =>
    (db.foundSubmitted cfg t now round).any fun found =>
      Db.isReminderOf found.1 [found.2] skip k job
  | _ => fun _ _ => false

/-- None of the jobs a transaction cancels whatever their deliveries are has a delivery
committed as sent. -/
def CancelsUnsent (cfg : Settings) (db : Db) (l : Label) : Prop :=
  (∀ j, ∀ job ∈ db.jobs.get j, job.status = .pending → db.takes cfg l j job = true →
      ¬ job.HasSent) ∧
    match l with
    | .process t now round _ _ =>
      ∀ p ∈ db.processed t, p.2.1.cancelsClaimed cfg now p.2.2 round = true → ¬ p.2.1.HasSent
    | _ => True

/-! ### What one transaction makes of one job -/

namespace PushJob

variable {cfg : Settings} {job : PushJob} {now : Time} {round : Round}

/-- A job that is not cancelled is sound. -/
theorem sound_of_ne (h : job.status ≠ .cancelled) : job.Sound := fun hc => absurd hc h

/-- A job without deliveries is sound. -/
theorem sound_of_noDeliveries (h : job.hasDeliveries = false) : job.Sound := by
  rintro _ ⟨d, hd, _⟩
  have hnil : job.deliveries = [] := by simpa [hasDeliveries] using h
  rw [hnil] at hd
  cases hd

/-- What keeps the status and the sent deliveries keeps a job sound. -/
theorem Sound.of_eq {job' : PushJob} (h : job.Sound) (hstatus : job'.status = job.status)
    (hdeliveries : job'.deliveries = job.deliveries) : job'.Sound := by
  unfold Sound HasSent at *
  rw [hstatus, hdeliveries]
  exact h

/-- Skipping what is pending sends and unsends nothing. -/
theorem hasSent_map {f : PushDelivery → PushDelivery} (hf : ∀ d, (f d).status = .sent ↔ d.status = .sent)
    (deliveries : List PushDelivery) :
    (∃ d ∈ deliveries.map f, d.status = .sent) ↔ ∃ d ∈ deliveries, d.status = .sent := by
  simp [hf]

theorem skipPending_sent_iff (code : String) (d : PushDelivery) :
    (skipPending code d).status = .sent ↔ d.status = .sent := by
  unfold skipPending
  split
  next hpending => simp [hpending]
  next => rfl

theorem recoverStale_status_ne : (job.recoverStale cfg now).status ≠ .cancelled := by
  unfold recoverStale
  dsimp only
  split <;> exact PushJobStatus.noConfusion

theorem crash_status_ne : (job.crash cfg now).status ≠ .cancelled := by
  unfold crash
  dsimp only
  split <;> exact PushJobStatus.noConfusion

theorem aggregate_status_ne (deliveries : List PushDelivery) :
    (job.aggregate now deliveries).status ≠ .cancelled := by
  unfold aggregate
  dsimp only
  split
  · exact PushJobStatus.noConfusion
  · split <;> exact PushJobStatus.noConfusion

/-- A round never cancels. -/
theorem deliverRound_status_ne : (job.deliverRound cfg now round).status ≠ .cancelled := by
  unfold deliverRound
  dsimp only
  split
  · exact PushJobStatus.noConfusion
  · split
    · split
      · exact PushJobStatus.noConfusion
      · split
        · exact PushJobStatus.noConfusion
        · exact aggregate_status_ne _
    · exact aggregate_status_ne _

/-- The course changes' hold has no deliveries where it is asked before the first. -/
theorem heldByCourseChanges_deliveries {recheck : CourseRecheck} {held : PushJob}
    (h : job.heldByCourseChanges now recheck = some held) : held.deliveries = job.deliveries := by
  cases recheck with
  | unconfirmed => cases h; rfl
  | changed => cases h; rfl
  | begins delay =>
    simp only [heldByCourseChanges] at h
    split at h
    · cases h; rfl
    · cases h

/-- A hold of a Live Activity start comes before its first delivery. -/
theorem holdActivity_sound {held : PushJob} (h : job.holdActivity now round = some held) :
    held.Sound := by
  unfold holdActivity at h
  split at h
  · cases h
  split at h
  · cases h
    exact sound_of_ne PushJobStatus.noConfusion
  split at h
  · cases h
  next hfirst =>
    have hnone : job.hasDeliveries = false := by
      by_contra hsome
      exact hfirst (by simp [Bool.eq_true_of_not_eq_false hsome])
    have hkeeps : held.deliveries = job.deliveries := by
      dsimp only at h
      rcases Option.or_eq_some_iff.mp h with hclass | ⟨_, hregistered⟩
      · split at hclass
        · split at hclass
          · cases hclass; rfl
          · exact heldByCourseChanges_deliveries hclass
        · cases hclass
      · split at hregistered <;> cases hregistered
        rfl
    exact sound_of_noDeliveries (by rw [hasDeliveries, hkeeps]; exact hnone)

theorem holdCourse_sound {held : PushJob} (h : job.holdCourse now round = some held) :
    held.Sound := by
  unfold holdCourse at h
  split at h
  next hfirst =>
    have hkeeps := heldByCourseChanges_deliveries h
    exact sound_of_noDeliveries (by rw [hasDeliveries, hkeeps]; exact hfirst.2)
  · cases h

theorem holdSyncTrigger_sound {held : PushJob} (h : job.holdSyncTrigger round = some held) :
    held.Sound := by
  unfold holdSyncTrigger at h
  split at h
  · obtain ⟨last, _, rfl⟩ := Option.map_eq_some_iff.mp h
    exact sound_of_ne PushJobStatus.noConfusion
  · cases h

theorem holdForCountdown_sound {held : PushJob}
    (h : job.holdForCountdown cfg now round = some held) : held.Sound := by
  unfold holdForCountdown at h
  dsimp only at h
  split at h <;> cases h
  exact sound_of_ne PushJobStatus.noConfusion

/-- A job whose devices all rang already is cancelled before its first delivery. -/
theorem fileDeliveries_sound (hstatus : job.status ≠ .cancelled) :
    (job.fileDeliveries now round).1.Sound := by
  unfold fileDeliveries
  split
  next hnone =>
    split
    next hcovered =>
      have hfirst : job.hasDeliveries = false := by
        simp only [Bool.and_eq_true, firstRound, Bool.not_eq_true'] at hcovered
        exact hcovered.1.2
      exact sound_of_noDeliveries hfirst
    next => exact sound_of_ne hstatus
  next rows hrows => exact sound_of_ne hstatus

/-- The job after `_materialize` and the round, if it goes on. -/
def carryOut (cfg : Settings) (job : PushJob) (now : Time) (round : Round) : PushJob :=
  let (job, goes) := job.materialize cfg now round
  if goes then job.deliverRound cfg now round else job

/-- Settling a job as cancelled is sound exactly when it was not sent. -/
theorem settleCancelled_sound_iff (error : String) :
    (job.settleCancelled now error).Sound ↔ ¬ job.HasSent :=
  ⟨fun h => h rfl, fun h _ => h⟩

/-- Past the session reauth, what a round holds back or carries out is sound. -/
theorem carryOut_sound_of_goes (hstatus : job.status ≠ .cancelled) {held : Option PushJob}
    (hheld : ∀ job' ∈ held, job'.Sound) :
    (let r := match held with
      | some job => (job, false)
      | none => job.fileDeliveries now round
    if r.2 then r.1.deliverRound cfg now round else r.1).Sound := by
  cases held with
  | some job' => exact hheld job' rfl
  | none =>
    dsimp only
    cases (job.fileDeliveries now round).2 with
    | true => exact sound_of_ne deliverRound_status_ne
    | false => exact fileDeliveries_sound hstatus

/-- A round leaves its job sound unless it cancels a session reauth that was sent. -/
theorem carryOut_sound_iff (cfg : Settings) (now : Time) (round : Round)
    (hstatus : job.status ≠ .cancelled) :
    (job.carryOut cfg now round).Sound ↔ (job.staleReauth round = true → ¬ job.HasSent) := by
  unfold carryOut materialize staleReauth
  by_cases hgone : job.deviceId = none ∧ (job.channel = .schedule ∨ job.channel = .custom)
  · rw [if_pos hgone]
    have hguarded : (decide (job.deviceId = none) &&
        (decide (job.channel = .schedule) || decide (job.channel = .custom))) = true := by
      simpa using hgone
    rw [hguarded]
    simp only [Bool.not_true, Bool.and_false, Bool.false_eq_true, false_implies, iff_true]
    cases hhas : job.hasDeliveries with
    | true => exact sound_of_ne deliverRound_status_ne
    | false => exact sound_of_noDeliveries hhas
  · rw [if_neg hgone]
    have hguarded : (decide (job.deviceId = none) &&
        (decide (job.channel = .schedule) || decide (job.channel = .custom))) = false := by
      refine Bool.eq_false_iff.mpr fun h => hgone ?_
      simpa only [Bool.and_eq_true, Bool.or_eq_true, decide_eq_true_eq] using h
    rw [hguarded, Bool.not_false, Bool.and_true]
    -- What comes after the session reauth is sound whatever it decides.
    have hrest : ∀ job' ∈ (job.holdActivity now round).or ((job.holdCourse now round).or
        ((job.holdSyncTrigger round).or
          (if round.tokens = [] then none else job.holdForCountdown cfg now round))),
        job'.Sound := by
      intro job' h
      rcases Option.or_eq_some_iff.mp h with h | ⟨_, h⟩
      · exact holdActivity_sound h
      rcases Option.or_eq_some_iff.mp h with h | ⟨_, h⟩
      · exact holdCourse_sound h
      rcases Option.or_eq_some_iff.mp h with h | ⟨_, h⟩
      · exact holdSyncTrigger_sound h
      split at h
      · cases h
      · exact holdForCountdown_sound h
    unfold holdSessionReauth
    cases hreauth : job.isSessionReauth with
    | false =>
      simp only [Bool.false_eq_true, if_false, Option.none_or, Bool.false_and, false_implies,
        iff_true]
      exact carryOut_sound_of_goes hstatus hrest
    | true =>
      rw [if_pos rfl, Bool.true_and]
      cases hannounced : job.deviceId.bind fun _ => round.announcedAt with
      | none =>
        have hsame := hasSent_map (skipPending_sent_iff "stale_before_send") job.deliveries
        simp only [Option.some_or, Option.isNone_none, true_implies, Bool.false_eq_true, if_false]
        rw [settleCancelled_sound_iff]
        exact not_congr hsame
      | some announced =>
        simp only [Option.isNone_some, Bool.false_eq_true, false_implies, iff_true]
        refine carryOut_sound_of_goes hstatus fun job' h => ?_
        rcases Option.or_eq_some_iff.mp h with h | ⟨_, h⟩
        · obtain ⟨waits, _, rfl⟩ := Option.map_eq_some_iff.mp h
          exact sound_of_ne PushJobStatus.noConfusion
        · exact hrest job' h

/-- What `_process_job` makes of a job it still holds is sound unless it cancels a job that was
sent: the check or the session reauth cancel whatever its deliveries are. -/
theorem process_sound_iff {workerId : String} {check : Option PresendCheck}
    (hclaimed : job.status = .processing ∧ job.lockedBy = some workerId) :
    (job.process cfg workerId now check round).1.Sound ↔
      (job.cancelsClaimed cfg now check round = true → ¬ job.HasSent) := by
  have hstatus : job.status ≠ .cancelled := by
    rw [hclaimed.1]
    exact PushJobStatus.noConfusion
  have hgo := carryOut_sound_iff cfg now round hstatus
  unfold process cancelsClaimed goesOn
  rw [if_pos hclaimed]
  cases check with
  | none =>
    simp only [Option.any_none, Bool.false_or]
    cases hmissed : job.needsCheck && !job.hasDeliveries with
    | true =>
      simp only [if_true, Bool.not_true, Bool.false_and, Bool.false_eq_true, false_implies, iff_true]
      exact sound_of_ne PushJobStatus.noConfusion
    | false =>
      simp only [Bool.false_eq_true, if_false, Bool.not_false, Bool.true_and]
      exact hgo
  | some check =>
    simp only [Option.any_some, checkCancels]
    cases hverdict : (job.finalCheck cfg now check round.rowsVerdict).verdict with
    | send =>
      simp only [Bool.false_or, decide_true, Bool.true_and]
      exact hgo
    | submitted =>
      simp only [Bool.true_or, true_implies]
      exact settleCancelled_sound_iff _
    | gone =>
      simp only [Bool.true_or, true_implies]
      exact settleCancelled_sound_iff _
    | unverified =>
      simp only [reduceCtorEq, decide_false, Bool.false_and, Bool.or_false, decide_eq_true_eq,
        heldBack]
      split
      next hearly =>
        have hlate : ¬ job.graceEnd cfg ≤ now := Nat.not_le.mpr hearly
        simp only [hlate, false_implies, iff_true]
        exact sound_of_ne PushJobStatus.noConfusion
      next hlate =>
        simp only [Nat.not_lt.mp hlate, true_implies]
        exact settleCancelled_sound_iff _

end PushJob

/-! ### What one transaction makes of all jobs -/

namespace Db

variable {db : Db} {now : Time}

theorem noneSent_modifyJobs_iff (f : JobId → PushJob → PushJob) :
    NoneSentCancelled (db.modifyJobs f) ↔ ∀ j, ∀ job ∈ db.jobs.get j, (f j job).Sound := by
  simp only [NoneSentCancelled, modifyJobs, Table.get_modify, Option.mem_def,
    Option.map_eq_some_iff]
  constructor
  · exact fun h j job hjob => h j _ ⟨job, hjob, rfl⟩
  · rintro h j _ ⟨job, hjob, rfl⟩
    exact h j job hjob

/-- Rows rewritten to rows that are sound alike. -/
theorem noneSent_modifyJobs_of_iff {f : JobId → PushJob → PushJob}
    (hf : ∀ k job, (f k job).Sound ↔ job.Sound) :
    NoneSentCancelled (db.modifyJobs f) ↔ NoneSentCancelled db := by
  rw [noneSent_modifyJobs_iff]
  exact forall_congr' fun j => forall₂_congr fun job _ => hf j job

/-- Rows rewritten to sound rows. -/
theorem noneSent_modifyJobs {f : JobId → PushJob → PushJob} (h : NoneSentCancelled db)
    (hf : ∀ k job, job.Sound → (f k job).Sound) : NoneSentCancelled (db.modifyJobs f) :=
  (noneSent_modifyJobs_iff f).mpr fun j job hjob => hf j job (h j job hjob)

/-- Cancelling what waits is sound exactly when none of it was sent. -/
theorem noneSent_cancelPending_iff (p : JobId → PushJob → Bool) :
    NoneSentCancelled (db.cancelPending now p) ↔ NoneSentCancelled db ∧
      ∀ j, ∀ job ∈ db.jobs.get j, job.status = .pending → p j job = true → ¬ job.HasSent := by
  have hrow : ∀ j job, (cancelRow now p j job).Sound ↔
      job.Sound ∧ (job.status = .pending → p j job = true → ¬ job.HasSent) := by
    intro j job
    unfold cancelRow
    split
    next hpicked =>
      obtain ⟨hpending, hp⟩ := hpicked
      have hsound : job.Sound := PushJob.sound_of_ne (by rw [hpending]; exact nofun)
      simp only [hsound, hpending, hp, true_and, true_implies]
      exact ⟨fun h => h rfl, fun h _ => h⟩
    next hkept =>
      refine ⟨fun h => ⟨h, fun hpending hp => absurd ⟨hpending, hp⟩ hkept⟩, And.left⟩
  rw [cancelPending, noneSent_modifyJobs_iff]
  simp only [hrow]
  exact ⟨fun h => ⟨fun j job hjob => (h j job hjob).1, fun j job hjob => (h j job hjob).2⟩,
    fun h j job hjob => ⟨h.1 j job hjob, h.2 j job hjob⟩⟩

/-- A filed job is new and waits. -/
theorem noneSent_fileJob_iff (h : JobsBelow db) (new : NewJob) :
    NoneSentCancelled (db.fileJob now new) ↔ NoneSentCancelled db := by
  unfold fileJob
  dsimp only
  split
  · have hfresh : db.jobs.get db.nextJob = none := by
      by_contra hsome
      exact absurd (h _ hsome) (Nat.lt_irrefl _)
    unfold NoneSentCancelled
    simp only [Table.get_set]
    refine forall_congr' fun j => ?_
    by_cases hlast : j = db.nextJob
    · subst hlast
      simp only [if_true, hfresh, Option.mem_def, Option.some.injEq, forall_eq', reduceCtorEq,
        false_implies, implies_true, iff_true]
      exact PushJob.sound_of_ne nofun
    · rw [if_neg hlast]
  · rfl

theorem noneSent_fileJobs_iff (h : JobsBelow db) (rows : List NewJob) :
    NoneSentCancelled (db.fileJobs now rows) ↔ NoneSentCancelled db := by
  unfold fileJobs
  induction rows generalizing db with
  | nil => rfl
  | cons new rows ih =>
    rw [List.foldl_cons, ih (jobsBelow_fileJob h new), noneSent_fileJob_iff h new]

theorem accelerateEnd_sound_iff (new : NewJob) (job : PushJob) :
    (accelerateEnd now new job).Sound ↔ job.Sound := by
  unfold accelerateEnd
  split
  next hwaiting =>
    have hsound : job.Sound := by
      refine PushJob.sound_of_ne ?_
      rcases hwaiting.2.2 with h | h <;> (rw [h]; exact nofun)
    exact iff_of_true (PushJob.sound_of_ne nofun) hsound
  next => rfl

theorem noneSent_endRunningActivities_iff (h : JobsBelow db) (ends : List NewJob) :
    NoneSentCancelled (db.endRunningActivities now ends) ↔ NoneSentCancelled db := by
  unfold endRunningActivities
  induction ends generalizing db with
  | nil => rfl
  | cons new ends ih =>
    have hbelow := jobsBelow_modifyJobs h fun _ => accelerateEnd now new
    rw [List.foldl_cons, ih (jobsBelow_fileJob hbelow new), noneSent_fileJob_iff hbelow new,
      noneSent_modifyJobs_of_iff fun _ job => accelerateEnd_sound_iff new job]

theorem noneSent_cancelForSubmitted_iff (h : JobsBelow db) (userId : UserId) (ids : List MoodleId)
    (skip : JobId → Bool) (ends : List NewJob) :
    NoneSentCancelled (db.cancelForSubmitted userId ids skip now ends) ↔ NoneSentCancelled db ∧
      ∀ j, ∀ job ∈ db.jobs.get j, job.status = .pending → isReminderOf userId ids skip j job = true →
        ¬ job.HasSent := by
  rw [cancelForSubmitted, cancelPendingReminders,
    noneSent_endRunningActivities_iff (jobsBelow_cancelPending h _), noneSent_cancelPending_iff]

theorem noneSent_scanReminders_iff (h : JobsBelow db) (channel : Channel)
    (validKeys : List (UserId × DedupeKey)) (toFile : List NewJob) (skip : JobId → Bool) :
    NoneSentCancelled (scanReminders channel db validKeys toFile skip now) ↔
      NoneSentCancelled db ∧ ∀ j, ∀ job ∈ db.jobs.get j, job.status = .pending →
        isUnwanted channel validKeys skip j job = true → ¬ job.HasSent := by
  rw [scanReminders, noneSent_fileJobs_iff (jobsBelow_cancelPending h _),
    noneSent_cancelPending_iff]

theorem keptRow_sound_iff (userId : UserId) (deviceId : DeviceId) (events : List ScheduleEvent)
    (skip : JobId → Bool) (k : JobId) (job : PushJob) :
    (keptRow userId deviceId events skip k job).Sound ↔ job.Sound := by
  unfold keptRow
  split
  · cases incoming deviceId events job.dedupeKey <;> rfl
  · rfl

theorem noneSent_syncSchedule_iff (h : JobsBelow db) (userId : UserId) (deviceId : DeviceId)
    (events : List ScheduleEvent) (skip : JobId → Bool) :
    NoneSentCancelled (db.syncSchedule userId deviceId events skip now) ↔ NoneSentCancelled db ∧
      ∀ j, ∀ job ∈ db.jobs.get j, job.status = .pending →
        isReplaced userId deviceId events skip now j job = true → ¬ job.HasSent := by
  rw [syncSchedule,
    noneSent_fileJobs_iff (jobsBelow_modifyJobs (jobsBelow_cancelPending h _) _),
    noneSent_modifyJobs_of_iff (keptRow_sound_iff userId deviceId events skip),
    noneSent_cancelPending_iff]

/-! ### The rows the other writers touch -/

theorem registeredRow_sound {new : NewJob} {k : JobId} {job : PushJob} (h : job.Sound) :
    (registeredRow new k job).Sound := by
  unfold registeredRow
  split
  · exact h
  split
  · exact h.of_eq rfl rfl
  split
  · exact PushJob.sound_of_ne nofun
  · exact h

theorem rideRow_sound {sourceDeviceId : Option DeviceId} {job : PushJob} (h : job.Sound) :
    (rideRow sourceDeviceId job).Sound := by
  unfold rideRow
  split
  · exact h.of_eq rfl rfl
  · exact h

theorem syncedDelivery_sent_iff (deviceId : DeviceId) (d : PushDelivery) :
    (syncedDelivery deviceId d).status = .sent ↔ d.status = .sent := by
  unfold syncedDelivery
  split
  · exact PushJob.skipPending_sent_iff _ d
  · rfl

theorem syncedRow_sound {userId : UserId} {deviceId : DeviceId} {job : PushJob} (h : job.Sound) :
    (syncedRow userId deviceId job).Sound := by
  unfold syncedRow
  split
  · exact fun hstatus =>
      mt (PushJob.hasSent_map (syncedDelivery_sent_iff deviceId) _).mp (h hstatus)
  · exact h

theorem withoutDevice_sound {deviceId : DeviceId} {job : PushJob} (h : job.Sound) :
    (withoutDevice deviceId job).Sound :=
  fun hstatus => mt (PushJob.hasSent_map
    (f := fun d => { d with deviceId := d.deviceId.filter (· ≠ deviceId) }) (fun _ => Iff.rfl) _).mp
    (h hstatus)

theorem releasedRow_sound {workerId : String} {held : List JobId} {k : JobId} {job : PushJob}
    (h : job.Sound) : (releasedRow workerId held k job).Sound := by
  unfold releasedRow
  split
  · exact PushJob.sound_of_ne nofun
  · exact h

theorem noneSent_updateJob (h : NoneSentCancelled db) (j : JobId) {f : PushJob → PushJob}
    (hf : ∀ job, job.Sound → (f job).Sound) : NoneSentCancelled (db.updateJob j f) :=
  noneSent_modifyJobs h fun k job hjob => by
    split
    · exact hf job hjob
    · exact hjob

theorem noneSent_crashJob {cfg : Settings} (h : NoneSentCancelled db) (j : JobId) :
    NoneSentCancelled (db.crashJob cfg j now) :=
  noneSent_updateJob h j fun job hjob => by
    split
    · exact PushJob.sound_of_ne PushJob.crash_status_ne
    · exact hjob

theorem noneSent_pruneTerminal (h : NoneSentCancelled db) (old : JobId → Bool) :
    NoneSentCancelled (db.pruneTerminal old) := by
  intro j job hjob
  rw [pruneTerminal, Table.get_deleteWhere] at hjob
  exact h j job (Option.filter_eq_some_iff.mp hjob).1

/-! ### A processed job -/

/-- Writing a sound row over a job keeps the others sound. -/
theorem noneSent_write_iff (h : NoneSentCancelled db) {j : JobId} {job : PushJob}
    (hjob : db.jobs.get j = some job) (job' : PushJob) :
    NoneSentCancelled (db.updateJob j fun _ => job') ↔ job'.Sound := by
  rw [updateJob, noneSent_modifyJobs_iff]
  constructor
  · intro hall
    have hj := hall j job hjob
    rwa [if_pos rfl] at hj
  · intro hsound k row hrow
    split
    · exact hsound
    · exact h k row hrow

/-- The waiting rows are the same once a claimed job has been settled as cancelled. -/
theorem waiting_updateJob {j : JobId} {job job' : PushJob} (hjob : db.jobs.get j = some job)
    (hstatus : job.status ≠ .pending) (hstatus' : job'.status ≠ .pending)
    (P : JobId → PushJob → Prop) :
    (∀ k, ∀ row ∈ (db.updateJob j fun _ => job').jobs.get k, row.status = .pending → P k row) ↔
      ∀ k, ∀ row ∈ db.jobs.get k, row.status = .pending → P k row := by
  simp only [updateJob, modifyJobs, Table.get_modify, Option.mem_def, Option.map_eq_some_iff]
  constructor
  · intro h k row hrow hpending
    refine h k row ⟨row, hrow, if_neg ?_⟩ hpending
    rintro rfl
    exact hstatus (by rw [← Option.some.inj (hrow.symm.trans hjob)]; exact hpending)
  · rintro h k _ ⟨row, hrow, rfl⟩ hpending
    split at hpending
    · exact absurd hpending hstatus'
    next hother =>
      rw [if_neg hother]
      exact h k row hrow hpending

end Db

/-- The assignment `_process_job` records as submitted: what the final verdict names. -/
theorem PushJob.process_submitted {cfg : Settings} {job : PushJob} {now : Time} {round : Round}
    {workerId : String} {check : Option PresendCheck}
    (hclaimed : job.status = .processing ∧ job.lockedBy = some workerId) :
    (job.process cfg workerId now check round).2 = check.bind fun check =>
      let final := job.finalCheck cfg now check round.rowsVerdict
      if final.verdict = .submitted then final.moodleAssignmentId else none := by
  unfold process
  rw [if_pos hclaimed]
  cases check with
  | none =>
    dsimp only
    split <;> rfl
  | some check =>
    simp only [Option.bind_some]
    cases (job.finalCheck cfg now check round.rowsVerdict).verdict <;> rfl

/-- A job whose check found it submitted is cancelled. -/
theorem PushJob.process_status {cfg : Settings} {job : PushJob} {now : Time} {round : Round}
    {workerId : String} {check : Option PresendCheck} {id : MoodleId}
    (h : (job.process cfg workerId now check round).2 = some id) :
    (job.process cfg workerId now check round).1.status = .cancelled := by
  unfold process at h ⊢
  split
  next hclaimed =>
    rw [if_pos hclaimed] at h
    cases check with
    | none =>
      dsimp only at h
      split at h <;> cases h
    | some check =>
      dsimp only at h ⊢
      cases hverdict : (job.finalCheck cfg now check round.rowsVerdict).verdict with
      | submitted => rfl
      | send => rw [hverdict] at h; cases h
      | gone => rw [hverdict] at h; cases h
      | unverified => rw [hverdict] at h; cases h
  next hlost =>
    rw [if_neg hlost] at h
    cases h

/-! ### One step -/

section Step

variable {cfg : Settings} {db db' : Db} {t : TickId} {tick : Tick} {now : Time} {round : Round}
  {skip : JobId → Bool} {ends : List NewJob}

/-- The job of a batch's head, as long as its claim is still the worker's. -/
theorem processed_eq {c : Claimed} {rest : List Claimed} {check : Option PresendCheck}
    (htick : db.ticks t = some tick) (hbatch : tick.batch = c :: rest)
    (hcheck : c.check.result = some check) :
    db.processed t = (db.jobs.get c.jobId).bind fun job =>
      if job.status = .processing ∧ job.lockedBy = some tick.workerId then
        some (c.jobId, job, check)
      else none := by
  simp [Db.processed, htick, hbatch, hcheck]

/-- What a processed job's check found submitted is what its transaction records. -/
theorem foundSubmitted_eq {c : Claimed} {rest : List Claimed} {check : Option PresendCheck}
    (htick : db.ticks t = some tick) (hbatch : tick.batch = c :: rest)
    (hcheck : c.check.result = some check) :
    db.foundSubmitted cfg t now round = (db.jobs.get c.jobId).bind fun job =>
      if job.status = .processing ∧ job.lockedBy = some tick.workerId then
        (job.process cfg tick.workerId now check round).2.map (job.userId, ·)
      else none := by
  rw [Db.foundSubmitted, processed_eq htick hbatch hcheck]
  cases db.jobs.get c.jobId with
  | none => rfl
  | some job =>
    dsimp only [Option.bind_some]
    split
    next hclaimed =>
      rw [PushJob.process_submitted hclaimed]
      cases check with
      | none => rfl
      | some check =>
        dsimp only [Option.bind_some]
        split <;> rfl
    next => rfl

/-- The job's transaction leaves no sent job cancelled exactly when it cancels none that was
sent: the processed job itself, or the other reminders of the assignment it found submitted. -/
theorem noneSent_processJob_iff {c : Claimed} {rest : List Claimed} {check : Option PresendCheck}
    (hsound : NoneSentCancelled db) (hbelow : JobsBelow db) (htick : db.ticks t = some tick)
    (hbatch : tick.batch = c :: rest) (hcheck : c.check.result = some check) :
    NoneSentCancelled (db.processJob cfg tick c.jobId check now round skip ends) ↔
      CancelsUnsent cfg db (.process t now round skip ends) := by
  simp only [CancelsUnsent, Db.takes, processed_eq htick hbatch hcheck,
    foundSubmitted_eq htick hbatch hcheck]
  unfold Db.processJob
  cases hjob : db.jobs.get c.jobId with
  | none => simp [hsound]
  | some job =>
    dsimp only [Option.bind_some]
    by_cases hclaimed : job.status = .processing ∧ job.lockedBy = some tick.workerId
    · rw [if_pos hclaimed, if_pos hclaimed]
      have hself : (job.process cfg tick.workerId now check round).1.Sound ↔
          (job.cancelsClaimed cfg now check round = true → ¬ job.HasSent) :=
        PushJob.process_sound_iff hclaimed
      have hmark : ∀ id, (job.process cfg tick.workerId now check round).2 = some id →
          (job.process cfg tick.workerId now check round).1.status = .cancelled :=
        fun _ => PushJob.process_status
      generalize job.process cfg tick.workerId now check round = result at hself hmark ⊢
      obtain ⟨job', submitted⟩ := result
      dsimp only at hself hmark ⊢
      cases submitted with
      | none => simp [Db.noneSent_write_iff hsound hjob, hself]
      | some id =>
        have hbelow' : JobsBelow (db.updateJob c.jobId fun _ => job') :=
          Db.jobsBelow_modifyJobs hbelow _
        have hprocessing : job.status ≠ .pending := by
          rw [hclaimed.1]
          exact nofun
        have hcancelled : job'.status ≠ .pending := by
          rw [hmark id rfl]
          exact nofun
        dsimp only
        rw [Db.noneSent_cancelForSubmitted_iff hbelow', Db.noneSent_write_iff hsound hjob, hself,
          Db.waiting_updateJob hjob hprocessing hcancelled, and_comm]
        simp
    · have hkept : job.process cfg tick.workerId now check round = (job, none) := by
        unfold PushJob.process
        rw [if_neg hclaimed]
      rw [hkept, if_neg hclaimed, if_neg hclaimed]
      simp [Db.noneSent_write_iff hsound hjob, hsound _ job hjob]

/-- A transaction that takes no waiting job, of those that process none. -/
theorem cancelsUnsent_of_takes_none {l : Label} (htakes : db.takes cfg l = fun _ _ => false)
    (hprocess : CancelsUnsent cfg db l ↔ ∀ j, ∀ job ∈ db.jobs.get j, job.status = .pending →
      db.takes cfg l j job = true → ¬ job.HasSent) : CancelsUnsent cfg db l := by
  rw [hprocess, htakes]
  exact fun _ _ _ _ => nofun

/-- A step leaves no sent job cancelled exactly when it cancels none that was sent. -/
theorem noneSent_step_iff {l : Label} (hsound : NoneSentCancelled db) (hbelow : JobsBelow db)
    (hstep : step cfg db l = some db') : NoneSentCancelled db' ↔ CancelsUnsent cfg db l := by
  -- What takes no job keeps all of them.
  have hkeeps {l : Label} {db' : Db} (htakes : db.takes cfg l = fun _ _ => false)
      (hprocess : CancelsUnsent cfg db l ↔ ∀ j, ∀ job ∈ db.jobs.get j, job.status = .pending →
        db.takes cfg l j job = true → ¬ job.HasSent) (hsound' : NoneSentCancelled db') :
      NoneSentCancelled db' ↔ CancelsUnsent cfg db l :=
    iff_of_true hsound' (cancelsUnsent_of_takes_none htakes hprocess)
  cases step_cases hstep with
  | startTick | check | endTick => exact hkeeps rfl (and_iff_left trivial) hsound
  | @recoverStale j =>
    refine hkeeps rfl (and_iff_left trivial) (Db.noneSent_updateJob hsound j fun _ _ => ?_)
    exact PushJob.sound_of_ne PushJob.recoverStale_status_ne
  | claim =>
    refine hkeeps rfl (and_iff_left trivial) (Db.noneSent_modifyJobs hsound fun k job hjob => ?_)
    split
    · exact PushJob.sound_of_ne (by simp [PushJob.claim])
    · exact hjob
  | release =>
    exact hkeeps rfl (and_iff_left trivial)
      (Db.noneSent_modifyJobs hsound fun _ _ => Db.releasedRow_sound)
  | process htick hbatch hcheck => exact noneSent_processJob_iff hsound hbelow htick hbatch hcheck
  | crash => exact hkeeps rfl (and_iff_left trivial) (Db.noneSent_crashJob hsound _)
  | scanAssignmentReminders | scanCourseReminders =>
    refine (Db.noneSent_scanReminders_iff hbelow _ _ _ _).trans ?_
    exact (and_iff_right hsound).trans (and_iff_left trivial).symm
  | cancelForSubmitted =>
    rw [Db.noneSent_cancelForSubmitted_iff hbelow]
    exact (and_iff_right hsound).trans (and_iff_left trivial).symm
  | syncSchedule =>
    rw [Db.noneSent_syncSchedule_iff hbelow]
    exact (and_iff_right hsound).trans (and_iff_left trivial).symm
  | cancelSchedule =>
    rw [Db.cancelSchedule, Db.noneSent_cancelPending_iff]
    exact (and_iff_right hsound).trans (and_iff_left trivial).symm
  | registerLiveActivity =>
    refine hkeeps rfl (and_iff_left trivial) ?_
    rw [Db.registerLiveActivity, Db.noneSent_fileJob_iff (Db.jobsBelow_modifyJobs hbelow _)]
    exact Db.noneSent_modifyJobs hsound fun _ _ => Db.registeredRow_sound
  | fileJobs =>
    exact hkeeps rfl (and_iff_left trivial) ((Db.noneSent_fileJobs_iff hbelow _).mpr hsound)
  | @ride j =>
    exact hkeeps rfl (and_iff_left trivial)
      (Db.noneSent_updateJob hsound j fun _ => Db.rideRow_sound)
  | cancelPendingDeliveriesForDevice =>
    exact hkeeps rfl (and_iff_left trivial)
      (Db.noneSent_modifyJobs hsound fun _ _ => Db.syncedRow_sound)
  | deleteDevice =>
    exact hkeeps rfl (and_iff_left trivial)
      (Db.noneSent_modifyJobs hsound fun _ _ => Db.withoutDevice_sound)
  | pruneTerminal => exact hkeeps rfl (and_iff_left trivial) (Db.noneSent_pruneTerminal hsound _)

end Step

/-- No job is cancelled once it was sent, in any state the labels pass. -/
def NeverCancelsSent (cfg : Settings) (ls : List Label) : Prop :=
  ∀ ls₁, ls₁ <+: ls → ∀ db, exec (step cfg) Db.initial ls₁ = some db → NoneSentCancelled db

/-- **A cancelled job was never sent** in exactly the runs in which a scan, a submission, a
schedule sync or deletion, a pre-send hold and a stale session reauth only take jobs that have
no sent delivery. -/
theorem cancelled_never_sent (cfg : Settings) (ls : List Label) (db : Db) :
    (FreeRun (step cfg) Db.initial ls db ∧ NeverCancelsSent cfg ls) ↔
      Run (step cfg) (CancelsUnsent cfg) Db.initial ls db :=
  always_iff JobsBelow NoneSentCancelled (fun _ hj => absurd rfl hj) (fun _ _ hj => nomatch hj)
    (fun _ _ _ hbelow hstep => (leads_step hstep).below hbelow)
    (fun _ _ _ hbelow hsound hstep => noneSent_step_iff hsound hbelow hstep)

/-- The service's defaults. -/
def defaultSettings : Settings where
  batchSize := 10
  staleLock := 300 * SECOND
  retryRoundDelay := 60 * SECOND
  presendRetry := 60 * SECOND
  presendGrace := 600 * SECOND

/-- A reminder for the devices of user 1. -/
def dueTomorrow : NewJob where
  userId := 1
  deviceId := none
  dedupeKey := .reminder 9 "24h" 90000
  channel := .assignment
  scenario := .reminder "24h"
  payload :=
    { activityEnd := false
      activityId := none
      sessionReauth := false
      forced := false
      sourceDeviceId := none }
  fireAt := 0
  priority := 50

/-- A round for two devices, of which the push service refuses the second. -/
def oneRefused : Round where
  rowsVerdict := none
  announcedAt := none
  sendAfter := none
  quiet := none
  courseRecheck := .begins 0
  registered := false
  lastTriggerSent := none
  tokens := [⟨⟨"phone", "device", ""⟩, 11, false, false⟩,
    ⟨⟨"tablet", "device", ""⟩, 12, false, false⟩]
  covered := []
  waiting := []
  sends token := if token.tokenHash = "phone" then .success else .refused "TooManyRequests"

/-- A reminder reaches the phone, and before the tablet's turn its assignment is submitted. -/
def submittedBetweenRounds : List Label :=
  [.scanAssignmentReminders [(1, .reminder 9 "24h" 90000)] [dueTomorrow] (fun _ => false) 0,
    .startTick 0 "worker", .claim 0 [1] SECOND, .check 0 1 ⟨.send, some 9⟩,
    .process 0 SECOND oneRefused (fun _ => false) [],
    .cancelForSubmitted 1 [9] (fun _ => false) (2 * SECOND) []]

/-- The reminder the phone has is cancelled. -/
theorem submission_cancels_sent :
    ¬ NeverCancelsSent defaultSettings submittedBetweenRounds := by
  intro hnever
  have hsound := hnever submittedBetweenRounds (List.prefix_refl _) _ rfl 1 _ rfl
  exact absurd hsound (by decide)

end TigerDuck.Push
