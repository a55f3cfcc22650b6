import Mathlib.Logic.Relation
import TigerDuck.Push.Pipeline

/-!
# What a transaction makes of the jobs

Every step of the machine, in the writes it makes: each job of the table after a step was there
before and was written by a list of single writes, or is a new row under a fresh id.

## Main results

- `leads_step`: what a step makes of all jobs. An invariant of the rows is then shown once for
  each write.
-/

namespace TigerDuck.Push

open Relational Transition
open SyncJobs (MoodleId)

/-- One write of a job's row, its deliveries included. -/
inductive Write (cfg : Settings) : PushJob → PushJob → Prop
  | claim {job : PushJob} (workerId : String) (now : Time) (h : job.status = .pending) :
      Write cfg job (job.claim workerId now)
  | recoverStale {job : PushJob} (now : Time) (h : job.status = .processing) :
      Write cfg job (job.recoverStale cfg now)
  | release {job : PushJob} (h : job.status = .processing) : Write cfg job job.release
  | crash {job : PushJob} (now : Time) (h : job.status = .processing) :
      Write cfg job (job.crash cfg now)
  | process (job : PushJob) (workerId : String) (now : Time) (check : Option PresendCheck)
      (round : Round) : Write cfg job (job.process cfg workerId now check round).1
  | cancel {job : PushJob} (now : Time) (h : job.status = .pending) : Write cfg job (job.cancel now)
  | accelerateEnd (job : PushJob) (now : Time) (new : NewJob) :
      Write cfg job (Db.accelerateEnd now new job)
  | reschedule {job : PushJob} (e : ScheduleEvent) (h : job.status = .pending) :
      Write cfg job (Db.reschedule job e)
  | register (job : PushJob) (new : NewJob) (k : JobId) :
      Write cfg job (Db.registeredRow new k job)
  | ride (job : PushJob) (sourceDeviceId : Option DeviceId) :
      Write cfg job (Db.rideRow sourceDeviceId job)
  | synced (job : PushJob) (userId : UserId) (deviceId : DeviceId) :
      Write cfg job (Db.syncedRow userId deviceId job)
  | withoutDevice (job : PushJob) (deviceId : DeviceId) :
      Write cfg job (Db.withoutDevice deviceId job)

/-- A row after some writes of it. -/
abbrev Writes (cfg : Settings) : PushJob → PushJob → Prop := Relation.ReflTransGen (Write cfg)

/-- Every stored job has been given its id. -/
def JobsBelow (db : Db) : Prop := ∀ j, db.jobs.get j ≠ none → j < db.nextJob

/-- What a transaction may make of the jobs: rows are written or deleted, and new ones get a
fresh id. -/
structure Db.Leads (cfg : Settings) (db db' : Db) : Prop where
  nextJob : db.nextJob ≤ db'.nextJob
  below : JobsBelow db → JobsBelow db'
  rows : ∀ j job', db'.jobs.get j = some job' →
    (∃ job, db.jobs.get j = some job ∧ Writes cfg job job') ∨
      db.nextJob ≤ j ∧ ∃ new now, Writes cfg (NewJob.row new now) job'

namespace Db

variable {db : Db} {now : Time}

theorem jobsBelow_modifyJobs (h : JobsBelow db) (f : JobId → PushJob → PushJob) :
    JobsBelow (db.modifyJobs f) := by
  intro j hj
  refine h j fun hnone => hj ?_
  rw [modifyJobs, Table.get_modify, hnone]
  rfl

theorem jobsBelow_cancelPending (h : JobsBelow db) (p : JobId → PushJob → Bool) :
    JobsBelow (db.cancelPending now p) :=
  jobsBelow_modifyJobs h _

theorem jobsBelow_fileJob (h : JobsBelow db) (new : NewJob) : JobsBelow (db.fileJob now new) := by
  unfold fileJob
  dsimp only
  split
  · intro j hj
    rw [Table.get_set] at hj
    by_cases hlast : j = db.nextJob
    · exact hlast ▸ Nat.lt_succ_self _
    · rw [if_neg hlast] at hj
      exact Nat.lt_succ_of_lt (h j hj)
  · exact h

theorem jobsBelow_fileJobs (h : JobsBelow db) (rows : List NewJob) :
    JobsBelow (db.fileJobs now rows) := by
  unfold fileJobs
  induction rows generalizing db with
  | nil => exact h
  | cons new rest ih => exact ih (jobsBelow_fileJob h new)

end Db

namespace Db.Leads

variable {cfg : Settings} {db db' db'' : Db} {now : Time}

/-- A step that leaves the jobs alone. -/
theorem of_eq (hjobs : db'.jobs = db.jobs) (hnext : db'.nextJob = db.nextJob) :
    db.Leads cfg db' where
  nextJob := Nat.le_of_eq hnext.symm
  below := fun h j hj => by
    rw [hnext]
    rw [hjobs] at hj
    exact h j hj
  rows := fun j job' hjob' => .inl ⟨job', by rw [← hjobs, hjob'], .refl⟩

theorem refl (db : Db) : db.Leads cfg db := of_eq rfl rfl

theorem trans (h : db.Leads cfg db') (h' : db'.Leads cfg db'') : db.Leads cfg db'' where
  nextJob := Nat.le_trans h.nextJob h'.nextJob
  below := fun hbelow => h'.below (h.below hbelow)
  rows := fun j job'' hjob'' => by
    rcases h'.rows j job'' hjob'' with ⟨job', hjob', hwrites'⟩ | ⟨hnew, hwrites'⟩
    · rcases h.rows j job' hjob' with ⟨job, hjob, hwrites⟩ | ⟨hnew, new, now, hwrites⟩
      · exact .inl ⟨job, hjob, hwrites.trans hwrites'⟩
      · exact .inr ⟨hnew, new, now, hwrites.trans hwrites'⟩
    · exact .inr ⟨Nat.le_trans h.nextJob hnew, hwrites'⟩

theorem modifyJobs {f : JobId → PushJob → PushJob}
    (hf : ∀ k job, db.jobs.get k = some job → Writes cfg job (f k job)) :
    db.Leads cfg (db.modifyJobs f) where
  nextJob := Nat.le_refl _
  below := fun h => jobsBelow_modifyJobs h f
  rows := fun j job' hjob' => by
    rw [Db.modifyJobs, Table.get_modify] at hjob'
    obtain ⟨job, hjob, rfl⟩ := Option.map_eq_some_iff.mp hjob'
    exact .inl ⟨job, hjob, hf j job hjob⟩

theorem updateJob (j : JobId) {f : PushJob → PushJob}
    (hf : ∀ job, db.jobs.get j = some job → Writes cfg job (f job)) :
    db.Leads cfg (db.updateJob j f) := by
  refine modifyJobs fun k job hjob => ?_
  by_cases hk : k = j
  · rw [if_pos hk]
    exact hf job (hk ▸ hjob)
  · rw [if_neg hk]

theorem cancelPending (p : JobId → PushJob → Bool) : db.Leads cfg (db.cancelPending now p) := by
  refine modifyJobs fun k job _ => ?_
  unfold Db.cancelRow
  split
  next hpicked => exact .single (.cancel now hpicked.1)
  next => exact .refl

/-- A filed job takes the next id. -/
theorem fileJob (new : NewJob) : db.Leads cfg (db.fileJob now new) where
  nextJob := by
    unfold Db.fileJob
    dsimp only
    split
    · exact Nat.le_succ _
    · exact Nat.le_refl _
  below := fun h => jobsBelow_fileJob h new
  rows := fun j job' hjob' => by
    unfold Db.fileJob at hjob'
    dsimp only at hjob'
    split at hjob'
    · rw [Table.get_set] at hjob'
      by_cases hlast : j = db.nextJob
      · rw [if_pos hlast] at hjob'
        cases hjob'
        exact .inr ⟨Nat.le_of_eq hlast.symm, new, now, .refl⟩
      · rw [if_neg hlast] at hjob'
        exact .inl ⟨job', hjob', .refl⟩
    · exact .inl ⟨job', hjob', .refl⟩

theorem fileJobs (rows : List NewJob) : db.Leads cfg (db.fileJobs now rows) := by
  unfold Db.fileJobs
  induction rows generalizing db with
  | nil => exact refl db
  | cons new rest ih => exact (fileJob new).trans ih

theorem endRunningActivities (ends : List NewJob) :
    db.Leads cfg (db.endRunningActivities now ends) := by
  unfold Db.endRunningActivities
  induction ends generalizing db with
  | nil => exact refl db
  | cons new rest ih =>
    have hmoved : db.Leads cfg (db.modifyJobs fun _ => Db.accelerateEnd now new) :=
      modifyJobs fun _ job _ => .single (.accelerateEnd job now new)
    exact (hmoved.trans (fileJob new)).trans ih

theorem cancelForSubmitted (userId : UserId) (ids : List MoodleId) (skip : JobId → Bool)
    (ends : List NewJob) : db.Leads cfg (db.cancelForSubmitted userId ids skip now ends) :=
  (cancelPending _).trans (endRunningActivities ends)

theorem scanReminders (channel : Channel) (validKeys : List (UserId × DedupeKey))
    (toFile : List NewJob) (skip : JobId → Bool) :
    db.Leads cfg (db.scanReminders channel validKeys toFile skip now) :=
  (cancelPending _).trans (fileJobs toFile)

theorem syncSchedule (userId : UserId) (deviceId : DeviceId) (events : List ScheduleEvent)
    (skip : JobId → Bool) : db.Leads cfg (db.syncSchedule userId deviceId events skip now) := by
  refine ((cancelPending _).trans (modifyJobs fun k job _ => ?_)).trans (fileJobs _)
  unfold Db.keptRow
  split
  next hkept =>
    cases Db.incoming deviceId events job.dedupeKey with
    | none => exact .refl
    | some e => exact .single (.reschedule e hkept.1)
  next => exact .refl

theorem processJob {tick : Tick} {j : JobId} {check : Option PresendCheck} {round : Round}
    {skip : JobId → Bool} {ends : List NewJob} :
    db.Leads cfg (db.processJob cfg tick j check now round skip ends) := by
  unfold Db.processJob
  split
  next job hjob =>
    have hrow : db.Leads cfg
        (db.updateJob j fun _ => (job.process cfg tick.workerId now check round).1) := by
      refine updateJob j fun job' hjob' => ?_
      rw [hjob] at hjob'
      cases hjob'
      exact .single (.process job tick.workerId now check round)
    dsimp only
    split
    · exact hrow.trans (cancelForSubmitted _ _ _ _)
    · exact hrow
  next => exact refl db

/-- What `db` leads to, its ticks do not say. -/
theorem withTicks (h : db.Leads cfg db') (ticks : TickId → Option Tick) :
    db.Leads cfg { db' with ticks } := h.trans (of_eq rfl rfl)

end Db.Leads

/-- Every step leads from its jobs to the next ones. -/
theorem leads_step {cfg : Settings} {db db' : Db} {l : Label} (hstep : step cfg db l = some db') :
    db.Leads cfg db' := by
  cases step_cases hstep with
  | startTick | check | endTick => exact .of_eq rfl rfl
  | recoverStale hjob hprocessing =>
    refine .updateJob _ fun job' hjob' => ?_
    rw [hjob] at hjob'
    cases hjob'
    exact .single (.recoverStale _ hprocessing)
  | @claim _ _ now tick _ _ _ _ _ hclaimable =>
    refine (Db.Leads.modifyJobs fun k job hjob => ?_).withTicks _
    split
    next hpicked =>
      -- A claim takes due jobs only, which wait.
      have hwaits := Db.waits_of_claimable (hclaimable k (List.contains_iff_mem.mp hpicked)) hjob
      exact .single (.claim tick.workerId now hwaits)
    next => exact .refl
  | release =>
    refine (Db.Leads.modifyJobs fun k job _ => ?_).withTicks _
    unfold Db.releasedRow
    split
    next hheld => exact .single (.release hheld.2.1)
    next => exact .refl
  | process => exact Db.Leads.processJob.withTicks _
  | @crash _ now =>
    refine (Db.Leads.updateJob _ fun job _ => ?_).withTicks _
    split
    next hprocessing => exact .single (.crash now hprocessing)
    next => exact .refl
  | scanAssignmentReminders | scanCourseReminders => exact .scanReminders _ _ _ _
  | cancelForSubmitted => exact .cancelForSubmitted _ _ _ _
  | syncSchedule => exact .syncSchedule _ _ _ _
  | cancelSchedule => exact .cancelPending _
  | @registerLiveActivity new =>
    exact (Db.Leads.modifyJobs fun k job _ => .single (.register job new k)).trans (.fileJob new)
  | fileJobs => exact .fileJobs _
  | ride => exact .updateJob _ fun job _ => .single (.ride job _)
  | cancelPendingDeliveriesForDevice => exact .modifyJobs fun _ job _ => .single (.synced job _ _)
  | deleteDevice => exact .modifyJobs fun _ job _ => .single (.withoutDevice job _)
  | pruneTerminal =>
    refine ⟨Nat.le_refl _, fun h j hj => ?_, fun j job' hjob' => ?_⟩
    · refine h j fun hnone => hj ?_
      rw [Db.pruneTerminal, Table.get_deleteWhere, hnone]
      rfl
    · rw [Db.pruneTerminal, Table.get_deleteWhere] at hjob'
      exact .inl ⟨job', (Option.filter_eq_some_iff.mp hjob').1, .refl⟩

end TigerDuck.Push
