import Mathlib.Algebra.Group.Nat.Defs
import TigerDuck.Relational.Table
import TigerDuck.Sync.Merge

/-!
# Sync jobs

The rows of `server/syncjobs/models.py`, and what each writer makes of a job's row: the
claim, the recovery of a stale claim, the end of a run, the revival by a sign-in or a fresh
token, and pull-to-refresh.

Only the job types the executor runs are kept. Settings are in clock units.
-/

namespace TigerDuck.SyncJobs

open Relational

/-- A `users.id`. -/
abbrev UserId := Nat

/-- A `sync_runs.id`. -/
abbrev RunId := Nat

/-- A `SyncJobType` of `HANDLED_JOB_TYPES`. -/
inductive SyncJobType
  | ntustCourses
  | moodleAssignments
  deriving DecidableEq, Repr

inductive SyncJobStatus
  | pending
  | running
  | failed
  | disabled
  deriving DecidableEq, Repr

inductive SyncRunStatus
  | running
  | succeeded
  | failed
  | cancelled
  deriving DecidableEq, Repr

/-- The unique key of a `sync_jobs` row. -/
structure JobId where
  userId : UserId
  jobType : SyncJobType
  deriving DecidableEq, Repr

/-- A `_lock_token`, `worker_id#run_id`. -/
structure LockToken where
  workerId : String
  runId : RunId
  deriving DecidableEq, Repr

/-- A row of `sync_jobs`. -/
structure SyncJob where
  priority : Nat
  status : SyncJobStatus
  runAfter : Time
  lockedBy : Option LockToken
  lockedAt : Option Time
  attempts : Nat
  maxAttempts : Nat
  lastSuccessAt : Option Time
  lastFailureAt : Option Time
  lastError : Option String
  manualRequestedAt : Option Time
  deriving DecidableEq, Repr

/-- A row of `sync_runs`. -/
structure SyncRun where
  jobId : JobId
  status : SyncRunStatus
  finishedAt : Option Time
  fetchedCount : Option Nat
  changedCount : Option Nat
  error : Option String
  deriving DecidableEq, Repr

/-- A row of `sync_policies`. -/
structure SyncPolicy where
  enabled : Bool
  defaultInterval : Time
  activeFrom : Option Time
  activeUntil : Option Time
  priority : Nat
  maxAttempts : Nat
  deriving DecidableEq, Repr

structure Settings where
  staleLock : Time
  backoffBase : Time
  backoffCap : Time
  manualCooldown : Time
  globalConcurrency : Nat
  submissionWindow : Time

def SECOND : Time := 1000000

/-- The default settings of `server/config.py`. -/
def defaultSettings : Settings where
  staleLock := 600 * SECOND
  backoffBase := 300 * SECOND
  backoffCap := 3600 * SECOND
  manualCooldown := 60 * SECOND
  globalConcurrency := 5
  submissionWindow := 72 * 3600 * SECOND

def DEFAULT_INTERVAL : Time := 28800 * SECOND

def DEFAULT_PRIORITY : Nat := 100

def ERROR_CREDENTIAL_INVALID : String := "credential_invalid"

def ERROR_SCHOOL_RATE_LIMITED : String := "school_rate_limited"

def ERROR_SYNC_FAILED : String := "sync_failed"

/-- Whether an admin's policy lets its jobs be claimed now. -/
def SyncPolicy.active (p : SyncPolicy) (now : Time) : Bool :=
  p.enabled && p.activeFrom.all (· ≤ now) && p.activeUntil.all (now < ·)

/-- The interval a finished job waits. -/
def interval (policy : Option SyncPolicy) : Time :=
  (policy.map (·.defaultInterval)).getD DEFAULT_INTERVAL

def priorityOf (policy : Option SyncPolicy) : Nat := (policy.map (·.priority)).getD DEFAULT_PRIORITY

/-- A run that is still open, closed. -/
def SyncRun.close (run : SyncRun) (status : SyncRunStatus) (now : Time) (error : String) :
    SyncRun :=
  if run.status = .running then { run with status, finishedAt := some now, error := some error }
  else run

namespace SyncJob

/-- `_owned`: whether the claim is still this token's. -/
def Owned (job : SyncJob) (token : LockToken) : Prop :=
  job.status = .running ∧ job.lockedBy = some token

instance (job : SyncJob) (token : LockToken) : Decidable (job.Owned token) :=
  inferInstanceAs (Decidable (_ ∧ _))

def unlock (job : SyncJob) : SyncJob := { job with lockedBy := none, lockedAt := none }

/-- Whether a claim may take the job. -/
def due (job : SyncJob) (now : Time) : Bool :=
  decide (job.status = .pending) && decide (job.runAfter ≤ now)

/-- The claim of `_claim_due_job`. -/
def claim (job : SyncJob) (token : LockToken) (now : Time) : SyncJob :=
  { job with status := .running, lockedBy := some token, lockedAt := some now }

/-- `_recover_stale_jobs`: a stale lock counts as an attempt. -/
def recoverStale (job : SyncJob) (now : Time) : SyncJob :=
  { job.unlock with
    attempts := job.attempts + 1
    lastFailureAt := some now
    lastError := some (ERROR_SYNC_FAILED ++ ":stale_lock")
    status := if job.maxAttempts ≤ job.attempts + 1 then .failed else .pending }

/-- `_mark_succeeded`. -/
def succeed (job : SyncJob) (policy : Option SyncPolicy) (now : Time) : SyncJob :=
  { job.unlock with
    status := .pending
    runAfter := now + interval policy
    attempts := 0
    priority := priorityOf policy
    lastSuccessAt := some now
    lastError := none }

/-- The row of `_record_failure` before it decides what becomes of the job. -/
def recordFailure (job : SyncJob) (now : Time) (error : String) : SyncJob :=
  { job.unlock with lastFailureAt := some now, lastError := some error }

/-- The end of `_record_failure`: back off, wait an interval or give up. -/
def retry (cfg : Settings) (job : SyncJob) (policy : Option SyncPolicy) (now : Time)
    (keepRetrying : Bool) : SyncJob :=
  let attempts := job.attempts + 1
  if job.maxAttempts ≤ attempts ∧ keepRetrying = true then
    { job with
      status := .pending
      runAfter := now + interval policy
      attempts := 0
      priority := priorityOf policy }
  else if job.maxAttempts ≤ attempts then { job with attempts, status := .failed }
  else
    { job with
      attempts
      status := .pending
      runAfter := now + min (cfg.backoffBase * 2 ^ (attempts - 1)) cfg.backoffCap }

/-- `_handle_moodle_failure` outside Moodle's hours. -/
def postpone (job : SyncJob) (resumeAt : Time) (error : String) : SyncJob :=
  { job.unlock with
    status := .pending
    runAfter := resumeAt
    lastError := some ("moodle_maintenance:" ++ error) }

/-- The update of `mark_credentials_invalid`. -/
def disable (job : SyncJob) (now : Time) (error : String) : SyncJob :=
  { job.unlock with status := .disabled, lastFailureAt := some now, lastError := some error }

/-- A sign-in or a fresh token puts a disabled job back. -/
def revive (job : SyncJob) (now : Time) : SyncJob :=
  if job.status = .disabled then
    { job.unlock with status := .pending, attempts := 0, runAfter := now, lastError := none }
  else job

/-- The row `ensure_sync_jobs` inserts. -/
def provisioned (policy : Option SyncPolicy) (now : Time) : SyncJob where
  priority := priorityOf policy
  status := .pending
  runAfter := now
  lockedBy := none
  lockedAt := none
  attempts := 0
  maxAttempts := (policy.map (·.maxAttempts)).getD 3
  lastSuccessAt := none
  lastFailureAt := none
  lastError := none
  manualRequestedAt := none

/-- What `run_now` queues: nothing for a disabled or running job, one already queued, or one
asked for within the cooldown. -/
def runNow (cfg : Settings) (job : SyncJob) (now : Time) : Option SyncJob :=
  if job.status = .disabled ∨ job.status = .running ∨
      (job.status = .pending ∧ job.priority ≤ 1 ∧ job.runAfter ≤ now) ∨
      job.manualRequestedAt.any (now < · + cfg.manualCooldown) = true then none
  else
    some { job with
      attempts := if job.status = .failed then 0 else job.attempts
      status := .pending
      priority := 1
      runAfter := now
      manualRequestedAt := some now }

end SyncJob

end TigerDuck.SyncJobs
