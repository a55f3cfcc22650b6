import Mathlib.Logic.Function.Basic
import TigerDuck.SyncJobs.Assignments
import TigerDuck.SyncJobs.Jobs
import TigerDuck.Transition.Run

/-!
# The sync-job executor

`server/syncjobs/executor.py` as a machine: the claims, the runs in flight, stale-claim
recovery, and the requests that store or drop a user's Moodle credential. One label is one
transaction, or one answer of Moodle's; a run's transactions interleave with everyone
else's. `_start_run` reads the account and the credential in two statements, so it takes
two labels. `_record_failure`, a sign-in and `PATCH /v3/auth/credentials` lock the account
row from before they look at its credential until they commit, so each takes one.

The order in which due jobs are claimed, the devices that let a job be claimed and the
hours `is_moodle_available` answers by are left open: the machine allows any.
-/

namespace TigerDuck.SyncJobs

open Relational Transition

/-- The nonce of an encrypted blob: no two stored blobs share one. -/
abbrev Nonce := Nat

inductive CredentialStatus
  | active
  | expired
  | invalid
  | revoked
  deriving DecidableEq, Repr

/-- A row of `external_accounts`. -/
structure ExternalAccount where
  credentialStatus : CredentialStatus
  lastAuthSuccessAt : Option Time
  lastAuthFailureAt : Option Time
  lastAuthError : Option String
  deriving DecidableEq, Repr

/-- A row of `external_account_credentials`; `moodleToken` is what its blob decrypts to, if
the configuration still has its key. -/
structure Credential where
  nonce : Nonce
  moodleToken : Option String
  deriving DecidableEq, Repr

/-- Why the course list beside the assignments could not be read. -/
inductive CourseError
  | rateLimited
  | unreachable (detail : String)
  deriving DecidableEq, Repr

/-- An answer of Moodle's that is stored: of a course job its counts, of an assignments job
the refused courses of a `MoodleNoCourseAccess` or the list and its course list. -/
inductive Fetched
  | courses (fetchedCount changedCount : Nat)
  | noCourseAccess (refusedCourseIds : List MoodleId)
  | assignments (fetched : List FetchedAssignment)
      (enrolled : Except CourseError (Option Classification))

/-- What Moodle answers a run's fetch. -/
inductive MoodleAnswer
  | tokenInvalid
  | rateLimited
  | unreachable (detail : String)
  | crashed (name : String)
  | fetched (answer : Fetched)

/-- What Moodle answers the submission probe; `other` is logged and swallowed. -/
inductive ProbeAnswer
  | tokenInvalid
  | rateLimited
  | unreachable (detail : String)
  | other
  | submissions (fetched : Submissions)

/-- The exceptions the handlers of `_execute_job` tell apart. -/
inductive Failure
  | credentialInvalid (reason : String) (credentialNonce : Option Nonce)
  | rateLimited
  | unreachable (detail : String)
  | submissionStatus
  | crashed (name : String)
  deriving DecidableEq, Repr

/-- What a run keeps once its list sync has committed. -/
structure ListDone where
  listed : Table MoodleId FetchedAssignment
  recheckIds : List MoodleId
  courseError : Option CourseError

/-- Where a run is between two transactions. -/
inductive Phase
  | claimed
  /-- `_start_run` has read an active account. -/
  | accountRead
  | fetching (credentialNonce : Nonce) (now : Time)
  | answered (credentialNonce : Nonce) (now : Time) (answer : Fetched)
  | listDone (credentialNonce : Nonce) (now : Time) (done : ListDone)
  | probing (credentialNonce : Nonce) (now : Time) (done : ListDone) (assignmentIds : List MoodleId)
  | probed (now : Time) (done : ListDone) (fetched : Submissions)
  | finishing (now : Time)
  | failing (failure : Failure)
  | ended

/-- A run in flight in some worker. `readAt` is the nonce the next stored credential would
have got when the run read the user's credential, or failed to. -/
structure Exec where
  jobId : JobId
  workerId : String
  readAt : Option Nonce
  phase : Phase

/-- The committed rows and the runs in flight. -/
structure Db where
  /-- How many devices of a user are signed in. -/
  devices : UserId → Nat
  accounts : UserId → Option ExternalAccount
  credentials : UserId → Option Credential
  jobs : Table JobId SyncJob
  policies : SyncJobType → Option SyncPolicy
  runs : RunId → Option SyncRun
  assignments : UserId → Assignments
  execs : RunId → Option Exec
  nextNonce : Nonce
  nextRun : RunId
  /-- The next `user_assignments.id`. -/
  nextId : Nat
  /-- The nonce of the credential a user stored last, whether or not it is still there. -/
  lastStored : UserId → Option Nonce

/-- A database nobody has signed in to. -/
def Db.initial : Db where
  devices := fun _ => 0
  accounts := fun _ => none
  credentials := fun _ => none
  jobs := Table.empty
  policies := fun _ => none
  runs := fun _ => none
  assignments := fun _ => Table.empty
  execs := fun _ => none
  nextNonce := 0
  nextRun := 0
  nextId := 0
  lastStored := fun _ => none

/-- What `_record_failure` is called with. -/
structure Report where
  error : String
  detail : Option String
  disable : Bool
  keepRetrying : Bool
  credentialNonce : Option Nonce
  /-- Whether Moodle's hours are looked at first (`_handle_moodle_failure`). -/
  checksHours : Bool

/-- The handler of each exception. -/
def Failure.report : Failure → Report
  | .credentialInvalid reason nonce =>
    ⟨ERROR_CREDENTIAL_INVALID, some reason, true, false, nonce, true⟩
  | .rateLimited => ⟨ERROR_SCHOOL_RATE_LIMITED, none, false, true, none, false⟩
  | .unreachable detail =>
    ⟨ERROR_SYNC_FAILED ++ ":" ++ String.ofList (detail.toList.take 120), none, false, true, none,
      true⟩
  | .submissionStatus => ⟨ERROR_SYNC_FAILED ++ ":submission_status", none, false, false, none, false⟩
  | .crashed name => ⟨ERROR_SYNC_FAILED ++ ":" ++ name, none, false, false, none, false⟩

/-- The text of a failed run's row. -/
def Report.text (f : Report) : String := f.detail.elim f.error (f.error ++ ":" ++ ·)

/-- The course list's failure fails the run as a failed fetch would. -/
def CourseError.failure : CourseError → Failure
  | .rateLimited => .rateLimited
  | .unreachable detail => .unreachable detail

/-- What follows the probe. -/
def ListDone.afterProbe (done : ListDone) (now : Time) : Phase :=
  done.courseError.elim (.finishing now) fun e => .failing e.failure

/-- What follows the list sync: after the school's 429 the probe is left out. -/
def ListDone.afterList (done : ListDone) (nonce : Nonce) (now : Time) : Phase :=
  match done.courseError with
  | some .rateLimited => .failing .rateLimited
  | _ => .listDone nonce now done

namespace Exec

/-- The token the run's claim wrote. -/
def token (e : Exec) (r : RunId) : LockToken := ⟨e.workerId, r⟩

def userId (e : Exec) : UserId := e.jobId.userId

end Exec

namespace Db

/-- Whether the run still holds its claim. -/
def Owns (db : Db) (r : RunId) (e : Exec) : Prop :=
  ∃ job ∈ db.jobs.get e.jobId, job.Owned (e.token r)

instance (db : Db) (r : RunId) (e : Exec) : Decidable (db.Owns r e) :=
  inferInstanceAs (Decidable (∃ job ∈ db.jobs.get e.jobId, job.Owned (e.token r)))

def policyOf (db : Db) (e : Exec) : Option SyncPolicy := db.policies e.jobId.jobType

/-- The run moves on. -/
def setPhase (db : Db) (r : RunId) (e : Exec) (phase : Phase) : Db :=
  { db with execs := Function.update db.execs r (some { e with phase }) }

/-- The run moves on, having read the credential or failed to. -/
def setRead (db : Db) (r : RunId) (e : Exec) (phase : Phase) : Db :=
  { db with execs := Function.update db.execs r (some { e with readAt := some db.nextNonce, phase }) }

def updateJob (db : Db) (j : JobId) (f : SyncJob → SyncJob) : Db :=
  { db with jobs := db.jobs.modify fun k job => if k = j then f job else job }

def updateRun (db : Db) (r : RunId) (f : SyncRun → SyncRun) : Db :=
  { db with runs := Function.update db.runs r ((db.runs r).map f) }

/-- `_lock_owned_job` of a claim that is gone. -/
def reclaimed (db : Db) (r : RunId) (e : Exec) (now : Time) : Db :=
  (db.updateRun r (·.close .cancelled now "reclaimed_before_execution")).setPhase r e .ended

/-- The account's part of `_start_run`'s read, `load_credential`. -/
def startRun (db : Db) (r : RunId) (e : Exec) (now : Time) : Db :=
  if db.Owns r e then
    match db.accounts e.userId with
    | none => db.setRead r e (.failing (.credentialInvalid "account_missing" none))
    | some account =>
      if account.credentialStatus = .active then db.setPhase r e .accountRead
      else
        let status := match account.credentialStatus with
          | .active => "active"
          | .expired => "expired"
          | .invalid => "invalid"
          | .revoked => "revoked"
        db.setRead r e (.failing (.credentialInvalid ("credential_status_" ++ status) none))
  else db.reclaimed r e now

/-- The credential's part: the nonce is kept only with a token that can be used. -/
def readCredential (db : Db) (r : RunId) (e : Exec) (now : Time) : Db :=
  match db.credentials e.userId with
  | none => db.setRead r e (.failing (.credentialInvalid "credential_missing" none))
  | some credential =>
    match credential.moodleToken with
    | none => db.setRead r e (.failing (.credentialInvalid "decrypt_failed" none))
    | some token =>
      if token = "" then db.setRead r e (.failing (.credentialInvalid "moodle_token_missing" none))
      else db.setRead r e (.fetching credential.nonce now)

/-- Store what `apply_fetched_assignments` makes of the answer, with the run's counts. -/
def applyList (db : Db) (r : RunId) (e : Exec) (now : Time) (fetched : List FetchedAssignment)
    (enrolled : Option Classification) (refusedCourseIds : List MoodleId) : ListSync × Db :=
  let stats := applyFetchedAssignments now fetched enrolled refusedCourseIds
    (db.assignments e.userId) db.nextId
  (stats,
    { db.updateRun r fun run =>
        { run with
          fetchedCount := some fetched.length
          changedCount := some stats.changes.length } with
      assignments := Function.update db.assignments e.userId stats.rows
      nextId := stats.nextId })

/-- `_mark_succeeded`. -/
def markSucceeded (db : Db) (r : RunId) (e : Exec) (now : Time) : Db :=
  ((db.updateRun r fun run => { run with status := .succeeded, finishedAt := some now }).updateJob
    e.jobId (·.succeed (db.policyOf e) now)).setPhase r e .ended

/-- The transaction that stores Moodle's answer, under the job's lock and re-checked. -/
def storeAnswer (db : Db) (r : RunId) (e : Exec) (nonce : Nonce) (now : Time)
    (answer : Fetched) : Db :=
  if db.Owns r e then
    match answer with
    | .assignments fetched enrolled =>
      let (stats, db) := db.applyList r e now fetched (enrolled.toOption.bind id) []
      let courseError := match enrolled with
        | .ok _ => none
        | .error err => some err
      let done : ListDone := ⟨listedById fetched, stats.recheckIds, courseError⟩
      db.setPhase r e (done.afterList nonce now)
    | .noCourseAccess refused =>
      (db.applyList r e now [] none refused).2.setPhase r e
        (.failing (.unreachable "no_course_access"))
    | .courses fetchedCount changedCount =>
      (db.updateRun r fun run =>
        { run with
          fetchedCount := some fetchedCount
          changedCount := some changedCount }).markSucceeded r e now
  else db.reclaimed r e now

/-- `_refresh_submission_status` selects what to probe. -/
def selectProbe (cfg : Settings) (db : Db) (r : RunId) (e : Exec) (nonce : Nonce) (now : Time)
    (done : ListDone) : Db :=
  match selectAssignmentIds now cfg.submissionWindow done.recheckIds (db.assignments e.userId) with
  | [] => db.setPhase r e (done.afterProbe now)
  | ids => db.setPhase r e (.probing nonce now done ids)

/-- The transaction of `_refresh_submission_status` that writes the answers. -/
def storeProbe (db : Db) (r : RunId) (e : Exec) (now : Time) (done : ListDone)
    (fetched : Submissions) : Db :=
  let rows := applyExtensions fetched done.listed
    (applySubmissionStatus now fetched (db.assignments e.userId))
  { db with assignments := Function.update db.assignments e.userId rows }.setPhase r e
    (done.afterProbe now)

/-- `_rejected_token_still_stored`. -/
def rejectedTokenStillStored (db : Db) (userId : UserId) : Option Nonce → Bool
  | none => true
  | some nonce => (db.credentials userId).any fun c => c.nonce = nonce

/-- `mark_credentials_invalid`: the account and every job of the user. -/
def markCredentialsInvalid (db : Db) (userId : UserId) (now : Time) (error : String) : Db :=
  { db with
    accounts := Function.update db.accounts userId ((db.accounts userId).map fun account =>
      { account with
        credentialStatus := .invalid
        lastAuthFailureAt := some now
        lastAuthError := some error })
    jobs := db.jobs.modify fun k job =>
      if k.userId = userId then job.disable now error else job }

/-- `_record_failure`. -/
def recordFailure (cfg : Settings) (db : Db) (r : RunId) (e : Exec) (now : Time) (f : Report) :
    Db :=
  if db.Owns r e then
    let closed := db.updateRun r (·.close .failed now f.text)
    if f.disable = true ∧ db.rejectedTokenStillStored e.userId f.credentialNonce = true then
      let disabled := closed.updateJob e.jobId fun job =>
        { job.recordFailure now f.error with status := .disabled }
      match db.accounts e.userId with
      | some _ => disabled.markCredentialsInvalid e.userId now f.error
      | none => disabled
    else
      closed.updateJob e.jobId fun job =>
        (job.recordFailure now f.error).retry cfg (db.policyOf e) now (f.keepRetrying || f.disable)
  else db

/-- `_handle_moodle_failure` outside Moodle's hours. -/
def postpone (db : Db) (r : RunId) (e : Exec) (now resumeAt : Time) (error : String) : Db :=
  if db.Owns r e then
    (db.updateRun r (·.close .failed now ("moodle_maintenance:" ++ error))).updateJob e.jobId
      (·.postpone resumeAt error)
  else db

/-- The exception reaches its handler; `resumeAt` is when Moodle is back, if it is away. -/
def fail (cfg : Settings) (db : Db) (r : RunId) (e : Exec) (now : Time) (resumeAt : Option Time)
    (failure : Failure) : Db :=
  let f := failure.report
  let handled := match f.checksHours, resumeAt with
    | true, some resumeAt => db.postpone r e now resumeAt f.error
    | _, _ => db.recordFailure cfg r e now f
  handled.setPhase r e .ended

/-- `_finish_after_probe`. -/
def finish (db : Db) (r : RunId) (e : Exec) (now : Time) : Db :=
  if db.Owns r e then db.markSucceeded r e now else db.setPhase r e .ended

/-- `_keep_lock_fresh`. -/
def keepLockFresh (db : Db) (r : RunId) (e : Exec) (now : Time) : Db :=
  db.updateJob e.jobId fun job =>
    if job.Owned (e.token r) then { job with lockedAt := some now } else job

end Db

/-- What a run does next. -/
inductive Act
  | startRun (now : Time)
  | readCredential (now : Time)
  | moodleAnswers (answer : MoodleAnswer)
  | storeAnswer
  | selectProbe
  | probeAnswers (answer : ProbeAnswer)
  | storeProbe
  | finish
  | fail (now : Time) (resumeAt : Option Time)
  | keepLockFresh (now : Time)
  /-- An exception nobody expected, or a database error of the probe's transactions. -/
  | crash (name : String)

/-- The job type whose runs get the answer. -/
def Fetched.jobType : Fetched → SyncJobType
  | .courses .. => .ntustCourses
  | .noCourseAccess _ | .assignments .. => .moodleAssignments

/-- Where Moodle's answer to a fetch takes the run. -/
def MoodleAnswer.next (jobType : SyncJobType) (nonce : Nonce) (now : Time) :
    MoodleAnswer → Option Phase
  | .tokenInvalid => some (.failing (.credentialInvalid "moodle_token_invalid" (some nonce)))
  | .rateLimited => some (.failing .rateLimited)
  | .unreachable detail => some (.failing (.unreachable detail))
  | .crashed name => some (.failing (.crashed name))
  | .fetched answer =>
    if answer.jobType = jobType then some (.answered nonce now answer) else none

/-- Where Moodle's answer to the probe takes the run. -/
def ProbeAnswer.next (nonce : Nonce) (now : Time) (done : ListDone) (assignmentIds : List MoodleId) :
    ProbeAnswer → Option Phase
  | .tokenInvalid =>
    some (.failing (.credentialInvalid "moodle_token_invalid" (some nonce)))
  | .rateLimited => some (.failing .rateLimited)
  | .unreachable detail => some (.failing (.unreachable detail))
  | .other => some (done.afterProbe now)
  | .submissions fetched =>
    if ∀ id ∈ fetched.keys, id ∈ assignmentIds then some (.probed now done fetched) else none

/-- Where an exception takes the run; what the probe's requests raise is its answer. -/
def Phase.crash (name : String) : Phase → Option Phase
  | .listDone .. | .probed .. => some (.failing .submissionStatus)
  | .probing .. | .failing _ | .ended => none
  | _ => some (.failing (.crashed name))

/-- A step of a run in flight. -/
def runStep (cfg : Settings) (db : Db) (r : RunId) (e : Exec) : Act → Option Db
  | .startRun now =>
    match e.phase with
    | .claimed => some (db.startRun r e now)
    | _ => none
  | .readCredential now =>
    match e.phase with
    | .accountRead => some (db.readCredential r e now)
    | _ => none
  | .moodleAnswers answer =>
    match e.phase with
    | .fetching nonce now => (answer.next e.jobId.jobType nonce now).map (db.setPhase r e)
    | _ => none
  | .storeAnswer =>
    match e.phase with
    | .answered nonce now answer => some (db.storeAnswer r e nonce now answer)
    | _ => none
  | .selectProbe =>
    match e.phase with
    | .listDone nonce now done => some (db.selectProbe cfg r e nonce now done)
    | _ => none
  | .probeAnswers answer =>
    match e.phase with
    | .probing nonce now done ids => (answer.next nonce now done ids).map (db.setPhase r e)
    | _ => none
  | .storeProbe =>
    match e.phase with
    | .probed now done fetched => some (db.storeProbe r e now done fetched)
    | _ => none
  | .finish =>
    match e.phase with
    | .finishing now => some (db.finish r e now)
    | _ => none
  | .fail now resumeAt =>
    match e.phase with
    | .failing failure => some (db.fail cfg r e now resumeAt failure)
    | _ => none
  | .keepLockFresh now =>
    match e.phase with
    | .ended => none
    | _ => some (db.keepLockFresh r e now)
  | .crash name => (e.phase.crash name).map (db.setPhase r e)

/-- What happens to the rows beside the runs. -/
inductive Label
  /-- The next step of a run in flight. -/
  | run (r : RunId) (act : Act)
  /-- `_claim_due_job`. -/
  | claim (j : JobId) (workerId : String) (now : Time)
  /-- `_recover_stale_jobs`, of one job. -/
  | recoverStale (j : JobId) (now : Time)
  /-- A sign-in, from a device that may be new. -/
  | login (userId : UserId) (moodleToken : String) (newDevice : Bool) (now : Time)
  /-- `PATCH /v3/auth/credentials`, once Moodle has taken the token. -/
  | updateCredentials (userId : UserId) (moodleToken : String) (now : Time)
  /-- A device signs out, with `forget_credentials_once_signed_out`. -/
  | signOut (userId : UserId)
  /-- The key of a stored blob leaves the configuration. -/
  | dropKey (userId : UserId)
  /-- `run_now`. -/
  | runNow (j : JobId) (now : Time)
  | setPolicy (jobType : SyncJobType) (policy : Option SyncPolicy)
  /-- Any write of the user's apps to the assignment rows. -/
  | clientWrite (userId : UserId) (rows : Assignments)

namespace Db

/-- Whether the claim's query picks the job. -/
def Claimable (cfg : Settings) (db : Db) (j : JobId) (now : Time) : Prop :=
  (∃ job ∈ db.jobs.get j, job.due now = true) ∧
    (∃ policy ∈ db.policies j.jobType, policy.active now = true) ∧
      (db.jobs.select fun k job => k.userId = j.userId ∧ job.status = .running) = [] ∧
        (db.jobs.select fun _ job => job.status = .running).length < cfg.globalConcurrency

instance (cfg : Settings) (db : Db) (j : JobId) (now : Time) : Decidable (db.Claimable cfg j now) :=
  inferInstanceAs (Decidable ((∃ job ∈ db.jobs.get j, _) ∧ (∃ policy ∈ db.policies j.jobType, _) ∧
    _ ∧ _))

/-- `_claim_due_job`: the run's id makes the token new. -/
def claim (db : Db) (j : JobId) (workerId : String) (now : Time) : Db :=
  { db.updateJob j (·.claim ⟨workerId, db.nextRun⟩ now) with
    runs := Function.update db.runs db.nextRun (some ⟨j, .running, none, none, none, none⟩)
    execs := Function.update db.execs db.nextRun (some ⟨j, workerId, none, .claimed⟩)
    nextRun := db.nextRun + 1 }

/-- Whether the recovery's query picks the job. -/
def Stale (cfg : Settings) (db : Db) (j : JobId) (now : Time) : Prop :=
  ∃ job ∈ db.jobs.get j, job.status = .running ∧
    ∃ lockedAt ∈ job.lockedAt, lockedAt + cfg.staleLock < now

instance (cfg : Settings) (db : Db) (j : JobId) (now : Time) : Decidable (db.Stale cfg j now) :=
  inferInstanceAs (Decidable (∃ job ∈ db.jobs.get j, _ ∧ ∃ lockedAt ∈ job.lockedAt, _))

/-- `_recover_stale_jobs`. -/
def recoverStale (db : Db) (j : JobId) (now : Time) : Db :=
  { db.updateJob j (·.recoverStale now) with
    runs := fun r => (db.runs r).map fun run =>
      if run.jobId = j then run.close .failed now "stale_lock_recovered" else run }

/-- A fresh credential and an active account. -/
def storeCredential (db : Db) (userId : UserId) (moodleToken : String) (now : Time) : Db :=
  { db with
    accounts := Function.update db.accounts userId (some {
      credentialStatus := .active
      lastAuthSuccessAt := some now
      lastAuthFailureAt := (db.accounts userId).bind (·.lastAuthFailureAt)
      lastAuthError := none })
    credentials := Function.update db.credentials userId (some ⟨db.nextNonce, some moodleToken⟩)
    nextNonce := db.nextNonce + 1
    lastStored := Function.update db.lastStored userId (some db.nextNonce) }

/-- `ensure_sync_jobs`. -/
def ensureSyncJobs (db : Db) (userId : UserId) (now : Time) : Db :=
  let provision := fun jobs jobType =>
    Table.upsert jobs ⟨userId, jobType⟩ (SyncJob.provisioned (db.policies jobType) now)
      (·.revive now)
  { db with jobs := provision (provision db.jobs .moodleAssignments) .ntustCourses }

/-- A sign-in stores the credential, provisions the jobs and adds its device. -/
def login (db : Db) (userId : UserId) (moodleToken : String) (newDevice : Bool) (now : Time) : Db :=
  { (db.storeCredential userId moodleToken now).ensureSyncJobs userId now with
    devices := Function.update db.devices userId
      (if newDevice then db.devices userId + 1 else db.devices userId) }

/-- `update_credentials`: only an account that was not active has its jobs revived. -/
def updateCredentials (db : Db) (userId : UserId) (account : ExternalAccount)
    (moodleToken : String) (now : Time) : Db :=
  let stored := db.storeCredential userId moodleToken now
  if account.credentialStatus = .active then stored
  else
    { stored with
      jobs := db.jobs.modify fun k job => if k.userId = userId then job.revive now else job }

/-- The last device to sign out takes the credential with it. -/
def signOut (db : Db) (userId : UserId) : Db :=
  { db with
    devices := Function.update db.devices userId (db.devices userId - 1)
    credentials := if db.devices userId = 1 then Function.update db.credentials userId none
      else db.credentials }

end Db

/-- One step of the machine. -/
def step (cfg : Settings) (db : Db) : Label → Option Db
  | .run r act => (db.execs r).bind fun e => runStep cfg db r e act
  | .claim j workerId now =>
    if db.Claimable cfg j now then some (db.claim j workerId now) else none
  | .recoverStale j now => if db.Stale cfg j now then some (db.recoverStale j now) else none
  | .login userId moodleToken newDevice now =>
    if moodleToken ≠ "" ∧ (newDevice = true ∨ 0 < db.devices userId) then
      some (db.login userId moodleToken newDevice now)
    else none
  | .updateCredentials userId moodleToken now =>
    match db.accounts userId with
    | some account =>
      if moodleToken ≠ "" ∧ 0 < db.devices userId then
        some (db.updateCredentials userId account moodleToken now)
      else none
    | none => none
  | .signOut userId => if 0 < db.devices userId then some (db.signOut userId) else none
  | .dropKey userId => some { db with
      credentials := Function.update db.credentials userId
        ((db.credentials userId).map fun c => { c with moodleToken := none }) }
  | .runNow j now =>
    match (db.jobs.get j).bind fun job => job.runNow cfg now with
    | some job => some { db with jobs := db.jobs.set j job }
    | none => none
  | .setPolicy jobType policy => some { db with
      policies := Function.update db.policies jobType policy }
  | .clientWrite userId rows => some { db with
      assignments := Function.update db.assignments userId rows }

/-! ### What a step can do -/

/-- The steps of a run one by one, with the phase each leaves. -/
inductive RunSteps (cfg : Settings) (db : Db) (r : RunId) (e : Exec) : Act → Db → Prop
  | startRun {now : Time} (hphase : e.phase = .claimed) :
      RunSteps cfg db r e (.startRun now) (db.startRun r e now)
  | readCredential {now : Time} (hphase : e.phase = .accountRead) :
      RunSteps cfg db r e (.readCredential now) (db.readCredential r e now)
  | moodleAnswers {answer : MoodleAnswer} {nonce : Nonce} {now : Time} {phase : Phase}
      (hphase : e.phase = .fetching nonce now)
      (hnext : answer.next e.jobId.jobType nonce now = some phase) :
      RunSteps cfg db r e (.moodleAnswers answer) (db.setPhase r e phase)
  | storeAnswer {nonce : Nonce} {now : Time} {answer : Fetched}
      (hphase : e.phase = .answered nonce now answer) :
      RunSteps cfg db r e .storeAnswer (db.storeAnswer r e nonce now answer)
  | selectProbe {nonce : Nonce} {now : Time} {done : ListDone}
      (hphase : e.phase = .listDone nonce now done) :
      RunSteps cfg db r e .selectProbe (db.selectProbe cfg r e nonce now done)
  | probeAnswers {answer : ProbeAnswer} {nonce : Nonce} {now : Time} {done : ListDone}
      {ids : List MoodleId} {phase : Phase} (hphase : e.phase = .probing nonce now done ids)
      (hnext : answer.next nonce now done ids = some phase) :
      RunSteps cfg db r e (.probeAnswers answer) (db.setPhase r e phase)
  | storeProbe {now : Time} {done : ListDone} {fetched : Submissions}
      (hphase : e.phase = .probed now done fetched) :
      RunSteps cfg db r e .storeProbe (db.storeProbe r e now done fetched)
  | finish {now : Time} (hphase : e.phase = .finishing now) :
      RunSteps cfg db r e .finish (db.finish r e now)
  | fail {now : Time} {resumeAt : Option Time} {failure : Failure}
      (hphase : e.phase = .failing failure) :
      RunSteps cfg db r e (.fail now resumeAt) (db.fail cfg r e now resumeAt failure)
  | keepLockFresh {now : Time} (hphase : e.phase ≠ .ended) :
      RunSteps cfg db r e (.keepLockFresh now) (db.keepLockFresh r e now)
  | crash {name : String} {phase : Phase} (hnext : e.phase.crash name = some phase) :
      RunSteps cfg db r e (.crash name) (db.setPhase r e phase)

/-- A step of a run is one of these. -/
theorem runStep_cases {cfg : Settings} {db db' : Db} {r : RunId} {e : Exec} {act : Act}
    (h : runStep cfg db r e act = some db') : RunSteps cfg db r e act db' := by
  cases act with
  | startRun now =>
    simp only [runStep] at h
    split at h <;> cases h
    next hphase => exact .startRun hphase
  | readCredential now =>
    simp only [runStep] at h
    split at h <;> cases h
    next hphase => exact .readCredential hphase
  | moodleAnswers answer =>
    simp only [runStep] at h
    split at h
    next hphase =>
      obtain ⟨phase, hnext, rfl⟩ := Option.map_eq_some_iff.mp h
      exact .moodleAnswers hphase hnext
    next => cases h
  | storeAnswer =>
    simp only [runStep] at h
    split at h <;> cases h
    next hphase => exact .storeAnswer hphase
  | selectProbe =>
    simp only [runStep] at h
    split at h <;> cases h
    next hphase => exact .selectProbe hphase
  | probeAnswers answer =>
    simp only [runStep] at h
    split at h
    next hphase =>
      obtain ⟨phase, hnext, rfl⟩ := Option.map_eq_some_iff.mp h
      exact .probeAnswers hphase hnext
    next => cases h
  | storeProbe =>
    simp only [runStep] at h
    split at h <;> cases h
    next hphase => exact .storeProbe hphase
  | finish =>
    simp only [runStep] at h
    split at h <;> cases h
    next hphase => exact .finish hphase
  | fail now resumeAt =>
    simp only [runStep] at h
    split at h <;> cases h
    next hphase => exact .fail hphase
  | keepLockFresh now =>
    simp only [runStep] at h
    split at h <;> cases h
    next hphase => exact .keepLockFresh hphase
  | crash name =>
    obtain ⟨phase, hnext, rfl⟩ := Option.map_eq_some_iff.mp h
    exact .crash hnext

/-- The steps of the machine one by one, with what each has found. -/
inductive Steps (cfg : Settings) (db : Db) : Label → Db → Prop
  | run {r : RunId} {act : Act} {e : Exec} {db' : Db} (he : db.execs r = some e)
      (hrun : runStep cfg db r e act = some db') : Steps cfg db (.run r act) db'
  | claim {j : JobId} {workerId : String} {now : Time} (hclaimable : db.Claimable cfg j now) :
      Steps cfg db (.claim j workerId now) (db.claim j workerId now)
  | recoverStale {j : JobId} {now : Time} (hstale : db.Stale cfg j now) :
      Steps cfg db (.recoverStale j now) (db.recoverStale j now)
  | login {userId : UserId} {moodleToken : String} {newDevice : Bool} {now : Time}
      (htoken : moodleToken ≠ "") (hdevice : newDevice = true ∨ 0 < db.devices userId) :
      Steps cfg db (.login userId moodleToken newDevice now)
        (db.login userId moodleToken newDevice now)
  | updateCredentials {userId : UserId} {moodleToken : String} {now : Time}
      {account : ExternalAccount} (haccount : db.accounts userId = some account)
      (htoken : moodleToken ≠ "") (hdevice : 0 < db.devices userId) :
      Steps cfg db (.updateCredentials userId moodleToken now)
        (db.updateCredentials userId account moodleToken now)
  | signOut {userId : UserId} (hdevice : 0 < db.devices userId) :
      Steps cfg db (.signOut userId) (db.signOut userId)
  | dropKey {userId : UserId} :
      Steps cfg db (.dropKey userId) { db with
        credentials := Function.update db.credentials userId
          ((db.credentials userId).map fun c => { c with moodleToken := none }) }
  | runNow {j : JobId} {now : Time} {job job' : SyncJob} (hjob : db.jobs.get j = some job)
      (hqueue : job.runNow cfg now = some job') :
      Steps cfg db (.runNow j now) { db with jobs := db.jobs.set j job' }
  | setPolicy {jobType : SyncJobType} {policy : Option SyncPolicy} :
      Steps cfg db (.setPolicy jobType policy) { db with
        policies := Function.update db.policies jobType policy }
  | clientWrite {userId : UserId} {rows : Assignments} :
      Steps cfg db (.clientWrite userId rows) { db with
        assignments := Function.update db.assignments userId rows }

/-- A step is one of these. -/
theorem step_cases {cfg : Settings} {db db' : Db} {l : Label} (h : step cfg db l = some db') :
    Steps cfg db l db' := by
  cases l with
  | run r act =>
    obtain ⟨e, he, hrun⟩ := Option.bind_eq_some_iff.mp h
    exact .run he hrun
  | claim j workerId now =>
    simp only [step] at h
    split at h <;> cases h
    next hclaimable => exact .claim hclaimable
  | recoverStale j now =>
    simp only [step] at h
    split at h <;> cases h
    next hstale => exact .recoverStale hstale
  | login userId moodleToken newDevice now =>
    simp only [step] at h
    split at h <;> cases h
    next hguard => exact .login hguard.1 hguard.2
  | updateCredentials userId moodleToken now =>
    simp only [step] at h
    split at h
    next account haccount =>
      split at h <;> cases h
      next hguard => exact .updateCredentials haccount hguard.1 hguard.2
    next => cases h
  | signOut userId =>
    simp only [step] at h
    split at h <;> cases h
    next hdevice => exact .signOut hdevice
  | dropKey userId => cases h; exact .dropKey
  | runNow j now =>
    simp only [step] at h
    split at h
    next job' hqueued =>
      cases h
      obtain ⟨job, hjob, hqueue⟩ := Option.bind_eq_some_iff.mp hqueued
      exact .runNow hjob hqueue
    next => cases h
  | setPolicy jobType policy => cases h; exact .setPolicy
  | clientWrite userId rows => cases h; exact .clientWrite

end TigerDuck.SyncJobs
