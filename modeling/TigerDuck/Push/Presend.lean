import TigerDuck.Push.ReminderRows
import TigerDuck.Push.Writes

/-!
# The pre-send check

`server/push/presend.py`: what the rows of a job's assignment settle (`_database_verdict`), what
Moodle is asked when they settle nothing (`_ask_moodle`), and the second look at the rows under
the job's lock (`recheck_rows`). The machine runs the pipeline over the users' rows: its rounds
and checks read them, and any other transaction may change them in between. A round stands at
the moment it looks at the rows again, its job locked from before then to its commit.

What a round that finds a submission writes to the rows (`record_submitted`) is one of those
changes, and what happens to a call to Moodle is part of the label, as is whether an earlier one
of the tick has opened the breaker.
-/

namespace TigerDuck.Push

open Relational Sync SyncJobs Transition

/-- The part of a `FetchedSubmission` the check reads. -/
structure SubmissionStatus where
  isSubmitted : Bool
  submissionsEnabled : Bool
  locked : Bool
  extensionDueAt : Option Time
  deriving DecidableEq, Repr

/-- What becomes of a check that the rows leave open. -/
inductive MoodleCall
  | breakerOpen
  | unconfigured
  | credentialInvalid
  | timeout
  | unavailable
  | rateLimited
  | tokenInvalid
  | refused
  | error
  | noAnswer
  | answer (status : SubmissionStatus)
  deriving DecidableEq, Repr

/-- The digits of an ASCII number, as `int` reads them. -/
def decimal (s : String) : Option Nat :=
  if s.toList ≠ [] ∧ s.toList.all (·.isDigit) = true then
    some (s.toList.foldl (fun n c => 10 * n + (c.toNat - '0'.toNat)) 0)
  else none

namespace PushJob

/-- `_assignment_id`: a reminder names its assignment; a countdown's source id is its text. -/
def assignmentId (job : PushJob) : Option MoodleId :=
  if job.channel = .assignment then job.payload.moodleAssignmentId
  else (job.payload.sourceId.bind decimal).map Int.ofNat

/-- The due time the job was filed with, in unix seconds. -/
def filedDue (job : PushJob) : Option Int :=
  if job.channel = .assignment then job.payload.dueEpoch else job.payload.countdownTarget

/-- `_due_epoch`: a countdown without a target counts down to the latest due time. -/
def dueEpoch (job : PushJob) (alive : List UserAssignment) : Option Int :=
  if job.channel = .assignment then job.filedDue
  else job.filedDue.or (((alive.filterMap (·.dueAt)).map dueSeconds).max?.map Int.ofNat)

end PushJob

namespace Presend

def gone : PresendCheck := ⟨.gone, none⟩

def unverified : PresendCheck := ⟨.unverified, none⟩

/-- `_assignment_rows`. -/
def assignmentRows (rows : UserRows) (id : MoodleId) : List (AssignmentKey × UserAssignment) :=
  rows.assignments.select fun k _ => k.moodleAssignmentId = id

/-- The rows that are not deleted. -/
def alive (found : List (AssignmentKey × UserAssignment)) : List UserAssignment :=
  (found.map Prod.snd).filter (·.deletedAt.isNone)

/-- Whether the row is due in that second. -/
def dueAtEpoch (epoch : Option Int) (row : UserAssignment) : Bool :=
  row.dueAt.any fun due => some (Int.ofNat (dueSeconds due)) = epoch

/-- `_database_verdict`: a submission, a mark and an ignored course count on any row. -/
def databaseVerdict (rows : UserRows) (term : Option String) (job : PushJob) (id : MoodleId)
    (now : Time) : Option PresendCheck :=
  let found := assignmentRows rows id
  let epoch := job.dueEpoch (alive found)
  if found.any (·.2.providerIsSubmitted) then some ⟨.submitted, some id⟩
  else if found.any fun r => rows.marked r.2 then some gone
  else if found.any fun r => (rows.ignoredCourses term).has r.1 r.2 then some gone
  else if alive found = [] then some gone
  else if (job.channel = .assignment ∨ epoch.isSome = true) ∧
      (alive found).any (dueAtEpoch epoch) = false then
    some gone
  -- Claimed late, or deferred past it.
  else if epoch.any (fun e => e * (SECOND : Int) ≤ now) then some gone
  else none

/-- `recheck_rows`. -/
def recheckRows (rows : UserRows) (term : Option String) (job : PushJob) (now : Time) :
    Option PresendCheck :=
  match job.assignmentId with
  | none => some gone
  | some id => databaseVerdict rows term job id now

/-- Whether the time the job counts down to is the student's extension, as a row stores it. -/
def extended (rows : UserRows) (job : PushJob) (id : MoodleId) : Bool :=
  let rows := alive (assignmentRows rows id)
  (job.dueEpoch rows).any fun epoch => rows.any fun row =>
    row.extensionDueAt.any fun due => Int.ofNat (dueSeconds due) = epoch

/-- The answer's part of `_ask_moodle`. -/
def answerVerdict (id : MoodleId) (epoch : Option Int) (extended : Bool)
    (status : SubmissionStatus) : PresendCheck :=
  let extension := status.extensionDueAt.map fun due => Int.ofNat (dueSeconds due)
  if status.isSubmitted then ⟨.submitted, some id⟩
  else if status.submissionsEnabled = false then gone
  else if status.locked then gone
  -- The job counts down to a deadline this student no longer has.
  else if extension.any (fun e => epoch.all (· < e)) then gone
  -- The extension it counts down to was shortened or withdrawn.
  else if extended && extension.all (fun e => epoch.any (e < ·)) then gone
  else ⟨.send, some id⟩

/-- `_ask_moodle`, and what keeps it from being asked. -/
def askMoodle (id : MoodleId) (epoch : Option Int) (extended : Bool) : MoodleCall → PresendCheck
  | .answer status => answerVerdict id epoch extended status
  | _ => unverified

/-- `check_before_send` of a job it applies to. -/
def verdict (rows : UserRows) (term : Option String) (job : PushJob) (now : Time)
    (call : MoodleCall) : PresendCheck :=
  match job.assignmentId with
  | none => gone
  | some id =>
    (databaseVerdict rows term job id now).getD
      (askMoodle id (job.dueEpoch (alive (assignmentRows rows id))) (extended rows job id) call)

/-! ### The pipeline over the users' rows -/

/-- The pipeline, the users' rows and the published terms. -/
structure State where
  db : Db
  users : Table UserId UserRows
  terms : List SemesterTerm

def State.initial : State := ⟨Db.initial, Table.empty, []⟩

inductive Label
  /-- A step of the pipeline that reads no assignment, or another writer of the jobs. -/
  | jobs (l : Push.Label)
  | check (t : TickId) (j : JobId) (now : Time) (call : MoodleCall)
  | process (t : TickId) (now : Time) (round : Round) (skip : JobId → Bool) (ends : List NewJob)
  /-- An upload, a mark, a submission, a moved date: any transaction that writes the rows. -/
  | write (users : Table UserId UserRows) (terms : List SemesterTerm)

namespace State

variable (s : State)

/-- The rows of the job's user. -/
def rowsOf (job : PushJob) : UserRows := (s.users.get job.userId).getD .empty

/-- What the second look at the rows finds of the job a tick processes. -/
def recheck (t : TickId) (now : Time) : Option PresendCheck :=
  (s.db.ticks t).bind fun tick => tick.batch.head?.bind fun c => (s.db.jobs.get c.jobId).bind
    fun job => recheckRows (s.rowsOf job) (currentTermCode s.terms now) job now

/-- The verdict a check of the job comes to. -/
def verdict (j : JobId) (now : Time) (call : MoodleCall) : PresendCheck :=
  (s.db.jobs.get j).elim unverified fun job =>
    Presend.verdict (s.rowsOf job) (currentTermCode s.terms now) job now call

end State

/-- Whether the pipeline's step reads no assignment. -/
def readsNone : Push.Label → Bool
  | .check .. | .process .. => false
  | _ => true

/-- One step. -/
def step (cfg : Settings) (s : State) : Label → Option State
  | .jobs l =>
    if readsNone l then (Push.step cfg s.db l).map fun db => { s with db } else none
  | .check t j now call =>
    (Push.step cfg s.db (.check t j (s.verdict j now call))).map fun db => { s with db }
  | .process t now round skip ends =>
    let round := { round with rowsVerdict := s.recheck t now }
    (Push.step cfg s.db (.process t now round skip ends)).map fun db => { s with db }
  | .write users terms => some { s with users, terms }

end Presend

end TigerDuck.Push
