import Mathlib.Algebra.Group.Nat.Defs
import TigerDuck.SyncJobs.Assignments

/-!
# Push jobs

A row of `push_jobs` with its `push_deliveries`, and what one transaction of
`server/push/pipeline.py` makes of it: the claim, the recovery of a stale claim, the hold of
the pre-send check (`_held_back`), the deliveries of a round (`_materialize`) and the round
itself (`_deliver_round`).

What a round reads from other tables and what the push services answer is its `Round`; the
texts, tokens and payloads that only the services see are left out.
-/

namespace TigerDuck.Push

open SyncJobs (MoodleId)

/-- A `users.id`. -/
abbrev UserId := Nat

/-- A `push_jobs.id`. -/
abbrev JobId := Nat

inductive Channel
  | assignment
  | course
  | bulletin
  | system
  | custom
  | schedule
  deriving DecidableEq, Repr

inductive PushJobStatus
  | pending
  | processing
  | sent
  | partialFailed
  | failed
  | cancelled
  deriving DecidableEq, Repr

inductive PushDeliveryStatus
  | pending
  | sent
  | failed
  | skipped
  deriving DecidableEq, Repr

/-- The scenarios the pipeline tells apart; a reminder's names its offset. -/
inductive Scenario
  | reminder (offset : String)
  | classPreparing
  | inClass
  | assignmentUrgent
  | activityEnd
  | reauthRequired
  | syncTrigger
  | other (name : String)
  deriving DecidableEq, Repr

/-- The `dedupe_key` of a job: of an assignment's or a class's reminder, of a device's start
(`schedule_key`) or end (`activity_end_key`), of the trigger a change files after another, or of
another kind. -/
inductive DedupeKey
  | reminder (moodleAssignmentId : MoodleId) (offset : String) (dueEpoch : Nat)
  | courseReminder (userCourseId : Nat) (offset : String) (startEpoch : Nat)
  | schedule (deviceId : DeviceId) (sourceId : String) (scenario : Scenario)
  | activityEnd (deviceId : DeviceId) (activityId : String)
  | finished (deviceId : DeviceId) (activityId : String) (jobId : JobId)
  | syncTrigger (userId : UserId) (after : JobId)
  | other (key : String)
  deriving DecidableEq, Repr

/-- The part of a payload the pipeline decides by. -/
structure Payload where
  /-- Whether `kind` is `live_activity_end`. -/
  activityEnd : Bool
  activityId : Option String
  /-- Whether `reason` is `SESSION_REAUTH_REASON`. -/
  sessionReauth : Bool
  /-- Whether `source` is `portal_force`. -/
  forced : Bool
  sourceDeviceId : Option DeviceId
  /-- `assignment_title`: a job filed with finished copy has none. -/
  assignmentTitle : Option String := none
  /-- `moodle_assignment_id`, where it is an integer. -/
  moodleAssignmentId : Option MoodleId := none
  /-- `due_epoch`, where it is a number, as `int` makes it. -/
  dueEpoch : Option Int := none
  sourceId : Option String := none
  /-- What `_to_unix_seconds` makes of `countdownTarget`. -/
  countdownTarget : Option Int := none
  deriving DecidableEq, Repr

/-- What makes a delivery unique within its job. -/
structure TokenKey where
  tokenHash : String
  tokenKind : String
  scopeKey : String
  deriving DecidableEq, Repr

/-- A row of `push_deliveries`. -/
structure PushDelivery where
  token : TokenKey
  deviceId : Option DeviceId
  status : PushDeliveryStatus
  attempts : Nat
  maxAttempts : Nat
  nextRetryAt : Time
  sentAt : Option Time
  failureCode : Option String
  deriving DecidableEq, Repr

/-- A row of `push_jobs`, with its deliveries. -/
structure PushJob where
  userId : UserId
  deviceId : Option DeviceId
  dedupeKey : DedupeKey
  channel : Channel
  scenario : Scenario
  payload : Payload
  fireAt : Time
  availableAt : Time
  priority : Nat
  status : PushJobStatus
  attempts : Nat
  maxAttempts : Nat
  lockedBy : Option String
  lockedAt : Option Time
  lastError : Option String
  sentAt : Option Time
  cancelledAt : Option Time
  deliveries : List PushDelivery
  deriving DecidableEq, Repr

structure Settings where
  batchSize : Nat
  staleLock : Time
  retryRoundDelay : Time
  presendRetry : Time
  presendGrace : Time

def SECOND : Time := 1000000

def LIVE_ACTIVITY_JOB_PRIORITY : Nat := 10

/-- `sync_trigger.MIN_GAP`. -/
def SYNC_TRIGGER_GAP : Time := 20 * 60 * SECOND

def COUNTDOWN_WAIT_UNTIL : Time := 30 * SECOND

def COUNTDOWN_WAIT : Time := 60 * SECOND

def HELD_START_RECHECK : Time := 300 * SECOND

inductive Verdict
  | send
  | submitted
  | gone
  | unverified
  deriving DecidableEq, Repr

/-- A `PresendCheck`; its reason is only logged. -/
structure PresendCheck where
  verdict : Verdict
  moodleAssignmentId : Option MoodleId
  deriving DecidableEq, Repr

/-- What `_held_by_course_changes` finds: the check failed, the class is gone, or it begins
later by `delay`. -/
inductive CourseRecheck
  | unconfirmed
  | changed
  | begins (delay : Time)
  deriving DecidableEq, Repr

/-- An active token the round's query returns, with what `_materialize` reads of its device. -/
structure TokenRow where
  token : TokenKey
  deviceId : DeviceId
  macos : Bool
  schedulesLocally : Bool
  deriving DecidableEq, Repr

/-- How `_send_one` ends. -/
inductive SendResult
  | tokenGone
  | emptyCopy
  | success
  | unregistered
  | refused (code : String)
  deriving DecidableEq, Repr

/-- What a round reads from other tables, and how its sends end. -/
structure Round where
  /-- `recheck_rows`: what the assignment's rows settle now. -/
  rowsVerdict : Option PresendCheck
  /-- `announced_while_sessionless`, of the job's device. -/
  announcedAt : Option Time
  /-- `send_after`. -/
  sendAfter : Option Time
  /-- `_classes_quiet`. -/
  quiet : Option String
  courseRecheck : CourseRecheck
  /-- `_activity_already_registered`. -/
  registered : Bool
  /-- `_last_sync_trigger_sent`. -/
  lastTriggerSent : Option Time
  tokens : List TokenRow
  /-- `_countdown_starts`: devices whose countdown start rang, and those still to register. -/
  covered : List (DeviceId × Time)
  waiting : List (DeviceId × Time)
  sends : TokenKey → SendResult

namespace PushJob

/-- `_has_deliveries`. -/
def hasDeliveries (job : PushJob) : Bool := !job.deliveries.isEmpty

/-- Whether a delivery of the job was committed as sent. -/
def HasSent (job : PushJob) : Prop := ∃ d ∈ job.deliveries, d.status = .sent

instance (job : PushJob) : Decidable job.HasSent :=
  inferInstanceAs (Decidable (∃ d ∈ job.deliveries, _))

/-- `needs_check`: an assignment reminder, or the start of a device's countdown. -/
def needsCheck (job : PushJob) : Bool :=
  match job.channel, job.scenario with
  | .assignment, .reminder _ => true
  | .schedule, .assignmentUrgent =>
    !job.payload.activityEnd && job.deviceId.any fun deviceId =>
      match job.dedupeKey with
      | .schedule d _ _ => d = deviceId
      | _ => false
  | _, _ => false

/-- `_due`, of a job not in `skip`. -/
def due (job : PushJob) (now : Time) : Bool :=
  decide (job.status = .pending) && decide (job.fireAt ≤ now) && decide (job.availableAt ≤ now)

def unlock (job : PushJob) : PushJob := { job with lockedBy := none, lockedAt := none }

/-- The claim of `_claim_due_jobs`. -/
def claim (job : PushJob) (workerId : String) (now : Time) : PushJob :=
  { job with status := .processing, lockedBy := some workerId, lockedAt := some now }

/-- `_recover_stale_jobs`. -/
def recoverStale (cfg : Settings) (job : PushJob) (now : Time) : PushJob :=
  let attempts := job.attempts + 1
  if job.maxAttempts ≤ attempts then
    { job.unlock with attempts, status := .failed, lastError := some "stale_lock" }
  else
    { job.unlock with
      attempts
      status := .pending
      availableAt := now + cfg.retryRoundDelay * 2 ^ (attempts - 1) }

/-- `_release_claimed`: back as it was, no attempt spent. -/
def release (job : PushJob) : PushJob := { job.unlock with status := .pending }

/-- The handler of a crashed round. -/
def crash (cfg : Settings) (job : PushJob) (now : Time) : PushJob :=
  let attempts := job.attempts + 1
  if job.maxAttempts ≤ attempts then
    { job.unlock with attempts, status := .failed, lastError := some "pipeline_crash" }
  else
    { job.unlock with attempts, status := .pending, availableAt := now + cfg.retryRoundDelay }

/-- A waiting job that a scan, a submission or a schedule sync takes back. -/
def cancel (job : PushJob) (now : Time) : PushJob :=
  { job with status := .cancelled, cancelledAt := some now }

/-- `_settle` as cancelled. -/
def settleCancelled (job : PushJob) (now : Time) (error : String) : PushJob :=
  { job.unlock with status := .cancelled, lastError := some error, cancelledAt := some now }

/-- `_settle` as failed. -/
def settleFailed (job : PushJob) (error : String) : PushJob :=
  { job.unlock with status := .failed, lastError := some error }

/-- Back to pending without spending an attempt. -/
def putBack (job : PushJob) (availableAt : Time) : PushJob :=
  { job.unlock with status := .pending, availableAt }

/-! ### The pre-send check -/

/-- When the grace after the job's fire time is over. -/
def graceEnd (cfg : Settings) (job : PushJob) : Time := job.fireAt + cfg.presendGrace

/-- The verdict `_held_back` acts on: a `send` stands only if the rows still say the job is
due, and only within the grace. -/
def finalCheck (cfg : Settings) (job : PushJob) (now : Time) (check : PresendCheck)
    (rowsVerdict : Option PresendCheck) : PresendCheck :=
  let check := if check.verdict = .send then rowsVerdict.getD check else check
  if check.verdict = .send ∧ job.graceEnd cfg ≤ now then
    ⟨.gone, check.moodleAssignmentId⟩
  else check

/-- `_held_back` on the job's row, for the final verdict. -/
def heldBack (cfg : Settings) (job : PushJob) (now : Time) : Verdict → PushJob
  | .send => job
  | .submitted => job.settleCancelled now "submitted_before_send"
  | .gone => job.settleCancelled now "stale_before_send"
  | .unverified =>
    if now < job.graceEnd cfg then job.putBack (now + cfg.presendRetry)
    else job.settleCancelled now "unverified_before_send"

/-! ### The deliveries of a round -/

/-- `_held_by_course_changes`; `none` lets the round go on. -/
def heldByCourseChanges (job : PushJob) (now : Time) : CourseRecheck → Option PushJob
  | .unconfirmed => some (job.settleCancelled now "unverified_before_send")
  | .changed => some (job.settleCancelled now "class_changed")
  | .begins delay =>
    if now < job.fireAt + delay then
      some (job.putBack (min (job.fireAt + delay) (now + HELD_START_RECHECK)))
    else none

/-- A pending delivery of a round that is not to go out. -/
def skipPending (code : String) (d : PushDelivery) : PushDelivery :=
  if d.status = .pending then { d with status := .skipped, failureCode := some code } else d

/-- Whether the job asks one device to sign in again. -/
def isSessionReauth (job : PushJob) : Bool :=
  decide (job.scenario = .reauthRequired) && job.payload.sessionReauth

/-- The session reauth's part of `_materialize`. -/
def holdSessionReauth (job : PushJob) (now : Time) (round : Round) : Option PushJob :=
  if job.isSessionReauth then
    match job.deviceId.bind fun _ => round.announcedAt with
    | none =>
      -- Signed in again since: what has not gone out is skipped, and the job cancelled.
      some ({ job with deliveries := job.deliveries.map (skipPending "stale_before_send") }.settleCancelled
        now "stale_before_send")
    | some _ => round.sendAfter.map job.putBack
  else none

/-- Whether the job announces a class (`_CLASS_SCENARIOS`). -/
def announcesClass (job : PushJob) : Bool :=
  decide (job.scenario = .classPreparing) || decide (job.scenario = .inClass)

/-- The Live Activity's part of `_materialize`: an end goes on, and what holds a start back is
asked only before its first delivery. -/
def holdActivity (job : PushJob) (now : Time) (round : Round) : Option PushJob :=
  if job.channel ≠ .schedule then none
  else if job.payload.activityId = none then some (job.settleFailed "missing_activity_id")
  else if job.payload.activityEnd || job.hasDeliveries then none
  else
    let classHold :=
      if job.announcesClass then
        match round.quiet with
        | some quiet => some (job.settleCancelled now quiet)
        | none => job.heldByCourseChanges now round.courseRecheck
      else none
    -- The app may have started the activity itself.
    classHold.or
      (if round.registered then some (job.settleCancelled now "activity_already_running") else none)

/-- The class reminder's part of `_materialize`. -/
def holdCourse (job : PushJob) (now : Time) (round : Round) : Option PushJob :=
  if job.channel = .course ∧ job.hasDeliveries = false then
    job.heldByCourseChanges now round.courseRecheck
  else none

/-- The sync trigger's part of `_materialize`: paced from the last one sent. -/
def holdSyncTrigger (job : PushJob) (round : Round) : Option PushJob :=
  if job.scenario = .syncTrigger ∧ job.payload.forced = false then
    round.lastTriggerSent.map fun last => job.putBack (last + SYNC_TRIGGER_GAP)
  else none

/-- Whether the round is the job's first and a countdown start concerns it. -/
def firstRound (job : PushJob) (round : Round) : Bool :=
  decide (job.channel = .assignment) && !(round.covered.isEmpty && round.waiting.isEmpty) &&
    !job.hasDeliveries

/-- The assignment reminder's wait for a countdown start to register. -/
def holdForCountdown (cfg : Settings) (job : PushJob) (now : Time) (round : Round) :
    Option PushJob :=
  let latest := (round.waiting.map Prod.snd).foldr max 0
  if round.waiting ≠ [] ∧ job.firstRound round = true ∧ now < latest + COUNTDOWN_WAIT_UNTIL ∧
      job.availableAt < job.fireAt + COUNTDOWN_WAIT ∧
      now + 2 * COUNTDOWN_WAIT < job.graceEnd cfg then
    some (job.putBack (now + COUNTDOWN_WAIT))
  else none

/-- Whether the token's device gets no delivery, other than for a countdown that rang. -/
def leavesOut (job : PushJob) (row : TokenRow) : Bool :=
  row.macos || (decide (job.channel = .assignment) && row.schedulesLocally)

/-- Whether the countdown start rang on the device for this reminder. -/
def isCovered (job : PushJob) (round : Round) (row : TokenRow) : Bool :=
  decide (job.channel = .assignment) && round.covered.any fun c => c.1 = row.deviceId

/-- The tokens a round files deliveries for. -/
def recipients (job : PushJob) (round : Round) : List TokenRow :=
  round.tokens.filter fun row =>
    !job.leavesOut row && !job.isCovered round row &&
      !(decide (job.scenario = .syncTrigger) && decide (job.payload.sourceDeviceId = some row.deviceId))

/-- A new delivery. -/
def newDelivery (now : Time) (row : TokenRow) : PushDelivery where
  token := row.token
  deviceId := some row.deviceId
  status := .pending
  attempts := 0
  maxAttempts := 3
  nextRetryAt := now
  sentAt := none
  failureCode := none

/-- One delivery per token, none for a token that has one (`ux_push_delivery_job_token`). -/
def insertDeliveries (job : PushJob) (now : Time) (rows : List TokenRow) : PushJob :=
  { job with
    deliveries := rows.foldl (fun deliveries row =>
      if deliveries.any fun d => d.token = row.token then deliveries
      else deliveries ++ [newDelivery now row]) job.deliveries }

/-- The end of `_materialize`: what the tokens come to. -/
def fileDeliveries (job : PushJob) (now : Time) (round : Round) : PushJob × Bool :=
  match job.recipients round with
  | [] =>
    -- Every device that would take it already rang for this moment.
    if job.firstRound round && round.tokens.any fun row =>
        !job.leavesOut row && job.isCovered round row then
      (job.settleCancelled now "countdown_start_sent", false)
    else (job, true)
  | rows => (job.insertDeliveries now rows, true)

/-- `_materialize`: the job, and whether its round goes on. -/
def materialize (cfg : Settings) (job : PushJob) (now : Time) (round : Round) : PushJob × Bool :=
  if job.deviceId = none ∧ (job.channel = .schedule ∨ job.channel = .custom) then
    if job.hasDeliveries then (job, true) else (job.settleCancelled now "device_gone", false)
  else
    let held := (job.holdSessionReauth now round).or <| (job.holdActivity now round).or <|
      (job.holdCourse now round).or <| (job.holdSyncTrigger round).or <|
      if round.tokens = [] then none else job.holdForCountdown cfg now round
    match held with
    | some job => (job, false)
    | none => job.fileDeliveries now round

/-! ### The round -/

/-- `_send_one`. -/
def sendOne (cfg : Settings) (now : Time) (result : SendResult) (d : PushDelivery) :
    PushDelivery :=
  match result with
  | .tokenGone => { d with status := .skipped, failureCode := some "token_gone" }
  | .emptyCopy => { d with status := .skipped, failureCode := some "empty_copy" }
  | .success => { d with attempts := d.attempts + 1, status := .sent, sentAt := some now }
  | .unregistered =>
    { d with attempts := d.attempts + 1, status := .failed, failureCode := some "unregistered" }
  | .refused code =>
    if d.maxAttempts ≤ d.attempts + 1 then
      { d with attempts := d.attempts + 1, status := .failed, failureCode := some code }
    else
      { d with
        attempts := d.attempts + 1
        failureCode := some code
        nextRetryAt := now + cfg.retryRoundDelay }

/-- Whether a round sends the delivery. -/
def dueDelivery (now : Time) (d : PushDelivery) : Bool :=
  decide (d.status = .pending) && decide (d.nextRetryAt ≤ now)

/-- A round's sends: every pending delivery that is due, once. -/
def sendDue (cfg : Settings) (job : PushJob) (now : Time) (round : Round) : List PushDelivery :=
  job.deliveries.map fun d =>
    if dueDelivery now d then sendOne cfg now (round.sends d.token) d else d

/-- A delivery that is still pending after the job's last round. -/
def exhaust (d : PushDelivery) : PushDelivery :=
  if d.status = .pending then
    { d with status := .failed, failureCode := d.failureCode.or (some "retries_exhausted") }
  else d

/-- The job's status once no delivery is pending. -/
def aggregate (job : PushJob) (now : Time) (deliveries : List PushDelivery) : PushJob :=
  let sent := deliveries.any fun d => d.status = .sent
  let failed := deliveries.any fun d => d.status = .failed
  let job := { job.unlock with deliveries }
  if sent && !failed then { job with status := .sent, sentAt := some now }
  else if sent then { job with status := .partialFailed, sentAt := some now }
  else
    { job with
      status := .failed
      lastError := some (if failed then "all_deliveries_failed" else "all_tokens_skipped") }

/-- `_deliver_round`. -/
def deliverRound (cfg : Settings) (job : PushJob) (now : Time) (round : Round) : PushJob :=
  if job.deliveries = [] then job.settleFailed "no_active_tokens"
  else
    let deliveries := job.sendDue cfg now round
    let again := { job.unlock with
      deliveries
      status := .pending
      availableAt := now + cfg.retryRoundDelay }
    if deliveries.any fun d => d.status = .pending then
      if !(job.deliveries.any (dueDelivery now)) && decide (job.maxAttempts ≤ job.attempts + 1) then
        -- Nothing was tried: the job's last round is not spent on it.
        again
      else if job.attempts + 1 < job.maxAttempts then { again with attempts := job.attempts + 1 }
      else job.aggregate now (deliveries.map exhaust)
    else job.aggregate now deliveries

/-- The job's transaction of `_process_job`, with the assignment it found submitted. -/
def process (cfg : Settings) (job : PushJob) (workerId : String) (now : Time)
    (check : Option PresendCheck) (round : Round) : PushJob × Option MoodleId :=
  if job.status = .processing ∧ job.lockedBy = some workerId then
    let go :=
      let (job, goes) := job.materialize cfg now round
      if goes then job.deliverRound cfg now round else job
    match check with
    | some check =>
      let final := job.finalCheck cfg now check round.rowsVerdict
      match final.verdict with
      | .send => (go, none)
      | .submitted => (job.heldBack cfg now .submitted, final.moodleAssignmentId)
      | verdict => (job.heldBack cfg now verdict, none)
    | none =>
      -- The check saw the job unclaimed: another tick recovered and claimed it meanwhile.
      if job.needsCheck && !job.hasDeliveries then (job.release, none) else (go, none)
  else (job, none)

end PushJob

end TigerDuck.Push
