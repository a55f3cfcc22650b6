import Mathlib.Logic.Function.Basic
import TigerDuck.Push.Jobs
import TigerDuck.Relational.Table
import TigerDuck.Transition.Run

/-!
# The push pipeline

The ticks of `server/push/pipeline.py` and the other writers of `push_jobs` as a machine: the
reminder scans, the cancellation of a submitted assignment's reminders, the Live Activity
schedule and its registrations, and the sign-outs and syncs that touch a device's jobs. One
label is one transaction. Each holds the job rows it writes from before it reads them to its
commit, so a job's row and its deliveries change together; rows another transaction holds may
be passed over (`SKIP LOCKED`), which the label's `skip` says. (Only the full sync's
`_cancel_pending_deliveries_for_device` writes deliveries without their job's lock: once it and a
round have both committed, the rows are as if it came after the round.)

Which jobs a scan or a sync still wants comes from other tables and is part of the label.
-/

namespace TigerDuck.Push

open Relational Transition
open SyncJobs (MoodleId)

/-- A tick of some worker. -/
abbrev TickId := Nat

/-- The pre-send check of a claimed job. -/
inductive CheckState
  | notGuarded
  | asked
  | answered (check : Option PresendCheck)
  deriving DecidableEq, Repr

/-- A job a tick has claimed, with its check. -/
structure Claimed where
  jobId : JobId
  priority : Nat
  check : CheckState
  deriving DecidableEq, Repr

/-- A tick under way. Ticks of one process share its `workerId`. -/
structure Tick where
  workerId : String
  /-- The jobs the tick is done with. -/
  processed : List JobId
  /-- The claimed jobs still to go, and whether one of their batch has gone. -/
  batch : List Claimed
  begun : Bool
  deriving DecidableEq, Repr

/-- The jobs and the ticks. -/
structure Db where
  jobs : Table JobId PushJob
  nextJob : JobId
  ticks : TickId → Option Tick

def Db.initial : Db := ⟨Table.empty, 1, fun _ => none⟩

/-- What a writer files: the columns of a new `push_jobs` row that have no default. -/
structure NewJob where
  userId : UserId
  deviceId : Option DeviceId
  dedupeKey : DedupeKey
  channel : Channel
  scenario : Scenario
  payload : Payload
  fireAt : Time
  priority : Nat
  deriving DecidableEq, Repr

/-- An event of `/schedule/sync`. -/
structure ScheduleEvent where
  sourceId : String
  scenario : Scenario
  fireAt : Time
  payload : Payload
  deriving DecidableEq, Repr

/-- `PUSH_JOB_DEDUPE_ACTIVE_STATUSES`. -/
def PushJobStatus.dedupeActive : PushJobStatus → Bool
  | .pending | .processing | .sent | .partialFailed => true
  | .failed | .cancelled => false

/-- The row an insert makes of it. -/
def NewJob.row (new : NewJob) (now : Time) : PushJob where
  userId := new.userId
  deviceId := new.deviceId
  dedupeKey := new.dedupeKey
  channel := new.channel
  scenario := new.scenario
  payload := new.payload
  fireAt := new.fireAt
  availableAt := now
  priority := new.priority
  status := .pending
  attempts := 0
  maxAttempts := 3
  lockedBy := none
  lockedAt := none
  lastError := none
  sentAt := none
  cancelledAt := none
  deliveries := []

/-- The scenario's part of a schedule key. -/
def Scenario.text : Scenario → String
  | .reminder offset => "reminder_" ++ offset
  | .classPreparing => "classPreparing"
  | .inClass => "inClass"
  | .assignmentUrgent => "assignmentUrgent"
  | .activityEnd => "activityEnd"
  | .reauthRequired => "reauth_required"
  | .syncTrigger => "sync_trigger"
  | .other name => name

namespace DedupeKey

/-- Whether the key starts with `reminder_key_prefix` of one of the assignments. -/
def remindsOf (ids : List MoodleId) : DedupeKey → Bool
  | .reminder id _ _ => ids.contains id
  | _ => false

/-- Whether the key starts with `schedule_prefix` of the device. -/
def scheduledFor (deviceId : DeviceId) : DedupeKey → Bool
  | .schedule d _ _ => d = deviceId
  | _ => false

/-- Whether the key starts with `schedule_prefix` of the device and the source id, closed by a
colon: a longer source id with a colon in it does too. -/
def scheduledFrom (deviceId : DeviceId) (sourceId : String) : DedupeKey → Bool
  | .schedule d s scenario =>
    decide (d = deviceId) &&
      (sourceId ++ ":").toList.isPrefixOf (s ++ ":" ++ scenario.text).toList
  | _ => false

end DedupeKey

namespace Db

/-- Rewrite the jobs' rows. -/
def modifyJobs (db : Db) (f : JobId → PushJob → PushJob) : Db :=
  { db with jobs := db.jobs.modify f }

/-- Rewrite one job. -/
def updateJob (db : Db) (j : JobId) (f : PushJob → PushJob) : Db :=
  db.modifyJobs fun k job => if k = j then f job else job

/-- A waiting job that `p` picks is cancelled. -/
def cancelRow (now : Time) (p : JobId → PushJob → Bool) (k : JobId) (job : PushJob) : PushJob :=
  if job.status = .pending ∧ p k job = true then job.cancel now else job

/-- Cancel the waiting jobs that `p` picks. -/
def cancelPending (db : Db) (now : Time) (p : JobId → PushJob → Bool) : Db :=
  db.modifyJobs (cancelRow now p)

/-- `INSERT … ON CONFLICT DO NOTHING`: one row, unless its key is taken. -/
def fileJob (db : Db) (now : Time) (new : NewJob) : Db :=
  let taken := db.jobs.select fun _ job =>
    job.userId = new.userId ∧ job.dedupeKey = new.dedupeKey ∧ job.status.dedupeActive = true
  if taken.isEmpty then
    { db with jobs := db.jobs.set db.nextJob (new.row now), nextJob := db.nextJob + 1 }
  else db

/-- `file_jobs`. -/
def fileJobs (db : Db) (now : Time) (rows : List NewJob) : Db :=
  rows.foldl (fun db new => db.fileJob now new) db

/-! ### The writers beside the pipeline -/

/-- The jobs `_cancel_pending_reminders` looks for. -/
def isReminderOf (userId : UserId) (ids : List MoodleId) (skip : JobId → Bool) (k : JobId)
    (job : PushJob) : Bool :=
  !skip k && decide (job.userId = userId) && decide (job.channel = .assignment) &&
    job.dedupeKey.remindsOf ids

/-- `_cancel_pending_reminders`. -/
def cancelPendingReminders (db : Db) (userId : UserId) (ids : List MoodleId)
    (skip : JobId → Bool) (now : Time) : Db :=
  db.cancelPending now (isReminderOf userId ids skip)

/-- An end job moved to now, as long as it is still to go out. -/
def accelerateEnd (now : Time) (new : NewJob) (job : PushJob) : PushJob :=
  if job.userId = new.userId ∧ job.dedupeKey = new.dedupeKey ∧
      (job.status = .pending ∨ job.status = .processing) then
    { job with fireAt := now, priority := LIVE_ACTIVITY_JOB_PRIORITY, status := .pending }
  else job

/-- `_end_running_activities`: file the end, or move the one that is waiting. -/
def endRunningActivities (db : Db) (now : Time) (ends : List NewJob) : Db :=
  ends.foldl (fun db new => (db.modifyJobs fun _ => accelerateEnd now new).fileJob now new) db

/-- `cancel_for_submitted`. -/
def cancelForSubmitted (db : Db) (userId : UserId) (ids : List MoodleId) (skip : JobId → Bool)
    (now : Time) (ends : List NewJob) : Db :=
  (db.cancelPendingReminders userId ids skip now).endRunningActivities now ends

/-- The jobs a reminder scan of the channel no longer wants. -/
def isUnwanted (channel : Channel) (validKeys : List (UserId × DedupeKey)) (skip : JobId → Bool)
    (k : JobId) (job : PushJob) : Bool :=
  !skip k && decide (job.channel = channel) && !validKeys.contains (job.userId, job.dedupeKey)

/-- A reminder scan: file what is missing and cancel what is not wanted any more. -/
def scanReminders (channel : Channel) (db : Db) (validKeys : List (UserId × DedupeKey))
    (toFile : List NewJob) (skip : JobId → Bool) (now : Time) : Db :=
  (db.cancelPending now (isUnwanted channel validKeys skip)).fileJobs now toFile

/-- `scan_assignment_reminders`. -/
def scanAssignmentReminders (db : Db) (validKeys : List (UserId × DedupeKey))
    (toFile : List NewJob) (skip : JobId → Bool) (now : Time) : Db :=
  db.scanReminders .assignment validKeys toFile skip now

/-- `scan_course_reminders`. -/
def scanCourseReminders (db : Db) (validKeys : List (UserId × DedupeKey))
    (toFile : List NewJob) (skip : JobId → Bool) (now : Time) : Db :=
  db.scanReminders .course validKeys toFile skip now

/-- The event a device still posts under the job's key. -/
def incoming (deviceId : DeviceId) (events : List ScheduleEvent) (key : DedupeKey) :
    Option ScheduleEvent :=
  events.reverse.find? fun e => key = .schedule deviceId e.sourceId e.scenario

/-- The jobs `sync_schedule` looks at. -/
def isScheduled (userId : UserId) (deviceId : DeviceId) (skip : JobId → Bool) (k : JobId)
    (job : PushJob) : Bool :=
  !skip k && decide (job.userId = userId) && decide (job.channel = .schedule) &&
    job.dedupeKey.scheduledFor deviceId

/-- Those it replaces: posted no more, or moved into the past. -/
def isReplaced (userId : UserId) (deviceId : DeviceId) (events : List ScheduleEvent)
    (skip : JobId → Bool) (now : Time) (k : JobId) (job : PushJob) : Bool :=
  isScheduled userId deviceId skip k job &&
    (incoming deviceId events job.dedupeKey).all fun e =>
      decide (e.fireAt ≠ job.fireAt) && decide (e.fireAt ≤ now)

/-- A surviving job takes its event's time and snapshot. -/
def reschedule (job : PushJob) (e : ScheduleEvent) : PushJob :=
  { job with
    availableAt := if e.fireAt ≠ job.fireAt then e.fireAt else job.availableAt
    fireAt := e.fireAt
    payload := e.payload }

/-- The row of a job `sync_schedule` keeps. -/
def keptRow (userId : UserId) (deviceId : DeviceId) (events : List ScheduleEvent)
    (skip : JobId → Bool) (k : JobId) (job : PushJob) : PushJob :=
  if job.status = .pending ∧ isScheduled userId deviceId skip k job = true then
    (incoming deviceId events job.dedupeKey).elim job (reschedule job)
  else job

/-- The start job of an event. -/
def startJob (userId : UserId) (deviceId : DeviceId) (e : ScheduleEvent) : NewJob where
  userId := userId
  deviceId := some deviceId
  dedupeKey := .schedule deviceId e.sourceId e.scenario
  channel := .schedule
  scenario := e.scenario
  payload := e.payload
  fireAt := e.fireAt
  priority := LIVE_ACTIVITY_JOB_PRIORITY

/-- `sync_schedule`. -/
def syncSchedule (db : Db) (userId : UserId) (deviceId : DeviceId) (events : List ScheduleEvent)
    (skip : JobId → Bool) (now : Time) : Db :=
  let kept := (db.cancelPending now (isReplaced userId deviceId events skip now)).modifyJobs
    (keptRow userId deviceId events skip)
  -- Of two events under one key the last counts, and one already past is never filed.
  let new := events.filter fun e =>
    decide (now < e.fireAt) &&
      decide (incoming deviceId events (.schedule deviceId e.sourceId e.scenario) = some e)
  kept.fileJobs now (new.map (startJob userId deviceId))

/-- The jobs `cancel_schedule` looks for. -/
def isCancelled (userId : UserId) (deviceId : DeviceId) (sourceId : String) (skip : JobId → Bool)
    (k : JobId) (job : PushJob) : Bool :=
  !skip k && decide (job.userId = userId) && decide (job.channel = .schedule) &&
    job.dedupeKey.scheduledFrom deviceId sourceId

/-- `cancel_schedule`. -/
def cancelSchedule (db : Db) (userId : UserId) (deviceId : DeviceId) (sourceId : String)
    (skip : JobId → Bool) (now : Time) : Db :=
  db.cancelPending now (isCancelled userId deviceId sourceId skip)

/-- The key a finished end job keeps. -/
def retiredKey (k : JobId) : DedupeKey → DedupeKey
  | .activityEnd deviceId activityId => .finished deviceId activityId k
  | key => key

/-- What `register_live_activity` makes of a job under the activity's key: a finished one gives
the key up, a waiting one takes the new time. -/
def registeredRow (new : NewJob) (k : JobId) (job : PushJob) : PushJob :=
  if job.userId ≠ new.userId ∨ job.dedupeKey ≠ new.dedupeKey then job
  else if job.status = .sent ∨ job.status = .partialFailed then
    { job with dedupeKey := retiredKey k job.dedupeKey }
  else if job.status = .pending ∨ job.status = .processing then
    { job with
      fireAt := new.fireAt
      priority := new.priority
      payload := new.payload
      status := .pending }
  else job

/-- `register_live_activity`. -/
def registerLiveActivity (db : Db) (now : Time) (new : NewJob) : Db :=
  (db.modifyJobs (registeredRow new)).fileJob now new

/-- `_ride`: a change rides on a trigger that has yet to go out. -/
def rideRow (sourceDeviceId : Option DeviceId) (job : PushJob) : PushJob :=
  if job.status = .pending ∧ job.hasDeliveries = false ∧
      job.payload.sourceDeviceId ≠ sourceDeviceId then
    { job with payload := { job.payload with sourceDeviceId := none } }
  else job

/-- A delivery to a device that has synced already. -/
def syncedDelivery (deviceId : DeviceId) (d : PushDelivery) : PushDelivery :=
  if d.deviceId = some deviceId then PushJob.skipPending "device_already_synced" d else d

/-- The row of `_cancel_pending_deliveries_for_device`. -/
def syncedRow (userId : UserId) (deviceId : DeviceId) (job : PushJob) : PushJob :=
  if job.userId = userId ∧ job.deviceId = none ∧
      (job.status = .pending ∨ job.status = .processing) then
    { job with deliveries := job.deliveries.map (syncedDelivery deviceId) }
  else job

/-- The rows of a deleted device keep no reference to it. -/
def withoutDevice (deviceId : DeviceId) (job : PushJob) : PushJob :=
  { job with
    deviceId := job.deviceId.filter (· ≠ deviceId)
    deliveries := job.deliveries.map fun d =>
      { d with deviceId := d.deviceId.filter (· ≠ deviceId) } }

/-- `prune_terminal_push_jobs`, of some finished jobs old enough. -/
def pruneTerminal (db : Db) (old : JobId → Bool) : Db :=
  { db with
    jobs := db.jobs.deleteWhere fun k job =>
      old k && !(decide (job.status = .pending) || decide (job.status = .processing)) }

/-! ### The ticks -/

def setTick (db : Db) (t : TickId) (tick : Tick) : Db :=
  { db with ticks := Function.update db.ticks t (some tick) }

/-- Whether a claim may take the job. -/
def claimable (db : Db) (tick : Tick) (now : Time) (j : JobId) : Bool :=
  !tick.processed.contains j && (db.jobs.get j).any (·.due now)

/-- A claimed job and whether the check guards it. -/
def claimedJob (db : Db) (j : JobId) : Claimed :=
  let job := db.jobs.get j
  { jobId := j
    priority := (job.map (·.priority)).getD 0
    check := if job.any (·.needsCheck) then .asked else .notGuarded }

/-- `_claim_due_jobs`. -/
def claimDueJobs (db : Db) (t : TickId) (tick : Tick) (picks : List JobId) (now : Time) : Db :=
  (db.modifyJobs fun k job =>
    if picks.contains k then job.claim tick.workerId now else job).setTick t
    { tick with batch := picks.map db.claimedJob, begun := false }

/-- `check_before_send`: a verdict only for a job that is still this worker's and has no
delivery yet. -/
def checkBeforeSend (db : Db) (tick : Tick) (j : JobId) (answer : PresendCheck) :
    Option PresendCheck :=
  match db.jobs.get j with
  | some job =>
    if job.status = .processing ∧ job.lockedBy = some tick.workerId ∧ job.needsCheck = true ∧
        job.hasDeliveries = false then some answer
    else none
  | none => none

/-- `_outranked`. -/
def outranked (db : Db) (tick : Tick) (priority : Nat) (now : Time) : Bool :=
  !(db.jobs.select fun k job =>
    job.due now && !tick.processed.contains k && decide (job.priority < priority)).isEmpty

/-- The row of `_release_claimed`: handed back as long as it is still the worker's. -/
def releasedRow (workerId : String) (held : List JobId) (k : JobId) (job : PushJob) : PushJob :=
  if held.contains k = true ∧ job.status = .processing ∧ job.lockedBy = some workerId then
    job.release
  else job

/-- `_release_claimed`. -/
def releaseClaimed (db : Db) (t : TickId) (tick : Tick) : Db :=
  (db.modifyJobs (releasedRow tick.workerId (tick.batch.map (·.jobId)))).setTick t
    { tick with batch := [] }

/-- The tick goes on to its next claimed job. -/
def advance (db : Db) (t : TickId) (tick : Tick) (j : JobId) (rest : List Claimed) : Db :=
  db.setTick t { tick with processed := tick.processed ++ [j], batch := rest, begun := true }

/-- `_process_job` on the job's row, and `record_submitted` for what its check found. -/
def processJob (cfg : Settings) (db : Db) (tick : Tick) (j : JobId) (check : Option PresendCheck)
    (now : Time) (round : Round) (skip : JobId → Bool) (ends : List NewJob) : Db :=
  match db.jobs.get j with
  | some job =>
    let (job', submitted) := job.process cfg tick.workerId now check round
    let db := db.updateJob j fun _ => job'
    match submitted with
    | some id => db.cancelForSubmitted job.userId [id] skip now ends
    | none => db
  | none => db

/-- The handler of a crashed job. -/
def crashJob (cfg : Settings) (db : Db) (j : JobId) (now : Time) : Db :=
  db.updateJob j fun job => if job.status = .processing then job.crash cfg now else job

end Db

/-- The answer a check has come to; a job the check does not guard has none. -/
def CheckState.result : CheckState → Option (Option PresendCheck)
  | .notGuarded => some none
  | .asked => none
  | .answered check => some check

/-- One transaction, or a step of a tick between two. -/
inductive Label
  | startTick (t : TickId) (workerId : String)
  /-- `_recover_stale_jobs`, of one job. -/
  | recoverStale (j : JobId) (now : Time)
  | claim (t : TickId) (picks : List JobId) (now : Time)
  | check (t : TickId) (j : JobId) (answer : PresendCheck)
  | release (t : TickId) (now : Time)
  | process (t : TickId) (now : Time) (round : Round) (skip : JobId → Bool) (ends : List NewJob)
  | crash (t : TickId) (now : Time)
  | endTick (t : TickId)
  | scanAssignmentReminders (validKeys : List (UserId × DedupeKey)) (toFile : List NewJob)
      (skip : JobId → Bool) (now : Time)
  | scanCourseReminders (validKeys : List (UserId × DedupeKey)) (toFile : List NewJob)
      (skip : JobId → Bool) (now : Time)
  | cancelForSubmitted (userId : UserId) (ids : List MoodleId) (skip : JobId → Bool) (now : Time)
      (ends : List NewJob)
  | syncSchedule (userId : UserId) (deviceId : DeviceId) (events : List ScheduleEvent)
      (skip : JobId → Bool) (now : Time)
  | cancelSchedule (userId : UserId) (deviceId : DeviceId) (sourceId : String)
      (skip : JobId → Bool) (now : Time)
  | registerLiveActivity (new : NewJob) (now : Time)
  /-- Any other writer that files jobs. -/
  | fileJobs (rows : List NewJob) (now : Time)
  | ride (j : JobId) (sourceDeviceId : Option DeviceId)
  | cancelPendingDeliveriesForDevice (userId : UserId) (deviceId : DeviceId)
  | deleteDevice (deviceId : DeviceId)
  | pruneTerminal (old : JobId → Bool)

/-- One step of the machine. -/
def step (cfg : Settings) (db : Db) : Label → Option Db
  | .startTick t workerId =>
    match db.ticks t with
    | none => some (db.setTick t ⟨workerId, [], [], false⟩)
    | some _ => none
  | .recoverStale j now =>
    match db.jobs.get j with
    | some job =>
      if job.status = .processing ∧ (job.lockedAt.any (· + cfg.staleLock < now)) = true then
        some (db.updateJob j (·.recoverStale cfg now))
      else none
    | none => none
  | .claim t picks now =>
    match db.ticks t with
    | some tick =>
      if tick.batch = [] ∧ picks ≠ [] ∧ picks.Nodup ∧ picks.length ≤ cfg.batchSize ∧
          picks.all (db.claimable tick now) = true then
        some (db.claimDueJobs t tick picks now)
      else none
    | none => none
  | .check t j answer =>
    match db.ticks t with
    | some tick =>
      if tick.batch.any fun c => c.jobId = j ∧ c.check = .asked then
        let result := db.checkBeforeSend tick j answer
        some (db.setTick t { tick with
          batch := tick.batch.map fun c =>
            if c.jobId = j then { c with check := .answered result } else c })
      else none
    | none => none
  | .release t now =>
    match db.ticks t with
    | some tick =>
      match tick.batch with
      | c :: _ =>
        -- The first job of a batch always goes.
        if tick.begun = true ∧ db.outranked tick c.priority now = true then
          some (db.releaseClaimed t tick)
        else none
      | [] => none
    | none => none
  | .process t now round skip ends =>
    match db.ticks t with
    | some tick =>
      match tick.batch with
      | c :: rest =>
        c.check.result.map fun check =>
          (db.processJob cfg tick c.jobId check now round skip ends).advance t tick c.jobId rest
      | [] => none
    | none => none
  | .crash t now =>
    match db.ticks t with
    | some tick =>
      match tick.batch with
      | c :: rest => some ((db.crashJob cfg c.jobId now).advance t tick c.jobId rest)
      | [] => none
    | none => none
  | .endTick t =>
    match db.ticks t with
    | some tick =>
      if tick.batch = [] then some { db with ticks := Function.update db.ticks t none } else none
    | none => none
  | .scanAssignmentReminders validKeys toFile skip now =>
    some (db.scanAssignmentReminders validKeys toFile skip now)
  | .scanCourseReminders validKeys toFile skip now =>
    some (db.scanCourseReminders validKeys toFile skip now)
  | .cancelForSubmitted userId ids skip now ends =>
    some (db.cancelForSubmitted userId ids skip now ends)
  | .syncSchedule userId deviceId events skip now =>
    some (db.syncSchedule userId deviceId events skip now)
  | .cancelSchedule userId deviceId sourceId skip now =>
    some (db.cancelSchedule userId deviceId sourceId skip now)
  | .registerLiveActivity new now => some (db.registerLiveActivity now new)
  | .fileJobs rows now => some (db.fileJobs now rows)
  | .ride j sourceDeviceId => some (db.updateJob j (Db.rideRow sourceDeviceId))
  | .cancelPendingDeliveriesForDevice userId deviceId =>
    some (db.modifyJobs fun _ => Db.syncedRow userId deviceId)
  | .deleteDevice deviceId => some (db.modifyJobs fun _ => Db.withoutDevice deviceId)
  | .pruneTerminal old => some (db.pruneTerminal old)

/-! ### What a step can do -/

/-- The transactions one by one: what a tick's own step has found, and what each writes. -/
inductive Steps (cfg : Settings) (db : Db) : Label → Db → Prop
  | startTick {t : TickId} {workerId : String} (hnone : db.ticks t = none) :
      Steps cfg db (.startTick t workerId) (db.setTick t ⟨workerId, [], [], false⟩)
  | recoverStale {j : JobId} {now : Time} {job : PushJob} (hjob : db.jobs.get j = some job)
      (hprocessing : job.status = .processing)
      (hstale : job.lockedAt.any (· + cfg.staleLock < now) = true) :
      Steps cfg db (.recoverStale j now) (db.updateJob j (·.recoverStale cfg now))
  | claim {t : TickId} {picks : List JobId} {now : Time} {tick : Tick}
      (htick : db.ticks t = some tick) (hbatch : tick.batch = []) (hpicks : picks ≠ [])
      (hnodup : picks.Nodup) (hsize : picks.length ≤ cfg.batchSize)
      (hclaimable : ∀ k ∈ picks, db.claimable tick now k = true) :
      Steps cfg db (.claim t picks now) (db.claimDueJobs t tick picks now)
  | check {t : TickId} {j : JobId} {answer : PresendCheck} {tick : Tick}
      (htick : db.ticks t = some tick)
      (hasked : ∃ c ∈ tick.batch, c.jobId = j ∧ c.check = .asked) :
      Steps cfg db (.check t j answer) (db.setTick t { tick with
        batch := tick.batch.map fun c =>
          if c.jobId = j then { c with check := .answered (db.checkBeforeSend tick j answer) }
          else c })
  | release {t : TickId} {now : Time} {tick : Tick} {c : Claimed} {rest : List Claimed}
      (htick : db.ticks t = some tick) (hbatch : tick.batch = c :: rest)
      (hbegun : tick.begun = true) (houtranked : db.outranked tick c.priority now = true) :
      Steps cfg db (.release t now) (db.releaseClaimed t tick)
  | process {t : TickId} {now : Time} {round : Round} {skip : JobId → Bool} {ends : List NewJob}
      {tick : Tick} {c : Claimed} {rest : List Claimed} {check : Option PresendCheck}
      (htick : db.ticks t = some tick) (hbatch : tick.batch = c :: rest)
      (hcheck : c.check.result = some check) :
      Steps cfg db (.process t now round skip ends)
        ((db.processJob cfg tick c.jobId check now round skip ends).advance t tick c.jobId rest)
  | crash {t : TickId} {now : Time} {tick : Tick} {c : Claimed} {rest : List Claimed}
      (htick : db.ticks t = some tick) (hbatch : tick.batch = c :: rest) :
      Steps cfg db (.crash t now) ((db.crashJob cfg c.jobId now).advance t tick c.jobId rest)
  | endTick {t : TickId} {tick : Tick} (htick : db.ticks t = some tick)
      (hbatch : tick.batch = []) :
      Steps cfg db (.endTick t) { db with ticks := Function.update db.ticks t none }
  | scanAssignmentReminders {validKeys : List (UserId × DedupeKey)} {toFile : List NewJob}
      {skip : JobId → Bool} {now : Time} :
      Steps cfg db (.scanAssignmentReminders validKeys toFile skip now)
        (db.scanAssignmentReminders validKeys toFile skip now)
  | scanCourseReminders {validKeys : List (UserId × DedupeKey)} {toFile : List NewJob}
      {skip : JobId → Bool} {now : Time} :
      Steps cfg db (.scanCourseReminders validKeys toFile skip now)
        (db.scanCourseReminders validKeys toFile skip now)
  | cancelForSubmitted {userId : UserId} {ids : List MoodleId} {skip : JobId → Bool} {now : Time}
      {ends : List NewJob} :
      Steps cfg db (.cancelForSubmitted userId ids skip now ends)
        (db.cancelForSubmitted userId ids skip now ends)
  | syncSchedule {userId : UserId} {deviceId : DeviceId} {events : List ScheduleEvent}
      {skip : JobId → Bool} {now : Time} :
      Steps cfg db (.syncSchedule userId deviceId events skip now)
        (db.syncSchedule userId deviceId events skip now)
  | cancelSchedule {userId : UserId} {deviceId : DeviceId} {sourceId : String}
      {skip : JobId → Bool} {now : Time} :
      Steps cfg db (.cancelSchedule userId deviceId sourceId skip now)
        (db.cancelSchedule userId deviceId sourceId skip now)
  | registerLiveActivity {new : NewJob} {now : Time} :
      Steps cfg db (.registerLiveActivity new now) (db.registerLiveActivity now new)
  | fileJobs {rows : List NewJob} {now : Time} :
      Steps cfg db (.fileJobs rows now) (db.fileJobs now rows)
  | ride {j : JobId} {sourceDeviceId : Option DeviceId} :
      Steps cfg db (.ride j sourceDeviceId) (db.updateJob j (Db.rideRow sourceDeviceId))
  | cancelPendingDeliveriesForDevice {userId : UserId} {deviceId : DeviceId} :
      Steps cfg db (.cancelPendingDeliveriesForDevice userId deviceId)
        (db.modifyJobs fun _ => Db.syncedRow userId deviceId)
  | deleteDevice {deviceId : DeviceId} :
      Steps cfg db (.deleteDevice deviceId) (db.modifyJobs fun _ => Db.withoutDevice deviceId)
  | pruneTerminal {old : JobId → Bool} :
      Steps cfg db (.pruneTerminal old) (db.pruneTerminal old)

/-- A step is one of these. -/
theorem step_cases {cfg : Settings} {db db' : Db} {l : Label} (hstep : step cfg db l = some db') :
    Steps cfg db l db' := by
  cases l with
  | startTick t workerId =>
    simp only [step] at hstep
    split at hstep <;> cases hstep
    next hnone => exact .startTick hnone
  | recoverStale j now =>
    simp only [step] at hstep
    split at hstep
    next job hjob =>
      split at hstep <;> cases hstep
      next hstale => exact .recoverStale hjob hstale.1 hstale.2
    next => cases hstep
  | claim t picks now =>
    simp only [step] at hstep
    split at hstep
    next tick htick =>
      split at hstep <;> cases hstep
      next hclaims =>
        obtain ⟨hbatch, hpicks, hnodup, hsize, hclaimable⟩ := hclaims
        exact .claim htick hbatch hpicks hnodup hsize (List.all_eq_true.mp hclaimable)
    next => cases hstep
  | check t j answer =>
    simp only [step] at hstep
    split at hstep
    next tick htick =>
      split at hstep <;> cases hstep
      next hasked => exact .check htick (by simpa using hasked)
    next => cases hstep
  | release t now =>
    simp only [step] at hstep
    split at hstep
    next tick htick =>
      split at hstep
      next c rest hbatch =>
        split at hstep <;> cases hstep
        next hgoes => exact .release htick hbatch hgoes.1 hgoes.2
      next => cases hstep
    next => cases hstep
  | process t now round skip ends =>
    simp only [step] at hstep
    split at hstep
    next tick htick =>
      split at hstep
      next c rest hbatch =>
        obtain ⟨check, hcheck, rfl⟩ := Option.map_eq_some_iff.mp hstep
        exact .process htick hbatch hcheck
      next => cases hstep
    next => cases hstep
  | crash t now =>
    simp only [step] at hstep
    split at hstep
    next tick htick =>
      split at hstep <;> cases hstep
      next c rest hbatch => exact .crash htick hbatch
    next => cases hstep
  | endTick t =>
    simp only [step] at hstep
    split at hstep
    next tick htick =>
      split at hstep <;> cases hstep
      next hbatch => exact .endTick htick hbatch
    next => cases hstep
  | scanAssignmentReminders => cases hstep; exact .scanAssignmentReminders
  | scanCourseReminders => cases hstep; exact .scanCourseReminders
  | cancelForSubmitted => cases hstep; exact .cancelForSubmitted
  | syncSchedule => cases hstep; exact .syncSchedule
  | cancelSchedule => cases hstep; exact .cancelSchedule
  | registerLiveActivity => cases hstep; exact .registerLiveActivity
  | fileJobs => cases hstep; exact .fileJobs
  | ride => cases hstep; exact .ride
  | cancelPendingDeliveriesForDevice => cases hstep; exact .cancelPendingDeliveriesForDevice
  | deleteDevice => cases hstep; exact .deleteDevice
  | pruneTerminal => cases hstep; exact .pruneTerminal

/-- A job that a claim may take waits. -/
theorem Db.waits_of_claimable {db : Db} {tick : Tick} {now : Time} {k : JobId} {job : PushJob}
    (h : db.claimable tick now k = true) (hjob : db.jobs.get k = some job) :
    job.status = .pending := by
  simp only [Db.claimable, hjob, Option.any_some, PushJob.due, Bool.and_eq_true,
    decide_eq_true_eq] at h
  exact h.2.1.1

end TigerDuck.Push
