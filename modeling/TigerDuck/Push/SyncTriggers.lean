import Mathlib.Data.List.Sort
import TigerDuck.Push.Deliveries
import TigerDuck.Transition.RowLock

/-!
# Sync triggers

`server/push/sync_trigger.py` under READ COMMITTED: what a statement reads is what is committed
when it starts, with the transaction's own rows, and a row lock is held until its transaction
ends. The transactions that change one user's data and call `enqueue_sync_trigger` run one
statement at a time, in any interleaving with the pipeline: a claim locks its row and commits
later, and the pipeline's other transactions, which write a claimed job, are one step each. Of
the table `push_jobs` only the user's triggers are kept, the portal's forced ones among them.

A claim of a batch is one claim of each of its jobs. What a round sends to which device follows
from the devices its query sees; when another trigger was last sent is part of the label.
-/

namespace TigerDuck.Push.SyncTriggers

open Relational Transition

/-- A transaction of one database session. -/
abbrev TxnId := Nat

/-- `_MAX_ROUNDS`. -/
def MAX_ROUNDS : Nat := 5

/-- A row of `user_devices`, with the device's active tokens of the kind `standard`. -/
structure UserDevice where
  id : DeviceId
  macos : Bool
  schedulesLocally : Bool
  cloudSyncEnabled : Bool
  standardTokens : List TokenKey
  deriving DecidableEq, Repr

/-- What a call reads of the latest trigger. -/
structure Latest where
  id : JobId
  fireAt : Time
  deriving DecidableEq, Repr

/-- The next statement of a call: `_ride`, the insert, or the read of the trigger another writer
filed first. -/
inductive Stage
  | ride
  | file
  | reread
  deriving DecidableEq, Repr

/-- A call of `enqueue_sync_trigger` under way. -/
structure Call where
  sourceDeviceId : Option DeviceId
  latest : Option Latest
  /-- The rounds it has lost. -/
  lost : Nat
  stage : Stage
  deriving DecidableEq, Repr

/-- A call that has returned, and the step of the run at which it did. -/
structure Ended where
  sourceDeviceId : Option DeviceId
  /-- The trigger it rode on or filed; none after its last round. -/
  trigger : Option JobId
  lost : Nat
  step : Nat
  deriving DecidableEq, Repr

/-- The uncommitted work of a transaction that changes the user's data. -/
structure Work where
  /-- Its versions of the triggers it has locked or filed. -/
  writes : Table JobId PushJob
  call : Option Call
  ended : List Ended

/-- An open transaction. -/
inductive Txn
  | enqueue (work : Work)
  /-- A claim, and the step at which it locked its job. -/
  | claim (j : JobId) (workerId : String) (now : Time) (step : Nat)

/-- A change of the user's data with its call, committed at a step of the run. -/
structure Change extends Ended where
  committedAt : Nat
  deriving DecidableEq, Repr

/-- A committed claim of a trigger, at the step that locked it. -/
structure Claim where
  trigger : JobId
  step : Nat
  deriving DecidableEq, Repr

/-- A round of a trigger that was not held back: the devices it found and its deliveries. -/
structure Sending where
  trigger : JobId
  step : Nat
  devices : List UserDevice
  deliveries : List PushDelivery
  deriving DecidableEq, Repr

/-- The committed triggers, the locks and open transactions, and what has happened so far. -/
structure Db where
  jobs : Table JobId PushJob
  nextJob : JobId
  locks : RowLocks JobId TxnId
  /-- The dedupe keys of rows inserted but not committed. -/
  keys : RowLocks DedupeKey TxnId
  txns : TxnId → Option Txn
  clock : Nat
  changes : List Change
  claims : List Claim
  sendings : List Sending

def Db.initial : Db := ⟨Table.empty, 1, .free, .free, fun _ => none, 0, [], [], []⟩

/-- A transaction that has called nothing yet. -/
def Work.empty : Work := ⟨Table.empty, none, []⟩

/-- The order in which the latest trigger is looked for. -/
def Latest.Before (a b : Latest) : Prop := b.fireAt < a.fireAt ∨ b.fireAt = a.fireAt ∧ b.id ≤ a.id

instance : DecidableRel Latest.Before :=
  fun a b => inferInstanceAs (Decidable (b.fireAt < a.fireAt ∨ b.fireAt = a.fireAt ∧ b.id ≤ a.id))

/-- `_active`: a trigger of the user that is waiting, going out or sent. -/
def isActive (me : UserId) (job : PushJob) : Bool :=
  decide (job.userId = me) && decide (job.scenario = .syncTrigger) && job.status.dedupeActive

/-- `_active`, of the rows `p` picks. -/
def selectActive (jobs : Table JobId PushJob) (me : UserId) (p : PushJob → Bool) : List Latest :=
  (jobs.select fun _ job => isActive me job && p job).map fun (j, job) => ⟨j, job.fireAt⟩

/-- The first statement of `enqueue_sync_trigger`. -/
def latestTrigger (jobs : Table JobId PushJob) (me : UserId) : Option Latest :=
  ((selectActive jobs me fun _ => true).insertionSort Latest.Before).head?

/-- The key under which one trigger follows the latest. -/
def triggerKey (me : UserId) (latest : Option Latest) : DedupeKey :=
  .syncTrigger me ((latest.map (·.id)).getD 0)

/-- The trigger a call files. -/
def newTrigger (me : UserId) (call : Call) (now : Time) : NewJob where
  userId := me
  deviceId := none
  dedupeKey := triggerKey me call.latest
  channel := .system
  scenario := .syncTrigger
  payload :=
    { activityEnd := false
      activityId := none
      sessionReauth := false
      forced := false
      sourceDeviceId := call.sourceDeviceId }
  fireAt := call.latest.elim now fun latest => max now (latest.fireAt + SYNC_TRIGGER_GAP)
  priority := 100

/-- The portal's `force_sync_trigger`. -/
def forcedTrigger (me : UserId) (key : String) (now : Time) : NewJob where
  userId := me
  deviceId := none
  dedupeKey := .other key
  channel := .system
  scenario := .syncTrigger
  payload :=
    { activityEnd := false
      activityId := none
      sessionReauth := false
      forced := true
      sourceDeviceId := none }
  fireAt := now
  priority := 100

/-- Whether `ux_push_jobs_dedupe_active` refuses the row. -/
def isTaken (jobs : Table JobId PushJob) (new : NewJob) : Bool :=
  !(jobs.select fun _ job =>
    decide (job.userId = new.userId) && decide (job.dedupeKey = new.dedupeKey) &&
      job.status.dedupeActive).isEmpty

/-- The rows of `_materialize`'s query for a trigger. -/
def triggerTokens (devices : List UserDevice) : List TokenRow :=
  (devices.filter (·.cloudSyncEnabled)).flatMap fun device =>
    device.standardTokens.map fun token =>
      ⟨token, device.id, device.macos, device.schedulesLocally⟩

/-- The call returns. -/
def Work.endCall (work : Work) (call : Call) (trigger : Option JobId) (step : Nat) : Work :=
  { work with
    call := none
    ended := work.ended ++ [⟨call.sourceDeviceId, trigger, call.lost, step⟩] }

/-- The transaction's version of a row. -/
def Work.write (work : Work) (j : JobId) (job : PushJob) : Work :=
  { work with writes := work.writes.set j job }

namespace Db

/-- The triggers as a transaction sees them. -/
def seen (db : Db) (work : Work) : Table JobId PushJob :=
  db.jobs.overwriteFrom work.writes fun _ job => some job

def setWork (db : Db) (t : TxnId) (work : Work) : Db :=
  { db with txns := Function.update db.txns t (some (.enqueue work)) }

/-- The end of a transaction: its locks go. -/
def close (db : Db) (t : TxnId) : Db :=
  { db with
    locks := db.locks.release t
    keys := db.keys.release t
    txns := Function.update db.txns t none }

/-- The call that is about to run its statement `stage`. -/
def calling (db : Db) (t : TxnId) (stage : Stage) : Option (Work × Call) :=
  match db.txns t with
  | some (.enqueue work) =>
    work.call.bind fun call => if call.stage = stage then some (work, call) else none
  | _ => none

/-- A call begins with the read of the latest trigger. -/
def readLatest (db : Db) (me : UserId) (t : TxnId) (work : Work)
    (sourceDeviceId : Option DeviceId) : Db :=
  db.setWork t { work with
    call := some ⟨sourceDeviceId, latestTrigger (db.seen work) me, 0, .ride⟩ }

/-- The row `_ride` locks: one that has yet to go out and that nobody else holds. -/
def waitingRow (db : Db) (t : TxnId) (work : Work) (latest : Option Latest) :
    Option (JobId × PushJob) :=
  latest.bind fun latest => ((db.seen work).get latest.id).bind fun job =>
    if job.status = .pending ∧ job.hasDeliveries = false ∧ db.locks.Available t latest.id then
      some (latest.id, job)
    else none

/-- `_ride`. -/
def ride (db : Db) (t : TxnId) (work : Work) (call : Call) : Db :=
  match db.waitingRow t work call.latest with
  | some (j, job) =>
    { db with locks := db.locks.lock t j }.setWork t
      ((work.write j (Db.rideRow call.sourceDeviceId job)).endCall call (some j) db.clock)
  | none => db.setWork t { work with call := some { call with stage := .file } }

/-- The insert. It waits while another transaction has a row of the key still to commit. -/
def file (db : Db) (me : UserId) (t : TxnId) (work : Work) (call : Call) (now : Time) : Option Db :=
  let new := newTrigger me call now
  if db.keys.Available t new.dedupeKey then
    if isTaken (db.seen work) new then
      some (db.setWork t { work with call := some { call with stage := .reread } })
    else
      some ({ db with
        nextJob := db.nextJob + 1
        locks := db.locks.lock t db.nextJob
        keys := db.keys.lock t new.dedupeKey }.setWork t
          ((work.write db.nextJob (new.row now)).endCall call (some db.nextJob) db.clock))
  else none

/-- The end of a lost round: another writer's trigger is the latest now. -/
def reread (db : Db) (me : UserId) (t : TxnId) (work : Work) (call : Call) : Db :=
  let key := triggerKey me call.latest
  let latest := ((selectActive (db.seen work) me fun job => job.dedupeKey = key).head?).or call.latest
  let call := { call with latest, lost := call.lost + 1, stage := .ride }
  if call.lost = MAX_ROUNDS then db.setWork t (work.endCall call none db.clock)
  else db.setWork t { work with call := some call }

/-- The changes of the transaction are there with its triggers. -/
def commitWork (db : Db) (t : TxnId) (work : Work) : Db :=
  { db.close t with
    jobs := db.seen work
    changes := db.changes ++ work.ended.map fun ended => ⟨ended, db.clock⟩ }

/-- A claim locks a job that is due and that nobody holds. -/
def lockDue (db : Db) (t : TxnId) (j : JobId) (workerId : String) (now : Time) : Option Db :=
  match db.txns t, db.jobs.get j with
  | none, some job =>
    if job.due now = true ∧ db.locks j = none then
      some { db with
        locks := db.locks.lock t j
        txns := Function.update db.txns t (some (.claim j workerId now db.clock)) }
    else none
  | _, _ => none

def commitClaim (db : Db) (t : TxnId) (j : JobId) (workerId : String) (now : Time) (step : Nat) :
    Db :=
  { db.close t with
    jobs := db.jobs.modify fun k job => if k = j then job.claim workerId now else job
    claims := db.claims ++ [⟨j, step⟩] }

/-- A transaction of the pipeline on a claimed job. -/
def rewrite (db : Db) (j : JobId) (p : PushJob → Bool) (f : PushJob → PushJob) : Option Db :=
  match db.jobs.get j with
  | some job =>
    if job.status = .processing ∧ p job = true then some { db with jobs := db.jobs.set j (f job) }
    else none
  | none => none

/-- `_process_job`, of a trigger. -/
def process (cfg : Settings) (db : Db) (j : JobId) (workerId : String) (now : Time) (round : Round)
    (devices : List UserDevice) : Option Db :=
  match db.jobs.get j with
  | some job =>
    if job.status = .processing ∧ job.lockedBy = some workerId then
      let round := { round with tokens := triggerTokens devices }
      let job' := (job.process cfg workerId now none round).1
      let jobs := db.jobs.set j job'
      if (job.materialize cfg now round).2 = true then
        some { db with
          jobs, sendings := db.sendings ++ [⟨j, db.clock, devices, job'.deliveries⟩] }
      else some { db with jobs }
    else none
  | none => none

/-- `force_sync_trigger`. -/
def force (db : Db) (me : UserId) (key : String) (now : Time) : Db :=
  let new := forcedTrigger me key now
  if isTaken db.jobs new then db
  else { db with jobs := db.jobs.set db.nextJob (new.row now), nextJob := db.nextJob + 1 }

end Db

/-- One statement, the end of a transaction, or a transaction of the pipeline or the portal. -/
inductive Label
  | readLatest (t : TxnId) (sourceDeviceId : Option DeviceId)
  | ride (t : TxnId)
  | file (t : TxnId) (now : Time)
  | reread (t : TxnId)
  | lockDue (t : TxnId) (j : JobId) (workerId : String) (now : Time)
  | commit (t : TxnId)
  | rollback (t : TxnId)
  | recoverStale (j : JobId) (now : Time)
  | release (j : JobId) (workerId : String)
  | process (j : JobId) (workerId : String) (now : Time) (round : Round)
      (devices : List UserDevice)
  | crash (j : JobId) (now : Time)
  | force (key : String) (now : Time)

/-- What a step makes of the database. A statement that waits for a lock is not enabled. -/
def Db.perform (cfg : Settings) (me : UserId) (db : Db) : Label → Option Db
  | .readLatest t sourceDeviceId =>
    match db.txns t with
    | none => some (db.readLatest me t .empty sourceDeviceId)
    | some (.enqueue work) =>
      if work.call.isNone then some (db.readLatest me t work sourceDeviceId) else none
    | some (.claim ..) => none
  | .ride t => (db.calling t .ride).map fun (work, call) => db.ride t work call
  | .file t now => (db.calling t .file).bind fun (work, call) => db.file me t work call now
  | .reread t => (db.calling t .reread).map fun (work, call) => db.reread me t work call
  | .lockDue t j workerId now => db.lockDue t j workerId now
  | .commit t =>
    match db.txns t with
    | some (.enqueue work) => if work.call.isNone then some (db.commitWork t work) else none
    | some (.claim j workerId now step) => some (db.commitClaim t j workerId now step)
    | none => none
  | .rollback t => (db.txns t).map fun _ => db.close t
  | .recoverStale j now =>
    db.rewrite j (·.lockedAt.any (· + cfg.staleLock < now)) (·.recoverStale cfg now)
  | .release j workerId => db.rewrite j (·.lockedBy = some workerId) (·.release)
  | .process j workerId now round devices => db.process cfg j workerId now round devices
  | .crash j now => db.rewrite j (fun _ => true) (·.crash cfg now)
  | .force key now => some (db.force me key now)

/-- One step of the run. -/
def step (cfg : Settings) (me : UserId) (db : Db) (l : Label) : Option Db :=
  (db.perform cfg me l).map fun db' => { db' with clock := db.clock + 1 }

/-! ### What a call leaves behind -/

/-- A device of the round gets a delivery. -/
def Sending.Reaches (s : Sending) (device : UserDevice) : Prop :=
  ∃ token ∈ device.standardTokens, ∃ d ∈ s.deliveries, d.token = token

instance (s : Sending) (device : UserDevice) : Decidable (s.Reaches device) :=
  inferInstanceAs (Decidable (∃ token ∈ device.standardTokens, ∃ d ∈ s.deliveries, d.token = token))

/-- A device a background push can reach: not a Mac, and with an active token. -/
def UserDevice.TakesPush (device : UserDevice) : Prop :=
  device.macos = false ∧ device.standardTokens ≠ []

/-- `j` is a trigger for the change: it is claimed after the change is there to fetch, and every
device that syncs and that `takes` counts is in its audience, unless it made the change itself.
A claim from before the call had given the job back unsent. -/
structure LeavesTrigger (db : Db) (takes : UserDevice → Prop) (c : Change) (j : JobId) : Prop where
  /-- The job waits, is going out, has gone out, or has used up its attempts. -/
  kept : ∃ job, db.jobs.get j = some job ∧
    (job.status = .pending ∨ job.status = .processing ∨ job.status = .failed ∨
      ∃ s ∈ db.sendings, s.trigger = j)
  claimed : ∀ claim ∈ db.claims, claim.trigger = j →
    claim.step < c.step ∨ c.committedAt < claim.step
  sent : ∀ s ∈ db.sendings, s.trigger = j → c.committedAt < s.step
  audience : ∀ s ∈ db.sendings, s.trigger = j → ∀ device ∈ s.devices,
    device.cloudSyncEnabled = true → takes device →
      s.Reaches device ∨ c.sourceDeviceId = some device.id
  /-- The device the next round would leave out. -/
  leavesOut : ∀ job deviceId, db.jobs.get j = some job →
    job.payload.sourceDeviceId = some deviceId → c.sourceDeviceId = some deviceId

end TigerDuck.Push.SyncTriggers
