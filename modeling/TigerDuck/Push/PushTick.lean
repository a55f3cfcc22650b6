import Mathlib.Data.List.Sort
import TigerDuck.Push.Pipeline
import TigerDuck.Transition.Loop

/-!
# One push tick

`run_push_tick` of `server/push/pipeline.py` from its first statement to its return: stale jobs are
recovered, then due jobs are claimed a batch at a time, and each is processed after a look at what
has come due meanwhile. One round of the loop here is one transaction of the tick.

What the outside decides in a round is its `Answer`, with the jobs that other writers have filed
just before it: only finitely many in all. Other writers change no row, so `updated_at` is the
tick's own; it is kept beside the rows, with which nothing else here reads it. The pre-send checks
run beside the loop, and what a check says when its job's turn comes is part of the answer.
-/

namespace TigerDuck.Push

open Relational Transition

/-- A Live Activity of the assignment on a device, with the end `_fresh_end_payload` makes of it. -/
structure RunningActivity where
  deviceId : DeviceId
  activityId : String
  payload : Payload
  deriving DecidableEq, Repr

/-- The end job that `_end_running_activities` files. -/
def endJob (userId : UserId) (now : Time) (activity : RunningActivity) : NewJob where
  userId := userId
  deviceId := some activity.deviceId
  dedupeKey := .activityEnd activity.deviceId activity.activityId
  channel := .schedule
  scenario := .activityEnd
  payload := activity.payload
  fireAt := now
  priority := LIVE_ACTIVITY_JOB_PRIORITY

/-- What the outside says in one round. -/
structure Answer where
  now : Time
  /-- The rows that other transactions hold. -/
  locked : JobId → Bool
  /-- The order Postgres gives jobs of one priority and fire time. -/
  tie : JobId → Nat
  /-- The verdict of the pre-send check, if it came to one. -/
  check : Option PresendCheck
  round : Round
  /-- Whether the job's transaction raises. -/
  crashes : Bool
  /-- The activities to end when the check found the assignment submitted. -/
  ends : List RunningActivity

inductive TickPhase
  /-- Before `_claim_due_jobs`. -/
  | claiming
  /-- Before `_process_job` of the batch's next job. -/
  | sending
  /-- Before `_outranked`. -/
  | checking
  | returned
  deriving DecidableEq, Repr

/-- The tick between two of its transactions. -/
structure PushTick where
  db : Db
  tick : Tick
  phase : TickPhase
  /-- The column `updated_at`. -/
  updatedAt : JobId → Time
  /-- The rows as the claim of the batch found them. -/
  found : JobId → Option (PushJob × Time)

namespace Db

/-- `_recover_stale_jobs`. -/
def recoverStaleJobs (cfg : Settings) (db : Db) (now : Time) (locked : JobId → Bool) : Db :=
  db.modifyJobs fun k job =>
    if job.status = .processing ∧ (job.lockedAt.any (· + cfg.staleLock < now)) = true ∧
        locked k = false then
      job.recoverStale cfg now
    else job

/-- The order of a claim: the most urgent first, then the earliest. -/
def claimOrder (tie : JobId → Nat) (a b : JobId × PushJob) : Bool :=
  decide (a.2.priority < b.2.priority) ||
    (a.2.priority = b.2.priority && (decide (a.2.fireAt < b.2.fireAt) ||
      (a.2.fireAt = b.2.fireAt && decide (tie a.1 ≤ tie b.1))))

/-- The batch of `_claim_due_jobs`: due jobs the tick has not handled and no transaction holds. -/
def dueJobs (cfg : Settings) (db : Db) (processed : List JobId) (a : Answer) : List JobId :=
  (((db.jobs.select fun k job =>
    job.due a.now && !processed.contains k && !a.locked k).insertionSort
      (fun x y => claimOrder a.tie x y = true)).map Prod.fst).take cfg.batchSize

end Db

namespace PushTick

variable (cfg : Settings)

/-- A row with its `updated_at`. -/
def row (s : PushTick) (k : JobId) : Option (PushJob × Time) :=
  (s.db.jobs.get k).map fun job => (job, s.updatedAt k)

/-- The rows after a transaction: `onupdate` stamps those it changed. -/
def commit (s : PushTick) (db : Db) (now : Time) : PushTick :=
  { s with
    db
    updatedAt := fun k => if db.jobs.get k = s.db.jobs.get k then s.updatedAt k else now }

/-- `_claim_due_jobs`; the tick returns when there are none. -/
def claim (s : PushTick) (a : Answer) : PushTick :=
  match s.db.dueJobs cfg s.tick.processed a with
  | [] => { s with phase := .returned }
  | picks =>
    { s.commit (s.db.modifyJobs fun k job =>
        if picks.contains k then job.claim s.tick.workerId a.now else job) a.now with
      tick := { s.tick with batch := picks.map s.db.claimedJob, begun := false }
      phase := .sending
      found := s.row }

/-- `_process_job`: the check's verdict counts for a job the check guards. -/
def handle (s : PushTick) (a : Answer) (c : Claimed) : Db :=
  if a.crashes then s.db.crashJob cfg c.jobId a.now
  else
    let userId := ((s.db.jobs.get c.jobId).map (·.userId)).getD 0
    s.db.processJob cfg s.tick c.jobId (if c.check = .asked then a.check else none) a.now a.round
      a.locked (a.ends.map (endJob userId a.now))

/-- One job of the batch. -/
def send (s : PushTick) (a : Answer) : PushTick :=
  match s.tick.batch with
  | [] => { s with phase := .claiming }
  | c :: rest =>
    { s.commit (s.handle cfg a c) a.now with
      tick :=
        { s.tick with processed := s.tick.processed ++ [c.jobId], batch := rest, begun := true }
      phase := if rest = [] then .claiming else .checking }

/-- `_outranked` before each job after the first, and `_release_claimed` of the rest if so. -/
def look (s : PushTick) (a : Answer) : PushTick :=
  match s.tick.batch with
  | [] => { s with phase := .claiming }
  | c :: _ =>
    if s.db.outranked s.tick c.priority a.now then
      { s.commit (s.db.modifyJobs (Db.releasedRow s.tick.workerId (s.tick.batch.map (·.jobId))))
          a.now with
        tick := { s.tick with batch := [] }
        phase := .claiming }
    else { s with phase := .sending }

/-- The jobs that other writers file. -/
def arrive (s : PushTick) (now : Time) (filed : List NewJob) : PushTick :=
  s.commit (s.db.fileJobs now filed) now

/-- One round: the others' jobs, then the tick's next transaction. -/
def next (s : PushTick) (input : Answer × List NewJob) : PushTick :=
  let (a, filed) := input
  match s.phase with
  | .claiming => (s.arrive a.now filed).claim cfg a
  | .sending => (s.arrive a.now filed).send cfg a
  | .checking => (s.arrive a.now filed).look a
  | .returned => s

/-- The tick after `_recover_stale_jobs`. -/
def start (workerId : String) (jobs : Table JobId PushJob) (updatedAt : JobId → Time) (now : Time)
    (locked : JobId → Bool) : PushTick :=
  let db : Db := ⟨jobs, jobs.keys.foldr max 0 + 1, fun _ => none⟩
  (PushTick.mk db ⟨workerId, [], [], false⟩ .claiming updatedAt fun _ => none).commit
    (db.recoverStaleJobs cfg now locked) now

end PushTick

/-- `run_push_tick`, round by round: the jobs it finds, those that come in later, and what the
outside answers. -/
structure TickInput where
  workerId : String
  jobs : Table JobId PushJob
  updatedAt : JobId → Time
  startedAt : Time
  locked : JobId → Bool
  /-- The jobs filed before each round, and none later. -/
  filed : List (List NewJob)
  answers : ℕ → Answer

/-- The tick after some rounds. -/
def runPushTick (cfg : Settings) (i : TickInput) : ℕ → PushTick :=
  loop (PushTick.next cfg) (PushTick.start cfg i.workerId i.jobs i.updatedAt i.startedAt i.locked)
    fun n => (i.answers n, i.filed.getD n [])

end TigerDuck.Push
