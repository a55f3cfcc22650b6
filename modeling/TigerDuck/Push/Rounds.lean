import TigerDuck.Push.Deliveries

/-!
# Delivery rounds, one send at a time

The machine with the transaction of `_process_job` taken apart where it hands deliveries to the
push services: it reads the job's deliveries, sends them one after another, and commits or
rolls back. The job's row is locked meanwhile: transactions that write it wait or pass it over.
Two do not ask for the lock when all they write is the job's deliveries,
`_cancel_pending_deliveries_for_device` and the deletion of a device.

A commit writes the columns the round has changed, over what the rows hold by then.
-/

namespace TigerDuck.Push

open Relational Transition

/-- Whether the result came from a push service. -/
def SendResult.handed : SendResult → Bool
  | .tokenGone | .emptyCopy => false
  | .success | .unregistered | .refused _ => true

/-- The job a round begins with, when `_process_job` gets as far as `_deliver_round`. -/
def PushJob.delivering (cfg : Settings) (job : PushJob) (now : Time) (check : Option PresendCheck)
    (round : Round) : Option PushJob :=
  if job.goesOn cfg now round check then
    match job.materialize cfg now round with
    | (job', true) => some job'
    | (_, false) => none
  else none

/-- The job a tick would begin a round with. -/
def Db.entering (cfg : Settings) (db : Db) (t : TickId) (now : Time) (round : Round) :
    Option (JobId × PushJob) :=
  (db.processed t).bind fun (j, job, check) => (job.delivering cfg now check round).map (j, ·)

/-- A round under way: the job and the deliveries it has read, and those it has yet to go over. -/
structure Reading where
  tick : TickId
  job : PushJob
  now : Time
  round : Round
  todo : List PushDelivery

/-- The pipeline with the rounds under way. -/
structure Rounds where
  db : Db
  reading : JobId → Option Reading
  /-- The ticks whose transaction was rolled back, until their handler has run. -/
  raised : TickId → Bool

def Rounds.initial : Rounds := ⟨Db.initial, fun _ => none, fun _ => false⟩

/-- A transaction, or a step of a round. -/
inductive RoundLabel
  | transaction (l : Label)
  | read (t : TickId) (now : Time) (round : Round)
  | send (j : JobId)
  | commit (j : JobId)
  | rollback (j : JobId)

/-- A delivery's row after the round's `UPDATE`. -/
def PushDelivery.written (before after current : PushDelivery) : PushDelivery :=
  { current with
    status := writeColumn before.status after.status current.status
    attempts := writeColumn before.attempts after.attempts current.attempts
    nextRetryAt := writeColumn before.nextRetryAt after.nextRetryAt current.nextRetryAt
    sentAt := writeColumn before.sentAt after.sentAt current.sentAt
    failureCode := writeColumn before.failureCode after.failureCode current.failureCode }

/-- The rows of a job's deliveries once its round commits: those it inserted come last. -/
def writeBack : List PushDelivery → List PushDelivery → List PushDelivery → List PushDelivery
  | before :: befores, after :: afters, current :: currents =>
    before.written after current :: writeBack befores afters currents
  | _, afters, _ => afters

/-- The row of the job after the commit. -/
def Reading.commitRow (cfg : Settings) (r : Reading) (row : PushJob) : PushJob :=
  let job := r.job.deliverRound cfg r.now r.round
  { job with deliveries := writeBack r.job.deliveries job.deliveries row.deliveries }

/-- The tick is done with its job. -/
def Db.finish (db : Db) (t : TickId) (j : JobId) : Db :=
  match db.ticks t with
  | some tick => db.advance t tick j tick.batch.tail
  | none => db

/-- A job's row without its deliveries. -/
def PushJob.columns (job : PushJob) : PushJob := { job with deliveries := [] }

/-- Whether a transaction asks for no lock on a job whose deliveries alone it writes. -/
def Label.lockFree : Label → Bool
  | .cancelPendingDeliveriesForDevice _ _ | .deleteDevice _ => true
  | _ => false

namespace Rounds

/-- Whether the transaction leaves the locked rows as they are. -/
def unlocked (s : Rounds) (l : Label) (db' : Db) : Bool :=
  s.db.jobs.keys.all fun j =>
    (s.reading j).isNone ||
      if l.lockFree then
        decide ((db'.jobs.get j).map (·.columns) = (s.db.jobs.get j).map (·.columns))
      else decide (db'.jobs.get j = s.db.jobs.get j)

/-- Whether the tick is not about to handle a crash, nor to process its next job by a round. -/
def ready (cfg : Settings) (s : Rounds) : Label → Bool
  | .process t now round _ _ => !s.raised t && (s.db.entering cfg t now round).isNone
  | .release t _ => !s.raised t
  | _ => true

/-- The handler of a crashed job has run. -/
def handled (s : Rounds) : Label → TickId → Bool
  | .crash t _ => Function.update s.raised t false
  | _ => s.raised

/-- The delivery that the next send of a round hands to a push service. -/
def hands (s : Rounds) (j : JobId) : Option PushDelivery :=
  (s.reading j).bind fun r => r.todo.head?.bind fun d =>
    if PushJob.dueDelivery r.now d && (r.round.sends d.token).handed then some d else none

/-- One step. -/
def step (cfg : Settings) (s : Rounds) : RoundLabel → Option Rounds
  | .transaction l =>
    (Push.step cfg s.db l).bind fun db' =>
      if s.ready cfg l && s.unlocked l db' then
        some { s with db := db', raised := s.handled l }
      else none
  | .read t now round =>
    (s.db.entering cfg t now round).bind fun (j, job) =>
      if (s.reading j).isNone && !s.raised t then
        some { s with
          reading := Function.update s.reading j (some ⟨t, job, now, round, job.deliveries⟩) }
      else none
  | .send j =>
    (s.reading j).bind fun r =>
      match r.todo with
      | _ :: todo =>
        some { s with reading := Function.update s.reading j (some { r with todo }) }
      | [] => none
  | .commit j =>
    (s.reading j).bind fun r =>
      if r.todo = [] then
        some { s with
          db := (s.db.updateJob j (r.commitRow cfg)).finish r.tick j
          reading := Function.update s.reading j none }
      else none
  | .rollback j =>
    (s.reading j).map fun r =>
      { s with
        reading := Function.update s.reading j none
        raised := Function.update s.raised r.tick true }

end Rounds

end TigerDuck.Push
