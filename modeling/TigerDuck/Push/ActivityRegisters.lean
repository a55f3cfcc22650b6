import TigerDuck.Push.PushTick
import TigerDuck.Push.Rounds
import TigerDuck.Transition.RowLock

/-!
# Live Activity registers

`register_live_activity` of `server/routes/live_activities_v3.py`, one statement at a time, beside
the push pipeline. A register invalidates the activity's prior update tokens, upserts its own, has
`_retire_finished_end_job` lock the jobs under the activity's key, and files or moves the end job.
A round of the pipeline reads the update tokens an end job is sent to and writes the row of each
token it hands a delivery over for; it commits only once no register holds one of these.

A statement that needs a row another transaction holds waits, so its step is not enabled. An open
transaction writes nothing here before its commit: the rows it has written are those it holds.
Which of the tokens a round's query leaves out (by the device's account, or as expired) is part of
the label, and so is a token's push service's answer. A row that is deleted counts as invalidated.
-/

namespace TigerDuck.Push

open Relational Transition
open SyncJobs (MoodleId)

/-- A `device_push_tokens.id`. -/
abbrev TokenId := Nat

/-- A request to `/live-activities/register` under way. -/
abbrev RegisterId := Nat

/-- A row of `device_push_tokens` of the kind `live_activity_update`. -/
structure UpdateToken where
  deviceId : DeviceId
  tokenHash : String
  scopeKey : String
  active : Bool
  deriving DecidableEq, Repr

/-- What a round makes its delivery from. -/
def UpdateToken.key (token : UpdateToken) : TokenKey :=
  ⟨token.tokenHash, "live_activity_update", token.scopeKey⟩

/-- A `LiveActivityRegisterV3Request` of a device, and when it was received. -/
structure RegisterRequest where
  userId : UserId
  deviceId : DeviceId
  activityId : String
  sourceId : String
  /-- The `scenario` of the snapshot. -/
  scenario : Option String
  snapshot : Payload
  tokenHash : String
  countdownTarget : Time
  now : Time

namespace RegisterRequest

/-- Whether the id is the one `/schedule/sync` composes for a start. -/
def accepted (request : RegisterRequest) : Bool :=
  request.scenario.all fun scenario =>
    request.activityId = scenario ++ "::" ++ request.sourceId

/-- `activity_end_key`. -/
def endKey (request : RegisterRequest) : DedupeKey :=
  .activityEnd request.deviceId request.activityId

/-- The end job; its routing keys come after the snapshot's. -/
def endJob (request : RegisterRequest) : NewJob where
  userId := request.userId
  deviceId := some request.deviceId
  dedupeKey := request.endKey
  channel := .schedule
  scenario := .activityEnd
  payload :=
    { request.snapshot with
      activityEnd := true
      activityId := some request.activityId
      sourceId := some request.sourceId }
  fireAt := request.countdownTarget
  priority := LIVE_ACTIVITY_JOB_PRIORITY

/-- The token the request brings. -/
def token (request : RegisterRequest) : UpdateToken :=
  ⟨request.deviceId, request.tokenHash, request.activityId, true⟩

/-- An active token of the activity on the device. -/
def isPrior (request : RegisterRequest) (token : UpdateToken) : Bool :=
  token.active && decide (token.deviceId = request.deviceId) &&
    decide (token.scopeKey = request.activityId)

/-- The row the token's upsert conflicts with. -/
def conflicts (request : RegisterRequest) (token : UpdateToken) : Bool :=
  token.active && decide (token.tokenHash = request.tokenHash) &&
    decide (token.scopeKey = request.activityId)

/-- A job that holds the key. -/
def isHolder (request : RegisterRequest) (job : PushJob) : Bool :=
  decide (job.userId = request.userId) && decide (job.dedupeKey = request.endKey) &&
    job.status.dedupeActive

end RegisterRequest

/-- How far a register has come. -/
inductive Stage
  /-- The prior tokens it has read are being invalidated. -/
  | invalidating (old : List TokenId)
  /-- Its token is upserted. -/
  | upserted
  /-- `_retire_finished_end_job`: the rows its query still has to lock, and those it returns. -/
  | retiring (todo held : List JobId)
  deriving DecidableEq, Repr

/-- A register under way. -/
structure Register where
  request : RegisterRequest
  stage : Stage
  /-- Whether its token is a new row. -/
  inserted : Bool

/-- A transaction of `_process_job` under way, with the tokens its query has found. -/
structure RoundRun where
  job : JobId
  found : List (TokenId × TokenRow)

/-- Who holds a job's row. -/
inductive Holder
  | round (t : TickId)
  | register (r : RegisterId)
  deriving DecidableEq, Repr

/-- The pipeline, the update tokens, and the registers and rounds under way. -/
structure Activities where
  db : Db
  tokens : Table TokenId UpdateToken
  nextToken : TokenId
  /-- The `push_token_id` of a job's deliveries. -/
  pushToken : JobId → TokenKey → Option TokenId
  registers : Table RegisterId Register
  rounds : TickId → Option RoundRun
  jobLocks : RowLocks JobId Holder
  tokenLocks : RowLocks TokenId RegisterId

/-- Whether the key is an end job's, or was. -/
def DedupeKey.ofEnd : DedupeKey → Bool
  | .activityEnd _ _ | .finished _ _ _ => true
  | _ => false

/-- Whether the payload is the end's, as `_fresh_end_payload` makes it. -/
def RunningActivity.fits (activity : RunningActivity) : Bool :=
  activity.payload.activityEnd && decide (activity.payload.activityId = some activity.activityId)

/-- `is_activity_end`. -/
def PushJob.isEnd (job : PushJob) : Bool :=
  decide (job.channel = .schedule) && job.payload.activityEnd

/-- Whether the transaction is one as in the pipeline's machine: a round, a register, a
submission's ends and a device's deletion have labels of their own, and no other writer files an
end job. -/
def Label.plain : Label → Bool
  | .process _ _ _ _ _ | .registerLiveActivity _ _ | .cancelForSubmitted _ _ _ _ _
  | .deleteDevice _ => false
  | .scanAssignmentReminders _ toFile _ _ | .scanCourseReminders _ toFile _ _
  | .fileJobs toFile _ => toFile.all fun new => !new.dedupeKey.ofEnd
  | _ => true

namespace Db

/-- `_retire_finished_end_job` on a row it holds. -/
def retiredRow (held : List JobId) (k : JobId) (job : PushJob) : PushJob :=
  if held.contains k = true ∧ (job.status = .sent ∨ job.status = .partialFailed) then
    { job with dedupeKey := retiredKey k job.dedupeKey }
  else job

/-- The upsert's `DO UPDATE`. -/
def movedRow (new : NewJob) (job : PushJob) : PushJob :=
  if job.userId = new.userId ∧ job.dedupeKey = new.dedupeKey ∧
      (job.status = .pending ∨ job.status = .processing) then
    { job with
      fireAt := new.fireAt
      priority := new.priority
      payload := new.payload
      status := .pending }
  else job

/-- The jobs after `_retire_finished_end_job` and the end job's upsert. -/
def upsertEndJob (db : Db) (held : List JobId) (now : Time) (new : NewJob) : Db :=
  ((db.modifyJobs (retiredRow held)).modifyJobs fun _ => movedRow new).fileJob now new

/-- The job a tick is at. -/
def head (db : Db) (t : TickId) : Option JobId :=
  (db.ticks t).bind fun tick => tick.batch.head?.map (·.jobId)

end Db

/-- A transaction, or a statement of one. -/
inductive ActivityLabel
  | transaction (l : Label)
  | cancelForSubmitted (userId : UserId) (ids : List MoodleId) (skip : JobId → Bool) (now : Time)
      (ends : List RunningActivity)
  /-- `_process_job` up to its row lock. -/
  | openRound (t : TickId)
  /-- The token query of an end job. -/
  | selectTokens (t : TickId) (found : List (TokenId × TokenRow))
  | commitRound (t : TickId) (now : Time) (round : Round) (skip : JobId → Bool)
      (ends : List RunningActivity)
  | rollbackRound (t : TickId)
  /-- A register up to the tokens it has read. -/
  | beginRegister (r : RegisterId) (request : RegisterRequest)
  | invalidate (r : RegisterId)
  | upsertToken (r : RegisterId)
  /-- The query of `_retire_finished_end_job`, and then each of its row locks. -/
  | selectHolders (r : RegisterId)
  | lockHolder (r : RegisterId)
  | commit (r : RegisterId) (now : Time)
  | rollback (r : RegisterId)
  /-- An update token that comes with a device's registration (`_upsert_push_token`). -/
  | registerToken (token : UpdateToken)
  /-- Whoever else invalidates a token. -/
  | invalidateToken (k : TokenId)
  | deleteDevice (deviceId : DeviceId)

namespace Activities

def initial : Activities where
  db := Db.initial
  tokens := Table.empty
  nextToken := 1
  pushToken := fun _ _ => none
  registers := Table.empty
  rounds := fun _ => none
  jobLocks := .free
  tokenLocks := .free

/-- Whether the transaction leaves the jobs' rows that others hold as they are. -/
def spares (s : Activities) (self : Option Holder) (db' : Db) : Bool :=
  s.db.jobs.keys.all fun j =>
    (s.jobLocks j).isNone || decide (s.jobLocks j = self) ||
      decide (db'.jobs.get j = s.db.jobs.get j)

/-! ### Rounds -/

/-- Whether the query of an end job's round may return these. -/
def mayFind (s : Activities) (j : JobId) (found : List (TokenId × TokenRow)) : Bool :=
  (s.db.jobs.get j).any fun job =>
    job.isEnd && found.all fun p => (s.tokens.get p.1).any fun token =>
      token.active && decide (job.deviceId = some token.deviceId) &&
        decide (job.payload.activityId = some token.scopeKey) &&
          decide (p.2.token = token.key) && decide (p.2.deviceId = token.deviceId)

/-- The `push_token_id` of the job's deliveries after the round: one that is there keeps its own. -/
def tokenOf (s : Activities) (run : RoundRun) (key : TokenKey) : Option TokenId :=
  if (s.db.jobs.get run.job).any fun job => job.deliveries.any fun d => d.token = key then
    s.pushToken run.job key
  else (run.found.find? fun p => p.2.token = key).map Prod.fst

/-- The deliveries the round hands to a push service. -/
def handed (cfg : Settings) (s : Activities) (t : TickId) (now : Time) (round : Round) :
    List PushDelivery :=
  ((s.db.entering cfg t now round).elim [] (·.2.deliveries)).filter fun d =>
    PushJob.dueDelivery now d && (round.sends d.token).handed

/-- Whether a round of the job may commit: an end job goes to the tokens found, and no register
holds the row of one it was handed over for. -/
def mayCommit (cfg : Settings) (s : Activities) (t : TickId) (run : RoundRun) (job : PushJob)
    (now : Time) (round : Round) : Bool :=
  !job.isEnd || (decide (round.tokens = run.found.map Prod.snd) &&
    (s.handed cfg t now round).all fun d =>
      (s.tokenOf run d.token).any fun k => (s.tokenLocks k).isNone)

/-- The token's row: unregistered, it is invalidated. -/
def sentRow (cfg : Settings) (s : Activities) (t : TickId) (run : RoundRun) (now : Time)
    (round : Round) (k : TokenId) (token : UpdateToken) : UpdateToken :=
  if (s.handed cfg t now round).any fun d =>
      decide (s.tokenOf run d.token = some k) && decide (round.sends d.token = .unregistered) then
    { token with active := false }
  else token

/-- The end of a round's transaction. -/
def endRound (s : Activities) (t : TickId) : Activities :=
  { s with
    rounds := Function.update s.rounds t none
    jobLocks := s.jobLocks.release (.round t) }

/-! ### Registers -/

/-- The request goes on to its next statement. -/
def setRegister (s : Activities) (r : RegisterId) (reg : Register) : Activities :=
  { s with registers := s.registers.set r reg }

/-- Whether another request has inserted the token and not yet committed. -/
def insertedBy (s : Activities) (tokenHash scopeKey : String) : Bool :=
  !(s.registers.select fun _ reg =>
    reg.inserted && decide (reg.request.tokenHash = tokenHash) &&
      decide (reg.request.activityId = scopeKey)).isEmpty

/-- The rows the token's upsert conflicts with: `ux_push_token_active` lets there be one. -/
def conflicting (s : Activities) (request : RegisterRequest) : List TokenId :=
  (s.tokens.select fun _ token => request.conflicts token).map Prod.fst

/-- A token's row after the commit: the request's own token, or one it has invalidated. -/
def registeredToken (s : Activities) (r : RegisterId) (request : RegisterRequest) (k : TokenId)
    (token : UpdateToken) : UpdateToken :=
  if s.tokenLocks k = some r then
    if token.tokenHash = request.tokenHash then { token with deviceId := request.deviceId }
    else { token with active := false }
  else token

/-- The end of a register's transaction. -/
def endRegister (s : Activities) (r : RegisterId) : Activities :=
  { s with
    registers := s.registers.deleteWhere fun r' _ => r' = r
    jobLocks := s.jobLocks.release (.register r)
    tokenLocks := s.tokenLocks.release r }

/-- The commit of a register's tokens. -/
def commitTokens (s : Activities) (r : RegisterId) (reg : Register) : Activities :=
  let tokens := s.tokens.modify (s.registeredToken r reg.request)
  if reg.inserted then
    { s with tokens := tokens.set s.nextToken reg.request.token, nextToken := s.nextToken + 1 }
  else { s with tokens }

/-- Whether the end job's upsert needs no row that another transaction holds. -/
def mayUpsert (s : Activities) (r : RegisterId) (request : RegisterRequest) (held : List JobId) :
    Bool :=
  ((s.db.modifyJobs (Db.retiredRow held)).jobs.select fun _ job => request.isHolder job).all
    fun p => decide (s.jobLocks.Available (.register r) p.1)

/-- The registers of the activity under way. -/
def ofActivity (s : Activities) (deviceId : DeviceId) (activityId : String) :
    List (RegisterId × Register) :=
  s.registers.select fun _ reg =>
    decide (reg.request.deviceId = deviceId) && decide (reg.request.activityId = activityId)

/-! ### Other writers of tokens -/

/-- The rows `_upsert_push_token` writes: the one it moves, and those `_retire_superseded_tokens`
invalidates. -/
def superseded (token : UpdateToken) (other : UpdateToken) : Bool :=
  other.active && decide (other.scopeKey = token.scopeKey) &&
    (decide (other.tokenHash = token.tokenHash) || decide (other.deviceId = token.deviceId))

/-- What it makes of one. -/
def supersededRow (token : UpdateToken) (other : UpdateToken) : UpdateToken :=
  if superseded token other then
    if other.tokenHash = token.tokenHash then { other with deviceId := token.deviceId }
    else { other with active := false }
  else other

/-- `_upsert_push_token` of an update token. -/
def upsertPushToken (s : Activities) (token : UpdateToken) : Activities :=
  let tokens := s.tokens.modify fun _ => supersededRow token
  if (s.tokens.select fun _ other => other.active && decide (other.tokenHash = token.tokenHash) &&
      decide (other.scopeKey = token.scopeKey)).isEmpty then
    { s with
      tokens := tokens.set s.nextToken { token with active := true }
      nextToken := s.nextToken + 1 }
  else { s with tokens }

/-- Whether no register holds a token that `p` picks. -/
def unheld (s : Activities) (p : UpdateToken → Bool) : Bool :=
  (s.tokens.select fun _ token => p token).all fun q => (s.tokenLocks q.1).isNone

/-- The tokens that `p` picks are invalidated. -/
def invalidateTokens (s : Activities) (p : TokenId → UpdateToken → Bool) : Activities :=
  { s with
    tokens := s.tokens.modify fun k token =>
      if p k token then { token with active := false } else token }

/-- Whether the device's row is referenced by a register's uncommitted write. -/
def registering (s : Activities) (deviceId : DeviceId) : Bool :=
  !(s.registers.select fun _ reg =>
    decide (reg.request.deviceId = deviceId) && match reg.stage with
      | .invalidating _ => false
      | _ => true).isEmpty

/-- One step. -/
def step (cfg : Settings) (s : Activities) : ActivityLabel → Option Activities
  | .transaction l =>
    (Push.step cfg s.db l).bind fun db =>
      if l.plain && s.spares none db then some { s with db } else none
  | .cancelForSubmitted userId ids skip now ends =>
    let db := s.db.cancelForSubmitted userId ids skip now (ends.map (Push.endJob userId now))
    if ends.all (·.fits) && s.spares none db then some { s with db } else none
  | .openRound t =>
    (s.db.head t).bind fun j =>
      if (s.rounds t).isNone && (s.jobLocks j).isNone && (s.db.jobs.get j).isSome then
        some { s with
          rounds := Function.update s.rounds t (some ⟨j, []⟩)
          jobLocks := s.jobLocks.lock (.round t) j }
      else none
  | .selectTokens t found =>
    (s.rounds t).bind fun run =>
      if s.mayFind run.job found then
        some { s with rounds := Function.update s.rounds t (some { run with found }) }
      else none
  | .commitRound t now round skip ends =>
    (s.rounds t).bind fun run => (s.db.jobs.get run.job).bind fun job =>
      (Push.step cfg s.db
          (.process t now round skip (ends.map (Push.endJob job.userId now)))).bind fun db =>
        if decide (s.db.head t = some run.job) && s.mayCommit cfg t run job now round &&
            ends.all (·.fits) && s.spares (some (.round t)) db then
          some ({ s with
            db
            tokens := s.tokens.modify (s.sentRow cfg t run now round)
            pushToken := Function.update s.pushToken run.job (s.tokenOf run) }.endRound t)
        else none
  | .rollbackRound t => (s.rounds t).map fun _ => s.endRound t
  | .beginRegister r request =>
    if (s.registers.get r).isNone && request.accepted then
      let old := s.tokens.select fun _ token =>
        request.isPrior token && decide (token.tokenHash ≠ request.tokenHash)
      some (s.setRegister r ⟨request, .invalidating (old.map Prod.fst), false⟩)
    else none
  | .invalidate r =>
    (s.registers.get r).bind fun reg =>
      match reg.stage with
      | .invalidating (k :: old) =>
        if (s.tokens.get k).isSome && decide (s.tokenLocks.Available r k) then
          some { s.setRegister r { reg with stage := .invalidating old } with
            tokenLocks := s.tokenLocks.lock r k }
        else none
      | _ => none
  | .upsertToken r =>
    (s.registers.get r).bind fun reg =>
      match reg.stage with
      | .invalidating [] =>
        let rows := s.conflicting reg.request
        if (rows.all fun k => decide (s.tokenLocks.Available r k)) &&
            !s.insertedBy reg.request.tokenHash reg.request.activityId then
          some { s.setRegister r { reg with stage := .upserted, inserted := rows.isEmpty } with
            tokenLocks := fun k => if rows.contains k then some r else s.tokenLocks k }
        else none
      | _ => none
  | .selectHolders r =>
    (s.registers.get r).bind fun reg =>
      match reg.stage with
      | .upserted =>
        if reg.request.now < reg.request.countdownTarget then
          let holders := s.db.jobs.select fun _ job => reg.request.isHolder job
          some (s.setRegister r { reg with stage := .retiring (holders.map Prod.fst) [] })
        else none
      | _ => none
  | .lockHolder r =>
    (s.registers.get r).bind fun reg =>
      match reg.stage with
      | .retiring (j :: todo) held =>
        if decide (s.jobLocks.Available (.register r) j) then
          -- The lock waited for whoever held the row: the condition is asked again.
          if (s.db.jobs.get j).any reg.request.isHolder then
            some { s.setRegister r { reg with stage := .retiring todo (j :: held) } with
              jobLocks := s.jobLocks.lock (.register r) j }
          else some (s.setRegister r { reg with stage := .retiring todo held })
        else none
      | _ => none
  | .commit r now =>
    (s.registers.get r).bind fun reg =>
      match reg.stage with
      | .upserted =>
        if reg.request.countdownTarget ≤ reg.request.now then
          some ((s.commitTokens r reg).endRegister r)
        else none
      | .retiring [] held =>
        if s.mayUpsert r reg.request held then
          some ({ s.commitTokens r reg with
            db := s.db.upsertEndJob held now reg.request.endJob }.endRegister r)
        else none
      | _ => none
  | .rollback r => (s.registers.get r).map fun _ => s.endRegister r
  | .registerToken token =>
    if s.unheld (superseded token) && !s.insertedBy token.tokenHash token.scopeKey then
      some (s.upsertPushToken token)
    else none
  | .invalidateToken k =>
    if (s.tokenLocks k).isNone then some (s.invalidateTokens fun k' _ => k' = k) else none
  | .deleteDevice deviceId =>
    let db := s.db.modifyJobs fun _ => Db.withoutDevice deviceId
    if s.unheld (fun token => decide (token.deviceId = deviceId)) && !s.registering deviceId &&
        s.spares none db then
      some { s.invalidateTokens (fun _ token => token.deviceId = deviceId) with db }
    else none

/-- No other update token is registered for an activity while a register of it is under way. -/
def Alone (s : Activities) : ActivityLabel → Prop
  | .beginRegister _ request => s.ofActivity request.deviceId request.activityId = []
  | .registerToken token => s.ofActivity token.deviceId token.scopeKey = []
  | _ => True

instance (s : Activities) (l : ActivityLabel) : Decidable (s.Alone l) :=
  match l with
  | .beginRegister _ _ | .registerToken _ => inferInstanceAs (Decidable (_ = []))
  | .transaction _ | .cancelForSubmitted _ _ _ _ _ | .openRound _ | .selectTokens _ _
  | .commitRound _ _ _ _ _ | .rollbackRound _ | .invalidate _ | .upsertToken _
  | .selectHolders _ | .lockHolder _ | .commit _ _ | .rollback _ | .invalidateToken _
  | .deleteDevice _ => isTrue trivial

end Activities

end TigerDuck.Push
