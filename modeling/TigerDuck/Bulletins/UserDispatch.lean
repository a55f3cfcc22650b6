import Mathlib.Data.List.Sort
import TigerDuck.Bulletins.Processing
import TigerDuck.Bulletins.Subscriptions
import TigerDuck.Push.Pipeline

/-!
# The dispatch of bulletins to users

`dispatch_user_bulletins` of `server/bulletins/user_dispatch.py`, tick by tick and statement by
statement. A tick is one transaction: what it writes is its own until it commits, and a rollback
drops it. Each statement sees what is committed when it begins; `FOR UPDATE SKIP LOCKED` takes its
rows one at a time, looks at each again once it has it, and passes over those others hold.

Beside the ticks run the other writers of what a tick reads: the bulletins' own pipeline and the
portal, which writes a marker with the bulletin it sends itself, the bulletins' retention, the
subscription routes and sign-outs, the deregistration of a user, the push pipeline and the other
filers of jobs. A write that needs a row a tick has locked waits, so its step is not enabled.
No insert of a tick's waits: it holds the bulletin its matches are of, and the match its job is of.

`filedBy` and `filings` are no columns: which tick filed a match, and every job a tick has filed.

## Main results

- `deviceIds_exact`: the devices a match names.
- `statement_of_tickStep`: what a statement of a tick does.
-/

namespace TigerDuck.Bulletins.UserDispatch

open Push (JobId PushJobStatus SECOND)
open Relational Transition
open Subscriptions (RowId Subscription SubscriptionMode UserId)

/-- A tick's transaction. -/
abbrev TickId := Nat

/-- The unique key of `bulletin_user_matches`. -/
abbrev MatchKey := BulletinId × UserId

/-- `FAILED_BULLETIN_RETRY_DELAY`. -/
def FAILED_BULLETIN_RETRY_DELAY : Time := 15 * 60 * SECOND

structure Settings where
  bulletinUserDispatchBatchSize : Nat

/-! ### Rows -/

/-- The columns of a `bulletins` row the dispatch reads and writes. -/
structure Bulletin where
  processingState : BulletinProcessingState
  isDeleted : Bool
  matchRetryAt : Option Time
  canonicalOrg : Option String
  contentTags : List String
  title : String
  titleClean : Option String
  summary : Option String
  sourceUrl : String
  deriving DecidableEq, Repr

/-- A row of `bulletin_user_matches`. A match written before rules were per device names none. -/
structure Match where
  subscriptionId : RowId
  deviceIds : Option (List DeviceId)
  matchedAt : Time
  pushJobId : Option JobId
  pushedAt : Option Time
  filedBy : TickId
  deriving DecidableEq, Repr

/-- The `dedupe_key` of a job. -/
inductive JobKey
  | bulletin (id : BulletinId)
  | other (key : String)
  deriving DecidableEq, Repr

/-- The payload of a bulletin's job. -/
structure BulletinPayload where
  title : String
  body : String
  bulletinId : BulletinId
  sourceUrl : String
  canonicalOrg : String
  targetDeviceIds : Option (List DeviceId)
  deriving DecidableEq, Repr

/-- A row of `push_jobs`; only a bulletin's payload matters here. -/
structure Job where
  userId : UserId
  dedupeKey : JobKey
  channel : String
  scenario : String
  fireAt : Time
  payload : Option BulletinPayload
  status : PushJobStatus
  deriving DecidableEq, Repr

/-- A job a tick has filed, with the match it is of. -/
structure Filing where
  jobId : JobId
  key : MatchKey
  job : Job
  matched : Match
  deriving DecidableEq, Repr

/-! ### Matching -/

/-- `rule_hits`. -/
def ruleHits (rule : Subscriptions.RuleValues) (canonicalOrg : Option String)
    (contentTags : List String) : Bool :=
  let orgsOk := rule.orgs.isEmpty || canonicalOrg.any fun org => rule.orgs.contains org
  let tagsOk := rule.tags.isEmpty || rule.tags.any fun tag => contentTags.contains tag
  match rule.mode with
  | .and => orgsOk && tagsOk
  | .or => orgsOk || tagsOk

/-- A row `_file_matches` inserts. -/
structure MatchValue where
  userId : UserId
  firstSubId : RowId
  deviceIds : List DeviceId
  deriving DecidableEq, Repr

/-- The row a value is inserted as. -/
def MatchValue.row (v : MatchValue) (t : TickId) (now : Time) : Match :=
  ⟨v.firstSubId, some v.deviceIds, now, none, none, t⟩

/-- The devices of a user whose own rules hit, each with the first that does. -/
def hits (rules : List (RowId × Subscription)) (bulletin : Bulletin) (userId : UserId) :
    List (DeviceId × RowId) :=
  let own := rules.filter fun r => r.2.owner.1 = userId
  (own.map fun r => r.2.owner.2).eraseDups.filterMap fun device =>
    (own.find? fun r => decide (r.2.owner.2 = device) &&
      ruleHits r.2.values bulletin.canonicalOrg bulletin.contentTags).map fun r => (device, r.1)

/-- What a user's hits make of a match. -/
def matchValue (rules : List (RowId × Subscription)) (bulletin : Bulletin) (userId : UserId) :
    Option MatchValue :=
  let found := hits rules bulletin userId
  (found.map Prod.snd).min?.map fun first =>
    ⟨userId, first, (found.map Prod.fst).insertionSort (· ≤ ·)⟩

/-- The `values` of `_file_matches`. -/
def matchValues (rules : List (RowId × Subscription)) (bulletin : Bulletin) : List MatchValue :=
  if bulletin.canonicalOrg = none then []
  else (rules.map fun r => r.2.owner.1).eraseDups.filterMap (matchValue rules bulletin)

/-! ### The database -/

/-- Where a tick's transaction stands. -/
inductive Phase
  | start
  /-- Pass A's query is locking the bulletins it has found. -/
  | locking (candidates : List BulletinId)
  | locked
  /-- Between two savepoints. -/
  | matching (todo : List (BulletinId × Bulletin))
  /-- In the savepoint of a bulletin, with rows to insert. -/
  | filing (bulletin : BulletinId × Bulletin) (values : List MatchValue)
      (todo : List (BulletinId × Bulletin))
  /-- Pass B's query is locking the matches it has found. -/
  | lockingMatches (todo : List (MatchKey × Bulletin)) (held : List (MatchKey × Match × Bulletin))
  | pushing (held : List (MatchKey × Match × Bulletin))
  deriving DecidableEq, Repr

/-- A tick under way, with what it has written. -/
structure Tick where
  now : Time
  phase : Phase
  /-- The bulletins of pass A, as it has read them. -/
  bulletins : List (BulletinId × Bulletin)
  /-- The rules it has read. -/
  rules : Option (List (RowId × Subscription))
  userMatches : Table MatchKey Match
  runs : List BulletinId
  /-- The bulletins whose matching has failed. -/
  failed : List BulletinId
  /-- The matches it has stamped, with the job of each. -/
  stamps : List (MatchKey × Option JobId)
  filings : List Filing

def Tick.begun (now : Time) : Tick := ⟨now, .start, [], none, Table.empty, [], [], [], []⟩

/-- What is committed, the ticks under way, and the rows they have locked. -/
structure Db where
  bulletins : Table BulletinId Bulletin
  nextBulletin : BulletinId
  subscriptions : Table RowId Subscription
  /-- Whether a device has not been signed out. -/
  signedIn : DeviceId → Bool
  /-- Whether a user's account has been deleted. -/
  deregistered : UserId → Bool
  userMatches : Table MatchKey Match
  /-- `bulletin_user_match_runs`. -/
  runs : BulletinId → Bool
  jobs : Table JobId Job
  nextJob : JobId
  filings : List Filing
  ticks : Table TickId Tick
  nextTick : TickId
  bulletinLocks : RowLocks BulletinId TickId
  matchLocks : RowLocks MatchKey TickId

def Db.initial : Db where
  bulletins := Table.empty
  nextBulletin := 1
  subscriptions := Table.empty
  signedIn := fun _ => false
  deregistered := fun _ => false
  userMatches := Table.empty
  runs := fun _ => false
  jobs := Table.empty
  nextJob := 1
  filings := []
  ticks := Table.empty
  nextTick := 0
  bulletinLocks := RowLocks.free
  matchLocks := RowLocks.free

/-! ### The statements of a tick -/

/-- The part of pass A's condition that looks at the bulletin's own row. -/
def Bulletin.matchable (b : Bulletin) (now : Time) : Bool :=
  decide (b.processingState = .processed) && !b.isDeleted && b.matchRetryAt.all (· ≤ now)

namespace Db

def setTick (db : Db) (t : TickId) (k : Tick) : Db := { db with ticks := db.ticks.set t k }

/-- The bulletins pass A's query finds, in the order of their ids. -/
def candidates (db : Db) (now : Time) : List BulletinId :=
  ((db.bulletins.select fun id b => b.matchable now && !db.runs id).map Prod.fst).insertionSort
    (· ≤ ·)

/-- The row pass A's query gets: one nobody holds and that still satisfies the condition. -/
def lockable (db : Db) (t : TickId) (now : Time) (id : BulletinId) : Option Bulletin :=
  if db.bulletinLocks.Available t id then (db.bulletins.get id).filter (·.matchable now) else none

/-- The rules pass A reads, in the order of their ids. -/
def enabledRules (db : Db) : List (RowId × Subscription) :=
  (db.subscriptions.select fun _ s =>
    s.values.enabled && decide (s.deletedAt = none) && db.signedIn s.owner.2).insertionSort
      fun a b => a.1 ≤ b.1

/-- The matches pass B's query finds: the committed ones and the tick's own. -/
def pendingMatches (db : Db) (k : Tick) : List MatchKey :=
  (db.userMatches.select fun _ m => decide (m.pushedAt = none)).map Prod.fst ++
    k.userMatches.keys

/-- The committed row pass B's query gets: one nobody holds and that is still pending. -/
def lockableMatch (db : Db) (t : TickId) (key : MatchKey) : Option Match :=
  if db.matchLocks.Available t key then (db.userMatches.get key).filter fun m => m.pushedAt = none
  else none

end Db

/-- The job of a match. -/
def pushJob (now : Time) (key : MatchKey) (m : Match) (bulletin : Bulletin) : Job :=
  let title := ((bulletin.titleClean.filter (· ≠ "")).getD bulletin.title)
  { userId := key.2
    dedupeKey := .bulletin key.1
    channel := "bulletin"
    scenario := "bulletin_matched"
    fireAt := now
    payload := some
      { title
        body := (bulletin.summary.filter (· ≠ "")).getD title
        bulletinId := key.1
        sourceUrl := bulletin.sourceUrl
        canonicalOrg := bulletin.canonicalOrg.getD ""
        targetDeviceIds := m.deviceIds }
    status := .pending }

/-- Whether a job keeps another with its key from being filed. -/
def Job.holds (job : Job) (key : MatchKey) : Bool :=
  decide (job.userId = key.2) && decide (job.dedupeKey = .bulletin key.1) &&
    job.status.dedupeActive

/-- The ids of the jobs that hold a key, the tick's own among them. -/
def holders (db : Db) (k : Tick) (key : MatchKey) : List JobId :=
  (db.jobs.select fun _ job => job.holds key).map Prod.fst ++
    (k.filings.filter fun f => f.job.holds key).map Filing.jobId

/-- The tick ends: the rows it has locked are free again. -/
def Db.endTick (db : Db) (t : TickId) : Db :=
  { db with
    ticks := db.ticks.deleteWhere fun id _ => id = t
    bulletinLocks := db.bulletinLocks.release t
    matchLocks := db.matchLocks.release t }

/-- A committed match once a tick's stamps are committed. -/
def Tick.stamped (k : Tick) (key : MatchKey) (m : Match) : Match :=
  match k.stamps.lookup key with
  | some jobId => { m with pushedAt := some k.now, pushJobId := jobId }
  | none => m

/-- What a tick has written becomes what is committed. -/
def Db.commitTick (db : Db) (t : TickId) (k : Tick) : Db :=
  Db.endTick
    { db with
      bulletins := db.bulletins.modify fun id b =>
        if id ∈ k.failed then { b with matchRetryAt := some (k.now + FAILED_BULLETIN_RETRY_DELAY) }
        else b
      userMatches := (db.userMatches.insertFrom k.userMatches fun _ m => some m).modify k.stamped
      runs := fun id => db.runs id || decide (id ∈ k.runs)
      jobs := k.filings.foldl (fun jobs f => jobs.set f.jobId f.job) db.jobs
      filings := db.filings ++ k.filings } t

/-! ### Steps -/

/-- What happens next. -/
inductive Label
  | begin (now : Time)
  /-- Pass A's query begins. -/
  | look (t : TickId)
  | lockNext (t : TickId)
  | readRules (t : TickId)
  | savepoint (t : TickId)
  | insertMatch (t : TickId)
  /-- The marker is inserted and the savepoint released. -/
  | finish (t : TickId)
  /-- Something raises within the savepoint. -/
  | fail (t : TickId)
  /-- Pass B's query begins; it has no order of its own. -/
  | lookMatches (t : TickId) (order : List MatchKey)
  | lockMatch (t : TickId)
  | push (t : TickId)
  | commit (t : TickId)
  | rollback (t : TickId)
  | newBulletin (bulletin : Bulletin) (marked : Bool)
  | editBulletin (id : BulletinId) (bulletin : Bulletin)
  /-- `retention_job`, of one bulletin; its matches and its marker go with it. -/
  | deleteBulletin (id : BulletinId)
  | writeRules (subscriptions : Table RowId Subscription) (signedIn : DeviceId → Bool)
  /-- The deregistration of a user; what names the user goes with it. -/
  | deregister (userId : UserId)
  | setJobStatus (id : JobId) (status : PushJobStatus)
  | deleteJob (id : JobId)
  | fileOther (userId : UserId) (key : String) (fireAt : Time)

/-- A statement of a tick. -/
def tickStep (cfg : Settings) (db : Db) (t : TickId) (k : Tick) : Label → Option Db
  | .look _ =>
    match k.phase with
    | .start => some (db.setTick t { k with phase := .locking (db.candidates k.now) })
    | _ => none
  | .lockNext _ =>
    match k.phase with
    | .locking [] => some (db.setTick t { k with phase := .locked })
    | .locking (id :: rest) =>
      if k.bulletins.length < cfg.bulletinUserDispatchBatchSize then
        match db.lockable t k.now id with
        | some row =>
          some (Db.setTick { db with bulletinLocks := db.bulletinLocks.lock t id } t
            { k with bulletins := k.bulletins ++ [(id, row)], phase := .locking rest })
        | none => some (db.setTick t { k with phase := .locking rest })
      else some (db.setTick t { k with phase := .locked })
    | _ => none
  | .readRules _ =>
    match k.phase with
    | .locked =>
      if k.bulletins = [] then some (db.setTick t { k with phase := .matching [] })
      else some (db.setTick t { k with rules := some db.enabledRules, phase := .matching k.bulletins })
    | _ => none
  | .savepoint _ =>
    match k.phase with
    | .matching (bulletin :: todo) =>
      some (db.setTick t { k with
        phase := .filing bulletin (matchValues (k.rules.getD []) bulletin.2) todo })
    | _ => none
  | .insertMatch _ =>
    match k.phase with
    | .filing bulletin (v :: values) todo =>
      -- The user's row is gone: the foreign key refuses the match.
      if db.deregistered v.userId then none
      else
        let key := (bulletin.1, v.userId)
        let userMatches :=
          if (db.userMatches.get key).isSome then k.userMatches
          else k.userMatches.upsert key (v.row t k.now) id
        some (db.setTick t { k with userMatches, phase := .filing bulletin values todo })
    | _ => none
  | .finish _ =>
    match k.phase with
    | .filing bulletin [] todo =>
      some (db.setTick t { k with runs := k.runs ++ [bulletin.1], phase := .matching todo })
    | _ => none
  | .fail _ =>
    match k.phase with
    | .filing bulletin _ todo =>
      some (db.setTick t { k with
        userMatches := k.userMatches.deleteWhere fun key _ => key.1 = bulletin.1
        failed := k.failed ++ [bulletin.1]
        phase := .matching todo })
    | _ => none
  | .lookMatches _ order =>
    match k.phase with
    | .matching [] =>
      if order.Perm (db.pendingMatches k) then
        some (db.setTick t { k with
          phase := .lockingMatches
            (order.filterMap fun key => (db.bulletins.get key.1).map fun b => (key, b)) [] })
      else none
    | _ => none
  | .lockMatch _ =>
    match k.phase with
    | .lockingMatches [] held => some (db.setTick t { k with phase := .pushing held })
    | .lockingMatches ((key, bulletin) :: todo) held =>
      match k.userMatches.get key with
      -- Nobody else sees the tick's own rows.
      | some m =>
        some (db.setTick t { k with phase := .lockingMatches todo (held ++ [(key, m, bulletin)]) })
      | none =>
        match db.lockableMatch t key with
        | some m =>
          some (Db.setTick { db with matchLocks := db.matchLocks.lock t key } t
            { k with phase := .lockingMatches todo (held ++ [(key, m, bulletin)]) })
        | none => some (db.setTick t { k with phase := .lockingMatches todo held })
    | _ => none
  | .push _ =>
    match k.phase with
    | .pushing ((key, m, bulletin) :: held) =>
      if bulletin.isDeleted then
        some (db.setTick t { k with stamps := k.stamps ++ [(key, none)], phase := .pushing held })
      else
        let taken := holders db k key
        if taken.isEmpty then
          let job := pushJob k.now key m bulletin
          some (Db.setTick { db with nextJob := db.nextJob + 1 } t
            { k with
              stamps := k.stamps ++ [(key, some db.nextJob)]
              filings := k.filings ++ [⟨db.nextJob, key, job, m⟩]
              phase := .pushing held })
        else
          some (db.setTick t { k with
            stamps := k.stamps ++ [(key, taken.max?)], phase := .pushing held })
    | _ => none
  | .commit _ =>
    match k.phase with
    | .pushing [] => some (db.commitTick t k)
    | _ => none
  | .rollback _ => some (db.endTick t)
  | _ => none

/-- The tick whose statement a label is. -/
def Label.tick : Label → Option TickId
  | .look t | .lockNext t | .readRules t | .savepoint t | .insertMatch t | .finish t | .fail t
  | .lookMatches t _ | .lockMatch t | .push t | .commit t | .rollback t => some t
  | _ => none

/-- Whether no tick keeps the bulletin's row, or a match of it, from being deleted. -/
def Db.deletable (db : Db) (id : BulletinId) : Bool :=
  decide (db.bulletinLocks id = none) &&
    db.userMatches.keys.all fun key => decide (key.1 = id → db.matchLocks key = none)

/-- Whether no tick keeps the user's row, or a match of the user's, from being deleted. -/
def Db.deregisterable (db : Db) (userId : UserId) : Bool :=
  (db.userMatches.keys.all fun key => decide (key.2 = userId → db.matchLocks key = none)) &&
    db.ticks.rows.all fun r => r.2.userMatches.keys.all fun key => decide (key.2 ≠ userId)

/-- One step. -/
def step (cfg : Settings) (db : Db) (l : Label) : Option Db :=
  match l with
  | .begin now =>
    some { db with ticks := db.ticks.set db.nextTick (Tick.begun now), nextTick := db.nextTick + 1 }
  | .newBulletin bulletin marked =>
    some { db with
      bulletins := db.bulletins.set db.nextBulletin bulletin
      nextBulletin := db.nextBulletin + 1
      runs := fun id => if id = db.nextBulletin then marked else db.runs id }
  | .editBulletin id bulletin =>
    if db.bulletinLocks id = none ∧ (db.bulletins.get id).isSome then
      some { db with bulletins := db.bulletins.set id bulletin }
    else none
  | .deleteBulletin id =>
    if db.deletable id then
      some { db with
        bulletins := db.bulletins.deleteWhere fun i _ => i = id
        userMatches := db.userMatches.deleteWhere fun key _ => key.1 = id
        runs := fun i => if i = id then false else db.runs i }
    else none
  | .writeRules subscriptions signedIn => some { db with subscriptions, signedIn }
  | .deregister userId =>
    if db.deregisterable userId then
      some { db with
        deregistered := Function.update db.deregistered userId true
        subscriptions := db.subscriptions.deleteWhere fun _ s => s.owner.1 = userId
        userMatches := db.userMatches.deleteWhere fun key _ => key.2 = userId
        jobs := db.jobs.deleteWhere fun _ job => job.userId = userId }
    else none
  | .setJobStatus id status =>
    some { db with jobs := db.jobs.modify fun i job => if i = id then { job with status } else job }
  | .deleteJob id => some { db with jobs := db.jobs.deleteWhere fun i _ => i = id }
  | .fileOther userId key fireAt =>
    some { db with
      jobs := db.jobs.set db.nextJob ⟨userId, .other key, "", "", fireAt, none, .pending⟩
      nextJob := db.nextJob + 1 }
  | l =>
    match l.tick with
    | some t => (db.ticks.get t).bind fun k => tickStep cfg db t k l
    | none => none

/-! ### The devices of a match -/

section Matching

variable {rules : List (RowId × Subscription)} {bulletin : Bulletin} {userId : UserId}

theorem mem_hits {d : DeviceId} :
    d ∈ (hits rules bulletin userId).map Prod.fst ↔
      ∃ r ∈ rules, r.2.owner = (userId, d) ∧
        ruleHits r.2.values bulletin.canonicalOrg bulletin.contentTags = true := by
  simp only [hits, List.mem_map, List.mem_filterMap, List.mem_eraseDups, List.mem_filter,
    Option.map_eq_some_iff]
  constructor
  · rintro ⟨_, ⟨device, _, r, hfind, rfl⟩, rfl⟩
    have hhit := List.find?_some hfind
    have hmem := List.mem_of_find?_eq_some hfind
    rw [List.mem_filter, decide_eq_true_eq] at hmem
    rw [Bool.and_eq_true, decide_eq_true_eq] at hhit
    exact ⟨r, hmem.1, Prod.ext hmem.2 hhit.1, hhit.2⟩
  · rintro ⟨r, hmem, howner, hhit⟩
    have hown : r ∈ rules ∧ decide (r.2.owner.1 = userId) = true :=
      ⟨hmem, decide_eq_true (congrArg Prod.fst howner)⟩
    have hsome : ((rules.filter fun r => decide (r.2.owner.1 = userId)).find? fun r =>
        decide (r.2.owner.2 = d) &&
          ruleHits r.2.values bulletin.canonicalOrg bulletin.contentTags).isSome = true := by
      rw [List.find?_isSome]
      refine ⟨r, List.mem_filter.mpr hown, ?_⟩
      rw [congrArg Prod.snd howner, hhit, decide_eq_true rfl, Bool.and_self]
    obtain ⟨first, hfirst⟩ := Option.isSome_iff_exists.mp hsome
    exact ⟨_, ⟨d, ⟨r, hown, congrArg Prod.snd howner⟩, first, hfirst, rfl⟩, rfl⟩

/-- A match's values are those of its user. -/
theorem matchValue_of_mem {v : MatchValue} (h : v ∈ matchValues rules bulletin) :
    matchValue rules bulletin v.userId = some v := by
  rw [matchValues] at h
  split at h
  · simp at h
  · obtain ⟨u, _, hv⟩ := List.mem_filterMap.mp h
    obtain ⟨first, _, rfl⟩ := Option.map_eq_some_iff.mp hv
    exact hv

/-- The devices a database's rules aim a bulletin at for a user: the signed-in ones with an enabled
rule of their own that hits it. -/
def Named (db : Db) (bulletin : Bulletin) (userId : UserId) (deviceIds : List DeviceId) : Prop :=
  ∀ d, d ∈ deviceIds ↔ db.signedIn d = true ∧ ∃ id s, db.subscriptions.get id = some s ∧
    s.owner = (userId, d) ∧ s.values.enabled = true ∧ s.deletedAt = none ∧
    ruleHits s.values bulletin.canonicalOrg bulletin.contentTags = true

theorem mem_enabledRules {db : Db} {r : RowId × Subscription} :
    r ∈ db.enabledRules ↔ db.subscriptions.get r.1 = some r.2 ∧
      (r.2.values.enabled = true ∧ r.2.deletedAt = none) ∧ db.signedIn r.2.owner.2 = true := by
  obtain ⟨id, s⟩ := r
  rw [Db.enabledRules, List.mem_insertionSort, Table.mem_select_iff, Bool.and_eq_true,
    Bool.and_eq_true, decide_eq_true_eq]

/-- A match names exactly the devices its database's rules aim the bulletin at. -/
theorem deviceIds_exact {db : Db} {v : MatchValue}
    (h : v ∈ matchValues db.enabledRules bulletin) : Named db bulletin v.userId v.deviceIds := by
  intro d
  obtain ⟨first, _, hv⟩ := Option.map_eq_some_iff.mp (matchValue_of_mem h)
  have hids : v.deviceIds = ((hits db.enabledRules bulletin v.userId).map
      Prod.fst).insertionSort (· ≤ ·) := by rw [← hv]
  rw [hids, List.mem_insertionSort, mem_hits]
  constructor
  · rintro ⟨r, hr, howner, hhit⟩
    obtain ⟨hget, ⟨henabled, hlive⟩, hsigned⟩ := mem_enabledRules.mp hr
    rw [howner] at hsigned
    exact ⟨hsigned, r.1, r.2, hget, howner, henabled, hlive, hhit⟩
  · rintro ⟨hsigned, id, s, hget, howner, henabled, hlive, hhit⟩
    refine ⟨(id, s), mem_enabledRules.mpr ⟨hget, ⟨henabled, hlive⟩, ?_⟩, howner, hhit⟩
    rwa [howner]

end Matching

/-! ### What a step does -/

section Cases

variable {cfg : Settings} {db db' : Db} {t : TickId} {k : Tick} {l : Label}

/-- The statements of a tick. -/
inductive Statement (db : Db) (t : TickId) (k : Tick) : Label → Db → Prop
  | look (hphase : k.phase = .start) :
      Statement db t k (.look t) (db.setTick t { k with phase := .locking (db.candidates k.now) })
  /-- The query has its limit, or nothing more to lock. -/
  | lockEnd (todo : List BulletinId) (hphase : k.phase = .locking todo) :
      Statement db t k (.lockNext t) (db.setTick t { k with phase := .locked })
  | lockSkip (id : BulletinId) (rest : List BulletinId) (hphase : k.phase = .locking (id :: rest)) :
      Statement db t k (.lockNext t) (db.setTick t { k with phase := .locking rest })
  | lock (id : BulletinId) (rest : List BulletinId) (row : Bulletin)
      (hphase : k.phase = .locking (id :: rest)) (hfree : db.bulletinLocks.Available t id)
      (hrow : db.bulletins.get id = some row) :
      Statement db t k (.lockNext t)
        (Db.setTick { db with bulletinLocks := db.bulletinLocks.lock t id } t
          { k with bulletins := k.bulletins ++ [(id, row)], phase := .locking rest })
  | readNone (hphase : k.phase = .locked) (hnone : k.bulletins = []) :
      Statement db t k (.readRules t) (db.setTick t { k with phase := .matching [] })
  | readRules (hphase : k.phase = .locked) :
      Statement db t k (.readRules t) (db.setTick t
        { k with rules := some db.enabledRules, phase := .matching k.bulletins })
  | savepoint (r : BulletinId × Bulletin) (todo : List (BulletinId × Bulletin))
      (hphase : k.phase = .matching (r :: todo)) :
      Statement db t k (.savepoint t) (db.setTick t
        { k with phase := .filing r (matchValues (k.rules.getD []) r.2) todo })
  /-- A row of the key is committed: the insert does nothing. -/
  | insertNothing (r : BulletinId × Bulletin) (v : MatchValue) (values : List MatchValue)
      (todo : List (BulletinId × Bulletin)) (hphase : k.phase = .filing r (v :: values) todo)
      (hsome : (db.userMatches.get (r.1, v.userId)).isSome = true) :
      Statement db t k (.insertMatch t) (db.setTick t { k with phase := .filing r values todo })
  | insertMatch (r : BulletinId × Bulletin) (v : MatchValue) (values : List MatchValue)
      (todo : List (BulletinId × Bulletin)) (hphase : k.phase = .filing r (v :: values) todo)
      (hlive : db.deregistered v.userId = false)
      (hnone : db.userMatches.get (r.1, v.userId) = none) :
      Statement db t k (.insertMatch t) (db.setTick t
        { k with
          userMatches := k.userMatches.upsert (r.1, v.userId) (v.row t k.now) id
          phase := .filing r values todo })
  | finish (r : BulletinId × Bulletin) (todo : List (BulletinId × Bulletin))
      (hphase : k.phase = .filing r [] todo) :
      Statement db t k (.finish t) (db.setTick t
        { k with runs := k.runs ++ [r.1], phase := .matching todo })
  | fail (r : BulletinId × Bulletin) (values : List MatchValue)
      (todo : List (BulletinId × Bulletin)) (hphase : k.phase = .filing r values todo) :
      Statement db t k (.fail t) (db.setTick t
        { k with
          userMatches := k.userMatches.deleteWhere fun key _ => key.1 = r.1
          failed := k.failed ++ [r.1]
          phase := .matching todo })
  | lookMatches (order : List MatchKey) (hphase : k.phase = .matching [])
      (horder : order.Perm (db.pendingMatches k)) :
      Statement db t k (.lookMatches t order) (db.setTick t
        { k with
          phase := .lockingMatches
            (order.filterMap fun key => (db.bulletins.get key.1).map fun b => (key, b)) [] })
  | matchEnd (held : List (MatchKey × Match × Bulletin))
      (hphase : k.phase = .lockingMatches [] held) :
      Statement db t k (.lockMatch t) (db.setTick t { k with phase := .pushing held })
  | matchSkip (key : MatchKey) (bulletin : Bulletin) (todo : List (MatchKey × Bulletin))
      (held : List (MatchKey × Match × Bulletin))
      (hphase : k.phase = .lockingMatches ((key, bulletin) :: todo) held) :
      Statement db t k (.lockMatch t) (db.setTick t { k with phase := .lockingMatches todo held })
  | ownMatch (key : MatchKey) (bulletin : Bulletin) (todo : List (MatchKey × Bulletin))
      (held : List (MatchKey × Match × Bulletin)) (m : Match)
      (hphase : k.phase = .lockingMatches ((key, bulletin) :: todo) held)
      (hown : k.userMatches.get key = some m) :
      Statement db t k (.lockMatch t) (db.setTick t
        { k with phase := .lockingMatches todo (held ++ [(key, m, bulletin)]) })
  | lockMatch (key : MatchKey) (bulletin : Bulletin) (todo : List (MatchKey × Bulletin))
      (held : List (MatchKey × Match × Bulletin)) (m : Match)
      (hphase : k.phase = .lockingMatches ((key, bulletin) :: todo) held)
      (hfree : db.matchLocks.Available t key) (hrow : db.userMatches.get key = some m)
      (hpending : m.pushedAt = none) :
      Statement db t k (.lockMatch t)
        (Db.setTick { db with matchLocks := db.matchLocks.lock t key } t
          { k with phase := .lockingMatches todo (held ++ [(key, m, bulletin)]) })
  /-- The bulletin is off the board, or an active job holds the key: the match is only stamped. -/
  | stamp (key : MatchKey) (m : Match) (bulletin : Bulletin)
      (held : List (MatchKey × Match × Bulletin)) (jobId : Option JobId)
      (hphase : k.phase = .pushing ((key, m, bulletin) :: held)) :
      Statement db t k (.push t) (db.setTick t
        { k with stamps := k.stamps ++ [(key, jobId)], phase := .pushing held })
  | file (key : MatchKey) (m : Match) (bulletin : Bulletin)
      (held : List (MatchKey × Match × Bulletin))
      (hphase : k.phase = .pushing ((key, m, bulletin) :: held)) :
      Statement db t k (.push t) (Db.setTick { db with nextJob := db.nextJob + 1 } t
        { k with
          stamps := k.stamps ++ [(key, some db.nextJob)]
          filings := k.filings ++ [⟨db.nextJob, key, pushJob k.now key m bulletin, m⟩]
          phase := .pushing held })
  | commit (hphase : k.phase = .pushing []) : Statement db t k (.commit t) (db.commitTick t k)
  | rollback : Statement db t k (.rollback t) (db.endTick t)

theorem lockable_some {id : BulletinId} {row : Bulletin}
    (h : db.lockable t k.now id = some row) :
    db.bulletinLocks.Available t id ∧ db.bulletins.get id = some row := by
  rw [Db.lockable] at h
  split at h
  next hfree => exact ⟨hfree, (Option.filter_eq_some_iff.mp h).1⟩
  next => cases h

theorem lockableMatch_some {key : MatchKey} {m : Match} (h : db.lockableMatch t key = some m) :
    db.matchLocks.Available t key ∧ db.userMatches.get key = some m ∧ m.pushedAt = none := by
  rw [Db.lockableMatch] at h
  split at h
  next hfree =>
    obtain ⟨hrow, hpending⟩ := Option.filter_eq_some_iff.mp h
    exact ⟨hfree, hrow, of_decide_eq_true hpending⟩
  next => cases h

/-- A statement of a tick is one of its statements. -/
theorem statement_of_tickStep (htick : l.tick = some t) (h : tickStep cfg db t k l = some db') :
    Statement db t k l db' := by
  cases l with
  | look t' =>
    obtain rfl := Option.some.inj htick
    dsimp only [tickStep] at h
    split at h
    next hphase =>
      obtain rfl := Option.some.inj h
      exact .look hphase
    next => cases h
  | lockNext t' =>
    obtain rfl := Option.some.inj htick
    dsimp only [tickStep] at h
    split at h
    next hphase =>
      obtain rfl := Option.some.inj h
      exact .lockEnd [] hphase
    next id rest hphase =>
      split at h
      next =>
        split at h
        next row hrow =>
          obtain rfl := Option.some.inj h
          obtain ⟨hfree, hrow⟩ := lockable_some hrow
          exact .lock id rest row hphase hfree hrow
        next =>
          obtain rfl := Option.some.inj h
          exact .lockSkip id rest hphase
      next =>
        obtain rfl := Option.some.inj h
        exact .lockEnd (id :: rest) hphase
    next => cases h
  | readRules t' =>
    obtain rfl := Option.some.inj htick
    dsimp only [tickStep] at h
    split at h
    next hphase =>
      split at h
      next hnone =>
        obtain rfl := Option.some.inj h
        exact .readNone hphase hnone
      next =>
        obtain rfl := Option.some.inj h
        exact .readRules hphase
    next => cases h
  | savepoint t' =>
    obtain rfl := Option.some.inj htick
    dsimp only [tickStep] at h
    split at h
    next r todo hphase =>
      obtain rfl := Option.some.inj h
      exact .savepoint r todo hphase
    next => cases h
  | insertMatch t' =>
    obtain rfl := Option.some.inj htick
    dsimp only [tickStep] at h
    split at h
    next r v values todo hphase =>
      split at h
      next => cases h
      next hlive =>
        obtain rfl := Option.some.inj h
        have hlive := (Bool.not_eq_true _).mp hlive
        cases hget : db.userMatches.get (r.1, v.userId) with
        | none =>
          simp only [Option.isSome_none, Bool.false_eq_true, if_false]
          exact .insertMatch r v values todo hphase hlive hget
        | some m =>
          simp only [Option.isSome_some, if_true]
          exact .insertNothing r v values todo hphase (by rw [hget, Option.isSome_some])
    next => cases h
  | finish t' =>
    obtain rfl := Option.some.inj htick
    dsimp only [tickStep] at h
    split at h
    next r todo hphase =>
      obtain rfl := Option.some.inj h
      exact .finish r todo hphase
    next => cases h
  | fail t' =>
    obtain rfl := Option.some.inj htick
    dsimp only [tickStep] at h
    split at h
    next r values todo hphase =>
      obtain rfl := Option.some.inj h
      exact .fail r values todo hphase
    next => cases h
  | lookMatches t' order =>
    obtain rfl := Option.some.inj htick
    dsimp only [tickStep] at h
    split at h
    next hphase =>
      split at h
      next horder =>
        obtain rfl := Option.some.inj h
        exact .lookMatches order hphase horder
      next => cases h
    next => cases h
  | lockMatch t' =>
    obtain rfl := Option.some.inj htick
    dsimp only [tickStep] at h
    split at h
    next held hphase =>
      obtain rfl := Option.some.inj h
      exact .matchEnd held hphase
    next key bulletin todo held hphase =>
      split at h
      next m hown =>
        obtain rfl := Option.some.inj h
        exact .ownMatch key bulletin todo held m hphase hown
      next =>
        split at h
        next m hrow =>
          obtain rfl := Option.some.inj h
          obtain ⟨hfree, hrow, hpending⟩ := lockableMatch_some hrow
          exact .lockMatch key bulletin todo held m hphase hfree hrow hpending
        next =>
          obtain rfl := Option.some.inj h
          exact .matchSkip key bulletin todo held hphase
    next => cases h
  | push t' =>
    obtain rfl := Option.some.inj htick
    dsimp only [tickStep] at h
    split at h
    next key m bulletin held hphase =>
      split at h
      next =>
        obtain rfl := Option.some.inj h
        exact .stamp key m bulletin held none hphase
      next =>
        split at h
        next =>
          obtain rfl := Option.some.inj h
          exact .file key m bulletin held hphase
        next =>
          obtain rfl := Option.some.inj h
          exact .stamp key m bulletin held _ hphase
    next => cases h
  | commit t' =>
    obtain rfl := Option.some.inj htick
    dsimp only [tickStep] at h
    split at h
    next hphase =>
      obtain rfl := Option.some.inj h
      exact .commit hphase
    next => cases h
  | rollback t' =>
    obtain rfl := Option.some.inj htick
    obtain rfl := Option.some.inj h
    exact .rollback
  | _ => cases htick

end Cases

end TigerDuck.Bulletins.UserDispatch
