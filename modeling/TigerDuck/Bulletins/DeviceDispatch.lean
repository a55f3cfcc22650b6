import Mathlib.Data.List.Sort
import Mathlib.Data.String.Basic
import TigerDuck.Bulletins.UserDispatch
import TigerDuck.Devices.Registrations

/-!
# The dispatch of bulletins to devices

`dispatch_pending_bulletins` of `server/bulletins/dispatcher.py`, which `dispatch_job` runs one
tick at a time, with the two resolutions of a bulletin's devices: the rules of
`server/bulletins/matcher.py`, and the operator's filter of
`server/push/custom_push_targeting.py`. A step is one transaction, one read, or one call of a
provider; between any two the process may stop, the fan-out of a bulletin may raise, and the
tables' other writers may write.

What a call of a provider does and what is committed of it are two steps: a fan-out that ends in
between has pushed what its rows do not tell. `recorded` and `lost` are no columns: the pushes
whose outcome has been committed, and those whose outcome has been dropped. Nor are `filed`, the
bulletin and the device of every row there has been, and `fanouts`, the number of fan-outs that
have run to their end since a row was filed.

## Main results

- `step_cases`: what a step can do, case by case.
- `fileOne_cases`: an insert files one row, or finds the device's.
- `flatten_batched`: the batches are the rows, in their order.
-/

namespace TigerDuck.Bulletins.DeviceDispatch

open Devices.Registrations (DeviceRegistration DevicePlatform DeviceClass)
open Relational Transition
open Subscriptions (RowId RuleValues)
open UserDispatch (FAILED_BULLETIN_RETRY_DELAY ruleHits)

/-- A `bulletin_dispatches.id`. -/
abbrev DispatchId := Nat

def MAX_DISPATCH_ATTEMPTS : Nat := 3

def FCM_BATCH : Nat := 500

/-- The `batch_limit` `dispatch_job` leaves as it is. -/
def BATCH_LIMIT : Nat := 5

/-! ### Rows -/

/-- A `dispatch_filter_json` that is not empty. -/
structure DispatchFilter where
  targetClasses : List DeviceClass
  userId : Option String
  deviceId : Option String
  listId : Option Nat
  forceRing : Bool
  deriving DecidableEq, Repr

/-- The columns of a `bulletins` row the dispatcher reads and writes. -/
structure Bulletin where
  processingState : BulletinProcessingState
  isDeleted : Bool
  notifiedAt : Option Time
  fanoutRetryAt : Option Time
  canonicalOrg : Option String
  contentTags : List String
  title : String
  titleClean : Option String
  summary : Option String
  sourceUrl : String
  dispatchFilter : Option DispatchFilter
  deriving DecidableEq, Repr

/-- A row of `bulletin_subscriptions`. -/
structure DeviceRule where
  deviceId : String
  values : RuleValues
  deriving DecidableEq, Repr

inductive BulletinDispatchStatus
  | pending
  | sent
  | failed
  | cancelled
  deriving DecidableEq, Repr

/-- A row of `bulletin_dispatches`. -/
structure Dispatch where
  bulletinId : BulletinId
  deviceId : String
  status : BulletinDispatchStatus
  attempts : Nat
  lastError : Option String
  sentAt : Option Time
  fanouts : Nat
  deriving DecidableEq, Repr

/-- A row as it is inserted. -/
def Dispatch.fresh (bulletinId : BulletinId) (deviceId : String) : Dispatch :=
  ⟨bulletinId, deviceId, .pending, 0, none, none, 0⟩

/-! ### The devices of a bulletin -/

/-- What `match_device_ids` asks of a device. -/
def matchable (device : DeviceRegistration) : Bool :=
  device.linkedUserId.isNone &&
    match device.platform with
    | .apple => device.deviceTokenHex.isSome
    | .android => device.ptsTokenHex ≠ ""

/-- `device_matches`. -/
def deviceMatches (rules : List RuleValues) (canonicalOrg : String) (contentTags : List String) :
    Bool :=
  rules.any fun rule => ruleHits rule (some canonicalOrg) contentTags

/-- `match_device_ids`. -/
def matchDeviceIds (rules : List DeviceRule) (devices : Table String DeviceRegistration)
    (canonicalOrg : String) (contentTags : List String) : List String :=
  let rows := rules.filter fun r => r.values.enabled && (devices.get r.deviceId).any matchable
  let rulesOf := fun deviceId => (rows.filter fun r => r.deviceId = deviceId).map DeviceRule.values
  ((rows.map DeviceRule.deviceId).eraseDups.filter fun deviceId =>
    deviceMatches (rulesOf deviceId) canonicalOrg contentTags).insertionSort (· ≤ ·)

/-- `_legacy_platforms_for`. -/
def legacyPlatformsFor (classes : List DeviceClass) : List DevicePlatform :=
  (if .iphone ∈ classes ∨ .ipad ∈ classes ∨ .mac ∈ classes then [.apple] else []) ++
    if .android ∈ classes ∨ .androidTablet ∈ classes then [.android] else []

/-- The condition of `resolve_target_device_ids`. -/
def DispatchFilter.targets (filt : DispatchFilter) (deviceId : String)
    (device : DeviceRegistration) : Bool :=
  device.serverPushEnabled && device.linkedUserId.isNone &&
    (match device.platform with
      | .apple => device.deviceTokenHex.any (· ≠ "")
      | .android => decide (device.ptsTokenHex ≠ "")) &&
    (match device.deviceClass with
      | some c => filt.targetClasses.contains c
      | none => (legacyPlatformsFor filt.targetClasses).contains device.platform) &&
    filt.userId.all (· = device.userId) && filt.deviceId.all (· = deviceId)

/-- `resolve_target_device_ids`. -/
def resolveTargetDeviceIds (devices : Table String DeviceRegistration) (filt : DispatchFilter) :
    List String :=
  if filt.targetClasses = [] ∨ filt.listId.isSome then []
  else ((devices.select filt.targets).map Prod.fst).insertionSort (· ≤ ·)

/-! ### The answers of the providers -/

structure SendResult where
  success : Bool
  status : String
  description : Option String
  deriving DecidableEq, Repr

/-- `str.lower`, of the characters whose lower case is in ASCII. -/
def lower (s : String) : String :=
  s.map fun c => if c = Char.ofNat 0x212A then 'k' else c.toLower

/-- `str.upper`, of the characters whose upper case is in ASCII. -/
def upper (s : String) : String :=
  String.ofList (s.toList.flatMap fun c =>
    if c = Char.ofNat 0x131 then ['I']
    else if c = Char.ofNat 0x17F then ['S']
    else if c = Char.ofNat 0xDF then ['S', 'S']
    else if c = Char.ofNat 0xFB05 ∨ c = Char.ofNat 0xFB06 then ['S', 'T']
    else [c.toUpper])

/-- `part in text`. -/
def contained (part text : String) : Bool :=
  text.toList.tails.any fun rest => part.toList.isPrefixOf rest

/-- `is_dead_fcm_token`. -/
def isDeadFcmToken (result : SendResult) : Bool :=
  let s := upper result.status
  if s = "UNREGISTERED" ∨ s = "SENDER_ID_MISMATCH" then true
  else
    let named := contained "registration token" (lower (result.description.getD ""))
    s = "INVALID_ARGUMENT" && named

inductive Classification
  | sent
  | badToken
  | transient
  deriving DecidableEq, Repr

/-- The `bad_token_markers` of `_classify`. -/
def BAD_TOKEN_MARKERS : List String :=
  ["410", "baddevicetoken", "bad_device_token", "unregistered", "devicetokennotfortopic"]

/-- `_classify`. -/
def classify (result : SendResult) (platform : DevicePlatform) : Classification :=
  if result.success then .sent
  else
    match platform with
    | .android => if isDeadFcmToken result then .badToken else .transient
    | .apple =>
      let status := lower result.status
      let desc := lower (result.description.getD "")
      if BAD_TOKEN_MARKERS.any fun m => contained m status || contained m desc then .badToken
      else .transient

/-! ### The pushes -/

/-- What `build_alert_request` and `build_fcm_alert_request` are given. -/
structure AlertRequest where
  token : String
  bundleId : Option String
  title : String
  body : String
  bulletinId : BulletinId
  sourceUrl : String
  canonicalOrg : String
  now : Option Time
  kind : String
  forceRing : Bool
  deriving DecidableEq, Repr

/-- A pending row as the fan-out has loaded it. -/
structure Loaded where
  id : DispatchId
  dispatch : Dispatch
  device : DeviceRegistration
  bulletin : Bulletin
  deriving DecidableEq, Repr

/-- `_kind_and_force_ring`. -/
def kindAndForceRing (bulletin : Bulletin) : String × Bool :=
  match bulletin.dispatchFilter with
  | some filt => ("custom_push_bulletin", filt.forceRing)
  | none => ("bulletin", true)

namespace Loaded

/-- The token of a row's device, unless it has none. -/
def token (row : Loaded) : Option String :=
  match row.device.platform with
  | .android => some row.device.ptsTokenHex |>.filter (· ≠ "")
  | .apple => row.device.deviceTokenHex.filter (· ≠ "")

/-- One of the `android_rows`. -/
def isAndroid (row : Loaded) : Bool := row.device.platform = .android && row.token.isSome

/-- Why a row without a token is cancelled. -/
def noToken (row : Loaded) : String :=
  match row.device.platform with
  | .android => "android device has no FCM token"
  | .apple => "device has no standard APNs token"

/-- The request a row is sent with. -/
def request (row : Loaded) (token : String) (ts : Time) : AlertRequest :=
  let title := (row.bulletin.titleClean.filter (· ≠ "")).getD row.bulletin.title
  { token
    bundleId := match row.device.platform with
      | .android => none
      | .apple => some row.device.bundleId
    title
    body := (row.bulletin.summary.filter (· ≠ "")).getD title
    bulletinId := row.dispatch.bulletinId
    sourceUrl := row.bulletin.sourceUrl
    canonicalOrg := row.bulletin.canonicalOrg.getD ""
    now := match row.device.platform with
      | .android => none
      | .apple => some ts
    kind := (kindAndForceRing row.bulletin).1
    forceRing := (kindAndForceRing row.bulletin).2 }

/-- What `_record` makes of a row's answer. -/
def classification (row : Loaded) (result : SendResult) : Classification :=
  classify result row.device.platform

/-- `_record`, of the dispatch row: the attempts are those the row was loaded with. -/
def outcome (row : Loaded) (result : SendResult) (ts : Time) (d : Dispatch) : Dispatch :=
  let attempts := row.dispatch.attempts + 1
  match row.classification result with
  | .sent => { d with status := .sent, attempts, sentAt := some ts, lastError := none }
  | .badToken =>
    { d with
      status := .cancelled
      attempts
      lastError := some ((result.description.filter (· ≠ "")).getD "bad_token") }
  | .transient =>
    let error := "status=" ++ result.status ++ " desc=" ++ result.description.getD "None"
    if attempts ≥ MAX_DISPATCH_ATTEMPTS then
      { d with status := .failed, attempts, lastError := some error }
    else { d with attempts, lastError := some error }

end Loaded

/-- A push handed to a provider, with its answer. -/
structure Handing where
  dispatchId : DispatchId
  deviceId : String
  request : AlertRequest
  result : SendResult
  classification : Classification
  deriving DecidableEq, Repr

/-- The bulletin of a push. -/
def Handing.bulletinId (h : Handing) : BulletinId := h.request.bulletinId

/-- The push of a loaded row. -/
def Loaded.handing (row : Loaded) (result : SendResult) (ts : Time) : Handing where
  dispatchId := row.id
  deviceId := row.dispatch.deviceId
  request := row.request (row.token.getD "") ts
  result
  classification := row.classification result

/-! ### The database -/

/-- Where a tick stands. -/
inductive Phase
  /-- Between two bulletins. -/
  | next
  | resolving (id : BulletinId) (bulletin : Bulletin)
  | filing (id : BulletinId) (deviceIds : List String)
  | filed (id : BulletinId)
  | sending (id : BulletinId) (chunks : List (List Loaded)) (rows : List Loaded)
  /-- Handed over, and not recorded. -/
  | answered (id : BulletinId) (answers : List (Loaded × SendResult))
      (chunks : List (List Loaded)) (rows : List Loaded)
  /-- The fan-out of the bulletin has raised. -/
  | failing (id : BulletinId)
  deriving DecidableEq, Repr

/-- A tick under way, with the bulletins it has yet to begin. -/
structure Tick where
  ts : Time
  todo : List BulletinId
  phase : Phase
  deriving DecidableEq, Repr

/-- The tables, and the tick under way: `_dispatch_job_lock` lets one run at a time. -/
structure Db where
  bulletins : Table BulletinId Bulletin
  nextBulletin : BulletinId
  devices : Table String DeviceRegistration
  rules : List DeviceRule
  dispatches : Table DispatchId Dispatch
  nextDispatch : DispatchId
  filed : Table DispatchId (BulletinId × String)
  tick : Option Tick
  recorded : List Handing
  lost : List Handing

def Db.initial : Db where
  bulletins := Table.empty
  nextBulletin := 1
  devices := Table.empty
  rules := []
  dispatches := Table.empty
  nextDispatch := 1
  filed := Table.empty
  tick := none
  recorded := []
  lost := []

/-- A bulletin a tick may fan out. -/
def Bulletin.due (b : Bulletin) (ts : Time) : Bool :=
  decide (b.processingState = .processed) && b.notifiedAt.isNone && !b.isDeleted &&
    b.fanoutRetryAt.all (· ≤ ts)

namespace Db

/-- The bulletins a tick fans out: the oldest that are due. -/
def dueIds (db : Db) (ts : Time) : List BulletinId :=
  (((db.bulletins.select fun _ b => b.due ts).map Prod.fst).insertionSort (· ≤ ·)).take
    BATCH_LIMIT

/-- The devices of a bulletin: those of the operator's filter, or those its rules match. -/
def resolve (db : Db) (bulletin : Bulletin) : List String :=
  match bulletin.dispatchFilter with
  | some filt => resolveTargetDeviceIds db.devices filt
  | none =>
    matchDeviceIds db.rules db.devices (bulletin.canonicalOrg.getD "") bulletin.contentTags

/-- Whether a device has its row of a bulletin. -/
def hasDispatch (db : Db) (id : BulletinId) (deviceId : String) : Bool :=
  db.dispatches.rows.any fun r => decide (r.2.bulletinId = id) && decide (r.2.deviceId = deviceId)

/-- `INSERT … ON CONFLICT (bulletin_id, device_id) DO NOTHING`. -/
def fileOne (db : Db) (id : BulletinId) (deviceId : String) : Db :=
  if db.hasDispatch id deviceId then db
  else
    { db with
      dispatches := db.dispatches.set db.nextDispatch (Dispatch.fresh id deviceId)
      nextDispatch := db.nextDispatch + 1
      filed := db.filed.set db.nextDispatch (id, deviceId) }

/-- The rows of a fan-out are inserted. -/
def fileAll (db : Db) (id : BulletinId) (deviceIds : List String) : Db :=
  deviceIds.foldl (fun db deviceId => db.fileOne id deviceId) db

/-- The pending rows of a bulletin. -/
def pendingIds (db : Db) (id : BulletinId) : List DispatchId :=
  (db.dispatches.select fun _ d => decide (d.bulletinId = id) && decide (d.status = .pending)).map
    Prod.fst

/-- A row joined with its device and its bulletin. -/
def load (db : Db) (dispatchId : DispatchId) : Option Loaded := do
  let dispatch ← db.dispatches.get dispatchId
  let device ← db.devices.get dispatch.deviceId
  let bulletin ← db.bulletins.get dispatch.bulletinId
  return ⟨dispatchId, dispatch, device, bulletin⟩

variable {db : Db} {id : BulletinId} {i : DispatchId} {deviceId : String}

theorem mem_pendingIds :
    i ∈ db.pendingIds id ↔
      ∃ d, db.dispatches.get i = some d ∧ d.bulletinId = id ∧ d.status = .pending := by
  simp [pendingIds, Table.select, Table.get_eq_some_iff]

theorem pendingIds_nodup (db : Db) (id : BulletinId) : (db.pendingIds id).Nodup :=
  Table.select_keys_nodup ..

theorem hasDispatch_iff :
    db.hasDispatch id deviceId = true ↔
      ∃ i d, db.dispatches.get i = some d ∧ d.bulletinId = id ∧ d.deviceId = deviceId := by
  simp [hasDispatch, Table.get_eq_some_iff]

theorem load_eq_some_iff {row : Loaded} :
    db.load i = some row ↔
      row.id = i ∧ db.dispatches.get i = some row.dispatch ∧
        db.devices.get row.dispatch.deviceId = some row.device ∧
          db.bulletins.get row.dispatch.bulletinId = some row.bulletin := by
  obtain ⟨id', dispatch, device, bulletin⟩ := row
  simp only [load, Option.bind_eq_bind, Option.bind_eq_some_iff, Option.pure_def,
    Option.some.injEq, Loaded.mk.injEq]
  constructor
  · rintro ⟨d, hd, v, hv, b, hb, rfl, rfl, rfl, rfl⟩
    exact ⟨rfl, hd, hv, hb⟩
  · rintro ⟨rfl, hd, hv, hb⟩
    exact ⟨dispatch, hd, device, hv, bulletin, hb, rfl, rfl, rfl, rfl⟩

/-- An insert files one row, or finds the device's. -/
theorem fileOne_cases (db : Db) (id : BulletinId) (deviceId : String) :
    (db.hasDispatch id deviceId = true ∧ db.fileOne id deviceId = db) ∨
      (db.hasDispatch id deviceId = false ∧
        db.fileOne id deviceId =
          { db with
            dispatches := db.dispatches.set db.nextDispatch (Dispatch.fresh id deviceId)
            nextDispatch := db.nextDispatch + 1
            filed := db.filed.set db.nextDispatch (id, deviceId) }) := by
  unfold fileOne
  cases hhas : db.hasDispatch id deviceId with
  | true => exact Or.inl ⟨rfl, if_pos rfl⟩
  | false => exact Or.inr ⟨rfl, if_neg Bool.false_ne_true⟩

/-- `_forget_dead_token`: a token the device does not hold any more stays. -/
def forgetDeadToken (devices : Table String DeviceRegistration) (row : Loaded) :
    Table String DeviceRegistration :=
  devices.modify fun deviceId d =>
    if deviceId = row.dispatch.deviceId then
      match row.device.platform with
      | .android =>
        if d.ptsTokenHex = row.device.ptsTokenHex then { d with ptsTokenHex := "" } else d
      | .apple =>
        if d.deviceTokenHex.isSome ∧ d.deviceTokenHex = row.device.deviceTokenHex then
          { d with deviceTokenHex := none }
        else d
    else d

/-- `_record`. -/
def recordOne (db : Db) (ts : Time) (answer : Loaded × SendResult) : Db :=
  let (row, result) := answer
  { db with
    dispatches := db.dispatches.modify fun id d =>
      if id = row.id then row.outcome result ts d else d
    devices :=
      if row.classification result = .badToken then forgetDeadToken db.devices row else db.devices
    recorded := db.recorded ++ [row.handing result ts] }

/-- The outcomes of a batch are written. -/
def recordAll (db : Db) (ts : Time) (answers : List (Loaded × SendResult)) : Db :=
  answers.foldl (fun db answer => db.recordOne ts answer) db

/-- `_cancel_dispatch`. -/
def cancelDispatch (db : Db) (row : Loaded) : Db :=
  { db with
    dispatches := db.dispatches.modify fun id d =>
      if id = row.id then { d with status := .cancelled, lastError := some row.noToken } else d }

/-- The end of a fan-out: the bulletin is stamped unless a row of it is pending. -/
def close (db : Db) (id : BulletinId) (ts : Time) : Db :=
  { db with
    bulletins :=
      if db.pendingIds id = [] then
        db.bulletins.modify fun k b => if k = id then { b with notifiedAt := some ts } else b
      else db.bulletins
    dispatches := db.dispatches.modify fun _ d =>
      if d.bulletinId = id then { d with fanouts := d.fanouts + 1 } else d }

/-- `_delay_retry`. -/
def delayRetry (db : Db) (id : BulletinId) (ts : Time) : Db :=
  { db with
    bulletins := db.bulletins.modify fun k b =>
      if k = id then { b with fanoutRetryAt := some (ts + FAILED_BULLETIN_RETRY_DELAY) } else b }

end Db

/-- The pushes handed over and not recorded. -/
def Phase.inFlight (ts : Time) : Phase → List Handing
  | .answered _ answers _ _ => answers.map fun a => a.1.handing a.2 ts
  | _ => []

/-- The bulletin a tick fans out. -/
def Phase.bulletin : Phase → Option BulletinId
  | .next => none
  | .resolving id _ => some id
  | .filing id _ => some id
  | .filed id => some id
  | .sending id _ _ => some id
  | .answered id _ _ _ => some id
  | .failing id => some id

/-- A tick with no bulletin in hand is between two. -/
theorem Phase.bulletin_eq_none {phase : Phase} (h : phase.bulletin = none) : phase = .next := by
  cases phase with
  | next => rfl
  | _ => cases h

namespace Db

/-- The pushes handed over and not recorded. -/
def inFlight (db : Db) : List Handing := db.tick.elim [] fun k => k.phase.inFlight k.ts

/-- Every push handed to a provider. -/
def handed (db : Db) : List Handing := db.recorded ++ db.lost ++ db.inFlight

end Db

/-- `itertools.batched`. -/
def batched {α : Type} (n : Nat) (l : List α) : List (List α) :=
  go l.length l
where
  go : Nat → List α → List (List α)
    | 0, _ => []
    | _ + 1, [] => []
    | fuel + 1, a :: l => (a :: l).take n :: go fuel ((a :: l).drop n)

/-- The batches are the list, in its order. -/
theorem flatten_batched {α : Type} {n : Nat} (hn : 0 < n) (l : List α) :
    (batched n l).flatten = l := by
  have hgo : ∀ fuel (l : List α), l.length ≤ fuel → (batched.go n fuel l).flatten = l := by
    intro fuel
    induction fuel with
    | zero =>
      intro l hle
      obtain rfl := List.length_eq_zero_iff.mp (Nat.le_zero.mp hle)
      rfl
    | succ fuel ih =>
      intro l hle
      cases l with
      | nil => rfl
      | cons a l =>
        have hdrop : ((a :: l).drop n).length ≤ fuel := by
          rw [List.length_drop]
          simp only [List.length_cons] at hle ⊢
          omega
        rw [batched.go, List.flatten_cons, ih _ hdrop, List.take_append_drop]
  exact hgo l.length l le_rfl

/-! ### Steps -/

/-- What `send_android_multi` answers: one result for each request, or it raises. -/
inductive Answers
  | each (results : DispatchId → SendResult)
  | raised (description : String)

/-- The result of a row. -/
def Answers.result : Answers → DispatchId → SendResult
  | .each results, id => results id
  | .raised description, _ => ⟨false, "exception", some description⟩

/-- `zip(chunk, results)`. -/
def Answers.of (answers : Answers) (chunk : List Loaded) : List (Loaded × SendResult) :=
  chunk.map fun row => (row, answers.result row.id)

/-- What happens next. -/
inductive Label
  | begin (ts : Time)
  | openBulletin
  | resolveDevices
  | fileRows
  /-- The pending rows are loaded; the query has no order of its own. -/
  | loadRows (order : List DispatchId)
  | sendAndroid (answers : Answers)
  | sendApple (result : SendResult)
  | cancel
  | record
  | close
  /-- Something raises in the fan-out of a bulletin. -/
  | fail
  /-- `_delay_retry`, whose own write may fail. -/
  | delay (written : Bool)
  | finish
  /-- The process stops. -/
  | crash
  | newBulletin (bulletin : Bulletin)
  | editBulletin (id : BulletinId) (bulletin : Bulletin)
  /-- `retention_job`, of one bulletin; its dispatches go with it. -/
  | deleteBulletin (id : BulletinId)
  | writeDevice (deviceId : String) (device : DeviceRegistration)
  | writeRules (rules : List DeviceRule)

/-- Whether a fan-out ends here before it has run to its end. -/
def Label.isFault : Label → Bool
  | .fail => true
  | .crash => true
  | _ => false

/-- A step of the tick under way. -/
def tickStep (db : Db) (k : Tick) : Label → Option Db
  | .openBulletin =>
    match k.phase, k.todo with
    | .next, id :: todo =>
      match db.bulletins.get id with
      | some bulletin =>
        if bulletin.canonicalOrg = none then some { db with tick := some { k with todo } }
        else some { db with tick := some { k with todo, phase := .resolving id bulletin } }
      | none => some { db with tick := some { k with todo } }
    | _, _ => none
  | .resolveDevices =>
    match k.phase with
    | .resolving id bulletin =>
      some { db with tick := some { k with phase := .filing id (db.resolve bulletin) } }
    | _ => none
  | .fileRows =>
    match k.phase with
    | .filing id deviceIds =>
      -- The bulletin is gone: the foreign key refuses its dispatches.
      if (db.bulletins.get id).isNone ∧ deviceIds ≠ [] then none
      else
        some { db.fileAll id deviceIds with tick := some { k with phase := .filed id } }
    | _ => none
  | .loadRows order =>
    match k.phase with
    | .filed id =>
      if order.Perm (db.pendingIds id) then
        let pending := order.filterMap db.load
        some { db with
          tick := some { k with
            phase := .sending id (batched FCM_BATCH (pending.filter Loaded.isAndroid))
              (pending.filter fun row => !row.isAndroid) } }
      else none
    | _ => none
  | .sendAndroid answers =>
    match k.phase with
    | .sending id (chunk :: chunks) rows =>
      some { db with
        tick := some { k with
          phase := .answered id (answers.of chunk) chunks rows } }
    | _ => none
  | .sendApple result =>
    match k.phase with
    | .sending id [] (row :: rows) =>
      if row.token.isSome then
        some { db with tick := some { k with phase := .answered id [(row, result)] [] rows } }
      else none
    | _ => none
  | .cancel =>
    match k.phase with
    | .sending id [] (row :: rows) =>
      if row.token.isSome then none
      else
        some { db.cancelDispatch row with tick := some { k with phase := .sending id [] rows } }
    | _ => none
  | .record =>
    match k.phase with
    | .answered id answers chunks rows =>
      some { db.recordAll k.ts answers with
        tick := some { k with phase := .sending id chunks rows } }
    | _ => none
  | .close =>
    match k.phase with
    | .sending id [] [] => some { db.close id k.ts with tick := some { k with phase := .next } }
    | _ => none
  | .fail =>
    match k.phase.bulletin with
    | some id =>
      some { db with
        lost := db.lost ++ k.phase.inFlight k.ts
        tick := some { k with phase := .failing id } }
    | none =>
      match k.todo with
      | id :: todo => some { db with tick := some { k with todo, phase := .failing id } }
      | [] => none
  | .delay written =>
    match k.phase with
    | .failing id =>
      let db := if written then db.delayRetry id k.ts else db
      some { db with tick := some { k with phase := .next } }
    | _ => none
  | .finish =>
    match k.phase, k.todo with
    | .next, [] => some { db with tick := none }
    | _, _ => none
  | .crash => some { db with lost := db.lost ++ k.phase.inFlight k.ts, tick := none }
  | _ => none

/-- One step: the next state, or none where the step is not enabled. -/
def step (db : Db) : Label → Option Db
  | .begin ts =>
    if db.tick.isNone then some { db with tick := some ⟨ts, db.dueIds ts, .next⟩ } else none
  | .newBulletin bulletin =>
    some { db with
      bulletins := db.bulletins.set db.nextBulletin
        { bulletin with notifiedAt := none, fanoutRetryAt := none }
      nextBulletin := db.nextBulletin + 1 }
  -- Nobody else writes the dispatcher's own two columns.
  | .editBulletin id bulletin =>
    some { db with
      bulletins := db.bulletins.modify fun k b =>
        if k = id then
          { bulletin with notifiedAt := b.notifiedAt, fanoutRetryAt := b.fanoutRetryAt }
        else b }
  | .deleteBulletin id =>
    some { db with
      bulletins := db.bulletins.deleteWhere fun k _ => k = id
      dispatches := db.dispatches.deleteWhere fun _ d => d.bulletinId = id }
  | .writeDevice deviceId device => some { db with devices := db.devices.set deviceId device }
  | .writeRules rules => some { db with rules }
  | l => db.tick.bind fun k => tickStep db k l

/-- What a step can do. -/
inductive Steps (db : Db) : Label → Db → Prop
  | begin {ts : Time} (hidle : db.tick = none) :
      Steps db (.begin ts) { db with tick := some ⟨ts, db.dueIds ts, .next⟩ }
  | pass {k : Tick} {id : BulletinId} {todo : List BulletinId} (htick : db.tick = some k)
      (hphase : k.phase = .next) (htodo : k.todo = id :: todo) :
      Steps db .openBulletin { db with tick := some { k with todo } }
  | openBulletin {k : Tick} {id : BulletinId} {todo : List BulletinId} {bulletin : Bulletin}
      (htick : db.tick = some k) (hphase : k.phase = .next) (htodo : k.todo = id :: todo)
      (hget : db.bulletins.get id = some bulletin) :
      Steps db .openBulletin
        { db with tick := some { k with todo, phase := .resolving id bulletin } }
  | resolveDevices {k : Tick} {id : BulletinId} {bulletin : Bulletin} (htick : db.tick = some k)
      (hphase : k.phase = .resolving id bulletin) :
      Steps db .resolveDevices
        { db with tick := some { k with phase := .filing id (db.resolve bulletin) } }
  | fileRows {k : Tick} {id : BulletinId} {deviceIds : List String} (htick : db.tick = some k)
      (hphase : k.phase = .filing id deviceIds)
      (hthere : deviceIds ≠ [] → (db.bulletins.get id).isSome = true) :
      Steps db .fileRows
        { db.fileAll id deviceIds with tick := some { k with phase := .filed id } }
  | loadRows {k : Tick} {id : BulletinId} {order : List DispatchId} (htick : db.tick = some k)
      (hphase : k.phase = .filed id) (horder : order.Perm (db.pendingIds id)) :
      Steps db (.loadRows order)
        { db with
          tick := some { k with
            phase := .sending id
              (batched FCM_BATCH ((order.filterMap db.load).filter Loaded.isAndroid))
              ((order.filterMap db.load).filter fun row => !row.isAndroid) } }
  | sendAndroid {k : Tick} {id : BulletinId} {chunk : List Loaded} {chunks : List (List Loaded)}
      {rows : List Loaded} {answers : Answers} (htick : db.tick = some k)
      (hphase : k.phase = .sending id (chunk :: chunks) rows) :
      Steps db (.sendAndroid answers)
        { db with
          tick := some { k with
            phase := .answered id (answers.of chunk) chunks rows } }
  | sendApple {k : Tick} {id : BulletinId} {row : Loaded} {rows : List Loaded} {result : SendResult}
      (htick : db.tick = some k) (hphase : k.phase = .sending id [] (row :: rows)) :
      Steps db (.sendApple result)
        { db with tick := some { k with phase := .answered id [(row, result)] [] rows } }
  | cancel {k : Tick} {id : BulletinId} {row : Loaded} {rows : List Loaded}
      (htick : db.tick = some k) (hphase : k.phase = .sending id [] (row :: rows)) :
      Steps db .cancel
        { db.cancelDispatch row with tick := some { k with phase := .sending id [] rows } }
  | record {k : Tick} {id : BulletinId} {answers : List (Loaded × SendResult)}
      {chunks : List (List Loaded)} {rows : List Loaded} (htick : db.tick = some k)
      (hphase : k.phase = .answered id answers chunks rows) :
      Steps db .record
        { db.recordAll k.ts answers with
          tick := some { k with phase := .sending id chunks rows } }
  | close {k : Tick} {id : BulletinId} (htick : db.tick = some k)
      (hphase : k.phase = .sending id [] []) :
      Steps db .close { db.close id k.ts with tick := some { k with phase := .next } }
  | failNext {k : Tick} {id : BulletinId} {todo : List BulletinId} (htick : db.tick = some k)
      (hphase : k.phase = .next) (htodo : k.todo = id :: todo) :
      Steps db .fail { db with tick := some { k with todo, phase := .failing id } }
  | fail {k : Tick} {id : BulletinId} (htick : db.tick = some k)
      (hbulletin : k.phase.bulletin = some id) :
      Steps db .fail
        { db with
          lost := db.lost ++ k.phase.inFlight k.ts
          tick := some { k with phase := .failing id } }
  | delay {k : Tick} {id : BulletinId} (htick : db.tick = some k) (hphase : k.phase = .failing id) :
      Steps db (.delay true) { db.delayRetry id k.ts with tick := some { k with phase := .next } }
  | undelayed {k : Tick} {id : BulletinId} (htick : db.tick = some k)
      (hphase : k.phase = .failing id) :
      Steps db (.delay false) { db with tick := some { k with phase := .next } }
  | finish {k : Tick} (htick : db.tick = some k) (hphase : k.phase = .next) (htodo : k.todo = []) :
      Steps db .finish { db with tick := none }
  | crash {k : Tick} (htick : db.tick = some k) :
      Steps db .crash { db with lost := db.lost ++ k.phase.inFlight k.ts, tick := none }
  | newBulletin {bulletin : Bulletin} :
      Steps db (.newBulletin bulletin)
        { db with
          bulletins := db.bulletins.set db.nextBulletin
            { bulletin with notifiedAt := none, fanoutRetryAt := none }
          nextBulletin := db.nextBulletin + 1 }
  | editBulletin {id : BulletinId} {bulletin : Bulletin} :
      Steps db (.editBulletin id bulletin)
        { db with
          bulletins := db.bulletins.modify fun k b =>
            if k = id then
              { bulletin with notifiedAt := b.notifiedAt, fanoutRetryAt := b.fanoutRetryAt }
            else b }
  | deleteBulletin {id : BulletinId} :
      Steps db (.deleteBulletin id)
        { db with
          bulletins := db.bulletins.deleteWhere fun k _ => k = id
          dispatches := db.dispatches.deleteWhere fun _ d => d.bulletinId = id }
  | writeDevice {deviceId : String} {device : DeviceRegistration} :
      Steps db (.writeDevice deviceId device) { db with devices := db.devices.set deviceId device }
  | writeRules {rules : List DeviceRule} : Steps db (.writeRules rules) { db with rules }

variable {db db' : Db} {l : Label}

/-- A step of the tick under way is one of the listed steps. -/
theorem tickStep_cases {k : Tick} (htick : db.tick = some k) (h : tickStep db k l = some db') :
    Steps db l db' := by
  unfold tickStep at h
  split at h
  -- `openBulletin`
  · split at h
    next id todo hphase htodo =>
      split at h
      next bulletin hget =>
        split at h <;> cases h
        · exact .pass htick hphase htodo
        · exact .openBulletin htick hphase htodo hget
      next => cases h; exact .pass htick hphase htodo
    next => cases h
  -- `resolveDevices`
  · split at h
    next hphase => cases h; exact .resolveDevices htick hphase
    next => cases h
  -- `fileRows`
  · split at h
    next id deviceIds hphase =>
      split at h
      next => cases h
      next hthere =>
        cases h
        refine .fileRows htick hphase fun hne => ?_
        by_contra hnone
        exact hthere ⟨by simpa using hnone, hne⟩
    next => cases h
  -- `loadRows`
  · split at h
    next hphase =>
      split at h
      next horder => cases h; exact .loadRows htick hphase horder
      next => cases h
    next => cases h
  -- `sendAndroid`
  · split at h
    next hphase => cases h; exact .sendAndroid htick hphase
    next => cases h
  -- `sendApple`
  · split at h
    next hphase =>
      split at h
      next => cases h; exact .sendApple htick hphase
      next => cases h
    next => cases h
  -- `cancel`
  · split at h
    next hphase =>
      split at h
      next => cases h
      next => cases h; exact .cancel htick hphase
    next => cases h
  -- `record`
  · split at h
    next hphase => cases h; exact .record htick hphase
    next => cases h
  -- `close`
  · split at h
    next hphase => cases h; exact .close htick hphase
    next => cases h
  -- `fail`
  · split at h
    next id hbulletin => cases h; exact .fail htick hbulletin
    next hnone =>
      split at h
      next id todo htodo => cases h; exact .failNext htick (Phase.bulletin_eq_none hnone) htodo
      next => cases h
  -- `delay`
  · split at h
    next hphase =>
      cases h
      split
      next hwritten =>
        subst hwritten
        exact .delay htick hphase
      next hwritten =>
        obtain rfl := Bool.eq_false_iff.mpr hwritten
        exact .undelayed htick hphase
    next => cases h
  -- `finish`
  · split at h
    next hphase htodo => cases h; exact .finish htick hphase htodo
    next => cases h
  -- `crash`
  · cases h
    exact .crash htick
  · cases h

/-- A step is one of the listed steps. -/
theorem step_cases (h : step db l = some db') : Steps db l db' := by
  unfold step at h
  split at h
  next =>
    split at h
    next hidle => cases h; exact .begin (Option.isNone_iff_eq_none.mp hidle)
    next => cases h
  next => cases h; exact .newBulletin
  next => cases h; exact .editBulletin
  next => cases h; exact .deleteBulletin
  next => cases h; exact .writeDevice
  next => cases h; exact .writeRules
  next =>
    obtain ⟨k, htick, hstep⟩ := Option.bind_eq_some_iff.mp h
    exact tickStep_cases htick hstep

end TigerDuck.Bulletins.DeviceDispatch
