import Mathlib.Logic.Function.Basic
import TigerDuck.Relational.Table
import TigerDuck.Transition.Run

/-!
# Push tokens

The writers of `device_push_tokens`: `register_device`, which `/v3` and `/v4` share,
`register_live_activity`, the send that finds a token unregistered, `delete_device` and the
retirement of silent devices.

A device row is named by what is unique of it, its user and the client's id; the rows are
soft-deleted. A request that raises changes nothing, and is no step. Not modelled: the other
columns of a device, its anonymous registration, and the end job of a Live Activity.
-/

namespace TigerDuck.Devices

open Relational

abbrev TokenId := Nat

/-- The device row of a user under the client's own id. -/
structure DeviceId where
  userId : Nat
  clientDeviceId : String
  deriving DecidableEq, Repr

inductive Provider
  | apns
  | fcm
  deriving DecidableEq, Repr

inductive PushTokenKind
  | standard
  | pushToStart
  | liveActivityUpdate
  deriving DecidableEq, Repr

inductive PushTokenStatus
  | active
  | invalidated
  | expired
  deriving DecidableEq, Repr

inductive Environment
  | development
  | production
  deriving DecidableEq, Repr

/-- A row of `user_devices`. -/
structure UserDevice where
  deleted : Bool
  deriving DecidableEq, Repr

/-- What `ux_push_token_active` and the routes know a token by, its scope apart. -/
structure TokenKey where
  provider : Provider
  tokenKind : PushTokenKind
  tokenHash : String
  deriving DecidableEq, Repr

/-- A row of `device_push_tokens`. -/
structure DevicePushToken where
  deviceId : DeviceId
  key : TokenKey
  tokenValue : String
  bundleId : Option String
  topic : Option String
  environment : Option Environment
  scopeKey : String
  status : PushTokenStatus
  deriving DecidableEq, Repr

structure PushTokenIn where
  provider : Provider
  tokenKind : PushTokenKind
  tokenValue : String
  bundleId : Option String
  topic : Option String
  environment : Option Environment
  scopeKey : String

/-- Whether the text has a length the field takes. -/
def fits (least most : Nat) (text : String) : Bool := least ≤ text.length && text.length ≤ most

/-- The lengths of the fields, and `live_activity_tokens_are_apns`. -/
def PushTokenIn.valid (token : PushTokenIn) : Bool :=
  fits 1 512 token.tokenValue && token.bundleId.all (fits 0 128) && token.topic.all (fits 0 160) &&
    fits 0 160 token.scopeKey && !(token.provider = .fcm && token.tokenKind ≠ .standard)

structure LiveActivityRegister where
  activityId : String
  sourceId : String
  updateTokenHex : String
  /-- The `scenario` of the snapshot. -/
  scenario : Option String
  bundleId : String
  environment : Option Environment

/-- The lengths of the fields, and the id the route composes. -/
def LiveActivityRegister.valid (payload : LiveActivityRegister) : Bool :=
  fits 1 160 payload.activityId && fits 1 128 payload.sourceId &&
    fits 1 512 payload.updateTokenHex && fits 0 128 payload.bundleId &&
    payload.scenario.all fun scenario => payload.activityId = s!"{scenario}::{payload.sourceId}"

structure Db where
  devices : Table DeviceId UserDevice
  tokens : Table TokenId DevicePushToken
  nextToken : TokenId

def Db.initial : Db := ⟨Table.empty, Table.empty, 0⟩

/-- `UPDATE device_push_tokens SET status = 'invalidated' WHERE …` -/
def Db.invalidate (db : Db) (p : TokenId → DevicePushToken → Bool) : Db :=
  { db with tokens := db.tokens.modify fun id t =>
      if t.status = .active && p id t then { t with status := .invalidated } else t }

/-- The active row under the unique index's key. -/
def Db.activeToken (db : Db) (key : TokenKey) (scopeKey : String) :
    Option (TokenId × DevicePushToken) :=
  (db.tokens.select fun _ t => t.key = key ∧ t.scopeKey = scopeKey ∧ t.status = .active).head?

def Db.insertToken (db : Db) (t : DevicePushToken) : Db :=
  { db with tokens := db.tokens.set db.nextToken t, nextToken := db.nextToken + 1 }

def Db.updateToken (db : Db) (id : TokenId) (f : DevicePushToken → DevicePushToken) : Db :=
  { db with tokens := db.tokens.modify fun id' t => if id' = id then f t else t }

/-- Whether the two tokens serve one purpose: one per activity for an update token, one per
device for the others. -/
def DevicePushToken.samePurpose (t t' : DevicePushToken) : Bool :=
  t.deviceId = t'.deviceId && t.key.provider = t'.key.provider &&
    t.key.tokenKind = t'.key.tokenKind &&
      (t'.key.tokenKind ≠ .liveActivityUpdate || t.scopeKey = t'.scopeKey)

/-- `_retire_superseded_tokens` -/
def Db.retireSupersededTokens (db : Db) (id : TokenId) (token : DevicePushToken) : Db :=
  db.invalidate fun id' t => id' ≠ id && t.samePurpose token

/-- `_upsert_push_token` -/
def Db.upsertPushToken (sha256 : String → String) (db : Db) (device : DeviceId)
    (token : PushTokenIn) : Db :=
  let key : TokenKey := ⟨token.provider, token.tokenKind, sha256 token.tokenValue⟩
  match db.activeToken key token.scopeKey with
  | none =>
    let row : DevicePushToken :=
      { deviceId := device
        key := key
        tokenValue := token.tokenValue
        bundleId := token.bundleId
        topic := token.topic
        environment := token.environment
        scopeKey := token.scopeKey
        status := .active }
    (db.insertToken row).retireSupersededTokens db.nextToken row
  | some (id, existing) =>
    let moved (t : DevicePushToken) : DevicePushToken :=
      { t with
        deviceId := device
        bundleId := token.bundleId
        topic := token.topic
        environment := token.environment }
    (db.updateToken id moved).retireSupersededTokens id (moved existing)

def Db.registerDevice (sha256 : String → String) (db : Db) (device : DeviceId)
    (token : Option PushTokenIn) : Db :=
  let db := { db with devices := db.devices.set device ⟨false⟩ }
  match token with
  | some token => db.upsertPushToken sha256 device token
  | none => db

/-- Whether the route invalidates the device's token: another one of the activity. -/
def LiveActivityRegister.retires (payload : LiveActivityRegister) (device : DeviceId)
    (tokenHash : String) (t : DevicePushToken) : Bool :=
  t.deviceId = device ∧ t.key.tokenKind = .liveActivityUpdate ∧ t.scopeKey = payload.activityId ∧
    t.key.tokenHash ≠ tokenHash

/-- The token writes of `register_live_activity`. -/
def Db.registerLiveActivity (sha256 : String → String) (db : Db) (device : DeviceId)
    (payload : LiveActivityRegister) : Db :=
  let key : TokenKey := ⟨.apns, .liveActivityUpdate, sha256 payload.updateTokenHex⟩
  let db := db.invalidate fun _ t => payload.retires device key.tokenHash t
  match db.activeToken key payload.activityId with
  | none => db.insertToken
      { deviceId := device
        key := key
        tokenValue := payload.updateTokenHex
        bundleId := some payload.bundleId
        topic := some (payload.bundleId ++ ".push-type.liveactivity")
        environment := payload.environment
        scopeKey := payload.activityId
        status := .active }
  | some (id, _) => db.updateToken id fun t =>
      { t with deviceId := device, tokenValue := payload.updateTokenHex }

inductive Label
  | registerDevice (device : DeviceId) (token : Option PushTokenIn)
  | registerLiveActivity (device : DeviceId) (payload : LiveActivityRegister)
  /-- `_send_one`, when the push service says the token is unregistered. -/
  | unregistered (id : TokenId)
  | deleteDevice (device : DeviceId)
  /-- The retirement job, with the devices it finds silent. -/
  | retire (silent : List DeviceId)

/-- One request, or one transaction of a job. -/
def step (sha256 : String → String) (db : Db) : Label → Option Db
  | .registerDevice device token =>
    if token.all (·.valid) then some (db.registerDevice sha256 device token) else none
  | .registerLiveActivity device payload =>
    if payload.valid && (db.devices.get device).isSome then
      some (db.registerLiveActivity sha256 device payload)
    else none
  | .unregistered id => some (db.invalidate fun id' _ => id' = id)
  | .deleteDevice device =>
    if (db.devices.get device).any fun d => !d.deleted then
      some ({ db with devices := db.devices.set device ⟨true⟩ }.invalidate fun _ t =>
        t.deviceId = device)
    else none
  | .retire silent =>
    let retired := silent.filter fun d => (db.devices.get d).any fun d => !d.deleted
    let devices := db.devices.modify fun id d => if id ∈ retired then ⟨true⟩ else d
    some ({ db with devices }.invalidate fun _ t => t.deviceId ∈ retired)

end TigerDuck.Devices
