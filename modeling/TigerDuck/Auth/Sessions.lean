import Mathlib.Data.List.Sort
import TigerDuck.Relational.Links
import TigerDuck.Relational.Table

/-!
# Login sessions

The rows of `auth_sessions` and what `server/auth/service.py` writes to them: the rotation of a
refresh token (`_rotate`), the rotation of a token that was rotated before (`_rotate_again`),
the contest of the sessions that leaves (`_linked_ids`, `settle_contest`), and the sign-outs.
`server/auth/retention.py` prunes them.

A session stands for its token pair: its refresh token is found by its hash, its access token
names its id. Each function here runs on rows its transaction has locked; `Auth.Requests` has
the locks.
-/

namespace TigerDuck.Auth

open Relational

/-- A `users.id`. -/
abbrev UserId := Nat

/-- An `auth_sessions.id`. -/
abbrev SessionId := Nat

/-- Microseconds. -/
abbrev Time := Nat

/-- A row of `user_devices`, by its unique key. -/
structure DeviceId where
  userId : UserId
  clientDeviceId : Nat
  deriving DecidableEq, Repr

inductive SessionRevokedReason
  | logout
  | rotated
  | superseded
  | reuseDetected
  | expired
  | adminRevoked
  | credentialRevoked
  deriving DecidableEq, Repr

/-- A row of `auth_sessions`. -/
structure AuthSession where
  userId : UserId
  deviceId : Option DeviceId
  expiresAt : Time
  revokedAt : Option Time
  revokedReason : Option SessionRevokedReason
  /-- On a revoked row the session that replaced it, on a live row its rival. -/
  replacedBySessionId : Option SessionId
  reuseDetectedAt : Option Time
  lastUsedAt : Time
  firstUsedAt : Option Time
  rerotatedAt : Option Time
  deriving DecidableEq, Repr

structure Settings where
  authRefreshTokenTtl : Time
  authRefreshReuseGrace : Time

/-- The table and its sequence. -/
structure Db where
  sessions : Table SessionId AuthSession
  nextSession : SessionId

/-- Why a request is refused. -/
inductive Detail
  | invalidRefreshToken
  | sessionRevoked
  | refreshTokenExpired
  /-- The row was deleted under the request, which fails with a 500. -/
  | serverError
  deriving DecidableEq, Repr

/-- `_REPLACED_REASONS`. -/
def REPLACED_REASONS : List SessionRevokedReason := [.rotated, .superseded]

/-- `_UNUSED_SESSIONS_KEPT`. -/
def UNUSED_SESSIONS_KEPT : Nat := 16

namespace AuthSession

/-- A row as it is inserted. -/
def insert (userId : UserId) (deviceId : Option DeviceId) (expiresAt now : Time) : AuthSession where
  userId := userId
  deviceId := deviceId
  expiresAt := expiresAt
  revokedAt := none
  revokedReason := none
  replacedBySessionId := none
  reuseDetectedAt := none
  lastUsedAt := now
  firstUsedAt := none
  rerotatedAt := none

/-- The token is presented again after its session was used or ended. -/
def markReuse (row : AuthSession) (now : Time) : AuthSession :=
  { row with reuseDetectedAt := some now }

def link (row : AuthSession) (next : Option SessionId) : AuthSession :=
  { row with replacedBySessionId := next }

/-- Its first use, unless it has one. -/
def use (row : AuthSession) (now : Time) : AuthSession :=
  { row with firstUsedAt := row.firstUsedAt.or (some now) }

def revoke (row : AuthSession) (reason : SessionRevokedReason) (now : Time) : AuthSession :=
  { row with revokedAt := some now, revokedReason := some reason }

/-- `_rotate` on the row it replaces. -/
def replace (row : AuthSession) (newId : SessionId) (now : Time) : AuthSession :=
  { ((row.revoke .rotated now).link (some newId)).use now with lastUsedAt := now }

end AuthSession

namespace Db

def empty : Db := ⟨Table.empty, 1⟩

/-- Whether the row is there and not revoked. -/
def live (db : Db) (id : SessionId) : Bool :=
  (db.sessions.get id).any fun row => row.revokedAt.isNone

/-- `UPDATE … WHERE id = …`. -/
def updateSession (db : Db) (id : SessionId) (f : AuthSession → AuthSession) : Db :=
  { db with sessions := db.sessions.modify fun k row => if k = id then f row else row }

/-- `INSERT`, under the next id of the sequence. -/
def insertSession (db : Db) (row : AuthSession) : Db where
  sessions := db.sessions.set db.nextSession row
  nextSession := db.nextSession + 1

/-! ### The sessions a contest is about -/

/-- The session a row points at. -/
def pointee (db : Db) (row : AuthSession) : Option SessionId :=
  row.replacedBySessionId.filter fun id => (db.sessions.get id).isSome

/-- The rival of a live session. -/
def rival (db : Db) (id : SessionId) : Option SessionId :=
  (db.sessions.get id).bind fun row => if row.revokedAt = none then db.pointee row else none

/-- `_linked_ids`: the session, the one it points at, and on from there each live session's
rival. -/
def linkedIds (db : Db) (id : SessionId) : List SessionId :=
  match db.sessions.get id with
  | none => []
  | some row =>
    match db.pointee row with
    | none => [id]
    | some next => (follow db.rival db.sessions.keys.length next []).insert id

/-- The row of `_supersede`: a used one is skipped, it is in no ring. -/
def supersededRow (ids : List SessionId) (winner : SessionId) (now : Time) (id : SessionId)
    (row : AuthSession) : AuthSession :=
  if ids.contains id = true ∧ row.revokedAt = none ∧ row.firstUsedAt = none then
    (row.revoke .superseded now).link (some winner)
  else row

/-- `_supersede`. -/
def supersede (db : Db) (ids : List SessionId) (winner : SessionId) (now : Time) : Db :=
  { db with sessions := db.sessions.modify (supersededRow ids winner now) }

/-- `settle_contest`. -/
def settleContest (db : Db) (winner : SessionId) (now : Time) : Db :=
  let rivals := (db.linkedIds winner).filter (· ≠ winner)
  (db.updateSession winner (·.link none)).supersede rivals winner now

/-! ### Rotation -/

/-- `_rotate`: the new session's tokens are the answer. -/
def rotate (cfg : Settings) (db : Db) (oldId : SessionId) (old : AuthSession) (now : Time) :
    Db × SessionId :=
  let settled :=
    if old.revokedAt = none ∧ old.replacedBySessionId ≠ none then db.settleContest oldId now
    else db
  let new := AuthSession.insert old.userId old.deviceId (now + cfg.authRefreshTokenTtl) now
  ((settled.insertSession new).updateSession oldId (·.replace db.nextSession now),
    db.nextSession)

/-- `_may_rotate_again`, for the row of `replaced_by_session_id`. -/
def mayRotateAgain (token : AuthSession) (successor : Option AuthSession) : Bool :=
  decide (token.revokedReason = some .rotated) &&
    successor.any fun row => decide (row.revokedAt = none ∧ row.firstUsedAt = none)

/-- The ids in order. -/
def sorted (ids : List SessionId) : List SessionId := ids.insertionSort (· ≤ ·)

/-- The new session joins the ring after the newest, and the oldest beyond those kept are
superseded. -/
def joinRing (db : Db) (newId successorId : SessionId) (successor : AuthSession) (now : Time) :
    Db :=
  let linked := (db.updateSession newId
    (·.link (some (successor.replacedBySessionId.getD successorId)))).updateSession successorId
      (·.link (some newId))
  -- In id order from the oldest: cutting the oldest leaves the ring closed at the newest.
  let ring := sorted (linked.linkedIds newId)
  let dropped := ring.length - UNUSED_SESSIONS_KEPT
  if dropped = 0 then linked
  else
    (linked.updateSession newId (·.link ring[dropped]?)).supersede (ring.take dropped) newId now

/-- `_rotate_again`. -/
def rotateAgain (cfg : Settings) (db : Db) (tokenId : SessionId) (token : AuthSession)
    (successorId : SessionId) (successor : AuthSession) (now : Time) : Db × SessionId :=
  let (rotated, newId) := db.rotate cfg tokenId token now
  ((rotated.joinRing newId successorId successor now).updateSession tokenId
    ({ · with rerotatedAt := some now }), newId)

/-- `_handle_revoked_reuse`, of a row revoked at `revokedAt`. -/
def handleRevokedReuse (cfg : Settings) (db : Db) (id : SessionId) (row : AuthSession)
    (revokedAt now : Time) : Db × Except Detail SessionId :=
  if row.revokedReason.all (!REPLACED_REASONS.contains ·) then (db, .error .sessionRevoked)
  else
    let refused :=
      if now < revokedAt + cfg.authRefreshReuseGrace then (db, .error .sessionRevoked)
      else (db.updateSession id (·.markReuse now), .error .sessionRevoked)
    match row.replacedBySessionId.bind fun next => (db.sessions.get next).map (next, ·) with
    | none => refused
    | some (successorId, successor) =>
      if mayRotateAgain row (some successor) then
        if row.expiresAt ≤ now then (db, .error .refreshTokenExpired)
        else
          let (db, newId) := db.rotateAgain cfg id row successorId successor now
          (db, .ok newId)
      else refused

/-- `refresh` once it has locked the contest; `active` is `user_is_active`. -/
def refresh (cfg : Settings) (db : Db) (id : SessionId) (active : Bool) (now : Time) :
    Db × Except Detail SessionId :=
  match db.sessions.get id with
  | none => (db, .error .invalidRefreshToken)
  | some row =>
    if active = false then (db, .error .sessionRevoked)
    else
      match row.revokedAt with
      | some revokedAt => db.handleRevokedReuse cfg id row revokedAt now
      | none =>
        if row.expiresAt ≤ now then
          -- A session in a ring stays live: revoked, it would end the walk from its rivals.
          (if row.replacedBySessionId = none then db.updateSession id (·.revoke .expired now)
            else db, .error .refreshTokenExpired)
        else
          let (db, newId) := db.rotate cfg id row now
          (db, .ok newId)

/-! ### First use and sign-out -/

/-- `_record_first_use` on the row it has locked and read again, with its rivals if it has
any. -/
def recordFirstUse (db : Db) (id : SessionId) (row : AuthSession) (now : Time) :
    Db × Except Detail Unit :=
  if row.revokedAt ≠ none then (db, .error .sessionRevoked)
  else
    let settled := if row.replacedBySessionId ≠ none then db.settleContest id now else db
    (settled.updateSession id (·.use now), .ok ())

/-- The write of `logout`. -/
def logout (db : Db) (id : SessionId) (now : Time) : Db :=
  db.updateSession id fun row => { row.revoke .logout now with lastUsedAt := now }

/-- The revocations of `delete_device`. -/
def revokeAll (db : Db) (ids : List SessionId) (now : Time) : Db :=
  { db with
    sessions := db.sessions.modify fun id row =>
      if ids.contains id then row.revoke .adminRevoked now else row }

/-- The live sessions of a device, in id order, but for some. -/
def liveOf (db : Db) (device : DeviceId) (but : List SessionId) : List SessionId :=
  sorted ((db.sessions.select fun id row =>
    decide (row.deviceId = some device) && row.revokedAt.isNone && !but.contains id).map Prod.fst)

/-- The new session of `login`. -/
def login (cfg : Settings) (db : Db) (device : DeviceId) (now : Time) : Db :=
  db.insertSession
    (AuthSession.insert device.userId (some device) (now + cfg.authRefreshTokenTtl) now)

/-- The device rows of other students on the same physical device are deleted, which leaves
their sessions without a device. -/
def forgetDevices (db : Db) (devices : List DeviceId) : Db :=
  { db with
    sessions := db.sessions.modify fun _ row =>
      { row with deviceId := row.deviceId.filter fun d => !devices.contains d } }

/-- Whether `prune_expired_sessions` may delete the row: a live row that points at another is in
a ring. -/
def prunable (cutoff : Time) (row : AuthSession) : Bool :=
  decide (row.expiresAt < cutoff) && (row.revokedAt.isSome || row.replacedBySessionId.isNone)

/-- The rows a batch of `prune_expired_sessions` deletes, of those it looks at. -/
def pruned (ids : List SessionId) (cutoff : Time) (id : SessionId) (row : AuthSession) : Bool :=
  ids.contains id && prunable cutoff row

/-- A batch of `prune_expired_sessions`; rows that point at a deleted one point nowhere. -/
def pruneExpired (db : Db) (ids : List SessionId) (cutoff : Time) : Db :=
  let gone := (db.sessions.select (pruned ids cutoff)).map Prod.fst
  { db with
    sessions := (db.sessions.deleteWhere (pruned ids cutoff)).modify fun _ row =>
      row.link (row.replacedBySessionId.filter fun next => !gone.contains next) }

end Db

end TigerDuck.Auth
