import TigerDuck.Auth.Sessions
import TigerDuck.Transition.RowLock
import TigerDuck.Transition.Run

/-!
# Requests over the sessions

The transactions that read and write `auth_sessions`, statement by statement, as a machine over
the committed rows and the row locks: the refresh of `server/auth/service.py`, the first use of
an access token (`server/auth/dependencies.py`), the logout behind it, the removal of a device
(`server/routes/user_devices.py`), the sign-in and the prune.

A statement reads what is committed when it begins (READ COMMITTED). `FOR UPDATE` and `UPDATE`
wait for a row that another transaction holds, so their step is not enabled, and then read the
row again. A transaction's writes become visible when it ends; the rows it wrote it has locked
until then, so what it writes is carried by the step that commits it.
-/

namespace TigerDuck.Auth

open Transition

/-- A transaction's connection. -/
abbrev TxnId := Nat

/-- `lock_contest`: the rows it has locked, and those its statement still has to lock. -/
structure Contest where
  id : SessionId
  locked : List SessionId
  todo : List SessionId
  deriving DecidableEq, Repr

/-- How far the revocation loop of `delete_device` has come. Its `SELECT … FOR UPDATE` lists the
live sessions when it begins, while the sequence stands at `since`, and locks them in id order;
a row that is not live any more when its lock is free is passed over. -/
inductive Pass
  | between
  | locking (since : SessionId) (acquired todo skipped : List SessionId)
  | done
  deriving DecidableEq, Repr

/-- A transaction under way. -/
inductive Txn
  /-- `refresh`, of a token whose row was found. -/
  | refresh (contest : Contest)
  /-- `_record_first_use`, of a session read without a rival; `logout` if that is the request. -/
  | lockSelf (id : SessionId) (logout : Bool)
  /-- `_claim_contest`. -/
  | claimContest (contest : Contest) (logout : Bool)
  /-- `logout`, which has seen its session live. -/
  | logout (id : SessionId)
  /-- `delete_device`, with the sessions its updates have revoked. -/
  | removal (device : DeviceId) (now : Time) (revoked : List SessionId) (pass : Pass)
  deriving DecidableEq, Repr

/-- What has happened. No request reads it. -/
structure History where
  /-- The session a sign-in made that this one's rotations go back to. -/
  root : SessionId → SessionId
  /-- The session whose token was rotated into this one. -/
  rotatedFrom : SessionId → Option SessionId
  used : SessionId → Bool
  superseded : SessionId → Bool
  /-- Sessions whose logout has committed. -/
  loggedOut : SessionId → Bool
  /-- Devices whose removal has committed, with no sign-in since. -/
  removed : DeviceId → Bool

structure State where
  db : Db
  rows : RowLocks SessionId TxnId
  /-- `lock_accounts`. -/
  accounts : RowLocks UserId TxnId
  txns : TxnId → Option Txn
  history : History

/-- How a request is answered. -/
inductive Answer
  | refreshed (result : Except Detail SessionId)
  | accepted
  | refused (detail : Detail)

def History.empty : History where
  root := id
  rotatedFrom := fun _ => none
  used := fun _ => false
  superseded := fun _ => false
  loggedOut := fun _ => false
  removed := fun _ => false

/-- What the rows show to have happened. -/
def History.observe (h : History) (db : Db) : History :=
  { h with
    used := fun id => h.used id || (db.sessions.get id).any (·.firstUsedAt.isSome)
    superseded := fun id =>
      h.superseded id || (db.sessions.get id).any fun row =>
        decide (row.revokedReason = some .superseded) }

/-- A rotation into a new session. -/
def History.rotate (h : History) (token newId : SessionId) : History :=
  { h with
    root := Function.update h.root newId (h.root token)
    rotatedFrom := Function.update h.rotatedFrom newId (some token) }

/-- A sign-in. -/
def History.login (h : History) (newId : SessionId) (device : DeviceId) : History :=
  { h with
    root := Function.update h.root newId newId
    removed := Function.update h.removed device false }

namespace State

def initial : State := ⟨Db.empty, RowLocks.free, RowLocks.free, fun _ => none, History.empty⟩

def setTxn (s : State) (t : TxnId) (txn : Txn) : State :=
  { s with txns := Function.update s.txns t (some txn) }

def lockRow (s : State) (t : TxnId) (id : SessionId) : State :=
  { s with rows := s.rows.lock t id }

/-- The transaction's writes. -/
def write (s : State) (db : Db) : State := { s with db, history := s.history.observe db }

/-- The end of a transaction, committed or not, gives its locks back. -/
def finish (s : State) (t : TxnId) : State :=
  { s with
    rows := s.rows.release t
    accounts := s.accounts.release t
    txns := Function.update s.txns t none }

/-- The session is accepted, and its request goes on to the handler: the logout, or one that
does not matter here. -/
def handOn (s : State) (t : TxnId) (id : SessionId) (logout : Bool) : State × Option Answer :=
  if logout then ((s.finish t).setTxn t (.logout id), none) else (s.finish t, some .accepted)

/-- No transaction holds the row. -/
def unlocked (s : State) (id : SessionId) : Bool := (s.rows id).isNone

/-- Whether a transaction that holds no rows but its own can lock the row. -/
def available (s : State) (t : TxnId) (id : SessionId) : Bool := decide (s.rows.Available t id)

end State

/-! ### Locking a contest -/

/-- The contest a transaction locks. -/
def Txn.contest? : Txn → Option Contest
  | .refresh contest => some contest
  | .claimContest contest _ => some contest
  | _ => none

def Txn.withContest (contest : Contest) : Txn → Txn
  | .refresh _ => .refresh contest
  | .claimContest _ signsOut => .claimContest contest signsOut
  | txn => txn

/-- What `_linked_ids` finds beyond the rows locked so far. -/
def Contest.missing (c : Contest) (db : Db) : List SessionId :=
  (Db.sorted (db.linkedIds c.id)).filter fun id => !c.locked.contains id

/-- Whether the loop of `lock_contest` is over. -/
def Contest.complete (c : Contest) (db : Db) : Bool := c.todo.isEmpty && (c.missing db).isEmpty

/-- The next `SELECT … FOR UPDATE` of the loop begins. -/
def Contest.lockMissing (c : Contest) (db : Db) : Contest :=
  { c with locked := c.locked ++ c.missing db, todo := c.missing db }

/-! ### The steps -/

/-- One statement of some transaction, or a transaction that is one statement. -/
inductive Label
  | login (device : DeviceId) (replaced : List DeviceId) (now : Time)
  | refresh (t : TxnId) (id : SessionId)
  /-- `require_user` reads the row; `active` is `user_is_active`. -/
  | request (t : TxnId) (id : SessionId) (logout active : Bool)
  | lockMissing (t : TxnId)
  | lockNext (t : TxnId)
  | lockSelf (t : TxnId) (now : Time)
  | finishRefresh (t : TxnId) (active : Bool) (now : Time)
  | finishClaim (t : TxnId) (now : Time)
  | logout (t : TxnId) (now : Time)
  | startRemoval (t : TxnId) (device : DeviceId) (now : Time)
  | removal (t : TxnId)
  | commitRemoval (t : TxnId)
  | prune (ids : List SessionId) (cutoff : Time)
  /-- The transaction fails: a timeout, a deadlock, a lost connection. -/
  | abort (t : TxnId)

namespace State

/-- `login` commits. It holds the accounts of its student and of the other students on the same
physical device, whose rows of that device it deletes. -/
def login (cfg : Settings) (s : State) (device : DeviceId) (replaced : List DeviceId)
    (now : Time) : Option State :=
  let held := (device :: replaced).any fun d => (s.accounts d.userId).isSome
  let others := replaced.all fun d =>
    decide (d.clientDeviceId = device.clientDeviceId) && decide (d.userId ≠ device.userId)
  let free := (s.db.sessions.select fun _ row => row.deviceId.any replaced.contains).all fun r =>
    s.unlocked r.1
  if held = false ∧ others = true ∧ free = true then
    let begun := { s with history := s.history.login s.db.nextSession device }
    some (begun.write ((s.db.forgetDevices replaced).login cfg device now))
  else none

/-- `refresh` looks its token up. -/
def startRefresh (s : State) (t : TxnId) (id : SessionId) : State × Option Answer :=
  match s.db.sessions.get id with
  | none => (s, some (.refreshed (.error .invalidRefreshToken)))
  | some _ => (s.setTxn t (.refresh ⟨id, [], []⟩), none)

/-- `require_user` reads its session. -/
def startRequest (s : State) (t : TxnId) (id : SessionId) (logout active : Bool) :
    State × Option Answer :=
  match s.db.sessions.get id with
  | none => (s, some (.refused .sessionRevoked))
  | some row =>
    if row.revokedAt ≠ none ∨ active = false then (s, some (.refused .sessionRevoked))
    else if row.firstUsedAt ≠ none then
      -- The handler works on the object read here.
      if logout then (s.setTxn t (.logout id), none) else (s, some .accepted)
    else if row.replacedBySessionId = none then (s.setTxn t (.lockSelf id logout), none)
    else (s.setTxn t (.claimContest ⟨id, [], []⟩ logout), none)

/-- `lock_contest` asks for the linked sessions again. -/
def lockMissing (s : State) (t : TxnId) (txn : Txn) (c : Contest) : Option State :=
  if c.todo = [] ∧ c.missing s.db ≠ [] then
    some (s.setTxn t (txn.withContest (c.lockMissing s.db)))
  else none

/-- `lock_contest` locks the next row; one deleted meanwhile is not there to lock. -/
def lockNext (s : State) (t : TxnId) (txn : Txn) (c : Contest) : Option State :=
  match c.todo with
  | [] => none
  | id :: rest =>
    let next := s.setTxn t (txn.withContest { c with todo := rest })
    if (s.db.sessions.get id).isNone then some next
    else if s.available t id then some (next.lockRow t id)
    else none

/-- `_record_first_use` locks a session it read without a rival, and reads it again. -/
def lockSelf (s : State) (t : TxnId) (id : SessionId) (logout : Bool) (now : Time) :
    Option (State × Option Answer) :=
  match s.db.sessions.get id with
  | none => some (s.handOn t id logout)
  | some row =>
    if s.available t id = false then none
    else if row.revokedAt = none ∧ row.replacedBySessionId ≠ none then
      -- A refresh has linked it to a rival meanwhile.
      some ((s.lockRow t id).setTxn t (.claimContest ⟨id, [], []⟩ logout), none)
    else
      match s.db.recordFirstUse id row now with
      | (_, .error detail) => some (s.finish t, some (.refused detail))
      | (db, .ok ()) => some ((s.write db).handOn t id logout)

/-- `refresh` decides and commits. -/
def finishRefresh (cfg : Settings) (s : State) (t : TxnId) (c : Contest) (active : Bool)
    (now : Time) : Option (State × Option Answer) :=
  if c.complete s.db then
    let (db, result) := s.db.refresh cfg c.id active now
    let rotated :=
      match result with
      | .ok newId => { s with history := s.history.rotate c.id newId }
      | .error _ => s
    some ((rotated.write db).finish t, some (.refreshed result))
  else none

/-- `_claim_contest` settles the contest, and the first use is recorded. -/
def finishClaim (s : State) (t : TxnId) (c : Contest) (logout : Bool) (now : Time) :
    Option (State × Option Answer) :=
  if c.complete s.db then
    match s.db.sessions.get c.id with
    | none => some (s.finish t, some (.refused .serverError))
    | some row =>
      match s.db.recordFirstUse c.id row now with
      | (_, .error detail) => some (s.finish t, some (.refused detail))
      | (db, .ok ()) => some ((s.write db).handOn t c.id logout)
  else none

/-- `logout` writes the row it saw live: it does not read it again. -/
def logout (s : State) (t : TxnId) (id : SessionId) (now : Time) : Option (State × Option Answer) :=
  match s.db.sessions.get id with
  | none => some (s.finish t, some (.refused .serverError))
  | some _ =>
    if s.available t id then
      let out := s.write (s.db.logout id now)
      let history := { out.history with loggedOut := Function.update out.history.loggedOut id true }
      some ({ out with history }.finish t, some .accepted)
    else none

/-- `delete_device` locks its student's account. -/
def startRemoval (s : State) (t : TxnId) (device : DeviceId) (now : Time) : Option State :=
  if (s.accounts device.userId).isNone then
    some { s with
      accounts := s.accounts.lock t device.userId
      txns := Function.update s.txns t (some (.removal device now [] .between)) }
  else none

/-- The revocation loop goes on. -/
def removal (s : State) (t : TxnId) (device : DeviceId) (now : Time) (revoked : List SessionId) :
    Pass → Option State
  | .between =>
    some (s.setTxn t (.removal device now revoked
      (.locking s.db.nextSession [] (s.db.liveOf device revoked) [])))
  | .locking since acquired (id :: todo) skipped =>
    match s.db.sessions.get id with
    | none =>
      some (s.setTxn t (.removal device now revoked
        (.locking since acquired todo (skipped ++ [id]))))
    | some row =>
      if s.available t id = false then none
      else if row.revokedAt = none ∧ row.deviceId = some device then
        some ((s.lockRow t id).setTxn t (.removal device now revoked
          (.locking since (acquired ++ [id]) todo skipped)))
      else
        some (s.setTxn t (.removal device now revoked
          (.locking since acquired todo (skipped ++ [id]))))
  | .locking _ (id :: acquired) [] _ =>
    some (s.setTxn t (.removal device now (revoked ++ id :: acquired) .between))
  | .locking _ [] [] _ => some (s.setTxn t (.removal device now revoked .done))
  | .done => none

/-- `delete_device` commits. -/
def commitRemoval (s : State) (t : TxnId) (device : DeviceId) (now : Time)
    (revoked : List SessionId) : State :=
  let out := s.write (s.db.revokeAll revoked now)
  let history := { out.history with removed := Function.update out.history.removed device true }
  { out with history }.finish t

/-- A batch of `prune_expired_sessions`, which waits for the rows it deletes and for those that
point at them. -/
def prune (s : State) (ids : List SessionId) (cutoff : Time) : Option State :=
  let gone := (s.db.sessions.select (Db.pruned ids cutoff)).map Prod.fst
  let touched := s.db.sessions.select fun id row =>
    gone.contains id || row.replacedBySessionId.any gone.contains
  if touched.all fun r => s.unlocked r.1 then some (s.write (s.db.pruneExpired ids cutoff))
  else none

end State

/-- One step of the machine, with the answer to the request it ends. -/
def act (cfg : Settings) (s : State) : Label → Option (State × Option Answer)
  | .login device replaced now => (s.login cfg device replaced now).map (·, none)
  | .refresh t id => if s.txns t = none then some (s.startRefresh t id) else none
  | .request t id logout active =>
    if s.txns t = none then some (s.startRequest t id logout active) else none
  | .lockMissing t =>
    (s.txns t).bind fun txn => txn.contest?.bind fun c => (s.lockMissing t txn c).map (·, none)
  | .lockNext t =>
    (s.txns t).bind fun txn => txn.contest?.bind fun c => (s.lockNext t txn c).map (·, none)
  | .lockSelf t now =>
    match s.txns t with
    | some (.lockSelf id logout) => s.lockSelf t id logout now
    | _ => none
  | .finishRefresh t active now =>
    match s.txns t with
    | some (.refresh c) => s.finishRefresh cfg t c active now
    | _ => none
  | .finishClaim t now =>
    match s.txns t with
    | some (.claimContest c logout) => s.finishClaim t c logout now
    | _ => none
  | .logout t now =>
    match s.txns t with
    | some (.logout id) => s.logout t id now
    | _ => none
  | .startRemoval t device now =>
    if s.txns t = none then (s.startRemoval t device now).map (·, none) else none
  | .removal t =>
    match s.txns t with
    | some (.removal device now revoked pass) => (s.removal t device now revoked pass).map (·, none)
    | _ => none
  | .commitRemoval t =>
    match s.txns t with
    | some (.removal device now revoked .done) => some (s.commitRemoval t device now revoked, none)
    | _ => none
  | .prune ids cutoff => (s.prune ids cutoff).map (·, none)
  | .abort t => if s.txns t = none then none else some (s.finish t, none)

/-- One step of the machine. -/
def step (cfg : Settings) (s : State) (l : Label) : Option State := (act cfg s l).map Prod.fst

end TigerDuck.Auth
