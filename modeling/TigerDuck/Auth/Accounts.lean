import Mathlib.Data.List.Sort
import TigerDuck.Auth.Sessions
import TigerDuck.Transition.RowLock
import TigerDuck.Transition.Run

/-!
# Accounts, devices and stored tokens

The students' accounts, the devices they are signed in on and the Moodle tokens stored for them,
statement by statement under READ COMMITTED: a sign-in (`login`), which may take a device over from
another student, the requests of a device, which bring a deleted one back (`_bring_back`), with the
sign-out (`delete_device`) and the registration (`register_device`) among them, a credential update,
the daily retirement (`retire_dead_devices`), and the portal's two deregisters.

A user's number stands for the `external_accounts.id` of the account too, which the locks are taken
in the order of. A device's row goes by its unique key, so one that is deleted and made again counts
as the same. A row's own lock and the wait for a unique device key are left out: what would wait may
go on here. Not modelled: the sessions, the push tokens and the sync jobs the same transactions
write, what Moodle answers, and a user's suspension.

- `Db.statement`: the next statement of an open transaction.
- `step`: one statement, or the end of a transaction.
-/

namespace TigerDuck.Auth.Accounts

open Relational Transition

/-- An `external_accounts.external_user_id`. -/
abbrev StudentId := Nat

abbrev ClientDeviceId := Nat

abbrev TxnId := Nat

abbrev MoodleToken := Nat

/-- A row of `user_devices`. -/
structure UserDevice where
  /-- `deleted_at` is set. -/
  isDeleted : Bool
  /-- No column: the retirement has set it, and no sign-out. -/
  retired : Bool
  deriving DecidableEq, Repr

def UserDevice.isLive (d : UserDevice) : Bool := !d.isDeleted

/-- What a request does once it is authenticated. -/
inductive Handler
  /-- `delete_device`. -/
  | signOut (c : ClientDeviceId)
  /-- `register_device`. -/
  | register (c : ClientDeviceId)
  | other
  deriving DecidableEq, Repr

/-- Where a transaction stands. -/
inductive Work
  /-- A sign-in before its lock on the physical device. -/
  | signIn (s : StudentId) (c : ClientDeviceId) (token : MoodleToken)
  | signInLocked (s : StudentId) (c : ClientDeviceId) (token : MoodleToken)
  /-- `_find_or_create_user` has found the user, or inserted it. -/
  | signInFound (u : UserId) (s : StudentId) (c : ClientDeviceId) (token : MoodleToken) (known : Bool)
  /-- `lock_accounts`. -/
  | locking (us : List UserId) (next : Work)
  | storing (u : UserId) (s : StudentId) (c : ClientDeviceId) (token : MoodleToken) (known : Bool)
  /-- `_upsert_device` before it reads the device's rows of other students. -/
  | takingOver (u : UserId) (c : ClientDeviceId)
  /-- `forget_credentials_once_signed_out` of each user. -/
  | forgetting (us : List UserId) (next : Work)
  | forget (u : UserId) (us : List UserId) (next : Work)
  | placing (u : UserId) (c : ClientDeviceId)
  | signOut (u : UserId) (c : ClientDeviceId)
  | register (u : UserId) (c : ClientDeviceId)
  /-- A registration that has found its device deleted. -/
  | registerLocked (u : UserId) (c : ClientDeviceId)
  /-- `_bring_back` holds the lock. -/
  | bringBack (u : UserId) (caller : ClientDeviceId) (handler : Handler)
  | update (u : UserId) (token : MoodleToken)
  | retiring (us : List UserId)
  | deregistering (devices : List DeviceId)
  /-- `_sign_out` of the portal, before it drops the tokens. -/
  | clearing (us : List UserId)
  /-- `_delete_account` of the portal. -/
  | erasing (u : UserId)
  | ready
  deriving DecidableEq

/-- What a request's handler begins with. -/
def Handler.work (u : UserId) : Handler → Work
  | .signOut c => .locking [u] (.signOut u c)
  | .register c => .register u c
  | .other => .ready

/-- An open transaction, with what it has written. -/
structure Txn where
  work : Work
  devices : Table DeviceId (Option UserDevice)
  credentials : Table UserId (Option MoodleToken)
  /-- The account it has inserted. -/
  account : Option (UserId × StudentId)
  /-- The user it has deleted, with all that is the user's. -/
  erases : Option UserId

def Txn.begun (work : Work) : Txn := ⟨work, Table.empty, Table.empty, none, none⟩

structure Db where
  accounts : Table UserId StudentId
  devices : Table DeviceId UserDevice
  credentials : Table UserId MoodleToken
  nextUser : UserId
  txns : TxnId → Option Txn
  accountLocks : RowLocks UserId TxnId
  /-- The students whose users are inserted and not committed. -/
  studentLocks : RowLocks StudentId TxnId
  /-- `_DEVICE_SIGN_IN_LOCK`. -/
  signInLocks : RowLocks ClientDeviceId TxnId
  /-- No column: the users that have been deleted. -/
  erased : List UserId

def Db.initial : Db where
  accounts := Table.empty
  devices := Table.empty
  credentials := Table.empty
  nextUser := 0
  txns := fun _ => none
  accountLocks := RowLocks.free
  studentLocks := RowLocks.free
  signInLocks := RowLocks.free
  erased := []

/-! ### What a transaction reads -/

/-- A device's row as a transaction sees it. -/
def Txn.device (k : Txn) (db : Db) (id : DeviceId) : Option UserDevice :=
  (k.devices.get id).getD (db.devices.get id)

def Txn.credential (k : Txn) (db : Db) (u : UserId) : Option MoodleToken :=
  (k.credentials.get u).getD (db.credentials.get u)

/-- Whether the user has a device that is not deleted, as a transaction sees it. -/
def Txn.signedIn (k : Txn) (db : Db) (u : UserId) : Bool :=
  (db.devices.keys ++ k.devices.keys).any fun id =>
    decide (id.userId = u) && (k.device db id).any (·.isLive)

/-- The user of a student. -/
def Db.userOf (db : Db) (s : StudentId) : Option UserId :=
  ((db.accounts.select fun _ s' => s' = s).head?).map Prod.fst

/-- The other users a physical device is registered under. -/
def Db.owners (db : Db) (u : UserId) (c : ClientDeviceId) : List UserId :=
  (db.devices.select fun id _ => id.clientDeviceId = c ∧ id.userId ≠ u).map (·.1.userId)

/-- The order `lock_accounts` takes its locks in. -/
def lockOrder (us : List UserId) : List UserId := us.dedup.insertionSort (· ≤ ·)

namespace Db

def setTxn (db : Db) (t : TxnId) (k : Txn) : Db :=
  { db with txns := Function.update db.txns t (some k) }

/-- The lock of one account, which waits for another holder; a user without an account has none
to wait for. -/
def lockAccount (db : Db) (t : TxnId) (u : UserId) : Option Db :=
  if (db.accounts.get u).isNone then some db
  else if db.accountLocks.Available t u then
    some { db with accountLocks := db.accountLocks.lock t u }
  else none

/-- The device's row, inserted or undeleted, or left alone where it is not deleted. -/
def revive (db : Db) (k : Txn) (id : DeviceId) (work : Work) : Txn :=
  if (k.device db id).any (·.isLive) then { k with work }
  else { k with work, devices := k.devices.set id (some ⟨false, false⟩) }

/-- The next statement of an open transaction. One that waits for a lock is not enabled, and
neither is one that raises: the transaction can only be rolled back. -/
def statement (db : Db) (t : TxnId) (k : Txn) : Option Db :=
  match k.work with
  | .signIn s c token =>
    if db.signInLocks.Available t c then
      some (Db.setTxn { db with signInLocks := db.signInLocks.lock t c } t
        { k with work := .signInLocked s c token })
    else none
  | .signInLocked s c token =>
    match db.userOf s with
    | some u => some (db.setTxn t { k with work := .signInFound u s c token true })
    | none =>
      if db.studentLocks.Available t s then
        -- A user nobody else can see, and so nobody else can lock.
        some (Db.setTxn { db with
          nextUser := db.nextUser + 1
          studentLocks := db.studentLocks.lock t s
          accountLocks := db.accountLocks.lock t db.nextUser } t
          { k with work := .signInFound db.nextUser s c token false })
      else none
  | .signInFound u s c token known =>
    some (db.setTxn t { k with
      work := .locking (lockOrder (u :: db.owners u c)) (.storing u s c token known) })
  | .locking [] next => some (db.setTxn t { k with work := next })
  | .locking (u :: us) next =>
    (db.lockAccount t u).map fun db => db.setTxn t { k with work := .locking us next }
  | .storing u s c token known =>
    if known then
      -- An account that has been deleted meanwhile: its foreign keys refuse the sign-in.
      if (db.accounts.get u).isSome then
        some (db.setTxn t { k with
          work := .takingOver u c, credentials := k.credentials.set u (some token) })
      else none
    else
      some (db.setTxn t { k with
        work := .takingOver u c
        account := some (u, s)
        credentials := k.credentials.set u (some token) })
  | .takingOver u c =>
    let owners := db.owners u c
    some (db.setTxn t { k with
      work := .forgetting owners (.placing u c)
      devices := k.devices.upsertEach (owners.map (⟨·, c⟩)) (fun _ => none) fun _ _ => none })
  | .forgetting [] next => some (db.setTxn t { k with work := next })
  | .forgetting (u :: us) next =>
    (db.lockAccount t u).map fun db => db.setTxn t { k with work := .forget u us next }
  | .forget u us next =>
    some (db.setTxn t { k with
      work := .forgetting us next
      credentials := if k.signedIn db u then k.credentials else k.credentials.set u none })
  | .placing u c => some (db.setTxn t (db.revive k ⟨u, c⟩ .ready))
  | .signOut u c =>
    if (k.device db ⟨u, c⟩).any (·.isLive) then
      some (db.setTxn t { k with
        work := .forgetting [u] .ready, devices := k.devices.set ⟨u, c⟩ (some ⟨true, false⟩) })
    else none
  | .register u c =>
    if (k.device db ⟨u, c⟩).any (·.isDeleted) then
      some (db.setTxn t { k with work := .locking [u] (.registerLocked u c) })
    else some (db.setTxn t (db.revive k ⟨u, c⟩ .ready))
  | .registerLocked u c => some (db.setTxn t (db.revive k ⟨u, c⟩ .ready))
  | .bringBack u caller handler =>
    if (db.devices.get ⟨u, caller⟩).any (·.isDeleted) then
      some (db.setTxn t (db.revive k ⟨u, caller⟩ (handler.work u)))
    else some (db.setTxn t { k with work := handler.work u })
  | .update u token =>
    if (db.accounts.get u).isSome ∧ k.signedIn db u = true then
      some (db.setTxn t { k with work := .ready, credentials := k.credentials.set u (some token) })
    else some (db.setTxn t { k with work := .ready })
  | .deregistering ids =>
    let live := ids.filter fun id => (db.devices.get id).any (·.isLive)
    some (db.setTxn t { k with
      work := .clearing (live.map (·.userId))
      devices := k.devices.upsertEach live (fun _ => some ⟨true, false⟩) fun _ _ => some ⟨true, false⟩ })
  | .clearing us =>
    some (db.setTxn t { k with
      work := .ready
      credentials := k.credentials.upsertEach (us.filter fun u => !k.signedIn db u) (fun _ => none)
        fun _ _ => none })
  | .erasing u => some (db.setTxn t { k with work := .ready, erases := some u })
  | .retiring _ => none
  | .ready => none

/-- The `UPDATE` of the retirement, of the devices it still finds dead among those of the users it
has locked. -/
def retire (db : Db) (t : TxnId) (k : Txn) (dead : List DeviceId) : Option Db :=
  match k.work with
  | .retiring us =>
    if ∀ id ∈ dead, id.userId ∈ us ∧ (db.devices.get id).any (·.isLive) then
      some (db.setTxn t { k with
        work := .ready
        devices := k.devices.upsertEach dead (fun _ => some ⟨true, true⟩) fun _ _ => some ⟨true, true⟩ })
    else none
  | _ => none

/-- The end of a transaction: its locks go. -/
def close (db : Db) (t : TxnId) : Db :=
  { db with
    txns := Function.update db.txns t none
    accountLocks := db.accountLocks.release t
    studentLocks := db.studentLocks.release t
    signInLocks := db.signInLocks.release t }

/-- The users a transaction's devices are of are there. -/
def Referenced (db : Db) (k : Txn) : Prop :=
  ∀ row ∈ k.devices.rows, row.2.isSome →
    (db.accounts.get row.1.userId).isSome ∨ k.account.map Prod.fst = some row.1.userId

instance (db : Db) (k : Txn) : Decidable (db.Referenced k) :=
  inferInstanceAs (Decidable (∀ row ∈ k.devices.rows, _))

/-- What a transaction has written becomes what is committed. -/
def commitTxn (db : Db) (t : TxnId) (k : Txn) : Db :=
  { db.close t with
    accounts := (k.account.elim db.accounts fun a => db.accounts.set a.1 a.2).deleteWhere
      fun u _ => k.erases = some u
    devices := (db.devices.applyWrites k.devices).deleteWhere fun id _ => k.erases = some id.userId
    credentials := (db.credentials.applyWrites k.credentials).deleteWhere fun u _ => k.erases = some u
    erased := k.erases.toList ++ db.erased }

end Db

/-- What a transaction is opened for. -/
inductive Request
  | signIn (s : StudentId) (c : ClientDeviceId) (token : MoodleToken)
  | api (u : UserId) (caller : ClientDeviceId) (handler : Handler)
  /-- `update_credentials`, once Moodle has answered. -/
  | update (u : UserId) (token : MoodleToken)
  /-- With the devices the retirement has found dead. -/
  | retire (dead : List DeviceId)
  | deregisterDevices (devices : List DeviceId)
  | deregisterStudent (u : UserId)
  deriving DecidableEq

/-- What a transaction begins with. A request is authenticated, so its user is there. -/
def Request.work (db : Db) : Request → Option Work
  | .signIn s c token => some (.signIn s c token)
  | .api u caller handler =>
    if (db.accounts.get u).isSome then
      if (db.devices.get ⟨u, caller⟩).any (·.isDeleted) then
        some (.locking [u] (.bringBack u caller handler))
      else some (handler.work u)
    else none
  | .update u token =>
    if (db.accounts.get u).isSome then some (.locking [u] (.update u token)) else none
  | .retire dead =>
    if ∀ id ∈ dead, (db.devices.get id).any (·.isLive) then
      let us := lockOrder (dead.map (·.userId))
      some (.locking us (.retiring us))
    else none
  | .deregisterDevices ids =>
    -- The accounts of those that are not deleted.
    let live := ids.filter fun id => (db.devices.get id).any (·.isLive)
    some (.locking (lockOrder (live.map (·.userId))) (.deregistering ids))
  | .deregisterStudent u =>
    if (db.accounts.get u).isSome then some (.locking [u] (.erasing u)) else none

inductive Label
  | begin (t : TxnId) (request : Request)
  | next (t : TxnId)
  | retire (t : TxnId) (dead : List DeviceId)
  | commit (t : TxnId)
  | rollback (t : TxnId)
  deriving DecidableEq

/-- One step. -/
def step (db : Db) : Label → Option Db
  | .begin t request =>
    if (db.txns t).isNone then (request.work db).map fun work => db.setTxn t (.begun work) else none
  | .next t => (db.txns t).bind fun k => db.statement t k
  | .retire t dead => (db.txns t).bind fun k => db.retire t k dead
  | .commit t =>
    (db.txns t).bind fun k =>
      if k.work = .ready ∧ db.Referenced k then some (db.commitTxn t k) else none
  | .rollback t => some (db.close t)

end TigerDuck.Auth.Accounts
