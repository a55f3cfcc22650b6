import Mathlib.Data.List.Dedup
import Mathlib.Data.List.Sort
import TigerDuck.Sync.Merge
import TigerDuck.Transition.RowLock
import TigerDuck.Transition.Run

/-!
# The change log

`server/sync/changelog.py` and `server/sync/retention.py` under READ COMMITTED: what a
statement reads is what is committed when it starts, and a row lock is held until its
transaction ends. The transactions that append and the purge run in any interleaving with
one client of the user `me` that follows the feed page by page.

A user without a `user_sync_state` row reads as one whose revisions are zero, so the row is
kept as its two numbers. The purge deletes and compacts a user under that user's lock, which
no append passes, so both take effect with its commit.
-/

namespace TigerDuck.Sync.Changelog

open Transition

/-- A `users.id`. -/
abbrev UserId := Nat

/-- A transaction of one database session. -/
abbrev TxnId := Nat

/-- A `ChangeEntry`: `change` is its entity type and id, operation and payload. -/
structure ChangeEntry (ε : Type) where
  revision : Nat
  change : ε
  deriving DecidableEq, Repr

/-- A row of `user_change_log`. -/
structure UserChangeLog (ε : Type) where
  revision : Nat
  userId : UserId
  createdAt : Time
  change : ε
  deriving DecidableEq, Repr

/-- A row of `user_sync_state`. -/
structure UserSyncState where
  currentRevision : Nat
  compactedRevision : Nat
  deriving DecidableEq, Repr

/-- The uncommitted work of an open transaction. -/
inductive Txn (ε : Type)
  /-- Rows inserted so far, oldest first. -/
  | append (inserted : List (UserChangeLog ε))
  /-- Users with their watermarks, those still to lock and those purged. -/
  | purge (todo done : List (UserId × Nat))

/-- A client that follows the feed from `start`. -/
structure Client (ε : Type) where
  start : Nat
  sinceRevision : Nat
  received : List (ChangeEntry ε)
  /-- What the first statement of the page under way read. -/
  reading : Option UserSyncState
  expired : Bool

/-- The committed rows, the locks and open transactions, and the client. -/
structure Db (ε : Type) where
  /-- The next value of the global sequence. -/
  nextRevision : Nat
  log : List (UserChangeLog ε)
  states : UserId → UserSyncState
  locks : RowLocks UserId TxnId
  txns : TxnId → Option (Txn ε)
  client : Client ε
  /-- Every row ever committed, purged ones too. -/
  history : List (UserChangeLog ε)

variable {ε : Type}

/-- An empty database and a client at `start`. -/
def Db.initial (start : Nat) : Db ε where
  nextRevision := 1
  log := []
  states := fun _ => ⟨0, 0⟩
  locks := .free
  txns := fun _ => none
  client := ⟨start, start, [], none, false⟩
  history := []

/-- The part of a row a page carries. -/
def UserChangeLog.entry (r : UserChangeLog ε) : ChangeEntry ε := ⟨r.revision, r.change⟩

/-- The second statement of `read_changes`. -/
def selectRows (log : List (UserChangeLog ε)) (userId : UserId) (since current : Nat)
    (limit : Nat) : List (UserChangeLog ε) :=
  ((log.filter fun r => r.userId = userId ∧ since < r.revision ∧ r.revision ≤ current).insertionSort
    (·.revision ≤ ·.revision)).take (limit + 1)

/-- A `ChangePage`. -/
structure ChangePage (ε : Type) where
  changes : List (ChangeEntry ε)
  currentRevision : Nat
  returnedUntilRevision : Nat
  hasMore : Bool

/-- The page `read_changes` makes of its rows. -/
def changePage (rows : List (UserChangeLog ε)) (current : Nat) (limit : Nat) : ChangePage ε :=
  let hasMore := decide (limit < rows.length)
  let changes := (rows.take limit).map UserChangeLog.entry
  let returnedUntil := if hasMore then (changes.getLast?.map (·.revision)).getD current else current
  ⟨changes, current, returnedUntil, hasMore⟩

/-- The watermark of each user with expired rows: the greatest expired revision. -/
def watermarks (log : List (UserChangeLog ε)) (cutoff : Time) : List (UserId × Nat) :=
  let expired := log.filter (·.createdAt < cutoff)
  (expired.map (·.userId)).dedup.map fun userId =>
    (userId, ((expired.filter (·.userId = userId)).map (·.revision)).foldr max 0)

/-- `current_revision` after the rows are committed. -/
def bump (states : UserId → UserSyncState) (rows : List (UserChangeLog ε)) :
    UserId → UserSyncState :=
  rows.foldl (fun states r =>
    Function.update states r.userId { states r.userId with currentRevision := r.revision }) states

/-- `compacted_revision` after the users are purged. -/
def compact (states : UserId → UserSyncState) (purged : List (UserId × Nat)) :
    UserId → UserSyncState :=
  purged.foldl (fun states p => Function.update states p.1
    { states p.1 with compactedRevision := max (states p.1).compactedRevision p.2 }) states

/-- One statement, or the end of a transaction. -/
inductive Label (ε : Type)
  /-- `lock_sync_state`. -/
  | lockSyncState (t : TxnId) (userId : UserId)
  /-- The insert of `append_change`. -/
  | appendChange (t : TxnId) (userId : UserId) (createdAt : Time) (change : ε)
  /-- The purge's first statement. -/
  | selectWatermarks (t : TxnId) (cutoff : Time)
  /-- The purge of the next user. -/
  | purgeUser (t : TxnId)
  | commit (t : TxnId)
  | rollback (t : TxnId)
  /-- The first statement of `read_changes`. -/
  | readState
  /-- The second statement of `read_changes`, and its page. -/
  | readRows (limit : Nat)

namespace Db

/-- The end of a transaction: its locks go. -/
def close (db : Db ε) (t : TxnId) : Db ε :=
  { db with locks := db.locks.release t, txns := Function.update db.txns t none }

/-- A lock, and the transaction's work after it. -/
def lockFor (db : Db ε) (t : TxnId) (userId : UserId) (work : Txn ε) : Option (Db ε) :=
  if db.locks.Available t userId then
    some { db with locks := db.locks.lock t userId, txns := Function.update db.txns t (some work) }
  else none

/-- `append_change` draws its revision from the global sequence. -/
def insertRow (db : Db ε) (t : TxnId) (inserted : List (UserChangeLog ε)) (userId : UserId)
    (createdAt : Time) (change : ε) : Db ε :=
  { db with
    nextRevision := db.nextRevision + 1
    txns := Function.update db.txns t
      (some (.append (inserted ++ [⟨db.nextRevision, userId, createdAt, change⟩]))) }

/-- The commit of an append: its rows and the watermark become visible together. -/
def commitRows (db : Db ε) (t : TxnId) (inserted : List (UserChangeLog ε)) : Db ε :=
  { db.close t with
    log := db.log ++ inserted
    history := db.history ++ inserted
    states := bump db.states inserted }

/-- The commit of the purge. -/
def commitPurge (db : Db ε) (t : TxnId) (purged : List (UserId × Nat)) : Db ε :=
  { db.close t with
    log := db.log.filter fun r => !purged.any fun p => p.1 = r.userId ∧ r.revision ≤ p.2
    states := compact db.states purged }

/-- The client asks for the next page: an expired cursor is refused. -/
def readState (db : Db ε) (me : UserId) : Db ε :=
  let state := db.states me
  if db.client.sinceRevision < state.compactedRevision then
    { db with client := { db.client with expired := true } }
  else { db with client := { db.client with reading := some state } }

/-- The page arrives and the client moves to its `returned_until_revision`. -/
def readRows (db : Db ε) (me : UserId) (state : UserSyncState) (limit : Nat) : Db ε :=
  let rows := selectRows db.log me db.client.sinceRevision state.currentRevision limit
  let page := changePage rows state.currentRevision limit
  { db with
    client := { db.client with
      sinceRevision := page.returnedUntilRevision
      received := db.client.received ++ page.changes
      reading := none } }

end Db

/-- One step. A statement that waits for a lock is not enabled. -/
def step (me : UserId) (db : Db ε) : Label ε → Option (Db ε)
  | .lockSyncState t userId =>
    match db.txns t with
    | none => db.lockFor t userId (.append [])
    | some (.append inserted) => db.lockFor t userId (.append inserted)
    | some (.purge _ _) => none
  | .appendChange t userId createdAt change =>
    match db.txns t with
    | some (.append inserted) =>
      if db.locks userId = some t then some (db.insertRow t inserted userId createdAt change)
      else none
    | _ => none
  | .selectWatermarks t cutoff =>
    match db.txns t with
    | none => some { db with
        txns := Function.update db.txns t (some (.purge (watermarks db.log cutoff) [])) }
    | some _ => none
  | .purgeUser t =>
    match db.txns t with
    | some (.purge (p :: todo) done) => db.lockFor t p.1 (.purge todo (done ++ [p]))
    | _ => none
  | .commit t =>
    match db.txns t with
    | some (.append inserted) => some (db.commitRows t inserted)
    | some (.purge [] done) => some (db.commitPurge t done)
    | _ => none
  | .rollback t => (db.txns t).map fun _ => db.close t
  | .readState =>
    if db.client.reading.isNone ∧ db.client.expired = false then some (db.readState me) else none
  | .readRows limit =>
    match db.client.reading with
    | some state => if 0 < limit then some (db.readRows me state limit) else none
    | none => none

/-- No page hides a change: what the client received is strictly increasing and holds every
change of its user between its start and its cursor. -/
def NoGap (me : UserId) (db : Db ε) : Prop :=
  (db.client.received.Pairwise fun a b => a.revision < b.revision) ∧
    (∀ e ∈ db.client.received, ∃ r ∈ db.history, r.userId = me ∧ r.entry = e) ∧
    ∀ r ∈ db.history, r.userId = me → db.client.start < r.revision →
      r.revision ≤ db.client.sinceRevision → r.entry ∈ db.client.received

instance [DecidableEq ε] (me : UserId) (db : Db ε) : Decidable (NoGap me db) :=
  inferInstanceAs (Decidable (_ ∧ _ ∧ _))

/-! ### What a commit does to the watermarks -/

section Watermarks

variable (states : UserId → UserSyncState)

theorem bump_cons (r : UserChangeLog ε) (rows : List (UserChangeLog ε)) :
    bump states (r :: rows) =
      bump (Function.update states r.userId
        { states r.userId with currentRevision := r.revision }) rows := rfl

@[simp]
theorem bump_compactedRevision (rows : List (UserChangeLog ε)) (userId : UserId) :
    (bump states rows userId).compactedRevision = (states userId).compactedRevision := by
  induction rows generalizing states with
  | nil => rfl
  | cons r rows ih =>
    rw [bump_cons, ih]
    by_cases h : userId = r.userId
    · subst h
      simp
    · simp [h]

/-- Rows of other users do not move a watermark. -/
theorem bump_of_forall_ne {rows : List (UserChangeLog ε)} {userId : UserId}
    (h : ∀ r ∈ rows, r.userId ≠ userId) : bump states rows userId = states userId := by
  induction rows generalizing states with
  | nil => rfl
  | cons r rows ih =>
    rw [bump_cons, ih _ fun x hx => h x (by simp [hx]),
      Function.update_of_ne (Ne.symm (h r (by simp)))]

/-- A watermark stays below what the sequence has not handed out. -/
theorem bump_lt {rows : List (UserChangeLog ε)} {bound : Nat}
    (hrows : ∀ r ∈ rows, r.revision < bound)
    (hstates : ∀ userId, (states userId).currentRevision < bound) (userId : UserId) :
    (bump states rows userId).currentRevision < bound := by
  induction rows generalizing states with
  | nil => exact hstates userId
  | cons r rows ih =>
    rw [bump_cons]
    refine ih _ (fun x hx => hrows x (by simp [hx])) fun u => ?_
    by_cases h : u = r.userId
    · subst h
      simpa using hrows r (by simp)
    · simpa [h] using hstates u

/-- Rows past every watermark, in increasing order, raise their users' watermarks to the last
of each. -/
theorem le_bump {rows : List (UserChangeLog ε)}
    (hsorted : rows.Pairwise fun a b => a.revision < b.revision)
    (hpast : ∀ r ∈ rows, (states r.userId).currentRevision < r.revision) :
    (∀ userId, (states userId).currentRevision ≤ (bump states rows userId).currentRevision) ∧
      ∀ r ∈ rows, r.revision ≤ (bump states rows r.userId).currentRevision := by
  induction rows generalizing states with
  | nil => exact ⟨fun _ => le_rfl, fun r hr => absurd hr List.not_mem_nil⟩
  | cons r rows ih =>
    rw [List.pairwise_cons] at hsorted
    obtain ⟨hfirst, hsorted⟩ := hsorted
    rw [bump_cons]
    obtain ⟨hmono, hrows⟩ := ih (Function.update states r.userId
      { states r.userId with currentRevision := r.revision }) hsorted (by
        intro x hx
        by_cases h : x.userId = r.userId
        · simpa [h] using hfirst x hx
        · simpa [h] using hpast x (by simp [hx]))
    have hself := hmono r.userId
    rw [Function.update_self] at hself
    constructor
    · intro userId
      by_cases h : userId = r.userId
      · subst h
        exact (hpast r (by simp)).le.trans hself
      · have hother := hmono userId
        rwa [Function.update_of_ne h] at hother
    · intro x hx
      rcases List.mem_cons.mp hx with rfl | hx
      · exact hself
      · exact hrows x hx

@[simp]
theorem compact_currentRevision (purged : List (UserId × Nat)) (userId : UserId) :
    (compact states purged userId).currentRevision = (states userId).currentRevision := by
  unfold compact
  induction purged generalizing states with
  | nil => rfl
  | cons p purged ih =>
    rw [List.foldl_cons, ih]
    by_cases h : userId = p.1
    · subst h
      simp
    · simp [h]

/-- Compaction stays below a revision exactly when the stored one and every watermark of the
user do. -/
theorem compact_lt_iff (purged : List (UserId × Nat)) (userId : UserId)
    (revision : Nat) :
    (compact states purged userId).compactedRevision < revision ↔
      (states userId).compactedRevision < revision ∧
        ∀ p ∈ purged, p.1 = userId → p.2 < revision := by
  unfold compact
  induction purged generalizing states with
  | nil => simp
  | cons p purged ih =>
    rw [List.foldl_cons, ih]
    by_cases h : userId = p.1
    · subst h
      simp [and_assoc]
    · have h' : p.1 ≠ userId := Ne.symm h
      simp [h, h']

end Watermarks

end TigerDuck.Sync.Changelog
