import TigerDuck.Relational.Table
import TigerDuck.Sync.ChangelogPaging

/-!
# Settings documents

The documents of one user: `put_document` of `server/routes/settings_docs.py` and the settings of
`process_initial_upload`, statement by statement under READ COMMITTED, with the changes they
append, beside the user's other appends, the purge of the change log, and one client that takes a
full snapshot and then follows the feed, reading again what a page names.

An insert or an update holds the document until its transaction ends; a statement that needs a
document another transaction holds waits, so its step is not enabled. An update looks for the
revision it is based on among what is committed, and waits only for a row that has it. Any
transaction may be rolled back at any time, as Postgres does where two wait for each other.

`versions`, `exchanges` and `everLogged` are no columns: what has been committed of each document,
what each request has been answered, and every change ever committed. Not modelled: the devices
and the times of a row, a body's own checks, and the snapshot's other sections.

## Main results

- `step_cases`: what a step can do, case by case.
- `settingsOf_append`: what a log says of one document.
-/

namespace TigerDuck.Sync.SettingsDocuments

open Changelog (UserChangeLog UserId TxnId changePage selectRows)
open Relational Transition

/-- `SETTINGS_NAMESPACES`. -/
inductive SettingsNamespace
  | homeLayout
  | appearance
  | assignmentDisplay
  | notification
  | browser
  | language
  | scheduleDisplay
  | watch
  | wearos
  | clubSubscriptions
  deriving DecidableEq, Repr

/-- What `settings_document_to_dict` tells of a row of `user_settings_documents`. -/
structure Document (δ : Type) where
  schemaVersion : Nat
  document : δ
  revision : Nat
  deriving DecidableEq, Repr

structure SettingsPut (δ : Type) where
  schemaVersion : Nat
  document : δ
  baseRevision : Option Nat
  deriving DecidableEq, Repr

structure UploadSettingsDocument (δ : Type) where
  ns : SettingsNamespace
  schemaVersion : Nat
  document : δ
  deriving DecidableEq, Repr

variable {δ : Type}

/-- The document an accepted request leaves: a new one, or the next revision of its base. -/
def SettingsPut.result (payload : SettingsPut δ) : Document δ :=
  ⟨payload.schemaVersion, payload.document, payload.baseRevision.elim 1 (· + 1)⟩

def UploadSettingsDocument.result (item : UploadSettingsDocument δ) : Document δ :=
  ⟨item.schemaVersion, item.document, 1⟩

/-- What a change names: a revision of a document, or something else of the user's. -/
inductive Change
  | settingsDocument (ns : SettingsNamespace) (revision : Nat)
  | other
  deriving DecidableEq, Repr

/-- The document a change names. -/
def Change.document : Change → Option SettingsNamespace
  | .settingsDocument ns _ => some ns
  | .other => none

/-- The revision of a document a change names. -/
def Change.revisionOf (ns : SettingsNamespace) : Change → Option Nat
  | .settingsDocument ns' revision => if ns' = ns then some revision else none
  | .other => none

/-- What `put_document` answers. -/
inductive Answer (δ : Type)
  | ok (document : Document δ)
  /-- `_conflict_response`. -/
  | conflict (server : Document δ)
  | notFound
  /-- The create lost a race, and what it lost to is gone. -/
  | settingsConflict
  deriving DecidableEq, Repr

/-- A request and its answer. -/
structure Exchange (δ : Type) where
  ns : SettingsNamespace
  payload : SettingsPut δ
  answer : Answer δ
  deriving DecidableEq, Repr

/-- Where a transaction stands. -/
inductive Work (δ : Type)
  | put (ns : SettingsNamespace) (payload : SettingsPut δ)
  /-- A create that has found no document. -/
  | creating (ns : SettingsNamespace) (payload : SettingsPut δ)
  /-- The unique index has refused the insert, or the update has found no row. -/
  | refused (ns : SettingsNamespace) (payload : SettingsPut δ)
  | written (ns : SettingsNamespace) (payload : SettingsPut δ)
  /-- The request holds the user's sync state. -/
  | logging (ns : SettingsNamespace) (payload : SettingsPut δ)
  | answered (exchange : Exchange δ)
  /-- An upload that holds the user's sync state, between two documents. -/
  | upload (items : List (UploadSettingsDocument δ))
  | missing (item : UploadSettingsDocument δ) (items : List (UploadSettingsDocument δ))
  | inserted (item : UploadSettingsDocument δ) (items : List (UploadSettingsDocument δ))
  /-- A transaction that holds the user's sync state for another entity. -/
  | other
  deriving DecidableEq, Repr

/-- An open transaction, with what it has written. -/
structure Txn (δ : Type) where
  work : Work δ
  writes : Table SettingsNamespace (Document δ)
  entries : List (UserChangeLog Change)

def Txn.begun (work : Work δ) : Txn δ := ⟨work, Table.empty, []⟩

/-- A client that keeps a copy of the documents. -/
structure Replica (δ : Type) where
  documents : SettingsNamespace → Option (Document δ)
  cursor : Nat
  /-- What the pages have named and the client has not read again. -/
  toRead : List SettingsNamespace
  /-- The `current_revision` the first statement of the page under way has read. -/
  reading : Option Nat
  /-- The client has been told to take a full snapshot. -/
  expired : Bool

/-- The committed rows, the locks and the open transactions, and the client. -/
structure Db (δ : Type) where
  docs : Table SettingsNamespace (Document δ)
  log : List (UserChangeLog Change)
  currentRevision : Nat
  compactedRevision : Nat
  /-- The next value of the global sequence. -/
  nextRevision : Nat
  txns : TxnId → Option (Txn δ)
  docLocks : RowLocks SettingsNamespace TxnId
  syncLock : Option TxnId
  replica : Replica δ
  versions : SettingsNamespace → List (Document δ)
  exchanges : List (Exchange δ)
  everLogged : List (UserChangeLog Change)

def Db.initial : Db δ where
  docs := Table.empty
  log := []
  currentRevision := 0
  compactedRevision := 0
  nextRevision := 1
  txns := fun _ => none
  docLocks := RowLocks.free
  syncLock := none
  replica := ⟨fun _ => none, 0, [], none, true⟩
  versions := fun _ => []
  exchanges := []
  everLogged := []

/-- What a log says of one document. -/
def settingsOf (ns : SettingsNamespace) (log : List (UserChangeLog Change)) : List Nat :=
  log.filterMap fun r => r.change.revisionOf ns

theorem settingsOf_append (ns : SettingsNamespace) (log log' : List (UserChangeLog Change)) :
    settingsOf ns (log ++ log') = settingsOf ns log ++ settingsOf ns log' :=
  List.filterMap_append

namespace Db

def setTxn (db : Db δ) (t : TxnId) (k : Txn δ) : Db δ :=
  { db with txns := Function.update db.txns t (some k) }

/-- The end of a transaction: its locks go. -/
def close (db : Db δ) (t : TxnId) : Db δ :=
  { db with
    txns := Function.update db.txns t none
    docLocks := db.docLocks.release t
    syncLock := if db.syncLock = some t then none else db.syncLock }

/-- A transaction writes a document it now holds. -/
def write (db : Db δ) (t : TxnId) (k : Txn δ) (ns : SettingsNamespace) (doc : Document δ)
    (work : Work δ) : Db δ :=
  Db.setTxn { db with docLocks := db.docLocks.lock t ns } t
    { k with work, writes := k.writes.set ns doc }

/-- `append_change` draws its revision from the global sequence. -/
def append (db : Db δ) (t : TxnId) (k : Txn δ) (me : UserId) (at' : Time) (change : Change)
    (work : Work δ) : Db δ :=
  Db.setTxn { db with nextRevision := db.nextRevision + 1 } t
    { k with work, entries := k.entries ++ [⟨db.nextRevision, me, at', change⟩] }

/-- What a transaction has written becomes what is committed. -/
def commitTxn (db : Db δ) (t : TxnId) (k : Txn δ) (exchanges : List (Exchange δ)) : Db δ :=
  { db.close t with
    docs := db.docs.overwriteFrom k.writes fun _ doc => some doc
    log := db.log ++ k.entries
    currentRevision := (k.entries.getLast?.map (·.revision)).getD db.currentRevision
    versions := fun ns => db.versions ns ++ (k.writes.get ns).toList
    exchanges := db.exchanges ++ exchanges
    everLogged := db.everLogged ++ k.entries }

/-- The page arrives, and what it names is to be read again. -/
def readRows (db : Db δ) (me : UserId) (current limit : Nat) : Db δ :=
  let page := changePage (selectRows db.log me db.replica.cursor current limit) current limit
  { db with
    replica := { db.replica with
      cursor := page.returnedUntilRevision
      toRead := db.replica.toRead ++ page.changes.filterMap fun c => c.change.document
      reading := none } }

end Db

/-- One statement, or the end of a transaction. -/
inductive Label (δ : Type)
  | put (t : TxnId) (ns : SettingsNamespace) (payload : SettingsPut δ)
  /-- `_get_document` of a create. -/
  | find (t : TxnId)
  | insert (t : TxnId)
  /-- The compare-and-swap. -/
  | update (t : TxnId)
  /-- `_get_document` of a request that has been refused. -/
  | findWinner (t : TxnId)
  | lockSyncState (t : TxnId)
  | appendChange (t : TxnId) (createdAt : Time)
  | beginUpload (t : TxnId) (items : List (UploadSettingsDocument δ))
  | findItem (t : TxnId)
  | insertItem (t : TxnId)
  | logItem (t : TxnId) (createdAt : Time)
  | beginOther (t : TxnId)
  | appendOther (t : TxnId) (createdAt : Time)
  | commit (t : TxnId)
  | rollback (t : TxnId)
  /-- `purge_expired_changelog`, of the user's changes up to a revision. -/
  | purge (watermark : Nat)
  /-- `full_sync`. -/
  | fullSync
  /-- The first statement of `read_changes`. -/
  | readState
  /-- The second statement of `read_changes`, and its page. -/
  | readRows (limit : Nat)
  /-- `read_document`. -/
  | readDocument (ns : SettingsNamespace)

/-- A statement of an open transaction. -/
def txnStep (me : UserId) (db : Db δ) (t : TxnId) (k : Txn δ) : Label δ → Option (Db δ)
  | .find _ =>
    match k.work with
    | .put ns payload =>
      if payload.baseRevision.isNone then
        match db.docs.get ns with
        | some doc =>
          some (db.setTxn t { k with work := .answered ⟨ns, payload, .conflict doc⟩ })
        | none => some (db.setTxn t { k with work := .creating ns payload })
      else none
    | _ => none
  | .insert _ =>
    match k.work with
    | .creating ns payload =>
      if db.docLocks.Available t ns then
        if (db.docs.get ns).isSome then some (db.setTxn t { k with work := .refused ns payload })
        else some (db.write t k ns payload.result (.written ns payload))
      else none
    | _ => none
  | .update _ =>
    match k.work with
    | .put ns payload =>
      match payload.baseRevision with
      | some base =>
        if (db.docs.get ns).map (·.revision) = some base then
          if db.docLocks.Available t ns then
            some (db.write t k ns payload.result (.written ns payload))
          else none
        else some (db.setTxn t { k with work := .refused ns payload })
      | none => none
    | _ => none
  | .findWinner _ =>
    match k.work with
    | .refused ns payload =>
      let answer :=
        match db.docs.get ns with
        | some doc => .conflict doc
        | none => if payload.baseRevision.isNone then .settingsConflict else .notFound
      some (db.setTxn t { k with work := .answered ⟨ns, payload, answer⟩ })
    | _ => none
  | .lockSyncState _ =>
    match k.work with
    | .written ns payload =>
      if db.syncLock = none then
        some (Db.setTxn { db with syncLock := some t } t { k with work := .logging ns payload })
      else none
    | _ => none
  | .appendChange _ createdAt =>
    match k.work with
    | .logging ns payload =>
      some (db.append t k me createdAt (.settingsDocument ns payload.result.revision)
        (.answered ⟨ns, payload, .ok payload.result⟩))
    | _ => none
  | .findItem _ =>
    match k.work with
    | .upload (item :: items) =>
      if ((k.writes.get item.ns).or (db.docs.get item.ns)).isSome then
        some (db.setTxn t { k with work := .upload items })
      else some (db.setTxn t { k with work := .missing item items })
    | _ => none
  | .insertItem _ =>
    match k.work with
    | .missing item items =>
      -- A document that is there after all: the unique index refuses the upload.
      if db.docLocks.Available t item.ns ∧ (db.docs.get item.ns).isNone then
        some (db.write t k item.ns item.result (.inserted item items))
      else none
    | _ => none
  | .logItem _ createdAt =>
    match k.work with
    | .inserted item items =>
      some (db.append t k me createdAt (.settingsDocument item.ns item.result.revision)
        (.upload items))
    | _ => none
  | .appendOther _ createdAt =>
    match k.work with
    | .other => some (db.append t k me createdAt .other .other)
    | _ => none
  | .commit _ =>
    match k.work with
    | .answered exchange => some (db.commitTxn t k [exchange])
    | .upload [] => some (db.commitTxn t k [])
    | .other => some (db.commitTxn t k [])
    | _ => none
  | .rollback _ => some (db.close t)
  | _ => none

/-- The transaction a statement is of. -/
def Label.txn : Label δ → Option TxnId
  | .put t _ _ => some t
  | .find t => some t
  | .insert t => some t
  | .update t => some t
  | .findWinner t => some t
  | .lockSyncState t => some t
  | .appendChange t _ => some t
  | .beginUpload t _ => some t
  | .findItem t => some t
  | .insertItem t => some t
  | .logItem t _ => some t
  | .beginOther t => some t
  | .appendOther t _ => some t
  | .commit t => some t
  | .rollback t => some t
  | _ => none

/-- One step. A statement that waits for a lock is not enabled. -/
def step (me : UserId) (db : Db δ) : Label δ → Option (Db δ)
  | .put t ns payload =>
    if (db.txns t).isNone then some (db.setTxn t (.begun (.put ns payload))) else none
  | .beginUpload t items =>
    if (db.txns t).isNone ∧ db.syncLock = none then
      some (Db.setTxn { db with syncLock := some t } t (.begun (.upload items)))
    else none
  | .beginOther t =>
    if (db.txns t).isNone ∧ db.syncLock = none then
      some (Db.setTxn { db with syncLock := some t } t (.begun .other))
    else none
  | .purge watermark =>
    if db.syncLock = none ∧ watermark ≤ db.currentRevision then
      some { db with
        log := db.log.filter fun r => watermark < r.revision
        compactedRevision := max db.compactedRevision watermark }
    else none
  | .fullSync =>
    some { db with replica := ⟨fun ns => db.docs.get ns, db.currentRevision, [], none, false⟩ }
  | .readState =>
    if db.replica.expired = false ∧ db.replica.reading = none then
      if db.replica.cursor < db.compactedRevision then
        some { db with replica := { db.replica with expired := true } }
      else some { db with replica := { db.replica with reading := some db.currentRevision } }
    else none
  | .readRows limit =>
    match db.replica.reading with
    | some current => if 0 < limit then some (db.readRows me current limit) else none
    | none => none
  | .readDocument ns =>
    some { db with
      replica := { db.replica with
        documents := Function.update db.replica.documents ns (db.docs.get ns)
        toRead := db.replica.toRead.filter (· ≠ ns) } }
  | l => l.txn.bind fun t => (db.txns t).bind fun k => txnStep me db t k l

/-! ### What a step can do -/

/-- A statement that writes nothing takes a transaction on. -/
inductive Moves (db : Db δ) (k : Txn δ) : Work δ → Prop
  | found {ns : SettingsNamespace} {payload : SettingsPut δ} {doc : Document δ}
      (hwork : k.work = .put ns payload) (hget : db.docs.get ns = some doc) :
      Moves db k (.answered ⟨ns, payload, .conflict doc⟩)
  | creating {ns : SettingsNamespace} {payload : SettingsPut δ} (hwork : k.work = .put ns payload)
      (hbase : payload.baseRevision = none) : Moves db k (.creating ns payload)
  | lost {ns : SettingsNamespace} {payload : SettingsPut δ}
      (hwork : k.work = .creating ns payload) : Moves db k (.refused ns payload)
  | stale {ns : SettingsNamespace} {payload : SettingsPut δ} (hwork : k.work = .put ns payload) :
      Moves db k (.refused ns payload)
  | winner {ns : SettingsNamespace} {payload : SettingsPut δ} {doc : Document δ}
      (hwork : k.work = .refused ns payload) (hget : db.docs.get ns = some doc) :
      Moves db k (.answered ⟨ns, payload, .conflict doc⟩)
  | gone {ns : SettingsNamespace} {payload : SettingsPut δ} {answer : Answer δ}
      (hwork : k.work = .refused ns payload)
      (hanswer : answer = .notFound ∨ answer = .settingsConflict) :
      Moves db k (.answered ⟨ns, payload, answer⟩)
  | skip {item : UploadSettingsDocument δ} {items : List (UploadSettingsDocument δ)}
      (hwork : k.work = .upload (item :: items)) : Moves db k (.upload items)
  | missing {item : UploadSettingsDocument δ} {items : List (UploadSettingsDocument δ)}
      (hwork : k.work = .upload (item :: items)) (hnone : k.writes.get item.ns = none) :
      Moves db k (.missing item items)

/-- A transaction writes a document nobody else holds. -/
inductive Writes (db : Db δ) (k : Txn δ) : SettingsNamespace → Document δ → Work δ → Prop
  | insert {ns : SettingsNamespace} {payload : SettingsPut δ} (hwork : k.work = .creating ns payload)
      (hnone : db.docs.get ns = none) : Writes db k ns payload.result (.written ns payload)
  | update {ns : SettingsNamespace} {payload : SettingsPut δ} {base : Nat} {doc : Document δ}
      (hwork : k.work = .put ns payload) (hbase : payload.baseRevision = some base)
      (hget : db.docs.get ns = some doc) (hrevision : doc.revision = base) :
      Writes db k ns payload.result (.written ns payload)
  | item {item : UploadSettingsDocument δ} {items : List (UploadSettingsDocument δ)}
      (hwork : k.work = .missing item items) (hnone : db.docs.get item.ns = none) :
      Writes db k item.ns item.result (.inserted item items)

/-- A transaction that holds the user's sync state appends a change. -/
inductive Appends (k : Txn δ) : Change → Work δ → Prop
  | put {ns : SettingsNamespace} {payload : SettingsPut δ} (hwork : k.work = .logging ns payload) :
      Appends k (.settingsDocument ns payload.result.revision)
        (.answered ⟨ns, payload, .ok payload.result⟩)
  | item {item : UploadSettingsDocument δ} {items : List (UploadSettingsDocument δ)}
      (hwork : k.work = .inserted item items) :
      Appends k (.settingsDocument item.ns item.result.revision) (.upload items)
  | other (hwork : k.work = .other) : Appends k .other .other

/-- A transaction that may commit, with what it answers. -/
inductive Commits (k : Txn δ) : List (Exchange δ) → Prop
  | answered {exchange : Exchange δ} (hwork : k.work = .answered exchange) : Commits k [exchange]
  | upload (hwork : k.work = .upload []) : Commits k []
  | other (hwork : k.work = .other) : Commits k []

/-- What a step can do. -/
inductive Steps (me : UserId) (db : Db δ) : Label δ → Db δ → Prop
  | put {t : TxnId} {ns : SettingsNamespace} {payload : SettingsPut δ} (hnone : db.txns t = none) :
      Steps me db (.put t ns payload) (db.setTxn t (.begun (.put ns payload)))
  | beginLocked {l : Label δ} {t : TxnId} {work : Work δ} (hnone : db.txns t = none)
      (hfree : db.syncLock = none) (hwork : work = .other ∨ ∃ items, work = .upload items) :
      Steps me db l (Db.setTxn { db with syncLock := some t } t (.begun work))
  | move {l : Label δ} {t : TxnId} {k : Txn δ} {work : Work δ} (htxn : db.txns t = some k)
      (hmoves : Moves db k work) : Steps me db l (db.setTxn t { k with work })
  | lockSyncState {t : TxnId} {k : Txn δ} {ns : SettingsNamespace} {payload : SettingsPut δ}
      (htxn : db.txns t = some k) (hwork : k.work = .written ns payload)
      (hfree : db.syncLock = none) :
      Steps me db (.lockSyncState t)
        (Db.setTxn { db with syncLock := some t } t { k with work := .logging ns payload })
  | write {l : Label δ} {t : TxnId} {k : Txn δ} {ns : SettingsNamespace} {doc : Document δ}
      {work : Work δ} (htxn : db.txns t = some k) (havailable : db.docLocks.Available t ns)
      (hwrites : Writes db k ns doc work) : Steps me db l (db.write t k ns doc work)
  | append {l : Label δ} {t : TxnId} {k : Txn δ} {createdAt : Time} {change : Change}
      {work : Work δ} (htxn : db.txns t = some k) (happends : Appends k change work) :
      Steps me db l (db.append t k me createdAt change work)
  | commit {t : TxnId} {k : Txn δ} {exchanges : List (Exchange δ)} (htxn : db.txns t = some k)
      (hcommits : Commits k exchanges) : Steps me db (.commit t) (db.commitTxn t k exchanges)
  | rollback {t : TxnId} : Steps me db (.rollback t) (db.close t)
  | purge {watermark : Nat} (hfree : db.syncLock = none) (hle : watermark ≤ db.currentRevision) :
      Steps me db (.purge watermark)
        { db with
          log := db.log.filter fun r => watermark < r.revision
          compactedRevision := max db.compactedRevision watermark }
  | fullSync :
      Steps me db .fullSync
        { db with replica := ⟨fun ns => db.docs.get ns, db.currentRevision, [], none, false⟩ }
  | expire (hbehind : db.replica.cursor < db.compactedRevision) :
      Steps me db .readState { db with replica := { db.replica with expired := true } }
  | readState (hkept : db.compactedRevision ≤ db.replica.cursor) :
      Steps me db .readState
        { db with replica := { db.replica with reading := some db.currentRevision } }
  | readRows {limit current : Nat} (hreading : db.replica.reading = some current)
      (hlimit : 0 < limit) : Steps me db (.readRows limit) (db.readRows me current limit)
  | readDocument {ns : SettingsNamespace} :
      Steps me db (.readDocument ns)
        { db with
          replica := { db.replica with
            documents := Function.update db.replica.documents ns (db.docs.get ns)
            toRead := db.replica.toRead.filter (· ≠ ns) } }

variable {me : UserId} {db db' : Db δ} {l : Label δ} {t : TxnId} {k : Txn δ}

/-- A statement of an open transaction is one of the listed steps. -/
theorem txnStep_cases (htxn : db.txns t = some k) (ht : l.txn = some t)
    (h : txnStep me db t k l = some db') : Steps me db l db' := by
  unfold txnStep at h
  split at h
  -- `find`
  · split at h
    next ns payload hwork =>
      split at h
      next hbase =>
        split at h <;> cases h
        · exact .move htxn (.found hwork ‹_›)
        · exact .move htxn (.creating hwork (Option.isNone_iff_eq_none.mp hbase))
      next => cases h
    next => cases h
  -- `insert`
  · split at h
    next ns payload hwork =>
      split at h
      next havailable =>
        split at h <;> cases h
        · exact .move htxn (.lost hwork)
        · exact .write htxn havailable (.insert hwork (Option.not_isSome_iff_eq_none.mp ‹_›))
      next => cases h
    next => cases h
  -- `update`
  · split at h
    next ns payload hwork =>
      split at h
      next base hbase =>
        split at h
        next hrevision =>
          split at h <;> cases h
          obtain ⟨doc, hget, hdoc⟩ := Option.map_eq_some_iff.mp hrevision
          exact .write htxn ‹_› (.update hwork hbase hget hdoc)
        next => cases h; exact .move htxn (.stale hwork)
      next => cases h
    next => cases h
  -- `findWinner`
  · split at h
    next ns payload hwork =>
      cases h
      split
      next doc hget => exact .move htxn (.winner hwork hget)
      next =>
        split
        · exact .move htxn (.gone hwork (Or.inr rfl))
        · exact .move htxn (.gone hwork (Or.inl rfl))
    next => cases h
  -- `lockSyncState`
  · split at h
    next ns payload hwork =>
      split at h <;> cases h
      cases ht
      exact .lockSyncState htxn hwork ‹_›
    next => cases h
  -- `appendChange`
  · split at h
    next hwork => cases h; exact .append htxn (.put hwork)
    next => cases h
  -- `findItem`
  · split at h
    next item items hwork =>
      split at h <;> cases h
      · exact .move htxn (.skip hwork)
      next hsome =>
        have hnone := Option.not_isSome_iff_eq_none.mp hsome
        exact .move htxn (.missing hwork (Option.or_eq_none_iff.mp hnone).1)
    next => cases h
  -- `insertItem`
  · split at h
    next item items hwork =>
      split at h <;> cases h
      next hboth =>
        exact .write htxn hboth.1 (.item hwork (Option.isNone_iff_eq_none.mp hboth.2))
    next => cases h
  -- `logItem`
  · split at h
    next hwork => cases h; exact .append htxn (.item hwork)
    next => cases h
  -- `appendOther`
  · split at h
    next hwork => cases h; exact .append htxn (.other hwork)
    next => cases h
  -- `commit`
  · cases ht
    split at h
    next hwork => cases h; exact .commit htxn (.answered hwork)
    next hwork => cases h; exact .commit htxn (.upload hwork)
    next hwork => cases h; exact .commit htxn (.other hwork)
    next => cases h
  -- `rollback`
  · cases ht
    cases h
    exact .rollback
  · cases h

/-- A step is one of the listed steps. -/
theorem step_cases (h : step me db l = some db') : Steps me db l db' := by
  unfold step at h
  split at h
  next t ns payload =>
    split at h <;> cases h
    exact .put (Option.isNone_iff_eq_none.mp ‹_›)
  next t items =>
    split at h <;> cases h
    next hboth =>
      exact .beginLocked (Option.isNone_iff_eq_none.mp hboth.1) hboth.2 (Or.inr ⟨items, rfl⟩)
  next t =>
    split at h <;> cases h
    next hboth =>
      exact .beginLocked (Option.isNone_iff_eq_none.mp hboth.1) hboth.2 (Or.inl rfl)
  next watermark =>
    split at h <;> cases h
    next hboth => exact .purge hboth.1 hboth.2
  next => cases h; exact .fullSync
  next =>
    split at h
    next =>
      split at h <;> cases h
      · exact .expire ‹_›
      · exact .readState (Nat.not_lt.mp ‹_›)
    next => cases h
  next limit =>
    split at h
    next current hreading =>
      split at h <;> cases h
      exact .readRows hreading ‹_›
    next => cases h
  next => cases h; exact .readDocument
  next =>
    obtain ⟨t, ht, hrest⟩ := Option.bind_eq_some_iff.mp h
    obtain ⟨k, htxn, hstep⟩ := Option.bind_eq_some_iff.mp hrest
    exact txnStep_cases htxn ht hstep

end TigerDuck.Sync.SettingsDocuments
