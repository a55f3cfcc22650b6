import TigerDuck.Sync.Changelog
import TigerDuck.Sync.Marks

/-!
# The merge of the apps' placeholders

The data migration `merge_assignment_upload_placeholders`: an app's upload of an assignment went to
a placeholder under course id 0, beside the row that a fetch keeps under the real course id. The
merge folds each placeholder into the server's row of its assignment. Its statements run one after
the other in one transaction, each on what the ones before it left.

The rows of all users are in one table under their ids, with what the schema and every insert
promise of them as the field of a `Database`. `now` is the time of the transaction, and a time is
counted from the earliest one a column holds. A user without a `user_sync_state` row reads as one
whose revisions are zero, so the row is kept as its two numbers.

`fullSync` is what `GET /sync/full` sends of the two tables: the live assignments, and the marks and
notes with the assignment each is keyed by (`server/routes/sync/snapshot.py`).
-/

namespace TigerDuck.Sync.PlaceholderMerge

open Relational Changelog
open SyncJobs (MoodleId ProviderFields)

/-! ### The database -/

/-- A row of `user_assignments`, as `/sync/full` reads it. -/
structure AssignmentRow extends ProviderFields where
  userId : UserId
  userCourseId : Option Nat
  moodleCourseId : MoodleId
  moodleAssignmentId : MoodleId
  courseNo : Option String
  providerIsSubmitted : Bool
  providerSubmittedAt : Option Time
  providerGradingStatus : Option String
  providerGrade : Option String
  deletedAt : Option Time
  updatedAt : Time
  deriving DecidableEq, Repr

/-- A row of `user_assignment_overrides`. -/
structure OverrideRow where
  userId : UserId
  userAssignmentId : Nat
  localStatus : Field AssignmentLocalStatus
  localStatusReceivedAt : Option Time
  note : Field (Option String)
  updatedAt : Time
  deriving DecidableEq, Repr

/-- A change entry of the merge, with the server row's id. -/
inductive MergeEntry
  | assignment (id : Nat)
  | assignmentOverride (id : Nat)
  deriving DecidableEq, Repr

/-- The tables the merge reads and writes. -/
structure Tables where
  assignments : Table Nat AssignmentRow
  overrides : Table Nat OverrideRow
  states : UserId → UserSyncState
  log : List (UserChangeLog MergeEntry)
  /-- The next value of the log's sequence. -/
  nextRevision : Nat

/-- What the keys of the two tables promise, and every insert of an override: it is one of the
assignment's own user. -/
structure Constraints (t : Tables) : Prop where
  /-- `user_id`, `moodle_course_id` and `moodle_assignment_id` are a key. -/
  assignment_key : ∀ i j a b, t.assignments.get i = some a → t.assignments.get j = some b →
    a.userId = b.userId → a.moodleCourseId = b.moodleCourseId →
      a.moodleAssignmentId = b.moodleAssignmentId → i = j
  /-- `user_id` and `user_assignment_id` are a key. -/
  override_key : ∀ i j o o', t.overrides.get i = some o → t.overrides.get j = some o' →
    o.userAssignmentId = o'.userAssignmentId → i = j
  override_owner : ∀ i o, t.overrides.get i = some o →
    ∃ a, t.assignments.get o.userAssignmentId = some a ∧ a.userId = o.userId

/-- A database as the constraints keep it. -/
structure Database extends Tables where
  constraints : Constraints toTables

section Queries

variable (t : Tables)

/-- The override of an assignment. -/
def Tables.overrideOf (id : Nat) : Option OverrideRow :=
  (t.overrides.rows.find? fun r => r.2.userAssignmentId = id).map (·.2)

/-- The server rows of a user's assignment. -/
def Tables.serverRows (userId : UserId) (moodleId : MoodleId) : List (Nat × AssignmentRow) :=
  t.assignments.select fun _ s =>
    s.userId = userId && s.moodleAssignmentId = moodleId && s.moodleCourseId ≠ 0

/-- When the last of the deleted server rows went. -/
def Tables.lastGone (userId : UserId) (moodleId : MoodleId) : Option Time :=
  ((t.serverRows userId moodleId).filterMap (·.2.deletedAt)).max?

/-- When a mark reached the server. -/
def OverrideRow.received (o : OverrideRow) : Time := o.localStatusReceivedAt.getD o.updatedAt

/-- `GREATEST`, which passes over a null. -/
def greatest (deletedAt : Option Time) (received : Time) : Time := deletedAt.elim received (max received)

/-! ### `GET /sync/full` -/

/-- An entry of `assignment_overrides`. -/
structure ShownOverride where
  userAssignmentId : Nat
  moodleAssignmentId : Option MoodleId
  localStatus : AssignmentLocalStatus
  localStatusUpdatedAt : Option Time
  note : Option String
  noteUpdatedAt : Option Time
  deriving DecidableEq, Repr

/-- The sections of the snapshot that the two tables are in. -/
structure FullSync where
  assignments : List (Nat × AssignmentRow)
  assignmentOverrides : List ShownOverride
  deriving DecidableEq, Repr

/-- The user's assignments that are not deleted. -/
def Tables.liveRows (userId : UserId) : List (Nat × AssignmentRow) :=
  t.assignments.select fun _ a => a.userId = userId && a.deletedAt.isNone

/-- The user's overrides. -/
def Tables.userOverrides (userId : UserId) : List (Nat × OverrideRow) :=
  t.overrides.select fun _ o => o.userId = userId

/-- `_hidden_since_received`. -/
def Tables.hiddenSinceReceived (o : OverrideRow) (row : AssignmentRow) : Bool :=
  (t.lastGone row.userId row.moodleAssignmentId).any fun gone =>
    decide (greatest row.deletedAt o.received < gone)

/-- `_marked_at` of one override is after that of another. -/
def markedAfter (o kept : Nat × OverrideRow) : Bool :=
  decide (bound kept.2.localStatus.updatedAt < bound o.2.localStatus.updatedAt) ||
    (kept.2.localStatus.updatedAt = o.2.localStatus.updatedAt && kept.1 < o.1)

/-- One round of `_keys_for_marks_on_deleted_rows`. -/
def Tables.keepNewest (userId : UserId) (newest : Table MoodleId (Nat × OverrideRow))
    (o : Nat × OverrideRow) : Table MoodleId (Nat × OverrideRow) :=
  match t.assignments.get o.2.userAssignmentId with
  | none => newest
  | some row =>
    if row.userId ≠ userId || row.deletedAt.isNone ||
        (t.liveRows userId).any (·.2.moodleAssignmentId = row.moodleAssignmentId) ||
        t.hiddenSinceReceived o.2 row then newest
    else if ((newest.get row.moodleAssignmentId).all fun kept => markedAfter o kept) then
      newest.set row.moodleAssignmentId o
    else newest

/-- `_keys_for_marks_on_deleted_rows`. -/
def Tables.keysForMarksOnDeletedRows (userId : UserId) : Table MoodleId (Nat × OverrideRow) :=
  (t.userOverrides userId).foldl (t.keepNewest userId) Table.empty

/-- The assignment an override is keyed by. -/
def Tables.keyOf (userId : UserId) (o : OverrideRow) : Option MoodleId :=
  let keyed := (t.keysForMarksOnDeletedRows userId).rows.find?
    (·.2.2.userAssignmentId = o.userAssignmentId)
  (keyed.map (·.1)).or (((t.liveRows userId).find? (·.1 = o.userAssignmentId)).map
    (·.2.moodleAssignmentId))

/-- What `_read_full_snapshot` reads of the two tables. -/
def Tables.fullSync (userId : UserId) : FullSync where
  assignments := t.liveRows userId
  assignmentOverrides := (t.userOverrides userId).map fun (_, o) =>
    { userAssignmentId := o.userAssignmentId
      moodleAssignmentId := t.keyOf userId o
      localStatus := o.localStatus.value
      localStatusUpdatedAt := o.localStatus.updatedAt
      note := o.note.value
      noteUpdatedAt := o.note.updatedAt }

/-! ### The pairs -/

/-- A row of `placeholder_merges`. -/
structure Pair where
  placeholderId : Nat
  serverId : Nat
  keep : Bool
  deriving DecidableEq, Repr

/-- The server row of a placeholder: live rows first, then by id. -/
def Tables.serverRow (p : AssignmentRow) : Option Nat :=
  let rows := t.serverRows p.userId p.moodleAssignmentId
  ((rows.filter (·.2.deletedAt.isNone)).map (·.1)).min?.or (rows.map (·.1)).min?

/-- Whether the server row's override settles the placeholder's mark. -/
def settles (so po : OverrideRow) : Bool :=
  so.localStatus.value ≠ .none || decide (bound po.localStatus.updatedAt ≤ bound so.localStatus.updatedAt)

/-- The mark is one that `/sync/full` no longer keys, and the server row's override settles
nothing. -/
def Tables.keep (p : AssignmentRow) (serverId : Nat) (po : Option OverrideRow) : Bool :=
  po.any fun po =>
    p.deletedAt.isSome && po.localStatus.value ≠ .none &&
      !((t.overrideOf serverId).any fun so => settles so po) &&
      ((t.serverRows p.userId p.moodleAssignmentId).any (·.2.deletedAt.isNone) ||
        (t.lastGone p.userId p.moodleAssignmentId).any fun gone =>
          decide (greatest p.deletedAt po.received < gone))

/-- `_PAIRS`. -/
def Tables.pairs : List Pair :=
  t.assignments.rows.filterMap fun (id, p) =>
    if p.moodleCourseId = 0 then
      (t.serverRow p).map fun serverId => ⟨id, serverId, t.keep p serverId (t.overrideOf id)⟩
    else none

end Queries

/-! ### The statements -/

/-- A row of `placeholder_merge_changes`. -/
structure Change where
  userId : UserId
  serverId : Nat
  override : Bool
  deriving DecidableEq, Repr

/-- The tables between two statements, and what is to be logged. -/
structure Merge where
  tables : Tables
  changes : List Change

/-- `UPDATE user_assignments … RETURNING`, its rows recorded. -/
def Merge.updateAssignments (m : Merge) (f : Nat → AssignmentRow → Option AssignmentRow) : Merge where
  tables := { m.tables with assignments := m.tables.assignments.update f }
  changes := m.changes ++
    (m.tables.assignments.updated f).map fun (id, s) => ⟨s.userId, id, false⟩

/-- `UPDATE user_assignment_overrides … RETURNING`, its rows recorded. -/
def Merge.updateOverrides (m : Merge) (f : OverrideRow → Option OverrideRow) : Merge where
  tables := { m.tables with overrides := m.tables.overrides.update fun _ => f }
  changes := m.changes ++
    (m.tables.overrides.updated fun _ => f).map fun (_, o) => ⟨o.userId, o.userAssignmentId, true⟩

section Statements

variable (now : Time) (ps : List Pair)

/-- The pair of a server row. -/
def pairOf (serverId : Nat) : Option Pair := ps.find? (·.serverId = serverId)

/-- The submission of a placeholder on its server row. -/
def submitted (p s : AssignmentRow) : Option AssignmentRow :=
  if p.providerIsSubmitted && !s.providerIsSubmitted then
    some { s with
      providerIsSubmitted := true
      providerSubmittedAt := s.providerSubmittedAt.or p.providerSubmittedAt
      updatedAt := now }
  else none

/-- `_FOLD_SUBMISSION`. -/
def foldSubmission (m : Merge) : Merge :=
  m.updateAssignments fun id s => (pairOf ps id).bind fun pair =>
    (m.tables.assignments.get pair.placeholderId).bind fun p => submitted now p s

/-- The grade of a placeholder on its server row. -/
def graded (p s : AssignmentRow) : Option AssignmentRow :=
  if p.providerGrade.isSome && s.providerGrade.isNone then
    some { s with providerGrade := p.providerGrade, updatedAt := now }
  else none

/-- `_FOLD_GRADE`. -/
def foldGrade (m : Merge) : Merge :=
  m.updateAssignments fun id s => (pairOf ps id).bind fun pair =>
    (m.tables.assignments.get pair.placeholderId).bind fun p => graded now p s

/-- The later mark, when it is the placeholder's. -/
def marked (po so : OverrideRow) : Option OverrideRow :=
  if bound so.localStatus.updatedAt < bound po.localStatus.updatedAt then
    some { so with
      localStatus := po.localStatus
      localStatusReceivedAt := po.localStatusReceivedAt
      updatedAt := now }
  else none

/-- `_MERGE_MARK`. -/
def mergeMark (m : Merge) : Merge :=
  m.updateOverrides fun so => (pairOf ps so.userAssignmentId).bind fun pair =>
    if pair.keep then none
    else (m.tables.overrideOf pair.placeholderId).bind fun po => marked now po so

/-- Whether the placeholder's note is the later one, or the only one. -/
def noteWins (po so : OverrideRow) : Bool :=
  (po.note.value.isSome || po.note.updatedAt.isSome) &&
    ((so.note.value.isNone && so.note.updatedAt.isNone) ||
      decide (bound so.note.updatedAt < bound po.note.updatedAt))

/-- The placeholder's note on the server row. -/
def noted (po so : OverrideRow) : Option OverrideRow :=
  if noteWins po so then some { so with note := po.note, updatedAt := now } else none

/-- `_MERGE_NOTE`. -/
def mergeNote (m : Merge) : Merge :=
  m.updateOverrides fun so => (pairOf ps so.userAssignmentId).bind fun pair =>
    if pair.keep then none
    else (m.tables.overrideOf pair.placeholderId).bind fun po => noted now po so

/-- `_MOVE_OVERRIDE`. -/
def moveOverride (m : Merge) : Merge :=
  m.updateOverrides fun po => (ps.find? (·.placeholderId = po.userAssignmentId)).bind fun pair =>
    if pair.keep || (m.tables.overrideOf pair.serverId).isSome then none
    else some { po with userAssignmentId := pair.serverId }

/-- Whether the merge deletes the row. -/
def drops (id : Nat) : Bool := ps.any fun pair => pair.placeholderId = id && !pair.keep

/-- `_DROP_PLACEHOLDERS`, and the overrides that go with the rows. -/
def dropPlaceholders (m : Merge) : Merge :=
  { m with
    tables :=
      { m.tables with
        assignments := m.tables.assignments.deleteWhere fun id _ => drops ps id
        overrides := m.tables.overrides.deleteWhere fun _ o => drops ps o.userAssignmentId } }

/-- The entry of a user: an override's if one was changed. -/
def entryOf (changes : List Change) (userId : UserId) : MergeEntry :=
  let own := changes.filter (·.userId = userId)
  match ((own.filter (·.override)).map (·.serverId)).min? with
  | some id => .assignmentOverride id
  | none => .assignment (((own.map (·.serverId)).min?).getD 0)

/-- The rows `_LOG_CHANGES` appends: one per user. -/
def appended (m : Merge) : List (UserChangeLog MergeEntry) :=
  ((m.changes.map (·.userId)).dedup.zipIdx).map fun (userId, i) =>
    ⟨m.tables.nextRevision + i, userId, now, entryOf m.changes userId⟩

/-- `_LOG_CHANGES`. -/
def logChanges (m : Merge) : Tables :=
  { m.tables with
    states := bump m.tables.states (appended now m)
    log := m.tables.log ++ appended now m
    nextRevision := m.tables.nextRevision + (appended now m).length }

end Statements

/-- The statements before the log. -/
def merged (now : Time) (t : Tables) : Merge :=
  let ps := t.pairs
  dropPlaceholders ps (moveOverride ps (mergeNote now ps (mergeMark now ps
    (foldGrade now ps (foldSubmission now ps ⟨t, []⟩)))))

/-- `upgrade`. -/
def upgrade (now : Time) (t : Tables) : Tables := logChanges now (merged now t)

end TigerDuck.Sync.PlaceholderMerge
