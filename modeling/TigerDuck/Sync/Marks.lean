import TigerDuck.Sync.InitialUpload
import TigerDuck.SyncJobs.AssignmentUploads

/-!
# Assignment marks, holiday overrides and the initial upload

The other stamped settings of a user: the mark and the note of an assignment, written by the
override PATCH (`patch_assignment_override`, `server/routes/overrides.py`), the academics PUT
(`put_assignment_override`, `server/routes/academics.py`) and the initial upload, and the holiday
exceptions of `server/routes/holiday_overrides.py`. `processInitialUpload` puts the sections of the
initial upload together. Each holds the user's sync lock, so each is one step on the rows.

When a mark reached the server (`updated_at`, `local_status_received_at`), which `/sync/full`
compares with its fetches, is no stamp of an edit and is left out.
-/

namespace TigerDuck.Sync

open Relational SyncJobs

/-- `AssignmentLocalStatus`. -/
inductive AssignmentLocalStatus
  | none
  | locallyCompleted
  | ignored
  | archived
  deriving DecidableEq, Repr

/-- The status a name stands for. -/
def AssignmentLocalStatus.parse (value : String) : Option AssignmentLocalStatus :=
  if value = "none" then some .none
  else if value = "locally_completed" then some .locallyCompleted
  else if value = "ignored" then some .ignored
  else if value = "archived" then some .archived
  else Option.none

/-- A row of `user_assignment_overrides`. -/
structure UserAssignmentOverride where
  localStatus : Field AssignmentLocalStatus
  note : Field (Option String)
  deriving DecidableEq, Repr

/-- The row `session.add` inserts before any field is set. -/
def UserAssignmentOverride.blank : UserAssignmentOverride := ⟨Field.unset .none, Field.unset none⟩

/-- The overrides of a user's assignments, by `user_assignments.id`. -/
abbrev Marks := Table Nat UserAssignmentOverride

/-- The override of the row, or the blank one a first edit adds. -/
def markOf (marks : Marks) (rowId : Nat) : UserAssignmentOverride :=
  (marks.get rowId).getD UserAssignmentOverride.blank

/-! ### The override PATCH -/

/-- An `AssignmentOverrideRequest`. -/
structure AssignmentOverrideRequest where
  localStatus : AssignmentLocalStatus
  hlc : Option Time
  ageMs : Option Int
  deriving DecidableEq, Repr

/-- What the PATCH answers of the row the apps see. -/
structure AssignmentOverrideAnswer where
  localStatus : AssignmentLocalStatus
  localStatusHlc : Option Time
  applied : Bool
  changed : Bool
  deriving DecidableEq, Repr

/-- `_get_assignment_by_moodle_id`: live rows first, then those under a real course. -/
def getAssignmentByMoodleId (rows : Assignments) (id : MoodleId) : Option UserAssignment :=
  (firstRows initialRank rows id).bind rows.get

/-- The rows a mark goes to: the row the apps see, or for a clear every row of the assignment. -/
def markedRows (rows : Assignments) (id : MoodleId) (assignment : UserAssignment)
    (status : AssignmentLocalStatus) : List Nat :=
  if status = .none then (rows.select fun k _ => k.moodleAssignmentId = id).map (·.2.id)
  else [assignment.id]

/-- Mark one row. -/
def setMark (deviceId : Option DeviceId) (now : Time) (status : AssignmentLocalStatus)
    (stamp : Time) (marks : Marks) (rowId : Nat) : Marks :=
  let mark := markOf marks rowId
  marks.set rowId
    { mark with localStatus := (applyField mark.localStatus status stamp deviceId now).1 }

/-- `patch_assignment_override` once the assignment is found. -/
def markAssignment (rows : Assignments) (marks : Marks) (deviceId : Option DeviceId) (now : Time)
    (id : MoodleId) (payload : AssignmentOverrideRequest) (assignment : UserAssignment)
    (stamp : Time) : Marks × AssignmentOverrideAnswer :=
  let rowIds := markedRows rows id assignment payload.localStatus
  let marks' := rowIds.foldl (setMark deviceId now payload.localStatus stamp) marks
  let target := (markOf marks' assignment.id).localStatus
  (marks',
    { localStatus := target.value
      localStatusHlc := target.updatedAt
      applied := target.value = payload.localStatus
      changed := rowIds.any fun rowId =>
        (applyField (markOf marks rowId).localStatus payload.localStatus stamp deviceId now).2 })

/-- `patch_assignment_override`; the /v4 form is the one of an app that stamps its edits. -/
def patchAssignmentOverride (rows : Assignments) (marks : Marks) (deviceId : Option DeviceId)
    (speaksClock : Bool) (now : Time) (id : MoodleId) (payload : AssignmentOverrideRequest) :
    Except HttpError (Marks × AssignmentOverrideAnswer) := do
  requireStamp speaksClock payload.hlc payload.ageMs
  let stamp ← editTime payload.hlc now payload.ageMs
  match getAssignmentByMoodleId rows id with
  | none => throw ⟨404, "assignment_not_found"⟩
  | some assignment =>
    return markAssignment rows marks deviceId now id payload assignment stamp

/-! ### The academics PUT -/

/-- An `AssignmentOverridePut`: a time marks an edit of its field. -/
structure AssignmentOverridePut where
  localStatus : Option String
  localStatusUpdatedAt : Option Time
  note : Option String
  noteUpdatedAt : Option Time
  deriving DecidableEq, Repr

/-- The status the PUT edits to, if it edits it. -/
def AssignmentOverridePut.status (payload : AssignmentOverridePut) :
    Except HttpError (Option (AssignmentLocalStatus × Time)) :=
  match payload.localStatusUpdatedAt with
  | none => .ok none
  | some ts =>
    match payload.localStatus.bind AssignmentLocalStatus.parse with
    | some status => .ok (some (status, ts))
    | none => .error ⟨422,
        "local_status must be one of ['archived', 'ignored', 'locally_completed', 'none']"⟩

/-- The mark after the PUT's edits. -/
def putMark (mark : UserAssignmentOverride) (deviceId : Option DeviceId) (now : Time)
    (status : Option (AssignmentLocalStatus × Time)) (note : Option String)
    (noteUpdatedAt : Option Time) : UserAssignmentOverride where
  localStatus := status.elim mark.localStatus fun s =>
    (applyField mark.localStatus s.1 s.2 deviceId now).1
  note := noteUpdatedAt.elim mark.note fun ts => (applyField mark.note note ts deviceId now).1

/-- `put_assignment_override` of a row that is not deleted. `now` is read under the lock. -/
def putAssignmentOverride (rows : Assignments) (marks : Marks) (deviceId : Option DeviceId)
    (now : Time) (rowId : Nat) (payload : AssignmentOverridePut) :
    Except HttpError (Marks × UserAssignmentOverride) := do
  if !rows.rows.any (fun r => r.2.id = rowId && r.2.deletedAt.isNone) then
    throw ⟨404, "assignment not found"⟩
  let status ← payload.status
  let mark := putMark (markOf marks rowId) deviceId now status payload.note payload.noteUpdatedAt
  return (marks.set rowId mark, mark)

/-! ### Holiday overrides -/

/-- An `academic_holidays.id`. -/
abbrev HolidayId := Int

/-- The user's exceptions. A row has no column for the device that set it. -/
abbrev Holidays := Table HolidayId (Field Bool)

/-- A `HolidayOverrideRequest`. -/
structure HolidayOverrideRequest where
  notify : Bool
  hlc : Option Time
  ageMs : Option Int
  deriving DecidableEq, Repr

/-- A `HolidayOverrideSet`. -/
structure HolidayOverrideSet where
  holidayId : HolidayId
  notify : Bool
  hlc : Option Time
  applied : Bool
  deriving DecidableEq, Repr

/-- The setting with the latest stamp. A new row holds none before its first edit. -/
def setHoliday (holidays : Holidays) (id : HolidayId) (notify : Bool) (stamp now : Time) :
    Field Bool :=
  (applyField ((holidays.get id).getD (Field.unset true)) notify stamp none now).1

/-- `set_override`. `listed` says whether the calendar has the holiday. -/
def setOverride (holidays : Holidays) (speaksClock : Bool) (now : Time) (listed : Bool)
    (id : HolidayId) (payload : HolidayOverrideRequest) :
    Except HttpError (Holidays × HolidayOverrideSet) := do
  requireStamp speaksClock payload.hlc payload.ageMs
  if !listed then throw ⟨404, "holiday_not_found"⟩
  let stamp ← editTime payload.hlc now payload.ageMs
  let existing := setHoliday holidays id payload.notify stamp now
  return (holidays.set id existing,
    ⟨id, existing.value, existing.updatedAt, existing.value = payload.notify⟩)

/-! ### The initial upload -/

/-- A mark in the initial upload. -/
structure UploadAssignmentOverride where
  moodleAssignmentId : MoodleId
  localStatus : Option AssignmentLocalStatus
  localStatusUpdatedAt : Option Time
  note : Option String
  noteUpdatedAt : Option Time
  deriving DecidableEq, Repr

/-- The edits of one uploaded mark: a value without a time counts as the oldest. -/
def UploadAssignmentOverride.apply (item : UploadAssignmentOverride)
    (mark : UserAssignmentOverride) (deviceId : Option DeviceId) (now : Time) :
    UserAssignmentOverride where
  localStatus := item.localStatus.elim mark.localStatus fun status =>
    (applyField mark.localStatus status (item.localStatusUpdatedAt.getD OLDEST) deviceId now).1
  note := item.note.elim mark.note fun note =>
    (applyField mark.note (some note) (item.noteUpdatedAt.getD OLDEST) deviceId now).1

/-- One mark, on the row the upload takes for its assignment. -/
def uploadMark (upload : Upload) (deviceId : Option DeviceId) (now : Time) (marks : Marks)
    (item : UploadAssignmentOverride) : Marks :=
  match (upload.byAssignment item.moodleAssignmentId).bind upload.rows.get with
  | none => marks
  | some row => marks.set row.id (item.apply (markOf marks row.id) deviceId now)

/-- An `InitialUploadRequest`, without the lists that carry no stamp. -/
structure InitialUploadRequest where
  courses : List UploadCourse
  courseOverrides : List UploadCourseOverride
  assignments : List UploadAssignment
  assignmentOverrides : List UploadAssignmentOverride

/-- The rows of one user that carry the stamps of edits, and the assignments marks belong to. -/
structure UserEdits where
  sync : UserSync
  assignments : Assignments
  /-- The next `user_assignments.id`. -/
  nextAssignmentId : Nat
  marks : Marks
  holidays : Holidays

/-- A user with the given assignments who has never synced. -/
def UserEdits.fresh (assignments : Assignments) (nextAssignmentId : Nat) : UserEdits :=
  ⟨.fresh, assignments, nextAssignmentId, Table.empty, Table.empty⟩

/-- `process_initial_upload`. `now` is read before it waits for the sync lock. -/
def processInitialUpload (s : UserEdits) (deviceId : Option DeviceId) (now : Time)
    (payload : InitialUploadRequest) : UserEdits :=
  let upload := importAssignments now payload.assignments s.assignments s.nextAssignmentId
  { s with
    sync := (initialUpload s.sync deviceId now payload.courses payload.courseOverrides).1
    assignments := upload.rows
    nextAssignmentId := upload.nextId
    marks := payload.assignmentOverrides.foldl (uploadMark upload deviceId now) s.marks }

end TigerDuck.Sync
