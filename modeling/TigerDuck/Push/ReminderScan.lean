import Mathlib.Data.Rat.Defs
import TigerDuck.Push.Pipeline
import TigerDuck.Push.ReminderRows

/-!
# The assignment reminder scan

`scan_assignment_reminders` of `server/push/reminders.py`: which reminders the stored assignments,
marks, settings and devices ask for, the jobs it files for them and the waiting jobs it cancels.
It is one transaction: one that raises leaves everything as it was.

A settings document is what an app has put there, any JSON object. What the scan calculates with
its numbers is Python's floating point, taken as a parameter: the exact value of a number goes
in, and `none` is an exception.
-/

namespace TigerDuck.Push

open AcademicCalendar Relational Sync SyncJobs

/-! ### Settings documents -/

/-- A JSON value; a number is its exact value. -/
inductive Json
  | null
  | bool (b : Bool)
  | number (q : ℚ)
  | string (s : String)
  | array (items : List Json)
  | object (members : List (String × Json))

/-- Whether Python takes the value for false. -/
def Json.falsy : Json → Bool
  | .null => true
  | .bool b => !b
  | .number q => q = 0
  | .string s => s = ""
  | .array items => items.isEmpty
  | .object members => members.isEmpty

/-- Python's floats as the scan uses them. -/
structure Floats (F : Type) where
  /-- `float(value)`; the largest whole numbers are too large. -/
  float : ℚ → Option F
  /-- `value / 60`. -/
  sixtieth : F → F
  /-- `timedelta(hours=offset)` in microseconds, when there is such a `timedelta`. -/
  hours : F → Option Int
  /-- The hours in the format `g`. -/
  format : F → String

/-- The settings the scan reads. -/
structure ScanSettings (F : Type) where
  defaultOffsets : List F
  window : Time

/-- A settings document, by its members. -/
abbrev Document := List (String × Json)

/-- The document's `assignments`: anything but an object has no `get`. -/
def assignmentsSection (document : Document) : Option Document :=
  match document.lookup "assignments" with
  | none => some []
  | some value =>
    if value.falsy then some []
    else
      match value with
      | .object members => some members
      | _ => none

/-- The numbers among the items. -/
def numbers (items : List Json) : List ℚ :=
  items.filterMap fun
    | .number q => some q
    | _ => none

/-- The list of offsets the section carries, and whether it is in minutes. -/
def offsetList (members : Document) : Option (List ℚ × Bool) :=
  match members.lookup "reminder_offsets_minutes" with
  | some (.array items) => some (numbers items, true)
  | _ =>
    match members.lookup "reminder_offsets_hours" with
    | some (.array items) => some (numbers items, false)
    | _ => none

section Prefs

variable {F : Type} (py : Floats F) (cfg : ScanSettings F)

/-- `_offsets_hours`. -/
def offsetsHours (members : Document) : Option (List F) :=
  match offsetList members with
  | some (values, true) => (values.mapM py.float).map (·.map py.sixtieth)
  | some (values, false) => values.mapM py.float
  | none => some cfg.defaultOffsets

/-- Whether the switch is on: absent means on, and anything but a Boolean is off. -/
def switchedOn (members : Document) : Bool :=
  match members.lookup "enabled" with
  | none | some (.bool true) => true
  | some _ => false

/-- `_notification_prefs`, of one user. -/
def notificationPrefs : Option Document → Option (Bool × List F)
  | none => some (true, cfg.defaultOffsets)
  | some document =>
    (assignmentsSection document).bind fun members =>
      (offsetsHours py cfg members).map fun offsets => (switchedOn members, offsets)

end Prefs

/-! ### Devices -/

inductive Platform
  | ios
  | ipados
  | macos
  | windows
  | watchos
  | wearos
  | android
  | web
  deriving DecidableEq, Repr

/-- Whether the platform is one of the `APPLE_HANDHELD_PLATFORMS`. -/
def Platform.appleHandheld : Platform → Bool
  | .ios | .ipados => true
  | _ => false

/-- A row of `device_push_tokens`. -/
structure ReminderToken where
  standard : Bool
  active : Bool
  expiresAt : Option Time
  deriving DecidableEq, Repr

/-- A row of `user_devices`, with its tokens. -/
structure ReminderDevice where
  deletedAt : Option Time
  cloudSyncEnabled : Bool
  syncAssignmentReminders : Bool
  platform : Platform
  /-- What `parse_app_version` reads. -/
  appVersion : Option (List Nat)
  tokens : List ReminderToken
  deriving DecidableEq, Repr

def BACKEND_REMINDERS_MIN_VERSION : List Nat := [2, 1, 0]

/-- `schedules_reminders_locally`. -/
def schedulesRemindersLocally (device : ReminderDevice) : Bool :=
  !device.platform.appleHandheld ||
    device.appVersion.all fun version => version < BACKEND_REMINDERS_MIN_VERSION

/-- Whether a reminder would go to the device, had it a token. -/
def ReminderDevice.takes (device : ReminderDevice) : Bool :=
  device.deletedAt.isNone && device.cloudSyncEnabled && device.syncAssignmentReminders &&
    device.platform.appleHandheld && !schedulesRemindersLocally device

/-- Whether the token can be sent to. -/
def ReminderToken.usable (now : Time) (token : ReminderToken) : Bool :=
  token.standard && token.active && token.expiresAt.all (now < ·)

/-! ### The stored data -/

/-- A user's rows, as far as the scan reads them. -/
structure Student extends UserRows where
  /-- The `notification` document that is not deleted. -/
  notification : Option Document
  devices : List ReminderDevice

def Student.empty : Student := ⟨UserRows.empty, none, []⟩

/-- `_users_with_a_recipient`, of one user. -/
def Student.hasRecipient (student : Student) (now : Time) (tokenRequired : Bool) : Bool :=
  student.devices.any fun device =>
    device.takes && (!tokenRequired || device.tokens.any (·.usable now))

structure Stored where
  students : Table UserId Student
  terms : List SemesterTerm

def Stored.student (data : Stored) (userId : UserId) : Student :=
  (data.students.get userId).getD .empty

/-! ### What the data ask for -/

/-- A reminder of an assignment: its job, and when it is to fire. -/
structure Reminder where
  fireAt : Int
  job : NewJob

namespace Reminder

/-- The key of the user's job. -/
def key (r : Reminder) : UserId × DedupeKey := (r.job.userId, r.job.dedupeKey)

end Reminder

/-- `_listed_in`. -/
def listedIn (term : Option String) (student : Student) (row : UserAssignment) : Bool :=
  row.moodleSemester.isNone || term.any fun term =>
    decide (row.moodleSemester = some term) ||
      (row.userCourseId.bind student.courses.get).any (·.semester = term)

/-- The instants a `datetime` can hold: of the years 1 to 9999. -/
def representable (t : Int) : Bool :=
  decide (-62135596800 * (SECOND : Int) ≤ t) && decide (t < 253402300800 * (SECOND : Int))

section Scan

variable {F : Type} (py : Floats F) (cfg : ScanSettings F) (data : Stored) (now : Time)

/-- Whether the scan reminds of the row. -/
def eligibleRow (student : Student) (key : AssignmentKey) (row : UserAssignment) : Bool :=
  let term := currentTermCode data.terms now
  listedIn term student row && row.deletedAt.isNone && !row.providerIsSubmitted &&
    (row.dueAt.any fun due => decide (now < due) && decide (due ≤ now + cfg.window)) &&
    !student.marked row && !(student.ignoredCourses term).has key row

/-- The assignments it reminds of. -/
def eligible : List (UserId × AssignmentKey × UserAssignment) :=
  data.students.rows.flatMap fun (userId, student) =>
    (student.assignments.select (eligibleRow cfg data now student)).map (userId, ·)

/-- `_dedupe_key`. -/
def reminderKey (id : MoodleId) (offset : F) (due : Time) : DedupeKey :=
  .reminder id (py.format offset ++ "h") (dueSeconds due)

/-- `due_at - timedelta(hours=offset)`. -/
def fireTime (due : Time) (offset : F) : Option Int :=
  (py.hours offset).bind fun ahead =>
    if representable (due - ahead) then some (due - ahead) else none

/-- The row filed for an assignment. -/
def reminderJob (userId : UserId) (key : AssignmentKey) (row : UserAssignment) (due : Time)
    (offset : F) (fireAt : Int) : NewJob where
  userId
  deviceId := none
  dedupeKey := reminderKey py key.moodleAssignmentId offset due
  channel := .assignment
  scenario := .reminder (py.format offset ++ "h")
  payload :=
    { activityEnd := false
      activityId := none
      sessionReauth := false
      forced := false
      sourceDeviceId := none
      assignmentTitle := some row.title
      moodleAssignmentId := some key.moodleAssignmentId
      dueEpoch := some (dueSeconds due) }
  fireAt := fireAt.toNat
  priority := 100

/-- The reminders of one assignment, whenever they fire: none for a user who has switched them
off or has no device that could ever take them. -/
def remindersOf : UserId × AssignmentKey × UserAssignment → Option (List Reminder)
  | (userId, key, row) =>
    let student := data.student userId
    (notificationPrefs py cfg student.notification).bind fun (enabled, offsets) =>
      if enabled && (student.hasRecipient now true || student.hasRecipient now false) then
        offsets.mapM fun offset =>
          let due := row.dueAt.getD 0
          (fireTime py due offset).map fun fireAt =>
            { fireAt, job := reminderJob py userId key row due offset fireAt }
      else some []

/-! ### The scan -/

/-- A waiting reminder job that no other transaction holds. -/
def pendingReminder (skip : JobId → Bool) (k : JobId) (job : PushJob) : Bool :=
  !skip k && decide (job.channel = .assignment) && decide (job.status = .pending)

/-- What the scan did. -/
structure Scanned where
  db : Db
  created : Nat
  cancelled : Nat
  upgraded : Nat

/-- The reminders that are still to fire. -/
def ahead (reminders : List Reminder) : List Reminder :=
  reminders.filter fun r => decide ((now : Int) < r.fireAt)

/-- The payload a job would be filed with today, if it carries finished copy. -/
def upgrade (reminders : List Reminder) (job : PushJob) : Option Payload :=
  if job.payload.assignmentTitle = none then
    ((ahead now reminders).reverse.find? fun r => r.key = (job.userId, job.dedupeKey)).map
      fun r => r.job.payload
  else none

/-- Whether the data still ask for the job. -/
def isValid (reminders : List Reminder) (job : PushJob) : Bool :=
  (reminders.map Reminder.key).contains (job.userId, job.dedupeKey)

/-- A waiting job after the scan. -/
def settledJob (reminders : List Reminder) (job : PushJob) : PushJob :=
  if isValid reminders job then
    (upgrade now reminders job).elim job fun payload => { job with payload }
  else job.cancel now

/-- File what is missing, cancel what is not wanted, and give old jobs today's payload. -/
def settle (reminders : List Reminder) (skip : JobId → Bool) (db : Db) : Scanned :=
  let reachable (r : Reminder) := (data.student r.job.userId).hasRecipient now true
  let filed := db.fileJobs now (((ahead now reminders).filter reachable).map (·.job))
  let waiting := db.jobs.select (pendingReminder skip)
  { db := filed.modifyJobs fun k job =>
      if (waiting.map Prod.fst).contains k then settledJob now reminders job else job
    created := filed.nextJob - db.nextJob
    cancelled := (waiting.filter fun w => !isValid reminders w.2).length
    upgraded := (waiting.filter fun w =>
      isValid reminders w.2 && (upgrade now reminders w.2).isSome).length }

/-- `scan_assignment_reminders`. -/
def scanAssignmentReminders (skip : JobId → Bool) (db : Db) : Option Scanned :=
  let eligible := eligible cfg data now
  let waiting := db.jobs.select (pendingReminder skip)
  let userIds := eligible.map (·.1) ++ waiting.map (·.2.userId)
  if userIds = [] then some ⟨db, 0, 0, 0⟩
  else
    (userIds.mapM fun userId =>
        notificationPrefs py cfg (data.student userId).notification).bind fun _ =>
      (eligible.mapM (remindersOf py cfg data now)).map fun reminders =>
        settle data now reminders.flatten skip db

end Scan

end TigerDuck.Push
