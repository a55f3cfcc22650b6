import TigerDuck.AcademicCalendar.CourseChanges
import TigerDuck.Push.ClassMeetings
import TigerDuck.Push.ReminderScan

/-!
# The class reminder scan and the check before a class reminder goes out

`scan_course_reminders` of `server/push/course_reminders.py`: which reminders the courses, the
course changes, the school's calendar and the users' settings ask for, the ones it files and the
waiting jobs it cancels. And `recheck_class_reminder`, which the pipeline asks before the first
delivery of one.

The scan is one transaction: one that raises leaves everything as it was, and `none` stands for it.
The school's zone is a whole number of seconds from UTC, as every zone of the tz database is, and
the clock is past 1970. Left out are the logs and the counts, and which jobs another transaction
holds: `waiting` are the pending ones the scan can lock.
-/

namespace TigerDuck.Push

open AcademicCalendar Relational Sync

/-! ### What the scan reads -/

/-- A row of `user_courses` with its override. -/
structure ClassCourse where
  userId : UserId
  courseNo : Option String
  courseKey : String
  semester : String
  /-- Whether `source` is `ntust_portal`. -/
  fromPortal : Bool
  /-- Whether `enrollment_status` is `enrolled`. -/
  enrolled : Bool
  schedule : ScheduleJson
  classroom : Option String
  courseName : String
  /-- The override's `custom_name`. -/
  customName : Option String

/-- A user's settings, devices and holidays put back. -/
structure ClassStudent where
  /-- The `notification` document that is not deleted. -/
  notification : Option Document
  devices : List ReminderDevice
  optedIn : List Nat

/-- `chk_course_change_start`: a new start has its time. -/
def StartChecked (columns : Columns) : Prop :=
  columns.kind = .startTime → ∃ raw, columns.startTime = some raw ∧ isHHMM raw = true

/-- The stored rows. -/
structure ClassData where
  courses : Table Nat ClassCourse
  students : Table UserId ClassStudent
  /-- The dates skipped, by course, that are not deleted. -/
  skipped : List (Nat × Day)
  /-- The holidays' ids, first and last days. -/
  holidays : List (Nat × Day × Day)
  /-- The terms, the course changes and the schedules they are loaded with. -/
  calendar : AcademicCalendar.Db
  /-- The check constraint of `course_changes`. -/
  checked : ∀ id change, calendar.changes.get id = some change → StartChecked change.columns

def ClassData.student (data : ClassData) (userId : UserId) : ClassStudent :=
  (data.students.get userId).getD ⟨none, [], []⟩

/-- Python's floats as the scan uses them. -/
structure ClassFloats (F : Type) where
  /-- `float(value)`; the largest whole numbers are too large. -/
  float : ℚ → Option F
  /-- `timedelta(minutes=offset)` in microseconds, when there is such a `timedelta`. -/
  minutes : F → Option Int
  /-- The minutes in the format `g`. -/
  format : F → String

/-- The settings the scan and the check read. -/
structure ClassSettings (F : Type) where
  defaultOffsets : List F
  window : Time
  /-- The school's zone, in seconds from UTC. -/
  utcOffset : Int
  periodTimes : PeriodTimes

/-- The school's zone. -/
def ClassSettings.tz {F : Type} (cfg : ClassSettings F) : Int := cfg.utcOffset * SECOND

/-! ### One meeting -/

/-- The changes to a course's meeting; a course without a number has none. -/
def changesOf (changes : List Row) (course : ClassCourse) (day : Day) (period : String) :
    Table Kind Row :=
  match course.courseNo with
  | some courseNo =>
    if courseNo = "" then Table.empty
    else meetingChanges changes course.semester courseNo day period
  | none => Table.empty

/-- The minute of the day a changed start names. -/
def changedStart (row : Row) : Option Nat :=
  match row.change.columns.startTime.map clock with
  | some (.minute m) => some m
  | _ => none

/-- `changed_meeting`: the start and room as the changes leave them, and nothing when cancelled. -/
def changedMeeting (tz : Int) (changes : List Row) (course : ClassCourse) (occurrence : Int)
    (period : String) : Option (Option (Int × Option String)) :=
  let day := dayOf tz occurrence
  let changed := changesOf changes course day period
  if (changed.get .cancelled).isSome then some none
  else
    let room := (changed.get .room).elim course.classroom (·.change.columns.room)
    match changed.get .startTime with
    | some row => (changedStart row).map fun m => some (combine tz day m, room)
    | none => some (some (occurrence, room))

/-- `%H:%M`, in the school's zone. -/
def clockText (tz start : Int) : String :=
  let m := ((start + tz) % DAY / MINUTE).toNat
  zeroPadded 2 (m / 60) ++ ":" ++ zeroPadded 2 (m % 60)

/-- `_reminder_body`. -/
def reminderBody (tz start : Int) (room : Option String) : String :=
  " · ".intercalate ([some (clockText tz start), room].filterMap (·.filter (· ≠ "")))

/-- The payload of a class reminder's job. -/
structure ClassPayload (F : Type) where
  /-- Absent from a job filed with finished copy. -/
  courseName : Option String
  body : String
  semester : String
  courseKey : String
  userCourseId : Option Nat
  startsAt : Int
  startEpoch : Option Int
  offset : F

/-- A reminder, whenever it fires. -/
structure ClassReminder (F : Type) where
  userId : UserId
  dedupeKey : DedupeKey
  fireAt : Int
  payload : ClassPayload F

/-- The key of the user's job. -/
def ClassReminder.key {F : Type} (r : ClassReminder F) : UserId × DedupeKey :=
  (r.userId, r.dedupeKey)

/-! ### The calendar -/

/-- `load_term_dates`. -/
def termDates (data : ClassData) : List (Day × Day) :=
  data.calendar.terms.rows.map fun r => (r.2.startDate, r.2.endDate)

/-- `outside_term`. -/
def outsideTerm (day : Day) (terms : List (Day × Day)) : Bool :=
  !terms.isEmpty && !terms.any fun term => term.1 ≤ day && day ≤ term.2

/-- The term that is current on a local day, asked at noon. -/
def termOn (data : ClassData) (tz : Int) (day : Day) : Option String :=
  currentTermCode (data.calendar.terms.rows.map fun r => ⟨r.1, r.2.startDate⟩)
    (combine tz day (12 * 60)).toNat

/-- `is_quiet`: a holiday covers the day, and the user has put none that does back. -/
def isQuiet (data : ClassData) (userId : UserId) (day : Day) : Bool :=
  let covering := data.holidays.filter fun h => h.2.1 ≤ day && day ≤ h.2.2
  !covering.isEmpty && !covering.any fun h => (data.student userId).optedIn.contains h.1

/-- `is_term_code`: three digits, then 1, 2 or H. -/
def isTermCode (code : String) : Bool :=
  match code.toList with
  | [a, b, c, d] =>
    [a, b, c].all (fun c => '0' ≤ c && c ≤ '9') && (d == '1' || d == '2' || d == 'H')
  | _ => false

/-- The latest of the semesters. -/
def latest (semesters : List String) : Option String :=
  semesters.foldl (fun found semester =>
    if found.all (· < semester) then some semester else found) none

/-! ### The scan -/

section Scan

variable {F : Type} (py : ClassFloats F) (cfg : ClassSettings F) (data : ClassData) (now : Time)

/-- The document's `courses`: anything but an object has no `get`. -/
def coursesSection (document : Document) : Option Document :=
  match document.lookup "courses" with
  | none => some []
  | some value =>
    if value.falsy then some []
    else
      match value with
      | .object members => some members
      | _ => none

/-- `_course_prefs`, of one user. -/
def coursePrefs : Option Document → Option (Bool × List F)
  | none => some (true, cfg.defaultOffsets)
  | some document =>
    (coursesSection document).bind fun members =>
      let offsets :=
        match members.lookup "reminder_offsets_minutes" with
        | some (.array items) => (numbers items).mapM py.float
        | _ => some cfg.defaultOffsets
      offsets.map fun offsets => (switchedOn members, offsets)

/-- `_users_with_a_recipient`, of one user: an iPhone or iPad, and with a usable token. -/
def ClassStudent.hasRecipient (student : ClassStudent) (now : Time) (tokenRequired : Bool) : Bool :=
  student.devices.any fun device =>
    device.deletedAt.isNone && device.platform.appleHandheld &&
      (!tokenRequired || device.tokens.any (·.usable now))

/-- Whether the schedule is neither `{}` nor `[]`. -/
def ScheduleJson.nonempty : ScheduleJson → Bool
  | .entries list => !list.isEmpty
  | .object members => !members.rows.isEmpty
  | .other => true

/-- The courses the scan loads: with terms published, those of the terms its days are in. -/
def loadedCourses (days : List Day) : List (Nat × ClassCourse) :=
  let terms := termDates data
  let codes := (days.filter fun day => !outsideTerm day terms).map (termOn data cfg.tz)
  data.courses.select fun _ course =>
    course.enrolled && course.schedule.nonempty &&
      (terms.isEmpty || codes.contains (some course.semester))

/-- A user's latest semester, of the portal's courses and those filed under a term's code if there
are any. -/
def latestSemester (rows : List (Nat × ClassCourse)) (userId : UserId) : Option String :=
  let mine := rows.filter (·.2.userId = userId)
  let fromPortal (row : Nat × ClassCourse) := row.2.fromPortal || isTermCode row.2.semester
  (latest ((mine.filter fromPortal).map (·.2.semester))).or
    (latest ((mine.filter fun row => !fromPortal row).map (·.2.semester)))

/-- The courses whose meetings it looks at. -/
def eligibleCourses (days : List Day) : List (Nat × ClassCourse) :=
  let rows := loadedCourses cfg data days
  if (termDates data).isEmpty then
    rows.filter fun row => latestSemester rows row.2.userId = some row.2.semester
  else rows

/-- Whether the course meets on the day at all. -/
def meets (id : Nat) (course : ClassCourse) (day : Day) : Bool :=
  let terms := termDates data
  !data.skipped.contains (id, day) &&
    (terms.isEmpty || decide (termOn data cfg.tz day = some course.semester)) &&
    !outsideTerm day terms && !isQuiet data course.userId day

/-- `occurrence - timedelta(minutes=offset)`. -/
def classFireTime (start : Int) (offset : F) : Option Int :=
  (py.minutes offset).bind fun ahead =>
    if representable (start - ahead) then some (start - ahead) else none

/-- `int(occurrence.timestamp())`. -/
def epochOf (start : Int) : Int := start / SECOND

/-- The reminder of a meeting by one offset. -/
def classReminder (id : Nat) (course : ClassCourse) (start : Int) (room : Option String) (offset : F)
    (fireAt : Int) : ClassReminder F where
  userId := course.userId
  dedupeKey := .courseReminder id (py.format offset) (epochOf start).toNat
  fireAt
  payload :=
    { courseName := some ((course.customName.filter (· ≠ "")).getD course.courseName)
      body := reminderBody cfg.tz start room
      semester := course.semester
      courseKey := course.courseKey
      userCourseId := some id
      startsAt := start
      startEpoch := some (epochOf start)
      offset }

/-- The reminders of one meeting: none if it is cancelled or has begun. -/
def remindersOfMeeting (changes : List Row) (id : Nat) (course : ClassCourse) (offsets : List F)
    (meeting : Int × String) : Option (List (ClassReminder F)) :=
  (changedMeeting cfg.tz changes course meeting.1 meeting.2).bind fun
    | some (start, room) =>
      if start ≤ now then some []
      else
        offsets.mapM fun offset =>
          (classFireTime py start offset).map (classReminder py cfg id course start room offset)
    | none => some []

/-- The reminders of one course: none for a user who has switched them off or has no device that
could ever take them. -/
def remindersOfCourse (changes : List Row) (dayStart : Int) (row : Nat × ClassCourse) :
    Option (List (ClassReminder F)) :=
  let (id, course) := row
  let student := data.student course.userId
  (coursePrefs py cfg student.notification).bind fun (enabled, offsets) =>
    if enabled && (student.hasRecipient now true || student.hasRecipient now false) then
      (classMeetings cfg.tz cfg.periodTimes course.schedule dayStart (now + cfg.window)).bind
        fun meetings =>
          ((meetings.filter fun m => meets cfg data id course (dayOf cfg.tz m.1)).mapM
            (remindersOfMeeting py cfg now changes id course offsets)).map (·.flatten)
    else some []

/-- `file_jobs`: what is asked for, but keys the active jobs hold and keys filed before. -/
def fileReminders (taken : UserId × DedupeKey → Bool) (reminders : List (ClassReminder F)) :
    List (ClassReminder F) :=
  reminders.foldl (fun filed r =>
    if taken r.key || (filed.map ClassReminder.key).contains r.key then filed else filed ++ [r]) []

/-- What the scan did. -/
structure ClassScan (F : Type) where
  filed : List (ClassReminder F)
  cancelled : List JobId

/-- `scan_course_reminders`, over the waiting class reminders it could lock and the keys that
active jobs hold. -/
def scanCourseReminders (waiting : List (JobId × UserId × DedupeKey))
    (taken : UserId × DedupeKey → Bool) : Option (ClassScan F) :=
  (localDate cfg.tz now).bind fun today =>
    (localDate cfg.tz (now + cfg.window)).bind fun last =>
      -- The terms are asked for day by day, with a step past the last one.
      if !(termDates data).isEmpty && last = LAST_DAY then none
      else
        let eligible := eligibleCourses cfg data (daysFromTo today last)
        let changes := loadCourseChanges data.calendar (eligible.map (·.2.semester)) none
        let userIds := eligible.map (·.2.userId) ++ waiting.map (·.2.1)
        if userIds = [] then some ⟨[], []⟩
        else
          (userIds.mapM fun userId => coursePrefs py cfg (data.student userId).notification).bind
            fun _ =>
              (eligible.mapM (remindersOfCourse py cfg data now changes
                (combine cfg.tz today 0))).map fun reminders =>
                  let reminders := reminders.flatten
                  let due := reminders.filter fun r => decide ((now : Int) < r.fireAt) &&
                    (data.student r.userId).hasRecipient now true
                  { filed := fileReminders taken due
                    cancelled := (waiting.filter fun w =>
                      !(reminders.map ClassReminder.key).contains w.2).map (·.1) }

end Scan

/-! ### The check -/

/-- The first meeting that the changes leave at a start. -/
def meetingAt (tz : Int) (changes : List Row) (course : ClassCourse) (start : Int) :
    List (Int × String) → Option (Option (Int × Option String))
  | [] => some none
  | (occurrence, period) :: meetings =>
    (changedMeeting tz changes course occurrence period).bind fun meeting =>
      if meeting.any (·.1 = start) then some meeting else meetingAt tz changes course start meetings

/-- The changes the check loads: those of the course. -/
def courseChanges (data : ClassData) (course : ClassCourse) : List Row :=
  match course.courseNo with
  | some courseNo =>
    if courseNo = "" then []
    else loadCourseChanges data.calendar [course.semester] (some courseNo)
  | none => []

/-- `recheck_class_reminder`: the payload as the data stand now, or nothing. -/
def recheckClassReminder {F : Type} (cfg : ClassSettings F) (data : ClassData)
    (payload : ClassPayload F) : Option (Option (ClassPayload F)) :=
  match payload.userCourseId, payload.startEpoch with
  | some userCourseId, some startEpoch =>
    match data.courses.get userCourseId with
    | none => some none
    | some course =>
      if !course.enrolled then some none
      else
        let start := startEpoch * SECOND
        (localDate cfg.tz start).bind fun day =>
          let midnight := combine cfg.tz day 0
          let changes := courseChanges data course
          (classMeetings cfg.tz cfg.periodTimes course.schedule midnight (midnight + DAY)).bind
            fun meetings =>
              (meetingAt cfg.tz changes course start meetings).map fun meeting =>
                meeting.map fun (start, room) =>
                  if payload.courseName.isNone then payload
                  else { payload with body := reminderBody cfg.tz start room }
  | _, _ => some none

end TigerDuck.Push
