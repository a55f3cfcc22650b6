import TigerDuck.Push.Filing
import TigerDuck.Push.ReminderScan

/-!
# The reminder scan is exact

After a scan the waiting reminder jobs are those the stored data ask for, each reminder that is
still to fire and that some device can receive has one active job, and a second scan finds nothing
to do. This holds as long as the scan does not raise: it reads the settings documents of all users
in one transaction, so one document it cannot calculate with stops it for everyone.

- `Gives`: the keys the stored data give, said without the scan.
- `settle_db`: the scan is the machine's, with old payloads upgraded.
- `scan_exact_iff`: the property, exactly when every document can be read and every fire time is
  one a `datetime` can hold.
-/

namespace TigerDuck.Push

open AcademicCalendar Relational Sync SyncJobs

/-! ### What the data ask for -/

section Spec

variable {F : Type} (py : Floats F) (cfg : ScanSettings F) (data : Stored) (now : Time)

/-- The row is one to remind of: listed in the current term, live, unsubmitted, due within the
window, and neither marked nor in an ignored course. -/
structure Eligible (student : Student) (key : AssignmentKey) (row : UserAssignment) (due : Time) :
    Prop where
  listed : row.moodleSemester = none ∨ ∃ term, currentTermCode data.terms now = some term ∧
    (row.moodleSemester = some term ∨ ∃ id course, row.userCourseId = some id ∧
      student.courses.get id = some course ∧ course.semester = term)
  live : row.deletedAt = none
  unsubmitted : row.providerIsSubmitted = false
  dueAt : row.dueAt = some due
  ahead : now < due
  inWindow : due ≤ now + cfg.window
  unmarked : ∀ mark, student.marks.get row.id = some mark → mark.localStatus.value = .none
  notIgnored : ∀ id course, student.courses.get id = some course →
    course.ignoreAssignments = true → ¬ course.Covers (currentTermCode data.terms now) key row

/-- Some device of the user would take a reminder, had it a token. -/
def HasDevice (userId : UserId) : Prop :=
  ∃ device ∈ (data.student userId).devices, device.takes = true

/-- Some device of the user can receive a reminder. -/
def CanReceive (userId : UserId) : Prop :=
  ∃ device ∈ (data.student userId).devices, device.takes = true ∧
    ∃ token ∈ device.tokens, token.usable now = true

/-- The stored data give the user's key, which fires at the time. -/
def Gives (userId : UserId) (key : DedupeKey) (fireAt : Int) : Prop :=
  ∃ student k row due offsets offset, data.students.get userId = some student ∧
    student.assignments.get k = some row ∧ Eligible cfg data now student k row due ∧
      notificationPrefs py cfg student.notification = some (true, offsets) ∧ offset ∈ offsets ∧
        HasDevice data userId ∧ key = reminderKey py k.moodleAssignmentId offset due ∧
          fireTime py due offset = some fireAt

/-- Whether the document's numbers can be calculated with. -/
def ReadableDocument (document : Document) : Prop :=
  ∃ members, assignmentsSection document = some members ∧
    ∀ values minutes, offsetList members = some (values, minutes) →
      ∀ q ∈ values, (py.float q).isSome = true

/-- The users whose settings the scan reads: those it may remind, and those with a waiting
reminder. -/
def Concerned (skip : JobId → Bool) (db : Db) (userId : UserId) : Prop :=
  (∃ student k row due, data.students.get userId = some student ∧
    student.assignments.get k = some row ∧ Eligible cfg data now student k row due) ∨
  ∃ j job, db.jobs.get j = some job ∧ job.userId = userId ∧ job.channel = .assignment ∧
    job.status = .pending ∧ skip j = false

/-- Whether the scan can read all it reads: the documents, and the fire times they come to. -/
structure Readable (skip : JobId → Bool) (db : Db) : Prop where
  documents : ∀ userId document, Concerned cfg data now skip db userId →
    (data.student userId).notification = some document → ReadableDocument py document
  fireTimes : ∀ userId student k row due offsets offset, data.students.get userId = some student →
    student.assignments.get k = some row → Eligible cfg data now student k row due →
      notificationPrefs py cfg student.notification = some (true, offsets) → offset ∈ offsets →
        HasDevice data userId → (fireTime py due offset).isSome = true

end Spec

section Lemmas

variable {F : Type} {py : Floats F} {cfg : ScanSettings F} {data : Stored} {now : Time}

theorem listedIn_iff {term : Option String} {student : Student} {row : UserAssignment} :
    listedIn term student row = true ↔ row.moodleSemester = none ∨ ∃ code, term = some code ∧
      (row.moodleSemester = some code ∨ ∃ id course, row.userCourseId = some id ∧
        student.courses.get id = some course ∧ course.semester = code) := by
  simp only [listedIn, Bool.or_eq_true, Option.isNone_iff_eq_none, Option.any_eq_true,
    decide_eq_true_eq, Option.bind_eq_some_iff]
  refine or_congr_right (exists_congr fun code => and_congr_right fun _ => or_congr_right ?_)
  constructor
  · rintro ⟨course, ⟨id, hid, hcourse⟩, hterm⟩
    exact ⟨id, course, hid, hcourse, hterm⟩
  · rintro ⟨id, course, hid, hcourse, hterm⟩
    exact ⟨course, ⟨id, hid, hcourse⟩, hterm⟩

theorem eligibleRow_iff {student : Student} {key : AssignmentKey} {row : UserAssignment} :
    eligibleRow cfg data now student key row = true ↔
      ∃ due, Eligible cfg data now student key row due := by
  have hignored : (student.ignoredCourses (currentTermCode data.terms now)).has key row = false ↔
      ∀ id course, student.courses.get id = some course → course.ignoreAssignments = true →
        ¬ course.Covers (currentTermCode data.terms now) key row := by
    rw [Bool.eq_false_iff, Ne, has_ignoredCourses_iff]
    exact ⟨fun h id course hget hignores hcovers => h ⟨id, course, hget, hignores, hcovers⟩,
      fun h ⟨id, course, hget, hignores, hcovers⟩ => h id course hget hignores hcovers⟩
  simp only [eligibleRow, Bool.and_eq_true, listedIn_iff, Option.isNone_iff_eq_none,
    Option.any_eq_true, decide_eq_true_eq, Bool.not_eq_true', UserRows.marked_eq_false_iff,
    hignored]
  constructor
  · rintro ⟨⟨⟨⟨⟨hlisted, hlive⟩, hsubmitted⟩, due, hdue, hahead, hwindow⟩, hmarked⟩, hkept⟩
    exact ⟨due, hlisted, hlive, hsubmitted, hdue, hahead, hwindow, hmarked, hkept⟩
  · rintro ⟨due, h⟩
    exact ⟨⟨⟨⟨⟨h.listed, h.live⟩, h.unsubmitted⟩, due, h.dueAt, h.ahead, h.inWindow⟩, h.unmarked⟩,
      h.notIgnored⟩

theorem mem_eligible {userId : UserId} {k : AssignmentKey} {row : UserAssignment} :
    (userId, k, row) ∈ eligible cfg data now ↔ ∃ student due,
      data.students.get userId = some student ∧ student.assignments.get k = some row ∧
        Eligible cfg data now student k row due := by
  simp only [eligible, List.mem_flatMap, List.mem_map, Prod.exists, Prod.mk.injEq, Table.select,
    List.mem_filter, eligibleRow_iff, Table.get_eq_some_iff]
  constructor
  · rintro ⟨u, student, hstudent, k', row', ⟨hrow, due, hdue⟩, rfl, rfl, rfl⟩
    exact ⟨student, due, hstudent, hrow, hdue⟩
  · rintro ⟨student, due, hstudent, hrow, hdue⟩
    exact ⟨userId, student, hstudent, k, row, ⟨hrow, due, hdue⟩, rfl, rfl, rfl⟩

theorem hasDevice_iff {userId : UserId} :
    ((data.student userId).hasRecipient now true ||
      (data.student userId).hasRecipient now false) = true ↔ HasDevice data userId := by
  simp only [Student.hasRecipient, Bool.or_eq_true, List.any_eq_true, Bool.and_eq_true,
    HasDevice, Bool.not_true, Bool.false_eq_true, false_or, Bool.not_false, true_or, and_true]
  constructor
  · rintro (⟨device, hmem, htakes, -⟩ | h)
    · exact ⟨device, hmem, htakes⟩
    · exact h
  · exact .inr

theorem canReceive_iff {userId : UserId} :
    (data.student userId).hasRecipient now true = true ↔ CanReceive data now userId := by
  simp [Student.hasRecipient, CanReceive]

theorem student_eq {userId : UserId} {student : Student}
    (h : data.students.get userId = some student) : data.student userId = student := by
  rw [Stored.student, h, Option.getD_some]

/-! ### What the scan reads -/

theorem offsetsHours_isSome_iff {members : Document} :
    (offsetsHours py cfg members).isSome = true ↔ ∀ values minutes,
      offsetList members = some (values, minutes) → ∀ q ∈ values, (py.float q).isSome = true := by
  unfold offsetsHours
  split
  next values hlist =>
    rw [Option.isSome_map, mapM_isSome_iff]
    simp [hlist]
  next values hlist =>
    rw [mapM_isSome_iff]
    simp [hlist]
  next hlist => simp [hlist]

theorem notificationPrefs_isSome_iff {document : Option Document} :
    (notificationPrefs py cfg document).isSome = true ↔
      ∀ d, document = some d → ReadableDocument py d := by
  cases document with
  | none => simp [notificationPrefs]
  | some d =>
    have hread : ReadableDocument py d ↔ ∃ members, assignmentsSection d = some members ∧
        (offsetsHours py cfg members).isSome = true :=
      exists_congr fun members => and_congr_right fun _ => offsetsHours_isSome_iff.symm
    simp only [Option.some_inj, forall_eq', hread, notificationPrefs, Option.isSome_iff_exists,
      Option.bind_eq_some_iff, Option.map_eq_some_iff]
    constructor
    · rintro ⟨_, members, hmembers, offsets, hoffsets, -⟩
      exact ⟨members, hmembers, offsets, hoffsets⟩
    · rintro ⟨members, hmembers, offsets, hoffsets⟩
      exact ⟨_, members, hmembers, offsets, hoffsets, rfl⟩

/-- The data ask for the reminder. -/
def Asks (py : Floats F) (cfg : ScanSettings F) (data : Stored) (now : Time) (r : Reminder) : Prop :=
  ∃ userId student k row due offsets offset, data.students.get userId = some student ∧
    student.assignments.get k = some row ∧ Eligible cfg data now student k row due ∧
      notificationPrefs py cfg student.notification = some (true, offsets) ∧ offset ∈ offsets ∧
        HasDevice data userId ∧ fireTime py due offset = some r.fireAt ∧
          r.job = reminderJob py userId k row due offset r.fireAt

theorem remindersOf_isSome_iff {userId : UserId} {student : Student} {k : AssignmentKey}
    {row : UserAssignment} {due : Time} (hstudent : data.students.get userId = some student)
    (hdue : row.dueAt = some due) :
    (remindersOf py cfg data now (userId, k, row)).isSome = true ↔
      (notificationPrefs py cfg student.notification).isSome = true ∧ ∀ offsets offset,
        notificationPrefs py cfg student.notification = some (true, offsets) → offset ∈ offsets →
          HasDevice data userId → (fireTime py due offset).isSome = true := by
  simp only [remindersOf, student_eq hstudent, hdue, Option.getD_some]
  rw [← student_eq hstudent]
  obtain hnone | ⟨⟨enabled, offsets⟩, hprefs⟩ :=
    (notificationPrefs py cfg (data.student userId).notification).eq_none_or_eq_some
  · simp [hnone]
  · simp only [hprefs, Option.bind_some, Option.isSome_some, true_and, Option.some_inj,
      Prod.mk.injEq]
    split
    next hasks =>
      obtain ⟨rfl, hdevice⟩ := Bool.and_eq_true_iff.mp hasks
      simp only [mapM_isSome_iff, Option.isSome_map]
      constructor
      · rintro hall _ offset ⟨-, rfl⟩ hmem -
        exact hall offset hmem
      · exact fun hall offset hmem => hall offsets offset ⟨trivial, rfl⟩ hmem (hasDevice_iff.mp hdevice)
    next hasks =>
      refine iff_of_true rfl fun offsets' offset hsame _ hdevice => absurd ?_ hasks
      exact Bool.and_eq_true_iff.mpr ⟨hsame.1, hasDevice_iff.mpr hdevice⟩

theorem mem_remindersOf {userId : UserId} {student : Student} {k : AssignmentKey}
    {row : UserAssignment} {due : Time} {rs : List Reminder} {r : Reminder}
    (hstudent : data.students.get userId = some student) (hdue : row.dueAt = some due)
    (h : remindersOf py cfg data now (userId, k, row) = some rs) :
    r ∈ rs ↔ ∃ offsets offset, notificationPrefs py cfg student.notification = some (true, offsets) ∧
      offset ∈ offsets ∧ HasDevice data userId ∧ fireTime py due offset = some r.fireAt ∧
        r.job = reminderJob py userId k row due offset r.fireAt := by
  simp only [remindersOf, hdue, Option.getD_some] at h
  obtain ⟨⟨enabled, offsets⟩, hprefs, h⟩ := Option.bind_eq_some_iff.mp h
  rw [student_eq hstudent] at hprefs
  dsimp only at h
  split at h
  next hasks =>
    obtain ⟨rfl, hdevice⟩ := Bool.and_eq_true_iff.mp hasks
    rw [mem_of_mapM_eq_some h]
    constructor
    · rintro ⟨offset, hmem, hr⟩
      obtain ⟨fireAt, hfire, rfl⟩ := Option.map_eq_some_iff.mp hr
      exact ⟨offsets, offset, hprefs, hmem, hasDevice_iff.mp hdevice, hfire, rfl⟩
    · rintro ⟨offsets', offset, hprefs', hmem, -, hfire, hjob⟩
      obtain ⟨-, rfl⟩ := Prod.mk.inj (Option.some.inj (hprefs.symm.trans hprefs'))
      refine ⟨offset, hmem, Option.map_eq_some_iff.mpr ⟨r.fireAt, hfire, ?_⟩⟩
      rw [← hjob]
  next hasks =>
    obtain rfl := Option.some.inj h
    refine iff_of_false List.not_mem_nil ?_
    rintro ⟨offsets', offset, hprefs', -, hdevice, -⟩
    obtain ⟨rfl, -⟩ := Prod.mk.inj (Option.some.inj (hprefs.symm.trans hprefs'))
    exact hasks (Bool.and_eq_true_iff.mpr ⟨rfl, hasDevice_iff.mpr hdevice⟩)

/-- The reminders of a scan that does not raise are those the data ask for. -/
theorem mem_reminders {reminders : List (List Reminder)} {r : Reminder}
    (h : (eligible cfg data now).mapM (remindersOf py cfg data now) = some reminders) :
    r ∈ reminders.flatten ↔ Asks py cfg data now r := by
  simp only [List.mem_flatten, mem_of_mapM_eq_some h]
  constructor
  · rintro ⟨rs, ⟨⟨userId, k, row⟩, helig, hrs⟩, hr⟩
    obtain ⟨student, due, hstudent, hrow, hdue⟩ := mem_eligible.mp helig
    obtain ⟨offsets, offset, hprefs, hmem, hdevice, hfire, hjob⟩ :=
      (mem_remindersOf hstudent hdue.dueAt hrs).mp hr
    exact ⟨userId, student, k, row, due, offsets, offset, hstudent, hrow, hdue, hprefs, hmem,
      hdevice, hfire, hjob⟩
  · rintro ⟨userId, student, k, row, due, offsets, offset, hstudent, hrow, hdue, hprefs, hmem,
      hdevice, hfire, hjob⟩
    have helig : (userId, k, row) ∈ eligible cfg data now :=
      mem_eligible.mpr ⟨student, due, hstudent, hrow, hdue⟩
    obtain ⟨rs, hrs⟩ := Option.isSome_iff_exists.mp
      (mapM_isSome_iff.mp (Option.isSome_iff_exists.mpr ⟨_, h⟩) _ helig)
    exact ⟨rs, ⟨_, helig, hrs⟩, (mem_remindersOf hstudent hdue.dueAt hrs).mpr
      ⟨offsets, offset, hprefs, hmem, hdevice, hfire, hjob⟩⟩

/-- The keys of the reminders the data ask for are those they give. -/
theorem gives_iff {userId : UserId} {key : DedupeKey} {fireAt : Int} :
    Gives py cfg data now userId key fireAt ↔
      ∃ r, Asks py cfg data now r ∧ r.key = (userId, key) ∧ r.fireAt = fireAt := by
  constructor
  · rintro ⟨student, k, row, due, offsets, offset, hstudent, hrow, hdue, hprefs, hmem, hdevice, rfl,
      hfire⟩
    exact ⟨⟨fireAt, reminderJob py userId k row due offset fireAt⟩, ⟨userId, student, k, row, due,
      offsets, offset, hstudent, hrow, hdue, hprefs, hmem, hdevice, hfire, rfl⟩, rfl, rfl⟩
  · rintro ⟨r, ⟨u, student, k, row, due, offsets, offset, hstudent, hrow, hdue, hprefs, hmem,
      hdevice, hfire, hjob⟩, hkey, rfl⟩
    rw [Reminder.key, hjob] at hkey
    obtain ⟨rfl, rfl⟩ := Prod.mk.inj hkey
    exact ⟨student, k, row, due, offsets, offset, hstudent, hrow, hdue, hprefs, hmem, hdevice, rfl,
      hfire⟩

end Lemmas

/-! ### What the scan leaves -/

section Settle

variable {data : Stored} {now : Time} {reminders : List Reminder} {skip skip' : JobId → Bool}
  {db : Db} {k : JobId} {job job' : PushJob}

/-- The jobs the scan files. -/
def toFile (data : Stored) (now : Time) (reminders : List Reminder) : List NewJob :=
  ((ahead now reminders).filter fun r => (data.student r.job.userId).hasRecipient now true).map
    (·.job)

theorem pendingReminder_iff : pendingReminder skip k job = true ↔
    skip k = false ∧ job.channel = .assignment ∧ job.status = .pending := by
  simp [pendingReminder, and_assoc]

theorem mem_waiting_iff : ((db.jobs.select (pendingReminder skip)).map Prod.fst).contains k = true ↔
    ∃ job, db.jobs.get k = some job ∧ pendingReminder skip k job = true := by
  simp [Table.select, Table.get_eq_some_iff]

theorem isValid_iff : isValid reminders job = true ↔
    ∃ r ∈ reminders, r.key = (job.userId, job.dedupeKey) := by
  simp [isValid, eq_comm]

theorem mem_ahead_iff {r : Reminder} :
    r ∈ ahead now reminders ↔ r ∈ reminders ∧ (now : Int) < r.fireAt := by
  simp [ahead]

theorem settledJob_of_valid (h : isValid reminders job = true) :
    settledJob now reminders job = job ∨
      job.payload.assignmentTitle = none ∧ ∃ r ∈ reminders,
        settledJob now reminders job = { job with payload := r.job.payload } := by
  unfold settledJob upgrade
  rw [if_pos h]
  split
  next htitle =>
    obtain hnone | ⟨r, hr⟩ := ((ahead now reminders).reverse.find? fun r =>
      r.key = (job.userId, job.dedupeKey)).eq_none_or_eq_some
    · rw [hnone]
      exact .inl rfl
    · rw [hr]
      have hmem := List.mem_reverse.mp (List.mem_of_find?_eq_some hr)
      exact .inr ⟨htitle, r, (mem_ahead_iff.mp hmem).1, rfl⟩
  · exact .inl rfl

theorem settledJob_of_not_valid (h : ¬ isValid reminders job = true) :
    settledJob now reminders job = job.cancel now := by
  unfold settledJob
  rw [if_neg h]

/-- A waiting job keeps its user and its key. -/
theorem settledJob_key : (settledJob now reminders job).userId = job.userId ∧
    (settledJob now reminders job).dedupeKey = job.dedupeKey := by
  by_cases h : isValid reminders job = true
  · rcases settledJob_of_valid h with hsame | ⟨-, r, -, hsame⟩ <;> rw [hsame] <;> exact ⟨rfl, rfl⟩
  · rw [settledJob_of_not_valid h]
    exact ⟨rfl, rfl⟩

theorem settledJob_status (h : isValid reminders job = true) :
    (settledJob now reminders job).status = job.status := by
  rcases settledJob_of_valid h with hsame | ⟨-, r, -, hsame⟩ <;> rw [hsame]

theorem settledJob_active (h : (settledJob now reminders job).status.dedupeActive = true) :
    isValid reminders job = true := by
  by_contra hunwanted
  rw [settledJob_of_not_valid hunwanted] at h
  cases h

theorem isValid_settledJob (h : isValid reminders job = true) :
    isValid reminders (settledJob now reminders job) = true := by
  unfold isValid
  rw [settledJob_key.1, settledJob_key.2]
  exact h

theorem upgrade_of_title (h : job.payload.assignmentTitle ≠ none) :
    upgrade now reminders job = none := if_neg h

/-- The job with today's payload needs no other. -/
theorem upgrade_settledJob (htitle : ∀ r ∈ reminders, r.job.payload.assignmentTitle ≠ none)
    (h : isValid reminders job = true) :
    upgrade now reminders (settledJob now reminders job) = none := by
  unfold settledJob
  rw [if_pos h]
  obtain hnone | ⟨payload, hpayload⟩ := (upgrade now reminders job).eq_none_or_eq_some
  · rw [hnone]
    exact hnone
  · rw [hpayload]
    refine upgrade_of_title ?_
    show payload.assignmentTitle ≠ none
    unfold upgrade at hpayload
    split at hpayload
    · obtain ⟨r, hr, rfl⟩ := Option.map_eq_some_iff.mp hpayload
      have hmem := List.mem_reverse.mp (List.mem_of_find?_eq_some hr)
      exact htitle r (mem_ahead_iff.mp hmem).1
    · cases hpayload

/-- A row after the scan is one the filing leaves, settled if it was waiting before. -/
theorem get_settle (h : (settle data now reminders skip db).db.jobs.get k = some job') :
    ∃ job, (db.fileJobs now (toFile data now reminders)).jobs.get k = some job ∧
      job' = if ((db.jobs.select (pendingReminder skip)).map Prod.fst).contains k = true then
        settledJob now reminders job else job := by
  have hget : ((db.fileJobs now (toFile data now reminders)).modifyJobs fun k job =>
      if ((db.jobs.select (pendingReminder skip)).map Prod.fst).contains k = true then
        settledJob now reminders job else job).jobs.get k = some job' := h
  rw [Db.modifyJobs, Table.get_modify] at hget
  obtain ⟨job, hjob, rfl⟩ := Option.map_eq_some_iff.mp hget
  exact ⟨job, hjob, rfl⟩

/-- A row the filing leaves is there after the scan. -/
theorem settle_get (h : (db.fileJobs now (toFile data now reminders)).jobs.get k = some job) :
    (settle data now reminders skip db).db.jobs.get k =
      some (if ((db.jobs.select (pendingReminder skip)).map Prod.fst).contains k = true then
        settledJob now reminders job else job) := by
  show ((db.fileJobs now (toFile data now reminders)).modifyJobs _).jobs.get k = _
  rw [Db.modifyJobs, Table.get_modify, h]
  rfl

variable (hbelow : JobsBelow db) (hunique : db.KeysUnique)

include hbelow hunique

/-- The active jobs of one key stay one. -/
theorem settle_keysUnique : (settle data now reminders skip db).db.KeysUnique := by
  have hfiled : Db.Filed now (toFile data now reminders) db _ :=
    Db.filed_fileJobs hbelow hunique (toFile data now reminders)
  intro j j' job job' hjob hjob' huser hkey hactive hactive'
  -- An active row was active when the filing was done, under the same key.
  have hbefore {k : JobId} {job : PushJob}
      (h : (settle data now reminders skip db).db.jobs.get k = some job)
      (hactive : job.status.dedupeActive = true) :
      ∃ old, (db.fileJobs now (toFile data now reminders)).jobs.get k = some old ∧
        old.userId = job.userId ∧ old.dedupeKey = job.dedupeKey ∧
          old.status.dedupeActive = true := by
    obtain ⟨old, hold, rfl⟩ := get_settle h
    refine ⟨old, hold, ?_⟩
    split at hactive
    · rw [if_pos ‹_›]
      have hvalid := settledJob_active hactive
      rw [settledJob_status hvalid] at hactive
      exact ⟨settledJob_key.1.symm, settledJob_key.2.symm, hactive⟩
    · rw [if_neg ‹_›]
      exact ⟨rfl, rfl, hactive⟩
  obtain ⟨old, hold, huserOld, hkeyOld, hactiveOld⟩ := hbefore hjob hactive
  obtain ⟨old', hold', huserOld', hkeyOld', hactiveOld'⟩ := hbefore hjob' hactive'
  exact hfiled.unique j j' old old' hold hold' (by rw [huserOld, huserOld', huser])
    (by rw [hkeyOld, hkeyOld', hkey]) hactiveOld hactiveOld'

/-- A reminder that some device can receive, and that is still to fire, has its job. -/
theorem settle_holds {r : Reminder} (hr : r ∈ reminders) (hahead : (now : Int) < r.fireAt)
    (hreceive : CanReceive data now r.job.userId) :
    (settle data now reminders skip db).db.Holds r.job.userId r.job.dedupeKey := by
  have hfiled : Db.Filed now (toFile data now reminders) db _ :=
    Db.filed_fileJobs hbelow hunique (toFile data now reminders)
  have hmem : r.job ∈ toFile data now reminders :=
    List.mem_map_of_mem (List.mem_filter.mpr ⟨mem_ahead_iff.mpr ⟨hr, hahead⟩,
      canReceive_iff.mpr hreceive⟩)
  obtain ⟨j, job, hjob, huser, hkey, hactive⟩ := hfiled.holds r.job hmem
  have hvalid : isValid reminders job = true :=
    isValid_iff.mpr ⟨r, hr, by rw [Reminder.key, huser, hkey]⟩
  refine ⟨j, _, settle_get hjob, ?_⟩
  split
  · rw [settledJob_key.1, settledJob_key.2, settledJob_status hvalid]
    exact ⟨huser, hkey, hactive⟩
  · exact ⟨huser, hkey, hactive⟩

/-- A reminder job that waits after the scan, and that no other transaction held, is one the
reminders ask for, and carries the inputs of its copy if it is still to fire. -/
theorem settle_waiting (htitle : ∀ r ∈ reminders, r.job.payload.assignmentTitle ≠ none)
    (hjob : (settle data now reminders skip db).db.jobs.get k = some job)
    (hpending : pendingReminder skip k job = true) :
    isValid reminders job = true ∧ upgrade now reminders job = none := by
  have hfiled : Db.Filed now (toFile data now reminders) db _ :=
    Db.filed_fileJobs hbelow hunique (toFile data now reminders)
  obtain ⟨hskip, hchannel, hstatus⟩ := pendingReminder_iff.mp hpending
  obtain ⟨old, hold, rfl⟩ := get_settle hjob
  split at hjob
  next hwaiting =>
    rw [if_pos hwaiting] at hstatus ⊢
    have hvalid : isValid reminders old = true :=
      settledJob_active (by rw [hstatus]; rfl)
    exact ⟨isValid_settledJob hvalid, upgrade_settledJob htitle hvalid⟩
  next hnot =>
    rw [if_neg hnot] at hstatus hchannel ⊢
    rcases hfiled.new k old hold with hsame | ⟨-, new, hnew, rfl⟩
    · -- It waited before the scan, which took it.
      exact absurd (mem_waiting_iff.mpr ⟨old, hsame, pendingReminder_iff.mpr
        ⟨hskip, hchannel, hstatus⟩⟩) hnot
    · obtain ⟨r, hr, rfl⟩ := List.mem_map.mp hnew
      have hmem := (mem_ahead_iff.mp (List.mem_filter.mp hr).1).1
      exact ⟨isValid_iff.mpr ⟨r, hmem, rfl⟩, upgrade_of_title (htitle r hmem)⟩

/-- A second scan of the same reminders finds nothing to do, as long as the rows it passed over
are passed over again. -/
theorem settle_again (htitle : ∀ r ∈ reminders, r.job.payload.assignmentTitle ≠ none)
    (hskip : ∀ k, skip k = true → skip' k = true) :
    settle data now reminders skip' (settle data now reminders skip db).db =
      ⟨(settle data now reminders skip db).db, 0, 0, 0⟩ := by
  generalize hdb : (settle data now reminders skip db).db = db'
  -- Every waiting job is asked for, and none is to be upgraded.
  have hwaiting : ∀ k job, db'.jobs.get k = some job → pendingReminder skip' k job = true →
      isValid reminders job = true ∧ upgrade now reminders job = none := by
    intro k job hjob hpending
    refine settle_waiting hbelow hunique htitle (hdb ▸ hjob) (pendingReminder_iff.mpr ?_)
    obtain ⟨hfree, hrest⟩ := pendingReminder_iff.mp hpending
    refine ⟨Bool.eq_false_of_not_eq_true fun htaken => ?_, hrest⟩
    rw [hskip k htaken] at hfree
    cases hfree
  have hselect : ∀ w ∈ db'.jobs.select (pendingReminder skip'),
      isValid reminders w.2 = true ∧ upgrade now reminders w.2 = none := by
    rintro ⟨k, job⟩ hw
    obtain ⟨hmem, hpending⟩ := List.mem_filter.mp hw
    exact hwaiting k job ((Table.get_eq_some_iff ..).mpr hmem) hpending
  have hfile : db'.fileJobs now (toFile data now reminders) = db' := by
    refine Db.fileJobs_eq_self fun new hnew => ?_
    obtain ⟨r, hr, rfl⟩ := List.mem_map.mp hnew
    obtain ⟨hahead, hreceive⟩ := List.mem_filter.mp hr
    obtain ⟨hmem, hfire⟩ := mem_ahead_iff.mp hahead
    exact hdb ▸ settle_holds hbelow hunique hmem hfire (canReceive_iff.mp hreceive)
  have hmodify : db'.modifyJobs (fun k job =>
      if ((db'.jobs.select (pendingReminder skip')).map Prod.fst).contains k = true then
        settledJob now reminders job else job) = db' := by
    refine congrArg (fun jobs => { db' with jobs }) ((Table.modify_eq_self_iff ..).mpr ?_)
    rintro ⟨k, job⟩ hmem
    have hjob := (Table.get_eq_some_iff db'.jobs k job).mpr hmem
    dsimp only
    split
    next hheld =>
      obtain ⟨job', hjob', hpending⟩ := mem_waiting_iff.mp hheld
      obtain rfl := Option.some.inj (hjob.symm.trans hjob')
      obtain ⟨hvalid, hnone⟩ := hwaiting k job hjob hpending
      rw [settledJob, if_pos hvalid, hnone]
      rfl
    next => rfl
  have hcancelled : (db'.jobs.select (pendingReminder skip')).filter
      (fun w => !isValid reminders w.2) = [] := by
    refine List.filter_eq_nil_iff.mpr fun w hw => ?_
    rw [(hselect w hw).1]
    exact Bool.false_ne_true
  have hupgraded : (db'.jobs.select (pendingReminder skip')).filter
      (fun w => isValid reminders w.2 && (upgrade now reminders w.2).isSome) = [] := by
    refine List.filter_eq_nil_iff.mpr fun w hw => ?_
    rw [(hselect w hw).2, Option.isSome_none, Bool.and_false]
    exact Bool.false_ne_true
  show Scanned.mk ((db'.fileJobs now (toFile data now reminders)).modifyJobs _)
    ((db'.fileJobs now (toFile data now reminders)).nextJob - db'.nextJob) _ _ = _
  rw [hfile, hmodify, hcancelled, hupgraded, Nat.sub_self]
  rfl

end Settle

/-! ### The scan as a step of the pipeline's machine -/

section Machine

variable {data : Stored} {now : Time} {reminders : List Reminder} {skip : JobId → Bool} {db : Db}

/-- A change that keeps the active jobs of a key may as well come after the insert. -/
theorem Db.modifyJobs_fileJob {f : JobId → PushJob → PushJob} {new : NewJob} (hbelow : JobsBelow db)
    (hholds : (db.modifyJobs f).Holds new.userId new.dedupeKey ↔
      db.Holds new.userId new.dedupeKey)
    (hf : f db.nextJob (new.row now) = new.row now) :
    (db.modifyJobs f).fileJob now new = (db.fileJob now new).modifyJobs f := by
  by_cases h : db.Holds new.userId new.dedupeKey
  · rw [fileJob_of_holds h, fileJob_of_holds (hholds.mpr h)]
  · have hfresh : db.jobs.get db.nextJob = none := by
      by_contra hsome
      exact absurd (hbelow db.nextJob hsome) (Nat.lt_irrefl _)
    rw [fileJob_of_not_holds h, fileJob_of_not_holds fun h' => h (hholds.mp h')]
    show Db.mk ((db.jobs.modify f).set db.nextJob (new.row now)) _ _ =
      Db.mk ((db.jobs.set db.nextJob (new.row now)).modify f) _ _
    rw [Table.modify_set_comm hfresh hf]
    rfl

/-- Cancelling the jobs of other keys does not change who holds a key. -/
theorem holds_cancelPending_iff {valid : List (UserId × DedupeKey)} {userId : UserId}
    {key : DedupeKey} (hvalid : (userId, key) ∈ valid) :
    (db.cancelPending now (Db.isUnwanted .assignment valid skip)).Holds userId key ↔
      db.Holds userId key := by
  have hrow {k : JobId} {job : PushJob} (hkey : (job.userId, job.dedupeKey) ∈ valid) :
      Db.cancelRow now (Db.isUnwanted .assignment valid skip) k job = job := by
    refine if_neg fun h => ?_
    simp only [Db.isUnwanted, Bool.and_eq_true, Bool.not_eq_true', List.contains_eq_mem,
      decide_eq_false_iff_not] at h
    exact h.2.2 hkey
  have hkeys (k : JobId) (job : PushJob) :
      (Db.cancelRow now (Db.isUnwanted .assignment valid skip) k job).userId = job.userId ∧
        (Db.cancelRow now (Db.isUnwanted .assignment valid skip) k job).dedupeKey =
          job.dedupeKey := by
    unfold Db.cancelRow
    split <;> exact ⟨rfl, rfl⟩
  constructor
  · rintro ⟨j, job, hjob, huser, hkey, hactive⟩
    rw [Db.cancelPending, Db.modifyJobs, Table.get_modify] at hjob
    obtain ⟨old, hold, rfl⟩ := Option.map_eq_some_iff.mp hjob
    rw [(hkeys j old).1] at huser
    rw [(hkeys j old).2] at hkey
    rw [hrow (by rw [huser, hkey]; exact hvalid)] at hactive
    exact ⟨j, old, hold, huser, hkey, hactive⟩
  · rintro ⟨j, job, hjob, huser, hkey, hactive⟩
    refine ⟨j, job, ?_, huser, hkey, hactive⟩
    rw [Db.cancelPending, Db.modifyJobs, Table.get_modify, hjob, Option.map_some,
      hrow (by rw [huser, hkey]; exact hvalid)]

/-- Filing first and cancelling first come to the same. -/
theorem fileJobs_cancelPending {valid : List (UserId × DedupeKey)} (rows : List NewJob)
    (hbelow : JobsBelow db) (hrows : ∀ new ∈ rows, (new.userId, new.dedupeKey) ∈ valid) :
    (db.cancelPending now (Db.isUnwanted .assignment valid skip)).fileJobs now rows =
      (db.fileJobs now rows).cancelPending now (Db.isUnwanted .assignment valid skip) := by
  unfold Db.fileJobs
  induction rows generalizing db with
  | nil => rfl
  | cons new rest ih =>
    have hkey := hrows new List.mem_cons_self
    have hnew : Db.cancelRow now (Db.isUnwanted .assignment valid skip) db.nextJob (new.row now) =
        new.row now := by
      refine if_neg fun h => ?_
      simp only [Db.isUnwanted, Bool.and_eq_true, Bool.not_eq_true', List.contains_eq_mem,
        decide_eq_false_iff_not] at h
      exact h.2.2 hkey
    rw [List.foldl_cons, List.foldl_cons,
      ← ih (Db.jobsBelow_fileJob hbelow new) fun n hn => hrows n (List.mem_cons_of_mem _ hn)]
    exact congrArg (rest.foldl fun db new => db.fileJob now new)
      (Db.modifyJobs_fileJob hbelow (holds_cancelPending_iff hkey) hnew)

/-- A job that waited before the scan, with today's payload if it lacks the inputs of its copy. -/
def upgradedRow (now : Time) (reminders : List Reminder) (skip : JobId → Bool) (db : Db) (k : JobId)
    (job : PushJob) : PushJob :=
  if (db.jobs.get k).any (pendingReminder skip k) && isValid reminders job then
    (upgrade now reminders job).elim job fun payload => { job with payload }
  else job

theorem cancelRow_of_valid {k : JobId} {job : PushJob} (h : isValid reminders job = true) :
    Db.cancelRow now (Db.isUnwanted .assignment (reminders.map Reminder.key) skip) k job = job := by
  refine if_neg fun hunwanted => ?_
  simp only [Db.isUnwanted, Bool.and_eq_true, Bool.not_eq_true'] at hunwanted
  exact Bool.false_ne_true (hunwanted.2.2.symm.trans h)

/-- What the scan makes of the jobs is the machine's scan, with the old payloads upgraded. -/
theorem settle_db (hbelow : JobsBelow db) (hunique : db.KeysUnique) :
    (settle data now reminders skip db).db =
      (db.scanAssignmentReminders (reminders.map Reminder.key) (toFile data now reminders) skip
        now).modifyJobs (upgradedRow now reminders skip db) := by
  have hfiled : Db.Filed now (toFile data now reminders) db _ :=
    Db.filed_fileJobs hbelow hunique (toFile data now reminders)
  have hkeys : ∀ new ∈ toFile data now reminders,
      (new.userId, new.dedupeKey) ∈ reminders.map Reminder.key := by
    intro new hnew
    obtain ⟨r, hr, rfl⟩ := List.mem_map.mp hnew
    exact List.mem_map_of_mem (mem_ahead_iff.mp (List.mem_filter.mp hr).1).1
  have hscan : db.scanAssignmentReminders (reminders.map Reminder.key) (toFile data now reminders)
      skip now = (db.fileJobs now (toFile data now reminders)).cancelPending now
        (Db.isUnwanted .assignment (reminders.map Reminder.key) skip) :=
    fileJobs_cancelPending _ hbelow hkeys
  rw [hscan]
  show (db.fileJobs now (toFile data now reminders)).modifyJobs _ = Db.modifyJobs _ _
  refine congrArg (fun jobs : Table JobId PushJob => Db.mk jobs _ _) ?_
  show _ = (Table.modify _ _).modify _
  rw [Table.modify_modify]
  refine Table.modify_congr fun k job hjob => ?_
  simp only [mem_waiting_iff]
  rcases hfiled.new k job hjob with hold | ⟨hfresh, new, hnew, rfl⟩
  · have hiff : (∃ job', db.jobs.get k = some job' ∧ pendingReminder skip k job' = true) ↔
        pendingReminder skip k job = true := by simp [hold]
    simp only [hiff]
    split
    next hpending =>
      obtain ⟨hfree, hchannel, hstatus⟩ := pendingReminder_iff.mp hpending
      by_cases hvalid : isValid reminders job = true
      · rw [cancelRow_of_valid hvalid, upgradedRow, hold, Option.any_some, hpending, hvalid,
          settledJob, if_pos hvalid]
        rfl
      · have hunwanted : job.status = .pending ∧ Db.isUnwanted .assignment
            (reminders.map Reminder.key) skip k job = true := by
          refine ⟨hstatus, ?_⟩
          unfold Db.isUnwanted
          rw [hfree, hchannel, show (reminders.map Reminder.key).contains
            (job.userId, job.dedupeKey) = false from Bool.eq_false_of_not_eq_true hvalid]
          rfl
        rw [settledJob_of_not_valid hvalid, Db.cancelRow, if_pos hunwanted, upgradedRow, if_neg]
        exact fun h => hvalid (Bool.and_eq_true_iff.mp h).2
    next hpending =>
      have hwanted : ¬ (job.status = .pending ∧ Db.isUnwanted .assignment
          (reminders.map Reminder.key) skip k job = true) := by
        rintro ⟨hstatus, h⟩
        simp only [Db.isUnwanted, Bool.and_eq_true, Bool.not_eq_true', decide_eq_true_eq] at h
        exact hpending (pendingReminder_iff.mpr ⟨h.1.1, h.1.2, hstatus⟩)
      rw [Db.cancelRow, if_neg hwanted, upgradedRow, hold, Option.any_some, if_neg]
      exact fun h => hpending (Bool.and_eq_true_iff.mp h).1
  · rw [if_neg (by simp [hfresh]), cancelRow_of_valid (isValid_iff.mpr ?_), upgradedRow, hfresh]
    · rfl
    · obtain ⟨r, hr, hkey⟩ := List.mem_map.mp (hkeys new hnew)
      exact ⟨r, hr, hkey⟩

end Machine

/-! ### The scan -/

section Exact

variable {F : Type} (py : Floats F) (cfg : ScanSettings F) (data : Stored) (now : Time)
  (skip : JobId → Bool) (db : Db)

/-- What a scan is to leave. -/
structure Exact (scanned : Scanned) : Prop where
  /-- A waiting reminder that no other transaction held has a key the stored data give. -/
  wanted : ∀ k job, scanned.db.jobs.get k = some job → job.channel = .assignment →
    job.status = .pending → skip k = false →
      ∃ fireAt, Gives py cfg data now job.userId job.dedupeKey fireAt
  /-- A key that is still to fire, and whose user can receive it, has one active job. -/
  filed : ∀ userId key fireAt, Gives py cfg data now userId key fireAt → (now : Int) < fireAt →
    CanReceive data now userId → ∃! k, ∃ job, scanned.db.jobs.get k = some job ∧
      job.userId = userId ∧ job.dedupeKey = key ∧ job.status.dedupeActive = true
  /-- A second scan files, cancels and changes nothing. -/
  again : ∀ skip', (∀ k, skip k = true → skip' k = true) →
    scanAssignmentReminders py cfg data now skip' scanned.db = some ⟨scanned.db, 0, 0, 0⟩

variable {py cfg data now skip db}

theorem concerned_iff {userId : UserId} :
    Concerned cfg data now skip db userId ↔
      userId ∈ (eligible cfg data now).map (·.1) ++
        (db.jobs.select (pendingReminder skip)).map (·.2.userId) := by
  rw [List.mem_append, List.mem_map, List.mem_map]
  refine or_congr ⟨?_, ?_⟩ ⟨?_, ?_⟩
  · rintro ⟨student, k, row, due, hstudent, hrow, hdue⟩
    exact ⟨(userId, k, row), mem_eligible.mpr ⟨student, due, hstudent, hrow, hdue⟩, rfl⟩
  · rintro ⟨⟨_, k, row⟩, hmem, rfl⟩
    obtain ⟨student, due, hstudent, hrow, hdue⟩ := mem_eligible.mp hmem
    exact ⟨student, k, row, due, hstudent, hrow, hdue⟩
  · rintro ⟨j, job, hjob, rfl, hchannel, hstatus, hfree⟩
    exact ⟨(j, job), List.mem_filter.mpr ⟨(Table.get_eq_some_iff ..).mp hjob,
      pendingReminder_iff.mpr ⟨hfree, hchannel, hstatus⟩⟩, rfl⟩
  · rintro ⟨⟨j, job⟩, hmem, rfl⟩
    obtain ⟨hjob, hpending⟩ := List.mem_filter.mp hmem
    obtain ⟨hfree, hchannel, hstatus⟩ := pendingReminder_iff.mp hpending
    exact ⟨j, job, (Table.get_eq_some_iff ..).mpr hjob, rfl, hchannel, hstatus, hfree⟩

/-- With nothing to remind of and no job waiting, nothing is done. -/
theorem settle_nil (h : db.jobs.select (pendingReminder skip) = []) :
    settle data now [] skip db = ⟨db, 0, 0, 0⟩ := by
  have hmodify : db.modifyJobs (fun k job =>
      if (([] : List (JobId × PushJob)).map Prod.fst).contains k = true then
        settledJob now [] job else job) = db :=
    congrArg (fun jobs : Table JobId PushJob => { db with jobs })
      ((Table.modify_eq_self_iff ..).mpr fun r _ => if_neg Bool.false_ne_true)
  unfold settle
  dsimp only [ahead, List.filter_nil, List.map_nil]
  rw [h]
  show Scanned.mk (db.modifyJobs _) (db.nextJob - db.nextJob) 0 0 = _
  rw [hmodify, Nat.sub_self]

/-- The scan settles the reminders of all eligible assignments, unless it raises. -/
theorem scan_eq_some_iff {scanned : Scanned} :
    scanAssignmentReminders py cfg data now skip db = some scanned ↔
      (∀ userId, Concerned cfg data now skip db userId →
        (notificationPrefs py cfg (data.student userId).notification).isSome = true) ∧
      ∃ reminders, (eligible cfg data now).mapM (remindersOf py cfg data now) = some reminders ∧
        scanned = settle data now reminders.flatten skip db := by
  unfold scanAssignmentReminders
  simp only [concerned_iff]
  split
  next hnone =>
    obtain ⟨helig, hwaiting⟩ := List.append_eq_nil_iff.mp hnone
    rw [hnone, List.map_eq_nil_iff.mp helig]
    have hsettle : settle data now [].flatten skip db = ⟨db, 0, 0, 0⟩ :=
      settle_nil (List.map_eq_nil_iff.mp hwaiting)
    constructor
    · intro h
      exact ⟨fun _ h => (nomatch h), [], rfl, hsettle ▸ (Option.some.inj h).symm⟩
    · rintro ⟨-, reminders, h, rfl⟩
      obtain rfl : [] = reminders := Option.some.inj h
      rw [hsettle]
  next =>
    rw [← mapM_isSome_iff, Option.bind_eq_some_iff, Option.isSome_iff_exists]
    constructor
    · rintro ⟨prefs, hprefs, h⟩
      obtain ⟨reminders, hreminders, rfl⟩ := Option.map_eq_some_iff.mp h
      exact ⟨⟨prefs, hprefs⟩, reminders, hreminders, rfl⟩
    · rintro ⟨⟨prefs, hprefs⟩, reminders, hreminders, rfl⟩
      exact ⟨prefs, hprefs, Option.map_eq_some_iff.mpr ⟨reminders, hreminders, rfl⟩⟩

/-- What the scan reads can be read exactly when nothing in it raises. -/
theorem readable_iff :
    Readable py cfg data now skip db ↔
      (∀ userId, Concerned cfg data now skip db userId →
        (notificationPrefs py cfg (data.student userId).notification).isSome = true) ∧
      ∃ reminders,
        (eligible cfg data now).mapM (remindersOf py cfg data now) = some reminders := by
  rw [← Option.isSome_iff_exists, mapM_isSome_iff]
  constructor
  · rintro ⟨hdocuments, hfireTimes⟩
    have hprefs (userId : UserId) (h : Concerned cfg data now skip db userId) :
        (notificationPrefs py cfg (data.student userId).notification).isSome = true :=
      notificationPrefs_isSome_iff.mpr fun document => hdocuments userId document h
    refine ⟨hprefs, ?_⟩
    rintro ⟨userId, k, row⟩ hmem
    obtain ⟨student, due, hstudent, hrow, hdue⟩ := mem_eligible.mp hmem
    refine (remindersOf_isSome_iff hstudent hdue.dueAt).mpr ⟨?_, fun offsets offset => ?_⟩
    · rw [← student_eq hstudent]
      exact hprefs userId (.inl ⟨student, k, row, due, hstudent, hrow, hdue⟩)
    · exact hfireTimes userId student k row due offsets offset hstudent hrow hdue
  · rintro ⟨hprefs, hreminders⟩
    constructor
    · intro userId document hconcerned hdocument
      exact notificationPrefs_isSome_iff.mp (hprefs userId hconcerned) document hdocument
    · intro userId student k row due offsets offset hstudent hrow hdue
      have hmem : (userId, k, row) ∈ eligible cfg data now :=
        mem_eligible.mpr ⟨student, due, hstudent, hrow, hdue⟩
      exact ((remindersOf_isSome_iff hstudent hdue.dueAt).mp (hreminders _ hmem)).2 offsets offset

/-- Every reminder asked for carries the inputs of its copy. -/
theorem Asks.title {r : Reminder} (h : Asks py cfg data now r) :
    r.job.payload.assignmentTitle ≠ none := by
  obtain ⟨userId, student, k, row, due, offsets, offset, -, -, -, -, -, -, -, hjob⟩ := h
  rw [hjob]
  exact Option.some_ne_none _

/-- Its user's settings have been read. -/
theorem Asks.prefs {r : Reminder} (h : Asks py cfg data now r) :
    (notificationPrefs py cfg (data.student r.job.userId).notification).isSome = true := by
  obtain ⟨userId, student, k, row, due, offsets, offset, hstudent, -, -, hprefs, -, -, -, hjob⟩ := h
  rw [hjob, show (reminderJob py userId k row due offset r.fireAt).userId = userId from rfl,
    student_eq hstudent, hprefs]
  rfl

variable (hbelow : JobsBelow db) (hunique : db.KeysUnique)

include hbelow hunique

/-- A scan that does not raise leaves what it is to leave. -/
theorem exact_of_scan {scanned : Scanned}
    (h : scanAssignmentReminders py cfg data now skip db = some scanned) :
    Exact py cfg data now skip scanned := by
  obtain ⟨hprefs, reminders, hreminders, rfl⟩ := scan_eq_some_iff.mp h
  have hasks {r : Reminder} : r ∈ reminders.flatten ↔ Asks py cfg data now r :=
    mem_reminders hreminders
  have htitle : ∀ r ∈ reminders.flatten, r.job.payload.assignmentTitle ≠ none :=
    fun r hr => (hasks.mp hr).title
  constructor
  · intro k job hjob hchannel hstatus hfree
    have hwaiting := settle_waiting hbelow hunique htitle hjob
      (pendingReminder_iff.mpr ⟨hfree, hchannel, hstatus⟩)
    obtain ⟨r, hr, hkey⟩ := isValid_iff.mp hwaiting.1
    exact ⟨r.fireAt, gives_iff.mpr ⟨r, hasks.mp hr, hkey, rfl⟩⟩
  · intro userId key fireAt hgives hahead hreceive
    obtain ⟨r, hr, hkey, rfl⟩ := gives_iff.mp hgives
    obtain ⟨rfl, rfl⟩ := Prod.mk.inj hkey
    obtain ⟨k, job, hjob, hholds⟩ : (settle data now reminders.flatten skip db).db.Holds
        r.job.userId r.job.dedupeKey :=
      settle_holds hbelow hunique (hasks.mpr hr) hahead hreceive
    refine ⟨k, ⟨job, hjob, hholds⟩, ?_⟩
    rintro k' ⟨job', hjob', hholds'⟩
    exact settle_keysUnique hbelow hunique k' k job' job hjob' hjob
      (hholds'.1.trans hholds.1.symm) (hholds'.2.1.trans hholds.2.1.symm) hholds'.2.2 hholds.2.2
  · intro skip' hskip
    refine scan_eq_some_iff.mpr ⟨?_, reminders, hreminders, ?_⟩
    · -- Whose job still waits has been asked for, or was passed over.
      rintro userId (helig | ⟨j, job, hjob, rfl, hchannel, hstatus, hfree⟩)
      · exact hprefs userId (.inl helig)
      · have hfree' : skip j = false := by
          refine Bool.eq_false_of_not_eq_true fun htaken => ?_
          rw [hskip j htaken] at hfree
          cases hfree
        have hwaiting := settle_waiting hbelow hunique htitle hjob
          (pendingReminder_iff.mpr ⟨hfree', hchannel, hstatus⟩)
        obtain ⟨r, hr, hkey⟩ := isValid_iff.mp hwaiting.1
        rw [← (Prod.mk.inj hkey).1]
        exact (hasks.mp hr).prefs
    · exact (settle_again hbelow hunique htitle hskip).symm

/-- The scan leaves what it is to leave exactly when all that it reads can be read. -/
theorem scan_exact_iff :
    (∃ scanned, scanAssignmentReminders py cfg data now skip db = some scanned ∧
      Exact py cfg data now skip scanned) ↔ Readable py cfg data now skip db := by
  rw [readable_iff]
  constructor
  · rintro ⟨scanned, hscan, -⟩
    obtain ⟨hprefs, reminders, hreminders, -⟩ := scan_eq_some_iff.mp hscan
    exact ⟨hprefs, reminders, hreminders⟩
  · rintro ⟨hprefs, reminders, hreminders⟩
    have hscan := scan_eq_some_iff.mpr ⟨hprefs, reminders, hreminders, rfl⟩
    exact ⟨_, hscan, exact_of_scan hbelow hunique hscan⟩

end Exact

/-! ### Two students -/

/-- Whole numbers, small enough to be calculated with exactly. -/
def wholeHours : Floats Int where
  float q := some q.num
  sixtieth minutes := minutes / 60
  hours h := if h.natAbs < 24 * 1000000000 then some (h * 3600 * SECOND) else none
  format h := toString h

/-- A window of a week, and reminders an hour ahead. -/
def weekAhead : ScanSettings Int := ⟨[1], 168 * 3600 * SECOND⟩

/-- A phone that takes reminders. -/
def phone : ReminderDevice where
  deletedAt := none
  cloudSyncEnabled := true
  syncAssignmentReminders := true
  platform := .ios
  appVersion := some [2, 1, 0]
  tokens := [⟨true, true, none⟩]

/-- A student whose homework is due two hours after the epoch. -/
def student (notification : Option Document) : Student where
  assignments := homework.assignments.modify fun _ row => { row with dueAt := some (7200 * SECOND) }
  marks := Table.empty
  courses := Table.empty
  notification
  devices := [phone]

/-- One student, who has changed no setting. -/
def oneStudent : Stored := ⟨Table.empty.set 2 (student none), []⟩

/-- Her reminder is filed. -/
theorem scan_exact_of_one_student :
    Readable wholeHours weekAhead oneStudent 0 (fun _ => false) Db.initial ∧
      (scanAssignmentReminders wholeHours weekAhead oneStudent 0 (fun _ => false)
        Db.initial).map (·.created) = some 1 := by
  have hbelow : JobsBelow Db.initial := fun _ hj => absurd rfl hj
  have hunique : Db.initial.KeysUnique := fun _ _ _ _ hjob => nomatch hjob
  obtain ⟨scanned, hscan, hcreated⟩ : ∃ scanned,
      scanAssignmentReminders wholeHours weekAhead oneStudent 0 (fun _ => false) Db.initial =
        some scanned ∧ scanned.created = 1 := ⟨_, rfl, rfl⟩
  refine ⟨(scan_exact_iff hbelow hunique).mp ⟨scanned, hscan, exact_of_scan hbelow hunique hscan⟩,
    ?_⟩
  rw [hscan, Option.map_some, hcreated]

/-- Another student's document holds a list of offsets where the object of settings goes. -/
def listOfOffsets : Document := [("assignments", .array [.number 24])]

def twoStudents : Stored :=
  ⟨(Table.empty.set 1 (student (some listOfOffsets))).set 2 (student none), []⟩

/-- The scan raises, and the first student's document leaves the second without a reminder. -/
theorem one_document_stops_scan :
    ¬ (∃ scanned, scanAssignmentReminders wholeHours weekAhead twoStudents 0 (fun _ => false)
        Db.initial = some scanned ∧
          Exact wholeHours weekAhead twoStudents 0 (fun _ => false) scanned) ∧
      Gives wholeHours weekAhead twoStudents 0 2 (.reminder 9 "1h" 7200) (3600 * SECOND) ∧
        CanReceive twoStudents 0 2 := by
  refine ⟨?_, ?_, ⟨phone, List.mem_singleton_self _, rfl, _, List.mem_singleton_self _, rfl⟩⟩
  · rintro ⟨scanned, hscan, -⟩
    exact nomatch hscan
  · refine ⟨student none, ⟨301, 9⟩, _, 7200 * SECOND, [1], 1, rfl, rfl, ?_, rfl,
      List.mem_singleton_self _, ⟨phone, List.mem_singleton_self _, rfl⟩, rfl, rfl⟩
    exact
      { listed := .inl rfl
        live := rfl
        unsubmitted := rfl
        dueAt := rfl
        ahead := by decide
        inWindow := by decide
        unmarked := fun _ h => nomatch h
        notIgnored := fun _ _ h => nomatch h }

end TigerDuck.Push
