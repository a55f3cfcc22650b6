import Mathlib.Data.List.Sort
import TigerDuck.AcademicCalendar.Days
import TigerDuck.Push.Jobs
import TigerDuck.Sync.Marks

/-!
# The rows reminders are decided by

What `server/push/reminders.py` reads of a user's assignments, marks and courses, and the term of
`server/academic_calendar/terms.py`. The reminder scan reads it to file a job, the pre-send check
to let one go.

Of a course and its override only the columns read here are kept.
-/

namespace TigerDuck.Push

open AcademicCalendar Relational Sync SyncJobs

/-! ### A list of answers, none of which fails -/

section MapM

variable {α β : Type} {f : α → Option β} {xs : List α} {ys : List β}

theorem mapM_isSome_iff : (xs.mapM f).isSome = true ↔ ∀ x ∈ xs, (f x).isSome = true := by
  induction xs with
  | nil => simp
  | cons x rest ih =>
    rw [List.mapM_cons, List.forall_mem_cons, ← ih]
    cases f x <;> cases rest.mapM f <;> simp

theorem mem_of_mapM_eq_some (h : xs.mapM f = some ys) {y : β} :
    y ∈ ys ↔ ∃ x ∈ xs, f x = some y := by
  induction xs generalizing ys with
  | nil =>
    obtain rfl := Option.some.inj h
    simp
  | cons x rest ih =>
    rw [List.mapM_cons] at h
    obtain ⟨z, hz, h⟩ := Option.bind_eq_some_iff.mp h
    obtain ⟨zs, hzs, h⟩ := Option.bind_eq_some_iff.mp h
    obtain rfl := Option.some.inj h
    rw [List.mem_cons, ih hzs, List.exists_mem_cons_iff, hz, Option.some_inj, eq_comm]

end MapM

/-! ### The current term -/

/-- A row of `semester_terms`, without its last day. -/
structure SemesterTerm where
  code : String
  startDate : Day
  deriving DecidableEq, Repr

/-- `date(1970, 1, 1).toordinal()`. -/
def EPOCH_DAY : Day := 719163

/-- The school day a time falls on, in Taipei. -/
def schoolDay (now : Time) : Day := EPOCH_DAY + (now + 8 * 3600 * SECOND) / (24 * 3600 * SECOND)

/-- `current_term_code`: the term that began most recently, or the earliest. -/
def currentTermCode (terms : List SemesterTerm) (now : Time) : Option String :=
  let began := terms.filter (·.startDate ≤ schoolDay now)
  let latestFirst := began.insertionSort fun t t' =>
    t'.startDate < t.startDate ∨ t'.startDate = t.startDate ∧ t'.code ≤ t.code
  let earliestFirst := terms.insertionSort fun t t' =>
    t.startDate < t'.startDate ∨ t.startDate = t'.startDate ∧ t'.code ≤ t.code
  ((latestFirst.head?).or earliestFirst.head?).map (·.code)

/-! ### A user's rows -/

/-- A row of `user_courses` with its override; a course without one ignores nothing. -/
structure CourseRow where
  semester : String
  courseNo : Option String
  moodleCourseId : Option MoodleId
  ignoreAssignments : Bool
  deriving DecidableEq, Repr

/-- What a user's rows say of the assignments. -/
structure UserRows where
  assignments : Assignments
  /-- The overrides of the assignments, by `user_assignments.id`. -/
  marks : Marks
  /-- The courses, by `user_courses.id`. -/
  courses : Table Nat CourseRow

def UserRows.empty : UserRows := ⟨Table.empty, Table.empty, Table.empty⟩

/-- Whether the status is one of the `EXCLUDED_LOCAL_STATUSES`. -/
def excluded : AssignmentLocalStatus → Bool
  | .none => false
  | .locallyCompleted | .ignored | .archived => true

theorem excluded_eq_false_iff {status : AssignmentLocalStatus} :
    excluded status = false ↔ status = .none := by
  cases status <;> simp [excluded]

/-- What `ignored_courses` finds of one user. -/
structure IgnoredCourses where
  courseIds : List MoodleId
  courseNos : List String
  deriving DecidableEq, Repr

namespace UserRows

variable (rows : UserRows) (term : Option String)

/-- Whether the row's mark keeps its reminders back. -/
def marked (row : UserAssignment) : Bool :=
  (rows.marks.get row.id).any fun mark => excluded mark.localStatus.value

theorem marked_eq_false_iff {rows : UserRows} {row : UserAssignment} :
    rows.marked row = false ↔
      ∀ mark, rows.marks.get row.id = some mark → mark.localStatus.value = .none := by
  unfold marked
  cases rows.marks.get row.id <;> simp [excluded_eq_false_iff]

/-- `ignored_courses`: numbers count from the current term alone, when one is published. -/
def ignoredCourses : IgnoredCourses :=
  let ignoring := (rows.courses.select fun _ course => course.ignoreAssignments).map Prod.snd
  { courseIds := ignoring.filterMap (·.moodleCourseId)
    courseNos := (ignoring.filter fun course => term.all (course.semester = ·)).filterMap
      fun course => course.courseNo.filter (· ≠ "") }

end UserRows

/-- `in_ignored_course`: by the Moodle course, or a placeholder by its number. -/
def IgnoredCourses.has (ignored : IgnoredCourses) (key : AssignmentKey) (row : UserAssignment) :
    Bool :=
  ignored.courseIds.contains key.moodleCourseId ||
    (decide (key.moodleCourseId = 0) && row.courseNo.any ignored.courseNos.contains)

/-- The course whose assignments the user ignores covers the row. -/
def CourseRow.Covers (course : CourseRow) (term : Option String) (key : AssignmentKey)
    (row : UserAssignment) : Prop :=
  course.moodleCourseId = some key.moodleCourseId ∨
    key.moodleCourseId = 0 ∧ course.courseNo = row.courseNo ∧ (row.courseNo.any (· ≠ "")) = true ∧
      ∀ code ∈ term, course.semester = code

/-- A row is in an ignored course exactly when some course that ignores covers it. -/
theorem has_ignoredCourses_iff {rows : UserRows} {term : Option String} {key : AssignmentKey}
    {row : UserAssignment} :
    (rows.ignoredCourses term).has key row = true ↔
      ∃ id course, rows.courses.get id = some course ∧ course.ignoreAssignments = true ∧
        course.Covers term key row := by
  -- Both lists come from the courses that ignore.
  have hignoring (course : CourseRow) :
      course ∈ (rows.courses.select fun _ c => c.ignoreAssignments).map Prod.snd ↔
        ∃ id, rows.courses.get id = some course ∧ course.ignoreAssignments = true := by
    simp [Table.select, Table.get_eq_some_iff]
  simp only [IgnoredCourses.has, UserRows.ignoredCourses, Bool.or_eq_true, Bool.and_eq_true,
    decide_eq_true_eq, List.contains_iff_mem, List.mem_filterMap, List.mem_filter, hignoring,
    Option.any_eq_true, CourseRow.Covers]
  constructor
  · rintro (⟨course, ⟨id, hget, hignores⟩, hcourse⟩ |
      ⟨hzero, no, hno, course, ⟨⟨id, hget, hignores⟩, hterm⟩, hnumber⟩)
    · exact ⟨id, course, hget, hignores, .inl hcourse⟩
    · obtain ⟨hcourseNo, hne⟩ := Option.filter_eq_some_iff.mp hnumber
      refine ⟨id, course, hget, hignores, .inr ⟨hzero, hcourseNo.trans hno.symm, ⟨no, hno, ?_⟩, ?_⟩⟩
      · simpa using hne
      · intro code hcode
        rw [Option.mem_def.mp hcode] at hterm
        simpa using hterm
  · rintro ⟨id, course, hget, hignores, hcourse | ⟨hzero, hsame, ⟨no, hno, hne⟩, hterm⟩⟩
    · exact .inl ⟨course, ⟨id, hget, hignores⟩, hcourse⟩
    · refine .inr ⟨hzero, no, hno, course, ⟨⟨id, hget, hignores⟩, ?_⟩, ?_⟩
      · cases term with
        | none => rfl
        | some code => simpa using hterm code rfl
      · rw [hsame, hno]
        exact Option.filter_eq_some_iff.mpr ⟨rfl, by simpa using hne⟩

/-- The whole seconds of a due time, as keys and payloads name it. -/
def dueSeconds (due : Time) : Nat := due / SECOND

/-- One assignment, due an hour after the epoch. -/
def homework : UserRows where
  assignments := Table.empty.set ⟨301, 9⟩
    { courseName := none
      title := "Homework"
      dueAt := some (3600 * SECOND)
      cutoffAt := none
      allowFromAt := none
      moodleUrl := none
      introHtml := none
      id := 5
      userCourseId := none
      moodleSemester := none
      courseNo := none
      extensionDueAt := none
      providerIsSubmitted := false
      providerSubmittedAt := none
      providerGrade := none
      fetchedAt := 0
      lastSeenAt := 0
      deletedAt := none }
  marks := Table.empty
  courses := Table.empty


end TigerDuck.Push
