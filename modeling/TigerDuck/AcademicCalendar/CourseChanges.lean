import TigerDuck.AcademicCalendar.Days
import TigerDuck.Relational.Table
import TigerDuck.Sync.Merge

/-!
# Course changes

The portal's `course_changes` (`portal/app/routes/course_changes.py`) and how the feed and the class
pushes read them (`server/academic_calendar/changes.py`): a change of one kind to the meetings of a
course in a term, on one day or on every day of a range but the weekdays it leaves out.

A write holds the course's advisory lock from its check to its commit, so the writes of a course
follow one another. The schedule that `_LATEST` reads belongs to the students' course rows and is
edited by their uploads, with no regard to the changes.

A request's fields are taken as `_date` and `_text` have read them. A schedule is the entries of
either shape of `schedule_json`: the text of a day with its periods. Left out are the audit rows,
who wrote a change when, and the feed's names of the course.
-/

namespace TigerDuck.AcademicCalendar

open Relational

inductive Kind
  | cancelled
  | room
  | startTime
  | endTime
  | note
  deriving DecidableEq, Repr

/-- `KINDS`. -/
def Kind.text : Kind → String
  | .cancelled => "cancelled"
  | .room => "room"
  | .startTime => "start"
  | .endTime => "end"
  | .note => "note"

def KINDS : List Kind := [.cancelled, .room, .startTime, .endTime, .note]

inductive Mode
  | day
  | range
  deriving DecidableEq, Repr

def ROOM_MAX : Nat := 128

/-- The columns a request sets. -/
structure Columns where
  kind : Kind
  mode : Mode
  startDate : Day
  endDate : Day
  excludedWeekdays : List Nat
  periods : Option (List String)
  room : Option String
  startTime : Option String
  endTime : Option String
  noteZh : Option String
  noteEn : Option String
  deriving DecidableEq, Repr

/-- A row of `course_changes`. -/
structure CourseChange where
  termCode : String
  courseNo : String
  columns : Columns
  deriving DecidableEq, Repr

/-- A row of `semester_terms`. -/
structure SemesterTerm where
  startDate : Day
  endDate : Day
  deriving DecidableEq, Repr

/-- A schedule: the text of a day with its periods. -/
abbrev Schedule := List (String × List String)

/-- The calendar, the schedule of each course as `_LATEST` reads it, and the changes. -/
structure Db where
  terms : Table String SemesterTerm
  holidays : List (Day × Day)
  schedules : Table (String × String) Schedule
  changes : Table Nat CourseChange

/-- A request's body. A field is `none` when it is absent or no value that its reader takes;
`periods` and `excludedWeekdays` tell the two apart, and so does `courseNo`. -/
structure Body where
  courseNo : Option (Option String)
  kind : Option String
  mode : Option String
  day : Option Day
  first : Option Day
  last : Option Day
  excludedWeekdays : Option (Option (List Nat))
  periods : Option (Option (List String))
  room : Option String
  startTime : Option String
  endTime : Option String
  noteZh : Option String
  noteEn : Option String

def bad {α : Type} (detail : String) (status : Nat) : Except HttpError α := .error ⟨status, detail⟩

/-! ### Periods and meetings -/

/-- The number a period's digits name. -/
def digitsOf (period : String) : Option Nat :=
  if period ≠ "" ∧ period.toList.all Char.isDigit = true then
    some (period.toList.foldl (fun n c => 10 * n + (c.toNat - '0'.toNat)) 0)
  else none

/-- The order of `_period_key`: numbers first, by their value, then the others by their text. -/
def periodLe (p q : String) : Bool :=
  match digitsOf p, digitsOf q with
  | some n, some m => n < m || n == m && p ≤ q
  | some _, none => true
  | none, some _ => false
  | none, none => p ≤ q

/-- `sorted(set(periods), key=_period_key)`. -/
def sortedPeriods (periods : List String) : List String :=
  periods.eraseDups.insertionSort fun p q => periodLe p q = true

def ORDER : List String :=
  ["1", "2", "3", "4", "5", "6", "7", "8", "9", "10", "A", "B", "C", "D"]

/-- Whether a period follows another in `_ORDER`. -/
def backToBack (last period : String) : Bool :=
  ORDER.contains last && ORDER.contains period && ORDER.idxOf period == ORDER.idxOf last + 1

/-- `_meetings`: the runs of periods back to back. -/
def meetings (periods : List String) : List (List String) :=
  (sortedPeriods periods).foldl (fun runs period =>
    match runs.getLast? with
    | some run =>
      if run.getLast?.any (backToBack · period) then runs.dropLast ++ [run ++ [period]]
      else runs ++ [[period]]
    | none => [[period]]) []

/-- `course_meetings`: each weekday with its periods. -/
def courseMeetings (schedule : Schedule) : List (Nat × List String) :=
  [1, 2, 3, 4, 5, 6, 7].filterMap fun weekday =>
    let periods := ((schedule.filter (·.1 = toString weekday)).flatMap (·.2)).eraseDups
    if periods = [] then none else some (weekday, periods)

/-- The periods of a day, where the course meets on its weekday. -/
def meetsOn (meets : List (Nat × List String)) (d : Day) : Option (List String) :=
  meets.lookup (isoweekday d)

/-- `_meeting_days`: the days of the term in a range that the course meets on, holidays too. -/
def meetingDays (term : SemesterTerm) (meets : List (Nat × List String)) (first last : Day)
    (excluded : List Nat) : List Day :=
  (daysFromTo (max first term.startDate) (min last term.endDate)).filter fun d =>
    (meetsOn meets d).isSome && !excluded.contains (isoweekday d)

/-- `course_class_days` of a range, in any of the course's periods. -/
def classDays (db : Db) (term : SemesterTerm) (schedule : Schedule) (columns : Columns) : List Day :=
  (meetingDays term (courseMeetings schedule) columns.startDate columns.endDate
    columns.excludedWeekdays).filter fun d => !db.holidays.any fun h => h.1 ≤ d && d ≤ h.2

/-! ### What a request asks for -/

/-- `_HHMM`. -/
def isHHMM (time : String) : Bool :=
  match time.toList with
  | [h, h', ':', m, m'] =>
    (h == '0' || h == '1') && h'.isDigit && ('0' ≤ m && m ≤ '5') && m'.isDigit ||
      h == '2' && ('0' ≤ h' && h' ≤ '3') && ('0' ≤ m && m ≤ '5') && m'.isDigit
  | _ => false

/-- The time of a start or an end change. -/
def timeOf (kind : Kind) (time : Option String) : Except HttpError String :=
  match time.filter isHHMM with
  | some time => .ok time
  | none => bad (kind.text ++ " must be HH:mm") 400

/-- `_values`: of the room, the times and the notes only the kind's own are read. -/
def values (body : Body) (kind : Kind) (columns : Columns) : Except HttpError Columns :=
  match kind with
  | .cancelled => .ok columns
  | .room =>
    match body.room.filter fun room => room.length ≤ ROOM_MAX with
    | some room => .ok { columns with room := some room }
    | none => bad ("room required, at most " ++ toString ROOM_MAX ++ " characters") 400
  | .startTime => do return { columns with startTime := some (← timeOf kind body.startTime) }
  | .endTime => do return { columns with endTime := some (← timeOf kind body.endTime) }
  | .note =>
    match body.noteZh with
    | some noteZh => .ok { columns with noteZh := some noteZh, noteEn := body.noteEn }
    | none => bad "note_zh required" 400

/-- The mode, the range and the weekdays a request gives, before they are held to the term. -/
def rangeOf (body : Body) : Except HttpError (Mode × Day × Day × List Nat) :=
  if body.mode = some "day" then
    match body.day with
    | some day => .ok (.day, day, day, [])
    | none => bad "day must be YYYY-MM-DD" 400
  else if body.mode = some "range" then
    match body.first, body.last with
    | some first, some last =>
      if last < first then bad "to must not precede from" 400
      else match body.excludedWeekdays with
        | none => .ok (.range, first, last, [])
        | some (some weekdays) =>
          if weekdays.all fun d => 1 ≤ d && d ≤ 7 then
            .ok (.range, first, last, weekdays.eraseDups.insertionSort (· ≤ ·))
          else bad "excluded_weekdays must be ISO weekdays, 1 (Monday) to 7 (Sunday)" 400
        | some none => bad "excluded_weekdays must be ISO weekdays, 1 (Monday) to 7 (Sunday)" 400
    | _, _ => bad "from and to must be YYYY-MM-DD" 400
  else bad "mode must be day or range" 400

/-- `_dates`. -/
def dates (body : Body) (term : SemesterTerm) : Except HttpError (Mode × Day × Day × List Nat) := do
  let range ← rangeOf body
  match [range.2.1, range.2.2.1].find? fun d => !(term.startDate ≤ d && d ≤ term.endDate) with
  | some d => bad (isoformat d ++ " is outside the term") 400
  | none => return range

/-- The periods a request names, in order. -/
def periodsOf (body : Body) : Except HttpError (Option (List String)) :=
  match body.periods with
  | none => .ok none
  | some none => bad "periods must be a non-empty list, or absent for the whole day" 400
  | some (some []) => bad "periods must be a non-empty list, or absent for the whole day" 400
  | some (some (p :: rest)) => .ok (some (sortedPeriods (p :: rest)))

/-- `_parse`: the columns of the change a request describes. -/
def parse (body : Body) (term : SemesterTerm) : Except HttpError Columns := do
  match KINDS.find? fun kind => some kind.text = body.kind with
  | none => bad ("kind must be one of " ++ ", ".intercalate (KINDS.map Kind.text)) 400
  | some kind =>
    let valued ← values body kind ⟨kind, .day, 0, 0, [], none, none, none, none, none, none⟩
    let (mode, first, last, excluded) ← dates body term
    let periods ← periodsOf body
    return { valued with
      mode, startDate := first, endDate := last, excludedWeekdays := excluded, periods }

/-! ### The check of a write -/

/-- The course's other changes of a kind. -/
def others (db : Db) (term courseNo : String) (kind : Kind) (changeId : Option Nat) :
    List CourseChange :=
  (db.changes.select fun id change =>
    decide (change.termCode = term ∧ change.courseNo = courseNo ∧ change.columns.kind = kind ∧
      some id ≠ changeId)).map (·.2)

/-- Both name periods, and none in common. -/
def disjointPeriods (p q : Option (List String)) : Bool :=
  match p, q with
  | some p, some q => p ≠ [] && q ≠ [] && p.all fun period => !q.contains period
  | _, _ => false

/-- The days a change and another of its kind both take, as the schedule has them. -/
def clashes (term : SemesterTerm) (meets : List (Nat × List String)) (columns : Columns)
    (others : List CourseChange) : List Day :=
  let days := meetingDays term meets columns.startDate columns.endDate columns.excludedWeekdays
  (others.filter fun other => !disjointPeriods columns.periods other.columns.periods).flatMap
    fun other =>
      (meetingDays term meets other.columns.startDate other.columns.endDate
        other.columns.excludedWeekdays).filter fun d =>
          days.contains d && (other.columns.periods.getD []).all fun period =>
            ((meetsOn meets d).getD []).contains period

/-- Why a day does not take a change in the periods it names. -/
def missingPeriods (meets : List (Nat × List String)) (columns : Columns) (d : Day) :
    Option String :=
  let missing := (columns.periods.getD []).filter fun period =>
    !((meetsOn meets d).getD []).contains period
  if missing = [] then none
  else some ("the course has no class in period " ++ ", ".intercalate (sortedPeriods missing) ++
    " on " ++ isoformat d)

/-- Why a day does not take a new start or end: it is one meeting's. -/
def notOneMeeting (meets : List (Nat × List String)) (columns : Columns) (d : Day) :
    Option String :=
  let runs := meetings ((meetsOn meets d).getD [])
  match columns.periods with
  | none =>
    if 1 < runs.length then
      some ("the course meets more than once on " ++ isoformat d ++ "; a " ++ columns.kind.text ++
        " change needs the periods of one meeting")
    else none
  | some periods =>
    if runs.contains periods then none
    else some ("period " ++ ", ".intercalate periods ++ " is not one meeting of the course on " ++
      isoformat d)

/-- `_check`: a request against the term, its holidays, the course's times and its other changes
of the kind. -/
def check (db : Db) (termCode courseNo : String) (body : Body) (changeId : Option Nat) :
    Except HttpError Columns :=
  match db.terms.get termCode with
  | none => bad "term not found" 404
  | some term =>
    let schedule := (db.schedules.get (termCode, courseNo)).getD []
    let meets := courseMeetings schedule
    if meets = [] then
      let noStudent := "no student has " ++ courseNo ++ " with class times in " ++ termCode
      if changeId.isNone then bad noStudent 404
      else bad (noStudent ++ " any more, so the change can only be deleted") 409
    else match parse body term with
      | .error e => .error e
      | .ok columns =>
        let days := meetingDays term meets columns.startDate columns.endDate
          columns.excludedWeekdays
        if classDays db term schedule columns = [] then
          if columns.mode = .range then bad "the range covers no class day of the course" 400
          else if db.holidays.any fun h => h.1 ≤ columns.startDate && columns.startDate ≤ h.2 then
            bad (isoformat columns.startDate ++ " is a holiday") 400
          else bad ("the course has no class on " ++ isoformat columns.startDate) 400
        else match days.findSome? (missingPeriods meets columns) with
          | some detail => bad detail 400
          | none =>
            let timed := columns.kind = .startTime ∨ columns.kind = .endTime
            match if timed then days.findSome? (notOneMeeting meets columns) else none with
            | some detail => bad detail 400
            | none =>
              -- An exam and a make-up class can share a day; two values of another kind cannot.
              if columns.kind = .note then .ok columns
              else match (clashes term meets columns
                  (others db termCode courseNo columns.kind changeId)).min? with
                | some day =>
                  bad (isoformat day ++ " already has a " ++ columns.kind.text ++ " change") 409
                | none => .ok columns

/-! ### The routes -/

/-- `create_change`; `id` is what the sequence gives. -/
def createChange (db : Db) (id : Nat) (term : String) (body : Body) : Except HttpError Db :=
  match body.courseNo.join with
  | none => bad "course_no required" 400
  | some courseNo => do
    let parsed ← check db term courseNo body none
    return { db with changes := db.changes.set id ⟨term, courseNo, parsed⟩ }

/-- `update_change`: replaces the change; its term and course stay. -/
def updateChange (db : Db) (id : Nat) (body : Body) : Except HttpError Db :=
  match db.changes.get id with
  | none => bad "change not found" 404
  | some current =>
    if body.courseNo.isSome ∧ body.courseNo.join ≠ some current.courseNo then
      bad ("the change belongs to " ++ current.courseNo ++ "; add one to the other course") 400
    else do
      let parsed ← check db current.termCode current.courseNo body (some id)
      return { db with changes := db.changes.set id { current with columns := parsed } }

/-- `delete_change`. -/
def deleteChange (db : Db) (id : Nat) : Except HttpError Db :=
  match db.changes.get id with
  | none => bad "change not found" 404
  | some _ => .ok { db with changes := db.changes.deleteWhere fun k _ => k = id }

/-- A request of the portal, or an edit of the schedule that a course's changes refer to. -/
inductive Label
  | create (id : Nat) (term : String) (body : Body)
  | update (id : Nat) (body : Body)
  | delete (id : Nat)
  | editSchedule (term courseNo : String) (schedule : Schedule)

/-- What a request comes to; one that is refused changes nothing. -/
def Db.after (db : Db) : Except HttpError Db → Db
  | .ok db' => db'
  | .error _ => db

/-- One step. The sequence gives no id twice. -/
def step (db : Db) : Label → Option Db
  | .create id term body =>
    if (db.changes.get id).isSome then none else some (db.after (createChange db id term body))
  | .update id body => some (db.after (updateChange db id body))
  | .delete id => some (db.after (deleteChange db id))
  | .editSchedule term courseNo schedule =>
    some { db with schedules := db.schedules.set (term, courseNo) schedule }

/-! ### The feed -/

/-- A change as the feed loads it: with its id and the weekdays of the schedule it fits. -/
structure Row where
  id : Nat
  change : CourseChange
  meetingWeekdays : List Nat
  deriving DecidableEq

/-- The weekdays whose meetings have all the change's periods. -/
def meetingWeekdays (db : Db) (change : CourseChange) : List Nat :=
  let meets := courseMeetings ((db.schedules.get (change.termCode, change.courseNo)).getD [])
  (meets.filter fun m => (change.columns.periods.getD []).all m.2.contains).map (·.1)

/-- The order of the feed: by first day, course and id. -/
def rowLe (a b : Row) : Bool :=
  let (first, first') := (a.change.columns.startDate, b.change.columns.startDate)
  let (courseNo, courseNo') := (a.change.courseNo, b.change.courseNo)
  first < first' || first == first' &&
    (courseNo < courseNo' || courseNo == courseNo' && a.id ≤ b.id)

/-- `load_course_changes`. -/
def loadCourseChanges (db : Db) (terms : List String) (courseNo : Option String) : List Row :=
  ((db.changes.select fun _ change =>
    terms.contains change.termCode && courseNo.all (· == change.courseNo)).map fun r =>
      ⟨r.1, r.2, meetingWeekdays db r.2⟩).insertionSort fun a b => rowLe a b = true

/-- Whether a change is one to the meeting of a course that starts in a period on a day. -/
def changesMeeting (term courseNo : String) (day : Day) (period : String) (row : Row) : Bool :=
  decide (row.change.columns.kind ≠ .note) && row.change.termCode == term &&
    row.change.courseNo == courseNo &&
    decide (row.change.columns.startDate ≤ day ∧ day ≤ row.change.columns.endDate) &&
    !row.change.columns.excludedWeekdays.contains (isoweekday day) &&
    row.meetingWeekdays.contains (isoweekday day) &&
    row.change.columns.periods.all fun periods => periods.contains period

/-- `meeting_changes`: by kind, a later row over an earlier one. -/
def meetingChanges (changes : List Row) (term courseNo : String) (day : Day) (period : String) :
    Table Kind Row :=
  (changes.filter (changesMeeting term courseNo day period)).foldl
    (fun found row => found.set row.change.columns.kind row) Table.empty

end TigerDuck.AcademicCalendar
