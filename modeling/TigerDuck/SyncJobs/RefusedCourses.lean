import TigerDuck.SyncJobs.AssignmentMirror
import TigerDuck.SyncJobs.ClaimHolder

/-!
# Refused courses

`HttpAssignmentFetcher.fetch_assignments` (`server/syncjobs/moodle_client.py`), and what becomes of
the rows of a course whose warning says Moodle refused it. An answer without any course names its
refused courses and spares their rows. An answer that lists a course beside the warning is taken
for the whole of the user's assignments, and the refused course's rows are deleted.

A JSON value stands as what the client's type tests tell of it. An entry without the shape of an
object, and a time past what `datetime` holds, fail the fetch; both are left out.

## Main results

- `refused_course_kept_iff`: when the run that stores an answer keeps the refused courses' rows.
- `mixed_answer_drops_refused_course`: an answer that lists one course and refuses another.
-/

namespace TigerDuck.SyncJobs

open Relational Transition

/-- A JSON value where Moodle gives an id. -/
inductive JsonId
  | int (value : Int)
  | bool (value : Bool)
  | other
  deriving DecidableEq, Repr

namespace JsonId

/-- `isinstance(_, int)`, which a Python bool passes. -/
def isInstanceInt : JsonId → Option MoodleId
  | int value => some value
  | bool value => some (if value then 1 else 0)
  | other => none

/-- `type(_) is int` -/
def typeIsInt : JsonId → Option MoodleId
  | int value => some value
  | _ => none

/-- The id in a URL. -/
def format : JsonId → Option String
  | int value => some (toString value)
  | bool value => some (if value then "True" else "False")
  | other => none

end JsonId

/-- An entry of a course's `assignments`. -/
structure AssignmentEntry where
  id : JsonId
  cmid : JsonId
  name : Option String
  duedate : Option Int
  cutoffdate : Option Int
  allowsubmissionsfromdate : Option Int
  intro : Option String
  deriving DecidableEq, Repr

/-- An entry of `courses`. -/
structure CourseEntry where
  id : JsonId
  fullname : Option String
  assignments : List AssignmentEntry
  deriving DecidableEq, Repr

/-- An entry of `warnings`. -/
structure Warning where
  item : Option String
  itemid : JsonId
  deriving DecidableEq, Repr

/-- What `response.json()` gives. -/
inductive Body
  | invalidJson
  | notObject
  | exception (errorcode : Option String)
  /-- `courses` is missing where it is no list, and `warnings` empty. -/
  | object (courses : Option (List CourseEntry)) (warnings : List Warning)

/-- How Moodle's web service answers. -/
inductive Response
  | httpError (text : String)
  | answered (statusCode : Nat) (body : Body)

/-- The errors of `fetch_assignments`. -/
inductive MoodleError
  | tokenInvalid
  | rateLimited
  | unreachable (detail : String)
  | noCourseAccess (refusedCourseIds : List MoodleId)

/-- `_ts`: Unix seconds on the clock of `datetime`, with 0 for none. -/
def ts (value : Option Int) : Option Time :=
  (value.filter (0 < ·)).map fun seconds => seconds.toNat * 1000000

/-- The text, unless it is empty. -/
def nonempty (text : Option String) : Option String := text.filter (· ≠ "")

/-- A listed assignment. -/
def AssignmentEntry.fetched (baseUrl : String) (courseId : MoodleId) (courseName : Option String)
    (item : AssignmentEntry) : Option FetchedAssignment :=
  item.id.isInstanceInt.map fun assignmentId =>
    { moodleCourseId := courseId
      moodleAssignmentId := assignmentId
      courseName
      title := item.name.getD ""
      dueAt := ts item.duedate
      cutoffAt := ts item.cutoffdate
      allowFromAt := ts item.allowsubmissionsfromdate
      moodleUrl := item.cmid.format.map fun cmid =>
        baseUrl ++ "/mod/assign/view.php?id=" ++ cmid
      introHtml := nonempty item.intro }

/-- The assignments of a listed course. -/
def CourseEntry.fetched (baseUrl : String) (course : CourseEntry) : List FetchedAssignment :=
  match course.id.isInstanceInt with
  | some courseId =>
    course.assignments.filterMap fun item =>
      item.fetched baseUrl courseId (nonempty course.fullname)
  | none => []

/-- The ids of the course warnings. -/
def refusedIds (warnings : List Warning) : List JsonId :=
  (warnings.filter fun w => w.item = some "course").map (·.itemid)

/-- The courses the warnings name. -/
def refusedCourses (warnings : List Warning) : List MoodleId :=
  (refusedIds warnings).filterMap JsonId.typeIsInt

/-- `fetch_assignments` -/
def fetchAssignments (baseUrl : String) : Response → Except MoodleError (List FetchedAssignment)
  | .httpError text => .error (.unreachable (String.ofList (text.toList.take 200)))
  | .answered statusCode body =>
    if statusCode = 429 then .error .rateLimited
    else
      match body with
      | .invalidJson => .error (.unreachable "invalid_json")
      | .notObject => .error (.unreachable ("http_" ++ toString statusCode))
      | .exception errorcode =>
        if 400 ≤ statusCode then .error (.unreachable ("http_" ++ toString statusCode))
        else if errorcode = some "invalidtoken" then .error .tokenInvalid
        else .error (.unreachable ((nonempty errorcode).getD "moodle_exception"))
      | .object courses warnings =>
        if 400 ≤ statusCode then .error (.unreachable ("http_" ++ toString statusCode))
        else
          match courses with
          | none => .error (.unreachable "unexpected_shape")
          | some courses =>
            let refused := refusedIds warnings
            if courses = [] ∧ refused ≠ [] then
              -- Any stored course may be the one a warning does not name.
              if refused.all (·.typeIsInt.isSome) then
                .error (.noCourseAccess (refusedCourses warnings))
              else .error (.unreachable "no_course_access")
            else .ok (courses.flatMap (·.fetched baseUrl))

/-- What `_execute_job` takes of it, with the course list it fetches next. -/
def fetchAnswer (enrolled : Except CourseError (Option Classification)) :
    Except MoodleError (List FetchedAssignment) → MoodleAnswer
  | .ok fetched => .fetched (.assignments fetched enrolled)
  | .error .tokenInvalid => .tokenInvalid
  | .error .rateLimited => .rateLimited
  | .error (.unreachable detail) => .unreachable detail
  | .error (.noCourseAccess refusedCourseIds) => .fetched (.noCourseAccess refusedCourseIds)

/-- The answer has an entry for the assignment of the key, or has its placeholder's row. -/
def HasEntry (courses : List CourseEntry) (rows : Assignments) (key : AssignmentKey) : Prop :=
  ∃ course ∈ courses, ∃ courseId ∈ course.id.isInstanceInt, ∃ item ∈ course.assignments,
    ∃ id ∈ item.id.isInstanceInt,
      ⟨courseId, id⟩ = key ∨ ⟨0, id⟩ = key ∧ rows.get ⟨courseId, id⟩ = none

/-- No live row of a refused course is deleted. -/
def KeepsRefused (refused : List MoodleId) (before after : Assignments) : Prop :=
  ∀ key row, before.get key = some row → row.deletedAt = none → key.moodleCourseId ∈ refused →
    ∀ row', after.get key = some row' → row'.deletedAt = none

/-- The answer lists the live rows of the refused courses after all. -/
def ListsRefused (courses : List CourseEntry) (refused : List MoodleId) (rows : Assignments) : Prop :=
  ∀ key row, rows.get key = some row → row.deletedAt = none → key.moodleCourseId ∈ refused →
    HasEntry courses rows key

/-- The assignments of an answer are those of its entries. -/
theorem mem_fetched_iff {baseUrl : String} {courses : List CourseEntry} {item : FetchedAssignment} :
    item ∈ courses.flatMap (·.fetched baseUrl) ↔
      ∃ course ∈ courses, ∃ courseId ∈ course.id.isInstanceInt, ∃ entry ∈ course.assignments,
        entry.fetched baseUrl courseId (nonempty course.fullname) = some item := by
  rw [List.mem_flatMap]
  refine exists_congr fun course => and_congr_right fun _ => ?_
  unfold CourseEntry.fetched
  cases course.id.isInstanceInt with
  | none => simp
  | some courseId => simp [List.mem_filterMap]

/-- What the mirror calls listed has an entry. -/
theorem listed_iff_hasEntry {baseUrl : String} {courses : List CourseEntry} {rows : Assignments}
    {key : AssignmentKey} :
    Listed (courses.flatMap (·.fetched baseUrl)) rows key ↔ HasEntry courses rows key := by
  unfold Listed HasEntry
  rw [← exists_or]
  simp only [mem_fetched_iff, ← and_or_left]
  constructor
  · rintro ⟨item, ⟨course, hcourse, courseId, hcourseId, entry, hentry, hitem⟩, hkey⟩
    obtain ⟨id, hid, rfl⟩ := Option.map_eq_some_iff.mp hitem
    exact ⟨course, hcourse, courseId, hcourseId, entry, hentry, id, hid, hkey⟩
  · rintro ⟨course, hcourse, courseId, hcourseId, entry, hentry, id, hid, hkey⟩
    have hitem : entry.fetched baseUrl courseId (nonempty course.fullname) = some _ :=
      Option.map_eq_some_iff.mpr ⟨id, hid, rfl⟩
    refine ⟨_, ⟨course, hcourse, courseId, hcourseId, entry, hentry, hitem⟩, ?_⟩
    exact hkey

/-- The rows once an answer with a course is applied keep the refused courses' exactly where the
answer lists them. -/
theorem keepsRefused_listed_iff {now : Time} {baseUrl : String} {courses : List CourseEntry}
    {enrolled : Option Classification} {refused : List MoodleId} {rows : Assignments}
    {nextId : Nat} :
    KeepsRefused refused rows (applyFetchedAssignments now (courses.flatMap (·.fetched baseUrl))
      enrolled [] rows nextId).rows ↔ ListsRefused courses refused rows := by
  unfold KeepsRefused ListsRefused
  refine forall_congr' fun key => forall_congr' fun row => ?_
  refine forall_congr' fun hrow => forall_congr' fun hlive => forall_congr' fun _ => ?_
  rw [kept_iff hrow hlive, listed_iff_hasEntry]
  simp

/-- An answer without a course keeps the rows of the courses it refuses. -/
theorem keepsRefused_noCourseAccess {now : Time} {refused : List MoodleId} {rows : Assignments}
    {nextId : Nat} :
    KeepsRefused refused rows (applyFetchedAssignments now [] none refused rows nextId).rows := by
  intro key row hrow hlive hrefused
  rw [kept_iff hrow hlive]
  exact .inr ⟨List.ne_nil_of_mem hrefused, .inr hrefused⟩

/-! ### The run that stores the answer -/

section Stored

variable {cfg : Settings} {db db' : Db} {r : RunId} {e : Exec}

/-- The rows of the run's user once it has stored Moodle's answer. -/
theorem storeAnswer_rows (howns : db.Owns r e) (nonce : Nonce) (now : Time) (answer : Fetched) :
    (db.storeAnswer r e nonce now answer).assignments e.userId =
      match answer with
      | .assignments fetched enrolled =>
        (applyFetchedAssignments now fetched (enrolled.toOption.bind id) [] (db.assignments e.userId)
          db.nextId).rows
      | .noCourseAccess refused =>
        (applyFetchedAssignments now [] none refused (db.assignments e.userId) db.nextId).rows
      | .courses .. => db.assignments e.userId := by
  unfold Db.storeAnswer
  rw [if_pos howns]
  cases answer with
  | courses fetchedCount changedCount => rfl
  | noCourseAccess refused => exact Function.update_self ..
  | assignments fetched enrolled => exact Function.update_self ..

/-- Storing the answer is the only step of a run that deletes a row. -/
theorem runStep_keeps_live {act : Act} (hact : act ≠ .storeAnswer)
    (hstep : runStep cfg db r e act = some db') {userId : UserId} {key : AssignmentKey}
    {row row' : UserAssignment} (hrow : (db.assignments userId).get key = some row)
    (hlive : row.deletedAt = none) (hrow' : (db'.assignments userId).get key = some row') :
    row'.deletedAt = none := by
  rcases runStep_writes hstep with hsame | ⟨heq, _⟩ | ⟨_, now, done, fetched, _, rfl⟩
  · rw [hsame, hrow] at hrow'
    exact Option.some.inj hrow' ▸ hlive
  · exact absurd heq hact
  · change Table.get (Function.update db.assignments e.userId _ userId) key = _ at hrow'
    by_cases huser : userId = e.userId
    · subst huser
      rw [Function.update_self, applyExtensions, applySubmissionStatus, Table.get_modify,
        Table.get_modify, hrow] at hrow'
      obtain rfl := Option.some.inj hrow'
      rw [extendedRow_deletedAt, submittedRow_deletedAt]
      exact hlive
    · rw [Function.update_of_ne huser, hrow] at hrow'
      exact Option.some.inj hrow' ▸ hlive

/-- **A refused course keeps its rows** through the run that stores an answer exactly when the
answer has no other course, or lists those rows itself, or the run has lost its claim. -/
theorem refused_course_kept_iff (baseUrl : String) (statusCode : Nat) (courses : List CourseEntry)
    (warnings : List Warning) (enrolled : Except CourseError (Option Classification))
    {answer : Fetched}
    (hanswer : fetchAnswer enrolled (fetchAssignments baseUrl
      (.answered statusCode (.object (some courses) warnings))) = .fetched answer)
    {nonce : Nonce} {now : Time} (he : db.execs r = some e)
    (hphase : e.phase = .answered nonce now answer)
    (hstep : step cfg db (.run r .storeAnswer) = some db') :
    KeepsRefused (refusedCourses warnings) (db.assignments e.userId) (db'.assignments e.userId) ↔
      courses = [] ∨ ¬ db.Owns r e ∨
        ListsRefused courses (refusedCourses warnings) (db.assignments e.userId) := by
  have hdb : db' = db.storeAnswer r e nonce now answer := by
    simp only [step, he, Option.bind_some, runStep, hphase, Option.some.injEq] at hstep
    exact hstep.symm
  subst hdb
  by_cases howns : db.Owns r e
  · rw [storeAnswer_rows howns]
    simp only [fetchAssignments] at hanswer
    split at hanswer
    · cases hanswer
    · split at hanswer
      · cases hanswer
      · split at hanswer
        next hmixed =>
          -- No course but refused ones: each has its id, or nothing is stored.
          split at hanswer
          · cases hanswer
            exact iff_of_true keepsRefused_noCourseAccess (.inl hmixed.1)
          · cases hanswer
        next hmixed =>
          cases hanswer
          rw [keepsRefused_listed_iff]
          refine ⟨fun hlists => .inr (.inr hlists), ?_⟩
          rintro (hempty | hlost | hlists)
          · have hnone : refusedCourses warnings = [] := by
              have hrefused : refusedIds warnings = [] := by
                by_contra hrefused
                exact hmixed ⟨hempty, hrefused⟩
              rw [refusedCourses, hrefused, List.filterMap_nil]
            intro key row _ _ hmem
            rw [hnone] at hmem
            cases hmem
          · exact absurd howns hlost
          · exact hlists
  · have hsame : (db.storeAnswer r e nonce now answer).assignments = db.assignments :=
      storeAnswer_of_not_owns howns nonce answer
    refine iff_of_true ?_ (.inr (.inl howns))
    intro key row hrow hlive _ row' hrow'
    rw [hsame, hrow] at hrow'
    exact Option.some.inj hrow' ▸ hlive

end Stored

/-- A course with one assignment, without dates. -/
def courseEntry (courseId assignmentId : Int) : CourseEntry where
  id := .int courseId
  fullname := some "Algorithms"
  assignments := [⟨.int assignmentId, .other, some "report", none, none, none, none⟩]

/-- What the run takes of an answer with the given courses and course 7002 refused, if it is. -/
def refusing (courses : List CourseEntry) (refused : Bool) : MoodleAnswer :=
  fetchAnswer (.ok none) (fetchAssignments "https://moodle.example.edu"
    (.answered 200 (.object (some courses) (if refused then [⟨some "course", .int 7002⟩] else []))))

/-- A run stores the assignments of two courses, and the next one gets `answer`. -/
def listedThen (answer : MoodleAnswer) : List Label :=
  [.setPolicy .moodleAssignments (some ⟨true, DEFAULT_INTERVAL, none, none, 100, 3⟩),
    .login 7 "token" true 1, .claim ⟨7, .moodleAssignments⟩ "worker" 2, .run 0 (.startRun 3),
    .run 0 (.readCredential 3),
    .run 0 (.moodleAnswers (refusing [courseEntry 7001 555, courseEntry 7002 601] false)),
    .run 0 .storeAnswer, .run 0 .selectProbe, .run 0 .finish, .runNow ⟨7, .moodleAssignments⟩ 4,
    .claim ⟨7, .moodleAssignments⟩ "worker" 5, .run 1 (.startRun 6), .run 1 (.readCredential 6),
    .run 1 (.moodleAnswers answer)]

/-- An answer that refuses every course keeps the refused course's row. -/
theorem refused_course_kept_of_no_course :
    ∃ db db', exec (step defaultSettings) Db.initial (listedThen (refusing [] true)) = some db ∧
      step defaultSettings db (.run 1 .storeAnswer) = some db' ∧
      KeepsRefused [7002] (db.assignments 7) (db'.assignments 7) ∧
      ((db'.assignments 7).get ⟨7001, 555⟩).map (·.deletedAt) = some (some 6) ∧
      ((db'.assignments 7).get ⟨7002, 601⟩).map (·.deletedAt) = some none := by
  obtain ⟨db, db', e, hexec, hstep, he, hphase, hdeleted⟩ : ∃ db db' e,
      exec (step defaultSettings) Db.initial (listedThen (refusing [] true)) = some db ∧
        step defaultSettings db (.run 1 .storeAnswer) = some db' ∧ db.execs 1 = some e ∧
          (e.userId = 7 ∧ e.phase = .answered 0 6 (.noCourseAccess [7002])) ∧
            ((db'.assignments 7).get ⟨7001, 555⟩).map (·.deletedAt) = some (some 6) ∧
              ((db'.assignments 7).get ⟨7002, 601⟩).map (·.deletedAt) = some none :=
    ⟨_, _, _, rfl, rfl, rfl, ⟨rfl, rfl⟩, by decide, by decide⟩
  refine ⟨db, db', hexec, hstep, ?_, hdeleted⟩
  have hkept := (refused_course_kept_iff "https://moodle.example.edu" 200 []
    [⟨some "course", .int 7002⟩] (.ok none) rfl he hphase.2 hstep).mpr (.inl rfl)
  rwa [hphase.1] at hkept

/-- An answer that lists a course beside the refused one deletes the refused course's row. -/
theorem mixed_answer_drops_refused_course :
    ∃ db db', exec (step defaultSettings) Db.initial
        (listedThen (refusing [courseEntry 7001 555] true)) = some db ∧
      step defaultSettings db (.run 1 .storeAnswer) = some db' ∧
      ((db.assignments 7).get ⟨7002, 601⟩).map (·.deletedAt) = some none ∧
      ((db'.assignments 7).get ⟨7002, 601⟩).map (·.deletedAt) = some (some 6) ∧
      ¬ KeepsRefused [7002] (db.assignments 7) (db'.assignments 7) := by
  refine ⟨_, _, rfl, rfl, by decide, by decide, fun hkeeps => ?_⟩
  have hlive := hkeeps ⟨7002, 601⟩ _ rfl rfl (by decide) _ rfl
  cases hlive

end TigerDuck.SyncJobs
