import TigerDuck.Relational.Table
import TigerDuck.Sync.Merge

/-!
# Course membership by the TigerSync clock

The rows and rules of `server/sync/membership.py`. Per course key the user's last choice
is an add (`user_courses.added_at`), a hide or a removal (a tombstone's `deleted_at`) or
none; a term reset is a row of `user_semester_resets`, a full reset
`users.courses_reset_at`.

A course key is kept as the term and the number the apps build it from. Rows and
tombstones do not repeat them: every writer fills their `semester` and `course_no` columns
from the item it built the key from.
-/

namespace TigerDuck.Sync

open Relational

/-- A term's code, as NTUST writes it: not empty and without a colon. -/
structure Term where
  code : String
  ne_empty : code ≠ ""
  no_colon : ':' ∉ code.toList
  deriving DecidableEq

/-- A course number: not empty. -/
structure CourseNo where
  code : String
  ne_empty : code ≠ ""
  deriving DecidableEq

/-- A course key `client:{term}:{no}`. -/
structure CourseKey where
  term : Term
  no : CourseNo
  deriving DecidableEq

/-- The key as the apps write it. -/
def CourseKey.render (key : CourseKey) : String :=
  "client:" ++ key.term.code ++ ":" ++ key.no.code

/-- `str.partition(":")`, without the separator. -/
def partitionColon (s : List Char) : List Char × List Char :=
  (s.takeWhile (· ≠ ':'), (s.dropWhile (· ≠ ':')).drop 1)

/-- `semester_of`: the term in a course key, when it is one the apps build. -/
def semesterOf (courseKey : String) : Option String :=
  let (pre, rest) := partitionColon courseKey.toList
  let (semester, courseNo) := partitionColon rest
  if pre = "client".toList ∧ semester ≠ [] ∧ courseNo ≠ [] then some (String.ofList semester)
  else none

/-- Where a course row came from. -/
inductive CourseSource
  | ntustPortal
  | userAdded
  deriving DecidableEq, Repr

inductive EnrollmentStatus
  | enrolled
  | dropped
  | completed
  deriving DecidableEq, Repr

/-- A row of `user_courses`. -/
structure UserCourse where
  source : CourseSource
  /-- The stamp of the user's add, none for a course only the roster brought. -/
  addedAt : Option Time
  enrollmentStatus : EnrollmentStatus
  deriving DecidableEq, Repr

/-- A row of `user_course_tombstones`. -/
structure UserCourseTombstone where
  deletedAt : Time
  deletedByDeviceId : Option DeviceId
  deletedByReset : Bool
  userAdded : Bool
  deriving DecidableEq, Repr

/-- A row of `user_course_overrides`. A locale's name and its stamp are stored apart. -/
structure UserCourseOverride where
  colorHex : Field (Option String)
  ignoreAssignments : Field Bool
  customNames : Table String String
  customNamesUpdatedAt : Table String Time
  customNameUpdatedAt : Option Time
  customNameDeviceId : Option DeviceId
  moodleCourseId : Option Int

/-- The row `session.add` inserts before any field is set. -/
def UserCourseOverride.blank : UserCourseOverride :=
  ⟨Field.unset none, Field.unset false, Table.empty, Table.empty, none, none, none⟩

/-- What a tombstone says the user chose. -/
inductive TombstoneKind
  | hide
  | remove
  | reset
  deriving DecidableEq, Repr

/-- `tombstone_kind`. -/
def UserCourseTombstone.kind (tombstone : UserCourseTombstone) : TombstoneKind :=
  if tombstone.deletedByReset then .reset
  else if tombstone.userAdded then .remove
  else .hide

/-- The part of a row that the membership rules read. -/
def UserCourse.membership (row : UserCourse) : CourseSource × Option Time :=
  (row.source, row.addedAt)

/-- The part of a tombstone that the membership rules read. -/
def UserCourseTombstone.membership (tombstone : UserCourseTombstone) : TombstoneKind × Time :=
  (tombstone.kind, tombstone.deletedAt)

/-- What is stored of one course key: its row and its tombstone. -/
@[ext]
structure Membership where
  row : Option (CourseSource × Option Time)
  tombstone : Option (TombstoneKind × Time)
  deriving DecidableEq, Repr

/-- The stamp of the user's add of the key, if the row has one. -/
def Membership.added (m : Membership) : Option Time := m.row.bind Prod.snd

/-- `latest`: the greatest of the stamps that are present. -/
def latest (stamps : List (Option Time)) : Option Time :=
  stamps.foldr (Option.merge max) none

/-- `Resets`: the user's full reset and one reset per term. -/
structure Resets where
  full : Option Time
  terms : Table Term Time

/-- `Resets.covering`: the later of the full reset and the term's. -/
def Resets.covering (resets : Resets) (semester : Option Term) : Option Time :=
  latest [resets.full, semester.bind resets.terms.get]

/-- `membership_stamp`: the stamp a membership edit of the key must beat. -/
def membershipStamp (row : Option UserCourse) (tombstone : Option UserCourseTombstone)
    (resets : Resets) (semester : Option Term) : Option Time :=
  latest [row.bind (·.addedAt), tombstone.map (·.deletedAt), resets.covering semester]

/-- Whether a stamp is later than what is stored: `stored is None or stamp > stored`. -/
def beats (stamp : Time) (stored : Option Time) : Bool := stored.all (· < stamp)

/-- `override_outlasts`: whether the override holds a value stamped after the reset. -/
def overrideOutlasts (override : Option UserCourseOverride) (resetAt : Time) : Bool :=
  override.any fun o =>
    o.colorHex.updatedAt.any (resetAt < ·) || o.ignoreAssignments.updatedAt.any (resetAt < ·) ||
      o.customNamesUpdatedAt.rows.any (resetAt < ·.2)

/-- `_at_or_before`: a missing stamp counts as before every reset. -/
def atOrBefore (stamp : Option Time) (resetAt : Time) : Bool := stamp.all (· ≤ resetAt)

/-- The locales whose names `clear_before` empties. -/
def clearedLocales (o : UserCourseOverride) (resetAt : Time) : List String :=
  (o.customNames.keys ++ o.customNamesUpdatedAt.keys).filter fun locale =>
    (o.customNamesUpdatedAt.get locale).getD 0 ≤ resetAt

/-- The part of `clear_before` that writes the override, and whether it changed it. -/
def clearOverrideBefore (o : UserCourseOverride) (resetAt : Time) : UserCourseOverride × Bool :=
  let clearColor := (o.colorHex.value.isSome || o.colorHex.updatedAt.isSome) &&
    atOrBefore o.colorHex.updatedAt resetAt
  let clearIgnore := (o.ignoreAssignments.value || o.ignoreAssignments.updatedAt.isSome) &&
    atOrBefore o.ignoreAssignments.updatedAt resetAt
  let cleared := clearedLocales o resetAt
  let stamps := cleared.foldl (fun t locale => t.set locale resetAt) o.customNamesUpdatedAt
  let newest := (stamps.rows.map Prod.snd).max?
  let o := if clearColor then { o with colorHex := ⟨none, some resetAt, none⟩ } else o
  let o := if clearIgnore then { o with ignoreAssignments := ⟨false, some resetAt, none⟩ } else o
  let o := if cleared.isEmpty then o else
    { o with
      customNames := cleared.foldl (fun t locale => t.set locale "") o.customNames
      customNamesUpdatedAt := stamps
      customNameUpdatedAt := newest
      customNameDeviceId := if newest = some resetAt then none else o.customNameDeviceId }
  (o, clearColor || clearIgnore || !cleared.isEmpty)

/-- `clear_before`: the row's choices stamped at or before the reset go back to their
empty values, stamped at the reset. The last component says whether anything changed. -/
def clearBefore (row : UserCourse) (override : Option UserCourseOverride) (resetAt : Time) :
    UserCourse × Option UserCourseOverride × Bool :=
  let clearAdd := row.addedAt.any (· ≤ resetAt)
  let row := if clearAdd then { row with addedAt := none } else row
  match override with
  | none => (row, none, clearAdd)
  | some o =>
    let (o, changed) := clearOverrideBefore o resetAt
    (row, some o, clearAdd || changed)

/-! ### Lemmas of the stamp rules -/

/-- A key the apps build parses back to its term. -/
@[simp]
theorem semesterOf_render (key : CourseKey) : semesterOf key.render = some key.term.code := by
  obtain ⟨⟨term, hterm, hcolon⟩, ⟨no, hno⟩⟩ := key
  have hclient : ∀ rest : List Char,
      partitionColon ("client:".toList ++ rest) = ("client".toList, rest) := fun rest => rfl
  have hsplit : partitionColon (term.toList ++ (':' :: no.toList)) = (term.toList, no.toList) := by
    have hp : ∀ c ∈ term.toList, decide (c ≠ ':') = true := by
      intro c hc
      have hne : c ≠ ':' := fun h => hcolon (h ▸ hc)
      simpa using hne
    rw [partitionColon, List.takeWhile_append_of_pos hp, List.dropWhile_append_of_pos hp]
    simp
  have hchars : (CourseKey.render ⟨⟨term, hterm, hcolon⟩, ⟨no, hno⟩⟩).toList =
      "client:".toList ++ (term.toList ++ (':' :: no.toList)) := by
    simp [CourseKey.render, String.toList_append]
  have hterm' : term.toList ≠ [] := by simpa using hterm
  have hno' : no.toList ≠ [] := by simpa using hno
  simp only [semesterOf, hchars, hclient, hsplit, hterm', hno', ne_eq, not_false_eq_true,
    and_self, if_true, String.ofList_toList]

/-- A stamp as a number, `0` when absent, so that the rules below are linear arithmetic. -/
def bound (stamp : Option Time) : Nat := stamp.elim 0 (· + 1)

@[simp]
theorem bound_none : bound none = 0 := rfl

@[simp]
theorem bound_some (t : Time) : bound (some t) = t + 1 := rfl

/-- A stamp is what its bound says. -/
theorem bound_inj {a b : Option Time} : bound a = bound b ↔ a = b := by
  cases a <;> cases b <;> simp [bound]

/-- The later of two stamps has the greater bound. -/
theorem bound_merge (a b : Option Time) : bound (Option.merge max a b) = max (bound a) (bound b) := by
  cases a <;> cases b <;> simp [bound, Option.merge]

/-- The bound of `latest` is the greatest bound. -/
theorem bound_latest (stamps : List (Option Time)) :
    bound (latest stamps) = (stamps.map bound).foldr max 0 := by
  induction stamps with
  | nil => rfl
  | cons s rest ih =>
    simp only [latest, List.foldr_cons, List.map_cons]
    rw [bound_merge, ← ih]
    rfl

/-- A stamp beats what is stored exactly when it lies above its bound. -/
theorem beats_iff (stamp : Time) (stored : Option Time) :
    beats stamp stored = true ↔ bound stored ≤ stamp := by
  cases stored with
  | none => simp [beats]
  | some t =>
    have hlater : t < stamp ↔ bound (some t) ≤ stamp := Iff.rfl
    simpa [beats] using hlater

@[simp]
theorem bound_covering (resets : Resets) (term : Term) :
    bound (resets.covering (some term)) = max (bound resets.full) (bound (resets.terms.get term)) := by
  simp [Resets.covering, bound_latest]

@[simp]
theorem bound_membershipStamp (row : Option UserCourse) (tombstone : Option UserCourseTombstone)
    (resets : Resets) (semester : Option Term) :
    bound (membershipStamp row tombstone resets semester) =
      max (bound (row.bind (·.addedAt)))
        (max (bound (tombstone.map (·.deletedAt))) (bound (resets.covering semester))) := by
  simp [membershipStamp, bound_latest]

/-- Clearing touches the stamp of the add only, and only one the reset covers. -/
theorem addedAt_clearBefore (row : UserCourse) (override : Option UserCourseOverride)
    (resetAt : Time) :
    (clearBefore row override resetAt).1.addedAt =
      row.addedAt.filter fun t => decide (resetAt < t) := by
  rcases row with ⟨source, added, status⟩
  cases override <;> cases added with
  | none => rfl
  | some t =>
    by_cases h : t ≤ resetAt
    · simp [clearBefore, Option.filter, h]
    · simp [clearBefore, Option.filter, h]

@[simp]
theorem source_clearBefore (row : UserCourse) (override : Option UserCourseOverride)
    (resetAt : Time) : (clearBefore row override resetAt).1.source = row.source := by
  cases override <;> simp only [clearBefore] <;> split <;> rfl

end TigerDuck.Sync
