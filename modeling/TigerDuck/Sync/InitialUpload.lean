import TigerDuck.Sync.Overrides

/-!
# The courses of an initial upload

The course sections of `process_initial_upload`, `server/sync/upload.py`: the import of a
device's courses and the merge of their overrides. Server rows win: a key that has a row keeps
it. The upload holds the user's sync lock from its first read, so it is one step on the user's
rows; its `now` is read before it waits for that lock.

The skipped dates and the settings documents, which carry no stamp, are left out.
-/

namespace TigerDuck.Sync

open Relational

/-- A course of the upload. The descriptive columns are copied to the row and read by nothing
here. -/
structure UploadCourse where
  courseKey : CourseKey
  source : CourseSource
  enrollmentStatus : EnrollmentStatus
  deriving DecidableEq

/-- A course's override in the upload. -/
structure UploadCourseOverride where
  courseKey : CourseKey
  customName : Option String
  customNameUpdatedAt : Option Time
  colorHex : Option String
  colorHexUpdatedAt : Option Time
  ignoreAssignments : Option Bool
  ignoreAssignmentsUpdatedAt : Option Time
  moodleCourseId : Option Int
  deriving DecidableEq

/-- `_after`: whether a value is later than the reset; one without a time is the oldest. -/
def after (ts resetAt : Option Time) : Bool := beats (ts.getD OLDEST) resetAt

/-- The courses under way: the keys the upload has brought itself. -/
structure CourseImport where
  user : UserSync
  imported : List CourseKey

/-- One course: skip a key that has a row, insert any other. -/
def importCourse (now : Time) (s : CourseImport) (item : UploadCourse) : CourseImport :=
  if (s.user.courses.get item.courseKey).isSome then s
  else
    -- Stamped on arrival, as a released app's re-add is.
    let addedAt := if item.source = .userAdded then some now else none
    let row : UserCourse := ⟨item.source, addedAt, item.enrollmentStatus⟩
    { user := UserSync.appendChanges
        { s.user with courses := s.user.courses.set item.courseKey row }
        [⟨.upsert, .noHint item.courseKey⟩]
      imported := item.courseKey :: s.imported }

/-- The import of the courses. -/
def importCourses (u : UserSync) (now : Time) (courses : List UploadCourse) : CourseImport :=
  courses.foldl (importCourse now) ⟨u, []⟩

/-- The reset a value of the upload must be later than: none for a course the upload brought. -/
def uploadResetAt (u : UserSync) (imported : List CourseKey) (key : CourseKey) : Option Time :=
  if key ∈ imported then none else u.resets.covering (some key.term)

/-- The edits of one item. A name or a colour without a time counts as the oldest; an ignore
flag is taken only with its own time. -/
def UploadCourseOverride.apply (item : UploadCourseOverride) (e : OverrideEdits)
    (resetAt : Option Time) (deviceId : Option DeviceId) (now : Time) : OverrideEdits :=
  let e := (item.customName.filter fun _ => after item.customNameUpdatedAt resetAt).elim e
    fun name => e.setBothNames (item.customNameUpdatedAt.getD OLDEST) deviceId now (some name)
  let e := (item.colorHex.filter fun _ => after item.colorHexUpdatedAt resetAt).elim e
    fun color => e.setColor (item.colorHexUpdatedAt.getD OLDEST) deviceId now (some color)
  (item.ignoreAssignmentsUpdatedAt.filter fun ts => after (some ts) resetAt).elim e fun ts =>
    item.ignoreAssignments.elim e fun ignore => e.setIgnore ts deviceId now ignore

/-- One override: merged into its course's row, field by field. The second component says
whether anything changed, for its log entry. -/
def uploadOverride (imported : List CourseKey) (deviceId : Option DeviceId) (now : Time)
    (u : UserSync) (item : UploadCourseOverride) : UserSync × Bool :=
  if (u.courses.get item.courseKey).isNone then (u, false)
  else
    let override := u.override item.courseKey
    let edits := item.apply ⟨override, []⟩ (uploadResetAt u imported item.courseKey) deviceId now
    -- The numeric Moodle id fills a missing one, never replaces.
    let o :=
      { edits.override with moodleCourseId := override.moodleCourseId.or item.moodleCourseId }
    ({ u with overrides := u.overrides.set item.courseKey o },
      edits.changedFields ≠ [] || o.moodleCourseId != override.moodleCourseId)

/-- The overrides of an upload, in order, and how many it changed. -/
def uploadOverrides (imported : List CourseKey) (deviceId : Option DeviceId) (now : Time)
    (u : UserSync) (items : List UploadCourseOverride) : UserSync × Nat :=
  items.foldl (fun (u, n) item =>
    let (u, changed) := uploadOverride imported deviceId now u item
    (u, if changed then n + 1 else n)) (u, 0)

/-- The course sections of `process_initial_upload`, and the counts of what they wrote. -/
def initialUpload (u : UserSync) (deviceId : Option DeviceId) (now : Time)
    (courses : List UploadCourse) (overrides : List UploadCourseOverride) :
    UserSync × Nat × Nat :=
  let s := importCourses u now courses
  let (v, changed) := uploadOverrides s.imported deviceId now s.user overrides
  (v, s.imported.length, changed)

/-! ### What an initial upload does to the rows of one key -/

section Frame

variable (imported : List CourseKey) (deviceId : Option DeviceId) (now : Time)

/-- One override writes the overrides only. -/
theorem uploadOverride_eq (u : UserSync) (item : UploadCourseOverride) :
    ∃ overrides, (uploadOverride imported deviceId now u item).1 = { u with overrides } := by
  unfold uploadOverride
  split
  · exact ⟨u.overrides, rfl⟩
  · exact ⟨_, rfl⟩

/-- What each override keeps, the overrides of an upload keep. -/
theorem uploadOverrides_induction {P : UserSync → Prop} {items : List UploadCourseOverride}
    (hstep : ∀ u, ∀ item ∈ items, P u → P (uploadOverride imported deviceId now u item).1)
    {u : UserSync} (h : P u) : P (uploadOverrides imported deviceId now u items).1 :=
  List.foldlRecOn (motive := fun p : UserSync × Nat => P p.1) items _ h
    fun p hp item hitem => hstep p.1 item hitem hp

/-- The overrides of an upload write the overrides only. -/
theorem uploadOverrides_eq (items : List UploadCourseOverride) (u : UserSync) :
    ∃ overrides, (uploadOverrides imported deviceId now u items).1 = { u with overrides } := by
  refine uploadOverrides_induction imported deviceId now
    (P := fun v => ∃ overrides, v = { u with overrides }) ?_ ⟨u.overrides, rfl⟩
  rintro _ item _ ⟨overrides, rfl⟩
  exact uploadOverride_eq imported deviceId now { u with overrides } item

end Frame

section Import

variable (now : Time) (key : CourseKey)

/-- One course leaves everything but the rows and the log alone. -/
theorem importCourse_eq (s : CourseImport) (item : UploadCourse) :
    ∃ courses changes, (importCourse now s item).user = { s.user with courses, changes } := by
  unfold importCourse
  split
  · exact ⟨_, _, rfl⟩
  · exact ⟨_, _, rfl⟩

/-- The row of a key once a course is imported. -/
theorem get_importCourse (s : CourseImport) (item : UploadCourse) :
    (importCourse now s item).user.courses.get key =
      (s.user.courses.get key).or
        (if key = item.courseKey then
          some ⟨item.source, if item.source = .userAdded then some now else none,
            item.enrollmentStatus⟩
        else none) := by
  unfold importCourse
  by_cases hkey : key = item.courseKey
  · subst hkey
    cases hrow : s.user.courses.get item.courseKey with
    | none => simp [UserSync.appendChanges]
    | some row => simp [hrow]
  · split
    · simp
    · simp [hkey, UserSync.appendChanges]

/-- The import keeps what every course of it keeps. -/
theorem importCourses_eq (courses : List UploadCourse) (u : UserSync) :
    ∃ rows changes, (importCourses u now courses).user = { u with courses := rows, changes } := by
  suffices h : ∀ s : CourseImport, ∃ rows changes,
      (courses.foldl (importCourse now) s).user = { s.user with courses := rows, changes } from
    h ⟨u, []⟩
  induction courses with
  | nil => exact fun s => ⟨_, _, rfl⟩
  | cons item courses ih =>
    intro s
    obtain ⟨rows, changes, hitem⟩ := importCourse_eq now s item
    obtain ⟨rows', changes', hrest⟩ := ih (importCourse now s item)
    exact ⟨rows', changes', by rw [List.foldl_cons, hrest, hitem]⟩

/-- A key that has a row is not imported. -/
theorem not_mem_imported (courses : List UploadCourse) {u : UserSync}
    (hrow : (u.courses.get key).isSome) : key ∉ (importCourses u now courses).imported := by
  suffices h : ∀ s : CourseImport, (s.user.courses.get key).isSome → key ∉ s.imported →
      key ∉ (courses.foldl (importCourse now) s).imported from h ⟨u, []⟩ hrow List.not_mem_nil
  induction courses with
  | nil => exact fun s _ hs => hs
  | cons item courses ih =>
    intro s hs hnot
    refine ih _ ?_ ?_
    · rw [get_importCourse, Option.isSome_or, hs, Bool.true_or]
    · unfold importCourse
      split
      · exact hnot
      next hnone =>
        -- The key has a row, so it is not the course imported.
        have hkey : key ≠ item.courseKey := fun h => hnone (h ▸ hs)
        simpa [hkey] using hnot

/-- After the import a key has a row exactly when it had one or the upload lists it. -/
theorem isSome_importCourses (courses : List UploadCourse) (u : UserSync) :
    ((importCourses u now courses).user.courses.get key).isSome =
      ((u.courses.get key).isSome || courses.any (·.courseKey = key)) := by
  suffices h : ∀ s : CourseImport,
      ((courses.foldl (importCourse now) s).user.courses.get key).isSome =
        ((s.user.courses.get key).isSome || courses.any (·.courseKey = key)) from h ⟨u, []⟩
  induction courses with
  | nil => simp
  | cons item courses ih =>
    intro s
    rw [List.foldl_cons, ih, get_importCourse, List.any_cons]
    by_cases hkey : key = item.courseKey
    · simp [hkey]
    · simp [hkey, Ne.symm hkey]

end Import

section InitialUpload

variable (u : UserSync) (deviceId : Option DeviceId) (now : Time) (courses : List UploadCourse)
  (overrides : List UploadCourseOverride) (key : CourseKey)

/-- An initial upload writes rows, overrides and log entries, and no tombstone or reset. -/
theorem initialUpload_eq :
    ∃ rows overrides' changes, (initialUpload u deviceId now courses overrides).1 =
      { u with courses := rows, overrides := overrides', changes } := by
  obtain ⟨rows, changes, hcourses⟩ := importCourses_eq now courses u
  obtain ⟨overrides', hoverrides⟩ := uploadOverrides_eq (importCourses u now courses).imported
    deviceId now overrides (importCourses u now courses).user
  exact ⟨rows, overrides', changes, by rw [initialUpload, hoverrides, hcourses]⟩

/-- After an initial upload a key has a row exactly when it had one or the upload lists it. -/
theorem isSome_initialUpload :
    ((initialUpload u deviceId now courses overrides).1.courses.get key).isSome =
      ((u.courses.get key).isSome || courses.any (·.courseKey = key)) := by
  obtain ⟨overrides', hoverrides⟩ := uploadOverrides_eq (importCourses u now courses).imported
    deviceId now overrides (importCourses u now courses).user
  rw [initialUpload, hoverrides]
  exact isSome_importCourses now key courses u

@[simp]
theorem tombstones_initialUpload :
    (initialUpload u deviceId now courses overrides).1.tombstones = u.tombstones := by
  obtain ⟨rows, overrides', changes, heq⟩ := initialUpload_eq u deviceId now courses overrides
  rw [heq]

@[simp]
theorem resets_initialUpload :
    (initialUpload u deviceId now courses overrides).1.resets = u.resets := by
  obtain ⟨rows, overrides', changes, heq⟩ := initialUpload_eq u deviceId now courses overrides
  rw [heq]
  rfl

end InitialUpload

section Registers

/-- What an item sends for a field: a name or a colour without a time has the oldest. -/
def UploadCourseOverride.sends (item : UploadCourseOverride) : StampedField → Option Sent
  | .colorHex => item.colorHex.map fun _ => ⟨true, item.colorHexUpdatedAt.getD OLDEST⟩
  | .ignoreAssignments =>
    item.ignoreAssignments.bind fun ignore =>
      item.ignoreAssignmentsUpdatedAt.map fun ts => ⟨ignore, ts⟩
  | .customName locale =>
    if locale = "zh" ∨ locale = "en" then
      item.customName.map fun name => ⟨name ≠ "", item.customNameUpdatedAt.getD OLDEST⟩
    else none

/-- The edits of an item offer each field what it sends, unless a reset covers its time. -/
theorem register_upload (item : UploadCourseOverride) (e : OverrideEdits) (resetAt : Option Time)
    (deviceId : Option DeviceId) (now : Time) (f : StampedField) :
    (item.apply e resetAt deviceId now).override.register f =
      (e.override.register f).take (item.sends f) resetAt now := by
  simp only [UploadCourseOverride.apply, register_elim, register_setIgnore, register_setBothNames,
    register_setColor, after]
  cases f with
  | colorHex =>
    cases hcolor : item.colorHex <;>
      cases hbeats : beats (item.colorHexUpdatedAt.getD OLDEST) resetAt <;>
      simp [UploadCourseOverride.sends, elim_same, Register.take_some, Option.filter, hcolor, hbeats]
  | ignoreAssignments =>
    cases hignore : item.ignoreAssignments <;>
      simp [UploadCourseOverride.sends, elim_same, take_map, hignore]
  | customName locale =>
    by_cases hlocale : locale = "zh" ∨ locale = "en" <;> cases hname : item.customName <;>
      cases hbeats : beats (item.customNameUpdatedAt.getD OLDEST) resetAt <;>
      simp [UploadCourseOverride.sends, elim_same, Register.take_some, Option.filter, hlocale, hname,
        hbeats]

/-- One override of an upload offers the fields of its course what it sends. -/
theorem register_uploadOverride (imported : List CourseKey) (deviceId : Option DeviceId)
    (now : Time) (u : UserSync) (item : UploadCourseOverride) (key : CourseKey)
    (hrow : (u.courses.get key).isSome) (f : StampedField) :
    ((uploadOverride imported deviceId now u item).1.override key).register f =
      if key = item.courseKey then
        ((u.override key).register f).take (item.sends f) (uploadResetAt u imported key) now
      else (u.override key).register f := by
  by_cases hkey : key = item.courseKey
  · subst hkey
    have hsome : (u.courses.get item.courseKey).isNone = false := by simpa using hrow
    simp only [uploadOverride, hsome, Bool.false_eq_true, if_false, if_true]
    rw [← register_upload item ⟨u.override item.courseKey, []⟩ _ deviceId]
    simp [UserSync.override]
  · rw [if_neg hkey]
    unfold uploadOverride
    split
    · rfl
    · simp [UserSync.override, hkey]

end Registers

end TigerDuck.Sync
