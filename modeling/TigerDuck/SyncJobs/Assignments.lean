import Mathlib.Data.List.Sort
import TigerDuck.Relational.Table
import TigerDuck.Sync.Merge

/-!
# Fetched assignments

What a sync run writes to one user's `user_assignments`: `apply_fetched_assignments` of
`server/syncjobs/assignments.py` mirrors the list Moodle answered, and
`apply_submission_status` and `apply_extensions` of `server/syncjobs/submissions.py` write
the answers of the probe that follows. Each runs under the user's sync lock, so each is one
function on the user's rows.

The change-log entries are kept as the list of what was logged. What `listed_courses` makes
of the enrolled courses and the class table is taken as a `Classification`.
-/

namespace TigerDuck.SyncJobs

open Relational

/-- An id of Moodle's, as an app or Moodle itself gives it. -/
abbrev MoodleId := Int

/-- The unique key of a user's assignment. -/
structure AssignmentKey where
  moodleCourseId : MoodleId
  moodleAssignmentId : MoodleId
  deriving DecidableEq, Repr

/-- The `_PROVIDER_FIELDS`, mirrored from the fetch. -/
structure ProviderFields where
  courseName : Option String
  title : String
  dueAt : Option Time
  cutoffAt : Option Time
  allowFromAt : Option Time
  moodleUrl : Option String
  introHtml : Option String
  deriving DecidableEq, Repr

/-- A `FetchedAssignment`. -/
structure FetchedAssignment extends ProviderFields where
  moodleCourseId : MoodleId
  moodleAssignmentId : MoodleId
  deriving DecidableEq, Repr

/-- The part of a `FetchedSubmission` the probe reads. -/
structure FetchedSubmission where
  isSubmitted : Bool
  submittedAt : Option Time
  extensionDueAt : Option Time
  deriving DecidableEq, Repr

/-- A row of `user_assignments`, under its key. -/
structure UserAssignment extends ProviderFields where
  id : Nat
  userCourseId : Option Nat
  moodleSemester : Option String
  courseNo : Option String
  extensionDueAt : Option Time
  providerIsSubmitted : Bool
  providerSubmittedAt : Option Time
  providerGrade : Option String
  fetchedAt : Time
  lastSeenAt : Time
  deletedAt : Option Time
  deriving DecidableEq, Repr

/-- The rows of one user. -/
abbrev Assignments := Table AssignmentKey UserAssignment

/-- An assignment entry of the change log. -/
inductive AssignmentChange
  | upsert (id : Nat) (fields : List String)
  | delete (id : Nat)
  deriving DecidableEq, Repr

/-- What the enrolled courses say of the rows: the number `listed_courses` files a Moodle
course under, the class table's course of that number, and the semester of its idnumber. -/
structure Classification where
  listed : MoodleId → Option String
  classTable : String → Option Nat
  semesterByCourse : MoodleId → String

/-- The later of a stored time and an extension. -/
def laterOf (stored : Option Time) (extension : Time) : Option Time :=
  stored.map (max · extension)

/-- The dates of an assignment for a student with an extension. -/
def withExtension (item : ProviderFields) : Option Time → ProviderFields
  | none => item
  | some extension =>
    { item with
      dueAt := (laterOf item.dueAt extension).getD extension
      cutoffAt := laterOf item.cutoffAt extension }

/-- The extension, while it is later than the due date Moodle listed. -/
def keptExtension (item : ProviderFields) (extension : Option Time) : Option Time :=
  extension.filter fun e => item.dueAt.all (· < e)

/-- `name` where a field changed. -/
def changedField {α : Type} [DecidableEq α] (name : String) (old new : α) : List String :=
  if old = new then [] else [name]

/-- The names of the `_PROVIDER_FIELDS` that differ. -/
def ProviderFields.changed (old new : ProviderFields) : List String :=
  changedField "course_name" old.courseName new.courseName ++
    changedField "title" old.title new.title ++
    changedField "due_at" old.dueAt new.dueAt ++
    changedField "cutoff_at" old.cutoffAt new.cutoffAt ++
    changedField "allow_from_at" old.allowFromAt new.allowFromAt ++
    changedField "moodle_url" old.moodleUrl new.moodleUrl ++
    changedField "intro_html" old.introHtml new.introHtml

/-- What a new row's entry names. -/
def PROVIDER_FIELDS : List String :=
  ["course_name", "title", "due_at", "cutoff_at", "allow_from_at", "moodle_url", "intro_html"]

namespace FetchedAssignment

def key (item : FetchedAssignment) : AssignmentKey := ⟨item.moodleCourseId, item.moodleAssignmentId⟩

/-- The key of a row an app uploaded before any fetch listed it. -/
def placeholderKey (item : FetchedAssignment) : AssignmentKey := ⟨0, item.moodleAssignmentId⟩

end FetchedAssignment

/-- Whether the stored due date is past the other. -/
def dueLater (stored listed : Option Time) : Bool :=
  stored.any fun s => listed.any fun l => decide (l < s)

/-- The list sync under way. -/
structure ListSync where
  rows : Assignments
  /-- The next `user_assignments.id`. -/
  nextId : Nat
  changes : List AssignmentChange
  /-- Assignments whose stored due date the sync moved back. -/
  recheckIds : List MoodleId

namespace ListSync

/-- A placeholder becomes the row of the assignment a fetch lists. -/
def adopt (s : ListSync) (item : FetchedAssignment) : ListSync × List String :=
  match s.rows.get item.key, s.rows.get item.placeholderKey with
  | none, some row =>
    let row :=
      if dueLater row.dueAt item.dueAt then { row with extensionDueAt := row.dueAt } else row
    let rest := s.rows.deleteWhere fun k _ => k = item.placeholderKey
    ({ s with rows := rest.set item.key row }, ["moodle_course_id"])
  | _, _ => (s, [])

/-- A row for an assignment the user did not have. -/
def newRow (now : Time) (enrolled : Option Classification) (id : Nat) (item : FetchedAssignment) :
    UserAssignment :=
  let courseNo := enrolled.bind fun c => c.listed item.moodleCourseId
  { item.toProviderFields with
    id
    userCourseId := enrolled.bind fun c => courseNo.bind c.classTable
    moodleSemester := enrolled.map fun c => c.semesterByCourse item.moodleCourseId
    courseNo
    extensionDueAt := none
    providerIsSubmitted := false
    providerSubmittedAt := none
    providerGrade := none
    fetchedAt := now
    lastSeenAt := now
    deletedAt := none }

/-- A row with the classification's link, number and semester, and the fields that changed. -/
def link (row : UserAssignment) (item : FetchedAssignment) :
    Option Classification → UserAssignment × List String
  | none => (row, [])
  | some c =>
    let courseNo := c.listed item.moodleCourseId
    let linkedId := courseNo.bind c.classTable
    ({ row with
        userCourseId := linkedId
        courseNo := courseNo.or row.courseNo
        moodleSemester := some (c.semesterByCourse item.moodleCourseId) },
      changedField "user_course_id" row.userCourseId linkedId ++
        changedField "course_no" row.courseNo (courseNo.or row.courseNo))

/-- A stored row with what the fetch says of it, and the fields that changed. -/
def updatedRow (now : Time) (enrolled : Option Classification) (row : UserAssignment)
    (item : FetchedAssignment) : UserAssignment × List String :=
  let extension := keptExtension item.toProviderFields row.extensionDueAt
  let dated := withExtension item.toProviderFields extension
  let (linked, linkFields) := link { row with toProviderFields := dated } item enrolled
  ({ linked with
      extensionDueAt := extension
      deletedAt := none
      fetchedAt := now
      lastSeenAt := now },
    row.toProviderFields.changed dated ++ linkFields ++
      changedField "deleted_at" row.deletedAt none)

/-- One round of the loop over the fetched assignments. -/
def applyItem (now : Time) (enrolled : Option Classification) (s : ListSync)
    (item : FetchedAssignment) : ListSync :=
  let (s, adopted) := s.adopt item
  match s.rows.get item.key with
  | none =>
    { s with
      rows := s.rows.set item.key (newRow now enrolled s.nextId item)
      nextId := s.nextId + 1
      changes := s.changes ++ [.upsert s.nextId PROVIDER_FIELDS] }
  | some row =>
    let (row', changed) := updatedRow now enrolled row item
    let fields := adopted ++ changed
    { s with
      rows := s.rows.set item.key row'
      changes := s.changes ++ (if fields = [] then [] else [.upsert row.id fields])
      recheckIds := s.recheckIds ++
        (if dueLater row.dueAt row'.dueAt then [item.moodleAssignmentId] else []) }

/-- Whether a row the answer leaves out is deleted: not one the refused courses may hold. -/
def leftOut (fetched : List FetchedAssignment) (refusedCourseIds : List MoodleId)
    (key : AssignmentKey) (row : UserAssignment) : Bool :=
  !(fetched.map FetchedAssignment.key).contains key && row.deletedAt.isNone &&
    !(refusedCourseIds ≠ [] ∧ (key.moodleCourseId = 0 ∨ key.moodleCourseId ∈ refusedCourseIds))

/-- Soft-delete the rows the answer leaves out. -/
def deleteLeftOut (now : Time) (fetched : List FetchedAssignment) (refusedCourseIds : List MoodleId)
    (s : ListSync) : ListSync :=
  let out := s.rows.select (leftOut fetched refusedCourseIds)
  { s with
    rows := s.rows.modify fun k row =>
      if leftOut fetched refusedCourseIds k row then { row with deletedAt := some now } else row
    changes := s.changes ++ out.map fun r => .delete r.2.id }

end ListSync

/-- `apply_fetched_assignments`. The count of changes is the number of entries. -/
def applyFetchedAssignments (now : Time) (fetched : List FetchedAssignment)
    (enrolled : Option Classification) (refusedCourseIds : List MoodleId) (rows : Assignments)
    (nextId : Nat) : ListSync :=
  (fetched.foldl (ListSync.applyItem now enrolled) ⟨rows, nextId, [], []⟩).deleteLeftOut now fetched
    refusedCourseIds

/-- `select_assignment_ids`: what is worth probing, within `window` either side of now. -/
def selectAssignmentIds (now window : Time) (also : List MoodleId) (rows : Assignments) :
    List MoodleId :=
  let worth := fun (k : AssignmentKey) (row : UserAssignment) =>
    row.deletedAt.isNone && !row.providerIsSubmitted && row.dueAt.any fun due =>
      (decide (now < due + window) && (decide (due ≤ now + window) || row.extensionDueAt.isSome)) ||
        also.contains k.moodleAssignmentId
  ((rows.select worth).map (·.1.moodleAssignmentId)).insertionSort (· ≤ ·)

/-- The answers of a probe, by assignment. -/
abbrev Submissions := Table MoodleId FetchedSubmission

/-- What this run's list sync listed, by assignment. -/
def listedById (fetched : List FetchedAssignment) : Table MoodleId FetchedAssignment :=
  fetched.foldl (fun listed a => listed.set a.moodleAssignmentId a) Table.empty

/-- A row after `apply_submission_status`: only a submission flips one. -/
def submittedRow (now : Time) (fetched : Submissions) (key : AssignmentKey)
    (row : UserAssignment) : UserAssignment :=
  match fetched.get key.moodleAssignmentId with
  | some item =>
    if item.isSubmitted ∧ row.deletedAt = none ∧ row.providerIsSubmitted = false then
      { row with
        providerIsSubmitted := true
        providerSubmittedAt := some (item.submittedAt.getD now) }
    else row
  | none => row

/-- `apply_submission_status`. -/
def applySubmissionStatus (now : Time) (fetched : Submissions) (rows : Assignments) : Assignments :=
  rows.modify (submittedRow now fetched)

/-- A row after `apply_extensions`: an answer without an extension withdraws it. -/
def extendedRow (fetched : Submissions) (listed : Table MoodleId FetchedAssignment)
    (key : AssignmentKey) (row : UserAssignment) : UserAssignment :=
  match fetched.get key.moodleAssignmentId, listed.get key.moodleAssignmentId with
  | some item, some listedItem =>
    if row.deletedAt = none then
      let extension := keptExtension listedItem.toProviderFields item.extensionDueAt
      let dated := withExtension listedItem.toProviderFields extension
      { row with extensionDueAt := extension, dueAt := dated.dueAt, cutoffAt := dated.cutoffAt }
    else row
  | _, _ => row

/-- `apply_extensions`. -/
def applyExtensions (fetched : Submissions) (listed : Table MoodleId FetchedAssignment)
    (rows : Assignments) : Assignments :=
  rows.modify (extendedRow fetched listed)

/-- Whether the probe's answers leave a live row as it is: they report no submission it does
not have, and the extension and dates they give are the stored ones. -/
def AnswerStored (fetched : Submissions) (listed : Table MoodleId FetchedAssignment)
    (key : AssignmentKey) (row : UserAssignment) : Prop :=
  row.deletedAt = none → ∀ item ∈ fetched.get key.moodleAssignmentId,
    (item.isSubmitted = true → row.providerIsSubmitted = true) ∧
      ∀ listedItem ∈ listed.get key.moodleAssignmentId,
        let extension := keptExtension listedItem.toProviderFields item.extensionDueAt
        let dated := withExtension listedItem.toProviderFields extension
        row.extensionDueAt = extension ∧ row.dueAt = dated.dueAt ∧ row.cutoffAt = dated.cutoffAt

instance (fetched : Submissions) (listed : Table MoodleId FetchedAssignment) (key : AssignmentKey)
    (row : UserAssignment) : Decidable (AnswerStored fetched listed key row) :=
  inferInstanceAs (Decidable (_ → _))

section Probe

variable (now : Time) (fetched : Submissions) (listed : Table MoodleId FetchedAssignment)

/-- A live row keeps its submission flag exactly when no answer flips it. -/
theorem submittedRow_eq_self_iff (key : AssignmentKey) (row : UserAssignment) :
    submittedRow now fetched key row = row ↔
      (row.deletedAt = none → ∀ item ∈ fetched.get key.moodleAssignmentId,
        item.isSubmitted = true → row.providerIsSubmitted = true) := by
  unfold submittedRow
  cases fetched.get key.moodleAssignmentId with
  | none => simp
  | some item =>
    simp only [Option.mem_some_iff, forall_eq']
    split
    next hflip =>
      obtain ⟨hsubmitted, hlive, hopen⟩ := hflip
      have hne : ¬ row.providerIsSubmitted = true := by simp [hopen]
      refine ⟨fun heq => ?_, fun h => absurd (h hlive hsubmitted) hne⟩
      exact absurd (congrArg UserAssignment.providerIsSubmitted heq).symm hne
    next hkept =>
      refine ⟨fun _ hlive hsubmitted => ?_, fun _ => rfl⟩
      by_contra hopen
      exact hkept ⟨hsubmitted, hlive, Bool.eq_false_iff.mpr hopen⟩

/-- A live row keeps its dates exactly when the answer gives the stored ones. -/
theorem extendedRow_eq_self_iff (key : AssignmentKey) (row : UserAssignment) :
    extendedRow fetched listed key row = row ↔
      (row.deletedAt = none → ∀ item ∈ fetched.get key.moodleAssignmentId,
        ∀ listedItem ∈ listed.get key.moodleAssignmentId,
          let extension := keptExtension listedItem.toProviderFields item.extensionDueAt
          let dated := withExtension listedItem.toProviderFields extension
          row.extensionDueAt = extension ∧ row.dueAt = dated.dueAt ∧
            row.cutoffAt = dated.cutoffAt) := by
  unfold extendedRow
  split
  next item listedItem hitem hlisted =>
    simp only [hitem, hlisted, Option.mem_some_iff, forall_eq']
    split
    next hlive =>
      refine ⟨fun heq _ => ?_, fun h => ?_⟩
      · refine ⟨(congrArg UserAssignment.extensionDueAt heq).symm, ?_, ?_⟩
        · exact (congrArg (fun r => r.toProviderFields.dueAt) heq).symm
        · exact (congrArg (fun r => r.toProviderFields.cutoffAt) heq).symm
      · obtain ⟨hextension, hdue, hcutoff⟩ := h hlive
        rw [← hextension] at hdue hcutoff ⊢
        rw [← hdue, ← hcutoff]
    next hdeleted => exact ⟨fun _ hlive => absurd hlive hdeleted, fun _ => rfl⟩
  next hnone =>
    refine ⟨fun _ _ item hitem listedItem hlisted => ?_, fun _ => rfl⟩
    exact absurd hlisted (hnone item listedItem hitem)

@[simp]
theorem extendedRow_providerIsSubmitted (key : AssignmentKey) (row : UserAssignment) :
    (extendedRow fetched listed key row).providerIsSubmitted = row.providerIsSubmitted := by
  unfold extendedRow
  split
  · split <;> rfl
  · rfl

@[simp]
theorem extendedRow_deletedAt (key : AssignmentKey) (row : UserAssignment) :
    (extendedRow fetched listed key row).deletedAt = row.deletedAt := by
  unfold extendedRow
  split
  · split <;> rfl
  · rfl

@[simp]
theorem submittedRow_deletedAt (key : AssignmentKey) (row : UserAssignment) :
    (submittedRow now fetched key row).deletedAt = row.deletedAt := by
  unfold submittedRow
  split
  · split <;> rfl
  · rfl

/-- The two writes of a probe touch different columns: they leave a row alone exactly when
its answer is stored already. -/
theorem probedRow_eq_self_iff (key : AssignmentKey) (row : UserAssignment) :
    extendedRow fetched listed key (submittedRow now fetched key row) = row ↔
      AnswerStored fetched listed key row := by
  have hsplit : extendedRow fetched listed key (submittedRow now fetched key row) = row ↔
      submittedRow now fetched key row = row ∧ extendedRow fetched listed key row = row := by
    refine ⟨fun heq => ?_, fun ⟨hflag, hdates⟩ => by rw [hflag, hdates]⟩
    have hflag : submittedRow now fetched key row = row := by
      rw [submittedRow_eq_self_iff]
      intro hlive item hitem hsubmitted
      have hrow := congrArg UserAssignment.providerIsSubmitted heq
      rw [extendedRow_providerIsSubmitted] at hrow
      by_contra hopen
      have hopen : row.providerIsSubmitted = false := Bool.eq_false_iff.mpr hopen
      simp [submittedRow, Option.mem_def.mp hitem, hsubmitted, hlive, hopen] at hrow
    rw [hflag] at heq
    exact ⟨hflag, heq⟩
  rw [hsplit, submittedRow_eq_self_iff, extendedRow_eq_self_iff]
  unfold AnswerStored
  constructor
  · rintro ⟨hflag, hdates⟩ hlive item hitem
    exact ⟨hflag hlive item hitem, hdates hlive item hitem⟩
  · intro h
    exact ⟨fun hlive item hitem => (h hlive item hitem).1,
      fun hlive item hitem => (h hlive item hitem).2⟩

/-- A probe writes nothing exactly when every answer is stored already. -/
theorem probe_eq_self_iff (rows : Assignments) :
    applyExtensions fetched listed (applySubmissionStatus now fetched rows) = rows ↔
      ∀ r ∈ rows.rows, AnswerStored fetched listed r.1 r.2 := by
  have hmodify : applyExtensions fetched listed (applySubmissionStatus now fetched rows) =
      rows.modify fun k row => extendedRow fetched listed k (submittedRow now fetched k row) := by
    simp [applyExtensions, applySubmissionStatus, Table.modify, Function.comp_def]
  rw [hmodify, Table.modify_eq_self_iff]
  simp only [probedRow_eq_self_iff]

end Probe

end TigerDuck.SyncJobs
