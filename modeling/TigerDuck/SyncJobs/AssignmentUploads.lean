import Mathlib.Data.Prod.Lex
import Mathlib.Logic.Function.Basic
import TigerDuck.SyncJobs.Assignments
import TigerDuck.Transition.Run

/-!
# Uploaded assignments

The writers of `user_assignments` beside the fetch: `upload_assignments`, by which an app reports
what it sees, and the assignments of `process_initial_upload`. Each runs under the user's sync
lock, as the fetch does. An app that knows no Moodle course names course 0, a placeholder.

The change-log entries are kept as the list of what was logged. The reminders that a submission
cancels are left out; the submissions reported are returned.

## Main results

- `one_live_row_per_assignment`: a user has at most one row of an assignment that is not deleted.
-/

namespace TigerDuck.SyncJobs

open Relational Transition

/-- An item of `upload_assignments`. -/
structure AssignmentUploadItem where
  moodleAssignmentId : MoodleId
  courseNo : String
  courseName : String
  title : String
  dueAt : Option String
  moodleUrl : Option String
  isSubmitted : Bool
  grade : Option String

/-- An assignment of the initial upload. -/
structure UploadAssignment extends ProviderFields where
  moodleCourseId : MoodleId
  moodleAssignmentId : MoodleId
  courseNo : Option String
  providerIsSubmitted : Bool
  providerSubmittedAt : Option Time

/-- An upload under way: `byAssignment` is the row it takes for an assignment. -/
structure Upload where
  rows : Assignments
  nextId : Nat
  byAssignment : MoodleId → Option AssignmentKey
  changes : List AssignmentChange
  /-- The fields changed of each assignment, for its entry. -/
  changed : Table MoodleId (List String)
  submitted : List MoodleId

/-- The first row of each assignment, in the order of `rank`. -/
def firstRows (rank : AssignmentKey → UserAssignment → Nat ×ₗ Nat ×ₗ Nat) (rows : Assignments)
    (id : MoodleId) : Option AssignmentKey :=
  (((rows.select fun k _ => k.moodleAssignmentId = id).insertionSort fun r r' =>
    rank r.1 r.2 ≤ rank r'.1 r'.2).head?).map Prod.fst

/-- Rows under a real course first, then live ones, then by id. -/
def uploadRank (k : AssignmentKey) (row : UserAssignment) : Nat ×ₗ Nat ×ₗ Nat :=
  toLex ((decide (k.moodleCourseId = 0)).toNat, toLex (row.deletedAt.isSome.toNat, row.id))

/-- Live rows first, then those under a real course, then by id. -/
def initialRank (k : AssignmentKey) (row : UserAssignment) : Nat ×ₗ Nat ×ₗ Nat :=
  toLex (row.deletedAt.isSome.toNat, toLex ((decide (k.moodleCourseId = 0)).toNat, row.id))

def Upload.begin (rank : AssignmentKey → UserAssignment → Nat ×ₗ Nat ×ₗ Nat) (rows : Assignments)
    (nextId : Nat) : Upload :=
  ⟨rows, nextId, firstRows rank rows, [], Table.empty, []⟩

/-- Store a row for an assignment that has none. -/
def Upload.add (s : Upload) (key : AssignmentKey) (row : UserAssignment) : Upload :=
  { s with
    rows := s.rows.set key row
    nextId := s.nextId + 1
    byAssignment := Function.update s.byAssignment key.moodleAssignmentId (some key) }

/-! ### `upload_assignments` -/

/-- A placeholder before its fields are set. -/
def placeholder (id : Nat) (now : Time) : UserAssignment where
  courseName := none
  title := ""
  dueAt := none
  cutoffAt := none
  allowFromAt := none
  moodleUrl := none
  introHtml := none
  id := id
  userCourseId := none
  moodleSemester := none
  courseNo := none
  extensionDueAt := none
  providerIsSubmitted := false
  providerSubmittedAt := none
  providerGrade := none
  fetchedAt := now
  lastSeenAt := now
  deletedAt := none

/-- What an upload sets of a placeholder, and the fields that changed; a new one has no title. -/
def placed (now : Time) (isNew : Bool) (row : UserAssignment) (a : AssignmentUploadItem)
    (dueAt : Option Time) : UserAssignment × List String :=
  ({ row with
      courseNo := some a.courseNo
      courseName := some a.courseName
      title := a.title
      dueAt := dueAt
      moodleUrl := a.moodleUrl
      lastSeenAt := now },
    changedField "course_no" row.courseNo (some a.courseNo) ++
      changedField "course_name" row.courseName (some a.courseName) ++
      changedField "title" (if isNew then none else some row.title) (some a.title) ++
      changedField "due_at" row.dueAt dueAt ++
      changedField "moodle_url" row.moodleUrl a.moodleUrl)

/-- The grade an upload tells. -/
def graded (row : UserAssignment) (a : AssignmentUploadItem) : UserAssignment × List String :=
  match a.grade with
  | some grade =>
    if row.providerGrade = some grade then (row, [])
    else ({ row with providerGrade := some grade }, ["provider_grade"])
  | none => (row, [])

/-- The row after an upload, the fields that changed, and whether it is newly submitted. -/
def uploadedRow (now : Time) (isNew : Bool) (key : AssignmentKey) (row : UserAssignment)
    (a : AssignmentUploadItem) (dueAt : Option Time) : UserAssignment × List String × Bool :=
  let (row, placedFields) :=
    if key.moodleCourseId = 0 then placed now isNew row a dueAt else (row, [])
  let (row, gradeFields) := graded row a
  if a.isSubmitted && !row.providerIsSubmitted then
    ({ row with
        providerIsSubmitted := true
        providerSubmittedAt := some (row.providerSubmittedAt.getD now) },
      placedFields ++ gradeFields ++ ["provider_is_submitted", "provider_submitted_at"], true)
  else (row, placedFields ++ gradeFields, false)

/-- One round of the loop over the uploaded assignments. -/
def uploadItem (fromisoformat : String → Option Time) (now : Time) (s : Upload)
    (a : AssignmentUploadItem) : Upload :=
  let dueAt := a.dueAt.bind fromisoformat
  let isNew := (s.byAssignment a.moodleAssignmentId).isNone
  let key := (s.byAssignment a.moodleAssignmentId).getD ⟨0, a.moodleAssignmentId⟩
  let s := if isNew then s.add key (placeholder s.nextId now) else s
  match s.rows.get key with
  | some row =>
    let (row', fields, newlySubmitted) := uploadedRow now isNew key row a dueAt
    { s with
      rows := s.rows.set key row'
      changed := s.changed.upsert a.moodleAssignmentId fields (· ++ fields)
      submitted := s.submitted ++ if newlySubmitted then [a.moodleAssignmentId] else [] }
  | none => s

/-- The entries of an upload, one for each row it changed. -/
def Upload.log (s : Upload) : Upload :=
  { s with
    changes := s.changed.rows.filterMap fun (id, fields) =>
      if fields = [] then none
      else (s.byAssignment id).bind fun key => (s.rows.get key).map fun row => .upsert row.id fields }

/-- `upload_assignments` -/
def uploadAssignments (fromisoformat : String → Option Time) (now : Time)
    (assignments : List AssignmentUploadItem) (rows : Assignments) (nextId : Nat) : Upload :=
  (assignments.foldl (uploadItem fromisoformat now) (.begin uploadRank rows nextId)).log

/-! ### The initial upload -/

/-- A row the initial upload inserts. -/
def importedRow (id : Nat) (now : Time) (item : UploadAssignment) : UserAssignment :=
  { item.toProviderFields with
    id
    userCourseId := none
    moodleSemester := none
    courseNo := item.courseNo
    extensionDueAt := none
    providerIsSubmitted := item.providerIsSubmitted
    providerSubmittedAt := item.providerSubmittedAt
    providerGrade := none
    fetchedAt := now
    lastSeenAt := now
    deletedAt := none }

/-- One round of the loop over the assignments of the initial upload. -/
def importItem (now : Time) (s : Upload) (item : UploadAssignment) : Upload :=
  match s.byAssignment item.moodleAssignmentId with
  | some key =>
    match s.rows.get key with
    | some row =>
      if item.providerIsSubmitted && !row.providerIsSubmitted then
        { s with
          rows := s.rows.set key { row with
            providerIsSubmitted := true
            providerSubmittedAt := some (item.providerSubmittedAt.getD now) }
          changes := s.changes ++
            [.upsert row.id ["provider_is_submitted", "provider_submitted_at"]]
          submitted := s.submitted ++ [item.moodleAssignmentId] }
      else s
    | none => s
  | none =>
    let s' := s.add ⟨item.moodleCourseId, item.moodleAssignmentId⟩ (importedRow s.nextId now item)
    { s' with
      changes := s.changes ++ [.upsert s.nextId []]
      submitted := s.submitted ++
        if item.providerIsSubmitted then [item.moodleAssignmentId] else [] }

/-- The assignments of `process_initial_upload`. -/
def importAssignments (now : Time) (assignments : List UploadAssignment) (rows : Assignments)
    (nextId : Nat) : Upload :=
  assignments.foldl (importItem now) (.begin initialRank rows nextId)

/-! ### The rows of all users -/

structure AssignmentsDb where
  rows : Nat → Assignments
  nextId : Nat

def AssignmentsDb.initial : AssignmentsDb := ⟨fun _ => Table.empty, 0⟩

/-- What a fetch answers: the assignments listed, with the enrolled courses if they could be read,
or no course at all, with those Moodle refused. -/
inductive FetchAnswer
  | listed (fetched : List FetchedAssignment) (enrolled : Option Classification)
  | noCourseAccess (refusedCourseIds : List MoodleId)

/-- What a writer is given. -/
inductive AssignmentWrite
  | upload (assignments : List AssignmentUploadItem)
  | initialUpload (assignments : List UploadAssignment)
  | fetch (answer : FetchAnswer)
  | probe (fetched : Submissions) (listed : Table MoodleId FetchedAssignment)

/-- A write to a user's assignments, at its arrival. -/
structure AssignmentLabel where
  userId : Nat
  now : Time
  write : AssignmentWrite

/-- The rows after a write, and the next id. -/
def AssignmentWrite.run (fromisoformat : String → Option Time) (now : Time) (rows : Assignments)
    (nextId : Nat) : AssignmentWrite → Assignments × Nat
  | .upload assignments =>
    let s := uploadAssignments fromisoformat now assignments rows nextId
    (s.rows, s.nextId)
  | .initialUpload assignments =>
    let s := importAssignments now assignments rows nextId
    (s.rows, s.nextId)
  | .fetch (.listed fetched enrolled) =>
    let s := applyFetchedAssignments now fetched enrolled [] rows nextId
    (s.rows, s.nextId)
  | .fetch (.noCourseAccess refusedCourseIds) =>
    let s := applyFetchedAssignments now [] none refusedCourseIds rows nextId
    (s.rows, s.nextId)
  | .probe fetched listed => (applyExtensions fetched listed (applySubmissionStatus now fetched rows), nextId)

def AssignmentsDb.step (fromisoformat : String → Option Time) (db : AssignmentsDb)
    (l : AssignmentLabel) : Option AssignmentsDb :=
  let (rows, nextId) := l.write.run fromisoformat l.now (db.rows l.userId) db.nextId
  some ⟨Function.update db.rows l.userId rows, nextId⟩

/-- A fetch lists no assignment twice. -/
def AssignmentLabel.Distinct (l : AssignmentLabel) : Prop :=
  match l.write with
  | .fetch (.listed fetched _) => (fetched.map (·.moodleAssignmentId)).Nodup
  | _ => True

instance (l : AssignmentLabel) : Decidable l.Distinct := by
  unfold AssignmentLabel.Distinct
  split <;> infer_instance

/-! ### One live row -/

/-- No two rows of an assignment are live. -/
def OneLive (rows : Assignments) : Prop :=
  ∀ k k' row row', rows.get k = some row → rows.get k' = some row' →
    k.moodleAssignmentId = k'.moodleAssignmentId → row.deletedAt = none → row'.deletedAt = none →
      k = k'

theorem oneLive_empty : OneLive Table.empty := fun _ _ _ _ h => (nomatch h)

/-- Rows that are live only where they were live before. -/
theorem OneLive.of_live {rows rows' : Assignments} (hone : OneLive rows)
    (hlive : ∀ k row', rows'.get k = some row' → row'.deletedAt = none →
      ∃ row, rows.get k = some row ∧ row.deletedAt = none) : OneLive rows' := by
  intro k k' row row' hrow hrow' hid hdeleted hdeleted'
  obtain ⟨old, hold, holdLive⟩ := hlive k row hrow hdeleted
  obtain ⟨old', hold', holdLive'⟩ := hlive k' row' hrow' hdeleted'
  exact hone k k' old old' hold hold' hid holdLive holdLive'

theorem OneLive.modify {rows : Assignments} (hone : OneLive rows)
    {f : AssignmentKey → UserAssignment → UserAssignment}
    (hf : ∀ k row, (f k row).deletedAt = none → row.deletedAt = none) :
    OneLive (rows.modify f) := by
  refine hone.of_live fun k row' hrow' hdeleted => ?_
  rw [Table.get_modify] at hrow'
  obtain ⟨row, hrow, rfl⟩ := Option.map_eq_some_iff.mp hrow'
  exact ⟨row, hrow, hf k row hdeleted⟩

/-- An assignment an upload under way knows no row of has none. -/
def Upload.Known (s : Upload) : Prop :=
  ∀ k row, s.rows.get k = some row → s.byAssignment k.moodleAssignmentId ≠ none

theorem Upload.Known.begin {rank : AssignmentKey → UserAssignment → Nat ×ₗ Nat ×ₗ Nat}
    {rows : Assignments} {nextId : Nat} : (Upload.begin rank rows nextId).Known := by
  intro k row hrow hnone
  have hmem := (Table.mem_select_iff rows (fun k' _ =>
    decide (k'.moodleAssignmentId = k.moodleAssignmentId)) k row).mpr ⟨hrow, decide_eq_true rfl⟩
  have hnil := List.head?_eq_none_iff.mp (Option.map_eq_none_iff.mp hnone)
  rw [← List.mem_insertionSort fun r r' : AssignmentKey × UserAssignment =>
    rank r.1 r.2 ≤ rank r'.1 r'.2, hnil] at hmem
  cases hmem

/-- A row for an assignment that has none makes it known. -/
theorem Upload.Known.add {s : Upload} (hknown : s.Known) (key : AssignmentKey)
    (row : UserAssignment) : (s.add key row).Known := by
  intro k r hr
  show Function.update s.byAssignment key.moodleAssignmentId (some key) k.moodleAssignmentId ≠ none
  by_cases hid : k.moodleAssignmentId = key.moodleAssignmentId
  · rw [hid, Function.update_self]
    exact nofun
  · rw [Function.update_of_ne hid]
    have hkey : k ≠ key := fun heq => hid (congrArg AssignmentKey.moodleAssignmentId heq)
    have hold : (s.rows.set key row).get k = some r := hr
    rw [Table.get_set, if_neg hkey] at hold
    exact hknown k r hold

/-- A row rewritten in place. -/
theorem Upload.Known.set {s s' : Upload} (hknown : s.Known) {key : AssignmentKey}
    {row row' : UserAssignment} (hrow : s.rows.get key = some row)
    (hrows : s'.rows = s.rows.set key row') (hby : s'.byAssignment = s.byAssignment) :
    s'.Known := by
  intro k r hr
  rw [hrows, Table.get_set] at hr
  rw [hby]
  split at hr
  next hk => exact hk ▸ hknown key row hrow
  next => exact hknown k r hr

/-- What holds of an upload under way: an assignment it knows no row of has none. -/
structure Upload.Sound (s : Upload) : Prop where
  one : OneLive s.rows
  known : s.Known

theorem Upload.Sound.begin {rank : AssignmentKey → UserAssignment → Nat ×ₗ Nat ×ₗ Nat}
    {rows : Assignments} {nextId : Nat} (hone : OneLive rows) :
    (Upload.begin rank rows nextId).Sound :=
  ⟨hone, Upload.Known.begin⟩

/-- A row for an assignment that has none is its only one. -/
theorem Upload.Sound.add {s : Upload} (hsound : s.Sound) {key : AssignmentKey}
    {row : UserAssignment} (hnone : s.byAssignment key.moodleAssignmentId = none) :
    (s.add key row).Sound := by
  have hrows : ∀ k r, (s.rows.set key row).get k = some r →
      k = key ∨ k ≠ key ∧ s.rows.get k = some r := by
    intro k r hr
    rw [Table.get_set] at hr
    split at hr
    next hk => exact .inl hk
    next hk => exact .inr ⟨hk, hr⟩
  have hother : ∀ k r, s.rows.get k = some r → k.moodleAssignmentId ≠ key.moodleAssignmentId :=
    fun k r hr hid => hsound.known k r hr (hid ▸ hnone)
  refine ⟨fun k k' r r' hr hr' hid hlive hlive' => ?_, hsound.known.add key row⟩
  rcases hrows k r hr with hk | ⟨_, hold⟩ <;> rcases hrows k' r' hr' with hk' | ⟨_, hold'⟩
  · exact hk.trans hk'.symm
  · exact absurd (hk ▸ hid.symm) (hother k' r' hold')
  · exact absurd (hk' ▸ hid) (hother k r hold)
  · exact hsound.one k k' r r' hold hold' hid hlive hlive'

/-- A row rewritten in place, as live as it was. -/
theorem Upload.Sound.set {s s' : Upload} (hsound : s.Sound) {key : AssignmentKey}
    {row row' : UserAssignment} (hrow : s.rows.get key = some row)
    (hdeleted : row'.deletedAt = row.deletedAt) (hrows : s'.rows = s.rows.set key row')
    (hby : s'.byAssignment = s.byAssignment) : s'.Sound := by
  refine ⟨hsound.one.of_live fun k r' hr' hlive => ?_, hsound.known.set hrow hrows hby⟩
  rw [hrows, Table.get_set] at hr'
  split at hr'
  next hk =>
    obtain rfl := Option.some.inj hr'
    exact ⟨row, hk ▸ hrow, hdeleted.symm.trans hlive⟩
  next => exact ⟨r', hr', hlive⟩

theorem graded_deletedAt (row : UserAssignment) (a : AssignmentUploadItem) :
    (graded row a).1.deletedAt = row.deletedAt := by
  unfold graded
  split
  · split <;> rfl
  · rfl

theorem uploadedRow_deletedAt (now : Time) (isNew : Bool) (key : AssignmentKey)
    (row : UserAssignment) (a : AssignmentUploadItem) (dueAt : Option Time) :
    (uploadedRow now isNew key row a dueAt).1.deletedAt = row.deletedAt := by
  unfold uploadedRow
  dsimp only
  split <;> split <;> exact graded_deletedAt ..

theorem uploadItem_sound {fromisoformat : String → Option Time} {now : Time} {s : Upload}
    (hsound : s.Sound) (a : AssignmentUploadItem) : (uploadItem fromisoformat now s a).Sound := by
  unfold uploadItem
  dsimp only
  generalize hs₀ : (if (s.byAssignment a.moodleAssignmentId).isNone = true then
    s.add _ (placeholder s.nextId now) else s) = s₀
  have hsound₀ : s₀.Sound := by
    subst hs₀
    split
    next hnone =>
      rw [Option.isNone_iff_eq_none] at hnone
      rw [hnone]
      exact hsound.add hnone
    next => exact hsound
  split
  next row hrow => exact hsound₀.set hrow (uploadedRow_deletedAt ..) rfl rfl
  next => exact hsound₀

theorem importItem_sound {now : Time} {s : Upload} (hsound : s.Sound) (item : UploadAssignment) :
    (importItem now s item).Sound := by
  unfold importItem
  split
  · split
    next row hrow =>
      split
      · refine hsound.set hrow ?_ rfl rfl
        rfl
      · exact hsound
    next => exact hsound
  next hnone =>
    have hadded : (s.add ⟨item.moodleCourseId, item.moodleAssignmentId⟩
      (importedRow s.nextId now item)).Sound := hsound.add hnone
    exact ⟨hadded.one, hadded.known⟩

/-- What every round of a loop keeps, the whole loop keeps. -/
theorem foldl_sound {β : Type} {f : Upload → β → Upload} (hf : ∀ s b, s.Sound → (f s b).Sound)
    (items : List β) {s : Upload} (hsound : s.Sound) : (items.foldl f s).Sound := by
  induction items generalizing s with
  | nil => exact hsound
  | cons item items ih => exact ih (hf s item hsound)

/-- What a fetch leaves live is what it lists, or what was live under an answer without courses. -/
theorem fetch_oneLive {now : Time} {fetched : List FetchedAssignment}
    {enrolled : Option Classification} {rows : Assignments} {nextId : Nat}
    (hdistinct : (fetched.map (·.moodleAssignmentId)).Nodup) :
    OneLive (applyFetchedAssignments now fetched enrolled [] rows nextId).rows := by
  have hlisted : ∀ k row, (applyFetchedAssignments now fetched enrolled [] rows nextId).rows.get k =
      some row → row.deletedAt = none → ∃ item ∈ fetched, item.key = k := by
    intro k row hrow hlive
    unfold applyFetchedAssignments ListSync.deleteLeftOut at hrow
    rw [Table.get_modify] at hrow
    obtain ⟨old, _, rfl⟩ := Option.map_eq_some_iff.mp hrow
    split at hlive
    · cases hlive
    next hkept =>
      -- A live row that is kept is one the answer lists.
      simp only [ListSync.leftOut, hlive, ne_eq, not_true_eq_false, false_and, decide_false,
        Bool.not_false, Bool.and_true, Option.isNone_none, Bool.not_eq_true',
        Bool.not_eq_false, List.contains_iff_mem, List.mem_map] at hkept
      exact hkept
  intro k k' row row' hrow hrow' hid hlive hlive'
  obtain ⟨item, hitem, rfl⟩ := hlisted k row hrow hlive
  obtain ⟨item', hitem', rfl⟩ := hlisted k' row' hrow' hlive'
  obtain rfl := List.inj_on_of_nodup_map hdistinct hitem hitem' hid
  rfl

theorem refused_oneLive {now : Time} {refusedCourseIds : List MoodleId} {rows : Assignments}
    {nextId : Nat} (hone : OneLive rows) :
    OneLive (applyFetchedAssignments now [] none refusedCourseIds rows nextId).rows := by
  refine hone.modify fun k row hlive => ?_
  split at hlive
  · cases hlive
  · exact hlive

theorem probe_oneLive {now : Time} {fetched : Submissions} {listed : Table MoodleId FetchedAssignment}
    {rows : Assignments} (hone : OneLive rows) :
    OneLive (applyExtensions fetched listed (applySubmissionStatus now fetched rows)) := by
  refine OneLive.modify (hone.modify fun k row hlive => ?_) fun k row hlive => ?_
  · rwa [submittedRow_deletedAt] at hlive
  · rwa [extendedRow_deletedAt] at hlive

theorem write_oneLive {fromisoformat : String → Option Time} {l : AssignmentLabel}
    {rows : Assignments} {nextId : Nat} (hone : OneLive rows) (hdistinct : l.Distinct) :
    OneLive (l.write.run fromisoformat l.now rows nextId).1 := by
  unfold AssignmentLabel.Distinct at hdistinct
  cases hwrite : l.write with
  | upload assignments =>
    exact (foldl_sound (fun s a hsound => uploadItem_sound hsound a) assignments (.begin hone)).one
  | initialUpload assignments =>
    exact (foldl_sound (fun s item hsound => importItem_sound hsound item) assignments
      (.begin hone)).one
  | fetch answer =>
    cases answer with
    | listed fetched enrolled =>
      rw [hwrite] at hdistinct
      exact fetch_oneLive hdistinct
    | noCourseAccess refusedCourseIds => exact refused_oneLive hone
  | probe fetched listed => exact probe_oneLive hone

/-- **One live row per assignment**, through any sequence of uploads and fetches, each fetch
listing an assignment once. -/
theorem one_live_row_per_assignment {fromisoformat : String → Option Time}
    {ls : List AssignmentLabel} {db : AssignmentsDb}
    (hrun : Run (AssignmentsDb.step fromisoformat) (fun _ l => l.Distinct) AssignmentsDb.initial ls
      db) (userId : Nat) (k k' : AssignmentKey) (row row' : UserAssignment)
    (hrow : (db.rows userId).get k = some row) (hrow' : (db.rows userId).get k' = some row')
    (hid : k.moodleAssignmentId = k'.moodleAssignmentId) (hlive : row.deletedAt = none)
    (hlive' : row'.deletedAt = none) : k = k' := by
  have hone : ∀ userId, OneLive (db.rows userId) := by
    refine hrun.invariant (fun db => ∀ userId, OneLive (db.rows userId))
      (fun _ => oneLive_empty) fun before l after hone hdistinct hstep userId => ?_
    obtain rfl := Option.some.inj hstep
    show OneLive (Function.update before.rows l.userId _ userId)
    by_cases huser : userId = l.userId
    · rw [huser, Function.update_self]
      exact write_oneLive (hone l.userId) hdistinct
    · rw [Function.update_of_ne huser]
      exact hone userId
  exact hone userId k k' row row' hrow hrow' hid hlive hlive'

/-- The assignment of the run below, as Moodle lists it in a course. -/
def report (moodleCourseId : MoodleId) : FetchedAssignment :=
  ⟨⟨none, "report", none, none, none, none, none⟩, moodleCourseId, 9⟩

/-- An app uploads a placeholder, the fetch takes it over, and Moodle moves the assignment to
another course. -/
def moved : List AssignmentLabel :=
  [⟨7, 100, .upload [⟨9, "CS1001", "Algorithms", "report", none, none, false, none⟩]⟩,
    ⟨7, 200, .fetch (.listed [report 3] none)⟩,
    ⟨7, 300, .initialUpload [⟨⟨none, "report", none, none, none, none, none⟩, 5, 9, none, true, none⟩]⟩,
    ⟨7, 400, .fetch (.listed [report 4] none)⟩]

/-- The row under the new course is the assignment's only live one. -/
theorem one_live_row_of_moved_assignment :
    ∃ db, Run (AssignmentsDb.step fun _ => none) (fun _ l => l.Distinct) AssignmentsDb.initial moved
        db ∧
      ((db.rows 7).get ⟨3, 9⟩).map (·.deletedAt) = some (some 400) ∧
      ((db.rows 7).get ⟨4, 9⟩).map (·.deletedAt) = some none ∧
      ∀ k row, (db.rows 7).get k = some row → k.moodleAssignmentId = 9 → row.deletedAt = none →
        k = ⟨4, 9⟩ := by
  have hrun : ∃ db, Run (AssignmentsDb.step fun _ => none) (fun _ l => l.Distinct)
      AssignmentsDb.initial moved db ∧ execWhere (AssignmentsDb.step fun _ => none)
        (fun _ l => l.Distinct) AssignmentsDb.initial moved = some db :=
    ⟨_, run_of_execWhere rfl, rfl⟩
  obtain ⟨db, hrun, hexec⟩ := hrun
  cases hexec
  refine ⟨_, hrun, rfl, rfl, fun k row hrow hid hlive => ?_⟩
  exact one_live_row_per_assignment hrun 7 k ⟨4, 9⟩ row _ hrow rfl hid hlive rfl

end TigerDuck.SyncJobs
