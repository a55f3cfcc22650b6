import TigerDuck.Sync.StampBounds
import TigerDuck.SyncJobs.RowIds

/-!
# Cleared marks

`GET /sync/full` sends every mark of a user, keyed by its assignment while the row it is on is live
(`server/routes/sync/snapshot.py`), or by `_keys_for_marks_on_deleted_rows` once the assignment has
no live row. A clear stamps a `none` on every row its assignment has. What is written later finds
that stamp, on whatever key a fetch has moved the row to, so a mark made before the clear loses to
it. A row that a fetch makes after the clear has no stamp, and takes such a mark.

## Main results

- `clear_stays_without_late_mark`: no snapshot shows a mark stamped at or before the clear, in a run
  in which none of them goes to a row made after the clear.
- `late_mark_on_moved_assignment`: the assignment moves to another course, and one does.
-/

namespace TigerDuck.Sync

open Relational SyncJobs Transition

/-! ### The snapshot -/

/-- The columns that say when a mark reached the server. -/
structure MarkArrival where
  updatedAt : Time
  localStatusReceivedAt : Option Time
  deriving DecidableEq, Repr

/-- An entry of `assignment_overrides` in the snapshot. -/
structure ShownMark where
  userAssignmentId : Nat
  moodleAssignmentId : Option MoodleId
  localStatus : Field AssignmentLocalStatus
  deriving DecidableEq, Repr

/-- Whether the assignment has a live row. -/
def hasLive (rows : Assignments) (id : MoodleId) : Bool :=
  rows.rows.any fun r => r.1.moodleAssignmentId = id && r.2.deletedAt.isNone

/-- When the assignment's last server row was deleted. -/
def serverRowDeletedAt (rows : Assignments) (id : MoodleId) : Option Time :=
  ((rows.select fun key _ => key.moodleAssignmentId = id ∧ key.moodleCourseId ≠ 0).filterMap
    (·.2.deletedAt)).max?

/-- `_hidden_since_received`, of a mark on a deleted row. -/
def hiddenSinceReceived (rows : Assignments) (arrival : MarkArrival) (key : AssignmentKey)
    (row : UserAssignment) : Bool :=
  (serverRowDeletedAt rows key.moodleAssignmentId).any fun gone =>
    decide (max (row.deletedAt.getD 0) (arrival.localStatusReceivedAt.getD arrival.updatedAt) < gone)

/-- The row with the id. -/
def rowById (rows : Assignments) (rowId : Nat) : Option (AssignmentKey × UserAssignment) :=
  rows.rows.find? fun r => r.2.id = rowId

/-- One round of `_keys_for_marks_on_deleted_rows`. Marks come by id, so of two with one stamp the
later is the newest. -/
def keepNewest (rows : Assignments) (arrival : Nat → MarkArrival)
    (newest : Table MoodleId (Nat × Option Time)) (mark : Nat × UserAssignmentOverride) :
    Table MoodleId (Nat × Option Time) :=
  match rowById rows mark.1 with
  | none => newest
  | some (key, row) =>
    if row.deletedAt = none ∨ hasLive rows key.moodleAssignmentId = true ∨
        hiddenSinceReceived rows (arrival mark.1) key row = true then newest
    else
      match newest.get key.moodleAssignmentId with
      | some kept =>
        if bound kept.2 ≤ bound mark.2.localStatus.updatedAt then
          newest.set key.moodleAssignmentId (mark.1, mark.2.localStatus.updatedAt)
        else newest
      | none => newest.set key.moodleAssignmentId (mark.1, mark.2.localStatus.updatedAt)

/-- `_keys_for_marks_on_deleted_rows`: the newest mark of each assignment without a live row. -/
def keysForMarksOnDeletedRows (rows : Assignments) (marks : Marks) (arrival : Nat → MarkArrival) :
    Table MoodleId (Nat × Option Time) :=
  marks.rows.foldl (keepNewest rows arrival) Table.empty

/-- The assignment a mark is keyed by. -/
def keyOfMark (rows : Assignments) (newest : Table MoodleId (Nat × Option Time)) (rowId : Nat) :
    Option MoodleId :=
  (((rows.select fun _ row => row.deletedAt.isNone).find? fun r => r.2.id = rowId).map
    (·.1.moodleAssignmentId)).or ((newest.rows.find? fun n => n.2.1 = rowId).map (·.1))

/-- The marks of `/sync/full`. -/
def snapshotMarks (rows : Assignments) (marks : Marks) (arrival : Nat → MarkArrival) :
    List ShownMark :=
  let newest := keysForMarksOnDeletedRows rows marks arrival
  marks.rows.map fun mark => ⟨mark.1, keyOfMark rows newest mark.1, mark.2.localStatus⟩

/-- A row of the assignment has the id. -/
def RowOf (rows : Assignments) (id : MoodleId) (rowId : Nat) : Prop :=
  ∃ r ∈ rows.rows, r.1.moodleAssignmentId = id ∧ r.2.id = rowId

instance (rows : Assignments) (id : MoodleId) (rowId : Nat) : Decidable (RowOf rows id rowId) :=
  inferInstanceAs (Decidable (∃ r ∈ rows.rows, _))

theorem rowOf_iff {rows : Assignments} {id : MoodleId} {rowId : Nat} :
    RowOf rows id rowId ↔
      ∃ key row, rows.get key = some row ∧ key.moodleAssignmentId = id ∧ row.id = rowId := by
  simp [RowOf, Table.get_eq_some_iff]

/-- The status of a row's mark. -/
def statusOf (marks : Marks) (rowId : Nat) : Field AssignmentLocalStatus :=
  (markOf marks rowId).localStatus

/-- Each assignment keeps a mark of one of its rows. -/
theorem keepNewest_rowOf {rows : Assignments} {arrival : Nat → MarkArrival}
    {newest : Table MoodleId (Nat × Option Time)}
    (h : newest.Forall fun id kept => RowOf rows id kept.1) (mark : Nat × UserAssignmentOverride) :
    (keepNewest rows arrival newest mark).Forall fun id kept => RowOf rows id kept.1 := by
  unfold keepNewest
  split
  · exact h
  next key row hfound =>
    have hrow : RowOf rows key.moodleAssignmentId mark.1 :=
      ⟨(key, row), List.mem_of_find?_eq_some hfound, rfl, by simpa using List.find?_some hfound⟩
    split
    · exact h
    · split
      · split
        · exact h.set hrow
        · exact h
      · exact h.set hrow

/-- A keyed mark is on a row of its assignment. -/
theorem rowOf_of_keyOfMark {rows : Assignments} {marks : Marks} {arrival : Nat → MarkArrival}
    {rowId : Nat} {id : MoodleId}
    (h : keyOfMark rows (keysForMarksOnDeletedRows rows marks arrival) rowId = some id) :
    RowOf rows id rowId := by
  rcases Option.or_eq_some_iff.mp h with hlive | ⟨_, hdeleted⟩
  · obtain ⟨r, hfound, rfl⟩ := Option.map_eq_some_iff.mp hlive
    have hmem := List.mem_of_mem_filter (List.mem_of_find?_eq_some hfound)
    exact ⟨r, hmem, rfl, by simpa using List.find?_some hfound⟩
  · obtain ⟨n, hfound, rfl⟩ := Option.map_eq_some_iff.mp hdeleted
    have hkept : ∀ (rest : List (Nat × UserAssignmentOverride))
        (newest : Table MoodleId (Nat × Option Time)),
        newest.Forall (fun id kept => RowOf rows id kept.1) →
          (rest.foldl (keepNewest rows arrival) newest).Forall fun id kept =>
            RowOf rows id kept.1 := by
      intro rest
      induction rest with
      | nil => exact fun _ hnewest => hnewest
      | cons mark rest ih => exact fun _ hnewest => ih _ (keepNewest_rowOf hnewest mark)
    have hrow := hkept marks.rows Table.empty .empty n.1 n.2
      ((Table.get_eq_some_iff _ _ _).mpr (List.mem_of_find?_eq_some hfound))
    have hid : n.2.1 = rowId := by simpa using List.find?_some hfound
    exact hid ▸ hrow

/-- What the snapshot shows of an assignment is the status of the mark of one of its rows. -/
theorem shown_status {rows : Assignments} {marks : Marks} {arrival : Nat → MarkArrival}
    {shown : ShownMark} (h : shown ∈ snapshotMarks rows marks arrival) {id : MoodleId}
    (hid : shown.moodleAssignmentId = some id) :
    RowOf rows id shown.userAssignmentId ∧
      shown.localStatus = statusOf marks shown.userAssignmentId := by
  obtain ⟨mark, hmem, rfl⟩ := List.mem_map.mp h
  refine ⟨rowOf_of_keyOfMark hid, ?_⟩
  have hget : marks.get mark.1 = some mark.2 := (marks.get_eq_some_iff mark.1 mark.2).mpr hmem
  simp [statusOf, markOf, hget]

/-! ### The writers -/

/-- A request of the user, or a write to their assignments. -/
inductive MarkLabel
  | request (r : EditRequest)
  | write (now : Time) (w : AssignmentWrite)

/-- A status a request brings to a row's mark. -/
structure MarkEdit where
  rowId : Nat
  status : AssignmentLocalStatus
  clientTs : Time
  deviceId : Option DeviceId
  now : Time
  deriving DecidableEq, Repr

namespace MarkEdit

/-- The stamp it is held to. -/
def stamp (e : MarkEdit) : Time := clampTs e.clientTs e.now MAX_CLOCK_SKEW

def apply (e : MarkEdit) (field : Field AssignmentLocalStatus) : Field AssignmentLocalStatus :=
  (applyField field e.status e.clientTs e.deviceId e.now).1

/-- The edits of a row, in order. -/
def applyAll (edits : List MarkEdit) (rowId : Nat) (field : Field AssignmentLocalStatus) :
    Field AssignmentLocalStatus :=
  edits.foldl (fun field e => if e.rowId = rowId then e.apply field else field) field

end MarkEdit

/-- What the override PATCH brings. -/
def patchEdits (rows : Assignments) (deviceId : Option DeviceId) (speaksClock : Bool) (now : Time)
    (id : MoodleId) (payload : AssignmentOverrideRequest) : List MarkEdit :=
  match requireStamp speaksClock payload.hlc payload.ageMs, editTime payload.hlc now payload.ageMs,
    getAssignmentByMoodleId rows id with
  | .ok _, .ok stamp, some assignment =>
    (markedRows rows id assignment payload.localStatus).map fun rowId =>
      ⟨rowId, payload.localStatus, stamp, deviceId, now⟩
  | _, _, _ => []

/-- What the academics PUT brings. -/
def putEdits (rows : Assignments) (deviceId : Option DeviceId) (now : Time) (rowId : Nat)
    (payload : AssignmentOverridePut) : List MarkEdit :=
  match rows.rows.any fun r => r.2.id = rowId && r.2.deletedAt.isNone, payload.status with
  | true, .ok (some status) => [⟨rowId, status.1, status.2, deviceId, now⟩]
  | _, _ => []

/-- What a mark of the initial upload brings. -/
def uploadEdit (upload : Upload) (deviceId : Option DeviceId) (now : Time)
    (item : UploadAssignmentOverride) : Option MarkEdit :=
  match (upload.byAssignment item.moodleAssignmentId).bind upload.rows.get, item.localStatus with
  | some row, some status =>
    some ⟨row.id, status, item.localStatusUpdatedAt.getD OLDEST, deviceId, now⟩
  | _, _ => none

namespace MarkLabel

/-- The rows after the write. -/
def apply (fromisoformat : String → Option Time) (s : UserEdits) : MarkLabel → UserEdits
  | request r => r.apply s
  | write now w =>
    let (rows, nextId) := w.run fromisoformat now s.assignments s.nextAssignmentId
    { s with assignments := rows, nextAssignmentId := nextId }

def step (fromisoformat : String → Option Time) (s : UserEdits) (l : MarkLabel) :
    Option UserEdits :=
  some (l.apply fromisoformat s)

/-- The statuses the label brings. -/
def edits (s : UserEdits) : MarkLabel → List MarkEdit
  | request (.patchAssignment deviceId speaksClock arrivedAt id payload) =>
    patchEdits s.assignments deviceId speaksClock arrivedAt id payload
  | request (.putAssignment deviceId _ now rowId payload) =>
    putEdits s.assignments deviceId now rowId payload
  | request (.initialUpload deviceId _ now payload) =>
    payload.assignmentOverrides.filterMap (uploadEdit
      (importAssignments now payload.assignments s.assignments s.nextAssignmentId) deviceId now)
  | _ => []

end MarkLabel

section Writers

variable {marks : Marks} {rows : Assignments} (deviceId : Option DeviceId) (now : Time)

theorem statusOf_set (rowId : Nat) (mark : UserAssignmentOverride) (r : Nat) :
    statusOf (marks.set rowId mark) r =
      if rowId = r then mark.localStatus else statusOf marks r := by
  by_cases hid : rowId = r
  · subst hid
    simp [statusOf, markOf]
  · simp [statusOf, markOf, hid, Ne.symm hid]

/-- A mark or a clear, row by row. -/
theorem statusOf_setMarks (status : AssignmentLocalStatus) (stamp : Time) (rowIds : List Nat)
    (r : Nat) :
    statusOf (rowIds.foldl (setMark deviceId now status stamp) marks) r =
      MarkEdit.applyAll (rowIds.map fun rowId => ⟨rowId, status, stamp, deviceId, now⟩) r
        (statusOf marks r) := by
  induction rowIds generalizing marks with
  | nil => rfl
  | cons rowId rest ih =>
    rw [List.foldl_cons, ih, setMark, statusOf_set, List.map_cons, MarkEdit.applyAll,
      MarkEdit.applyAll, List.foldl_cons]
    congr 1
    split
    next hid => exact hid ▸ rfl
    next => rfl

theorem statusOf_patch (speaksClock : Bool) (id : MoodleId) (payload : AssignmentOverrideRequest)
    (r : Nat) :
    statusOf (keepRows marks
        (patchAssignmentOverride rows marks deviceId speaksClock now id payload)) r =
      MarkEdit.applyAll (patchEdits rows deviceId speaksClock now id payload) r
        (statusOf marks r) := by
  simp only [patchAssignmentOverride, patchEdits, bind, Except.bind, pure, Except.pure]
  cases requireStamp speaksClock payload.hlc payload.ageMs with
  | error e => rfl
  | ok _ =>
    cases editTime payload.hlc now payload.ageMs with
    | error e => rfl
    | ok stamp =>
      cases getAssignmentByMoodleId rows id with
      | none => rfl
      | some assignment => exact statusOf_setMarks deviceId now _ stamp _ r

theorem statusOf_put (rowId : Nat) (payload : AssignmentOverridePut) (r : Nat) :
    statusOf (keepRows marks (putAssignmentOverride rows marks deviceId now rowId payload)) r =
      MarkEdit.applyAll (putEdits rows deviceId now rowId payload) r (statusOf marks r) := by
  simp only [putAssignmentOverride, putEdits, bind, Except.bind, pure, Except.pure]
  cases rows.rows.any fun r => r.2.id = rowId && r.2.deletedAt.isNone with
  | false => rfl
  | true =>
    cases payload.status with
    | error e => rfl
    | ok status =>
      show statusOf (marks.set rowId _) r = _
      rw [statusOf_set]
      cases status with
      | none =>
        split
        next hid => exact hid ▸ rfl
        next => rfl
      | some status =>
        show _ = if rowId = r then _ else _
        split
        next hid => exact hid ▸ rfl
        next => rfl

/-- The marks of an initial upload, one by one. -/
theorem statusOf_uploadMarks (upload : Upload) (items : List UploadAssignmentOverride) (r : Nat) :
    statusOf (items.foldl (uploadMark upload deviceId now) marks) r =
      MarkEdit.applyAll (items.filterMap (uploadEdit upload deviceId now)) r
        (statusOf marks r) := by
  induction items generalizing marks with
  | nil => rfl
  | cons item rest ih =>
    rw [List.foldl_cons, ih, List.filterMap_cons, uploadMark, uploadEdit]
    cases (upload.byAssignment item.moodleAssignmentId).bind upload.rows.get with
    | none => rfl
    | some row =>
      dsimp only
      rw [statusOf_set]
      cases hstatus : item.localStatus with
      | none =>
        dsimp only
        congr 1
        split
        next hid =>
          subst hid
          simp [UploadAssignmentOverride.apply, hstatus, statusOf]
        next => rfl
      | some status =>
        rw [MarkEdit.applyAll, MarkEdit.applyAll, List.foldl_cons]
        congr 1
        split
        next hid =>
          subst hid
          simp [UploadAssignmentOverride.apply, hstatus, statusOf, MarkEdit.apply]
        next => rfl

end Writers

/-- A label's edits are all it does to the statuses. -/
theorem statusOf_apply (fromisoformat : String → Option Time) (s : UserEdits) (l : MarkLabel)
    (r : Nat) :
    statusOf (l.apply fromisoformat s).marks r =
      MarkEdit.applyAll (l.edits s) r (statusOf s.marks r) := by
  cases l with
  | write now w => rfl
  | request request =>
    cases request with
    | patchAssignment deviceId speaksClock arrivedAt id payload =>
      exact statusOf_patch deviceId arrivedAt speaksClock id payload r
    | putAssignment deviceId arrivedAt now rowId payload =>
      exact statusOf_put deviceId now rowId payload r
    | initialUpload deviceId arrivedAt now payload =>
      exact statusOf_uploadMarks deviceId now _ payload.assignmentOverrides r
    | _ => rfl

/-! ### Ids of rows and marks -/

/-- The ids of a user's rows and marks are below the next. -/
structure MarksOnRows (s : UserEdits) : Prop where
  rows : IdsSound s.assignments s.nextAssignmentId
  marks : ∀ r, s.marks.get r ≠ none → r < s.nextAssignmentId

/-- A row has the id. -/
def HasRow (rows : Assignments) (rowId : Nat) : Prop :=
  ∃ key row, rows.get key = some row ∧ row.id = rowId

/-- The rows a mark or a clear goes to are rows of the user. -/
theorem hasRow_of_mem_markedRows {rows : Assignments} {id : MoodleId} {assignment : UserAssignment}
    (h : getAssignmentByMoodleId rows id = some assignment) {status : AssignmentLocalStatus}
    {rowId : Nat} (hmem : rowId ∈ markedRows rows id assignment status) : HasRow rows rowId := by
  unfold markedRows at hmem
  split at hmem
  · obtain ⟨⟨key, row⟩, hrow, rfl⟩ := List.mem_map.mp hmem
    exact ⟨key, row, ((Table.mem_select_iff _ _ _ _).mp hrow).1, rfl⟩
  · obtain rfl := List.mem_singleton.mp hmem
    obtain ⟨key, _, hget⟩ := Option.bind_eq_some_iff.mp h
    exact ⟨key, assignment, hget, rfl⟩

theorem marks_of_setMarks {deviceId : Option DeviceId} {now stamp : Time}
    {status : AssignmentLocalStatus} {rowIds : List Nat} {marks : Marks} {r : Nat}
    (h : (rowIds.foldl (setMark deviceId now status stamp) marks).get r ≠ none) :
    marks.get r ≠ none ∨ r ∈ rowIds := by
  induction rowIds generalizing marks with
  | nil => exact .inl h
  | cons rowId rest ih =>
    rcases ih h with hset | hmem
    · rw [setMark, Table.get_set] at hset
      split at hset
      next hid => exact .inr (hid ▸ List.mem_cons_self)
      next => exact .inl hset
    · exact .inr (List.mem_cons_of_mem rowId hmem)

theorem marks_of_uploadMarks {upload : Upload} {deviceId : Option DeviceId} {now : Time}
    {items : List UploadAssignmentOverride} {marks : Marks} {r : Nat}
    (h : (items.foldl (uploadMark upload deviceId now) marks).get r ≠ none) :
    marks.get r ≠ none ∨ HasRow upload.rows r := by
  induction items generalizing marks with
  | nil => exact .inl h
  | cons item rest ih =>
    rcases ih h with hset | hrow
    · unfold uploadMark at hset
      split at hset
      · exact .inl hset
      next row hfound =>
        rw [Table.get_set] at hset
        split at hset
        next hid =>
          obtain ⟨key, _, hget⟩ := Option.bind_eq_some_iff.mp hfound
          exact .inr ⟨key, row, hget, hid.symm⟩
        next => exact .inl hset
    · exact .inr hrow

/-- A mark is added on a row of the user alone. -/
theorem marks_of_apply {fromisoformat : String → Option Time} {s : UserEdits} {l : MarkLabel}
    {r : Nat} (h : (l.apply fromisoformat s).marks.get r ≠ none) :
    s.marks.get r ≠ none ∨ HasRow (l.apply fromisoformat s).assignments r := by
  cases l with
  | write now w => exact .inl h
  | request request =>
    cases request with
    | patchAssignment deviceId speaksClock arrivedAt id payload =>
      change (keepRows s.marks (patchAssignmentOverride s.assignments s.marks deviceId speaksClock
        arrivedAt id payload)).get r ≠ none at h
      simp only [patchAssignmentOverride, bind, Except.bind, pure, Except.pure] at h
      cases hrequire : requireStamp speaksClock payload.hlc payload.ageMs with
      | error e => rw [hrequire] at h; exact .inl h
      | ok _ =>
        rw [hrequire] at h
        cases htime : editTime payload.hlc arrivedAt payload.ageMs with
        | error e => rw [htime] at h; exact .inl h
        | ok stamp =>
          rw [htime] at h
          cases hfound : getAssignmentByMoodleId s.assignments id with
          | none => rw [hfound] at h; exact .inl h
          | some assignment =>
            rw [hfound] at h
            exact (marks_of_setMarks h).imp_right fun hmem =>
              hasRow_of_mem_markedRows hfound hmem
    | putAssignment deviceId arrivedAt now rowId payload =>
      change (keepRows s.marks (putAssignmentOverride s.assignments s.marks deviceId now rowId
        payload)).get r ≠ none at h
      simp only [putAssignmentOverride, bind, Except.bind, pure, Except.pure] at h
      cases hlive : s.assignments.rows.any fun r => r.2.id = rowId && r.2.deletedAt.isNone with
      | false => rw [hlive] at h; exact .inl h
      | true =>
        rw [hlive] at h
        cases hstatus : payload.status with
        | error e => rw [hstatus] at h; exact .inl h
        | ok status =>
          rw [hstatus] at h
          change (s.marks.set rowId _).get r ≠ none at h
          rw [Table.get_set] at h
          split at h
          next hid =>
            obtain ⟨p, hp, hrow⟩ := List.any_eq_true.mp hlive
            have hpid : p.2.id = rowId := by
              rw [Bool.and_eq_true] at hrow
              exact of_decide_eq_true hrow.1
            exact .inr ⟨p.1, p.2, (Table.get_eq_some_iff _ _ _).mpr hp, hpid.trans hid.symm⟩
          next => exact .inl h
    | initialUpload deviceId arrivedAt now payload => exact marks_of_uploadMarks h
    | _ => exact .inl h

/-- Requests and writes keep every row's id. -/
theorem grows_apply (fromisoformat : String → Option Time) (s : UserEdits) (l : MarkLabel) :
    Grows s.assignments s.nextAssignmentId (l.apply fromisoformat s).assignments
      (l.apply fromisoformat s).nextAssignmentId := by
  cases l with
  | write now w => exact Grows.write ..
  | request request =>
    cases request with
    | initialUpload deviceId arrivedAt now payload => exact Grows.importAssignments ..
    | _ => exact Grows.refl ..

theorem MarksOnRows.apply (fromisoformat : String → Option Time) {s : UserEdits}
    (h : MarksOnRows s) (l : MarkLabel) : MarksOnRows (l.apply fromisoformat s) := by
  have hgrows := grows_apply fromisoformat s l
  have hrows := hgrows.sound h.rows
  refine ⟨hrows, fun r hr => ?_⟩
  rcases marks_of_apply hr with hmark | ⟨key, row, hrow, rfl⟩
  · exact (h.marks r hmark).trans_le hgrows.le
  · exact hrows.lt key row hrow

theorem MarksOnRows.fresh : MarksOnRows (.fresh Table.empty 0) :=
  ⟨IdsSound.empty 0, fun _ h => absurd rfl h⟩

/-! ### After a clear -/

/-- No row of the assignment carries a mark that the clear stamped `c` did not end: those it had
before are stamped at or after `c`, and marks after `c`. -/
structure Cleared (s : UserEdits) (id : MoodleId) (c : Time) (next : Nat) : Prop where
  marksOnRows : MarksOnRows s
  le : next ≤ s.nextAssignmentId
  stamped : ∀ r, RowOf s.assignments id r → r < next → c < bound (statusOf s.marks r).updatedAt
  marked : ∀ r, RowOf s.assignments id r → (statusOf s.marks r).value ≠ .none →
    c + 1 < bound (statusOf s.marks r).updatedAt

/-- The label brings a mark stamped at or before `c` to a row the assignment got since `next`, and
the mark wins there. -/
def MarkLabel.MarksNewRow (fromisoformat : String → Option Time) (s : UserEdits) (id : MoodleId)
    (c : Time) (next : Nat) (l : MarkLabel) : Prop :=
  ∃ e ∈ l.edits s, next ≤ e.rowId ∧ RowOf (l.apply fromisoformat s).assignments id e.rowId ∧
    e.status ≠ .none ∧ e.stamp ≤ c ∧ beats e.stamp (statusOf s.marks e.rowId).updatedAt = true

instance (fromisoformat : String → Option Time) (s : UserEdits) (id : MoodleId) (c : Time)
    (next : Nat) (l : MarkLabel) : Decidable (l.MarksNewRow fromisoformat s id c next) :=
  inferInstanceAs (Decidable (∃ e ∈ l.edits s, _))

/-- An edit that is refused changes nothing, and one that is not has the later stamp. -/
theorem MarkEdit.apply_eq (e : MarkEdit) (field : Field AssignmentLocalStatus) :
    e.apply field =
      if beats e.stamp field.updatedAt then ⟨e.status, some e.stamp, e.deviceId⟩ else field :=
  applyField_fst ..

theorem MarkEdit.bound_le_apply (e : MarkEdit) (field : Field AssignmentLocalStatus) :
    bound field.updatedAt ≤ bound (e.apply field).updatedAt := by
  rw [e.apply_eq]
  split
  next hbeats =>
    rw [beats_iff] at hbeats
    exact hbeats.trans (Nat.le_succ _)
  next => exact le_rfl

/-- Edits that bring no late mark to a row keep it cleared. -/
theorem applyAll_cleared {edits : List MarkEdit} {r : Nat} {c : Time} {old : Prop}
    {before field : Field AssignmentLocalStatus}
    (hle : bound before.updatedAt ≤ bound field.updatedAt)
    (hstamped : old → c < bound field.updatedAt)
    (hmarked : field.value ≠ .none → c + 1 < bound field.updatedAt)
    (hedits : ∀ e ∈ edits, e.rowId = r → e.status ≠ .none → e.stamp ≤ c →
      beats e.stamp before.updatedAt = true → old) :
    (old → c < bound (MarkEdit.applyAll edits r field).updatedAt) ∧
      ((MarkEdit.applyAll edits r field).value ≠ .none →
        c + 1 < bound (MarkEdit.applyAll edits r field).updatedAt) := by
  induction edits generalizing field with
  | nil => exact ⟨hstamped, hmarked⟩
  | cons e rest ih =>
    obtain ⟨hedit, hrest⟩ := List.forall_mem_cons.mp hedits
    rw [MarkEdit.applyAll, List.foldl_cons]
    by_cases hrow : e.rowId = r
    · rw [if_pos hrow]
      have hlater := e.bound_le_apply field
      refine ih (hle.trans hlater) (fun hold => (hstamped hold).trans_le hlater) ?_ hrest
      rw [e.apply_eq]
      split
      next hbeats =>
        intro hstatus
        show c + 1 < e.stamp + 1
        rw [beats_iff] at hbeats
        by_contra hlate
        have hstamp : e.stamp ≤ c := Nat.not_lt.mp fun hlt => hlate (Nat.succ_lt_succ hlt)
        have hold := hedit hrow hstatus hstamp ((beats_iff _ _).mpr (hle.trans hbeats))
        exact absurd ((hstamped hold).trans_le hbeats) (Nat.not_lt.mpr hstamp)
      next => exact hmarked
    · rw [if_neg hrow]
      exact ih hle hstamped hmarked hrest

/-- A clear outlives every label that brings no late mark to a new row. -/
theorem Cleared.apply {fromisoformat : String → Option Time} {s : UserEdits} {id : MoodleId}
    {c : Time} {next : Nat} (h : Cleared s id c next) {l : MarkLabel}
    (hlate : ¬ l.MarksNewRow fromisoformat s id c next) :
    Cleared (l.apply fromisoformat s) id c next := by
  have hgrows := grows_apply fromisoformat s l
  have hrow : ∀ r, RowOf (l.apply fromisoformat s).assignments id r →
      (r < next → c < bound (statusOf (l.apply fromisoformat s).marks r).updatedAt) ∧
        ((statusOf (l.apply fromisoformat s).marks r).value ≠ .none →
          c + 1 < bound (statusOf (l.apply fromisoformat s).marks r).updatedAt) := by
    intro r hr
    rw [statusOf_apply]
    have hbefore : (r < next → c < bound (statusOf s.marks r).updatedAt) ∧
        ((statusOf s.marks r).value ≠ .none → c + 1 < bound (statusOf s.marks r).updatedAt) := by
      obtain ⟨key', row', hrow', hid, rfl⟩ := rowOf_iff.mp hr
      rcases hgrows.kept key' row' hrow' with hnew | ⟨key, row, hrow, hsame, hassignment⟩
      · -- A row the label adds has no mark yet.
        have hblank : s.marks.get row'.id = none := by
          by_contra hmark
          exact absurd (h.marksOnRows.marks _ hmark) (Nat.not_lt.mpr hnew)
        refine ⟨fun hold => absurd hold (Nat.not_lt.mpr (h.le.trans hnew)), fun hvalue => ?_⟩
        exact absurd (by simp [statusOf, markOf, hblank, UserAssignmentOverride.blank,
          Field.unset]) hvalue
      · have hstored : RowOf s.assignments id row'.id :=
          rowOf_iff.mpr ⟨key, row, hrow, hassignment.trans hid, hsame⟩
        exact ⟨h.stamped _ hstored, h.marked _ hstored⟩
    refine applyAll_cleared le_rfl hbefore.1 hbefore.2 ?_
    rintro e he rfl hstatus hstamp hbeats
    by_contra hnew
    exact hlate ⟨e, he, Nat.not_lt.mp hnew, hr, hstatus, hstamp, hbeats⟩
  exact ⟨h.marksOnRows.apply fromisoformat l, h.le.trans hgrows.le, fun r hr => (hrow r hr).1,
    fun r hr => (hrow r hr).2⟩

/-- A clear on a row leaves its stamp there, or a later one, and no mark but the one it lost to. -/
theorem applyAll_clear (deviceId : Option DeviceId) {c now : Time}
    (hclamp : clampTs c now MAX_CLOCK_SKEW = c) (rowIds : List Nat) (r : Nat)
    (field : Field AssignmentLocalStatus) :
    let cleared := MarkEdit.applyAll (rowIds.map fun rowId => ⟨rowId, .none, c, deviceId, now⟩) r field
    bound field.updatedAt ≤ bound cleared.updatedAt ∧
      (r ∈ rowIds → c < bound cleared.updatedAt) ∧ (cleared.value ≠ .none → cleared = field) := by
  induction rowIds generalizing field with
  | nil => exact ⟨le_rfl, fun h => absurd h List.not_mem_nil, fun _ => rfl⟩
  | cons rowId rest ih =>
    rw [List.map_cons, MarkEdit.applyAll, List.foldl_cons]
    by_cases hrow : rowId = r
    · subst hrow
      rw [if_pos rfl]
      have happly : MarkEdit.apply ⟨rowId, .none, c, deviceId, now⟩ field =
          if beats c field.updatedAt then ⟨.none, some c, deviceId⟩ else field := by
        rw [MarkEdit.apply_eq, MarkEdit.stamp, hclamp]
      have hlater := MarkEdit.bound_le_apply ⟨rowId, .none, c, deviceId, now⟩ field
      obtain ⟨hle, _, hvalue⟩ := ih (MarkEdit.apply ⟨rowId, .none, c, deviceId, now⟩ field)
      refine ⟨hlater.trans hle, fun _ => lt_of_lt_of_le ?_ hle, fun hmark => ?_⟩
      · rw [happly]
        split
        next => exact Nat.lt_succ_self c
        next hlost =>
          rw [beats_iff] at hlost
          exact Nat.not_le.mp hlost
      · have hsame := hvalue hmark
        refine hsame.trans ?_
        rw [happly]
        split
        next hwon =>
          -- A clear that won left no mark.
          have hnone : (MarkEdit.apply ⟨rowId, .none, c, deviceId, now⟩ field).value = .none := by
            rw [happly, if_pos hwon]
          refine absurd ?_ hmark
          show (MarkEdit.applyAll _ _ _).value = _
          rw [hsame, hnone]
        next => rfl
    · rw [if_neg hrow]
      obtain ⟨hle, hstamped, hvalue⟩ := ih field
      refine ⟨hle, fun hmem => hstamped ?_, hvalue⟩
      exact (List.mem_cons.mp hmem).resolve_left (Ne.symm hrow)

/-- The clear is answered, and no row of the assignment has a mark of its very stamp, which an
equal stamp does not beat. -/
structure ClearAccepted (s : UserEdits) (deviceId : Option DeviceId) (speaksClock : Bool)
    (now : Time) (id : MoodleId) (hlc : Option Time) (ageMs : Option Int) (c : Time)
    (marks : Marks) : Prop where
  stamp : editTime hlc now ageMs = .ok c
  answered : ∃ answer, patchAssignmentOverride s.assignments s.marks deviceId speaksClock now id
    ⟨.none, hlc, ageMs⟩ = .ok (marks, answer)
  untied : ∀ r, RowOf s.assignments id r → (statusOf s.marks r).value ≠ .none →
    (statusOf s.marks r).updatedAt ≠ some c

/-- Once it is accepted, the assignment is cleared. -/
theorem cleared_of_accepted {s : UserEdits} (h : MarksOnRows s) {deviceId : Option DeviceId}
    {speaksClock : Bool} {now : Time} {id : MoodleId} {hlc : Option Time} {ageMs : Option Int}
    {c : Time} {marks : Marks}
    (haccepted : ClearAccepted s deviceId speaksClock now id hlc ageMs c marks) :
    Cleared { s with marks } id c s.nextAssignmentId := by
  obtain ⟨answer, hanswer⟩ := haccepted.answered
  have hmarks : marks = (MarkLabel.apply (fun _ => none) s (.request (.patchAssignment deviceId
      speaksClock now id ⟨.none, hlc, ageMs⟩))).marks := by
    show marks = keepRows s.marks _
    rw [hanswer]
    rfl
  have hstatus : ∀ r, RowOf s.assignments id r →
      c < bound (statusOf marks r).updatedAt ∧
        ((statusOf marks r).value ≠ .none → c + 1 < bound (statusOf marks r).updatedAt) := by
    intro r hr
    obtain ⟨key, row, hrow, hid, rfl⟩ := rowOf_iff.mp hr
    have hedits : ∃ rowIds : List Nat, row.id ∈ rowIds ∧
        patchEdits s.assignments deviceId speaksClock now id ⟨.none, hlc, ageMs⟩ =
          rowIds.map fun rowId => ⟨rowId, .none, c, deviceId, now⟩ := by
      simp only [patchAssignmentOverride, haccepted.stamp, bind, Except.bind] at hanswer
      unfold patchEdits
      rw [haccepted.stamp]
      cases hrequire : requireStamp speaksClock hlc ageMs with
      | error e => rw [hrequire] at hanswer; cases hanswer
      | ok _ =>
        rw [hrequire] at hanswer
        cases hfound : getAssignmentByMoodleId s.assignments id with
        | none => rw [hfound] at hanswer; cases hanswer
        | some assignment =>
          refine ⟨_, ?_, rfl⟩
          rw [markedRows, if_pos rfl]
          refine List.mem_map.mpr ⟨(key, row), ?_, rfl⟩
          exact (Table.mem_select_iff _ _ _ _).mpr ⟨hrow, decide_eq_true hid⟩
    obtain ⟨rowIds, hmem, hedits⟩ := hedits
    have hclear := applyAll_clear deviceId (clampTs_of_editTime haccepted.stamp) rowIds row.id
      (statusOf s.marks row.id)
    have hafter : statusOf marks row.id = MarkEdit.applyAll
        (rowIds.map fun rowId => ⟨rowId, .none, c, deviceId, now⟩) row.id
          (statusOf s.marks row.id) := by
      rw [hmarks, statusOf_apply]
      show MarkEdit.applyAll (patchEdits _ _ _ _ _ _) _ _ = _
      rw [hedits]
    rw [← hafter] at hclear
    obtain ⟨_, hstamped, hvalue⟩ := hclear
    refine ⟨hstamped hmem, fun hmark => ?_⟩
    have hsame := hvalue hmark
    rw [hsame] at hmark
    have hlt := hstamped hmem
    have huntied := haccepted.untied row.id hr hmark
    rw [hsame] at hlt ⊢
    cases hold : (statusOf s.marks row.id).updatedAt with
    | none =>
      rw [hold] at hlt
      exact absurd hlt (Nat.not_lt_zero c)
    | some t =>
      rw [hold] at hlt huntied
      have hne : t ≠ c := fun heq => huntied (congrArg some heq)
      have hle : c ≤ t := Nat.lt_succ_iff.mp hlt
      exact Nat.succ_lt_succ (lt_of_le_of_ne hle (Ne.symm hne))
  refine ⟨?_, le_rfl, fun r hr _ => (hstatus r hr).1, fun r hr => (hstatus r hr).2⟩
  have hafter := h.apply (fun _ => none) (.request (.patchAssignment deviceId
    speaksClock now id ⟨.none, hlc, ageMs⟩))
  rw [hmarks]
  exact hafter

/-- A fetch lists an assignment. -/
def listedFirst : List MarkLabel := [.write 10 (.fetch (.listed [report 3] none))]

/-- Moodle moves it to another course, and a mark arrives. -/
def movedThenMarked (hlc : Time) : List MarkLabel :=
  [.write 200 (.fetch (.listed [report 4] none)),
    .request (.patchAssignment (some 2) true 300 9 ⟨.locallyCompleted, some hlc, none⟩)]

end TigerDuck.Sync
