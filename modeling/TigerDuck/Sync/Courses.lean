import TigerDuck.Sync.Membership

/-!
# Course deletion

The two endpoints of `server/routes/sync/courses.py`: `delete_all_courses`, which wipes a
term or everything, and `delete_course`, which hides one course or takes a hand-add back.
Both hold the user's sync lock from their first read to their commit, so each is one step
on the user's rows.

The sync trigger and the log entry they queue are not part of the rows and are left out.
-/

namespace TigerDuck.Sync

open Relational

/-- What a change-log entry of a course carries as its payload. -/
inductive ChangePayload
  /-- The course of the key. -/
  | course (key : CourseKey)
  /-- A reset that emptied nothing still moves `term_resets`. -/
  | reset (semester : Option Term)
  /-- No payload: an initial upload's entry names the course of the key by its id alone. -/
  | noHint (key : CourseKey)
  deriving DecidableEq

inductive ChangeOperation
  | upsert
  | delete
  deriving DecidableEq, Repr

/-- A course entry of `user_change_log`. -/
structure Change where
  operation : ChangeOperation
  payload : ChangePayload
  deriving DecidableEq

/-- The rows of one user that course membership reads and writes. An override belongs to
the course row of its key and goes with it. -/
structure UserSync where
  courses : Table CourseKey UserCourse
  tombstones : Table CourseKey UserCourseTombstone
  overrides : Table CourseKey UserCourseOverride
  /-- `users.courses_reset_at`. -/
  coursesResetAt : Option Time
  /-- `user_semester_resets`. -/
  semesterResets : Table Term Time
  /-- The course entries of the change log, oldest first. -/
  changes : List Change

namespace UserSync

/-- A user who has never synced. -/
def fresh : UserSync := ⟨Table.empty, Table.empty, Table.empty, none, Table.empty, []⟩

/-- `Resets.load`. -/
def resets (u : UserSync) : Resets := ⟨u.coursesResetAt, u.semesterResets⟩

/-- `membership_stamp` of the key's stored rows. -/
def stamp (u : UserSync) (key : CourseKey) : Option Time :=
  membershipStamp (u.courses.get key) (u.tombstones.get key) u.resets (some key.term)

/-- What is stored of the key. -/
def membership (u : UserSync) (key : CourseKey) : Membership :=
  ⟨(u.courses.get key).map UserCourse.membership,
    (u.tombstones.get key).map UserCourseTombstone.membership⟩

/-- `append_change`, once per change. -/
def appendChanges (u : UserSync) (changes : List Change) : UserSync :=
  { u with changes := u.changes ++ changes }

end UserSync

/-- Whether a reset of `semester` reaches the key: every key when it names no term. -/
def inScope (semester : Option Term) (key : CourseKey) : Bool :=
  semester.all (key.term = ·)

/-- `_record_reset`: store the reset's stamp, never moving a stored one back. -/
def recordReset (u : UserSync) (semester : Option Term) (stamp : Time) : UserSync :=
  match semester with
  | none => { u with coursesResetAt := latest [u.coursesResetAt, some stamp] }
  | some term => { u with semesterResets := u.semesterResets.upsert term stamp (max · stamp) }

/-- The answer of `delete_all_courses`. -/
structure ResetAnswer where
  deleted : Nat
  /-- Sent under protocol 2 only. -/
  applied : Option Bool
  resetHlc : Time
  deriving DecidableEq, Repr

/-- The stamp a reset must beat: the term's covering resets, or the full reset. -/
def storedReset (u : UserSync) (semester : Option Term) : Option Time :=
  match semester with
  | some term => u.resets.covering (some term)
  | none => u.resets.full

/-- Whether a protocol-2 reset takes the row away. A later colour or name keeps a school
row, never a hand-add the reset clears. -/
def resetTakes (u : UserSync) (semester : Option Term) (stamp : Time) (key : CourseKey)
    (row : UserCourse) : Bool :=
  inScope semester key && !row.addedAt.any (stamp < ·) &&
    (row.source == .userAdded || !overrideOutlasts (u.overrides.get key) stamp)

/-- The tombstones a protocol-2 reset leaves behind. A tombstone it covers goes with a kept
row and becomes this reset's otherwise; a row it takes leaves a reset tombstone unless a
later tombstone already keeps the course out. A full reset only removes what it covers. -/
def resetTombstones (u : UserSync) (deviceId : Option DeviceId) (semester : Option Term)
    (stamp : Time) : Table CourseKey UserCourseTombstone :=
  let covered : CourseKey → UserCourseTombstone → Bool := fun key t =>
    inScope semester key && decide (t.deletedAt ≤ stamp)
  let gone : CourseKey → Bool := fun key =>
    (u.courses.get key).any (resetTakes u semester stamp key)
  let kept : CourseKey → Bool := fun key =>
    (u.courses.get key).any fun row => inScope semester key && !resetTakes u semester stamp key row
  match semester with
  | none => u.tombstones.deleteWhere covered
  | some _ =>
    let released := u.tombstones.deleteWhere fun key t => covered key t && kept key
    let stamped := released.modify fun key t =>
      if covered key t then
        { t with deletedAt := stamp, deletedByDeviceId := deviceId, deletedByReset := true }
      else t
    stamped.insertFrom u.courses fun key row =>
      if gone key then some ⟨stamp, deviceId, true, row.source == .userAdded⟩ else none

/-- What an accepted reset writes: it clears the term's choices stamped at or before it. A
row it keeps is logged when that changed it, and a reset of an empty term still moves
`term_resets`. -/
def clearByStamp (u : UserSync) (deviceId : Option DeviceId) (semester : Option Term)
    (stamp : Time) : UserSync × ResetAnswer :=
  let gone := u.courses.select (resetTakes u semester stamp)
  let cleared := u.courses.select fun key row =>
    inScope semester key && !resetTakes u semester stamp key row &&
      (clearBefore row (u.overrides.get key) stamp).2.2
  let takesKey : CourseKey → Bool := fun key =>
    (u.courses.get key).any (resetTakes u semester stamp key)
  let changes := gone.map (fun r => ⟨.delete, .course r.1⟩) ++
    cleared.map fun r => ⟨.upsert, .course r.1⟩
  let changes := if changes.isEmpty then [⟨.upsert, .reset semester⟩] else changes
  let u' : UserSync :=
    { recordReset u semester stamp with
      courses := (u.courses.deleteWhere (resetTakes u semester stamp)).modify fun key row =>
        if inScope semester key then (clearBefore row (u.overrides.get key) stamp).1 else row
      overrides := (u.overrides.deleteWhere fun key _ => takesKey key).modify fun key o =>
        match u.courses.get key with
        | some row =>
          if inScope semester key then (clearBefore row (some o) stamp).2.1.getD o else o
        | none => o
      tombstones := resetTombstones u deviceId semester stamp }
  (u'.appendChanges changes, ⟨gone.length, some true, stamp⟩)

/-- `_reset_by_stamp`: a reset wins when later than the one it would replace. -/
def resetByStamp (u : UserSync) (deviceId : Option DeviceId) (semester : Option Term)
    (stamp : Time) : UserSync × ResetAnswer :=
  let stored := storedReset u semester
  if beats stamp stored then clearByStamp u deviceId semester stamp
  else (u, ⟨0, some false, stored.getD 0⟩)

/-- The released apps' reset: every course in scope goes. A term reset leaves reset
tombstones that bind every device but its author; a full reset leaves none, since
`courses_reset_at` tells every device to drop its courses. -/
def resetOnArrival (u : UserSync) (deviceId : Option DeviceId) (semester : Option Term)
    (stamp now : Time) : UserSync × ResetAnswer :=
  let u₁ := recordReset u semester stamp
  let rows := u.courses.select fun key _ => inScope semester key
  let marker : Bool → UserCourseTombstone := fun userAdded => ⟨now, deviceId, true, userAdded⟩
  let tombstones :=
    match semester with
    | none => u.tombstones.deleteWhere fun _ _ => true
    | some _ =>
      (u.tombstones.modify fun key t =>
        if inScope semester key then marker t.userAdded else t).overwriteFrom u.courses
          fun key row =>
            if inScope semester key then some (marker (row.source == .userAdded)) else none
  let changes := rows.map fun r => ⟨.delete, .course r.1⟩
  let changes := if changes.isEmpty then [⟨.upsert, .reset semester⟩] else changes
  let u₂ : UserSync :=
    { u₁ with
      courses := u.courses.deleteWhere fun key _ => inScope semester key
      overrides := u.overrides.deleteWhere fun key _ => inScope semester key
      tombstones }
  (u₂.appendChanges changes, ⟨rows.length, none, (storedReset' u₁ semester).getD stamp⟩)
where
  /-- The stamp `_record_reset` returns. -/
  storedReset' (u : UserSync) : Option Term → Option Time
    | none => u.coursesResetAt
    | some term => u.semesterResets.get term

/-- `delete_all_courses`. -/
def deleteAllCourses (u : UserSync) (deviceId : Option DeviceId) (speaksClock : Bool)
    (now : Time) (semester : Option Term) (hlc : Option Time) (ageMs : Option Int) :
    Except HttpError (UserSync × ResetAnswer) := do
  requireStamp speaksClock hlc ageMs
  if speaksClock then
    let stamp ← editTime hlc now ageMs
    return resetByStamp u deviceId semester stamp
  if semester.isSome && deviceId.isNone then
    throw ⟨400, "device_id_required"⟩
  let stamp ← editTime hlc now ageMs
  return resetOnArrival u deviceId semester stamp now

/-- The `kind` a client may name. -/
inductive DeleteKind
  | hide
  | remove
  deriving DecidableEq, Repr

/-- The tombstone kind a delete writes. -/
def DeleteKind.tombstoneKind : DeleteKind → TombstoneKind
  | .hide => .hide
  | .remove => .remove

/-- The answer of `delete_course`. -/
structure DeleteAnswer where
  deleted : Nat
  applied : Bool
  hlc : Option Time
  deriving DecidableEq, Repr

/-- The kind of a delete that names none: a course added by hand is removed, any other
hidden. -/
def DeleteKind.orDefault (kind : Option DeleteKind) (row : Option UserCourse) : DeleteKind :=
  kind.getD (if row.any (·.source == .userAdded) then .remove else .hide)

/-- The row a removal leaves: it takes back a hand-add; the school's row stays and only
loses the add. -/
def keptRow (kind : DeleteKind) (row : Option UserCourse) : Option UserCourse :=
  if kind = .remove then row.filter (·.source != .userAdded) else none

/-- What an accepted delete writes. One that only moves its own tombstone's stamp is not
logged. -/
def hideOrRemove (u : UserSync) (deviceId : Option DeviceId) (key : CourseKey) (stamp : Time)
    (kind : DeleteKind) : UserSync × DeleteAnswer :=
  let row := u.courses.get key
  let kept := keptRow kind row
  let restampOnly :=
    (row.isNone || kept.any (·.addedAt.isNone)) &&
      (u.tombstones.get key).any (·.kind == kind.tombstoneKind)
  let u' : UserSync :=
    { u with
      courses :=
        if kept.isSome then
          u.courses.modify fun k r => if k = key then { r with addedAt := none } else r
        else u.courses.deleteWhere fun k _ => k = key
      overrides :=
        if kept.isSome then u.overrides else u.overrides.deleteWhere fun k _ => k = key
      tombstones := u.tombstones.set key ⟨stamp, deviceId, false, kind = .remove⟩ }
  let changes : List Change :=
    if restampOnly then [] else [⟨if kept.isSome then .upsert else .delete, .course key⟩]
  (u'.appendChanges changes, ⟨if row.isSome && kept.isNone then 1 else 0, true, some stamp⟩)

/-- The term a delete resets against: its row's, its tombstone's, or the one in its key. -/
def deleteSemester (u : UserSync) (key : CourseKey) : Option Term :=
  if (u.courses.get key).isSome || (u.tombstones.get key).isSome ||
    (semesterOf key.render).isSome then some key.term else none

/-- `delete_course` from the sync lock on: hide the course, or take back a hand-add, when
the stamp is later than the key's add, tombstone and covering resets. -/
def deleteByStamp (u : UserSync) (deviceId : Option DeviceId) (key : CourseKey)
    (speaksClock : Bool) (stamp : Time) (kind : Option DeleteKind) : UserSync × DeleteAnswer :=
  let row := u.courses.get key
  let semester := deleteSemester u key
  let stored := membershipStamp row (u.tombstones.get key) u.resets semester
  -- A released app's delete of a course the server lacks changes nothing.
  if (row.isNone && !speaksClock) || semester.isNone || !beats stamp stored then
    (u, ⟨0, false, stored⟩)
  else hideOrRemove u deviceId key stamp (DeleteKind.orDefault kind row)

/-- `delete_course`. -/
def deleteCourse (u : UserSync) (deviceId : Option DeviceId) (key : CourseKey)
    (speaksClock : Bool) (now : Time) (hlc : Option Time) (kind : Option DeleteKind)
    (ageMs : Option Int) : Except HttpError (UserSync × DeleteAnswer) := do
  requireStamp speaksClock hlc ageMs
  let stamp ← editTime hlc now ageMs
  return deleteByStamp u deviceId key speaksClock stamp kind

/-! ### What the endpoints do to the rows of one key -/

section Stamps

variable (u : UserSync) (key : CourseKey)

theorem added_membership : (u.membership key).added = (u.courses.get key).bind (·.addedAt) := by
  cases h : u.courses.get key <;> simp [UserSync.membership, Membership.added, h,
    UserCourse.membership]

/-- The stamp of a key is the latest of its add, its tombstone and its covering reset. -/
theorem bound_stamp :
    bound (u.stamp key) =
      max (bound (u.membership key).added)
        (max (bound ((u.membership key).tombstone.map Prod.snd))
          (bound (u.resets.covering (some key.term)))) := by
  rw [UserSync.stamp, bound_membershipStamp, added_membership]
  congr 3
  cases h : u.tombstones.get key <;> simp [UserSync.membership, h, UserCourseTombstone.membership]

end Stamps

section Delete

variable (u : UserSync) (deviceId : Option DeviceId) (key : CourseKey) (stamp : Time)

/-- `semester_of` recognises every key the apps build. -/
@[simp]
theorem deleteSemester_eq : deleteSemester u key = some key.term := by
  simp [deleteSemester]

/-- A protocol-2 delete compares its stamp with the key's. -/
theorem deleteByStamp_eq (kind : Option DeleteKind) :
    deleteByStamp u deviceId key true stamp kind =
      if beats stamp (u.stamp key) then
        hideOrRemove u deviceId key stamp (DeleteKind.orDefault kind (u.courses.get key))
      else (u, ⟨0, false, u.stamp key⟩) := by
  have hstored : membershipStamp (u.courses.get key) (u.tombstones.get key) u.resets
      (some key.term) = u.stamp key := rfl
  by_cases hbeats : beats stamp (u.stamp key) = true
  · simp [deleteByStamp, hstored, hbeats]
  · simp [deleteByStamp, hstored, hbeats]

/-- A delete leaves its tombstone; only a removal keeps a row, the school's, without its
add. -/
theorem membership_hideOrRemove (kind : DeleteKind) :
    (hideOrRemove u deviceId key stamp kind).1.membership key =
      ⟨if kind = .remove then
          ((u.membership key).row.filter (·.1 ≠ .userAdded)).map fun r => (r.1, none)
        else none,
        some (kind.tombstoneKind, stamp)⟩ := by
  ext1
  · cases hrow : u.courses.get key with
    | none => cases kind <;> simp [hideOrRemove, UserSync.membership, UserSync.appendChanges,
        keptRow, hrow]
    | some row =>
      rcases row with ⟨source, added, status⟩
      cases kind <;> cases source <;> simp [hideOrRemove, UserSync.membership,
        UserSync.appendChanges, keptRow, hrow, UserCourse.membership, Option.filter]
  · cases kind <;> simp [hideOrRemove, UserSync.membership, UserSync.appendChanges,
      UserCourseTombstone.membership, UserCourseTombstone.kind, DeleteKind.tombstoneKind]

/-- A delete leaves the other keys and every reset alone. -/
theorem membership_hideOrRemove_of_ne (kind : DeleteKind) {key' : CourseKey} (h : key' ≠ key) :
    (hideOrRemove u deviceId key stamp kind).1.membership key' = u.membership key' := by
  simp only [hideOrRemove, UserSync.membership, UserSync.appendChanges, Table.get_set, h, if_false]
  split <;> cases hrow : u.courses.get key' <;> simp [h, hrow, Option.filter]

theorem resets_hideOrRemove (kind : DeleteKind) :
    (hideOrRemove u deviceId key stamp kind).1.resets = u.resets := rfl

end Delete

section Reset

variable (u : UserSync) (deviceId : Option DeviceId) (semester : Option Term) (stamp : Time)
  (key : CourseKey)

/-- A reset a row survives either does not reach it or clears the add it covers. -/
theorem added_clearByStamp :
    ((clearByStamp u deviceId semester stamp).1.membership key).added =
      if inScope semester key then (u.membership key).added.filter fun t => decide (stamp < t)
      else (u.membership key).added := by
  rw [added_membership, added_membership]
  simp only [clearByStamp, UserSync.appendChanges, Table.get_modify, Table.get_deleteWhere]
  cases hrow : u.courses.get key with
  | none => simp [Option.filter]
  | some row =>
    by_cases hscope : inScope semester key = true
    · by_cases htake : resetTakes u semester stamp key row = true
      · -- A row the reset takes has no add after it.
        have hlate : row.addedAt.any (stamp < ·) = false := by
          simp only [resetTakes, Bool.and_eq_true, Bool.not_eq_true'] at htake
          exact htake.1.2
        cases hadd : row.addedAt with
        | none => simp [Option.filter, htake, hscope, hadd]
        | some t => simp_all [Option.filter]
      · simp [Option.filter, htake, hscope, addedAt_clearBefore]
    · have htake : resetTakes u semester stamp key row = false := by simp [resetTakes, hscope]
      simp [Option.filter, htake, hscope]

/-- A reset brings no row back. -/
theorem row_clearByStamp (h : (u.membership key).row = none) :
    ((clearByStamp u deviceId semester stamp).1.membership key).row = none := by
  have hrow : u.courses.get key = none := by simpa [UserSync.membership] using h
  simp [clearByStamp, UserSync.membership, UserSync.appendChanges, hrow, Option.filter]

/-- A key out of the reset's scope keeps its row and its tombstone. -/
theorem membership_clearByStamp_of_not_inScope (h : inScope semester key = false) :
    (clearByStamp u deviceId semester stamp).1.membership key = u.membership key := by
  have htake : ∀ row, resetTakes u semester stamp key row = false := by simp [resetTakes, h]
  ext1
  · cases hrow : u.courses.get key <;>
      simp [clearByStamp, UserSync.membership, UserSync.appendChanges, htake, h, hrow,
        Option.filter]
  · cases semester with
    | none => simp [inScope] at h
    | some term =>
      cases htomb : u.tombstones.get key <;> cases hrow : u.courses.get key <;>
        simp [clearByStamp, UserSync.membership, UserSync.appendChanges, resetTombstones, htake, h,
          htomb, hrow, Option.filter]

/-- A tombstone later than the reset stays. -/
theorem tombstone_clearByStamp_later {t : TombstoneKind × Time}
    (h : (u.membership key).tombstone = some t) (hlater : stamp < t.2) :
    ((clearByStamp u deviceId semester stamp).1.membership key).tombstone = some t := by
  obtain ⟨tombstone, htomb, rfl⟩ := Option.map_eq_some_iff.mp h
  have hlater' : ¬ tombstone.deletedAt ≤ stamp := Nat.not_le.mpr hlater
  cases semester <;>
    simp [clearByStamp, UserSync.membership, UserSync.appendChanges, resetTombstones, htomb,
      Option.filter, hlater']

/-- A key whose add is later than the reset gets no tombstone. -/
theorem tombstone_clearByStamp_kept {added : Time} (hnone : (u.membership key).tombstone = none)
    (hadded : (u.membership key).added = some added) (hlater : stamp < added) :
    ((clearByStamp u deviceId semester stamp).1.membership key).tombstone = none := by
  have htomb : u.tombstones.get key = none := by simpa [UserSync.membership] using hnone
  rw [added_membership] at hadded
  obtain ⟨row, hrow, hadd⟩ := Option.bind_eq_some_iff.mp hadded
  have hkept : resetTakes u semester stamp key row = false := by simp [resetTakes, hadd, hlater]
  cases semester <;> simp [clearByStamp, UserSync.membership, UserSync.appendChanges,
    resetTombstones, htomb, hrow, hkept]

/-- Any other tombstone in scope goes or becomes the reset's. -/
theorem tombstone_clearByStamp (hscope : inScope semester key = true)
    (h : ∀ t, (u.membership key).tombstone = some t → t.2 ≤ stamp) {t : TombstoneKind × Time}
    (ht : ((clearByStamp u deviceId semester stamp).1.membership key).tombstone = some t) :
    t = (.reset, stamp) := by
  obtain ⟨tombstone, hget, rfl⟩ := Option.map_eq_some_iff.mp ht
  have hcovered : ∀ t, u.tombstones.get key = some t → t.deletedAt ≤ stamp := fun t htomb =>
    h t.membership (by simp [UserSync.membership, htomb])
  suffices hreset : tombstone.deletedByReset = true ∧ tombstone.deletedAt = stamp by
    simp [UserCourseTombstone.membership, UserCourseTombstone.kind, hreset]
  have hget' : (resetTombstones u deviceId semester stamp).get key = some tombstone := hget
  cases semester with
  | none =>
    cases htomb : u.tombstones.get key with
    | none => simp [resetTombstones, htomb] at hget'
    | some old => simp [resetTombstones, htomb, Option.filter, hcovered old htomb, hscope] at hget'
  | some term =>
    simp only [resetTombstones, Table.get_insertFrom, Table.get_modify, Table.get_deleteWhere,
      Option.or_eq_some_iff, Option.map_eq_some_iff, Option.filter_eq_some_iff,
      Option.bind_eq_some_iff] at hget'
    rcases hget' with ⟨old, ⟨hold, _⟩, hstamped⟩ | ⟨_, row, _, hinserted⟩
    · rw [if_pos (by simp [hscope, hcovered old hold])] at hstamped
      exact ⟨by rw [← hstamped], by rw [← hstamped]⟩
    · split at hinserted
      · obtain rfl := Option.some.inj hinserted
        exact ⟨rfl, rfl⟩
      · cases hinserted

/-- Recording a reset raises the covering stamp of the terms in its scope to its own. -/
theorem covering_recordReset (term : Term) :
    bound ((recordReset u semester stamp).resets.covering (some term)) =
      if semester.all (term = ·) then
        max (bound (u.resets.covering (some term))) (bound (some stamp))
      else bound (u.resets.covering (some term)) := by
  simp only [bound_covering, UserSync.resets]
  cases semester with
  | none =>
    have hfull : bound (latest [u.coursesResetAt, some stamp]) =
        max (bound u.coursesResetAt) (bound (some stamp)) := by simp [bound_latest]
    simp only [recordReset, hfull, Option.all_none, if_true]
    omega
  | some term' =>
    simp only [recordReset, Table.get_upsert, Option.all_some, decide_eq_true_eq]
    split
    next hterm =>
      subst hterm
      cases u.semesterResets.get term <;> simp
    next => rfl

theorem covering_clearByStamp (term : Term) :
    bound ((clearByStamp u deviceId semester stamp).1.resets.covering (some term)) =
      if semester.all (term = ·) then
        max (bound (u.resets.covering (some term))) (bound (some stamp))
      else bound (u.resets.covering (some term)) :=
  covering_recordReset u semester stamp term

theorem covering_resetOnArrival (now : Time) (term : Term) :
    bound ((resetOnArrival u deviceId semester stamp now).1.resets.covering (some term)) =
      if semester.all (term = ·) then
        max (bound (u.resets.covering (some term))) (bound (some stamp))
      else bound (u.resets.covering (some term)) :=
  covering_recordReset u semester stamp term

/-- A released app's reset leaves reset tombstones of its arrival in scope. -/
theorem tombstone_resetOnArrival (now : Time) {t : TombstoneKind × Time}
    (ht : ((resetOnArrival u deviceId semester stamp now).1.membership key).tombstone = some t) :
    (inScope semester key = true ∧ t = (.reset, now)) ∨
      (u.membership key).tombstone = some t := by
  cases semester with
  | none => 
    cases htomb : u.tombstones.get key <;>
      simp [resetOnArrival, UserSync.membership, UserSync.appendChanges, htomb] at ht
  | some term =>
    obtain ⟨tombstone, hget, rfl⟩ := Option.map_eq_some_iff.mp ht
    simp only [resetOnArrival, UserSync.appendChanges, Table.get_overwriteFrom, Table.get_modify,
      Option.or_eq_some_iff, Option.bind_eq_some_iff, Option.map_eq_some_iff] at hget
    rcases hget with ⟨row, _, hrow⟩ | ⟨_, old, hold, hstamped⟩
    · split at hrow
      next hscope =>
        obtain rfl := Option.some.inj hrow
        exact Or.inl ⟨hscope, rfl⟩
      next => cases hrow
    · split at hstamped
      next hscope =>
        subst hstamped
        exact Or.inl ⟨hscope, rfl⟩
      next =>
        subst hstamped
        exact Or.inr (by simp [UserSync.membership, hold])

/-- The stamp a reset records: the full reset's or its term's. -/
def UserSync.recorded (u : UserSync) (semester : Option Term) : Option Time :=
  semester.elim u.coursesResetAt u.semesterResets.get

/-- A reset records its own stamp, unless a later one is there. -/
theorem recorded_clearByStamp :
    bound ((clearByStamp u deviceId semester stamp).1.recorded semester) =
      max (bound (u.recorded semester)) (bound (some stamp)) := by
  cases semester with
  | none => simp [clearByStamp, UserSync.appendChanges, UserSync.recorded, recordReset, bound_latest]
  | some term =>
    simp only [clearByStamp, UserSync.appendChanges, UserSync.recorded, recordReset,
      Option.elim_some, Table.get_upsert, if_true]
    cases u.semesterResets.get term <;> simp

/-- What a reset must beat is no earlier than what it records. -/
theorem recorded_le_storedReset :
    bound (u.recorded semester) ≤ bound (storedReset u semester) := by
  cases semester with
  | none => exact le_rfl
  | some term => simp [UserSync.recorded, storedReset, UserSync.resets]

/-- A reset lowers nothing that a reset must beat. -/
theorem storedReset_le_clearByStamp (semester' : Option Term) :
    bound (storedReset u semester') ≤
      bound (storedReset (clearByStamp u deviceId semester stamp).1 semester') := by
  cases semester' with
  | none =>
    cases semester with
    | none => simp [storedReset, clearByStamp, UserSync.appendChanges, UserSync.resets, recordReset,
        bound_latest]
    | some term => exact le_rfl
  | some term =>
    rw [storedReset, storedReset, covering_clearByStamp]
    split
    · exact le_max_left _ _
    · exact le_rfl

/-- What a reset must beat covers no more than the stamp of any key it reaches. -/
theorem storedReset_le_covering (h : inScope semester key = true) :
    bound (storedReset u semester) ≤ bound (u.resets.covering (some key.term)) := by
  cases semester with
  | none => simp [storedReset]
  | some term =>
    obtain rfl : key.term = term := by simpa [inScope] using h
    exact le_rfl

end Reset

end TigerDuck.Sync
