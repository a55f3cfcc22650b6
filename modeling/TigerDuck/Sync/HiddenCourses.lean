import TigerDuck.Sync.InitialUpload
import TigerDuck.Sync.Requests
import TigerDuck.Transition.Run

/-!
# Hidden courses have no row

A hide or a reset leaves a tombstone that keeps its course out; only a removal's tombstone may
stay beside a row, the school's. The course writers are the three course requests of either
protocol and the initial upload, in any order and any number.

## Main results

- `no_hidden_row`: no key has both a row and a hide or reset tombstone, in every state of exactly
  the runs whose initial uploads bring back no such key.
-/

namespace TigerDuck.Sync

open Relational Transition

/-- A write of one user's course rows. -/
inductive CourseWrite
  | request (r : Request)
  | initialUpload (deviceId : Option DeviceId) (now : Time) (courses : List UploadCourse)
      (overrides : List UploadCourseOverride)

/-- The rows after the write. -/
def CourseWrite.apply (u : UserSync) : CourseWrite → UserSync
  | request r => r.apply u
  | initialUpload deviceId now courses overrides =>
    (Sync.initialUpload u deviceId now courses overrides).1

/-- Every write is answered. -/
def CourseWrite.step (u : UserSync) (w : CourseWrite) : Option UserSync := some (w.apply u)

/-- Whether a hide or a reset keeps the course out. -/
def UserSync.keptOut (u : UserSync) (key : CourseKey) : Bool :=
  (u.tombstones.get key).any (·.kind ≠ .remove)

/-- No course kept out has a row. -/
def NoHiddenRow (u : UserSync) : Prop := ∀ key, (u.courses.get key).isSome → u.keptOut key = false

/-- The write imports no course kept out, but for keys that have a row. -/
def BringsNoHidden (u : UserSync) : CourseWrite → Prop
  | .request _ => True
  | .initialUpload _ _ courses _ =>
    ∀ item ∈ courses, u.courses.get item.courseKey = none → u.keptOut item.courseKey = false

instance (u : UserSync) (w : CourseWrite) : Decidable (BringsNoHidden u w) := by
  unfold BringsNoHidden
  cases w <;> infer_instance

/-- What is kept out, as the membership rules read it. -/
theorem keptOut_eq (u : UserSync) (key : CourseKey) :
    u.keptOut key = (u.membership key).tombstone.any (·.1 ≠ .remove) := by
  simp only [UserSync.keptOut, UserSync.membership]
  cases u.tombstones.get key <;> rfl

/-- A key has a row exactly when its membership has one. -/
theorem isSome_row (u : UserSync) (key : CourseKey) :
    (u.membership key).row.isSome = (u.courses.get key).isSome := by
  simp [UserSync.membership]

section Uploads

variable (u : UserSync) (deviceId : Option DeviceId) (now : Time) (payload : CourseUploadRequest)
  (adds : Table CourseKey Time) (key : CourseKey)

/-- The tombstones of a released app's upload are those it does not release. -/
theorem tombstones_applyUpload_arrival :
    (applyUpload u deviceId false now payload adds).1.tombstones =
      (releaseOnArrival u deviceId now payload).1.tombstones := by
  obtain ⟨overrides, hfill⟩ := fillColors_eq (fun key => (u.courses.get key).isSome) deviceId now
    payload.courseOverrides (writeRows payload (releaseOnArrival u deviceId now payload).2 false
      (releaseOnArrival u deviceId now payload).1)
  simp only [applyUpload, Bool.false_eq_true, if_false, hfill]
  rfl

/-- A released app's upload brings a row to the listed keys no tombstone keeps out. -/
theorem isSome_applyUpload_arrival :
    ((applyUpload u deviceId false now payload adds).1.courses.get key).isSome =
      ((u.courses.get key).isSome ||
        decide (key ∈ uploadedKeys payload (releaseOnArrival u deviceId now payload).2)) := by
  obtain ⟨overrides, hfill⟩ := fillColors_eq (fun key => (u.courses.get key).isSome) deviceId now
    payload.courseOverrides (writeRows payload (releaseOnArrival u deviceId now payload).2 false
      (releaseOnArrival u deviceId now payload).1)
  have hrow := congrArg Option.isSome
    (membership_writeRows payload (releaseOnArrival u deviceId now payload).2 false
      (releaseOnArrival u deviceId now payload).1 key)
  simp only [Option.isSome_map, get_upsertRows] at hrow
  have hstart : (releaseOnArrival u deviceId now payload).1.courses = u.courses := rfl
  simp only [applyUpload, Bool.false_eq_true, if_false, hfill, hrow, hstart]
  split
  next hmem => rw [decide_eq_true hmem, Bool.or_true, Option.isSome_some]
  next hmem => rw [decide_eq_false hmem, Bool.or_false]

/-- An upload of a released app brings back nothing kept out. -/
theorem NoHiddenRow.applyUpload_arrival (h : NoHiddenRow u) :
    NoHiddenRow (applyUpload u deviceId false now payload adds).1 := by
  intro key hrow
  rw [isSome_applyUpload_arrival, Bool.or_eq_true, decide_eq_true_eq, mem_uploadedKeys_iff] at hrow
  rw [UserSync.keptOut, tombstones_applyUpload_arrival]
  rcases hrow with hold | ⟨_, hfree⟩
  · have hkept := h key hold
    rw [UserSync.keptOut, Option.any_eq_false] at hkept
    rw [Option.any_eq_false]
    intro t ht
    -- A tombstone left over was there before.
    simp only [releaseOnArrival, Table.get_deleteWhere, Option.filter_eq_some_iff] at ht
    exact hkept t ht.1.1
  · have hfree' : ((releaseOnArrival u deviceId now payload).1.tombstones.get key).any
        (fun t => !(t.userAdded && !t.deletedByReset && (u.courses.get key).isSome)) = false := hfree
    rw [Option.any_eq_false] at hfree' ⊢
    intro t ht
    have hremoval := hfree' t ht
    simp only [Bool.not_eq_false', Bool.and_eq_true, Bool.not_eq_true'] at hremoval
    simp [UserCourseTombstone.kind, hremoval.1.1, hremoval.1.2]

/-- A protocol-2 upload brings back nothing kept out. -/
theorem NoHiddenRow.applyUpload_stamp (h : NoHiddenRow u) :
    NoHiddenRow (applyUpload u deviceId true now payload adds).1 := by
  intro key hrow
  rw [← isSome_row, row_applyUpload] at hrow
  rw [keptOut_eq, tombstone_applyUpload]
  split at hrow
  next hwritten =>
    obtain ⟨hlist, hskip⟩ := hwritten
    cases hadd : adds.get key with
    | some stamp =>
      have hwins : beats stamp (u.stamp key) = true := by simpa [skipped, hadd] using hskip
      simp [hlist, lifted, hadd, hwins]
    | none =>
      simp only [skipped, hadd] at hskip
      simp only [hlist, lifted, hadd, true_and, UserSync.membership]
      cases htomb : u.tombstones.get key with
      | none => simp
      | some t =>
        rw [htomb] at hskip
        cases hkind : t.kind <;> simp_all [UserCourseTombstone.membership]
  next =>
    rw [isSome_row] at hrow
    have hkept := h key hrow
    rw [keptOut_eq] at hkept
    split
    · rfl
    · exact hkept

end Uploads

/-- A delete of either protocol leaves no row beside a hide. -/
theorem NoHiddenRow.deleteByStamp {u : UserSync} (h : NoHiddenRow u) (deviceId : Option DeviceId)
    (key : CourseKey) (speaksClock : Bool) (stamp : Time) (kind : Option DeleteKind) :
    NoHiddenRow (Sync.deleteByStamp u deviceId key speaksClock stamp kind).1 := by
  unfold Sync.deleteByStamp
  dsimp only
  split
  · exact h
  · intro key' hrow
    rw [← isSome_row] at hrow
    rw [keptOut_eq]
    by_cases hkey : key' = key
    · subst hkey
      rw [membership_hideOrRemove] at hrow ⊢
      -- Only a removal leaves a row.
      cases hkind : DeleteKind.orDefault kind (u.courses.get key') with
      | hide => simp [hkind] at hrow
      | remove => rfl
    · rw [membership_hideOrRemove_of_ne _ _ _ _ _ hkey] at hrow ⊢
      rw [isSome_row] at hrow
      rw [← keptOut_eq]
      exact h key' hrow

section Reset

variable {u : UserSync} (deviceId : Option DeviceId) (semester : Option Term) (stamp : Time)

/-- A protocol-2 reset keeps the rows it does not take. -/
theorem isSome_clearByStamp (key : CourseKey) :
    ((clearByStamp u deviceId semester stamp).1.courses.get key).isSome =
      (u.courses.get key).any fun row => !resetTakes u semester stamp key row := by
  simp only [clearByStamp, UserSync.appendChanges, Table.get_modify, Table.get_deleteWhere,
    Option.isSome_map]
  cases hrow : u.courses.get key with
  | none => rfl
  | some row => cases htake : resetTakes u semester stamp key row <;> simp [htake, Option.filter]

/-- A key whose row a reset keeps gets no new tombstone. -/
theorem tombstone_resetTombstones {key : CourseKey} {row : UserCourse}
    (hrow : u.courses.get key = some row) (hkeeps : resetTakes u semester stamp key row = false)
    {t : UserCourseTombstone} (ht : (resetTombstones u deviceId semester stamp).get key = some t) :
    u.tombstones.get key = some t := by
  cases semester with
  | none =>
    simp only [resetTombstones, Table.get_deleteWhere, Option.filter_eq_some_iff] at ht
    exact ht.1
  | some term =>
    simp only [resetTombstones, Table.get_insertFrom, Table.get_modify, Table.get_deleteWhere,
      Option.or_eq_some_iff, Option.map_eq_some_iff, Option.filter_eq_some_iff, hrow,
      Option.any_some, hkeeps, Option.bind_some, Bool.not_false, Bool.and_true,
      Bool.false_eq_true, if_false] at ht
    rcases ht with ⟨old, ⟨hold, hkept⟩, rfl⟩ | ⟨_, hnew⟩
    · -- A covered tombstone of a kept row goes, so this one is not covered.
      have hlater : (inScope (some term) key && decide (old.deletedAt ≤ stamp)) = false := by
        cases hscope : inScope (some term) key <;> simp_all
      simp [hlater, hold]
    · cases hnew

/-- A protocol-2 reset leaves no row beside a tombstone of its own. -/
theorem NoHiddenRow.clearByStamp (h : NoHiddenRow u) :
    NoHiddenRow (Sync.clearByStamp u deviceId semester stamp).1 := by
  intro key hrow
  rw [isSome_clearByStamp, Option.any_eq_true] at hrow
  obtain ⟨row, hrow, hkeeps⟩ := hrow
  rw [UserSync.keptOut, Option.any_eq_false]
  intro t ht
  have hold := tombstone_resetTombstones deviceId semester stamp hrow
    (by simpa using hkeeps) ht
  have hkept := h key (by simp [hrow])
  rw [UserSync.keptOut, hold] at hkept
  exact by simpa using hkept

/-- A released app's reset leaves no row in its scope, and no tombstone out of it. -/
theorem NoHiddenRow.resetOnArrival (h : NoHiddenRow u) (now : Time) :
    NoHiddenRow (Sync.resetOnArrival u deviceId semester stamp now).1 := by
  intro key hrow
  have hold : (u.courses.get key).isSome ∧ inScope semester key = false := by
    simp only [Sync.resetOnArrival, UserSync.appendChanges, Table.get_deleteWhere] at hrow
    cases hget : u.courses.get key <;> cases hscope : inScope semester key <;>
      simp_all [Option.filter]
  rw [keptOut_eq, Option.any_eq_false]
  intro t ht
  rcases tombstone_resetOnArrival u deviceId semester stamp key now ht with ⟨hscope, _⟩ | hthere
  · rw [hold.2] at hscope
    cases hscope
  · have hkept := h key hold.1
    rw [keptOut_eq, hthere] at hkept
    exact by simpa using hkept

end Reset

/-- Every course request brings back nothing kept out. -/
theorem NoHiddenRow.apply {u : UserSync} (h : NoHiddenRow u) (r : Request) :
    NoHiddenRow (r.apply u) := by
  cases r with
  | upload deviceId speaksClock now payload =>
    simp only [Request.apply, uploadCourses, bind, Except.bind, pure, Except.pure]
    split
    · exact h
    · split
      · cases addStamps payload.adds now with
        | error e => exact h
        | ok adds =>
          cases speaksClock with
          | true => exact h.applyUpload_stamp u deviceId now payload adds
          | false => exact h.applyUpload_arrival u deviceId now payload adds
      · cases speaksClock with
        | true => exact h.applyUpload_stamp u deviceId now payload Table.empty
        | false => exact h.applyUpload_arrival u deviceId now payload Table.empty
  | delete deviceId speaksClock now key hlc kind ageMs =>
    simp only [Request.apply, deleteCourse, bind, Except.bind, pure, Except.pure]
    cases requireStamp speaksClock hlc ageMs with
    | error e => exact h
    | ok _ =>
      cases editTime hlc now ageMs with
      | error e => exact h
      | ok stamp => exact h.deleteByStamp deviceId key speaksClock stamp kind
  | reset deviceId speaksClock now semester hlc ageMs =>
    simp only [Request.apply, deleteAllCourses, bind, Except.bind, pure, Except.pure]
    cases requireStamp speaksClock hlc ageMs with
    | error e => exact h
    | ok _ =>
      cases speaksClock with
      | true =>
        cases editTime hlc now ageMs with
        | error e => exact h
        | ok stamp =>
          simp only [if_true, Request.keep, resetByStamp]
          split
          · exact h.clearByStamp deviceId semester stamp
          · exact h
      | false =>
        simp only [Bool.false_eq_true, if_false]
        split
        · exact h
        · cases editTime hlc now ageMs with
          | error e => exact h
          | ok stamp => exact h.resetOnArrival deviceId semester stamp now

/-- A write keeps hidden courses without a row exactly when it brings none back. -/
theorem noHiddenRow_apply_iff {u : UserSync} (h : NoHiddenRow u) (w : CourseWrite) :
    NoHiddenRow (w.apply u) ↔ BringsNoHidden u w := by
  cases w with
  | request r => exact iff_of_true (h.apply r) trivial
  | initialUpload deviceId now courses overrides =>
    have hout : ∀ key, (initialUpload u deviceId now courses overrides).1.keptOut key =
        u.keptOut key := fun key => by
      rw [UserSync.keptOut, tombstones_initialUpload, UserSync.keptOut]
    have hrow := isSome_initialUpload u deviceId now courses overrides
    constructor
    · intro h' item hitem _
      rw [← hout]
      refine h' item.courseKey ?_
      show ((initialUpload u deviceId now courses overrides).1.courses.get item.courseKey).isSome
      rw [hrow, Bool.or_eq_true, List.any_eq_true]
      exact Or.inr ⟨item, hitem, by simp⟩
    · intro hbrings key hkey
      have hkey' : ((initialUpload u deviceId now courses overrides).1.courses.get key).isSome := hkey
      show (initialUpload u deviceId now courses overrides).1.keptOut key = false
      rw [hout]
      rw [hrow, Bool.or_eq_true, List.any_eq_true] at hkey'
      by_cases hold : (u.courses.get key).isSome
      · exact h key hold
      · rcases hkey' with hold' | ⟨item, hitem, hsame⟩
        · exact absurd hold' hold
        · obtain rfl : item.courseKey = key := by simpa using hsame
          exact hbrings item hitem (by simpa using hold)

def compilers : CourseKey := ⟨⟨"1131", by decide, by decide⟩, ⟨"CS3010", by decide⟩⟩

/-- A course the user hid comes back with the first upload of another device. -/
def hiddenCourseUploaded : List CourseWrite :=
  let key : CourseKey := ⟨⟨"1131", by decide, by decide⟩, ⟨"CS3010", by decide⟩⟩
  [.request (.delete none true 10 key none (some .hide) (some 0)),
    .initialUpload none 20 [⟨key, .ntustPortal, .enrolled⟩] []]

end TigerDuck.Sync
