import TigerDuck.Sync.Courses

/-!
# Course uploads

`upload_courses` of `server/routes/sync/uploads.py`, for the released apps and for protocol
2. Both protocols first decide what each listed key may do (`UploadRules`) and then write
the listed rows in one loop, drop the rows a school roster leaves out, log the keys whose
snapshot changed and fill colours. The request holds the user's sync lock throughout, so it
is one step on the user's rows.

The descriptive columns of a row (names, credits, schedule) are copied from the item and
read by nothing here, so an item is its key.
-/

namespace TigerDuck.Sync

open Relational

/-- A hand-add of one of the upload's courses. -/
structure CourseAdd where
  courseKey : CourseKey
  hlc : Option Time
  ageMs : Option Int
  deriving DecidableEq

/-- A device's colour of a course. -/
structure CourseOverrideUploadItem where
  courseKey : CourseKey
  colorHex : Option String
  deriving DecidableEq

/-- The body of `POST /courses/upload`. -/
structure CourseUploadRequest where
  courses : List CourseKey
  courseOverrides : List CourseOverrideUploadItem
  forceKeys : List CourseKey
  adds : List CourseAdd
  rosterTerms : List Term
  deriving DecidableEq

structure AddAnswer where
  courseKey : CourseKey
  applied : Bool
  hlc : Option Time
  deriving DecidableEq

structure UploadAnswer where
  upserted : Nat
  skippedTombstoned : Nat
  overridesApplied : Nat
  acceptedKeys : List CourseKey
  /-- Sent under protocol 2 only. -/
  adds : Option (List AddAnswer)
  deriving DecidableEq

/-- What the upload may do with each key, as either protocol decides it from the stored
rows. A hand-add is never also the school's, and a row that goes back to hand-added is
inserted as hand-added, so writing a key twice is writing it once. -/
structure UploadRules where
  tombstonedKeys : CourseKey → Bool
  addedAt : CourseKey → Option Time
  addedByHand : CourseKey → Bool
  backByHand : CourseKey → Bool
  listedBySchool : CourseKey → Bool
  addedByHand_of_backByHand : ∀ key, backByHand key = true → addedByHand key = true
  not_listedBySchool : ∀ key, addedByHand key = true → listedBySchool key = false

/-- The stamps of the adds. A key sent twice keeps its latest stamp. -/
def addStamps (adds : List CourseAdd) (now : Time) : Except HttpError (Table CourseKey Time) :=
  adds.foldlM (fun stamps add => do
    requireStamp true add.hlc add.ageMs
    let stamp ← editTime add.hlc now add.ageMs
    return stamps.upsert add.courseKey stamp (max stamp)) Table.empty

section ByStamp

variable (u : UserSync) (adds : Table CourseKey Time)

/-- The add of the key that wins: later than its key's add, tombstone and covering
resets. -/
def won (key : CourseKey) : Option Time :=
  (adds.get key).filter fun stamp => beats stamp (u.stamp key)

/-- The keys to skip: a refused add, and a hidden course of the roster. -/
def skipped (key : CourseKey) : Bool :=
  match adds.get key with
  | some stamp => !beats stamp (u.stamp key)
  | none => (u.tombstones.get key).any (·.kind == .hide)

/-- The tombstones that go: a winning add's, and a reset's the roster lists. -/
def lifted (key : CourseKey) : Bool :=
  match adds.get key with
  | some stamp => beats stamp (u.stamp key)
  | none => (u.tombstones.get key).any (·.kind == .reset)

/-- A winning add that lifts a tombstone not `user_added` brings back a school row. -/
def schoolBack (key : CourseKey) : Bool :=
  (won u adds key).isSome && (u.tombstones.get key).any (!·.userAdded)

/-- The answer to the add of a listed key, if it has one. -/
def addAnswer (key : CourseKey) : Option AddAnswer :=
  (adds.get key).map fun stamp =>
    if beats stamp (u.stamp key) then ⟨key, true, some stamp⟩ else ⟨key, false, u.stamp key⟩

end ByStamp

/-- `_roster_by_stamp` and the rules `upload_courses` makes of its answer. -/
def rosterByStamp (u : UserSync) (courses : List CourseKey) (adds : Table CourseKey Time) :
    UserSync × UploadRules × List AddAnswer :=
  let listedAdd : CourseKey → Option Time := fun key =>
    if key ∈ courses then won u adds key else none
  ({ u with tombstones := u.tombstones.deleteWhere fun key _ => key ∈ courses && lifted u adds key },
    { tombstonedKeys := fun key => key ∈ courses && skipped u adds key
      addedAt := listedAdd
      addedByHand := fun key => (listedAdd key).isSome && !schoolBack u adds key
      backByHand := fun _ => false
      -- Under protocol 2 `courses` outside `adds` is the school's roster.
      listedBySchool := fun key => key ∈ courses && (adds.get key).isNone
      addedByHand_of_backByHand := fun _ h => absurd h Bool.false_ne_true
      not_listedBySchool := by
        intro key h
        have hwon : (won u adds key).isSome := by
          by_cases hmem : key ∈ courses <;> simp_all [listedAdd]
        have hadd : (adds.get key).isSome := by
          obtain ⟨stamp, hstamp⟩ := Option.isSome_iff_exists.mp hwon
          simp [(Option.filter_eq_some_iff.mp hstamp).1]
        simp [Option.isNone_eq_false_iff.mpr hadd] },
    courses.filterMap (addAnswer u adds))

/-- What a released app's upload does to the tombstones before its rows: `force_keys` clear
theirs, and a device's roster retires its own reset tombstones and, when it forces no key,
its own removals of hand-adds. -/
def releaseOnArrival (u : UserSync) (deviceId : Option DeviceId) (now : Time)
    (payload : CourseUploadRequest) : UserSync × UploadRules :=
  let forced : CourseKey → Bool := fun key => key ∈ payload.forceKeys
  let cleared : CourseKey → Option UserCourseTombstone := fun key =>
    if forced key then u.tombstones.get key else none
  let released : CourseKey → UserCourseTombstone → Bool := fun key t =>
    deviceId.isSome && key ∈ payload.courses && t.deletedByDeviceId == deviceId &&
      (t.deletedByReset || (payload.forceKeys.isEmpty && t.userAdded))
  let tombstones := (u.tombstones.deleteWhere fun key _ => forced key).deleteWhere released
  ({ u with tombstones },
    { -- A removal kept beside a roster row still lets that row update.
      tombstonedKeys := fun key => (tombstones.get key).any fun t =>
        !(t.userAdded && !t.deletedByReset && (u.courses.get key).isSome)
      -- A released app's re-add is stamped when it arrives.
      addedAt := fun key => if forced key then some now else none
      addedByHand := fun key => forced key && !(cleared key).any (!·.userAdded)
      backByHand := fun key => (cleared key).any (·.userAdded)
      listedBySchool := fun _ => false
      addedByHand_of_backByHand := by
        intro key h
        by_cases hf : forced key = true
        · cases ht : u.tombstones.get key with
          | none => simp [cleared, hf, ht] at h
          | some t => simp_all [cleared]
        · simp [cleared, hf] at h
      not_listedBySchool := fun _ _ => rfl })

section Rows

variable (payload : CourseUploadRequest) (rules : UploadRules)

/-- Only a roster or a hand-add sets a course's enrollment. -/
def enrol (key : CourseKey) : Bool :=
  (rules.addedAt key).isSome || (key ∈ payload.courses && key.term ∈ payload.rosterTerms)

/-- The row an upload inserts for a key the server lacks. -/
def insertedRow (key : CourseKey) : UserCourse :=
  ⟨if rules.addedByHand key then .userAdded else .ntustPortal, rules.addedAt key, .enrolled⟩

/-- What an upload makes of the row the server has. -/
def updatedRow (key : CourseKey) (row : UserCourse) : UserCourse where
  source :=
    if rules.backByHand key then .userAdded
    else if rules.listedBySchool key then .ntustPortal
    else row.source
  addedAt := (rules.addedAt key).or row.addedAt
  enrollmentStatus := if enrol payload rules key then .enrolled else row.enrollmentStatus

/-- The listed keys no tombstone keeps out. -/
def uploadedKeys : List CourseKey := payload.courses.filter (!rules.tombstonedKeys ·)

/-- The rows after the upload loop. -/
def upsertRows (u : UserSync) : Table CourseKey UserCourse :=
  u.courses.upsertEach (uploadedKeys payload rules) (insertedRow rules) (updatedRow payload rules)

/-- The terms the upload lists a school course of, among those it calls whole. -/
def rostered (term : Term) : Bool :=
  term ∈ payload.rosterTerms && payload.courses.any fun key =>
    key.term = term && !(payload.adds.any (·.courseKey = key) || key ∈ payload.forceKeys)

/-- The rows a roster leaves out: the student dropped or withdrew from the course. -/
def leftOut (u : UserSync) (key : CourseKey) (row : UserCourse) : Bool :=
  rostered payload key.term && key ∉ payload.courses && (u.tombstones.get key).isNone &&
    row.source == .ntustPortal && row.addedAt.isNone && row.enrollmentStatus == .enrolled

/-- The keys the upload logs: new ones, under protocol 2 those an add or the school now
claims, and those whose enrollment changed. `u` holds the rows before the loop and `u'`
those after it. -/
def newKeys (speaksClock : Bool) (u u' : UserSync) (key : CourseKey) : Bool :=
  let old := u.courses.get key
  let uploaded := key ∈ uploadedKeys payload rules
  let bySchool := rules.listedBySchool key && old.any (·.source == .userAdded)
  let reEnrolled := enrol payload rules key && old.any (·.enrollmentStatus != .enrolled)
  let claimed := speaksClock && ((rules.addedAt key).isSome || bySchool)
  (uploaded && (old.isNone || claimed || reEnrolled)) ||
    (u'.courses.get key).any (leftOut payload u' key)

/-- The upload's rows, dropped courses and change-log entries. -/
def writeRows (speaksClock : Bool) (u : UserSync) : UserSync :=
  let u' : UserSync := { u with courses := upsertRows payload rules u }
  let courses := u'.courses.modify fun key row =>
    if leftOut payload u' key row then { row with enrollmentStatus := .dropped } else row
  let changed := courses.select fun key _ => newKeys payload rules speaksClock u u' key
  UserSync.appendChanges { u' with courses } (changed.map fun r => ⟨.upsert, .course r.1⟩)

end Rows

/-- One colour fill: the device's colour fills a course without one as the oldest value. A
course the server had refuses it under its term's reset. The second component says whether
the colour was set. -/
def fillColor (existing : CourseKey → Bool) (deviceId : Option DeviceId) (now : Time)
    (u : UserSync) (item : CourseOverrideUploadItem) : UserSync × Bool :=
  let key := item.courseKey
  if (u.courses.get key).isNone || (item.colorHex.getD "").isEmpty ||
      (existing key && (u.resets.covering (some key.term)).isSome) then (u, false)
  else
    let override := (u.overrides.get key).getD UserCourseOverride.blank
    if override.colorHex.value.isNone then
      let (field, changed) := applyField override.colorHex item.colorHex OLDEST deviceId now
      ({ u with overrides := u.overrides.set key { override with colorHex := field } }, changed)
    else ({ u with overrides := u.overrides.set key override }, false)

/-- The colour fills of an upload, in order, and how many were set. -/
def fillColors (existing : CourseKey → Bool) (deviceId : Option DeviceId) (now : Time)
    (u : UserSync) (items : List CourseOverrideUploadItem) : UserSync × Nat :=
  items.foldl (fun (u, n) item =>
    let (u, set) := fillColor existing deviceId now u item
    (u, if set then n + 1 else n)) (u, 0)

/-- `upload_courses` from the sync lock on, with the stamps of its adds. -/
def applyUpload (u : UserSync) (deviceId : Option DeviceId) (speaksClock : Bool) (now : Time)
    (payload : CourseUploadRequest) (adds : Table CourseKey Time) : UserSync × UploadAnswer :=
  let (released, rules, answers) :=
    if speaksClock then rosterByStamp u payload.courses adds
    else
      let (released, rules) := releaseOnArrival u deviceId now payload
      (released, rules, [])
  let written := writeRows payload rules speaksClock released
  let (filled, overridesApplied) :=
    fillColors (fun key => (u.courses.get key).isSome) deviceId now written payload.courseOverrides
  let uploaded := uploadedKeys payload rules
  (filled,
    { upserted := uploaded.length
      skippedTombstoned := payload.courses.length - uploaded.length
      overridesApplied
      acceptedKeys := uploaded.dedup
      adds := if speaksClock then some answers else none })

/-- `upload_courses`. -/
def uploadCourses (u : UserSync) (deviceId : Option DeviceId) (speaksClock : Bool) (now : Time)
    (payload : CourseUploadRequest) : Except HttpError (UserSync × UploadAnswer) := do
  if speaksClock && !payload.adds.all (fun a => a.courseKey ∈ payload.courses) then
    throw ⟨422, "add_not_in_courses"⟩
  let adds ← if speaksClock then addStamps payload.adds now else pure Table.empty
  return applyUpload u deviceId speaksClock now payload adds

/-- `upload_courses_v4`: protocol 2, without the fields /v4 refuses. -/
def uploadCoursesV4 (u : UserSync) (deviceId : Option DeviceId) (now : Time)
    (courses : List CourseKey) (adds : List CourseAdd) (rosterTerms : List Term) :
    Except HttpError (UserSync × UploadAnswer) :=
  uploadCourses u deviceId true now ⟨courses, [], [], adds, rosterTerms⟩

/-! ### What an upload does to the rows of one key -/

section Frame

variable (existing : CourseKey → Bool) (deviceId : Option DeviceId) (now : Time)

/-- What each colour fill keeps, all of them keep. -/
theorem fillColors_induction {P : UserSync → Prop} {items : List CourseOverrideUploadItem}
    (hstep : ∀ u item, P u → P (fillColor existing deviceId now u item).1) {u : UserSync}
    (h : P u) : P (fillColors existing deviceId now u items).1 :=
  List.foldlRecOn (motive := fun p : UserSync × Nat => P p.1) items _ h fun p hp item _ => hstep p.1 item hp

/-- Colour fills write overrides only. -/
theorem fillColors_eq (items : List CourseOverrideUploadItem) (u : UserSync) :
    ∃ overrides, (fillColors existing deviceId now u items).1 = { u with overrides } := by
  refine fillColors_induction existing deviceId now
    (P := fun v => ∃ overrides, v = { u with overrides }) ?_ ⟨u.overrides, rfl⟩
  rintro _ item ⟨overrides, rfl⟩
  simp only [fillColor]
  split
  · exact ⟨overrides, rfl⟩
  · split
    · exact ⟨_, rfl⟩
    · exact ⟨_, rfl⟩

end Frame

section WriteRows

variable (payload : CourseUploadRequest) (rules : UploadRules) (speaksClock : Bool)
  (u : UserSync) (key : CourseKey)

/-- Writing an updated row again changes nothing more. -/
theorem updatedRow_idem (row : Option UserCourse) :
    updatedRow payload rules key (row.elim (insertedRow rules key) (updatedRow payload rules key)) =
      row.elim (insertedRow rules key) (updatedRow payload rules key) := by
  have hback := rules.addedByHand_of_backByHand key
  have hschool := rules.not_listedBySchool key
  cases row with
  | none =>
    cases hb : rules.backByHand key <;> cases ha : rules.addedByHand key <;>
      cases hl : rules.listedBySchool key <;> simp_all [updatedRow, insertedRow]
  | some row =>
    simp only [Option.elim_some, updatedRow, ← Option.or_assoc, Option.or_self]
    cases rules.backByHand key <;> cases rules.listedBySchool key <;>
      cases enrol payload rules key <;> rfl

/-- A listed key no tombstone keeps out is inserted or updated; no other row is. -/
theorem get_upsertRows :
    (upsertRows payload rules u).get key =
      if key ∈ uploadedKeys payload rules then
        some ((u.courses.get key).elim (insertedRow rules key) (updatedRow payload rules key))
      else u.courses.get key :=
  Table.get_upsertEach _ _ _ _ _ (updatedRow_idem payload rules key)

/-- A dropped course keeps its source and its add. -/
theorem membership_writeRows :
    ((writeRows payload rules speaksClock u).courses.get key).map UserCourse.membership =
      ((upsertRows payload rules u).get key).map UserCourse.membership := by
  simp only [writeRows, UserSync.appendChanges, Table.get_modify, Option.map_map]
  congr 1
  funext row
  simp only [Function.comp_apply]
  split <;> rfl

theorem mem_uploadedKeys_iff :
    key ∈ uploadedKeys payload rules ↔
      key ∈ payload.courses ∧ rules.tombstonedKeys key = false := by
  simp [uploadedKeys]

/-- Only an uploaded key, or one a roster leaves out, is logged. -/
theorem changes_writeRows :
    ∃ changes, (writeRows payload rules speaksClock u).changes = u.changes ++ changes ∧
      (key ∈ payload.courses → key ∉ uploadedKeys payload rules →
        ∀ c ∈ changes, c.payload ≠ .course key) := by
  refine ⟨_, rfl, ?_⟩
  intro hlisted hskipped c hc hkey
  obtain ⟨⟨k, row⟩, hrow, rfl⟩ := List.mem_map.mp hc
  obtain rfl : k = key := by simpa using hkey
  have hnew := ((Table.mem_select_iff _ _ _ _).mp hrow).2
  simp only [newKeys, hskipped, decide_false, Bool.false_and, Bool.false_or] at hnew
  obtain ⟨_, _, hleft⟩ := (Option.any_eq_true _ _).mp hnew
  simp [leftOut, hlisted] at hleft

end WriteRows

/-- A protocol-2 upload the server takes writes its rows with the stamps of its adds. -/
theorem uploadCourses_eq_ok {u : UserSync} {deviceId : Option DeviceId} {now : Time}
    {payload : CourseUploadRequest} {answer : UserSync × UploadAnswer}
    (h : uploadCourses u deviceId true now payload = .ok answer) :
    ∃ adds, addStamps payload.adds now = .ok adds ∧
      answer = applyUpload u deviceId true now payload adds := by
  simp only [uploadCourses, bind, Except.bind, pure, Except.pure, if_true] at h
  split at h
  · cases h
  · cases hadds : addStamps payload.adds now with
    | error e => simp [hadds] at h
    | ok adds =>
      rw [hadds] at h
      exact ⟨adds, rfl, (Except.ok.inj h).symm⟩

section ByStamp

variable (u : UserSync) (deviceId : Option DeviceId) (now : Time) (payload : CourseUploadRequest)
  (adds : Table CourseKey Time) (key : CourseKey)

/-- The stored state of a listed key after a roster: a hidden course stays hidden, a reset's
tombstone goes, a removal's stays beside the row. -/
def Membership.listed (m : Membership) : Membership :=
  match m.tombstone with
  | some (.hide, _) => m
  | some (.reset, _) => ⟨some (.ntustPortal, m.added), none⟩
  | _ => ⟨some (.ntustPortal, m.added), m.tombstone⟩

/-- A roster keeps the add of a key, -/
theorem Membership.added_listed (m : Membership) : m.listed.added = m.added := by
  rcases m with ⟨row, _ | ⟨_ | _ | _, t⟩⟩ <;> rfl

/-- lifts the tombstone of a reset and no other, -/
theorem Membership.tombstone_listed (m : Membership) :
    m.listed.tombstone = m.tombstone.filter (·.1 ≠ .reset) := by
  rcases m with ⟨row, _ | ⟨_ | _ | _, t⟩⟩ <;> rfl

/-- and brings the row back unless the user hid it. -/
theorem Membership.row_listed (m : Membership) :
    m.listed.row =
      if m.tombstone.any (·.1 = .hide) then m.row else some (.ntustPortal, m.added) := by
  rcases m with ⟨row, _ | ⟨_ | _ | _, t⟩⟩ <;> rfl

/-- The rows of a key after a protocol-2 upload. -/
theorem row_applyUpload :
    ((applyUpload u deviceId true now payload adds).1.membership key).row =
      if key ∈ payload.courses ∧ skipped u adds key = false then
        some ((u.courses.get key).elim
          (insertedRow (rosterByStamp u payload.courses adds).2.1 key)
          (updatedRow payload (rosterByStamp u payload.courses adds).2.1 key)).membership
      else (u.membership key).row := by
  obtain ⟨overrides, hfill⟩ := fillColors_eq (fun key => (u.courses.get key).isSome) deviceId now
    payload.courseOverrides (writeRows payload (rosterByStamp u payload.courses adds).2.1 true
      (rosterByStamp u payload.courses adds).1)
  simp only [applyUpload, UserSync.membership, if_true, hfill, membership_writeRows, get_upsertRows,
    mem_uploadedKeys_iff]
  by_cases hlist : key ∈ payload.courses
  · cases hskip : skipped u adds key <;> simp [hlist, hskip, rosterByStamp]
  · simp [hlist, rosterByStamp]

/-- The tombstone of a key after a protocol-2 upload. -/
theorem tombstone_applyUpload :
    ((applyUpload u deviceId true now payload adds).1.membership key).tombstone =
      if key ∈ payload.courses ∧ lifted u adds key = true then none
      else (u.membership key).tombstone := by
  obtain ⟨overrides, hfill⟩ := fillColors_eq (fun key => (u.courses.get key).isSome) deviceId now
    payload.courseOverrides (writeRows payload (rosterByStamp u payload.courses adds).2.1 true
      (rosterByStamp u payload.courses adds).1)
  simp only [applyUpload, UserSync.membership, if_true, hfill]
  simp only [writeRows, UserSync.appendChanges, rosterByStamp, Table.get_deleteWhere]
  cases u.tombstones.get key <;> cases lifted u adds key <;>
    by_cases hlist : key ∈ payload.courses <;> simp [Option.filter, hlist]

/-- An upload of either protocol records no reset. -/
theorem resets_applyUpload (speaksClock : Bool) :
    (applyUpload u deviceId speaksClock now payload adds).1.resets = u.resets := by
  cases speaksClock with
  | true =>
    obtain ⟨overrides, hfill⟩ := fillColors_eq (fun key => (u.courses.get key).isSome) deviceId now
      payload.courseOverrides (writeRows payload (rosterByStamp u payload.courses adds).2.1 true
        (rosterByStamp u payload.courses adds).1)
    simp only [applyUpload, if_true, hfill]
    rfl
  | false =>
    obtain ⟨overrides, hfill⟩ := fillColors_eq (fun key => (u.courses.get key).isSome) deviceId now
      payload.courseOverrides (writeRows payload (releaseOnArrival u deviceId now payload).2 false
        (releaseOnArrival u deviceId now payload).1)
    simp only [applyUpload, Bool.false_eq_true, if_false, hfill]
    rfl

/-- An upload of either protocol leaves only tombstones that were there. -/
theorem tombstone_of_applyUpload (speaksClock : Bool) {t : TombstoneKind × Time}
    (ht : ((applyUpload u deviceId speaksClock now payload adds).1.membership key).tombstone =
      some t) :
    (u.membership key).tombstone = some t := by
  cases speaksClock with
  | true =>
    rw [tombstone_applyUpload] at ht
    split at ht
    · cases ht
    · exact ht
  | false =>
    obtain ⟨overrides, hfill⟩ := fillColors_eq (fun key => (u.courses.get key).isSome) deviceId now
      payload.courseOverrides (writeRows payload (releaseOnArrival u deviceId now payload).2 false
        (releaseOnArrival u deviceId now payload).1)
    obtain ⟨tombstone, hget, rfl⟩ := Option.map_eq_some_iff.mp ht
    simp only [applyUpload, Bool.false_eq_true, if_false, hfill] at hget
    simp only [writeRows, UserSync.appendChanges, releaseOnArrival, Table.get_deleteWhere,
      Option.filter_eq_some_iff] at hget
    obtain ⟨⟨hget, _⟩, _⟩ := hget
    simp [UserSync.membership, hget]

/-- A key the upload does not list keeps what is stored. -/
theorem membership_applyUpload_of_not_mem (h : key ∉ payload.courses) :
    (applyUpload u deviceId true now payload adds).1.membership key = u.membership key := by
  ext1
  · rw [row_applyUpload, if_neg fun hc => h hc.1]
  · rw [tombstone_applyUpload, if_neg fun hc => h hc.1]

/-- A winning add leaves the row with its stamp and no tombstone. -/
theorem membership_applyUpload_won (hlist : key ∈ payload.courses) {stamp : Time}
    (hadd : adds.get key = some stamp) (hbeats : beats stamp (u.stamp key) = true) :
    ∃ source, (applyUpload u deviceId true now payload adds).1.membership key =
      ⟨some (source, some stamp), none⟩ := by
  have hskip : skipped u adds key = false := by simp [skipped, hadd, hbeats]
  have hlift : lifted u adds key = true := by simp [lifted, hadd, hbeats]
  have hwon : (rosterByStamp u payload.courses adds).2.1.addedAt key = some stamp := by
    simp [rosterByStamp, hlist, won, hadd, Option.filter, hbeats]
  refine ⟨((u.courses.get key).elim (insertedRow (rosterByStamp u payload.courses adds).2.1 key)
    (updatedRow payload (rosterByStamp u payload.courses adds).2.1 key)).source, ?_⟩
  ext1
  · rw [row_applyUpload, if_pos ⟨hlist, hskip⟩]
    cases u.courses.get key <;> simp [UserCourse.membership, insertedRow, updatedRow, hwon]
  · rw [tombstone_applyUpload, if_pos ⟨hlist, hlift⟩]

/-- A refused add changes nothing of its key and logs nothing of it. -/
theorem applyUpload_refused (hlist : key ∈ payload.courses) {stamp : Time}
    (hadd : adds.get key = some stamp) (hbeats : beats stamp (u.stamp key) = false) :
    let v := (applyUpload u deviceId true now payload adds).1
    v.courses.get key = u.courses.get key ∧ v.tombstones.get key = u.tombstones.get key ∧
      ∃ changes, v.changes = u.changes ++ changes ∧ ∀ c ∈ changes, c.payload ≠ .course key := by
  have hskip : skipped u adds key = true := by simp [skipped, hadd, hbeats]
  have hlift : lifted u adds key = false := by simp [lifted, hadd, hbeats]
  have hout : key ∉ uploadedKeys payload (rosterByStamp u payload.courses adds).2.1 := by
    simp [mem_uploadedKeys_iff, rosterByStamp, hlist, hskip]
  obtain ⟨overrides, hfill⟩ := fillColors_eq (fun key => (u.courses.get key).isSome) deviceId now
    payload.courseOverrides (writeRows payload (rosterByStamp u payload.courses adds).2.1 true
      (rosterByStamp u payload.courses adds).1)
  simp only [applyUpload, if_true, hfill]
  refine ⟨?_, ?_, ?_⟩
  · simp only [writeRows, UserSync.appendChanges, Table.get_modify, get_upsertRows, if_neg hout,
      leftOut, hlist, not_true_eq_false, decide_false, Bool.and_false, Bool.false_and]
    simp [rosterByStamp]
  · simp only [writeRows, UserSync.appendChanges, rosterByStamp, Table.get_deleteWhere, hlift,
      Bool.and_false, Bool.not_false]
    cases u.tombstones.get key <;> rfl
  · obtain ⟨changes, hchanges, hnone⟩ := changes_writeRows payload
      (rosterByStamp u payload.courses adds).2.1 true (rosterByStamp u payload.courses adds).1 key
    exact ⟨changes, hchanges, hnone hlist hout⟩

/-- A refused add keeps what is stored of its key. -/
theorem membership_applyUpload_refused (hlist : key ∈ payload.courses) {stamp : Time}
    (hadd : adds.get key = some stamp) (hbeats : beats stamp (u.stamp key) = false) :
    (applyUpload u deviceId true now payload adds).1.membership key = u.membership key := by
  obtain ⟨hrow, htomb, _⟩ := applyUpload_refused u deviceId now payload adds key hlist hadd hbeats
  simp only [UserSync.membership, hrow, htomb]

/-- A roster is base data. -/
theorem membership_applyUpload_roster (hlist : key ∈ payload.courses)
    (hadd : adds.get key = none) :
    (applyUpload u deviceId true now payload adds).1.membership key =
      (u.membership key).listed := by
  have hwon : (rosterByStamp u payload.courses adds).2.1.addedAt key = none := by
    simp [rosterByStamp, won, hadd]
  have hhand : (rosterByStamp u payload.courses adds).2.1.addedByHand key = false := by
    simp [rosterByStamp, won, hadd]
  have hback : (rosterByStamp u payload.courses adds).2.1.backByHand key = false := rfl
  have hschool : (rosterByStamp u payload.courses adds).2.1.listedBySchool key = true := by
    simp [rosterByStamp, hlist, hadd]
  -- An unskipped key's row is the school's, with the add it had.
  have hrow : ((u.courses.get key).elim
      (insertedRow (rosterByStamp u payload.courses adds).2.1 key)
      (updatedRow payload (rosterByStamp u payload.courses adds).2.1 key)).membership =
        (.ntustPortal, (u.membership key).added) := by
    rw [added_membership]
    cases u.courses.get key <;>
      simp [UserCourse.membership, insertedRow, updatedRow, hwon, hhand, hback, hschool]
  ext1
  · rw [row_applyUpload, hrow]
    cases htomb : u.tombstones.get key with
    | none => simp [skipped, hadd, htomb, hlist, Membership.listed, UserSync.membership]
    | some t =>
      cases hkind : t.kind <;> simp [skipped, hadd, htomb, hlist, hkind, Membership.listed,
        UserSync.membership, UserCourseTombstone.membership]
  · rw [tombstone_applyUpload]
    cases htomb : u.tombstones.get key with
    | none => simp [lifted, hadd, htomb, Membership.listed, UserSync.membership]
    | some t =>
      cases hkind : t.kind <;> simp [lifted, hadd, htomb, hlist, hkind, Membership.listed,
        UserSync.membership, UserCourseTombstone.membership]

end ByStamp

end TigerDuck.Sync
