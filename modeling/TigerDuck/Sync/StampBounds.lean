import TigerDuck.Sync.Marks
import TigerDuck.Sync.ResetFinality

/-!
# No stamp runs ahead of the clock

Every request of one user that takes a client's time, in any order and any number. A request has
the time it arrived and the clock its edits are held to. These are one for a request that takes
`ArrivalDep`; the academics PUTs read the clock under the sync lock, and the initial upload before
it waits for that lock, so both may read it later than they arrived.

## Main results

- `stamps_within_skew`: no stored stamp is more than `MAX_CLOCK_SKEW` past the latest clock read
  for a request; so a later edit always wins, and an age dates an edit between 365 days before its
  arrival and the arrival.
-/

namespace TigerDuck.Sync

open Relational SyncJobs Transition

/-- When the course request arrived. -/
def Request.arrivedAt : Request → Time
  | upload _ _ now _ => now
  | delete _ _ now _ _ _ _ => now
  | reset _ _ now _ _ _ => now

/-- A request of one user that takes a client's time. -/
inductive EditRequest
  | membership (r : Request)
  | patchCourse (deviceId : Option DeviceId) (speaksClock : Bool) (arrivedAt : Time)
      (payload : CourseOverrideRequest) (course : CourseKey)
  | patchCourseV4 (deviceId : Option DeviceId) (arrivedAt : Time)
      (payload : CourseOverrideRequest) (course : CourseKey)
  | putCourse (deviceId : Option DeviceId) (arrivedAt now : Time) (payload : CourseOverridePut)
      (course : CourseKey)
  | patchAssignment (deviceId : Option DeviceId) (speaksClock : Bool) (arrivedAt : Time)
      (id : MoodleId) (payload : AssignmentOverrideRequest)
  | putAssignment (deviceId : Option DeviceId) (arrivedAt now : Time) (rowId : Nat)
      (payload : AssignmentOverridePut)
  | holiday (speaksClock : Bool) (arrivedAt : Time) (listed : Bool) (id : HolidayId)
      (payload : HolidayOverrideRequest)
  | initialUpload (deviceId : Option DeviceId) (arrivedAt now : Time)
      (payload : InitialUploadRequest)

/-- A rejected request leaves the rows alone. -/
def keepRows {σ α : Type} (s : σ) (answer : Except HttpError (σ × α)) : σ :=
  match answer with
  | .ok (t, _) => t
  | .error _ => s

namespace EditRequest

/-- When the request arrived. -/
def arrivedAt : EditRequest → Time
  | membership r => r.arrivedAt
  | patchCourse _ _ arrivedAt _ _ => arrivedAt
  | patchCourseV4 _ arrivedAt _ _ => arrivedAt
  | putCourse _ arrivedAt _ _ _ => arrivedAt
  | patchAssignment _ _ arrivedAt _ _ => arrivedAt
  | putAssignment _ arrivedAt _ _ _ => arrivedAt
  | holiday _ arrivedAt _ _ _ => arrivedAt
  | initialUpload _ arrivedAt _ _ => arrivedAt

/-- The clock its edits are held to. -/
def clock : EditRequest → Time
  | putCourse _ _ now _ _ => now
  | putAssignment _ _ now _ _ => now
  | initialUpload _ _ now _ => now
  | r => r.arrivedAt

/-- The rows after the request. -/
def apply (s : UserEdits) : EditRequest → UserEdits
  | membership r => { s with sync := r.apply s.sync }
  | patchCourse deviceId speaksClock arrivedAt payload course =>
    { s with
      sync := keepRows s.sync (overrideCourse s.sync deviceId speaksClock arrivedAt payload course) }
  | patchCourseV4 deviceId arrivedAt payload course =>
    { s with sync := keepRows s.sync (overrideCourseV4 s.sync deviceId arrivedAt payload course) }
  | putCourse deviceId _ now payload course =>
    { s with sync := keepRows s.sync (putCourseOverride s.sync deviceId now payload course) }
  | patchAssignment deviceId speaksClock arrivedAt id payload =>
    { s with
      marks := keepRows s.marks
        (patchAssignmentOverride s.assignments s.marks deviceId speaksClock arrivedAt id payload) }
  | putAssignment deviceId _ now rowId payload =>
    { s with
      marks := keepRows s.marks
        (putAssignmentOverride s.assignments s.marks deviceId now rowId payload) }
  | holiday speaksClock arrivedAt listed id payload =>
    { s with
      holidays := keepRows s.holidays
        (setOverride s.holidays speaksClock arrivedAt listed id payload) }
  | initialUpload deviceId _ now payload => processInitialUpload s deviceId now payload

/-- Every request is answered. -/
def step (s : UserEdits) (r : EditRequest) : Option UserEdits := some (r.apply s)

end EditRequest

/-! ### Stamps of the stored rows -/

/-- No stamp of the override is later than `T`. -/
structure UserCourseOverride.StampsBy (o : UserCourseOverride) (T : Time) : Prop where
  fields : ∀ f, atOrBefore (o.register f).stamp T
  customName : atOrBefore o.customNameUpdatedAt T

/-- No stamp of the user's course rows is later than `T`. -/
structure UserSync.StampsBy (u : UserSync) (T : Time) : Prop where
  added : u.courses.Forall fun _ row => atOrBefore row.addedAt T
  tombstones : u.tombstones.Forall fun _ t => t.deletedAt ≤ T
  full : atOrBefore u.coursesResetAt T
  terms : u.semesterResets.Forall fun _ t => t ≤ T
  overrides : u.overrides.Forall fun _ o => o.StampsBy T

/-- No stamp of the mark is later than `T`. -/
def UserAssignmentOverride.StampsBy (mark : UserAssignmentOverride) (T : Time) : Prop :=
  atOrBefore mark.localStatus.updatedAt T ∧ atOrBefore mark.note.updatedAt T

/-- No stored stamp is later than `T`. -/
structure UserEdits.StampsBy (s : UserEdits) (T : Time) : Prop where
  sync : s.sync.StampsBy T
  marks : s.marks.Forall fun _ mark => mark.StampsBy T
  holidays : s.holidays.Forall fun _ holiday => atOrBefore holiday.updatedAt T

section Stamps

variable {T now : Time}

/-- A stamp lies at or before `T` exactly when its bound says so. -/
theorem atOrBefore_iff {stamp : Option Time} : atOrBefore stamp T = true ↔ bound stamp ≤ T + 1 := by
  cases stamp <;> simp [atOrBefore]

/-- A clamped time is within the skew of the clock. -/
theorem clampTs_le (hnow : now + MAX_CLOCK_SKEW ≤ T) (clientTs : Time) :
    clampTs clientTs now MAX_CLOCK_SKEW ≤ T :=
  (min_le_right _ _).trans hnow

theorem atOrBefore_clampTs (hnow : now + MAX_CLOCK_SKEW ≤ T) (clientTs : Time) :
    atOrBefore (some (clampTs clientTs now MAX_CLOCK_SKEW)) T = true :=
  decide_eq_true (clampTs_le hnow clientTs)

theorem atOrBefore_latest {stamps : List (Option Time)}
    (h : ∀ stamp ∈ stamps, atOrBefore stamp T = true) : atOrBefore (latest stamps) T = true := by
  induction stamps with
  | nil => rfl
  | cons stamp rest ih =>
    have hstamp := atOrBefore_iff.mp (h stamp List.mem_cons_self)
    have hrest := atOrBefore_iff.mp (ih fun s hs => h s (List.mem_cons_of_mem _ hs))
    rw [atOrBefore_iff]
    show bound (Option.merge max stamp (latest rest)) ≤ T + 1
    rw [bound_merge]
    exact max_le hstamp hrest

theorem Register.atOrBefore_offer {r : Register} (h : atOrBefore r.stamp T) (filled : Bool)
    {stamp : Time} (hstamp : atOrBefore (some stamp) T) :
    atOrBefore (r.offer filled stamp).stamp T := by
  unfold Register.offer
  split
  · exact hstamp
  · exact h

theorem atOrBefore_applyField {α : Type} [DecidableEq α] {field : Field α}
    (hnow : now + MAX_CLOCK_SKEW ≤ T) (h : atOrBefore field.updatedAt T) (value : α)
    (clientTs : Time) (deviceId : Option DeviceId) :
    atOrBefore (applyField field value clientTs deviceId now).1.updatedAt T := by
  rw [applyField_fst]
  split
  · exact atOrBefore_clampTs hnow clientTs
  · exact h

end Stamps

/-! ### The edits of an override -/

namespace UserCourseOverride.StampsBy

variable {T now : Time} (hnow : now + MAX_CLOCK_SKEW ≤ T) (clientTs : Time)
  (deviceId : Option DeviceId)

theorem blank (T : Time) : UserCourseOverride.blank.StampsBy T where
  fields f := by rw [register_blank]; rfl
  customName := rfl

theorem moodleCourseId {o : UserCourseOverride} (h : o.StampsBy T) (id : Option Int) :
    ({ o with moodleCourseId := id } : UserCourseOverride).StampsBy T where
  fields f := by rw [register_moodleCourseId]; exact h.fields f
  customName := h.customName

/-- An edit that may be missing. -/
theorem elim {α : Type} {e : OverrideEdits} (h : e.override.StampsBy T) (edit : Option α)
    {g : α → OverrideEdits} (hg : ∀ a, (g a).override.StampsBy T) :
    (edit.elim e g).override.StampsBy T := by
  cases edit with
  | none => exact h
  | some a => exact hg a

include hnow

theorem applyCourseName {o : UserCourseOverride} (h : o.StampsBy T) (locale name : String) :
    (Sync.applyCourseName o locale name clientTs deviceId now).1.StampsBy T where
  fields f := by
    rw [register_applyCourseName]
    split
    · exact Register.atOrBefore_offer (h.fields f) _ (atOrBefore_clampTs hnow clientTs)
    · exact h.fields f
  customName := by
    unfold Sync.applyCourseName
    dsimp only
    split
    · exact h.customName
    · dsimp only
      split
      · exact atOrBefore_clampTs hnow clientTs
      · exact h.customName

theorem setColor {e : OverrideEdits} (h : e.override.StampsBy T) (color : Option String) :
    (e.setColor clientTs deviceId now color).override.StampsBy T where
  fields f := by
    rw [register_setColor]
    split
    · exact Register.atOrBefore_offer (h.fields f) _ (atOrBefore_clampTs hnow clientTs)
    · exact h.fields f
  customName := h.customName

theorem setIgnore {e : OverrideEdits} (h : e.override.StampsBy T) (ignore : Bool) :
    (e.setIgnore clientTs deviceId now ignore).override.StampsBy T where
  fields f := by
    rw [register_setIgnore]
    split
    · exact Register.atOrBefore_offer (h.fields f) _ (atOrBefore_clampTs hnow clientTs)
    · exact h.fields f
  customName := h.customName

theorem setName {e : OverrideEdits} (h : e.override.StampsBy T) (locale name : String) :
    (e.setName clientTs deviceId now locale name).override.StampsBy T :=
  h.applyCourseName hnow clientTs deviceId locale name

theorem setBothNames {e : OverrideEdits} (h : e.override.StampsBy T) (name : Option String) :
    (e.setBothNames clientTs deviceId now name).override.StampsBy T :=
  (h.applyCourseName hnow clientTs deviceId "zh" (name.getD "")).applyCourseName hnow clientTs
    deviceId "en" (name.getD "")

/-- The PATCH. -/
theorem patch {e : OverrideEdits} (h : e.override.StampsBy T) (payload : CourseOverrideRequest) :
    (payload.apply e clientTs deviceId now).override.StampsBy T := by
  have hcolor := h.elim payload.colorHex fun color =>
    h.setColor hnow clientTs deviceId (some color)
  have hname := hcolor.elim payload.names fun n => hcolor.setName hnow clientTs deviceId n.1 n.2
  exact hname.elim payload.ignoreAssignments fun ignore =>
    hname.setIgnore hnow clientTs deviceId ignore

/-- The PUT. -/
theorem put {e : OverrideEdits} (h : e.override.StampsBy T) (payload : CourseOverridePut)
    (resetAt : Option Time) : (payload.apply e resetAt deviceId now).override.StampsBy T := by
  have hname := h.elim (payload.customNameUpdatedAt.filter (beats · resetAt)) fun ts =>
    h.setBothNames hnow ts deviceId payload.customName
  have hcolor := hname.elim (payload.colorHexUpdatedAt.filter (beats · resetAt)) fun ts =>
    hname.setColor hnow ts deviceId payload.colorHex
  exact hcolor.elim (payload.ignoreAssignmentsUpdatedAt.filter (beats · resetAt)) fun ts =>
    hcolor.elim payload.ignoreAssignments fun ignore => hcolor.setIgnore hnow ts deviceId ignore

/-- An override of the initial upload. -/
theorem upload {e : OverrideEdits} (h : e.override.StampsBy T) (item : UploadCourseOverride)
    (resetAt : Option Time) : (item.apply e resetAt deviceId now).override.StampsBy T := by
  have hname := h.elim (item.customName.filter fun _ => after item.customNameUpdatedAt resetAt)
    fun name => h.setBothNames hnow (item.customNameUpdatedAt.getD OLDEST) deviceId (some name)
  have hcolor := hname.elim (item.colorHex.filter fun _ => after item.colorHexUpdatedAt resetAt)
    fun color => hname.setColor hnow (item.colorHexUpdatedAt.getD OLDEST) deviceId (some color)
  exact hcolor.elim (item.ignoreAssignmentsUpdatedAt.filter fun ts => after (some ts) resetAt)
    fun ts => hcolor.elim item.ignoreAssignments fun ignore =>
      hcolor.setIgnore hnow ts deviceId ignore

end UserCourseOverride.StampsBy

/-! ### The writers of course rows -/

namespace UserSync.StampsBy

variable {u : UserSync} {T now : Time} (deviceId : Option DeviceId)

theorem fresh (T : Time) : UserSync.fresh.StampsBy T :=
  ⟨.empty, .empty, rfl, .empty, .empty⟩

theorem override (h : u.StampsBy T) (key : CourseKey) : (u.override key).StampsBy T := by
  unfold UserSync.override
  cases hget : u.overrides.get key with
  | none => exact .blank T
  | some o => exact h.overrides key o hget

theorem setOverride (h : u.StampsBy T) (key : CourseKey) {o : UserCourseOverride}
    (ho : o.StampsBy T) : UserSync.StampsBy { u with overrides := u.overrides.set key o } T :=
  ⟨h.added, h.tombstones, h.full, h.terms, h.overrides.set ho⟩

/-- The override PATCH. -/
theorem overrideCourse (h : u.StampsBy T) (hnow : now + MAX_CLOCK_SKEW ≤ T) (speaksClock : Bool)
    (payload : CourseOverrideRequest) (course : CourseKey) :
    (keepRows u (Sync.overrideCourse u deviceId speaksClock now payload course)).StampsBy T := by
  have hbody : UserSync.StampsBy (keepRows u (do
      let stamp ← editTime payload.hlc now payload.ageMs
      if (u.courses.get course).isNone then throw ⟨404, "course_not_found"⟩
      return overrideByStamp u deviceId now payload course stamp)) T := by
    cases editTime payload.hlc now payload.ageMs with
    | error e => exact h
    | ok stamp =>
      simp only [bind, Except.bind, pure, Except.pure]
      split
      · exact h
      · refine h.setOverride course ((?_ : UserCourseOverride.StampsBy _ T).moodleCourseId _)
        split
        · exact .patch hnow stamp deviceId (h.override course) payload
        · exact h.override course
  rw [Sync.overrideCourse]
  split
  · cases requireStamp speaksClock payload.hlc payload.ageMs with
    | error e => exact h
    | ok _ => exact hbody
  · exact hbody

/-- Its /v4 form. -/
theorem overrideCourseV4 (h : u.StampsBy T) (hnow : now + MAX_CLOCK_SKEW ≤ T)
    (payload : CourseOverrideRequest) (course : CourseKey) :
    (keepRows u (Sync.overrideCourseV4 u deviceId now payload course)).StampsBy T := by
  have hbody := h.overrideCourse deviceId hnow true payload course
  rw [Sync.overrideCourseV4]
  split
  · cases requireStamp true payload.hlc payload.ageMs with
    | error e => exact h
    | ok _ => exact hbody
  · exact hbody

/-- The academics PUT. -/
theorem putCourseOverride (h : u.StampsBy T) (hnow : now + MAX_CLOCK_SKEW ≤ T)
    (payload : CourseOverridePut) (course : CourseKey) :
    (keepRows u (Sync.putCourseOverride u deviceId now payload course)).StampsBy T := by
  simp only [Sync.putCourseOverride, bind, Except.bind, pure, Except.pure]
  split
  · exact h
  · exact h.setOverride course ((UserCourseOverride.StampsBy.put hnow deviceId (h.override course)
      payload _).moodleCourseId _)

/-- The course sections of the initial upload. -/
theorem initialUpload (h : u.StampsBy T) (hnow : now + MAX_CLOCK_SKEW ≤ T)
    (courses : List UploadCourse) (overrides : List UploadCourseOverride) :
    (Sync.initialUpload u deviceId now courses overrides).1.StampsBy T := by
  have himport : ∀ s : CourseImport, s.user.StampsBy T →
      (courses.foldl (importCourse now) s).user.StampsBy T := by
    induction courses with
    | nil => exact fun s hs => hs
    | cons item rest ih =>
      intro s hs
      refine ih _ ?_
      unfold importCourse
      split
      · exact hs
      · refine ⟨hs.added.set ?_, hs.tombstones, hs.full, hs.terms, hs.overrides⟩
        -- A hand-added course is stamped with the upload's clock.
        show atOrBefore (if item.source = .userAdded then some now else none) T = true
        split
        · exact decide_eq_true ((Nat.le_add_right _ _).trans hnow)
        · rfl
  refine uploadOverrides_induction _ deviceId now (P := fun v => UserSync.StampsBy v T)
    (fun v item _ hv => ?_) (himport ⟨u, []⟩ h)
  unfold uploadOverride
  split
  · exact hv
  · exact hv.setOverride item.courseKey ((UserCourseOverride.StampsBy.upload hnow deviceId
      (hv.override item.courseKey) item _).moodleCourseId _)


end UserSync.StampsBy

/-- The stamps of an upload's adds are read from its arrival. -/
theorem addStamps_le {adds : List CourseAdd} {now : Time} {stamps : Table CourseKey Time}
    (h : addStamps adds now = .ok stamps) : stamps.Forall fun _ t => t ≤ now + MAX_CLOCK_SKEW := by
  suffices hfold : ∀ start : Table CourseKey Time, (start.Forall fun _ t => t ≤ now + MAX_CLOCK_SKEW) →
      adds.foldlM (fun stamps add => do
        requireStamp true add.hlc add.ageMs
        let stamp ← editTime add.hlc now add.ageMs
        return stamps.upsert add.courseKey stamp (max stamp)) start = .ok stamps →
      stamps.Forall fun _ t => t ≤ now + MAX_CLOCK_SKEW from hfold Table.empty .empty h
  clear h
  induction adds with
  | nil =>
    intro start hstart hok
    obtain rfl := Except.ok.inj hok
    exact hstart
  | cons a rest ih =>
    intro start hstart hok
    rw [List.foldlM_cons] at hok
    cases hstamp : requireStamp true a.hlc a.ageMs with
    | error e => simp [hstamp, bind, Except.bind] at hok
    | ok _ =>
      cases htime : editTime a.hlc now a.ageMs with
      | error e => simp [hstamp, htime, bind, Except.bind] at hok
      | ok stamp =>
        simp only [hstamp, htime, bind, Except.bind, pure, Except.pure] at hok
        exact ih _ (hstart.upsert (editTime_le htime) fun t ht => max_le (editTime_le htime) ht) hok

namespace UserSync.StampsBy

variable {u : UserSync} {T now : Time} (deviceId : Option DeviceId)

/-- The loop of an upload, whose rules add with stamps of their own. -/
theorem writeRows (h : u.StampsBy T) (payload : CourseUploadRequest) (rules : UploadRules)
    (hrules : ∀ key, atOrBefore (rules.addedAt key) T) (speaksClock : Bool) :
    (Sync.writeRows payload rules speaksClock u).StampsBy T := by
  have hrows : (upsertRows payload rules u).Forall fun _ row => atOrBefore row.addedAt T :=
    h.added.upsertEach (fun key => hrules key) (fun key row hrow => by
      show atOrBefore ((rules.addedAt key).or row.addedAt) T = true
      cases hadd : rules.addedAt key with
      | none => exact hrow
      | some t =>
        have hstamp := hrules key
        rw [hadd] at hstamp
        exact hstamp) _
  refine ⟨hrows.modify fun key row _ hrow => ?_, h.tombstones, h.full, h.terms, h.overrides⟩
  split <;> exact hrow

/-- Colour fills, which count as the oldest. -/
theorem fillColors (h : u.StampsBy T) (hnow : now + MAX_CLOCK_SKEW ≤ T)
    (existing : CourseKey → Bool) (items : List CourseOverrideUploadItem) :
    (Sync.fillColors existing deviceId now u items).1.StampsBy T := by
  refine fillColors_induction existing deviceId now (P := fun v => v.StampsBy T)
    (fun v item hv => ?_) h
  unfold fillColor
  dsimp only
  split
  · exact hv
  · have hcolor := UserCourseOverride.StampsBy.setColor hnow OLDEST deviceId
      (e := ⟨v.override item.courseKey, []⟩) (hv.override item.courseKey) item.colorHex
    split
    · exact hv.setOverride item.courseKey hcolor
    · exact hv.setOverride item.courseKey (hv.override item.courseKey)

/-- An upload of either protocol. -/
theorem applyUpload (h : u.StampsBy T) (hnow : now + MAX_CLOCK_SKEW ≤ T) (speaksClock : Bool)
    (payload : CourseUploadRequest) {adds : Table CourseKey Time}
    (hadds : adds.Forall fun _ t => t ≤ now + MAX_CLOCK_SKEW) :
    (Sync.applyUpload u deviceId speaksClock now payload adds).1.StampsBy T := by
  cases speaksClock with
  | true =>
    have hreleased : UserSync.StampsBy (rosterByStamp u payload.courses adds).1 T :=
      ⟨h.added, h.tombstones.deleteWhere _, h.full, h.terms, h.overrides⟩
    refine (hreleased.writeRows payload (rosterByStamp u payload.courses adds).2.1 (fun key => ?_)
      true).fillColors deviceId hnow (fun key => (u.courses.get key).isSome) payload.courseOverrides
    -- An add that wins has one of the upload's stamps.
    show atOrBefore (if key ∈ payload.courses then won u adds key else none) T = true
    split
    · cases hwon : won u adds key with
      | none => rfl
      | some t =>
        have hget := (Option.filter_eq_some_iff.mp hwon).1
        exact decide_eq_true ((hadds key t hget).trans hnow)
    · rfl
  | false =>
    have hreleased : UserSync.StampsBy (releaseOnArrival u deviceId now payload).1 T :=
      ⟨h.added, (h.tombstones.deleteWhere _).deleteWhere _, h.full, h.terms, h.overrides⟩
    refine (hreleased.writeRows payload (releaseOnArrival u deviceId now payload).2 (fun key => ?_)
      false).fillColors deviceId hnow (fun key => (u.courses.get key).isSome) payload.courseOverrides
    -- A released app's re-add is stamped when it arrives.
    show atOrBefore (if decide (key ∈ payload.forceKeys) = true then some now else none) T = true
    split
    · exact decide_eq_true ((Nat.le_add_right _ _).trans hnow)
    · rfl

/-- A delete of either protocol. -/
theorem deleteByStamp (h : u.StampsBy T) (key : CourseKey) (speaksClock : Bool) {stamp : Time}
    (hstamp : stamp ≤ T) (kind : Option DeleteKind) :
    (Sync.deleteByStamp u deviceId key speaksClock stamp kind).1.StampsBy T := by
  unfold Sync.deleteByStamp
  dsimp only
  split
  · exact h
  · refine ⟨?_, h.tombstones.set hstamp, h.full, h.terms, ?_⟩
    · show Table.Forall (if _ then _ else _) _
      split
      · refine h.added.modify fun k row _ hrow => ?_
        split
        · rfl
        · exact hrow
      · exact h.added.deleteWhere _
    · show Table.Forall (if _ then _ else _) _
      split
      · exact h.overrides
      · exact h.overrides.deleteWhere _

/-- The reset a request records. -/
theorem recordReset (h : u.StampsBy T) (semester : Option Term) {stamp : Time} (hstamp : stamp ≤ T) :
    (Sync.recordReset u semester stamp).StampsBy T := by
  cases semester with
  | none =>
    refine ⟨h.added, h.tombstones, atOrBefore_latest fun s hs => ?_, h.terms, h.overrides⟩
    rcases List.mem_pair.mp hs with rfl | rfl
    · exact h.full
    · exact decide_eq_true hstamp
  | some term =>
    exact ⟨h.added, h.tombstones, h.full, h.terms.upsert hstamp fun t ht => max_le ht hstamp,
      h.overrides⟩

/-- The override of a row that a reset clears. -/
theorem clearOverrideBefore {o : UserCourseOverride} (h : o.StampsBy T) {stamp : Time}
    (hstamp : stamp ≤ T) : (Sync.clearOverrideBefore o stamp).1.StampsBy T where
  fields f := by
    have hself : atOrBefore (some stamp) T = true := decide_eq_true hstamp
    cases f with
    | colorHex =>
      show atOrBefore (Sync.clearOverrideBefore o stamp).1.colorHex.updatedAt T = true
      rw [colorHex_clearOverrideBefore]
      split
      · exact hself
      · exact h.fields .colorHex
    | ignoreAssignments =>
      show atOrBefore (Sync.clearOverrideBefore o stamp).1.ignoreAssignments.updatedAt T = true
      rw [ignoreAssignments_clearOverrideBefore]
      split
      · exact hself
      · exact h.fields .ignoreAssignments
    | customName locale =>
      show atOrBefore ((Sync.clearOverrideBefore o stamp).1.customNamesUpdatedAt.get locale) T = true
      rw [(get_clearOverrideBefore o stamp locale).2]
      split
      · exact hself
      · exact h.fields (.customName locale)
  customName := by
    cases hnewest : (Sync.clearOverrideBefore o stamp).1.customNameUpdatedAt with
    | none => rfl
    | some t =>
      rcases customNameUpdatedAt_clearOverrideBefore o stamp with hsame | hmax
      · rw [← hnewest, hsame]
        exact h.customName
      · -- The latest stamp is the stamp of a locale.
        rw [hnewest] at hmax
        obtain ⟨⟨locale, _⟩, hrow, rfl⟩ := List.mem_map.mp (List.max?_mem hmax.symm)
        have hget := (Table.get_eq_some_iff _ locale _).mpr hrow
        rw [(get_clearOverrideBefore o stamp locale).2] at hget
        split at hget
        · obtain rfl := Option.some.inj hget
          exact decide_eq_true hstamp
        · have hfield : atOrBefore (o.customNamesUpdatedAt.get locale) T = true :=
            h.fields (.customName locale)
          rwa [hget] at hfield

/-- A protocol-2 reset. -/
theorem clearByStamp (h : u.StampsBy T) (semester : Option Term) {stamp : Time} (hstamp : stamp ≤ T) :
    (Sync.clearByStamp u deviceId semester stamp).1.StampsBy T := by
  have hrecorded := h.recordReset semester hstamp
  refine ⟨(h.added.deleteWhere _).modify fun key row _ hrow => ?_, ?_, hrecorded.full,
    hrecorded.terms, (h.overrides.deleteWhere _).modify fun key o _ ho => ?_⟩
  · split
    · rw [addedAt_clearBefore]
      cases hadd : row.addedAt with
      | none => rfl
      | some t =>
        rw [hadd] at hrow
        by_cases hlater : stamp < t
        · simpa [Option.filter, hlater] using hrow
        · simp [Option.filter, hlater, atOrBefore]
    · exact hrow
  · show (resetTombstones u deviceId semester stamp).Forall _
    cases semester with
    | none => exact h.tombstones.deleteWhere _
    | some term =>
      refine Table.Forall.insertFrom ((h.tombstones.deleteWhere _).modify fun key t _ ht => ?_)
        fun key row t ht => ?_
      · split
        · exact hstamp
        · exact ht
      · split at ht
        · obtain rfl := Option.some.inj ht
          exact hstamp
        · cases ht
  · split
    · split
      · exact clearOverrideBefore ho hstamp
      · exact ho
    · exact ho

/-- A released app's reset. -/
theorem resetOnArrival (h : u.StampsBy T) (hnow : now ≤ T) (semester : Option Term) {stamp : Time}
    (hstamp : stamp ≤ T) : (Sync.resetOnArrival u deviceId semester stamp now).1.StampsBy T := by
  have hrecorded := h.recordReset semester hstamp
  refine ⟨h.added.deleteWhere _, ?_, hrecorded.full, hrecorded.terms, h.overrides.deleteWhere _⟩
  cases semester with
  | none => exact h.tombstones.deleteWhere _
  | some term =>
    refine Table.Forall.overwriteFrom (h.tombstones.modify fun key t _ ht => ?_) fun key row t ht => ?_
    · split
      · exact hnow
      · exact ht
    · split at ht
      · obtain rfl := Option.some.inj ht
        exact hnow
      · cases ht

/-- Every course request. -/
theorem apply (h : u.StampsBy T) (r : Request) (hnow : r.arrivedAt + MAX_CLOCK_SKEW ≤ T) :
    (r.apply u).StampsBy T := by
  have harrived : r.arrivedAt ≤ T := (Nat.le_add_right _ _).trans hnow
  cases r with
  | upload deviceId speaksClock now payload =>
    simp only [Request.apply, uploadCourses, bind, Except.bind, pure, Except.pure]
    split
    · exact h
    · split
      · cases hadds : addStamps payload.adds now with
        | error e => exact h
        | ok adds => exact h.applyUpload deviceId hnow speaksClock payload (addStamps_le hadds)
      · exact h.applyUpload deviceId hnow speaksClock payload .empty
  | delete deviceId speaksClock now key hlc kind ageMs =>
    simp only [Request.apply, deleteCourse, bind, Except.bind, pure, Except.pure]
    cases requireStamp speaksClock hlc ageMs with
    | error e => exact h
    | ok _ =>
      cases htime : editTime hlc now ageMs with
      | error e => exact h
      | ok stamp =>
        exact h.deleteByStamp deviceId key speaksClock ((editTime_le htime).trans hnow) kind
  | reset deviceId speaksClock now semester hlc ageMs =>
    simp only [Request.apply, deleteAllCourses, bind, Except.bind, pure, Except.pure]
    cases requireStamp speaksClock hlc ageMs with
    | error e => exact h
    | ok _ =>
      cases speaksClock with
      | true =>
        cases htime : editTime hlc now ageMs with
        | error e => exact h
        | ok stamp =>
          simp only [if_true, Request.keep, resetByStamp]
          split
          · exact h.clearByStamp deviceId semester ((editTime_le htime).trans hnow)
          · exact h
      | false =>
        simp only [Bool.false_eq_true, if_false]
        split
        · exact h
        · cases htime : editTime hlc now ageMs with
          | error e => exact h
          | ok stamp =>
            exact h.resetOnArrival deviceId harrived semester ((editTime_le htime).trans hnow)

end UserSync.StampsBy

/-! ### The writers of marks and holidays -/

section Marks

variable {marks : Marks} {T now : Time} (deviceId : Option DeviceId)

theorem stampsBy_markOf (h : marks.Forall fun _ mark => mark.StampsBy T) (rowId : Nat) :
    (markOf marks rowId).StampsBy T := by
  unfold markOf
  cases hget : marks.get rowId with
  | none => exact ⟨rfl, rfl⟩
  | some mark => exact h rowId mark hget

/-- A mark or a clear, on one row or on all of the assignment. -/
theorem stampsBy_setMark (hnow : now + MAX_CLOCK_SKEW ≤ T) (status : AssignmentLocalStatus)
    (stamp : Time) (rowIds : List Nat) (h : marks.Forall fun _ mark => mark.StampsBy T) :
    (rowIds.foldl (setMark deviceId now status stamp) marks).Forall fun _ mark =>
      mark.StampsBy T := by
  induction rowIds generalizing marks with
  | nil => exact h
  | cons rowId rest ih =>
    obtain ⟨hstatus, hnote⟩ := stampsBy_markOf h rowId
    exact ih (h.set ⟨atOrBefore_applyField hnow hstatus status stamp deviceId, hnote⟩)

theorem stampsBy_patchAssignment (hnow : now + MAX_CLOCK_SKEW ≤ T)
    (h : marks.Forall fun _ mark => mark.StampsBy T) (rows : Assignments) (speaksClock : Bool)
    (id : MoodleId) (payload : AssignmentOverrideRequest) :
    (keepRows marks (patchAssignmentOverride rows marks deviceId speaksClock now id payload)).Forall
      fun _ mark => mark.StampsBy T := by
  simp only [patchAssignmentOverride, bind, Except.bind, pure, Except.pure]
  cases requireStamp speaksClock payload.hlc payload.ageMs with
  | error e => exact h
  | ok _ =>
    cases editTime payload.hlc now payload.ageMs with
    | error e => exact h
    | ok stamp =>
      cases getAssignmentByMoodleId rows id with
      | none => exact h
      | some assignment => exact stampsBy_setMark deviceId hnow _ stamp _ h

/-- The edits of a PUT or of an uploaded mark, those it does not send missing. -/
theorem stampsBy_edits {mark : UserAssignmentOverride} (hnow : now + MAX_CLOCK_SKEW ≤ T)
    (h : mark.StampsBy T) {α β : Type} (status : Option α) (statusOf : α → AssignmentLocalStatus)
    (statusTs : α → Time) (note : Option β) (noteOf : β → Option String) (noteTs : β → Time) :
    UserAssignmentOverride.StampsBy
      ⟨status.elim mark.localStatus fun a =>
          (applyField mark.localStatus (statusOf a) (statusTs a) deviceId now).1,
        note.elim mark.note fun b => (applyField mark.note (noteOf b) (noteTs b) deviceId now).1⟩
      T := by
  refine ⟨?_, ?_⟩
  · cases status with
    | none => exact h.1
    | some a => exact atOrBefore_applyField hnow h.1 _ _ deviceId
  · cases note with
    | none => exact h.2
    | some b => exact atOrBefore_applyField hnow h.2 _ _ deviceId

theorem stampsBy_putAssignment (hnow : now + MAX_CLOCK_SKEW ≤ T)
    (h : marks.Forall fun _ mark => mark.StampsBy T) (rows : Assignments) (rowId : Nat)
    (payload : AssignmentOverridePut) :
    (keepRows marks (putAssignmentOverride rows marks deviceId now rowId payload)).Forall
      fun _ mark => mark.StampsBy T := by
  simp only [putAssignmentOverride, bind, Except.bind, pure, Except.pure]
  split
  · exact h
  · cases payload.status with
    | error e => exact h
    | ok status =>
      exact h.set (stampsBy_edits deviceId hnow (stampsBy_markOf h rowId) status Prod.fst Prod.snd
        payload.noteUpdatedAt (fun _ => payload.note) id)

/-- The marks of an initial upload. -/
theorem stampsBy_uploadMarks (hnow : now + MAX_CLOCK_SKEW ≤ T) (upload : Upload)
    (items : List UploadAssignmentOverride) (h : marks.Forall fun _ mark => mark.StampsBy T) :
    (items.foldl (uploadMark upload deviceId now) marks).Forall fun _ mark => mark.StampsBy T := by
  induction items generalizing marks with
  | nil => exact h
  | cons item rest ih =>
    refine ih ?_
    unfold uploadMark
    split
    · exact h
    next row _ =>
      exact h.set (stampsBy_edits deviceId hnow (stampsBy_markOf h row.id) item.localStatus id
        (fun _ => item.localStatusUpdatedAt.getD OLDEST) item.note some
        fun _ => item.noteUpdatedAt.getD OLDEST)

theorem stampsBy_setOverride {holidays : Holidays} (hnow : now + MAX_CLOCK_SKEW ≤ T)
    (h : holidays.Forall fun _ holiday => atOrBefore holiday.updatedAt T) (speaksClock listed : Bool)
    (id : HolidayId) (payload : HolidayOverrideRequest) :
    (keepRows holidays (setOverride holidays speaksClock now listed id payload)).Forall
      fun _ holiday => atOrBefore holiday.updatedAt T := by
  simp only [setOverride, bind, Except.bind, pure, Except.pure]
  cases requireStamp speaksClock payload.hlc payload.ageMs with
  | error e => exact h
  | ok _ =>
    cases listed with
    | false => exact h
    | true =>
      cases editTime payload.hlc now payload.ageMs with
      | error e => exact h
      | ok stamp =>
        refine h.set (atOrBefore_applyField hnow ?_ _ stamp none)
        cases hget : holidays.get id with
        | none => rfl
        | some holiday => exact h id holiday hget

end Marks

namespace UserEdits.StampsBy

variable {s : UserEdits} {T : Time}

theorem fresh (assignments : Assignments) (nextAssignmentId : Nat) (T : Time) :
    (UserEdits.fresh assignments nextAssignmentId).StampsBy T :=
  ⟨.fresh T, .empty, .empty⟩

/-- What a request stores is no later than the skew past the clock it is held to. -/
theorem apply (h : s.StampsBy T) (r : EditRequest) (hclock : r.clock + MAX_CLOCK_SKEW ≤ T) :
    (r.apply s).StampsBy T := by
  cases r with
  | membership r => exact ⟨h.sync.apply r hclock, h.marks, h.holidays⟩
  | patchCourse deviceId speaksClock arrivedAt payload course =>
    exact ⟨h.sync.overrideCourse deviceId hclock speaksClock payload course, h.marks, h.holidays⟩
  | patchCourseV4 deviceId arrivedAt payload course =>
    exact ⟨h.sync.overrideCourseV4 deviceId hclock payload course, h.marks, h.holidays⟩
  | putCourse deviceId arrivedAt now payload course =>
    exact ⟨h.sync.putCourseOverride deviceId hclock payload course, h.marks, h.holidays⟩
  | patchAssignment deviceId speaksClock arrivedAt id payload =>
    exact ⟨h.sync, stampsBy_patchAssignment deviceId hclock h.marks s.assignments speaksClock id
      payload, h.holidays⟩
  | putAssignment deviceId arrivedAt now rowId payload =>
    exact ⟨h.sync, stampsBy_putAssignment deviceId hclock h.marks s.assignments rowId payload,
      h.holidays⟩
  | holiday speaksClock arrivedAt listed id payload =>
    exact ⟨h.sync, h.marks, stampsBy_setOverride hclock h.holidays speaksClock listed id payload⟩
  | initialUpload deviceId arrivedAt now payload =>
    exact ⟨h.sync.initialUpload deviceId hclock payload.courses payload.courseOverrides,
      stampsBy_uploadMarks deviceId hclock _ payload.assignmentOverrides h.marks, h.holidays⟩

end UserEdits.StampsBy

/-! ### A later edit wins -/

section Wins

variable {T stamp now : Time}

/-- A stamp later than `T` beats every stamp by `T`. -/
theorem beats_of_atOrBefore {stored : Option Time} (h : atOrBefore stored T) (hlate : T < stamp) :
    beats stamp stored = true :=
  (beats_iff stamp stored).mpr ((atOrBefore_iff.mp h).trans hlate)

/-- A stamp read from a request is not clamped. -/
theorem clampTs_of_editTime {hlc : Option Time} {ageMs : Option Int}
    (h : editTime hlc now ageMs = .ok stamp) : clampTs stamp now MAX_CLOCK_SKEW = stamp :=
  min_eq_left (editTime_le h)

/-- A later edit of a field is stored. -/
theorem applyField_of_late {α : Type} [DecidableEq α] {field : Field α} {value : α}
    {deviceId : Option DeviceId} (hclamp : clampTs stamp now MAX_CLOCK_SKEW = stamp)
    (h : atOrBefore field.updatedAt T) (hlate : T < stamp) :
    (applyField field value stamp deviceId now).1 = ⟨value, some stamp, deviceId⟩ := by
  rw [applyField_fst, hclamp, if_pos (beats_of_atOrBefore h hlate)]

/-- The resets that cover a term. -/
theorem atOrBefore_covering {u : UserSync} (h : u.StampsBy T) (term : Term) :
    atOrBefore (u.resets.covering (some term)) T := by
  refine atOrBefore_latest fun s hs => ?_
  rcases List.mem_pair.mp hs with rfl | rfl
  · exact h.full
  · show atOrBefore (u.semesterResets.get term) T = true
    cases hget : u.semesterResets.get term with
    | none => rfl
    | some t => exact decide_eq_true (h.terms term t hget)

/-- Everything a membership edit must beat. -/
theorem atOrBefore_gate {u : UserSync} (h : u.StampsBy T) (e : Edit) : atOrBefore (u.gate e) T := by
  have hstamp : ∀ key, atOrBefore (u.stamp key) T = true := by
    intro key
    refine atOrBefore_latest fun s hs => ?_
    simp only [List.mem_cons, List.not_mem_nil, or_false] at hs
    rcases hs with rfl | rfl | rfl
    · cases hget : u.courses.get key with
      | none => rfl
      | some row => exact h.added key row hget
    · cases hget : u.tombstones.get key with
      | none => rfl
      | some t => exact decide_eq_true (h.tombstones key t hget)
    · exact atOrBefore_covering h key.term
  cases e with
  | add key => exact hstamp key
  | delete key => exact hstamp key
  | reset semester =>
    cases semester with
    | none => exact h.full
    | some term => exact atOrBefore_covering h term

/-- A later membership edit is accepted. -/
theorem verdict_of_late {u : UserSync} (h : u.StampsBy T) {r : Request} (hclock : r.speaksClock = true)
    {e : Edit} (hstamp : r.stampOf e = some stamp) (hlate : T < stamp) :
    r.verdict u e = some true := by
  rw [Request.verdict_eq hclock, hstamp, Option.map_some,
    beats_of_atOrBefore (atOrBefore_gate h e) hlate]

end Wins

section Wins

variable {T stamp now : Time} {deviceId : Option DeviceId}

theorem colorHex_applyCourseName (o : UserCourseOverride) (locale name : String) (clientTs : Time) :
    (applyCourseName o locale name clientTs deviceId now).1.colorHex = o.colorHex := by
  unfold applyCourseName
  dsimp only
  split <;> rfl

theorem ignoreAssignments_applyCourseName (o : UserCourseOverride) (locale name : String)
    (clientTs : Time) :
    (applyCourseName o locale name clientTs deviceId now).1.ignoreAssignments =
      o.ignoreAssignments := by
  unfold applyCourseName
  dsimp only
  split <;> rfl

/-- A later name is stored in its locale. -/
theorem customNames_applyCourseName {o : UserCourseOverride} {locale : String} (name : String)
    (hclamp : clampTs stamp now MAX_CLOCK_SKEW = stamp)
    (h : atOrBefore (o.customNamesUpdatedAt.get locale) T) (hlate : T < stamp) :
    (applyCourseName o locale name stamp deviceId now).1.customNames.get locale = some name := by
  have hbeats := beats_of_atOrBefore h hlate
  simp only [applyCourseName, any_le_eq_not_beats, hclamp, hbeats, Bool.not_true, Bool.false_eq_true,
    if_false]
  by_cases hsame : o.customNames.get locale = some name
  · simp [hsame]
  · simp [hsame]

/-- A later PATCH holds what it sends. -/
theorem patch_of_late (payload : CourseOverrideRequest) (deviceId : Option DeviceId)
    {e : OverrideEdits} (hclamp : clampTs stamp now MAX_CLOCK_SKEW = stamp) (h : e.override.StampsBy T)
    (hlate : T < stamp) :
    (∀ color, payload.colorHex = some color →
      (payload.apply e stamp deviceId now).override.colorHex.value = some color) ∧
    (∀ n, payload.names = some n →
      (payload.apply e stamp deviceId now).override.customNames.get n.1 = some n.2) ∧
    ∀ ignore, payload.ignoreAssignments = some ignore →
      (payload.apply e stamp deviceId now).override.ignoreAssignments.value = ignore := by
  have hcolor : ∀ color, (e.setColor stamp deviceId now color).override.colorHex.value = color := by
    intro color
    show (applyField e.override.colorHex color stamp deviceId now).1.value = color
    rw [applyField_of_late hclamp (h.fields .colorHex) hlate]
  refine ⟨fun color hsent => ?_, fun n hsent => ?_, fun ignore hsent => ?_⟩
  · simp only [CourseOverrideRequest.apply, hsent, Option.elim_some]
    -- Neither the name nor the ignore flag touches the colour.
    cases payload.names <;> cases payload.ignoreAssignments <;>
      simp [OverrideEdits.setName, OverrideEdits.setIgnore, OverrideEdits.note,
        colorHex_applyCourseName, hcolor]
  · have hname : ∀ e' : OverrideEdits, e'.override.customNamesUpdatedAt =
        e.override.customNamesUpdatedAt →
        (e'.setName stamp deviceId now n.1 n.2).override.customNames.get n.1 = some n.2 := by
      intro e' hsame
      have hlocale : atOrBefore (e'.override.customNamesUpdatedAt.get n.1) T = true := by
        rw [hsame]
        exact h.fields (.customName n.1)
      exact customNames_applyCourseName n.2 hclamp hlocale hlate
    simp only [CourseOverrideRequest.apply, hsent, Option.elim_some]
    cases payload.colorHex with
    | none =>
      cases payload.ignoreAssignments with
      | none => exact hname e rfl
      | some ignore => exact hname e rfl
    | some color =>
      cases payload.ignoreAssignments with
      | none => exact hname (e.setColor stamp deviceId now (some color)) rfl
      | some ignore => exact hname (e.setColor stamp deviceId now (some color)) rfl
  · have hignore : ∀ e' : OverrideEdits, e'.override.ignoreAssignments = e.override.ignoreAssignments →
        (e'.setIgnore stamp deviceId now ignore).override.ignoreAssignments.value = ignore := by
      intro e' hsame
      show (applyField e'.override.ignoreAssignments ignore stamp deviceId now).1.value = ignore
      rw [hsame, applyField_of_late hclamp (h.fields .ignoreAssignments) hlate]
    simp only [CourseOverrideRequest.apply, hsent, Option.elim_some]
    refine hignore _ ?_
    cases payload.colorHex <;> cases payload.names <;>
      simp [OverrideEdits.setName, OverrideEdits.setColor, OverrideEdits.note,
        ignoreAssignments_applyCourseName]

/-- A later override PATCH keeps no other value. -/
theorem overrideCourse_of_late {u : UserSync} (h : u.StampsBy T) {speaksClock : Bool}
    {payload : CourseOverrideRequest} {course : CourseKey} (hrow : (u.courses.get course).isSome)
    (hrequire : requireStamp speaksClock payload.hlc payload.ageMs = .ok ())
    (htime : editTime payload.hlc now payload.ageMs = .ok stamp) (hlate : T < stamp) :
    ∃ v answer, overrideCourse u deviceId speaksClock now payload course = .ok (v, answer) ∧
      answer.kept = [] := by
  refine ⟨(overrideByStamp u deviceId now payload course stamp).1,
    (overrideByStamp u deviceId now payload course stamp).2, ?_, ?_⟩
  · have hsome : (u.courses.get course).isNone = false := by simpa using hrow
    cases hedits : payload.edits <;>
      simp [overrideCourse, hedits, hrequire, htime, hsome, bind, Except.bind, pure, Except.pure]
  · have hwins := beats_of_atOrBefore (atOrBefore_covering h course.term) hlate
    obtain ⟨hcolor, hname, hignore⟩ := patch_of_late payload deviceId
      (e := ⟨u.override course, []⟩) (clampTs_of_editTime htime) (h.override course) hlate
    simp only [overrideByStamp, hwins, if_true, Bool.true_and, List.map_eq_nil_iff,
      List.filter_eq_nil_iff, List.mem_map]
    rintro _ ⟨s, hs, rfl⟩
    -- Each value sent is the one the override holds.
    simp only [CourseOverrideRequest.sent, List.mem_append, List.mem_map, Option.mem_toList] at hs
    rcases hs with (⟨color, hsent, rfl⟩ | ⟨n, hsent, rfl⟩) | ⟨ignore, hsent, rfl⟩
    · simp [hcolor color hsent]
    · simp [hname n hsent]
    · simp [hignore ignore hsent]

/-- A later delete is applied, but for a released app's of a course the server lacks. -/
theorem deleteCourse_of_late {u : UserSync} (h : u.StampsBy T) {key : CourseKey}
    {speaksClock : Bool} (hrow : speaksClock = false → (u.courses.get key).isSome)
    {hlc : Option Time} {ageMs : Option Int}
    (hrequire : requireStamp speaksClock hlc ageMs = .ok ())
    (htime : editTime hlc now ageMs = .ok stamp) (hlate : T < stamp) (kind : Option DeleteKind) :
    ∃ v answer, deleteCourse u deviceId key speaksClock now hlc kind ageMs = .ok (v, answer) ∧
      answer.applied = true := by
  refine ⟨(deleteByStamp u deviceId key speaksClock stamp kind).1,
    (deleteByStamp u deviceId key speaksClock stamp kind).2, ?_, ?_⟩
  · simp [deleteCourse, hrequire, htime, bind, Except.bind, pure, Except.pure]
  · have hbeats : beats stamp (membershipStamp (u.courses.get key) (u.tombstones.get key) u.resets
        (some key.term)) = true := beats_of_atOrBefore (atOrBefore_gate h (.delete key)) hlate
    have hlacks : ((u.courses.get key).isNone && !speaksClock) = false := by
      cases speaksClock with
      | true => simp
      | false =>
        have hsome := hrow rfl
        simpa using hsome
    simp [deleteByStamp, deleteSemester_eq, hbeats, hlacks, hideOrRemove]

/-- Marking a row again with the same stamp changes nothing. -/
theorem setMark_of_late {marks : Marks} {status : AssignmentLocalStatus} (rowId : Nat)
    (hclamp : clampTs stamp now MAX_CLOCK_SKEW = stamp) (hlate : T < stamp)
    (h : ∀ id, (markOf marks id).localStatus = ⟨status, some stamp, deviceId⟩ ∨
      atOrBefore (markOf marks id).localStatus.updatedAt T) (id : Nat) :
    (markOf (setMark deviceId now status stamp marks rowId) id).localStatus =
      if id = rowId then ⟨status, some stamp, deviceId⟩ else (markOf marks id).localStatus := by
  by_cases hid : id = rowId
  · subst hid
    have hset : (markOf (setMark deviceId now status stamp marks id) id).localStatus =
        (applyField (markOf marks id).localStatus status stamp deviceId now).1 := by
      simp [setMark, markOf]
    rw [hset, if_pos rfl]
    rcases h id with hsame | hold
    · rw [applyField_fst, hclamp, hsame]
      simp [beats]
    · exact applyField_of_late hclamp hold hlate
  · simp [setMark, markOf, hid]

/-- A later mark or clear is stored on every row it goes to. -/
theorem setMarks_of_late {marks : Marks} (deviceId : Option DeviceId)
    (status : AssignmentLocalStatus) (hclamp : clampTs stamp now MAX_CLOCK_SKEW = stamp) (hlate : T < stamp) {rowIds : List Nat}
    (h : ∀ id, (markOf marks id).localStatus = ⟨status, some stamp, deviceId⟩ ∨
      atOrBefore (markOf marks id).localStatus.updatedAt T) {id : Nat} (hid : id ∈ rowIds ∨
      (markOf marks id).localStatus = ⟨status, some stamp, deviceId⟩) :
    (markOf (rowIds.foldl (setMark deviceId now status stamp) marks) id).localStatus =
      ⟨status, some stamp, deviceId⟩ := by
  induction rowIds generalizing marks with
  | nil => exact hid.resolve_left List.not_mem_nil
  | cons rowId rest ih =>
    have hset := setMark_of_late rowId hclamp hlate h
    refine ih (fun id' => ?_) ?_
    · rw [hset]
      split
      · exact Or.inl rfl
      · exact h id'
    · rw [hset]
      by_cases hsame : id = rowId
      · exact Or.inr (if_pos hsame)
      · rw [if_neg hsame]
        rcases hid with hmem | hdone
        · exact Or.inl ((List.mem_cons.mp hmem).resolve_left hsame)
        · exact Or.inr hdone

/-- The row the apps see is one of the assignment's. -/
theorem mem_markedRows {rows : Assignments} {id : MoodleId} {assignment : UserAssignment}
    (h : getAssignmentByMoodleId rows id = some assignment) (status : AssignmentLocalStatus) :
    assignment.id ∈ markedRows rows id assignment status := by
  unfold markedRows
  split
  · obtain ⟨key, hfirst, hget⟩ := Option.bind_eq_some_iff.mp h
    obtain ⟨⟨_, row⟩, hhead, rfl⟩ := Option.map_eq_some_iff.mp hfirst
    have hmem := (List.mem_insertionSort _).mp (List.mem_of_mem_head? hhead)
    obtain ⟨hrow, hid⟩ := (Table.mem_select_iff _ _ _ _).mp hmem
    obtain rfl := Option.some.inj (hrow.symm.trans hget)
    exact List.mem_map.mpr ⟨_, hmem, rfl⟩
  · exact List.mem_singleton.mpr rfl

/-- A later mark is applied. -/
theorem patchAssignment_of_late {rows : Assignments} {marks : Marks}
    (h : marks.Forall fun _ mark => mark.StampsBy T) {speaksClock : Bool} {id : MoodleId}
    {payload : AssignmentOverrideRequest} (hfound : (getAssignmentByMoodleId rows id).isSome)
    (hrequire : requireStamp speaksClock payload.hlc payload.ageMs = .ok ())
    (htime : editTime payload.hlc now payload.ageMs = .ok stamp) (hlate : T < stamp) :
    ∃ v answer, patchAssignmentOverride rows marks deviceId speaksClock now id payload =
      .ok (v, answer) ∧ answer.applied = true := by
  obtain ⟨assignment, hassignment⟩ := Option.isSome_iff_exists.mp hfound
  refine ⟨(markAssignment rows marks deviceId now id payload assignment stamp).1,
    (markAssignment rows marks deviceId now id payload assignment stamp).2, ?_, ?_⟩
  · simp [patchAssignmentOverride, hrequire, htime, hassignment, bind, Except.bind, pure,
      Except.pure]
  · have hmarked := setMarks_of_late deviceId payload.localStatus
      (clampTs_of_editTime htime) hlate
      (fun rowId => Or.inr (stampsBy_markOf h rowId).1)
      (Or.inl (mem_markedRows hassignment payload.localStatus))
    simp [markAssignment, hmarked]

/-- A later holiday setting is applied. -/
theorem setOverride_of_late {holidays : Holidays}
    (h : holidays.Forall fun _ holiday => atOrBefore holiday.updatedAt T) {speaksClock : Bool}
    {id : HolidayId} {payload : HolidayOverrideRequest}
    (hrequire : requireStamp speaksClock payload.hlc payload.ageMs = .ok ())
    (htime : editTime payload.hlc now payload.ageMs = .ok stamp) (hlate : T < stamp) :
    ∃ v answer, setOverride holidays speaksClock now true id payload = .ok (v, answer) ∧
      answer.applied = true := by
  have hset : setHoliday holidays id payload.notify stamp now = ⟨payload.notify, some stamp, none⟩ := by
    refine applyField_of_late (clampTs_of_editTime htime) ?_ hlate
    cases hget : holidays.get id with
    | none => rfl
    | some holiday => exact h id holiday hget
  refine ⟨holidays.set id (setHoliday holidays id payload.notify stamp now),
    ⟨id, payload.notify, some stamp, true⟩, ?_, rfl⟩
  simp [setOverride, hrequire, htime, hset, bind, Except.bind, pure, Except.pure]

end Wins

/-! ### The theorem -/

/-- Edits stamped later than `T` win: a membership edit is accepted, and a delete of either protocol,
a course override, a mark and a holiday setting are applied. -/
structure LaterEditsWin (s : UserEdits) (T : Time) : Prop where
  membership : ∀ (r : Request) (e : Edit) stamp, r.speaksClock = true → r.stampOf e = some stamp →
    T < stamp → r.verdict s.sync e = some true
  delete : ∀ deviceId key speaksClock now hlc kind ageMs stamp,
    (speaksClock = false → (s.sync.courses.get key).isSome) →
    requireStamp speaksClock hlc ageMs = .ok () → editTime hlc now ageMs = .ok stamp → T < stamp →
    ∃ v answer, deleteCourse s.sync deviceId key speaksClock now hlc kind ageMs = .ok (v, answer) ∧
      answer.applied = true
  course : ∀ deviceId speaksClock now (payload : CourseOverrideRequest) course stamp,
    (s.sync.courses.get course).isSome →
    requireStamp speaksClock payload.hlc payload.ageMs = .ok () →
    editTime payload.hlc now payload.ageMs = .ok stamp → T < stamp →
    ∃ v answer, overrideCourse s.sync deviceId speaksClock now payload course = .ok (v, answer) ∧
      answer.kept = []
  mark : ∀ deviceId speaksClock now id (payload : AssignmentOverrideRequest) stamp,
    (getAssignmentByMoodleId s.assignments id).isSome →
    requireStamp speaksClock payload.hlc payload.ageMs = .ok () →
    editTime payload.hlc now payload.ageMs = .ok stamp → T < stamp →
    ∃ v answer, patchAssignmentOverride s.assignments s.marks deviceId speaksClock now id payload =
      .ok (v, answer) ∧ answer.applied = true
  holiday : ∀ speaksClock now id (payload : HolidayOverrideRequest) stamp,
    requireStamp speaksClock payload.hlc payload.ageMs = .ok () →
    editTime payload.hlc now payload.ageMs = .ok stamp → T < stamp →
    ∃ v answer, setOverride s.holidays speaksClock now true id payload = .ok (v, answer) ∧
      answer.applied = true

/-- Where no stored stamp is later than `T`, edits stamped later win. -/
theorem laterEditsWin {s : UserEdits} {T : Time} (h : s.StampsBy T) : LaterEditsWin s T where
  membership _ _ _ hclock hstamp hlate := verdict_of_late h.sync hclock hstamp hlate
  delete _ _ _ _ _ kind _ _ hrow hrequire htime hlate :=
    deleteCourse_of_late h.sync hrow hrequire htime hlate kind
  course _ _ _ _ _ _ hrow hrequire htime hlate :=
    overrideCourse_of_late h.sync hrow hrequire htime hlate
  mark _ _ _ _ _ _ hfound hrequire htime hlate :=
    patchAssignment_of_late h.marks hfound hrequire htime hlate
  holiday _ _ _ _ _ hrequire htime hlate := setOverride_of_late h.holidays hrequire htime hlate

/-- An age dates an edit between 365 days before its arrival and the arrival. -/
theorem editTime_of_age {hlc : Option Time} {now stamp : Time} {age : Int}
    (h : editTime hlc now (some age) = .ok stamp) : now - MAX_EDIT_AGE ≤ stamp ∧ stamp ≤ now := by
  obtain rfl := Except.ok.inj h
  have hage : min age.toNat (MAX_EDIT_AGE / MS) * MS ≤ MAX_EDIT_AGE :=
    (Nat.mul_le_mul_right MS (min_le_right _ _)).trans (Nat.div_mul_le_self _ _)
  exact ⟨Nat.sub_le_sub_left hage now, Nat.sub_le _ _⟩

/-- **No stored stamp runs ahead of the clock**: none is more than `MAX_CLOCK_SKEW` past the latest
clock read for a request. So an edit stamped later than that wins, and an age dates an edit between
365 days before its arrival and the arrival. -/
theorem stamps_within_skew {assignments : Assignments} {nextAssignmentId : Nat}
    {requests : List EditRequest} {s : UserEdits} {T : Time}
    (hrun : Run EditRequest.step (fun _ r => r.clock ≤ T)
      (UserEdits.fresh assignments nextAssignmentId) requests s) :
    s.StampsBy (T + MAX_CLOCK_SKEW) ∧ LaterEditsWin s (T + MAX_CLOCK_SKEW) ∧
      ∀ hlc now age stamp, editTime hlc now (some age) = .ok stamp →
        now - MAX_EDIT_AGE ≤ stamp ∧ stamp ≤ now := by
  have hstamps : s.StampsBy (T + MAX_CLOCK_SKEW) := by
    refine hrun.invariant (fun s => s.StampsBy (T + MAX_CLOCK_SKEW)) (.fresh _ _ _) ?_
    intro t r t' ht hclock hstep
    obtain rfl : r.apply t = t' := Option.some.inj hstep
    exact ht.apply r (Nat.add_le_add_right hclock _)
  exact ⟨hstamps, laterEditsWin hstamps, fun _ _ _ _ h => editTime_of_age h⟩

/-- A PUT that arrives at 60 s and waits for the sync lock, of a course uploaded at 40 s. -/
def waitingPut (readAt : Time) : List EditRequest :=
  [.membership (.upload none true (40 * second) ⟨[compilers], [], [], [], [compilers.term]⟩),
    .putCourse none (60 * second) readAt
      ⟨none, none, some "#ff0000", some (1000 * second), none, none, none, nofun⟩ compilers]

/-- Where the PUT reads its clock as it arrives, its colour is stamped 65 s. -/
theorem stamps_within_skew_of_put :
    ∃ s, Run EditRequest.step (fun _ r => r.clock ≤ 60 * second) (.fresh Table.empty 0)
        (waitingPut (60 * second)) s ∧
      (s.sync.override compilers).colorHex.updatedAt = some (65 * second) ∧
      s.StampsBy (65 * second) := by
  have hrun : ∃ s, execWhere EditRequest.step (fun _ r => r.clock ≤ 60 * second)
      (.fresh Table.empty 0) (waitingPut (60 * second)) = some s ∧
      (s.sync.override compilers).colorHex.updatedAt = some (65 * second) := ⟨_, rfl, rfl⟩
  obtain ⟨s, hexec, hcolor⟩ := hrun
  exact ⟨s, run_of_execWhere hexec, hcolor, (stamps_within_skew (run_of_execWhere hexec)).1⟩

/-- The PUT waits until 70 s and is clamped there: a stamp more than the skew past the last arrival,
and an override that arrives at 66 s, stamped on arrival, loses to it. -/
theorem waiting_put_runs_ahead :
    (waitingPut (70 * second)).Pairwise (fun r r' => r.arrivedAt ≤ r'.arrivedAt) ∧
    (∀ r ∈ waitingPut (70 * second), r.arrivedAt ≤ 60 * second ∧ r.arrivedAt ≤ r.clock) ∧
    ∃ s, FreeRun EditRequest.step (.fresh Table.empty 0) (waitingPut (70 * second)) s ∧
      (s.sync.override compilers).colorHex.updatedAt = some (75 * second) ∧
      ¬ s.StampsBy (60 * second + MAX_CLOCK_SKEW) ∧
      (overrideCourse s.sync none true (66 * second)
        ⟨some "#00ff00", none, none, none, none, none, some 0⟩ compilers).toOption.map
          (fun answer => answer.2.kept) = some [.colorHex] := by
  refine ⟨by decide, by decide, _, run_of_exec rfl, rfl, fun h => ?_, rfl⟩
  exact absurd ((h.sync.override compilers).fields .colorHex) (by decide)

end TigerDuck.Sync
