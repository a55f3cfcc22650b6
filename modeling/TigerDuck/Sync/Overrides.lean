import TigerDuck.Sync.Courses

/-!
# Course overrides

The two endpoints that write `user_course_overrides`: the override PATCH, `_override_course`
of `server/routes/overrides.py`, and the academics PUT, `put_course_override` of
`server/routes/academics.py`, with the name rules of `server/sync/merge.py` they share. Each
holds the user's sync lock from its first read to its commit, so each is one step on the
user's rows. The time it clamps to is read before that: on arrival for the PATCH.

Both find one course row; the key stands for the id, the Moodle id or the key they find it
by. The log entry and the sync trigger they queue are not part of the rows and are left out.
-/

namespace TigerDuck.Sync

open Relational

/-- `apply_course_name`: `apply_field` for one locale of `custom_names`. -/
def applyCourseName (o : UserCourseOverride) (locale name : String) (clientTs : Time)
    (deviceId : Option DeviceId) (now : Time) : UserCourseOverride × Bool :=
  let effectiveTs := clampTs clientTs now MAX_CLOCK_SKEW
  if (o.customNamesUpdatedAt.get locale).any (effectiveTs ≤ ·) then (o, false)
  else
    let changed := o.customNames.get locale != some name
    ({ o with
        customNames := if changed then o.customNames.set locale name else o.customNames
        customNamesUpdatedAt := o.customNamesUpdatedAt.set locale effectiveTs
        -- The latest stamp of any locale, for readers that predate the map.
        customNameUpdatedAt :=
          if beats effectiveTs o.customNameUpdatedAt then some effectiveTs
          else o.customNameUpdatedAt
        customNameDeviceId := deviceId },
      changed)

/-- `set_locale_less_name`: a name sent without a locale is the name in both locales the apps
read. -/
def setLocaleLessName (o : UserCourseOverride) (name : Option String) (clientTs : Time)
    (deviceId : Option DeviceId) (now : Time) : UserCourseOverride × Bool :=
  let (o, zh) := applyCourseName o "zh" (name.getD "") clientTs deviceId now
  let (o, en) := applyCourseName o "en" (name.getD "") clientTs deviceId now
  (o, zh || en)

/-- A field of an override the apps edit. -/
inductive OverrideField
  | colorHex
  | customName
  | ignoreAssignments
  deriving DecidableEq, Repr

/-- An override a request edits, and the fields it has changed. -/
structure OverrideEdits where
  override : UserCourseOverride
  changedFields : List OverrideField

namespace OverrideEdits

variable (e : OverrideEdits) (clientTs : Time) (deviceId : Option DeviceId) (now : Time)

/-- Note a field an edit has changed. -/
def note (e : OverrideEdits) (field : OverrideField) (changed : Bool) : OverrideEdits :=
  { e with changedFields := if changed then e.changedFields ++ [field] else e.changedFields }

def setColor (color : Option String) : OverrideEdits :=
  let (field, changed) := applyField e.override.colorHex color clientTs deviceId now
  note { e with override := { e.override with colorHex := field } } .colorHex changed

def setName (locale name : String) : OverrideEdits :=
  let (o, changed) := applyCourseName e.override locale name clientTs deviceId now
  note { e with override := o } .customName changed

def setBothNames (name : Option String) : OverrideEdits :=
  let (o, changed) := setLocaleLessName e.override name clientTs deviceId now
  note { e with override := o } .customName changed

def setIgnore (ignore : Bool) : OverrideEdits :=
  let (field, changed) := applyField e.override.ignoreAssignments ignore clientTs deviceId now
  note { e with override := { e.override with ignoreAssignments := field } } .ignoreAssignments
    changed

end OverrideEdits

/-- The override of the course, or the blank row a first edit adds. -/
def UserSync.override (u : UserSync) (key : CourseKey) : UserCourseOverride :=
  (u.overrides.get key).getD UserCourseOverride.blank

/-! ### The override PATCH -/

/-- A `CourseOverrideRequest`. -/
structure CourseOverrideRequest where
  colorHex : Option String
  customName : Option String
  locale : Option String
  ignoreAssignments : Option Bool
  moodleCourseId : Option Int
  hlc : Option Time
  ageMs : Option Int
  deriving DecidableEq, Repr

namespace CourseOverrideRequest

variable (payload : CourseOverrideRequest)

/-- The locale and the name it sets, when it names both. -/
def names : Option (String × String) :=
  (payload.locale.filter (· ≠ "")).bind fun locale => payload.customName.map (locale, ·)

/-- Whether it edits a stamped field. -/
def edits : Bool :=
  payload.colorHex.isSome || payload.names.isSome || payload.ignoreAssignments.isSome

/-- Whether it sends any value. -/
def sendsValue : Bool :=
  payload.colorHex.isSome || payload.customName.isSome || payload.locale.isSome ||
    payload.ignoreAssignments.isSome || payload.moodleCourseId.isSome

/-- The edits of its fields, each stamped `stamp`. -/
def apply (e : OverrideEdits) (stamp : Time) (deviceId : Option DeviceId) (now : Time) :
    OverrideEdits :=
  let e := payload.colorHex.elim e fun color => e.setColor stamp deviceId now (some color)
  let e := payload.names.elim e fun (locale, name) => e.setName stamp deviceId now locale name
  payload.ignoreAssignments.elim e fun ignore => e.setIgnore stamp deviceId now ignore

/-- The fields it sends, each with whether `o` holds what it sends. -/
def sent (o : UserCourseOverride) : List (OverrideField × Bool) :=
  (payload.colorHex.toList.map fun color => (.colorHex, o.colorHex.value == some color)) ++
    (payload.names.toList.map fun n => (.customName, o.customNames.get n.1 == some n.2)) ++
    payload.ignoreAssignments.toList.map fun ignore =>
      (.ignoreAssignments, o.ignoreAssignments.value == ignore)

end CourseOverrideRequest

/-- What the PATCH answers of the row, and which fields it applied, changed and kept. -/
structure CourseOverrideAnswer where
  override : UserCourseOverride
  applied : List OverrideField
  kept : List OverrideField
  changedFields : List OverrideField

/-- `_override_course` from the read of the course on. A reset of the course's term cleared
every choice stamped before it. -/
def overrideByStamp (u : UserSync) (deviceId : Option DeviceId) (now : Time)
    (payload : CourseOverrideRequest) (course : CourseKey) (stamp : Time) :
    UserSync × CourseOverrideAnswer :=
  let existing := u.override course
  let wins := beats stamp (u.resets.covering (some course.term))
  let edits : OverrideEdits :=
    if wins then payload.apply ⟨existing, []⟩ stamp deviceId now else ⟨existing, []⟩
  let o :=
    { edits.override with moodleCourseId := payload.moodleCourseId.or existing.moodleCourseId }
  let sent := (payload.sent o).map fun s => (s.1, wins && s.2)
  ({ u with overrides := u.overrides.set course o },
    { override := o
      applied := (sent.filter (·.2)).map Prod.fst
      kept := (sent.filter (!·.2)).map Prod.fst
      changedFields := edits.changedFields })

/-- `_override_course`. `course` is the row it finds once the lock is held. -/
def overrideCourse (u : UserSync) (deviceId : Option DeviceId) (speaksClock : Bool) (now : Time)
    (payload : CourseOverrideRequest) (course : CourseKey) :
    Except HttpError (UserSync × CourseOverrideAnswer) := do
  if payload.edits then requireStamp speaksClock payload.hlc payload.ageMs
  let stamp ← editTime payload.hlc now payload.ageMs
  if (u.courses.get course).isNone then throw ⟨404, "course_not_found"⟩
  return overrideByStamp u deviceId now payload course stamp

/-- `patch_course_override_v4`: any value sent needs a stamp. -/
def overrideCourseV4 (u : UserSync) (deviceId : Option DeviceId) (now : Time)
    (payload : CourseOverrideRequest) (course : CourseKey) :
    Except HttpError (UserSync × CourseOverrideAnswer) := do
  if payload.sendsValue then requireStamp true payload.hlc payload.ageMs
  overrideCourse u deviceId true now payload course

/-! ### The academics PUT -/

/-- A `CourseOverridePut`: a time marks an edit of its field. -/
structure CourseOverridePut where
  customName : Option String
  customNameUpdatedAt : Option Time
  colorHex : Option String
  colorHexUpdatedAt : Option Time
  ignoreAssignments : Option Bool
  ignoreAssignmentsUpdatedAt : Option Time
  moodleCourseId : Option Int
  /-- Unlike the name and colour, the setting has no null to clear to. -/
  ignore_edit_has_a_value : ignoreAssignmentsUpdatedAt.isSome → ignoreAssignments.isSome

/-- The edits of the PUT, the fields in the order of its loop. A time at or before the reset is
skipped: a field the reset found unstored has no stamp to refuse with. -/
def CourseOverridePut.apply (payload : CourseOverridePut) (e : OverrideEdits)
    (resetAt : Option Time) (deviceId : Option DeviceId) (now : Time) : OverrideEdits :=
  let edited : Option Time → Option Time := fun ts => ts.filter (beats · resetAt)
  let e := (edited payload.customNameUpdatedAt).elim e fun ts =>
    e.setBothNames ts deviceId now payload.customName
  let e := (edited payload.colorHexUpdatedAt).elim e fun ts =>
    e.setColor ts deviceId now payload.colorHex
  (edited payload.ignoreAssignmentsUpdatedAt).elim e fun ts =>
    payload.ignoreAssignments.elim e fun ignore => e.setIgnore ts deviceId now ignore

/-- `put_course_override`. `now` is read once the lock is held. -/
def putCourseOverride (u : UserSync) (deviceId : Option DeviceId) (now : Time)
    (payload : CourseOverridePut) (course : CourseKey) :
    Except HttpError (UserSync × UserCourseOverride × List OverrideField) := do
  if (u.courses.get course).isNone then throw ⟨404, "course not found"⟩
  let override := u.override course
  let edits := payload.apply ⟨override, []⟩ (u.resets.covering (some course.term)) deviceId now
  let o :=
    { edits.override with moodleCourseId := payload.moodleCourseId.or override.moodleCourseId }
  return ({ u with overrides := u.overrides.set course o }, o, edits.changedFields)

/-! ### The stamped fields of an override -/

/-- A field of an override with a stamp of its own: each locale's name has one. -/
inductive StampedField
  | colorHex
  | ignoreAssignments
  | customName (locale : String)
  deriving DecidableEq, Repr

/-- A stamped field as the stamp rules see it: whether it holds a value that is not empty, and
its stamp. -/
structure Register where
  filled : Bool
  stamp : Option Time
  deriving DecidableEq, Repr

/-- Offer the register a value at a stamp: it takes one later than its own. -/
def Register.offer (r : Register) (filled : Bool) (stamp : Time) : Register :=
  if beats stamp r.stamp then ⟨filled, some stamp⟩ else r

/-- What a request sends for a field: whether the value is not empty, and its time. -/
structure Sent where
  filled : Bool
  ts : Time
  deriving DecidableEq, Repr

/-- Offer the register what a request sends, clamped, unless a reset covers its time. -/
def Register.take (r : Register) (sent : Option Sent) (resetAt : Option Time) (now : Time) :
    Register :=
  match sent.filter fun s => beats s.ts resetAt with
  | some s => r.offer s.filled (clampTs s.ts now MAX_CLOCK_SKEW)
  | none => r

/-- The register of a field. -/
def UserCourseOverride.register (o : UserCourseOverride) : StampedField → Register
  | .colorHex => ⟨o.colorHex.value.isSome, o.colorHex.updatedAt⟩
  | .ignoreAssignments => ⟨o.ignoreAssignments.value, o.ignoreAssignments.updatedAt⟩
  | .customName locale =>
    ⟨(o.customNames.get locale).any (· ≠ ""), o.customNamesUpdatedAt.get locale⟩

@[simp]
theorem register_blank (f : StampedField) : UserCourseOverride.blank.register f = ⟨false, none⟩ := by
  cases f <;> rfl

/-- The registers do not see the Moodle id. -/
@[simp]
theorem register_moodleCourseId (o : UserCourseOverride) (id : Option Int) (f : StampedField) :
    ({ o with moodleCourseId := id } : UserCourseOverride).register f = o.register f := by
  cases f <;> rfl

/-- A stamp that does not beat the stored one lies at or before it. -/
theorem any_le_eq_not_beats (stamp : Time) (stored : Option Time) :
    stored.any (stamp ≤ ·) = !beats stamp stored := by
  rw [Bool.eq_iff_iff]
  cases stored <;> simp [beats]

/-- `apply_field` stores a later edit whole and leaves the field otherwise. -/
theorem applyField_fst {α : Type} [DecidableEq α] (field : Field α) (value : α) (clientTs : Time)
    (deviceId : Option DeviceId) (now : Time) :
    (applyField field value clientTs deviceId now).1 =
      if beats (clampTs clientTs now MAX_CLOCK_SKEW) field.updatedAt then
        ⟨value, some (clampTs clientTs now MAX_CLOCK_SKEW), deviceId⟩
      else field := by
  simp only [applyField, any_le_eq_not_beats]
  cases beats (clampTs clientTs now MAX_CLOCK_SKEW) field.updatedAt <;> rfl

section Registers

variable (e : OverrideEdits) (clientTs : Time) (deviceId : Option DeviceId) (now : Time)

/-- A locale's name is offered to the register of its locale. -/
theorem register_applyCourseName (o : UserCourseOverride) (locale name : String) (f : StampedField) :
    (applyCourseName o locale name clientTs deviceId now).1.register f =
      if f = .customName locale then
        (o.register f).offer (name ≠ "") (clampTs clientTs now MAX_CLOCK_SKEW)
      else o.register f := by
  simp only [applyCourseName, any_le_eq_not_beats]
  cases hbeats : beats (clampTs clientTs now MAX_CLOCK_SKEW) (o.customNamesUpdatedAt.get locale) with
  | false =>
    by_cases hf : f = .customName locale
    · subst hf
      simp [UserCourseOverride.register, Register.offer, hbeats]
    · simp [hf]
  | true =>
    cases f with
    | colorHex => simp [UserCourseOverride.register]
    | ignoreAssignments => simp [UserCourseOverride.register]
    | customName other =>
      by_cases hlocale : other = locale
      · subst hlocale
        by_cases hsame : o.customNames.get other = some name
        · simp [UserCourseOverride.register, Register.offer, hbeats, hsame]
        · simp [UserCourseOverride.register, Register.offer, hbeats, hsame]
      · by_cases hsame : o.customNames.get locale = some name
        · simp [UserCourseOverride.register, hlocale, hsame]
        · simp [UserCourseOverride.register, hlocale, hsame]

theorem register_setColor (color : Option String) (f : StampedField) :
    (e.setColor clientTs deviceId now color).override.register f =
      if f = .colorHex then
        (e.override.register f).offer color.isSome (clampTs clientTs now MAX_CLOCK_SKEW)
      else e.override.register f := by
  simp only [OverrideEdits.setColor, OverrideEdits.note, applyField_fst]
  cases f with
  | colorHex =>
    cases hbeats : beats (clampTs clientTs now MAX_CLOCK_SKEW) e.override.colorHex.updatedAt <;>
      simp [UserCourseOverride.register, Register.offer, hbeats]
  | ignoreAssignments => simp [UserCourseOverride.register]
  | customName locale => simp [UserCourseOverride.register]

theorem register_setIgnore (ignore : Bool) (f : StampedField) :
    (e.setIgnore clientTs deviceId now ignore).override.register f =
      if f = .ignoreAssignments then
        (e.override.register f).offer ignore (clampTs clientTs now MAX_CLOCK_SKEW)
      else e.override.register f := by
  simp only [OverrideEdits.setIgnore, OverrideEdits.note, applyField_fst]
  cases f with
  | colorHex => simp [UserCourseOverride.register]
  | ignoreAssignments =>
    cases hbeats :
      beats (clampTs clientTs now MAX_CLOCK_SKEW) e.override.ignoreAssignments.updatedAt <;>
      simp [UserCourseOverride.register, Register.offer, hbeats]
  | customName locale => simp [UserCourseOverride.register]

theorem register_setName (locale name : String) (f : StampedField) :
    (e.setName clientTs deviceId now locale name).override.register f =
      if f = .customName locale then
        (e.override.register f).offer (name ≠ "") (clampTs clientTs now MAX_CLOCK_SKEW)
      else e.override.register f :=
  register_applyCourseName clientTs deviceId now e.override locale name f

/-- A name without a locale is offered to the registers of the two the apps read. -/
theorem register_setBothNames (name : Option String) (f : StampedField) :
    (e.setBothNames clientTs deviceId now name).override.register f =
      if f = .customName "zh" ∨ f = .customName "en" then
        (e.override.register f).offer (name.getD "" ≠ "") (clampTs clientTs now MAX_CLOCK_SKEW)
      else e.override.register f := by
  simp only [OverrideEdits.setBothNames, OverrideEdits.note, setLocaleLessName,
    register_applyCourseName]
  by_cases hzh : f = .customName "zh"
  · subst hzh
    simp
  · by_cases hen : f = .customName "en"
    · subst hen
      simp
    · simp [hzh, hen]

end Registers

/-- What the PATCH sends for a field, each value with the request's stamp. -/
def CourseOverrideRequest.sends (payload : CourseOverrideRequest) (stamp : Time) :
    StampedField → Option Sent
  | .colorHex => payload.colorHex.map fun _ => ⟨true, stamp⟩
  | .ignoreAssignments => payload.ignoreAssignments.map fun ignore => ⟨ignore, stamp⟩
  | .customName locale =>
    (payload.names.filter (·.1 = locale)).map fun n => ⟨n.2 ≠ "", stamp⟩

/-- What the PUT sends for a field: a value edited has a time. -/
def CourseOverridePut.sends (payload : CourseOverridePut) : StampedField → Option Sent
  | .colorHex => payload.colorHexUpdatedAt.map fun ts => ⟨payload.colorHex.isSome, ts⟩
  | .ignoreAssignments =>
    payload.ignoreAssignments.bind fun ignore =>
      payload.ignoreAssignmentsUpdatedAt.map fun ts => ⟨ignore, ts⟩
  | .customName locale =>
    if locale = "zh" ∨ locale = "en" then
      payload.customNameUpdatedAt.map fun ts => ⟨payload.customName.getD "" ≠ "", ts⟩
    else none

/-- Without anything sent a register stays. -/
@[simp]
theorem Register.take_none (r : Register) (resetAt : Option Time) (now : Time) :
    r.take none resetAt now = r := rfl

/-- What a reset does not cover is offered. -/
theorem Register.take_some (r : Register) (s : Sent) (resetAt : Option Time) (now : Time) :
    r.take (some s) resetAt now =
      if beats s.ts resetAt then r.offer s.filled (clampTs s.ts now MAX_CLOCK_SKEW) else r := by
  cases hbeats : beats s.ts resetAt <;> simp [Register.take, Option.filter, hbeats]

/-- An edit that may be missing, seen from a register. -/
theorem register_elim {α : Type} (edit : Option α) (e : OverrideEdits) (g : α → OverrideEdits)
    (f : StampedField) :
    (edit.elim e g).override.register f =
      edit.elim (e.override.register f) fun a => (g a).override.register f := by
  cases edit <;> rfl

/-- An edit of another field, missing or not, leaves a register. -/
theorem elim_same {α β : Type} (edit : Option α) (b : β) : edit.elim b (fun _ => b) = b := by
  cases edit <;> rfl

/-- The edits of the PATCH offer each field what it sends. -/
theorem register_patch (payload : CourseOverrideRequest) (e : OverrideEdits) (stamp : Time)
    (deviceId : Option DeviceId) (now : Time) (f : StampedField) :
    (payload.apply e stamp deviceId now).override.register f =
      (e.override.register f).take (payload.sends stamp f) none now := by
  have hnone : beats stamp none = true := rfl
  simp only [CourseOverrideRequest.apply, register_elim, register_setIgnore, register_setName,
    register_setColor]
  cases f with
  | colorHex =>
    cases hcolor : payload.colorHex <;>
      simp [CourseOverrideRequest.sends, elim_same, Register.take_some, hcolor, hnone]
  | ignoreAssignments =>
    cases hignore : payload.ignoreAssignments <;>
      simp [CourseOverrideRequest.sends, elim_same, Register.take_some, hignore, hnone]
  | customName locale =>
    cases hnames : payload.names with
    | none => simp [CourseOverrideRequest.sends, elim_same, hnames]
    | some n =>
      by_cases hlocale : locale = n.1
      · simp [CourseOverrideRequest.sends, elim_same, Register.take_some, hnames, hlocale, hnone,
          Option.filter]
      · have hother : ¬ n.1 = locale := fun h => hlocale h.symm
        simp [CourseOverrideRequest.sends, elim_same, hnames, hlocale, hother, Option.filter]

/-- All that the PATCH sends has the request's stamp. -/
theorem ts_of_sends {payload : CourseOverrideRequest} {stamp : Time} {f : StampedField} {s : Sent}
    (h : payload.sends stamp f = some s) : s.ts = stamp := by
  cases f <;> obtain ⟨_, _, rfl⟩ := Option.map_eq_some_iff.mp h <;> rfl

/-- The PATCH offers each field what it sends, unless a reset covers its stamp. -/
theorem register_overrideByStamp (u : UserSync) (deviceId : Option DeviceId) (now : Time)
    (payload : CourseOverrideRequest) (course : CourseKey) (stamp : Time) (f : StampedField) :
    ((overrideByStamp u deviceId now payload course stamp).1.override course).register f =
      ((u.override course).register f).take (payload.sends stamp f)
        (u.resets.covering (some course.term)) now := by
  have hget : (overrideByStamp u deviceId now payload course stamp).1.override course =
      (overrideByStamp u deviceId now payload course stamp).2.override := by
    simp [overrideByStamp, UserSync.override]
  rw [hget]
  simp only [overrideByStamp, register_moodleCourseId]
  cases hsends : payload.sends stamp f with
  | none =>
    split
    · rw [register_patch, hsends, Register.take_none, Register.take_none]
    · rfl
  | some s =>
    rw [Register.take_some, ts_of_sends hsends]
    split
    · rw [register_patch, hsends, Register.take_some, ts_of_sends hsends]
      rfl
    · rfl

/-- A value is taken when it is sent with a time that the reset does not cover. -/
theorem take_map (r : Register) (ts : Option Time) (filled : Bool) (resetAt : Option Time)
    (now : Time) :
    r.take (ts.map fun ts => ⟨filled, ts⟩) resetAt now =
      (ts.filter (beats · resetAt)).elim r fun ts =>
        r.offer filled (clampTs ts now MAX_CLOCK_SKEW) := by
  cases ts with
  | none => rfl
  | some ts => cases hbeats : beats ts resetAt <;> simp [Register.take, Option.filter, hbeats]

/-- The edits of the PUT offer each field what it sends, unless a reset covers its time. -/
theorem register_put (payload : CourseOverridePut) (e : OverrideEdits) (resetAt : Option Time)
    (deviceId : Option DeviceId) (now : Time) (f : StampedField) :
    (payload.apply e resetAt deviceId now).override.register f =
      (e.override.register f).take (payload.sends f) resetAt now := by
  simp only [CourseOverridePut.apply, register_elim, register_setIgnore, register_setBothNames,
    register_setColor]
  cases f with
  | colorHex => simp [CourseOverridePut.sends, elim_same, take_map]
  | ignoreAssignments =>
    cases hignore : payload.ignoreAssignments <;>
      simp [CourseOverridePut.sends, elim_same, take_map, hignore]
  | customName locale =>
    by_cases hlocale : locale = "zh" ∨ locale = "en" <;>
      simp [CourseOverridePut.sends, elim_same, take_map, hlocale]

end TigerDuck.Sync
