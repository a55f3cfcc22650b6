import TigerDuck.Relational.LastWriter
import TigerDuck.Sync.ResetFinality

/-!
# Overrides converge with resets

A course row that no reset takes away keeps its override, and each field of it (the colour, the
ignore flag, the name of a locale) behaves as a last-writer register: an edit by the override PATCH
writes its value, and a reset that covers the course writes the empty one. A reset does not reach
the registers directly: it empties and stamps what it finds, and its own stamp, stored apart, keeps
out the older edits that arrive late. So what a field is compared with is the later of its stamp and
of the covering reset (`Follows`).

## Main results

- `Follows.apply`: the stored override keeps following the registers.
- `overrides_converge`: whatever the order and the repetitions, a field shows the latest edit, or
  nothing when a covering reset is later.
-/

namespace TigerDuck.Sync

open Relational LastWriter

/-- What a field shows: a cleared value and one never set are the same. -/
inductive Value
  | empty
  | color (hex : String)
  | ignored
  | name (text : String)
  deriving DecidableEq, Repr

namespace Value

def ofColor (color : Option String) : Value := color.elim empty Value.color

def ofIgnore (ignore : Bool) : Value := if ignore then ignored else empty

def ofName (text : String) : Value := if text = "" then empty else name text

end Value

/-- What a field of an override shows. -/
def UserCourseOverride.effective (o : UserCourseOverride) : StampedField → Value
  | .colorHex => Value.ofColor o.colorHex.value
  | .ignoreAssignments => Value.ofIgnore o.ignoreAssignments.value
  | .customName locale => (o.customNames.get locale).elim .empty Value.ofName

/-- The stamp of a field of an override. -/
def UserCourseOverride.stampOf (o : UserCourseOverride) (f : StampedField) : Option Time :=
  (o.register f).stamp

/-- What the PATCH sends for a field. -/
def CourseOverrideRequest.value (payload : CourseOverrideRequest) : StampedField → Option Value
  | .colorHex => payload.colorHex.map Value.color
  | .ignoreAssignments => payload.ignoreAssignments.map Value.ofIgnore
  | .customName locale => (payload.names.filter (·.1 = locale)).map fun n => Value.ofName n.2

/-- An edit of a course's override, or a protocol-2 reset. -/
inductive OverrideEdit
  | patch (deviceId : Option DeviceId) (speaksClock : Bool) (now : Time)
      (payload : CourseOverrideRequest) (course : CourseKey)
  | patchV4 (deviceId : Option DeviceId) (now : Time) (payload : CourseOverrideRequest)
      (course : CourseKey)
  | reset (deviceId : Option DeviceId) (now : Time) (semester : Option Term) (hlc : Option Time)
      (ageMs : Option Int)

/-- What an edit or a reset writes to a field. -/
inductive Written
  | edit (value : Value)
  | reset
  deriving DecidableEq, Repr

namespace Written

def value : Written → Value
  | edit v => v
  | reset => .empty

/-- A reset also clears what was written at its own instant. -/
def ties : Written → Bool
  | edit _ => false
  | reset => true

end Written

/-- The stamp a PATCH is read with, unless it is refused. -/
def CourseOverrideRequest.readStamp (payload : CourseOverrideRequest) (speaksClock : Bool)
    (now : Time) : Option Time :=
  match if payload.edits then requireStamp speaksClock payload.hlc payload.ageMs else .ok () with
  | .ok _ => (editTime payload.hlc now payload.ageMs).toOption
  | .error _ => none

namespace OverrideEdit

/-- The rows after it. -/
def apply (u : UserSync) : OverrideEdit → UserSync
  | patch deviceId speaksClock now payload course =>
    Request.keep u (overrideCourse u deviceId speaksClock now payload course)
  | patchV4 deviceId now payload course =>
    Request.keep u (overrideCourseV4 u deviceId now payload course)
  | reset deviceId now semester hlc ageMs =>
    Request.keep u (deleteAllCourses u deviceId true now semester hlc ageMs)

/-- The rows after a list of them, in order. -/
def applyAll (u : UserSync) (edits : List OverrideEdit) : UserSync := edits.foldl apply u

/-- The stamp of an edit that is not refused for its stamp. -/
def stamp : OverrideEdit → Option Time
  | patch _ speaksClock now payload _ => payload.readStamp speaksClock now
  | patchV4 _ now payload _ =>
    if payload.sendsValue ∧ (requireStamp true payload.hlc payload.ageMs).isOk = false then none
    else payload.readStamp true now
  | reset _ now _ hlc ageMs => Request.readStamp hlc now ageMs

/-- What it writes to a field of the course. -/
def written (key : CourseKey) (f : StampedField) : OverrideEdit → Option Written
  | patch _ _ _ payload course => if course = key then (payload.value f).map .edit else none
  | patchV4 _ _ payload course => if course = key then (payload.value f).map .edit else none
  | reset _ _ semester _ _ => if inScope semester key then some .reset else none

/-- What it writes to a field of the course, with its stamp. -/
def write (key : CourseKey) (f : StampedField) (r : OverrideEdit) : Option (Time × Written) :=
  r.stamp.bind fun stamp => (r.written key f).map fun w => (stamp, w)

/-- A reset of the course lies before its add. -/
def SparesAdd (key : CourseKey) (addedAt : Time) (r : OverrideEdit) : Prop :=
  match r with
  | reset _ _ semester _ _ => inScope semester key → ∀ stamp, r.stamp = some stamp → stamp < addedAt
  | _ => True

end OverrideEdit

/-! ### What a PATCH does to a field -/

/-- Offer a field a value at a stamp: it takes one later than its own. -/
def offered (current : Value × Option Time) (v : Value) (stamp : Time) : Value × Option Time :=
  if beats stamp current.2 then (v, some stamp) else current

/-- What a field shows, with its stamp. -/
def UserCourseOverride.cell (o : UserCourseOverride) (f : StampedField) : Value × Option Time :=
  (o.effective f, o.stampOf f)

@[simp]
theorem cell_moodleCourseId (o : UserCourseOverride) (id : Option Int) (f : StampedField) :
    ({ o with moodleCourseId := id } : UserCourseOverride).cell f = o.cell f := by
  cases f <;> rfl

section Patch

variable (e : OverrideEdits) {stamp now : Time} (deviceId : Option DeviceId)
  (hstamp : stamp ≤ now + MAX_CLOCK_SKEW)

include hstamp

/-- A stamp read from its own arrival is not clamped. -/
theorem clampTs_of_le : clampTs stamp now MAX_CLOCK_SKEW = stamp := min_eq_left hstamp

theorem cell_setColor (color : Option String) (f : StampedField) :
    (e.setColor stamp deviceId now color).override.cell f =
      if f = .colorHex then offered (e.override.cell f) (Value.ofColor color) stamp
      else e.override.cell f := by
  simp only [OverrideEdits.setColor, OverrideEdits.note, applyField_fst, clampTs_of_le hstamp]
  cases f with
  | colorHex =>
    cases hbeats : beats stamp e.override.colorHex.updatedAt <;>
      simp [UserCourseOverride.cell, UserCourseOverride.effective, UserCourseOverride.stampOf,
        UserCourseOverride.register, offered, hbeats]
  | ignoreAssignments => rfl
  | customName locale => rfl

theorem cell_setIgnore (ignore : Bool) (f : StampedField) :
    (e.setIgnore stamp deviceId now ignore).override.cell f =
      if f = .ignoreAssignments then offered (e.override.cell f) (Value.ofIgnore ignore) stamp
      else e.override.cell f := by
  simp only [OverrideEdits.setIgnore, OverrideEdits.note, applyField_fst, clampTs_of_le hstamp]
  cases f with
  | colorHex => rfl
  | ignoreAssignments =>
    cases hbeats : beats stamp e.override.ignoreAssignments.updatedAt <;>
      simp [UserCourseOverride.cell, UserCourseOverride.effective, UserCourseOverride.stampOf,
        UserCourseOverride.register, offered, hbeats]
  | customName locale => rfl

/-- A name goes to its own locale. A name sent again only moves the stamp. -/
theorem cell_setName (locale name : String) (f : StampedField) :
    (e.setName stamp deviceId now locale name).override.cell f =
      if f = .customName locale then offered (e.override.cell f) (Value.ofName name) stamp
      else e.override.cell f := by
  simp only [OverrideEdits.setName, OverrideEdits.note, applyCourseName, any_le_eq_not_beats,
    clampTs_of_le hstamp]
  cases hbeats : beats stamp (e.override.customNamesUpdatedAt.get locale) with
  | false =>
    by_cases hf : f = .customName locale
    · subst hf
      simp [UserCourseOverride.cell, UserCourseOverride.stampOf, UserCourseOverride.register,
        offered, hbeats]
    · simp [hf]
  | true =>
    cases f with
    | colorHex => rfl
    | ignoreAssignments => rfl
    | customName other =>
      by_cases hlocale : other = locale
      · subst hlocale
        by_cases hsame : e.override.customNames.get other = some name <;>
          simp [UserCourseOverride.cell, UserCourseOverride.effective, UserCourseOverride.stampOf,
            UserCourseOverride.register, offered, hbeats, hsame]
      · by_cases hsame : e.override.customNames.get locale = some name <;>
          simp [UserCourseOverride.cell, UserCourseOverride.effective, UserCourseOverride.stampOf,
            UserCourseOverride.register, hlocale, hsame]

/-- An edit that may be missing, seen from a field. -/
theorem cell_patch (payload : CourseOverrideRequest) (f : StampedField) :
    (payload.apply e stamp deviceId now).override.cell f =
      (payload.value f).elim (e.override.cell f) fun v => offered (e.override.cell f) v stamp := by
  have helim : ∀ {α : Type} (edit : Option α) (e : OverrideEdits) (g : α → OverrideEdits),
      (edit.elim e g).override.cell f =
        edit.elim (e.override.cell f) fun a => (g a).override.cell f := by
    intro α edit e g
    cases edit <;> rfl
  simp only [CourseOverrideRequest.apply, helim, cell_setIgnore _ deviceId hstamp,
    cell_setName _ deviceId hstamp, cell_setColor _ deviceId hstamp]
  cases f with
  | colorHex =>
    cases hcolor : payload.colorHex <;>
      simp [CourseOverrideRequest.value, elim_same, hcolor, Value.ofColor]
  | ignoreAssignments =>
    cases hignore : payload.ignoreAssignments <;>
      simp [CourseOverrideRequest.value, elim_same, hignore]
  | customName locale =>
    cases hnames : payload.names with
    | none => simp [CourseOverrideRequest.value, elim_same, hnames]
    | some n =>
      by_cases hlocale : locale = n.1
      · simp [CourseOverrideRequest.value, elim_same, hnames, hlocale, Option.filter]
      · have hother : ¬ n.1 = locale := fun h => hlocale h.symm
        simp [CourseOverrideRequest.value, elim_same, hnames, hlocale, hother, Option.filter]

end Patch

/-! ### What a reset does to a field -/

/-- A reset empties what is stamped at or before it, and stamps no later than itself. -/
theorem cell_clearOverrideBefore (o : UserCourseOverride) (resetAt : Time) (f : StampedField) :
    if atOrBefore (o.stampOf f) resetAt then
      (clearOverrideBefore o resetAt).1.effective f = .empty ∧
        bound ((clearOverrideBefore o resetAt).1.stampOf f) ≤ resetAt + 1
    else (clearOverrideBefore o resetAt).1.cell f = o.cell f := by
  cases f with
  | colorHex =>
    simp only [UserCourseOverride.cell, UserCourseOverride.effective, UserCourseOverride.stampOf,
      UserCourseOverride.register, colorHex_clearOverrideBefore]
    cases hstamp : atOrBefore o.colorHex.updatedAt resetAt with
    | false => simp
    | true =>
      cases hvalue : o.colorHex.value <;> cases hts : o.colorHex.updatedAt <;>
        simp [Value.ofColor, hvalue, hts]
  | ignoreAssignments =>
    simp only [UserCourseOverride.cell, UserCourseOverride.effective, UserCourseOverride.stampOf,
      UserCourseOverride.register, ignoreAssignments_clearOverrideBefore]
    cases hstamp : atOrBefore o.ignoreAssignments.updatedAt resetAt with
    | false => simp
    | true =>
      cases hvalue : o.ignoreAssignments.value <;> cases hts : o.ignoreAssignments.updatedAt <;>
        simp [Value.ofIgnore, hvalue, hts]
  | customName locale =>
    obtain ⟨hname, hts⟩ := get_clearOverrideBefore o resetAt locale
    simp only [UserCourseOverride.cell, UserCourseOverride.effective, UserCourseOverride.stampOf,
      UserCourseOverride.register, hname, hts]
    have hcleared : locale ∈ clearedLocales o resetAt ↔
        ((o.customNames.get locale).isSome ∨ (o.customNamesUpdatedAt.get locale).isSome) ∧
          (o.customNamesUpdatedAt.get locale).getD 0 ≤ resetAt := by
      simp [clearedLocales, Table.mem_keys_iff, or_and_right]
    cases hget : o.customNamesUpdatedAt.get locale with
    | none =>
      cases hold : o.customNames.get locale <;>
        simp [hcleared, hget, hold, atOrBefore, Value.ofName]
    | some ts =>
      by_cases hle : ts ≤ resetAt <;>
        simp [hcleared, hget, hle, atOrBefore, Value.ofName]

/-! ### The latest stamp of the names -/

/-- `custom_name_updated_at` is the latest stamp of any locale. -/
def UserCourseOverride.NameStampLatest (o : UserCourseOverride) : Prop :=
  o.customNameUpdatedAt = (o.customNamesUpdatedAt.rows.map Prod.snd).max?

/-- The greatest of a table's stamps. -/
theorem max?_rows_eq_some_iff {stamps : Table String Time} {t : Time} :
    (stamps.rows.map Prod.snd).max? = some t ↔
      (∃ locale, stamps.get locale = some t) ∧
        ∀ locale t', stamps.get locale = some t' → t' ≤ t := by
  rw [List.max?_eq_some_iff]
  simp only [List.mem_map, Prod.exists, exists_eq_right, Table.get_eq_some_iff]
  exact and_congr_right' ⟨fun h locale t' hmem => h t' ⟨locale, hmem⟩,
    fun h t' ⟨locale, hmem⟩ => h locale t' hmem⟩

theorem max?_rows_eq_none_iff {stamps : Table String Time} :
    (stamps.rows.map Prod.snd).max? = none ↔ ∀ locale, stamps.get locale = none := by
  simp only [List.max?_eq_none_iff, List.map_eq_nil_iff, Table.get_eq_none_iff, Table.keys]
  constructor
  · intro hnil locale
    simp [hnil]
  · intro hnone
    refine List.eq_nil_iff_forall_not_mem.mpr fun r hr => hnone r.1 (List.mem_map_of_mem hr)

theorem nameStampLatest_blank : UserCourseOverride.blank.NameStampLatest := rfl

/-- A locale's later stamp is the latest of all, or another locale's is. -/
theorem UserCourseOverride.NameStampLatest.applyCourseName {o : UserCourseOverride} (h : o.NameStampLatest)
    (locale name : String) (clientTs : Time) (deviceId : Option DeviceId) (now : Time) :
    (applyCourseName o locale name clientTs deviceId now).1.NameStampLatest := by
  simp only [Sync.applyCourseName, any_le_eq_not_beats]
  cases hbeats : beats (clampTs clientTs now MAX_CLOCK_SKEW) (o.customNamesUpdatedAt.get locale) with
  | false => simpa using h
  | true =>
    generalize clampTs clientTs now MAX_CLOCK_SKEW = ts at *
    have hown : ∀ t, o.customNamesUpdatedAt.get locale = some t → t < ts := by
      intro t ht
      simpa [ht, beats] using hbeats
    simp only [UserCourseOverride.NameStampLatest, Bool.not_true, Bool.false_eq_true, if_false]
    cases hlatest : o.customNameUpdatedAt with
    | none =>
      have hnone := max?_rows_eq_none_iff.mp (h.symm.trans hlatest)
      refine Eq.symm (max?_rows_eq_some_iff.mpr ⟨⟨locale, by simp⟩, fun other t' ht' => ?_⟩)
      rw [Table.get_set] at ht'
      split at ht'
      · exact (Option.some.inj ht').ge
      · rw [hnone] at ht'
        cases ht'
    | some latest =>
      obtain ⟨⟨holder, hholder⟩, hmax⟩ := max?_rows_eq_some_iff.mp (h.symm.trans hlatest)
      by_cases hlater : latest < ts
      · have hts : beats ts (some latest) = true := by simpa [beats] using hlater
        rw [hts, if_pos rfl]
        refine Eq.symm (max?_rows_eq_some_iff.mpr ⟨⟨locale, by simp⟩, fun other t' ht' => ?_⟩)
        rw [Table.get_set] at ht'
        split at ht'
        · exact (Option.some.inj ht').ge
        · exact (hmax other t' ht').trans hlater.le
      · have hts : beats ts (some latest) = false := by simpa [beats] using hlater
        rw [hts, if_neg Bool.false_ne_true]
        -- The holder of the latest stamp is another locale.
        have hne : holder ≠ locale := by
          rintro rfl
          exact hlater (hown latest hholder)
        refine Eq.symm (max?_rows_eq_some_iff.mpr ⟨⟨holder, by simp [hne, hholder]⟩, ?_⟩)
        intro other t' ht'
        rw [Table.get_set] at ht'
        split at ht'
        · obtain rfl := Option.some.inj ht'
          exact Nat.not_lt.mp hlater
        · exact hmax other t' ht'

theorem UserCourseOverride.NameStampLatest.patch {e : OverrideEdits} (h : e.override.NameStampLatest)
    (payload : CourseOverrideRequest) (stamp : Time) (deviceId : Option DeviceId) (now : Time) :
    (payload.apply e stamp deviceId now).override.NameStampLatest := by
  have helim : ∀ {α : Type} (edit : Option α) {e : OverrideEdits} {g : α → OverrideEdits},
      e.override.NameStampLatest → (∀ a, (g a).override.NameStampLatest) →
        (edit.elim e g).override.NameStampLatest := by
    intro α edit e g he hg
    cases edit with
    | none => exact he
    | some a => exact hg a
  have hcolor : (payload.colorHex.elim e fun color =>
      e.setColor stamp deviceId now (some color)).override.NameStampLatest :=
    helim _ h fun _ => h
  have hnames := helim payload.names (g := fun n => (payload.colorHex.elim e fun color =>
      e.setColor stamp deviceId now (some color)).setName stamp deviceId now n.1 n.2) hcolor
    fun n => hcolor.applyCourseName n.1 n.2 stamp deviceId now
  exact helim payload.ignoreAssignments hnames fun _ => hnames

theorem UserCourseOverride.NameStampLatest.clearOverrideBefore {o : UserCourseOverride} (h : o.NameStampLatest)
    (resetAt : Time) : (clearOverrideBefore o resetAt).1.NameStampLatest := by
  simp only [Sync.clearOverrideBefore]
  cases hcleared : clearedLocales o resetAt with
  | nil =>
    simp only [List.isEmpty_nil, if_true]
    split <;> split <;> exact h
  | cons locale rest => rfl

/-! ### Following the registers -/

/-- What a list of writes leaves shows this. -/
def shown (register : LastWriter.Register Time Written) : Value := register.elim .empty fun w => w.2.value

/-- A field of the course follows its register. -/
structure Follows (u : UserSync) (key : CourseKey) (f : StampedField)
    (register : LastWriter.Register Time Written) : Prop where
  /-- It shows what the register holds. -/
  value : (u.override key).effective f = shown register
  /-- The later of its stamp and of the covering reset is the register's. -/
  stamp : max (bound ((u.override key).stampOf f)) (bound (u.resets.covering (some key.term))) =
    bound (register.map Prod.fst)
  /-- A value is stamped after the covering reset. -/
  outlasts : (u.override key).effective f ≠ .empty →
    bound (u.resets.covering (some key.term)) < bound ((u.override key).stampOf f)

/-- An edit replaces only what is older. -/
theorem record_edit (register : LastWriter.Register Time Written) (stamp : Time) (v : Value) :
    register.record Written.ties (stamp, .edit v) =
      if bound (register.map Prod.fst) ≤ stamp then some (stamp, .edit v) else register := by
  refine if_congr ?_ rfl rfl
  cases register with
  | none => simp [Register.Yields]
  | some w =>
    have hlater : w.1 < stamp ↔ bound (some w.1) ≤ stamp := Iff.rfl
    simpa [Register.Yields, Written.ties] using hlater

/-- A reset also replaces what is of its own instant. -/
theorem record_clear (register : LastWriter.Register Time Written) (stamp : Time) :
    register.record Written.ties (stamp, .reset) =
      if bound (register.map Prod.fst) ≤ stamp + 1 then some (stamp, .reset) else register := by
  refine if_congr ?_ rfl rfl
  cases register with
  | none => simp [Register.Yields]
  | some w =>
    have hiff : (w.1 < stamp ∨ w.1 ≤ stamp) ↔ w.1 ≤ stamp := or_iff_right_of_imp le_of_lt
    simp [Register.Yields, Written.ties, hiff]

section Follows

variable {u v : UserSync} {key : CourseKey} {f : StampedField} {register : LastWriter.Register Time Written}

/-- Whether a field follows depends on the field and on the covering reset. -/
theorem Follows.congr (h : Follows u key f register)
    (hcell : (v.override key).cell f = (u.override key).cell f)
    (hreset : bound (v.resets.covering (some key.term)) =
      bound (u.resets.covering (some key.term))) : Follows v key f register := by
  obtain ⟨hvalue, hstamp⟩ := Prod.mk.inj hcell
  exact ⟨hvalue.trans h.value, by rw [hstamp, hreset]; exact h.stamp,
    by rw [hvalue, hstamp, hreset]; exact h.outlasts⟩

/-- The PATCH of a stamp that it is read with. -/
theorem cell_overrideByStamp (u : UserSync) (deviceId : Option DeviceId) {now stamp : Time}
    (hstamp : stamp ≤ now + MAX_CLOCK_SKEW) (payload : CourseOverrideRequest) (key : CourseKey)
    (f : StampedField) :
    ((overrideByStamp u deviceId now payload key stamp).1.override key).cell f =
      if beats stamp (u.resets.covering (some key.term)) then
        (payload.value f).elim ((u.override key).cell f) fun v =>
          offered ((u.override key).cell f) v stamp
      else (u.override key).cell f := by
  have hget : (overrideByStamp u deviceId now payload key stamp).1.override key =
      (overrideByStamp u deviceId now payload key stamp).2.override := by
    simp [overrideByStamp, UserSync.override]
  rw [hget]
  simp only [overrideByStamp, cell_moodleCourseId]
  split
  · exact cell_patch ⟨u.override key, []⟩ deviceId hstamp payload f
  · rfl

/-- An edit of the course is a write of the field's register, if it sends the field. -/
theorem Follows.overrideByStamp (h : Follows u key f register) (deviceId : Option DeviceId)
    {now stamp : Time} (hstamp : stamp ≤ now + MAX_CLOCK_SKEW) (payload : CourseOverrideRequest) :
    Follows (overrideByStamp u deviceId now payload key stamp).1 key f
      ((payload.value f).elim register fun v =>
        register.record Written.ties (stamp, .edit v)) := by
  have hcell := cell_overrideByStamp u deviceId hstamp payload key f
  have hresets : (Sync.overrideByStamp u deviceId now payload key stamp).1.resets = u.resets := rfl
  cases hvalue : payload.value f with
  | none =>
    rw [hvalue, Option.elim_none, ite_self] at hcell
    exact h.congr hcell (by rw [hresets])
  | some v =>
    rw [hvalue, Option.elim_some] at hcell
    rw [Option.elim_some, record_edit, ← h.stamp]
    by_cases hlate : max (bound ((u.override key).stampOf f))
        (bound (u.resets.covering (some key.term))) ≤ stamp
    · -- Later than the field and than the covering reset: the value is taken.
      obtain ⟨hfield, hcovering⟩ := max_le_iff.mp hlate
      have hlater : beats stamp ((u.override key).cell f).2 = true := (beats_iff _ _).mpr hfield
      rw [if_pos ((beats_iff _ _).mpr hcovering), offered, if_pos hlater] at hcell
      obtain ⟨hshown, hnew⟩ := Prod.mk.inj hcell
      rw [if_pos hlate]
      refine ⟨hshown, ?_, fun _ => ?_⟩
      · rw [hnew, hresets, bound_some]
        exact max_eq_left (hcovering.trans (Nat.le_succ stamp))
      · rw [hnew, hresets, bound_some]
        exact Nat.lt_succ_of_le hcovering
    · rw [if_neg hlate]
      refine h.congr (hcell.trans ?_) (by rw [hresets])
      split
      next hbeats =>
        have hcovering := (beats_iff _ _).mp hbeats
        have hfield : ¬ beats stamp ((u.override key).cell f).2 = true := fun hlater =>
          hlate (max_le ((beats_iff _ _).mp hlater) hcovering)
        rw [offered, if_neg hfield]
      next => rfl

/-- What a reset makes of the override of a row it keeps. -/
theorem override_clearByStamp (deviceId : Option DeviceId) {semester : Option Term} (stamp : Time)
    {row : UserCourse} (hrow : u.courses.get key = some row)
    (hkeeps : resetTakes u semester stamp key row = false)
    (hscope : inScope semester key = true) :
    (clearByStamp u deviceId semester stamp).1.override key =
      (clearOverrideBefore (u.override key) stamp).1 := by
  have hget : (clearByStamp u deviceId semester stamp).1.overrides.get key =
      (u.overrides.get key).map fun o => (clearOverrideBefore o stamp).1 := by
    simp only [clearByStamp, UserSync.appendChanges, Table.get_modify, Table.get_deleteWhere,
      hrow, hscope, Option.any_some, hkeeps]
    cases u.overrides.get key with
    | none => rfl
    | some o => simp [Option.filter, clearBefore]
  rw [UserSync.override, UserSync.override, hget]
  cases u.overrides.get key <;> rfl

/-- A reset of the course is a write of the field's register. -/
theorem Follows.clearByStamp (h : Follows u key f register) (deviceId : Option DeviceId)
    {semester : Option Term} {stamp : Time} {row : UserCourse}
    (hrow : u.courses.get key = some row) (hkeeps : resetTakes u semester stamp key row = false)
    (hscope : inScope semester key = true) :
    Follows (clearByStamp u deviceId semester stamp).1 key f
      (register.record Written.ties (stamp, .reset)) := by
  have hall : semester.all (key.term = ·) = true := hscope
  have hcovering := covering_clearByStamp u deviceId semester stamp key.term
  rw [if_pos hall, bound_some] at hcovering
  have hoverride := override_clearByStamp deviceId stamp hrow hkeeps hscope
  have hclear := cell_clearOverrideBefore (u.override key) stamp f
  have hshown := congrArg (fun o => o.effective f) hoverride
  have hstamped := congrArg (fun o => o.stampOf f) hoverride
  rw [record_clear, ← h.stamp]
  cases hbefore : atOrBefore ((u.override key).stampOf f) stamp with
  | true =>
    -- The field is emptied, and the reset covers what is stamped at or before it.
    rw [hbefore, if_pos rfl] at hclear
    obtain ⟨hempty, hle⟩ := hclear
    have hfield : bound ((u.override key).stampOf f) ≤ stamp + 1 := by
      cases hts : (u.override key).stampOf f with
      | none => simp
      | some t => simpa [hts, atOrBefore] using hbefore
    have hmax : max (bound ((Sync.clearByStamp u deviceId semester stamp).1.override key |>.stampOf f))
        (bound ((Sync.clearByStamp u deviceId semester stamp).1.resets.covering (some key.term))) =
          max (bound (u.resets.covering (some key.term))) (stamp + 1) := by
      rw [hstamped, hcovering]
      exact max_eq_right (hle.trans (le_max_right _ _))
    split
    next hlate =>
      have hcov := (max_le_iff.mp hlate).2
      exact ⟨hshown.trans hempty, hmax.trans (max_eq_right hcov),
        fun hne => absurd (hshown.trans hempty) hne⟩
    next hearly =>
      -- A later reset covers the field already, so it shows nothing.
      have hcov : stamp + 1 < bound (u.resets.covering (some key.term)) := by
        by_contra hnot
        exact hearly (max_le hfield (Nat.not_lt.mp hnot))
      have hnothing : (u.override key).effective f = .empty := by
        by_contra hne
        exact absurd ((h.outlasts hne).trans_le hfield) (Nat.not_lt.mpr hcov.le)
      refine ⟨?_, hmax.trans ?_, fun hne => absurd (hshown.trans hempty) hne⟩
      · rw [hshown, hempty, ← h.value, hnothing]
      · rw [← h.stamp, max_eq_left hcov.le, max_eq_right (hfield.trans hcov.le)]
  | false =>
    rw [hbefore, if_neg Bool.false_ne_true] at hclear
    obtain ⟨hvalue, hts⟩ := Prod.mk.inj hclear
    have hfield : bound (some stamp) < bound ((u.override key).stampOf f) := by
      cases hts : (u.override key).stampOf f with
      | none => simp [hts, atOrBefore] at hbefore
      | some t => simpa [hts, atOrBefore] using hbefore
    rw [bound_some] at hfield
    rw [if_neg fun hle => absurd ((le_max_left _ _).trans hle) (Nat.not_le.mpr hfield)]
    refine ⟨(hshown.trans hvalue).trans h.value, ?_, fun hne => ?_⟩
    · rw [hstamped, hts, hcovering, ← h.stamp]
      omega
    · rw [hstamped, hts, hcovering]
      rw [hshown, hvalue] at hne
      exact max_lt (h.outlasts hne) hfield

/-- A reset is a write of the registers of the courses it reaches. -/
theorem Follows.resetByStamp (h : Follows u key f register) (deviceId : Option DeviceId)
    {semester : Option Term} {stamp : Time} {row : UserCourse}
    (hrow : u.courses.get key = some row) (hkeeps : resetTakes u semester stamp key row = false)
    (hscope : inScope semester key = true) :
    Follows (resetByStamp u deviceId semester stamp).1 key f
      (register.record Written.ties (stamp, .reset)) := by
  simp only [Sync.resetByStamp]
  split
  · exact h.clearByStamp deviceId hrow hkeeps hscope
  next hbeats =>
    -- A later reset has written the register already.
    have hstored : ¬ bound (storedReset u semester) ≤ stamp := fun hle =>
      hbeats ((beats_iff _ _).mpr hle)
    have hcovering := storedReset_le_covering u semester key hscope
    have hlate : stamp < bound (u.resets.covering (some key.term)) :=
      (Nat.not_le.mp hstored).trans_le hcovering
    rw [record_clear, ← h.stamp]
    split
    next hle =>
      have hcov : bound (u.resets.covering (some key.term)) = stamp + 1 :=
        Nat.le_antisymm ((le_max_right _ _).trans hle) hlate
      have hfield : bound ((u.override key).stampOf f) ≤ stamp + 1 := (le_max_left _ _).trans hle
      have hnothing : (u.override key).effective f = .empty := by
        by_contra hne
        have hlt := h.outlasts hne
        omega
      refine ⟨hnothing, ?_, h.outlasts⟩
      rw [hcov]
      exact max_eq_right hfield
    next => exact h

end Follows

/-! ### Runs -/

/-- The course keeps the row of its add, and its override follows the registers. -/
structure Kept (u : UserSync) (key : CourseKey) (addedAt : Time)
    (registers : StampedField → LastWriter.Register Time Written) : Prop where
  row : ∃ row, u.courses.get key = some row ∧ row.addedAt = some addedAt
  follows : ∀ f, Follows u key f (registers f)
  latest : (u.override key).NameStampLatest

section Kept

variable {u : UserSync} {key : CourseKey} {addedAt : Time}
  {registers : StampedField → LastWriter.Register Time Written}

/-- What an edit or a reset leaves of the registers. -/
def written (key : CourseKey) (registers : StampedField → LastWriter.Register Time Written)
    (r : OverrideEdit) (f : StampedField) : LastWriter.Register Time Written :=
  (r.write key f).elim (registers f) ((registers f).record Written.ties)

/-- A row added after a reset stays, with its add. -/
theorem row_clearByStamp_of_later {row : UserCourse} (hrow : u.courses.get key = some row)
    (hadded : row.addedAt = some addedAt) (deviceId : Option DeviceId) (semester : Option Term)
    {stamp : Time} (hspares : inScope semester key = true → stamp < addedAt) :
    resetTakes u semester stamp key row = false ∧
      ∃ row', (clearByStamp u deviceId semester stamp).1.courses.get key = some row' ∧
        row'.addedAt = some addedAt := by
  cases hscope : inScope semester key with
  | false =>
    have hkeeps : resetTakes u semester stamp key row = false := by simp [resetTakes, hscope]
    refine ⟨hkeeps, row, ?_, hadded⟩
    simp [clearByStamp, UserSync.appendChanges, hrow, hkeeps, hscope, Option.filter]
  | true =>
    have hlt := hspares hscope
    have hkeeps : resetTakes u semester stamp key row = false := by simp [resetTakes, hadded, hlt]
    refine ⟨hkeeps, (clearBefore row (u.overrides.get key) stamp).1, ?_, ?_⟩
    · simp [clearByStamp, UserSync.appendChanges, hrow, hkeeps, hscope, Option.filter]
    · simp [addedAt_clearBefore, hadded, hlt, Option.filter]

/-- A PATCH that is refused leaves the rows, and any other is one of its stamp. -/
theorem overrideCourse_cases (u : UserSync) (deviceId : Option DeviceId) (speaksClock : Bool)
    (now : Time) (payload : CourseOverrideRequest) (course : CourseKey) :
    Request.keep u (overrideCourse u deviceId speaksClock now payload course) = u ∧
        (payload.readStamp speaksClock now = none ∨ u.courses.get course = none) ∨
      ∃ stamp, payload.readStamp speaksClock now = some stamp ∧ stamp ≤ now + MAX_CLOCK_SKEW ∧
        Request.keep u (overrideCourse u deviceId speaksClock now payload course) =
          (overrideByStamp u deviceId now payload course stamp).1 := by
  have hbody : Request.keep u (do
        let stamp ← editTime payload.hlc now payload.ageMs
        if (u.courses.get course).isNone then throw ⟨404, "course_not_found"⟩
        return overrideByStamp u deviceId now payload course stamp) = u ∧
          ((editTime payload.hlc now payload.ageMs).toOption = none ∨ u.courses.get course = none) ∨
      ∃ stamp, (editTime payload.hlc now payload.ageMs).toOption = some stamp ∧
        stamp ≤ now + MAX_CLOCK_SKEW ∧ Request.keep u (do
          let stamp ← editTime payload.hlc now payload.ageMs
          if (u.courses.get course).isNone then throw ⟨404, "course_not_found"⟩
          return overrideByStamp u deviceId now payload course stamp) =
            (overrideByStamp u deviceId now payload course stamp).1 := by
    cases hstamp : editTime payload.hlc now payload.ageMs with
    | error e => exact Or.inl ⟨rfl, Or.inl rfl⟩
    | ok stamp =>
      cases hrow : u.courses.get course with
      | none => exact Or.inl ⟨rfl, Or.inr rfl⟩
      | some row => exact Or.inr ⟨stamp, rfl, editTime_le hstamp, rfl⟩
  rw [overrideCourse, CourseOverrideRequest.readStamp]
  cases payload.edits with
  | false => exact hbody
  | true =>
    simp only [if_true]
    cases requireStamp speaksClock payload.hlc payload.ageMs with
    | error e => exact Or.inl ⟨rfl, Or.inl rfl⟩
    | ok _ => exact hbody

/-- A PATCH of another course leaves the override of this one. -/
theorem Kept.other (h : Kept u key addedAt registers) {course : CourseKey} (hne : key ≠ course)
    (o : UserCourseOverride) : Kept { u with overrides := u.overrides.set course o } key addedAt
      registers where
  row := h.row
  follows f := by
    refine (h.follows f).congr ?_ rfl
    simp [UserSync.override, hne]
  latest := by
    have hsame : ({ u with overrides := u.overrides.set course o } : UserSync).override key =
        u.override key := by simp [UserSync.override, hne]
    rw [hsame]
    exact h.latest

/-- The PATCH that is read with a stamp. -/
theorem Kept.overrideByStamp (h : Kept u key addedAt registers) (deviceId : Option DeviceId)
    {now stamp : Time} (hstamp : stamp ≤ now + MAX_CLOCK_SKEW) (payload : CourseOverrideRequest) :
    Kept (Sync.overrideByStamp u deviceId now payload key stamp).1 key addedAt fun f =>
      (payload.value f).elim (registers f) fun v =>
        (registers f).record Written.ties (stamp, .edit v) where
  row := h.row
  follows f := (h.follows f).overrideByStamp deviceId hstamp payload
  latest := by
    have hget : (Sync.overrideByStamp u deviceId now payload key stamp).1.override key =
        (Sync.overrideByStamp u deviceId now payload key stamp).2.override := by
      simp [Sync.overrideByStamp, UserSync.override]
    rw [hget]
    simp only [Sync.overrideByStamp]
    split
    · exact UserCourseOverride.NameStampLatest.patch (e := ⟨u.override key, []⟩) h.latest _ _ _ _
    · exact h.latest

/-- The PATCH. -/
theorem Kept.patch (h : Kept u key addedAt registers) (deviceId : Option DeviceId)
    (speaksClock : Bool) (now : Time) (payload : CourseOverrideRequest) (course : CourseKey) :
    Kept (OverrideEdit.apply u (.patch deviceId speaksClock now payload course)) key addedAt
      (written key registers (.patch deviceId speaksClock now payload course)) := by
  have hwritten : written key registers (.patch deviceId speaksClock now payload course) =
      fun f => if course = key then
        (payload.readStamp speaksClock now).elim (registers f) fun stamp =>
          (payload.value f).elim (registers f) fun v =>
            (registers f).record Written.ties (stamp, .edit v)
      else registers f := by
    funext f
    by_cases hkey : course = key
    · cases hstamp : payload.readStamp speaksClock now <;> cases hvalue : payload.value f <;>
        simp [written, OverrideEdit.write, OverrideEdit.written, OverrideEdit.stamp, hkey, hstamp,
          hvalue]
    · cases hstamp : payload.readStamp speaksClock now <;>
        simp [written, OverrideEdit.write, OverrideEdit.written, OverrideEdit.stamp, hkey, hstamp]
  rw [hwritten, OverrideEdit.apply]
  rcases overrideCourse_cases u deviceId speaksClock now payload course with
    ⟨hsame, hnone⟩ | ⟨stamp, hread, hstamp, hpatch⟩
  · rw [hsame]
    by_cases hkey : course = key
    · subst hkey
      obtain ⟨row, hrow, _⟩ := h.row
      rcases hnone with hnone | hnone
      · simpa [hnone] using h
      · rw [hrow] at hnone
        cases hnone
    · simpa [hkey] using h
  · rw [hpatch, hread]
    by_cases hkey : course = key
    · subst hkey
      simpa using h.overrideByStamp deviceId hstamp payload
    · simpa [hkey, Sync.overrideByStamp] using h.other (Ne.symm hkey) _

/-- A PATCH of the newer route also needs a stamp for what it sends unstamped elsewhere. -/
theorem Kept.patchV4 (h : Kept u key addedAt registers) (deviceId : Option DeviceId) (now : Time)
    (payload : CourseOverrideRequest) (course : CourseKey) :
    Kept (OverrideEdit.apply u (.patchV4 deviceId now payload course)) key addedAt
      (written key registers (.patchV4 deviceId now payload course)) := by
  by_cases hrefused : payload.sendsValue = true ∧
      (requireStamp true payload.hlc payload.ageMs).isOk = false
  · have hwritten : written key registers (.patchV4 deviceId now payload course) = registers := by
      funext f
      simp [written, OverrideEdit.write, OverrideEdit.stamp, hrefused.1, hrefused.2]
    rw [hwritten, OverrideEdit.apply, overrideCourseV4, if_pos hrefused.1]
    cases hrequire : requireStamp true payload.hlc payload.ageMs with
    | error e => exact h
    | ok _ =>
      rw [hrequire] at hrefused
      cases hrefused.2
  · have hwritten : written key registers (.patchV4 deviceId now payload course) =
        written key registers (.patch deviceId true now payload course) := by
      funext f
      simp only [written, OverrideEdit.write, OverrideEdit.stamp, OverrideEdit.written,
        if_neg hrefused]
    have happly : OverrideEdit.apply u (.patchV4 deviceId now payload course) =
        OverrideEdit.apply u (.patch deviceId true now payload course) := by
      rw [OverrideEdit.apply, OverrideEdit.apply, overrideCourseV4]
      split
      next hsends =>
        cases hrequire : requireStamp true payload.hlc payload.ageMs with
        | ok _ => rfl
        | error e => exact absurd ⟨hsends, by rw [hrequire]; rfl⟩ hrefused
      next => rfl
    rw [hwritten, happly]
    exact h.patch deviceId true now payload course

/-- A reset earlier than the add. -/
theorem Kept.resetByStamp (h : Kept u key addedAt registers) (deviceId : Option DeviceId)
    (semester : Option Term) {stamp : Time}
    (hspares : inScope semester key = true → stamp < addedAt) :
    Kept (Sync.resetByStamp u deviceId semester stamp).1 key addedAt fun f =>
      if inScope semester key then (registers f).record Written.ties (stamp, .reset)
      else registers f := by
  obtain ⟨row, hrow, hadded⟩ := h.row
  obtain ⟨hkeeps, hrow'⟩ := row_clearByStamp_of_later hrow hadded deviceId semester hspares
  cases hscope : inScope semester key with
  | true =>
    refine ⟨?_, fun f => (h.follows f).resetByStamp deviceId hrow hkeeps hscope, ?_⟩
    · simp only [Sync.resetByStamp]
      split
      · exact hrow'
      · exact h.row
    · simp only [Sync.resetByStamp]
      split
      · rw [override_clearByStamp deviceId stamp hrow hkeeps hscope]
        exact h.latest.clearOverrideBefore stamp
      · exact h.latest
  | false =>
    simp only [Sync.resetByStamp]
    split
    · -- A reset of another term.
      have hoverride : (clearByStamp u deviceId semester stamp).1.override key = u.override key := by
        have hget : (clearByStamp u deviceId semester stamp).1.overrides.get key =
            u.overrides.get key := by
          simp only [clearByStamp, UserSync.appendChanges, Table.get_modify, Table.get_deleteWhere,
            hrow, hscope, Option.any_some, hkeeps]
          cases u.overrides.get key <;> rfl
        rw [UserSync.override, UserSync.override, hget]
      have hall : ¬ semester.all (key.term = ·) = true := by simpa [inScope] using hscope
      refine ⟨hrow', fun f => (h.follows f).congr (by rw [hoverride]) ?_, by
        rw [hoverride]; exact h.latest⟩
      rw [covering_clearByStamp, if_neg hall]
    · exact h

/-- An edit or a reset is a write of the registers of its fields. -/
theorem Kept.apply (h : Kept u key addedAt registers) {r : OverrideEdit}
    (hspares : r.SparesAdd key addedAt) :
    Kept (r.apply u) key addedAt (written key registers r) := by
  cases r with
  | patch deviceId speaksClock now payload course =>
    exact h.patch deviceId speaksClock now payload course
  | patchV4 deviceId now payload course => exact h.patchV4 deviceId now payload course
  | reset deviceId now semester hlc ageMs =>
    have hwritten : written key registers (.reset deviceId now semester hlc ageMs) = fun f =>
        (Request.readStamp hlc now ageMs).elim (registers f) fun stamp =>
          if inScope semester key then (registers f).record Written.ties (stamp, .reset)
          else registers f := by
      funext f
      cases hstamp : Request.readStamp hlc now ageMs <;> cases hscope : inScope semester key <;>
        simp [written, OverrideEdit.write, OverrideEdit.written, OverrideEdit.stamp, hstamp, hscope]
    rw [hwritten, OverrideEdit.apply, deleteAllCourses]
    rcases Request.readStamp_cases hlc now ageMs with
      ⟨stamp, hread, hrequire, htime⟩ | ⟨hread, ⟨e, hrequire⟩ | ⟨hrequire, e, htime⟩⟩
    · have hlt : inScope semester key = true → stamp < addedAt := fun hscope =>
        hspares hscope stamp hread
      rw [hread, hrequire, htime]
      exact h.resetByStamp deviceId semester hlt
    · rw [hread, hrequire]
      exact h
    · rw [hread, hrequire, htime]
      exact h

/-- A run of them writes the registers, in order. -/
theorem Kept.applyAll (h : Kept u key addedAt registers) {edits : List OverrideEdit}
    (hspares : ∀ r ∈ edits, r.SparesAdd key addedAt) :
    Kept (OverrideEdit.applyAll u edits) key addedAt fun f =>
      (edits.filterMap (OverrideEdit.write key f)).foldl (Register.record Written.ties)
        (registers f) := by
  induction edits generalizing u registers with
  | nil => exact h
  | cons r rest ih =>
    have hrest := ih (h.apply (hspares r List.mem_cons_self)) fun q hq =>
      hspares q (List.mem_cons_of_mem r hq)
    have hregisters : (fun f => ((r :: rest).filterMap (OverrideEdit.write key f)).foldl
        (Register.record Written.ties) (registers f)) = fun f =>
          (rest.filterMap (OverrideEdit.write key f)).foldl (Register.record Written.ties)
            (written key registers r f) := by
      funext f
      rw [List.filterMap_cons, written]
      cases r.write key f <;> rfl
    rw [hregisters]
    exact hrest

end Kept

/-- A course without an override and without a reset over it has nothing written. -/
theorem kept_of_new {u : UserSync} {key : CourseKey} {row : UserCourse} {addedAt : Time}
    (hrow : u.courses.get key = some row) (hadded : row.addedAt = some addedAt)
    (hnone : u.overrides.get key = none) (hresets : u.resets.covering (some key.term) = none) :
    Kept u key addedAt fun _ => none := by
  have hblank : u.override key = UserCourseOverride.blank := by
    rw [UserSync.override, hnone]
    rfl
  refine ⟨⟨row, hrow, hadded⟩, fun f => ?_, by rw [hblank]; exact nameStampLatest_blank⟩
  constructor
  · rw [hblank]
    cases f <;> rfl
  · rw [hblank, hresets, UserCourseOverride.stampOf, register_blank]
    rfl
  · intro hne
    rw [hblank] at hne
    cases f <;> exact absurd rfl hne

/-- Overrides converge with resets: on a course whose add is later than every reset that reaches it,
let override PATCHes and term or full resets arrive in any order and with any repetitions. When no
two writes of a field share a stamp, the field shows the write with the greatest one: the edit's
value, or nothing when it is a reset's. -/
theorem overrides_converge {u : UserSync} {key : CourseKey} {row : UserCourse} {addedAt : Time}
    (hrow : u.courses.get key = some row) (hadded : row.addedAt = some addedAt)
    (hnone : u.overrides.get key = none) (hresets : u.resets.covering (some key.term) = none)
    {edits : List OverrideEdit} (hspares : ∀ r ∈ edits, r.SparesAdd key addedAt)
    (hdistinct : ∀ f, ∀ w ∈ edits.filterMap (OverrideEdit.write key f),
      ∀ w' ∈ edits.filterMap (OverrideEdit.write key f), w.1 = w'.1 → w = w') :
    let o := (OverrideEdit.applyAll u edits).override key
    (∀ f, ∀ w ∈ edits.filterMap (OverrideEdit.write key f),
      (∀ w' ∈ edits.filterMap (OverrideEdit.write key f), w'.1 ≤ w.1) →
        o.effective f = w.2.value) ∧
    (∀ f, edits.filterMap (OverrideEdit.write key f) = [] → o.effective f = .empty) ∧
    o.customNameUpdatedAt = (o.customNamesUpdatedAt.rows.map Prod.snd).max? := by
  have hkept := (kept_of_new hrow hadded hnone hresets).applyAll hspares
  refine ⟨fun f w hw hmax => ?_, fun f hnil => ?_, hkept.latest⟩
  · rw [(hkept.follows f).value, Register.foldl_record_of_greatest Written.ties hw hmax
      fun w' hw' heq => hdistinct f w' hw' w hw heq]
    rfl
  · rw [(hkept.follows f).value, hnil]
    rfl

/-- A PATCH of a colour, stamped by its clock. -/
def patchColor (key : CourseKey) (hlc : Time) (color : String) : OverrideEdit :=
  .patch none true 50 ⟨some color, none, none, none, none, some hlc, none⟩ key

/-- A PATCH of the Chinese name, stamped by its clock. -/
def patchName (key : CourseKey) (hlc : Time) (name : String) : OverrideEdit :=
  .patch none true 50 ⟨none, some name, some "zh", none, none, some hlc, none⟩ key

/-- A colour under a later reset that arrives first, and a name after it. -/
theorem overrides_converge_with_late_color :
    let key : CourseKey := ⟨⟨"1151", by decide, by decide⟩, ⟨"CS3010", by decide⟩⟩
    let u : UserSync :=
      { UserSync.fresh with courses := Table.empty.set key ⟨.userAdded, some 40, .enrolled⟩ }
    let run := [OverrideEdit.reset none 50 none (some 7) none, patchName key 9 "X",
      patchColor key 5 "#112233", patchName key 9 "X"]
    ((OverrideEdit.applyAll u run).override key).effective (.customName "zh") = .name "X" ∧
      ((OverrideEdit.applyAll u run).override key).effective .colorHex = .empty := by
  intro key u run
  have hspares : ∀ r ∈ run, r.SparesAdd key 40 := by
    intro r hr
    simp only [run, List.mem_cons, List.not_mem_nil, or_false] at hr
    rcases hr with rfl | rfl | rfl | rfl
    · intro _ stamp hstamp
      obtain rfl : 7 = stamp := Option.some.inj hstamp
      decide
    · trivial
    · trivial
    · trivial
  have hdistinct : ∀ f, ∀ w ∈ run.filterMap (OverrideEdit.write key f),
      ∀ w' ∈ run.filterMap (OverrideEdit.write key f), w.1 = w'.1 → w = w' := by
    intro f
    cases f with
    | colorHex => decide
    | ignoreAssignments => decide
    | customName locale =>
      by_cases hlocale : locale = "zh"
      · subst hlocale
        decide
      · have hwrites : run.filterMap (OverrideEdit.write key (.customName locale)) =
            [(7, .reset)] := by
          have hne : ¬ "zh" = locale := fun h => hlocale h.symm
          have hother : (patchName key 9 "X").written key (.customName locale) = none := by
            simp [patchName, OverrideEdit.written, CourseOverrideRequest.value,
              CourseOverrideRequest.names, Option.filter, hne]
          have hname : (patchName key 9 "X").write key (.customName locale) = none := by
            simp [OverrideEdit.write, hother]
          have hreset : (OverrideEdit.reset none 50 none (some 7) none).write key
              (.customName locale) = some (7, .reset) := rfl
          have hcolor : (patchColor key 5 "#112233").write key (.customName locale) = none := rfl
          rw [List.filterMap_cons_some hreset, List.filterMap_cons_none hname,
            List.filterMap_cons_none hcolor, List.filterMap_cons_none hname, List.filterMap_nil]
        rw [hwrites]
        decide
  have h := overrides_converge (show u.courses.get key = some ⟨.userAdded, some 40, .enrolled⟩ from rfl)
    rfl rfl rfl hspares hdistinct
  exact ⟨h.1 (.customName "zh") (9, .edit (.name "X")) (by decide) (by decide),
    h.1 .colorHex (7, .reset) (by decide) (by decide)⟩

end TigerDuck.Sync
