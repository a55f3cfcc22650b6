import TigerDuck.Sync.HiddenCourses

/-!
# Resets are final

A protocol-2 reset empties each field of the rows it keeps that is stamped at or before it, and
the override PATCH, the academics PUT, the initial upload and the colour fill of a course upload
may write those fields later, each with a time of its own. Each write is one step under the
user's sync lock. The PUT reads its clock under that lock, the PATCH has its arrival, and the
initial upload reads its clock before it waits for the lock, which may be long.

## Main results

- `reset_finality`: no field of a row a reset kept holds a value stamped at or before it, in every
  run whose initial uploads land after the reset what they send as later than it.
-/

namespace TigerDuck.Sync

open Relational Transition

/-- A write of one user's course overrides. -/
inductive OverrideWrite
  | patch (deviceId : Option DeviceId) (speaksClock : Bool) (now : Time)
      (payload : CourseOverrideRequest) (course : CourseKey)
  | patchV4 (deviceId : Option DeviceId) (now : Time) (payload : CourseOverrideRequest)
      (course : CourseKey)
  | put (deviceId : Option DeviceId) (now : Time) (payload : CourseOverridePut)
      (course : CourseKey)
  | initialUpload (deviceId : Option DeviceId) (now : Time) (courses : List UploadCourse)
      (overrides : List UploadCourseOverride)
  | upload (deviceId : Option DeviceId) (speaksClock : Bool) (now : Time)
      (payload : CourseUploadRequest)

namespace OverrideWrite

/-- The rows after the write. -/
def apply (u : UserSync) : OverrideWrite → UserSync
  | patch deviceId speaksClock now payload course =>
    Request.keep u (overrideCourse u deviceId speaksClock now payload course)
  | patchV4 deviceId now payload course =>
    Request.keep u (overrideCourseV4 u deviceId now payload course)
  | put deviceId now payload course => Request.keep u (putCourseOverride u deviceId now payload course)
  | initialUpload deviceId now courses overrides =>
    (Sync.initialUpload u deviceId now courses overrides).1
  | upload deviceId speaksClock now payload =>
    Request.keep u (uploadCourses u deviceId speaksClock now payload)

/-- Every write is answered. -/
def step (u : UserSync) (w : OverrideWrite) : Option UserSync := some (w.apply u)

end OverrideWrite

/-- Whether the register holds nothing, or a value stamped after the reset. -/
def Register.holdsAfter (resetAt : Time) (r : Register) : Bool :=
  !r.filled || r.stamp.any (resetAt < ·)

/-- Every value of the override is stamped after the reset. -/
def UserCourseOverride.HoldsAfter (o : UserCourseOverride) (resetAt : Time) : Prop :=
  ∀ f, (o.register f).holdsAfter resetAt

/-- The fields an initial upload may send. -/
def uploadFields : List StampedField :=
  [.colorHex, .ignoreAssignments, .customName "zh", .customName "en"]

/-- A value sent as later than the covering reset is stored after `resetAt`, or refused: `now`, to
which its time is clamped, is late enough, or the register's stamp is. -/
def Register.lands (r : Register) (resetAt now : Time) (covering : Option Time)
    (sent : Option Sent) : Bool :=
  sent.all fun s =>
    !(s.filled && beats s.ts covering) || resetAt < now + MAX_CLOCK_SKEW ||
      !beats (now + MAX_CLOCK_SKEW) r.stamp

/-- What the write sends for the course lands after the reset. A PUT's clock is later than the
reset's arrival, since it is read under the lock. -/
def LandsAfter (key : CourseKey) (arrivedAt resetAt : Time) (u : UserSync) : OverrideWrite → Prop
  | .put _ now _ course => course = key → arrivedAt < now
  | .initialUpload _ now _ overrides =>
    ∀ item ∈ overrides, item.courseKey = key → ∀ f ∈ uploadFields,
      ((u.override key).register f).lands resetAt now (u.resets.covering (some key.term))
        (item.sends f)
  | _ => True

instance (key : CourseKey) (arrivedAt resetAt : Time) (u : UserSync) (w : OverrideWrite) :
    Decidable (LandsAfter key arrivedAt resetAt u w) := by
  unfold LandsAfter
  cases w <;> infer_instance

/-! ### Registers under a reset -/

section Registers

variable {r : Register} {resetAt now : Time} {covering : Option Time} {sent : Option Sent}

/-- A value that beats a covering stamp is later than a reset it covers. -/
theorem lt_of_beats (hcovers : bound (some resetAt) ≤ bound covering) {stamp : Time}
    (h : beats stamp covering = true) : resetAt < stamp :=
  hcovers.trans ((beats_iff stamp covering).mp h)

/-- A clock later than the reset's arrival less the skew lands everything. -/
theorem Register.lands_of_lt (h : resetAt < now + MAX_CLOCK_SKEW) :
    r.lands resetAt now covering sent = true := by
  cases sent <;> simp [Register.lands, h]

/-- A register that takes what lands after the reset holds it after the reset. -/
theorem Register.holdsAfter_take (hcovers : bound (some resetAt) ≤ bound covering)
    (h : r.holdsAfter resetAt = true) (hlands : r.lands resetAt now covering sent = true) :
    (r.take sent covering now).holdsAfter resetAt = true := by
  cases sent with
  | none => exact h
  | some s =>
    rw [Register.take_some, Register.offer]
    split
    next hlater =>
      split
      next hbeats =>
        cases hfilled : s.filled with
        | false => rfl
        | true =>
          -- The time beats the covering reset; so does `now`, or the register refused.
          have hts := lt_of_beats hcovers hlater
          have hnow : resetAt < now + MAX_CLOCK_SKEW := by
            by_contra hnot
            have hstored : beats (now + MAX_CLOCK_SKEW) r.stamp = false := by
              simpa [Register.lands, hfilled, hlater, hnot] using hlands
            have hclamp : clampTs s.ts now MAX_CLOCK_SKEW ≤ now + MAX_CLOCK_SKEW := min_le_right _ _
            have hle := ((beats_iff _ _).mp hbeats).trans hclamp
            rw [(beats_iff _ _).mpr hle] at hstored
            cases hstored
          have hclamped : resetAt < clampTs s.ts now MAX_CLOCK_SKEW := lt_min hts hnow
          simp [Register.holdsAfter, hclamped]
      next => exact h
    next => exact h

/-- A register's stamp only moves forward. -/
theorem Register.stamp_le_take (r : Register) (sent : Option Sent) (covering : Option Time)
    (now : Time) : bound r.stamp ≤ bound (r.take sent covering now).stamp := by
  cases sent with
  | none => exact le_rfl
  | some s =>
    rw [Register.take_some, Register.offer]
    split
    · split
      next hbeats => exact ((beats_iff _ _).mp hbeats).trans (Nat.le_succ _)
      next => exact le_rfl
    · exact le_rfl

/-- What lands in a register lands in one stamped later. -/
theorem Register.lands_of_le {r' : Register} (hle : bound r.stamp ≤ bound r'.stamp)
    (h : r.lands resetAt now covering sent = true) : r'.lands resetAt now covering sent = true := by
  have hbeats : beats (now + MAX_CLOCK_SKEW) r'.stamp = true →
      beats (now + MAX_CLOCK_SKEW) r.stamp = true := by
    simp only [beats_iff]
    exact hle.trans
  cases sent with
  | none => rfl
  | some s =>
    simp only [Register.lands, Option.all_some, Bool.or_eq_true, Bool.not_eq_true'] at h ⊢
    rcases h with h | h
    · exact Or.inl h
    · refine Or.inr ?_
      cases hb : beats (now + MAX_CLOCK_SKEW) r'.stamp with
      | false => rfl
      | true => rw [hbeats hb] at h; cases h

end Registers

/-- A stamp read from a request lies at most the skew past its arrival. -/
theorem editTime_le {hlc : Option Time} {now stamp : Time} {ageMs : Option Int}
    (h : editTime hlc now ageMs = .ok stamp) : stamp ≤ now + MAX_CLOCK_SKEW := by
  cases ageMs with
  | some age =>
    obtain rfl := Except.ok.inj h
    exact (Nat.sub_le _ _).trans (Nat.le_add_right _ _)
  | none =>
    cases hlc with
    | none =>
      obtain rfl := Except.ok.inj h
      exact Nat.le_add_right _ _
    | some clock =>
      simp only [editTime] at h
      split at h
      · cases h
      next hle =>
        obtain rfl := Except.ok.inj h
        exact Nat.not_lt.mp hle

/-! ### What a reset keeps -/

section Clear

variable (o : UserCourseOverride) (resetAt : Time)

/-- The names and stamps a reset leaves: those of the locales it clears are its own. -/
theorem get_clearOverrideBefore (locale : String) :
    (clearOverrideBefore o resetAt).1.customNames.get locale =
      (if locale ∈ clearedLocales o resetAt then some "" else o.customNames.get locale) ∧
    (clearOverrideBefore o resetAt).1.customNamesUpdatedAt.get locale =
      if locale ∈ clearedLocales o resetAt then some resetAt
      else o.customNamesUpdatedAt.get locale := by
  have hset : ∀ {α : Type} (t : Table String α) (a : α) (ks : List String),
      (ks.foldl (fun t locale => t.set locale a) t).get locale =
        if locale ∈ ks then some a else t.get locale := by
    intro α t a ks
    have h := t.get_upsertEach ks (fun _ => a) (fun _ _ => a) locale fun o => by cases o <;> rfl
    have helim : (t.get locale).elim a (fun _ => a) = a := elim_same _ _
    rw [helim] at h
    exact h
  have hnames : (clearOverrideBefore o resetAt).1.customNames =
      (clearedLocales o resetAt).foldl (fun t locale => t.set locale "") o.customNames := by
    cases hcleared : clearedLocales o resetAt <;>
      simp only [clearOverrideBefore, hcleared, List.isEmpty_nil, List.isEmpty_cons, if_true,
        Bool.false_eq_true, if_false] <;> split <;> split <;> rfl
  have hstamps : (clearOverrideBefore o resetAt).1.customNamesUpdatedAt =
      (clearedLocales o resetAt).foldl (fun t locale => t.set locale resetAt)
        o.customNamesUpdatedAt := by
    cases hcleared : clearedLocales o resetAt <;>
      simp only [clearOverrideBefore, hcleared, List.isEmpty_nil, List.isEmpty_cons, if_true,
        Bool.false_eq_true, if_false] <;> split <;> split <;> rfl
  rw [hnames, hstamps, hset, hset]
  exact ⟨rfl, rfl⟩

theorem colorHex_clearOverrideBefore :
    (clearOverrideBefore o resetAt).1.colorHex =
      if (o.colorHex.value.isSome || o.colorHex.updatedAt.isSome) &&
        atOrBefore o.colorHex.updatedAt resetAt then ⟨none, some resetAt, none⟩
      else o.colorHex := by
  simp only [clearOverrideBefore]
  split <;> split <;> split <;> rfl

theorem ignoreAssignments_clearOverrideBefore :
    (clearOverrideBefore o resetAt).1.ignoreAssignments =
      if (o.ignoreAssignments.value || o.ignoreAssignments.updatedAt.isSome) &&
        atOrBefore o.ignoreAssignments.updatedAt resetAt then ⟨false, some resetAt, none⟩
      else o.ignoreAssignments := by
  simp only [clearOverrideBefore]
  split <;> split <;> split <;> rfl

/-- The latest stamp of the names stays, or is that of the stamps a reset leaves. -/
theorem customNameUpdatedAt_clearOverrideBefore :
    (clearOverrideBefore o resetAt).1.customNameUpdatedAt = o.customNameUpdatedAt ∨
      (clearOverrideBefore o resetAt).1.customNameUpdatedAt =
        ((clearOverrideBefore o resetAt).1.customNamesUpdatedAt.rows.map Prod.snd).max? := by
  simp only [clearOverrideBefore]
  split
  · left
    split <;> split <;> rfl
  · exact Or.inr rfl

/-- A reset leaves no value stamped at or before it. -/
theorem holdsAfter_clearOverrideBefore : (clearOverrideBefore o resetAt).1.HoldsAfter resetAt := by
  intro f
  cases f with
  | colorHex =>
    simp only [UserCourseOverride.register, colorHex_clearOverrideBefore]
    split
    · rfl
    next hkept =>
      cases hstamp : o.colorHex.updatedAt <;> cases hvalue : o.colorHex.value <;>
        simp_all [Register.holdsAfter, atOrBefore]
  | ignoreAssignments =>
    simp only [UserCourseOverride.register, ignoreAssignments_clearOverrideBefore]
    split
    · rfl
    next hkept =>
      cases hstamp : o.ignoreAssignments.updatedAt <;> cases hvalue : o.ignoreAssignments.value <;>
        simp_all [Register.holdsAfter, atOrBefore]
  | customName locale =>
    obtain ⟨hname, hstamp⟩ := get_clearOverrideBefore o resetAt locale
    simp only [UserCourseOverride.register, hname, hstamp]
    split
    · rfl
    next hkept =>
      cases hget : o.customNames.get locale with
      | none => rfl
      | some name =>
        -- The locale has a name, so it stays only under a later stamp.
        have hmem : locale ∈ o.customNames.keys := by
          rw [Table.mem_keys_iff, hget]
          rfl
        have hlater : ¬ (o.customNamesUpdatedAt.get locale).getD 0 ≤ resetAt := by
          intro hle
          exact hkept (by simp [clearedLocales, hmem, hle])
        cases hts : o.customNamesUpdatedAt.get locale with
        | none => simp [hts] at hlater
        | some t =>
          have hlt : resetAt < t := by simpa [hts] using hlater
          simp [Register.holdsAfter, hlt]

end Clear

/-- A row a protocol-2 reset kept: it is there, under a reset no earlier, and holds nothing from
before it. -/
structure KeptAfter (key : CourseKey) (resetAt : Time) (u : UserSync) : Prop where
  row : (u.courses.get key).isSome
  covered : bound (some resetAt) ≤ bound (u.resets.covering (some key.term))
  holdsAfter : (u.override key).HoldsAfter resetAt

/-- What a reset keeps in its scope. -/
theorem keptAfter_clearByStamp {u : UserSync} (deviceId : Option DeviceId)
    {semester : Option Term} (stamp : Time) {key : CourseKey} (hscope : inScope semester key = true)
    (hkept : ((clearByStamp u deviceId semester stamp).1.courses.get key).isSome) :
    KeptAfter key stamp (clearByStamp u deviceId semester stamp).1 where
  row := hkept
  covered := by
    have hall : semester.all (key.term = ·) = true := hscope
    rw [covering_clearByStamp, if_pos hall]
    exact le_max_right _ _
  holdsAfter := by
    rw [isSome_clearByStamp, Option.any_eq_true] at hkept
    obtain ⟨row, hrow, hkeeps⟩ := hkept
    have hget : (clearByStamp u deviceId semester stamp).1.overrides.get key =
        (u.overrides.get key).map fun o => (clearOverrideBefore o stamp).1 := by
      simp only [clearByStamp, UserSync.appendChanges, Table.get_modify, Table.get_deleteWhere,
        hrow, hscope, Option.any_some]
      cases u.overrides.get key with
      | none => rfl
      | some o => simp_all [Option.filter, clearBefore]
    intro f
    rw [UserSync.override, hget]
    cases u.overrides.get key with
    | none =>
      show (UserCourseOverride.blank.register f).holdsAfter stamp = true
      rw [register_blank]
      rfl
    | some o => exact holdsAfter_clearOverrideBefore o stamp f

/-! ### What the writers keep -/

section Writers

variable {key : CourseKey} {resetAt : Time} {u : UserSync}

/-- An override whose registers take what lands stays after the reset. -/
theorem KeptAfter.of_take {v : UserSync} (h : KeptAfter key resetAt u)
    (hcourses : v.courses.get key = u.courses.get key) (hresets : v.resets = u.resets)
    (now : Time) (sent : StampedField → Option Sent)
    (htake : ∀ f, (v.override key).register f =
      ((u.override key).register f).take (sent f) (u.resets.covering (some key.term)) now)
    (hlands : ∀ f, ((u.override key).register f).lands resetAt now
      (u.resets.covering (some key.term)) (sent f) = true) :
    KeptAfter key resetAt v where
  row := by rw [hcourses]; exact h.row
  covered := by rw [hresets]; exact h.covered
  holdsAfter f := by
    rw [htake]
    exact Register.holdsAfter_take h.covered (h.holdsAfter f) (hlands f)

/-- A write of another course's override. -/
theorem KeptAfter.set {course : CourseKey} (h : KeptAfter key resetAt u) (hne : key ≠ course)
    (o : UserCourseOverride) :
    KeptAfter key resetAt { u with overrides := u.overrides.set course o } where
  row := h.row
  covered := h.covered
  holdsAfter := by simpa [UserSync.override, hne] using h.holdsAfter

/-- The PATCH of a stamp read from its own arrival. -/
theorem KeptAfter.overrideByStamp (h : KeptAfter key resetAt u) (deviceId : Option DeviceId)
    {now : Time} (payload : CourseOverrideRequest) (course : CourseKey) {stamp : Time}
    (hstamp : stamp ≤ now + MAX_CLOCK_SKEW) :
    KeptAfter key resetAt (Sync.overrideByStamp u deviceId now payload course stamp).1 := by
  by_cases hkey : key = course
  · subst hkey
    refine h.of_take rfl rfl now (payload.sends stamp)
      (register_overrideByStamp u deviceId now payload key stamp) fun f => ?_
    by_cases hlate : resetAt < now + MAX_CLOCK_SKEW
    · exact Register.lands_of_lt hlate
    · -- A stamp no later than the clock's skew is covered by the reset.
      cases hsends : payload.sends stamp f with
      | none => rfl
      | some s =>
        have hcovered : beats s.ts (u.resets.covering (some key.term)) = false := by
          rw [ts_of_sends hsends]
          cases hbeats : beats stamp (u.resets.covering (some key.term)) with
          | false => rfl
          | true =>
            exact absurd ((lt_of_beats h.covered hbeats).trans_le hstamp) hlate
        simp [Register.lands, hcovered]
  · exact h.set hkey _

/-- The override PATCH. -/
theorem KeptAfter.overrideCourse (h : KeptAfter key resetAt u) (deviceId : Option DeviceId)
    (speaksClock : Bool) (now : Time) (payload : CourseOverrideRequest) (course : CourseKey) :
    KeptAfter key resetAt
      (Request.keep u (Sync.overrideCourse u deviceId speaksClock now payload course)) := by
  have hbody : KeptAfter key resetAt (Request.keep u (do
      let stamp ← editTime payload.hlc now payload.ageMs
      if (u.courses.get course).isNone then throw ⟨404, "course_not_found"⟩
      return Sync.overrideByStamp u deviceId now payload course stamp)) := by
    cases hstamp : editTime payload.hlc now payload.ageMs with
    | error e => exact h
    | ok stamp =>
      simp only [bind, Except.bind, pure, Except.pure]
      split
      · exact h
      · exact h.overrideByStamp deviceId payload course (editTime_le hstamp)
  rw [Sync.overrideCourse]
  split
  · cases requireStamp speaksClock payload.hlc payload.ageMs with
    | error e => exact h
    | ok _ => exact hbody
  · exact hbody

/-- The academics PUT, whose clock is later than the reset's arrival. -/
theorem KeptAfter.putCourseOverride (h : KeptAfter key resetAt u) (deviceId : Option DeviceId)
    {now : Time} (payload : CourseOverridePut) (course : CourseKey)
    (hnow : course = key → resetAt < now + MAX_CLOCK_SKEW) :
    KeptAfter key resetAt (Request.keep u (Sync.putCourseOverride u deviceId now payload course)) := by
  simp only [Sync.putCourseOverride, bind, Except.bind, pure, Except.pure]
  split
  · exact h
  · rw [Request.keep_ok]
    by_cases hkey : key = course
    · subst hkey
      refine h.of_take rfl rfl now payload.sends (fun f => ?_) fun f =>
        Register.lands_of_lt (hnow rfl)
      rw [← register_put payload ⟨u.override key, []⟩ _ deviceId now f]
      simp [UserSync.override]
    · exact h.set hkey _

/-- The overrides of an initial upload, as far as they land. -/
theorem KeptAfter.uploadOverrides (h : KeptAfter key resetAt u) {imported : List CourseKey}
    (himported : key ∉ imported) (deviceId : Option DeviceId) {now : Time}
    {items : List UploadCourseOverride}
    (hlands : ∀ item ∈ items, item.courseKey = key → ∀ f,
      ((u.override key).register f).lands resetAt now (u.resets.covering (some key.term))
        (item.sends f)) :
    KeptAfter key resetAt (Sync.uploadOverrides imported deviceId now u items).1 := by
  refine (uploadOverrides_induction imported deviceId now
    (P := fun v => KeptAfter key resetAt v ∧ ∀ item ∈ items, item.courseKey = key → ∀ f,
      ((v.override key).register f).lands resetAt now (v.resets.covering (some key.term))
        (item.sends f)) ?_ ⟨h, hlands⟩).1
  rintro v item hitem ⟨hv, hrest⟩
  obtain ⟨overrides, heq⟩ := uploadOverride_eq imported deviceId now v item
  have hcourses : (uploadOverride imported deviceId now v item).1.courses.get key =
      v.courses.get key := by rw [heq]
  have hresets : (uploadOverride imported deviceId now v item).1.resets = v.resets := by
    rw [heq]
    rfl
  have hregister := register_uploadOverride imported deviceId now v item key hv.row
  have hreset : uploadResetAt v imported key = v.resets.covering (some key.term) := by
    rw [uploadResetAt, if_neg himported]
  by_cases hkey : key = item.courseKey
  · have htake : ∀ f, ((uploadOverride imported deviceId now v item).1.override key).register f =
        ((v.override key).register f).take (item.sends f) (v.resets.covering (some key.term)) now :=
      fun f => by rw [hregister, if_pos hkey, hreset]
    refine ⟨hv.of_take hcourses hresets now item.sends htake (hrest item hitem hkey.symm), ?_⟩
    intro item' hitem' hkey' f
    rw [hresets]
    refine Register.lands_of_le ?_ (hrest item' hitem' hkey' f)
    rw [htake]
    exact Register.stamp_le_take _ _ _ _
  · have hsame : ∀ f, ((uploadOverride imported deviceId now v item).1.override key).register f =
        (v.override key).register f := fun f => by rw [hregister, if_neg hkey]
    refine ⟨⟨by rw [hcourses]; exact hv.row, by rw [hresets]; exact hv.covered, fun f => ?_⟩, ?_⟩
    · rw [hsame]
      exact hv.holdsAfter f
    · intro item' hitem' hkey' f
      rw [hsame, hresets]
      exact hrest item' hitem' hkey' f

end Writers

section Uploads

variable {key : CourseKey} {resetAt : Time} {u : UserSync}

/-- Rows that stay a row, with the overrides of the key and the resets they had. -/
theorem KeptAfter.of_same {v : UserSync} (h : KeptAfter key resetAt u)
    (hrow : (v.courses.get key).isSome) (hresets : v.resets = u.resets)
    (hoverride : v.override key = u.override key) : KeptAfter key resetAt v where
  row := hrow
  covered := by rw [hresets]; exact h.covered
  holdsAfter := by rw [hoverride]; exact h.holdsAfter

/-- The initial upload, as far as its overrides land. -/
theorem KeptAfter.initialUpload (h : KeptAfter key resetAt u) (deviceId : Option DeviceId)
    {now : Time} (courses : List UploadCourse) {items : List UploadCourseOverride}
    (hlands : ∀ item ∈ items, item.courseKey = key → ∀ f ∈ uploadFields,
      ((u.override key).register f).lands resetAt now (u.resets.covering (some key.term))
        (item.sends f)) :
    KeptAfter key resetAt (Sync.initialUpload u deviceId now courses items).1 := by
  obtain ⟨rows, changes, heq⟩ := importCourses_eq now courses u
  have hoverride : (importCourses u now courses).user.override key = u.override key := by
    rw [heq]
    rfl
  have hresets : (importCourses u now courses).user.resets = u.resets := by
    rw [heq]
    rfl
  have hkept : KeptAfter key resetAt (importCourses u now courses).user := by
    refine h.of_same ?_ hresets hoverride
    rw [isSome_importCourses, h.row, Bool.true_or]
  refine hkept.uploadOverrides (not_mem_imported now key courses h.row) deviceId
    fun item hitem hkey f => ?_
  rw [hoverride, hresets]
  by_cases hf : f ∈ uploadFields
  · exact hlands item hitem hkey f hf
  · -- An upload sends a name in the two locales the apps read only.
    have hnone : item.sends f = none := by
      cases f with
      | colorHex => simp [uploadFields] at hf
      | ignoreAssignments => simp [uploadFields] at hf
      | customName locale =>
        have hlocale : ¬ (locale = "zh" ∨ locale = "en") := by simpa [uploadFields] using hf
        simp [UploadCourseOverride.sends, hlocale]
    rw [hnone]
    rfl

/-- A colour fill leaves a course that the server had under a reset. -/
theorem get_fillColors_of_covered (existing : CourseKey → Bool) (hexisting : existing key = true)
    (hcovered : (u.resets.covering (some key.term)).isSome) (deviceId : Option DeviceId)
    (now : Time) (items : List CourseOverrideUploadItem) :
    (fillColors existing deviceId now u items).1.overrides.get key = u.overrides.get key := by
  suffices hkept : (fillColors existing deviceId now u items).1.resets = u.resets ∧
      (fillColors existing deviceId now u items).1.overrides.get key = u.overrides.get key from
    hkept.2
  refine fillColors_induction existing deviceId now
    (P := fun v => v.resets = u.resets ∧ v.overrides.get key = u.overrides.get key)
    (fun v item hv => ?_) ⟨rfl, rfl⟩
  obtain ⟨hresets, hget⟩ := hv
  unfold fillColor
  dsimp only
  split
  · exact ⟨hresets, hget⟩
  next hfills =>
    -- The reset that covers the key bars its colour.
    have hne : key ≠ item.courseKey := by
      rintro rfl
      simp [hexisting, hresets, hcovered] at hfills
    split <;> exact ⟨hresets, by simp [hne, hget]⟩

/-- An upload of either protocol keeps the rows of the keys it does not bring. -/
theorem isSome_applyUpload (deviceId : Option DeviceId) (speaksClock : Bool) (now : Time)
    (payload : CourseUploadRequest) (adds : Table CourseKey Time)
    (hrow : (u.courses.get key).isSome) :
    ((applyUpload u deviceId speaksClock now payload adds).1.courses.get key).isSome := by
  cases speaksClock with
  | false => rw [isSome_applyUpload_arrival, hrow, Bool.true_or]
  | true =>
    rw [← isSome_row, row_applyUpload]
    split
    · rfl
    · rwa [isSome_row]

/-- A course upload, with its colour fills. -/
theorem KeptAfter.applyUpload (h : KeptAfter key resetAt u) (deviceId : Option DeviceId)
    (speaksClock : Bool) (now : Time) (payload : CourseUploadRequest)
    (adds : Table CourseKey Time) :
    KeptAfter key resetAt (Sync.applyUpload u deviceId speaksClock now payload adds).1 := by
  refine h.of_same (isSome_applyUpload deviceId speaksClock now payload adds h.row)
    (resets_applyUpload u deviceId now payload adds speaksClock) ?_
  have hcovered : (u.resets.covering (some key.term)).isSome := by
    cases hc : u.resets.covering (some key.term) with
    | some _ => rfl
    | none =>
      have := h.covered
      simp [hc] at this
  have hget : (Sync.applyUpload u deviceId speaksClock now payload adds).1.overrides.get key =
      u.overrides.get key := by
    cases speaksClock with
    | true =>
      exact get_fillColors_of_covered (u := writeRows payload
        (rosterByStamp u payload.courses adds).2.1 true (rosterByStamp u payload.courses adds).1)
        (fun key => (u.courses.get key).isSome) h.row hcovered deviceId now payload.courseOverrides
    | false =>
      exact get_fillColors_of_covered (u := writeRows payload
        (releaseOnArrival u deviceId now payload).2 false (releaseOnArrival u deviceId now payload).1)
        (fun key => (u.courses.get key).isSome) h.row hcovered deviceId now payload.courseOverrides
  rw [UserSync.override, hget, UserSync.override]

/-- The upload request. -/
theorem KeptAfter.uploadCourses (h : KeptAfter key resetAt u) (deviceId : Option DeviceId)
    (speaksClock : Bool) (now : Time) (payload : CourseUploadRequest) :
    KeptAfter key resetAt
      (Request.keep u (Sync.uploadCourses u deviceId speaksClock now payload)) := by
  simp only [Sync.uploadCourses, bind, Except.bind, pure, Except.pure]
  split
  · exact h
  · split
    · cases addStamps payload.adds now with
      | error e => exact h
      | ok adds => exact h.applyUpload deviceId speaksClock now payload adds
    · exact h.applyUpload deviceId speaksClock now payload Table.empty

end Uploads

/-- What every write keeps, as far as what it sends lands after the reset. -/
theorem KeptAfter.apply {key : CourseKey} {arrivedAt resetAt : Time} {u : UserSync}
    (harrived : resetAt ≤ arrivedAt + MAX_CLOCK_SKEW) (h : KeptAfter key resetAt u)
    {w : OverrideWrite} (hlands : LandsAfter key arrivedAt resetAt u w) :
    KeptAfter key resetAt (w.apply u) := by
  cases w with
  | patch deviceId speaksClock now payload course =>
    exact h.overrideCourse deviceId speaksClock now payload course
  | patchV4 deviceId now payload course =>
    have hbody := h.overrideCourse deviceId true now payload course
    simp only [OverrideWrite.apply, overrideCourseV4]
    split
    · cases requireStamp true payload.hlc payload.ageMs with
      | error e => exact h
      | ok _ => exact hbody
    · exact hbody
  | put deviceId now payload course =>
    exact h.putCourseOverride deviceId payload course fun hkey =>
      harrived.trans_lt (Nat.add_lt_add_right (hlands hkey) _)
  | initialUpload deviceId now courses overrides => exact h.initialUpload deviceId courses hlands
  | upload deviceId speaksClock now payload =>
    exact h.uploadCourses deviceId speaksClock now payload

/-- An accepted protocol-2 reset clears by the stamp it answers with, read from its arrival. -/
theorem deleteAllCourses_accepted {u v : UserSync} {deviceId : Option DeviceId} {now : Time}
    {semester : Option Term} {hlc : Option Time} {ageMs : Option Int} {answer : ResetAnswer}
    (h : deleteAllCourses u deviceId true now semester hlc ageMs = .ok (v, answer))
    (happlied : answer.applied = some true) :
    v = (clearByStamp u deviceId semester answer.resetHlc).1 ∧
      answer.resetHlc ≤ now + MAX_CLOCK_SKEW := by
  simp only [deleteAllCourses, bind, Except.bind, pure, Except.pure, if_true] at h
  cases hrequire : requireStamp true hlc ageMs with
  | error e => simp [hrequire] at h
  | ok _ =>
    cases htime : editTime hlc now ageMs with
    | error e => simp [hrequire, htime] at h
    | ok stamp =>
      simp only [hrequire, htime, Except.ok.injEq, resetByStamp] at h
      split at h
      · obtain ⟨rfl, rfl⟩ := Prod.mk.injEq .. ▸ h
        exact ⟨rfl, editTime_le htime⟩
      · obtain ⟨rfl, rfl⟩ := Prod.mk.injEq .. ▸ h
        cases happlied

/-- **Reset finality.** No field of a row that a protocol-2 reset kept ever holds a value stamped at
or before the reset, in every run of later writes whose initial uploads land after it what they
send as later than it. -/
theorem reset_finality {u v w : UserSync} {deviceId : Option DeviceId} {arrivedAt : Time}
    {semester : Option Term} {hlc : Option Time} {ageMs : Option Int} {answer : ResetAnswer}
    {key : CourseKey} {writes : List OverrideWrite}
    (hreset : deleteAllCourses u deviceId true arrivedAt semester hlc ageMs = .ok (v, answer))
    (happlied : answer.applied = some true) (hscope : inScope semester key = true)
    (hkept : (v.courses.get key).isSome)
    (hrun : Run OverrideWrite.step (LandsAfter key arrivedAt answer.resetHlc) v writes w) :
    (w.override key).HoldsAfter answer.resetHlc := by
  obtain ⟨rfl, harrived⟩ := deleteAllCourses_accepted hreset happlied
  refine (hrun.invariant (KeptAfter key answer.resetHlc)
    (keptAfter_clearByStamp deviceId answer.resetHlc hscope hkept) ?_).holdsAfter
  intro t l t' ht hlands hstep
  obtain rfl : l.apply t = t' := Option.some.inj hstep
  exact ht.apply harrived hlands

/-! ### A reset at 61 s -/

/-- A second, in clock units. -/
def second : Time := 1000000

/-- A school course whose English name a clock three seconds ahead has stamped 63 s. -/
def namedCourse : UserSync :=
  let roster : OverrideWrite := .upload none true (40 * second)
    ⟨[compilers], [], [], [], [compilers.term]⟩
  let name : OverrideWrite := .patch none true (60 * second)
    ⟨none, some "Compilers", some "en", none, none, some (63 * second), none⟩ compilers
  name.apply (roster.apply .fresh)

/-- The user resets the term at 61 s, which keeps the named course. -/
def resetCourse : Except HttpError (UserSync × ResetAnswer) :=
  deleteAllCourses namedCourse none true (61 * second) (some compilers.term) none (some 0)

/-- An initial upload of a device whose clock runs far ahead. -/
def aheadUpload (now : Time) : OverrideWrite :=
  .initialUpload none now []
    [⟨compilers, none, none, some "#ff0000", some (1000 * second), none, none, none⟩]

/-- An upload that reads its clock after the reset stores the colour after it. -/
theorem reset_finality_of_late_upload : ∃ v w answer, resetCourse = .ok (v, answer) ∧
    Run OverrideWrite.step (LandsAfter compilers (61 * second) answer.resetHlc) v
      [aheadUpload (62 * second)] w ∧
    (w.override compilers).colorHex = ⟨some "#ff0000", some (67 * second), none⟩ ∧
    (w.override compilers).HoldsAfter answer.resetHlc := by
  have hreset : ∃ v answer, resetCourse = .ok (v, answer) ∧ answer.applied = some true ∧
      (v.courses.get compilers).isSome ∧ ∃ w,
        execWhere OverrideWrite.step (LandsAfter compilers (61 * second) answer.resetHlc) v
          [aheadUpload (62 * second)] = some w ∧
        (w.override compilers).colorHex = ⟨some "#ff0000", some (67 * second), none⟩ :=
    ⟨_, _, rfl, rfl, rfl, _, rfl, rfl⟩
  obtain ⟨v, answer, hreset, happlied, hkept, w, hexec, hcolor⟩ := hreset
  have hrun := run_of_execWhere hexec
  exact ⟨v, w, answer, hreset, hrun, hcolor,
    reset_finality hreset happlied rfl hkept hrun⟩

/-- An upload that read its clock at 50 s and then waited for the lock until after the reset
stores the colour at 55 s. -/
theorem early_clock_lands_before_reset : ∃ v w answer, resetCourse = .ok (v, answer) ∧
    answer = ⟨0, some true, 61 * second⟩ ∧ (v.courses.get compilers).isSome ∧
    (v.override compilers).colorHex = Field.unset none ∧
    FreeRun OverrideWrite.step v [aheadUpload (50 * second)] w ∧
    (w.override compilers).colorHex = ⟨some "#ff0000", some (55 * second), none⟩ ∧
    ¬ (w.override compilers).HoldsAfter answer.resetHlc := by
  refine ⟨_, _, _, rfl, rfl, rfl, rfl, run_of_exec rfl, rfl, fun h => ?_⟩
  exact absurd (h .colorHex) (by decide)

end TigerDuck.Sync
