import Mathlib.Data.List.TakeDrop
import Mathlib.Tactic.Ring
import TigerDuck.AcademicCalendar.OneChange
import TigerDuck.Push.CourseScan
import TigerDuck.Push.Timetable

/-!
# The check agrees with the scan

With all rows as the scan read them, the check before a class reminder goes out finds the meeting
the reminder was filed for and gives the reminder's own payload, unless the class is timetabled at
midnight. The scan's window has that meeting inside; the check's, which begins at the midnight of
the class's own date and leaves its first instant out, has not.

- `changedMeeting_eq`: scan and check see the same changes.
- `filed_first`: a filed reminder's meeting is the first that the changes leave at its start.
- `recheck_accepts_iff`: when the check lets a filed reminder go as it is.
-/

namespace TigerDuck.Push

open AcademicCalendar Relational Sync

/-! ### Lists -/

section Lists

variable {α β : Type}

/-- Sorting and picking do not disturb each other. -/
theorem filter_insertionSort (r : α → α → Prop) [DecidableRel r] [Std.Total r] [IsTrans α r]
    (p : α → Bool) (l : List α) :
    (l.insertionSort r).filter p = (l.filter p).insertionSort r := by
  have hinsert : ∀ (a : α) (l : List α), l.Pairwise r →
      (l.orderedInsert r a).filter p =
        if p a = true then (l.filter p).orderedInsert r a else l.filter p := by
    intro a l
    induction l with
    | nil =>
      intro _
      by_cases ha : p a = true <;> simp [ha]
    | cons b l ih =>
      intro hsorted
      obtain ⟨hb, hl⟩ := List.pairwise_cons.mp hsorted
      have ih := ih hl
      by_cases hab : r a b
      · rw [List.orderedInsert_cons_of_le _ _ hab]
        by_cases ha : p a = true
        · rw [List.filter_cons_of_pos ha, if_pos ha]
          by_cases hpb : p b = true
          · rw [List.filter_cons_of_pos hpb, List.orderedInsert_cons_of_le _ _ hab]
          · rw [List.filter_cons_of_neg hpb]
            -- What is left of the list is all after `a` too.
            rcases hrest : l.filter p with _ | ⟨c, rest⟩
            · rfl
            · have hc : c ∈ l := (List.mem_filter.mp (hrest ▸ List.mem_cons_self)).1
              rw [List.orderedInsert_cons_of_le _ _ (trans_of r hab (hb c hc))]
        · rw [List.filter_cons_of_neg ha, if_neg ha]
      · rw [List.orderedInsert_of_not_le _ _ hab]
        by_cases hpb : p b = true
        · rw [List.filter_cons_of_pos hpb, List.filter_cons_of_pos hpb, ih]
          by_cases ha : p a = true
          · rw [if_pos ha, if_pos ha, List.orderedInsert_of_not_le _ _ hab]
          · rw [if_neg ha, if_neg ha]
        · rw [List.filter_cons_of_neg hpb, List.filter_cons_of_neg hpb, ih]
  induction l with
  | nil => rfl
  | cons a l ih =>
    rw [List.insertionSort_cons, hinsert a _ (List.pairwise_insertionSort r l), ih]
    by_cases ha : p a = true
    · rw [if_pos ha, List.filter_cons_of_pos ha, List.insertionSort_cons]
    · rw [if_neg ha, List.filter_cons_of_neg ha]

/-- An element of a joined list is in one answer, and the earlier answers come before it. -/
theorem exists_split_of_flatten {f : α → Option (List β)} {xs : List α} {ls : List (List β)}
    (h : xs.mapM f = some ls) {before after : List β} {y : β} (hy : ls.flatten = before ++ y :: after) :
    ∃ xs₁ x xs₂ l l₁ l₂, xs = xs₁ ++ x :: xs₂ ∧ f x = some l ∧ l = l₁ ++ y :: l₂ ∧
      (∀ z ∈ l₁, z ∈ before) ∧ ∀ x' ∈ xs₁, ∀ l', f x' = some l' → ∀ z ∈ l', z ∈ before := by
  induction xs generalizing ls before with
  | nil =>
    obtain rfl := Option.some.inj h
    simp at hy
  | cons x xs ih =>
    rw [List.mapM_cons] at h
    obtain ⟨l, hl, h⟩ := Option.bind_eq_some_iff.mp h
    obtain ⟨ls', hls', h⟩ := Option.bind_eq_some_iff.mp h
    obtain rfl := Option.some.inj h
    rw [List.flatten_cons] at hy
    -- The element is in a later answer, or in the first one.
    have hlater : ∀ middle, before = l ++ middle → ls'.flatten = middle ++ y :: after →
        ∃ xs₁ x' xs₂ l' l₁ l₂, x :: xs = xs₁ ++ x' :: xs₂ ∧ f x' = some l' ∧ l' = l₁ ++ y :: l₂ ∧
          (∀ z ∈ l₁, z ∈ before) ∧ ∀ x'' ∈ xs₁, ∀ l', f x'' = some l' → ∀ z ∈ l', z ∈ before := by
      rintro middle rfl hrest
      obtain ⟨xs₁, x', xs₂, l', l₁, l₂, rfl, hx', hl', hin, hearlier⟩ := ih hls' hrest
      refine ⟨x :: xs₁, x', xs₂, l', l₁, l₂, rfl, hx', hl',
        fun z hz => List.mem_append_right _ (hin z hz), fun x'' hx'' l'' hl'' z hz => ?_⟩
      rcases List.mem_cons.mp hx'' with rfl | hx''
      · obtain rfl := Option.some.inj (hl.symm.trans hl'')
        exact List.mem_append_left _ hz
      · exact List.mem_append_right _ (hearlier x'' hx'' l'' hl'' z hz)
    rcases List.append_eq_append_iff.mp hy with ⟨middle, hbefore, hrest⟩ | ⟨middle, hl', hrest⟩
    · exact hlater middle hbefore hrest
    · rcases middle with _ | ⟨y', middle⟩
      · exact hlater [] (by simpa using hl'.symm) (by simpa using hrest.symm)
      · obtain ⟨rfl, -⟩ := List.cons.inj hrest
        exact ⟨[], x, xs, l, before, middle, rfl, hl, hl', fun z hz => hz, by simp⟩

/-- The first element that passes is found, whatever comes after it. -/
theorem findSome?_eq_of_first {g : Int × String → Option β} {l : List (Int × String)} {b : β}
    (hsorted : l.Pairwise (·.1 < ·.1)) {x : Int × String} (hx : x ∈ l) (hb : g x = some b)
    (hfirst : ∀ y ∈ l, y.1 < x.1 → g y = none) : l.findSome? g = some b := by
  obtain ⟨l₁, l₂, rfl⟩ := List.append_of_mem hx
  refine List.findSome?_eq_some_iff.mpr ⟨l₁, x, l₂, rfl, hb, fun y hy => ?_⟩
  exact hfirst y (List.mem_append_left _ hy)
    ((List.pairwise_append.mp hsorted).2.2 y hy x List.mem_cons_self)

/-- What is before an entry of a sorted list is in front of it. -/
theorem mem_left_of_lt {l₁ l₂ : List (Int × β)} {x y : Int × β}
    (hsorted : (l₁ ++ x :: l₂).Pairwise (·.1 < ·.1)) (hy : y ∈ l₁ ++ x :: l₂) (hlt : y.1 < x.1) :
    y ∈ l₁ := by
  rcases List.mem_append.mp hy with hy | hy
  · exact hy
  · rcases List.mem_cons.mp hy with rfl | hy
    · exact absurd hlt (lt_irrefl _)
    · have hgt := (List.pairwise_cons.mp (List.pairwise_append.mp hsorted).2.1).1 y hy
      exact absurd hlt hgt.le.not_gt

end Lists

/-! ### Changed starts -/

/-- The digits a checked time is made of. -/
def TIME_DIGITS : List Char := ['0', '1', '2', '3', '4', '5', '6', '7', '8', '9']

theorem mem_timeDigits {c : Char} (h : '0' ≤ c ∧ c ≤ '9') : c ∈ TIME_DIGITS := by
  obtain ⟨h₁, h₂⟩ := h
  have h₁ : 48 ≤ c.toNat := h₁
  have h₂ : c.toNat ≤ 57 := h₂
  have hc : c = Char.ofNat c.toNat := (Char.ofNat_toNat c).symm
  generalize c.toNat = n at h₁ h₂ hc
  interval_cases n <;> subst hc <;> decide

/-- What has been run for each two of the digits. -/
theorem forall_timeDigits {p : Char → Char → Bool}
    (h : (TIME_DIGITS.all fun a => TIME_DIGITS.all fun b => p a b) = true) {a b : Char}
    (ha : a ∈ TIME_DIGITS) (hb : b ∈ TIME_DIGITS) : p a b = true :=
  List.all_eq_true.mp (List.all_eq_true.mp h a ha) b hb

theorem int_hour : ∀ a ∈ TIME_DIGITS, ∀ b ∈ TIME_DIGITS,
    (a == '0' || a == '1' || a == '2' && decide (b ≤ '3')) = true →
      (int [a, b]).any (fun n => decide (0 ≤ n ∧ n < 24)) = true := by
  intro a ha b hb hhour
  have hall : (TIME_DIGITS.all fun a => TIME_DIGITS.all fun b =>
      !(a == '0' || a == '1' || a == '2' && decide (b ≤ '3')) ||
        (int [a, b]).any fun n => decide (0 ≤ n ∧ n < 24)) = true := by decide +kernel
  simpa only [hhour, Bool.not_true, Bool.false_or] using forall_timeDigits hall ha hb

theorem int_minute : ∀ a ∈ TIME_DIGITS, ∀ b ∈ TIME_DIGITS, decide (a ≤ '5') = true →
    (int [a, b]).any (fun n => decide (0 ≤ n ∧ n < 60)) = true := by
  intro a ha b hb hminute
  have hall : (TIME_DIGITS.all fun a => TIME_DIGITS.all fun b =>
      !decide (a ≤ '5') || (int [a, b]).any fun n => decide (0 ≤ n ∧ n < 60)) = true := by
    decide +kernel
  simpa only [hminute, Bool.not_true, Bool.false_or] using forall_timeDigits hall ha hb

theorem colon_not_digit : ':' ∉ TIME_DIGITS := by decide

/-- A time the database has checked is a time of the day. -/
theorem clock_of_isHHMM {raw : String} (h : isHHMM raw = true) : ∃ m, clock raw = .minute m := by
  unfold isHHMM at h
  split at h
  · rename_i a b c d hraw
    have hthree : '3' ≤ '9' := by decide
    have hfive : '5' ≤ '9' := by decide
    have hdigits : a ∈ TIME_DIGITS ∧ b ∈ TIME_DIGITS ∧ c ∈ TIME_DIGITS ∧ d ∈ TIME_DIGITS ∧
        (a == '0' || a == '1' || a == '2' && decide (b ≤ '3')) = true ∧ decide (c ≤ '5') = true := by
      simp only [Bool.or_eq_true, Bool.and_eq_true, beq_iff_eq, decide_eq_true_eq, Char.isDigit] at h ⊢
      rcases h with ⟨⟨⟨ha, hb⟩, hc⟩, hd⟩ | ⟨⟨⟨rfl, hb⟩, hc⟩, hd⟩
      · refine ⟨?_, mem_timeDigits ⟨hb.1, hb.2⟩, mem_timeDigits ⟨hc.1, Char.le_trans hc.2 hfive⟩,
          mem_timeDigits ⟨hd.1, hd.2⟩, Or.inl ha, hc.2⟩
        rcases ha with rfl | rfl <;> decide
      · exact ⟨by decide, mem_timeDigits ⟨hb.1, Char.le_trans hb.2 hthree⟩,
          mem_timeDigits ⟨hc.1, Char.le_trans hc.2 hfive⟩, mem_timeDigits ⟨hd.1, hd.2⟩,
          Or.inr ⟨rfl, hb.2⟩, hc.2⟩
    obtain ⟨ha, hb, hc, hd, hhour, hminute⟩ := hdigits
    obtain ⟨hour, hint, hrange⟩ := (Option.any_eq_true _ _).mp (int_hour a ha b hb hhour)
    obtain ⟨minute, hint', hrange'⟩ := (Option.any_eq_true _ _).mp (int_minute c hc d hd hminute)
    have hrange := of_decide_eq_true hrange
    have hrange' := of_decide_eq_true hrange'
    have hspan : raw.toList.span (· ≠ ':') = ([a, b], [':', c, d]) := by
      have ha' : a ≠ ':' := fun heq => colon_not_digit (heq ▸ ha)
      have hb' : b ≠ ':' := fun heq => colon_not_digit (heq ▸ hb)
      simp [hraw, List.span_eq_takeWhile_dropWhile, ha', hb']
    have hfits : (!fitsInt hour || !fitsInt minute) = false := by
      simp only [fitsInt, Bool.or_eq_false_iff, Bool.not_eq_false', Bool.and_eq_true,
        decide_eq_true_eq]
      omega
    refine ⟨(60 * hour + minute).toNat, ?_⟩
    simp only [clock, hspan, List.drop_succ_cons, List.drop_zero, hint, hint']
    rw [time, hfits, if_neg (by decide), if_pos ⟨hrange.1, hrange.2, hrange'.1, hrange'.2⟩]
  · cases h

/-! ### The changes to a meeting -/

section Changes

variable {data : ClassData} {course : ClassCourse} {day : Day} {period : String} {kind : Kind}
  {row : Row}

/-- What a table filled from rows has is one of them. -/
theorem mem_of_get_foldl_set {κ α : Type} [DecidableEq κ] (key : α → κ) (rows : List α) {k : κ}
    {a : α} : ∀ found : Table κ α, (rows.foldl (fun found row => found.set (key row) row) found).get k
      = some a → (a ∈ rows ∧ key a = k) ∨ found.get k = some a := by
  induction rows with
  | nil => exact fun found h => Or.inr h
  | cons row rows ih =>
    intro found h
    rcases ih _ h with ⟨hmem, hkey⟩ | hfound
    · exact Or.inl ⟨List.mem_cons_of_mem _ hmem, hkey⟩
    · rw [Table.get_set] at hfound
      by_cases hk : k = key row
      · rw [if_pos hk] at hfound
        obtain rfl := Option.some.inj hfound
        exact Or.inl ⟨List.mem_cons_self, hk.symm⟩
      · rw [if_neg hk] at hfound
        exact Or.inr hfound

/-- A change to a meeting is one of those loaded, of its kind. -/
theorem mem_of_get_changesOf {changes : List Row}
    (h : (changesOf changes course day period).get kind = some row) :
    row ∈ changes ∧ row.change.columns.kind = kind := by
  unfold changesOf at h
  split at h
  · split at h
    · cases h
    · obtain ⟨hmem, hkind⟩ | hnone :=
        mem_of_get_foldl_set (fun row : Row => row.change.columns.kind) _ _ h
      · exact ⟨(List.mem_filter.mp hmem).1, hkind⟩
      · cases hnone
  · cases h

theorem mem_of_mem_courseChanges (h : row ∈ courseChanges data course) :
    ∃ terms courseNo, row ∈ loadCourseChanges data.calendar terms courseNo := by
  unfold courseChanges at h
  split at h
  · split at h
    · cases h
    · exact ⟨_, _, h⟩
  · cases h

/-- A loaded start change has a time. -/
theorem changedStart_isSome {terms : List String} {courseNo : Option String}
    (h : row ∈ loadCourseChanges data.calendar terms courseNo)
    (hkind : row.change.columns.kind = .startTime) : ∃ m, changedStart row = some m ∧ m < 1440 := by
  obtain ⟨raw, hraw, htime⟩ := data.checked row.id row.change (mem_loadCourseChanges h).1 hkind
  obtain ⟨m, hm⟩ := clock_of_isHHMM htime
  refine ⟨m, by simp [changedStart, hraw, hm], ?_⟩
  simp only [clock] at hm
  split at hm
  · exact lt_of_time hm
  · cases hm

/-- A meeting is read without an exception, and stays on its day. -/
theorem changedMeeting_spec (data : ClassData) (course : ClassCourse) (tz : Int) (day : Day)
    {m : Nat} (hm : m < 1440) (period : String) :
    ∃ meeting, changedMeeting tz (courseChanges data course) course (combine tz day m) period =
        some meeting ∧
      ∀ start room, meeting = some (start, room) → ∃ m', m' < 1440 ∧ start = combine tz day m' := by
  unfold changedMeeting
  simp only [dayOf_combine tz day hm]
  split
  · exact ⟨none, rfl, by simp⟩
  · split
    · rename_i row hrow
      obtain ⟨hmem, hkind⟩ := mem_of_get_changesOf hrow
      obtain ⟨terms, courseNo, hloaded⟩ := mem_of_mem_courseChanges hmem
      obtain ⟨m', hm', hlt⟩ := changedStart_isSome hloaded hkind
      refine ⟨_, by rw [hm']; rfl, fun start room h => ⟨m', hlt, ?_⟩⟩
      exact (Prod.mk.inj (Option.some.inj h)).1.symm
    · refine ⟨_, rfl, fun start room h => ⟨m, hm, ?_⟩⟩
      exact (Prod.mk.inj (Option.some.inj h)).1.symm

end Changes

/-! ### The same changes -/

theorem rowLe_iff {a b : Row} :
    rowLe a b = true ↔ a.change.columns.startDate < b.change.columns.startDate ∨
      a.change.columns.startDate = b.change.columns.startDate ∧
        (a.change.courseNo < b.change.courseNo ∨
          a.change.courseNo = b.change.courseNo ∧ a.id ≤ b.id) := by
  simp [rowLe]

theorem rowLe_trans {a b c : Row} (hab : rowLe a b = true) (hbc : rowLe b c = true) :
    rowLe a c = true := by
  rw [rowLe_iff] at *
  rcases hab with hab | ⟨hab, hab'⟩ <;> rcases hbc with hbc | ⟨hbc, hbc'⟩
  · exact Or.inl (Nat.lt_trans hab hbc)
  · exact Or.inl (hbc ▸ hab)
  · exact Or.inl (hab ▸ hbc)
  · refine Or.inr ⟨hab.trans hbc, ?_⟩
    rcases hab' with hab' | ⟨hab', hid⟩ <;> rcases hbc' with hbc' | ⟨hbc', hid'⟩
    · exact Or.inl (String.lt_trans hab' hbc')
    · exact Or.inl (hbc' ▸ hab')
    · exact Or.inl (hab' ▸ hbc')
    · exact Or.inr ⟨hab'.trans hbc', Nat.le_trans hid hid'⟩

theorem rowLe_total (a b : Row) : rowLe a b = true ∨ rowLe b a = true := by
  simp only [rowLe_iff]
  rcases Nat.lt_trichotomy a.change.columns.startDate b.change.columns.startDate with h | h | h
  · exact Or.inl (Or.inl h)
  · by_cases hlt : a.change.courseNo < b.change.courseNo
    · exact Or.inl (Or.inr ⟨h, Or.inl hlt⟩)
    by_cases hgt : b.change.courseNo < a.change.courseNo
    · exact Or.inr (Or.inr ⟨h.symm, Or.inl hgt⟩)
    have heq := String.le_antisymm (String.not_lt.mp hgt) (String.not_lt.mp hlt)
    rcases Nat.le_total a.id b.id with hid | hid
    · exact Or.inl (Or.inr ⟨h, Or.inr ⟨heq, hid⟩⟩)
    · exact Or.inr (Or.inr ⟨h.symm, Or.inr ⟨heq.symm, hid⟩⟩)
  · exact Or.inr (Or.inl h)

/-- The changes loaded for a course are those among the changes loaded for its term. -/
theorem meetingChanges_eq (data : ClassData) {terms : List String} {term courseNo : String}
    (hterm : term ∈ terms) (day : Day) (period : String) :
    meetingChanges (loadCourseChanges data.calendar terms none) term courseNo day period =
      meetingChanges (loadCourseChanges data.calendar [term] (some courseNo)) term courseNo day
        period := by
  have : Std.Total fun a b : Row => rowLe a b = true := ⟨rowLe_total⟩
  have : IsTrans Row fun a b => rowLe a b = true := ⟨fun _ _ _ => rowLe_trans⟩
  unfold meetingChanges loadCourseChanges
  rw [filter_insertionSort, filter_insertionSort, List.filter_map, List.filter_map, Table.select,
    Table.select, List.filter_filter, List.filter_filter]
  congr 3
  refine List.filter_congr fun r _ => ?_
  by_cases hchanges : changesMeeting term courseNo day period
      ⟨r.1, r.2, meetingWeekdays data.calendar r.2⟩ = true
  · obtain ⟨-, hcode, hno, -⟩ := changesMeeting_iff.mp hchanges
    have hcode : r.2.termCode = term := hcode
    have hno : r.2.courseNo = courseNo := hno
    simp [hcode, hno, hterm]
  · simp [hchanges]

/-- Scan and check see the same changes to a course's meetings. -/
theorem changedMeeting_eq (data : ClassData) (course : ClassCourse) {terms : List String}
    (hterm : course.semester ∈ terms) (tz : Int) :
    changedMeeting tz (loadCourseChanges data.calendar terms none) course =
      changedMeeting tz (courseChanges data course) course := by
  ext occurrence period : 2
  have hchanges : changesOf (loadCourseChanges data.calendar terms none) course
      (dayOf tz occurrence) period =
      changesOf (courseChanges data course) course (dayOf tz occurrence) period := by
    rw [changesOf, changesOf, courseChanges]
    rcases course.courseNo with _ | courseNo
    · rfl
    · by_cases hempty : courseNo = ""
      · simp [hempty]
      · simp only [hempty, if_false]
        exact meetingChanges_eq data hterm _ _
  rw [changedMeeting, changedMeeting, hchanges]

/-! ### What the scan filed -/

section Filed

variable {F : Type} {py : ClassFloats F} {cfg : ClassSettings F} {data : ClassData} {now : Time}
  {waiting : List (JobId × UserId × DedupeKey)} {taken : UserId × DedupeKey → Bool}

/-- A filed reminder is the first of its key. -/
theorem exists_split_of_filed {reminders : List (ClassReminder F)} {r : ClassReminder F}
    (h : r ∈ fileReminders taken reminders) :
    ∃ before after, reminders = before ++ r :: after ∧ ∀ r' ∈ before, r'.key ≠ r.key := by
  have hconcat : ∀ (l : List (ClassReminder F)) (x : ClassReminder F),
      fileReminders taken (l ++ [x]) =
        if taken x.key || ((fileReminders taken l).map ClassReminder.key).contains x.key then
          fileReminders taken l
        else fileReminders taken l ++ [x] := by
    intro l x
    rw [fileReminders, List.foldl_append]
    rfl
  have hheld : ∀ (l : List (ClassReminder F)), ∀ r' ∈ l,
      taken r'.key = true ∨ r'.key ∈ (fileReminders taken l).map ClassReminder.key := by
    intro l
    induction l using List.reverseRecOn with
    | nil => simp
    | append_singleton l x ih =>
      intro r' hr'
      rw [hconcat]
      by_cases hx : (taken x.key || ((fileReminders taken l).map ClassReminder.key).contains x.key)
          = true
      · rw [if_pos hx]
        rcases List.mem_append.mp hr' with hr' | hr'
        · exact ih r' hr'
        · obtain rfl := List.mem_singleton.mp hr'
          simpa using hx
      · rw [if_neg hx]
        rcases List.mem_append.mp hr' with hr' | hr'
        · refine (ih r' hr').imp_right fun hmem => ?_
          rw [List.map_append]
          exact List.mem_append_left _ hmem
        · obtain rfl := List.mem_singleton.mp hr'
          exact Or.inr (by simp)
  induction reminders using List.reverseRecOn with
  | nil => simp [fileReminders] at h
  | append_singleton l x ih =>
    have hold : r ∈ fileReminders taken l → ∃ before after, l ++ [x] = before ++ r :: after ∧
        ∀ r' ∈ before, r'.key ≠ r.key := by
      intro h
      obtain ⟨before, after, rfl, hfirst⟩ := ih h
      exact ⟨before, after ++ [x], by simp, hfirst⟩
    rw [hconcat] at h
    by_cases hx : (taken x.key || ((fileReminders taken l).map ClassReminder.key).contains x.key)
        = true
    · rw [if_pos hx] at h
      exact hold h
    · rw [if_neg hx] at h
      rcases List.mem_append.mp h with h | h
      · exact hold h
      · obtain rfl := List.mem_singleton.mp h
        refine ⟨l, [], rfl, fun r' hr' hkey => hx ?_⟩
        have := hheld l r' hr'
        rw [hkey] at this
        simpa using this

/-- The first element that is picked, before any picking. -/
theorem exists_split_of_filter {α : Type} {p : α → Bool} {l before after : List α} {x : α}
    (h : l.filter p = before ++ x :: after) :
    ∃ before' after', l = before' ++ x :: after' ∧ p x = true ∧
      ∀ y ∈ before', p y = true → y ∈ before := by
  obtain ⟨l₁, l₂, rfl, rfl, hl₂⟩ := List.filter_eq_append_iff.mp h
  obtain ⟨m₁, m₂, rfl, hm₁, hx, -⟩ := List.filter_eq_cons_iff.mp hl₂
  refine ⟨l₁ ++ m₁, m₂, by simp, hx, fun y hy hpy => ?_⟩
  rcases List.mem_append.mp hy with hy | hy
  · exact List.mem_filter.mpr ⟨hy, hpy⟩
  · exact absurd hpy (hm₁ y hy)

/-- The meeting a reminder was filed for. -/
structure FiledFor (py : ClassFloats F) (cfg : ClassSettings F) (data : ClassData) (now : Time)
    (r : ClassReminder F) (id : Nat) (course : ClassCourse) (occurrence : Int) (period : String)
    (start : Int) (room : Option String) : Prop where
  stored : data.courses.get id = some course
  enrolled : course.enrolled = true
  /-- The reminder is that of the meeting, by one of the offsets. -/
  reminder : ∃ offset fireAt, r = classReminder py cfg id course start room offset fireAt
  /-- The meeting is timetabled at the occurrence, in the scan's window. -/
  timetabled : ∃ today meetings, localDate cfg.tz now = some today ∧
    classMeetings cfg.tz cfg.periodTimes course.schedule (combine cfg.tz today 0)
      (now + cfg.window) = some meetings ∧ (occurrence, period) ∈ meetings
  /-- The changes leave it at the start, in the room. -/
  changed : changedMeeting cfg.tz (courseChanges data course) course occurrence period =
    some (some (start, room))
  /-- No earlier meeting of the day is left there. -/
  first : ∀ today meetings, localDate cfg.tz now = some today →
    classMeetings cfg.tz cfg.periodTimes course.schedule (combine cfg.tz today 0)
      (now + cfg.window) = some meetings →
    ∀ o ∈ meetings, o.1 < occurrence → dayOf cfg.tz o.1 = dayOf cfg.tz occurrence → ∀ room',
      changedMeeting cfg.tz (courseChanges data course) course o.1 o.2 ≠ some (some (start, room'))

/-- Every reminder of a meeting is one of its offsets', and each offset has one. -/
theorem remindersOfMeeting_spec {changes : List Row} {id : Nat} {course : ClassCourse}
    {offsets : List F} {meeting : Int × String} {l : List (ClassReminder F)} {r : ClassReminder F}
    (h : remindersOfMeeting py cfg now changes id course offsets meeting = some l) (hr : r ∈ l) :
    ∃ start room, changedMeeting cfg.tz changes course meeting.1 meeting.2 = some (some (start, room)) ∧
      (now : Int) < start ∧ ∃ offset fireAt, r = classReminder py cfg id course start room offset fireAt ∧
        ∀ (o : Int × String) room', changedMeeting cfg.tz changes course o.1 o.2 =
          some (some (start, room')) →
            ∃ l', remindersOfMeeting py cfg now changes id course offsets o = some l' ∧
              classReminder py cfg id course start room' offset fireAt ∈ l' := by
  obtain ⟨_ | ⟨start, room⟩, hchanged, h⟩ := Option.bind_eq_some_iff.mp h
  · obtain rfl := Option.some.inj h
    cases hr
  · dsimp only at h
    by_cases hbegun : start ≤ (now : Int)
    · rw [if_pos hbegun] at h
      obtain rfl := Option.some.inj h
      cases hr
    · rw [if_neg hbegun] at h
      obtain ⟨offset, hoffset, hsome⟩ := (mem_of_mapM_eq_some h).mp hr
      obtain ⟨fireAt, hfire, rfl⟩ := Option.map_eq_some_iff.mp hsome
      refine ⟨start, room, hchanged, not_le.mp hbegun, offset, fireAt, rfl, fun o room' ho => ?_⟩
      -- The fire times depend on the start alone.
      have hall : ∀ offset ∈ offsets, ((classFireTime py start offset).map
          (classReminder py cfg id course start room' offset)).isSome = true := by
        intro offset' hoffset'
        have hisSome := mapM_isSome_iff.mp (Option.isSome_of_eq_some h) offset' hoffset'
        rw [Option.isSome_map] at hisSome ⊢
        exact hisSome
      obtain ⟨l', hl'⟩ := Option.isSome_iff_exists.mp (mapM_isSome_iff.mpr hall)
      refine ⟨l', ?_, (mem_of_mapM_eq_some hl').mpr ⟨offset, hoffset, by rw [hfire]; rfl⟩⟩
      rw [remindersOfMeeting, ho, Option.bind_some]
      dsimp only
      rw [if_neg hbegun]
      exact hl'

/-- A filed reminder's meeting is the first that the changes leave at its start. -/
theorem filed_first {scan : ClassScan F}
    (h : scanCourseReminders py cfg data now waiting taken = some scan) {r : ClassReminder F}
    (hr : r ∈ scan.filed) :
    ∃ id course occurrence period start room,
      FiledFor py cfg data now r id course occurrence period start room := by
  unfold scanCourseReminders at h
  obtain ⟨today, htoday, h⟩ := Option.bind_eq_some_iff.mp h
  obtain ⟨last, hlast, h⟩ := Option.bind_eq_some_iff.mp h
  by_cases hstep : (!(termDates data).isEmpty && decide (last = LAST_DAY)) = true
  · rw [if_pos hstep] at h
    cases h
  rw [if_neg hstep] at h
  dsimp only at h
  split at h
  · obtain rfl := Option.some.inj h
    cases hr
  obtain ⟨_, -, h⟩ := Option.bind_eq_some_iff.mp h
  obtain ⟨answers, hanswers, rfl⟩ := Option.map_eq_some_iff.mp h
  set eligible := eligibleCourses cfg data (daysFromTo today last) with heligible
  set changes := loadCourseChanges data.calendar (eligible.map (·.2.semester)) none with hchanges
  obtain ⟨before, after, hdue, hfirst⟩ := exists_split_of_filed hr
  obtain ⟨before', after', hsplit, hpick, hbefore⟩ := exists_split_of_filter hdue
  obtain ⟨_, ⟨id, course⟩, _, l, l₁, l₂, hrows, hcourse, hl, hin, -⟩ :=
    exists_split_of_flatten hanswers hsplit
  have hmem : (id, course) ∈ eligible := by rw [hrows]; simp
  have hloaded : (id, course) ∈ loadedCourses cfg data (daysFromTo today last) := by
    rw [heligible, eligibleCourses] at hmem
    split at hmem
    · exact (List.mem_filter.mp hmem).1
    · exact hmem
  unfold loadedCourses at hloaded
  obtain ⟨hstored, hcond⟩ := (Table.mem_select_iff _ _ _ _).mp hloaded
  have hterm : course.semester ∈ eligible.map (·.2.semester) := List.mem_map.mpr ⟨_, hmem, rfl⟩
  have hsame := changedMeeting_eq data course hterm cfg.tz
  rw [← hchanges] at hsame
  -- Within the course, the meeting the reminder is of.
  unfold remindersOfCourse at hcourse
  obtain ⟨⟨enabled, offsets⟩, -, hcourse⟩ := Option.bind_eq_some_iff.mp hcourse
  dsimp only at hcourse
  split at hcourse
  swap
  · obtain rfl := Option.some.inj hcourse
    simp at hl
  obtain ⟨meetings, hmeetings, hcourse⟩ := Option.bind_eq_some_iff.mp hcourse
  obtain ⟨answers', hanswers', rfl⟩ := Option.map_eq_some_iff.mp hcourse
  obtain ⟨earlier, ⟨occurrence, period⟩, later, l', l₁', l₂', hpicked, hmeeting, hl', -, hearlier⟩ :=
    exists_split_of_flatten hanswers' hl
  have hpickedMem : (occurrence, period) ∈
      meetings.filter fun m => meets cfg data id course (dayOf cfg.tz m.1) := by
    rw [hpicked]
    simp
  obtain ⟨hocc, hmeets⟩ := List.mem_filter.mp hpickedMem
  obtain ⟨start, room, hchanged, -, offset, fireAt, hreminder, hothers⟩ :=
    remindersOfMeeting_spec hmeeting (r := r) (by rw [hl']; simp)
  refine ⟨id, course, occurrence, period, start, room, hstored, ?_, ⟨offset, fireAt, hreminder⟩,
    ⟨today, meetings, htoday, hmeetings, hocc⟩, by rw [← hsame]; exact hchanged, ?_⟩
  · simp only [Bool.and_eq_true] at hcond
    exact hcond.1.1
  · intro today' meetings' htoday' hmeetings' o ho hlt hday room' hleft
    obtain rfl := Option.some.inj (htoday.symm.trans htoday')
    obtain rfl := Option.some.inj (hmeetings.symm.trans hmeetings')
    rw [← hsame] at hleft
    -- The earlier meeting would have had a reminder of the same key before this one.
    obtain ⟨l'', hl'', hr'⟩ := hothers o room' hleft
    have hoPicked : o ∈ meetings.filter fun m => meets cfg data id course (dayOf cfg.tz m.1) :=
      List.mem_filter.mpr ⟨ho, by rw [hday]; exact hmeets⟩
    have hsorted := (classMeetings_pairwise hmeetings).filter
      fun m => meets cfg data id course (dayOf cfg.tz m.1)
    rw [hpicked] at hoPicked hsorted
    have hoEarlier : o ∈ earlier := by
      rcases List.mem_append.mp hoPicked with hin | hin
      · exact hin
      · rcases List.mem_cons.mp hin with rfl | hin
        · exact absurd hlt (lt_irrefl _)
        · have hgt := (List.pairwise_cons.mp (List.pairwise_append.mp hsorted).2.1).1 o hin
          exact absurd hlt (not_lt.mpr hgt.le)
    have hbefore'' := hin _ (hearlier o hoEarlier l'' hl'' _ hr')
    have hfire : r.fireAt = fireAt := by rw [hreminder, classReminder]
    have huser : r.userId = course.userId := by rw [hreminder, classReminder]
    have hkey : r.dedupeKey = .courseReminder id (py.format offset) (epochOf start).toNat := by
      rw [hreminder, classReminder]
    rw [hfire, huser] at hpick
    refine hfirst _ (hbefore _ hbefore'' hpick) ?_
    rw [ClassReminder.key, ClassReminder.key, huser, hkey, classReminder]

end Filed

/-! ### The check -/

section Check

variable {tz start : Int} {changes : List Row} {course : ClassCourse}

/-- What a meeting is left as, if the changes leave it at the start. -/
def leftAt (tz : Int) (changes : List Row) (course : ClassCourse) (start : Int)
    (o : Int × String) : Option (Int × Option String) :=
  (changedMeeting tz changes course o.1 o.2).join.filter (·.1 = start)

theorem leftAt_of_changed {t : Int} {p : String} {room : Option String}
    (h : changedMeeting tz changes course t p = some (some (start, room))) :
    leftAt tz changes course start (t, p) = some (start, room) := by
  simp [leftAt, h]

theorem leftAt_eq_some_iff {o : Int × String} {meeting : Int × Option String} :
    leftAt tz changes course start o = some meeting ↔ ∃ room,
      changedMeeting tz changes course o.1 o.2 = some (some (start, room)) ∧
        meeting = (start, room) := by
  obtain ⟨start', room'⟩ := meeting
  rw [leftAt, Option.filter_eq_some_iff, Option.join_eq_some_iff, decide_eq_true_eq]
  constructor
  · rintro ⟨h, rfl⟩
    exact ⟨room', h, rfl⟩
  · rintro ⟨room, h, heq⟩
    obtain ⟨rfl, rfl⟩ := Prod.mk.inj heq
    exact ⟨h, rfl⟩

/-- Where no meeting raises, the check takes the first that is left at the start. -/
theorem meetingAt_eq {l : List (Int × String)}
    (h : ∀ o ∈ l, (changedMeeting tz changes course o.1 o.2).isSome = true) :
    meetingAt tz changes course start l = some (l.findSome? (leftAt tz changes course start)) := by
  induction l with
  | nil => rfl
  | cons o l ih =>
    obtain ⟨meeting, hmeeting⟩ := Option.isSome_iff_exists.mp (h o List.mem_cons_self)
    rw [meetingAt, hmeeting, Option.bind_some, List.findSome?_cons, leftAt, hmeeting,
      Option.join_some, ih fun o' ho' => h o' (List.mem_cons_of_mem _ ho')]
    rcases meeting with _ | ⟨start', room'⟩
    · rfl
    · by_cases heq : start' = start
      · simp [heq, Option.filter]
      · simp [heq, Option.filter]

/-- A day later at the same time. -/
theorem combine_add_day (tz : Int) (d : Day) : combine tz d 0 + DAY = combine tz (d + 1) 0 := by
  rw [combine, combine]
  push_cast
  ring

theorem localDate_combine (tz : Int) {d : Day} (h : 1 ≤ d ∧ d ≤ LAST_DAY) {m : Nat} (hm : m < 1440) :
    localDate tz (combine tz d m) = some d := by
  rw [localDate]
  simp only [add_combine tz d hm]
  rw [if_pos ⟨by exact_mod_cast h.1, by exact_mod_cast h.2⟩, Int.toNat_natCast]

/-- A time of the day in a zone of whole seconds is a whole number of seconds. -/
theorem epochOf_combine (utcOffset : Int) (d : Day) (m : Nat) :
    epochOf (combine (utcOffset * SECOND) d m) * SECOND = combine (utcOffset * SECOND) d m := by
  have hday : DAY = 86400 * SECOND := by decide
  have hminute : MINUTE = 60 * SECOND := by decide
  rw [epochOf, Int.ediv_mul_cancel]
  rw [combine, hday, hminute]
  exact ⟨((d : Int) - EPOCH_DAY) * 86400 + m * 60 - utcOffset, by ring⟩

/-- An instant with a meeting is a time of its own day. -/
theorem exists_of_periodAt {slots : List Slot} (hslots : ∀ s ∈ slots, s.start < 1440) {t : Int}
    {p : String} (h : periodAt tz slots t = some p) :
    ∃ m, m < 1440 ∧ t = combine tz (dayOf tz t) m := by
  obtain ⟨slot, hslot, -⟩ := Option.map_eq_some_iff.mp h
  have hat := List.find?_some hslot
  rw [decide_eq_true_eq] at hat
  exact ⟨slot.start, hslots slot (List.mem_of_find?_eq_some hslot), hat.2.symm⟩

variable {F : Type} {py : ClassFloats F} {cfg : ClassSettings F} {data : ClassData} {now : Time}
  {r : ClassReminder F} {id : Nat} {occurrence : Int} {period : String} {room : Option String}

/-- Later on the day, and before any other meeting left at the start but one at midnight, the
course has a meeting that the changes leave at the start and whose reminder reads the same. -/
def LaterReadsAlike (cfg : ClassSettings F) (data : ClassData) (course : ClassCourse)
    (slots : List Slot) (day : Day) (start : Int) (body : String) : Prop :=
  ∃ m period room, (0 < m ∧ m < 1440) ∧
    periodAt cfg.tz slots (combine cfg.tz day m) = some period ∧
    changedMeeting cfg.tz (courseChanges data course) course (combine cfg.tz day m) period =
      some (some (start, room)) ∧ reminderBody cfg.tz start room = body ∧
    ∀ m', 0 < m' → m' < m → ∀ period', periodAt cfg.tz slots (combine cfg.tz day m') = some period' →
      ∀ room', changedMeeting cfg.tz (courseChanges data course) course (combine cfg.tz day m')
        period' ≠ some (some (start, room'))

/-- The date of a filed reminder's meeting, and what its course has on it. -/
structure MeetsOn (cfg : ClassSettings F) (data : ClassData) (course : ClassCourse)
    (slots : List Slot) (day : Day) (occurrence : Int) (period : String) (start : Int) : Prop where
  read : slotsOf cfg.periodTimes course.schedule = some slots
  date : 1 ≤ day ∧ day < LAST_DAY
  timetabled : periodAt cfg.tz slots occurrence = some period
  onDay : ∃ m, m < 1440 ∧ occurrence = combine cfg.tz day m
  leftOnDay : ∃ m, m < 1440 ∧ start = combine cfg.tz day m
  first : ∀ m p, m < 1440 → combine cfg.tz day 0 < combine cfg.tz day m →
    combine cfg.tz day m < occurrence → periodAt cfg.tz slots (combine cfg.tz day m) = some p →
      ∀ room, changedMeeting cfg.tz (courseChanges data course) course (combine cfg.tz day m) p ≠
        some (some (start, room))

theorem FiledFor.meetsOn (h : FiledFor py cfg data now r id course occurrence period start room) :
    ∃ slots, MeetsOn cfg data course slots (dayOf cfg.tz occurrence) occurrence period start := by
  obtain ⟨today, meetings, htoday, hmeetings, hocc⟩ := h.timetabled
  obtain ⟨slots, hslots, -⟩ := Option.bind_eq_some_iff.mp hmeetings
  obtain ⟨hwindow, hperiod⟩ := (mem_classMeetings_iff hslots hmeetings).mp hocc
  obtain ⟨m, hm, hocc'⟩ := exists_of_periodAt (start_lt_of_mem hslots) hperiod
  have hchanged := h.changed
  rw [hocc'] at hchanged
  obtain ⟨meeting, hread, hday⟩ := changedMeeting_spec data course cfg.tz _ hm period
  rw [hread] at hchanged
  -- The window's dates hold the meeting's.
  have hdates : today ≤ dayOf cfg.tz occurrence ∧ dayOf cfg.tz occurrence < LAST_DAY := by
    obtain ⟨-, hnil⟩ | ⟨-, hfits, -⟩ := (classMeetings_eq_some_iff hslots).mp hmeetings
    · rw [hnil] at hocc
      cases hocc
    · have hstart := dayOf_combine cfg.tz today (show 0 < 1440 by decide)
      have hfirst : today ≤ dayOf cfg.tz occurrence := hstart ▸ dayOf_mono hwindow.1.le
      have hlast : dayOf cfg.tz occurrence ≤ dayOf cfg.tz (now + cfg.window) :=
        dayOf_mono hwindow.2
      exact ⟨hfirst, lt_of_le_of_lt hlast (hfits.next (by rw [hstart]; exact hfirst.trans hlast))⟩
  have hone : 1 ≤ today := Int.ofNat_le.mp (localDate_eq_some htoday).2.1
  refine ⟨slots, hslots, ⟨hone.trans hdates.1, hdates.2⟩, hperiod, ⟨m, hm, hocc'⟩,
    hday start room (Option.some.inj hchanged), fun m' p hm' hlater hearlier hp room' => ?_⟩
  have hfrom : combine cfg.tz today 0 ≤ combine cfg.tz (dayOf cfg.tz occurrence) 0 := by
    rw [combine, combine]
    have hle : (today : Int) ≤ (dayOf cfg.tz occurrence : Int) := Int.ofNat_le.mpr hdates.1
    exact Int.sub_le_sub_right (Int.add_le_add_right (Int.mul_le_mul_of_nonneg_right
      (Int.sub_le_sub_right hle _) (by decide)) _) _
  refine h.first today meetings htoday hmeetings (_, p) ?_ hearlier ?_ room'
  · exact (mem_classMeetings_iff hslots hmeetings).mpr
      ⟨⟨lt_of_le_of_lt hfrom hlater, hearlier.le.trans hwindow.2⟩, hp⟩
  · exact dayOf_combine cfg.tz _ hm'

/-- What the check answers for a filed reminder: the first meeting after the midnight of its day
that is left at its start. -/
theorem recheck_eq {slots : List Slot} {day : Day}
    (h : FiledFor py cfg data now r id course occurrence period start room)
    (hmeets : MeetsOn cfg data course slots day occurrence period start) :
    if day + 1 < LAST_DAY then
      ∃ meetings : List (Int × String), meetings.Pairwise (·.1 < ·.1) ∧
        (∀ t p, (t, p) ∈ meetings ↔
          (combine cfg.tz day 0 < t ∧ t ≤ combine cfg.tz (day + 1) 0) ∧
            periodAt cfg.tz slots t = some p) ∧
        recheckClassReminder cfg data r.payload =
          some ((meetings.findSome? (leftAt cfg.tz (courseChanges data course) course start)).map
            fun m => { r.payload with body := reminderBody cfg.tz m.1 m.2 })
    else recheckClassReminder cfg data r.payload = none := by
  obtain ⟨offset, fireAt, rfl⟩ := h.reminder
  obtain ⟨m, hm, hstart⟩ := hmeets.leftOnDay
  have hdate : localDate cfg.tz start = some day := by
    rw [hstart]
    exact localDate_combine cfg.tz ⟨hmeets.date.1, hmeets.date.2.le⟩ hm
  have hepoch : epochOf start * SECOND = start := by
    rw [hstart]
    exact epochOf_combine cfg.utcOffset day m
  simp only [recheckClassReminder, classReminder, h.stored, h.enrolled, Bool.not_true,
    Bool.false_eq_true, if_false, hepoch, hdate, Option.bind_some, combine_add_day]
  have hfirst : dayOf cfg.tz (combine cfg.tz day 0) = day :=
    dayOf_combine cfg.tz day (by decide)
  have hlast : dayOf cfg.tz (combine cfg.tz (day + 1) 0) = day + 1 :=
    dayOf_combine cfg.tz (day + 1) (by decide)
  have hslots : slots ≠ [] := by
    rintro rfl
    have := hmeets.timetabled
    simp [periodAt] at this
  by_cases hnext : day + 1 < LAST_DAY
  · rw [if_pos hnext]
    have hfits : DatesFit cfg.tz (combine cfg.tz day 0) (combine cfg.tz (day + 1) 0) := by
      refine ⟨?_, ?_, fun _ => by rw [hlast]; exact hnext⟩
      · rw [localDate_combine cfg.tz ⟨hmeets.date.1, hmeets.date.2.le⟩ (by decide)]
        rfl
      · rw [localDate_combine cfg.tz ⟨Nat.le_add_left 1 day, hnext.le⟩ (by decide)]
        rfl
    obtain ⟨meetings, hmeetings⟩ : ∃ meetings, classMeetings cfg.tz cfg.periodTimes course.schedule
        (combine cfg.tz day 0) (combine cfg.tz (day + 1) 0) = some meetings :=
      ⟨_, (classMeetings_eq_some_iff hmeets.read).mpr (Or.inr ⟨hslots, hfits, rfl⟩)⟩
    have hmem := fun t p => mem_classMeetings_iff (t := t) (p := p) hmeets.read hmeetings
    refine ⟨meetings, classMeetings_pairwise hmeetings, hmem, ?_⟩
    have hread : ∀ o ∈ meetings, (changedMeeting cfg.tz (courseChanges data course) course o.1 o.2).isSome
        = true := by
      rintro ⟨t, p⟩ ho
      obtain ⟨-, hp⟩ := (hmem t p).mp ho
      obtain ⟨m', hm', ht⟩ := exists_of_periodAt (start_lt_of_mem hmeets.read) hp
      obtain ⟨meeting, hread, -⟩ := changedMeeting_spec data course cfg.tz _ hm' p
      rw [← ht] at hread
      exact Option.isSome_of_eq_some hread
    rw [hmeetings, Option.bind_some, meetingAt_eq hread]
    simp
  · rw [if_neg hnext]
    have hnone : classMeetings cfg.tz cfg.periodTimes course.schedule (combine cfg.tz day 0)
        (combine cfg.tz (day + 1) 0) = none := by
      rw [Option.eq_none_iff_forall_ne_some]
      intro meetings hmeetings
      obtain ⟨hnil, -⟩ | ⟨-, hfits, -⟩ := (classMeetings_eq_some_iff hmeets.read).mp hmeetings
      · exact hslots hnil
      · have := hfits.next (by rw [hfirst, hlast]; exact Nat.le_succ day)
        rw [hlast] at this
        exact hnext this
    rw [hnone, Option.bind_none]

/-- A payload with another body is the payload itself when the body is the same. -/
theorem ClassPayload.withBody_eq_iff {payload : ClassPayload F} {body : String} :
    { payload with body := body } = payload ↔ body = payload.body := by
  cases payload
  simp only [ClassPayload.mk.injEq, and_true, true_and]

/-- The check answers with the payload itself when the meeting found reads the same. -/
theorem accepts_iff_of_findSome? {tz : Int} {payload : ClassPayload F}
    {found : Option (Int × Option String)} {answer : Option (Option (ClassPayload F))} (start : Int)
    (hanswer : answer =
      some (found.map fun m => { payload with body := reminderBody tz m.1 m.2 }))
    (hstart : ∀ m, found = some m → m.1 = start) :
    answer = some (some payload) ↔
      ∃ room, found = some (start, room) ∧ reminderBody tz start room = payload.body := by
  rw [hanswer, Option.some_inj]
  cases found with
  | none => simp
  | some m =>
    obtain ⟨t, room⟩ := m
    obtain rfl : t = start := hstart _ rfl
    rw [Option.map_some, Option.some_inj, ClassPayload.withBody_eq_iff]
    constructor
    · exact fun hsame => ⟨room, rfl, hsame⟩
    · rintro ⟨room', hroom, hsame⟩
      obtain rfl : room = room' := (Prod.mk.inj (Option.some.inj hroom)).2
      exact hsame

theorem combine_lt_iff (tz : Int) (d : Day) (m m' : Nat) :
    combine tz d m < combine tz d m' ↔ m < m' := by
  have hminute : MINUTE = 60000000 := by decide
  rw [combine, combine, hminute]
  omega

/-- The times of a day after midnight are within the day that follows its midnight. -/
theorem combine_le_next (tz : Int) (d : Day) {m : Nat} (hm : m < 1440) :
    combine tz d m ≤ combine tz (d + 1) 0 := by
  have hminute : MINUTE = 60000000 := by decide
  rw [← combine_add_day, combine, combine, DAY, hminute]
  omega

section Found

variable {slots : List Slot} {day : Day} {meetings : List (Int × String)}

/-- Before the end of its day, a meeting of the check's window is after the day's midnight. -/
theorem exists_of_mem (hslots : ∀ s ∈ slots, s.start < 1440)
    (hmem : ∀ t p, (t, p) ∈ meetings ↔ (combine tz day 0 < t ∧ t ≤ combine tz (day + 1) 0) ∧
      periodAt tz slots t = some p) {t : Int} {p : String} (ht : (t, p) ∈ meetings)
    (hday : dayOf tz t = day) : ∃ m, (0 < m ∧ m < 1440) ∧ t = combine tz day m := by
  obtain ⟨⟨hafter, -⟩, hp⟩ := (hmem t p).mp ht
  obtain ⟨m, hm, htime⟩ := exists_of_periodAt hslots hp
  rw [hday] at htime
  rw [htime, combine_lt_iff] at hafter
  exact ⟨m, ⟨hafter, hm⟩, htime⟩

/-- A meeting of the check's window before a time of its day is on that day. -/
theorem dayOf_eq_of_lt {t : Int} {m : Nat} (hm : m < 1440) (hafter : combine tz day 0 < t)
    (hlt : t < combine tz day m) : dayOf tz t = day := by
  have hlow : dayOf tz (combine tz day 0) ≤ dayOf tz t := dayOf_mono hafter.le
  have hhigh : dayOf tz t ≤ dayOf tz (combine tz day m) := dayOf_mono hlt.le
  rw [dayOf_combine tz day (by decide)] at hlow
  rw [dayOf_combine tz day hm] at hhigh
  exact Nat.le_antisymm hhigh hlow

/-- The next midnight's meeting stays on the next date, so it is left at no start of this one. -/
theorem dayOf_eq_of_left (data : ClassData) (hslots : ∀ s ∈ slots, s.start < 1440) {t : Int}
    {p : String} (hp : periodAt tz slots t = some p) {m : Nat} (hm : m < 1440) (hstart : start = combine tz day m)
    (hleft : changedMeeting tz (courseChanges data course) course t p = some (some (start, room))) :
    dayOf tz t = day := by
  obtain ⟨m', hm', htime⟩ := exists_of_periodAt hslots hp
  obtain ⟨meeting, hread, hday⟩ := changedMeeting_spec data course tz (dayOf tz t) hm' p
  rw [← htime, hleft] at hread
  obtain ⟨m'', hm'', hstart'⟩ := hday start room (Option.some.inj hread).symm
  have heq := congrArg (dayOf tz) (hstart.symm.trans hstart')
  rw [dayOf_combine tz day hm, dayOf_combine tz _ hm''] at heq
  exact heq.symm

/-- What is found reads as the body says exactly when the first meeting after midnight that is left
at the start does. -/
theorem found_iff_laterReadsAlike {body : String} (hslots : ∀ s ∈ slots, s.start < 1440)
    (hsorted : meetings.Pairwise (·.1 < ·.1))
    (hmem : ∀ t p, (t, p) ∈ meetings ↔
      (combine cfg.tz day 0 < t ∧ t ≤ combine cfg.tz (day + 1) 0) ∧ periodAt cfg.tz slots t = some p)
    (hleftOn : ∃ m, m < 1440 ∧ start = combine cfg.tz day m) :
    (∃ room, meetings.findSome? (leftAt cfg.tz (courseChanges data course) course start) =
        some (start, room) ∧ reminderBody cfg.tz start room = body) ↔
      LaterReadsAlike cfg data course slots day start body := by
  constructor
  · rintro ⟨room, hfound, hsame⟩
    obtain ⟨l₁, ⟨t, p⟩, l₂, hl, hleft, hbefore⟩ := List.findSome?_eq_some_iff.mp hfound
    obtain ⟨room', hchanged, heq⟩ := leftAt_eq_some_iff.mp hleft
    obtain rfl := (Prod.mk.inj heq).2
    have ht : (t, p) ∈ meetings := by rw [hl]; simp
    obtain ⟨-, hp⟩ := (hmem t p).mp ht
    obtain ⟨m₀, hm₀, hstart⟩ := hleftOn
    have hday := dayOf_eq_of_left data hslots hp hm₀ hstart hchanged
    obtain ⟨m, hm, rfl⟩ := exists_of_mem hslots hmem ht hday
    refine ⟨m, p, room, hm, hp, hchanged, hsame, fun m' hpos hearlier p' hp' room' hchanged' => ?_⟩
    -- An earlier meeting left at the start would have been found before it.
    have hin : (combine cfg.tz day m', p') ∈ meetings := (hmem _ _).mpr
      ⟨⟨(combine_lt_iff _ _ _ _).mpr hpos, combine_le_next _ _ (hearlier.trans hm.2)⟩, hp'⟩
    have hlt := (combine_lt_iff cfg.tz day m' m).mpr hearlier
    rw [hl] at hin hsorted
    have hnone := hbefore _ (mem_left_of_lt hsorted hin hlt)
    rw [leftAt_of_changed hchanged'] at hnone
    exact Option.some_ne_none _ hnone
  · rintro ⟨m, p, room, hm, hp, hchanged, hsame, hfirst⟩
    have hin : (combine cfg.tz day m, p) ∈ meetings := (hmem _ _).mpr
      ⟨⟨(combine_lt_iff _ _ _ _).mpr hm.1, combine_le_next _ _ hm.2⟩, hp⟩
    refine ⟨room, findSome?_eq_of_first hsorted hin
      (leftAt_of_changed hchanged) ?_, hsame⟩
    rintro ⟨t, p'⟩ ho hlt
    have hday := dayOf_eq_of_lt hm.2 ((hmem t p').mp ho).1.1 hlt
    obtain ⟨m', hm', rfl⟩ := exists_of_mem hslots hmem ho hday
    rw [Option.eq_none_iff_forall_ne_some]
    intro meeting hleft
    obtain ⟨room', hchanged', -⟩ := leftAt_eq_some_iff.mp hleft
    exact hfirst m' hm'.1 ((combine_lt_iff _ _ _ _).mp hlt) p' ((hmem _ _).mp ho).2 room' hchanged'

/-- A meeting that is not at midnight is found: the check's window holds it, and no earlier meeting
is left at its start. -/
theorem found_of_ne_midnight {occurrence : Int} {period : String}
    (hslots : ∀ s ∈ slots, s.start < 1440) (hsorted : meetings.Pairwise (·.1 < ·.1))
    (hmem : ∀ t p, (t, p) ∈ meetings ↔
      (combine cfg.tz day 0 < t ∧ t ≤ combine cfg.tz (day + 1) 0) ∧ periodAt cfg.tz slots t = some p)
    (hmeets : MeetsOn cfg data course slots day occurrence period start)
    (hchanged : changedMeeting cfg.tz (courseChanges data course) course occurrence period =
      some (some (start, room)))
    (hmidnight : occurrence ≠ combine cfg.tz day 0) :
    meetings.findSome? (leftAt cfg.tz (courseChanges data course) course start) =
      some (start, room) := by
  obtain ⟨m, hm, hocc⟩ := hmeets.onDay
  have hpos : 0 < m := by
    refine Nat.pos_of_ne_zero ?_
    rintro rfl
    exact hmidnight hocc
  have hin : (occurrence, period) ∈ meetings := (hmem _ _).mpr
    ⟨by rw [hocc]; exact ⟨(combine_lt_iff _ _ _ _).mpr hpos, combine_le_next _ _ hm⟩,
      hmeets.timetabled⟩
  refine findSome?_eq_of_first hsorted hin (leftAt_of_changed hchanged) ?_
  rintro ⟨t, p'⟩ ho hlt
  have hday := dayOf_eq_of_lt hm ((hmem t p').mp ho).1.1 (hocc ▸ hlt)
  obtain ⟨m', hm', rfl⟩ := exists_of_mem hslots hmem ho hday
  rw [Option.eq_none_iff_forall_ne_some]
  intro meeting hleft
  obtain ⟨room', hchanged', -⟩ := leftAt_eq_some_iff.mp hleft
  exact hmeets.first m' p' hm'.2 ((combine_lt_iff _ _ _ _).mpr hm'.1) hlt ((hmem _ _).mp ho).2
    room' hchanged'

end Found

/-- With all rows unchanged, the check lets a filed reminder go as it is exactly when its class is
not timetabled at midnight, or a later meeting of the day that is left at the same start reads the
same; and when Python's calendar has another date for the check's window to end before. -/
theorem recheck_accepts_iff {waiting : List (JobId × UserId × DedupeKey)}
    {taken : UserId × DedupeKey → Bool} {scan : ClassScan F}
    (hscan : scanCourseReminders py cfg data now waiting taken = some scan) (hr : r ∈ scan.filed) :
    ∃ id course occurrence period start room slots,
      FiledFor py cfg data now r id course occurrence period start room ∧
      slotsOf cfg.periodTimes course.schedule = some slots ∧
      (recheckClassReminder cfg data r.payload = some (some r.payload) ↔
        dayOf cfg.tz occurrence + 1 < LAST_DAY ∧
          (occurrence ≠ combine cfg.tz (dayOf cfg.tz occurrence) 0 ∨
            LaterReadsAlike cfg data course slots (dayOf cfg.tz occurrence) start
              r.payload.body)) := by
  obtain ⟨id, course, occurrence, period, start, room, h⟩ := filed_first hscan hr
  obtain ⟨slots, hmeets⟩ := h.meetsOn
  refine ⟨id, course, occurrence, period, start, room, slots, h, hmeets.read, ?_⟩
  have hcheck := recheck_eq h hmeets
  have hslots := start_lt_of_mem hmeets.read
  generalize dayOf cfg.tz occurrence = day at hmeets hcheck ⊢
  by_cases hnext : day + 1 < LAST_DAY
  swap
  · rw [if_neg hnext] at hcheck
    simp [hcheck, hnext]
  rw [if_pos hnext] at hcheck
  obtain ⟨meetings, hsorted, hmem, hanswer⟩ := hcheck
  have hbody : r.payload.body = reminderBody cfg.tz start room := by
    obtain ⟨offset, fireAt, heq⟩ := h.reminder
    rw [heq, classReminder]
  -- The answer is the reminder's own payload when the first meeting found reads the same.
  have haccepts := accepts_iff_of_findSome? start hanswer fun m hm => by
    obtain ⟨o, -, ho⟩ := List.exists_of_findSome?_eq_some hm
    obtain ⟨room', -, rfl⟩ := leftAt_eq_some_iff.mp ho
    rfl
  rw [haccepts, and_iff_right hnext]
  by_cases hmidnight : occurrence = combine cfg.tz day 0
  · rw [or_iff_right (not_not.mpr hmidnight)]
    exact found_iff_laterReadsAlike hslots hsorted hmem hmeets.leftOnDay
  · rw [iff_true_right (Or.inl hmidnight)]
    exact ⟨room, found_of_ne_midnight hslots hsorted hmem hmeets h.changed hmidnight, hbody.symm⟩

end Check

/-! ### Runs -/

/-- Floats that are whole numbers. -/
def wholeMinutes : ClassFloats Int where
  float q := some q.num
  minutes f := some (f * MINUTE)
  format f := toString f

/-- A school whose first period begins at the time, eight hours ahead of UTC. -/
def firstPeriodAt (start : String) : ClassSettings Int where
  defaultOffsets := [30]
  window := 172800000000
  utcOffset := 28800
  periodTimes := ⟨[("1", start)], by simp⟩

/-- A student with a course in the first period of every Monday. -/
def mondayClass : ClassData where
  courses := ⟨[(7, ⟨1, some "CS1001", "cs1001", "1151", true, true,
    .object ⟨[("1", some ["1"])], by decide⟩, some "IB-101", "Algorithms", none⟩)], by decide⟩
  students := ⟨[(1, ⟨none, [⟨none, true, true, .ios, none, [⟨true, true, none⟩]⟩], []⟩)], by decide⟩
  skipped := []
  holidays := []
  calendar := ⟨Table.empty, [], Table.empty, Table.empty⟩
  checked := fun _ _ h => nomatch h

/-- The Sunday noon before. -/
def sundayNoon : Time := 1793505600000000

/-- The scan of that noon, when the first period begins at the time. -/
def noonScan (start : String) : Option (ClassScan Int) :=
  scanCourseReminders wholeMinutes (firstPeriodAt start) mondayClass sundayNoon [] fun _ => false

/-- A class in the morning: its reminder is filed, and the check finds its meeting. -/
theorem recheck_accepts_iff_of_morning_class :
    ∃ scan, noonScan "08:10" = some scan ∧ ∃ r ∈ scan.filed,
      ∃ id course occurrence period start room slots,
        FiledFor wholeMinutes (firstPeriodAt "08:10") mondayClass sundayNoon r id course occurrence
          period start room ∧
        slotsOf (firstPeriodAt "08:10").periodTimes course.schedule = some slots ∧
        (recheckClassReminder (firstPeriodAt "08:10") mondayClass r.payload = some (some r.payload) ↔
          dayOf (firstPeriodAt "08:10").tz occurrence + 1 < LAST_DAY ∧
            (occurrence ≠ combine (firstPeriodAt "08:10").tz
                (dayOf (firstPeriodAt "08:10").tz occurrence) 0 ∨
              LaterReadsAlike (firstPeriodAt "08:10") mondayClass course slots
                (dayOf (firstPeriodAt "08:10").tz occurrence) start r.payload.body)) := by
  have hfiled : ((noonScan "08:10").map fun scan => scan.filed.isEmpty) = some false := by
    decide +kernel
  obtain ⟨scan, hscan, hsome⟩ := Option.map_eq_some_iff.mp hfiled
  obtain ⟨r, hr⟩ := List.exists_mem_of_ne_nil scan.filed fun hnil => by simp [hnil] at hsome
  exact ⟨scan, hscan, r, hr, recheck_accepts_iff hscan hr⟩

/-- A first period that begins at midnight: the reminder is filed, and the check drops it. -/
theorem midnight_class_dropped :
    ¬∀ scan, noonScan "00:00" = some scan → ∀ r ∈ scan.filed,
      recheckClassReminder (firstPeriodAt "00:00") mondayClass r.payload = some (some r.payload) := by
  have hdropped : ((noonScan "00:00").bind fun scan => scan.filed.head?).map (fun r =>
      (recheckClassReminder (firstPeriodAt "00:00") mondayClass r.payload).map Option.isNone) =
        some (some true) := by
    decide +kernel
  intro h
  obtain ⟨r, hfirst, hnone⟩ := Option.map_eq_some_iff.mp hdropped
  obtain ⟨scan, hscan, hhead⟩ := Option.bind_eq_some_iff.mp hfirst
  rw [h scan hscan r (List.mem_of_head? hhead)] at hnone
  simp at hnone

end TigerDuck.Push
