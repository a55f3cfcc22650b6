import Mathlib.Order.Bounds.Basic
import Mathlib.Tactic.IntervalCases
import TigerDuck.Push.ClassMeetings

/-!
# Class meetings are the timetable

For a schedule in object form, `class_meetings` gives the start of each maximal run of a weekday's
consecutive periods, on every date of that weekday in the window. Keys that are no weekday, values
that are no list, periods NTUST does not have and start times that are not `HH:MM` count for
nothing.

What they must not do is stop the others. One start time does: two numbers of which one does not
fit C's `int` make `time` raise `OverflowError`, which `_entry_start_time` does not catch.
-/

namespace TigerDuck.Push

open AcademicCalendar Relational

/-- A weekday's periods. -/
def weekdayPeriods (members : Table String (Option (List String))) (weekday : Nat) :
    Option (List String) :=
  (members.get (toString weekday)).join

/-- A run of a weekday's periods starts at a time of the day, the earliest of its periods'. -/
def MeetsAt (periodTimes : PeriodTimes) (periods : List String) (m : Nat) : Prop :=
  ∃ first last, IsRun (knownRanks periods) first last ∧
    IsLeast {m | ∃ p ∈ PERIODS, (first ≤ periodRank p ∧ periodRank p ≤ last) ∧
      StartsAt periodTimes p m} m

/-- The meetings of a window are the timetable. -/
structure IsTimetable (tz : Int) (periodTimes : PeriodTimes)
    (members : Table String (Option (List String))) (windowStart windowEnd : Int)
    (meetings : List (Int × String)) : Prop where
  /-- Each period NTUST has is in one run of its weekday. -/
  partition : ∀ weekday periods, weekdayPeriods members weekday = some periods →
    (periodRuns periods).flatten = PERIODS.filter periods.contains
  /-- The runs are the maximal ones. -/
  maximal : ∀ weekday periods, weekdayPeriods members weekday = some periods →
    ∀ run, run ∈ periodRuns periods ↔ ∃ first last, IsRun (knownRanks periods) first last ∧
      run = PERIODS.filter fun p => first ≤ periodRank p ∧ periodRank p ≤ last
  /-- No start comes twice or before an earlier one. -/
  increasing : (meetings.map Prod.fst).Pairwise (· < ·)
  /-- The starts are those of the runs on the dates of their weekday. -/
  exact : ∀ t, t ∈ meetings.map Prod.fst ↔ (windowStart < t ∧ t ≤ windowEnd) ∧
    ∃ day periods m, weekdayPeriods members (isoweekday day) = some periods ∧
      MeetsAt periodTimes periods m ∧ t = combine tz day m

/-- No period of the schedule has a start time that makes Python raise. -/
def TimesReadable (periodTimes : PeriodTimes) (members : Table String (Option (List String))) : Prop :=
  ∀ weekday, 1 ≤ weekday ∧ weekday ≤ 7 → ∀ periods, weekdayPeriods members weekday = some periods →
    ∀ p ∈ periods, p ∈ PERIODS → ¬Overflows periodTimes p

/-- The schedule has a meeting on some weekday. -/
def HasMeeting (periodTimes : PeriodTimes) (members : Table String (Option (List String))) : Prop :=
  ∃ weekday, (1 ≤ weekday ∧ weekday ≤ 7) ∧ ∃ periods m,
    weekdayPeriods members weekday = some periods ∧ MeetsAt periodTimes periods m

/-! ### The entries of an object -/

theorem weekdayKey {weekday : Nat} (h : 1 ≤ weekday ∧ weekday ≤ 7) :
    toString weekday ∈ WEEKDAY_KEYS ∧ WEEKDAY_KEYS.idxOf (toString weekday) + 1 = weekday := by
  obtain ⟨h₁, h₂⟩ := h
  interval_cases weekday <;> decide

theorem exists_weekday {key : String} (h : key ∈ WEEKDAY_KEYS) :
    ∃ weekday, (1 ≤ weekday ∧ weekday ≤ 7) ∧ key = toString weekday := by
  have hall : ∀ key ∈ WEEKDAY_KEYS, ∃ weekday ∈ [1, 2, 3, 4, 5, 6, 7], key = toString weekday := by
    decide
  obtain ⟨weekday, hmem, rfl⟩ := hall key h
  refine ⟨weekday, ?_, rfl⟩
  simp only [List.mem_cons, List.not_mem_nil, or_false] at hmem
  omega

theorem isoweekday_bounds (d : Nat) : 1 ≤ isoweekday d ∧ isoweekday d ≤ 7 := by
  have hlt := Nat.mod_lt d (show 7 > 0 by decide)
  by_cases h : d % 7 = 0
  · simp [isoweekday, h]
  · simp only [isoweekday, h, if_false]
    omega

/-- The entries are the runs of the weekdays' periods. -/
theorem mem_scheduleEntries_object {members : Table String (Option (List String))} {entry : Entry} :
    entry ∈ scheduleEntries (.object members) ↔
      ∃ weekday, (1 ≤ weekday ∧ weekday ≤ 7) ∧ ∃ periods, weekdayPeriods members weekday = some periods ∧
        ∃ run ∈ periodRuns periods, entry = ⟨some weekday, some run⟩ := by
  simp only [scheduleEntries, List.mem_flatMap]
  constructor
  · rintro ⟨⟨key, value⟩, hrow, hentry⟩
    rcases value with _ | periods
    · simp at hentry
    · by_cases hkey : key ∈ WEEKDAY_KEYS
      · obtain ⟨weekday, hweekday, rfl⟩ := exists_weekday hkey
        simp only [List.contains_iff_mem, hkey, if_true, List.mem_map] at hentry
        obtain ⟨run, hrun, rfl⟩ := hentry
        refine ⟨weekday, hweekday, periods, ?_, run, hrun, ?_⟩
        · rw [weekdayPeriods, (Table.get_eq_some_iff _ _ _).mpr hrow]
          rfl
        · have hindex := (weekdayKey hweekday).2
          congr 2
          exact_mod_cast hindex
      · simp [hkey] at hentry
  · rintro ⟨weekday, hweekday, periods, hperiods, run, hrun, rfl⟩
    obtain ⟨hkey, hindex⟩ := weekdayKey hweekday
    refine ⟨(toString weekday, some periods), (Table.get_eq_some_iff _ _ _).mp ?_, ?_⟩
    · rw [weekdayPeriods, Option.join_eq_some_iff] at hperiods
      exact hperiods
    · simp only [List.contains_iff_mem, hkey, if_true, List.mem_map]
      refine ⟨run, hrun, ?_⟩
      congr 2
      exact_mod_cast hindex

section Slots

variable {periodTimes : PeriodTimes} {members : Table String (Option (List String))}

/-- The entries are read unless a period's start time makes Python raise. -/
theorem slotsOf_isSome_iff :
    (slotsOf periodTimes (.object members)).isSome = true ↔ TimesReadable periodTimes members := by
  rw [slotsOf, Option.isSome_map, mapM_isSome_iff]
  constructor
  · intro hread weekday hweekday periods hperiods p hp hknown
    obtain ⟨run, hrun, hprun⟩ := mem_run_of_mem hp hknown
    have h := hread _ (mem_scheduleEntries_object.mpr
      ⟨weekday, hweekday, periods, hperiods, run, hrun, rfl⟩)
    exact (entryStartTime_isSome_iff (by exact_mod_cast hweekday)).mp h p hprun
  · intro hread entry hentry
    obtain ⟨weekday, hweekday, periods, hperiods, run, hrun, rfl⟩ :=
      mem_scheduleEntries_object.mp hentry
    refine (entryStartTime_isSome_iff (by exact_mod_cast hweekday)).mpr fun p hp => ?_
    obtain ⟨hmem, hknown⟩ := mem_of_mem_run hrun hp
    exact hread weekday hweekday periods hperiods p hmem hknown

/-- The slots of a weekday are the starts of its runs. -/
theorem exists_slot_iff {slots : List Slot} (hslots : slotsOf periodTimes (.object members) = some slots)
    {weekday : Nat} (hweekday : 1 ≤ weekday ∧ weekday ≤ 7) {m : Nat} :
    (∃ slot ∈ slots, slot.day = weekday ∧ slot.start = m) ↔
      ∃ periods, weekdayPeriods members weekday = some periods ∧ MeetsAt periodTimes periods m := by
  constructor
  · rintro ⟨slot, hslot, hday, rfl⟩
    obtain ⟨entry, hentry, hstart⟩ := (mem_slotsOf hslots).mp hslot
    obtain ⟨weekday', hweekday', periods, hperiods, run, hrun, rfl⟩ :=
      mem_scheduleEntries_object.mp hentry
    obtain ⟨_, hrun', hday', hp, hat, hleast⟩ := entryStartTime_eq_some hstart
    obtain rfl := Option.some.inj hrun'
    have hday' := Option.some.inj hday'
    obtain rfl : weekday' = weekday := by exact_mod_cast hday'.trans hday
    obtain ⟨first, last, hmax, rfl⟩ := mem_periodRuns_iff.mp hrun
    simp only [List.mem_filter, decide_eq_true_eq] at hp hleast
    refine ⟨periods, hperiods, first, last, hmax, ⟨slot.period, hp.1, hp.2, hat⟩, ?_⟩
    rintro m ⟨q, hq, hbounds, hm⟩
    exact hleast q ⟨hq, hbounds⟩ m hm
  · rintro ⟨periods, hperiods, first, last, hmax, ⟨p, hp, hbounds, hat⟩, hleast⟩
    have hrun := mem_periodRuns_iff.mpr ⟨first, last, hmax, rfl⟩
    have hentry := mem_scheduleEntries_object.mpr
      ⟨weekday, hweekday, periods, hperiods, _, hrun, rfl⟩
    have hread : ∀ q ∈ _, ¬Overflows periodTimes q := fun q hq => by
      obtain ⟨hmem, hknown⟩ := mem_of_mem_run hrun hq
      exact slotsOf_isSome_iff.mp (Option.isSome_of_eq_some hslots) weekday hweekday periods hperiods q
        hmem hknown
    have hin : p ∈ PERIODS.filter fun p => first ≤ periodRank p ∧ periodRank p ≤ last :=
      List.mem_filter.mpr ⟨hp, decide_eq_true hbounds⟩
    have hday : 1 ≤ (weekday : Int) ∧ (weekday : Int) ≤ 7 := by exact_mod_cast hweekday
    obtain ⟨slot, hslot⟩ := exists_slot hday hread hin hat
    refine ⟨slot, (mem_slotsOf hslots).mpr ⟨_, hentry, hslot⟩, ?_, ?_⟩
    · obtain ⟨_, -, hday, -⟩ := entryStartTime_eq_some hslot
      exact (Option.some.inj hday).symm
    · obtain ⟨_, hrun', -, hq, hat', hleast'⟩ := entryStartTime_eq_some hslot
      obtain rfl := Option.some.inj hrun'
      obtain ⟨hq, hqbounds⟩ := List.mem_filter.mp hq
      refine le_antisymm (hleast' p hin m hat) (hleast ⟨slot.period, hq, ?_, hat'⟩)
      simpa using hqbounds

end Slots

/-! ### The timetable -/

/-- The meetings of a schedule in object form are its timetable exactly when no start time makes
Python raise and, if it has a meeting at all, the window leaves its calendar a date to step to. -/
theorem class_meetings_exact_iff (tz : Int) (periodTimes : PeriodTimes)
    (members : Table String (Option (List String))) (windowStart windowEnd : Int) :
    (∃ meetings, classMeetings tz periodTimes (.object members) windowStart windowEnd = some meetings ∧
        IsTimetable tz periodTimes members windowStart windowEnd meetings) ↔
      TimesReadable periodTimes members ∧
        (HasMeeting periodTimes members → DatesFit tz windowStart windowEnd) := by
  constructor
  · rintro ⟨meetings, hmeetings, -⟩
    obtain ⟨slots, hslots, -⟩ := Option.bind_eq_some_iff.mp hmeetings
    refine ⟨slotsOf_isSome_iff.mp (Option.isSome_of_eq_some hslots), ?_⟩
    rintro ⟨weekday, hweekday, periods, m, hperiods, hm⟩
    obtain ⟨slot, hslot, -⟩ := (exists_slot_iff hslots hweekday).mpr ⟨periods, hperiods, hm⟩
    obtain ⟨rfl, -⟩ | ⟨-, hfits, -⟩ := (classMeetings_eq_some_iff hslots).mp hmeetings
    · simp at hslot
    · exact hfits
  · rintro ⟨hread, hfits⟩
    obtain ⟨slots, hslots⟩ := Option.isSome_iff_exists.mp (slotsOf_isSome_iff.mpr hread)
    have hmeetings : ∃ meetings,
        classMeetings tz periodTimes (.object members) windowStart windowEnd = some meetings := by
      by_cases hnil : slots = []
      · exact ⟨_, (classMeetings_eq_some_iff hslots).mpr (Or.inl ⟨hnil, rfl⟩)⟩
      · refine ⟨_, (classMeetings_eq_some_iff hslots).mpr (Or.inr ⟨hnil, hfits ?_, rfl⟩)⟩
        obtain ⟨slot, hslot⟩ := List.exists_mem_of_ne_nil slots hnil
        obtain ⟨entry, hentry, hstart⟩ := (mem_slotsOf hslots).mp hslot
        obtain ⟨weekday, hweekday, _, _, _, _, rfl⟩ := mem_scheduleEntries_object.mp hentry
        obtain ⟨_, -, hday, -⟩ := entryStartTime_eq_some hstart
        obtain ⟨periods, hperiods, hm⟩ := (exists_slot_iff hslots hweekday).mp
          ⟨slot, hslot, (Option.some.inj hday).symm, rfl⟩
        exact ⟨weekday, hweekday, periods, _, hperiods, hm⟩
    obtain ⟨meetings, hmeetings⟩ := hmeetings
    refine ⟨meetings, hmeetings, fun _ periods _ => flatten_periodRuns periods,
      fun _ periods _ run => mem_periodRuns_iff, ?_, fun t => ?_⟩
    · exact List.pairwise_map.mpr (classMeetings_pairwise hmeetings)
    · have hmem : t ∈ meetings.map Prod.fst ↔
          (windowStart < t ∧ t ≤ windowEnd) ∧ (periodAt tz slots t).isSome = true := by
        simp only [List.mem_map, Prod.exists, exists_and_right, exists_eq_right,
          mem_classMeetings_iff hslots hmeetings, exists_and_left, Option.isSome_iff_exists]
      rw [hmem]
      refine and_congr_right fun _ => ?_
      rw [periodAt, Option.isSome_map, List.find?_isSome]
      constructor
      · rintro ⟨slot, hslot, hat⟩
        obtain ⟨hday, ht⟩ := of_decide_eq_true hat
        obtain ⟨periods, hperiods, hm⟩ :=
          (exists_slot_iff hslots (isoweekday_bounds _)).mp ⟨slot, hslot, hday, rfl⟩
        exact ⟨dayOf tz t, periods, slot.start, hperiods, hm, ht.symm⟩
      · rintro ⟨day, periods, m, hperiods, hm, rfl⟩
        obtain ⟨slot, hslot, hday, rfl⟩ :=
          (exists_slot_iff hslots (isoweekday_bounds day)).mpr ⟨periods, hperiods, hm⟩
        refine ⟨slot, hslot, decide_eq_true ?_⟩
        rw [dayOf_combine tz day (start_lt_of_mem hslots slot hslot)]
        exact ⟨hday, rfl⟩

/-- A class in the second period of every Monday, and a first period whose hour is a slip. -/
def slippedHour : PeriodTimes := ⟨[("1", "99999999999:10"), ("2", "09:10")], by decide⟩

/-- One malformed start time, and no meeting at all is found, nor is an answer given. -/
theorem malformed_time_raises :
    ¬∃ meetings, classMeetings (8 * 60 * MINUTE) slippedHour
        (.object ⟨[("1", some ["2"]), ("2", some ["1"])], by decide⟩) 0 (7 * DAY) = some meetings ∧
      IsTimetable (8 * 60 * MINUTE) slippedHour
        ⟨[("1", some ["2"]), ("2", some ["1"])], by decide⟩ 0 (7 * DAY) meetings := by
  have hraises : classMeetings (8 * 60 * MINUTE) slippedHour
      (.object ⟨[("1", some ["2"]), ("2", some ["1"])], by decide⟩) 0 (7 * DAY) = none := by
    decide +kernel
  rintro ⟨meetings, hmeetings, -⟩
  rw [hraises] at hmeetings
  cases hmeetings

end TigerDuck.Push
