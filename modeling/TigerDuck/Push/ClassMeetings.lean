import Mathlib.Algebra.Group.Int.Defs
import TigerDuck.Push.ReminderRows
import TigerDuck.Relational.Runs

/-!
# Class meetings

`class_meetings` of `server/push/course_reminders.py`: a course's schedule and the table of the
periods' start times, projected onto the dates of a window. The reminder scan files by it and the
check before a class reminder goes out asks it again.

An instant is its microseconds since 1970, before which it is negative, and the school's zone is
its distance from UTC. Python raises where a date is past its calendar, and where a number of a
start time is past C's `int`: `none` is an exception.

- `mem_periodRuns_iff`: the runs of a weekday's periods.
- `entryStartTime_eq_some_iff`: when an entry's class begins.
- `mem_classMeetings_iff`: the meetings of a window, each with its period, whatever the window.
-/

namespace TigerDuck.Push

open AcademicCalendar Relational

/-! ### Numbers in a text -/

/-- The zeros of Unicode's rows of digitValue digits. -/
def DIGIT_ZEROS : List Nat :=
  [0x30, 0x660, 0x6f0, 0x7c0, 0x966, 0x9e6, 0xa66, 0xae6, 0xb66, 0xbe6, 0xc66, 0xce6, 0xd66, 0xde6,
    0xe50, 0xed0, 0xf20, 0x1040, 0x1090, 0x17e0, 0x1810, 0x1946, 0x19d0, 0x1a80, 0x1a90, 0x1b50,
    0x1bb0, 0x1c40, 0x1c50, 0xa620, 0xa8d0, 0xa900, 0xa9d0, 0xa9f0, 0xaa50, 0xabf0, 0xff10, 0x104a0,
    0x10d30, 0x11066, 0x110f0, 0x11136, 0x111d0, 0x112f0, 0x11450, 0x114d0, 0x11650, 0x116c0,
    0x11730, 0x118e0, 0x11950, 0x11c50, 0x11d50, 0x11da0, 0x11f50, 0x16a60, 0x16ac0, 0x16b50,
    0x1d7ce, 0x1d7d8, 0x1d7e2, 0x1d7ec, 0x1d7f6, 0x1e140, 0x1e2f0, 0x1e4f0, 0x1e950, 0x1fbf0]

/-- The value of a digitValue digit. -/
def digitValue (c : Char) : Option Nat :=
  (DIGIT_ZEROS.find? fun row => row ≤ c.toNat && c.toNat < row + 10).map (c.toNat - ·)

/-- The blanks `int` passes over at either end. -/
def isBlank (c : Char) : Bool :=
  [0x9, 0xa, 0xb, 0xc, 0xd, 0x20, 0x85, 0xa0, 0x1680, 0x2028, 0x2029, 0x202f, 0x205f, 0x3000].contains
    c.toNat || 0x2000 ≤ c.toNat && c.toNat ≤ 0x200a

/-- The most digits `int` reads. -/
def INT_MAX_DIGITS : Nat := 4300

/-- A number without its sign: digits, with single underscores between them. -/
def wholeNumber (text : List Char) : Option Nat :=
  let groups := text.splitOn '_'
  if groups.all (fun group => group ≠ [] && group.all fun c => (digitValue c).isSome) &&
      groups.flatten.length ≤ INT_MAX_DIGITS then
    some (groups.flatten.foldl (fun n c => 10 * n + (digitValue c).getD 0) 0)
  else none

/-- `int(text)`, or `none` for its `ValueError`. -/
def int (text : List Char) : Option Int :=
  match ((text.dropWhile isBlank).reverse.dropWhile isBlank).reverse with
  | '+' :: digits => (wholeNumber digits).map Int.ofNat
  | '-' :: digits => (wholeNumber digits).map fun n => -Int.ofNat n
  | digits => (wholeNumber digits).map Int.ofNat

/-! ### Times of the day -/

/-- What becomes of a start time: a minute of the day, or an exception. -/
inductive Clock
  | minute (m : Nat)
  | valueError
  | overflowError
  deriving DecidableEq, Repr

/-- Whether a number fits C's `int`. -/
def fitsInt (n : Int) : Bool := -2 ^ 31 ≤ n && n < 2 ^ 31

/-- `time(hour, minute)`. -/
def time (hour minute : Int) : Clock :=
  if !fitsInt hour || !fitsInt minute then .overflowError
  else if 0 ≤ hour ∧ hour < 24 ∧ 0 ≤ minute ∧ minute < 60 then .minute (60 * hour + minute).toNat
  else .valueError

/-- The start time of a period, `HH:MM`. -/
def clock (raw : String) : Clock :=
  let (hour, rest) := raw.toList.span (· ≠ ':')
  match int hour, int (rest.drop 1) with
  | some hour, some minute => time hour minute
  | _, _ => .valueError

/-- `course_period_start_times`. -/
abbrev PeriodTimes := Table String String

/-- What a period adds to an entry's start times: nothing if it is unknown or its time is malformed. -/
def periodStart (periodTimes : PeriodTimes) (period : String) : Option (Option (Nat × String)) :=
  match (periodTimes.get period).map clock with
  | some (.minute m) => some (some (m, period))
  | some .overflowError => none
  | some .valueError | none => some none

/-- The order of an entry's start times. -/
def startLe (a b : Nat × String) : Bool := a.1 < b.1 || a.1 == b.1 && a.2 ≤ b.2

/-- `min(starts)`. -/
def earliest (starts : List (Nat × String)) : Option (Nat × String) :=
  (starts.insertionSort fun a b => startLe a b = true).head?

/-! ### Schedules -/

/-- An entry of a schedule: its `day` if that is a whole number, and its `periods`, as text, if they
are a list. An entry that is no object has neither. -/
structure Entry where
  day : Option Int
  periods : Option (List String)
  deriving DecidableEq, Repr

/-- What `user_courses.schedule_json` holds: the older list of entries, or the periods, as text, of
each key that has a list of them. -/
inductive ScheduleJson
  | entries (list : List Entry)
  | object (members : Table String (Option (List String)))
  | other

/-- `_WEEKDAY_KEYS`, in their order. -/
def WEEKDAY_KEYS : List String := ["1", "2", "3", "4", "5", "6", "7"]

/-- NTUST's periods, in their order. -/
def PERIODS : List String :=
  ["1", "2", "3", "4", "5", "6", "7", "8", "9", "10", "A", "B", "C", "D"]

/-- `_PERIOD_RANK`. -/
def periodRank (period : String) : Nat := PERIODS.idxOf period

/-- The runs of a weekday's periods, those NTUST does not have left out. -/
def periodRuns (periods : List String) : List (List String) :=
  let known := (periods.filter PERIODS.contains).eraseDups
  let sorted := known.insertionSort fun p q => periodRank p ≤ periodRank q
  closed (sorted.foldl (extendOpen (follows periodRank)) ([], []))

/-- `_schedule_entries`. -/
def scheduleEntries : ScheduleJson → List Entry
  | .entries list => list
  | .object members =>
    members.rows.flatMap fun
      | (key, some periods) =>
        if WEEKDAY_KEYS.contains key then
          (periodRuns periods).map fun run => ⟨some (WEEKDAY_KEYS.idxOf key + 1), some run⟩
        else []
      | (_, none) => []
  | .other => []

/-- When an entry's class begins: its weekday, minute of the day and first period. -/
structure Slot where
  day : Int
  start : Nat
  period : String
  deriving DecidableEq, Repr

/-- `_entry_start_time`. -/
def entryStartTime (periodTimes : PeriodTimes) (entry : Entry) : Option (Option Slot) :=
  match entry.day, entry.periods with
  | some day, some periods =>
    if 1 ≤ day ∧ day ≤ 7 then
      (periods.mapM (periodStart periodTimes)).map fun starts =>
        (earliest (starts.filterMap id)).map fun (start, period) => ⟨day, start, period⟩
    else some none
  | _, _ => some none

/-! ### Dates -/

/-- A minute in microseconds. -/
def MINUTE : Int := 60 * SECOND

/-- A day in microseconds. -/
def DAY : Int := 24 * 60 * MINUTE

/-- `date.max.toordinal()`. -/
def LAST_DAY : Day := 3652059

/-- `t.astimezone(tz).date()`. -/
def localDate (tz t : Int) : Option Day :=
  let n := (t + tz) / DAY + EPOCH_DAY
  if 1 ≤ n ∧ n ≤ LAST_DAY then some n.toNat else none

/-- `datetime.combine(day, start, tzinfo=tz)`. -/
def combine (tz : Int) (day : Day) (start : Nat) : Int :=
  ((day : Int) - EPOCH_DAY) * DAY + start * MINUTE - tz

/-- The occurrences of the slots in a window, with the periods they start in, date by date. -/
def occurrencesFrom (tz : Int) (slots : List Slot) (windowStart windowEnd : Int) (first last : Day) :
    List (Int × String) :=
  (daysFromTo first last).flatMap fun day =>
    slots.filterMap fun slot =>
      let occurrence := combine tz day slot.start
      if slot.day = (isoweekday day : Int) ∧ windowStart < occurrence ∧ occurrence ≤ windowEnd then
        some (occurrence, slot.period)
      else none

/-- `setdefault`, of each in turn. -/
def setDefaults (found : List (Int × String)) : Table Int String :=
  found.foldl (fun table o => table.upsert o.1 o.2 id) Table.empty

/-- The slots of a schedule's entries. -/
def slotsOf (periodTimes : PeriodTimes) (schedule : ScheduleJson) : Option (List Slot) :=
  ((scheduleEntries schedule).mapM (entryStartTime periodTimes)).map (·.filterMap id)

/-- `class_meetings`. -/
def classMeetings (tz : Int) (periodTimes : PeriodTimes) (schedule : ScheduleJson)
    (windowStart windowEnd : Int) : Option (List (Int × String)) :=
  (slotsOf periodTimes schedule).bind fun slots =>
    if slots = [] then some []
    else
      (localDate tz windowStart).bind fun first =>
        (localDate tz windowEnd).bind fun last =>
          -- The loop ends by stepping past the window's last date.
          if first ≤ last ∧ last = LAST_DAY then none
          else
            let found := setDefaults (occurrencesFrom tz slots windowStart windowEnd first last)
            some (found.rows.insertionSort fun a b => a.1 ≤ b.1)

/-! ### Runs -/

/-- Each element once. -/
theorem nodup_eraseDups {α : Type} [BEq α] [LawfulBEq α] (l : List α) : l.eraseDups.Nodup := by
  induction hn : l.length using Nat.strong_induction_on generalizing l with
  | h n ih =>
    rcases l with _ | ⟨a, l⟩
    · simp
    · rw [List.eraseDups_cons, List.nodup_cons]
      have hlen : (l.filter fun b => !b == a).length < n := by
        have := List.length_filter_le (fun b => !b == a) l
        simp only [List.length_cons] at hn
        omega
      exact ⟨by simp [List.mem_eraseDups], ih _ hlen _ rfl⟩

/-- NTUST's periods are in the order of their ranks. -/
theorem periodRank_pairwise : PERIODS.Pairwise (periodRank · < periodRank ·) := by decide

/-- The ranks of a weekday's periods. -/
def knownRanks (periods : List String) : Set ℕ :=
  {n | ∃ p ∈ periods, p ∈ PERIODS ∧ periodRank p = n}

/-- The runs are stretches of NTUST's own list. -/
theorem periodRuns_eq (periods : List String) :
    periodRuns periods = (PERIODS.filter periods.contains).splitBy (follows periodRank) := by
  have hsorted : ((periods.filter PERIODS.contains).eraseDups.insertionSort
      fun p q => periodRank p ≤ periodRank q) = PERIODS.filter periods.contains := by
    have hantisymm : ∀ p q, p ∈ (periods.filter PERIODS.contains).eraseDups.insertionSort
        (fun p q => periodRank p ≤ periodRank q) → q ∈ PERIODS.filter periods.contains →
        periodRank p ≤ periodRank q → periodRank q ≤ periodRank p → p = q := by
      intro p q hp hq hpq hqp
      have hp := List.mem_eraseDups.mp ((List.mem_insertionSort _).mp hp)
      have hp : p ∈ PERIODS := by simpa using (List.mem_filter.mp hp).2
      exact (List.idxOf_inj hp).mp (le_antisymm hpq hqp)
    refine List.Perm.eq_of_pairwise hantisymm (List.pairwise_insertionSort _ _)
      ((periodRank_pairwise.imp le_of_lt).filter _) ?_
    refine (List.perm_insertionSort _ _).trans
      ((List.perm_ext_iff_of_nodup (nodup_eraseDups _) (List.Nodup.filter _ (by decide))).mpr ?_)
    intro p
    simp [and_comm]
  rw [periodRuns]
  simp only [hsorted]
  exact (foldl_extendOpen _ _).1

/-- Each known period is in one run. -/
theorem flatten_periodRuns (periods : List String) :
    (periodRuns periods).flatten = PERIODS.filter periods.contains := by
  rw [periodRuns_eq, List.flatten_splitBy]

/-- The runs of a weekday's periods: NTUST's periods of a maximal run of their ranks. -/
theorem mem_periodRuns_iff {periods run : List String} :
    run ∈ periodRuns periods ↔ ∃ first last, IsRun (knownRanks periods) first last ∧
      run = PERIODS.filter fun p => first ≤ periodRank p ∧ periodRank p ≤ last := by
  have hranks : {n | ∃ p ∈ PERIODS.filter periods.contains, periodRank p = n} =
      knownRanks periods := by
    ext n
    simp only [knownRanks, Set.mem_ofPred_eq, List.mem_filter, List.contains_iff_mem]
    exact ⟨fun ⟨p, ⟨hp, hin⟩, h⟩ => ⟨p, hin, hp, h⟩, fun ⟨p, hin, hp, h⟩ => ⟨p, ⟨hp, hin⟩, h⟩⟩
  rw [periodRuns_eq, mem_splitBy_succ_iff (periodRank_pairwise.filter _), hranks]
  refine exists_congr fun first => exists_congr fun last => and_congr_right fun hrun => ?_
  rw [List.filter_filter]
  -- A run has no gap, so what NTUST has between its ends is in the list.
  have hall : PERIODS.filter (fun p => decide (first ≤ periodRank p ∧ periodRank p ≤ last) &&
      periods.contains p) =
      PERIODS.filter fun p => first ≤ periodRank p ∧ periodRank p ≤ last := by
    refine List.filter_congr fun p hp => ?_
    by_cases h : first ≤ periodRank p ∧ periodRank p ≤ last
    · obtain ⟨q, hq, hknown, heq⟩ := hrun.mem _ h.1 h.2
      obtain rfl : q = p := (List.idxOf_inj hknown).mp heq
      simp [h, hq]
    · simp [h]
  rw [hall]

/-- A known period is in some run. -/
theorem mem_run_of_mem {periods : List String} {p : String} (hp : p ∈ periods)
    (hknown : p ∈ PERIODS) : ∃ run ∈ periodRuns periods, p ∈ run :=
  List.mem_flatten.mp (by rw [flatten_periodRuns]; simp [hp, hknown])

/-- A run has periods of the list only. -/
theorem mem_of_mem_run {periods run : List String} (hrun : run ∈ periodRuns periods) {p : String}
    (hp : p ∈ run) : p ∈ periods ∧ p ∈ PERIODS := by
  have h : p ∈ (periodRuns periods).flatten := List.mem_flatten.mpr ⟨run, hrun, hp⟩
  rw [flatten_periodRuns] at h
  simpa [and_comm] using h

/-! ### An entry's start -/

section Start

variable {periodTimes : PeriodTimes}

/-- A period has a time of the day to start at. -/
def StartsAt (periodTimes : PeriodTimes) (period : String) (m : Nat) : Prop :=
  (periodTimes.get period).map clock = some (.minute m)

/-- A period's start time makes Python raise. -/
def Overflows (periodTimes : PeriodTimes) (period : String) : Prop :=
  (periodTimes.get period).map clock = some .overflowError

theorem periodStart_isSome_iff {p : String} :
    (periodStart periodTimes p).isSome = true ↔ ¬Overflows periodTimes p := by
  unfold periodStart Overflows
  rcases (periodTimes.get p).map clock with _ | _ | _ | _ <;> simp

theorem periodStart_eq_some_iff {p : String} {start : Nat × String} :
    periodStart periodTimes p = some (some start) ↔
      ∃ m, StartsAt periodTimes p m ∧ start = (m, p) := by
  unfold periodStart StartsAt
  rcases (periodTimes.get p).map clock with _ | _ | _ | _ <;> simp [eq_comm]

/-- A time of the day is before midnight. -/
theorem lt_of_time {hour minute : Int} {m : Nat} (h : time hour minute = .minute m) : m < 1440 := by
  unfold time at h
  by_cases hfits : (!fitsInt hour || !fitsInt minute) = true
  · simp [hfits] at h
  · by_cases hday : 0 ≤ hour ∧ hour < 24 ∧ 0 ≤ minute ∧ minute < 60
    · rw [if_neg hfits, if_pos hday] at h
      obtain rfl := Clock.minute.inj h
      omega
    · simp [hfits, hday] at h

theorem lt_of_startsAt {p : String} {m : Nat} (h : StartsAt periodTimes p m) : m < 1440 := by
  obtain ⟨raw, -, h⟩ := Option.map_eq_some_iff.mp h
  simp only [clock] at h
  split at h
  · exact lt_of_time h
  · simp at h

theorem startLe_trans {a b c : Nat × String} (hab : startLe a b = true) (hbc : startLe b c = true) :
    startLe a c = true := by
  simp only [startLe, Bool.or_eq_true, Bool.and_eq_true, decide_eq_true_eq, beq_iff_eq] at *
  rcases hab with hab | ⟨hab, hab'⟩ <;> rcases hbc with hbc | ⟨hbc, hbc'⟩
  · exact Or.inl (by omega)
  · exact Or.inl (by omega)
  · exact Or.inl (by omega)
  · exact Or.inr ⟨by omega, String.le_trans hab' hbc'⟩

theorem startLe_total (a b : Nat × String) : startLe a b = true ∨ startLe b a = true := by
  simp only [startLe, Bool.or_eq_true, Bool.and_eq_true, decide_eq_true_eq, beq_iff_eq]
  rcases Nat.lt_trichotomy a.1 b.1 with h | h | h
  · exact Or.inl (Or.inl h)
  · rcases String.le_total a.2 b.2 with h' | h'
    · exact Or.inl (Or.inr ⟨h, h'⟩)
    · exact Or.inr (Or.inr ⟨h.symm, h'⟩)
  · exact Or.inr (Or.inl h)

/-- The earliest start is one of them, and none is before it. -/
theorem earliest_spec {starts : List (Nat × String)} {start : Nat × String}
    (h : earliest starts = some start) : start ∈ starts ∧ ∀ s ∈ starts, start.1 ≤ s.1 := by
  have : Std.Total fun a b : Nat × String => startLe a b = true := ⟨startLe_total⟩
  have : IsTrans (Nat × String) fun a b => startLe a b = true := ⟨fun _ _ _ => startLe_trans⟩
  have hsorted := List.pairwise_insertionSort (fun a b => startLe a b = true) starts
  have hmem : ∀ s, s ∈ starts.insertionSort (fun a b => startLe a b = true) ↔ s ∈ starts :=
    fun s => List.mem_insertionSort _
  unfold earliest at h
  rcases hs : starts.insertionSort (fun a b => startLe a b = true) with _ | ⟨first, rest⟩
  · simp [hs] at h
  · rw [hs] at h hsorted hmem
    obtain rfl : first = start := by simpa using h
    refine ⟨(hmem first).mp (by simp), fun s hin => ?_⟩
    rcases List.mem_cons.mp ((hmem s).mpr hin) with rfl | hrest
    · exact le_rfl
    · have hle := (List.pairwise_cons.mp hsorted).1 s hrest
      simp only [startLe, Bool.or_eq_true, Bool.and_eq_true, decide_eq_true_eq, beq_iff_eq] at hle
      omega

theorem earliest_eq_none_iff {starts : List (Nat × String)} : earliest starts = none ↔ starts = [] := by
  rw [earliest, List.head?_eq_none_iff, ← List.length_eq_zero_iff, List.length_insertionSort,
    List.length_eq_zero_iff]

/-- An entry is read unless a period of it makes Python raise. -/
theorem entryStartTime_isSome_iff {day : Int} {periods : List String} (hday : 1 ≤ day ∧ day ≤ 7) :
    (entryStartTime periodTimes ⟨some day, some periods⟩).isSome = true ↔
      ∀ p ∈ periods, ¬Overflows periodTimes p := by
  simp only [entryStartTime, if_pos hday, Option.isSome_map, mapM_isSome_iff, periodStart_isSome_iff]

/-- Where an entry has a slot, it is that of its earliest period. -/
theorem entryStartTime_eq_some {entry : Entry} {slot : Slot}
    (h : entryStartTime periodTimes entry = some (some slot)) :
    ∃ periods, entry.periods = some periods ∧ entry.day = some slot.day ∧
      slot.period ∈ periods ∧ StartsAt periodTimes slot.period slot.start ∧
      ∀ p ∈ periods, ∀ m, StartsAt periodTimes p m → slot.start ≤ m := by
  unfold entryStartTime at h
  split at h
  · rename_i day periods hentry hperiods
    split at h
    · obtain ⟨starts, hstarts, h⟩ := Option.map_eq_some_iff.mp h
      obtain ⟨start, hearliest, rfl⟩ := Option.map_eq_some_iff.mp h
      obtain ⟨hmem, hleast⟩ := earliest_spec hearliest
      have hin : ∀ s, s ∈ starts.filterMap id ↔
          ∃ p ∈ periods, ∃ m, StartsAt periodTimes p m ∧ s = (m, p) := by
        intro s
        simp only [List.mem_filterMap, id, exists_eq_right, mem_of_mapM_eq_some hstarts,
          periodStart_eq_some_iff]
      obtain ⟨p, hp, m, hstart, rfl⟩ := (hin start).mp hmem
      refine ⟨periods, hperiods, hentry, hp, hstart, fun q hq m' hm' => ?_⟩
      exact hleast (m', q) ((hin _).mpr ⟨q, hq, m', hm', rfl⟩)
    · cases Option.some.inj h
  · cases Option.some.inj h

/-- An entry that is read and has a period with a start time has a slot. -/
theorem exists_slot {day : Int} {periods : List String} (hday : 1 ≤ day ∧ day ≤ 7)
    (hread : ∀ p ∈ periods, ¬Overflows periodTimes p) {p : String} {m : Nat} (hp : p ∈ periods)
    (hm : StartsAt periodTimes p m) :
    ∃ slot, entryStartTime periodTimes ⟨some day, some periods⟩ = some (some slot) := by
  simp only [entryStartTime, if_pos hday]
  obtain ⟨starts, hstarts⟩ : ∃ starts, periods.mapM (periodStart periodTimes) = some starts :=
    Option.isSome_iff_exists.mp
      (mapM_isSome_iff.mpr fun p hp => periodStart_isSome_iff.mpr (hread p hp))
  have hne : earliest (starts.filterMap id) ≠ none := by
    rw [Ne, earliest_eq_none_iff]
    refine List.ne_nil_of_mem (List.mem_filterMap.mpr ⟨some (m, p), ?_, rfl⟩)
    exact (mem_of_mapM_eq_some hstarts).mpr ⟨p, hp, periodStart_eq_some_iff.mpr ⟨m, hm, rfl⟩⟩
  obtain ⟨start, hstart⟩ := Option.ne_none_iff_exists'.mp hne
  exact ⟨⟨day, start.1, start.2⟩, by rw [hstarts, Option.map_some, hstart, Option.map_some]⟩

end Start

/-! ### Occurrences -/

/-- The local date of an instant, whether or not Python has it. -/
def dayOf (tz t : Int) : Day := ((t + tz) / DAY + EPOCH_DAY).toNat

theorem localDate_eq_some {tz t : Int} {d : Day} (h : localDate tz t = some d) :
    (d : Int) = (t + tz) / DAY + EPOCH_DAY ∧ 1 ≤ (d : Int) ∧ (d : Int) ≤ LAST_DAY := by
  unfold localDate at h
  by_cases hfits : 1 ≤ (t + tz) / DAY + EPOCH_DAY ∧ (t + tz) / DAY + EPOCH_DAY ≤ LAST_DAY
  · rw [if_pos hfits] at h
    obtain rfl := Option.some.inj h
    omega
  · rw [if_neg hfits] at h
    cases h

/-- A time of a day falls on that day. -/
theorem add_combine (tz : Int) (d : Day) {start : Nat} (h : start < 1440) :
    (combine tz d start + tz) / DAY + EPOCH_DAY = d := by
  have hday : DAY = 86400000000 := by decide
  have hminute : MINUTE = 60000000 := by decide
  rw [combine, hday, hminute]
  omega

theorem dayOf_combine (tz : Int) (d : Day) {start : Nat} (h : start < 1440) :
    dayOf tz (combine tz d start) = d := by
  rw [dayOf, add_combine tz d h, Int.toNat_natCast]

/-- Different times of a day are different instants. -/
theorem combine_inj {tz : Int} {d : Day} {start start' : Nat}
    (h : combine tz d start = combine tz d start') : start = start' := by
  have hminute : MINUTE = 60000000 := by decide
  rw [combine, combine, hminute] at h
  omega

/-- The period of the slot that meets at an instant: the first of the slots. -/
def periodAt (tz : Int) (slots : List Slot) (t : Int) : Option String :=
  (slots.find? fun slot => decide (slot.day = (isoweekday (dayOf tz t) : Int) ∧
    combine tz (dayOf tz t) slot.start = t)).map (·.period)

theorem lookup_filterMap_slots (tz : Int) (slots : List Slot) {windowStart windowEnd t : Int}
    (ht : windowStart < t ∧ t ≤ windowEnd) (d : Day) :
    (slots.filterMap fun slot =>
      if slot.day = (isoweekday d : Int) ∧ windowStart < combine tz d slot.start ∧
          combine tz d slot.start ≤ windowEnd then
        some (combine tz d slot.start, slot.period)
      else none).lookup t =
      (slots.find? fun slot => decide (slot.day = (isoweekday d : Int) ∧
        combine tz d slot.start = t)).map (·.period) := by
  induction slots with
  | nil => rfl
  | cons slot slots ih =>
    rw [List.filterMap_cons, List.find?_cons]
    by_cases hslot : slot.day = (isoweekday d : Int) ∧ combine tz d slot.start = t
    · have hin : slot.day = (isoweekday d : Int) ∧ windowStart < combine tz d slot.start ∧
          combine tz d slot.start ≤ windowEnd := ⟨hslot.1, by rw [hslot.2]; exact ht⟩
      rw [if_pos hin, decide_eq_true hslot, hslot.2]
      simp
    · rw [decide_eq_false hslot]
      split
      · exact ih
      · rename_i o ho
        split at ho
        · obtain rfl := Option.some.inj ho
          have hne : (t == combine tz d slot.start) = false := by
            rw [beq_eq_false_iff_ne]
            rintro rfl
            exact hslot ⟨‹_ ∧ _›.1, rfl⟩
          rw [List.lookup_cons, hne]
          exact ih
        · cases ho

/-- A key that one element alone can give is looked up there. -/
theorem lookup_flatMap_of_only {α κ β : Type} [DecidableEq α] [BEq κ] {g : α → List (κ × β)} {k : κ}
    {d : α} (honly : ∀ e, e ≠ d → (g e).lookup k = none) (days : List α) :
    (days.flatMap g).lookup k = if d ∈ days then (g d).lookup k else none := by
  induction days with
  | nil => rfl
  | cons e days ih =>
    rw [List.flatMap_cons, List.lookup_append, ih]
    by_cases he : e = d
    · subst he
      rcases hg : (g e).lookup k with _ | b <;> simp
    · simp [honly e he, Ne.symm he]

/-- The occurrence at an instant: whatever the dates, the slots of its own date decide. -/
theorem lookup_occurrencesFrom {tz : Int} {slots : List Slot} (hslots : ∀ s ∈ slots, s.start < 1440)
    {windowStart windowEnd t : Int} (ht : windowStart < t ∧ t ≤ windowEnd) (first last : Day) :
    (occurrencesFrom tz slots windowStart windowEnd first last).lookup t =
      if first ≤ dayOf tz t ∧ dayOf tz t ≤ last then periodAt tz slots t else none := by
  rw [occurrencesFrom, lookup_flatMap_of_only (d := dayOf tz t), lookup_filterMap_slots tz slots ht,
    periodAt]
  · simp only [mem_daysFromTo]
  · intro e he
    rw [lookup_filterMap_slots tz slots ht, Option.map_eq_none_iff, List.find?_eq_none]
    rintro slot hslot hmeets
    have hmeets := of_decide_eq_true hmeets
    exact he (by rw [← hmeets.2, dayOf_combine tz e (hslots slot hslot)])

/-- Nothing occurs outside the window. -/
theorem lookup_occurrencesFrom_outside {tz : Int} {slots : List Slot} {windowStart windowEnd t : Int}
    (ht : ¬(windowStart < t ∧ t ≤ windowEnd)) (first last : Day) :
    (occurrencesFrom tz slots windowStart windowEnd first last).lookup t = none := by
  rw [List.lookup_eq_none_iff]
  rintro ⟨t', p⟩ hmem
  obtain ⟨d, -, hmem⟩ := List.mem_flatMap.mp hmem
  obtain ⟨slot, -, hslot⟩ := List.mem_filterMap.mp hmem
  by_cases hin : slot.day = (isoweekday d : Int) ∧ windowStart < combine tz d slot.start ∧
      combine tz d slot.start ≤ windowEnd
  · rw [if_pos hin] at hslot
    obtain ⟨rfl, rfl⟩ := Prod.mk.inj (Option.some.inj hslot)
    rw [bne_iff_ne]
    rintro rfl
    exact ht hin.2
  · rw [if_neg hin] at hslot
    cases hslot

/-! ### The meetings of a window -/

theorem get_setDefaults (found : List (Int × String)) (t : Int) :
    (setDefaults found).get t = found.lookup t := by
  have hfold : ∀ (found : List (Int × String)) (table : Table Int String),
      (found.foldl (fun table o => table.upsert o.1 o.2 id) table).get t =
        (table.get t).or (found.lookup t) := by
    intro found
    induction found with
    | nil => simp
    | cons o found ih =>
      intro table
      rw [List.foldl_cons, ih, Table.get_upsert, List.lookup_cons]
      by_cases ho : t = o.1
      · subst ho
        rcases hget : table.get o.1 with _ | p <;> simp
      · have hne : (t == o.1) = false := beq_eq_false_iff_ne.mpr ho
        simp [ho, hne]
  simpa [setDefaults] using hfold found Table.empty

section Meetings

variable {tz : Int} {periodTimes : PeriodTimes} {schedule : ScheduleJson} {slots : List Slot}
  {windowStart windowEnd : Int} {meetings : List (Int × String)}

/-- Every slot is one of an entry's. -/
theorem mem_slotsOf (h : slotsOf periodTimes schedule = some slots) {slot : Slot} :
    slot ∈ slots ↔
      ∃ entry ∈ scheduleEntries schedule, entryStartTime periodTimes entry = some (some slot) := by
  obtain ⟨starts, hstarts, rfl⟩ := Option.map_eq_some_iff.mp h
  simp only [List.mem_filterMap, id, exists_eq_right, mem_of_mapM_eq_some hstarts]

/-- Every slot is before midnight. -/
theorem start_lt_of_mem (h : slotsOf periodTimes schedule = some slots) :
    ∀ slot ∈ slots, slot.start < 1440 := by
  intro slot hslot
  obtain ⟨entry, -, hentry⟩ := (mem_slotsOf h).mp hslot
  obtain ⟨_, -, -, -, hstart, -⟩ := entryStartTime_eq_some hentry
  exact lt_of_startsAt hstart

/-- The window's dates are Python's, and one more comes after them. -/
structure DatesFit (tz windowStart windowEnd : Int) : Prop where
  first : (localDate tz windowStart).isSome = true
  last : (localDate tz windowEnd).isSome = true
  next : dayOf tz windowStart ≤ dayOf tz windowEnd → dayOf tz windowEnd < LAST_DAY

theorem localDate_dayOf {t : Int} (h : (localDate tz t).isSome = true) :
    localDate tz t = some (dayOf tz t) := by
  obtain ⟨d, hd⟩ := Option.isSome_iff_exists.mp h
  have hday : dayOf tz t = d := by
    rw [dayOf, ← (localDate_eq_some hd).1, Int.toNat_natCast]
  rw [hd, hday]

/-- Without a slot there is no meeting, with one there are those of the window's dates. -/
theorem classMeetings_eq_some_iff (h : slotsOf periodTimes schedule = some slots) :
    classMeetings tz periodTimes schedule windowStart windowEnd = some meetings ↔
      slots = [] ∧ meetings = [] ∨ slots ≠ [] ∧ DatesFit tz windowStart windowEnd ∧
        meetings = (setDefaults (occurrencesFrom tz slots windowStart windowEnd
          (dayOf tz windowStart) (dayOf tz windowEnd))).rows.insertionSort fun a b => a.1 ≤ b.1 := by
  rw [classMeetings, h, Option.bind_some]
  by_cases hslots : slots = []
  · simp [hslots, eq_comm]
  · rw [if_neg hslots]
    by_cases hfits : DatesFit tz windowStart windowEnd
    · have hnext : ¬(dayOf tz windowStart ≤ dayOf tz windowEnd ∧ dayOf tz windowEnd = LAST_DAY) :=
        fun ⟨hle, hlast⟩ => (hfits.next hle).ne hlast
      rw [localDate_dayOf hfits.first, localDate_dayOf hfits.last, Option.bind_some,
        Option.bind_some, if_neg hnext]
      simp [hslots, hfits, eq_comm]
    · simp only [hslots, hfits, false_and, and_false, or_self, iff_false]
      intro hsome
      obtain ⟨first, hfirst, hsome⟩ := Option.bind_eq_some_iff.mp hsome
      obtain ⟨last, hlast, hsome⟩ := Option.bind_eq_some_iff.mp hsome
      have hfirst' := localDate_dayOf (Option.isSome_of_eq_some hfirst)
      have hlast' := localDate_dayOf (Option.isSome_of_eq_some hlast)
      obtain rfl := Option.some.inj (hfirst.symm.trans hfirst')
      obtain rfl := Option.some.inj (hlast.symm.trans hlast')
      by_cases hnext : dayOf tz windowStart ≤ dayOf tz windowEnd ∧ dayOf tz windowEnd = LAST_DAY
      · rw [if_pos hnext] at hsome
        cases hsome
      · refine hfits ⟨Option.isSome_of_eq_some hfirst, Option.isSome_of_eq_some hlast, fun hle => ?_⟩
        have hbound := (localDate_eq_some hlast).2.2
        exact lt_of_le_of_ne (Int.ofNat_le.mp hbound) fun h => hnext ⟨hle, h⟩

/-- Dates follow one another as instants do. -/
theorem dayOf_mono {t t' : Int} (h : t ≤ t') : dayOf tz t ≤ dayOf tz t' := by
  have hdiv : (t + tz) / DAY ≤ (t' + tz) / DAY :=
    Int.ediv_le_ediv (by decide) (Int.add_le_add_right h tz)
  exact Int.toNat_le_toNat (Int.add_le_add_right hdiv _)

/-- The meetings of a window: what the slots have at each instant of it. -/
theorem mem_classMeetings_iff (hslots : slotsOf periodTimes schedule = some slots)
    (h : classMeetings tz periodTimes schedule windowStart windowEnd = some meetings) {t : Int}
    {p : String} :
    (t, p) ∈ meetings ↔ (windowStart < t ∧ t ≤ windowEnd) ∧ periodAt tz slots t = some p := by
  obtain ⟨rfl, rfl⟩ | ⟨-, hfits, rfl⟩ := (classMeetings_eq_some_iff hslots).mp h
  · simp [periodAt]
  · rw [List.mem_insertionSort, ← Table.get_eq_some_iff, get_setDefaults]
    by_cases ht : windowStart < t ∧ t ≤ windowEnd
    · rw [lookup_occurrencesFrom (start_lt_of_mem hslots) ht,
        if_pos ⟨dayOf_mono ht.1.le, dayOf_mono ht.2⟩]
      simp [ht]
    · simp [lookup_occurrencesFrom_outside ht, ht]

/-- The meetings are in order, no two at once. -/
theorem classMeetings_pairwise
    (h : classMeetings tz periodTimes schedule windowStart windowEnd = some meetings) :
    meetings.Pairwise (·.1 < ·.1) := by
  obtain ⟨slots, hslots, -⟩ := Option.bind_eq_some_iff.mp h
  obtain ⟨-, rfl⟩ | ⟨-, -, rfl⟩ := (classMeetings_eq_some_iff hslots).mp h
  · simp
  · have : Std.Total fun a b : Int × String => a.1 ≤ b.1 := ⟨fun a b => le_total a.1 b.1⟩
    have : IsTrans (Int × String) fun a b => a.1 ≤ b.1 := ⟨fun a b c => le_trans⟩
    generalize setDefaults _ = found
    have hsorted := List.pairwise_insertionSort (fun a b : Int × String => a.1 ≤ b.1) found.rows
    have hnodup : (found.rows.insertionSort fun a b => a.1 ≤ b.1).Pairwise (·.1 ≠ ·.1) :=
      List.pairwise_map.mp (((List.perm_insertionSort _ _).map Prod.fst).nodup_iff.mpr found.keys_nodup)
    exact (hsorted.and hnodup).imp fun ⟨hle, hne⟩ => lt_of_le_of_ne hle hne

end Meetings

end TigerDuck.Push
