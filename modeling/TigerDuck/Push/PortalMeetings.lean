import TigerDuck.AcademicCalendar.OneChange
import TigerDuck.Push.Timetable

/-!
# The portal's meetings and the server's

The portal takes a course change against the meetings its `_meetings` makes of a weekday's periods
(`portal/app/routes/course_changes.py`), and the class reminders look it up by the first period of
a meeting `_schedule_entries` makes of them. Both mean the runs of periods that follow one another
in NTUST's order. The server drops the periods NTUST does not have before it looks for runs; the
portal sorts them in among the others, and a run ends at one.

- `restricted_meetings_eq_iff`: the runs of one weekday's periods agree exactly when no period
  that NTUST does not have sorts between two neighbours.
- `portal_agrees_iff`: the same for schedules and the changes the portal takes for them.
-/

namespace TigerDuck.Push

open AcademicCalendar Relational

/-! ### The portal's order -/

section Order

variable {p q u : String}

theorem periodLe_trans (hpq : periodLe p q = true) (hqu : periodLe q u = true) :
    periodLe p u = true := by
  unfold periodLe at *
  generalize digitsOf p = a at *
  generalize digitsOf q = b at *
  generalize digitsOf u = c at *
  rcases a with _ | n <;> rcases b with _ | m <;> rcases c with _ | l <;>
    simp only [Bool.or_eq_true, Bool.and_eq_true, decide_eq_true_eq, beq_iff_eq,
      Bool.false_eq_true] at *
  · exact String.le_trans hpq hqu
  · rcases hpq with hpq | ⟨rfl, hpq⟩ <;> rcases hqu with hqu | ⟨rfl, hqu⟩
    · exact Or.inl (hpq.trans hqu)
    · exact Or.inl hpq
    · exact Or.inl hqu
    · exact Or.inr ⟨rfl, String.le_trans hpq hqu⟩

theorem periodLe_total (p q : String) : periodLe p q = true ∨ periodLe q p = true := by
  unfold periodLe
  rcases digitsOf p with _ | n <;> rcases digitsOf q with _ | m <;>
    simp only [Bool.or_eq_true, Bool.and_eq_true, decide_eq_true_eq, beq_iff_eq, or_true, true_or,
      Bool.false_eq_true]
  · exact String.le_total p q
  · rcases Nat.lt_trichotomy n m with h | h | h
    · exact Or.inl (Or.inl h)
    · rcases String.le_total p q with h' | h'
      · exact Or.inl (Or.inr ⟨h, h'⟩)
      · exact Or.inr (Or.inr ⟨h.symm, h'⟩)
    · exact Or.inr (Or.inl h)

theorem periodLe_antisymm (hpq : periodLe p q = true) (hqp : periodLe q p = true) : p = q := by
  unfold periodLe at *
  generalize digitsOf p = a at *
  generalize digitsOf q = b at *
  rcases a with _ | n <;> rcases b with _ | m <;>
    simp only [Bool.or_eq_true, Bool.and_eq_true, decide_eq_true_eq, beq_iff_eq,
      Bool.false_eq_true] at *
  · exact String.le_antisymm hpq hqp
  · rcases hpq with hpq | ⟨rfl, hpq⟩ <;> rcases hqp with hqp | ⟨hm, hqp⟩
    · omega
    · omega
    · omega
    · exact String.le_antisymm hpq hqp

/-- Two lists in the portal's order with the same periods are the same. -/
theorem eq_of_portal_order {l l' : List String} (hl : l.Pairwise (periodLe · · = true))
    (hl' : l'.Pairwise (periodLe · · = true)) (hperm : l.Perm l') : l = l' := by
  have hantisymm : ∀ p q, p ∈ l → q ∈ l' → periodLe p q = true → periodLe q p = true → p = q :=
    fun p q _ _ => periodLe_antisymm
  exact List.Perm.eq_of_pairwise hantisymm hl hl' hperm

theorem pairwise_sortedPeriods (periods : List String) :
    (sortedPeriods periods).Pairwise (periodLe · · = true) := by
  have : Std.Total fun p q : String => periodLe p q = true := ⟨periodLe_total⟩
  have : IsTrans String fun p q => periodLe p q = true := ⟨fun _ _ _ => periodLe_trans⟩
  exact List.pairwise_insertionSort _ _

theorem mem_sortedPeriods {periods : List String} : p ∈ sortedPeriods periods ↔ p ∈ periods := by
  rw [sortedPeriods, List.mem_insertionSort, List.mem_eraseDups]

/-- Of NTUST's periods the portal keeps NTUST's order. -/
theorem filter_sortedPeriods (periods : List String) :
    (sortedPeriods periods).filter PERIODS.contains = PERIODS.filter periods.contains := by
  refine eq_of_portal_order ((pairwise_sortedPeriods periods).filter _)
    (List.Pairwise.filter _ (by decide +kernel)) ?_
  refine (List.perm_ext_iff_of_nodup ?_ (List.Nodup.filter _ (by decide))).mpr fun p => ?_
  · exact ((List.perm_insertionSort _ _).nodup_iff.mpr (nodup_eraseDups _)).filter _
  · simp [mem_sortedPeriods, and_comm]

end Order

/-! ### The runs of a weekday's periods -/

theorem meetings_eq (periods : List String) :
    meetings periods = (sortedPeriods periods).splitBy backToBack := by
  rw [← foldl_extend, meetings]
  congr 1
  ext runs p : 2
  rw [extend]
  rcases runs.getLast? with _ | run <;> rfl

/-- Runs without the periods NTUST does not have. -/
def restricted (runs : List (List String)) : List (List String) :=
  (runs.map (·.filter PERIODS.contains)).filter (· ≠ [])

/-- No period that NTUST does not have sorts between two neighbours. -/
def Unbroken (periods : List String) : Prop :=
  ∀ p ∈ periods, ∀ q ∈ periods, ∀ u ∈ periods, p ∈ PERIODS → q ∈ PERIODS → u ∉ PERIODS →
    periodRank q = periodRank p + 1 → ¬(periodLe p u = true ∧ periodLe u q = true)

theorem backToBack_iff {p q : String} :
    backToBack p q = true ↔ (p ∈ PERIODS ∧ q ∈ PERIODS) ∧ follows periodRank p q = true := by
  simp [backToBack, follows, periodRank, PERIODS, ORDER]

/-- A period NTUST does not have is a meeting by itself. -/
theorem eq_singleton_of_unknown {m : List String} (hchain : m.IsChain (backToBack · · = true))
    {u : String} (hu : u ∈ m) (hunknown : u ∉ PERIODS) : m = [u] := by
  obtain ⟨before, after, rfl⟩ := List.append_of_mem hu
  obtain ⟨-, hafter, hbefore⟩ := List.isChain_append.mp hchain
  have hnil : after = [] := by
    rcases after with _ | ⟨x, after⟩
    · rfl
    · exact absurd (backToBack_iff.mp (List.isChain_cons_cons.mp hafter).1).1.1 hunknown
  have hnil' : before = [] := by
    by_contra hne
    have h := hbefore _ (List.getLast?_eq_some_getLast hne) u (by simp)
    exact hunknown (backToBack_iff.mp h).1.2
  rw [hnil, hnil', List.nil_append]

/-- The runs agree exactly when no period NTUST does not have sorts between two neighbours. -/
theorem restricted_meetings_eq_iff (periods : List String) :
    restricted (meetings periods) = periodRuns periods ↔ Unbroken periods := by
  rw [meetings_eq]
  constructor
  · rintro heq p hp q hq u hu hpknown hqknown hunknown hnext ⟨hpu, huq⟩
    -- The server has both neighbours in one run, which the portal must then have too.
    obtain ⟨run, hrun, hprun⟩ := mem_run_of_mem hp hpknown
    have hqrun : q ∈ run := by
      obtain ⟨first, last, hmax, rfl⟩ := mem_periodRuns_iff.mp hrun
      have hbounds : first ≤ periodRank p ∧ periodRank p ≤ last := by
        simpa using (List.mem_filter.mp hprun).2
      have hne : periodRank p ≠ last := by
        rintro rfl
        exact hmax.after ⟨q, hq, hqknown, hnext⟩
      refine List.mem_filter.mpr ⟨hqknown, decide_eq_true ?_⟩
      omega
    rw [← heq] at hrun
    obtain ⟨m, hm, rfl⟩ := List.mem_map.mp (List.mem_filter.mp hrun).1
    have hpm := (List.mem_filter.mp hprun).1
    have hqm := (List.mem_filter.mp hqrun).1
    -- What sorts between two periods of one meeting is in it.
    have hum : u ∈ m := by
      obtain ⟨before, after, hsplit⟩ := List.append_of_mem hm
      have hflat : sortedPeriods periods = before.flatten ++ (m ++ after.flatten) := by
        have h := List.flatten_splitBy backToBack (sortedPeriods periods)
        rw [hsplit] at h
        simpa using h.symm
      have hsorted := pairwise_sortedPeriods periods
      have hin := mem_sortedPeriods.mpr hu
      rw [hflat] at hsorted hin
      obtain ⟨-, hsorted, hcross⟩ := List.pairwise_append.mp hsorted
      rcases List.mem_append.mp hin with hin | hin
      · have hup := hcross u hin p (List.mem_append_left _ hpm)
        exact absurd (periodLe_antisymm hpu hup ▸ hpknown) hunknown
      rcases List.mem_append.mp hin with hin | hin
      · exact hin
      · have hqu := (List.pairwise_append.mp hsorted).2.2 q hqm u hin
        exact absurd (periodLe_antisymm hqu huq ▸ hqknown) hunknown
    have hsingle := eq_singleton_of_unknown (List.isChain_of_mem_splitBy hm) hum hunknown
    rw [hsingle, List.mem_singleton] at hpm
    exact hunknown (hpm ▸ hpknown)
  · intro hunbroken
    rw [restricted, periodRuns_eq, ← filter_sortedPeriods]
    refine splitBy_filter (fun p q h => ?_) (fun p q hp hq => ?_) fun p u q hsub hp hu hq => ?_
    · simpa using (backToBack_iff.mp h).1
    · rw [Bool.eq_iff_iff, backToBack_iff]
      simp only [List.contains_iff_mem] at hp hq
      simp [hp, hq]
    · have hsorted := (pairwise_sortedPeriods periods).sublist hsub
      simp only [List.pairwise_cons, List.mem_cons, List.not_mem_nil, or_false] at hsorted
      have hin := fun x hx => mem_sortedPeriods.mp (hsub.subset (a := x) hx)
      simp only [List.contains_iff_mem] at hp hq
      have hu : u ∉ PERIODS := by simpa using hu
      by_contra hfollows
      refine hunbroken p (hin p (by simp)) q (hin q (by simp)) u (hin u (by simp)) hp hq hu ?_
        ⟨hsorted.1 u (Or.inl rfl), hsorted.2.1 q rfl⟩
      simpa [follows] using hfollows

/-! ### Schedules -/

/-- A schedule in object form as `course_meetings` reads it: the keys that have a list. -/
def portalSchedule (members : Table String (Option (List String))) : Schedule :=
  members.rows.filterMap fun (key, periods) => periods.map (key, ·)

/-- The portal's meetings of a weekday. -/
def portalRuns (members : Table String (Option (List String))) (weekday : Nat) :
    List (List String) :=
  meetings (((courseMeetings (portalSchedule members)).lookup weekday).getD [])

/-- The server's meetings of a weekday. -/
def serverRuns (members : Table String (Option (List String))) (weekday : Nat) :
    List (List String) :=
  ((scheduleEntries (.object members)).filter (·.day = some (weekday : Int))).filterMap (·.periods)

/-- The portal sorts a set: order and repetitions do not matter. -/
theorem sortedPeriods_congr {periods periods' : List String} (h : ∀ p, p ∈ periods ↔ p ∈ periods') :
    sortedPeriods periods = sortedPeriods periods' := by
  refine eq_of_portal_order (pairwise_sortedPeriods _) (pairwise_sortedPeriods _) ?_
  refine (List.perm_ext_iff_of_nodup ?_ ?_).mpr fun p => ?_
  · exact (List.perm_insertionSort _ _).nodup_iff.mpr (nodup_eraseDups _)
  · exact (List.perm_insertionSort _ _).nodup_iff.mpr (nodup_eraseDups _)
  · rw [mem_sortedPeriods, mem_sortedPeriods, h]

/-- Looking up a key that is listed unless its value is empty. -/
theorem lookup_filterMap_nonempty (g : Nat → List String) (keys : List Nat) (k : Nat) :
    ((keys.filterMap fun key => if g key = [] then none else some (key, g key)).lookup k).getD [] =
      if k ∈ keys then g k else [] := by
  induction keys with
  | nil => rfl
  | cons key keys ih =>
    rw [List.filterMap_cons]
    by_cases hempty : g key = []
    · rw [if_pos hempty, ih]
      by_cases hk : k = key
      · subst hk
        simp [hempty]
      · simp [hk]
    · rw [if_neg hempty, List.lookup_cons]
      by_cases hk : k = key
      · simp [hk]
      · have hne : (k == key) = false := beq_eq_false_iff_ne.mpr hk
        simp [hne, hk, ih]

theorem lookup_courseMeetings (schedule : Schedule) {weekday : Nat}
    (h : 1 ≤ weekday ∧ weekday ≤ 7) :
    ((courseMeetings schedule).lookup weekday).getD [] =
      ((schedule.filter (·.1 = toString weekday)).flatMap (·.2)).eraseDups := by
  have hmem : weekday ∈ [1, 2, 3, 4, 5, 6, 7] := by
    simp only [List.mem_cons, List.not_mem_nil, or_false]
    omega
  exact (lookup_filterMap_nonempty _ _ weekday).trans (if_pos hmem)

/-- The portal's meetings are those of the weekday's periods. -/
theorem portalRuns_eq (members : Table String (Option (List String))) {weekday : Nat}
    (h : 1 ≤ weekday ∧ weekday ≤ 7) :
    portalRuns members weekday = meetings ((weekdayPeriods members weekday).getD []) := by
  have hrows : ((portalSchedule members).filter (·.1 = toString weekday)).flatMap (·.2) =
      (weekdayPeriods members weekday).getD [] := by
    have hflat : ∀ rows : List (String × Option (List String)),
        ((rows.filterMap fun (key, periods) => periods.map (key, ·)).filter
          (·.1 = toString weekday)).flatMap (·.2) =
          rows.flatMap fun r => if r.1 = toString weekday then r.2.getD [] else [] := by
      intro rows
      induction rows with
      | nil => rfl
      | cons row rows ih =>
        obtain ⟨key, _ | periods⟩ := row
        · simpa using ih
        · generalize toString weekday = k at ih ⊢
          by_cases hkey : key = k
          · simp [hkey, ih]
          · simp [hkey, ih]
    have honly := members.flatMap_rows_of_only
      (g := fun r => if r.1 = toString weekday then r.2.getD [] else []) (toString weekday)
      fun key _ hkey => if_neg hkey
    rw [portalSchedule, hflat, honly, weekdayPeriods]
    rcases members.get (toString weekday) with _ | _ | periods <;> simp
  rw [portalRuns, lookup_courseMeetings _ h, hrows, meetings_eq, meetings_eq]
  exact congrArg _ (sortedPeriods_congr fun p => List.mem_eraseDups)

/-- The server's meetings are the runs of the weekday's periods. -/
theorem serverRuns_eq (members : Table String (Option (List String))) {weekday : Nat}
    (h : 1 ≤ weekday ∧ weekday ≤ 7) :
    serverRuns members weekday = periodRuns ((weekdayPeriods members weekday).getD []) := by
  obtain ⟨hkey, hindex⟩ := weekdayKey h
  rw [serverRuns, scheduleEntries, List.filter_flatMap, List.filterMap_flatMap,
    members.flatMap_rows_of_only (toString weekday), weekdayPeriods]
  · rcases members.get (toString weekday) with _ | _ | periods
    · rfl
    · rfl
    · have hday : ((WEEKDAY_KEYS.idxOf (toString weekday) : Int) + 1) = weekday := by
        exact_mod_cast hindex
      generalize toString weekday = key at hkey hday ⊢
      simp [hkey, hday, List.filter_map, Function.comp_def]
  · rintro key (_ | periods) hne
    · rfl
    · by_cases hin : key ∈ WEEKDAY_KEYS
      · obtain ⟨weekday', hweekday', rfl⟩ := exists_weekday hin
        have hindex' := (weekdayKey hweekday').2
        have hday : ((WEEKDAY_KEYS.idxOf (toString weekday') : Int) + 1) ≠ weekday := by
          intro heq
          exact hne (congrArg _ (hindex'.symm.trans (by exact_mod_cast heq)))
        generalize toString weekday' = key at hin hday ⊢
        simp [hin, hday, List.filter_map, Function.comp_def]
      · simp [hin]

/-! ### The changes the portal takes -/

/-- A new start or end that passes the check names one meeting of every class day, if it names any
periods. -/
theorem check_timed {db : AcademicCalendar.Db} {term courseNo : String} {body : Body}
    {changeId : Option Nat} {columns : Columns} {row : AcademicCalendar.SemesterTerm}
    (hrow : db.terms.get term = some row) (h : check db term courseNo body changeId = .ok columns)
    (htimed : columns.kind = .startTime ∨ columns.kind = .endTime) :
    ∀ d ∈ meetingDays row (db.meets term courseNo) columns.startDate columns.endDate
      columns.excludedWeekdays, notOneMeeting (db.meets term courseNo) columns d = none := by
  unfold check at h
  rw [hrow] at h
  dsimp only at h
  split at h
  · split at h <;> cases h
  split at h
  next => cases h
  next parsed hparse =>
    split at h
    · split at h
      · cases h
      · split at h <;> cases h
    split at h
    next => cases h
    next =>
      split at h
      next => cases h
      next hnone =>
        have hcolumns : parsed = columns := by
          split at h
          · exact Except.ok.inj h
          · split at h
            · cases h
            · exact Except.ok.inj h
        subst hcolumns
        rw [if_pos htimed] at hnone
        exact fun d hd => List.findSome?_eq_none_iff.mp hnone d hd

/-- Portal and server agree on the meetings of a schedule in object form. -/
structure Agrees (members : Table String (Option (List String))) : Prop where
  /-- The portal's runs, without the periods NTUST does not have, are the server's. -/
  runs : ∀ weekday, 1 ≤ weekday ∧ weekday ≤ 7 →
    restricted (portalRuns members weekday) = serverRuns members weekday
  /-- Where the portal takes a change to a meeting by its first period, the server has that
  meeting, with the same periods. -/
  changes : ∀ (db : AcademicCalendar.Db) (term courseNo : String) (body : Body)
    (changeId : Option Nat) (columns : Columns) (row : AcademicCalendar.SemesterTerm),
    db.schedules.get (term, courseNo) = some (portalSchedule members) →
    db.terms.get term = some row → check db term courseNo body changeId = .ok columns →
    ∀ d ∈ meetingDays row (db.meets term courseNo) columns.startDate columns.endDate
      columns.excludedWeekdays, ∀ p ∈ PERIODS,
      (∀ meeting ∈ portalRuns members (isoweekday d), meeting.head? = some p →
        (∀ periods, columns.periods = some periods → p ∈ periods) →
          meeting ∈ serverRuns members (isoweekday d)) ∧
      (columns.kind = .startTime ∨ columns.kind = .endTime → ∀ periods,
        columns.periods = some periods → periods.head? = some p →
          periods ∈ serverRuns members (isoweekday d))

/-- A meeting of the portal's that starts in one of NTUST's periods has no other periods. -/
theorem mem_restricted {periods meeting : List String} (hmeeting : meeting ∈ meetings periods)
    {p : String} (hp : p ∈ PERIODS) (hhead : meeting.head? = some p) :
    meeting ∈ restricted (meetings periods) := by
  have hknown : ∀ u ∈ meeting, u ∈ PERIODS := by
    intro u hu
    by_contra hunknown
    rw [meetings_eq] at hmeeting
    have hsingle := eq_singleton_of_unknown (List.isChain_of_mem_splitBy hmeeting) hu hunknown
    rw [hsingle] at hhead
    exact hunknown (Option.some.inj hhead ▸ hp)
  have hself : meeting.filter PERIODS.contains = meeting :=
    List.filter_eq_self.mpr fun u hu => by simpa using hknown u hu
  refine List.mem_filter.mpr ⟨List.mem_map.mpr ⟨meeting, hmeeting, hself⟩, ?_⟩
  rcases meeting with _ | ⟨q, meeting⟩
  · cases hhead
  · rfl

/-- Portal and server agree exactly when no period that NTUST does not have sorts, on any weekday,
between two that follow each other. -/
theorem portal_agrees_iff (members : Table String (Option (List String))) :
    Agrees members ↔ ∀ weekday, 1 ≤ weekday ∧ weekday ≤ 7 → ∀ periods,
      weekdayPeriods members weekday = some periods → Unbroken periods := by
  constructor
  · intro hagrees weekday hweekday periods hperiods
    have h := hagrees.runs weekday hweekday
    rw [portalRuns_eq members hweekday, serverRuns_eq members hweekday, hperiods] at h
    exact (restricted_meetings_eq_iff periods).mp h
  · intro hunbroken
    have hruns : ∀ weekday, 1 ≤ weekday ∧ weekday ≤ 7 →
        restricted (portalRuns members weekday) = serverRuns members weekday := by
      intro weekday hweekday
      rw [portalRuns_eq members hweekday, serverRuns_eq members hweekday]
      rcases hperiods : weekdayPeriods members weekday with _ | periods
      · rfl
      · exact (restricted_meetings_eq_iff periods).mpr (hunbroken weekday hweekday periods hperiods)
    refine ⟨hruns, ?_⟩
    intro db term courseNo body changeId columns row hschedule hrow hcheck d hd p hp
    have hmeeting : ∀ meeting ∈ portalRuns members (isoweekday d), meeting.head? = some p →
        meeting ∈ serverRuns members (isoweekday d) := by
      intro meeting hmem hhead
      rw [← hruns _ (isoweekday_bounds d)]
      exact mem_restricted hmem hp hhead
    refine ⟨fun meeting hmem hhead _ => hmeeting meeting hmem hhead, ?_⟩
    intro htimed periods hperiods hhead
    have hone := check_timed hrow hcheck htimed d hd
    refine hmeeting periods ?_ hhead
    have hmeets : db.meets term courseNo = courseMeetings (portalSchedule members) := by
      rw [AcademicCalendar.Db.meets, hschedule, Option.getD_some]
    rw [notOneMeeting, hperiods, hmeets, meetsOn] at hone
    rw [portalRuns]
    by_contra hnot
    simp [hnot] at hone

/-- Two periods in a row with one the portal reads as a number between them. -/
theorem split_by_unknown_period :
    ¬Agrees ⟨[("1", some ["1", "02", "2"])], by decide⟩ := by
  intro h
  have hruns := h.runs 1 (by decide)
  have hsplit : restricted (portalRuns ⟨[("1", some ["1", "02", "2"])], by decide⟩ 1) =
      [["1"], ["2"]] := by decide +kernel
  have hjoined : serverRuns ⟨[("1", some ["1", "02", "2"])], by decide⟩ 1 = [["1", "2"]] := by
    decide +kernel
  rw [hsplit, hjoined] at hruns
  exact absurd hruns (by decide)

end TigerDuck.Push
