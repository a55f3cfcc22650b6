import TigerDuck.AcademicCalendar.CourseChanges
import TigerDuck.Transition.Run

/-!
# One change of a kind for a meeting

`_check` refuses a change that takes a day of another of its kind in a period of its own. It looks
at the days and periods of the other as the schedule has them at the time, so a change that does not
fit the schedule then is passed over, and comes to bear on the same meeting once the schedule is
edited again (`second_room_of_a_meeting`).

Where no write passes one over (`EveryOtherFits`), two changes of a kind are apart whatever the
schedule: on no day that both take do they take the same period (`Apart`). That holds of a run's
changes by `Exclusive`, which an edit of a schedule cannot touch, and `Exclusive.kinds_nodup` reads
it off the feed.
-/

namespace TigerDuck.AcademicCalendar

open Relational Transition

/-- The days a change takes: those of its range, off the weekdays it leaves out. -/
def Columns.Covers (columns : Columns) (d : Day) : Prop :=
  columns.startDate ≤ d ∧ d ≤ columns.endDate ∧ isoweekday d ∉ columns.excludedWeekdays

/-- On a day that both take, two changes name periods, and none in common. -/
def Apart (columns columns' : Columns) : Prop :=
  ∀ d, columns.Covers d → columns'.Covers d →
    disjointPeriods columns.periods columns'.periods = true

theorem disjointPeriods_comm (p q : Option (List String)) :
    disjointPeriods p q = disjointPeriods q p := by
  rw [Bool.eq_iff_iff]
  cases p <;> cases q <;> simp [disjointPeriods]
  constructor <;> exact fun ⟨⟨hp, hq⟩, h⟩ => ⟨⟨hq, hp⟩, fun x hx hx' => h x hx' hx⟩

theorem Apart.symm {columns columns' : Columns} (h : Apart columns columns') :
    Apart columns' columns := by
  intro d hd hd'
  rw [disjointPeriods_comm]
  exact h d hd' hd

/-- The schedule of a course at the time. -/
def Db.meets (db : Db) (term courseNo : String) : List (Nat × List String) :=
  courseMeetings ((db.schedules.get (term, courseNo)).getD [])

/-- The course meets on the day, in every period the change names. -/
def Fits (meets : List (Nat × List String)) (columns : Columns) (d : Day) : Prop :=
  ∃ periods, meetsOn meets d = some periods ∧
    ∀ period ∈ columns.periods.getD [], period ∈ periods

/-- The course's other changes of the kind fit its schedule, on every day they share with this one
in a period of both. -/
def EveryOtherFits (db : Db) (term courseNo : String) (changeId : Option Nat) (columns : Columns) :
    Prop :=
  columns.kind ≠ .note → ∀ other ∈ others db term courseNo columns.kind changeId, ∀ d,
    columns.Covers d → other.columns.Covers d →
      disjointPeriods columns.periods other.columns.periods = false →
        Fits (db.meets term courseNo) other.columns d

/-- No write passes over a change of its kind that does not fit the schedule of the time. -/
def NonePassedOver (db : Db) : Label → Prop
  | .create _ term body => ∀ row courseNo columns, db.terms.get term = some row →
      body.courseNo.join = some courseNo → parse body row = .ok columns →
        EveryOtherFits db term courseNo none columns
  | .update id body => ∀ current row columns, db.changes.get id = some current →
      db.terms.get current.termCode = some row → parse body row = .ok columns →
        EveryOtherFits db current.termCode current.courseNo (some id) columns
  | _ => True

/-! ### What the check has seen -/

theorem mem_others {db : Db} {term courseNo : String} {kind : Kind} {changeId : Option Nat}
    {other : CourseChange} :
    other ∈ others db term courseNo kind changeId ↔ ∃ id, db.changes.get id = some other ∧
      other.termCode = term ∧ other.courseNo = courseNo ∧ other.columns.kind = kind ∧
        some id ≠ changeId := by
  simp only [others, List.mem_map, Prod.exists, Table.mem_select_iff, decide_eq_true_eq]
  constructor
  · rintro ⟨id, change, ⟨hget, hsame⟩, rfl⟩
    exact ⟨id, hget, hsame⟩
  · rintro ⟨id, hget, hsame⟩
    exact ⟨id, other, ⟨hget, hsame⟩, rfl⟩

theorem mem_meetingDays {term : SemesterTerm} {meets : List (Nat × List String)}
    {first last : Day} {excluded : List Nat} {d : Day} :
    d ∈ meetingDays term meets first last excluded ↔
      (max first term.startDate ≤ d ∧ d ≤ min last term.endDate) ∧
        (meetsOn meets d).isSome = true ∧ isoweekday d ∉ excluded := by
  simp [meetingDays]

/-- The range a request asks for lies in the term. -/
theorem dates_within {body : Body} {term : SemesterTerm} {range : Mode × Day × Day × List Nat}
    (h : dates body term = .ok range) :
    term.startDate ≤ range.2.1 ∧ range.2.2.1 ≤ term.endDate := by
  unfold dates at h
  cases hrange : rangeOf body with
  | error e => simp [hrange, bind, Except.bind] at h
  | ok range' =>
    simp only [hrange, bind, Except.bind] at h
    split at h
    next => cases h
    next hnone =>
      obtain rfl := Except.ok.inj h
      have hfirst := List.find?_eq_none.mp hnone range'.2.1 (by simp)
      have hlast := List.find?_eq_none.mp hnone range'.2.2.1 (by simp)
      simp only [Bool.not_eq_true, Bool.not_eq_false', Bool.and_eq_true, decide_eq_true_eq]
        at hfirst hlast
      exact ⟨hfirst.1, hlast.2⟩

theorem parse_within {body : Body} {term : SemesterTerm} {columns : Columns}
    (h : parse body term = .ok columns) :
    term.startDate ≤ columns.startDate ∧ columns.endDate ≤ term.endDate := by
  unfold parse at h
  split at h
  next => cases h
  next kind _ =>
    cases hvalues : values body kind ⟨kind, .day, 0, 0, [], none, none, none, none, none, none⟩ with
    | error e => simp [hvalues, bind, Except.bind] at h
    | ok valued =>
      cases hdates : dates body term with
      | error e => simp [hvalues, hdates, bind, Except.bind] at h
      | ok range =>
        cases hperiods : periodsOf body with
        | error e => simp [hvalues, hdates, hperiods, bind, Except.bind] at h
        | ok periods =>
          simp only [hvalues, hdates, hperiods, bind, Except.bind, pure, Except.pure,
            Except.ok.injEq] at h
          obtain rfl := h
          exact dates_within hdates

/-- A request that passes the check clashes with none of the other changes, as they stand. -/
theorem check_spec {db : Db} {term courseNo : String} {body : Body} {changeId : Option Nat}
    {columns : Columns} (h : check db term courseNo body changeId = .ok columns) :
    ∃ row, db.terms.get term = some row ∧ parse body row = .ok columns ∧
      (columns.kind = .note ∨ clashes row (db.meets term courseNo) columns
        (others db term courseNo columns.kind changeId) = []) := by
  unfold check at h
  split at h
  next => cases h
  next row hrow =>
    refine ⟨row, hrow, ?_⟩
    dsimp only at h
    split at h
    · split at h <;> cases h
    split at h
    next => cases h
    next parsed hparse =>
      split at h
      · split at h
        · cases h
        · split at h <;> cases h
      split at h
      next => cases h
      next =>
        split at h
        next => cases h
        next =>
          split at h
          next hnote =>
            obtain rfl := Except.ok.inj h
            exact ⟨hparse, Or.inl hnote⟩
          next =>
            split at h
            next => cases h
            next hnone =>
              obtain rfl := Except.ok.inj h
              exact ⟨hparse, Or.inr (List.min?_eq_none_iff.mp hnone)⟩

/-- What passes the check is apart from every other change of its kind that it could see. -/
theorem check_apart {db : Db} {term courseNo : String} {body : Body} {changeId : Option Nat}
    {columns : Columns} (h : check db term courseNo body changeId = .ok columns)
    (hfits : EveryOtherFits db term courseNo changeId columns) (hnote : columns.kind ≠ .note)
    {other : CourseChange} (hother : other ∈ others db term courseNo columns.kind changeId) :
    Apart columns other.columns := by
  obtain ⟨row, _, hparse, hclashes⟩ := check_spec h
  have hnone := hclashes.resolve_left hnote
  obtain ⟨hstart, hend⟩ := parse_within hparse
  intro d hd hd'
  by_contra hshare
  have hshare : disjointPeriods columns.periods other.columns.periods = false := by
    simpa using hshare
  obtain ⟨periods, hmeets, hperiods⟩ := hfits hnote other hother d hd hd' hshare
  -- The day lies in the term, as the whole of the new change does.
  have hterm : row.startDate ≤ d ∧ d ≤ row.endDate := ⟨hstart.trans hd.1, hd.2.1.trans hend⟩
  have hday : d ∈ meetingDays row (db.meets term courseNo) columns.startDate columns.endDate
      columns.excludedWeekdays :=
    mem_meetingDays.mpr ⟨⟨max_le hd.1 hterm.1, le_min hd.2.1 hterm.2⟩, by simp [hmeets], hd.2.2⟩
  have hday' : d ∈ meetingDays row (db.meets term courseNo) other.columns.startDate
      other.columns.endDate other.columns.excludedWeekdays :=
    mem_meetingDays.mpr ⟨⟨max_le hd'.1 hterm.1, le_min hd'.2.1 hterm.2⟩, by simp [hmeets], hd'.2.2⟩
  have hclash : d ∈ clashes row (db.meets term courseNo) columns
      (others db term courseNo columns.kind changeId) := by
    refine List.mem_flatMap.mpr ⟨other, List.mem_filter.mpr ⟨hother, by simp [hshare]⟩, ?_⟩
    refine List.mem_filter.mpr ⟨hday', ?_⟩
    simpa [hday, hmeets] using hperiods
  rw [hnone] at hclash
  cases hclash

/-! ### Runs -/

/-- Two changes of a kind of a course are apart. -/
def Exclusive (db : Db) : Prop :=
  ∀ id id' a b, db.changes.get id = some a → db.changes.get id' = some b → id ≠ id' →
    a.termCode = b.termCode → a.courseNo = b.courseNo → a.columns.kind = b.columns.kind →
      a.columns.kind ≠ .note → Apart a.columns b.columns

/-- A change is stored that is apart from the others of its kind. -/
theorem Exclusive.set {db : Db} (h : Exclusive db) {id : Nat} {change : CourseChange}
    (changeId : Option Nat) (hid : ∀ k, k ≠ id → (db.changes.get k).isSome → some k ≠ changeId)
    (hapart : change.columns.kind ≠ .note → ∀ other ∈ others db change.termCode change.courseNo
      change.columns.kind changeId, Apart change.columns other.columns) :
    Exclusive { db with changes := db.changes.set id change } := by
  intro k k' a b ha hb hne hterm hcourse hkind hnote
  have hget : ∀ k, ({ db with changes := db.changes.set id change } : Db).changes.get k =
      if k = id then some change else db.changes.get k := fun k => Table.get_set _ _ _ _
  rw [hget] at ha hb
  split at ha
  next hk =>
    obtain rfl := Option.some.inj ha
    have hk' : k' ≠ id := fun h => hne (hk.trans h.symm)
    rw [if_neg hk'] at hb
    exact hapart hnote b (mem_others.mpr
      ⟨k', hb, hterm.symm, hcourse.symm, hkind.symm, hid k' hk' (by simp [hb])⟩)
  next hk =>
    split at hb
    next =>
      obtain rfl := Option.some.inj hb
      exact (hapart (hkind ▸ hnote) a (mem_others.mpr
        ⟨k, ha, hterm, hcourse, hkind, hid k hk (by simp [ha])⟩)).symm
    next => exact h k k' a b ha hb hne hterm hcourse hkind hnote

theorem Exclusive.createChange {db db' : Db} (h : Exclusive db) {id : Nat} {term : String}
    {body : Body} (hok : NonePassedOver db (.create id term body))
    (hcreate : createChange db id term body = .ok db') : Exclusive db' := by
  unfold AcademicCalendar.createChange at hcreate
  split at hcreate
  next => cases hcreate
  next courseNo hcourse =>
    cases hcheck : check db term courseNo body none with
    | error e => simp [hcheck, bind, Except.bind] at hcreate
    | ok columns =>
      simp only [hcheck, bind, Except.bind, pure, Except.pure, Except.ok.injEq] at hcreate
      obtain rfl := hcreate
      obtain ⟨row, hrow, hparse, _⟩ := check_spec hcheck
      have hfits := hok row courseNo columns hrow hcourse hparse
      exact h.set none (fun _ _ _ => Option.some_ne_none _) fun hnote other hother =>
        check_apart hcheck hfits hnote hother

theorem Exclusive.updateChange {db db' : Db} (h : Exclusive db) {id : Nat} {body : Body}
    (hok : NonePassedOver db (.update id body)) (hupdate : updateChange db id body = .ok db') :
    Exclusive db' := by
  unfold AcademicCalendar.updateChange at hupdate
  split at hupdate
  next => cases hupdate
  next current hcurrent =>
    split at hupdate
    · cases hupdate
    cases hcheck : check db current.termCode current.courseNo body (some id) with
    | error e => simp [hcheck, bind, Except.bind] at hupdate
    | ok columns =>
      simp only [hcheck, bind, Except.bind, pure, Except.pure, Except.ok.injEq] at hupdate
      obtain rfl := hupdate
      obtain ⟨row, hrow, hparse, _⟩ := check_spec hcheck
      have hfits := hok current row columns hcurrent hrow hparse
      refine h.set (some id) (fun k hk _ heq => hk (Option.some.inj heq)) ?_
      exact fun hnote other hother => check_apart hcheck hfits hnote hother

theorem Exclusive.deleteChange {db db' : Db} (h : Exclusive db) {id : Nat}
    (hdelete : deleteChange db id = .ok db') : Exclusive db' := by
  unfold AcademicCalendar.deleteChange at hdelete
  split at hdelete
  next => cases hdelete
  next =>
    obtain rfl := Except.ok.inj hdelete
    intro k k' a b ha hb
    rw [Table.get_deleteWhere, Option.filter_eq_some_iff] at ha hb
    exact h k k' a b ha.1 hb.1

/-- A request that is refused changes nothing. -/
theorem Exclusive.after {db : Db} (h : Exclusive db) {result : Except HttpError Db}
    (hresult : ∀ db', result = .ok db' → Exclusive db') : Exclusive (db.after result) := by
  cases result with
  | error e => exact h
  | ok db' => exact hresult db' rfl

theorem Exclusive.after_step {db db' : Db} {l : Label} (h : Exclusive db)
    (hok : NonePassedOver db l) (hstep : step db l = some db') : Exclusive db' := by
  cases l with
  | create id term body =>
    simp only [step] at hstep
    split at hstep
    next => cases hstep
    next =>
      obtain rfl := Option.some.inj hstep
      exact h.after fun _ hcreate => h.createChange hok hcreate
  | update id body =>
    obtain rfl := Option.some.inj hstep
    exact h.after fun _ hupdate => h.updateChange hok hupdate
  | delete id =>
    obtain rfl := Option.some.inj hstep
    exact h.after fun _ hdelete => h.deleteChange hdelete
  | editSchedule term courseNo schedule =>
    obtain rfl := Option.some.inj hstep
    exact h

/-! ### The feed -/

theorem mem_loadCourseChanges {db : Db} {terms : List String} {courseNo : Option String}
    {row : Row} (h : row ∈ loadCourseChanges db terms courseNo) :
    db.changes.get row.id = some row.change ∧ row.meetingWeekdays = meetingWeekdays db row.change := by
  rw [loadCourseChanges, (List.perm_insertionSort _ _).mem_iff] at h
  obtain ⟨⟨id, change⟩, hmem, rfl⟩ := List.mem_map.mp h
  exact ⟨((Table.mem_select_iff _ _ _ _).mp hmem).1, rfl⟩

/-- The feed loads a change once. -/
theorem loadCourseChanges_nodup (db : Db) (terms : List String) (courseNo : Option String) :
    (loadCourseChanges db terms courseNo).Nodup := by
  rw [loadCourseChanges, (List.perm_insertionSort _ _).nodup_iff]
  refine List.Nodup.of_map Row.id ?_
  rw [List.map_map]
  exact db.changes.keys_nodup.sublist (List.filter_sublist.map Prod.fst)

theorem changesMeeting_iff {term courseNo : String} {day : Day} {period : String} {row : Row} :
    changesMeeting term courseNo day period row = true ↔
      row.change.columns.kind ≠ .note ∧ row.change.termCode = term ∧
        row.change.courseNo = courseNo ∧ row.change.columns.Covers day ∧
          isoweekday day ∈ row.meetingWeekdays ∧
            ∀ periods, row.change.columns.periods = some periods → period ∈ periods := by
  simp only [changesMeeting, Columns.Covers, Bool.and_eq_true, decide_eq_true_eq, beq_iff_eq,
    Bool.not_eq_true', List.contains_eq_mem, decide_eq_false_iff_not,
    Option.all_eq_true]
  tauto

/-- Where the changes of a kind are apart, a meeting has at most one. -/
theorem Exclusive.kinds_nodup {db : Db} (h : Exclusive db) (terms : List String)
    (filter : Option String) (term courseNo : String) (day : Day) (period : String) :
    (((loadCourseChanges db terms filter).filter (changesMeeting term courseNo day period)).map
      (·.change.columns.kind)).Nodup := by
  refine ((loadCourseChanges_nodup db terms filter).filter _).map_on ?_
  intro a ha b hb hkind
  obtain ⟨hmem, hchanges⟩ := List.mem_filter.mp ha
  obtain ⟨hmem', hchanges'⟩ := List.mem_filter.mp hb
  obtain ⟨hget, hweekdays⟩ := mem_loadCourseChanges hmem
  obtain ⟨hget', hweekdays'⟩ := mem_loadCourseChanges hmem'
  obtain ⟨hnote, hterm, hcourse, hcovers, _, hperiod⟩ := changesMeeting_iff.mp hchanges
  obtain ⟨_, hterm', hcourse', hcovers', _, hperiod'⟩ := changesMeeting_iff.mp hchanges'
  by_cases hid : a.id = b.id
  · have hchange : a.change = b.change := Option.some.inj (hget.symm.trans (hid ▸ hget'))
    obtain ⟨ida, ca, wa⟩ := a
    obtain ⟨idb, cb, wb⟩ := b
    dsimp only at hid hchange hweekdays hweekdays'
    rw [hid, hchange, hweekdays, hweekdays', hchange]
  · have hapart := h a.id b.id a.change b.change hget hget' hid (hterm.trans hterm'.symm)
      (hcourse.trans hcourse'.symm) hkind hnote day hcovers hcovers'
    -- Both name the period of the meeting, or one names none.
    cases hp : a.change.columns.periods with
    | none => simp [disjointPeriods, hp] at hapart
    | some p =>
      cases hq : b.change.columns.periods with
      | none => simp [disjointPeriods, hp, hq] at hapart
      | some q =>
        simp only [disjointPeriods, hp, hq, Bool.and_eq_true, List.all_eq_true] at hapart
        have hnot := hapart.2 period (hperiod p hp)
        simp [hperiod' q hq] at hnot

/-- A table filled from rows of different keys has each of them. -/
theorem get_foldl_set {κ α : Type} [DecidableEq κ] (key : α → κ) (rows : List α) :
    ∀ found : Table κ α, (rows.map key).Nodup → ∀ k,
      (rows.foldl (fun found row => found.set (key row) row) found).get k =
        (rows.find? fun row => key row = k).or (found.get k) := by
  induction rows with
  | nil => intro found _ k; rfl
  | cons row rows ih =>
    intro found hnodup k
    obtain ⟨hfresh, hrest⟩ := List.nodup_cons.mp hnodup
    rw [List.foldl_cons, ih _ hrest, Table.get_set, List.find?_cons]
    by_cases hk : key row = k
    · have hnone : rows.find? (fun row => decide (key row = k)) = none := by
        refine List.find?_eq_none.mpr fun row' hmem hsame => hfresh ?_
        rw [hk, ← of_decide_eq_true hsame]
        exact List.mem_map_of_mem hmem
      simp [hk, hnone]
    · have hk' : ¬ k = key row := fun h => hk h.symm
      simp [hk, hk']

/-- `meeting_changes` leaves out no change to a meeting that has one of each kind. -/
theorem get_meetingChanges {rows : List Row} {term courseNo : String} {day : Day}
    {period : String} {row : Row}
    (h : ((rows.filter (changesMeeting term courseNo day period)).map
      (·.change.columns.kind)).Nodup) (hrow : row ∈ rows)
    (hchanges : changesMeeting term courseNo day period row = true) :
    (meetingChanges rows term courseNo day period).get row.change.columns.kind = some row := by
  refine (get_foldl_set (fun r : Row => r.change.columns.kind) _ Table.empty h _).trans ?_
  rw [Table.get_empty, Option.or_none]
  have hmem := List.mem_filter.mpr ⟨hrow, hchanges⟩
  cases hfind : (rows.filter (changesMeeting term courseNo day period)).find? fun r =>
      decide (r.change.columns.kind = row.change.columns.kind) with
  | none => simpa using List.find?_eq_none.mp hfind row hmem
  | some found =>
    have hkind : found.change.columns.kind = row.change.columns.kind := by
      simpa using List.find?_some hfind
    rw [List.inj_on_of_nodup_map h (List.mem_of_find?_eq_some hfind) hmem hkind]

/-- Where no write passes over a change that does not fit the schedule of the time, a meeting has
at most one change of each kind, and `meeting_changes` finds it. -/
theorem one_change_of_a_kind {terms : Table String SemesterTerm} {holidays : List (Day × Day)}
    {schedules : Table (String × String) Schedule} {ls : List Label} {db : Db}
    (hrun : Run step NonePassedOver ⟨terms, holidays, schedules, Table.empty⟩ ls db)
    (loaded : List String) (filter : Option String) (term courseNo : String) (day : Day)
    (period : String) :
    (((loadCourseChanges db loaded filter).filter (changesMeeting term courseNo day period)).map
      (·.change.columns.kind)).Nodup ∧
    ∀ row ∈ loadCourseChanges db loaded filter,
      changesMeeting term courseNo day period row = true →
        (meetingChanges (loadCourseChanges db loaded filter) term courseNo day period).get
          row.change.columns.kind = some row := by
  have hexclusive : Exclusive db :=
    hrun.invariant Exclusive (fun _ _ _ _ hnone => nomatch hnone)
      fun _ _ _ h hok hstep => h.after_step hok hstep
  have hnodup := hexclusive.kinds_nodup loaded filter term courseNo day period
  exact ⟨hnodup, fun row hrow hchanges => get_meetingChanges hnodup hrow hchanges⟩

/-! ### Runs -/

/-- A room change of one day, from the whole day or some periods of it. -/
def roomOn (day : Day) (periods : Option (List String)) (room : String) : Body :=
  { courseNo := some (some "CS1001"), kind := some "room", mode := some "day", day := some day
    first := none, last := none, excludedWeekdays := none, periods := periods.map some
    room := some room, startTime := none, endTime := none, noteZh := none, noteEn := none }

/-- A term, and a course that meets twice on its Mondays. -/
def autumn : Db :=
  { terms := Table.empty.set "1151" ⟨739860, 740001⟩
    holidays := []
    schedules := Table.empty.set ("1151", "CS1001") [("1", ["3", "4", "6"])]
    changes := Table.empty }

/-- The change that such a request stores. -/
def roomChange (day : Day) (periods : Option (List String)) (room : String) : CourseChange :=
  ⟨"1151", "CS1001", ⟨.room, .day, day, day, [], periods, some room, none, none, none, none⟩⟩

/-- A course with one other change of the kind, which names other periods. -/
theorem everyOtherFits_of_disjoint {db : Db} {term courseNo : String} {changeId : Option Nat}
    {columns : Columns} (h : ∀ other ∈ others db term courseNo columns.kind changeId,
      disjointPeriods columns.periods other.columns.periods = true) :
    EveryOtherFits db term courseNo changeId columns := by
  intro _ other hother d _ _ hshare
  rw [h other hother] at hshare
  cases hshare

/-- The course with a room for the first of its Monday's meetings. -/
def oneRoom : Db :=
  { autumn with
    changes := Table.empty.set 1 (roomChange 739922 (some ["3", "4"]) "IB-101") }

/-- Two rooms for the two meetings of a Monday. -/
theorem one_change_of_a_kind_of_two_rooms :
    ∃ db, exec step autumn [.create 1 "1151" (roomOn 739922 (some ["3", "4"]) "IB-101"),
        .create 2 "1151" (roomOn 739922 (some ["6"]) "IB-202")] = some db ∧
      db.changes.keys = [1, 2] ∧
      (((loadCourseChanges db ["1151"] none).filter
        (changesMeeting "1151" "CS1001" 739922 "3")).map (·.change.columns.kind)).Nodup := by
  have hfirst : step autumn (.create 1 "1151" (roomOn 739922 (some ["3", "4"]) "IB-101")) =
      some oneRoom := rfl
  obtain ⟨db, hsecond, hkeys⟩ : ∃ db,
      step oneRoom (.create 2 "1151" (roomOn 739922 (some ["6"]) "IB-202")) = some db ∧
        db.changes.keys = [1, 2] := ⟨_, rfl, rfl⟩
  have hok₁ : NonePassedOver autumn
      (.create 1 "1151" (roomOn 739922 (some ["3", "4"]) "IB-101")) :=
    fun row courseNo columns _ _ _ => everyOtherFits_of_disjoint fun other hother => by
      obtain ⟨id, hget, _⟩ := mem_others.mp hother
      cases hget
  have hok₂ : NonePassedOver oneRoom (.create 2 "1151" (roomOn 739922 (some ["6"]) "IB-202")) := by
    intro row courseNo columns hrow _ hparse
    obtain rfl : (⟨739860, 740001⟩ : SemesterTerm) = row := Option.some.inj hrow
    obtain rfl : (roomChange 739922 (some ["6"]) "IB-202").columns = columns :=
      Except.ok.inj hparse
    refine everyOtherFits_of_disjoint fun other hother => ?_
    obtain ⟨id, hget, _⟩ := mem_others.mp hother
    change (Table.empty.set 1 (roomChange 739922 (some ["3", "4"]) "IB-101")).get id = _ at hget
    rw [Table.get_set] at hget
    split at hget
    · obtain rfl := Option.some.inj hget
      rfl
    · cases hget
  have hrun := (Run.single hok₁ hfirst).snoc hok₂ hsecond
  refine ⟨db, hrun.exec_eq, hkeys, ?_⟩
  exact (one_change_of_a_kind hrun ["1151"] none "1151" "CS1001" 739922 "3").1

/-- A change passed over: the second room is for the whole day, which the schedule of the time
does not give the first one's period. -/
theorem second_room_of_a_meeting :
    ∃ db, exec step autumn [.create 1 "1151" (roomOn 739922 (some ["3", "4"]) "IB-101"),
        .editSchedule "1151" "CS1001" [("1", ["6", "7"])],
        .create 2 "1151" (roomOn 739922 none "IB-202"),
        .editSchedule "1151" "CS1001" [("1", ["3", "4", "6"])]] = some db ∧
      ["3", "4"] ∈ meetings (((meetsOn (db.meets "1151" "CS1001") 739922)).getD []) ∧
      ((loadCourseChanges db ["1151"] none).filter
        (changesMeeting "1151" "CS1001" 739922 "3")).map (fun row =>
          (row.change.columns.kind, row.change.columns.room)) =
        [(.room, some "IB-101"), (.room, some "IB-202")] := by
  refine ⟨_, rfl, ?_, ?_⟩
  · decide
  · rfl

end TigerDuck.AcademicCalendar
