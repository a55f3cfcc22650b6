import Mathlib.Logic.Function.Basic
import TigerDuck.SyncJobs.AssignmentMirror
import TigerDuck.Transition.Run

/-!
# Extensions and dates

Two transactions date a user's rows: the list sync, with the extension the row has stored, and
the probe after it, with the one its answer gives (`apply_extensions`,
`server/syncjobs/submissions.py`). Each takes a listed item and an extension to the same three
columns, `datesFor`, and what either wrote earlier does not enter.

A probe brings the list of its own run, so a probe that is late may bring an older list than the
last list sync. `DatedRows.listed` is the item of the list a row was last dated by.

## Main results

- `extension_dates_follow`: what the three columns are after an answer, and that a stored extension
  is the due date, past the listed one.
-/

namespace TigerDuck.SyncJobs

open Relational Transition

/-- The columns `due_at`, `cutoff_at` and `extension_due_at`. -/
structure Dates where
  dueAt : Option Time
  cutoffAt : Option Time
  extensionDueAt : Option Time
  deriving DecidableEq, Repr

def UserAssignment.dates (row : UserAssignment) : Dates :=
  ⟨row.dueAt, row.cutoffAt, row.extensionDueAt⟩

/-- The dates a listed item and an extension give. -/
def datesFor (item : ProviderFields) (extension : Option Time) : Dates :=
  let kept := keptExtension item extension
  let dated := withExtension item kept
  ⟨dated.dueAt, dated.cutoffAt, kept⟩

/-- `date` is not missing or earlier where there is a bound. -/
def NotBefore (date bound : Option Time) : Prop := ∀ b ∈ bound, ∃ d ∈ date, b ≤ d

/-! ### The dates of an item -/

section Dates

variable {item : ProviderFields} {extension : Option Time}

/-- An extension is kept while it is later than the listed due date. -/
theorem keptExtension_eq_some_iff {e : Time} :
    keptExtension item extension = some e ↔ extension = some e ∧ ∀ due ∈ item.dueAt, due < e := by
  unfold keptExtension
  rw [Option.filter_eq_some_iff]
  refine and_congr_right fun _ => ?_
  cases item.dueAt <;> simp

/-- A kept extension is the due date. -/
theorem datesFor_extension {e : Time} (h : e ∈ (datesFor item extension).extensionDueAt) :
    (datesFor item extension).dueAt = some e ∧ ∀ due ∈ item.dueAt, due < e := by
  have hkept : keptExtension item extension = some e := h
  obtain ⟨_, hlate⟩ := keptExtension_eq_some_iff.mp hkept
  refine ⟨?_, hlate⟩
  show (withExtension item (keptExtension item extension)).dueAt = some e
  rw [hkept]
  show some ((laterOf item.dueAt e).getD e) = some e
  cases hdue : item.dueAt with
  | none => rfl
  | some due => exact congrArg some (max_eq_right (hlate due hdue).le)

/-- The later of a date and an extension is not before the date. -/
theorem notBefore_laterOf (date : Option Time) (e : Time) : NotBefore (laterOf date e) date := by
  intro b hb
  exact ⟨max b e, Option.mem_map_of_mem (max · e) hb, le_max_left b e⟩

theorem NotBefore.refl (date : Option Time) : NotBefore date date := fun b hb => ⟨b, hb, le_rfl⟩

/-- The due date is not before the listed one. -/
theorem datesFor_due_listed : NotBefore (datesFor item extension).dueAt item.dueAt := by
  show NotBefore (withExtension item (keptExtension item extension)).dueAt item.dueAt
  cases keptExtension item extension with
  | none => exact .refl item.dueAt
  | some e =>
    intro b hb
    obtain ⟨d, hd, hle⟩ := notBefore_laterOf item.dueAt e b hb
    refine ⟨d, ?_, hle⟩
    show some ((laterOf item.dueAt e).getD e) = some d
    rw [Option.mem_def.mp hd, Option.getD_some]

/-- Nor before the extension, whether it is kept or not. -/
theorem datesFor_due_extension : NotBefore (datesFor item extension).dueAt extension := by
  intro e he
  by_cases hlate : ∀ due ∈ item.dueAt, due < e
  · have hkept : e ∈ (datesFor item extension).extensionDueAt :=
      keptExtension_eq_some_iff.mpr ⟨he, hlate⟩
    exact ⟨e, (datesFor_extension hkept).1, le_rfl⟩
  · push Not at hlate
    obtain ⟨due, hdue, hle⟩ := hlate
    have hlisted : NotBefore (datesFor item extension).dueAt item.dueAt := datesFor_due_listed
    obtain ⟨d, hd, hdueLe⟩ := hlisted due hdue
    exact ⟨d, hd, hle.trans hdueLe⟩

/-- The cutoff is not before the listed one. -/
theorem datesFor_cutoff_listed : NotBefore (datesFor item extension).cutoffAt item.cutoffAt := by
  show NotBefore (withExtension item (keptExtension item extension)).cutoffAt item.cutoffAt
  cases keptExtension item extension with
  | none => exact .refl item.cutoffAt
  | some e => exact notBefore_laterOf item.cutoffAt e

end Dates

/-! ### The two writers -/

/-- A list sync dates a row with the extension it has stored, a new one with none. -/
theorem writtenRow_dates (now : Time) (enrolled : Option Classification) (nextId : Nat)
    (item : FetchedAssignment) (taken : Option UserAssignment) :
    (writtenRow now enrolled nextId item taken).dates =
      datesFor item.toProviderFields (taken.bind (·.extensionDueAt)) := by
  cases taken with
  | none => rfl
  | some row => cases enrolled <;> rfl

/-- A probe dates the live rows it answers with the extension of the answer. -/
theorem extendedRow_dates {answers : Submissions} {listed : Table MoodleId FetchedAssignment}
    {key : AssignmentKey} {row : UserAssignment} {answer : FetchedSubmission}
    {item : FetchedAssignment} (hanswer : answers.get key.moodleAssignmentId = some answer)
    (hitem : listed.get key.moodleAssignmentId = some item) (hlive : row.deletedAt = none) :
    (extendedRow answers listed key row).dates =
      datesFor item.toProviderFields answer.extensionDueAt := by
  unfold extendedRow
  rw [hanswer, hitem]
  dsimp only
  rw [if_pos hlive]
  rfl

/-- And leaves the other rows' dates. -/
theorem extendedRow_of_unanswered {answers : Submissions}
    {listed : Table MoodleId FetchedAssignment} {key : AssignmentKey} {row : UserAssignment}
    (h : answers.get key.moodleAssignmentId = none ∨ listed.get key.moodleAssignmentId = none ∨
      row.deletedAt ≠ none) : extendedRow answers listed key row = row := by
  unfold extendedRow
  split
  next answer item hanswer hitem =>
    rcases h with h | h | h
    · cases hanswer.symm.trans h
    · cases hitem.symm.trans h
    · rw [if_neg h]
  next => rfl

@[simp]
theorem submittedRow_dates (now : Time) (answers : Submissions) (key : AssignmentKey)
    (row : UserAssignment) : (submittedRow now answers key row).dates = row.dates := by
  unfold submittedRow
  split
  · split <;> rfl
  · rfl

/-! ### Sequences of list syncs and probes -/

/-- A round of a list sync dates the row of its key. -/
def recordListed (listed : AssignmentKey → Option ProviderFields) (item : FetchedAssignment) :
    AssignmentKey → Option ProviderFields :=
  Function.update listed item.key (some item.toProviderFields)

/-- A user's rows, for each the item it was last dated by, and the list of the last list sync. -/
structure DatedRows where
  rows : Assignments
  nextId : Nat
  listed : AssignmentKey → Option ProviderFields
  current : Table MoodleId FetchedAssignment

/-- A list sync, of an answer with courses or without, or the probe that follows one. -/
inductive DateWrite
  | list (fetched : List FetchedAssignment) (enrolled : Option Classification)
  | noCourseAccess (refusedCourseIds : List MoodleId)
  | probe (answers : Submissions) (listed : Table MoodleId FetchedAssignment)

namespace DatedRows

/-- Rows no list sync has dated. -/
def start (rows : Assignments) (nextId : Nat) : DatedRows :=
  ⟨rows, nextId, fun _ => none, Table.empty⟩

/-- The list sync of an answer. -/
def sync (s : DatedRows) (now : Time) (fetched : List FetchedAssignment)
    (enrolled : Option Classification) (refusedCourseIds : List MoodleId) : DatedRows :=
  let stats := applyFetchedAssignments now fetched enrolled refusedCourseIds s.rows s.nextId
  { rows := stats.rows
    nextId := stats.nextId
    listed := fetched.foldl recordListed s.listed
    current := listedById fetched }

/-- The item a probe dates the row of a key by. -/
def probed (s : DatedRows) (answers : Submissions) (listed : Table MoodleId FetchedAssignment)
    (key : AssignmentKey) : Option ProviderFields :=
  match s.rows.get key, answers.get key.moodleAssignmentId, listed.get key.moodleAssignmentId with
  | some row, some _, some item =>
    if row.deletedAt = none then some item.toProviderFields else none
  | _, _, _ => none

/-- `apply_submission_status` and `apply_extensions`, in one transaction. -/
def probe (s : DatedRows) (now : Time) (answers : Submissions)
    (listed : Table MoodleId FetchedAssignment) : DatedRows :=
  { s with
    rows := applyExtensions answers listed (applySubmissionStatus now answers s.rows)
    listed := fun key => (s.probed answers listed key).or (s.listed key) }

def step (s : DatedRows) (l : Time × DateWrite) : Option DatedRows :=
  match l.2 with
  | .list fetched enrolled => some (s.sync l.1 fetched enrolled [])
  | .noCourseAccess refusedCourseIds => some (s.sync l.1 [] none refusedCourseIds)
  | .probe answers listed => some (s.probe l.1 answers listed)

/-- A probe brings the list of the last list sync. -/
def InOrder (s : DatedRows) (l : Time × DateWrite) : Prop :=
  match l.2 with
  | .probe _ listed => listed = s.current
  | _ => True

end DatedRows

/-- A probe dates a row it answers by the item of its list, and no other. -/
theorem DatedRows.probe_row (s : DatedRows) (now : Time) (answers : Submissions)
    (listed : Table MoodleId FetchedAssignment) {key : AssignmentKey} {row : UserAssignment}
    (hrow : s.rows.get key = some row) :
    (∃ answer item, answers.get key.moodleAssignmentId = some answer ∧
      s.probed answers listed key = some item ∧
        (extendedRow answers listed key (submittedRow now answers key row)).dates =
          datesFor item answer.extensionDueAt) ∨
    s.probed answers listed key = none ∧
      (extendedRow answers listed key (submittedRow now answers key row)).dates = row.dates := by
  have hdeleted : (submittedRow now answers key row).deletedAt = row.deletedAt :=
    submittedRow_deletedAt ..
  unfold DatedRows.probed
  rw [hrow]
  obtain hanswer | ⟨answer, hanswer⟩ := (answers.get key.moodleAssignmentId).eq_none_or_eq_some
  · refine .inr ⟨by rw [hanswer], ?_⟩
    rw [extendedRow_of_unanswered (.inl hanswer), submittedRow_dates]
  · obtain hitem | ⟨item, hitem⟩ := (listed.get key.moodleAssignmentId).eq_none_or_eq_some
    · refine .inr ⟨by rw [hanswer, hitem], ?_⟩
      rw [extendedRow_of_unanswered (.inr (.inl hitem)), submittedRow_dates]
    · rw [hanswer, hitem]
      dsimp only
      by_cases hlive : row.deletedAt = none
      · refine .inl ⟨answer, item.toProviderFields, rfl, if_pos hlive, ?_⟩
        exact extendedRow_dates hanswer hitem (hdeleted.trans hlive)
      · refine .inr ⟨if_neg hlive, ?_⟩
        rw [extendedRow_of_unanswered (.inr (.inr (hdeleted ▸ hlive))), submittedRow_dates]

/-- The rows after a probe. -/
theorem DatedRows.probe_get (s : DatedRows) (now : Time) (answers : Submissions)
    (listed : Table MoodleId FetchedAssignment) (key : AssignmentKey) :
    (s.probe now answers listed).rows.get key =
      (s.rows.get key).map fun row =>
        extendedRow answers listed key (submittedRow now answers key row) := by
  show Table.get (applyExtensions _ _ (applySubmissionStatus _ _ _)) key = _
  rw [applyExtensions, applySubmissionStatus, Table.get_modify, Table.get_modify, Option.map_map]
  rfl

/-- Rows whose extensions come from the items they were last dated by. -/
def ExtensionsFollow (rows : Assignments) (listed : AssignmentKey → Option ProviderFields) : Prop :=
  ∀ key row, rows.get key = some row → ∀ e ∈ row.extensionDueAt,
    ∃ item ∈ listed key, row.dueAt = some e ∧ ∀ due ∈ item.dueAt, due < e

/-- A row with the dates of an item follows it. -/
theorem follows_of_dates {row : UserAssignment} {item : ProviderFields} {extension : Option Time}
    (hdates : row.dates = datesFor item extension) {e : Time} (he : e ∈ row.extensionDueAt) :
    row.dueAt = some e ∧ ∀ due ∈ item.dueAt, due < e := by
  have hext : row.extensionDueAt = (datesFor item extension).extensionDueAt :=
    congrArg Dates.extensionDueAt hdates
  have hdue : row.dueAt = (datesFor item extension).dueAt := congrArg Dates.dueAt hdates
  rw [hext] at he
  rw [hdue]
  exact datesFor_extension he

namespace ExtensionsFollow

variable {rows : Assignments} {listed : AssignmentKey → Option ProviderFields} {now : Time}
  {enrolled : Option Classification}

/-- A round of the list sync dates the row of its key, and carries the others. -/
theorem applyItem {s : ListSync} (h : ExtensionsFollow s.rows listed) (item : FetchedAssignment) :
    ExtensionsFollow (s.applyItem now enrolled item).rows
      (Function.update listed item.key (some item.toProviderFields)) := by
  intro key row hrow e he
  rw [applyItem_get] at hrow
  by_cases hkey : key = item.key
  · rw [if_pos hkey] at hrow
    obtain rfl := Option.some.inj hrow
    subst hkey
    rw [Function.update_self]
    exact ⟨_, rfl, follows_of_dates (writtenRow_dates ..) he⟩
  · rw [if_neg hkey] at hrow
    rw [Function.update_of_ne hkey]
    split at hrow
    · cases hrow
    · exact h key row hrow e he

theorem fetchLoop (fetched : List FetchedAssignment) {s : ListSync}
    (h : ExtensionsFollow s.rows listed) :
    ExtensionsFollow (fetched.foldl (ListSync.applyItem now enrolled) s).rows
      (fetched.foldl recordListed listed) := by
  induction fetched generalizing s listed with
  | nil => exact h
  | cons item rest ih => exact ih (h.applyItem item)

/-- A deletion leaves the dates. -/
theorem applied {fetched : List FetchedAssignment} {refusedCourseIds : List MoodleId}
    {nextId : Nat} (h : ExtensionsFollow rows listed) :
    ExtensionsFollow
      (applyFetchedAssignments now fetched enrolled refusedCourseIds rows nextId).rows
      (fetched.foldl recordListed listed) := by
  have hloop : ExtensionsFollow
      (fetched.foldl (ListSync.applyItem now enrolled) ⟨rows, nextId, [], []⟩).rows _ :=
    fetchLoop fetched h
  intro key row hrow e he
  rw [applied_get] at hrow
  obtain ⟨old, hold, rfl⟩ := Option.map_eq_some_iff.mp hrow
  split at he
  next hout =>
    obtain ⟨item, hitem, hfollows⟩ := hloop key old hold e he
    rw [if_pos hout]
    exact ⟨item, hitem, hfollows⟩
  next hkept =>
    rw [if_neg hkept]
    exact hloop key old hold e he

/-- A probe dates the rows it answers by the items of its list. -/
theorem probe {s : DatedRows} (h : ExtensionsFollow s.rows s.listed) (now : Time)
    (answers : Submissions) (listed : Table MoodleId FetchedAssignment) :
    ExtensionsFollow (s.probe now answers listed).rows (s.probe now answers listed).listed := by
  intro key row hrow e he
  rw [DatedRows.probe_get] at hrow
  obtain ⟨old, hold, rfl⟩ := Option.map_eq_some_iff.mp hrow
  show ∃ item ∈ (s.probed answers listed key).or (s.listed key), _
  rcases s.probe_row now answers listed hold with ⟨answer, item, _, hitem, hdates⟩ | ⟨hnone, hdates⟩
  · rw [hitem, Option.some_or]
    exact ⟨item, rfl, follows_of_dates hdates he⟩
  · rw [hnone, Option.none_or]
    have hext : _ = old.extensionDueAt := congrArg Dates.extensionDueAt hdates
    have hdue : _ = old.dueAt := congrArg Dates.dueAt hdates
    rw [show (extendedRow answers listed key _).dueAt = old.dueAt from hdue]
    exact h key old hold e (hext ▸ he)

end ExtensionsFollow

/-! ### A list sync and its probe -/

/-- The item a run's probe has of an assignment is the last its list names. -/
theorem listedById_get {fetched : List FetchedAssignment} {id : MoodleId} {item : FetchedAssignment}
    (h : (listedById fetched).get id = some item) :
    item.moodleAssignmentId = id ∧ ∃ earlier later, fetched = earlier ++ item :: later ∧
      ∀ other ∈ later, other.moodleAssignmentId ≠ item.moodleAssignmentId := by
  induction fetched using List.reverseRecOn with
  | nil => cases h
  | append_singleton init last ih =>
    rw [listedById, List.foldl_append, List.foldl_cons, List.foldl_nil, Table.get_set] at h
    split at h
    next hid =>
      obtain rfl := Option.some.inj h
      exact ⟨hid.symm, init, [], rfl, nofun⟩
    next hid =>
      obtain ⟨hitem, earlier, later, rfl, hlater⟩ := ih h
      refine ⟨hitem, earlier, later ++ [last], by simp, fun other hmem => ?_⟩
      rcases List.mem_append.mp hmem with hmem | hmem
      · exact hlater other hmem
      · rw [List.mem_singleton.mp hmem, hitem]
        exact Ne.symm hid

/-- A row as an answer to the probe leaves it. -/
structure AnsweredBy (item : FetchedAssignment) (answer : FetchedSubmission)
    (row : UserAssignment) : Prop where
  dates : row.dates = datesFor item.toProviderFields answer.extensionDueAt
  dueListed : NotBefore row.dueAt item.dueAt
  dueExtension : NotBefore row.dueAt answer.extensionDueAt
  cutoffListed : NotBefore row.cutoffAt item.cutoffAt

theorem AnsweredBy.of_dates {item : FetchedAssignment} {answer : FetchedSubmission}
    {row : UserAssignment}
    (hdates : row.dates = datesFor item.toProviderFields answer.extensionDueAt) :
    AnsweredBy item answer row := by
  have hdue : row.dueAt = _ := congrArg Dates.dueAt hdates
  have hcutoff : row.cutoffAt = _ := congrArg Dates.cutoffAt hdates
  refine ⟨hdates, ?_, ?_, ?_⟩
  · rw [hdue]
    exact datesFor_due_listed
  · rw [hdue]
    exact datesFor_due_extension
  · rw [hcutoff]
    exact datesFor_cutoff_listed

namespace DatedRows

/-- A probe that answers a live row dates it by its item and the answer. -/
theorem probe_answered (s : DatedRows) (now : Time) {answers : Submissions}
    {listed : Table MoodleId FetchedAssignment} {key : AssignmentKey} {row : UserAssignment}
    {answer : FetchedSubmission} {item : FetchedAssignment} (hrow : s.rows.get key = some row)
    (hlive : row.deletedAt = none) (hanswer : answers.get key.moodleAssignmentId = some answer)
    (hitem : listed.get key.moodleAssignmentId = some item) :
    (∃ row', (s.probe now answers listed).rows.get key = some row' ∧ AnsweredBy item answer row') ∧
      (s.probe now answers listed).listed key = some item.toProviderFields := by
  refine ⟨⟨_, by rw [probe_get, hrow, Option.map_some], .of_dates ?_⟩, ?_⟩
  · have hdeleted : (submittedRow now answers key row).deletedAt = none := by
      rw [submittedRow_deletedAt]
      exact hlive
    exact extendedRow_dates hanswer hitem hdeleted
  · show (s.probed answers listed key).or (s.listed key) = _
    have hprobed : s.probed answers listed key = some item.toProviderFields := by
      unfold probed
      rw [hrow, hanswer, hitem]
      exact if_pos hlive
    rw [hprobed, Option.some_or]

/-- A list sync leaves the row of an assignment's last item live. -/
theorem sync_live (s : DatedRows) (now : Time) {fetched : List FetchedAssignment}
    (enrolled : Option Classification) {item : FetchedAssignment}
    (hitem : (listedById fetched).get item.moodleAssignmentId = some item) :
    ∃ row, (s.sync now fetched enrolled []).rows.get item.key = some row ∧
      row.deletedAt = none := by
  obtain ⟨_, earlier, later, rfl, hlast⟩ := listedById_get hitem
  have hmem : item ∈ earlier ++ item :: later :=
    List.mem_append_right earlier List.mem_cons_self
  have hloop : ((item :: later).foldl (ListSync.applyItem now enrolled)
      (earlier.foldl (ListSync.applyItem now enrolled) ⟨s.rows, s.nextId, [], []⟩)).rows.get
        item.key = _ := fetchLoop_get_of_last hlast _
  rw [← List.foldl_append] at hloop
  exact ⟨_, (applied_get_of_mem hmem).trans hloop, writtenRow_deletedAt ..⟩

/-- A list sync dates each row by the last item its list has of it. -/
theorem foldl_listed_of_last {item : FetchedAssignment} {earlier later : List FetchedAssignment}
    (hlast : ∀ other ∈ later, other.moodleAssignmentId ≠ item.moodleAssignmentId)
    (listed : AssignmentKey → Option ProviderFields) :
    (earlier ++ item :: later).foldl recordListed listed item.key =
        some item.toProviderFields := by
  rw [List.foldl_append, List.foldl_cons]
  have hkept : ∀ now : AssignmentKey → Option ProviderFields,
      now item.key = some item.toProviderFields →
        later.foldl recordListed now item.key =
            some item.toProviderFields := by
    induction later with
    | nil => exact fun _ hnow => hnow
    | cons other rest ih =>
      obtain ⟨hother, hrest⟩ := List.forall_mem_cons.mp hlast
      intro now hnow
      refine ih hrest _ ?_
      rw [recordListed, Function.update_of_ne, hnow]
      exact fun heq => hother (congrArg AssignmentKey.moodleAssignmentId heq).symm
  exact hkept _ (Function.update_self ..)

/-- Every row of the last list was last dated by its item there. -/
def Current (s : DatedRows) : Prop :=
  ∀ item, s.current.get item.moodleAssignmentId = some item →
    s.listed item.key = some item.toProviderFields

theorem step_current {s s' : DatedRows} {l : Time × DateWrite} (h : s.Current) (hok : s.InOrder l)
    (hstep : s.step l = some s') : s'.Current := by
  unfold step at hstep
  unfold InOrder at hok
  split at hstep <;> obtain rfl := Option.some.inj hstep
  · intro item hitem
    obtain ⟨_, earlier, later, heq, hlast⟩ := listedById_get hitem
    show List.foldl _ s.listed _ item.key = _
    rw [heq, foldl_listed_of_last hlast]
  · exact fun item hitem => nomatch hitem
  next answers listed hprobe =>
    rw [hprobe] at hok
    obtain rfl : listed = s.current := hok
    intro item hitem
    show (s.probed answers s.current item.key).or (s.listed item.key) = _
    rw [h item hitem]
    unfold probed
    split
    next row answer listedItem _ _ hlisted =>
      obtain rfl := Option.some.inj (hitem.symm.trans hlisted)
      split <;> rfl
    next => rfl

theorem step_follows {s s' : DatedRows} {l : Time × DateWrite}
    (h : ExtensionsFollow s.rows s.listed) (hstep : s.step l = some s') :
    ExtensionsFollow s'.rows s'.listed := by
  unfold step at hstep
  split at hstep <;> obtain rfl := Option.some.inj hstep
  · exact h.applied
  · exact h.applied
  · exact h.probe _ _ _

end DatedRows

/-- **Extension dates follow the last answer**, through any sequence of list syncs and probes. A
stored extension is the due date, past the due date its row was last listed with. A probe that
answers a row takes the dates from its item and the answer alone, and no date to before the listed
one or the due date to before the extension; so does the probe of the list sync right before it. As
long as each probe brings the list of the last list sync, that list is what rows were dated by. -/
theorem extension_dates_follow {rows : Assignments} {nextId : Nat} {s : DatedRows}
    {ls : List (Time × DateWrite)}
    (hstart : ∀ key row, rows.get key = some row → row.extensionDueAt = none)
    (hrun : FreeRun DatedRows.step (.start rows nextId) ls s) :
    (∀ key row, s.rows.get key = some row → ∀ e ∈ row.extensionDueAt,
      ∃ item ∈ s.listed key, row.dueAt = some e ∧ ∀ due ∈ item.dueAt, due < e) ∧
    (Run DatedRows.step DatedRows.InOrder (.start rows nextId) ls s → ∀ item,
      s.current.get item.moodleAssignmentId = some item →
        s.listed item.key = some item.toProviderFields) ∧
    (∀ now answers listed key row answer item, s.rows.get key = some row →
      row.deletedAt = none → answers.get key.moodleAssignmentId = some answer →
      listed.get key.moodleAssignmentId = some item →
      (∃ row', (s.probe now answers listed).rows.get key = some row' ∧
        AnsweredBy item answer row') ∧
      (s.probe now answers listed).listed key = some item.toProviderFields) ∧
    ∀ now fetched enrolled later answers answer item,
      (listedById fetched).get item.moodleAssignmentId = some item →
      answers.get item.moodleAssignmentId = some answer →
      (∃ row', ((s.sync now fetched enrolled []).probe later answers
        (listedById fetched)).rows.get item.key = some row' ∧ AnsweredBy item answer row') ∧
      ((s.sync now fetched enrolled []).probe later answers (listedById fetched)).listed item.key =
        some item.toProviderFields := by
  refine ⟨?_, ?_, ?_, ?_⟩
  · refine hrun.invariant (fun s => ExtensionsFollow s.rows s.listed) ?_
      fun before l after h _ hstep => DatedRows.step_follows h hstep
    intro key row hrow e he
    cases (hstart key row hrow).symm.trans he
  · exact fun hordered => hordered.invariant DatedRows.Current (fun item hitem => nomatch hitem)
      fun before l after h hok hstep => DatedRows.step_current h hok hstep
  · exact fun now answers listed key row answer item hrow hlive hanswer hitem =>
      s.probe_answered now hrow hlive hanswer hitem
  · intro now fetched enrolled later answers answer item hitem hanswer
    obtain ⟨row, hrow, hlive⟩ := s.sync_live now enrolled hitem
    exact (s.sync now fetched enrolled []).probe_answered later hrow hlive hanswer hitem

/-- Moodle lists an assignment with a due date, and the student is given an extension. -/
def extended : List (Time × DateWrite) :=
  [(10, .list [⟨⟨none, "report", some 800, some 900, none, none, none⟩, 3, 9⟩] none),
    (11, .probe (Table.empty.set 9 ⟨false, none, some 1000⟩) (listedById
      [⟨⟨none, "report", some 800, some 900, none, none, none⟩, 3, 9⟩]))]

/-- The extension is the due date and moves the cutoff. -/
theorem extension_dates_follow_extended :
    ∃ s, FreeRun DatedRows.step (.start Table.empty 0) extended s ∧
      ∃ row, s.rows.get ⟨3, 9⟩ = some row ∧ row.dates = ⟨some 1000, some 1000, some 1000⟩ ∧
        ∃ item ∈ s.listed ⟨3, 9⟩, row.dueAt = some 1000 ∧ ∀ due ∈ item.dueAt, due < 1000 := by
  obtain ⟨s, hrun, row, hrow, hdates⟩ : ∃ s, FreeRun DatedRows.step
      (.start Table.empty 0) extended s ∧
        ∃ row, s.rows.get ⟨3, 9⟩ = some row ∧ row.dates = ⟨some 1000, some 1000, some 1000⟩ :=
    ⟨_, run_of_exec rfl, _, rfl, rfl⟩
  refine ⟨s, hrun, row, hrow, hdates, ?_⟩
  exact (extension_dates_follow (fun _ _ h => by cases h) hrun).1 ⟨3, 9⟩ row hrow 1000
    (congrArg Dates.extensionDueAt hdates)

end TigerDuck.SyncJobs
