import TigerDuck.Sync.Marks
import TigerDuck.SyncJobs.AssignmentMirror

/-!
# The fetch and the marks

`apply_fetched_assignments` on all rows of a user. A mark belongs to the id of its row, and the
fetch writes no mark: what becomes of a mark is what becomes of the row with that id.

## Main results

- `fetch_mirrors`: after a fetch the live rows are the fetched ones, an adopted placeholder is the
  same row with its mark and its submission, and the same fetch again changes nothing.
-/

namespace TigerDuck.Sync

open Relational SyncJobs

/-- `apply_fetched_assignments`, with the entries it logs. -/
def UserEdits.applyFetched (s : UserEdits) (now : Time) (fetched : List FetchedAssignment)
    (enrolled : Option Classification) (refusedCourseIds : List MoodleId) :
    UserEdits × List AssignmentChange :=
  let stats := applyFetchedAssignments now fetched enrolled refusedCourseIds s.assignments
    s.nextAssignmentId
  ({ s with assignments := stats.rows, nextAssignmentId := stats.nextId }, stats.changes)

/-- The rows of `after` are those of `before` that an answer listing `fetched` left. -/
structure Mirrored (fetched : List FetchedAssignment) (before after : UserEdits) : Prop where
  /-- The live rows are the fetched ones. -/
  live : ∀ key, (∃ row, after.assignments.get key = some row ∧ row.deletedAt = none) ↔
    ∃ item ∈ fetched, item.key = key
  /-- A placeholder of a fetched assignment that had no row is that row now, with its mark. -/
  adopted : ∀ item ∈ fetched, before.assignments.get item.key = none →
    ∀ row, before.assignments.get item.placeholderKey = some row →
      ∃ row', after.assignments.get item.key = some row' ∧ row.SameWork row' ∧
        after.marks.get row'.id = before.marks.get row.id
  /-- Every row keeps its id and its submission, and stays under its assignment. -/
  kept : ∀ key row, before.assignments.get key = some row →
    ∃ key' row', after.assignments.get key' = some row' ∧
      key'.moodleAssignmentId = key.moodleAssignmentId ∧ row.SameWork row'

/-- The rows with the times of a fetch that found all it lists as it had left it. -/
def UserEdits.seenAgain (s : UserEdits) (fetched : List FetchedAssignment) (now : Time) :
    UserEdits :=
  { s with
    assignments := s.assignments.modify fun key row =>
      if ∃ item ∈ fetched, item.key = key then row.seen now else row }

/-- **The fetch is mirrored**, and mirrored once: the same answer again writes the times of the
fetch and logs nothing. -/
theorem fetch_mirrors (s : UserEdits) (now : Time) {fetched : List FetchedAssignment}
    (enrolled : Option Classification)
    (hdistinct : (fetched.map (·.moodleAssignmentId)).Nodup) :
    Mirrored fetched s (s.applyFetched now fetched enrolled []).1 ∧
      ∀ later, (s.applyFetched now fetched enrolled []).1.applyFetched later fetched enrolled [] =
        ((s.applyFetched now fetched enrolled []).1.seenAgain fetched later, []) := by
  refine ⟨⟨applied_live_iff hdistinct, ?_, fun key row => applied_keeps hdistinct⟩, ?_⟩
  · intro item hmem hkey row hrow
    obtain ⟨row', hrow', hsame⟩ := applied_adopted hdistinct hmem hkey hrow
    refine ⟨row', hrow', hsame, ?_⟩
    rw [hsame.id]
    rfl
  · intro later
    unfold UserEdits.applyFetched
    dsimp only
    rw [applied_again hdistinct later]
    rfl

/-- An app's placeholder of an assignment, completed there and submitted, before any fetch. -/
def uploadedEarly : UserEdits where
  sync := .fresh
  assignments := Table.empty.set ⟨0, 9⟩
    { placeholder 4 100 with providerIsSubmitted := true, dueAt := some 900 }
  nextAssignmentId := 5
  marks := Table.empty.set 4
    { UserAssignmentOverride.blank with
      localStatus := { Field.unset .locallyCompleted with updatedAt := some 120 } }
  holidays := Table.empty

/-- The assignment, as Moodle lists it. -/
def earlyReport : FetchedAssignment :=
  ⟨⟨none, "report", some 800, none, none, none, none⟩, 3, 9⟩

/-- The fetch takes the placeholder over with its mark and submission, once. -/
theorem fetch_mirrors_placeholder :
    (∃ row, (uploadedEarly.applyFetched 200 [earlyReport] none []).1.assignments.get ⟨3, 9⟩ =
        some row ∧ row.id = 4 ∧ row.providerIsSubmitted = true ∧
      ((uploadedEarly.applyFetched 200 [earlyReport] none []).1.marks.get row.id).map
        (·.localStatus.value) = some .locallyCompleted) ∧
    ((uploadedEarly.applyFetched 200 [earlyReport] none []).1.applyFetched 300 [earlyReport] none
      []).2 = [] := by
  obtain ⟨hmirrored, hagain⟩ := fetch_mirrors uploadedEarly 200 none
    (show ([earlyReport].map (·.moodleAssignmentId)).Nodup by decide)
  obtain ⟨row', hrow', hsame, hmark⟩ :=
    hmirrored.adopted earlyReport List.mem_cons_self rfl _ rfl
  refine ⟨⟨row', hrow', hsame.id, hsame.isSubmitted, ?_⟩, ?_⟩
  · rw [hmark]
    rfl
  · rw [hagain 300]

end TigerDuck.Sync
