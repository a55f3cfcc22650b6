import TigerDuck.SyncJobs.AssignmentMirror
import TigerDuck.SyncJobs.AssignmentUploads

/-!
# Row ids

A row of `user_assignments` keeps its id and its assignment through every write: a fetch may move
it from its placeholder's key, or delete it and bring it back, and a row that was not there has a
new id. `Grows` says so of one write and composes, so a loop grows the rows when each round does.

## Main results

- `Grows.write`: every writer of the assignments grows the rows.
-/

namespace TigerDuck.SyncJobs

open Relational

/-- No two rows share an id, and the next one is new. -/
structure IdsSound (rows : Assignments) (nextId : Nat) : Prop where
  lt : ∀ k row, rows.get k = some row → row.id < nextId
  unique : ∀ k k' row row', rows.get k = some row → rows.get k' = some row' → row.id = row'.id →
    k = k'

theorem IdsSound.empty (nextId : Nat) : IdsSound Table.empty nextId :=
  ⟨fun _ _ h => (nomatch h), fun _ _ _ _ h => (nomatch h)⟩

/-- Every row of `rows'` is one of `rows`, under its assignment, or has a new id. -/
structure Grows (rows : Assignments) (nextId : Nat) (rows' : Assignments) (nextId' : Nat) :
    Prop where
  le : nextId ≤ nextId'
  kept : ∀ k' row', rows'.get k' = some row' → nextId ≤ row'.id ∨
    ∃ k row, rows.get k = some row ∧ row.id = row'.id ∧ k.moodleAssignmentId = k'.moodleAssignmentId
  sound : IdsSound rows nextId → IdsSound rows' nextId'

namespace Grows

variable {rows rows' rows'' : Assignments} {nextId nextId' nextId'' : Nat}

theorem refl (rows : Assignments) (nextId : Nat) : Grows rows nextId rows nextId :=
  ⟨le_rfl, fun k' row' hrow' => .inr ⟨k', row', hrow', rfl, rfl⟩, id⟩

theorem trans (h : Grows rows nextId rows' nextId') (h' : Grows rows' nextId' rows'' nextId'') :
    Grows rows nextId rows'' nextId'' := by
  refine ⟨h.le.trans h'.le, fun k' row' hrow' => ?_, fun hsound => h'.sound (h.sound hsound)⟩
  rcases h'.kept k' row' hrow' with hnew | ⟨k, row, hrow, hid, hassignment⟩
  · exact .inl (h.le.trans hnew)
  · rcases h.kept k row hrow with hnew | ⟨k₀, row₀, hrow₀, hid₀, hassignment₀⟩
    · exact .inl (hid ▸ hnew)
    · exact .inr ⟨k₀, row₀, hrow₀, hid₀.trans hid, hassignment₀.trans hassignment⟩

/-- Rows whose ids stay under their keys. -/
theorem of_ids (hids : ∀ k row', rows'.get k = some row' →
    ∃ row, rows.get k = some row ∧ row.id = row'.id) : Grows rows nextId rows' nextId where
  le := le_rfl
  kept := fun k' row' hrow' => by
    obtain ⟨row, hrow, hid⟩ := hids k' row' hrow'
    exact .inr ⟨k', row, hrow, hid, rfl⟩
  sound := fun hsound => by
    refine ⟨fun k row' hrow' => ?_, fun k k' row row' hrow hrow' hid => ?_⟩
    · obtain ⟨row, hrow, hid⟩ := hids k row' hrow'
      exact hid ▸ hsound.lt k row hrow
    · obtain ⟨old, hold, hsame⟩ := hids k row hrow
      obtain ⟨old', hold', hsame'⟩ := hids k' row' hrow'
      exact hsound.unique k k' old old' hold hold' ((hsame.trans hid).trans hsame'.symm)

/-- An update that leaves the ids. -/
theorem modify {f : AssignmentKey → UserAssignment → UserAssignment}
    (hf : ∀ k row, (f k row).id = row.id) : Grows rows nextId (rows.modify f) nextId := by
  refine of_ids fun k row' hrow' => ?_
  rw [Table.get_modify] at hrow'
  obtain ⟨row, hrow, rfl⟩ := Option.map_eq_some_iff.mp hrow'
  exact ⟨row, hrow, (hf k row).symm⟩

/-- A stored row rewritten under its id. -/
theorem setStored {key : AssignmentKey} {row row' : UserAssignment}
    (hrow : rows.get key = some row) (hid : row'.id = row.id) :
    Grows rows nextId (rows.set key row') nextId := by
  refine of_ids fun k r hr => ?_
  rw [Table.get_set] at hr
  split at hr
  next hk =>
    obtain rfl := Option.some.inj hr
    exact ⟨row, hk ▸ hrow, hid.symm⟩
  next => exact ⟨r, hr, rfl⟩

/-- A row with the next id, under any key. -/
theorem setNew {key : AssignmentKey} {row : UserAssignment} (hid : row.id = nextId) :
    Grows rows nextId (rows.set key row) (nextId + 1) := by
  have hrows : ∀ k r, (rows.set key row).get k = some r →
      k = key ∧ r.id = nextId ∨ k ≠ key ∧ rows.get k = some r := by
    intro k r hr
    rw [Table.get_set] at hr
    split at hr
    next hk => exact .inl ⟨hk, Option.some.inj hr ▸ hid⟩
    next hk => exact .inr ⟨hk, hr⟩
  refine ⟨Nat.le_succ nextId, fun k' row' hrow' => ?_, fun hsound => ⟨fun k r hr => ?_, ?_⟩⟩
  · rcases hrows k' row' hrow' with ⟨_, hnew⟩ | ⟨_, hold⟩
    · exact .inl hnew.ge
    · exact .inr ⟨k', row', hold, rfl, rfl⟩
  · rcases hrows k r hr with ⟨_, hnew⟩ | ⟨_, hold⟩
    · exact hnew ▸ Nat.lt_succ_self nextId
    · exact Nat.lt_succ_of_lt (hsound.lt k r hold)
  · intro k k' r r' hr hr' hsame
    rcases hrows k r hr with ⟨hk, hnew⟩ | ⟨_, hold⟩ <;>
      rcases hrows k' r' hr' with ⟨hk', hnew'⟩ | ⟨_, hold'⟩
    · exact hk.trans hk'.symm
    · have hlt := hsound.lt k' r' hold'
      omega
    · have hlt := hsound.lt k r hold
      omega
    · exact hsound.unique k k' r r' hold hold' hsame

/-- A row that moves to another key of its assignment, under its id. -/
theorem move {key key' : AssignmentKey} {row row' : UserAssignment} (hrow : rows.get key = some row)
    (hid : row'.id = row.id) (hassignment : key.moodleAssignmentId = key'.moodleAssignmentId) :
    Grows rows nextId ((rows.deleteWhere fun k _ => k = key).set key' row') nextId := by
  have hrows : ∀ k r, ((rows.deleteWhere fun k _ => k = key).set key' row').get k = some r →
      k = key' ∧ r.id = row.id ∨ k ≠ key ∧ rows.get k = some r := by
    intro k r hr
    rw [Table.get_set] at hr
    split at hr
    next hk => exact .inl ⟨hk, Option.some.inj hr ▸ hid⟩
    next hk =>
      rw [Table.get_deleteWhere, Option.filter_eq_some_iff] at hr
      exact .inr ⟨by simpa using hr.2, hr.1⟩
  refine ⟨le_rfl, fun k r hr => ?_, fun hsound => ⟨fun k r hr => ?_, ?_⟩⟩
  · rcases hrows k r hr with ⟨hk, hsame⟩ | ⟨_, hold⟩
    · exact .inr ⟨key, row, hrow, hsame.symm, hk ▸ hassignment⟩
    · exact .inr ⟨k, r, hold, rfl, rfl⟩
  · rcases hrows k r hr with ⟨_, hsame⟩ | ⟨_, hold⟩
    · exact hsame ▸ hsound.lt key row hrow
    · exact hsound.lt k r hold
  · intro k k₁ r r₁ hr hr₁ hsame
    rcases hrows k r hr with ⟨hk, hmoved⟩ | ⟨hne, hold⟩ <;>
      rcases hrows k₁ r₁ hr₁ with ⟨hk₁, hmoved₁⟩ | ⟨hne₁, hold₁⟩
    · exact hk.trans hk₁.symm
    · have hkey := hsound.unique k₁ key r₁ row hold₁ hrow (hsame.symm.trans hmoved)
      exact absurd hkey hne₁
    · have hkey := hsound.unique k key r row hold hrow (hsame.trans hmoved₁)
      exact absurd hkey hne
    · exact hsound.unique k k₁ r r₁ hold hold₁ hsame

/-- A loop grows the rows when each round does. -/
theorem foldl {σ β : Type} (rowsOf : σ → Assignments) (nextOf : σ → Nat) (inv : σ → Prop)
    {f : σ → β → σ}
    (hstep : ∀ s b, inv s →
      inv (f s b) ∧ Grows (rowsOf s) (nextOf s) (rowsOf (f s b)) (nextOf (f s b)))
    (items : List β) (s : σ) (hinv : inv s) :
    Grows (rowsOf s) (nextOf s) (rowsOf (items.foldl f s)) (nextOf (items.foldl f s)) := by
  induction items generalizing s with
  | nil => exact refl ..
  | cons item rest ih =>
    obtain ⟨hnext, hgrows⟩ := hstep s item hinv
    exact hgrows.trans (ih (f s item) hnext)

end Grows

/-! ### The writers -/

section Fetch

variable {now : Time} {enrolled : Option Classification}

/-- A round of the fetch. -/
theorem Grows.applyItem (s : ListSync) (item : FetchedAssignment) :
    Grows s.rows s.nextId (s.applyItem now enrolled item).rows
      (s.applyItem now enrolled item).nextId := by
  have hadopt : Grows s.rows s.nextId (s.adopt item).1.rows (s.adopt item).1.nextId := by
    by_cases hkept : s.rows.get item.key ≠ none ∨ s.rows.get item.placeholderKey = none
    · rw [adopt_of_kept hkept]
      exact refl ..
    · push Not at hkept
      obtain ⟨hkey, hplace⟩ := hkept
      obtain ⟨row, hrow⟩ := Option.ne_none_iff_exists'.mp hplace
      rw [adopt_of_placeholder hkey hrow]
      exact move hrow (adoptedRow_sameWork item row).id rfl
  refine hadopt.trans ?_
  unfold ListSync.applyItem
  dsimp only
  split
  next => exact setNew rfl
  next row hrow =>
    refine setStored hrow ?_
    exact (writtenRow_sameWork now enrolled 0 item row).id

theorem Grows.applied (fetched : List FetchedAssignment) (refusedCourseIds : List MoodleId)
    (rows : Assignments) (nextId : Nat) :
    Grows rows nextId (applyFetchedAssignments now fetched enrolled refusedCourseIds rows nextId).rows
      (applyFetchedAssignments now fetched enrolled refusedCourseIds rows nextId).nextId := by
  have hloop := Grows.foldl ListSync.rows ListSync.nextId (fun _ => True)
    (f := ListSync.applyItem now enrolled) (fun s item _ => ⟨trivial, Grows.applyItem s item⟩)
    fetched ⟨rows, nextId, [], []⟩ trivial
  refine hloop.trans (of_ids fun k row' hrow' => ?_)
  rw [applied_get] at hrow'
  obtain ⟨row, hrow, rfl⟩ := Option.map_eq_some_iff.mp hrow'
  refine ⟨row, hrow, ?_⟩
  split <;> rfl

end Fetch

@[simp]
theorem submittedRow_id (now : Time) (answers : Submissions) (key : AssignmentKey)
    (row : UserAssignment) : (submittedRow now answers key row).id = row.id := by
  unfold submittedRow
  split
  · split <;> rfl
  · rfl

@[simp]
theorem extendedRow_id (answers : Submissions) (listed : Table MoodleId FetchedAssignment)
    (key : AssignmentKey) (row : UserAssignment) :
    (extendedRow answers listed key row).id = row.id := by
  unfold extendedRow
  split
  · split <;> rfl
  · rfl

theorem graded_id (row : UserAssignment) (a : AssignmentUploadItem) :
    (graded row a).1.id = row.id := by
  unfold graded
  split
  · split <;> rfl
  · rfl

theorem uploadedRow_id (now : Time) (isNew : Bool) (key : AssignmentKey) (row : UserAssignment)
    (a : AssignmentUploadItem) (dueAt : Option Time) :
    (uploadedRow now isNew key row a dueAt).1.id = row.id := by
  unfold uploadedRow
  dsimp only
  split <;> split <;> exact graded_id ..

/-- The row an upload adds. -/
theorem Grows.add {s : Upload} {key : AssignmentKey} {row : UserAssignment}
    (hid : row.id = s.nextId) :
    Grows s.rows s.nextId (s.add key row).rows (s.add key row).nextId :=
  setNew hid

/-- A round of an upload. -/
theorem Grows.uploadItem {fromisoformat : String → Option Time} {now : Time} {s : Upload}
    (hknown : s.Known) (a : AssignmentUploadItem) :
    (uploadItem fromisoformat now s a).Known ∧
      Grows s.rows s.nextId (uploadItem fromisoformat now s a).rows
        (uploadItem fromisoformat now s a).nextId := by
  unfold SyncJobs.uploadItem
  dsimp only
  generalize hs₀ : (if (s.byAssignment a.moodleAssignmentId).isNone = true then
    s.add _ (placeholder s.nextId now) else s) = s₀
  have hadded : s₀.Known ∧ Grows s.rows s.nextId s₀.rows s₀.nextId := by
    subst hs₀
    split
    next hnone =>
      rw [Option.isNone_iff_eq_none] at hnone
      rw [hnone]
      exact ⟨hknown.add _ _, Grows.add rfl⟩
    next => exact ⟨hknown, refl ..⟩
  split
  next row hrow =>
    refine ⟨hadded.1.set hrow rfl rfl, hadded.2.trans ?_⟩
    exact setStored hrow (uploadedRow_id ..)
  next => exact hadded

theorem Grows.importItem {now : Time} {s : Upload} (hknown : s.Known) (item : UploadAssignment) :
    (importItem now s item).Known ∧
      Grows s.rows s.nextId (importItem now s item).rows (importItem now s item).nextId := by
  unfold SyncJobs.importItem
  split
  · split
    next row hrow =>
      split
      · exact ⟨hknown.set hrow rfl rfl, setStored hrow rfl⟩
      · exact ⟨hknown, refl ..⟩
    next => exact ⟨hknown, refl ..⟩
  next =>
    have hadded : (s.add ⟨item.moodleCourseId, item.moodleAssignmentId⟩
      (importedRow s.nextId now item)).Known := hknown.add _ _
    exact ⟨hadded, Grows.add rfl⟩

/-- The assignments of an initial upload. -/
theorem Grows.importAssignments (now : Time) (assignments : List UploadAssignment)
    (rows : Assignments) (nextId : Nat) :
    Grows rows nextId (importAssignments now assignments rows nextId).rows
      (importAssignments now assignments rows nextId).nextId :=
  Grows.foldl Upload.rows Upload.nextId Upload.Known
    (fun _ item hknown => Grows.importItem hknown item) assignments _ .begin

/-- **Every write keeps the ids** of the rows it finds, and gives new rows new ones. -/
theorem Grows.write (fromisoformat : String → Option Time) (now : Time) (w : AssignmentWrite)
    (rows : Assignments) (nextId : Nat) :
    Grows rows nextId (w.run fromisoformat now rows nextId).1
      (w.run fromisoformat now rows nextId).2 := by
  cases w with
  | upload assignments =>
    exact Grows.foldl Upload.rows Upload.nextId Upload.Known
      (fun _ a hknown => Grows.uploadItem hknown a) assignments _ .begin
  | initialUpload assignments => exact Grows.importAssignments now assignments rows nextId
  | fetch answer =>
    cases answer with
    | listed fetched enrolled => exact Grows.applied fetched [] rows nextId
    | noCourseAccess refusedCourseIds => exact Grows.applied [] refusedCourseIds rows nextId
  | probe answers listed =>
    refine (modify fun k row => ?_).trans (modify fun k row => ?_)
    · exact submittedRow_id ..
    · exact extendedRow_id ..

end TigerDuck.SyncJobs
