import TigerDuck.SyncJobs.Assignments

/-!
# The fetch, mirrored

What `apply_fetched_assignments` leaves of a user's rows, key by key. A round of its loop writes
one row, under the key it fetched: the row stored there, or else the placeholder of that
assignment, which leaves its own key, or else a new one. So after the loop a fetched key holds a
live row, a placeholder's key may be empty, and every other key is as it was.

## Main results

- `fetchLoop_get_of_notMem`, `fetchLoop_get_of_mem`: the rows after the loop.
- `kept_iff`: the live rows that the deletions after the loop leave.
- `applied_live_iff`, `applied_keeps`: after an answer that refuses no course the live rows are the
  fetched ones, and every row keeps its id and its submission.
- `applied_again`: the same answer once more changes nothing but the times of the fetch.
-/

namespace TigerDuck.SyncJobs

open Relational

/-- A placeholder's row as the fetch finds it: a date later than the listed one is an extension. -/
def adoptedRow (item : FetchedAssignment) (row : UserAssignment) : UserAssignment :=
  if dueLater row.dueAt item.dueAt then { row with extensionDueAt := row.dueAt } else row

/-- The row a round of the loop writes: the one of its key, or else the placeholder's. -/
def takenRow (rows : Assignments) (item : FetchedAssignment) : Option UserAssignment :=
  (rows.get item.key).or ((rows.get item.placeholderKey).map (adoptedRow item))

/-- The round of `item` takes the row of `key` over, as a placeholder. -/
def FetchedAssignment.Adopts (item : FetchedAssignment) (rows : Assignments) (key : AssignmentKey) :
    Prop :=
  item.placeholderKey = key ∧ rows.get item.key = none

instance (item : FetchedAssignment) (rows : Assignments) (key : AssignmentKey) :
    Decidable (item.Adopts rows key) :=
  inferInstanceAs (Decidable (_ ∧ _))

/-- What the round of `item` stores for the row it takes. -/
def writtenRow (now : Time) (enrolled : Option Classification) (nextId : Nat)
    (item : FetchedAssignment) (taken : Option UserAssignment) : UserAssignment :=
  taken.elim (ListSync.newRow now enrolled nextId item) fun row =>
    (ListSync.updatedRow now enrolled row item).1

/-- A row an answer lists is live. -/
@[simp]
theorem writtenRow_deletedAt (now : Time) (enrolled : Option Classification) (nextId : Nat)
    (item : FetchedAssignment) (taken : Option UserAssignment) :
    (writtenRow now enrolled nextId item taken).deletedAt = none := by
  cases taken <;> rfl

section Loop

variable {now : Time} {enrolled : Option Classification}

/-- Without a placeholder, or with a row of its own, nothing is adopted. -/
theorem adopt_of_kept {s : ListSync} {item : FetchedAssignment}
    (h : s.rows.get item.key ≠ none ∨ s.rows.get item.placeholderKey = none) :
    s.adopt item = (s, []) := by
  unfold ListSync.adopt
  split
  next hkey hplace =>
    rw [hkey, hplace] at h
    simp at h
  next => rfl

/-- The placeholder's row moves to the fetched key. -/
theorem adopt_of_placeholder {s : ListSync} {item : FetchedAssignment} {row : UserAssignment}
    (hkey : s.rows.get item.key = none) (hplace : s.rows.get item.placeholderKey = some row) :
    s.adopt item =
      ({ s with
          rows := (s.rows.deleteWhere fun k _ => k = item.placeholderKey).set item.key
            (adoptedRow item row) }, ["moodle_course_id"]) := by
  unfold ListSync.adopt adoptedRow
  split
  next old hkey' hplace' =>
    obtain rfl := Option.some.inj (hplace.symm.trans hplace')
    rfl
  next hnot => exact absurd hplace (hnot row hkey)

/-- An adoption moves the placeholder's row to the fetched key. -/
theorem adopt_get (s : ListSync) (item : FetchedAssignment) (key : AssignmentKey) :
    (s.adopt item).1.rows.get key =
      if key = item.key then takenRow s.rows item
      else if item.Adopts s.rows key then none else s.rows.get key := by
  obtain hkey | ⟨row, hkey⟩ := (s.rows.get item.key).eq_none_or_eq_some
  · obtain hplace | ⟨row, hplace⟩ := (s.rows.get item.placeholderKey).eq_none_or_eq_some
    · rw [adopt_of_kept (.inr hplace)]
      by_cases h : key = item.key
      · simp [takenRow, h, hkey, hplace]
      · by_cases h' : item.placeholderKey = key
        · subst h'
          simp [FetchedAssignment.Adopts, h, hplace]
        · simp [FetchedAssignment.Adopts, h, h']
    · rw [adopt_of_placeholder hkey hplace]
      by_cases h : key = item.key
      · simp [takenRow, h, hkey, hplace]
      · by_cases h' : item.placeholderKey = key
        · subst h'
          simp [FetchedAssignment.Adopts, h, Option.filter, hkey, hplace]
        · cases hget : s.rows.get key <;>
            simp [FetchedAssignment.Adopts, h, h', Ne.symm h', hget, Option.filter]
  · rw [adopt_of_kept (.inl (hkey ▸ nofun))]
    by_cases h : key = item.key
    · simp [takenRow, h, hkey]
    · simp [FetchedAssignment.Adopts, h, hkey]

/-- What a round leaves under a key. -/
theorem applyItem_get (s : ListSync) (item : FetchedAssignment) (key : AssignmentKey) :
    (s.applyItem now enrolled item).rows.get key =
      if key = item.key then
        some (writtenRow now enrolled s.nextId item (takenRow s.rows item))
      else if item.Adopts s.rows key then none else s.rows.get key := by
  have hadopt := adopt_get s item
  have hnext : (s.adopt item).1.nextId = s.nextId := by
    unfold ListSync.adopt
    split <;> rfl
  unfold ListSync.applyItem
  dsimp only
  have htaken : (s.adopt item).1.rows.get item.key = takenRow s.rows item := by
    rw [hadopt, if_pos rfl]
  split
  next hnone =>
    rw [htaken] at hnone
    rw [Table.get_set, hadopt, hnext, hnone]
    split <;> rfl
  next row hrow =>
    rw [htaken] at hrow
    rw [Table.get_set, hadopt, hrow]
    split <;> rfl

/-- A round touches no other assignment. -/
theorem applyItem_get_of_ne (s : ListSync) {item : FetchedAssignment} {key : AssignmentKey}
    (h : key.moodleAssignmentId ≠ item.moodleAssignmentId) :
    (s.applyItem now enrolled item).rows.get key = s.rows.get key := by
  have hkey : key ≠ item.key := fun heq => h (congrArg AssignmentKey.moodleAssignmentId heq)
  have hadopts : ¬ item.Adopts s.rows key := fun hadopts =>
    h (congrArg AssignmentKey.moodleAssignmentId hadopts.1).symm
  rw [applyItem_get, if_neg hkey, if_neg hadopts]

/-- After the loop a key it did not fetch is empty where a round adopted its row, and as it was
otherwise. Which round adopts it can be told from the rows before the loop. -/
theorem fetchLoop_get_of_notMem {fetched : List FetchedAssignment} {key : AssignmentKey}
    (hkey : ∀ item ∈ fetched, item.key ≠ key) (s : ListSync) :
    (fetched.foldl (ListSync.applyItem now enrolled) s).rows.get key =
      if ∃ item ∈ fetched, item.Adopts s.rows key then none else s.rows.get key := by
  induction fetched generalizing s with
  | nil => simp
  | cons item rest ih =>
    obtain ⟨hitem, hrest⟩ := List.forall_mem_cons.mp hkey
    rw [List.foldl_cons, ih hrest]
    have hget : (s.applyItem now enrolled item).rows.get key =
        if item.Adopts s.rows key then none else s.rows.get key := by
      rw [applyItem_get, if_neg hitem.symm]
    by_cases hadopts : item.Adopts s.rows key
    · have hfirst : ∃ later ∈ item :: rest, later.Adopts s.rows key :=
        ⟨item, List.mem_cons_self, hadopts⟩
      rw [hget, if_pos hadopts, ite_self, if_pos hfirst]
    · -- A later round finds its own key as this one did, so it adopts the same placeholders.
      have hsame : ∀ later ∈ rest, later.Adopts (s.applyItem now enrolled item).rows key ↔
          later.Adopts s.rows key := by
        intro later hlater
        refine and_congr_right fun hplace => ?_
        by_cases hid : later.moodleAssignmentId = item.moodleAssignmentId
        · have hitemPlace : item.placeholderKey = key := by
            rw [← hplace]
            exact congrArg (AssignmentKey.mk 0) hid.symm
          have hstored : s.rows.get item.key ≠ none := fun hnone => hadopts ⟨hitemPlace, hnone⟩
          rw [applyItem_get]
          split
          next heq => simp [heq, hstored]
          next => rw [if_neg fun h => hstored h.2]
        · rw [applyItem_get_of_ne s hid]
      have hexists : (∃ later ∈ rest, later.Adopts (s.applyItem now enrolled item).rows key) ↔
          ∃ later ∈ item :: rest, later.Adopts s.rows key := by
        simp only [List.exists_mem_cons_iff, hadopts, false_or]
        exact exists_congr fun later => and_congr_right fun hlater => hsame later hlater
      rw [hget, if_neg hadopts]
      exact if_congr hexists rfl rfl

/-- A round leaves no deleted row where there was none. -/
theorem applyItem_live {s : ListSync} {key : AssignmentKey}
    (hlive : ∀ row, s.rows.get key = some row → row.deletedAt = none) (item : FetchedAssignment)
    (row : UserAssignment) (hrow : (s.applyItem now enrolled item).rows.get key = some row) :
    row.deletedAt = none := by
  rw [applyItem_get] at hrow
  split at hrow
  · obtain rfl := Option.some.inj hrow
    exact writtenRow_deletedAt ..
  · split at hrow
    · cases hrow
    · exact hlive row hrow

/-- After the loop a fetched key holds no deleted row. -/
theorem fetchLoop_live_of_mem {fetched : List FetchedAssignment} {item : FetchedAssignment}
    (hmem : item ∈ fetched) (s : ListSync) (row : UserAssignment)
    (hrow : (fetched.foldl (ListSync.applyItem now enrolled) s).rows.get item.key = some row) :
    row.deletedAt = none := by
  have hkeeps : ∀ (rest : List FetchedAssignment) (s : ListSync),
      (∀ row, s.rows.get item.key = some row → row.deletedAt = none) → ∀ row,
        (rest.foldl (ListSync.applyItem now enrolled) s).rows.get item.key = some row →
          row.deletedAt = none := by
    intro rest
    induction rest with
    | nil => exact fun s hlive => hlive
    | cons next rest ih => exact fun s hlive => ih _ (applyItem_live hlive next)
  induction fetched generalizing s with
  | nil => cases hmem
  | cons next rest ih =>
    rcases List.mem_cons.mp hmem with rfl | hmem
    · refine hkeeps rest _ (fun row hrow => ?_) row hrow
      rw [applyItem_get, if_pos rfl] at hrow
      obtain rfl := Option.some.inj hrow
      exact writtenRow_deletedAt ..
    · exact ih hmem _ hrow

/-- After the loop the key of an assignment's last item holds what its round wrote. -/
theorem fetchLoop_get_of_last {item : FetchedAssignment} {later : List FetchedAssignment}
    (hlast : ∀ other ∈ later, other.moodleAssignmentId ≠ item.moodleAssignmentId) (s : ListSync) :
    ((item :: later).foldl (ListSync.applyItem now enrolled) s).rows.get item.key =
      some (writtenRow now enrolled s.nextId item (takenRow s.rows item)) := by
  have hkey : ∀ other ∈ later, other.key ≠ item.key := fun other hmem heq =>
    hlast other hmem (congrArg AssignmentKey.moodleAssignmentId heq)
  have hadopts : ¬ ∃ other ∈ later,
      other.Adopts (s.applyItem now enrolled item).rows item.key := by
    rintro ⟨other, hmem, hplace, _⟩
    exact hlast other hmem (congrArg AssignmentKey.moodleAssignmentId hplace)
  rw [List.foldl_cons, fetchLoop_get_of_notMem hkey, if_neg hadopts, applyItem_get, if_pos rfl]

/-- After a loop over distinct assignments a fetched key holds what its round made of the rows
before the loop. -/
theorem fetchLoop_get_of_mem {fetched : List FetchedAssignment}
    (hdistinct : (fetched.map (·.moodleAssignmentId)).Nodup) {item : FetchedAssignment}
    (hmem : item ∈ fetched) (s : ListSync) :
    ∃ nextId, (fetched.foldl (ListSync.applyItem now enrolled) s).rows.get item.key =
      some (writtenRow now enrolled nextId item (takenRow s.rows item)) := by
  induction fetched generalizing s with
  | nil => cases hmem
  | cons next rest ih =>
    rw [List.map_cons, List.nodup_cons] at hdistinct
    obtain ⟨hfresh, hrest⟩ := hdistinct
    rcases List.mem_cons.mp hmem with rfl | hmem
    · have hother : ∀ later ∈ rest, later.moodleAssignmentId ≠ item.moodleAssignmentId :=
        fun later hlater hid => hfresh (List.mem_map.mpr ⟨later, hlater, hid⟩)
      exact ⟨s.nextId, fetchLoop_get_of_last hother s⟩
    · rw [List.foldl_cons]
      have hid : item.moodleAssignmentId ≠ next.moodleAssignmentId := fun hid =>
        hfresh (List.mem_map.mpr ⟨item, hmem, hid⟩)
      have htaken : takenRow (s.applyItem now enrolled next).rows item = takenRow s.rows item := by
        have hkey : (s.applyItem now enrolled next).rows.get item.key = s.rows.get item.key :=
          applyItem_get_of_ne s hid
        have hplace : (s.applyItem now enrolled next).rows.get item.placeholderKey =
            s.rows.get item.placeholderKey := applyItem_get_of_ne s hid
        rw [takenRow, takenRow, hkey, hplace]
      obtain ⟨nextId, hget⟩ := ih hrest hmem (s.applyItem now enrolled next)
      exact ⟨nextId, htaken ▸ hget⟩

end Loop

section Applied

variable {now : Time} {fetched : List FetchedAssignment} {enrolled : Option Classification}
  {refusedCourseIds : List MoodleId} {rows : Assignments} {nextId : Nat}

/-- The answer lists the assignment of the key, or has its placeholder's row. -/
def Listed (fetched : List FetchedAssignment) (rows : Assignments) (key : AssignmentKey) : Prop :=
  (∃ item ∈ fetched, item.key = key) ∨ ∃ item ∈ fetched, item.Adopts rows key

instance (fetched : List FetchedAssignment) (rows : Assignments) (key : AssignmentKey) :
    Decidable (Listed fetched rows key) :=
  inferInstanceAs (Decidable (_ ∨ _))

/-- The deletions' test of a row, as a proposition. -/
theorem leftOut_iff (key : AssignmentKey) (row : UserAssignment) :
    ListSync.leftOut fetched refusedCourseIds key row = true ↔
      (∀ item ∈ fetched, item.key ≠ key) ∧ row.deletedAt = none ∧
        ¬ (refusedCourseIds ≠ [] ∧
          (key.moodleCourseId = 0 ∨ key.moodleCourseId ∈ refusedCourseIds)) := by
  simp only [ListSync.leftOut, Bool.and_eq_true, Bool.not_eq_true', Option.isNone_iff_eq_none,
    and_assoc, ne_eq, ← Bool.not_eq_true, List.contains_iff_mem,
    List.mem_map, not_exists, not_and, decide_eq_true_eq]

/-- The rows once the answer is applied. -/
theorem applied_get (key : AssignmentKey) :
    (applyFetchedAssignments now fetched enrolled refusedCourseIds rows nextId).rows.get key =
      ((fetched.foldl (ListSync.applyItem now enrolled) ⟨rows, nextId, [], []⟩).rows.get key).map
        fun row =>
          if ListSync.leftOut fetched refusedCourseIds key row then
            { row with deletedAt := some now }
          else row :=
  Table.get_modify ..

/-- A fetched key holds what the loop left there. -/
theorem applied_get_of_mem {item : FetchedAssignment} (hmem : item ∈ fetched) :
    (applyFetchedAssignments now fetched enrolled refusedCourseIds rows nextId).rows.get item.key =
      (fetched.foldl (ListSync.applyItem now enrolled) ⟨rows, nextId, [], []⟩).rows.get
        item.key := by
  have hkept : ∀ row, ¬ ListSync.leftOut fetched refusedCourseIds item.key row = true := by
    intro row hout
    rw [leftOut_iff] at hout
    exact hout.1 item hmem rfl
  rw [applied_get]
  simp only [hkept, if_false, Option.map_id', Bool.false_eq_true]

/-- A key the answer does not fetch loses its row to an adoption, or is deleted if it is live and
the refused courses do not protect it. -/
theorem applied_get_of_notMem {key : AssignmentKey} (hkey : ∀ item ∈ fetched, item.key ≠ key) :
    (applyFetchedAssignments now fetched enrolled refusedCourseIds rows nextId).rows.get key =
      if ∃ item ∈ fetched, item.Adopts rows key then none
      else (rows.get key).map fun row =>
        if ListSync.leftOut fetched refusedCourseIds key row then
          { row with deletedAt := some now }
        else row := by
  rw [applied_get, fetchLoop_get_of_notMem hkey]
  split <;> rfl

/-- A live row is kept exactly when the answer lists it, or spares its course. -/
theorem kept_iff {key : AssignmentKey} {row : UserAssignment} (hrow : rows.get key = some row)
    (hlive : row.deletedAt = none) :
    (∀ row', (applyFetchedAssignments now fetched enrolled refusedCourseIds rows nextId).rows.get
        key = some row' → row'.deletedAt = none) ↔
      Listed fetched rows key ∨ refusedCourseIds ≠ [] ∧
        (key.moodleCourseId = 0 ∨ key.moodleCourseId ∈ refusedCourseIds) := by
  by_cases hfetched : ∃ item ∈ fetched, item.key = key
  · obtain ⟨item, hmem, rfl⟩ := hfetched
    refine ⟨fun _ => .inl (.inl ⟨item, hmem, rfl⟩), fun _ row' hrow' => ?_⟩
    rw [applied_get_of_mem hmem] at hrow'
    exact fetchLoop_live_of_mem hmem _ row' hrow'
  · have hkey : ∀ item ∈ fetched, item.key ≠ key := fun item hmem heq =>
      hfetched ⟨item, hmem, heq⟩
    rw [applied_get_of_notMem hkey]
    by_cases hadopts : ∃ item ∈ fetched, item.Adopts rows key
    · rw [if_pos hadopts]
      exact ⟨fun _ => .inl (.inr hadopts), fun _ _ => nofun⟩
    · rw [if_neg hadopts, hrow]
      have hout : ListSync.leftOut fetched refusedCourseIds key row = true ↔ _ :=
        leftOut_iff key row
      simp only [Option.map_some, Option.some.injEq, forall_eq', Listed, hfetched, hadopts,
        false_or]
      split
      next h =>
        refine ⟨nofun, fun hspared => absurd hspared ?_⟩
        exact (hout.mp h).2.2
      next h =>
        refine ⟨fun _ => ?_, fun _ => hlive⟩
        by_contra hspared
        exact h (hout.mpr ⟨hkey, hlive, hspared⟩)

end Applied

/-! ### A second pass -/

/-- The row with the times a fetch that changes nothing writes. -/
def UserAssignment.seen (row : UserAssignment) (now : Time) : UserAssignment :=
  { row with fetchedAt := now, lastSeenAt := now }

@[simp]
theorem changedField_self {α : Type} [DecidableEq α] (name : String) (value : α) :
    changedField name value value = [] :=
  if_pos rfl

@[simp]
theorem ProviderFields.changed_self (fields : ProviderFields) : fields.changed fields = [] := by
  simp [ProviderFields.changed]

/-- A kept extension is kept. -/
@[simp]
theorem keptExtension_keptExtension (item : ProviderFields) (extension : Option Time) :
    keptExtension item (keptExtension item extension) = keptExtension item extension := by
  unfold keptExtension
  rw [Option.filter_filter]
  simp only [Bool.and_self]

/-- No date is past itself. -/
@[simp]
theorem dueLater_self (due : Option Time) : dueLater due due = false := by
  cases due <;> simp [dueLater]

/-- The fetch has nothing to say of the row but that it saw it. -/
def Settled (enrolled : Option Classification) (item : FetchedAssignment) (row : UserAssignment) :
    Prop :=
  ∀ now, ListSync.updatedRow now enrolled row item = (row.seen now, [])

/-- What a round stores, the same round leaves as it is. -/
theorem settled_writtenRow (now : Time) (enrolled : Option Classification) (nextId : Nat)
    (item : FetchedAssignment) (taken : Option UserAssignment) :
    Settled enrolled item (writtenRow now enrolled nextId item taken) := by
  intro later
  cases taken with
  | none =>
    cases enrolled with
    | none =>
      simp [writtenRow, ListSync.newRow, ListSync.updatedRow, ListSync.link, keptExtension,
        withExtension, UserAssignment.seen]
    | some c =>
      simp [writtenRow, ListSync.newRow, ListSync.updatedRow, ListSync.link, keptExtension,
        withExtension, UserAssignment.seen]
  | some row =>
    cases enrolled with
    | none =>
      simp [writtenRow, ListSync.updatedRow, ListSync.link, UserAssignment.seen]
    | some c =>
      simp [writtenRow, ListSync.updatedRow, ListSync.link, UserAssignment.seen,
        ← Option.or_assoc]

section Again

variable {enrolled : Option Classification}

/-- A round over a settled row writes its times alone. -/
theorem applyItem_of_settled {s : ListSync} {item : FetchedAssignment} {row : UserAssignment}
    (hrow : s.rows.get item.key = some row) (hsettled : Settled enrolled item row) (now : Time) :
    s.applyItem now enrolled item =
      { s with
        rows := s.rows.modify fun key row => if key = item.key then row.seen now else row } := by
  have hmem : item.key ∈ s.rows.keys := (s.rows.mem_keys_iff item.key).mpr (hrow ▸ rfl)
  have hrows : s.rows.set item.key (row.seen now) =
      s.rows.modify fun key row => if key = item.key then row.seen now else row := by
    rw [Table.set, Table.upsert, dif_pos hmem]
    refine Table.modify_congr fun key stored hstored => ?_
    split
    next heq =>
      subst heq
      obtain rfl := Option.some.inj (hrow.symm.trans hstored)
      rfl
    next => rfl
  have hdue : dueLater row.dueAt (row.seen now).dueAt = false := dueLater_self _
  unfold ListSync.applyItem
  rw [adopt_of_kept (.inl (hrow ▸ Option.some_ne_none row))]
  dsimp only
  rw [hrow]
  dsimp only
  rw [hsettled now, hdue, hrows]
  simp

/-- A loop over settled rows writes the times of the rows it fetched alone. -/
theorem fetchLoop_of_settled {fetched : List FetchedAssignment}
    (hdistinct : (fetched.map (·.moodleAssignmentId)).Nodup) (now : Time) (s : ListSync)
    (hsettled : ∀ item ∈ fetched, ∃ row, s.rows.get item.key = some row ∧
      Settled enrolled item row) :
    fetched.foldl (ListSync.applyItem now enrolled) s =
      { s with
        rows := s.rows.modify fun key row =>
          if ∃ item ∈ fetched, item.key = key then row.seen now else row } := by
  induction fetched generalizing s with
  | nil => simp [Table.modify]
  | cons item rest ih =>
    rw [List.map_cons, List.nodup_cons] at hdistinct
    obtain ⟨hfresh, hrest⟩ := hdistinct
    obtain ⟨⟨row, hrow, hitem⟩, hlater⟩ := List.forall_mem_cons.mp hsettled
    have hother : ∀ later ∈ rest, later.key ≠ item.key := fun later hmem heq =>
      hfresh (List.mem_map.mpr ⟨later, hmem, congrArg AssignmentKey.moodleAssignmentId heq⟩)
    rw [List.foldl_cons, applyItem_of_settled hrow hitem now, ih hrest]
    · simp only [Table.modify, List.map_map]
      congr 2
      refine List.map_congr_left fun r _ => ?_
      show (r.1, _) = (r.1, _)
      by_cases hkey : r.1 = item.key
      · have hnot : ¬ ∃ later ∈ rest, later.key = item.key := by
          rintro ⟨later, hmem, heq⟩
          exact hother later hmem heq
        simp [hkey, hnot]
      · simp [hkey, Ne.symm hkey]
    · intro later hmem
      obtain ⟨stored, hstored, hsame⟩ := hlater later hmem
      refine ⟨stored, ?_, hsame⟩
      rw [Table.get_modify, hstored, Option.map_some, if_neg (hother later hmem)]

end Again

/-! ### The mirror law -/

/-- Two rows are one of the database, with the same submission. -/
structure UserAssignment.SameWork (row row' : UserAssignment) : Prop where
  id : row'.id = row.id
  isSubmitted : row'.providerIsSubmitted = row.providerIsSubmitted
  submittedAt : row'.providerSubmittedAt = row.providerSubmittedAt
  grade : row'.providerGrade = row.providerGrade

theorem UserAssignment.SameWork.refl (row : UserAssignment) : row.SameWork row :=
  ⟨rfl, rfl, rfl, rfl⟩

/-- A fetch does not write the submission of a row it adopts. -/
theorem adoptedRow_sameWork (item : FetchedAssignment) (row : UserAssignment) :
    row.SameWork (adoptedRow item row) := by
  unfold adoptedRow
  split
  · exact ⟨rfl, rfl, rfl, rfl⟩
  · exact .refl row

/-- Nor of one it updates. -/
theorem writtenRow_sameWork (now : Time) (enrolled : Option Classification) (nextId : Nat)
    (item : FetchedAssignment) (row : UserAssignment) :
    row.SameWork (writtenRow now enrolled nextId item (some row)) := by
  cases enrolled <;> exact ⟨rfl, rfl, rfl, rfl⟩

section Mirror

variable {now : Time} {fetched : List FetchedAssignment} {enrolled : Option Classification}
  {rows : Assignments} {nextId : Nat}

/-- A fetched key holds what its round made of the rows before. -/
theorem applied_get_of_distinct (hdistinct : (fetched.map (·.moodleAssignmentId)).Nodup)
    {item : FetchedAssignment} (hmem : item ∈ fetched) :
    ∃ id, (applyFetchedAssignments now fetched enrolled [] rows nextId).rows.get item.key =
      some (writtenRow now enrolled id item (takenRow rows item)) := by
  rw [applied_get_of_mem hmem]
  exact fetchLoop_get_of_mem hdistinct hmem ⟨rows, nextId, [], []⟩

/-- The live rows are exactly the fetched ones. -/
theorem applied_live_iff (hdistinct : (fetched.map (·.moodleAssignmentId)).Nodup)
    (key : AssignmentKey) :
    (∃ row, (applyFetchedAssignments now fetched enrolled [] rows nextId).rows.get key = some row ∧
      row.deletedAt = none) ↔ ∃ item ∈ fetched, item.key = key := by
  constructor
  · rintro ⟨row, hrow, hlive⟩
    by_contra hnot
    have hkey : ∀ item ∈ fetched, item.key ≠ key := fun item hmem heq => hnot ⟨item, hmem, heq⟩
    rw [applied_get_of_notMem hkey] at hrow
    split at hrow
    · cases hrow
    · obtain ⟨old, _, rfl⟩ := Option.map_eq_some_iff.mp hrow
      split at hlive
      · cases hlive
      next hkept => exact hkept ((leftOut_iff key old).mpr ⟨hkey, hlive, fun h => h.1 rfl⟩)
  · rintro ⟨item, hmem, rfl⟩
    obtain ⟨id, hget⟩ := applied_get_of_distinct hdistinct hmem
    exact ⟨_, hget, writtenRow_deletedAt ..⟩

/-- An adopted placeholder is the row of the assignment it stood for. -/
theorem applied_adopted (hdistinct : (fetched.map (·.moodleAssignmentId)).Nodup)
    {item : FetchedAssignment} (hmem : item ∈ fetched) (hkey : rows.get item.key = none)
    {row : UserAssignment} (hrow : rows.get item.placeholderKey = some row) :
    ∃ row', (applyFetchedAssignments now fetched enrolled [] rows nextId).rows.get item.key =
      some row' ∧ row.SameWork row' := by
  obtain ⟨id, hget⟩ := applied_get_of_distinct hdistinct hmem
  have htaken : takenRow rows item = some (adoptedRow item row) := by
    rw [takenRow, hkey, hrow, Option.none_or, Option.map_some]
  refine ⟨_, hget, ?_⟩
  rw [htaken]
  have hadopted := adoptedRow_sameWork item row
  have hwritten := writtenRow_sameWork now enrolled id item (adoptedRow item row)
  exact ⟨hwritten.id.trans hadopted.id, hwritten.isSubmitted.trans hadopted.isSubmitted,
    hwritten.submittedAt.trans hadopted.submittedAt, hwritten.grade.trans hadopted.grade⟩

/-- Every row is still there, with its submission, under the assignment it is of. -/
theorem applied_keeps (hdistinct : (fetched.map (·.moodleAssignmentId)).Nodup)
    {key : AssignmentKey} {row : UserAssignment} (hrow : rows.get key = some row) :
    ∃ key' row', (applyFetchedAssignments now fetched enrolled [] rows nextId).rows.get key' =
      some row' ∧ key'.moodleAssignmentId = key.moodleAssignmentId ∧ row.SameWork row' := by
  by_cases hfetched : ∃ item ∈ fetched, item.key = key
  · obtain ⟨item, hmem, rfl⟩ := hfetched
    obtain ⟨id, hget⟩ := applied_get_of_distinct hdistinct hmem
    refine ⟨item.key, _, hget, rfl, ?_⟩
    have htaken : takenRow rows item = some row := by rw [takenRow, hrow, Option.some_or]
    rw [htaken]
    exact writtenRow_sameWork ..
  · have hkey : ∀ item ∈ fetched, item.key ≠ key := fun item hmem heq =>
      hfetched ⟨item, hmem, heq⟩
    by_cases hadopts : ∃ item ∈ fetched, item.Adopts rows key
    · obtain ⟨item, hmem, rfl, hnone⟩ := hadopts
      obtain ⟨row', hget, hsame⟩ := applied_adopted hdistinct hmem hnone hrow
      exact ⟨item.key, row', hget, rfl, hsame⟩
    · have hget : (applyFetchedAssignments now fetched enrolled [] rows nextId).rows.get key =
          some (if ListSync.leftOut fetched [] key row then { row with deletedAt := some now }
            else row) := by
        rw [applied_get_of_notMem hkey, if_neg hadopts, hrow, Option.map_some]
      refine ⟨key, _, hget, rfl, ?_⟩
      split
      · exact ⟨rfl, rfl, rfl, rfl⟩
      · exact .refl row

/-- The same answer once more has nothing to say but that it saw its rows. -/
theorem applied_again (hdistinct : (fetched.map (·.moodleAssignmentId)).Nodup) (later : Time) :
    applyFetchedAssignments later fetched enrolled []
        (applyFetchedAssignments now fetched enrolled [] rows nextId).rows
        (applyFetchedAssignments now fetched enrolled [] rows nextId).nextId =
      { rows := (applyFetchedAssignments now fetched enrolled [] rows nextId).rows.modify
          fun key row => if ∃ item ∈ fetched, item.key = key then row.seen later else row
        nextId := (applyFetchedAssignments now fetched enrolled [] rows nextId).nextId
        changes := []
        recheckIds := [] } := by
  have hlive : ∀ key, (∃ row,
      (applyFetchedAssignments now fetched enrolled [] rows nextId).rows.get key = some row ∧
        row.deletedAt = none) ↔ _ := applied_live_iff hdistinct
  have hsettled : ∀ item ∈ fetched, ∃ row,
      (applyFetchedAssignments now fetched enrolled [] rows nextId).rows.get item.key = some row ∧
        Settled enrolled item row := by
    intro item hmem
    obtain ⟨id, hget⟩ := applied_get_of_distinct hdistinct hmem
    exact ⟨_, hget, settled_writtenRow now enrolled id item (takenRow rows item)⟩
  generalize applyFetchedAssignments now fetched enrolled [] rows nextId = first at *
  have hkept : ∀ key row, first.rows.get key = some row →
      ListSync.leftOut fetched [] key row = false := by
    intro key row hrow
    rw [Bool.eq_false_iff, ne_eq, leftOut_iff]
    rintro ⟨hkey, hdeleted, _⟩
    obtain ⟨item, hmem, heq⟩ := (hlive key).mp ⟨row, hrow, hdeleted⟩
    exact hkey item hmem heq
  unfold applyFetchedAssignments
  rw [fetchLoop_of_settled hdistinct later ⟨first.rows, first.nextId, [], []⟩ hsettled]
  -- The rows are as deleted as they were, so nothing is left to delete.
  generalize htouched : first.rows.modify (fun key row =>
    if ∃ item ∈ fetched, item.key = key then row.seen later else row) = touched
  have hout : ∀ r ∈ touched.rows, ListSync.leftOut fetched [] r.1 r.2 = false := by
    intro r hr
    have hget := (touched.get_eq_some_iff r.1 r.2).mpr hr
    rw [← htouched, Table.get_modify] at hget
    obtain ⟨row, hrow, hrew⟩ := Option.map_eq_some_iff.mp hget
    have hsame : r.2.deletedAt = row.deletedAt := by
      rw [← hrew]
      split <;> rfl
    have hrow := hkept r.1 row hrow
    unfold ListSync.leftOut at hrow ⊢
    rwa [hsame]
  have hselect : touched.select (ListSync.leftOut fetched []) = [] := by
    refine List.filter_eq_nil_iff.mpr fun r hr => ?_
    rw [hout r hr]
    exact Bool.false_ne_true
  have hmodify : (touched.modify fun key row =>
      if ListSync.leftOut fetched [] key row then { row with deletedAt := some later } else row) =
        touched := by
    rw [Table.modify_eq_self_iff]
    intro r hr
    rw [hout r hr]
    exact if_neg Bool.false_ne_true
  unfold ListSync.deleteLeftOut
  dsimp only
  rw [hselect, hmodify]
  rfl

end Mirror

end TigerDuck.SyncJobs
