import TigerDuck.Sync.PlaceholderMerge

/-!
# What the placeholder merge changes

Each placeholder has one server row and each server row at most one placeholder, so every statement
of the merge has one row to read for each row it writes, and what it reads no statement before it
has changed. A second run finds the pairs it kept, with nothing left to fold.

The merge logs what it folds, merges and moves. It does not log what it deletes: a user whose live
placeholder only goes, or whose placeholder's override only loses to the server row's, gets another
`/sync/full` and no entry.

- `upgrade_again`: a second run changes nothing.
- `merges_well_iff`: when the merge does what its docstring says.
-/

namespace TigerDuck.Sync.PlaceholderMerge

open Relational Changelog
open SyncJobs (MoodleId ProviderFields)

/-! ### Pairs -/

section Pairs

variable {t : Tables}

theorem mem_serverRows_iff {userId : UserId} {moodleId : MoodleId} {id : Nat} {s : AssignmentRow} :
    (id, s) ∈ t.serverRows userId moodleId ↔ t.assignments.get id = some s ∧
      s.userId = userId ∧ s.moodleAssignmentId = moodleId ∧ s.moodleCourseId ≠ 0 := by
  simp [Tables.serverRows, Table.mem_select_iff, and_assoc]

/-- The server row of a placeholder is one of its assignment. -/
theorem serverRow_spec {p : AssignmentRow} {id : Nat} (h : t.serverRow p = some id) :
    ∃ s, t.assignments.get id = some s ∧ s.userId = p.userId ∧
      s.moodleAssignmentId = p.moodleAssignmentId ∧ s.moodleCourseId ≠ 0 := by
  have hmem : id ∈ (t.serverRows p.userId p.moodleAssignmentId).map (·.1) := by
    rcases Option.or_eq_some_iff.mp h with h | ⟨-, h⟩
    · obtain ⟨⟨_, s⟩, hs, rfl⟩ := List.mem_map.mp (List.min?_mem h)
      exact List.mem_map_of_mem (List.mem_filter.mp hs).1
    · exact List.min?_mem h
  obtain ⟨⟨_, s⟩, hs, rfl⟩ := List.mem_map.mp hmem
  exact ⟨s, mem_serverRows_iff.mp hs⟩

theorem mem_pairs_iff {pair : Pair} :
    pair ∈ t.pairs ↔ ∃ p, t.assignments.get pair.placeholderId = some p ∧ p.moodleCourseId = 0 ∧
      t.serverRow p = some pair.serverId ∧
        pair.keep = t.keep p pair.serverId (t.overrideOf pair.placeholderId) := by
  obtain ⟨pid, sid, keep⟩ := pair
  simp only [Tables.pairs, List.mem_filterMap, Prod.exists, ← Table.get_eq_some_iff]
  constructor
  · rintro ⟨id, p, hp, h⟩
    split at h
    next hcourse =>
      obtain ⟨s, hs, heq⟩ := Option.map_eq_some_iff.mp h
      obtain ⟨rfl, rfl, rfl⟩ := Pair.mk.inj heq
      exact ⟨p, hp, hcourse, hs, rfl⟩
    next => cases h
  · rintro ⟨p, hp, hcourse, hs, rfl⟩
    exact ⟨pid, p, hp, by rw [if_pos hcourse, hs]; rfl⟩

/-- A placeholder's id is no server row's. -/
theorem placeholder_ne_server {pair pair' : Pair} (h : pair ∈ t.pairs) (h' : pair' ∈ t.pairs) :
    pair.placeholderId ≠ pair'.serverId := by
  obtain ⟨p, hp, hcourse, -⟩ := mem_pairs_iff.mp h
  obtain ⟨p', -, -, hs, -⟩ := mem_pairs_iff.mp h'
  obtain ⟨s, hs, -, -, hserver⟩ := serverRow_spec hs
  intro heq
  rw [heq, hs] at hp
  obtain rfl := Option.some.inj hp
  exact hserver hcourse

/-- A placeholder is in one pair. -/
theorem eq_of_placeholder {pair pair' : Pair} (h : pair ∈ t.pairs) (h' : pair' ∈ t.pairs)
    (heq : pair.placeholderId = pair'.placeholderId) : pair = pair' := by
  obtain ⟨pid, sid, keep⟩ := pair
  obtain ⟨pid', sid', keep'⟩ := pair'
  obtain ⟨p, hp, -, hs, hkeep⟩ := mem_pairs_iff.mp h
  obtain ⟨p', hp', -, hs', hkeep'⟩ := mem_pairs_iff.mp h'
  dsimp only at *
  subst heq
  obtain rfl : p = p' := Option.some.inj (hp.symm.trans hp')
  obtain rfl : sid = sid' := Option.some.inj (hs.symm.trans hs')
  rw [hkeep, hkeep']

/-- A server row is in one pair: its assignment has one placeholder. -/
theorem eq_of_server (hc : Constraints t) {pair pair' : Pair} (h : pair ∈ t.pairs)
    (h' : pair' ∈ t.pairs) (heq : pair.serverId = pair'.serverId) : pair = pair' := by
  obtain ⟨p, hp, hcourse, hs, -⟩ := mem_pairs_iff.mp h
  obtain ⟨p', hp', hcourse', hs', -⟩ := mem_pairs_iff.mp h'
  obtain ⟨s, hs, huser, hmoodle, -⟩ := serverRow_spec hs
  obtain ⟨s', hs', huser', hmoodle', -⟩ := serverRow_spec hs'
  obtain rfl : s = s' := by
    rw [heq, hs'] at hs
    exact (Option.some.inj hs).symm
  exact eq_of_placeholder h h' (hc.assignment_key _ _ p p' hp hp' (huser.symm.trans huser')
    (hcourse.trans hcourse'.symm) (hmoodle.symm.trans hmoodle'))

theorem mem_of_pairOf {ps : List Pair} {id : Nat} {pair : Pair} (h : pairOf ps id = some pair) :
    pair ∈ ps ∧ pair.serverId = id :=
  ⟨List.mem_of_find?_eq_some h, by simpa using List.find?_some h⟩

theorem pairOf_server (hc : Constraints t) {pair : Pair} (h : pair ∈ t.pairs) :
    pairOf t.pairs pair.serverId = some pair := by
  obtain ⟨pair', hfound⟩ : ∃ pair', pairOf t.pairs pair.serverId = some pair' :=
    Option.isSome_iff_exists.mp (List.find?_isSome.mpr ⟨pair, h, by simp⟩)
  obtain ⟨h', heq⟩ := mem_of_pairOf hfound
  rw [hfound, eq_of_server hc h' h heq]

theorem pairOf_placeholder {pair : Pair} (h : pair ∈ t.pairs) :
    pairOf t.pairs pair.placeholderId = none := by
  rw [Option.eq_none_iff_forall_ne_some]
  intro pair' hfound
  obtain ⟨h', heq⟩ := mem_of_pairOf hfound
  exact placeholder_ne_server h h' heq.symm

/-- The pair of a placeholder. -/
theorem find_placeholder {pair : Pair} (h : pair ∈ t.pairs) :
    t.pairs.find? (·.placeholderId = pair.placeholderId) = some pair := by
  obtain ⟨pair', hfound⟩ : ∃ pair',
      t.pairs.find? (·.placeholderId = pair.placeholderId) = some pair' :=
    Option.isSome_iff_exists.mp (List.find?_isSome.mpr ⟨pair, h, by simp⟩)
  have heq : pair'.placeholderId = pair.placeholderId := by simpa using List.find?_some hfound
  rw [hfound, eq_of_placeholder (List.mem_of_find?_eq_some hfound) h heq]

theorem mem_of_find_placeholder {id : Nat} {pair : Pair}
    (h : t.pairs.find? (·.placeholderId = id) = some pair) :
    pair ∈ t.pairs ∧ pair.placeholderId = id :=
  ⟨List.mem_of_find?_eq_some h, by simpa using List.find?_some h⟩

theorem drops_iff {id : Nat} :
    drops t.pairs id = true ↔ ∃ pair ∈ t.pairs, pair.placeholderId = id ∧ pair.keep = false := by
  simp [drops]

theorem drops_placeholder {pair : Pair} (h : pair ∈ t.pairs) :
    drops t.pairs pair.placeholderId = !pair.keep := by
  rw [Bool.eq_iff_iff, drops_iff, Bool.not_eq_true']
  constructor
  · rintro ⟨pair', h', heq, hkeep⟩
    rwa [eq_of_placeholder h h' heq.symm]
  · exact fun hkeep => ⟨pair, h, rfl, hkeep⟩

/-- What the merge deletes is under course id 0. -/
theorem drops_of_course {id : Nat} {s : AssignmentRow} (h : t.assignments.get id = some s)
    (hcourse : s.moodleCourseId ≠ 0) : drops t.pairs id = false := by
  rw [Bool.eq_false_iff, ne_eq, drops_iff]
  rintro ⟨pair, hpair, rfl, -⟩
  obtain ⟨p, hp, hzero, -⟩ := mem_pairs_iff.mp hpair
  obtain rfl := Option.some.inj (h.symm.trans hp)
  exact hcourse hzero

end Pairs

/-! ### Overrides by assignment -/

section Overrides

variable {t : Tables}

theorem overrideOf_mem {id : Nat} {o : OverrideRow} (h : t.overrideOf id = some o) :
    ∃ oid, t.overrides.get oid = some o ∧ o.userAssignmentId = id := by
  obtain ⟨⟨oid, _⟩, hfound, rfl⟩ := Option.map_eq_some_iff.mp h
  exact ⟨oid, (Table.get_eq_some_iff _ _ _).mpr (List.mem_of_find?_eq_some hfound),
    by simpa using List.find?_some hfound⟩

theorem overrideOf_of_mem (hc : Constraints t) {oid : Nat} {o : OverrideRow}
    (h : t.overrides.get oid = some o) : t.overrideOf o.userAssignmentId = some o := by
  obtain ⟨o', ho'⟩ : ∃ o', t.overrideOf o.userAssignmentId = some o' := by
    rw [← Option.isSome_iff_exists, Tables.overrideOf, Option.isSome_map, List.find?_isSome]
    exact ⟨(oid, o), (Table.get_eq_some_iff _ _ _).mp h, by simp⟩
  obtain ⟨oid', hget, heq⟩ := overrideOf_mem ho'
  obtain rfl := hc.override_key oid' oid o' o hget h heq
  rw [ho', ← hget, h]

/-- An assignment without an override. -/
theorem overrideOf_eq_none_iff {id : Nat} :
    t.overrideOf id = none ↔ ∀ oid o, t.overrides.get oid = some o → o.userAssignmentId ≠ id := by
  rw [Tables.overrideOf, Option.map_eq_none_iff, List.find?_eq_none]
  simp [Table.get_eq_some_iff]

/-- An update that leaves the overrides on their assignments. -/
theorem overrideOf_update {f : OverrideRow → Option OverrideRow}
    (hf : ∀ o o', f o = some o' → o'.userAssignmentId = o.userAssignmentId) (id : Nat) :
    ({ t with overrides := t.overrides.update fun _ => f } : Tables).overrideOf id =
      (t.overrideOf id).map fun o => (f o).getD o := by
  have hkey : ∀ o, ((f o).getD o).userAssignmentId = o.userAssignmentId := by
    intro o
    cases ho : f o with
    | none => rfl
    | some o' => exact hf o o' ho
  simp only [Tables.overrideOf, Table.update, Table.modify, List.find?_map, Option.map_map,
    Function.comp_def, hkey]

end Overrides

/-! ### The merged rows -/

section Rows

variable {t : Tables} (now : Time)

/-- The placeholder of a server row. -/
def placeholderOf (t : Tables) (id : Nat) : Option AssignmentRow :=
  (pairOf t.pairs id).bind fun pair => t.assignments.get pair.placeholderId

/-- An assignment after the folds. -/
def foldedRow (t : Tables) (id : Nat) (s : AssignmentRow) : AssignmentRow :=
  let s := ((placeholderOf t id).bind fun p => submitted now p s).getD s
  ((placeholderOf t id).bind fun p => graded now p s).getD s

/-- The placeholder's override that an override is merged with. -/
def rivalOf (t : Tables) (o : OverrideRow) : Option OverrideRow :=
  (pairOf t.pairs o.userAssignmentId).bind fun pair =>
    if pair.keep then none else t.overrideOf pair.placeholderId

/-- An override that goes to the server row. -/
def moved (t : Tables) (o : OverrideRow) : Option OverrideRow :=
  (t.pairs.find? (·.placeholderId = o.userAssignmentId)).bind fun pair =>
    if pair.keep || (t.overrideOf pair.serverId).isSome then none
    else some { o with userAssignmentId := pair.serverId }

/-- An override with the later mark and the later note. -/
def mergedRow (t : Tables) (o : OverrideRow) : OverrideRow :=
  let o := ((rivalOf t o).bind fun po => marked now po o).getD o
  ((rivalOf t o).bind fun po => noted now po o).getD o

/-- An override after the merges and the move. -/
def settledRow (t : Tables) (o : OverrideRow) : OverrideRow :=
  (moved t (mergedRow now t o)).getD (mergedRow now t o)

theorem submitted_keys {p s s' : AssignmentRow} (h : submitted now p s = some s') :
    s'.userId = s.userId ∧ s'.moodleCourseId = s.moodleCourseId ∧
      s'.moodleAssignmentId = s.moodleAssignmentId ∧ s'.deletedAt = s.deletedAt ∧
        s'.providerGrade = s.providerGrade := by
  unfold submitted at h
  split at h
  · obtain rfl := Option.some.inj h
    exact ⟨rfl, rfl, rfl, rfl, rfl⟩
  · cases h

theorem graded_keys {p s s' : AssignmentRow} (h : graded now p s = some s') :
    s'.userId = s.userId ∧ s'.moodleCourseId = s.moodleCourseId ∧
      s'.moodleAssignmentId = s.moodleAssignmentId ∧ s'.deletedAt = s.deletedAt := by
  unfold graded at h
  split at h
  · obtain rfl := Option.some.inj h
    exact ⟨rfl, rfl, rfl, rfl⟩
  · cases h

/-- The folds leave a row under its keys, live or deleted. -/
theorem foldedRow_keys (id : Nat) (s : AssignmentRow) :
    (foldedRow now t id s).userId = s.userId ∧
      (foldedRow now t id s).moodleCourseId = s.moodleCourseId ∧
      (foldedRow now t id s).moodleAssignmentId = s.moodleAssignmentId ∧
      (foldedRow now t id s).deletedAt = s.deletedAt := by
  unfold foldedRow
  cases placeholderOf t id with
  | none => exact ⟨rfl, rfl, rfl, rfl⟩
  | some p =>
    simp only [Option.bind_some]
    have hgraded : ∀ s : AssignmentRow, ((graded now p s).getD s).userId = s.userId ∧
        ((graded now p s).getD s).moodleCourseId = s.moodleCourseId ∧
        ((graded now p s).getD s).moodleAssignmentId = s.moodleAssignmentId ∧
        ((graded now p s).getD s).deletedAt = s.deletedAt := by
      intro s
      cases h : graded now p s with
      | none => exact ⟨rfl, rfl, rfl, rfl⟩
      | some s' => exact graded_keys now h
    cases h : submitted now p s with
    | none => exact hgraded s
    | some s' =>
      obtain ⟨huser, hcourse, hmoodle, hdeleted, -⟩ := submitted_keys now h
      obtain ⟨huser', hcourse', hmoodle', hdeleted'⟩ := hgraded s'
      exact ⟨huser'.trans huser, hcourse'.trans hcourse, hmoodle'.trans hmoodle,
        hdeleted'.trans hdeleted⟩

/-- Only a server row is folded into. -/
theorem foldedRow_of_none {id : Nat} (h : placeholderOf t id = none) (s : AssignmentRow) :
    foldedRow now t id s = s := by
  simp [foldedRow, h]

theorem placeholderOf_placeholder {pair : Pair} (h : pair ∈ t.pairs) :
    placeholderOf t pair.placeholderId = none := by
  rw [placeholderOf, pairOf_placeholder h, Option.bind_none]

theorem marked_keys {po so so' : OverrideRow} (h : marked now po so = some so') :
    so'.userId = so.userId ∧ so'.userAssignmentId = so.userAssignmentId ∧ so'.note = so.note := by
  unfold marked at h
  split at h
  · obtain rfl := Option.some.inj h
    exact ⟨rfl, rfl, rfl⟩
  · cases h

theorem noted_keys {po so so' : OverrideRow} (h : noted now po so = some so') :
    so'.userId = so.userId ∧ so'.userAssignmentId = so.userAssignmentId ∧
      so'.localStatus = so.localStatus := by
  unfold noted at h
  split at h
  · obtain rfl := Option.some.inj h
    exact ⟨rfl, rfl, rfl⟩
  · cases h

theorem rivalOf_congr {o o' : OverrideRow} (h : o'.userAssignmentId = o.userAssignmentId) :
    rivalOf t o' = rivalOf t o := by
  rw [rivalOf, rivalOf, h]

theorem rivalOf_placeholder {pair : Pair} (h : pair ∈ t.pairs) {o : OverrideRow}
    (ho : o.userAssignmentId = pair.placeholderId) : rivalOf t o = none := by
  rw [rivalOf, ho, pairOf_placeholder h, Option.bind_none]

end Rows

/-! ### The statements on the rows -/

section Statements

variable {t : Tables} (now : Time)

theorem overrideOf_congr {t' : Tables} (h : t'.overrides = t.overrides) (id : Nat) :
    t'.overrideOf id = t.overrideOf id := by
  rw [Tables.overrideOf, h, Tables.overrideOf]

theorem userId_submitted (id : Nat) (s : AssignmentRow) :
    (((placeholderOf t id).bind fun p => submitted now p s).getD s).userId = s.userId := by
  cases h : (placeholderOf t id).bind fun p => submitted now p s with
  | none => rfl
  | some s' =>
    obtain ⟨p, -, h⟩ := Option.bind_eq_some_iff.mp h
    exact (submitted_keys now h).1

theorem markedRow_keys (o : OverrideRow) :
    (((rivalOf t o).bind fun po => marked now po o).getD o).userId = o.userId ∧
      (((rivalOf t o).bind fun po => marked now po o).getD o).userAssignmentId =
        o.userAssignmentId := by
  cases h : (rivalOf t o).bind fun po => marked now po o with
  | none => exact ⟨rfl, rfl⟩
  | some o' =>
    obtain ⟨po, -, h⟩ := Option.bind_eq_some_iff.mp h
    exact ⟨(marked_keys now h).1, (marked_keys now h).2.1⟩

theorem notedRow_keys (o : OverrideRow) :
    (((rivalOf t o).bind fun po => noted now po o).getD o).userId = o.userId ∧
      (((rivalOf t o).bind fun po => noted now po o).getD o).userAssignmentId =
        o.userAssignmentId := by
  cases h : (rivalOf t o).bind fun po => noted now po o with
  | none => exact ⟨rfl, rfl⟩
  | some o' =>
    obtain ⟨po, -, h⟩ := Option.bind_eq_some_iff.mp h
    exact ⟨(noted_keys now h).1, (noted_keys now h).2.1⟩

/-- The merges leave an override on its assignment. -/
theorem mergedRow_keys (o : OverrideRow) : (mergedRow now t o).userId = o.userId ∧
    (mergedRow now t o).userAssignmentId = o.userAssignmentId :=
  ⟨(notedRow_keys now _).1.trans (markedRow_keys now o).1,
    (notedRow_keys now _).2.trans (markedRow_keys now o).2⟩

theorem foldSubmission_eq : foldSubmission now t.pairs ⟨t, []⟩ =
    (⟨t, []⟩ : Merge).updateAssignments fun id s =>
      (placeholderOf t id).bind fun p => submitted now p s := by
  simp only [foldSubmission, placeholderOf, Option.bind_assoc]

/-- A placeholder is no server row, so the first fold has left the rows the second one reads. -/
theorem foldGrade_eq {m : Merge} (hm : m.tables.assignments = t.assignments.update fun id s =>
      (placeholderOf t id).bind fun p => submitted now p s) :
    foldGrade now t.pairs m =
      m.updateAssignments fun id s => (placeholderOf t id).bind fun p => graded now p s := by
  have hread : ∀ id s, ((pairOf t.pairs id).bind fun pair =>
      (m.tables.assignments.get pair.placeholderId).bind fun p => graded now p s) =
        (placeholderOf t id).bind fun p => graded now p s := by
    intro id s
    rw [placeholderOf, Option.bind_assoc]
    cases hpair : pairOf t.pairs id with
    | none => rfl
    | some pair =>
      have hmem := (mem_of_pairOf hpair).1
      simp [hm, placeholderOf_placeholder hmem]
  simp only [foldGrade, hread]

/-- Reading the rival's row and then its override, or the rival's override at once. -/
theorem bind_rivalOf {t' : Tables} (so : OverrideRow) (f : OverrideRow → Option OverrideRow)
    (h : ∀ pair ∈ t.pairs, t'.overrideOf pair.placeholderId = t.overrideOf pair.placeholderId) :
    ((pairOf t.pairs so.userAssignmentId).bind fun pair =>
      if pair.keep then none else (t'.overrideOf pair.placeholderId).bind f) =
    (rivalOf t so).bind f := by
  rw [rivalOf, Option.bind_assoc]
  cases hpair : pairOf t.pairs so.userAssignmentId with
  | none => rfl
  | some pair =>
    simp only [Option.bind_some]
    rw [h pair (mem_of_pairOf hpair).1]
    split <;> rfl

theorem mergeMark_eq {m : Merge} (hm : m.tables.overrides = t.overrides) :
    mergeMark now t.pairs m =
      m.updateOverrides fun so => (rivalOf t so).bind fun po => marked now po so := by
  simp only [mergeMark, bind_rivalOf _ _ fun pair _ => overrideOf_congr hm pair.placeholderId]

/-- The marks were merged on the server rows, so the notes are read as they were. -/
theorem mergeNote_eq {m : Merge} (hm : m.tables.overrides = t.overrides.update fun _ so =>
      (rivalOf t so).bind fun po => marked now po so) :
    mergeNote now t.pairs m =
      m.updateOverrides fun so => (rivalOf t so).bind fun po => noted now po so := by
  have hread : ∀ pair ∈ t.pairs,
      m.tables.overrideOf pair.placeholderId = t.overrideOf pair.placeholderId := by
    intro pair hpair
    have hkeys : ∀ o o', ((rivalOf t o).bind fun po => marked now po o) = some o' →
        o'.userAssignmentId = o.userAssignmentId := by
      intro o o' h
      obtain ⟨po, -, h⟩ := Option.bind_eq_some_iff.mp h
      exact (marked_keys now h).2.1
    have hof := overrideOf_update (t := t) hkeys pair.placeholderId
    rw [← overrideOf_congr hm] at hof
    rw [hof]
    cases ho : t.overrideOf pair.placeholderId with
    | none => rfl
    | some o =>
      obtain ⟨-, -, hkey⟩ := overrideOf_mem ho
      simp [rivalOf_placeholder hpair hkey]
  simp only [mergeNote, bind_rivalOf _ _ hread]

/-- The move finds the server rows without an override, as they were. -/
theorem moveOverride_eq {m : Merge}
    (hm : m.tables.overrides = t.overrides.modify fun _ => mergedRow now t) :
    moveOverride t.pairs m = m.updateOverrides (moved t) := by
  have hread : ∀ id, (m.tables.overrideOf id).isSome = (t.overrideOf id).isSome := by
    intro id
    simp only [Tables.overrideOf, hm, Table.modify, List.find?_map, Option.isSome_map,
      Function.comp_def, (mergedRow_keys now _).2]
  simp only [moveOverride, hread]
  rfl

/-- The statements before the log, each on the rows as they were before the merge. -/
theorem merged_eq (now : Time) (t : Tables) :
    merged now t = dropPlaceholders t.pairs
      ((((((⟨t, []⟩ : Merge).updateAssignments fun id s =>
        (placeholderOf t id).bind fun p => submitted now p s).updateAssignments fun id s =>
        (placeholderOf t id).bind fun p => graded now p s).updateOverrides fun so =>
        (rivalOf t so).bind fun po => marked now po so).updateOverrides fun so =>
        (rivalOf t so).bind fun po => noted now po so).updateOverrides (moved t)) := by
  simp only [merged]
  rw [foldSubmission_eq now, foldGrade_eq (t := t) now rfl, mergeMark_eq (t := t) now rfl,
    mergeNote_eq (t := t) now rfl, moveOverride_eq (t := t) now]
  simp only [Merge.updateOverrides, Merge.updateAssignments, Table.update, Table.modify_modify]
  rfl

/-- What they make of the two tables. -/
theorem merged_tables (now : Time) (t : Tables) :
    (merged now t).tables =
      { t with
        assignments := (t.assignments.modify (foldedRow now t)).deleteWhere
          fun id _ => drops t.pairs id
        overrides := (t.overrides.modify fun _ => settledRow now t).deleteWhere
          fun _ o => drops t.pairs o.userAssignmentId } := by
  rw [merged_eq]
  simp only [dropPlaceholders, Merge.updateOverrides, Merge.updateAssignments, Table.update,
    Table.modify_modify]
  rfl

end Statements

/-! ### The database after the merge -/

section After

variable {t : Tables} (now : Time)

@[simp]
theorem get_assignments (id : Nat) : (upgrade now t).assignments.get id =
    ((t.assignments.get id).map (foldedRow now t id)).filter fun _ => !drops t.pairs id := by
  simp only [upgrade, logChanges, merged_tables, Table.get_deleteWhere, Table.get_modify]

@[simp]
theorem get_overrides (id : Nat) : (upgrade now t).overrides.get id =
    ((t.overrides.get id).map (settledRow now t)).filter
      fun o => !drops t.pairs o.userAssignmentId := by
  simp only [upgrade, logChanges, merged_tables, Table.get_deleteWhere, Table.get_modify]

theorem get_assignments_of_kept {id : Nat} (h : drops t.pairs id = false) :
    (upgrade now t).assignments.get id = (t.assignments.get id).map (foldedRow now t id) := by
  rw [get_assignments, h]
  cases t.assignments.get id <;> rfl

/-- An override moves from a placeholder to a server row that has none. -/
theorem moved_eq_some_iff {o o' : OverrideRow} :
    moved t o = some o' ↔ ∃ pair ∈ t.pairs, o.userAssignmentId = pair.placeholderId ∧
      pair.keep = false ∧ t.overrideOf pair.serverId = none ∧
        o' = { o with userAssignmentId := pair.serverId } := by
  rw [moved, Option.bind_eq_some_iff]
  constructor
  · rintro ⟨pair, hfound, h⟩
    obtain ⟨hpair, hkey⟩ := mem_of_find_placeholder hfound
    split at h
    next => cases h
    next hcond =>
      obtain ⟨hkeep, hnone⟩ : pair.keep = false ∧ t.overrideOf pair.serverId = none := by
        simpa using hcond
      exact ⟨pair, hpair, hkey.symm, hkeep, hnone, (Option.some.inj h).symm⟩
  · rintro ⟨pair, hpair, hkey, hkeep, hnone, rfl⟩
    exact ⟨pair, by rw [hkey]; exact find_placeholder hpair, by simp [hkeep, hnone]⟩

/-- A moved override is otherwise as it was. -/
theorem settledRow_of_moved {o : OverrideRow} {pair : Pair} (hpair : pair ∈ t.pairs)
    (hkey : o.userAssignmentId = pair.placeholderId) (hkeep : pair.keep = false)
    (hnone : t.overrideOf pair.serverId = none) :
    settledRow now t o = { o with userAssignmentId := pair.serverId } := by
  have hmerged : mergedRow now t o = o := by simp [mergedRow, rivalOf_placeholder hpair hkey]
  rw [settledRow, hmerged, moved_eq_some_iff.mpr ⟨pair, hpair, hkey, hkeep, hnone, rfl⟩,
    Option.getD_some]

theorem settledRow_of_not_moved {o : OverrideRow} (h : moved t o = none) :
    settledRow now t o = mergedRow now t o := by
  rw [settledRow, Option.getD_eq_iff]
  refine Or.inr ⟨?_, rfl⟩
  rw [Option.eq_none_iff_forall_ne_some] at h ⊢
  intro o' hmoved
  obtain ⟨pair, hpair, hkey, hkeep, hnone, -⟩ := moved_eq_some_iff.mp hmoved
  exact h _ (moved_eq_some_iff.mpr
    ⟨pair, hpair, (mergedRow_keys now o).2.symm.trans hkey, hkeep, hnone, rfl⟩)

/-- What an override is on, and whose it is, after the merge. -/
theorem settledRow_cases (o : OverrideRow) :
    (settledRow now t o).userId = o.userId ∧
      ((moved t o = none ∧ (settledRow now t o).userAssignmentId = o.userAssignmentId) ∨
        ∃ pair ∈ t.pairs, o.userAssignmentId = pair.placeholderId ∧ pair.keep = false ∧
          t.overrideOf pair.serverId = none ∧
            (settledRow now t o).userAssignmentId = pair.serverId) := by
  cases h : moved t o with
  | none =>
    rw [settledRow_of_not_moved now h]
    exact ⟨(mergedRow_keys now o).1, Or.inl ⟨rfl, (mergedRow_keys now o).2⟩⟩
  | some o' =>
    obtain ⟨pair, hpair, hkey, hkeep, hnone, -⟩ := moved_eq_some_iff.mp h
    rw [settledRow_of_moved now hpair hkey hkeep hnone]
    exact ⟨rfl, Or.inr ⟨pair, hpair, hkey, hkeep, hnone, rfl⟩⟩

theorem get_overrides_eq_some_iff {id : Nat} {o' : OverrideRow} :
    (upgrade now t).overrides.get id = some o' ↔ ∃ o, t.overrides.get id = some o ∧
      o' = settledRow now t o ∧ drops t.pairs o'.userAssignmentId = false := by
  rw [get_overrides, Option.filter_eq_some_iff, Option.map_eq_some_iff, Bool.not_eq_true']
  constructor
  · rintro ⟨⟨o, ho, rfl⟩, hkept⟩
    exact ⟨o, ho, rfl, hkept⟩
  · rintro ⟨o, ho, rfl, hkept⟩
    exact ⟨⟨o, ho, rfl⟩, hkept⟩

/-- The merge keeps the constraints. -/
theorem upgrade_constraints (hc : Constraints t) : Constraints (upgrade now t) where
  assignment_key := by
    intro i j a b ha hb huser hcourse hmoodle
    rw [get_assignments, Option.filter_eq_some_iff, Option.map_eq_some_iff] at ha hb
    obtain ⟨⟨a', ha, rfl⟩, -⟩ := ha
    obtain ⟨⟨b', hb, rfl⟩, -⟩ := hb
    obtain ⟨huser₁, hcourse₁, hmoodle₁, -⟩ := foldedRow_keys (t := t) now i a'
    obtain ⟨huser₂, hcourse₂, hmoodle₂, -⟩ := foldedRow_keys (t := t) now j b'
    exact hc.assignment_key i j a' b' ha hb (huser₁.symm.trans (huser.trans huser₂))
      (hcourse₁.symm.trans (hcourse.trans hcourse₂)) (hmoodle₁.symm.trans (hmoodle.trans hmoodle₂))
  override_key := by
    intro i j o₁ o₂ h₁ h₂ hkey
    obtain ⟨o, ho, rfl, -⟩ := (get_overrides_eq_some_iff now).mp h₁
    obtain ⟨o', ho', rfl, -⟩ := (get_overrides_eq_some_iff now).mp h₂
    -- Two moves go to different server rows, and none to a row that has an override.
    rcases (settledRow_cases now o).2 with ⟨-, hk⟩ | ⟨pair, hpair, hp, -, hnone, hk⟩ <;>
      rcases (settledRow_cases now o').2 with ⟨-, hk'⟩ | ⟨pair', hpair', hp', -, hnone', hk'⟩
    · exact hc.override_key i j o o' ho ho' (hk.symm.trans (hkey.trans hk'))
    · exact absurd (hk.symm.trans (hkey.trans hk')) (overrideOf_eq_none_iff.mp hnone' i o ho)
    · exact absurd (hk'.symm.trans (hkey.symm.trans hk)) (overrideOf_eq_none_iff.mp hnone j o' ho')
    · obtain rfl := eq_of_server hc hpair hpair' (hk.symm.trans (hkey.trans hk'))
      exact hc.override_key i j o o' ho ho' (hp.trans hp'.symm)
  override_owner := by
    intro i o₁ h₁
    obtain ⟨o, ho, rfl, hkept⟩ := (get_overrides_eq_some_iff now).mp h₁
    obtain ⟨a, ha, huser⟩ := hc.override_owner i o ho
    obtain ⟨howner, hcase⟩ := settledRow_cases (t := t) now o
    rw [howner, get_assignments_of_kept now hkept]
    rcases hcase with ⟨-, hk⟩ | ⟨pair, hpair, hp, -, -, hk⟩
    · rw [hk, ha]
      exact ⟨_, rfl, (foldedRow_keys now _ a).1.trans huser⟩
    · obtain ⟨p, hget, -, hserver, -⟩ := mem_pairs_iff.mp hpair
      obtain ⟨s, hs, hsuser, -⟩ := serverRow_spec hserver
      obtain rfl : a = p := Option.some.inj ((hp ▸ ha).symm.trans hget)
      rw [hk, hs]
      exact ⟨_, rfl, (foldedRow_keys now _ s).1.trans (hsuser.trans huser)⟩

/-- Nothing of a deleted placeholder stays. -/
theorem dropped {id : Nat} (h : drops t.pairs id = true) :
    (upgrade now t).assignments.get id = none ∧ (upgrade now t).overrideOf id = none := by
  constructor
  · rw [get_assignments, h]
    cases t.assignments.get id <;> rfl
  · rw [overrideOf_eq_none_iff]
    rintro i o' ho' rfl
    obtain ⟨o, -, rfl, hkept⟩ := (get_overrides_eq_some_iff now).mp ho'
    rw [hkept] at h
    cases h

/-- The override of a row that is in no pair but a kept one. -/
theorem overrideOf_of_unmerged (hc : Constraints t) {id : Nat}
    (h : ∀ pair ∈ t.pairs, id = pair.placeholderId ∨ id = pair.serverId → pair.keep = true) :
    (∀ i o, t.overrides.get i = some o → o.userAssignmentId = id →
      (upgrade now t).overrides.get i = some o) ∧
      (upgrade now t).overrideOf id = t.overrideOf id := by
  have hkept : drops t.pairs id = false := by
    rw [Bool.eq_false_iff, ne_eq, drops_iff]
    rintro ⟨pair, hpair, rfl, hkeep⟩
    rw [h pair hpair (Or.inl rfl)] at hkeep
    cases hkeep
  have hsame : ∀ o : OverrideRow, o.userAssignmentId = id → settledRow now t o = o := by
    rintro o rfl
    have hmoved : moved t o = none := by
      rw [Option.eq_none_iff_forall_ne_some]
      intro o' hmoved
      obtain ⟨pair, hpair, hkey, hkeep, -⟩ := moved_eq_some_iff.mp hmoved
      rw [h pair hpair (Or.inl hkey)] at hkeep
      cases hkeep
    have hrival : rivalOf t o = none := by
      rw [rivalOf]
      cases hpair : pairOf t.pairs o.userAssignmentId with
      | none => rfl
      | some pair =>
        obtain ⟨hmem, hkey⟩ := mem_of_pairOf hpair
        simp [h pair hmem (Or.inr hkey.symm)]
    rw [settledRow_of_not_moved now hmoved]
    simp [mergedRow, hrival]
  have hstays : ∀ i o, t.overrides.get i = some o → o.userAssignmentId = id →
      (upgrade now t).overrides.get i = some o := fun i o ho hkey =>
    (get_overrides_eq_some_iff now).mpr ⟨o, ho, (hsame o hkey).symm, hkey ▸ hkept⟩
  refine ⟨hstays, ?_⟩
  cases hof : t.overrideOf id with
  | some o =>
    obtain ⟨i, hget, hkey⟩ := overrideOf_mem hof
    rw [← hkey]
    exact overrideOf_of_mem (upgrade_constraints now hc) (hstays i o hget hkey)
  | none =>
    rw [overrideOf_eq_none_iff] at hof ⊢
    intro i o' ho' hkey
    obtain ⟨o, ho, rfl, -⟩ := (get_overrides_eq_some_iff now).mp ho'
    rcases (settledRow_cases (t := t) now o).2 with ⟨-, hk⟩ | ⟨pair, hpair, -, hkeep, -, hk⟩
    · exact hof i o ho (hk.symm.trans hkey)
    · rw [h pair hpair (Or.inr (hkey.symm.trans hk))] at hkeep
      cases hkeep

/-- The server row of a merged pair has its own override, merged, or else the placeholder's. -/
theorem overrideOf_server (hc : Constraints t) {pair : Pair} (hpair : pair ∈ t.pairs)
    (hkeep : pair.keep = false) :
    (upgrade now t).overrideOf pair.serverId =
      match t.overrideOf pair.serverId with
      | some so => some (mergedRow now t so)
      | none => (t.overrideOf pair.placeholderId).map
          ({ · with userAssignmentId := pair.serverId }) := by
  have hkept : drops t.pairs pair.serverId = false := by
    obtain ⟨p, -, -, hserver, -⟩ := mem_pairs_iff.mp hpair
    obtain ⟨s, hs, -, -, hcourse⟩ := serverRow_spec hserver
    exact drops_of_course hs hcourse
  have hc' := upgrade_constraints now hc
  cases hso : t.overrideOf pair.serverId with
  | some so =>
    obtain ⟨i, hget, hkey⟩ := overrideOf_mem hso
    have hmoved : moved t so = none := by
      rw [Option.eq_none_iff_forall_ne_some]
      intro o' hmoved
      obtain ⟨pair', hpair', hkey', -⟩ := moved_eq_some_iff.mp hmoved
      exact placeholder_ne_server hpair' hpair (hkey'.symm.trans hkey)
    have hk := (mergedRow_keys (t := t) now so).2.trans hkey
    have hafter := (get_overrides_eq_some_iff now).mpr
      ⟨so, hget, (settledRow_of_not_moved now hmoved).symm, by rw [hk, hkept]⟩
    have hof := overrideOf_of_mem hc' hafter
    rwa [hk] at hof
  | none =>
    cases hpo : t.overrideOf pair.placeholderId with
    | some po =>
      obtain ⟨i, hget, hkey⟩ := overrideOf_mem hpo
      have hafter := (get_overrides_eq_some_iff now).mpr
        ⟨po, hget, (settledRow_of_moved now hpair hkey hkeep hso).symm, hkept⟩
      exact overrideOf_of_mem hc' hafter
    | none =>
      rw [Option.map_none, overrideOf_eq_none_iff]
      intro i o' ho' hkey
      obtain ⟨o, ho, rfl, -⟩ := (get_overrides_eq_some_iff now).mp ho'
      rcases (settledRow_cases (t := t) now o).2 with ⟨-, hk⟩ | ⟨pair', hpair', hp, -, -, hk⟩
      · exact overrideOf_eq_none_iff.mp hso i o ho (hk.symm.trans hkey)
      · obtain rfl := eq_of_server hc hpair' hpair (hk.symm.trans hkey)
        exact overrideOf_eq_none_iff.mp hpo i o ho hp

end After

/-! ### A second run -/

section Again

variable {t : Tables} (now : Time)

/-- Nothing is left to fold or to merge. -/
structure Quiet (t : Tables) : Prop where
  kept : ∀ pair ∈ t.pairs, pair.keep = true
  folded : ∀ pair ∈ t.pairs, ∀ p s, t.assignments.get pair.placeholderId = some p →
    t.assignments.get pair.serverId = some s →
      (p.providerIsSubmitted = true → s.providerIsSubmitted = true) ∧
      (p.providerGrade.isSome = true → s.providerGrade.isSome = true)

theorem updateAssignments_eq_self {m : Merge} {f : Nat → AssignmentRow → Option AssignmentRow}
    (h : ∀ id s, m.tables.assignments.get id = some s → f id s = none) :
    m.updateAssignments f = m := by
  obtain ⟨hsame, hnone⟩ := Table.update_eq_self h
  simp only [Merge.updateAssignments, hsame, hnone, List.map_nil, List.append_nil]

theorem updateOverrides_eq_self {m : Merge} {f : OverrideRow → Option OverrideRow}
    (h : ∀ o, f o = none) : m.updateOverrides f = m := by
  obtain ⟨hsame, hnone⟩ := Table.update_eq_self (t := m.tables.overrides) (f := fun _ => f)
    fun _ o _ => h o
  simp only [Merge.updateOverrides, hsame, hnone, List.map_nil, List.append_nil]

/-- A run that finds nothing to merge changes nothing and logs nothing. -/
theorem upgrade_of_quiet (h : Quiet t) : upgrade now t = t := by
  have hsubmission : foldSubmission now t.pairs ⟨t, []⟩ = ⟨t, []⟩ := by
    refine updateAssignments_eq_self fun id s hs => ?_
    rw [Option.bind_eq_none_iff]
    intro pair hpair
    rw [Option.bind_eq_none_iff]
    intro p hp
    obtain ⟨hmem, rfl⟩ := mem_of_pairOf hpair
    have hfolded := (h.folded pair hmem p s hp hs).1
    rw [submitted, if_neg]
    simpa using hfolded
  have hgrade : foldGrade now t.pairs ⟨t, []⟩ = ⟨t, []⟩ := by
    refine updateAssignments_eq_self fun id s hs => ?_
    rw [Option.bind_eq_none_iff]
    intro pair hpair
    rw [Option.bind_eq_none_iff]
    intro p hp
    obtain ⟨hmem, rfl⟩ := mem_of_pairOf hpair
    have hfolded := (h.folded pair hmem p s hp hs).2
    rw [graded, if_neg]
    simpa [Option.isSome_iff_ne_none] using hfolded
  have hmark : mergeMark now t.pairs ⟨t, []⟩ = ⟨t, []⟩ := by
    refine updateOverrides_eq_self fun so => ?_
    rw [Option.bind_eq_none_iff]
    intro pair hpair
    rw [if_pos (h.kept pair (mem_of_pairOf hpair).1)]
  have hnote : mergeNote now t.pairs ⟨t, []⟩ = ⟨t, []⟩ := by
    refine updateOverrides_eq_self fun so => ?_
    rw [Option.bind_eq_none_iff]
    intro pair hpair
    rw [if_pos (h.kept pair (mem_of_pairOf hpair).1)]
  have hmove : moveOverride t.pairs ⟨t, []⟩ = ⟨t, []⟩ := by
    refine updateOverrides_eq_self fun po => ?_
    rw [Option.bind_eq_none_iff]
    intro pair hpair
    rw [h.kept pair (List.mem_of_find?_eq_some hpair), Bool.true_or, if_pos rfl]
  have hdrops : ∀ id, drops t.pairs id = false := by
    intro id
    rw [Bool.eq_false_iff, ne_eq, drops_iff]
    rintro ⟨pair, hpair, -, hkeep⟩
    rw [h.kept pair hpair] at hkeep
    cases hkeep
  have hdelete : ∀ {α : Type} (table : Table Nat α),
      (table.deleteWhere fun _ _ => false) = table := by
    intro α table
    simp [Table.deleteWhere]
  simp [upgrade, merged, hsubmission, hgrade, hmark, hnote, hmove, dropPlaceholders, hdrops,
    hdelete, logChanges, appended, bump]

theorem deletedAt_foldedRow (id : Nat) (s : AssignmentRow) :
    (foldedRow now t id s).deletedAt = s.deletedAt := (foldedRow_keys now id s).2.2.2

/-- The merge deletes and adds no server row. -/
theorem serverRows_upgrade (userId : UserId) (moodleId : MoodleId) :
    (upgrade now t).serverRows userId moodleId =
      (t.serverRows userId moodleId).map fun r => (r.1, foldedRow now t r.1 r.2) := by
  simp only [Tables.serverRows, Table.select, upgrade, logChanges, merged_tables,
    Table.deleteWhere, Table.modify, List.filter_map, List.filter_filter, Function.comp_def,
    (foldedRow_keys now _ _).1, (foldedRow_keys now _ _).2.1, (foldedRow_keys now _ _).2.2.1]
  congr 1
  refine List.filter_congr fun r hr => ?_
  cases hserver : (decide (r.2.userId = userId) && decide (r.2.moodleAssignmentId = moodleId) &&
      decide (r.2.moodleCourseId ≠ 0)) with
  | false => rfl
  | true =>
    have hcourse : r.2.moodleCourseId ≠ 0 := by
      simp only [Bool.and_eq_true, decide_eq_true_eq] at hserver
      exact hserver.2
    rw [drops_of_course ((Table.get_eq_some_iff _ _ _).mpr hr) hcourse]
    rfl

theorem serverRow_upgrade (p : AssignmentRow) : (upgrade now t).serverRow p = t.serverRow p := by
  simp only [Tables.serverRow, serverRows_upgrade, List.filter_map, List.map_map,
    Function.comp_def, deletedAt_foldedRow]

theorem lastGone_upgrade (userId : UserId) (moodleId : MoodleId) :
    (upgrade now t).lastGone userId moodleId = t.lastGone userId moodleId := by
  simp only [Tables.lastGone, serverRows_upgrade, List.filterMap_map, Function.comp_def,
    deletedAt_foldedRow]

/-- The overrides of a kept pair stay. -/
theorem overrideOf_of_kept (hc : Constraints t) {pair : Pair} (hpair : pair ∈ t.pairs)
    (hkeep : pair.keep = true) :
    (upgrade now t).overrideOf pair.placeholderId = t.overrideOf pair.placeholderId ∧
      (upgrade now t).overrideOf pair.serverId = t.overrideOf pair.serverId := by
  constructor
  · refine (overrideOf_of_unmerged now hc fun pair' hpair' hcase => ?_).2
    rcases hcase with heq | heq
    · rwa [← eq_of_placeholder hpair hpair' heq]
    · exact absurd heq (placeholder_ne_server hpair hpair')
  · refine (overrideOf_of_unmerged now hc fun pair' hpair' hcase => ?_).2
    rcases hcase with heq | heq
    · exact absurd heq.symm (placeholder_ne_server hpair' hpair)
    · rwa [← eq_of_server hc hpair hpair' heq]

/-- What a second run finds: the pairs the first one kept. -/
theorem mem_pairs_upgrade (hc : Constraints t) {pair : Pair} (h : pair ∈ (upgrade now t).pairs) :
    pair ∈ t.pairs ∧ pair.keep = true := by
  obtain ⟨p', hp', hcourse, hserver, hkeep⟩ := mem_pairs_iff.mp h
  rw [get_assignments, Option.filter_eq_some_iff, Option.map_eq_some_iff,
    Bool.not_eq_true'] at hp'
  obtain ⟨⟨p, hp, rfl⟩, hdrops⟩ := hp'
  obtain ⟨huser, hcourse', hmoodle, hdeleted⟩ := foldedRow_keys (t := t) now pair.placeholderId p
  have hserver' : t.serverRow p = some pair.serverId := by
    rw [serverRow_upgrade, Tables.serverRow, huser, hmoodle] at hserver
    exact hserver
  have hbefore : (⟨pair.placeholderId, pair.serverId,
      t.keep p pair.serverId (t.overrideOf pair.placeholderId)⟩ : Pair) ∈ t.pairs :=
    mem_pairs_iff.mpr ⟨p, hp, hcourse'.symm.trans hcourse, hserver', rfl⟩
  have hkept : t.keep p pair.serverId (t.overrideOf pair.placeholderId) = true := by
    have hdropped := drops_placeholder hbefore
    rw [hdrops] at hdropped
    simpa using hdropped.symm
  obtain ⟨hpo, hso⟩ := overrideOf_of_kept now hc hbefore hkept
  have hsame : pair.keep = t.keep p pair.serverId (t.overrideOf pair.placeholderId) := by
    rw [hkeep]
    simp only [Tables.keep, hpo, hso, huser, hmoodle, hdeleted, serverRows_upgrade,
      lastGone_upgrade, List.any_map, Function.comp_def, deletedAt_foldedRow]
  refine ⟨?_, hsame.trans hkept⟩
  rwa [← hsame] at hbefore

theorem submission_folded {p s : AssignmentRow} :
    (((submitted now p s).getD s).providerIsSubmitted =
      (s.providerIsSubmitted || p.providerIsSubmitted)) := by
  rw [submitted]
  cases hp : p.providerIsSubmitted <;> cases hs : s.providerIsSubmitted <;> simp [hs]

theorem graded_submission {p s : AssignmentRow} :
    ((graded now p s).getD s).providerIsSubmitted = s.providerIsSubmitted := by
  rw [graded]
  split <;> rfl

theorem grade_folded {p s : AssignmentRow} :
    ((graded now p s).getD s).providerGrade = s.providerGrade.or p.providerGrade := by
  rw [graded]
  cases hp : p.providerGrade <;> cases hs : s.providerGrade <;> simp [hs]

/-- A server row has either row's submission, and the placeholder's grade where it has none. -/
theorem foldedRow_server {id : Nat} {p s : AssignmentRow} (h : placeholderOf t id = some p) :
    (foldedRow now t id s).providerIsSubmitted = (s.providerIsSubmitted || p.providerIsSubmitted) ∧
      (foldedRow now t id s).providerGrade = s.providerGrade.or p.providerGrade := by
  simp only [foldedRow, h, Option.bind_some]
  have hgrade : ((submitted now p s).getD s).providerGrade = s.providerGrade := by
    cases hs : submitted now p s with
    | none => rfl
    | some s' => exact (submitted_keys now hs).2.2.2.2
  exact ⟨by rw [graded_submission, submission_folded], by rw [grade_folded, hgrade]⟩

theorem placeholderOf_server (hc : Constraints t) {pair : Pair} (h : pair ∈ t.pairs) :
    placeholderOf t pair.serverId = t.assignments.get pair.placeholderId := by
  rw [placeholderOf, pairOf_server hc h, Option.bind_some]

/-- **A second run changes nothing** and logs nothing, whenever it comes. -/
theorem upgrade_again (hc : Constraints t) (later : Time) :
    upgrade later (upgrade now t) = upgrade now t := by
  refine upgrade_of_quiet later ⟨fun pair h => (mem_pairs_upgrade now hc h).2, ?_⟩
  intro pair h p' s' hp' hs'
  obtain ⟨hpair, -⟩ := mem_pairs_upgrade now hc h
  rw [get_assignments, Option.filter_eq_some_iff, Option.map_eq_some_iff] at hp' hs'
  obtain ⟨⟨p, hp, rfl⟩, -⟩ := hp'
  obtain ⟨⟨s, hs, rfl⟩, -⟩ := hs'
  obtain ⟨hsubmitted, hgrade⟩ := foldedRow_server (s := s) now
    ((placeholderOf_server hc hpair).trans hp)
  rw [foldedRow_of_none now (placeholderOf_placeholder hpair), hsubmitted, hgrade]
  constructor
  · intro h
    rw [h, Bool.or_true]
  · intro h
    cases hsg : s.providerGrade with
    | none => simpa using h
    | some _ => rfl

end Again

/-! ### The log -/

section Log

variable {t : Tables} (now : Time) {userId : UserId}

/-- The merge has something of the user's to log: a submission or a grade to fold, or a placeholder's
mark or note that wins, over none or over an earlier one. -/
def Recorded (t : Tables) (userId : UserId) : Prop :=
  ∃ pair ∈ t.pairs, ∃ p s, t.assignments.get pair.placeholderId = some p ∧
    t.assignments.get pair.serverId = some s ∧ p.userId = userId ∧
    ((p.providerIsSubmitted = true ∧ s.providerIsSubmitted = false) ∨
      (p.providerGrade.isSome = true ∧ s.providerGrade = none) ∨
      (pair.keep = false ∧ ∃ po, t.overrideOf pair.placeholderId = some po ∧
        ∀ so, t.overrideOf pair.serverId = some so →
          bound so.localStatus.updatedAt < bound po.localStatus.updatedAt ∨
            noteWins po so = true))

theorem mem_users_updateAssignments {m : Merge} {f : Nat → AssignmentRow → Option AssignmentRow} :
    userId ∈ (m.updateAssignments f).changes.map (·.userId) ↔
      userId ∈ m.changes.map (·.userId) ∨ ∃ id s s', m.tables.assignments.get id = some s ∧
        f id s = some s' ∧ s'.userId = userId := by
  simp only [Merge.updateAssignments, List.map_append, List.mem_append, List.map_map, List.mem_map,
    Prod.exists, Table.mem_updated_iff, Function.comp_def]
  refine or_congr Iff.rfl ⟨?_, ?_⟩
  · rintro ⟨id, s', ⟨s, hs, hf⟩, huser⟩
    exact ⟨id, s, s', hs, hf, huser⟩
  · rintro ⟨id, s, s', hs, hf, huser⟩
    exact ⟨id, s', ⟨s, hs, hf⟩, huser⟩

theorem mem_users_updateOverrides {m : Merge} {f : OverrideRow → Option OverrideRow} :
    userId ∈ (m.updateOverrides f).changes.map (·.userId) ↔
      userId ∈ m.changes.map (·.userId) ∨ ∃ id o o', m.tables.overrides.get id = some o ∧
        f o = some o' ∧ o'.userId = userId := by
  simp only [Merge.updateOverrides, List.map_append, List.mem_append, List.map_map, List.mem_map,
    Prod.exists, Table.mem_updated_iff, Function.comp_def]
  refine or_congr Iff.rfl ⟨?_, ?_⟩
  · rintro ⟨id, o', ⟨o, ho, hf⟩, huser⟩
    exact ⟨id, o, o', ho, hf, huser⟩
  · rintro ⟨id, o, o', ho, hf, huser⟩
    exact ⟨id, o', ⟨o, ho, hf⟩, huser⟩

theorem placeholderOf_eq_some {id : Nat} {p : AssignmentRow} (h : placeholderOf t id = some p) :
    ∃ pair ∈ t.pairs, pair.serverId = id ∧ t.assignments.get pair.placeholderId = some p ∧
      ∀ s, t.assignments.get id = some s → s.userId = p.userId := by
  obtain ⟨pair, hpair, hp⟩ := Option.bind_eq_some_iff.mp h
  obtain ⟨hmem, rfl⟩ := mem_of_pairOf hpair
  refine ⟨pair, hmem, rfl, hp, fun s hs => ?_⟩
  obtain ⟨p', hp', -, hserver, -⟩ := mem_pairs_iff.mp hmem
  obtain ⟨s', hs', huser, -⟩ := serverRow_spec hserver
  obtain rfl : s = s' := Option.some.inj (hs.symm.trans hs')
  obtain rfl : p = p' := Option.some.inj (hp.symm.trans hp')
  exact huser

theorem rivalOf_eq_some {o po : OverrideRow} (h : rivalOf t o = some po) :
    ∃ pair ∈ t.pairs, pair.serverId = o.userAssignmentId ∧ pair.keep = false ∧
      t.overrideOf pair.placeholderId = some po := by
  obtain ⟨pair, hpair, hp⟩ := Option.bind_eq_some_iff.mp h
  obtain ⟨hmem, hkey⟩ := mem_of_pairOf hpair
  split at hp
  next => cases hp
  next hkeep => exact ⟨pair, hmem, hkey, by simpa using hkeep, hp⟩

theorem rivalOf_server (hc : Constraints t) {pair : Pair} (hpair : pair ∈ t.pairs)
    (hkeep : pair.keep = false) {o : OverrideRow} (ho : o.userAssignmentId = pair.serverId) :
    rivalOf t o = t.overrideOf pair.placeholderId := by
  rw [rivalOf, ho, pairOf_server hc hpair, Option.bind_some, hkeep]
  rfl

theorem submitted_isSome_iff {p s : AssignmentRow} : (submitted now p s).isSome = true ↔
    p.providerIsSubmitted = true ∧ s.providerIsSubmitted = false := by
  rw [submitted]
  split <;> simp_all

theorem graded_isSome_iff {p s : AssignmentRow} : (graded now p s).isSome = true ↔
    p.providerGrade.isSome = true ∧ s.providerGrade = none := by
  rw [graded]
  split <;> simp_all

theorem marked_isSome_iff {po so : OverrideRow} : (marked now po so).isSome = true ↔
    bound so.localStatus.updatedAt < bound po.localStatus.updatedAt := by
  rw [marked]
  split <;> simp_all

theorem noted_isSome_iff {po so : OverrideRow} : (noted now po so).isSome = true ↔
    noteWins po so = true := by
  rw [noted]
  split <;> simp_all

/-- The rows of a pair are one user's. -/
theorem rows_of_pair {pair : Pair} (h : pair ∈ t.pairs) :
    ∃ p s, t.assignments.get pair.placeholderId = some p ∧
      t.assignments.get pair.serverId = some s ∧ s.userId = p.userId := by
  obtain ⟨p, hp, -, hserver, -⟩ := mem_pairs_iff.mp h
  obtain ⟨s, hs, huser, -⟩ := serverRow_spec hserver
  exact ⟨p, s, hp, hs, huser⟩

/-- The users a fold records. -/
theorem folds_iff (userId : UserId) (hc : Constraints t) {f : AssignmentRow → AssignmentRow → Option AssignmentRow}
    {g : Nat → AssignmentRow → AssignmentRow}
    (hf : ∀ p s s', f p s = some s' → s'.userId = s.userId)
    (hg : ∀ id s, (g id s).userId = s.userId) :
    (∃ id s s', (t.assignments.get id).map (g id) = some s ∧
      ((placeholderOf t id).bind fun p => f p s) = some s' ∧ s'.userId = userId) ↔
    ∃ pair ∈ t.pairs, ∃ p s, t.assignments.get pair.placeholderId = some p ∧
      t.assignments.get pair.serverId = some s ∧ p.userId = userId ∧
        (f p (g pair.serverId s)).isSome = true := by
  constructor
  · rintro ⟨id, _, s', hmap, hbind, huser⟩
    obtain ⟨s, hs, rfl⟩ := Option.map_eq_some_iff.mp hmap
    obtain ⟨p, hp, hfold⟩ := Option.bind_eq_some_iff.mp hbind
    obtain ⟨pair, hpair, rfl, hplaceholder, hsame⟩ := placeholderOf_eq_some hp
    refine ⟨pair, hpair, p, s, hplaceholder, hs, ?_, Option.isSome_of_eq_some hfold⟩
    rw [← huser, hf _ _ _ hfold, hg, hsame s hs]
  · rintro ⟨pair, hpair, p, s, hp, hs, rfl, hfold⟩
    obtain ⟨s', hfold⟩ := Option.isSome_iff_exists.mp hfold
    have hof := (placeholderOf_server hc hpair).trans hp
    obtain ⟨_, _, _, _, hsame⟩ := placeholderOf_eq_some hof
    refine ⟨pair.serverId, _, s', by rw [hs, Option.map_some], by rw [hof, Option.bind_some, hfold], ?_⟩
    rw [hf _ _ _ hfold, hg, hsame s hs]

/-- Whose an override of a pair is. -/
theorem owner_of_pair (hc : Constraints t) {id : Nat} {o : OverrideRow} {a : AssignmentRow}
    (ho : t.overrides.get id = some o) (ha : t.assignments.get o.userAssignmentId = some a) :
    o.userId = a.userId := by
  obtain ⟨a', ha', huser⟩ := hc.override_owner id o ho
  obtain rfl : a = a' := Option.some.inj (ha.symm.trans ha')
  exact huser.symm

/-- The users a merge of overrides records. -/
theorem merges_iff (userId : UserId) (hc : Constraints t) {f : OverrideRow → OverrideRow → Option OverrideRow}
    {g : OverrideRow → OverrideRow}
    (hf : ∀ po so so', f po so = some so' → so'.userId = so.userId)
    (hg : ∀ o, (g o).userId = o.userId ∧ (g o).userAssignmentId = o.userAssignmentId) :
    (∃ id o o', (t.overrides.get id).map g = some o ∧
      ((rivalOf t o).bind fun po => f po o) = some o' ∧ o'.userId = userId) ↔
    ∃ pair ∈ t.pairs, ∃ p s, t.assignments.get pair.placeholderId = some p ∧
      t.assignments.get pair.serverId = some s ∧ p.userId = userId ∧ pair.keep = false ∧
        ∃ po so, t.overrideOf pair.placeholderId = some po ∧
          t.overrideOf pair.serverId = some so ∧ (f po (g so)).isSome = true := by
  constructor
  · rintro ⟨id, _, o', hmap, hbind, huser⟩
    obtain ⟨so, ho, rfl⟩ := Option.map_eq_some_iff.mp hmap
    obtain ⟨po, hpo, hmerge⟩ := Option.bind_eq_some_iff.mp hbind
    obtain ⟨pair, hpair, hkey, hkeep, hpo⟩ := rivalOf_eq_some hpo
    rw [(hg so).2] at hkey
    obtain ⟨p, s, hp, hs, hsame⟩ := rows_of_pair hpair
    refine ⟨pair, hpair, p, s, hp, hs, ?_, hkeep, po, so, hpo, ?_, Option.isSome_of_eq_some hmerge⟩
    · rw [← huser, hf _ _ _ hmerge, (hg so).1, owner_of_pair hc ho (hkey ▸ hs), hsame]
    · rw [hkey]
      exact overrideOf_of_mem hc ho
  · rintro ⟨pair, hpair, p, s, hp, hs, rfl, hkeep, po, so, hpo, hso, hmerge⟩
    obtain ⟨so', hmerge⟩ := Option.isSome_iff_exists.mp hmerge
    obtain ⟨id, ho, hkey⟩ := overrideOf_mem hso
    obtain ⟨p', s', hp', hs', hsame⟩ := rows_of_pair hpair
    obtain rfl : p = p' := Option.some.inj (hp.symm.trans hp')
    obtain rfl : s = s' := Option.some.inj (hs.symm.trans hs')
    have hrival := rivalOf_server hc hpair hkeep ((hg so).2.trans hkey)
    refine ⟨id, _, so', by rw [ho, Option.map_some], by rw [hrival, hpo, Option.bind_some, hmerge], ?_⟩
    rw [hf _ _ _ hmerge, (hg so).1, owner_of_pair hc ho (hkey ▸ hs), hsame]

/-- The users the move records. -/
theorem moves_iff (hc : Constraints t) :
    (∃ id o o', (t.overrides.get id).map (mergedRow now t) = some o ∧ moved t o = some o' ∧
      o'.userId = userId) ↔
    ∃ pair ∈ t.pairs, ∃ p s, t.assignments.get pair.placeholderId = some p ∧
      t.assignments.get pair.serverId = some s ∧ p.userId = userId ∧ pair.keep = false ∧
        ∃ po, t.overrideOf pair.placeholderId = some po ∧ t.overrideOf pair.serverId = none := by
  constructor
  · rintro ⟨id, _, o', hmap, hmoved, huser⟩
    obtain ⟨po, ho, rfl⟩ := Option.map_eq_some_iff.mp hmap
    obtain ⟨pair, hpair, hkey, hkeep, hnone, rfl⟩ := moved_eq_some_iff.mp hmoved
    rw [(mergedRow_keys now po).2] at hkey
    obtain ⟨p, s, hp, hs, -⟩ := rows_of_pair hpair
    refine ⟨pair, hpair, p, s, hp, hs, ?_, hkeep, po, ?_, hnone⟩
    · rw [← huser]
      exact ((mergedRow_keys now po).1.trans (owner_of_pair hc ho (hkey ▸ hp))).symm
    · rw [← hkey]
      exact overrideOf_of_mem hc ho
  · rintro ⟨pair, hpair, p, s, hp, hs, rfl, hkeep, po, hpo, hnone⟩
    obtain ⟨id, ho, hkey⟩ := overrideOf_mem hpo
    refine ⟨id, _, _, by rw [ho, Option.map_some], moved_eq_some_iff.mpr ⟨pair, hpair,
      (mergedRow_keys now po).2.trans hkey, hkeep, hnone, rfl⟩, ?_⟩
    exact (mergedRow_keys now po).1.trans (owner_of_pair hc ho (hkey ▸ hp))

theorem noteWins_markedRow {po so : OverrideRow} :
    noteWins po (((rivalOf t so).bind fun po => marked now po so).getD so) = noteWins po so := by
  cases h : (rivalOf t so).bind fun po => marked now po so with
  | none => rfl
  | some so' =>
    obtain ⟨po', -, h⟩ := Option.bind_eq_some_iff.mp h
    rw [Option.getD_some, noteWins, noteWins, (marked_keys now h).2.2]

theorem grade_submitted {id : Nat} {s : AssignmentRow} :
    (((placeholderOf t id).bind fun p => submitted now p s).getD s).providerGrade =
      s.providerGrade := by
  cases h : (placeholderOf t id).bind fun p => submitted now p s with
  | none => rfl
  | some s' =>
    obtain ⟨p, -, h⟩ := Option.bind_eq_some_iff.mp h
    exact (submitted_keys now h).2.2.2.2

/-- The users of the changes are those with something to log. -/
theorem mem_changes_iff (hc : Constraints t) :
    userId ∈ (merged now t).changes.map (·.userId) ↔ Recorded t userId := by
  have hchanges : (merged now t).changes =
      ((((((⟨t, []⟩ : Merge).updateAssignments fun id s =>
        (placeholderOf t id).bind fun p => submitted now p s).updateAssignments fun id s =>
        (placeholderOf t id).bind fun p => graded now p s).updateOverrides fun so =>
        (rivalOf t so).bind fun po => marked now po so).updateOverrides fun so =>
        (rivalOf t so).bind fun po => noted now po so).updateOverrides (moved t)).changes := by
    rw [merged_eq]
    rfl
  rw [hchanges]
  simp only [mem_users_updateOverrides, mem_users_updateAssignments]
  simp only [Merge.updateOverrides, Merge.updateAssignments, Table.get_update, List.map_nil,
    List.not_mem_nil, false_or, Option.map_map]
  -- What each statement records, in the order they run.
  have hsubmission := folds_iff userId (f := submitted now) (g := fun _ s => s) hc
    (fun _ _ _ h => (submitted_keys now h).1) fun _ _ => rfl
  have hgrade := folds_iff userId (f := graded now)
    (g := fun id s => ((placeholderOf t id).bind fun p => submitted now p s).getD s) hc
    (fun _ _ _ h => (graded_keys now h).1) (userId_submitted now)
  have hmark := merges_iff userId (f := marked now) (g := fun o => o) hc
    (fun _ _ _ h => (marked_keys now h).1) fun _ => ⟨rfl, rfl⟩
  have hnote := merges_iff userId (f := noted now)
    (g := fun o => ((rivalOf t o).bind fun po => marked now po o).getD o) hc
    (fun _ _ _ h => (noted_keys now h).1) (markedRow_keys now)
  simp only [Option.map_id'] at hsubmission hmark
  refine (or_congr (or_congr (or_congr (or_congr hsubmission hgrade) hmark) hnote)
    (moves_iff now hc)).trans ⟨?_, ?_⟩
  · rintro ((((h | h) | h) | h) | h)
    · obtain ⟨pair, hpair, p, s, hp, hs, huser, h⟩ := h
      exact ⟨pair, hpair, p, s, hp, hs, huser, Or.inl ((submitted_isSome_iff now).mp h)⟩
    · obtain ⟨pair, hpair, p, s, hp, hs, huser, h⟩ := h
      obtain ⟨hgrade, hnone⟩ := (graded_isSome_iff now).mp h
      refine ⟨pair, hpair, p, s, hp, hs, huser, Or.inr (Or.inl ⟨hgrade, ?_⟩)⟩
      rwa [grade_submitted] at hnone
    · obtain ⟨pair, hpair, p, s, hp, hs, huser, hkeep, po, so, hpo, hso, h⟩ := h
      refine ⟨pair, hpair, p, s, hp, hs, huser, Or.inr (Or.inr ⟨hkeep, po, hpo, ?_⟩)⟩
      intro so' hso'
      obtain rfl : so = so' := Option.some.inj (hso.symm.trans hso')
      exact Or.inl ((marked_isSome_iff now).mp h)
    · obtain ⟨pair, hpair, p, s, hp, hs, huser, hkeep, po, so, hpo, hso, h⟩ := h
      refine ⟨pair, hpair, p, s, hp, hs, huser, Or.inr (Or.inr ⟨hkeep, po, hpo, ?_⟩)⟩
      intro so' hso'
      obtain rfl : so = so' := Option.some.inj (hso.symm.trans hso')
      have hwins := (noted_isSome_iff now).mp h
      exact Or.inr ((noteWins_markedRow now).symm.trans hwins)
    · obtain ⟨pair, hpair, p, s, hp, hs, huser, hkeep, po, hpo, hnone⟩ := h
      refine ⟨pair, hpair, p, s, hp, hs, huser, Or.inr (Or.inr ⟨hkeep, po, hpo, ?_⟩)⟩
      intro so hso
      rw [hnone] at hso
      cases hso
  · rintro ⟨pair, hpair, p, s, hp, hs, huser, h | ⟨hgrade, hnone⟩ | ⟨hkeep, po, hpo, hwins⟩⟩
    · exact Or.inl (Or.inl (Or.inl (Or.inl
        ⟨pair, hpair, p, s, hp, hs, huser, (submitted_isSome_iff now).mpr h⟩)))
    · refine Or.inl (Or.inl (Or.inl (Or.inr
        ⟨pair, hpair, p, s, hp, hs, huser, (graded_isSome_iff now).mpr ⟨hgrade, ?_⟩⟩)))
      rwa [grade_submitted]
    · cases hso : t.overrideOf pair.serverId with
      | none => exact Or.inr ⟨pair, hpair, p, s, hp, hs, huser, hkeep, po, hpo, hso⟩
      | some so =>
        rcases hwins so hso with hmarked | hnoted
        · exact Or.inl (Or.inl (Or.inr ⟨pair, hpair, p, s, hp, hs, huser, hkeep, po, so, hpo, hso,
            (marked_isSome_iff now).mpr hmarked⟩))
        · exact Or.inl (Or.inr ⟨pair, hpair, p, s, hp, hs, huser, hkeep, po, so, hpo, hso,
            (noted_isSome_iff now).mpr ((noteWins_markedRow now).trans hnoted)⟩)

theorem filter_zipIdx_of_not_mem {l : List UserId} (h : userId ∉ l) (n : Nat) :
    (l.zipIdx n).filter (·.1 = userId) = [] := by
  rw [List.filter_eq_nil_iff]
  rintro ⟨user, i⟩ hmem heq
  obtain rfl : user = userId := by simpa using heq
  exact h (List.fst_mem_of_mem_zipIdx hmem)

/-- One of distinct users is numbered once. -/
theorem filter_zipIdx {l : List UserId} (hnodup : l.Nodup) (h : userId ∈ l) (n : Nat) :
    ∃ i, (l.zipIdx n).filter (·.1 = userId) = [(userId, i)] := by
  induction l generalizing n with
  | nil => cases h
  | cons user l ih =>
    obtain ⟨hfresh, hnodup⟩ := List.nodup_cons.mp hnodup
    rw [List.zipIdx_cons]
    by_cases heq : user = userId
    · subst heq
      exact ⟨n, by rw [List.filter_cons_of_pos (by simp), filter_zipIdx_of_not_mem hfresh]⟩
    · rw [List.filter_cons_of_neg (by simpa using heq)]
      exact ih hnodup ((List.mem_cons.mp h).resolve_left (Ne.symm heq)) (n + 1)

/-- Each user with something to log gets one entry, and no other user any. -/
theorem appended_spec (hc : Constraints t) (userId : UserId) :
    (Recorded t userId → ∃ e, (appended now (merged now t)).filter (·.userId = userId) = [e]) ∧
      (¬Recorded t userId → ∀ e ∈ appended now (merged now t), e.userId ≠ userId) := by
  rw [← mem_changes_iff now hc]
  constructor
  · intro h
    obtain ⟨i, hi⟩ := filter_zipIdx (List.nodup_dedup _) (List.mem_dedup.mpr h) 0
    refine ⟨⟨(merged now t).tables.nextRevision + i, userId, now,
      entryOf (merged now t).changes userId⟩, ?_⟩
    rw [appended, List.filter_map]
    simp only [Function.comp_def]
    rw [hi, List.map_singleton]
  · rintro h e he rfl
    obtain ⟨⟨user, i⟩, hmem, rfl⟩ := List.mem_map.mp he
    exact h (List.mem_dedup.mp (List.fst_mem_of_mem_zipIdx hmem))

/-- A user's watermark is moved by the user's own entries. -/
theorem bump_filter {ε : Type} (states : UserId → UserSyncState) (rows : List (UserChangeLog ε)) :
    bump states rows userId = bump states (rows.filter (·.userId = userId)) userId := by
  induction rows generalizing states with
  | nil => rfl
  | cons r rows ih =>
    by_cases h : r.userId = userId
    · rw [List.filter_cons_of_pos (by simpa using h), bump_cons, bump_cons, ih]
    · rw [List.filter_cons_of_neg (by simpa using h), bump_cons, ih]
      have hsame : ∀ (rows : List (UserChangeLog ε)) (f g : UserId → UserSyncState),
          f userId = g userId → (∀ r ∈ rows, r.userId = userId) →
            bump f rows userId = bump g rows userId := by
        intro rows
        induction rows with
        | nil => exact fun _ _ hfg _ => hfg
        | cons r rows ih =>
          intro f g hfg hrows
          have hr := hrows r List.mem_cons_self
          rw [bump_cons, bump_cons]
          refine ih _ _ ?_ fun r' hr' => hrows r' (List.mem_cons_of_mem _ hr')
          rw [hr, Function.update_self, Function.update_self, hfg]
      refine hsame _ _ _ (Function.update_of_ne (Ne.symm h) _ _) fun r' hr' => ?_
      simpa using (List.mem_filter.mp hr').2

theorem upgrade_log : (upgrade now t).log = t.log ++ appended now (merged now t) ∧
    (upgrade now t).states = bump t.states (appended now (merged now t)) := by
  rw [upgrade, logChanges, merged_tables]
  exact ⟨rfl, rfl⟩

end Log

/-! ### The snapshot -/

section Snapshot

variable {t : Tables} (now : Time) {userId : UserId}

/-- The merge deletes something the user's snapshot shows: a live placeholder, or one whose override
the server row's has taken the place of. -/
def Shows (t : Tables) (userId : UserId) : Prop :=
  ∃ pair ∈ t.pairs, pair.keep = false ∧ ∃ p, t.assignments.get pair.placeholderId = some p ∧
    p.userId = userId ∧ (p.deletedAt = none ∨
      ((t.overrideOf pair.placeholderId).isSome = true ∧
        (t.overrideOf pair.serverId).isSome = true))

/-- A user with nothing to log has every assignment as it was, but for deleted placeholders without
an override. -/
theorem unchanged_assignment (hrecorded : ¬Recorded t userId) (hshows : ¬Shows t userId) {id : Nat}
    {a : AssignmentRow} (ha : t.assignments.get id = some a) (huser : a.userId = userId) :
    foldedRow now t id a = a ∧
      (drops t.pairs id = true → a.deletedAt.isSome = true ∧ t.overrideOf id = none) := by
  constructor
  · cases hp : placeholderOf t id with
    | none => exact foldedRow_of_none now hp a
    | some p =>
      obtain ⟨pair, hpair, rfl, hplaceholder, hsame⟩ := placeholderOf_eq_some hp
      have hpuser := (hsame a ha).symm.trans huser
      have hsubmitted : submitted now p a = none := by
        rw [← Option.not_isSome_iff_eq_none, submitted_isSome_iff]
        exact fun h => hrecorded ⟨pair, hpair, p, a, hplaceholder, ha, hpuser, Or.inl h⟩
      have hgraded : graded now p a = none := by
        rw [← Option.not_isSome_iff_eq_none, graded_isSome_iff]
        exact fun h => hrecorded ⟨pair, hpair, p, a, hplaceholder, ha, hpuser, Or.inr (Or.inl h)⟩
      simp [foldedRow, hp, hsubmitted, hgraded]
  · intro hdrops
    obtain ⟨pair, hpair, rfl, hkeep⟩ := drops_iff.mp hdrops
    obtain ⟨p, s, hp, hs, -⟩ := rows_of_pair hpair
    obtain rfl : a = p := Option.some.inj (ha.symm.trans hp)
    have hdeleted : a.deletedAt.isSome = true := by
      rw [Option.isSome_iff_ne_none]
      exact fun hlive => hshows ⟨pair, hpair, hkeep, a, ha, huser, Or.inl hlive⟩
    refine ⟨hdeleted, ?_⟩
    rw [Option.eq_none_iff_forall_ne_some]
    intro po hpo
    refine hrecorded ⟨pair, hpair, a, s, hp, hs, huser, Or.inr (Or.inr ⟨hkeep, po, hpo, ?_⟩)⟩
    intro so hso
    exact absurd ⟨pair, hpair, hkeep, a, ha, huser, Or.inr ⟨Option.isSome_of_eq_some hpo,
      Option.isSome_of_eq_some hso⟩⟩ hshows

/-- And every override as it was. -/
theorem unchanged_override (hc : Constraints t) (hrecorded : ¬Recorded t userId)
    (hshows : ¬Shows t userId) {id : Nat} {o : OverrideRow} (ho : t.overrides.get id = some o)
    (huser : o.userId = userId) :
    settledRow now t o = o ∧ drops t.pairs o.userAssignmentId = false := by
  obtain ⟨a, ha, howner⟩ := hc.override_owner id o ho
  have hof := overrideOf_of_mem hc ho
  have hkept : drops t.pairs o.userAssignmentId = false := by
    rw [Bool.eq_false_iff]
    intro hdrops
    have hnone := ((unchanged_assignment now hrecorded hshows ha (howner.trans huser)).2 hdrops).2
    rw [hof] at hnone
    cases hnone
  refine ⟨?_, hkept⟩
  have hmoved : moved t o = none := by
    rw [Option.eq_none_iff_forall_ne_some]
    intro o' hmoved
    obtain ⟨pair, hpair, hkey, hkeep, -⟩ := moved_eq_some_iff.mp hmoved
    rw [hkey, drops_placeholder hpair, hkeep] at hkept
    cases hkept
  rw [settledRow_of_not_moved now hmoved]
  cases hrival : rivalOf t o with
  | none => simp [mergedRow, hrival]
  | some po =>
    obtain ⟨pair, hpair, hkey, hkeep, hpo⟩ := rivalOf_eq_some hrival
    obtain ⟨p, s, hp, hs, hsame⟩ := rows_of_pair hpair
    rw [← hkey] at hof
    have hpuser : p.userId = userId := by
      rw [← hsame, ← huser, owner_of_pair hc ho (hkey ▸ hs)]
    have hloses : ¬(bound o.localStatus.updatedAt < bound po.localStatus.updatedAt ∨
        noteWins po o = true) := by
      intro hwins
      refine hrecorded ⟨pair, hpair, p, s, hp, hs, hpuser, Or.inr (Or.inr ⟨hkeep, po, hpo, ?_⟩)⟩
      intro so hso
      obtain rfl : o = so := Option.some.inj (hof.symm.trans hso)
      exact hwins
    obtain ⟨hmark, hnote⟩ := not_or.mp hloses
    have hmarked : marked now po o = none := by
      rw [← Option.not_isSome_iff_eq_none, marked_isSome_iff]
      exact hmark
    have hnoted : noted now po o = none := by
      rw [← Option.not_isSome_iff_eq_none, noted_isSome_iff]
      exact hnote
    simp [mergedRow, hrival, hmarked, hnoted]

theorem liveRows_unchanged (hrecorded : ¬Recorded t userId) (hshows : ¬Shows t userId) :
    (upgrade now t).liveRows userId = t.liveRows userId := by
  simp only [Tables.liveRows, upgrade, logChanges, merged_tables]
  refine Table.select_deleteWhere_modify (fun id a => ?_) fun id a ha hlive => ?_
  · rw [(foldedRow_keys now id a).1, (foldedRow_keys now id a).2.2.2]
  · obtain ⟨huser, hlive⟩ : a.userId = userId ∧ a.deletedAt = none := by simpa using hlive
    obtain ⟨hfolded, hdrops⟩ := unchanged_assignment now hrecorded hshows ha huser
    refine ⟨hfolded, ?_⟩
    rw [Bool.eq_false_iff]
    intro h
    have hdeleted := (hdrops h).1
    rw [hlive] at hdeleted
    cases hdeleted

theorem userOverrides_unchanged (hc : Constraints t) (hrecorded : ¬Recorded t userId)
    (hshows : ¬Shows t userId) : (upgrade now t).userOverrides userId = t.userOverrides userId := by
  simp only [Tables.userOverrides, upgrade, logChanges, merged_tables]
  refine Table.select_deleteWhere_modify (fun _ o => ?_) fun id o ho huser => ?_
  · rw [(settledRow_cases now o).1]
  · exact unchanged_override now hc hrecorded hshows ho (by simpa using huser)

/-- Of a user with nothing to log, the merge changes nothing the snapshot shows. -/
theorem fullSync_unchanged (hc : Constraints t) (hrecorded : ¬Recorded t userId)
    (hshows : ¬Shows t userId) : (upgrade now t).fullSync userId = t.fullSync userId := by
  have hlive := liveRows_unchanged now hrecorded hshows
  have hoverrides := userOverrides_unchanged now hc hrecorded hshows
  have hkeys : (upgrade now t).keysForMarksOnDeletedRows userId =
      t.keysForMarksOnDeletedRows userId := by
    rw [Tables.keysForMarksOnDeletedRows, hoverrides, Tables.keysForMarksOnDeletedRows]
    refine List.foldl_ext _ _ _ fun newest o ho => ?_
    obtain ⟨ho, huser⟩ := (Table.mem_select_iff _ _ _ _).mp ho
    have huser : o.2.userId = userId := by simpa using huser
    obtain ⟨a, ha, howner⟩ := hc.override_owner _ _ ho
    -- The row of an override stays, and stays the same.
    have hrow : (upgrade now t).assignments.get o.2.userAssignmentId =
        t.assignments.get o.2.userAssignmentId := by
      rw [get_assignments_of_kept now (unchanged_override now hc hrecorded hshows ho huser).2, ha,
        Option.map_some, (unchanged_assignment now hrecorded hshows ha (howner.trans huser)).1]
    simp only [Tables.keepNewest, hrow, hlive, Tables.hiddenSinceReceived, lastGone_upgrade]
    rfl
  simp only [Tables.fullSync, Tables.keyOf, hlive, hoverrides, hkeys]

/-- What the merge deletes of the snapshot is missing in it. -/
theorem fullSync_ne_of_shows (hc : Constraints t) (h : Shows t userId) :
    (upgrade now t).fullSync userId ≠ t.fullSync userId := by
  obtain ⟨pair, hpair, hkeep, p, hp, huser, hshown⟩ := h
  obtain ⟨hrow, hoverride⟩ := dropped now (by rw [drops_placeholder hpair, hkeep]; rfl :
    drops t.pairs pair.placeholderId = true)
  intro heq
  rcases hshown with hlive | ⟨hpo, -⟩
  · have hbefore : (pair.placeholderId, p) ∈ t.liveRows userId :=
      (Table.mem_select_iff _ _ _ _).mpr ⟨hp, by simp [huser, hlive]⟩
    have hassignments : (upgrade now t).liveRows userId = t.liveRows userId :=
      congrArg FullSync.assignments heq
    rw [← hassignments] at hbefore
    rw [((Table.mem_select_iff _ _ _ _).mp hbefore).1] at hrow
    cases hrow
  · obtain ⟨po, hpo⟩ := Option.isSome_iff_exists.mp hpo
    obtain ⟨id, ho, hkey⟩ := overrideOf_mem hpo
    have hbefore : pair.placeholderId ∈
        (t.fullSync userId).assignmentOverrides.map (·.userAssignmentId) := by
      have hmem : (id, po) ∈ t.userOverrides userId :=
        (Table.mem_select_iff _ _ _ _).mpr
          ⟨ho, by simpa using (owner_of_pair hc ho (hkey ▸ hp)).trans huser⟩
      rw [Tables.fullSync, List.map_map]
      exact List.mem_map.mpr ⟨(id, po), hmem, hkey⟩
    rw [← heq, Tables.fullSync, List.map_map] at hbefore
    obtain ⟨⟨id', o'⟩, hmem, hkey'⟩ := List.mem_map.mp hbefore
    exact overrideOf_eq_none_iff.mp hoverride id' o' ((Table.mem_select_iff _ _ _ _).mp hmem).1 hkey'

end Snapshot

/-! ### What the merge is for -/

/-- The merge, from one database to the next. -/
def Database.upgrade (now : Time) (db : Database) : Database where
  toTables := PlaceholderMerge.upgrade now db.toTables
  constraints := upgrade_constraints now db.constraints

/-- A mark with its time. -/
def OverrideRow.mark (o : OverrideRow) : AssignmentLocalStatus × Option Time :=
  (o.localStatus.value, o.localStatus.updatedAt)

/-- A note with its time. -/
def OverrideRow.noteAt (o : OverrideRow) : Option String × Option Time :=
  (o.note.value, o.note.updatedAt)

/-- The later of a server row's mark and a placeholder's, the server row's on a tie. -/
def laterMark : Option OverrideRow → Option OverrideRow → Option (AssignmentLocalStatus × Option Time)
  | some so, some po =>
    some (if bound so.localStatus.updatedAt < bound po.localStatus.updatedAt then po.mark else so.mark)
  | so, po => (so.or po).map OverrideRow.mark

/-- The later of the notes: the placeholder's too when the server row has neither a note nor a time
of one. -/
def laterNote : Option OverrideRow → Option OverrideRow → Option (Option String × Option Time)
  | some so, some po =>
    some (if so.noteAt = (none, none) ∨ bound so.note.updatedAt < bound po.note.updatedAt then po.noteAt
      else so.noteAt)
  | so, po => (so.or po).map OverrideRow.noteAt

/-- The second database is the first with its placeholders folded into the server rows. -/
structure MergesWell (t t' : Tables) : Prop where
  /-- A server row has either row's submission, and the placeholder's grade where it had none. But
  for their times no other column is written. -/
  folded : ∀ pair ∈ t.pairs, ∀ p s, t.assignments.get pair.placeholderId = some p →
    t.assignments.get pair.serverId = some s → ∃ s', t'.assignments.get pair.serverId = some s' ∧
      s'.providerIsSubmitted = (s.providerIsSubmitted || p.providerIsSubmitted) ∧
      s'.providerGrade = s.providerGrade.or p.providerGrade ∧
      { s' with
        providerIsSubmitted := s.providerIsSubmitted
        providerSubmittedAt := s.providerSubmittedAt
        providerGrade := s.providerGrade
        updatedAt := s.updatedAt } = s
  /-- A merged placeholder is gone, and its override with it. -/
  gone : ∀ pair ∈ t.pairs, pair.keep = false →
    t'.assignments.get pair.placeholderId = none ∧ t'.overrideOf pair.placeholderId = none
  /-- Its server row has the later mark and the later note. -/
  later : ∀ pair ∈ t.pairs, pair.keep = false →
    (t'.overrideOf pair.serverId).map OverrideRow.mark =
        laterMark (t.overrideOf pair.serverId) (t.overrideOf pair.placeholderId) ∧
      (t'.overrideOf pair.serverId).map OverrideRow.noteAt =
        laterNote (t.overrideOf pair.serverId) (t.overrideOf pair.placeholderId)
  /-- A kept placeholder stays, and the overrides of both rows. -/
  kept : ∀ pair ∈ t.pairs, pair.keep = true →
    t'.assignments.get pair.placeholderId = t.assignments.get pair.placeholderId ∧
      t'.overrideOf pair.placeholderId = t.overrideOf pair.placeholderId ∧
        t'.overrideOf pair.serverId = t.overrideOf pair.serverId
  /-- No other assignment changes, nor its override. -/
  others : ∀ id, (∀ pair ∈ t.pairs, id ≠ pair.placeholderId ∧ id ≠ pair.serverId) →
    t'.assignments.get id = t.assignments.get id ∧ t'.overrideOf id = t.overrideOf id ∧
      ∀ i o, t.overrides.get i = some o → o.userAssignmentId = id → t'.overrides.get i = some o
  /-- Each user whose snapshot changes has one new entry, the newest of that user's. -/
  logged : ∃ entries, t'.log = t.log ++ entries ∧
    ∀ userId, t'.fullSync userId ≠ t.fullSync userId →
      ∃ e, entries.filter (·.userId = userId) = [e] ∧
        (t'.states userId).currentRevision = e.revision
  /-- A second run changes nothing. -/
  again : ∀ now, upgrade now t' = t'

section Merge

variable {t : Tables} (now : Time)

/-- The folds write the submission, the grade and the times of both. -/
theorem foldedRow_rest (id : Nat) (s : AssignmentRow) :
    { foldedRow now t id s with
      providerIsSubmitted := s.providerIsSubmitted
      providerSubmittedAt := s.providerSubmittedAt
      providerGrade := s.providerGrade
      updatedAt := s.updatedAt } = s := by
  unfold foldedRow submitted graded
  cases placeholderOf t id with
  | none => rfl
  | some p =>
    simp only [Option.bind_some]
    split <;> split <;> rfl

theorem mergedRow_mark {so po : OverrideRow} (h : rivalOf t so = some po) :
    (mergedRow now t so).mark =
      if bound so.localStatus.updatedAt < bound po.localStatus.updatedAt then po.mark
      else so.mark := by
  have hkeys := markedRow_keys (t := t) now so
  have hmark : (((rivalOf t so).bind fun po => marked now po so).getD so).mark =
      if bound so.localStatus.updatedAt < bound po.localStatus.updatedAt then po.mark
      else so.mark := by
    rw [h, Option.bind_some, marked]
    split <;> rfl
  rw [← hmark, mergedRow]
  generalize (((rivalOf t so).bind fun po => marked now po so).getD so) = o
  cases hnoted : (rivalOf t o).bind fun po => noted now po o with
  | none => rfl
  | some o' =>
    obtain ⟨po', -, hnoted⟩ := Option.bind_eq_some_iff.mp hnoted
    rw [Option.getD_some, OverrideRow.mark, (noted_keys now hnoted).2.2, OverrideRow.mark]

theorem mergedRow_noteAt {so po : OverrideRow} (h : rivalOf t so = some po) :
    (mergedRow now t so).noteAt =
      if so.noteAt = (none, none) ∨ bound so.note.updatedAt < bound po.note.updatedAt then po.noteAt
      else so.noteAt := by
  have hnote : (((rivalOf t so).bind fun po => marked now po so).getD so).note = so.note := by
    cases hmarked : (rivalOf t so).bind fun po => marked now po so with
    | none => rfl
    | some o' =>
      obtain ⟨po', -, hmarked⟩ := Option.bind_eq_some_iff.mp hmarked
      exact (marked_keys now hmarked).2.2
  have hrival := rivalOf_congr (t := t) (markedRow_keys (t := t) now so).2
  rw [mergedRow]
  generalize (((rivalOf t so).bind fun po => marked now po so).getD so) = o at hnote hrival ⊢
  have hsame : o.noteAt = so.noteAt := by rw [OverrideRow.noteAt, hnote, OverrideRow.noteAt]
  rw [hrival, h, Option.bind_some, noted, ← hsame, ← hnote]
  by_cases hwins : noteWins po o = true
  · rw [if_pos hwins, Option.getD_some, if_pos]
    · rfl
    · simp only [noteWins, Bool.and_eq_true, Bool.or_eq_true, Option.isNone_iff_eq_none,
        decide_eq_true_eq] at hwins
      exact hwins.2.imp (fun h => Prod.ext h.1 h.2) id
  · rw [if_neg hwins, Option.getD_none]
    split
    next hcond =>
      -- The placeholder has neither a note nor a time of one, so its note is the same.
      have hneither : po.noteAt = (none, none) := by
        by_contra hsome
        refine hwins ?_
        simp only [noteWins, Bool.and_eq_true, Bool.or_eq_true, Option.isNone_iff_eq_none,
          decide_eq_true_eq]
        refine ⟨?_, hcond.imp (fun h => Prod.mk.inj h) id⟩
        by_contra hfalse
        obtain ⟨hvalue, htime⟩ := not_or.mp hfalse
        exact hsome (Prod.ext (Option.not_isSome_iff_eq_none.mp hvalue)
          (Option.not_isSome_iff_eq_none.mp htime))
      rw [hneither]
      refine hcond.resolve_right fun hlt => ?_
      rw [(Prod.mk.inj hneither).2, bound_none] at hlt
      exact absurd hlt (Nat.not_lt_zero _)
    next => rfl

/-- **What the merge does**, with one exception: it does what it is for exactly when every user it
deletes a shown row of has something it logs, too. -/
theorem merges_well_iff (db : Database) :
    MergesWell db.toTables (db.upgrade now).toTables ↔
      ∀ userId, Shows db.toTables userId → Recorded db.toTables userId := by
  obtain ⟨t, hc⟩ := db
  change MergesWell t (upgrade now t) ↔ ∀ userId, Shows t userId → Recorded t userId
  obtain ⟨hlog, hstates⟩ := upgrade_log (t := t) now
  constructor
  · intro h userId hshows
    obtain ⟨entries, hentries, hlogged⟩ := h.logged
    obtain ⟨e, he, -⟩ := hlogged userId (fullSync_ne_of_shows now hc hshows)
    by_contra hrecorded
    obtain rfl : entries = appended now (merged now t) :=
      List.append_cancel_left (hentries.symm.trans hlog)
    have hmem : e ∈ (appended now (merged now t)).filter (·.userId = userId) := by simp [he]
    obtain ⟨hmem, huser⟩ := List.mem_filter.mp hmem
    exact (appended_spec now hc userId).2 hrecorded e hmem (by simpa using huser)
  · intro h
    refine ⟨?_, ?_, ?_, ?_, ?_, ⟨_, hlog, ?_⟩, upgrade_again now hc⟩
    · intro pair hpair p s hp hs
      obtain ⟨hsubmitted, hgrade⟩ := foldedRow_server (s := s) now
        ((placeholderOf_server hc hpair).trans hp)
      obtain ⟨p', -, -, hserver, -⟩ := mem_pairs_iff.mp hpair
      obtain ⟨s', hs', -, -, hcourse⟩ := serverRow_spec hserver
      refine ⟨_, ?_, hsubmitted, hgrade, foldedRow_rest now pair.serverId s⟩
      rw [get_assignments_of_kept now (drops_of_course hs' hcourse), hs, Option.map_some]
    · intro pair hpair hkeep
      exact dropped now (by rw [drops_placeholder hpair, hkeep]; rfl)
    · intro pair hpair hkeep
      rw [overrideOf_server now hc hpair hkeep]
      cases hso : t.overrideOf pair.serverId with
      | none => cases t.overrideOf pair.placeholderId <;> exact ⟨rfl, rfl⟩
      | some so =>
        have hrival := rivalOf_server hc hpair hkeep (overrideOf_mem hso).choose_spec.2
        cases hpo : t.overrideOf pair.placeholderId with
        | none =>
          rw [hpo] at hrival
          have hsame : mergedRow now t so = so := by simp [mergedRow, hrival]
          exact ⟨congrArg (some ∘ OverrideRow.mark) hsame, congrArg (some ∘ OverrideRow.noteAt) hsame⟩
        | some po =>
          rw [hpo] at hrival
          exact ⟨congrArg some (mergedRow_mark now hrival),
            congrArg some (mergedRow_noteAt now hrival)⟩
    · intro pair hpair hkeep
      obtain ⟨hpo, hso⟩ := overrideOf_of_kept now hc hpair hkeep
      refine ⟨?_, hpo, hso⟩
      rw [get_assignments_of_kept now (by rw [drops_placeholder hpair, hkeep]; rfl)]
      obtain ⟨p, hp, -⟩ := mem_pairs_iff.mp hpair
      rw [hp, Option.map_some, foldedRow_of_none now (placeholderOf_placeholder hpair)]
    · intro id hother
      obtain ⟨hstays, hof⟩ := overrideOf_of_unmerged now hc fun pair hpair hcase =>
        absurd hcase (not_or.mpr (hother pair hpair))
      have hkept : drops t.pairs id = false := by
        rw [Bool.eq_false_iff, ne_eq, drops_iff]
        rintro ⟨pair, hpair, heq, -⟩
        exact (hother pair hpair).1 heq.symm
      have hnone : placeholderOf t id = none := by
        rw [Option.eq_none_iff_forall_ne_some]
        intro p hp
        obtain ⟨pair, hpair, heq, -⟩ := placeholderOf_eq_some hp
        exact (hother pair hpair).2 heq.symm
      refine ⟨?_, hof, hstays⟩
      rw [get_assignments_of_kept now hkept]
      cases t.assignments.get id with
      | none => rfl
      | some a => rw [Option.map_some, foldedRow_of_none now hnone]
    · intro userId hchanged
      have hrecorded : Recorded t userId := by
        by_contra hrecorded
        refine hchanged (fullSync_unchanged now hc hrecorded fun hshows => ?_)
        exact hrecorded (h userId hshows)
      obtain ⟨e, he⟩ := (appended_spec now hc userId).1 hrecorded
      refine ⟨e, he, ?_⟩
      have huser : e.userId = userId := by
        have hmem : e ∈ (appended now (merged now t)).filter (·.userId = userId) := by simp [he]
        simpa using (List.mem_filter.mp hmem).2
      rw [hstates, bump_filter, he, bump_cons, bump, List.foldl_nil, huser, Function.update_self]

end Merge

/-- A student's assignment in a course, neither submitted nor graded. -/
def unmarkedRow (courseId : MoodleId) : AssignmentRow where
  courseName := none
  title := "report"
  dueAt := none
  cutoffAt := none
  allowFromAt := none
  moodleUrl := none
  introHtml := none
  userId := 1
  userCourseId := none
  moodleCourseId := courseId
  moodleAssignmentId := 9
  courseNo := none
  providerIsSubmitted := false
  providerSubmittedAt := none
  providerGradingStatus := none
  providerGrade := none
  deletedAt := none
  updatedAt := 100

/-- The assignment as an app has uploaded it, and as a fetch keeps it. -/
def uploadedAndFetched : Database where
  assignments := (Table.empty.set 1 (unmarkedRow 0)).set 2 (unmarkedRow 3)
  overrides := Table.empty
  states := fun _ => ⟨0, 0⟩
  log := []
  nextRevision := 1
  constraints := by
    refine ⟨?_, fun _ _ _ _ h => by simp at h, fun _ _ h => by simp at h⟩
    intro i j a b ha hb _ hcourse _
    simp only [Table.get_set, Table.get_empty] at ha hb
    split at ha <;> split at hb
    · simp_all
    · split at hb
      · obtain rfl := Option.some.inj ha
        obtain rfl := Option.some.inj hb
        cases hcourse
      · cases hb
    · split at ha
      · obtain rfl := Option.some.inj ha
        obtain rfl := Option.some.inj hb
        cases hcourse
      · cases ha
    · split at ha <;> split at hb <;> simp_all

/-- The placeholder goes from the student's `/sync/full`, and nothing says so. -/
theorem deletion_not_logged : ¬MergesWell uploadedAndFetched.toTables (uploadedAndFetched.upgrade 300).toTables := by
  intro h
  obtain ⟨entries, hentries, hlogged⟩ := h.logged
  have hnone : (uploadedAndFetched.upgrade 300).log = [] := by decide +kernel
  have hchanged : (uploadedAndFetched.upgrade 300).fullSync 1 ≠ uploadedAndFetched.fullSync 1 := by decide +kernel
  obtain ⟨e, he, -⟩ := hlogged 1 hchanged
  rw [hnone] at hentries
  obtain rfl : entries = [] := (List.append_eq_nil_iff.mp hentries.symm).2
  cases he

end TigerDuck.Sync.PlaceholderMerge
