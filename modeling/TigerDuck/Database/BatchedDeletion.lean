import Mathlib.Data.Finset.Card
import Mathlib.Data.List.GetD
import Mathlib.Data.PNat.Basic
import Mathlib.Data.Prod.Lex
import TigerDuck.Relational.Keyset
import TigerDuck.Relational.Table
import TigerDuck.Transition.Loop

/-!
# Batched deletion

`delete_in_batches` of `server/db.py`: the retention purges delete the rows that match, oldest id
first and some rows per transaction, with a follow-up in the same transaction. Postgres may abort
any try of a batch as a deadlock, which rolls the whole of it back.

One round is one try. The locks a batch takes on accounts and devices are only waited for; what
other transactions commit before its read, or between its read and its delete, is part of the
round, and there are finitely many rounds with such commits. Ids are serial, from 1.

- `PurgeInv`: what a purge has done up to its cursor, where no one else writes.
- `purge_exact`: the purge returns, and what it has deleted.
-/

namespace TigerDuck.Database

open Relational Transition

universe u

/-- A serial id. -/
abbrev RowId := ℕ+

def PRUNE_BATCH_ATTEMPTS : ℕ := 3

/-- What other transactions commit around one try of a batch. -/
structure Others (α : Type u) where
  beforeRead : Table RowId α → Table RowId α
  beforeDelete : Table RowId α → Table RowId α

/-- A purge between two of its transactions. -/
structure Purge (α : Type u) where
  table : Table RowId α
  deleted : ℕ
  after : ℕ
  attempt : ℕ
  /-- The committed runs of `then`, each with the rows it was given. -/
  followed : List (List (RowId × α))
  /-- Whether it stopped early, once it has returned. -/
  returned : Option Bool

/-- A purge, with the outside: which tries are deadlocks, and what others commit around them. -/
structure PurgeInput (α : Type u) where
  table : Table RowId α
  /-- `where`. -/
  matching : RowId → α → Bool
  batchRows : ℕ+
  deadlock : ℕ → Bool
  others : List (Others α)

namespace PurgeInput

variable {α : Type u} (i : PurgeInput α)

/-- The rows a batch reads. -/
def readBatch (table : Table RowId α) (after : ℕ) : List (RowId × α) :=
  firstBy Prod.fst i.batchRows (table.select fun id a => decide (after < id) && i.matching id a)

/-- Whether the `DELETE` of a batch picks a row: it was read, and it still matches. -/
def picks (batch : List (RowId × α)) (id : RowId) (a : α) : Bool :=
  (batch.map Prod.fst).contains id && i.matching id a

/-- `_delete_batch` with what `delete_in_batches` makes of it. -/
def commitBatch (s : Purge α) (beforeDelete : Table RowId α → Table RowId α) : Purge α :=
  let batch := i.readBatch s.table s.after
  let table := beforeDelete s.table
  let rows := table.select (i.picks batch)
  { table := table.deleteWhere (i.picks batch)
    deleted := s.deleted + rows.length
    after :=
      if batch.length < i.batchRows then s.after
      else (batch.getLast?.map fun r => (r.1 : ℕ)).getD s.after
    attempt := 1
    -- `then` runs only on rows that went.
    followed := if rows.isEmpty then s.followed else s.followed ++ [rows]
    returned := if batch.length < i.batchRows then some false else none }

/-- A try that Postgres aborts. -/
def rollBack (s : Purge α) : Purge α :=
  if s.attempt < PRUNE_BATCH_ATTEMPTS then { s with attempt := s.attempt + 1 }
  else { s with returned := some true }

/-- One try of a batch. -/
def next (s : Purge α) (input : Bool × Option (Others α)) : Purge α :=
  let (deadlock, others) := input
  match s.returned with
  | some _ => s
  | none =>
    let s := { s with table := (others.map (·.beforeRead)).getD id s.table }
    if deadlock then rollBack s
    else i.commitBatch s ((others.map (·.beforeDelete)).getD id)

/-- `delete_in_batches` before its first try. -/
def start : Purge α := ⟨i.table, 0, 0, 1, [], none⟩

/-- The purge after some tries. -/
def run : ℕ → Purge α := loop i.next i.start fun n => (i.deadlock n, i.others[n]?)

/-! ### What a batch deletes -/

/-- The rows a purge has deleted by then: those that match, up to its cursor or all. -/
def gone (s : Purge α) (id : RowId) (a : α) : Bool :=
  i.matching id a && (decide ((id : ℕ) ≤ s.after) || s.returned == some false)

/-- What a purge has done up to its cursor, where no one else writes. -/
structure PurgeInv (s : Purge α) : Prop where
  table : ∀ id, s.table.get id = (i.table.get id).filter fun a => !i.gone s id a
  followed : s.followed.flatten.Perm (i.table.select (i.gone s))
  deleted : s.deleted = s.followed.flatten.length

variable {i} {s : Purge α}

theorem mem_readBatch {table : Table RowId α} {after : ℕ} {r : RowId × α}
    (h : r ∈ i.readBatch table after) :
    table.get r.1 = some r.2 ∧ after < (r.1 : ℕ) ∧ i.matching r.1 r.2 = true := by
  obtain ⟨hrow, hpicked⟩ := (Table.mem_select_iff ..).mp (mem_of_mem_firstBy h)
  rw [Bool.and_eq_true, decide_eq_true_eq] at hpicked
  exact ⟨hrow, hpicked⟩

/-- A batch that is full goes up to its last row, and one that is not has all that is left. -/
theorem mem_readBatch_iff {table : Table RowId α} {after : ℕ} {r : RowId × α}
    (hrow : table.get r.1 = some r.2) :
    r ∈ i.readBatch table after ↔ after < (r.1 : ℕ) ∧ i.matching r.1 r.2 = true ∧
      ((i.readBatch table after).length < i.batchRows ∨
        ∃ last, (i.readBatch table after).getLast? = some last ∧ r.1 ≤ last.1) := by
  have hselected : r ∈ table.select (fun id a => decide (after < id) && i.matching id a) ↔
      after < (r.1 : ℕ) ∧ i.matching r.1 r.2 = true := by
    rw [Table.mem_select_iff, Bool.and_eq_true, decide_eq_true_eq]
    exact ⟨fun h => h.2, fun h => ⟨hrow, h⟩⟩
  have hnodup := table.select_keys_nodup fun id a => decide (after < id) && i.matching id a
  by_cases hshort : (i.readBatch table after).length < i.batchRows
  · rw [readBatch, (firstBy_perm_of_lt hshort).mem_iff, hselected]
    exact ⟨fun h => ⟨h.1, h.2, .inl hshort⟩, fun h => ⟨h.1, h.2.1⟩⟩
  · have hne : i.readBatch table after ≠ [] := fun hnil => hshort (by
      rw [hnil]
      exact i.batchRows.pos)
    have hlast := List.getLast?_eq_some_getLast hne
    rw [readBatch, (firstBy_perm_filter hnodup hlast).mem_iff, List.mem_filter, hselected,
      decide_eq_true_eq]
    constructor
    · rintro ⟨⟨hafter, hmatching⟩, hle⟩
      exact ⟨hafter, hmatching, .inr ⟨_, hlast, hle⟩⟩
    · rintro ⟨hafter, hmatching, hshort' | ⟨last, hlast', hle⟩⟩
      · exact absurd hshort' hshort
      · obtain rfl := Option.some.inj (hlast.symm.trans hlast')
        exact ⟨⟨hafter, hmatching⟩, hle⟩

/-- Where nothing came between, a `DELETE` picks the rows its batch read. -/
theorem picks_iff {table : Table RowId α} {after : ℕ} {id : RowId} {a : α}
    (hrow : table.get id = some a) :
    i.picks (i.readBatch table after) id a = true ↔ (id, a) ∈ i.readBatch table after := by
  rw [picks, Bool.and_eq_true, List.contains_iff_mem]
  constructor
  · rintro ⟨hid, -⟩
    obtain ⟨⟨_, a'⟩, hmem, rfl⟩ := List.mem_map.mp hid
    obtain rfl : a = a' := Option.some.inj (hrow.symm.trans (mem_readBatch hmem).1)
    exact hmem
  · exact fun hmem => ⟨List.mem_map_of_mem hmem, (mem_readBatch hmem).2.2⟩

theorem PurgeInv.get_eq_some_iff (h : i.PurgeInv s) {id : RowId} {a : α} :
    s.table.get id = some a ↔ i.table.get id = some a ∧ i.gone s id a = false := by
  rw [h.table, Option.filter_eq_some_iff, Bool.not_eq_true']

/-- What is gone after a batch: what was gone before, and the rows the batch picked. -/
theorem PurgeInv.gone_commitBatch (h : i.PurgeInv s) (hgoing : s.returned = none) {id : RowId}
    {a : α} (hrow : i.table.get id = some a) :
    i.gone (i.commitBatch s fun t => t) id a = true ↔ i.gone s id a = true ∨
      s.table.get id = some a ∧ i.picks (i.readBatch s.table s.after) id a = true := by
  have hgone : i.gone s id a = true ↔ i.matching id a = true ∧ (id : ℕ) ≤ s.after := by
    simp [gone, hgoing]
  have hgone' : i.gone (i.commitBatch s fun t => t) id a = true ↔ i.matching id a = true ∧
      ((id : ℕ) ≤ s.after ∨ (i.readBatch s.table s.after).length < i.batchRows ∨
        ∃ last, (i.readBatch s.table s.after).getLast? = some last ∧ id ≤ last.1) := by
    by_cases hshort : (i.readBatch s.table s.after).length < i.batchRows
    · simp [gone, commitBatch, hshort]
    · have hne : i.readBatch s.table s.after ≠ [] := fun hnil => hshort (by
        rw [hnil]
        exact i.batchRows.pos)
      have hlast := List.getLast?_eq_some_getLast hne
      have hafter := (mem_readBatch (List.getLast_mem hne)).2.1
      simp only [gone, commitBatch, hshort, hlast, if_false, Option.map_some, Option.getD_some,
        Bool.and_eq_true, Bool.or_eq_true, decide_eq_true_eq, Option.some.injEq, exists_eq_left',
        false_or, PNat.coe_le_coe]
      -- The batch goes on past the old cursor.
      have hless : (id : ℕ) ≤ s.after → id ≤ ((i.readBatch s.table s.after).getLast hne).1 :=
        fun hle => PNat.coe_le_coe _ _ |>.mp (hle.trans hafter.le)
      have hgoing' : (none == some false : Bool) = false := rfl
      simp only [hgoing', Bool.false_eq_true, or_false]
      exact and_congr_right fun _ => (or_iff_right_of_imp hless).symm
  rw [hgone', hgone]
  constructor
  · rintro ⟨hmatching, hle | hpast⟩
    · exact .inl ⟨hmatching, hle⟩
    · by_cases hle : (id : ℕ) ≤ s.after
      · exact .inl ⟨hmatching, hle⟩
      · have hstored : s.table.get id = some a := h.get_eq_some_iff.mpr
          ⟨hrow, Bool.eq_false_iff.mpr fun hg => hle (hgone.mp hg).2⟩
        refine .inr ⟨hstored, (picks_iff hstored).mpr ?_⟩
        exact (mem_readBatch_iff hstored).mpr ⟨Nat.lt_of_not_le hle, hmatching, hpast⟩
  · rintro (⟨hmatching, hle⟩ | ⟨hstored, hpicked⟩)
    · exact ⟨hmatching, .inl hle⟩
    · obtain ⟨-, hmatching, hpast⟩ :=
        (mem_readBatch_iff (r := (id, a)) hstored).mp ((picks_iff hstored).mp hpicked)
      exact ⟨hmatching, .inr hpast⟩

/-- A batch that commits. -/
theorem PurgeInv.commitBatch (h : i.PurgeInv s) (hgoing : s.returned = none) :
    i.PurgeInv (i.commitBatch s fun t => t) := by
  have hflatten : (i.commitBatch s fun t => t).followed.flatten =
      s.followed.flatten ++ s.table.select (i.picks (i.readBatch s.table s.after)) := by
    show (if _ then _ else _ : List (List (RowId × α))).flatten = _
    split
    next hempty => rw [List.isEmpty_iff.mp hempty, List.append_nil]
    next => rw [List.flatten_append, List.flatten_singleton]
  constructor
  case table =>
    intro id
    show (s.table.deleteWhere (i.picks (i.readBatch s.table s.after))).get id = _
    rw [Table.get_deleteWhere, h.table]
    cases hrow : i.table.get id with
    | none => rfl
    | some a =>
      have hgone := h.gone_commitBatch hgoing hrow
      by_cases hbefore : i.gone s id a = true
      · rw [Option.filter_some, Option.filter_some, hgone.mpr (.inl hbefore), hbefore]
        rfl
      · have hstored : s.table.get id = some a :=
          h.get_eq_some_iff.mpr ⟨hrow, Bool.eq_false_iff.mpr hbefore⟩
        have hsame : i.gone (i.commitBatch s fun t => t) id a =
            i.picks (i.readBatch s.table s.after) id a := by
          rw [Bool.eq_iff_iff, hgone]
          exact ⟨fun hor => (hor.resolve_left hbefore).2, fun hpicked => .inr ⟨hstored, hpicked⟩⟩
        simp only [Option.filter_some, hsame, Bool.eq_false_iff.mpr hbefore, Bool.not_false, if_true]
  case followed =>
    rw [hflatten]
    refine (h.followed.append_right _).trans ?_
    have hnodup (t : Table RowId α) (p : RowId → α → Bool) : (t.select p).Nodup :=
      (t.select_keys_nodup p).of_map
    refine (List.perm_ext_iff_of_nodup ?_ (hnodup _ _)).mpr fun ⟨id, a⟩ => ?_
    · refine List.nodup_append.mpr ⟨hnodup _ _, hnodup _ _, ?_⟩
      rintro ⟨id, a⟩ hold _ hnew rfl
      -- What is gone is not in the table any more.
      obtain ⟨hstored, -⟩ := (Table.mem_select_iff ..).mp hnew
      have hgone := ((Table.mem_select_iff ..).mp hold).2
      rw [(h.get_eq_some_iff.mp hstored).2] at hgone
      cases hgone
    · rw [List.mem_append, Table.mem_select_iff, Table.mem_select_iff, Table.mem_select_iff]
      constructor
      · rintro (⟨hrow, hgone⟩ | ⟨hstored, hpicked⟩)
        · exact ⟨hrow, (h.gone_commitBatch hgoing hrow).mpr (.inl hgone)⟩
        · have hrow := (h.get_eq_some_iff.mp hstored).1
          exact ⟨hrow, (h.gone_commitBatch hgoing hrow).mpr (.inr ⟨hstored, hpicked⟩)⟩
      · rintro ⟨hrow, hgone⟩
        rcases (h.gone_commitBatch hgoing hrow).mp hgone with hbefore | hpicked
        · exact .inl ⟨hrow, hbefore⟩
        · exact .inr hpicked
  case deleted =>
    rw [hflatten, List.length_append, ← h.deleted]
    rfl

/-! ### Tries -/

theorem purgeInv_start (i : PurgeInput α) : i.PurgeInv i.start := by
  have hnone (id : RowId) (a : α) : i.gone i.start id a = false := by
    have hpos : ¬(id : ℕ) ≤ 0 := Nat.not_le.mpr id.pos
    have hfalse : (none == some false : Bool) = false := rfl
    simp only [gone, start, hpos, decide_false, hfalse, Bool.or_false, Bool.and_false]
  constructor
  case table =>
    intro id
    show i.table.get id = _
    cases i.table.get id with
    | none => rfl
    | some a => rw [Option.filter_some, hnone, Bool.not_false, if_pos rfl]
  case followed =>
    have hselect : i.table.select (i.gone i.start) = [] := by
      rw [Table.select, List.filter_eq_nil_iff]
      exact fun r _ => Bool.eq_false_iff.mp (hnone r.1 r.2)
    rw [hselect]
    exact List.Perm.nil
  case deleted => rfl

theorem next_of_returned {stopped : Bool} (h : s.returned = some stopped)
    (input : Bool × Option (Others α)) : i.next s input = s := by
  unfold next
  dsimp only
  split
  next => rfl
  next hgoing =>
    rw [h] at hgoing
    cases hgoing

/-- A try, where no one else writes. -/
theorem next_alone (hgoing : s.returned = none) (deadlock : Bool) :
    i.next s (deadlock, none) = if deadlock then rollBack s else i.commitBatch s fun t => t := by
  unfold next
  dsimp only
  split
  next hreturned =>
    rw [hgoing] at hreturned
    cases hreturned
  next => rfl

theorem purgeInv_next (h : i.PurgeInv s) (deadlock : Bool) : i.PurgeInv (i.next s (deadlock, none)) := by
  cases hgoing : s.returned with
  | some stopped =>
    rw [next_of_returned hgoing]
    exact h
  | none =>
    rw [next_alone hgoing]
    split
    · -- A rolled-back try leaves the cursor and the rows alone.
      unfold rollBack
      split
      · exact ⟨h.table, h.followed, h.deleted⟩
      · have hgone : i.gone { s with returned := some true } = i.gone s := by
          funext id a
          unfold gone
          rw [hgoing]
          rfl
        constructor
        case table =>
          rw [hgone]
          exact h.table
        case followed =>
          rw [hgone]
          exact h.followed
        case deleted => exact h.deleted
    · exact h.commitBatch hgoing

theorem attempt_next (h : s.attempt ≤ PRUNE_BATCH_ATTEMPTS) (input : Bool × Option (Others α)) :
    (i.next s input).attempt ≤ PRUNE_BATCH_ATTEMPTS := by
  unfold next
  dsimp only
  split
  next => exact h
  next =>
    split
    · unfold rollBack
      dsimp only
      split
      next hless => exact hless
      next => exact h
    · exact Nat.le_of_ble_eq_true rfl

/-- The ids a purge has not come to. -/
def ahead (s : Purge α) : Finset RowId := s.table.keys.toFinset.filter fun id => s.after < (id : ℕ)

/-- The tries there may be before the next batch. -/
def triesLeft (s : Purge α) : ℕ := if s.returned = none then PRUNE_BATCH_ATTEMPTS + 1 - s.attempt else 0

def measure (s : Purge α) : ℕ ×ₗ ℕ := toLex ((ahead s).card, triesLeft s)

theorem mem_ahead_iff {id : RowId} :
    id ∈ ahead s ↔ (∃ a, s.table.get id = some a) ∧ s.after < (id : ℕ) := by
  rw [ahead, Finset.mem_filter, List.mem_toFinset, Table.mem_keys_iff, Option.isSome_iff_exists]

theorem measure_rollBack (h : s.attempt ≤ PRUNE_BATCH_ATTEMPTS) (hgoing : s.returned = none) :
    measure (rollBack s) < measure s := by
  have hleft : triesLeft s = PRUNE_BATCH_ATTEMPTS + 1 - s.attempt := if_pos hgoing
  unfold rollBack
  split
  next hless =>
    refine Prod.Lex.toLex_lt_toLex'.mpr ⟨le_rfl, fun _ => ?_⟩
    show triesLeft { s with attempt := s.attempt + 1 } < triesLeft s
    have hleft' : triesLeft { s with attempt := s.attempt + 1 } =
        PRUNE_BATCH_ATTEMPTS + 1 - (s.attempt + 1) := if_pos hgoing
    omega
  next =>
    refine Prod.Lex.toLex_lt_toLex'.mpr ⟨le_rfl, fun _ => ?_⟩
    show 0 < triesLeft s
    omega

/-- A batch that is full takes the cursor on; one that is not is the last. -/
theorem measure_commitBatch (h : s.attempt ≤ PRUNE_BATCH_ATTEMPTS) (hgoing : s.returned = none) :
    measure (i.commitBatch s fun t => t) < measure s := by
  have hstored {id : RowId} (hid : ∃ a, (i.commitBatch s fun t => t).table.get id = some a) :
      ∃ a, s.table.get id = some a := by
    obtain ⟨a, ha⟩ := hid
    have ha : (s.table.deleteWhere (i.picks (i.readBatch s.table s.after))).get id = some a := ha
    rw [Table.get_deleteWhere] at ha
    exact ⟨a, (Option.filter_eq_some_iff.mp ha).1⟩
  by_cases hshort : (i.readBatch s.table s.after).length < i.batchRows
  · have hafter : (i.commitBatch s fun t => t).after = s.after := if_pos hshort
    have hsub : ahead (i.commitBatch s fun t => t) ⊆ ahead s := by
      intro id hid
      obtain ⟨hid, hpast⟩ := mem_ahead_iff.mp hid
      exact mem_ahead_iff.mpr ⟨hstored hid, hafter ▸ hpast⟩
    refine Prod.Lex.toLex_lt_toLex'.mpr ⟨Finset.card_le_card hsub, fun _ => ?_⟩
    have hdone : (i.commitBatch s fun t => t).returned = some false := if_pos hshort
    have hleft : triesLeft (i.commitBatch s fun t => t) = 0 := by
      rw [triesLeft, hdone]
      rfl
    have hleft' : triesLeft s = PRUNE_BATCH_ATTEMPTS + 1 - s.attempt := if_pos hgoing
    show triesLeft (i.commitBatch s fun t => t) < triesLeft s
    omega
  · have hne : i.readBatch s.table s.after ≠ [] := fun hnil => hshort (by
      rw [hnil]
      exact i.batchRows.pos)
    obtain ⟨hlast, hpast, -⟩ := mem_readBatch (List.getLast_mem hne)
    have hafter : (i.commitBatch s fun t => t).after =
        ((i.readBatch s.table s.after).getLast hne).1 := by
      show (if _ then _ else _) = _
      rw [if_neg hshort, List.getLast?_eq_some_getLast hne, Option.map_some, Option.getD_some]
    refine Prod.Lex.toLex_lt_toLex'.mpr ?_
    have hless : ahead (i.commitBatch s fun t => t) ⊂ ahead s := by
      have hsub : ahead (i.commitBatch s fun t => t) ⊆ ahead s := by
        intro id hid
        obtain ⟨hid, hid'⟩ := mem_ahead_iff.mp hid
        rw [hafter] at hid'
        exact mem_ahead_iff.mpr ⟨hstored hid, hpast.trans hid'⟩
      -- The batch's last row is not ahead any more.
      refine (Finset.ssubset_iff_of_subset hsub).mpr ⟨_, mem_ahead_iff.mpr ⟨⟨_, hlast⟩, hpast⟩, ?_⟩
      intro hid
      have hself := (mem_ahead_iff.mp hid).2
      rw [hafter] at hself
      exact Nat.lt_irrefl _ hself
    have hcard := Finset.card_lt_card hless
    exact ⟨hcard.le, fun heq => absurd heq (Nat.ne_of_lt hcard)⟩

theorem measure_next (h : s.attempt ≤ PRUNE_BATCH_ATTEMPTS) (hgoing : s.returned = none)
    (deadlock : Bool) : measure (i.next s (deadlock, none)) < measure s := by
  rw [next_alone hgoing]
  split
  · exact measure_rollBack h hgoing
  · exact measure_commitBatch h hgoing

/-! ### Whole purges -/

theorem run_succ (n : ℕ) : i.run (n + 1) = i.next (i.run n) (i.deadlock n, i.others[n]?) := rfl

/-- A purge that is at some try of a batch has had its tries before aborted. -/
theorem deadlock_of_attempt {n : ℕ} (hgoing : (i.run n).returned = none) {k : ℕ}
    (hk : k + 1 < (i.run n).attempt) : k < n ∧ i.deadlock (n - 1 - k) = true := by
  induction n generalizing k with
  | zero => exact absurd hk (by simp [run, start])
  | succ n ih =>
    rw [run_succ] at hgoing hk
    cases hreturned : (i.run n).returned with
    | some stopped =>
      rw [next_of_returned hreturned, hreturned] at hgoing
      cases hgoing
    | none =>
      unfold next at hk
      simp only [hreturned] at hk
      split at hk
      next hdeadlock =>
        have hattempt : k < (i.run n).attempt := by
          unfold rollBack at hk
          split at hk
          · exact Nat.succ_lt_succ_iff.mp hk
          · exact Nat.lt_of_succ_lt hk
        cases k with
        | zero => exact ⟨Nat.succ_pos n, hdeadlock⟩
        | succ k =>
          obtain ⟨hlt, hbefore⟩ := ih hreturned hattempt
          refine ⟨Nat.succ_lt_succ hlt, ?_⟩
          have hround : n + 1 - 1 - (k + 1) = n - 1 - k := by omega
          rwa [hround]
      next =>
        have hone : k + 1 < 1 := hk
        omega

/-- A purge stops early only after the tries of one batch, all aborted. -/
theorem deadlocks_of_stopped {n : ℕ} (h : (i.run n).returned = some true) :
    ∃ m, m + PRUNE_BATCH_ATTEMPTS ≤ n ∧ ∀ k < PRUNE_BATCH_ATTEMPTS, i.deadlock (m + k) = true := by
  induction n with
  | zero => cases h
  | succ n ih =>
    rw [run_succ] at h
    cases hreturned : (i.run n).returned with
    | some stopped =>
      rw [next_of_returned hreturned] at h
      obtain ⟨m, hm, hdeadlocks⟩ := ih h
      exact ⟨m, Nat.le_succ_of_le hm, hdeadlocks⟩
    | none =>
      unfold next at h
      simp only [hreturned] at h
      split at h
      next hdeadlock =>
        unfold rollBack at h
        split at h
        next => cases h
        next hlast =>
          have hlast : 3 ≤ (i.run n).attempt := Nat.le_of_not_lt hlast
          obtain ⟨-, hfirst⟩ := deadlock_of_attempt (k := 0) hreturned (by omega)
          obtain ⟨hn, hsecond⟩ := deadlock_of_attempt (k := 1) hreturned (by omega)
          refine ⟨n - 2, by show n - 2 + 3 ≤ n + 1; omega, fun k hk => ?_⟩
          have hk : k < 3 := hk
          obtain rfl | rfl | rfl : k = 0 ∨ k = 1 ∨ k = 2 := by omega
          · rwa [Nat.sub_sub] at hsecond
          · have hround : n - 2 + 1 = n - 1 - 0 := by omega
            rwa [hround]
          · have hround : n - 2 + 2 = n := by omega
            rwa [hround]
      next =>
        have hshort : (if _ then some false else none : Option Bool) = some true := h
        split at hshort <;> cases hshort

theorem run_returns (i : PurgeInput α) : ∃ n, (i.run n).returned ≠ none := by
  have hattempt (n : ℕ) : (i.run n).attempt ≤ PRUNE_BATCH_ATTEMPTS :=
    loop_invariant _ (fun s : Purge α => s.attempt ≤ PRUNE_BATCH_ATTEMPTS) (Nat.le_of_ble_eq_true rfl)
      (fun _ input h => attempt_next h input) n
  have hstops : ∃ n, (loop i.next (i.run i.others.length) (fun k =>
      (i.deadlock (i.others.length + k), i.others[i.others.length + k]?)) n).returned ≠ none := by
    refine loop_stops wellFounded_lt measure (fun s : Purge α => s.attempt ≤ PRUNE_BATCH_ATTEMPTS)
      (fun s => s.returned ≠ none) (fun input => input.2 = none)
      (fun _ input h => attempt_next h input) ?_ (hattempt _) fun k => ?_
    · rintro s ⟨deadlock, others⟩ h hgoing rfl
      exact measure_next h (not_not.mp hgoing) deadlock
    · exact List.getElem?_eq_none (Nat.le_add_right _ k)
  obtain ⟨n, hn⟩ := hstops
  refine ⟨i.others.length + n, ?_⟩
  rw [run, loop_add]
  exact hn

theorem purgeInv_run (halone : i.others = []) (n : ℕ) : i.PurgeInv (i.run n) := by
  induction n with
  | zero => exact purgeInv_start i
  | succ n ih =>
    rw [run_succ, halone]
    exact purgeInv_next ih (i.deadlock n)

end PurgeInput

/-- What a purge does. -/
structure PurgeExact {α : Type u} (i : PurgeInput α) : Prop where
  returns : ∃ n, (i.run n).returned ≠ none
  /-- It stops early only when Postgres aborts every try of one batch. -/
  retried : ∀ n, (i.run n).returned = some true → ∃ m, m + PRUNE_BATCH_ATTEMPTS ≤ n ∧
    ∀ k < PRUNE_BATCH_ATTEMPTS, i.deadlock (m + k) = true
  /-- Where no one else writes, a purge that goes through deletes exactly the rows that match, and
  runs its follow-up on each of them once, whatever tries were aborted. -/
  exact : i.others = [] → ∀ n, (i.run n).returned = some false →
    (∀ id, (i.run n).table.get id = (i.table.get id).filter fun a => !i.matching id a) ∧
      (i.run n).followed.flatten.Perm (i.table.select i.matching) ∧
        (i.run n).deleted = (i.table.select i.matching).length
  /-- Between two tries, and when it has stopped early, it has done so up to its cursor. -/
  upTo : i.others = [] → ∀ n, (i.run n).returned ≠ some false →
    let p := fun (id : RowId) a => i.matching id a && decide ((id : ℕ) ≤ (i.run n).after)
    (∀ id, (i.run n).table.get id = (i.table.get id).filter fun a => !p id a) ∧
      (i.run n).followed.flatten.Perm (i.table.select p) ∧
        (i.run n).deleted = (i.table.select p).length

/-- **Batched deletion is exact.** -/
theorem purge_exact {α : Type u} (i : PurgeInput α) : PurgeExact i where
  returns := i.run_returns
  retried := fun _ h => PurgeInput.deadlocks_of_stopped h
  exact := fun halone n hreturned => by
    have h := PurgeInput.purgeInv_run halone n
    have hgone : i.gone (i.run n) = i.matching := by
      funext id a
      unfold PurgeInput.gone
      rw [hreturned]
      simp
    refine ⟨fun id => ?_, hgone ▸ h.followed, ?_⟩
    · rw [h.table, hgone]
    · rw [h.deleted, h.followed.length_eq, hgone]
  upTo := fun halone n hreturned => by
    have h := PurgeInput.purgeInv_run halone n
    have hgone : i.gone (i.run n) =
        fun id a => i.matching id a && decide ((id : ℕ) ≤ (i.run n).after) := by
      funext id a
      unfold PurgeInput.gone
      rw [beq_eq_false_iff_ne.mpr hreturned, Bool.or_false]
    refine ⟨fun id => ?_, hgone ▸ h.followed, ?_⟩
    · rw [h.table, hgone]
    · rw [h.deleted, h.followed.length_eq, hgone]

end TigerDuck.Database
