import TigerDuck.Sync.Changelog

/-!
# Paging the change log

The rows and watermarks of the change log in every interleaving (`LogInv`), and what a
client that follows the feed has received (`ClientInv`).

## Main results

- `paging_has_no_gap`: as long as no purge commits past a page's cursor between the page's
  two statements, no page hides a change.
- `paging_skips_purged`: a purge between them hides what it deleted, and the client is not
  told.
-/

namespace TigerDuck.Sync.Changelog

open Transition

variable {ε : Type}

/-- The order of the committed rows, and what open transactions may add to them. -/
structure LogInv (db : Db ε) : Prop where
  /-- A user's watermark covers all its rows, and the sequence is past every watermark. -/
  history_le : ∀ r ∈ db.history, r.revision ≤ (db.states r.userId).currentRevision
  current_lt : ∀ userId, (db.states userId).currentRevision < db.nextRevision
  compacted_le : ∀ userId,
    (db.states userId).compactedRevision ≤ (db.states userId).currentRevision
  /-- A user's rows are committed in the order of their revisions. -/
  history_sorted : db.history.Pairwise fun a b => a.userId = b.userId → a.revision < b.revision
  /-- The log holds what the purge has not deleted. -/
  log_eq : db.log = db.history.filter fun r => (db.states r.userId).compactedRevision < r.revision
  /-- A row waits for its commit under its user's lock, past the user's watermark. -/
  inserted : ∀ t rows, db.txns t = some (.append rows) →
    (rows.Pairwise fun a b => a.revision < b.revision) ∧
      ∀ r ∈ rows, db.locks r.userId = some t ∧ r.revision < db.nextRevision ∧
        (db.states r.userId).currentRevision < r.revision
  /-- A purge deletes committed rows only. -/
  purged : ∀ t todo done, db.txns t = some (.purge todo done) →
    ∀ p ∈ todo ++ done, p.2 ≤ (db.states p.1).currentRevision

theorem logInv_initial (start : Nat) : LogInv (Db.initial (ε := ε) start) where
  history_le := fun r hr => absurd hr List.not_mem_nil
  current_lt := fun _ => Nat.one_pos
  compacted_le := fun _ => le_rfl
  history_sorted := List.Pairwise.nil
  log_eq := rfl
  inserted := fun _ _ h => by cases h
  purged := fun _ _ _ h => by cases h

namespace LogInv

variable {db : Db ε} (h : LogInv db)

include h

/-- Rows of different users never share a revision with what is to come, and a user's rows
lie past its compaction. -/
theorem compacted_lt_inserted {t : TxnId} {rows : List (UserChangeLog ε)}
    (ht : db.txns t = some (.append rows)) {r : UserChangeLog ε} (hr : r ∈ rows) :
    (db.states r.userId).compactedRevision < r.revision :=
  (h.compacted_le r.userId).trans_lt ((h.inserted t rows ht).2 r hr).2.2

/-- Taking a lock, and changing the work of its own transaction, keeps the log. -/
theorem lockFor {t : TxnId} {userId : UserId} {work : Txn ε} {db' : Db ε}
    (hstep : db.lockFor t userId work = some db')
    (happend : ∀ rows, work = .append rows → rows = [] ∨ db.txns t = some (.append rows))
    (hpurge : ∀ todo done, work = .purge todo done →
      ∀ p ∈ todo ++ done, p.2 ≤ (db.states p.1).currentRevision) :
    LogInv db' := by
  unfold Db.lockFor at hstep
  split at hstep
  next havailable =>
    cases hstep
    refine { h with inserted := ?_, purged := ?_ }
    · intro t' rows ht'
      -- Rows another transaction inserted stay under its locks.
      have hold : ∀ t', db.txns t' = some (.append rows) →
          (rows.Pairwise fun a b => a.revision < b.revision) ∧
            ∀ r ∈ rows, db.locks.lock t userId r.userId = some t' ∧
              r.revision < db.nextRevision ∧
                (db.states r.userId).currentRevision < r.revision := by
        intro t' ht'
        obtain ⟨hsorted, hrows⟩ := h.inserted t' rows ht'
        refine ⟨hsorted, fun r hr => ?_⟩
        obtain ⟨hlock, hrest⟩ := hrows r hr
        exact ⟨RowLocks.lock_of_held hlock havailable, hrest⟩
      rcases update_cases ht' with ⟨rfl, hwork⟩ | ⟨_, ht'⟩
      · rcases happend rows (Option.some.inj hwork) with rfl | ht'
        · exact ⟨List.Pairwise.nil, fun r hr => absurd hr List.not_mem_nil⟩
        · exact hold _ ht'
      · exact hold t' ht'
    · intro t' todo done ht'
      rcases update_cases ht' with ⟨rfl, hwork⟩ | ⟨_, ht'⟩
      · exact hpurge todo done (Option.some.inj hwork)
      · exact h.purged t' todo done ht'
  next => cases hstep

/-- An insert draws a revision past every watermark. -/
theorem insertRow {t : TxnId} {rows : List (UserChangeLog ε)}
    (ht : db.txns t = some (.append rows)) {userId : UserId} (hlock : db.locks userId = some t)
    (createdAt : Time) (change : ε) :
    LogInv (db.insertRow t rows userId createdAt change) := by
  have hnext := Nat.lt_succ_self db.nextRevision
  refine { h with current_lt := fun u => (h.current_lt u).trans hnext, inserted := ?_, purged := ?_ }
  · intro t' rows' ht'
    rcases update_cases ht' with ⟨rfl, hwork⟩ | ⟨_, ht'⟩
    · cases hwork
      obtain ⟨hsorted, hrows⟩ := h.inserted _ rows ht
      constructor
      · rw [List.pairwise_append]
        refine ⟨hsorted, List.pairwise_singleton _ _, ?_⟩
        intro a ha b hb
        obtain rfl := List.mem_singleton.mp hb
        exact (hrows a ha).2.1
      · intro r hr
        rcases List.mem_append.mp hr with hr | hr
        · obtain ⟨hheld, hlt, hpast⟩ := hrows r hr
          exact ⟨hheld, hlt.trans hnext, hpast⟩
        · obtain rfl := List.mem_singleton.mp hr
          exact ⟨hlock, hnext, h.current_lt userId⟩
    · obtain ⟨hsorted, hrows⟩ := h.inserted t' rows' ht'
      refine ⟨hsorted, fun r hr => ?_⟩
      obtain ⟨hheld, hlt, hpast⟩ := hrows r hr
      exact ⟨hheld, hlt.trans hnext, hpast⟩
  · intro t' todo done ht'
    rcases update_cases ht' with ⟨_, hwork⟩ | ⟨_, ht'⟩
    · cases hwork
    · exact h.purged t' todo done ht'

/-- A commit publishes rows past the watermarks of their users, whom no other open
transaction has rows of. -/
theorem commitRows {t : TxnId} {rows : List (UserChangeLog ε)}
    (ht : db.txns t = some (.append rows)) : LogInv (db.commitRows t rows) := by
  obtain ⟨hsorted, hrows⟩ := h.inserted t rows ht
  obtain ⟨hmono, hlast⟩ := le_bump db.states hsorted fun r hr => (hrows r hr).2.2
  refine ⟨?_, ?_, ?_, ?_, ?_, ?_, ?_⟩
  · intro r hr
    rcases List.mem_append.mp hr with hr | hr
    · exact (h.history_le r hr).trans (hmono r.userId)
    · exact hlast r hr
  · exact bump_lt db.states (fun r hr => (hrows r hr).2.1) h.current_lt
  · intro userId
    have hcompacted := bump_compactedRevision db.states rows userId
    exact (hcompacted.trans_le (h.compacted_le userId)).trans (hmono userId)
  · change (db.history ++ rows).Pairwise _
    rw [List.pairwise_append]
    refine ⟨h.history_sorted, hsorted.imp (by intro a b hlt _; exact hlt), ?_⟩
    intro a ha b hb hab
    have hle := h.history_le a ha
    rw [hab] at hle
    exact hle.trans_lt (hrows b hb).2.2
  · change db.log ++ rows = (db.history ++ rows).filter _
    simp only [Db.commitRows, bump_compactedRevision, List.filter_append]
    rw [← h.log_eq, List.filter_eq_self.mpr fun r hr => by
      simpa using h.compacted_lt_inserted ht hr]
  · intro t' rows' ht'
    rcases update_cases ht' with ⟨_, hwork⟩ | ⟨htt, hold⟩
    · cases hwork
    · obtain ⟨hsorted', hrows'⟩ := h.inserted t' rows' hold
      refine ⟨hsorted', fun r hr => ?_⟩
      obtain ⟨hheld, hlt, hpast⟩ := hrows' r hr
      refine ⟨RowLocks.release_of_held hheld htt, hlt, ?_⟩
      -- The committed rows lie under the committing transaction's locks.
      have hother : ∀ x ∈ rows, x.userId ≠ r.userId := by
        intro x hx heq
        have hx := (hrows x hx).1
        rw [heq, hheld] at hx
        exact htt (Option.some.inj hx)
      change (bump db.states rows r.userId).currentRevision < _
      rwa [bump_of_forall_ne db.states hother]
  · intro t' todo done ht' p hp
    rcases update_cases ht' with ⟨_, hwork⟩ | ⟨_, hold⟩
    · cases hwork
    · exact (h.purged t' todo done hold p hp).trans (hmono p.1)

/-- A commit of the purge takes exactly the compacted rows out of the log. -/
theorem commitPurge {t : TxnId} {done : List (UserId × Nat)}
    (ht : db.txns t = some (.purge [] done)) : LogInv (db.commitPurge t done) := by
  have hcurrent := compact_currentRevision db.states done
  refine ⟨?_, ?_, ?_, h.history_sorted, ?_, ?_, ?_⟩
  · intro r hr
    exact (h.history_le r hr).trans_eq (hcurrent r.userId).symm
  · intro userId
    exact (hcurrent userId).trans_lt (h.current_lt userId)
  · intro userId
    apply Nat.le_of_lt_succ
    change (compact db.states done userId).compactedRevision <
      (compact db.states done userId).currentRevision + 1
    rw [compact_lt_iff, hcurrent]
    refine ⟨Nat.lt_succ_of_le (h.compacted_le userId), ?_⟩
    rintro p hp rfl
    exact Nat.lt_succ_of_le (h.purged t [] done ht p hp)
  · change db.log.filter _ = db.history.filter _
    rw [h.log_eq, List.filter_filter]
    apply List.filter_congr
    intro r _
    rw [Bool.eq_iff_iff]
    simp only [Db.commitPurge, compact_lt_iff, Bool.and_eq_true, Bool.not_eq_true', decide_eq_true_eq,
      List.any_eq_false, not_and, not_le]
    exact and_comm
  · intro t' rows' ht'
    rcases update_cases ht' with ⟨_, hwork⟩ | ⟨htt, hold⟩
    · cases hwork
    · obtain ⟨hsorted, hrows⟩ := h.inserted t' rows' hold
      refine ⟨hsorted, fun r hr => ?_⟩
      obtain ⟨hheld, hlt, hpast⟩ := hrows r hr
      exact ⟨RowLocks.release_of_held hheld htt, hlt, (hcurrent r.userId).trans_lt hpast⟩
  · intro t' todo done' ht' p hp
    rcases update_cases ht' with ⟨_, hwork⟩ | ⟨_, hold⟩
    · cases hwork
    · exact (h.purged t' todo done' hold p hp).trans_eq (hcurrent p.1).symm

/-- A rollback drops rows nobody saw. -/
theorem close (t : TxnId) : LogInv (db.close t) := by
  refine { h with inserted := ?_, purged := ?_ }
  · intro t' rows ht'
    rcases update_cases ht' with ⟨_, hwork⟩ | ⟨htt, hold⟩
    · cases hwork
    · obtain ⟨hsorted, hrows⟩ := h.inserted t' rows hold
      refine ⟨hsorted, fun r hr => ?_⟩
      obtain ⟨hheld, hrest⟩ := hrows r hr
      exact ⟨RowLocks.release_of_held hheld htt, hrest⟩
  · intro t' todo done ht'
    rcases update_cases ht' with ⟨_, hwork⟩ | ⟨_, hold⟩
    · cases hwork
    · exact h.purged t' todo done hold

/-- A watermark is the revision of a committed row. -/
theorem watermark_le {cutoff : Time} {p : UserId × Nat} (hp : p ∈ watermarks db.log cutoff) :
    p.2 ≤ (db.states p.1).currentRevision := by
  obtain ⟨userId, _, rfl⟩ := List.mem_map.mp hp
  have hlog : ∀ r ∈ db.log, r.userId = userId → r.revision ≤ (db.states userId).currentRevision := by
    rintro r hr rfl
    rw [h.log_eq] at hr
    exact h.history_le r (List.mem_of_mem_filter hr)
  have hmax : ∀ revisions : List Nat,
      (∀ n ∈ revisions, n ≤ (db.states userId).currentRevision) →
        revisions.foldr max 0 ≤ (db.states userId).currentRevision := by
    intro revisions hle
    induction revisions with
    | nil => exact Nat.zero_le _
    | cons n rest ih =>
      exact max_le (hle n (by simp)) (ih fun m hm => hle m (by simp [hm]))
  apply hmax
  intro n hn
  obtain ⟨r, hr, rfl⟩ := List.mem_map.mp hn
  have hr' := List.mem_filter.mp hr
  exact hlog r (List.mem_of_mem_filter hr'.1) (by simpa using hr'.2)

/-- Every step keeps the log in order. -/
theorem step {me : UserId} {l : Label ε} {db' : Db ε} (hstep : step me db l = some db') :
    LogInv db' := by
  cases l with
  | lockSyncState t userId =>
    simp only [Changelog.step] at hstep
    split at hstep
    · refine h.lockFor hstep (fun rows hrows => ?_) fun _ _ hpurge => by cases hpurge
      cases hrows
      exact Or.inl rfl
    next inserted ht =>
      refine h.lockFor hstep (fun rows hrows => ?_) fun _ _ hpurge => by cases hpurge
      cases hrows
      exact Or.inr ht
    · cases hstep
  | appendChange t userId createdAt change =>
    simp only [Changelog.step] at hstep
    split at hstep
    next inserted ht =>
      split at hstep
      next hlock =>
        cases hstep
        exact h.insertRow ht hlock createdAt change
      · cases hstep
    · cases hstep
  | selectWatermarks t cutoff =>
    simp only [Changelog.step] at hstep
    split at hstep
    · cases hstep
      refine { h with inserted := ?_, purged := ?_ }
      · intro t' rows ht'
        rcases update_cases ht' with ⟨_, hwork⟩ | ⟨_, hold⟩
        · cases hwork
        · exact h.inserted t' rows hold
      · intro t' todo done ht' p hp
        rcases update_cases ht' with ⟨_, hwork⟩ | ⟨_, hold⟩
        · cases hwork
          exact h.watermark_le (by simpa using hp)
        · exact h.purged t' todo done hold p hp
    · cases hstep
  | purgeUser t =>
    simp only [Changelog.step] at hstep
    split at hstep
    next p todo done ht =>
      refine h.lockFor hstep (fun _ hrows => by cases hrows) fun todo' done' hpurge q hq => ?_
      cases hpurge
      exact h.purged t (p :: todo) done ht q (by simp_all; tauto)
    · cases hstep
  | commit t =>
    simp only [Changelog.step] at hstep
    split at hstep
    next inserted ht =>
      cases hstep
      exact h.commitRows ht
    next done ht =>
      cases hstep
      exact h.commitPurge ht
    · cases hstep
  | rollback t =>
    obtain ⟨_, _, rfl⟩ := Option.map_eq_some_iff.mp hstep
    exact h.close t
  | readState =>
    simp only [Changelog.step] at hstep
    split at hstep
    · cases hstep
      unfold Db.readState
      dsimp only
      split
      · exact { h with }
      · exact { h with }
    · cases hstep
  | readRows limit =>
    simp only [Changelog.step] at hstep
    split at hstep
    · split at hstep
      · cases hstep
        exact { h with }
      · cases hstep
    · cases hstep

end LogInv

/-- Whether a statement is the client's. -/
def Label.isRead : Label ε → Bool
  | .readState => true
  | .readRows _ => true
  | _ => false

/-- A writer leaves the client alone and commits rows past the watermarks only. -/
theorem LogInv.writer_frame {db db' : Db ε} (h : LogInv db) {me : UserId} {l : Label ε}
    (hwrite : l.isRead = false) (hstep : Changelog.step me db l = some db') :
    db'.client = db.client ∧
      (∀ userId, (db.states userId).currentRevision ≤ (db'.states userId).currentRevision) ∧
      ∃ rows, db'.history = db.history ++ rows ∧
        ∀ r ∈ rows, (db.states r.userId).currentRevision < r.revision := by
  have hkeep : ∀ db' : Db ε, db'.client = db.client → db'.states = db.states →
      db'.history = db.history → db'.client = db.client ∧
        (∀ userId, (db.states userId).currentRevision ≤ (db'.states userId).currentRevision) ∧
        ∃ rows, db'.history = db.history ++ rows ∧
          ∀ r ∈ rows, (db.states r.userId).currentRevision < r.revision := by
    intro db' hclient hstates hhistory
    exact ⟨hclient, fun _ => by rw [hstates], [], by simp [hhistory], by simp⟩
  have hlock : ∀ {t userId work db'}, db.lockFor t userId work = some db' →
      db'.client = db.client ∧ db'.states = db.states ∧ db'.history = db.history := by
    intro t userId work db' hlock
    unfold Db.lockFor at hlock
    split at hlock
    · cases hlock
      exact ⟨rfl, rfl, rfl⟩
    · cases hlock
  cases l with
  | lockSyncState t userId =>
    simp only [Changelog.step] at hstep
    split at hstep
    · obtain ⟨hclient, hstates, hhistory⟩ := hlock hstep
      exact hkeep db' hclient hstates hhistory
    · obtain ⟨hclient, hstates, hhistory⟩ := hlock hstep
      exact hkeep db' hclient hstates hhistory
    · cases hstep
  | appendChange t userId createdAt change =>
    simp only [Changelog.step] at hstep
    split at hstep
    · split at hstep
      · cases hstep
        exact hkeep _ rfl rfl rfl
      · cases hstep
    · cases hstep
  | selectWatermarks t cutoff =>
    simp only [Changelog.step] at hstep
    split at hstep
    · cases hstep
      exact hkeep _ rfl rfl rfl
    · cases hstep
  | purgeUser t =>
    simp only [Changelog.step] at hstep
    split at hstep
    · obtain ⟨hclient, hstates, hhistory⟩ := hlock hstep
      exact hkeep db' hclient hstates hhistory
    · cases hstep
  | commit t =>
    simp only [Changelog.step] at hstep
    split at hstep
    next inserted ht =>
      cases hstep
      obtain ⟨hsorted, hrows⟩ := h.inserted t inserted ht
      have hpast : ∀ r ∈ inserted, (db.states r.userId).currentRevision < r.revision :=
        fun r hr => (hrows r hr).2.2
      exact ⟨rfl, (le_bump db.states hsorted hpast).1, inserted, rfl, hpast⟩
    next done ht =>
      cases hstep
      refine ⟨rfl, fun userId => ?_, [], by simp [Db.commitPurge, Db.close], by simp⟩
      exact (compact_currentRevision db.states done userId).ge
    · cases hstep
  | rollback t =>
    obtain ⟨_, _, rfl⟩ := Option.map_eq_some_iff.mp hstep
    exact hkeep _ rfl rfl rfl
  | readState => cases hwrite
  | readRows limit => cases hwrite

/-! ### One page -/

section Page

variable {log : List (UserChangeLog ε)} {current limit : Nat}

/-- The rows a page may carry, in the order of their revisions. -/
def window (log : List (UserChangeLog ε)) (me : UserId) (since current : Nat) :
    List (UserChangeLog ε) :=
  (log.filter fun r => r.userId = me ∧ since < r.revision ∧ r.revision ≤ current).insertionSort
    (·.revision ≤ ·.revision)

theorem mem_window (log : List (UserChangeLog ε)) (me : UserId) (since current : Nat)
    {r : UserChangeLog ε} :
    r ∈ window log me since current ↔
      r ∈ log ∧ r.userId = me ∧ since < r.revision ∧ r.revision ≤ current := by
  rw [window, List.mem_insertionSort, List.mem_filter]
  simp

/-- A user's rows have distinct revisions, so their order is strict. -/
theorem window_sorted (me : UserId) (since current : Nat)
    (hlog : log.Pairwise fun a b => a.userId = b.userId → a.revision < b.revision) :
    (window log me since current).Pairwise fun a b => a.revision < b.revision := by
  have hstrict : (log.filter fun r =>
      r.userId = me ∧ since < r.revision ∧ r.revision ≤ current).Pairwise
        fun a b => a.revision < b.revision := by
    rw [List.pairwise_filter]
    refine hlog.imp ?_
    intro a b hlt ha hb
    simp only [decide_eq_true_eq] at ha hb
    exact hlt (ha.1.trans hb.1.symm)
  have hsorted : (log.filter fun r =>
      r.userId = me ∧ since < r.revision ∧ r.revision ≤ current).Pairwise
        fun a b => a.revision ≤ b.revision := hstrict.imp (by intro a b; exact Nat.le_of_lt)
  rw [window, hsorted.insertionSort_eq]
  exact hstrict

/-- A page carries its window up to `returned_until_revision`, all of it when there is no
more. -/
theorem changePage_window {rows : List (UserChangeLog ε)}
    (hsorted : rows.Pairwise fun a b => a.revision < b.revision)
    (hcurrent : ∀ r ∈ rows, r.revision ≤ current) (hlimit : 0 < limit) :
    let page := changePage (rows.take (limit + 1)) current limit
    page.changes = (rows.take limit).map UserChangeLog.entry ∧
      page.returnedUntilRevision ≤ current ∧
      (∀ r ∈ rows.take limit, r.revision ≤ page.returnedUntilRevision) ∧
      (∀ r ∈ rows, r.revision ≤ page.returnedUntilRevision → r ∈ rows.take limit) ∧
      (page.returnedUntilRevision = current ∨
        ∃ r ∈ rows, r.revision = page.returnedUntilRevision) := by
  have htake : (rows.take (limit + 1)).take limit = rows.take limit := by
    rw [List.take_take, Nat.min_eq_left (Nat.le_succ limit)]
  simp only [changePage, htake, true_and]
  by_cases hmore : limit < (rows.take (limit + 1)).length
  · -- The page is cut: it ends at its last row, and every later row is after it.
    have hlength : limit < rows.length := by
      rw [List.length_take] at hmore
      omega
    have hne : rows.take limit ≠ [] := by
      intro hnil
      have hzero := congrArg List.length hnil
      rw [List.length_take, List.length_nil] at hzero
      omega
    obtain ⟨last, hlast⟩ : ∃ last, (rows.take limit).getLast? = some last :=
      ⟨_, List.getLast?_eq_some_getLast hne⟩
    have hmem : last ∈ rows.take limit := List.mem_of_getLast? hlast
    have hparts : (rows.take limit ++ rows.drop limit).Pairwise
        fun a b => a.revision < b.revision := by rwa [List.take_append_drop]
    obtain ⟨hinit, _, hcut⟩ := List.pairwise_append.mp hparts
    have hbefore : ∀ r ∈ rows.take limit, r.revision ≤ last.revision := by
      intro r hr
      rw [← List.dropLast_append_getLast? last hlast] at hr hinit
      rcases List.mem_append.mp hr with hr | hr
      · exact (List.pairwise_append.mp hinit |>.2.2 r hr last (by simp)).le
      · rw [List.mem_singleton.mp hr]
    have huntil : (((rows.take limit).map UserChangeLog.entry).getLast?.map
        (·.revision)).getD current = last.revision := by
      rw [List.getLast?_map, hlast]
      rfl
    simp only [hmore, decide_true, if_true, huntil]
    refine ⟨hcurrent last (List.mem_of_mem_take hmem), hbefore, ?_,
      Or.inr ⟨last, List.mem_of_mem_take hmem, rfl⟩⟩
    intro r hr hle
    rw [← List.take_append_drop limit rows] at hr
    rcases List.mem_append.mp hr with hr | hr
    · exact hr
    · exact absurd hle (Nat.not_le.mpr (hcut last hmem r hr))
  · have hall : rows.take limit = rows := by
      rw [List.length_take] at hmore
      exact List.take_of_length_le (by omega)
    simp only [hmore, decide_false, Bool.false_eq_true, if_false, hall]
    exact ⟨le_rfl, hcurrent, fun r hr _ => hr, Or.inl trivial⟩

end Page

/-! ### The client -/

/-- What the client has received, and what the page under way has read. -/
structure ClientInv (me : UserId) (db : Db ε) : Prop where
  received_sorted : db.client.received.Pairwise fun a b => a.revision < b.revision
  received_le : ∀ e ∈ db.client.received, e.revision ≤ db.client.sinceRevision
  from_history : ∀ e ∈ db.client.received, ∃ r ∈ db.history, r.userId = me ∧ r.entry = e
  covered : ∀ r ∈ db.history, r.userId = me → db.client.start < r.revision →
    r.revision ≤ db.client.sinceRevision → r.entry ∈ db.client.received
  /-- Only a start the server never handed out lies past the watermark. -/
  since_le : db.client.sinceRevision ≤ (db.states me).currentRevision ∨
    (db.client.sinceRevision = db.client.start ∧ db.client.received = [])
  reading_le : ∀ state, db.client.reading = some state →
    state.currentRevision ≤ (db.states me).currentRevision ∧
      (db.client.sinceRevision ≤ state.currentRevision ∨ db.client.received = [])

theorem clientInv_initial (me : UserId) (start : Nat) :
    ClientInv me (Db.initial (ε := ε) start) where
  received_sorted := List.Pairwise.nil
  received_le := fun _ he => absurd he List.not_mem_nil
  from_history := fun _ he => absurd he List.not_mem_nil
  covered := fun _ hr => absurd hr List.not_mem_nil
  since_le := Or.inr ⟨rfl, rfl⟩
  reading_le := fun _ h => by cases h

/-- Whether the label is the second statement of a page. -/
def Label.isPage : Label ε → Bool
  | .readRows _ => true
  | _ => false

/-- When the second statement of a page runs, no change it has to carry has been purged. -/
def PageIntact (me : UserId) (db : Db ε) (l : Label ε) : Prop :=
  l.isPage = true → ∀ state ∈ db.client.reading, ∀ r ∈ db.history, r.userId = me →
    db.client.sinceRevision < r.revision → r.revision ≤ state.currentRevision →
      (db.states me).compactedRevision < r.revision

instance (me : UserId) (db : Db ε) (l : Label ε) : Decidable (PageIntact me db l) :=
  inferInstanceAs (Decidable (_ → _))

namespace ClientInv

variable {me : UserId} {db : Db ε} (h : ClientInv me db)

include h

/-- What other transactions do leaves the client's pages complete: rows they commit lie past
every revision handed out. -/
theorem of_client_eq {db' : Db ε} (hclient : db'.client = db.client)
    (hcurrent : (db.states me).currentRevision ≤ (db'.states me).currentRevision)
    (hhistory : ∃ rows, db'.history = db.history ++ rows ∧
      ∀ r ∈ rows, r.userId = me → (db.states me).currentRevision < r.revision) :
    ClientInv me db' := by
  obtain ⟨rows, hhistory, hpast⟩ := hhistory
  refine ⟨?_, ?_, ?_, ?_, ?_, ?_⟩
  · rw [hclient]
    exact h.received_sorted
  · rw [hclient]
    exact h.received_le
  · intro e he
    rw [hclient] at he
    obtain ⟨r, hr, hrest⟩ := h.from_history e he
    exact ⟨r, by simp [hhistory, hr], hrest⟩
  · intro r hr hme hstart hsince
    rw [hclient] at hstart hsince ⊢
    rw [hhistory] at hr
    rcases List.mem_append.mp hr with hr | hr
    · exact h.covered r hr hme hstart hsince
    · have hnew := hpast r hr hme
      rcases h.since_le with hle | ⟨heq, _⟩
      · omega
      · omega
  · rw [hclient]
    exact h.since_le.imp_left fun hle => hle.trans hcurrent
  · intro state hstate
    rw [hclient] at hstate ⊢
    obtain ⟨hle, hor⟩ := h.reading_le state hstate
    exact ⟨hle.trans hcurrent, hor⟩

/-- A page that is intact carries every change up to its new cursor. -/
theorem readRows (hlog : LogInv db) {state : UserSyncState} {limit : Nat}
    (hreading : db.client.reading = some state) (hlimit : 0 < limit)
    (hintact : PageIntact me db (.readRows limit)) :
    ClientInv me (db.readRows me state limit) := by
  have hlogSorted : db.log.Pairwise fun a b => a.userId = b.userId → a.revision < b.revision := by
    rw [hlog.log_eq]
    exact hlog.history_sorted.filter _
  have hrowsSorted :=
    window_sorted me db.client.sinceRevision state.currentRevision hlogSorted
  have hmem := fun r : UserChangeLog ε =>
    mem_window db.log me db.client.sinceRevision state.currentRevision (r := r)
  obtain ⟨hchanges, huntil, hbefore, hwithin, hends⟩ := changePage_window hrowsSorted
    (fun r hr => ((hmem r).mp hr).2.2.2) hlimit
  obtain ⟨hcurrent, hsince⟩ := h.reading_le state hreading
  -- The new rows lie past the old cursor, and the cursor never moves back once used.
  have hnew : ∀ r ∈ (window db.log me db.client.sinceRevision state.currentRevision).take limit,
      db.client.sinceRevision < r.revision :=
    fun r hr => ((hmem r).mp (List.mem_of_mem_take hr)).2.2.1
  have hforward : ∀ e ∈ db.client.received,
      e.revision ≤ (db.readRows me state limit).client.sinceRevision := by
    intro e he
    have hold := h.received_le e he
    have hle : db.client.sinceRevision ≤ state.currentRevision :=
      hsince.resolve_right (List.ne_nil_of_mem he)
    rcases hends with heq | ⟨r, hr, heq⟩
    · exact (hold.trans hle).trans_eq heq.symm
    · exact (hold.trans ((hmem r).mp hr).2.2.1.le).trans_eq heq
  refine ⟨?_, ?_, ?_, ?_, Or.inl (huntil.trans hcurrent), fun _ hnone => by cases hnone⟩
  · change (db.client.received ++ _).Pairwise _
    rw [List.pairwise_append]
    refine ⟨h.received_sorted, ?_, ?_⟩
    · exact hchanges ▸ List.pairwise_map.mpr hrowsSorted.take
    · intro e he e' he'
      have he'' := hchanges ▸ he'
      obtain ⟨r, hr, rfl⟩ := List.mem_map.mp he''
      exact (h.received_le e he).trans_lt (hnew r hr)
  · intro e he
    rcases List.mem_append.mp he with he | he
    · exact hforward e he
    · have he' := hchanges ▸ he
      obtain ⟨r, hr, rfl⟩ := List.mem_map.mp he'
      exact hbefore r hr
  · intro e he
    rcases List.mem_append.mp he with he | he
    · exact h.from_history e he
    · have he' := hchanges ▸ he
      obtain ⟨r, hr, rfl⟩ := List.mem_map.mp he'
      obtain ⟨hlogged, hme, _⟩ := (hmem r).mp (List.mem_of_mem_take hr)
      rw [hlog.log_eq] at hlogged
      exact ⟨r, List.mem_of_mem_filter hlogged, hme, rfl⟩
  · intro r hr hme hstart hle
    by_cases hold : r.revision ≤ db.client.sinceRevision
    · exact List.mem_append_left _ (h.covered r hr hme hstart hold)
    · -- A change of the page is still in the log, so the page carries it.
      have hpast := Nat.not_le.mp hold
      have hkept := hintact rfl state hreading r hr hme hpast (hle.trans huntil)
      have hlogged : r ∈ db.log := by
        rw [hlog.log_eq, List.mem_filter, hme]
        exact ⟨hr, by simpa using hkept⟩
      have hrow := (hmem r).mpr ⟨hlogged, hme, hpast, hle.trans huntil⟩
      have hentry := List.mem_map_of_mem (f := UserChangeLog.entry) (hwithin r hrow hle)
      exact List.mem_append_right _ (hchanges ▸ hentry)

/-- The first statement of a page reads a watermark no earlier than a used cursor. -/
theorem readState : ClientInv me (db.readState me) := by
  unfold Db.readState
  dsimp only
  split
  · exact { h with }
  · refine { h with reading_le := ?_ }
    rintro state hstate
    cases hstate
    exact ⟨le_rfl, h.since_le.imp_right And.right⟩

/-- Every step whose page is intact keeps the client's pages complete. -/
theorem step (hlog : LogInv db) {l : Label ε} {db' : Db ε} (hintact : PageIntact me db l)
    (hstep : Changelog.step me db l = some db') : ClientInv me db' := by
  cases hread : l.isRead with
  | false =>
    obtain ⟨hclient, hcurrent, rows, hhistory, hpast⟩ := hlog.writer_frame hread hstep
    refine h.of_client_eq hclient (hcurrent me) ⟨rows, hhistory, fun r hr hme => ?_⟩
    rw [← hme]
    exact hpast r hr
  | true =>
    cases l with
    | readState =>
      simp only [Changelog.step] at hstep
      split at hstep
      · cases hstep
        exact h.readState
      · cases hstep
    | readRows limit =>
      simp only [Changelog.step] at hstep
      split at hstep
      next state hreading =>
        split at hstep
        next hlimit =>
          cases hstep
          exact h.readRows hlog hreading hlimit hintact
        · cases hstep
      · cases hstep
    | _ => cases hread

end ClientInv

/-- **Paging hides no change** as long as, whenever the second statement of a page runs,
`compacted_revision` has passed no change between the page's cursor and the
`current_revision` the page read. -/
theorem paging_has_no_gap {me : UserId} {start : Nat} {ls : List (Label ε)} {db : Db ε}
    (hrun : Run (step me) (PageIntact me) (Db.initial start) ls db) : NoGap me db := by
  have hinv : LogInv db ∧ ClientInv me db := by
    refine hrun.invariant (fun db => LogInv db ∧ ClientInv me db)
      ⟨logInv_initial start, clientInv_initial me start⟩ ?_
    rintro db l db' ⟨hlog, hclient⟩ hintact hstep
    exact ⟨hlog.step hstep, hclient.step hlog hintact hstep⟩
  obtain ⟨_, hclient⟩ := hinv
  exact ⟨hclient.received_sorted, hclient.from_history, hclient.covered⟩

/-- A purge of what the client already has commits between the two statements of its next
page. -/
theorem paging_has_no_gap_after_purge :
    ∃ db : Db String, NoGap 7 db ∧ db.client.received = [⟨1, "course"⟩, ⟨2, "override"⟩] := by
  have hrun : ∃ db, Run (step 7) (PageIntact 7) (Db.initial 0)
      [.lockSyncState 0 7, .appendChange 0 7 1 "course", .commit 0, .readState, .readRows 1,
        .lockSyncState 0 7, .appendChange 0 7 9 "override", .commit 0, .readState,
        .selectWatermarks 1 5, .purgeUser 1, .commit 1, .readRows 1] db ∧
        db.client.received = [⟨1, "course"⟩, ⟨2, "override"⟩] :=
    ⟨_, run_of_execWhere rfl, rfl⟩
  obtain ⟨db, hrun, hreceived⟩ := hrun
  exact ⟨db, paging_has_no_gap hrun, hreceived⟩

/-- A user's one change, the first statement of a page, the purge of that change, and the
page's second statement. -/
def purgedPage : List (Label String) :=
  [.lockSyncState 0 7, .appendChange 0 7 1 "course", .commit 0, .readState,
    .selectWatermarks 1 5, .purgeUser 1, .commit 1, .readRows 10]

/-- A purge between the two statements of a page hides what it deleted, and the client is not
told that its cursor expired. -/
theorem paging_skips_purged :
    ∃ db : Db String, FreeRun (step 7) (Db.initial 0) purgedPage db ∧
      ¬ NoGap 7 db ∧ db.client.expired = false := by
  refine ⟨_, run_of_exec rfl, ?_, rfl⟩
  decide

end TigerDuck.Sync.Changelog
