import Mathlib.Data.Finset.Card
import Mathlib.Data.List.GetD
import Mathlib.Data.List.MinMax
import Mathlib.Data.Prod.Lex
import TigerDuck.Push.HandledJobs

/-!
# A push tick drains and stops

A round of the tick handles a job for good, or is one of the few rounds between two jobs. What a
handled job may leave behind are Live Activity ends, which no pre-send check guards, so they leave
nothing behind themselves: the jobs that a check guards and the tick has not handled, then all jobs
it has not handled, then the rounds to the next one, are a measure that every round lowers once no
other writer files jobs.

- `TickInv`: what holds between two transactions of the tick.
- `tickInv_next`, `measure_next`: every round keeps it, and lowers the measure.
- `push_tick_drains`: the tick returns, and how it leaves the jobs.
-/

namespace TigerDuck.Push

open Relational Transition
open SyncTriggers (allReached defaultTimes)

namespace PushTick

variable {cfg : Settings} {s s' : PushTick} {a : Answer} {c : Claimed} {now : Time}

@[simp]
theorem commit_db (s : PushTick) (db : Db) (now : Time) : (s.commit db now).db = db := rfl

@[simp]
theorem commit_tick (s : PushTick) (db : Db) (now : Time) : (s.commit db now).tick = s.tick := rfl

@[simp]
theorem commit_phase (s : PushTick) (db : Db) (now : Time) :
    (s.commit db now).phase = s.phase := rfl

@[simp]
theorem commit_found (s : PushTick) (db : Db) (now : Time) :
    (s.commit db now).found = s.found := rfl

/-- Where no one files a job, nothing comes in. -/
theorem arrive_nil (s : PushTick) (now : Time) : s.arrive now [] = s := by
  show s.commit s.db now = s
  unfold commit
  simp only [if_true]

theorem arrive_kept (hbelow : JobsBelow s.db) (filed : List NewJob) {k : JobId} {job : PushJob}
    (hjob : s.db.jobs.get k = some job) : (s.arrive now filed).db.jobs.get k = some job :=
  Db.kept_fileJobs hbelow filed hjob

/-! ### What a claim takes -/

/-- A claim takes waiting jobs that the tick has not handled. -/
theorem mem_dueJobs {db : Db} {processed : List JobId} {k : JobId}
    (h : k ∈ db.dueJobs cfg processed a) :
    ∃ job, db.jobs.get k = some job ∧ job.status = .pending ∧ k ∉ processed := by
  obtain ⟨⟨_, job⟩, hmem, rfl⟩ := List.mem_map.mp (List.mem_of_mem_take h)
  rw [List.mem_insertionSort, Table.mem_select_iff] at hmem
  obtain ⟨hjob, hpicked⟩ := hmem
  simp only [PushJob.due, Bool.and_eq_true, decide_eq_true_eq, Bool.not_eq_true',
    List.contains_eq_mem, decide_eq_false_iff_not] at hpicked
  exact ⟨job, hjob, hpicked.1.1.1.1, hpicked.1.2⟩

theorem dueJobs_nodup {db : Db} {processed : List JobId} : (db.dueJobs cfg processed a).Nodup := by
  refine List.Nodup.sublist (List.take_sublist _ _) ?_
  exact ((List.perm_insertionSort _ _).map Prod.fst).nodup_iff.mpr (db.jobs.select_keys_nodup _)

/-! ### Between two transactions -/

/-- A claimed job the tick has not come to: `old` is its row as the claim found it, `job` its row
now. It is as the claim left it, or another transaction has moved it. -/
structure Holds (s : PushTick) (c : Claimed) (job old : PushJob) (stamp : Time) : Prop where
  row : s.db.jobs.get c.jobId = some job
  found : s.found c.jobId = some (old, stamp)
  waited : old.status = .pending
  priority : c.priority = old.priority
  checked : c.check = .asked → job.needsCheck = true
  claimed : job.status = .processing → ∃ time, job = old.claim s.tick.workerId time

end PushTick

/-- What holds between two transactions of the tick. -/
structure TickInv (s : PushTick) : Prop where
  below : JobsBelow s.db
  processed : s.tick.processed.Nodup
  batch : (s.tick.batch.map (·.jobId)).Nodup
  toGo : ∀ c ∈ s.tick.batch, c.jobId ∉ s.tick.processed
  holds : ∀ c ∈ s.tick.batch, ∃ job old stamp, s.Holds c job old stamp
  idle : s.tick.batch = [] ↔ s.phase = .claiming ∨ s.phase = .returned

namespace TickInv

variable {cfg : Settings} {s : PushTick} {a : Answer} {c : Claimed}

theorem arrive (h : TickInv s) (now : Time) (filed : List NewJob) : TickInv (s.arrive now filed) where
  below := Db.jobsBelow_fileJobs h.below filed
  processed := h.processed
  batch := h.batch
  toGo := h.toGo
  holds := fun c hc => by
    obtain ⟨job, old, stamp, hholds⟩ := h.holds c hc
    exact ⟨job, old, stamp, { hholds with row := PushTick.arrive_kept h.below filed hholds.row }⟩
  idle := h.idle

theorem claim (h : TickInv s) (hphase : s.phase = .claiming) : TickInv (s.claim cfg a) := by
  have hidle : s.tick.batch = [] := h.idle.mpr (.inl hphase)
  unfold PushTick.claim
  generalize hpicks : s.db.dueJobs cfg s.tick.processed a = picks
  split
  next =>
    refine ⟨h.below, h.processed, h.batch, h.toGo, fun c hc => ?_, iff_of_true hidle (.inr rfl)⟩
    exact absurd hc (hidle ▸ List.not_mem_nil)
  next hsome =>
    have hjobs : (picks.map s.db.claimedJob).map (·.jobId) = picks := by
      rw [List.map_map]
      exact List.map_id picks
    constructor
    case below => exact Db.jobsBelow_modifyJobs h.below _
    case processed => exact h.processed
    case batch =>
      show ((picks.map s.db.claimedJob).map (·.jobId)).Nodup
      rw [hjobs, ← hpicks]
      exact PushTick.dueJobs_nodup
    case toGo =>
      rintro c hc
      obtain ⟨k, hk, rfl⟩ := List.mem_map.mp hc
      obtain ⟨job, -, -, hfresh⟩ := PushTick.mem_dueJobs (hpicks ▸ hk)
      exact hfresh
    case holds =>
      rintro c hc
      obtain ⟨k, hk, rfl⟩ := List.mem_map.mp hc
      obtain ⟨old, hold, hwaited, -⟩ := PushTick.mem_dueJobs (hpicks ▸ hk)
      refine ⟨old.claim s.tick.workerId a.now, old, s.updatedAt k, ?_⟩
      constructor
      case row =>
        show (s.db.modifyJobs _).jobs.get k = _
        rw [Db.modifyJobs, Table.get_modify, hold, Option.map_some,
          if_pos (List.contains_iff_mem.mpr hk)]
      case found =>
        show s.row k = _
        rw [PushTick.row, hold, Option.map_some]
      case waited => exact hwaited
      case priority =>
        show ((s.db.jobs.get k).map (·.priority)).getD 0 = _
        rw [hold, Option.map_some, Option.getD_some]
      case checked =>
        intro hasked
        simp only [Db.claimedJob, hold, Option.any_some] at hasked
        have hneeds : old.needsCheck = true := by
          by_contra hnot
          rw [if_neg hnot] at hasked
          cases hasked
        exact hneeds
      case claimed => exact fun _ => ⟨a.now, rfl⟩
    case idle =>
      have hne : picks.map s.db.claimedJob ≠ [] := fun hnil => hsome (List.map_eq_nil_iff.mp hnil)
      exact iff_of_false hne (by simp)

/-- A tick between two jobs of a batch has the second to go. -/
theorem busy (h : TickInv s) (hphase : s.phase = .sending ∨ s.phase = .checking) :
    ∃ c rest, s.tick.batch = c :: rest := by
  refine List.exists_cons_of_ne_nil fun hnil => ?_
  rcases h.idle.mp hnil with hidle | hidle <;> rw [hidle] at hphase <;> simp at hphase

variable (cfg a) in
/-- The transaction of the batch's next job. -/
theorem handles (h : TickInv s) (hc : c ∈ s.tick.batch) :
    s.db.Handles c.jobId (s.handle cfg a c) := by
  obtain ⟨job, old, stamp, hholds⟩ := h.holds c hc
  refine PushTick.handle_handles h.below (fun job' hjob' hclaimed => ?_) fun hasked job' hjob' => ?_
  · obtain rfl : job = job' := Option.some.inj (hholds.row.symm.trans hjob')
    obtain ⟨time, rfl⟩ := hholds.claimed hclaimed
    rfl
  · obtain rfl : job = job' := Option.some.inj (hholds.row.symm.trans hjob')
    exact hholds.checked hasked

theorem send (h : TickInv s) (hphase : s.phase = .sending) : TickInv (s.send cfg a) := by
  obtain ⟨c, rest, hbatch⟩ := h.busy (.inl hphase)
  unfold PushTick.send
  rw [hbatch]
  have hmem {c' : Claimed} (hc' : c' ∈ rest) : c' ∈ s.tick.batch := by
    rw [hbatch]
    exact List.mem_cons_of_mem c hc'
  have hc : c ∈ s.tick.batch := by
    rw [hbatch]
    exact List.mem_cons_self
  have hnodup := h.batch
  rw [hbatch, List.map_cons, List.nodup_cons] at hnodup
  have hne {c' : Claimed} (hc' : c' ∈ rest) : c'.jobId ≠ c.jobId := fun heq =>
    hnodup.1 (heq ▸ List.mem_map_of_mem hc')
  constructor
  case below => exact PushTick.handle_below h.below
  case processed =>
    show (s.tick.processed ++ [c.jobId]).Nodup
    refine List.nodup_append.mpr ⟨h.processed, List.nodup_singleton _, ?_⟩
    rintro k hk _ hk' rfl
    exact h.toGo c hc (List.mem_singleton.mp hk' ▸ hk)
  case batch => exact hnodup.2
  case toGo =>
    intro c' hc' hdone
    rcases List.mem_append.mp hdone with hdone | hlast
    · exact h.toGo c' (hmem hc') hdone
    · exact hne hc' (List.mem_singleton.mp hlast)
  case holds =>
    intro c' hc'
    obtain ⟨job, old, stamp, hholds⟩ := h.holds c' (hmem hc')
    obtain ⟨job', hjob', hneeds, hsame⟩ :=
      (h.handles cfg a hc).others c'.jobId job (hne hc') hholds.row
    refine ⟨job', old, stamp, hjob', hholds.found, hholds.waited, hholds.priority,
      fun hasked => hneeds.trans (hholds.checked hasked), fun hclaimed => ?_⟩
    obtain rfl := hsame hclaimed
    exact hholds.claimed hclaimed
  case idle =>
    show rest = [] ↔ _
    by_cases hrest : rest = []
    · simp [hrest]
    · simp [hrest]

theorem look (h : TickInv s) (hphase : s.phase = .checking) : TickInv (s.look a) := by
  obtain ⟨c, rest, hbatch⟩ := h.busy (.inr hphase)
  unfold PushTick.look
  rw [hbatch]
  dsimp only
  split
  · constructor
    case below => exact Db.jobsBelow_modifyJobs h.below _
    case processed => exact h.processed
    case batch => exact List.nodup_nil
    case toGo => exact fun _ hc => absurd hc List.not_mem_nil
    case holds => exact fun _ hc => absurd hc List.not_mem_nil
    case idle => exact iff_of_true rfl (.inl rfl)
  · refine ⟨h.below, h.processed, h.batch, h.toGo, fun c hc => ?_, iff_of_false (by simp [hbatch]) (by simp)⟩
    obtain ⟨job, old, stamp, hholds⟩ := h.holds c hc
    exact ⟨job, old, stamp, hholds.row, hholds.found, hholds.waited, hholds.priority,
      hholds.checked, hholds.claimed⟩

end TickInv

/-- Every round keeps the invariant. -/
theorem tickInv_next {cfg : Settings} {s : PushTick} (h : TickInv s)
    (input : Answer × List NewJob) : TickInv (s.next cfg input) := by
  obtain ⟨a, filed⟩ := input
  have harrived := h.arrive a.now filed
  unfold PushTick.next
  dsimp only
  split
  next hphase => exact harrived.claim hphase
  next hphase => exact harrived.send hphase
  next hphase => exact harrived.look hphase
  next => exact h

/-! ### The measure -/

/-- The most rounds there can be before the next job goes, if there is one. -/
def TickPhase.rank : TickPhase → ℕ
  | .returned => 0
  | .sending => 1
  | .claiming => 2
  | .checking => 3

namespace PushTick

variable {cfg : Settings} {s s' : PushTick} {a : Answer}

/-- The jobs the tick has not handled. -/
def left (s : PushTick) : Finset JobId := s.db.jobs.keys.toFinset.filter (· ∉ s.tick.processed)

/-- Those of them that a check guards. -/
def guardedLeft (s : PushTick) : Finset JobId :=
  s.left.filter fun k => (s.db.jobs.get k).any (·.needsCheck) = true

def measure (s : PushTick) : ℕ ×ₗ ℕ ×ₗ ℕ :=
  toLex (s.guardedLeft.card, toLex (s.left.card, s.phase.rank))

theorem mem_left_iff {k : JobId} :
    k ∈ s.left ↔ (∃ job, s.db.jobs.get k = some job) ∧ k ∉ s.tick.processed := by
  rw [left, Finset.mem_filter, List.mem_toFinset, Table.mem_keys_iff, Option.isSome_iff_exists]

theorem mem_guardedLeft_iff {k : JobId} :
    k ∈ s.guardedLeft ↔
      (∃ job, s.db.jobs.get k = some job ∧ job.needsCheck = true) ∧ k ∉ s.tick.processed := by
  rw [guardedLeft, Finset.mem_filter, mem_left_iff, Option.any_eq_true]
  constructor
  · rintro ⟨⟨-, hfresh⟩, hguarded⟩
    exact ⟨hguarded, hfresh⟩
  · rintro ⟨⟨job, hjob, hneeds⟩, hfresh⟩
    exact ⟨⟨⟨job, hjob⟩, hfresh⟩, job, hjob, hneeds⟩

/-- A guarded job less, or a job less and no guarded one more, or else a round less. -/
theorem measure_lt (hguarded : s'.guardedLeft ⊆ s.guardedLeft)
    (h : s'.guardedLeft ⊂ s.guardedLeft ∨ s'.left ⊂ s.left ∨
      s'.left ⊆ s.left ∧ s'.phase.rank < s.phase.rank) : s'.measure < s.measure := by
  rw [measure, measure, Prod.Lex.toLex_lt_toLex']
  refine ⟨Finset.card_le_card hguarded, fun heq => ?_⟩
  rw [Prod.Lex.toLex_lt_toLex']
  rcases h with hless | hless | ⟨hsub, hrank⟩
  · exact absurd heq (Nat.ne_of_lt (Finset.card_lt_card hless))
  · exact ⟨Finset.card_le_card hless.1, fun heq' =>
      absurd heq' (Nat.ne_of_lt (Finset.card_lt_card hless))⟩
  · exact ⟨Finset.card_le_card hsub, fun _ => hrank⟩

/-- A round between two jobs: it writes rows, but no other job is one that a check guards. -/
theorem measure_lt_of_modify {f : JobId → PushJob → PushJob}
    (hjobs : s'.db.jobs = s.db.jobs.modify f)
    (hf : ∀ k job, s.db.jobs.get k = some job → (f k job).needsCheck = job.needsCheck)
    (hprocessed : s'.tick.processed = s.tick.processed) (hrank : s'.phase.rank < s.phase.rank) :
    s'.measure < s.measure := by
  refine measure_lt (fun k hk => ?_) (.inr (.inr ⟨fun k hk => ?_, hrank⟩))
  · rw [mem_guardedLeft_iff, hjobs, hprocessed, Table.get_modify] at hk
    obtain ⟨⟨_, hjob', hneeds⟩, hfresh⟩ := hk
    obtain ⟨job, hjob, rfl⟩ := Option.map_eq_some_iff.mp hjob'
    exact mem_guardedLeft_iff.mpr ⟨⟨job, hjob, hf k job hjob ▸ hneeds⟩, hfresh⟩
  · rw [mem_left_iff, hjobs, hprocessed, Table.get_modify] at hk
    obtain ⟨⟨_, hjob'⟩, hfresh⟩ := hk
    obtain ⟨job, hjob, rfl⟩ := Option.map_eq_some_iff.mp hjob'
    exact mem_left_iff.mpr ⟨⟨job, hjob⟩, hfresh⟩

theorem measure_claim (hphase : s.phase = .claiming) : (s.claim cfg a).measure < s.measure := by
  unfold claim
  generalize s.db.dueJobs cfg s.tick.processed a = picks
  split
  next =>
    refine measure_lt_of_modify (f := fun _ job => job) ?_ (fun _ _ _ => rfl) rfl ?_
    · exact ((Table.modify_eq_self_iff _ _).mpr fun _ _ => rfl).symm
    · rw [hphase]
      exact Nat.zero_lt_two
  next =>
    refine measure_lt_of_modify (f := fun k job =>
      if picks.contains k then job.claim s.tick.workerId a.now else job) rfl (fun k job _ => ?_) rfl ?_
    · split <;> rfl
    · rw [hphase]
      exact Nat.one_lt_two

theorem measure_look (h : TickInv s) (hphase : s.phase = .checking) :
    (s.look a).measure < s.measure := by
  obtain ⟨c, rest, hbatch⟩ := h.busy (.inr hphase)
  unfold look
  rw [hbatch]
  dsimp only
  split
  · refine measure_lt_of_modify rfl (fun k job _ => ?_) rfl ?_
    · unfold Db.releasedRow
      split <;> rfl
    · rw [hphase]
      show TickPhase.rank .claiming < TickPhase.rank .checking
      decide
  · refine measure_lt_of_modify (f := fun _ job => job) ?_ (fun _ _ _ => rfl) rfl ?_
    · exact ((Table.modify_eq_self_iff _ _).mpr fun _ _ => rfl).symm
    · rw [hphase]
      show TickPhase.rank .sending < TickPhase.rank .checking
      decide

/-- A job that goes is one less. If a check guards it, what it leaves behind is guarded by none;
if none does, it leaves nothing behind. -/
theorem measure_send (h : TickInv s) (hphase : s.phase = .sending) :
    (s.send cfg a).measure < s.measure := by
  obtain ⟨c, rest, hbatch⟩ := h.busy (.inl hphase)
  have hc : c ∈ s.tick.batch := by
    rw [hbatch]
    exact List.mem_cons_self
  obtain ⟨job, old, stamp, hholds⟩ := h.holds c hc
  have hhandles := h.handles cfg a hc
  have hsend : (s.send cfg a).db = s.handle cfg a c ∧
      (s.send cfg a).tick.processed = s.tick.processed ++ [c.jobId] := by
    unfold send
    rw [hbatch]
    exact ⟨rfl, rfl⟩
  have hfresh {k : JobId} (hk : k ∉ (s.send cfg a).tick.processed) :
      k ∉ s.tick.processed ∧ k ≠ c.jobId := by
    rw [hsend.2, List.mem_append, List.mem_singleton, not_or] at hk
    exact hk
  have hgone : c.jobId ∈ (s.send cfg a).tick.processed := by
    rw [hsend.2]
    exact List.mem_append_right _ (List.mem_singleton_self _)
  -- A guarded job that is left was left before: what is new is not guarded.
  have hsub : (s.send cfg a).guardedLeft ⊆ s.guardedLeft := by
    intro k hk
    obtain ⟨⟨job', hjob', hneeds⟩, hk⟩ := mem_guardedLeft_iff.mp hk
    obtain ⟨hk, hne⟩ := hfresh hk
    rw [hsend.1] at hjob'
    obtain hnone | ⟨job₀, hjob₀⟩ := (s.db.jobs.get k).eq_none_or_eq_some
    · rw [(hhandles.new k job' hjob' hnone).2.1] at hneeds
      cases hneeds
    · obtain ⟨job₁, hjob₁, hneeds₁, -⟩ := hhandles.others k job₀ hne hjob₀
      obtain rfl : job' = job₁ := Option.some.inj (hjob'.symm.trans hjob₁)
      exact mem_guardedLeft_iff.mpr ⟨⟨job₀, hjob₀, hneeds₁ ▸ hneeds⟩, hk⟩
  refine measure_lt hsub ?_
  by_cases hguarded : job.needsCheck = true
  · refine .inl (Finset.ssubset_iff_of_subset hsub |>.mpr ⟨c.jobId, ?_, fun hk => ?_⟩)
    · exact mem_guardedLeft_iff.mpr ⟨⟨job, hholds.row, hguarded⟩, h.toGo c hc⟩
    · exact (mem_guardedLeft_iff.mp hk).2 hgone
  · have hsub' : (s.send cfg a).left ⊆ s.left := by
      intro k hk
      obtain ⟨⟨job', hjob'⟩, hk⟩ := mem_left_iff.mp hk
      obtain ⟨hk, -⟩ := hfresh hk
      rw [hsend.1] at hjob'
      refine mem_left_iff.mpr ⟨?_, hk⟩
      obtain hnone | hstored := (s.db.jobs.get k).eq_none_or_eq_some
      · obtain ⟨job₀, hjob₀, hneeds⟩ := (hhandles.new k job' hjob' hnone).2.2
        obtain rfl : job = job₀ := Option.some.inj (hholds.row.symm.trans hjob₀)
        exact absurd hneeds hguarded
      · exact hstored
    refine .inr (.inl (Finset.ssubset_iff_of_subset hsub' |>.mpr ⟨c.jobId, ?_, fun hk => ?_⟩))
    · exact mem_left_iff.mpr ⟨⟨job, hholds.row⟩, h.toGo c hc⟩
    · exact (mem_left_iff.mp hk).2 hgone

end PushTick

/-- Every round before the return lowers the measure, where no one files a job. -/
theorem measure_next {cfg : Settings} {s : PushTick} (h : TickInv s)
    (hphase : s.phase ≠ .returned) (a : Answer) : (s.next cfg (a, [])).measure < s.measure := by
  unfold PushTick.next
  dsimp only
  rw [PushTick.arrive_nil]
  split
  next hphase => exact PushTick.measure_claim hphase
  next hphase => exact PushTick.measure_send h hphase
  next hphase => exact PushTick.measure_look h hphase
  next hreturned => exact absurd hreturned hphase

/-! ### What a round makes of a claimed job -/

namespace PushTick

variable {cfg : Settings} {s : PushTick} {a : Answer} {k : JobId}

/-- The job is the tick's, and still to go, or it is not claimed any more. -/
def Accounted (s : PushTick) (k : JobId) : Prop :=
  k ∈ s.tick.batch.map (·.jobId) ∨
    ∃ job, s.db.jobs.get k = some job ∧ job.status ≠ .processing

theorem accounted_claim (h : TickInv s) (hphase : s.phase = .claiming) (hk : s.Accounted k) :
    (s.claim cfg a).Accounted k := by
  have hidle : s.tick.batch = [] := h.idle.mpr (.inl hphase)
  rcases hk with hk | ⟨job, hjob, hstatus⟩
  · rw [hidle] at hk
    exact absurd hk List.not_mem_nil
  unfold claim
  generalize s.db.dueJobs cfg s.tick.processed a = picks
  split
  next => exact .inr ⟨job, hjob, hstatus⟩
  next =>
    by_cases hpicked : k ∈ picks
    · exact .inl (List.mem_map.mpr ⟨s.db.claimedJob k, List.mem_map_of_mem hpicked, rfl⟩)
    · refine .inr ⟨job, ?_, hstatus⟩
      show (s.db.modifyJobs _).jobs.get k = _
      rw [Db.modifyJobs, Table.get_modify, hjob, Option.map_some,
        if_neg fun hcontains => hpicked (List.contains_iff_mem.mp hcontains)]

theorem accounted_send (h : TickInv s) (hphase : s.phase = .sending) (hk : s.Accounted k) :
    (s.send cfg a).Accounted k := by
  obtain ⟨c, rest, hbatch⟩ := h.busy (.inl hphase)
  have hhandles := h.handles cfg a (hbatch ▸ List.mem_cons_self : c ∈ s.tick.batch)
  have hstored : ∃ job, s.db.jobs.get k = some job := by
    rcases hk with hk | ⟨job, hjob, -⟩
    · obtain ⟨c', hc', rfl⟩ := List.mem_map.mp hk
      obtain ⟨job, old, stamp, hholds⟩ := h.holds c' hc'
      exact ⟨job, hholds.row⟩
    · exact ⟨job, hjob⟩
  obtain ⟨job, hjob⟩ := hstored
  unfold send
  rw [hbatch]
  by_cases hown : k = c.jobId
  · subst hown
    obtain ⟨job', hjob', -, hstatus⟩ := hhandles.own job hjob
    exact .inr ⟨job', hjob', hstatus⟩
  · rcases hk with hk | ⟨job₀, hjob₀, hstatus⟩
    · rw [hbatch, List.map_cons, List.mem_cons] at hk
      exact .inl (hk.resolve_left hown)
    · obtain ⟨job', hjob', -, hsame⟩ := hhandles.others k job₀ hown hjob₀
      exact .inr ⟨job', hjob', fun hclaimed => hstatus (hsame hclaimed ▸ hclaimed)⟩

/-- The row of a batch that is handed back. -/
theorem releasedRow_of_mem {c : Claimed} (hc : c ∈ s.tick.batch) {job old : PushJob} {stamp : Time} (hholds : s.Holds c job old stamp) (hclaimed : job.status = .processing) :
    Db.releasedRow s.tick.workerId (s.tick.batch.map (·.jobId)) c.jobId job = old.unlock := by
  obtain ⟨time, rfl⟩ := hholds.claimed hclaimed
  unfold Db.releasedRow
  rw [if_pos ⟨List.contains_iff_mem.mpr (List.mem_map_of_mem hc), hclaimed, rfl⟩]
  -- What the claim wrote is what the hand-back writes: the status and the two lock columns.
  show ({ old.unlock with status := .pending } : PushJob) = old.unlock
  rw [← hholds.waited]
  rfl

theorem accounted_look (h : TickInv s) (hphase : s.phase = .checking) (hk : s.Accounted k) :
    (s.look a).Accounted k := by
  obtain ⟨c, rest, hbatch⟩ := h.busy (.inr hphase)
  have hmoved : ∃ job, s.db.jobs.get k = some job ∧
      (Db.releasedRow s.tick.workerId (s.tick.batch.map (·.jobId)) k job).status ≠ .processing := by
    rcases hk with hk | ⟨job, hjob, hstatus⟩
    · obtain ⟨c', hc', rfl⟩ := List.mem_map.mp hk
      obtain ⟨job, old, stamp, hholds⟩ := h.holds c' hc'
      refine ⟨job, hholds.row, ?_⟩
      by_cases hclaimed : job.status = .processing
      · rw [releasedRow_of_mem hc' hholds hclaimed]
        show old.status ≠ .processing
        rw [hholds.waited]
        exact PushJobStatus.noConfusion
      · unfold Db.releasedRow
        rw [if_neg fun hheld => hclaimed hheld.2.1]
        exact hclaimed
    · refine ⟨job, hjob, ?_⟩
      unfold Db.releasedRow
      rw [if_neg fun hheld => hstatus hheld.2.1]
      exact hstatus
  obtain ⟨job, hjob, hstatus⟩ := hmoved
  unfold look
  rw [hbatch] at hstatus ⊢
  dsimp only
  split
  · refine .inr ⟨_, ?_, hstatus⟩
    show (s.db.modifyJobs _).jobs.get k = _
    rw [Db.modifyJobs, Table.get_modify, hjob, Option.map_some]
  · rcases hk with hk | hk
    · exact .inl hk
    · exact .inr hk

theorem accounted_next (h : TickInv s) (input : Answer × List NewJob) (hk : s.Accounted k) :
    (s.next cfg input).Accounted k := by
  obtain ⟨a, filed⟩ := input
  have harrived := h.arrive a.now filed
  have hk' : (s.arrive a.now filed).Accounted k := by
    rcases hk with hk | ⟨job, hjob, hstatus⟩
    · exact .inl hk
    · exact .inr ⟨job, arrive_kept h.below filed hjob, hstatus⟩
  unfold next
  dsimp only
  split
  next hphase => exact accounted_claim harrived hphase hk'
  next hphase => exact accounted_send harrived hphase hk'
  next hphase => exact accounted_look harrived hphase hk'
  next => exact hk

/-- A job the tick is done with stays so. -/
theorem processed_next (input : Answer × List NewJob) (hk : k ∈ s.tick.processed) :
    k ∈ (s.next cfg input).tick.processed := by
  obtain ⟨a, filed⟩ := input
  unfold next
  dsimp only
  split
  · unfold claim
    split <;> exact hk
  · unfold send
    split
    · exact hk
    · exact List.mem_append_left _ hk
  · unfold look
    split
    · exact hk
    · split <;> exact hk
  · exact hk

end PushTick

/-! ### Between two jobs -/

namespace PushTick

variable {cfg : Settings} {s : PushTick} {a : Answer} {filed : List NewJob} {c : Claimed}

theorem outranked_eq_false_iff {db : Db} {tick : Tick} {priority : Nat} {now : Time} :
    db.outranked tick priority now = false ↔
      ∀ k job, db.jobs.get k = some job → job.due now = true → k ∉ tick.processed →
        priority ≤ job.priority := by
  rw [Db.outranked, Bool.not_eq_false', List.isEmpty_iff, List.eq_nil_iff_forall_not_mem]
  constructor
  · intro hnone k job hjob hdue hfresh
    by_contra hmore
    refine hnone (k, job) ((Table.mem_select_iff ..).mpr ⟨hjob, ?_⟩)
    simp [hdue, hfresh, Nat.lt_of_not_le hmore]
  · rintro hnone ⟨k, job⟩ hmem
    obtain ⟨hjob, hpicked⟩ := (Table.mem_select_iff ..).mp hmem
    simp only [Bool.and_eq_true, Bool.not_eq_true', List.contains_eq_mem,
      decide_eq_false_iff_not, decide_eq_true_eq] at hpicked
    exact absurd hpicked.2 (Nat.not_lt.mpr (hnone k job hjob hpicked.1.1 hpicked.1.2))

/-- A job whose turn has come is one the tick is done with. -/
theorem processed_of_sending (hphase : s.phase = .sending) (hc : s.tick.batch.head? = some c) :
    c.jobId ∈ (s.next cfg (a, filed)).tick.processed := by
  obtain ⟨rest, hbatch⟩ := List.head?_eq_some_iff.mp hc
  have harrived : (s.arrive a.now filed).tick.batch = c :: rest := hbatch
  unfold next
  rw [hphase]
  show c.jobId ∈ ((s.arrive a.now filed).send cfg a).tick.processed
  unfold send
  rw [harrived]
  exact List.mem_append_right _ (List.mem_singleton_self _)

/-- Before a job that is not the first of its batch, the tick has looked for a more urgent one. -/
theorem looked_of_sending (hphase : (s.next cfg (a, filed)).phase = .sending)
    (hbegun : (s.next cfg (a, filed)).tick.begun = true)
    (hc : (s.next cfg (a, filed)).tick.batch.head? = some c) :
    s.phase = .checking ∧
      (s.next cfg (a, filed)).db.outranked (s.next cfg (a, filed)).tick c.priority a.now =
        false := by
  unfold next at hphase hbegun hc ⊢
  dsimp only at hphase hbegun hc ⊢
  cases hs : s.phase with
  | claiming =>
    simp only [hs] at hphase hbegun
    unfold claim at hphase hbegun
    split at hphase <;> cases hphase
    next hsome =>
      split at hbegun
      next hnone => exact absurd hnone hsome
      next => cases hbegun
  | sending =>
    simp only [hs] at hphase
    unfold send at hphase
    split at hphase
    · cases hphase
    · dsimp only at hphase
      split at hphase <;> cases hphase
  | checking =>
    simp only [hs] at hphase hc ⊢
    refine ⟨trivial, ?_⟩
    unfold look at hphase hc ⊢
    split at hphase
    next => cases hphase
    next c' rest hbatch =>
      by_cases houtranked :
          (s.arrive a.now filed).db.outranked (s.arrive a.now filed).tick c'.priority a.now = true
      · rw [if_pos houtranked] at hphase
        cases hphase
      · simp only [hbatch, if_neg houtranked, List.head?_cons, Option.some.injEq] at hc ⊢
        exact hc ▸ Bool.eq_false_iff.mpr houtranked
  | returned =>
    simp only [hs] at hphase
    cases hphase

end PushTick

/-! ### Whole ticks -/

theorem tickInv_start (cfg : Settings) (i : TickInput) :
    TickInv (PushTick.start cfg i.workerId i.jobs i.updatedAt i.startedAt i.locked) where
  below := by
    refine Db.jobsBelow_modifyJobs (fun k hk => ?_) _
    have hmem : k ∈ i.jobs.keys := (Table.mem_keys_iff _ _).mpr (Option.isSome_iff_ne_none.mpr hk)
    exact Nat.lt_succ_of_le (List.le_max_of_le' 0 hmem (Nat.le_refl k))
  processed := List.nodup_nil
  batch := List.nodup_nil
  toGo := fun _ hc => absurd hc List.not_mem_nil
  holds := fun _ hc => absurd hc List.not_mem_nil
  idle := iff_of_true rfl (.inl rfl)

section Runs

variable {cfg : Settings} {i : TickInput}

theorem runPushTick_succ (n : ℕ) :
    runPushTick cfg i (n + 1) =
      (runPushTick cfg i n).next cfg (i.answers n, i.filed.getD n []) := rfl

theorem tickInv_run (n : ℕ) : TickInv (runPushTick cfg i n) :=
  loop_invariant _ TickInv (tickInv_start cfg i) (fun _ input h => tickInv_next h input) n

theorem processed_run {m n : ℕ} (hmn : m ≤ n) {k : JobId}
    (hk : k ∈ (runPushTick cfg i m).tick.processed) : k ∈ (runPushTick cfg i n).tick.processed := by
  induction n, hmn using Nat.le_induction with
  | base => exact hk
  | succ n _ ih =>
    rw [runPushTick_succ]
    exact PushTick.processed_next _ ih

theorem accounted_run {m n : ℕ} (hmn : m ≤ n) {k : JobId}
    (hk : (runPushTick cfg i m).Accounted k) : (runPushTick cfg i n).Accounted k := by
  induction n, hmn using Nat.le_induction with
  | base => exact hk
  | succ n _ ih =>
    rw [runPushTick_succ]
    exact PushTick.accounted_next (tickInv_run n) _ ih

/-- Once all jobs have come in, the rounds lower the measure until the tick returns. -/
theorem runPushTick_returns : ∃ n, (runPushTick cfg i n).phase = .returned := by
  have hstops : ∃ n, (loop (PushTick.next cfg) (runPushTick cfg i i.filed.length)
      (fun k => (i.answers (i.filed.length + k), i.filed.getD (i.filed.length + k) [])) n).phase =
        .returned := by
    refine loop_stops wellFounded_lt PushTick.measure TickInv (fun s => s.phase = .returned)
      (fun input => input.2 = []) (fun _ input h => tickInv_next h input) ?_
      (tickInv_run i.filed.length) fun k => List.getD_eq_default _ _ (Nat.le_add_right _ k)
    rintro s ⟨a, filed⟩ h hphase rfl
    exact measure_next h hphase a
  obtain ⟨n, hn⟩ := hstops
  refine ⟨i.filed.length + n, ?_⟩
  rw [runPushTick, loop_add]
  exact hn

end Runs

/-- The row of a job that is handed back. -/
theorem look_row {s : PushTick} {a : Answer} {c : Claimed} (hphase : (s.look a).phase = .claiming)
    (hc : c ∈ s.tick.batch) {job old : PushJob} {stamp : Time}
    (hholds : s.Holds c job old stamp)
    (hclaimed : job.status = .processing) :
    (s.look a).row c.jobId = some (old.unlock, a.now) := by
  have hreleased := PushTick.releasedRow_of_mem hc hholds hclaimed
  unfold PushTick.look at hphase ⊢
  split at hphase
  next hnil =>
    rw [hnil] at hc
    exact absurd hc List.not_mem_nil
  next c' rest hbatch =>
    by_cases houtranked : s.db.outranked s.tick c'.priority a.now = true
    · simp only [hbatch, if_pos houtranked]
      rw [hbatch] at hreleased
      have hrow : (s.db.modifyJobs
          (Db.releasedRow s.tick.workerId ((c' :: rest).map (·.jobId)))).jobs.get c.jobId =
            some old.unlock := by
        rw [Db.modifyJobs, Table.get_modify, hholds.row, Option.map_some, hreleased]
      -- The row has changed, if only its status.
      have hchanged : some old.unlock ≠ some job := fun heq => by
        have hstatus : old.unlock.status = job.status :=
          congrArg PushJob.status (Option.some.inj heq)
        rw [hclaimed] at hstatus
        exact PushJobStatus.noConfusion (hholds.waited.symm.trans hstatus)
      simp only [PushTick.row, PushTick.commit, hrow, hholds.row, Option.map_some, if_neg hchanged]
    · rw [if_neg houtranked] at hphase
      cases hphase

/-- How a tick drains the jobs. -/
structure TickDrains (cfg : Settings) (i : TickInput) : Prop where
  returns : ∃ n, (runPushTick cfg i n).phase = .returned
  /-- No job's turn comes twice. -/
  once : ∀ m n c c', m < n → (runPushTick cfg i m).phase = .sending →
    (runPushTick cfg i n).phase = .sending → (runPushTick cfg i m).tick.batch.head? = some c →
      (runPushTick cfg i n).tick.batch.head? = some c' → c.jobId ≠ c'.jobId
  /-- Every job the tick has claimed is settled or waits again when it returns. -/
  settled : ∀ m n c, m ≤ n → (runPushTick cfg i n).phase = .returned →
    c ∈ (runPushTick cfg i m).tick.batch → ∃ job,
      (runPushTick cfg i n).db.jobs.get c.jobId = some job ∧ job.status ≠ .processing
  /-- A hand-back leaves what the claim found, without a lock and with its own time. -/
  handedBack : ∀ n c job, (runPushTick cfg i n).phase = .checking →
    (runPushTick cfg i (n + 1)).phase = .claiming → c ∈ (runPushTick cfg i n).tick.batch →
      (runPushTick cfg i n).db.jobs.get c.jobId = some job → job.status = .processing →
        ∃ old stamp, (runPushTick cfg i n).found c.jobId = some (old, stamp) ∧
          (runPushTick cfg i (n + 1)).row c.jobId = some (old.unlock, (i.answers n).now)
  /-- A job that is not the first of its batch goes right after a check that found nothing due
  that is more urgent. -/
  outranks : ∀ n c, (runPushTick cfg i n).phase = .sending →
    (runPushTick cfg i n).tick.begun = true →
      (runPushTick cfg i n).tick.batch.head? = some c → ∃ m, n = m + 1 ∧
        (runPushTick cfg i m).phase = .checking ∧
          ∀ k job, (runPushTick cfg i n).db.jobs.get k = some job →
            job.due (i.answers m).now = true → k ∉ (runPushTick cfg i n).tick.processed →
              c.priority ≤ job.priority
  /-- The priority a claimed job is checked with is its own. -/
  priority : ∀ n c job, c ∈ (runPushTick cfg i n).tick.batch →
    (runPushTick cfg i n).db.jobs.get c.jobId = some job → job.status = .processing →
      job.priority = c.priority

/-- **A push tick drains and stops.** -/
theorem push_tick_drains (cfg : Settings) (i : TickInput) : TickDrains cfg i where
  returns := runPushTick_returns
  once := fun m n c c' hmn hphase hphase' hc hc' heq => by
    have hdone : c.jobId ∈ (runPushTick cfg i (m + 1)).tick.processed := by
      rw [runPushTick_succ]
      exact PushTick.processed_of_sending hphase hc
    obtain ⟨rest, hbatch⟩ := List.head?_eq_some_iff.mp hc'
    have hmem : c' ∈ (runPushTick cfg i n).tick.batch := hbatch ▸ List.mem_cons_self
    exact (tickInv_run n).toGo c' hmem (heq ▸ processed_run hmn hdone)
  settled := fun m n c hmn hphase hc => by
    have h : TickInv (runPushTick cfg i n) := tickInv_run n
    have hidle := h.idle.mpr (.inr hphase)
    rcases accounted_run hmn (.inl (List.mem_map_of_mem hc)) with hk | hk
    · rw [hidle] at hk
      exact absurd hk List.not_mem_nil
    · exact hk
  handedBack := fun n c job hphase hphase' hc hjob hclaimed => by
    have h : TickInv (runPushTick cfg i n) := tickInv_run n
    rw [runPushTick_succ] at hphase' ⊢
    have harrived := h.arrive (i.answers n).now (i.filed.getD n [])
    obtain ⟨job', old, stamp, hholds⟩ := harrived.holds c hc
    obtain rfl : job = job' :=
      Option.some.inj ((PushTick.arrive_kept h.below _ hjob).symm.trans hholds.row)
    refine ⟨old, stamp, hholds.found, ?_⟩
    unfold PushTick.next at hphase' ⊢
    rw [hphase] at hphase' ⊢
    exact look_row hphase' hc hholds hclaimed
  outranks := fun n c hphase hbegun hc => by
    cases n with
    | zero => cases hphase
    | succ m =>
      rw [runPushTick_succ] at hphase hbegun hc ⊢
      obtain ⟨hchecking, hnone⟩ := PushTick.looked_of_sending hphase hbegun hc
      exact ⟨m, rfl, hchecking, PushTick.outranked_eq_false_iff.mp hnone⟩
  priority := fun n c job hc hjob hclaimed => by
    obtain ⟨job', old, stamp, hholds⟩ := (tickInv_run n).holds c hc
    obtain rfl : job = job' := Option.some.inj (hjob.symm.trans hholds.row)
    obtain ⟨time, rfl⟩ := hholds.claimed hclaimed
    exact hholds.priority.symm

/-! ### A hand-back -/

/-- A bulletin's push. -/
def bulletinJob (number : String) (priority : Nat) : NewJob where
  userId := 1
  deviceId := none
  dedupeKey := .other number
  channel := .bulletin
  scenario := .other "bulletin"
  payload :=
    { activityEnd := false
      activityId := none
      sessionReauth := false
      forced := false
      sourceDeviceId := none }
  fireAt := 0
  priority

/-- Two bulletins are due, and an urgent one comes in while the first goes. -/
def urgentArrives : TickInput where
  workerId := "worker"
  jobs := ⟨[(1, (bulletinJob "1" 100).row 0), (2, (bulletinJob "2" 100).row 0)], by decide⟩
  updatedAt := fun _ => 0
  startedAt := 0
  locked := fun _ => false
  filed := [[], [], [bulletinJob "3" 10]]
  answers := fun n => ⟨n + 1, fun _ => false, fun k => k, none, allReached, false, []⟩

/-- The second of two bulletins is claimed and handed back, and its row is not what it was. -/
theorem handed_back_restamped :
    (runPushTick defaultTimes urgentArrives 0).phase = .claiming ∧
      (runPushTick defaultTimes urgentArrives 2).phase = .checking ∧
        (runPushTick defaultTimes urgentArrives 2).tick.batch.map (·.jobId) = [2] ∧
          (runPushTick defaultTimes urgentArrives 3).phase = .claiming ∧
            (runPushTick defaultTimes urgentArrives 3).row 2 ≠
              (runPushTick defaultTimes urgentArrives 0).row 2 := by
  decide +kernel

end TigerDuck.Push
