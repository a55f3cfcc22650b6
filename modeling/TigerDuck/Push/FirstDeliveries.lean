import TigerDuck.Push.Deliveries
import TigerDuck.Push.Presend

/-!
# The first deliveries of a guarded job

A reminder or a countdown start gets its first deliveries only from a round that holds a `send`
verdict, whose second look at the rows finds the assignment still to be done, and which comes
before the grace after the fire time is over. Everything else fails closed: a job whose check
gave no verdict goes back, and what becomes of a call to Moodle other than an open assignment is
no `send`.

- `Db.NoFirst`: what a transaction other than a round makes of the deliveries.
- `first_deliveries_checked`: the property, along any run.
-/

namespace TigerDuck.Push

open Relational Sync SyncJobs Transition

/-! ### Transactions that file no first delivery -/

/-- A job that has deliveries has had some before. -/
def Db.NoFirst (db db' : Db) : Prop :=
  ∀ j job', db'.jobs.get j = some job' → job'.deliveries ≠ [] →
    ∃ job, db.jobs.get j = some job ∧ job.deliveries ≠ []

namespace Db.NoFirst

variable {db db' db'' : Db} {now : Time}

theorem of_jobs (h : db'.jobs = db.jobs) : db.NoFirst db' :=
  fun _ job' hjob' hsome => ⟨job', h ▸ hjob', hsome⟩

theorem trans (h : db.NoFirst db') (h' : db'.NoFirst db'') : db.NoFirst db'' := by
  intro j job'' hjob'' hsome''
  obtain ⟨job', hjob', hsome'⟩ := h' j job'' hjob'' hsome''
  exact h j job' hjob' hsome'

/-- What the deliveries come to, the ticks do not say. -/
theorem withTicks (h : db.NoFirst db') (ticks : TickId → Option Tick) :
    db.NoFirst { db' with ticks } := h.trans (of_jobs rfl)

theorem modifyJobs {f : JobId → PushJob → PushJob}
    (hf : ∀ k job, (f k job).deliveries ≠ [] → job.deliveries ≠ []) :
    db.NoFirst (db.modifyJobs f) := by
  intro j job' hjob' hsome
  rw [Db.modifyJobs, Table.get_modify] at hjob'
  obtain ⟨job, hjob, rfl⟩ := Option.map_eq_some_iff.mp hjob'
  exact ⟨job, hjob, hf j job hsome⟩

theorem updateJob (j : JobId) {f : PushJob → PushJob}
    (hf : ∀ job, (f job).deliveries ≠ [] → job.deliveries ≠ []) :
    db.NoFirst (db.updateJob j f) := by
  refine modifyJobs fun k job hsome => ?_
  split at hsome
  · exact hf job hsome
  · exact hsome

theorem cancelPending (p : JobId → PushJob → Bool) : db.NoFirst (db.cancelPending now p) := by
  refine modifyJobs fun k job hsome => ?_
  unfold Db.cancelRow at hsome
  split at hsome <;> exact hsome

/-- A filed job has none. -/
theorem fileJob (new : NewJob) : db.NoFirst (db.fileJob now new) := by
  intro j job' hjob' hsome
  unfold Db.fileJob at hjob'
  dsimp only at hjob'
  split at hjob'
  · rw [Table.get_set] at hjob'
    by_cases hlast : j = db.nextJob
    · rw [if_pos hlast] at hjob'
      obtain rfl := Option.some.inj hjob'
      exact absurd rfl hsome
    · rw [if_neg hlast] at hjob'
      exact ⟨job', hjob', hsome⟩
  · exact ⟨job', hjob', hsome⟩

theorem fileJobs (rows : List NewJob) : db.NoFirst (db.fileJobs now rows) := by
  unfold Db.fileJobs
  induction rows generalizing db with
  | nil => exact of_jobs rfl
  | cons new rest ih => exact (fileJob new).trans ih

theorem accelerateEnd (new : NewJob) :
    db.NoFirst (db.modifyJobs fun _ => Db.accelerateEnd now new) := by
  refine modifyJobs fun k job hsome => ?_
  unfold Db.accelerateEnd at hsome
  split at hsome <;> exact hsome

theorem endRunningActivities (ends : List NewJob) :
    db.NoFirst (db.endRunningActivities now ends) := by
  unfold Db.endRunningActivities
  induction ends generalizing db with
  | nil => exact of_jobs rfl
  | cons new rest ih => exact ((accelerateEnd new).trans (fileJob new)).trans ih

theorem cancelForSubmitted (userId : UserId) (ids : List MoodleId) (skip : JobId → Bool)
    (ends : List NewJob) : db.NoFirst (db.cancelForSubmitted userId ids skip now ends) :=
  (cancelPending _).trans (endRunningActivities ends)

theorem scanReminders (channel : Channel) (validKeys : List (UserId × DedupeKey))
    (toFile : List NewJob) (skip : JobId → Bool) :
    db.NoFirst (db.scanReminders channel validKeys toFile skip now) :=
  (cancelPending _).trans (fileJobs toFile)

theorem syncSchedule (userId : UserId) (deviceId : DeviceId) (events : List ScheduleEvent)
    (skip : JobId → Bool) : db.NoFirst (db.syncSchedule userId deviceId events skip now) := by
  refine ((cancelPending _).trans (modifyJobs fun k job hsome => ?_)).trans (fileJobs _)
  unfold Db.keptRow at hsome
  split at hsome
  · cases hevent : Db.incoming deviceId events job.dedupeKey with
    | none =>
      rw [hevent] at hsome
      exact hsome
    | some e =>
      rw [hevent] at hsome
      exact hsome
  · exact hsome

theorem registerLiveActivity (new : NewJob) : db.NoFirst (db.registerLiveActivity now new) := by
  refine (modifyJobs fun k job hsome => ?_).trans (fileJob new)
  unfold Db.registeredRow at hsome
  -- Of the branches, none touches the deliveries.
  split at hsome
  · exact hsome
  · split at hsome
    · exact hsome
    · split at hsome <;> exact hsome

/-- After the write of its own job, a round's transaction files none. -/
theorem processJob {cfg : Settings} {tick : Tick} {j : JobId} {check : Option PresendCheck}
    {round : Round} {skip : JobId → Bool} {ends : List NewJob} {job : PushJob}
    (hjob : db.jobs.get j = some job) :
    (db.updateJob j fun _ => (job.process cfg tick.workerId now check round).1).NoFirst
      (db.processJob cfg tick j check now round skip ends) := by
  unfold Db.processJob
  rw [hjob]
  dsimp only
  split
  · exact cancelForSubmitted _ _ _ _
  · exact of_jobs rfl

/-- Every step but a round's. -/
theorem step {cfg : Settings} {l : Label} (hstep : Push.step cfg db l = some db')
    (hround : ∀ t now round skip ends, l ≠ .process t now round skip ends) : db.NoFirst db' := by
  cases step_cases hstep with
  | startTick | check | endTick => exact of_jobs rfl
  | recoverStale =>
    refine updateJob _ fun job hsome => ?_
    unfold PushJob.recoverStale at hsome
    dsimp only at hsome
    split at hsome <;> exact hsome
  | claim =>
    refine (modifyJobs fun k job hsome => ?_).withTicks _
    split at hsome <;> exact hsome
  | release =>
    refine (modifyJobs fun k job hsome => ?_).withTicks _
    unfold Db.releasedRow at hsome
    split at hsome <;> exact hsome
  | process => exact absurd rfl (hround _ _ _ _ _)
  | crash =>
    refine (updateJob _ fun job hsome => ?_).withTicks _
    split at hsome
    · unfold PushJob.crash at hsome
      dsimp only at hsome
      split at hsome <;> exact hsome
    · exact hsome
  | scanAssignmentReminders | scanCourseReminders => exact scanReminders _ _ _ _
  | cancelForSubmitted => exact cancelForSubmitted _ _ _ _
  | syncSchedule => exact syncSchedule _ _ _ _
  | cancelSchedule => exact cancelPending _
  | registerLiveActivity => exact registerLiveActivity _
  | fileJobs => exact fileJobs _
  | ride =>
    refine updateJob _ fun job hsome => ?_
    unfold Db.rideRow at hsome
    split at hsome <;> exact hsome
  | cancelPendingDeliveriesForDevice =>
    -- Deliveries are rewritten one by one.
    refine modifyJobs fun k job hsome hnone => hsome ?_
    unfold Db.syncedRow
    split
    · show job.deliveries.map _ = []
      rw [hnone, List.map_nil]
    · exact hnone
  | deleteDevice =>
    refine modifyJobs fun k job hsome hnone => hsome ?_
    show job.deliveries.map _ = []
    rw [hnone, List.map_nil]
  | pruneTerminal =>
    intro j job' hjob' hsome
    rw [Db.pruneTerminal, Table.get_deleteWhere] at hjob'
    exact ⟨job', (Option.filter_eq_some_iff.mp hjob').1, hsome⟩

end Db.NoFirst

/-! ### What the checks find -/

/-- Moodle answered that the student may still hand the assignment in. -/
def MoodleCall.SaysOpen (call : MoodleCall) : Prop :=
  ∃ status, call = .answer status ∧ status.isSubmitted = false ∧
    status.submissionsEnabled = true ∧ status.locked = false

namespace Presend

/-- What a second look that lets a job go has found: no row of the assignment is submitted,
marked or in an ignored course, and one is live, due when the job says it is, if it says so. -/
structure StillDue (rows : UserRows) (term : Option String) (job : PushJob) (id : MoodleId)
    (now : Time) : Prop where
  unsubmitted : ∀ k row, rows.assignments.get k = some row → k.moodleAssignmentId = id →
    row.providerIsSubmitted = false
  unmarked : ∀ k row mark, rows.assignments.get k = some row → k.moodleAssignmentId = id →
    rows.marks.get row.id = some mark → mark.localStatus.value = .none
  notIgnored : ∀ k row i course, rows.assignments.get k = some row → k.moodleAssignmentId = id →
    rows.courses.get i = some course → course.ignoreAssignments = true →
      ¬ course.Covers term k row
  live : ∃ k row, rows.assignments.get k = some row ∧ k.moodleAssignmentId = id ∧
    row.deletedAt = none ∧ (job.channel = .assignment ∨ job.filedDue ≠ none →
      ∃ due, row.dueAt = some due ∧ job.filedDue = some (Int.ofNat (dueSeconds due)))
  ahead : ∀ epoch, job.filedDue = some epoch → (now : Int) < epoch * (SECOND : Int)

variable {rows : UserRows} {term : Option String} {job : PushJob} {id : MoodleId} {now : Time}

theorem mem_assignmentRows {k : AssignmentKey} {row : UserAssignment} :
    (k, row) ∈ assignmentRows rows id ↔
      rows.assignments.get k = some row ∧ k.moodleAssignmentId = id := by
  simp [assignmentRows, Table.select, Table.get_eq_some_iff]

theorem mem_alive {row : UserAssignment} :
    row ∈ alive (assignmentRows rows id) ↔
      ∃ k, rows.assignments.get k = some row ∧ k.moodleAssignmentId = id ∧
        row.deletedAt = none := by
  simp only [alive, List.mem_filter, List.mem_map, Prod.exists, mem_assignmentRows,
    Option.isNone_iff_eq_none]
  constructor
  · rintro ⟨⟨k, _, ⟨hget, hid⟩, rfl⟩, hdeleted⟩
    exact ⟨k, hget, hid, hdeleted⟩
  · rintro ⟨k, hget, hid, hdeleted⟩
    exact ⟨⟨k, row, ⟨hget, hid⟩, rfl⟩, hdeleted⟩

/-- A job that names its due time is due then, whatever the rows say. -/
theorem dueEpoch_of_filedDue {alive : List UserAssignment}
    (h : job.channel = .assignment ∨ job.filedDue ≠ none) : job.dueEpoch alive = job.filedDue := by
  unfold PushJob.dueEpoch
  split
  · rfl
  next hchannel =>
    obtain ⟨epoch, hepoch⟩ := Option.ne_none_iff_exists'.mp (h.resolve_left hchannel)
    rw [hepoch, Option.some_or]

/-- A check that settles nothing has passed. -/
theorem ite_some_eq_none_iff {α : Type} {p : Prop} [Decidable p] {a : α} {x : Option α} :
    (if p then some a else x) = none ↔ ¬ p ∧ x = none := by
  split <;> simp [*]

/-- The rows let a job go only while its assignment is still to be done. -/
theorem StillDue.of_databaseVerdict (h : databaseVerdict rows term job id now = none) :
    StillDue rows term job id now := by
  simp only [databaseVerdict, ite_some_eq_none_iff] at h
  obtain ⟨hsubmitted, hmarked, hignored, hlive, hdue, hpassed, -⟩ := h
  have hnone {p : AssignmentKey × UserAssignment → Bool} {k : AssignmentKey}
      {row : UserAssignment} (hp : ¬ (assignmentRows rows id).any p = true)
      (hget : rows.assignments.get k = some row) (hid : k.moodleAssignmentId = id) :
      p (k, row) = false := by
    refine Bool.eq_false_of_not_eq_true fun htrue => hp ?_
    exact List.any_eq_true.mpr ⟨(k, row), mem_assignmentRows.mpr ⟨hget, hid⟩, htrue⟩
  constructor
  case unsubmitted => exact fun k row hget hid => hnone hsubmitted hget hid
  case unmarked =>
    intro k row mark hget hid hmark
    have hfalse : rows.marked row = false := hnone hmarked hget hid
    exact UserRows.marked_eq_false_iff.mp hfalse mark hmark
  case notIgnored =>
    intro k row i course hget hid hcourse hignores hcovers
    have hfalse : (rows.ignoredCourses term).has k row = false := hnone hignored hget hid
    have htrue := has_ignoredCourses_iff.mpr ⟨i, course, hcourse, hignores, hcovers⟩
    rw [hfalse] at htrue
    cases htrue
  case live =>
    by_cases hfiled : job.channel = .assignment ∨ job.filedDue ≠ none
    · -- Some live row is due in the second the job was filed for.
      rw [dueEpoch_of_filedDue hfiled] at hdue
      have hany : (alive (assignmentRows rows id)).any (dueAtEpoch job.filedDue) = true :=
        Bool.eq_true_of_not_eq_false fun hfalse =>
          hdue ⟨hfiled.imp (fun h => h) Option.ne_none_iff_isSome.mp, hfalse⟩
      obtain ⟨row, hrow, hat⟩ := List.any_eq_true.mp hany
      obtain ⟨k, hget, hid, hdeleted⟩ := mem_alive.mp hrow
      obtain ⟨due, hdueAt, hsame⟩ := (Option.any_eq_true ..).mp hat
      exact ⟨k, row, hget, hid, hdeleted, fun _ => ⟨due, hdueAt, (of_decide_eq_true hsame).symm⟩⟩
    · obtain ⟨row, hrow⟩ := List.exists_mem_of_ne_nil _ hlive
      obtain ⟨k, hget, hid, hdeleted⟩ := mem_alive.mp hrow
      exact ⟨k, row, hget, hid, hdeleted, fun h => absurd h hfiled⟩
  case ahead =>
    intro epoch hepoch
    have hfiled : job.filedDue ≠ none := by simp [hepoch]
    rw [dueEpoch_of_filedDue (.inr hfiled), hepoch, Option.any_some, decide_eq_true_eq,
      Int.not_le] at hpassed
    exact hpassed

/-- What the rows settle is never a `send`. -/
theorem databaseVerdict_ne_send {check : PresendCheck}
    (h : databaseVerdict rows term job id now = some check) : check.verdict ≠ .send := by
  unfold databaseVerdict at h
  dsimp only at h
  repeat' split at h
  all_goals first
    | obtain rfl := Option.some.inj h
      exact Verdict.noConfusion
    | cases h

theorem recheckRows_ne_send {check : PresendCheck}
    (h : recheckRows rows term job now = some check) : check.verdict ≠ .send := by
  unfold recheckRows at h
  split at h
  · obtain rfl := Option.some.inj h
    exact Verdict.noConfusion
  · exact databaseVerdict_ne_send h

/-- What a second look that stands aside has found. -/
theorem StillDue.of_recheckRows (h : recheckRows rows term job now = none) :
    ∃ id, job.assignmentId = some id ∧ StillDue rows term job id now := by
  unfold recheckRows at h
  split at h
  · cases h
  next id hid => exact ⟨id, hid, of_databaseVerdict h⟩

/-- Only an answer of Moodle's makes a verdict `send`. -/
theorem verdict_send {call : MoodleCall} (h : (verdict rows term job now call).verdict = .send) :
    call.SaysOpen := by
  unfold verdict at h
  split at h
  · cases h
  next id hid =>
    obtain hrows | ⟨check, hrows⟩ := (databaseVerdict rows term job id now).eq_none_or_eq_some
    · rw [hrows, Option.getD_none] at h
      unfold askMoodle at h
      split at h
      next status =>
        simp only [answerVerdict] at h
        refine ⟨status, rfl, ?_⟩
        split at h
        · cases h
        next hsubmitted =>
          split at h
          · cases h
          next henabled =>
            split at h
            · cases h
            next hlocked =>
              exact ⟨Bool.eq_false_of_not_eq_true hsubmitted, Bool.eq_true_of_not_eq_false henabled,
                Bool.eq_false_of_not_eq_true hlocked⟩
      · cases h
    · -- The rows settled it, and not as `send`.
      rw [hrows, Option.getD_some] at h
      exact absurd h (databaseVerdict_ne_send hrows)

end Presend

/-! ### A round's first deliveries -/

namespace PushJob

variable {cfg : Settings} {job : PushJob} {now : Time}

/-- A `send` stands when the rows do not object and the grace is not over. -/
theorem finalCheck_send {check : PresendCheck} {rowsVerdict : Option PresendCheck}
    (h : (job.finalCheck cfg now check rowsVerdict).verdict = .send)
    (hrows : ∀ found, rowsVerdict = some found → found.verdict ≠ .send) :
    check.verdict = .send ∧ rowsVerdict = none ∧ now < job.graceEnd cfg := by
  unfold finalCheck at h
  dsimp only at h
  split at h
  next hsend =>
    split at h
    · cases h
    next hgrace =>
      refine ⟨hsend, ?_, Nat.lt_of_not_le fun hover => hgrace ⟨h, hover⟩⟩
      obtain hnone | ⟨found, hfound⟩ := rowsVerdict.eq_none_or_eq_some
      · exact hnone
      · rw [hfound, Option.getD_some] at h
        exact absurd h (hrows found hfound)
  next hother =>
    -- Any other verdict is acted on as it is.
    rw [if_neg fun hover => hother hover.1] at h
    exact absurd h hother

/-- The round that files a guarded job's first deliveries has a verdict, and acts on `send`. -/
theorem process_first {workerId : String} {check : Option PresendCheck} {round : Round}
    (hneeds : job.needsCheck = true) (hnone : job.deliveries = [])
    (hfirst : (job.process cfg workerId now check round).1.deliveries ≠ []) :
    job.status = .processing ∧ job.lockedBy = some workerId ∧ ∃ asked, check = some asked ∧
      (job.finalCheck cfg now asked round.rowsVerdict).verdict = .send := by
  unfold process at hfirst
  split at hfirst
  next hclaimed =>
    refine ⟨hclaimed.1, hclaimed.2, ?_⟩
    dsimp only at hfirst
    split at hfirst
    next asked =>
      refine ⟨asked, rfl, ?_⟩
      split at hfirst
      next hsend => exact hsend
      -- Held back, its deliveries stay none.
      · exact absurd ((heldBack_keeps cfg job now .submitted).deliveries.trans hnone) hfirst
      · exact absurd ((heldBack_keeps cfg job now _).deliveries.trans hnone) hfirst
    next =>
      -- Unchecked, it goes back.
      rw [hneeds, show job.hasDeliveries = false by rw [hasDeliveries, hnone]; rfl] at hfirst
      exact absurd hnone hfirst
  next => exact absurd hnone hfirst

end PushJob

/-! ### The checks of the batches -/

namespace Db

variable {db : Db} {now : Time}

@[simp]
theorem fileJob_ticks (new : NewJob) : (db.fileJob now new).ticks = db.ticks := by
  unfold fileJob
  dsimp only
  split <;> rfl

@[simp]
theorem fileJobs_ticks (rows : List NewJob) : (db.fileJobs now rows).ticks = db.ticks := by
  unfold fileJobs
  induction rows generalizing db with
  | nil => rfl
  | cons new rest ih => exact ih.trans (fileJob_ticks new)

@[simp]
theorem modifyJobs_ticks (f : JobId → PushJob → PushJob) : (db.modifyJobs f).ticks = db.ticks := rfl

@[simp]
theorem updateJob_ticks (j : JobId) (f : PushJob → PushJob) :
    (db.updateJob j f).ticks = db.ticks := rfl

@[simp]
theorem endRunningActivities_ticks (ends : List NewJob) :
    (db.endRunningActivities now ends).ticks = db.ticks := by
  unfold endRunningActivities
  induction ends generalizing db with
  | nil => rfl
  | cons new rest ih => exact ih.trans (fileJob_ticks new)

@[simp]
theorem cancelForSubmitted_ticks (userId : UserId) (ids : List MoodleId) (skip : JobId → Bool)
    (ends : List NewJob) : (db.cancelForSubmitted userId ids skip now ends).ticks = db.ticks :=
  endRunningActivities_ticks ends

@[simp]
theorem scanReminders_ticks (channel : Channel) (validKeys : List (UserId × DedupeKey))
    (toFile : List NewJob) (skip : JobId → Bool) :
    (db.scanReminders channel validKeys toFile skip now).ticks = db.ticks :=
  fileJobs_ticks toFile

@[simp]
theorem syncSchedule_ticks (userId : UserId) (deviceId : DeviceId) (events : List ScheduleEvent)
    (skip : JobId → Bool) : (db.syncSchedule userId deviceId events skip now).ticks = db.ticks :=
  fileJobs_ticks _

@[simp]
theorem registerLiveActivity_ticks (new : NewJob) :
    (db.registerLiveActivity now new).ticks = db.ticks :=
  fileJob_ticks new

@[simp]
theorem processJob_ticks (cfg : Settings) (tick : Tick) (j : JobId) (check : Option PresendCheck)
    (round : Round) (skip : JobId → Bool) (ends : List NewJob) :
    (db.processJob cfg tick j check now round skip ends).ticks = db.ticks := by
  unfold processJob
  split
  · dsimp only
    split
    · exact cancelForSubmitted_ticks _ _ _ _
    · rfl
  · rfl

/-- A job's check in a tick's batch was there before, is still to come, or has come to what the
step's check answered. -/
def ChecksFrom (l : Label) (db db' : Db) : Prop :=
  ∀ t tick' c check, db'.ticks t = some tick' → c ∈ tick'.batch → c.check = .answered (some check) →
    (∃ tick, db.ticks t = some tick ∧ c ∈ tick.batch) ∨ l = .check t c.jobId check

theorem ChecksFrom.of_ticks {l : Label} {db' : Db} (h : db'.ticks = db.ticks) :
    ChecksFrom l db db' :=
  fun _ tick' _ _ htick hc _ => .inl ⟨tick', h ▸ htick, hc⟩

/-- A tick that gets no other checks than it had. -/
theorem ChecksFrom.set {l : Label} {db' : Db} {t : TickId} {tick : Option Tick}
    (h : db'.ticks = Function.update db.ticks t tick)
    (hbatch : ∀ tick' c check, tick = some tick' → c ∈ tick'.batch →
      c.check = .answered (some check) →
        (∃ old, db.ticks t = some old ∧ c ∈ old.batch) ∨ l = .check t c.jobId check) :
    ChecksFrom l db db' := by
  intro t' tick' c check htick hc hcheck
  rw [h] at htick
  by_cases ht : t' = t
  · subst ht
    rw [Function.update_self] at htick
    exact hbatch tick' c check htick hc hcheck
  · rw [Function.update_of_ne ht] at htick
    exact .inl ⟨tick', htick, hc⟩

theorem checksFrom_step {cfg : Settings} {db' : Db} {l : Label}
    (hstep : Push.step cfg db l = some db') : ChecksFrom l db db' := by
  cases step_cases hstep with
  | startTick | release =>
    refine .set rfl fun tick' c check htick hc => ?_
    obtain rfl := Option.some.inj htick
    exact absurd hc List.not_mem_nil
  | recoverStale => exact .of_ticks rfl
  | claim =>
    refine .set rfl fun tick' c check htick hc hcheck => ?_
    obtain rfl := Option.some.inj htick
    -- A claimed job's check is still to come.
    obtain ⟨j, -, rfl⟩ := List.mem_map.mp hc
    unfold claimedJob at hcheck
    dsimp only at hcheck
    split at hcheck <;> cases hcheck
  | @check t j answer tick htick₀ =>
    refine .set rfl fun tick' c check htick hc hcheck => ?_
    obtain rfl := Option.some.inj htick
    obtain ⟨c₀, hc₀, rfl⟩ := List.mem_map.mp hc
    by_cases hj : c₀.jobId = j
    · rw [if_pos hj] at hcheck ⊢
      have hanswer : db.checkBeforeSend tick j answer = some check :=
        CheckState.answered.inj hcheck
      unfold checkBeforeSend at hanswer
      split at hanswer
      · split at hanswer
        · obtain rfl := Option.some.inj hanswer
          exact .inr (by rw [← hj])
        · cases hanswer
      · cases hanswer
    · rw [if_neg hj]
      exact .inl ⟨tick, htick₀, hc₀⟩
  | @process t _ _ _ _ tick _ _ _ htick₀ hbatch =>
    refine .set (congrArg (Function.update · t _) (processJob_ticks ..)) ?_
    intro tick' c check htick hc _
    obtain rfl := Option.some.inj htick
    exact .inl ⟨tick, htick₀, hbatch ▸ List.mem_cons_of_mem _ hc⟩
  | @crash _ _ tick _ _ htick₀ hbatch =>
    refine .set rfl fun tick' c check htick hc _ => ?_
    obtain rfl := Option.some.inj htick
    exact .inl ⟨tick, htick₀, hbatch ▸ List.mem_cons_of_mem _ hc⟩
  | endTick => exact .set rfl fun _ _ _ htick => absurd htick (Option.some_ne_none _).symm
  | scanAssignmentReminders | scanCourseReminders | cancelForSubmitted | syncSchedule
  | cancelSchedule | registerLiveActivity | fileJobs | ride | cancelPendingDeliveriesForDevice
  | deleteDevice | pruneTerminal =>
    exact .of_ticks (by simp [scanAssignmentReminders, scanCourseReminders, cancelSchedule,
      cancelPending, pruneTerminal])

end Db

/-! ### Along a run -/

namespace Presend

variable {cfg : Settings} {s s' : State} {l : Label} {ls : List Label}

/-- The step of the pipeline behind a step, in the rows as they are. -/
inductive Behind (s : State) : Label → Push.Label → Prop
  | jobs {l : Push.Label} (h : readsNone l = true) : Behind s (.jobs l) l
  | check (t : TickId) (j : JobId) (now : Time) (call : MoodleCall) :
      Behind s (.check t j now call) (.check t j (s.verdict j now call))
  | process (t : TickId) (now : Time) (round : Round) (skip : JobId → Bool) (ends : List NewJob) :
      Behind s (.process t now round skip ends)
        (.process t now { round with rowsVerdict := s.recheck t now } skip ends)

theorem step_cases (hstep : step cfg s l = some s') :
    s'.db = s.db ∨ ∃ l', Behind s l l' ∧ Push.step cfg s.db l' = some s'.db := by
  cases l with
  | jobs l =>
    simp only [step] at hstep
    split at hstep
    next hnone =>
      obtain ⟨db, hdb, rfl⟩ := Option.map_eq_some_iff.mp hstep
      exact .inr ⟨l, .jobs hnone, hdb⟩
    · cases hstep
  | check t j now call =>
    obtain ⟨db, hdb, rfl⟩ := Option.map_eq_some_iff.mp hstep
    exact .inr ⟨_, .check t j now call, hdb⟩
  | process t now round skip ends =>
    obtain ⟨db, hdb, rfl⟩ := Option.map_eq_some_iff.mp hstep
    exact .inr ⟨_, .process t now round skip ends, hdb⟩
  | write users terms =>
    obtain rfl := Option.some.inj hstep
    exact .inl rfl

/-- An earlier check of the tick asked Moodle about the job, which called it open. -/
def Asked (ls : List Label) (t : TickId) (j : JobId) : Prop :=
  ∃ ls₁ now call ls₂, ls = ls₁ ++ Label.check t j now call :: ls₂ ∧ call.SaysOpen

theorem Asked.snoc {t : TickId} {j : JobId} (h : Asked ls t j) (l : Label) :
    Asked (ls ++ [l]) t j := by
  obtain ⟨ls₁, now, call, ls₂, rfl, hopen⟩ := h
  exact ⟨ls₁, now, call, ls₂ ++ [l], by simp, hopen⟩

theorem State.verdict_send {j : JobId} {now : Time} {call : MoodleCall}
    (h : (s.verdict j now call).verdict = .send) : call.SaysOpen := by
  unfold State.verdict at h
  cases hjob : s.db.jobs.get j with
  | none =>
    rw [hjob] at h
    cases h
  | some job =>
    rw [hjob] at h
    exact Presend.verdict_send h

/-- Every `send` a batch holds is an answer of Moodle's. -/
theorem asked_of_send (hrun : FreeRun (step cfg) State.initial ls s) {t : TickId} {tick : Tick}
    {c : Claimed} {check : PresendCheck} (htick : s.db.ticks t = some tick)
    (hc : c ∈ tick.batch) (hcheck : c.check = .answered (some check))
    (hsend : check.verdict = .send) : Asked ls t c.jobId := by
  induction hrun generalizing tick with
  | nil => cases htick
  | @snoc ls s l s' hrun _ hstep ih =>
    rcases step_cases hstep with hsame | ⟨l', hbehind, hpush⟩
    · rw [hsame] at htick
      exact (ih htick hc).snoc l
    · rcases Db.checksFrom_step hpush t tick c check htick hc hcheck with
        ⟨old, hold, hmem⟩ | hanswered
      · exact (ih hold hmem).snoc l
      · -- The step is the check itself.
        subst hanswered
        cases hbehind with
        | jobs h => cases h
        | check t j now call => exact ⟨ls, now, call, [], rfl, State.verdict_send hsend⟩

/-- What the transaction of a tick that files a job's first deliveries rests on. -/
structure Checked (cfg : Settings) (ls : List Label) (s : State) (t : TickId) (j : JobId)
    (job : PushJob) (now : Time) : Prop where
  /-- The job is the tick's, locked and with a `send` verdict. -/
  holds : ∃ tick c rest check, s.db.ticks t = some tick ∧ tick.batch = c :: rest ∧ c.jobId = j ∧
    job.status = .processing ∧ job.lockedBy = some tick.workerId ∧
    c.check = .answered (some check) ∧ check.verdict = .send
  /-- The verdict is Moodle's. -/
  asked : Asked ls t j
  /-- The second look finds the assignment still to be done. -/
  stillDue : ∃ id, job.assignmentId = some id ∧
    StillDue (s.rowsOf job) (currentTermCode s.terms now) job id now
  inTime : now < job.fireAt + cfg.presendGrace

/-- What a round's transaction makes of its job, as far as the first deliveries go. -/
theorem process_of_first {tick : Tick} {k j : JobId} {check : Option PresendCheck} {now : Time}
    {round : Round} {skip : JobId → Bool} {ends : List NewJob} {db : Db} {job job' : PushJob}
    (hjob : db.jobs.get j = some job) (hnone : job.deliveries = [])
    (hjob' : (db.processJob cfg tick k check now round skip ends).jobs.get j = some job')
    (hfirst : job'.deliveries ≠ []) :
    k = j ∧ (job.process cfg tick.workerId now check round).1.deliveries ≠ [] := by
  obtain hgone | ⟨claimed, hclaimed⟩ := (db.jobs.get k).eq_none_or_eq_some
  · rw [Db.processJob, hgone, hjob] at hjob'
    obtain rfl := Option.some.inj hjob'
    exact absurd hnone hfirst
  · obtain ⟨written, hwritten, hsome⟩ := Db.NoFirst.processJob hclaimed j job' hjob' hfirst
    rw [Db.updateJob, Db.modifyJobs, Table.get_modify, hjob] at hwritten
    obtain rfl := Option.some.inj hwritten
    dsimp only at hsome
    by_cases hk : j = k
    · subst hk
      rw [hjob] at hclaimed
      obtain rfl := Option.some.inj hclaimed
      rw [if_pos rfl] at hsome
      exact ⟨rfl, hsome⟩
    · rw [if_neg hk] at hsome
      exact absurd hnone hsome

/-- A job that needs the check gets its first deliveries only in a round that rests on it,
whatever the rows and the other transactions do in between. -/
theorem first_deliveries_checked (hrun : FreeRun (step cfg) State.initial ls s)
    (hstep : step cfg s l = some s') {j : JobId} {job job' : PushJob}
    (hjob : s.db.jobs.get j = some job) (hneeds : job.needsCheck = true)
    (hnone : job.deliveries = []) (hjob' : s'.db.jobs.get j = some job')
    (hfirst : job'.deliveries ≠ []) :
    ∃ t now round skip ends, l = .process t now round skip ends ∧
      Checked cfg ls s t j job now := by
  -- A transaction that files no first delivery leaves the job without one.
  have hquiet (h : s.db.NoFirst s'.db) : False := by
    obtain ⟨job₀, hjob₀, hsome⟩ := h j job' hjob' hfirst
    rw [hjob] at hjob₀
    obtain rfl := Option.some.inj hjob₀
    exact hsome hnone
  rcases step_cases hstep with hsame | ⟨l', hbehind, hpush⟩
  · exact (hquiet (.of_jobs (congrArg Db.jobs hsame))).elim
  · cases hbehind with
    | jobs hreads =>
      refine (hquiet (Db.NoFirst.step hpush ?_)).elim
      rintro t now round skip ends rfl
      cases hreads
    | check t j now call => exact (hquiet (Db.NoFirst.step hpush fun _ _ _ _ _ h => nomatch h)).elim
    | process t now round skip ends =>
      refine ⟨t, now, round, skip, ends, rfl, ?_⟩
      simp only [Push.step] at hpush
      split at hpush
      next tick htick =>
        split at hpush
        next c rest hbatch =>
          obtain ⟨result, hresult, hdb⟩ := Option.map_eq_some_iff.mp hpush
          rw [← hdb] at hjob'
          obtain ⟨hj, hsome⟩ := process_of_first hjob hnone hjob' hfirst
          obtain ⟨hstatus, hlocked, check, rfl, hfinal⟩ :=
            PushJob.process_first hneeds hnone hsome
          have hrecheck : s.recheck t now =
              recheckRows (s.rowsOf job) (currentTermCode s.terms now) job now := by
            simp [State.recheck, htick, hbatch, hj, hjob]
          obtain ⟨hsend, hrows, hgrace⟩ := PushJob.finalCheck_send hfinal fun found hfound =>
            recheckRows_ne_send (hrecheck.symm.trans hfound)
          have hcheck : c.check = .answered (some check) := by
            cases hc : c.check <;> rw [hc] at hresult <;> cases hresult
            rfl
          exact
            { holds := ⟨tick, c, rest, check, htick, hbatch, hj, hstatus, hlocked, hcheck, hsend⟩
              asked := hj ▸ asked_of_send hrun htick (hbatch ▸ List.mem_cons_self) hcheck hsend
              stillDue := StillDue.of_recheckRows (hrecheck.symm.trans hrows)
              inTime := hgrace }
        · cases hpush
      · cases hpush

/-- The reminder of an assignment an hour ahead. -/
def hourAhead : NewJob where
  userId := 1
  deviceId := none
  dedupeKey := .reminder 9 "1h" 3600
  channel := .assignment
  scenario := .reminder "1h"
  payload :=
    { activityEnd := false
      activityId := none
      sessionReauth := false
      forced := false
      sourceDeviceId := none
      assignmentTitle := some "Homework"
      moodleAssignmentId := some 9
      dueEpoch := some 3600 }
  fireAt := 0
  priority := 50

/-- The reminder is claimed, and Moodle calls its assignment open. -/
def foundOpen : List Label :=
  [.write (Table.empty.set 1 homework) [], .jobs (.fileJobs [hourAhead] 0),
    .jobs (.startTick 0 "worker"), .jobs (.claim 0 [1] SECOND),
    .check 0 1 SECOND (.answer ⟨false, true, false, none⟩)]

/-- Its round files the first deliveries. -/
theorem first_deliveries_checked_of_open : ∃ s job,
    exec (step defaultSettings) State.initial foundOpen = some s ∧
      s.db.jobs.get 1 = some job ∧
        Checked defaultSettings foundOpen s 0 1 job (2 * SECOND) := by
  obtain ⟨s, hexec, hs⟩ : ∃ s, exec (step defaultSettings) State.initial foundOpen = some s ∧
      ∃ job, s.db.jobs.get 1 = some job ∧ job.needsCheck = true ∧ job.deliveries = [] ∧
        ∃ s' job', step defaultSettings s
            (.process 0 (2 * SECOND) oneRefused (fun _ => false) []) = some s' ∧
          s'.db.jobs.get 1 = some job' ∧ job'.deliveries ≠ [] :=
    ⟨_, rfl, _, rfl, rfl, rfl, _, _, rfl, rfl, List.cons_ne_nil _ _⟩
  obtain ⟨job, hjob, hneeds, hnone, s', job', hstep, hjob', hfirst⟩ := hs
  obtain ⟨t, now, round, skip, ends, hlabel, hchecked⟩ :=
    first_deliveries_checked (run_of_exec hexec) hstep hjob hneeds hnone hjob' hfirst
  cases hlabel
  exact ⟨s, job, hexec, hjob, hchecked⟩

end Presend

end TigerDuck.Push
