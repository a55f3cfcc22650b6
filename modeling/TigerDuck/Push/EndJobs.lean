import TigerDuck.Push.ActivityTokens

/-!
# A Live Activity's end job

Whenever a register whose countdown is still ahead commits, its activity has one end job that waits,
under the exact key and at the registered time; the ends that have gone out keep their status under
keys of their own.

- `Sound.commit`: the query of `_retire_finished_end_job` has seen every finished job of the key.
- `sound`: what holds in every run.
- `end_job_filed`: the end job at the commit.
-/

namespace TigerDuck.Push

namespace Activities

open Relational Transition
open SyncJobs (MoodleId)

variable {cfg : Settings} {s s' : Activities} {r : RegisterId} {reg : Register}
  {request : RegisterRequest} {j : JobId} {job job' : PushJob} {k : TokenId} {t : TickId}

/-! ### The commit of a register -/

theorem commitTokens_eq (s : Activities) (r : RegisterId) (reg : Register) :
    s.commitTokens r reg = { s with
      tokens := (s.commitTokens r reg).tokens
      nextToken := (s.commitTokens r reg).nextToken } := by
  unfold commitTokens
  dsimp only
  split <;> rfl

theorem commitTokens_written (s : Activities) (r : RegisterId) (reg : Register) :
    s.Written (s.registeredToken r reg.request) reg.request.token (s.commitTokens r reg).tokens
      (s.commitTokens r reg).nextToken where
  scope := fun k token => by
    unfold registeredToken
    split
    · split <;> rfl
    · rfl
  rows := by
    unfold commitTokens
    dsimp only
    split
    · exact .inr ⟨rfl, rfl⟩
    · exact .inl ⟨rfl, rfl⟩

/-- Another register's activity gets no token. -/
theorem Sound.commitTokens_prior (h : s.Sound) (hreg : s.registers.get r = some reg)
    {r' : RegisterId} {reg' : Register} (hother : r' ≠ r) (hreg' : s.registers.get r' = some reg')
    (k : TokenId) (token' : UpdateToken) (htoken' : (s.commitTokens r reg).tokens.get k = some token')
    (hprior : reg'.request.isPrior token' = true) :
    ∃ token, s.tokens.get k = some token ∧ reg'.request.isPrior token = true ∧
      token'.tokenHash = token.tokenHash := by
  refine (commitTokens_written s r reg).prior (fun k token htoken hprior => ?_) ?_ k token' htoken'
    hprior
  · unfold registeredToken at hprior ⊢
    split at hprior
    next hlock =>
      split at hprior
      next =>
        -- The token it has upserted is of its own activity.
        obtain ⟨reg₀, token₀, hreg₀, htoken₀, hscope⟩ := h.tokens.held k r hlock
        obtain rfl := Option.some.inj (hreg₀.symm.trans hreg)
        obtain rfl := Option.some.inj (htoken₀.symm.trans htoken)
        simp only [RegisterRequest.isPrior, Bool.and_eq_true, decide_eq_true_eq] at hprior
        exact absurd (h.alone r r' reg₀ reg' hreg hreg' hprior.1.2 (hscope.symm.trans hprior.2))
          (Ne.symm hother)
      next => cases hprior
    next hkept =>
      rw [if_neg hkept]
      exact ⟨hprior, rfl⟩
  · refine Bool.eq_false_iff.mpr fun hprior => ?_
    simp only [RegisterRequest.isPrior, Bool.and_eq_true, decide_eq_true_eq] at hprior
    exact hother (h.alone r r' reg reg' hreg hreg' hprior.1.2 hprior.2).symm

/-- The end of a register that files no end job: its countdown is over. -/
theorem Sound.commitUpserted (h : s.Sound) (hreg : s.registers.get r = some reg) :
    Sound ((s.commitTokens r reg).endRegister r) := by
  have hwritten := commitTokens_written s r reg
  rw [commitTokens_eq]
  exact h.finish h.jobs (hwritten.below h.tokens) (hwritten.scopes h.tokens)
    (fun _ _ _ _ _ => id) (fun r' reg' hother hreg' => h.commitTokens_prior hreg hother hreg')
    (fun _ _ _ _ _ _ hjob _ => hjob)

section Commit

variable {held : List JobId} {now : Time} (h : s.Sound) (hreg : s.registers.get r = some reg)
  (hstage : reg.stage = .retiring [] held)

include h hreg hstage

/-- At its commit a register holds each finished job of the key: a young one is not finished. -/
theorem Sound.upsertEndJob : s.db.upsertEndJob held now reg.request.endJob =
    s.db.registerLiveActivity now reg.request.endJob := by
  have hsound := h.registers r reg hreg
  refine Db.upsertEndJob_eq (fun j hj job hjob => ?_) fun j job hjob hholder hfinished => ?_
  · obtain ⟨-, job', hjob', hholder⟩ := hsound.held [] held hstage j hj
    obtain rfl := Option.some.inj (hjob.symm.trans hjob')
    exact hholder
  · rcases hsound.holders [] held hstage j job hjob hholder with hnil | hmem | hyoung
    · cases hnil
    · exact hmem
    · exact absurd hfinished hyoung.waiting.not_finished

/-- A row somebody else holds is not of the key. -/
theorem Sound.not_holder (hmay : s.mayUpsert r reg.request held = true) {holder : Holder}
    (hother : holder ≠ .register r) (hlock : s.jobLocks j = some holder)
    (hjob : s.db.jobs.get j = some job) : reg.request.isHolder job = false := by
  refine Bool.eq_false_iff.mpr fun hholder => ?_
  have hnot : j ∉ held := by
    intro hmem
    have hown := ((h.registers r reg hreg).held [] held hstage j hmem).1
    exact hother (Option.some.inj (hlock.symm.trans hown))
  have hrow : (s.db.modifyJobs (Db.retiredRow held)).jobs.get j = some job := by
    rw [Db.modifyJobs, Table.get_modify, hjob, Option.map_some,
      Db.retiredRow_of_unfinished fun hmem => absurd hmem hnot]
  have havailable := List.all_eq_true.mp hmay (j, job) ((Table.mem_select_iff ..).mpr ⟨hrow, hholder⟩)
  rcases of_decide_eq_true havailable with hnone | hown
  · rw [hlock] at hnone
    cases hnone
  · exact hother (Option.some.inj (hlock.symm.trans hown))

theorem Sound.commit (hmay : s.mayUpsert r reg.request held = true) :
    Sound ({ s.commitTokens r reg with
      db := s.db.upsertEndJob held now reg.request.endJob }.endRegister r) := by
  have hwritten := commitTokens_written s r reg
  rw [h.upsertEndJob hreg hstage, commitTokens_eq]
  refine h.finish (h.jobs.registerLiveActivity reg.request now) (hwritten.below h.tokens)
    (hwritten.scopes h.tokens) (fun j holder job hother hlock hjob => ?_)
    (fun r' reg' hother hreg' => h.commitTokens_prior hreg hother hreg')
    (fun r' reg' hother hreg' j job' hjob' hholder' => ?_)
  · have hfalse := h.not_holder hreg hstage hmay hother hlock hjob
    rw [Db.registered_kept h.jobs.below hjob, Db.registeredRow_of_not_holder hfalse]
  · -- What is under another activity's key is no row of this register.
    have hdifferent (hkey : reg.request.endKey = reg'.request.endKey) : False := by
      obtain ⟨hdevice, hactivity⟩ := DedupeKey.activityEnd.inj hkey
      exact hother (h.alone r r' reg reg' hreg hreg' hdevice hactivity).symm
    have hkey' := (reg'.request.isHolder_iff.mp hholder').2.1
    rcases Db.registered_rows hjob' with ⟨job, hjob, hrow⟩ | ⟨-, rfl⟩
    · cases hrow with
      | other => exact hjob
      | retired => exact DedupeKey.noConfusion hkey'
      | moved hholder =>
        exact (hdifferent ((reg.request.isHolder_iff.mp hholder).2.1.symm.trans hkey')).elim
    · exact (hdifferent hkey').elim

end Commit

/-! ### Every step -/

theorem Sound.step {l : ActivityLabel} (h : s.Sound) (halone : s.Alone l)
    (hstep : step cfg s l = some s') : s'.Sound := by
  cases l with
  | transaction l =>
    obtain ⟨db, hdb, hcommit⟩ := Option.bind_eq_some_iff.mp hstep
    split at hcommit <;> cases hcommit
    next hguard =>
      obtain ⟨hplain, hspares⟩ := Bool.and_eq_true_iff.mp hguard
      exact h.sides (sides_step h.jobs.below hdb hplain) hspares
  | cancelForSubmitted userId ids skip now ends =>
    simp only [Activities.step] at hstep
    split at hstep <;> cases hstep
    next hguard =>
      obtain ⟨hends, hspares⟩ := Bool.and_eq_true_iff.mp hguard
      exact h.sides (.cancelForSubmitted h.jobs.below userId userId ids skip hends) hspares
  | openRound t =>
    obtain ⟨j, -, hopen⟩ := Option.bind_eq_some_iff.mp hstep
    split at hopen <;> cases hopen
    next hguard =>
      simp only [Bool.and_eq_true] at hguard
      exact h.openRound (Option.isNone_iff_eq_none.mp hguard.1.2) hguard.2
  | selectTokens t found =>
    obtain ⟨run, hrun, hselect⟩ := Option.bind_eq_some_iff.mp hstep
    split at hselect <;> cases hselect
    next hfind => exact h.selectTokens hrun hfind
  | commitRound t now round skip ends =>
    obtain ⟨run, hrun, hcommit⟩ := Option.bind_eq_some_iff.mp hstep
    obtain ⟨job, hjob, hcommit⟩ := Option.bind_eq_some_iff.mp hcommit
    obtain ⟨db, hdb, hcommit⟩ := Option.bind_eq_some_iff.mp hcommit
    split at hcommit
    next hguard =>
      simp only [Bool.and_eq_true, decide_eq_true_eq] at hguard
      obtain ⟨⟨⟨hhead, hmay⟩, hends⟩, hspares⟩ := hguard
      obtain rfl := Option.some.inj hcommit
      exact h.commitRound hrun hjob hdb hhead hmay hends hspares
    next => cases hcommit
  | rollbackRound t =>
    obtain ⟨run, -, rfl⟩ := Option.map_eq_some_iff.mp hstep
    exact h.endRound t
  | beginRegister r request =>
    simp only [Activities.step] at hstep
    split at hstep <;> cases hstep
    next hguard =>
      exact h.beginRegister (Option.isNone_iff_eq_none.mp (Bool.and_eq_true_iff.mp hguard).1) halone
  | invalidate r =>
    obtain ⟨reg, hreg, hnext⟩ := Option.bind_eq_some_iff.mp hstep
    split at hnext
    next k old hstage =>
      split at hnext <;> cases hnext
      next hguard =>
        exact h.invalidate hreg hstage (of_decide_eq_true (Bool.and_eq_true_iff.mp hguard).2)
    next => cases hnext
  | upsertToken r =>
    obtain ⟨reg, hreg, hnext⟩ := Option.bind_eq_some_iff.mp hstep
    split at hnext
    next hstage =>
      dsimp only at hnext
      split at hnext <;> cases hnext
      next hguard => exact h.upsertToken hreg hstage (Bool.and_eq_true_iff.mp hguard).1
    next => cases hnext
  | selectHolders r =>
    obtain ⟨reg, hreg, hnext⟩ := Option.bind_eq_some_iff.mp hstep
    split at hnext
    next hstage =>
      split at hnext <;> cases hnext
      exact h.selectHolders hreg hstage
    next => cases hnext
  | lockHolder r =>
    obtain ⟨reg, hreg, hnext⟩ := Option.bind_eq_some_iff.mp hstep
    split at hnext
    next j todo held hstage =>
      split at hnext
      next hfree =>
        split at hnext <;> cases hnext
        next hholder =>
          obtain ⟨job, hjob, hholder⟩ := (Option.any_eq_true ..).mp hholder
          exact h.lockHolder hreg hstage (of_decide_eq_true hfree) hjob hholder
        next hgone => exact h.passHolder hreg hstage (Bool.eq_false_of_not_eq_true hgone)
      next => cases hnext
    next => cases hnext
  | commit r now =>
    obtain ⟨reg, hreg, hnext⟩ := Option.bind_eq_some_iff.mp hstep
    split at hnext
    next =>
      split at hnext <;> cases hnext
      exact h.commitUpserted hreg
    next held hstage =>
      split at hnext <;> cases hnext
      next hmay => exact h.commit hreg hstage hmay
    next => cases hnext
  | rollback r =>
    obtain ⟨reg, -, rfl⟩ := Option.map_eq_some_iff.mp hstep
    exact h.rollback r
  | registerToken token =>
    simp only [Activities.step] at hstep
    split at hstep <;> cases hstep
    exact h.registerToken halone
  | invalidateToken k =>
    simp only [Activities.step] at hstep
    split at hstep <;> cases hstep
    exact h.invalidateTokens _
  | deleteDevice deviceId =>
    simp only [Activities.step] at hstep
    split at hstep <;> cases hstep
    next hguard =>
      simp only [Bool.and_eq_true, Bool.not_eq_true'] at hguard
      exact (h.invalidateTokens fun _ token => token.deviceId = deviceId).deleteDevice
        hguard.1.2 hguard.2

/-- What holds in every run. -/
theorem sound {ls : List ActivityLabel}
    (hrun : Run (Activities.step cfg) Alone Activities.initial ls s) : s.Sound :=
  hrun.invariant Sound .initial fun _ _ _ h halone hstep => h.step halone hstep

/-! ### The end job -/

/-- The end jobs of an activity after a register: one waits under the exact key, at the registered
time, and those that have gone out are as they were, under keys of their own. -/
structure EndJobFiled (request : RegisterRequest) (db db' : Db) : Prop where
  waiting : ∃ j job, db'.jobs.get j = some job ∧ job.userId = request.userId ∧
    job.dedupeKey = request.endKey ∧ job.status = .pending ∧ job.fireAt = request.countdownTarget ∧
      (job.isEnd = true ∧ job.payload.activityId = some request.activityId) ∧
        ∀ j' job', db'.jobs.get j' = some job' → job'.userId = request.userId →
          job'.dedupeKey = request.endKey → job'.status.dedupeActive = true → j' = j
  finished : ∀ j job, db.jobs.get j = some job → job.userId = request.userId →
    job.dedupeKey = request.endKey → job.Finished →
      db'.jobs.get j =
          some { job with dedupeKey := .finished request.deviceId request.activityId j } ∧
        ∀ j' job', db'.jobs.get j' = some job' →
          job'.dedupeKey = .finished request.deviceId request.activityId j → j' = j
  others : ∀ j job, db.jobs.get j = some job → request.isHolder job = false →
    db'.jobs.get j = some job

/-- What the pipeline's one transaction makes of the end jobs. -/
theorem endJobFiled_registerLiveActivity {db : Db} (h : EndKeys db) (request : RegisterRequest)
    (now : Time) : EndJobFiled request db (db.registerLiveActivity now request.endJob) := by
  have hafter := h.registerLiveActivity request now
  have hmodified := Db.jobsBelow_modifyJobs h.below (Db.registeredRow request.endJob)
  -- After the insert some active job has the key.
  obtain ⟨j, job, hjob, huser, hkey, hactive⟩ :
      (db.registerLiveActivity now request.endJob).Holds request.userId request.endKey := by
    unfold Db.registerLiveActivity
    by_cases hholds : (db.modifyJobs (Db.registeredRow request.endJob)).Holds request.endJob.userId
        request.endJob.dedupeKey
    · rw [Db.fileJob_of_holds hholds]
      exact hholds
    · rw [Db.fileJob_of_not_holds hholds]
      exact ⟨_, request.endJob.row now, by rw [Table.get_set, if_pos rfl], rfl, rfl, rfl⟩
  have hrow : job.status = .pending ∧ job.fireAt = request.countdownTarget := by
    rcases Db.registered_rows hjob with ⟨old, -, hrow⟩ | ⟨-, rfl⟩
    · cases hrow with
      | other hother =>
        rw [request.isHolder_iff.mpr ⟨huser, hkey, hactive⟩] at hother
        cases hother
      | retired => cases hkey
      | moved => exact ⟨rfl, rfl⟩
    · exact ⟨rfl, rfl⟩
  refine ⟨⟨j, job, hjob, huser, hkey, hrow.1, hrow.2, hafter.shape j job hjob _ _ hkey, ?_⟩, ?_, ?_⟩
  · intro j' job' hjob' huser' hkey' hactive'
    exact hafter.unique j' j job' job hjob' hjob (huser'.trans huser.symm) (hkey'.trans hkey.symm)
      hactive' hactive
  · intro j job hjob huser hkey hfinished
    have hholder : request.isHolder job = true :=
      request.isHolder_iff.mpr ⟨huser, hkey, PushJob.active_iff.mpr (.inr hfinished)⟩
    refine ⟨?_, fun j' job' hjob' hkey' => (hafter.retired j' job' hjob' _ _ j hkey').symm⟩
    rw [Db.registered_kept h.below hjob]
    have hregistered := Db.registered request j job
    generalize Db.registeredRow request.endJob j job = row at hregistered ⊢
    cases hregistered with
    | other hother =>
      rw [hholder] at hother
      cases hother
    | retired => rfl
    | moved _ hwaiting => exact absurd hfinished hwaiting.not_finished
  · intro j job hjob hother
    rw [Db.registered_kept h.below hjob, Db.registeredRow_of_not_holder hother]

/-- **A Live Activity's end job is always filed.** Whatever rounds of the pipeline and submissions
come between its statements, a register whose countdown is still ahead leaves:

1. one job that waits under the activity's exact key, at the registered time, and no other active
   one under the key;
2. every end that has gone out as it was, under a key that no other job has;
3. all other jobs as they were. -/
theorem end_job_filed {ls : List ActivityLabel} {now : Time}
    (hrun : Run (Activities.step cfg) Alone Activities.initial ls s)
    (hreg : s.registers.get r = some reg)
    (hfuture : reg.request.now < reg.request.countdownTarget)
    (hcommit : Activities.step cfg s (.commit r now) = some s') :
    EndJobFiled reg.request s.db s'.db := by
  have h := sound hrun
  simp only [Activities.step, hreg, Option.bind_some] at hcommit
  split at hcommit
  next =>
    -- A register that files no end job has its countdown behind it.
    rw [if_neg (Nat.not_le.mpr hfuture)] at hcommit
    cases hcommit
  next held hstage =>
    split at hcommit
    next =>
      obtain rfl := Option.some.inj hcommit
      have hone : s.db.upsertEndJob held now reg.request.endJob =
          s.db.registerLiveActivity now reg.request.endJob := h.upsertEndJob hreg hstage
      change EndJobFiled reg.request s.db (s.db.upsertEndJob held now reg.request.endJob)
      rw [hone]
      exact endJobFiled_registerLiveActivity h.jobs reg.request now
    next => cases hcommit
  next => cases hcommit

/-- A class's activity on one phone, registered with a token and a countdown. -/
def classRegister (tokenHash : String) (countdownTarget now : Time) : RegisterRequest where
  userId := 1
  deviceId := 11
  activityId := "inClass::c1"
  sourceId := "c1"
  scenario := some "inClass"
  snapshot := ⟨false, none, false, false, none, none, none, none, none, none⟩
  tokenHash := tokenHash
  countdownTarget := countdownTarget
  now := now

/-- The round that ends the first activity. -/
def endsActivity : Round where
  rowsVerdict := none
  announcedAt := none
  sendAfter := none
  quiet := none
  courseRecheck := .unconfirmed
  registered := false
  lastTriggerSent := none
  tokens := [⟨⟨"first", "live_activity_update", "inClass::c1"⟩, 11, false, false⟩]
  covered := []
  waiting := []
  sends := fun _ => .success

/-- The activity runs again: it is registered while the earlier end goes out, and a submission comes
between the statements of the register. -/
def registeredAgain : List ActivityLabel :=
  [.beginRegister 1 (classRegister "first" 100 0), .upsertToken 1, .selectHolders 1, .commit 1 0,
    .transaction (.startTick 1 "w"), .transaction (.claim 1 [1] 120), .openRound 1,
    .selectTokens 1 [(1, ⟨⟨"first", "live_activity_update", "inClass::c1"⟩, 11, false, false⟩)],
    .beginRegister 2 (classRegister "second" 300 150),
    .commitRound 1 130 endsActivity (fun _ => false) [],
    .invalidate 2, .upsertToken 2, .selectHolders 2, .lockHolder 2,
    .cancelForSubmitted 1 [5] (fun _ => false) 160
      [⟨11, "inClass::c1", (classRegister "" 0 0).endJob.payload⟩]]

/-- The new end waits, and the earlier one keeps `sent`. -/
theorem end_job_filed_of_registeredAgain :
    ∃ s s' reg, Run (Activities.step defaultSettings) Alone Activities.initial registeredAgain s ∧
      s.registers.get 2 = some reg ∧
      Activities.step defaultSettings s (.commit 2 170) = some s' ∧
      EndJobFiled reg.request s.db s'.db ∧
      (s'.db.jobs.rows.map fun p => (p.1, p.2.dedupeKey, p.2.status, p.2.fireAt)) =
        [(1, .finished 11 "inClass::c1" 1, .sent, 100),
          (2, .activityEnd 11 "inClass::c1", .pending, 300)] := by
  have hexec : ((execWhere (Activities.step defaultSettings) Alone Activities.initial
      registeredAgain).bind fun s => (s.registers.get 2).bind fun reg =>
        (Activities.step defaultSettings s (.commit 2 170)).map fun s' =>
          (decide (reg.request.now < reg.request.countdownTarget),
            s'.db.jobs.rows.map fun p => (p.1, p.2.dedupeKey, p.2.status, p.2.fireAt))) =
      some (true, [(1, .finished 11 "inClass::c1" 1, .sent, 100),
        (2, .activityEnd 11 "inClass::c1", .pending, 300)]) := by
    decide +kernel
  obtain ⟨s, hs, hexec⟩ := Option.bind_eq_some_iff.mp hexec
  obtain ⟨reg, hreg, hexec⟩ := Option.bind_eq_some_iff.mp hexec
  obtain ⟨s', hcommit, hrows⟩ := Option.map_eq_some_iff.mp hexec
  obtain ⟨hfuture, hrows⟩ := Prod.mk.inj hrows
  have hrun := run_of_execWhere hs
  exact ⟨s, s', reg, hrun, hreg, hcommit,
    end_job_filed hrun hreg (of_decide_eq_true hfuture) hcommit, hrows⟩

end Activities

end TigerDuck.Push
