import TigerDuck.SyncJobs.Runs

/-!
# What a step makes of the jobs and the runs

Every step of the machine but a claim, in the one write it makes of each job (`JobWrite`), and
what a step of a run does to the runs' rows together with it (`RunEffect`).
-/

namespace TigerDuck.SyncJobs

open Relational Transition

/-- One write of a job's row that claims nothing. -/
inductive JobWrite (cfg : Settings) : SyncJob → SyncJob → Prop
  | same (job : SyncJob) : JobWrite cfg job job
  | refresh (job : SyncJob) (now : Time) : JobWrite cfg job { job with lockedAt := some now }
  | recoverStale {job : SyncJob} (now : Time) (h : job.status = .running) :
      JobWrite cfg job (job.recoverStale now)
  | succeed (job : SyncJob) (policy : Option SyncPolicy) (now : Time) :
      JobWrite cfg job (job.succeed policy now)
  | retry {job : SyncJob} (policy : Option SyncPolicy) (now : Time) (error : String)
      (keepRetrying : Bool) :
      JobWrite cfg job ((job.recordFailure now error).retry cfg policy now keepRetrying)
  | postpone {job : SyncJob} (resumeAt : Time) (error : String) (h : job.status = .running) :
      JobWrite cfg job (job.postpone resumeAt error)
  | disable (job : SyncJob) (now : Time) (error : String) :
      JobWrite cfg job (job.disable now error)
  | revive (job : SyncJob) (now : Time) : JobWrite cfg job (job.revive now)
  | runNow {job job' : SyncJob} (now : Time) (h : job.runNow cfg now = some job') :
      JobWrite cfg job job'

/-- What a step that claims nothing makes of the jobs: a row is written once, or is new and as
`ensure_sync_jobs` provisions it for a user with an account. -/
def JobsLead (cfg : Settings) (db db' : Db) : Prop :=
  ∀ j job', db'.jobs.get j = some job' →
    (∃ job, db.jobs.get j = some job ∧ JobWrite cfg job job') ∨
      (db'.accounts j.userId).isSome = true ∧
        ∃ now, job' = .provisioned (db.policies j.jobType) now

/-- What a step of the run `r`, at `e`, makes of the jobs and the runs' rows. -/
inductive RunEffect (cfg : Settings) (db db' : Db) (r : RunId) (e : Exec) : Prop
  /-- The runs' rows stay. -/
  | open (hjobs : JobsLead cfg db db') (hruns : db'.runs = db.runs)
  /-- The holder counts what it has stored. -/
  | counted (howns : db.Owns r e) (hjobs : db'.jobs = db.jobs) (f : SyncRun → SyncRun)
      (hf : ∀ run, (f run).jobId = run.jobId ∧ (f run).status = run.status)
      (hruns : db'.runs = (db.updateRun r f).runs)
  /-- A run that has lost its claim gives up. -/
  | reclaimed (hlost : ¬ db.Owns r e) (hjobs : db'.jobs = db.jobs) (now : Time) (error : String)
      (hruns : db'.runs = (db.updateRun r (·.close .cancelled now error)).runs)
  /-- The holder hands its claim back and its run is closed. -/
  | ended (howns : db.Owns r e) (hjobs : JobsLead cfg db db')
      (hidle : ∀ job, db'.jobs.get e.jobId = some job → job.status ≠ .running)
      (f : SyncRun → SyncRun) (hf : ∀ run, (f run).jobId = run.jobId)
      (hruns : db'.runs = (db.updateRun r f).runs)

variable {cfg : Settings} {db db₁ db' : Db} {r : RunId} {e : Exec} {now : Time}

/-! ### Writes of a job -/

namespace JobWrite

variable {job job' : SyncJob}

theorem retry_status_ne (job : SyncJob) (policy : Option SyncPolicy) (keepRetrying : Bool) :
    (job.retry cfg policy now keepRetrying).status ≠ .running := by
  unfold SyncJob.retry
  dsimp only
  split
  · exact SyncJobStatus.noConfusion
  · split <;> exact SyncJobStatus.noConfusion

/-- Only a claim sets a job running: after any other write, what runs has run before, under the
same token. -/
theorem running (h : JobWrite cfg job job') (hrunning : job'.status = .running) :
    job.status = .running ∧ job'.lockedBy = job.lockedBy := by
  cases h with
  | same => exact ⟨hrunning, rfl⟩
  | refresh now => exact ⟨hrunning, rfl⟩
  | recoverStale now =>
    unfold SyncJob.recoverStale at hrunning
    dsimp only at hrunning
    split at hrunning <;> cases hrunning
  | succeed policy now => cases hrunning
  | retry policy now error keepRetrying => exact absurd hrunning (retry_status_ne _ _ _)
  | postpone resumeAt error => cases hrunning
  | disable now error => cases hrunning
  | revive now =>
    unfold SyncJob.revive at hrunning ⊢
    split
    next hdisabled =>
      rw [if_pos hdisabled] at hrunning
      cases hrunning
    next hother =>
      rw [if_neg hother] at hrunning
      exact ⟨hrunning, rfl⟩
  | runNow now hqueued =>
    unfold SyncJob.runNow at hqueued
    split at hqueued <;> cases hqueued
    cases hrunning

/-- An attempt is left where one was: a pending or running job has fewer than its maximum. -/
theorem attempts (h : JobWrite cfg job job') (hmax : 0 < job.maxAttempts)
    (hjob : job.status = .pending ∨ job.status = .running → job.attempts < job.maxAttempts) :
    job'.maxAttempts = job.maxAttempts ∧
      (job'.status = .pending ∨ job'.status = .running → job'.attempts < job'.maxAttempts) := by
  cases h with
  | same => exact ⟨rfl, hjob⟩
  | refresh now => exact ⟨rfl, hjob⟩
  | recoverStale now hrunning =>
    refine ⟨rfl, ?_⟩
    unfold SyncJob.recoverStale
    dsimp only
    split
    · rintro (hstatus | hstatus) <;> cases hstatus
    next hleft => exact fun _ => Nat.lt_of_not_le hleft
  | succeed policy now => exact ⟨rfl, fun _ => hmax⟩
  | retry policy now error keepRetrying =>
    unfold SyncJob.retry
    dsimp only
    split
    · exact ⟨rfl, fun _ => hmax⟩
    · split
      · refine ⟨rfl, ?_⟩
        rintro (hstatus | hstatus) <;> cases hstatus
      next hleft => exact ⟨rfl, fun _ => Nat.lt_of_not_le hleft⟩
  | postpone resumeAt error hrunning => exact ⟨rfl, fun _ => hjob (.inr hrunning)⟩
  | disable now error =>
    refine ⟨rfl, ?_⟩
    rintro (hstatus | hstatus) <;> cases hstatus
  | revive now =>
    unfold SyncJob.revive
    split
    · exact ⟨rfl, fun _ => hmax⟩
    · exact ⟨rfl, hjob⟩
  | runNow now hqueued =>
    unfold SyncJob.runNow at hqueued
    split at hqueued
    · cases hqueued
    next hwaits =>
      cases hqueued
      refine ⟨rfl, fun _ => ?_⟩
      dsimp only
      split
      · exact hmax
      next hfailed =>
        -- Not disabled, running or failed, so it waits.
        refine hjob (.inl ?_)
        cases hstatus : job.status with
        | pending => rfl
        | running => exact absurd (.inr (.inl hstatus)) hwaits
        | failed => exact absurd hstatus hfailed
        | disabled => exact absurd (.inl hstatus) hwaits

end JobWrite

/-! ### Writes of all jobs -/

namespace JobsLead

theorem of_eq (hjobs : db'.jobs = db.jobs) : JobsLead cfg db db' :=
  fun _ job' hjob' => .inl ⟨job', hjobs ▸ hjob', .same job'⟩

theorem of_modify {f : JobId → SyncJob → SyncJob} (hjobs : db'.jobs = db.jobs.modify f)
    (hf : ∀ k job, db.jobs.get k = some job → JobWrite cfg job (f k job)) :
    JobsLead cfg db db' := by
  intro j job' hjob'
  rw [hjobs, Table.get_modify, Option.map_eq_some_iff] at hjob'
  obtain ⟨job, hjob, rfl⟩ := hjob'
  exact .inl ⟨job, hjob, hf j job hjob⟩

/-- An update of one job. -/
theorem of_updateJob {j : JobId} {f : SyncJob → SyncJob}
    (hjobs : db'.jobs = (db.updateJob j f).jobs)
    (hf : ∀ job, db.jobs.get j = some job → JobWrite cfg job (f job)) : JobsLead cfg db db' := by
  refine of_modify (f := fun k job => if k = j then f job else job) hjobs fun k job hjob => ?_
  split
  next hk => exact hf job (hk ▸ hjob)
  next => exact .same job

/-- Provisioning inserts and revives. -/
theorem ensureSyncJobs {userId : UserId} (haccount : (db.accounts userId).isSome = true) :
    JobsLead cfg db (db.ensureSyncJobs userId now) := by
  intro j job' hjob'
  have hupsert {job : Option SyncJob} {jobType : SyncJobType}
      (h : some (job.elim (SyncJob.provisioned (db.policies jobType) now) (·.revive now)) =
        some job') :
      (∃ old, job = some old ∧ JobWrite cfg old job') ∨ (db.accounts userId).isSome = true ∧
        ∃ now, job' = .provisioned (db.policies jobType) now := by
    cases job with
    | none => exact .inr ⟨haccount, now, (Option.some.inj h).symm⟩
    | some old => exact .inl ⟨old, rfl, Option.some.inj h ▸ .revive old now⟩
  simp only [Db.ensureSyncJobs, Table.get_upsert] at hjob'
  split at hjob'
  next hcourses =>
    rw [hcourses]
    rw [if_neg (by simp)] at hjob'
    exact hupsert hjob'
  next =>
    split at hjob'
    next hassignments =>
      rw [hassignments]
      exact hupsert hjob'
    next => exact .inl ⟨job', hjob', .same job'⟩

end JobsLead

/-! ### A run's step -/

namespace RunEffect

theorem of_eq (hjobs : db'.jobs = db.jobs) (hruns : db'.runs = db.runs) :
    RunEffect cfg db db' r e := .open (.of_eq hjobs) hruns

/-- The end of a run that holds its claim. -/
theorem endJob {f : SyncJob → SyncJob} {g : SyncRun → SyncRun} (howns : db.Owns r e)
    (hjobs : db'.jobs = (db.updateJob e.jobId f).jobs)
    (hf : ∀ job, job.status = .running → JobWrite cfg job (f job))
    (hidle : ∀ job, (f job).status ≠ .running) (hg : ∀ run, (g run).jobId = run.jobId)
    (hruns : db'.runs = (db.updateRun r g).runs) : RunEffect cfg db db' r e := by
  obtain ⟨job, hjob, howned⟩ := howns
  refine .ended ⟨job, hjob, howned⟩ (.of_updateJob hjobs fun job' hjob' => ?_)
    (fun job' hjob' => ?_) g hg hruns
  · rw [hjob] at hjob'
    cases hjob'
    exact hf job howned.1
  · rw [hjobs, Db.updateJob, Table.get_modify, Option.map_eq_some_iff] at hjob'
    obtain ⟨job, _, rfl⟩ := hjob'
    rw [if_pos rfl]
    exact hidle job

theorem reclaim (hlost : ¬ db.Owns r e) : RunEffect cfg db (db.reclaimed r e now) r e :=
  .reclaimed hlost rfl now _ rfl

theorem startRun : RunEffect cfg db (db.startRun r e now) r e := by
  unfold Db.startRun
  split
  next =>
    split
    · exact of_eq rfl rfl
    · split <;> exact of_eq rfl rfl
  next hlost => exact reclaim hlost

theorem readCredential : RunEffect cfg db (db.readCredential r e now) r e := by
  unfold Db.readCredential
  split
  · exact of_eq rfl rfl
  · split
    · exact of_eq rfl rfl
    · split <;> exact of_eq rfl rfl

/-- Storing a list leaves its counts in the run's row. -/
theorem applyList_runs (db : Db) (r : RunId) (e : Exec) (now : Time)
    (fetched : List FetchedAssignment) (enrolled : Option Classification) (refused : List MoodleId) :
    ∃ f : SyncRun → SyncRun, (∀ run, (f run).jobId = run.jobId ∧ (f run).status = run.status) ∧
      (db.applyList r e now fetched enrolled refused).2.runs = (db.updateRun r f).runs := by
  refine ⟨_, ?_, rfl⟩
  exact fun _ => ⟨rfl, rfl⟩

theorem storeAnswer (nonce : Nonce) (answer : Fetched) :
    RunEffect cfg db (db.storeAnswer r e nonce now answer) r e := by
  unfold Db.storeAnswer
  split
  next howns =>
    cases answer with
    | assignments fetched enrolled =>
      obtain ⟨f, hf, hruns⟩ := applyList_runs db r e now fetched (enrolled.toOption.bind id) []
      exact .counted howns rfl f hf hruns
    | noCourseAccess refused =>
      obtain ⟨f, hf, hruns⟩ := applyList_runs db r e now [] none refused
      exact .counted howns rfl f hf hruns
    | courses fetchedCount changedCount =>
      refine endJob howns (f := (·.succeed (db.policyOf e) now)) rfl (fun job _ => .succeed job _ _)
        (fun _ => SyncJobStatus.noConfusion)
        (g := fun run =>
          { run with
            fetchedCount := some fetchedCount
            changedCount := some changedCount
            status := .succeeded
            finishedAt := some now })
        (fun _ => rfl) ?_
      simp only [Db.markSucceeded, Db.setPhase, Db.updateJob, Db.updateRun, Function.update_self,
        Function.update_idem, Option.map_map]
      rfl
  next hlost => exact reclaim hlost

theorem finish : RunEffect cfg db (db.finish r e now) r e := by
  unfold Db.finish
  split
  next howns =>
    exact endJob howns (f := (·.succeed (db.policyOf e) now)) rfl (fun job _ => .succeed job _ _)
      (fun _ => SyncJobStatus.noConfusion)
      (g := fun run => { run with status := .succeeded, finishedAt := some now }) (fun _ => rfl) rfl
  next => exact of_eq rfl rfl

theorem selectProbe (nonce : Nonce) (done : ListDone) :
    RunEffect cfg db (Db.selectProbe cfg db r e nonce now done) r e := by
  unfold Db.selectProbe
  split <;> exact of_eq rfl rfl

theorem keepLockFresh : RunEffect cfg db (db.keepLockFresh r e now) r e := by
  refine .open (.of_updateJob (f := fun job =>
    if job.Owned (e.token r) then { job with lockedAt := some now } else job) rfl
    fun job _ => ?_) rfl
  split
  · exact .refresh job now
  · exact .same job

theorem close_jobId (status : SyncRunStatus) (now : Time) (error : String) (run : SyncRun) :
    (run.close status now error).jobId = run.jobId := by
  unfold SyncRun.close
  split <;> rfl

theorem postpone (resumeAt : Time) (error : String) :
    RunEffect cfg db (db.postpone r e now resumeAt error) r e := by
  unfold Db.postpone
  split
  next howns =>
    exact endJob howns (f := (·.postpone resumeAt error)) rfl
      (fun job hrunning => .postpone resumeAt error hrunning)
      (fun _ => SyncJobStatus.noConfusion) (fun _ => close_jobId _ _ _ _) rfl
  next => exact of_eq rfl rfl

/-- Rejecting the credential disables the job and, with its account, all of the user's jobs. -/
theorem rejected (cfg : Settings) (now : Time) {f : Report} (howns : db.Owns r e) (hdisable : f.disable = true)
    (hstored : db.rejectedTokenStillStored e.userId f.credentialNonce = true) (j : JobId) :
    (db.recordFailure cfg r e now f).jobs.get j = (db.jobs.get j).map fun job =>
      if j = e.jobId ∨ ((db.accounts e.userId).isSome = true ∧ j.userId = e.userId) then
        job.disable now f.error
      else job := by
  unfold Db.recordFailure
  rw [if_pos howns]
  dsimp only
  rw [if_pos ⟨hdisable, hstored⟩]
  cases haccount : db.accounts e.userId with
  | none =>
    simp only [Db.updateJob, Db.updateRun, Table.get_modify, Option.isSome_none,
      Bool.false_eq_true, false_and, or_false]
    rfl
  | some account =>
    simp only [Db.markCredentialsInvalid, Db.updateJob, Db.updateRun, Table.get_modify,
      Option.map_map, Option.isSome_some, true_and]
    refine Option.map_congr fun job _ => ?_
    by_cases hj : j = e.jobId
    · -- The job's own row is disabled twice over, to the same row.
      have hmine : j.userId = e.userId := congrArg JobId.userId hj
      simp only [Function.comp_apply, if_pos hj, if_pos hmine, if_pos (Or.inl hj)]
      rfl
    · simp only [Function.comp_apply, hj, false_or, if_false]

theorem recordFailure (f : Report) : RunEffect cfg db (db.recordFailure cfg r e now f) r e := by
  by_cases howns : db.Owns r e
  · by_cases hrejected :
        f.disable = true ∧ db.rejectedTokenStillStored e.userId f.credentialNonce = true
    · have hget := rejected cfg now howns hrejected.1 hrejected.2
      refine .ended howns (fun j job' hjob' => .inl ?_) (fun job' hjob' => ?_)
        (·.close .failed now f.text) (fun _ => close_jobId _ _ _ _) ?_
      · rw [hget j] at hjob'
        obtain ⟨job, hjob, rfl⟩ := Option.map_eq_some_iff.mp hjob'
        refine ⟨job, hjob, ?_⟩
        split
        · exact .disable job now f.error
        · exact .same job
      · rw [hget e.jobId] at hjob'
        obtain ⟨job, _, rfl⟩ := Option.map_eq_some_iff.mp hjob'
        rw [if_pos (Or.inl rfl)]
        exact SyncJobStatus.noConfusion
      · unfold Db.recordFailure
        rw [if_pos howns]
        dsimp only
        rw [if_pos hrejected]
        cases db.accounts e.userId <;> rfl
    · refine endJob howns (f := fun job => (job.recordFailure now f.error).retry cfg (db.policyOf e)
        now (f.keepRetrying || f.disable)) ?_ (fun _ _ => .retry _ now f.error _)
        (fun _ => JobWrite.retry_status_ne _ _ _) (g := (·.close .failed now f.text))
        (fun _ => close_jobId _ _ _ _) ?_
      all_goals
        unfold Db.recordFailure
        rw [if_pos howns]
        dsimp only
        rw [if_neg hrejected]
        rfl
  · have hlost : db.recordFailure cfg r e now f = db := by
      unfold Db.recordFailure
      rw [if_neg howns]
    rw [hlost]
    exact of_eq rfl rfl

/-- The run moves on after what its transaction has done. -/
theorem setPhase (h : RunEffect cfg db db₁ r e) (phase : Phase) :
    RunEffect cfg db (db₁.setPhase r e phase) r e := by
  cases h with
  | «open» hjobs hruns => exact .open hjobs hruns
  | counted howns hjobs f hf hruns => exact .counted howns hjobs f hf hruns
  | reclaimed hlost hjobs now error hruns => exact .reclaimed hlost hjobs now error hruns
  | ended howns hjobs hidle f hf hruns => exact .ended howns hjobs hidle f hf hruns

theorem fail (resumeAt : Option Time) (failure : Failure) :
    RunEffect cfg db (db.fail cfg r e now resumeAt failure) r e := by
  unfold Db.fail
  dsimp only
  split
  · exact (postpone _ _).setPhase _
  · exact (recordFailure _).setPhase _

/-- What a step of a run makes of the jobs and the runs' rows. -/
theorem runStep {act : Act} (h : SyncJobs.runStep cfg db r e act = some db') :
    RunEffect cfg db db' r e := by
  cases runStep_cases h with
  | startRun => exact startRun
  | readCredential => exact readCredential
  | storeAnswer => exact storeAnswer _ _
  | selectProbe => exact selectProbe _ _
  | finish => exact finish
  | fail => exact fail _ _
  | keepLockFresh => exact keepLockFresh
  | storeProbe | moodleAnswers | probeAnswers | crash => exact of_eq rfl rfl

/-- Whatever it does, a run's step claims no job. -/
theorem jobsLead (h : RunEffect cfg db db' r e) : JobsLead cfg db db' := by
  cases h with
  | «open» hjobs => exact hjobs
  | counted _ hjobs => exact .of_eq hjobs
  | reclaimed _ hjobs => exact .of_eq hjobs
  | ended _ hjobs => exact hjobs

end RunEffect

/-- Every step but a claim leads on from its jobs. -/
theorem jobsLead_step {l : Label} (hclaim : ∀ j workerId now, l ≠ .claim j workerId now)
    (h : step cfg db l = some db') : JobsLead cfg db db' := by
  cases step_cases h with
  | run _ hrun => exact (RunEffect.runStep hrun).jobsLead
  | claim => exact absurd rfl (hclaim _ _ _)
  | @recoverStale j now hstale =>
    obtain ⟨job, hjob, hrunning, _⟩ := hstale
    refine .of_updateJob (j := j) (f := (·.recoverStale now)) rfl fun job' hjob' => ?_
    rw [Option.mem_def.mp hjob] at hjob'
    cases hjob'
    exact .recoverStale now hrunning
  | @login userId moodleToken _ now =>
    have haccount : ((db.storeCredential userId moodleToken now).accounts userId).isSome = true := by
      simp only [Db.storeCredential, Function.update_self, Option.isSome_some]
    exact JobsLead.ensureSyncJobs haccount
  | @updateCredentials userId _ now =>
    unfold Db.updateCredentials
    dsimp only
    split
    · exact .of_eq rfl
    · -- An account that was not active has its jobs revived.
      refine .of_modify (f := fun k job => if k.userId = userId then job.revive now else job) rfl
        fun k job _ => ?_
      split
      · exact .revive job now
      · exact .same job
  | @runNow _ now _ _ hjob hqueue =>
    intro k found hfound
    rw [Table.get_set] at hfound
    split at hfound
    next hk =>
      cases hfound
      exact .inl ⟨_, hk ▸ hjob, .runNow now hqueue⟩
    next => exact .inl ⟨found, hfound, .same found⟩
  | signOut | dropKey | setPolicy | clientWrite => exact .of_eq rfl

/-- What a run keeps for life. -/
def Exec.identity (e : Exec) : JobId × String := (e.jobId, e.workerId)

/-- A step keeps the runs in flight, or adds the next one. -/
theorem execs_of_step {cfg : Settings} {db db' : Db} {l : Label}
    (h : step cfg db l = some db') :
    (db'.nextRun = db.nextRun ∧
        ∀ r, (db'.execs r).map Exec.identity = (db.execs r).map Exec.identity) ∨
      db'.nextRun = db.nextRun + 1 ∧
        ∃ e, db'.execs = Function.update db.execs db.nextRun (some e) := by
  have hframe : ∀ db₁ : Db, db₁.nextRun = db.nextRun → db₁.execs = db.execs →
      (db₁.nextRun = db.nextRun ∧
          ∀ r, (db₁.execs r).map Exec.identity = (db.execs r).map Exec.identity) ∨
        db₁.nextRun = db.nextRun + 1 ∧
          ∃ e, db₁.execs = Function.update db.execs db.nextRun (some e) :=
    fun db₁ hnext hexecs => Or.inl ⟨hnext, fun r => by rw [hexecs]⟩
  cases step_cases h with
  | @run r _ e _ he hrun =>
    have hmoved := Moved.runStep he hrun
    refine Or.inl ⟨hmoved.nextRun, fun r' => ?_⟩
    by_cases hr : r' = r
    · subst hr
      obtain ⟨e', he', hjob, hworker, _⟩ := hmoved.own
      rw [he', he, Option.map_some, Option.map_some, Exec.identity, hjob, hworker, Exec.identity]
    · rw [hmoved.others r' hr]
  | claim => exact Or.inr ⟨rfl, _, rfl⟩
  | updateCredentials =>
    refine hframe _ ?_ ?_ <;> (unfold Db.updateCredentials; dsimp only; split <;> rfl)
  | recoverStale | login | signOut | dropKey | runNow | setPolicy | clientWrite =>
    exact hframe _ rfl rfl

end TigerDuck.SyncJobs
