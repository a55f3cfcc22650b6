import TigerDuck.SyncJobs.Effects

/-!
# The states of jobs and claims

What holds of the sync jobs and of the runs' rows in every reachable state, and what a failed
run leaves behind.

## Main results

- `sync_job_state_machine`: at most one running job per user and the global cap, attempts below
  their maximum, no job given up for the school's sake, all jobs disabled with a rejected
  credential, and no claim closed twice.
-/

namespace TigerDuck.SyncJobs

open Relational Transition

/-- A stored policy passes its table's check. -/
def Label.Valid : Label → Prop
  | .setPolicy _ (some policy) => 0 < policy.maxAttempts
  | _ => True

instance (l : Label) : Decidable l.Valid := by
  unfold Label.Valid
  split <;> infer_instance

/-- Whether a run fails for a reason on the school's side: its rate limit, or an answer that
did not come, of the course list and the single sign-on as of the fetch. -/
def Failure.schoolSide : Failure → Bool
  | .rateLimited | .unreachable _ => true
  | .credentialInvalid .. | .submissionStatus | .crashed _ => false

/-- Whether the handler takes the failure for a maintenance window of Moodle's. -/
def Failure.inMaintenance (failure : Failure) (resumeAt : Option Time) : Bool :=
  failure.report.checksHours && resumeAt.isSome

/-- A job claimed under a token whose run is under way and open. -/
structure Db.Holds (db : Db) (j : JobId) (token : LockToken) : Prop where
  exec : ∃ e, db.execs token.runId = some e ∧ e.identity = (j, token.workerId)
  run : ∃ run, db.runs token.runId = some run ∧ run.jobId = j ∧ run.status = .running

/-- What holds of the jobs in every reachable state. -/
structure Db.Sound (cfg : Settings) (db : Db) : Prop where
  policies : ∀ jobType policy, db.policies jobType = some policy → 0 < policy.maxAttempts
  maxAttempts : ∀ j job, db.jobs.get j = some job → 0 < job.maxAttempts
  attempts : ∀ j job, db.jobs.get j = some job → job.status = .pending ∨ job.status = .running →
    job.attempts < job.maxAttempts
  onePerUser : ∀ j j' job job', db.jobs.get j = some job → db.jobs.get j' = some job' →
    job.status = .running → job'.status = .running → j.userId = j'.userId → j = j'
  cap : (db.jobs.select fun _ job => job.status = .running).length ≤ cfg.globalConcurrency
  holds : ∀ j job token, db.jobs.get j = some job → job.Owned token → db.Holds j token
  below : ∀ r, db.runs r ≠ none ∨ db.execs r ≠ none → r < db.nextRun
  accounts : ∀ j job, db.jobs.get j = some job → (db.accounts j.userId).isSome = true

variable {cfg : Settings} {db db' : Db} {r : RunId} {e : Exec} {now : Time} {l : Label}

theorem Db.Sound.initial (cfg : Settings) : Db.initial.Sound cfg where
  policies := fun _ _ h => (nomatch h)
  maxAttempts := fun _ _ h => (nomatch h)
  attempts := fun _ _ h => (nomatch h)
  onePerUser := fun _ _ _ _ h => (nomatch h)
  cap := Nat.zero_le _
  holds := fun _ _ _ h => (nomatch h)
  below := fun r h => by rcases h with h | h <;> exact absurd rfl h
  accounts := fun _ _ h => (nomatch h)

/-- The holder's run is open. -/
theorem Db.Sound.open_of_owns (h : db.Sound cfg) (howns : db.Owns r e) :
    ∃ run, db.runs r = some run ∧ run.jobId = e.jobId ∧ run.status = .running := by
  obtain ⟨job, hjob, howned⟩ := howns
  exact (h.holds e.jobId job (e.token r) hjob howned).run

/-! ### Accounts and policies -/

/-- A step that keeps every account, and stores no policy but the one it is given. -/
structure Db.Keeps (db db' : Db) (policy : Option (SyncJobType × SyncPolicy)) : Prop where
  accounts : ∀ userId, (db.accounts userId).isSome = true → (db'.accounts userId).isSome = true
  policies : ∀ jobType stored, db'.policies jobType = some stored →
    db.policies jobType = some stored ∨ policy = some (jobType, stored)

theorem Db.Keeps.of_eq (haccounts : db'.accounts = db.accounts)
    (hpolicies : db'.policies = db.policies) : db.Keeps db' none :=
  ⟨fun _ h => haccounts ▸ h, fun _ _ h => .inl (hpolicies ▸ h)⟩

/-- The handlers keep every account, if only as one whose credential is invalid. -/
theorem Db.Keeps.fail (resumeAt : Option Time) (failure : Failure) :
    db.Keeps (db.fail cfg r e now resumeAt failure) none := by
  unfold Db.fail
  dsimp only
  split
  · unfold Db.postpone
    split <;> exact of_eq rfl rfl
  · unfold Db.recordFailure
    dsimp only
    split
    · split
      · split
        next account haccount =>
          refine ⟨fun userId h => ?_, fun _ _ h => .inl h⟩
          simp only [Db.setPhase, Db.markCredentialsInvalid, Function.update_apply]
          split
          next huser => rw [Option.isSome_map, ← huser]; exact h
          next => exact h
        next => exact of_eq rfl rfl
      · exact of_eq rfl rfl
    · exact of_eq rfl rfl

theorem Db.Keeps.runStep {act : Act} (h : SyncJobs.runStep cfg db r e act = some db') :
    db.Keeps db' none := by
  cases runStep_cases h with
  | fail => exact fail _ _
  | startRun =>
    unfold Db.startRun
    split
    · split
      · exact of_eq rfl rfl
      · split <;> exact of_eq rfl rfl
    · exact of_eq rfl rfl
  | readCredential =>
    unfold Db.readCredential
    split
    · exact of_eq rfl rfl
    · split
      · exact of_eq rfl rfl
      · split <;> exact of_eq rfl rfl
  | storeAnswer =>
    unfold Db.storeAnswer
    split
    · split <;> exact of_eq rfl rfl
    · exact of_eq rfl rfl
  | selectProbe =>
    unfold Db.selectProbe
    split <;> exact of_eq rfl rfl
  | finish =>
    unfold Db.finish
    split <;> exact of_eq rfl rfl
  | storeProbe | keepLockFresh | moodleAnswers | probeAnswers | crash => exact of_eq rfl rfl

theorem Db.Keeps.storeCredential (now : Time) (userId : UserId) (moodleToken : String) :
    db.Keeps (db.storeCredential userId moodleToken now) none := by
  refine ⟨fun userId' h => ?_, fun _ _ h => .inl h⟩
  simp only [Db.storeCredential, Function.update_apply]
  split
  · rfl
  · exact h

/-- The policy an admin stores. -/
def Label.policy : Label → Option (SyncJobType × SyncPolicy)
  | .setPolicy jobType (some policy) => some (jobType, policy)
  | _ => none

theorem Db.Keeps.step (h : SyncJobs.step cfg db l = some db') : db.Keeps db' l.policy := by
  cases step_cases h with
  | run _ hrun => exact runStep hrun
  | @login user moodleToken _ now =>
    have hkeeps : db.Keeps _ none := storeCredential now user moodleToken
    exact ⟨hkeeps.accounts, hkeeps.policies⟩
  | @updateCredentials user moodleToken now =>
    unfold Db.updateCredentials
    dsimp only
    have hkeeps : db.Keeps _ none := storeCredential now user moodleToken
    split <;> exact ⟨hkeeps.accounts, hkeeps.policies⟩
  | setPolicy =>
    refine ⟨fun _ h => h, fun jobType' stored hstored => ?_⟩
    dsimp only at hstored
    rw [Function.update_apply] at hstored
    split at hstored
    next hjobType =>
      rw [hstored, hjobType]
      exact .inr rfl
    next => exact .inl hstored
  | claim | recoverStale | signOut | dropKey | runNow | clientWrite => exact of_eq rfl rfl

/-! ### The invariant -/

/-- The next state of a run in flight is a run in flight, of the same job and worker. -/
theorem exec_identity_step (h : step cfg db l = some db') {r : RunId} {j : JobId}
    {workerId : String} (hr : ∃ e, db.execs r = some e ∧ e.identity = (j, workerId))
    (hlt : r < db.nextRun) : ∃ e, db'.execs r = some e ∧ e.identity = (j, workerId) := by
  obtain ⟨e, he, hidentity⟩ := hr
  rcases execs_of_step h with ⟨_, hsame⟩ | ⟨_, e', hexecs⟩
  · have hr := hsame r
    rw [he, Option.map_some] at hr
    obtain ⟨e', he', hidentity'⟩ := Option.map_eq_some_iff.mp hr
    exact ⟨e', he', hidentity'.trans hidentity⟩
  · refine ⟨e, ?_, hidentity⟩
    rw [hexecs, Function.update_of_ne hlt.ne, he]

/-- The runs' rows that a step writes: the run's own, those of a recovered job, or a new one. -/
theorem runs_step (h : step cfg db l = some db') :
    (∃ r act e, l = .run r act ∧ db.execs r = some e ∧ RunEffect cfg db db' r e) ∨
      (∃ j now, l = .recoverStale j now ∧ db' = db.recoverStale j now) ∨
      (∃ j workerId now, l = .claim j workerId now ∧ db.Claimable cfg j now ∧
        db' = db.claim j workerId now) ∨
      db'.runs = db.runs ∧ ∀ j workerId now, l ≠ .claim j workerId now := by
  cases step_cases h with
  | run he hrun => exact .inl ⟨_, _, _, rfl, he, RunEffect.runStep hrun⟩
  | claim hclaimable => exact .inr (.inr (.inl ⟨_, _, _, rfl, hclaimable, rfl⟩))
  | recoverStale => exact .inr (.inl ⟨_, _, rfl, rfl⟩)
  | updateCredentials =>
    unfold Db.updateCredentials
    dsimp only
    split <;> exact .inr (.inr (.inr ⟨rfl, by simp⟩))
  | login | signOut | dropKey | runNow | setPolicy | clientWrite =>
    exact .inr (.inr (.inr ⟨rfl, by simp⟩))

theorem close_of_closed {run : SyncRun} (h : run.status ≠ .running) (status : SyncRunStatus)
    (now : Time) (error : String) : run.close status now error = run := by
  unfold SyncRun.close
  rw [if_neg h]

theorem updateRun_other {f : SyncRun → SyncRun} {r' : RunId} (hr : r' ≠ r) :
    (db.updateRun r f).runs r' = db.runs r' := Function.update_of_ne hr _ _

theorem updateRun_self (f : SyncRun → SyncRun) :
    (db.updateRun r f).runs r = (db.runs r).map f := Function.update_self ..

/-- **A closed claim stays as it was closed.** -/
theorem closed_step (hsound : db.Sound cfg) (h : step cfg db l = some db') {r : RunId}
    {run : SyncRun} (hrun : db.runs r = some run) (hclosed : run.status ≠ .running) :
    db'.runs r = some run := by
  -- The holder of a claim has an open run, so what it writes is not this row.
  have hother : ∀ {r' e}, db.Owns r' e → r ≠ r' := by
    rintro r' e howns rfl
    obtain ⟨run', hrun', _, hopen⟩ := hsound.open_of_owns howns
    rw [hrun] at hrun'
    cases hrun'
    exact hclosed hopen
  rcases runs_step h with ⟨r', act, e, rfl, he, heffect⟩ | ⟨j, now, rfl, rfl⟩ |
    ⟨j, workerId, now, rfl, _, rfl⟩ | ⟨hruns, _⟩
  · cases heffect with
    | «open» _ hruns => rw [hruns, hrun]
    | counted howns _ f _ hruns => rw [hruns, updateRun_other (hother howns), hrun]
    | reclaimed _ _ now error hruns =>
      by_cases hr : r = r'
      · subst hr
        rw [hruns, updateRun_self, hrun, Option.map_some, close_of_closed hclosed]
      · rw [hruns, updateRun_other hr, hrun]
    | ended howns _ _ f _ hruns => rw [hruns, updateRun_other (hother howns), hrun]
  · simp only [Db.recoverStale, hrun, Option.map_some, close_of_closed hclosed, ite_self]
  · have hlt := hsound.below r (.inl (by rw [hrun]; exact nofun))
    show Function.update db.runs db.nextRun _ r = some run
    rw [Function.update_of_ne hlt.ne, hrun]
  · rw [hruns, hrun]

/-- An open run of a job that still runs under its token stays open. -/
theorem holds_step (hsound : db.Sound cfg) (h : step cfg db l = some db') {j : JobId}
    {job' : SyncJob} {token : LockToken} (hjob' : db'.jobs.get j = some job')
    (howned' : job'.Owned token) {job : SyncJob} (hjob : db.jobs.get j = some job)
    (howned : job.Owned token) : db'.Holds j token := by
  have hholds := hsound.holds j job token hjob howned
  obtain ⟨run, hrun, hrunJob, hopen⟩ := hholds.run
  have hlt : token.runId < db.nextRun := hsound.below _ (.inl (by rw [hrun]; exact nofun))
  refine ⟨exec_identity_step h hholds.exec hlt, ?_⟩
  rcases runs_step h with ⟨r', act, e, rfl, he, heffect⟩ | ⟨j', now, rfl, rfl⟩ |
    ⟨j', workerId, now, rfl, _, rfl⟩ | ⟨hruns, _⟩
  · by_cases hr : token.runId = r'
    · subst hr
      -- The run is the holder: its token is the one the job runs under.
      obtain ⟨e', he', hidentity⟩ := hholds.exec
      rw [he] at he'
      cases he'
      have hjobId : e.jobId = j := congrArg Prod.fst hidentity
      have howns : db.Owns token.runId e := by
        refine ⟨job, hjobId ▸ hjob, howned.1, howned.2.trans ?_⟩
        have hworker : e.workerId = token.workerId := congrArg Prod.snd hidentity
        rw [Exec.token, hworker]
      cases heffect with
      | «open» _ hruns => exact ⟨run, hruns ▸ hrun, hrunJob, hopen⟩
      | counted _ _ f hf hruns =>
        refine ⟨f run, ?_, (hf run).1.trans hrunJob, (hf run).2.trans hopen⟩
        rw [hruns, updateRun_self, hrun, Option.map_some]
      | reclaimed hlost => exact absurd howns hlost
      | ended _ _ hidle => exact absurd howned'.1 (hidle job' (hjobId ▸ hjob'))
    · refine ⟨run, ?_, hrunJob, hopen⟩
      cases heffect with
      | «open» _ hruns => rw [hruns, hrun]
      | counted _ _ f _ hruns => rw [hruns, updateRun_other hr, hrun]
      | reclaimed _ _ now error hruns => rw [hruns, updateRun_other hr, hrun]
      | ended _ _ _ f _ hruns => rw [hruns, updateRun_other hr, hrun]
  · refine ⟨run, ?_, hrunJob, hopen⟩
    have hne : run.jobId ≠ j' := by
      rintro hrecovered
      rw [hrunJob] at hrecovered
      subst hrecovered
      -- A recovered job does not run any more.
      rw [Db.recoverStale, Db.updateJob, Table.get_modify, hjob, Option.map_some, if_pos rfl]
        at hjob'
      cases hjob'
      have hstatus := howned'.1
      unfold SyncJob.recoverStale at hstatus
      dsimp only at hstatus
      split at hstatus <;> cases hstatus
    show (db.runs token.runId).map _ = some run
    rw [hrun, Option.map_some, if_neg hne]
  · refine ⟨run, ?_, hrunJob, hopen⟩
    show Function.update db.runs db.nextRun _ token.runId = some run
    rw [Function.update_of_ne hlt.ne, hrun]
  · exact ⟨run, hruns ▸ hrun, hrunJob, hopen⟩

theorem updateRun_ne_none {f : SyncRun → SyncRun} {r' : RunId}
    (h : (db.updateRun r f).runs r' ≠ none) : db.runs r' ≠ none := by
  by_cases hr : r' = r
  · subst hr
    rw [updateRun_self] at h
    exact fun hnone => h (by rw [hnone]; rfl)
  · rwa [updateRun_other hr] at h

/-- Runs are numbered as they are claimed. -/
theorem below_step (hbelow : ∀ r, db.runs r ≠ none ∨ db.execs r ≠ none → r < db.nextRun)
    (h : step cfg db l = some db') (r : RunId) (hr : db'.runs r ≠ none ∨ db'.execs r ≠ none) :
    r < db'.nextRun := by
  have hexecs : db'.execs r ≠ none → r < db'.nextRun := by
    intro he
    rcases execs_of_step h with ⟨hnext, hsame⟩ | ⟨hnext, e, hexecs⟩
    · rw [hnext]
      refine hbelow r (.inr fun hnone => he ?_)
      have hr := hsame r
      rw [hnone, Option.map_none] at hr
      exact Option.map_eq_none_iff.mp hr
    · rw [hnext]
      by_cases hlast : r = db.nextRun
      · exact hlast ▸ Nat.lt_succ_self _
      · rw [hexecs, Function.update_of_ne hlast] at he
        exact Nat.lt_succ_of_lt (hbelow r (.inr he))
  have hnext : db.nextRun ≤ db'.nextRun := by
    rcases execs_of_step h with ⟨hnext, _⟩ | ⟨hnext, _⟩
    · exact Nat.le_of_eq hnext.symm
    · exact hnext ▸ Nat.le_succ _
  refine hr.elim (fun hrun => ?_) hexecs
  have hold : db.runs r ≠ none → r < db'.nextRun :=
    fun hrun => Nat.lt_of_lt_of_le (hbelow r (.inl hrun)) hnext
  rcases runs_step h with ⟨r', act, e, rfl, _, heffect⟩ | ⟨j, now, rfl, rfl⟩ |
    ⟨j, workerId, now, rfl, _, rfl⟩ | ⟨hruns, _⟩
  · refine hold ?_
    cases heffect with
    | «open» _ hruns => rwa [hruns] at hrun
    | counted _ _ _ _ hruns =>
      rw [hruns] at hrun
      exact updateRun_ne_none hrun
    | reclaimed _ _ _ _ hruns =>
      rw [hruns] at hrun
      exact updateRun_ne_none hrun
    | ended _ _ _ _ _ hruns =>
      rw [hruns] at hrun
      exact updateRun_ne_none hrun
  · exact hold fun hnone => hrun (by simp only [Db.recoverStale, hnone, Option.map_none])
  · by_cases hlast : r = db.nextRun
    · exact hlast ▸ Nat.lt_succ_self _
    · refine hold ?_
      have hrun' : Function.update db.runs db.nextRun _ r ≠ none := hrun
      rwa [Function.update_of_ne hlast] at hrun'
  · exact hold (hruns ▸ hrun)

/-- A step that claims nothing keeps what holds of the jobs. -/
theorem Db.Sound.step_of_jobsLead (hsound : db.Sound cfg) (hvalid : l.Valid)
    (h : step cfg db l = some db') (hlead : JobsLead cfg db db')
    (hclaim : ∀ j workerId now, l ≠ .claim j workerId now) : db'.Sound cfg := by
  have hkeeps := Db.Keeps.step h
  -- A job that runs after the step ran before it, under the same token.
  have hrunning : ∀ j job', db'.jobs.get j = some job' → job'.status = .running →
      ∃ job, db.jobs.get j = some job ∧ job.status = .running ∧ job'.lockedBy = job.lockedBy := by
    intro j job' hjob' hstatus
    rcases hlead j job' hjob' with ⟨job, hjob, hwrite⟩ | ⟨_, now, rfl⟩
    · exact ⟨job, hjob, hwrite.running hstatus⟩
    · cases hstatus
  have hmax : ∀ policy : Option SyncPolicy, (∀ p ∈ policy, 0 < p.maxAttempts) → ∀ now,
      0 < (SyncJob.provisioned policy now).maxAttempts := by
    intro policy hpolicy now
    cases policy with
    | none => exact Nat.succ_pos _
    | some p => exact hpolicy p rfl
  refine ⟨?_, ?_, ?_, ?_, ?_, ?_, ?_, ?_⟩
  · intro jobType policy hstored
    rcases hkeeps.policies jobType policy hstored with hold | hnew
    · exact hsound.policies jobType policy hold
    · unfold Label.policy at hnew
      split at hnew
      next => cases hnew; exact hvalid
      next => cases hnew
  · intro j job' hjob'
    rcases hlead j job' hjob' with ⟨job, hjob, hwrite⟩ | ⟨_, now, rfl⟩
    · rw [(hwrite.attempts (hsound.maxAttempts j job hjob) (hsound.attempts j job hjob)).1]
      exact hsound.maxAttempts j job hjob
    · exact hmax _ (fun p hp => hsound.policies _ p hp) now
  · intro j job' hjob'
    rcases hlead j job' hjob' with ⟨job, hjob, hwrite⟩ | ⟨_, now, rfl⟩
    · exact (hwrite.attempts (hsound.maxAttempts j job hjob) (hsound.attempts j job hjob)).2
    · exact fun _ => hmax _ (fun p hp => hsound.policies _ p hp) now
  · intro j k job' other' hjob' hother' hstatus hstatus' huser
    obtain ⟨job, hjob, hran, _⟩ := hrunning j job' hjob' hstatus
    obtain ⟨other, hother, hran', _⟩ := hrunning k other' hother' hstatus'
    exact hsound.onePerUser j k job other hjob hother hran hran' huser
  · refine Nat.le_trans (Table.select_length_le ((db.jobs.select fun _ job =>
      decide (job.status = .running)).map Prod.fst) fun j job' hjob' hstatus => ?_) ?_
    · obtain ⟨job, hjob, hran, _⟩ := hrunning j job' hjob' (of_decide_eq_true hstatus)
      exact List.mem_map.mpr ⟨(j, job), (Table.mem_select_iff ..).mpr ⟨hjob, decide_eq_true hran⟩, rfl⟩
    · rw [List.length_map]
      exact hsound.cap
  · intro j job' token hjob' howned
    obtain ⟨job, hjob, hran, hlocked⟩ := hrunning j job' hjob' howned.1
    exact holds_step hsound h hjob' howned hjob ⟨hran, hlocked ▸ howned.2⟩
  · exact below_step hsound.below h
  · intro j job' hjob'
    rcases hlead j job' hjob' with ⟨job, hjob, _⟩ | ⟨haccount, _⟩
    · exact hkeeps.accounts _ (hsound.accounts j job hjob)
    · exact haccount

theorem get_claim {j k : JobId} {workerId : String} :
    (db.claim j workerId now).jobs.get k = (db.jobs.get k).map fun job =>
      if k = j then job.claim ⟨workerId, db.nextRun⟩ now else job :=
  Table.get_modify ..

/-- A claim keeps what holds of the jobs: its query has seen that the user has no running job
and that the cap is not reached. -/
theorem Db.Sound.step_of_claim {j : JobId} {workerId : String} (hsound : db.Sound cfg)
    (hclaimable : db.Claimable cfg j now) (h : step cfg db (.claim j workerId now) = some db')
    (hdb' : db' = db.claim j workerId now) : db'.Sound cfg := by
  have hkeeps := Db.Keeps.step h
  obtain ⟨⟨job, hjob, hdue⟩, _, hidle, hcap⟩ := hclaimable
  rw [SyncJob.due, Bool.and_eq_true, decide_eq_true_eq] at hdue
  subst hdb'
  have hrows : ∀ k job', (db.claim j workerId now).jobs.get k = some job' →
      ∃ old, db.jobs.get k = some old ∧
        (k = j ∧ old = job ∧ job' = job.claim ⟨workerId, db.nextRun⟩ now ∨ k ≠ j ∧ job' = old) := by
    intro k job' hjob'
    rw [get_claim] at hjob'
    obtain ⟨old, hold, rfl⟩ := Option.map_eq_some_iff.mp hjob'
    refine ⟨old, hold, ?_⟩
    by_cases hk : k = j
    · subst hk
      rw [Option.mem_def.mp hjob] at hold
      cases hold
      exact .inl ⟨rfl, rfl, if_pos rfl⟩
    · exact .inr ⟨hk, if_neg hk⟩
  -- No other job of the user runs.
  have halone : ∀ k job', db.jobs.get k = some job' → job'.status = .running →
      k.userId ≠ j.userId := by
    intro k job' hjob' hrunning huser
    have hmem := (Table.mem_select_iff db.jobs (fun k job =>
      decide (k.userId = j.userId ∧ job.status = .running)) k job').mpr
        ⟨hjob', decide_eq_true ⟨huser, hrunning⟩⟩
    rw [hidle] at hmem
    cases hmem
  refine ⟨?_, ?_, ?_, ?_, ?_, ?_, below_step hsound.below h, ?_⟩
  · exact hsound.policies
  · intro k job' hjob'
    obtain ⟨old, hold, ⟨rfl, rfl, rfl⟩ | ⟨_, rfl⟩⟩ := hrows k job' hjob'
    · exact hsound.maxAttempts k old hold
    · exact hsound.maxAttempts k job' hold
  · intro k job' hjob'
    obtain ⟨old, hold, ⟨rfl, rfl, rfl⟩ | ⟨_, rfl⟩⟩ := hrows k job' hjob'
    · exact fun _ => hsound.attempts k old hold (.inl hdue.1)
    · exact hsound.attempts k job' hold
  · intro k k' job₁ job₂ hjob₁ hjob₂ hrunning₁ hrunning₂ huser
    obtain ⟨old₁, hold₁, ⟨rfl, _, _⟩ | ⟨_, rfl⟩⟩ := hrows k job₁ hjob₁
    · obtain ⟨old₂, hold₂, ⟨rfl, _, _⟩ | ⟨_, rfl⟩⟩ := hrows k' job₂ hjob₂
      · rfl
      · exact absurd huser.symm (halone k' job₂ hold₂ hrunning₂)
    · obtain ⟨old₂, hold₂, ⟨rfl, _, _⟩ | ⟨_, rfl⟩⟩ := hrows k' job₂ hjob₂
      · exact absurd huser (halone k job₁ hold₁ hrunning₁)
      · exact hsound.onePerUser k k' job₁ job₂ hold₁ hold₂ hrunning₁ hrunning₂ huser
  · refine Nat.le_trans (Table.select_length_le (j :: (db.jobs.select fun _ job =>
      decide (job.status = .running)).map Prod.fst) fun k job' hjob' hrunning => ?_) ?_
    · obtain ⟨old, hold, ⟨rfl, _, _⟩ | ⟨_, rfl⟩⟩ := hrows k job' hjob'
      · exact List.mem_cons_self
      · exact List.mem_cons_of_mem _
          (List.mem_map.mpr ⟨(k, job'), (Table.mem_select_iff ..).mpr ⟨hold, hrunning⟩, rfl⟩)
    · rw [List.length_cons, List.length_map]
      exact hcap
  · intro k job' token hjob' howned
    obtain ⟨old, hold, ⟨rfl, _, rfl⟩ | ⟨_, rfl⟩⟩ := hrows k job' hjob'
    · obtain rfl : ⟨workerId, db.nextRun⟩ = token := Option.some.inj howned.2
      exact ⟨⟨_, Function.update_self .., rfl⟩, ⟨_, Function.update_self .., rfl, rfl⟩⟩
    · exact holds_step hsound h hjob' howned hold howned
  · intro k job' hjob'
    obtain ⟨old, hold, _⟩ := hrows k job' hjob'
    exact hkeeps.accounts _ (hsound.accounts k old hold)

theorem Db.Sound.step (hsound : db.Sound cfg) (hvalid : l.Valid)
    (h : SyncJobs.step cfg db l = some db') : db'.Sound cfg := by
  by_cases hclaim : ∃ j workerId now, l = .claim j workerId now
  · obtain ⟨j, workerId, now, rfl⟩ := hclaim
    cases step_cases h with
    | claim hclaimable => exact hsound.step_of_claim hclaimable h rfl
  · have hother : ∀ j workerId now, l ≠ .claim j workerId now :=
      fun j workerId now hl => hclaim ⟨j, workerId, now, hl⟩
    exact hsound.step_of_jobsLead hvalid h (jobsLead_step hother h) hother

/-! ### What a failed run leaves -/

/-- A run that keeps retrying is put back, with its attempts spent or not. -/
theorem retry_pending (job : SyncJob) (policy : Option SyncPolicy) :
    (job.retry cfg policy now true).status = .pending := by
  unfold SyncJob.retry
  dsimp only
  split
  · rfl
  next hleft =>
    split
    next hspent => exact absurd ⟨hspent, rfl⟩ hleft
    next => rfl

/-- A failure that keeps its job retrying fails no job. -/
theorem recordFailure_spares (f : Report) (hdisable : f.disable = false)
    (hkeeps : f.keepRetrying = true) (j : JobId) (job' : SyncJob)
    (hjob' : (db.recordFailure cfg r e now f).jobs.get j = some job')
    (hfailed : job'.status = .failed) : db.jobs.get j = some job' := by
  unfold Db.recordFailure at hjob'
  dsimp only at hjob'
  split at hjob'
  · rw [if_neg (fun h => Bool.noConfusion (hdisable.symm.trans h.1)), Db.updateJob, hkeeps,
      Bool.true_or, Table.get_modify, Option.map_eq_some_iff] at hjob'
    obtain ⟨job, hjob, rfl⟩ := hjob'
    split at hfailed
    · rw [retry_pending] at hfailed
      cases hfailed
    next hother =>
      rw [if_neg hother]
      exact hjob
  · exact hjob'

theorem postpone_spares (resumeAt : Time) (error : String) (j : JobId) (job' : SyncJob)
    (hjob' : (db.postpone r e now resumeAt error).jobs.get j = some job')
    (hfailed : job'.status = .failed) : db.jobs.get j = some job' := by
  unfold Db.postpone at hjob'
  split at hjob'
  · rw [Db.updateJob, Table.get_modify, Option.map_eq_some_iff] at hjob'
    obtain ⟨job, hjob, rfl⟩ := hjob'
    split at hfailed
    · cases hfailed
    next hother =>
      rw [if_neg hother]
      exact hjob
  · exact hjob'

/-- **A failure on the school's side**, or in a maintenance window, leaves no job failed. -/
theorem fail_spares {resumeAt : Option Time} {failure : Failure}
    (hschool : failure.schoolSide = true ∨ failure.inMaintenance resumeAt = true) (j : JobId)
    (job' : SyncJob) (hjob' : (db.fail cfg r e now resumeAt failure).jobs.get j = some job')
    (hfailed : job'.status = .failed) : db.jobs.get j = some job' := by
  unfold Db.fail at hjob'
  dsimp only at hjob'
  split at hjob'
  next => exact postpone_spares _ _ j job' hjob' hfailed
  next hrecorded =>
    cases failure with
    | rateLimited => exact recordFailure_spares _ rfl rfl j job' hjob' hfailed
    | unreachable detail => exact recordFailure_spares _ rfl rfl j job' hjob' hfailed
    | credentialInvalid reason nonce =>
      -- Not in a maintenance window, so the credential's failure is not the school's.
      rcases hschool with h | h
      · cases h
      · obtain ⟨back, hback⟩ := Option.isSome_iff_exists.mp h
        exact absurd hback (hrecorded back rfl)
    | submissionStatus => rcases hschool with h | h <;> cases h
    | crashed name => rcases hschool with h | h <;> cases h

/-- **A rejected credential** that is still the stored one disables all jobs of its user. -/
theorem fail_disables {reason : String} {nonce : Option Nonce} (hsound : db.Sound cfg)
    (howns : db.Owns r e) (hstored : db.rejectedTokenStillStored e.userId nonce = true) (j : JobId)
    (job' : SyncJob)
    (hjob' : (db.fail cfg r e now none (.credentialInvalid reason nonce)).jobs.get j = some job')
    (huser : j.userId = e.userId) : job'.status = .disabled := by
  have hget := RunEffect.rejected cfg now (f := (Failure.credentialInvalid reason nonce).report)
    howns rfl hstored j
  have hjobs : (db.recordFailure cfg r e now
      (Failure.credentialInvalid reason nonce).report).jobs.get j = some job' := hjob'
  rw [hget] at hjobs
  obtain ⟨job, hjob, rfl⟩ := Option.map_eq_some_iff.mp hjobs
  have haccount : (db.accounts e.userId).isSome = true := huser ▸ hsound.accounts j job hjob
  rw [if_pos (.inr ⟨haccount, huser⟩)]
  rfl

theorem Db.Sound.run {ls : List Label} (hsound : db.Sound cfg)
    (hrun : Run (SyncJobs.step cfg) (fun _ l => l.Valid) db ls db') : db'.Sound cfg :=
  hrun.invariant (Db.Sound cfg) hsound fun _ _ _ hsound hvalid hstep => hsound.step hvalid hstep

/-- A closed claim stays closed through every run. -/
theorem closed_run {ls : List Label} (hsound : db.Sound cfg)
    (hrun : Run (step cfg) (fun _ l => l.Valid) db ls db') {r : RunId} {run : SyncRun}
    (hclosed : db.runs r = some run) (hstatus : run.status ≠ .running) : db'.runs r = some run := by
  induction hrun with
  | nil => exact hclosed
  | snoc hrun _ hstep ih => exact closed_step (hsound.run hrun) hstep ih hstatus

/-- **The sync-job state machine**: in every reachable state at most one job of a user and at
most the global cap run, and an attempt is left to each pending or running job; a run that
fails on the school's side leaves no job failed, one whose rejected credential is still stored
disables all of its user's jobs, and the row of a closed claim never changes again. -/
theorem sync_job_state_machine {ls : List Label}
    (hrun : Run (step cfg) (fun _ l => l.Valid) Db.initial ls db) :
    (∀ j j' job job', db.jobs.get j = some job → db.jobs.get j' = some job' →
      job.status = .running → job'.status = .running → j.userId = j'.userId → j = j') ∧
    (db.jobs.select fun _ job => job.status = .running).length ≤ cfg.globalConcurrency ∧
    (∀ j job, db.jobs.get j = some job → job.status = .pending ∨ job.status = .running →
      job.attempts < job.maxAttempts) ∧
    (∀ r e now resumeAt failure db', db.execs r = some e → e.phase = .failing failure →
      step cfg db (.run r (.fail now resumeAt)) = some db' →
      (failure.schoolSide = true ∨ failure.inMaintenance resumeAt = true →
        ∀ j job, db'.jobs.get j = some job → job.status = .failed → db.jobs.get j = some job) ∧
      ∀ reason nonce, failure = .credentialInvalid reason nonce → resumeAt = none →
        db.Owns r e → db.rejectedTokenStillStored e.userId nonce = true →
          ∀ j job, db'.jobs.get j = some job → j.userId = e.userId → job.status = .disabled) ∧
    ∀ ls' db', Run (step cfg) (fun _ l => l.Valid) db ls' db' →
      ∀ r run, db.runs r = some run → run.status ≠ .running → db'.runs r = some run := by
  have hsound := (Db.Sound.initial cfg).run hrun
  refine ⟨hsound.onePerUser, hsound.cap, hsound.attempts, ?_, ?_⟩
  · intro r e now resumeAt failure db' he hphase hstep
    simp only [step, he, Option.bind_some, runStep, hphase, Option.some.injEq] at hstep
    subst hstep
    refine ⟨fun hschool j job => fail_spares hschool j job, ?_⟩
    rintro reason nonce rfl rfl howns hstored j job hjob huser
    exact fail_disables hsound howns hstored j job hjob huser
  · exact fun ls' db' hrun' r run hclosed hstatus => closed_run hsound hrun' hclosed hstatus

/-- A run whose course list is refused for the school's rate limit. -/
def rateLimitedRun : List Label :=
  [.setPolicy .ntustCourses (some ⟨true, DEFAULT_INTERVAL, none, none, 100, 3⟩),
    .login 7 "token" true 1, .claim ⟨7, .ntustCourses⟩ "worker" 2, .run 0 (.startRun 3),
    .run 0 (.readCredential 3), .run 0 (.moodleAnswers .rateLimited)]

/-- Recording that failure leaves no job failed. -/
theorem sync_job_state_machine_of_rate_limit :
    ∃ db db' e, Run (step defaultSettings) (fun _ l => l.Valid) Db.initial rateLimitedRun db ∧
      db.execs 0 = some e ∧ e.phase = .failing .rateLimited ∧
      step defaultSettings db (.run 0 (.fail 4 none)) = some db' ∧
      ∀ j job, db'.jobs.get j = some job → job.status = .failed → db.jobs.get j = some job := by
  have hrun : ∃ db, Run (step defaultSettings) (fun _ l => l.Valid) Db.initial rateLimitedRun db ∧
      execWhere (step defaultSettings) (fun _ l => l.Valid) Db.initial rateLimitedRun = some db :=
    ⟨_, run_of_execWhere rfl, rfl⟩
  obtain ⟨db, hrun, hexec⟩ := hrun
  cases hexec
  have hfails := (sync_job_state_machine hrun).2.2.2.1
  exact ⟨_, _, _, hrun, rfl, rfl, rfl, (hfails 0 _ 4 none .rateLimited _ rfl rfl rfl).1 (.inl rfl)⟩

end TigerDuck.SyncJobs
