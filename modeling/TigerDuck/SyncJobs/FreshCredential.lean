import TigerDuck.SyncJobs.Runs
import TigerDuck.Transition.RowLock

/-!
# Failed runs and fresh credentials

Whether a run that fails can hurt a credential stored since the run read the user's. A run
that read its credential compares nonces; one that failed to read it has none to compare.

## Main results

- `fresh_credential_spared`: the runs of the machine in which a credential stored since a run
  read the user's is never marked invalid by that run, nor a job of the user disabled, are
  exactly those in which no failed read is recorded after such a store.
- `late_failure_disables_fresh`: a sign-in between a failed read and its record.
-/

namespace TigerDuck.SyncJobs

open Relational Transition

namespace Db

/-- Whether the user has stored a credential since the run read the user's, or failed to. -/
def StoredSince (db : Db) (e : Exec) : Prop :=
  ∃ readAt ∈ e.readAt, ∃ nonce ∈ db.lastStored e.userId, readAt ≤ nonce

instance (db : Db) (e : Exec) : Decidable (db.StoredSince e) :=
  inferInstanceAs (Decidable (∃ readAt ∈ e.readAt, ∃ nonce ∈ db.lastStored e.userId, _))

/-- From `db` to `db'` no account of the user becomes invalid and no job disabled. -/
structure Spares (db db' : Db) (userId : UserId) : Prop where
  account : ∀ account' ∈ db'.accounts userId, account'.credentialStatus = .invalid →
    ∃ account ∈ db.accounts userId, account.credentialStatus = .invalid
  jobs : ∀ jobType, ∀ job' ∈ db'.jobs.get ⟨userId, jobType⟩, job'.status = .disabled →
    ∃ job ∈ db.jobs.get ⟨userId, jobType⟩, job.status = .disabled

end Db

/-- Every step of a run spares a credential stored since the run read the user's. -/
def SparesFresh (cfg : Settings) (db : Db) (l : Label) : Prop :=
  ∀ r act, l = .run r act → ∀ e ∈ db.execs r, db.StoredSince e →
    ∀ db' ∈ step cfg db l, Db.Spares db db' e.userId

/-- When a run that holds its claim records that it could not read the user's credential, none
has been stored since. -/
def FailedReadCurrent (db : Db) : Label → Prop
  | .run r (.fail _ none) => ∀ e ∈ db.execs r, ∀ reason,
      e.phase = .failing (.credentialInvalid reason none) → db.Owns r e → ¬ db.StoredSince e
  | _ => True

/-! ### What a run's steps do to the account and the jobs -/

namespace Db

variable {db db' : Db} {r : RunId} {e : Exec} {cfg : Settings} {now : Time}

/-- An update of the run's own job that never disables it spares the user. -/
theorem spares_of_updateJob (f : SyncJob → SyncJob)
    (haccounts : db'.accounts = db.accounts) (hjobs : db'.jobs = (db.updateJob e.jobId f).jobs)
    (hf : ∀ job, (f job).status = .disabled → job.status = .disabled) (userId : UserId) :
    Spares db db' userId where
  account := fun account' h hinvalid => ⟨account', haccounts ▸ h, hinvalid⟩
  jobs := by
    intro jobType job' h hdisabled
    rw [hjobs, updateJob, Table.get_modify, Option.mem_def, Option.map_eq_some_iff] at h
    obtain ⟨job, hjob, rfl⟩ := h
    refine ⟨job, hjob, ?_⟩
    split at hdisabled
    · exact hf job hdisabled
    · exact hdisabled

/-- A step that touches no account and no job spares the user. -/
theorem spares_of_eq (haccounts : db'.accounts = db.accounts) (hjobs : db'.jobs = db.jobs)
    (userId : UserId) : Spares db db' userId where
  account := fun account' h hinvalid => ⟨account', haccounts ▸ h, hinvalid⟩
  jobs := fun _ job' h hdisabled => ⟨job', hjobs ▸ h, hdisabled⟩

theorem startRun_spares (userId : UserId) : Spares db (db.startRun r e now) userId := by
  unfold startRun
  split
  · split
    · apply spares_of_eq <;> rfl
    · split <;> (apply spares_of_eq <;> rfl)
  · apply spares_of_eq <;> rfl

theorem readCredential_spares (userId : UserId) :
    Spares db (db.readCredential r e now) userId := by
  unfold readCredential
  split
  · apply spares_of_eq <;> rfl
  · split
    · apply spares_of_eq <;> rfl
    · split <;> (apply spares_of_eq <;> rfl)

theorem storeAnswer_spares (nonce : Nonce) (answer : Fetched) (userId : UserId) :
    Spares db (db.storeAnswer r e nonce now answer) userId := by
  unfold storeAnswer
  split
  · cases answer with
    | assignments fetched enrolled => apply spares_of_eq <;> rfl
    | noCourseAccess refused => apply spares_of_eq <;> rfl
    | courses fetchedCount changedCount =>
      apply spares_of_updateJob (e := e) (·.succeed (db.policyOf e) now)
      · rfl
      · rfl
      · exact fun job hdisabled => by cases hdisabled
  · apply spares_of_eq <;> rfl

theorem finish_spares (userId : UserId) : Spares db (db.finish r e now) userId := by
  unfold finish
  split
  · apply spares_of_updateJob (e := e) (·.succeed (db.policyOf e) now)
    · rfl
    · rfl
    · exact fun job hdisabled => by cases hdisabled
  · apply spares_of_eq <;> rfl

theorem selectProbe_spares (nonce : Nonce) (done : ListDone) (userId : UserId) :
    Spares db (selectProbe cfg db r e nonce now done) userId := by
  unfold selectProbe
  split <;> (apply spares_of_eq <;> rfl)

theorem keepLockFresh_spares (userId : UserId) : Spares db (db.keepLockFresh r e now) userId := by
  apply spares_of_updateJob (e := e) fun job =>
    if job.Owned (e.token r) then { job with lockedAt := some now } else job
  · rfl
  · rfl
  · intro job hdisabled
    split at hdisabled <;> exact hdisabled

/-- A failure that backs off, waits or gives up does not disable its job. -/
theorem retry_status_ne (job : SyncJob) (policy : Option SyncPolicy) (keepRetrying : Bool) :
    (job.retry cfg policy now keepRetrying).status ≠ .disabled := by
  unfold SyncJob.retry
  dsimp only
  split
  · exact SyncJobStatus.noConfusion
  · split <;> exact SyncJobStatus.noConfusion

/-- Recording a failure that does not disable spares the user. -/
theorem recordFailure_spares (f : Report) (userId : UserId)
    (hkept : f.disable = true → db.rejectedTokenStillStored e.userId f.credentialNonce = false) :
    Spares db (recordFailure cfg db r e now f) userId := by
  have hdisable : ¬ (f.disable = true ∧
      db.rejectedTokenStillStored e.userId f.credentialNonce = true) := by
    rintro ⟨hdisable, hstored⟩
    rw [hkept hdisable] at hstored
    cases hstored
  unfold recordFailure
  split
  · apply spares_of_updateJob (e := e) fun job =>
      (job.recordFailure now f.error).retry cfg (db.policyOf e) now (f.keepRetrying || f.disable)
    · rfl
    · rfl
    · exact fun job hdisabled => absurd hdisabled (retry_status_ne _ _ _)
  · apply spares_of_eq <;> rfl

theorem postpone_spares (resumeAt : Time) (error : String) (userId : UserId) :
    Spares db (db.postpone r e now resumeAt error) userId := by
  unfold postpone
  split
  · apply spares_of_updateJob (e := e) (·.postpone resumeAt error)
    · rfl
    · rfl
    · exact fun job hdisabled => by cases hdisabled
  · apply spares_of_eq <;> rfl

theorem Spares.refl (userId : UserId) : Spares db db userId :=
  spares_of_eq rfl rfl userId

theorem Spares.setPhase {userId : UserId} (h : Spares db db' userId) (phase : Phase) :
    Spares db (db'.setPhase r e phase) userId := ⟨h.account, h.jobs⟩

/-- A failure whose token is still the stored one disables the job of the run that records
it. -/
theorem recordFailure_disables {f : Report} (howns : db.Owns r e) (hdisable : f.disable = true)
    (hstored : db.rejectedTokenStillStored e.userId f.credentialNonce = true) :
    ¬ Spares db (recordFailure cfg db r e now f) e.userId := by
  obtain ⟨job, hjob, hrunning, _⟩ := howns
  rw [Option.mem_def] at hjob
  have hdisabled : ∃ job' ∈ (recordFailure cfg db r e now f).jobs.get e.jobId,
      job'.status = .disabled := by
    unfold recordFailure
    rw [if_pos ⟨job, hjob, hrunning, ‹_›⟩, if_pos ⟨hdisable, hstored⟩]
    cases db.accounts e.userId with
    | none => simp [updateJob, updateRun, hjob]
    | some account =>
      simp [markCredentialsInvalid, updateJob, updateRun, hjob, Exec.userId, SyncJob.disable]
  intro hspares
  obtain ⟨job', hjob', hdisabled⟩ := hdisabled
  obtain ⟨before, hbefore, hdisabled⟩ := hspares.jobs e.jobId.jobType job' hjob' hdisabled
  have hsame : some job = some before := hjob.symm.trans hbefore
  rw [← Option.some.inj hsame, hrunning] at hdisabled
  cases hdisabled

/-- A step of a run spares its user, unless it records that the user's token was rejected or
could not be read while the token it knows of is still the stored one. -/
theorem runStep_spares {act : Act} (h : runStep cfg db r e act = some db') (userId : UserId) :
    Spares db db' userId ∨
      ∃ now reason nonce, act = .fail now none ∧
        e.phase = .failing (.credentialInvalid reason nonce) ∧
          db.rejectedTokenStillStored e.userId nonce = true := by
  cases runStep_cases h with
  | startRun => exact Or.inl (startRun_spares userId)
  | readCredential => exact Or.inl (readCredential_spares userId)
  | moodleAnswers | probeAnswers | crash => exact Or.inl ((Spares.refl userId).setPhase _)
  | storeAnswer => exact Or.inl (storeAnswer_spares _ _ userId)
  | selectProbe => exact Or.inl (selectProbe_spares _ _ userId)
  | storeProbe =>
    left
    apply spares_of_eq <;> rfl
  | finish => exact Or.inl (finish_spares userId)
  | keepLockFresh => exact Or.inl (keepLockFresh_spares userId)
  | @fail now resumeAt failure hphase =>
    -- Only a rejected or missing credential may disable the user's jobs.
    cases failure with
    | credentialInvalid reason nonce =>
      cases resumeAt with
      | some resumeAt => exact Or.inl ((postpone_spares resumeAt _ userId).setPhase _)
      | none =>
        cases hstored : db.rejectedTokenStillStored e.userId nonce with
        | true => exact Or.inr ⟨now, reason, nonce, rfl, hphase, hstored⟩
        | false => exact Or.inl ((recordFailure_spares _ userId fun _ => hstored).setPhase _)
    | unreachable detail =>
      cases resumeAt with
      | some resumeAt => exact Or.inl ((postpone_spares resumeAt _ userId).setPhase _)
      | none => exact Or.inl ((recordFailure_spares _ userId fun h => by cases h).setPhase _)
    | rateLimited | submissionStatus | crashed =>
      exact Or.inl ((recordFailure_spares _ userId fun h => by cases h).setPhase _)

end Db

/-! ### Nonces -/

/-- The stored credential is the last one stored, and a run knows only nonces from before it
read. -/
structure NonceInv (db : Db) : Prop where
  stored : ∀ userId, ∀ c ∈ db.credentials userId, db.lastStored userId = some c.nonce
  stored_lt : ∀ userId, ∀ nonce ∈ db.lastStored userId, nonce < db.nextNonce
  read : ∀ r, ∀ e ∈ db.execs r, ∀ nonce ∈ e.phase.nonce, ∃ readAt ∈ e.readAt, nonce < readAt

theorem nonceInv_initial : NonceInv Db.initial where
  stored := fun _ _ h => by cases h
  stored_lt := fun _ _ h => by cases h
  read := fun _ _ h => by cases h

namespace NonceInv

variable {db db' : Db} {cfg : Settings} (h : NonceInv db)

include h

/-- What leaves the credentials, the nonces and the runs alone keeps the invariant. -/
theorem of_eq (hcredentials : db'.credentials = db.credentials)
    (hlast : db'.lastStored = db.lastStored) (hnonce : db'.nextNonce = db.nextNonce)
    (hexecs : db'.execs = db.execs) : NonceInv db' := by
  refine ⟨?_, ?_, ?_⟩
  · rw [hcredentials, hlast]
    exact h.stored
  · rw [hlast, hnonce]
    exact h.stored_lt
  · rw [hexecs]
    exact h.read

/-- The nonce a run has just read is that of the last credential stored. -/
theorem moved {r : RunId} {e : Exec} (he : db.execs r = some e) (hmoved : Moved db db' r e) :
    NonceInv db' := by
  refine ⟨?_, ?_, ?_⟩
  · rw [hmoved.credentials, hmoved.lastStored]
    exact h.stored
  · rw [hmoved.lastStored, hmoved.nextNonce]
    exact h.stored_lt
  · intro r' e'' he'' nonce hnonce
    by_cases hr : r' = r
    · subst hr
      obtain ⟨e', he', _, _, hown⟩ := hmoved.own
      obtain rfl : e' = e'' := Option.some.inj (he'.symm.trans he'')
      rcases hown nonce hnonce with ⟨hread, hknown⟩ | ⟨hread, c, hc, rfl⟩
      · rw [hread]
        exact h.read r' e he nonce hknown
      · exact ⟨db.nextNonce, hread, h.stored_lt e.userId c.nonce (h.stored e.userId c hc)⟩
    · rw [hmoved.others r' hr] at he''
      exact h.read r' e'' he'' nonce hnonce

/-- A stored credential gets a nonce nobody has. -/
theorem storeCredential (userId : UserId) (moodleToken : String) (now : Time) :
    NonceInv (db.storeCredential userId moodleToken now) := by
  refine ⟨?_, ?_, h.read⟩
  · intro u c hc
    change Function.update db.lastStored userId _ u = _
    rcases update_cases hc with ⟨rfl, hnew⟩ | ⟨hne, hold⟩
    · obtain rfl := Option.some.inj hnew
      exact Function.update_self ..
    · rw [Function.update_of_ne hne]
      exact h.stored u c hold
  · intro u nonce hnonce
    change nonce < db.nextNonce + 1
    rcases update_cases hnonce with ⟨_, hnew⟩ | ⟨_, hold⟩
    · obtain rfl := Option.some.inj hnew
      exact Nat.lt_succ_self _
    · exact Nat.lt_succ_of_lt (h.stored_lt u nonce hold)

/-- A credential that goes, or loses its key, is no other credential. -/
theorem of_credentials {f : Option Credential → Option Credential} (userId : UserId)
    (hf : ∀ c ∈ f (db.credentials userId), ∃ c₀ ∈ db.credentials userId, c₀.nonce = c.nonce)
    (hcredentials : db'.credentials =
      Function.update db.credentials userId (f (db.credentials userId)))
    (hlast : db'.lastStored = db.lastStored) (hnonce : db'.nextNonce = db.nextNonce)
    (hexecs : db'.execs = db.execs) : NonceInv db' := by
  refine ⟨?_, ?_, ?_⟩
  · intro u c hc
    rw [hlast]
    rw [hcredentials] at hc
    rcases update_cases hc with ⟨rfl, hnew⟩ | ⟨_, hold⟩
    · obtain ⟨c₀, hc₀, hsame⟩ := hf c hnew
      rw [← hsame]
      exact h.stored u c₀ hc₀
    · exact h.stored u c hold
  · rw [hlast, hnonce]
    exact h.stored_lt
  · rw [hexecs]
    exact h.read

theorem claim (j : JobId) (workerId : String) (now : Time) : NonceInv (db.claim j workerId now) := by
  refine ⟨h.stored, h.stored_lt, fun r e he nonce hnonce => ?_⟩
  rcases update_cases he with ⟨_, hnew⟩ | ⟨_, hold⟩
  · obtain rfl := Option.some.inj hnew
    cases hnonce
  · exact h.read r e hold nonce hnonce

theorem step {l : Label} (hstep : SyncJobs.step cfg db l = some db') : NonceInv db' := by
  cases step_cases hstep with
  | run he hrun => exact h.moved he (Moved.runStep he hrun)
  | claim => exact h.claim _ _ _
  | @login userId moodleToken _ now =>
    exact (h.storeCredential userId moodleToken now).of_eq rfl rfl rfl rfl
  | @updateCredentials userId moodleToken now =>
    refine (h.storeCredential userId moodleToken now).of_eq ?_ ?_ ?_ ?_ <;>
      (unfold Db.updateCredentials; dsimp only; split <;> rfl)
  | @signOut userId =>
    unfold Db.signOut
    split
    · exact h.of_credentials (f := fun _ => none) userId (fun c hc => by cases hc) rfl rfl rfl rfl
    · exact h.of_eq rfl rfl rfl rfl
  | @dropKey userId =>
    refine h.of_credentials (f := Option.map fun c => { c with moodleToken := none }) userId ?_
      rfl rfl rfl rfl
    intro c hc
    obtain ⟨c₀, hc₀, rfl⟩ := Option.map_eq_some_iff.mp hc
    exact ⟨c₀, hc₀, rfl⟩
  | recoverStale | runNow | setPolicy | clientWrite => exact h.of_eq rfl rfl rfl rfl

/-- Once another credential has been stored, the one a run read is no longer the stored one. -/
theorem not_still_stored {r : RunId} {e : Exec} (he : db.execs r = some e) {nonce : Nonce}
    (hnonce : nonce ∈ e.phase.nonce) (hsince : db.StoredSince e) :
    db.rejectedTokenStillStored e.userId (some nonce) = false := by
  obtain ⟨readAt, hread, last, hlast, hle⟩ := hsince
  obtain ⟨readAt', hread', hlt⟩ := h.read r e he nonce hnonce
  obtain rfl : readAt = readAt' := Option.some.inj (hread.symm.trans hread')
  rw [Db.rejectedTokenStillStored]
  cases hc : db.credentials e.userId with
  | none => rfl
  | some c =>
    have hstored := h.stored e.userId c hc
    have hsame : last = c.nonce := Option.some.inj (hlast.symm.trans hstored)
    have hne : c.nonce ≠ nonce := hsame ▸ (hlt.trans_le hle).ne'
    simpa using hne

end NonceInv

/-- At every step of every run the two conditions agree. -/
theorem failedReadCurrent_iff_sparesFresh {cfg : Settings} {db db' : Db} (hinv : NonceInv db)
    {l : Label} (hstep : step cfg db l = some db') :
    FailedReadCurrent db l ↔ SparesFresh cfg db l := by
  constructor
  · intro hcurrent r act hl e he hsince db'' hstep''
    subst hl
    obtain ⟨e', he', hrun⟩ := Option.bind_eq_some_iff.mp hstep''
    obtain rfl : e = e' := Option.some.inj (he.symm.trans he')
    rcases Db.runStep_spares hrun e.userId with hspares | ⟨now, reason, nonce, rfl, hphase, hstored⟩
    · exact hspares
    · cases nonce with
      | none =>
        by_cases howns : db.Owns r e
        · exact absurd hsince (hcurrent e he reason hphase howns)
        · -- A run that lost its claim records nothing.
          have hdb : db'' = (db.recordFailure cfg r e now
              (Failure.credentialInvalid reason none).report).setPhase r e .ended := by
            simp only [runStep, hphase] at hrun
            exact (Option.some.inj hrun).symm
          rw [hdb, Db.recordFailure, if_neg howns]
          exact (Db.Spares.refl _).setPhase _
      | some nonce =>
        have hgone := hinv.not_still_stored he (by rw [hphase]; rfl : nonce ∈ e.phase.nonce) hsince
        rw [hgone] at hstored
        cases hstored
  · intro hspares
    unfold FailedReadCurrent
    split
    next r now =>
      intro e he reason hphase howns hsince
      have hrun : step cfg db (.run r (.fail now none)) = some ((db.recordFailure cfg r e now
          (Failure.credentialInvalid reason none).report).setPhase r e .ended) := by
        simp only [step, Option.mem_def.mp he, Option.bind_some, runStep, hphase]
        rfl
      have hkept := hspares r _ rfl e he hsince _ hrun
      exact Db.recordFailure_disables howns rfl rfl ⟨hkept.account, hkept.jobs⟩
    next => trivial

/-- **A fresh credential is spared** in exactly the runs in which, whenever a run that holds its
claim records that it could not read the user's credential, none has been stored since it
tried. -/
theorem fresh_credential_spared (cfg : Settings) (ls : List Label) (db : Db) :
    Run (step cfg) (SparesFresh cfg) Db.initial ls db ↔
      Run (step cfg) FailedReadCurrent Db.initial ls db :=
  Run.congr NonceInv nonceInv_initial (fun _ _ _ hinv hstep => hinv.step hstep)
    fun _ _ _ hinv hstep => (failedReadCurrent_iff_sparesFresh hinv hstep).symm

/-- A student signs out while a run of theirs starts, and in again before the run records that
it found no credential. -/
def signedInAgain : List Label :=
  [.setPolicy .moodleAssignments (some ⟨true, DEFAULT_INTERVAL, none, none, 100, 3⟩),
    .login 7 "old" true 1, .claim ⟨7, .moodleAssignments⟩ "worker" 2, .signOut 7,
    .run 0 (.startRun 3), .run 0 (.readCredential 3), .login 7 "fresh" true 4]

/-- The run then marks the fresh credential invalid and disables the user's jobs. -/
theorem late_failure_disables_fresh :
    ∃ db db' e, FreeRun (step defaultSettings) Db.initial signedInAgain db ∧
      db.execs 0 = some e ∧ db.StoredSince e ∧
      step defaultSettings db (.run 0 (.fail 5 none)) = some db' ∧
      db'.credentials 7 = some ⟨1, some "fresh"⟩ ∧
      (db'.accounts 7).map (·.credentialStatus) = some .invalid ∧
      (db'.jobs.get ⟨7, .moodleAssignments⟩).map (·.status) = some .disabled ∧
      ¬ Db.Spares db db' 7 := by
  refine ⟨_, _, _, run_of_exec rfl, rfl, by decide, rfl, rfl, rfl, rfl, fun hspares => ?_⟩
  obtain ⟨account, haccount, hinvalid⟩ := hspares.account _ rfl rfl
  cases haccount
  cases hinvalid

end TigerDuck.SyncJobs
