import TigerDuck.SyncJobs.Executor

/-!
# Runs in flight

What a step of a run does to the runs in flight and to the credentials (`Moved`): it moves
its own run on, which keeps its job and worker, and knows no nonce but the one it read.
-/

namespace TigerDuck.SyncJobs

open Relational Transition

/-- The nonce of the credential a run has read. -/
def Phase.nonce : Phase → Option Nonce
  | .fetching nonce _ | .answered nonce _ _ | .listDone nonce _ _ | .probing nonce _ _ _ => some nonce
  | .failing (.credentialInvalid _ nonce) => nonce
  | _ => none

/-- A step of the run `r`, at `e`, from `db` to `db'`. -/
structure Moved (db db' : Db) (r : RunId) (e : Exec) : Prop where
  others : ∀ r', r' ≠ r → db'.execs r' = db.execs r'
  /-- A nonce the run knows after the step is one it knew, or the one it has just read. -/
  own : ∃ e', db'.execs r = some e' ∧ e'.jobId = e.jobId ∧ e'.workerId = e.workerId ∧
    ∀ nonce ∈ e'.phase.nonce,
      (e'.readAt = e.readAt ∧ nonce ∈ e.phase.nonce) ∨
        (e'.readAt = some db.nextNonce ∧ ∃ c ∈ db.credentials e.userId, c.nonce = nonce)
  credentials : db'.credentials = db.credentials
  lastStored : db'.lastStored = db.lastStored
  nextNonce : db'.nextNonce = db.nextNonce
  nextRun : db'.nextRun = db.nextRun

namespace Moved

variable {db db₁ db' : Db} {r : RunId} {e : Exec} {cfg : Settings} {now : Time}

/-- What a step does to other rows does not move its run. -/
theorem trans_eq (h : Moved db₁ db' r e) (hexecs : db₁.execs = db.execs)
    (hcredentials : db₁.credentials = db.credentials) (hlast : db₁.lastStored = db.lastStored)
    (hnonce : db₁.nextNonce = db.nextNonce) (hrun : db₁.nextRun = db.nextRun) :
    Moved db db' r e := by
  obtain ⟨hothers, hown, hc, hl, hn, hr⟩ := h
  rw [hexecs] at hothers
  rw [hnonce, hcredentials] at hown
  exact ⟨hothers, hown, hc.trans hcredentials, hl.trans hlast, hn.trans hnonce, hr.trans hrun⟩

/-- The run moves on with what it knew. -/
theorem setPhase (db : Db) (r : RunId) (e : Exec) {phase : Phase}
    (hnonce : ∀ nonce ∈ phase.nonce, nonce ∈ e.phase.nonce) :
    Moved db (db.setPhase r e phase) r e where
  others := fun _ hne => Function.update_of_ne hne _ _
  own := ⟨_, Function.update_self .., rfl, rfl, fun nonce h => Or.inl ⟨rfl, hnonce nonce h⟩⟩
  credentials := rfl
  lastStored := rfl
  nextNonce := rfl
  nextRun := rfl

/-- The run moves on with what it has read. -/
theorem setRead (db : Db) (r : RunId) (e : Exec) {phase : Phase}
    (hnonce : ∀ nonce ∈ phase.nonce, ∃ c ∈ db.credentials e.userId, c.nonce = nonce) :
    Moved db (db.setRead r e phase) r e where
  others := fun _ hne => Function.update_of_ne hne _ _
  own := ⟨_, Function.update_self .., rfl, rfl, fun nonce h => Or.inr ⟨rfl, hnonce nonce h⟩⟩
  credentials := rfl
  lastStored := rfl
  nextNonce := rfl
  nextRun := rfl

theorem startRun : Moved db (db.startRun r e now) r e := by
  unfold Db.startRun
  split
  · split
    · exact setRead db r e fun _ h => by cases h
    · split
      · exact setPhase db r e fun _ h => by cases h
      · exact setRead db r e fun _ h => by cases h
  · exact (setPhase _ r e fun _ h => by cases h).trans_eq rfl rfl rfl rfl rfl

theorem readCredential : Moved db (db.readCredential r e now) r e := by
  unfold Db.readCredential
  split
  · exact setRead db r e fun _ h => by cases h
  next credential hcredential =>
    split
    · exact setRead db r e fun _ h => by cases h
    · split
      · exact setRead db r e fun _ h => by cases h
      · refine setRead db r e fun nonce h => ⟨credential, hcredential, ?_⟩
        exact Option.some.inj h

/-- Whatever follows the list sync or the probe knows no other nonce. -/
theorem afterProbe_nonce (done : ListDone) : (done.afterProbe now).nonce = none := by
  unfold ListDone.afterProbe
  cases done.courseError with
  | none => rfl
  | some err => cases err <;> rfl

theorem afterList_nonce (done : ListDone) (nonce : Nonce) :
    ∀ n ∈ (done.afterList nonce now).nonce, n = nonce := by
  unfold ListDone.afterList
  split
  · exact fun n h => by cases h
  · exact fun n h => (Option.some.inj h).symm

theorem storeAnswer {nonce : Nonce} {answer : Fetched} (hphase : nonce ∈ e.phase.nonce) :
    Moved db (db.storeAnswer r e nonce now answer) r e := by
  unfold Db.storeAnswer
  split
  · cases answer with
    | assignments fetched enrolled =>
      refine (setPhase _ r e fun n h => ?_).trans_eq rfl rfl rfl rfl rfl
      rw [afterList_nonce _ _ n h]
      exact hphase
    | noCourseAccess refused =>
      exact (setPhase _ r e fun _ h => by cases h).trans_eq rfl rfl rfl rfl rfl
    | courses fetchedCount changedCount =>
      exact (setPhase _ r e fun _ h => by cases h).trans_eq rfl rfl rfl rfl rfl
  · exact (setPhase _ r e fun _ h => by cases h).trans_eq rfl rfl rfl rfl rfl

theorem selectProbe {nonce : Nonce} (done : ListDone) (hphase : nonce ∈ e.phase.nonce) :
    Moved db (Db.selectProbe cfg db r e nonce now done) r e := by
  unfold Db.selectProbe
  split
  · refine setPhase db r e fun n h => ?_
    rw [afterProbe_nonce] at h
    cases h
  · refine setPhase db r e fun n h => ?_
    rw [← Option.some.inj h]
    exact hphase

theorem finish : Moved db (db.finish r e now) r e := by
  unfold Db.finish
  split <;> exact (setPhase _ r e fun _ h => by cases h).trans_eq rfl rfl rfl rfl rfl

theorem keepLockFresh (he : db.execs r = some e) : Moved db (db.keepLockFresh r e now) r e where
  others := fun _ _ => rfl
  own := ⟨e, he, rfl, rfl, fun _ h => Or.inl ⟨rfl, h⟩⟩
  credentials := rfl
  lastStored := rfl
  nextNonce := rfl
  nextRun := rfl

/-- The handlers write to the jobs, the account and the run's row only. -/
theorem fail (resumeAt : Option Time) (failure : Failure) :
    Moved db (db.fail cfg r e now resumeAt failure) r e := by
  unfold Db.fail
  dsimp only
  split
  · refine (setPhase _ r e fun _ h => by cases h).trans_eq ?_ ?_ ?_ ?_ ?_ <;>
      (unfold Db.postpone; split <;> rfl)
  · have hframe : ∀ f, let db₁ := db.recordFailure cfg r e now f
        db₁.execs = db.execs ∧ db₁.credentials = db.credentials ∧
          db₁.lastStored = db.lastStored ∧ db₁.nextNonce = db.nextNonce ∧
            db₁.nextRun = db.nextRun := by
      intro f
      unfold Db.recordFailure
      dsimp only
      split
      · split
        · split <;> exact ⟨rfl, rfl, rfl, rfl, rfl⟩
        · exact ⟨rfl, rfl, rfl, rfl, rfl⟩
      · exact ⟨rfl, rfl, rfl, rfl, rfl⟩
    obtain ⟨hexecs, hcredentials, hlast, hnonce, hrun⟩ := hframe failure.report
    exact (setPhase _ r e fun _ h => by cases h).trans_eq hexecs hcredentials hlast hnonce hrun

/-- Moodle's answers tell a run no nonce it did not know. -/
theorem answer_nonce {jobType : SyncJobType} {nonce : Nonce} {answer : MoodleAnswer}
    {phase : Phase} (h : answer.next jobType nonce now = some phase) :
    ∀ n ∈ phase.nonce, n = nonce := by
  intro n hn
  cases answer with
  | tokenInvalid =>
    cases h
    exact (Option.some.inj hn).symm
  | rateLimited => cases h; cases hn
  | unreachable detail => cases h; cases hn
  | crashed name => cases h; cases hn
  | fetched answer =>
    simp only [MoodleAnswer.next] at h
    split at h
    · cases h
      exact (Option.some.inj hn).symm
    · cases h

theorem probeAnswer_nonce {done : ListDone} {ids : List MoodleId} {nonce : Nonce}
    {answer : ProbeAnswer} {phase : Phase} (h : answer.next nonce now done ids = some phase) :
    ∀ n ∈ phase.nonce, n = nonce := by
  intro n hn
  cases answer with
  | tokenInvalid =>
    cases h
    exact (Option.some.inj hn).symm
  | rateLimited => cases h; cases hn
  | unreachable detail => cases h; cases hn
  | other =>
    cases h
    rw [afterProbe_nonce] at hn
    cases hn
  | submissions fetched =>
    simp only [ProbeAnswer.next] at h
    split at h
    · cases h
      cases hn
    · cases h

theorem crash_nonce {name : String} {before phase : Phase} (h : before.crash name = some phase) :
    phase.nonce = none := by
  cases before <;> cases h <;> rfl

/-- Every step of a run moves it on. -/
theorem runStep {act : Act} (he : db.execs r = some e)
    (h : SyncJobs.runStep cfg db r e act = some db') : Moved db db' r e := by
  cases runStep_cases h with
  | startRun => exact startRun
  | readCredential => exact readCredential
  | moodleAnswers hphase hnext =>
    refine setPhase db r e fun n hn => ?_
    rw [hphase, answer_nonce hnext n hn]
    rfl
  | storeAnswer hphase => exact storeAnswer (by rw [hphase]; rfl)
  | selectProbe hphase => exact selectProbe _ (by rw [hphase]; rfl)
  | probeAnswers hphase hnext =>
    refine setPhase db r e fun n hn => ?_
    rw [hphase, probeAnswer_nonce hnext n hn]
    rfl
  | storeProbe =>
    -- After the probe a run knows no nonce any more.
    refine (setPhase _ r e fun n hn => ?_).trans_eq rfl rfl rfl rfl rfl
    rw [afterProbe_nonce] at hn
    cases hn
  | finish => exact finish
  | fail => exact fail _ _
  | keepLockFresh => exact keepLockFresh he
  | crash hnext =>
    refine setPhase db r e fun n hn => ?_
    rw [crash_nonce hnext] at hn
    cases hn

end Moved

end TigerDuck.SyncJobs
