import TigerDuck.SyncJobs.Effects
import TigerDuck.Transition.RowLock

/-!
# The claim and the assignment rows

Whether a run whose claim was taken back still writes its user's assignment rows. A token is
new with every claim, so a claim that is gone never comes back (`lost_of_run`); the
transactions that check it write nothing once it is gone.

## Main results

- `only_holder_writes`: the runs of the machine in which a run without its claim changes no
  assignment row are exactly those in which the answers of a probe are written under the
  claim, or say nothing the rows do not.
- `stale_probe_overwrites`: a run taken back while Moodle answered its probe moves a due date
  the next run has stored.
-/

namespace TigerDuck.SyncJobs

open Relational Transition

/-- Whether a probe's answers are written under the claim, or say nothing new. -/
def ProbeHeld (db : Db) : Label → Prop
  | .run r .storeProbe => ∀ e ∈ db.execs r, ∀ now done fetched,
      e.phase = .probed now done fetched → db.Owns r e ∨
        ∀ row ∈ (db.assignments e.userId).rows, AnswerStored fetched done.listed row.1 row.2
  | _ => True

/-- After a state in which a run has lost its claim, no step of that run changes an assignment
row. -/
def OnlyHolderWrites (cfg : Settings) (ls : List Label) : Prop :=
  ∀ ls₁ ls₂ r act, ls₁ ++ ls₂ ++ [Label.run r act] <+: ls → ∀ lost before after e,
    exec (step cfg) Db.initial ls₁ = some lost → lost.execs r = some e → ¬ lost.Owns r e →
      exec (step cfg) lost ls₂ = some before → step cfg before (.run r act) = some after →
        after.assignments = before.assignments

/-! ### A lost claim stays lost -/

/-- From `db` to `db'` no run that had been claimed before gains a claim. -/
def NoGain (db db' : Db) : Prop :=
  ∀ j token, token.runId < db.nextRun → (∃ job ∈ db'.jobs.get j, job.Owned token) →
    ∃ job ∈ db.jobs.get j, job.Owned token

namespace NoGain

variable {db db' : Db} {cfg : Settings} {now : Time}

/-- What claims nothing gives no job a holder. -/
theorem of_jobsLead (h : JobsLead cfg db db') : NoGain db db' := by
  rintro j token _ ⟨job', hjob', howned⟩
  rcases h j job' hjob' with ⟨job, hjob, hwrite⟩ | ⟨_, now, rfl⟩
  · obtain ⟨hrunning, hlocked⟩ := hwrite.running howned.1
    exact ⟨job, hjob, hrunning, hlocked ▸ howned.2⟩
  · cases howned.1

/-- A claim gives the job to the next run. -/
theorem claim (j : JobId) (workerId : String) : NoGain db (db.claim j workerId now) := by
  rintro k token hlt ⟨job', hjob', howned⟩
  have hjob' : job' ∈ (db.updateJob j (·.claim ⟨workerId, db.nextRun⟩ now)).jobs.get k := hjob'
  rw [Db.updateJob, Table.get_modify, Option.mem_def, Option.map_eq_some_iff] at hjob'
  obtain ⟨job, hjob, rfl⟩ := hjob'
  refine ⟨job, hjob, ?_⟩
  split at howned
  · have hnext : db.nextRun = token.runId := congrArg LockToken.runId (Option.some.inj howned.2)
    exact absurd hnext hlt.ne'
  · exact howned

/-- No step gives a run that had been claimed before a claim it did not have. -/
theorem step {l : Label} (h : SyncJobs.step cfg db l = some db') : NoGain db db' := by
  by_cases hclaim : ∃ j workerId now, l = .claim j workerId now
  · obtain ⟨j, workerId, now, rfl⟩ := hclaim
    cases step_cases h with
    | claim => exact claim j workerId
  · refine of_jobsLead (jobsLead_step (fun j workerId now hl => hclaim ?_) h)
    exact ⟨j, workerId, now, hl⟩

end NoGain

/-- A run that was claimed and holds its claim no more. -/
def Lost (db : Db) (r : RunId) : Prop :=
  r < db.nextRun ∧ ∃ e, db.execs r = some e ∧ ¬ db.Owns r e

/-- A claim that is gone stays gone. -/
theorem Lost.step {cfg : Settings} {db db' : Db} {l : Label} {r : RunId} (hlost : Lost db r)
    (h : SyncJobs.step cfg db l = some db') : Lost db' r := by
  obtain ⟨hlt, e, he, howns⟩ := hlost
  obtain ⟨hnext, e', he', hsame⟩ : r < db'.nextRun ∧
      ∃ e', db'.execs r = some e' ∧ e'.identity = e.identity := by
    rcases execs_of_step h with ⟨hnext, hexecs⟩ | ⟨hnext, new, hexecs⟩
    · have hr := hexecs r
      rw [he, Option.map_some, Option.map_eq_some_iff] at hr
      exact ⟨hnext ▸ hlt, hr⟩
    · refine ⟨hnext ▸ Nat.lt_succ_of_lt hlt, e, ?_, rfl⟩
      rw [hexecs, Function.update_of_ne hlt.ne, he]
  have hjob : e'.jobId = e.jobId := congrArg Prod.fst hsame
  have hworker : e'.workerId = e.workerId := congrArg Prod.snd hsame
  refine ⟨hnext, e', he', fun howns' => howns ?_⟩
  have htoken : e'.token r = e.token r := by rw [Exec.token, hworker, Exec.token]
  rw [Db.Owns, hjob, htoken] at howns'
  exact NoGain.step h e.jobId (e.token r) hlt howns'

theorem lost_of_run {cfg : Settings} {db db' : Db} {ls : List Label} {r : RunId}
    (hrun : FreeRun (step cfg) db ls db') (hlost : Lost db r) : Lost db' r :=
  hrun.invariant (Lost · r) hlost fun _ _ _ hlost _ h => hlost.step h

/-- Every run in flight has been given its id. -/
theorem lt_nextRun_of_run {cfg : Settings} {db : Db} {ls : List Label}
    (hrun : FreeRun (step cfg) Db.initial ls db) : ∀ r, db.execs r ≠ none → r < db.nextRun := by
  refine hrun.invariant (fun db => ∀ r, db.execs r ≠ none → r < db.nextRun)
    (fun r h => absurd rfl h) fun db l db' hinv _ h r hr => ?_
  rcases execs_of_step h with ⟨hnext, hexecs⟩ | ⟨hnext, new, hexecs⟩
  · rw [hnext]
    refine hinv r fun hnone => hr ?_
    have hsame := hexecs r
    rwa [hnone, Option.map_none, Option.map_eq_none_iff] at hsame
  · rw [hnext]
    by_cases hlast : r = db.nextRun
    · exact hlast ▸ Nat.lt_succ_self _
    · rw [hexecs, Function.update_of_ne hlast] at hr
      exact Nat.lt_succ_of_lt (hinv r hr)

/-! ### What a run without its claim writes -/

section Writes

variable {db db' : Db} {r : RunId} {e : Exec} {cfg : Settings} {now : Time}

/-- The list sync writes nothing once the claim is gone. -/
theorem storeAnswer_of_not_owns (howns : ¬ db.Owns r e) (nonce : Nonce) (answer : Fetched) :
    (db.storeAnswer r e nonce now answer).assignments = db.assignments := by
  unfold Db.storeAnswer
  rw [if_neg howns]
  rfl

/-- Only the list sync and the probe write assignment rows. -/
theorem runStep_writes {act : Act} (h : runStep cfg db r e act = some db') :
    db'.assignments = db.assignments ∨
      (act = .storeAnswer ∧ ∃ nonce now answer, e.phase = .answered nonce now answer ∧
        db' = db.storeAnswer r e nonce now answer) ∨
      act = .storeProbe ∧ ∃ now done fetched, e.phase = .probed now done fetched ∧
        db' = db.storeProbe r e now done fetched := by
  cases runStep_cases h with
  | storeProbe hphase => exact Or.inr (Or.inr ⟨rfl, _, _, _, hphase, rfl⟩)
  | storeAnswer hphase => exact Or.inr (Or.inl ⟨rfl, _, _, _, hphase, rfl⟩)
  | startRun =>
    unfold Db.startRun
    split
    · split
      · exact Or.inl rfl
      · dsimp only
        split <;> exact Or.inl rfl
    · exact Or.inl rfl
  | readCredential =>
    unfold Db.readCredential
    split
    · exact Or.inl rfl
    · split
      · exact Or.inl rfl
      · split <;> exact Or.inl rfl
  | selectProbe =>
    unfold Db.selectProbe
    split <;> exact Or.inl rfl
  | finish =>
    unfold Db.finish
    split <;> exact Or.inl rfl
  | fail =>
    unfold Db.fail
    dsimp only
    split
    · unfold Db.postpone
      split <;> exact Or.inl rfl
    · unfold Db.recordFailure
      split
      · dsimp only
        split
        · split <;> exact Or.inl rfl
        · exact Or.inl rfl
      · exact Or.inl rfl
  | keepLockFresh | moodleAnswers | probeAnswers | crash => exact Or.inl rfl

/-- Without its claim a run writes assignment rows in its probe alone. -/
theorem runStep_assignments {act : Act} (howns : ¬ db.Owns r e)
    (h : runStep cfg db r e act = some db') : db'.assignments = db.assignments ∨
      act = .storeProbe ∧ ∃ now done fetched, e.phase = .probed now done fetched ∧
        db' = db.storeProbe r e now done fetched := by
  rcases runStep_writes h with hsame | ⟨_, nonce, now, answer, _, rfl⟩ | hprobe
  · exact .inl hsame
  · exact .inl (storeAnswer_of_not_owns howns nonce answer)
  · exact .inr hprobe

/-- A probe's transaction changes no row exactly when its answers are stored already. -/
theorem storeProbe_assignments_iff (done : ListDone) (fetched : Submissions) :
    (db.storeProbe r e now done fetched).assignments = db.assignments ↔
      ∀ row ∈ (db.assignments e.userId).rows, AnswerStored fetched done.listed row.1 row.2 := by
  rw [← probe_eq_self_iff now]
  change Function.update db.assignments e.userId _ = db.assignments ↔ _
  exact Function.update_eq_self_iff

end Writes

/-- A step of a run without its claim changes no row exactly when it is not the writing of a
probe's news. -/
theorem probeHeld_iff {cfg : Settings} {db db' : Db} {r : RunId} {act : Act} {e : Exec}
    (he : db.execs r = some e) (howns : ¬ db.Owns r e)
    (h : step cfg db (.run r act) = some db') :
    ProbeHeld db (.run r act) ↔ db'.assignments = db.assignments := by
  obtain ⟨e', he', hrun⟩ := Option.bind_eq_some_iff.mp h
  obtain rfl : e = e' := Option.some.inj (he.symm.trans he')
  constructor
  · intro hheld
    rcases runStep_assignments howns hrun with hsame | ⟨rfl, now, done, fetched, hphase, rfl⟩
    · exact hsame
    · rw [storeProbe_assignments_iff]
      exact (hheld e he now done fetched hphase).resolve_left howns
  · intro hsame
    unfold ProbeHeld
    split
    next r hl =>
      cases hl
      intro e' he'' now done fetched hphase
      obtain rfl : e = e' := Option.some.inj (he.symm.trans he'')
      simp only [runStep, hphase] at hrun
      cases hrun
      exact Or.inr ((storeProbe_assignments_iff done fetched).mp hsame)
    next => trivial

/-- **Only the holder of the claim writes** in exactly the runs in which, whenever the answers
of a probe are written, the run still holds its claim or the answers are stored already. -/
theorem only_holder_writes (cfg : Settings) (ls : List Label) (db : Db) :
    (FreeRun (step cfg) Db.initial ls db ∧ OnlyHolderWrites cfg ls) ↔
      Run (step cfg) ProbeHeld Db.initial ls db := by
  constructor
  · rintro ⟨hrun, hwrites⟩
    induction hrun with
    | nil => exact Run.nil
    | @snoc ls before l after hrun _ hstep ih =>
      have hinit : OnlyHolderWrites cfg ls := fun ls₁ ls₂ r act hle =>
        hwrites ls₁ ls₂ r act (hle.trans (List.prefix_append ls [l]))
      refine (ih hinit).snoc ?_ hstep
      cases l with
      | run r act =>
        obtain ⟨e, he, _⟩ := Option.bind_eq_some_iff.mp hstep
        by_cases howns : before.Owns r e
        · unfold ProbeHeld
          split
          next hl =>
            cases hl
            intro e' he' _ _ _ _
            obtain rfl : e = e' := Option.some.inj (he.symm.trans he')
            exact Or.inl howns
          next => trivial
        · -- The state before the step is already one in which the claim is gone.
          rw [probeHeld_iff he howns hstep]
          exact hwrites ls [] r act (by simp) before before after e hrun.exec_eq he howns rfl hstep
      | _ => trivial
  · intro hrun
    refine ⟨hrun.free, ?_⟩
    rintro ls₁ ls₂ r act ⟨rest, rfl⟩ lost before after e hls₁ he howns hls₂ hstep
    rw [List.append_assoc] at hrun
    obtain ⟨u, hfirst, hlast⟩ := hrun.split
    have hu : u = before := by
      have hexec := hfirst.exec_eq
      rw [exec_append, hls₁, Option.bind_some, hls₂] at hexec
      exact (Option.some.inj hexec).symm
    subst hu
    have hlt := lt_nextRun_of_run (run_of_exec hls₁) r (by rw [he]; exact Option.some_ne_none e)
    obtain ⟨_, e', he', howns'⟩ := lost_of_run (run_of_exec hls₂) ⟨hlt, e, he, howns⟩
    exact (probeHeld_iff he' howns' hstep).mp (hlast.ok_head rfl)

/-- Moodle's list with one assignment, due at `dueAt`. -/
def listOf (dueAt : Time) : MoodleAnswer :=
  .fetched (.assignments [⟨⟨none, "report", some dueAt, none, none, none, none⟩, 3, 9⟩] (.ok none))

/-- A run lists an assignment, its worker hangs in the probe, and the claim is taken back. -/
def hungInProbe : List Label :=
  [.setPolicy .moodleAssignments (some ⟨true, DEFAULT_INTERVAL, none, none, 100, 3⟩),
    .login 7 "token" true 0, .claim ⟨7, .moodleAssignments⟩ "worker" 0, .run 0 (.startRun 0),
    .run 0 (.readCredential 0), .run 0 (.moodleAnswers (listOf 1000)), .run 0 .storeAnswer,
    .run 0 .selectProbe,
    .run 0 (.probeAnswers (.submissions (Table.empty.set 9 ⟨false, none, none⟩))),
    .recoverStale ⟨7, .moodleAssignments⟩ (601 * SECOND)]

/-- The next run lists a later due date. -/
def listedAgain : List Label :=
  [.claim ⟨7, .moodleAssignments⟩ "worker" (602 * SECOND), .run 1 (.startRun (602 * SECOND)),
    .run 1 (.readCredential (602 * SECOND)), .run 1 (.moodleAnswers (listOf 2000)),
    .run 1 .storeAnswer]

/-- The run without its claim moves the due date back. -/
theorem stale_probe_overwrites :
    ¬ OnlyHolderWrites defaultSettings (hungInProbe ++ listedAgain ++ [.run 0 .storeProbe]) := by
  intro hwrites
  have hsame := hwrites hungInProbe listedAgain 0 .storeProbe (List.prefix_refl _) _ _ _ _ rfl rfl
    (by decide) rfl rfl
  have hdue := congrArg (fun rows => ((rows 7).get ⟨3, 9⟩).bind (·.dueAt)) hsame
  have hmoved : some 1000 = some 2000 := hdue
  cases hmoved

end TigerDuck.SyncJobs
