import TigerDuck.Push.EndKeys

/-!
# Rounds beside a register

What holds of the registers under way and of the rounds beside them, and what a round leaves to a
register. A submission, or a round's plan, may file an end job that a register's query has not
seen. Such a job is young: rounds find no token for it but those the register holds, so none of them
can commit that it was sent.

- `Young`, `RegisterSound`, `Sound`: what holds of a register under way, and of the whole.
- `Undisturbed`: what the others leave to a register.
- `Sound.commitRound`: a round's commit.
-/

namespace TigerDuck.Push

namespace Activities

open Relational Transition
open SyncJobs (MoodleId)

variable {cfg : Settings} {s s' : Activities} {r : RegisterId} {reg : Register}
  {request : RegisterRequest} {j : JobId} {job job' : PushJob} {k : TokenId} {t : TickId}

/-! ### What holds -/

/-- An end job that the register's query has not seen: it goes to tokens the register holds, and
nothing of it has been sent. -/
structure Young (s : Activities) (r : RegisterId) (request : RegisterRequest) (j : JobId)
    (job : PushJob) : Prop where
  waiting : job.Waiting
  unsent : ¬ job.HasSent
  device : job.deviceId = some request.deviceId
  deliveries : ∀ d ∈ job.deliveries, ∀ k, s.pushToken j d.token = some k → s.tokenLocks k = some r
  found : ∀ t run, s.rounds t = some run → run.job = j → ∀ p ∈ run.found, s.tokenLocks p.1 = some r

/-- An active token of the activity is one the register holds, or has yet to lock. -/
def Covers (s : Activities) (r : RegisterId) (reg : Register) (k : TokenId) (token : UpdateToken) :
    Prop :=
  match reg.stage with
  | .invalidating old =>
    token.tokenHash = reg.request.tokenHash ∨ k ∈ old ∨ s.tokenLocks k = some r
  | _ => s.tokenLocks k = some r

/-- What holds of a register under way. -/
structure RegisterSound (s : Activities) (r : RegisterId) (reg : Register) : Prop where
  prior : ∀ old, reg.stage = .invalidating old → ∀ k ∈ old, ∃ token, s.tokens.get k = some token ∧
    token.scopeKey = reg.request.activityId
  tokens : ∀ k token, s.tokens.get k = some token → reg.request.isPrior token = true →
    s.Covers r reg k token
  held : ∀ todo held, reg.stage = .retiring todo held → ∀ j ∈ held,
    s.jobLocks j = some (.register r) ∧
      ∃ job, s.db.jobs.get j = some job ∧ reg.request.isHolder job = true
  holders : ∀ todo held, reg.stage = .retiring todo held → ∀ j job, s.db.jobs.get j = some job →
    reg.request.isHolder job = true → j ∈ todo ∨ j ∈ held ∨ s.Young r reg.request j job

/-- What holds of the tokens and their holders. -/
structure TokensSound (s : Activities) : Prop where
  below : ∀ k, s.tokens.get k ≠ none → k < s.nextToken
  held : ∀ k r, s.tokenLocks k = some r → ∃ reg token, s.registers.get r = some reg ∧
    s.tokens.get k = some token ∧ token.scopeKey = reg.request.activityId

/-- What holds of the whole. -/
structure Sound (s : Activities) : Prop where
  jobs : EndKeys s.db
  tokens : s.TokensSound
  rounds : ∀ t run, s.rounds t = some run →
    s.jobLocks run.job = some (.round t) ∧ (s.db.jobs.get run.job).isSome = true
  alone : ∀ r r' reg reg', s.registers.get r = some reg → s.registers.get r' = some reg' →
    reg.request.deviceId = reg'.request.deviceId →
      reg.request.activityId = reg'.request.activityId → r = r'
  registers : ∀ r reg, s.registers.get r = some reg → s.RegisterSound r reg

theorem Sound.initial : Sound initial where
  jobs := .initial
  tokens := ⟨fun _ hsome => absurd rfl hsome, fun _ _ hheld => nomatch hheld⟩
  rounds := fun _ _ hrun => nomatch hrun
  alone := fun _ _ _ _ hreg => nomatch hreg
  registers := fun _ _ hreg => nomatch hreg

/-! ### What the others leave to a register -/

/-- What a step of others leaves to a register. -/
structure Undisturbed (r : RegisterId) (reg : Register) (s s' : Activities) : Prop where
  tokenLocks : ∀ k, s.tokenLocks k = some r → s'.tokenLocks k = some r
  scopes : ∀ k token, s.tokens.get k = some token →
    ∃ token', s'.tokens.get k = some token' ∧ token'.scopeKey = token.scopeKey
  tokens : ∀ k token', s'.tokens.get k = some token' → reg.request.isPrior token' = true →
    ∃ token, s.tokens.get k = some token ∧ reg.request.isPrior token = true ∧
      token'.tokenHash = token.tokenHash
  held : ∀ j job, s.jobLocks j = some (.register r) → s.db.jobs.get j = some job →
    s'.jobLocks j = some (.register r) ∧ s'.db.jobs.get j = some job
  holders : ∀ todo held, reg.stage = .retiring todo held → ∀ j job', s'.db.jobs.get j = some job' →
    reg.request.isHolder job' = true →
      (∃ job, s.db.jobs.get j = some job ∧ reg.request.isHolder job = true ∧
        (s.Young r reg.request j job → s'.Young r reg.request j job')) ∨
      s'.Young r reg.request j job'

theorem RegisterSound.undisturbed (h : s.RegisterSound r reg) (hkept : Undisturbed r reg s s') :
    s'.RegisterSound r reg where
  prior := fun old hstage k hk => by
    obtain ⟨token, htoken, hscope⟩ := h.prior old hstage k hk
    obtain ⟨token', htoken', hsame⟩ := hkept.scopes k token htoken
    exact ⟨token', htoken', hsame.trans hscope⟩
  tokens := fun k token' htoken' hprior' => by
    obtain ⟨token, htoken, hprior, hhash⟩ := hkept.tokens k token' htoken' hprior'
    have hcovers := h.tokens k token htoken hprior
    unfold Covers at hcovers ⊢
    split at hcovers
    next old _ =>
      rw [hhash]
      exact hcovers.imp_right (Or.imp_right (hkept.tokenLocks k))
    next => exact hkept.tokenLocks k hcovers
  held := fun todo held hstage j hj => by
    obtain ⟨hlock, job, hjob, hholder⟩ := h.held todo held hstage j hj
    obtain ⟨hlock', hjob'⟩ := hkept.held j job hlock hjob
    exact ⟨hlock', job, hjob', hholder⟩
  holders := fun todo held hstage j job' hjob' hholder' => by
    rcases hkept.holders todo held hstage j job' hjob' hholder' with
      ⟨job, hjob, hholder, hyoung⟩ | hyoung
    · exact (h.holders todo held hstage j job hjob hholder).imp_right (Or.imp_right hyoung)
    · exact .inr (.inr hyoung)

/-- A young job that others have written. -/
theorem Young.side (h : s.Young r request j job) (hside : job.Side job')
    (hactive : job'.status.dedupeActive = true) : s.Young r request j job' where
  waiting := by
    rcases PushJob.active_iff.mp hactive with hwaiting | hfinished
    · exact hwaiting
    · exact absurd (hside.finished hfinished) h.waiting.not_finished
  unsent := fun hsent => h.unsent (hside.sent hsent)
  device := hside.deviceId.trans h.device
  deliveries := fun d' hd' k hk => by
    obtain ⟨d, hd, htoken⟩ := hside.tokens d' hd'
    exact h.deliveries d hd k (htoken ▸ hk)
  found := h.found

/-- A job that a submission has just filed. -/
theorem Young.of_fresh (hfresh : job.Fresh) (hholder : request.isHolder job = true)
    (hrounds : ∀ t run, s.rounds t = some run → run.job ≠ j) : s.Young r request j job where
  waiting := by
    rcases PushJob.active_iff.mp (request.isHolder_iff.mp hholder).2.2 with hwaiting | hfinished
    · exact hwaiting
    · exact absurd hfinished hfresh.unfinished
  unsent := by
    rintro ⟨d, hd, -⟩
    rw [hfresh.deliveries] at hd
    cases hd
  device := hfresh.device _ _ (request.isHolder_iff.mp hholder).2.1
  deliveries := fun d hd => by
    rw [hfresh.deliveries] at hd
    cases hd
  found := fun t run hrun hj => absurd hj (hrounds t run hrun)

/-- What is young stays so where its deliveries and the rounds of it are as they were. -/
theorem Young.of_eq (h : s.Young r request j job) (hpush : s'.pushToken j = s.pushToken j)
    (hlocks : ∀ k, s.tokenLocks k = some r → s'.tokenLocks k = some r)
    (hrounds : ∀ t run, s'.rounds t = some run → s.rounds t = some run) : s'.Young r request j job :=
  { h with
    deliveries := fun d hd k hk => hlocks k (h.deliveries d hd k (hpush ▸ hk))
    found := fun t run hrun hj p hp => hlocks p.1 (h.found t run (hrounds t run hrun) hj p hp) }

/-! ### Transactions beside the rounds and the registers -/

/-- A row that another transaction holds stays as it is. -/
theorem spares_row {self : Option Holder} {db' : Db} {holder : Holder}
    (hspares : s.spares self db' = true) (hheld : s.jobLocks j = some holder)
    (hother : some holder ≠ self) (hjob : s.db.jobs.get j = some job) :
    db'.jobs.get j = some job := by
  have hkept := List.all_eq_true.mp hspares j
    ((Table.mem_keys_iff s.db.jobs j).mpr (by rw [hjob]; rfl))
  simpa [hheld, hother, hjob] using hkept

/-- A round's job keeps its row. -/
theorem Sound.job_below (h : s.Sound) {run : RoundRun} (hrun : s.rounds t = some run) :
    run.job < s.db.nextJob :=
  h.jobs.below run.job (Option.isSome_iff_ne_none.mp (h.rounds t run hrun).2)

theorem Undisturbed.sides (h : s.Sound) {db' : Db} (hsides : s.db.Sides db')
    (hspares : s.spares none db' = true) : Undisturbed r reg s { s with db := db' } where
  tokenLocks := fun _ => id
  scopes := fun _ token htoken => ⟨token, htoken, rfl⟩
  tokens := fun _ token htoken hprior => ⟨token, htoken, hprior, rfl⟩
  held := fun j job hlock hjob => ⟨hlock, spares_row hspares hlock (Option.some_ne_none _) hjob⟩
  holders := fun _ _ _ j job' hjob' hholder' => by
    obtain ⟨huser, hkey, hactive⟩ := reg.request.isHolder_iff.mp hholder'
    rcases hsides.rows j job' hjob' with ⟨job, hjob, hside⟩ | ⟨hnew, hfresh⟩
    · refine .inl ⟨job, hjob, reg.request.isHolder_iff.mpr ?_,
        fun hyoung => { hyoung.side hside hactive with }⟩
      exact ⟨hside.userId ▸ huser, hside.dedupeKey ▸ hkey, hside.active hactive⟩
    · refine .inr (.of_fresh hfresh hholder' fun t run hrun hj => ?_)
      exact absurd (h.job_below hrun) (Nat.not_lt.mpr (hj ▸ hnew))

theorem Sound.sides (h : s.Sound) {db' : Db} (hsides : s.db.Sides db')
    (hspares : s.spares none db' = true) : Sound { s with db := db' } :=
  { h with
    jobs := h.jobs.sides hsides
    tokens := { h.tokens with }
    rounds := fun t run hrun => by
      obtain ⟨hlock, hsome⟩ := h.rounds t run hrun
      obtain ⟨job, hjob⟩ := Option.isSome_iff_exists.mp hsome
      refine ⟨hlock, ?_⟩
      rw [spares_row hspares hlock (Option.some_ne_none _) hjob]
      rfl
    registers := fun r reg hreg => (h.registers r reg hreg).undisturbed (.sides h hsides hspares) }

/-! ### Rounds -/

theorem Undisturbed.of_rounds {rounds : TickId → Option RoundRun}
    {jobLocks : RowLocks JobId Holder}
    (hlocks : ∀ j, s.jobLocks j = some (.register r) → jobLocks j = some (.register r))
    (hfound : ∀ todo held, reg.stage = .retiring todo held → ∀ j job, s.db.jobs.get j = some job →
      reg.request.isHolder job = true → s.Young r reg.request j job →
        ∀ t run, rounds t = some run → run.job = j → ∀ p ∈ run.found, s.tokenLocks p.1 = some r) :
    Undisturbed r reg s { s with rounds, jobLocks } where
  tokenLocks := fun _ => id
  scopes := fun _ token htoken => ⟨token, htoken, rfl⟩
  tokens := fun _ token htoken hprior => ⟨token, htoken, hprior, rfl⟩
  held := fun j _ hlock hjob => ⟨hlocks j hlock, hjob⟩
  holders := fun todo held hstage j job hjob hholder =>
    .inl ⟨job, hjob, hholder, fun hyoung =>
      { hyoung with found := hfound todo held hstage j job hjob hholder hyoung }⟩

/-- A round begins without tokens. -/
theorem Sound.openRound (h : s.Sound) (hfree : s.jobLocks j = none)
    (hsome : (s.db.jobs.get j).isSome = true) :
    Sound { s with
      rounds := Function.update s.rounds t (some ⟨j, []⟩)
      jobLocks := s.jobLocks.lock (.round t) j } := by
  have hkept {j' : JobId} {holder : Holder} (hlock : s.jobLocks j' = some holder) :
      s.jobLocks.lock (.round t) j j' = some holder := RowLocks.lock_of_held hlock (.inl hfree)
  refine { h with
    tokens := { h.tokens with }
    rounds := fun t' run hrun => ?_
    registers := fun r reg hreg => (h.registers r reg hreg).undisturbed (.of_rounds
      (fun _ => hkept) fun _ _ _ j' _ _ _ hyoung t' run hrun hj p hp => ?_) }
  · rcases update_cases hrun with ⟨rfl, hnew⟩ | ⟨-, hold⟩
    · cases hnew
      exact ⟨RowLocks.lock_self, hsome⟩
    · exact ⟨hkept (h.rounds t' run hold).1, (h.rounds t' run hold).2⟩
  · rcases update_cases hrun with ⟨-, hnew⟩ | ⟨-, hold⟩
    · cases hnew
      cases hp
    · exact hyoung.found t' run hold hj p hp

/-- The tokens a round finds for a young job are the register's. -/
theorem Sound.found_held (h : s.Sound) (hreg : s.registers.get r = some reg) {todo held : List JobId}
    (hstage : reg.stage = .retiring todo held) (hjob : s.db.jobs.get j = some job)
    (hholder : reg.request.isHolder job = true) (hdevice : job.deviceId = some reg.request.deviceId)
    {found : List (TokenId × TokenRow)} (hfind : s.mayFind j found = true) :
    ∀ p ∈ found, s.tokenLocks p.1 = some r := by
  intro p hp
  simp only [mayFind, hjob, Option.any_some, Bool.and_eq_true, List.all_eq_true] at hfind
  obtain ⟨token, htoken, hmatch⟩ := (Option.any_eq_true ..).mp (hfind.2 p hp)
  simp only [Bool.and_eq_true, decide_eq_true_eq] at hmatch
  obtain ⟨⟨⟨⟨hactive, hsame⟩, hscope⟩, -⟩, -⟩ := hmatch
  -- The job says the device, and its payload the activity.
  have hactivity := (h.jobs.shape j job hjob _ _ (reg.request.isHolder_iff.mp hholder).2.1).2
  have hcovers := (h.registers r reg hreg).tokens p.1 token htoken (by
    rw [hdevice] at hsame
    rw [hactivity] at hscope
    simp [RegisterRequest.isPrior, hactive, Option.some.inj hsame, Option.some.inj hscope])
  rwa [Covers, hstage] at hcovers

theorem Sound.selectTokens (h : s.Sound) {run : RoundRun} (hrun : s.rounds t = some run)
    {found : List (TokenId × TokenRow)} (hfind : s.mayFind run.job found = true) :
    Sound { s with rounds := Function.update s.rounds t (some { run with found }) } := by
  refine { h with
    tokens := { h.tokens with }
    rounds := fun t' run' hrun' => ?_
    registers := fun r reg hreg => ?_ }
  · rcases update_cases hrun' with ⟨rfl, hnew⟩ | ⟨-, hold⟩
    · cases hnew
      exact h.rounds t' run hrun
    · exact h.rounds t' run' hold
  · refine (h.registers r reg hreg).undisturbed (.of_rounds (fun _ => id)
      fun todo held hstage j job hjob hholder hyoung t' run' hrun' hj p hp => ?_)
    rcases update_cases hrun' with ⟨-, hnew⟩ | ⟨-, hold⟩
    · obtain rfl := Option.some.inj hnew
      exact h.found_held hreg hstage hjob hholder hyoung.device (hj ▸ hfind) p hp
    · exact hyoung.found t' run' hold hj p hp

/-- A round that ends gives its job back. -/
theorem Sound.endRound (h : s.Sound) (t : TickId) : Sound (s.endRound t) := by
  have hold {t' : TickId} {run : RoundRun}
      (hrun : Function.update s.rounds t none t' = some run) : t' ≠ t ∧ s.rounds t' = some run := by
    rcases update_cases hrun with ⟨-, hnone⟩ | hother
    · cases hnone
    · exact hother
  refine { h with
    tokens := { h.tokens with }
    rounds := fun t' run hrun => ?_
    registers := fun r reg hreg => (h.registers r reg hreg).undisturbed (.of_rounds
      (fun j hlock => RowLocks.release_of_held hlock Holder.noConfusion)
      fun _ _ _ _ _ _ _ hyoung t' run hrun => hyoung.found t' run (hold hrun).2) }
  obtain ⟨hother, hrun⟩ := hold hrun
  obtain ⟨hlock, hsome⟩ := h.rounds t' run hrun
  exact ⟨RowLocks.release_of_held hlock fun heq => hother (Holder.round.inj heq), hsome⟩

/-- A young job's deliveries go to the register's tokens, those its round files included. -/
theorem Young.tokenOf {run : RoundRun} (h : s.Young r request run.job job)
    (hjob : s.db.jobs.get run.job = some job) (hrun : s.rounds t = some run) {key : TokenKey}
    (hk : s.tokenOf run key = some k) : s.tokenLocks k = some r := by
  unfold Activities.tokenOf at hk
  rw [hjob, Option.any_some] at hk
  split at hk
  next hfiled =>
    obtain ⟨d, hd, htoken⟩ := List.any_eq_true.mp hfiled
    exact h.deliveries d hd k (of_decide_eq_true htoken ▸ hk)
  next =>
    obtain ⟨p, hfind, rfl⟩ := Option.map_eq_some_iff.mp hk
    exact h.found t run hrun rfl p (List.mem_of_find?_eq_some hfind)

/-- A round of a young job that may commit has handed nothing over. -/
theorem Young.handed {run : RoundRun} {now : Time} {round : Round}
    (h : s.Young r request run.job job) (hshape : job.isEnd = true)
    (hjob : s.db.jobs.get run.job = some job) (hrun : s.rounds t = some run)
    (hmay : s.mayCommit cfg t run job now round = true) : s.handed cfg t now round = [] := by
  refine List.eq_nil_iff_forall_not_mem.mpr fun d hd => ?_
  simp only [mayCommit, hshape, Bool.not_true, Bool.false_or, Bool.and_eq_true,
    List.all_eq_true] at hmay
  obtain ⟨k, hk, hfree⟩ := (Option.any_eq_true ..).mp (hmay.2 d hd)
  rw [h.tokenOf hjob hrun hk] at hfree
  cases hfree

/-- A young job stays young, or ends, with a round that may commit. -/
theorem Young.process {run : RoundRun} {now : Time} {round : Round} {workerId : String}
    {check : Option PresendCheck} (h : s.Young r request run.job job) (hshape : job.isEnd = true)
    (hjob : s.db.jobs.get run.job = some job) (hrun : s.rounds t = some run)
    (hmay : s.mayCommit cfg t run job now round = true)
    (hentering : (job.status = .processing ∧ job.lockedBy = some workerId) →
      s.db.entering cfg t now round = (job.delivering cfg now check round).map (run.job, ·))
    (hactive : (job.process cfg workerId now check round).1.status.dedupeActive = true)
    (hs : s' = { s with pushToken := Function.update s.pushToken run.job (s.tokenOf run) }.endRound t) :
    s'.Young r request run.job (job.process cfg workerId now check round).1 := by
  have hnone : ∀ job', (job.status = .processing ∧ job.lockedBy = some workerId) →
      job.delivering cfg now check round = some job' → ∀ d ∈ job'.deliveries,
        PushJob.dueDelivery now d = true → (round.sends d.token).handed = false := by
    intro job' hclaimed hdelivering d hd hdue
    have hhanded := h.handed hshape hjob hrun hmay
    rw [Activities.handed, hentering hclaimed, hdelivering] at hhanded
    have hnot := List.filter_eq_nil_iff.mp hhanded d hd
    simpa [hdue] using hnot
  obtain ⟨hunsent, hunfinished⟩ := PushJob.process_unsent h.waiting h.unsent hnone
  have hsame := PushJob.process_sameRow cfg job workerId now check round
  subst hs
  exact {
    waiting := (PushJob.active_iff.mp hactive).resolve_right hunfinished
    unsent := hunsent
    device := hsame.deviceId.trans h.device
    deliveries := fun d _ k hk => by
      have hk' : Function.update s.pushToken run.job (s.tokenOf run) run.job d.token = some k := hk
      rw [Function.update_self] at hk'
      exact h.tokenOf hjob hrun hk'
    found := fun t' run' hrun' => by
      rcases update_cases hrun' with ⟨-, hgone⟩ | ⟨-, hold⟩
      · cases hgone
      · exact h.found t' run' hold }

/-- Rewriting tokens without a new active one, nor another scope. -/
theorem Undisturbed.tokens_modify {f : TokenId → UpdateToken → UpdateToken}
    (hf : ∀ k token, s.tokens.get k = some token → reg.request.isPrior (f k token) = true →
      reg.request.isPrior token = true ∧ (f k token).tokenHash = token.tokenHash) (k : TokenId)
    (token' : UpdateToken) (htoken' : (s.tokens.modify f).get k = some token')
    (hprior : reg.request.isPrior token' = true) :
    ∃ token, s.tokens.get k = some token ∧ reg.request.isPrior token = true ∧
      token'.tokenHash = token.tokenHash := by
  rw [Table.get_modify] at htoken'
  obtain ⟨token, htoken, rfl⟩ := Option.map_eq_some_iff.mp htoken'
  exact ⟨token, htoken, hf k token htoken hprior⟩

theorem Undisturbed.scopes_modify {f : TokenId → UpdateToken → UpdateToken}
    (hf : ∀ k token, (f k token).scopeKey = token.scopeKey) (k : TokenId) (token : UpdateToken)
    (htoken : s.tokens.get k = some token) :
    ∃ token', (s.tokens.modify f).get k = some token' ∧ token'.scopeKey = token.scopeKey :=
  ⟨f k token, by rw [Table.get_modify, htoken]; rfl, hf k token⟩

theorem TokensSound.modify (h : s.TokensSound) {f : TokenId → UpdateToken → UpdateToken}
    (hf : ∀ k token, (f k token).scopeKey = token.scopeKey) :
    TokensSound { s with tokens := s.tokens.modify f } where
  below := fun k hsome => by
    refine h.below k fun hnone => hsome ?_
    rw [Table.get_modify, hnone]
    rfl
  held := fun k r hheld => by
    obtain ⟨reg, token, hreg, htoken, hscope⟩ := h.held k r hheld
    exact ⟨reg, f k token, hreg, by rw [Table.get_modify, htoken]; rfl, (hf k token).trans hscope⟩

section CommitRound

variable {run : RoundRun} {now : Time} {round : Round} {skip : JobId → Bool}
  {ends : List RunningActivity} {db' : Db}

theorem sentRow_scopeKey (cfg : Settings) (s : Activities) (t : TickId) (run : RoundRun) (now : Time)
    (round : Round) (k : TokenId) (token : UpdateToken) :
    (s.sentRow cfg t run now round k token).scopeKey = token.scopeKey := by
  unfold sentRow
  split <;> rfl

/-- The state after a round's commit. -/
def committed (cfg : Settings) (s : Activities) (t : TickId) (run : RoundRun) (now : Time)
    (round : Round) (db' : Db) : Activities :=
  { s with
    db := db'
    tokens := s.tokens.modify (s.sentRow cfg t run now round)
    pushToken := Function.update s.pushToken run.job (s.tokenOf run) }.endRound t

variable (h : s.Sound) (hrun : s.rounds t = some run) (hjob : s.db.jobs.get run.job = some job)
  (hstep : Push.step cfg s.db
    (.process t now round skip (ends.map (Push.endJob job.userId now))) = some db')
  (hhead : s.db.head t = some run.job) (hmay : s.mayCommit cfg t run job now round = true)
  (hends : ends.all (·.fits) = true) (hspares : s.spares (some (.round t)) db' = true)

include h hrun hjob hstep hhead hmay hends hspares

theorem Undisturbed.commitRound : Undisturbed r reg s (committed cfg s t run now round db') where
  tokenLocks := fun _ => id
  scopes := Undisturbed.scopes_modify (sentRow_scopeKey cfg s t run now round)
  tokens := by
    refine Undisturbed.tokens_modify fun k token htoken hprior => ?_
    unfold sentRow at hprior ⊢
    split at hprior
    next => cases hprior
    next hkept =>
      rw [if_neg hkept]
      exact ⟨hprior, rfl⟩
  held := fun j job' hlock hjob' =>
    ⟨RowLocks.release_of_held hlock Holder.noConfusion,
      spares_row hspares hlock (fun heq => Holder.noConfusion (Option.some.inj heq)) hjob'⟩
  holders := fun todo held hstage j job'' hjob'' hholder'' => by
    obtain ⟨huser, hkey, hactive⟩ := reg.request.isHolder_iff.mp hholder''
    obtain ⟨workerId, check, hentering, hsides⟩ :=
      process_step h.jobs.below hends hstep hhead hjob
    rcases hsides.rows j job'' hjob'' with ⟨row, hrow, hside⟩ | ⟨hnew, hfresh⟩
    · rw [Db.get_updateJob] at hrow
      obtain ⟨old, hold, rfl⟩ := Option.map_eq_some_iff.mp hrow
      have hactive' := hside.active hactive
      by_cases hj : j = run.job
      · -- The round's own job.
        subst hj
        obtain rfl : old = job := Option.some.inj (hold.symm.trans hjob)
        rw [if_pos rfl] at hside hactive'
        have hsame := PushJob.process_sameRow cfg old workerId now check round
        have hholder : reg.request.isHolder old = true := by
          refine reg.request.isHolder_iff.mpr ⟨?_, ?_, PushJob.process_active hactive'⟩
          · rw [← hsame.userId, ← hside.userId, huser]
          · rw [← hsame.dedupeKey, ← hside.dedupeKey, hkey]
        have hshape := (h.jobs.shape run.job old hjob _ _
          (reg.request.isHolder_iff.mp hholder).2.1).1
        refine .inl ⟨old, hjob, hholder, fun hyoung => ?_⟩
        have hprocessed := hyoung.process hshape hjob hrun hmay hentering hactive' rfl
        exact { hprocessed.side hside hactive with }
      · rw [if_neg hj] at hside hactive'
        refine .inl ⟨old, hold, reg.request.isHolder_iff.mpr ?_, fun hyoung => ?_⟩
        · exact ⟨hside.userId ▸ huser, hside.dedupeKey ▸ hkey, hactive'⟩
        · refine (hyoung.side hside hactive).of_eq (Function.update_of_ne hj ..) (fun _ => id) ?_
          intro t' run' hrun'
          rcases update_cases hrun' with ⟨-, hgone⟩ | ⟨-, hold⟩
          · cases hgone
          · exact hold
    · refine .inr (.of_fresh hfresh hholder'' fun t' run' hrun' hj => ?_)
      rcases update_cases hrun' with ⟨-, hgone⟩ | ⟨-, hold⟩
      · cases hgone
      · exact absurd (h.job_below hold) (Nat.not_lt.mpr (hj ▸ hnew))

theorem Sound.commitRound : Sound (committed cfg s t run now round db') := by
  obtain ⟨workerId, check, -, hsides⟩ := process_step h.jobs.below hends hstep hhead hjob
  have htokens : TokensSound { s with tokens := s.tokens.modify (s.sentRow cfg t run now round) } :=
    h.tokens.modify (sentRow_scopeKey cfg s t run now round)
  refine { h with
    jobs := (h.jobs.updateProcessed hjob workerId check round).sides hsides
    tokens := { htokens with }
    rounds := fun t' run' hrun' => ?_
    registers := fun r reg hreg => (h.registers r reg hreg).undisturbed
      (.commitRound h hrun hjob hstep hhead hmay hends hspares) }
  rcases update_cases hrun' with ⟨-, hgone⟩ | ⟨hother, hold⟩
  · cases hgone
  obtain ⟨hlock, hsome⟩ := h.rounds t' run' hold
  obtain ⟨row, hrow⟩ := Option.isSome_iff_exists.mp hsome
  have hne : Holder.round t' ≠ .round t := fun heq => hother (Holder.round.inj heq)
  have hkept : db'.jobs.get run'.job = some row :=
    spares_row hspares hlock (fun heq => hne (Option.some.inj heq)) hrow
  exact ⟨RowLocks.release_of_held hlock hne, Option.isSome_iff_exists.mpr ⟨row, hkept⟩⟩

end CommitRound

end Activities

end TigerDuck.Push
